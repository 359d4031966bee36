/-
ReMax in a training step (verl/trainer/ppo/ray_trainer.py, and the same code
in verl/experimental/separation/ray_trainer.py): the greedy baseline rollout
is merged into the batch, scored and removed; then the sampled rollout is
merged and scored.
-/
import SelfDistillation.DataProtoUnion

namespace SelfDistillation

open Gather

variable {τ ν μ : Type}

/-- The reward side of a trainer.  `compute_rm_score` asks the colocated
reward model. -/
structure RemaxTrainer (τ ν μ : Type) where
  useRm : Bool
  computeRewardColocate : DataProto τ ν μ → Py (DataProto τ ν μ)
  /-- `tensor.sum(dim=-1)` -/
  sumLastDim : Column τ → Column τ
  sum_rows : ∀ column, (sumLastDim column).rows.length = column.rows.length

/-- What the training step does between the ReMax block and the reward. -/
structure LaterSteps (τ ν μ : Type) where
  rolloutN : Nat
  computeResponseMask : DataProto τ ν μ → Py (Column τ)
  /-- The order `_balance_batch` takes, if `trainer.balance_batch` is set. -/
  balanceOrder : Option (DataProto τ ν μ → Py (List Nat))
  /-- `meta_info` with `global_token_num` and `images_seqlens` noted. -/
  noteLengths : DataProto τ ν μ → Py (PyDict μ)
  /-- The keys a `reward_extra_keys` entry of `meta_info` lists. -/
  rewardExtraKeys : μ → List String

/-- `keys_to_pop` -/
def keysToPop (genBaselineOutput : DataProto τ ν μ)
    (rmScores : Option (DataProto τ ν μ)) : List String :=
  match rmScores with
  | none => genBaselineOutput.tensors.keys
  | some scores =>
      genBaselineOutput.tensors.keys ++
        scores.tensors.keys.filter (· ∉ genBaselineOutput.tensors.keys)

section Step

variable [BEq (Column τ)] [BEq (List ν)] [BEq μ]

/-- The reward model scores a batch without `rm_scores`. -/
def RemaxTrainer.scoreIfMissing (trainer : RemaxTrainer τ ν μ)
    (batch : DataProto τ ν μ) : Py (DataProto τ ν μ) :=
  if trainer.useRm && !batch.tensors.contains "rm_scores" then do
    let batchReward ← trainer.computeRewardColocate batch
    batch.union batchReward
  else .ok batch

/-- The block for `AdvantageEstimator.REMAX`. -/
def RemaxTrainer.remaxBlock (trainer : RemaxTrainer τ ν μ)
    (batch genBaselineOutput : DataProto τ ν μ) : Py (DataProto τ ν μ) := do
  let batch ← batch.union genBaselineOutput
  -- nothing is assigned to `rm_scores` any more
  let rmScores : Option (DataProto τ ν μ) := none
  let batch ← trainer.scoreIfMissing batch
  let scores ← batch.tensors.get "rm_scores"
  let (_, batch) ← batch.pop (keysToPop genBaselineOutput rmScores)
  batch.setTensor "reward_baselines" (trainer.sumLastDim scores)

/-- The sampled rollout in the batch. -/
def LaterSteps.mergeSampled (later : LaterSteps τ ν μ)
    (batch genBatchOutput : DataProto τ ν μ) : Py (DataProto τ ν μ) := do
  let batch ← batch.repeatData later.rolloutN true
  let batch ← batch.union genBatchOutput
  if batch.tensors.contains "response_mask" then return batch
  else do
    let mask ← later.computeResponseMask batch
    batch.setTensor "response_mask" mask

def LaterSteps.balance (later : LaterSteps τ ν μ) (batch : DataProto τ ν μ) :
    Py (DataProto τ ν μ) :=
  match later.balanceOrder with
  | none => .ok batch
  | some order => do
      let indices ← order batch
      batch.reorder indices

/-- The batch the rewards are extracted from, before it is scored. -/
def LaterSteps.prepare (later : LaterSteps τ ν μ)
    (batch genBatchOutput : DataProto τ ν μ) : Py (DataProto τ ν μ) := do
  let batch ← later.mergeSampled batch genBatchOutput
  let batch ← later.balance batch
  let metaInfo ← later.noteLengths batch
  return { batch with metaInfo }

/-- `extract_reward` -/
def LaterSteps.extractReward (later : LaterSteps τ ν μ)
    (batch : DataProto τ ν μ) : Py (Column τ × PyDict (List ν)) := do
  let rewardTensor ← batch.tensors.get "rm_scores"
  let rewardExtraKeys :=
    ((batch.metaInfo.get? "reward_extra_keys").map
      later.rewardExtraKeys).getD []
  let rewardExtraInfos ← rewardExtraKeys.foldlM (fun infos key => do
    let val ← batch.nonTensorBatch.get key
    return infos.set key val) PyDict.empty
  return (rewardTensor, rewardExtraInfos)

/-- The rewards of the training step, after the ReMax block. -/
def RemaxTrainer.rewards (trainer : RemaxTrainer τ ν μ)
    (later : LaterSteps τ ν μ) (batch genBatchOutput : DataProto τ ν μ) :
    Py (Column τ × PyDict (List ν)) := do
  let batch ← later.prepare batch genBatchOutput
  let batch ← trainer.scoreIfMissing batch
  later.extractReward batch

/-- The rewards are those of the sampled rollout, whose columns the prepared
batch holds in one order: the scores it came with, or else those the reward
model gives for the prepared batch. -/
def RewardsOfSampled (trainer : RemaxTrainer τ ν μ)
    (after genBatchOutput prepared : DataProto τ ν μ) (reward : Column τ) :
    Prop :=
  ∃ order : List Nat,
    (∀ key column, key ∉ after.tensors.keys →
      genBatchOutput.tensors.get? key = some column →
        ∃ column', column.select order = .ok column' ∧
          prepared.tensors.get? key = some column') ∧
    match genBatchOutput.tensors.get? "rm_scores" with
    | some scores => scores.select order = .ok reward
    | none => "rm_scores" ∉ prepared.tensors.keys ∧
        ∃ scored, trainer.computeRewardColocate prepared = .ok scored ∧
          scored.tensors.get? "rm_scores" = some reward

/-- The baseline rollout leaves nothing but the baselines: the keys of the
batch are as before, and whatever is sampled is rewarded for itself. -/
structure LeavesNoTrace (trainer : RemaxTrainer τ ν μ)
    (batch after : DataProto τ ν μ) : Prop where
  tensorKeys : ∀ key, key ∈ after.tensors.keys ↔
    key ∈ batch.tensors.keys ∨ key = "reward_baselines"
  nonTensorKeys : ∀ key, key ∈ after.nonTensorBatch.keys ↔
    key ∈ batch.nonTensorBatch.keys
  rewards : ∀ (later : LaterSteps τ ν μ)
    (genBatchOutput prepared scored : DataProto τ ν μ)
    (reward : Column τ) (infos : PyDict (List ν)),
    later.prepare after genBatchOutput = .ok prepared →
    trainer.scoreIfMissing prepared = .ok scored →
    later.extractReward scored = .ok (reward, infos) →
    RewardsOfSampled trainer after genBatchOutput prepared reward

/-- The baseline rollout can be merged, brings its own scores and no key that
the batch has or that is not popped. -/
structure Removable (batch genBaselineOutput : DataProto τ ν μ) : Prop where
  mergeable : DataProto.Mergeable batch genBaselineOutput
  scored : "rm_scores" ∈ genBaselineOutput.tensors.keys
  tensors : ∀ key ∈ genBaselineOutput.tensors.keys,
    key ∈ batch.tensors.keys → key = "reward_baselines"
  nonTensors : ∀ key ∈ genBaselineOutput.nonTensorBatch.keys,
    key ∈ batch.nonTensorBatch.keys

variable {trainer : RemaxTrainer τ ν μ} {later : LaterSteps τ ν μ}
  {batch batch' genBaselineOutput genBatchOutput : DataProto τ ν μ}

theorem mem_keys_of_union (h : batch.union genBatchOutput = .ok batch')
    (key : String) :
    (key ∈ batch'.tensors.keys ↔
        key ∈ batch.tensors.keys ∨ key ∈ genBatchOutput.tensors.keys) ∧
      (key ∈ batch'.nonTensorBatch.keys ↔
        key ∈ batch.nonTensorBatch.keys ∨
          key ∈ genBatchOutput.nonTensorBatch.keys) := by
  have hunion := (DataProto.union_of_eq_ok h).2
  constructor <;> rw [← not_iff_not, not_or] <;>
    simp only [← PyDict.get?_eq_none_iff]
  · rw [hunion.tensors, PyDict.joined_eq_none]
  · rw [hunion.nonTensors, PyDict.joined_eq_none]

theorem scoreIfMissing_of_mem (h : "rm_scores" ∈ batch.tensors.keys) :
    trainer.scoreIfMissing batch = .ok batch := by
  rw [RemaxTrainer.scoreIfMissing, PyDict.contains_eq_true.mpr h]
  simp

/-- A batch without scores is scored, or the trainer has no reward model. -/
theorem scoreIfMissing_of_notMem (h : "rm_scores" ∉ batch.tensors.keys)
    (hscore : trainer.scoreIfMissing batch = .ok batch') :
    batch' = batch ∨ ∃ batchReward,
      trainer.computeRewardColocate batch = .ok batchReward ∧
        batch.union batchReward = .ok batch' := by
  have hmissing : batch.tensors.contains "rm_scores" = false :=
    decide_eq_false h
  rw [RemaxTrainer.scoreIfMissing, hmissing] at hscore
  cases huse : trainer.useRm with
  | false =>
      rw [huse] at hscore
      exact .inl (Except.ok.inj hscore).symm
  | true =>
      rw [huse] at hscore
      exact .inr (bind_eq_ok.mp hscore)

/-- Scoring removes no key and keeps the rows. -/
theorem scoreIfMissing_keeps (h : trainer.scoreIfMissing batch = .ok batch') :
    (∀ key ∈ batch.tensors.keys, key ∈ batch'.tensors.keys) ∧
      (∀ key ∈ batch.nonTensorBatch.keys,
        key ∈ batch'.nonTensorBatch.keys) ∧
      ∀ td, batch.batch = some td →
        ∃ td', batch'.batch = some td' ∧ td'.batchSize = td.batchSize := by
  by_cases hmem : "rm_scores" ∈ batch.tensors.keys
  · rw [scoreIfMissing_of_mem hmem] at h
    cases h
    exact ⟨fun _ h => h, fun _ h => h, fun td h => ⟨td, h, rfl⟩⟩
  · rcases scoreIfMissing_of_notMem hmem h with rfl | ⟨batchReward, -, hunion⟩
    · exact ⟨fun _ h => h, fun _ h => h, fun td h => ⟨td, h, rfl⟩⟩
    · refine ⟨fun key hkey => (mem_keys_of_union hunion key).1.mpr (.inl hkey),
        fun key hkey => (mem_keys_of_union hunion key).2.mpr (.inl hkey),
        fun td htd => ?_⟩
      obtain ⟨td₀, td', h₀, h', hsize⟩ :=
        (DataProto.union_of_eq_ok hunion).2.batch
      rw [htd] at h₀
      cases h₀
      exact ⟨td', h', hsize⟩

/-- What the block leaves of a batch that was merged and scored: everything
but the tensor keys of the baseline rollout. -/
theorem remaxBlock_of_scored {merged scored : DataProto τ ν μ}
    (hunion : batch.union genBaselineOutput = .ok merged)
    (hscore : trainer.scoreIfMissing merged = .ok scored)
    (hmem : "rm_scores" ∈ scored.tensors.keys) :
    ∃ after td, trainer.remaxBlock batch genBaselineOutput = .ok after ∧
      after.batch = some td ∧
      (∀ key, key ∈ after.tensors.keys ↔ key = "reward_baselines" ∨
        key ∉ genBaselineOutput.tensors.keys ∧ key ∈ scored.tensors.keys) ∧
      after.nonTensorBatch = scored.nonTensorBatch := by
  obtain ⟨htensors, -, hbatch⟩ := scoreIfMissing_keeps hscore
  obtain ⟨-, td₁, -, h₁, -⟩ := (DataProto.union_of_eq_ok hunion).2.batch
  obtain ⟨td, htd, -⟩ := hbatch td₁ h₁
  obtain ⟨scores, hscores⟩ := PyDict.mem_keys_iff.mp hmem
  have hrows : (trainer.sumLastDim scores).rows.length = td.batchSize := by
    rw [trainer.sum_rows]
    rw [DataProto.tensors_of_batch htd] at hscores
    exact TensorDict.get?_length hscores
  obtain ⟨popped, rest, td', hpop, hrest, hsize, hget, hnon, -⟩ :=
    DataProto.pop_eq_ok htd genBaselineOutput.tensors.nodup fun key hkey =>
      htensors key ((mem_keys_of_union hunion key).1.mpr (.inr hkey))
  obtain ⟨after, td'', hset, hafter, -, hcolumns, hnon', -⟩ :=
    DataProto.setTensor_eq_ok hrest "reward_baselines" (hrows.trans hsize.symm)
  refine ⟨after, td'', ?_, hafter, fun key => ?_, hnon'.trans hnon⟩
  · simp only [RemaxTrainer.remaxBlock, bind_eq_ok]
    refine ⟨merged, hunion, scored, hscore, scores, ?_, (popped, rest), hpop,
      hset⟩
    exact PyDict.get_eq_ok.mpr (PyDict.get?_eq_some_iff.mp hscores)
  · rw [hcolumns, ← not_iff_not, not_or, not_and, ← PyDict.get?_eq_none_iff,
      PyDict.get?_set]
    by_cases hkey : key = "reward_baselines"
    · simp [hkey]
    · rw [if_neg hkey, hget]
      by_cases hpopped : key ∈ genBaselineOutput.tensors.entries.map Prod.fst
      · simp [hkey, hpopped, PyDict.keys]
      · rw [if_neg hpopped, PyDict.get?_eq_none_iff]
        simp [hkey, hpopped, PyDict.keys]

theorem remaxBlock_eq_ok {after : DataProto τ ν μ}
    (h : trainer.remaxBlock batch genBaselineOutput = .ok after) :
    ∃ merged scored, batch.union genBaselineOutput = .ok merged ∧
      trainer.scoreIfMissing merged = .ok scored ∧
      "rm_scores" ∈ scored.tensors.keys := by
  simp only [RemaxTrainer.remaxBlock, bind_eq_ok] at h
  obtain ⟨merged, hunion, scored, hscore, scores, hscores, -⟩ := h
  refine ⟨merged, scored, hunion, hscore, PyDict.mem_keys_iff.mpr ⟨scores, ?_⟩⟩
  exact PyDict.get?_eq_some_iff.mpr (PyDict.get_eq_ok.mp hscores)

/-- The columns of the sampled rollout that the batch does not have are in
the merged batch as they are. -/
theorem mergeSampled_holds
    (h : later.mergeSampled batch genBatchOutput = .ok batch') :
    (∀ key column, key ∉ batch.tensors.keys →
      genBatchOutput.tensors.get? key = some column →
        batch'.tensors.get? key = some column) ∧
    ∀ key ∈ batch'.tensors.keys, key ∈ batch.tensors.keys ∨
      key ∈ genBatchOutput.tensors.keys ∨ key = "response_mask" := by
  simp only [LaterSteps.mergeSampled, bind_eq_ok] at h
  obtain ⟨repeated, hrepeat, merged, hunion, h⟩ := h
  have hkeys := DataProto.keys_of_repeatData hrepeat
  have hcolumns := (DataProto.union_of_eq_ok hunion).2.tensors
  have hmerged : ∀ key column, key ∉ batch.tensors.keys →
      genBatchOutput.tensors.get? key = some column →
        merged.tensors.get? key = some column := by
    intro key column hkey hget
    rw [← hkeys] at hkey
    rw [hcolumns, PyDict.get?_eq_none_iff.mpr hkey, hget]
    rfl
  have hfrom : ∀ key ∈ merged.tensors.keys, key ∈ batch.tensors.keys ∨
      key ∈ genBatchOutput.tensors.keys := fun key hkey =>
    hkeys ▸ (mem_keys_of_union hunion key).1.mp hkey
  split at h
  · cases h
    exact ⟨hmerged, fun key hkey => (hfrom key hkey).imp_right .inl⟩
  · rename_i hmask
    rw [PyDict.contains_eq_true] at hmask
    obtain ⟨mask, -, h⟩ := bind_eq_ok.mp h
    have hset := DataProto.tensors_of_setTensor h
    constructor
    · intro key column hkey hget
      have hne : key ≠ "response_mask" := by
        rintro rfl
        exact hmask (PyDict.mem_keys_iff.mpr ⟨column, hmerged _ _ hkey hget⟩)
      rw [hset, PyDict.get?_set, if_neg hne]
      exact hmerged key column hkey hget
    · intro key hkey
      by_cases hne : key = "response_mask"
      · exact .inr (.inr hne)
      · rw [PyDict.mem_keys_iff, hset, PyDict.get?_set, if_neg hne,
          ← PyDict.mem_keys_iff] at hkey
        exact (hfrom key hkey).imp_right .inl

omit [BEq (Column τ)] [BEq (List ν)] [BEq μ] in
/-- Balancing puts the rows of every column in one order. -/
theorem balance_reorders (h : later.balance batch = .ok batch') :
    batch'.tensors.keys = batch.tensors.keys ∧
      ∃ order, ∀ key column, batch.tensors.get? key = some column →
        ∃ column', column.select order = .ok column' ∧
          batch'.tensors.get? key = some column' := by
  unfold LaterSteps.balance at h
  split at h
  · cases h
    refine ⟨rfl, List.range batch.length, fun key column hget => ?_⟩
    refine ⟨column, Column.select_eq_ok.mpr ⟨rfl, ?_⟩, hget⟩
    cases htd : batch.batch with
    | none => simp [DataProto.tensors, htd, PyDict.empty, PyDict.get?] at hget
    | some td =>
        rw [DataProto.tensors_of_batch htd] at hget
        simp only [DataProto.length, htd, ← TensorDict.get?_length hget]
        exact gather_range column.rows
  · rename_i order _
    obtain ⟨indices, -, h⟩ := bind_eq_ok.mp h
    exact ⟨DataProto.keys_of_reorder h, indices,
      fun key column => DataProto.get?_of_reorder h⟩

/-- The prepared batch holds the sampled rollout in one order. -/
theorem prepare_holds (h : later.prepare batch genBatchOutput = .ok batch') :
    (∃ order : List Nat, ∀ key column, key ∉ batch.tensors.keys →
      genBatchOutput.tensors.get? key = some column →
        ∃ column', column.select order = .ok column' ∧
          batch'.tensors.get? key = some column') ∧
    ∀ key ∈ batch'.tensors.keys, key ∈ batch.tensors.keys ∨
      key ∈ genBatchOutput.tensors.keys ∨ key = "response_mask" := by
  simp only [LaterSteps.prepare, bind_eq_ok] at h
  obtain ⟨merged, hmerge, balanced, hbalance, metaInfo, -, h⟩ := h
  obtain rfl := (Except.ok.inj h).symm
  obtain ⟨hget, hfrom⟩ := mergeSampled_holds hmerge
  obtain ⟨hkeys, order, horder⟩ := balance_reorders hbalance
  refine ⟨⟨order, fun key column hkey hcolumn => ?_⟩, fun key hkey => ?_⟩
  · exact horder key column (hget key column hkey hcolumn)
  · exact hfrom key (hkeys ▸ hkey)

omit [BEq (Column τ)] [BEq (List ν)] [BEq μ] in
theorem get?_of_extractReward {reward : Column τ} {infos : PyDict (List ν)}
    (h : later.extractReward batch = .ok (reward, infos)) :
    batch.tensors.get? "rm_scores" = some reward := by
  simp only [LaterSteps.extractReward, bind_eq_ok] at h
  obtain ⟨scores, hscores, _, -, h⟩ := h
  obtain rfl : scores = reward := (Prod.ext_iff.mp (Except.ok.inj h)).1
  exact PyDict.get?_eq_some_iff.mpr (PyDict.get_eq_ok.mp hscores)

/-- After a block that left no scores, the sampled rollout is rewarded for
itself. -/
theorem rewardsOfSampled {after prepared scored : DataProto τ ν μ}
    {reward : Column τ} {infos : PyDict (List ν)}
    (hmissing : "rm_scores" ∉ after.tensors.keys)
    (hprepare : later.prepare after genBatchOutput = .ok prepared)
    (hscore : trainer.scoreIfMissing prepared = .ok scored)
    (hextract : later.extractReward scored = .ok (reward, infos)) :
    RewardsOfSampled trainer after genBatchOutput prepared reward := by
  obtain ⟨⟨order, horder⟩, hfrom⟩ := prepare_holds hprepare
  have hreward := get?_of_extractReward hextract
  refine ⟨order, horder, ?_⟩
  cases hgen : genBatchOutput.tensors.get? "rm_scores" with
  | some scores =>
      obtain ⟨column, hselect, hget⟩ := horder _ _ hmissing hgen
      rw [scoreIfMissing_of_mem (PyDict.mem_keys_iff.mpr ⟨column, hget⟩)]
        at hscore
      cases hscore
      rw [hget] at hreward
      exact hselect.trans (congrArg Except.ok (Option.some.inj hreward))
  | none =>
      have hnot : "rm_scores" ∉ prepared.tensors.keys := by
        intro hmem
        rcases hfrom _ hmem with h | h | h
        · exact hmissing h
        · exact PyDict.get?_eq_none_iff.mp hgen h
        · exact absurd h (by decide)
      refine ⟨hnot, ?_⟩
      rcases scoreIfMissing_of_notMem hnot hscore with rfl |
        ⟨batchReward, hcompute, hunion⟩
      · exact absurd (PyDict.mem_keys_iff.mpr ⟨_, hreward⟩) hnot
      · refine ⟨batchReward, hcompute, ?_⟩
        rw [(DataProto.union_of_eq_ok hunion).2.tensors,
          PyDict.get?_eq_none_iff.mpr hnot] at hreward
        exact hreward

/-- A block that leaves scores: a rollout without scores of its own is given
those. -/
theorem exists_reward_of_mem {after : DataProto τ ν μ}
    (hmem : "rm_scores" ∈ after.tensors.keys) (trainer : RemaxTrainer τ ν μ) :
    ∃ (later : LaterSteps τ ν μ) (genBatchOutput prepared : DataProto τ ν μ)
      (reward : Column τ) (infos : PyDict (List ν)),
      genBatchOutput.tensors.get? "rm_scores" = none ∧
      later.prepare after genBatchOutput = .ok prepared ∧
      trainer.scoreIfMissing prepared = .ok prepared ∧
      later.extractReward prepared = .ok (reward, infos) ∧
      "rm_scores" ∈ prepared.tensors.keys := by
  obtain ⟨scores, hscores⟩ := PyDict.mem_keys_iff.mp hmem
  obtain ⟨td, htd⟩ : ∃ td, after.batch = some td := by
    cases hbatch : after.batch with
    | none =>
        simp [DataProto.tensors, hbatch, PyDict.empty, PyDict.get?] at hscores
    | some td => exact ⟨td, rfl⟩
  let genBatchOutput : DataProto τ ν μ :=
    ⟨some ⟨PyDict.empty, td.batchSize * 1, by simp [PyDict.empty]⟩,
      PyDict.empty, PyDict.empty, by simp [Consistent, PyDict.empty]⟩
  let later : LaterSteps τ ν μ :=
    { rolloutN := 1
      computeResponseMask := fun batch => batch.tensors.get "rm_scores"
      balanceOrder := none
      noteLengths := fun batch => .ok batch.metaInfo
      rewardExtraKeys := fun _ => [] }
  obtain ⟨repeated, td', hrepeat, htd', hsize, -⟩ :=
    DataProto.exists_repeatData htd 1
  have hnever : ∀ {α : Type} (key : String),
      (PyDict.empty : PyDict α).get? key = none := fun _ => rfl
  obtain ⟨merged, hunion⟩ : ∃ merged, repeated.union genBatchOutput =
      .ok merged := DataProto.exists_union
    ⟨⟨td', _, htd', rfl, hsize⟩,
      fun key a b _ hb => absurd hb (by simp [genBatchOutput,
        DataProto.tensors, hnever]),
      fun key a b _ hb => absurd hb (by simp [genBatchOutput, hnever]),
      fun key a b _ hb => absurd hb (by simp [genBatchOutput, hnever])⟩
  have hmerged : "rm_scores" ∈ merged.tensors.keys :=
    (mem_keys_of_union hunion _).1.mpr
      (.inl (DataProto.keys_of_repeatData hrepeat ▸ hmem))
  obtain ⟨td₁, td₂, h₁, h₂, hsame⟩ := (DataProto.union_of_eq_ok hunion).2.batch
  obtain ⟨sampled, hsampled, hprepared⟩ : ∃ sampled,
      later.mergeSampled after genBatchOutput = .ok sampled ∧
        "rm_scores" ∈ sampled.tensors.keys := by
    by_cases hmask : "response_mask" ∈ merged.tensors.keys
    · refine ⟨merged, ?_, hmerged⟩
      simp only [LaterSteps.mergeSampled, bind_eq_ok]
      refine ⟨repeated, hrepeat, merged, hunion, ?_⟩
      rw [if_pos (PyDict.contains_eq_true.mpr hmask)]
      rfl
    · obtain ⟨mask, hget⟩ := PyDict.mem_keys_iff.mp hmerged
      have hlen : mask.rows.length = td₂.batchSize := by
        rw [DataProto.tensors_of_batch h₂] at hget
        exact TensorDict.get?_length hget
      obtain ⟨sampled, -, hset, -, -, hcolumns, -⟩ :=
        DataProto.setTensor_eq_ok h₂ "response_mask" hlen
      refine ⟨sampled, ?_, ?_⟩
      · simp only [LaterSteps.mergeSampled, bind_eq_ok]
        refine ⟨repeated, hrepeat, merged, hunion, ?_⟩
        rw [if_neg (fun h => hmask (PyDict.contains_eq_true.mp h)),
          bind_eq_ok]
        refine ⟨mask, ?_, hset⟩
        exact PyDict.get_eq_ok.mpr (PyDict.get?_eq_some_iff.mp hget)
      · rw [PyDict.mem_keys_iff, hcolumns, PyDict.get?_set]
        exact ⟨mask, hget⟩
  obtain ⟨reward, hreward⟩ := PyDict.mem_keys_iff.mp hprepared
  refine ⟨later, genBatchOutput, sampled, reward, PyDict.empty, rfl, ?_,
    scoreIfMissing_of_mem hprepared, ?_, hprepared⟩
  · simp only [LaterSteps.prepare, bind_eq_ok]
    exact ⟨sampled, hsampled, sampled, rfl, sampled.metaInfo, rfl, rfl⟩
  · simp only [LaterSteps.extractReward, bind_eq_ok]
    refine ⟨reward, ?_, PyDict.empty, ?_, rfl⟩
    · exact PyDict.get_eq_ok.mpr (PyDict.get?_eq_some_iff.mp hreward)
    · cases sampled.metaInfo.get? "reward_extra_keys" <;> rfl

theorem remaxBlock_leavesNoTrace_iff (trainer : RemaxTrainer τ ν μ)
    (batch genBaselineOutput : DataProto τ ν μ) :
    (∃ after, trainer.remaxBlock batch genBaselineOutput = .ok after ∧
        LeavesNoTrace trainer batch after) ↔
      Removable batch genBaselineOutput := by
  constructor
  · rintro ⟨after, hblock, htrace⟩
    obtain ⟨merged, scored, hunion, hscore, hmem⟩ := remaxBlock_eq_ok hblock
    obtain ⟨after', _, hblock', -, hkeys, hnon⟩ :=
      remaxBlock_of_scored hunion hscore hmem
    obtain rfl : after = after' := Except.ok.inj (hblock.symm.trans hblock')
    obtain ⟨-, hgrows, -⟩ := scoreIfMissing_keeps hscore
    refine ⟨(DataProto.union_of_eq_ok hunion).1, ?_, fun key hbase hkey => ?_,
      fun key hbase => ?_⟩
    · by_contra hbase
      have hafter : "rm_scores" ∈ after.tensors.keys :=
        (hkeys _).mpr (.inr ⟨hbase, hmem⟩)
      obtain ⟨later, genBatchOutput, prepared, reward, infos, hnone, hprepare,
        hsame, hextract, hprepared⟩ := exists_reward_of_mem hafter trainer
      obtain ⟨order, -, hreward⟩ := htrace.rewards later genBatchOutput
        prepared prepared reward infos hprepare hsame hextract
      rw [hnone] at hreward
      exact hreward.1 hprepared
    · rcases (hkeys key).mp ((htrace.tensorKeys key).mpr (.inl hkey)) with
        hbaselines | ⟨hnot, -⟩
      · exact hbaselines
      · exact absurd hbase hnot
    · rw [← htrace.nonTensorKeys, hnon]
      exact hgrows key ((mem_keys_of_union hunion key).2.mpr (.inr hbase))
  · intro hremovable
    obtain ⟨merged, hunion⟩ := DataProto.exists_union hremovable.mergeable
    have hmem := (mem_keys_of_union hunion "rm_scores").1.mpr
      (.inr hremovable.scored)
    obtain ⟨after, _, hblock, -, hkeys, hnon⟩ :=
      remaxBlock_of_scored hunion (scoreIfMissing_of_mem hmem) hmem
    refine ⟨after, hblock, fun key => ?_, fun key => ?_, ?_⟩
    · rw [hkeys, (mem_keys_of_union hunion key).1]
      constructor
      · rintro (hbaselines | ⟨hnot, hbatch | hbase⟩)
        · exact .inr hbaselines
        · exact .inl hbatch
        · exact absurd hbase hnot
      · rintro (hbatch | hbaselines)
        · by_cases hbase : key ∈ genBaselineOutput.tensors.keys
          · exact .inl (hremovable.tensors key hbase hbatch)
          · exact .inr ⟨hbase, .inl hbatch⟩
        · exact .inl hbaselines
    · rw [hnon, (mem_keys_of_union hunion key).2]
      exact ⟨fun h => h.elim id (hremovable.nonTensors key), .inl⟩
    · intro later genBatchOutput prepared scored reward infos hprepare hscore
        hextract
      refine rewardsOfSampled (fun hafter => ?_) hprepare hscore hextract
      rcases (hkeys _).mp hafter with h | ⟨hnot, -⟩
      · exact absurd h (by decide)
      · exact hnot hremovable.scored

end Step

/-- A reward model that scores every response token by its id. -/
def scoreByToken (data : DataProto (List Nat) Nat Nat) :
    Py (DataProto (List Nat) Nat Nat) := do
  let responses ← data.tensors.get "responses"
  let td ← TensorDict.init (PyDict.empty.set "rm_scores" responses)
    responses.rows.length
  DataProto.init (some td) PyDict.empty PyDict.empty

/-- A trainer with that model colocated, or without a reward model. -/
def tokenTrainer (useRm : Bool) : RemaxTrainer (List Nat) Nat Nat where
  useRm := useRm
  computeRewardColocate := scoreByToken
  sumLastDim := fun column =>
    ⟨some 1, column.rows.map fun row => [row.sum]⟩
  sum_rows := fun column => by simp

/-- One prompt, before generation. -/
def onePrompt : DataProto (List Nat) Nat Nat :=
  ⟨some ⟨PyDict.empty.set "dummy_tensor" ⟨some 1, [[0]]⟩, 1, by decide⟩,
    PyDict.empty.set "uid" [7], PyDict.empty, by decide⟩

/-- The columns of a rollout of one response token, without scores. -/
def oneTokenColumns (token : Nat) : PyDict (Column (List Nat)) :=
  PyDict.ofKeys ["prompts", "responses", "response_mask", "input_ids",
      "attention_mask", "position_ids"] (by decide) fun key =>
    match key with
    | "prompts" => ⟨some 1, [[3]]⟩
    | "responses" => ⟨some 1, [[token]]⟩
    | "response_mask" => ⟨some 1, [[1]]⟩
    | "input_ids" => ⟨some 2, [[3, token]]⟩
    | "attention_mask" => ⟨some 2, [[1, 1]]⟩
    | _ => ⟨some 2, [[0, 1]]⟩

def oneToken (token : Nat) : DataProto (List Nat) Nat Nat :=
  ⟨some ⟨oneTokenColumns token, 1, by simp [oneTokenColumns, PyDict.ofKeys]⟩,
    PyDict.empty.set "__num_turns__" [2], PyDict.empty, by
      intro td htd e he
      obtain rfl := Option.some.inj htd
      obtain rfl := List.mem_singleton.mp he
      rfl⟩

def oneSample : LaterSteps (List Nat) Nat Nat where
  rolloutN := 1
  computeResponseMask := fun batch => batch.tensors.get "response_mask"
  balanceOrder := none
  noteLengths := fun batch => .ok batch.metaInfo
  rewardExtraKeys := fun _ => []

/-- With a colocated reward model the score of the greedy token 1 stays and
is the reward of the sampled token 2; the object column of the greedy rollout
stays as well. -/
theorem remaxBlock_leavesTrace :
    (¬ ∃ after,
      (tokenTrainer true).remaxBlock onePrompt (oneToken 1) = .ok after ∧
        LeavesNoTrace (tokenTrainer true) onePrompt after) ∧
    ((tokenTrainer true).remaxBlock onePrompt (oneToken 1) >>= fun after =>
      (tokenTrainer true).rewards oneSample after (oneToken 2)) =
        .ok (⟨some 1, [[1]]⟩, PyDict.empty) := by
  constructor
  · rintro ⟨after, hblock, htrace⟩
    have hkeys : ((tokenTrainer true).remaxBlock onePrompt (oneToken 1)).map
        (fun after => after.tensors.keys) =
          .ok ["dummy_tensor", "rm_scores", "reward_baselines"] := by
      decide +kernel
    rw [hblock] at hkeys
    have hmem : "rm_scores" ∈ after.tensors.keys := by
      rw [show after.tensors.keys = _ from Except.ok.inj hkeys]
      decide
    exact absurd ((htrace.tensorKeys _).mp hmem) (by decide)
  · decide +kernel

end SelfDistillation
