/-
The rate-limited reward manager
(verl/experimental/reward_loop/reward_manager/limited.py) and the two places
that assemble its results: `_postprocess` of the agent loop
(verl/experimental/agent_loop/agent_loop.py) and
`RewardLoopManager.compute_rm_score`
(verl/experimental/reward_loop/reward_loop.py).
-/
import SelfDistillation.AgentLoopPostprocess
import SelfDistillation.DataProtoSchema

namespace SelfDistillation

namespace RewardLoop

open Chunks

/-- The Python values of rewards and their extra information. -/
class PyValue (ν : Type) (σ : outParam Type) where
  number : σ → ν
  flag : Bool → ν
  text : String → ν
  none : ν
  dict : List (String × ν) → ν
  isNone : ν → Bool
  /-- The entry `torch.tensor(values, dtype=torch.float32)` has, where it can
  be built. -/
  toFloat : ν → Option σ
  /-- `np.array(values)` can be built: no sequences of different shapes. -/
  homogeneous : List ν → Bool
  toFloat_number : ∀ x, toFloat (number x) = some x
  toFloat_of_isNone : ∀ v, isNone v = true → toFloat v = Option.none

open PyValue

variable {ν σ : Type} [PyValue ν σ]

/-- How awaiting `_compute_reward` ends. -/
inductive Outcome (ν : Type)
  | returned (score : ν)
  | returnedDict (result : PyDict ν)
  | timeout
  | raised (message : String)

structure RewardResult (ν : Type) where
  rewardScore : ν
  rewardExtraInfo : PyDict ν

variable [Zero σ]

/-- The `except Exception` clause of `run_single` -/
def computationFailed (message : String) : RewardResult ν where
  rewardScore := number 0
  rewardExtraInfo :=
    (PyDict.empty.set "error" (text message)).set "acc" (number 0)

/-- `run_single` -/
def runSingle : Outcome ν → RewardResult ν
  | .returnedDict result =>
      match result.get? "score" with
      | some score => ⟨score, result⟩
      -- the `KeyError` is caught with the failures of the computation
      | Option.none => computationFailed "'score'"
  | .returned score => ⟨score, PyDict.empty.set "acc" score⟩
  | .timeout =>
      ⟨number 0, (PyDict.empty.set "timeout" (flag true)).set "acc"
        (number 0)⟩
  | .raised message => computationFailed message

/-- A sample of a batch: how its reward computation ends, and the attended
part of its response. -/
structure Sample (ν : Type) where
  outcome : Outcome ν
  width : Nat
  attended : Nat
  attended_le : attended ≤ width
  width_pos : 0 < width

def asFloat (score : ν) : Py σ :=
  match toFloat score with
  | some x => .ok x
  | Option.none => .error (.typeError "must be real number")

/-- `rm_scores`: the scores as a tensor, each put at the end of its
response. -/
def rmScores (samples : List (Sample ν)) (scores : List ν) :
    Py (List (List σ)) := do
  let scores ← scores.mapM asFloat
  (List.zip samples scores).mapM fun e =>
    rmScoreRow e.1.width e.1.attended e.2

/-- `np.array(column)` -/
def npArray (column : List ν) : Py (List ν) :=
  if homogeneous column then .ok column
  else .error (.valueError "setting an array element with a sequence.")

/-- `for key in keys: non_tensor_batch[key] =
np.array([info[key] for info in infos])` -/
def addRewardColumns (nonTensorBatch : PyDict (List ν))
    (infos : List (PyDict ν)) (keys : List String) :
    Py (PyDict (List ν)) :=
  keys.foldlM (fun nonTensorBatch key => do
    let column ← infos.mapM fun info => info.get key
    let column ← npArray column
    return nonTensorBatch.set key column) nonTensorBatch

/-- `list(reward_extra_infos[0].keys())` -/
def firstKeys (infos : List (PyDict ν)) : Py (List String) :=
  match infos with
  | [] => .error .indexError
  | info :: _ => .ok info.keys

/-- The batch with rewards. -/
structure RewardBatch (ν σ : Type) where
  rmScores : Option (List (List σ))
  nonTensorBatch : PyDict (List ν)
  rewardExtraKeys : List String

/-- The output of an agent loop once its reward is computed. -/
structure AgentSample (ν : Type) extends Sample ν where
  numTurns : ν
  multiModalInputs : ν
  extraFields : PyDict ν

/-- `extra_fields` with what `_compute_score` adds. -/
def AgentSample.fields (s : AgentSample ν) : PyDict ν :=
  s.extraFields.set "reward_extra_info"
    (dict (runSingle s.outcome).rewardExtraInfo.entries)

def defaultExtraKeys : List String :=
  ["turn_scores", "tool_rewards", "min_global_steps", "max_global_steps",
    "extras"]

def allKeys (samples : List (AgentSample ν)) : List String :=
  samples.flatMap (fun s => s.fields.keys) ++ defaultExtraKeys

/-- `[input.extra_fields.get(key) for input in inputs]` -/
def extraColumn (samples : List (AgentSample ν)) (key : String) : List ν :=
  samples.map fun s => (s.fields.get? key).getD PyValue.none

/-- `rm_scores`, when no score is `None` -/
def optionalRmScores (samples : List (Sample ν)) (scores : List ν) :
    Py (Option (List (List σ))) :=
  if scores.all fun score => !isNone score then
    some <$> rmScores samples scores
  else .ok Option.none

/-- The columns `_postprocess` writes after the extra information. -/
def lateColumns (inputs : List (AgentSample ν)) (d : PyDict (List ν)) :
    PyDict (List ν) :=
  let multiModalInputsList := inputs.map AgentSample.multiModalInputs
  let d := if multiModalInputsList.any (fun mmi => !isNone mmi) then
      d.set "multi_modal_inputs" multiModalInputsList
    else d
  (allKeys inputs).foldl (fun d key => d.set key (extraColumn inputs key)) d

/-- The reward part of `_postprocess`; reward workers have computed every
reward. -/
def postprocessRewards (inputs : List (AgentSample ν)) :
    Py (RewardBatch ν σ) := do
  let results := inputs.map fun input => runSingle input.outcome
  let scores := results.map RewardResult.rewardScore
  let rmScores ←
    optionalRmScores (inputs.map AgentSample.toSample) scores
  let nonTensorBatch := PyDict.empty.set "__num_turns__"
    (inputs.map AgentSample.numTurns)
  let rewardExtraInfos := results.map RewardResult.rewardExtraInfo
  let rewardExtraKeys ← firstKeys rewardExtraInfos
  let nonTensorBatch ←
    addRewardColumns nonTensorBatch rewardExtraInfos rewardExtraKeys
  return ⟨rmScores, lateColumns inputs nonTensorBatch,
    if rmScores.isSome then rewardExtraKeys else []⟩

/-- The assertion of `chunk` -/
def checkEqualChunk (paddingEnabled : Bool) (size chunks : Nat) : Py Unit :=
  if paddingEnabled then .ok ()
  else if chunks = 0 then .error .zeroDivisionError
  else pyAssert (size % chunks == 0)
    (s!"only support equal chunk. Got size of DataProto {size} " ++
      s!"and chunk {chunks}.")

/-- `self.batch.chunk(chunks, dim=0)` by its rows -/
def pieces {α : Type} (rows : List α) (chunks : Nat) :
    Py (List (List α)) :=
  if chunks = 0 then
    .error (.valueError "chunks must be a strictly positive integer")
  else
    let size := Schema.pieceSize rows.length chunks
    .ok ((List.range (Schema.pieceCount rows.length chunks)).map fun j =>
      (rows.drop (j * size)).take size)

/-- `batch_lst[i]` -/
def partAt {α : Type} (batchLst : List α) (i : Nat) : Py α :=
  match batchLst[i]? with
  | some part => .ok part
  | Option.none => .error .indexError

/-- `data.chunk(chunks)` by the rows of `data`. -/
def chunk {α : Type} (paddingEnabled : Bool) (rows : List α)
    (chunks : Nat) : Py (List (List α)) := do
  checkEqualChunk paddingEnabled rows.length chunks
  let batchLst ← pieces rows chunks
  (List.range chunks).mapM (partAt batchLst)

/-- `compute_rm_score` with a reward loop worker for each chunk -/
def computeRmScore (paddingEnabled : Bool) (data : List (Sample ν))
    (numWorkers : Nat) : Py (RewardBatch ν σ) := do
  let chunks ← chunk paddingEnabled data numWorkers
  let outputs := chunks.map fun rows =>
    rows.map fun sample => runSingle sample.outcome
  let outputsFlat := outputs.flatten
  let rmScores ← rmScores data (outputsFlat.map RewardResult.rewardScore)
  let rewardExtraInfos := outputsFlat.map RewardResult.rewardExtraInfo
  let rewardExtraKeys ← firstKeys rewardExtraInfos
  let nonTensorBatch ←
    addRewardColumns PyDict.empty rewardExtraInfos rewardExtraKeys
  return ⟨some rmScores, nonTensorBatch, rewardExtraKeys⟩

theorem partAt_eq_ok {α : Type} {batchLst : List α} {i : Nat} {part : α} :
    partAt batchLst i = .ok part ↔ batchLst[i]? = some part := by
  rw [partAt]
  cases batchLst[i]? <;> simp

theorem mapM_partAt_eq_ok {α : Type} {batchLst parts : List α}
    {chunks : Nat} :
    (List.range chunks).mapM (partAt batchLst) = .ok parts ↔
      chunks ≤ batchLst.length ∧ parts = batchLst.take chunks := by
  rw [mapM_eq_ok_iff, List.forall₂_iff_get]
  simp only [List.get_eq_getElem, List.getElem_range, partAt_eq_ok,
    List.length_range]
  constructor
  · rintro ⟨hlen, hget⟩
    have hle : chunks ≤ batchLst.length := by
      by_contra hlt
      have hlast := hget batchLst.length (by omega) (by omega)
      rw [List.getElem?_eq_none (Nat.le_refl _)] at hlast
      cases hlast
    refine ⟨hle, List.ext_getElem (by simp [← hlen, hle]) fun i hi hi' => ?_⟩
    have hi'' := hget i (by omega) hi
    rw [List.getElem?_eq_getElem (by omega)] at hi''
    rw [List.getElem_take]
    exact (Option.some.inj hi'').symm
  · rintro ⟨hle, rfl⟩
    refine ⟨by simp [hle], fun i hi hi' => ?_⟩
    rw [List.getElem?_eq_getElem (by omega), List.getElem_take]

theorem pieces_eq_chunksOf {α : Type} {rows : List α} {chunks : Nat}
    (hrows : rows ≠ []) (hchunks : chunks ≠ 0) :
    pieces rows chunks =
      .ok (chunksOf (Schema.pieceSize rows.length chunks) rows) := by
  have hsize := Schema.pieceSize_pos (List.length_pos_iff.mpr hrows)
    (Nat.pos_of_ne_zero hchunks)
  have hpos : 1 ≤ (rows.length + Schema.pieceSize rows.length chunks - 1) /
      Schema.pieceSize rows.length chunks := by
    have := List.length_pos_iff.mpr hrows
    exact (Nat.one_le_div_iff hsize).mpr (by omega)
  rw [pieces, if_neg hchunks, Schema.pieceCount, Nat.max_eq_right hpos]
  rfl

theorem checkEqualChunk_eq_ok {paddingEnabled : Bool} {size chunks : Nat}
    (hchunks : chunks ≠ 0) {r : Unit} :
    checkEqualChunk paddingEnabled size chunks = .ok r ↔
      paddingEnabled = true ∨ chunks ∣ size := by
  rw [checkEqualChunk]
  cases paddingEnabled with
  | true => simp
  | false => simp [hchunks, Nat.dvd_iff_mod_eq_zero]

theorem length_chunksOf_pieceSize {α : Type} {rows : List α} {chunks : Nat}
    (hrows : rows ≠ []) (hchunks : chunks ≠ 0) :
    (chunksOf (Schema.pieceSize rows.length chunks) rows).length =
      Schema.pieceCount rows.length chunks := by
  have hparts := pieces_eq_chunksOf hrows hchunks
  rw [pieces, if_neg hchunks, Except.ok.injEq] at hparts
  rw [← hparts, List.length_map, List.length_range]

/-- Rows are cut into as many chunks as asked for, in order, exactly if the
last one has a row and they need not be equal or are. -/
theorem chunk_eq_ok {α : Type} {paddingEnabled : Bool} {rows : List α}
    {chunks : Nat} {parts : List (List α)} (hrows : rows ≠ []) :
    chunk paddingEnabled rows chunks = .ok parts ↔
      chunks ≠ 0 ∧ (paddingEnabled = true ∨ chunks ∣ rows.length) ∧
        (chunks = 1 ∨ (chunks - 1) * Schema.pieceSize rows.length chunks <
          rows.length) ∧
        parts = chunksOf (Schema.pieceSize rows.length chunks) rows := by
  by_cases hchunks : chunks = 0
  · subst hchunks
    cases paddingEnabled <;>
      simp [chunk, checkEqualChunk, pieces, bind, Except.bind]
  have hlen := length_chunksOf_pieceSize hrows hchunks
  have hcount := Schema.pieceCount_eq_iff (n := rows.length)
    (Nat.pos_of_ne_zero hchunks)
  have hle := Schema.pieceCount_le rows.length (Nat.pos_of_ne_zero hchunks)
  simp only [chunk, bind_eq_ok, checkEqualChunk_eq_ok hchunks,
    pieces_eq_chunksOf hrows hchunks, Except.ok.injEq, mapM_partAt_eq_ok]
  rw [← hcount]
  constructor
  · rintro ⟨-, hequal, _, rfl, hfit, rfl⟩
    refine ⟨hchunks, hequal, by omega, List.take_of_length_le (by omega)⟩
  · rintro ⟨-, hequal, hall, rfl⟩
    refine ⟨(), hequal, _, rfl, by omega, ?_⟩
    exact (List.take_of_length_le (by omega)).symm

/-- The score of a sample; a failed one has 0. -/
def Outcome.score : Outcome ν → Option σ
  | .returnedDict result =>
      match result.get? "score" with
      | some score => toFloat score
      | Option.none => some 0
  | .returned score => toFloat score
  | .timeout => some 0
  | .raised _ => some 0

def failureEntry (message key : String) : Option ν :=
  if key = "acc" then some (number 0)
  else if key = "error" then some (text message)
  else Option.none

/-- What a sample has to say under a key of the extra information. -/
def Outcome.entry (outcome : Outcome ν) (key : String) : Option ν :=
  match outcome with
  | .returnedDict result =>
      if result.contains "score" then result.get? key
      else failureEntry "'score'" key
  | .returned score => if key = "acc" then some score else Option.none
  | .timeout =>
      if key = "acc" then some (number 0)
      else if key = "timeout" then some (flag true)
      else Option.none
  | .raised message => failureEntry message key

theorem get?_empty (key : String) :
    (PyDict.empty : PyDict ν).get? key = Option.none := rfl

theorem toFloat_runSingle (outcome : Outcome ν) :
    toFloat (runSingle outcome).rewardScore = outcome.score := by
  cases outcome with
  | returnedDict result =>
      simp only [runSingle, Outcome.score]
      cases result.get? "score" with
      | none => exact toFloat_number 0
      | some score => rfl
  | returned score => rfl
  | timeout => exact toFloat_number 0
  | raised message => exact toFloat_number 0

theorem get?_runSingle (outcome : Outcome ν) (key : String) :
    (runSingle outcome).rewardExtraInfo.get? key = outcome.entry key := by
  cases outcome with
  | returnedDict result =>
      simp only [runSingle, Outcome.entry, PyDict.contains,
        decide_eq_true_eq]
      cases hscore : result.get? "score" with
      | none =>
          rw [if_neg (PyDict.get?_eq_none_iff.mp hscore)]
          simp only [computationFailed, PyDict.get?_set, get?_empty,
            failureEntry]
      | some score =>
          rw [if_pos (by
            by_contra hnot
            rw [PyDict.get?_eq_none_iff.mpr hnot] at hscore
            cases hscore)]
  | returned score => simp only [runSingle, PyDict.get?_set, get?_empty,
      Outcome.entry]
  | timeout => simp only [runSingle, PyDict.get?_set, get?_empty,
      Outcome.entry]
  | raised message => simp only [runSingle, computationFailed,
      PyDict.get?_set, get?_empty, Outcome.entry, failureEntry]

theorem mem_keys_runSingle {outcome : Outcome ν} {key : String} :
    key ∈ (runSingle outcome).rewardExtraInfo.keys ↔
      outcome.entry key ≠ Option.none := by
  rw [← get?_runSingle, ne_eq, PyDict.get?_eq_none_iff, not_not]

/-- A column of the extra information: the entry of each sample in turn. -/
def ColumnOf (outcomes : List (Outcome ν)) (key : String)
    (column : List ν) : Prop :=
  List.Forall₂ (fun outcome v => outcome.entry key = some v) outcomes column

theorem ColumnOf.unique {outcomes : List (Outcome ν)} {key : String}
    {left right : List ν} (hleft : ColumnOf outcomes key left)
    (hright : ColumnOf outcomes key right) : left = right := by
  induction hleft generalizing right with
  | nil =>
      cases hright
      rfl
  | cons hv _ ih =>
      obtain ⟨v, rest, hv', hrest, rfl⟩ :=
        List.forall₂_cons_left_iff.mp hright
      rw [Option.some.inj (hv.symm.trans hv'), ih hrest]

/-- `reward_extra_infos` -/
def extraInfos (outcomes : List (Outcome ν)) : List (PyDict ν) :=
  outcomes.map fun outcome => (runSingle outcome).rewardExtraInfo

theorem mapM_get_extraInfos {outcomes : List (Outcome ν)} {key : String}
    {column : List ν} :
    (extraInfos outcomes).mapM (fun info => info.get key) = .ok column ↔
      ColumnOf outcomes key column := by
  rw [extraInfos, mapM_eq_ok_iff, List.forall₂_map_left_iff, ColumnOf]
  simp only [PyDict.get_eq_ok, ← PyDict.get?_eq_some_iff, get?_runSingle]

omit [Zero σ] in
theorem npArray_eq_ok {column array : List ν} :
    npArray column = .ok array ↔
      homogeneous column = true ∧ array = column := by
  rw [npArray]
  by_cases h : homogeneous column = true
  · rw [if_pos h, Except.ok.injEq]
    exact ⟨fun heq => ⟨h, heq.symm⟩, fun heq => heq.2.symm⟩
  · simp [h]

/-- The step of `addRewardColumns` -/
theorem addRewardColumns_cons {outcomes : List (Outcome ν)}
    {d r : PyDict (List ν)} {key : String} {keys : List String} :
    addRewardColumns d (extraInfos outcomes) (key :: keys) = .ok r ↔
      ∃ column, ColumnOf outcomes key column ∧ homogeneous column = true ∧
        addRewardColumns (d.set key column) (extraInfos outcomes) keys =
          .ok r := by
  rw [addRewardColumns, List.foldlM_cons]
  simp only [bind_eq_ok, mapM_get_extraInfos, npArray_eq_ok]
  constructor
  · rintro ⟨_, ⟨_, hcolumn, _, ⟨harray, rfl⟩, heq⟩, hrest⟩
    cases heq
    exact ⟨_, hcolumn, harray, hrest⟩
  · rintro ⟨column, hcolumn, harray, hrest⟩
    exact ⟨_, ⟨column, hcolumn, _, ⟨harray, rfl⟩, rfl⟩, hrest⟩

/-- Adding the columns succeeds exactly if every sample has an entry for each
key and the entries make an array. -/
theorem exists_addRewardColumns {outcomes : List (Outcome ν)}
    {d : PyDict (List ν)} {keys : List String} :
    (∃ r, addRewardColumns d (extraInfos outcomes) keys = .ok r) ↔
      ∀ key ∈ keys, ∃ column, ColumnOf outcomes key column ∧
        homogeneous column = true := by
  induction keys generalizing d with
  | nil => simp [addRewardColumns, pure, Except.pure]
  | cons key keys ih =>
      simp only [addRewardColumns_cons, List.forall_mem_cons]
      constructor
      · rintro ⟨r, column, hcolumn, harray, hrest⟩
        exact ⟨⟨column, hcolumn, harray⟩, ih.mp ⟨r, hrest⟩⟩
      · rintro ⟨⟨column, hcolumn, harray⟩, hrest⟩
        obtain ⟨r, hr⟩ := ih.mpr hrest
        exact ⟨r, column, hcolumn, harray, hr⟩

/-- Each key has its column then. -/
theorem get?_addRewardColumns {outcomes : List (Outcome ν)}
    {d r : PyDict (List ν)} {keys : List String}
    (h : addRewardColumns d (extraInfos outcomes) keys = .ok r)
    {key : String} {column : List ν} (hcolumn : ColumnOf outcomes key column)
    (hkey : key ∈ keys ∨ d.get? key = some column) :
    r.get? key = some column := by
  induction keys generalizing d with
  | nil =>
      cases h
      exact hkey.resolve_left (List.not_mem_nil)
  | cons first keys ih =>
      obtain ⟨column', hcolumn', -, hrest⟩ := addRewardColumns_cons.mp h
      refine ih hrest ?_
      rw [PyDict.get?_set]
      by_cases hfirst : key = first
      · subst hfirst
        exact .inr (by rw [if_pos rfl, hcolumn'.unique hcolumn])
      · rw [if_neg hfirst]
        rcases hkey with hkey | hkey
        · exact .inl ((List.mem_cons.mp hkey).resolve_left hfirst)
        · exact .inr hkey

/-- Where a sample has its score: at the end of its response. -/
def Sample.lastPosition (s : Sample ν) : Nat :=
  if s.attended = 0 then s.width - 1 else s.attended - 1

omit [PyValue ν σ] in
theorem rmScoreRow_sample (s : Sample ν) (x : σ) :
    rmScoreRow s.width s.attended x =
      .ok (scoreRow s.width s.lastPosition x) := by
  have hwidth := s.width_pos
  rw [Sample.lastPosition]
  split
  · rename_i hzero
    have hposition : ((-1 : Int) + s.width).toNat = s.width - 1 := by omega
    rw [rmScoreRow, hzero]
    simp only [Nat.cast_zero, Int.zero_sub, Int.reduceNeg, Int.reduceLT,
      if_pos, hposition]
    exact if_pos (by omega)
  · exact rmScoreRow_of_le (by omega) s.attended_le x

/-- Every sample has its own score. -/
def OwnScores (samples : List (Sample ν)) (rows : List (List σ)) : Prop :=
  List.Forall₂ (fun s row => ∃ x, s.outcome.score = some x ∧
    row = scoreRow s.width s.lastPosition x) samples rows

theorem asFloat_runSingle {outcome : Outcome ν} {x : σ} :
    asFloat (runSingle outcome).rewardScore = .ok x ↔
      outcome.score = some x := by
  rw [asFloat, ← toFloat_runSingle]
  cases toFloat (runSingle outcome).rewardScore <;> simp

theorem rmScores_eq_ok {samples : List (Sample ν)} {rows : List (List σ)} :
    rmScores samples
      (samples.map fun s => (runSingle s.outcome).rewardScore) = .ok rows ↔
      OwnScores samples rows := by
  simp only [rmScores, bind_eq_ok, mapM_eq_ok_iff, List.forall₂_map_left_iff,
    asFloat_runSingle, rmScoreRow_sample, Except.ok.injEq, OwnScores]
  constructor
  · rintro ⟨xs, hxs, hrows⟩
    induction hxs generalizing rows with
    | nil =>
        cases hrows
        exact .nil
    | cons hx _ ih =>
        obtain ⟨row, rest, rfl, hrest, rfl⟩ :=
          List.forall₂_cons_left_iff.mp hrows
        exact .cons ⟨_, hx, rfl⟩ (ih hrest)
  · intro h
    induction h with
    | nil => exact ⟨[], .nil, .nil⟩
    | cons hrow _ ih =>
        obtain ⟨x, hx, rfl⟩ := hrow
        obtain ⟨xs, hxs, hrest⟩ := ih
        exact ⟨x :: xs, .cons hx hxs, .cons rfl hrest⟩

theorem exists_ownScores {samples : List (Sample ν)} :
    (∃ rows : List (List σ), OwnScores samples rows) ↔
      ∀ s ∈ samples, s.outcome.score ≠ Option.none := by
  induction samples with
  | nil => exact ⟨fun _ => by simp, fun _ => ⟨[], .nil⟩⟩
  | cons s samples ih =>
      rw [List.forall_mem_cons, ← ih]
      constructor
      · rintro ⟨rows, hrows⟩
        obtain ⟨row, rest, ⟨x, hx, -⟩, hrest, -⟩ :=
          List.forall₂_cons_left_iff.mp hrows
        exact ⟨by simp [hx], rest, hrest⟩
      · rintro ⟨hs, rest, hrest⟩
        obtain ⟨x, hx⟩ := Option.ne_none_iff_exists'.mp hs
        exact ⟨_ :: rest, .cons ⟨x, hx, rfl⟩ hrest⟩

/-- The batch is assembled: own scores, and for each key a column with one
entry from each sample. -/
structure Assembled (samples : List (Sample ν)) (batch : RewardBatch ν σ) :
    Prop where
  scores : ∃ rows, batch.rmScores = some rows ∧ OwnScores samples rows
  columns : ∀ key ∈ batch.rewardExtraKeys, ∃ column,
    batch.nonTensorBatch.get? key = some column ∧
      ColumnOf (samples.map Sample.outcome) key column

/-- A key that the first sample has something to say under. -/
def FirstKey (outcomes : List (Outcome ν)) (key : String) : Prop :=
  ∃ first ∈ outcomes.head?, first.entry key ≠ Option.none

/-- What both places need: a sample, numbers as scores, and that under each
key of the first sample all have an entry and `np.array` takes them. -/
structure Uniform (samples : List (Sample ν)) : Prop where
  nonempty : samples ≠ []
  numbers : ∀ s ∈ samples, s.outcome.score ≠ Option.none
  columns : ∀ key, FirstKey (samples.map Sample.outcome) key → ∃ column,
    ColumnOf (samples.map Sample.outcome) key column ∧
      homogeneous column = true

theorem firstKeys_eq_ok {outcomes : List (Outcome ν)} {keys : List String} :
    firstKeys (extraInfos outcomes) = .ok keys ↔
      ∃ first ∈ outcomes.head?,
        keys = (runSingle first).rewardExtraInfo.keys := by
  cases outcomes <;> simp [firstKeys, extraInfos, eq_comm]

theorem mem_firstKeys {outcomes : List (Outcome ν)} {keys : List String}
    (h : firstKeys (extraInfos outcomes) = .ok keys) {key : String} :
    key ∈ keys ↔ FirstKey outcomes key := by
  obtain ⟨first, hfirst, rfl⟩ := firstKeys_eq_ok.mp h
  rw [mem_keys_runSingle, FirstKey]
  constructor
  · exact fun hkey => ⟨first, hfirst, hkey⟩
  · rintro ⟨first', hfirst', hkey⟩
    rw [Option.mem_unique hfirst hfirst']
    exact hkey

theorem exists_firstKeys {outcomes : List (Outcome ν)}
    (h : outcomes ≠ []) :
    ∃ keys, firstKeys (extraInfos outcomes) = .ok keys := by
  obtain ⟨first, rest, rfl⟩ := List.exists_cons_of_ne_nil h
  exact ⟨_, rfl⟩

/-- The extra information can be laid out in columns exactly if the samples
are uniform in it. -/
theorem columns_of_addRewardColumns {outcomes : List (Outcome ν)}
    {d : PyDict (List ν)} {keys : List String}
    (hkeys : firstKeys (extraInfos outcomes) = .ok keys) :
    (∃ r, addRewardColumns d (extraInfos outcomes) keys = .ok r) ↔
      ∀ key, FirstKey outcomes key → ∃ column,
        ColumnOf outcomes key column ∧ homogeneous column = true := by
  rw [exists_addRewardColumns]
  simp only [mem_firstKeys hkeys]

/-- The chunks `compute_rm_score` asks for exist. -/
def Chunkable (paddingEnabled : Bool) (size numWorkers : Nat) : Prop :=
  numWorkers ≠ 0 ∧ (paddingEnabled = true ∨ numWorkers ∣ size) ∧
    (numWorkers = 1 ∨
      (numWorkers - 1) * Schema.pieceSize size numWorkers < size)

/-- `compute_rm_score` of a batch that is not empty, without the detour over
the chunks. -/
theorem computeRmScore_eq_ok {paddingEnabled : Bool}
    {data : List (Sample ν)} {numWorkers : Nat} {batch : RewardBatch ν σ}
    (hdata : data ≠ []) :
    computeRmScore paddingEnabled data numWorkers = .ok batch ↔
      Chunkable paddingEnabled data.length numWorkers ∧
      ∃ rows keys columns, OwnScores data rows ∧
        firstKeys (extraInfos (data.map Sample.outcome)) = .ok keys ∧
        addRewardColumns PyDict.empty (extraInfos (data.map Sample.outcome))
          keys = .ok columns ∧ batch = ⟨some rows, columns, keys⟩ := by
  have hflat : numWorkers ≠ 0 →
      ((chunksOf (Schema.pieceSize data.length numWorkers) data).map fun rows =>
        rows.map fun sample => runSingle sample.outcome).flatten =
      data.map fun sample => runSingle sample.outcome := by
    intro hworkers
    rw [← List.map_flatten, flatten_chunksOf (Schema.pieceSize_pos
      (List.length_pos_iff.mpr hdata) (Nat.pos_of_ne_zero hworkers))]
  have hinfos : (data.map fun sample => runSingle sample.outcome).map
      RewardResult.rewardExtraInfo =
        extraInfos (data.map Sample.outcome) := by
    simp [extraInfos]
  simp only [computeRmScore, bind_eq_ok, chunk_eq_ok hdata, Chunkable]
  constructor
  · rintro ⟨parts, ⟨hworkers, hequal, hlast, rfl⟩, rows, hrows, keys, hkeys,
      columns, hcolumns, heq⟩
    rw [hflat hworkers] at hrows hkeys hcolumns
    rw [hinfos] at hkeys hcolumns
    rw [List.map_map] at hrows
    cases heq
    exact ⟨⟨hworkers, hequal, hlast⟩, rows, keys, columns,
      rmScores_eq_ok.mp hrows, hkeys, hcolumns, rfl⟩
  · rintro ⟨⟨hworkers, hequal, hlast⟩, rows, keys, columns, hrows, hkeys,
      hcolumns, rfl⟩
    refine ⟨_, ⟨hworkers, hequal, hlast, rfl⟩, rows, ?_, keys, ?_, columns,
      ?_, rfl⟩
    · rw [hflat hworkers, List.map_map]
      exact rmScores_eq_ok.mpr hrows
    · rw [hflat hworkers, hinfos]
      exact hkeys
    · rw [hflat hworkers, hinfos]
      exact hcolumns

theorem computeRmScore_nil {paddingEnabled : Bool} {numWorkers : Nat}
    {batch : RewardBatch ν σ} :
    computeRmScore paddingEnabled ([] : List (Sample ν)) numWorkers ≠
      .ok batch := by
  intro h
  simp only [computeRmScore, bind_eq_ok] at h
  obtain ⟨parts, hparts, rows, -, keys, hkeys, -⟩ := h
  have hempty : ∀ part ∈ parts, part = [] := by
    simp only [chunk, bind_eq_ok] at hparts
    obtain ⟨-, -, batchLst, hbatchLst, hparts⟩ := hparts
    obtain ⟨-, rfl⟩ := mapM_partAt_eq_ok.mp hparts
    intro part hpart
    unfold pieces at hbatchLst
    split at hbatchLst
    · cases hbatchLst
    · cases hbatchLst
      obtain ⟨j, -, rfl⟩ :=
        List.mem_map.mp (List.mem_of_mem_take hpart)
      simp
  have hflat : (parts.map fun rows => rows.map fun sample : Sample ν =>
      runSingle sample.outcome).flatten = [] := by
    rw [List.flatten_eq_nil_iff]
    intro results hresults
    obtain ⟨part, hpart, rfl⟩ := List.mem_map.mp hresults
    rw [hempty part hpart]
    rfl
  rw [hflat] at hkeys
  cases hkeys

/-- `compute_rm_score` assembles the batch exactly if it can cut it into
chunks and the samples are uniform. -/
theorem computeRmScore_assembled_iff {paddingEnabled : Bool}
    {data : List (Sample ν)} {numWorkers : Nat} :
    (∃ batch : RewardBatch ν σ,
      computeRmScore paddingEnabled data numWorkers = .ok batch ∧
        Assembled data batch) ↔
      Chunkable paddingEnabled data.length numWorkers ∧ Uniform data := by
  by_cases hdata : data = []
  · subst hdata
    constructor
    · rintro ⟨batch, hbatch, -⟩
      exact absurd hbatch computeRmScore_nil
    · rintro ⟨-, huniform⟩
      exact absurd rfl huniform.nonempty
  constructor
  · rintro ⟨batch, hbatch, -⟩
    obtain ⟨hchunks, rows, keys, columns, hrows, hkeys, hcolumns, -⟩ :=
      (computeRmScore_eq_ok hdata).mp hbatch
    exact ⟨hchunks, hdata, exists_ownScores.mp ⟨rows, hrows⟩,
      (columns_of_addRewardColumns hkeys).mp ⟨columns, hcolumns⟩⟩
  · rintro ⟨hchunks, huniform⟩
    obtain ⟨rows, hrows⟩ := exists_ownScores.mpr huniform.numbers
    obtain ⟨keys, hkeys⟩ : ∃ keys,
        firstKeys (extraInfos (data.map Sample.outcome)) = .ok keys :=
      exists_firstKeys (by simpa using hdata)
    obtain ⟨columns, hcolumns⟩ :=
      (columns_of_addRewardColumns (d := PyDict.empty) hkeys).mpr
        huniform.columns
    refine ⟨⟨some rows, columns, keys⟩, (computeRmScore_eq_ok hdata).mpr
      ⟨hchunks, rows, keys, columns, hrows, hkeys, hcolumns, rfl⟩,
      ⟨rows, rfl, hrows⟩, fun key hkey => ?_⟩
    obtain ⟨column, hcolumn, -⟩ :=
      huniform.columns key ((mem_firstKeys hkeys).mp hkey)
    exact ⟨column, get?_addRewardColumns hcolumns hcolumn (.inl hkey),
      hcolumn⟩

/-- What `_postprocess` writes under a key after the extra information. -/
def writtenOver (inputs : List (AgentSample ν)) (key : String) :
    Option (List ν) :=
  if key ∈ allKeys inputs then some (extraColumn inputs key)
  else if key = "multi_modal_inputs" ∧ (inputs.map
      AgentSample.multiModalInputs).any (fun mmi => !isNone mmi) = true then
    some (inputs.map AgentSample.multiModalInputs)
  else Option.none

omit [PyValue ν σ] [Zero σ] in
theorem get?_foldl_set (keys : List String) (f : String → List ν)
    (d : PyDict (List ν)) (key : String) :
    (keys.foldl (fun d key => d.set key (f key)) d).get? key =
      if key ∈ keys then some (f key) else d.get? key := by
  induction keys generalizing d with
  | nil => simp
  | cons k keys ih =>
      rw [List.foldl_cons, ih, PyDict.get?_set]
      by_cases hkey : key = k
      · simp [hkey]
      · simp [hkey]

theorem get?_lateColumns (inputs : List (AgentSample ν))
    (d : PyDict (List ν)) (key : String) :
    (lateColumns inputs d).get? key =
      (writtenOver inputs key).or (d.get? key) := by
  rw [lateColumns, get?_foldl_set, writtenOver]
  by_cases hall : key ∈ allKeys inputs
  · rw [if_pos hall, if_pos hall]
    rfl
  · rw [if_neg hall, if_neg hall]
    split_ifs with hany hlate hlate
    · rw [PyDict.get?_set, if_pos hlate.1]
      rfl
    · rw [PyDict.get?_set, if_neg fun hkey => hlate ⟨hkey, hany⟩]
      rfl
    · exact absurd hlate.2 hany
    · rfl

theorem not_isNone_of_score {outcome : Outcome ν}
    (h : outcome.score ≠ Option.none) :
    isNone (runSingle outcome).rewardScore = false := by
  rw [← toFloat_runSingle] at h
  rw [← Bool.not_eq_true]
  exact fun hnone => h (toFloat_of_isNone _ hnone)

/-- `_postprocess` where it has scores for the batch. -/
theorem postprocessRewards_eq_ok {inputs : List (AgentSample ν)}
    {batch : RewardBatch ν σ} (hscores : batch.rmScores ≠ Option.none) :
    postprocessRewards inputs = .ok batch ↔
      ∃ rows keys columns,
        OwnScores (inputs.map AgentSample.toSample) rows ∧
        firstKeys (extraInfos ((inputs.map AgentSample.toSample).map
          Sample.outcome)) = .ok keys ∧
        addRewardColumns (PyDict.empty.set "__num_turns__"
          (inputs.map AgentSample.numTurns))
          (extraInfos ((inputs.map AgentSample.toSample).map
            Sample.outcome)) keys = .ok columns ∧
        batch = ⟨some rows, lateColumns inputs columns, keys⟩ := by
  have hresults : (inputs.map fun input => runSingle input.outcome).map
      RewardResult.rewardScore = (inputs.map AgentSample.toSample).map
        fun s => (runSingle s.outcome).rewardScore := by
    simp
  have hinfos : (inputs.map fun input => runSingle input.outcome).map
      RewardResult.rewardExtraInfo =
        extraInfos ((inputs.map AgentSample.toSample).map Sample.outcome) := by
    simp [extraInfos]
  simp only [postprocessRewards, bind_eq_ok, hresults, hinfos]
  constructor
  · rintro ⟨rmScores, hrm, keys, hkeys, columns, hcolumns, heq⟩
    cases heq
    unfold optionalRmScores at hrm
    split at hrm
    · obtain ⟨rows, hrows, rfl⟩ := map_eq_ok.mp hrm
      exact ⟨rows, keys, columns, rmScores_eq_ok.mp hrows, hkeys, hcolumns,
        rfl⟩
    · cases hrm
      exact absurd rfl hscores
  · rintro ⟨rows, keys, columns, hrows, hkeys, hcolumns, rfl⟩
    refine ⟨some rows, ?_, keys, hkeys, columns, hcolumns, rfl⟩
    have hnumbers := exists_ownScores.mp ⟨rows, hrows⟩
    rw [optionalRmScores, if_pos (List.all_eq_true.mpr fun score hscore => by
      obtain ⟨s, hs, rfl⟩ := List.mem_map.mp hscore
      rw [not_isNone_of_score (hnumbers s hs)]
      rfl)]
    exact map_eq_ok.mpr ⟨rows, rmScores_eq_ok.mpr hrows, rfl⟩

/-- `_postprocess` assembles the batch exactly if the samples are uniform and
nothing else is written over a key of theirs. -/
theorem postprocessRewards_assembled_iff {inputs : List (AgentSample ν)} :
    (∃ batch : RewardBatch ν σ, postprocessRewards inputs = .ok batch ∧
      Assembled (inputs.map AgentSample.toSample) batch) ↔
      Uniform (inputs.map AgentSample.toSample) ∧
        ∀ key, FirstKey ((inputs.map AgentSample.toSample).map
          Sample.outcome) key → ∀ column ∈ writtenOver inputs key,
            ColumnOf ((inputs.map AgentSample.toSample).map Sample.outcome)
              key column := by
  constructor
  · rintro ⟨batch, hbatch, hassembled⟩
    obtain ⟨rows, hrm, -⟩ := hassembled.scores
    obtain ⟨rows, keys, columns, hrows, hkeys, hcolumns, rfl⟩ :=
      (postprocessRewards_eq_ok (by simp [hrm])).mp hbatch
    have hcolumn := (columns_of_addRewardColumns hkeys).mp ⟨columns, hcolumns⟩
    refine ⟨⟨?_, exists_ownScores.mp ⟨rows, hrows⟩, hcolumn⟩, ?_⟩
    · intro hnil
      rw [hnil] at hkeys
      cases hkeys
    · intro key hkey column hlate
      obtain ⟨column', hget, hcolumn'⟩ :=
        hassembled.columns key ((mem_firstKeys hkeys).mpr hkey)
      simp only [get?_lateColumns, Option.mem_def.mp hlate, Option.some_or,
        Option.some.injEq] at hget
      rw [hget]
      exact hcolumn'
  · rintro ⟨huniform, hlate⟩
    obtain ⟨rows, hrows⟩ := exists_ownScores.mpr huniform.numbers
    obtain ⟨keys, hkeys⟩ : ∃ keys, firstKeys (extraInfos
        ((inputs.map AgentSample.toSample).map Sample.outcome)) = .ok keys :=
      exists_firstKeys (by simpa using huniform.nonempty)
    obtain ⟨columns, hcolumns⟩ := (columns_of_addRewardColumns
      (d := PyDict.empty.set "__num_turns__"
        (inputs.map AgentSample.numTurns)) hkeys).mpr huniform.columns
    refine ⟨⟨some rows, lateColumns inputs columns, keys⟩,
      (postprocessRewards_eq_ok (by simp)).mpr
        ⟨rows, keys, columns, hrows, hkeys, hcolumns, rfl⟩,
      ⟨rows, rfl, hrows⟩, fun key hkey => ?_⟩
    have hfirst := (mem_firstKeys hkeys).mp hkey
    rw [get?_lateColumns]
    cases hwritten : writtenOver inputs key with
    | some column => exact ⟨column, rfl, hlate key hfirst column hwritten⟩
    | none =>
        obtain ⟨column, hcolumn, -⟩ := huniform.columns key hfirst
        exact ⟨column, get?_addRewardColumns hcolumns hcolumn (.inl hkey),
          hcolumn⟩

/-- Both places assemble the batch, each exactly under its own condition. -/
theorem failedReward_staysWithSample_iff (paddingEnabled : Bool)
    (data : List (Sample ν)) (numWorkers : Nat)
    (inputs : List (AgentSample ν)) :
    ((∃ batch : RewardBatch ν σ,
      computeRmScore paddingEnabled data numWorkers = .ok batch ∧
        Assembled data batch) ↔
      Chunkable paddingEnabled data.length numWorkers ∧ Uniform data) ∧
    ((∃ batch : RewardBatch ν σ, postprocessRewards inputs = .ok batch ∧
      Assembled (inputs.map AgentSample.toSample) batch) ↔
      Uniform (inputs.map AgentSample.toSample) ∧
        ∀ key, FirstKey ((inputs.map AgentSample.toSample).map
          Sample.outcome) key → ∀ column ∈ writtenOver inputs key,
            ColumnOf ((inputs.map AgentSample.toSample).map Sample.outcome)
              key column) :=
  ⟨computeRmScore_assembled_iff, postprocessRewards_assembled_iff⟩

inductive Value
  | number (x : Int)
  | flag (b : Bool)
  | text (s : String)
  | none
  | dict (entries : List (String × Value))

instance : PyValue Value Int where
  number := .number
  flag := .flag
  text := .text
  none := .none
  dict := .dict
  isNone
    | .none => true
    | _ => false
  toFloat
    | .number x => some x
    | .flag b => some b.toNat
    | _ => Option.none
  homogeneous _ := true
  toFloat_number _ := rfl
  toFloat_of_isNone v h := by cases v <;> simp_all

/-- A reward function that returns a dictionary for the first sample and
times out on the second. -/
def oneTimeout : List (Sample Value) :=
  [⟨.returnedDict (PyDict.empty.set "score" (.number 1)), 2, 2,
      Nat.le_refl 2, Nat.zero_lt_two⟩,
    ⟨.timeout, 2, 1, Nat.le_succ 1, Nat.zero_lt_two⟩]

/-- The timeout makes the whole batch fail. -/
theorem failedReward_staysWithSample_fails :
    computeRmScore false oneTimeout 2 = .error (.keyError "score") ∧
      postprocessRewards (oneTimeout.map fun s =>
        (⟨s, .number 2, .none, PyDict.empty⟩ : AgentSample Value)) =
        .error (.keyError "score") :=
  ⟨rfl, rfl⟩

/-- `__call__` of the manager: the extra information of a result is appended
key by key. -/
def appendInfo (rewardExtraInfo : PyDict (List ν)) (info : PyDict ν) :
    PyDict (List ν) :=
  info.entries.foldl (fun d e => d.set e.1 ((d.get? e.1).getD [] ++ [e.2]))
    rewardExtraInfo

/-- `reward_extra_info` of `__call__` -/
def callColumns (outcomes : List (Outcome ν)) : PyDict (List ν) :=
  (extraInfos outcomes).foldl appendInfo PyDict.empty

omit [PyValue ν σ] [Zero σ] in
theorem get?_appendInfo (d : PyDict (List ν)) (info : PyDict ν)
    (key : String) :
    (appendInfo d info).get? key =
      match info.get? key with
      | some v => some ((d.get? key).getD [] ++ [v])
      | Option.none => d.get? key := by
  obtain ⟨entries, hnodup⟩ := info
  simp only [appendInfo, PyDict.get?]
  induction entries generalizing d with
  | nil => rfl
  | cons e entries ih =>
      obtain ⟨k, v⟩ := e
      obtain ⟨hk, hrest⟩ := List.nodup_cons.mp hnodup
      rw [List.foldl_cons, ih _ hrest, List.lookup_cons]
      have hset := PyDict.get?_set d k key ((d.get? k).getD [] ++ [v])
      by_cases hkey : key = k
      · subst hkey
        have hnone : entries.lookup key = Option.none := by
          rw [List.lookup_eq_none_iff]
          intro e he
          have hne : e.1 ≠ key := fun heq =>
            hk (heq ▸ List.mem_map.mpr ⟨e, he, rfl⟩)
          simpa using Ne.symm hne
        rw [if_pos rfl] at hset
        rw [hnone, beq_self_eq_true]
        exact hset
      · have hbeq : (key == k) = false := by simpa using hkey
        rw [if_neg hkey] at hset
        simp only [PyDict.get?] at hset
        rw [hset, hbeq]

/-- A column of `__call__` has the entries there are, without a gap for a
sample that has none. -/
theorem get?_callColumns (outcomes : List (Outcome ν)) (key : String) :
    ((callColumns outcomes).get? key).getD [] =
      outcomes.filterMap fun outcome => outcome.entry key := by
  induction outcomes using List.reverseRecOn with
  | nil => rfl
  | append_singleton outcomes outcome ih =>
      rw [callColumns, extraInfos, List.map_append, List.foldl_append,
        List.map_singleton, List.foldl_cons, List.foldl_nil,
        get?_appendInfo, get?_runSingle, List.filterMap_append, ← ih]
      rw [← extraInfos, ← callColumns]
      cases hentry : outcome.entry key <;> simp [hentry]

end RewardLoop

end SelfDistillation
