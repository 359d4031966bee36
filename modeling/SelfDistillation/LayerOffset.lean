/-
`get_num_layers_to_build` (verl/utils/megatron/router_replay_utils.py) and
`get_transformer_layer_offset` (verl/utils/megatron_utils.py): when the layers
of the pipeline stages, each from its offset on, make up the model.
-/
import SelfDistillation.Library.Tiling
import SelfDistillation.Python

namespace SelfDistillation

namespace LayerOffset

/-- What is read of a `TransformerConfig`, without a custom layout. -/
structure TransformerConfig where
  numLayers : Nat
  pipelineModelParallelSize : Nat
  virtualPipelineModelParallelSize : Option Nat
  numLayersInFirstPipelineStage : Option Nat
  numLayersInLastPipelineStage : Option Nat
  accountForEmbeddingInPipelineSplit : Bool
  accountForLossInPipelineSplit : Bool
  pipelineSize_pos : 0 < pipelineModelParallelSize
  virtualSize_pos : ∀ size ∈ virtualPipelineModelParallelSize, 0 < size

/-- The functions of Megatron that are asked where a stage is:
`is_vp_first_stage`, `is_vp_last_stage` and, for the rank that calls it,
`is_pipeline_first_stage`. -/
structure Megatron where
  isVpFirstStage : Option Nat → Option Nat → Bool
  isVpLastStage : Option Nat → Option Nat → Bool
  isPipelineFirstStage : Nat → Option Nat → Bool

/-- Their answers: a stage without virtual stages is the first and the last
one, and the rank that calls is first with its first virtual stage. -/
structure Megatron.Answers (megatron : Megatron) : Prop where
  vpFirst_none : megatron.isVpFirstStage none none = true
  vpFirst : ∀ stage size, stage < size →
    megatron.isVpFirstStage (some stage) (some size) = decide (stage = 0)
  vpLast_none : megatron.isVpLastStage none none = true
  vpLast : ∀ stage size, stage < size →
    megatron.isVpLastStage (some stage) (some size) =
      decide (stage + 1 = size)
  pipelineFirst_none : ∀ caller,
    megatron.isPipelineFirstStage caller none = decide (caller = 0)
  pipelineFirst : ∀ caller stage,
    megatron.isPipelineFirstStage caller (some stage) =
      decide (caller = 0 ∧ stage = 0)

namespace TransformerConfig

variable (config : TransformerConfig)

/-- An uneven first or last stage is set. -/
def Uneven : Prop :=
  config.numLayersInFirstPipelineStage ≠ none ∨
    config.numLayersInLastPipelineStage ≠ none

instance : Decidable config.Uneven := by
  unfold Uneven
  infer_instance

/-- The layers of a stage that is set, `0` if it is not. -/
def firstLayers : Int := (config.numLayersInFirstPipelineStage.getD 0 : Nat)

def lastLayers : Int := (config.numLayersInLastPipelineStage.getD 0 : Nat)

/-- The stages that are left for the other layers. -/
def stagesLeft : Int :=
  config.pipelineModelParallelSize -
    (if config.numLayersInFirstPipelineStage ≠ none then 1 else 0) -
    (if config.numLayersInLastPipelineStage ≠ none then 1 else 0)

/-- The layers that are left for them. -/
def layersLeft : Int :=
  config.numLayers - config.firstLayers - config.lastLayers

/-- The layers with the embedding and the loss, as far as they are
accounted. -/
def accountedLayers : Int :=
  config.numLayers +
    (if config.accountForEmbeddingInPipelineSplit then 1 else 0) +
    (if config.accountForLossInPipelineSplit then 1 else 0)

end TransformerConfig

section Count

variable (megatron : Megatron) (config : TransformerConfig)

/-- `num_layers_per_pipeline_rank` of the stages between an uneven first and
last one. -/
def middleLayers : Py Int :=
  if config.stagesLeft > 0 then do
    let rest ← floorMod config.layersLeft config.stagesLeft
    pyAssert (rest = 0) ("With uneven pipelineing the left over layers " ++
      "must be divisible by left over stages")
    floorDiv config.layersLeft config.stagesLeft
  else .ok 0

/-- `num_layers_per_pipeline_rank` -/
def layersPerRank (ppRank : Nat) : Py Int :=
  if config.Uneven then do
    pyAssert (!(config.accountForEmbeddingInPipelineSplit ||
        config.accountForLossInPipelineSplit))
      ("         Does not support standalone embedding stage and " ++
        "standalone loss stage with uneven pp")
    let middle ← middleLayers config
    return (if ppRank + 1 = config.pipelineModelParallelSize ∧
          config.numLayersInLastPipelineStage ≠ none then config.lastLayers
        else if ppRank = 0 ∧ config.numLayersInFirstPipelineStage ≠ none then
          config.firstLayers
        else middle)
  else do
    let rest ← floorMod config.accountedLayers config.pipelineModelParallelSize
    pyAssert (rest = 0)
      "num_layers should be divisible by pipeline_model_parallel_size"
    floorDiv config.accountedLayers config.pipelineModelParallelSize

/-- The layers of one model chunk of a stage. -/
def layersPerChunk (perRank : Int) : Py Int :=
  match config.virtualPipelineModelParallelSize with
  | some vpSize =>
      if config.pipelineModelParallelSize > 1 then do
        let rest ← floorMod perRank vpSize
        pyAssert (rest = 0) (s!"num_layers_per_pipeline_rank {perRank} " ++
          s!"            should be divisible by vp_size {vpSize}")
        floorDiv perRank vpSize
      else .ok perRank
  | none => .ok perRank

/-- Reduce the number of layers to construct by 1 for the embedding or the
loss. -/
def reduceFor (here : Bool) (msg : String) (n : Int) : Py Int :=
  if here then do
    pyAssert (n - 1 ≥ 0) msg
    return n - 1
  else .ok n

/-- `get_num_layers_to_build` -/
def getNumLayersToBuild (vpStage : Option Nat) (ppRank : Nat) : Py Int := do
  let perRank ← layersPerRank config ppRank
  let perChunk ← layersPerChunk config perRank
  let n ← reduceFor (config.accountForEmbeddingInPipelineSplit &&
      (megatron.isVpFirstStage vpStage
        config.virtualPipelineModelParallelSize && ppRank == 0))
    "Not enough layers in the first virtual pipeline stage" perChunk
  reduceFor (config.accountForLossInPipelineSplit &&
      (megatron.isVpLastStage vpStage
        config.virtualPipelineModelParallelSize &&
          ppRank + 1 == config.pipelineModelParallelSize))
    "Not enough layers in the last virtual pipeline stage" n

end Count

section Offset

variable (megatron : Megatron) (caller : Nat) (config : TransformerConfig)

/-- `assert vp_stage is not None` -/
def requireStage (vpStage : Option Nat) : Py Int :=
  match vpStage with
  | some stage => .ok stage
  | none => .error (.assertionError ("vp_stage must be provided if virtual " ++
      "pipeline model parallel size is set"))

/-- The offset with an uneven first or last stage. -/
def unevenOffset (pipelineRank : Nat) (vpStage : Option Nat) : Py Int :=
  match config.virtualPipelineModelParallelSize with
  | some vpSize => do
      let stage ← requireStage vpStage
      let chunkInFirst ← floorDiv config.firstLayers vpSize
      let chunkInLast ← floorDiv config.lastLayers vpSize
      let chunkInMiddle ← floorDiv config.layersLeft vpSize
      let totalVirtualChunks := chunkInFirst + chunkInMiddle + chunkInLast
      if pipelineRank = 0 then .ok (stage * totalVirtualChunks)
      else do
        let perMiddle ← floorDiv chunkInMiddle config.stagesLeft
        return stage * totalVirtualChunks + chunkInFirst +
          (pipelineRank - 1) * perMiddle
  | none => do
      let perRank ← (if config.stagesLeft > 0 then
        floorDiv config.layersLeft config.stagesLeft else .ok 0)
      let middleRank : Int :=
        if config.numLayersInFirstPipelineStage = none then pipelineRank
        else pipelineRank - 1
      return (if pipelineRank = 0 then 0
        else middleRank * perRank + config.firstLayers)

/-- Reduce the offset of embedding layer from the total layer number; it is
the calling rank that is asked. -/
def withoutEmbedding (vpStage : Option Nat) (offset : Int) : Int :=
  if config.accountForEmbeddingInPipelineSplit &&
      !megatron.isPipelineFirstStage caller vpStage then offset - 1
  else offset

/-- The offset of an even split. -/
def evenOffset (pipelineRank : Nat) (vpStage : Option Nat) : Py Int := do
  let perRank ←
    floorDiv config.accountedLayers config.pipelineModelParallelSize
  match config.virtualPipelineModelParallelSize with
  | some vpSize => do
      let stage ← requireStage vpStage
      let perVirtualRank ← floorDiv perRank vpSize
      let totalVirtualChunks ← floorDiv config.accountedLayers vpSize
      return withoutEmbedding megatron caller config vpStage
        (stage * totalVirtualChunks + pipelineRank * perVirtualRank)
  | none =>
      return withoutEmbedding megatron caller config vpStage
        (pipelineRank * perRank)

/-- `get_transformer_layer_offset`, on the rank `caller` -/
def getTransformerLayerOffset (pipelineRank : Nat) (vpStage : Option Nat) :
    Py Int :=
  if config.pipelineModelParallelSize > 1 then
    if config.Uneven then unevenOffset config pipelineRank vpStage
    else evenOffset megatron caller config pipelineRank vpStage
  else .ok 0

end Offset

section Stages

variable (megatron : Megatron) (config : TransformerConfig)

/-- The number of model chunks of a stage. -/
def TransformerConfig.chunks : Nat :=
  config.virtualPipelineModelParallelSize.getD 1

/-- `vp_stage` of the chunk at a place. -/
def TransformerConfig.vpStage (place : Nat) : Option Nat :=
  config.virtualPipelineModelParallelSize.map fun _ => place

/-- The configuration is accepted on every stage, and the counts of its stages
sum up to the layers. -/
structure Accepted (counts : Nat → Nat → Int) : Prop where
  built : ∀ place < config.chunks,
    ∀ rank < config.pipelineModelParallelSize,
      getNumLayersToBuild megatron config (config.vpStage place) rank =
        .ok (counts place rank)
  sum : ∑ place ∈ Finset.range config.chunks,
    ∑ rank ∈ Finset.range config.pipelineModelParallelSize,
      counts place rank = config.numLayers

/-- Whichever rank asks, no offset raises, and the layers of the stages, in the
order of their virtual stage and then of their rank, are those of the model. -/
def StagesTile (counts : Nat → Nat → Int) : Prop :=
  ∀ caller < config.pipelineModelParallelSize, ∃ offsets : Nat → Nat → Int,
    (∀ place < config.chunks, ∀ rank < config.pipelineModelParallelSize,
      getTransformerLayerOffset megatron caller config rank
        (config.vpStage place) = .ok (offsets place rank)) ∧
    ((List.range config.chunks).flatMap fun place =>
        (List.range config.pipelineModelParallelSize).flatMap fun rank =>
          Tiling.cells (offsets place rank, counts place rank)) =
      (List.range config.numLayers).map fun layer : Nat => (layer : Int)

/-- When they do. -/
structure Tileable : Prop where
  /-- There is a stage to divide the middle layers by. -/
  middle : config.pipelineModelParallelSize = 2 →
    config.virtualPipelineModelParallelSize ≠ none →
    config.numLayersInFirstPipelineStage = none ∨
      config.numLayersInLastPipelineStage = none
  /-- The first and the last stage do not take more layers than there are. -/
  enough : 1 < config.pipelineModelParallelSize →
    config.firstLayers + config.lastLayers ≤ config.numLayers
  /-- A single rank has one chunk. -/
  single : config.pipelineModelParallelSize = 1 → config.numLayers = 0 ∨
    config.chunks = 1
  /-- The embedding is not accounted. -/
  embedding : 1 < config.pipelineModelParallelSize → config.numLayers = 0 ∨
    config.accountForEmbeddingInPipelineSplit = false
  /-- With chunks, the last stage is not set alone, unless it takes all layers
  or is the second of two and takes none. -/
  lastAlone : 1 < config.pipelineModelParallelSize →
    config.virtualPipelineModelParallelSize ≠ none →
    config.numLayersInFirstPipelineStage = none →
    config.numLayersInLastPipelineStage ≠ none →
    config.lastLayers = config.numLayers ∨
      config.pipelineModelParallelSize = 2 ∧ config.lastLayers = 0

end Stages

section Division

/-- What divides evenly is a multiple of the quotient. -/
theorem eq_mul_of_floorDiv {a b r q : Int} (hmod : floorMod a b = .ok r)
    (hr : r = 0) (hdiv : floorDiv a b = .ok q) : a = b * q := by
  obtain ⟨-, hmod⟩ := floorMod_eq_ok.mp hmod
  obtain ⟨-, hdiv⟩ := floorDiv_eq_ok.mp hdiv
  have h := Int.mul_fdiv_add_fmod a b
  rw [hmod, hdiv, hr, add_zero] at h
  exact h.symm

theorem floorDiv_mul {b : Int} (hb : b ≠ 0) (q : Int) :
    floorDiv (b * q) b = .ok q := by
  rw [floorDiv_eq_ok]
  exact ⟨hb, Int.mul_fdiv_cancel_left q hb⟩

theorem reduceFor_eq_ok {here : Bool} {msg : String} {n r : Int} :
    reduceFor here msg n = .ok r ↔
      (here = true → 0 ≤ n - 1) ∧ r = n - if here then 1 else 0 := by
  unfold reduceFor
  cases here with
  | true =>
      simp only [if_true, bind_eq_ok, pyAssert_eq_ok, decide_eq_true_eq]
      constructor
      · rintro ⟨_, hn, hret⟩
        cases hret
        exact ⟨fun _ => hn, rfl⟩
      · rintro ⟨hn, rfl⟩
        exact ⟨(), hn trivial, rfl⟩
  | false => simp [eq_comm]

end Division

section Counted

variable {megatron : Megatron} {config : TransformerConfig}

theorem chunks_pos (config : TransformerConfig) : 0 < config.chunks := by
  unfold TransformerConfig.chunks
  cases h : config.virtualPipelineModelParallelSize with
  | none => exact Nat.one_pos
  | some size => exact config.virtualSize_pos size h

theorem Megatron.Answers.isVpFirstStage_eq (h : megatron.Answers)
    {place : Nat} (hplace : place < config.chunks) :
    megatron.isVpFirstStage (config.vpStage place)
      config.virtualPipelineModelParallelSize = decide (place = 0) := by
  unfold TransformerConfig.vpStage
  unfold TransformerConfig.chunks at hplace
  cases hsize : config.virtualPipelineModelParallelSize with
  | none =>
      rw [hsize, Option.getD_none] at hplace
      rw [Option.map_none, h.vpFirst_none, eq_comm, decide_eq_true_eq]
      omega
  | some size =>
      rw [hsize, Option.getD_some] at hplace
      exact h.vpFirst place size hplace

theorem Megatron.Answers.isVpLastStage_eq (h : megatron.Answers)
    {place : Nat} (hplace : place < config.chunks) :
    megatron.isVpLastStage (config.vpStage place)
      config.virtualPipelineModelParallelSize =
        decide (place + 1 = config.chunks) := by
  unfold TransformerConfig.vpStage
  unfold TransformerConfig.chunks at hplace ⊢
  cases hsize : config.virtualPipelineModelParallelSize with
  | none =>
      rw [hsize, Option.getD_none] at hplace
      rw [Option.map_none, h.vpLast_none, eq_comm, decide_eq_true_eq,
        Option.getD_none]
      omega
  | some size =>
      rw [hsize, Option.getD_some] at hplace
      exact h.vpLast place size hplace

theorem Megatron.Answers.isPipelineFirstStage_eq (h : megatron.Answers)
    (caller : Nat) {place : Nat} (hplace : place < config.chunks) :
    megatron.isPipelineFirstStage caller (config.vpStage place) =
      decide (caller = 0 ∧ place = 0) := by
  unfold TransformerConfig.vpStage
  unfold TransformerConfig.chunks at hplace
  cases hsize : config.virtualPipelineModelParallelSize with
  | none =>
      rw [hsize, Option.getD_none] at hplace
      have hzero : place = 0 := by omega
      rw [Option.map_none, h.pipelineFirst_none, hzero]
      simp
  | some size => exact h.pipelineFirst caller place

/-- What the embedding and the loss take from a chunk. -/
def taken (config : TransformerConfig) (place rank : Nat) : Int :=
  (if config.accountForEmbeddingInPipelineSplit ∧ place = 0 ∧ rank = 0 then 1
    else 0) +
  if config.accountForLossInPipelineSplit ∧ place + 1 = config.chunks ∧
    rank + 1 = config.pipelineModelParallelSize then 1 else 0

/-- What a count that is accepted is made of. -/
theorem getNumLayersToBuild_eq_ok (hmegatron : megatron.Answers)
    {place rank : Nat} (hplace : place < config.chunks) {n : Int}
    (h : getNumLayersToBuild megatron config (config.vpStage place) rank =
      .ok n) :
    ∃ perRank perChunk, layersPerRank config rank = .ok perRank ∧
      layersPerChunk config perRank = .ok perChunk ∧
      n = perChunk - taken config place rank ∧
      (taken config place rank ≠ 0 → 0 ≤ n) := by
  unfold getNumLayersToBuild at h
  rw [hmegatron.isVpFirstStage_eq hplace,
    hmegatron.isVpLastStage_eq hplace] at h
  obtain ⟨perRank, hrank, h⟩ := bind_eq_ok.mp h
  obtain ⟨perChunk, hchunk, h⟩ := bind_eq_ok.mp h
  obtain ⟨rest, hfirst, hlast⟩ := bind_eq_ok.mp h
  obtain ⟨hembedding, rfl⟩ := reduceFor_eq_ok.mp hfirst
  obtain ⟨hloss, rfl⟩ := reduceFor_eq_ok.mp hlast
  simp only [Bool.and_eq_true, decide_eq_true_eq, beq_iff_eq]
    at hembedding hloss
  refine ⟨perRank, perChunk, hrank, hchunk, ?_, ?_⟩
  · simp only [taken, Bool.and_eq_true, decide_eq_true_eq, beq_iff_eq]
    omega
  · simp only [taken, Bool.and_eq_true, decide_eq_true_eq, beq_iff_eq]
    by_cases hl : config.accountForLossInPipelineSplit ∧
        place + 1 = config.chunks ∧
          rank + 1 = config.pipelineModelParallelSize
    · have := hloss hl
      omega
    · by_cases he : config.accountForEmbeddingInPipelineSplit ∧ place = 0 ∧
          rank = 0
      · have := hembedding he
        rw [if_pos he, if_neg hl]
        omega
      · simp [he, hl]

/-- The layers of a chunk of each stage, before the embedding and the loss
take theirs. -/
structure Shared (config : TransformerConfig) (counts : Nat → Nat → Int)
    (perRank perChunk : Nat → Int) : Prop where
  rank : ∀ rank < config.pipelineModelParallelSize,
    layersPerRank config rank = .ok (perRank rank)
  chunk : ∀ rank < config.pipelineModelParallelSize,
    layersPerChunk config (perRank rank) = .ok (perChunk rank)
  count : ∀ place < config.chunks,
    ∀ rank < config.pipelineModelParallelSize,
      counts place rank = perChunk rank - taken config place rank
  nonneg : ∀ place < config.chunks,
    ∀ rank < config.pipelineModelParallelSize,
      taken config place rank ≠ 0 → 0 ≤ counts place rank

theorem Accepted.exists_shared (hmegatron : megatron.Answers)
    {counts : Nat → Nat → Int} (h : Accepted megatron config counts) :
    ∃ perRank perChunk, Shared config counts perRank perChunk := by
  have hbuilt : ∀ place rank, ∃ n k : Int, place < config.chunks →
      rank < config.pipelineModelParallelSize →
      layersPerRank config rank = .ok n ∧ layersPerChunk config n = .ok k ∧
        counts place rank = k - taken config place rank ∧
        (taken config place rank ≠ 0 → 0 ≤ counts place rank) := by
    intro place rank
    by_cases hin : place < config.chunks ∧
        rank < config.pipelineModelParallelSize
    · obtain ⟨hplace, hrank⟩ := hin
      obtain ⟨n, k, hn, hk, hcount⟩ :=
        getNumLayersToBuild_eq_ok hmegatron hplace
          (h.built place hplace rank hrank)
      exact ⟨n, k, fun _ _ => ⟨hn, hk, hcount⟩⟩
    · exact ⟨0, 0, fun hplace hrank => absurd ⟨hplace, hrank⟩ hin⟩
  choose n k hbuilt using hbuilt
  -- the layers of a chunk do not depend on its place
  have hsame : ∀ place < config.chunks,
      ∀ rank < config.pipelineModelParallelSize,
        k place rank = k 0 rank := by
    intro place hplace rank hrank
    obtain ⟨hn, hk, -⟩ := hbuilt place rank hplace hrank
    obtain ⟨hn₀, hk₀, -⟩ := hbuilt 0 rank (chunks_pos config) hrank
    have hnn : n place rank = n 0 rank := by
      injection hn.symm.trans hn₀
    rw [hnn] at hk
    injection hk.symm.trans hk₀
  refine ⟨n 0, k 0, ?_, ?_, ?_, ?_⟩
  · exact fun rank hrank => (hbuilt 0 rank (chunks_pos config) hrank).1
  · exact fun rank hrank => (hbuilt 0 rank (chunks_pos config) hrank).2.1
  · intro place hplace rank hrank
    rw [← hsame place hplace rank hrank]
    exact (hbuilt place rank hplace hrank).2.2.1
  · exact fun place hplace rank hrank =>
      (hbuilt place rank hplace hrank).2.2.2

theorem layersPerChunk_eq_ok
    (hsize : 1 < config.pipelineModelParallelSize) {perRank perChunk : Int}
    (h : layersPerChunk config perRank = .ok perChunk) :
    perRank = config.chunks * perChunk := by
  unfold layersPerChunk at h
  unfold TransformerConfig.chunks
  cases hvp : config.virtualPipelineModelParallelSize with
  | none =>
      rw [hvp] at h
      cases h
      simp
  | some size =>
      rw [hvp] at h
      dsimp only at h
      rw [if_pos hsize] at h
      obtain ⟨rest, hmod, h⟩ := bind_eq_ok.mp h
      obtain ⟨_, hrest, hdiv⟩ := bind_eq_ok.mp h
      rw [pyAssert_eq_ok, decide_eq_true_eq] at hrest
      exact eq_mul_of_floorDiv hmod hrest hdiv

theorem layersPerChunk_of_single
    (hsize : config.pipelineModelParallelSize = 1) (perRank : Int) :
    layersPerChunk config perRank = .ok perRank := by
  unfold layersPerChunk
  cases config.virtualPipelineModelParallelSize with
  | none => rfl
  | some size => simp [hsize]

theorem layersPerRank_of_even (heven : ¬ config.Uneven) {rank : Nat}
    {n : Int} (h : layersPerRank config rank = .ok n) :
    config.accountedLayers = config.pipelineModelParallelSize * n := by
  unfold layersPerRank at h
  rw [if_neg heven] at h
  obtain ⟨rest, hmod, h⟩ := bind_eq_ok.mp h
  obtain ⟨_, hrest, hdiv⟩ := bind_eq_ok.mp h
  rw [pyAssert_eq_ok, decide_eq_true_eq] at hrest
  exact eq_mul_of_floorDiv hmod hrest hdiv

theorem middleLayers_eq_ok {n : Int} (h : middleLayers config = .ok n) :
    (config.stagesLeft > 0 → config.layersLeft = config.stagesLeft * n) ∧
      (¬ config.stagesLeft > 0 → n = 0) := by
  unfold middleLayers at h
  split_ifs at h with hleft
  · obtain ⟨rest, hmod, h⟩ := bind_eq_ok.mp h
    obtain ⟨_, hrest, hdiv⟩ := bind_eq_ok.mp h
    rw [pyAssert_eq_ok, decide_eq_true_eq] at hrest
    exact ⟨fun _ => eq_mul_of_floorDiv hmod hrest hdiv,
      fun hnot => absurd hleft hnot⟩
  · cases h
    exact ⟨fun hpos => absurd hpos hleft, fun _ => rfl⟩

theorem layersPerRank_of_uneven (huneven : config.Uneven) {rank : Nat}
    {n : Int} (h : layersPerRank config rank = .ok n) :
    config.accountForEmbeddingInPipelineSplit = false ∧
      config.accountForLossInPipelineSplit = false ∧
      ∃ middle, middleLayers config = .ok middle ∧
        n = if rank + 1 = config.pipelineModelParallelSize ∧
            config.numLayersInLastPipelineStage ≠ none then config.lastLayers
          else if rank = 0 ∧ config.numLayersInFirstPipelineStage ≠ none then
            config.firstLayers
          else middle := by
  unfold layersPerRank at h
  rw [if_pos huneven] at h
  obtain ⟨_, hassert, h⟩ := bind_eq_ok.mp h
  obtain ⟨middle, hmiddle, h⟩ := bind_eq_ok.mp h
  rw [pyAssert_eq_ok, Bool.not_eq_true', Bool.or_eq_false_iff] at hassert
  cases h
  exact ⟨hassert.1, hassert.2, middle, hmiddle, rfl⟩

theorem taken_of_uneven
    (hembedding : config.accountForEmbeddingInPipelineSplit = false)
    (hloss : config.accountForLossInPipelineSplit = false)
    (place rank : Nat) : taken config place rank = 0 := by
  simp [taken, hembedding, hloss]

end Counted

section Front

variable {megatron : Megatron} {config : TransformerConfig}
  {counts : Nat → Nat → Int}

/-- The layers of the stages before a stage. -/
def front (config : TransformerConfig) (counts : Nat → Nat → Int)
    (place rank : Nat) : Int :=
  ∑ i ∈ Finset.range place,
      ∑ j ∈ Finset.range config.pipelineModelParallelSize, counts i j +
    ∑ j ∈ Finset.range rank, counts place j

/-- The stage has its place, as the rank `caller` sees it. -/
def InPlace (megatron : Megatron) (caller : Nat) (config : TransformerConfig)
    (counts : Nat → Nat → Int) (place rank : Nat) : Prop :=
  ∃ offset, getTransformerLayerOffset megatron caller config rank
      (config.vpStage place) = .ok offset ∧
    0 ≤ counts place rank ∧
      (counts place rank ≠ 0 → offset = front config counts place rank)

theorem stagesTile_iff (haccepted : Accepted megatron config counts) :
    StagesTile megatron config counts ↔
      ∀ caller < config.pipelineModelParallelSize,
        ∀ place < config.chunks,
          ∀ rank < config.pipelineModelParallelSize,
            InPlace megatron caller config counts place rank := by
  refine forall₂_congr fun caller _ => ?_
  have htiles : ∀ offsets : Nat → Nat → Int,
      ((List.range config.chunks).flatMap fun place =>
        (List.range config.pipelineModelParallelSize).flatMap fun rank =>
          Tiling.cells (offsets place rank, counts place rank)) =
        (List.range config.numLayers).map (fun layer : Nat => (layer : Int)) ↔
      ∀ place < config.chunks, ∀ rank < config.pipelineModelParallelSize,
        0 ≤ counts place rank ∧ (counts place rank ≠ 0 →
          offsets place rank = front config counts place rank) := by
    intro offsets
    have hgrid := Tiling.tiles_grid_iff
      (fun place rank => (offsets place rank, counts place rank)) 0
      config.chunks config.pipelineModelParallelSize
    have hsum := (Tiling.sum_map_grid
      (fun place rank => (offsets place rank, counts place rank))
      config.chunks config.pipelineModelParallelSize).trans haccepted.sum
    rw [← Tiling.flatMap_cells_eq_iff hsum, List.flatMap_assoc] at hgrid
    simp only [List.flatMap_map, Tiling.cells, Int.toNat_natCast, zero_add]
      at hgrid
    exact hgrid
  constructor
  · rintro ⟨offsets, hoffsets, hcells⟩ place hplace rank hrank
    exact ⟨offsets place rank, hoffsets place hplace rank hrank,
      (htiles offsets).mp hcells place hplace rank hrank⟩
  · intro h
    have hall : ∀ place rank, ∃ offset, place < config.chunks →
        rank < config.pipelineModelParallelSize →
        getTransformerLayerOffset megatron caller config rank
            (config.vpStage place) = .ok offset ∧
          0 ≤ counts place rank ∧
            (counts place rank ≠ 0 →
              offset = front config counts place rank) := by
      intro place rank
      by_cases hin : place < config.chunks ∧
          rank < config.pipelineModelParallelSize
      · obtain ⟨offset, hoffset⟩ := h place hin.1 rank hin.2
        exact ⟨offset, fun _ _ => hoffset⟩
      · exact ⟨0, fun hplace hrank => absurd ⟨hplace, hrank⟩ hin⟩
    choose offsets hoffsets using hall
    exact ⟨offsets,
      fun place hplace rank hrank => (hoffsets place rank hplace hrank).1,
      (htiles offsets).mpr fun place hplace rank hrank =>
        (hoffsets place rank hplace hrank).2⟩

/-- Nothing is taken for the loss before the last stage. -/
theorem sum_taken_row {place r : Nat}
    (hr : r ≤ config.pipelineModelParallelSize)
    (hbefore : place + 1 ≠ config.chunks ∨
      r ≠ config.pipelineModelParallelSize) :
    ∑ rank ∈ Finset.range r, taken config place rank =
      if config.accountForEmbeddingInPipelineSplit ∧ place = 0 ∧ r ≠ 0 then 1
      else 0 := by
  induction r with
  | zero => simp
  | succ r ih =>
      have hloss : ¬ (config.accountForLossInPipelineSplit ∧
          place + 1 = config.chunks ∧
            r + 1 = config.pipelineModelParallelSize) := by
        rintro ⟨-, hplace, hrank⟩
        omega
      rw [Finset.sum_range_succ, ih (by omega) (by omega), taken,
        if_neg hloss]
      by_cases hembedding : config.accountForEmbeddingInPipelineSplit
      · simp only [hembedding, true_and]
        split_ifs <;> omega
      · simp [hembedding]

theorem front_taken {place rank : Nat} (hplace : place < config.chunks)
    (hrank : rank < config.pipelineModelParallelSize) :
    front config (taken config) place rank =
      if config.accountForEmbeddingInPipelineSplit ∧
        (place ≠ 0 ∨ rank ≠ 0) then 1 else 0 := by
  unfold front
  rw [sum_taken_row hrank.le (Or.inr hrank.ne)]
  have hrows : ∀ r ≤ place, ∑ i ∈ Finset.range r,
      ∑ j ∈ Finset.range config.pipelineModelParallelSize,
        taken config i j =
        if config.accountForEmbeddingInPipelineSplit ∧ r ≠ 0 then 1
        else 0 := by
    intro r hr
    induction r with
    | zero => simp
    | succ r ih =>
        rw [Finset.sum_range_succ, ih (by omega),
          sum_taken_row le_rfl (Or.inl (by omega))]
        by_cases hembedding : config.accountForEmbeddingInPipelineSplit
        · simp only [hembedding, true_and]
          split_ifs <;> omega
        · simp [hembedding]
  rw [hrows place le_rfl]
  by_cases hembedding : config.accountForEmbeddingInPipelineSplit
  · simp only [hembedding, true_and]
    split_ifs <;> omega
  · simp [hembedding]

theorem Shared.front_eq {perRank perChunk : Nat → Int}
    (h : Shared config counts perRank perChunk) {place rank : Nat}
    (hplace : place < config.chunks)
    (hrank : rank < config.pipelineModelParallelSize) :
    front config counts place rank =
      place * (∑ j ∈ Finset.range config.pipelineModelParallelSize,
          perChunk j) +
        ∑ j ∈ Finset.range rank, perChunk j -
        if config.accountForEmbeddingInPipelineSplit ∧
          (place ≠ 0 ∨ rank ≠ 0) then 1 else 0 := by
  rw [← front_taken hplace hrank]
  have hrows : ∑ i ∈ Finset.range place,
      ∑ j ∈ Finset.range config.pipelineModelParallelSize, counts i j =
        ∑ i ∈ Finset.range place,
          ∑ j ∈ Finset.range config.pipelineModelParallelSize,
            (perChunk j - taken config i j) := by
    refine Finset.sum_congr rfl fun i hi => Finset.sum_congr rfl fun j hj => ?_
    have hi := Finset.mem_range.mp hi
    exact h.count i (by omega) j (Finset.mem_range.mp hj)
  have hrow : ∑ j ∈ Finset.range rank, counts place j =
      ∑ j ∈ Finset.range rank, (perChunk j - taken config place j) := by
    refine Finset.sum_congr rfl fun j hj => ?_
    have hj := Finset.mem_range.mp hj
    exact h.count place hplace j (by omega)
  unfold front
  rw [hrows, hrow]
  simp only [Finset.sum_sub_distrib, Finset.sum_const, Finset.card_range,
    nsmul_eq_mul]
  ring

/-- The stages between the first and the last one are alike. -/
theorem sum_alike {perChunk : Nat → Int} {middle : Int} {rank : Nat}
    (halike : ∀ j < rank, j ≠ 0 → perChunk j = middle) (hrank : rank ≠ 0) :
    ∑ j ∈ Finset.range rank, perChunk j =
      perChunk 0 + ((rank : Int) - 1) * middle := by
  obtain ⟨r, rfl⟩ := Nat.exists_eq_succ_of_ne_zero hrank
  rw [Finset.sum_range_succ', add_comm]
  congr 1
  rw [Finset.sum_congr rfl fun j hj =>
    halike (j + 1) (by have := Finset.mem_range.mp hj; omega) (by omega)]
  simp

theorem counts_eq_zero (haccepted : Accepted megatron config counts)
    (hlayers : config.numLayers = 0)
    (hnonneg : ∀ place < config.chunks,
      ∀ rank < config.pipelineModelParallelSize, 0 ≤ counts place rank)
    {place rank : Nat} (hplace : place < config.chunks)
    (hrank : rank < config.pipelineModelParallelSize) :
    counts place rank = 0 := by
  have hsum := haccepted.sum
  rw [hlayers, Nat.cast_zero] at hsum
  have hrow := (Finset.sum_eq_zero_iff_of_nonneg fun i hi =>
    Finset.sum_nonneg fun j hj => hnonneg i (Finset.mem_range.mp hi) j
      (Finset.mem_range.mp hj)).mp hsum place (Finset.mem_range.mpr hplace)
  exact (Finset.sum_eq_zero_iff_of_nonneg fun j hj => hnonneg place hplace j
    (Finset.mem_range.mp hj)).mp hrow rank (Finset.mem_range.mpr hrank)

end Front

section Even

variable {megatron : Megatron} {config : TransformerConfig}
  {counts : Nat → Nat → Int}

theorem Shared.even {perRank perChunk : Nat → Int}
    (hsize : 1 < config.pipelineModelParallelSize)
    (heven : ¬ config.Uneven) (h : Shared config counts perRank perChunk) :
    ∃ k : Int, config.accountedLayers =
        config.pipelineModelParallelSize * (config.chunks * k) ∧
      ∀ rank < config.pipelineModelParallelSize, perChunk rank = k := by
  have hall : ∀ rank < config.pipelineModelParallelSize,
      config.accountedLayers = config.pipelineModelParallelSize *
        (config.chunks * perChunk rank) := by
    intro rank hrank
    rw [← layersPerChunk_eq_ok hsize (h.chunk rank hrank)]
    exact layersPerRank_of_even heven (h.rank rank hrank)
  have hfirst := hall 0 (by omega)
  refine ⟨perChunk 0, hfirst, fun rank hrank => ?_⟩
  have hsame := (hall rank hrank).symm.trans hfirst
  have hchunks := chunks_pos config
  have hchunk := mul_left_cancel₀ (by exact_mod_cast (by omega)) hsame
  exact mul_left_cancel₀ (by exact_mod_cast hchunks.ne') hchunk

theorem evenOffset_eq_ok (hmegatron : megatron.Answers) {k : Int}
    (haccounted : config.accountedLayers =
      config.pipelineModelParallelSize * (config.chunks * k))
    (caller : Nat) {place : Nat} (hplace : place < config.chunks)
    (rank : Nat) :
    evenOffset megatron caller config rank (config.vpStage place) =
      .ok (place * (config.pipelineModelParallelSize * k) + rank * k -
        if config.accountForEmbeddingInPipelineSplit ∧
          ¬ (caller = 0 ∧ place = 0) then 1 else 0) := by
  have hsize : (config.pipelineModelParallelSize : Int) ≠ 0 := by
    exact_mod_cast config.pipelineSize_pos.ne'
  have hchunks : (config.chunks : Int) ≠ 0 := by
    exact_mod_cast (chunks_pos config).ne'
  have hreduced : ∀ offset, withoutEmbedding megatron caller config
      (config.vpStage place) offset =
        offset - if config.accountForEmbeddingInPipelineSplit ∧
          ¬ (caller = 0 ∧ place = 0) then 1 else 0 := by
    intro offset
    unfold withoutEmbedding
    rw [hmegatron.isPipelineFirstStage_eq caller hplace]
    by_cases he : config.accountForEmbeddingInPipelineSplit ∧
        ¬ (caller = 0 ∧ place = 0)
    · rw [if_pos he, if_pos]
      rw [Bool.and_eq_true, Bool.not_eq_true', decide_eq_false_iff_not]
      exact he
    · rw [if_neg he, if_neg, sub_zero]
      rw [Bool.and_eq_true, Bool.not_eq_true', decide_eq_false_iff_not]
      exact he
  have hrank : floorDiv config.accountedLayers
      config.pipelineModelParallelSize = .ok (config.chunks * k) := by
    rw [haccounted, floorDiv_mul hsize]
  unfold evenOffset
  rw [hrank]
  cases hvp : config.virtualPipelineModelParallelSize with
  | none =>
      have hone : config.chunks = 1 := by
        simp [TransformerConfig.chunks, hvp]
      have hzero : place = 0 := by omega
      refine congrArg Except.ok ((hreduced _).trans ?_)
      rw [hone, hzero]
      simp
  | some size =>
      have hvpSize : config.chunks = size := by
        simp [TransformerConfig.chunks, hvp]
      have hstage : config.vpStage place = some place := by
        simp [TransformerConfig.vpStage, hvp]
      have hperVirtual : floorDiv (config.chunks * k) size = .ok k := by
        rw [← hvpSize, floorDiv_mul hchunks]
      have htotal : floorDiv config.accountedLayers size =
          .ok (config.pipelineModelParallelSize * k) := by
        rw [haccounted, ← hvpSize, mul_left_comm, floorDiv_mul hchunks]
      rw [hstage] at hreduced ⊢
      change (do
        let perVirtualRank ← floorDiv (config.chunks * k) size
        let totalVirtualChunks ← floorDiv config.accountedLayers size
        return withoutEmbedding megatron caller config (some place)
          (place * totalVirtualChunks + rank * perVirtualRank)) = _
      rw [hperVirtual, htotal]
      exact congrArg Except.ok (hreduced _)

/-- With an even split the embedding must not be accounted: the first rank
does not take it from the offsets it asks for. -/
theorem inPlace_even_iff (hmegatron : megatron.Answers)
    (haccepted : Accepted megatron config counts)
    (hsize : 1 < config.pipelineModelParallelSize)
    (heven : ¬ config.Uneven) :
    (∀ caller < config.pipelineModelParallelSize,
      ∀ place < config.chunks, ∀ rank < config.pipelineModelParallelSize,
        InPlace megatron caller config counts place rank) ↔
      config.numLayers = 0 ∨
        config.accountForEmbeddingInPipelineSplit = false := by
  obtain ⟨perRank, perChunk, hshared⟩ := haccepted.exists_shared hmegatron
  obtain ⟨k, haccounted, hk⟩ := hshared.even hsize heven
  have hchunks := chunks_pos config
  have hoffset : ∀ caller rank : Nat, ∀ place < config.chunks,
      getTransformerLayerOffset megatron caller config rank
          (config.vpStage place) =
        .ok (place * (config.pipelineModelParallelSize * k) + rank * k -
          if config.accountForEmbeddingInPipelineSplit ∧
            ¬ (caller = 0 ∧ place = 0) then 1 else 0) := by
    intro caller rank place hplace
    unfold getTransformerLayerOffset
    rw [if_pos hsize, if_neg heven]
    exact evenOffset_eq_ok hmegatron haccounted caller hplace rank
  have hfront : ∀ place < config.chunks,
      ∀ rank < config.pipelineModelParallelSize,
        front config counts place rank =
          place * (config.pipelineModelParallelSize * k) + rank * k -
            if config.accountForEmbeddingInPipelineSplit ∧
              (place ≠ 0 ∨ rank ≠ 0) then 1 else 0 := by
    intro place hplace rank hrank
    have hbelow : ∀ r ≤ config.pipelineModelParallelSize,
        ∑ j ∈ Finset.range r, perChunk j = r * k := by
      intro r hr
      rw [Finset.sum_congr rfl fun j hj =>
        hk j (by have := Finset.mem_range.mp hj; omega)]
      simp
    rw [hshared.front_eq hplace hrank, hbelow _ le_rfl, hbelow _ hrank.le]
  have hcells : (0 : Int) < config.pipelineModelParallelSize *
      config.chunks := by
    positivity
  rw [← mul_assoc] at haccounted
  constructor
  · intro h
    by_contra hnot
    rw [not_or, Bool.not_eq_false] at hnot
    obtain ⟨hlayers, hembedding⟩ := hnot
    obtain ⟨offset, hok, -, hat⟩ := h 0 (by omega) 0 hchunks 1 hsize
    have hcount := hshared.count 0 hchunks 1 hsize
    rw [hk 1 hsize] at hcount
    rw [hoffset 0 1 0 hchunks] at hok
    rw [hfront 0 hchunks 1 hsize] at hat
    simp only [hembedding, Nat.cast_zero, Nat.cast_one, zero_mul, zero_add,
      one_mul, ne_eq, not_true, and_self, and_false, if_false, sub_zero,
      one_ne_zero, not_false_iff, or_true, if_true, Except.ok.injEq]
      at hok hat
    -- the second rank holds no layer, so the loss has taken its only one
    have hempty : counts 0 1 = 0 := by
      by_contra hne
      have := hat hne
      omega
    have hpos : 0 < k := by
      have hmany : 0 < config.accountedLayers := by
        unfold TransformerConfig.accountedLayers
        split_ifs <;> omega
      rw [haccounted] at hmany
      exact pos_of_mul_pos_right hmany hcells.le
    have htaken : taken config 0 1 = k := by omega
    simp only [taken, one_ne_zero, and_false, if_false, zero_add] at htaken
    split_ifs at htaken with hloss
    · obtain ⟨hloss, hone, htwo⟩ := hloss
      rw [← htaken, ← hone, ← htwo, TransformerConfig.accountedLayers,
        if_pos hembedding, if_pos hloss] at haccounted
      push_cast at haccounted
      omega
    · omega
  · intro hcond caller _ place hplace rank hrank
    have hnonneg : ∀ place < config.chunks,
        ∀ rank < config.pipelineModelParallelSize,
          0 ≤ counts place rank := by
      intro place hplace rank hrank
      by_cases htaken : taken config place rank = 0
      · rw [hshared.count place hplace rank hrank, hk rank hrank, htaken,
          sub_zero]
        have hmany : 0 ≤ config.accountedLayers := by
          unfold TransformerConfig.accountedLayers
          split_ifs <;> omega
        rw [haccounted] at hmany
        exact nonneg_of_mul_nonneg_right hmany hcells
      · exact hshared.nonneg place hplace rank hrank htaken
    refine ⟨_, hoffset caller rank place hplace,
      hnonneg place hplace rank hrank, fun hne => ?_⟩
    obtain hlayers | hembedding := hcond
    · exact absurd (counts_eq_zero haccepted hlayers hnonneg hplace hrank) hne
    · rw [hfront place hplace rank hrank, hembedding]
      simp

end Even

section Uneven

variable {megatron : Megatron} {config : TransformerConfig}
  {counts : Nat → Nat → Int}

/-- With an uneven stage, the layers of a chunk of each stage. -/
structure Shares (config : TransformerConfig) (perChunk : Nat → Int)
    (middle : Int) : Prop where
  share : ∀ rank < config.pipelineModelParallelSize,
    config.chunks * perChunk rank =
      if rank + 1 = config.pipelineModelParallelSize ∧
          config.numLayersInLastPipelineStage ≠ none then config.lastLayers
      else if rank = 0 ∧ config.numLayersInFirstPipelineStage ≠ none then
        config.firstLayers
      else middle
  left : config.stagesLeft > 0 →
    config.layersLeft = config.stagesLeft * middle
  none_left : ¬ config.stagesLeft > 0 → middle = 0

theorem Shared.shares {perRank perChunk : Nat → Int}
    (hsize : 1 < config.pipelineModelParallelSize)
    (huneven : config.Uneven)
    (h : Shared config counts perRank perChunk) :
    (∀ place rank, taken config place rank = 0) ∧
      ∃ middle, Shares config perChunk middle := by
  obtain ⟨hembedding, hloss, middle, hmiddle, -⟩ :=
    layersPerRank_of_uneven huneven (h.rank 0 (by omega))
  have hleft := middleLayers_eq_ok hmiddle
  refine ⟨taken_of_uneven hembedding hloss, middle, ?_, hleft.1, hleft.2⟩
  intro rank hrank
  obtain ⟨-, -, middle', hmiddle', hperRank⟩ :=
    layersPerRank_of_uneven huneven (h.rank rank hrank)
  have hsame : middle' = middle := by
    injection hmiddle'.symm.trans hmiddle
  rw [← layersPerChunk_eq_ok hsize (h.chunk rank hrank), hperRank, hsame]

theorem firstLayers_nonneg (config : TransformerConfig) :
    0 ≤ config.firstLayers :=
  Int.natCast_nonneg _

theorem lastLayers_nonneg (config : TransformerConfig) :
    0 ≤ config.lastLayers :=
  Int.natCast_nonneg _

theorem firstLayers_of_none
    (h : config.numLayersInFirstPipelineStage = none) :
    config.firstLayers = 0 := by
  simp [TransformerConfig.firstLayers, h]

theorem lastLayers_of_none (h : config.numLayersInLastPipelineStage = none) :
    config.lastLayers = 0 := by
  simp [TransformerConfig.lastLayers, h]

/-- There is a stage for the middle layers, if any is left. -/
theorem Shares.exists_middle {perChunk : Nat → Int} {middle : Int}
    (h : Shares config perChunk middle)
    (hsize : 1 < config.pipelineModelParallelSize)
    (hleft : config.stagesLeft > 0) :
    ∃ rank < config.pipelineModelParallelSize,
      config.chunks * perChunk rank = middle := by
  unfold TransformerConfig.stagesLeft at hleft
  by_cases hfirst : config.numLayersInFirstPipelineStage = none
  · refine ⟨0, by omega, ?_⟩
    rw [h.share 0 (by omega), if_neg (by omega),
      if_neg fun hset => hset.2 hfirst]
  · by_cases hlast : config.numLayersInLastPipelineStage = none
    · refine ⟨config.pipelineModelParallelSize - 1, by omega, ?_⟩
      rw [h.share _ (by omega), if_neg fun hset => hset.2 hlast,
        if_neg (by omega)]
    · rw [if_pos hfirst, if_pos hlast] at hleft
      refine ⟨1, by omega, ?_⟩
      rw [h.share 1 hsize, if_neg (by omega), if_neg (by omega)]

theorem Shares.nonneg_iff {perChunk : Nat → Int} {middle : Int}
    (h : Shares config perChunk middle)
    (hsize : 1 < config.pipelineModelParallelSize) :
    (∀ rank < config.pipelineModelParallelSize, 0 ≤ perChunk rank) ↔
      0 ≤ middle := by
  have hchunks : (0 : Int) < config.chunks := by
    exact_mod_cast chunks_pos config
  constructor
  · intro hnonneg
    by_cases hleft : config.stagesLeft > 0
    · obtain ⟨rank, hrank, hmiddle⟩ := h.exists_middle hsize hleft
      rw [← hmiddle]
      exact mul_nonneg hchunks.le (hnonneg rank hrank)
    · rw [h.none_left hleft]
  · intro hmiddle rank hrank
    refine nonneg_of_mul_nonneg_right ?_ hchunks
    rw [h.share rank hrank]
    split_ifs
    · exact lastLayers_nonneg config
    · exact firstLayers_nonneg config
    · exact hmiddle

theorem Shares.first {perChunk : Nat → Int} {middle : Int}
    (h : Shares config perChunk middle)
    (hsize : 1 < config.pipelineModelParallelSize) :
    config.chunks * perChunk 0 =
      if config.numLayersInFirstPipelineStage ≠ none then config.firstLayers
      else middle := by
  rw [h.share 0 (by omega), if_neg (by omega)]
  simp only [true_and]

theorem Shares.last {perChunk : Nat → Int} {middle : Int}
    (h : Shares config perChunk middle)
    (hsize : 1 < config.pipelineModelParallelSize) :
    config.chunks * perChunk (config.pipelineModelParallelSize - 1) =
      if config.numLayersInLastPipelineStage ≠ none then config.lastLayers
      else middle := by
  rw [h.share _ (by omega)]
  simp only [Nat.sub_add_cancel hsize.le, true_and]
  split_ifs <;> first | rfl | omega

theorem Shares.between {perChunk : Nat → Int} {middle : Int}
    (h : Shares config perChunk middle) {rank : Nat} (hne : rank ≠ 0)
    (hrank : rank + 1 < config.pipelineModelParallelSize) :
    config.chunks * perChunk rank = middle := by
  rw [h.share rank (by omega), if_neg (by omega), if_neg (by omega)]

/-- No stage between the first and the last, if there are just enough for
those that are set. -/
theorem size_of_none_left (hsize : 1 < config.pipelineModelParallelSize)
    (hleft : ¬ config.stagesLeft > 0) :
    config.pipelineModelParallelSize = 2 ∧
      config.numLayersInFirstPipelineStage ≠ none ∧
        config.numLayersInLastPipelineStage ≠ none := by
  unfold TransformerConfig.stagesLeft at hleft
  split_ifs at hleft with hfirst hlast hlast
  · exact ⟨by omega, hfirst, hlast⟩
  all_goals omega

theorem Shares.nonneg_iff_enough {perChunk : Nat → Int} {middle : Int}
    (h : Shares config perChunk middle)
    (haccepted : Accepted megatron config counts)
    (hcounts : ∀ place < config.chunks,
      ∀ rank < config.pipelineModelParallelSize,
        counts place rank = perChunk rank)
    (hsize : 1 < config.pipelineModelParallelSize) :
    0 ≤ middle ↔ config.firstLayers + config.lastLayers ≤ config.numLayers := by
  by_cases hleft : config.stagesLeft > 0
  · have hlayers := h.left hleft
    unfold TransformerConfig.layersLeft at hlayers
    constructor
    · intro hmiddle
      have := mul_nonneg hleft.le hmiddle
      omega
    · intro henough
      exact nonneg_of_mul_nonneg_right (by omega) hleft
  · obtain ⟨htwo, hfirst, hlast⟩ := size_of_none_left hsize hleft
    have hzero := h.first hsize
    have hone := h.last hsize
    rw [if_pos hfirst] at hzero
    rw [if_pos hlast, htwo] at hone
    have hsum : ∑ place ∈ Finset.range config.chunks,
        ∑ rank ∈ Finset.range config.pipelineModelParallelSize,
          counts place rank = config.chunks * (perChunk 0 + perChunk 1) := by
      rw [Finset.sum_congr rfl fun place hplace => Finset.sum_congr rfl
        fun rank hrank => hcounts place (Finset.mem_range.mp hplace) rank
          (Finset.mem_range.mp hrank)]
      rw [htwo]
      simp [Finset.sum_range_succ]
    have hall := hsum.symm.trans haccepted.sum
    rw [mul_add, hzero, hone] at hall
    rw [h.none_left hleft]
    omega

/-- Without chunks, an uneven split always has the right offsets. -/
theorem unevenOffset_of_none {perChunk : Nat → Int} {middle : Int}
    (h : Shares config perChunk middle)
    (hvp : config.virtualPipelineModelParallelSize = none)
    (vpStage : Option Nat) {rank : Nat}
    (hrank : rank < config.pipelineModelParallelSize) :
    unevenOffset config rank vpStage =
      .ok (∑ j ∈ Finset.range rank, perChunk j) := by
  have hone : (config.chunks : Int) = 1 := by
    simp [TransformerConfig.chunks, hvp]
  have hperRank : (if config.stagesLeft > 0 then
      floorDiv config.layersLeft config.stagesLeft else .ok 0) =
        .ok middle := by
    by_cases hleft : config.stagesLeft > 0
    · rw [if_pos hleft, h.left hleft, floorDiv_mul hleft.ne']
    · rw [if_neg hleft, h.none_left hleft]
  unfold unevenOffset
  rw [hvp]
  dsimp only
  rw [hperRank]
  refine congrArg Except.ok ?_
  by_cases hzero : rank = 0
  · simp [hzero]
  · have hsize : 1 < config.pipelineModelParallelSize := by omega
    have hfirst := h.first hsize
    rw [hone, one_mul] at hfirst
    have halike : ∀ j < rank, j ≠ 0 → perChunk j = middle := by
      intro j hj hne
      have hbetween := h.between hne (by omega)
      rwa [hone, one_mul] at hbetween
    rw [if_neg hzero, sum_alike halike hzero, hfirst]
    by_cases hset : config.numLayersInFirstPipelineStage = none
    · rw [if_pos hset, if_neg (not_not.mpr hset), firstLayers_of_none hset]
      ring
    · rw [if_neg hset, if_pos hset]
      ring

/-- With chunks, the offset of a stage misses the layers of the first one
where that is not set. -/
theorem unevenOffset_of_some {perChunk : Nat → Int} {middle k : Int}
    (h : Shares config perChunk middle) (hk : config.chunks * k = middle)
    (hsize : 1 < config.pipelineModelParallelSize)
    (hleft : config.stagesLeft > 0) {size : Nat}
    (hvp : config.virtualPipelineModelParallelSize = some size)
    (place : Nat) {rank : Nat}
    (hrank : rank < config.pipelineModelParallelSize) :
    unevenOffset config rank (some place) =
      .ok (place * (∑ j ∈ Finset.range config.pipelineModelParallelSize,
          perChunk j) + ∑ j ∈ Finset.range rank, perChunk j -
        if config.numLayersInFirstPipelineStage = none ∧ rank ≠ 0 then k
        else 0) := by
  have hchunks : (config.chunks : Int) ≠ 0 := by
    exact_mod_cast (chunks_pos config).ne'
  have hvpSize : (size : Int) = config.chunks := by
    simp [TransformerConfig.chunks, hvp]
  have halike : ∀ j, j ≠ 0 → j + 1 < config.pipelineModelParallelSize →
      perChunk j = k := by
    intro j hne hj
    exact mul_left_cancel₀ hchunks ((h.between hne hj).trans hk.symm)
  have hmiddle : floorDiv config.layersLeft size =
      .ok (config.stagesLeft * k) := by
    rw [h.left hleft, ← hk, hvpSize, mul_left_comm, floorDiv_mul hchunks]
  have hperMiddle : floorDiv (config.stagesLeft * k) config.stagesLeft =
      .ok k :=
    floorDiv_mul hleft.ne' k
  obtain ⟨first, hfirst, hfirstZero⟩ : ∃ first,
      floorDiv config.firstLayers size = .ok first ∧
        perChunk 0 = if config.numLayersInFirstPipelineStage = none then
          first + k else first := by
    have hzero := h.first hsize
    by_cases hset : config.numLayersInFirstPipelineStage = none
    · rw [if_neg (not_not.mpr hset), ← hk] at hzero
      refine ⟨0, ?_, ?_⟩
      · rw [firstLayers_of_none hset, hvpSize]
        exact floorDiv_mul hchunks 0
      · rw [if_pos hset, mul_left_cancel₀ hchunks hzero, zero_add]
    · rw [if_pos hset] at hzero
      exact ⟨perChunk 0, by rw [← hzero, hvpSize, floorDiv_mul hchunks],
        by rw [if_neg hset]⟩
  obtain ⟨last, hlast, hlastOne⟩ : ∃ last,
      floorDiv config.lastLayers size = .ok last ∧
        perChunk (config.pipelineModelParallelSize - 1) =
          if config.numLayersInLastPipelineStage = none then
            last + k else last := by
    have hone := h.last hsize
    by_cases hset : config.numLayersInLastPipelineStage = none
    · rw [if_neg (not_not.mpr hset), ← hk] at hone
      refine ⟨0, ?_, ?_⟩
      · rw [lastLayers_of_none hset, hvpSize]
        exact floorDiv_mul hchunks 0
      · rw [if_pos hset, mul_left_cancel₀ hchunks hone, zero_add]
    · rw [if_pos hset] at hone
      exact ⟨_, by rw [← hone, hvpSize, floorDiv_mul hchunks],
        by rw [if_neg hset]⟩
  -- the chunks of one place, over all stages
  have htotal : ∑ j ∈ Finset.range config.pipelineModelParallelSize,
      perChunk j = first + config.stagesLeft * k + last := by
    obtain ⟨p, hp⟩ := Nat.exists_eq_add_of_lt hsize
    have hpred : config.pipelineModelParallelSize - 1 = p + 1 := by omega
    rw [hpred] at hlastOne
    have hp' : config.pipelineModelParallelSize = p + 1 + 1 := by omega
    have hbefore : ∑ j ∈ Finset.range (p + 1), perChunk j =
        perChunk 0 + ((p + 1 : Nat) - 1) * k :=
      sum_alike (fun j hj hne => halike j hne (by omega)) (by omega)
    rw [hp', Finset.sum_range_succ, hbefore, hfirstZero, hlastOne]
    unfold TransformerConfig.stagesLeft
    rw [hp']
    push_cast
    split_ifs <;> first | contradiction | ring
  unfold unevenOffset
  rw [hvp]
  change (do
    let chunkInFirst ← floorDiv config.firstLayers size
    let chunkInLast ← floorDiv config.lastLayers size
    let chunkInMiddle ← floorDiv config.layersLeft size
    let totalVirtualChunks := chunkInFirst + chunkInMiddle + chunkInLast
    if rank = 0 then Except.ok (place * totalVirtualChunks)
    else do
      let perMiddle ← floorDiv chunkInMiddle config.stagesLeft
      return place * totalVirtualChunks + chunkInFirst +
        (rank - 1) * perMiddle : Py Int) = _
  rw [hfirst, hlast, hmiddle]
  change (if rank = 0 then Except.ok (place * (first + config.stagesLeft * k +
      last))
    else do
      let perMiddle ← floorDiv (config.stagesLeft * k) config.stagesLeft
      return place * (first + config.stagesLeft * k + last) + first +
        (rank - 1) * perMiddle : Py Int) = _
  rw [hperMiddle, htotal]
  by_cases hzero : rank = 0
  · simp [hzero]
  · rw [if_neg hzero]
    refine congrArg Except.ok ?_
    rw [sum_alike (fun j hj hne => halike j hne (by omega)) hzero, hfirstZero]
    by_cases hset : config.numLayersInFirstPipelineStage = none
    · rw [if_pos hset, if_pos ⟨hset, hzero⟩]
      ring
    · rw [if_neg hset, if_neg fun hnone => hset hnone.1]
      ring

/-- With chunks, an uneven split divides the middle layers by the stages left
for them. -/
theorem unevenOffset_of_none_left
    (hsize : 1 < config.pipelineModelParallelSize)
    (hleft : ¬ config.stagesLeft > 0)
    (hvp : config.virtualPipelineModelParallelSize ≠ none) (place : Nat)
    (offset : Int) : unevenOffset config 1 (some place) ≠ .ok offset := by
  obtain ⟨htwo, hfirst, hlast⟩ := size_of_none_left hsize hleft
  have hzero : config.stagesLeft = 0 := by
    unfold TransformerConfig.stagesLeft
    rw [htwo, if_pos hfirst, if_pos hlast]
    rfl
  obtain ⟨size, hvp⟩ := Option.ne_none_iff_exists'.mp hvp
  unfold unevenOffset
  rw [hvp]
  intro h
  dsimp only at h
  obtain ⟨_, -, h⟩ := bind_eq_ok.mp h
  obtain ⟨_, -, h⟩ := bind_eq_ok.mp h
  obtain ⟨_, -, h⟩ := bind_eq_ok.mp h
  obtain ⟨_, -, h⟩ := bind_eq_ok.mp h
  rw [if_neg Nat.one_ne_zero] at h
  obtain ⟨_, hdiv, -⟩ := bind_eq_ok.mp h
  exact (floorDiv_eq_ok.mp hdiv).1 hzero

/-- With an uneven stage: what the offsets need. -/
theorem inPlace_uneven_iff (hmegatron : megatron.Answers)
    (haccepted : Accepted megatron config counts)
    (hsize : 1 < config.pipelineModelParallelSize)
    (huneven : config.Uneven) :
    (∀ caller < config.pipelineModelParallelSize,
      ∀ place < config.chunks, ∀ rank < config.pipelineModelParallelSize,
        InPlace megatron caller config counts place rank) ↔
      config.firstLayers + config.lastLayers ≤ config.numLayers ∧
        (config.virtualPipelineModelParallelSize ≠ none →
          config.stagesLeft > 0 ∧
            (config.numLayersInFirstPipelineStage = none →
              config.lastLayers = config.numLayers ∨
                config.pipelineModelParallelSize = 2 ∧
                  config.lastLayers = 0)) := by
  obtain ⟨perRank, perChunk, hshared⟩ := haccepted.exists_shared hmegatron
  obtain ⟨htaken, middle, hshares⟩ := hshared.shares hsize huneven
  have hchunks : (config.chunks : Int) ≠ 0 := by
    exact_mod_cast (chunks_pos config).ne'
  have hcounts : ∀ place < config.chunks,
      ∀ rank < config.pipelineModelParallelSize,
        counts place rank = perChunk rank := by
    intro place hplace rank hrank
    rw [hshared.count place hplace rank hrank, htaken, sub_zero]
  have hfront : ∀ place < config.chunks,
      ∀ rank < config.pipelineModelParallelSize,
        front config counts place rank =
          place * (∑ j ∈ Finset.range config.pipelineModelParallelSize,
            perChunk j) + ∑ j ∈ Finset.range rank, perChunk j := by
    intro place hplace rank hrank
    have hembedding := (layersPerRank_of_uneven huneven
      (hshared.rank rank hrank)).1
    rw [hshared.front_eq hplace hrank, hembedding]
    simp
  have hoffset : ∀ caller rank vpStage,
      getTransformerLayerOffset megatron caller config rank vpStage =
        unevenOffset config rank vpStage := by
    intro caller rank vpStage
    unfold getTransformerLayerOffset
    rw [if_pos hsize, if_pos huneven]
  have henough := (hshares.nonneg_iff hsize).trans
    (hshares.nonneg_iff_enough haccepted hcounts hsize)
  have hnonneg : (∀ caller < config.pipelineModelParallelSize,
      ∀ place < config.chunks, ∀ rank < config.pipelineModelParallelSize,
        InPlace megatron caller config counts place rank) →
      config.firstLayers + config.lastLayers ≤ config.numLayers := by
    intro h
    refine henough.mp fun rank hrank => ?_
    obtain ⟨_, -, hcount, -⟩ :=
      h 0 (by omega) 0 (chunks_pos config) rank hrank
    rwa [hcounts 0 (chunks_pos config) rank hrank] at hcount
  cases hvp : config.virtualPipelineModelParallelSize with
  | none =>
      simp only [ne_eq, not_true, false_implies, and_true]
      refine ⟨hnonneg, fun h caller _ place hplace rank hrank => ?_⟩
      have hone : config.chunks = 1 := by
        simp [TransformerConfig.chunks, hvp]
      have hzero : place = 0 := by omega
      refine ⟨_, (hoffset caller rank _).trans
        (unevenOffset_of_none hshares hvp _ hrank), ?_, fun _ => ?_⟩
      · rw [hcounts place hplace rank hrank]
        exact henough.mpr h rank hrank
      · rw [hfront place hplace rank hrank, hzero]
        simp
  | some size =>
      have hstage : ∀ place, config.vpStage place = some place := by
        intro place
        simp [TransformerConfig.vpStage, hvp]
      rw [forall_prop_of_true (Option.some_ne_none size)]
      by_cases hleft : config.stagesLeft > 0
      · obtain ⟨rank₀, hrank₀, hk⟩ := hshares.exists_middle hsize hleft
        have hat : ∀ caller rank place : Nat,
            rank < config.pipelineModelParallelSize →
            getTransformerLayerOffset megatron caller config rank
                (config.vpStage place) =
              .ok (place *
                (∑ j ∈ Finset.range config.pipelineModelParallelSize,
                  perChunk j) + ∑ j ∈ Finset.range rank, perChunk j -
                if config.numLayersInFirstPipelineStage = none ∧
                  rank ≠ 0 then perChunk rank₀ else 0) := by
          intro caller rank place hrank
          rw [hoffset, hstage]
          exact unevenOffset_of_some hshares hk hsize hleft hvp place hrank
        have hsome : config.numLayersInFirstPipelineStage = none →
            config.numLayersInLastPipelineStage ≠ none := by
          intro hfirst
          exact huneven.resolve_left (not_not.mpr hfirst)
        have hall : config.numLayersInFirstPipelineStage = none →
            (config.lastLayers = config.numLayers ↔ middle = 0) := by
          intro hfirst
          have hlayers := hshares.left hleft
          rw [TransformerConfig.layersLeft, firstLayers_of_none hfirst,
            sub_zero] at hlayers
          rw [eq_comm, ← sub_eq_zero, hlayers, mul_eq_zero]
          exact or_iff_right hleft.ne'
        constructor
        · intro h
          refine ⟨hnonneg h, hleft, fun hfirst => ?_⟩
          rw [hall hfirst]
          obtain ⟨offset, hok, -, hplaced⟩ :=
            h 0 (by omega) 0 (chunks_pos config) 1 hsize
          rw [hat 0 1 0 hsize, if_pos ⟨hfirst, Nat.one_ne_zero⟩] at hok
          cases hok
          rw [hcounts 0 (chunks_pos config) 1 hsize,
            hfront 0 (chunks_pos config) 1 hsize, sub_eq_self] at hplaced
          by_cases hempty : perChunk 1 = 0
          · by_cases htwo : config.pipelineModelParallelSize = 2
            · have hlast := hshares.last hsize
              rw [htwo, if_pos (hsome hfirst), hempty, mul_zero] at hlast
              exact Or.inr ⟨htwo, hlast.symm⟩
            · have hbetween := hshares.between Nat.one_ne_zero (by omega)
              rw [hempty, mul_zero] at hbetween
              exact Or.inl hbetween.symm
          · rw [hplaced hempty, mul_zero] at hk
            exact Or.inl hk.symm
        · rintro ⟨hmany, -, halone⟩ caller _ place hplace rank hrank
          refine ⟨_, hat caller rank place hrank, ?_, fun hne => ?_⟩
          · rw [hcounts place hplace rank hrank]
            exact henough.mpr hmany rank hrank
          · rw [hfront place hplace rank hrank, sub_eq_self]
            split_ifs with hmissed
            · obtain ⟨hfirst, hlater⟩ := hmissed
              obtain hlayers | ⟨htwo, hlast⟩ := halone hfirst
              · rw [(hall hfirst).mp hlayers, mul_eq_zero] at hk
                exact hk.resolve_left hchunks
              · have hone : rank = config.pipelineModelParallelSize - 1 := by
                  omega
                have hlastOne := hshares.last hsize
                rw [if_pos (hsome hfirst), hlast, ← hone,
                  ← hcounts place hplace rank hrank, mul_eq_zero] at hlastOne
                exact absurd (hlastOne.resolve_left hchunks) hne
            · rfl
      · constructor
        · intro h
          obtain ⟨offset, hok, -⟩ :=
            h 0 (by omega) 0 (chunks_pos config) 1 hsize
          rw [hoffset, hstage] at hok
          exact absurd hok (unevenOffset_of_none_left hsize hleft
            (by rw [hvp]; exact Option.some_ne_none size) 0 offset)
        · rintro ⟨-, hpos, -⟩
          exact absurd hpos hleft

end Uneven

section Single

variable {megatron : Megatron} {config : TransformerConfig}
  {counts : Nat → Nat → Int}

theorem accountedLayers_eq (config : TransformerConfig) :
    config.accountedLayers = config.numLayers +
      (if config.accountForEmbeddingInPipelineSplit then 1 else 0) +
      if config.accountForLossInPipelineSplit then 1 else 0 :=
  rfl

/-- The layers of each chunk of a single rank. -/
theorem Shared.single {perRank perChunk : Nat → Int}
    (hsize : config.pipelineModelParallelSize = 1)
    (h : Shared config counts perRank perChunk) :
    0 ≤ perChunk 0 ∧ (config.Uneven → ∀ place, taken config place 0 = 0) ∧
      (¬ config.Uneven → perChunk 0 = config.accountedLayers) := by
  have hrank := h.rank 0 (by omega)
  have hchunk := h.chunk 0 (by omega)
  rw [layersPerChunk_of_single hsize, Except.ok.injEq] at hchunk
  rw [hchunk] at hrank
  by_cases huneven : config.Uneven
  · obtain ⟨hembedding, hloss, middle, -, hperRank⟩ :=
      layersPerRank_of_uneven huneven hrank
    refine ⟨?_, fun _ place => taken_of_uneven hembedding hloss place 0,
      fun hnot => absurd huneven hnot⟩
    rw [hperRank]
    simp only [zero_add, hsize, true_and]
    split_ifs with hlast hfirst
    · exact lastLayers_nonneg config
    · exact firstLayers_nonneg config
    · exact absurd huneven (by simp_all [TransformerConfig.Uneven])
  · have hall := layersPerRank_of_even huneven hrank
    rw [hsize, Nat.cast_one, one_mul] at hall
    refine ⟨?_, fun hnot => absurd hnot huneven, fun _ => hall.symm⟩
    rw [← hall, accountedLayers_eq]
    split_ifs <;> omega

/-- A single rank asks for the offset of every chunk in vain. -/
theorem inPlace_single_iff (hmegatron : megatron.Answers)
    (haccepted : Accepted megatron config counts)
    (hsize : config.pipelineModelParallelSize = 1) :
    (∀ caller < config.pipelineModelParallelSize,
      ∀ place < config.chunks, ∀ rank < config.pipelineModelParallelSize,
        InPlace megatron caller config counts place rank) ↔
      config.numLayers = 0 ∨ config.chunks = 1 := by
  obtain ⟨perRank, perChunk, hshared⟩ := haccepted.exists_shared hmegatron
  obtain ⟨hperChunk, huneven, heven⟩ := hshared.single hsize
  have hchunks := chunks_pos config
  have hcount : ∀ place < config.chunks,
      counts place 0 = perChunk 0 - taken config place 0 :=
    fun place hplace => hshared.count place hplace 0 (by omega)
  have hoffset : ∀ caller rank vpStage,
      getTransformerLayerOffset megatron caller config rank vpStage =
        .ok 0 := by
    intro caller rank vpStage
    unfold getTransformerLayerOffset
    rw [if_neg (by omega)]
  have hnonneg : ∀ place < config.chunks,
      ∀ rank < config.pipelineModelParallelSize, 0 ≤ counts place rank := by
    intro place hplace rank hrank
    by_cases htaken : taken config place rank = 0
    · have hzero : rank = 0 := by omega
      subst hzero
      rw [hcount place hplace, htaken, sub_zero]
      exact hperChunk
    · exact hshared.nonneg place hplace rank hrank htaken
  constructor
  · intro h
    by_contra hnot
    rw [not_or] at hnot
    obtain ⟨hlayers, hmany⟩ := hnot
    have htwo : 1 < config.chunks := by omega
    obtain ⟨offset, hok, -, hplaced⟩ := h 0 (by omega) 1 htwo 0 (by omega)
    rw [hoffset] at hok
    cases hok
    have hfront : front config counts 1 0 = counts 0 0 := by
      simp [front, hsize]
    rw [hfront] at hplaced
    -- neither of the first two chunks is empty
    have hboth : counts 0 0 ≠ 0 ∧ counts 1 0 ≠ 0 := by
      rw [hcount 0 hchunks, hcount 1 htwo]
      by_cases hset : config.Uneven
      · rw [huneven hset, huneven hset, sub_zero, and_self]
        intro hzero
        apply hlayers
        have hsum := haccepted.sum
        rw [Finset.sum_eq_zero fun place hplace => ?_] at hsum
        · exact_mod_cast hsum.symm
        · rw [hsize, Finset.sum_range_one,
            hcount place (Finset.mem_range.mp hplace), huneven hset, hzero]
          rfl
      · rw [heven hset, accountedLayers_eq]
        have hnotLast : 1 ≠ config.chunks := htwo.ne
        simp only [taken, and_true, hsize, zero_add, one_ne_zero, hnotLast,
          and_false, if_false]
        cases config.accountForEmbeddingInPipelineSplit <;>
          cases config.accountForLossInPipelineSplit <;> simp <;> omega
    exact hboth.1 (hplaced hboth.2).symm
  · intro h caller _ place hplace rank hrank
    refine ⟨0, hoffset caller rank _, hnonneg place hplace rank hrank,
      fun hne => ?_⟩
    obtain hlayers | hone := h
    · exact absurd (counts_eq_zero haccepted hlayers hnonneg hplace hrank) hne
    · have hplaceZero : place = 0 := by omega
      have hrankZero : rank = 0 := by omega
      rw [hplaceZero, hrankZero]
      simp [front]

end Single

section Tile

variable {megatron : Megatron} {config : TransformerConfig}
  {counts : Nat → Nat → Int}

theorem tileable_of_uneven (hsize : 1 < config.pipelineModelParallelSize)
    (huneven : config.Uneven)
    (hembedding : config.accountForEmbeddingInPipelineSplit = false) :
    Tileable config ↔
      config.firstLayers + config.lastLayers ≤ config.numLayers ∧
        (config.virtualPipelineModelParallelSize ≠ none →
          config.stagesLeft > 0 ∧
            (config.numLayersInFirstPipelineStage = none →
              config.lastLayers = config.numLayers ∨
                config.pipelineModelParallelSize = 2 ∧
                  config.lastLayers = 0)) := by
  constructor
  · intro h
    refine ⟨h.enough hsize, fun hvp => ⟨?_, fun hfirst => ?_⟩⟩
    · by_contra hleft
      obtain ⟨htwo, hfirst, hlast⟩ := size_of_none_left hsize hleft
      obtain hnone | hnone := h.middle htwo hvp
      · exact hfirst hnone
      · exact hlast hnone
    · exact h.lastAlone hsize hvp hfirst
        (huneven.resolve_left (not_not.mpr hfirst))
  · rintro ⟨henough, hchunked⟩
    refine ⟨fun htwo hvp => ?_, fun _ => henough, fun hone => ?_,
      fun _ => Or.inr hembedding, fun _ hvp hfirst _ =>
        (hchunked hvp).2 hfirst⟩
    · have hleft := (hchunked hvp).1
      unfold TransformerConfig.stagesLeft at hleft
      by_contra hboth
      rw [not_or] at hboth
      rw [htwo, if_pos hboth.1, if_pos hboth.2] at hleft
      exact absurd hleft (by decide)
    · omega

theorem tileable_of_even (hsize : 1 < config.pipelineModelParallelSize)
    (heven : ¬ config.Uneven) :
    Tileable config ↔ config.numLayers = 0 ∨
      config.accountForEmbeddingInPipelineSplit = false := by
  rw [TransformerConfig.Uneven, not_or, not_not, not_not] at heven
  obtain ⟨hfirst, hlast⟩ := heven
  refine ⟨fun h => h.embedding hsize, fun h => ⟨fun _ _ => Or.inl hfirst,
    fun _ => ?_, fun hone => ?_, fun _ => h, fun _ _ _ hset =>
      absurd hlast hset⟩⟩
  · rw [firstLayers_of_none hfirst, lastLayers_of_none hlast, add_zero]
    exact Int.natCast_nonneg _
  · omega

theorem tileable_of_single (hsize : config.pipelineModelParallelSize = 1) :
    Tileable config ↔ config.numLayers = 0 ∨ config.chunks = 1 := by
  refine ⟨fun h => h.single hsize, fun h => ⟨fun htwo => ?_, fun hmany => ?_,
    fun _ => h, fun hmany => ?_, fun hmany => ?_⟩⟩ <;> omega

/-- On a configuration that is accepted, the stages tile the layers on every
rank that asks exactly if it is one of those. -/
theorem stagesTile_iff_tileable (hmegatron : megatron.Answers)
    (haccepted : Accepted megatron config counts) :
    StagesTile megatron config counts ↔ Tileable config := by
  rw [stagesTile_iff haccepted]
  by_cases hsize : 1 < config.pipelineModelParallelSize
  · by_cases huneven : config.Uneven
    · obtain ⟨perRank, perChunk, hshared⟩ :=
        haccepted.exists_shared hmegatron
      have hembedding := (layersPerRank_of_uneven huneven
        (hshared.rank 0 (by omega))).1
      rw [inPlace_uneven_iff hmegatron haccepted hsize huneven,
        tileable_of_uneven hsize huneven hembedding]
    · rw [inPlace_even_iff hmegatron haccepted hsize huneven,
        tileable_of_even hsize huneven]
  · have hone : config.pipelineModelParallelSize = 1 := by
      have := config.pipelineSize_pos
      omega
    rw [inPlace_single_iff hmegatron haccepted hone, tileable_of_single hone]

/-- Megatron, as it answers. -/
def megatronOf : Megatron where
  isVpFirstStage stage size := size.isNone || stage == some 0
  isVpLastStage stage size := size.isNone || stage.map (· + 1) == size
  isPipelineFirstStage caller stage :=
    caller == 0 && (stage.isNone || stage == some 0)

theorem answers_megatronOf : megatronOf.Answers where
  vpFirst_none := rfl
  vpFirst stage size _ := by
    simp [megatronOf, Bool.beq_eq_decide_eq]
  vpLast_none := rfl
  vpLast stage size _ := by
    simp [megatronOf, Bool.beq_eq_decide_eq]
  pipelineFirst_none caller := by
    simp [megatronOf, Bool.beq_eq_decide_eq]
  pipelineFirst caller stage := by
    simp [megatronOf, Bool.beq_eq_decide_eq]

theorem no_virtualSize_pos : ∀ size ∈ (none : Option Nat), 0 < size := by
  simp

/-- Three layers on two stages, with the embedding accounted. -/
def embeddingConfig : TransformerConfig where
  numLayers := 3
  pipelineModelParallelSize := 2
  virtualPipelineModelParallelSize := none
  numLayersInFirstPipelineStage := none
  numLayersInLastPipelineStage := none
  accountForEmbeddingInPipelineSplit := true
  accountForLossInPipelineSplit := false
  pipelineSize_pos := Nat.two_pos
  virtualSize_pos := no_virtualSize_pos

/-- Ten layers in two chunks on three stages, with a first stage of its
own. -/
def unevenConfig : TransformerConfig where
  numLayers := 10
  pipelineModelParallelSize := 3
  virtualPipelineModelParallelSize := some 2
  numLayersInFirstPipelineStage := some 2
  numLayersInLastPipelineStage := none
  accountForEmbeddingInPipelineSplit := false
  accountForLossInPipelineSplit := false
  pipelineSize_pos := by decide
  virtualSize_pos := by simp

theorem accepted_unevenConfig :
    Accepted megatronOf unevenConfig fun _ rank =>
      if rank = 0 then 1 else 2 where
  built := by decide +kernel
  sum := by decide +kernel

theorem accepted_embeddingConfig :
    Accepted megatronOf embeddingConfig fun _ rank =>
      if rank = 0 then 1 else 2 where
  built := by decide +kernel
  sum := by decide +kernel

theorem stagesTile_iff_tileable_uneven :
    StagesTile megatronOf unevenConfig (fun _ rank =>
      if rank = 0 then 1 else 2) ↔ Tileable unevenConfig :=
  stagesTile_iff_tileable answers_megatronOf accepted_unevenConfig

/-- The first rank is told that the second stage begins with layer 2, behind
the one layer of the first. -/
theorem not_stagesTile_embedding :
    ¬ ∀ (megatron : Megatron) (config : TransformerConfig)
      (counts : Nat → Nat → Int), megatron.Answers →
      Accepted megatron config counts → StagesTile megatron config counts := by
  intro h
  obtain ⟨offsets, hoffsets, hcells⟩ := h megatronOf embeddingConfig _
    answers_megatronOf accepted_embeddingConfig 0 (by decide)
  have hzero := hoffsets 0 (by decide) 0 (by decide)
  have hone := hoffsets 0 (by decide) 1 (by decide)
  have hat : getTransformerLayerOffset megatronOf 0 embeddingConfig 1
      (embeddingConfig.vpStage 0) = .ok 2 := by
    decide +kernel
  have hfirst : getTransformerLayerOffset megatronOf 0 embeddingConfig 0
      (embeddingConfig.vpStage 0) = .ok 0 := by
    decide +kernel
  rw [hfirst] at hzero
  rw [hat] at hone
  injection hzero with hzero
  injection hone with hone
  change [0].flatMap (fun place => [0, 1].flatMap fun rank =>
    Tiling.cells (offsets place rank, if rank = 0 then 1 else 2)) =
      [0, 1, 2] at hcells
  simp only [List.flatMap_cons, List.flatMap_nil, List.append_nil, ← hzero,
    ← hone] at hcells
  exact absurd hcells (by decide +kernel)

end Tile

end LayerOffset

end SelfDistillation
