/-
The forward pass with a shared prefix (verl/trainer/ppo/prefix_grouper_utils.py)
beside the padded path of `_forward_micro_batch`. The `PrefixGrouper` class is
a package of its own: it is a parameter here, with what its users rely on.
-/
import SelfDistillation.Library.Chunks
import SelfDistillation.Library.Ragged
import SelfDistillation.ForwardMicroBatch
import SelfDistillation.Python

namespace SelfDistillation

namespace PrefixGrouper

open ExactNum Packing

variable {F U α β : Type} {b width R v : Nat}

/-- An entry of `group_info`. -/
structure GroupInfo where
  prefixLen : Nat
  suffixLens : List Nat
deriving DecidableEq, Repr

/-- `suffix_out_raw` and `suffix_mask_raw`, as `split_output` returns them. -/
structure SplitOutput (F : Type) (v : Nat) where
  suffixOut : List (List (Fin v → F))
  suffixMask : List (List Bool)

/-- A `PrefixGrouper` object. `modelLogits` is the call of the model whose
attention is patched to use the object. -/
structure Grouper (F : Type) (v : Nat) where
  groupInfo : List GroupInfo
  paddingMask : List (List Bool)
  concatInput : List (List (Fin v)) → List (List Bool) →
    List (List (Fin v)) → List (List Bool) → List (List (Fin v))
  modelLogits : CausalModel F v → List (List (Fin v)) → List (List Bool) →
    List (List Nat) → List (List (Fin v → F))
  splitOutput : List (List (Fin v → F)) → Nat → SplitOutput F v
  convertPadding : List (List (Fin v)) → List (List Bool) → String →
    List (List (Fin v))

/-- `PrefixGrouper.from_ungrouped_masks`, with the prefix mask, the suffix
mask, the group sizes and the padding mode. -/
abbrev Package (F : Type) (v : Nat) :=
  List (List Bool) → List (List Bool) → List Nat → String → Grouper F v

/-- A micro-batch whose rows of one uid have one prompt. The prompts fill
`width` slots, the last of them with a token; the response mask selects
attended tokens only. -/
structure SharedPromptBatch (U : Type) (b width R v : Nat) extends
    MicroBatch (b + 1) (width + R) R v where
  prompts : Fin (b + 1) → List (Fin v)
  responseMask : Fin (b + 1) → List Bool
  uid : Fin (b + 1) → U
  padTokenId : Option Int
  width_pos : 0 < width
  length_prompts : ∀ i, (prompts i).length = width
  length_responseMask : ∀ i, (responseMask i).length = R
  inputIds_eq : ∀ i, inputIds i = prompts i ++ responses i
  positionIds_eq : ∀ i,
    positionIds i = computePositionIdWithMask (attentionMask i)
  attended_last : ∀ i, (attentionMask i)[width - 1]? = some true
  attended_response : ∀ i t, (responseMask i)[t]? = some true →
    (attentionMask i)[width + t]? = some true
  prompts_eq : ∀ i j, uid i = uid j → prompts i = prompts j

section Tensors

/-- `x.size(1)` -/
def size1 (rows : List (List α)) : Nat := (rows.head?.map List.length).getD 0

/-- `row[start : start + len(values)] = values`: the slice ends with the row,
and a single value is broadcast. -/
def setSlice (row : List α) (start : Nat) (values : List α) : Py (List α) :=
  let size := min row.length (start + values.length) - min row.length start
  if values.length = size ∨ values.length = 1 then
    .ok (row.take start ++ values.take size ++ row.drop (start + size))
  else .error (.runtimeError
    "The expanded size of the tensor must match the existing size")

/-- `x.index_select(0, indices)` -/
def indexSelect (rows : List α) (indices : List Nat) : Py (List α) :=
  indices.mapM fun k =>
    match rows[k]? with
    | some row => .ok row
    | none => .error .indexError

/-- `row.masked_fill(mask == 0, 0.0)` -/
def maskedFill [Zero F] (mask : List Bool) (row : List (Num F)) :
    List (Num F) :=
  List.zipWith (fun keep value => if keep then value else some 0) mask row

/-- `full = x.new_zeros(batch_size, length); full[:, :current_len] = x` -/
def padToLength [Zero F] (length : Nat) (rows : List (List (Num F))) :
    Py (List (List (Num F))) :=
  rows.mapM fun row => setSlice (List.replicate length (some 0)) 0 row

end Tensors

section Build

/-- The writes of the loop over `suffix_lens`. -/
def writeSuffixPositions (prefixLen : Nat) (row : List Nat) (curPos : Nat) :
    List Nat → Py (List Nat)
  | [] => .ok row
  | suffixLen :: suffixLens =>
      if 0 < suffixLen then do
        let row ← setSlice row curPos (List.range' prefixLen suffixLen)
        writeSuffixPositions prefixLen row (curPos + suffixLen) suffixLens
      else writeSuffixPositions prefixLen row curPos suffixLens

/-- `build_position_ids_for_prefix_grouper` -/
def buildPositionIdsForPrefixGrouper (prefixGrouper : Grouper F v) :
    Py (List (List Nat)) :=
  let maxLen := size1 prefixGrouper.paddingMask
  prefixGrouper.groupInfo.mapM fun group => do
    let row ← setSlice (List.replicate maxLen 0) 0 (List.range group.prefixLen)
    writeSuffixPositions group.prefixLen row group.prefixLen group.suffixLens

/-- The loop over `uids[1:]`, with the uid before. -/
def groupSizesFrom [DecidableEq U] (cur : Nat) (previous : U) :
    List U → List Nat
  | [] => [cur]
  | uid :: uids =>
      if uid = previous then groupSizesFrom (cur + 1) uid uids
      else cur :: groupSizesFrom 1 uid uids

/-- `group_sizes` -/
def groupSizes [DecidableEq U] : List U → List Nat
  | [] => [1]
  | uid :: uids => groupSizesFrom 1 uid uids

/-- `prefix_indices` -/
def prefixIndices (cursor : Nat) : List Nat → List Nat
  | [] => []
  | gs :: groupSizes => cursor :: prefixIndices (cursor + gs) groupSizes

/-- What `build_pg_from_micro_batch` returns. -/
structure PgInputs (F : Type) (v : Nat) where
  prefixGrouper : Grouper F v
  concatInputIds : List (List (Fin v))
  attentionMask : List (List Bool)
  positionIds : List (List Nat)
  responses : List (List (Fin v))
  responseMask : List (List Bool)

/-- `prefix_ids.ne(pad_token_id)`, for one token. -/
def nePad (padTokenId : Int) (token : Fin v) : Bool :=
  decide ((token.val : Int) ≠ padTokenId)

/-- `build_pg_from_micro_batch` -/
def buildPgFromMicroBatch [DecidableEq U] (package : Package F v)
    (microBatch : SharedPromptBatch U b width R v) (padTokenId : Int)
    (paddingMode : String) : Py (PgInputs F v) := do
  let rows := List.finRange (b + 1)
  let prompts := rows.map microBatch.prompts
  let responses := rows.map microBatch.responses
  let responseMask := rows.map microBatch.responseMask
  let groupSizes := groupSizes (rows.map microBatch.uid)
  let prefixIds ← indexSelect prompts (prefixIndices 0 groupSizes)
  let prefixMask := prefixIds.map fun ids => ids.map (nePad padTokenId)
  let prefixGrouper := package prefixMask responseMask groupSizes paddingMode
  let concatInputIds :=
    prefixGrouper.concatInput prefixIds prefixMask responses responseMask
  let attentionMask := prefixGrouper.paddingMask
  let positionIds ← buildPositionIdsForPrefixGrouper prefixGrouper
  return ⟨prefixGrouper, concatInputIds, attentionMask, positionIds,
    responses, responseMask⟩

end Build

section Forward

variable [Field F] [LinearOrder F] (m : TorchMath F)

/-- `entropy[i : i + chunk_size] = entropy_chunk` with the entropies of rows
of tokens: `entropy` has one dimension, and of the two of the chunk only a
first one of size one can be dropped. -/
def assignEntropyChunk : List (List (Num F)) → Py (List (Num F))
  | [[value]] => .ok [value]
  | _ => .error (.runtimeError
      "The expanded size of the tensor must match the existing size")

/-- `entropy_from_logits_with_chunking` on logits of rows of tokens. What it
returns has one dimension, which broadcasts as one row. -/
def entropyFromLogitsWithChunking (chunkSize : Nat)
    (logits : List (List (Num (Fin v → F)))) : Py (List (List (Num F))) := do
  let entropy ← (Chunks.chunksOf chunkSize logits).mapM fun chunk =>
    assignEntropyChunk (chunk.map fun row => row.map (entropyFromLogits m))
  return [entropy.flatten]

/-- `entropy_from_logits` on logits of rows of tokens. -/
def entropyFromLogitsRows (logits : List (List (Num (Fin v → F)))) :
    Py (List (List (Num F))) :=
  .ok (logits.map fun row => row.map (entropyFromLogits m))

/-- What `pg_forward` returns. -/
structure PgOutputs (F : Type) where
  logProbs : List (List (Num F))
  entropy : Option (List (List (Num F)))
  suffixMask : List (List Bool)

/-- `pg_forward` -/
def pgForward (model : CausalModel F v) (pg : PgInputs F v) (temperature : F)
    (paddingMode : String) (includePrefixLast : Nat)
    (calculateEntropy : Bool)
    (entropyFn : Option (List (List (Num (Fin v → F))) →
      Py (List (List (Num F))))) : Py (PgOutputs F) := do
  let logits := pg.prefixGrouper.modelLogits model pg.concatInputIds
    pg.attentionMask pg.positionIds
  let split := pg.prefixGrouper.splitOutput logits includePrefixLast
  let completionIdsRight := pg.prefixGrouper.convertPadding pg.responses
    pg.responseMask paddingMode
  let suffixOut := split.suffixOut.map fun row =>
    row.dropLast.map (divTemperature temperature)
  let suffixMask := split.suffixMask.map fun row => row.drop 1
  let logProbs := List.zipWith (List.zipWith (logprobsFromLogits m)) suffixOut
    completionIdsRight
  let entropy ← match calculateEntropy, entropyFn with
    | true, some entropyFn => some <$> entropyFn suffixOut
    | _, _ => .ok none
  return ⟨logProbs, entropy, suffixMask⟩

/-- `forward_micro_batch_with_prefix_grouper`: the entropy and the
log-probs. -/
def forwardMicroBatchWithPrefixGrouper [DecidableEq U] (package : Package F v)
    (microBatch : SharedPromptBatch U b width R v) (model : CausalModel F v)
    (temperature : F) (calculateEntropy useChunkingEntropy : Bool) :
    Py (Option (List (List (Num F))) × List (List (Num F))) := do
  let entropyFn :=
    if calculateEntropy then
      some (if useChunkingEntropy then entropyFromLogitsWithChunking m 2048
        else entropyFromLogitsRows m)
    else none
  let padTokenId := microBatch.padTokenId.getD 0
  let pg ← buildPgFromMicroBatch package microBatch padTokenId "right"
  let out ← pgForward m model pg temperature "right" 1 calculateEntropy
    entropyFn
  let logProbs := List.zipWith maskedFill out.suffixMask out.logProbs
  let entropy := out.entropy.map fun entropy =>
    List.zipWith maskedFill out.suffixMask entropy
  let targetResponseLength := size1 pg.responses
  if size1 logProbs ≠ targetResponseLength then
    let fullLogProbs ← padToLength targetResponseLength logProbs
    let fullEntropy ← entropy.mapM (padToLength targetResponseLength)
    return (fullEntropy, fullLogProbs)
  else
    return (entropy, logProbs)

end Forward

section Documented

/-- The number of slots that hold the longest suffix. -/
def suffixWidth (suffixMask : List (List Bool)) : Nat :=
  ((suffixMask.map (List.count true)).max?).getD 0

/-- The lengths of the groups: the attended tokens of the prefix and of every
suffix. -/
def groupInfoOf (prefixMask suffixMask : List (List Bool))
    (groupSizes : List Nat) : List GroupInfo :=
  List.zipWith (fun mask suffixes => ⟨mask.count true, suffixes⟩) prefixMask
    (groupSizes.splitLengths (suffixMask.map (List.count true)))

/-- `total_len` -/
def GroupInfo.totalLen (group : GroupInfo) : Nat :=
  group.prefixLen + group.suffixLens.sum

/-- The tokens of every group: the prefix, then the suffixes without their
masked tokens. -/
def concatRows (prefixMask suffixMask : List (List Bool))
    (groupSizes : List Nat) (prefixIds suffixIds : List (List α)) :
    List (List α) :=
  List.zipWith (· ++ ·) (List.zipWith pack prefixMask prefixIds)
    ((groupSizes.splitLengths (List.zipWith pack suffixMask suffixIds)).map
      List.flatten)

/-- The logits of a group: the prefix attends to itself, every suffix to the
prefix and itself. -/
def groupLogits (model : CausalModel F v) (group : GroupInfo)
    (tokens : List (Fin v × Nat)) : List (Fin v → F) :=
  let prefixTokens := tokens.take group.prefixLen
  ((List.range group.prefixLen).map fun k =>
      model (prefixTokens.take (k + 1))) ++
    (group.suffixLens.splitLengths (tokens.drop group.prefixLen)).flatMap
      fun suffix => (List.range suffix.length).map fun k =>
        model (prefixTokens ++ suffix.take (k + 1))

/-- The outputs of every suffix of a group, behind the last output of the
prefix. An empty prefix has none of its own. -/
def suffixOutputs (emptyPrefix : Option α) (group : GroupInfo)
    (outputs : List α) : List (List (Option α)) :=
  let prefixLast := (outputs.take group.prefixLen).getLast?.or emptyPrefix
  (group.suffixLens.splitLengths (outputs.drop group.prefixLen)).map
    fun suffix => prefixLast :: suffix.map some

/-- The row has the values that are known. -/
def Shows (known : List (Option α)) (row : List α) : Prop :=
  ∀ (k : Nat) x, known[k]? = some (some x) → row[k]? = some x

/-- Masks as the package takes them: a prefix for every group and a suffix for
every row. -/
structure Ungrouped (prefixMask suffixMask : List (List Bool))
    (groupSizes : List Nat) : Prop where
  length_prefixMask : prefixMask.length = groupSizes.length
  sum_groupSizes : groupSizes.sum = suffixMask.length
  groupSizes_pos : ∀ size ∈ groupSizes, 0 < size

/-- What the package does, padding on the right. Values in the padding are
left open, and so is the output in front of a suffix whose prefix is empty
unless `emptyPrefix` is one. -/
structure Documented (emptyPrefix : Option (Fin v → F))
    (package : Package F v) : Prop where
  groupInfo : ∀ {prefixMask suffixMask groupSizes},
    Ungrouped prefixMask suffixMask groupSizes →
      (package prefixMask suffixMask groupSizes "right").groupInfo =
        groupInfoOf prefixMask suffixMask groupSizes
  length_paddingMask : ∀ {prefixMask suffixMask groupSizes},
    Ungrouped prefixMask suffixMask groupSizes →
      let info := groupInfoOf prefixMask suffixMask groupSizes
      (package prefixMask suffixMask groupSizes "right").paddingMask.map
          List.length =
        info.map fun _ => ((info.map GroupInfo.totalLen).max?).getD 0
  concatInput : ∀ {prefixMask suffixMask groupSizes},
    Ungrouped prefixMask suffixMask groupSizes →
      let grouper := package prefixMask suffixMask groupSizes "right"
      ∀ prefixIds suffixIds,
        prefixIds.map List.length = prefixMask.map List.length →
        suffixIds.map List.length = suffixMask.map List.length →
        List.Forall₂ (· <+: ·)
            (concatRows prefixMask suffixMask groupSizes prefixIds suffixIds)
            (grouper.concatInput prefixIds prefixMask suffixIds suffixMask) ∧
          (grouper.concatInput prefixIds prefixMask suffixIds suffixMask).map
            List.length = grouper.paddingMask.map List.length
  modelLogits : ∀ {prefixMask suffixMask groupSizes},
    Ungrouped prefixMask suffixMask groupSizes →
      let grouper := package prefixMask suffixMask groupSizes "right"
      ∀ (model : CausalModel F v) inputIds positionIds,
        inputIds.map List.length = grouper.paddingMask.map List.length →
        positionIds.map List.length = grouper.paddingMask.map List.length →
        List.Forall₂ (· <+: ·)
            (List.zipWith (groupLogits model) grouper.groupInfo
              (List.zipWith List.zip inputIds positionIds))
            (grouper.modelLogits model inputIds grouper.paddingMask
              positionIds) ∧
          (grouper.modelLogits model inputIds grouper.paddingMask
            positionIds).map List.length = grouper.paddingMask.map List.length
  splitOutput : ∀ {prefixMask suffixMask groupSizes},
    Ungrouped prefixMask suffixMask groupSizes →
      let grouper := package prefixMask suffixMask groupSizes "right"
      ∀ logits,
        logits.map List.length = grouper.paddingMask.map List.length →
        List.Forall₂ Shows
            (List.zipWith (suffixOutputs emptyPrefix) grouper.groupInfo
              logits).flatten
            (grouper.splitOutput logits 1).suffixOut ∧
          (∀ row ∈ (grouper.splitOutput logits 1).suffixOut,
            row.length = suffixWidth suffixMask + 1) ∧
          (grouper.splitOutput logits 1).suffixMask = suffixMask.map fun mask =>
            (List.range (suffixWidth suffixMask + 1)).map fun k =>
              decide (k ≤ mask.count true)
  convertPadding : ∀ {prefixMask suffixMask groupSizes},
    Ungrouped prefixMask suffixMask groupSizes →
      let grouper := package prefixMask suffixMask groupSizes "right"
      ∀ suffixIds, suffixIds.map List.length = suffixMask.map List.length →
        List.Forall₂ (· <+: ·) (List.zipWith pack suffixMask suffixIds)
            (grouper.convertPadding suffixIds suffixMask "right") ∧
          ∀ row ∈ grouper.convertPadding suffixIds suffixMask "right",
            row.length = suffixWidth suffixMask

end Documented

section Property

variable [Field F] [LinearOrder F] (m : TorchMath F) [DecidableEq U]

/-- At every token of the response mask the forward pass with shared prefixes
returns the log-prob and the entropy of the padded path. -/
def ReturnsPlain (package : Package F v) (model : CausalModel F v)
    (temperature : F) (calculateEntropy useChunkingEntropy : Bool)
    (microBatch : SharedPromptBatch U b width R v) : Prop :=
  let plain := forwardPadded m model temperature calculateEntropy false
    microBatch.toMicroBatch
  ∃ out,
    forwardMicroBatchWithPrefixGrouper m package microBatch model temperature
        calculateEntropy useChunkingEntropy = .ok out ∧
      ∀ (i : Fin (b + 1)) (t : Nat),
        (microBatch.responseMask i)[t]? = some true →
        out.2[i.val]?.bind (·[t]?) = (plain.logProbs i)[t]? ∧
          out.1.map (fun rows => rows[i.val]?.bind (·[t]?)) =
            plain.entropys.map fun rows => (rows i)[t]?

/-- The two forward passes agree, whatever the model. -/
def EqualsPlain (calculateEntropy useChunkingEntropy : Bool)
    (microBatch : SharedPromptBatch U b width R v) : Prop :=
  ∀ package : Package F v, Documented none package →
    ∀ (model : CausalModel F v) (temperature : F),
      ReturnsPlain m package model temperature calculateEntropy
        useChunkingEntropy microBatch

end Property

section Groups

variable {ρ : Type}

/-- The rows of a group that starts with a row. -/
def rowsOf (group : ρ × List ρ) : List ρ := group.1 :: group.2

/-- What the loop over the uids has seen is one group that may still grow. -/
theorem exists_groups_from [DecidableEq U] (key : ρ → U) (first : ρ)
    (seen rest : List ρ) (hseen : ∀ row ∈ seen, key row = key first) :
    ∃ groups : List (ρ × List ρ),
      groups.flatMap rowsOf = first :: (seen ++ rest) ∧
        groupSizesFrom (seen.length + 1) (key first) (rest.map key) =
          groups.map (fun group => (rowsOf group).length) ∧
        ∀ group ∈ groups, ∀ row ∈ rowsOf group, key row = key group.1 := by
  induction rest generalizing first seen with
  | nil =>
      refine ⟨[(first, seen)], by simp [rowsOf], rfl, ?_⟩
      intro group hgroup row hrow
      obtain rfl := List.mem_singleton.mp hgroup
      rcases List.mem_cons.mp hrow with rfl | hrow
      · rfl
      · exact hseen row hrow
  | cons row rest ih =>
      by_cases hrow : key row = key first
      · have hgrown : ∀ r ∈ seen ++ [row], key r = key first := by
          intro r hr
          rcases List.mem_append.mp hr with hr | hr
          · exact hseen r hr
          · rw [List.mem_singleton.mp hr, hrow]
        obtain ⟨groups, hflat, hsizes, hsame⟩ := ih first (seen ++ [row]) hgrown
        refine ⟨groups, by simpa using hflat, ?_, hsame⟩
        rw [List.map_cons, groupSizesFrom, if_pos hrow, hrow, ← hsizes,
          List.length_append, List.length_singleton]
      · obtain ⟨groups, hflat, hsizes, hsame⟩ := ih row [] (by simp)
        refine ⟨(first, seen) :: groups, by simp [rowsOf, hflat], ?_, ?_⟩
        · rw [List.map_cons, groupSizesFrom, if_neg hrow, List.map_cons,
            ← hsizes]
          rfl
        · intro group hgroup r hr
          rcases List.mem_cons.mp hgroup with rfl | hgroup
          · rcases List.mem_cons.mp hr with rfl | hr
            · rfl
            · exact hseen r hr
          · exact hsame group hgroup r hr

/-- The group sizes cut the rows into groups of one uid. -/
theorem exists_groups [DecidableEq U] (key : ρ → U) {rows : List ρ}
    (hrows : rows ≠ []) :
    ∃ groups : List (ρ × List ρ),
      groups.flatMap rowsOf = rows ∧
        groupSizes (rows.map key) =
          groups.map (fun group => (rowsOf group).length) ∧
        ∀ group ∈ groups, ∀ row ∈ rowsOf group, key row = key group.1 := by
  obtain ⟨first, rest, rfl⟩ := List.exists_cons_of_ne_nil hrows
  exact exists_groups_from key first [] rest (by simp)

/-- The cursor stands at the first row of every group. -/
theorem indexSelect_prefixIndices (f : ρ → α) (done : List ρ)
    (groups : List (ρ × List ρ)) :
    indexSelect ((done ++ groups.flatMap rowsOf).map f)
        (prefixIndices done.length
          (groups.map fun group => (rowsOf group).length)) =
      .ok (groups.map fun group => f group.1) := by
  induction groups generalizing done with
  | nil => rfl
  | cons group groups ih =>
      have hfirst : ((done ++ (rowsOf group ++ groups.flatMap rowsOf)).map
          f)[done.length]? = some (f group.1) := by
        simp [rowsOf]
      have hrest := ih (done ++ rowsOf group)
      rw [List.append_assoc, List.length_append] at hrest
      rw [List.flatMap_cons, List.map_cons, prefixIndices, indexSelect,
        List.mapM_cons, hfirst, ← indexSelect, hrest]
      rfl

/-- What is kept for every row, cut into the groups. -/
theorem splitLengths_groups {groups : List (ρ × List ρ)} {rows : List ρ}
    (hflat : groups.flatMap rowsOf = rows) (f : ρ → α) :
    (groups.map fun group => (rowsOf group).length).splitLengths
        (rows.map f) =
      groups.map fun group => (rowsOf group).map f := by
  have hrows := Ragged.splitLengths_flatten_append
    (groups.map fun group => (rowsOf group).map f) []
  have hlens : (groups.map fun group => (rowsOf group).map f).map
      List.length = groups.map fun group => (rowsOf group).length := by
    simp
  have hmap : (groups.map fun group => (rowsOf group).map f).flatten =
      rows.map f := by
    rw [← hflat, List.map_flatMap, List.flatMap_def]
  rwa [hlens, hmap, List.append_nil] at hrows

end Groups

section Positions

theorem setSlice_append (done old rest values : List α)
    (hold : old.length = values.length) :
    setSlice (done ++ (old ++ rest)) done.length values =
      .ok (done ++ values ++ rest) := by
  have hsize : min (done ++ (old ++ rest)).length
      (done.length + values.length) -
        min (done ++ (old ++ rest)).length done.length = values.length := by
    simp only [List.length_append]
    omega
  simp only [setSlice, hsize, true_or, if_true, List.take_left,
    List.take_length]
  rw [← List.drop_drop, List.drop_left, ← hold, List.drop_left]

/-- A slice of fills is replaced by as many values. -/
theorem setSlice_replicate (done values : List α) (fill : α) {n : Nat}
    (hn : values.length ≤ n) :
    setSlice (done ++ List.replicate n fill) done.length values =
      .ok (done ++ values ++ List.replicate (n - values.length) fill) := by
  have hsplit : List.replicate n fill =
      List.replicate values.length fill ++
        List.replicate (n - values.length) fill := by
    rw [List.replicate_append_replicate, Nat.add_sub_cancel' hn]
  rw [hsplit, setSlice_append _ _ _ _ List.length_replicate]

/-- Every suffix is numbered from the prefix on, each behind the one before
it. -/
theorem writeSuffixPositions_eq (prefixLen : Nat) (done : List Nat)
    (suffixLens : List Nat) {n : Nat} (hn : suffixLens.sum ≤ n) :
    writeSuffixPositions prefixLen (done ++ List.replicate n 0) done.length
        suffixLens =
      .ok (done ++ suffixLens.flatMap (List.range' prefixLen) ++
        List.replicate (n - suffixLens.sum) 0) := by
  induction suffixLens generalizing done n with
  | nil => simp [writeSuffixPositions]
  | cons suffixLen suffixLens ih =>
      rw [List.sum_cons] at hn
      by_cases hpos : 0 < suffixLen
      · have hlen : (List.range' prefixLen suffixLen).length ≤ n := by
          rw [List.length_range']
          omega
        have hrest := ih (done ++ List.range' prefixLen suffixLen)
          (n := n - suffixLen) (by omega)
        rw [List.length_append, List.length_range'] at hrest
        rw [writeSuffixPositions, if_pos hpos, setSlice_replicate _ _ _ hlen,
          ok_bind, List.length_range', hrest, List.flatMap_cons,
          List.sum_cons, Nat.sub_sub, List.append_assoc done]
      · obtain rfl : suffixLen = 0 := by omega
        rw [writeSuffixPositions, if_neg hpos, ih done (by omega)]
        simp

/-- The position ids of a group. -/
def positionRow (group : GroupInfo) : List Nat :=
  List.range group.prefixLen ++
    group.suffixLens.flatMap (List.range' group.prefixLen)

theorem length_positionRow (group : GroupInfo) :
    (positionRow group).length = group.totalLen := by
  simp [positionRow, GroupInfo.totalLen, List.length_flatMap]

theorem buildPositionIds_eq {grouper : Grouper F v}
    (hlen : ∀ group ∈ grouper.groupInfo,
      group.totalLen ≤ size1 grouper.paddingMask) :
    buildPositionIdsForPrefixGrouper grouper =
      .ok (grouper.groupInfo.map fun group => positionRow group ++
        List.replicate (size1 grouper.paddingMask - group.totalLen) 0) := by
  refine mapM_eq_ok_of_forall fun group hgroup => ?_
  have htotal := hlen group hgroup
  rw [GroupInfo.totalLen] at htotal
  have hfront := setSlice_replicate [] (List.range group.prefixLen) 0
    (n := size1 grouper.paddingMask)
    (by rw [List.length_range]; omega)
  have hsuffixes := writeSuffixPositions_eq group.prefixLen
    (List.range group.prefixLen) group.suffixLens
    (n := size1 grouper.paddingMask - group.prefixLen) (by omega)
  rw [List.nil_append, List.length_nil, List.nil_append,
    List.length_range] at hfront
  rw [List.length_range] at hsuffixes
  rw [hfront, ok_bind, hsuffixes, Nat.sub_sub]
  rfl

end Positions

namespace SharedPromptBatch

variable (mb : SharedPromptBatch U b width R v) (pad : Int)

/-- The prompt without the tokens that are the pad token. -/
def keptPrompt (i : Fin (b + 1)) : List (Fin v) :=
  (mb.prompts i).filter (nePad pad)

/-- The response without its masked tokens. -/
def keptResponse (i : Fin (b + 1)) : List (Fin v) :=
  pack (mb.responseMask i) (mb.responses i)

/-- What the output in front of token `k` of a kept response has seen. -/
def context (i : Fin (b + 1)) (k : Nat) : List (Fin v × Nat) :=
  (mb.keptPrompt pad i ++ (mb.keptResponse i).take k).zipIdx

/-- The outputs of a row that the package describes. -/
def knownOutputs (emptyPrefix : Option (Fin v → F)) (model : CausalModel F v)
    (i : Fin (b + 1)) : List (Option (Fin v → F)) :=
  (if mb.keptPrompt pad i = [] then emptyPrefix
    else some (model (mb.context pad i 0))) ::
    (List.range (mb.keptResponse i).length).map fun k =>
      some (model (mb.context pad i (k + 1)))

abbrev Group (b : Nat) := Fin (b + 1) × List (Fin (b + 1))

/-- The entry of `group_info` for a group of rows. -/
def infoOf (group : Group b) : GroupInfo where
  prefixLen := (mb.keptPrompt pad group.1).length
  suffixLens := (rowsOf group).map fun i => (mb.keptResponse i).length

/-- The tokens of a group. -/
def tokensOf (group : Group b) : List (Fin v) :=
  mb.keptPrompt pad group.1 ++ (rowsOf group).flatMap mb.keptResponse

/-- The logits of a group. -/
def logitsOf (model : CausalModel F v) (group : Group b) :
    List (Fin v → F) :=
  let prefixTokens := (mb.keptPrompt pad group.1).zipIdx
  ((List.range prefixTokens.length).map fun k =>
      model (prefixTokens.take (k + 1))) ++
    (rowsOf group).flatMap fun i =>
      (List.range (mb.keptResponse i).length).map fun k =>
        model (prefixTokens ++
          ((mb.keptResponse i).zipIdx prefixTokens.length).take (k + 1))

variable {mb pad}

theorem length_responses_eq (i : Fin (b + 1)) :
    (mb.responses i).length = (mb.responseMask i).length := by
  rw [mb.length_responses, mb.length_responseMask]

theorem length_keptResponse (i : Fin (b + 1)) :
    (mb.keptResponse i).length = (mb.responseMask i).count true :=
  length_pack (mb.length_responses_eq i)

theorem count_prefixMask (i : Fin (b + 1)) :
    ((mb.prompts i).map (nePad pad)).count true =
      (mb.keptPrompt pad i).length := by
  rw [keptPrompt, ← pack_map, length_pack (List.length_map _).symm]

/-- The outputs of a row are numbered from the end of the prefix on. -/
theorem knownOutputs_eq (emptyPrefix : Option (Fin v → F))
    (model : CausalModel F v) (i : Fin (b + 1)) :
    mb.knownOutputs pad emptyPrefix model i =
      (if mb.keptPrompt pad i = [] then emptyPrefix
        else some (model (mb.keptPrompt pad i).zipIdx)) ::
      ((List.range (mb.keptResponse i).length).map fun k =>
        model ((mb.keptPrompt pad i).zipIdx ++
          ((mb.keptResponse i).zipIdx
            (mb.keptPrompt pad i).zipIdx.length).take (k + 1))).map some := by
  have hcontext : ∀ k, mb.context pad i k =
      (mb.keptPrompt pad i).zipIdx ++
        ((mb.keptResponse i).zipIdx
          (mb.keptPrompt pad i).zipIdx.length).take k := by
    intro k
    rw [context, List.zipIdx_append, List.length_zipIdx, Nat.zero_add,
      take_zipIdx]
  have hzero : mb.context pad i 0 = (mb.keptPrompt pad i).zipIdx := by
    rw [hcontext, List.take_zero, List.append_nil]
  simp only [knownOutputs, hzero, hcontext, List.map_map, Function.comp_def]

/-- The tokens of a group with their positions. -/
theorem zip_positionRow (group : Group b) (ids : List (Fin v))
    (positions : List Nat) :
    (mb.tokensOf pad group ++ ids).zip
        (positionRow (mb.infoOf pad group) ++ positions) =
      (mb.keptPrompt pad group.1).zipIdx ++
        (((rowsOf group).map fun i =>
          (mb.keptResponse i).zipIdx
            (mb.keptPrompt pad group.1).length).flatten ++
          ids.zip positions) := by
  have hlen : ∀ i, (mb.keptResponse i).length =
      (List.range' (mb.keptPrompt pad group.1).length
        (mb.keptResponse i).length).length := by
    intro i
    rw [List.length_range']
  have hfront : (mb.keptPrompt pad group.1).zip
      (List.range (mb.keptPrompt pad group.1).length) =
        (mb.keptPrompt pad group.1).zipIdx := by
    rw [List.zipIdx_eq_zip_range', List.range_eq_range']
  have hsuffixes : ((rowsOf group).flatMap mb.keptResponse).zip
      ((mb.infoOf pad group).suffixLens.flatMap
        (List.range' (mb.infoOf pad group).prefixLen)) =
        ((rowsOf group).map fun i => (mb.keptResponse i).zipIdx
          (mb.keptPrompt pad group.1).length).flatten := by
    rw [infoOf, List.flatMap_map, zip_flatMap hlen, List.flatMap_def]
    congr 1
    refine List.map_congr_left fun i _ => ?_
    rw [List.zipIdx_eq_zip_range']
  have htotal : (mb.tokensOf pad group).length =
      (positionRow (mb.infoOf pad group)).length := by
    rw [length_positionRow, GroupInfo.totalLen, tokensOf, infoOf,
      List.length_append, List.length_flatMap]
  rw [List.zip_append htotal, tokensOf, positionRow,
    List.zip_append (by rw [infoOf, List.length_range]), hsuffixes,
    List.append_assoc]
  rw [infoOf, hfront]

theorem groupLogits_eq (model : CausalModel F v) (group : Group b)
    (ids : List (Fin v)) (positions : List Nat) :
    groupLogits model (mb.infoOf pad group)
        ((mb.tokensOf pad group ++ ids).zip
          (positionRow (mb.infoOf pad group) ++ positions)) =
      mb.logitsOf pad model group := by
  have hlen : ((mb.keptPrompt pad group.1).zipIdx).length =
      (mb.keptPrompt pad group.1).length := List.length_zipIdx
  have hlens : (mb.infoOf pad group).suffixLens =
      ((rowsOf group).map fun i => (mb.keptResponse i).zipIdx
        (mb.keptPrompt pad group.1).length).map List.length := by
    rw [infoOf, List.map_map]
    refine List.map_congr_left fun i _ => ?_
    exact List.length_zipIdx.symm
  have hprefixLen : (mb.infoOf pad group).prefixLen =
      ((mb.keptPrompt pad group.1).zipIdx).length := hlen.symm
  rw [zip_positionRow, groupLogits, hlens, hprefixLen, List.take_left,
    List.drop_left, Ragged.splitLengths_flatten_append, List.flatMap_map,
    logitsOf]
  simp only [List.length_zipIdx]

/-- The outputs of a group, cut up, are the known outputs of its rows. -/
theorem suffixOutputs_eq (emptyPrefix : Option (Fin v → F))
    (model : CausalModel F v) {group : Group b}
    (hprompts : ∀ i ∈ rowsOf group, mb.prompts i = mb.prompts group.1)
    (rest : List (Fin v → F)) :
    suffixOutputs emptyPrefix (mb.infoOf pad group)
        (mb.logitsOf pad model group ++ rest) =
      (rowsOf group).map (mb.knownOutputs pad emptyPrefix model) := by
  have hkept : ∀ i ∈ rowsOf group,
      mb.keptPrompt pad i = mb.keptPrompt pad group.1 := by
    intro i hi
    rw [keptPrompt, hprompts i hi, ← keptPrompt]
  set prefixTokens := (mb.keptPrompt pad group.1).zipIdx with hprefixTokens
  set prefixOutputs := (List.range prefixTokens.length).map fun k =>
    model (prefixTokens.take (k + 1)) with hprefixOutputs
  set outputs := fun i => (List.range (mb.keptResponse i).length).map fun k =>
    model (prefixTokens ++
      ((mb.keptResponse i).zipIdx prefixTokens.length).take (k + 1))
    with houtputs
  have hlogits : mb.logitsOf pad model group ++ rest =
      prefixOutputs ++ (((rowsOf group).map outputs).flatten ++ rest) := by
    rw [logitsOf, ← List.flatMap_def, List.append_assoc]
  have hlens : (mb.infoOf pad group).suffixLens =
      ((rowsOf group).map outputs).map List.length := by
    rw [infoOf, List.map_map]
    refine List.map_congr_left fun i _ => ?_
    simp [houtputs]
  have hprefixLen : (mb.infoOf pad group).prefixLen = prefixOutputs.length := by
    simp [infoOf, hprefixOutputs, hprefixTokens]
  have hlast : prefixOutputs.getLast?.or emptyPrefix =
      if mb.keptPrompt pad group.1 = [] then emptyPrefix
      else some (model prefixTokens) := by
    by_cases hempty : mb.keptPrompt pad group.1 = []
    · simp [hprefixOutputs, hprefixTokens, hempty]
    · have hpos : 0 < prefixTokens.length := by
        rw [hprefixTokens, List.length_zipIdx]
        exact List.length_pos_iff.mpr hempty
      have hend : prefixTokens.length - 1 + 1 = prefixTokens.length := by omega
      rw [if_neg hempty, hprefixOutputs, List.getLast?_eq_getElem?,
        List.length_map, List.length_range, List.getElem?_map,
        List.getElem?_range (by omega), Option.map_some, hend,
        List.take_length, Option.some_or]
  rw [hlogits, suffixOutputs, hlens, hprefixLen, List.take_left,
    List.drop_left, Ragged.splitLengths_flatten_append, hlast, List.map_map]
  refine List.map_congr_left fun i hi => ?_
  rw [knownOutputs_eq, hkept i hi, Function.comp_apply]

end SharedPromptBatch

section Grouped

variable [DecidableEq U] {mb : SharedPromptBatch U b width R v} {pad : Int}

/-- The groups that the group sizes of a micro-batch stand for. -/
structure Grouped (mb : SharedPromptBatch U b width R v)
    (groups : List (SharedPromptBatch.Group b)) : Prop where
  flatMap_rowsOf : groups.flatMap rowsOf = List.finRange (b + 1)
  groupSizes_eq : groupSizes ((List.finRange (b + 1)).map mb.uid) =
    groups.map fun group => (rowsOf group).length
  prompts_eq : ∀ group ∈ groups, ∀ i ∈ rowsOf group,
    mb.prompts i = mb.prompts group.1

theorem exists_grouped (mb : SharedPromptBatch U b width R v) :
    ∃ groups, Grouped mb groups := by
  have hrows : List.finRange (b + 1) ≠ [] := by
    rw [ne_eq, List.finRange_eq_nil_iff]
    exact Nat.succ_ne_zero b
  obtain ⟨groups, hflat, hsizes, hsame⟩ := exists_groups mb.uid hrows
  exact ⟨groups, hflat, hsizes, fun group hgroup i hi =>
    mb.prompts_eq i group.1 (hsame group hgroup i hi)⟩

variable {groups : List (SharedPromptBatch.Group b)}

/-- `prefix_mask` -/
def prefixMaskOf (mb : SharedPromptBatch U b width R v) (pad : Int)
    (groups : List (SharedPromptBatch.Group b)) : List (List Bool) :=
  groups.map fun group => (mb.prompts group.1).map (nePad pad)

/-- `response_mask` -/
def suffixMaskOf (mb : SharedPromptBatch U b width R v) : List (List Bool) :=
  (List.finRange (b + 1)).map mb.responseMask

namespace Grouped

theorem ne_nil (h : Grouped mb groups) : groups ≠ [] := by
  rintro rfl
  have hlen := congrArg List.length h.flatMap_rowsOf
  simp at hlen

theorem ungrouped (h : Grouped mb groups) (pad : Int) :
    Ungrouped (prefixMaskOf mb pad groups) (suffixMaskOf mb)
      (groups.map fun group => (rowsOf group).length) where
  length_prefixMask := by simp [prefixMaskOf]
  sum_groupSizes := by
    rw [← List.length_flatMap, h.flatMap_rowsOf, suffixMaskOf,
      List.length_map]
  groupSizes_pos := by
    intro size hsize
    obtain ⟨group, -, rfl⟩ := List.mem_map.mp hsize
    exact Nat.succ_pos _

theorem groupInfoOf_eq (h : Grouped mb groups) :
    groupInfoOf (prefixMaskOf mb pad groups) (suffixMaskOf mb)
        (groups.map fun group => (rowsOf group).length) =
      groups.map (mb.infoOf pad) := by
  rw [groupInfoOf, suffixMaskOf, List.map_map,
    splitLengths_groups h.flatMap_rowsOf, prefixMaskOf, List.zipWith_map,
    List.zipWith_self]
  refine List.map_congr_left fun group _ => ?_
  simp only [SharedPromptBatch.count_prefixMask, SharedPromptBatch.infoOf,
    SharedPromptBatch.length_keptResponse]
  rfl

theorem concatRows_eq (h : Grouped mb groups) :
    concatRows (prefixMaskOf mb pad groups) (suffixMaskOf mb)
        (groups.map fun group => (rowsOf group).length)
        (groups.map fun group => mb.prompts group.1)
        ((List.finRange (b + 1)).map mb.responses) =
      groups.map (mb.tokensOf pad) := by
  rw [concatRows, suffixMaskOf, List.zipWith_map, List.zipWith_self,
    splitLengths_groups h.flatMap_rowsOf, prefixMaskOf, List.zipWith_map,
    List.zipWith_self, List.map_map, List.zipWith_map, List.zipWith_self]
  refine List.map_congr_left fun group _ => ?_
  rw [pack_map, SharedPromptBatch.tokensOf, List.flatMap_def]
  rfl

omit [DecidableEq U] in
theorem totalLen_le {group : SharedPromptBatch.Group b}
    (hgroup : group ∈ groups) :
    (mb.infoOf pad group).totalLen ≤
      (((groups.map (mb.infoOf pad)).map GroupInfo.totalLen).max?).getD 0 := by
  refine List.le_max?_getD_of_mem ?_
  exact List.mem_map_of_mem (List.mem_map_of_mem hgroup)

end Grouped

omit [DecidableEq U] in
/-- The model sees the tokens of every group, and padding behind them. -/
theorem zipWith_groupLogits (model : CausalModel F v)
    {ids : List (List (Fin v))}
    (hids : List.Forall₂ (fun group row => mb.tokensOf pad group <+: row)
      groups ids) (fills : SharedPromptBatch.Group b → List Nat) :
    List.zipWith (groupLogits model) (groups.map (mb.infoOf pad))
        (List.zipWith List.zip ids (groups.map fun group =>
          positionRow (mb.infoOf pad group) ++ fills group)) =
      groups.map (mb.logitsOf pad model) := by
  induction hids with
  | nil => rfl
  | cons hrow _ ih =>
      obtain ⟨rest, rfl⟩ := hrow
      rw [List.map_cons, List.map_cons, List.zipWith_cons_cons,
        List.zipWith_cons_cons, ih, SharedPromptBatch.groupLogits_eq,
        List.map_cons]

omit [DecidableEq U] in
/-- The outputs of all groups, cut up, are the known outputs of the rows. -/
theorem flatten_suffixOutputs (emptyPrefix : Option (Fin v → F))
    (model : CausalModel F v) {logits : List (List (Fin v → F))}
    (hlogits : List.Forall₂
      (fun group row => mb.logitsOf pad model group <+: row) groups logits)
    (hprompts : ∀ group ∈ groups, ∀ i ∈ rowsOf group,
      mb.prompts i = mb.prompts group.1) :
    (List.zipWith (suffixOutputs emptyPrefix) (groups.map (mb.infoOf pad))
        logits).flatten =
      (groups.flatMap rowsOf).map (mb.knownOutputs pad emptyPrefix model) := by
  induction hlogits with
  | nil => rfl
  | @cons group row groups logits hrow _ ih =>
      obtain ⟨rest, rfl⟩ := hrow
      have hgroup := hprompts group List.mem_cons_self
      rw [List.map_cons, List.zipWith_cons_cons, List.flatten_cons,
        SharedPromptBatch.suffixOutputs_eq _ _ hgroup,
        ih fun g hg => hprompts g (List.mem_cons_of_mem group hg),
        List.flatMap_cons, List.map_append]

/-- The length of the longest group. -/
def totalOf (mb : SharedPromptBatch U b width R v) (pad : Int)
    (groups : List (SharedPromptBatch.Group b)) : Nat :=
  (((groups.map (mb.infoOf pad)).map GroupInfo.totalLen).max?).getD 0

/-- The object that is built for a micro-batch in the given groups. -/
def grouperOf (package : Package F v) (mb : SharedPromptBatch U b width R v)
    (pad : Int) (groups : List (SharedPromptBatch.Group b)) : Grouper F v :=
  package (prefixMaskOf mb pad groups) (suffixMaskOf mb)
    (groups.map fun group => (rowsOf group).length) "right"

/-- `concat_input_ids` -/
def concatIdsOf (package : Package F v)
    (mb : SharedPromptBatch U b width R v) (pad : Int)
    (groups : List (SharedPromptBatch.Group b)) : List (List (Fin v)) :=
  (grouperOf package mb pad groups).concatInput
    (groups.map fun group => mb.prompts group.1) (prefixMaskOf mb pad groups)
    ((List.finRange (b + 1)).map mb.responses) (suffixMaskOf mb)

/-- `position_ids` -/
def positionsOf (mb : SharedPromptBatch U b width R v) (pad : Int)
    (groups : List (SharedPromptBatch.Group b)) : List (List Nat) :=
  groups.map fun group => positionRow (mb.infoOf pad group) ++
    List.replicate (totalOf mb pad groups - (mb.infoOf pad group).totalLen) 0

/-- The outputs of the suffixes. -/
def splitOf (package : Package F v) (model : CausalModel F v)
    (mb : SharedPromptBatch U b width R v) (pad : Int)
    (groups : List (SharedPromptBatch.Group b)) : SplitOutput F v :=
  (grouperOf package mb pad groups).splitOutput
    ((grouperOf package mb pad groups).modelLogits model
      (concatIdsOf package mb pad groups)
      (grouperOf package mb pad groups).paddingMask
      (positionsOf mb pad groups)) 1

/-- `completion_ids_right` -/
def completionsOf (package : Package F v)
    (mb : SharedPromptBatch U b width R v) (pad : Int)
    (groups : List (SharedPromptBatch.Group b)) : List (List (Fin v)) :=
  (grouperOf package mb pad groups).convertPadding
    ((List.finRange (b + 1)).map mb.responses) (suffixMaskOf mb) "right"

/-- What is known of the outputs and the tokens that are compared. -/
structure Described (mb : SharedPromptBatch U b width R v) (pad : Int)
    (emptyPrefix : Option (Fin v → F)) (model : CausalModel F v)
    (split : SplitOutput F v) (completions : List (List (Fin v))) :
    Prop where
  shows : List.Forall₂ Shows
    ((List.finRange (b + 1)).map (mb.knownOutputs pad emptyPrefix model))
    split.suffixOut
  length_suffixOut : ∀ row ∈ split.suffixOut,
    row.length = suffixWidth (suffixMaskOf mb) + 1
  suffixMask_eq : split.suffixMask = (List.finRange (b + 1)).map fun i =>
    (List.range (suffixWidth (suffixMaskOf mb) + 1)).map fun k =>
      decide (k ≤ (mb.keptResponse i).length)
  completions_starts : List.Forall₂ (· <+: ·)
    ((List.finRange (b + 1)).map mb.keptResponse) completions
  length_completions : ∀ row ∈ completions,
    row.length = suffixWidth (suffixMaskOf mb)

section Inputs

variable {package : Package F v} {emptyPrefix : Option (Fin v → F)}
  (pad) (hpackage : Documented emptyPrefix package) (h : Grouped mb groups)

include hpackage h

theorem groupInfo_grouperOf :
    (grouperOf package mb pad groups).groupInfo =
      groups.map (mb.infoOf pad) :=
  (hpackage.groupInfo (h.ungrouped pad)).trans h.groupInfoOf_eq

theorem map_length_paddingMask :
    (grouperOf package mb pad groups).paddingMask.map List.length =
      groups.map fun _ => totalOf mb pad groups := by
  have hlen := hpackage.length_paddingMask (h.ungrouped pad)
  rw [h.groupInfoOf_eq] at hlen
  refine hlen.trans ?_
  rw [List.map_map]
  rfl

theorem size1_paddingMask :
    size1 (grouperOf package mb pad groups).paddingMask =
      totalOf mb pad groups := by
  have hfirst : groups.head? = some (groups.head h.ne_nil) :=
    List.head?_eq_some_head h.ne_nil
  have hhead := congrArg List.head?
    (map_length_paddingMask pad hpackage h)
  rw [List.head?_map, List.head?_map, hfirst] at hhead
  rw [size1, hhead, Option.map_some, Option.getD_some]

theorem buildPositionIds_grouperOf :
    buildPositionIdsForPrefixGrouper (grouperOf package mb pad groups) =
      .ok (positionsOf mb pad groups) := by
  rw [buildPositionIds_eq, groupInfo_grouperOf pad hpackage h,
    size1_paddingMask pad hpackage h, List.map_map]
  · rfl
  · intro group hgroup
    rw [groupInfo_grouperOf pad hpackage h] at hgroup
    obtain ⟨g, hg, rfl⟩ := List.mem_map.mp hgroup
    rw [size1_paddingMask pad hpackage h]
    exact Grouped.totalLen_le hg

theorem buildPg_eq :
    buildPgFromMicroBatch package mb pad "right" =
      .ok ⟨grouperOf package mb pad groups, concatIdsOf package mb pad groups,
        (grouperOf package mb pad groups).paddingMask,
        positionsOf mb pad groups,
        (List.finRange (b + 1)).map mb.responses, suffixMaskOf mb⟩ := by
  have hindices := indexSelect_prefixIndices mb.prompts [] groups
  rw [List.nil_append, h.flatMap_rowsOf, List.length_nil] at hindices
  have hmask : (groups.map fun group => mb.prompts group.1).map
      (fun ids => ids.map (nePad pad)) = prefixMaskOf mb pad groups := by
    rw [prefixMaskOf, List.map_map]
    rfl
  have hpositions := buildPositionIds_grouperOf pad hpackage h
  rw [grouperOf, suffixMaskOf] at hpositions
  simp only [buildPgFromMicroBatch, h.groupSizes_eq, hindices, ok_bind, hmask,
    hpositions]
  rfl

omit [DecidableEq U] hpackage h in
theorem map_length_responses :
    ((List.finRange (b + 1)).map mb.responses).map List.length =
      (suffixMaskOf mb).map List.length := by
  rw [suffixMaskOf, List.map_map, List.map_map]
  exact List.map_congr_left fun i _ =>
    SharedPromptBatch.length_responses_eq i

theorem concatIdsOf_starts :
    List.Forall₂ (fun group row => mb.tokensOf pad group <+: row) groups
        (concatIdsOf package mb pad groups) ∧
      (concatIdsOf package mb pad groups).map List.length =
        (grouperOf package mb pad groups).paddingMask.map List.length := by
  have hprompts : (groups.map fun group => mb.prompts group.1).map
      List.length = (prefixMaskOf mb pad groups).map List.length := by
    rw [prefixMaskOf, List.map_map, List.map_map]
    refine List.map_congr_left fun group _ => ?_
    exact (List.length_map _).symm
  obtain ⟨hstarts, hlength⟩ := hpackage.concatInput
    (h.ungrouped pad) _ _ hprompts map_length_responses
  rw [h.concatRows_eq, List.forall₂_map_left_iff] at hstarts
  exact ⟨hstarts, hlength⟩

/-- The outputs of every row are the known ones, wherever it is grouped. -/
theorem described (model : CausalModel F v) :
    Described mb pad emptyPrefix model (splitOf package model mb pad groups)
      (completionsOf package mb pad groups) := by
  have hungrouped := h.ungrouped pad
  have hinfo := groupInfo_grouperOf pad hpackage h
  obtain ⟨hids, hids_length⟩ := concatIdsOf_starts pad hpackage h
  have hpositions : (positionsOf mb pad groups).map List.length =
      (grouperOf package mb pad groups).paddingMask.map List.length := by
    rw [map_length_paddingMask pad hpackage h, positionsOf, List.map_map]
    refine List.map_congr_left fun group hgroup => ?_
    have hle : (mb.infoOf pad group).totalLen ≤ totalOf mb pad groups :=
      Grouped.totalLen_le hgroup
    rw [Function.comp_apply, List.length_append, length_positionRow,
      List.length_replicate]
    omega
  have hzip := zipWith_groupLogits model hids fun group =>
    List.replicate (totalOf mb pad groups - (mb.infoOf pad group).totalLen) 0
  rw [← positionsOf, ← hinfo] at hzip
  obtain ⟨hlogits, hlogits_length⟩ := hpackage.modelLogits hungrouped model _ _
    hids_length hpositions
  have hlogits_starts := hzip ▸ hlogits
  rw [List.forall₂_map_left_iff] at hlogits_starts
  have hflat := flatten_suffixOutputs emptyPrefix model hlogits_starts
    h.prompts_eq
  rw [← hinfo, h.flatMap_rowsOf] at hflat
  obtain ⟨hshows, hlength, hmask⟩ := hpackage.splitOutput hungrouped _
    hlogits_length
  obtain ⟨hstarts, hcompletions⟩ := hpackage.convertPadding hungrouped _
    map_length_responses
  rw [suffixMaskOf, List.zipWith_map, List.zipWith_self] at hstarts
  refine ⟨hflat ▸ hshows, hlength, ?_, hstarts, hcompletions⟩
  refine hmask.trans ?_
  rw [suffixMaskOf, List.map_map]
  refine List.map_congr_left fun i _ => ?_
  simp only [Function.comp_apply, SharedPromptBatch.length_keptResponse]

end Inputs

end Grouped

section Rows

variable [Field F] {mb : SharedPromptBatch U b width R v} {pad : Int}
  {emptyPrefix : Option (Fin v → F)} {model : CausalModel F v}
  {split : SplitOutput F v} {completions : List (List (Fin v))}

theorem exists_getElem?_of_forall₂ {n : Nat} {S : α → β → Prop}
    {f : Fin n → α} {ys : List β}
    (h : List.Forall₂ S ((List.finRange n).map f) ys) (i : Fin n) :
    ∃ y, ys[i.val]? = some y ∧ S (f i) y := by
  have hlen : ys.length = n := by
    rw [← h.length_eq, List.length_map, List.length_finRange]
  have hi : i.val < ys.length := by
    rw [hlen]
    exact i.isLt
  refine ⟨ys[i.val], List.getElem?_eq_getElem hi, ?_⟩
  have hget := h.get (by rw [h.length_eq]; exact hi) hi
  simpa using hget

theorem getElem?_map_finRange {n : Nat} (f : Fin n → α) (i : Fin n) :
    ((List.finRange n).map f)[i.val]? = some (f i) := by
  rw [List.getElem?_map, List.getElem?_eq_getElem (by simp)]
  simp

omit [Field F] in
/-- No suffix is longer than the width, and the width is in the response. -/
theorem length_keptResponse_le (mb : SharedPromptBatch U b width R v)
    (i : Fin (b + 1)) :
    (mb.keptResponse i).length ≤ suffixWidth (suffixMaskOf mb) := by
  rw [SharedPromptBatch.length_keptResponse, suffixWidth, suffixMaskOf,
    List.map_map]
  exact List.le_max?_getD_of_mem
    (List.mem_map.mpr ⟨i, List.mem_finRange i, rfl⟩)

omit [Field F] in
theorem suffixWidth_le : suffixWidth (suffixMaskOf mb) ≤ R := by
  rw [suffixWidth]
  cases hmax : ((suffixMaskOf mb).map (List.count true)).max? with
  | none => exact Nat.zero_le R
  | some w =>
      have hmem := List.max?_mem hmax
      rw [suffixMaskOf, List.map_map] at hmem
      obtain ⟨i, -, rfl⟩ := List.mem_map.mp hmem
      exact List.count_le_length.trans (mb.length_responseMask i).le

/-- The values of a row at its response tokens, zero behind them. -/
def maskedRows (split : SplitOutput F v) (values : List (List (Num F))) :
    List (List (Num F)) :=
  List.zipWith maskedFill (split.suffixMask.map fun row => row.drop 1) values

/-- The rows, with zeros up to the length of the response. -/
def padRows (length : Nat) (rows : List (List (Num F))) :
    List (List (Num F)) :=
  rows.map fun row => row ++ List.replicate (length - row.length) (some 0)

theorem padToLength_eq {length : Nat} {rows : List (List (Num F))}
    (hrows : ∀ row ∈ rows, row.length ≤ length) :
    padToLength length rows = .ok (padRows length rows) := by
  refine mapM_eq_ok_of_forall fun row hrow => ?_
  have hslice := setSlice_replicate [] row (some 0) (hrows row hrow)
  simpa using hslice

theorem padRows_eq_self {length : Nat} {rows : List (List (Num F))}
    (hrows : ∀ row ∈ rows, row.length = length) :
    padRows length rows = rows := by
  refine (List.map_congr_left fun row hrow => ?_).trans (List.map_id rows)
  rw [hrows row hrow, Nat.sub_self, List.replicate_zero, List.append_nil,
    id_eq]

section Entries

variable {values : List (List (Num F))} {row : List (Num F)}
  {i : Fin (b + 1)}
  (hmask : split.suffixMask = (List.finRange (b + 1)).map fun i =>
    (List.range (suffixWidth (suffixMaskOf mb) + 1)).map fun k =>
      decide (k ≤ (mb.keptResponse i).length))
  (hrow : values[i.val]? = some row)

include hmask hrow

theorem getElem?_maskedRows :
    (maskedRows split values)[i.val]? = some
      (maskedFill ((List.range (suffixWidth (suffixMaskOf mb))).map fun k =>
        decide (k < (mb.keptResponse i).length)) row) := by
  have hdrop : ((List.range (suffixWidth (suffixMaskOf mb) + 1)).map fun k =>
      decide (k ≤ (mb.keptResponse i).length)).drop 1 =
        (List.range (suffixWidth (suffixMaskOf mb))).map fun k =>
          decide (k < (mb.keptResponse i).length) := by
    rw [List.range_succ_eq_map, List.map_cons, List.drop_one, List.tail_cons,
      List.map_map]
    refine List.map_congr_left fun k _ => ?_
    simp only [Function.comp_apply, Nat.succ_le_iff]
  rw [maskedRows, hmask, List.map_map, List.getElem?_zipWith,
    getElem?_map_finRange, hrow, Function.comp_apply, hdrop]

variable (hlen : row.length = suffixWidth (suffixMaskOf mb))

include hlen

/-- At a response token the value stands. -/
theorem entry_padRows_maskedRows {t : Nat}
    (ht : t < (mb.keptResponse i).length) :
    (padRows R (maskedRows split values))[i.val]?.bind (·[t]?) = row[t]? := by
  have hwidth := length_keptResponse_le mb i
  have hvalue : row[t]? = some row[t] := List.getElem?_eq_getElem _
  rw [padRows, List.getElem?_map, getElem?_maskedRows hmask hrow,
    Option.map_some, Option.bind_some, maskedFill, List.getElem?_append_left,
    List.getElem?_zipWith, List.getElem?_map, List.getElem?_range (by omega),
    hvalue, Option.map_some, decide_eq_true ht]
  · rfl
  · rw [List.length_zipWith, List.length_map, List.length_range, hlen]
    omega

/-- Behind the response tokens it is zero. -/
theorem entry_padRows_maskedRows_of_le {t : Nat}
    (ht : (mb.keptResponse i).length ≤ t) (htR : t < R) :
    (padRows R (maskedRows split values))[i.val]?.bind (·[t]?) =
      some (some 0) := by
  have hlength : (maskedFill
      ((List.range (suffixWidth (suffixMaskOf mb))).map fun k =>
        decide (k < (mb.keptResponse i).length)) row).length =
          suffixWidth (suffixMaskOf mb) := by
    rw [maskedFill, List.length_zipWith, List.length_map, List.length_range,
      hlen, Nat.min_self]
  rw [padRows, List.getElem?_map, getElem?_maskedRows hmask hrow,
    Option.map_some, Option.bind_some]
  by_cases hwidth : t < suffixWidth (suffixMaskOf mb)
  · have hvalue : row[t]? = some row[t] := List.getElem?_eq_getElem _
    rw [List.getElem?_append_left (by omega), maskedFill,
      List.getElem?_zipWith, List.getElem?_map, List.getElem?_range hwidth,
      hvalue, Option.map_some, decide_eq_false (by omega)]
    rfl
  · rw [List.getElem?_append_right (by omega), hlength,
      List.getElem?_replicate_of_lt (by omega)]

end Entries

end Rows

section Outputs

variable [Field F] [LinearOrder F] {m : TorchMath F}
  {mb : SharedPromptBatch U b width R v} {pad : Int}
  {emptyPrefix : Option (Fin v → F)} {model : CausalModel F v}
  {temperature : F} {split : SplitOutput F v}
  {completions : List (List (Fin v))}

/-- `suffix_out`, after the division. -/
def scaledOutputs (temperature : F) (split : SplitOutput F v) :
    List (List (Num (Fin v → F))) :=
  split.suffixOut.map fun row => row.dropLast.map (divTemperature temperature)

/-- `log_probs`, as `pg_forward` returns them. -/
def rawLogProbs (m : TorchMath F) (temperature : F) (split : SplitOutput F v)
    (completions : List (List (Fin v))) : List (List (Num F)) :=
  List.zipWith (List.zipWith (logprobsFromLogits m))
    (scaledOutputs temperature split) completions

/-- `entropy`, as `pg_forward` returns it. -/
def rawEntropys (m : TorchMath F) (temperature : F)
    (split : SplitOutput F v) : List (List (Num F)) :=
  (scaledOutputs temperature split).map fun row =>
    row.map (entropyFromLogits m)

theorem length_of_mem_zipWith {γ : Type} {f : α → β → γ}
    {xs : List (List α)} {ys : List (List β)} {n : Nat}
    (hxs : ∀ x ∈ xs, x.length = n) (hys : ∀ y ∈ ys, y.length = n) :
    ∀ row ∈ List.zipWith (List.zipWith f) xs ys, row.length = n := by
  intro row hrow
  rw [← List.map_uncurry_zip_eq_zipWith] at hrow
  obtain ⟨⟨x, y⟩, hmem, rfl⟩ := List.mem_map.mp hrow
  rw [Function.uncurry_apply_pair, List.length_zipWith,
    hxs x (List.of_mem_zip hmem).1, hys y (List.of_mem_zip hmem).2,
    Nat.min_self]

theorem size1_eq {rows : List (List α)} {n : Nat} (hne : rows ≠ [])
    (hrows : ∀ row ∈ rows, row.length = n) : size1 rows = n := by
  obtain ⟨row, rest, rfl⟩ := List.exists_cons_of_ne_nil hne
  exact hrows row List.mem_cons_self

namespace Described

variable (h : Described mb pad emptyPrefix model split completions)

include h

omit [Field F] [LinearOrder F] in
theorem length_eq : split.suffixOut.length = b + 1 := by
  rw [← h.shows.length_eq, List.length_map, List.length_finRange]

theorem length_scaledOutputs (temperature : F) :
    (scaledOutputs temperature split).length = b + 1 := by
  rw [scaledOutputs, List.length_map, h.length_eq]

theorem scaledOutputs_ne_nil (temperature : F) :
    scaledOutputs temperature split ≠ [] := by
  rw [← List.length_pos_iff, h.length_scaledOutputs temperature]
  exact Nat.succ_pos b

theorem length_of_mem_scaledOutputs :
    ∀ row ∈ scaledOutputs temperature split,
      row.length = suffixWidth (suffixMaskOf mb) := by
  intro row hrow
  obtain ⟨outputs, houtputs, rfl⟩ := List.mem_map.mp hrow
  rw [List.length_map, List.length_dropLast, h.length_suffixOut _ houtputs,
    Nat.add_sub_cancel]

theorem length_of_mem_rawLogProbs (m : TorchMath F) (temperature : F) :
    ∀ row ∈ rawLogProbs m temperature split completions,
      row.length = suffixWidth (suffixMaskOf mb) :=
  length_of_mem_zipWith h.length_of_mem_scaledOutputs h.length_completions

theorem length_of_mem_rawEntropys (m : TorchMath F) (temperature : F) :
    ∀ row ∈ rawEntropys m temperature split,
      row.length = suffixWidth (suffixMaskOf mb) := by
  intro row hrow
  obtain ⟨logits, hlogits, rfl⟩ := List.mem_map.mp hrow
  rw [List.length_map, h.length_of_mem_scaledOutputs _ hlogits]

omit [LinearOrder F] in
theorem length_of_mem_maskedRows {values : List (List (Num F))}
    (hvalues : ∀ row ∈ values,
      row.length = suffixWidth (suffixMaskOf mb)) :
    ∀ row ∈ maskedRows split values,
      row.length = suffixWidth (suffixMaskOf mb) := by
  refine length_of_mem_zipWith ?_ hvalues
  intro row hrow
  rw [h.suffixMask_eq, List.map_map] at hrow
  obtain ⟨i, -, rfl⟩ := List.mem_map.mp hrow
  simp

omit [LinearOrder F] in
/-- Zeros are added where the longest suffix is shorter than the response. -/
theorem padToLength_maskedRows {values : List (List (Num F))}
    (hvalues : ∀ row ∈ values,
      row.length = suffixWidth (suffixMaskOf mb)) :
    padToLength R (maskedRows split values) =
      .ok (padRows R (maskedRows split values)) := by
  refine padToLength_eq fun row hrow => ?_
  rw [h.length_of_mem_maskedRows hvalues row hrow]
  exact suffixWidth_le

end Described

omit [Field F] [LinearOrder F] in
theorem assignEntropyChunk_cons_cons (first second : List (Num F))
    (rest : List (List (Num F))) :
    assignEntropyChunk (first :: second :: rest) = .error (.runtimeError
      "The expanded size of the tensor must match the existing size") := by
  obtain _ | ⟨x, _ | ⟨y, first⟩⟩ := first <;> rfl

/-- Chunks of rows fit the one-dimensional result only where there is one row
of one token. -/
theorem entropyFromLogitsWithChunking_eq {n : Nat}
    {logits : List (List (Num (Fin v → F)))} (hne : logits ≠ [])
    (hrows : ∀ row ∈ logits, row.length = n) :
    entropyFromLogitsWithChunking m 2048 logits =
      if logits.length = 1 ∧ n = 1 then entropyFromLogitsRows m logits
      else .error (.runtimeError
        "The expanded size of the tensor must match the existing size") := by
  have hchunks := Chunks.chunksOf_eq_cons (by omega : 0 < 2048) hne
  obtain ⟨row, rest, rfl⟩ := List.exists_cons_of_ne_nil hne
  have hrow := hrows row List.mem_cons_self
  obtain _ | ⟨next, rest⟩ := rest
  · have hnil : Chunks.chunksOf 2048 ([] : List (List (Num (Fin v → F)))) =
      [] := Chunks.chunksOf_nil 2048
    rw [List.drop_of_length_le (by simp), hnil] at hchunks
    rw [entropyFromLogitsWithChunking, hchunks, ← hrow]
    obtain _ | ⟨x, _ | ⟨y, row⟩⟩ := row
    · rfl
    · rfl
    · rw [if_neg (by simp)]
      rfl
  · have hchunk : (List.take 2048 (row :: next :: rest)) =
      row :: next :: rest.take 2046 := by simp
    rw [if_neg (by simp), entropyFromLogitsWithChunking, hchunks, hchunk,
      List.mapM_cons, List.map_cons, List.map_cons,
      assignEntropyChunk_cons_cons]
    rfl

end Outputs

section Forward

variable [Field F] [LinearOrder F] [DecidableEq U] {m : TorchMath F}
  {mb : SharedPromptBatch U b width R v}
  {groups : List (SharedPromptBatch.Group b)} {package : Package F v}
  {emptyPrefix : Option (Fin v → F)} {model : CausalModel F v}
  {temperature : F} {calculateEntropy useChunkingEntropy : Bool}

/-- The token that is dropped from the prompts. -/
def SharedPromptBatch.padId (mb : SharedPromptBatch U b width R v) : Int :=
  mb.padTokenId.getD 0

/-- The inputs for which chunked entropies can be computed. -/
def ChunkingFits (calculateEntropy useChunkingEntropy : Bool)
    (mb : SharedPromptBatch U b width R v) : Prop :=
  calculateEntropy = true → useChunkingEntropy = true →
    b = 0 ∧ ∀ i, (mb.responseMask i).count true = 1

omit [DecidableEq U] in
theorem chunkingFits_iff :
    ChunkingFits calculateEntropy useChunkingEntropy mb ↔
      (calculateEntropy = true → useChunkingEntropy = true →
        b = 0 ∧ suffixWidth (suffixMaskOf mb) = 1) := by
  refine forall₂_congr fun _ _ => and_congr_right fun hb => ?_
  subst hb
  simp [suffixWidth, suffixMaskOf, List.finRange_succ, Fin.forall_fin_one]

/-- What `forward_micro_batch_with_prefix_grouper` returns, by the outputs of
the suffixes. -/
def finish (m : TorchMath F) (R : Nat) (temperature : F)
    (calculateEntropy : Bool) (split : SplitOutput F v)
    (completions : List (List (Fin v))) :
    Option (List (List (Num F))) × List (List (Num F)) :=
  (if calculateEntropy then
      some (padRows R (maskedRows split (rawEntropys m temperature split)))
    else none,
    padRows R (maskedRows split
      (rawLogProbs m temperature split completions)))

variable (m model temperature) (hpackage : Documented emptyPrefix package)
  (h : Grouped mb groups)

include hpackage h

/-- The entropies of the rows, chunked or not. -/
theorem entropyFn_eq
    (hfits : ChunkingFits calculateEntropy useChunkingEntropy mb)
    (hentropy : calculateEntropy = true) :
    (if useChunkingEntropy then entropyFromLogitsWithChunking m 2048
      else entropyFromLogitsRows m)
        (scaledOutputs temperature
          (splitOf package model mb mb.padId groups)) =
      .ok (rawEntropys m temperature
        (splitOf package model mb mb.padId groups)) := by
  have hdescribed := described mb.padId hpackage h model
  have hlength := hdescribed.length_scaledOutputs temperature
  have hne := hdescribed.scaledOutputs_ne_nil temperature
  by_cases hchunking : useChunkingEntropy = true
  · obtain ⟨hb, hwidth⟩ := chunkingFits_iff.mp hfits hentropy hchunking
    rw [if_pos hchunking, entropyFromLogitsWithChunking_eq hne
      hdescribed.length_of_mem_scaledOutputs, hlength,
      if_pos ⟨by omega, hwidth⟩]
    rfl
  · rw [if_neg hchunking]
    rfl

theorem pgForward_eq
    (hfits : ChunkingFits calculateEntropy useChunkingEntropy mb) :
    pgForward m model
        ⟨grouperOf package mb mb.padId groups,
          concatIdsOf package mb mb.padId groups,
          (grouperOf package mb mb.padId groups).paddingMask,
          positionsOf mb mb.padId groups,
          (List.finRange (b + 1)).map mb.responses, suffixMaskOf mb⟩
        temperature "right" 1 calculateEntropy
        (if calculateEntropy then
          some (if useChunkingEntropy then entropyFromLogitsWithChunking m 2048
            else entropyFromLogitsRows m)
        else none) =
      .ok ⟨rawLogProbs m temperature
          (splitOf package model mb mb.padId groups)
          (completionsOf package mb mb.padId groups),
        if calculateEntropy then
          some (rawEntropys m temperature
            (splitOf package model mb mb.padId groups))
        else none,
        (splitOf package model mb mb.padId groups).suffixMask.map
          fun row => row.drop 1⟩ := by
  cases calculateEntropy with
  | false => rfl
  | true =>
      have hentropy := entropyFn_eq m model temperature hpackage h hfits rfl
      rw [scaledOutputs, splitOf] at hentropy
      simp only [pgForward, if_true, hentropy]
      rfl

theorem size1_maskedRows_rawLogProbs :
    size1 (maskedRows (splitOf package model mb mb.padId groups)
      (rawLogProbs m temperature (splitOf package model mb mb.padId groups)
        (completionsOf package mb mb.padId groups))) =
      suffixWidth (suffixMaskOf mb) := by
  have hdescribed := described mb.padId hpackage h model
  refine size1_eq ?_ (hdescribed.length_of_mem_maskedRows
    (hdescribed.length_of_mem_rawLogProbs m temperature))
  have hcompletions : (completionsOf package mb mb.padId groups).length =
      b + 1 := by
    rw [← hdescribed.completions_starts.length_eq, List.length_map,
      List.length_finRange]
  rw [← List.length_pos_iff, maskedRows, List.length_zipWith, rawLogProbs,
    List.length_zipWith, scaledOutputs, List.length_map, List.length_map,
    hdescribed.length_eq, hcompletions, hdescribed.suffixMask_eq,
    List.length_map, List.length_finRange]
  simp

theorem forward_eq
    (hfits : ChunkingFits calculateEntropy useChunkingEntropy mb) :
    forwardMicroBatchWithPrefixGrouper m package mb model temperature
        calculateEntropy useChunkingEntropy =
      .ok (finish m R temperature calculateEntropy
        (splitOf package model mb mb.padId groups)
        (completionsOf package mb mb.padId groups)) := by
  have hdescribed := described mb.padId hpackage h model
  have hlogProbs := hdescribed.length_of_mem_rawLogProbs m temperature
  have hentropys := hdescribed.length_of_mem_rawEntropys m temperature
  have hresponses : size1 ((List.finRange (b + 1)).map mb.responses) = R := by
    refine size1_eq (by simp) fun row hrow => ?_
    obtain ⟨i, -, rfl⟩ := List.mem_map.mp hrow
    exact mb.length_responses i
  have hpg := pgForward_eq m model temperature hpackage h hfits
  have hsize := size1_maskedRows_rawLogProbs m model temperature hpackage h
  have hpadLogProbs := hdescribed.padToLength_maskedRows hlogProbs
  have hpadEntropys := hdescribed.padToLength_maskedRows hentropys
  have hpadId : mb.padTokenId.getD 0 = mb.padId := rfl
  have hmasked : ∀ values : List (List (Num F)), List.zipWith maskedFill
      ((splitOf package model mb mb.padId groups).suffixMask.map
        fun row => row.drop 1) values =
        maskedRows (splitOf package model mb mb.padId groups) values :=
    fun _ => rfl
  rw [forwardMicroBatchWithPrefixGrouper]
  simp only [hpadId, buildPg_eq mb.padId hpackage h, ok_bind, hpg, hresponses,
    hmasked, hsize, finish]
  by_cases hwidth : suffixWidth (suffixMaskOf mb) = R
  · have hfullLogProbs : padRows R _ = _ :=
      padRows_eq_self fun row hrow =>
        (hdescribed.length_of_mem_maskedRows hlogProbs row hrow).trans hwidth
    have hfullEntropys : padRows R _ = _ :=
      padRows_eq_self fun row hrow =>
        (hdescribed.length_of_mem_maskedRows hentropys row hrow).trans hwidth
    rw [if_neg (not_not.mpr hwidth), hfullLogProbs, hfullEntropys]
    cases calculateEntropy <;> rfl
  · rw [if_pos hwidth, hpadLogProbs]
    cases calculateEntropy with
    | false => rfl
    | true =>
        simp only [if_true, Option.map_some, Option.mapM_some, hpadEntropys]
        rfl

/-- Chunked entropies that do not fit end the run. -/
theorem chunkingFits_of_forward_eq_ok
    {out : Option (List (List (Num F))) × List (List (Num F))}
    (hout : forwardMicroBatchWithPrefixGrouper m package mb model temperature
      calculateEntropy useChunkingEntropy = .ok out) :
    ChunkingFits calculateEntropy useChunkingEntropy mb := by
  rw [chunkingFits_iff]
  rintro rfl rfl
  have hdescribed := described mb.padId hpackage h model
  have hlength := hdescribed.length_scaledOutputs temperature
  have hne := hdescribed.scaledOutputs_ne_nil temperature
  have hchunking := entropyFromLogitsWithChunking_eq (m := m) hne
    hdescribed.length_of_mem_scaledOutputs
  have hpadId : mb.padTokenId.getD 0 = mb.padId := rfl
  rw [forwardMicroBatchWithPrefixGrouper] at hout
  simp only [hpadId, buildPg_eq mb.padId hpackage h, ok_bind, if_true] at hout
  obtain ⟨outputs, houtputs, -⟩ := bind_eq_ok.mp hout
  obtain ⟨entropy, hentropy, -⟩ := bind_eq_ok.mp houtputs
  obtain ⟨values, hvalues, -⟩ := map_eq_ok.mp hentropy
  have hok : entropyFromLogitsWithChunking m 2048 (scaledOutputs temperature
      (splitOf package model mb mb.padId groups)) = .ok values := hvalues
  rw [hchunking, hlength] at hok
  by_cases hfits : b + 1 = 1 ∧ suffixWidth (suffixMaskOf mb) = 1
  · exact ⟨by omega, hfits.2⟩
  · rw [if_neg hfits] at hok
    cases hok

end Forward

section Known

variable [Field F] [LinearOrder F] {m : TorchMath F}
  {mb : SharedPromptBatch U b width R v} {pad : Int}
  {emptyPrefix : Option (Fin v → F)} {model : CausalModel F v}
  {split : SplitOutput F v} {completions : List (List (Fin v))}
  {temperature : F} {calculateEntropy : Bool} {i : Fin (b + 1)} {t : Nat}

omit [Field F] [LinearOrder F] in
theorem getElem?_knownOutputs (emptyPrefix : Option (Fin v → F))
    (model : CausalModel F v) (ht : t ≤ (mb.keptResponse i).length)
    (hfront : mb.keptPrompt pad i ≠ []) :
    (mb.knownOutputs pad emptyPrefix model i)[t]? =
      some (some (model (mb.context pad i t))) := by
  rw [SharedPromptBatch.knownOutputs, if_neg hfront]
  obtain _ | k := t
  · rfl
  · rw [List.getElem?_cons_succ, List.getElem?_map,
      List.getElem?_range (by omega), Option.map_some]

variable (m temperature calculateEntropy)
  (h : Described mb pad emptyPrefix model split completions)

include h

/-- What is returned at a response token, by the output in front of it. -/
theorem entry_finish {x : Fin v → F} (ht : t < (mb.keptResponse i).length)
    (hknown : (mb.knownOutputs pad emptyPrefix model i)[t]? =
      some (some x)) :
    (finish m R temperature calculateEntropy split
        completions).2[i.val]?.bind (·[t]?) =
      (mb.keptResponse i)[t]?.map (logprobsFromLogits m
        (divTemperature temperature x)) ∧
      (finish m R temperature calculateEntropy split completions).1.map
          (fun rows => rows[i.val]?.bind (·[t]?)) =
        if calculateEntropy then
          some (some (entropyFromLogits m (divTemperature temperature x)))
        else none := by
  obtain ⟨outputs, houtputs, hshows⟩ := exists_getElem?_of_forall₂ h.shows i
  obtain ⟨tokens, htokens, hstarts⟩ :=
    exists_getElem?_of_forall₂ h.completions_starts i
  have hwidth := length_keptResponse_le mb i
  have hlength := h.length_suffixOut _ (List.mem_of_getElem? houtputs)
  have hx := hshows t x hknown
  have hscaled : (scaledOutputs temperature split)[i.val]? =
      some (outputs.dropLast.map (divTemperature temperature)) := by
    rw [scaledOutputs, List.getElem?_map, houtputs, Option.map_some]
  have hlogits : (outputs.dropLast.map (divTemperature temperature))[t]? =
      some (divTemperature temperature x) := by
    rw [List.getElem?_map, List.getElem?_dropLast, if_pos (by omega), hx,
      Option.map_some]
  have htoken : tokens[t]? = (mb.keptResponse i)[t]? := by
    obtain ⟨rest, rfl⟩ := hstarts
    exact List.getElem?_append_left ht
  have hlogProbs : (rawLogProbs m temperature split completions)[i.val]? =
      some (List.zipWith (logprobsFromLogits m)
        (outputs.dropLast.map (divTemperature temperature)) tokens) := by
    rw [rawLogProbs, List.getElem?_zipWith, hscaled, htokens]
  have hentropys : (rawEntropys m temperature split)[i.val]? =
      some ((outputs.dropLast.map (divTemperature temperature)).map
        (entropyFromLogits m)) := by
    rw [rawEntropys, List.getElem?_map, hscaled, Option.map_some]
  constructor
  · rw [finish, entry_padRows_maskedRows h.suffixMask_eq hlogProbs
      (h.length_of_mem_rawLogProbs _ _ _ (List.mem_of_getElem? hlogProbs)) ht,
      List.getElem?_zipWith, hlogits, htoken]
    cases (mb.keptResponse i)[t]? <;> rfl
  · cases calculateEntropy with
    | false => rfl
    | true =>
        rw [finish, if_pos rfl, if_pos rfl, Option.map_some,
          entry_padRows_maskedRows h.suffixMask_eq hentropys
            (h.length_of_mem_rawEntropys _ _ _
              (List.mem_of_getElem? hentropys)) ht,
          List.getElem?_map, hlogits, Option.map_some]

/-- Behind the kept tokens the log-probs are zero. -/
theorem entry_finish_of_le (ht : (mb.keptResponse i).length ≤ t)
    (htR : t < R) :
    (finish m R temperature calculateEntropy split
        completions).2[i.val]?.bind (·[t]?) = some (some 0) := by
  obtain ⟨outputs, houtputs, -⟩ := exists_getElem?_of_forall₂ h.shows i
  obtain ⟨tokens, htokens, -⟩ :=
    exists_getElem?_of_forall₂ h.completions_starts i
  have hlogProbs : (rawLogProbs m temperature split completions)[i.val]? =
      some (List.zipWith (logprobsFromLogits m)
        (outputs.dropLast.map (divTemperature temperature)) tokens) := by
    rw [rawLogProbs, List.getElem?_zipWith, scaledOutputs, List.getElem?_map,
      houtputs, htokens, Option.map_some]
  exact entry_padRows_maskedRows_of_le h.suffixMask_eq hlogProbs
    (h.length_of_mem_rawLogProbs _ _ _ (List.mem_of_getElem? hlogProbs)) ht htR

end Known

namespace SharedPromptBatch

variable {mb : SharedPromptBatch U b width R v} {i : Fin (b + 1)} {t : Nat}

/-- The attended tokens of the prompt. -/
def attendedPrompt (mb : SharedPromptBatch U b width R v) (i : Fin (b + 1)) :
    List (Fin v) :=
  pack ((mb.attentionMask i).take width) (mb.prompts i)

theorem length_promptMask (i : Fin (b + 1)) :
    (mb.prompts i).length = ((mb.attentionMask i).take width).length := by
  rw [mb.length_prompts, List.length_take, mb.length_attentionMask,
    Nat.min_eq_left (Nat.le_add_right width R)]

theorem attendedPrompt_ne_nil (i : Fin (b + 1)) : mb.attendedPrompt i ≠ [] := by
  have hlast := mb.attended_last i
  have hpos := mb.width_pos
  rw [← List.getElem?_take_of_lt (by omega : width - 1 < width)] at hlast
  rw [← List.length_pos_iff, attendedPrompt, length_pack (length_promptMask i),
    List.count_pos_iff]
  exact List.mem_of_getElem? hlast

/-- The prompt keeps its attended tokens exactly when these are the tokens that
are not the pad token. -/
theorem keptPrompt_eq_iff {pad : Int} (i : Fin (b + 1)) :
    mb.keptPrompt pad i = mb.attendedPrompt i ↔
      (mb.attentionMask i).take width = (mb.prompts i).map (nePad pad) := by
  rw [keptPrompt, attendedPrompt, eq_comm,
    pack_eq_filter_iff (length_promptMask i)]

theorem lt_of_responseMask (ht : (mb.responseMask i)[t]? = some true) :
    t < R := by
  rw [← mb.length_responseMask i]
  exact (List.getElem?_eq_some_iff.mp ht).1

section Contiguous

variable (hmask : Contiguous (mb.responseMask i))
  (ht : (mb.responseMask i)[t]? = some true)

include hmask ht

/-- What the padded path has seen in front of a response token. -/
theorem attendedPrefix_eq :
    attendedPrefix (mb.attentionMask i) (mb.inputIds i) (width - 1 + t) =
      (mb.attendedPrompt i ++ (mb.responses i).take t).zipIdx := by
  have hpos := mb.width_pos
  have hlt := lt_of_responseMask ht
  have hend : width - 1 + t + 1 = width + t := by omega
  have hresponse : ((mb.attentionMask i).drop width).take t =
      List.replicate t true := by
    apply List.ext_getElem?
    intro k
    by_cases hk : k < t
    · have hearlier : (mb.responseMask i)[k]? = some true := by
        rw [← List.getElem?_take_of_lt hk, hmask.take_eq_replicate ht,
          List.getElem?_replicate_of_lt hk]
      rw [List.getElem?_take_of_lt hk, List.getElem?_drop,
        mb.attended_response i k hearlier, List.getElem?_replicate_of_lt hk]
    · rw [List.getElem?_eq_none (by simp; omega),
        List.getElem?_eq_none (by simp; omega)]
  have htake : ((mb.responses i).take t).length = t := by
    rw [List.length_take, mb.length_responses]
    omega
  have hids : (mb.inputIds i).take (width + t) =
      mb.prompts i ++ (mb.responses i).take t := by
    have hlen := mb.length_prompts i
    rw [mb.inputIds_eq, List.take_append, hlen, Nat.add_sub_cancel_left,
      List.take_of_length_le (by omega)]
  rw [attendedPrefix, hend, hids, List.take_add, hresponse,
    pack_append (length_promptMask i), pack_replicate_true htake,
    attendedPrompt]

theorem lt_length_keptResponse : t < (mb.keptResponse i).length := by
  have hrank := rank_lt_count ht
  rwa [hmask.rank_eq ht, ← length_keptResponse] at hrank

theorem getElem?_keptResponse :
    (mb.keptResponse i)[t]? = (mb.responses i)[t]? := by
  have hpack : (mb.keptResponse i)[rank (mb.responseMask i) t]? =
      (mb.responses i)[t]? := getElem?_pack ht
  rwa [hmask.rank_eq ht] at hpack

theorem context_eq {pad : Int}
    (hprompt : mb.keptPrompt pad i = mb.attendedPrompt i) :
    mb.context pad i t =
      (mb.attendedPrompt i ++ (mb.responses i).take t).zipIdx := by
  have hlt := lt_of_responseMask ht
  have htake := pack_take t (mb.length_responses_eq i)
  rw [hmask.rank_eq ht, hmask.take_eq_replicate ht, pack_replicate_true (by
    rw [List.length_take, mb.length_responses]; omega)] at htake
  rw [context, hprompt, keptResponse, ← htake]

end Contiguous

/-- No masked response token stands before one that is not, and the attended
tokens of the prompts that are used are those different from the pad token. -/
structure Aligned (mb : SharedPromptBatch U b width R v) : Prop where
  contiguous : ∀ i, Contiguous (mb.responseMask i)
  promptMask_eq : ∀ i, true ∈ mb.responseMask i →
    (mb.attentionMask i).take width = (mb.prompts i).map (nePad mb.padId)

end SharedPromptBatch

section Agreement

variable [Field F] [LinearOrder F] [DecidableEq U] {m : TorchMath F}
  {mb : SharedPromptBatch U b width R v} {package : Package F v}
  {emptyPrefix : Option (Fin v → F)} {model : CausalModel F v}
  {temperature : F} {calculateEntropy useChunkingEntropy : Bool}

theorem returnsPlain_of_aligned (hpackage : Documented emptyPrefix package)
    (hfits : ChunkingFits calculateEntropy useChunkingEntropy mb)
    (haligned : mb.Aligned) :
    ReturnsPlain m package model temperature calculateEntropy
      useChunkingEntropy mb := by
  obtain ⟨groups, hgroups⟩ := exists_grouped mb
  have hdescribed := described mb.padId hpackage hgroups model
  refine ⟨_, forward_eq m model temperature hpackage hgroups hfits, ?_⟩
  intro i t ht
  have hmask := haligned.contiguous i
  have hlt := SharedPromptBatch.lt_of_responseMask ht
  have hprompt : mb.keptPrompt mb.padId i = mb.attendedPrompt i :=
    (SharedPromptBatch.keptPrompt_eq_iff i).mpr
      (haligned.promptMask_eq i (List.mem_of_getElem? ht))
  have hkept := SharedPromptBatch.lt_length_keptResponse hmask ht
  have hknown := getElem?_knownOutputs emptyPrefix model hkept.le
    (hprompt ▸ SharedPromptBatch.attendedPrompt_ne_nil i)
  rw [SharedPromptBatch.context_eq hmask ht hprompt] at hknown
  obtain ⟨hlogProb, hentropy⟩ := entry_finish m temperature calculateEntropy
    hdescribed hkept hknown
  rw [hlogProb, hentropy, forwardPadded_logProbs rfl mb.width_pos hlt
    mb.positionIds_eq, forwardPadded_entropys rfl mb.width_pos hlt
    mb.positionIds_eq, SharedPromptBatch.attendedPrefix_eq hmask ht,
    SharedPromptBatch.getElem?_keptResponse hmask ht]
  exact ⟨rfl, rfl⟩

end Agreement

section Reference

variable [Zero F]

/-- A row, filled up on the right. -/
def padRow (n : Nat) (fill : α) (row : List α) : List α :=
  row ++ List.replicate (n - row.length) fill

theorem length_padRow {n : Nat} {row : List α} (fill : α)
    (hrow : row.length ≤ n) : (padRow n fill row).length = n := by
  rw [padRow, List.length_append, List.length_replicate]
  omega

theorem forall₂_padRow (n : Nat) (fill : α) (rows : List (List α)) :
    List.Forall₂ (· <+: ·) rows (rows.map (padRow n fill)) := by
  rw [List.forall₂_map_right_iff, List.forall₂_same]
  exact fun row _ => List.prefix_append row _

theorem map_length_padRow {n : Nat} {rows : List (List α)} (fill : α)
    (hrows : ∀ row ∈ rows, row.length ≤ n) :
    (rows.map (padRow n fill)).map List.length =
      List.replicate rows.length n := by
  rw [List.map_map, List.eq_replicate_iff]
  refine ⟨List.length_map _, fun len hlen => ?_⟩
  obtain ⟨row, hrow, rfl⟩ := List.mem_map.mp hlen
  exact length_padRow fill (hrows row hrow)

/-- The outputs of every suffix of a group, behind the last output of the
prefix or, for an empty prefix, what a gather reads from the padding. -/
def suffixRows (zero : α) (group : GroupInfo) (outputs : List α) :
    List (List α) :=
  let prefixLast := (outputs.take group.prefixLen).getLast?.getD zero
  (group.suffixLens.splitLengths (outputs.drop group.prefixLen)).map
    fun suffix => prefixLast :: suffix

/-- A package that keeps to the documentation, with zeros as padding. -/
def reference : Package F (v + 1) :=
  fun prefixMask suffixMask groupSizes _ =>
    let info := groupInfoOf prefixMask suffixMask groupSizes
    let total := ((info.map GroupInfo.totalLen).max?).getD 0
    let width := suffixWidth suffixMask
    { groupInfo := info
      paddingMask := info.map fun group =>
        padRow total false (List.replicate group.totalLen true)
      concatInput := fun prefixIds prefixMask suffixIds suffixMask =>
        (concatRows prefixMask suffixMask groupSizes prefixIds suffixIds).map
          (padRow total ⟨0, v.succ_pos⟩)
      modelLogits := fun model inputIds _ positionIds =>
        (List.zipWith (groupLogits model) info
          (List.zipWith List.zip inputIds positionIds)).map
            (padRow total fun _ => 0)
      splitOutput := fun logits _ =>
        { suffixOut := (List.zipWith (suffixRows fun _ => 0) info
            logits).flatten.map (padRow (width + 1) fun _ => 0)
          suffixMask := suffixMask.map fun mask =>
            (List.range (width + 1)).map fun k =>
              decide (k ≤ mask.count true) }
      convertPadding := fun suffixIds suffixMask _ =>
        (List.zipWith pack suffixMask suffixIds).map
          (padRow width ⟨0, v.succ_pos⟩) }

section Lengths

variable {prefixMask suffixMask : List (List Bool)} {groupSizes : List Nat}

theorem map_length_zipWith_pack {masks : List (List Bool)}
    {rows : List (List α)}
    (hlen : rows.map List.length = masks.map List.length) :
    (List.zipWith pack masks rows).map List.length =
      masks.map (List.count true) := by
  induction masks generalizing rows with
  | nil => rfl
  | cons mask masks ih =>
      obtain _ | ⟨row, rows⟩ := rows
      · simp at hlen
      · rw [List.map_cons, List.map_cons, List.cons.injEq] at hlen
        rw [List.zipWith_cons_cons, List.map_cons, length_pack hlen.1,
          ih hlen.2, List.map_cons]

theorem totalLen_le_of_mem {info : List GroupInfo} {group : GroupInfo}
    (hgroup : group ∈ info) :
    group.totalLen ≤ ((info.map GroupInfo.totalLen).max?).getD 0 :=
  List.le_max?_getD_of_mem (List.mem_map_of_mem hgroup)

/-- The tokens of every group are as many as its lengths say. -/
theorem map_length_concatRows (groupSizes : List Nat)
    {prefixIds suffixIds : List (List α)}
    (hfront : prefixIds.map List.length = prefixMask.map List.length)
    (hsuffix : suffixIds.map List.length = suffixMask.map List.length) :
    (concatRows prefixMask suffixMask groupSizes prefixIds suffixIds).map
        List.length =
      (groupInfoOf prefixMask suffixMask groupSizes).map
        GroupInfo.totalLen := by
  have hprefixes := map_length_zipWith_pack hfront
  have hsuffixes := map_length_zipWith_pack hsuffix
  rw [concatRows, groupInfoOf, List.map_zipWith, List.map_zipWith,
    ← hsuffixes, Ragged.map_splitLengths, List.zipWith_map_right,
    List.zipWith_map_right]
  have hleft : List.zipWith
      (fun (row : List α) (piece : List (List α)) =>
        (row ++ piece.flatten).length) (List.zipWith pack prefixMask prefixIds)
      (groupSizes.splitLengths (List.zipWith pack suffixMask suffixIds)) =
        List.zipWith (fun len (piece : List (List α)) =>
          len + (piece.map List.length).sum)
          ((List.zipWith pack prefixMask prefixIds).map List.length)
          (groupSizes.splitLengths
            (List.zipWith pack suffixMask suffixIds)) := by
    rw [List.zipWith_map_left]
    simp only [List.length_append, List.length_flatten]
  rw [hleft, hprefixes, List.zipWith_map_left]
  rfl

omit [Zero F] in
theorem length_groupLogits_le (model : CausalModel F v) (group : GroupInfo)
    (tokens : List (Fin v × Nat)) :
    (groupLogits model group tokens).length ≤ group.totalLen := by
  have hsuffixes := Ragged.length_flatten_splitLengths_le group.suffixLens
    (tokens.drop group.prefixLen)
  rw [List.length_flatten] at hsuffixes
  rw [groupLogits, List.length_append, List.length_map, List.length_range,
    List.length_flatMap, GroupInfo.totalLen]
  simp only [List.length_map, List.length_range]
  exact Nat.add_le_add_left hsuffixes group.prefixLen

/-- A suffix is a row of the suffix mask, so it fits the width. -/
theorem length_le_of_mem_suffixRows {zero : α} {group : GroupInfo}
    {outputs row : List α}
    (hgroup : group ∈ groupInfoOf prefixMask suffixMask groupSizes)
    (hrow : row ∈ suffixRows zero group outputs) :
    row.length ≤ suffixWidth suffixMask + 1 := by
  obtain ⟨suffix, hsuffix, rfl⟩ := List.mem_map.mp hrow
  have hlens : ∀ len ∈ group.suffixLens, len ≤ suffixWidth suffixMask := by
    intro len hlen
    rw [groupInfoOf, ← List.map_uncurry_zip_eq_zipWith] at hgroup
    obtain ⟨⟨mask, lens⟩, hmem, rfl⟩ := List.mem_map.mp hgroup
    have hpiece := (List.of_mem_zip hmem).2
    exact List.le_max?_getD_of_mem
      (Ragged.mem_of_mem_splitLengths hpiece hlen)
  have hle := List.length_mem_splitLengths _ group.suffixLens _ hlens _ hsuffix
  rw [List.length_cons]
  omega

theorem shows_cons {emptyPrefix : Option α} {zero : α}
    (hempty : ∀ x, emptyPrefix = some x → x = zero) (last : Option α)
    (suffix rest : List α) :
    Shows (last.or emptyPrefix :: suffix.map some)
      ((last.getD zero :: suffix) ++ rest) := by
  intro k x hx
  obtain _ | k := k
  · have hfirst : last.or emptyPrefix = some x := by simpa using hx
    cases last with
    | some y => simpa using hfirst
    | none => simpa using (hempty x (by simpa using hfirst)).symm
  · rw [List.getElem?_cons_succ, List.getElem?_map] at hx
    obtain ⟨y, hy, hyx⟩ := Option.map_eq_some_iff.mp hx
    obtain rfl := Option.some.inj hyx
    obtain ⟨hk, -⟩ := List.getElem?_eq_some_iff.mp hy
    rw [List.cons_append, List.getElem?_cons_succ,
      List.getElem?_append_left hk, hy]

theorem forall₂_suffixRows {emptyPrefix : Option α} {zero : α}
    (hempty : ∀ x, emptyPrefix = some x → x = zero) (n : Nat)
    (info : List GroupInfo) (logits : List (List α)) :
    List.Forall₂ Shows
      (List.zipWith (suffixOutputs emptyPrefix) info logits).flatten
      ((List.zipWith (suffixRows zero) info logits).flatten.map
        (padRow n zero)) := by
  induction info generalizing logits with
  | nil => exact List.Forall₂.nil
  | cons group info ih =>
      obtain _ | ⟨outputs, logits⟩ := logits
      · exact List.Forall₂.nil
      · rw [List.zipWith_cons_cons, List.zipWith_cons_cons,
          List.flatten_cons, List.flatten_cons, List.map_append]
        refine List.rel_append ?_ (ih logits)
        rw [suffixOutputs, suffixRows, List.map_map,
          List.forall₂_map_left_iff, List.forall₂_map_right_iff,
          List.forall₂_same]
        exact fun suffix _ => shows_cons hempty _ suffix _

end Lengths

theorem map_length_paddingRows (info : List GroupInfo) :
    (info.map fun group =>
      padRow (((info.map GroupInfo.totalLen).max?).getD 0) false
        (List.replicate group.totalLen true)).map List.length =
      List.replicate info.length
        (((info.map GroupInfo.totalLen).max?).getD 0) := by
  have hrows : ∀ row ∈ info.map fun group =>
      List.replicate group.totalLen true,
      row.length ≤ ((info.map GroupInfo.totalLen).max?).getD 0 := by
    intro row hrow
    obtain ⟨group, hgroup, rfl⟩ := List.mem_map.mp hrow
    rw [List.length_replicate]
    exact totalLen_le_of_mem hgroup
  have hlength := map_length_padRow false hrows
  rw [List.length_map] at hlength
  rw [← hlength, List.map_map, List.map_map, List.map_map]
  rfl

theorem documented_reference {emptyPrefix : Option (Fin (v + 1) → F)}
    (hempty : ∀ x, emptyPrefix = some x → x = fun _ => 0) :
    Documented emptyPrefix (reference (F := F) (v := v)) where
  groupInfo _ := rfl
  length_paddingMask := by
    intro prefixMask suffixMask groupSizes _
    dsimp only [reference]
    rw [map_length_paddingRows, List.map_const']
  concatInput := by
    intro prefixMask suffixMask groupSizes hungrouped
    dsimp only [reference]
    intro prefixIds suffixIds hfront hsuffix
    have hlens := map_length_concatRows groupSizes hfront hsuffix
    refine ⟨forall₂_padRow _ _ _, ?_⟩
    rw [map_length_paddingRows, map_length_padRow, ← List.length_map, hlens,
      List.length_map]
    intro row hrow
    have hmem := List.mem_map_of_mem (f := List.length) hrow
    rw [hlens] at hmem
    exact List.le_max?_getD_of_mem hmem
  modelLogits := by
    intro prefixMask suffixMask groupSizes hungrouped
    dsimp only [reference]
    intro model ids positions hids hpositions
    rw [map_length_paddingRows] at hids hpositions
    have hids_length := congrArg List.length hids
    have hpositions_length := congrArg List.length hpositions
    rw [List.length_map, List.length_replicate] at hids_length
    rw [List.length_map, List.length_replicate] at hpositions_length
    refine ⟨forall₂_padRow _ _ _, ?_⟩
    rw [map_length_paddingRows, map_length_padRow]
    · rw [List.length_zipWith, List.length_zipWith, hids_length,
        hpositions_length, Nat.min_self, Nat.min_self]
    · intro row hrow
      rw [← List.map_uncurry_zip_eq_zipWith] at hrow
      obtain ⟨⟨group, tokens⟩, hmem, rfl⟩ := List.mem_map.mp hrow
      exact (length_groupLogits_le model group tokens).trans
        (totalLen_le_of_mem (List.of_mem_zip hmem).1)
  splitOutput := by
    intro prefixMask suffixMask groupSizes hungrouped
    dsimp only [reference]
    intro logits _
    refine ⟨forall₂_suffixRows hempty _ _ _, ?_, rfl⟩
    intro row hrow
    obtain ⟨outputs, houtputs, rfl⟩ := List.mem_map.mp hrow
    obtain ⟨rows, hrows, hmem⟩ := List.mem_flatten.mp houtputs
    rw [← List.map_uncurry_zip_eq_zipWith] at hrows
    obtain ⟨⟨group, groupOutputs⟩, hzip, rfl⟩ := List.mem_map.mp hrows
    exact length_padRow _
      (length_le_of_mem_suffixRows (List.of_mem_zip hzip).1 hmem)
  convertPadding := by
    intro prefixMask suffixMask groupSizes hungrouped
    dsimp only [reference]
    intro suffixIds hsuffix
    refine ⟨forall₂_padRow _ _ _, ?_⟩
    intro row hrow
    obtain ⟨tokens, htokens, rfl⟩ := List.mem_map.mp hrow
    refine length_padRow _ ?_
    have hmem := List.mem_map_of_mem (f := List.length) htokens
    rw [map_length_zipWith_pack hsuffix] at hmem
    exact List.le_max?_getD_of_mem hmem

end Reference

section Exactly

variable [Field F] [LinearOrder F] [DecidableEq U] {m : TorchMath F}

section Returned

variable {mb : SharedPromptBatch U b width R v} {package : Package F v}
  {emptyPrefix : Option (Fin v → F)} {model : CausalModel F v}
  {temperature : F} {calculateEntropy useChunkingEntropy : Bool}
  {groups : List (SharedPromptBatch.Group b)}

/-- Where the log-probs are those of the padded path, so is what the outputs
of the suffixes come to. -/
theorem ReturnsPlain.logProb_eq
    (h : ReturnsPlain m package model temperature calculateEntropy
      useChunkingEntropy mb)
    (hpackage : Documented emptyPrefix package) (hgroups : Grouped mb groups)
    {i : Fin (b + 1)} {t : Nat} (ht : (mb.responseMask i)[t]? = some true) :
    (finish m R temperature calculateEntropy
        (splitOf package model mb mb.padId groups)
        (completionsOf package mb mb.padId groups)).2[i.val]?.bind (·[t]?) =
      (mb.responses i)[t]?.map (logprobsFromLogits m
        (divTemperature temperature (model (attendedPrefix
          (mb.attentionMask i) (mb.inputIds i) (width - 1 + t))))) := by
  obtain ⟨out, hout, hentries⟩ := h
  have hfits := chunkingFits_of_forward_eq_ok m model temperature hpackage
    hgroups hout
  rw [forward_eq m model temperature hpackage hgroups hfits] at hout
  obtain rfl := Except.ok.inj hout
  have hlt := SharedPromptBatch.lt_of_responseMask ht
  rw [(hentries i t ht).1, forwardPadded_logProbs rfl mb.width_pos hlt
    mb.positionIds_eq]

end Returned

variable [IsStrictOrderedRing F] {mb : SharedPromptBatch U b width R (v + 2)}
  {calculateEntropy useChunkingEntropy : Bool}

/-- A token behind a masked one is returned at the place of that one, and zero
at its own place. -/
theorem contiguous_of_returnsPlain {package : Package F (v + 2)}
    {emptyPrefix : Option (Fin (v + 2) → F)}
    {model : CausalModel F (v + 2)} {temperature : F}
    (hpackage : Documented emptyPrefix package)
    (h : ReturnsPlain m package model temperature calculateEntropy
      useChunkingEntropy mb) (i : Fin (b + 1)) :
    Contiguous (mb.responseMask i) := by
  obtain ⟨groups, hgroups⟩ := exists_grouped mb
  have hdescribed := described mb.padId hpackage hgroups model
  refine contiguous_of_lt_count fun t ht => ?_
  by_contra hle
  rw [not_lt, ← SharedPromptBatch.length_keptResponse] at hle
  have hentry := h.logProb_eq hpackage hgroups ht
  rw [entry_finish_of_le m temperature calculateEntropy hdescribed hle
    (SharedPromptBatch.lt_of_responseMask ht)] at hentry
  obtain ⟨token, -, hvalue⟩ := Option.map_eq_some_iff.mp hentry.symm
  exact logprobsFromLogits_ne_zero _ token hvalue

/-- Raising all other logits lowers the log-prob of a token. -/
theorem logprobsFromLogits_raised_ne (label : Fin (v + 2)) :
    logprobsFromLogits m (some fun j => if j = label then 0 else 1) label ≠
      logprobsFromLogits m (some fun _ => 0) label := by
  have hexp : m.exp 0 < m.exp 1 := by
    by_contra hle
    rcases (not_lt.mp hle).lt_or_eq with hlt | heq
    · have hln := m.ln_lt_ln _ _ (m.exp_pos 1) hlt
      rw [m.ln_exp, m.ln_exp] at hln
      exact (hln.trans zero_lt_one).false
    · have hln := congrArg m.ln heq
      rw [m.ln_exp, m.ln_exp] at hln
      exact one_ne_zero hln
  obtain ⟨other, hother⟩ := exists_ne label
  have hlt : ∑ _j : Fin (v + 2), m.exp 0 <
      ∑ j, m.exp (if j = label then 0 else 1) := by
    refine Finset.sum_lt_sum (fun j _ => ?_) ⟨other, Finset.mem_univ other, ?_⟩
    · split
      · exact le_refl _
      · exact hexp.le
    · rw [if_neg hother]
      exact hexp
  have hpos : 0 < ∑ _j : Fin (v + 2), m.exp 0 :=
    Finset.sum_pos (fun _ _ => m.exp_pos 0) Finset.univ_nonempty
  have hln := m.ln_lt_ln _ _ hpos hlt
  simp only [logprobsFromLogits, logsumexp, TorchMath.log, if_pos hpos,
    if_pos (hpos.trans hlt), Option.bind_eq_bind, Option.bind_some,
    Option.pure_def, ne_eq, Option.some.injEq, if_true]
  intro heq
  linarith

theorem divTemperature_one (logits : Fin v → F) :
    divTemperature 1 logits = some logits := by
  simp [divTemperature]

/-- A prompt that keeps other tokens than its attended ones, or none, scores
the response by other logits. -/
theorem keptPrompt_eq_of_equalsPlain
    (h : EqualsPlain m calculateEntropy useChunkingEntropy mb)
    {i : Fin (b + 1)} (hi : true ∈ mb.responseMask i) :
    mb.keptPrompt mb.padId i = mb.attendedPrompt i := by
  have hreference : Documented none (reference (F := F) (v := v + 1)) :=
    documented_reference (by simp)
  have hzero : Documented (some fun _ => 0) (reference (F := F) (v := v + 1)) :=
    documented_reference fun _ hx => (Option.some.inj hx).symm
  obtain ⟨groups, hgroups⟩ := exists_grouped mb
  by_contra hne
  have hmask := contiguous_of_returnsPlain hreference
    (h reference hreference (fun _ _ => 0) 1) i
  have ht := hmask.getElem?_zero hi
  have hkept := SharedPromptBatch.lt_length_keptResponse hmask ht
  obtain ⟨label, hlabel⟩ : ∃ label, (mb.responses i)[0]? = some label := by
    rw [← SharedPromptBatch.getElem?_keptResponse hmask ht]
    exact ⟨_, List.getElem?_eq_getElem hkept⟩
  -- the model tells the attended prompt of this row from everything else
  set model : CausalModel F (v + 2) := fun tokens j =>
    if tokens = (mb.attendedPrompt i).zipIdx then if j = label then 0 else 1
    else 0 with hmodel
  have hplain : model (attendedPrefix (mb.attentionMask i) (mb.inputIds i)
      (width - 1 + 0)) = fun j => if j = label then 0 else 1 := by
    rw [SharedPromptBatch.attendedPrefix_eq hmask ht, List.take_zero,
      List.append_nil, hmodel]
    simp
  have hknown : (mb.knownOutputs mb.padId (some fun _ => 0) model i)[0]? =
      some (some fun _ => 0) := by
    by_cases hempty : mb.keptPrompt mb.padId i = []
    · rw [SharedPromptBatch.knownOutputs, if_pos hempty]
      rfl
    · have hcontext : mb.context mb.padId i 0 ≠
          (mb.attendedPrompt i).zipIdx := by
        intro heq
        rw [SharedPromptBatch.context, List.take_zero, List.append_nil] at heq
        have hfst := congrArg (List.map Prod.fst) heq
        rw [List.zipIdx_map_fst, List.zipIdx_map_fst] at hfst
        exact hne hfst
      rw [getElem?_knownOutputs _ _ (Nat.zero_le _) hempty, hmodel]
      simp only [if_neg hcontext]
  have hentry := (h reference hreference model 1).logProb_eq hzero hgroups ht
  have hdescribed := described mb.padId hzero hgroups model
  rw [(entry_finish m 1 calculateEntropy hdescribed hkept hknown).1,
    SharedPromptBatch.getElem?_keptResponse hmask ht, hlabel, hplain,
    divTemperature_one, divTemperature_one, Option.map_some, Option.map_some,
    Option.some.injEq] at hentry
  exact logprobsFromLogits_raised_ne label hentry.symm

/-- The forward pass with shared prefixes is the padded path exactly where the
response masks have no hole and the attended prompt tokens are those different
from the pad token; chunked entropies need one row of one token as well. -/
theorem equalsPlain_iff :
    EqualsPlain m calculateEntropy useChunkingEntropy mb ↔
      ChunkingFits calculateEntropy useChunkingEntropy mb ∧ mb.Aligned := by
  constructor
  · intro h
    have hreference : Documented none (reference (F := F) (v := v + 1)) :=
      documented_reference (by simp)
    obtain ⟨groups, hgroups⟩ := exists_grouped mb
    have hreturns := h reference hreference (fun _ _ => 0) 1
    have hrun := hreturns
    obtain ⟨out, hout, -⟩ := hrun
    refine ⟨chunkingFits_of_forward_eq_ok m _ _ hreference hgroups hout, ?_, ?_⟩
    · exact contiguous_of_returnsPlain hreference hreturns
    · intro i hi
      exact (SharedPromptBatch.keptPrompt_eq_iff i).mp
        (keptPrompt_eq_of_equalsPlain h hi)
  · rintro ⟨hfits, haligned⟩ package hpackage model temperature
    exact returnsPlain_of_aligned hpackage hfits haligned

theorem three_pos : 0 < 3 := by decide

theorem four_pos : 0 < 4 := by decide

/-- One of four tokens. -/
def token (n : Nat) : Fin 4 := ⟨n % 4, Nat.mod_lt n four_pos⟩

/-- Two rows of one prompt, which follows one padding slot, and responses of
three tokens under one mask. -/
def twoRowBatch (responseMask : List Bool) (hlen : responseMask.length = 3) :
    SharedPromptBatch String 1 3 3 4 where
  inputIds i := [token 0, token 1, token 2] ++
    [token 3, token (if i.val = 0 then 1 else 2), token 1]
  attentionMask _ := [false, true, true, true, true, true]
  positionIds _ :=
    computePositionIdWithMask [false, true, true, true, true, true]
  responses i := [token 3, token (if i.val = 0 then 1 else 2), token 1]
  length_inputIds _ := rfl
  length_attentionMask _ := rfl
  length_positionIds _ := rfl
  length_responses _ := rfl
  prompts _ := [token 0, token 1, token 2]
  responseMask _ := responseMask
  uid _ := "prompt"
  padTokenId := none
  width_pos := three_pos
  length_prompts _ := rfl
  length_responseMask _ := hlen
  inputIds_eq _ := rfl
  positionIds_eq _ := rfl
  attended_last _ := rfl
  attended_response _ t ht := by
    have hlt := (List.getElem?_eq_some_iff.mp ht).1
    rw [hlen] at hlt
    interval_cases t <;> rfl
  prompts_eq _ _ _ := rfl

theorem equalsPlain_iff_two_rows :
    (EqualsPlain realMath true false (twoRowBatch [true, true, false] rfl) ↔
      ChunkingFits true false (twoRowBatch [true, true, false] rfl) ∧
        (twoRowBatch [true, true, false] rfl).Aligned) ∧
      (twoRowBatch [true, true, false] rfl).Aligned :=
  ⟨equalsPlain_iff,
    { contiguous := fun _ => by
        change Contiguous [true, true, false]
        decide
      promptMask_eq := fun _ _ => rfl }⟩

/-- With a tool token between two response tokens the second one comes back at
the place of the tool token. -/
theorem not_equalsPlain_tool_token :
    ¬ EqualsPlain realMath true false
      (twoRowBatch [true, false, true] rfl) := by
  intro h
  have hreference : Documented none (reference (F := ℝ) (v := 3)) :=
    documented_reference (by simp)
  have hmask := contiguous_of_returnsPlain hreference
    (h reference hreference (fun _ _ => 0) 1) 0
  change Contiguous [true, false, true] at hmask
  revert hmask
  decide

end Exactly

end PrefixGrouper

end SelfDistillation
