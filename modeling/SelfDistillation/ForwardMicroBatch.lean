/-
`_forward_micro_batch` (verl/workers/actor/dp_actor.py): the remove-padding
path, the padded path, and the alignment of the teacher's log-probs with the
response tokens.
-/
import SelfDistillation.Library.Packing
import SelfDistillation.SelfDistillationLoss
import SelfDistillation.SelfDistillationBatch

namespace SelfDistillation

open ExactNum Packing

variable {F α : Type} {b n s v R : Nat}

/-- A causal model: the logits after a prefix of tokens, each with its
position id. -/
abbrev CausalModel (F : Type) (v : Nat) := List (Fin v × Nat) → Fin v → F

/-- The logits of a padded row: a slot attends to the tokens of the mask up to
itself. -/
def CausalModel.padded (model : CausalModel F v) (inputIds : List (Fin v))
    (attentionMask : List Bool) (positionIds : List Nat) :
    List (Fin v → F) :=
  (List.range inputIds.length).map fun slot =>
    model (pack (attentionMask.take (slot + 1))
      ((inputIds.zip positionIds).take (slot + 1)))

/-- The prefixes in a packed sequence: position id 0 starts a new segment. -/
def packedPrefixes : List (α × Nat) → List (α × Nat) →
    List (List (α × Nat))
  | _, [] => []
  | segment, token :: tokens =>
      let segment := if token.2 = 0 then [token] else segment ++ [token]
      segment :: packedPrefixes segment tokens

/-- The logits of a packed sequence without an attention mask. -/
def CausalModel.packed (model : CausalModel F v)
    (tokens : List (Fin v × Nat)) : List (Fin v → F) :=
  (packedPrefixes [] tokens).map model

section Logits

variable [Field F] [LinearOrder F] (m : TorchMath F)

/-- `logits.div_(temperature)` -/
def divTemperature (temperature : F) (logits : Fin v → F) :
    Num (Fin v → F) :=
  if temperature = 0 then none else some fun j => logits j / temperature

/-- `logprobs_from_logits`, for one row of logits. -/
def logprobsFromLogits (logits : Num (Fin v → F)) (label : Fin v) :
    Num F := do
  let logits ← logits
  let logsumexpValue ← logsumexp m logits
  return logits label - logsumexpValue

/-- `torch.log_softmax(logits, dim=-1)` -/
def logSoftmax (logits : Num (Fin v → F)) : Num (Fin v → F) := do
  let logits ← logits
  let logsumexpValue ← logsumexp m logits
  return fun j => logits j - logsumexpValue

/-- `entropy_from_logits` -/
def entropyFromLogits (logits : Num (Fin v → F)) : Num F := do
  let logits ← logits
  let logsumexpValue ← logsumexp m logits
  let pd := fun j => m.exp (logits j) / ∑ k, m.exp (logits k)
  return logsumexpValue - ∑ j, pd j * logits j

end Logits

/-- The tensors of a micro-batch with `b` rows, `s` slots and `R` response
tokens a row. -/
structure MicroBatch (b s R v : Nat) where
  inputIds : Fin b → List (Fin v)
  attentionMask : Fin b → List Bool
  positionIds : Fin b → List Nat
  responses : Fin b → List (Fin v)
  length_inputIds : ∀ i, (inputIds i).length = s
  length_attentionMask : ∀ i, (attentionMask i).length = s
  length_positionIds : ∀ i, (positionIds i).length = s
  length_responses : ∀ i, (responses i).length = R

/-- `outputs` -/
structure ForwardOutputs (F : Type) (b v : Nat) where
  logProbs : Fin b → List (Num F)
  entropys : Option (Fin b → List (Num F))
  allLogps : Option (Fin b → List (Num (Fin v → F)))

/-- `[:, -response_length - 1 : -1]`, for one row. -/
def responseSlice (responseLength : Nat) (row : List α) : List α :=
  (row.take (row.length - 1)).drop (row.length - (responseLength + 1))

namespace MicroBatch

variable (mb : MicroBatch b s R v)

/-- `indices`, as `unpad_input` returns them. -/
def indices : List Nat := nonzero (flattenRows mb.attentionMask)

/-- `attention_mask.sum() == 0` -/
def isMaskAllZero : Bool := mb.indices.isEmpty

def inputIdsRmpad [NeZero v] : List (Fin v) :=
  if mb.isMaskAllZero then [0]
  else gather (flattenRows mb.inputIds) mb.indices

def positionIdsRmpad : List Nat :=
  if mb.isMaskAllZero then [0]
  else gather (flattenRows mb.positionIds) mb.indices

/-- `pad_input` and the response slice of values that are dropped for an empty
mask. -/
def padBack (fill : α) (rmpad : List α) (i : Fin b) : List α :=
  let rmpad := if mb.isMaskAllZero then [] else rmpad
  responseSlice R (rowOf s (scatter fill (b * s) mb.indices rmpad) i)

end MicroBatch

section Forward

variable [Field F] [LinearOrder F] (m : TorchMath F) (model : CausalModel F v)
  (temperature : F) (calculateEntropy returnAllLogps : Bool)

/-- `_forward_micro_batch` with `use_remove_padding`. -/
def forwardRmpad [NeZero v] (mb : MicroBatch b s R v) :
    ForwardOutputs F b v :=
  let inputIdsRmpadRolled := mb.inputIdsRmpad.rotate 1
  let logitsRmpad :=
    (model.packed (mb.inputIdsRmpad.zip mb.positionIdsRmpad)).map
      (divTemperature temperature)
  { logProbs := mb.padBack (some 0)
      (List.zipWith (logprobsFromLogits m) logitsRmpad inputIdsRmpadRolled)
    entropys := if calculateEntropy then
        some (mb.padBack (some 0) (logitsRmpad.map (entropyFromLogits m)))
      else none
    allLogps := if returnAllLogps then
        some (mb.padBack (some fun _ => 0) (logitsRmpad.map (logSoftmax m)))
      else none }

/-- `_forward_micro_batch` without `use_remove_padding`. -/
def forwardPadded (mb : MicroBatch b s R v) : ForwardOutputs F b v :=
  let logits := fun i => responseSlice R
    ((model.padded (mb.inputIds i) (mb.attentionMask i) (mb.positionIds i)).map
      (divTemperature temperature))
  { logProbs := fun i =>
      List.zipWith (logprobsFromLogits m) (logits i) (mb.responses i)
    entropys := if calculateEntropy then
        some fun i => (logits i).map (entropyFromLogits m)
      else none
    allLogps := if returnAllLogps then
        some fun i => (logits i).map (logSoftmax m)
      else none }

/-- `_forward_micro_batch` -/
def forwardMicroBatch [NeZero v] (useRemovePadding : Bool)
    (mb : MicroBatch b s R v) : ForwardOutputs F b v :=
  if useRemovePadding then
    forwardRmpad m model temperature calculateEntropy returnAllLogps mb
  else forwardPadded m model temperature calculateEntropy returnAllLogps mb

end Forward

section PositionIds

theorem length_cumsumFrom (count : Nat) (mask : List Bool) :
    (cumsumFrom count mask).length = mask.length := by
  induction mask generalizing count with
  | nil => rfl
  | cons c mask ih => simp [cumsumFrom, ih]

@[simp] theorem length_computePositionIdWithMask (mask : List Bool) :
    (computePositionIdWithMask mask).length = mask.length := by
  simp [computePositionIdWithMask, length_cumsumFrom]

theorem pack_cumsumFrom (count : Nat) (mask : List Bool) :
    pack mask ((cumsumFrom count mask).map (· - 1)) =
      List.range' count (mask.count true) := by
  induction mask generalizing count with
  | nil => rfl
  | cons c mask ih =>
      cases c with
      | false => simpa [cumsumFrom, pack] using ih count
      | true => simpa [cumsumFrom, pack, List.range'_succ] using ih (count + 1)

/-- The attended tokens of a row are numbered from zero. -/
theorem pack_positionIds {mask : List Bool} {ids : List α}
    (hlen : ids.length = mask.length) :
    pack mask (ids.zip (computePositionIdWithMask mask)) =
      (pack mask ids).zipIdx := by
  rw [pack_zip (by simp [hlen]), computePositionIdWithMask, pack_cumsumFrom,
    List.zipIdx_eq_zip_range', length_pack hlen]

end PositionIds

section Segments

/-- The prefixes of a sequence that are not empty. -/
def prefixes (tokens : List α) : List (List α) :=
  (List.range tokens.length).map fun k => tokens.take (k + 1)

@[simp] theorem length_prefixes (tokens : List α) :
    (prefixes tokens).length = tokens.length := by
  simp [prefixes]

/-- Tokens inside a segment extend it. -/
theorem packedPrefixes_append {segment tokens rest : List (α × Nat)}
    (hinside : ∀ token ∈ tokens, token.2 ≠ 0) :
    packedPrefixes segment (tokens ++ rest) =
      ((List.range tokens.length).map fun k =>
        segment ++ tokens.take (k + 1)) ++
        packedPrefixes (segment ++ tokens) rest := by
  induction tokens generalizing segment with
  | nil => simp
  | cons token tokens ih =>
      have hrest : packedPrefixes (segment ++ [token]) (tokens ++ rest) = _ :=
        ih fun t ht => hinside t (List.mem_cons_of_mem token ht)
      have htoken := hinside token List.mem_cons_self
      rw [List.cons_append, packedPrefixes]
      simp only [htoken, if_false, hrest, List.length_cons,
        List.range_succ_eq_map, List.map_cons, List.map_map]
      simp [Function.comp_def]

/-- A numbered row is a segment of its own, whatever comes before it. -/
theorem packedPrefixes_zipIdx_append (segment : List (α × Nat))
    (row : List α) (rest : List (α × Nat)) :
    ∃ segment', packedPrefixes segment (row.zipIdx ++ rest) =
      prefixes row.zipIdx ++ packedPrefixes segment' rest := by
  cases row with
  | nil => exact ⟨segment, by simp [prefixes]⟩
  | cons token row =>
      have hinside : ∀ t ∈ row.zipIdx 1, t.2 ≠ 0 := by
        intro t ht
        have hle := (List.mem_zipIdx ht).1
        omega
      refine ⟨(token, 0) :: row.zipIdx 1, ?_⟩
      rw [List.zipIdx_cons, List.cons_append, packedPrefixes]
      simp only [if_true, Nat.zero_add, packedPrefixes_append hinside, prefixes,
        List.length_cons, List.range_succ_eq_map, List.map_cons, List.map_map]
      simp [Function.comp_def]

@[simp] theorem length_packedPrefixes (segment tokens : List (α × Nat)) :
    (packedPrefixes segment tokens).length = tokens.length := by
  induction tokens generalizing segment with
  | nil => rfl
  | cons token tokens ih => simp [packedPrefixes, ih]

theorem packedPrefixes_rows {ι : Type} (rows : ι → List α)
    (segment : List (α × Nat)) (is : List ι) :
    packedPrefixes segment (is.flatMap fun i => (rows i).zipIdx) =
      is.flatMap fun i => prefixes (rows i).zipIdx := by
  induction is generalizing segment with
  | nil => rfl
  | cons i is ih =>
      obtain ⟨segment', hsegment⟩ := packedPrefixes_zipIdx_append segment
        (rows i) (is.flatMap fun i => (rows i).zipIdx)
      rw [List.flatMap_cons, hsegment, ih, List.flatMap_cons]

end Segments

section Slots

theorem getElem?_responseSlice {row : List α} {width t : Nat}
    (hrow : row.length = width + R) (hwidth : 0 < width) (ht : t < R) :
    (responseSlice R row)[t]? = row[width - 1 + t]? := by
  rw [responseSlice, List.getElem?_drop, List.getElem?_take_of_lt (by omega)]
  congr 1
  omega

/-- What a slot attends to, when its row is numbered by its mask. -/
def attendedPrefix (mask : List Bool) (ids : List α) (slot : Nat) :
    List (α × Nat) :=
  (pack (mask.take (slot + 1)) (ids.take (slot + 1))).zipIdx

theorem pack_take_positionIds {mask : List Bool} {ids : List α}
    (hlen : ids.length = mask.length) (slot : Nat) :
    pack (mask.take (slot + 1))
      ((ids.zip (computePositionIdWithMask mask)).take (slot + 1)) =
        attendedPrefix mask ids slot := by
  rw [pack_take (slot + 1) (by simp [hlen]), pack_positionIds hlen,
    attendedPrefix, pack_take (slot + 1) hlen, take_zipIdx]

/-- An attended slot ends a prefix of the attended tokens of its row. -/
theorem take_zipIdx_rank {mask : List Bool} {ids : List α} {slot : Nat}
    (hlen : ids.length = mask.length) (hslot : mask[slot]? = some true) :
    (pack mask ids).zipIdx.take (rank mask slot + 1) =
      attendedPrefix mask ids slot := by
  rw [← pack_positionIds hlen, ← rank_succ_of_true hslot,
    ← pack_take (slot + 1) (by simp [hlen]), pack_take_positionIds hlen]

end Slots

namespace MicroBatch

variable {mb : MicroBatch b s R v}

/-- The attended tokens of all rows. -/
def attendedIds (mb : MicroBatch b s R v) : List (Fin v) :=
  pack (flattenRows mb.attentionMask) (flattenRows mb.inputIds)

/-- The attended tokens of all rows with their position ids. -/
def attendedTokens (mb : MicroBatch b s R v) : List (Fin v × Nat) :=
  mb.attendedIds.zip
    (pack (flattenRows mb.attentionMask) (flattenRows mb.positionIds))

theorem length_flattenRows_inputIds :
    (flattenRows mb.inputIds).length =
      (flattenRows mb.attentionMask).length := by
  rw [length_flattenRows mb.length_inputIds,
    length_flattenRows mb.length_attentionMask]

theorem getElem?_flattenRows_attentionMask (i : Fin b) {slot : Nat}
    (hslot : slot < s) :
    (flattenRows mb.attentionMask)[i * s + slot]? =
      (mb.attentionMask i)[slot]? :=
  getElem?_flattenRows mb.length_attentionMask i hslot

theorem isMaskAllZero_eq_false {i : Fin b} {slot : Nat} (hslot : slot < s)
    (hmask : (mb.attentionMask i)[slot]? = some true) :
    mb.isMaskAllZero = false := by
  rw [isMaskAllZero, List.isEmpty_eq_false_iff, indices, ne_eq,
    nonzero_eq_nil_iff, List.count_eq_zero, not_not]
  rw [← getElem?_flattenRows_attentionMask i hslot] at hmask
  exact List.mem_of_getElem? hmask

/-- A value that is put back stands at its slot. -/
theorem getElem?_padBack (fill : α) {rmpad : List α} {width t : Nat}
    (hs : s = width + R) (hwidth : 0 < width) (ht : t < R) {i : Fin b}
    (hzero : mb.isMaskAllZero = false) :
    (mb.padBack fill rmpad i)[t]? =
      (unpack fill (flattenRows mb.attentionMask) rmpad)[
        i * s + (width - 1 + t)]? := by
  have hflat : (flattenRows mb.attentionMask).length = b * s :=
    length_flattenRows mb.length_attentionMask
  have hunpack : scatter fill (b * s) mb.indices rmpad =
      unpack fill (flattenRows mb.attentionMask) rmpad := by
    rw [indices, ← hflat, scatter_nonzero]
  have hrow : (rowOf s (unpack fill (flattenRows mb.attentionMask) rmpad)
      i).length = width + R := by
    have hle : (i + 1 : Nat) * s ≤ b * s := Nat.mul_le_mul_right s i.isLt
    rw [Nat.succ_mul] at hle
    rw [rowOf, List.length_take, List.length_drop, length_unpack, hflat]
    omega
  rw [padBack, hzero]
  simp only [Bool.false_eq_true, if_false]
  rw [hunpack, getElem?_responseSlice hrow hwidth ht, rowOf,
    List.getElem?_take_of_lt (by omega), List.getElem?_drop]

section Numbered

variable (hpositions : ∀ i,
  mb.positionIds i = computePositionIdWithMask (mb.attentionMask i))

include hpositions

theorem attendedTokens_eq :
    mb.attendedTokens = (List.finRange b).flatMap fun i =>
      (pack (mb.attentionMask i) (mb.inputIds i)).zipIdx := by
  have hlen : ∀ i, (mb.inputIds i).length = (mb.positionIds i).length := by
    intro i
    rw [mb.length_inputIds, mb.length_positionIds]
  have hpack : ∀ i, ((mb.inputIds i).zip (mb.positionIds i)).length =
      (mb.attentionMask i).length := by
    intro i
    simp [mb.length_inputIds, mb.length_positionIds, mb.length_attentionMask]
  rw [attendedTokens, attendedIds,
    ← pack_zip (by rw [length_flattenRows mb.length_inputIds,
      length_flattenRows mb.length_positionIds]),
    flattenRows, flattenRows, flattenRows, zip_flatMap hlen,
    pack_flatMap hpack]
  congr 1
  funext i
  rw [hpositions, pack_positionIds]
  rw [mb.length_inputIds, mb.length_attentionMask]

/-- An attended slot sees the same prefix in the packed sequence as in its
row. -/
theorem packedPrefixes_rank {i : Fin b} {slot : Nat} (hslot : slot < s)
    (hmask : (mb.attentionMask i)[slot]? = some true) :
    (packedPrefixes [] mb.attendedTokens)[
        rank (flattenRows mb.attentionMask) (i * s + slot)]? =
      some (attendedPrefix (mb.attentionMask i) (mb.inputIds i) slot) := by
  have hids : ∀ j, (mb.inputIds j).length = (mb.attentionMask j).length := by
    intro j
    rw [mb.length_inputIds, mb.length_attentionMask]
  have hcount : ∀ j,
      (prefixes (pack (mb.attentionMask j) (mb.inputIds j)).zipIdx).length =
        (mb.attentionMask j).count true := by
    intro j
    rw [length_prefixes, List.length_zipIdx, length_pack (hids j)]
  have hrows := unpack_flatMap [] hcount (List.finRange b)
  have hflat := hmask
  rw [← getElem?_flattenRows_attentionMask i hslot] at hflat
  have htotal : ((List.finRange b).flatMap fun j =>
      prefixes (pack (mb.attentionMask j) (mb.inputIds j)).zipIdx).length =
        (flattenRows mb.attentionMask).count true := by
    rw [flattenRows, List.length_flatMap, List.count_flatMap]
    congr 1
    exact List.map_congr_left fun j _ => hcount j
  rw [attendedTokens_eq hpositions, packedPrefixes_rows,
    ← getElem?_unpack_of_true [] hflat htotal]
  rw [← flattenRows] at hrows
  rw [hrows, ← flattenRows, getElem?_flattenRows (by
    intro j
    rw [length_unpack, mb.length_attentionMask]) i hslot,
    getElem?_unpack_of_true [] hmask (hcount i)]
  have hlt : rank (mb.attentionMask i) slot <
      (pack (mb.attentionMask i) (mb.inputIds i)).zipIdx.length := by
    rw [List.length_zipIdx, length_pack (hids i)]
    exact rank_lt_count hmask
  rw [prefixes, List.getElem?_map, List.getElem?_range hlt, Option.map_some,
    take_zipIdx_rank (hids i) hmask]

end Numbered

theorem length_attendedIds :
    mb.attendedIds.length = (flattenRows mb.attentionMask).count true :=
  length_pack length_flattenRows_inputIds

theorem length_attendedTokens :
    mb.attendedTokens.length = (flattenRows mb.attentionMask).count true := by
  have hpositions : (flattenRows mb.positionIds).length =
      (flattenRows mb.attentionMask).length := by
    rw [length_flattenRows mb.length_positionIds,
      length_flattenRows mb.length_attentionMask]
  rw [attendedTokens, List.length_zip, length_attendedIds,
    length_pack hpositions, Nat.min_self]

/-- Rolling puts the next attended token under a token. -/
theorem getElem?_rolled {i : Fin b} {slot : Nat} (hnext : slot + 1 < s)
    (hslot : (mb.attentionMask i)[slot]? = some true)
    (hmask : (mb.attentionMask i)[slot + 1]? = some true) :
    (mb.attendedIds.rotate 1)[rank (flattenRows mb.attentionMask) (i * s + slot)]? =
      (mb.inputIds i)[slot + 1]? := by
  rw [← getElem?_flattenRows_attentionMask i (by omega)] at hslot
  rw [← getElem?_flattenRows_attentionMask i hnext, ← Nat.add_assoc] at hmask
  have hrank := rank_succ_of_true hslot
  have hlt := rank_lt_count hmask
  rw [hrank, ← length_attendedIds] at hlt
  rw [List.getElem?_rotate (by omega), Nat.mod_eq_of_lt hlt, ← hrank,
    attendedIds, getElem?_pack hmask, Nat.add_assoc,
    getElem?_flattenRows mb.length_inputIds i hnext]

end MicroBatch

section Paths

variable [Field F] [LinearOrder F] {m : TorchMath F}
  {model : CausalModel F v} {temperature : F}
  {calculateEntropy returnAllLogps : Bool} {mb : MicroBatch b s R v}
  {width t : Nat} {i : Fin b}

/-- The log-probs of the packed sequence. -/
def packedLogProbs (m : TorchMath F) (model : CausalModel F v)
    (temperature : F) (mb : MicroBatch b s R v) : List (Num F) :=
  List.zipWith (logprobsFromLogits m)
    ((model.packed mb.attendedTokens).map (divTemperature temperature))
    (mb.attendedIds.rotate 1)

theorem length_packedLogProbs :
    (packedLogProbs m model temperature mb).length =
      (flattenRows mb.attentionMask).count true := by
  simp [packedLogProbs, CausalModel.packed, MicroBatch.length_attendedIds,
    MicroBatch.length_attendedTokens]

theorem forwardRmpad_logProbs [NeZero v] (hzero : mb.isMaskAllZero = false) :
    (forwardRmpad m model temperature calculateEntropy returnAllLogps
      mb).logProbs =
      mb.padBack (some 0) (packedLogProbs m model temperature mb) := by
  have hids : mb.inputIdsRmpad = mb.attendedIds := by
    rw [MicroBatch.inputIdsRmpad, hzero]
    exact gather_nonzero MicroBatch.length_flattenRows_inputIds
  have hpositions : mb.positionIdsRmpad =
      pack (flattenRows mb.attentionMask) (flattenRows mb.positionIds) := by
    rw [MicroBatch.positionIdsRmpad, hzero]
    refine gather_nonzero ?_
    rw [length_flattenRows mb.length_positionIds,
      length_flattenRows mb.length_attentionMask]
  simp only [forwardRmpad, hids, hpositions]
  rfl

variable (hs : s = width + R) (hwidth : 0 < width) (ht : t < R)

include hs hwidth ht

/-- Where the slot before an attended token is attended too, the
remove-padding path scores the token after the prefix of that slot. -/
theorem forwardRmpad_of_predecessor [NeZero v]
    (hpositions : ∀ i,
      mb.positionIds i = computePositionIdWithMask (mb.attentionMask i))
    (hslot : (mb.attentionMask i)[width - 1 + t]? = some true)
    (hmask : (mb.attentionMask i)[width + t]? = some true) :
    ((forwardRmpad m model temperature calculateEntropy returnAllLogps
      mb).logProbs i)[t]? =
      (mb.inputIds i)[width + t]?.map (logprobsFromLogits m
        (divTemperature temperature (model (attendedPrefix
          (mb.attentionMask i) (mb.inputIds i) (width - 1 + t))))) := by
  have hlt : width - 1 + t < s := by omega
  have hnext : width - 1 + t + 1 = width + t := by omega
  have hzero := MicroBatch.isMaskAllZero_eq_false hlt hslot
  have hflat := hslot
  rw [← MicroBatch.getElem?_flattenRows_attentionMask i hlt] at hflat
  rw [forwardRmpad_logProbs hzero,
    MicroBatch.getElem?_padBack _ hs hwidth ht hzero,
    getElem?_unpack_of_true _ hflat length_packedLogProbs, packedLogProbs,
    List.getElem?_zipWith, CausalModel.packed, List.map_map,
    List.getElem?_map, MicroBatch.packedPrefixes_rank hpositions hlt hslot,
    MicroBatch.getElem?_rolled (by omega) hslot (by rw [hnext]; exact hmask),
    hnext]
  cases (mb.inputIds i)[width + t]? <;> rfl

/-- Where the slot before a token is masked, the remove-padding path returns
the fill value. -/
theorem forwardRmpad_of_hole [NeZero v]
    (hslot : (mb.attentionMask i)[width - 1 + t]? = some false)
    (hmask : (mb.attentionMask i)[width + t]? = some true) :
    ((forwardRmpad m model temperature calculateEntropy returnAllLogps
      mb).logProbs i)[t]? = some (some 0) := by
  have hlt : width - 1 + t < s := by omega
  have hzero := MicroBatch.isMaskAllZero_eq_false (by omega) hmask
  have hflat := hslot
  rw [← MicroBatch.getElem?_flattenRows_attentionMask i hlt] at hflat
  rw [forwardRmpad_logProbs hzero,
    MicroBatch.getElem?_padBack _ hs hwidth ht hzero,
    getElem?_unpack_of_false _ hflat]

/-- The logits in front of a response token are those after what the slot
before it attends to. -/
theorem getElem?_paddedLogits
    (hpositions : ∀ i,
      mb.positionIds i = computePositionIdWithMask (mb.attentionMask i)) :
    (responseSlice R ((model.padded (mb.inputIds i) (mb.attentionMask i)
      (mb.positionIds i)).map (divTemperature temperature)))[t]? =
      some (divTemperature temperature (model (attendedPrefix
        (mb.attentionMask i) (mb.inputIds i) (width - 1 + t)))) := by
  have hrow : ((model.padded (mb.inputIds i) (mb.attentionMask i)
      (mb.positionIds i)).map (divTemperature temperature)).length =
        width + R := by
    simp [CausalModel.padded, mb.length_inputIds, hs]
  have hids : (mb.inputIds i).length = (mb.attentionMask i).length := by
    rw [mb.length_inputIds, mb.length_attentionMask]
  have hfront := pack_take_positionIds hids (width - 1 + t)
  rw [getElem?_responseSlice hrow hwidth ht, List.getElem?_map,
    CausalModel.padded, List.getElem?_map,
    List.getElem?_range (by rw [mb.length_inputIds]; omega), hpositions,
    Option.map_some, Option.map_some, hfront]

/-- The padded path scores every response token after what the slot before it
attends to. -/
theorem forwardPadded_logProbs
    (hpositions : ∀ i,
      mb.positionIds i = computePositionIdWithMask (mb.attentionMask i)) :
    ((forwardPadded m model temperature calculateEntropy returnAllLogps
      mb).logProbs i)[t]? =
      (mb.responses i)[t]?.map (logprobsFromLogits m
        (divTemperature temperature (model (attendedPrefix
          (mb.attentionMask i) (mb.inputIds i) (width - 1 + t))))) := by
  simp only [forwardPadded]
  rw [List.getElem?_zipWith, getElem?_paddedLogits hs hwidth ht hpositions]
  cases (mb.responses i)[t]? <;> rfl

/-- The padded path takes the entropy of the same logits. -/
theorem forwardPadded_entropys
    (hpositions : ∀ i,
      mb.positionIds i = computePositionIdWithMask (mb.attentionMask i)) :
    (forwardPadded m model temperature calculateEntropy returnAllLogps
      mb).entropys.map (fun rows => (rows i)[t]?) =
      if calculateEntropy then some (some (entropyFromLogits m
        (divTemperature temperature (model (attendedPrefix
          (mb.attentionMask i) (mb.inputIds i) (width - 1 + t))))))
      else none := by
  cases calculateEntropy with
  | false => rfl
  | true =>
      simp only [forwardPadded, if_true, Option.map_some]
      rw [List.getElem?_map, getElem?_paddedLogits hs hwidth ht hpositions,
        Option.map_some]

end Paths

/-- A self-distillation batch: every teacher prompt is padded on the left to
`width` slots and followed by the response, under the response mask. -/
structure TeacherInputs (n width R v : Nat) where
  padTokenId : Fin v
  prompt : Fin n → List (Fin v)
  responses : Fin n → List (Fin v)
  responseMask : Fin n → List Bool
  prompt_ne_nil : ∀ i, prompt i ≠ []
  length_prompt_le : ∀ i, (prompt i).length ≤ width
  length_responses : ∀ i, (responses i).length = R
  length_responseMask : ∀ i, (responseMask i).length = R

namespace TeacherInputs

variable {width : Nat} (inputs : TeacherInputs n width R v)

/-- `teacher_prompt["input_ids"]` -/
def promptIds (i : Fin n) : List (Fin v) :=
  List.replicate (width - (inputs.prompt i).length) inputs.padTokenId ++
    inputs.prompt i

/-- `teacher_prompt["attention_mask"]` -/
def promptMask (i : Fin n) : List Bool :=
  List.replicate (width - (inputs.prompt i).length) false ++
    List.replicate (inputs.prompt i).length true

def teacherInputIds (i : Fin n) : List (Fin v) :=
  inputs.promptIds i ++ inputs.responses i

def teacherAttentionMask (i : Fin n) : List Bool :=
  inputs.promptMask i ++ inputs.responseMask i

def teacherPositionIds (i : Fin n) : List Nat :=
  computePositionIdWithMask (inputs.teacherAttentionMask i)

@[simp] theorem length_promptIds (i : Fin n) :
    (inputs.promptIds i).length = width := by
  simp [promptIds, Nat.sub_add_cancel (inputs.length_prompt_le i)]

@[simp] theorem length_promptMask (i : Fin n) :
    (inputs.promptMask i).length = width := by
  simp [promptMask, Nat.sub_add_cancel (inputs.length_prompt_le i)]

/-- `teacher_inputs` -/
def microBatch : MicroBatch n (width + R) R v where
  inputIds := inputs.teacherInputIds
  attentionMask := inputs.teacherAttentionMask
  positionIds := inputs.teacherPositionIds
  responses := inputs.responses
  length_inputIds i := by simp [teacherInputIds, inputs.length_responses]
  length_attentionMask i := by
    simp [teacherAttentionMask, inputs.length_responseMask]
  length_positionIds i := by
    simp [teacherPositionIds, teacherAttentionMask,
      inputs.length_responseMask]
  length_responses := inputs.length_responses

variable {inputs} {i : Fin n} {t : Nat}

theorem width_pos (inputs : TeacherInputs n width R v) (i : Fin n) :
    0 < width :=
  (List.length_pos_iff.mpr (inputs.prompt_ne_nil i)).trans_le
    (inputs.length_prompt_le i)

theorem getElem?_teacherAttentionMask :
    (inputs.teacherAttentionMask i)[width + t]? =
      (inputs.responseMask i)[t]? := by
  simp [teacherAttentionMask, List.getElem?_append_right]

theorem getElem?_teacherInputIds :
    (inputs.teacherInputIds i)[width + t]? = (inputs.responses i)[t]? := by
  simp [teacherInputIds, List.getElem?_append_right]

/-- The slot before the response is the last one of the prompt. -/
theorem getElem?_teacherAttentionMask_prompt :
    (inputs.teacherAttentionMask i)[width - 1]? = some true := by
  have hle := inputs.length_prompt_le i
  have hpos := List.length_pos_iff.mpr (inputs.prompt_ne_nil i)
  rw [teacherAttentionMask,
    List.getElem?_append_left (by rw [length_promptMask]; omega), promptMask,
    List.getElem?_append_right (by rw [List.length_replicate]; omega),
    List.length_replicate, List.getElem?_replicate_of_lt (by omega)]

/-- The slot before a response token attends to the prompt and to the response
tokens before it whose mask is set. -/
theorem attendedPrefix_eq :
    attendedPrefix (inputs.teacherAttentionMask i) (inputs.teacherInputIds i)
      (width - 1 + t) =
      (inputs.prompt i ++ pack ((inputs.responseMask i).take t)
        ((inputs.responses i).take t)).zipIdx := by
  have hpos := inputs.width_pos i
  have hslot : width - 1 + t + 1 = width + t := by omega
  have hmask : (inputs.teacherAttentionMask i).take (width + t) =
      inputs.promptMask i ++ (inputs.responseMask i).take t := by
    simp [teacherAttentionMask, List.take_append]
  have hids : (inputs.teacherInputIds i).take (width + t) =
      inputs.promptIds i ++ (inputs.responses i).take t := by
    simp [teacherInputIds, List.take_append]
  have hprompt : pack (inputs.promptMask i) (inputs.promptIds i) =
      inputs.prompt i := by
    rw [promptMask, promptIds, pack_append (by simp), pack_replicate_false,
      pack_replicate_true rfl, List.nil_append]
  rw [attendedPrefix, hslot, hmask, hids, pack_append (by simp), hprompt]

end TeacherInputs

/-- What a tokenizer with `padding_side = "left"` and a generation prompt
returns: a prompt that is not empty behind its padding. -/
def LeftPadded (width : Nat) (padTokenId : Fin v)
    (prompt : Fin n → List (Fin v))
    (encoded : Fin n → List (Fin v) × List Bool) : Prop :=
  ∀ i, prompt i ≠ [] ∧ (prompt i).length ≤ width ∧
    encoded i =
      (List.replicate (width - (prompt i).length) padTokenId ++ prompt i,
        List.replicate (width - (prompt i).length) false ++
          List.replicate (prompt i).length true)

/-- The trainer builds such batches. -/
theorem maybeBuildSelfDistillationBatch_teacherInputs {U : Type}
    [AddCommMonoid F] [LinearOrder F] [DecidableEq U]
    {format : Text → List (String × Text) → Py Text}
    {tokenizer : Tokenizer (Fin v)} {cfg : RepromptConfig F}
    {lossMode : String} {batch : RolloutBatch U (Fin v) n}
    {rewardTensor : Fin n → List F}
    {infos : Option (PyDict (List ExtraInfo))} {result : BuildResult (Fin v) n}
    (hpadded : ∀ messages : Fin n → List Message,
      ∃ width padTokenId prompt, LeftPadded width padTokenId prompt
        (tokenizer.applyChatTemplate messages cfg.maxRepromptLen))
    (hresponses : ∀ i, (batch.responses i).length = R)
    (hmask : ∀ i, (batch.responseMask i).length = R)
    (h : maybeBuildSelfDistillationBatch format tokenizer (some cfg) lossMode
      batch rewardTensor infos = .ok (some result)) :
    ∃ width, ∃ inputs : TeacherInputs n width R v,
      inputs.responses = batch.responses ∧
      inputs.responseMask = batch.responseMask ∧
      inputs.teacherInputIds = result.batch.teacherInputIds ∧
      inputs.teacherAttentionMask = result.batch.teacherAttentionMask ∧
      inputs.teacherPositionIds = result.batch.teacherPositionIds := by
  obtain ⟨messages, hids, hattention, hpositions⟩ :=
    maybeBuildSelfDistillationBatch_columns h
  obtain ⟨width, padTokenId, prompt, hencoded⟩ := hpadded messages
  refine ⟨width, ⟨padTokenId, prompt, batch.responses, batch.responseMask,
    fun i => (hencoded i).1, fun i => (hencoded i).2.1, hresponses, hmask⟩,
    rfl, rfl, ?_, ?_, ?_⟩
  · funext i
    rw [hids, (hencoded i).2.2]
    rfl
  · funext i
    rw [hattention, (hencoded i).2.2]
    rfl
  · funext i
    rw [hpositions, hattention, (hencoded i).2.2]
    rfl

section Alignment

variable [Field F] [LinearOrder F] (m : TorchMath F)
  (model : CausalModel F v) (temperature : F) {width : Nat}

/-- The log-prob of `responses[t]` under the logits after the teacher prompt
followed by `responses[0..t-1]`. -/
def TeacherInputs.nextTokenLogProb (inputs : TeacherInputs n width R v)
    (i : Fin n) (t : Nat) : Option (Num F) :=
  (inputs.responses i)[t]?.map (logprobsFromLogits m
    (divTemperature temperature
      (model (inputs.prompt i ++ (inputs.responses i).take t).zipIdx)))

/-- Both paths return that log-prob at every token of the response mask. -/
def TokenAligned [NeZero v] (inputs : TeacherInputs n width R v) : Prop :=
  ∀ i t, (inputs.responseMask i)[t]? = some true →
    ∀ calculateEntropy returnAllLogps useRemovePadding,
      ((forwardMicroBatch m model temperature calculateEntropy
        returnAllLogps useRemovePadding inputs.microBatch).logProbs i)[t]? =
        inputs.nextTokenLogProb m model temperature i t

end Alignment

section Exactly

variable [Field F] [LinearOrder F] {m : TorchMath F} {temperature : F}
  {width : Nat} {model : CausalModel F (v + 2)}
  {inputs : TeacherInputs n width R (v + 2)}

theorem tokenAligned_of_contiguous
    (hmask : ∀ i, Contiguous (inputs.responseMask i)) :
    TokenAligned m model temperature inputs := by
  intro i t ht calculateEntropy returnAllLogps useRemovePadding
  have hlt : t < R := by
    rw [← inputs.length_responseMask i]
    exact (List.getElem?_eq_some_iff.mp ht).1
  have hpos := inputs.width_pos i
  have hfront : attendedPrefix (inputs.teacherAttentionMask i)
      (inputs.teacherInputIds i) (width - 1 + t) =
        (inputs.prompt i ++ (inputs.responses i).take t).zipIdx := by
    rw [TeacherInputs.attendedPrefix_eq, (hmask i).take_eq_replicate ht,
      pack_replicate_true]
    rw [List.length_take, inputs.length_responses]
    omega
  cases useRemovePadding with
  | false =>
      rw [forwardMicroBatch, if_neg (by decide),
        forwardPadded_logProbs rfl hpos hlt fun _ => rfl,
        TeacherInputs.nextTokenLogProb]
      exact hfront ▸ rfl
  | true =>
      have hslot : (inputs.teacherAttentionMask i)[width - 1 + t]? =
          some true := by
        obtain _ | t := t
        · exact TeacherInputs.getElem?_teacherAttentionMask_prompt
        · have heq : width - 1 + (t + 1) = width + t := by omega
          rw [heq, TeacherInputs.getElem?_teacherAttentionMask,
            ← List.getElem?_take_of_lt (Nat.lt_succ_self t),
            (hmask i).take_eq_replicate ht,
            List.getElem?_replicate_of_lt (Nat.lt_succ_self t)]
      rw [forwardMicroBatch, if_pos rfl,
        forwardRmpad_of_predecessor rfl hpos hlt (fun _ => rfl) hslot
          (TeacherInputs.getElem?_teacherAttentionMask.trans ht),
        TeacherInputs.nextTokenLogProb,
        ← TeacherInputs.getElem?_teacherInputIds]
      exact hfront ▸ rfl

variable [IsStrictOrderedRing F]

/-- With a second token in the vocabulary no token is certain. -/
theorem logprobsFromLogits_ne_zero (logits : Num (Fin (v + 2) → F))
    (label : Fin (v + 2)) : logprobsFromLogits m logits label ≠ some 0 := by
  cases logits with
  | none => simp [logprobsFromLogits]
  | some logits =>
      obtain ⟨other, hother⟩ := exists_ne label
      have hlt : m.exp (logits label) < ∑ j, m.exp (logits j) :=
        Finset.single_lt_sum hother (Finset.mem_univ _) (Finset.mem_univ _)
          (m.exp_pos _) fun j _ _ => (m.exp_pos _).le
      have hpos : 0 < ∑ j, m.exp (logits j) := (m.exp_pos _).trans hlt
      have hlog := m.ln_lt_ln _ _ (m.exp_pos (logits label)) hlt
      rw [m.ln_exp] at hlog
      simp only [logprobsFromLogits, logsumexp, TorchMath.log, if_pos hpos,
        Option.bind_eq_bind, Option.bind_some, Option.pure_def, ne_eq,
        Option.some.injEq]
      exact (sub_neg.mpr hlog).ne

/-- At a token behind a masked one the remove-padding path returns the fill
value, which is no log-prob. -/
theorem not_tokenAligned_of_gap {i : Fin n} {t : Nat}
    (hgap : (inputs.responseMask i)[t]? = some false)
    (ht : (inputs.responseMask i)[t + 1]? = some true) :
    ¬ TokenAligned m model temperature inputs := by
  intro h
  have hlt : t + 1 < R := by
    rw [← inputs.length_responseMask i]
    exact (List.getElem?_eq_some_iff.mp ht).1
  have hpos := inputs.width_pos i
  have hslot : (inputs.teacherAttentionMask i)[width - 1 + (t + 1)]? =
      some false := by
    have heq : width - 1 + (t + 1) = width + t := by omega
    rw [heq, TeacherInputs.getElem?_teacherAttentionMask, hgap]
  have htoken := h i (t + 1) ht false false true
  rw [forwardMicroBatch, if_pos rfl,
    forwardRmpad_of_hole rfl hpos hlt hslot
      (TeacherInputs.getElem?_teacherAttentionMask.trans ht),
    TeacherInputs.nextTokenLogProb] at htoken
  obtain ⟨token, -, hvalue⟩ := Option.map_eq_some_iff.mp htoken.symm
  exact logprobsFromLogits_ne_zero _ token hvalue

/-- The log-probs are aligned exactly when no masked response token stands
before one that is not. -/
theorem tokenAligned_iff :
    TokenAligned m model temperature inputs ↔
      ∀ i, Contiguous (inputs.responseMask i) := by
  refine ⟨fun h i => ?_, tokenAligned_of_contiguous⟩
  by_contra hmask
  obtain ⟨t, hgap, ht⟩ := exists_gap_of_not_contiguous hmask
  exact not_tokenAligned_of_gap hgap ht h

/-- One row: a prompt of two tokens after one padding slot, and a response of
three tokens under the given mask. -/
def oneRowInputs (responseMask : List Bool) (hlen : responseMask.length = 3) :
    TeacherInputs 1 3 3 4 where
  padTokenId := 0
  prompt _ := [1, 2]
  responses _ := [3, 1, 2]
  responseMask _ := responseMask
  prompt_ne_nil _ := by decide
  length_prompt_le _ := by decide
  length_responses _ := rfl
  length_responseMask _ := hlen

/-- A model that raises the logit of the token after the last one. -/
def successorModel : CausalModel ℝ 4 := fun tokens j =>
  if tokens.getLast?.map (fun token => token.1 + 1) = some j then 1 else 0

theorem tokenAligned_iff_one_row :
    (TokenAligned realMath successorModel 1
        (oneRowInputs [true, true, false] rfl) ↔
      ∀ i, Contiguous ((oneRowInputs [true, true, false] rfl).responseMask
        i)) ∧
      ∀ i, Contiguous ((oneRowInputs [true, true, false] rfl).responseMask
        i) :=
  ⟨tokenAligned_iff, fun _ => by
    change Contiguous [true, true, false]
    decide⟩

/-- The response token behind a tool token is not scored on the
remove-padding path. -/
theorem tokenAligned_fails :
    ¬ TokenAligned realMath successorModel 1
      (oneRowInputs [true, false, true] rfl) :=
  not_tokenAligned_of_gap (t := 1) (i := 0) rfl rfl

end Exactly

end SelfDistillation
