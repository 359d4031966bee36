/-
Sequence parallelism (verl/utils/ulysses.py): tensors are exchanged between
the ranks of a group by splitting one axis and concatenating another, and
padded where the sequence does not divide.
-/
import SelfDistillation.TorchOps

namespace SelfDistillation

namespace Ulysses

open NdArray TorchOps

variable {α β : Type} {n : Nat}

def padTensor (zero : α) (x : NdArray α) (dim paddingSize : Nat) :
    Py (NdArray α) :=
  torchCat dim [x, full (x.shape.set dim paddingSize) zero]

/-- `slice(0, -padding_size)` of the axis. -/
def unpadTensor (x : NdArray α) (dim : Nat) (paddingSize : Int) :
    NdArray α :=
  x.slice dim 0 (sliceIndex (x.size dim) (-paddingSize))

/-- Piece `i` of `torch.tensor_split(x, sections, dim)`: the first ones are
longer where the axis does not divide. -/
def tensorSplit (sections : Nat) (x : NdArray α) (dim i : Nat) : NdArray α :=
  let bound i := i * (x.size dim / sections) + min i (x.size dim % sections)
  x.slice dim (bound i) (bound (i + 1))

/-- `all_to_all_tensor` on every rank; what a rank receives must have the
shape of its own first piece. -/
def allToAllTensor (localInput : Fin n → NdArray α)
    (scatterDim gatherDim : Nat) : Py (Fin n → NdArray α) :=
  tabulateM fun rank => do
    let outputList := List.ofFn fun sender =>
      tensorSplit n (localInput sender) scatterDim rank
    let shape := (tensorSplit n (localInput rank) scatterDim 0).shape
    if outputList.all fun output => output.shape == shape then
      torchCat gatherDim outputList
    else .error (.runtimeError "all_to_all of different shapes")

def gatherSeqScatterHeads (x : Fin n → NdArray α) (seqDim headDim : Nat)
    (unpaddedDimSize : Nat) : Py (Fin n → NdArray α) := do
  let x ← allToAllTensor x headDim seqDim
  return fun rank =>
    if unpaddedDimSize ≠ 0 ∧ unpaddedDimSize % n ≠ 0 then
      unpadTensor (x rank) seqDim ((x rank).size seqDim - unpaddedDimSize)
    else x rank

/-- Padded to a multiple of `spWorld` where it is none. -/
def padToDivide (zero : α) (spWorld : Nat) (x : NdArray α) (dim : Nat) :
    Py (NdArray α) :=
  if x.size dim % spWorld ≠ 0 then
    padTensor zero x dim (spWorld - x.size dim % spWorld)
  else .ok x

def gatherHeadsScatterSeq (zero : α) (x : Fin n → NdArray α)
    (headDim seqDim : Nat) : Py (Fin n → NdArray α) := do
  let x ← tabulateM fun rank => padToDivide zero n (x rank) seqDim
  allToAllTensor x seqDim headDim

def sliceInputTensor (zero : α) (spWorldSize spRank : Nat) (x : NdArray α)
    (dim : Nat) (padding : Bool) : Py (NdArray α) := do
  let x ← if padding then padToDivide zero spWorldSize x dim else .ok x
  let parts := x.size dim / spWorldSize
  return x.slice dim (spRank * parts) ((spRank + 1) * parts)

/-- `all_gather_tensor` on every rank; the tensors must have one shape. -/
def allGatherTensor (localTensor : Fin n → NdArray α) (rank : Fin n) :
    Py (NdArray α) :=
  let outputs := List.ofFn localTensor
  if outputs.all fun output => output.shape == (localTensor rank).shape then
    torchCat 0 outputs
  else .error (.runtimeError "all_gather of different shapes")

/-- `output.split(split_size, dim)` -/
def torchSplit (output : NdArray α) (splitSize dim : Nat) :
    List (NdArray α) :=
  if splitSize = 0 then [output]
  else
    let chunks := max ((output.size dim + splitSize - 1) / splitSize) 1
    (List.range chunks).map fun i =>
      output.slice dim (i * splitSize) ((i + 1) * splitSize)

/-- `Gather.forward` on every rank. -/
def gather (localTensor : Fin n → NdArray α) (gatherDim : Nat) :
    Py (Fin n → NdArray α) :=
  tabulateM fun rank => do
    let output ← allGatherTensor localTensor rank
    torchCat gatherDim (torchSplit output ((localTensor rank).size 0) 0)

def gatherOutputsAndUnpad (x : Fin n → NdArray α) (gatherDim : Nat)
    (unpadDim : Option Nat) (paddingSize : Nat) :
    Py (Fin n → NdArray α) := do
  let x ← gather x gatherDim
  match unpadDim with
  | none => return x
  | some unpadDim =>
      return fun rank =>
        if paddingSize = 0 then x rank
        else unpadTensor (x rank) unpadDim paddingSize

/-- `torch.arange(pad_size)`, in a row for each row of the position ids. -/
def padPosIds (positionIds : NdArray Nat) (padSize : Nat) : NdArray Nat where
  shape := positionIds.shape.set (positionIds.shape.length - 1) padSize
  get? idx :=
    if InBounds (positionIds.shape.set (positionIds.shape.length - 1) padSize)
        idx then
      some (pos idx (positionIds.shape.length - 1))
    else none
  isSome_get? idx := by
    split
    · simp_all
    · simp_all

/-- The assertions of `ulysses_pad`. -/
def checkPositionIds (inputIds : NdArray α) :
    Option (NdArray Nat) → Py Unit
  | none => .ok ()
  | some positionIds =>
      if positionIds.shape.length < 2 then .error .indexError
      else do
        pyAssert (positionIds.size (positionIds.shape.length - 2) == 1) ""
        pyAssert (inputIds.size (inputIds.shape.length - 1) ==
          positionIds.size (positionIds.shape.length - 1)) ""

def padPositionIds (padSize : Nat) :
    Option (NdArray Nat) → Py (Option (NdArray Nat))
  | none => .ok none
  | some positionIds =>
      some <$> torchCat (positionIds.shape.length - 1)
        [positionIds, padPosIds positionIds padSize]

/-- `ulysses_pad` where the length does not divide. -/
def padInputs (inputIds : NdArray α) (positionIds : Option (NdArray Nat))
    (padSize : Nat) (padValue : α) :
    Py (NdArray α × Option (NdArray Nat) × Nat) := do
  let inputIds ← padTensor padValue inputIds 1 padSize
  let positionIds ← padPositionIds padSize positionIds
  return (inputIds, positionIds, padSize)

def ulyssesPad (inputIds : NdArray α) (positionIds : Option (NdArray Nat))
    (spSize : Nat) (padValue : α) :
    Py (NdArray α × Option (NdArray Nat) × Nat) := do
  checkPositionIds inputIds positionIds
  if spSize ≤ 1 then .ok (inputIds, positionIds, 0)
  else if inputIds.shape.length ≠ 2 then
    .error (.valueError "not enough values to unpack")
  else
    let padSize := (spSize - inputIds.size 1 % spSize) % spSize
    if 0 < padSize then padInputs inputIds positionIds padSize padValue
    else .ok (inputIds, positionIds, padSize)

def slicePositionIds (spWorldSize spRank : Nat)
    (skipPositionIdsRmpad : Bool) :
    Option (NdArray Nat) → Py (Option (NdArray Nat))
  | none => .ok none
  | some positionIds =>
      if skipPositionIdsRmpad then .ok (some positionIds)
      else some <$> sliceInputTensor 0 spWorldSize spRank positionIds 1 false

/-- On rank `spRank` of a group of `spWorldSize`. -/
def ulyssesPadAndSliceInputs (spWorldSize spRank : Nat) (inputIds : NdArray α)
    (positionIds : Option (NdArray Nat)) (spSize : Nat)
    (skipPositionIdsRmpad : Bool) (padValue : α) :
    Py (NdArray α × Option (NdArray Nat) × Nat) := do
  let (inputIds, positionIds, padSize) ←
    ulyssesPad inputIds positionIds spSize padValue
  let inputIds ←
    sliceInputTensor padValue spWorldSize spRank inputIds 1 false
  let positionIds ←
    slicePositionIds spWorldSize spRank skipPositionIdsRmpad positionIds
  return (inputIds, positionIds, padSize)

section RoundTrip

variable {x : Fin n → NdArray α} {shape : List Nat} {s g : Nat}

/-- An even split has equal pieces. -/
theorem tensorSplit_eq {x : NdArray α} {sections dim i : Nat}
    (hdvd : sections ∣ x.size dim) :
    tensorSplit sections x dim i =
      x.slice dim (i * (x.size dim / sections))
        ((i + 1) * (x.size dim / sections)) := by
  rw [tensorSplit, Nat.mod_eq_zero_of_dvd hdvd]
  simp

/-- Each rank has its piece of axis `s` of every rank, one behind the other
on axis `g`. -/
theorem exists_allToAllTensor (hshape : ∀ r, (x r).shape = shape)
    (hs : s < shape.length) (hg : g < shape.length) (hne : s ≠ g)
    (hdvd : n ∣ pos shape s) :
    ∃ y, allToAllTensor x s g = .ok y ∧
      ∀ r, (y r).shape = (shape.set s (pos shape s / n)).set g
          (n * pos shape g) ∧
        ∀ idx, InBounds (y r).shape idx →
          (y r).get? idx = (List.ofFn x)[pos idx g / pos shape g]?.bind
            fun t => t.get? ((idx.set g (pos idx g % pos shape g)).set s
              (r * (pos shape s / n) + pos idx s)) := by
  have hpiece : ∀ (r : Fin n) (sender : Fin n),
      tensorSplit n (x sender) s r = (x sender).slice s
        (r * (pos shape s / n)) ((r + 1) * (pos shape s / n)) := by
    intro r sender
    have hsize : (x sender).size s = pos shape s := by
      rw [size, hshape sender]
    rw [tensorSplit_eq (hsize ▸ hdvd), hsize]
  have hle : ∀ r : Fin n, (r + 1) * (pos shape s / n) ≤ pos shape s :=
    fun r => calc (r + 1) * (pos shape s / n)
        ≤ n * (pos shape s / n) := Nat.mul_le_mul_right _ r.isLt
      _ ≤ pos shape s := Nat.mul_div_le _ _
  have hpieceShape : ∀ (r : Fin n) (sender : Fin n),
      (tensorSplit n (x sender) s r).shape =
        shape.set s (pos shape s / n) := by
    intro r sender
    have hsize : (x sender).size s = pos shape s := by
      rw [size, hshape sender]
    rw [hpiece, shape_slice, hshape, hsize, Nat.min_eq_left (hle r),
      Nat.succ_mul, Nat.add_sub_cancel_left]
  have hcat : ∀ r : Fin n, ∃ y, torchCat g (List.ofFn fun sender =>
      tensorSplit n (x sender) s r) = .ok y ∧
      y.shape = (shape.set s (pos shape s / n)).set g (n * pos shape g) ∧
      ∀ idx, InBounds y.shape idx →
        y.get? idx = (List.ofFn x)[pos idx g / pos shape g]?.bind
          fun t => t.get? ((idx.set g (pos idx g % pos shape g)).set s
            (r * (pos shape s / n) + pos idx s)) := by
    intro r
    have hmem : ∀ t ∈ List.ofFn fun sender => tensorSplit n (x sender) s r,
        t.shape = shape.set s (pos shape s / n) := by
      intro t ht
      obtain ⟨sender, rfl⟩ := List.mem_ofFn.mp ht
      exact hpieceShape r sender
    obtain ⟨y, hy, hyshape, hget⟩ := exists_cat?
      (List.ne_nil_of_length_pos (by rw [List.length_ofFn]; exact r.pos))
      hmem (by rwa [List.length_set] : g < _)
    rw [pos_set_of_ne hne, List.length_ofFn] at hyshape
    refine ⟨y, by rw [torchCat, hy], hyshape, fun idx hin => ?_⟩
    rw [hget idx hin, pos_set_of_ne hne, List.getElem?_ofFn,
      List.getElem?_ofFn]
    split
    · rename_i hrank
      have hlt : pos idx s < pos shape s / n := by
        have hpos := hin.2 s (by rwa [hyshape, List.length_set,
          List.length_set])
        rwa [hyshape, pos_set_of_ne (Ne.symm hne), pos_set_self hs] at hpos
      have hx := hshape ⟨pos idx g / pos shape g, hrank⟩
      have hpos : pos (idx.set g (pos idx g % pos shape g)) s = pos idx s :=
        pos_set_of_ne (Ne.symm hne)
      have hsize : min ((r + 1) * (pos shape s / n)) (pos shape s) -
          r * (pos shape s / n) = pos shape s / n := by
        rw [Nat.min_eq_left (hle r), Nat.succ_mul, Nat.add_sub_cancel_left]
      rw [Option.bind_some, Option.bind_some, hpiece,
        get?_slice (by rwa [hx]) (by rwa [size, hx, hpos, hsize]), hpos]
    · rfl
  choose y hy using hcat
  refine ⟨y, tabulateM_eq_ok.mpr fun r => ?_, fun r => (hy r).2⟩
  have hall : ((List.ofFn fun sender => tensorSplit n (x sender) s r).all
      fun output => output.shape == (tensorSplit n (x r) s 0).shape) =
      true := by
    rw [List.all_eq_true]
    intro t ht
    obtain ⟨sender, rfl⟩ := List.mem_ofFn.mp ht
    rw [hpieceShape, hpieceShape ⟨0, r.pos⟩, beq_self_eq_true]
  rw [if_pos hall]
  exact (hy r).1

/-- The exchange back is the inverse. -/
theorem allToAllTensor_inverse (hshape : ∀ r, (x r).shape = shape)
    (hs : s < shape.length) (hg : g < shape.length) (hne : s ≠ g)
    (hdvd : n ∣ pos shape s) {y : Fin n → NdArray α}
    (hy : allToAllTensor x s g = .ok y) :
    allToAllTensor y g s = .ok x := by
  obtain ⟨y', hy', hget⟩ := exists_allToAllTensor hshape hs hg hne hdvd
  cases hy.symm.trans hy'
  have hposg : pos ((shape.set s (pos shape s / n)).set g
      (n * pos shape g)) g = n * pos shape g :=
    pos_set_self (by rwa [List.length_set])
  have hposs : pos ((shape.set s (pos shape s / n)).set g
      (n * pos shape g)) s = pos shape s / n := by
    rw [pos_set_of_ne (Ne.symm hne), pos_set_self hs]
  obtain ⟨z, hz, hzget⟩ := exists_allToAllTensor (fun r => (hget r).1)
    (by rwa [List.length_set, List.length_set])
    (by rwa [List.length_set, List.length_set]) (Ne.symm hne)
    (by rw [hposg]; exact Nat.dvd_mul_right n _)
  rw [hz]
  congr 1
  funext r
  have hpos : 0 < n := r.pos
  obtain ⟨hzshape, hzget⟩ := hzget r
  rw [hposg, hposs, Nat.mul_div_cancel_left _ hpos,
    Nat.mul_div_cancel' hdvd, List.set_set,
    List.set_comm _ _ (Ne.symm hne), List.set_set, set_pos, set_pos] at hzshape
  apply ext_inBounds (hzshape.trans (hshape r).symm)
  intro idx hin
  have hidx := hin.1
  rw [hzget idx hin, hposg, hposs, Nat.mul_div_cancel_left _ hpos]
  rw [hzshape] at hin hidx
  obtain ⟨hoff, hlts⟩ := (inBounds_iff hs).mp hin
  have hltg := hin.2 g hg
  -- the rank that holds the piece, and the place in its piece
  have hc : 0 < pos shape s / n := by
    rcases Nat.eq_zero_or_pos (pos shape s / n) with hzero | hc
    · have hmul := Nat.mul_div_cancel' hdvd
      rw [hzero, Nat.mul_zero] at hmul
      omega
    · exact hc
  have hq : pos idx s / (pos shape s / n) < n := by
    rw [Nat.div_lt_iff_lt_mul hc, Nat.mul_div_cancel' hdvd]
    exact hlts
  have hin' : InBounds (y ⟨_, hq⟩).shape ((idx.set s
      (pos idx s % (pos shape s / n))).set g
        (r * pos shape g + pos idx g)) := by
    have hg' : g < (shape.set s (pos shape s / n)).length := by
      rwa [List.length_set]
    have hlt : r * pos shape g + pos idx g < n * pos shape g := by
      have hmul := Nat.mul_le_mul_right (pos shape g) r.isLt
      rw [Nat.succ_mul] at hmul
      omega
    rw [(hget ⟨_, hq⟩).1, inBounds_set_shape hg', offAxis_set_index,
      pos_set_self (by rw [List.length_set, hidx]; exact hg)]
    refine ⟨⟨by rw [List.length_set, List.length_set, hidx],
      fun e he hneg => ?_⟩, hlt⟩
    rw [List.length_set] at he
    by_cases hes : e = s
    · rw [hes, pos_set_self (by rw [hidx]; exact hs), pos_set_self hs]
      exact Nat.mod_lt _ hc
    · rw [pos_set_of_ne (Ne.symm hes), pos_set_of_ne (Ne.symm hes)]
      exact hin.2 e he
  have hposg' : pos ((idx.set s (pos idx s % (pos shape s / n))).set g
      (r * pos shape g + pos idx g)) g = r * pos shape g + pos idx g :=
    pos_set_self (by rw [List.length_set, hidx]; exact hg)
  have hposs' : pos ((idx.set s (pos idx s % (pos shape s / n))).set g
      (r * pos shape g + pos idx g)) s = pos idx s % (pos shape s / n) := by
    rw [pos_set_of_ne (Ne.symm hne), pos_set_self (by rw [hidx]; exact hs)]
  have hGpos : 0 < pos shape g := Nat.lt_of_le_of_lt (Nat.zero_le _) hltg
  have hdiv : (r * pos shape g + pos idx g) / pos shape g = r := by
    rw [Nat.add_comm, Nat.add_mul_div_right _ _ hGpos, Nat.div_eq_of_lt hltg,
      Nat.zero_add]
  have hmod : (r * pos shape g + pos idx g) % pos shape g = pos idx g := by
    rw [Nat.add_comm, Nat.add_mul_mod_self_right, Nat.mod_eq_of_lt hltg]
  have hback : pos idx s / (pos shape s / n) * (pos shape s / n) +
      pos idx s % (pos shape s / n) = pos idx s := Nat.div_add_mod' _ _
  rw [List.getElem?_ofFn, dif_pos hq, Option.bind_some,
    (hget ⟨_, hq⟩).2 _ hin', hposg', hposs', hdiv, hmod, List.getElem?_ofFn,
    dif_pos r.isLt, Option.bind_some, hback, List.set_set,
    List.set_comm _ _ hne, List.set_set, set_pos, set_pos]

theorem sliceIndex_neg_sub {size unpadded : Nat} (h : unpadded < size) :
    sliceIndex size (-((size : Int) - unpadded)) = unpadded := by
  rw [sliceIndex, if_pos (by omega)]
  omega

theorem dvd_add_padding (hn : 0 < n) (size : Nat) :
    n ∣ size + (n - size % n) % n := by
  have hdiv := Nat.div_add_mod size n
  have hmod := Nat.mod_lt size hn
  rcases Nat.eq_zero_or_pos (size % n) with hzero | hpos
  · rw [hzero, Nat.sub_zero, Nat.mod_self, Nat.add_zero]
    exact Nat.dvd_of_mod_eq_zero hzero
  · rw [Nat.mod_eq_of_lt (a := n - _) (by omega)]
    refine ⟨size / n + 1, ?_⟩
    rw [Nat.mul_succ]
    omega

/-- What `gather_heads_scatter_seq` exchanges. -/
theorem exists_padded (zero : α) (x : NdArray α) {dim : Nat}
    (hn : 0 < n) (hdim : dim < x.shape.length) :
    ∃ y, padToDivide zero n x dim = .ok y ∧
      y.shape = x.shape.set dim (y.size dim) ∧ n ∣ y.size dim ∧
      y.size dim = x.size dim + (n - x.size dim % n) % n ∧
      y.slice dim 0 (x.size dim) = x := by
  have hmod := Nat.mod_lt (x.size dim) hn
  by_cases hpad : x.size dim % n ≠ 0
  · have hsize : (full (x.shape.set dim (n - x.size dim % n)) zero).size dim =
        n - x.size dim % n := by
      rw [size, full, pos_set_self hdim]
    have hfits : Fits dim x
        (full (x.shape.set dim (n - x.size dim % n)) zero) :=
      ⟨hdim, by rw [hsize, full]⟩
    have hsizeAppend : (append dim x _ hfits).size dim =
        x.size dim + (n - x.size dim % n) := by
      rw [size, shape_append, pos_set_self hdim, hsize]
    have hsingle : cat? dim [full (x.shape.set dim (n - x.size dim % n))
        zero] = some _ := if_pos (by simpa only [full, List.length_set])
    refine ⟨append dim x _ hfits, ?_, ?_, ?_, ?_, slice_append_left hfits⟩
    · rw [padToDivide, if_pos hpad, padTensor, torchCat,
        cat?_cons_of_some (List.cons_ne_nil _ _) hsingle hfits]
    · rw [hsizeAppend, shape_append, hsize]
    · have hdvd := dvd_add_padding hn (x.size dim)
      rw [Nat.mod_eq_of_lt (a := n - _) (by omega)] at hdvd
      rwa [hsizeAppend]
    · rw [hsizeAppend, Nat.mod_eq_of_lt (a := n - _) (by omega)]
  · have hzero : x.size dim % n = 0 := by omega
    refine ⟨x, if_neg hpad, by rw [size, set_pos],
      Nat.dvd_of_mod_eq_zero hzero, ?_, slice_all hdim (Nat.le_refl _)⟩
    rw [hzero, Nat.sub_zero, Nat.mod_self, Nat.add_zero]

/-- Padding, exchange, exchange back and unpadding leave every rank what it
had. -/
theorem gatherHeads_gatherSeq (zero : α) (hn : 0 < n)
    (hshape : ∀ r, (x r).shape = shape) (hs : s < shape.length)
    (hg : g < shape.length) (hne : s ≠ g) :
    (do let y ← gatherHeadsScatterSeq zero x g s
        gatherSeqScatterHeads y s g (pos shape s)) = .ok x := by
  have hsize : ∀ r, (x r).size s = pos shape s := fun r => by
    rw [size, hshape r]
  choose xp hxp hxpshape hxpdvd hxpsize hxpslice using fun r : Fin n =>
    exists_padded zero (x r) r.pos (by rw [hshape r]; exact hs)
  have hpadded : ∀ r, (xp r).shape = shape.set s
      (pos shape s + (n - pos shape s % n) % n) := fun r => by
    rw [hxpshape r, hxpsize r, hshape r, hsize r]
  have hdvd : n ∣ pos (shape.set s
      (pos shape s + (n - pos shape s % n) % n)) s := by
    have h0 := hxpdvd ⟨0, hn⟩
    rwa [size, hpadded] at h0
  obtain ⟨y, hy, hyget⟩ := exists_allToAllTensor hpadded
    (by rwa [List.length_set]) (by rwa [List.length_set]) hne hdvd
  have hback := allToAllTensor_inverse hpadded (by rwa [List.length_set])
    (by rwa [List.length_set]) hne hdvd hy
  have htab : (tabulateM fun rank => padToDivide zero n (x rank) s) =
      .ok xp := tabulateM_eq_ok.mpr hxp
  rw [gatherHeadsScatterSeq, htab, ok_bind, hy, ok_bind,
    gatherSeqScatterHeads, hback, ok_bind]
  congr 1
  funext r
  have hslice := hxpslice r
  rw [hsize r] at hslice
  have hxpsize' := hxpsize r
  rw [hsize r] at hxpsize'
  split
  · rename_i hpad
    have hmod := Nat.mod_lt (pos shape s) hn
    rw [Nat.mod_eq_of_lt (a := n - _) (by omega)] at hxpsize'
    rw [unpadTensor, sliceIndex_neg_sub (by omega), hslice]
  · rename_i hpad
    rw [not_and_or, not_not, not_not] at hpad
    have hzero : pos shape s % n = 0 := by
      rcases hpad with hzero | hzero
      · rw [hzero, Nat.zero_mod]
      · exact hzero
    rw [hzero, Nat.sub_zero, Nat.mod_self, Nat.add_zero] at hxpsize'
    rw [← hslice]
    exact (slice_all (by rw [hpadded, List.length_set]; exact hs)
      (Nat.le_of_eq hxpsize')).symm

/-- The other way round, on a length that divides. -/
theorem gatherSeq_gatherHeads (zero : α) (hshape : ∀ r, (x r).shape = shape)
    (hs : s < shape.length) (hg : g < shape.length) (hne : s ≠ g)
    (hdvd : n ∣ pos shape g) :
    (do let y ← gatherSeqScatterHeads x s g (n * pos shape s)
        gatherHeadsScatterSeq zero y g s) = .ok x := by
  obtain ⟨y, hy, hyget⟩ := exists_allToAllTensor hshape hg hs (Ne.symm hne)
    hdvd
  have hback := allToAllTensor_inverse hshape hg hs (Ne.symm hne) hdvd hy
  have hunpad : ¬ (n * pos shape s ≠ 0 ∧ n * pos shape s % n ≠ 0) := by
    rw [Nat.mul_mod_right]
    exact fun h => h.2 rfl
  have htab : (tabulateM fun rank => padToDivide zero n (y rank) s) =
      .ok y := by
    refine tabulateM_eq_ok.mpr fun r => if_neg ?_
    have hsize : (y r).size s = n * pos shape s := by
      rw [size, (hyget r).1, pos_set_self (by rwa [List.length_set])]
    rw [hsize, Nat.mul_mod_right]
    exact fun h => h rfl
  rw [gatherSeqScatterHeads, hy, ok_bind]
  simp only [hunpad, if_false]
  rw [pure_bind, gatherHeadsScatterSeq, htab, ok_bind, hback]

end RoundTrip

section Gathered

theorem ofFn_eq_map_range {γ : Type} (f : Nat → γ) :
    (List.ofFn fun i : Fin n => f i) = (List.range n).map f := by
  apply List.ext_getElem?
  intro i
  rw [List.getElem?_ofFn, List.getElem?_map]
  by_cases hi : i < n
  · rw [dif_pos hi, List.getElem?_range hi, Option.map_some]
  · rw [dif_neg hi, List.getElem?_eq_none (by rw [List.length_range]; omega),
      Option.map_none]

theorem chunks_of_multiple {m : Nat} (hn : 0 < n) (hm : 0 < m) :
    max ((n * m + m - 1) / m) 1 = n := by
  have hdiv : (n * m + m - 1) / m = n := by
    rw [Nat.add_sub_assoc hm, Nat.add_comm, Nat.add_mul_div_right _ _ hm,
      Nat.div_eq_of_lt (by omega), Nat.zero_add]
  rw [hdiv]
  omega

/-- Gathering even pieces of a tensor gives every rank the tensor, on the
first axis and, where there is a first axis to split, on every other. -/
theorem gather_slices (hn : 0 < n) {y : NdArray α} {d k : Nat}
    (hd : d < y.shape.length) (hsize : y.size d = n * k)
    (hfirst : d = 0 ∨ 0 < y.size 0) :
    gather (fun r : Fin n => y.slice d (r * k) ((r + 1) * k)) d =
      .ok fun _ => y := by
  have hlocal : ∀ r : Fin n, (y.slice d (r * k) ((r + 1) * k)).shape =
      y.shape.set d k := by
    intro r
    have hle : (r + 1) * k ≤ y.size d := hsize ▸ Nat.mul_le_mul_right k r.isLt
    rw [shape_slice, Nat.min_eq_left hle, Nat.succ_mul,
      Nat.add_sub_cancel_left]
  have hwhole : cat? d (List.ofFn fun r : Fin n =>
      y.slice d (r * k) ((r + 1) * k)) = some y := by
    have hpieces := pieces_replicate (x := y) (d := d) 0 n k
    simp only [Nat.zero_add] at hpieces
    rw [ofFn_eq_map_range fun i => y.slice d (i * k) ((i + 1) * k), ← hpieces,
      cat?_pieces hd (by
        rw [ne_eq, List.replicate_eq_nil_iff]
        omega), List.sum_replicate, smul_eq_mul, Nat.zero_add,
      slice_all hd (Nat.le_of_eq hsize)]
  refine tabulateM_eq_ok.mpr fun rank => ?_
  have hall : ((List.ofFn fun r : Fin n =>
      y.slice d (r * k) ((r + 1) * k)).all fun output =>
        output.shape == (y.slice d (rank * k) ((rank + 1) * k)).shape) =
      true := by
    rw [List.all_eq_true]
    intro t ht
    obtain ⟨r, rfl⟩ := List.mem_ofFn.mp ht
    rw [hlocal, hlocal, beq_self_eq_true]
  have hmem : ∀ t ∈ List.ofFn fun r : Fin n =>
      y.slice d (r * k) ((r + 1) * k), t.shape = y.shape.set d k := by
    intro t ht
    obtain ⟨r, rfl⟩ := List.mem_ofFn.mp ht
    exact hlocal r
  have hlength : 0 < y.shape.length := Nat.lt_of_le_of_lt (Nat.zero_le _) hd
  obtain ⟨output, houtput, hshape, -⟩ := exists_cat?
    (List.ne_nil_of_length_pos (by rw [List.length_ofFn]; exact hn)) hmem
    (by rwa [List.length_set] : 0 < _)
  rw [allGatherTensor, if_pos hall, torchCat, houtput, ok_bind]
  have hfirstSize : (y.slice d (rank * k) ((rank + 1) * k)).size 0 =
      pos (y.shape.set d k) 0 := by rw [size, hlocal]
  have hlengthSet : 0 < (y.shape.set d k).length := by
    rwa [List.length_set]
  rcases Nat.eq_zero_or_pos (pos (y.shape.set d k) 0) with hzero | hm
  · -- nothing to split: the gathered tensor is the whole one
    have hd0 : d = 0 := by
      rcases hfirst with hd0 | hpos
      · exact hd0
      · by_contra hne
        rw [pos_set_of_ne hne] at hzero
        rw [size] at hpos
        omega
    subst hd0
    cases houtput.symm.trans hwhole
    rw [hfirstSize, hzero, torchSplit, if_pos rfl, torchCat, cat?, if_pos hd]
  · have hsplit : torchSplit output (pos (y.shape.set d k) 0) 0 =
        List.ofFn fun r : Fin n => y.slice d (r * k) ((r + 1) * k) := by
      have hoputputSize : output.size 0 = n * pos (y.shape.set d k) 0 := by
        rw [size, hshape, pos_set_self hlengthSet, List.length_ofFn]
      rw [torchSplit, if_neg (Nat.ne_of_gt hm), hoputputSize]
      simp only
      rw [chunks_of_multiple hn hm,
        ofFn_eq_map_range fun i => y.slice d (i * k) ((i + 1) * k)]
      apply List.map_congr_left
      intro i hi
      rw [List.mem_range] at hi
      apply slice_of_cat? hmem hlengthSet houtput
      rw [List.getElem?_ofFn, dif_pos hi]
    rw [hfirstSize, hsplit, torchCat, hwhole]

/-- `[[v0, v1, ...]]` -/
def rowLayout : NdArray.Layout := ⟨[1], []⟩

def ofRow (values : List α) : NdArray α :=
  rowLayout.along (values.map fun value _ => value)

/-- The first row of a tensor with two axes. -/
def row (x : NdArray α) : List α :=
  (List.range (x.size 1)).filterMap fun i => x.get? [0, i]

theorem inBounds_row {k : Nat} {idx : List Nat} :
    InBounds [1, k] idx ↔ ∃ i < k, idx = [0, i] := by
  constructor
  · rintro ⟨hlength, hpos⟩
    match idx, hlength with
    | [j, i], _ =>
        have hj : j < 1 := hpos 0 Nat.two_pos
        have hi : i < k := hpos 1 Nat.one_lt_two
        exact ⟨i, hi, by rw [Nat.lt_one_iff.mp hj]⟩
  · rintro ⟨i, hi, rfl⟩
    refine ⟨rfl, fun d hd => ?_⟩
    match d with
    | 0 => exact Nat.one_pos
    | 1 => exact hi
    | d + 2 => exact absurd hd (by simp)

theorem shape_ofRow (values : List α) :
    (ofRow values).shape = [1, values.length] := by
  rw [ofRow, NdArray.Layout.shape_along, List.length_map]
  rfl

theorem size_ofRow (values : List α) :
    (ofRow values).size 1 = values.length := by
  rw [size, shape_ofRow]
  rfl

theorem get?_ofRow {values : List α} {i : Nat} (hi : i < values.length) :
    (ofRow values).get? [0, i] = some values[i] := by
  have hin : InBounds (rowLayout.shape (values.map
      fun value (_ : List Nat) => value).length) [0, i] := by
    rw [List.length_map]
    exact inBounds_row.mpr ⟨i, hi, rfl⟩
  rw [ofRow, NdArray.Layout.along]
  simp only [hin, if_true]
  change ((values.map fun value (_ : List Nat) => value)[i]?).map _ = _
  rw [List.getElem?_map, List.getElem?_eq_getElem hi]
  rfl

theorem filterMap_getElem?_range (values : List α) :
    (List.range values.length).filterMap (fun i => values[i]?) = values := by
  induction values with
  | nil => rfl
  | cons value values ih =>
      rw [List.length_cons, List.range_succ_eq_map, List.filterMap_cons,
        List.filterMap_map]
      exact congrArg (value :: ·) ih

theorem row_ofRow (values : List α) : row (ofRow values) = values := by
  have hvalues : (List.range values.length).filterMap
      (fun i => (ofRow values).get? [0, i]) =
      (List.range values.length).filterMap fun i => values[i]? := by
    apply List.filterMap_congr
    intro i hi
    rw [List.mem_range] at hi
    rw [get?_ofRow hi, List.getElem?_eq_getElem hi]
  rw [row, size_ofRow, hvalues, filterMap_getElem?_range]

theorem slice_ofRow (values : List α) (start stop : Nat) :
    (ofRow values).slice 1 start stop =
      ofRow ((values.take stop).drop start) := by
  have hslice : (rowLayout.along (values.map fun value _ => value)).slice
      rowLayout.axis start stop = _ :=
    rowLayout.slice_along (values.map fun value _ => value)
  rw [← List.map_take, ← List.map_drop] at hslice
  exact hslice

theorem torchCat_ofRow (xs ys : List α) :
    torchCat 1 [ofRow xs, ofRow ys] = .ok (ofRow (xs ++ ys)) := by
  have hcat := rowLayout.cat?_along
    (xs.map fun value (_ : List Nat) => value) (ys.map fun value _ => value)
  rw [← List.map_append] at hcat
  have hrow : cat? 1 [ofRow xs, ofRow ys] = some (ofRow (xs ++ ys)) := hcat
  rw [torchCat, hrow]

theorem full_ofRow (values : List α) (count : Nat) (a : α) :
    full ((ofRow values).shape.set 1 count) a =
      ofRow (List.replicate count a) := by
  have hshape : (ofRow values).shape.set 1 count = [1, count] := by
    rw [shape_ofRow]
    rfl
  have hshape' : (ofRow (List.replicate count a)).shape = [1, count] := by
    rw [shape_ofRow, List.length_replicate]
  apply ext_inBounds (hshape.trans hshape'.symm)
  intro idx hin
  rw [full] at hin ⊢
  simp only [hin, if_true]
  rw [hshape, inBounds_row] at hin
  obtain ⟨i, hi, rfl⟩ := hin
  rw [get?_ofRow (by rwa [List.length_replicate]), List.getElem_replicate]

theorem padPosIds_ofRow (positions : List Nat) (padSize : Nat) :
    padPosIds (ofRow positions) padSize = ofRow (List.range padSize) := by
  have hshape : (ofRow positions).shape.set
      ((ofRow positions).shape.length - 1) padSize = [1, padSize] := by
    rw [shape_ofRow]
    rfl
  have hshape' : (ofRow (List.range padSize)).shape = [1, padSize] := by
    rw [shape_ofRow, List.length_range]
  apply ext_inBounds (hshape.trans hshape'.symm)
  intro idx hin
  have hrow : InBounds [1, padSize] idx := by
    rw [← hshape]
    exact hin
  obtain ⟨i, hi, rfl⟩ := inBounds_row.mp hrow
  rw [get?_ofRow (by rwa [List.length_range]), List.getElem_range]
  refine (if_pos hin).trans ?_
  rw [shape_ofRow]
  rfl

theorem padTensor_ofRow (padValue : α) (tokens : List α) (padSize : Nat) :
    padTensor padValue (ofRow tokens) 1 padSize =
      .ok (ofRow (tokens ++ List.replicate padSize padValue)) := by
  rw [padTensor, full_ofRow, torchCat_ofRow]

theorem padPositionIds_ofRow (padSize : Nat)
    (positions : Option (List Nat)) :
    padPositionIds padSize (positions.map ofRow) =
      .ok (positions.map fun p => ofRow (p ++ List.range padSize)) := by
  cases positions with
  | none => rfl
  | some p =>
      have hlast : (ofRow p).shape.length - 1 = 1 := by
        rw [shape_ofRow]
        rfl
      rw [Option.map_some, padPositionIds, hlast, padPosIds_ofRow,
        torchCat_ofRow]
      rfl

theorem checkPositionIds_ofRow {tokens : List α}
    {positions : Option (List Nat)}
    (hlength : ∀ p ∈ positions, p.length = tokens.length) :
    checkPositionIds (ofRow tokens) (positions.map ofRow) = .ok () := by
  cases positions with
  | none => rfl
  | some p =>
      have hp := hlength p rfl
      simp only [Option.map_some, checkPositionIds, shape_ofRow, size,
        List.length_cons, List.length_nil]
      simp [pos, hp, pyAssert, bind, Except.bind]

/-- The sequence and its position ids, padded to a multiple. -/
theorem ulyssesPad_ofRow (hn : 0 < n) (padValue : α) {tokens : List α}
    {positions : Option (List Nat)}
    (hlength : ∀ p ∈ positions, p.length = tokens.length) :
    ulyssesPad (ofRow tokens) (positions.map ofRow) n padValue =
      .ok (ofRow (tokens ++
          List.replicate ((n - tokens.length % n) % n) padValue),
        positions.map fun p =>
          ofRow (p ++ List.range ((n - tokens.length % n) % n)),
        (n - tokens.length % n) % n) := by
  have hnone : (n - tokens.length % n) % n = 0 →
      ofRow (tokens ++ List.replicate ((n - tokens.length % n) % n) padValue) =
        ofRow tokens ∧
      (positions.map fun p =>
        ofRow (p ++ List.range ((n - tokens.length % n) % n))) =
        positions.map ofRow := by
    intro hzero
    simp [hzero]
  rw [ulyssesPad, checkPositionIds_ofRow hlength, ok_bind]
  split
  · rename_i hle
    obtain rfl : n = 1 := by omega
    have hzero : (1 - tokens.length % 1) % 1 = 0 := Nat.mod_one _
    rw [(hnone hzero).1, (hnone hzero).2, hzero]
  · rw [if_neg (by rw [shape_ofRow]; exact fun h => h rfl), size_ofRow]
    simp only
    split
    · rw [padInputs, padTensor_ofRow, ok_bind, padPositionIds_ofRow, ok_bind]
      rfl
    · rename_i hpad
      have hzero : (n - tokens.length % n) % n = 0 := by omega
      rw [(hnone hzero).1, (hnone hzero).2]

/-- What the ranks get is the padded sequence, piece by piece. -/
theorem ulyssesPadAndSliceInputs_ofRow (hn : 0 < n) (rank : Nat)
    (padValue : α) {tokens : List α} {positions : Option (List Nat)}
    (hlength : ∀ p ∈ positions, p.length = tokens.length) {padSize k : Nat}
    (hpad : padSize = (n - tokens.length % n) % n)
    (hk : k = (tokens.length + padSize) / n) :
    ulyssesPadAndSliceInputs n rank (ofRow tokens) (positions.map ofRow) n
      false padValue =
      .ok (ofRow (((tokens ++ List.replicate padSize padValue).take
          ((rank + 1) * k)).drop (rank * k)),
        positions.map fun p => ofRow (((p ++ List.range padSize).take
          ((rank + 1) * k)).drop (rank * k)), padSize) := by
  rw [ulyssesPadAndSliceInputs, ulyssesPad_ofRow hn padValue hlength, ← hpad,
    ok_bind]
  simp only [sliceInputTensor, Bool.false_eq_true, if_false, ok_bind,
    size_ofRow, List.length_append, List.length_replicate, ← hk, pure_bind,
    slice_ofRow]
  cases positions with
  | none => rfl
  | some p =>
      have hp := hlength p rfl
      simp only [Option.map_some, slicePositionIds, Bool.false_eq_true,
        if_false, sliceInputTensor, ok_bind, size_ofRow, List.length_append,
        List.length_range, hp, ← hk, slice_ofRow]
      rfl

/-- What a position-wise function makes of each token and its position id. -/
def outputs (f : α → Option Nat → List Nat → β) (tokens : List α) :
    Option (List Nat) → List (List Nat → β)
  | none => tokens.map fun token => f token none
  | some positions =>
      List.zipWith (fun token position => f token (some position)) tokens
        positions

/-- A rank's output, its sequence axis where the layout has it. -/
def positionwise (l : NdArray.Layout) (f : α → Option Nat → List Nat → β)
    (inputIds : NdArray α) (positionIds : Option (NdArray Nat)) :
    NdArray β :=
  l.along (outputs f (row inputIds) (positionIds.map row))

theorem outputs_window (f : α → Option Nat → List Nat → β) (tokens : List α)
    (positions : Option (List Nat)) (start stop : Nat) :
    outputs f ((tokens.take stop).drop start)
        (positions.map fun p => (p.take stop).drop start) =
      ((outputs f tokens positions).take stop).drop start := by
  cases positions with
  | none =>
      simp only [Option.map_none, outputs, List.map_take, List.map_drop]
  | some p =>
      simp only [Option.map_some, outputs, List.take_zipWith,
        List.drop_zipWith]

theorem length_outputs (f : α → Option Nat → List Nat → β) {tokens : List α}
    {positions : Option (List Nat)}
    (hlength : ∀ p ∈ positions, p.length = tokens.length) :
    (outputs f tokens positions).length = tokens.length := by
  cases positions with
  | none => rw [outputs, List.length_map]
  | some p => rw [outputs, List.length_zipWith, hlength p rfl, Nat.min_self]

/-- The padding comes last. -/
theorem take_outputs_append (f : α → Option Nat → List Nat → β)
    {tokens : List α} {positions : Option (List Nat)}
    (hlength : ∀ p ∈ positions, p.length = tokens.length) (more : List α)
    (morePositions : List Nat) :
    (outputs f (tokens ++ more) (positions.map (· ++ morePositions))).take
        tokens.length = outputs f tokens positions := by
  have hwindow := outputs_window f (tokens ++ more)
    (positions.map (· ++ morePositions)) 0 tokens.length
  rw [List.drop_zero, List.drop_zero, List.take_left,
    Option.map_map] at hwindow
  rw [← hwindow]
  congr 1
  cases positions with
  | none => rfl
  | some p =>
      rw [Option.map_some, Function.comp_apply, List.drop_zero,
        ← hlength p rfl, List.take_left]

/-- A sequence with position ids or without. -/
structure Sequence (α : Type) where
  tokens : List α
  positions : Option (List Nat)
  length_positions : ∀ p ∈ positions, p.length = tokens.length

/-- Where the sequence axis of an output lies; an axis before it has at least
one position. -/
structure OutputLayout extends NdArray.Layout where
  before_pos : ∀ size ∈ before, 0 < size

theorem OutputLayout.first (l : OutputLayout)
    (values : List (List Nat → β)) :
    l.axis = 0 ∨ 0 < (l.along values).size 0 := by
  obtain ⟨⟨before, after⟩, hbefore⟩ := l
  cases before with
  | nil => exact .inl rfl
  | cons size before => exact .inr (hbefore size (List.mem_cons_self ..))

/-- The outputs of the padded pieces, gathered and unpadded, are the output of
the whole sequence. -/
theorem gatherOutputs_positionwise (hn : 0 < n) (q : Sequence α)
    (l : OutputLayout) (f : α → Option Nat → List Nat → β) (padValue : α) :
    ∃ (ids : Fin n → NdArray α) (positionIds : Fin n → Option (NdArray Nat))
      (padSize : Nat),
      (∀ r : Fin n, ulyssesPadAndSliceInputs n r (ofRow q.tokens)
        (q.positions.map ofRow) n false padValue =
          .ok (ids r, positionIds r, padSize)) ∧
      gatherOutputsAndUnpad
          (fun r => positionwise l.toLayout f (ids r) (positionIds r)) l.axis
          (some l.axis) padSize =
        .ok fun _ => positionwise l.toLayout f (ofRow q.tokens)
          (q.positions.map ofRow) := by
  obtain ⟨padSize, hpad⟩ :
      ∃ padSize, padSize = (n - q.tokens.length % n) % n := ⟨_, rfl⟩
  obtain ⟨k, hk⟩ : ∃ k, k = (q.tokens.length + padSize) / n := ⟨_, rfl⟩
  refine ⟨_, _, _, fun r => ulyssesPadAndSliceInputs_ofRow hn r padValue
    q.length_positions hpad hk, ?_⟩
  have hdvd : n ∣ q.tokens.length + padSize :=
    hpad ▸ dvd_add_padding hn q.tokens.length
  have hlength : q.tokens.length + padSize = n * k := by
    rw [hk, Nat.mul_div_cancel' hdvd]
  obtain ⟨padded, hpadded⟩ : ∃ padded, padded = outputs f
      (q.tokens ++ List.replicate padSize padValue)
      (q.positions.map (· ++ List.range padSize)) := ⟨_, rfl⟩
  have hpaddedLength : padded.length = n * k := by
    rw [hpadded, length_outputs, List.length_append, List.length_replicate,
      hlength]
    intro p hp
    obtain ⟨p', hp', rfl⟩ := Option.mem_map.mp hp
    rw [List.length_append, List.length_append, List.length_replicate,
      List.length_range, q.length_positions p' hp']
  have hpiece : ∀ r : Nat, positionwise l.toLayout f
      (ofRow (((q.tokens ++ List.replicate padSize padValue).take
        ((r + 1) * k)).drop (r * k)))
      (q.positions.map fun p => ofRow (((p ++ List.range padSize).take
        ((r + 1) * k)).drop (r * k))) =
      (l.along padded).slice l.axis (r * k) ((r + 1) * k) := by
    intro r
    rw [l.slice_along, positionwise, row_ofRow, Option.map_map]
    simp only [Function.comp_def, row_ofRow]
    rw [hpadded, ← outputs_window, Option.map_map]
    rfl
  have hsize : (l.along padded).size l.axis = n * k := by
    rw [size, l.shape_along, l.pos_shape, hpaddedLength]
  simp only [hpiece]
  rw [gatherOutputsAndUnpad, gather_slices hn (l.axis_lt _) hsize
    (l.first padded), ok_bind]
  refine congrArg Except.ok (funext fun _ => ?_)
  have hwhole : positionwise l.toLayout f (ofRow q.tokens)
      (q.positions.map ofRow) = l.along (padded.take q.tokens.length) := by
    rw [hpadded, take_outputs_append f q.length_positions, positionwise,
      row_ofRow, Option.map_map]
    simp only [Function.comp_def, row_ofRow, Option.map_id']
  split
  · rename_i hzero
    rw [hwhole, List.take_of_length_le (by omega)]
  · rename_i hpos
    have hstop : sliceIndex (n * k) (-(padSize : Int)) =
        q.tokens.length := by
      rw [sliceIndex, if_pos (by omega)]
      omega
    rw [hwhole, unpadTensor, hsize, hstop, l.slice_along, List.drop_zero]

end Gathered

/-- Every rank's tensor, all of one shape, with its sequence axis and its head
axis. -/
structure RankTensors (α : Type) (n : Nat) where
  tensor : Fin n → NdArray α
  shape : List Nat
  seqDim : Nat
  headDim : Nat
  shape_eq : ∀ r, (tensor r).shape = shape
  seqDim_lt : seqDim < shape.length
  headDim_lt : headDim < shape.length
  seqDim_ne : seqDim ≠ headDim

end Ulysses

open Ulysses NdArray

/-- Sequence parallelism loses nothing: the two exchanges are inverse to each
other in both orders, and pieces worked on position by position come back as
the whole sequence. -/
theorem ulysses_lossless {α β : Type} {n : Nat} (hn : 0 < n) (zero : α) :
    (∀ w : RankTensors α n,
      (do let y ← gatherHeadsScatterSeq zero w.tensor w.headDim w.seqDim
          gatherSeqScatterHeads y w.seqDim w.headDim
            (pos w.shape w.seqDim)) = .ok w.tensor) ∧
    (∀ w : RankTensors α n, n ∣ pos w.shape w.headDim →
      (do let y ← gatherSeqScatterHeads w.tensor w.seqDim w.headDim
            (n * pos w.shape w.seqDim)
          gatherHeadsScatterSeq zero y w.headDim w.seqDim) =
        .ok w.tensor) ∧
    ∀ (q : Ulysses.Sequence α) (l : OutputLayout)
      (f : α → Option Nat → List Nat → β) (padValue : α),
      ∃ (ids : Fin n → NdArray α) (positionIds : Fin n → Option (NdArray Nat))
        (padSize : Nat),
        (∀ r : Fin n, ulyssesPadAndSliceInputs n r (ofRow q.tokens)
          (q.positions.map ofRow) n false padValue =
            .ok (ids r, positionIds r, padSize)) ∧
        gatherOutputsAndUnpad
            (fun r => positionwise l.toLayout f (ids r) (positionIds r))
            l.axis (some l.axis) padSize =
          .ok fun _ => positionwise l.toLayout f (ofRow q.tokens)
            (q.positions.map ofRow) :=
  ⟨fun w => gatherHeads_gatherSeq zero hn w.shape_eq w.seqDim_lt
      w.headDim_lt w.seqDim_ne,
    fun w hdvd => gatherSeq_gatherHeads zero w.shape_eq w.seqDim_lt
      w.headDim_lt w.seqDim_ne hdvd,
    fun q l f padValue => gatherOutputs_positionwise hn q l f padValue⟩

/-- Two ranks with two heads each of three tokens. -/
def threeTokens : RankTensors Nat 2 where
  tensor r := NdArray.Layout.along ⟨[2], []⟩
    [fun idx => 100 * r + 10 * pos idx 0,
      fun idx => 100 * r + 10 * pos idx 0 + 1,
      fun idx => 100 * r + 10 * pos idx 0 + 2]
  shape := [2, 3]
  seqDim := 1
  headDim := 0
  shape_eq _ := rfl
  seqDim_lt := Nat.one_lt_two
  headDim_lt := Nat.two_pos
  seqDim_ne := Nat.one_ne_zero

theorem ulysses_lossless_threeTokens :
    (do let y ← gatherHeadsScatterSeq 0 threeTokens.tensor 0 1
        gatherSeqScatterHeads y 1 0 3) = .ok threeTokens.tensor ∧
    (do let y ← gatherSeqScatterHeads threeTokens.tensor 1 0 6
        gatherHeadsScatterSeq 0 y 0 1) = .ok threeTokens.tensor :=
  ⟨(@ulysses_lossless Nat Nat 2 Nat.two_pos 0).1 threeTokens,
    (@ulysses_lossless Nat Nat 2 Nat.two_pos 0).2.1 threeTokens (by decide)⟩

end SelfDistillation
