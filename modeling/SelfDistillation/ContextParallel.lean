/-
`preprocess_packed_seqs` and `postprocess_packed_seqs`
(verl/models/mcore/util.py): sequences packed for context parallel ranks, each
of which has two chunks of every sequence, and put together again.
-/
import SelfDistillation.Library.Packing
import SelfDistillation.Library.SliceAssign
import SelfDistillation.Python

namespace SelfDistillation.ContextParallel

open Finset Packing TryLoop

variable {α β : Type}

/-- The sizes of the tensor and context parallel groups. -/
structure ParallelState where
  tpSize : ℕ
  cpSize : ℕ
  tp_pos : 0 < tpSize
  cp_pos : 0 < cpSize

/-- `tensor[start:stop] = src` -/
def assign (x : Vec α) (start stop : ℕ) (src : Vec α) : Py (Vec α) :=
  match x.assign? start stop src with
  | some y => .ok y
  | none => .error (.runtimeError
      "The expanded size of the tensor must match the existing size")

section Alignment

variable (par : ParallelState) (useFp8Padding : Bool)

/-- `align_size` before FP8. -/
def baseAlign : ℕ :=
  if 1 < par.cpSize then par.tpSize * par.cpSize * 2 else par.tpSize

/-- `_compute_fp8_thd_align_size` -/
def computeFp8ThdAlignSize (alignSize : ℕ) : ℕ × ℕ :=
  (Nat.lcm 16 alignSize, alignSize * 128)

/-- `align_size` -/
def alignSize : ℕ :=
  if useFp8Padding then (computeFp8ThdAlignSize (baseAlign par)).1
  else baseAlign par

/-- `(size - n % size) % size` -/
def padSize (size n : ℕ) : ℕ := (size - n % size) % size

/-- `seqlens_in_batch_padded`: the last sequence also has the padding of the
whole batch. -/
def seqlensPadded (batchSize : ℕ) (seqlens : ℕ → ℕ) (i : ℕ) : ℕ :=
  let padded := fun i => seqlens i + padSize (alignSize par useFp8Padding)
    (seqlens i)
  if useFp8Padding ∧ i + 1 = batchSize then
    padded i + padSize (computeFp8ThdAlignSize (baseAlign par)).2
      (∑ j ∈ range batchSize, padded j)
  else padded i

/-- `cu_seqlens_padded` -/
def cuSeqlensPadded (batchSize : ℕ) (seqlens : ℕ → ℕ) (i : ℕ) : ℕ :=
  ∑ j ∈ range i, seqlensPadded par useFp8Padding batchSize seqlens j

end Alignment

/-- `PackedSeqParams` -/
structure PackedSeqParams where
  cuSeqlensQPadded : ℕ → ℕ
  maxSeqlenQ : ℕ

/-- What a rank writes for one sequence. -/
def packSequence (cpSize cpRank : ℕ) (cuStart seqlenPadded : ℕ) (d : Vec α)
    (inputIdsRmpad : Vec α) : Py (Vec α) :=
  if cpSize ≤ 1 then
    assign inputIdsRmpad cuStart (cuStart + d.size) d
  else do
    let seqlen := seqlenPadded / cpSize
    let halfSeqlen := seqlen / 2
    let startIdx := cuStart / cpSize
    let inputIdsRmpad ← assign inputIdsRmpad startIdx (startIdx + halfSeqlen)
      (d.slice (halfSeqlen * cpRank) (halfSeqlen * (cpRank + 1)))
    let remainStart := seqlenPadded - halfSeqlen * (cpRank + 1)
    let remainEnd := min (seqlenPadded - halfSeqlen * cpRank) d.size
    let remainLen := remainEnd - remainStart
    if 0 < remainLen then
      assign inputIdsRmpad (startIdx + halfSeqlen)
        (startIdx + halfSeqlen + remainLen) (d.slice remainStart remainEnd)
    else return inputIdsRmpad

/-- `preprocess_packed_seqs` on a rank, from the attended tokens of each
sequence. -/
def preprocessPackedSeqs (par : ParallelState) (useFp8Padding : Bool)
    (zero : α) (cpRank batchSize : ℕ) (attended : ℕ → Vec α) :
    Py (Vec α × PackedSeqParams) :=
  let seqlens := fun i => (attended i).size
  let padded := seqlensPadded par useFp8Padding batchSize seqlens
  let cuPadded := cuSeqlensPadded par useFp8Padding batchSize seqlens
  if batchSize = 0 then
    if useFp8Padding then .error .indexError
    else .error (.valueError "max() iterable argument is empty")
  else do
    let maxSeqlen := (range batchSize).sup padded
    let size := (∑ i ∈ range batchSize, padded i) / par.cpSize
    let inputIdsRmpad ← tryRange batchSize ⟨size, fun _ => zero⟩ fun i =>
      packSequence par.cpSize cpRank (cuPadded i) (padded i) (attended i)
    return (inputIdsRmpad, ⟨cuPadded, maxSeqlen⟩)

/-- What `postprocess_packed_seqs` takes of the gathered outputs for one
sequence; `empty` is what `torch.empty` finds. -/
def unpackSequence (cpSize : ℕ) (outputList : ℕ → Vec β) (empty : ℕ → β)
    (cuStart cuStop sLen : ℕ) : Py (Vec β) :=
  if cpSize ≤ 1 then .ok ((outputList 0).slice cuStart (cuStart + sLen))
  else do
    let sLenPaddedChunk := (cuStop - cuStart) / cpSize
    let halfSeqlen := sLenPaddedChunk / 2
    let sLenPadded := sLenPaddedChunk * cpSize
    let tmp ← tryRange cpSize (⟨sLenPadded, empty⟩ : Vec β) fun j tmp => do
      let o := outputList j
      let packedStartIdx := cuStart / cpSize
      let o0 := o.slice packedStartIdx (packedStartIdx + halfSeqlen)
      let o1 := o.slice (packedStartIdx + halfSeqlen)
        (packedStartIdx + sLenPaddedChunk)
      let tmp ← assign tmp (j * halfSeqlen) ((j + 1) * halfSeqlen) o0
      assign tmp (sLenPadded - (j + 1) * halfSeqlen)
        (sLenPadded - j * halfSeqlen) o1
    return tmp.slice 0 sLen

/-- `output_new[i, attention_mask[i]] = values`, on a row of zeros. -/
def assignMasked (zero : β) (mask : List Bool) (values : Vec β) :
    Py (List β) :=
  if values.size = mask.count true then .ok (unpack zero mask values.toList)
  else if values.size = 1 then
    .ok (mask.map fun b => if b then values.get 0 else zero)
  else .error (.runtimeError "shape mismatch")

/-- `postprocess_packed_seqs`: the rows of the result. -/
def postprocessPackedSeqs (par : ParallelState) (zero : β)
    (outputList : ℕ → Vec β) (empty : ℕ → ℕ → β)
    (params : PackedSeqParams) (batchSize : ℕ)
    (attentionMask : ℕ → List Bool) : Py (ℕ → List β) :=
  let zeros := fun i => List.replicate (attentionMask i).length zero
  tryRange batchSize zeros fun i rows => do
    let values ← unpackSequence par.cpSize outputList (empty i)
      (params.cuSeqlensQPadded i) (params.cuSeqlensQPadded (i + 1))
      ((attentionMask i).count true)
    let row ← assignMasked zero (attentionMask i) values
    return Function.update rows i row

section Lengths

variable (par : ParallelState) (useFp8Padding : Bool)

theorem baseAlign_pos : 0 < baseAlign par := by
  have htp := par.tp_pos
  have hcp := par.cp_pos
  rw [baseAlign]
  split
  · exact Nat.mul_pos (Nat.mul_pos htp hcp) Nat.zero_lt_two
  · exact htp

theorem baseAlign_dvd : baseAlign par ∣ alignSize par useFp8Padding := by
  rw [alignSize]
  split
  · exact Nat.dvd_lcm_right 16 _
  · exact dvd_rfl

theorem alignSize_pos : 0 < alignSize par useFp8Padding := by
  rw [alignSize]
  split
  · exact Nat.lcm_pos (by decide) (baseAlign_pos par)
  · exact baseAlign_pos par

/-- A length with its padding is a multiple of the alignment. -/
theorem dvd_add_padSize {size : ℕ} (hsize : 0 < size) (n : ℕ) :
    size ∣ n + padSize size n := by
  have hmod := Nat.mod_lt n hsize
  rw [padSize, Nat.dvd_iff_mod_eq_zero, Nat.add_mod, Nat.mod_mod]
  rcases Nat.eq_zero_or_pos (n % size) with hzero | hpos
  · simp [hzero]
  · rw [Nat.mod_eq_of_lt (show size - n % size < size by omega),
      Nat.add_sub_of_le hmod.le, Nat.mod_self]

variable (batchSize : ℕ) (seqlens : ℕ → ℕ)

theorem le_seqlensPadded (i : ℕ) :
    seqlens i ≤ seqlensPadded par useFp8Padding batchSize seqlens i := by
  rw [seqlensPadded]
  split
  · exact Nat.le_add_right_of_le (Nat.le_add_right _ _)
  · exact Nat.le_add_right _ _

/-- Every padded length is a multiple of the alignment, that of the last
sequence under FP8 because the whole batch is one. -/
theorem alignSize_dvd_seqlensPadded (i : ℕ) : alignSize par useFp8Padding ∣
    seqlensPadded par useFp8Padding batchSize seqlens i := by
  have hpadded : ∀ j, alignSize par useFp8Padding ∣
      seqlens j + padSize (alignSize par useFp8Padding) (seqlens j) := fun j =>
    dvd_add_padSize (alignSize_pos par _) _
  rw [seqlensPadded]
  split
  case isTrue hlast =>
    apply dvd_add (hpadded i)
    have hpos : 0 < (computeFp8ThdAlignSize (baseAlign par)).2 :=
      Nat.mul_pos (baseAlign_pos par) (by decide)
    have htotal : alignSize par useFp8Padding ∣
        (computeFp8ThdAlignSize (baseAlign par)).2 := by
      rw [alignSize, if_pos hlast.1]
      exact Nat.lcm_dvd ((show 16 ∣ 128 by decide).mul_left _)
        (Nat.dvd_mul_right _ _)
    exact (Nat.dvd_add_right (Finset.dvd_sum fun j _ => hpadded j)).mp
      (htotal.trans (dvd_add_padSize hpos _))
  case isFalse => exact hpadded i

theorem baseAlign_dvd_seqlensPadded (i : ℕ) : baseAlign par ∣
    seqlensPadded par useFp8Padding batchSize seqlens i :=
  (baseAlign_dvd par useFp8Padding).trans
    (alignSize_dvd_seqlensPadded par useFp8Padding batchSize seqlens i)

end Lengths

section Zigzag

/-- The rank that has token `t` of a sequence, and its place in that rank's
share. -/
def home (cpSize seqlenPadded t : ℕ) : ℕ × ℕ :=
  let half := seqlenPadded / cpSize / 2
  if cpSize ≤ 1 then (0, t)
  else if t < half * cpSize then (t / half, t % half)
  else
    let rank := (seqlenPadded - 1 - t) / half
    (rank, half + (t - (seqlenPadded - half * (rank + 1))))

variable {cpSize cpRank cuStart seqlenPadded half t : ℕ}

/-- Chunks of one size on all ranks. -/
theorem half_add_half (hdvd : cpSize * 2 ∣ seqlenPadded) :
    seqlenPadded / cpSize / 2 * cpSize + seqlenPadded / cpSize / 2 * cpSize =
      seqlenPadded := by
  rw [Nat.div_div_eq_div_mul, ← Nat.mul_two, Nat.mul_assoc]
  exact Nat.div_mul_cancel hdvd

theorem share_eq (hdvd : cpSize * 2 ∣ seqlenPadded) :
    seqlenPadded / cpSize = 2 * (seqlenPadded / cpSize / 2) := by
  have htwo : 2 ∣ seqlenPadded / cpSize :=
    (Nat.dvd_div_iff_mul_dvd ((Nat.dvd_mul_right _ _).trans hdvd)).mpr hdvd
  exact (Nat.mul_div_cancel' htwo).symm

/-- A token in the first half of its sequence is in a first chunk. -/
theorem home_first (hcp : 1 < cpSize)
    (ht : t < seqlenPadded / cpSize / 2 * cpSize) :
    ∃ r q, home cpSize seqlenPadded t = (r, q) ∧ r < cpSize ∧
      q < seqlenPadded / cpSize / 2 ∧
      t = seqlenPadded / cpSize / 2 * r + q := by
  have hpos : 0 < seqlenPadded / cpSize / 2 :=
    Nat.pos_of_ne_zero fun h => by simp [h] at ht
  refine ⟨_, _, ?_, ?_, Nat.mod_lt t hpos, (Nat.div_add_mod t _).symm⟩
  · simp only [home, if_neg (Nat.not_le.mpr hcp), if_pos ht]
  · exact Nat.div_lt_of_lt_mul ht

/-- A token in the second half is in a second chunk, the last one on the
first rank. -/
theorem home_second (hcp : 1 < cpSize) (hdvd : cpSize * 2 ∣ seqlenPadded)
    (hfirst : ¬ t < seqlenPadded / cpSize / 2 * cpSize)
    (ht : t < seqlenPadded) :
    ∃ r q, home cpSize seqlenPadded t = (r, seqlenPadded / cpSize / 2 + q) ∧
      r < cpSize ∧ q < seqlenPadded / cpSize / 2 ∧
      t = seqlenPadded - seqlenPadded / cpSize / 2 * (r + 1) + q := by
  have hsum := half_add_half hdvd
  generalize hhalf : seqlenPadded / cpSize / 2 = half at hsum hfirst ⊢
  have hpos : 0 < half := by
    by_contra hzero
    obtain rfl : half = 0 := by omega
    simp at hsum
    omega
  have hlt : (seqlenPadded - 1 - t) / half < cpSize :=
    Nat.div_lt_of_lt_mul (by omega)
  have hle : half * ((seqlenPadded - 1 - t) / half + 1) ≤ half * cpSize :=
    Nat.mul_le_mul_left half hlt
  have hdiv := Nat.div_add_mod (seqlenPadded - 1 - t) half
  have hmod := Nat.mod_lt (seqlenPadded - 1 - t) hpos
  have hhome : home cpSize seqlenPadded t =
      ((seqlenPadded - 1 - t) / half, half + (t - (seqlenPadded -
        half * ((seqlenPadded - 1 - t) / half + 1)))) := by
    simp only [home, hhalf, if_neg (Nat.not_le.mpr hcp), if_neg hfirst]
  generalize (seqlenPadded - 1 - t) / half = r at hlt hle hdiv hhome
  rw [Nat.mul_add_one] at hle hhome
  refine ⟨r, _, hhome, hlt, by omega, ?_⟩
  rw [Nat.mul_add_one]
  omega

/-- The homes of the tokens of the first chunks. -/
theorem home_of_first {r q : ℕ} (hcp : 1 < cpSize) (hr : r < cpSize)
    (hq : q < seqlenPadded / cpSize / 2) :
    home cpSize seqlenPadded (seqlenPadded / cpSize / 2 * r + q) = (r, q) := by
  have hle : seqlenPadded / cpSize / 2 * (r + 1) ≤
      seqlenPadded / cpSize / 2 * cpSize := Nat.mul_le_mul_left _ hr
  rw [Nat.mul_add_one] at hle
  simp only [home, if_neg (Nat.not_le.mpr hcp)]
  rw [if_pos (by omega), Nat.mul_add_div (by omega), Nat.div_eq_of_lt hq,
    Nat.add_zero, Nat.mul_add_mod, Nat.mod_eq_of_lt hq]

/-- The homes of the tokens of the second chunks. -/
theorem home_of_second {r q : ℕ} (hcp : 1 < cpSize)
    (hdvd : cpSize * 2 ∣ seqlenPadded) (hr : r < cpSize)
    (hq : q < seqlenPadded / cpSize / 2) :
    home cpSize seqlenPadded
        (seqlenPadded - seqlenPadded / cpSize / 2 * (r + 1) + q) =
      (r, seqlenPadded / cpSize / 2 + q) := by
  have hsum := half_add_half hdvd
  have hhome : ∀ t, ¬ t < seqlenPadded / cpSize / 2 * cpSize →
      home cpSize seqlenPadded t = ((seqlenPadded - 1 - t) /
        (seqlenPadded / cpSize / 2), seqlenPadded / cpSize / 2 +
          (t - (seqlenPadded - seqlenPadded / cpSize / 2 *
            ((seqlenPadded - 1 - t) / (seqlenPadded / cpSize / 2) + 1)))) :=
    fun t ht => by
      simp only [home, if_neg (Nat.not_le.mpr hcp), if_neg ht]
  generalize seqlenPadded / cpSize / 2 = half at *
  have hle : half * (r + 1) ≤ half * cpSize := Nat.mul_le_mul_left _ hr
  rw [Nat.mul_add_one] at hle
  have hback : seqlenPadded - 1 - (seqlenPadded - half * (r + 1) + q) =
      half * r + (half - 1 - q) := by
    rw [Nat.mul_add_one]
    omega
  rw [hhome _ (by rw [Nat.mul_add_one]; omega), hback,
    Nat.mul_add_div (by omega), Nat.div_eq_of_lt (by omega), Nat.add_zero,
    Nat.add_sub_cancel_left]

/-- Every token has a home in the share of a rank. -/
theorem home_lt (hcp : 0 < cpSize)
    (hdvd : 1 < cpSize → cpSize * 2 ∣ seqlenPadded) (ht : t < seqlenPadded) :
    (home cpSize seqlenPadded t).1 < cpSize ∧
      (home cpSize seqlenPadded t).2 < seqlenPadded / cpSize := by
  rcases Nat.lt_or_ge 1 cpSize with hmany | hone
  · have hshare := share_eq (hdvd hmany)
    by_cases hfirst : t < seqlenPadded / cpSize / 2 * cpSize
    · obtain ⟨r, q, hhome, hr, hq, -⟩ := home_first hmany hfirst
      rw [hhome]
      exact ⟨hr, by dsimp only; omega⟩
    · obtain ⟨r, q, hhome, hr, hq, -⟩ :=
        home_second hmany (hdvd hmany) hfirst ht
      rw [hhome]
      exact ⟨hr, by dsimp only; omega⟩
  · obtain rfl : cpSize = 1 := by omega
    simpa [home] using ht

end Zigzag

section PackOne

variable {cpSize cpRank cuStart seqlenPadded : ℕ} {d x y : Vec α}

theorem assign_eq_ok {start stop : ℕ} {src : Vec α} :
    assign x start stop src = .ok y ↔ x.assign? start stop src = some y := by
  rw [assign]
  split
  · simp [*]
  · simp [*]

theorem exists_assign (start : ℕ) {stop : ℕ} (src : Vec α)
    (hstop : stop ≤ x.size) :
    (∃ y, assign x start stop src = .ok y) ↔
      src.size = stop - start ∨ src.size = 1 := by
  simp only [assign_eq_ok, ← Option.isSome_iff_exists, Vec.assign?_isSome,
    Vec.size_slice hstop]

/-- An assignment of as many entries as there are places. -/
theorem assigned_full {start stop : ℕ} {src : Vec α} (hle : start ≤ stop)
    (hstop : stop ≤ x.size) (hsize : src.size = stop - start) :
    ∃ y, assign x start stop src = .ok y ∧
      Vec.Assigned x start stop src y := by
  obtain ⟨y, hy⟩ := (exists_assign start src hstop).mpr (.inl hsize)
  exact ⟨y, hy, Vec.assigned_of_assign? hle hstop (assign_eq_ok.mp hy)⟩

/-- The first chunk of a rank is full, or one token fills it. -/
def FirstFits (cpSize cpRank seqlenPadded n : ℕ) : Prop :=
  let half := seqlenPadded / cpSize / 2
  let size := min (half * (cpRank + 1)) n - min (half * cpRank) n
  1 < cpSize → size = half ∨ size = 1

/-- The tokens of a sequence that have their home on a rank are there. -/
def Placed (cpSize cpRank cuStart seqlenPadded : ℕ) (d x : Vec α) : Prop :=
  ∀ t < d.size, (home cpSize seqlenPadded t).1 = cpRank →
    x.get (cuStart / cpSize + (home cpSize seqlenPadded t).2) = d.get t

/-- A sequence has been placed in its share, and nothing else has changed. -/
structure PackedInto (cpSize cpRank cuStart seqlenPadded : ℕ) (d x y : Vec α) :
    Prop where
  size : y.size = x.size
  outside : ∀ p, p < cuStart / cpSize ∨
    cuStart / cpSize + seqlenPadded / cpSize ≤ p → y.get p = x.get p
  placed : Placed cpSize cpRank cuStart seqlenPadded d y

/-- On a single rank every sequence is copied as it is. -/
theorem packSequence_alone (cpRank : ℕ) (hsize : d.size ≤ seqlenPadded)
    (hroom : cuStart + seqlenPadded ≤ x.size) :
    ∃ y, packSequence 1 cpRank cuStart seqlenPadded d x = .ok y ∧
      PackedInto 1 0 cuStart seqlenPadded d x y := by
  have hstop : cuStart + d.size ≤ x.size := by omega
  have hfull : d.size = cuStart + d.size - cuStart := by omega
  obtain ⟨y, hy, hassigned⟩ :=
    assigned_full (Nat.le_add_right _ _) hstop hfull
  refine ⟨y, hy, hassigned.size, fun p hp => ?_, fun t ht _ => ?_⟩
  · rw [Nat.div_one, Nat.div_one] at hp
    exact hassigned.outside p (by omega)
  · rw [Nat.div_one]
    exact hassigned.inside t (by omega) ht

/-- A second chunk is always written, as far as there are tokens. -/
theorem exists_second (d x : Vec α) (start remainStart remainEnd : ℕ)
    (hend : remainEnd ≤ d.size)
    (hroom : start + (remainEnd - remainStart) ≤ x.size) :
    ∃ y, (if 0 < remainEnd - remainStart then
        assign x start (start + (remainEnd - remainStart))
          (d.slice remainStart remainEnd)
      else pure x) = .ok y ∧ y.size = x.size ∧
      (∀ p, p < start ∨ start + (remainEnd - remainStart) ≤ p →
        y.get p = x.get p) ∧
      ∀ q, remainStart + q < remainEnd →
        y.get (start + q) = d.get (remainStart + q) := by
  have hsize : (d.slice remainStart remainEnd).size =
      remainEnd - remainStart := Vec.size_slice hend
  split
  · have hfull : (d.slice remainStart remainEnd).size =
        start + (remainEnd - remainStart) - start := by omega
    obtain ⟨y, hy, hassigned⟩ :=
      assigned_full (Nat.le_add_right _ _) hroom hfull
    refine ⟨y, hy, hassigned.size, hassigned.outside, fun q hq => ?_⟩
    rw [hassigned.inside q (by omega) (by omega),
      Vec.get_slice (show remainStart ≤ d.size by omega)]
  · exact ⟨x, rfl, rfl, fun _ _ => rfl, fun q hq => by omega⟩

/-- With several ranks, a rank returns exactly when its first chunk fits. -/
theorem packSequence_sharded (hcp : 1 < cpSize) (hrank : cpRank < cpSize)
    (hdvd : cpSize * 2 ∣ seqlenPadded) (hsize : d.size ≤ seqlenPadded)
    (hroom : cuStart / cpSize + seqlenPadded / cpSize ≤ x.size) :
    ReturnsIff (packSequence cpSize cpRank cuStart seqlenPadded d x)
      (FirstFits cpSize cpRank seqlenPadded d.size)
      (PackedInto cpSize cpRank cuStart seqlenPadded d x) := by
  have hsum := half_add_half hdvd
  have hshare := share_eq hdvd
  have hle : seqlenPadded / cpSize / 2 * (cpRank + 1) ≤
      seqlenPadded / cpSize / 2 * cpSize := Nat.mul_le_mul_left _ hrank
  have hchunk := fun t (ht : t < seqlenPadded / cpSize / 2 * cpSize) =>
    home_first hcp ht
  have hchunk' := fun t => home_second (t := t) hcp hdvd
  rw [packSequence, if_neg (Nat.not_le.mpr hcp)]
  simp only [FirstFits]
  generalize seqlenPadded / cpSize / 2 = half at *
  have hstop : cuStart / cpSize + half ≤ x.size := by omega
  have hsucc : half * (cpRank + 1) = half * cpRank + half :=
    Nat.mul_add_one _ _
  have hsecond := fun (y : Vec α) (hy : y.size = x.size) =>
    exists_second d y (cuStart / cpSize + half)
      (seqlenPadded - half * (cpRank + 1))
      (min (seqlenPadded - half * cpRank) d.size) (Nat.min_le_right _ _)
      (by omega)
  have hfirst : (∃ y, assign x (cuStart / cpSize) (cuStart / cpSize + half)
      (d.slice (half * cpRank) (half * (cpRank + 1))) = .ok y) ↔ _ :=
    exists_assign _ _ hstop
  rw [Nat.add_sub_cancel_left] at hfirst
  constructor
  · constructor
    · rintro ⟨y, hy⟩ -
      obtain ⟨z, hz, -⟩ := bind_eq_ok.mp hy
      exact hfirst.mp ⟨z, hz⟩
    · intro hfits
      obtain ⟨z, hz⟩ := hfirst.mpr (hfits hcp)
      have hassigned := Vec.assigned_of_assign? (Nat.le_add_right _ _) hstop
        (assign_eq_ok.mp hz)
      obtain ⟨y, hy, -⟩ := hsecond z hassigned.size
      exact ⟨y, by rw [hz]; exact hy⟩
  · intro y hy
    obtain ⟨z, hz, hy⟩ := bind_eq_ok.mp hy
    have hassigned := Vec.assigned_of_assign? (Nat.le_add_right _ _) hstop
      (assign_eq_ok.mp hz)
    obtain ⟨y', hy', hsize', houtside, hinside⟩ := hsecond z hassigned.size
    obtain rfl : y' = y := Except.ok.inj (hy'.symm.trans hy)
    refine ⟨hsize'.trans hassigned.size, fun p hp => ?_, fun t ht hhome => ?_⟩
    · rw [houtside p (by omega)]
      exact hassigned.outside p (by omega)
    · by_cases hlt : t < half * cpSize
      · obtain ⟨r, q, heq, -, hq, htq⟩ := hchunk t hlt
        rw [heq] at hhome ⊢
        obtain rfl : r = cpRank := hhome
        have hsliced : q < (d.slice (half * r) (half * (r + 1))).size := by
          simp only [Vec.slice]
          omega
        dsimp only
        rw [houtside _ (.inl (by omega)), hassigned.inside q (by omega) hsliced,
          Vec.get_slice (by omega), htq]
      · obtain ⟨r, q, heq, -, hq, htq⟩ := hchunk' t hlt (by omega)
        rw [heq] at hhome ⊢
        obtain rfl : r = cpRank := hhome
        dsimp only
        rw [← Nat.add_assoc, hinside q (by omega), htq]

end PackOne
section PackBatch

variable {cpSize cpRank : ℕ} {padded : ℕ → ℕ}
  {attended : ℕ → Vec α} {x : Vec α}

/-- A sequence alone and one that is shared out. -/
theorem packSequence_spec {cuStart seqlenPadded : ℕ} {d : Vec α}
    (hrank : cpRank < cpSize)
    (hdvd : 1 < cpSize → cpSize * 2 ∣ seqlenPadded)
    (hsize : d.size ≤ seqlenPadded)
    (hroom : cuStart / cpSize + seqlenPadded / cpSize ≤ x.size) :
    ReturnsIff (packSequence cpSize cpRank cuStart seqlenPadded d x)
      (FirstFits cpSize cpRank seqlenPadded d.size)
      (PackedInto cpSize cpRank cuStart seqlenPadded d x) := by
  rcases Nat.lt_or_ge 1 cpSize with hmany | hone
  · exact packSequence_sharded hmany hrank (hdvd hmany) hsize hroom
  · obtain rfl : cpSize = 1 := by omega
    obtain rfl : cpRank = 0 := by omega
    simp only [Nat.div_one] at hroom
    obtain ⟨y, hy, hpacked⟩ :=
      packSequence_alone 0 hsize hroom
    refine ⟨⟨fun _ hmany => absurd hmany (lt_irrefl 1), fun _ => ⟨y, hy⟩⟩,
      fun y' hy' => ?_⟩
    obtain rfl : y = y' := Except.ok.inj (hy.symm.trans hy')
    exact hpacked

theorem div_sum_succ (hdvd : ∀ i, cpSize ∣ padded i) (i : ℕ) :
    (∑ j ∈ range (i + 1), padded j) / cpSize =
      (∑ j ∈ range i, padded j) / cpSize + padded i / cpSize := by
  rw [sum_range_succ, Nat.add_div_of_dvd_left (hdvd i)]

/-- The share of one sequence comes before those of the later ones. -/
theorem share_before (hdvd : ∀ i, cpSize ∣ padded i) {i k : ℕ} (hik : i < k) :
    (∑ j ∈ range i, padded j) / cpSize + padded i / cpSize ≤
      (∑ j ∈ range k, padded j) / cpSize := by
  rw [← div_sum_succ hdvd i]
  exact Nat.div_le_div_right
    (sum_le_sum_of_subset (range_subset_range.mpr hik))

/-- A rank packs a batch exactly when the first chunk of every sequence
fits, and then has the tokens at their homes. -/
theorem packSequences_spec (batchSize : ℕ) (hrank : cpRank < cpSize)
    (hdvd : ∀ i, cpSize ∣ padded i)
    (heven : 1 < cpSize → ∀ i, cpSize * 2 ∣ padded i)
    (hsize : ∀ i < batchSize, (attended i).size ≤ padded i)
    (hroom : x.size = (∑ i ∈ range batchSize, padded i) / cpSize) :
    ReturnsIff
      (tryRange batchSize x fun i => packSequence cpSize cpRank
        (∑ j ∈ range i, padded j) (padded i) (attended i))
      (∀ i < batchSize, FirstFits cpSize cpRank (padded i) (attended i).size)
      fun y => y.size = x.size ∧ ∀ i < batchSize, Placed cpSize cpRank
        (∑ j ∈ range i, padded j) (padded i) (attended i) y := by
  have hcp : 0 < cpSize := Nat.zero_lt_of_lt hrank
  -- what is packed after the first sequences
  let P : ℕ → Vec α → Prop := fun k y => y.size = x.size ∧
    ∀ i < k, Placed cpSize cpRank (∑ j ∈ range i, padded j) (padded i)
      (attended i) y
  have hinit : P 0 x := ⟨rfl, fun i hi => absurd hi (Nat.not_lt_zero i)⟩
  have hspec := fun k (hk : k < batchSize) (s : Vec α) (hs : P k s) =>
    packSequence_spec (x := s) hrank (fun hmany => heven hmany k) (hsize k hk)
      ((share_before hdvd hk).trans (hs.1.trans hroom).ge)
  refine tryRange_spec P _ hinit fun k hk s hs =>
    ⟨(hspec k hk s hs).1, fun s' hs' => ?_⟩
  have hpacked := (hspec k hk s hs).2 s' hs'
  refine ⟨hpacked.size.trans hs.1, fun i hi t ht hhome => ?_⟩
  rcases Nat.lt_succ_iff_lt_or_eq.mp hi with hi | rfl
  · have hlt := (home_lt hcp (fun hmany => heven hmany i)
      (ht.trans_le (hsize i (hi.trans hk)))).2
    have hbefore := share_before hdvd hi
    rw [hpacked.outside _ (.inl (by omega))]
    exact hs.2 i hi t ht hhome
  · exact hpacked.placed t ht hhome

end PackBatch
section AllRanks

/-- Whether the first chunks of a sequence of `n` tokens fit on all ranks:
there are tokens for all of them, or for all but the last, which has one. -/
def Fits (cpSize seqlenPadded n : ℕ) : Prop :=
  let half := seqlenPadded / cpSize / 2
  cpSize ≤ 1 ∨ half * cpSize ≤ n ∨ n = half * (cpSize - 1) + 1

variable {cpSize seqlenPadded n : ℕ}

theorem forall_firstFits_iff :
    (∀ cpRank < cpSize, FirstFits cpSize cpRank seqlenPadded n) ↔
      Fits cpSize seqlenPadded n := by
  simp only [FirstFits, Fits]
  generalize seqlenPadded / cpSize / 2 = half
  constructor
  · intro hfits
    by_contra hnot
    obtain ⟨hcp, hshort, hone⟩ : 1 < cpSize ∧ n < half * cpSize ∧
        n ≠ half * (cpSize - 1) + 1 := by omega
    have hpos : 0 < half := Nat.pos_of_ne_zero fun h => by simp [h] at hshort
    -- the rank whose first chunk has too few tokens
    have hrank : n / half < cpSize := Nat.div_lt_of_lt_mul hshort
    have hdiv := Nat.div_add_mod n half
    have hmod := Nat.mod_lt n hpos
    have hsize := hfits (n / half) hrank hcp
    have hlast := hfits (cpSize - 1) (by omega) hcp
    have hle : half * (n / half) ≤ half * (cpSize - 1) :=
      Nat.mul_le_mul_left half (by omega)
    rw [Nat.sub_add_cancel (by omega)] at hlast
    rw [Nat.mul_add_one] at hsize
    have hcpSize : half * cpSize = half * (cpSize - 1) + half := by
      rw [← Nat.mul_add_one, Nat.sub_add_cancel (by omega)]
    omega
  · rintro (hone | hfull | hlast) r hr hcp
    · omega
    · have hle : half * (r + 1) ≤ half * cpSize := Nat.mul_le_mul_left half hr
      have hsucc := Nat.mul_add_one half r
      omega
    · have hsucc := Nat.mul_add_one half r
      rcases Nat.lt_or_ge (r + 1) cpSize with hearly | hr'
      · have hle : half * (r + 1) ≤ half * (cpSize - 1) :=
          Nat.mul_le_mul_left half (by omega)
        omega
      · obtain rfl : r = cpSize - 1 := by omega
        omega

end AllRanks

section Unpack

variable {cpSize cuStart cuStop sLen : ℕ} {outputList : ℕ → Vec β}

/-- What has been put together from the first ranks. -/
structure Gathered (outputList : ℕ → Vec β) (start half seqlenPadded k : ℕ)
    (tmp : Vec β) : Prop where
  size : tmp.size = seqlenPadded
  first : ∀ j < k, ∀ q < half,
    tmp.get (half * j + q) = (outputList j).get (start + q)
  second : ∀ j < k, ∀ q < half,
    tmp.get (seqlenPadded - half * (j + 1) + q) =
      (outputList j).get (start + half + q)

/-- Each rank's two chunks go to their places, which no other rank uses. -/
theorem gathered_succ {start half seqlenPadded k : ℕ} {tmp : Vec β}
    (hsum : half * cpSize + half * cpSize = seqlenPadded)
    (hk : k < cpSize)
    (hsize : start + 2 * half ≤ (outputList k).size)
    (htmp : Gathered outputList start half seqlenPadded k tmp) :
    ∃ tmp₁ tmp₂,
      assign tmp (k * half) ((k + 1) * half)
        ((outputList k).slice start (start + half)) = .ok tmp₁ ∧
      assign tmp₁ (seqlenPadded - (k + 1) * half) (seqlenPadded - k * half)
        ((outputList k).slice (start + half) (start + 2 * half)) =
          .ok tmp₂ ∧
      Gathered outputList start half seqlenPadded (k + 1) tmp₂ := by
  have hle : half * (k + 1) ≤ half * cpSize := Nat.mul_le_mul_left half hk
  rw [Nat.mul_comm k, Nat.mul_comm (k + 1)]
  have hsucc := Nat.mul_add_one half k
  have hsize₁ : ((outputList k).slice start (start + half)).size = half := by
    rw [Vec.size_slice (by omega), Nat.add_sub_cancel_left]
  have hsize₂ : ((outputList k).slice (start + half)
      (start + 2 * half)).size = half := by
    rw [Vec.size_slice hsize]
    omega
  have hsizeTmp := htmp.size
  have hstop₁ : half * (k + 1) ≤ tmp.size := by omega
  have hle₁ : half * k ≤ half * (k + 1) := by omega
  obtain ⟨tmp₁, htmp₁, hassigned₁⟩ :=
    assigned_full hle₁ hstop₁ (hsize₁.trans (by omega))
  have hstop₂ : seqlenPadded - half * k ≤ tmp₁.size := by
    rw [hassigned₁.size]
    omega
  have hle₂ : seqlenPadded - half * (k + 1) ≤ seqlenPadded - half * k := by
    omega
  obtain ⟨tmp₂, htmp₂, hassigned₂⟩ :=
    assigned_full hle₂ hstop₂ (hsize₂.trans (by omega))
  refine ⟨tmp₁, tmp₂, htmp₁, htmp₂, ?_, fun j hj q hq => ?_,
    fun j hj q hq => ?_⟩
  · rw [hassigned₂.size, hassigned₁.size, hsizeTmp]
  · have hlej : half * (j + 1) ≤ half * (k + 1) := Nat.mul_le_mul_left half hj
    have hsuccj := Nat.mul_add_one half j
    rw [hassigned₂.outside _ (.inl (by omega))]
    rcases Nat.lt_succ_iff_lt_or_eq.mp hj with hj | rfl
    · have hltj : half * (j + 1) ≤ half * k := Nat.mul_le_mul_left half hj
      rw [hassigned₁.outside _ (.inl (by omega))]
      exact htmp.first j hj q hq
    · rw [hassigned₁.inside q (by omega) (by omega),
        Vec.get_slice (by omega)]
  · have hlej : half * (j + 1) ≤ half * (k + 1) := Nat.mul_le_mul_left half hj
    have hsuccj := Nat.mul_add_one half j
    rcases Nat.lt_succ_iff_lt_or_eq.mp hj with hj | rfl
    · have hltj : half * (j + 1) ≤ half * k := Nat.mul_le_mul_left half hj
      rw [hassigned₂.outside _ (.inr (by omega)),
        hassigned₁.outside _ (.inr (by omega))]
      exact htmp.second j hj q hq
    · rw [hassigned₂.inside q (by omega) (by omega),
        Vec.get_slice (by omega)]

/-- Where every rank has an output at the home of each token, these are the
outputs in order. -/
theorem unpackSequence_spec (outputList : ℕ → Vec β) (empty z : ℕ → β)
    (hcp : 0 < cpSize)
    (hdvd : cpSize ∣ cuStop - cuStart)
    (heven : 1 < cpSize → cpSize * 2 ∣ cuStop - cuStart)
    (hlen : sLen ≤ cuStop - cuStart)
    (hsize : ∀ j < cpSize, cuStart / cpSize + (cuStop - cuStart) / cpSize ≤
      (outputList j).size)
    (hz : ∀ t < sLen, (outputList (home cpSize (cuStop - cuStart) t).1).get
      (cuStart / cpSize + (home cpSize (cuStop - cuStart) t).2) = z t) :
    ∃ y, unpackSequence cpSize outputList empty cuStart cuStop sLen = .ok y ∧
      y.size = sLen ∧ ∀ t < sLen, y.get t = z t := by
  rw [unpackSequence]
  split
  case isTrue hone =>
    obtain rfl : cpSize = 1 := by omega
    simp only [Nat.div_one] at hsize hz
    have hsize₀ := hsize 0 hcp
    refine ⟨_, rfl, ?_, fun t ht => ?_⟩
    · rw [Vec.size_slice (by omega), Nat.add_sub_cancel_left]
    · rw [Vec.get_slice (by omega)]
      simpa [home] using hz t ht
  case isFalse hmany =>
    have hcp' : 1 < cpSize := by omega
    have hsum := half_add_half (heven hcp')
    have hshare := share_eq (heven hcp')
    have hchunk := fun t (ht : t < (cuStop - cuStart) / cpSize / 2 * cpSize) =>
      home_first hcp' ht
    have hchunk' := fun t => home_second (t := t) hcp' (heven hcp')
    dsimp only
    rw [Nat.div_mul_cancel hdvd]
    rw [hshare] at hsize ⊢
    rw [Nat.mul_div_cancel_left _ Nat.zero_lt_two]
    generalize (cuStop - cuStart) / cpSize / 2 = half at *
    generalize cuStop - cuStart = seqlenPadded at *
    obtain ⟨tmp, htmp, hgathered⟩ := exists_tryRange (fun k tmp =>
      Gathered outputList (cuStart / cpSize) half seqlenPadded k tmp)
      (show Gathered outputList _ half seqlenPadded 0 ⟨seqlenPadded, empty⟩ from
        ⟨rfl, fun j hj => absurd hj (Nat.not_lt_zero j),
          fun j hj => absurd hj (Nat.not_lt_zero j)⟩)
      (fun k hk tmp htmp => by
        obtain ⟨tmp₁, tmp₂, h₁, h₂, hnext⟩ :=
          gathered_succ hsum hk (hsize k hk) htmp
        exact ⟨tmp₂, bind_eq_ok.mpr ⟨tmp₁, h₁, h₂⟩, hnext⟩)
    refine ⟨tmp.slice 0 sLen, bind_eq_ok.mpr ⟨tmp, htmp, rfl⟩, ?_,
      fun t ht => ?_⟩
    · rw [Vec.size_slice (hgathered.size.symm ▸ hlen), Nat.sub_zero]
    · rw [Vec.get_slice (Nat.zero_le _), Nat.zero_add, ← hz t ht]
      by_cases hlt : t < half * cpSize
      · obtain ⟨r, q, heq, hr, hq, htq⟩ := hchunk t hlt
        rw [heq, htq]
        exact hgathered.first r hr q hq
      · obtain ⟨r, q, heq, hr, hq, htq⟩ := hchunk' t hlt (by omega)
        rw [heq, htq, ← Nat.add_assoc]
        exact hgathered.second r hr q hq

end Unpack
section RoundTrip

variable (par : ParallelState) (useFp8Padding : Bool) (zero : α) (zero' : β)
  (batchSize : ℕ) (inputIds : ℕ → List α) (attentionMask : ℕ → List Bool)

/-- `input_ids[i, attention_mask[i]]` -/
def attendedTokens (i : ℕ) : Vec α :=
  Vec.ofList zero (pack (attentionMask i) (inputIds i))

/-- The numbers of attended tokens. -/
def seqlensInBatch (i : ℕ) : ℕ := (attentionMask i).count true

variable {par useFp8Padding zero zero' batchSize inputIds attentionMask}

theorem size_attendedTokens (zero : α)
    (hlen : ∀ i, (inputIds i).length = (attentionMask i).length) (i : ℕ) :
    (attendedTokens zero inputIds attentionMask i).size =
      seqlensInBatch attentionMask i :=
  length_pack (hlen i)

theorem two_mul_cpSize_dvd (hcp : 1 < par.cpSize) (seqlens : ℕ → ℕ) (i : ℕ) :
    par.cpSize * 2 ∣ seqlensPadded par useFp8Padding batchSize seqlens i := by
  have hbase : baseAlign par = par.tpSize * (par.cpSize * 2) := by
    rw [baseAlign, if_pos hcp, Nat.mul_assoc]
  exact (hbase ▸ Nat.dvd_mul_left _ _).trans
    (baseAlign_dvd_seqlensPadded par useFp8Padding batchSize seqlens i)

theorem cpSize_dvd (seqlens : ℕ → ℕ) (i : ℕ) :
    par.cpSize ∣ seqlensPadded par useFp8Padding batchSize seqlens i := by
  rcases Nat.lt_or_ge 1 par.cpSize with hmany | hone
  · exact (Nat.dvd_mul_right _ _).trans (two_mul_cpSize_dvd hmany seqlens i)
  · have hcp : par.cpSize = 1 := Nat.le_antisymm hone par.cp_pos
    exact hcp ▸ one_dvd _

/-- A rank packs a batch exactly when the first chunk of every sequence
fits, and then its buffer has the tokens at their homes. -/
theorem preprocessPackedSeqs_spec (par : ParallelState)
    (useFp8Padding : Bool) (zero : α) (hbatch : 0 < batchSize)
    {attended : ℕ → Vec α} {seqlens : ℕ → ℕ}
    (hsizes : ∀ i, (attended i).size = seqlens i) {cpRank : ℕ}
    (hrank : cpRank < par.cpSize) :
    ((∃ out, preprocessPackedSeqs par useFp8Padding zero cpRank batchSize
          attended = .ok out) ↔
        ∀ i < batchSize, FirstFits par.cpSize cpRank
          (seqlensPadded par useFp8Padding batchSize seqlens i)
          (seqlens i)) ∧
      ∀ out, preprocessPackedSeqs par useFp8Padding zero cpRank batchSize
          attended = .ok out →
        out.2.cuSeqlensQPadded =
            cuSeqlensPadded par useFp8Padding batchSize seqlens ∧
          out.1.size = cuSeqlensPadded par useFp8Padding batchSize seqlens
            batchSize / par.cpSize ∧
          ∀ i < batchSize, Placed par.cpSize cpRank
            (cuSeqlensPadded par useFp8Padding batchSize seqlens i)
            (seqlensPadded par useFp8Padding batchSize seqlens i)
            (attended i) out.1 := by
  obtain rfl : (fun i => (attended i).size) = seqlens := funext hsizes
  have hpack := packSequences_spec batchSize (x := ⟨_, fun _ => zero⟩) hrank
    (cpSize_dvd (fun i => (attended i).size))
    (fun hmany => two_mul_cpSize_dvd hmany _)
    (fun i _ => le_seqlensPadded par useFp8Padding batchSize
      (fun i => (attended i).size) i) rfl
  simp only [preprocessPackedSeqs, if_neg hbatch.ne']
  constructor
  · rw [← hpack.1]
    constructor
    · rintro ⟨out, hout⟩
      obtain ⟨y, hy, -⟩ := bind_eq_ok.mp hout
      exact ⟨y, hy⟩
    · rintro ⟨y, hy⟩
      exact ⟨_, bind_eq_ok.mpr ⟨y, hy, rfl⟩⟩
  · intro out hout
    obtain ⟨y, hy, hret⟩ := bind_eq_ok.mp hout
    obtain rfl := Except.ok.inj hret
    exact ⟨rfl, (hpack.2 y hy).1, (hpack.2 y hy).2⟩

theorem toList_eq {x : Vec β} {xs : List β} (hsize : x.size = xs.length)
    (hget : ∀ t, (ht : t < xs.length) → x.get t = xs[t]) :
    x.toList = xs := by
  apply List.ext_getElem
  · simp [Vec.toList, hsize]
  · intro t ht ht'
    simp [Vec.toList, hget t ht']

/-- Outputs computed token by token are where their tokens are. -/
theorem Placed.map {cpSize cpRank cuStart seqlenPadded : ℕ} {xs : List α}
    {x : Vec α} (f : α → β)
    (h : Placed cpSize cpRank cuStart seqlenPadded (Vec.ofList zero xs) x) :
    Placed cpSize cpRank cuStart seqlenPadded (Vec.ofList zero' (xs.map f))
      (x.map f) := by
  intro t ht hhome
  have ht' : t < xs.length := by simpa [Vec.ofList] using ht
  have hlt : t < (xs.map f).length := by simpa using ht'
  have hget : x.get (cuStart / cpSize + (home cpSize seqlenPadded t).2) =
      xs[t] := by
    rw [h t ht' hhome]
    exact List.getD_eq_getElem _ _ ht'
  calc f (x.get (cuStart / cpSize + (home cpSize seqlenPadded t).2))
      = (xs.map f).get ⟨t, hlt⟩ := by simp [hget]
    _ = (xs.map f).getD t zero' :=
        (List.getD_eq_getElem _ _ hlt).symm

/-- What is at the homes of the attended tokens goes back to their places. -/
theorem postprocessPackedSeqs_spec (zero' : β) (outputList : ℕ → Vec β)
    (values : ℕ → List β) {params : PackedSeqParams}
    (hparams : params.cuSeqlensQPadded = cuSeqlensPadded par useFp8Padding
      batchSize (seqlensInBatch attentionMask))
    (hvalues : ∀ i, (values i).length = seqlensInBatch attentionMask i)
    (hsize : ∀ r < par.cpSize, (outputList r).size =
      cuSeqlensPadded par useFp8Padding batchSize
        (seqlensInBatch attentionMask) batchSize / par.cpSize)
    (hout : ∀ i < batchSize, ∀ r < par.cpSize, Placed par.cpSize r
      (cuSeqlensPadded par useFp8Padding batchSize
        (seqlensInBatch attentionMask) i)
      (seqlensPadded par useFp8Padding batchSize
        (seqlensInBatch attentionMask) i)
      (Vec.ofList zero' (values i)) (outputList r))
    (empty : ℕ → ℕ → β) :
    ∃ rows, postprocessPackedSeqs par zero' outputList empty params batchSize
        attentionMask = .ok rows ∧
      ∀ i < batchSize, rows i = unpack zero' (attentionMask i) (values i) := by
  have hpass : ∀ k < batchSize, ∀ rows : ℕ → List β,
      (∀ i < k, rows i = unpack zero' (attentionMask i) (values i)) →
      ∃ rows', (do
        let values ← unpackSequence par.cpSize outputList (empty k)
          (params.cuSeqlensQPadded k) (params.cuSeqlensQPadded (k + 1))
          ((attentionMask k).count true)
        let row ← assignMasked zero' (attentionMask k) values
        return Function.update rows k row) = Except.ok rows' ∧
        ∀ i < k + 1, rows' i =
          unpack zero' (attentionMask i) (values i) := by
    intro k hk rows hrows
    have hstop : cuSeqlensPadded par useFp8Padding batchSize
          (seqlensInBatch attentionMask) (k + 1) -
        cuSeqlensPadded par useFp8Padding batchSize
          (seqlensInBatch attentionMask) k = seqlensPadded par useFp8Padding
            batchSize (seqlensInBatch attentionMask) k := by
      rw [cuSeqlensPadded, sum_range_succ, ← cuSeqlensPadded,
        Nat.add_sub_cancel_left]
    have hlt : ∀ t < seqlensInBatch attentionMask k, t < seqlensPadded par
        useFp8Padding batchSize (seqlensInBatch attentionMask) k := fun t ht =>
      ht.trans_le (le_seqlensPadded par useFp8Padding batchSize _ k)
    obtain ⟨y, hy, hysize, hyget⟩ := unpackSequence_spec outputList (empty k)
      (fun t => (values k).getD t zero') par.cp_pos (hstop ▸ cpSize_dvd _ k)
      (fun hmany => hstop ▸ two_mul_cpSize_dvd hmany _ k)
      (hstop ▸ le_seqlensPadded par useFp8Padding batchSize
        (seqlensInBatch attentionMask) k)
      (fun r hr => by
        rw [hstop, hsize r hr]
        exact share_before (cpSize_dvd _) hk)
      (fun t ht => by
        rw [hstop]
        have hhome := home_lt par.cp_pos
          (fun hmany => two_mul_cpSize_dvd hmany _ k) (hlt t ht)
        exact hout k hk _ hhome.1 t
          (ht.trans_eq (hvalues k).symm) rfl)
    have htoList : y.toList = values k := by
      apply toList_eq (hysize.trans (hvalues k).symm)
      intro t ht
      rw [hyget t ((hvalues k) ▸ ht), List.getD_eq_getElem _ _ ht]
    refine ⟨Function.update rows k (unpack zero' (attentionMask k) (values k)),
      ?_, fun i hi => ?_⟩
    · have hrow : assignMasked zero' (attentionMask k) y =
          .ok (unpack zero' (attentionMask k) (values k)) := by
        rw [assignMasked, htoList]
        exact if_pos hysize
      have hunpack : unpackSequence par.cpSize outputList (empty k)
          (params.cuSeqlensQPadded k) (params.cuSeqlensQPadded (k + 1))
          ((attentionMask k).count true) = .ok y := hparams ▸ hy
      rw [hunpack, ok_bind, hrow]
      rfl
    · rcases Nat.lt_succ_iff_lt_or_eq.mp hi with hi | rfl
      · rw [Function.update_of_ne hi.ne, hrows i hi]
      · rw [Function.update_self]
  exact exists_tryRange (fun k (rows : ℕ → List β) =>
    ∀ i < k, rows i = unpack zero' (attentionMask i) (values i))
    (fun i hi => absurd hi (Nat.not_lt_zero i)) hpass

/-- Context parallel packing loses nothing: where the ranks' outputs are
computed token by token from their buffers, the rows put together again have
the outputs of the attended tokens at their places and zeros elsewhere. All
ranks return exactly when each sequence has enough tokens for the first
chunks of all ranks, or just one too few in all but the last. -/
theorem preprocess_postprocess_roundTrip (par : ParallelState)
    (useFp8Padding : Bool) (zero : α) (zero' : β) (hbatch : 0 < batchSize)
    (hlen : ∀ i, (inputIds i).length = (attentionMask i).length)
    (f : α → β) :
    ((∀ cpRank < par.cpSize, ∃ out, preprocessPackedSeqs par useFp8Padding zero
          cpRank batchSize (attendedTokens zero inputIds attentionMask) =
            .ok out) ↔
        ∀ i < batchSize, Fits par.cpSize
          (seqlensPadded par useFp8Padding batchSize
            (seqlensInBatch attentionMask) i)
          (seqlensInBatch attentionMask i)) ∧
      ∀ out : ℕ → Vec α × PackedSeqParams,
        (∀ cpRank < par.cpSize, preprocessPackedSeqs par useFp8Padding zero
          cpRank batchSize (attendedTokens zero inputIds attentionMask) =
            .ok (out cpRank)) →
        ∀ empty, ∀ cpRank < par.cpSize, ∃ rows,
          postprocessPackedSeqs par zero' (fun j => (out j).1.map f) empty
            (out cpRank).2 batchSize attentionMask = .ok rows ∧
          ∀ i < batchSize, rows i = List.zipWith
            (fun attended x => if attended then f x else zero')
            (attentionMask i) (inputIds i) := by
  have hspec := fun r (hr : r < par.cpSize) =>
    preprocessPackedSeqs_spec par useFp8Padding zero hbatch
      (size_attendedTokens zero hlen) hr
  constructor
  · constructor
    · intro hout i hi
      rw [← forall_firstFits_iff]
      exact fun r hr => (hspec r hr).1.mp (hout r hr) i hi
    · intro hfits r hr
      exact (hspec r hr).1.mpr fun i hi =>
        forall_firstFits_iff.mpr (hfits i hi) r hr
  · intro out hout empty rank hrank
    have hbuffer := fun r (hr : r < par.cpSize) =>
      (hspec r hr).2 (out r) (hout r hr)
    obtain ⟨rows, hrows, hrow⟩ := postprocessPackedSeqs_spec
      zero' (fun j => (out j).1.map f)
      (fun i => (pack (attentionMask i) (inputIds i)).map f)
      (hbuffer rank hrank).1
      (fun i => by rw [List.length_map, length_pack (hlen i)]; rfl)
      (fun r hr => (hbuffer r hr).2.1)
      (fun i hi r hr => ((hbuffer r hr).2.2 i hi).map f) empty
    exact ⟨rows, hrows, fun i hi =>
      (hrow i hi).trans (unpack_map_pack zero' f (hlen i))⟩

end RoundTrip
section Witness

/-- One tensor parallel and two context parallel ranks. -/
def twoRanks : ParallelState := ⟨1, 2, Nat.one_pos, Nat.two_pos⟩

def threeTokens (_ : ℕ) : List ℕ := [0, 5, 6, 7]

def threeMask (_ : ℕ) : List Bool := [false, true, true, true]

theorem length_threeTokens (i : ℕ) :
    (threeTokens i).length = (threeMask i).length := rfl

/-- Three tokens after a padding one, shared by two ranks and doubled. -/
theorem preprocess_postprocess_roundTrip_twoRanks :
    ∃ (out : ℕ → Vec ℕ × PackedSeqParams) (rows : ℕ → List ℕ),
      (∀ cpRank < 2, preprocessPackedSeqs twoRanks false 0 cpRank 1
        (attendedTokens 0 threeTokens threeMask) = .ok (out cpRank)) ∧
      postprocessPackedSeqs twoRanks 0 (fun j => (out j).1.map (2 * ·))
        (fun _ _ => 99) (out 0).2 1 threeMask = .ok rows ∧
      rows 0 = [0, 10, 12, 14] := by
  have htrip := preprocess_postprocess_roundTrip twoRanks false 0 0 Nat.one_pos
    length_threeTokens (2 * ·)
  have hout := htrip.1.mpr (fun i hi => by
    obtain rfl : i = 0 := by omega
    exact .inr (.inl (by decide)))
  have : Nonempty (Vec ℕ × PackedSeqParams) :=
    ⟨⟨0, fun _ => 0⟩, ⟨fun _ => 0, 0⟩⟩
  choose! out hout using hout
  obtain ⟨rows, hrows, hrow⟩ := htrip.2 out hout (fun _ _ => 99) 0 Nat.two_pos
  exact ⟨out, rows, hout, hrows, hrow 0 Nat.one_pos⟩

end Witness

end SelfDistillation.ContextParallel
