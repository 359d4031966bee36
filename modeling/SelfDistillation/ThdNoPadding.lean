/-
`preprocess_thd_no_padding` and `postprocess_thd_no_padding`
(verl/models/mcore/util.py): nested sequences packed for context parallel
ranks with their positions, shifted by one token for labels, and put together
again.
-/
import SelfDistillation.ContextParallel

namespace SelfDistillation.ContextParallel

open Finset Packing TryLoop

variable {α β : Type}

/-- `torch.arange(start, stop)` -/
def arange (start stop : ℕ) : Vec ℕ := ⟨stop - start, fun p => start + p⟩

/-- `torch.cat([d, pad])` up to `alignSize` entries. -/
def padTo (alignSize : ℕ) (zero : α) (d : Vec α) : Vec α :=
  if d.size < alignSize then
    ⟨alignSize, fun p => if p < d.size then d.get p else zero⟩
  else d

/-- The buffers of `preprocess_thd_no_padding`, and what it saves of them
before they are rolled: an entry of a sequence, and of the positions either
an entry of their buffer or zero. -/
structure ThdState (α : Type) where
  inputIdsRmpad : Vec α
  positionIdsRmpad : Vec ℕ
  savedRollDict : List (ℤ × α)
  savedPositionRollDict : List (ℤ × Option ℤ)

/-- The position ids of one sequence. -/
def packPositions (cpSize cpRank cuStart seqlenPadded seqlen dSize : ℕ)
    (positionIdsRmpad : Vec ℕ) : Py (Vec ℕ) :=
  if cpSize ≤ 1 then
    assign positionIdsRmpad cuStart (cuStart + seqlen) (arange 0 seqlen)
  else do
    let halfSeqlen := seqlenPadded / cpSize / 2
    let startIdx := cuStart / cpSize
    let positionIdsRmpad ← assign positionIdsRmpad startIdx
      (startIdx + halfSeqlen)
      (arange (halfSeqlen * cpRank) (halfSeqlen * (cpRank + 1)))
    let remainStart := seqlenPadded - halfSeqlen * (cpRank + 1)
    let remainEnd := min (seqlenPadded - halfSeqlen * cpRank) dSize
    let remainLen := remainEnd - remainStart
    if 0 < remainLen then
      assign positionIdsRmpad (startIdx + halfSeqlen)
        (startIdx + halfSeqlen + remainLen)
        (arange (seqlenPadded - remainLen) seqlenPadded)
    else return positionIdsRmpad

/-- What `need_roll` saves for one sequence: the token after each chunk. -/
def saveRolls (cpRank startIdx halfSeqlen seqlenPadded : ℕ) (d : Vec α) :
    Py (List (ℤ × α) × List (ℤ × Option ℤ)) :=
  let remainStart := seqlenPadded - halfSeqlen * (cpRank + 1)
  let remainEnd := min (seqlenPadded - halfSeqlen * cpRank) d.size
  let remainLen := remainEnd - remainStart
  let last : ℤ := startIdx + halfSeqlen - 1
  let last' : ℤ := startIdx + halfSeqlen + remainLen - 1
  if (cpRank + 1) * halfSeqlen < d.size then
    .ok ((last, d.get ((cpRank + 1) * halfSeqlen)) ::
        (if 0 < remainLen then
          [(last', d.get (if remainEnd = d.size then 0 else remainEnd))]
        else []),
      (last, some last) ::
        (if 0 < remainLen then
          [(last', if remainEnd = d.size then none else some last')]
        else []))
  else .error .indexError

/-- What a rank writes for one sequence. -/
def packThdSequence (cpSize cpRank alignSize : ℕ) (needRoll : Bool) (zero : α)
    (cuStart seqlenPadded : ℕ) (d : Vec α) (state : ThdState α) :
    Py (ThdState α) :=
  if cpSize ≤ 1 then do
    let inputIdsRmpad ← packSequence cpSize cpRank cuStart seqlenPadded d
      state.inputIdsRmpad
    let positionIdsRmpad ← packPositions cpSize cpRank cuStart seqlenPadded
      d.size d.size state.positionIdsRmpad
    return { state with inputIdsRmpad, positionIdsRmpad }
  else do
    let seqlen := d.size
    let d := padTo alignSize zero d
    let inputIdsRmpad ← packSequence cpSize cpRank cuStart seqlenPadded d
      state.inputIdsRmpad
    let positionIdsRmpad ← packPositions cpSize cpRank cuStart seqlenPadded
      seqlen d.size state.positionIdsRmpad
    if needRoll then
      let (tokens, positions) ← saveRolls cpRank (cuStart / cpSize)
        (seqlenPadded / cpSize / 2) seqlenPadded d
      return ⟨inputIdsRmpad, positionIdsRmpad, state.savedRollDict ++ tokens,
        state.savedPositionRollDict ++ positions⟩
    else return { state with inputIdsRmpad, positionIdsRmpad }

/-- `torch.roll(x, shifts=-1, dims=0)` -/
def roll (x : Vec α) : Vec α := ⟨x.size, fun p => x.get ((p + 1) % x.size)⟩

/-- The entry that `x[k]` means. -/
def index (size : ℕ) (k : ℤ) : Py ℕ :=
  if 0 ≤ k ∧ k < size then .ok k.toNat
  else if -size ≤ k ∧ k < 0 then .ok (k + size).toNat
  else .error .indexError

/-- `x[k] = v` -/
def setItem (x : Vec α) (k : ℤ) (v : α) : Py (Vec α) := do
  let p ← index x.size k
  return ⟨x.size, Function.update x.get p v⟩

/-- The rolled buffers, with what was saved. -/
def rollBuffers (state : ThdState α) : Py (Vec α × Vec ℕ) := do
  let inputIdsRmpad ← state.savedRollDict.foldlM
    (fun x entry => setItem x entry.1 entry.2) (roll state.inputIdsRmpad)
  let positionIdsRmpad ← state.savedPositionRollDict.foldlM
    (fun x entry => do
      let v ← match entry.2 with
        | some k => do
            let p ← index state.positionIdsRmpad.size k
            pure (state.positionIdsRmpad.get p)
        | none => pure 0
      setItem x entry.1 v) (roll state.positionIdsRmpad)
  return (inputIdsRmpad, positionIdsRmpad)

/-- `preprocess_thd_no_padding` on a rank: the input ids, the parameters and
the position ids. -/
def preprocessThdNoPadding (par : ParallelState) (needRoll useFp8Padding : Bool)
    (zero : α) (cpRank batchSize : ℕ) (inputIds : ℕ → Vec α) :
    Py (Vec α × PackedSeqParams × Vec ℕ) :=
  let seqlens := fun i => (inputIds i).size
  let padded := seqlensPadded par useFp8Padding batchSize seqlens
  let cuPadded := cuSeqlensPadded par useFp8Padding batchSize seqlens
  if batchSize = 0 then
    if useFp8Padding then .error .indexError
    else .error (.valueError "max() iterable argument is empty")
  else do
    let maxSeqlen := (range batchSize).sup padded
    let size := (∑ i ∈ range batchSize, padded i) / par.cpSize
    let state ← tryRange batchSize
      (⟨⟨size, fun _ => zero⟩, ⟨size, fun _ => 0⟩, [], []⟩ : ThdState α)
      fun i => packThdSequence par.cpSize cpRank
        (alignSize par useFp8Padding) needRoll zero (cuPadded i) (padded i)
        (inputIds i)
    let (ids, positions) ← if needRoll then rollBuffers state
      else pure (state.inputIdsRmpad, state.positionIdsRmpad)
    return (ids, ⟨cuPadded, maxSeqlen⟩, positions)

/-- `postprocess_thd_no_padding`: the sequences of the result. -/
def postprocessThdNoPadding (par : ParallelState) (outputList : ℕ → Vec β)
    (empty : ℕ → ℕ → β) (params : PackedSeqParams) (batchSize : ℕ)
    (seqLens : ℕ → ℕ) : Py (List (Vec β)) :=
  tryRange batchSize [] fun i outputNew => do
    let values ← unpackSequence par.cpSize outputList (empty i)
      (params.cuSeqlensQPadded i) (params.cuSeqlensQPadded (i + 1)) (seqLens i)
    return outputNew ++ [values]

section Writes

/-- A fold whose steps all return keeps its invariant. -/
theorem exists_foldlM {σ ι : Type} (P : σ → Prop) {step : σ → ι → Py σ}
    {xs : List ι} {s : σ} (hs : P s)
    (hstep : ∀ e ∈ xs, ∀ s, P s → ∃ s', step s e = .ok s' ∧ P s') :
    ∃ s', xs.foldlM step s = .ok s' ∧ P s' := by
  induction xs generalizing s with
  | nil => exact ⟨s, rfl, hs⟩
  | cons e xs ih =>
      obtain ⟨s', hs', hP⟩ := hstep e List.mem_cons_self s hs
      obtain ⟨s'', hs'', hP'⟩ :=
        ih hP fun e he => hstep e (List.mem_cons_of_mem _ he)
      exact ⟨s'', by rw [List.foldlM_cons, hs']; exact hs'', hP'⟩

theorem index_of_lt {size p : ℕ} (hp : p < size) : index size p = .ok p :=
  if_pos ⟨Int.natCast_nonneg p, Int.ofNat_lt.mpr hp⟩

theorem setItem_of_lt {x : Vec α} {p : ℕ} (hp : p < x.size) (v : α) :
    setItem x p v = .ok ⟨x.size, Function.update x.get p v⟩ := by
  rw [setItem, index_of_lt hp]
  rfl

/-- Entries written one after the other: the last one at a place is there,
and the rest is unchanged. -/
theorem foldlM_setItem {entries : List (ℤ × α)} {x : Vec α}
    (hkeys : ∀ e ∈ entries, ∃ p < x.size, e.1 = (p : ℤ)) :
    ∃ y, entries.foldlM (fun x entry => setItem x entry.1 entry.2) x = .ok y ∧
      y.size = x.size ∧
      (∀ p : ℕ, (∀ e ∈ entries, e.1 ≠ p) → y.get p = x.get p) ∧
      ∀ (p : ℕ) v, (∃ e ∈ entries, e.1 = p) →
        (∀ e ∈ entries, e.1 = p → e.2 = v) → y.get p = v := by
  induction entries generalizing x with
  | nil => exact ⟨x, rfl, rfl, fun _ _ => rfl, fun _ _ h => by simp at h⟩
  | cons e entries ih =>
      obtain ⟨key, hkey, he⟩ := hkeys e List.mem_cons_self
      obtain ⟨y, hy, hsize, hnone, hsome⟩ :=
        ih (x := ⟨x.size, Function.update x.get key e.2⟩)
          fun e he => hkeys e (List.mem_cons_of_mem _ he)
      refine ⟨y, ?_, hsize, fun p hp => ?_, fun p v hex hall => ?_⟩
      · rw [List.foldlM_cons, he, setItem_of_lt hkey]
        exact hy
      · have hne : p ≠ key := fun h =>
          hp e List.mem_cons_self (he.trans (by rw [h]))
        rw [hnone p fun e he => hp e (List.mem_cons_of_mem _ he)]
        exact Function.update_of_ne hne _ _
      · by_cases hlater : ∃ e ∈ entries, e.1 = p
        · exact hsome p v hlater fun e he =>
            hall e (List.mem_cons_of_mem _ he)
        · push Not at hlater
          obtain ⟨e', he', hp⟩ := hex
          rcases List.mem_cons.mp he' with rfl | hmem
          · have heq : p = key := by
              have := hp.symm.trans he
              exact_mod_cast this
            rw [hnone p hlater, heq]
            exact (Function.update_self _ _ _).trans
              (hall e' List.mem_cons_self hp)
          · exact absurd hp (hlater e' hmem)

end Writes

section OneSequence

variable {cpSize cpRank cuStart seqlenPadded n dSize : ℕ} {d : Vec α}

/-- The position id that is written for token `t` of a sequence that has
`dSize` entries with its padding: in a second chunk, what counts back from the
end of the padded sequence. -/
def positionAt (cpSize seqlenPadded dSize t : ℕ) : ℕ :=
  let half := seqlenPadded / cpSize / 2
  let rank := (home cpSize seqlenPadded t).1
  let remainStart := seqlenPadded - half * (rank + 1)
  let remainEnd := min (seqlenPadded - half * rank) dSize
  if cpSize ≤ 1 ∨ t < half * cpSize then t
  else seqlenPadded - (remainEnd - remainStart) + (t - remainStart)

theorem packPositions_spec {x : Vec ℕ} (hrank : cpRank < cpSize)
    (hdvd : 1 < cpSize → cpSize * 2 ∣ seqlenPadded)
    (hn : n ≤ dSize) (hsize : dSize ≤ seqlenPadded)
    (hroom : cuStart / cpSize + seqlenPadded / cpSize ≤ x.size) :
    ∃ y, packPositions cpSize cpRank cuStart seqlenPadded n dSize x = .ok y ∧
      PackedInto cpSize cpRank cuStart seqlenPadded
        ⟨n, positionAt cpSize seqlenPadded dSize⟩ x y := by
  rw [packPositions]
  split
  case isTrue hone =>
    obtain rfl : cpSize = 1 := by omega
    simp only [Nat.div_one] at hroom
    have hstop : cuStart + n ≤ x.size := by omega
    have hfull : (arange 0 n).size = cuStart + n - cuStart := by
      simp [arange]
    obtain ⟨y, hy, hassigned⟩ :=
      assigned_full (Nat.le_add_right _ _) hstop hfull
    refine ⟨y, hy, hassigned.size, fun p hp => ?_, fun t ht _ => ?_⟩
    · rw [Nat.div_one, Nat.div_one] at hp
      exact hassigned.outside p (by omega)
    · have ht' : t < n := ht
      rw [Nat.div_one]
      refine (hassigned.inside t (by omega) ?_).trans ?_
      · simpa [arange] using ht'
      · simp [arange, positionAt]
  case isFalse hmany =>
    have hcp : 1 < cpSize := by omega
    have hsum := half_add_half (hdvd hcp)
    have hshare := share_eq (hdvd hcp)
    have hle : seqlenPadded / cpSize / 2 * (cpRank + 1) ≤
        seqlenPadded / cpSize / 2 * cpSize := Nat.mul_le_mul_left _ hrank
    have hchunk := fun t (ht : t < seqlenPadded / cpSize / 2 * cpSize) =>
      home_first hcp ht
    have hchunk' := fun t => home_second (t := t) hcp (hdvd hcp)
    have hvalue : ∀ t, positionAt cpSize seqlenPadded dSize t =
        if t < seqlenPadded / cpSize / 2 * cpSize then t
        else seqlenPadded - (min (seqlenPadded - seqlenPadded / cpSize / 2 *
            (home cpSize seqlenPadded t).1) dSize -
              (seqlenPadded - seqlenPadded / cpSize / 2 *
                ((home cpSize seqlenPadded t).1 + 1))) +
          (t - (seqlenPadded - seqlenPadded / cpSize / 2 *
            ((home cpSize seqlenPadded t).1 + 1))) := fun t => by
      simp only [positionAt, hmany, false_or]
    dsimp only
    generalize seqlenPadded / cpSize / 2 = half at *
    have hsucc : half * (cpRank + 1) = half * cpRank + half :=
      Nat.mul_add_one _ _
    have hstop : cuStart / cpSize + half ≤ x.size := by omega
    have hfull : (arange (half * cpRank) (half * (cpRank + 1))).size =
        cuStart / cpSize + half - cuStart / cpSize := by
      simp only [arange]
      omega
    obtain ⟨z, hz, hassigned⟩ :=
      assigned_full (Nat.le_add_right _ _) hstop hfull
    have hzsize := hassigned.size
    generalize hlen : min (seqlenPadded - half * cpRank) dSize -
      (seqlenPadded - half * (cpRank + 1)) = remainLen
    have hsecond : ∃ y, (if 0 < remainLen then
          assign z (cuStart / cpSize + half)
            (cuStart / cpSize + half + remainLen)
            (arange (seqlenPadded - remainLen) seqlenPadded)
        else pure z) = .ok y ∧ y.size = z.size ∧
        (∀ p, p < cuStart / cpSize + half ∨
          cuStart / cpSize + half + remainLen ≤ p → y.get p = z.get p) ∧
        ∀ q < remainLen, y.get (cuStart / cpSize + half + q) =
          seqlenPadded - remainLen + q := by
      split
      · have hstop' : cuStart / cpSize + half + remainLen ≤ z.size := by omega
        have hfull' : (arange (seqlenPadded - remainLen) seqlenPadded).size =
            cuStart / cpSize + half + remainLen -
              (cuStart / cpSize + half) := by
          simp only [arange]
          omega
        obtain ⟨y, hy, hassigned'⟩ :=
          assigned_full (Nat.le_add_right _ _) hstop' hfull'
        exact ⟨y, hy, hassigned'.size, hassigned'.outside,
          fun q hq => hassigned'.inside q (by omega) (by omega)⟩
      · exact ⟨z, rfl, rfl, fun _ _ => rfl, fun q hq => by omega⟩
    obtain ⟨y, hy, hysize, houtside, hinside⟩ := hsecond
    refine ⟨y, bind_eq_ok.mpr ⟨z, hz, hy⟩, hysize.trans hzsize,
      fun p hp => ?_, fun t ht hhome => ?_⟩
    · rw [houtside p (by omega)]
      exact hassigned.outside p (by omega)
    · have ht' : t < n := ht
      change _ = positionAt cpSize seqlenPadded dSize t
      rw [hvalue]
      split
      case isTrue hlt =>
        obtain ⟨r, q, heq, -, hq, htq⟩ := hchunk t hlt
        rw [heq] at hhome ⊢
        obtain rfl : r = cpRank := hhome
        dsimp only
        rw [houtside _ (.inl (by omega)), hassigned.inside q (by omega)
          (by simp only [arange]; omega), htq]
        rfl
      case isFalse hlt =>
        obtain ⟨r, q, heq, -, hq, htq⟩ := hchunk' t hlt (by omega)
        rw [heq] at hhome ⊢
        obtain rfl : r = cpRank := hhome
        dsimp only
        rw [hlen, ← Nat.add_assoc, hinside q (by omega)]
        omega

end OneSequence
section Saves

variable {cpSize cpRank start seqlenPadded n : ℕ} {d : Vec α}

/-- What has been saved for a sequence: at places of its share, the token
after the one that is there, and this at each place where the next token is not
the next entry. -/
structure Saves (cpSize cpRank start seqlenPadded : ℕ) (d : Vec α)
    (tokens : List (ℤ × α)) (positions : List (ℤ × Option ℤ)) : Prop where
  sound : ∀ e ∈ tokens, ∃ off < seqlenPadded / cpSize,
    e.1 = ((start + off : ℕ) : ℤ) ∧ ∀ t, t + 1 < d.size →
      home cpSize seqlenPadded t = (cpRank, off) → e.2 = d.get (t + 1)
  covered : ∀ t, t + 1 < d.size → (home cpSize seqlenPadded t).1 = cpRank →
    (∃ e ∈ tokens,
      e.1 = ((start + (home cpSize seqlenPadded t).2 : ℕ) : ℤ)) ∨
    home cpSize seqlenPadded (t + 1) =
      (cpRank, (home cpSize seqlenPadded t).2 + 1)
  positions : ∀ e ∈ positions,
    (∃ off < seqlenPadded / cpSize, e.1 = ((start + off : ℕ) : ℤ)) ∧
    ∀ k ∈ e.2, ∃ off < seqlenPadded / cpSize, k = ((start + off : ℕ) : ℤ)

/-- A rank that does not share its sequences needs no saved token. -/
theorem saves_alone : Saves 1 0 start seqlenPadded d [] [] where
  sound := fun e he => absurd he (List.not_mem_nil)
  covered := fun t _ _ => .inr (by simp [home])
  positions := fun e he => absurd he (List.not_mem_nil)

theorem exists_saveRolls (cpSize cpRank start seqlenPadded : ℕ) (d : Vec α) :
    (∃ out, saveRolls cpRank start (seqlenPadded / cpSize / 2) seqlenPadded
      d = .ok out) ↔
    seqlenPadded / cpSize / 2 * (cpRank + 1) < d.size := by
  rw [saveRolls, Nat.mul_comm (cpRank + 1)]
  split <;> simp [*]

theorem saves_of_saveRolls (hcp : 1 < cpSize) (hrank : cpRank < cpSize)
    (hdvd : cpSize * 2 ∣ seqlenPadded) (hpos : 0 < seqlenPadded)
    (hsize : d.size ≤ seqlenPadded)
    {out : List (ℤ × α) × List (ℤ × Option ℤ)}
    (hout : saveRolls cpRank start (seqlenPadded / cpSize / 2) seqlenPadded d =
      .ok out) :
    Saves cpSize cpRank start seqlenPadded d out.1 out.2 := by
  have hsum := half_add_half hdvd
  have hshare := share_eq hdvd
  have hle : seqlenPadded / cpSize / 2 * (cpRank + 1) ≤
      seqlenPadded / cpSize / 2 * cpSize := Nat.mul_le_mul_left _ hrank
  have hchunk := fun t (ht : t < seqlenPadded / cpSize / 2 * cpSize) =>
    home_first hcp ht
  have hchunk' := fun t => home_second (t := t) hcp hdvd
  have hback := fun q (hq : q < seqlenPadded / cpSize / 2) =>
    home_of_first hcp hrank hq
  have hback' := fun q (hq : q < seqlenPadded / cpSize / 2) =>
    home_of_second hcp hdvd hrank hq
  rw [saveRolls, Nat.mul_comm (cpRank + 1)] at hout
  generalize seqlenPadded / cpSize / 2 = half at *
  have hhalf : 0 < half := by
    by_contra hzero
    obtain rfl : half = 0 := by omega
    simp only [Nat.zero_mul] at hsum
    omega
  rw [Nat.mul_add_one] at hle hout
  generalize hend : min (seqlenPadded - half * cpRank) d.size = remainEnd
    at hout
  generalize hlen : remainEnd - (seqlenPadded - (half * cpRank + half)) =
    remainLen at hout
  split at hout
  case isFalse => cases hout
  case isTrue hlt =>
    obtain rfl := Except.ok.inj hout
    refine ⟨fun e he => ?_, fun t ht hhome => ?_, fun e he => ?_⟩
    · rcases List.mem_cons.mp he with rfl | he
      · -- the token after the first chunk
        refine ⟨half - 1, by omega, by push_cast; omega,
          fun t ht hhome => ?_⟩
        by_cases hfirst : t < half * cpSize
        · obtain ⟨r, q, heq, -, hq, htq⟩ := hchunk t hfirst
          obtain ⟨hr, hoff⟩ := Prod.mk.inj (heq.symm.trans hhome)
          rw [hr] at htq
          exact congrArg d.get (by omega)
        · obtain ⟨r, q, heq, -⟩ := hchunk' t hfirst (by omega)
          have hoff := (Prod.mk.inj (heq.symm.trans hhome)).2
          omega
      · split at he
        · -- the token after the second one
          obtain rfl := List.mem_singleton.mp he
          refine ⟨half + remainLen - 1, by omega, by push_cast; omega,
            fun t ht hhome => ?_⟩
          by_cases hfirst : t < half * cpSize
          · obtain ⟨r, q, heq, -, hq, -⟩ := hchunk t hfirst
            have hoff := (Prod.mk.inj (heq.symm.trans hhome)).2
            omega
          · obtain ⟨r, q, heq, -, hq, htq⟩ := hchunk' t hfirst (by omega)
            obtain ⟨hr, hoff⟩ := Prod.mk.inj (heq.symm.trans hhome)
            rw [hr, Nat.mul_add_one] at htq
            exact congrArg d.get (by split <;> omega)
        · exact absurd he List.not_mem_nil
    · by_cases hfirst : t < half * cpSize
      · obtain ⟨r, q, heq, -, hq, htq⟩ := hchunk t hfirst
        rw [heq] at hhome ⊢
        obtain rfl : r = cpRank := hhome
        rcases Nat.lt_or_ge (q + 1) half with hnext | hlast
        · right
          rw [htq]
          exact hback (q + 1) hnext
        · exact .inl ⟨_, List.mem_cons_self, by push_cast; omega⟩
      · obtain ⟨r, q, heq, -, hq, htq⟩ := hchunk' t hfirst (by omega)
        rw [heq] at hhome ⊢
        obtain rfl : r = cpRank := hhome
        rw [Nat.mul_add_one] at htq
        rcases Nat.lt_or_ge (q + 1) remainLen with hnext | hlast
        · right
          have hnext' := hback' (q + 1) (by omega)
          rw [Nat.mul_add_one] at hnext'
          rw [htq]
          exact hnext'
        · refine .inl ⟨(start + half + remainLen - 1,
            d.get (if remainEnd = d.size then 0 else remainEnd)),
            List.mem_cons_of_mem _ ?_, by push_cast; omega⟩
          rw [if_pos (by omega)]
          exact List.mem_cons_self
    · rcases List.mem_cons.mp he with rfl | he
      · have hkey : ∃ off < seqlenPadded / cpSize,
            (start + half - 1 : ℤ) = ((start + off : ℕ) : ℤ) :=
          ⟨half - 1, by omega, by push_cast; omega⟩
        exact ⟨hkey, fun k hk => Option.some.inj hk ▸ hkey⟩
      · split at he
        · have hkey : ∃ off < seqlenPadded / cpSize,
              (start + half + remainLen - 1 : ℤ) = ((start + off : ℕ) : ℤ) :=
            ⟨half + remainLen - 1, by omega, by push_cast; omega⟩
          obtain rfl := List.mem_singleton.mp he
          refine ⟨hkey, fun k hk => ?_⟩
          split at hk
          · cases hk
          · exact Option.some.inj hk ▸ hkey
        · exact absurd he List.not_mem_nil

end Saves
section Steps

variable {cpSize cpRank alignSize cuStart seqlenPadded : ℕ} {needRoll : Bool}
  {zero : α} {d : Vec α} {state : ThdState α}

/-- A sequence with the padding that several ranks need. -/
def thdTokens (cpSize alignSize : ℕ) (zero : α) (d : Vec α) : Vec α :=
  if cpSize ≤ 1 then d else padTo alignSize zero d

theorem size_padTo : (padTo alignSize zero d).size = max d.size alignSize := by
  rw [padTo]
  split
  case isTrue hlt => exact (Nat.max_eq_right hlt.le).symm
  case isFalse hle => exact (Nat.max_eq_left (Nat.le_of_not_lt hle)).symm

theorem get_padTo {t : ℕ} (ht : t < d.size) :
    (padTo alignSize zero d).get t = d.get t := by
  rw [padTo]
  split
  · exact if_pos ht
  · rfl

theorem le_size_thdTokens (cpSize alignSize : ℕ) (zero : α) :
    d.size ≤ (thdTokens cpSize alignSize zero d).size := by
  rw [thdTokens]
  split
  · exact le_rfl
  · exact size_padTo ▸ Nat.le_max_left _ _

theorem get_thdTokens {t : ℕ} (ht : t < d.size) :
    (thdTokens cpSize alignSize zero d).get t = d.get t := by
  rw [thdTokens]
  split
  · rfl
  · exact get_padTo ht

/-- Whether a rank returns on a sequence of `n` entries: its first chunk
fits, and there is a token after it to be saved. -/
def ThdFits (cpSize cpRank : ℕ) (needRoll : Bool) (seqlenPadded n : ℕ) :
    Prop :=
  FirstFits cpSize cpRank seqlenPadded n ∧
    (needRoll = true → 1 < cpSize →
      seqlenPadded / cpSize / 2 * (cpRank + 1) < n)

/-- What a rank has done with one sequence. -/
structure WroteThd (cpSize cpRank cuStart seqlenPadded : ℕ) (needRoll : Bool)
    (n : ℕ) (d : Vec α) (state state' : ThdState α) : Prop where
  inputIds : PackedInto cpSize cpRank cuStart seqlenPadded d
    state.inputIdsRmpad state'.inputIdsRmpad
  positionIds : PackedInto cpSize cpRank cuStart seqlenPadded
    ⟨n, positionAt cpSize seqlenPadded d.size⟩
    state.positionIdsRmpad state'.positionIdsRmpad
  saved : ∃ tokens positions,
    state'.savedRollDict = state.savedRollDict ++ tokens ∧
    state'.savedPositionRollDict = state.savedPositionRollDict ++ positions ∧
    (needRoll = true → Saves cpSize cpRank (cuStart / cpSize) seqlenPadded d
      tokens positions)

theorem packThdSequence_spec (needRoll : Bool) (hrank : cpRank < cpSize)
    (heven : 1 < cpSize → cpSize * 2 ∣ seqlenPadded) (hpos : 0 < seqlenPadded)
    (hsize : (thdTokens cpSize alignSize zero d).size ≤ seqlenPadded)
    (hroom : cuStart / cpSize + seqlenPadded / cpSize ≤
      state.inputIdsRmpad.size)
    (hroom' : cuStart / cpSize + seqlenPadded / cpSize ≤
      state.positionIdsRmpad.size) :
    ReturnsIff
      (packThdSequence cpSize cpRank alignSize needRoll zero cuStart
        seqlenPadded d state)
      (ThdFits cpSize cpRank needRoll seqlenPadded
        (thdTokens cpSize alignSize zero d).size)
      (WroteThd cpSize cpRank cuStart seqlenPadded needRoll d.size
        (thdTokens cpSize alignSize zero d) state) := by
  obtain ⟨hids, hwritten⟩ := packSequence_spec hrank heven hsize hroom
  obtain ⟨positions, hpositions, hplaced⟩ := packPositions_spec hrank heven
    (le_size_thdTokens cpSize alignSize zero) hsize hroom'
  rw [packThdSequence]
  split
  case isTrue hone =>
    obtain rfl : cpSize = 1 := by omega
    obtain rfl : cpRank = 0 := by omega
    have htokens : thdTokens 1 alignSize zero d = d := if_pos le_rfl
    rw [htokens] at hids hwritten hpositions hplaced ⊢
    have hfits : FirstFits 1 0 seqlenPadded d.size :=
      fun hmany => absurd hmany (lt_irrefl 1)
    obtain ⟨ids, hok⟩ := hids.mpr hfits
    rw [hok, ok_bind, hpositions, ok_bind]
    refine ⟨iff_of_true ⟨_, rfl⟩ ⟨hfits, fun _ hmany =>
      absurd hmany (lt_irrefl 1)⟩, fun state' hstate' => ?_⟩
    obtain rfl := Except.ok.inj hstate'
    exact ⟨hwritten ids hok, hplaced, [], [], (List.append_nil _).symm,
      (List.append_nil _).symm, fun _ => saves_alone⟩
  case isFalse hmany =>
    have hcp : 1 < cpSize := by omega
    have htokens : thdTokens cpSize alignSize zero d =
      padTo alignSize zero d := if_neg hmany
    rw [htokens] at hids hwritten hpositions hplaced hsize ⊢
    cases needRoll with
    | false =>
        refine ⟨?_, fun state' hstate' => ?_⟩
        · rw [ThdFits, ← hids]
          constructor
          · rintro ⟨state', hstate'⟩
            obtain ⟨ids, hok, -⟩ := bind_eq_ok.mp hstate'
            exact ⟨⟨ids, hok⟩, fun h => absurd h Bool.false_ne_true⟩
          · rintro ⟨⟨ids, hok⟩, -⟩
            exact ⟨_, bind_eq_ok.mpr ⟨ids, hok,
              bind_eq_ok.mpr ⟨positions, hpositions, rfl⟩⟩⟩
        · obtain ⟨ids, hok, hrest⟩ := bind_eq_ok.mp hstate'
          rw [hpositions, ok_bind] at hrest
          obtain rfl := Except.ok.inj hrest
          exact ⟨hwritten ids hok, hplaced, [], [],
            (List.append_nil _).symm, (List.append_nil _).symm,
            fun h => absurd h Bool.false_ne_true⟩
    | true =>
        have hrolls := exists_saveRolls cpSize cpRank (cuStart / cpSize)
          seqlenPadded (padTo alignSize zero d)
        refine ⟨?_, fun state' hstate' => ?_⟩
        · constructor
          · rintro ⟨state', hstate'⟩
            obtain ⟨ids, hok, hrest⟩ := bind_eq_ok.mp hstate'
            rw [hpositions, ok_bind] at hrest
            obtain ⟨out, hout, -⟩ := bind_eq_ok.mp hrest
            exact ⟨hids.mp ⟨ids, hok⟩, fun _ _ => hrolls.mp ⟨out, hout⟩⟩
          · rintro ⟨hfits, htoken⟩
            obtain ⟨ids, hok⟩ := hids.mpr hfits
            obtain ⟨out, hout⟩ := hrolls.mpr (htoken rfl hcp)
            exact ⟨_, bind_eq_ok.mpr ⟨ids, hok, bind_eq_ok.mpr ⟨positions,
              hpositions, bind_eq_ok.mpr ⟨out, hout, rfl⟩⟩⟩⟩
        · obtain ⟨ids, hok, hrest⟩ := bind_eq_ok.mp hstate'
          rw [hpositions, ok_bind] at hrest
          obtain ⟨out, hout, hret⟩ := bind_eq_ok.mp hrest
          obtain rfl := Except.ok.inj hret
          exact ⟨hwritten ids hok, hplaced, out.1, out.2, rfl, rfl, fun _ =>
            saves_of_saveRolls hcp hrank (heven hcp) hpos hsize hout⟩

end Steps
section Batches

variable {cpSize cpRank alignSize batchSize : ℕ} {needRoll : Bool} {zero : α}
  {padded : ℕ → ℕ} {inputIds : ℕ → Vec α}

/-- The state of a rank after the first sequences. -/
structure ThdPacked (cpSize cpRank alignSize : ℕ) (needRoll : Bool) (zero : α)
    (padded : ℕ → ℕ) (inputIds : ℕ → Vec α) (size k : ℕ) (s : ThdState α) :
    Prop where
  idsSize : s.inputIdsRmpad.size = size
  positionsSize : s.positionIdsRmpad.size = size
  idsPlaced : ∀ i < k, Placed cpSize cpRank (∑ j ∈ range i, padded j) (padded i)
    (thdTokens cpSize alignSize zero (inputIds i)) s.inputIdsRmpad
  positionsPlaced : ∀ i < k, Placed cpSize cpRank (∑ j ∈ range i, padded j)
    (padded i) ⟨(inputIds i).size, positionAt cpSize (padded i)
      (thdTokens cpSize alignSize zero (inputIds i)).size⟩ s.positionIdsRmpad
  saved : needRoll = true → ∃ tokens positions,
    s.savedRollDict = (List.range k).flatMap tokens ∧
    s.savedPositionRollDict = (List.range k).flatMap positions ∧
    ∀ i < k, Saves cpSize cpRank ((∑ j ∈ range i, padded j) / cpSize)
      (padded i) (thdTokens cpSize alignSize zero (inputIds i)) (tokens i)
      (positions i)

/-- A list for one more index. -/
theorem flatMap_range_update {ι : Type} (f : ℕ → List ι) (k : ℕ)
    (xs : List ι) :
    (List.range (k + 1)).flatMap (Function.update f k xs) =
      (List.range k).flatMap f ++ xs := by
  have hsame : (List.range k).flatMap (Function.update f k xs) =
      (List.range k).flatMap f :=
    List.flatMap_congr fun i hi =>
      Function.update_of_ne (List.mem_range.mp hi).ne _ _
  rw [List.range_succ, List.flatMap_append, hsame]
  simp

/-- What has been placed stays where later sequences do not write. -/
theorem Placed.frame {x y : Vec α} {d : Vec α} {i k : ℕ} (hcp : 0 < cpSize)
    (hdvd : ∀ i, cpSize ∣ padded i)
    (heven : 1 < cpSize → ∀ i, cpSize * 2 ∣ padded i)
    (hik : i < k) (hsize : d.size ≤ padded i)
    (hx : Placed cpSize cpRank (∑ j ∈ range i, padded j) (padded i) d x)
    (hframe : ∀ p < (∑ j ∈ range k, padded j) / cpSize, y.get p = x.get p) :
    Placed cpSize cpRank (∑ j ∈ range i, padded j) (padded i) d y := by
  intro t ht hhome
  have hlt := (home_lt hcp (fun hmany => heven hmany i)
    (ht.trans_le hsize)).2
  have hbefore := share_before hdvd hik
  rw [hframe _ (by omega)]
  exact hx t ht hhome

/-- A rank packs a batch exactly when it can pack each sequence. -/
theorem packThdSequences_spec (needRoll : Bool) (batchSize : ℕ) {size : ℕ}
    (hrank : cpRank < cpSize) (hdvd : ∀ i, cpSize ∣ padded i)
    (heven : 1 < cpSize → ∀ i, cpSize * 2 ∣ padded i)
    (hpos : ∀ i < batchSize, 0 < padded i)
    (hsize : ∀ i < batchSize,
      (thdTokens cpSize alignSize zero (inputIds i)).size ≤ padded i)
    (hroom : size = (∑ i ∈ range batchSize, padded i) / cpSize) :
    ReturnsIff
      (tryRange batchSize
        (⟨⟨size, fun _ => zero⟩, ⟨size, fun _ => 0⟩, [], []⟩ : ThdState α)
        fun i => packThdSequence cpSize cpRank alignSize needRoll zero
          (∑ j ∈ range i, padded j) (padded i) (inputIds i))
      (∀ i < batchSize, ThdFits cpSize cpRank needRoll (padded i)
        (thdTokens cpSize alignSize zero (inputIds i)).size)
      (ThdPacked cpSize cpRank alignSize needRoll zero padded inputIds size
        batchSize) := by
  have hcp : 0 < cpSize := Nat.zero_lt_of_lt hrank
  let P := ThdPacked cpSize cpRank alignSize needRoll zero padded inputIds size
  have hinit : P 0 ⟨⟨size, fun _ => zero⟩, ⟨size, fun _ => 0⟩, [], []⟩ :=
    ⟨rfl, rfl, fun i hi => absurd hi (Nat.not_lt_zero i),
      fun i hi => absurd hi (Nat.not_lt_zero i), fun _ =>
      ⟨fun _ => [], fun _ => [], rfl, rfl,
        fun i hi => absurd hi (Nat.not_lt_zero i)⟩⟩
  have hspec := fun k (hk : k < batchSize) (s : ThdState α) (hs : P k s) =>
    packThdSequence_spec needRoll hrank
      (fun hmany => heven hmany k) (hpos k hk) (hsize k hk)
      ((share_before hdvd hk).trans (hs.idsSize.trans hroom).ge)
      ((share_before hdvd hk).trans (hs.positionsSize.trans hroom).ge)
  refine tryRange_spec P _ hinit fun k hk s hs =>
    ⟨(hspec k hk s hs).1, fun s' hs' => ?_⟩
  have hwrote := (hspec k hk s hs).2 s' hs'
  refine ⟨hwrote.inputIds.size.trans hs.idsSize,
    hwrote.positionIds.size.trans hs.positionsSize, fun i hi => ?_,
    fun i hi => ?_, fun hroll => ?_⟩
  · rcases Nat.lt_succ_iff_lt_or_eq.mp hi with hi | rfl
    · exact (hs.idsPlaced i hi).frame hcp hdvd heven hi
        (hsize i (hi.trans hk)) fun p hp =>
          hwrote.inputIds.outside p (.inl hp)
    · exact hwrote.inputIds.placed
  · rcases Nat.lt_succ_iff_lt_or_eq.mp hi with hi | rfl
    · exact (hs.positionsPlaced i hi).frame hcp hdvd heven hi
        ((le_size_thdTokens cpSize alignSize zero).trans
          (hsize i (hi.trans hk))) fun p hp =>
            hwrote.positionIds.outside p (.inl hp)
    · exact hwrote.positionIds.placed
  · obtain ⟨tokens, positions, htokens, hpositions, hsaves⟩ := hs.saved hroll
    obtain ⟨new, new', hnew, hnew', hsave⟩ := hwrote.saved
    refine ⟨Function.update tokens k new, Function.update positions k new',
      ?_, ?_, fun i hi => ?_⟩
    · rw [hnew, htokens, flatMap_range_update]
    · rw [hnew', hpositions, flatMap_range_update]
    · rcases Nat.lt_succ_iff_lt_or_eq.mp hi with hi | rfl
      · rw [Function.update_of_ne hi.ne, Function.update_of_ne hi.ne]
        exact hsaves i hi
      · rw [Function.update_self, Function.update_self]
        exact hsave hroll

end Batches
section Rolling

variable {cpSize cpRank alignSize batchSize size : ℕ} {zero : α}
  {padded : ℕ → ℕ} {inputIds : ℕ → Vec α} {s : ThdState α}

/-- Two places of shares that are the same place. -/
theorem share_inj (hdvd : ∀ i, cpSize ∣ padded i) {i j off off' : ℕ}
    (hoff : off < padded i / cpSize) (hoff' : off' < padded j / cpSize)
    (heq : (∑ k ∈ range i, padded k) / cpSize + off =
      (∑ k ∈ range j, padded k) / cpSize + off') : i = j := by
  by_contra hne
  rcases Nat.lt_or_gt_of_ne hne with hlt | hlt
  · have hbefore := share_before hdvd hlt
    omega
  · have hbefore := share_before hdvd hlt
    omega

/-- After a rank has rolled its buffer and put back what it saved, each token
has been replaced by the one that follows in its sequence. -/
theorem rollBuffers_spec (hrank : cpRank < cpSize)
    (hdvd : ∀ i, cpSize ∣ padded i)
    (heven : 1 < cpSize → ∀ i, cpSize * 2 ∣ padded i)
    (hsize : ∀ i < batchSize,
      (thdTokens cpSize alignSize zero (inputIds i)).size ≤ padded i)
    (hroom : size = (∑ i ∈ range batchSize, padded i) / cpSize)
    (hs : ThdPacked cpSize cpRank alignSize true zero padded inputIds size
      batchSize s) :
    ∃ out, rollBuffers s = .ok out ∧ out.1.size = size ∧
      ∀ i < batchSize, ∀ t,
        t + 1 < (thdTokens cpSize alignSize zero (inputIds i)).size →
        (home cpSize (padded i) t).1 = cpRank →
        out.1.get ((∑ j ∈ range i, padded j) / cpSize +
            (home cpSize (padded i) t).2) =
          (thdTokens cpSize alignSize zero (inputIds i)).get (t + 1) := by
  have hcp : 0 < cpSize := Nat.zero_lt_of_lt hrank
  obtain ⟨tokens, positions, htokens, hpositions, hsaves⟩ := hs.saved rfl
  have hplace : ∀ i < batchSize, ∀ off < padded i / cpSize,
      (∑ j ∈ range i, padded j) / cpSize + off < size := by
    intro i hi off hoff
    have hbefore := share_before hdvd hi
    omega
  have hkeys : ∀ e ∈ s.savedRollDict, ∃ p < (roll s.inputIdsRmpad).size,
      e.1 = (p : ℤ) := by
    intro e he
    rw [htokens] at he
    obtain ⟨i, hi, he⟩ := List.mem_flatMap.mp he
    have hi' := List.mem_range.mp hi
    obtain ⟨off, hoff, hkey, -⟩ := (hsaves i hi').sound e he
    exact ⟨_, hs.idsSize.symm ▸ hplace i hi' off hoff, hkey⟩
  obtain ⟨ids, hids, hidsSize, hnone, hsome⟩ := foldlM_setItem hkeys
  have hrest : ∃ y : Vec ℕ, s.savedPositionRollDict.foldlM
      (fun x entry => do
        let v ← match entry.2 with
          | some k => do
              let p ← index s.positionIdsRmpad.size k
              pure (s.positionIdsRmpad.get p)
          | none => pure 0
        setItem x entry.1 v) (roll s.positionIdsRmpad) = .ok y ∧
      y.size = size := by
    apply exists_foldlM (fun y : Vec ℕ => y.size = size)
      (show (roll s.positionIdsRmpad).size = size from hs.positionsSize)
    intro e he x hx
    rw [hpositions] at he
    obtain ⟨i, hi, he⟩ := List.mem_flatMap.mp he
    have hi' := List.mem_range.mp hi
    obtain ⟨⟨off, hoff, hkey⟩, hview⟩ := (hsaves i hi').positions e he
    have hlt : (∑ j ∈ range i, padded j) / cpSize + off < x.size :=
      hx.symm ▸ hplace i hi' off hoff
    cases hvalue : e.2 with
    | none =>
        rw [hkey]
        exact ⟨_, setItem_of_lt hlt 0, hx⟩
    | some k =>
        obtain ⟨off', hoff', rfl⟩ := hview k hvalue
        dsimp only
        rw [index_of_lt (hs.positionsSize.symm ▸ hplace i hi' off' hoff'),
          hkey]
        exact ⟨_, setItem_of_lt hlt _, hx⟩
  obtain ⟨pos, hpos, -⟩ := hrest
  refine ⟨(ids, pos), bind_eq_ok.mpr ⟨ids, hids, bind_eq_ok.mpr
    ⟨pos, hpos, rfl⟩⟩, hidsSize.trans hs.idsSize,
    fun i hi t ht hhome => ?_⟩
  have hlt := (home_lt hcp (fun hmany => heven hmany i)
    (show t < padded i by have := hsize i hi; omega)).2
  have hlt' := (home_lt hcp (fun hmany => heven hmany i)
    (ht.trans_le (hsize i hi))).2
  by_cases hex : ∃ e ∈ s.savedRollDict, e.1 =
      (((∑ j ∈ range i, padded j) / cpSize +
        (home cpSize (padded i) t).2 : ℕ) : ℤ)
  · -- a saved token is at this place
    apply hsome _ _ hex
    intro e he hkey
    rw [htokens] at he
    obtain ⟨i', hi', he⟩ := List.mem_flatMap.mp he
    obtain ⟨off, hoff, hkey', htoken⟩ :=
      (hsaves i' (List.mem_range.mp hi')).sound e he
    have heq := Int.ofNat_inj.mp (hkey.symm.trans hkey')
    obtain rfl := share_inj hdvd hlt hoff heq
    exact htoken t ht (Prod.ext hhome (Nat.add_left_cancel heq))
  · -- the next token was the next entry
    rcases (hsaves i hi).covered t ht hhome with ⟨e, he, hkey⟩ | hnext
    · refine absurd ⟨e, ?_, hkey⟩ hex
      rw [htokens]
      exact List.mem_flatMap.mpr ⟨i, List.mem_range.mpr hi, he⟩
    · rw [hnext] at hlt'
      have hlast := hplace i hi _ hlt'
      rw [hnone _ fun e he hkey => hex ⟨e, he, hkey⟩, roll, hs.idsSize]
      dsimp only at hlast ⊢
      rw [Nat.mod_eq_of_lt (by omega)]
      have hplaced := hs.idsPlaced i hi (t + 1) ht (congrArg Prod.fst hnext)
      rwa [hnext] at hplaced

end Rolling
section RoundTrip

variable {par : ParallelState} {useFp8Padding : Bool} {zero : α}
  {batchSize : ℕ} {inputIds : ℕ → Vec α}

/-- A sequence with its padding is no longer than its padded length. -/
theorem size_thdTokens_le (zero : α)
    (hpos : ∀ i < batchSize, 0 < (inputIds i).size) {i : ℕ}
    (hi : i < batchSize) :
    (thdTokens par.cpSize (alignSize par useFp8Padding) zero
      (inputIds i)).size ≤ seqlensPadded par useFp8Padding batchSize
        (fun i => (inputIds i).size) i := by
  have hle := le_seqlensPadded par useFp8Padding batchSize
    (fun i => (inputIds i).size) i
  have halign := Nat.le_of_dvd ((hpos i hi).trans_le hle)
    (alignSize_dvd_seqlensPadded par useFp8Padding batchSize _ i)
  rw [thdTokens]
  split
  · exact hle
  · exact size_padTo ▸ Nat.max_le.mpr ⟨hle, halign⟩

theorem preprocessThdNoPadding_spec (par : ParallelState)
    (needRoll useFp8Padding : Bool) (zero : α) (hbatch : 0 < batchSize)
    (hpos : ∀ i < batchSize, 0 < (inputIds i).size) {cpRank : ℕ}
    (hrank : cpRank < par.cpSize) :
    ((∃ out, preprocessThdNoPadding par needRoll useFp8Padding zero cpRank
          batchSize inputIds = .ok out) ↔
        ∀ i < batchSize, ThdFits par.cpSize cpRank needRoll
          (seqlensPadded par useFp8Padding batchSize
            (fun i => (inputIds i).size) i)
          (thdTokens par.cpSize (alignSize par useFp8Padding) zero
            (inputIds i)).size) ∧
      ∀ out, preprocessThdNoPadding par needRoll useFp8Padding zero cpRank
          batchSize inputIds = .ok out →
        out.2.1.cuSeqlensQPadded = cuSeqlensPadded par useFp8Padding batchSize
            (fun i => (inputIds i).size) ∧
        ∃ s, ThdPacked par.cpSize cpRank (alignSize par useFp8Padding) needRoll
            zero (seqlensPadded par useFp8Padding batchSize
              fun i => (inputIds i).size) inputIds
            (cuSeqlensPadded par useFp8Padding batchSize
              (fun i => (inputIds i).size) batchSize / par.cpSize)
            batchSize s ∧
          if needRoll then rollBuffers s = .ok (out.1, out.2.2)
          else out.1 = s.inputIdsRmpad ∧ out.2.2 = s.positionIdsRmpad := by
  have hpadded : ∀ i < batchSize, 0 < seqlensPadded par useFp8Padding
      batchSize (fun i => (inputIds i).size) i := fun i hi =>
    (hpos i hi).trans_le (le_seqlensPadded par useFp8Padding batchSize
      (fun i => (inputIds i).size) i)
  have hpack := packThdSequences_spec needRoll batchSize hrank
    (cpSize_dvd (fun i => (inputIds i).size))
    (fun hmany => two_mul_cpSize_dvd hmany _) hpadded
    (fun i hi => size_thdTokens_le zero hpos hi) rfl
  simp only [preprocessThdNoPadding, if_neg hbatch.ne']
  cases needRoll with
  | false =>
      refine ⟨?_, fun out hout => ?_⟩
      · rw [← hpack.1]
        constructor
        · rintro ⟨out, hout⟩
          obtain ⟨s, hs, -⟩ := bind_eq_ok.mp hout
          exact ⟨s, hs⟩
        · rintro ⟨s, hs⟩
          exact ⟨_, bind_eq_ok.mpr ⟨s, hs, rfl⟩⟩
      · obtain ⟨s, hs, hret⟩ := bind_eq_ok.mp hout
        obtain rfl := Except.ok.inj hret
        exact ⟨rfl, s, hpack.2 s hs, rfl, rfl⟩
  | true =>
      refine ⟨?_, fun out hout => ?_⟩
      · rw [← hpack.1]
        constructor
        · rintro ⟨out, hout⟩
          obtain ⟨s, hs, -⟩ := bind_eq_ok.mp hout
          exact ⟨s, hs⟩
        · rintro ⟨s, hs⟩
          obtain ⟨rolled, hrolled, -⟩ := rollBuffers_spec hrank (cpSize_dvd _)
            (fun hmany => two_mul_cpSize_dvd hmany _)
            (fun i hi => size_thdTokens_le zero hpos hi) rfl (hpack.2 s hs)
          exact ⟨_, bind_eq_ok.mpr ⟨s, hs, bind_eq_ok.mpr
            ⟨rolled, hrolled, rfl⟩⟩⟩
      · obtain ⟨s, hs, hrest⟩ := bind_eq_ok.mp hout
        obtain ⟨rolled, hrolled, hret⟩ := bind_eq_ok.mp hrest
        obtain rfl := Except.ok.inj hret
        exact ⟨rfl, s, hpack.2 s hs, hrolled⟩

/-- The sequences of a batch by their lengths and entries. -/
def IsBatch (batchSize : ℕ) (seqLens : ℕ → ℕ) (z : ℕ → ℕ → β)
    (result : List (Vec β)) : Prop :=
  result.length = batchSize ∧ ∀ i < batchSize, ∃ y, result[i]? = some y ∧
    y.size = seqLens i ∧ ∀ t < seqLens i, y.get t = z i t

/-- What is at the homes of the tokens makes up the sequences again. -/
theorem postprocessThdNoPadding_spec (outputList : ℕ → Vec β)
    (empty : ℕ → ℕ → β) {params : PackedSeqParams} {seqLens : ℕ → ℕ}
    (hparams : params.cuSeqlensQPadded =
      cuSeqlensPadded par useFp8Padding batchSize seqLens)
    (hsize : ∀ r < par.cpSize, (outputList r).size =
      cuSeqlensPadded par useFp8Padding batchSize seqLens batchSize /
        par.cpSize) :
    ∃ result, postprocessThdNoPadding par outputList empty params batchSize
        seqLens = .ok result ∧
      IsBatch batchSize seqLens (fun i t =>
        let place := home par.cpSize
          (seqlensPadded par useFp8Padding batchSize seqLens i) t
        (outputList place.1).get (cuSeqlensPadded par useFp8Padding batchSize
          seqLens i / par.cpSize + place.2)) result := by
  apply exists_tryRange (fun k result => IsBatch k seqLens (fun i t =>
    let place := home par.cpSize
      (seqlensPadded par useFp8Padding batchSize seqLens i) t
    (outputList place.1).get (cuSeqlensPadded par useFp8Padding batchSize
      seqLens i / par.cpSize + place.2)) result)
  · exact ⟨rfl, fun i hi => absurd hi (Nat.not_lt_zero i)⟩
  · intro k hk result hresult
    have hstop : cuSeqlensPadded par useFp8Padding batchSize seqLens (k + 1) -
        cuSeqlensPadded par useFp8Padding batchSize seqLens k =
          seqlensPadded par useFp8Padding batchSize seqLens k := by
      rw [cuSeqlensPadded, sum_range_succ, ← cuSeqlensPadded,
        Nat.add_sub_cancel_left]
    obtain ⟨y, hy, hysize, hyget⟩ := unpackSequence_spec outputList (empty k)
      _ par.cp_pos (hstop ▸ cpSize_dvd _ k)
      (fun hmany => hstop ▸ two_mul_cpSize_dvd hmany _ k)
      (hstop ▸ le_seqlensPadded par useFp8Padding batchSize seqLens k)
      (fun r hr => by
        rw [hstop, hsize r hr]
        exact share_before (cpSize_dvd _) hk)
      (fun t _ => rfl)
    refine ⟨result ++ [y], ?_, by simp [hresult.1], fun i hi => ?_⟩
    · rw [hparams, hy]
      rfl
    · rcases Nat.lt_succ_iff_lt_or_eq.mp hi with hi | rfl
      · rw [List.getElem?_append_left (hresult.1.symm ▸ hi)]
        exact hresult.2 i hi
      · refine ⟨y, ?_, hysize, fun t ht => ?_⟩
        · rw [← hresult.1, List.getElem?_concat_length]
        · rw [hyget t ht, hstop]

end RoundTrip
section AllRanks

variable {cpSize seqlenPadded n dSize : ℕ}

theorem forall_thdFits_iff (hcp : 0 < cpSize) :
    (∀ cpRank < cpSize, ThdFits cpSize cpRank true seqlenPadded n) ↔
      (1 < cpSize → seqlenPadded / cpSize / 2 * cpSize < n) := by
  simp only [ThdFits, FirstFits, true_implies]
  generalize seqlenPadded / cpSize / 2 = half
  constructor
  · intro hfits hmany
    have hlast := (hfits (cpSize - 1) (by omega)).2 hmany
    rwa [Nat.sub_add_cancel hcp] at hlast
  · intro htoken r hr
    have hle : half * (r + 1) ≤ half * cpSize := Nat.mul_le_mul_left half hr
    have hsucc := Nat.mul_add_one half r
    refine ⟨fun hmany => .inl ?_, fun hmany => hle.trans_lt (htoken hmany)⟩
    have hlt := htoken hmany
    omega

/-- The position ids are the places in the sequence exactly where no token
is in a second chunk. -/
theorem forall_positionAt_iff (heven : 1 < cpSize → cpSize * 2 ∣ seqlenPadded)
    (hn : n ≤ dSize) (hsize : dSize ≤ seqlenPadded) :
    (∀ t < n, positionAt cpSize seqlenPadded dSize t = t) ↔
      (1 < cpSize → n ≤ seqlenPadded / cpSize / 2 * cpSize) := by
  constructor
  · intro hpositions hmany
    by_contra hlong
    -- the first token of the last rank's second chunk
    have hlt : seqlenPadded / cpSize / 2 * cpSize < n := Nat.lt_of_not_le hlong
    have hposition := hpositions _ hlt
    have hsum := half_add_half (heven hmany)
    obtain ⟨r, q, hhome, hr, hq, hplace⟩ := home_second hmany (heven hmany)
      (lt_irrefl _) (hlt.trans_le (hn.trans hsize))
    simp only [positionAt, hhome] at hposition
    generalize seqlenPadded / cpSize / 2 = half at *
    have hle : half * (r + 1) ≤ half * cpSize := Nat.mul_le_mul_left half hr
    have htwo : half * 2 ≤ half * cpSize := Nat.mul_le_mul_left half hmany
    rw [if_neg (by omega)] at hposition
    rw [Nat.mul_add_one] at *
    omega
  · intro hshort t ht
    rw [positionAt]
    refine if_pos ?_
    by_cases hmany : 1 < cpSize
    · exact .inr (ht.trans_le (hshort hmany))
    · exact .inl (Nat.le_of_not_lt hmany)

end AllRanks

section Results

variable {batchSize : ℕ} {inputIds : ℕ → Vec α}

theorem size_thdTokens (zero : α) {cpSize alignSize : ℕ} {d : Vec α}
    (hcp : 1 < cpSize) :
    (thdTokens cpSize alignSize zero d).size = max d.size alignSize := by
  rw [thdTokens, if_neg (Nat.not_le.mpr hcp), size_padTo]

theorem fits_thdTokens_iff (zero : α) {cpSize alignSize seqlenPadded : ℕ}
    {d : Vec α} :
    Fits cpSize seqlenPadded (thdTokens cpSize alignSize zero d).size ↔
      Fits cpSize seqlenPadded (max d.size alignSize) := by
  rw [thdTokens]
  split
  case isTrue hone => exact iff_of_true (.inl hone) (.inl hone)
  case isFalse => rw [size_padTo]

/-- Sequences have the entries that their places have. -/
theorem isBatch_iff {n : ℕ → ℕ} {z z' : ℕ → ℕ → β} {result : List (Vec β)}
    (h : IsBatch batchSize n z result) :
    IsBatch batchSize n z' result ↔
      ∀ i < batchSize, ∀ t < n i, z i t = z' i t := by
  constructor
  · intro h' i hi t ht
    obtain ⟨y, hy, -, hget⟩ := h.2 i hi
    obtain ⟨y', hy', -, hget'⟩ := h'.2 i hi
    obtain rfl := Option.some.inj (hy.symm.trans hy')
    exact (hget t ht).symm.trans (hget' t ht)
  · intro hz
    refine ⟨h.1, fun i hi => ?_⟩
    obtain ⟨y, hy, hsize, hget⟩ := h.2 i hi
    exact ⟨y, hy, hsize, fun t ht => (hget t ht).trans (hz i hi t ht)⟩

/-- Every token of a sequence has a home. -/
theorem home_inputIds (par : ParallelState) (useFp8Padding : Bool)
    (batchSize : ℕ) (inputIds : ℕ → Vec α) {i t : ℕ}
    (ht : t < (inputIds i).size) :
    (home par.cpSize (seqlensPadded par useFp8Padding batchSize
      (fun i => (inputIds i).size) i) t).1 < par.cpSize :=
  (home_lt par.cp_pos (fun hmany => two_mul_cpSize_dvd hmany _ i)
    (ht.trans_le (le_seqlensPadded par useFp8Padding batchSize
      (fun i => (inputIds i).size) i))).1

end Results
section Witness

def threeIds (_ : ℕ) : Vec ℕ := ⟨3, fun t => 5 + t⟩

theorem threeIds_pos : ∀ i < 1, 0 < (threeIds i).size :=
  fun _ _ => Nat.succ_pos 2

end Witness

end SelfDistillation.ContextParallel
