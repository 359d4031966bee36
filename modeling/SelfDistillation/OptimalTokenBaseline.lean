/-
Optimal token baselines (verl/trainer/ppo/core_algos.py): the single-turn
estimator works on padded rows, the multi-turn one on compacted rows that it
scatters back.  A baseline is computed for every token of a prompt's responses.
-/
import SelfDistillation.Library.Grouping

namespace SelfDistillation

namespace OptimalTokenBaseline

open Grouping

/-- What the estimators are called with: the rewards, the binary mask, the
prompt of each row, and what the path variance is computed from. -/
structure Trajectories (F κ : Type) (bs len : Nat) where
  tokenLevelRewards : Fin bs → Fin len → F
  responseMask : Fin bs → Fin len → Bool
  index : Fin bs → κ
  oldLogProbs : Fin bs → Fin len → F
  sumPiSquared : Fin bs → Fin len → F
  rolloutIsWeights : Option (Fin bs → Fin len → F)

variable {F κ : Type} [Field F] {bs len width : Nat}

/-- An entry of the mask as a factor. -/
def factor (live : Bool) : F := if live then 1 else 0

/-- `row.flip(dims=[-1])` -/
def flipRow (row : Fin len → F) (t : Fin len) : F := row t.rev

/-- `row.cumsum(dim=-1)` -/
def cumsum (row : Fin len → F) (t : Fin len) : F := ∑ s ∈ Finset.Iic t, row s

namespace Trajectories

variable (b : Trajectories F κ bs len) (exp : F → F)

/-- The returns, the rewards to go. -/
def returns (i : Fin bs) : Fin len → F :=
  flipRow (cumsum (flipRow fun t =>
    b.tokenLevelRewards i t * factor (b.responseMask i t)))

/-- `w_per_timestep` -/
def wPerTimestep (i : Fin bs) (t : Fin len) : F :=
  let piT := exp (b.oldLogProbs i t)
  let w := 1 - (2 : Nat) * piT + b.sumPiSquared i t
  match b.rolloutIsWeights with
  | some weights => w * weights i t ^ 2
  | none => w

/-- `w_cumulative` -/
def wCumulative (i : Fin bs) : Fin len → F :=
  cumsum fun t => b.wPerTimestep exp i t * factor (b.responseMask i t)

/-- `response_mask.sum(dim=-1)` -/
def responseLength (i : Fin bs) : Nat := ∑ t, (b.responseMask i t).toNat

end Trajectories

/-- The trajectory that is longer than all others and the second largest
length, if there is such a trajectory. -/
def longestAlone (responseLengths : List Nat) : Option (Nat × Nat) :=
  let sortedLengths := responseLengths.insertionSort (· ≤ ·)
  let maxLength := sortedLengths.getD (sortedLengths.length - 1) 0
  let secondMaxLength := sortedLengths.getD (sortedLengths.length - 2) 0
  -- the positions of `response_lengths == max_length`
  let maxLengthIdx := (List.range responseLengths.length).filter fun k =>
    responseLengths[k]? = some maxLength
  match maxLengthIdx with
  | [k] =>
      if maxLength > secondMaxLength then some (k, secondMaxLength) else none
  | _ => none

/-- `baselines[traj_idx] = values`, and with `handle_zero_tail` no baseline
for what the longest trajectory has beyond all others. -/
def assignBaselines (handleZeroTail : Bool) (responseLength : Fin bs → Nat)
    (trajectoryIndices : List (Fin bs)) (values : Fin width → F)
    (baselines : Fin bs → Fin width → F) : Fin bs → Fin width → F :=
  let baselines := fun i => if i ∈ trajectoryIndices then values
    else baselines i
  if handleZeroTail then
    match longestAlone (trajectoryIndices.map responseLength) with
    | some (k, secondMaxLength) => fun i t =>
        if trajectoryIndices[k]? = some i ∧ secondMaxLength ≤ t.val then 0
        else baselines i t
    | none => baselines
  else baselines

section Estimators

variable [DecidableEq κ] (exp : F → F) (b : Trajectories F κ bs len)
  (handleZeroTail : Bool) (epsilon : F)

/-- The body of the single-turn loop over the groups. -/
def singleTurnGroup (baselines : Fin bs → Fin len → F)
    (trajectoryIndices : List (Fin bs)) : Fin bs → Fin len → F :=
  if trajectoryIndices.length = 1 then baselines
  else
    let numerator := fun t => (trajectoryIndices.map fun j =>
      b.returns j t * b.wCumulative exp j t * factor (b.responseMask j t)).sum
    let denominator := fun t => (trajectoryIndices.map fun j =>
      b.wCumulative exp j t * factor (b.responseMask j t)).sum + epsilon
    assignBaselines handleZeroTail b.responseLength trajectoryIndices
      (fun t => numerator t / denominator t) baselines

/-- `compute_optimal_token_baseline_advantage` -/
def computeOptimalTokenBaselineAdvantage :
    (Fin bs → Fin len → F) × (Fin bs → Fin len → F) :=
  let promptGroups := collect b.index id (List.finRange bs)
  let baselines := promptGroups.foldl (fun baselines group =>
    singleTurnGroup exp b handleZeroTail epsilon baselines group.2) 0
  (fun i t => (b.returns i t - baselines i t) * factor (b.responseMask i t),
    b.returns)

/-- `values[mask]` of a row. -/
def select (mask : Fin len → Bool) (values : Fin len → F) : List F :=
  ((List.finRange len).filter mask).map values

/-- A row of zeros after `row[mask] = values`. -/
def scatter (mask : Fin len → Bool) (values : List F) (t : Fin len) : F :=
  if mask t then values.getD (((List.finRange len).filter mask).idxOf t) 0
  else 0

/-- `max_response_length` -/
def maxResponseLength : Nat := Finset.univ.sup b.responseLength

/-- `all_w_values` or `all_returns` after the loop over the rows: the live
values of a row at its start, zeros behind them. -/
def compact (values : Fin bs → Fin len → F) (i : Fin bs)
    (k : Fin (maxResponseLength b)) : F :=
  if b.responseLength i = 0 then 0
  else (select (b.responseMask i) (values i)).getD k 0

/-- The body of the multi-turn loop over the groups. -/
def multiTurnGroup (baselines : Fin bs → Fin (maxResponseLength b) → F)
    (trajectoryIndices : List (Fin bs)) :
    Fin bs → Fin (maxResponseLength b) → F :=
  if trajectoryIndices.length = 1 then
    fun i => if trajectoryIndices.head? = some i then 0 else baselines i
  else
    let allWValues := compact b (b.wCumulative exp)
    let allReturns := compact b b.returns
    let bStar := fun k =>
      (trajectoryIndices.map fun j => allReturns j k * allWValues j k).sum /
        ((trajectoryIndices.map fun j => allWValues j k).sum + epsilon)
    assignBaselines handleZeroTail b.responseLength trajectoryIndices bStar
      baselines

/-- `compute_multi_turn_optimal_token_baseline_advantage` -/
def computeMultiTurnOptimalTokenBaselineAdvantage :
    (Fin bs → Fin len → F) × (Fin bs → Fin len → F) :=
  let promptGroups := collect b.index id
    ((List.finRange bs).filter fun i => b.responseLength i ≠ 0)
  let baselines := promptGroups.foldl (fun baselines group =>
    multiTurnGroup exp b handleZeroTail epsilon baselines group.2) 0
  let allAdvantages := fun i k => compact b b.returns i k - baselines i k
  let advantages := fun i =>
    if b.responseLength i = 0 then 0
    else scatter (b.responseMask i)
      ((List.ofFn (allAdvantages i)).take (b.responseLength i))
  (fun i t => advantages i t * factor (b.responseMask i t), b.returns)

end Estimators

section ZeroTail

/-- The largest length of a list of at least two and the one before it. -/
theorem exists_insertionSort_eq {lengths : List Nat}
    (htwo : 2 ≤ lengths.length) :
    ∃ rest second max, lengths.insertionSort (· ≤ ·) = rest ++ [second, max] ∧
      (lengths.insertionSort (· ≤ ·)).getD (lengths.length - 1) 0 = max ∧
      (lengths.insertionSort (· ≤ ·)).getD (lengths.length - 2) 0 = second ∧
      (∀ n ∈ rest, n ≤ second) ∧ second ≤ max := by
  have hlength : (lengths.insertionSort (· ≤ ·)).length = lengths.length :=
    List.length_insertionSort ..
  have hsorted : (lengths.insertionSort (· ≤ ·)).Pairwise (· ≤ ·) :=
    List.pairwise_insertionSort ..
  rw [← hlength]
  generalize lengths.insertionSort (· ≤ ·) = sorted at hlength hsorted
  obtain ⟨init, max, rfl⟩ := List.eq_nil_or_concat' sorted |>.resolve_left
    (by rintro rfl; simp at hlength; omega)
  obtain ⟨rest, second, rfl⟩ := List.eq_nil_or_concat' init |>.resolve_left
    (by rintro rfl; simp at hlength; omega)
  obtain ⟨hinit, -, hmax⟩ := List.pairwise_append.mp hsorted
  obtain ⟨-, -, hsecond⟩ := List.pairwise_append.mp hinit
  refine ⟨rest, second, max, by simp, by simp, by simp, ?_, ?_⟩
  · intro n hn
    exact hsecond n hn second (List.mem_singleton_self _)
  · exact hmax second (by simp) max (List.mem_singleton_self _)

theorem eq_singleton_iff {l : List Nat} (hnodup : l.Nodup) (k : Nat) :
    l = [k] ↔ ∀ n, n ∈ l ↔ n = k := by
  rw [← List.perm_singleton,
    List.perm_ext_iff_of_nodup hnodup (List.nodup_singleton k)]
  simp only [List.mem_singleton]

/-- What the maximum leaves of the sorted lengths is what its row leaves. -/
theorem exists_second_eq {lengths rest : List Nat} {second max p : Nat}
    (hperm : (rest ++ [second, max]).Perm lengths) (hp : p < lengths.length)
    (hmax : lengths[p] = max) :
    ∃ q, ∃ hq : q < lengths.length, q ≠ p ∧ lengths[q] = second := by
  have hcons : (max :: (rest ++ [second])).Perm (rest ++ [second, max]) := by
    simpa using (List.perm_append_singleton max (rest ++ [second])).symm
  have hrest : (rest ++ [second]).Perm (lengths.eraseIdx p) := by
    apply List.Perm.cons_inv (a := max)
    apply (hcons.trans hperm).trans
    rw [← hmax]
    exact (List.getElem_cons_eraseIdx_perm hp).symm
  have hmem : second ∈ lengths.eraseIdx p := hrest.mem_iff.mp (by simp)
  obtain ⟨q, hq, hqp, hsecond⟩ := List.mem_eraseIdx_iff_getElem.mp hmem
  exact ⟨q, hq, hqp, hsecond⟩

/-- Within its own length the longest row is zeroed from the length that no
other row exceeds. -/
theorem longestAlone_iff {lengths : List Nat} (htwo : 2 ≤ lengths.length)
    {p t : Nat} (hp : p < lengths.length) (ht : t < lengths[p]) :
    (∃ second, longestAlone lengths = some (p, second) ∧ second ≤ t) ↔
      ∀ q, (hq : q < lengths.length) → q ≠ p → lengths[q] ≤ t := by
  obtain ⟨rest, second, max, hsorted, hmax, hsecond, hrest, hle⟩ :=
    exists_insertionSort_eq htwo
  have hperm : (rest ++ [second, max]).Perm lengths :=
    hsorted ▸ List.perm_insertionSort ..
  have hmem : ∀ n, n ∈ lengths ↔ n ∈ rest ∨ n = second ∨ n = max := by
    intro n
    rw [← hperm.mem_iff]
    simp
  have hidx : ∀ k, k ∈ (List.range lengths.length).filter (fun k =>
      lengths[k]? = some max) ↔ ∃ h : k < lengths.length, lengths[k] = max := by
    intro k
    simp [List.getElem?_eq_some_iff]
  have hnodup : ((List.range lengths.length).filter fun k =>
      lengths[k]? = some max).Nodup := List.nodup_range.filter _
  have hunique := eq_singleton_iff hnodup p
  simp only [hidx] at hunique
  rw [longestAlone, List.length_insertionSort, hmax, hsecond]
  constructor
  · rintro ⟨m, hm, hmt⟩ q hq hne
    split at hm
    case h_2 => cases hm
    rename_i k hk
    split at hm
    case isFalse => cases hm
    cases hm
    have hother : lengths[q] ≠ max := fun h =>
      hne ((hunique.mp hk q).mp ⟨hq, h⟩)
    have hcases := (hmem lengths[q]).mp (List.getElem_mem hq)
    rcases hcases with h | h | h
    · exact (hrest _ h).trans hmt
    · exact h ▸ hmt
    · exact absurd h hother
  · intro hothers
    have hmaxp : lengths[p] = max := by
      obtain ⟨q, hq, hqmax⟩ := List.mem_iff_getElem.mp
        ((hmem max).mpr (.inr (.inr rfl)))
      by_cases hqp : q = p
      · subst q
        exact hqmax
      · have hlow := hothers q hq hqp
        have hhigh : lengths[p] ≤ max := by
          rcases (hmem lengths[p]).mp (List.getElem_mem hp) with h | h | h
          · exact (hrest _ h).trans hle
          · exact h ▸ hle
          · exact h.le
        omega
    have hthe : ∀ k, (∃ h : k < lengths.length, lengths[k] = max) ↔
        k = p := by
      intro k
      constructor
      · rintro ⟨hk, hkmax⟩
        by_contra hkp
        have hlow := hothers k hk hkp
        omega
      · rintro rfl
        exact ⟨hp, hmaxp⟩
    obtain ⟨q, hq, hqp, hqsecond⟩ := exists_second_eq hperm hp hmaxp
    have hlow := hothers q hq hqp
    rw [hunique.mpr hthe]
    refine ⟨second, ?_, by omega⟩
    exact if_pos (by omega)

variable {group : List (Fin bs)} {responseLength : Fin bs → Nat}
  {values : Fin width → F} {baselines : Fin bs → Fin width → F} {i : Fin bs}

/-- A token no other row of the group reaches loses its baseline. -/
theorem assignBaselines_apply (hnodup : group.Nodup) (htwo : 2 ≤ group.length)
    (hi : i ∈ group) {t : Fin width} (ht : t.val < responseLength i) :
    assignBaselines true responseLength group values baselines i t =
      if ∃ j ∈ group, j ≠ i ∧ t.val < responseLength j then values t
      else 0 := by
  obtain ⟨p, hp, hpi⟩ := List.mem_iff_getElem.mp hi
  have hlengths : 2 ≤ (group.map responseLength).length := by
    rwa [List.length_map]
  have hplength : p < (group.map responseLength).length := by
    rwa [List.length_map]
  have hlong : t.val < (group.map responseLength)[p] := by
    rwa [List.getElem_map, hpi]
  have hzero : (∃ second, longestAlone (group.map responseLength) =
      some (p, second) ∧ second ≤ t.val) ↔
        ¬ ∃ j ∈ group, j ≠ i ∧ t.val < responseLength j := by
    rw [longestAlone_iff hlengths hplength hlong]
    simp only [List.length_map, List.getElem_map]
    constructor
    · rintro hlow ⟨j, hj, hne, hlt⟩
      obtain ⟨q, hq, rfl⟩ := List.mem_iff_getElem.mp hj
      have hqp : q ≠ p := by
        rintro rfl
        exact hne hpi
      exact absurd hlt (Nat.not_lt.mpr (hlow q hq hqp))
    · intro hnone q hq hqp
      apply Nat.not_lt.mp
      intro hlt
      refine hnone ⟨group[q], List.getElem_mem hq, fun h => hqp ?_, hlt⟩
      exact hnodup.getElem_inj_iff.mp (h.trans hpi.symm)
  have hat : ∀ k, group[k]? = some i ↔ p = k := by
    intro k
    rw [← hpi, ← List.getElem?_eq_getElem hp, eq_comm]
    exact List.getElem?_inj hp hnodup
  rw [assignBaselines, if_pos rfl]
  cases hcase : longestAlone (group.map responseLength) with
  | none =>
      have hshared : ∃ j ∈ group, j ≠ i ∧ t.val < responseLength j := by
        by_contra hnone
        obtain ⟨second, hfound, -⟩ := hzero.mpr hnone
        rw [hcase] at hfound
        cases hfound
      simp only [if_pos hi, if_pos hshared]
  | some found =>
      obtain ⟨k, second⟩ := found
      simp only [hat, if_pos hi]
      by_cases hzeroed : p = k ∧ second ≤ t.val
      · have hnone := hzero.mp ⟨second, hzeroed.1 ▸ hcase, hzeroed.2⟩
        rw [if_pos hzeroed, if_neg hnone]
      · have hshared : ∃ j ∈ group, j ≠ i ∧ t.val < responseLength j := by
          by_contra hnone
          obtain ⟨m, hfound, hle⟩ := hzero.mpr hnone
          rw [hcase] at hfound
          cases hfound
          exact hzeroed ⟨rfl, hle⟩
        rw [if_neg hzeroed, if_pos hshared]

theorem assignBaselines_of_notMem (handleZeroTail : Bool) (hi : i ∉ group) :
    assignBaselines handleZeroTail responseLength group values baselines i =
      baselines i := by
  have hnot : ∀ k : Nat, group[k]? ≠ some i := by
    intro k hk
    exact hi (List.mem_of_getElem? hk)
  rw [assignBaselines]
  cases handleZeroTail with
  | false => exact if_neg hi
  | true =>
      rw [if_pos rfl]
      cases longestAlone (group.map responseLength) with
      | none => exact if_neg hi
      | some found =>
          funext t
          simp only [hnot, false_and, if_false, if_neg hi]

theorem assignBaselines_congr (handleZeroTail : Bool)
    {baselines' : Fin bs → Fin width → F} (h : baselines i = baselines' i) :
    assignBaselines handleZeroTail responseLength group values baselines i =
      assignBaselines handleZeroTail responseLength group values baselines'
        i := by
  rw [assignBaselines, assignBaselines]
  cases handleZeroTail with
  | false => simp [h]
  | true =>
      rw [if_pos rfl, if_pos rfl]
      cases longestAlone (group.map responseLength) with
      | none => simp [h]
      | some found => simp [h]

end ZeroTail

section Prefix

/-- Ones followed by zeros, possibly none of either. -/
def PrefixMask (mask : Fin bs → Fin len → Bool) : Prop :=
  ∀ i s t, s ≤ t → mask i t = true → mask i s = true

/-- The values a predicate keeps come first if it never holds again. -/
theorem filter_eq_take {α : Type} {p : α → Bool} {l : List α}
    (h : l.Pairwise fun a b => p b = true → p a = true) :
    l.filter p = l.take (l.countP p) := by
  induction l with
  | nil => rfl
  | cons a l ih =>
      obtain ⟨hfirst, hrest⟩ := List.pairwise_cons.mp h
      by_cases ha : p a = true
      · rw [List.filter_cons_of_pos ha, List.countP_cons_of_pos ha,
          List.take_succ_cons, ih hrest]
      · have hnone : ∀ b ∈ l, ¬ p b = true := fun b hb hpb =>
          ha (hfirst b hb hpb)
        have hzero : l.countP p = 0 := List.countP_eq_zero.mpr hnone
        rw [List.filter_cons_of_neg ha, List.countP_cons_of_neg ha, hzero,
          List.take_zero, List.filter_eq_nil_iff.mpr hnone]

variable {b : Trajectories F κ bs len} {i : Fin bs} {t : Fin len}

omit [Field F] in
theorem responseLength_eq_countP (b : Trajectories F κ bs len) (i : Fin bs) :
    b.responseLength i = (List.finRange len).countP (b.responseMask i) := by
  rw [Trajectories.responseLength, List.countP_eq_length_filter,
    ← List.toFinset_card_of_nodup ((List.nodup_finRange len).filter _),
    Finset.card_eq_sum_ones, List.toFinset_filter, Finset.sum_filter]
  have huniv : (List.finRange len).toFinset = Finset.univ := by
    ext s
    simp
  rw [huniv]
  apply Finset.sum_congr rfl
  intro s _
  cases b.responseMask i s <;> rfl

omit [Field F] in
theorem filter_finRange (hmask : PrefixMask b.responseMask) (i : Fin bs) :
    (List.finRange len).filter (b.responseMask i) =
      (List.finRange len).take (b.responseLength i) := by
  rw [responseLength_eq_countP]
  apply filter_eq_take
  exact (List.pairwise_lt_finRange len).imp fun hlt =>
    hmask i _ _ hlt.le

omit [Field F] in
/-- The tokens below the length of a response are the live ones. -/
theorem lt_responseLength_iff (hmask : PrefixMask b.responseMask) :
    t.val < b.responseLength i ↔ b.responseMask i t = true := by
  have hmem : t ∈ (List.finRange len).filter (b.responseMask i) ↔
      b.responseMask i t = true := by simp
  rw [← hmem, filter_finRange hmask, List.mem_take_iff_getElem]
  constructor
  · intro hlt
    exact ⟨t.val, by simpa using hlt, by simp⟩
  · rintro ⟨k, hk, rfl⟩
    simp only [List.length_finRange, List.getElem_finRange, Fin.val_cast] at hk ⊢
    omega

theorem getD_select (hmask : PrefixMask b.responseMask)
    (values : Fin len → F) :
    (select (b.responseMask i) values).getD t 0 =
      values t * factor (b.responseMask i t) := by
  rw [select, filter_finRange hmask, List.getD_eq_getElem?_getD,
    List.getElem?_map, List.getElem?_take]
  by_cases hlive : b.responseMask i t = true
  · have hlt := (lt_responseLength_iff hmask).mpr hlive
    simp [hlt, hlive, factor]
  · have hge : ¬ t.val < b.responseLength i := fun h =>
      hlive ((lt_responseLength_iff hmask).mp h)
    simp [hge, hlive, factor]

omit [Field F] in
theorem idxOf_filter (hmask : PrefixMask b.responseMask)
    (hlive : b.responseMask i t = true) :
    ((List.finRange len).filter (b.responseMask i)).idxOf t = t.val := by
  have hlt := (lt_responseLength_iff hmask).mpr hlive
  have hnodup := (List.nodup_finRange len).filter (b.responseMask i)
  rw [filter_finRange hmask] at hnodup ⊢
  have hbound : t.val <
      ((List.finRange len).take (b.responseLength i)).length := by
    simp [hlt]
  have hat : ((List.finRange len).take (b.responseLength i))[t.val] = t := by
    simp
  rw [← hnodup.idxOf_getElem t.val hbound, hat]

end Prefix

section Loops

variable {exp : F → F} {b : Trajectories F κ bs len} {epsilon : F}
  {i : Fin bs} {t : Fin len}

theorem singleTurnGroup_of_notMem {handleZeroTail : Bool}
    (baselines : Fin bs → Fin len → F) (group : List (Fin bs)) (i : Fin bs)
    (hi : i ∉ group) :
    singleTurnGroup exp b handleZeroTail epsilon baselines group i =
      baselines i := by
  rw [singleTurnGroup]
  split
  · rfl
  · exact assignBaselines_of_notMem handleZeroTail hi

theorem singleTurnGroup_congr {handleZeroTail : Bool}
    (baselines baselines' : Fin bs → Fin len → F) (group : List (Fin bs))
    (i : Fin bs) (h : baselines i = baselines' i) :
    singleTurnGroup exp b handleZeroTail epsilon baselines group i =
      singleTurnGroup exp b handleZeroTail epsilon baselines' group i := by
  rw [singleTurnGroup, singleTurnGroup]
  split
  · exact h
  · exact assignBaselines_congr handleZeroTail h

theorem multiTurnGroup_of_notMem {handleZeroTail : Bool}
    (baselines : Fin bs → Fin (maxResponseLength b) → F)
    (group : List (Fin bs)) (i : Fin bs) (hi : i ∉ group) :
    multiTurnGroup exp b handleZeroTail epsilon baselines group i =
      baselines i := by
  rw [multiTurnGroup]
  split
  · apply if_neg
    intro hhead
    exact hi (List.mem_of_head? hhead)
  · exact assignBaselines_of_notMem handleZeroTail hi

theorem multiTurnGroup_congr {handleZeroTail : Bool}
    (baselines baselines' : Fin bs → Fin (maxResponseLength b) → F)
    (group : List (Fin bs)) (i : Fin bs) (h : baselines i = baselines' i) :
    multiTurnGroup exp b handleZeroTail epsilon baselines group i =
      multiTurnGroup exp b handleZeroTail epsilon baselines' group i := by
  rw [multiTurnGroup, multiTurnGroup]
  split
  · simp only [h]
  · exact assignBaselines_congr handleZeroTail h

omit [Field F] in
theorem responseLength_ne_zero (hmask : PrefixMask b.responseMask)
    (hlive : b.responseMask i t = true) : b.responseLength i ≠ 0 := by
  have hlt := (lt_responseLength_iff hmask).mpr hlive
  omega

/-- A column of the compacted rows that is live in some row. -/
theorem compact_apply (hmask : PrefixMask b.responseMask)
    (values : Fin bs → Fin len → F) {k : Fin (maxResponseLength b)}
    (hk : k.val = t.val) (j : Fin bs) :
    compact b values j k = values j t * factor (b.responseMask j t) := by
  rw [compact, hk, getD_select hmask]
  by_cases hempty : b.responseLength j = 0
  · have hdead : ¬ b.responseMask j t = true := fun hlive =>
      responseLength_ne_zero hmask hlive hempty
    simp [hempty, hdead, factor]
  · exact if_neg hempty

theorem factor_mul_self (live : Bool) :
    (factor live : F) * factor live = factor live := by
  cases live <;> simp [factor]

omit [Field F] in
theorem responseLength_le_max (b : Trajectories F κ bs len) (i : Fin bs) :
    b.responseLength i ≤ maxResponseLength b :=
  Finset.le_sup (Finset.mem_univ i)

/-- What is scattered back to a live token. -/
theorem scatter_apply (hmask : PrefixMask b.responseMask)
    (hlive : b.responseMask i t = true) {k : Fin (maxResponseLength b)}
    (hk : k.val = t.val) (values : Fin (maxResponseLength b) → F) :
    scatter (b.responseMask i)
      ((List.ofFn values).take (b.responseLength i)) t = values k := by
  have hlt := (lt_responseLength_iff hmask).mpr hlive
  have hmax := responseLength_le_max b i
  have hbound : t.val < (List.ofFn values).length := by
    rw [List.length_ofFn]
    omega
  rw [scatter, if_pos hlive, idxOf_filter hmask hlive,
    List.getD_eq_getElem?_getD, List.getElem?_take_of_lt hlt,
    List.getElem?_eq_getElem hbound, Option.getD_some, List.getElem_ofFn]
  exact congrArg values (Fin.ext hk.symm)

end Loops

section Agreement

variable [DecidableEq κ] {exp : F → F} {b : Trajectories F κ bs len}
  {epsilon : F} {i : Fin bs} {t : Fin len}

/-- Another response of the prompt reaches the token. -/
def Shared (b : Trajectories F κ bs len) (i : Fin bs) (t : Fin len) : Prop :=
  ∃ j ∈ members b.index i, j ≠ i ∧ b.responseMask j t = true

instance (b : Trajectories F κ bs len) (i : Fin bs) (t : Fin len) :
    Decidable (Shared b i t) :=
  inferInstanceAs (Decidable (∃ j ∈ members b.index i, _))

/-- The optimal baseline of a live token: the mean of the returns of all
responses that reach it, weighted by their path variance, and 0 where there is
but one. -/
def tokenBaseline (exp : F → F) (b : Trajectories F κ bs len) (epsilon : F)
    (i : Fin bs) (t : Fin len) : F :=
  if Shared b i t then
    (∑ j ∈ members b.index i,
      b.returns j t * b.wCumulative exp j t * factor (b.responseMask j t)) /
      (∑ j ∈ members b.index i,
        b.wCumulative exp j t * factor (b.responseMask j t) + epsilon)
  else 0

/-- The rows of a group as the loops see it. -/
theorem mem_promptGroup {index : Fin bs → κ} {items : List (Fin bs)}
    {j : Fin bs} :
    j ∈ valuesUnder index id items (index i) ↔
      j ∈ items ∧ j ∈ members index i := by
  rw [mem_valuesUnder_id, members, Finset.mem_filter]
  simp

theorem nodup_promptGroup {index : Fin bs → κ} {items : List (Fin bs)}
    (hnodup : items.Nodup) (key : κ) :
    (valuesUnder index id items key).Nodup := by
  rw [valuesUnder, List.map_id]
  exact hnodup.filter _

/-- Rows that add nothing may be left out of a group. -/
theorem sum_promptGroup {index : Fin bs → κ} {f : Fin bs → F}
    {items : List (Fin bs)} (hnodup : items.Nodup)
    (hrest : ∀ j, j ∉ items → f j = 0) (i : Fin bs) :
    ((valuesUnder index id items (index i)).map f).sum =
      ∑ j ∈ members index i, f j := by
  rw [← List.sum_toFinset _ (nodup_promptGroup hnodup _)]
  apply Finset.sum_subset
  · intro j hj
    exact (mem_promptGroup.mp (List.mem_toFinset.mp hj)).2
  · intro j hj hnot
    apply hrest
    intro hitem
    exact hnot (List.mem_toFinset.mpr (mem_promptGroup.mpr ⟨hitem, hj⟩))

theorem two_le_length {group : List (Fin bs)} (hi : i ∈ group)
    (hmany : group.length ≠ 1) : 2 ≤ group.length := by
  have hpos := List.length_pos_of_mem hi
  omega

theorem eq_of_length_eq_one {group : List (Fin bs)} {j : Fin bs}
    (hone : group.length = 1) (hi : i ∈ group) (hj : j ∈ group) : j = i := by
  obtain ⟨a, rfl⟩ := List.length_eq_one_iff.mp hone
  rw [List.mem_singleton.mp hi, List.mem_singleton.mp hj]

/-- What both loops make of a token of a group that has all its live rows. -/
theorem assignBaselines_promptGroup {items : List (Fin bs)}
    (hmask : PrefixMask b.responseMask) (hnodup : items.Nodup)
    (hitems : ∀ j, b.responseMask j t = true → j ∈ items)
    (hlive : b.responseMask i t = true)
    (hmany : (valuesUnder b.index id items (b.index i)).length ≠ 1)
    (values : Fin width → F) (baselines : Fin bs → Fin width → F)
    {k : Fin width} (hk : k.val = t.val) :
    assignBaselines true b.responseLength
        (valuesUnder b.index id items (b.index i)) values baselines i k =
      if Shared b i t then values k else 0 := by
  have hi : i ∈ valuesUnder b.index id items (b.index i) :=
    mem_promptGroup.mpr ⟨hitems i hlive, mem_members_self b.index i⟩
  have hlong : k.val < b.responseLength i := by
    rw [hk]
    exact (lt_responseLength_iff hmask).mpr hlive
  rw [assignBaselines_apply (nodup_promptGroup hnodup _)
    (two_le_length hi hmany) hi hlong]
  apply if_congr _ rfl rfl
  rw [hk]
  simp only [lt_responseLength_iff hmask, mem_promptGroup, Shared]
  constructor
  · rintro ⟨j, ⟨-, hj⟩, hne, hreach⟩
    exact ⟨j, hj, hne, hreach⟩
  · rintro ⟨j, hj, hne, hreach⟩
    exact ⟨j, ⟨hitems j hreach, hj⟩, hne, hreach⟩

omit [Field F] in
theorem not_shared_of_length_eq_one {items : List (Fin bs)}
    (hitems : ∀ j, b.responseMask j t = true → j ∈ items)
    (hlive : b.responseMask i t = true)
    (hone : (valuesUnder b.index id items (b.index i)).length = 1) :
    ¬ Shared b i t := by
  rintro ⟨j, hj, hne, hreach⟩
  apply hne
  apply eq_of_length_eq_one hone
  · exact mem_promptGroup.mpr ⟨hitems i hlive, mem_members_self b.index i⟩
  · exact mem_promptGroup.mpr ⟨hitems j hreach, hj⟩

/-- The single-turn loop computes the optimal baselines. -/
theorem singleTurn_baseline (hmask : PrefixMask b.responseMask)
    (hlive : b.responseMask i t = true) :
    (collect b.index id (List.finRange bs)).foldl (fun baselines group =>
      singleTurnGroup exp b true epsilon baselines group.2) 0 i t =
        tokenBaseline exp b epsilon i t := by
  have hitems : ∀ j, b.responseMask j t = true → j ∈ List.finRange bs :=
    fun j _ => List.mem_finRange j
  rw [foldl_collect singleTurnGroup_of_notMem singleTurnGroup_congr b.index
    (List.mem_finRange i), singleTurnGroup, tokenBaseline]
  by_cases hone : (valuesUnder b.index id (List.finRange bs)
      (b.index i)).length = 1
  · rw [if_pos hone, if_neg (not_shared_of_length_eq_one hitems hlive hone)]
    rfl
  · have hsum : ∀ f : Fin bs → F, ((valuesUnder b.index id
        (List.finRange bs) (b.index i)).map f).sum =
          ∑ j ∈ members b.index i, f j := fun f =>
      sum_promptGroup (List.nodup_finRange bs)
        (fun j h => absurd (List.mem_finRange j) h) i
    rw [if_neg hone, assignBaselines_promptGroup hmask
      (List.nodup_finRange bs) hitems hlive hone _ _ rfl]
    simp only [hsum]

/-- The multi-turn loop computes the optimal baselines. -/
theorem multiTurn_baseline (hmask : PrefixMask b.responseMask)
    (hlive : b.responseMask i t = true) {k : Fin (maxResponseLength b)}
    (hk : k.val = t.val) :
    (collect b.index id ((List.finRange bs).filter fun i =>
      b.responseLength i ≠ 0)).foldl (fun baselines group =>
        multiTurnGroup exp b true epsilon baselines group.2) 0 i k =
      tokenBaseline exp b epsilon i t := by
  have hnodup := (List.nodup_finRange bs).filter fun i =>
    b.responseLength i ≠ 0
  have hitems : ∀ j, b.responseMask j t = true →
      j ∈ (List.finRange bs).filter fun i => b.responseLength i ≠ 0 := by
    intro j hj
    simpa using responseLength_ne_zero hmask hj
  have hdead : ∀ j, j ∉ ((List.finRange bs).filter fun i =>
      b.responseLength i ≠ 0) → b.responseMask j t = false := by
    intro j hj
    apply Bool.eq_false_iff.mpr
    exact fun h => hj (hitems j h)
  rw [foldl_collect multiTurnGroup_of_notMem multiTurnGroup_congr b.index
    (hitems i hlive), multiTurnGroup, tokenBaseline]
  by_cases hone : (valuesUnder b.index id ((List.finRange bs).filter fun i =>
      b.responseLength i ≠ 0) (b.index i)).length = 1
  · rw [if_pos hone, if_neg (not_shared_of_length_eq_one hitems hlive hone)]
    split <;> rfl
  · rw [if_neg hone, assignBaselines_promptGroup hmask hnodup hitems hlive
      hone _ _ hk]
    simp only [compact_apply hmask _ hk]
    rw [sum_promptGroup hnodup (fun j h => by simp [hdead j h, factor]),
      sum_promptGroup hnodup (fun j h => by simp [hdead j h, factor])]
    have hproduct : ∀ j, b.returns j t * factor (b.responseMask j t) *
        (b.wCumulative exp j t * factor (b.responseMask j t)) =
          b.returns j t * b.wCumulative exp j t *
            factor (b.responseMask j t) := by
      intro j
      rw [mul_mul_mul_comm, factor_mul_self]
    simp only [hproduct]

/-- On prefix masks the multi-turn estimator is the single-turn one. -/
theorem multiTurn_eq_singleTurn (exp : F → F) (b : Trajectories F κ bs len)
    (epsilon : F) (hmask : PrefixMask b.responseMask) :
    computeMultiTurnOptimalTokenBaselineAdvantage exp b true epsilon =
      computeOptimalTokenBaselineAdvantage exp b true epsilon := by
  rw [computeMultiTurnOptimalTokenBaselineAdvantage,
    computeOptimalTokenBaselineAdvantage]
  refine Prod.ext ?_ rfl
  funext i t
  by_cases hlive : b.responseMask i t = true
  · have hlt := (lt_responseLength_iff hmask).mpr hlive
    have hmax := responseLength_le_max b i
    let k : Fin (maxResponseLength b) := ⟨t.val, by omega⟩
    have hk : k.val = t.val := rfl
    simp only [if_neg (responseLength_ne_zero hmask hlive)]
    rw [scatter_apply hmask hlive hk, compact_apply hmask _ hk,
      multiTurn_baseline hmask hlive hk, singleTurn_baseline hmask hlive]
    simp [hlive, factor]
  · simp [hlive, factor]

end Agreement

section Batch

/-- Three responses to one prompt, the last one empty. -/
def threeResponses : Trajectories ℚ Nat 3 3 where
  tokenLevelRewards := fun i t => i.val + t.val + 1
  responseMask := fun i t => decide (t.val + 2 * i.val < 3)
  index := fun _ => 7
  oldLogProbs := fun i t => i.val * t.val
  sumPiSquared := fun _ t => t.val
  rolloutIsWeights := some fun i _ => i.val + 1

theorem multiTurn_eq_singleTurn_threeResponses :
    computeMultiTurnOptimalTokenBaselineAdvantage (fun x => x ^ 2 + 1)
        threeResponses true (1 / 100000000) =
      computeOptimalTokenBaselineAdvantage (fun x => x ^ 2 + 1)
        threeResponses true (1 / 100000000) := by
  apply multiTurn_eq_singleTurn
  have hdecide : ∀ i s t : Fin 3, s ≤ t →
      threeResponses.responseMask i t = true →
        threeResponses.responseMask i s = true := by decide
  exact hdecide

end Batch

end OptimalTokenBaseline

end SelfDistillation
