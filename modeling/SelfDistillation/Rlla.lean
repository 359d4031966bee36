/-
`match_score` and `compute_tool_call_reward`
(verl/utils/reward_score/rlla.py) in exact arithmetic: a greedy matching of the
predicted calls with the ground truth.
-/
import SelfDistillation.Library.BagSimilarity
import SelfDistillation.Library.GreedyMatching
import SelfDistillation.Python

namespace SelfDistillation

namespace Rlla

variable {κ V K : Type}

/-- A tool call: the keys of it that are read. -/
structure ToolCall (V : Type) where
  name : String
  parameters : PyDict V

section Equality

variable [DecidableEq V]

/-- `==` of two calls; dicts are equal in any order of their entries. -/
def toolEq (left right : ToolCall V) : Bool :=
  left.name = right.name ∧
    left.parameters.entries.Perm right.parameters.entries

/-- `gt_tools == pd_tools` -/
def toolsEq (gtTools pdTools : List (ToolCall V)) : Bool :=
  gtTools.length = pdTools.length ∧
    ∀ p ∈ gtTools.zip pdTools, toolEq p.1 p.2

end Equality

section Score

variable [DecidableEq κ] (K) [Field K]

/-- `match_score` -/
def matchScore (list1 list2 : List κ) : K :=
  if list1 = list2 then 1
  else if list1.isEmpty ∨ list2.isEmpty then 0
  else
    let intersection := ∑ k ∈ list1.toFinset ∩ list2.toFinset,
      min (list1.count k) (list2.count k)
    let maxPossible : Int := list1.length + list2.length - intersection
    if maxPossible > 0 then (intersection : K) / (maxPossible : K) else 0

variable [DecidableEq V]

/-- `total_score`: how the parameters of a predicted call score. -/
def totalScore (gtTool pdTool : ToolCall V) : K :=
  let paramScore : K :=
    matchScore K gtTool.parameters.keys pdTool.parameters.keys
  let correctnessScore := gtTool.parameters.entries.countP fun e =>
    pdTool.parameters.get? e.1 = some e.2
  paramScore + (correctnessScore : K)

end Score

section Matching

variable [Field K] [LinearOrder K] [DecidableEq V]

/-- `best_match_score` and `best_match_index` -/
structure BestMatch (K : Type) where
  score : K
  index : Option Nat

/-- The body of the inner loop. -/
def considerTool (gtTool : ToolCall V) (usedPdIndices : Finset Nat)
    (best : BestMatch K) (p : ToolCall V × Nat) : BestMatch K :=
  if p.2 ∈ usedPdIndices ∨ p.1.name ≠ gtTool.name then best
  else if totalScore K gtTool p.1 > best.score then
    ⟨totalScore K gtTool p.1, some p.2⟩
  else best

/-- Find the best matching unused pd_tool. -/
def findBest (gtTool : ToolCall V) (pdTools : List (ToolCall V))
    (usedPdIndices : Finset Nat) : BestMatch K :=
  pdTools.zipIdx.foldl (considerTool gtTool usedPdIndices) ⟨0, none⟩

/-- What the loop over the ground truth carries. -/
structure MatchState (K : Type) where
  score : K
  localMaxPossible : K
  usedPdIndices : Finset Nat

/-- The body of the loop over the ground truth. -/
def matchTool (pdTools : List (ToolCall V)) (s : MatchState K)
    (gtTool : ToolCall V) : MatchState K :=
  let localMaxPossible :=
    s.localMaxPossible + (1 + (gtTool.parameters.entries.length : K))
  let best : BestMatch K := findBest gtTool pdTools s.usedPdIndices
  match best.index with
  | none => { s with localMaxPossible := localMaxPossible }
  | some index =>
      { score := s.score + best.score
        localMaxPossible := localMaxPossible
        usedPdIndices := insert index s.usedPdIndices }

/-- `compute_tool_call_reward` -/
def computeToolCallReward (gtTools pdTools : List (ToolCall V))
    (maxPossibleReward minPossibleReward : K) : K :=
  if toolsEq gtTools pdTools then maxPossibleReward
  else
    let gtNames := gtTools.map ToolCall.name
    let pdNames := pdTools.map ToolCall.name
    let s := gtTools.foldl (matchTool pdTools)
      ⟨matchScore K gtNames pdNames, 1, ∅⟩
    (maxPossibleReward - minPossibleReward) * s.score / s.localMaxPossible +
      minPossibleReward

end Matching

section Calls

/-- Calls that Python takes for equal. -/
instance callSetoid (V : Type) : Setoid (ToolCall V) where
  r left right := left.name = right.name ∧
    left.parameters.entries.Perm right.parameters.entries
  iseqv :=
    ⟨fun _ => ⟨rfl, List.Perm.refl _⟩,
      fun h => ⟨h.1.symm, h.2.symm⟩,
      fun h h' => ⟨h.1.trans h'.1, h.2.trans h'.2⟩⟩

instance [DecidableEq V] (left right : ToolCall V) :
    Decidable (left ≈ right) :=
  inferInstanceAs (Decidable (left.name = right.name ∧
    left.parameters.entries.Perm right.parameters.entries))

/-- A call as `==` sees it, whatever the order of its parameters. -/
abbrev Call (V : Type) := Quotient (callSetoid V)

def ToolCall.call (tool : ToolCall V) : Call V := Quotient.mk _ tool

/-- The name of a call. -/
def Call.name : Call V → String :=
  Quotient.lift ToolCall.name (by
    intro left right h
    exact h.1)

theorem call_eq_iff {left right : ToolCall V} :
    left.call = right.call ↔ left.name = right.name ∧
      left.parameters.entries.Perm right.parameters.entries :=
  Quotient.eq

variable [DecidableEq V]

theorem toolEq_iff {left right : ToolCall V} :
    toolEq left right ↔ left.call = right.call := by
  rw [call_eq_iff, toolEq, decide_eq_true_eq]

theorem toolsEq_iff {gtTools pdTools : List (ToolCall V)} :
    toolsEq gtTools pdTools ↔
      gtTools.map ToolCall.call = pdTools.map ToolCall.call := by
  simp only [toolsEq, decide_eq_true_eq, toolEq_iff]
  induction gtTools generalizing pdTools with
  | nil => cases pdTools <;> simp
  | cons gtTool gtTools ih =>
      cases pdTools with
      | nil => simp
      | cons pdTool pdTools =>
          rw [List.map_cons, List.map_cons, List.cons.injEq, ← ih]
          simp
          tauto

end Calls

section Bounds

open BagSimilarity

variable [DecidableEq κ] [Field K] [LinearOrder K] [IsStrictOrderedRing K]

theorem sum_min_count (list1 list2 : List κ) :
    ∑ k ∈ list1.toFinset ∩ list2.toFinset,
      min (list1.count k) (list2.count k) =
        ((list1 : Multiset κ) ∩ (list2 : Multiset κ)).card := by
  rw [← Multiset.toFinset_sum_count_eq, Multiset.toFinset_inter]
  apply Finset.sum_congr rfl
  intro k _
  rw [Multiset.count_inter, Multiset.coe_count, Multiset.coe_count]

/-- `match_score` is the similarity of two lists as bags. -/
theorem matchScore_eq_similarity (list1 list2 : List κ) :
    matchScore K list1 list2 =
      similarity K (list1 : Multiset κ) (list2 : Multiset κ) := by
  unfold matchScore
  split_ifs with hsame hempty
  · rw [hsame, similarity_eq_one_iff.mpr rfl]
  · have hzero : ¬ ((list1 : Multiset κ) = 0 ∧ (list2 : Multiset κ) = 0) := by
      rw [Multiset.coe_eq_zero, Multiset.coe_eq_zero]
      rintro ⟨rfl, rfl⟩
      exact hsame rfl
    rw [similarity, if_neg hzero]
    rcases hempty with hempty | hempty
    · rw [List.isEmpty_iff.mp hempty]
      simp
    · rw [List.isEmpty_iff.mp hempty]
      simp
  · have hzero : ¬ ((list1 : Multiset κ) = 0 ∧ (list2 : Multiset κ) = 0) := by
      rw [Multiset.coe_eq_zero, Multiset.coe_eq_zero]
      rintro ⟨rfl, rfl⟩
      exact hsame rfl
    have hunion := congrArg Multiset.card
      (Multiset.union_add_inter (list1 : Multiset κ) (list2 : Multiset κ))
    rw [Multiset.card_add, Multiset.card_add, Multiset.coe_card,
      Multiset.coe_card, ← sum_min_count] at hunion
    have hpos := card_union_pos hzero
    have hmax : ((list1.length : Int) + list2.length -
        (∑ k ∈ list1.toFinset ∩ list2.toFinset,
          min (list1.count k) (list2.count k) : Nat)) =
            (((list1 : Multiset κ) ∪ (list2 : Multiset κ)).card : Int) := by
      omega
    rw [similarity, if_neg hzero]
    dsimp only
    rw [hmax, if_pos (by exact_mod_cast hpos), sum_min_count, Int.cast_natCast]

variable [DecidableEq V] {gtTool pdTool : ToolCall V}

/-- A predicted call scores 1 for its keys and 1 for each right value, at
most. -/
theorem totalScore_le (gtTool pdTool : ToolCall V) :
    totalScore K gtTool pdTool ≤
      1 + (gtTool.parameters.entries.length : K) := by
  unfold totalScore
  apply add_le_add
  · rw [matchScore_eq_similarity]
    exact similarity_le_one _ _
  · exact_mod_cast List.countP_le_length

theorem totalScore_nonneg (gtTool pdTool : ToolCall V) :
    0 ≤ totalScore K gtTool pdTool := by
  unfold totalScore
  rw [matchScore_eq_similarity]
  exact add_nonneg (similarity_nonneg _ _) (Nat.cast_nonneg _)

/-- Only the same parameters score in full. -/
theorem totalScore_eq_iff :
    totalScore K gtTool pdTool = 1 + (gtTool.parameters.entries.length : K) ↔
      gtTool.parameters.entries.Perm pdTool.parameters.entries := by
  have hsimilar : matchScore K gtTool.parameters.keys pdTool.parameters.keys ≤
      1 := by
    rw [matchScore_eq_similarity]
    exact similarity_le_one _ _
  have hcount : ((gtTool.parameters.entries.countP fun e =>
      pdTool.parameters.get? e.1 = some e.2 : Nat) : K) ≤
        gtTool.parameters.entries.length := by
    exact_mod_cast List.countP_le_length
  rw [totalScore, add_eq_add_iff_eq_and_eq hsimilar hcount,
    matchScore_eq_similarity, similarity_eq_one_iff, Multiset.coe_eq_coe,
    Nat.cast_inj, List.countP_eq_length]
  simp only [decide_eq_true_eq, PyDict.get?_eq_some_iff]
  constructor
  · rintro ⟨hkeys, hvalues⟩
    have hnodup : gtTool.parameters.entries.Nodup :=
      gtTool.parameters.nodup.of_map Prod.fst
    have hlength := hkeys.length_eq
    rw [PyDict.keys, PyDict.keys, List.length_map, List.length_map] at hlength
    exact (List.subperm_of_subset hnodup hvalues).perm_of_length_le hlength.ge
  · intro hperm
    exact ⟨hperm.map Prod.fst, fun e he => hperm.mem_iff.mp he⟩

/-- Calls that are equal score the same. -/
theorem totalScore_congr {pdTool' : ToolCall V}
    (h : pdTool.parameters.entries.Perm pdTool'.parameters.entries) :
    totalScore K gtTool pdTool = totalScore K gtTool pdTool' := by
  have hkeys : (pdTool.parameters.keys : Multiset String) =
      pdTool'.parameters.keys := Multiset.coe_eq_coe.mpr (h.map Prod.fst)
  have hget : ∀ e : String × V, pdTool.parameters.get? e.1 = some e.2 ↔
      pdTool'.parameters.get? e.1 = some e.2 := by
    intro e
    rw [PyDict.get?_eq_some_iff, PyDict.get?_eq_some_iff, h.mem_iff]
  unfold totalScore
  simp only [matchScore_eq_similarity, hkeys, hget]

end Bounds

section Loop

open GreedyMatching

variable [DecidableEq V] [Field K] [LinearOrder K] [IsStrictOrderedRing K]

/-- What a call gets from a ground-truth call; nothing under another name. -/
def callScore (gtTool : ToolCall V) : Call V → K :=
  Quotient.lift (fun pdTool => if pdTool.name = gtTool.name then
    totalScore K gtTool pdTool else 0) (by
      intro left right h
      rw [h.1, totalScore_congr h.2])

@[simp] theorem callScore_call (gtTool pdTool : ToolCall V) :
    callScore gtTool pdTool.call = if pdTool.name = gtTool.name then
      totalScore K gtTool pdTool else 0 := rfl

/-- The predicted calls that are not matched yet, with their places. -/
def unused (pdTools : List (ToolCall V)) (usedPdIndices : Finset Nat) :
    List (ToolCall V × Nat) :=
  pdTools.zipIdx.filter fun p => p.2 ∉ usedPdIndices

/-- They are the offers of the matching. -/
def offers (pdTools : List (ToolCall V)) (usedPdIndices : Finset Nat) :
    List (Call V) :=
  (unused pdTools usedPdIndices).map fun p => p.1.call

/-- What the inner loop reports of the best call. -/
def found (gtTool : ToolCall V) : Option (ToolCall V × Nat) → BestMatch K
  | none => ⟨0, none⟩
  | some p => ⟨callScore gtTool p.1.call, some p.2⟩

theorem found_score_nonneg (gtTool : ToolCall V)
    (p : Option (ToolCall V × Nat)) : (0 : K) ≤ (found gtTool p).score := by
  cases p with
  | none => exact le_refl 0
  | some p =>
      simp only [found, callScore_call]
      split_ifs
      · exact totalScore_nonneg _ _
      · exact le_refl 0

theorem elim_eq_found (gtTool : ToolCall V)
    (p : Option (ToolCall V × Nat)) :
    p.elim 0 (fun p => (callScore gtTool p.1.call : K)) =
      (found gtTool p).score := by
  cases p <;> rfl

/-- The inner loop finds the first best call that is unused. -/
theorem findBest_eq_found (gtTool : ToolCall V) (pdTools : List (ToolCall V))
    (usedPdIndices : Finset Nat) :
    (findBest gtTool pdTools usedPdIndices : BestMatch K) =
      found gtTool (best (fun p => (callScore gtTool p.1.call : K))
        (unused pdTools usedPdIndices)) := by
  unfold findBest unused
  induction pdTools.zipIdx using List.reverseRecOn with
  | nil => rfl
  | append_singleton tools last ih =>
      rw [List.foldl_append, List.foldl_cons, List.foldl_nil, ih,
        List.filter_append]
      generalize tools.filter (fun p => p.2 ∉ usedPdIndices) = rest
      by_cases hused : last.2 ∈ usedPdIndices
      · simp [considerTool, hused]
      · rw [List.filter_singleton]
        simp only [hused, not_false_eq_true, decide_true, cond_true]
        rw [best_append_singleton, elim_eq_found]
        by_cases hname : last.1.name = gtTool.name
        · simp only [considerTool, hused, hname, ne_eq, not_true_eq_false,
            or_self, if_false, callScore_call, if_true, gt_iff_lt]
          split_ifs
          · simp [found, hname]
          · rfl
        · have hzero := found_score_nonneg (K := K) gtTool
            (best (fun p => (callScore gtTool p.1.call : K)) rest)
          have hscore : (callScore gtTool last.1.call : K) = 0 := by
            rw [callScore_call, if_neg hname]
          rw [hscore, if_neg (not_lt.mpr hzero)]
          simp [considerTool, hname]

/-- Using a call takes it, once, from the offers. -/
theorem offers_insert {gtTool : ToolCall V} {pdTools : List (ToolCall V)}
    {usedPdIndices : Finset Nat} {p : ToolCall V × Nat}
    (h : best (fun p => (callScore gtTool p.1.call : K))
      (unused pdTools usedPdIndices) = some p) :
    offers pdTools (insert p.2 usedPdIndices) =
      (offers pdTools usedPdIndices).erase p.1.call := by
  obtain ⟨before, after, hsplit, hbefore, -⟩ := (isBest_of_best h).first
  have hnodup : ((unused pdTools usedPdIndices).map Prod.snd).Nodup := by
    have hall : (pdTools.zipIdx.map Prod.snd).Nodup := by
      rw [List.zipIdx_map_snd]
      exact List.nodup_range'
    exact hall.sublist (List.filter_sublist.map Prod.snd)
  have hinsert : unused pdTools (insert p.2 usedPdIndices) =
      before ++ after := by
    have hfilter : unused pdTools (insert p.2 usedPdIndices) =
        (unused pdTools usedPdIndices).filter fun q => q.2 ≠ p.2 := by
      simp only [unused, List.filter_filter, Finset.mem_insert, not_or,
        Bool.decide_and, ne_eq]
    rw [hsplit, List.map_append, List.map_cons, List.nodup_middle,
      List.nodup_cons, ← List.map_append] at hnodup
    rw [hfilter, hsplit, List.filter_append, List.filter_cons_of_neg (by simp),
      ← List.filter_append, List.filter_eq_self]
    intro q hq
    rw [decide_eq_true_eq]
    intro heq
    exact hnodup.1 (heq ▸ List.mem_map_of_mem hq)
  have hnew : p.1.call ∉ before.map fun q => q.1.call := by
    intro hmem
    obtain ⟨q, hq, heq⟩ := List.mem_map.mp hmem
    have hlt := hbefore q hq
    rw [heq] at hlt
    exact lt_irrefl _ hlt
  rw [offers, offers, hinsert, hsplit, List.map_append, List.map_append,
    List.map_cons, List.erase_append_right _ hnew, List.erase_cons_head]

/-- One round of the outer loop is one step of the matching. -/
theorem matchTool_spec (gtTool : ToolCall V) (gtTools : List (ToolCall V))
    (pdTools : List (ToolCall V)) (s : MatchState K) :
    (matchTool pdTools s gtTool).score + total callScore gtTools
        (offers pdTools (matchTool pdTools s gtTool).usedPdIndices) =
      s.score + total callScore (gtTool :: gtTools)
        (offers pdTools s.usedPdIndices) := by
  have hbest : best (callScore gtTool : Call V → K)
      (offers pdTools s.usedPdIndices) =
        (best (fun p => callScore gtTool p.1.call)
          (unused pdTools s.usedPdIndices)).map fun p => p.1.call :=
    best_map _ _
  simp only [matchTool, findBest_eq_found]
  cases hfound : best (fun p => (callScore gtTool p.1.call : K))
      (unused pdTools s.usedPdIndices) with
  | none =>
      rw [hfound, Option.map_none] at hbest
      rw [total_cons_of_none hbest]
      rfl
  | some p =>
      rw [hfound, Option.map_some] at hbest
      rw [total_cons_of_some hbest, ← offers_insert hfound]
      exact add_assoc s.score (callScore gtTool p.1.call) _

omit [IsStrictOrderedRing K] in
theorem matchTool_localMaxPossible (pdTools : List (ToolCall V))
    (s : MatchState K) (gtTool : ToolCall V) :
    (matchTool pdTools s gtTool).localMaxPossible = s.localMaxPossible +
      (1 + (gtTool.parameters.entries.length : K)) := by
  unfold matchTool
  dsimp only
  split <;> rfl

/-- The most that the parameters of the ground truth can score. -/
def fullScore (gtTool : ToolCall V) : K :=
  1 + (gtTool.parameters.entries.length : K)

/-- The loop, by induction on the ground truth it has gone over. -/
theorem foldl_matchTool (gtTools pdTools : List (ToolCall V))
    (s : MatchState K) :
    (gtTools.foldl (matchTool pdTools) s).score = s.score +
        total callScore gtTools (offers pdTools s.usedPdIndices) ∧
      (gtTools.foldl (matchTool pdTools) s).localMaxPossible =
        s.localMaxPossible + (gtTools.map fullScore).sum := by
  induction gtTools generalizing s with
  | nil => simp [total]
  | cons gtTool gtTools ih =>
      obtain ⟨hscore, hmax⟩ := ih (matchTool pdTools s gtTool)
      rw [List.foldl_cons, hscore, hmax, matchTool_spec,
        matchTool_localMaxPossible, List.map_cons, List.sum_cons, add_assoc]
      exact ⟨rfl, rfl⟩

omit [DecidableEq V] in
theorem offers_empty (pdTools : List (ToolCall V)) :
    offers pdTools ∅ = pdTools.map ToolCall.call := by
  simp only [offers, unused, Finset.notMem_empty, not_false_eq_true,
    decide_true, List.filter_true]
  conv_rhs => rw [← List.zipIdx_map_fst 0 pdTools, List.map_map]
  rfl

end Loop

section Reward

open GreedyMatching

variable [DecidableEq V] [Field K] [LinearOrder K] [IsStrictOrderedRing K]
  (gtTools pdTools : List (ToolCall V))

/-- What the names and the parameters score in all. -/
def scored (K : Type) [Field K] [LinearOrder K] [IsStrictOrderedRing K]
    (gtTools pdTools : List (ToolCall V)) : K :=
  matchScore K (gtTools.map ToolCall.name) (pdTools.map ToolCall.name) +
    total callScore gtTools (pdTools.map ToolCall.call)

/-- `local_max_possible` -/
def scorable (K : Type) [Field K] (gtTools : List (ToolCall V)) : K :=
  1 + (gtTools.map fullScore).sum

theorem callScore_le (gtTool : ToolCall V) (call : Call V) :
    (callScore gtTool call : K) ≤ fullScore gtTool := by
  induction call using Quotient.inductionOn with
  | h pdTool =>
      change callScore gtTool pdTool.call ≤ _
      rw [callScore_call]
      split_ifs
      · exact totalScore_le _ _
      · unfold fullScore
        positivity

omit [DecidableEq V] in
theorem fullScore_pos (gtTool : ToolCall V) : (0 : K) < fullScore gtTool := by
  unfold fullScore
  positivity

/-- Only the call itself scores in full. -/
theorem callScore_eq_iff (gtTool : ToolCall V) (call : Call V) :
    (callScore gtTool call : K) = fullScore gtTool ↔ call = gtTool.call := by
  induction call using Quotient.inductionOn with
  | h pdTool =>
      change callScore gtTool pdTool.call = _ ↔ pdTool.call = gtTool.call
      rw [callScore_call, call_eq_iff]
      split_ifs with hname
      · rw [fullScore, totalScore_eq_iff, List.perm_comm]
        simp [hname]
      · have hpos := fullScore_pos (K := K) gtTool
        simp [hname, hpos.ne]

theorem scored_nonneg : 0 ≤ scored K gtTools pdTools := by
  unfold scored
  rw [matchScore_eq_similarity]
  exact add_nonneg (BagSimilarity.similarity_nonneg _ _) (total_nonneg _ _)

theorem scored_le : scored K gtTools pdTools ≤ scorable K gtTools := by
  unfold scored scorable
  rw [matchScore_eq_similarity]
  exact add_le_add (BagSimilarity.similarity_le_one _ _)
    (total_le callScore_le fullScore_pos _ _)

omit [DecidableEq V] in
theorem scorable_pos : 0 < scorable K gtTools := by
  have hsum : 0 ≤ (gtTools.map (fullScore : ToolCall V → K)).sum := by
    apply List.sum_nonneg
    intro x hx
    obtain ⟨gtTool, -, rfl⟩ := List.mem_map.mp hx
    exact (fullScore_pos gtTool).le
  unfold scorable
  linarith

omit [DecidableEq V] in
theorem names_perm {left right : List (ToolCall V)}
    (h : (left.map ToolCall.call).Perm (right.map ToolCall.call)) :
    (left.map ToolCall.name).Perm (right.map ToolCall.name) := by
  have hlift : ∀ tools : List (ToolCall V), tools.map ToolCall.name =
      (tools.map ToolCall.call).map Call.name := by
    intro tools
    rw [List.map_map]
    rfl
  rw [hlift left, hlift right]
  exact h.map _

/-- All that can be scored is scored by the calls of the ground truth alone. -/
theorem scored_eq_iff : scored K gtTools pdTools = scorable K gtTools ↔
    (gtTools.map ToolCall.call).Perm (pdTools.map ToolCall.call) := by
  unfold scored scorable
  rw [matchScore_eq_similarity, add_eq_add_iff_eq_and_eq
    (BagSimilarity.similarity_le_one _ _)
    (total_le callScore_le fullScore_pos _ _),
    BagSimilarity.similarity_eq_one_iff, Multiset.coe_eq_coe,
    total_eq_sum_iff callScore_le fullScore_pos callScore_eq_iff]
  constructor
  · rintro ⟨hnames, hsub⟩
    have hlength := hnames.length_eq
    apply hsub.perm_of_length_le
    simpa using hlength.ge
  · exact fun h => ⟨names_perm h, h.subperm⟩

/-- The reward is the share of what can be scored, an exact match no less. -/
theorem computeToolCallReward_eq (maxPossibleReward minPossibleReward : K) :
    computeToolCallReward gtTools pdTools maxPossibleReward
        minPossibleReward =
      (maxPossibleReward - minPossibleReward) * scored K gtTools pdTools /
        scorable K gtTools + minPossibleReward := by
  unfold computeToolCallReward
  split_ifs with heq
  · have hfull := (scored_eq_iff (K := K) gtTools pdTools).mpr
      (toolsEq_iff.mp heq ▸ List.Perm.refl _)
    rw [hfull, mul_div_cancel_right₀ _ (scorable_pos gtTools).ne',
      sub_add_cancel]
  · obtain ⟨hscore, hmax⟩ := foldl_matchTool gtTools pdTools
      (⟨matchScore K (gtTools.map ToolCall.name) (pdTools.map ToolCall.name),
        1, ∅⟩ : MatchState K)
    dsimp only
    rw [hscore, hmax, offers_empty]
    rfl

end Reward

section Order

open GreedyMatching

variable [DecidableEq V] [Field K] [LinearOrder K] [IsStrictOrderedRing K]

/-- Two predicted calls score equally against a ground-truth call, and more
than nothing. -/
structure Ties (K : Type) [Field K] [LinearOrder K]
    (gtTool left right : ToolCall V) : Prop where
  leftName : left.name = gtTool.name
  rightName : right.name = gtTool.name
  pos : 0 < totalScore K gtTool left
  score : totalScore K gtTool left = totalScore K gtTool right

/-- The predicted calls in another order, in which those that tie for a
ground-truth call stand as before: the two of them alone make up the same
list. -/
structure ReorderedButTies (K : Type) [Field K] [LinearOrder K]
    (gtTools pdTools pdTools' : List (ToolCall V)) : Prop where
  perm : (pdTools.map ToolCall.call).Perm (pdTools'.map ToolCall.call)
  ties : ∀ gtTool ∈ gtTools, ∀ left right, Ties K gtTool left right →
    (pdTools.map ToolCall.call).filter
        (fun call => call = left.call ∨ call = right.call) =
      (pdTools'.map ToolCall.call).filter
        fun call => call = left.call ∨ call = right.call

variable {gtTools pdTools pdTools' : List (ToolCall V)}

theorem ReorderedButTies.sameTies
    (h : ReorderedButTies K gtTools pdTools pdTools') :
    SameTies (callScore : ToolCall V → Call V → K) gtTools
      (pdTools.map ToolCall.call) (pdTools'.map ToolCall.call) := by
  intro gtTool hgtTool left right hpos htie
  obtain ⟨left, rfl⟩ := Quotient.exists_rep left
  obtain ⟨right, rfl⟩ := Quotient.exists_rep right
  change 0 < callScore gtTool left.call at hpos
  change callScore gtTool left.call = callScore gtTool right.call at htie
  rw [htie, callScore_call] at hpos
  rw [callScore_call, callScore_call] at htie
  split_ifs at hpos htie with hright hleft
  · exact h.ties gtTool hgtTool left right ⟨hleft, hright, htie ▸ hpos, htie⟩
  · exact absurd hpos (htie ▸ lt_irrefl 0)
  · exact absurd hpos (lt_irrefl 0)
  · exact absurd hpos (lt_irrefl 0)

/-- Reordering changes nothing that is scored unless calls that tie change
places. -/
theorem ReorderedButTies.scored_eq
    (h : ReorderedButTies K gtTools pdTools pdTools') :
    scored K gtTools pdTools = scored K gtTools pdTools' := by
  have hnames : ((pdTools.map ToolCall.name : List String) :
      Multiset String) = (pdTools'.map ToolCall.name : List String) :=
    Multiset.coe_eq_coe.mpr (names_perm h.perm)
  unfold scored
  rw [matchScore_eq_similarity, matchScore_eq_similarity, hnames,
    total_eq_of_perm h.perm h.sameTies]

end Order

/-- The reward lies between the two bounds, is the upper one exactly for a
permutation of the ground truth, and is the same in every order that calls
that tie do not change places in. -/
theorem computeToolCallReward_bounded [DecidableEq V] [Field K] [LinearOrder K]
    [IsStrictOrderedRing K] (gtTools pdTools : List (ToolCall V))
    {maxPossibleReward minPossibleReward : K}
    (hreward : minPossibleReward < maxPossibleReward) :
    minPossibleReward ≤ computeToolCallReward gtTools pdTools
        maxPossibleReward minPossibleReward ∧
    computeToolCallReward gtTools pdTools maxPossibleReward
        minPossibleReward ≤ maxPossibleReward ∧
    (computeToolCallReward gtTools pdTools maxPossibleReward
        minPossibleReward = maxPossibleReward ↔
      (gtTools.map ToolCall.call).Perm (pdTools.map ToolCall.call)) ∧
    ∀ pdTools', ReorderedButTies K gtTools pdTools pdTools' →
      computeToolCallReward gtTools pdTools' maxPossibleReward
          minPossibleReward =
        computeToolCallReward gtTools pdTools maxPossibleReward
          minPossibleReward := by
  have hrange : 0 < maxPossibleReward - minPossibleReward :=
    sub_pos.mpr hreward
  have hpos := scorable_pos (K := K) gtTools
  have hnonneg := scored_nonneg (K := K) gtTools pdTools
  have hle := scored_le (K := K) gtTools pdTools
  rw [computeToolCallReward_eq, mul_div_assoc]
  have hshare : scored K gtTools pdTools / scorable K gtTools ≤ 1 :=
    (div_le_one hpos).mpr hle
  refine ⟨?_, ?_, ?_, ?_⟩
  · have hshare' : 0 ≤ scored K gtTools pdTools / scorable K gtTools :=
      div_nonneg hnonneg hpos.le
    have := mul_nonneg hrange.le hshare'
    linarith
  · have := mul_le_of_le_one_right hrange.le hshare
    linarith
  · rw [← scored_eq_iff (K := K), ← div_eq_one_iff_eq hpos.ne',
      ← eq_sub_iff_add_eq, mul_eq_left₀ hrange.ne']
  · intro pdTools' h
    rw [computeToolCallReward_eq, h.scored_eq, mul_div_assoc]

section Example

/-- `f(**parameters)` -/
def callF (parameters : List (String × Nat)) : ToolCall Nat :=
  ⟨"f", PyDict.ofList parameters⟩

/-- `g()` -/
def callG : ToolCall Nat := ⟨"g", PyDict.empty⟩

/-- A call of another function may stand anywhere. -/
theorem computeToolCallReward_bounded_two :
    computeToolCallReward [callF [("a", 1)]] [callF [("a", 1)], callG]
        (1 : ℚ) 0 =
      computeToolCallReward [callF [("a", 1)]] [callG, callF [("a", 1)]]
        (1 : ℚ) 0 := by
  have hrange : (0 : ℚ) < 1 := zero_lt_one
  refine (computeToolCallReward_bounded [callF [("a", 1)]]
    [callG, callF [("a", 1)]] hrange).2.2.2 _ ⟨List.Perm.swap _ _ _, ?_⟩
  intro gtTool hgtTool left right hties
  rw [List.mem_singleton] at hgtTool
  subst hgtTool
  have hcallG : ∀ tool : ToolCall Nat, tool.name = "f" →
      callG.call ≠ tool.call := by
    intro tool htool heq
    rw [call_eq_iff, htool] at heq
    exact absurd heq.1 (by decide)
  have hleft := hcallG left hties.leftName
  have hright := hcallG right hties.rightName
  simp [List.filter_cons, hleft, hright]

/-- The first ground-truth call takes one of two calls that are equally good
for it, and the second one is left with the other. -/
theorem not_computeToolCallReward_reordered :
    [callF [("a", 1)], callF [("b", 2)]].Perm
      [callF [("b", 2)], callF [("a", 1)]] ∧
    computeToolCallReward [callF [("a", 1), ("b", 2)], callF [("a", 1)]]
      [callF [("a", 1)], callF [("b", 2)]] (1 : ℚ) 0 = 5 / 12 ∧
    computeToolCallReward [callF [("a", 1), ("b", 2)], callF [("a", 1)]]
      [callF [("b", 2)], callF [("a", 1)]] (1 : ℚ) 0 = 3 / 4 :=
  ⟨List.Perm.swap _ _ _, by decide +kernel, by decide +kernel⟩

end Example

end Rlla

end SelfDistillation
