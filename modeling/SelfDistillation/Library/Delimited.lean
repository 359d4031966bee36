/-
Texts with marks in them: the first occurrence of a mark, the contents between
a start mark and the next stop mark as a lazy regular expression finds them,
and the blocks that share a stop mark.
-/
import Mathlib

namespace Delimited

universe u

variable {α : Type u} [DecidableEq α]

/-- What stands before and after the first occurrence of the mark. -/
def splitFirst (mark : List α) : List α → Option (List α × List α)
  | [] => none
  | c :: cs =>
      if mark <+: c :: cs then some ([], (c :: cs).drop mark.length)
      else (splitFirst mark cs).map fun parts => (c :: parts.1, parts.2)

/-- The contents of the matches of `start(.*?)stop|start…` from the left; at a
start mark that no stop mark follows, `atEnd` says what a match up to the end
captures, if there is one.  One unit of fuel for every element passed. -/
def findAllFrom (start stop : List α) (atEnd : List α → Option (List α)) :
    Nat → List α → List (List α)
  | 0, _ => []
  | _ + 1, [] => []
  | fuel + 1, c :: cs =>
      if start <+: c :: cs then
        let rest := (c :: cs).drop start.length
        match splitFirst stop rest with
        | some parts =>
            parts.1 :: findAllFrom start stop atEnd fuel parts.2
        | none =>
            match atEnd rest with
            | some content => [content]
            | none => findAllFrom start stop atEnd fuel cs
      else findAllFrom start stop atEnd fuel cs

def findAll (start stop : List α) (atEnd : List α → Option (List α))
    (text : List α) : List (List α) :=
  findAllFrom start stop atEnd text.length text

/-- The text without its matches of `start(.*?)stop`. -/
def removeAllFrom (start stop : List α) : Nat → List α → List α
  | 0, text => text
  | _ + 1, [] => []
  | fuel + 1, c :: cs =>
      if start <+: c :: cs then
        match splitFirst stop ((c :: cs).drop start.length) with
        | some parts => removeAllFrom start stop fuel parts.2
        | none => c :: removeAllFrom start stop fuel cs
      else c :: removeAllFrom start stop fuel cs

def removeAll (start stop text : List α) : List α :=
  removeAllFrom start stop text.length text

/-- What follows each occurrence of the mark. -/
def afterEach (mark : List α) : List α → List (List α)
  | [] => []
  | c :: cs =>
      if mark <+: c :: cs then
        (c :: cs).drop mark.length :: afterEach mark cs
      else afterEach mark cs

/-- The contents that end where a match ends: its own, and those after the
start marks within it. -/
def nested (start content : List α) : List (List α) :=
  content :: afterEach start content

/-- No occurrence of the mark begins within the text, whatever follows. -/
def FreeOf (mark text : List α) : Prop :=
  ∀ k, k < text.length → ∀ after, ¬ mark <+: text.drop k ++ mark ++ after

theorem splitFirst_eq_some {mark text before after : List α}
    (h : splitFirst mark text = some (before, after)) :
    text = before ++ mark ++ after := by
  induction text generalizing before with
  | nil => cases h
  | cons c cs ih =>
      rw [splitFirst] at h
      by_cases hstarts : mark <+: c :: cs
      · rw [if_pos hstarts] at h
        cases h
        exact (List.prefix_iff_eq_append.mp hstarts).symm
      · rw [if_neg hstarts] at h
        obtain ⟨⟨before', after'⟩, hsplit, heq⟩ := Option.map_eq_some_iff.mp h
        cases heq
        rw [List.cons_append, List.cons_append, ← ih hsplit]

theorem splitFirst_eq_none_iff {mark text : List α} (hmark : mark ≠ []) :
    splitFirst mark text = none ↔ ¬ mark <:+: text := by
  induction text with
  | nil => simpa [splitFirst] using hmark
  | cons c cs ih =>
      rw [splitFirst, List.infix_cons_iff]
      by_cases hstarts : mark <+: c :: cs
      · simp [hstarts]
      · simp [hstarts, ih]

/-- A mark that what comes before cannot take part in is found behind it. -/
theorem splitFirst_append {mark before : List α}
    (h : FreeOf mark before) (after : List α) (hmark : mark ≠ []) :
    splitFirst mark (before ++ mark ++ after) = some (before, after) := by
  induction before with
  | nil =>
      obtain ⟨c, cs, rfl⟩ := List.exists_cons_of_ne_nil hmark
      rw [List.nil_append, List.cons_append, splitFirst,
        if_pos ⟨after, rfl⟩]
      simp
  | cons c cs ih =>
      have hfirst : ¬ mark <+: c :: (cs ++ mark ++ after) :=
        h 0 (Nat.succ_pos _) after
      have hrest : ∀ k, k < cs.length → ∀ after,
          ¬ mark <+: cs.drop k ++ mark ++ after :=
        fun k hk after => h (k + 1) (Nat.succ_lt_succ hk) after
      rw [List.cons_append, List.cons_append, splitFirst, if_neg hfirst,
        ih hrest, Option.map_some]

theorem suffix_of_mem_afterEach {mark text content : List α}
    (h : content ∈ afterEach mark text) : content <:+ text := by
  induction text with
  | nil => cases h
  | cons c cs ih =>
      rw [afterEach] at h
      by_cases hstarts : mark <+: c :: cs
      · rw [if_pos hstarts] at h
        rcases List.mem_cons.mp h with rfl | hrest
        · exact List.drop_suffix ..
        · exact (ih hrest).trans (List.suffix_cons c cs)
      · rw [if_neg hstarts] at h
        exact (ih h).trans (List.suffix_cons c cs)

theorem suffix_of_mem_nested {start content inner : List α}
    (h : inner ∈ nested start content) : inner <:+ content := by
  rcases List.mem_cons.mp h with rfl | hinner
  · exact List.suffix_rfl
  · exact suffix_of_mem_afterEach hinner

theorem afterEach_eq_nil {mark text : List α} (h : ¬ mark <:+: text) :
    afterEach mark text = [] := by
  induction text with
  | nil => rfl
  | cons c cs ih =>
      rw [List.infix_cons_iff, not_or] at h
      rw [afterEach, if_neg h.1, ih h.2]

/-- Without a start mark within, a content is the only one at its end. -/
theorem nested_eq_singleton {start content : List α}
    (h : ¬ start <:+: content) : nested start content = [content] := by
  rw [nested, afterEach_eq_nil h]

section FindAll

variable {start stop : List α} {atEnd : List α → Option (List α)}

theorem findAllFrom_eq_nil {text : List α} (h : ¬ start <:+: text)
    (fuel : Nat) : findAllFrom start stop atEnd fuel text = [] := by
  induction text generalizing fuel with
  | nil => cases fuel <;> rfl
  | cons c cs ih =>
      rw [List.infix_cons_iff, not_or] at h
      cases fuel with
      | zero => rfl
      | succ fuel => rw [findAllFrom, if_neg h.1, ih h.2]

theorem findAll_eq_nil {text : List α} (h : ¬ start <:+: text) :
    findAll start stop atEnd text = [] := findAllFrom_eq_nil h _

/-- A match up to the end leaves no start mark without one. -/
theorem infix_of_findAll_eq_nil (hend : ∀ rest, (atEnd rest).isSome)
    {text : List α} (h : findAll start stop atEnd text = [])
    (hstart : start ≠ []) : ¬ start <:+: text := by
  rw [findAll] at h
  induction text with
  | nil => simpa using hstart
  | cons c cs ih =>
      rw [List.length_cons, findAllFrom] at h
      by_cases hstarts : start <+: c :: cs
      · rw [if_pos hstarts] at h
        obtain ⟨content, hcontent⟩ := Option.isSome_iff_exists.mp
          (hend ((c :: cs).drop start.length))
        simp only [hcontent] at h
        split at h <;> cases h
      · rw [if_neg hstarts] at h
        rw [List.infix_cons_iff, not_or]
        exact ⟨hstarts, ih h⟩

/-- Without matches up to the end there is none without a stop mark. -/
theorem findAllFrom_eq_nil_of_stop (hend : ∀ rest, atEnd rest = none)
    (hstop : stop ≠ []) {text : List α} (h : ¬ stop <:+: text) (fuel : Nat) :
    findAllFrom start stop atEnd fuel text = [] := by
  induction text generalizing fuel with
  | nil => cases fuel <;> rfl
  | cons c cs ih =>
      have hrest : ¬ stop <:+: cs := fun hoccurs =>
        h (hoccurs.trans (List.suffix_cons c cs).isInfix)
      cases fuel with
      | zero => rfl
      | succ fuel =>
          have hnone : splitFirst stop ((c :: cs).drop start.length) = none :=
            (splitFirst_eq_none_iff hstop).mpr fun hoccurs =>
              h (hoccurs.trans (List.drop_suffix ..).isInfix)
          rw [findAllFrom]
          simp only [hnone, hend, ih hrest, ite_self]

theorem findAll_eq_nil_of_stop (hend : ∀ rest, atEnd rest = none)
    (hstop : stop ≠ []) {text : List α} (h : ¬ stop <:+: text) :
    findAll start stop atEnd text = [] :=
  findAllFrom_eq_nil_of_stop hend hstop h _

end FindAll

section Blocks

variable {start stop : List α} {atEnd : List α → Option (List α)}

omit [DecidableEq α] in
/-- A mark whose first element it has only once does not overlap itself. -/
theorem freeOf_of_not_infix {m : α} {ms text : List α} (hm : m ∉ ms)
    (h : ¬ m :: ms <:+: text) : FreeOf (m :: ms) text := by
  intro k hk after hstarts
  have hpos : 0 < (text.drop k).length := by
    rw [List.length_drop]
    omega
  rw [List.append_assoc] at hstarts
  rcases Nat.le_total (m :: ms).length (text.drop k).length with hle | hle
  · apply h
    have hinside : m :: ms <+: text.drop k :=
      List.prefix_of_prefix_length_le hstarts (List.prefix_append ..) hle
    exact hinside.isInfix.trans (List.drop_suffix k text).isInfix
  · by_cases heq : (m :: ms).length = (text.drop k).length
    · apply h
      have hinside : m :: ms <+: text.drop k :=
        List.prefix_of_prefix_length_le hstarts (List.prefix_append ..) heq.le
      exact hinside.isInfix.trans (List.drop_suffix k text).isInfix
    · -- the mark would have its first element behind the rest of the text
      have hlt : (text.drop k).length < (m :: ms).length := by omega
      have hat := List.prefix_iff_getElem?.mp hstarts (text.drop k).length hlt
      rw [List.getElem?_append_right (Nat.le_refl _), Nat.sub_self,
        List.cons_append, List.getElem?_cons_zero] at hat
      apply hm
      obtain ⟨j, hj⟩ : ∃ j, (text.drop k).length = j + 1 :=
        Nat.exists_eq_succ_of_ne_zero (by omega)
      have hfirst : (m :: ms)[(text.drop k).length] = m :=
        (Option.some.inj hat).symm
      simp only [hj, List.getElem_cons_succ] at hfirst
      exact hfirst ▸ List.getElem_mem _

/-- More fuel than the text has elements changes nothing. -/
theorem findAllFrom_eq (hstart : start ≠ []) {fuel fuel' : Nat}
    {text : List α} (hfuel : text.length ≤ fuel)
    (hfuel' : text.length ≤ fuel') :
    findAllFrom start stop atEnd fuel text =
      findAllFrom start stop atEnd fuel' text := by
  induction fuel generalizing fuel' text with
  | zero =>
      have hnil := List.length_eq_zero_iff.mp (Nat.le_zero.mp hfuel)
      subst hnil
      cases fuel' <;> rfl
  | succ fuel ih =>
      cases text with
      | nil => cases fuel' <;> rfl
      | cons c cs =>
          obtain ⟨fuel', rfl⟩ : ∃ n, fuel' = n + 1 :=
            Nat.exists_eq_succ_of_ne_zero (by
              rw [List.length_cons] at hfuel'
              omega)
          rw [List.length_cons] at hfuel hfuel'
          have hrest : findAllFrom start stop atEnd fuel cs =
              findAllFrom start stop atEnd fuel' cs :=
            ih (by omega) (by omega)
          rw [findAllFrom, findAllFrom]
          by_cases hstarts : start <+: c :: cs
          · simp only [if_pos hstarts]
            cases hsplit : splitFirst stop ((c :: cs).drop start.length) with
            | none => simp only [hrest]
            | some parts =>
                have hparts : (c :: cs).drop start.length =
                    parts.1 ++ stop ++ parts.2 := splitFirst_eq_some hsplit
                have hlength := congrArg List.length hparts
                have hpos := List.length_pos_iff.mpr hstart
                simp only [List.length_drop, List.length_cons,
                  List.length_append] at hlength
                have hafter : findAllFrom start stop atEnd fuel parts.2 =
                    findAllFrom start stop atEnd fuel' parts.2 :=
                  ih (by omega) (by omega)
                simp only [hafter]
          · simp only [if_neg hstarts, hrest]

theorem findAll_cons {c : α} {cs : List α} (h : ¬ start <+: c :: cs) :
    findAll start stop atEnd (c :: cs) = findAll start stop atEnd cs := by
  rw [findAll, List.length_cons, findAllFrom, if_neg h, findAll]

theorem findAll_append {plain : List α} (hplain : FreeOf start plain)
    (rest : List α) :
    findAll start stop atEnd (plain ++ start ++ rest) =
      findAll start stop atEnd (start ++ rest) := by
  induction plain with
  | nil => rfl
  | cons c cs ih =>
      have hfirst : ¬ start <+: c :: (cs ++ start ++ rest) :=
        hplain 0 (Nat.succ_pos _) rest
      have hrest : FreeOf start cs :=
        fun k hk after => hplain (k + 1) (Nat.succ_lt_succ hk) after
      rw [List.cons_append, List.cons_append, findAll_cons hfirst, ih hrest]

/-- A content ends at the first stop mark behind its start mark. -/
theorem findAll_block (hstart : start ≠ []) (hstop : stop ≠ [])
    {content : List α} (hcontent : FreeOf stop content) (rest : List α) :
    findAll start stop atEnd (start ++ (content ++ stop ++ rest)) =
      content :: findAll start stop atEnd rest := by
  have hstarts : start <+: start ++ (content ++ stop ++ rest) :=
    List.prefix_append ..
  have hdrop : (start ++ (content ++ stop ++ rest)).drop start.length =
      content ++ stop ++ rest := List.drop_left
  have hsplit := splitFirst_append hcontent rest hstop
  rw [← hdrop] at hsplit
  have hlength : rest.length <
      (start ++ (content ++ stop ++ rest)).length := by
    have hpos := List.length_pos_iff.mpr hstart
    simp only [List.length_append]
    omega
  generalize start ++ (content ++ stop ++ rest) = text at *
  cases text with
  | nil => cases hlength
  | cons c cs =>
      rw [List.length_cons] at hlength
      rw [findAll, List.length_cons, findAllFrom, if_pos hstarts]
      simp only [hsplit]
      rw [findAllFrom_eq hstart (Nat.le_of_lt_succ hlength) (Nat.le_refl _)]
      rfl

/-- Texts and blocks that alternate, and a text behind them. -/
def render (start stop : List α) (blocks : List (List α × List α))
    (tail : List α) : List α :=
  match blocks with
  | [] => tail
  | (plain, content) :: rest =>
      plain ++ start ++ (content ++ stop ++ render start stop rest tail)

/-- The contents of blocks are found as they were written. -/
theorem findAll_render (hstart : start ≠ []) (hstop : stop ≠ [])
    {blocks : List (List α × List α)} {tail : List α}
    (hblocks : ∀ block ∈ blocks, FreeOf start block.1 ∧ FreeOf stop block.2)
    (htail : ¬ start <:+: tail) :
    findAll start stop atEnd (render start stop blocks tail) =
      blocks.map Prod.snd := by
  induction blocks with
  | nil => exact findAll_eq_nil htail
  | cons block rest ih =>
      obtain ⟨⟨hplain, hcontent⟩, hrest⟩ := List.forall_mem_cons.mp hblocks
      rw [render, findAll_append hplain, findAll_block hstart hstop hcontent,
        ih hrest, List.map_cons]

end Blocks

omit [DecidableEq α] in
/-- Behind an element that a mark does not have, it begins anew. -/
theorem infix_append_cons_iff {mark left right : List α} {c : α}
    (hc : c ∉ mark) :
    mark <:+: left ++ c :: right ↔ mark <:+: left ∨ mark <:+: right := by
  constructor
  · rintro ⟨before, after, h⟩
    obtain ⟨rest, hleft, -⟩ | ⟨rest, hrest, hright⟩ :=
      List.append_eq_append_iff.mp h
    · exact Or.inl ⟨before, rest, hleft.symm⟩
    · cases rest with
      | nil =>
          refine Or.inl ⟨before, [], ?_⟩
          rw [List.append_nil, hrest, List.append_nil]
      | cons d rest =>
          rw [List.cons_append, List.cons.injEq] at hright
          obtain ⟨rfl, rfl⟩ := hright
          obtain ⟨gap, -, hgap⟩ | ⟨gap, -, hgap⟩ :=
            List.append_eq_append_iff.mp hrest
          · exact absurd (hgap ▸ by simp) hc
          · cases gap with
            | nil => exact absurd (by simp [← show _ = mark from hgap]) hc
            | cons d gap =>
                rw [List.cons_append, List.cons.injEq] at hgap
                refine Or.inr ⟨gap, after, ?_⟩
                rw [hgap.2]
  · rintro (hleft | hright)
    · exact hleft.trans (List.prefix_append left _).isInfix
    · exact hright.trans ((List.suffix_cons c right).trans
        (List.suffix_append left _)).isInfix

omit [DecidableEq α] in
/-- A mark does not reach into a text that does not have its last element. -/
theorem infix_of_infix_append {mark left right : List α} {c : α}
    (hc : c ∉ right) (h : mark ++ [c] <:+: left ++ right) :
    mark ++ [c] <:+: left := by
  obtain ⟨before, after, h⟩ := h
  obtain ⟨rest, hleft, -⟩ | ⟨rest, hrest, hright⟩ :=
    List.append_eq_append_iff.mp h
  · exact ⟨before, rest, hleft.symm⟩
  · rcases List.eq_nil_or_concat rest with rfl | ⟨init, d, rfl⟩
    · refine ⟨before, [], ?_⟩
      rw [List.append_nil, hrest, List.append_nil]
    · have hlast := congrArg List.getLast? hrest
      simp only [← List.append_assoc, List.getLast?_append,
        List.concat_eq_append, List.getLast?_singleton, Option.some_or,
        Option.some.injEq] at hlast
      subst hlast
      exact absurd (hright ▸ by simp) hc

/-- What is behind the first mark is carried along. -/
theorem splitFirst_append_of_some {mark text before after : List α}
    (h : splitFirst mark text = some (before, after)) (rest : List α) :
    splitFirst mark (text ++ rest) = some (before, after ++ rest) := by
  induction text generalizing before with
  | nil => cases h
  | cons c cs ih =>
      rw [splitFirst] at h
      rw [List.cons_append, splitFirst]
      by_cases hstarts : mark <+: c :: cs
      · rw [if_pos hstarts] at h
        cases h
        have hstays : mark <+: c :: (cs ++ rest) :=
          hstarts.trans (List.prefix_append (c :: cs) rest)
        rw [if_pos hstays, ← List.cons_append,
          List.drop_append_of_le_length hstarts.length_le]
      · rw [if_neg hstarts] at h
        obtain ⟨⟨before', after'⟩, hsplit, heq⟩ := Option.map_eq_some_iff.mp h
        cases heq
        -- the mark is found further on, so it does not reach behind the text
        have hlength := congrArg List.length (splitFirst_eq_some hsplit)
        have hnot : ¬ mark <+: c :: (cs ++ rest) := by
          intro hreaches
          apply hstarts
          refine List.prefix_of_prefix_length_le hreaches
            (List.prefix_append (c :: cs) rest) ?_
          simp only [List.length_append, List.length_cons] at hlength ⊢
          omega
        rw [if_neg hnot, ih hsplit, Option.map_some]

end Delimited
