/-
Matching with backtracking: what a pattern leaves of a text, in the order in
which its alternatives are tried, and the blocks between two marks that a lazy
pattern finds from the left.
-/
import Mathlib

namespace Backtracking

universe u

variable {α : Type u}

section Pattern

/-- The text begins with the word, up to what the pattern takes for the
same. -/
def starts (same : α → α → Bool) : List α → List α → Bool
  | [], _ => true
  | _ :: _, [] => false
  | m :: ms, c :: cs => same m c && starts same ms cs

variable (same : α → α → Bool) (skip : α → Bool)

/-- A word. -/
def word (mark text : List α) : List (List α) :=
  if starts same mark text then [text.drop mark.length] else []

/-- `[skip]*`, greedy -/
def many : List α → List (List α)
  | [] => [[]]
  | c :: cs => if skip c then many cs ++ [c :: cs] else [c :: cs]

/-- `(.*?)` and a pattern behind it: what is captured and what is left. -/
def lazily (next : List α → List (List α)) :
    List α → List (List α × List α)
  | [] => (next []).map fun rest => ([], rest)
  | c :: cs =>
      ((next (c :: cs)).map fun rest => ([], rest)) ++
        (lazily next cs).map fun found => (c :: found.1, found.2)

/-- `start[skip]*(.*?)[skip]*stop` -/
def block (start stop text : List α) : List (List α × List α) :=
  (word same start text).flatMap fun behind =>
    (many skip behind).flatMap
      (lazily fun rest => (many skip rest).flatMap (word same stop))

/-- What the matches from the left capture, for a pattern that takes at least
one element.  One unit of fuel for every one that is passed. -/
def findMatchesFrom (pattern : List α → List (List α × List α)) :
    Nat → List α → List (List α)
  | 0, _ => []
  | fuel + 1, text =>
      match (pattern text).head? with
      | some (captured, rest) =>
          captured :: findMatchesFrom pattern fuel rest
      | none =>
          match text with
          | [] => []
          | _ :: cs => findMatchesFrom pattern fuel cs

def findMatches (pattern : List α → List (List α × List α))
    (text : List α) : List (List α) :=
  findMatchesFrom pattern (text.length + 1) text

/-- Some place of the text is the start of a match. -/
def search (pattern : List α → List (List α)) : List α → Bool
  | [] => !(pattern []).isEmpty
  | c :: cs => !(pattern (c :: cs)).isEmpty || search pattern cs

/-- What stands before and behind the first occurrence of the mark. -/
def splitMark (mark : List α) : List α → Option (List α × List α)
  | [] => if starts same mark [] then some ([], []) else none
  | c :: cs =>
      if starts same mark (c :: cs) then
        some ([], (c :: cs).drop mark.length)
      else (splitMark mark cs).map fun parts => (c :: parts.1, parts.2)

/-- Every start mark has a stop mark behind it. -/
def closed (start stop : List α) : List α → Bool
  | [] => true
  | c :: cs =>
      (!starts same start (c :: cs) ||
        (splitMark same stop ((c :: cs).drop start.length)).isSome) &&
      closed start stop cs

/-- Without what is skipped at both ends. -/
def trim (text : List α) : List α :=
  (text.dropWhile skip).rdropWhile skip

end Pattern

section Words

variable {same : α → α → Bool} {skip : α → Bool}

theorem starts_append {mark text : List α} (h : starts same mark text)
    (rest : List α) : starts same mark (text ++ rest) := by
  induction mark generalizing text with
  | nil => rfl
  | cons m ms ih =>
      cases text with
      | nil => cases h
      | cons c cs =>
          rw [starts, Bool.and_eq_true] at h
          rw [List.cons_append, starts, h.1, ih h.2]
          rfl

theorem length_le_of_starts {mark text : List α}
    (h : starts same mark text) : mark.length ≤ text.length := by
  induction mark generalizing text with
  | nil => exact Nat.zero_le _
  | cons m ms ih =>
      cases text with
      | nil => cases h
      | cons c cs =>
          rw [starts, Bool.and_eq_true] at h
          exact Nat.succ_le_succ (ih h.2)

theorem starts_self (hself : ∀ c, same c c = true) (mark rest : List α) :
    starts same mark (mark ++ rest) := by
  induction mark with
  | nil => rfl
  | cons m ms ih =>
      rw [List.cons_append, starts, hself m, ih]
      rfl

theorem starts_eq_iff [DecidableEq α] {mark text : List α} :
    starts (fun m c => m == c) mark text = true ↔ mark <+: text := by
  induction mark generalizing text with
  | nil => simp [starts]
  | cons m ms ih =>
      cases text with
      | nil => simp [starts]
      | cons c cs => simp [starts, ih, List.cons_prefix_cons]

theorem mem_many {text rest : List α} :
    rest ∈ many skip text ↔
      ∃ skipped, text = skipped ++ rest ∧ ∀ c ∈ skipped, skip c = true := by
  induction text with
  | nil =>
      constructor
      · intro h
        exact ⟨[], by simpa [many, eq_comm] using h, by simp⟩
      · rintro ⟨skipped, h, -⟩
        rw [List.nil_eq_append_iff] at h
        simp [many, h.2]
  | cons c cs ih =>
      rw [many]
      constructor
      · intro h
        by_cases hc : skip c = true
        · rw [if_pos hc] at h
          obtain hlater | hnow := List.mem_append.mp h
          · obtain ⟨skipped, rfl, hskipped⟩ := ih.mp hlater
            exact ⟨c :: skipped, rfl, List.forall_mem_cons.mpr ⟨hc, hskipped⟩⟩
          · rw [List.mem_singleton] at hnow
            exact ⟨[], hnow.symm, by simp⟩
        · rw [if_neg hc, List.mem_singleton] at h
          exact ⟨[], h.symm, by simp⟩
      · rintro ⟨skipped, htext, hskipped⟩
        cases skipped with
        | nil =>
            rw [List.nil_append] at htext
            rw [← htext]
            split_ifs <;> simp
        | cons d skipped =>
            rw [List.cons_append, List.cons.injEq] at htext
            obtain ⟨rfl, htext⟩ := htext
            obtain ⟨hd, hskipped⟩ := List.forall_mem_cons.mp hskipped
            rw [if_pos hd, List.mem_append]
            exact Or.inl (ih.mpr ⟨skipped, htext, hskipped⟩)

theorem search_append {pattern : List α → List (List α)} {text : List α}
    (h : pattern text ≠ []) (before : List α) :
    search pattern (before ++ text) = true := by
  induction before with
  | nil =>
      have hfound : (pattern text).isEmpty = false := by
        rw [List.isEmpty_eq_false_iff]
        exact h
      cases text with
      | nil => rw [List.nil_append, search, hfound]; rfl
      | cons c cs => rw [List.nil_append, search, hfound]; rfl
  | cons c before ih => rw [List.cons_append, search, ih, Bool.or_true]

end Words

section Marks

variable {same : α → α → Bool} {skip : α → Bool} {s : α}

/-- The mark begins with an element that stands for itself alone, and has it
nowhere else. -/
structure Mark (same : α → α → Bool) (s : α) (mark : List α) : Prop where
  head : mark.head? = some s
  alone : ∀ c, same s c = true → c = s
  later : ∀ m ∈ mark.tail, same m s = false

theorem Mark.ne_nil {mark : List α} (h : Mark same s mark) : mark ≠ [] := by
  rintro rfl
  cases h.head

theorem Mark.eq_cons {mark : List α} (h : Mark same s mark) :
    mark = s :: mark.tail := by
  have hhead := h.head
  cases mark with
  | nil => cases hhead
  | cons m ms =>
      cases hhead
      rfl

theorem Mark.eq_of_starts {mark : List α} (h : Mark same s mark) {c : α}
    {cs : List α} (hstarts : starts same mark (c :: cs)) : c = s := by
  rw [h.eq_cons, starts, Bool.and_eq_true] at hstarts
  exact h.alone c hstarts.1

theorem starts_of_append {mark text rest : List α}
    (hlength : mark.length ≤ text.length)
    (h : starts same mark (text ++ rest)) : starts same mark text := by
  induction mark generalizing text with
  | nil => rfl
  | cons m ms ih =>
      cases text with
      | nil => exact absurd hlength (by simp)
      | cons c cs =>
          rw [List.cons_append, starts, Bool.and_eq_true] at h
          rw [starts, h.1, ih (Nat.le_of_succ_le_succ hlength) h.2]
          rfl

/-- A mark that begins before another one ends before it. -/
theorem Mark.starts_left {mark left right : List α} (h : Mark same s mark)
    (hleft : left ≠ []) (hstarts : starts same mark (left ++ s :: right)) :
    starts same mark left := by
  have htail : ∀ (ms left : List α), (∀ m ∈ ms, same m s = false) →
      starts same ms (left ++ s :: right) → starts same ms left := by
    intro ms
    induction ms with
    | nil => exact fun _ _ _ => rfl
    | cons m ms ih =>
        intro left hms hstarts
        obtain ⟨hm, hms⟩ := List.forall_mem_cons.mp hms
        cases left with
        | nil =>
            rw [List.nil_append, starts, hm] at hstarts
            cases hstarts
        | cons c cs =>
            rw [List.cons_append, starts, Bool.and_eq_true] at hstarts
            rw [starts, hstarts.1, ih cs hms hstarts.2]
            rfl
  obtain ⟨c, cs, rfl⟩ := List.exists_cons_of_ne_nil hleft
  rw [h.eq_cons, List.cons_append, starts, Bool.and_eq_true] at hstarts
  rw [h.eq_cons, starts, hstarts.1, htail _ cs h.later hstarts.2]
  rfl

theorem splitMark_eq_some {mark text before after : List α}
    (h : splitMark same mark text = some (before, after)) :
    ∃ found, text = before ++ (found ++ after) ∧ starts same mark found ∧
      found.length = mark.length := by
  induction text generalizing before with
  | nil =>
      rw [splitMark] at h
      split_ifs at h with hstarts
      cases h
      have hmark := length_le_of_starts hstarts
      exact ⟨[], rfl, hstarts, (Nat.le_zero.mp hmark).symm⟩
  | cons c cs ih =>
      rw [splitMark] at h
      split_ifs at h with hstarts
      · cases h
        have hlength := length_le_of_starts hstarts
        refine ⟨(c :: cs).take mark.length, ?_, ?_, ?_⟩
        · rw [List.nil_append, List.take_append_drop]
        · have hwhole : starts same mark ((c :: cs).take mark.length ++
              (c :: cs).drop mark.length) := by
            rwa [List.take_append_drop]
          refine starts_of_append ?_ hwhole
          rw [List.length_take_of_le hlength]
        · exact List.length_take_of_le hlength
      · obtain ⟨⟨before', after'⟩, hsplit, heq⟩ := Option.map_eq_some_iff.mp h
        cases heq
        obtain ⟨found, rfl, hfound⟩ := ih hsplit
        exact ⟨found, rfl, hfound⟩

/-- What is behind the first mark is carried along. -/
theorem splitMark_append_of_some {mark text before after : List α}
    (h : splitMark same mark text = some (before, after)) (rest : List α) :
    splitMark same mark (text ++ rest) = some (before, after ++ rest) := by
  induction text generalizing before with
  | nil =>
      rw [splitMark] at h
      split_ifs at h with hstarts
      cases h
      have hmark : mark = [] :=
        List.length_eq_zero_iff.mp
          (Nat.le_zero.mp (length_le_of_starts hstarts))
      subst hmark
      cases rest <;> rfl
  | cons c cs ih =>
      rw [splitMark] at h
      rw [List.cons_append, splitMark]
      split_ifs at h with hstarts
      · cases h
        have hstays : starts same mark (c :: (cs ++ rest)) :=
          starts_append hstarts rest
        rw [if_pos hstays, ← List.cons_append,
          List.drop_append_of_le_length (length_le_of_starts hstarts)]
      · obtain ⟨⟨before', after'⟩, hsplit, heq⟩ := Option.map_eq_some_iff.mp h
        cases heq
        -- the mark is found further on, so it does not reach behind the text
        obtain ⟨found, hcs, -, hlength⟩ := splitMark_eq_some hsplit
        have hshort : mark.length ≤ (c :: cs).length := by
          rw [hcs, ← hlength]
          simp only [List.length_cons, List.length_append]
          omega
        have hnot : ¬ starts same mark (c :: (cs ++ rest)) :=
          fun hreaches => hstarts (starts_of_append hshort hreaches)
        rw [if_neg hnot, ih hsplit, Option.map_some]

theorem Mark.splitMark_append_of_none {mark left right : List α}
    (h : Mark same s mark) (hleft : splitMark same mark left = none) :
    splitMark same mark (left ++ s :: right) =
      (splitMark same mark (s :: right)).map fun parts =>
        (left ++ parts.1, parts.2) := by
  induction left with
  | nil => simp
  | cons c cs ih =>
      rw [splitMark] at hleft
      split_ifs at hleft with hstarts
      rw [Option.map_eq_none_iff] at hleft
      have hnot : ¬ starts same mark (c :: (cs ++ s :: right)) := by
        intro hreaches
        exact hstarts (h.starts_left (List.cons_ne_nil c cs) hreaches)
      rw [List.cons_append, splitMark, if_neg hnot, ih hleft, Option.map_map]
      rfl

theorem Mark.splitMark_eq_none {mark text : List α} (h : Mark same s mark)
    (htext : s ∉ text) : splitMark same mark text = none := by
  induction text with
  | nil =>
      rw [splitMark, h.eq_cons]
      rfl
  | cons c cs ih =>
      rw [List.mem_cons, not_or] at htext
      have hnot : ¬ starts same mark (c :: cs) :=
        fun hstarts => htext.1 (h.eq_of_starts hstarts).symm
      rw [splitMark, if_neg hnot, ih htext.2]
      rfl

theorem Mark.splitMark_of_starts {mark found rest : List α}
    (h : Mark same s mark) (hfound : starts same mark found)
    (hlength : found.length = mark.length) :
    splitMark same mark (found ++ rest) = some ([], rest) := by
  have hne : found ≠ [] := by
    rintro rfl
    exact h.ne_nil (List.length_eq_zero_iff.mp hlength.symm)
  obtain ⟨c, cs, rfl⟩ := List.exists_cons_of_ne_nil hne
  have hstays : starts same mark (c :: (cs ++ rest)) :=
    starts_append hfound rest
  rw [List.cons_append, splitMark, if_pos hstays, ← hlength,
    ← List.cons_append, List.drop_left]

/-- Only what is behind all that can be skipped begins with a mark. -/
theorem Mark.many_word {mark : List α} (h : Mark same s mark)
    (hskip : skip s = false) (text : List α) :
    (many skip text).flatMap (word same mark) =
      word same mark (text.dropWhile skip) := by
  induction text with
  | nil => simp [many]
  | cons c cs ih =>
      rw [many]
      by_cases hc : skip c = true
      · have hnot : ¬ starts same mark (c :: cs) := by
          intro hstarts
          rw [h.eq_of_starts hstarts, hskip] at hc
          cases hc
        rw [if_pos hc, List.flatMap_append, ih, List.dropWhile_cons_of_pos hc,
          List.flatMap_singleton, word, word, if_neg hnot, List.append_nil]
      · rw [if_neg hc, List.flatMap_singleton, List.dropWhile_cons_of_neg hc]

theorem Mark.dropWhile_of_starts {mark text : List α} (h : Mark same s mark)
    (hskip : skip s = false) (hstarts : starts same mark text) :
    text.dropWhile skip = text := by
  cases text with
  | nil => rfl
  | cons c cs =>
      apply List.dropWhile_cons_of_neg
      rw [h.eq_of_starts hstarts, hskip]
      exact Bool.false_ne_true

theorem Mark.splitMark_of_dropWhile {mark text : List α}
    (h : Mark same s mark)
    (hskip : skip s = false)
    (hstarts : starts same mark (text.dropWhile skip)) :
    splitMark same mark text =
      some (text.takeWhile skip, (text.dropWhile skip).drop mark.length) := by
  induction text with
  | nil =>
      rw [h.eq_cons] at hstarts
      cases hstarts
  | cons c cs ih =>
      by_cases hc : skip c = true
      · have hnot : ¬ starts same mark (c :: cs) := by
          intro hnow
          rw [h.eq_of_starts hnow, hskip] at hc
          cases hc
        rw [List.dropWhile_cons_of_pos hc] at hstarts ⊢
        rw [splitMark, if_neg hnot, ih hstarts, List.takeWhile_cons_of_pos hc]
        rfl
      · rw [List.dropWhile_cons_of_neg hc] at hstarts ⊢
        rw [splitMark, if_pos hstarts, List.takeWhile_cons_of_neg hc]

theorem rdropWhile_cons {c : α} {text : List α}
    (h : ¬ ∀ d ∈ c :: text, skip d = true) :
    (c :: text).rdropWhile skip = c :: text.rdropWhile skip := by
  rw [List.rdropWhile, List.reverse_cons, List.dropWhile_append]
  by_cases hall : ∀ d ∈ text, skip d = true
  · have hc : ¬ skip c = true :=
      fun hc => h (List.forall_mem_cons.mpr ⟨hc, hall⟩)
    have hnone := List.rdropWhile_eq_nil_iff.mpr hall
    rw [hnone]
    rw [List.rdropWhile, List.reverse_eq_nil_iff] at hnone
    rw [hnone, List.isEmpty_nil, if_pos rfl, List.dropWhile_cons_of_neg hc]
    rfl
  · have hsome : (text.reverse.dropWhile skip).isEmpty = false := by
      rw [List.isEmpty_eq_false_iff, ne_eq, List.dropWhile_eq_nil_iff]
      exact fun hempty => hall fun d hd => hempty d (List.mem_reverse.mpr hd)
    rw [hsome]
    simp [List.rdropWhile]

/-- A lazy capture ends at the first mark, or before what is skipped in front
of it. -/
theorem Mark.head?_lazily {mark : List α} (h : Mark same s mark)
    (hskip : skip s = false) (text : List α) :
    (lazily (fun rest => (many skip rest).flatMap (word same mark))
        text).head? =
      (splitMark same mark text).map fun parts =>
        (parts.1.rdropWhile skip, parts.2) := by
  simp only [h.many_word hskip]
  have hnil : ¬ starts same mark [] := by
    rw [h.eq_cons]
    exact Bool.false_ne_true
  induction text with
  | nil => simp [lazily, word, splitMark, hnil]
  | cons c cs ih =>
      rw [lazily, word]
      by_cases hnow : starts same mark ((c :: cs).dropWhile skip)
      · -- all in front of the mark is skipped
        rw [if_pos hnow, h.splitMark_of_dropWhile hskip hnow, Option.map_some,
          List.rdropWhile_eq_nil_iff.mpr fun d hd =>
            List.mem_takeWhile_imp hd]
        rfl
      · have hnot : ¬ starts same mark (c :: cs) := by
          intro hstarts
          rw [h.dropWhile_of_starts hskip hstarts] at hnow
          exact hnow hstarts
        rw [if_neg hnow, List.map_nil, List.nil_append, List.head?_map, ih,
          splitMark, if_neg hnot, Option.map_map, Option.map_map]
        cases hsplit : splitMark same mark cs with
        | none => rfl
        | some parts =>
            obtain ⟨found, hcs, hfound, -⟩ := splitMark_eq_some hsplit
            have hall : ¬ ∀ d ∈ c :: parts.1, skip d = true := by
              intro hall
              apply hnow
              have hnext := starts_append hfound parts.2
              rw [hcs, ← List.cons_append, List.dropWhile_append_of_pos hall,
                h.dropWhile_of_starts hskip hnext]
              exact hnext
            simp [rdropWhile_cons hall]

theorem Mark.splitMark_append {mark before : List α} (h : Mark same s mark)
    (hbefore : s ∉ before) (text : List α) :
    splitMark same mark (before ++ text) =
      (splitMark same mark text).map fun parts =>
        (before ++ parts.1, parts.2) := by
  induction before with
  | nil => simp
  | cons c cs ih =>
      rw [List.mem_cons, not_or] at hbefore
      have hnot : ¬ starts same mark (c :: (cs ++ text)) :=
        fun hstarts => hbefore.1 (h.eq_of_starts hstarts).symm
      rw [List.cons_append, splitMark, if_neg hnot, ih hbefore.2,
        Option.map_map]
      rfl

theorem isSome_splitMark {mark text : List α}
    (h : starts same mark text) : (splitMark same mark text).isSome := by
  cases text with
  | nil => rw [splitMark, if_pos h]; rfl
  | cons c cs => rw [splitMark, if_pos h]; rfl

theorem isSome_splitMark_append {mark text : List α}
    (h : (splitMark same mark text).isSome) (before : List α) :
    (splitMark same mark (before ++ text)).isSome := by
  induction before with
  | nil => exact h
  | cons c cs ih =>
      rw [List.cons_append, splitMark]
      split_ifs
      · rfl
      · rwa [Option.isSome_map]

/-- What matches a mark has its first element nowhere else either. -/
theorem Mark.eq_cons_of_starts {mark found : List α} (h : Mark same s mark)
    (hfound : starts same mark found)
    (hlength : found.length = mark.length) :
    ∃ cs, found = s :: cs ∧ s ∉ cs := by
  have htail : ∀ (ms cs : List α), (∀ m ∈ ms, same m s = false) →
      cs.length = ms.length → starts same ms cs → s ∉ cs := by
    intro ms
    induction ms with
    | nil =>
        intro cs _ hlength _
        rw [List.length_eq_zero_iff.mp hlength]
        exact List.not_mem_nil
    | cons m ms ih =>
        intro cs hms hlength hstarts
        cases cs with
        | nil => exact List.not_mem_nil
        | cons c cs =>
            obtain ⟨hm, hms⟩ := List.forall_mem_cons.mp hms
            rw [starts, Bool.and_eq_true] at hstarts
            rw [List.mem_cons, not_or]
            refine ⟨?_, ih cs hms (Nat.succ.inj hlength) hstarts.2⟩
            rintro rfl
            rw [hm] at hstarts
            cases hstarts.1
  cases found with
  | nil => exact absurd (List.length_eq_zero_iff.mp hlength.symm) h.ne_nil
  | cons c cs =>
      obtain rfl := h.eq_of_starts hfound
      rw [h.eq_cons, List.length_cons, List.length_cons] at hlength
      rw [h.eq_cons, starts, Bool.and_eq_true] at hfound
      exact ⟨cs, rfl, htail _ cs h.later (Nat.succ.inj hlength) hfound.2⟩

/-- The first alternative skips all that can be skipped. -/
theorem many_eq_cons (skip : α → Bool) (text : List α) :
    ∃ others, many skip text = text.dropWhile skip :: others := by
  induction text with
  | nil => exact ⟨[], rfl⟩
  | cons c cs ih =>
      rw [many]
      by_cases hc : skip c = true
      · obtain ⟨others, hothers⟩ := ih
        rw [if_pos hc, hothers, List.dropWhile_cons_of_pos hc]
        exact ⟨others ++ [c :: cs], rfl⟩
      · rw [if_neg hc, List.dropWhile_cons_of_neg hc]
        exact ⟨[], rfl⟩

/-- The marks of blocks: both begin with the same element, and no text begins
with both. -/
structure Marks (same : α → α → Bool) (skip : α → Bool) (s : α)
    (start stop : List α) : Prop where
  starting : Mark same s start
  stopping : Mark same s stop
  apart : ∀ text, starts same stop text → starts same start text = false
  skip : skip s = false

variable {start stop : List α}

/-- A block ends at the first stop mark behind its start. -/
theorem Marks.head?_block (h : Marks same skip s start stop)
    (text : List α) :
    (block same skip start stop text).head? =
      if starts same start text then
        (splitMark same stop (text.drop start.length)).map fun parts =>
          (trim skip parts.1, parts.2)
      else none := by
  rw [block, word]
  by_cases hstarts : starts same start text
  · rw [if_pos hstarts, if_pos hstarts, List.flatMap_singleton]
    generalize text.drop start.length = behind
    have hlazily := h.stopping.head?_lazily h.skip
    -- whatever is skipped, the same mark is the first
    have hskipped : ∀ rest ∈ many skip behind, ∃ skipped,
        behind = skipped ++ rest ∧ (∀ c ∈ skipped, skip c = true) ∧
          splitMark same stop behind =
            (splitMark same stop rest).map fun parts =>
              (skipped ++ parts.1, parts.2) := by
      intro rest hrest
      obtain ⟨skipped, rfl, hall⟩ := mem_many.mp hrest
      refine ⟨skipped, rfl, hall, h.stopping.splitMark_append ?_ rest⟩
      intro hs
      have hskip := h.skip
      rw [hall s hs] at hskip
      cases hskip
    obtain ⟨others, hmany⟩ := many_eq_cons skip behind
    rw [hmany] at hskipped ⊢
    rw [List.flatMap_cons, List.head?_append, hlazily]
    obtain ⟨skipped, hbehind, hall, hfirst⟩ :=
      hskipped _ List.mem_cons_self
    rw [hfirst]
    cases hsplit : splitMark same stop (behind.dropWhile skip) with
    | none =>
        rw [Option.map_none, Option.none_or, Option.map_none,
          Option.map_none, List.head?_eq_none_iff, List.flatMap_eq_nil_iff]
        intro rest hrest
        obtain ⟨_, -, -, hsame⟩ := hskipped rest (List.mem_cons_of_mem _ hrest)
        rw [hfirst, hsplit, Option.map_none, eq_comm, Option.map_eq_none_iff]
          at hsame
        rw [← List.head?_eq_none_iff, hlazily, hsame, Option.map_none]
    | some parts =>
        obtain ⟨found, hparts, -, -⟩ := splitMark_eq_some hsplit
        have hfront : parts.1.dropWhile skip = parts.1 := by
          rw [List.dropWhile_eq_self_iff]
          intro hpos
          have hhead := List.dropWhile_eq_self_iff.mp
            (List.dropWhile_idempotent behind (p := skip))
          have hshorter : parts.1 <+: behind.dropWhile skip :=
            ⟨_, hparts.symm⟩
          rw [hshorter.getElem hpos]
          exact hhead (hpos.trans_le hshorter.length_le)
        rw [Option.map_some, Option.some_or, Option.map_some, Option.map_some,
          trim, List.dropWhile_append_of_pos hall, hfront]
  · rw [if_neg hstarts, if_neg hstarts]
    rfl

theorem closed_cons_of_ne (h : Mark same s start) {c : α} (hc : c ≠ s)
    (cs : List α) :
    closed same start stop (c :: cs) = closed same start stop cs := by
  have hnot : starts same start (c :: cs) = false := by
    rw [Bool.eq_false_iff]
    exact fun hstarts => hc (h.eq_of_starts hstarts)
  rw [closed, hnot]
  rfl

/-- A stop mark closes all that is in front of it. -/
theorem Marks.closed_append (h : Marks same skip s start stop)
    (before : List α) {found : List α} (hfound : starts same stop found)
    (hlength : found.length = stop.length) (after : List α) :
    closed same start stop (before ++ (found ++ after)) =
      closed same start stop after := by
  obtain ⟨cs, hcs, hlater⟩ := h.stopping.eq_cons_of_starts hfound hlength
  induction before with
  | nil =>
      have hplain : ∀ ds : List α, s ∉ ds →
          closed same start stop (ds ++ after) =
            closed same start stop after := by
        intro ds hds
        induction ds with
        | nil => rfl
        | cons d ds ih =>
            rw [List.mem_cons, not_or] at hds
            rw [List.cons_append,
              closed_cons_of_ne h.starting (Ne.symm hds.1), ih hds.2]
      have hnot : starts same start (s :: (cs ++ after)) = false := by
        apply h.apart
        rw [← List.cons_append, ← hcs]
        exact starts_append hfound after
      rw [List.nil_append, hcs, List.cons_append, closed, hnot,
        hplain cs hlater]
      rfl
  | cons c before ih =>
      have hclosed : starts same start (c :: (before ++ (found ++ after))) →
          (splitMark same stop ((c :: (before ++ (found ++ after))).drop
            start.length)).isSome := by
        intro hstarts
        rw [hcs, List.cons_append, ← List.cons_append] at hstarts
        have hleft := h.starting.starts_left (List.cons_ne_nil c before)
          hstarts
        rw [← List.cons_append,
          List.drop_append_of_le_length (length_le_of_starts hleft)]
        exact isSome_splitMark_append
          (isSome_splitMark (starts_append hfound after)) _
      rw [List.cons_append, closed, ih]
      cases hstarts : starts same start (c :: (before ++ (found ++ after))) with
      | true => rw [hclosed hstarts]; rfl
      | false => rfl

theorem findMatchesFrom_of_some {pattern : List α → List (List α × List α)}
    {text captured rest : List α}
    (h : (pattern text).head? = some (captured, rest)) (fuel : Nat) :
    findMatchesFrom pattern (fuel + 1) text =
      captured :: findMatchesFrom pattern fuel rest := by
  cases text <;> simp only [findMatchesFrom, h]

theorem findMatchesFrom_cons_of_none
    {pattern : List α → List (List α × List α)} {c : α} {cs : List α}
    (h : (pattern (c :: cs)).head? = none) (fuel : Nat) :
    findMatchesFrom pattern (fuel + 1) (c :: cs) =
      findMatchesFrom pattern fuel cs := by
  simp only [findMatchesFrom, h]

/-- No block without a start mark. -/
theorem Marks.findMatchesFrom_eq_nil (h : Marks same skip s start stop)
    {text : List α} (htext : s ∉ text) (fuel : Nat) :
    findMatchesFrom (block same skip start stop) fuel text = [] := by
  induction fuel generalizing text with
  | zero => rfl
  | succ fuel ih =>
      cases text with
      | nil =>
          have hnone : (block same skip start stop []).head? = none := by
            rw [h.head?_block, h.starting.eq_cons]
            rfl
          simp only [findMatchesFrom, hnone]
      | cons c cs =>
          rw [List.mem_cons, not_or] at htext
          rw [findMatchesFrom_cons_of_none, ih htext.2]
          rw [h.head?_block, if_neg]
          exact fun hstarts =>
            htext.1 (h.starting.eq_of_starts hstarts).symm

/-- The last block of a text that ends with one: its content, if all start
marks before it are closed, and what begins further ahead otherwise. -/
theorem Marks.findMatchesFrom_append (h : Marks same skip s start stop)
    (hself : ∀ c, same c c = true) {body tail : List α}
    (hbody : splitMark same stop body = none) (htail : s ∉ tail)
    (fuel : Nat) (before : List α)
    (hfuel : (before ++ (start ++ (body ++ (stop ++ tail)))).length < fuel) :
    ∃ found last,
      findMatchesFrom (block same skip start stop) fuel
          (before ++ (start ++ (body ++ (stop ++ tail)))) =
        found ++ [last] ∧
      if closed same start stop before then last = trim skip body
      else ∃ ahead, last = trim skip (ahead ++ start ++ body) := by
  have hstopHead := h.stopping.eq_cons
  have hstartHead := h.starting.eq_cons
  have hstop : splitMark same stop (body ++ (stop ++ tail)) =
      some (body, tail) := by
    have hnow : splitMark same stop (stop ++ tail) = some ([], tail) := by
      have hwhole := starts_self hself stop []
      rw [List.append_nil] at hwhole
      exact h.stopping.splitMark_of_starts hwhole rfl
    rw [hstopHead, List.cons_append] at hnow ⊢
    rw [← hstopHead] at hnow ⊢
    rw [h.stopping.splitMark_append_of_none hbody, hnow, Option.map_some,
      List.append_nil]
  have hfinal : starts same start (start ++ (body ++ (stop ++ tail))) :=
    starts_self hself start _
  -- behind a start mark that is not closed, the last stop mark is the first
  have hpassed : ∀ left, splitMark same stop left = none →
      splitMark same stop (left ++ (start ++ (body ++ (stop ++ tail)))) =
        some (left ++ (start ++ body), tail) := by
    intro left hleft
    have hwhole := starts_self hself start []
    rw [List.append_nil] at hwhole
    obtain ⟨cs, hcs, hlater⟩ := h.starting.eq_cons_of_starts hwhole rfl
    have hnot : ¬ starts same stop (start ++ (body ++ (stop ++ tail))) := by
      intro hboth
      rw [h.apart _ hboth] at hfinal
      cases hfinal
    rw [hcs, List.cons_append] at hnot ⊢
    rw [h.stopping.splitMark_append_of_none hleft, splitMark, if_neg hnot,
      h.stopping.splitMark_append hlater, hstop]
    rfl
  induction fuel generalizing before with
  | zero => exact absurd hfuel (Nat.not_lt_zero _)
  | succ fuel ih =>
      have hblock := h.head?_block (before ++ (start ++ (body ++ (stop ++ tail))))
      cases before with
      | nil =>
          rw [List.nil_append, if_pos hfinal, List.drop_left, hstop] at hblock
          refine ⟨[], trim skip body, ?_, ?_⟩
          · rw [List.nil_append, findMatchesFrom_of_some hblock,
              h.findMatchesFrom_eq_nil htail]
            rfl
          · rw [closed, if_pos rfl]
      | cons c before =>
          by_cases hstarts : starts same start
              (c :: before ++ (start ++ (body ++ (stop ++ tail))))
          · rw [if_pos hstarts] at hblock
            have hleft : starts same start (c :: before) := by
              have hnext : s :: (start.tail ++ (body ++ (stop ++ tail))) =
                  start ++ (body ++ (stop ++ tail)) := by
                rw [← List.cons_append, ← hstartHead]
              rw [← hnext] at hstarts
              exact h.starting.starts_left (List.cons_ne_nil c before) hstarts
            have hlength := length_le_of_starts hleft
            rw [List.drop_append_of_le_length hlength] at hblock
            cases hsplit : splitMark same stop
                ((c :: before).drop start.length) with
            | some parts =>
                rw [splitMark_append_of_some hsplit] at hblock
                obtain ⟨mark, hrest, hmark, hsize⟩ := splitMark_eq_some hsplit
                have hbefore : c :: before =
                    (c :: before).take start.length ++ parts.1 ++
                      (mark ++ parts.2) := by
                  rw [List.append_assoc, ← hrest, List.take_append_drop]
                have hshorter : parts.2.length ≤ before.length := by
                  have hcount := congrArg List.length hbefore
                  have hpos : 0 < start.length := by
                    rw [hstartHead]
                    exact Nat.succ_pos _
                  simp only [List.length_append, List.length_take_of_le
                    hlength, List.length_cons] at hcount
                  omega
                obtain ⟨found, last, hfound, hlast⟩ := ih parts.2 (by
                  simp only [List.length_append, List.length_cons]
                    at hfuel ⊢
                  omega)
                refine ⟨trim skip parts.1 :: found, last, ?_, ?_⟩
                · rw [findMatchesFrom_of_some hblock, hfound]
                  rfl
                · rw [hbefore, h.closed_append _ hmark hsize]
                  exact hlast
            | none =>
                rw [hpassed _ hsplit] at hblock
                refine ⟨[], trim skip ((c :: before).drop start.length ++
                  (start ++ body)), ?_, ?_⟩
                · rw [findMatchesFrom_of_some hblock,
                    h.findMatchesFrom_eq_nil htail]
                  rfl
                · have hopen : closed same start stop (c :: before) =
                      false := by
                    rw [closed, hleft, hsplit]
                    rfl
                  rw [hopen, if_neg Bool.false_ne_true]
                  exact ⟨(c :: before).drop start.length,
                    by rw [List.append_assoc]⟩
          · rw [if_neg hstarts] at hblock
            obtain ⟨found, last, hfound, hlast⟩ := ih before (by
              rw [List.cons_append, List.length_cons] at hfuel
              omega)
            refine ⟨found, last, ?_, ?_⟩
            · exact (findMatchesFrom_cons_of_none hblock fuel).trans hfound
            · have hnot : starts same start (c :: before) = false := by
                rw [Bool.eq_false_iff]
                exact fun hnow => hstarts (starts_append hnow _)
              rw [closed, hnot]
              exact hlast

theorem Marks.findMatches_append (h : Marks same skip s start stop)
    (hself : ∀ c, same c c = true) (before : List α) {body tail : List α}
    (hbody : splitMark same stop body = none) (htail : s ∉ tail) :
    ∃ found last,
      findMatches (block same skip start stop)
          (before ++ (start ++ (body ++ (stop ++ tail)))) =
        found ++ [last] ∧
      if closed same start stop before then last = trim skip body
      else ∃ ahead, last = trim skip (ahead ++ start ++ body) :=
  h.findMatchesFrom_append hself hbody htail _ before (Nat.lt_succ_self _)

end Marks

end Backtracking
