/-
The `str` methods used on prompts and answers: `strip`, `replace`, `format`,
and the one regular expression of the trainer.
-/
import SelfDistillation.Library.Delimited
import SelfDistillation.Python

namespace SelfDistillation

/-- A `str` by its code points. -/
abbrev Text := List Char

/-- The code points `str.isspace` and `\s` accept. -/
def isSpace (c : Char) : Bool :=
  let n := c.toNat
  (9 ≤ n && n ≤ 13) || (28 ≤ n && n ≤ 32) || n == 133 || n == 160 ||
    n == 5760 || (8192 ≤ n && n ≤ 8202) || n == 8232 || n == 8233 ||
    n == 8239 || n == 8287 || n == 12288

/-- `s.strip()` -/
def strip (s : Text) : Text :=
  ((s.dropWhile isSpace).reverse.dropWhile isSpace).reverse

theorem dropWhile_ne_nil_iff {p : Char → Bool} {s : Text} :
    s.dropWhile p ≠ [] ↔ ∃ c ∈ s, p c = false := by
  simp [List.dropWhile_eq_nil_iff]

/-- Stripping leaves something exactly when a code point is not a space. -/
theorem strip_ne_nil_iff {s : Text} :
    strip s ≠ [] ↔ ∃ c ∈ s, isSpace c = false := by
  rw [strip, ne_eq, List.reverse_eq_nil_iff, ← ne_eq, dropWhile_ne_nil_iff]
  constructor
  · rintro ⟨c, hc, hspace⟩
    exact ⟨c, (List.dropWhile_suffix _).subset (List.mem_reverse.mp hc), hspace⟩
  · intro h
    have hne := dropWhile_ne_nil_iff.mpr h
    refine ⟨(s.dropWhile isSpace).head hne,
      List.mem_reverse.mpr (List.head_mem hne), ?_⟩
    simpa using List.head_dropWhile_not isSpace hne

/-- What follows the first occurrence of `marker`. -/
def afterFirst (marker : Text) : Text → Option Text
  | [] => none
  | c :: cs =>
      if marker.isPrefixOf (c :: cs) then
        some ((c :: cs).drop marker.length)
      else afterFirst marker cs

/-- `re.sub(r"<think>.*?</think>\s*", "", text, flags=re.DOTALL)`, with one
unit of fuel for every code point that is passed. -/
def removeThinkingTraceFrom : Nat → Text → Text
  | 0, s => s
  | _ + 1, [] => []
  | fuel + 1, c :: cs =>
      if "<think>".toList.isPrefixOf (c :: cs) then
        match afterFirst "</think>".toList ((c :: cs).drop 7) with
        | some rest =>
            removeThinkingTraceFrom fuel (rest.dropWhile isSpace)
        | none => c :: removeThinkingTraceFrom fuel cs
      else c :: removeThinkingTraceFrom fuel cs

/-- `_remove_thinking_trace` -/
def removeThinkingTrace (text : Text) : Text :=
  removeThinkingTraceFrom text.length text

/-- `s.replace(old, new)` for an `old` that is not empty. -/
def replaceFrom (old new : Text) : Nat → Text → Text
  | 0, s => s
  | _ + 1, [] => []
  | fuel + 1, c :: cs =>
      if old.isPrefixOf (c :: cs) then
        new ++ replaceFrom old new fuel ((c :: cs).drop old.length)
      else c :: replaceFrom old new fuel cs

def replaceAll (old new s : Text) : Text := replaceFrom old new s.length s

/-- `s.split(mark)`, with one unit of fuel for every code point. -/
def splitFrom (mark : Text) : Nat → Text → List Text
  | 0, s => [s]
  | fuel + 1, s =>
      match Delimited.splitFirst mark s with
      | none => [s]
      | some (before, after) => before :: splitFrom mark fuel after

def split (mark s : Text) : List Text := splitFrom mark s.length s

/-- `s.rfind(sub)`; there is none where Python returns `-1`. -/
def rfind (sub : Text) : Text → Option Nat
  | [] => if sub = [] then some 0 else none
  | c :: cs =>
      match rfind sub cs with
      | some index => some (index + 1)
      | none => if sub <+: c :: cs then some 0 else none

def openBrace : Char := Char.ofNat 123

def closeBrace : Char := Char.ofNat 125

/-- `template.format(**kwargs)` for templates whose fields are plain names;
doubled braces stand for themselves. -/
def formatNamedFrom (kwargs : List (String × Text)) :
    Nat → Text → Py Text
  | 0, s => .ok s
  | _ + 1, [] => .ok []
  | fuel + 1, c :: cs =>
      if c = openBrace then
        if cs.head? = some openBrace then
          (openBrace :: ·) <$> formatNamedFrom kwargs fuel cs.tail
        else
          match cs.span (· ≠ closeBrace) with
          | (_, []) =>
              .error (.valueError "expected '\x7d' before end of string")
          | (name, _ :: rest) =>
              match kwargs.lookup (String.ofList name) with
              | none => .error (.keyError (String.ofList name))
              | some value =>
                  (value ++ ·) <$> formatNamedFrom kwargs fuel rest
      else if c = closeBrace then
        if cs.head? = some closeBrace then
          (closeBrace :: ·) <$> formatNamedFrom kwargs fuel cs.tail
        else .error
          (.valueError "Single '\x7d' encountered in format string")
      else (c :: ·) <$> formatNamedFrom kwargs fuel cs

def formatNamed (template : Text) (kwargs : List (String × Text)) : Py Text :=
  formatNamedFrom kwargs template.length template

example : removeThinkingTrace "a<think>b</think> \nc<think>d".toList =
    "ac<think>d".toList := by decide

section Strip

theorem strip_infix_self (s : Text) : strip s <:+: s := by
  have hback := (List.dropWhile_suffix isSpace
    (l := (s.dropWhile isSpace).reverse)).reverse
  rw [List.reverse_reverse] at hback
  exact hback.isInfix.trans (List.dropWhile_suffix isSpace).isInfix

theorem dropWhile_isSpace_append {u v : Text} {c : Char}
    (hc : isSpace c = false) :
    (u ++ c :: v).dropWhile isSpace = u.dropWhile isSpace ++ c :: v := by
  induction u with
  | nil => simp [hc]
  | cons d u ih =>
      cases hd : isSpace d with
      | true => simpa [hd] using ih
      | false => simp [hd]

/-- A word is not touched by stripping what it stands in. -/
theorem infix_strip {word s : Text} (hne : word ≠ [])
    (hfirst : isSpace (word.head hne) = false)
    (hlast : isSpace (word.getLast hne) = false)
    (h : word <:+: s) : word <:+: strip s := by
  obtain ⟨u, v, rfl⟩ := h
  have hword := (List.cons_head_tail hne).symm
  have hinit := (List.dropLast_concat_getLast hne).symm
  have hfront : (u ++ word ++ v).dropWhile isSpace =
      u.dropWhile isSpace ++ word ++ v := by
    rw [hword, List.append_assoc, List.cons_append,
      dropWhile_isSpace_append hfirst, ← List.cons_append,
      ← List.append_assoc]
  have hback : (u.dropWhile isSpace ++ word ++ v).reverse.dropWhile isSpace =
      v.reverse.dropWhile isSpace ++ word.reverse ++
        (u.dropWhile isSpace).reverse := by
    rw [hinit]
    simp only [List.reverse_append, List.reverse_cons, List.reverse_nil,
      List.nil_append, List.append_assoc, List.cons_append]
    rw [dropWhile_isSpace_append hlast]
  refine ⟨u.dropWhile isSpace, (v.reverse.dropWhile isSpace).reverse, ?_⟩
  rw [strip, hfront, hback]
  simp

theorem strip_strip (s : Text) : strip (strip s) = strip s := by
  have hstripped : strip s <+: s.dropWhile isSpace := by
    have hback := (List.dropWhile_suffix isSpace
      (l := (s.dropWhile isSpace).reverse)).reverse
    rwa [List.reverse_reverse] at hback
  have hfront : (strip s).dropWhile isSpace = strip s := by
    rw [List.dropWhile_eq_self_iff]
    intro hpos
    have hlonger := hpos.trans_le hstripped.length_le
    have hhead := List.dropWhile_eq_self_iff.mp
      (List.dropWhile_idempotent s (p := isSpace)) hlonger
    rwa [hstripped.getElem hpos]
  rw [strip, hfront, strip, List.reverse_reverse, List.dropWhile_idempotent]

end Strip

section Search

variable {sub mark : Text}

theorem rfind_eq_none_iff {s : Text} :
    rfind sub s = none ↔ ¬ sub <:+: s := by
  induction s with
  | nil => simp [rfind]
  | cons c cs ih =>
      rw [rfind, List.infix_cons_iff]
      cases hrest : rfind sub cs with
      | some index =>
          have hinside : sub <:+: cs := by
            rw [← not_not (a := sub <:+: cs), ← ih, hrest]
            exact Option.some_ne_none index
          simp [hinside]
      | none => simp [ih.mp hrest]

/-- The last place a text is found at, when it is not found again behind its
first code point. -/
theorem rfind_append {rest : Text} (hsub : sub ≠ []) (before : Text)
    (h : ¬ sub <:+: (sub ++ rest).tail) :
    rfind sub (before ++ (sub ++ rest)) = some before.length := by
  induction before with
  | nil =>
      obtain ⟨c, cs, rfl⟩ := List.exists_cons_of_ne_nil hsub
      rw [List.cons_append, List.tail_cons] at h
      rw [List.nil_append, List.cons_append, rfind, rfind_eq_none_iff.mpr h]
      simp
  | cons d before ih => rw [List.cons_append, rfind, ih]; rfl

theorem splitFrom_eq (hmark : mark ≠ []) {fuel fuel' : Nat} {s : Text}
    (hfuel : s.length ≤ fuel) (hfuel' : s.length ≤ fuel') :
    splitFrom mark fuel s = splitFrom mark fuel' s := by
  induction fuel generalizing fuel' s with
  | zero =>
      have hs : s = [] := List.length_eq_zero_iff.mp (Nat.le_zero.mp hfuel)
      subst hs
      cases fuel' with
      | zero => rfl
      | succ fuel' => rfl
  | succ fuel ih =>
      cases fuel' with
      | zero =>
          have hs : s = [] :=
            List.length_eq_zero_iff.mp (Nat.le_zero.mp hfuel')
          subst hs
          rfl
      | succ fuel' =>
          rw [splitFrom, splitFrom]
          cases hsplit : Delimited.splitFirst mark s with
          | none => rfl
          | some parts =>
              have hlength := congrArg List.length
                (Delimited.splitFirst_eq_some hsplit)
              have hpos := List.length_pos_iff.mpr hmark
              rw [List.length_append, List.length_append] at hlength
              exact congrArg (parts.1 :: ·)
                (ih (s := parts.2) (by omega) (by omega))

theorem split_eq (hmark : mark ≠ []) (s : Text) :
    split mark s =
      match Delimited.splitFirst mark s with
      | none => [s]
      | some (before, after) => before :: split mark after := by
  rw [split]
  cases hs : s.length with
  | zero =>
      rw [List.length_eq_zero_iff] at hs
      subst hs
      rfl
  | succ n =>
      rw [splitFrom]
      cases hsplit : Delimited.splitFirst mark s with
      | none => rfl
      | some parts =>
          have hlength := congrArg List.length
            (Delimited.splitFirst_eq_some hsplit)
          have hpos := List.length_pos_iff.mpr hmark
          rw [List.length_append, List.length_append] at hlength
          exact congrArg (parts.1 :: ·)
            (splitFrom_eq hmark (by omega) (le_refl _))

theorem getLastD_split (hmark : mark ≠ []) (s other : Text) :
    (split mark s).getLastD other = (split mark s).getLastD [] := by
  rw [split_eq hmark]
  cases Delimited.splitFirst mark s with
  | none => rfl
  | some parts => rfl

/-- The last part of a text that goes on without the mark. -/
theorem getLastD_split_append (hmark : mark ≠ []) {rest : Text}
    (hrest : ∀ s, mark <:+: s ++ rest → mark <:+: s) (s : Text) :
    (split mark (s ++ rest)).getLastD [] =
      (split mark s).getLastD [] ++ rest := by
  induction hn : s.length using Nat.strong_induction_on generalizing s with
  | _ n ih =>
      subst hn
      rw [split_eq hmark, split_eq hmark s]
      cases hsplit : Delimited.splitFirst mark s with
      | none =>
          have hnot := (Delimited.splitFirst_eq_none_iff hmark).mp hsplit
          rw [(Delimited.splitFirst_eq_none_iff hmark).mpr
            fun h => hnot (hrest s h)]
          rfl
      | some parts =>
          have hlength := congrArg List.length
            (Delimited.splitFirst_eq_some hsplit)
          have hpos := List.length_pos_iff.mpr hmark
          rw [List.length_append, List.length_append] at hlength
          rw [Delimited.splitFirst_append_of_some hsplit]
          have hlast := ih parts.2.length (by omega) parts.2 rfl
          simp only [List.getLastD_cons]
          rw [getLastD_split hmark, getLastD_split hmark _ parts.1, hlast]

theorem headD_split (d : Char) (s : Text) :
    (split [d] s).headD [] = s.takeWhile (· ≠ d) := by
  have hmark : [d] ≠ [] := List.cons_ne_nil d []
  induction s with
  | nil => rfl
  | cons c cs ih =>
      rw [split_eq hmark] at ih ⊢
      rw [Delimited.splitFirst]
      by_cases hc : c = d
      · simp [hc]
      · have hnot : ¬ [d] <+: c :: cs := by
          simpa using Ne.symm hc
        rw [if_neg hnot]
        cases hsplit : Delimited.splitFirst [d] cs with
        | none =>
            rw [hsplit] at ih
            simpa [hc] using ih
        | some parts =>
            rw [hsplit] at ih
            simpa [hc] using ih

end Search

end SelfDistillation
