/-
Brackets that open and close: texts in which they are balanced, and the scan
that counts the open ones up to the bracket that closes the first of them.
-/
import Mathlib

namespace Brackets

universe u

variable {α : Type u} [DecidableEq α] (opening closing : α)

/-- The brackets left open behind a text, unless it closes one that is not
open. -/
def depthFrom : Nat → List α → Option Nat
  | depth, [] => some depth
  | depth, c :: cs =>
      if c = opening then depthFrom (depth + 1) cs
      else if c = closing then
        if depth = 0 then none else depthFrom (depth - 1) cs
      else depthFrom depth cs

/-- The text closes what it opens, and nothing else. -/
def Balanced (text : List α) : Prop :=
  depthFrom opening closing 0 text = some 0

instance (text : List α) : Decidable (Balanced opening closing text) :=
  inferInstanceAs (Decidable (_ = _))

/-- The place of the closing bracket at which the count is zero. -/
def closingFrom : Int → List α → Option Nat
  | _, [] => none
  | depth, c :: cs =>
      let opened := if c = opening then depth + 1 else depth
      if c = closing then
        if opened - 1 = 0 then some 0
        else (closingFrom (opened - 1) cs).map (· + 1)
      else (closingFrom opened cs).map (· + 1)

variable {opening closing}

theorem depthFrom_cons_opening (depth : Nat) (cs : List α) :
    depthFrom opening closing depth (opening :: cs) =
      depthFrom opening closing (depth + 1) cs := by
  rw [depthFrom, if_pos rfl]

theorem depthFrom_cons_closing (hne : opening ≠ closing) (depth : Nat)
    (cs : List α) :
    depthFrom opening closing (depth + 1) (closing :: cs) =
      depthFrom opening closing depth cs := by
  rw [depthFrom, if_neg hne.symm, if_pos rfl, if_neg (Nat.succ_ne_zero depth),
    Nat.add_sub_cancel]

theorem depthFrom_cons_plain {c : α} (hopening : c ≠ opening)
    (hclosing : c ≠ closing) (depth : Nat) (cs : List α) :
    depthFrom opening closing depth (c :: cs) =
      depthFrom opening closing depth cs := by
  rw [depthFrom, if_neg hopening, if_neg hclosing]

theorem closingFrom_cons_opening (hne : opening ≠ closing) (depth : Int)
    (cs : List α) :
    closingFrom opening closing depth (opening :: cs) =
      (closingFrom opening closing (depth + 1) cs).map (· + 1) := by
  rw [closingFrom, if_pos rfl, if_neg hne]

theorem closingFrom_cons_closing (hne : opening ≠ closing) (depth : Int)
    (cs : List α) :
    closingFrom opening closing depth (closing :: cs) =
      if depth - 1 = 0 then some 0
      else (closingFrom opening closing (depth - 1) cs).map (· + 1) := by
  rw [closingFrom, if_neg hne.symm, if_pos rfl]

theorem closingFrom_cons_plain {c : α} (hopening : c ≠ opening)
    (hclosing : c ≠ closing) (depth : Int) (cs : List α) :
    closingFrom opening closing depth (c :: cs) =
      (closingFrom opening closing depth cs).map (· + 1) := by
  rw [closingFrom, if_neg hopening, if_neg hclosing]

/-- A text that leaves a bracket open is passed; the count behind it is the
number of those. -/
theorem closingFrom_append (hne : opening ≠ closing) {text : List α}
    {depth rest : Nat}
    (h : depthFrom opening closing depth text = some rest)
    (after : List α) :
    closingFrom opening closing (depth + 1) (text ++ after) =
      (closingFrom opening closing (rest + 1) after).map
        (· + text.length) := by
  induction text generalizing depth with
  | nil =>
      cases h
      simp
  | cons c cs ih =>
      rw [List.cons_append]
      by_cases hopening : c = opening
      · subst hopening
        rw [depthFrom_cons_opening] at h
        have hrest := ih h
        push_cast at hrest
        rw [closingFrom_cons_opening hne, hrest, Option.map_map]
        rfl
      · by_cases hclosing : c = closing
        · subst hclosing
          cases depth with
          | zero =>
              rw [depthFrom, if_neg hopening, if_pos rfl, if_pos rfl] at h
              cases h
          | succ depth =>
              rw [depthFrom_cons_closing hne] at h
              have hrest := ih h
              push_cast
              rw [closingFrom_cons_closing hne, add_sub_cancel_right,
                if_neg (by omega), hrest, Option.map_map]
              rfl
        · rw [depthFrom_cons_plain hopening hclosing] at h
          rw [closingFrom_cons_plain hopening hclosing, ih h, Option.map_map]
          rfl

/-- The bracket behind a balanced text closes the one that is open. -/
theorem closingFrom_balanced (hne : opening ≠ closing) {text : List α}
    (h : Balanced opening closing text) (after : List α) :
    closingFrom opening closing 1 (text ++ closing :: after) =
      some text.length := by
  have hpass := closingFrom_append hne h (closing :: after)
  rw [closingFrom_cons_closing hne, Nat.cast_zero, zero_add, sub_self,
    if_pos rfl] at hpass
  simpa using hpass

/-- A text without brackets is passed. -/
theorem closingFrom_plain {text : List α} (hopening : opening ∉ text)
    (hclosing : closing ∉ text) (depth : Int) (after : List α) :
    closingFrom opening closing depth (text ++ after) =
      (closingFrom opening closing depth after).map (· + text.length) := by
  induction text with
  | nil => simp
  | cons c cs ih =>
      rw [List.mem_cons, not_or] at hopening hclosing
      rw [List.cons_append, closingFrom_cons_plain (Ne.symm hopening.1)
        (Ne.symm hclosing.1), ih hopening.2 hclosing.2, Option.map_map]
      rfl

end Brackets
