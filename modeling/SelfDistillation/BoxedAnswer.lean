/-
The last `\boxed` expression of an answer, as math_reward, math_dapo,
feedback/math and prime_math of verl/utils/reward_score take it out and open
it.
-/
import SelfDistillation.Library.Brackets
import SelfDistillation.PyText

namespace SelfDistillation

namespace BoxedAnswer

/-- `"\\boxed"` -/
def boxedWord : Text := "\\boxed".toList

/-- `"\\boxed{"` -/
def boxedLeft : Text := boxedWord ++ [openBrace]

/-- `"\\boxed "` -/
def boxedSpace : Text := boxedWord ++ [' ']

/-- `"\\fbox"` -/
def fboxWord : Text := "\\fbox".toList

/-- `string[idx : right_brace_idx + 1]`, with the brace at which the loop from
`idx` on stops. -/
def boxFrom (string : Text) (idx : Nat) : Option Text :=
  (Brackets.closingFrom openBrace closeBrace 0 (string.drop idx)).map
    fun right => (string.drop idx).take (right + 1)

/-- `assert s[: len(left)] == left`, `assert s[-1] == "}"` and
`s[len(left) : -1]` -/
def openBox (msg : String) (left s : Text) : Py Text := do
  pyAssert (s.take left.length == left) msg
  match s.getLast? with
  | none => .error .indexError
  | some last => do
      pyAssert (last == closeBrace) msg
      return (s.drop left.length).dropLast

namespace MathReward

/-- `last_boxed_only_string` -/
def lastBoxedOnlyString (string : Text) : Option Text :=
  if boxedSpace <:+: string then
    some (boxedSpace ++
      (split ['$'] ((split boxedSpace string).getLastD [])).headD [])
  else
    match rfind boxedWord string with
    | some idx => boxFrom string idx
    | none =>
        match rfind fboxWord string with
        | some idx => boxFrom string idx
        | none => none

/-- `remove_boxed` -/
def removeBoxed (s : Text) : Py Text :=
  if boxedSpace <:+: s then do
    pyAssert (s.take boxedSpace.length == boxedSpace) ""
    return s.drop boxedSpace.length
  else openBox "" boxedLeft s

end MathReward

namespace MathDapo

/-- `last_boxed_only_string` -/
def lastBoxedOnlyString (string : Text) : Option Text :=
  match rfind boxedLeft string with
  | some idx => boxFrom string idx
  | none => none

/-- `remove_boxed` -/
def removeBoxed (s : Text) : Py Text :=
  openBox ("box error: " ++ String.ofList s) boxedLeft s

end MathDapo

namespace FeedbackMath

/-- `last_boxed_only_string`; the empty string if the braces do not close. -/
def lastBoxedOnlyString (string : Text) : Option Text :=
  match rfind boxedLeft string with
  | some idx => some ((boxFrom string idx).getD [])
  | none => none

/-- `remove_boxed` -/
def removeBoxed (s : Text) : Text :=
  if s.take boxedLeft.length = boxedLeft ∧ s.getLast? = some closeBrace then
    (s.drop boxedLeft.length).dropLast
  else []

end FeedbackMath

namespace PrimeMath

/-- The loop of `_last_boxed_only_string` from the index `i` on:
`left_brace_idx` and `right_brace_idx`. -/
def bracesFrom (i : Nat) (left : Option Nat) (depth : Int) :
    Text → Option Nat × Option Nat
  | [] => (left, none)
  | c :: cs =>
      if c = openBrace then
        bracesFrom (i + 1) (some (left.getD i)) (depth + 1) cs
      else if c = closeBrace then
        if depth - 1 = 0 then (left, some i)
        else bracesFrom (i + 1) left (depth - 1) cs
      else bracesFrom (i + 1) left depth cs

/-- `string[left_brace_idx + 1 : right_brace_idx].strip()` -/
def contentFrom (string : Text) (idx : Nat) : Option Text :=
  match bracesFrom idx none 0 (string.drop idx) with
  | (some left, some right) =>
      some (strip ((string.take right).drop (left + 1)))
  | _ => none

/-- `_last_boxed_only_string` -/
def lastBoxedOnlyString (string : Text) : Option Text :=
  match rfind boxedWord string with
  | some idx => contentFrom string idx
  | none =>
      match rfind fboxWord string with
      | some idx => contentFrom string idx
      | none => none

end PrimeMath

/-- Each of the four takes out the content, up to whitespace around it. -/
structure Extracts (string content : Text) : Prop where
  mathReward : ∃ box answer,
    MathReward.lastBoxedOnlyString string = some box ∧
      MathReward.removeBoxed box = .ok answer ∧ strip answer = strip content
  mathDapo : ∃ box answer,
    MathDapo.lastBoxedOnlyString string = some box ∧
      MathDapo.removeBoxed box = .ok answer ∧ strip answer = strip content
  feedbackMath : ∃ box,
    FeedbackMath.lastBoxedOnlyString string = some box ∧
      strip (FeedbackMath.removeBoxed box) = strip content
  primeMath : ∃ answer,
    PrimeMath.lastBoxedOnlyString string = some answer ∧
      strip answer = strip content

/-- The text of a boxed expression between two others. -/
def boxedText (before content after : Text) : Text :=
  before ++ boxedLeft ++ content ++ closeBrace :: after

/-- No `\boxed` in the space form is in front of the box, or what stands
between the last of these and the next `$` is the same as its content. -/
def SpaceFormAgrees (before content : Text) : Prop :=
  boxedSpace <:+: before →
    '$' ∈ (split boxedSpace before).getLastD [] ∧
      strip ((split ['$'] ((split boxedSpace before).getLastD [])).headD []) =
        strip content

section Found

variable {content after : Text}

theorem openBrace_ne_closeBrace : openBrace ≠ closeBrace := by decide

theorem boxedText_eq (before content after : Text) :
    boxedText before content after = before ++ (boxedWord ++
      openBrace :: (content ++ closeBrace :: after)) := by
  simp [boxedText, boxedLeft]

/-- The box is the last one. -/
theorem not_boxedWord_infix_behind (hcontent : ¬ boxedWord <:+: content)
    (hafter : ¬ boxedWord <:+: after) :
    ¬ boxedWord <:+:
      boxedWord.tail ++ openBrace :: (content ++ closeBrace :: after) := by
  have hopen : openBrace ∉ boxedWord := by decide
  have hclose : closeBrace ∉ boxedWord := by decide
  rw [Delimited.infix_append_cons_iff hopen,
    Delimited.infix_append_cons_iff hclose]
  rintro (hword | hcontent' | hafter')
  · exact absurd hword (by decide)
  · exact hcontent hcontent'
  · exact hafter hafter'

theorem rfind_boxedWord (before : Text)
    (hcontent : ¬ boxedWord <:+: content)
    (hafter : ¬ boxedWord <:+: after) :
    rfind boxedWord (boxedText before content after) =
      some before.length := by
  rw [boxedText_eq]
  exact rfind_append (by decide) before
    (not_boxedWord_infix_behind hcontent hafter)

theorem rfind_boxedLeft (before : Text)
    (hcontent : ¬ boxedWord <:+: content)
    (hafter : ¬ boxedWord <:+: after) :
    rfind boxedLeft (boxedText before content after) =
      some before.length := by
  have hword : boxedWord <:+: boxedLeft :=
    (List.prefix_append boxedWord [openBrace]).isInfix
  have htext : boxedText before content after =
      before ++ (boxedLeft ++ (content ++ closeBrace :: after)) := by
    simp [boxedText]
  have hbox : (boxedLeft ++ (content ++ closeBrace :: after)).tail =
      boxedWord.tail ++ openBrace :: (content ++ closeBrace :: after) := by
    rw [boxedLeft, List.append_assoc, List.singleton_append]
    rfl
  rw [htext]
  refine rfind_append (by decide) before fun hagain => ?_
  rw [hbox] at hagain
  exact not_boxedWord_infix_behind hcontent hafter (hword.trans hagain)

theorem drop_boxedText (before content after : Text) :
    (boxedText before content after).drop before.length =
      boxedLeft ++ content ++ closeBrace :: after := by
  rw [boxedText, List.append_assoc, List.append_assoc, List.drop_left,
    List.append_assoc]

theorem boxFrom_boxedText (before after : Text)
    (hbalanced : Brackets.Balanced openBrace closeBrace content) :
    boxFrom (boxedText before content after) before.length =
      some (boxedLeft ++ content ++ [closeBrace]) := by
  have hclosing : Brackets.closingFrom openBrace closeBrace 0
      (boxedLeft ++ content ++ closeBrace :: after) =
        some (content.length + 1 + boxedWord.length) := by
    rw [boxedLeft, List.append_assoc, List.append_assoc,
      Brackets.closingFrom_plain (by decide) (by decide),
      List.singleton_append,
      Brackets.closingFrom_cons_opening openBrace_ne_closeBrace, zero_add,
      Brackets.closingFrom_balanced openBrace_ne_closeBrace hbalanced]
    rfl
  have hlength : content.length + 1 + boxedWord.length + 1 =
      (boxedLeft ++ content ++ [closeBrace]).length := by
    simp only [boxedLeft, List.length_append, List.length_singleton]
    omega
  unfold boxFrom
  rw [drop_boxedText, hclosing, Option.map_some, hlength,
    List.append_cons _ closeBrace after, List.take_left]

theorem openBox_box (msg : String) (left content : Text) :
    openBox msg left (left ++ content ++ [closeBrace]) = .ok content := by
  unfold openBox
  rw [List.getLast?_append, List.append_assoc, List.take_left,
    List.drop_left, List.dropLast_concat, beq_self_eq_true]
  rfl

/-- Once a brace is open, the loop goes on as the others do. -/
theorem PrimeMath.bracesFrom_some (i left : Nat) (depth : Int) (text : Text) :
    PrimeMath.bracesFrom i (some left) depth text =
      (some left, (Brackets.closingFrom openBrace closeBrace depth text).map
        (· + i)) := by
  have hnext : ∀ (i : Nat) (place : Option Nat),
      place.map (· + (i + 1)) = (place.map (· + 1)).map (· + i) := by
    intro i place
    rw [Option.map_map]
    congr 1
    funext k
    simp only [Function.comp_apply]
    omega
  induction text generalizing i depth with
  | nil => rfl
  | cons c cs ih =>
      rw [PrimeMath.bracesFrom]
      by_cases hopen : c = openBrace
      · rw [if_pos hopen, hopen,
          Brackets.closingFrom_cons_opening openBrace_ne_closeBrace,
          Option.getD_some, ih, hnext]
      · rw [if_neg hopen]
        by_cases hclose : c = closeBrace
        · rw [if_pos hclose, hclose,
            Brackets.closingFrom_cons_closing openBrace_ne_closeBrace]
          split_ifs
          · simp
          · rw [ih, hnext]
        · rw [if_neg hclose, Brackets.closingFrom_cons_plain hopen hclose, ih,
            hnext]

theorem PrimeMath.bracesFrom_plain {word : Text} (hopen : openBrace ∉ word)
    (hclose : closeBrace ∉ word) (i : Nat) (left : Option Nat) (depth : Int)
    (text : Text) :
    PrimeMath.bracesFrom i left depth (word ++ text) =
      PrimeMath.bracesFrom (i + word.length) left depth text := by
  induction word generalizing i with
  | nil => rfl
  | cons c word ih =>
      rw [List.mem_cons, not_or] at hopen hclose
      rw [List.cons_append, PrimeMath.bracesFrom, if_neg (Ne.symm hopen.1),
        if_neg (Ne.symm hclose.1), ih hopen.2 hclose.2, List.length_cons]
      congr 1
      omega

theorem PrimeMath.contentFrom_boxedText (before after : Text)
    (hbalanced : Brackets.Balanced openBrace closeBrace content) :
    PrimeMath.contentFrom (boxedText before content after) before.length =
      some (strip content) := by
  have hbraces : PrimeMath.bracesFrom before.length none 0
      (boxedLeft ++ content ++ closeBrace :: after) =
        (some (before.length + boxedWord.length),
          some (content.length + (before.length + boxedWord.length + 1))) := by
    rw [boxedLeft, List.append_assoc, List.append_assoc,
      PrimeMath.bracesFrom_plain (by decide) (by decide),
      List.singleton_append, PrimeMath.bracesFrom,
      if_pos rfl, Option.getD_none, PrimeMath.bracesFrom_some, zero_add,
      Brackets.closingFrom_balanced openBrace_ne_closeBrace hbalanced]
    rfl
  have hleft : (before ++ boxedLeft).length =
      before.length + boxedWord.length + 1 := by
    simp [boxedLeft, Nat.add_assoc]
  have hright : (before ++ boxedLeft ++ content).length =
      content.length + (before.length + boxedWord.length + 1) := by
    rw [List.length_append, hleft, Nat.add_comm]
  unfold PrimeMath.contentFrom
  rw [drop_boxedText, hbraces]
  dsimp only
  rw [← hright, ← hleft, boxedText, List.take_left, List.drop_left]

theorem infix_boxedSpace_iff (before : Text)
    (hcontent : ¬ boxedWord <:+: content)
    (hafter : ¬ boxedWord <:+: after) :
    boxedSpace <:+: boxedText before content after ↔
      boxedSpace <:+: before := by
  have hword : boxedWord <:+: boxedSpace :=
    (List.prefix_append boxedWord [' ']).isInfix
  have hopen : openBrace ∉ boxedSpace := by decide
  have hclose : closeBrace ∉ boxedSpace := by decide
  constructor
  · intro h
    rw [boxedText_eq, ← List.append_assoc,
      Delimited.infix_append_cons_iff hopen,
      Delimited.infix_append_cons_iff hclose] at h
    obtain hbefore | hinside | hbehind := h
    · exact Delimited.infix_of_infix_append (by decide) hbefore
    · exact absurd (hword.trans hinside) hcontent
    · exact absurd (hword.trans hbehind) hafter
  · intro h
    rw [boxedText_eq]
    exact h.trans (List.prefix_append before _).isInfix

theorem MathReward.removeBoxed_box (hcontent : ¬ boxedWord <:+: content) :
    MathReward.removeBoxed (boxedLeft ++ content ++ [closeBrace]) =
      .ok content := by
  have hnil : ¬ boxedWord <:+: ([] : Text) := by decide
  have hspace : ¬ boxedSpace <:+: boxedLeft ++ content ++ [closeBrace] := by
    intro h
    exact absurd ((infix_boxedSpace_iff [] hcontent hnil).mp h)
      (by decide)
  rw [MathReward.removeBoxed, if_neg hspace, openBox_box]

/-- `remove_boxed` on what is found in the space form. -/
theorem MathReward.removeBoxed_space (answer : Text) :
    MathReward.removeBoxed (boxedSpace ++ answer) = .ok answer := by
  rw [MathReward.removeBoxed,
    if_pos (List.prefix_append boxedSpace answer).isInfix, List.take_left,
    List.drop_left, beq_self_eq_true]
  rfl

/-- Up to the first `$`, in front of the box and in it. -/
theorem strip_upToDollar_iff (hcontent : ¬ boxedWord <:+: content)
    (last after : Text) :
    strip ((split ['$'] (last ++ (boxedLeft ++ content ++
        closeBrace :: after))).headD []) = strip content ↔
      '$' ∈ last ∧ strip ((split ['$'] last).headD []) = strip content := by
  rw [headD_split, headD_split]
  by_cases hdollar : '$' ∈ last
  · have hstops : (last.takeWhile (· ≠ '$')).length ≠ last.length := by
      intro hlength
      have hall := (List.takeWhile_prefix (· ≠ '$')).eq_of_length hlength
      rw [List.takeWhile_eq_self_iff] at hall
      exact absurd (hall '$' hdollar) (by simp)
    rw [List.takeWhile_append, if_neg hstops]
    simp [hdollar]
  · -- the whole opening of the box is taken along
    refine iff_of_false (fun h => hcontent ?_) fun h => hdollar h.1
    have hpasses : ∀ c ∈ last ++ boxedLeft, decide (c ≠ '$') = true := by
      intro c hc
      rw [decide_eq_true_eq]
      rintro rfl
      obtain hlast | hbox := List.mem_append.mp hc
      · exact hdollar hlast
      · exact absurd hbox (by decide)
    rw [List.append_assoc boxedLeft, ← List.append_assoc last,
      List.takeWhile_append_of_pos hpasses] at h
    have hword : boxedWord <:+: last ++ boxedLeft ++
        (content ++ closeBrace :: after).takeWhile (· ≠ '$') :=
      ⟨last, openBrace :: (content ++ closeBrace :: after).takeWhile (· ≠ '$'),
        by simp [boxedLeft]⟩
    have hstrip := infix_strip (by decide) (by decide) (by decide) hword
    rw [h] at hstrip
    exact hstrip.trans (strip_infix_self content)

/-- All four extract the content of the last box exactly if no box in the
space form is in front of it, or the last of those holds the same. -/
theorem extracts_iff (before : Text)
    (hbalanced : Brackets.Balanced openBrace closeBrace content)
    (hcontent : ¬ boxedWord <:+: content) (hafter : ¬ boxedWord <:+: after) :
    Extracts (boxedText before content after) content ↔
      SpaceFormAgrees before content := by
  have hword := rfind_boxedWord before hcontent hafter
  have hleft := rfind_boxedLeft before hcontent hafter
  have hbox := boxFrom_boxedText before after hbalanced
  have hspace := infix_boxedSpace_iff before hcontent hafter
  have hdapo : ∃ box answer,
      MathDapo.lastBoxedOnlyString (boxedText before content after) =
          some box ∧
        MathDapo.removeBoxed box = .ok answer ∧
          strip answer = strip content := by
    refine ⟨_, content, ?_, openBox_box _ boxedLeft content, rfl⟩
    rw [MathDapo.lastBoxedOnlyString, hleft]
    exact hbox
  have hfeedback : ∃ box,
      FeedbackMath.lastBoxedOnlyString (boxedText before content after) =
          some box ∧
        strip (FeedbackMath.removeBoxed box) = strip content := by
    refine ⟨boxedLeft ++ content ++ [closeBrace], ?_, ?_⟩
    · rw [FeedbackMath.lastBoxedOnlyString, hleft]
      dsimp only
      rw [hbox]
      rfl
    · rw [FeedbackMath.removeBoxed, List.append_assoc, List.take_left,
        List.drop_left, List.dropLast_concat, if_pos]
      exact ⟨rfl, by simp⟩
  have hprime : ∃ answer,
      PrimeMath.lastBoxedOnlyString (boxedText before content after) =
        some answer ∧ strip answer = strip content := by
    refine ⟨strip content, ?_, strip_strip content⟩
    rw [PrimeMath.lastBoxedOnlyString, hword]
    exact PrimeMath.contentFrom_boxedText before after hbalanced
  have hreward : (∃ box answer,
      MathReward.lastBoxedOnlyString (boxedText before content after) =
          some box ∧
        MathReward.removeBoxed box = .ok answer ∧
          strip answer = strip content) ↔ SpaceFormAgrees before content := by
    by_cases hinside : boxedSpace <:+: before
    · have hgoes : ∀ text, boxedSpace <:+: text ++
          (boxedLeft ++ content ++ closeBrace :: after) →
            boxedSpace <:+: text := by
        intro text h
        apply (infix_boxedSpace_iff text hcontent hafter).mp
        rwa [boxedText, List.append_assoc, List.append_assoc,
          ← List.append_assoc boxedLeft]
      have htext : boxedText before content after =
          before ++ (boxedLeft ++ content ++ closeBrace :: after) := by
        simp [boxedText]
      have hlast := getLastD_split_append (by decide) hgoes before
      rw [SpaceFormAgrees, forall_prop_of_true hinside,
        ← strip_upToDollar_iff hcontent _ after, ← hlast, ← htext,
        MathReward.lastBoxedOnlyString, if_pos (hspace.mpr hinside)]
      constructor
      · rintro ⟨box, answer, hfound, hopened, hsame⟩
        cases hfound
        rw [MathReward.removeBoxed_space] at hopened
        cases hopened
        exact hsame
      · exact fun hsame => ⟨_, _, rfl, MathReward.removeBoxed_space _, hsame⟩
    · have hnone : SpaceFormAgrees before content :=
        fun h => absurd h hinside
      refine iff_of_true ⟨_, content, ?_, MathReward.removeBoxed_box hcontent,
        rfl⟩ hnone
      rw [MathReward.lastBoxedOnlyString, if_neg (mt hspace.mp hinside), hword]
      exact hbox
  constructor
  · intro h
    exact hreward.mp h.mathReward
  · intro h
    exact ⟨hreward.mpr h, hdapo, hfeedback, hprime⟩

/-- An earlier box in brace form and one that does not close. -/
theorem extracts_earlier :
    Extracts (boxedText ("so \\boxed".toList ++ [openBrace, '1', closeBrace,
      openBrace, ' ']) [openBrace, '2', closeBrace, '3'] " is it".toList)
        [openBrace, '2', closeBrace, '3'] ↔
      SpaceFormAgrees ("so \\boxed".toList ++ [openBrace, '1', closeBrace,
        openBrace, ' ']) [openBrace, '2', closeBrace, '3'] :=
  extracts_iff _ (by decide +kernel) (by decide +kernel) (by decide +kernel)

/-- `\boxed 1 and \boxed{2}`: math_reward takes all that is behind the space. -/
theorem not_extracts_space :
    ¬ ∀ before content after : Text,
      Brackets.Balanced openBrace closeBrace content →
      ¬ boxedWord <:+: content → ¬ boxedWord <:+: after →
      Extracts (boxedText before content after) content := by
  intro h
  obtain ⟨⟨box, answer, hbox, hanswer, hsame⟩, -⟩ := h
    "\\boxed 1 and ".toList ['2'] [] (by decide +kernel) (by decide +kernel)
    (by decide +kernel)
  have hfound : MathReward.lastBoxedOnlyString
      (boxedText "\\boxed 1 and ".toList ['2'] []) =
        some ("\\boxed 1 and ".toList ++ boxedLeft ++ ['2', closeBrace]) := by
    decide +kernel
  rw [hfound] at hbox
  cases hbox
  have hopened : MathReward.removeBoxed
      ("\\boxed 1 and ".toList ++ boxedLeft ++ ['2', closeBrace]) =
        .ok ("1 and ".toList ++ boxedLeft ++ ['2', closeBrace]) := by
    decide +kernel
  rw [hopened] at hanswer
  cases hanswer
  exact absurd hsame (by decide +kernel)

end Found

end BoxedAnswer

end SelfDistillation
