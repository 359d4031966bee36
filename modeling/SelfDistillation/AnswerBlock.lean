/-
The final `<answer>` block of a response: the strict multiple-choice scorer
(verl/utils/reward_score/feedback/mcq.py) and `extract_solution` of Search-R1
(verl/utils/reward_score/search_r1_like_qa_em.py).
-/
import SelfDistillation.Library.Backtracking
import SelfDistillation.PyText

namespace SelfDistillation

namespace AnswerBlock

open Backtracking

/-- `str.upper` of a code point, and what `re.IGNORECASE` takes for the same
as a code point of a pattern. -/
structure Casing where
  upper : Char → Text
  same : Char → Char → Bool

/-- ASCII has its usual cases, and neither whitespace nor an ASCII code point
that is no letter has any. -/
structure Casing.Lawful (casing : Casing) : Prop where
  upper_ascii : ∀ c, c.toNat < 128 → casing.upper c = [c.toUpper]
  upper_space : ∀ c, isSpace c = true → casing.upper c = [c]
  same_self : ∀ c, casing.same c c = true
  same_upper : ∀ c, c.toNat < 128 → casing.same c.toUpper c = true
  same_caseless : ∀ c d, c.toNat < 128 → c.isAlpha = false →
    casing.same c d = true ∨ casing.same d c = true → d = c

/-- `s.upper()` -/
def Casing.upperText (casing : Casing) (s : Text) : Text :=
  s.flatMap casing.upper

/-- `s.rstrip(c)` for a single code point. -/
def rstripChar (c : Char) (s : Text) : Text := s.rdropWhile (· == c)

def openTag : Text := "<answer>".toList

def closeTag : Text := "</answer>".toList

section Mcq

variable (casing : Casing)

/-- `extract_xml_answer` -/
def extractXmlAnswer (text : Text) : Text :=
  match (findMatches (block casing.same isSpace openTag closeTag)
      text).getLast? with
  | none => []
  | some group => strip group

/-- `({allowed_pattern})`; without choices it matches the empty string. -/
def anyChoice (allowedChoices : List Text) (text : Text) : List Text :=
  (if allowedChoices = [] then [[]]
    else allowedChoices.map casing.upperText).flatMap
      fun choice => word casing.same choice text

/-- `$`, which matches before a newline at the end as well. -/
def atEnd (text : Text) : List Text :=
  if text = [] ∨ text = ['\n'] then [text] else []

/-- `<answer>\s*({allowed_pattern})\s*</answer>\s*$` -/
def formatPattern (allowedChoices : List Text) (text : Text) : List Text :=
  (word casing.same openTag text).flatMap fun s =>
    (many isSpace s).flatMap fun s =>
      (anyChoice casing allowedChoices s).flatMap fun s =>
        (many isSpace s).flatMap fun s =>
          (word casing.same closeTag s).flatMap fun s =>
            (many isSpace s).flatMap atEnd

/-- `is_correct_format` -/
def isCorrectFormat (text : Text) (allowedChoices : List Text) : Bool :=
  search (formatPattern casing allowedChoices) text

/-- `_extract_xml_choice` -/
def extractXmlChoice (text : Text) (allowedChoices : List Text) :
    Option Text :=
  let candidate := rstripChar '/' (rstripChar '.'
    (casing.upperText (extractXmlAnswer casing text)))
  if candidate ∈ allowedChoices.map casing.upperText then some candidate
  else none

/-- `extra_info["reward_model_info"]` -/
structure RewardModelInfo where
  allowedChoices : Option (List Text)
  answerExtraction : Option Text

structure ExtraInfo where
  rewardModelInfo : Option RewardModelInfo

/-- `DEFAULT_MCQ_ALLOWED_CHOICES` -/
def defaultMcqAllowedChoices : List Text :=
  ["A", "B", "C", "D"].map String.toList

/-- `extra_info.get("reward_model_info", {})` -/
def ExtraInfo.info (extraInfo : Option ExtraInfo) : RewardModelInfo :=
  ((extraInfo.getD ⟨none⟩).rewardModelInfo).getD ⟨none, none⟩

def RewardModelInfo.choices (info : RewardModelInfo) : List Text :=
  info.allowedChoices.getD defaultMcqAllowedChoices

def RewardModelInfo.extraction (info : RewardModelInfo) : Text :=
  info.answerExtraction.getD "xml".toList

/-- What `compute_score` returns; a `float` of a `bool` is `0` or `1`. -/
structure Score where
  score : Nat
  acc : Nat
  pred : Text
  incorrectFormat : Nat
  feedback : Text

/-- `compute_score`, with `extract_multiple_choice_answer` for the extraction
`"flexible"`. -/
def computeScore (extractMultipleChoiceAnswer : Text → List Text → Option Text)
    (solution groundTruth : Text) (extraInfo : Option ExtraInfo) : Score :=
  let info := ExtraInfo.info extraInfo
  let normalizedGroundTruth := casing.upperText (strip groundTruth)
  let flexible := info.extraction = "flexible".toList
  let pred :=
    if flexible then extractMultipleChoiceAnswer solution info.choices
    else extractXmlChoice casing solution info.choices
  let reward := (decide (pred = some normalizedGroundTruth)).toNat
  { score := reward
    acc := reward
    pred := pred.getD []
    incorrectFormat :=
      if flexible then pred.isNone.toNat
      else (!isCorrectFormat casing solution info.choices).toNat
    feedback := [] }

end Mcq

/-- `extract_solution` of Search-R1; its pattern skips no whitespace. -/
def extractSolution (solutionStr : Text) : Option Text :=
  (findMatches (block (fun m c => m == c) (fun _ => false) openTag closeTag)
    solutionStr).getLast?.map strip

/-- A response that ends with an answer. -/
def answerText (before left answer right after : Text) : Text :=
  before ++ (openTag ++ (left ++ answer ++ right ++ (closeTag ++ after)))

/-- The format is right, the answer is predicted, and the score is `1` exactly
if it is the ground truth, up to case. -/
structure Graded (casing : Casing) (result : Score)
    (answer groundTruth : Text) : Prop where
  format : result.incorrectFormat = 0
  pred : result.pred = casing.upperText answer
  score : result.score = 1 ↔
    casing.upperText answer = casing.upperText groundTruth

section Strip

theorem range_of_isAlphanum {c : Char} (h : c.isAlphanum = true) :
    (48 ≤ c.toNat ∧ c.toNat ≤ 57) ∨ (65 ≤ c.toNat ∧ c.toNat ≤ 90) ∨
      (97 ≤ c.toNat ∧ c.toNat ≤ 122) := by
  simp only [Char.isAlphanum, Char.isAlpha, Char.isUpper, Char.isLower,
    Char.isDigit, Bool.or_eq_true, Bool.and_eq_true, decide_eq_true_eq,
    ge_iff_le, UInt32.le_iff_toNat_le] at h
  rcases h with (⟨hlow, hhigh⟩ | ⟨hlow, hhigh⟩) | ⟨hlow, hhigh⟩
  · exact Or.inr (Or.inl ⟨hlow, hhigh⟩)
  · exact Or.inr (Or.inr ⟨hlow, hhigh⟩)
  · exact Or.inl ⟨hlow, hhigh⟩

theorem toNat_lt_of_isAlphanum {c : Char} (h : c.isAlphanum = true) :
    c.toNat < 128 := by
  have := range_of_isAlphanum h
  omega

theorem isSpace_of_isAlphanum {c : Char} (h : c.isAlphanum = true) :
    isSpace c = false := by
  have hrange := range_of_isAlphanum h
  rw [Bool.eq_false_iff]
  intro hspace
  simp only [isSpace, Bool.or_eq_true, Bool.and_eq_true, decide_eq_true_eq,
    beq_iff_eq] at hspace
  omega

theorem strip_eq_self {s : Text} (h : ∀ c ∈ s, isSpace c = false) :
    strip s = s := by
  have hdrop : ∀ t : Text, (∀ c ∈ t, isSpace c = false) →
      t.dropWhile isSpace = t := by
    intro t ht
    cases t with
    | nil => rfl
    | cons c t =>
        apply List.dropWhile_cons_of_neg
        rw [ht c List.mem_cons_self]
        exact Bool.false_ne_true
  rw [strip, hdrop s h, hdrop s.reverse fun c hc => h c (List.mem_reverse.mp hc),
    List.reverse_reverse]

/-- Whitespace around a text does not matter. -/
theorem strip_pad {left right : Text} (hleft : ∀ c ∈ left, isSpace c = true)
    (hright : ∀ c ∈ right, isSpace c = true) (s : Text) :
    strip (left ++ s ++ right) = strip s := by
  have hback : ∀ c ∈ right.reverse, isSpace c = true :=
    fun c hc => hright c (List.mem_reverse.mp hc)
  rw [strip, strip, List.append_assoc, List.dropWhile_append_of_pos hleft,
    List.dropWhile_append]
  split_ifs with hempty
  · rw [List.isEmpty_iff] at hempty
    rw [hempty, List.dropWhile_eq_nil_iff.mpr hright]
  · rw [List.reverse_append, List.dropWhile_append_of_pos hback]

/-- A word in a text with whitespace around it is in the text. -/
theorem infix_of_infix_pad {left right word s : Text}
    (hleft : ∀ c ∈ left, isSpace c = true)
    (hright : ∀ c ∈ right, isSpace c = true) (hne : word ≠ [])
    (hfirst : isSpace (word.head hne) = false)
    (hlast : isSpace (word.getLast hne) = false)
    (h : word <:+: left ++ s ++ right) : word <:+: s := by
  have hstrip := infix_strip hne hfirst hlast h
  rw [strip_pad hleft hright] at hstrip
  exact hstrip.trans (strip_infix_self s)

theorem trim_false (s : Text) : trim (fun _ => false) s = s := by
  have hdrop : ∀ t : Text, t.dropWhile (fun _ => false) = t := by
    intro t
    cases t <;> rfl
  rw [trim, List.rdropWhile, hdrop, hdrop, List.reverse_reverse]

theorem mem_strip {c : Char} {s : Text} (hc : isSpace c = false)
    (h : c ∈ s) : c ∈ strip s := by
  have hword : [c] <:+: s := (List.singleton_infix_iff c s).mpr h
  exact (List.singleton_infix_iff c _).mp (infix_strip (List.cons_ne_nil c []) hc hc hword)

end Strip

section Tags

/-- The tags, where `<` and `/` only match themselves. -/
theorem marks_tags {same : Char → Char → Bool} {skip : Char → Bool}
    (hcaseless : ∀ c d, c = '<' ∨ c = '/' →
      same c d = true ∨ same d c = true → d = c)
    (hskip : skip '<' = false) :
    Marks same skip '<' openTag closeTag := by
  have hlater : ∀ ms : Text, '<' ∉ ms → ∀ m ∈ ms, same m '<' = false := by
    intro ms hms m hm
    rw [Bool.eq_false_iff]
    intro hsame
    rw [hcaseless '<' m (Or.inl rfl) (Or.inr hsame)] at hm
    exact hms hm
  have halone : ∀ c, same '<' c = true → c = '<' :=
    fun c hsame => hcaseless '<' c (Or.inl rfl) (Or.inl hsame)
  refine ⟨⟨rfl, halone, hlater _ (by decide)⟩,
    ⟨rfl, halone, hlater _ (by decide)⟩, fun text hstop => ?_, hskip⟩
  rw [Bool.eq_false_iff]
  intro hstart
  match text with
  | [] => cases hstop
  | [c] =>
      rw [show closeTag = ['<', '/', 'a', 'n', 's', 'w', 'e', 'r', '>']
        from rfl, starts, starts, Bool.and_false] at hstop
      cases hstop
  | c :: d :: text =>
      rw [show closeTag = ['<', '/', 'a', 'n', 's', 'w', 'e', 'r', '>']
        from rfl, starts, starts, Bool.and_eq_true, Bool.and_eq_true] at hstop
      rw [show openTag = ['<', 'a', 'n', 's', 'w', 'e', 'r', '>'] from rfl,
        starts, starts, Bool.and_eq_true, Bool.and_eq_true] at hstart
      have hslash := hcaseless '/' d (Or.inr rfl) (Or.inl hstop.2.1)
      have hletter := hstart.2.1
      rw [hslash] at hletter
      exact absurd (hcaseless '/' 'a' (Or.inr rfl) (Or.inr hletter))
        (by decide)

theorem lt_notMem_of_isSpace {s : Text} (h : ∀ c ∈ s, isSpace c = true) :
    '<' ∉ s := by
  intro hmem
  have := h '<' hmem
  exact absurd this (by decide)

theorem lt_notMem_of_isAlphanum {s : Text}
    (h : ∀ c ∈ s, c.isAlphanum = true) : '<' ∉ s := by
  intro hmem
  exact absurd (h '<' hmem) (by decide)

end Tags

section Search

variable {before left answer right after : Text}

theorem marks_exact : Marks (fun m c : Char => m == c) (fun _ => false) '<'
    openTag closeTag := by
  refine marks_tags ?_ rfl
  rintro c d - (hsame | hsame)
  · exact (beq_iff_eq.mp hsame).symm
  · exact beq_iff_eq.mp hsame

theorem splitMark_exact_eq_none {mark s : Text} (hmark : mark ≠ [])
    (h : ¬ mark <:+: s) :
    splitMark (fun m c : Char => m == c) mark s = none := by
  induction s with
  | nil =>
      have hnot : ¬ starts (fun m c : Char => m == c) mark [] := by
        rw [starts_eq_iff, List.prefix_nil]
        exact hmark
      rw [splitMark, if_neg hnot]
  | cons c s ih =>
      rw [List.infix_cons_iff, not_or] at h
      have hnot : ¬ starts (fun m c : Char => m == c) mark (c :: s) := by
        rw [starts_eq_iff]
        exact h.1
      rw [splitMark, if_neg hnot, ih h.2]
      rfl

/-- Search-R1 returns the answer exactly if each `<answer>` before the block
has a `</answer>` behind it. -/
theorem extractSolution_iff (hleft : ∀ c ∈ left, isSpace c = true)
    (hright : ∀ c ∈ right, isSpace c = true)
    (hafter : ∀ c ∈ after, isSpace c = true)
    (hopen : ¬ openTag <:+: answer) (hclose : ¬ closeTag <:+: answer) :
    extractSolution (answerText before left answer right after) =
        some (strip answer) ↔
      closed (fun m c => m == c) openTag closeTag before = true := by
  have hbody := splitMark_exact_eq_none (by decide)
    (mt (infix_of_infix_pad hleft hright (by decide) (by decide) (by decide))
      hclose)
  obtain ⟨found, last, hfound, hlast⟩ :=
    marks_exact.findMatches_append (fun c => beq_self_eq_true c) before hbody
      (lt_notMem_of_isSpace hafter)
  rw [extractSolution, answerText, hfound, List.getLast?_concat,
    Option.map_some, Option.some.injEq]
  cases hclosed : closed (fun m c : Char => m == c) openTag closeTag before with
  | true =>
      rw [hclosed, if_pos rfl, trim_false] at hlast
      rw [hlast, strip_pad hleft hright]
      exact iff_of_true rfl rfl
  | false =>
      rw [hclosed, if_neg Bool.false_ne_true] at hlast
      obtain ⟨ahead, rfl⟩ := hlast
      refine iff_of_false (fun hsame => hopen ?_) Bool.false_ne_true
      have htag : openTag <:+:
          ahead ++ openTag ++ (left ++ answer ++ right) :=
        ⟨ahead, left ++ answer ++ right, rfl⟩
      have hstrip := infix_strip (by decide) (by decide) (by decide) htag
      rw [trim_false] at hsame
      rw [hsame] at hstrip
      exact hstrip.trans (strip_infix_self answer)

end Search

section Casing

variable {casing : Casing} {answer : Text}

theorem Casing.Lawful.marks (h : casing.Lawful) :
    Marks casing.same isSpace '<' openTag closeTag := by
  refine marks_tags ?_ (by decide)
  rintro c d (rfl | rfl) hsame
  · exact h.same_caseless '<' d (by decide) (by decide) hsame
  · exact h.same_caseless '/' d (by decide) (by decide) hsame

theorem Casing.Lawful.upperText_eq (h : casing.Lawful)
    (hanswer : ∀ c ∈ answer, c.isAlphanum = true) :
    casing.upperText answer = answer.map Char.toUpper := by
  induction answer with
  | nil => rfl
  | cons c answer ih =>
      obtain ⟨hc, hanswer⟩ := List.forall_mem_cons.mp hanswer
      have hrest := ih hanswer
      rw [Casing.upperText] at hrest ⊢
      rw [List.flatMap_cons, hrest,
        h.upper_ascii c (toNat_lt_of_isAlphanum hc)]
      rfl

theorem isAlphanum_toUpper {c : Char} (h : c.isAlphanum = true) :
    c.toUpper.isAlphanum = true := by
  have hascii : ∀ n < 128, (Char.ofNat n).isAlphanum = true →
      (Char.ofNat n).toUpper.isAlphanum = true := by
    decide +kernel
  have hc := hascii c.toNat (toNat_lt_of_isAlphanum h)
  rw [Char.ofNat_toNat] at hc
  exact hc h

theorem Casing.Lawful.isAlphanum_of_mem_upperText (h : casing.Lawful)
    (hanswer : ∀ c ∈ answer, c.isAlphanum = true) {c : Char}
    (hc : c ∈ casing.upperText answer) : c.isAlphanum = true := by
  rw [h.upperText_eq hanswer] at hc
  obtain ⟨d, hd, rfl⟩ := List.mem_map.mp hc
  exact isAlphanum_toUpper (hanswer d hd)

theorem mem_rstripChar {c d : Char} {s : Text} (hne : c ≠ d)
    (h : c ∈ s) : c ∈ rstripChar d s := by
  rw [rstripChar]
  rw [← @List.rdropWhile_append_rtakeWhile _ (· == d) s] at h
  obtain hstays | hdropped := List.mem_append.mp h
  · exact hstays
  · have hsame : (c == d) = true :=
      @List.mem_rtakeWhile_imp _ (· == d) s c hdropped
    exact absurd (beq_iff_eq.mp hsame) hne

theorem rstripChar_eq_self {d : Char} {s : Text} (h : d ∉ s) :
    rstripChar d s = s := by
  rw [rstripChar, List.rdropWhile_eq_self_iff]
  intro hne hlast
  exact h (beq_iff_eq.mp hlast ▸ List.getLast_mem hne)

/-- A pattern in upper case matches a choice in any case. -/
theorem Casing.Lawful.starts_upperText (h : casing.Lawful)
    (hanswer : ∀ c ∈ answer, c.isAlphanum = true) (rest : Text) :
    starts casing.same (casing.upperText answer) (answer ++ rest) := by
  rw [h.upperText_eq hanswer]
  induction answer with
  | nil => rfl
  | cons c answer ih =>
      obtain ⟨hc, hanswer⟩ := List.forall_mem_cons.mp hanswer
      rw [List.map_cons, List.cons_append, starts,
        h.same_upper c (toNat_lt_of_isAlphanum hc), ih hanswer]
      rfl

end Casing

section Mcq

variable {casing : Casing} {before left answer right after : Text}

/-- The format of a response that ends with a choice is right, whatever is in
front of it. -/
theorem Casing.Lawful.isCorrectFormat_answerText (h : casing.Lawful)
    (before : Text)
    (hleft : ∀ c ∈ left, isSpace c = true)
    (hright : ∀ c ∈ right, isSpace c = true)
    (hafter : ∀ c ∈ after, isSpace c = true)
    (hanswer : ∀ c ∈ answer, c.isAlphanum = true) {choices : List Text}
    (hchoice : casing.upperText answer ∈ choices.map casing.upperText) :
    isCorrectFormat casing (answerText before left answer right after)
      choices = true := by
  apply search_append
  have hword : ∀ {mark rest : Text},
      rest ∈ word casing.same mark (mark ++ rest) := by
    intro mark rest
    rw [word, if_pos (starts_self h.same_self mark rest), List.drop_left]
    exact List.mem_singleton_self rest
  have hchoices : choices ≠ [] := by
    rintro rfl
    cases hchoice
  have hanswered : right ++ (closeTag ++ after) ∈ anyChoice casing choices
      (answer ++ (right ++ (closeTag ++ after))) := by
    rw [anyChoice, if_neg hchoices, List.mem_flatMap]
    refine ⟨_, hchoice, ?_⟩
    have hlength : (casing.upperText answer).length = answer.length := by
      rw [h.upperText_eq hanswer, List.length_map]
    rw [word, if_pos (h.starts_upperText hanswer _), hlength, List.drop_left]
    exact List.mem_singleton_self _
  apply List.ne_nil_of_mem (a := [])
  simp only [formatPattern, List.mem_flatMap]
  refine ⟨_, hword, answer ++ (right ++ (closeTag ++ after)), ?_, _, hanswered,
    closeTag ++ after, ?_, after, hword, [], ?_, ?_⟩
  · rw [mem_many]
    exact ⟨left, by simp, hleft⟩
  · rw [mem_many]
    exact ⟨right, rfl, hright⟩
  · rw [mem_many]
    exact ⟨after, by simp, hafter⟩
  · rw [atEnd, if_pos (Or.inl rfl)]
    exact List.mem_singleton_self []

/-- The choice that is extracted: the answer, if each `<answer>` before the
block has a `</answer>` behind it, and else nothing or a text with a `<`. -/
theorem Casing.Lawful.extractXmlChoice_answerText (h : casing.Lawful)
    (before : Text)
    (hleft : ∀ c ∈ left, isSpace c = true)
    (hright : ∀ c ∈ right, isSpace c = true)
    (hafter : ∀ c ∈ after, isSpace c = true)
    (hanswer : ∀ c ∈ answer, c.isAlphanum = true) {choices : List Text}
    (hchoice : casing.upperText answer ∈ choices.map casing.upperText) :
    if closed casing.same openTag closeTag before then
      extractXmlChoice casing (answerText before left answer right after)
        choices = some (casing.upperText answer)
    else ∀ pred ∈ extractXmlChoice casing
      (answerText before left answer right after) choices, '<' ∈ pred := by
  have hbody : '<' ∉ left ++ answer ++ right := by
    simp only [List.mem_append, not_or]
    exact ⟨⟨lt_notMem_of_isSpace hleft, lt_notMem_of_isAlphanum hanswer⟩,
      lt_notMem_of_isSpace hright⟩
  obtain ⟨found, last, hfound, hlast⟩ :=
    h.marks.findMatches_append h.same_self before
      (h.marks.stopping.splitMark_eq_none hbody) (lt_notMem_of_isSpace hafter)
  have hextract : extractXmlAnswer casing
      (answerText before left answer right after) = strip last := by
    rw [extractXmlAnswer, answerText, hfound, List.getLast?_concat]
  rw [extractXmlChoice, hextract]
  cases hclosed : closed casing.same openTag closeTag before with
  | true =>
      rw [hclosed, if_pos rfl] at hlast
      have hstrip : strip last = answer := by
        rw [hlast]
        change strip (strip (left ++ answer ++ right)) = answer
        rw [strip_strip, strip_pad hleft hright, strip_eq_self fun c hc =>
          isSpace_of_isAlphanum (hanswer c hc)]
      have hplain : ∀ d : Char, d.isAlphanum = false →
          d ∉ casing.upperText answer := by
        intro d hd hmem
        rw [h.isAlphanum_of_mem_upperText hanswer hmem] at hd
        cases hd
      rw [if_pos rfl, hstrip, rstripChar_eq_self (hplain '.' (by decide)),
        rstripChar_eq_self (hplain '/' (by decide))]
      exact if_pos hchoice
  | false =>
      rw [hclosed, if_neg Bool.false_ne_true] at hlast
      rw [if_neg Bool.false_ne_true]
      obtain ⟨ahead, rfl⟩ := hlast
      intro pred hpred
      split_ifs at hpred with hallowed
      · cases hpred
        have hmem : '<' ∈ ahead ++ openTag ++ (left ++ answer ++ right) := by
          simp only [List.mem_append]
          exact Or.inl (Or.inr (by decide))
        have hkept : '<' ∈ strip (strip
            (ahead ++ openTag ++ (left ++ answer ++ right))) :=
          mem_strip (by decide) (mem_strip (by decide) hmem)
        have hupper : '<' ∈ casing.upperText (strip (strip
            (ahead ++ openTag ++ (left ++ answer ++ right)))) := by
          rw [Casing.upperText, List.mem_flatMap]
          refine ⟨'<', hkept, ?_⟩
          rw [h.upper_ascii '<' (by decide)]
          decide
        exact mem_rstripChar (by decide) (mem_rstripChar (by decide) hupper)
      · cases hpred

theorem Casing.Lawful.strip_eq_of_upperText_eq (h : casing.Lawful)
    (hanswer : ∀ c ∈ answer, c.isAlphanum = true) {groundTruth : Text}
    (hsame : casing.upperText groundTruth = casing.upperText answer) :
    strip groundTruth = groundTruth := by
  apply strip_eq_self
  intro c hc
  rw [Bool.eq_false_iff]
  intro hspace
  have hmem : c ∈ casing.upperText groundTruth := by
    rw [Casing.upperText, List.mem_flatMap]
    refine ⟨c, hc, ?_⟩
    rw [h.upper_space c hspace]
    exact List.mem_singleton_self c
  rw [hsame] at hmem
  rw [isSpace_of_isAlphanum (h.isAlphanum_of_mem_upperText hanswer hmem)]
    at hspace
  cases hspace

/-- The strict scorer grades the answer exactly if each `<answer>` before the
block has a `</answer>` behind it, and the ground truth is not the answer with
whitespace around it. -/
theorem Casing.Lawful.graded_iff (h : casing.Lawful)
    (hleft : ∀ c ∈ left, isSpace c = true)
    (hright : ∀ c ∈ right, isSpace c = true)
    (hafter : ∀ c ∈ after, isSpace c = true) (hne : answer ≠ [])
    (hanswer : ∀ c ∈ answer, c.isAlphanum = true)
    (extractMultipleChoiceAnswer : Text → List Text → Option Text)
    (groundTruth : Text) {extraInfo : Option ExtraInfo}
    (hstrict : (ExtraInfo.info extraInfo).extraction ≠ "flexible".toList)
    (hchoice : casing.upperText answer ∈
      (ExtraInfo.info extraInfo).choices.map casing.upperText) :
    Graded casing (computeScore casing extractMultipleChoiceAnswer
        (answerText before left answer right after) groundTruth extraInfo)
        answer groundTruth ↔
      closed casing.same openTag closeTag before = true ∧
        (casing.upperText (strip groundTruth) = casing.upperText answer →
          strip groundTruth = groundTruth) := by
  have hformat := h.isCorrectFormat_answerText before hleft hright hafter
    hanswer hchoice
  have hextract := h.extractXmlChoice_answerText before hleft hright hafter
    hanswer hchoice
  have hupper : casing.upperText answer ≠ [] := by
    rw [h.upperText_eq hanswer, ne_eq, List.map_eq_nil_iff]
    exact hne
  have hscore : computeScore casing extractMultipleChoiceAnswer
      (answerText before left answer right after) groundTruth extraInfo =
        { score := (decide (extractXmlChoice casing
            (answerText before left answer right after)
            (ExtraInfo.info extraInfo).choices =
              some (casing.upperText (strip groundTruth)))).toNat
          acc := (decide (extractXmlChoice casing
            (answerText before left answer right after)
            (ExtraInfo.info extraInfo).choices =
              some (casing.upperText (strip groundTruth)))).toNat
          pred := (extractXmlChoice casing
            (answerText before left answer right after)
            (ExtraInfo.info extraInfo).choices).getD []
          incorrectFormat := 0
          feedback := [] } := by
    simp only [computeScore, if_neg hstrict, hformat]
    rfl
  rw [hscore]
  cases hclosed : closed casing.same openTag closeTag before with
  | true =>
      rw [hclosed, if_pos rfl] at hextract
      rw [hextract]
      have hone : (decide (some (casing.upperText answer) =
          some (casing.upperText (strip groundTruth)))).toNat = 1 ↔
            casing.upperText (strip groundTruth) =
              casing.upperText answer := by
        rw [Bool.toNat_eq_one, decide_eq_true_eq, Option.some.injEq, eq_comm]
      constructor
      · intro hgraded
        refine ⟨rfl, fun hsame => ?_⟩
        exact h.strip_eq_of_upperText_eq hanswer
          (hgraded.score.mp (hone.mpr hsame)).symm
      · rintro ⟨-, hclean⟩
        refine ⟨rfl, rfl, hone.trans ⟨fun hsame => ?_, fun hsame => ?_⟩⟩
        · rw [← hsame, hclean hsame]
        · rw [h.strip_eq_of_upperText_eq hanswer hsame.symm, hsame]
  | false =>
      rw [hclosed, if_neg Bool.false_ne_true] at hextract
      refine iff_of_false (fun hgraded => ?_) fun hboth =>
        Bool.false_ne_true hboth.1
      have hpred := hgraded.pred
      dsimp only at hpred
      cases hfound : extractXmlChoice casing
          (answerText before left answer right after)
          (ExtraInfo.info extraInfo).choices with
      | none =>
          rw [hfound] at hpred
          exact hupper hpred.symm
      | some pred =>
          have hmem := hextract pred hfound
          rw [hfound, Option.getD_some] at hpred
          rw [hpred] at hmem
          have hletter := h.isAlphanum_of_mem_upperText hanswer hmem
          exact absurd hletter (by decide)

end Mcq

section Final

variable {casing : Casing} {left right after : Text}

/-- The final block is the one that is graded exactly if the tags before it
are closed. -/
theorem final_block_iff (hcasing : casing.Lawful) (before : Text)
    (hleft : ∀ c ∈ left, isSpace c = true)
    (hright : ∀ c ∈ right, isSpace c = true)
    (hafter : ∀ c ∈ after, isSpace c = true)
    {choice : Text} (hne : choice ≠ [])
    (halphanum : ∀ c ∈ choice, c.isAlphanum = true)
    (extractMultipleChoiceAnswer : Text → List Text → Option Text)
    (groundTruth : Text) {extraInfo : Option ExtraInfo}
    (hstrict : (ExtraInfo.info extraInfo).extraction ≠ "flexible".toList)
    (hchoice : casing.upperText choice ∈
      (ExtraInfo.info extraInfo).choices.map casing.upperText)
    {answer : Text} (hopen : ¬ openTag <:+: answer)
    (hclose : ¬ closeTag <:+: answer) :
    (Graded casing (computeScore casing extractMultipleChoiceAnswer
        (answerText before left choice right after) groundTruth extraInfo)
        choice groundTruth ↔
      closed casing.same openTag closeTag before = true ∧
        (casing.upperText (strip groundTruth) = casing.upperText choice →
          strip groundTruth = groundTruth)) ∧
    (extractSolution (answerText before left answer right after) =
        some (strip answer) ↔
      closed (fun m c => m == c) openTag closeTag before = true) :=
  ⟨hcasing.graded_iff hleft hright hafter hne halphanum
      extractMultipleChoiceAnswer groundTruth hstrict hchoice,
    extractSolution_iff hleft hright hafter hopen hclose⟩

/-- The cases of ASCII alone. -/
def asciiCasing : Casing where
  upper c := if c.toNat < 128 then [c.toUpper] else [c]
  same m c := m == c ||
    (decide (m.toNat < 128 ∧ c.toNat < 128) && m.toLower == c.toLower)

/-- What holds of each ASCII code point. -/
theorem of_ascii {P : Char → Prop} (h : ∀ n < 128, P (Char.ofNat n))
    {c : Char} (hc : c.toNat < 128) : P c := by
  have hcode := h c.toNat hc
  rwa [Char.ofNat_toNat] at hcode

theorem toLower_of_not_isAlpha {c : Char} (hc : c.toNat < 128)
    (hletter : c.toLower.isAlpha = false) : c.toLower = c := by
  refine of_ascii (P := fun c => c.toLower.isAlpha = false → c.toLower = c)
    ?_ hc hletter
  decide +kernel

theorem lawful_asciiCasing : asciiCasing.Lawful where
  upper_ascii c hc := if_pos hc
  upper_space c hspace := by
    rw [asciiCasing]
    dsimp only
    split_ifs with hc
    · refine of_ascii (P := fun c => isSpace c = true → [c.toUpper] = [c]) ?_
        hc hspace
      decide +kernel
    · rfl
  same_self c := by simp [asciiCasing]
  same_upper c hc := by
    refine of_ascii (P := fun c => asciiCasing.same c.toUpper c = true) ?_ hc
    decide +kernel
  same_caseless c d hc hletter hsame := by
    have hlower : c.toLower = c := by
      refine of_ascii (P := fun c => c.isAlpha = false → c.toLower = c) ?_ hc
        hletter
      decide +kernel
    have hcases : d = c ∨ d.toNat < 128 ∧ d.toLower = c.toLower := by
      simp only [asciiCasing, Bool.or_eq_true, Bool.and_eq_true, beq_iff_eq,
        decide_eq_true_eq] at hsame
      obtain (heq | ⟨⟨-, hd⟩, heq⟩) | (heq | ⟨⟨hd, -⟩, heq⟩) := hsame
      · exact Or.inl heq.symm
      · exact Or.inr ⟨hd, heq.symm⟩
      · exact Or.inl heq
      · exact Or.inr ⟨hd, heq⟩
    obtain heq | ⟨hd, heq⟩ := hcases
    · exact heq
    · rw [hlower] at heq
      rw [← toLower_of_not_isAlpha hd (heq ▸ hletter), heq]

theorem final_block_iff_earlier :
    (Graded asciiCasing (computeScore asciiCasing (fun _ _ => none)
        (answerText "<answer>B</Answer> so ".toList [' '] ['c'] [] ['\n'])
        ['C'] none) ['c'] ['C'] ↔
      closed asciiCasing.same openTag closeTag "<answer>B</Answer> so ".toList =
          true ∧
        (asciiCasing.upperText (strip ['C']) = asciiCasing.upperText ['c'] →
          strip ['C'] = ['C'])) ∧
    (extractSolution (answerText "<answer>B</Answer> so ".toList [' ']
        "a<b".toList [] ['\n']) = some (strip "a<b".toList) ↔
      closed (fun m c => m == c) openTag closeTag
        "<answer>B</Answer> so ".toList = true) :=
  final_block_iff lawful_asciiCasing _ (by simp [isSpace])
    (by simp) (by simp [isSpace]) (by simp) (by simp) _ _ (by decide)
    (by decide) (by decide) (by decide)

/-- An `<answer>` in the reasoning takes the final block into its own. -/
theorem not_graded_unclosed :
    ¬ ∀ (casing : Casing) (before left choice right after groundTruth : Text)
      (extraInfo : Option ExtraInfo), casing.Lawful →
      (∀ c ∈ left, isSpace c = true) → (∀ c ∈ right, isSpace c = true) →
      (∀ c ∈ after, isSpace c = true) → choice ≠ [] →
      (∀ c ∈ choice, c.isAlphanum = true) →
      (ExtraInfo.info extraInfo).extraction ≠ "flexible".toList →
      casing.upperText choice ∈
        (ExtraInfo.info extraInfo).choices.map casing.upperText →
      Graded casing (computeScore casing (fun _ _ => none)
        (answerText before left choice right after) groundTruth extraInfo)
        choice groundTruth := by
  intro h
  have hgraded := h asciiCasing "in <answer> is ".toList [] ['A'] [] [] ['A']
    none lawful_asciiCasing (by simp) (by simp) (by simp) (by simp)
    (by simp) (by decide) (by decide)
  exact absurd hgraded.pred (by decide +kernel)

end Final

end AnswerBlock

end SelfDistillation
