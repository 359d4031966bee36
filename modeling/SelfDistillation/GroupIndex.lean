/-
`as_torch_index` (verl/utils/groupwise.py): group labels become integer ids, by
a cast where numpy or torch makes one and else by factorization.
-/
import SelfDistillation.Library.Unique
import SelfDistillation.PyText

namespace SelfDistillation

namespace GroupIndex

open Unique

variable {κ κ' Obj : Type}

section Casts

/-- The code points of the digit zero in the decimal digits of all scripts. -/
def decimalZeros : List Nat :=
  [48, 1632, 1776, 1984, 2406, 2534, 2662, 2790, 2918, 3046, 3174, 3302, 3430,
    3558, 3664, 3792, 3872, 4160, 4240, 6112, 6160, 6470, 6608, 6784, 6800,
    6992, 7088, 7232, 7248, 42528, 43216, 43264, 43472, 43504, 43600, 44016,
    65296, 66720, 68912, 69734, 69872, 69942, 70096, 70384, 70736, 70864,
    71248, 71360, 71472, 71904, 72016, 72784, 73040, 73120, 92768, 92864,
    93008, 120782, 120792, 120802, 120812, 120822, 123200, 123632, 125264,
    130032]

def digitValue? (c : Char) : Option Nat :=
  (decimalZeros.find? fun first => first ≤ c.toNat && c.toNat < first + 10).map
    fun first => c.toNat - first

/-- Digits, with single underscores between them. -/
def readDigits (acc : Nat) (afterDigit : Bool) : Text → Option Nat
  | [] => if afterDigit then some acc else none
  | c :: cs =>
      if c = '_' then
        if afterDigit then readDigits acc false cs else none
      else
        match digitValue? c with
        | some digit => readDigits (acc * 10 + digit) true cs
        | none => none

/-- `int(s)` -/
def pyInt (s : Text) : Option Int :=
  match strip s with
  | '-' :: cs => (readDigits 0 false cs).map fun n => -(n : Int)
  | '+' :: cs => (readDigits 0 false cs).map fun n => (n : Int)
  | cs => (readDigits 0 false cs).map fun n => (n : Int)

def InInt64 (x : Int) : Prop := -2 ^ 63 ≤ x ∧ x < 2 ^ 63

instance (x : Int) : Decidable (InInt64 x) :=
  inferInstanceAs (Decidable (_ ∧ _))

/-- `int64` of a string; a number that is too large raises as well. -/
def int64OfStr (s : Text) : Option Int :=
  (pyInt s).filter fun x => InInt64 x

/-- `int64` of an integer, by its low 64 bits. -/
def int64OfInt (x : Int) : Int := x.bmod (2 ^ 64)

/-- `int64` of a float, cut towards zero; what does not fit becomes the least
one. -/
def int64OfFloat (x : ℚ) : Int :=
  let cut := x.num.tdiv x.den
  if InInt64 cut then cut else -2 ^ 63

/-- `np.rint`, `torch.round`: halves go to the even neighbour. -/
def rint (x : ℚ) : Int :=
  if x - ⌊x⌋ < 1 / 2 then ⌊x⌋
  else if 1 / 2 < x - ⌊x⌋ then ⌊x⌋ + 1
  else if 2 ∣ ⌊x⌋ then ⌊x⌋
  else ⌊x⌋ + 1

/-- `allclose(labels, rounded, rtol=0.0, atol=1e-6)` -/
def NearIntegers (labels : List ℚ) : Prop :=
  ∀ x ∈ labels, |x - rint x| ≤ 1 / 1000000

instance (labels : List ℚ) : Decidable (NearIntegers labels) :=
  inferInstanceAs (Decidable (∀ x ∈ labels, _))

end Casts

/-- What is asked of the objects of an array, and the text of a float. -/
structure LabelProtocol (Obj : Type) where
  /-- `int64` of an object; nothing where the cast raises. -/
  toInt64 : Obj → Option Int
  comparison : Comparison Obj
  str : Obj → Text
  floatStr : ℚ → Text

/-- The label arrays: tensors and numpy arrays, by what they hold. -/
inductive LabelArray (Obj : Type)
  | intTensor (labels : List Int)
  | floatTensor (labels : List ℚ)
  | intArray (labels : List Int)
  | floatArray (labels : List ℚ)
  | strArray (labels : List Text)
  | objectArray (labels : List Obj)

/-- `np.unique(labels, return_inverse=True)[1]` of labels in their order. -/
def inverse [DecidableEq κ] (comparison : Comparison κ) (labels : List κ) :
    List Int :=
  labels.map fun label => ((comparison.unique labels).idxOf label : Int)

/-- The factorization of texts. -/
def factorizeTexts (labels : List Text) : List Int :=
  inverse Comparison.ofLinearOrder labels

/-- The factorization of objects; where they cannot be sorted, of their
texts. -/
def factorize [DecidableEq Obj] (protocol : LabelProtocol Obj)
    (labels : List Obj) : List Int :=
  match protocol.comparison.unique? labels with
  | some _ => inverse protocol.comparison labels
  | none => factorizeTexts (labels.map protocol.str)

/-- `as_torch_index` -/
def asTorchIndex [DecidableEq Obj] (protocol : LabelProtocol Obj) :
    LabelArray Obj → List Int
  | .intTensor labels => labels
  | .floatTensor labels =>
      if NearIntegers labels then
        labels.map fun x => int64OfFloat (rint x : Int)
      else factorizeTexts (labels.map protocol.floatStr)
  | .intArray labels => labels.map int64OfInt
  | .floatArray labels =>
      if NearIntegers labels then
        labels.map fun x => int64OfFloat (rint x : Int)
      -- the cast tried next takes every float
      else labels.map int64OfFloat
  | .strArray labels =>
      match labels.mapM int64OfStr with
      | some coerced => coerced
      | none => factorizeTexts labels
  | .objectArray labels =>
      match labels.mapM protocol.toInt64 with
      | some coerced => coerced
      | none => factorize protocol labels

/-- Two positions have one id exactly if they have one label, and the ids are
0, ..., G - 1. -/
structure Survive (labels : List κ) (ids : List Int) : Prop where
  length_eq : ids.length = labels.length
  same_iff : ∀ i < labels.length, ∀ j < labels.length,
    ids[i]? = ids[j]? ↔ labels[i]? = labels[j]?
  contiguous : ∃ G : Nat, ∀ k : Int, k ∈ ids ↔ 0 ≤ k ∧ k < G

/-- What the claim about an array is. -/
def LabelArray.Survive : LabelArray Obj → List Int → Prop
  | .intTensor labels, ids => GroupIndex.Survive labels ids
  | .floatTensor labels, ids => GroupIndex.Survive labels ids
  | .intArray labels, ids => GroupIndex.Survive labels ids
  | .floatArray labels, ids => GroupIndex.Survive labels ids
  | .strArray labels, ids => GroupIndex.Survive labels ids
  | .objectArray labels, ids => GroupIndex.Survive labels ids

/-- Different labels have different images. -/
def Separates (f : κ → κ') (labels : List κ) : Prop :=
  ∀ a ∈ labels, ∀ b ∈ labels, f a = f b → a = b

/-- Different labels are different numbers, which start at 0 and leave none
out. -/
structure Numbered (number : κ → Int) (labels : List κ) : Prop where
  separates : Separates number labels
  nonneg : ∀ a ∈ labels, 0 ≤ number a
  noGap : ∀ a ∈ labels, ∀ k, 0 ≤ k → k < number a → ∃ b ∈ labels, number b = k

/-- Labels that are cast are numbered by the cast; of the others it is enough
that their texts differ, and objects and strings that can be sorted need
nothing. -/
def LabelArray.KeptWhen (protocol : LabelProtocol Obj) :
    LabelArray Obj → Prop
  | .intTensor labels => Numbered id labels
  | .floatTensor labels =>
      if NearIntegers labels then
        Numbered (fun x => int64OfFloat (rint x : Int)) labels
      else Separates protocol.floatStr labels
  | .intArray labels => Numbered int64OfInt labels
  | .floatArray labels =>
      if NearIntegers labels then
        Numbered (fun x => int64OfFloat (rint x : Int)) labels
      else Numbered int64OfFloat labels
  | .strArray labels =>
      (∀ s ∈ labels, (int64OfStr s).isSome) →
        Numbered (fun s => (int64OfStr s).getD 0) labels
  | .objectArray labels =>
      if ∀ o ∈ labels, (protocol.toInt64 o).isSome then
        Numbered (fun o => (protocol.toInt64 o).getD 0) labels
      else protocol.comparison.Sortable labels ∨
        Separates protocol.str labels

section Numbers

variable {labels : List κ} {number : κ → Int}

/-- Numbers below the largest that are all there are a range. -/
theorem exists_range_of_noGap {ids : List Int} (hnonneg : ∀ a ∈ ids, 0 ≤ a)
    (hnoGap : ∀ a ∈ ids, ∀ k, 0 ≤ k → k < a → k ∈ ids) :
    ∃ G : Nat, ∀ k : Int, k ∈ ids ↔ 0 ≤ k ∧ k < G := by
  by_cases hnil : ids = []
  · refine ⟨0, fun k => ?_⟩
    rw [hnil, List.mem_nil_iff, false_iff]
    push_cast
    omega
  · obtain ⟨top, htop, hmax⟩ := ids.toFinset.exists_max_image id
      ((List.toFinset_nonempty_iff ids).mpr hnil)
    rw [List.mem_toFinset] at htop
    have hcast : ((top + 1).toNat : Int) = top + 1 :=
      Int.toNat_of_nonneg (by have := hnonneg top htop; omega)
    refine ⟨(top + 1).toNat, fun k => ⟨fun hk => ?_, fun hk => ?_⟩⟩
    · have hle : k ≤ top := hmax k (List.mem_toFinset.mpr hk)
      exact ⟨hnonneg k hk, by omega⟩
    · rw [hcast] at hk
      by_cases heq : k = top
      · rw [heq]
        exact htop
      · exact hnoGap top htop k hk.1 (by omega)

/-- Ids given label by label keep the labels exactly if they number them. -/
theorem survive_map_iff :
    Survive labels (labels.map number) ↔ Numbered number labels := by
  constructor
  · intro h
    obtain ⟨G, hG⟩ := h.contiguous
    refine ⟨fun a ha b hb heq => ?_, fun a ha => ?_, fun a ha k hk hlt => ?_⟩
    · obtain ⟨i, hi, rfl⟩ := List.mem_iff_getElem.mp ha
      obtain ⟨j, hj, rfl⟩ := List.mem_iff_getElem.mp hb
      have hids : (labels.map number)[i]? = (labels.map number)[j]? := by
        rw [List.getElem?_map, List.getElem?_map, List.getElem?_eq_getElem hi,
          List.getElem?_eq_getElem hj, Option.map_some, Option.map_some, heq]
      have hlabels := (h.same_iff i hi j hj).mp hids
      rw [List.getElem?_eq_getElem hi, List.getElem?_eq_getElem hj] at hlabels
      exact Option.some.inj hlabels
    · exact ((hG _).mp (List.mem_map_of_mem ha)).1
    · have hbound := ((hG _).mp (List.mem_map_of_mem (f := number) ha)).2
      exact List.mem_map.mp ((hG k).mpr ⟨hk, hlt.trans hbound⟩)
  · intro h
    refine ⟨List.length_map _, fun i hi j hj => ?_, ?_⟩
    · rw [List.getElem?_map, List.getElem?_map, List.getElem?_eq_getElem hi,
        List.getElem?_eq_getElem hj, Option.map_some, Option.map_some,
        Option.some.injEq, Option.some.injEq]
      constructor
      · exact h.separates _ (List.getElem_mem hi) _ (List.getElem_mem hj)
      · exact congrArg number
    · apply exists_range_of_noGap
      · intro a ha
        obtain ⟨label, hlabel, rfl⟩ := List.mem_map.mp ha
        exact h.nonneg label hlabel
      · intro a ha k hk hlt
        obtain ⟨label, hlabel, rfl⟩ := List.mem_map.mp ha
        exact List.mem_map.mpr (h.noGap label hlabel k hk hlt)

/-- The positions among the distinct images number the labels exactly if the
images separate them. -/
theorem numbered_idxOf_iff [DecidableEq κ'] (comparison : Comparison κ')
    (f : κ → κ') :
    Numbered (fun label => ((comparison.unique (labels.map f)).idxOf (f label) :
      Int)) labels ↔ Separates f labels := by
  have hinj : ∀ a ∈ labels, ∀ b, ((comparison.unique (labels.map f)).idxOf
      (f a) : Int) = (comparison.unique (labels.map f)).idxOf (f b) ↔
        f a = f b := by
    intro a ha b
    rw [Int.ofNat_inj]
    exact comparison.idxOf_unique_eq_iff (List.mem_map_of_mem ha)
  constructor
  · intro h a ha b hb heq
    exact h.separates a ha b hb ((hinj a ha b).mpr heq)
  · intro h
    refine ⟨fun a ha b hb heq => h a ha b hb ((hinj a ha b).mp heq),
      fun a _ => Int.natCast_nonneg _, fun a ha k hk hlt => ?_⟩
    have hbound := comparison.idxOf_unique_lt
      (List.mem_map_of_mem (f := f) ha)
    obtain ⟨n, rfl⟩ := Int.eq_ofNat_of_zero_le hk
    obtain ⟨x, hx, hidx⟩ := comparison.exists_idxOf_eq (labels.map f)
      (k := n) (by omega)
    obtain ⟨b, hb, rfl⟩ := List.mem_map.mp hx
    exact ⟨b, hb, congrArg Nat.cast hidx⟩

/-- Factorization keeps the labels it is given. -/
theorem survive_inverse [DecidableEq κ] (comparison : Comparison κ) :
    Survive labels (inverse comparison labels) := by
  apply survive_map_iff.mpr
  have hself : Separates id labels := fun a _ b _ heq => heq
  have hid := (numbered_idxOf_iff comparison id).mpr hself
  rwa [List.map_id] at hid

theorem survive_factorizeTexts_iff {text : κ → Text} :
    Survive labels (factorizeTexts (labels.map text)) ↔
      Separates text labels := by
  rw [factorizeTexts, inverse, List.map_map]
  exact survive_map_iff.trans (numbered_idxOf_iff _ text)

theorem mapM_eq_some_map {f : κ → Option Int} {ids : List Int}
    (h : labels.mapM f = some ids) :
    (∀ a ∈ labels, (f a).isSome) ∧ ids = labels.map fun a => (f a).getD 0 := by
  induction labels generalizing ids with
  | nil =>
      cases h
      exact ⟨by simp, rfl⟩
  | cons a rest ih =>
      rw [List.mapM_cons] at h
      obtain ⟨x, hx, h⟩ := Option.bind_eq_some_iff.mp h
      obtain ⟨xs, hxs, h⟩ := Option.bind_eq_some_iff.mp h
      cases h
      obtain ⟨hsome, rfl⟩ := ih hxs
      exact ⟨by simpa [hx] using hsome, by simp [hx]⟩

theorem mapM_eq_none {f : κ → Option Int} (h : labels.mapM f = none) :
    ¬ ∀ a ∈ labels, (f a).isSome := by
  induction labels with
  | nil => cases h
  | cons a rest ih =>
      intro hsome
      obtain ⟨ha, hrest⟩ := List.forall_mem_cons.mp hsome
      obtain ⟨x, hx⟩ := Option.isSome_iff_exists.mp ha
      rw [List.mapM_cons, hx] at h
      cases hxs : rest.mapM f with
      | none => exact ih hxs hrest
      | some xs =>
          rw [hxs] at h
          cases h

end Numbers

variable [DecidableEq Obj]

theorem survive_factorize_iff (protocol : LabelProtocol Obj)
    {labels : List Obj} :
    Survive labels (factorize protocol labels) ↔
      protocol.comparison.Sortable labels ∨
        Separates protocol.str labels := by
  rw [factorize, Comparison.unique?]
  by_cases hsortable : protocol.comparison.Sortable labels
  · rw [if_pos hsortable]
    exact iff_of_true (survive_inverse _) (.inl hsortable)
  · rw [if_neg hsortable]
    simp only [hsortable, false_or]
    exact survive_factorizeTexts_iff

/-- The ids keep the labels exactly if what the array is cast by does. -/
theorem survive_asTorchIndex_iff (protocol : LabelProtocol Obj)
    (index : LabelArray Obj) :
    index.Survive (asTorchIndex protocol index) ↔ index.KeptWhen protocol := by
  cases index with
  | intTensor labels =>
      have hid : Survive labels (labels.map id) ↔ Numbered id labels :=
        survive_map_iff
      rwa [List.map_id] at hid
  | floatTensor labels =>
      simp only [asTorchIndex, LabelArray.Survive, LabelArray.KeptWhen]
      split
      · exact survive_map_iff
      · exact survive_factorizeTexts_iff
  | intArray labels => exact survive_map_iff
  | floatArray labels =>
      simp only [asTorchIndex, LabelArray.Survive, LabelArray.KeptWhen]
      split
      · exact survive_map_iff
      · exact survive_map_iff
  | strArray labels =>
      simp only [asTorchIndex, LabelArray.Survive, LabelArray.KeptWhen]
      cases hcast : labels.mapM int64OfStr with
      | some coerced =>
          obtain ⟨hall, rfl⟩ := mapM_eq_some_map hcast
          rw [survive_map_iff]
          exact (true_imp_iff.symm.trans
            (imp_congr_left (iff_true_intro hall).symm))
      | none =>
          refine iff_of_true (survive_inverse _) fun hall => ?_
          exact absurd hall (mapM_eq_none hcast)
  | objectArray labels =>
      simp only [asTorchIndex, LabelArray.Survive, LabelArray.KeptWhen]
      cases hcast : labels.mapM protocol.toInt64 with
      | some coerced =>
          obtain ⟨hall, rfl⟩ := mapM_eq_some_map hcast
          rw [if_pos hall]
          exact survive_map_iff
      | none =>
          rw [if_neg (mapM_eq_none hcast)]
          exact survive_factorize_iff protocol

/-- Objects that are neither cast nor sorted. -/
def bareObjects : LabelProtocol Unit where
  toInt64 _ := none
  comparison := .ofLinearOrder
  str _ := []
  floatStr _ := []

/-- The ids of the labels 5 and 7 are 5 and 7, and "0" and "00" share one. -/
theorem not_survive_cast :
    ¬ (LabelArray.intArray [5, 7] : LabelArray Unit).Survive
        (asTorchIndex bareObjects (.intArray [5, 7])) ∧
      ¬ (LabelArray.strArray ["0".toList, "00".toList] :
          LabelArray Unit).Survive
        (asTorchIndex bareObjects
          (.strArray ["0".toList, "00".toList])) := by
  have hints : asTorchIndex bareObjects (.intArray [5, 7]) = [5, 7] := by
    decide +kernel
  have htexts : asTorchIndex bareObjects
      (.strArray ["0".toList, "00".toList]) = [0, 0] := by
    decide +kernel
  rw [hints, htexts]
  constructor
  · intro h
    obtain ⟨G, hG⟩ := h.contiguous
    have hseven := (hG 7).mp (by decide)
    have hzero := (hG 0).mpr (by omega)
    exact absurd hzero (by decide)
  · intro h
    have hsame := (h.same_iff 0 (by decide) 1 (by decide)).mp rfl
    exact absurd hsame (by decide)

end GroupIndex

end SelfDistillation
