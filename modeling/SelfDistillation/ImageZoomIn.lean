/-
`_validate_bbox` and `_maybe_resize_bbox` (verl/tools/image_zoom_in_tool.py) in
exact arithmetic: a box that is too small is grown about its centre and shifted
into the image, and still covers what was asked for.
-/
import Mathlib

namespace SelfDistillation

namespace ImageZoomIn

/-- `MIN_DIMENSION` -/
def minDimension : Int := 28

/-- `[left, top, right, bottom]` -/
structure Bbox where
  left : ℚ
  top : ℚ
  right : ℚ
  bottom : ℚ
deriving DecidableEq

def Bbox.width (box : Bbox) : ℚ := box.right - box.left

def Bbox.height (box : Bbox) : ℚ := box.bottom - box.top

/-- `_validate_bbox` -/
def validateBbox (box : Bbox) : Bool :=
  if ¬ (box.left < box.right ∧ box.top < box.bottom) then false
  else
    -- Prevent division by zero for zero-sized boxes
    if min box.height box.width = 0 then false
    else if max box.height box.width / min box.height box.width > 100 then false
    else true

/-- Clamp the initial bounding box to the image dimensions. -/
def clampBbox (box : Bbox) (imageWidth imageHeight : Int) : Bbox where
  left := max 0 box.left
  top := max 0 box.top
  right := min imageWidth box.right
  bottom := min imageHeight box.bottom

/-- One side scaled down to the image, and the other one with it. -/
def scaleDown (target other limit : ℚ) : ℚ × ℚ :=
  if target > limit then (limit, other * (limit / target)) else (target, other)

/-- The target dimensions: the smallest side becomes `MIN_DIMENSION`, unless
the other one would not fit. -/
def targetSize (width height imageWidth imageHeight : ℚ) : ℚ × ℚ :=
  let ratio := minDimension / min height width
  let (targetWidth, targetHeight) :=
    scaleDown (width * ratio) (height * ratio) imageWidth
  let (targetHeight, targetWidth) :=
    scaleDown targetHeight targetWidth imageHeight
  (targetWidth, targetHeight)

/-- Shift the box if it extends beyond the image boundaries to keep its size,
on one axis. -/
def shiftInto (start target limit : ℚ) : ℚ :=
  let start := if start < 0 then 0 else start
  if start + target > limit then limit - target else start

/-- The box of the target dimensions about the centre, with integer
coordinates. -/
def resizeBbox (box : Bbox) (imageWidth imageHeight : Int) : Bbox :=
  let centerX := (box.left + box.right) / 2
  let centerY := (box.top + box.bottom) / 2
  let (targetWidth, targetHeight) :=
    targetSize box.width box.height imageWidth imageHeight
  let newLeft := shiftInto (centerX - targetWidth / 2) targetWidth imageWidth
  let newTop := shiftInto (centerY - targetHeight / 2) targetHeight imageHeight
  { left := ⌊newLeft⌋
    top := ⌊newTop⌋
    right := ⌈newLeft + targetWidth⌉
    bottom := ⌈newTop + targetHeight⌉ }

/-- The validation on the resulting bounding box, original or resized. -/
def finalBbox (current : Bbox) : Option Bbox :=
  if ¬ validateBbox current then none
  else
    let finalHeight := ⌊current.bottom⌋ - ⌊current.top⌋
    let finalWidth := ⌊current.right⌋ - ⌊current.left⌋
    if finalHeight < minDimension ∨ finalWidth < minDimension then none
    else some current

/-- `_maybe_resize_bbox` -/
def maybeResizeBbox (bbox : Bbox) (imageWidth imageHeight : Int) :
    Option Bbox :=
  let box := clampBbox bbox imageWidth imageHeight
  if ¬ validateBbox box then none
  else if box.height < minDimension ∨ box.width < minDimension then
    -- Safeguard for zero-area boxes
    if min box.height box.width = 0 then none
    else finalBbox (resizeBbox box imageWidth imageHeight)
  else finalBbox box

/-- The sides differ by a factor of at most 100. -/
def Bbox.Proportioned (box : Bbox) : Prop :=
  box.height ≤ 100 * box.width ∧ box.width ≤ 100 * box.height

/-- The box lies inside the image. -/
structure Bbox.Inside (box : Bbox) (imageWidth imageHeight : Int) : Prop where
  left : 0 ≤ box.left
  top : 0 ≤ box.top
  right : box.right ≤ imageWidth
  bottom : box.bottom ≤ imageHeight

structure Bbox.Covers (box inner : Bbox) : Prop where
  left : box.left ≤ inner.left
  top : box.top ≤ inner.top
  right : inner.right ≤ box.right
  bottom : inner.bottom ≤ box.bottom

/-- What the box is cropped with. -/
structure Bbox.Legal (box : Bbox) (imageWidth imageHeight : Int) : Prop where
  inside : box.Inside imageWidth imageHeight
  shape : box.left < box.right ∧ box.top < box.bottom
  proportioned : box.Proportioned
  height : minDimension ≤ ⌊box.bottom⌋ - ⌊box.top⌋
  width : minDimension ≤ ⌊box.right⌋ - ⌊box.left⌋

section Validation

theorem validateBbox_iff {box : Bbox} :
    validateBbox box ↔
      (box.left < box.right ∧ box.top < box.bottom) ∧ box.Proportioned := by
  unfold validateBbox
  by_cases hshape : box.left < box.right ∧ box.top < box.bottom
  · have hwidth : 0 < box.width := sub_pos.mpr hshape.1
    have hheight : 0 < box.height := sub_pos.mpr hshape.2
    have hmin : 0 < min box.height box.width := lt_min hheight hwidth
    have hratio : max box.height box.width / min box.height box.width ≤ 100 ↔
        box.Proportioned := by
      rw [div_le_iff₀ hmin, Bbox.Proportioned]
      rcases le_total box.height box.width with hle | hle
      · rw [max_eq_right hle, min_eq_left hle]
        constructor
        · intro h
          exact ⟨by linarith, h⟩
        · exact fun h => h.2
      · rw [max_eq_left hle, min_eq_right hle]
        constructor
        · intro h
          exact ⟨h, by linarith⟩
        · exact fun h => h.1
    rw [if_neg (not_not.mpr hshape), if_neg hmin.ne', ← hratio]
    split_ifs with h
    · simp [h]
    · simp [hshape, not_lt.mp h]
  · simp [hshape]

theorem finalBbox_eq_some_iff {current box : Bbox} :
    finalBbox current = some box ↔ current = box ∧ validateBbox box ∧
      minDimension ≤ ⌊box.bottom⌋ - ⌊box.top⌋ ∧
      minDimension ≤ ⌊box.right⌋ - ⌊box.left⌋ := by
  unfold finalBbox
  constructor
  · intro h
    dsimp only at h
    split_ifs at h with hvalid hsmall
    cases h
    rw [not_or, not_lt, not_lt] at hsmall
    exact ⟨rfl, hvalid, hsmall⟩
  · rintro ⟨rfl, hvalid, hheight, hwidth⟩
    rw [if_neg (not_not.mpr hvalid), if_neg]
    rw [not_or, not_lt, not_lt]
    exact ⟨hheight, hwidth⟩

/-- Sides of `MIN_DIMENSION` keep it when their ends are rounded down. -/
theorem minDimension_le_floor_sub {lo hi : ℚ} (h : minDimension ≤ hi - lo) :
    minDimension ≤ ⌊hi⌋ - ⌊lo⌋ := by
  rw [le_sub_iff_add_le, Int.le_floor]
  have hlo := Int.floor_le lo
  push_cast
  linarith

end Validation

section Axis

/-- A side is scaled by the same factor as the other one, by at least 1. -/
theorem scaleDown_spec {a b limit c : ℚ} (ha : 0 < a) (hlimit : a ≤ limit)
    (hc : 1 ≤ c) : ∃ c', 1 ≤ c' ∧ c' ≤ c ∧ c' * a ≤ limit ∧
      scaleDown (a * c) (b * c) limit = (a * c', b * c') := by
  have hac : 0 < a * c := by positivity
  unfold scaleDown
  split_ifs with h
  · refine ⟨limit / a, (one_le_div₀ ha).mpr hlimit, ?_, ?_, ?_⟩
    · rw [div_le_iff₀ ha]
      linarith
    · rw [div_mul_cancel₀ limit ha.ne']
    · have hc0 : c ≠ 0 := by
        rintro rfl
        norm_num at hc
      ext
      · field_simp
      · field_simp
  · exact ⟨c, hc, le_refl c, by linarith, rfl⟩

/-- What the grown side of an axis is. -/
structure Grown (lo hi limit start target : ℚ) : Prop where
  nonneg : 0 ≤ start
  le_lo : start ≤ lo
  hi_le : hi ≤ start + target
  le_limit : start + target ≤ limit

/-- Growing a side about its centre and shifting it into the image covers
it. -/
theorem grown_shiftInto {lo hi limit target : ℚ} (hlo : 0 ≤ lo)
    (hhi : hi ≤ limit) (hgrows : hi - lo ≤ target) (hfits : target ≤ limit) :
    Grown lo hi limit
      (shiftInto ((lo + hi) / 2 - target / 2) target limit) target := by
  have hcentre : (lo + hi) / 2 - target / 2 ≤ lo := by linarith
  have hcentre' : hi ≤ (lo + hi) / 2 - target / 2 + target := by linarith
  unfold shiftInto
  by_cases hleft : (lo + hi) / 2 - target / 2 < 0
  · have hstays : ¬ 0 + target > limit := by linarith
    simp only [if_pos hleft, if_neg hstays]
    exact ⟨le_refl 0, hlo, by linarith, by linarith⟩
  · simp only [if_neg hleft]
    by_cases hright : (lo + hi) / 2 - target / 2 + target > limit
    · rw [if_pos hright]
      constructor <;> linarith
    · rw [if_neg hright]
      constructor <;> linarith

/-- Rounding outward keeps the side inside an image of integer size. -/
theorem Grown.rounded {lo hi start target : ℚ} {limit : Int}
    (h : Grown lo hi limit start target) :
    (0 : ℚ) ≤ ⌊start⌋ ∧ (⌊start⌋ : ℚ) ≤ lo ∧ hi ≤ ⌈start + target⌉ ∧
      (⌈start + target⌉ : ℚ) ≤ limit := by
  refine ⟨?_, (Int.floor_le start).trans h.le_lo,
    h.hi_le.trans (Int.le_ceil _), ?_⟩
  · exact_mod_cast Int.floor_nonneg.mpr h.nonneg
  · exact_mod_cast Int.ceil_le.mpr h.le_limit

end Axis

section Resized

/-- The target dimensions are not smaller than the box and fit the image. -/
theorem targetSize_spec {width height imageWidth imageHeight : ℚ}
    (hwidth : 0 < width) (hheight : 0 < height) (hw : width ≤ imageWidth)
    (hh : height ≤ imageHeight) (hsmall : min height width < minDimension) :
    width ≤ (targetSize width height imageWidth imageHeight).1 ∧
      (targetSize width height imageWidth imageHeight).1 ≤ imageWidth ∧
      height ≤ (targetSize width height imageWidth imageHeight).2 ∧
      (targetSize width height imageWidth imageHeight).2 ≤ imageHeight := by
  have hratio : 1 ≤ minDimension / min height width :=
    (one_le_div₀ (lt_min hheight hwidth)).mpr hsmall.le
  obtain ⟨c, hc, -, hfits, hscale⟩ :=
    scaleDown_spec (b := height) hwidth hw hratio
  obtain ⟨c', hc', hle, hfits', hscale'⟩ :=
    scaleDown_spec (b := width) hheight hh hc
  have hsize : targetSize width height imageWidth imageHeight =
      (width * c', height * c') := by
    simp only [targetSize, hscale, hscale']
  rw [hsize]
  have hless : c' * width ≤ c * width :=
    mul_le_mul_of_nonneg_right hle hwidth.le
  refine ⟨le_mul_of_one_le_right hwidth.le hc', ?_,
    le_mul_of_one_le_right hheight.le hc', ?_⟩
  · dsimp only
    linarith
  · dsimp only
    linarith

variable {box : Bbox} {imageWidth imageHeight : Int}

theorem clampBbox_inside (box : Bbox) (imageWidth imageHeight : Int) :
    (clampBbox box imageWidth imageHeight).Inside imageWidth imageHeight where
  left := le_max_left _ _
  top := le_max_left _ _
  right := min_le_left _ _
  bottom := min_le_left _ _

/-- A box inside the image with a side that is too small is resized to one
inside the image that covers it. -/
theorem resizeBbox_spec (hinside : box.Inside imageWidth imageHeight)
    (hshape : box.left < box.right ∧ box.top < box.bottom)
    (hsmall : box.height < minDimension ∨ box.width < minDimension) :
    (resizeBbox box imageWidth imageHeight).Inside imageWidth imageHeight ∧
      (resizeBbox box imageWidth imageHeight).Covers box := by
  have hwidth : 0 < box.width := sub_pos.mpr hshape.1
  have hheight : 0 < box.height := sub_pos.mpr hshape.2
  have hw : box.width ≤ imageWidth := by
    have := hinside.left
    have := hinside.right
    unfold Bbox.width
    linarith
  have hh : box.height ≤ imageHeight := by
    have := hinside.top
    have := hinside.bottom
    unfold Bbox.height
    linarith
  obtain ⟨hgrowsWidth, hfitsWidth, hgrowsHeight, hfitsHeight⟩ :=
    targetSize_spec hwidth hheight hw hh (min_lt_iff.mpr hsmall)
  have hhorizontal := (grown_shiftInto hinside.left hinside.right hgrowsWidth
    hfitsWidth).rounded
  have hvertical := (grown_shiftInto hinside.top hinside.bottom hgrowsHeight
    hfitsHeight).rounded
  exact ⟨⟨hhorizontal.1, hvertical.1, hhorizontal.2.2.2, hvertical.2.2.2⟩,
    ⟨hhorizontal.2.1, hvertical.2.1, hhorizontal.2.2.1, hvertical.2.2.1⟩⟩

/-- The final validation makes a box inside the image a legal one. -/
theorem legal_of_finalBbox {current : Bbox}
    (hinside : current.Inside imageWidth imageHeight)
    (h : finalBbox current = some box) :
    current = box ∧ box.Legal imageWidth imageHeight := by
  obtain ⟨rfl, hvalid, hheight, hwidth⟩ := finalBbox_eq_some_iff.mp h
  obtain ⟨hshape, hproportioned⟩ := validateBbox_iff.mp hvalid
  exact ⟨rfl, hinside, hshape, hproportioned, hheight, hwidth⟩

end Resized

/-- A box that is returned is legal and covers the requested one clamped to
the image, and a clamped box that is large enough is returned as it is. -/
theorem maybeResizeBbox_legal (bbox : Bbox) (imageWidth imageHeight : Int) :
    (∀ box, maybeResizeBbox bbox imageWidth imageHeight = some box →
      box.Legal imageWidth imageHeight ∧
        box.Covers (clampBbox bbox imageWidth imageHeight)) ∧
    (minDimension ≤ (clampBbox bbox imageWidth imageHeight).height →
      minDimension ≤ (clampBbox bbox imageWidth imageHeight).width →
      (clampBbox bbox imageWidth imageHeight).Proportioned →
      maybeResizeBbox bbox imageWidth imageHeight =
        some (clampBbox bbox imageWidth imageHeight)) := by
  have hinside := clampBbox_inside bbox imageWidth imageHeight
  unfold maybeResizeBbox
  generalize clampBbox bbox imageWidth imageHeight = clamped at hinside ⊢
  constructor
  · intro box h
    dsimp only at h
    split_ifs at h with hvalid hsmall
    · obtain ⟨hshape, -⟩ := validateBbox_iff.mp hvalid
      obtain ⟨hin, hcovers⟩ := resizeBbox_spec hinside hshape hsmall
      obtain ⟨rfl, hlegal⟩ := legal_of_finalBbox hin h
      exact ⟨hlegal, hcovers⟩
    · obtain ⟨rfl, hlegal⟩ := legal_of_finalBbox hinside h
      exact ⟨hlegal, le_refl _, le_refl _, le_refl _, le_refl _⟩
  · intro hheight hwidth hproportioned
    have hpos : (0 : ℚ) < minDimension := by norm_num [minDimension]
    have hvalid : validateBbox clamped := validateBbox_iff.mpr
      ⟨⟨sub_pos.mp (hpos.trans_le hwidth), sub_pos.mp (hpos.trans_le hheight)⟩,
        hproportioned⟩
    rw [if_neg (not_not.mpr hvalid), if_neg (not_or.mpr
      ⟨not_lt.mpr hheight, not_lt.mpr hwidth⟩), finalBbox_eq_some_iff]
    exact ⟨rfl, hvalid, minDimension_le_floor_sub hheight,
      minDimension_le_floor_sub hwidth⟩

/-- A small box near two borders. -/
theorem maybeResizeBbox_legal_corner :
    (⟨16, 0, 100, 28⟩ : Bbox).Legal 100 50 ∧
      (⟨16, 0, 100, 28⟩ : Bbox).Covers (clampBbox ⟨90, 10, 99, 13⟩ 100 50) :=
  (maybeResizeBbox_legal ⟨90, 10, 99, 13⟩ 100 50).1 ⟨16, 0, 100, 28⟩
    (by decide +kernel)

end ImageZoomIn

end SelfDistillation
