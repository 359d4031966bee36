/-
What is computed from the softmax of a row, differentiated along curves of the
logits, and logits that are the products of two matrices.
-/
import SelfDistillation.Library.OnlineSoftmax

namespace SoftmaxGradient

open OnlineSoftmax Finset

/-- One probability of a row. -/
noncomputable def softmax (x : ℕ → ℝ) (lo hi c : ℕ) : ℝ :=
  Real.exp (x c) / ∑ d ∈ Ico lo hi, Real.exp (x d)

/-- The entropy of the softmax. -/
noncomputable def entropy (x : ℕ → ℝ) (lo hi : ℕ) : ℝ :=
  logSumExp x lo hi - softmaxMean x lo hi

/-- The logarithm of one probability. -/
noncomputable def logSoftmax (x : ℕ → ℝ) (lo hi label : ℕ) : ℝ :=
  x label - logSumExp x lo hi

/-- The gradient of `a` times the log-probability of the label and `b` times
the entropy. -/
noncomputable def logitGrad (x : ℕ → ℝ) (lo hi label : ℕ) (a b : ℝ) (c : ℕ) :
    ℝ :=
  a * ((if c = label then 1 else 0) - softmax x lo hi c) -
    b * (softmax x lo hi c * (x c - softmaxMean x lo hi))

section Row

variable {x : ℕ → ℝ} {lo hi : ℕ}

theorem sum_exp_pos (x : ℕ → ℝ) (hlt : lo < hi) :
    0 < ∑ d ∈ Ico lo hi, Real.exp (x d) :=
  sum_pos (fun _ _ => Real.exp_pos _) (nonempty_Ico.mpr hlt)

theorem softmaxMean_eq_div : softmaxMean x lo hi =
    (∑ c ∈ Ico lo hi, Real.exp (x c) * x c) /
      ∑ d ∈ Ico lo hi, Real.exp (x d) := by
  rw [softmaxMean, sum_div]
  exact sum_congr rfl fun c _ => by ring

theorem sum_div_exp (f : ℕ → ℝ) :
    (∑ c ∈ Ico lo hi, Real.exp (x c) * f c) /
        ∑ d ∈ Ico lo hi, Real.exp (x d) =
      ∑ c ∈ Ico lo hi, softmax x lo hi c * f c := by
  rw [sum_div]
  exact sum_congr rfl fun c _ => by rw [softmax]; ring

/-- A probability relative to a number the logits were shifted by. -/
theorem softmax_of_summarizes {m a b : ℝ} (h : Summarizes x lo hi m a b) (c : ℕ) :
    softmax x lo hi c = Real.exp (x c - m) * (1 / a) := by
  rw [softmax, h.unshift.1, Real.exp_sub]
  field_simp

end Row

section Curve

variable {x : ℝ → ℕ → ℝ} {x' : ℕ → ℝ} {lo hi : ℕ} {s : ℝ}
variable (hx : ∀ c ∈ Ico lo hi, HasDerivAt (fun t => x t c) (x' c) s)

include hx

theorem hasDerivAt_sum_exp :
    HasDerivAt (fun t => ∑ c ∈ Ico lo hi, Real.exp (x t c))
      (∑ c ∈ Ico lo hi, Real.exp (x s c) * x' c) s :=
  HasDerivAt.fun_sum fun c hc => (hx c hc).exp

theorem hasDerivAt_sum_exp_mul :
    HasDerivAt (fun t => ∑ c ∈ Ico lo hi, Real.exp (x t c) * x t c)
      (∑ c ∈ Ico lo hi, Real.exp (x s c) * (x s c * x' c + x' c)) s := by
  refine HasDerivAt.fun_sum fun c hc => ?_
  have hmul := (hx c hc).exp.mul (hx c hc)
  refine hmul.congr_deriv ?_
  ring

theorem hasDerivAt_logSumExp (hlt : lo < hi) :
    HasDerivAt (fun t => logSumExp (x t) lo hi)
      (∑ c ∈ Ico lo hi, softmax (x s) lo hi c * x' c) s := by
  have hpos := sum_exp_pos (x s) hlt
  have hlog := (hasDerivAt_sum_exp hx).log hpos.ne'
  rwa [sum_div_exp] at hlog

theorem hasDerivAt_softmaxMean (hlt : lo < hi) :
    HasDerivAt (fun t => softmaxMean (x t) lo hi)
      (∑ c ∈ Ico lo hi, softmax (x s) lo hi c *
        ((x s c - softmaxMean (x s) lo hi) * x' c + x' c)) s := by
  have hpos := sum_exp_pos (x s) hlt
  have hdiv := (hasDerivAt_sum_exp_mul hx).div (hasDerivAt_sum_exp hx) hpos.ne'
  have hmean : (fun t => softmaxMean (x t) lo hi) =
      (fun t => ∑ c ∈ Ico lo hi, Real.exp (x t c) * x t c) /
        fun t => ∑ c ∈ Ico lo hi, Real.exp (x t c) :=
    funext fun t => softmaxMean_eq_div
  rw [hmean]
  refine hdiv.congr_deriv ?_
  set total := ∑ d ∈ Ico lo hi, Real.exp (x s d) with htotal
  have hquot : ∀ u v w : ℝ, (u * total - v * w) / total ^ 2 =
      u / total - v / total * (w / total) := by
    intro u v w
    field_simp
  rw [hquot, htotal, ← softmaxMean_eq_div, sum_div_exp, sum_div_exp, mul_sum,
    ← sum_sub_distrib]
  exact sum_congr rfl fun c _ => by ring

theorem hasDerivAt_entropy (hlt : lo < hi) :
    HasDerivAt (fun t => entropy (x t) lo hi)
      (∑ c ∈ Ico lo hi, -(softmax (x s) lo hi c *
        (x s c - softmaxMean (x s) lo hi)) * x' c) s := by
  have hsub := (hasDerivAt_logSumExp hx hlt).sub
    (hasDerivAt_softmaxMean hx hlt)
  refine hsub.congr_deriv ?_
  rw [← sum_sub_distrib]
  exact sum_congr rfl fun c _ => by ring

theorem hasDerivAt_logSoftmax {label : ℕ} (hlabel : label ∈ Ico lo hi) :
    HasDerivAt (fun t => logSoftmax (x t) lo hi label)
      (∑ c ∈ Ico lo hi,
        ((if c = label then 1 else 0) - softmax (x s) lo hi c) * x' c) s := by
  have hlt : lo < hi := nonempty_Ico.mp ⟨label, hlabel⟩
  have hsub := (hx label hlabel).sub (hasDerivAt_logSumExp hx hlt)
  refine hsub.congr_deriv ?_
  have hpick : ∑ c ∈ Ico lo hi, (if c = label then (1 : ℝ) else 0) * x' c =
      x' label := by
    simp only [ite_mul, one_mul, zero_mul]
    rw [sum_ite_eq', if_pos hlabel]
  rw [← hpick, ← sum_sub_distrib]
  exact sum_congr rfl fun c _ => by ring

/-- One row of a loss. -/
theorem hasDerivAt_row {label : ℕ} (hlabel : label ∈ Ico lo hi) (a b : ℝ) :
    HasDerivAt (fun t => a * logSoftmax (x t) lo hi label +
        b * entropy (x t) lo hi)
      (∑ c ∈ Ico lo hi, logitGrad (x s) lo hi label a b c * x' c) s := by
  have hlt : lo < hi := nonempty_Ico.mp ⟨label, hlabel⟩
  have hadd := ((hasDerivAt_logSoftmax hx hlabel).const_mul a).add
    ((hasDerivAt_entropy hx hlt).const_mul b)
  refine hadd.congr_deriv ?_
  rw [mul_sum, mul_sum, ← sum_add_distrib]
  refine sum_congr rfl fun c _ => ?_
  rw [logitGrad]
  ring

end Curve

section Linear

variable {rows columns inner : Finset ℕ}

/-- The gradients of the two factors of `logits = hidden @ weight.T * scale`. -/
theorem sum_linear (g h h' w w' : ℕ → ℕ → ℝ) (scale : ℝ) :
    ∑ t ∈ rows, ∑ c ∈ columns,
        g t c * ((∑ k ∈ inner, (h' t k * w c k + h t k * w' c k)) * scale) =
      ∑ t ∈ rows, ∑ k ∈ inner,
          (∑ c ∈ columns, g t c * scale * w c k) * h' t k +
        ∑ c ∈ columns, ∑ k ∈ inner,
          (∑ t ∈ rows, g t c * scale * h t k) * w' c k := by
  have hsplit : ∀ t c,
      g t c * ((∑ k ∈ inner, (h' t k * w c k + h t k * w' c k)) * scale) =
        ∑ k ∈ inner, g t c * scale * w c k * h' t k +
          ∑ k ∈ inner, g t c * scale * h t k * w' c k := by
    intro t c
    rw [← sum_add_distrib, sum_mul, mul_sum]
    exact sum_congr rfl fun k _ => by ring
  rw [sum_congr rfl fun t _ => sum_congr rfl fun c _ => hsplit t c]
  simp only [sum_add_distrib, sum_mul]
  congr 1
  · exact sum_congr rfl fun t _ => sum_comm
  · rw [sum_comm]
    exact sum_congr rfl fun c _ => sum_comm

end Linear

/-- Rows of logits that are products of two matrices, each entry of which moves
along a curve. -/
structure LinearCurve (inner : Finset ℕ) where
  hidden : ℝ → ℕ → ℕ → ℝ
  weight : ℝ → ℕ → ℕ → ℝ
  hidden' : ℕ → ℕ → ℝ
  weight' : ℕ → ℕ → ℝ
  at_hidden : ∀ t, ∀ k ∈ inner,
    HasDerivAt (fun s => hidden s t k) (hidden' t k) 0
  at_weight : ∀ c, ∀ k ∈ inner,
    HasDerivAt (fun s => weight s c k) (weight' c k) 0

namespace LinearCurve

variable {inner : Finset ℕ} (curve : LinearCurve inner) (scale : ℝ)

noncomputable def logit (s : ℝ) (t c : ℕ) : ℝ :=
  (∑ k ∈ inner, curve.hidden s t k * curve.weight s c k) * scale

theorem hasDerivAt_logit (t c : ℕ) :
    HasDerivAt (fun s => curve.logit scale s t c)
      ((∑ k ∈ inner, (curve.hidden' t k * curve.weight 0 c k +
        curve.hidden 0 t k * curve.weight' c k)) * scale) 0 := by
  have hsum : HasDerivAt
      (fun s => ∑ k ∈ inner, curve.hidden s t k * curve.weight s c k)
      (∑ k ∈ inner, (curve.hidden' t k * curve.weight 0 c k +
        curve.hidden 0 t k * curve.weight' c k)) 0 :=
    HasDerivAt.fun_sum fun k hk =>
      (curve.at_hidden t k hk).mul (curve.at_weight c k hk)
  exact hsum.mul_const scale

/-- The gradient of a loss on the rows with respect to both factors. -/
theorem hasDerivAt_loss {rows lo hi : ℕ} {labels : ℕ → ℕ}
    (hlabels : ∀ t < rows, labels t ∈ Ico lo hi) (a b : ℕ → ℝ) :
    HasDerivAt
      (fun s => ∑ t ∈ range rows,
        (a t * logSoftmax (curve.logit scale s t) lo hi (labels t) +
          b t * entropy (curve.logit scale s t) lo hi))
      (∑ t ∈ range rows, ∑ k ∈ inner,
          (∑ c ∈ Ico lo hi, logitGrad (curve.logit scale 0 t) lo hi (labels t)
            (a t) (b t) c * scale * curve.weight 0 c k) * curve.hidden' t k +
        ∑ c ∈ Ico lo hi, ∑ k ∈ inner,
          (∑ t ∈ range rows, logitGrad (curve.logit scale 0 t) lo hi (labels t)
            (a t) (b t) c * scale * curve.hidden 0 t k) *
              curve.weight' c k) 0 := by
  rw [← sum_linear]
  refine HasDerivAt.fun_sum fun t ht => ?_
  exact hasDerivAt_row (fun c _ => curve.hasDerivAt_logit scale t c)
    (hlabels t (mem_range.mp ht)) (a t) (b t)

end LinearCurve

end SoftmaxGradient
