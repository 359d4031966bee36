/-
`compute_gae_advantage_return` (verl/trainer/ppo/core_algos.py) and the
`masked_whiten` it ends with (verl/utils/torch_functional.py), in exact
arithmetic: at the tokens of the mask the backward loop computes generalized
advantage estimation of the masked tokens alone.
-/
import SelfDistillation.Library.Advantage
import SelfDistillation.LossAggregation

namespace SelfDistillation

namespace Gae

variable {F : Type} {b w : Nat}

section Whiten

variable [Field F]

/-- `mask.sum()` -/
def maskSum (F : Type) [Field F] (mask : Fin b → Fin w → Bool) : F :=
  ∑ i, ∑ t, maskVal (mask i t)

/-- `masked_mean` over all axes; the number of tokens is not negative, so this
divisor is not 0. -/
def maskedMean (values : Fin b → Fin w → F) (mask : Fin b → Fin w → Bool) :
    F :=
  maskedSum (fun p : Fin b × Fin w => values p.1 p.2)
    (fun p => mask p.1 p.2) / (maskSum F mask + lossEps)

/-- `masked_var`, unbiased -/
def maskedVar [DecidableEq F] (values : Fin b → Fin w → F)
    (mask : Fin b → Fin w → Bool) : Py F :=
  let mean := maskedMean values mask
  let variance := maskedMean (fun i t => (values i t - mean) ^ 2) mask
  if maskSum F mask = 0 then
    .error (.valueError "At least one element in the mask has to be 1.")
  else if maskSum F mask = 1 then
    .error (.valueError
      "The sum of the mask is one, which can cause a division by zero.")
  else .ok (variance * (maskSum F mask / (maskSum F mask - 1)))

/-- `masked_whiten` with its mean shifted; `rsqrt` is `torch.rsqrt`. -/
def maskedWhiten [DecidableEq F] (rsqrt : F → F) (values : Fin b → Fin w → F)
    (mask : Fin b → Fin w → Bool) : Py (Fin b → Fin w → F) := do
  let mean := maskedMean values mask
  let var ← maskedVar values mask
  return fun i t => (values i t - mean) * rsqrt (var + lossEps)

end Whiten

section Loop

variable [Field F]

/-- What the loop over the tokens carries, one number for each row. -/
structure GaeCarry (F : Type) (b : Nat) where
  nextvalues : Fin b → F
  lastgaelam : Fin b → F
  advantagesReversed : List (Fin b → F)

/-- The state before the loop. -/
def GaeCarry.init : GaeCarry F b where
  nextvalues := fun _ => 0
  lastgaelam := fun _ => 0
  advantagesReversed := []

/-- The body of the loop. -/
def gaeStep (tokenLevelRewards values : Fin b → Fin w → F)
    (responseMask : Fin b → Fin w → Bool) (gamma lam : F)
    (carry : GaeCarry F b) (t : Fin w) : GaeCarry F b :=
  let delta := fun i =>
    tokenLevelRewards i t + gamma * carry.nextvalues i - values i t
  let lastgaelam' := fun i => delta i + gamma * lam * carry.lastgaelam i
  -- skip values and TD-error on observation tokens
  let nextvalues := fun i => values i t * maskVal (responseMask i t) +
    (1 - maskVal (responseMask i t)) * carry.nextvalues i
  let lastgaelam := fun i => lastgaelam' i * maskVal (responseMask i t) +
    (1 - maskVal (responseMask i t)) * carry.lastgaelam i
  { nextvalues := nextvalues
    lastgaelam := lastgaelam
    advantagesReversed := carry.advantagesReversed ++ [lastgaelam] }

/-- `for t in reversed(range(gen_len))` -/
def gaeLoop (tokenLevelRewards values : Fin b → Fin w → F)
    (responseMask : Fin b → Fin w → Bool) (gamma lam : F) : GaeCarry F b :=
  (List.finRange w).reverse.foldl
    (gaeStep tokenLevelRewards values responseMask gamma lam) .init

/-- `torch.stack(columns, dim=1)`; one column was appended for every token. -/
def stackColumns (columns : List (Fin b → F)) : Py (Fin b → Fin w → F) :=
  if columns.isEmpty then
    .error (.runtimeError "stack expects a non-empty TensorList")
  else .ok fun i t => columns.getD t.val (fun _ => 0) i

/-- `compute_gae_advantage_return` -/
def computeGaeAdvantageReturn [DecidableEq F] (rsqrt : F → F)
    (tokenLevelRewards values : Fin b → Fin w → F)
    (responseMask : Fin b → Fin w → Bool) (gamma lam : F) :
    Py ((Fin b → Fin w → F) × (Fin b → Fin w → F)) := do
  let carry := gaeLoop tokenLevelRewards values responseMask gamma lam
  let advantages ← stackColumns carry.advantagesReversed.reverse
  let returns := fun i t => advantages i t + values i t
  let whitened ← maskedWhiten rsqrt advantages responseMask
  return (whitened, returns)

end Loop

section Compacted

variable [Field F]

/-- The tokens among `tokens` whose mask is 1 in a row, as an episode of their
own. -/
def compacted (tokenLevelRewards values : Fin b → Fin w → F)
    (responseMask : Fin b → Fin w → Bool) (i : Fin b) (tokens : List (Fin w)) :
    List (Advantage.Step F) :=
  (tokens.filter (responseMask i)).map fun t =>
    ⟨tokenLevelRewards i t, values i t⟩

/-- What the carry is after the loop has gone backwards over `tokens`, in row
`i`: it knows nothing but the compacted episode. -/
structure Follows (tokenLevelRewards values : Fin b → Fin w → F)
    (responseMask : Fin b → Fin w → Bool) (gamma lam : F) (i : Fin b)
    (tokens : List (Fin w)) (carry : GaeCarry F b) : Prop where
  nextvalues : carry.nextvalues i = Advantage.valueAt
    (compacted tokenLevelRewards values responseMask i tokens) 0
  lastgaelam : carry.lastgaelam i = Advantage.advantage gamma lam
    (compacted tokenLevelRewards values responseMask i tokens) 0
  shown : ((tokens.zip carry.advantagesReversed.reverse).filter
      fun p => responseMask i p.1).map (fun p => p.2 i) =
    Advantage.advantages gamma lam
      (compacted tokenLevelRewards values responseMask i tokens)

variable {tokenLevelRewards values : Fin b → Fin w → F}
  {responseMask : Fin b → Fin w → Bool} {gamma lam : F} {i : Fin b}
  {t : Fin w} {tokens : List (Fin w)} {carry : GaeCarry F b}

omit [Field F] in
theorem compacted_cons_of_pos (ht : responseMask i t) :
    compacted tokenLevelRewards values responseMask i (t :: tokens) =
      ⟨tokenLevelRewards i t, values i t⟩ ::
        compacted tokenLevelRewards values responseMask i tokens := by
  simp [compacted, ht]

omit [Field F] in
theorem compacted_cons_of_neg (ht : ¬ responseMask i t) :
    compacted tokenLevelRewards values responseMask i (t :: tokens) =
      compacted tokenLevelRewards values responseMask i tokens := by
  simp [compacted, ht]

theorem Follows.init :
    Follows tokenLevelRewards values responseMask gamma lam i []
      (.init : GaeCarry F b) where
  nextvalues := rfl
  lastgaelam := by simp [GaeCarry.init, compacted]
  shown := rfl

/-- A token of the mask is one step of the backward recursion. -/
theorem Follows.step_of_pos
    (h : Follows tokenLevelRewards values responseMask gamma lam i tokens
      carry) (ht : responseMask i t) :
    Follows tokenLevelRewards values responseMask gamma lam i (t :: tokens)
      (gaeStep tokenLevelRewards values responseMask gamma lam carry t) := by
  have hgae : (gaeStep tokenLevelRewards values responseMask gamma lam carry
      t).lastgaelam i = Advantage.advantage gamma lam
        (compacted tokenLevelRewards values responseMask i (t :: tokens))
        0 := by
    rw [compacted_cons_of_pos ht, Advantage.advantage_cons_zero,
      Advantage.tdError_cons_zero, ← h.lastgaelam, ← h.nextvalues]
    simp [gaeStep, ht, maskVal]
  constructor
  · rw [compacted_cons_of_pos ht, Advantage.valueAt_cons_zero]
    simp [gaeStep, ht, maskVal]
  · exact hgae
  · rw [compacted_cons_of_pos ht, Advantage.advantages_cons, ← h.shown,
      ← compacted_cons_of_pos ht, ← hgae]
    simp [gaeStep, ht]

/-- A token outside the mask changes neither carry. -/
theorem Follows.step_of_neg
    (h : Follows tokenLevelRewards values responseMask gamma lam i tokens
      carry) (ht : ¬ responseMask i t) :
    Follows tokenLevelRewards values responseMask gamma lam i (t :: tokens)
      (gaeStep tokenLevelRewards values responseMask gamma lam carry t) := by
  constructor
  · rw [compacted_cons_of_neg ht, ← h.nextvalues]
    simp [gaeStep, ht, maskVal]
  · rw [compacted_cons_of_neg ht, ← h.lastgaelam]
    simp [gaeStep, ht, maskVal]
  · rw [compacted_cons_of_neg ht, ← h.shown]
    simp [gaeStep, ht]

theorem Follows.step
    (h : Follows tokenLevelRewards values responseMask gamma lam i tokens
      carry) :
    Follows tokenLevelRewards values responseMask gamma lam i (t :: tokens)
      (gaeStep tokenLevelRewards values responseMask gamma lam carry t) := by
  by_cases ht : responseMask i t
  · exact h.step_of_pos ht
  · exact h.step_of_neg ht

/-- The whole loop, by induction on the tokens it has gone over. -/
theorem follows_gaeLoop (tokenLevelRewards values : Fin b → Fin w → F)
    (responseMask : Fin b → Fin w → Bool) (gamma lam : F) (i : Fin b) :
    Follows tokenLevelRewards values responseMask gamma lam i
      (List.finRange w)
      (gaeLoop tokenLevelRewards values responseMask gamma lam) := by
  unfold gaeLoop
  rw [List.foldl_reverse]
  induction List.finRange w with
  | nil => exact Follows.init
  | cons t tokens ih =>
      rw [List.foldr_cons]
      exact ih.step

end Compacted

section Stacked

variable [Field F] (tokenLevelRewards values : Fin b → Fin w → F)
  (responseMask : Fin b → Fin w → Bool) (gamma lam : F)

/-- The un-whitened advantages, the stacked columns of the loop. -/
def stacked : Fin b → Fin w → F := fun i t =>
  (gaeLoop tokenLevelRewards values responseMask gamma
    lam).advantagesReversed.reverse.getD t.val (fun _ => 0) i

omit [Field F] in
theorem zip_finRange [Zero F] {columns : List (Fin b → F)}
    (h : columns.length = w) :
    (List.finRange w).zip columns = (List.finRange w).map fun t =>
      (t, columns.getD t.val fun _ => 0) := by
  apply List.ext_getElem
  · simp [h]
  · intro k hk hk'
    have hcol : k < columns.length := by
      rw [List.length_map, List.length_finRange] at hk'
      omega
    simp [hcol]

/-- Every token leaves one column. -/
theorem length_gaeLoop :
    (gaeLoop tokenLevelRewards values responseMask gamma
      lam).advantagesReversed.length = w := by
  have hfold : ∀ (tokens : List (Fin w)) (carry : GaeCarry F b),
      (tokens.foldl (gaeStep tokenLevelRewards values responseMask gamma lam)
        carry).advantagesReversed.length =
          carry.advantagesReversed.length + tokens.length := by
    intro tokens
    induction tokens with
    | nil => intro carry; rfl
    | cons t tokens ih =>
        intro carry
        rw [List.foldl_cons, ih]
        simp only [gaeStep, List.length_append, List.length_cons,
          List.length_nil]
        omega
  rw [gaeLoop, hfold]
  simp [GaeCarry.init]

/-- At the tokens of the mask the stacked columns are the advantages of the
compacted episode. -/
theorem map_stacked (i : Fin b) :
    ((List.finRange w).filter (responseMask i)).map
      (stacked tokenLevelRewards values responseMask gamma lam i) =
        Advantage.advantages gamma lam (compacted tokenLevelRewards values
          responseMask i (List.finRange w)) := by
  have hloop := follows_gaeLoop tokenLevelRewards values responseMask gamma
    lam i
  have hlength := length_gaeLoop tokenLevelRewards values responseMask gamma
    lam
  rw [← hloop.shown, zip_finRange (by rw [List.length_reverse, hlength]),
    List.filter_map, List.map_map]
  rfl

theorem map_stacked_add (i : Fin b) :
    (((List.finRange w).filter (responseMask i)).map fun t =>
      stacked tokenLevelRewards values responseMask gamma lam i t +
        values i t) = Advantage.returns gamma lam (compacted
          tokenLevelRewards values responseMask i (List.finRange w)) := by
  have hvalues : (compacted tokenLevelRewards values responseMask i
      (List.finRange w)).map Advantage.Step.value =
        ((List.finRange w).filter (responseMask i)).map (values i) := by
    rw [compacted, List.map_map]
    rfl
  rw [Advantage.returns_eq_zipWith, hvalues, ← map_stacked,
    List.zipWith_map, List.zipWith_self]

theorem stackColumns_gaeLoop :
    (stackColumns (gaeLoop tokenLevelRewards values responseMask gamma
      lam).advantagesReversed.reverse : Py (Fin b → Fin w → F)) =
        if w = 0 then
          .error (.runtimeError "stack expects a non-empty TensorList")
        else .ok (stacked tokenLevelRewards values responseMask gamma
          lam) := by
  by_cases hw : w = 0
  · subst hw
    rfl
  · rw [if_neg hw, stackColumns, if_neg]
    · rfl
    · rw [List.isEmpty_iff_length_eq_zero, List.length_reverse,
        length_gaeLoop]
      exact hw

/-- `compute_gae_advantage_return` skips the tokens outside the mask: in every
row, the advantages it whitens and the returns it gives are at the tokens of
the mask those of the compacted row. Without columns there is nothing to
stack. -/
theorem computeGae_skips_masked [DecidableEq F] (rsqrt : F → F) :
    computeGaeAdvantageReturn rsqrt tokenLevelRewards values responseMask
        gamma lam =
      (if w = 0 then
        .error (.runtimeError "stack expects a non-empty TensorList")
      else do
        let advantages :=
          stacked tokenLevelRewards values responseMask gamma lam
        let whitened ← maskedWhiten rsqrt advantages responseMask
        return (whitened, fun i t => advantages i t + values i t)) ∧
      ∀ i, (((List.finRange w).filter (responseMask i)).map
          (stacked tokenLevelRewards values responseMask gamma lam i) =
            Advantage.advantages gamma lam (compacted tokenLevelRewards values
              responseMask i (List.finRange w))) ∧
        (((List.finRange w).filter (responseMask i)).map fun t =>
          stacked tokenLevelRewards values responseMask gamma lam i t +
            values i t) =
              Advantage.returns gamma lam (compacted tokenLevelRewards values
                responseMask i (List.finRange w)) := by
  constructor
  · rw [computeGaeAdvantageReturn, stackColumns_gaeLoop]
    by_cases hw : w = 0
    · rw [if_pos hw, if_pos hw]
      rfl
    · rw [if_neg hw, if_neg hw]
      rfl
  · intro i
    exact ⟨map_stacked tokenLevelRewards values responseMask gamma lam i,
      map_stacked_add tokenLevelRewards values responseMask gamma lam i⟩

end Stacked

end Gae

end SelfDistillation
