/-
`compute_reinforce_plus_plus_outcome_advantage` (verl/trainer/ppo/core_algos.py)
in exact arithmetic: its backward loop drops the return it carries at every
token outside the mask, so a turn of the user cuts a row in two.
-/
import SelfDistillation.GaeAdvantage

namespace SelfDistillation

namespace ReinforcePlusPlus

variable {F : Type} [Field F] {b w : Nat}

/-- What the function reads of its configuration. -/
structure AlgoConfig (F : Type) where
  gamma : F

section Loop

/-- What the loop over the tokens carries. -/
structure ReturnCarry (F : Type) (b w : Nat) where
  runningReturn : Fin b → F
  returns : Fin b → Fin w → F

/-- The state before the loop. -/
def ReturnCarry.init : ReturnCarry F b w where
  runningReturn := fun _ => 0
  returns := fun _ _ => 0

/-- The body of the loop. -/
def returnStep (tokenLevelRewards : Fin b → Fin w → F)
    (responseMask : Fin b → Fin w → Bool) (gamma : F)
    (carry : ReturnCarry F b w) (t : Fin w) : ReturnCarry F b w :=
  let runningReturn := fun i =>
    tokenLevelRewards i t + gamma * carry.runningReturn i
  { returns := fun i => Function.update (carry.returns i) t (runningReturn i)
    -- Reset after EOS
    runningReturn := fun i => runningReturn i * maskVal (responseMask i t) }

/-- `for t in reversed(range(token_level_rewards.shape[1]))` -/
def returnLoop (tokenLevelRewards : Fin b → Fin w → F)
    (responseMask : Fin b → Fin w → Bool) (gamma : F)
    (tokens : List (Fin w)) : ReturnCarry F b w :=
  tokens.reverse.foldl (returnStep tokenLevelRewards responseMask gamma) .init

end Loop

/-- `compute_reinforce_plus_plus_outcome_advantage`; `rsqrt` is
`torch.rsqrt`. -/
def computeReinforcePlusPlusOutcomeAdvantage [DecidableEq F] (rsqrt : F → F)
    (tokenLevelRewards : Fin b → Fin w → F)
    (responseMask : Fin b → Fin w → Bool) (config : Option (AlgoConfig F)) :
    Py ((Fin b → Fin w → F) × (Fin b → Fin w → F)) :=
  match config with
  | none => .error (.assertionError "")
  | some config => do
      let returns := (returnLoop tokenLevelRewards responseMask config.gamma
        (List.finRange w)).returns
      let advantages ← Gae.maskedWhiten rsqrt returns responseMask
      return (fun i t => advantages i t * maskVal (responseMask i t), returns)

section Compacted

/-- The rewards of the tokens among `tokens` whose mask is 1 in a row. -/
def compacted (tokenLevelRewards : Fin b → Fin w → F)
    (responseMask : Fin b → Fin w → Bool) (i : Fin b) (tokens : List (Fin w)) :
    List F :=
  (tokens.filter (responseMask i)).map (tokenLevelRewards i)

/-- The discounted return of the compacted row from position `t` on. -/
def compactedReturn (tokenLevelRewards : Fin b → Fin w → F)
    (responseMask : Fin b → Fin w → Bool) (gamma : F) (i : Fin b)
    (t : Fin w) : F :=
  Advantage.discounted gamma
    (compacted tokenLevelRewards responseMask i ((List.finRange w).drop t))

/-- The tokens whose mask is 1, in all rows. -/
def trainedTokens (responseMask : Fin b → Fin w → Bool) :
    Finset (Fin b × Fin w) :=
  Finset.univ.filter fun p => responseMask p.1 p.2

end Compacted

section Runs

variable (tokenLevelRewards : Fin b → Fin w → F)
  (responseMask : Fin b → Fin w → Bool) (gamma : F) (i : Fin b)

theorem returnLoop_cons (t : Fin w) (tokens : List (Fin w)) :
    returnLoop tokenLevelRewards responseMask gamma (t :: tokens) =
      returnStep tokenLevelRewards responseMask gamma
        (returnLoop tokenLevelRewards responseMask gamma tokens) t := by
  simp [returnLoop, List.foldl_append]

/-- What row `i` carries back over `tokens`. -/
def carried (tokens : List (Fin w)) : F :=
  (returnLoop tokenLevelRewards responseMask gamma tokens).runningReturn i

@[simp] theorem carried_nil :
    carried tokenLevelRewards responseMask gamma i [] = 0 := rfl

/-- The loop forgets what it carries at a token outside the mask. -/
theorem carried_cons (t : Fin w) (tokens : List (Fin w)) :
    carried tokenLevelRewards responseMask gamma i (t :: tokens) =
      if responseMask i t then tokenLevelRewards i t +
        gamma * carried tokenLevelRewards responseMask gamma i tokens
      else 0 := by
  rw [carried, returnLoop_cons]
  by_cases ht : responseMask i t
  · simp [returnStep, maskVal, ht, carried]
  · simp [returnStep, maskVal, ht]

/-- The column of a token is written once, from what was carried to it. -/
theorem returns_returnLoop {before rest : List (Fin w)} {t : Fin w}
    (hnodup : (before ++ t :: rest).Nodup) :
    (returnLoop tokenLevelRewards responseMask gamma
      (before ++ t :: rest)).returns i t = tokenLevelRewards i t +
        gamma * carried tokenLevelRewards responseMask gamma i rest := by
  induction before with
  | nil =>
      rw [List.nil_append, returnLoop_cons]
      simp [returnStep, carried]
  | cons head before ih =>
      rw [List.cons_append, List.nodup_cons] at hnodup
      have hne : t ≠ head := by
        rintro rfl
        exact hnodup.1 (by simp)
      rw [List.cons_append, returnLoop_cons, ← ih hnodup.2]
      simp [returnStep, hne]

/-- Every trained token of `tokens` gets the return of the compacted tokens
from it on. -/
def Reaches (tokens : List (Fin w)) : Prop :=
  ∀ t rest, t :: rest <:+ tokens → responseMask i t →
    tokenLevelRewards i t +
        gamma * carried tokenLevelRewards responseMask gamma i rest =
      Advantage.discounted gamma
        (compacted tokenLevelRewards responseMask i (t :: rest))

/-- Nothing is lost where a trained token is followed by another one. -/
def NothingCut (tokens : List (Fin w)) : Prop :=
  ∀ t t' rest, t :: t' :: rest <:+ tokens → responseMask i t →
    ¬ responseMask i t' → gamma = 0 ∨ Advantage.discounted gamma
      (compacted tokenLevelRewards responseMask i (t' :: rest)) = 0

variable {tokenLevelRewards responseMask gamma i}

omit [Field F] in
theorem compacted_cons_of_pos {t : Fin w} {tokens : List (Fin w)}
    (ht : responseMask i t) :
    compacted tokenLevelRewards responseMask i (t :: tokens) =
      tokenLevelRewards i t ::
        compacted tokenLevelRewards responseMask i tokens := by
  simp [compacted, ht]

/-- Over tokens that are all reached, what is carried is the compacted return
if the first of them is trained, and nothing otherwise. -/
theorem Reaches.carried_eq {t : Fin w} {rest : List (Fin w)}
    (h : Reaches tokenLevelRewards responseMask gamma i (t :: rest)) :
    carried tokenLevelRewards responseMask gamma i (t :: rest) =
      if responseMask i t then Advantage.discounted gamma
        (compacted tokenLevelRewards responseMask i (t :: rest)) else 0 := by
  rw [carried_cons]
  by_cases ht : responseMask i t
  · rw [if_pos ht, if_pos ht, h t rest (List.suffix_refl _) ht]
  · rw [if_neg ht, if_neg ht]

theorem reaches_cons_iff {t : Fin w} {tokens : List (Fin w)} :
    Reaches tokenLevelRewards responseMask gamma i (t :: tokens) ↔
      (responseMask i t → tokenLevelRewards i t +
          gamma * carried tokenLevelRewards responseMask gamma i tokens =
        Advantage.discounted gamma
          (compacted tokenLevelRewards responseMask i (t :: tokens))) ∧
      Reaches tokenLevelRewards responseMask gamma i tokens := by
  constructor
  · intro h
    exact ⟨h t tokens (List.suffix_refl _), fun t' rest hrest =>
      h t' rest (List.suffix_cons_iff.mpr (Or.inr hrest))⟩
  · rintro ⟨hhead, htail⟩ t' rest hrest
    rcases List.suffix_cons_iff.mp hrest with heq | hrest
    · obtain ⟨rfl, rfl⟩ := List.cons.inj heq
      exact hhead
    · exact htail t' rest hrest

theorem nothingCut_cons_iff {t : Fin w} {tokens : List (Fin w)} :
    NothingCut tokenLevelRewards responseMask gamma i (t :: tokens) ↔
      (∀ t' rest, tokens = t' :: rest → responseMask i t →
        ¬ responseMask i t' → gamma = 0 ∨ Advantage.discounted gamma
          (compacted tokenLevelRewards responseMask i tokens) = 0) ∧
      NothingCut tokenLevelRewards responseMask gamma i tokens := by
  constructor
  · intro h
    constructor
    · rintro t' rest rfl
      exact h t t' rest (List.suffix_refl _)
    · intro t₁ t₂ rest hrest
      exact h t₁ t₂ rest (List.suffix_cons_iff.mpr (Or.inr hrest))
  · rintro ⟨hhead, htail⟩ t₁ t₂ rest hrest
    rcases List.suffix_cons_iff.mp hrest with heq | hrest
    · obtain ⟨rfl, rfl⟩ := List.cons.inj heq
      exact hhead t₂ rest rfl
    · exact htail t₁ t₂ rest hrest

/-- One token: it gets what it should exactly if nothing is lost behind it. -/
theorem head_reached_iff {t : Fin w} {tokens : List (Fin w)}
    (h : Reaches tokenLevelRewards responseMask gamma i tokens)
    (ht : responseMask i t) :
    tokenLevelRewards i t +
        gamma * carried tokenLevelRewards responseMask gamma i tokens =
      Advantage.discounted gamma
        (compacted tokenLevelRewards responseMask i (t :: tokens)) ↔
    ∀ t' rest, tokens = t' :: rest → ¬ responseMask i t' →
      gamma = 0 ∨ Advantage.discounted gamma
        (compacted tokenLevelRewards responseMask i tokens) = 0 := by
  rw [compacted_cons_of_pos ht, Advantage.discounted_cons, add_right_inj]
  cases tokens with
  | nil => simp [compacted]
  | cons t' rest =>
      rw [h.carried_eq]
      by_cases ht' : responseMask i t'
      · simp [ht']
      · rw [if_neg ht', mul_zero, eq_comm, mul_eq_zero]
        constructor
        · intro hlost _ _ _ _
          exact hlost
        · intro hlost
          exact hlost t' rest rfl ht'

/-- By induction on the tokens, from the last one backwards. -/
theorem reaches_iff_nothingCut (tokens : List (Fin w)) :
    Reaches tokenLevelRewards responseMask gamma i tokens ↔
      NothingCut tokenLevelRewards responseMask gamma i tokens := by
  induction tokens with
  | nil => simp [Reaches, NothingCut]
  | cons t tokens ih =>
      rw [reaches_cons_iff, nothingCut_cons_iff, ← ih]
      apply and_congr_left
      intro htail
      constructor
      · intro hhead t' rest htokens ht
        exact (head_reached_iff htail ht).mp (hhead ht) t' rest htokens
      · intro hcut ht
        rw [head_reached_iff htail ht]
        exact fun t' rest htokens => hcut t' rest htokens ht

end Runs

section Positions

theorem drop_finRange (t : Fin w) :
    (List.finRange w).drop t = t :: (List.finRange w).drop (t + 1) := by
  have ht : t.val < (List.finRange w).length := by simp
  rw [List.drop_eq_getElem_cons ht, List.getElem_finRange]
  rfl

theorem val_of_getElem?_finRange {n : Nat} {t : Fin w}
    (h : (List.finRange w)[n]? = some t) : t.val = n := by
  obtain ⟨_, hget⟩ := List.getElem?_eq_some_iff.mp h
  rw [← hget, List.getElem_finRange]
  rfl

/-- A suffix of all tokens is known from its first one. -/
theorem cons_suffix_finRange_iff {t : Fin w} {rest : List (Fin w)} :
    t :: rest <:+ List.finRange w ↔
      rest = (List.finRange w).drop (t + 1) := by
  constructor
  · rintro ⟨before, hbefore⟩
    have hget : (List.finRange w)[before.length]? = some t := by
      rw [← hbefore]
      simp
    rw [val_of_getElem?_finRange hget, ← hbefore,
      List.drop_append, List.drop_eq_nil_of_le (by omega)]
    simp
  · rintro rfl
    rw [← drop_finRange]
    exact List.drop_suffix _ _

variable (tokenLevelRewards : Fin b → Fin w → F)
  (responseMask : Fin b → Fin w → Bool) (gamma : F) (i : Fin b)

theorem returns_finRange (t : Fin w) :
    (returnLoop tokenLevelRewards responseMask gamma
      (List.finRange w)).returns i t = tokenLevelRewards i t + gamma * carried
        tokenLevelRewards responseMask gamma i
          ((List.finRange w).drop (t + 1)) := by
  have hsplit : List.finRange w = (List.finRange w).take t ++
      t :: (List.finRange w).drop (t + 1) := by
    rw [← drop_finRange, List.take_append_drop]
  conv_lhs => rw [hsplit]
  apply returns_returnLoop
  rw [← hsplit]
  exact List.nodup_finRange w

/-- Row `i` gets its compacted returns exactly if nothing is lost where a
trained token is followed by another one. -/
theorem row_reached_iff :
    (∀ t, responseMask i t → (returnLoop tokenLevelRewards responseMask gamma
      (List.finRange w)).returns i t =
        compactedReturn tokenLevelRewards responseMask gamma i t) ↔
    ∀ t t' : Fin w, t'.val = t.val + 1 → responseMask i t →
      ¬ responseMask i t' → gamma = 0 ∨
        compactedReturn tokenLevelRewards responseMask gamma i t' = 0 := by
  have hreaches : (∀ t, responseMask i t →
      (returnLoop tokenLevelRewards responseMask gamma
        (List.finRange w)).returns i t =
          compactedReturn tokenLevelRewards responseMask gamma i t) ↔
      Reaches tokenLevelRewards responseMask gamma i (List.finRange w) := by
    simp only [Reaches, returns_finRange, compactedReturn, drop_finRange,
      cons_suffix_finRange_iff, forall_eq]
  have hcut : NothingCut tokenLevelRewards responseMask gamma i
      (List.finRange w) ↔
      ∀ t t' : Fin w, t'.val = t.val + 1 → responseMask i t →
        ¬ responseMask i t' → gamma = 0 ∨
          compactedReturn tokenLevelRewards responseMask gamma i t' = 0 := by
    constructor
    · intro h t t' hnext ht ht'
      refine h t t' ((List.finRange w).drop (t' + 1)) ?_ ht ht' |>.imp_right ?_
      · rw [cons_suffix_finRange_iff, ← drop_finRange, hnext]
      · intro hzero
        rw [compactedReturn, drop_finRange]
        exact hzero
    · intro h t t' rest hsuffix ht ht'
      have hrest : t' :: rest <:+ List.finRange w :=
        (List.suffix_cons t _).trans hsuffix
      have hdrop := cons_suffix_finRange_iff.mp hsuffix
      have hnext : t'.val = t.val + 1 := by
        apply val_of_getElem?_finRange
        rw [← List.head?_drop, ← hdrop]
        rfl
      have hlost := h t t' hnext ht ht'
      rw [compactedReturn, hnext, ← hdrop] at hlost
      exact hlost
  rw [hreaches, reaches_iff_nothingCut, hcut]

end Positions

section Claimed

variable [CharZero F] [DecidableEq F] (rsqrt : F → F)
  (tokenLevelRewards : Fin b → Fin w → F)
  (responseMask : Fin b → Fin w → Bool) (gamma : F)

omit [CharZero F] [DecidableEq F] in
theorem maskSum_eq_card :
    Gae.maskSum F responseMask = ((trainedTokens responseMask).card : F) := by
  rw [Gae.maskSum, trainedTokens, ← Finset.sum_product', Finset.card_filter,
    Nat.cast_sum]
  apply Finset.sum_congr rfl
  intro p _
  simp [maskVal]

/-- Whitening wants at least two tokens. -/
theorem exists_maskedWhiten_iff (values : Fin b → Fin w → F) :
    (∃ whitened, Gae.maskedWhiten rsqrt values responseMask = .ok whitened) ↔
      2 ≤ (trainedTokens responseMask).card := by
  have hzero : Gae.maskSum F responseMask = 0 ↔
      (trainedTokens responseMask).card = 0 := by
    rw [maskSum_eq_card, Nat.cast_eq_zero]
  have hone : Gae.maskSum F responseMask = 1 ↔
      (trainedTokens responseMask).card = 1 := by
    rw [maskSum_eq_card, Nat.cast_eq_one]
  constructor
  · rintro ⟨whitened, h⟩
    obtain ⟨var, hvar, -⟩ := bind_eq_ok.mp h
    dsimp only [Gae.maskedVar] at hvar
    split_ifs at hvar with h0 h1
    rw [hzero] at h0
    rw [hone] at h1
    omega
  · intro hcard
    simp only [Gae.maskedWhiten, Gae.maskedVar]
    rw [if_neg (by rw [hzero]; omega), if_neg (by rw [hone]; omega)]
    exact ⟨_, rfl⟩

theorem compute_eq_ok_iff {returns : Fin b → Fin w → F} :
    (∃ advantages, computeReinforcePlusPlusOutcomeAdvantage rsqrt
      tokenLevelRewards responseMask (some ⟨gamma⟩) =
        .ok (advantages, returns)) ↔
      2 ≤ (trainedTokens responseMask).card ∧
        returns = (returnLoop tokenLevelRewards responseMask gamma
          (List.finRange w)).returns := by
  rw [← exists_maskedWhiten_iff rsqrt responseMask (returnLoop
    tokenLevelRewards responseMask gamma (List.finRange w)).returns]
  constructor
  · rintro ⟨advantages, h⟩
    obtain ⟨whitened, hwhitened, hret⟩ := bind_eq_ok.mp h
    cases hret
    exact ⟨⟨whitened, hwhitened⟩, rfl⟩
  · rintro ⟨⟨whitened, hwhitened⟩, rfl⟩
    exact ⟨_, bind_eq_ok.mpr ⟨whitened, hwhitened, rfl⟩⟩

/-- The function returns, and every trained token gets the return of the
compacted row from it on, exactly if there are two trained tokens in the batch
and every compacted return is 0 that would have to cross the step from a
trained token to one that is not. -/
theorem reinforcePlusPlus_reaches_iff :
    (∃ advantages returns, computeReinforcePlusPlusOutcomeAdvantage rsqrt
        tokenLevelRewards responseMask (some ⟨gamma⟩) =
          .ok (advantages, returns) ∧
      ∀ i t, responseMask i t → returns i t =
        compactedReturn tokenLevelRewards responseMask gamma i t) ↔
    2 ≤ (trainedTokens responseMask).card ∧
      ∀ (i : Fin b) (t t' : Fin w), t'.val = t.val + 1 → responseMask i t →
        ¬ responseMask i t' → gamma = 0 ∨
          compactedReturn tokenLevelRewards responseMask gamma i t' = 0 := by
  constructor
  · rintro ⟨advantages, returns, hcompute, hreturns⟩
    obtain ⟨hcard, rfl⟩ := (compute_eq_ok_iff rsqrt tokenLevelRewards
      responseMask gamma).mp ⟨advantages, hcompute⟩
    exact ⟨hcard, fun i => (row_reached_iff tokenLevelRewards responseMask
      gamma i).mp (hreturns i)⟩
  · rintro ⟨hcard, hcut⟩
    obtain ⟨advantages, hcompute⟩ := (compute_eq_ok_iff rsqrt
      tokenLevelRewards responseMask gamma).mpr ⟨hcard, rfl⟩
    exact ⟨advantages, _, hcompute, fun i => (row_reached_iff
      tokenLevelRewards responseMask gamma i).mpr (hcut i)⟩

end Claimed

/-- One turn, with the reward on its last token. -/
def oneTurnRewards : Fin 1 → Fin 3 → ℚ := fun _ t => if t.val = 1 then 1 else 0

def oneTurnMask : Fin 1 → Fin 3 → Bool := fun _ t => t.val < 2

theorem reinforcePlusPlus_reaches_one_turn :
    ∃ advantages returns, computeReinforcePlusPlusOutcomeAdvantage id
        oneTurnRewards oneTurnMask (some ⟨1⟩) = .ok (advantages, returns) ∧
      ∀ i t, oneTurnMask i t → returns i t =
        compactedReturn oneTurnRewards oneTurnMask 1 i t :=
  (reinforcePlusPlus_reaches_iff id oneTurnRewards oneTurnMask 1).mpr
    ⟨by decide +kernel, by decide +kernel⟩

/-- Two turns with a user turn between them: the reward on the second one does
not reach the first. -/
def twoTurnRewards : Fin 1 → Fin 3 → ℚ := fun _ t => if t = 2 then 1 else 0

def twoTurnMask : Fin 1 → Fin 3 → Bool := fun _ t => t != 1

theorem not_reinforcePlusPlus_reaches :
    (∀ i t, ¬ twoTurnMask i t → twoTurnRewards i t = 0) ∧
    ∀ rsqrt : ℚ → ℚ, ∃ advantages returns,
      computeReinforcePlusPlusOutcomeAdvantage rsqrt twoTurnRewards
        twoTurnMask (some ⟨1⟩) = .ok (advantages, returns) ∧
      twoTurnMask 0 0 ∧ returns 0 0 = 0 ∧
      compactedReturn twoTurnRewards twoTurnMask 1 0 0 = 1 := by
  constructor
  · decide +kernel
  · intro rsqrt
    obtain ⟨advantages, hcompute⟩ := (compute_eq_ok_iff rsqrt twoTurnRewards
      twoTurnMask 1).mpr ⟨by decide +kernel, rfl⟩
    exact ⟨advantages, _, hcompute, by decide, by decide +kernel,
      by decide +kernel⟩

end ReinforcePlusPlus

end SelfDistillation
