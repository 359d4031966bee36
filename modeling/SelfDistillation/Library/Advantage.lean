/-
Generalized advantage estimation over one finite episode: the exponentially
weighted sum of its temporal differences, and the backward recursion it meets;
the discounted return of its rewards.
-/
import Mathlib

namespace Advantage

universe u

variable {R : Type u} [CommRing R]

/-- A step of an episode: the reward it earned and the value of its state. -/
structure Step (R : Type u) where
  reward : R
  value : R

/-- The reward of step `t`; past the end there is none. -/
def rewardAt (episode : List (Step R)) (t : Nat) : R :=
  (episode[t]?.map Step.reward).getD 0

/-- The value of the state at step `t`; past the end it is 0. -/
def valueAt (episode : List (Step R)) (t : Nat) : R :=
  (episode[t]?.map Step.value).getD 0

/-- `δ_t = r_t + γ V_{t+1} - V_t` -/
def tdError (gamma : R) (episode : List (Step R)) (t : Nat) : R :=
  rewardAt episode t + gamma * valueAt episode (t + 1) - valueAt episode t

/-- `A_t = Σ_l (γλ)^l δ_{t+l}`, up to the end of the episode. -/
def advantage (gamma lam : R) (episode : List (Step R)) (t : Nat) : R :=
  ∑ l ∈ Finset.range (episode.length - t),
    (gamma * lam) ^ l * tdError gamma episode (t + l)

/-- The advantage of every step. -/
def advantages (gamma lam : R) (episode : List (Step R)) : List R :=
  (List.range episode.length).map (advantage gamma lam episode)

/-- The return of every step, `A_t + V_t`. -/
def returns (gamma lam : R) (episode : List (Step R)) : List R :=
  (List.range episode.length).map fun t =>
    advantage gamma lam episode t + valueAt episode t

variable (gamma lam : R) (step : Step R) (episode : List (Step R))

@[simp] theorem valueAt_nil (t : Nat) : valueAt ([] : List (Step R)) t = 0 :=
  rfl

@[simp] theorem valueAt_cons_zero :
    valueAt (step :: episode) 0 = step.value := rfl

@[simp] theorem valueAt_cons_succ (t : Nat) :
    valueAt (step :: episode) (t + 1) = valueAt episode t := rfl

@[simp] theorem advantage_nil (t : Nat) :
    advantage gamma lam ([] : List (Step R)) t = 0 := by
  simp [advantage]

theorem tdError_cons_zero :
    tdError gamma (step :: episode) 0 =
      step.reward + gamma * valueAt episode 0 - step.value := rfl

theorem tdError_cons_succ (t : Nat) :
    tdError gamma (step :: episode) (t + 1) = tdError gamma episode t := rfl

/-- A step in front does not change the advantages behind it. -/
theorem advantage_cons_succ (t : Nat) :
    advantage gamma lam (step :: episode) (t + 1) =
      advantage gamma lam episode t := by
  unfold advantage
  rw [List.length_cons, Nat.add_sub_add_right]
  apply Finset.sum_congr rfl
  intro l _
  rw [Nat.add_right_comm, tdError_cons_succ]

/-- `A_0 = δ_0 + γλ A_1` -/
theorem advantage_cons_zero :
    advantage gamma lam (step :: episode) 0 =
      tdError gamma (step :: episode) 0 +
        gamma * lam * advantage gamma lam episode 0 := by
  have hrest : ∀ l, (gamma * lam) ^ (l + 1) *
      tdError gamma (step :: episode) (0 + (l + 1)) =
        gamma * lam * ((gamma * lam) ^ l * tdError gamma episode (0 + l)) := by
    intro l
    rw [← Nat.add_assoc, tdError_cons_succ, pow_succ]
    ring
  unfold advantage
  rw [List.length_cons, Nat.sub_zero, Finset.sum_range_succ', pow_zero,
    one_mul, Finset.mul_sum, Nat.sub_zero, add_comm]
  apply congrArg
  exact Finset.sum_congr rfl fun l _ => hrest l

theorem advantages_cons :
    advantages gamma lam (step :: episode) =
      advantage gamma lam (step :: episode) 0 ::
        advantages gamma lam episode := by
  unfold advantages
  rw [List.length_cons, List.range_succ_eq_map, List.map_cons, List.map_map]
  apply congrArg
  apply List.map_congr_left
  intro t _
  exact advantage_cons_succ gamma lam step episode t

theorem returns_cons :
    returns gamma lam (step :: episode) =
      (advantage gamma lam (step :: episode) 0 + step.value) ::
        returns gamma lam episode := by
  unfold returns
  rw [List.length_cons, List.range_succ_eq_map, List.map_cons, List.map_map]
  apply congrArg
  apply List.map_congr_left
  intro t _
  rw [Function.comp_apply, advantage_cons_succ, valueAt_cons_succ]

/-- The returns are the advantages with the values added. -/
theorem returns_eq_zipWith :
    returns gamma lam episode = List.zipWith (· + ·)
      (advantages gamma lam episode) (episode.map Step.value) := by
  induction episode with
  | nil => rfl
  | cons step episode ih =>
      rw [returns_cons, advantages_cons, List.map_cons, List.zipWith_cons_cons,
        ih]

section Discounted

variable (gamma reward : R) (rewards : List R)

/-- `Σ_k γ^k r_k`, the discounted return of a sequence of rewards. -/
def discounted (gamma : R) (rewards : List R) : R :=
  ∑ k ∈ Finset.range rewards.length, gamma ^ k * rewards.getD k 0

@[simp] theorem discounted_nil : discounted gamma [] = 0 := by
  simp [discounted]

theorem discounted_cons :
    discounted gamma (reward :: rewards) =
      reward + gamma * discounted gamma rewards := by
  have hrest : ∀ k, gamma ^ (k + 1) * (reward :: rewards).getD (k + 1) 0 =
      gamma * (gamma ^ k * rewards.getD k 0) := by
    intro k
    rw [List.getD_cons_succ, pow_succ]
    ring
  unfold discounted
  rw [List.length_cons, Finset.sum_range_succ', pow_zero, one_mul,
    List.getD_cons_zero, Finset.mul_sum, add_comm]
  apply congrArg
  exact Finset.sum_congr rfl fun k _ => hrest k

end Discounted

end Advantage
