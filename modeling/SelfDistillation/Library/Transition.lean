/-
Systems driven by a list of actions: runs, the states they reach, the rule
that carries an invariant along a run, and the rule for simulations.
-/
import Mathlib

namespace Transition

universe u v w

/-- What each action does to a state; `none` where it is not enabled. -/
structure System (σ : Type u) (κ : Type v) where
  initial : σ
  step : σ → κ → Option σ

namespace System

variable {σ : Type u} {κ : Type v} {σ' : Type w}

/-- The state a list of actions leads to. -/
def exec (system : System σ κ) (s : σ) : List κ → Option σ
  | [] => some s
  | a :: as => (system.step s a).bind fun s' => system.exec s' as

/-- Every action of the run meets the guard in the state it is taken in. -/
def Guarded (system : System σ κ) (guard : σ → κ → Prop) (s : σ) :
    List κ → Prop
  | [] => True
  | a :: as => guard s a ∧
      ∀ s', system.step s a = some s' → system.Guarded guard s' as

variable {system : System σ κ}

theorem exec_cons_eq_some {s t : σ} {a : κ} {as : List κ} :
    system.exec s (a :: as) = some t ↔
      ∃ s', system.step s a = some s' ∧ system.exec s' as = some t := by
  simp only [exec, Option.bind_eq_some_iff]

theorem guarded_cons_of_some {guard : σ → κ → Prop} {s s' : σ} {a : κ}
    {as : List κ} (h : system.step s a = some s') :
    system.Guarded guard s (a :: as) ↔
      guard s a ∧ system.Guarded guard s' as := by
  simp [Guarded, h]

theorem guarded_cons_of_none {guard : σ → κ → Prop} {s : σ} {a : κ}
    {as : List κ} (h : system.step s a = none) :
    system.Guarded guard s (a :: as) ↔ guard s a := by
  simp [Guarded, h]

/-- Guards are checked by running the actions. -/
instance decidableGuarded {guard : σ → κ → Prop}
    [∀ s a, Decidable (guard s a)] :
    ∀ (s : σ) (as : List κ), Decidable (system.Guarded guard s as)
  | _, [] => isTrue trivial
  | s, a :: as =>
      match h : system.step s a with
      | none => decidable_of_iff _ (guarded_cons_of_none h).symm
      | some s' =>
          have : Decidable (system.Guarded guard s' as) :=
            decidableGuarded s' as
          decidable_of_iff _ (guarded_cons_of_some h).symm

/-- A run goes on by one step. -/
theorem exec_append_singleton {s t u : σ} {actions : List κ} {a : κ}
    (hrun : system.exec s actions = some t) (hstep : system.step t a = some u) :
    system.exec s (actions ++ [a]) = some u := by
  induction actions generalizing s with
  | nil =>
      cases hrun
      exact exec_cons_eq_some.mpr ⟨u, hstep, rfl⟩
  | cons b actions ih =>
      obtain ⟨s', hs', hrest⟩ := exec_cons_eq_some.mp hrun
      exact exec_cons_eq_some.mpr ⟨s', hs', ih hrest⟩

/-- A property that every guarded step keeps holds at the end of every
guarded run. -/
theorem invariant_of_guarded {guard : σ → κ → Prop} {P : σ → Prop}
    (hstep : ∀ s a s', P s → guard s a → system.step s a = some s' → P s')
    {s t : σ} {actions : List κ} (hs : P s)
    (hguarded : system.Guarded guard s actions)
    (hrun : system.exec s actions = some t) : P t := by
  induction actions generalizing s with
  | nil =>
      cases hrun
      exact hs
  | cons a actions ih =>
      obtain ⟨s', hs', hrest⟩ := exec_cons_eq_some.mp hrun
      obtain ⟨hguard, hlater⟩ := hguarded
      exact ih (hstep s a s' hs hguard hs') (hlater s' hs') hrest

/-- The same for a property of the state and of the actions before it. -/
theorem invariant_of_guarded_history {guard : σ → κ → Prop}
    {P : List κ → σ → Prop}
    (hstep : ∀ done s a s', P done s → guard s a → system.step s a = some s' →
      P (done ++ [a]) s')
    {s t : σ} {done actions : List κ} (hs : P done s)
    (hguarded : system.Guarded guard s actions)
    (hrun : system.exec s actions = some t) : P (done ++ actions) t := by
  induction actions generalizing s done with
  | nil =>
      cases hrun
      rw [List.append_nil]
      exact hs
  | cons a actions ih =>
      obtain ⟨s', hs', hrest⟩ := exec_cons_eq_some.mp hrun
      obtain ⟨hguard, hlater⟩ := hguarded
      have hnext := ih (hstep done s a s' hs hguard hs') (hlater s' hs') hrest
      rwa [List.append_assoc, List.singleton_append] at hnext

/-- A property that no step can repair held all along. -/
theorem backward {P : σ → Prop}
    (hstep : ∀ s a s', system.step s a = some s' → P s' → P s)
    {s t : σ} {actions : List κ} (hrun : system.exec s actions = some t)
    (ht : P t) : P s := by
  induction actions generalizing s with
  | nil =>
      cases hrun
      exact ht
  | cons a actions ih =>
      obtain ⟨s', hs', hrest⟩ := exec_cons_eq_some.mp hrun
      exact hstep s a s' hs' (ih hrest)

/-- Where exactly the guarded steps keep a property that no step can repair,
it holds at the end exactly of the guarded runs. -/
theorem iff_guarded {guard : σ → κ → Prop} {I P : σ → Prop}
    (hI : ∀ s, I s → P s)
    (hguard : ∀ s a s', I s → guard s a → system.step s a = some s' → I s')
    (hviolated : ∀ s a s', I s → system.step s a = some s' → P s' →
      guard s a)
    (hrepair : ∀ s a s', system.step s a = some s' → P s' → P s)
    {s t : σ} {actions : List κ} (hs : I s)
    (hrun : system.exec s actions = some t) :
    P t ↔ system.Guarded guard s actions := by
  constructor
  · intro ht
    induction actions generalizing s with
    | nil => trivial
    | cons a actions ih =>
        obtain ⟨s', hs', hrest⟩ := exec_cons_eq_some.mp hrun
        have hg := hviolated s a s' hs hs' (backward hrepair hrest ht)
        exact (guarded_cons_of_some hs').mpr
          ⟨hg, ih (hguard s a s' hs hg hs') hrest⟩
  · exact fun hguarded =>
      hI t (invariant_of_guarded hguard hs hguarded hrun)

/-- Each guarded step of one system is matched by a step of the other. -/
theorem simulation_of_guarded {guard : σ → κ → Prop}
    {abstract : System σ' κ} {R : σ → σ' → Prop}
    (hstep : ∀ s a s' t, R s t → guard s a → system.step s a = some s' →
      ∃ t', abstract.step t a = some t' ∧ R s' t')
    {s s' : σ} {t : σ'} {actions : List κ} (hs : R s t)
    (hguarded : system.Guarded guard s actions)
    (hrun : system.exec s actions = some s') :
    ∃ t', abstract.exec t actions = some t' ∧ R s' t' := by
  induction actions generalizing s t with
  | nil =>
      cases hrun
      exact ⟨t, rfl, hs⟩
  | cons a actions ih =>
      obtain ⟨next, hnext, hrest⟩ := exec_cons_eq_some.mp hrun
      obtain ⟨hguard, hlater⟩ := hguarded
      obtain ⟨t', ht', hR⟩ := hstep s a next t hs hguard hnext
      obtain ⟨last, hlast, hlastR⟩ := ih hR (hlater next hnext) hrest
      exact ⟨last, exec_cons_eq_some.mpr ⟨t', ht', hlast⟩, hlastR⟩

/-- A run without a guard. -/
theorem guarded_true (s : σ) (actions : List κ) :
    system.Guarded (fun _ _ => True) s actions := by
  induction actions generalizing s with
  | nil => trivial
  | cons a actions ih => exact ⟨trivial, fun s' _ => ih s'⟩

/-- Each step of one system is matched by a step of the other. -/
theorem simulation {abstract : System σ' κ} {R : σ → σ' → Prop}
    (hstep : ∀ s a s' t, R s t → system.step s a = some s' →
      ∃ t', abstract.step t a = some t' ∧ R s' t')
    {s s' : σ} {t : σ'} {actions : List κ} (hs : R s t)
    (hrun : system.exec s actions = some s') :
    ∃ t', abstract.exec t actions = some t' ∧ R s' t' :=
  simulation_of_guarded (fun s a s' t hR _ => hstep s a s' t hR) hs
    (guarded_true s actions) hrun

/-- A property that every step keeps holds at the end of every run. -/
theorem invariant {P : σ → Prop}
    (hstep : ∀ s a s', P s → system.step s a = some s' → P s')
    {s t : σ} {actions : List κ} (hs : P s)
    (hrun : system.exec s actions = some t) : P t :=
  invariant_of_guarded (fun s a s' hP _ => hstep s a s' hP) hs
    (guarded_true s actions) hrun

/-- Steps that count something down are at most as many as it was. -/
theorem length_add_le {P : σ → Prop} {work : σ → Nat}
    (hstep : ∀ s a s', P s → system.step s a = some s' →
      P s' ∧ work s' < work s)
    {s t : σ} {actions : List κ} (hs : P s)
    (hrun : system.exec s actions = some t) :
    actions.length + work t ≤ work s := by
  induction actions generalizing s with
  | nil =>
      cases hrun
      exact (Nat.zero_add _).le
  | cons a actions ih =>
      obtain ⟨s', hs', hrest⟩ := exec_cons_eq_some.mp hrun
      obtain ⟨hP, hlt⟩ := hstep s a s' hs hs'
      have hle := ih hP hrest
      rw [List.length_cons]
      omega

/-- When every step counts something down, some run cannot go on. -/
theorem exists_stuck {P : σ → Prop} {work : σ → Nat}
    (hstep : ∀ s a s', P s → system.step s a = some s' →
      P s' ∧ work s' < work s) {s : σ} (hs : P s) :
    ∃ actions t, system.exec s actions = some t ∧
      ∀ a, system.step t a = none := by
  induction hn : work s using Nat.strong_induction_on generalizing s with
  | h n ih =>
      by_cases hstuck : ∀ a, system.step s a = none
      · exact ⟨[], s, rfl, hstuck⟩
      · rw [not_forall] at hstuck
        obtain ⟨a, ha⟩ := hstuck
        obtain ⟨s', hs'⟩ := Option.ne_none_iff_exists'.mp ha
        obtain ⟨hP, hlt⟩ := hstep s a s' hs hs'
        obtain ⟨actions, t, hrun, ht⟩ := ih _ (hn ▸ hlt) hP rfl
        exact ⟨a :: actions, t, exec_cons_eq_some.mpr ⟨s', hs', hrun⟩, ht⟩

/-- A run of a system in which every action is enabled. -/
theorem exec_eq_foldl {f : σ → κ → σ}
    (hstep : ∀ s a, system.step s a = some (f s a)) (s : σ)
    (actions : List κ) : system.exec s actions = some (actions.foldl f s) := by
  induction actions generalizing s with
  | nil => rfl
  | cons a actions ih =>
      rw [exec, hstep, Option.bind_some, ih, List.foldl_cons]

end System

/-- What one party does changes a total by its own part. -/
theorem sum_update_add {ι : Type u} {τ : Type v} [DecidableEq ι]
    {parties : Finset ι} {i : ι} (hi : i ∈ parties) (work : ι → τ → Nat)
    (s : ι → τ) (x : τ) :
    ∑ j ∈ parties, work j (Function.update s i x j) + work i (s i) =
      ∑ j ∈ parties, work j (s j) + work i x := by
  rw [← Finset.sum_erase_add _ _ hi, ← Finset.sum_erase_add _ _ hi,
    Function.update_self]
  have hrest : ∑ j ∈ parties.erase i, work j (Function.update s i x j) =
      ∑ j ∈ parties.erase i, work j (s j) := by
    apply Finset.sum_congr rfl
    intro j hj
    rw [Function.update_of_ne (Finset.ne_of_mem_erase hj)]
  omega

end Transition
