/-
Parameter versions and checkpoints of `FullyAsyncTrainer`
(verl/experimental/fully_async_policy/fully_async_trainer.py): which version a
training step ends with, when the weights are synced, and which versions are
saved.
-/
import SelfDistillation.Python

namespace SelfDistillation

/-- The settings the counters depend on; the rollouter checks
`trigger_parameter_sync_step`. -/
structure VersionConfig where
  triggerParameterSyncStep : Nat
  saveFreq : Int
  testFreq : Int
  trigger_pos : 1 ≤ triggerParameterSyncStep

/-- The counters of the trainer, the versions it synced to the rollouter and
those it saved, in order. -/
structure VersionState where
  globalSteps : Nat
  currentParamVersion : Nat
  localTriggerStep : Nat
  lastCkptVersion : Nat
  syncs : List Nat
  checkpoints : List Nat
deriving DecidableEq

namespace VersionState

/-- The state after `load_checkpoint`: resumed at a version, or at version 0
without a checkpoint. -/
def loadCheckpoint (cfg : VersionConfig) : Option Nat → VersionState
  | none => ⟨0, 0, 1, 0, [], []⟩
  | some version =>
      ⟨version * cfg.triggerParameterSyncStep + 1, version, 1, version, [], []⟩

/-- `_fit_update_local_step` -/
def fitUpdateLocalStep (cfg : VersionConfig) (s : VersionState) :
    VersionState :=
  if s.localTriggerStep < cfg.triggerParameterSyncStep then
    { s with localTriggerStep := s.localTriggerStep + 1 }
  else { s with
    currentParamVersion := s.currentParamVersion + 1
    localTriggerStep := 1 }

/-- `_fit_update_weights` -/
def fitUpdateWeights (s : VersionState) : VersionState :=
  if s.localTriggerStep ≠ 1 then s
  else { s with syncs := s.syncs ++ [s.currentParamVersion] }

/-- `_fit_save_checkpoint`, with the answer of `should_save_ckpt_esi`. -/
def fitSaveCheckpoint (cfg : VersionConfig) (force esiCloseToExpiration : Bool)
    (s : VersionState) : VersionState :=
  if s.currentParamVersion = s.lastCkptVersion then s
  else if cfg.saveFreq > 0 ∧
      (force = true ∧ (s.currentParamVersion : Int) % cfg.saveFreq = 0 ∨
        esiCloseToExpiration = true) then
    { s with
      checkpoints := s.checkpoints ++ [s.currentParamVersion]
      lastCkptVersion := s.currentParamVersion }
  else s

/-- `fit_step` once it has a batch. -/
def fitStep (cfg : VersionConfig) (s : VersionState)
    (esiCloseToExpiration : Bool) : VersionState :=
  let s := fitUpdateWeights (fitUpdateLocalStep cfg s)
  let s := fitSaveCheckpoint cfg false esiCloseToExpiration s
  { s with globalSteps := s.globalSteps + 1 }

/-- The loop of `fit`, with the answer of `should_save_ckpt_esi` in every step
before the one that is stopped. -/
def fitSteps (cfg : VersionConfig) (s : VersionState) (esi : List Bool) :
    VersionState :=
  esi.foldl (fitStep cfg) { s with globalSteps := s.globalSteps + 1 }

/-- `fit` -/
def fit (cfg : VersionConfig) (s : VersionState) (esi : List Bool)
    (esiAtEnd : Bool) : Py VersionState := do
  let s := fitSteps cfg s esi
  let overdue ← floorMod s.currentParamVersion cfg.testFreq
  let s := if overdue ≠ 0 ∨ s.localTriggerStep > 1 then fitUpdateWeights s
    else s
  return fitSaveCheckpoint cfg true esiAtEnd s

/-- The version the trainer starts from. -/
def startVersion (resumed : Option Nat) : Nat := resumed.getD 0

/-- The version a step ends with. -/
def versionAt (cfg : VersionConfig) (start steps : Nat) : Nat :=
  start + steps / cfg.triggerParameterSyncStep

/-- The capacity was reported to expire in a step that ended with the
version. -/
def Expiring (cfg : VersionConfig) (start : Nat) (esi : List Bool)
    (version : Nat) : Prop :=
  ∃ k, esi[k]? = some true ∧ version = versionAt cfg start (k + 1)

/-- The counters after some steps. -/
structure Counted (cfg : VersionConfig) (start steps : Nat)
    (s : VersionState) : Prop where
  version : s.currentParamVersion = versionAt cfg start steps
  localStep : s.localTriggerStep = steps % cfg.triggerParameterSyncStep + 1
  syncs : s.currentParamVersion = start + s.syncs.length

/-- The versions saved since the start are those with the property, each of
them once. -/
structure Saved (start : Nat) (P : Nat → Prop) (s : VersionState) : Prop where
  last_le : s.lastCkptVersion ≤ s.currentParamVersion
  start_le : start ≤ s.lastCkptVersion
  le_last : ∀ v ∈ s.checkpoints, v ≤ s.lastCkptVersion
  last_mem : start < s.lastCkptVersion → s.lastCkptVersion ∈ s.checkpoints
  mem_iff : ∀ v, v ∈ s.checkpoints ↔ start < v ∧ P v
  nodup : s.checkpoints.Nodup

theorem expiring_append {cfg : VersionConfig} {start : Nat}
    {esi : List Bool} {e : Bool} {v : Nat} :
    Expiring cfg start (esi ++ [e]) v ↔ Expiring cfg start esi v ∨
      e = true ∧ v = versionAt cfg start (esi.length + 1) := by
  constructor
  · rintro ⟨k, hk, hv⟩
    rcases Nat.lt_trichotomy k esi.length with hlt | rfl | hgt
    · rw [List.getElem?_append_left hlt] at hk
      exact .inl ⟨k, hk, hv⟩
    · simp only [List.getElem?_concat_length, Option.some.injEq] at hk
      exact .inr ⟨hk, hv⟩
    · rw [List.getElem?_eq_none (by simp; omega)] at hk
      cases hk
  · rintro (⟨k, hk, hv⟩ | ⟨rfl, hv⟩)
    · refine ⟨k, ?_, hv⟩
      rw [List.getElem?_append_left (List.getElem?_eq_some_iff.mp hk).1]
      exact hk
    · exact ⟨esi.length, by simp, hv⟩

/-- One more local step, or one more version. -/
theorem succ_div_mod {t : Nat} (ht : 0 < t) (n : Nat) :
    (n % t + 1 < t ∧ (n + 1) / t = n / t ∧ (n + 1) % t = n % t + 1) ∨
      (n % t + 1 = t ∧ (n + 1) / t = n / t + 1 ∧ (n + 1) % t = 0) := by
  have hmod := Nat.mod_lt n ht
  have hsplit := Nat.div_add_mod n t
  rcases Nat.lt_or_ge (n % t + 1) t with hlt | hge
  · left
    have hunique := (Nat.div_mod_unique ht).mpr
      ⟨show n % t + 1 + t * (n / t) = n + 1 by omega, hlt⟩
    exact ⟨hlt, hunique⟩
  · right
    have hfull : n % t + 1 = t := by omega
    have hunique := (Nat.div_mod_unique ht).mpr
      ⟨show 0 + t * (n / t + 1) = n + 1 by
        rw [Nat.mul_add]
        omega, ht⟩
    exact ⟨hfull, hunique⟩

section Steps

variable {cfg : VersionConfig} {start steps : Nat} {esi : List Bool}
  {P : Nat → Prop} {s : VersionState}

/-- The counters after the updates of a step; nothing is saved by them. -/
theorem Counted.update (h : Counted cfg start steps s) :
    Counted cfg start (steps + 1)
        (fitUpdateWeights (fitUpdateLocalStep cfg s)) ∧
      (fitUpdateWeights (fitUpdateLocalStep cfg s)).lastCkptVersion =
        s.lastCkptVersion ∧
      (fitUpdateWeights (fitUpdateLocalStep cfg s)).checkpoints =
        s.checkpoints := by
  rcases succ_div_mod cfg.trigger_pos steps with
    ⟨hlt, hdiv, hmod⟩ | ⟨hfull, hdiv, hmod⟩
  · have hstep : fitUpdateWeights (fitUpdateLocalStep cfg s) =
        { s with localTriggerStep := s.localTriggerStep + 1 } := by
      have hlocal : s.localTriggerStep < cfg.triggerParameterSyncStep := by
        rw [h.localStep]
        exact hlt
      have hne : s.localTriggerStep + 1 ≠ 1 := by
        rw [h.localStep]
        omega
      rw [fitUpdateLocalStep, if_pos hlocal, fitUpdateWeights, if_pos hne]
    rw [hstep]
    refine ⟨⟨?_, ?_, h.syncs⟩, rfl, rfl⟩
    · rw [versionAt, hdiv]
      exact h.version
    · rw [hmod, h.localStep]
  · have hstep : fitUpdateWeights (fitUpdateLocalStep cfg s) = { s with
        currentParamVersion := s.currentParamVersion + 1
        localTriggerStep := 1
        syncs := s.syncs ++ [s.currentParamVersion + 1] } := by
      have hlocal : ¬ s.localTriggerStep < cfg.triggerParameterSyncStep := by
        rw [h.localStep]
        omega
      rw [fitUpdateLocalStep, if_neg hlocal, fitUpdateWeights,
        if_neg (by simp)]
    rw [hstep]
    refine ⟨⟨?_, ?_, ?_⟩, rfl, rfl⟩
    · rw [versionAt, hdiv, ← Nat.add_assoc]
      exact congrArg (· + 1) h.version
    · rw [hmod]
    · rw [List.length_append, List.length_singleton, ← Nat.add_assoc]
      exact congrArg (· + 1) h.syncs

/-- A checkpoint is due: forced at a multiple of `save_freq`, or before the
capacity expires. -/
def Due (cfg : VersionConfig) (force esiCloseToExpiration : Bool)
    (version : Nat) : Prop :=
  0 < cfg.saveFreq ∧ (force = true ∧ (version : Int) % cfg.saveFreq = 0 ∨
    esiCloseToExpiration = true)

/-- Saving adds the current version when that is due, and adds it once. -/
theorem Saved.save (cfg : VersionConfig) (h : Saved start P s)
    (force e : Bool) :
    Saved start
      (fun v => P v ∨ Due cfg force e s.currentParamVersion ∧
        v = s.currentParamVersion) (fitSaveCheckpoint cfg force e s) := by
  by_cases hsame : s.currentParamVersion = s.lastCkptVersion
  · rw [fitSaveCheckpoint, if_pos hsame]
    refine { h with mem_iff := fun v => ?_ }
    rw [h.mem_iff]
    constructor
    · exact fun hv => ⟨hv.1, .inl hv.2⟩
    · rintro ⟨hstart, hP | ⟨-, rfl⟩⟩
      · exact ⟨hstart, hP⟩
      · rw [hsame] at hstart ⊢
        exact (h.mem_iff _).mp (h.last_mem hstart)
  · rw [fitSaveCheckpoint, if_neg hsame]
    have hlt : s.lastCkptVersion < s.currentParamVersion :=
      lt_of_le_of_ne h.last_le (Ne.symm hsame)
    by_cases hdue : Due cfg force e s.currentParamVersion
    · rw [if_pos (show cfg.saveFreq > 0 ∧ (_ ∨ _) from hdue)]
      have hnew : s.currentParamVersion ∉ s.checkpoints := fun hmem =>
        absurd (h.le_last _ hmem) (Nat.not_le.mpr hlt)
      refine ⟨Nat.le_refl _, h.start_le.trans hlt.le, fun v hv => ?_,
        fun _ => ?_, fun v => ?_, ?_⟩
      · rcases List.mem_append.mp hv with hold | hlast
        · exact (h.le_last v hold).trans hlt.le
        · exact (List.mem_singleton.mp hlast).le
      · simp
      · rw [List.mem_append, h.mem_iff, List.mem_singleton]
        constructor
        · rintro (⟨hstart, hP⟩ | rfl)
          · exact ⟨hstart, .inl hP⟩
          · exact ⟨h.start_le.trans_lt hlt, .inr ⟨hdue, rfl⟩⟩
        · rintro ⟨hstart, hP | ⟨-, rfl⟩⟩
          · exact .inl ⟨hstart, hP⟩
          · exact .inr rfl
      · rw [← List.concat_eq_append, List.nodup_concat]
        exact ⟨hnew, h.nodup⟩
    · rw [if_neg (show ¬ (cfg.saveFreq > 0 ∧ (_ ∨ _)) from hdue)]
      refine { h with mem_iff := fun v => ?_ }
      rw [h.mem_iff]
      constructor
      · exact fun hv => ⟨hv.1, .inl hv.2⟩
      · rintro ⟨hstart, hP | ⟨hnow, -⟩⟩
        · exact ⟨hstart, hP⟩
        · exact absurd hnow hdue

theorem fitSaveCheckpoint_counters (cfg : VersionConfig) (force e : Bool)
    (s : VersionState) :
    (fitSaveCheckpoint cfg force e s).currentParamVersion =
        s.currentParamVersion ∧
      (fitSaveCheckpoint cfg force e s).localTriggerStep =
        s.localTriggerStep ∧
      (fitSaveCheckpoint cfg force e s).syncs = s.syncs := by
  unfold fitSaveCheckpoint
  split
  · exact ⟨rfl, rfl, rfl⟩
  · split <;> exact ⟨rfl, rfl, rfl⟩

theorem Counted.of_eq {s' : VersionState} (h : Counted cfg start steps s)
    (hversion : s'.currentParamVersion = s.currentParamVersion)
    (hlocal : s'.localTriggerStep = s.localTriggerStep)
    (hsyncs : s'.syncs = s.syncs) : Counted cfg start steps s' :=
  ⟨hversion.trans h.version, hlocal.trans h.localStep, by
    rw [hversion, hsyncs]
    exact h.syncs⟩

/-- What is saved stays saved while the version grows. -/
theorem Saved.of_le {Q : Nat → Prop} {s' : VersionState} (h : Saved start P s)
    (hlast : s'.lastCkptVersion = s.lastCkptVersion)
    (hckpts : s'.checkpoints = s.checkpoints)
    (hle : s.lastCkptVersion ≤ s'.currentParamVersion)
    (hPQ : ∀ v, P v ↔ Q v) : Saved start Q s' where
  last_le := hlast ▸ hle
  start_le := hlast ▸ h.start_le
  le_last := by
    rw [hlast, hckpts]
    exact h.le_last
  last_mem := by
    rw [hlast, hckpts]
    exact h.last_mem
  mem_iff v := by rw [hckpts, h.mem_iff, hPQ]
  nodup := hckpts ▸ h.nodup

/-- The versions saved by the steps: those in which an expiry was reported. -/
def ExpirySaved (cfg : VersionConfig) (start : Nat) (esi : List Bool)
    (version : Nat) : Prop :=
  0 < cfg.saveFreq ∧ Expiring cfg start esi version

/-- A step of the trainer. -/
theorem fitStep_keeps (hcounted : Counted cfg start esi.length s)
    (hsaved : Saved start (ExpirySaved cfg start esi) s) (e : Bool) :
    Counted cfg start (esi ++ [e]).length (fitStep cfg s e) ∧
      Saved start (ExpirySaved cfg start (esi ++ [e])) (fitStep cfg s e) := by
  obtain ⟨hcounted', hlast, hckpts⟩ := hcounted.update
  have hgrow : s.lastCkptVersion ≤
      (fitUpdateWeights (fitUpdateLocalStep cfg s)).currentParamVersion := by
    refine hsaved.last_le.trans ?_
    rw [hcounted.version, hcounted'.version, versionAt, versionAt]
    exact Nat.add_le_add_left
      (Nat.div_le_div_right (Nat.le_succ esi.length)) start
  have hupdated := hsaved.of_le hlast hckpts hgrow fun _ => Iff.rfl
  rw [fitStep]
  generalize fitUpdateWeights (fitUpdateLocalStep cfg s) = s' at *
  obtain ⟨hversion, hlocal, hsyncs⟩ :=
    fitSaveCheckpoint_counters cfg false e s'
  constructor
  · rw [List.length_append, List.length_singleton]
    exact hcounted'.of_eq hversion hlocal hsyncs
  · refine (hupdated.save cfg false e).of_le rfl rfl ?_ fun v => ?_
    · exact (hupdated.save cfg false e).last_le
    · rw [ExpirySaved, ExpirySaved, expiring_append, Due, hcounted'.version]
      simp only [Bool.false_eq_true, false_and, false_or]
      tauto

/-- The counters and records after the loop of `fit`. -/
theorem fitSteps_keeps (cfg : VersionConfig) (resumed : Option Nat)
    (esi : List Bool) :
    Counted cfg (startVersion resumed) esi.length
        (fitSteps cfg (loadCheckpoint cfg resumed) esi) ∧
      Saved (startVersion resumed)
        (ExpirySaved cfg (startVersion resumed) esi)
        (fitSteps cfg (loadCheckpoint cfg resumed) esi) := by
  induction esi using List.reverseRecOn with
  | nil =>
      have hnone : ∀ v, ¬ ExpirySaved cfg (startVersion resumed) [] v := by
        rintro v ⟨-, k, hk, -⟩
        simp at hk
      cases resumed with
      | none =>
          refine ⟨⟨by simp [fitSteps, loadCheckpoint, versionAt, startVersion],
            by simp [fitSteps, loadCheckpoint], rfl⟩, Nat.le_refl _,
            Nat.le_refl _, by simp [fitSteps, loadCheckpoint],
            fun hlt => absurd hlt (Nat.lt_irrefl _), fun v => ?_,
            List.nodup_nil⟩
          simp [fitSteps, loadCheckpoint, hnone]
      | some version =>
          refine ⟨⟨by simp [fitSteps, loadCheckpoint, versionAt, startVersion],
            by simp [fitSteps, loadCheckpoint], rfl⟩, Nat.le_refl _,
            Nat.le_refl _, by simp [fitSteps, loadCheckpoint],
            fun hlt => absurd hlt (Nat.lt_irrefl _), fun v => ?_,
            List.nodup_nil⟩
          simp [fitSteps, loadCheckpoint, hnone]
  | append_singleton esi e ih =>
      have hsnoc : fitSteps cfg (loadCheckpoint cfg resumed) (esi ++ [e]) =
          fitStep cfg (fitSteps cfg (loadCheckpoint cfg resumed) esi) e := by
        simp [fitSteps, List.foldl_append]
      rw [hsnoc]
      exact fitStep_keeps ih.1 ih.2 e

theorem fitUpdateWeights_records (s : VersionState) :
    (fitUpdateWeights s).currentParamVersion = s.currentParamVersion ∧
      (fitUpdateWeights s).lastCkptVersion = s.lastCkptVersion ∧
      (fitUpdateWeights s).checkpoints = s.checkpoints := by
  unfold fitUpdateWeights
  split <;> exact ⟨rfl, rfl, rfl⟩

/-- `fit` ends with a forced save of the version its loop ended with; with a
`test_freq` of zero it raises before. -/
theorem fit_eq_ok {esiAtEnd : Bool} {final : VersionState}
    (h : fit cfg s esi esiAtEnd = .ok final) :
    cfg.testFreq ≠ 0 ∧ ∃ synced : VersionState,
      synced.currentParamVersion = (fitSteps cfg s esi).currentParamVersion ∧
      synced.lastCkptVersion = (fitSteps cfg s esi).lastCkptVersion ∧
      synced.checkpoints = (fitSteps cfg s esi).checkpoints ∧
      final = fitSaveCheckpoint cfg true esiAtEnd synced := by
  simp only [fit, bind_eq_ok, floorMod_eq_ok] at h
  obtain ⟨overdue, ⟨htest, -⟩, hfinal⟩ := h
  cases hfinal
  refine ⟨htest, _, ?_, ?_, ?_, rfl⟩
  all_goals
    have hrecords := fitUpdateWeights_records (fitSteps cfg s esi)
    split
    · simp only [hrecords]
    · rfl

theorem exists_fit_eq_ok (s : VersionState) (esi : List Bool)
    (htest : cfg.testFreq ≠ 0) (esiAtEnd : Bool) :
    ∃ final, fit cfg s esi esiAtEnd = .ok final := by
  simp only [fit, bind_eq_ok, floorMod_eq_ok]
  exact ⟨_, _, ⟨htest, rfl⟩, rfl⟩

end Steps

/-- In every step of the loop the version counts the syncs and the local step
is in its range; `fit` finishes, every version since the start that is a
multiple of `save_freq` is saved, and the last one, and none twice. -/
structure VersionsKept (cfg : VersionConfig) (resumed : Option Nat)
    (esi : List Bool) (esiAtEnd : Bool) : Prop where
  counted : ∀ k ≤ esi.length,
    let s := fitSteps cfg (loadCheckpoint cfg resumed) (esi.take k)
    s.currentParamVersion = startVersion resumed + s.syncs.length ∧
      1 ≤ s.localTriggerStep ∧
      s.localTriggerStep ≤ cfg.triggerParameterSyncStep
  finished : ∃ s,
    fit cfg (loadCheckpoint cfg resumed) esi esiAtEnd = .ok s ∧
    (∀ v, startVersion resumed < v → v ≤ s.currentParamVersion →
      (v : Int) % cfg.saveFreq = 0 → v ∈ s.checkpoints) ∧
    (startVersion resumed < s.currentParamVersion →
      s.currentParamVersion ∈ s.checkpoints) ∧
    startVersion resumed ∉ s.checkpoints ∧ s.checkpoints.Nodup

/-- The versions `fit` has saved: those in which an expiry was reported, and
the last one if it is a multiple of `save_freq`. -/
theorem mem_checkpoints_fit {cfg : VersionConfig} {resumed : Option Nat}
    {esi : List Bool} {esiAtEnd : Bool} {final : VersionState}
    (hsave : 0 < cfg.saveFreq)
    (h : fit cfg (loadCheckpoint cfg resumed) esi esiAtEnd = .ok final) :
    final.currentParamVersion =
        versionAt cfg (startVersion resumed) esi.length ∧
      (∀ v, v ∈ final.checkpoints ↔ startVersion resumed < v ∧
        (Expiring cfg (startVersion resumed) esi v ∨
          v = final.currentParamVersion ∧
            ((v : Int) % cfg.saveFreq = 0 ∨ esiAtEnd = true))) ∧
      final.checkpoints.Nodup := by
  obtain ⟨-, synced, hversion, hlast, hckpts, rfl⟩ := fit_eq_ok h
  obtain ⟨hcounted, hsaved⟩ := fitSteps_keeps cfg resumed esi
  have hfinal := (hsaved.of_le hlast hckpts (hversion ▸ hsaved.last_le)
    fun _ => Iff.rfl).save cfg true esiAtEnd
  have hsame := (fitSaveCheckpoint_counters cfg true esiAtEnd synced).1
  refine ⟨hsame.trans (hversion.trans hcounted.version), fun v => ?_,
    hfinal.nodup⟩
  rw [hfinal.mem_iff, hsame, ExpirySaved, Due]
  constructor
  · rintro ⟨hstart, ⟨-, hexpiring⟩ | ⟨⟨-, hdue⟩, rfl⟩⟩
    · exact ⟨hstart, .inl hexpiring⟩
    · exact ⟨hstart, .inr ⟨rfl, hdue.imp And.right id⟩⟩
  · rintro ⟨hstart, hexpiring | ⟨rfl, hdue⟩⟩
    · exact ⟨hstart, .inl ⟨hsave, hexpiring⟩⟩
    · exact ⟨hstart, .inr ⟨⟨hsave, hdue.imp (⟨rfl, ·⟩) id⟩, rfl⟩⟩

theorem counted_steps (cfg : VersionConfig) (resumed : Option Nat)
    (esi : List Bool) :
    (fitSteps cfg (loadCheckpoint cfg resumed) esi).currentParamVersion =
        startVersion resumed +
          (fitSteps cfg (loadCheckpoint cfg resumed) esi).syncs.length ∧
      1 ≤ (fitSteps cfg (loadCheckpoint cfg resumed) esi).localTriggerStep ∧
      (fitSteps cfg (loadCheckpoint cfg resumed) esi).localTriggerStep ≤
        cfg.triggerParameterSyncStep := by
  obtain ⟨hcounted, -⟩ := fitSteps_keeps cfg resumed esi
  have hmod := Nat.mod_lt esi.length cfg.trigger_pos
  rw [hcounted.localStep]
  exact ⟨hcounted.syncs, by omega, by omega⟩

/-- Versions and syncs are always counted right, and no version is saved
twice.  All that should be saved is saved exactly if, besides the last
version, an expiry happens to be reported in every version that is a multiple
of `save_freq`. -/
theorem versionsKept_iff (cfg : VersionConfig) (resumed : Option Nat)
    (esi : List Bool) (esiAtEnd : Bool) (hsave : 0 < cfg.saveFreq) :
    VersionsKept cfg resumed esi esiAtEnd ↔
      cfg.testFreq ≠ 0 ∧
      (∀ v, startVersion resumed < v →
        v < versionAt cfg (startVersion resumed) esi.length →
        (v : Int) % cfg.saveFreq = 0 →
          Expiring cfg (startVersion resumed) esi v) ∧
      (startVersion resumed <
          versionAt cfg (startVersion resumed) esi.length →
        (versionAt cfg (startVersion resumed) esi.length : Int) %
            cfg.saveFreq = 0 ∨ esiAtEnd = true ∨
          Expiring cfg (startVersion resumed) esi
            (versionAt cfg (startVersion resumed) esi.length)) := by
  constructor
  · rintro ⟨-, s, hfit, hmultiples, hlast, -, -⟩
    obtain ⟨hversion, hmem, -⟩ := mem_checkpoints_fit hsave hfit
    refine ⟨(fit_eq_ok hfit).1, fun v hstart hlt hmultiple => ?_,
      fun hstart => ?_⟩
    · have hv := (hmem v).mp (hmultiples v hstart (hversion ▸ hlt.le) hmultiple)
      exact hv.2.resolve_right fun h => by
        rw [hversion] at h
        exact hlt.ne h.1
    · rw [← hversion] at hstart ⊢
      rcases ((hmem _).mp (hlast hstart)).2 with hexpiring | ⟨-, hdue⟩
      · exact .inr (.inr hexpiring)
      · exact hdue.imp id .inl
  · rintro ⟨htest, hmultiples, hlast⟩
    obtain ⟨s, hfit⟩ :=
      exists_fit_eq_ok (loadCheckpoint cfg resumed) esi htest esiAtEnd
    obtain ⟨hversion, hmem, hnodup⟩ := mem_checkpoints_fit hsave hfit
    rw [← hversion] at hmultiples hlast
    refine ⟨fun k _ => counted_steps cfg resumed (esi.take k), s, hfit,
      fun v hstart hle hmultiple => ?_, fun hstart => ?_, fun hstart => ?_,
      hnodup⟩
    · refine (hmem v).mpr ⟨hstart, ?_⟩
      rcases hle.lt_or_eq with hlt | rfl
      · exact .inl (hmultiples v hstart hlt hmultiple)
      · exact .inr ⟨rfl, .inl hmultiple⟩
    · refine (hmem _).mpr ⟨hstart, ?_⟩
      rcases hlast hstart with hmultiple | hend | hexpiring
      · exact .inr ⟨rfl, .inl hmultiple⟩
      · exact .inr ⟨rfl, .inr hend⟩
      · exact .inl hexpiring
    · exact Nat.lt_irrefl _ ((hmem _).mp hstart).1

/-- A version a step, every second one to be saved. -/
def everySecond : VersionConfig where
  triggerParameterSyncStep := 1
  saveFreq := 2
  testFreq := -1
  trigger_pos := Nat.one_pos

theorem versionsKept_iff_two_versions :
    VersionsKept everySecond none [false, false] false := by
  refine (versionsKept_iff everySecond none [false, false] false
    (by decide)).mpr ⟨by decide, fun v hstart hlt hmultiple => ?_,
      fun _ => .inl (by decide)⟩
  obtain rfl : v = 1 := by
    have hlast : versionAt everySecond (startVersion none)
        [false, false].length = 2 := rfl
    rw [hlast] at hlt
    have hstart' : 0 < v := hstart
    omega
  exact absurd hmultiple (by decide)

/-- Version 2 is never saved once version 3 is reached. -/
theorem versionsKept_fails :
    ¬ VersionsKept everySecond none [false, false, false] false := by
  rintro ⟨-, s, hfit, hmultiples, -⟩
  obtain rfl : VersionState.mk 4 3 1 0 [1, 2, 3] [] = s := by
    rw [← Except.ok.injEq, ← hfit]
    rfl
  exact absurd (hmultiples 2 (by decide) (by decide) (by decide)) (by decide)

end VersionState

end SelfDistillation
