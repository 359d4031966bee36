/-
Runs of checkpoint saves that may be cut between any two operations on the
disk, and what `find_latest_ckpt_path` finds afterwards.
-/
import SelfDistillation.CheckpointManager
import SelfDistillation.Library.Transition

namespace SelfDistillation

namespace CheckpointManager

open FileSystem

variable {μ : Type}

/-- The save of a caller: the groups of programs it runs, and what it keeps in
memory for the next one. -/
structure Saver (μ : Type) where
  start : μ
  save : μ → Nat → Groups × μ

def CheckpointHandler.saver (contents : Path → String)
    (h : CheckpointHandler) : Saver (List Path) :=
  ⟨[], h.saveCheckpoint contents⟩

def PpoTrainer.saver (contents : Path → String) (t : PpoTrainer) :
    Saver (List Path × List Path) :=
  ⟨([], []), t.saveCheckpoint contents⟩

structure State (μ : Type) where
  disk : Disk
  memory : μ
  /-- The step being saved, and what is left of its save. -/
  saving : Option (Nat × Groups)
  completed : Option Nat

inductive Event
  | save (step : Nat)
  | io (action : Action)
  | done
deriving DecidableEq, Repr

/-- Saves come one after another, at increasing steps. -/
def Saver.step (saver : Saver μ) (s : State μ) : Event → Option (State μ)
  | .save step =>
      if s.saving = none ∧ ∀ last ∈ s.completed, last < step then
        some ⟨s.disk, (saver.save s.memory step).2,
          some (step, (saver.save s.memory step).1), s.completed⟩
      else none
  | .io action =>
      match s.saving with
      | none => none
      | some (step, groups) =>
          (FileSystem.step s.disk groups action).map fun next =>
            ⟨next.1, s.memory, some (step, next.2), s.completed⟩
  | .done =>
      match s.saving with
      | none => none
      | some (step, groups) =>
          if pending groups = [] then
            some ⟨s.disk, s.memory, none, some step⟩
          else none

def Saver.runs (saver : Saver μ) : Transition.System (State μ) Event :=
  ⟨⟨Disk.empty, saver.start, none, none⟩, saver.step⟩

/-- The operation leaves the folder of the last completed save alone. -/
def sparesCompleted (completed : Option Nat) : Op → Prop
  | .rmtree path => ∀ last ∈ completed, ¬ globalStepFolder last <+: path
  | _ => True

def setsTracker : Op → Prop
  | .write path _ => path = trackerFile
  | .rename _ target => target = trackerFile
  | _ => False

/-- A step that does not delete from the last completed checkpoint, and that
touches the tracker only once nothing else of the save is left. -/
def Allowed (s : State μ) : Event → Prop
  | .io (.run process _) => ∀ saving ∈ s.saving,
      ∀ op ∈ headOp saving.2 process, sparesCompleted s.completed op ∧
        (setsTracker op → pending saving.2 = [op])
  | _ => True

instance (completed : Option Nat) (op : Op) :
    Decidable (sparesCompleted completed op) :=
  match op with
  | .rmtree path => inferInstanceAs
      (Decidable (∀ last ∈ completed, ¬ globalStepFolder last <+: path))
  | .mkdir _ | .write _ _ | .rename _ _ => isTrue trivial

instance (op : Op) : Decidable (setsTracker op) :=
  match op with
  | .write path _ => inferInstanceAs (Decidable (path = trackerFile))
  | .rename _ target => inferInstanceAs (Decidable (target = trackerFile))
  | .mkdir _ | .rmtree _ => isFalse id

instance (s : State μ) (event : Event) : Decidable (Allowed s event) :=
  match event with
  | .io (.run process _) => inferInstanceAs (Decidable (∀ saving ∈ s.saving,
      ∀ op ∈ headOp saving.2 process, sparesCompleted s.completed op ∧
        (setsTracker op → pending saving.2 = [op])))
  | .save _ | .done | .io .next => isTrue trivial

/-- Once a save has completed, the tracker leads to the last completed
checkpoint or to the one being finished, and all of it is on the disk. -/
def Recoverable (contents : Path → String) (files : Nat → List Path)
    (s : State μ) : Prop :=
  ∀ last ∈ s.completed, ∃ step,
    (step = last ∨ ∃ groups, s.saving = some (step, groups)) ∧
    findLatestCkptPath s.disk = .ok (some (globalStepFolder step)) ∧
    ∀ file ∈ files step, s.disk.read file = some (contents file)

section Names

variable {step other : Nat} {path : Path}

/-- A path lies under one name at the top only. -/
theorem eq_of_under {name name' : String} (h : [name] <+: path)
    (h' : [name'] <+: path) : name = name' := by
  obtain ⟨rest, rfl⟩ := h
  obtain ⟨rest', heq⟩ := h'
  exact (List.cons.inj heq).1.symm

theorem eq_of_folders (h : globalStepFolder step <+: path)
    (h' : globalStepFolder other <+: path) : step = other := by
  have hname := eq_of_under h h'
  exact Nat.repr_injective (String.append_right_inj _ |>.mp hname)

theorem folder_ne_trackerFile : globalStepFolder step ≠ trackerFile := by
  intro heq
  have hname : "global_step_" ++ Nat.repr step =
      "latest_checkpointed_iteration.txt" := (List.cons.inj heq).1
  have hchars := congrArg (fun name => name.toList.head?) hname
  simp at hchars

theorem folder_ne_tempTrackerFile :
    globalStepFolder step ≠ tempTrackerFile := by
  intro heq
  have hname : "global_step_" ++ Nat.repr step =
      "latest_checkpointed_iteration.txt.tmp" := (List.cons.inj heq).1
  have hchars := congrArg (fun name => name.toList.head?) hname
  simp at hchars

theorem tempTrackerFile_ne : tempTrackerFile ≠ trackerFile := by decide

end Names

section Progress

variable {contents : Path → String} {files : Nat → List Path} {step : Nat}
  {disk disk' : Disk} {groups groups' : Groups}

/-- What the operations of the save of a step may do, but for those on the
tracker. -/
def Within (contents : Path → String) (step : Nat) : Op → Prop
  | .mkdir path => globalStepFolder step <+: path
  | .write path content =>
      globalStepFolder step <+: path ∧ content = contents path
  | .rename _ _ => False
  | .rmtree path => ∃ other, other ≠ step ∧ globalStepFolder other <+: path

/-- A program that ends with the tracker naming the step. -/
inductive Leads (contents : Path → String) (disk : Disk) (step : Nat) :
    List Op → Prop
  | cons {op : Op} {ops : List Op} : Within contents step op →
      Leads contents disk step ops → Leads contents disk step (op :: ops)
  | inPlace : Leads contents disk step [.write trackerFile (Nat.repr step)]
  | staged : Leads contents disk step (CheckpointHandler.writeTracker step)
  | written : disk.read tempTrackerFile = some (Nat.repr step) →
      Leads contents disk step [.rename tempTrackerFile trackerFile]
  | done : disk.read trackerFile = some (Nat.repr step) →
      Leads contents disk step []

/-- A save on its way: the first program of its last group leads to the
tracker, and what is not on the disk yet will be written. -/
structure Progress (contents : Path → String) (files : Nat → List Path)
    (disk : Disk) (step : Nat) (groups : Groups) : Prop where
  leads : ∃ front program others, groups = front ++ [program :: others] ∧
    (∀ op ∈ pending front, Within contents step op) ∧
    (∀ op ∈ others.flatten, Within contents step op) ∧
    Leads contents disk step program
  owed : ∀ file ∈ files step, globalStepFolder step <+: file ∧
    Owed disk groups file (contents file)
  folder : OwedDir disk groups (globalStepFolder step)

/-- The operations on the tracker. -/
def OnTracker (step : Nat) (op : Op) : Prop :=
  op = .write trackerFile (Nat.repr step) ∨
  op = .write tempTrackerFile (Nat.repr step) ∨
  op = .rename tempTrackerFile trackerFile

/-- The frame of the save of a step, a name at the top other than its
folder. -/
theorem Within.spares {op : Op} (h : Within contents step op) {name : String}
    (hne : globalStepFolder step ≠ [name])
    (hremove : ∀ path, op = .rmtree path → ¬ [name] <+: path) :
    op.Spares [name] := by
  cases op with
  | mkdir path => trivial
  | write path content =>
      intro hfront
      exact hne (congrArg (fun n => [n]) (eq_of_under h.1 hfront))
  | rename source target => exact h.elim
  | rmtree path =>
      obtain ⟨other, -, hpath⟩ := h
      refine ⟨hremove path rfl, fun hfront => hremove path rfl ?_⟩
      have hother := eq_of_under (hpath.trans hfront) (List.prefix_refl [name])
      exact hother ▸ hpath

theorem Within.spares_file {op : Op} (h : Within contents step op)
    {name : String} (hne : ∀ step, globalStepFolder step ≠ [name]) :
    op.Spares [name] := by
  apply h.spares (hne step)
  rintro path rfl hfront
  obtain ⟨other, -, hpath⟩ := h
  exact hne other (congrArg (fun n => [n]) (eq_of_under hpath hfront))

/-- The operations inside a folder keep the tracker and the file beside it. -/
theorem Within.read_tracker {op : Op} {ops ops' : List Op} {move : Move}
    (h : Within contents step op)
    (hadvance : advance disk (op :: ops) move = some (disk', ops')) :
    disk'.read trackerFile = disk.read trackerFile ∧
      disk'.read tempTrackerFile = disk.read tempTrackerFile := by
  constructor
  · exact advance_spares (h.spares_file fun _ => folder_ne_trackerFile)
      (List.prefix_refl _) hadvance
  · exact advance_spares (h.spares_file fun _ => folder_ne_tempTrackerFile)
      (List.prefix_refl _) hadvance

theorem Leads.of_read {program : List Op}
    (h : Leads contents disk step program)
    (htracker : disk'.read trackerFile = disk.read trackerFile)
    (htemp : disk'.read tempTrackerFile = disk.read tempTrackerFile) :
    Leads contents disk' step program := by
  induction h with
  | cons hop _ ih => exact .cons hop ih
  | inPlace => exact .inPlace
  | staged => exact .staged
  | written hread => exact .written (htemp.trans hread)
  | done hread => exact .done (htracker.trans hread)

theorem Leads.advance {op : Op} {ops ops' : List Op} {move : Move}
    (h : Leads contents disk step (op :: ops))
    (hadvance : advance disk (op :: ops) move = some (disk', ops')) :
    Leads contents disk' step ops' := by
  have hcases := advance_cases hadvance
  cases h with
  | cons hop hrest =>
      obtain ⟨htracker, htemp⟩ := hop.read_tracker hadvance
      obtain ⟨-, rfl, -⟩ | ⟨-, -, -, -, rfl⟩ | ⟨-, -, -, -, -, rfl⟩ := hcases
      · exact hrest.of_read htracker htemp
      · exact .cons hop (hrest.of_read htracker htemp)
      · exact .cons hop (hrest.of_read htracker htemp)
  | inPlace =>
      obtain ⟨hfinish, rfl, -⟩ | ⟨-, -, -, -, rfl⟩ | ⟨_, _, hop, -⟩ := hcases
      · cases hfinish
        exact .done Disk.read_put_self
      · exact .inPlace
      · cases hop
  | staged =>
      obtain ⟨hfinish, rfl, -⟩ | ⟨-, -, -, -, rfl⟩ | ⟨_, _, hop, -⟩ := hcases
      · cases hfinish
        exact .written Disk.read_put_self
      · exact .staged
      · cases hop
  | written hread =>
      obtain ⟨hfinish, rfl, -⟩ | ⟨_, _, hop, -⟩ | ⟨_, _, hop, -⟩ := hcases
      · obtain ⟨text, htext, rfl⟩ := Option.map_eq_some_iff.mp hfinish
        cases hread.symm.trans htext
        exact .done Disk.read_put_self
      · cases hop
      · cases hop

theorem Leads.ops {program : List Op} (h : Leads contents disk step program) :
    ∀ op ∈ program, Within contents step op ∨ OnTracker step op := by
  induction h with
  | cons hop _ ih =>
      intro op hmem
      rcases List.mem_cons.mp hmem with rfl | hmem
      · exact .inl hop
      · exact ih op hmem
  | inPlace =>
      intro op hmem
      exact .inr (.inl (List.mem_singleton.mp hmem))
  | staged =>
      intro op hmem
      rcases List.mem_cons.mp hmem with rfl | hmem
      · exact .inr (.inr (.inl rfl))
      · exact .inr (.inr (.inr (List.mem_singleton.mp hmem)))
  | written _ =>
      intro op hmem
      exact .inr (.inr (.inr (List.mem_singleton.mp hmem)))
  | done _ =>
      intro op hmem
      cases hmem

theorem Progress.ops (h : Progress contents files disk step groups) :
    ∀ op ∈ pending groups, Within contents step op ∨ OnTracker step op := by
  obtain ⟨front, program, others, rfl, hfront, hothers, hleads⟩ := h.leads
  intro op hop
  simp only [pending, List.flatten_append, List.flatten_cons,
    List.flatten_nil, List.append_nil, List.mem_append] at hop hfront
  rcases hop with hop | hop | hop
  · exact .inl (hfront op hop)
  · exact hleads.ops op hop
  · exact .inl (hothers op hop)

/-- No operation of the save spoils a file of the checkpoint. -/
theorem settles {op : Op} (h : Within contents step op ∨ OnTracker step op)
    {file : Path} (hfile : globalStepFolder step <+: file) :
    op.Settles file (contents file) := by
  have htracker : trackerFile ≠ file := by
    rintro rfl
    exact folder_ne_trackerFile
      (congrArg (fun n => [n]) (eq_of_under hfile (List.prefix_refl _)))
  have htemp : tempTrackerFile ≠ file := by
    rintro rfl
    exact folder_ne_tempTrackerFile
      (congrArg (fun n => [n]) (eq_of_under hfile (List.prefix_refl _)))
  rcases h with h | rfl | rfl | rfl
  · cases op with
    | mkdir path => trivial
    | write path content =>
        rintro rfl
        exact h.2
    | rename source target => exact h.elim
    | rmtree path =>
        intro hfront
        obtain ⟨other, hother, hpath⟩ := h
        exact hother (eq_of_folders (hpath.trans hfront) hfile)
  · exact fun heq => absurd heq htracker
  · exact fun heq => absurd heq htemp
  · exact ⟨htemp, htracker⟩

theorem leads_step {front : Groups} {program : List Op}
    {others : List (List Op)} {action : Action}
    (hfront : ∀ op ∈ pending front, Within contents step op)
    (hothers : ∀ op ∈ others.flatten, Within contents step op)
    (hleads : Leads contents disk step program)
    (hstep : FileSystem.step disk (front ++ [program :: others]) action =
      some (disk', groups')) :
    ∃ front program others, groups' = front ++ [program :: others] ∧
      (∀ op ∈ pending front, Within contents step op) ∧
      (∀ op ∈ others.flatten, Within contents step op) ∧
      Leads contents disk' step program := by
  cases action with
  | run process move =>
      obtain ⟨programs, later, op, ops, ops', hgroups, hops, hadvance, rfl⟩ :=
        step_run hstep
      cases front with
      | nil =>
          cases hgroups
          cases process with
          | zero =>
              rw [List.getElem?_cons_zero, Option.some_inj] at hops
              subst hops
              exact ⟨[], ops', others, rfl, hfront, hothers,
                hleads.advance hadvance⟩
          | succ process =>
              rw [List.getElem?_cons_succ] at hops
              have hop : Within contents step op := hothers op
                (List.mem_flatten.mpr ⟨_, List.mem_of_getElem? hops,
                  List.mem_cons_self⟩)
              obtain ⟨htracker, htemp⟩ := hop.read_tracker hadvance
              refine ⟨[], program, others.set process ops', rfl, hfront,
                fun x hx => ?_, hleads.of_read htracker htemp⟩
              exact hothers x (mem_flatten_set hops hadvance hx)
      | cons programs₁ front =>
          cases hgroups
          have hsub : ∀ x ∈ programs.flatten, Within contents step x := by
            intro x hx
            apply hfront
            rw [pending, List.flatten_cons, List.flatten_append]
            exact List.mem_append_left _ hx
          have hop : Within contents step op := hsub op
            (List.mem_flatten.mpr ⟨_, List.mem_of_getElem? hops,
              List.mem_cons_self⟩)
          obtain ⟨htracker, htemp⟩ := hop.read_tracker hadvance
          refine ⟨programs.set process ops' :: front, program, others, rfl,
            fun x hx => ?_, hothers, hleads.of_read htracker htemp⟩
          rw [pending, List.flatten_cons, List.flatten_append,
            List.mem_append] at hx
          rcases hx with hx | hx
          · exact hsub x (mem_flatten_set hops hadvance hx)
          · apply hfront
            rw [pending, List.flatten_cons, List.flatten_append]
            exact List.mem_append_right _ hx
  | next =>
      obtain ⟨rfl, programs, hgroups, -⟩ := step_next hstep
      cases front with
      | nil => cases hstep
      | cons programs₁ front =>
          cases hgroups
          refine ⟨front, program, others, rfl, fun x hx => ?_, hothers,
            hleads⟩
          apply hfront
          rw [pending, List.flatten_cons, List.flatten_append]
          exact List.mem_append_right _ hx

theorem not_onTracker_rmtree {path : Path} :
    ¬ OnTracker step (.rmtree path) := by
  rintro (h | h | h)
  · cases h
  · cases h
  · cases h

/-- Every step of a save takes it further. -/
theorem Progress.further {action : Action}
    (h : Progress contents files disk step groups)
    (hstep : FileSystem.step disk groups action = some (disk', groups')) :
    Progress contents files disk' step groups' where
  leads := by
    obtain ⟨front, program, others, rfl, hfront, hothers, hleads⟩ := h.leads
    exact leads_step hfront hothers hleads hstep
  owed := by
    intro file hfile
    obtain ⟨hunder, howed⟩ := h.owed file hfile
    refine ⟨hunder, step_owed (fun op hop => ?_) howed hstep⟩
    exact settles (h.ops op hop) hunder
  folder := by
    apply step_owedDir ?_ h.folder hstep
    intro path hpath hfront
    rcases h.ops _ hpath with ⟨other, hother, hunder⟩ | htracker
    · exact hother (eq_of_folders (hunder.trans hfront) (List.prefix_refl _))
    · exact not_onTracker_rmtree htracker

/-- All of the checkpoint is on the disk. -/
def Saved (contents : Path → String) (files : Nat → List Path) (disk : Disk)
    (step : Nat) : Prop :=
  (∀ file ∈ files step, globalStepFolder step <+: file ∧
    disk.read file = some (contents file)) ∧
  globalStepFolder step ∈ disk.dirs

theorem Progress.saved (h : Progress contents files disk step groups)
    (hpending : pending groups = []) : Saved contents files disk step := by
  constructor
  · intro file hfile
    obtain ⟨hunder, hread | hwrite⟩ := h.owed file hfile
    · exact ⟨hunder, hread⟩
    · rw [hpending] at hwrite
      cases hwrite
  · rcases h.folder with hdir | ⟨path, hpath, -⟩
    · exact hdir
    · rw [hpending] at hpath
      cases hpath

theorem Progress.read_tracker (h : Progress contents files disk step groups)
    (hpending : pending groups = []) :
    disk.read trackerFile = some (Nat.repr step) := by
  obtain ⟨front, program, others, rfl, -, -, hleads⟩ := h.leads
  have hprogram : program = [] := by
    simp only [pending, List.flatten_append, List.flatten_cons,
      List.flatten_nil, List.append_nil, List.append_eq_nil_iff] at hpending
    exact hpending.2.1
  subst hprogram
  cases hleads with
  | done hread => exact hread

theorem findLatestCkptPath_of_saved (hsaved : Saved contents files disk step)
    (htracker : disk.read trackerFile = some (Nat.repr step)) :
    findLatestCkptPath disk = .ok (some (globalStepFolder step)) := by
  have hthere : disk.isThere (globalStepFolder step) = true := by
    rw [Disk.isThere, Bool.or_eq_true, List.contains_iff_mem]
    exact .inr hsaved.2
  simp only [findLatestCkptPath, htracker, readIteration, Nat.toNat?_repr,
    ok_bind, hthere, if_true]
  rfl

/-- Only the folder the tracker names is ever found. -/
theorem eq_folder_of_findLatestCkptPath {path : Path}
    (htracker : disk.read trackerFile = some (Nat.repr step))
    (h : findLatestCkptPath disk = .ok (some path)) :
    path = globalStepFolder step := by
  simp only [findLatestCkptPath, htracker, readIteration, Nat.toNat?_repr,
    ok_bind] at h
  have hsome := Except.ok.inj h
  split at hsome
  · exact (Option.some.inj hsome).symm
  · cases hsome

end Progress

section Safety

variable {contents : Path → String} {files : Nat → List Path}
  {saver : Saver μ} {Known : μ → Option Nat → Prop}

/-- What the saves of a caller have to be like; `Known` is what its memory
holds after a step was saved. -/
structure Orderly (contents : Path → String) (files : Nat → List Path)
    (saver : Saver μ) (Known : μ → Option Nat → Prop) : Prop where
  start : Known saver.start none
  save : ∀ {memory : μ} {completed : Option Nat} {step : Nat},
    Known memory completed → (∀ last ∈ completed, last < step) →
    Known (saver.save memory step).2 (some step) ∧
    ∀ disk, Progress contents files disk step (saver.save memory step).1

/-- The tracker names the last completed checkpoint, is being written, or
names the one that is about to complete. -/
def TrackerAt (s : State μ) (last step : Nat) (groups : Groups) : Prop :=
  s.disk.read trackerFile = some (Nat.repr last) ∨
  s.disk.read trackerFile = some "" ∨
  s.disk.read trackerFile = some (Nat.repr step) ∧ pending groups = []

structure Saving (contents : Path → String) (files : Nat → List Path)
    (Known : μ → Option Nat → Prop) (s : State μ) (step : Nat)
    (groups : Groups) : Prop where
  known : Known s.memory (some step)
  later : ∀ last ∈ s.completed, last < step
  progress : Progress contents files s.disk step groups

/-- What holds of every run. -/
def Ordered (contents : Path → String) (files : Nat → List Path)
    (Known : μ → Option Nat → Prop) (s : State μ) : Prop :=
  match s.saving with
  | none => Known s.memory s.completed
  | some (step, groups) => Saving contents files Known s step groups

/-- What holds where every step is allowed. -/
def Safe (contents : Path → String) (files : Nat → List Path)
    (s : State μ) : Prop :=
  ∀ last ∈ s.completed, Saved contents files s.disk last ∧
    match s.saving with
    | none => s.disk.read trackerFile = some (Nat.repr last)
    | some (step, groups) => TrackerAt s last step groups

theorem step_save {s s' : State μ} {step : Nat}
    (h : saver.step s (.save step) = some s') :
    s.saving = none ∧ (∀ last ∈ s.completed, last < step) ∧
      s' = ⟨s.disk, (saver.save s.memory step).2,
        some (step, (saver.save s.memory step).1), s.completed⟩ := by
  simp only [Saver.step] at h
  split at h
  · rename_i hidle
    cases h
    exact ⟨hidle.1, hidle.2, rfl⟩
  · cases h

theorem step_io {s s' : State μ} {action : Action}
    (h : saver.step s (.io action) = some s') :
    ∃ step groups disk' groups', s.saving = some (step, groups) ∧
      FileSystem.step s.disk groups action = some (disk', groups') ∧
      s' = ⟨disk', s.memory, some (step, groups'), s.completed⟩ := by
  simp only [Saver.step] at h
  split at h
  · cases h
  · rename_i step groups hsaving
    obtain ⟨⟨disk', groups'⟩, hstep, rfl⟩ := Option.map_eq_some_iff.mp h
    exact ⟨step, groups, disk', groups', hsaving, hstep, rfl⟩

theorem step_done {s s' : State μ} (h : saver.step s .done = some s') :
    ∃ step groups, s.saving = some (step, groups) ∧ pending groups = [] ∧
      s' = ⟨s.disk, s.memory, none, some step⟩ := by
  simp only [Saver.step] at h
  split at h
  · cases h
  · rename_i step groups hsaving
    split at h
    · rename_i hpending
      cases h
      exact ⟨step, groups, hsaving, hpending, rfl⟩
    · cases h

theorem ordered_step (horderly : Orderly contents files saver Known)
    {s s' : State μ} {event : Event} (h : Ordered contents files Known s)
    (hstep : saver.step s event = some s') :
    Ordered contents files Known s' := by
  cases event with
  | save step =>
      obtain ⟨hidle, hlater, rfl⟩ := step_save hstep
      rw [Ordered, hidle] at h
      obtain ⟨hknown, hprogress⟩ := horderly.save h hlater
      exact ⟨hknown, hlater, hprogress s.disk⟩
  | io action =>
      obtain ⟨step, groups, disk', groups', hsaving, hio, rfl⟩ :=
        step_io hstep
      rw [Ordered, hsaving] at h
      exact ⟨h.known, h.later, h.progress.further hio⟩
  | done =>
      obtain ⟨step, groups, hsaving, hpending, rfl⟩ := step_done hstep
      rw [Ordered, hsaving] at h
      exact h.known

/-- The operation done leaves the folder of another checkpoint as it was. -/
theorem Saved.advance {disk disk' : Disk} {last step : Nat} {op : Op}
    {ops ops' : List Op} {move : Move}
    (h : Saved contents files disk last)
    (hop : Within contents step op ∨ OnTracker step op) (hne : last ≠ step)
    (hspares : sparesCompleted (some last) op)
    (hadvance : advance disk (op :: ops) move = some (disk', ops')) :
    Saved contents files disk' last := by
  have hop' : op.Spares (globalStepFolder last) := by
    rcases hop with hop | rfl | rfl | rfl
    · apply hop.spares
      · intro heq
        exact hne (eq_of_folders (List.prefix_refl _)
          (heq ▸ List.prefix_refl _))
      · rintro path rfl
        exact hspares last rfl
    · intro hfront
      exact folder_ne_trackerFile
        (congrArg (fun n => [n]) (eq_of_under hfront (List.prefix_refl _)))
    · intro hfront
      exact folder_ne_tempTrackerFile
        (congrArg (fun n => [n]) (eq_of_under hfront (List.prefix_refl _)))
    · constructor
      · intro hfront
        exact folder_ne_tempTrackerFile
          (congrArg (fun n => [n]) (eq_of_under hfront (List.prefix_refl _)))
      · intro hfront
        exact folder_ne_trackerFile
          (congrArg (fun n => [n]) (eq_of_under hfront (List.prefix_refl _)))
  constructor
  · intro file hfile
    obtain ⟨hunder, hread⟩ := h.1 file hfile
    exact ⟨hunder, (advance_spares hop' hunder hadvance).trans hread⟩
  · apply mem_dirs_advance ?_ h.2 hadvance
    rintro path rfl
    exact hop'.2

theorem trackerAt_io {s : State μ} {disk' : Disk} {last step : Nat}
    {groups groups' : Groups} {op : Op} {ops ops' : List Op} {move : Move}
    {front back : List Op} (hop : Within contents step op ∨ OnTracker step op)
    (hadvance : advance s.disk (op :: ops) move = some (disk', ops'))
    (hpending : pending groups = front ++ (op :: ops) ++ back)
    (hpending' : pending groups' = front ++ ops' ++ back)
    (halone : setsTracker op → pending groups = [op])
    (hprogress : Progress contents files disk' step groups')
    (h : TrackerAt s last step groups) :
    TrackerAt ⟨disk', s.memory, some (step, groups'), s.completed⟩ last step
      groups' := by
  have hsame : disk'.read trackerFile = s.disk.read trackerFile →
      TrackerAt ⟨disk', s.memory, some (step, groups'), s.completed⟩ last step
        groups' := by
    intro hread
    rcases h with h | h | ⟨-, h⟩
    · exact .inl (hread.trans h)
    · exact .inr (.inl (hread.trans h))
    · rw [hpending] at h
      simp at h
  have hset : setsTracker op →
      TrackerAt ⟨disk', s.memory, some (step, groups'), s.completed⟩ last step
        groups' := by
    intro hsets
    have hone := halone hsets
    obtain ⟨hfinish, rfl, -⟩ | ⟨path, content, rfl, rfl, -⟩ |
      ⟨path, file, rfl, -⟩ := advance_cases hadvance
    · have hempty : pending groups' = [] := by
        rw [hpending] at hone
        have hlength := congrArg List.length hone
        simp only [List.length_append, List.length_cons, List.length_nil]
          at hlength
        rw [hpending', ← List.length_eq_zero_iff]
        simp only [List.length_append]
        omega
      exact .inr (.inr ⟨hprogress.read_tracker hempty, hempty⟩)
    · right
      left
      have hpath : path = trackerFile := hsets
      rw [hpath]
      exact Disk.read_put_self
    · exact hsets.elim
  rcases hop with hop | rfl | rfl | rfl
  · exact hsame (hop.read_tracker hadvance).1
  · exact hset rfl
  · apply hsame
    have hspares : (Op.write tempTrackerFile (Nat.repr step)).Spares
        trackerFile := by
      intro hfront
      exact tempTrackerFile_ne
        (congrArg (fun n => [n]) (eq_of_under hfront (List.prefix_refl _))).symm
    exact advance_spares hspares (List.prefix_refl _) hadvance
  · exact hset rfl

theorem safe_step {s s' : State μ} {event : Event}
    (horderly : Orderly contents files saver Known)
    (hordered : Ordered contents files Known s) (h : Safe contents files s)
    (hallowed : Allowed s event) (hstep : saver.step s event = some s') :
    Safe contents files s' := by
  have hordered' := ordered_step horderly hordered hstep
  cases event with
  | save step =>
      obtain ⟨hidle, hlater, rfl⟩ := step_save hstep
      intro last hlast
      obtain ⟨hsaved, htracker⟩ := h last hlast
      rw [hidle] at htracker
      exact ⟨hsaved, .inl htracker⟩
  | io action =>
      obtain ⟨step, groups, disk', groups', hsaving, hio, rfl⟩ :=
        step_io hstep
      rw [Ordered, hsaving] at hordered
      intro last hlast
      obtain ⟨hsaved, htracker⟩ := h last hlast
      rw [hsaving] at htracker
      have hprogress := hordered.progress.further hio
      have hne : last ≠ step := Nat.ne_of_lt (hordered.later last hlast)
      obtain ⟨process, op, ops, ops', move, front, back, rfl, hhead, hadvance,
        hpending, hpending'⟩ | ⟨rfl, hsame⟩ := step_pending hio
      · obtain ⟨hspares, halone⟩ := hallowed (step, groups) hsaving op hhead
        rw [Option.mem_def.mp hlast] at hspares
        have hop := hordered.progress.ops op (by rw [hpending]; simp)
        exact ⟨hsaved.advance hop hne hspares hadvance,
          trackerAt_io hop hadvance hpending hpending' halone hprogress
            htracker⟩
      · refine ⟨hsaved, htracker.imp_right (Or.imp_right fun h => ?_)⟩
        exact ⟨h.1, hsame.trans h.2⟩
  | done =>
      obtain ⟨step, groups, hsaving, hpending, rfl⟩ := step_done hstep
      rw [Ordered, hsaving] at hordered
      intro last hlast
      cases hlast
      exact ⟨hordered.progress.saved hpending,
        hordered.progress.read_tracker hpending⟩

theorem ordered_start (horderly : Orderly contents files saver Known) :
    Ordered contents files Known saver.runs.initial :=
  horderly.start

/-- A run whose steps are all allowed can be cut wherever the tracker is not
just being written. -/
theorem recoverable_of_guarded (horderly : Orderly contents files saver Known)
    {events : List Event} {s : State μ}
    (hguarded : saver.runs.Guarded Allowed saver.runs.initial events)
    (hrun : saver.runs.exec saver.runs.initial events = some s)
    (hcrash : s.disk.read trackerFile ≠ some "") :
    Recoverable contents files s := by
  have hboth : Ordered contents files Known s ∧ Safe contents files s := by
    apply saver.runs.invariant_of_guarded ?_ ?_ hguarded hrun
    · intro t event t' ht hallowed hstep
      exact ⟨ordered_step horderly ht.1 hstep,
        safe_step horderly ht.1 ht.2 hallowed hstep⟩
    · refine ⟨ordered_start horderly, fun last hlast => ?_⟩
      cases hlast
  obtain ⟨hordered, hsafe⟩ := hboth
  intro last hlast
  obtain ⟨hsaved, htracker⟩ := hsafe last hlast
  have hread : ∀ step, Saved contents files s.disk step →
      ∀ file ∈ files step, s.disk.read file = some (contents file) :=
    fun step h file hfile => (h.1 file hfile).2
  cases hsaving : s.saving with
  | none =>
      rw [hsaving] at htracker
      exact ⟨last, .inl rfl, findLatestCkptPath_of_saved hsaved htracker,
        hread last hsaved⟩
  | some saving =>
      obtain ⟨step, groups⟩ := saving
      rw [hsaving] at htracker
      rw [Ordered, hsaving] at hordered
      rcases htracker with htracker | htracker | ⟨htracker, hpending⟩
      · exact ⟨last, .inl rfl, findLatestCkptPath_of_saved hsaved htracker,
          hread last hsaved⟩
      · exact absurd htracker hcrash
      · have hsaved' := hordered.progress.saved hpending
        exact ⟨step, .inr ⟨groups, rfl⟩,
          findLatestCkptPath_of_saved hsaved' htracker, hread step hsaved'⟩

end Safety

section Spared

variable {contents : Path → String} {files : Nat → List Path}
  {saver : Saver μ} {Known : μ → Option Nat → Prop}

/-- What a save still has to do. -/
def left (s : State μ) : List Op :=
  match s.saving with
  | none => []
  | some (_, groups) => pending groups

/-- No save removes the last completed checkpoint. -/
def Sparing (saver : Saver μ) (Known : μ → Option Nat → Prop) : Prop :=
  ∀ memory completed step, Known memory completed →
    (∀ last ∈ completed, last < step) →
    ∀ op ∈ pending (saver.save memory step).1, sparesCompleted completed op

theorem spares_step (hsparing : Sparing saver Known) {s s' : State μ}
    {event : Event} (hordered : Ordered contents files Known s)
    (hleft : ∀ op ∈ left s, sparesCompleted s.completed op)
    (hstep : saver.step s event = some s') :
    ∀ op ∈ left s', sparesCompleted s'.completed op := by
  cases event with
  | save step =>
      obtain ⟨hidle, hlater, rfl⟩ := step_save hstep
      rw [Ordered, hidle] at hordered
      exact hsparing _ _ _ hordered hlater
  | io action =>
      obtain ⟨step, groups, disk', groups', hsaving, hio, rfl⟩ :=
        step_io hstep
      rw [left, hsaving] at hleft
      intro op hop
      obtain ⟨-, -, -, -, -, -, hsub, -⟩ | ⟨-, hsame⟩ := step_cases hio
      · exact hleft op (hsub op hop)
      · exact hleft op ((hsame op).mp hop)
  | done =>
      obtain ⟨step, groups, hsaving, hpending, rfl⟩ := step_done hstep
      intro op hop
      cases hop

/-- Where no save removes the last completed checkpoint, no step of a run
does. -/
theorem spares_of_run (horderly : Orderly contents files saver Known)
    (hsparing : Sparing saver Known) {events : List Event} {s : State μ}
    (hrun : saver.runs.exec saver.runs.initial events = some s) :
    ∀ op ∈ left s, sparesCompleted s.completed op := by
  have hboth : Ordered contents files Known s ∧
      ∀ op ∈ left s, sparesCompleted s.completed op := by
    apply saver.runs.invariant ?_ ?_ hrun
    · intro t event t' ht hstep
      exact ⟨ordered_step horderly ht.1 hstep,
        spares_step hsparing ht.1 ht.2 hstep⟩
    · refine ⟨ordered_start horderly, ?_⟩
      intro op hop
      cases hop
  exact hboth.2

end Spared

section Retention

variable {contents : Path → String} {files : Nat → List Path}
  {saver : Saver μ} {Known : μ → Option Nat → Prop} {suffix : Path}
  {paths : μ → List Path} {maxCkptToKeep : Option Int}

/-- A save drops a path only to remove it, and keeps to the limit. -/
structure Rotates (saver : Saver μ) (suffix : Path) (paths : μ → List Path)
    (maxCkptToKeep : Option Int) : Prop where
  start : paths saver.start = []
  kept : ∀ memory step, ∀ path ∈ paths memory,
    path ∈ paths (saver.save memory step).2 ∨
      .rmtree path ∈ pending (saver.save memory step).1
  added : ∀ memory step,
    globalStepFolder step ++ suffix ∈ paths (saver.save memory step).2
  length_le : ∀ memory step, ∀ max : Nat, maxCkptToKeep = some (max : Int) →
    0 < max → (paths (saver.save memory step).2).length ≤ max

/-- The folders on the disk are known to the manager, or about to go. -/
structure Retained (suffix : Path) (paths : μ → List Path)
    (maxCkptToKeep : Option Int) (s : State μ) : Prop where
  listed : ∀ step, globalStepFolder step ++ suffix ∈ s.disk.dirs →
    globalStepFolder step ++ suffix ∈ paths s.memory ∨
      .rmtree (globalStepFolder step ++ suffix) ∈ left s
  current : ∀ saving ∈ s.saving,
    globalStepFolder saving.1 ++ suffix ∈ paths s.memory
  length_le : ∀ max : Nat, maxCkptToKeep = some (max : Int) → 0 < max →
    (paths s.memory).length ≤ max

theorem retained_step (hrotates : Rotates saver suffix paths maxCkptToKeep)
    {s s' : State μ} {event : Event} (hordered : Ordered contents files Known s)
    (h : Retained suffix paths maxCkptToKeep s)
    (hstep : saver.step s event = some s') :
    Retained suffix paths maxCkptToKeep s' := by
  cases event with
  | save step =>
      obtain ⟨hidle, hlater, rfl⟩ := step_save hstep
      refine ⟨fun other hdir => ?_, ?_, hrotates.length_le _ _⟩
      · rcases h.listed other hdir with hpath | hleft
        · exact hrotates.kept _ _ _ hpath
        · rw [left, hidle] at hleft
          cases hleft
      · intro saving hsaving
        cases hsaving
        exact hrotates.added _ _
  | io action =>
      obtain ⟨step, groups, disk', groups', hsaving, hio, rfl⟩ :=
        step_io hstep
      rw [Ordered, hsaving] at hordered
      have hcurrent := h.current (step, groups) hsaving
      refine ⟨fun other hdir => ?_, ?_, h.length_le⟩
      · have hlisted := h.listed other
        rw [left, hsaving] at hlisted
        obtain ⟨op, ops, ops', move, hadvance, hop, -, hkept⟩ |
          ⟨rfl, hsame⟩ := step_cases hio
        · rcases mem_dirs_of_advance hdir hadvance with
            hold | ⟨path, rfl, hfront⟩
          · rcases hlisted hold with hpath | hleft
            · exact .inl hpath
            · rcases hkept _ hleft with hleft | ⟨rfl, hfinished⟩
              · exact .inr hleft
              · obtain ⟨hfinish, -, -⟩ | ⟨_, _, heq, -⟩ |
                  ⟨_, _, -, -, -, hstay⟩ := advance_cases hadvance
                · simp only [Op.finish] at hfinish
                  split at hfinish
                  · cases hfinish
                    have hgone := (Disk.mem_dirs_removeDirs.mp hdir).2
                    exact absurd (List.prefix_refl _) hgone
                  · cases hfinish
                · cases heq
                · rw [hfinished] at hstay
                  exact absurd hstay.symm (List.cons_ne_self _ _)
          · have hunder : globalStepFolder step <+: path := by
              rcases hordered.progress.ops _ hop with hwithin | htracker
              · exact hwithin
              · rcases htracker with heq | heq | heq
                · cases heq
                · cases heq
                · cases heq
            have hother := eq_of_folders
              ((List.prefix_append _ suffix).trans hfront) hunder
            rw [hother]
            exact .inl hcurrent
        · rcases hlisted hdir with hpath | hleft
          · exact .inl hpath
          · exact .inr ((hsame _).mpr hleft)
      · intro saving hsaving'
        cases hsaving'
        exact hcurrent
  | done =>
      obtain ⟨step, groups, hsaving, hpending, rfl⟩ := step_done hstep
      refine ⟨fun other hdir => ?_, ?_, h.length_le⟩
      · rcases h.listed other hdir with hpath | hleft
        · exact .inl hpath
        · rw [left, hsaving] at hleft
          simp only [hpending, List.not_mem_nil] at hleft
      · intro saving hsaving'
        cases hsaving'

/-- After every completed save the checkpoints that are there are no more than
the limit. -/
theorem length_le_of_run (horderly : Orderly contents files saver Known)
    (hrotates : Rotates saver suffix paths maxCkptToKeep)
    {events : List Event} {s : State μ}
    (hrun : saver.runs.exec saver.runs.initial events = some s)
    (hidle : s.saving = none) {max : Nat}
    (hmax : maxCkptToKeep = some (max : Int)) (hpos : 0 < max)
    {steps : List Nat} (hnodup : steps.Nodup)
    (hthere : ∀ step ∈ steps, globalStepFolder step ++ suffix ∈ s.disk.dirs) :
    steps.length ≤ max := by
  have hboth : Ordered contents files Known s ∧
      Retained suffix paths maxCkptToKeep s := by
    apply saver.runs.invariant ?_ ?_ hrun
    · intro t event t' ht hstep
      exact ⟨ordered_step horderly ht.1 hstep,
        retained_step hrotates ht.1 ht.2 hstep⟩
    · refine ⟨ordered_start horderly, ⟨fun step hdir => ?_, ?_, ?_⟩⟩
      · cases hdir
      · intro saving hsaving
        cases hsaving
      · intro limit _ _
        have hstart : paths saver.runs.initial.memory = [] := hrotates.start
        rw [hstart]
        exact Nat.zero_le _
  obtain ⟨-, hretained⟩ := hboth
  have hsubset : steps.map (fun step => globalStepFolder step ++ suffix) ⊆
      paths s.memory := by
    intro path hpath
    obtain ⟨step, hstep, rfl⟩ := List.mem_map.mp hpath
    rcases hretained.listed step (hthere step hstep) with hlisted | hleft
    · exact hlisted
    · rw [left, hidle] at hleft
      cases hleft
  have hinjective : Function.Injective
      fun step => globalStepFolder step ++ suffix := by
    intro step other heq
    have hunder : globalStepFolder other <+: globalStepFolder step ++ suffix :=
      ⟨suffix, heq.symm⟩
    exact eq_of_folders (List.prefix_append _ suffix) hunder
  have hlength := ((hnodup.map hinjective).subperm hsubset).length_le
  rw [List.length_map] at hlength
  exact hlength.trans (hretained.length_le max hmax hpos)

end Retention

end CheckpointManager

end SelfDistillation
