/-
The checkpoint handler and the PPO trainer as savers: their programs stay in
the folder of the step, remove old checkpoints only and end with the tracker.
-/
import SelfDistillation.CheckpointCrash

namespace SelfDistillation

namespace CheckpointManager

open FileSystem

section Rotation

variable {sub : Nat → Path} {paths : List Path} {last : Option Nat}
  {step : Nat} {maxCkptToKeep : Option Int}

/-- The paths kept are those of the steps saved last, in order. -/
def Recorded (sub : Nat → Path) (paths : List Path) (last : Option Nat) :
    Prop :=
  ∃ steps : List Nat, paths = steps.map sub ∧ steps.Pairwise (· < ·) ∧
    steps.getLast? = last

theorem le_last_of_recorded {steps : List Nat} (h : steps.Pairwise (· < ·))
    {other : Nat} (hother : other ∈ steps) :
    ∃ last ∈ steps.getLast?, other ≤ last := by
  have hne : steps ≠ [] := List.ne_nil_of_mem hother
  refine ⟨steps.getLast hne, List.getLast?_eq_some_getLast hne, ?_⟩
  rw [← List.dropLast_append_getLast hne, List.pairwise_append] at h
  rw [← List.dropLast_append_getLast hne, List.mem_append] at hother
  rcases hother with hother | hother
  · exact Nat.le_of_lt (h.2.2 other hother _ (List.mem_singleton_self _))
  · exact Nat.le_of_eq (List.mem_singleton.mp hother)

theorem recorded_rotate (maxCkptToKeep : Option Int)
    (h : Recorded sub paths last)
    (hlater : ∀ m ∈ last, m < step) :
    Recorded sub (recordedAfter maxCkptToKeep paths (sub step)) (some step) ∧
      ∀ op ∈ rotated maxCkptToKeep paths (sub step),
        ∃ other, other ≠ step ∧ op = .rmtree (sub other) ∧
          (maxCkptToKeep ≠ some 1 → ∀ m ∈ last, other ≠ m) := by
  obtain ⟨steps, rfl, hsorted, rfl⟩ := h
  have hless : ∀ other ∈ steps, other < step := by
    intro other hother
    obtain ⟨m, hm, hle⟩ := le_last_of_recorded hsorted hother
    exact Nat.lt_of_le_of_lt hle (hlater m hm)
  obtain ⟨k, hk, hremoved, hkept, -, hone⟩ :=
    exists_rotation maxCkptToKeep (steps.map sub) (sub step)
  have hall : steps.map sub ++ [sub step] = (steps ++ [step]).map sub := by
    rw [List.map_append, List.map_singleton]
  rw [List.length_map] at hk
  constructor
  · refine ⟨(steps ++ [step]).drop k, ?_, ?_, ?_⟩
    · rw [hkept, hall, List.map_drop]
    · apply List.Pairwise.drop
      rw [List.pairwise_append]
      refine ⟨hsorted, List.pairwise_singleton _ _, ?_⟩
      intro other hother new hnew
      rw [List.mem_singleton.mp hnew]
      exact hless other hother
    · rw [List.drop_append_of_le_length hk, List.getLast?_concat]
  · intro op hop
    rw [hremoved] at hop
    obtain ⟨path, hpath, rfl⟩ := List.mem_map.mp hop
    rw [List.take_append_of_le_length (by rwa [List.length_map])] at hpath
    rw [← List.map_take] at hpath
    obtain ⟨other, hother, rfl⟩ := List.mem_map.mp hpath
    have hmem := List.mem_of_mem_take hother
    refine ⟨other, Nat.ne_of_lt (hless other hmem), rfl, ?_⟩
    rintro hne m hm rfl
    -- the last of the steps is beyond what is taken
    have hk' := hone hne
    rw [List.length_map] at hk'
    have hlast : steps.dropLast ++ [other] = steps :=
      List.dropLast_append_getLast? other hm
    rw [← hlast, List.take_append_of_le_length
      (by rw [List.length_dropLast]; exact hk')] at hother
    rw [← hlast, List.pairwise_append] at hsorted
    have hlt := hsorted.2.2 other (List.mem_of_mem_take hother) other
      (List.mem_singleton_self _)
    exact Nat.lt_irrefl _ hlt

theorem rotated_kept (maxCkptToKeep : Option Int) (newPath : Path)
    {path : Path} (hpath : path ∈ paths) :
    path ∈ recordedAfter maxCkptToKeep paths newPath ∨
      .rmtree path ∈ rotated maxCkptToKeep paths newPath := by
  obtain ⟨k, -, hremoved, hkept, -, -⟩ :=
    exists_rotation maxCkptToKeep paths newPath
  rw [hremoved, hkept]
  have hmem : path ∈ (paths ++ [newPath]).take k ++
      (paths ++ [newPath]).drop k := by
    rw [List.take_append_drop]
    exact List.mem_append_left _ hpath
  rcases List.mem_append.mp hmem with htake | hdrop
  · exact .inr (List.mem_map_of_mem htake)
  · exact .inl hdrop

theorem rotated_added {newPath : Path} :
    newPath ∈ recordedAfter maxCkptToKeep paths newPath := by
  obtain ⟨k, hk, -, hkept, -, -⟩ :=
    exists_rotation maxCkptToKeep paths newPath
  rw [hkept, List.drop_append_of_le_length hk]
  exact List.mem_append_right _ (List.mem_singleton_self _)

theorem rotated_length_le {newPath : Path} {max : Nat}
    (hmax : maxCkptToKeep = some (max : Int)) (hpos : 0 < max) :
    (recordedAfter maxCkptToKeep paths newPath).length ≤ max := by
  obtain ⟨k, -, -, hkept, hlimit, -⟩ :=
    exists_rotation maxCkptToKeep paths newPath
  rw [hkept, List.length_drop, List.length_append,
    List.length_singleton]
  exact hlimit max hmax hpos

end Rotation

section Engine

variable {contents : Path → String} {m : FsdpCheckpointManager}
  {localPath : Path} {removed : List Op}

theorem pending_append (groups groups' : Groups) :
    pending (groups ++ groups') = pending groups ++ pending groups' := by
  rw [pending, pending, pending, List.flatten_append, List.flatten_append]

theorem pending_cons (programs : List (List Op)) (groups : Groups) :
    pending (programs :: groups) = programs.flatten ++ pending groups := by
  rw [pending, pending, List.flatten_cons, List.flatten_append]

theorem mem_onRanks {program : Nat → List Op} {op : Op} :
    op ∈ (m.onRanks program).flatten ↔
      ∃ rank < m.worldSize, op ∈ program rank := by
  simp only [FsdpCheckpointManager.onRanks, List.mem_flatten, List.mem_map,
    List.mem_range]
  constructor
  · rintro ⟨-, ⟨rank, hrank, rfl⟩, hop⟩
    exact ⟨rank, hrank, hop⟩
  · rintro ⟨rank, hrank, hop⟩
    exact ⟨_, ⟨rank, hrank, rfl⟩, hop⟩

theorem mem_writeAll {files : List Path} {op : Op} :
    op ∈ writeAll contents files ↔
      ∃ file ∈ files, op = .write file (contents file) := by
  simp only [writeAll, List.mem_map, eq_comm]

/-- A directory or a file below the local path. -/
def Below (contents : Path → String) (localPath : Path) (op : Op) : Prop :=
  (∃ path, localPath <+: path ∧ op = .mkdir path) ∨
  ∃ file, localPath <+: file ∧ op = .write file (contents file)

theorem below_of_mem_writeAll {files : List Path} {op : Op}
    (hfiles : ∀ file ∈ files, localPath <+: file)
    (hop : op ∈ writeAll contents files) : Below contents localPath op := by
  obtain ⟨file, hfile, rfl⟩ := mem_writeAll.mp hop
  exact .inr ⟨file, hfiles file hfile, rfl⟩

theorem below_mkdir {path : Path} (h : localPath <+: path) :
    Below contents localPath (.mkdir path) :=
  .inl ⟨path, h, rfl⟩

theorem under_shardFiles {rank : Nat} :
    ∀ file ∈ m.shardFiles localPath rank, localPath <+: file := by
  intro file hfile
  have hshard : ∃ kind, file = m.shardFile localPath kind rank := by
    simp only [FsdpCheckpointManager.shardFiles, List.mem_append] at hfile
    rcases hfile with (hfile | hfile) | hfile
    · split at hfile
      · exact ⟨_, List.mem_singleton.mp hfile⟩
      · cases hfile
    · split at hfile
      · exact ⟨_, List.mem_singleton.mp hfile⟩
      · cases hfile
    · split at hfile
      · exact ⟨_, List.mem_singleton.mp hfile⟩
      · cases hfile
  obtain ⟨kind, rfl⟩ := hshard
  exact List.prefix_append _ _

theorem under_huggingface :
    localPath <+: FsdpCheckpointManager.huggingface localPath :=
  List.prefix_append _ _

theorem under_configPaths :
    ∀ file ∈ m.configPaths localPath, localPath <+: file := by
  intro file hfile
  rw [FsdpCheckpointManager.configPaths, List.mem_append] at hfile
  rcases hfile with hfile | hfile
  · obtain ⟨name, -, rfl⟩ := List.mem_map.mp hfile
    exact under_huggingface.trans (List.prefix_append _ _)
  · rw [List.mem_singleton.mp hfile]
    exact List.prefix_append _ _

theorem under_hfModelPaths :
    ∀ file ∈ m.hfModelPaths localPath, localPath <+: file := by
  intro file hfile
  obtain ⟨name, -, rfl⟩ := List.mem_map.mp hfile
  exact under_huggingface.trans (List.prefix_append _ _)

/-- What the ranks do: remove what they are told to, and fill the folder. -/
theorem mem_saveGroups {op : Op}
    (hop : op ∈ pending (m.saveGroups contents localPath removed)) :
    op ∈ removed ∨ Below contents localPath op := by
  rw [FsdpCheckpointManager.saveGroups, pending_append, pending_cons,
    pending_cons, List.mem_append, List.mem_append, List.mem_append,
    mem_onRanks, mem_onRanks] at hop
  rcases hop with (⟨rank, -, hop⟩ | ⟨rank, -, hop⟩ | hop) | hop
  · rcases List.mem_append.mp hop with hop | hop
    · split at hop
      · exact .inl hop
      · cases hop
    · rw [List.mem_singleton.mp hop]
      exact .inr (below_mkdir (List.prefix_refl _))
  · right
    rcases List.mem_append.mp hop with hop | hop
    · exact below_of_mem_writeAll under_shardFiles hop
    · split at hop
      · rcases List.mem_cons.mp hop with rfl | hop
        · exact below_mkdir under_huggingface
        · exact below_of_mem_writeAll under_configPaths hop
      · cases hop
  · cases hop
  · right
    split at hop
    · rw [pending_cons, List.mem_append, mem_onRanks] at hop
      rcases hop with ⟨rank, -, hop⟩ | hop
      · split at hop
        · rcases List.mem_cons.mp hop with rfl | hop
          · exact below_mkdir under_huggingface
          · exact below_of_mem_writeAll under_hfModelPaths hop
        · cases hop
      · cases hop
    · cases hop

theorem removed_subset {op : Op} (hop : op ∈ removed) :
    op ∈ pending (m.saveGroups contents localPath removed) := by
  rw [FsdpCheckpointManager.saveGroups, pending_append, pending_cons,
    List.mem_append, List.mem_append, mem_onRanks]
  exact .inl (.inl ⟨0, m.worldSize_pos, List.mem_append_left _ hop⟩)

theorem mkdir_mem_saveGroups :
    .mkdir localPath ∈ pending (m.saveGroups contents localPath removed) := by
  rw [FsdpCheckpointManager.saveGroups, pending_append, pending_cons,
    List.mem_append, List.mem_append, mem_onRanks]
  exact .inl (.inl ⟨0, m.worldSize_pos, List.mem_append_right _
    (List.mem_singleton_self _)⟩)

/-- Every file of the checkpoint is written. -/
theorem write_mem_saveGroups {file : Path} (hfile : file ∈ m.files localPath) :
    localPath <+: file ∧ .write file (contents file) ∈
      pending (m.saveGroups contents localPath removed) := by
  have hpos := m.worldSize_pos
  rw [FsdpCheckpointManager.files, List.mem_append, List.mem_append,
    List.mem_flatMap] at hfile
  rw [FsdpCheckpointManager.saveGroups, pending_append, pending_cons,
    pending_cons, List.mem_append, List.mem_append, List.mem_append,
    mem_onRanks, mem_onRanks]
  rcases hfile with (⟨rank, hrank, hfile⟩ | hfile) | hfile
  · refine ⟨under_shardFiles file hfile, .inl (.inr (.inl ⟨rank, ?_, ?_⟩))⟩
    · exact List.mem_range.mp hrank
    · exact List.mem_append_left _ (mem_writeAll.mpr ⟨file, hfile, rfl⟩)
  · refine ⟨under_configPaths file hfile, .inl (.inr (.inl ⟨0, hpos, ?_⟩))⟩
    exact List.mem_append_right _ (List.mem_cons_of_mem _
      (mem_writeAll.mpr ⟨file, hfile, rfl⟩))
  · split at hfile
    · rename_i hsave
      refine ⟨under_hfModelPaths file hfile, .inr ?_⟩
      rw [if_pos hsave, pending_cons, List.mem_append, mem_onRanks]
      exact .inl ⟨0, hpos, List.mem_cons_of_mem _
        (mem_writeAll.mpr ⟨file, hfile, rfl⟩)⟩
    · cases hfile

end Engine

section Programs

variable {contents : Path → String} {files : Nat → List Path} {step : Nat}
  {sub : Nat → Path}

theorem Below.within {localPath : Path} {op : Op}
    (h : Below contents localPath op)
    (hlocal : globalStepFolder step <+: localPath) :
    Within contents step op := by
  rcases h with ⟨path, hpath, rfl⟩ | ⟨file, hfile, rfl⟩
  · exact hlocal.trans hpath
  · exact ⟨hlocal.trans hfile, rfl⟩

theorem leads_append {disk : Disk} {ops rest : List Op}
    (hops : ∀ op ∈ ops, Within contents step op)
    (hrest : Leads contents disk step rest) :
    Leads contents disk step (ops ++ rest) := by
  induction ops with
  | nil => exact hrest
  | cons op ops ih =>
      obtain ⟨hop, hlater⟩ := List.forall_mem_cons.mp hops
      exact .cons hop (ih hlater)

/-- A save at its beginning. -/
theorem progress_of_programs {front : Groups} {body commit : List Op}
    {others : List (List Op)} {groups : Groups}
    (hgroups : groups = front ++ [(body ++ commit) :: others])
    (hcommit : commit = [.write trackerFile (Nat.repr step)] ∨
      commit = CheckpointHandler.writeTracker step)
    (hfront : ∀ op ∈ pending front, Within contents step op)
    (hbody : ∀ op ∈ body, Within contents step op)
    (hothers : ∀ op ∈ others.flatten, Within contents step op)
    (hfiles : ∀ file ∈ files step, globalStepFolder step <+: file ∧
      .write file (contents file) ∈ pending groups)
    (hfolder : ∃ path, .mkdir path ∈ pending groups ∧
      globalStepFolder step <+: path) (disk : Disk) :
    Progress contents files disk step groups where
  leads := by
    refine ⟨front, body ++ commit, others, hgroups, hfront, hothers, ?_⟩
    apply leads_append hbody
    rcases hcommit with rfl | rfl
    · exact .inPlace
    · exact .staged
  owed := fun file hfile => ⟨(hfiles file hfile).1, .inr (hfiles file hfile).2⟩
  folder := .inr hfolder

/-- The part of a save that an engine does for the step, what its rank 0
removes after it, and what it then records. -/
structure EngineSave (contents : Path → String) (sub : Nat → Path)
    (files : List Path) (maxCkptToKeep : Option Int) (last : Option Nat)
    (step : Nat) (groups : Groups) (registered : List Op)
    (kept : List Path) : Prop where
  within : ∀ op ∈ pending groups, Within contents step op
  registered_within : ∀ op ∈ registered, Within contents step op
  write_mem : ∀ file ∈ files, globalStepFolder step <+: file ∧
    .write file (contents file) ∈ pending groups
  mkdir_mem : .mkdir (sub step) ∈ pending groups
  recorded : Recorded sub kept (some step)
  spares : maxCkptToKeep ≠ some 1 → ∀ path,
    .rmtree path ∈ pending groups ++ registered →
      ∀ m ∈ last, ¬ globalStepFolder m <+: path

theorem engineSave (contents : Path → String) (m : FsdpCheckpointManager)
    (maxCkptToKeep : Option Int) {paths : List Path} {last : Option Nat}
    (hsub : ∀ step, globalStepFolder step <+: sub step)
    (hrecorded : Recorded sub paths last) (hlater : ∀ m ∈ last, m < step) :
    ∃ groups registered kept,
      m.saveCheckpoint contents (sub step) maxCkptToKeep paths =
        (groups, registered, kept) ∧
      EngineSave contents sub (m.files (sub step)) maxCkptToKeep last step
        groups registered kept := by
  obtain ⟨hkept, hremoved⟩ := recorded_rotate maxCkptToKeep hrecorded hlater
  refine ⟨_, _, _, rfl, ⟨?_, ?_, ?_, mkdir_mem_saveGroups, hkept, ?_⟩⟩
  · intro op hop
    rcases mem_saveGroups hop with hop | hop
    · obtain ⟨other, hother, rfl, -⟩ :=
        hremoved op (List.mem_append_left _ hop)
      exact ⟨other, hother, hsub other⟩
    · exact hop.within (hsub step)
  · intro op hop
    obtain ⟨other, hother, rfl, -⟩ :=
      hremoved op (List.mem_append_right _ hop)
    exact ⟨other, hother, hsub other⟩
  · intro file hfile
    obtain ⟨hunder, hop⟩ := write_mem_saveGroups hfile
    exact ⟨(hsub step).trans hunder, hop⟩
  · intro hone path hpath m hm hunder
    have hrotated : .rmtree path ∈
        rotated maxCkptToKeep paths (sub step) := by
      rcases List.mem_append.mp hpath with hpath | hpath
      · rcases mem_saveGroups hpath with hpath | hpath
        · exact List.mem_append_left _ hpath
        · rcases hpath with ⟨_, -, heq⟩ | ⟨_, -, heq⟩
          · cases heq
          · cases heq
      · exact List.mem_append_right _ hpath
    obtain ⟨other, -, heq, hne⟩ := hremoved _ hrotated
    cases heq
    exact hne hone m hm (eq_of_folders (hsub other) hunder)

/-- What an engine drops it removes. -/
theorem engine_kept (contents : Path → String) (m : FsdpCheckpointManager)
    (maxCkptToKeep : Option Int) (localPath : Path) {paths : List Path}
    {path : Path} (hpath : path ∈ paths) :
    path ∈ recordedAfter maxCkptToKeep paths localPath ∨
      .rmtree path ∈ pending
        (m.saveCheckpoint contents localPath maxCkptToKeep paths).1 ∨
      .rmtree path ∈
        (m.saveCheckpoint contents localPath maxCkptToKeep paths).2.1 := by
  rcases rotated_kept maxCkptToKeep localPath hpath with hkept | hremoved
  · exact .inl hkept
  · rcases List.mem_append.mp hremoved with hremoved | hremoved
    · exact .inr (.inl (removed_subset hremoved))
    · exact .inr (.inr hremoved)

end Programs

section Handler

variable {contents : Path → String} {h : CheckpointHandler} {step : Nat}
  {paths : List Path} {last : Option Nat}

theorem below_saveState {rank : Nat} {dpRank : Option Nat} {op : Op}
    (hop : op ∈ h.saveState contents step rank dpRank) :
    Below contents (globalStepFolder step) op := by
  rw [CheckpointHandler.saveState.eq_def, List.mem_append] at hop
  rcases hop with hop | hop
  · split at hop
    · rcases List.mem_cons.mp hop with rfl | hop
      · exact below_mkdir (List.prefix_refl _)
      · apply below_of_mem_writeAll ?_ hop
        intro file hfile
        rw [List.mem_singleton.mp hfile]
        exact List.prefix_append _ _
    · cases hop
  · cases dpRank with
    | none => cases hop
    | some dpRank =>
        rcases List.mem_cons.mp hop with rfl | hop
        · exact below_mkdir (List.prefix_refl _)
        · apply below_of_mem_writeAll ?_ hop
          intro file hfile
          rw [List.mem_singleton.mp hfile]
          exact List.prefix_append _ _

theorem lora_mem_saveState {dpRank : Option Nat}
    (hlora : h.hasLoraTrainMeta = true) :
    .write (CheckpointHandler.loraMetaPath step)
        (contents (CheckpointHandler.loraMetaPath step)) ∈
      h.saveState contents step 0 dpRank := by
  rw [CheckpointHandler.saveState.eq_def, if_pos ⟨rfl, hlora⟩]
  apply List.mem_append_left
  exact List.mem_cons_of_mem _ (mem_writeAll.mpr
    ⟨_, List.mem_singleton_self _, rfl⟩)

theorem dataloader_mem_saveState {rank dpRank : Nat} :
    .write (CheckpointHandler.dataloaderPath step dpRank)
        (contents (CheckpointHandler.dataloaderPath step dpRank)) ∈
      h.saveState contents step rank (some dpRank) := by
  rw [CheckpointHandler.saveState.eq_def]
  apply List.mem_append_right
  exact List.mem_cons_of_mem _ (mem_writeAll.mpr
    ⟨_, List.mem_singleton_self _, rfl⟩)

theorem spmd_progress (hmode : h.mode = .spmd)
    (hrecorded : Recorded globalStepFolder paths last)
    (hlater : ∀ m ∈ last, m < step) (disk : Disk) :
    Progress contents h.files disk step
      (h.saveCheckpoint contents paths step).1 := by
  obtain ⟨groups, registered, kept, hsaved, hengine⟩ := engineSave contents
    h.engine h.maxCkptToKeep (fun step => List.prefix_refl _) hrecorded hlater
  obtain ⟨count, hcount⟩ := Nat.exists_eq_add_one.mpr h.engine.worldSize_pos
  have hgroups : (h.saveCheckpoint contents paths step).1 = groups ++
      [(registered ++ h.saveState contents step 0 (h.dpRank 0) ++
        CheckpointHandler.writeTracker step) ::
        (List.range count).map fun rank =>
          h.saveState contents step (rank + 1) (h.dpRank (rank + 1))] := by
    simp only [CheckpointHandler.saveCheckpoint, hmode, hsaved,
      FsdpCheckpointManager.onRanks, hcount, List.range_succ_eq_map,
      List.map_cons, List.map_map]
    simp [Function.comp_def]
  have hothers : ∀ op ∈ ((List.range count).map fun rank =>
      h.saveState contents step (rank + 1) (h.dpRank (rank + 1))).flatten,
      Within contents step op := by
    intro op hop
    obtain ⟨ops, hops, hin⟩ := List.mem_flatten.mp hop
    obtain ⟨rank, -, rfl⟩ := List.mem_map.mp hops
    exact (below_saveState hin).within (List.prefix_refl _)
  have hbody : ∀ op ∈ registered ++ h.saveState contents step 0 (h.dpRank 0),
      Within contents step op := by
    intro op hop
    rcases List.mem_append.mp hop with hop | hop
    · exact hengine.registered_within op hop
    · exact (below_saveState hop).within (List.prefix_refl _)
  -- what a rank does after the engine is part of the last group
  have hrank : ∀ rank < h.engine.worldSize, ∀ op ∈
      h.saveState contents step rank (h.dpRank rank),
      op ∈ pending (h.saveCheckpoint contents paths step).1 := by
    intro rank hrank op hop
    rw [hgroups, pending_append, pending_cons, List.mem_append,
      List.mem_append, List.flatten_cons, List.mem_append]
    cases rank with
    | zero =>
        exact .inr (.inl (.inl (List.mem_append_left _
          (List.mem_append_right _ hop))))
    | succ rank =>
        refine .inr (.inl (.inr (List.mem_flatten.mpr ⟨_, ?_, hop⟩)))
        exact List.mem_map_of_mem (List.mem_range.mpr (by omega))
  apply progress_of_programs hgroups (.inr rfl) hengine.within hbody hothers
  · intro file hfile
    simp only [CheckpointHandler.files, hmode, List.mem_append] at hfile
    rcases hfile with (hfile | hfile) | hfile
    · obtain ⟨hunder, hop⟩ := hengine.write_mem file hfile
      rw [hgroups, pending_append]
      exact ⟨hunder, List.mem_append_left _ hop⟩
    · split at hfile
      · rename_i hlora
        rw [List.mem_singleton.mp hfile]
        exact ⟨List.prefix_append _ _, hrank 0 h.engine.worldSize_pos _
          (lora_mem_saveState hlora)⟩
      · cases hfile
    · obtain ⟨dpRank, hdpRank, rfl⟩ := List.mem_map.mp hfile
      obtain ⟨rank, hlt, hsome⟩ := List.mem_filterMap.mp hdpRank
      refine ⟨List.prefix_append _ _, ?_⟩
      apply hrank rank (List.mem_range.mp hlt)
      rw [hsome]
      exact dataloader_mem_saveState
  · refine ⟨globalStepFolder step, ?_, List.prefix_refl _⟩
    rw [hgroups, pending_append]
    exact List.mem_append_left _ hengine.mkdir_mem

theorem ray_progress (hmode : h.mode = .ray)
    (hrecorded : Recorded globalStepFolder paths last)
    (hlater : ∀ m ∈ last, m < step) (disk : Disk) :
    Progress contents h.files disk step
      (h.saveCheckpoint contents paths step).1 := by
  obtain ⟨groups, registered, kept, hsaved, hengine⟩ := engineSave contents
    h.engine h.maxCkptToKeep (fun step => List.prefix_refl _) hrecorded hlater
  have hgroups : (h.saveCheckpoint contents paths step).1 =
      (groups ++ [[registered]]) ++ [(h.saveState contents step 0 (some 0) ++
        CheckpointHandler.writeTracker step) :: []] := by
    simp only [CheckpointHandler.saveCheckpoint, hmode, hsaved,
      List.append_assoc, List.singleton_append]
  have hfront : ∀ op ∈ pending (groups ++ [[registered]]),
      Within contents step op := by
    intro op hop
    rw [pending_append, pending_cons, List.flatten_singleton,
      List.mem_append, List.mem_append] at hop
    rcases hop with hop | hop | hop
    · exact hengine.within op hop
    · exact hengine.registered_within op hop
    · cases hop
  have hbody : ∀ op ∈ h.saveState contents step 0 (some 0),
      Within contents step op := fun op hop =>
    (below_saveState hop).within (List.prefix_refl _)
  have hgroup : ∀ op ∈ pending groups,
      op ∈ pending (h.saveCheckpoint contents paths step).1 := by
    intro op hop
    rw [hgroups, pending_append, pending_append]
    exact List.mem_append_left _ (List.mem_append_left _ hop)
  have hdriver : ∀ op ∈ h.saveState contents step 0 (some 0),
      op ∈ pending (h.saveCheckpoint contents paths step).1 := by
    intro op hop
    rw [hgroups, pending_append, pending_cons, List.flatten_singleton]
    exact List.mem_append_right _ (List.mem_append_left _
      (List.mem_append_left _ hop))
  apply progress_of_programs hgroups (.inr rfl) hfront hbody
  · intro op hop
    cases hop
  · intro file hfile
    simp only [CheckpointHandler.files, hmode, List.mem_append] at hfile
    rcases hfile with (hfile | hfile) | hfile
    · obtain ⟨hunder, hop⟩ := hengine.write_mem file hfile
      exact ⟨hunder, hgroup _ hop⟩
    · split at hfile
      · rename_i hlora
        rw [List.mem_singleton.mp hfile]
        exact ⟨List.prefix_append _ _, hdriver _ (lora_mem_saveState hlora)⟩
      · cases hfile
    · rw [List.mem_singleton.mp hfile]
      exact ⟨List.prefix_append _ _, hdriver _ dataloader_mem_saveState⟩
  · exact ⟨globalStepFolder step, hgroup _ hengine.mkdir_mem,
      List.prefix_refl _⟩

theorem handler_paths (contents : Path → String) (h : CheckpointHandler)
    (paths : List Path) (step : Nat) :
    (h.saveCheckpoint contents paths step).2 =
      recordedAfter h.maxCkptToKeep paths (globalStepFolder step) := by
  rw [CheckpointHandler.saveCheckpoint]
  cases h.mode with
  | spmd => rfl
  | ray => rfl

theorem handler_orderly (contents : Path → String) (h : CheckpointHandler) :
    Orderly contents h.files (h.saver contents)
      (Recorded globalStepFolder) where
  start := ⟨[], rfl, List.Pairwise.nil, rfl⟩
  save := by
    intro memory completed step hrecorded hlater
    constructor
    · have hkept := (recorded_rotate h.maxCkptToKeep hrecorded hlater).1
      rw [← handler_paths contents] at hkept
      exact hkept
    · intro disk
      cases hmode : h.mode with
      | spmd => exact spmd_progress hmode hrecorded hlater disk
      | ray => exact ray_progress hmode hrecorded hlater disk

/-- What the engine does is part of the save. -/
theorem mem_handler_of_engine {op : Op}
    (hop : op ∈ pending (h.engine.saveCheckpoint contents
        (globalStepFolder step) h.maxCkptToKeep paths).1 ∨
      op ∈ (h.engine.saveCheckpoint contents (globalStepFolder step)
        h.maxCkptToKeep paths).2.1) :
    op ∈ pending (h.saveCheckpoint contents paths step).1 := by
  rw [CheckpointHandler.saveCheckpoint]
  cases h.mode with
  | spmd =>
      simp only [pending_append, pending_cons, List.mem_append, mem_onRanks]
      rcases hop with hop | hop
      · exact .inl hop
      · refine .inr (.inl ⟨0, h.engine.worldSize_pos, .inl (.inl ?_)⟩)
        rwa [if_pos rfl]
  | ray =>
      simp only [pending_append, pending_cons, List.mem_append,
        List.flatten_singleton]
      rcases hop with hop | hop
      · exact .inl hop
      · exact .inr (.inl hop)

theorem handler_rotates (contents : Path → String) (h : CheckpointHandler) :
    Rotates (h.saver contents) [] id h.maxCkptToKeep where
  start := rfl
  kept := by
    intro memory step path hpath
    have hpaths := handler_paths contents h memory step
    rcases engine_kept contents h.engine h.maxCkptToKeep
      (globalStepFolder step) hpath with hkept | hremoved
    · left
      rw [id_eq, CheckpointHandler.saver, hpaths]
      exact hkept
    · exact .inr (mem_handler_of_engine hremoved)
  added := by
    intro memory step
    rw [List.append_nil, id_eq, CheckpointHandler.saver,
      handler_paths contents h memory step]
    exact rotated_added
  length_le := by
    intro memory step max hmax hpos
    rw [id_eq, CheckpointHandler.saver,
      handler_paths contents h memory step]
    exact rotated_length_le hmax hpos

theorem mem_handler_cases {op : Op}
    (hop : op ∈ pending (h.saveCheckpoint contents paths step).1) :
    op ∈ pending (h.engine.saveCheckpoint contents (globalStepFolder step)
        h.maxCkptToKeep paths).1 ++
      (h.engine.saveCheckpoint contents (globalStepFolder step)
        h.maxCkptToKeep paths).2.1 ∨
    Below contents (globalStepFolder step) op ∨ OnTracker step op := by
  have htracker : op ∈ CheckpointHandler.writeTracker step →
      OnTracker step op := by
    intro hop
    rcases List.mem_cons.mp hop with rfl | hop
    · exact .inr (.inl rfl)
    · exact .inr (.inr (List.mem_singleton.mp hop))
  rw [CheckpointHandler.saveCheckpoint] at hop
  cases hmode : h.mode with
  | spmd =>
      simp only [hmode, pending_append, pending_cons, List.mem_append,
        mem_onRanks] at hop
      rw [List.mem_append]
      rcases hop with hop | ⟨rank, -, (hop | hop) | hop⟩ | hop
      · exact .inl (.inl hop)
      · split at hop
        · exact .inl (.inr hop)
        · cases hop
      · exact .inr (.inl (below_saveState hop))
      · split at hop
        · exact .inr (.inr (htracker hop))
        · cases hop
      · cases hop
  | ray =>
      simp only [hmode, pending_append, pending_cons, List.mem_append,
        List.flatten_singleton] at hop
      rw [List.mem_append]
      rcases hop with hop | hop | (hop | hop) | hop
      · exact .inl (.inl hop)
      · exact .inl (.inr hop)
      · exact .inr (.inl (below_saveState hop))
      · exact .inr (.inr (htracker hop))
      · cases hop

theorem not_below_rmtree {localPath path : Path} :
    ¬ Below contents localPath (.rmtree path) := by
  rintro (⟨_, -, heq⟩ | ⟨_, -, heq⟩)
  · cases heq
  · cases heq

/-- With any limit but one, no step of a run removes the last completed
checkpoint. -/
theorem handler_spares (contents : Path → String) (h : CheckpointHandler)
    (hlimit : h.maxCkptToKeep ≠ some 1) {events : List Event}
    {s : State (List Path)}
    (hrun : (h.saver contents).runs.exec (h.saver contents).runs.initial
      events = some s) :
    ∀ op ∈ left s, sparesCompleted s.completed op := by
  refine spares_of_run (handler_orderly contents h) ?_ hrun
  intro memory completed step hrecorded hlater op hop
  cases op with
  | mkdir path => trivial
  | write path content => trivial
  | rename source target => trivial
  | rmtree path =>
      obtain ⟨groups, registered, kept, hsaved, hengine⟩ := engineSave contents
        h.engine h.maxCkptToKeep (fun step => List.prefix_refl _) hrecorded
        hlater
      rcases mem_handler_cases hop with hop | hop | hop
      · rw [hsaved] at hop
        exact hengine.spares hlimit path hop
      · exact absurd hop not_below_rmtree
      · exact absurd hop not_onTracker_rmtree

end Handler

section Trainer

variable {contents : Path → String} {t : PpoTrainer} {step : Nat}
  {last : Option Nat}

/-- What the trainer's managers record. -/
def TrainerKnown (t : PpoTrainer) (memory : List Path × List Path)
    (last : Option Nat) : Prop :=
  Recorded PpoTrainer.actorLocalPath memory.1 last ∧
    (t.critic.isSome → Recorded PpoTrainer.criticLocalPath memory.2 last)

theorem under_actorLocalPath (step : Nat) :
    globalStepFolder step <+: PpoTrainer.actorLocalPath step :=
  List.prefix_append _ _

theorem under_criticLocalPath (step : Nat) :
    globalStepFolder step <+: PpoTrainer.criticLocalPath step :=
  List.prefix_append _ _

/-- The critic's part of a save, nothing where there is none. -/
theorem criticSave (contents : Path → String) {memory : List Path × List Path}
    (hrecorded : t.critic.isSome →
      Recorded PpoTrainer.criticLocalPath memory.2 last)
    (hlater : ∀ m ∈ last, m < step) :
    ∃ groups registered kept,
      t.saveCritic contents memory.2 step = (groups, registered, kept) ∧
      (∀ op ∈ pending groups, Within contents step op) ∧
      (∀ op ∈ registered, Within contents step op) ∧
      (∀ file ∈ t.criticFiles step, globalStepFolder step <+: file ∧
        .write file (contents file) ∈ pending groups) ∧
      (t.critic.isSome →
        Recorded PpoTrainer.criticLocalPath kept (some step)) ∧
      (t.maxCriticCkptToKeep ≠ some 1 → ∀ path,
        .rmtree path ∈ pending groups ++ registered →
        ∀ m ∈ last, ¬ globalStepFolder m <+: path) := by
  rw [PpoTrainer.saveCritic, PpoTrainer.criticFiles]
  cases hcritic : t.critic with
  | none =>
      refine ⟨[], [], memory.2, rfl, ?_, ?_, ?_, ?_, ?_⟩
      · intro op hop
        cases hop
      · intro op hop
        cases hop
      · intro file hfile
        cases hfile
      · intro h
        cases h
      · intro _ path hpath
        cases hpath
  | some critic =>
      obtain ⟨groups, registered, kept, hsaved, hengine⟩ := engineSave contents
        critic t.maxCriticCkptToKeep under_criticLocalPath
        (hrecorded (hcritic ▸ rfl)) hlater
      exact ⟨groups, registered, kept, hsaved, hengine.within,
        hengine.registered_within, hengine.write_mem,
        fun _ => hengine.recorded, hengine.spares⟩

theorem trainer_save (contents : Path → String) (hasync : t.asyncSave = false)
    {memory : List Path × List Path} (hrecorded : TrainerKnown t memory last)
    (hlater : ∀ m ∈ last, m < step) :
    TrainerKnown t (t.saveCheckpoint contents memory step).2 (some step) ∧
      ∀ disk, Progress contents t.files disk step
        (t.saveCheckpoint contents memory step).1 := by
  obtain ⟨groups, registered, kept, hsaved, hactor⟩ := engineSave contents
    t.actor t.maxActorCkptToKeep under_actorLocalPath hrecorded.1 hlater
  obtain ⟨groups', registered', kept', hsaved', hwithin, hregistered, hwrite,
    hkept, -⟩ := criticSave contents hrecorded.2 hlater
  have hgroups : (t.saveCheckpoint contents memory step).1 =
      (groups ++ [[registered]] ++ groups' ++ [[registered']]) ++
      [((.mkdir (globalStepFolder step) ::
        writeAll contents [PpoTrainer.dataloaderLocalPath step]) ++
        [.write trackerFile (Nat.repr step)]) :: []] := by
    simp only [PpoTrainer.saveCheckpoint, hsaved, hsaved', hasync]
    simp
  have hmemory : (t.saveCheckpoint contents memory step).2 = (kept, kept') := by
    simp only [PpoTrainer.saveCheckpoint, hsaved, hsaved']
  refine ⟨by rw [hmemory]; exact ⟨hactor.recorded, hkept⟩, fun disk => ?_⟩
  have hfront : ∀ op ∈ pending (groups ++ [[registered]] ++ groups' ++
      [[registered']]), Within contents step op := by
    intro op hop
    simp only [pending_append, pending_cons, List.flatten_singleton,
      List.mem_append] at hop
    rcases hop with ((hop | hop | hop) | hop) | hop | hop
    · exact hactor.within op hop
    · exact hactor.registered_within op hop
    · cases hop
    · exact hwithin op hop
    · exact hregistered op hop
    · cases hop
  have hbody : ∀ op ∈ Op.mkdir (globalStepFolder step) ::
      writeAll contents [PpoTrainer.dataloaderLocalPath step],
      Within contents step op := by
    intro op hop
    rcases List.mem_cons.mp hop with rfl | hop
    · exact List.prefix_refl _
    · apply (below_of_mem_writeAll ?_ hop).within (List.prefix_refl _)
      intro file hfile
      rw [List.mem_singleton.mp hfile]
      exact List.prefix_append _ _
  have hactorMem : ∀ op ∈ pending groups,
      op ∈ pending (t.saveCheckpoint contents memory step).1 := by
    intro op hop
    simp only [hgroups, pending_append, List.mem_append]
    exact .inl (.inl (.inl (.inl hop)))
  apply progress_of_programs hgroups (.inl rfl) hfront hbody
  · intro op hop
    cases hop
  · intro file hfile
    simp only [PpoTrainer.files, List.mem_append] at hfile
    rcases hfile with (hfile | hfile) | hfile
    · obtain ⟨hunder, hop⟩ := hactor.write_mem file hfile
      exact ⟨hunder, hactorMem _ hop⟩
    · obtain ⟨hunder, hop⟩ := hwrite file hfile
      refine ⟨hunder, ?_⟩
      simp only [hgroups, pending_append, List.mem_append]
      exact .inl (.inl (.inr hop))
    · rw [List.mem_singleton.mp hfile]
      refine ⟨List.prefix_append _ _, ?_⟩
      rw [hgroups, pending_append, pending_cons, List.flatten_singleton]
      apply List.mem_append_right
      apply List.mem_append_left
      apply List.mem_append_left
      exact List.mem_cons_of_mem _ (mem_writeAll.mpr
        ⟨_, List.mem_singleton_self _, rfl⟩)
  · exact ⟨PpoTrainer.actorLocalPath step, hactorMem _ hactor.mkdir_mem,
      under_actorLocalPath step⟩

theorem trainer_orderly (contents : Path → String)
    (hasync : t.asyncSave = false) :
    Orderly contents t.files (t.saver contents) (TrainerKnown t) where
  start := ⟨⟨[], rfl, List.Pairwise.nil, rfl⟩,
    fun _ => ⟨[], rfl, List.Pairwise.nil, rfl⟩⟩
  save := trainer_save contents hasync

theorem actor_rotates (contents : Path → String) (t : PpoTrainer) :
    Rotates (t.saver contents) ["actor"] Prod.fst t.maxActorCkptToKeep where
  start := rfl
  kept := by
    intro memory step path hpath
    rcases engine_kept contents t.actor t.maxActorCkptToKeep
      (PpoTrainer.actorLocalPath step) hpath with hkept | hremoved
    · exact .inl hkept
    · right
      simp only [PpoTrainer.saver, PpoTrainer.saveCheckpoint, pending_append,
        pending_cons, List.mem_append, List.flatten_singleton]
      rcases hremoved with hremoved | hremoved
      · exact .inl (.inl (.inl hremoved))
      · exact .inl (.inl (.inr (.inl hremoved)))
  added := fun _ _ => rotated_added
  length_le := fun _ _ _ hmax hpos => rotated_length_le hmax hpos

theorem critic_rotates (contents : Path → String) {t : PpoTrainer}
    {critic : FsdpCheckpointManager} (hcritic : t.critic = some critic) :
    Rotates (t.saver contents) ["critic"] Prod.snd
      t.maxCriticCkptToKeep where
  start := rfl
  kept := by
    intro memory step path hpath
    rcases engine_kept contents critic t.maxCriticCkptToKeep
      (PpoTrainer.criticLocalPath step) hpath with hkept | hremoved
    · left
      simp only [PpoTrainer.saver, PpoTrainer.saveCheckpoint,
        PpoTrainer.saveCritic, hcritic]
      exact hkept
    · right
      simp only [PpoTrainer.saver, PpoTrainer.saveCheckpoint,
        PpoTrainer.saveCritic, hcritic, pending_append, pending_cons,
        List.mem_append, List.flatten_singleton]
      rcases hremoved with hremoved | hremoved
      · exact .inl (.inr hremoved)
      · exact .inr (.inl hremoved)
  added := by
    intro memory step
    simp only [PpoTrainer.saver, PpoTrainer.saveCheckpoint,
      PpoTrainer.saveCritic, hcritic]
    exact rotated_added
  length_le := by
    intro memory step max hmax hpos
    simp only [PpoTrainer.saver, PpoTrainer.saveCheckpoint,
      PpoTrainer.saveCritic, hcritic]
    exact rotated_length_le hmax hpos

/-- With no limit of one, no step of a run removes the last completed
checkpoint. -/
theorem trainer_spares (contents : Path → String)
    (hasync : t.asyncSave = false) (hactor : t.maxActorCkptToKeep ≠ some 1)
    (hcritic : t.maxCriticCkptToKeep ≠ some 1) {events : List Event}
    {s : State (List Path × List Path)}
    (hrun : (t.saver contents).runs.exec (t.saver contents).runs.initial
      events = some s) :
    ∀ op ∈ left s, sparesCompleted s.completed op := by
  refine spares_of_run (trainer_orderly contents hasync) ?_ hrun
  intro memory completed step hrecorded hlater op hop
  cases op with
  | mkdir path => trivial
  | write path content => trivial
  | rename source target => trivial
  | rmtree path =>
      obtain ⟨groups, registered, kept, hsaved, hengine⟩ := engineSave contents
        t.actor t.maxActorCkptToKeep under_actorLocalPath hrecorded.1 hlater
      obtain ⟨groups', registered', kept', hsaved', -, -, -, -, hspares⟩ :=
        criticSave contents hrecorded.2 hlater
      simp only [PpoTrainer.saver, PpoTrainer.saveCheckpoint, hsaved, hsaved',
        pending_append, pending_cons, List.mem_append,
        List.flatten_singleton] at hop
      rcases hop with ((hop | hop | hop) | hop) | hop | hop | hop
      · exact hengine.spares hactor path (List.mem_append_left _ hop)
      · exact hengine.spares hactor path (List.mem_append_right _ hop)
      · cases hop
      · exact hspares hcritic path (List.mem_append_left _ hop)
      · exact hspares hcritic path (List.mem_append_right _ hop)
      · simp [writeAll, hasync] at hop
      · cases hop

end Trainer

section Crash

/-- A run of checkpoint saves whose steps are all allowed can be cut anywhere
but inside the write of the tracker, and after a completed save no more
checkpoints are there than the limit says. -/
theorem checkpoint_survives_crash (contents : Path → String) :
    (∀ (h : CheckpointHandler) (events : List Event) (s : State (List Path)),
      (h.saver contents).runs.exec (h.saver contents).runs.initial events =
        some s →
      ((h.saver contents).runs.Guarded Allowed (h.saver contents).runs.initial
        events → s.disk.read trackerFile ≠ some "" →
        Recoverable contents h.files s) ∧
      (s.saving = none → ∀ max : Nat, 0 < max →
        h.maxCkptToKeep = some (max : Int) → ∀ steps : List Nat,
        steps.Nodup → (∀ step ∈ steps, globalStepFolder step ∈ s.disk.dirs) →
        steps.length ≤ max)) ∧
    ∀ (t : PpoTrainer), t.asyncSave = false → ∀ (events : List Event)
      (s : State (List Path × List Path)),
      (t.saver contents).runs.exec (t.saver contents).runs.initial events =
        some s →
      ((t.saver contents).runs.Guarded Allowed (t.saver contents).runs.initial
        events → s.disk.read trackerFile ≠ some "" →
        Recoverable contents t.files s) ∧
      (s.saving = none → ∀ max : Nat, 0 < max →
        (t.maxActorCkptToKeep = some (max : Int) → ∀ steps : List Nat,
          steps.Nodup → (∀ step ∈ steps,
            PpoTrainer.actorLocalPath step ∈ s.disk.dirs) →
          steps.length ≤ max) ∧
        (t.critic.isSome → t.maxCriticCkptToKeep = some (max : Int) →
          ∀ steps : List Nat, steps.Nodup → (∀ step ∈ steps,
            PpoTrainer.criticLocalPath step ∈ s.disk.dirs) →
          steps.length ≤ max)) := by
  constructor
  · intro h events s hrun
    have horderly := handler_orderly contents h
    constructor
    · intro hguarded hcrash
      exact recoverable_of_guarded horderly hguarded hrun hcrash
    · intro hidle max hpos hmax steps hnodup hthere
      apply length_le_of_run horderly (handler_rotates contents h) hrun hidle
        hmax hpos hnodup
      intro step hstep
      rw [List.append_nil]
      exact hthere step hstep
  · intro t hasync events s hrun
    have horderly := trainer_orderly contents hasync
    constructor
    · intro hguarded hcrash
      exact recoverable_of_guarded horderly hguarded hrun hcrash
    · intro hidle max hpos
      constructor
      · intro hmax steps hnodup hthere
        exact length_le_of_run horderly (actor_rotates contents t) hrun hidle
          hmax hpos hnodup hthere
      · intro hsome hmax steps hnodup hthere
        obtain ⟨critic, hcritic⟩ := Option.isSome_iff_exists.mp hsome
        exact length_le_of_run horderly (critic_rotates contents hcritic) hrun
          hidle hmax hpos hnodup hthere

/-- One rank that saves its shard of the model. -/
def oneRank : FsdpCheckpointManager where
  worldSize := 1
  worldSize_pos := Nat.one_pos
  shouldSaveModel := true
  shouldSaveOptimizer := false
  shouldSaveExtra := false
  shouldSaveHfModel := false
  configFiles := []
  hfModelFiles := []

def keepOne : CheckpointHandler :=
  ⟨.spmd, oneRank, some 1, false, fun _ => some 0⟩

def actorOnly : PpoTrainer := ⟨oneRank, some 1, none, none, false⟩

/-- Operations of the one process there is. -/
def finishes (count : Nat) : List Event :=
  List.replicate count (.io (.run 0 .finish))

/-- A save that removes nothing, by the handler. -/
def handlerSave (step : Nat) : List Event :=
  .save step :: finishes 1 ++ .io .next :: finishes 3 ++
    .io .next :: finishes 4 ++ [.done]

/-- A save that removes nothing, by the trainer. -/
def trainerSave (step : Nat) : List Event :=
  .save step :: finishes 1 ++ .io .next :: finishes 3 ++
    List.replicate 3 (.io .next) ++ finishes 3 ++ [.done]

theorem checkpoint_survives_crash_once :
    (∃ s, (keepOne.saver fun _ => "data").runs.exec
        (keepOne.saver fun _ => "data").runs.initial (handlerSave 1) =
        some s ∧
      Recoverable (fun _ => "data") keepOne.files s ∧ [1].length ≤ 1) ∧
    ∃ s, (actorOnly.saver fun _ => "data").runs.exec
        (actorOnly.saver fun _ => "data").runs.initial (trainerSave 1) =
        some s ∧
      Recoverable (fun _ => "data") actorOnly.files s ∧ [1].length ≤ 1 := by
  have hhandler : ((keepOne.saver fun _ => "data").runs.exec
      (keepOne.saver fun _ => "data").runs.initial (handlerSave 1)).map
      (fun s => (s.saving.isNone, s.disk.read trackerFile,
        decide (globalStepFolder 1 ∈ s.disk.dirs))) =
      some (true, some "1", true) := by decide +kernel
  have htrainer : ((actorOnly.saver fun _ => "data").runs.exec
      (actorOnly.saver fun _ => "data").runs.initial (trainerSave 1)).map
      (fun s => (s.saving.isNone, s.disk.read trackerFile,
        decide (PpoTrainer.actorLocalPath 1 ∈ s.disk.dirs))) =
      some (true, some "1", true) := by decide +kernel
  obtain ⟨s, hs, hstate⟩ := Option.map_eq_some_iff.mp hhandler
  obtain ⟨t, ht, htstate⟩ := Option.map_eq_some_iff.mp htrainer
  simp only [Prod.mk.injEq, decide_eq_true_eq, Option.isNone_iff_eq_none]
    at hstate htstate
  have hboth := checkpoint_survives_crash fun _ => "data"
  obtain ⟨hrecover, hretain⟩ := hboth.1 keepOne (handlerSave 1) s hs
  obtain ⟨hrecover', hretain'⟩ :=
    hboth.2 actorOnly rfl (trainerSave 1) t ht
  constructor
  · refine ⟨s, hs, hrecover (by decide +kernel) ?_, ?_⟩
    · rw [hstate.2.1]
      decide
    · exact hretain hstate.1 1 Nat.one_pos rfl [1] (List.nodup_singleton 1)
        (List.forall_mem_singleton.mpr hstate.2.2)
  · refine ⟨t, ht, hrecover' (by decide +kernel) ?_, ?_⟩
    · rw [htstate.2.1]
      decide
    · exact (hretain' htstate.1 1 Nat.one_pos).1 rfl [1]
        (List.nodup_singleton 1) (List.forall_mem_singleton.mpr htstate.2.2)

/-- The second save, cut once the model of the first is deleted. -/
def cutInSecond : List Event :=
  handlerSave 1 ++ .save 2 :: finishes 1 ++ .io .next :: finishes 3 ++
    [.io .next, .io (.run 0 (.unlink
      (oneRank.shardFile (globalStepFolder 1) "model" 0)))]

/-- With a limit of one the tracker then leads to a checkpoint without its
model. -/
theorem not_recoverable_keepOne :
    ∃ s, (keepOne.saver fun _ => "data").runs.exec
        (keepOne.saver fun _ => "data").runs.initial cutInSecond = some s ∧
      s.completed = some 1 ∧ s.disk.read trackerFile = some "1" ∧
      ¬ Recoverable (fun _ => "data") keepOne.files s := by
  have hrun : ((keepOne.saver fun _ => "data").runs.exec
      (keepOne.saver fun _ => "data").runs.initial cutInSecond).map
      (fun s => (s.completed, s.disk.read trackerFile, s.disk.read
        (oneRank.shardFile (globalStepFolder 1) "model" 0))) =
      some (some 1, some "1", none) := by
    decide +kernel
  obtain ⟨s, hs, hstate⟩ := Option.map_eq_some_iff.mp hrun
  simp only [Prod.mk.injEq] at hstate
  obtain ⟨hcompleted, htracker, hmodel⟩ := hstate
  refine ⟨s, hs, hcompleted, htracker, fun hrecover => ?_⟩
  obtain ⟨step, -, hfound, hfiles⟩ := hrecover 1 hcompleted
  have hfolder : globalStepFolder step = globalStepFolder 1 :=
    eq_folder_of_findLatestCkptPath htracker hfound
  have hstep : step = 1 :=
    eq_of_folders (List.prefix_refl _) (hfolder ▸ List.prefix_refl _)
  subst hstep
  have hread := hfiles (oneRank.shardFile (globalStepFolder 1) "model" 0)
    (by decide +kernel)
  rw [hmodel] at hread
  cases hread

end Crash

end CheckpointManager

end SelfDistillation
