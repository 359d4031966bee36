/-
What a checkpoint save does to the disk: the rotation of old checkpoints
(verl/utils/checkpoint/checkpoint_manager.py), the files of an FSDP
checkpoint (fsdp_checkpoint_manager.py), and the two callers that write the
dataloader state and the tracker (checkpoint_handler.py and
trainer/ppo/ray_trainer.py).
-/
import SelfDistillation.Library.FileSystem
import SelfDistillation.Python

namespace SelfDistillation

namespace CheckpointManager

open FileSystem

/-- `global_step_{step}` in the default local directory. -/
def globalStepFolder (step : Nat) : Path :=
  ["global_step_" ++ Nat.repr step]

def trackerFile : Path := ["latest_checkpointed_iteration.txt"]

def tempTrackerFile : Path := ["latest_checkpointed_iteration.txt.tmp"]

/-- `int(text)` of what a tracker can hold: digits, or nothing. -/
def readIteration (text : String) : Py Nat :=
  match text.toNat? with
  | some iteration => .ok iteration
  | none => .error (.valueError "invalid literal for int() with base 10")

def findLatestCkptPath (disk : Disk) : Py (Option Path) :=
  match disk.read trackerFile with
  | none => .ok none
  | some text => do
      let iteration ← readIteration text
      let ckptPath := globalStepFolder iteration
      return if disk.isThere ckptPath then some ckptPath else none

/-- What is removed, and `previous_saved_paths` afterwards. -/
def ensureCheckpointCapacity (maxCkptToKeep : Option Int)
    (previousSavedPaths : List Path) : List Op × List Path :=
  match maxCkptToKeep with
  | none => ([], previousSavedPaths)
  | some max =>
      if max > 1 ∧ previousSavedPaths.length ≥ max then
        let keepStart := previousSavedPaths.length - max.toNat + 1
        ((previousSavedPaths.take keepStart).map .rmtree,
          previousSavedPaths.drop keepStart)
      else ([], previousSavedPaths)

def registerCheckpoint (newPath : Path) (maxCkptToKeep : Option Int)
    (previousSavedPaths : List Path) : List Op × List Path :=
  let previousSavedPaths := previousSavedPaths ++ [newPath]
  match maxCkptToKeep with
  | none => ([], previousSavedPaths)
  | some max =>
      if max > 0 ∧ previousSavedPaths.length > max then
        let keepStart := previousSavedPaths.length - max.toNat
        ((previousSavedPaths.take keepStart).map .rmtree,
          previousSavedPaths.drop keepStart)
      else ([], previousSavedPaths)

section Rotation

variable {maxCkptToKeep : Option Int} {previousSavedPaths : List Path}
  {newPath : Path}

/-- How many paths `ensure_checkpoint_capacity` removes. -/
def ensured (maxCkptToKeep : Option Int) (length : Nat) : Nat :=
  match maxCkptToKeep with
  | none => 0
  | some max =>
      if max > 1 ∧ length ≥ max then length - max.toNat + 1 else 0

/-- How many paths `register_checkpoint` removes. -/
def registered (maxCkptToKeep : Option Int) (length : Nat) : Nat :=
  match maxCkptToKeep with
  | none => 0
  | some max => if max > 0 ∧ length > max then length - max.toNat else 0

theorem ensured_le (maxCkptToKeep : Option Int) (length : Nat) :
    ensured maxCkptToKeep length ≤ length := by
  cases maxCkptToKeep with
  | none => exact Nat.zero_le _
  | some max =>
      simp only [ensured]
      split
      · omega
      · exact Nat.zero_le _

theorem registered_le (maxCkptToKeep : Option Int) (length : Nat) :
    registered maxCkptToKeep (length + 1) ≤ length := by
  cases maxCkptToKeep with
  | none => exact Nat.zero_le _
  | some max =>
      simp only [registered]
      split
      · omega
      · exact Nat.zero_le _

theorem length_le_of_rotated (maxCkptToKeep : Option Int) (length : Nat)
    (max : Nat) (hmax : maxCkptToKeep = some (max : Int)) (hpos : 0 < max) :
    length + 1 - (ensured maxCkptToKeep length + registered maxCkptToKeep
      (length - ensured maxCkptToKeep length + 1)) ≤ max := by
  subst hmax
  have hle := ensured_le (some (max : Int)) length
  simp only [ensured, registered] at hle ⊢
  split
  · split
    · omega
    · omega
  · split
    · omega
    · omega

/-- The newest of the paths is removed under a limit of one only. -/
theorem rotated_le (maxCkptToKeep : Option Int) (length : Nat)
    (hone : maxCkptToKeep ≠ some 1) :
    ensured maxCkptToKeep length + registered maxCkptToKeep
      (length - ensured maxCkptToKeep length + 1) ≤ length - 1 := by
  cases maxCkptToKeep with
  | none => exact Nat.zero_le _
  | some max =>
      have hne : max ≠ 1 := fun h => hone (h ▸ rfl)
      simp only [registered, ensured]
      split
      · split
        · omega
        · omega
      · split
        · omega
        · omega

theorem ensureCheckpointCapacity_eq :
    ensureCheckpointCapacity maxCkptToKeep previousSavedPaths =
      ((previousSavedPaths.take (ensured maxCkptToKeep
          previousSavedPaths.length)).map .rmtree,
        previousSavedPaths.drop (ensured maxCkptToKeep
          previousSavedPaths.length)) := by
  cases maxCkptToKeep with
  | none => rfl
  | some max =>
      simp only [ensureCheckpointCapacity, ensured]
      split
      · rfl
      · rfl

theorem registerCheckpoint_eq :
    registerCheckpoint newPath maxCkptToKeep previousSavedPaths =
      (((previousSavedPaths ++ [newPath]).take (registered maxCkptToKeep
          (previousSavedPaths.length + 1))).map .rmtree,
        (previousSavedPaths ++ [newPath]).drop (registered maxCkptToKeep
          (previousSavedPaths.length + 1))) := by
  cases maxCkptToKeep with
  | none => rfl
  | some max =>
      simp only [registerCheckpoint, registered, List.length_append,
        List.length_singleton]
      split
      · rfl
      · rfl

/-- All that a save removes. -/
def rotated (maxCkptToKeep : Option Int) (paths : List Path)
    (newPath : Path) : List Op :=
  (ensureCheckpointCapacity maxCkptToKeep paths).1 ++
    (registerCheckpoint newPath maxCkptToKeep
      (ensureCheckpointCapacity maxCkptToKeep paths).2).1

/-- `previous_saved_paths` after it. -/
def recordedAfter (maxCkptToKeep : Option Int) (paths : List Path)
    (newPath : Path) : List Path :=
  (registerCheckpoint newPath maxCkptToKeep
    (ensureCheckpointCapacity maxCkptToKeep paths).2).2

/-- Both rotations of a save together take the oldest paths, and no more than
the limit stay. -/
theorem exists_rotation (maxCkptToKeep : Option Int)
    (previousSavedPaths : List Path) (newPath : Path) :
    ∃ k ≤ previousSavedPaths.length,
      rotated maxCkptToKeep previousSavedPaths newPath =
        ((previousSavedPaths ++ [newPath]).take k).map .rmtree ∧
      recordedAfter maxCkptToKeep previousSavedPaths newPath =
        (previousSavedPaths ++ [newPath]).drop k ∧
      (∀ max : Nat, maxCkptToKeep = some (max : Int) → 0 < max →
        previousSavedPaths.length + 1 - k ≤ max) ∧
      (maxCkptToKeep ≠ some 1 → k ≤ previousSavedPaths.length - 1) := by
  have hensured := ensured_le maxCkptToKeep previousSavedPaths.length
  have hregistered := registered_le maxCkptToKeep
    (previousSavedPaths.length - ensured maxCkptToKeep
      previousSavedPaths.length)
  have hlimit := length_le_of_rotated maxCkptToKeep previousSavedPaths.length
  have hone := rotated_le maxCkptToKeep previousSavedPaths.length
  rw [rotated, recordedAfter, registerCheckpoint_eq,
    ensureCheckpointCapacity_eq]
  generalize ensured maxCkptToKeep previousSavedPaths.length = a at *
  rw [List.length_drop] at *
  generalize registered maxCkptToKeep
    (previousSavedPaths.length - a + 1) = b at *
  have hdrop : previousSavedPaths.drop a ++ [newPath] =
      (previousSavedPaths ++ [newPath]).drop a :=
    (List.drop_append_of_le_length hensured).symm
  have htake : previousSavedPaths.take a =
      (previousSavedPaths ++ [newPath]).take a :=
    (List.take_append_of_le_length hensured).symm
  refine ⟨a + b, by omega, ?_, ?_, hlimit, hone⟩
  · simp only
    rw [hdrop, htake, ← List.map_append, ← List.take_add]
  · simp only
    rw [hdrop, List.drop_drop]

end Rotation

/-- The state of a manager that decides what it writes. -/
structure FsdpCheckpointManager where
  worldSize : Nat
  worldSize_pos : 0 < worldSize
  shouldSaveModel : Bool
  shouldSaveOptimizer : Bool
  shouldSaveExtra : Bool
  shouldSaveHfModel : Bool
  /-- What `save_pretrained` writes for the configuration and the processor. -/
  configFiles : List String
  /-- What it writes for the model. -/
  hfModelFiles : List String

section Saving

-- The bytes of the files of a checkpoint.
variable (contents : Path → String)

def writeAll (files : List Path) : List Op :=
  files.map fun file => .write file (contents file)

namespace FsdpCheckpointManager

variable (m : FsdpCheckpointManager) (localPath : Path)

/-- `{kind}_world_size_{world_size}_rank_{rank}.pt` -/
def shardFile (kind : String) (rank : Nat) : Path :=
  localPath ++ [kind ++ "_world_size_" ++ Nat.repr m.worldSize ++ "_rank_" ++
    Nat.repr rank ++ ".pt"]

def shardFiles (rank : Nat) : List Path :=
  (if m.shouldSaveModel then [m.shardFile localPath "model" rank] else []) ++
  (if m.shouldSaveOptimizer then [m.shardFile localPath "optim" rank]
    else []) ++
  (if m.shouldSaveExtra then [m.shardFile localPath "extra_state" rank]
    else [])

def huggingface : Path := localPath ++ ["huggingface"]

/-- Written on rank 0 only. -/
def configPaths : List Path :=
  m.configFiles.map (fun file => huggingface localPath ++ [file]) ++
    [localPath ++ ["fsdp_config.json"]]

def hfModelPaths : List Path :=
  m.hfModelFiles.map fun file => huggingface localPath ++ [file]

def files : List Path :=
  (List.range m.worldSize).flatMap (m.shardFiles localPath) ++
    m.configPaths localPath ++
    if m.shouldSaveHfModel then m.hfModelPaths localPath else []

def onRanks (program : Nat → List Op) : List (List Op) :=
  (List.range m.worldSize).map program

/-- What the ranks do between the barriers; `removed` is what
`ensure_checkpoint_capacity` takes away. -/
def saveGroups (removed : List Op) : Groups :=
  [m.onRanks fun rank =>
      (if rank = 0 then removed else []) ++ [.mkdir localPath],
    m.onRanks fun rank =>
      writeAll contents (m.shardFiles localPath rank) ++
        if rank = 0 then .mkdir (huggingface localPath) ::
          writeAll contents (m.configPaths localPath)
        else []] ++
  if m.shouldSaveHfModel then
    [m.onRanks fun rank =>
      if rank = 0 then .mkdir (huggingface localPath) ::
        writeAll contents (m.hfModelPaths localPath)
      else []]
  else []

/-- A save up to its last barrier, what rank 0 removes after it, and
`previous_saved_paths` in the end. -/
def saveCheckpoint (maxCkptToKeep : Option Int)
    (previousSavedPaths : List Path) : Groups × List Op × List Path :=
  let ensured := ensureCheckpointCapacity maxCkptToKeep previousSavedPaths
  let registered := registerCheckpoint localPath maxCkptToKeep ensured.2
  (m.saveGroups contents localPath ensured.1, registered.1, registered.2)

end FsdpCheckpointManager

inductive OrchestrationMode
  | spmd
  | ray
deriving DecidableEq, Repr

structure CheckpointHandler where
  mode : OrchestrationMode
  engine : FsdpCheckpointManager
  maxCkptToKeep : Option Int
  hasLoraTrainMeta : Bool
  /-- `dp_rank` of the ranks that are `is_mp_src_rank_with_outputs`. -/
  dpRank : Nat → Option Nat

namespace CheckpointHandler

variable (h : CheckpointHandler)

def loraMetaPath (step : Nat) : Path :=
  globalStepFolder step ++ ["lora_train_meta.json"]

def dataloaderPath (step dpRank : Nat) : Path :=
  globalStepFolder step ++ ["data_" ++ Nat.repr dpRank ++ ".pt"]

/-- What a rank does once the engine has saved, but for the tracker. -/
def saveState (step rank : Nat) (dpRank : Option Nat) : List Op :=
  (if rank = 0 ∧ h.hasLoraTrainMeta then
    .mkdir (globalStepFolder step) :: writeAll contents [loraMetaPath step]
  else []) ++
  match dpRank with
  | some dpRank => .mkdir (globalStepFolder step) ::
      writeAll contents [dataloaderPath step dpRank]
  | none => []

/-- The tracker is replaced by a file written beside it. -/
def writeTracker (step : Nat) : List Op :=
  [.write tempTrackerFile (Nat.repr step), .rename tempTrackerFile trackerFile]

/-- The groups of a save, and `previous_saved_paths` after it. -/
def saveCheckpoint (previousSavedPaths : List Path) (step : Nat) :
    Groups × List Path :=
  let saved := h.engine.saveCheckpoint contents (globalStepFolder step)
    h.maxCkptToKeep previousSavedPaths
  match h.mode with
  | .spmd => (saved.1 ++ [h.engine.onRanks fun rank =>
      (if rank = 0 then saved.2.1 else []) ++
        h.saveState contents step rank (h.dpRank rank) ++
        if rank = 0 then writeTracker step else []], saved.2.2)
  | .ray => (saved.1 ++ [[saved.2.1],
      [h.saveState contents step 0 (some 0) ++ writeTracker step]],
      saved.2.2)

/-- Every file of a checkpoint. -/
def files (step : Nat) : List Path :=
  h.engine.files (globalStepFolder step) ++
  (if h.hasLoraTrainMeta then [loraMetaPath step] else []) ++
  match h.mode with
  | .spmd => ((List.range h.engine.worldSize).filterMap h.dpRank).map
      (dataloaderPath step)
  | .ray => [dataloaderPath step 0]

end CheckpointHandler

structure PpoTrainer where
  actor : FsdpCheckpointManager
  maxActorCkptToKeep : Option Int
  /-- The manager of the critic, where one is used. -/
  critic : Option FsdpCheckpointManager
  maxCriticCkptToKeep : Option Int
  asyncSave : Bool

namespace PpoTrainer

variable (t : PpoTrainer)

def actorLocalPath (step : Nat) : Path := globalStepFolder step ++ ["actor"]

def criticLocalPath (step : Nat) : Path := globalStepFolder step ++ ["critic"]

def dataloaderLocalPath (step : Nat) : Path :=
  globalStepFolder step ++ ["data.pt"]

/-- `if self.use_critic`. -/
def saveCritic (previousSavedPaths : List Path) (step : Nat) :
    Groups × List Op × List Path :=
  match t.critic with
  | some critic => critic.saveCheckpoint contents (criticLocalPath step)
      t.maxCriticCkptToKeep previousSavedPaths
  | none => ([], [], previousSavedPaths)

/-- The trainer waits for the actor's workers, then for the critic's; the
tracker is written in place. -/
def saveCheckpoint (previousSavedPaths : List Path × List Path)
    (step : Nat) : Groups × List Path × List Path :=
  let actor := t.actor.saveCheckpoint contents (actorLocalPath step)
    t.maxActorCkptToKeep previousSavedPaths.1
  let critic := t.saveCritic contents previousSavedPaths.2 step
  (actor.1 ++ [[actor.2.1]] ++ critic.1 ++ [[critic.2.1],
    [.mkdir (globalStepFolder step) ::
      writeAll contents [dataloaderLocalPath step] ++
      if t.asyncSave then [] else [.write trackerFile (Nat.repr step)]]],
    actor.2.2, critic.2.2)

def criticFiles (step : Nat) : List Path :=
  match t.critic with
  | some critic => critic.files (criticLocalPath step)
  | none => []

def files (step : Nat) : List Path :=
  t.actor.files (actorLocalPath step) ++ t.criticFiles step ++
    [dataloaderLocalPath step]

end PpoTrainer

end Saving

end CheckpointManager

end SelfDistillation
