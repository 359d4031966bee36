/-
The environment loop of the VLA trainer (verl/experimental/vla): `EnvLoop`
(env_loop.py), and `reset_envs_to_state_ids` and `env_interact_step`
(workers/env/env_worker.py) with their dispatch over the workers.  A
`DataProto` is seen as its rows.
-/
import SelfDistillation.NdDispatch
import SelfDistillation.Library.Blocks
import SelfDistillation.Library.Interleaving

namespace SelfDistillation

open Blocks Interleaving

variable {α β σ o a ω ρ δ τ ν μ X : Type}

section Rows

/-- `DataProto.chunk`, on rows -/
def chunkRows (rows : List α) (chunks : Nat) : Py (List (List α)) :=
  if chunks = 0 then .error .zeroDivisionError
  else do
    pyAssert (rows.length % chunks == 0)
      (s!"only support equal chunk. Got size of DataProto {rows.length} " ++
        s!"and chunk {chunks}.")
    return (List.range chunks).map
      (Schema.piece (rows.length / chunks) rows)

/-- `DataProto.concat`, on rows -/
def concatRows (data : List (List α)) : Py (List α) :=
  match data with
  | [] => .error .indexError
  | _ => .ok data.flatten

/-- `dispatch_nd_compute_dataproto` for one positional argument -/
def dispatchRows (mesh : Mesh) (rows : List α) : Py (List (List α)) := do
  let chunks ← chunkRows rows mesh.dpSize
  pyAssert (chunks.length == mesh.dpSize) ""
  let refs ← parallelPut chunks
  transformArg mesh.dpRankMapping mesh.dpSize mesh.worldSize refs

/-- `collect_nd_compute_dataproto` -/
def collectRows (mesh : Mesh) (output : List (List α)) : Py (List α) := do
  let output ← collectNdCompute mesh.collectMask mesh.worldSize output
  pyAssert (!output.isEmpty)
    "expecting concatable output, but got element type empty"
  concatRows output

/-- Every worker on what was dispatched to it -/
def runWorkers (worldSize : Nat) (worker : Nat → List α → Py β)
    (parts : List (List α)) : Py (List β) :=
  (List.range worldSize).mapM fun rank =>
    match parts[rank]? with
    | none => .error .indexError
    | some part => worker rank part

theorem chunkRows_eq {rows : List α} {chunks size : Nat}
    (hchunks : 0 < chunks) (hlen : rows.length = chunks * size) :
    chunkRows rows chunks =
      .ok ((List.range chunks).map (Schema.piece size rows)) := by
  rw [chunkRows, if_neg hchunks.ne', hlen, Nat.mul_mod_right,
    Nat.mul_div_cancel_left size hchunks]
  rfl

theorem concatRows_eq {data : List (List α)} (hne : data ≠ []) :
    concatRows data = .ok data.flatten := by
  obtain ⟨first, rest, rfl⟩ := List.exists_cons_of_ne_nil hne
  rfl

end Rows

section Columns

variable [DecidableEq μ] [MetaValue μ] {schema : Schema X τ ν μ}

omit [DecidableEq μ] in
/-- A `DataProto` with rows is cut as its rows are. -/
theorem chunk_build_eq (hcolumn : schema.HasColumn)
    (hpadding : "_verl_auto_padding" ∉ schema.metaInfo.keys) {xs : List X}
    (hxs : xs ≠ []) (chunks : Nat) :
    (schema.build xs).chunk false chunks =
      (fun pieces => pieces.map schema.build) <$> chunkRows xs chunks := by
  have hdisabled : (schema.build xs).isPaddingEnabled false = false := by
    have hnone : (schema.build xs).metaInfo.get? "_verl_auto_padding" =
        none := PyDict.get?_eq_none_iff.mpr hpadding
    rw [DataProto.isPaddingEnabled, hnone]
    rfl
  by_cases hzero : chunks = 0
  · rw [DataProto.chunk, DataProto.checkEqualChunk, hdisabled,
      if_neg Bool.false_ne_true, if_pos hzero, chunkRows, if_pos hzero]
    rfl
  · by_cases hdvd : xs.length % chunks = 0
    · obtain ⟨size, hlen⟩ := Nat.dvd_of_mod_eq_zero hdvd
      have hpos : 0 < chunks := Nat.pos_of_ne_zero hzero
      have hsize : 0 < size := by
        apply Nat.pos_of_ne_zero
        rintro rfl
        exact hxs (List.eq_nil_of_length_eq_zero hlen)
      rw [Schema.chunk_build hcolumn false hlen hpos (.inl hsize),
        chunkRows_eq hpos hlen]
      simp [Functor.map, Except.map, Function.comp_def]
    · have hcheck : (xs.length % chunks == 0) = false := by
        rw [beq_eq_false_iff_ne]
        exact hdvd
      rw [DataProto.chunk, DataProto.checkEqualChunk, hdisabled,
        if_neg Bool.false_ne_true, if_neg hzero,
        Schema.length_build hcolumn, chunkRows, if_neg hzero, hcheck]
      rfl

/-- Such `DataProto`s are put together as their rows are. -/
theorem concat_build_eq (hmetrics : "metrics" ∉ schema.metaInfo.keys)
    {xss : List (List X)} (hne : xss ≠ []) :
    DataProto.concat (xss.map schema.build) =
      schema.build <$> concatRows xss := by
  rw [concatRows_eq hne]
  change DataProto.concat _ = .ok (schema.build xss.flatten)
  rw [Schema.concat_build_eq_ok hne]
  exact ⟨schema.metaInfo, DataProto.mergeMetaInfo_replicate
    (List.length_pos_iff.mpr hne) hmetrics, rfl⟩

end Columns

inductive SimulatorType
  | libero
  | isaac
deriving DecidableEq

/-- The configuration of `EnvLoop`, as its `__init__` lets it pass: every
worker has `numEnvs` environments for each stage. -/
structure EnvLoop where
  worldSize : Nat
  stageNum : Nat
  numEnvs : Nat
  maxInteractions : Nat
  simulatorType : SimulatorType
  worldSize_pos : 0 < worldSize
  stageNum_pos : 0 < stageNum
  numEnvs_pos : 0 < numEnvs
  divisible : worldSize * numEnvs % stageNum = 0

/-- What an environment answers to an action. -/
structure StepResult (o ρ δ : Type) where
  obs : o
  rew : ρ
  termination : δ
  truncation : δ

/-- The environments, each at its worker, stage and slot.  A reset gets the
state id and the task id. -/
structure Simulators (σ o a ρ δ : Type) where
  reset : Nat → Nat → Nat → Int × Int → σ × o
  step : Nat → Nat → Nat → σ → a → σ × StepResult o ρ δ

/-- What the rollout workers make of an observation, given the stage, the
step and the row of the batch. -/
abbrev Policy (o ω : Type) := Nat → Nat → Nat → o → ω

/-- An element of a stage's trajectory: a dictionary that is filled while the
step runs. -/
structure StepData (ω ρ δ : Type) where
  action : Option (List ω) := none
  rew : Option (List ρ) := none
  done : Option (List δ) := none

/-- What `_stage_loop` works on: the trajectory of the stage, the rollout
under way and the simulators of the stage. -/
structure StageState (σ ω ρ δ : Type) where
  trajectory : List (StepData ω ρ δ)
  rolloutFuture : List ω
  simulators : Nat → List σ
  stepIdx : Nat

/-- The batch `run` returns: the rollout outputs and the completion flags of a
row, step by step. -/
structure TrajectoryBatch (ω δ : Type) where
  outputs : List (List ω)
  complete : List (List δ)
  envStateId : List Int
deriving DecidableEq

namespace EnvLoop

variable (loop : EnvLoop)

/-- The mesh `("env", (world_size, 1))`: every rank is a dp rank and is
collected. -/
def mesh : Mesh where
  worldSize := loop.worldSize
  dpSize := loop.worldSize
  dpRankMapping := List.range loop.worldSize
  collectMask := List.replicate loop.worldSize true
  worldSize_pos := loop.worldSize_pos
  length_dpRankMapping := List.length_range
  length_collectMask := List.length_replicate
  dpRank_lt := fun _ => List.mem_range.mp
  collecting := by
    rw [List.filter_eq_self.mpr, List.map_fst_zip]
    · rw [List.length_range, List.length_replicate]
    · intro e he
      exact List.eq_of_mem_replicate (List.of_mem_zip he).2

section Workers

variable (simulators : Simulators σ o a ρ δ)

/-- The part of `reset_envs_to_state_ids` for a stage -/
def resetStage (worker : Nat) (rows : List (Int × Int)) (stageId : Nat) :
    Py (List (σ × o)) := do
  let slice := Schema.piece loop.numEnvs rows stageId
  if loop.simulatorType = .isaac then
    pyAssert ((slice.map Prod.fst).dedup.length == 1)
      "rollout.n should equal to num_envs for isaac"
  return slice.zipIdx.map fun entry =>
    simulators.reset worker stageId entry.2 entry.1

/-- `EnvWorker.reset_envs_to_state_ids`: the environments of each stage -/
def resetEnvsToStateIds (worker : Nat) (rows : List (Int × Int)) :
    Py (List (List (σ × o))) := do
  pyAssert (rows.length == loop.numEnvs * loop.stageNum)
    (s!"state_ids_list length is {rows.length}, but should be " ++
      s!"{loop.numEnvs * loop.stageNum}")
  (List.range loop.stageNum).mapM (loop.resetStage simulators worker rows)

/-- `_reset_envs`: the states the environments are in, by worker and stage,
and the observations. -/
def resetEnvs (rows : List (Int × Int)) :
    Py ((Nat → Nat → List σ) × List o) := do
  let parts ← dispatchRows loop.mesh rows
  let results ← runWorkers loop.worldSize
    (loop.resetEnvsToStateIds simulators) parts
  let obs ← collectRows loop.mesh
    (results.map fun result => result.flatten.map Prod.snd)
  return (fun worker stageId =>
    ((results.getD worker []).getD stageId []).map Prod.fst, obs)

/-- `chunk_step` of the simulator of a worker and stage -/
def chunkStep (stageId : Nat) (states : Nat → List σ) (worker : Nat)
    (chunkActions : List a) : Py (List (σ × StepResult o ρ δ)) :=
  if chunkActions.length = (states worker).length then
    .ok (((states worker).zip chunkActions).zipIdx.map fun entry =>
      simulators.step worker stageId entry.2 entry.1.1 entry.1.2)
  else .error .indexError

/-- `env_interact_step` of all workers -/
def envInteractStep (stageId : Nat) (states : Nat → List σ)
    (actions : List a) : Py ((Nat → List σ) × List (StepResult o ρ δ)) := do
  let parts ← dispatchRows loop.mesh actions
  let results ← runWorkers loop.worldSize
    (chunkStep simulators stageId states) parts
  let collected ← collectRows loop.mesh
    (results.map fun result => result.map Prod.snd)
  return (fun worker => (results.getD worker []).map Prod.fst, collected)

end Workers

section Run

variable (simulators : Simulators σ o a ρ δ) (policy : Policy o ω)
  (actionOf : ω → a)

/-- `_restructure_obs_data` -/
def restructureObsData (data : List o) : Py (List (List o)) := do
  let chunks ← chunkRows data loop.worldSize
  let stageChunks ← chunks.mapM fun workerChunk =>
    chunkRows workerChunk loop.stageNum
  (List.range loop.stageNum).mapM fun stageId =>
    concatRows (stageChunks.map fun staged => staged.getD stageId [])

/-- `rollout_wg.generate_sequences`, row by row -/
def generateSequences (policy : Policy o ω) (stageId stepIdx : Nat)
    (vlaInput : List o) : List ω :=
  vlaInput.zipIdx.map fun entry => policy stageId stepIdx entry.2 entry.1

/-- A stage before its loop: its first rollout is under way. -/
def startStage (policy : Policy o ω) (stagedObs : List (List o))
    (states : Nat → Nat → List σ) (stageId : Nat) : StageState σ ω ρ δ where
  trajectory := [{}]
  rolloutFuture := generateSequences policy stageId 0
    (stagedObs.getD stageId [])
  simulators := fun worker => states worker stageId
  stepIdx := 0

/-- One turn of `_stage_loop` -/
def stageStep (stageId : Nat) (stage : StageState σ ω ρ δ) :
    Py (StageState σ ω ρ δ) :=
  match stage.trajectory.getLast? with
  | none => .error .indexError
  | some last => do
      let actionResult := stage.rolloutFuture
      let (states, envResult) ← loop.envInteractStep simulators stageId
        stage.simulators (actionResult.map actionOf)
      let stepData := { last with
        action := some actionResult
        rew := some (envResult.map StepResult.rew)
        done := some (envResult.map StepResult.termination) }
      let trajectory := stage.trajectory.dropLast ++ [stepData]
      if stage.stepIdx < loop.maxInteractions - 1 then
        return {
          trajectory := trajectory ++ [{}]
          rolloutFuture := generateSequences policy stageId
            (stage.stepIdx + 1) (envResult.map StepResult.obs)
          simulators := states
          stepIdx := stage.stepIdx + 1 }
      else
        return { stage with
          trajectory, simulators := states, stepIdx := stage.stepIdx + 1 }

/-- One key of `flat_trajs[step_idx]` -/
def mergeKey (key : String) : Option (List α) → Option (List α) →
    Py (Option (List α))
  | flat, none => .ok flat
  | none, some _ => .error (.keyError key)
  | some flat, some value => .ok (some (flat ++ value))

/-- `if not flat_trajs[step_idx]` -/
def isEmptyStep (step : StepData ω ρ δ) : Bool :=
  step.action.isNone && step.rew.isNone && step.done.isNone

def mergeStep (flat stepData : StepData ω ρ δ) : Py (StepData ω ρ δ) :=
  if isEmptyStep flat then .ok stepData
  else do
    let action ← mergeKey "action" flat.action stepData.action
    let rew ← mergeKey "rew" flat.rew stepData.rew
    let done ← mergeKey "done" flat.done stepData.done
    return { action, rew, done }

/-- The inner loop of `_collate_trajectories` -/
def addStage : List (StepData ω ρ δ) → List (StepData ω ρ δ) →
    Py (List (StepData ω ρ δ))
  | flatTrajs, [] => .ok flatTrajs
  | [], _ :: _ => .error .indexError
  | flat :: flatTrajs, stepData :: trajectory => do
      let merged ← mergeStep flat stepData
      let rest ← addStage flatTrajs trajectory
      return merged :: rest

/-- `torch.stack(steps, dim=1)` -/
def stackSteps (steps : List (List α)) : Py (List (List α)) :=
  match steps with
  | [] => .error (.runtimeError "stack expects a non-empty TensorList")
  | first :: _ =>
      if ∀ step ∈ steps, step.length = first.length then
        .ok ((List.range first.length).map fun row =>
          steps.filterMap fun step => step[row]?)
      else .error (.runtimeError
        "stack expects each tensor to be equal size")

/-- `step[key]` -/
def getKey (key : String) : Option (List α) → Py (List α)
  | some value => .ok value
  | none => .error (.keyError key)

/-- `_collate_trajectories` -/
def collateTrajectories (trajectories : Nat → List (StepData ω ρ δ))
    (initialStateIds : List Int) : Py (TrajectoryBatch ω δ) := do
  let flatTrajs ← (List.range loop.stageNum).foldlM
    (fun flatTrajs stageId => addStage flatTrajs (trajectories stageId))
    (List.replicate (trajectories 0).length {})
  let outputs ← stackSteps (← flatTrajs.mapM fun step =>
    getKey "action" step.action)
  let complete ← stackSteps (← flatTrajs.mapM fun step =>
    getKey "done" step.done)
  pyAssert (complete.length == outputs.length &&
      initialStateIds.length == outputs.length)
    "Not all the tensor in tensors have the same batch size with batch_dims=1."
  return { outputs, complete, envStateId := initialStateIds }

/-- `EnvLoop.run`.  The loops of the stages run as tasks; `order` is the order
in which their turns come. -/
def run (order : List Nat) (initialStateIds : List Int)
    (states : Nat → Nat → List σ) (resetResults : List o) :
    Py (TrajectoryBatch ω δ) := do
  let stagedObs ← loop.restructureObsData resetResults
  let stages ← runTasks (loop.stageStep simulators policy actionOf)
    (startStage policy stagedObs states) order
  loop.collateTrajectories (fun stageId => (stages stageId).trajectory)
    initialStateIds

end Run

section Calls

/-- Every worker gets its piece of the rows. -/
theorem dispatchRows_eq {rows : List α} {size : Nat}
    (hlen : rows.length = loop.worldSize * size) :
    dispatchRows loop.mesh rows =
      .ok ((List.range loop.worldSize).map (Schema.piece size rows)) := by
  have hne : ((List.range loop.mesh.dpSize).map
      (Schema.piece size rows)).isEmpty = false := by
    rw [List.isEmpty_eq_false_iff, ne_eq, List.map_eq_nil_iff,
      List.range_eq_nil]
    exact loop.mesh.dpSize_pos.ne'
  have hchunks : chunkRows rows loop.mesh.dpSize =
      .ok ((List.range loop.mesh.dpSize).map (Schema.piece size rows)) :=
    chunkRows_eq loop.worldSize_pos hlen
  rw [dispatchRows, hchunks, ok_bind, List.length_map, List.length_range,
    parallelPut, hne, beq_self_eq_true, pyAssert_true, ok_bind,
    Bool.not_false, pyAssert_true, ok_bind]
  exact transformArg_parts loop.mesh (Schema.piece size rows)

theorem dvd_of_dispatchRows {rows : List α} {parts : List (List α)}
    (h : dispatchRows loop.mesh rows = .ok parts) :
    loop.worldSize ∣ rows.length := by
  obtain ⟨chunks, hchunks, -⟩ := bind_eq_ok.mp h
  have hne : loop.mesh.dpSize ≠ 0 := loop.worldSize_pos.ne'
  rw [chunkRows, if_neg hne, bind_eq_ok] at hchunks
  obtain ⟨_, hassert, -⟩ := hchunks
  rw [pyAssert_eq_ok, beq_iff_eq] at hassert
  exact Nat.dvd_of_mod_eq_zero hassert

/-- The outputs are collected in the order of the workers. -/
theorem collectRows_eq (f : Nat → List α) :
    collectRows loop.mesh ((List.range loop.worldSize).map f) =
      .ok (blocks loop.worldSize f) := by
  have hne : (List.range loop.worldSize).map f ≠ [] := by
    rw [ne_eq, List.map_eq_nil_iff, List.range_eq_nil]
    exact loop.worldSize_pos.ne'
  have hcollect : collectNdCompute loop.mesh.collectMask loop.mesh.worldSize
      ((List.range loop.worldSize).map f) = _ :=
    collectNdCompute_mapping loop.mesh f
  rw [collectRows, hcollect, ok_bind]
  change (pyAssert (!((List.range loop.worldSize).map f).isEmpty) _ >>= fun _ =>
    concatRows ((List.range loop.worldSize).map f)) = _
  rw [List.isEmpty_eq_false_iff.mpr hne, Bool.not_false, pyAssert_true,
    ok_bind, concatRows_eq hne, blocks, List.flatMap_def]

omit loop in
theorem runWorkers_eq {worldSize : Nat} {worker : Nat → List α → Py β}
    {part : Nat → List α} {out : Nat → β}
    (h : ∀ rank < worldSize, worker rank (part rank) = .ok (out rank)) :
    runWorkers worldSize worker ((List.range worldSize).map part) =
      .ok ((List.range worldSize).map out) := by
  apply mapM_eq_ok_of_forall
  intro rank hrank
  have hlt := List.mem_range.mp hrank
  rw [List.getElem?_map, List.getElem?_range hlt]
  exact h rank hlt

end Calls

section Reset

variable (simulators : Simulators σ o a ρ δ) (rows : List (Int × Int))

/-- The state id and the task id sent to an environment. -/
def idsAt (worker stageId slot : Nat) : Int × Int :=
  rows.getD ((worker * loop.stageNum + stageId) * loop.numEnvs + slot) (0, 0)

/-- The rows `reset_envs_to_state_ids` accepts: the right number, and for
Isaac one state id for each simulator. -/
structure Accepted : Prop where
  length_rows : rows.length =
    loop.worldSize * (loop.stageNum * loop.numEnvs)
  sameState : loop.simulatorType = .isaac → ∀ worker < loop.worldSize,
    ∀ stageId < loop.stageNum, ((List.range loop.numEnvs).map fun slot =>
      (loop.idsAt rows worker stageId slot).1).dedup.length = 1

variable {rows}

/-- What a worker is sent -/
theorem piece_rows (hlen : rows.length =
    loop.worldSize * (loop.stageNum * loop.numEnvs)) {worker : Nat}
    (hworker : worker < loop.worldSize) :
    Schema.piece (loop.stageNum * loop.numEnvs) rows worker =
      grid loop.stageNum loop.numEnvs fun stageId slot =>
        loop.idsAt rows worker stageId slot := by
  have hplace : ∀ stageId slot : Nat,
      worker * (loop.stageNum * loop.numEnvs) +
          (stageId * loop.numEnvs + slot) =
        (worker * loop.stageNum + stageId) * loop.numEnvs + slot := by
    intro stageId slot
    ring
  calc Schema.piece (loop.stageNum * loop.numEnvs) rows worker
      = Schema.piece (loop.stageNum * loop.numEnvs)
          (grid loop.worldSize (loop.stageNum * loop.numEnvs) fun i j =>
            rows.getD (i * (loop.stageNum * loop.numEnvs) + j) (0, 0))
          worker := congrArg (fun xs => Schema.piece _ xs worker)
            (eq_grid hlen (0, 0))
    _ = (List.range (loop.stageNum * loop.numEnvs)).map fun j =>
          rows.getD (worker * (loop.stageNum * loop.numEnvs) + j) (0, 0) :=
        slice_grid _ hworker
    _ = grid loop.stageNum loop.numEnvs fun stageId slot =>
          loop.idsAt rows worker stageId slot := by
        rw [map_range_mul]
        simp only [hplace, idsAt]

/-- The stage of a worker is reset to its part of the ids. -/
theorem resetStage_grid (worker : Nat) (ids : Nat → Nat → Int × Int)
    {stageId : Nat} (hstage : stageId < loop.stageNum) :
    loop.resetStage simulators worker (grid loop.stageNum loop.numEnvs ids)
        stageId =
      if loop.simulatorType = .isaac ∧ ¬ ((List.range loop.numEnvs).map
          fun slot => (ids stageId slot).1).dedup.length = 1 then
        .error (.assertionError "rollout.n should equal to num_envs for isaac")
      else .ok ((List.range loop.numEnvs).map fun slot =>
        simulators.reset worker stageId slot (ids stageId slot)) := by
  have hslice : Schema.piece loop.numEnvs
      (grid loop.stageNum loop.numEnvs ids) stageId =
        (List.range loop.numEnvs).map (ids stageId) := slice_grid ids hstage
  rw [resetStage, hslice, zipIdx_map_range, List.map_map, List.map_map]
  simp only [Function.comp_def]
  by_cases hisaac : loop.simulatorType = .isaac
  · by_cases hsame : ((List.range loop.numEnvs).map
        fun slot => (ids stageId slot).1).dedup.length = 1
    · simp [hisaac, hsame, pyAssert_true]
    · simp [hisaac, hsame, pyAssert]
  · simp [hisaac]
    rfl

/-- Every environment after the reset, with what it shows. -/
def resetAt (rows : List (Int × Int)) (worker stageId slot : Nat) : σ × o :=
  simulators.reset worker stageId slot (loop.idsAt rows worker stageId slot)

theorem resetEnvsToStateIds_eq (haccepted : loop.Accepted rows)
    {worker : Nat} (hworker : worker < loop.worldSize) :
    loop.resetEnvsToStateIds simulators worker
        (Schema.piece (loop.stageNum * loop.numEnvs) rows worker) =
      .ok ((List.range loop.stageNum).map fun stageId =>
        (List.range loop.numEnvs).map
          (loop.resetAt simulators rows worker stageId)) := by
  rw [loop.piece_rows haccepted.length_rows hworker, resetEnvsToStateIds,
    length_grid, Nat.mul_comm, beq_self_eq_true, pyAssert_true, ok_bind]
  apply mapM_eq_ok_of_forall
  intro stageId hstage
  have hlt := List.mem_range.mp hstage
  rw [resetStage_grid loop simulators worker _ hlt, if_neg]
  · rfl
  · rintro ⟨hisaac, hsame⟩
    exact hsame (haccepted.sameState hisaac worker hworker stageId hlt)

/-- The states the environments of a stage are reset to, by worker. -/
def startStates (rows : List (Int × Int)) (worker stageId : Nat) : List σ :=
  if worker < loop.worldSize ∧ stageId < loop.stageNum then
    (List.range loop.numEnvs).map fun slot =>
      (loop.resetAt simulators rows worker stageId slot).1
  else []

theorem resetEnvs_eq (haccepted : loop.Accepted rows) :
    loop.resetEnvs simulators rows =
      .ok (loop.startStates simulators rows,
        blocks loop.worldSize fun worker =>
          grid loop.stageNum loop.numEnvs fun stageId slot =>
            (loop.resetAt simulators rows worker stageId slot).2) := by
  have hworkers : runWorkers loop.worldSize _
      ((List.range loop.worldSize).map _) = _ :=
    runWorkers_eq fun worker hworker =>
      loop.resetEnvsToStateIds_eq simulators haccepted hworker
  have hflat : ∀ worker : Nat,
      (((List.range loop.stageNum).map fun stageId =>
        (List.range loop.numEnvs).map
          (loop.resetAt simulators rows worker stageId)).flatten).map Prod.snd =
      grid loop.stageNum loop.numEnvs fun stageId slot =>
        (loop.resetAt simulators rows worker stageId slot).2 := by
    intro worker
    rw [← List.flatMap_def]
    exact map_grid Prod.snd _ _ _
  rw [resetEnvs, loop.dispatchRows_eq haccepted.length_rows, ok_bind,
    hworkers, ok_bind, List.map_map]
  simp only [Function.comp_def, hflat]
  rw [collectRows_eq, ok_bind]
  apply congrArg Except.ok
  refine Prod.ext ?_ rfl
  funext worker stageId
  by_cases hworker : worker < loop.worldSize
  · by_cases hstage : stageId < loop.stageNum
    · simp [startStates, hworker, hstage, List.getD_eq_getElem?_getD]
    · simp [startStates, hworker, hstage, List.getD_eq_getElem?_getD]
  · simp [startStates, hworker, List.getD_eq_getElem?_getD]

/-- Nothing else is accepted. -/
theorem accepted_of_resetEnvs {states : Nat → Nat → List σ} {obs : List o}
    (h : loop.resetEnvs simulators rows = .ok (states, obs)) :
    loop.Accepted rows := by
  obtain ⟨parts, hparts, h⟩ := bind_eq_ok.mp h
  obtain ⟨results, hresults, -⟩ := bind_eq_ok.mp h
  obtain ⟨size, hsize⟩ := loop.dvd_of_dispatchRows hparts
  rw [loop.dispatchRows_eq hsize] at hparts
  cases hparts
  have hworker : ∀ worker < loop.worldSize, ∃ result,
      loop.resetEnvsToStateIds simulators worker
        (Schema.piece size rows worker) = .ok result := by
    intro worker hlt
    have hall := mapM_eq_ok_iff.mp hresults
    obtain ⟨result, -, hresult⟩ := getElem?_of_forall₂ hall
      (List.getElem?_range hlt)
    rw [List.getElem?_map, List.getElem?_range hlt] at hresult
    exact ⟨result, hresult⟩
  have hlen : size = loop.stageNum * loop.numEnvs := by
    obtain ⟨result, hresult⟩ := hworker 0 loop.worldSize_pos
    obtain ⟨_, hassert, -⟩ := bind_eq_ok.mp hresult
    rw [pyAssert_eq_ok, beq_iff_eq,
      Schema.length_piece hsize loop.worldSize_pos] at hassert
    rw [hassert, Nat.mul_comm]
  subst hlen
  refine ⟨hsize, fun hisaac worker hlt stageId hstage => ?_⟩
  obtain ⟨result, hresult⟩ := hworker worker hlt
  obtain ⟨_, -, hresult⟩ := bind_eq_ok.mp hresult
  rw [loop.piece_rows hsize hlt] at hresult
  obtain ⟨reset, -, hreset⟩ := getElem?_of_forall₂
    (mapM_eq_ok_iff.mp hresult) (List.getElem?_range hstage)
  rw [resetStage_grid loop simulators worker _ hstage] at hreset
  by_contra hsame
  rw [if_pos ⟨hisaac, hsame⟩] at hreset
  cases hreset

end Reset

section Course

variable (simulators : Simulators σ o a ρ δ) (policy : Policy o ω)
  (actionOf : ω → a) (rows : List (Int × Int))

/-- An environment on its own before each step: its state and what it
shows. -/
def traceAt (worker stageId slot : Nat) : Nat → σ × o
  | 0 => loop.resetAt simulators rows worker stageId slot
  | step + 1 =>
      let (state, obs) := traceAt worker stageId slot step
      let output := policy stageId step (worker * loop.numEnvs + slot) obs
      let (state, result) :=
        simulators.step worker stageId slot state (actionOf output)
      (state, result.obs)

/-- The rollout output for an environment at a step -/
def outputAt (worker stageId slot step : Nat) : ω :=
  policy stageId step (worker * loop.numEnvs + slot)
    (loop.traceAt simulators policy actionOf rows worker stageId slot step).2

/-- What the environment answers to it -/
def resultAt (worker stageId slot step : Nat) : StepResult o ρ δ :=
  (simulators.step worker stageId slot
    (loop.traceAt simulators policy actionOf rows worker stageId slot step).1
    (actionOf (loop.outputAt simulators policy actionOf rows worker stageId
      slot step))).2

/-- The finished dictionary of a step of a stage -/
def stepDataAt (stageId step : Nat) : StepData ω ρ δ where
  action := some (grid loop.worldSize loop.numEnvs fun worker slot =>
    loop.outputAt simulators policy actionOf rows worker stageId slot step)
  rew := some (grid loop.worldSize loop.numEnvs fun worker slot =>
    (loop.resultAt simulators policy actionOf rows worker stageId slot
      step).rew)
  done := some (grid loop.worldSize loop.numEnvs fun worker slot =>
    (loop.resultAt simulators policy actionOf rows worker stageId slot
      step).termination)

/-- A stage after some turns of its loop -/
def courseAt (stageId step : Nat) : StageState σ ω ρ δ where
  trajectory := (List.range step).map
      (loop.stepDataAt simulators policy actionOf rows stageId) ++
    if step < loop.maxInteractions then [{}] else []
  rolloutFuture := grid loop.worldSize loop.numEnvs fun worker slot =>
    loop.outputAt simulators policy actionOf rows worker stageId slot
      (min step (loop.maxInteractions - 1))
  simulators := fun worker =>
    if worker < loop.worldSize then
      (List.range loop.numEnvs).map fun slot =>
        (loop.traceAt simulators policy actionOf rows worker stageId slot
          step).1
    else []
  stepIdx := step

variable {rows}

/-- `env_interact_step` takes every environment of the stage one step on. -/
theorem envInteractStep_course {stageId step : Nat} :
    loop.envInteractStep simulators stageId
        (loop.courseAt simulators policy actionOf rows stageId step).simulators
        (grid loop.worldSize loop.numEnvs fun worker slot =>
          actionOf (loop.outputAt simulators policy actionOf rows worker
            stageId slot step)) =
      .ok ((loop.courseAt simulators policy actionOf rows stageId
          (step + 1)).simulators,
        grid loop.worldSize loop.numEnvs fun worker slot =>
          loop.resultAt simulators policy actionOf rows worker stageId slot
            step) := by
  have hpart : ∀ worker < loop.worldSize,
      chunkStep simulators stageId
        (loop.courseAt simulators policy actionOf rows stageId
          step).simulators worker
        (Schema.piece loop.numEnvs
          (grid loop.worldSize loop.numEnvs fun worker slot =>
            actionOf (loop.outputAt simulators policy actionOf rows worker
              stageId slot step)) worker) =
      .ok ((List.range loop.numEnvs).map fun slot =>
        ((loop.traceAt simulators policy actionOf rows worker stageId slot
            (step + 1)).1,
          loop.resultAt simulators policy actionOf rows worker stageId slot
            step)) := by
    intro worker hworker
    have hpiece : Schema.piece loop.numEnvs
        (grid loop.worldSize loop.numEnvs fun worker slot =>
          actionOf (loop.outputAt simulators policy actionOf rows worker
            stageId slot step)) worker =
        (List.range loop.numEnvs).map fun slot =>
          actionOf (loop.outputAt simulators policy actionOf rows worker
            stageId slot step) := slice_grid _ hworker
    have hstates : (loop.courseAt simulators policy actionOf rows stageId
        step).simulators worker =
        (List.range loop.numEnvs).map fun slot =>
          (loop.traceAt simulators policy actionOf rows worker stageId slot
            step).1 := if_pos hworker
    rw [hpiece, chunkStep, hstates, if_pos (by simp), List.zip_map',
      zipIdx_map_range, List.map_map]
    rfl
  have hlen : (grid loop.worldSize loop.numEnvs fun worker slot =>
      actionOf (loop.outputAt simulators policy actionOf rows worker stageId
        slot step)).length = loop.worldSize * loop.numEnvs :=
    length_grid _ _ _
  rw [envInteractStep, loop.dispatchRows_eq hlen, ok_bind,
    runWorkers_eq hpart, ok_bind, List.map_map]
  simp only [Function.comp_def, List.map_map]
  rw [collectRows_eq, ok_bind]
  apply congrArg Except.ok
  refine Prod.ext ?_ rfl
  funext worker
  by_cases hworker : worker < loop.worldSize
  · simp [courseAt, hworker, List.getD_eq_getElem?_getD]
  · simp [courseAt, hworker, List.getD_eq_getElem?_getD]

/-- A turn of the loop takes a stage one step on. -/
theorem stageStep_course {stageId step : Nat}
    (hstep : step < loop.maxInteractions) :
    loop.stageStep simulators policy actionOf stageId
        (loop.courseAt simulators policy actionOf rows stageId step) =
      .ok (loop.courseAt simulators policy actionOf rows stageId
        (step + 1)) := by
  have htrajectory : (loop.courseAt simulators policy actionOf rows stageId
      step).trajectory = (List.range step).map
        (loop.stepDataAt simulators policy actionOf rows stageId) ++
          [⟨none, none, none⟩] := by
    rw [courseAt, if_pos hstep]
  have hfuture : (loop.courseAt simulators policy actionOf rows stageId
      step).rolloutFuture = grid loop.worldSize loop.numEnvs fun worker slot =>
        loop.outputAt simulators policy actionOf rows worker stageId slot
          step := by
    rw [courseAt, Nat.min_eq_left (Nat.le_sub_one_of_lt hstep)]
  have hidx : (loop.courseAt simulators policy actionOf rows stageId
      step).stepIdx = step := rfl
  have hdone : (List.range step).map
      (loop.stepDataAt simulators policy actionOf rows stageId) ++
        [loop.stepDataAt simulators policy actionOf rows stageId step] =
      (List.range (step + 1)).map
        (loop.stepDataAt simulators policy actionOf rows stageId) := by
    rw [List.range_succ, List.map_append, List.map_singleton]
  have hstepData : (⟨some (grid loop.worldSize loop.numEnvs fun worker slot =>
        loop.outputAt simulators policy actionOf rows worker stageId slot step),
      some (grid loop.worldSize loop.numEnvs fun worker slot =>
        (loop.resultAt simulators policy actionOf rows worker stageId slot
          step).rew),
      some (grid loop.worldSize loop.numEnvs fun worker slot =>
        (loop.resultAt simulators policy actionOf rows worker stageId slot
          step).termination)⟩ : StepData ω ρ δ) =
      loop.stepDataAt simulators policy actionOf rows stageId step := rfl
  rw [stageStep.eq_def, htrajectory, List.getLast?_concat, hfuture, hidx]
  simp only [map_grid, envInteractStep_course, ok_bind, List.dropLast_concat,
    hstepData, hdone]
  by_cases hlast : step < loop.maxInteractions - 1
  · have hnext : step + 1 < loop.maxInteractions := by omega
    have hrollout : generateSequences policy stageId (step + 1)
        (grid loop.worldSize loop.numEnvs fun worker slot =>
          (loop.resultAt simulators policy actionOf rows worker stageId slot
            step).obs) =
        grid loop.worldSize loop.numEnvs fun worker slot =>
          loop.outputAt simulators policy actionOf rows worker stageId slot
            (step + 1) := by
      rw [generateSequences, zipIdx_grid, map_grid]
      rfl
    rw [if_pos hlast, hrollout]
    simp only [courseAt, if_pos hnext, pure, Except.pure,
      Nat.min_eq_left (Nat.le_sub_one_of_lt hnext)]
  · have hmin : min (step + 1) (loop.maxInteractions - 1) = step := by omega
    rw [if_neg hlast]
    simp only [courseAt, hmin, pure, Except.pure,
      if_neg (show ¬ step + 1 < loop.maxInteractions by omega),
      List.append_nil]

end Course

section Collate

omit loop in
theorem addStage_map {f g h : Nat → StepData ω ρ δ} {steps : List Nat}
    (hmerge : ∀ step ∈ steps, mergeStep (f step) (g step) = .ok (h step)) :
    addStage (steps.map f) (steps.map g) = .ok (steps.map h) := by
  induction steps with
  | nil => rfl
  | cons step steps ih =>
      rw [List.forall_mem_cons] at hmerge
      simp only [List.map_cons, addStage, hmerge.1, ok_bind, ih hmerge.2]
      rfl

/-- Steps of one length are stacked column by column. -/
theorem stackSteps_map {n : Nat} (hn : 0 < n) {width : Nat}
    {f : Nat → List α} (hlen : ∀ step < n, (f step).length = width) :
    stackSteps ((List.range n).map f) =
      .ok ((List.range width).map fun row =>
        (List.range n).filterMap fun step => (f step)[row]?) := by
  obtain ⟨m, rfl⟩ := Nat.exists_eq_succ_of_ne_zero hn.ne'
  have hcons : (List.range (m + 1)).map f =
      f 0 :: (List.range m).map fun step => f (step + 1) := by
    rw [List.range_succ_eq_map, List.map_cons, List.map_map]
    rfl
  have hall : ∀ step ∈ (List.range (m + 1)).map f,
      step.length = (f 0).length := by
    intro step hstep
    obtain ⟨k, hk, rfl⟩ := List.mem_map.mp hstep
    rw [hlen k (List.mem_range.mp hk), hlen 0 hn]
  rw [stackSteps.eq_def, hcons]
  simp only
  rw [← hcons, if_pos hall, hlen 0 hn]
  simp only [List.filterMap_map, Function.comp_def]

/-- The column of a row that every step has. -/
theorem filterMap_column {n row : Nat} {f : Nat → List α} {value : Nat → α}
    (h : ∀ step < n, (f step)[row]? = some (value step)) :
    (List.range n).filterMap (fun step => (f step)[row]?) =
      (List.range n).map value := by
  rw [← List.filterMap_eq_map]
  exact List.filterMap_congr fun step hstep =>
    h step (List.mem_range.mp hstep)

variable (simulators : Simulators σ o a ρ δ) (policy : Policy o ω)
  (actionOf : ω → a) (rows : List (Int × Int))

/-- A step of the first stages, one after the other -/
def flatAt (stages step : Nat) : StepData ω ρ δ :=
  if stages = 0 then {}
  else {
    action := some (blocks stages fun stageId =>
      grid loop.worldSize loop.numEnvs fun worker slot =>
        loop.outputAt simulators policy actionOf rows worker stageId slot step)
    rew := some (blocks stages fun stageId =>
      grid loop.worldSize loop.numEnvs fun worker slot =>
        (loop.resultAt simulators policy actionOf rows worker stageId slot
          step).rew)
    done := some (blocks stages fun stageId =>
      grid loop.worldSize loop.numEnvs fun worker slot =>
        (loop.resultAt simulators policy actionOf rows worker stageId slot
          step).termination) }

theorem mergeStep_flatAt (stages step : Nat) :
    mergeStep (loop.flatAt simulators policy actionOf rows stages step)
        (loop.stepDataAt simulators policy actionOf rows stages step) =
      .ok (loop.flatAt simulators policy actionOf rows (stages + 1) step) := by
  cases stages with
  | zero =>
      have hempty : isEmptyStep (⟨none, none, none⟩ : StepData ω ρ δ) =
          true := rfl
      rw [flatAt, if_pos rfl, mergeStep, if_pos hempty, flatAt,
        if_neg (Nat.succ_ne_zero 0)]
      simp [stepDataAt, blocks]
  | succ stages =>
      rw [flatAt, if_neg (Nat.succ_ne_zero stages), mergeStep,
        if_neg (by simp [isEmptyStep]), flatAt,
        if_neg (Nat.succ_ne_zero (stages + 1))]
      simp only [mergeKey, stepDataAt, ok_bind]
      rw [blocks_succ (stages + 1), blocks_succ (stages + 1),
        blocks_succ (stages + 1)]
      rfl

/-- The stages are put one after the other, step by step. -/
theorem foldlM_addStage {trajectories : Nat → List (StepData ω ρ δ)}
    (htrajectories : ∀ stageId < loop.stageNum, trajectories stageId =
      (List.range loop.maxInteractions).map
        (loop.stepDataAt simulators policy actionOf rows stageId))
    {stages : Nat} (hstages : stages ≤ loop.stageNum) :
    (List.range stages).foldlM
        (fun flatTrajs stageId => addStage flatTrajs (trajectories stageId))
        (List.replicate loop.maxInteractions ({} : StepData ω ρ δ)) =
      .ok ((List.range loop.maxInteractions).map
        (loop.flatAt simulators policy actionOf rows stages)) := by
  induction stages with
  | zero =>
      have hflat : loop.flatAt simulators policy actionOf rows 0 =
          fun _ => ⟨none, none, none⟩ := funext fun _ => if_pos rfl
      simp [hflat, pure, Except.pure]
  | succ stages ih =>
      rw [List.range_succ, List.foldlM_append, ih (Nat.le_of_succ_le hstages),
        ok_bind, List.foldlM_cons, htrajectories stages hstages,
        addStage_map fun step _ => loop.mergeStep_flatAt simulators policy
          actionOf rows stages step]
      rfl

end Collate

section Whole

variable (simulators : Simulators σ o a ρ δ) (policy : Policy o ω)
  (actionOf : ω → a) (rows : List (Int × Int))

/-- Rows that stand worker by worker are regrouped stage by stage. -/
theorem restructureObsData_eq (obs : Nat → Nat → Nat → o) :
    loop.restructureObsData (blocks loop.worldSize fun worker =>
        grid loop.stageNum loop.numEnvs (obs worker)) =
      .ok ((List.range loop.stageNum).map fun stageId =>
        grid loop.worldSize loop.numEnvs fun worker slot =>
          obs worker stageId slot) := by
  have hlen : ∀ worker < loop.worldSize,
      (grid loop.stageNum loop.numEnvs (obs worker)).length =
        loop.stageNum * loop.numEnvs := fun _ _ => length_grid _ _ _
  have hchunks : chunkRows (blocks loop.worldSize fun worker =>
      grid loop.stageNum loop.numEnvs (obs worker)) loop.worldSize =
        .ok ((List.range loop.worldSize).map fun worker =>
          grid loop.stageNum loop.numEnvs (obs worker)) := by
    rw [chunkRows_eq loop.worldSize_pos (length_blocks hlen)]
    apply congrArg Except.ok
    exact List.map_congr_left fun worker hworker =>
      slice_blocks hlen (List.mem_range.mp hworker)
  have hstages : ((List.range loop.worldSize).map fun worker =>
      grid loop.stageNum loop.numEnvs (obs worker)).mapM
        (fun workerChunk => chunkRows workerChunk loop.stageNum) =
      .ok ((List.range loop.worldSize).map fun worker =>
        (List.range loop.stageNum).map fun stageId =>
          (List.range loop.numEnvs).map (obs worker stageId)) := by
    rw [mapM_eq_ok_iff, List.forall₂_map_left_iff, List.forall₂_map_right_iff,
      List.forall₂_same]
    intro worker _
    rw [chunkRows_eq loop.stageNum_pos (length_grid _ _ _)]
    apply congrArg Except.ok
    exact List.map_congr_left fun stageId hstage =>
      slice_grid (obs worker) (List.mem_range.mp hstage)
  rw [restructureObsData, hchunks, ok_bind, hstages, ok_bind]
  apply mapM_eq_ok_of_forall
  intro stageId hstage
  have hstaged : ((List.range loop.worldSize).map fun worker =>
      (List.range loop.stageNum).map fun stageId =>
        (List.range loop.numEnvs).map (obs worker stageId)).map
          (fun staged => staged.getD stageId []) =
      (List.range loop.worldSize).map fun worker =>
        (List.range loop.numEnvs).map (obs worker stageId) := by
    rw [List.map_map]
    apply List.map_congr_left
    intro worker _
    simp [List.getD_eq_getElem?_getD, List.mem_range.mp hstage]
  have hne : (List.range loop.worldSize).map (fun worker =>
      (List.range loop.numEnvs).map (obs worker stageId)) ≠ [] := by
    rw [ne_eq, List.map_eq_nil_iff, List.range_eq_nil]
    exact loop.worldSize_pos.ne'
  rw [hstaged, concatRows_eq hne, ← List.flatMap_def]
  rfl

variable {rows}

theorem startStage_eq_courseAt (hsome : 0 < loop.maxInteractions)
    {stageId : Nat} (hstage : stageId < loop.stageNum) :
    startStage policy
        ((List.range loop.stageNum).map fun stageId =>
          grid loop.worldSize loop.numEnvs fun worker slot =>
            (loop.resetAt simulators rows worker stageId slot).2)
        (loop.startStates simulators rows) stageId =
      (loop.courseAt simulators policy actionOf rows stageId 0 :
        StageState σ ω ρ δ) := by
  have hstaged : ((List.range loop.stageNum).map fun stageId =>
      grid loop.worldSize loop.numEnvs fun worker slot =>
        (loop.resetAt simulators rows worker stageId slot).2).getD stageId [] =
      grid loop.worldSize loop.numEnvs fun worker slot =>
        (loop.resetAt simulators rows worker stageId slot).2 := by
    simp [List.getD_eq_getElem?_getD, hstage]
  rw [startStage, hstaged, generateSequences, zipIdx_grid, map_grid, courseAt,
    if_pos hsome, Nat.zero_min]
  congr 1
  funext worker
  simp [startStates, hstage, traceAt]

/-- Each stage takes all its turns. -/
def Complete (order : List Nat) : Prop :=
  (∀ stageId ∈ order, stageId < loop.stageNum) ∧
    ∀ stageId < loop.stageNum, order.count stageId = loop.maxInteractions

/-- In whatever order the turns come, every stage runs its course. -/
theorem runTasks_course (hsome : 0 < loop.maxInteractions)
    {order : List Nat} (horder : loop.Complete order) :
    ∃ stages, runTasks (loop.stageStep simulators policy actionOf)
        (startStage policy
          ((List.range loop.stageNum).map fun stageId =>
            grid loop.worldSize loop.numEnvs fun worker slot =>
              (loop.resetAt simulators rows worker stageId slot).2)
          (loop.startStates simulators rows)) order = .ok stages ∧
      ∀ stageId < loop.stageNum, stages stageId =
        (loop.courseAt simulators policy actionOf rows stageId
          loop.maxInteractions : StageState σ ω ρ δ) := by
  let start : Nat → StageState σ ω ρ δ := startStage policy
    ((List.range loop.stageNum).map fun stageId =>
      grid loop.worldSize loop.numEnvs fun worker slot =>
        (loop.resetAt simulators rows worker stageId slot).2)
    (loop.startStates simulators rows)
  let course : Nat → Nat → StageState σ ω ρ δ := fun stageId step =>
    if stageId < loop.stageNum then
      loop.courseAt simulators policy actionOf rows stageId step
    else start stageId
  have hstart : start = fun stageId => course stageId 0 := by
    funext stageId
    by_cases hstage : stageId < loop.stageNum
    · exact (loop.startStage_eq_courseAt simulators policy actionOf hsome
        hstage).trans (if_pos hstage).symm
    · exact (if_neg hstage).symm
  have hstep : ∀ stageId ∈ order, ∀ step < loop.maxInteractions,
      loop.stageStep simulators policy actionOf stageId
        (course stageId step) = .ok (course stageId (step + 1)) := by
    intro stageId hmem step hlt
    have hstage := horder.1 stageId hmem
    simp only [course, if_pos hstage]
    exact loop.stageStep_course simulators policy actionOf hlt
  have hroom : ∀ stageId, 0 + order.count stageId ≤ loop.maxInteractions := by
    intro stageId
    rw [Nat.zero_add]
    by_cases hstage : stageId < loop.stageNum
    · exact (horder.2 stageId hstage).le
    · rw [List.count_eq_zero_of_not_mem fun hmem =>
        hstage (horder.1 stageId hmem)]
      exact Nat.zero_le _
  have hrun := runTasks_eq hstep (fun _ => 0) hroom
  rw [← hstart] at hrun
  refine ⟨_, hrun, fun stageId hstage => ?_⟩
  rw [Nat.zero_add, horder.2 stageId hstage]
  exact if_pos hstage

/-- A value of every environment, stage by stage. -/
def stageMajor (value : Nat → Nat → Nat → α) : List α :=
  blocks loop.stageNum fun stageId =>
    grid loop.worldSize loop.numEnvs fun worker slot =>
      value worker stageId slot

theorem length_stageMajor (value : Nat → Nat → Nat → α) :
    (loop.stageMajor value).length =
      loop.stageNum * (loop.worldSize * loop.numEnvs) :=
  length_blocks fun _ _ => length_grid _ _ _

theorem getElem?_stageMajor (value : Nat → Nat → Nat → α)
    {worker stageId slot : Nat} (hworker : worker < loop.worldSize)
    (hstage : stageId < loop.stageNum) (hslot : slot < loop.numEnvs) :
    (loop.stageMajor value)[
        (stageId * loop.worldSize + worker) * loop.numEnvs + slot]? =
      some (value worker stageId slot) := by
  have hplace : (stageId * loop.worldSize + worker) * loop.numEnvs + slot =
      stageId * (loop.worldSize * loop.numEnvs) +
        (worker * loop.numEnvs + slot) := by ring
  rw [hplace, stageMajor, getElem?_blocks (fun _ _ => length_grid _ _ _)
    hstage (place_lt hworker hslot), getElem?_grid _ hworker hslot]

/-- Stacked steps hold a row for every environment, stage by stage. -/
theorem stackSteps_stageMajor (hsome : 0 < loop.maxInteractions)
    (value : Nat → Nat → Nat → Nat → α) :
    ∃ stacked, stackSteps ((List.range loop.maxInteractions).map fun step =>
        loop.stageMajor fun worker stageId slot =>
          value worker stageId slot step) = .ok stacked ∧
      stacked.length = loop.stageNum * (loop.worldSize * loop.numEnvs) ∧
      ∀ worker < loop.worldSize, ∀ stageId < loop.stageNum,
        ∀ slot < loop.numEnvs,
          stacked[(stageId * loop.worldSize + worker) * loop.numEnvs +
              slot]? =
            some ((List.range loop.maxInteractions).map
              (value worker stageId slot)) := by
  refine ⟨_, stackSteps_map hsome fun step _ => loop.length_stageMajor _,
    by rw [List.length_map, List.length_range], ?_⟩
  intro worker hworker stageId hstage slot hslot
  have hcolumn : ∀ step < loop.maxInteractions,
      (loop.stageMajor fun worker stageId slot =>
        value worker stageId slot step)[
          (stageId * loop.worldSize + worker) * loop.numEnvs + slot]? =
        some (value worker stageId slot step) := by
    intro step _
    exact loop.getElem?_stageMajor _ hworker hstage hslot
  have hlt : (stageId * loop.worldSize + worker) * loop.numEnvs + slot <
      loop.stageNum * (loop.worldSize * loop.numEnvs) := by
    rw [← Nat.mul_assoc]
    exact place_lt (place_lt hstage hworker) hslot
  rw [List.getElem?_map, List.getElem?_range hlt, Option.map_some,
    filterMap_column hcolumn]

/-- The rows of the returned batch: at the place of an environment when the
stages stand one after the other, its outputs and completion flags. -/
theorem run_eq (haccepted : loop.Accepted rows)
    (hsome : 0 < loop.maxInteractions) {order : List Nat}
    (horder : loop.Complete order) :
    ∃ batch, loop.run simulators policy actionOf order (rows.map Prod.fst)
        (loop.startStates simulators rows)
        (blocks loop.worldSize fun worker =>
          grid loop.stageNum loop.numEnvs fun stageId slot =>
            (loop.resetAt simulators rows worker stageId slot).2) =
        .ok batch ∧
      batch.envStateId = rows.map Prod.fst ∧
      batch.outputs.length = rows.length ∧
      ∀ worker < loop.worldSize, ∀ stageId < loop.stageNum,
        ∀ slot < loop.numEnvs,
          batch.outputs[(stageId * loop.worldSize + worker) * loop.numEnvs +
              slot]? =
            some ((List.range loop.maxInteractions).map
              (loop.outputAt simulators policy actionOf rows worker stageId
                slot)) ∧
          batch.complete[(stageId * loop.worldSize + worker) * loop.numEnvs +
              slot]? =
            some ((List.range loop.maxInteractions).map fun step =>
              (loop.resultAt simulators policy actionOf rows worker stageId
                slot step).termination) := by
  obtain ⟨stages, hstages, hcourse⟩ :=
    loop.runTasks_course simulators policy actionOf hsome horder
  have htrajectories : ∀ stageId < loop.stageNum,
      (stages stageId).trajectory = (List.range loop.maxInteractions).map
        (loop.stepDataAt simulators policy actionOf rows stageId) := by
    intro stageId hstage
    rw [hcourse stageId hstage, courseAt, if_neg (lt_irrefl _),
      List.append_nil]
  have hlen : (stages 0).trajectory.length = loop.maxInteractions := by
    rw [htrajectories 0 loop.stageNum_pos, List.length_map, List.length_range]
  have hflat := loop.foldlM_addStage simulators policy actionOf rows
    htrajectories le_rfl
  obtain ⟨outputs, houtputs, houtputsLen, houtputsAt⟩ :=
    loop.stackSteps_stageMajor hsome
      (loop.outputAt simulators policy actionOf rows)
  obtain ⟨complete, hcomplete, hcompleteLen, hcompleteAt⟩ :=
    loop.stackSteps_stageMajor hsome fun worker stageId slot step =>
      (loop.resultAt simulators policy actionOf rows worker stageId slot
        step).termination
  have hactions : ((List.range loop.maxInteractions).map
      (loop.flatAt simulators policy actionOf rows loop.stageNum)).mapM
        (fun step => getKey "action" step.action) =
      .ok ((List.range loop.maxInteractions).map fun step =>
        loop.stageMajor fun worker stageId slot =>
          loop.outputAt simulators policy actionOf rows worker stageId slot
            step) := by
    rw [mapM_eq_ok_iff, List.forall₂_map_left_iff, List.forall₂_map_right_iff,
      List.forall₂_same]
    intro step _
    rw [flatAt, if_neg loop.stageNum_pos.ne']
    rfl
  have hdones : ((List.range loop.maxInteractions).map
      (loop.flatAt simulators policy actionOf rows loop.stageNum)).mapM
        (fun step => getKey "done" step.done) =
      .ok ((List.range loop.maxInteractions).map fun step =>
        loop.stageMajor fun worker stageId slot =>
          (loop.resultAt simulators policy actionOf rows worker stageId slot
            step).termination) := by
    rw [mapM_eq_ok_iff, List.forall₂_map_left_iff, List.forall₂_map_right_iff,
      List.forall₂_same]
    intro step _
    rw [flatAt, if_neg loop.stageNum_pos.ne']
    rfl
  have hrows : rows.length =
      loop.stageNum * (loop.worldSize * loop.numEnvs) := by
    rw [haccepted.length_rows]
    ring
  refine ⟨⟨outputs, complete, rows.map Prod.fst⟩, ?_, rfl,
    houtputsLen.trans hrows.symm, ?_⟩
  · rw [run, restructureObsData_eq, ok_bind, hstages, ok_bind,
      collateTrajectories, hlen, hflat, ok_bind, hactions, ok_bind, houtputs,
      ok_bind, hdones, ok_bind, hcomplete, ok_bind, hcompleteLen, houtputsLen,
      List.length_map, hrows, beq_self_eq_true, Bool.and_self, pyAssert_true,
      ok_bind]
    rfl
  · intro worker hworker stageId hstage slot hslot
    exact ⟨houtputsAt worker hworker stageId hstage slot hslot,
      hcompleteAt worker hworker stageId hstage slot hslot⟩

end Whole

section Trajectories

variable (rows : List (Int × Int))

/-- Whatever the environments and the policy do, and in whatever order the
stages take their turns: row `i` of the batch carries state id `i` and holds,
step by step, the outputs and completion flags of an environment that was
reset to the ids of row `i`. -/
def TrajectoriesStay : Prop :=
  ∀ (σ o a ω ρ δ : Type) (simulators : Simulators σ o a ρ δ)
    (policy : Policy o ω) (actionOf : ω → a) (states : Nat → Nat → List σ)
    (obs : List o), loop.resetEnvs simulators rows = .ok (states, obs) →
    ∀ order, loop.Complete order → ∃ batch : TrajectoryBatch ω δ,
      loop.run simulators policy actionOf order (rows.map Prod.fst) states
          obs = .ok batch ∧
        batch.envStateId = rows.map Prod.fst ∧
        batch.outputs.length = rows.length ∧
        ∀ (i : Nat) (ids : Int × Int), rows[i]? = some ids →
          ∃ worker < loop.worldSize, ∃ stageId < loop.stageNum,
            ∃ slot < loop.numEnvs,
              loop.idsAt rows worker stageId slot = ids ∧
              batch.outputs[i]? = some ((List.range loop.maxInteractions).map
                (loop.outputAt simulators policy actionOf rows worker stageId
                  slot)) ∧
              batch.complete[i]? = some ((List.range loop.maxInteractions).map
                fun step => (loop.resultAt simulators policy actionOf rows
                  worker stageId slot step).termination)

/-- The ids do not change when workers and stages change places. -/
def SwapFixed : Prop :=
  ∀ worker < loop.worldSize, ∀ stageId < loop.stageNum,
    ∀ slot < loop.numEnvs,
      loop.idsAt rows worker stageId slot =
        rows.getD ((stageId * loop.worldSize + worker) * loop.numEnvs + slot)
          (0, 0)

variable {rows}

/-- Every row is the place of an environment when the stages stand one after
the other. -/
theorem exists_swapped (haccepted : loop.Accepted rows) {i : Nat}
    (hi : i < rows.length) :
    ∃ worker < loop.worldSize, ∃ stageId < loop.stageNum,
      ∃ slot < loop.numEnvs,
        i = (stageId * loop.worldSize + worker) * loop.numEnvs + slot := by
  have hlen : rows.length =
      loop.stageNum * loop.worldSize * loop.numEnvs := by
    rw [haccepted.length_rows]
    ring
  rw [hlen] at hi
  obtain ⟨k, hk, slot, hslot, rfl⟩ := exists_place hi
  obtain ⟨stageId, hstage, worker, hworker, rfl⟩ := exists_place hk
  exact ⟨worker, hworker, stageId, hstage, slot, hslot, rfl⟩

theorem getElem?_swapped (haccepted : loop.Accepted rows)
    {worker stageId slot : Nat} (hworker : worker < loop.worldSize)
    (hstage : stageId < loop.stageNum) (hslot : slot < loop.numEnvs) :
    rows[(stageId * loop.worldSize + worker) * loop.numEnvs + slot]? =
      some (rows.getD
        ((stageId * loop.worldSize + worker) * loop.numEnvs + slot)
        (0, 0)) := by
  have hlen : rows.length =
      loop.stageNum * loop.worldSize * loop.numEnvs := by
    rw [haccepted.length_rows]
    ring
  have hlt := place_lt (place_lt hstage hworker) hslot
  rw [← hlen] at hlt
  rw [List.getD_eq_getElem?_getD, List.getElem?_eq_getElem hlt,
    Option.getD_some]

/-- The stages take turns. -/
theorem complete_roundRobin :
    loop.Complete (List.replicate loop.maxInteractions
      (List.range loop.stageNum)).flatten := by
  constructor
  · intro stageId hmem
    obtain ⟨turn, hturn, hmem⟩ := List.mem_flatten.mp hmem
    rw [List.eq_of_mem_replicate hturn] at hmem
    exact List.mem_range.mp hmem
  · intro stageId hstage
    rw [List.count_flatten, List.map_replicate, List.sum_replicate,
      List.count_eq_one_of_mem List.nodup_range (List.mem_range.mpr hstage)]
    simp

variable (rows)

/-- Environments that show nothing but their place. -/
def placeSimulators : Simulators Unit (Nat × Nat × Nat) Unit Unit Unit where
  reset := fun worker stageId slot _ => ((), (worker, stageId, slot))
  step := fun worker stageId slot _ _ =>
    ((), ⟨(worker, stageId, slot), (), (), ()⟩)

omit loop in
/-- The rollout that gives its observation back -/
def echoPolicy : Policy o o := fun _ _ _ obs => obs

theorem outputAt_placeSimulators (worker stageId slot step : Nat) :
    loop.outputAt placeSimulators echoPolicy (fun _ => ()) rows worker stageId
      slot step = (worker, stageId, slot) := by
  cases step <;> rfl

/-- Without a turn there is no action to collect. -/
theorem run_nil_ne_ok (simulators : Simulators σ o a ρ δ)
    (policy : Policy o ω) (actionOf : ω → a) (stateIds : List Int)
    (states : Nat → Nat → List σ) (obs : List o)
    (batch : TrajectoryBatch ω δ) :
    loop.run simulators policy actionOf [] stateIds states obs ≠
      .ok batch := by
  intro hrun
  obtain ⟨stagedObs, -, hrun⟩ := bind_eq_ok.mp hrun
  obtain ⟨stages, hstages, hrun⟩ := bind_eq_ok.mp hrun
  cases hstages
  have hflat : ∀ stageIds : List Nat, stageIds.foldlM
      (fun flatTrajs stageId => addStage flatTrajs
        (startStage policy stagedObs states stageId :
          StageState σ ω ρ δ).trajectory)
      [(⟨none, none, none⟩ : StepData ω ρ δ)] =
      .ok [(⟨none, none, none⟩ : StepData ω ρ δ)] := by
    intro stageIds
    induction stageIds with
    | nil => rfl
    | cons stageId stageIds ih =>
        rw [List.foldlM_cons]
        exact ih
  obtain ⟨flatTrajs, hflatTrajs, hrun⟩ := bind_eq_ok.mp hrun
  rw [show flatTrajs = _ from
    (Except.ok.inj ((hflat _).symm.trans hflatTrajs)).symm] at hrun
  obtain ⟨_, hactions, -⟩ := bind_eq_ok.mp hrun
  cases hactions

/-- The trajectories stay with their initial states exactly if the reset
accepts no such rows, or there is an interaction and the ids do not change
when workers and stages change places. -/
theorem trajectoriesStay_iff :
    loop.TrajectoriesStay rows ↔
      (loop.Accepted rows →
        0 < loop.maxInteractions ∧ loop.SwapFixed rows) := by
  constructor
  · intro hstay haccepted
    have hreset := loop.resetEnvs_eq placeSimulators haccepted
    have hsome : 0 < loop.maxInteractions := by
      by_contra hzero
      have hcomplete : loop.Complete [] := by
        refine ⟨fun _ hmem => absurd hmem List.not_mem_nil,
          fun stageId _ => ?_⟩
        rw [List.count_nil]
        omega
      obtain ⟨batch, hrun, -⟩ := hstay _ _ _ _ _ _ placeSimulators echoPolicy
        (fun _ => ()) _ _ hreset [] hcomplete
      exact loop.run_nil_ne_ok _ _ _ _ _ _ batch hrun
    refine ⟨hsome, fun worker hworker stageId hstage slot hslot => ?_⟩
    have horder := loop.complete_roundRobin
    obtain ⟨batch, hrun, -, -, hrows⟩ := hstay _ _ _ _ _ _ placeSimulators
      echoPolicy (fun _ => ()) _ _ hreset _ horder
    obtain ⟨batch', hrun', -, -, hat⟩ := loop.run_eq placeSimulators
      echoPolicy (fun _ => ()) haccepted hsome horder
    obtain rfl := Except.ok.inj (hrun.symm.trans hrun')
    obtain ⟨w, -, s, -, e, -, hids, houtputs, -⟩ := hrows _ _
      (loop.getElem?_swapped haccepted hworker hstage hslot)
    rw [(hat worker hworker stageId hstage slot hslot).1] at houtputs
    have hplaces := List.map_inj_left.mp (Option.some.inj houtputs) 0
      (List.mem_range.mpr hsome)
    rw [outputAt_placeSimulators, outputAt_placeSimulators] at hplaces
    cases hplaces
    exact hids
  · intro hcond σ o a ω ρ δ simulators policy actionOf states obs hreset order
      horder
    have haccepted := loop.accepted_of_resetEnvs simulators hreset
    obtain ⟨hsome, hswap⟩ := hcond haccepted
    rw [loop.resetEnvs_eq simulators haccepted] at hreset
    obtain ⟨hstates, hobs⟩ := Prod.mk.inj (Except.ok.inj hreset)
    obtain ⟨batch, hrun, hids, hlen, hat⟩ := loop.run_eq simulators policy
      actionOf haccepted hsome horder
    rw [hstates, hobs] at hrun
    refine ⟨batch, hrun, hids, hlen, fun i ids hi => ?_⟩
    obtain ⟨hlt, hget⟩ := List.getElem?_eq_some_iff.mp hi
    obtain ⟨worker, hworker, stageId, hstage, slot, hslot, rfl⟩ :=
      loop.exists_swapped haccepted hlt
    refine ⟨worker, hworker, stageId, hstage, slot, hslot, ?_,
      hat worker hworker stageId hstage slot hslot⟩
    rw [hswap worker hworker stageId hstage slot hslot,
      List.getD_eq_getElem?_getD, hi, Option.getD_some]

variable {rows}

/-- With one worker or one stage nothing changes place. -/
theorem swapFixed_of_eq_one (hone : loop.worldSize = 1 ∨ loop.stageNum = 1) :
    loop.SwapFixed rows := by
  intro worker hworker stageId hstage slot _
  rw [idsAt]
  congr 2
  rcases hone with hone | hone
  · have hzero : worker = 0 := by omega
    rw [hzero, hone, Nat.zero_mul, Nat.zero_add, Nat.mul_one, Nat.add_zero]
  · have hzero : stageId = 0 := by omega
    rw [hzero, hone, Nat.zero_mul, Nat.zero_add, Nat.mul_one, Nat.add_zero]

/-- Different ids do not change exactly with one worker or one stage. -/
theorem swapFixed_iff_of_nodup (haccepted : loop.Accepted rows)
    (hnodup : rows.Nodup) :
    loop.SwapFixed rows ↔ loop.worldSize = 1 ∨ loop.stageNum = 1 := by
  constructor
  · intro hfixed
    by_contra hmany
    obtain ⟨hworkers, hstages⟩ := not_or.mp hmany
    have hW := loop.worldSize_pos
    have hS := loop.stageNum_pos
    have hN := loop.numEnvs_pos
    have hworker : 1 < loop.worldSize := by omega
    have heq := hfixed 1 hworker 0 hS 0 hN
    have hlen : rows.length =
        loop.worldSize * loop.stageNum * loop.numEnvs := by
      rw [haccepted.length_rows]
      ring
    have hplace : (1 * loop.stageNum + 0) * loop.numEnvs + 0 <
        rows.length := hlen ▸ place_lt (place_lt hworker hS) hN
    have hswapped := loop.getElem?_swapped haccepted hworker hS hN
    rw [← heq, idsAt, List.getD_eq_getElem?_getD,
      List.getElem?_eq_getElem hplace, Option.getD_some,
      ← List.getElem?_eq_getElem hplace] at hswapped
    have hsame := (List.getElem?_inj hplace hnodup).mp hswapped.symm
    rw [Nat.add_zero, Nat.add_zero, Nat.add_zero, Nat.zero_mul, Nat.zero_add]
      at hsame
    have hstage := Nat.eq_of_mul_eq_mul_right hN hsame
    omega
  · exact loop.swapFixed_of_eq_one

/-- Two workers, two stages and an environment for each. -/
def twoByTwo : EnvLoop where
  worldSize := 2
  stageNum := 2
  numEnvs := 1
  maxInteractions := 1
  simulatorType := .libero
  worldSize_pos := Nat.two_pos
  stageNum_pos := Nat.two_pos
  numEnvs_pos := Nat.one_pos
  divisible := by decide

def fourStates : List (Int × Int) := [(0, 0), (1, 0), (2, 0), (3, 0)]

theorem accepted_fourStates : twoByTwo.Accepted fourStates where
  length_rows := rfl
  sameState := fun h => nomatch h

/-- State id 1 stands at the trajectory of the environment at worker 1 and
stage 0, which was reset to state id 2. -/
theorem twoByTwo_mixes_trajectories :
    twoByTwo.run placeSimulators echoPolicy (fun _ => ()) [0, 1] [0, 1, 2, 3]
        (twoByTwo.startStates placeSimulators fourStates)
        [(0, 0, 0), (0, 1, 0), (1, 0, 0), (1, 1, 0)] =
      .ok {
        outputs := [[(0, 0, 0)], [(1, 0, 0)], [(0, 1, 0)], [(1, 1, 0)]]
        complete := [[()], [()], [()], [()]]
        envStateId := [0, 1, 2, 3] } ∧
    twoByTwo.idsAt fourStates 1 0 0 = (2, 0) ∧
    ¬ twoByTwo.TrajectoriesStay fourStates := by
  have hrun : twoByTwo.run placeSimulators echoPolicy (fun _ => ()) [0, 1]
      [0, 1, 2, 3] (twoByTwo.startStates placeSimulators fourStates)
      [(0, 0, 0), (0, 1, 0), (1, 0, 0), (1, 1, 0)] =
    .ok {
      outputs := [[(0, 0, 0)], [(1, 0, 0)], [(0, 1, 0)], [(1, 1, 0)]]
      complete := [[()], [()], [()], [()]]
      envStateId := [0, 1, 2, 3] } := by
    decide +kernel
  refine ⟨hrun, rfl, fun hstay => ?_⟩
  obtain ⟨batch, hrun', -, -, hrows⟩ := hstay _ _ _ _ _ _ placeSimulators
    echoPolicy (fun _ => ()) _ _
    (twoByTwo.resetEnvs_eq placeSimulators accepted_fourStates) [0, 1]
    (by unfold Complete; decide)
  obtain rfl := Except.ok.inj (hrun.symm.trans hrun')
  obtain ⟨worker, -, stageId, -, slot, -, hids, houtputs, -⟩ :=
    hrows 1 (1, 0) rfl
  change some [(1, 0, 0)] = some [twoByTwo.outputAt placeSimulators echoPolicy
    (fun _ => ()) fourStates worker stageId slot 0] at houtputs
  rw [outputAt_placeSimulators] at houtputs
  cases houtputs
  exact absurd hids (by decide)

end Trajectories

end EnvLoop

end SelfDistillation
