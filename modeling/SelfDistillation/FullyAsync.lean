/-
The fully asynchronous pipeline (verl/experimental/fully_async_policy): the
coroutines of `FullyAsyncRollouter`, the message queue and the loop of
`FullyAsyncTrainer`, interleaved at their await points.  Generation calls do
not raise.
-/
import SelfDistillation.MessageQueue

namespace SelfDistillation

open Transition

namespace FullyAsync

/-- Rounding of a float product: it keeps the order and the whole numbers up
to `2 ^ 53`. -/
structure Rounding where
  round : ℚ → ℚ
  monotone : Monotone round
  whole : ∀ n : ℕ, n ≤ 2 ^ 53 → round n = n

/-- `max_required_samples` as `set_max_required_samples` computes it. -/
def maxRequiredSamples (fl : Rounding) (requiredSamples : ℕ)
    (stalenessThreshold : ℚ) (triggerParameterSyncStep : ℕ) : ℕ :=
  ⌊fl.round (fl.round (requiredSamples * fl.round (stalenessThreshold + 1)) *
    triggerParameterSyncStep)⌋₊

/-- The configuration after `set_max_required_samples`; `total_samples` is
what `_feed_samples` takes from the data loader. -/
structure Config where
  requiredSamples : ℕ
  triggerParameterSyncStep : ℕ
  maxRequiredSamples : ℕ
  maxConcurrentSamples : ℕ
  totalSamples : ℕ
  trigger_pos : 1 ≤ triggerParameterSyncStep
  enough : requiredSamples * triggerParameterSyncStep ≤ maxRequiredSamples

/-- A threshold that is not negative leaves room for the samples of a whole
parameter version. -/
theorem le_maxRequiredSamples (fl : Rounding) {required trigger : ℕ}
    {threshold : ℚ} (hthreshold : 0 ≤ threshold)
    (hrequired : required ≤ 2 ^ 53) (hproduct : required * trigger ≤ 2 ^ 53) :
    required * trigger ≤ maxRequiredSamples fl required threshold trigger := by
  have hone : (1 : ℚ) ≤ fl.round (threshold + 1) := by
    have hle := fl.monotone (show ((1 : ℕ) : ℚ) ≤ threshold + 1 by
      push_cast
      linarith)
    rw [fl.whole 1 (by norm_num)] at hle
    exact_mod_cast hle
  have hinner : (required : ℚ) ≤
      fl.round (required * fl.round (threshold + 1)) := by
    have hle := fl.monotone (le_mul_of_one_le_right
      (Nat.cast_nonneg (α := ℚ) required) hone)
    rwa [fl.whole required hrequired] at hle
  have houter := fl.monotone (mul_le_mul_of_nonneg_right hinner
    (Nat.cast_nonneg (α := ℚ) trigger))
  rw [← Nat.cast_mul, fl.whole _ hproduct] at houter
  exact Nat.le_floor houter

/-- `_validate_config` and `set_max_required_samples` -/
def Config.ofThreshold (fl : Rounding) (requiredSamples : ℕ) (threshold : ℚ)
    (triggerParameterSyncStep servers totalSamples : ℕ)
    (hthreshold : 0 ≤ threshold) (htrigger : 1 ≤ triggerParameterSyncStep)
    (hrequired : requiredSamples ≤ 2 ^ 53)
    (hproduct : requiredSamples * triggerParameterSyncStep ≤ 2 ^ 53) :
    Config where
  requiredSamples := requiredSamples
  triggerParameterSyncStep := triggerParameterSyncStep
  maxRequiredSamples := FullyAsync.maxRequiredSamples fl requiredSamples
    threshold triggerParameterSyncStep
  maxConcurrentSamples := min (servers * 16)
    (FullyAsync.maxRequiredSamples fl requiredSamples threshold
      triggerParameterSyncStep)
  totalSamples := totalSamples
  trigger_pos := htrigger
  enough := le_maxRequiredSamples fl hthreshold hrequired hproduct

/-- `_process_single_sample_streaming`: before `put_sample` ran at the queue,
after it, and after the coroutine returned. -/
inductive TaskStage
  | generating
  | delivered
  | finished
deriving DecidableEq

structure SampleTask where
  sample : ℕ
  stage : TaskStage
deriving DecidableEq

def SampleTask.isGenerating (task : SampleTask) : Bool :=
  task.stage = .generating

def SampleTask.isFinished (task : SampleTask) : Bool :=
  task.stage = .finished

/-- The loops of `_processor_worker` that wait for active tasks: before a
pause, for a free slot for a sample, and after the end signal. -/
inductive DrainLoop
  | pause
  | slot (sample : ℕ)
  | ending
deriving DecidableEq

/-- Where `_processor_worker` stands.  In `waiting` it holds the lock. -/
inductive ProcessorPc
  | check
  | pausing
  | draining (loop : DrainLoop)
  | waiting (loop : DrainLoop)
  | parked
  | getting
  | submitting (sample : ℕ)
  | returned
deriving DecidableEq

/-- Where `reset_staleness` stands; past `idle` it holds the lock. -/
inductive ResetPc
  | idle
  | counting (activeTasks : ℕ)
  | counted (activeTasks queueSize : ℕ)
deriving DecidableEq

/-- Where the trainer stands; in `syncing` and `lastSync` it waits for
`reset_staleness`. -/
inductive TrainerPc
  | collecting (count : ℕ)
  | training
  | syncing
  | synced
  | stopped
  | lastSync
  | exited
deriving DecidableEq

/-- The pipeline; `none` in the queues is the end signal. -/
structure State where
  paused : Bool
  stalenessSamples : ℕ
  locked : Bool
  activeTasks : List SampleTask
  pendingQueue : List (Option ℕ)
  fed : ℕ
  endFed : Bool
  processor : ProcessorPc
  reset : ResetPc
  resuming : Bool
  finishSent : Bool
  mq : MessageQueue (Option ℕ)
  trainer : TrainerPc
  localTriggerStep : ℕ
deriving DecidableEq

def State.init (cfg : Config) : State where
  paused := false
  stalenessSamples := 0
  locked := false
  activeTasks := []
  pendingQueue := []
  fed := 0
  endFed := false
  processor := .check
  reset := .idle
  resuming := false
  finishSent := false
  mq := .init cfg.maxRequiredSamples
  trainer := .collecting 0
  localTriggerStep := 1

/-- `asyncio.Queue(maxsize=128)` -/
def pendingCapacity : ℕ := 128

/-- What runs next: a coroutine of the rollouter up to its next await, a
sample task, or a step of the trainer. -/
inductive Action
  | feed
  | processor
  | deliver (task : ℕ)
  | finish (task : ℕ)
  | monitorCheck
  | monitorResume
  | finishSignal
  | collect
  | train
  | afterSync
  | lastSync
  | resetBegin
  | resetRead
  | resetFinish
deriving DecidableEq

/-- `_should_pause_generation` -/
def shouldPauseGeneration (cfg : Config) (s : State) : Bool :=
  s.mq.queue.length ≥ cfg.maxRequiredSamples ||
    s.stalenessSamples ≥ cfg.maxRequiredSamples

/-- `_feed_samples`: a sample, after the last one the end signal. -/
def feed (cfg : Config) (s : State) : Option State :=
  if s.pendingQueue.length ≥ pendingCapacity ∨ s.endFed then none
  else if s.fed < cfg.totalSamples then
    some { s with
      pendingQueue := s.pendingQueue ++ [some s.fed]
      fed := s.fed + 1 }
  else some { s with
    pendingQueue := s.pendingQueue ++ [none]
    endFed := true }

/-- The condition of the loop. -/
def DrainLoop.continues (cfg : Config) (activeTasks : List SampleTask) :
    DrainLoop → Bool
  | .pause | .ending => !activeTasks.isEmpty
  | .slot _ => activeTasks.length ≥ cfg.maxConcurrentSamples

/-- What follows the loop. -/
def DrainLoop.exit : DrainLoop → ProcessorPc
  | .pause => .parked
  | .slot sample => .submitting sample
  | .ending => .returned

/-- `_processor_worker` up to its next await. -/
def processor (cfg : Config) (s : State) : Option State :=
  match s.processor with
  | .check =>
      if s.paused || shouldPauseGeneration cfg s then
        some { s with processor := .pausing }
      else some { s with processor := .getting }
  | .pausing =>
      if s.locked then none
      else some { s with paused := true, processor := .draining .pause }
  | .draining loop =>
      if loop.continues cfg s.activeTasks then
        if s.locked then none
        else if s.activeTasks.isEmpty then some s
        else some { s with locked := true, processor := .waiting loop }
      else some { s with processor := loop.exit }
  | .waiting loop =>
      -- asyncio.wait(..., FIRST_COMPLETED), then active_tasks = pending
      if s.activeTasks.any SampleTask.isFinished then
        some { s with
          activeTasks := s.activeTasks.filter fun task => !task.isFinished
          locked := false
          processor := .draining loop }
      else none
  | .parked =>
      if s.locked || s.paused then none
      else some { s with processor := .check }
  | .getting =>
      match s.pendingQueue with
      | [] => none
      | none :: rest => some { s with
          pendingQueue := rest
          stalenessSamples := s.stalenessSamples + 1
          processor := .draining .ending }
      | some sample :: rest => some { s with
          pendingQueue := rest
          stalenessSamples := s.stalenessSamples + 1
          processor := .draining (.slot sample) }
  | .submitting sample =>
      if s.locked || s.paused then none
      else some { s with
        activeTasks := s.activeTasks ++ [⟨sample, .generating⟩]
        processor := .check }
  | .returned => none

/-- `put_sample` of a task runs at the queue. -/
def deliver (s : State) (i : ℕ) : Option State :=
  match s.activeTasks[i]? with
  | some ⟨sample, .generating⟩ =>
      match s.mq.putSample (some sample) with
      | .ok (_, mq) => some { s with
          activeTasks := s.activeTasks.set i ⟨sample, .delivered⟩
          mq }
      | .error _ => none
  | _ => none

/-- The coroutine of a task returns. -/
def finish (s : State) (i : ℕ) : Option State :=
  match s.activeTasks[i]? with
  | some ⟨sample, .delivered⟩ => some { s with
      activeTasks := s.activeTasks.set i ⟨sample, .finished⟩ }
  | _ => none

/-- `put_sample(sample=None)` after the processor returned. -/
def finishSignal (s : State) : Option State :=
  if s.processor = .returned ∧ s.finishSent = false then
    match s.mq.putSample none with
    | .ok (_, mq) => some { s with mq, finishSent := true }
    | .error _ => none
  else none

/-- `_get_samples_from_queue`: the next sample of the batch. -/
def collect (cfg : Config) (s : State) : Option State :=
  match s.trainer with
  | .collecting count =>
      if count < cfg.requiredSamples then
        match s.mq.getSample with
        | (.sample (some _) _, mq) => some { s with
            mq
            trainer := if count + 1 = cfg.requiredSamples then .training
              else .collecting (count + 1) }
        | (.sample none _, mq) => some { s with mq, trainer := .stopped }
        | _ => none
      else some { s with trainer := .stopped }
  | _ => none

/-- `fit_step` after the batch is there, with `_fit_update_local_step`. -/
def train (cfg : Config) (s : State) : Option State :=
  if s.trainer = .training then
    if s.localTriggerStep < cfg.triggerParameterSyncStep then
      some { s with
        localTriggerStep := s.localTriggerStep + 1
        trainer := .collecting 0 }
    else some { s with localTriggerStep := 1, trainer := .syncing }
  else none

/-- `reset_staleness` gets the lock and reads the number of active tasks. -/
def resetBegin (s : State) : Option State :=
  if (s.trainer = .syncing ∨ s.trainer = .lastSync) ∧ s.reset = .idle ∧
      s.locked = false then
    some { s with
      locked := true
      paused := false
      reset := .counting s.activeTasks.length }
  else none

/-- The awaited `get_queue_size` runs at the queue. -/
def resetRead (s : State) : Option State :=
  match s.reset with
  | .counting activeTasks => some { s with
      reset := .counted activeTasks s.mq.queue.length }
  | _ => none

/-- `staleness_samples` is overwritten and the trainer goes on. -/
def resetFinish (s : State) : Option State :=
  match s.reset with
  | .counted activeTasks queueSize => some { s with
      stalenessSamples := activeTasks + queueSize
      locked := false
      reset := .idle
      trainer := if s.trainer = .syncing then .synced else .exited }
  | _ => none

def step (cfg : Config) (s : State) : Action → Option State
  | .feed => feed cfg s
  | .processor => processor cfg s
  | .deliver i => deliver s i
  | .finish i => finish s i
  | .monitorCheck =>
      if s.paused && !shouldPauseGeneration cfg s then
        some { s with resuming := true }
      else none
  | .monitorResume =>
      if s.resuming && !s.locked then
        some { s with paused := false, resuming := false }
      else none
  | .finishSignal => finishSignal s
  | .collect => collect cfg s
  | .train => train cfg s
  | .afterSync =>
      if s.trainer = .synced then some { s with trainer := .collecting 0 }
      else none
  | .lastSync =>
      -- the sync behind the training loop, which has to be due
      if s.trainer = .stopped ∧ s.localTriggerStep = 1 then
        some { s with trainer := .lastSync }
      else none
  | .resetBegin => resetBegin s
  | .resetRead => resetRead s
  | .resetFinish => resetFinish s

def pipeline (cfg : Config) : System State Action where
  initial := .init cfg
  step := step cfg

/-- Everything `_processor_worker` can do up to its next await. -/
inductive ProcessorCases (cfg : Config) (s : State) : State → Prop
  | checkPause (hpc : s.processor = .check) :
      ProcessorCases cfg s { s with processor := .pausing }
  | checkGet (hpc : s.processor = .check) (hpaused : s.paused = false)
      (hqueue : s.mq.queue.length < cfg.maxRequiredSamples)
      (hstaleness : s.stalenessSamples < cfg.maxRequiredSamples) :
      ProcessorCases cfg s { s with processor := .getting }
  | pause (hpc : s.processor = .pausing) (hlocked : s.locked = false) :
      ProcessorCases cfg s
        { s with paused := true, processor := .draining .pause }
  | drainIdle (loop : DrainLoop) (hpc : s.processor = .draining loop) :
      ProcessorCases cfg s s
  | drainWait (loop : DrainLoop) (hpc : s.processor = .draining loop)
      (hlocked : s.locked = false) :
      ProcessorCases cfg s
        { s with locked := true, processor := .waiting loop }
  | drainExit (loop : DrainLoop) (hpc : s.processor = .draining loop)
      (hdone : loop.continues cfg s.activeTasks = false) :
      ProcessorCases cfg s { s with processor := loop.exit }
  | prune (loop : DrainLoop) (hpc : s.processor = .waiting loop) :
      ProcessorCases cfg s { s with
        activeTasks := s.activeTasks.filter fun task => !task.isFinished
        locked := false
        processor := .draining loop }
  | unpark (hpc : s.processor = .parked) (hpaused : s.paused = false) :
      ProcessorCases cfg s { s with processor := .check }
  | takeSample (sample : ℕ) (rest : List (Option ℕ))
      (hpc : s.processor = .getting)
      (hpending : s.pendingQueue = some sample :: rest) :
      ProcessorCases cfg s { s with
        pendingQueue := rest
        stalenessSamples := s.stalenessSamples + 1
        processor := .draining (.slot sample) }
  | takeEnd (rest : List (Option ℕ)) (hpc : s.processor = .getting)
      (hpending : s.pendingQueue = none :: rest) :
      ProcessorCases cfg s { s with
        pendingQueue := rest
        stalenessSamples := s.stalenessSamples + 1
        processor := .draining .ending }
  | submit (sample : ℕ) (hpc : s.processor = .submitting sample)
      (hlocked : s.locked = false) (hpaused : s.paused = false) :
      ProcessorCases cfg s { s with
        activeTasks := s.activeTasks ++ [⟨sample, .generating⟩]
        processor := .check }

/-- Everything a step can do, with what it was allowed by. -/
inductive StepCases (cfg : Config) (s : State) : Action → State → Prop
  | processor (s' : State) (hmove : ProcessorCases cfg s s') :
      StepCases cfg s .processor s'
  | feedSample (hmore : s.fed < cfg.totalSamples) :
      StepCases cfg s .feed { s with
        pendingQueue := s.pendingQueue ++ [some s.fed]
        fed := s.fed + 1 }
  | feedEnd :
      StepCases cfg s .feed { s with
        pendingQueue := s.pendingQueue ++ [none]
        endFed := true }
  | deliver (i sample : ℕ) (delivered : Bool) (mq : MessageQueue (Option ℕ))
      (htask : s.activeTasks[i]? = some ⟨sample, .generating⟩)
      (hput : s.mq.putSample (some sample) = .ok (delivered, mq)) :
      StepCases cfg s (.deliver i) { s with
        activeTasks := s.activeTasks.set i ⟨sample, .delivered⟩
        mq }
  | finish (i sample : ℕ)
      (htask : s.activeTasks[i]? = some ⟨sample, .delivered⟩) :
      StepCases cfg s (.finish i) { s with
        activeTasks := s.activeTasks.set i ⟨sample, .finished⟩ }
  | monitorCheck : StepCases cfg s .monitorCheck { s with resuming := true }
  | monitorResume :
      StepCases cfg s .monitorResume
        { s with paused := false, resuming := false }
  | finishSignal (delivered : Bool) (mq : MessageQueue (Option ℕ))
      (hpc : s.processor = .returned) (hsent : s.finishSent = false)
      (hput : s.mq.putSample none = .ok (delivered, mq)) :
      StepCases cfg s .finishSignal { s with mq, finishSent := true }
  | collectSample (count sample : ℕ) (queue : List (Option ℕ))
      (htrainer : s.trainer = .collecting count)
      (hcount : count < cfg.requiredSamples)
      (hqueue : s.mq.queue = some sample :: queue) :
      StepCases cfg s .collect { s with
        mq := { s.mq with queue, totalConsumed := s.mq.totalConsumed + 1 }
        trainer := if count + 1 = cfg.requiredSamples then .training
          else .collecting (count + 1) }
  | collectEnd (count : ℕ) (queue : List (Option ℕ))
      (htrainer : s.trainer = .collecting count)
      (hqueue : s.mq.queue = none :: queue) :
      StepCases cfg s .collect { s with
        mq := { s.mq with queue, totalConsumed := s.mq.totalConsumed + 1 }
        trainer := .stopped }
  | collectNothing (count : ℕ) (htrainer : s.trainer = .collecting count) :
      StepCases cfg s .collect { s with trainer := .stopped }
  | trainNext (htrainer : s.trainer = .training)
      (hstep : s.localTriggerStep < cfg.triggerParameterSyncStep) :
      StepCases cfg s .train { s with
        localTriggerStep := s.localTriggerStep + 1
        trainer := .collecting 0 }
  | trainLast (htrainer : s.trainer = .training) :
      StepCases cfg s .train
        { s with localTriggerStep := 1, trainer := .syncing }
  | afterSync (htrainer : s.trainer = .synced) :
      StepCases cfg s .afterSync { s with trainer := .collecting 0 }
  | lastSync (htrainer : s.trainer = .stopped) :
      StepCases cfg s .lastSync { s with trainer := .lastSync }
  | resetBegin (htrainer : s.trainer = .syncing ∨ s.trainer = .lastSync)
      (hreset : s.reset = .idle) (hlocked : s.locked = false) :
      StepCases cfg s .resetBegin { s with
        locked := true
        paused := false
        reset := .counting s.activeTasks.length }
  | resetRead (activeTasks : ℕ) (hreset : s.reset = .counting activeTasks) :
      StepCases cfg s .resetRead { s with
        reset := .counted activeTasks s.mq.queue.length }
  | resetFinish (activeTasks queueSize : ℕ)
      (hreset : s.reset = .counted activeTasks queueSize) :
      StepCases cfg s .resetFinish { s with
        stalenessSamples := activeTasks + queueSize
        locked := false
        reset := .idle
        trainer := if s.trainer = .syncing then .synced else .exited }

section Inversion

variable {cfg : Config} {s s' : State}

theorem feed_cases (h : feed cfg s = some s') : StepCases cfg s .feed s' := by
  unfold feed at h
  split at h
  · cases h
  · split at h
    · cases h
      exact .feedSample ‹_›
    · cases h
      exact .feedEnd

theorem processor_cases (h : processor cfg s = some s') :
    ProcessorCases cfg s s' := by
  unfold processor at h
  split at h
  · rename_i hpc
    split at h
    · cases h
      exact .checkPause hpc
    · rename_i hcheck
      simp only [shouldPauseGeneration, Bool.or_eq_true, decide_eq_true_eq,
        not_or, Bool.not_eq_true, not_le] at hcheck
      cases h
      exact .checkGet hpc hcheck.1 hcheck.2.1 hcheck.2.2
  · rename_i hpc
    split at h
    · cases h
    · rename_i hlocked
      cases h
      exact .pause hpc (Bool.not_eq_true _ ▸ hlocked)
  · rename_i loop hpc
    split at h
    · split at h
      · cases h
      · rename_i hlocked
        split at h
        · cases h
          exact .drainIdle loop hpc
        · cases h
          exact .drainWait loop hpc (Bool.not_eq_true _ ▸ hlocked)
    · rename_i hdone
      cases h
      exact .drainExit loop hpc (Bool.not_eq_true _ ▸ hdone)
  · rename_i loop hpc
    split at h
    · cases h
      exact .prune loop hpc
    · cases h
  · rename_i hpc
    split at h
    · cases h
    · rename_i hblocked
      simp only [Bool.or_eq_true, not_or, Bool.not_eq_true] at hblocked
      cases h
      exact .unpark hpc hblocked.2
  · rename_i hpc
    split at h
    · cases h
    · rename_i rest hpending
      cases h
      exact .takeEnd rest hpc hpending
    · rename_i sample rest hpending
      cases h
      exact .takeSample sample rest hpc hpending
  · rename_i sample hpc
    split at h
    · cases h
    · rename_i hblocked
      simp only [Bool.or_eq_true, not_or, Bool.not_eq_true] at hblocked
      cases h
      exact .submit sample hpc hblocked.1 hblocked.2
  · cases h

theorem deliver_cases {i : ℕ} (h : deliver s i = some s') :
    StepCases cfg s (.deliver i) s' := by
  unfold deliver at h
  split at h
  · rename_i sample htask
    split at h
    · rename_i delivered mq hput
      cases h
      exact .deliver i sample delivered mq htask hput
    · cases h
  · cases h

theorem collect_cases (h : collect cfg s = some s') :
    StepCases cfg s .collect s' := by
  unfold collect at h
  split at h
  · rename_i count htrainer
    split at h
    · rename_i hcount
      cases hqueue : s.mq.queue with
      | nil =>
          cases hrunning : s.mq.running <;>
            simp [MessageQueue.getSample, hqueue, hrunning] at h
      | cons data queue =>
          cases data with
          | none =>
              simp only [MessageQueue.getSample, hqueue,
                Option.some.injEq] at h
              subst h
              exact .collectEnd count queue htrainer hqueue
          | some sample =>
              simp only [MessageQueue.getSample, hqueue,
                Option.some.injEq] at h
              subst h
              exact .collectSample count sample queue htrainer hcount hqueue
    · cases h
      exact .collectNothing count htrainer
  · cases h

/-- The inversion lemma every invariant is derived from. -/
theorem step_cases {a : Action} (h : step cfg s a = some s') :
    StepCases cfg s a s' := by
  cases a with
  | feed => exact feed_cases h
  | processor => exact .processor s' (processor_cases h)
  | deliver i => exact deliver_cases h
  | finish i =>
      simp only [step, finish] at h
      split at h
      · cases h
        exact .finish i _ ‹_›
      · cases h
  | monitorCheck =>
      simp only [step] at h
      split at h
      · cases h
        exact .monitorCheck
      · cases h
  | monitorResume =>
      simp only [step] at h
      split at h
      · cases h
        exact .monitorResume
      · cases h
  | finishSignal =>
      simp only [step, finishSignal] at h
      split at h
      · rename_i hready
        split at h
        · cases h
          exact .finishSignal _ _ hready.1 hready.2 ‹_›
        · cases h
      · cases h
  | collect => exact collect_cases h
  | train =>
      simp only [step, train] at h
      split at h
      · rename_i htrainer
        split at h
        · cases h
          exact .trainNext htrainer ‹_›
        · cases h
          exact .trainLast htrainer
      · cases h
  | afterSync =>
      simp only [step] at h
      split at h
      · cases h
        exact .afterSync ‹_›
      · cases h
  | lastSync =>
      simp only [step] at h
      split at h
      · rename_i hstopped
        cases h
        exact .lastSync hstopped.1
      · cases h
  | resetBegin =>
      simp only [step, resetBegin] at h
      split at h
      · rename_i hready
        cases h
        exact .resetBegin hready.1 hready.2.1 hready.2.2
      · cases h
  | resetRead =>
      simp only [step, resetRead] at h
      split at h
      · cases h
        exact .resetRead _ ‹_›
      · cases h
  | resetFinish =>
      simp only [step, resetFinish] at h
      split at h
      · cases h
        exact .resetFinish _ _ ‹_›
      · cases h

end Inversion

end FullyAsync

end SelfDistillation
