/-
The end of the stream (verl/experimental/fully_async_policy): how the end
signal is published when the rollouter finishes or fails, and what the trainer
gets of a queue that is at its end or shut down.
-/
import SelfDistillation.FullyAsyncStaleness

namespace SelfDistillation

open Transition

namespace FullyAsync

/-- Where `_streaming_generation_main` stands: its coroutines run, the feed has
raised, or the processor has raised or was cancelled and the `finally` clause
publishes the end signal. -/
inductive MainPc
  | running
  | feedRaised
  | cleanup
deriving DecidableEq

/-- The pipeline where generation calls and the feed may raise and the queue
may be shut down, with what was put into the message queue and what the
trainer took. -/
structure Stream where
  pipeline : State
  main : MainPc
  failedSamples : List ℕ
  trainerRaised : Bool
  puts : List (Option ℕ)
  taken : List (Option ℕ)
deriving DecidableEq

def Stream.init (cfg : Config) : Stream where
  pipeline := .init cfg
  main := .running
  failedSamples := []
  trainerRaised := false
  puts := []
  taken := []

inductive StreamAction
  | pipeline (a : Action)
  | taskRaises (task : ℕ)
  | feedRaises
  | cancel
  | shutdown
deriving DecidableEq

/-- `await task` raises for one of the finished tasks. -/
def Stream.awaitsFailed (t : Stream) : Bool :=
  t.pipeline.activeTasks.any fun task =>
    task.isFinished && t.failedSamples.contains task.sample

/-- `_processor_worker` up to its next await. -/
def moveProcessor (cfg : Config) (t : Stream) : Option Stream :=
  if t.main = .cleanup then none
  else (processor cfg t.pipeline).map fun s => { t with
    pipeline := s
    main := match t.pipeline.processor with
      | .waiting _ => if t.awaitsFailed then .cleanup else t.main
      | _ => t.main }

/-- `put_sample` of a task runs at the queue. -/
def deliverTask (t : Stream) (i : ℕ) : Option Stream :=
  match t.pipeline.activeTasks[i]?, deliver t.pipeline i with
  | some task, some s =>
      some { t with pipeline := s, puts := t.puts ++ [some task.sample] }
  | _, _ => none

/-- `put_sample(sample=None)` of the `finally` clause. -/
def publishEnd (t : Stream) : Option Stream :=
  if (t.main = .cleanup ∨ t.pipeline.processor = .returned) ∧
      t.pipeline.finishSent = false then
    match t.pipeline.mq.putSample none with
    | .ok (_, mq) => some { t with
        pipeline := { t.pipeline with mq, finishSent := true }
        puts := t.puts ++ [none] }
    | .error _ => none
  else none

/-- A round of the loop of `_get_samples_from_queue`. -/
def collectNext (cfg : Config) (t : Stream) : Option Stream :=
  match t.pipeline.trainer with
  | .collecting count =>
      if t.trainerRaised then none
      else if count < cfg.requiredSamples then
        match t.pipeline.mq.getSample.1 with
        | .sample data _ => (collect cfg t.pipeline).map fun s =>
            { t with pipeline := s, taken := t.taken ++ [data] }
        -- sample, queue_len = None
        | .closed => some { t with trainerRaised := true }
        | .wait => none
      else (collect cfg t.pipeline).map fun s => { t with pipeline := s }
  | _ => none

/-- A generation call raises; its task is done. -/
def raiseTask (t : Stream) (i : ℕ) : Option Stream :=
  match t.pipeline.activeTasks[i]? with
  | some ⟨sample, .generating⟩ => some { t with
      pipeline := { t.pipeline with
        activeTasks := t.pipeline.activeTasks.set i ⟨sample, .finished⟩ }
      failedSamples := sample :: t.failedSamples }
  | _ => none

/-- `processor_task.cancel()`: a processor that waits for tasks gives up the
lock. -/
def cancelProcessor (t : Stream) : Option Stream :=
  if t.main = .feedRaised then
    match t.pipeline.processor with
    | .waiting loop => some { t with
        pipeline := { t.pipeline with
          locked := false
          processor := .draining loop }
        main := .cleanup }
    | _ => some { t with main := .cleanup }
  else none

def streamStep (cfg : Config) (t : Stream) : StreamAction → Option Stream
  | .pipeline .processor => moveProcessor cfg t
  | .pipeline .feed =>
      -- of a feed that is cancelled or has raised nothing is taken any more
      if t.main = .running then
        (feed cfg t.pipeline).map fun s => { t with pipeline := s }
      else none
  | .pipeline (.deliver i) => deliverTask t i
  | .pipeline .finishSignal => publishEnd t
  | .pipeline .collect => collectNext cfg t
  | .pipeline a =>
      (step cfg t.pipeline a).map fun s => { t with pipeline := s }
  | .taskRaises i => raiseTask t i
  | .feedRaises =>
      if t.main = .running ∧ t.pipeline.endFed = false then
        some { t with main := .feedRaised }
      else none
  | .cancel => cancelProcessor t
  | .shutdown => some { t with
      pipeline := { t.pipeline with mq := t.pipeline.mq.shutdown } }

def stream (cfg : Config) : System Stream StreamAction where
  initial := .init cfg
  step := streamStep cfg

/-- Actions whose step in the stream is their step in the pipeline. -/
def Action.silent : Action → Bool
  | .processor | .deliver _ | .finishSignal | .collect => false
  | _ => true

/-- Everything a step of the stream can do. -/
inductive StreamCases (cfg : Config) (t : Stream) : StreamAction → Stream → Prop
  | silent (a : Action) (s : State) (hsilent : a.silent = true)
      (hstep : StepCases cfg t.pipeline a s) :
      StreamCases cfg t (.pipeline a) { t with pipeline := s }
  | processor (s : State) (main : MainPc) (hmain : t.main ≠ .cleanup)
      (hmove : ProcessorCases cfg t.pipeline s)
      (hreleased : main = .cleanup → s.processor.holdsLock = false) :
      StreamCases cfg t (.pipeline .processor)
        { t with pipeline := s, main }
  | deliver (i sample : ℕ) (delivered : Bool) (mq : MessageQueue (Option ℕ))
      (htask : t.pipeline.activeTasks[i]? = some ⟨sample, .generating⟩)
      (hput : t.pipeline.mq.putSample (some sample) = .ok (delivered, mq)) :
      StreamCases cfg t (.pipeline (.deliver i)) { t with
        pipeline := { t.pipeline with
          activeTasks := t.pipeline.activeTasks.set i ⟨sample, .delivered⟩
          mq }
        puts := t.puts ++ [some sample] }
  | publishEnd (delivered : Bool) (mq : MessageQueue (Option ℕ))
      (hend : t.main = .cleanup ∨ t.pipeline.processor = .returned)
      (hsent : t.pipeline.finishSent = false)
      (hput : t.pipeline.mq.putSample none = .ok (delivered, mq)) :
      StreamCases cfg t (.pipeline .finishSignal) { t with
        pipeline := { t.pipeline with mq, finishSent := true }
        puts := t.puts ++ [none] }
  | collectSample (count sample : ℕ) (queue : List (Option ℕ))
      (htrainer : t.pipeline.trainer = .collecting count)
      (hcount : count < cfg.requiredSamples)
      (hqueue : t.pipeline.mq.queue = some sample :: queue) :
      StreamCases cfg t (.pipeline .collect) { t with
        pipeline := { t.pipeline with
          mq := { t.pipeline.mq with
            queue
            totalConsumed := t.pipeline.mq.totalConsumed + 1 }
          trainer := if count + 1 = cfg.requiredSamples then .training
            else .collecting (count + 1) }
        taken := t.taken ++ [some sample] }
  | collectEnd (count : ℕ) (queue : List (Option ℕ))
      (htrainer : t.pipeline.trainer = .collecting count)
      (hqueue : t.pipeline.mq.queue = none :: queue) :
      StreamCases cfg t (.pipeline .collect) { t with
        pipeline := { t.pipeline with
          mq := { t.pipeline.mq with
            queue
            totalConsumed := t.pipeline.mq.totalConsumed + 1 }
          trainer := .stopped }
        taken := t.taken ++ [none] }
  | collectClosed (hqueue : t.pipeline.mq.queue = [])
      (hrunning : t.pipeline.mq.running = false) :
      StreamCases cfg t (.pipeline .collect) { t with trainerRaised := true }
  | collectNothing (count : ℕ)
      (htrainer : t.pipeline.trainer = .collecting count)
      (hcount : cfg.requiredSamples ≤ count) :
      StreamCases cfg t (.pipeline .collect) { t with
        pipeline := { t.pipeline with trainer := .stopped } }
  | taskRaises (i sample : ℕ)
      (htask : t.pipeline.activeTasks[i]? = some ⟨sample, .generating⟩) :
      StreamCases cfg t (.taskRaises i) { t with
        pipeline := { t.pipeline with
          activeTasks := t.pipeline.activeTasks.set i ⟨sample, .finished⟩ }
        failedSamples := sample :: t.failedSamples }
  | feedRaises (hmain : t.main = .running) :
      StreamCases cfg t .feedRaises { t with main := .feedRaised }
  | cancelWaiting (loop : DrainLoop) (hmain : t.main = .feedRaised)
      (hpc : t.pipeline.processor = .waiting loop) :
      StreamCases cfg t .cancel { t with
        pipeline := { t.pipeline with
          locked := false
          processor := .draining loop }
        main := .cleanup }
  | cancel (hmain : t.main = .feedRaised)
      (hreleased : t.pipeline.processor.holdsLock = false) :
      StreamCases cfg t .cancel { t with main := .cleanup }
  | shutdown :
      StreamCases cfg t .shutdown { t with
        pipeline := { t.pipeline with mq := t.pipeline.mq.shutdown } }

section StreamInversion

variable {cfg : Config} {t t' : Stream}

theorem moveProcessor_cases (h : moveProcessor cfg t = some t') :
    StreamCases cfg t (.pipeline .processor) t' := by
  unfold moveProcessor at h
  split at h
  · cases h
  · rename_i hmain
    obtain ⟨s, hs, rfl⟩ := Option.map_eq_some_iff.mp h
    have hmove := processor_cases hs
    refine .processor s _ hmain hmove fun hcleanup => ?_
    -- only the processor that awaited its tasks raises
    split at hcleanup
    · rename_i loop hpc
      cases hmove <;> simp_all [ProcessorPc.holdsLock]
    · exact absurd hcleanup hmain

theorem deliverTask_cases {i : ℕ} (h : deliverTask t i = some t') :
    StreamCases cfg t (.pipeline (.deliver i)) t' := by
  unfold deliverTask at h
  split at h
  · rename_i task s htask hdeliver
    cases h
    unfold deliver at hdeliver
    split at hdeliver
    · rename_i sample hget
      rw [hget] at htask
      cases htask
      split at hdeliver
      · rename_i delivered mq hput
        cases hdeliver
        exact .deliver i sample delivered mq hget hput
      · cases hdeliver
    · cases hdeliver
  · cases h

theorem publishEnd_cases (h : publishEnd t = some t') :
    StreamCases cfg t (.pipeline .finishSignal) t' := by
  unfold publishEnd at h
  split at h
  · rename_i hready
    split at h
    · rename_i delivered mq hput
      cases h
      exact .publishEnd delivered mq hready.1 hready.2 hput
    · cases h
  · cases h

theorem collectNext_cases (h : collectNext cfg t = some t') :
    StreamCases cfg t (.pipeline .collect) t' := by
  unfold collectNext at h
  split at h
  · rename_i count htrainer
    split at h
    · cases h
    · split at h
      · rename_i hcount
        cases hqueue : t.pipeline.mq.queue with
        | nil =>
            cases hrunning : t.pipeline.mq.running with
            | true => simp [MessageQueue.getSample, hqueue, hrunning] at h
            | false =>
                simp only [MessageQueue.getSample, hqueue, hrunning,
                  Bool.false_eq_true, if_false, Option.some.injEq] at h
                subst h
                exact .collectClosed hqueue hrunning
        | cons data queue =>
            cases data with
            | none =>
                simp only [MessageQueue.getSample, hqueue, collect, htrainer,
                  hcount, if_true, Option.map_some, Option.some.injEq] at h
                subst h
                exact .collectEnd count queue htrainer hqueue
            | some sample =>
                simp only [MessageQueue.getSample, hqueue, collect, htrainer,
                  hcount, if_true, Option.map_some, Option.some.injEq] at h
                subst h
                exact .collectSample count sample queue htrainer hcount hqueue
      · rename_i hcount
        simp only [collect, htrainer, hcount, if_false, Option.map_some,
          Option.some.injEq] at h
        subst h
        exact .collectNothing count htrainer (Nat.le_of_not_lt hcount)
  · cases h

theorem streamStep_cases {a : StreamAction}
    (h : streamStep cfg t a = some t') : StreamCases cfg t a t' := by
  cases a with
  | pipeline a =>
      cases a with
      | processor => exact moveProcessor_cases h
      | deliver i => exact deliverTask_cases h
      | finishSignal => exact publishEnd_cases h
      | collect => exact collectNext_cases h
      | feed =>
          simp only [streamStep] at h
          split at h
          · obtain ⟨s, hs, rfl⟩ := Option.map_eq_some_iff.mp h
            exact .silent .feed s rfl (feed_cases hs)
          · cases h
      | finish | monitorCheck | monitorResume | train | afterSync | lastSync
      | resetBegin | resetRead | resetFinish =>
          obtain ⟨s, hs, rfl⟩ := Option.map_eq_some_iff.mp h
          exact .silent _ s rfl (step_cases hs)
  | taskRaises i =>
      simp only [streamStep, raiseTask] at h
      split at h
      · cases h
        exact .taskRaises i _ ‹_›
      · cases h
  | feedRaises =>
      simp only [streamStep] at h
      split at h
      · rename_i hready
        cases h
        exact .feedRaises hready.1
      · cases h
  | cancel =>
      simp only [streamStep, cancelProcessor] at h
      split at h
      · rename_i hmain
        cases hpc : t.pipeline.processor with
        | waiting loop =>
            simp only [hpc, Option.some.injEq] at h
            subst h
            exact .cancelWaiting loop hmain hpc
        | check | pausing | draining | parked | getting | submitting
        | returned =>
            simp only [hpc, Option.some.injEq] at h
            subst h
            exact .cancel hmain (by rw [hpc]; rfl)
      · cases h
  | shutdown =>
      cases h
      exact .shutdown

end StreamInversion

/-- The trainer has left its training loop. -/
def TrainerPc.terminated : TrainerPc → Bool
  | .stopped | .lastSync | .exited => true
  | _ => false

/-- The real samples put before the end signal. -/
def beforeEnd (puts : List (Option ℕ)) : List (Option ℕ) :=
  puts.takeWhile Option.isSome

theorem beforeEnd_append_none {taken rest : List (Option ℕ)}
    (h : none ∉ taken) : beforeEnd (taken ++ none :: rest) = taken := by
  induction taken with
  | nil => rfl
  | cons x taken ih =>
      rw [List.mem_cons, not_or] at h
      obtain ⟨sample, rfl⟩ := Option.ne_none_iff_exists'.mp (Ne.symm h.1)
      rw [List.cons_append, beforeEnd, List.takeWhile_cons_of_pos rfl,
        ← beforeEnd, ih h.2]

/-- What is put behind the end signal does not count. -/
theorem beforeEnd_append {puts later : List (Option ℕ)} (h : none ∈ puts) :
    beforeEnd (puts ++ later) = beforeEnd puts := by
  obtain ⟨sent, late, hputs, hsent⟩ := List.eq_append_cons_of_mem h
  rw [hputs, List.append_assoc, List.cons_append, beforeEnd_append_none hsent,
    beforeEnd_append_none hsent]

/-- After the end signal was published the processor stands still, and there
is room for what is still being generated. -/
structure Closing (cfg : Config) (t : Stream) : Prop where
  maxQueueSize : t.pipeline.mq.maxQueueSize = cfg.maxRequiredSamples
  room : t.pipeline.generating + t.pipeline.mq.queue.length ≤
    cfg.maxRequiredSamples
  halted : t.main = .cleanup ∨ t.pipeline.processor = .returned
  locked : t.pipeline.locked = true → t.pipeline.reset ≠ .idle
  resetting : t.pipeline.reset ≠ .idle →
    t.pipeline.trainer = .syncing ∨ t.pipeline.trainer = .lastSync

/-- While no reset loses a sample, no end signal is published into a queue
without room and the trainer does not ask a queue that is shut down and empty:
the queue evicts nothing, and the trainer takes what was put in order. -/
structure Streaming (cfg : Config) (t : Stream) : Prop where
  before : t.pipeline.finishSent = false →
    Wellformed cfg t.pipeline ∧ Bounded cfg t.pipeline
  after : t.pipeline.finishSent = true → Closing cfg t
  marker : none ∈ t.puts ↔ t.pipeline.finishSent = true
  recorded : t.puts = t.taken ++ t.pipeline.mq.queue
  taken : t.pipeline.trainer.terminated = false → none ∉ t.taken
  complete : t.pipeline.trainer.terminated = true →
    t.taken = beforeEnd t.puts ++ [none]
  released : t.main = .cleanup → t.pipeline.processor.holdsLock = false
  required : 0 < cfg.requiredSamples
  count : ∀ count, t.pipeline.trainer = .collecting count →
    count < cfg.requiredSamples
  noRaise : t.trainerRaised = false
  noEviction : t.pipeline.mq.droppedSamples = 0

theorem streaming_init (cfg : Config) (hrequired : 0 < cfg.requiredSamples) :
    Streaming cfg (.init cfg) where
  before _ := ⟨wellformed_init cfg, bounded_init cfg⟩
  after h := by cases h
  marker := by simp [Stream.init, State.init]
  recorded := rfl
  taken _ := List.not_mem_nil
  complete h := by cases h
  released h := by cases h
  required := hrequired
  count count h := by
    cases h
    exact hrequired
  noRaise := rfl
  noEviction := rfl

section StreamInvariants

variable {cfg : Config} {t t' : Stream} {s s' : State} {a : Action}

/-- A sample that is being generated has its place in the queue. -/
theorem queue_lt_of_generating (hwf : Wellformed cfg s) (h : Bounded cfg s)
    {i sample : ℕ}
    (htask : s.activeTasks[i]? = some ⟨sample, .generating⟩) :
    s.mq.queue.length < cfg.maxRequiredSamples := by
  have htasks := countP_generating_deliver htask
  have hne : s.activeTasks ≠ [] := by
    rintro hnil
    simp [hnil] at htask
  have hlength := hwf.buffered_eq (hwf.finishSent_of_task hne)
  have hbounded := h.bounded
  simp only [State.inFlight, State.generating] at hbounded
  omega

/-- The end signal was counted like a sample and has its place as well. -/
theorem queue_lt_of_returned (hwf : Wellformed cfg s) (h : Bounded cfg s)
    (hpc : s.processor = .returned) (hsent : s.finishSent = false) :
    s.mq.queue.length < cfg.maxRequiredSamples := by
  have hroom := h.room (.inr (by rw [hpc]; rfl))
  have hlength := hwf.buffered_eq hsent
  simp only [State.inFlight] at hroom
  omega

/-- A put that finds room appends. -/
theorem putSample_of_lt {mq mq' : MessageQueue (Option ℕ)} {x : Option ℕ}
    {delivered : Bool} (hlt : mq.queue.length < mq.maxQueueSize)
    (hput : mq.putSample x = .ok (delivered, mq')) :
    mq'.maxQueueSize = mq.maxQueueSize ∧ mq'.queue = mq.queue ++ [x] ∧
      mq'.droppedSamples = mq.droppedSamples := by
  obtain ⟨hmax, ⟨-, hqueue, hdropped⟩ | ⟨oldest, queue, -, hfull, -⟩⟩ :=
    MessageQueue.putSample_eq_ok hput
  · exact ⟨hmax, hqueue, hdropped⟩
  · omega

/-- Steps that do not pass through the queue leave it, the processor, and the
trainer in its loop or behind it. -/
theorem silent_frame (hsilent : a.silent = true)
    (hresetting : s.reset ≠ .idle →
      s.trainer = .syncing ∨ s.trainer = .lastSync)
    (hstep : StepCases cfg s a s') :
    s'.mq = s.mq ∧ s'.finishSent = s.finishSent ∧
      s'.processor = s.processor ∧
      s'.trainer.terminated = s.trainer.terminated ∧
      ∀ count, s'.trainer = .collecting count →
        s.trainer = .collecting count ∨ count = 0 := by
  cases hstep with
  | processor | deliver | finishSignal | collectSample | collectEnd
  | collectNothing => cases hsilent
  | feedSample | feedEnd | finish | monitorCheck | monitorResume
  | resetBegin | resetRead =>
      exact ⟨rfl, rfl, rfl, rfl, fun _ h => .inl h⟩
  | trainNext htrainer =>
      refine ⟨rfl, rfl, rfl, by rw [htrainer]; rfl, fun count h => .inr ?_⟩
      cases h
      rfl
  | afterSync htrainer =>
      refine ⟨rfl, rfl, rfl, by rw [htrainer]; rfl, fun count h => .inr ?_⟩
      cases h
      rfl
  | trainLast htrainer =>
      exact ⟨rfl, rfl, rfl, by rw [htrainer]; rfl, fun count h => by cases h⟩
  | lastSync htrainer =>
      exact ⟨rfl, rfl, rfl, by rw [htrainer]; rfl, fun count h => by cases h⟩
  | resetFinish activeTasks queueSize hreset =>
      rcases hresetting (by simp [hreset]) with htrainer | htrainer
      · refine ⟨rfl, rfl, rfl, ?_, fun count h => ?_⟩
        · simp [htrainer, TrainerPc.terminated]
        · simp [htrainer] at h
      · refine ⟨rfl, rfl, rfl, ?_, fun count h => ?_⟩
        · simp [htrainer, TrainerPc.terminated]
        · simp [htrainer] at h

theorem Streaming.resetting (h : Streaming cfg t)
    (hreset : t.pipeline.reset ≠ .idle) :
    t.pipeline.trainer = .syncing ∨ t.pipeline.trainer = .lastSync := by
  cases hsent : t.pipeline.finishSent with
  | false => exact (h.before hsent).1.resetting hreset
  | true => exact (h.after hsent).resetting hreset

/-- What a silent step does once the end signal is out. -/
theorem Closing.silent_step (h : Closing cfg t) (hsilent : a.silent = true)
    (hstep : StepCases cfg t.pipeline a s') :
    Closing cfg { t with pipeline := s' } := by
  have hidle : ∀ {trainer : TrainerPc}, t.pipeline.trainer = trainer →
      trainer ≠ .syncing → trainer ≠ .lastSync →
        t.pipeline.reset = .idle := by
    rintro trainer rfl hsyncing hlastSync
    by_contra hne
    exact (h.resetting hne).elim hsyncing hlastSync
  cases hstep with
  | processor | deliver | finishSignal | collectSample | collectEnd
  | collectNothing => cases hsilent
  | feedSample | feedEnd | monitorCheck | monitorResume => exact { h with }
  | finish i sample htask =>
      have htasks := countP_generating_finish htask
      refine { h with room := ?_ }
      simp only [State.generating, htasks]
      exact h.room
  | trainNext htrainer =>
      exact { h with
        resetting := fun hne =>
          absurd (hidle htrainer (by simp) (by simp)) hne }
  | trainLast htrainer => exact { h with resetting := fun _ => .inl rfl }
  | afterSync htrainer =>
      exact { h with
        resetting := fun hne =>
          absurd (hidle htrainer (by simp) (by simp)) hne }
  | lastSync htrainer => exact { h with resetting := fun _ => .inr rfl }
  | resetBegin htrainer =>
      exact { h with
        locked := fun _ hidle => by cases hidle
        resetting := fun _ => htrainer }
  | resetRead activeTasks hreset =>
      exact { h with
        locked := fun _ hidle => by cases hidle
        resetting := fun _ => h.resetting (by simp [hreset]) }
  | resetFinish activeTasks queueSize hreset =>
      exact { h with
        locked := fun hlocked => by cases hlocked
        resetting := fun hne => absurd rfl hne }

/-- No reset overwrites the counter while the processor holds a sample, the
trainer does not ask a queue that is shut down and empty, and after a failure
the end signal is published while fewer than `max_required_samples` samples
are being generated or queued. -/
def Orderly (cfg : Config) (t : Stream) : StreamAction → Prop
  | .pipeline .resetFinish =>
      t.pipeline.finishSent = false → t.pipeline.processor.held = 0
  | .pipeline .collect =>
      t.pipeline.mq.running = true ∨ t.pipeline.mq.queue ≠ []
  | .pipeline .finishSignal => t.main = .cleanup →
      t.pipeline.generating + t.pipeline.mq.queue.length <
        cfg.maxRequiredSamples
  | _ => True

instance (cfg : Config) (t : Stream) :
    ∀ a : StreamAction, Decidable (Orderly cfg t a)
  | .pipeline .resetFinish => inferInstanceAs (Decidable (_ = _ → _ = _))
  | .pipeline .collect => inferInstanceAs (Decidable (_ = _ ∨ _ ≠ _))
  | .pipeline .finishSignal => inferInstanceAs (Decidable (_ = _ → _ < _))
  | .pipeline .feed | .pipeline .processor | .pipeline (.deliver _)
  | .pipeline (.finish _) | .pipeline .monitorCheck
  | .pipeline .monitorResume | .pipeline .train | .pipeline .afterSync
  | .pipeline .lastSync | .pipeline .resetBegin | .pipeline .resetRead
  | .taskRaises _ | .feedRaises | .cancel | .shutdown => isTrue trivial

theorem Streaming.silent_step (h : Streaming cfg t)
    (hguard : Orderly cfg t (.pipeline a)) (hsilent : a.silent = true)
    (hstep : StepCases cfg t.pipeline a s') :
    Streaming cfg { t with pipeline := s' } := by
  obtain ⟨hmq, hsent, hpc, hterminated, hcount⟩ :=
    silent_frame hsilent h.resetting hstep
  have hheld : t.pipeline.finishSent = false → a = .resetFinish →
      t.pipeline.processor.held = 0 := by
    rintro hsent rfl
    exact hguard hsent
  refine { h with
    before := fun hopen => ?_
    after := fun hdone => ?_
    marker := by simp only [hsent, h.marker]
    recorded := by simp only [hmq, h.recorded]
    taken := fun hworking => h.taken (hterminated ▸ hworking)
    complete := fun hdone => h.complete (hterminated ▸ hdone)
    released := fun hcleanup => hpc ▸ h.released hcleanup
    count := fun count hcollecting => ?_
    noEviction := by simp only [hmq, h.noEviction] }
  · rw [hsent] at hopen
    obtain ⟨hwf, hbounded⟩ := h.before hopen
    exact ⟨hwf.step hstep, hbounded.step hwf (hheld hopen) hstep⟩
  · rw [hsent] at hdone
    exact (h.after hdone).silent_step hsilent hstep
  · rcases hcount count hcollecting with hsame | rfl
    · exact h.count count hsame
    · exact h.required

theorem processor_frame (hmove : ProcessorCases cfg s s') :
    s'.mq = s.mq ∧ s'.finishSent = s.finishSent ∧ s'.trainer = s.trainer := by
  cases hmove <;> exact ⟨rfl, rfl, rfl⟩

theorem Streaming.processor_step (h : Streaming cfg t) {main : MainPc}
    (hmain : t.main ≠ .cleanup)
    (hmove : ProcessorCases cfg t.pipeline s')
    (hreleased : main = .cleanup → s'.processor.holdsLock = false) :
    Streaming cfg { t with pipeline := s', main } := by
  obtain ⟨hmq, hsent, htrainer⟩ := processor_frame hmove
  have hopen : t.pipeline.finishSent = false := by
    rw [← Bool.not_eq_true]
    intro hdone
    rcases (h.after hdone).halted with hcleanup | hreturned
    · exact hmain hcleanup
    · cases hmove <;> simp_all
  obtain ⟨hwf, hbounded⟩ := h.before hopen
  exact { h with
    before := fun _ =>
      ⟨hwf.processor_step hmove, hbounded.processor_step hwf hmove⟩
    after := fun hdone => by simp [hsent, hopen] at hdone
    marker := by simp only [hsent, h.marker]
    recorded := by simp only [hmq, h.recorded]
    taken := fun hworking => h.taken (htrainer ▸ hworking)
    complete := fun hdone => h.complete (htrainer ▸ hdone)
    released := hreleased
    count := fun count hcollecting => h.count count (htrainer ▸ hcollecting)
    noEviction := by simp only [hmq, h.noEviction] }

/-- A sample is put into a queue that has room for it. -/
theorem Streaming.queue_lt (h : Streaming cfg t) {i sample : ℕ}
    (htask : t.pipeline.activeTasks[i]? = some ⟨sample, .generating⟩) :
    t.pipeline.mq.queue.length < t.pipeline.mq.maxQueueSize := by
  cases hsent : t.pipeline.finishSent with
  | false =>
      obtain ⟨hwf, hbounded⟩ := h.before hsent
      rw [hwf.maxQueueSize]
      exact queue_lt_of_generating hwf hbounded htask
  | true =>
      have hclosing := h.after hsent
      have htasks := countP_generating_deliver htask
      have hroom := hclosing.room
      simp only [State.generating] at hroom
      rw [hclosing.maxQueueSize]
      omega

/-- What is put behind the samples the trainer has taken. -/
theorem Streaming.put (h : Streaming cfg t) (x : Option ℕ) :
    (t.pipeline.trainer.terminated = true →
      t.taken = beforeEnd (t.puts ++ [x]) ++ [none]) ∧
    t.puts ++ [x] = t.taken ++ (t.pipeline.mq.queue ++ [x]) := by
  refine ⟨fun hdone => ?_, by rw [h.recorded, List.append_assoc]⟩
  have htaken := h.complete hdone
  have hmem : none ∈ t.puts := by
    rw [h.recorded, htaken]
    simp
  rw [beforeEnd_append hmem]
  exact htaken

theorem Streaming.deliver_step (h : Streaming cfg t) {i sample : ℕ}
    {delivered : Bool} {mq : MessageQueue (Option ℕ)}
    (htask : t.pipeline.activeTasks[i]? = some ⟨sample, .generating⟩)
    (hput : t.pipeline.mq.putSample (some sample) = .ok (delivered, mq)) :
    Streaming cfg { t with
      pipeline := { t.pipeline with
        activeTasks := t.pipeline.activeTasks.set i ⟨sample, .delivered⟩
        mq }
      puts := t.puts ++ [some sample] } := by
  obtain ⟨hmax, hqueue, hdropped⟩ := putSample_of_lt (h.queue_lt htask) hput
  obtain ⟨hcomplete, hrecorded⟩ := h.put (some sample)
  refine { h with
    before := fun hopen => ?_
    after := fun hdone => ?_
    marker := by simp [h.marker]
    recorded := by rw [hrecorded, hqueue]
    complete := hcomplete
    noEviction := hdropped.trans h.noEviction }
  · obtain ⟨hwf, hbounded⟩ := h.before hopen
    exact ⟨hwf.step (.deliver i sample delivered mq htask hput),
      hbounded.deliver_step hwf htask hput⟩
  · have hclosing := h.after hdone
    have htasks := countP_generating_deliver htask
    have hroom := hclosing.room
    simp only [State.generating] at hroom
    refine { hclosing with
      maxQueueSize := hmax.trans hclosing.maxQueueSize
      room := ?_ }
    simp only [State.generating, hqueue, List.length_append,
      List.length_singleton]
    omega

/-- The end signal is published. -/
theorem Streaming.publishEnd_step (h : Streaming cfg t)
    (hguard : Orderly cfg t (.pipeline .finishSignal)) {delivered : Bool}
    {mq : MessageQueue (Option ℕ)}
    (hend : t.main = .cleanup ∨ t.pipeline.processor = .returned)
    (hsent : t.pipeline.finishSent = false)
    (hput : t.pipeline.mq.putSample none = .ok (delivered, mq)) :
    Streaming cfg { t with
      pipeline := { t.pipeline with mq, finishSent := true }
      puts := t.puts ++ [none] } := by
  obtain ⟨hwf, hbounded⟩ := h.before hsent
  have hplace : t.pipeline.generating + t.pipeline.mq.queue.length <
      cfg.maxRequiredSamples := by
    by_cases hcleanup : t.main = .cleanup
    · exact hguard hcleanup
    · have hpc := hend.resolve_left hcleanup
      have hnone : t.pipeline.generating = 0 := by
        rw [State.generating, hwf.returned hpc]
        rfl
      rw [hnone, Nat.zero_add]
      exact queue_lt_of_returned hwf hbounded hpc hsent
  have hlt : t.pipeline.mq.queue.length < t.pipeline.mq.maxQueueSize := by
    rw [hwf.maxQueueSize]
    omega
  obtain ⟨hmax, hqueue, hdropped⟩ := putSample_of_lt hlt hput
  obtain ⟨hcomplete, hrecorded⟩ := h.put none
  refine { h with
    before := fun hopen => by cases hopen
    after := fun _ => ?_
    marker := by simp
    recorded := by rw [hrecorded, hqueue]
    complete := hcomplete
    noEviction := hdropped.trans h.noEviction }
  refine ⟨hmax.trans hwf.maxQueueSize, ?_, hend, fun hlocked => ?_,
    hwf.resetting⟩
  · simp only [State.generating, hqueue, List.length_append,
      List.length_singleton]
    simp only [State.generating] at hplace
    omega
  · rcases hwf.locked.mp hlocked with hne | hholds
    · exact hne
    · rcases hend with hcleanup | hreturned
      · rw [h.released hcleanup] at hholds
        cases hholds
      · rw [hreturned] at hholds
        cases hholds

/-- The trainer takes the head of the queue. -/
theorem Streaming.take (h : Streaming cfg t) {x : Option ℕ}
    {queue : List (Option ℕ)} (hqueue : t.pipeline.mq.queue = x :: queue) :
    t.puts = (t.taken ++ [x]) ++ queue := by
  rw [h.recorded, hqueue, List.append_assoc, List.singleton_append]

theorem Streaming.idle_of_collecting (h : Streaming cfg t) {count : ℕ}
    (htrainer : t.pipeline.trainer = .collecting count) :
    t.pipeline.reset = .idle := by
  by_contra hne
  rcases h.resetting hne with htr | htr <;> rw [htrainer] at htr <;> cases htr

theorem Streaming.collectSample_step (h : Streaming cfg t)
    {count sample : ℕ} {queue : List (Option ℕ)}
    (htrainer : t.pipeline.trainer = .collecting count)
    (hcount : count < cfg.requiredSamples)
    (hqueue : t.pipeline.mq.queue = some sample :: queue) :
    Streaming cfg { t with
      pipeline := { t.pipeline with
        mq := { t.pipeline.mq with
          queue
          totalConsumed := t.pipeline.mq.totalConsumed + 1 }
        trainer := if count + 1 = cfg.requiredSamples then .training
          else .collecting (count + 1) }
      taken := t.taken ++ [some sample] } := by
  have hidle := h.idle_of_collecting htrainer
  have hworking : (if count + 1 = cfg.requiredSamples then TrainerPc.training
      else .collecting (count + 1)).terminated = false := by
    split <;> rfl
  have htaken : none ∉ t.taken := h.taken (by rw [htrainer]; rfl)
  refine { h with
    before := fun hopen => ?_
    after := fun hdone => ?_
    recorded := h.take hqueue
    taken := fun _ => by simpa using htaken
    complete := fun hdone => by
      rw [hworking] at hdone
      cases hdone
    count := fun next hcollecting => ?_ }
  · obtain ⟨hwf, hbounded⟩ := h.before hopen
    exact ⟨hwf.step (.collectSample count sample queue htrainer hcount hqueue),
      hbounded.collect_step hqueue _⟩
  · have hclosing := h.after hdone
    have hroom := hclosing.room
    rw [hqueue, List.length_cons] at hroom
    exact { hclosing with
      room := by
        simp only [State.generating] at hroom ⊢
        omega
      resetting := fun hne => absurd hidle hne }
  · split at hcollecting
    · cases hcollecting
    · cases hcollecting
      omega

theorem Streaming.collectEnd_step (h : Streaming cfg t) {count : ℕ}
    {queue : List (Option ℕ)}
    (htrainer : t.pipeline.trainer = .collecting count)
    (hqueue : t.pipeline.mq.queue = none :: queue) :
    Streaming cfg { t with
      pipeline := { t.pipeline with
        mq := { t.pipeline.mq with
          queue
          totalConsumed := t.pipeline.mq.totalConsumed + 1 }
        trainer := .stopped }
      taken := t.taken ++ [none] } := by
  have hidle := h.idle_of_collecting htrainer
  have htaken : none ∉ t.taken := h.taken (by rw [htrainer]; rfl)
  refine { h with
    before := fun hopen => ?_
    after := fun hdone => ?_
    recorded := h.take hqueue
    taken := fun hworking => by cases hworking
    complete := fun _ => ?_
    count := fun next hcollecting => by cases hcollecting }
  · obtain ⟨hwf, hbounded⟩ := h.before hopen
    exact ⟨hwf.step (.collectEnd count queue htrainer hqueue),
      hbounded.collect_step hqueue _⟩
  · have hclosing := h.after hdone
    have hroom := hclosing.room
    rw [hqueue, List.length_cons] at hroom
    exact { hclosing with
      room := by
        simp only [State.generating] at hroom ⊢
        omega
      resetting := fun hne => absurd hidle hne }
  · simp only [h.recorded, hqueue, beforeEnd_append_none htaken]

theorem Streaming.taskRaises_step (h : Streaming cfg t) {i sample : ℕ}
    (htask : t.pipeline.activeTasks[i]? = some ⟨sample, .generating⟩) :
    Streaming cfg { t with
      pipeline := { t.pipeline with
        activeTasks := t.pipeline.activeTasks.set i ⟨sample, .finished⟩ }
      failedSamples := sample :: t.failedSamples } := by
  have htasks := countP_generating_leave
    (show TaskStage.finished ≠ .generating by simp) htask
  have hne : t.pipeline.activeTasks ≠ [] := by
    rintro hnil
    simp [hnil] at htask
  refine { h with
    before := fun hopen => ?_
    after := fun hdone => ?_ }
  · obtain ⟨hwf, hbounded⟩ := h.before hopen
    refine ⟨{ hwf with returned := fun hr => absurd (hwf.returned hr) hne },
      hbounded.mono ?_ ?_ ?_ rfl id rfl rfl⟩
    all_goals
      simp only [State.inFlight, State.generating, State.buffered]
      omega
  · have hclosing := h.after hdone
    have hroom := hclosing.room
    simp only [State.generating] at hroom
    refine { hclosing with room := ?_ }
    simp only [State.generating]
    omega

/-- A processor that is cancelled while it waits for tasks gives up the lock
and does not move again. -/
theorem Streaming.cancelWaiting_step (h : Streaming cfg t) {loop : DrainLoop}
    (hmain : t.main = .feedRaised)
    (hpc : t.pipeline.processor = .waiting loop) :
    Streaming cfg { t with
      pipeline := { t.pipeline with
        locked := false
        processor := .draining loop }
      main := .cleanup } := by
  refine { h with
    before := fun hopen => ?_
    after := fun hdone => ?_
    released := fun _ => rfl }
  · obtain ⟨hwf, hbounded⟩ := h.before hopen
    have hidle := hwf.idle_of_holdsLock (by rw [hpc]; rfl)
    refine ⟨{ hwf with
      locked := by simp [hidle, ProcessorPc.holdsLock]
      exclusive := fun _ => rfl
      returned := fun hr => by cases hr
      signal := fun hs => absurd (hwf.signal hs) (by simp [hpc])
      paused := fun hp => ?_ }, ?_⟩
    · have hpause := hwf.paused hp
      rw [hpc, inPause_waiting] at hpause
      exact hpause
    · refine hbounded.move (by rw [hpc]; rfl) fun htake => ?_
      rcases htake with hg | he
      · cases hg
      · exact .inr (by rw [hpc, ended_waiting]; exact he)
  · rcases (h.after hdone).halted with hcleanup | hreturned
    · rw [hmain] at hcleanup
      cases hcleanup
    · rw [hpc] at hreturned
      cases hreturned

/-- Every orderly step keeps the stream in order. -/
theorem Streaming.step {a : StreamAction} (h : Streaming cfg t)
    (hguard : Orderly cfg t a) (hstep : StreamCases cfg t a t') :
    Streaming cfg t' := by
  cases hstep with
  | silent a s hsilent hstep => exact h.silent_step hguard hsilent hstep
  | processor s main hmain hmove hreleased =>
      exact h.processor_step hmain hmove hreleased
  | deliver i sample delivered mq htask hput => exact h.deliver_step htask hput
  | publishEnd delivered mq hend hsent hput =>
      exact h.publishEnd_step hguard hend hsent hput
  | collectSample count sample queue htrainer hcount hqueue =>
      exact h.collectSample_step htrainer hcount hqueue
  | collectEnd count queue htrainer hqueue =>
      exact h.collectEnd_step htrainer hqueue
  | collectClosed hqueue hrunning =>
      rcases hguard with hopen | hne
      · rw [hrunning] at hopen
        cases hopen
      · exact absurd hqueue hne
  | collectNothing count htrainer hcount =>
      exact absurd (h.count count htrainer) (Nat.not_lt.mpr hcount)
  | taskRaises i sample htask => exact h.taskRaises_step htask
  | feedRaises hmain =>
      exact { h with
        after := fun hdone => { h.after hdone with
          halted := .inr
            ((h.after hdone).halted.resolve_left (by simp [hmain])) }
        released := fun hcleanup => by cases hcleanup }
  | cancelWaiting loop hmain hpc => exact h.cancelWaiting_step hmain hpc
  | cancel hmain hreleased =>
      exact { h with
        after := fun hdone => { h.after hdone with halted := .inl rfl }
        released := fun _ => hreleased }
  | shutdown =>
      exact { h with
        before := fun hopen => by
          obtain ⟨hwf, hbounded⟩ := h.before hopen
          exact ⟨{ hwf with }, { hbounded with }⟩
        after := fun hdone => { h.after hdone with } }

/-- Steps the trainer takes, with those of the `reset_staleness` it waits
for. -/
def StreamAction.ofTrainer : StreamAction → Bool
  | .pipeline .collect | .pipeline .train | .pipeline .afterSync
  | .pipeline .resetBegin | .pipeline .resetRead
  | .pipeline .resetFinish => true
  | _ => false

/-- Steps of the trainer up to the next sample. -/
def stepsToCollect (s : State) : ℕ :=
  match s.trainer, s.reset with
  | .collecting _, _ => 1
  | .training, _ => 6
  | .syncing, .idle => 5
  | .syncing, .counting _ => 4
  | .syncing, .counted _ _ => 3
  | .synced, _ => 2
  | _, _ => 0

/-- A bound on the steps of the trainer up to the end signal. -/
def stepsToEnd (s : State) : ℕ :=
  7 * (beforeEnd s.mq.queue).length + stepsToCollect s

/-- A step of the trainer that brings it closer to the end signal. -/
structure Advances (cfg : Config) (t : Stream) (a : StreamAction)
    (t' : Stream) : Prop where
  ofTrainer : a.ofTrainer = true
  step : streamStep cfg t a = some t'
  puts : t'.puts = t.puts
  finishSent : t'.pipeline.finishSent = t.pipeline.finishSent
  closer : t'.pipeline.trainer.terminated = true ∨
    stepsToEnd t'.pipeline < stepsToEnd t.pipeline

/-- The end signal is still in the queue of a trainer that has not stopped. -/
theorem Streaming.mem_queue (h : Streaming cfg t)
    (hsent : t.pipeline.finishSent = true)
    (hworking : t.pipeline.trainer.terminated = false) :
    none ∈ t.pipeline.mq.queue := by
  have hmem := h.marker.mpr hsent
  rw [h.recorded, List.mem_append] at hmem
  exact hmem.resolve_left (h.taken hworking)

theorem Streaming.collect_advances (h : Streaming cfg t) {count : ℕ}
    (hsent : t.pipeline.finishSent = true)
    (htrainer : t.pipeline.trainer = .collecting count) :
    ∃ t', Advances cfg t (.pipeline .collect) t' := by
  have hmem := h.mem_queue hsent (by rw [htrainer]; rfl)
  have hcount := h.count count htrainer
  obtain ⟨x, queue, hqueue⟩ := List.exists_cons_of_ne_nil
    (List.ne_nil_of_mem hmem)
  cases x with
  | none =>
      have hstep : streamStep cfg t (.pipeline .collect) = some { t with
          pipeline := { t.pipeline with
            mq := { t.pipeline.mq with
              queue
              totalConsumed := t.pipeline.mq.totalConsumed + 1 }
            trainer := .stopped }
          taken := t.taken ++ [none] } := by
        simp [streamStep, collectNext, htrainer, h.noRaise, hcount,
          MessageQueue.getSample, hqueue, collect]
      exact ⟨_, rfl, hstep, rfl, rfl, .inl rfl⟩
  | some sample =>
      have hstep : streamStep cfg t (.pipeline .collect) = some { t with
          pipeline := { t.pipeline with
            mq := { t.pipeline.mq with
              queue
              totalConsumed := t.pipeline.mq.totalConsumed + 1 }
            trainer := if count + 1 = cfg.requiredSamples then .training
              else .collecting (count + 1) }
          taken := t.taken ++ [some sample] } := by
        simp [streamStep, collectNext, htrainer, h.noRaise, hcount,
          MessageQueue.getSample, hqueue, collect]
      refine ⟨_, rfl, hstep, rfl, rfl, .inr ?_⟩
      have hbefore : (beforeEnd t.pipeline.mq.queue).length =
          (beforeEnd queue).length + 1 := by
        rw [hqueue, beforeEnd, List.takeWhile_cons_of_pos rfl]
        rfl
      simp only [stepsToEnd, hbefore, stepsToCollect, htrainer]
      split <;> omega

/-- A step of the trainer that leaves the queue. -/
theorem advances_of_silent (hsilent : a.silent = true)
    (htrainer : (StreamAction.pipeline a).ofTrainer = true)
    (hstep : step cfg t.pipeline a = some s')
    (hframe : s'.mq = t.pipeline.mq ∧
      s'.finishSent = t.pipeline.finishSent)
    (hcloser : stepsToCollect s' < stepsToCollect t.pipeline) :
    ∃ t', Advances cfg t (.pipeline a) t' := by
  have hstream : streamStep cfg t (.pipeline a) =
      some { t with pipeline := s' } := by
    cases a with
    | processor | deliver | finishSignal | collect => cases hsilent
    | feed | finish | monitorCheck | monitorResume | lastSync => cases htrainer
    | train | afterSync | resetBegin | resetRead | resetFinish =>
        simp only [streamStep, hstep, Option.map_some]
  refine ⟨_, htrainer, hstream, rfl, hframe.2, .inr ?_⟩
  simp only [stepsToEnd, hframe.1]
  omega

/-- A trainer behind which the end signal was published is never stuck. -/
theorem Streaming.advances (h : Streaming cfg t)
    (hsent : t.pipeline.finishSent = true)
    (hworking : t.pipeline.trainer.terminated = false) :
    ∃ a t', Advances cfg t a t' := by
  cases htrainer : t.pipeline.trainer with
  | collecting count => exact ⟨_, h.collect_advances hsent htrainer⟩
  | training =>
      by_cases hlt : t.pipeline.localTriggerStep <
          cfg.triggerParameterSyncStep
      · have hstep : FullyAsync.step cfg t.pipeline .train =
          some { t.pipeline with
            localTriggerStep := t.pipeline.localTriggerStep + 1
            trainer := .collecting 0 } := by
          simp [FullyAsync.step, train, htrainer, hlt]
        exact ⟨_, advances_of_silent (a := .train) rfl rfl hstep ⟨rfl, rfl⟩
          (by simp [stepsToCollect, htrainer])⟩
      · have hstep : FullyAsync.step cfg t.pipeline .train =
          some { t.pipeline with
            localTriggerStep := 1
            trainer := .syncing } := by
          simp [FullyAsync.step, train, htrainer, hlt]
        refine ⟨_, advances_of_silent (a := .train) rfl rfl hstep ⟨rfl, rfl⟩ ?_⟩
        cases hreset : t.pipeline.reset <;>
          simp [stepsToCollect, htrainer, hreset]
  | syncing =>
      cases hreset : t.pipeline.reset with
      | idle =>
          have hunlocked : t.pipeline.locked = false := by
            rw [← Bool.not_eq_true]
            exact fun hlocked => (h.after hsent).locked hlocked hreset
          have hstep : FullyAsync.step cfg t.pipeline .resetBegin =
            some { t.pipeline with
              locked := true
              paused := false
              reset := .counting t.pipeline.activeTasks.length } := by
            simp [FullyAsync.step, resetBegin, htrainer, hreset, hunlocked]
          exact ⟨_, advances_of_silent (a := .resetBegin) rfl rfl hstep ⟨rfl, rfl⟩
            (by simp [stepsToCollect, htrainer, hreset])⟩
      | counting activeTasks =>
          have hstep : FullyAsync.step cfg t.pipeline .resetRead =
            some { t.pipeline with
              reset := .counted activeTasks t.pipeline.mq.queue.length } := by
            simp [FullyAsync.step, resetRead, hreset]
          exact ⟨_, advances_of_silent (a := .resetRead) rfl rfl hstep ⟨rfl, rfl⟩
            (by simp [stepsToCollect, htrainer, hreset])⟩
      | counted activeTasks queueSize =>
          have hstep : FullyAsync.step cfg t.pipeline .resetFinish =
            some { t.pipeline with
              stalenessSamples := activeTasks + queueSize
              locked := false
              reset := .idle
              trainer := .synced } := by
            simp [FullyAsync.step, resetFinish, hreset, htrainer]
          exact ⟨_, advances_of_silent (a := .resetFinish) rfl rfl hstep ⟨rfl, rfl⟩
            (by simp [stepsToCollect, htrainer, hreset])⟩
  | synced =>
      have hstep : FullyAsync.step cfg t.pipeline .afterSync =
        some { t.pipeline with
          trainer := .collecting 0 } := by
        simp [FullyAsync.step, htrainer]
      exact ⟨_, advances_of_silent (a := .afterSync) rfl rfl hstep ⟨rfl, rfl⟩
        (by simp [stepsToCollect, htrainer])⟩
  | stopped | lastSync | exited =>
      rw [htrainer] at hworking
      cases hworking

/-- The trainer goes on until it has taken the end signal. -/
theorem Streaming.observes (h : Streaming cfg t)
    (hsent : t.pipeline.finishSent = true) :
    ∃ actions t', (∀ a ∈ actions, a.ofTrainer = true) ∧
      (stream cfg).exec t actions = some t' ∧
      t'.trainerRaised = false ∧
      t'.pipeline.trainer.terminated = true ∧
      t'.taken = beforeEnd t.puts ++ [none] := by
  induction hsteps : stepsToEnd t.pipeline using Nat.strong_induction_on
    generalizing t with
  | _ steps ih =>
      cases hworking : t.pipeline.trainer.terminated with
      | true =>
          exact ⟨[], t, List.forall_mem_nil _, rfl, h.noRaise, hworking,
            h.complete hworking⟩
      | false =>
          obtain ⟨a, next, hnext⟩ := h.advances hsent hworking
          have hguard : Orderly cfg t a := by
            have hmem := h.mem_queue hsent hworking
            have htrainer := hnext.ofTrainer
            unfold Orderly
            split
            · exact fun hopen => by simp [hsent] at hopen
            · exact .inr (List.ne_nil_of_mem hmem)
            · cases htrainer
            · trivial
          have hstreaming := h.step hguard (streamStep_cases hnext.step)
          have hnextSent := hnext.finishSent.trans hsent
          rcases hnext.closer with hdone | hless
          · refine ⟨[a], next, by simpa using hnext.ofTrainer,
              System.exec_cons_eq_some.mpr ⟨next, hnext.step, rfl⟩,
              hstreaming.noRaise, hdone, ?_⟩
            rw [hstreaming.complete hdone, hnext.puts]
          · obtain ⟨actions, t', hall, hrun, hraised, hdone, htaken⟩ :=
              ih _ (hsteps ▸ hless) hstreaming hnextSent rfl
            refine ⟨a :: actions, t', ?_,
              System.exec_cons_eq_some.mpr ⟨next, hnext.step, hrun⟩, hraised,
              hdone, ?_⟩
            · exact List.forall_mem_cons.mpr ⟨hnext.ofTrainer, hall⟩
            · rw [htaken, hnext.puts]

/-- The trainer never raises, the queue evicts nothing, not for the end signal
either, and the trainer takes in order every sample put before the end signal
and then the signal: when it has stopped it has done so, and once the signal
is published it gets there. -/
structure EndsCleanly (cfg : Config) (t : Stream) : Prop where
  noRaise : t.trainerRaised = false
  noEviction : t.pipeline.mq.droppedSamples = 0
  inOrder : t.taken <+: t.puts
  complete : t.pipeline.trainer.terminated = true →
    t.taken = beforeEnd t.puts ++ [none]
  observes : t.pipeline.finishSent = true →
    ∃ actions t', (∀ a ∈ actions, a.ofTrainer = true) ∧
      (stream cfg).exec t actions = some t' ∧
      t'.trainerRaised = false ∧
      t'.pipeline.trainer.terminated = true ∧
      t'.taken = beforeEnd t.puts ++ [none]

/-- Every run of orderly steps brings the end of the stream to the trainer
without loss.  `set_max_required_samples` divides by `required_samples`. -/
theorem stream_endsCleanly (cfg : Config)
    (hrequired : 0 < cfg.requiredSamples) (actions : List StreamAction)
    (t : Stream)
    (hguard : (stream cfg).Guarded (Orderly cfg) (.init cfg) actions)
    (hrun : (stream cfg).exec (.init cfg) actions = some t) :
    EndsCleanly cfg t := by
  have h : Streaming cfg t := System.invariant_of_guarded
    (fun _ _ _ hstreaming hguard hstep =>
      hstreaming.step hguard (streamStep_cases hstep))
    (streaming_init cfg hrequired) hguard hrun
  exact ⟨h.noRaise, h.noEviction, ⟨_, h.recorded.symm⟩, h.complete, h.observes⟩

end StreamInvariants

section StreamExamples

/-- One sample a training step, two in the queue, four in all. -/
def fourSamples : Config where
  requiredSamples := 1
  triggerParameterSyncStep := 1
  maxRequiredSamples := 2
  maxConcurrentSamples := 2
  totalSamples := 4
  trigger_pos := Nat.one_pos
  enough := Nat.two_pos

/-- A generation call raises, the end signal is published behind another
sample, and the trainer takes both. -/
def failedGeneration : List StreamAction :=
  List.flatten [takeAndStart.map .pipeline, takeAndStart.map .pipeline,
    [.taskRaises 0, .pipeline (.deliver 1), .pipeline .processor,
      .pipeline .processor, .pipeline .processor, .pipeline .processor,
      .pipeline .finishSignal, .pipeline .collect, .pipeline .train,
      .pipeline .resetBegin, .pipeline .resetRead, .pipeline .resetFinish,
      .pipeline .afterSync, .pipeline .collect]]

theorem stream_endsCleanly_failed_generation :
    ∃ t, (stream fourSamples).exec (.init fourSamples) failedGeneration =
        some t ∧ EndsCleanly fourSamples t := by
  obtain ⟨t, hrun⟩ := Option.isSome_iff_exists.mp
    (show ((stream fourSamples).exec (.init fourSamples)
      failedGeneration).isSome = true by decide +kernel)
  exact ⟨t, hrun, stream_endsCleanly fourSamples (by decide) failedGeneration t
    (by decide +kernel) hrun⟩

/-- The queue is shut down while the trainer waits for a sample. -/
def shutDownEarly : List StreamAction := [.shutdown, .pipeline .collect]

/-- A reset forgets a sample the processor holds; two more are taken, the
second of them the end signal, and fill the queue before it. -/
def fullAtTheEnd : List StreamAction :=
  (List.flatten [firstVersion,
    [.processor, .processor, .collect, .train, .resetBegin, .resetRead, .feed,
      .processor, .processor, .resetFinish, .processor],
    [.processor, .feed, .processor, .processor, .processor],
    [.processor, .feed, .processor],
    [.processor, .deliver 0, .finish 0, .processor, .processor, .deliver 0,
      .finish 0, .processor, .processor, .finishSignal]]).map .pipeline

/-- The trainer raises at a queue that was shut down, and the end signal
evicts a sample. -/
theorem stream_endsCleanly_fails :
    (∃ t ∈ (stream fourSamples).exec (.init fourSamples) shutDownEarly,
      ¬ EndsCleanly fourSamples t) ∧
    ∃ t ∈ (stream fourSamples).exec (.init fourSamples) fullAtTheEnd,
      ¬ EndsCleanly fourSamples t := by
  have hraised : ∃ t ∈ (stream fourSamples).exec (.init fourSamples)
      shutDownEarly, ¬ t.trainerRaised = false := by decide +kernel
  have hevicted : ∃ t ∈ (stream fourSamples).exec (.init fourSamples)
      fullAtTheEnd, ¬ t.pipeline.mq.droppedSamples = 0 := by decide +kernel
  obtain ⟨t, ht, hraise⟩ := hraised
  obtain ⟨t', ht', hevict⟩ := hevicted
  exact ⟨⟨t, ht, fun h => hraise h.noRaise⟩,
    ⟨t', ht', fun h => hevict h.noEviction⟩⟩

end StreamExamples

end FullyAsync

end SelfDistillation
