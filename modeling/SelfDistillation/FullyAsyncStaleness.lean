/-
What holds in every interleaving of the fully asynchronous pipeline: where
samples are, how far `staleness_samples` is from their number, and when the
pipeline stalls.
-/
import SelfDistillation.FullyAsync

namespace SelfDistillation

open Transition

namespace FullyAsync

/-- Samples taken from the pending queue that have no task yet. -/
def DrainLoop.held : DrainLoop → ℕ
  | .slot _ => 1
  | .pause | .ending => 0

def ProcessorPc.held : ProcessorPc → ℕ
  | .draining loop | .waiting loop => loop.held
  | .submitting _ => 1
  | .check | .pausing | .parked | .getting | .returned => 0

def ProcessorPc.holdsLock : ProcessorPc → Bool
  | .waiting _ => true
  | _ => false

/-- The end signal was taken. -/
def ProcessorPc.ended : ProcessorPc → Bool
  | .draining .ending | .waiting .ending | .returned => true
  | _ => false

def ProcessorPc.inPause : ProcessorPc → Bool
  | .draining .pause | .waiting .pause | .parked => true
  | _ => false

@[simp] theorem held_exit (loop : DrainLoop) : loop.exit.held = loop.held := by
  cases loop <;> rfl

@[simp] theorem holdsLock_exit (loop : DrainLoop) :
    loop.exit.holdsLock = false := by
  cases loop <;> rfl

@[simp] theorem ended_exit (loop : DrainLoop) :
    loop.exit.ended = (ProcessorPc.draining loop).ended := by
  cases loop <;> rfl

@[simp] theorem inPause_exit (loop : DrainLoop) :
    loop.exit.inPause = (ProcessorPc.draining loop).inPause := by
  cases loop <;> rfl

@[simp] theorem ended_waiting (loop : DrainLoop) :
    (ProcessorPc.waiting loop).ended = (ProcessorPc.draining loop).ended := by
  cases loop <;> rfl

@[simp] theorem inPause_waiting (loop : DrainLoop) :
    (ProcessorPc.waiting loop).inPause =
      (ProcessorPc.draining loop).inPause := by
  cases loop <;> rfl

theorem held_of_inPause {pc : ProcessorPc} (h : pc.inPause = true) :
    pc.held = 0 ∧ pc.ended = false := by
  rcases pc with _ | _ | loop | loop | _ | _ | sample | _ <;>
    first
    | exact ⟨rfl, rfl⟩
    | cases h
    | (rcases loop with _ | sample | _ <;> first | exact ⟨rfl, rfl⟩ | cases h)

/-- Tasks whose sample is not in the queue yet. -/
def State.generating (s : State) : ℕ :=
  s.activeTasks.countP SampleTask.isGenerating

/-- Samples in the message queue, without the end signal. -/
def State.buffered (s : State) : ℕ := s.mq.queue.countP Option.isSome

/-- Running tasks, samples taken by the processor and samples in the message
queue. -/
def State.inFlight (s : State) : ℕ :=
  s.generating + s.processor.held + s.buffered

theorem samples_congr {s s' : State}
    (hsamples : s'.activeTasks = s.activeTasks ∧ s'.mq = s.mq ∧
      s'.processor = s.processor) :
    s'.generating = s.generating ∧ s'.buffered = s.buffered ∧
      s'.inFlight = s.inFlight := by
  obtain ⟨htasks, hmq, hprocessor⟩ := hsamples
  have hgenerating : s'.generating = s.generating := by
    rw [State.generating, htasks, State.generating]
  have hbuffered : s'.buffered = s.buffered := by
    rw [State.buffered, hmq, State.buffered]
  refine ⟨hgenerating, hbuffered, ?_⟩
  rw [State.inFlight, hgenerating, hprocessor, hbuffered, State.inFlight]

section Counting

variable {tasks : List SampleTask} {i sample : ℕ}

theorem countP_generating_prune (tasks : List SampleTask) :
    (tasks.filter fun task => !task.isFinished).countP
      SampleTask.isGenerating = tasks.countP SampleTask.isGenerating := by
  rw [List.countP_filter]
  apply List.countP_congr
  rintro ⟨sample, stage⟩ -
  cases stage <;> simp [SampleTask.isGenerating, SampleTask.isFinished]

/-- A task that stops generating, by a delivery or otherwise. -/
theorem countP_generating_leave {stage : TaskStage}
    (hstage : stage ≠ .generating)
    (htask : tasks[i]? = some ⟨sample, .generating⟩) :
    (tasks.set i ⟨sample, stage⟩).countP SampleTask.isGenerating + 1 =
      tasks.countP SampleTask.isGenerating := by
  obtain ⟨hi, hget⟩ := List.getElem?_eq_some_iff.mp htask
  have hpos : 0 < tasks.countP SampleTask.isGenerating := by
    rw [List.countP_pos_iff]
    exact ⟨_, List.getElem_mem hi, by rw [hget]; rfl⟩
  rw [List.countP_set hi, hget]
  simp only [SampleTask.isGenerating, hstage, decide_true, decide_false,
    Bool.false_eq_true, if_true, if_false]
  omega

theorem countP_generating_deliver
    (htask : tasks[i]? = some ⟨sample, .generating⟩) :
    (tasks.set i ⟨sample, .delivered⟩).countP SampleTask.isGenerating + 1 =
      tasks.countP SampleTask.isGenerating :=
  countP_generating_leave (by simp) htask

theorem countP_generating_finish
    (htask : tasks[i]? = some ⟨sample, .delivered⟩) :
    (tasks.set i ⟨sample, .finished⟩).countP SampleTask.isGenerating =
      tasks.countP SampleTask.isGenerating := by
  obtain ⟨hi, hget⟩ := List.getElem?_eq_some_iff.mp htask
  rw [List.countP_set hi, hget]
  simp [SampleTask.isGenerating]

end Counting

/-- What the lock, the pause flag, the end signal and the trainer's phases
have to do with each other, whatever the counters are. -/
structure Wellformed (cfg : Config) (s : State) : Prop where
  maxQueueSize : s.mq.maxQueueSize = cfg.maxRequiredSamples
  locked : s.locked = true ↔ s.reset ≠ .idle ∨ s.processor.holdsLock = true
  exclusive : s.reset ≠ .idle → s.processor.holdsLock = false
  returned : s.processor = .returned → s.activeTasks = []
  signal : s.finishSent = true → s.processor = .returned
  real : s.finishSent = false → ∀ x ∈ s.mq.queue, x.isSome = true
  resetting : s.reset ≠ .idle → s.trainer = .syncing ∨ s.trainer = .lastSync
  paused : s.paused = true → s.processor.inPause = true

theorem wellformed_init (cfg : Config) : Wellformed cfg (.init cfg) where
  maxQueueSize := rfl
  locked := by simp [State.init, ProcessorPc.holdsLock]
  exclusive := fun _ => rfl
  returned := fun _ => rfl
  signal := fun h => by cases h
  real := fun _ _ hx => by cases hx
  resetting := fun h => absurd rfl h
  paused := fun h => by cases h

section Invariants

variable {cfg : Config} {s s' : State} {a : Action}

/-- Without the lock no reset is under way and the processor waits for no
task. -/
theorem Wellformed.of_unlocked (h : Wellformed cfg s)
    (hlocked : s.locked = false) :
    s.reset = .idle ∧ s.processor.holdsLock = false := by
  have hnot := (not_congr h.locked).mp (by simp [hlocked])
  rw [not_or, not_not, Bool.not_eq_true] at hnot
  exact hnot

/-- No reset is under way while the processor waits with the lock. -/
theorem Wellformed.idle_of_holdsLock (h : Wellformed cfg s)
    (hholds : s.processor.holdsLock = true) : s.reset = .idle := by
  by_contra hne
  rw [h.exclusive hne] at hholds
  cases hholds

/-- A reset is part of a parameter sync. -/
theorem Wellformed.idle_of_trainer (h : Wellformed cfg s)
    (hsyncing : s.trainer ≠ .syncing) (hlastSync : s.trainer ≠ .lastSync) :
    s.reset = .idle := by
  by_contra hne
  rcases h.resetting hne with htrainer | htrainer
  · exact hsyncing htrainer
  · exact hlastSync htrainer

/-- A processor with a task in sight has not returned. -/
theorem Wellformed.finishSent_of_task (h : Wellformed cfg s)
    (hne : s.activeTasks ≠ []) : s.finishSent = false := by
  rw [← Bool.not_eq_true]
  exact fun hsent => hne (h.returned (h.signal hsent))

theorem Wellformed.finishSent_of_pc (h : Wellformed cfg s)
    (hne : s.processor ≠ .returned) : s.finishSent = false := by
  rw [← Bool.not_eq_true]
  exact fun hsent => hne (h.signal hsent)

/-- Before the end signal is sent all that is queued are samples. -/
theorem Wellformed.buffered_eq (h : Wellformed cfg s)
    (hsent : s.finishSent = false) : s.buffered = s.mq.queue.length :=
  List.countP_eq_length.mpr (h.real hsent)

theorem mem_of_put {mq mq' : MessageQueue (Option ℕ)} {x : Option ℕ}
    {success : Bool} (hput : mq.putSample x = .ok (success, mq')) :
    ∀ y ∈ mq'.queue, y ∈ mq.queue ∨ y = x := by
  intro y hy
  rcases (MessageQueue.putSample_eq_ok hput).2 with ⟨-, hqueue, -⟩ |
    ⟨oldest, queue, hold, -, hqueue, -⟩
  · rw [hqueue, List.mem_append, List.mem_singleton] at hy
    exact hy
  · rw [hqueue, List.mem_append, List.mem_singleton] at hy
    rw [hold, List.mem_cons]
    tauto

/-- The processor moves on without touching the lock, the queue, a reset or
the trainer. -/
theorem Wellformed.move (h : Wellformed cfg s)
    (hframe : s'.mq = s.mq ∧ s'.locked = s.locked ∧ s'.reset = s.reset ∧
      s'.trainer = s.trainer ∧ s'.finishSent = s.finishSent)
    (hfrom : s.processor.holdsLock = false ∧ s.processor ≠ .returned)
    (hto : s'.processor.holdsLock = false)
    (hreturned : s'.processor = .returned → s'.activeTasks = [])
    (hpaused : s'.paused = true → s'.processor.inPause = true) :
    Wellformed cfg s' := by
  obtain ⟨hmq, hlocked, hreset, htrainer, hsent⟩ := hframe
  have hunsent := h.finishSent_of_pc hfrom.2
  refine ⟨?_, ?_, fun _ => hto, hreturned, ?_, ?_, ?_, hpaused⟩
  · rw [hmq]
    exact h.maxQueueSize
  · rw [hlocked, hreset, hto, h.locked, hfrom.1]
  · rw [hsent, hunsent]
    exact fun hfalse => by cases hfalse
  · rw [hsent, hmq]
    exact h.real
  · rw [hreset, htrainer]
    exact h.resetting

/-- Outside a pause the flag is not set. -/
theorem Wellformed.not_paused (h : Wellformed cfg s)
    (hpc : s.processor.inPause = false) : ¬ s.paused = true := by
  intro hpaused
  rw [h.paused hpaused] at hpc
  cases hpc

theorem Wellformed.processor_step (h : Wellformed cfg s)
    (hstep : ProcessorCases cfg s s') : Wellformed cfg s' := by
  cases hstep with
  | checkPause hpc =>
      have hpaused := h.not_paused (by rw [hpc]; rfl)
      exact h.move ⟨rfl, rfl, rfl, rfl, rfl⟩ (by simp [hpc]; rfl) rfl
        (fun hr => by cases hr) fun hp => absurd hp hpaused
  | checkGet hpc hpaused hqueue hstaleness =>
      exact h.move ⟨rfl, rfl, rfl, rfl, rfl⟩ (by simp [hpc]; rfl) rfl
        (fun hr => by cases hr) fun hp => by simp [hpaused] at hp
  | pause hpc hlocked =>
      exact h.move ⟨rfl, rfl, rfl, rfl, rfl⟩ (by simp [hpc]; rfl) rfl
        (fun hr => by cases hr) fun _ => rfl
  | drainIdle loop hpc => exact h
  | drainWait loop hpc hlocked =>
      obtain ⟨hidle, -⟩ := h.of_unlocked hlocked
      refine { h with
        locked := by simp [ProcessorPc.holdsLock]
        exclusive := fun hne => absurd hidle hne
        returned := fun hr => by cases hr
        signal := fun hs => absurd (h.signal hs) (by simp [hpc])
        paused := fun hp => ?_ }
      have hpause := h.paused hp
      rw [hpc] at hpause
      rw [inPause_waiting, hpause]
  | drainExit loop hpc hdone =>
      refine h.move ⟨rfl, rfl, rfl, rfl, rfl⟩ (by simp [hpc]; rfl)
        (holdsLock_exit loop) (fun hr => ?_) fun hp => ?_
      · cases loop with
        | ending => simpa [DrainLoop.continues] using hdone
        | pause | slot sample => cases hr
      · have hpause := h.paused hp
        rw [hpc] at hpause
        rw [inPause_exit, hpause]
  | prune loop hpc =>
      have hidle := h.idle_of_holdsLock (by rw [hpc]; rfl)
      refine { h with
        locked := by simp [hidle, ProcessorPc.holdsLock]
        exclusive := fun _ => rfl
        returned := fun hr => by cases hr
        signal := fun hs => absurd (h.signal hs) (by simp [hpc])
        paused := fun hp => ?_ }
      have hpause := h.paused hp
      rw [hpc, inPause_waiting] at hpause
      exact hpause
  | unpark hpc hpaused =>
      exact h.move ⟨rfl, rfl, rfl, rfl, rfl⟩ (by simp [hpc]; rfl) rfl
        (fun hr => by cases hr) fun hp => by simp [hpaused] at hp
  | takeSample sample rest hpc hpending =>
      have hpaused := h.not_paused (by rw [hpc]; rfl)
      exact h.move ⟨rfl, rfl, rfl, rfl, rfl⟩ (by simp [hpc]; rfl) rfl
        (fun hr => by cases hr) fun hp => absurd hp hpaused
  | takeEnd rest hpc hpending =>
      have hpaused := h.not_paused (by rw [hpc]; rfl)
      exact h.move ⟨rfl, rfl, rfl, rfl, rfl⟩ (by simp [hpc]; rfl) rfl
        (fun hr => by cases hr) fun hp => absurd hp hpaused
  | submit sample hpc hlocked hpaused =>
      exact h.move ⟨rfl, rfl, rfl, rfl, rfl⟩ (by simp [hpc]; rfl) rfl
        (fun hr => by cases hr) fun hp => by simp [hpaused] at hp

/-- Every step keeps the pipeline well formed. -/
theorem Wellformed.step (h : Wellformed cfg s)
    (hstep : StepCases cfg s a s') : Wellformed cfg s' := by
  cases hstep with
  | processor s' hmove => exact h.processor_step hmove
  | feedSample hmore => exact { h with }
  | feedEnd => exact { h with }
  | deliver i sample delivered mq htask hput =>
      have hne : s.activeTasks ≠ [] := by
        rintro hnil
        simp [hnil] at htask
      refine { h with
        maxQueueSize := ?_
        returned := fun hr => absurd (h.returned hr) hne
        real := fun hsent x hx => ?_ }
      · rw [(MessageQueue.putSample_eq_ok hput).1]
        exact h.maxQueueSize
      · rcases mem_of_put hput x hx with hold | rfl
        · exact h.real hsent x hold
        · rfl
  | finish i sample htask =>
      have hne : s.activeTasks ≠ [] := by
        rintro hnil
        simp [hnil] at htask
      exact { h with returned := fun hr => absurd (h.returned hr) hne }
  | monitorCheck => exact { h with }
  | monitorResume => exact { h with paused := fun hp => by cases hp }
  | finishSignal delivered mq hpc hsent hput =>
      refine { h with
        maxQueueSize := ?_
        signal := fun _ => hpc
        real := fun hfalse => by cases hfalse }
      rw [(MessageQueue.putSample_eq_ok hput).1]
      exact h.maxQueueSize
  | collectSample count sample queue htrainer hcount hqueue =>
      have hidle := h.idle_of_trainer (by simp [htrainer]) (by simp [htrainer])
      exact { h with
        real := fun hsent x hx => h.real hsent x (by
          rw [hqueue]
          exact List.mem_cons_of_mem _ hx)
        resetting := fun hne => absurd hidle hne }
  | collectEnd count queue htrainer hqueue =>
      have hidle := h.idle_of_trainer (by simp [htrainer]) (by simp [htrainer])
      exact { h with
        real := fun hsent x hx => h.real hsent x (by
          rw [hqueue]
          exact List.mem_cons_of_mem _ hx)
        resetting := fun hne => absurd hidle hne }
  | collectNothing count htrainer =>
      have hidle := h.idle_of_trainer (by simp [htrainer]) (by simp [htrainer])
      exact { h with resetting := fun hne => absurd hidle hne }
  | trainNext htrainer hlt =>
      have hidle := h.idle_of_trainer (by simp [htrainer]) (by simp [htrainer])
      exact { h with resetting := fun hne => absurd hidle hne }
  | trainLast htrainer => exact { h with resetting := fun _ => .inl rfl }
  | afterSync htrainer =>
      have hidle := h.idle_of_trainer (by simp [htrainer]) (by simp [htrainer])
      exact { h with resetting := fun hne => absurd hidle hne }
  | lastSync htrainer => exact { h with resetting := fun _ => .inr rfl }
  | resetBegin htrainer hreset hlocked =>
      obtain ⟨-, hholds⟩ := h.of_unlocked hlocked
      exact { h with
        locked := by simp
        exclusive := fun _ => hholds
        resetting := fun _ => htrainer
        paused := fun hp => by cases hp }
  | resetRead activeTasks hreset =>
      have hne : s.reset ≠ .idle := by simp [hreset]
      have hlocked := h.locked.mpr (.inl hne)
      exact { h with
        locked := by simp [hlocked]
        exclusive := fun _ => h.exclusive hne
        resetting := fun _ => h.resetting hne }
  | resetFinish activeTasks queueSize hreset =>
      have hholds := h.exclusive (by simp [hreset])
      exact { h with
        locked := by simp [hholds]
        exclusive := fun hne => absurd rfl hne
        resetting := fun hne => absurd rfl hne }

end Invariants

section Staleness

variable {cfg : Config} {s s' : State} {a : Action}

/-- The processor may take one more. -/
def ProcessorPc.mayTake (pc : ProcessorPc) : Prop :=
  pc = .getting ∨ pc.ended = true

theorem not_mayTake {pc : ProcessorPc} (hget : pc ≠ .getting)
    (hended : pc.ended = false) : ¬ pc.mayTake := by
  rw [ProcessorPc.mayTake, hended]
  simpa using hget

/-- While every reset finds the processor empty-handed, `staleness_samples`
covers the samples in flight, and these stay within their bound. -/
structure Bounded (cfg : Config) (s : State) : Prop where
  covered : s.inFlight ≤ s.stalenessSamples
  bounded : s.inFlight ≤ cfg.maxRequiredSamples
  room : s.processor.mayTake → s.inFlight < cfg.maxRequiredSamples
  counting : ∀ n, s.reset = .counting n → s.generating ≤ n
  counted : ∀ n q, s.reset = .counted n q →
    s.generating + s.buffered ≤ n + q
  dropped : s.mq.droppedSamples = 0

theorem bounded_init (cfg : Config) : Bounded cfg (.init cfg) where
  covered := Nat.le_refl 0
  bounded := Nat.zero_le _
  room := fun h => by rcases h with h | h <;> cases h
  counting := fun n h => by cases h
  counted := fun n q h => by cases h
  dropped := rfl

/-- A step that adds no sample in flight. -/
theorem Bounded.mono (h : Bounded cfg s)
    (hgenerating : s'.generating ≤ s.generating)
    (hsum : s'.generating + s'.buffered ≤ s.generating + s.buffered)
    (hinFlight : s'.inFlight ≤ s.inFlight)
    (hstaleness : s'.stalenessSamples = s.stalenessSamples)
    (hpc : s'.processor.mayTake → s.processor.mayTake)
    (hreset : s'.reset = s.reset)
    (hdropped : s'.mq.droppedSamples = s.mq.droppedSamples) :
    Bounded cfg s' where
  covered := by rw [hstaleness]; exact hinFlight.trans h.covered
  bounded := hinFlight.trans h.bounded
  room := fun htake => hinFlight.trans_lt (h.room (hpc htake))
  counting := fun n hn => hgenerating.trans (h.counting n (hreset ▸ hn))
  counted := fun n q hn => hsum.trans (h.counted n q (hreset ▸ hn))
  dropped := by rw [hdropped]; exact h.dropped

/-- A step that touches neither the samples nor their counter. -/
theorem Bounded.frame (h : Bounded cfg s)
    (hsamples : s'.activeTasks = s.activeTasks ∧ s'.mq = s.mq ∧
      s'.processor = s.processor)
    (hcounter : s'.stalenessSamples = s.stalenessSamples ∧
      s'.reset = s.reset) : Bounded cfg s' := by
  obtain ⟨hgenerating, hbuffered, hinFlight⟩ := samples_congr hsamples
  obtain ⟨-, hmq, hprocessor⟩ := hsamples
  exact h.mono hgenerating.le (by rw [hgenerating, hbuffered]) hinFlight.le
    hcounter.1 (by rw [hprocessor]; exact id) hcounter.2 (by rw [hmq])

/-- The processor's hands stay as they are. -/
theorem Bounded.move (h : Bounded cfg s) {pc : ProcessorPc} {flag : Bool}
    {lock : Bool} (hheld : pc.held = s.processor.held)
    (hpc : pc.mayTake → s.processor.mayTake) :
    Bounded cfg
      { s with processor := pc, paused := flag, locked := lock } := by
  refine h.mono (Nat.le_refl _) (Nat.le_refl _) ?_ rfl hpc rfl rfl
  simp only [State.inFlight, State.generating, State.buffered, hheld]
  exact Nat.le_refl _

theorem Bounded.processor_step (hwf : Wellformed cfg s) (h : Bounded cfg s)
    (hstep : ProcessorCases cfg s s') : Bounded cfg s' := by
  cases hstep with
  | checkPause hpc =>
      exact h.move (by rw [hpc]; rfl) fun htake =>
        absurd htake (not_mayTake (by simp) rfl)
  | checkGet hpc hpaused hqueue hstaleness =>
      -- the check leaves room for one sample
      have hroom := h.covered.trans_lt hstaleness
      have hsame : ({ s with processor := .getting } : State).inFlight =
          s.inFlight := by
        simp only [State.inFlight, State.generating, State.buffered, hpc]
        rfl
      exact { h with
        covered := by rw [hsame]; exact h.covered
        bounded := by rw [hsame]; exact h.bounded
        room := fun _ => by rw [hsame]; exact hroom }
  | pause hpc hlocked =>
      exact h.move (by rw [hpc]; rfl) fun htake =>
        absurd htake (not_mayTake (by simp) rfl)
  | drainIdle loop hpc => exact h
  | drainWait loop hpc hlocked =>
      refine h.move (by rw [hpc]; rfl) fun htake => ?_
      rcases htake with hg | he
      · cases hg
      · exact .inr (by rw [hpc, ← ended_waiting]; exact he)
  | drainExit loop hpc hdone =>
      refine h.move (by rw [hpc]; exact held_exit loop) fun htake => ?_
      rcases htake with hg | he
      · cases loop <;> cases hg
      · exact .inr (by rw [hpc, ← ended_exit]; exact he)
  | prune loop hpc =>
      have hprune := countP_generating_prune s.activeTasks
      refine h.mono ?_ ?_ ?_ rfl (fun htake => ?_) rfl rfl
      · simp only [State.generating, hprune, Nat.le_refl]
      · simp only [State.generating, State.buffered, hprune, Nat.le_refl]
      · simp only [State.inFlight, State.generating, State.buffered, hprune,
          hpc]
        exact Nat.le_refl _
      · rcases htake with hg | he
        · cases hg
        · exact .inr (by rw [hpc, ended_waiting]; exact he)
  | unpark hpc hpaused =>
      exact h.move (by rw [hpc]; rfl) fun htake =>
        absurd htake (not_mayTake (by simp) rfl)
  | takeSample sample rest hpc hpending =>
      have hroom := h.room (.inl hpc)
      have hcovered := h.covered
      simp only [State.inFlight, State.generating, State.buffered, hpc,
        ProcessorPc.held] at hroom hcovered
      exact { h with
        covered := by
          simp only [State.inFlight, State.generating, State.buffered,
            ProcessorPc.held, DrainLoop.held]
          omega
        bounded := by
          simp only [State.inFlight, State.generating, State.buffered,
            ProcessorPc.held, DrainLoop.held]
          omega
        room := fun htake => absurd htake (not_mayTake (by simp) rfl) }
  | takeEnd rest hpc hpending =>
      have hroom := h.room (.inl hpc)
      have hcovered := h.covered
      simp only [State.inFlight, State.generating, State.buffered, hpc,
        ProcessorPc.held] at hroom hcovered
      exact { h with
        covered := by
          simp only [State.inFlight, State.generating, State.buffered,
            ProcessorPc.held, DrainLoop.held]
          omega
        bounded := by
          simp only [State.inFlight, State.generating, State.buffered,
            ProcessorPc.held, DrainLoop.held]
          omega
        room := fun _ => by
          simp only [State.inFlight, State.generating, State.buffered,
            ProcessorPc.held, DrainLoop.held]
          omega }
  | submit sample hpc hlocked hpaused =>
      -- without the lock no reset is counting the tasks
      obtain ⟨hidle, -⟩ := hwf.of_unlocked hlocked
      have hsame : ({ s with
          activeTasks := s.activeTasks ++ [⟨sample, .generating⟩]
          processor := .check } : State).inFlight = s.inFlight := by
        simp only [State.inFlight, State.generating, State.buffered, hpc,
          List.countP_append, ProcessorPc.held]
        rfl
      exact { h with
        covered := by rw [hsame]; exact h.covered
        bounded := by rw [hsame]; exact h.bounded
        room := fun htake => absurd htake (not_mayTake (by simp) rfl)
        counting := fun n hn => by simp [hidle] at hn
        counted := fun n q hn => by simp [hidle] at hn }

/-- A sample in flight reaches the queue; the queue is not full. -/
theorem Bounded.deliver_step (hwf : Wellformed cfg s) (h : Bounded cfg s)
    {i sample : ℕ} {delivered : Bool} {mq : MessageQueue (Option ℕ)}
    (htask : s.activeTasks[i]? = some ⟨sample, .generating⟩)
    (hput : s.mq.putSample (some sample) = .ok (delivered, mq)) :
    Bounded cfg { s with
      activeTasks := s.activeTasks.set i ⟨sample, .delivered⟩
      mq } := by
  have htasks := countP_generating_deliver htask
  have hne : s.activeTasks ≠ [] := by
    rintro hnil
    simp [hnil] at htask
  have hlength := hwf.buffered_eq (hwf.finishSent_of_task hne)
  have hbounded := h.bounded
  simp only [State.inFlight, State.generating] at hbounded
  rcases (MessageQueue.putSample_eq_ok hput).2 with
    ⟨-, hqueue, hdropped⟩ | ⟨oldest, queue, -, hfull, -⟩
  · have hbuffered : mq.queue.countP Option.isSome = s.buffered + 1 := by
      rw [hqueue, List.countP_append]
      rfl
    refine h.mono ?_ ?_ ?_ rfl id rfl hdropped
    all_goals
      simp only [State.inFlight, State.generating, State.buffered]
      simp only [State.buffered] at hbuffered
      omega
  · rw [hwf.maxQueueSize] at hfull
    omega

/-- The end signal is put into a queue with room: a sample less was taken. -/
theorem Bounded.finishSignal_step (hwf : Wellformed cfg s)
    (h : Bounded cfg s) {delivered : Bool} {mq : MessageQueue (Option ℕ)}
    (hpc : s.processor = .returned) (hsent : s.finishSent = false)
    (hput : s.mq.putSample none = .ok (delivered, mq)) :
    Bounded cfg { s with mq, finishSent := true } := by
  have hroom := h.room (.inr (by rw [hpc]; rfl))
  have hlength := hwf.buffered_eq hsent
  simp only [State.inFlight] at hroom
  rcases (MessageQueue.putSample_eq_ok hput).2 with
    ⟨-, hqueue, hdropped⟩ | ⟨oldest, queue, -, hfull, -⟩
  · have hbuffered : mq.queue.countP Option.isSome = s.buffered := by
      rw [hqueue, List.countP_append]
      rfl
    refine h.mono (Nat.le_refl _) ?_ ?_ rfl id rfl hdropped
    all_goals
      simp only [State.inFlight, State.generating, State.buffered]
      simp only [State.buffered] at hbuffered
      omega
  · rw [hwf.maxQueueSize] at hfull
    omega

/-- The trainer takes the head of the queue. -/
theorem Bounded.collect_step (h : Bounded cfg s) {x : Option ℕ}
    {queue : List (Option ℕ)} (hqueue : s.mq.queue = x :: queue)
    (trainer : TrainerPc) :
    Bounded cfg { s with
      mq := { s.mq with queue, totalConsumed := s.mq.totalConsumed + 1 }
      trainer } := by
  have hbuffered : queue.countP Option.isSome ≤ s.buffered := by
    rw [State.buffered, hqueue, List.countP_cons]
    omega
  refine h.mono (Nat.le_refl _) ?_ ?_ rfl id rfl rfl
  all_goals
    simp only [State.inFlight, State.generating, State.buffered]
    simp only [State.buffered] at hbuffered
    omega

/-- Every step keeps the bound, if a reset overwrites the counter only while
the processor holds no sample. -/
theorem Bounded.step (hwf : Wellformed cfg s) (h : Bounded cfg s)
    (hguard : a = .resetFinish → s.processor.held = 0)
    (hstep : StepCases cfg s a s') : Bounded cfg s' := by
  cases hstep with
  | processor s' hmove => exact h.processor_step hwf hmove
  | feedSample hmore =>
      exact h.frame ⟨rfl, rfl, rfl⟩ ⟨rfl, rfl⟩
  | feedEnd =>
      exact h.frame ⟨rfl, rfl, rfl⟩ ⟨rfl, rfl⟩
  | deliver i sample delivered mq htask hput =>
      exact h.deliver_step hwf htask hput
  | finish i sample htask =>
      have htasks := countP_generating_finish htask
      refine h.mono ?_ ?_ ?_ rfl id rfl rfl
      all_goals
        simp only [State.inFlight, State.generating, State.buffered, htasks,
          Nat.le_refl]
  | monitorCheck =>
      exact h.frame ⟨rfl, rfl, rfl⟩ ⟨rfl, rfl⟩
  | monitorResume =>
      exact h.frame ⟨rfl, rfl, rfl⟩ ⟨rfl, rfl⟩
  | finishSignal delivered mq hpc hsent hput =>
      exact h.finishSignal_step hwf hpc hsent hput
  | collectSample count sample queue htrainer hcount hqueue =>
      exact h.collect_step hqueue _
  | collectEnd count queue htrainer hqueue => exact h.collect_step hqueue _
  | collectNothing count htrainer => exact h.frame ⟨rfl, rfl, rfl⟩ ⟨rfl, rfl⟩
  | trainNext htrainer hlt => exact h.frame ⟨rfl, rfl, rfl⟩ ⟨rfl, rfl⟩
  | trainLast htrainer => exact h.frame ⟨rfl, rfl, rfl⟩ ⟨rfl, rfl⟩
  | afterSync htrainer => exact h.frame ⟨rfl, rfl, rfl⟩ ⟨rfl, rfl⟩
  | lastSync htrainer => exact h.frame ⟨rfl, rfl, rfl⟩ ⟨rfl, rfl⟩
  | resetBegin htrainer hreset hlocked =>
      exact { h with
        counting := fun n hn => by
          cases hn
          exact List.countP_le_length
        counted := fun n q hn => by cases hn }
  | resetRead activeTasks hreset =>
      have hgenerating := h.counting activeTasks hreset
      have hbuffered : s.buffered ≤ s.mq.queue.length :=
        List.countP_le_length
      exact { h with
        counting := fun n hn => by cases hn
        counted := fun n q hn => by
          cases hn
          exact Nat.add_le_add hgenerating hbuffered }
  | resetFinish activeTasks queueSize hreset =>
      have hsum := h.counted activeTasks queueSize hreset
      have hheld := hguard rfl
      exact { h with
        covered := by
          simp only [State.generating, State.buffered] at hsum
          simp only [State.inFlight, State.generating, State.buffered, hheld]
          omega
        counting := fun n hn => by cases hn
        counted := fun n q hn => by cases hn }

end Staleness

section StalenessExamples

/-- One sample a training step, one step a version, and as many stale ones. -/
def oneStepOff : Config where
  requiredSamples := 1
  triggerParameterSyncStep := 1
  maxRequiredSamples := 2
  maxConcurrentSamples := 2
  totalSamples := 10
  trigger_pos := Nat.le_refl 1
  enough := by decide

/-- The processor takes the next pending sample and starts its task. -/
def takeAndStart : List Action :=
  [.feed, .processor, .processor, .processor, .processor]

/-- Two samples are generated, the first is trained on and a sync follows. -/
def firstVersion : List Action :=
  List.flatten [takeAndStart, takeAndStart,
    [.processor, .processor, .deliver 0, .deliver 1, .finish 0, .finish 1,
      .processor, .processor, .processor, .collect, .train, .resetBegin,
      .resetRead, .resetFinish, .afterSync]]

/-- The next sync begins while the processor waits for a sample; it takes one
before the counter is overwritten, and then two more. -/
def takenDuringSync : List Action :=
  List.flatten [firstVersion,
    [.processor, .processor, .collect, .train, .resetBegin, .resetRead,
      .feed, .processor, .processor, .resetFinish, .processor],
    [.processor, .feed, .processor, .processor, .processor],
    [.processor, .feed, .processor]]

/-- All three samples are generated before the trainer takes one. -/
def generateAll : List Action :=
  [.processor, .deliver 0, .finish 0, .processor, .processor, .processor,
    .deliver 0, .deliver 1]

end StalenessExamples

/-- The samples the trainer got since the last parameter sync. -/
def State.collected (cfg : Config) (s : State) : ℕ :=
  match s.trainer with
  | .collecting count =>
      (s.localTriggerStep - 1) * cfg.requiredSamples + count
  | .training => s.localTriggerStep * cfg.requiredSamples
  | _ => 0

/-- The trainer works towards a parameter sync. -/
def TrainerPc.working : TrainerPc → Bool
  | .collecting _ | .training | .synced => true
  | _ => false

/-- The rollouter is paused for staleness, nothing is being generated, samples
are left, and the trainer waits for more samples than there are. -/
def Stalled (cfg : Config) (s : State) : Prop :=
  s.paused = true ∧ cfg.maxRequiredSamples ≤ s.stalenessSamples ∧
    s.generating = 0 ∧
    (s.fed < cfg.totalSamples ∨ ∃ x ∈ s.pendingQueue, x.isSome = true) ∧
    ∃ count, s.trainer = .collecting count ∧
      count + s.mq.queue.length < cfg.requiredSamples

section Stall

variable {cfg : Config} {s s' : State} {a : Action}

/-- While every reset finds only generating tasks, `staleness_samples` is
covered by the samples in flight and those trained on since the last sync, or
the trainer has all it needs. -/
structure Supplied (cfg : Config) (s : State) : Prop where
  trigger : 1 ≤ s.localTriggerStep ∧
    s.localTriggerStep ≤ cfg.triggerParameterSyncStep
  synced : s.trainer = .syncing ∨ s.trainer = .synced →
    s.localTriggerStep = 1
  counting : ∀ n, s.reset = .counting n → s.activeTasks.length = n
  counted : ∀ n q, s.reset = .counted n q → s.processor.ended = false →
    n + q ≤ s.generating + s.buffered ∨ cfg.maxRequiredSamples ≤ s.buffered
  covered : s.processor.ended = false → s.trainer.working = true →
    s.stalenessSamples ≤ s.inFlight + s.collected cfg ∨
      cfg.maxRequiredSamples ≤ s.collected cfg + s.buffered

theorem supplied_init (cfg : Config) : Supplied cfg (.init cfg) where
  trigger := ⟨Nat.le_refl 1, cfg.trigger_pos⟩
  synced := fun _ => rfl
  counting := fun n h => by cases h
  counted := fun n q h => by cases h
  covered := fun _ _ => .inl (Nat.zero_le _)

/-- A step of the rollouter that moves samples without losing one. -/
theorem Supplied.mono (h : Supplied cfg s)
    (htrainer : s'.trainer = s.trainer)
    (hlocal : s'.localTriggerStep = s.localTriggerStep)
    (hreset : s'.reset = s.reset)
    (hlength : s.reset ≠ .idle →
      s'.activeTasks.length = s.activeTasks.length)
    (hended : s'.processor.ended = false → s.processor.ended = false)
    (hstaleness : s'.stalenessSamples + s.inFlight ≤
      s.stalenessSamples + s'.inFlight)
    (hsum : s.generating + s.buffered ≤ s'.generating + s'.buffered)
    (hbuffered : s.buffered ≤ s'.buffered) : Supplied cfg s' := by
  have hcollected : s'.collected cfg = s.collected cfg := by
    rw [State.collected, State.collected, htrainer, hlocal]
  refine ⟨?_, ?_, ?_, ?_, ?_⟩
  · rw [hlocal]
    exact h.trigger
  · rw [htrainer, hlocal]
    exact h.synced
  · intro n hn
    rw [hreset] at hn
    rw [hlength (by simp [hn])]
    exact h.counting n hn
  · intro n q hn hopen
    rw [hreset] at hn
    rcases h.counted n q hn (hended hopen) with hle | hfull
    · exact .inl (hle.trans hsum)
    · exact .inr (hfull.trans hbuffered)
  · intro hopen hworking
    rw [htrainer] at hworking
    rw [hcollected]
    rcases h.covered (hended hopen) hworking with hle | hfull
    · exact .inl (by omega)
    · exact .inr (by omega)

/-- A step that touches neither the samples, their counter nor the trainer. -/
theorem Supplied.frame (h : Supplied cfg s)
    (hsamples : s'.activeTasks = s.activeTasks ∧ s'.mq = s.mq ∧
      s'.processor = s.processor)
    (hcounter : s'.stalenessSamples = s.stalenessSamples ∧
      s'.reset = s.reset)
    (htrainer : s'.trainer = s.trainer ∧
      s'.localTriggerStep = s.localTriggerStep) : Supplied cfg s' := by
  obtain ⟨hgenerating, hbuffered, hinFlight⟩ := samples_congr hsamples
  obtain ⟨htasks, hmq, hprocessor⟩ := hsamples
  exact h.mono htrainer.1 htrainer.2 hcounter.2 (fun _ => by rw [htasks])
    (by rw [hprocessor]; exact id) (by rw [hcounter.1, hinFlight])
    (by rw [hgenerating, hbuffered]) hbuffered.ge

/-- The processor's hands stay as they are. -/
theorem Supplied.move (h : Supplied cfg s) {pc : ProcessorPc} {flag : Bool}
    {lock : Bool} (hheld : pc.held = s.processor.held)
    (hended : pc.ended = false → s.processor.ended = false) :
    Supplied cfg
      { s with processor := pc, paused := flag, locked := lock } := by
  refine h.mono rfl rfl rfl (fun _ => rfl) hended ?_ (Nat.le_refl _)
    (Nat.le_refl _)
  simp only [State.inFlight, State.generating, State.buffered, hheld]
  exact Nat.le_refl _

theorem Supplied.processor_step (hwf : Wellformed cfg s)
    (h : Supplied cfg s) (hstep : ProcessorCases cfg s s') :
    Supplied cfg s' := by
  cases hstep with
  | checkPause hpc => exact h.move (by rw [hpc]; rfl) fun _ => by rw [hpc]; rfl
  | checkGet hpc hpaused hqueue hstaleness =>
      exact h.move (by rw [hpc]; rfl) fun _ => by rw [hpc]; rfl
  | pause hpc hlocked =>
      exact h.move (by rw [hpc]; rfl) fun _ => by rw [hpc]; rfl
  | drainIdle loop hpc => exact h
  | drainWait loop hpc hlocked =>
      refine h.move (by rw [hpc]; rfl) fun hopen => ?_
      rw [hpc, ← ended_waiting]
      exact hopen
  | drainExit loop hpc hdone =>
      refine h.move (by rw [hpc]; exact held_exit loop) fun hopen => ?_
      rw [hpc, ← ended_exit]
      exact hopen
  | prune loop hpc =>
      have hprune := countP_generating_prune s.activeTasks
      have hidle := hwf.idle_of_holdsLock (by rw [hpc]; rfl)
      refine h.mono rfl rfl rfl (fun hne => absurd hidle hne) (fun hopen => ?_)
        ?_ ?_ (Nat.le_refl _)
      · rw [hpc, ended_waiting]
        exact hopen
      · simp only [State.inFlight, State.generating, State.buffered, hprune,
          hpc]
        exact Nat.le_refl _
      · simp only [State.generating, State.buffered, hprune, Nat.le_refl]
  | unpark hpc hpaused =>
      exact h.move (by rw [hpc]; rfl) fun _ => by rw [hpc]; rfl
  | takeSample sample rest hpc hpending =>
      refine h.mono rfl rfl rfl (fun _ => rfl) (fun _ => by rw [hpc]; rfl) ?_
        (Nat.le_refl _) (Nat.le_refl _)
      simp only [State.inFlight, State.generating, State.buffered, hpc,
        ProcessorPc.held, DrainLoop.held]
      omega
  | takeEnd rest hpc hpending =>
      -- after the end signal the counter is not asked for any more
      exact { h with
        counted := fun n q _ hopen => by cases hopen
        covered := fun hopen => by cases hopen }
  | submit sample hpc hlocked hpaused =>
      obtain ⟨hidle, -⟩ := hwf.of_unlocked hlocked
      refine h.mono rfl rfl rfl (fun hne => absurd hidle hne)
        (fun _ => by rw [hpc]; rfl) ?_ ?_ (Nat.le_refl _)
      all_goals
        simp only [State.inFlight, State.generating, State.buffered, hpc,
          List.countP_append, ProcessorPc.held]
      · exact Nat.le_refl _
      · omega

/-- A sample reaches the queue; a full queue has all the trainer needs. -/
theorem Supplied.deliver_step (hwf : Wellformed cfg s) (h : Supplied cfg s)
    {i sample : ℕ} {delivered : Bool} {mq : MessageQueue (Option ℕ)}
    (htask : s.activeTasks[i]? = some ⟨sample, .generating⟩)
    (hput : s.mq.putSample (some sample) = .ok (delivered, mq)) :
    Supplied cfg { s with
      activeTasks := s.activeTasks.set i ⟨sample, .delivered⟩
      mq } := by
  have htasks := countP_generating_deliver htask
  have hne : s.activeTasks ≠ [] := by
    rintro hnil
    simp [hnil] at htask
  rcases (MessageQueue.putSample_eq_ok hput).2 with
    ⟨-, hqueue, -⟩ | ⟨oldest, queue, hold, hfull, hqueue, -⟩
  · have hbuffered : mq.queue.countP Option.isSome = s.buffered + 1 := by
      rw [hqueue, List.countP_append]
      rfl
    refine h.mono rfl rfl rfl (fun _ => List.length_set) id ?_ ?_ ?_
    all_goals
      simp only [State.inFlight, State.generating, State.buffered]
      simp only [State.buffered] at hbuffered
      omega
  · have hlength := hwf.buffered_eq (hwf.finishSent_of_task hne)
    have hreal := hwf.real (hwf.finishSent_of_task hne) oldest
      (by rw [hold]; exact List.mem_cons_self)
    have hbuffered : mq.queue.countP Option.isSome = s.buffered := by
      simp [hqueue, State.buffered, hold, hreal]
    rw [hwf.maxQueueSize, ← hlength] at hfull
    have hall : cfg.maxRequiredSamples ≤ mq.queue.countP Option.isSome :=
      hbuffered.symm ▸ hfull
    exact { h with
      counting := fun n hn => by rw [List.length_set]; exact h.counting n hn
      counted := fun n q _ _ => .inr hall
      covered := fun _ _ => .inr (hall.trans (Nat.le_add_left _ _)) }

/-- The trainer takes a sample: one less in flight, one more collected. -/
theorem Supplied.collect_step (hwf : Wellformed cfg s) (h : Supplied cfg s)
    {count sample : ℕ} {queue : List (Option ℕ)}
    (htrainer : s.trainer = .collecting count)
    (hqueue : s.mq.queue = some sample :: queue) :
    Supplied cfg { s with
      mq := { s.mq with queue, totalConsumed := s.mq.totalConsumed + 1 }
      trainer := if count + 1 = cfg.requiredSamples then .training
        else .collecting (count + 1) } := by
  have hidle := hwf.idle_of_trainer (by simp [htrainer]) (by simp [htrainer])
  have hbuffered : s.buffered = queue.countP Option.isSome + 1 := by
    rw [State.buffered, hqueue, List.countP_cons]
    rfl
  obtain ⟨k, hk⟩ : ∃ k, s.localTriggerStep = k + 1 :=
    Nat.exists_eq_add_of_le' h.trigger.1
  have hbefore : s.collected cfg = k * cfg.requiredSamples + count := by
    rw [State.collected, htrainer, hk]
    rfl
  refine ⟨h.trigger, fun htr => ?_, fun n hn => ?_, fun n q hn => ?_,
    fun hopen _ => ?_⟩
  · split at htr <;> rcases htr with htr | htr <;> cases htr
  · simp [hidle] at hn
  · simp [hidle] at hn
  · have hcovered := h.covered hopen (by rw [htrainer]; rfl)
    rw [hbefore] at hcovered
    simp only [State.inFlight, State.generating, hbuffered] at hcovered
    split
    · rename_i hlast
      simp only [State.inFlight, State.generating, State.buffered,
        State.collected, hk, Nat.succ_mul]
      omega
    · simp only [State.inFlight, State.generating, State.buffered,
        State.collected, hk, Nat.add_sub_cancel]
      omega

/-- Every step keeps the supply, if a reset counts generating tasks only. -/
theorem Supplied.step (hwf : Wellformed cfg s) (h : Supplied cfg s)
    (hguard : a = .resetRead → s.generating = s.activeTasks.length)
    (hstep : StepCases cfg s a s') : Supplied cfg s' := by
  cases hstep with
  | processor s' hmove => exact h.processor_step hwf hmove
  | feedSample hmore =>
      exact h.frame ⟨rfl, rfl, rfl⟩ ⟨rfl, rfl⟩ ⟨rfl, rfl⟩
  | feedEnd =>
      exact h.frame ⟨rfl, rfl, rfl⟩ ⟨rfl, rfl⟩ ⟨rfl, rfl⟩
  | deliver i sample delivered mq htask hput =>
      exact h.deliver_step hwf htask hput
  | finish i sample htask =>
      have htasks := countP_generating_finish htask
      refine h.mono rfl rfl rfl (fun _ => List.length_set) id ?_ ?_ ?_
      all_goals
        simp only [State.inFlight, State.generating, State.buffered, htasks,
          Nat.le_refl]
  | monitorCheck =>
      exact h.frame ⟨rfl, rfl, rfl⟩ ⟨rfl, rfl⟩ ⟨rfl, rfl⟩
  | monitorResume =>
      exact h.frame ⟨rfl, rfl, rfl⟩ ⟨rfl, rfl⟩ ⟨rfl, rfl⟩
  | finishSignal delivered mq hpc hsent hput =>
      have hended : s.processor.ended = true := by rw [hpc]; rfl
      exact { h with
        counted := fun n q _ hopen => by simp [hended] at hopen
        covered := fun hopen => by simp [hended] at hopen }
  | collectSample count sample queue htrainer hcount hqueue =>
      exact h.collect_step hwf htrainer hqueue
  | collectEnd count queue htrainer hqueue =>
      have hidle :=
        hwf.idle_of_trainer (by simp [htrainer]) (by simp [htrainer])
      exact { h with
        synced := fun htr => by rcases htr with htr | htr <;> cases htr
        counted := fun n q hn => by simp [hidle] at hn
        covered := fun _ hworking => by cases hworking }
  | collectNothing count htrainer =>
      exact { h with
        synced := fun htr => by rcases htr with htr | htr <;> cases htr
        covered := fun _ hworking => by cases hworking }
  | trainNext htrainer hlt =>
      exact { h with
        trigger := ⟨Nat.le_add_left 1 _, hlt⟩
        synced := fun htr => by rcases htr with htr | htr <;> cases htr
        covered := fun hopen _ => by
          have hcovered := h.covered hopen (by rw [htrainer]; rfl)
          rw [State.collected, htrainer] at hcovered
          exact hcovered }
  | trainLast htrainer =>
      exact { h with
        trigger := ⟨Nat.le_refl 1, cfg.trigger_pos⟩
        synced := fun _ => rfl
        covered := fun _ hworking => by cases hworking }
  | afterSync htrainer =>
      have hlocal := h.synced (.inr htrainer)
      exact { h with
        synced := fun _ => hlocal
        covered := fun hopen _ => by
          have hcovered := h.covered hopen (by rw [htrainer]; rfl)
          rw [State.collected, htrainer] at hcovered
          have hnone : ({ s with trainer := .collecting 0 } :
              State).collected cfg = 0 := by
            simp [State.collected, hlocal]
          rw [hnone]
          exact hcovered }
  | lastSync htrainer =>
      exact { h with
        synced := fun htr => by rcases htr with htr | htr <;> cases htr
        covered := fun _ hworking => by cases hworking }
  | resetBegin htrainer hreset hlocked =>
      exact { h with
        counting := fun n hn => by
          cases hn
          rfl
        counted := fun n q hn => by cases hn }
  | resetRead activeTasks hreset =>
      have hlength := h.counting activeTasks hreset
      have hgenerating := hguard rfl
      exact { h with
        counting := fun n hn => by cases hn
        counted := fun n q hn hopen => by
          cases hn
          have hunsent := hwf.finishSent_of_pc fun hpc => by
            simp only [hpc] at hopen
            cases hopen
          have hbuffered := hwf.buffered_eq hunsent
          simp only [State.generating, State.buffered] at hgenerating hbuffered
          refine .inl ?_
          simp only [State.generating, State.buffered]
          omega }
  | resetFinish activeTasks queueSize hreset =>
      refine { h with
        synced := fun htr => ?_
        counting := fun n hn => by cases hn
        counted := fun n q hn => by cases hn
        covered := fun hopen hworking => ?_ }
      · split at htr
        · exact h.synced (.inl ‹_›)
        · rcases htr with htr | htr <;> cases htr
      · have hcounted := h.counted activeTasks queueSize hreset hopen
        simp only [State.generating, State.buffered] at hcounted
        split
        · simp only [State.inFlight, State.generating, State.buffered,
            State.collected]
          omega
        · rename_i hother
          simp only [if_neg hother] at hworking
          cases hworking

/-- With the supply kept up the pipeline is not stalled. -/
theorem Supplied.not_stalled (hwf : Wellformed cfg s) (h : Supplied cfg s) :
    ¬ Stalled cfg s := by
  rintro ⟨hpaused, hstale, hgenerating, -, count, htrainer, hqueue⟩
  obtain ⟨hheld, hopen⟩ := held_of_inPause (hwf.paused hpaused)
  have hunsent := hwf.finishSent_of_pc fun hpc => by
    rw [hpc] at hopen
    cases hopen
  have hbuffered := hwf.buffered_eq hunsent
  obtain ⟨hpos, hle⟩ := h.trigger
  obtain ⟨k, hk⟩ := Nat.exists_eq_add_of_le' hpos
  have hneed : (k + 1) * cfg.requiredSamples ≤ cfg.maxRequiredSamples :=
    calc (k + 1) * cfg.requiredSamples
        ≤ cfg.triggerParameterSyncStep * cfg.requiredSamples :=
          Nat.mul_le_mul_right _ (hk ▸ hle)
      _ = cfg.requiredSamples * cfg.triggerParameterSyncStep :=
          Nat.mul_comm _ _
      _ ≤ cfg.maxRequiredSamples := cfg.enough
  have hcovered := h.covered hopen (by rw [htrainer]; rfl)
  rw [State.inFlight, State.collected, htrainer, hgenerating, hheld,
    hbuffered, hk] at hcovered
  simp only [Nat.add_sub_cancel] at hcovered
  rw [Nat.succ_mul] at hneed
  omega

end Stall

section StallExamples

/-- Two samples a version, and one stale sample more. -/
def halfStale : Config where
  requiredSamples := 2
  triggerParameterSyncStep := 1
  maxRequiredSamples := 3
  maxConcurrentSamples := 3
  totalSamples := 10
  trigger_pos := Nat.le_refl 1
  enough := by decide

instance (cfg : Config) (s : State) : Decidable (Stalled cfg s) :=
  match h : s.trainer with
  | .collecting count => decidable_of_iff
      (s.paused = true ∧ cfg.maxRequiredSamples ≤ s.stalenessSamples ∧
        s.generating = 0 ∧
        (s.fed < cfg.totalSamples ∨ ∃ x ∈ s.pendingQueue, x.isSome = true) ∧
        count + s.mq.queue.length < cfg.requiredSamples)
      (by simp [Stalled, h])
  | .training | .syncing | .synced | .stopped | .lastSync | .exited =>
      isFalse (by simp [Stalled, h])

/-- The samples of a version are generated and taken by the trainer, and the
parameters are synced. -/
def trainedVersion : List Action :=
  List.flatten [takeAndStart, takeAndStart, [.processor, .deliver 0,
    .finish 0, .deliver 1, .finish 1, .collect, .collect, .train]]

/-- A third sample starts, and the two finished tasks are taken out of the set
of active tasks before the sync. -/
def prunedVersion : List Action :=
  List.flatten [trainedVersion, [.feed, .processor, .processor, .processor,
    .processor, .processor, .processor, .processor, .resetBegin, .resetRead,
    .resetFinish, .afterSync]]

/-- The sync counts the two finished tasks; the processor starts one sample,
sees three and pauses, and the trainer waits for its second sample. -/
def stalledRun : List Action :=
  List.flatten [trainedVersion,
    [.resetBegin, .resetRead, .resetFinish, .afterSync, .feed, .processor,
      .processor, .processor, .processor, .processor, .processor, .processor,
      .deliver 0, .finish 0, .processor, .processor, .processor, .collect,
      .feed]]

end StallExamples

end FullyAsync

end SelfDistillation
