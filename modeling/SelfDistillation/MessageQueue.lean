/-
`MessageQueue` (verl/experimental/fully_async_policy/message_queue.py): the
bounded queue between the rollouter and the trainer, under any interleaving of
the calls of its clients.
-/
import SelfDistillation.Library.Ledger
import SelfDistillation.Library.Transition
import SelfDistillation.Python

namespace SelfDistillation

open Transition

variable {α κ : Type}

/-- The fields of `MessageQueue` that samples pass through. -/
structure MessageQueue (α : Type) where
  maxQueueSize : Nat
  queue : List α
  running : Bool
  totalProduced : Nat
  totalConsumed : Nat
  droppedSamples : Nat
deriving DecidableEq

/-- What `get_sample` does with what it finds under the lock. -/
inductive GetSample (α : Type)
  | sample (data : α) (queueSize : Nat)
  | closed
  | wait

namespace MessageQueue

/-- `__init__` -/
def init (maxQueueSize : Nat) : MessageQueue α where
  maxQueueSize := maxQueueSize
  queue := []
  running := true
  totalProduced := 0
  totalConsumed := 0
  droppedSamples := 0

/-- `put_sample`: the result, and the queue afterwards.  `popleft` raises when
a queue of size zero is "full". -/
def putSample (mq : MessageQueue α) (sample : α) :
    Py (Bool × MessageQueue α) :=
  if mq.queue.length ≥ mq.maxQueueSize then
    match mq.queue with
    | [] => .error .indexError
    | _ :: queue => .ok (false, { mq with
        queue := queue ++ [sample]
        droppedSamples := mq.droppedSamples + 1
        totalProduced := mq.totalProduced + 1 })
  else .ok (true, { mq with
    queue := mq.queue ++ [sample]
    totalProduced := mq.totalProduced + 1 })

/-- `get_sample`, from the moment it holds the lock to the moment it releases
it. -/
def getSample (mq : MessageQueue α) : GetSample α × MessageQueue α :=
  match mq.queue with
  | [] => (if mq.running then .wait else .closed, mq)
  | data :: queue => (.sample data queue.length,
      { mq with queue, totalConsumed := mq.totalConsumed + 1 })

/-- `clear_queue` -/
def clearQueue (mq : MessageQueue α) : MessageQueue α :=
  { mq with queue := [] }

/-- `shutdown` -/
def shutdown (mq : MessageQueue α) : MessageQueue α :=
  { mq with running := false }

/-- What `put_sample` can do: append, overwrite the oldest sample of a full
queue, or raise. -/
theorem putSample_cases (mq : MessageQueue α) (sample : α) :
    (mq.queue.length < mq.maxQueueSize ∧ mq.putSample sample =
      .ok (true, { mq with
        queue := mq.queue ++ [sample]
        totalProduced := mq.totalProduced + 1 })) ∨
    (∃ oldest queue, mq.queue = oldest :: queue ∧
      mq.maxQueueSize ≤ mq.queue.length ∧ mq.putSample sample =
        .ok (false, { mq with
          queue := queue ++ [sample]
          droppedSamples := mq.droppedSamples + 1
          totalProduced := mq.totalProduced + 1 })) ∨
    (mq.queue = [] ∧ mq.maxQueueSize = 0 ∧
      mq.putSample sample = .error .indexError) := by
  obtain ⟨maxQueueSize, queue, running, produced, consumed, dropped⟩ := mq
  rcases Nat.lt_or_ge queue.length maxQueueSize with hlt | hge
  · exact .inl ⟨hlt, if_neg (Nat.not_le.mpr hlt)⟩
  · cases queue with
    | nil => exact .inr (.inr ⟨rfl, Nat.le_zero.mp hge, if_pos hge⟩)
    | cons oldest queue =>
        exact .inr (.inl ⟨oldest, queue, rfl, hge, if_pos hge⟩)

/-- What a `put_sample` that returned did: the buffer grew by the sample, or
it was full and lost its oldest one. -/
theorem putSample_eq_ok {mq mq' : MessageQueue α} {sample : α} {success : Bool}
    (h : mq.putSample sample = .ok (success, mq')) :
    mq'.maxQueueSize = mq.maxQueueSize ∧
      (mq.queue.length < mq.maxQueueSize ∧
          mq'.queue = mq.queue ++ [sample] ∧
          mq'.droppedSamples = mq.droppedSamples ∨
        ∃ oldest queue, mq.queue = oldest :: queue ∧
          mq.maxQueueSize ≤ mq.queue.length ∧
          mq'.queue = queue ++ [sample] ∧
          mq'.droppedSamples = mq.droppedSamples + 1) := by
  rcases mq.putSample_cases sample with ⟨hlt, hput⟩ |
    ⟨oldest, queue, hqueue, hfull, hput⟩ | ⟨-, -, hput⟩
  · rw [hput] at h
    cases h
    exact ⟨rfl, .inl ⟨hlt, rfl, rfl⟩⟩
  · rw [hput] at h
    cases h
    exact ⟨rfl, .inr ⟨oldest, queue, hqueue, hfull, rfl, rfl⟩⟩
  · rw [hput] at h
    cases h

end MessageQueue

/-- The queue actor, the `get_sample` calls that wait for the condition or
were notified and need the lock again, and what the clients saw: the samples
put and delivered in the order of the calls, and what `clear_queue` took. -/
structure QueueActor (κ α : Type) where
  mq : MessageQueue α
  waiting : List κ
  woken : List κ
  puts : List α
  delivered : List α
  cleared : List α
deriving DecidableEq

/-- A client's call, or a waiting call that resumes. -/
inductive QueueCall (κ α : Type)
  | putSample (sample : α)
  | getSample (call : κ)
  | resume (call : κ)
  | clearQueue
  | shutdown

namespace QueueActor

def init (maxQueueSize : Nat) : QueueActor κ α where
  mq := .init maxQueueSize
  waiting := []
  woken := []
  puts := []
  delivered := []
  cleared := []

/-- `notify_all` -/
def notifyAll (actor : QueueActor κ α) : QueueActor κ α :=
  { actor with woken := actor.woken ++ actor.waiting, waiting := [] }

/-- One round of the loop of `get_sample`. -/
def attempt (actor : QueueActor κ α) (call : κ) : QueueActor κ α :=
  match actor.mq.getSample with
  | (.sample data _, mq) =>
      { actor with mq, delivered := actor.delivered ++ [data] }
  | (.closed, _) => actor
  | (.wait, _) => { actor with waiting := actor.waiting ++ [call] }

variable [DecidableEq κ]

/-- The calls hold the lock one after the other; a call that raises changes
nothing. -/
def step (actor : QueueActor κ α) (call : QueueCall κ α) :
    Option (QueueActor κ α) :=
  match call with
  | .putSample sample =>
      match actor.mq.putSample sample with
      | .error _ => some actor
      | .ok (_, mq) => some
          { actor with mq, puts := actor.puts ++ [sample] }.notifyAll
  | .getSample call =>
      if call ∈ actor.waiting ++ actor.woken then none
      else some (actor.attempt call)
  | .resume call =>
      if call ∈ actor.woken then
        some ({ actor with woken := actor.woken.erase call }.attempt call)
      else none
  | .clearQueue => some { actor with
      mq := actor.mq.clearQueue
      cleared := actor.cleared ++ actor.mq.queue }
  | .shutdown => some { actor with mq := actor.mq.shutdown }.notifyAll

def system (maxQueueSize : Nat) : System (QueueActor κ α) (QueueCall κ α) where
  initial := init maxQueueSize
  step := step

end QueueActor

/-- What the queue is for: a bounded buffer that keeps the newest samples. -/
def bufferSystem (capacity : Nat) : System (Ledger α) (QueueCall κ α) where
  initial := .empty
  step ledger call := some <|
    match call with
    | .putSample sample => if capacity = 0 then ledger
        else ledger.put capacity sample
    | .getSample _ | .resume _ => ledger.take
    | .clearQueue => ledger.clear
    | .shutdown => ledger

/-- The queue as the ledger describes it: its counters count the fates. -/
structure QueueActor.Records (capacity : Nat) (actor : QueueActor κ α)
    (ledger : Ledger α) : Prop where
  maxQueueSize : actor.mq.maxQueueSize = capacity
  queue : actor.mq.queue = ledger.buffer
  puts : actor.puts = ledger.all
  delivered : actor.delivered = ledger.withFate .delivered
  cleared : actor.cleared = ledger.withFate .cleared
  totalProduced : actor.mq.totalProduced = ledger.all.length
  totalConsumed : actor.mq.totalConsumed = (ledger.withFate .delivered).length
  droppedSamples : actor.mq.droppedSamples = (ledger.withFate .dropped).length

section Refinement

variable {capacity : Nat} {actor actor' : QueueActor κ α} {ledger : Ledger α}

theorem QueueActor.Records.notifyAll (h : actor.Records capacity ledger) :
    actor.notifyAll.Records capacity ledger :=
  ⟨h.maxQueueSize, h.queue, h.puts, h.delivered, h.cleared, h.totalProduced,
    h.totalConsumed, h.droppedSamples⟩

/-- A round of `get_sample` delivers the oldest sample, if there is one. -/
theorem QueueActor.Records.attempt (h : actor.Records capacity ledger)
    (call : κ) : (actor.attempt call).Records capacity ledger.take := by
  obtain ⟨⟨maxQueueSize, queue, running, produced, consumed, dropped⟩,
    waiting, woken, puts, delivered, cleared⟩ := actor
  obtain ⟨gone, buffer⟩ := ledger
  obtain ⟨hmax, hqueue, hputs, hdelivered, hcleared, hproduced, hconsumed,
    hdropped⟩ := h
  simp only at hmax hqueue hputs hdelivered hcleared
  simp only at hproduced hconsumed hdropped
  subst hqueue
  cases queue with
  | nil =>
      cases running <;>
        exact ⟨hmax, rfl, hputs, hdelivered, hcleared, hproduced, hconsumed,
          hdropped⟩
  | cons data queue =>
      refine ⟨hmax, rfl, ?_, ?_, ?_, ?_, ?_, ?_⟩
      · rw [Ledger.all_take]
        exact hputs
      · simp [QueueActor.attempt, MessageQueue.getSample, Ledger.take,
          Ledger.withFate, hdelivered]
      · simp [QueueActor.attempt, MessageQueue.getSample, Ledger.take,
          Ledger.withFate, hcleared]
      · rw [Ledger.all_take]
        exact hproduced
      · simp [QueueActor.attempt, MessageQueue.getSample, Ledger.take,
          Ledger.withFate, hconsumed]
      · simp [QueueActor.attempt, MessageQueue.getSample, Ledger.take,
          Ledger.withFate, hdropped]

theorem QueueActor.Records.clearQueue (h : actor.Records capacity ledger) :
    { actor with
      mq := actor.mq.clearQueue
      cleared := actor.cleared ++ actor.mq.queue : QueueActor κ α }.Records
        capacity ledger.clear := by
  refine ⟨h.maxQueueSize, rfl, ?_, ?_, ?_, ?_, ?_, ?_⟩
  · rw [Ledger.all_clear]
    exact h.puts
  · rw [Ledger.delivered_clear]
    exact h.delivered
  · simp [Ledger.clear, Ledger.withFate, h.cleared, h.queue,
      List.filter_map, Function.comp_def]
  · rw [Ledger.all_clear]
    exact h.totalProduced
  · rw [Ledger.delivered_clear]
    exact h.totalConsumed
  · simp [Ledger.clear, Ledger.withFate, h.droppedSamples,
      MessageQueue.clearQueue, List.filter_map, Function.comp_def]

/-- A sample that is put; a queue of size zero takes none. -/
theorem QueueActor.Records.putSample [DecidableEq κ]
    (h : actor.Records capacity ledger) (hwithin : ledger.Within capacity)
    {sample : α} (hstep : actor.step (.putSample sample) = some actor') :
    actor'.Records capacity
      (if capacity = 0 then ledger else ledger.put capacity sample) := by
  have hlength : actor.mq.queue.length = ledger.buffer.length := by
    rw [h.queue]
  rcases actor.mq.putSample_cases sample with ⟨hlt, hput⟩ |
    ⟨oldest, queue, hqueue, hfull, hput⟩ | ⟨-, hzero, hput⟩
  · have hcapacity : capacity ≠ 0 := by
      rw [← h.maxQueueSize]
      omega
    have hledger : ledger.put capacity sample =
        ⟨ledger.gone, ledger.buffer ++ [sample]⟩ := by
      obtain ⟨gone, buffer⟩ := ledger
      cases buffer with
      | nil => rfl
      | cons oldest rest =>
          refine if_neg ?_
          rw [h.maxQueueSize, hlength] at hlt
          exact Nat.not_le.mpr hlt
    simp only [QueueActor.step, hput, Option.some.injEq] at hstep
    subst hstep
    rw [if_neg hcapacity, hledger]
    refine QueueActor.Records.notifyAll ⟨h.maxQueueSize, ?_, ?_, h.delivered,
      h.cleared, ?_, h.totalConsumed, h.droppedSamples⟩
    · simp only [h.queue]
    · simp [h.puts, Ledger.all]
    · simp [h.totalProduced, Ledger.all]
      omega
  · have hbuffer : ledger.buffer = oldest :: queue := h.queue ▸ hqueue
    have hle : capacity ≤ (oldest :: queue).length := by
      rw [← hbuffer, ← hlength, ← h.maxQueueSize]
      exact hfull
    have hledger : ledger.put capacity sample =
        ⟨ledger.gone ++ [(oldest, .dropped)], queue ++ [sample]⟩ := by
      obtain ⟨gone, buffer⟩ := ledger
      simp only at hbuffer
      subst hbuffer
      exact if_pos hle
    have hcapacity : capacity ≠ 0 := by
      have hbound := hwithin.buffer_le
      rw [hbuffer, List.length_cons] at hbound
      omega
    simp only [QueueActor.step, hput, Option.some.injEq] at hstep
    subst hstep
    rw [if_neg hcapacity]
    refine QueueActor.Records.notifyAll ⟨h.maxQueueSize, ?_, ?_, ?_, ?_, ?_,
      ?_, ?_⟩
    · rw [hledger]
    · rw [Ledger.all_put, ← h.puts]
    · rw [Ledger.delivered_put]
      exact h.delivered
    · rw [hledger]
      simp [Ledger.withFate, h.cleared]
    · rw [Ledger.all_put, List.length_append, ← h.totalProduced]
      rfl
    · rw [Ledger.delivered_put]
      exact h.totalConsumed
    · rw [hledger]
      simp [Ledger.withFate, h.droppedSamples]
  · have hcapacity : capacity = 0 := by rw [← h.maxQueueSize, hzero]
    simp only [QueueActor.step, hput, Option.some.injEq] at hstep
    subst hstep
    rw [if_pos hcapacity]
    exact h

/-- Every call does to the queue what it does to the ledger. -/
theorem QueueActor.step_simulates [DecidableEq κ] {call : QueueCall κ α}
    {ledger' : Ledger α}
    (h : actor.Records capacity ledger ∧ ledger.Within capacity)
    (hstep : actor.step call = some actor')
    (hledger : (bufferSystem capacity).step ledger call = some ledger') :
    actor'.Records capacity ledger' ∧ ledger'.Within capacity := by
  obtain ⟨hrecords, hwithin⟩ := h
  cases hledger
  cases call with
  | putSample sample =>
      refine ⟨hrecords.putSample hwithin hstep, ?_⟩
      by_cases hcapacity : capacity = 0
      · simp only [if_pos hcapacity]
        exact hwithin
      · simp only [if_neg hcapacity]
        exact hwithin.put (Nat.pos_of_ne_zero hcapacity) sample
  | getSample call =>
      simp only [step] at hstep
      split at hstep
      · cases hstep
      · cases hstep
        exact ⟨hrecords.attempt call, hwithin.take⟩
  | resume call =>
      simp only [step] at hstep
      split at hstep
      · cases hstep
        have hwoken : { actor with woken := actor.woken.erase call }.Records
            capacity ledger :=
          ⟨hrecords.maxQueueSize, hrecords.queue, hrecords.puts,
            hrecords.delivered, hrecords.cleared, hrecords.totalProduced,
            hrecords.totalConsumed, hrecords.droppedSamples⟩
        exact ⟨hwoken.attempt call, hwithin.take⟩
      · cases hstep
  | clearQueue =>
      cases hstep
      exact ⟨hrecords.clearQueue, hwithin.clear⟩
  | shutdown =>
      cases hstep
      refine ⟨QueueActor.Records.notifyAll ⟨hrecords.maxQueueSize,
        hrecords.queue, hrecords.puts, hrecords.delivered, hrecords.cleared,
        hrecords.totalProduced, hrecords.totalConsumed,
        hrecords.droppedSamples⟩, hwithin⟩

theorem QueueActor.records_init (capacity : Nat) :
    (QueueActor.init capacity : QueueActor κ α).Records capacity .empty :=
  ⟨rfl, rfl, rfl, rfl, rfl, rfl, rfl, rfl⟩

/-- Every run of the queue refines the same run of the bounded buffer. -/
theorem QueueActor.exec_refines [DecidableEq κ] {calls : List (QueueCall κ α)}
    (hrun : (system capacity).exec (init capacity) calls = some actor) :
    ∃ ledger, (bufferSystem capacity).exec .empty calls = some ledger ∧
      actor.Records capacity ledger ∧ ledger.Within capacity :=
  System.simulation
    (R := fun actor ledger =>
      actor.Records capacity ledger ∧ ledger.Within capacity)
    (fun _ _ _ _ h hstep => ⟨_, rfl, step_simulates h hstep rfl⟩)
    ⟨records_init capacity, Ledger.within_empty capacity⟩ hrun

end Refinement

/-- At every point of every run: the samples delivered are a subsequence of
those put, the buffer ends the samples put, a sample was dropped only after
`max_queue_size` newer ones, and what was produced is what was consumed,
dropped, taken by `clear_queue` or is still buffered. -/
theorem QueueActor.accounting [DecidableEq κ] (maxQueueSize : Nat)
    (calls : List (QueueCall κ α)) (actor : QueueActor κ α)
    (hrun : (system maxQueueSize).exec (init maxQueueSize) calls =
      some actor) :
    actor.delivered.Sublist actor.puts ∧
      (∃ ledger : Ledger α, actor.puts = ledger.all ∧
        actor.mq.queue = ledger.buffer ∧
        actor.delivered = ledger.withFate .delivered ∧
        actor.mq.droppedSamples = (ledger.withFate .dropped).length ∧
        actor.cleared = ledger.withFate .cleared ∧
        ledger.Within maxQueueSize) ∧
      actor.mq.totalProduced = actor.puts.length ∧
      actor.mq.totalConsumed = actor.delivered.length ∧
      actor.mq.totalProduced = actor.mq.totalConsumed +
        actor.mq.droppedSamples + actor.cleared.length +
          actor.mq.queue.length := by
  obtain ⟨ledger, -, h, hwithin⟩ := exec_refines hrun
  refine ⟨?_, ⟨ledger, h.puts, h.queue, h.delivered, h.droppedSamples,
    h.cleared, hwithin⟩, ?_, ?_, ?_⟩
  · rw [h.delivered, h.puts]
    exact (ledger.delivered_sublist .delivered).trans
      (List.sublist_append_left _ _)
  · rw [h.totalProduced, h.puts]
  · rw [h.totalConsumed, h.delivered]
  · rw [h.totalProduced, h.totalConsumed, h.droppedSamples, h.cleared,
      h.queue]
    exact ledger.length_all

section Examples

/-- A waiting call gets the first sample, a full queue drops the second, and
`clear_queue` takes the last two. -/
def exampleCalls : List (QueueCall Nat Nat) :=
  [.getSample 0, .putSample 1, .resume 0, .putSample 2, .putSample 3,
    .putSample 4, .clearQueue]

theorem QueueActor.accounting_seven_calls :
    ∃ actor : QueueActor Nat Nat,
      (system 2).exec (init 2) exampleCalls = some actor ∧
      actor.delivered.Sublist actor.puts ∧
      (∃ ledger : Ledger Nat, actor.puts = ledger.all ∧
        actor.mq.queue = ledger.buffer ∧
        actor.delivered = ledger.withFate .delivered ∧
        actor.mq.droppedSamples = (ledger.withFate .dropped).length ∧
        actor.cleared = ledger.withFate .cleared ∧ ledger.Within 2) ∧
      actor.mq.totalProduced = actor.puts.length ∧
      actor.mq.totalConsumed = actor.delivered.length ∧
      actor.mq.totalProduced = actor.mq.totalConsumed +
        actor.mq.droppedSamples + actor.cleared.length +
          actor.mq.queue.length :=
  ⟨_, rfl, accounting 2 exampleCalls _ rfl⟩

/-- Clearing a queue with a sample leaves that sample in no counter. -/
theorem QueueActor.clearQueue_uncounted :
    ∃ actor : QueueActor Nat Nat,
      (system 4).exec (init 4) [.putSample 7, .clearQueue] = some actor ∧
      actor.mq.totalProduced ≠ actor.mq.totalConsumed +
        actor.mq.droppedSamples + actor.mq.queue.length :=
  ⟨_, rfl, by decide⟩

end Examples

end SelfDistillation
