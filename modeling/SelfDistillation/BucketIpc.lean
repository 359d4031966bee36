/-
`BucketedWeightSender` and `BucketedWeightReceiver`
(verl/workers/rollout/vllm_rollout/bucketed_weight_transfer.py): one buffer
both processes map, a request and an acknowledgement for each bucket.
-/
import SelfDistillation.BucketBroadcast

namespace SelfDistillation

namespace BucketIpc

open Torch Chunks WeightBuckets

variable {δ : Type} [Torch δ]

structure Config where
  bucketSizeMb : Nat
  /-- of the receiver, an accelerator -/
  device : String

namespace Config

def bucketSize (c : Config) : Nat := c.bucketSizeMb <<< 20

def receiver (c : Config) : Device := .accelerator c.device

def hint (c : Config) : String :=
  s!"Please increase rollout.update_weights_bucket_megabytes({c.bucketSizeMb} MB)."

end Config

inductive SendPhase
  | packing
  | waitReply (isLast : Bool)
  | done
  | raised (e : PyErr)

structure Sender (δ : Type) [Torch δ] where
  packing : Packing δ
  phase : SendPhase

inductive ReceivePhase (δ : Type)
  | waitBucket
  | reading (metadata : Metadata δ)
  | replied (metadata : Metadata δ)
  | done

/-- `outlet.received` is the list `weights` of the bucket at hand, `handed`
what `on_bucket_received` was called with so far. -/
structure Receiver (δ : Type) [Torch δ] where
  phase : ReceivePhase δ
  outlet : Outlet δ
  handed : List (String × Tensor δ)

/-- Both processes after `_init_buffer`, with what the sockets carry. -/
structure State (δ : Type) [Torch δ] where
  sender : Sender δ
  receiver : Receiver δ
  buffer : List UInt8
  request : Option (Metadata δ)
  reply : Bool

inductive Action
  | pack
  | sendBucket
  | sendLast
  | recvReply
  | recvBucket
  | formNext
  | copyNext
  | sendReply
  | handOver
deriving DecidableEq

namespace State

def pack (s : State δ) : State δ :=
  let packed := s.sender.packing.pack s.buffer
  { s with
    sender := { s.sender with packing := packed.1 }
    buffer := packed.2 }

/-- `self.socket.send_pyobj({"bucket_meta": bucket_meta, "is_last": ...})` -/
def send (isLast : Bool) (s : State δ) : State δ :=
  { s with
    sender := { s.sender with phase := .waitReply isLast }
    request := some ⟨s.sender.packing.bucketMeta, isLast⟩ }

/-- `self.socket.recv()` at the sender, and what follows it. -/
def resume (c : Config) (isLast : Bool) (s : State δ) : State δ :=
  { s with
    reply := false
    sender :=
      if isLast then { s.sender with phase := .done }
      else
        { packing := s.sender.packing.clear
          phase :=
            match s.sender.packing.clear.assertFits c.bucketSize c.hint with
            | .ok _ => .packing
            | .error e => .raised e } }

def recvBucket (metadata : Metadata δ) (s : State δ) : State δ :=
  { s with
    request := none
    receiver := { s.receiver with
      phase := .reading metadata
      outlet := s.receiver.outlet.refill metadata } }

def setOutlet (s : State δ) (outlet : Outlet δ) : State δ :=
  { s with receiver := { s.receiver with outlet := outlet } }

def sendReply (metadata : Metadata δ) (s : State δ) : State δ :=
  { s with
    reply := true
    receiver := { s.receiver with phase := .replied metadata } }

/-- `on_bucket_received(weights)` -/
def handOver (metadata : Metadata δ) (s : State δ) : State δ :=
  { s with receiver :=
    { phase := if metadata.isLast then .done else .waitBucket
      outlet := { s.receiver.outlet with received := [] }
      handed := s.receiver.handed ++ s.receiver.outlet.received } }

end State

/-- A view is copied by `clone()` or, from shared memory, by
`to(self.device)`. -/
def step (c : Config) (s : State δ) : Action → Option (State δ)
  | .pack =>
      match s.sender.phase, s.sender.packing.turn c.bucketSize with
      | .packing, .pack => some s.pack
      | _, _ => none
  | .sendBucket =>
      match s.sender.phase, s.sender.packing.turn c.bucketSize with
      | .packing, .flush => some (s.send false)
      | _, _ => none
  | .sendLast =>
      match s.sender.phase, s.sender.packing.turn c.bucketSize with
      | .packing, .last => some (s.send true)
      | _, _ => none
  | .recvReply =>
      match s.sender.phase, s.reply with
      | .waitReply isLast, true => some (s.resume c isLast)
      | _, _ => none
  | .recvBucket =>
      match s.receiver.phase, s.request with
      | .waitBucket, some metadata => some (s.recvBucket metadata)
      | _, _ => none
  | .formNext =>
      (s.receiver.outlet.yieldNext c.receiver s.buffer).map s.setOutlet
  | .copyNext =>
      (s.receiver.outlet.copyNext c.receiver s.buffer).map s.setOutlet
  | .sendReply =>
      match s.receiver.phase, s.receiver.outlet.drained with
      | .reading metadata, true => some (s.sendReply metadata)
      | _, _ => none
  | .handOver =>
      match s.receiver.phase with
      | .replied metadata => some (s.handOver metadata)
      | _ => none

/-- `torch.empty` and a shared memory segment hold any bytes at first. -/
def initial (buffer : List UInt8) (weights : List (String × Tensor δ)) :
    State δ where
  sender := ⟨.start weights, .packing⟩
  receiver := ⟨.waitBucket, .empty, []⟩
  buffer := buffer
  request := none
  reply := false

def system (c : Config) (buffer : List UInt8)
    (weights : List (String × Tensor δ)) :
    Transition.System (State δ) Action where
  initial := initial buffer weights
  step := step c

section Invariant

variable {c : Config} {plan : List (List (String × Tensor δ))}
  {s s' : State δ} {k g : Nat}

/-- `k` buckets were sent; the next one is filled in the same buffer once the
last was acknowledged. -/
def State.Sends (c : Config) (plan : List (List (String × Tensor δ)))
    (s : State δ) (k : Nat) : Prop :=
  match s.sender.phase with
  | .packing =>
      s.sender.packing.Follows c.bucketSize s.buffer (plan.drop k)
  | .waitReply isLast => ∃ j bucket, k = j + 1 ∧ plan[j]? = some bucket ∧
      content bucket <+: s.buffer ∧ isLast = (k == plan.length) ∧
      (isLast = false →
        s.sender.packing.clear.assertFits c.bucketSize c.hint = .ok () ∧
        ∀ buffer, s.sender.packing.clear.Follows c.bucketSize buffer
          (plan.drop k))
  | .done => k = plan.length
  | .raised _ => False

/-- The receiver works off the first `g` buckets; except while it reads, it
does not look at the buffer. -/
structure State.Receives (c : Config)
    (plan : List (List (String × Tensor δ))) (s : State δ) (g : Nat) :
    Prop where
  serves : ∃ handed shown later,
    (s.receiver.outlet.after s.receiver.handed).Serves c.receiver s.buffer
      (entries (plan.take g)) handed shown later
  phase :
    match s.receiver.phase with
    | .waitBucket => g < plan.length ∧ s.receiver.outlet.drained = true ∧
        s.receiver.outlet.received = []
    | .reading metadata => ∃ j, g = j + 1 ∧
        (metadatas plan)[j]? = some metadata
    | .replied metadata => s.receiver.outlet.drained = true ∧
        ∃ j, g = j + 1 ∧ (metadatas plan)[j]? = some metadata
    | .done => g = plan.length ∧ s.receiver.outlet.drained = true ∧
        s.receiver.outlet.received = []

def Receiver.isReading (r : Receiver δ) : Bool :=
  match r.phase with
  | .reading _ => true
  | _ => false

/-- What the sockets carry: nothing while the sender packs, else the request,
or the reply once the receiver has read. -/
def State.Exchange (plan : List (List (String × Tensor δ))) (s : State δ)
    (k g : Nat) : Prop :=
  match s.sender.phase with
  | .waitReply _ =>
      (s.receiver.isReading = false ∧ s.reply = false ∧ k = g + 1 ∧
        ∃ metadata, s.request = some metadata ∧
          (metadatas plan)[g]? = some metadata) ∨
      (s.receiver.isReading = !s.reply ∧ s.request = none ∧ g = k)
  | _ => s.receiver.isReading = false ∧ s.reply = false ∧
      s.request = none ∧ g = k

def Invariant (c : Config) (plan : List (List (String × Tensor δ)))
    (s : State δ) : Prop :=
  ∃ k g, s.Sends c plan k ∧ s.Receives c plan g ∧ s.Exchange plan k g

theorem invariant_initial {weights : List (String × Tensor δ)}
    (hfits : ∀ w ∈ weights, w.2.nbytes ≤ c.bucketSize)
    (buffer : List UInt8) :
    Invariant c (buckets c.bucketSize weights) (initial buffer weights) := by
  refine ⟨0, 0, Packing.follows_start hfits buffer,
    ⟨⟨[], [], [], Outlet.serves_empty _ _⟩, ?_⟩, rfl, rfl, rfl, rfl⟩
  exact ⟨List.length_pos_iff.mpr (nextFit_ne_nil _ _ _ _), rfl, rfl⟩

theorem State.Receives.drained (h : s.Receives c plan g)
    (hreading : s.receiver.isReading = false) :
    s.receiver.outlet.drained = true := by
  have hphase := h.phase
  cases hcurrent : s.receiver.phase with
  | waitBucket =>
      simp only [hcurrent] at hphase
      exact hphase.2.1
  | reading metadata => simp [Receiver.isReading, hcurrent] at hreading
  | replied metadata =>
      simp only [hcurrent] at hphase
      exact hphase.1
  | done =>
      simp only [hcurrent] at hphase
      exact hphase.2.1

/-- The sender writes while the receiver does not read. -/
theorem State.Receives.write (h : s.Receives c plan g)
    (hreading : s.receiver.isReading = false)
    (hreceiver : s'.receiver = s.receiver) : s'.Receives c plan g := by
  obtain ⟨handed, shown, later, hserves⟩ := h.serves
  refine ⟨⟨handed, shown, later, ?_⟩, hreceiver ▸ h.phase⟩
  rw [hreceiver]
  exact hserves.setBuffer (h.drained hreading) s'.buffer

theorem invariant_pack (h : Invariant c plan s)
    (hphase : s.sender.phase = .packing)
    (hturn : s.sender.packing.turn c.bucketSize = .pack) :
    Invariant c plan s.pack := by
  obtain ⟨k, g, hsends, hreceives, hexchange⟩ := h
  simp only [State.Sends, hphase] at hsends
  simp only [State.Exchange, hphase] at hexchange
  refine ⟨k, g, ?_, hreceives.write hexchange.1 rfl, ?_⟩
  · simp only [State.Sends, State.pack, hphase]
    exact hsends.pack hturn
  · simp only [State.Exchange, State.pack, hphase]
    exact hexchange

theorem invariant_sendBucket (h : Invariant c plan s)
    (hphase : s.sender.phase = .packing)
    (hturn : s.sender.packing.turn c.bucketSize = .flush) :
    Invariant c plan (s.send false) := by
  obtain ⟨k, g, hsends, hreceives, hexchange⟩ := h
  simp only [State.Sends, hphase] at hsends
  simp only [State.Exchange, hphase] at hexchange
  obtain ⟨hreading, hreply, -, rfl⟩ := hexchange
  obtain ⟨bucket, later, hrest, hlater, hentries, hcontent, hassert, hclear⟩ :=
    hsends.flush hturn c.hint
  have hbucket : plan[g]? = some bucket := by
    rw [← List.head?_drop, hrest, List.head?_cons]
  have hdrop : plan.drop (g + 1) = later := by
    rw [← List.tail_drop, hrest, List.tail_cons]
  have hlast : (g + 1 == plan.length) = false := by
    rw [beq_eq_false_iff_ne]
    intro heq
    rw [heq, List.drop_length] at hdrop
    exact hlater hdrop.symm
  refine ⟨g + 1, g, ?_, ⟨hreceives.serves, hreceives.phase⟩, ?_⟩
  · exact ⟨g, bucket, rfl, hbucket, hcontent, hlast.symm,
      fun _ => ⟨hassert, hdrop ▸ hclear⟩⟩
  · refine .inl ⟨hreading, hreply, rfl, _, rfl, ?_⟩
    rw [getElem?_metadatas hbucket, hlast, ← hentries]

theorem invariant_sendLast (h : Invariant c plan s)
    (hphase : s.sender.phase = .packing)
    (hturn : s.sender.packing.turn c.bucketSize = .last) :
    Invariant c plan (s.send true) := by
  obtain ⟨k, g, hsends, hreceives, hexchange⟩ := h
  simp only [State.Sends, hphase] at hsends
  simp only [State.Exchange, hphase] at hexchange
  obtain ⟨hreading, hreply, -, rfl⟩ := hexchange
  obtain ⟨bucket, hrest, hentries, hcontent⟩ := hsends.last hturn
  have hbucket : plan[g]? = some bucket := by
    rw [← List.head?_drop, hrest, List.head?_cons]
  have hlast : (g + 1 == plan.length) = true := by
    have hdrop := congrArg List.length hrest
    rw [List.length_drop, List.length_singleton] at hdrop
    rw [beq_iff_eq]
    omega
  refine ⟨g + 1, g, ?_, ⟨hreceives.serves, hreceives.phase⟩, ?_⟩
  · exact ⟨g, bucket, rfl, hbucket, hcontent, hlast.symm, by simp⟩
  · refine .inl ⟨hreading, hreply, rfl, _, rfl, ?_⟩
    rw [getElem?_metadatas hbucket, hlast, ← hentries]

theorem invariant_recvReply (h : Invariant c plan s) {isLast : Bool}
    (hphase : s.sender.phase = .waitReply isLast) (hreply : s.reply = true) :
    Invariant c plan (s.resume c isLast) := by
  obtain ⟨k, g, hsends, hreceives, hexchange⟩ := h
  simp only [State.Sends, hphase] at hsends
  simp only [State.Exchange, hphase, hreply, Bool.not_true] at hexchange
  obtain ⟨-, hcontra, -⟩ | ⟨hreading, hrequest, rfl⟩ := hexchange
  · cases hcontra
  obtain ⟨j, bucket, -, -, -, hlast, hnext⟩ := hsends
  refine ⟨g, g, ?_, ⟨hreceives.serves, hreceives.phase⟩, ?_⟩
  · cases isLast with
    | true => exact beq_iff_eq.mp hlast.symm
    | false =>
        obtain ⟨hassert, hclear⟩ := hnext rfl
        simp only [State.Sends, State.resume, Bool.false_eq_true, if_false,
          hassert]
        exact hclear _
  · cases isLast with
    | true => exact ⟨hreading, rfl, hrequest, rfl⟩
    | false =>
        obtain ⟨hassert, -⟩ := hnext rfl
        simp only [State.Exchange, State.resume, Bool.false_eq_true, if_false,
          hassert]
        exact ⟨hreading, trivial, hrequest, trivial⟩

theorem invariant_recvBucket (h : Invariant c plan s)
    {metadata : Metadata δ} (hphase : s.receiver.phase = .waitBucket)
    (hrequest : s.request = some metadata) :
    Invariant c plan (s.recvBucket metadata) := by
  obtain ⟨k, g, hsends, hreceives, hexchange⟩ := h
  have hreceiver := hreceives.phase
  simp only [hphase] at hreceiver
  obtain ⟨hlt, hdrained, -⟩ := hreceiver
  cases hsender : s.sender.phase with
  | waitReply isLast =>
      simp only [State.Exchange, hsender, hrequest] at hexchange
      obtain ⟨-, hreply, rfl, _, hsome, hmetadata⟩ | ⟨-, hcontra, -⟩ :=
        hexchange
      · cases hsome
        have hsends' := hsends
        simp only [State.Sends, hsender] at hsends'
        obtain ⟨j, bucket, hj, hbucket, hcontent, -⟩ := hsends'
        obtain rfl : g = j := Nat.succ_injective hj
        obtain ⟨handed, shown, later, hserves⟩ := hreceives.serves
        refine ⟨g + 1, g + 1, hsends, ⟨?_, g, rfl, hmetadata⟩, ?_⟩
        · rw [getElem?_metadatas hbucket] at hmetadata
          cases hmetadata
          rw [entries_take_succ hbucket]
          exact ⟨_, _, _, hserves.refill hdrained hcontent
            (g + 1 == plan.length)⟩
        · simp only [State.Exchange, State.recvBucket, hsender]
          exact .inr ⟨by simp [Receiver.isReading, hreply], trivial, trivial⟩
      · cases hcontra
  | _ => simp [State.Exchange, hsender, hrequest] at hexchange

/-- Forming views and copying them. -/
theorem invariant_setOutlet (h : Invariant c plan s) {outlet : Outlet δ}
    (hbusy : s.receiver.outlet.drained = false)
    (hserves : ∀ {given handed shown later},
      (s.receiver.outlet.after s.receiver.handed).Serves c.receiver s.buffer
        given handed shown later →
      ∃ handed shown later, (outlet.after s.receiver.handed).Serves c.receiver
        s.buffer given handed shown later) :
    Invariant c plan (s.setOutlet outlet) := by
  obtain ⟨k, g, hsends, hreceives, hexchange⟩ := h
  obtain ⟨_, _, _, hserves'⟩ := hreceives.serves
  refine ⟨k, g, hsends, ⟨hserves hserves', ?_⟩, hexchange⟩
  have hphase := hreceives.phase
  cases hcurrent : s.receiver.phase with
  | waitBucket => simp [hcurrent, hbusy] at hphase
  | reading metadata =>
      simp only [hcurrent] at hphase
      simpa only [State.setOutlet, hcurrent] using hphase
  | replied metadata => simp [hcurrent, hbusy] at hphase
  | done => simp [hcurrent, hbusy] at hphase

theorem invariant_sendReply (h : Invariant c plan s)
    {metadata : Metadata δ} (hphase : s.receiver.phase = .reading metadata)
    (hdrained : s.receiver.outlet.drained = true) :
    Invariant c plan (s.sendReply metadata) := by
  obtain ⟨k, g, hsends, hreceives, hexchange⟩ := h
  have hreceiver := hreceives.phase
  simp only [hphase] at hreceiver
  have hreading : s.receiver.isReading = true := by
    simp [Receiver.isReading, hphase]
  refine ⟨k, g, hsends, ⟨hreceives.serves, hdrained, hreceiver⟩, ?_⟩
  cases hsender : s.sender.phase with
  | waitReply isLast =>
      simp only [State.Exchange, hsender, hreading] at hexchange
      obtain ⟨hcontra, -⟩ | ⟨-, hrequest, rfl⟩ := hexchange
      · cases hcontra
      · simp only [State.Exchange, State.sendReply, hsender]
        exact .inr ⟨rfl, hrequest, trivial⟩
  | _ => simp [State.Exchange, hsender, hreading] at hexchange

theorem invariant_handOver (h : Invariant c plan s)
    {metadata : Metadata δ} (hphase : s.receiver.phase = .replied metadata) :
    Invariant c plan (s.handOver metadata) := by
  obtain ⟨k, g, hsends, hreceives, hexchange⟩ := h
  have hreceiver := hreceives.phase
  simp only [hphase] at hreceiver
  obtain ⟨hdrained, j, rfl, hmetadata⟩ := hreceiver
  obtain ⟨bucket, hbucket, rfl⟩ := exists_of_getElem?_metadatas hmetadata
  have hlt := (List.getElem?_eq_some_iff.mp hbucket).1
  have hbefore : s.receiver.isReading = false := by
    simp [Receiver.isReading, hphase]
  have hafter : (s.handOver
      ⟨bucketMeta bucket, j + 1 == plan.length⟩).receiver.isReading =
      false := by
    cases hlast : j + 1 == plan.length <;>
      simp [State.handOver, Receiver.isReading]
  refine ⟨k, j + 1, hsends, ⟨?_, ?_⟩, ?_⟩
  · obtain ⟨handed, shown, later, hserves⟩ := hreceives.serves
    refine ⟨handed, shown, later, ?_⟩
    simpa [State.handOver, Outlet.after] using hserves
  · cases hlast : j + 1 == plan.length with
    | false =>
        have hne := beq_eq_false_iff_ne.mp hlast
        exact ⟨by omega, hdrained, rfl⟩
    | true => exact ⟨beq_iff_eq.mp hlast, hdrained, rfl⟩
  · have hsender : (s.handOver
        ⟨bucketMeta bucket, j + 1 == plan.length⟩).sender = s.sender := rfl
    simp only [State.Exchange, hbefore] at hexchange
    simp only [State.Exchange, hsender, hafter]
    exact hexchange

theorem drained_eq_false_of_yieldNext {device : Device}
    {buffer : List UInt8} {o o' : Outlet δ}
    (h : o.yieldNext device buffer = some o') : o.drained = false := by
  obtain ⟨todo, pending, received, raised⟩ := o
  match raised, todo with
  | some err, _ => simp [Outlet.yieldNext] at h
  | none, [] => simp [Outlet.yieldNext] at h
  | none, _ :: _ => simp [Outlet.drained]

theorem drained_eq_false_of_copyNext {device : Device}
    {buffer : List UInt8} {o o' : Outlet δ}
    (h : o.copyNext device buffer = some o') : o.drained = false := by
  obtain ⟨todo, pending, received, raised⟩ := o
  match pending with
  | [] => simp [Outlet.copyNext] at h
  | _ :: _ => simp [Outlet.drained]

/-- What every step keeps. -/
theorem invariant_step {a : Action} (h : Invariant c plan s)
    (hs : step c s a = some s') : Invariant c plan s' := by
  cases a with
  | pack =>
      simp only [step] at hs
      split at hs <;> cases hs
      rename_i hphase hturn
      exact invariant_pack h hphase hturn
  | sendBucket =>
      simp only [step] at hs
      split at hs <;> cases hs
      rename_i hphase hturn
      exact invariant_sendBucket h hphase hturn
  | sendLast =>
      simp only [step] at hs
      split at hs <;> cases hs
      rename_i hphase hturn
      exact invariant_sendLast h hphase hturn
  | recvReply =>
      simp only [step] at hs
      split at hs <;> cases hs
      rename_i hphase hreply
      exact invariant_recvReply h hphase hreply
  | recvBucket =>
      simp only [step] at hs
      split at hs <;> cases hs
      rename_i hphase hrequest
      exact invariant_recvBucket h hphase hrequest
  | formNext =>
      obtain ⟨outlet, houtlet, rfl⟩ := Option.map_eq_some_iff.mp hs
      refine invariant_setOutlet h (drained_eq_false_of_yieldNext houtlet)
        fun hserves => ?_
      obtain ⟨shown, later, hserves'⟩ := hserves.yieldNext
        (by rw [Outlet.yieldNext_after, houtlet, Option.map_some])
      exact ⟨_, shown, later, hserves'⟩
  | copyNext =>
      obtain ⟨outlet, houtlet, rfl⟩ := Option.map_eq_some_iff.mp hs
      refine invariant_setOutlet h (drained_eq_false_of_copyNext houtlet)
        fun hserves => ?_
      obtain ⟨handed, shown, hserves'⟩ := hserves.copyNext
        (by rw [Outlet.copyNext_after, houtlet, Option.map_some])
      exact ⟨handed, shown, _, hserves'⟩
  | sendReply =>
      simp only [step] at hs
      split at hs <;> cases hs
      rename_i hphase hdrained
      exact invariant_sendReply h hphase hdrained
  | handOver =>
      simp only [step] at hs
      split at hs <;> cases hs
      rename_i hphase
      exact invariant_handOver h hphase

end Invariant

section Progress

variable {c : Config} {plan : List (List (String × Tensor δ))} {s : State δ}

/-- A run in which no view was illegal ends with everything handed over. -/
theorem received_of_stuck (h : Invariant c plan s)
    (hraised : s.receiver.outlet.raised = none)
    (hstuck : ∀ a, step c s a = none) :
    s.receiver.outlet.received = [] ∧ s.receiver.outlet.drained = true ∧
      ∃ handed shown later, (s.receiver.outlet.after s.receiver.handed).Serves
        c.receiver s.buffer (entries plan) handed shown later := by
  obtain ⟨k, g, hsends, hreceives, hexchange⟩ := h
  obtain ⟨handed, shown, later, hserves⟩ := hreceives.serves
  have hform : s.receiver.outlet.yieldNext c.receiver s.buffer = none :=
    Option.map_eq_none_iff.mp (hstuck .formNext)
  have hcopy : s.receiver.outlet.copyNext c.receiver s.buffer = none :=
    Option.map_eq_none_iff.mp (hstuck .copyNext)
  have hdrained : s.receiver.outlet.drained = true :=
    hserves.drained_of_stuck hraised
      (by rw [Outlet.yieldNext_after, hform, Option.map_none])
      (by rw [Outlet.copyNext_after, hcopy, Option.map_none])
  have hreceiver := hreceives.phase
  have hdone : g = plan.length ∧ s.receiver.outlet.received = [] := by
    cases hcurrent : s.receiver.phase with
    | reading metadata =>
        have hreply := hstuck .sendReply
        simp [step, hcurrent, hdrained] at hreply
    | replied metadata =>
        have hhand := hstuck .handOver
        simp [step, hcurrent] at hhand
    | done =>
        simp only [hcurrent] at hreceiver
        exact ⟨hreceiver.1, hreceiver.2.2⟩
    | waitBucket =>
        simp only [hcurrent] at hreceiver
        have hlt := hreceiver.1
        have hrecv := hstuck .recvBucket
        have hreading : s.receiver.isReading = false := by
          simp [Receiver.isReading, hcurrent]
        -- with no request and no reply under way the sender goes on
        cases hsender : s.sender.phase with
        | packing =>
            have hpack := hstuck .pack
            have hbucket := hstuck .sendBucket
            have hlast := hstuck .sendLast
            simp only [step, hsender] at hpack hbucket hlast
            cases hturn : s.sender.packing.turn c.bucketSize with
            | pack => simp [hturn] at hpack
            | flush => simp [hturn] at hbucket
            | last => simp [hturn] at hlast
        | waitReply isLast =>
            have hreply := hstuck .recvReply
            simp only [State.Exchange, hsender, hreading] at hexchange
            obtain ⟨-, -, -, metadata, hrequest, -⟩ | ⟨hanswer, -⟩ := hexchange
            · simp [step, hcurrent, hrequest] at hrecv
            · rw [eq_comm, Bool.not_eq_false'] at hanswer
              simp [step, hsender, hanswer] at hreply
        | done =>
            simp only [State.Exchange, hsender] at hexchange
            simp only [State.Sends, hsender] at hsends
            omega
        | raised e => simp only [State.Sends, hsender] at hsends
  rw [hdone.1, List.take_length] at hserves
  exact ⟨hdone.2, hdrained, handed, shown, later, hserves⟩

end Progress

section Work

variable {c : Config} {plan : List (List (String × Tensor δ))}
  {s s' : State δ}

/-- A bucket with something in it can be sent. -/
def sendWork (offset : Nat) : Nat := if 0 < offset then 5 else 0

def Sender.work (sender : Sender δ) : Nat :=
  match sender.phase with
  | .packing => 8 * sender.packing.weights.length +
      2 * sender.packing.bucketMeta.entries.length +
      sendWork sender.packing.offset + 6
  | .waitReply false => 8 * sender.packing.weights.length + 6
  | .waitReply true | .done | .raised _ => 0

def Receiver.work (r : Receiver δ) : Nat :=
  (match r.phase with
    | .waitBucket | .done => 0
    | .reading _ => 3
    | .replied _ => 1) + r.outlet.work

def requestWork (request : Option (Metadata δ)) : Nat :=
  match request with
  | none => 0
  | some metadata => 2 * metadata.bucketMeta.entries.length + 4

/-- The steps a state can still lead to are at most this many. -/
def State.work (s : State δ) : Nat :=
  s.sender.work + s.receiver.work + requestWork s.request + s.reply.toNat

theorem work_pack (hphase : s.sender.phase = .packing)
    (hturn : s.sender.packing.turn c.bucketSize = .pack) :
    s.pack.work < s.work := by
  obtain ⟨hweights, hentries⟩ := Packing.lengths_pack hturn s.buffer
  have hsend : sendWork (s.sender.packing.pack s.buffer).1.offset ≤ 5 := by
    rw [sendWork]
    split <;> omega
  simp only [State.work, Sender.work, State.pack, hphase]
  omega

theorem work_sendBucket (h : Invariant c plan s)
    (hphase : s.sender.phase = .packing)
    (hturn : s.sender.packing.turn c.bucketSize = .flush) :
    (s.send false).work < s.work := by
  obtain ⟨k, g, hsends, -, hexchange⟩ := h
  simp only [State.Sends, hphase] at hsends
  simp only [State.Exchange, hphase] at hexchange
  obtain ⟨⟨⟨weights, entries, offset⟩, phase⟩, receiver, buffer, request,
    reply⟩ := s
  obtain ⟨-, -, hrequest, -⟩ := hexchange
  simp only at hphase hrequest
  subst hphase hrequest
  match weights with
  | [] => cases hturn
  | (name, weight) :: weights =>
      have hlt : c.bucketSize < offset + weight.nbytes := by
        by_contra hle
        simp [Packing.turn, hle] at hturn
      have hweight := hsends.fits _ List.mem_cons_self
      have hpos : 0 < offset := by
        simp only at hweight
        omega
      have hfull : sendWork offset = 5 := if_pos hpos
      simp only [State.work, Sender.work, State.send, requestWork, hfull]
      omega

theorem work_sendLast (h : Invariant c plan s)
    (hphase : s.sender.phase = .packing) : (s.send true).work < s.work := by
  obtain ⟨k, g, -, -, hexchange⟩ := h
  simp only [State.Exchange, hphase] at hexchange
  obtain ⟨-, -, hrequest, -⟩ := hexchange
  simp only [State.work, Sender.work, State.send, requestWork, hphase,
    hrequest]
  omega

theorem work_resume {isLast : Bool}
    (hphase : s.sender.phase = .waitReply isLast) (hreply : s.reply = true) :
    (s.resume c isLast).work < s.work := by
  have hclear : (PyDict.empty : PyDict (TensorMeta δ)).entries.length = 0 :=
    rfl
  have hzero : sendWork 0 = 0 := rfl
  cases isLast with
  | true =>
      simp only [State.work, State.resume, Sender.work, hphase, hreply, if_true,
        Bool.toNat_true, Bool.toNat_false]
      omega
  | false =>
      simp only [State.work, State.resume, Sender.work, hphase, hreply,
        Bool.false_eq_true, if_false, Bool.toNat_true, Bool.toNat_false]
      cases hassert : s.sender.packing.clear.assertFits c.bucketSize c.hint <;>
        simp only [Packing.clear, hclear, hzero] <;> omega

/-- Every step counts the work down. -/
theorem work_step {a : Action} (h : Invariant c plan s)
    (hs : step c s a = some s') : s'.work < s.work := by
  cases a with
  | pack =>
      simp only [step] at hs
      split at hs <;> cases hs
      rename_i hphase hturn
      exact work_pack hphase hturn
  | sendBucket =>
      simp only [step] at hs
      split at hs <;> cases hs
      rename_i hphase hturn
      exact work_sendBucket h hphase hturn
  | sendLast =>
      simp only [step] at hs
      split at hs <;> cases hs
      rename_i hphase _
      exact work_sendLast h hphase
  | recvReply =>
      simp only [step] at hs
      split at hs <;> cases hs
      rename_i hphase hreply
      exact work_resume hphase hreply
  | recvBucket =>
      simp only [step] at hs
      split at hs <;> cases hs
      rename_i metadata hphase hrequest
      obtain ⟨k, g, -, hreceives, -⟩ := h
      have hreceiver := hreceives.phase
      simp only [hphase] at hreceiver
      have hrefill := Outlet.work_refill hreceiver.2.1 metadata
      simp only [State.work, State.recvBucket, Receiver.work, hphase, hrefill,
        hrequest, requestWork]
      omega
  | formNext =>
      obtain ⟨outlet, houtlet, rfl⟩ := Option.map_eq_some_iff.mp hs
      have hlt := Outlet.work_yieldNext houtlet
      simp only [State.work, State.setOutlet, Receiver.work]
      omega
  | copyNext =>
      obtain ⟨outlet, houtlet, rfl⟩ := Option.map_eq_some_iff.mp hs
      have hlt := Outlet.work_copyNext houtlet
      simp only [State.work, State.setOutlet, Receiver.work]
      omega
  | sendReply =>
      simp only [step] at hs
      split at hs <;> cases hs
      rename_i metadata hphase _
      have hreply := Nat.zero_le s.reply.toNat
      simp only [State.work, State.sendReply, Receiver.work, hphase,
        Bool.toNat_true]
      omega
  | handOver =>
      simp only [step] at hs
      split at hs <;> cases hs
      rename_i metadata hphase
      have houtlet : ({ s.receiver.outlet with received := [] } :
          Outlet δ).work = s.receiver.outlet.work := rfl
      cases hlast : metadata.isLast <;>
        simp only [State.work, State.handOver, Receiver.work, hphase, hlast,
          houtlet, Bool.false_eq_true, if_false, if_true] <;> omega

end Work

/-- What the callback was called with, and the copies and views that are to
come. -/
def port (c : Config) (_ : Unit) (s : State δ) : Port δ where
  handed := s.receiver.handed
  shown := s.receiver.outlet.received.map (fun w => (w.1, .ok w.2)) ++
    s.receiver.outlet.views c.receiver s.buffer
  raised := s.receiver.outlet.raised

/-- A bucket that is not acknowledged yet. -/
def offered (s : State δ) (entries : PyDict (TensorMeta δ))
    (buffer : List UInt8) : Prop :=
  buffer = s.buffer ∧ s.reply = false ∧ ∃ metadata : Metadata δ,
    (s.request = some metadata ∨ s.receiver.phase = .reading metadata) ∧
    entries = metadata.bucketMeta

theorem offered_holds {c : Config} {plan : List (List (String × Tensor δ))}
    {s : State δ} (h : Invariant c plan s) {entries : PyDict (TensorMeta δ)}
    {buffer : List UInt8} (hoffered : offered s entries buffer) :
    ∃ bucket ∈ plan, entries = bucketMeta bucket ∧
      content bucket <+: buffer := by
  obtain ⟨rfl, hreply, metadata, hmetadata, rfl⟩ := hoffered
  obtain ⟨k, g, hsends, hreceives, hexchange⟩ := h
  cases hsender : s.sender.phase with
  | waitReply isLast =>
      simp only [State.Sends, hsender] at hsends
      simp only [State.Exchange, hsender] at hexchange
      obtain ⟨j, bucket, rfl, hbucket, hcontent, -⟩ := hsends
      refine ⟨bucket, List.mem_of_getElem? hbucket, ?_, hcontent⟩
      have hsent : (metadatas plan)[j]? = some metadata := by
        obtain ⟨hreading, -, hg, _, hrequest, hget⟩ | ⟨-, hrequest, rfl⟩ :=
          hexchange
        · obtain rfl : j = g := Nat.succ_injective hg
          rcases hmetadata with hsome | hphase
          · rw [hget, ← hrequest, hsome]
          · simp [Receiver.isReading, hphase] at hreading
        · rcases hmetadata with hsome | hphase
          · cases hrequest.symm.trans hsome
          · have hreceiver := hreceives.phase
            simp only [hphase] at hreceiver
            obtain ⟨i, hi, hget⟩ := hreceiver
            obtain rfl : j = i := Nat.succ_injective hi
            exact hget
      rw [getElem?_metadatas hbucket] at hsent
      cases hsent
      rfl
  | _ =>
      simp only [State.Exchange, hsender] at hexchange
      obtain ⟨hreading, -, hrequest, -⟩ := hexchange
      rcases hmetadata with hsome | hphase
      · cases hrequest.symm.trans hsome
      · simp [Receiver.isReading, hphase] at hreading

/-- The transfer through one buffer delivers the weights exactly when they are
aligned. -/
theorem delivers_iff_aligned (c : Config) (buffer : List UInt8)
    {weights : List (String × Tensor δ)}
    (hnodup : (weights.map Prod.fst).Nodup)
    (hfits : ∀ w ∈ weights, w.2.nbytes ≤ c.bucketSize) :
    Delivers (system c buffer weights) (port c) offered c.receiver
      c.bucketSize weights ↔ Aligned c.bucketSize weights := by
  rw [← legal_iff_aligned hnodup]
  refine (delivers_iff (P := Invariant c (buckets c.bucketSize weights))
    (invariant_initial hfits buffer)
    (fun s a s' hs hs' => ⟨invariant_step hs hs', work_step hs hs'⟩)
    ?_ (fun s hs _ _ => offered_holds hs) ?_).trans
    (and_iff_right fun bucket hbucket => nodup_of_mem_buckets hnodup hbucket)
  · rintro s ⟨k, g, -, hreceives, -⟩ i
    obtain ⟨handed, shown, later, hserves⟩ := hreceives.serves
    exact ⟨s.receiver.outlet.received, _, s.buffer, g, handed, shown, later,
      hserves, rfl, rfl, rfl⟩
  · intro s hs hraised hend i
    obtain ⟨hempty, hdrained, hserves⟩ :=
      received_of_stuck hs (hraised i) hend
    refine ⟨_, _, hserves, hdrained, ?_⟩
    simp [port, Outlet.after, hempty]

end BucketIpc

/-- Weights under distinct names, each small enough for a bucket. -/
structure NamedWeights (δ : Type) [Torch δ] (bucketSize : Nat) where
  weights : List (String × Tensor δ)
  nodup : (weights.map Prod.fst).Nodup
  fits : ∀ w ∈ weights, w.2.nbytes ≤ bucketSize

open WeightBuckets

/-- The engine and the transfer between processes each deliver the weights
exactly when every weight starts at a multiple of its item size in its
bucket. -/
theorem bucketedTransfers_deliver_iff {δ : Type} [Torch δ] :
    (∀ (c : BucketBroadcast.Config) (n : Nat)
      (w : NamedWeights δ c.bucketSize),
      Delivers (BucketBroadcast.system c w.weights (n + 1))
        (BucketBroadcast.port c) BucketBroadcast.offered c.device c.bucketSize
        w.weights ↔ Aligned c.bucketSize w.weights) ∧
    ∀ (c : BucketIpc.Config) (buffer : Vector UInt8 c.bucketSize)
      (w : NamedWeights δ c.bucketSize),
      Delivers (BucketIpc.system c buffer.toList w.weights) (BucketIpc.port c)
        BucketIpc.offered c.receiver c.bucketSize w.weights ↔
        Aligned c.bucketSize w.weights :=
  ⟨fun c n w => BucketBroadcast.delivers_iff_aligned c n w.nodup w.fits,
    fun c buffer w =>
      BucketIpc.delivers_iff_aligned c buffer.toList w.nodup w.fits⟩

/-- A bias of three bfloat16 numbers in front of a float32 gate. -/
def biasThenGate : NamedWeights Dtype (1 <<< 20) where
  weights :=
    [("bias", ⟨.bfloat16, [3], .accelerator "cuda", List.replicate 6 1, rfl⟩),
      ("gate", ⟨.float32, [1], .accelerator "cuda", List.replicate 4 2, rfl⟩)]
  nodup := by decide
  fits := by decide

/-- The gate would be viewed at offset 6: neither transfer delivers it. -/
theorem bucketedTransfers_misalignedGate :
    ¬ Delivers
      (BucketBroadcast.system ⟨1 <<< 20, .accelerator "cuda", true⟩
        biasThenGate.weights 1)
      (BucketBroadcast.port ⟨1 <<< 20, .accelerator "cuda", true⟩)
      BucketBroadcast.offered (.accelerator "cuda") (1 <<< 20)
      biasThenGate.weights ∧
    ¬ Delivers
      (BucketIpc.system ⟨1, "cuda"⟩ (List.replicate (1 <<< 20) 0)
        biasThenGate.weights)
      (BucketIpc.port ⟨1, "cuda"⟩) BucketIpc.offered (.accelerator "cuda")
      (1 <<< 20) biasThenGate.weights := by
  have hnot : ¬ Aligned (1 <<< 20) biasThenGate.weights := by decide
  constructor
  · intro hdelivers
    exact hnot ((BucketBroadcast.delivers_iff_aligned
      ⟨1 <<< 20, .accelerator "cuda", true⟩ 0 biasThenGate.nodup
      biasThenGate.fits).mp hdelivers)
  · intro hdelivers
    exact hnot ((BucketIpc.delivers_iff_aligned ⟨1, "cuda"⟩
      (List.replicate (1 <<< 20) 0) biasThenGate.nodup
      biasThenGate.fits).mp hdelivers)

end SelfDistillation
