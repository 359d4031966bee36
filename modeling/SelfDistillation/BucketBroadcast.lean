/-
`send_weights` and `receive_weights` of the NCCL checkpoint engine
(verl/checkpoint_engine/nccl_checkpoint_engine.py): one sender, any number of
receivers, two alternating buffers at each.
-/
import SelfDistillation.WeightBuckets

namespace SelfDistillation

namespace BucketBroadcast

open Torch Chunks WeightBuckets Function

variable {δ : Type} [Torch δ] {n : Nat}

/-- `BroadcastOperation` at rank 0: `announced` once the metadata is
published, `captured` for each receiver its data has left for. -/
structure Broadcast (δ : Type) (n : Nat) where
  bucket : Bool
  metadata : Metadata δ
  announced : Bool
  captured : Fin n → Bool

namespace Broadcast

def start (bucket : Bool) (metadata : Metadata δ) : Broadcast δ n :=
  ⟨bucket, metadata, false, fun _ => false⟩

/-- `await broadcast_op.wait_for_complete()` returns. -/
def finished (op : Broadcast δ n) : Bool :=
  op.announced && decide (∀ i, op.captured i = true)

end Broadcast

inductive SendPhase
  | packing
  | last
  | done
  | raised (e : PyErr)

/-- Rank 0; `bufs send` is its `send_buf`, the other one its `recv_buf`. -/
structure Sender (δ : Type) [Torch δ] (n : Nat) where
  packing : Packing δ
  bufs : Bool → List UInt8
  send : Bool
  broadcastOp : Option (Broadcast δ n)
  phase : SendPhase

namespace Sender

def waited (s : Sender δ n) : Bool :=
  match s.broadcastOp with
  | none => true
  | some op => op.finished

def pack (s : Sender δ n) : Sender δ n :=
  let packed := s.packing.pack (s.bufs s.send)
  { s with packing := packed.1, bufs := update s.bufs s.send packed.2 }

def flush (bucketSize : Nat) (s : Sender δ n) : Sender δ n where
  packing := s.packing.clear
  bufs := s.bufs
  send := !s.send
  broadcastOp := some (.start s.send ⟨s.packing.bucketMeta, false⟩)
  phase :=
    match s.packing.clear.assertFits bucketSize "" with
    | .ok _ => .packing
    | .error e => .raised e

def flushLast (s : Sender δ n) : Sender δ n :=
  { s with
    broadcastOp := some (.start s.send ⟨s.packing.bucketMeta, true⟩)
    phase := .last }

end Sender

/-- `BroadcastOperation` at a receiver. -/
inductive ReceiveOp (δ : Type)
  | waitMetadata
  | waitData (metadata : Metadata δ)
  | complete (metadata : Metadata δ)

/-- A rollout worker; `inbox` and `arriving` are under way to it. -/
structure Receiver (δ : Type) [Torch δ] where
  inbox : List (Metadata δ)
  arriving : List (List UInt8)
  bufs : Bool → List UInt8
  send : Bool
  broadcastOp : Option (ReceiveOp δ)
  outlet : Outlet δ

namespace Receiver

def publish (metadata : Metadata δ) (r : Receiver δ) : Receiver δ :=
  { r with inbox := r.inbox ++ [metadata] }

def arrive (data : List UInt8) (r : Receiver δ) : Receiver δ :=
  { r with arriving := r.arriving ++ [data] }

/-- `self.socket.recv_pyobj()` -/
def recvMetadata (r : Receiver δ) : Option (Receiver δ) :=
  match r.broadcastOp, r.inbox with
  | some .waitMetadata, metadata :: inbox => some { r with
      inbox := inbox
      broadcastOp := some (.waitData metadata) }
  | _, _ => none

/-- `collective.broadcast` into `recv_buf` -/
def recvData (r : Receiver δ) : Option (Receiver δ) :=
  match r.broadcastOp, r.arriving with
  | some (.waitData metadata), data :: arriving => some { r with
      arriving := arriving
      bufs := update r.bufs (!r.send) data
      broadcastOp := some (.complete metadata) }
  | _, _ => none

/-- The next bucket has come and the copies are done: the buffers are swapped,
and unless it is the last one the next broadcast starts. -/
def advance (r : Receiver δ) : Option (Receiver δ) :=
  match r.broadcastOp with
  | some (.complete metadata) =>
      if r.outlet.drained then some { r with
        send := !r.send
        broadcastOp := if metadata.isLast then none else some .waitMetadata
        outlet := r.outlet.refill metadata }
      else none
  | _ => none

def yieldNext (device : Device) (r : Receiver δ) : Option (Receiver δ) :=
  (r.outlet.yieldNext device (r.bufs r.send)).map
    fun outlet => { r with outlet := outlet }

def copyNext (device : Device) (r : Receiver δ) : Option (Receiver δ) :=
  (r.outlet.copyNext device (r.bufs r.send)).map
    fun outlet => { r with outlet := outlet }

def waiting (r : Receiver δ) : Bool :=
  match r.broadcastOp with
  | some (.waitData _) => true
  | _ => false

end Receiver

/-- With `rendezvous` the data leaves only for a receiver that takes part in
the broadcast already. -/
structure Config where
  bucketSize : Nat
  device : Device
  rendezvous : Bool

structure State (δ : Type) [Torch δ] (n : Nat) where
  sender : Sender δ n
  receivers : Fin n → Receiver δ

inductive Action (n : Nat)
  | pack
  | flush
  | flushLast
  | announce
  | capture (i : Fin n)
  | finish
  | recvMetadata (i : Fin n)
  | recvData (i : Fin n)
  | advance (i : Fin n)
  | yieldNext (i : Fin n)
  | copyNext (i : Fin n)

namespace State

/-- The metadata goes to every subscriber. -/
def announce (s : State δ n) (op : Broadcast δ n) : State δ n where
  sender := { s.sender with broadcastOp := some { op with announced := true } }
  receivers i := (s.receivers i).publish op.metadata

/-- The bucket as it is now leaves for receiver `i`. -/
def capture (s : State δ n) (op : Broadcast δ n) (i : Fin n) : State δ n where
  sender := { s.sender with
    broadcastOp := some { op with captured := update op.captured i true } }
  receivers := update s.receivers i
    ((s.receivers i).arrive (s.sender.bufs op.bucket))

def receive (s : State δ n) (i : Fin n)
    (f : Receiver δ → Option (Receiver δ)) : Option (State δ n) :=
  (f (s.receivers i)).map fun r =>
    { s with receivers := update s.receivers i r }

end State

def step (c : Config) (s : State δ n) : Action n → Option (State δ n)
  | .pack =>
      match s.sender.phase, s.sender.packing.turn c.bucketSize with
      | .packing, .pack => some { s with sender := s.sender.pack }
      | _, _ => none
  | .flush =>
      match s.sender.phase, s.sender.packing.turn c.bucketSize,
        s.sender.waited with
      | .packing, .flush, true =>
          some { s with sender := s.sender.flush c.bucketSize }
      | _, _, _ => none
  | .flushLast =>
      match s.sender.phase, s.sender.packing.turn c.bucketSize,
        s.sender.waited with
      | .packing, .last, true => some { s with sender := s.sender.flushLast }
      | _, _, _ => none
  | .announce =>
      match s.sender.broadcastOp with
      | some op => if op.announced then none else some (s.announce op)
      | none => none
  | .capture i =>
      match s.sender.broadcastOp with
      | some op =>
          if op.announced && !op.captured i &&
              (!c.rendezvous || (s.receivers i).waiting) then
            some (s.capture op i)
          else none
      | none => none
  | .finish =>
      match s.sender.phase, s.sender.waited with
      | .last, true =>
          some { s with sender := { s.sender with phase := .done } }
      | _, _ => none
  | .recvMetadata i => s.receive i Receiver.recvMetadata
  | .recvData i => s.receive i Receiver.recvData
  | .advance i => s.receive i Receiver.advance
  | .yieldNext i => s.receive i (Receiver.yieldNext c.device)
  | .copyNext i => s.receive i (Receiver.copyNext c.device)

/-- `prepare` has zeroed the buffers; each receiver waits for its first
bucket. -/
def initial (c : Config) (weights : List (String × Tensor δ)) :
    State δ n where
  sender :=
    { packing := .start weights
      bufs := fun _ => List.replicate c.bucketSize 0
      send := false
      broadcastOp := none
      phase := .packing }
  receivers _ :=
    { inbox := []
      arriving := []
      bufs := fun _ => List.replicate c.bucketSize 0
      send := false
      broadcastOp := some .waitMetadata
      outlet := .empty }

def system (c : Config) (weights : List (String × Tensor δ)) (n : Nat) :
    Transition.System (State δ n) (Action n) where
  initial := initial c weights
  step := step c

section Invariant

variable {c : Config} {plan : List (List (String × Tensor δ))}

/-- Rank 0 has started the broadcasts of the first `k` buckets, and fills the
next one in the buffer the running broadcast does not use. -/
structure Sender.Sends (bucketSize : Nat)
    (plan : List (List (String × Tensor δ))) (s : Sender δ n) (k : Nat) :
    Prop where
  phase :
    match s.phase with
    | .packing => s.packing.Follows bucketSize (s.bufs s.send) (plan.drop k)
    | .last => k = plan.length
    | .done => k = plan.length ∧ s.waited = true
    | .raised _ => False
  broadcastOp :
    match s.broadcastOp with
    | none => k = 0
    | some op => ∃ j bucket, k = j + 1 ∧ plan[j]? = some bucket ∧
        op.metadata = ⟨bucketMeta bucket, k == plan.length⟩ ∧
        content bucket <+: s.bufs op.bucket
  apart : ∀ op, s.phase = .packing → s.broadcastOp = some op →
    op.bucket = !s.send

/-- Buckets whose metadata is out. -/
def Sender.announced (s : Sender δ n) (k : Nat) : Nat :=
  match s.broadcastOp with
  | some op => if op.announced then k else k - 1
  | none => k

/-- Buckets whose data has left for receiver `i`. -/
def Sender.captured (s : Sender δ n) (k : Nat) (i : Fin n) : Nat :=
  match s.broadcastOp with
  | some op => if op.captured i then k else k - 1
  | none => k

/-- A receiver works off the first `g` buckets, has read the metadata of `m`
and the data of `d`; the rest of what was sent is still under way. -/
structure Receiver.Follows (device : Device)
    (plan : List (List (String × Tensor δ))) (announced captured : Nat)
    (r : Receiver δ) (g m d : Nat) : Prop where
  inbox : r.inbox = window (metadatas plan) m announced
  arriving : List.Forall₂ (fun data bucket => content bucket <+: data)
    r.arriving (window plan d captured)
  le_announced : m ≤ announced
  le_captured : d ≤ captured
  serves : ∃ handed shown later, r.outlet.Serves device (r.bufs r.send)
    (entries (plan.take g)) handed shown later
  broadcastOp :
    match r.broadcastOp with
    | none => g = plan.length ∧ m = g ∧ d = g
    | some .waitMetadata => g < plan.length ∧ m = g ∧ d = g
    | some (.waitData metadata) => m = g + 1 ∧ d = g ∧
        (metadatas plan)[g]? = some metadata
    | some (.complete metadata) => m = g + 1 ∧ d = g + 1 ∧
        ∃ bucket, plan[g]? = some bucket ∧
          metadata = ⟨bucketMeta bucket, g + 1 == plan.length⟩ ∧
          content bucket <+: r.bufs (!r.send)

def Invariant (c : Config) (plan : List (List (String × Tensor δ)))
    (s : State δ n) : Prop :=
  ∃ k, s.sender.Sends c.bucketSize plan k ∧ ∀ i, ∃ g m d,
    (s.receivers i).Follows c.device plan (s.sender.announced k)
      (s.sender.captured k i) g m d

theorem invariant_initial {weights : List (String × Tensor δ)}
    (hfits : ∀ w ∈ weights, w.2.nbytes ≤ c.bucketSize) :
    Invariant c (buckets c.bucketSize weights)
      (initial c weights : State δ n) := by
  refine ⟨0, ⟨?_, rfl, by simp [initial]⟩, fun i => ⟨0, 0, 0, rfl, ?_,
    Nat.le_refl 0, Nat.le_refl 0, ⟨[], [], [], ?_⟩, ?_⟩⟩
  · exact Packing.follows_start hfits _
  · exact .nil
  · exact Outlet.serves_empty _ _
  · exact ⟨List.length_pos_iff.mpr (nextFit_ne_nil _ _ _ _), rfl, rfl⟩

section SenderSteps

variable {s : Sender δ n} {k : Nat}

theorem Sender.Sends.le_length (h : s.Sends c.bucketSize plan k) :
    k ≤ plan.length := by
  have hop := h.broadcastOp
  split at hop
  · omega
  · obtain ⟨j, bucket, rfl, hbucket, -⟩ := hop
    exact (List.getElem?_eq_some_iff.mp hbucket).1

theorem Sender.Sends.pack (h : s.Sends c.bucketSize plan k)
    (hphase : s.phase = .packing)
    (hturn : s.packing.turn c.bucketSize = .pack) :
    s.pack.Sends c.bucketSize plan k := by
  have hfollows := h.phase
  simp only [hphase] at hfollows
  refine ⟨?_, ?_, h.apart⟩
  · simp only [Sender.pack, hphase, update_self]
    exact hfollows.pack hturn
  · have hop := h.broadcastOp
    cases hcurrent : s.broadcastOp with
    | none => simpa only [Sender.pack, hcurrent] using hop
    | some op =>
        simp only [hcurrent] at hop
        obtain ⟨j, bucket, hk, hbucket, hmetadata, hcontent⟩ := hop
        have hne : op.bucket ≠ s.send := by
          rw [h.apart op hphase hcurrent]
          exact Bool.not_ne_self s.send
        simp only [Sender.pack, hcurrent]
        exact ⟨j, bucket, hk, hbucket, hmetadata, by rwa [update_of_ne hne]⟩

theorem Sender.Sends.flush (h : s.Sends c.bucketSize plan k)
    (hphase : s.phase = .packing)
    (hturn : s.packing.turn c.bucketSize = .flush) :
    (s.flush c.bucketSize).Sends c.bucketSize plan (k + 1) := by
  have hfollows := h.phase
  simp only [hphase] at hfollows
  obtain ⟨bucket, later, hrest, hlater, hentries, hcontent, hassert, hclear⟩ :=
    hfollows.flush hturn ""
  have hbucket : plan[k]? = some bucket := by
    rw [← List.head?_drop, hrest, List.head?_cons]
  have hdrop : plan.drop (k + 1) = later := by
    rw [← List.tail_drop, hrest, List.tail_cons]
  have hlt : k + 1 ≠ plan.length := by
    intro heq
    rw [heq, List.drop_length] at hdrop
    exact hlater hdrop.symm
  refine ⟨?_, ?_, ?_⟩
  · simp only [Sender.flush, hassert, hdrop]
    exact hclear _
  · refine ⟨k, bucket, rfl, hbucket, ?_, hcontent⟩
    rw [beq_eq_false_iff_ne.mpr hlt, ← hentries]
    rfl
  · intro op _ hop
    cases hop
    simp [Sender.flush, Broadcast.start]

theorem Sender.Sends.flushLast (h : s.Sends c.bucketSize plan k)
    (hphase : s.phase = .packing)
    (hturn : s.packing.turn c.bucketSize = .last) :
    s.flushLast.Sends c.bucketSize plan (k + 1) := by
  have hfollows := h.phase
  simp only [hphase] at hfollows
  obtain ⟨bucket, hrest, hentries, hcontent⟩ := hfollows.last hturn
  have hbucket : plan[k]? = some bucket := by
    rw [← List.head?_drop, hrest, List.head?_cons]
  have hlength : k + 1 = plan.length := by
    have hdrop := congrArg List.length hrest
    rw [List.length_drop, List.length_singleton] at hdrop
    omega
  refine ⟨hlength, ⟨k, bucket, rfl, hbucket, ?_, hcontent⟩, ?_⟩
  · rw [beq_iff_eq.mpr hlength, ← hentries]
    rfl
  · intro op hcontra
    cases hcontra

/-- What a running broadcast still does to itself leaves the rest alone. -/
theorem Sender.Sends.setOp (h : s.Sends c.bucketSize plan k)
    {op op' : Broadcast δ n} (hop : s.broadcastOp = some op)
    (hrunning : op.finished = false) (hbucket : op'.bucket = op.bucket)
    (hmetadata : op'.metadata = op.metadata) :
    ({ s with broadcastOp := some op' } : Sender δ n).Sends
      c.bucketSize plan k := by
  refine ⟨?_, ?_, ?_⟩
  · have hphase := h.phase
    cases hcurrent : s.phase with
    | packing => simpa only [hcurrent] using hphase
    | last => simpa only [hcurrent] using hphase
    | done => simp [hcurrent, Sender.waited, hop, hrunning] at hphase
    | raised e => simp only [hcurrent] at hphase
  · have hcurrent := h.broadcastOp
    simp only [hop] at hcurrent
    simpa only [hbucket, hmetadata] using hcurrent
  · intro op'' hphase hsome
    cases hsome
    exact hbucket.trans (h.apart op hphase hop)

/-- Once waited for, a broadcast is out and has left for everyone. -/
theorem Sender.announced_of_waited (hwaited : s.waited = true) :
    s.announced k = k := by
  cases hop : s.broadcastOp with
  | none => simp [announced, hop]
  | some op =>
      simp only [waited, hop, Broadcast.finished, Bool.and_eq_true] at hwaited
      simp [announced, hop, hwaited.1]

theorem Sender.captured_of_waited (hwaited : s.waited = true) (i : Fin n) :
    s.captured k i = k := by
  cases hop : s.broadcastOp with
  | none => simp [captured, hop]
  | some op =>
      simp only [waited, hop, Broadcast.finished, Bool.and_eq_true,
        decide_eq_true_eq] at hwaited
      simp [captured, hop, hwaited.2 i]

end SenderSteps

section ReceiverSteps

variable {device : Device} {r r' : Receiver δ} {announced captured : Nat}
  {g m d : Nat}

theorem Receiver.Follows.recvMetadata
    (h : r.Follows device plan announced captured g m d)
    (hr : r.recvMetadata = some r') :
    ∃ g m d, r'.Follows device plan announced captured g m d := by
  obtain ⟨inbox, arriving, bufs, send, op, outlet⟩ := r
  match op, inbox with
  | none, _ => simp [Receiver.recvMetadata] at hr
  | some (.waitData _), _ => simp [Receiver.recvMetadata] at hr
  | some (.complete _), _ => simp [Receiver.recvMetadata] at hr
  | some .waitMetadata, [] => simp [Receiver.recvMetadata] at hr
  | some .waitMetadata, metadata :: inbox =>
      cases hr
      obtain ⟨hinbox, harriving, -, hd, hserves, -, rfl, rfl⟩ := h
      obtain ⟨hlt, hmetadata, hrest⟩ := window_pop hinbox.symm
      exact ⟨d, d + 1, d, hrest, harriving, hlt, hd, hserves, rfl, rfl,
        hmetadata⟩

theorem Receiver.Follows.recvData
    (h : r.Follows device plan announced captured g m d)
    (hr : r.recvData = some r') :
    ∃ g m d, r'.Follows device plan announced captured g m d := by
  obtain ⟨inbox, arriving, bufs, send, op, outlet⟩ := r
  match op, arriving with
  | none, _ => simp [Receiver.recvData] at hr
  | some .waitMetadata, _ => simp [Receiver.recvData] at hr
  | some (.complete _), _ => simp [Receiver.recvData] at hr
  | some (.waitData _), [] => simp [Receiver.recvData] at hr
  | some (.waitData metadata), data :: arriving =>
      cases hr
      obtain ⟨hinbox, harriving, hm, -, hserves, rfl, rfl, hmetadata⟩ := h
      obtain ⟨bucket, rest, hcontent, hrest, hwindow⟩ :=
        List.forall₂_cons_left_iff.mp harriving
      obtain ⟨hlt, hbucket, rfl⟩ := window_pop hwindow
      refine ⟨d, d + 1, d + 1, hinbox, hrest, hm, hlt, ?_, rfl, rfl, bucket,
        hbucket, ?_, ?_⟩
      · simpa only [update_of_ne (Bool.not_ne_self send).symm] using hserves
      · exact Option.some.inj
          (hmetadata.symm.trans (getElem?_metadatas hbucket))
      · simpa only [update_self] using hcontent

/-- The buffer that was served is only received into again when it is
drained. -/
theorem Receiver.Follows.advance
    (h : r.Follows device plan announced captured g m d)
    (hr : r.advance = some r') :
    ∃ g m d, r'.Follows device plan announced captured g m d := by
  obtain ⟨inbox, arriving, bufs, send, op, outlet⟩ := r
  match op with
  | none => simp [Receiver.advance] at hr
  | some .waitMetadata => simp [Receiver.advance] at hr
  | some (.waitData _) => simp [Receiver.advance] at hr
  | some (.complete metadata) =>
      rw [Receiver.advance, Option.ite_none_right_eq_some] at hr
      obtain ⟨hdrained, hr⟩ := hr
      cases hr
      obtain ⟨hinbox, harriving, hm, hd, ⟨handed, shown, later, hserves⟩, rfl,
        rfl, bucket, hbucket, rfl, hcontent⟩ := h
      refine ⟨g + 1, g + 1, g + 1, hinbox, harriving, hm, hd, ?_, ?_⟩
      · rw [entries_take_succ hbucket]
        exact ⟨_, _, _, hserves.refill hdrained hcontent _⟩
      · by_cases hlast : g + 1 = plan.length
        · simp [hlast]
        · have hlt := (List.getElem?_eq_some_iff.mp hbucket).1
          simp only [beq_eq_false_iff_ne.mpr hlast, Bool.false_eq_true,
            if_false]
          exact ⟨by omega, trivial, trivial⟩

/-- Working on the bucket at hand. -/
theorem Receiver.Follows.setOutlet
    (h : r.Follows device plan announced captured g m d) {outlet : Outlet δ}
    (hserves : ∃ handed shown later, outlet.Serves device (r.bufs r.send)
      (entries (plan.take g)) handed shown later) :
    ({ r with outlet := outlet } : Receiver δ).Follows device plan announced
      captured g m d :=
  ⟨h.inbox, h.arriving, h.le_announced, h.le_captured, hserves, h.broadcastOp⟩

theorem Receiver.Follows.yieldNext
    (h : r.Follows device plan announced captured g m d)
    (hr : r.yieldNext device = some r') :
    ∃ g m d, r'.Follows device plan announced captured g m d := by
  obtain ⟨outlet, houtlet, rfl⟩ := Option.map_eq_some_iff.mp hr
  obtain ⟨handed, shown, later, hserves⟩ := h.serves
  obtain ⟨shown', later', hserves'⟩ := hserves.yieldNext houtlet
  exact ⟨g, m, d, h.setOutlet ⟨handed, shown', later', hserves'⟩⟩

theorem Receiver.Follows.copyNext
    (h : r.Follows device plan announced captured g m d)
    (hr : r.copyNext device = some r') :
    ∃ g m d, r'.Follows device plan announced captured g m d := by
  obtain ⟨outlet, houtlet, rfl⟩ := Option.map_eq_some_iff.mp hr
  obtain ⟨handed, shown, later, hserves⟩ := h.serves
  obtain ⟨handed', shown', hserves'⟩ := hserves.copyNext houtlet
  exact ⟨g, m, d, h.setOutlet ⟨handed', shown', later, hserves'⟩⟩

theorem Receiver.Follows.push
    (h : r.Follows device plan announced captured g m d)
    {metadata : Metadata δ}
    (hmetadata : (metadatas plan)[announced]? = some metadata) :
    (r.publish metadata).Follows device plan (announced + 1) captured
      g m d := by
  refine ⟨?_, h.arriving, Nat.le_succ_of_le h.le_announced, h.le_captured,
    h.serves, h.broadcastOp⟩
  rw [window_push h.le_announced hmetadata, Receiver.publish, h.inbox]

theorem Receiver.Follows.arrive
    (h : r.Follows device plan announced captured g m d)
    {bucket : List (String × Tensor δ)} {data : List UInt8}
    (hbucket : plan[captured]? = some bucket)
    (hcontent : content bucket <+: data) :
    (r.arrive data).Follows device plan announced (captured + 1) g m d := by
  refine ⟨h.inbox, ?_, h.le_announced, Nat.le_succ_of_le h.le_captured,
    h.serves, h.broadcastOp⟩
  rw [window_push h.le_captured hbucket]
  exact List.rel_append h.arriving (.cons hcontent .nil)

end ReceiverSteps

theorem invariant_receive {s s' : State δ n} {i : Fin n}
    {f : Receiver δ → Option (Receiver δ)}
    (hf : ∀ {r r' : Receiver δ} {announced captured g m d : Nat},
      r.Follows c.device plan announced captured g m d → f r = some r' →
      ∃ g m d, r'.Follows c.device plan announced captured g m d)
    (h : Invariant c plan s) (hs : s.receive i f = some s') :
    Invariant c plan s' := by
  obtain ⟨r, hr, rfl⟩ := Option.map_eq_some_iff.mp hs
  obtain ⟨k, hsends, hfollows⟩ := h
  refine ⟨k, hsends, fun j => ?_⟩
  by_cases hij : j = i
  · subst hij
    obtain ⟨g, m, d, hfollow⟩ := hfollows j
    simpa only [update_self] using hf hfollow hr
  · simpa only [update_of_ne hij] using hfollows j

/-- What every step keeps. -/
theorem invariant_step {s s' : State δ n} {a : Action n}
    (h : Invariant c plan s) (hs : step c s a = some s') :
    Invariant c plan s' := by
  cases a with
  | pack =>
      simp only [step] at hs
      split at hs <;> cases hs
      rename_i hphase hturn
      obtain ⟨k, hsends, hfollows⟩ := h
      exact ⟨k, hsends.pack hphase hturn, hfollows⟩
  | flush =>
      simp only [step] at hs
      split at hs <;> cases hs
      rename_i hphase hturn hwaited
      obtain ⟨k, hsends, hfollows⟩ := h
      refine ⟨k + 1, hsends.flush hphase hturn, fun i => ?_⟩
      have hfollow := hfollows i
      rwa [Sender.announced_of_waited hwaited,
        Sender.captured_of_waited hwaited] at hfollow
  | flushLast =>
      simp only [step] at hs
      split at hs <;> cases hs
      rename_i hphase hturn hwaited
      obtain ⟨k, hsends, hfollows⟩ := h
      refine ⟨k + 1, hsends.flushLast hphase hturn, fun i => ?_⟩
      have hfollow := hfollows i
      rwa [Sender.announced_of_waited hwaited,
        Sender.captured_of_waited hwaited] at hfollow
  | announce =>
      simp only [step] at hs
      split at hs <;> try cases hs
      rename_i op hop
      rw [Option.ite_none_left_eq_some] at hs
      obtain ⟨hannounced, hs⟩ := hs
      cases hs
      rw [Bool.not_eq_true] at hannounced
      obtain ⟨k, hsends, hfollows⟩ := h
      refine ⟨k, hsends.setOp hop (by simp [Broadcast.finished, hannounced])
        rfl rfl, fun i => ?_⟩
      obtain ⟨g, m, d, hfollow⟩ := hfollows i
      have hcurrent := hsends.broadcastOp
      simp only [hop] at hcurrent
      obtain ⟨j, bucket, rfl, hbucket, hmetadata, -⟩ := hcurrent
      simp only [Sender.announced, Sender.captured, hop, hannounced,
        Bool.false_eq_true, if_false, Nat.add_sub_cancel] at hfollow
      refine ⟨g, m, d, ?_⟩
      simp only [State.announce, Sender.announced, Sender.captured, if_true]
      exact hfollow.push (hmetadata ▸ getElem?_metadatas hbucket)
  | capture i =>
      simp only [step] at hs
      split at hs <;> try cases hs
      rename_i op hop
      rw [Option.ite_none_right_eq_some] at hs
      obtain ⟨henabled, hs⟩ := hs
      cases hs
      simp only [Bool.and_eq_true, Bool.not_eq_true'] at henabled
      obtain ⟨⟨hannounced, hcaptured⟩, -⟩ := henabled
      obtain ⟨k, hsends, hfollows⟩ := h
      refine ⟨k, hsends.setOp hop ?_ rfl rfl, fun j => ?_⟩
      · simp only [Broadcast.finished, Bool.and_eq_false_iff,
          decide_eq_false_iff_not]
        exact .inr fun hall => by simp [hall i] at hcaptured
      · obtain ⟨g, m, d, hfollow⟩ := hfollows j
        have hcurrent := hsends.broadcastOp
        simp only [hop] at hcurrent
        obtain ⟨l, bucket, rfl, hbucket, -, hcontent⟩ := hcurrent
        simp only [Sender.announced, Sender.captured, hop] at hfollow
        refine ⟨g, m, d, ?_⟩
        by_cases hij : j = i
        · subst hij
          rw [hcaptured, if_neg Bool.false_ne_true, Nat.add_sub_cancel]
            at hfollow
          simpa only [State.capture, Sender.announced, Sender.captured,
            update_self, if_true, Nat.add_sub_cancel] using
            hfollow.arrive hbucket hcontent
        · simpa only [State.capture, Sender.announced, Sender.captured,
            update_of_ne hij] using hfollow
  | finish =>
      simp only [step] at hs
      split at hs <;> cases hs
      rename_i hphase hwaited
      obtain ⟨k, hsends, hfollows⟩ := h
      have hlast := hsends.phase
      simp only [hphase] at hlast
      exact ⟨k, ⟨⟨hlast, hwaited⟩, hsends.broadcastOp, by simp⟩, hfollows⟩
  | recvMetadata i => exact invariant_receive Receiver.Follows.recvMetadata h hs
  | recvData i => exact invariant_receive Receiver.Follows.recvData h hs
  | advance i => exact invariant_receive Receiver.Follows.advance h hs
  | yieldNext i => exact invariant_receive Receiver.Follows.yieldNext h hs
  | copyNext i => exact invariant_receive Receiver.Follows.copyNext h hs

end Invariant

section Progress

variable {c : Config} {plan : List (List (String × Tensor δ))}

/-- What a receiver that cannot go on waits for. -/
theorem Receiver.Follows.stuck {device : Device} {r : Receiver δ}
    {announced captured g m d : Nat}
    (h : r.Follows device plan announced captured g m d)
    (hannounced : announced ≤ plan.length) (hcaptured : captured ≤ plan.length)
    (hraised : r.outlet.raised = none) (hmetadata : r.recvMetadata = none)
    (hdata : r.recvData = none) (hadvance : r.advance = none)
    (hyield : r.yieldNext device = none) (hcopy : r.copyNext device = none) :
    r.outlet.drained = true ∧ d = g ∧
      (g = plan.length ∨ g < plan.length ∧
        (announced = g ∨ r.waiting = true ∧ captured = g)) := by
  obtain ⟨handed, shown, later, hserves⟩ := h.serves
  have hdrained := hserves.drained_of_stuck hraised
    (Option.map_eq_none_iff.mp hyield) (Option.map_eq_none_iff.mp hcopy)
  refine ⟨hdrained, ?_⟩
  have hop := h.broadcastOp
  match hcurrent : r.broadcastOp with
  | none =>
      simp only [hcurrent] at hop
      exact ⟨hop.2.2, .inl hop.1⟩
  | some .waitMetadata =>
      simp only [hcurrent] at hop
      obtain ⟨hlt, rfl, rfl⟩ := hop
      refine ⟨rfl, .inr ⟨hlt, .inl ?_⟩⟩
      by_contra hne
      have hinbox : window (metadatas plan) _ _ ≠ [] := window_ne_nil
        (Nat.lt_of_le_of_ne h.le_announced (Ne.symm hne))
        ((length_metadatas plan).symm ▸ hannounced)
      rw [← h.inbox] at hinbox
      obtain ⟨metadata, inbox, hcons⟩ := List.exists_cons_of_ne_nil hinbox
      simp [Receiver.recvMetadata, hcurrent, hcons] at hmetadata
  | some (.waitData metadata) =>
      simp only [hcurrent] at hop
      obtain ⟨rfl, rfl, hget⟩ := hop
      obtain ⟨bucket, hbucket, -⟩ := exists_of_getElem?_metadatas hget
      refine ⟨rfl, .inr ⟨(List.getElem?_eq_some_iff.mp hbucket).1,
        .inr ⟨by simp [Receiver.waiting, hcurrent], ?_⟩⟩⟩
      by_contra hne
      have hwindow : window plan _ _ ≠ [] := window_ne_nil
        (Nat.lt_of_le_of_ne h.le_captured (Ne.symm hne)) hcaptured
      have harriving : r.arriving ≠ [] := by
        intro hnil
        have hforall := h.arriving
        rw [hnil, List.forall₂_nil_left_iff] at hforall
        exact hwindow hforall
      obtain ⟨data, arriving, hcons⟩ := List.exists_cons_of_ne_nil harriving
      simp [Receiver.recvData, hcurrent, hcons] at hdata
  | some (.complete metadata) =>
      simp [Receiver.advance, hcurrent, hdrained] at hadvance

/-- A run in which no view was illegal goes on until every receiver has got
everything. -/
theorem drained_of_stuck {s : State δ n} (h : Invariant c plan s)
    (hraised : ∀ i, (s.receivers i).outlet.raised = none)
    (hstuck : ∀ a, step c s a = none) (i : Fin n) :
    (s.receivers i).outlet.drained = true ∧ ∃ handed shown later,
      (s.receivers i).outlet.Serves c.device
        ((s.receivers i).bufs (s.receivers i).send) (entries plan)
        handed shown later := by
  obtain ⟨k, hsends, hfollows⟩ := h
  have hk := hsends.le_length
  have hreceive : ∀ i {f : Receiver δ → Option (Receiver δ)},
      s.receive i f = none → f (s.receivers i) = none :=
    fun i f hf => Option.map_eq_none_iff.mp hf
  have hannounced : s.sender.announced k ≤ k := by
    rw [Sender.announced]
    split
    · split <;> omega
    · omega
  have hcaptured : ∀ i, s.sender.captured k i ≤ k := by
    intro i
    rw [Sender.captured]
    split
    · split <;> omega
    · omega
  have hreceivers : ∀ i, ∃ g m d, (s.receivers i).Follows c.device plan
      (s.sender.announced k) (s.sender.captured k i) g m d ∧
      (s.receivers i).outlet.drained = true ∧ d = g ∧
      (g = plan.length ∨ g < plan.length ∧ (s.sender.announced k = g ∨
        (s.receivers i).waiting = true ∧ s.sender.captured k i = g)) := by
    intro i
    obtain ⟨g, m, d, hfollow⟩ := hfollows i
    exact ⟨g, m, d, hfollow, hfollow.stuck (hannounced.trans hk)
      ((hcaptured i).trans hk) (hraised i)
      (hreceive i (hstuck (.recvMetadata i)))
      (hreceive i (hstuck (.recvData i))) (hreceive i (hstuck (.advance i)))
      (hreceive i (hstuck (.yieldNext i))) (hreceive i (hstuck (.copyNext i)))⟩
  -- the sender has nothing to wait for
  have hwaited : s.sender.waited = true := by
    cases hop : s.sender.broadcastOp with
    | none => simp [Sender.waited, hop]
    | some op =>
        have hannounce := hstuck .announce
        simp only [step, hop, ite_eq_left_iff, reduceCtorEq, imp_false,
          not_not] at hannounce
        have hall : ∀ i, op.captured i = true := by
          intro i
          by_contra hnot
          rw [Bool.not_eq_true] at hnot
          obtain ⟨g, m, d, hfollow, -, rfl, hwhere⟩ := hreceivers i
          have hcurrent := hsends.broadcastOp
          simp only [hop] at hcurrent
          obtain ⟨j, -, rfl, -⟩ := hcurrent
          have hle := hfollow.le_captured
          simp only [Sender.captured, hop, hnot, Bool.false_eq_true, if_false,
            Nat.add_sub_cancel] at hle
          have hcapture := hstuck (.capture i)
          simp only [step, hop, hannounce, hnot, Bool.not_false,
            Bool.and_self, Bool.true_and, ite_eq_right_iff, reduceCtorEq,
            imp_false, Bool.not_eq_true, Bool.or_eq_false_iff,
            Bool.not_eq_false'] at hcapture
          simp only [Sender.announced, hop, hannounce, if_true, hcapture.2,
            Bool.false_eq_true, false_and, or_false] at hwhere
          omega
        simp [Sender.waited, hop, Broadcast.finished, hannounce, hall]
  have hlength : k = plan.length := by
    have hphase := hsends.phase
    match hcurrent : s.sender.phase with
    | .packing =>
        have hpack := hstuck .pack
        have hflush := hstuck .flush
        have hlast := hstuck .flushLast
        simp only [step, hcurrent, hwaited] at hpack hflush hlast
        cases hturn : s.sender.packing.turn c.bucketSize with
        | pack => simp [hturn] at hpack
        | flush => simp [hturn] at hflush
        | last => simp [hturn] at hlast
    | .last =>
        have hfinish := hstuck .finish
        simp [step, hcurrent, hwaited] at hfinish
    | .done =>
        simp only [hcurrent] at hphase
        exact hphase.1
    | .raised e => simp only [hcurrent] at hphase
  obtain ⟨g, m, d, hfollow, hdrained, -, hwhere⟩ := hreceivers i
  rw [Sender.announced_of_waited hwaited,
    Sender.captured_of_waited hwaited] at hwhere
  have hg : g = plan.length := by omega
  obtain ⟨handed, shown, later, hserves⟩ := hfollow.serves
  rw [hg, List.take_length] at hserves
  exact ⟨hdrained, handed, shown, later, hserves⟩

end Progress

section Work

variable {c : Config}

def Receiver.work (r : Receiver δ) : Nat :=
  (r.inbox.map fun metadata =>
    2 * metadata.bucketMeta.entries.length + 3).sum +
  r.arriving.length +
  (match r.broadcastOp with
    | none | some .waitMetadata => 0
    | some (.waitData metadata) => 2 * metadata.bucketMeta.entries.length + 2
    | some (.complete metadata) => 2 * metadata.bucketMeta.entries.length + 1) +
  r.outlet.work

def Broadcast.work (op : Broadcast δ n) : Nat :=
  (if op.announced then 0
    else n * (2 * op.metadata.bucketMeta.entries.length + 3) + 1) +
  ∑ i, if op.captured i then 0 else 2

/-- A bucket with something in it can be flushed. -/
def flushWork (n offset : Nat) : Nat := if 0 < offset then 5 * n + 2 else 0

def Sender.loopWork (s : Sender δ n) : Nat :=
  match s.phase with
  | .packing => s.packing.weights.length * (7 * n + 3) +
      n * (2 * s.packing.bucketMeta.entries.length) +
      flushWork n s.packing.offset + (5 * n + 3)
  | .last => 1
  | .done | .raised _ => 0

def Sender.work (s : Sender δ n) : Nat :=
  (match s.broadcastOp with
    | none => 0
    | some op => op.work) + s.loopWork

/-- The steps a state can still lead to are at most this many. -/
def State.work (s : State δ n) : Nat :=
  s.sender.work + ∑ i, (s.receivers i).work

theorem Receiver.work_recvMetadata {r r' : Receiver δ}
    (hr : r.recvMetadata = some r') : r'.work < r.work := by
  obtain ⟨inbox, arriving, bufs, send, op, outlet⟩ := r
  match op, inbox with
  | none, _ => simp [Receiver.recvMetadata] at hr
  | some (.waitData _), _ => simp [Receiver.recvMetadata] at hr
  | some (.complete _), _ => simp [Receiver.recvMetadata] at hr
  | some .waitMetadata, [] => simp [Receiver.recvMetadata] at hr
  | some .waitMetadata, metadata :: inbox =>
      cases hr
      simp only [Receiver.work, List.map_cons, List.sum_cons]
      omega

theorem Receiver.work_recvData {r r' : Receiver δ}
    (hr : r.recvData = some r') : r'.work < r.work := by
  obtain ⟨inbox, arriving, bufs, send, op, outlet⟩ := r
  match op, arriving with
  | none, _ => simp [Receiver.recvData] at hr
  | some .waitMetadata, _ => simp [Receiver.recvData] at hr
  | some (.complete _), _ => simp [Receiver.recvData] at hr
  | some (.waitData _), [] => simp [Receiver.recvData] at hr
  | some (.waitData metadata), data :: arriving =>
      cases hr
      simp only [Receiver.work, List.length_cons]
      omega

theorem Receiver.work_advance {r r' : Receiver δ}
    (hr : r.advance = some r') : r'.work < r.work := by
  obtain ⟨inbox, arriving, bufs, send, op, outlet⟩ := r
  match op with
  | none => simp [Receiver.advance] at hr
  | some .waitMetadata => simp [Receiver.advance] at hr
  | some (.waitData _) => simp [Receiver.advance] at hr
  | some (.complete metadata) =>
      rw [Receiver.advance, Option.ite_none_right_eq_some] at hr
      obtain ⟨hdrained, hr⟩ := hr
      cases hr
      have hrefill := Outlet.work_refill hdrained metadata
      cases hlast : metadata.isLast <;>
        simp only [Receiver.work, hrefill, Bool.false_eq_true, if_true,
          if_false] <;> omega

theorem Receiver.work_yieldNext {device : Device} {r r' : Receiver δ}
    (hr : r.yieldNext device = some r') : r'.work < r.work := by
  obtain ⟨outlet, houtlet, rfl⟩ := Option.map_eq_some_iff.mp hr
  have hlt := Outlet.work_yieldNext houtlet
  simp only [Receiver.work]
  omega

theorem Receiver.work_copyNext {device : Device} {r r' : Receiver δ}
    (hr : r.copyNext device = some r') : r'.work < r.work := by
  obtain ⟨outlet, houtlet, rfl⟩ := Option.map_eq_some_iff.mp hr
  have hlt := Outlet.work_copyNext houtlet
  simp only [Receiver.work]
  omega

theorem Receiver.work_publish (r : Receiver δ) (metadata : Metadata δ) :
    (r.publish metadata).work =
      r.work + (2 * metadata.bucketMeta.entries.length + 3) := by
  simp only [Receiver.work, Receiver.publish, List.map_append, List.sum_append,
    List.map_singleton, List.sum_singleton]
  omega

theorem Receiver.work_arrive (r : Receiver δ) (data : List UInt8) :
    (r.arrive data).work = r.work + 1 := by
  simp only [Receiver.work, Receiver.arrive, List.length_append,
    List.length_singleton]
  omega

theorem work_receive {s s' : State δ n} {i : Fin n}
    {f : Receiver δ → Option (Receiver δ)}
    (hf : ∀ {r r' : Receiver δ}, f r = some r' → r'.work < r.work)
    (hs : s.receive i f = some s') : s'.work < s.work := by
  obtain ⟨r, hr, rfl⟩ := Option.map_eq_some_iff.mp hs
  have hlt := hf hr
  have hsum := Transition.sum_update_add (Finset.mem_univ i)
    (fun _ => Receiver.work) s.receivers r
  simp only [State.work]
  omega

omit [Torch δ] in
theorem Broadcast.work_start (bucket : Bool) (metadata : Metadata δ) :
    (start bucket metadata : Broadcast δ n).work =
      2 * (n * metadata.bucketMeta.entries.length) + (5 * n + 1) := by
  simp only [work, start, Bool.false_eq_true, if_false, Finset.sum_const,
    Finset.card_univ, Fintype.card_fin, smul_eq_mul]
  ring

theorem Sender.work_pack {s : Sender δ n} (hphase : s.phase = .packing)
    (hturn : s.packing.turn c.bucketSize = .pack) : s.pack.work < s.work := by
  obtain ⟨hweights, hentries⟩ := Packing.lengths_pack hturn (s.bufs s.send)
  have hmeta := Nat.mul_le_mul_left n (Nat.mul_le_mul_left 2 hentries)
  have hsplit : n * (2 * (s.packing.bucketMeta.entries.length + 1)) =
      n * (2 * s.packing.bucketMeta.entries.length) + 2 * n := by ring
  have hflush : flushWork n (s.packing.pack (s.bufs s.send)).1.offset ≤
      5 * n + 2 := by
    rw [flushWork]
    split <;> omega
  simp only [Sender.work, Sender.loopWork, Sender.pack, hphase, ← hweights,
    Nat.add_mul, Nat.one_mul]
  omega

theorem Sender.work_flush {s : Sender δ n} (hphase : s.phase = .packing)
    (hturn : s.packing.turn c.bucketSize = .flush)
    (hfits : ∀ w ∈ s.packing.weights, w.2.nbytes ≤ c.bucketSize) :
    (s.flush c.bucketSize).work < s.work := by
  obtain ⟨⟨weights, entries, offset⟩, bufs, send, op, phase⟩ := s
  simp only at hphase
  subst hphase
  match weights with
  | [] => cases hturn
  | (name, weight) :: weights =>
      have hlt : c.bucketSize < offset + weight.nbytes := by
        by_contra hle
        simp [Packing.turn, hle] at hturn
      have hweight := hfits _ List.mem_cons_self
      have hpos : 0 < offset := by
        simp only at hweight
        omega
      have hfull : flushWork n offset = 5 * n + 2 := if_pos hpos
      have hempty : flushWork n 0 = 0 := rfl
      have hsplit : n * (2 * entries.entries.length) =
          2 * (n * entries.entries.length) := by ring
      have hclear :
          n * (2 * (PyDict.empty : PyDict (TensorMeta δ)).entries.length) =
            0 := rfl
      simp only [Sender.work, Sender.loopWork, Sender.flush, Packing.clear,
        Broadcast.work_start, hfull, hempty, hclear]
      split <;> omega

theorem Sender.work_flushLast {s : Sender δ n} (hphase : s.phase = .packing) :
    s.flushLast.work < s.work := by
  obtain ⟨⟨weights, entries, offset⟩, bufs, send, op, phase⟩ := s
  simp only at hphase
  subst hphase
  have hsplit : n * (2 * entries.entries.length) =
      2 * (n * entries.entries.length) := by ring
  simp only [Sender.work, Sender.loopWork, Sender.flushLast,
    Broadcast.work_start]
  omega

/-- Every step counts the work down. -/
theorem work_step {plan : List (List (String × Tensor δ))} {s s' : State δ n}
    {a : Action n} (h : Invariant c plan s) (hs : step c s a = some s') :
    s'.work < s.work := by
  cases a with
  | pack =>
      simp only [step] at hs
      split at hs <;> cases hs
      rename_i hphase hturn
      exact Nat.add_lt_add_right (Sender.work_pack hphase hturn) _
  | flush =>
      simp only [step] at hs
      split at hs <;> cases hs
      rename_i hphase hturn _
      obtain ⟨k, hsends, -⟩ := h
      have hfollows := hsends.phase
      simp only [hphase] at hfollows
      exact Nat.add_lt_add_right
        (Sender.work_flush hphase hturn hfollows.fits) _
  | flushLast =>
      simp only [step] at hs
      split at hs <;> cases hs
      rename_i hphase _ _
      exact Nat.add_lt_add_right (Sender.work_flushLast hphase) _
  | announce =>
      simp only [step] at hs
      split at hs <;> try cases hs
      rename_i op hop
      rw [Option.ite_none_left_eq_some] at hs
      obtain ⟨hannounced, hs⟩ := hs
      cases hs
      rw [Bool.not_eq_true] at hannounced
      have hsum : ∑ i, ((s.announce op).receivers i).work =
          ∑ i, (s.receivers i).work +
            n * (2 * op.metadata.bucketMeta.entries.length + 3) := by
        have hconst := Finset.sum_const
          (2 * op.metadata.bucketMeta.entries.length + 3)
          (s := (Finset.univ : Finset (Fin n)))
        rw [Finset.card_univ, Fintype.card_fin, smul_eq_mul] at hconst
        rw [← hconst, ← Finset.sum_add_distrib]
        apply Finset.sum_congr rfl
        intro i _
        exact Receiver.work_publish _ _
      have hbefore : s.sender.work = op.work + s.sender.loopWork := by
        rw [Sender.work, hop]
      have hafter : (s.announce op).sender.work =
          ({ op with announced := true } : Broadcast δ n).work +
            s.sender.loopWork := rfl
      simp only [State.work, hsum, hbefore, hafter, Broadcast.work, hannounced,
        if_true, Bool.false_eq_true, if_false]
      omega
  | capture i =>
      simp only [step] at hs
      split at hs <;> try cases hs
      rename_i op hop
      rw [Option.ite_none_right_eq_some] at hs
      obtain ⟨henabled, hs⟩ := hs
      cases hs
      simp only [Bool.and_eq_true, Bool.not_eq_true'] at henabled
      obtain ⟨⟨-, hcaptured⟩, -⟩ := henabled
      have hreceivers := Transition.sum_update_add (Finset.mem_univ i)
        (fun _ => Receiver.work) s.receivers
        ((s.receivers i).arrive (s.sender.bufs op.bucket))
      have hflags := Transition.sum_update_add (Finset.mem_univ i)
        (fun _ captured => if captured then 0 else 2) op.captured true
      simp only [hcaptured, Bool.false_eq_true, if_false, if_true] at hflags
      rw [Receiver.work_arrive] at hreceivers
      have hbefore : s.sender.work = op.work + s.sender.loopWork := by
        rw [Sender.work, hop]
      have hafter : (s.capture op i).sender.work =
          ({ op with captured := update op.captured i true } :
            Broadcast δ n).work + s.sender.loopWork := rfl
      have hreceived : ∑ j, ((s.capture op i).receivers j).work =
          ∑ j, (s.receivers j).work + 1 := by
        change ∑ j, (update s.receivers i _ j).work = _
        omega
      simp only [State.work, hreceived, hbefore, hafter, Broadcast.work]
      omega
  | finish =>
      simp only [step] at hs
      split at hs <;> cases hs
      rename_i hphase hwaited
      simp only [State.work, Sender.work, Sender.loopWork, hphase]
      omega
  | recvMetadata i => exact work_receive Receiver.work_recvMetadata hs
  | recvData i => exact work_receive Receiver.work_recvData hs
  | advance i => exact work_receive Receiver.work_advance hs
  | yieldNext i => exact work_receive Receiver.work_yieldNext hs
  | copyNext i => exact work_receive Receiver.work_copyNext hs

end Work

/-- What receiver `i` has of the weights. -/
def port (c : Config) (i : Fin n) (s : State δ n) : Port δ :=
  (s.receivers i).outlet.port c.device
    ((s.receivers i).bufs (s.receivers i).send)

/-- A bucket that has still to leave for someone, and its buffer. -/
def offered (s : State δ n) (entries : PyDict (TensorMeta δ))
    (buffer : List UInt8) : Prop :=
  ∃ op, s.sender.broadcastOp = some op ∧ op.finished = false ∧
    entries = op.metadata.bucketMeta ∧ buffer = s.sender.bufs op.bucket

/-- The NCCL engine delivers the weights exactly when they are aligned. -/
theorem delivers_iff_aligned (c : Config) (n : Nat)
    {weights : List (String × Tensor δ)}
    (hnodup : (weights.map Prod.fst).Nodup)
    (hfits : ∀ w ∈ weights, w.2.nbytes ≤ c.bucketSize) :
    Delivers (system c weights (n + 1)) (port c) offered c.device c.bucketSize
      weights ↔ Aligned c.bucketSize weights := by
  rw [← legal_iff_aligned hnodup]
  refine (delivers_iff (P := Invariant c (buckets c.bucketSize weights))
    (invariant_initial hfits)
    (fun s a s' hs hs' => ⟨invariant_step hs hs', work_step hs hs'⟩)
    ?_ ?_ ?_).trans
    (and_iff_right fun bucket hbucket => nodup_of_mem_buckets hnodup hbucket)
  · rintro s ⟨k, -, hfollows⟩ i
    obtain ⟨g, m, d, hfollow⟩ := hfollows i
    obtain ⟨handed, shown, later, hserves⟩ := hfollow.serves
    exact ⟨[], _, hserves.shows⟩
  · rintro s ⟨k, hsends, -⟩ entries buffer ⟨op, hop, -, rfl, rfl⟩
    have hcurrent := hsends.broadcastOp
    simp only [hop] at hcurrent
    obtain ⟨j, bucket, -, hbucket, hmetadata, hcontent⟩ := hcurrent
    exact ⟨bucket, List.mem_of_getElem? hbucket, by rw [hmetadata], hcontent⟩
  · intro s hs hraised hend i
    obtain ⟨hdrained, hserves⟩ := drained_of_stuck hs hraised hend i
    exact ⟨_, _, hserves, hdrained, rfl⟩

end BucketBroadcast

end SelfDistillation
