/-
The NIXL checkpoint engine (verl/checkpoint_engine/nixl_checkpoint_engine.py):
`build_topology` and `init_process_group` link trainer 0 and the rollout
workers into a chain, along which each process reads the buffers of the one
before it.
-/
import SelfDistillation.WeightBuckets

namespace SelfDistillation

namespace ChainTransfer

open Torch Chunks WeightBuckets Function

section Topology

/-- What `init_process_group` uses of it; an instance counts as true. -/
structure NixlAgentMetadata where
  agentName : String
deriving DecidableEq, Repr

/-- `xs[start:]` -/
def sliceFrom {α : Type} (xs : List α) (start : Int) : List α :=
  xs.drop (sliceIndex xs.length start)

/-- `xs[start:stop]` -/
def slice {α : Type} (xs : List α) (start stop : Int) : List α :=
  (xs.take (sliceIndex xs.length stop)).drop (sliceIndex xs.length start)

/-- `xs[i]` -/
def item {α : Type} (xs : List α) (i : Int) : Py α :=
  if i + xs.length < 0 then .error .indexError
  else
    match xs[(if i < 0 then i + xs.length else i).toNat]? with
    | some x => .ok x
    | none => .error .indexError

/-- The arguments of a group of workers, one entry for each. -/
structure Kwargs where
  method : List String
  rank : List Int
  worldSize : List Int
  prevAgentMetadata : List (Option NixlAgentMetadata)
  nextAgentMetadata : List (Option NixlAgentMetadata)

def buildTopology (trainerWorldSize rolloutWorldSize : Nat)
    (metadata : List NixlAgentMetadata) : Py (Kwargs × Kwargs) := do
  let first ← item metadata (-rolloutWorldSize)
  let trainerKwargs : Kwargs :=
    { method := List.replicate trainerWorldSize "init_process_group"
      rank := [0] ++ List.replicate (trainerWorldSize - 1) (-1)
      worldSize := List.replicate trainerWorldSize (rolloutWorldSize + 1)
      prevAgentMetadata := List.replicate trainerWorldSize none
      nextAgentMetadata :=
        [some first] ++ List.replicate (trainerWorldSize - 1) none }
  let master ← item metadata 0
  let rolloutKwargs : Kwargs :=
    { method := List.replicate rolloutWorldSize "init_process_group"
      rank := (List.range rolloutWorldSize).map fun i : Nat => (i : Int) + 1
      worldSize := List.replicate rolloutWorldSize (rolloutWorldSize + 1)
      prevAgentMetadata :=
        [some master] ++ (slice metadata (-rolloutWorldSize) (-1)).map some
      nextAgentMetadata :=
        (sliceFrom metadata (-rolloutWorldSize + 1)).map some ++ [none] }
  return (trainerKwargs, rolloutKwargs)

/-- An engine once its group is initialised. -/
structure Engine where
  agent : String
  rank : Int
  worldSize : Int
  prevAgent : Option String
  nextAgent : Option String
deriving DecidableEq, Repr

/-- The assertions on the neighbours, by rank. -/
def checkNeighbours (rank worldSize : Int)
    (prev next : Option NixlAgentMetadata) : Py Unit :=
  if rank < 0 then
    pyAssert (!prev.isSome && !next.isSome)
      s!"rank {rank} should not have prev_agent_metadata or next_agent_metadata"
  else if rank = 0 then
    pyAssert (!prev.isSome && next.isSome)
      s!"rank {rank} should have next_agent_metadata"
  else if rank < worldSize - 1 then
    pyAssert (prev.isSome && next.isSome)
      s!"rank {rank} should have prev_agent_metadata and next_agent_metadata"
  else if rank = worldSize - 1 then
    pyAssert (prev.isSome && !next.isSome)
      s!"rank {rank} should have prev_agent_metadata and not next_agent_metadata"
  else .ok ()

/-- `init_process_group` of the engine whose agent is `agent`. -/
def initProcessGroup (agent : NixlAgentMetadata) (rank worldSize : Int)
    (prev next : Option NixlAgentMetadata) : Py Engine := do
  checkNeighbours rank worldSize prev next
  return {
    agent := agent.agentName
    rank := rank
    worldSize := worldSize
    prevAgent := prev.map NixlAgentMetadata.agentName
    nextAgent := next.map NixlAgentMetadata.agentName }

/-- `assert len(v) == world_size` for each argument. -/
def checkLengths (name : String) (worldSize : Nat) (kwargs : Kwargs) :
    Py Unit := do
  pyAssert (kwargs.method.length == worldSize)
    s!"{name}[method] must have length of {worldSize}"
  pyAssert (kwargs.rank.length == worldSize)
    s!"{name}[rank] must have length of {worldSize}"
  pyAssert (kwargs.worldSize.length == worldSize)
    s!"{name}[world_size] must have length of {worldSize}"
  pyAssert (kwargs.prevAgentMetadata.length == worldSize)
    s!"{name}[prev_agent_metadata] must have length of {worldSize}"
  pyAssert (kwargs.nextAgentMetadata.length == worldSize)
    s!"{name}[next_agent_metadata] must have length of {worldSize}"

/-- `init_process_group` on every worker of a group. -/
def initGroup (agents : List NixlAgentMetadata) (kwargs : Kwargs) :
    Py (List Engine) :=
  (agents.zip (kwargs.rank.zip (kwargs.worldSize.zip
    (kwargs.prevAgentMetadata.zip kwargs.nextAgentMetadata)))).mapM
    fun (agent, rank, worldSize, prev, next) =>
      initProcessGroup agent rank worldSize prev next

/-- `build_process_group`: the engines of the trainers and of the rollout
workers. -/
def buildProcessGroup (trainerWorldSize rolloutWorldSize : Nat)
    (metadata : List NixlAgentMetadata) :
    Py (List Engine × List Engine) := do
  let (trainerKwargs, rolloutKwargs) ←
    buildTopology trainerWorldSize rolloutWorldSize metadata
  checkLengths "trainer_kwargs" trainerWorldSize trainerKwargs
  checkLengths "rollout_kwargs" rolloutWorldSize rolloutKwargs
  let trainers ← initGroup (metadata.take trainerWorldSize) trainerKwargs
  let rollouts ← initGroup (metadata.drop trainerWorldSize) rolloutKwargs
  return (trainers, rollouts)

/-- Each engine sends to the one behind it and reads from the one before it;
nothing comes before the first or after the last. -/
structure Linked (chain : List Engine) : Prop where
  adjacent : chain.IsChain fun left right =>
    left.nextAgent = some right.agent ∧ right.prevAgent = some left.agent
  first : ∀ engine, chain.head? = some engine → engine.prevAgent = none
  last : ∀ engine, chain.getLast? = some engine → engine.nextAgent = none

/-- One entry for each process, trainers first. -/
structure World where
  trainerWorldSize : Nat
  rolloutWorldSize : Nat
  metadata : List NixlAgentMetadata
  trainer_pos : 0 < trainerWorldSize
  rollout_pos : 0 < rolloutWorldSize
  length_metadata : metadata.length = trainerWorldSize + rolloutWorldSize

/-- Trainer 0 and the rollout workers are one chain, the other trainers
outside it. -/
def ChainFormed (w : World) : Prop :=
  ∃ master trainers rollouts,
    buildProcessGroup w.trainerWorldSize w.rolloutWorldSize w.metadata =
      .ok (master :: trainers, rollouts) ∧
    rollouts.length = w.rolloutWorldSize ∧
    Linked (master :: rollouts) ∧
    ∀ engine ∈ trainers, engine.prevAgent = none ∧ engine.nextAgent = none

theorem sliceIndex_neg {n k : Nat} (hk : 0 < k) :
    sliceIndex n (-(k : Int)) = n - k := by
  rw [sliceIndex, if_pos (by omega)]
  omega

/-- A list cut in front of its last `back.length` elements. -/
theorem slice_append {α : Type} (front : List α) {back : List α}
    (hback : back ≠ []) :
    slice (front ++ back) (-(back.length : Int)) (-1) = back.dropLast := by
  have hpos := List.length_pos_iff.mpr hback
  have hstop := sliceIndex_neg (n := (front ++ back).length) Nat.one_pos
  rw [Nat.cast_one] at hstop
  rw [slice, sliceIndex_neg hpos, hstop, List.length_append,
    Nat.add_sub_cancel, Nat.add_sub_assoc (by omega), List.take_append,
    List.take_of_length_le (by omega), Nat.add_sub_cancel_left,
    List.drop_left', List.dropLast_eq_take]
  rfl

theorem item_append {α : Type} (front : List α) (x : α) (back : List α) :
    item (front ++ x :: back) (-((x :: back).length : Int)) = .ok x := by
  have hplace : (-((x :: back).length : Int) + (front ++ x :: back).length) =
      (front.length : Int) := by
    rw [List.length_append]
    push_cast
    ring
  have hneg : (-((x :: back).length : Int)) < 0 := by
    rw [List.length_cons]
    omega
  rw [item, hplace, if_neg (by omega), if_pos hneg, Int.toNat_natCast,
    List.getElem?_append_right (Nat.le_refl _), Nat.sub_self]
  rfl

/-- The topology of a master, other trainers and a nonempty list of rollout
workers. -/
theorem buildTopology_eq (master : NixlAgentMetadata)
    (trainers : List NixlAgentMetadata) (worker : NixlAgentMetadata)
    (workers : List NixlAgentMetadata) :
    buildTopology (trainers.length + 1) (workers.length + 1)
        (master :: trainers ++ worker :: workers) =
      .ok ({ method := List.replicate (trainers.length + 1)
               "init_process_group"
             rank := 0 :: List.replicate trainers.length (-1)
             worldSize := List.replicate (trainers.length + 1)
               ((workers.length + 1 : Nat) + 1)
             prevAgentMetadata := List.replicate (trainers.length + 1) none
             nextAgentMetadata :=
               some worker :: List.replicate trainers.length none },
           { method := List.replicate (workers.length + 1)
               "init_process_group"
             rank := (List.range (workers.length + 1)).map
               fun i : Nat => (i : Int) + 1
             worldSize := List.replicate (workers.length + 1)
               ((workers.length + 1 : Nat) + 1)
             prevAgentMetadata :=
               (master :: (worker :: workers).dropLast).map some
             nextAgentMetadata :=
               (if workers = [] then master :: trainers ++ worker :: workers
                else workers).map some ++ [none] }) := by
  have hfirst := item_append (master :: trainers) worker workers
  have hslice := slice_append (master :: trainers)
    (List.cons_ne_nil worker workers)
  rw [List.length_cons] at hfirst hslice
  have hmaster : item (master :: trainers ++ worker :: workers) 0 =
      .ok master := by
    rw [item, if_neg (by omega)]
    rfl
  have hfrom : sliceFrom (master :: trainers ++ worker :: workers)
      (-((workers.length + 1 : Nat) : Int) + 1) =
      if workers = [] then master :: trainers ++ worker :: workers
      else workers := by
    have hindex : (-((workers.length + 1 : Nat) : Int) + 1) =
        -(workers.length : Int) := by
      push_cast
      ring
    rw [sliceFrom, hindex]
    split
    · rename_i hnil
      subst hnil
      rfl
    · rename_i hne
      rw [sliceIndex_neg (List.length_pos_iff.mpr hne)]
      have hsplit : master :: trainers ++ worker :: workers =
          (master :: trainers ++ [worker]) ++ workers := by simp
      rw [hsplit, List.length_append, Nat.add_sub_cancel, List.drop_left']
      rfl
  rw [buildTopology, hfirst, ok_bind, hmaster, ok_bind, hslice, hfrom]
  rfl

/-- The engines of rollout workers from `rank` on, `prev` in front of them. -/
def linkedWorkers (worldSize : Int) (prev : NixlAgentMetadata) (rank : Nat) :
    List NixlAgentMetadata → List Engine
  | [] => []
  | worker :: workers =>
      ⟨worker.agentName, rank, worldSize, some prev.agentName,
        workers.head?.map NixlAgentMetadata.agentName⟩ ::
      linkedWorkers worldSize worker (rank + 1) workers

theorem length_linkedWorkers (worldSize : Int) (prev : NixlAgentMetadata)
    (rank : Nat) (workers : List NixlAgentMetadata) :
    (linkedWorkers worldSize prev rank workers).length = workers.length := by
  induction workers generalizing prev rank with
  | nil => rfl
  | cons worker workers ih => rw [linkedWorkers, List.length_cons, ih]; rfl

theorem initGroup_cons (agent : NixlAgentMetadata)
    (agents : List NixlAgentMetadata) (method : List String)
    (rank worldSize : Int) (ranks worldSizes : List Int)
    (prev next : Option NixlAgentMetadata)
    (prevs nexts : List (Option NixlAgentMetadata)) :
    initGroup (agent :: agents)
        ⟨method, rank :: ranks, worldSize :: worldSizes, prev :: prevs,
          next :: nexts⟩ = (do
      let engine ← initProcessGroup agent rank worldSize prev next
      let engines ← initGroup agents ⟨method, ranks, worldSizes, prevs, nexts⟩
      return engine :: engines) := by
  simp only [initGroup, List.zip_cons_cons, List.mapM_cons]

/-- Worker after worker, each with the one before it as `prev`. -/
theorem initGroup_workers (worldSize : Int) (prev : NixlAgentMetadata)
    (rank : Nat) (worker : NixlAgentMetadata)
    (workers : List NixlAgentMetadata) {n : Nat} (hrank : 0 < rank)
    (hworld : worldSize = rank + workers.length + 1)
    (hn : n = workers.length + 1) (method : List String) :
    initGroup (worker :: workers)
      { method := method
        rank := (List.range' rank n).map fun i : Nat => (i : Int)
        worldSize := List.replicate n worldSize
        prevAgentMetadata := (prev :: (worker :: workers).dropLast).map some
        nextAgentMetadata := workers.map some ++ [none] } =
      .ok (linkedWorkers worldSize prev rank (worker :: workers)) := by
  subst hn
  induction workers generalizing prev rank worker with
  | nil =>
      have hcheck : checkNeighbours rank worldSize (some prev) none =
          .ok () := by
        rw [checkNeighbours, if_neg (by omega), if_neg (by omega),
          if_neg (by simp [hworld]), if_pos (by simp [hworld])]
        rfl
      simp [initGroup, initProcessGroup, hcheck, linkedWorkers, bind,
        Except.bind, pure, Except.pure]
  | cons next workers ih =>
      have hrest := ih worker (rank + 1) next (by omega)
        (by rw [hworld, List.length_cons]; push_cast; ring)
      have hcheck : checkNeighbours rank worldSize (some prev) (some next) =
          .ok () := by
        rw [checkNeighbours, if_neg (by omega), if_neg (by omega),
          if_pos (by rw [hworld, List.length_cons]; push_cast; omega)]
        rfl
      rw [List.length_cons, List.range'_succ, List.replicate_succ,
        List.dropLast_cons_cons, List.map_cons, List.map_cons, List.map_cons,
        List.map_cons, List.cons_append, initGroup_cons, initProcessGroup,
        hcheck, ok_bind, pure_bind]
      rw [← List.map_cons, hrest, ok_bind]
      rfl

theorem linkedWorkers_isChain (worldSize : Int) (prev : NixlAgentMetadata)
    (rank : Nat) (workers : List NixlAgentMetadata) (engine : Engine)
    (hagent : engine.agent = prev.agentName)
    (hnext : engine.nextAgent =
      workers.head?.map NixlAgentMetadata.agentName) :
    (engine :: linkedWorkers worldSize prev rank workers).IsChain
      (fun left right =>
        left.nextAgent = some right.agent ∧
          right.prevAgent = some left.agent) ∧
    ∀ last, (engine :: linkedWorkers worldSize prev rank workers).getLast? =
      some last → last.nextAgent = none := by
  induction workers generalizing prev rank engine with
  | nil =>
      refine ⟨List.isChain_singleton _, fun last hlast => ?_⟩
      cases hlast
      exact hnext
  | cons worker workers ih =>
      obtain ⟨hchain, hend⟩ := ih worker (rank + 1)
        ⟨worker.agentName, rank, worldSize, some prev.agentName,
          workers.head?.map NixlAgentMetadata.agentName⟩ rfl rfl
      refine ⟨.cons_cons ⟨hnext, by rw [hagent]⟩ hchain, fun last hlast => ?_⟩
      rw [linkedWorkers, List.getLast?_cons_cons] at hlast
      exact hend last hlast

theorem checkLengths_ok {name : String} {worldSize : Nat} {kwargs : Kwargs}
    {r : Unit} : checkLengths name worldSize kwargs = .ok r ↔
      kwargs.method.length = worldSize ∧ kwargs.rank.length = worldSize ∧
      kwargs.worldSize.length = worldSize ∧
      kwargs.prevAgentMetadata.length = worldSize ∧
      kwargs.nextAgentMetadata.length = worldSize := by
  simp [checkLengths, bind_eq_ok]

theorem initGroup_trainers (master worker : NixlAgentMetadata)
    (trainers : List NixlAgentMetadata) (worldSize : Int)
    (method : List String) :
    initGroup (master :: trainers)
      { method := method
        rank := 0 :: List.replicate trainers.length (-1)
        worldSize := List.replicate (trainers.length + 1) worldSize
        prevAgentMetadata := List.replicate (trainers.length + 1) none
        nextAgentMetadata :=
          some worker :: List.replicate trainers.length none } =
      .ok (⟨master.agentName, 0, worldSize, none, some worker.agentName⟩ ::
        trainers.map fun trainer =>
          ⟨trainer.agentName, -1, worldSize, none, none⟩) := by
  have hrest : initGroup trainers
      ⟨method, List.replicate trainers.length (-1),
        List.replicate trainers.length worldSize,
        List.replicate trainers.length none,
        List.replicate trainers.length none⟩ =
      .ok (trainers.map fun trainer =>
        ⟨trainer.agentName, -1, worldSize, none, none⟩) := by
    induction trainers with
    | nil => rfl
    | cons trainer trainers ih =>
        rw [List.length_cons, List.replicate_succ, List.replicate_succ,
          List.replicate_succ, initGroup_cons, ih]
        rfl
  rw [List.replicate_succ, List.replicate_succ, initGroup_cons, hrest]
  rfl

/-- The group forms a chain exactly from two rollout workers on: with one,
`metadata[-1 + 1:]` is the whole list. -/
theorem chainFormed_iff (w : World) :
    ChainFormed w ↔ 2 ≤ w.rolloutWorldSize := by
  obtain ⟨trainerWorldSize, rolloutWorldSize, metadata, htrainer, hrollout,
    hlength⟩ := w
  obtain ⟨master, trainers, worker, workers, rfl, rfl, rfl⟩ :
      ∃ master trainers worker workers,
        metadata = master :: trainers ++ worker :: workers ∧
        trainerWorldSize = trainers.length + 1 ∧
        rolloutWorldSize = workers.length + 1 := by
    have hfront : (metadata.take trainerWorldSize).length =
        trainerWorldSize := by
      rw [List.length_take]
      omega
    have hback : (metadata.drop trainerWorldSize).length =
        rolloutWorldSize := by
      rw [List.length_drop]
      omega
    obtain ⟨master, trainers, hmaster⟩ := List.exists_cons_of_length_pos
      (hfront.symm ▸ htrainer)
    obtain ⟨worker, workers, hworker⟩ := List.exists_cons_of_length_pos
      (hback.symm ▸ hrollout)
    refine ⟨master, trainers, worker, workers, ?_, ?_, ?_⟩
    · rw [← hmaster, ← hworker, List.take_append_drop]
    · rw [← hfront, hmaster, List.length_cons]
    · rw [← hback, hworker, List.length_cons]
  simp only [ChainFormed]
  have htake : (master :: trainers ++ worker :: workers).take
      (trainers.length + 1) = master :: trainers :=
    List.take_left' rfl
  have hdrop : (master :: trainers ++ worker :: workers).drop
      (trainers.length + 1) = worker :: workers :=
    List.drop_left' rfl
  constructor
  · rintro ⟨first, others, rollouts, hbuild, -⟩
    rw [buildProcessGroup, buildTopology_eq, ok_bind] at hbuild
    obtain ⟨_, -, hbuild⟩ := bind_eq_ok.mp hbuild
    obtain ⟨_, hcheck, -⟩ := bind_eq_ok.mp hbuild
    obtain ⟨-, -, -, -, hnext⟩ := checkLengths_ok.mp hcheck
    rcases workers with - | ⟨next, workers⟩
    · simp at hnext
    · simp
  · intro htwo
    have hne : workers ≠ [] := by
      rintro rfl
      simp at htwo
    have hranks : (List.range (workers.length + 1)).map
        (fun i : Nat => (i : Int) + 1) =
        (List.range' 1 (workers.length + 1)).map fun i : Nat => (i : Int) := by
      rw [List.range'_eq_map_range, List.map_map]
      apply List.map_congr_left
      intro i _
      simp [Int.add_comm]
    have hworkers := initGroup_workers
      (((workers.length + 1 : Nat) : Int) + 1) master 1 worker workers
      (n := workers.length + 1) Nat.one_pos (by push_cast; ring) rfl
      (List.replicate (workers.length + 1) "init_process_group")
    obtain ⟨hchain, hlast⟩ := linkedWorkers_isChain
      (((workers.length + 1 : Nat) : Int) + 1) master 1 (worker :: workers)
      ⟨master.agentName, 0, ((workers.length + 1 : Nat) : Int) + 1, none,
        some worker.agentName⟩ rfl rfl
    refine ⟨_, trainers.map fun trainer =>
        ⟨trainer.agentName, -1, ((workers.length + 1 : Nat) : Int) + 1, none,
          none⟩, _, ?_, length_linkedWorkers _ master 1 (worker :: workers),
      ⟨hchain, ?_, hlast⟩, ?_⟩
    · rw [buildProcessGroup, buildTopology_eq, ok_bind, if_neg hne, hranks]
      simp only
      rw [htake, hdrop, initGroup_trainers, hworkers]
      simp [checkLengths, pyAssert, bind, Except.bind, pure, Except.pure]
    · intro engine hengine
      cases hengine
      rfl
    · intro engine hengine
      obtain ⟨trainer, -, rfl⟩ := List.mem_map.mp hengine
      exact ⟨rfl, rfl⟩

end Topology

section Transfer

variable {δ : Type} [Torch δ]

/-- The message of a `ReadableOperation`. -/
structure Message (δ : Type) where
  notifyKey : Nat
  remoteDescs : Bool
  metadata : Metadata δ

/-- From one process of the chain to the next: messages forward, and back the
notifications of reads that are complete. -/
structure Link (δ : Type) where
  messages : List (Message δ)
  notifications : List Nat

inductive SendPhase
  | packing
  | last
  | done
  | raised (e : PyErr)

/-- Trainer 0; `bufs send` is its `send_buf`, and `readableOp` the notify key
of the operation it has not waited for. -/
structure Sender (δ : Type) [Torch δ] where
  packing : Packing δ
  bufs : Bool → List UInt8
  send : Bool
  readableOp : Option Nat
  phase : SendPhase

/-- Where a receiver is in its loop: sending the bucket on, waiting for the
metadata of the next one, yielding, or waiting for the read of the next one. -/
inductive ReceivePhase
  | announce
  | readMetadata
  | serve
  | waitRead
  | done
  | raised (e : PyErr)

/-- A rollout worker; `readOp` is the read under way and whether it is
complete. -/
structure Receiver (δ : Type) [Torch δ] where
  bufs : Bool → List UInt8
  send : Bool
  metadata : Option (Metadata δ)
  readableOp : Option Nat
  readOp : Option (Message δ × Bool)
  phase : ReceivePhase
  outlet : Outlet δ

/-- Receiver `i` has rank `i + 1`; link `i` leads to it. -/
structure State (δ : Type) [Torch δ] where
  sender : Sender δ
  receivers : Nat → Receiver δ
  links : Nat → Link δ

structure Config where
  bucketSize : Nat
  device : Device
  /-- `rollout_world_size` -/
  workers : Nat

inductive Action
  | pack
  | waitReadable
  | flush (key : Nat)
  | flushLast (key : Nat)
  | announce (i key : Nat)
  | readMetadata (i : Nat)
  | transfer (i : Nat)
  | yieldNext (i : Nat)
  | copyNext (i : Nat)
  | served (i : Nat)
  | advance (i : Nat)

/-- `wait_for_complete` of a readable operation takes the first notification
and asserts its key. -/
def takeNotification (key : Nat) (notification : Nat) : Py Unit :=
  pyAssert (key == notification)
    s!"Notify key {key} not equal to {notification}"

namespace State

/-- The buffers of the process of a rank. -/
def buffer (s : State δ) : Nat → Bool → List UInt8
  | 0 => s.sender.bufs
  | i + 1 => (s.receivers i).bufs

def setReceiver (s : State δ) (i : Nat) (r : Receiver δ) : State δ :=
  { s with receivers := update s.receivers i r }

def push (s : State δ) (i : Nat) (message : Message δ) : State δ :=
  { s with links := update s.links i { s.links i with
      messages := (s.links i).messages ++ [message] } }

def pack (s : State δ) : State δ :=
  let packed := s.sender.packing.pack (s.sender.bufs s.sender.send)
  { s with sender := { s.sender with
      packing := packed.1
      bufs := update s.sender.bufs s.sender.send packed.2 } }

/-- The notification is taken, and after the last bucket `send_weights`
ends. -/
def senderNotified (s : State δ) (key notification : Nat)
    (rest : List Nat) : State δ where
  sender :=
    match takeNotification key notification with
    | .ok _ => { s.sender with
        readableOp := none
        phase :=
          match s.sender.phase with
          | .last => .done
          | phase => phase }
    | .error e => { s.sender with phase := .raised e }
  receivers := s.receivers
  links := update s.links 0 { s.links 0 with notifications := rest }

def flush (c : Config) (key : Nat) (s : State δ) : State δ :=
  { s.push 0 ⟨key, s.sender.send, ⟨s.sender.packing.bucketMeta, false⟩⟩ with
    sender :=
      { packing := s.sender.packing.clear
        bufs := s.sender.bufs
        send := !s.sender.send
        readableOp := some key
        phase :=
          match s.sender.packing.clear.assertFits c.bucketSize "" with
          | .ok _ => .packing
          | .error e => .raised e } }

def flushLast (key : Nat) (s : State δ) : State δ :=
  { s.push 0 ⟨key, s.sender.send, ⟨s.sender.packing.bucketMeta, true⟩⟩ with
    sender := { s.sender with readableOp := some key, phase := .last } }

/-- The bucket at hand is sent on, unless this is the last worker. -/
def announce (c : Config) (s : State δ) (i key : Nat)
    (metadata : Metadata δ) : State δ :=
  let phase := if metadata.isLast then .serve else .readMetadata
  if i + 1 < c.workers then
    (s.push (i + 1) ⟨key, (s.receivers i).send, metadata⟩).setReceiver i
      { s.receivers i with readableOp := some key, phase := phase }
  else s.setReceiver i { s.receivers i with phase := phase }

/-- `read_metadata` and `begin_read` -/
def readMetadata (s : State δ) (i : Nat) (message : Message δ)
    (rest : List (Message δ)) : State δ where
  sender := s.sender
  receivers := update s.receivers i { s.receivers i with
    readOp := some (message, false)
    phase := .serve }
  links := update s.links i { s.links i with messages := rest }

/-- The read copies the remote buffer as it is now, completes and is
notified. -/
def transfer (s : State δ) (i : Nat) (message : Message δ) : State δ where
  sender := s.sender
  receivers := update s.receivers i { s.receivers i with
    bufs := update (s.receivers i).bufs (!(s.receivers i).send)
      (s.buffer i message.remoteDescs)
    readOp := some (message, true) }
  links := update s.links i { s.links i with
    notifications := (s.links i).notifications ++ [message.notifyKey] }

def setOutlet (s : State δ) (i : Nat) (outlet : Outlet δ) : State δ :=
  s.setReceiver i { s.receivers i with outlet := outlet }

/-- Everything was yielded, and there is no operation to wait for. -/
def served (s : State δ) (i : Nat) : State δ :=
  s.setReceiver i { s.receivers i with
    phase := if (s.receivers i).readOp.isSome then .waitRead else .done }

/-- Everything was yielded, and the next worker has read the bucket. -/
def servedNotified (s : State δ) (i key notification : Nat)
    (rest : List Nat) : State δ where
  sender := s.sender
  receivers := update s.receivers i
    (match takeNotification key notification with
      | .ok _ => { s.receivers i with
          readableOp := none
          phase := if (s.receivers i).readOp.isSome then .waitRead else .done }
      | .error e => { s.receivers i with phase := .raised e })
  links := update s.links (i + 1) { s.links (i + 1) with
    notifications := rest }

/-- The next bucket has been read and the copies are done. -/
def advance (s : State δ) (i : Nat) (message : Message δ) : State δ :=
  s.setReceiver i { s.receivers i with
    send := !(s.receivers i).send
    metadata := some message.metadata
    readOp := none
    phase := .announce
    outlet := (s.receivers i).outlet.refill message.metadata }

end State

/-- A step of a receiver; before its first bucket it has nothing to yield. -/
def receiverStep (c : Config) (s : State δ) : Action → Option (State δ)
  | .announce i key =>
      match (s.receivers i).phase, (s.receivers i).metadata with
      | .announce, some metadata => some (s.announce c i key metadata)
      | _, _ => none
  | .readMetadata i =>
      match (s.receivers i).phase, (s.links i).messages with
      | .readMetadata, message :: rest => some (s.readMetadata i message rest)
      | _, _ => none
  | .transfer i =>
      match (s.receivers i).readOp with
      | some (message, false) => some (s.transfer i message)
      | _ => none
  | .yieldNext i =>
      match (s.receivers i).phase with
      | .serve =>
          ((s.receivers i).outlet.yieldNext c.device
            ((s.receivers i).bufs (s.receivers i).send)).map (s.setOutlet i)
      | _ => none
  | .copyNext i =>
      ((s.receivers i).outlet.copyNext c.device
        ((s.receivers i).bufs (s.receivers i).send)).map (s.setOutlet i)
  | .served i =>
      match (s.receivers i).phase, (s.receivers i).outlet.todo,
        (s.receivers i).outlet.raised with
      | .serve, [], none =>
          match (s.receivers i).readableOp, (s.links (i + 1)).notifications with
          | none, _ => some (s.served i)
          | some key, notification :: rest =>
              some (s.servedNotified i key notification rest)
          | some _, [] => none
      | _, _, _ => none
  | .advance i =>
      match (s.receivers i).phase, (s.receivers i).readOp with
      | .waitRead, some (message, true) =>
          if (s.receivers i).outlet.drained then some (s.advance i message)
          else none
      | _, _ => none
  | _ => none

def Action.inRange (workers : Nat) : Action → Bool
  | .announce i _ | .readMetadata i | .transfer i | .yieldNext i | .copyNext i
  | .served i | .advance i => i < workers
  | _ => true

def step (c : Config) (s : State δ) (a : Action) : Option (State δ) :=
  match a with
  | .pack =>
      match s.sender.phase, s.sender.packing.turn c.bucketSize with
      | .packing, .pack => some s.pack
      | _, _ => none
  | .waitReadable =>
      match s.sender.phase, s.sender.packing.turn c.bucketSize with
      | .packing, .pack => none
      | .packing, _ | .last, _ =>
          match s.sender.readableOp, (s.links 0).notifications with
          | some key, notification :: rest =>
              some (s.senderNotified key notification rest)
          | _, _ => none
      | _, _ => none
  | .flush key =>
      match s.sender.phase, s.sender.packing.turn c.bucketSize,
        s.sender.readableOp with
      | .packing, .flush, none => some (s.flush c key)
      | _, _, _ => none
  | .flushLast key =>
      match s.sender.phase, s.sender.packing.turn c.bucketSize,
        s.sender.readableOp with
      | .packing, .last, none => some (s.flushLast key)
      | _, _, _ => none
  | a => if a.inRange c.workers then receiverStep c s a else none

def initial (c : Config) (weights : List (String × Tensor δ)) : State δ where
  sender :=
    { packing := .start weights
      bufs := fun _ => List.replicate c.bucketSize 0
      send := false
      readableOp := none
      phase := .packing }
  receivers _ :=
    { bufs := fun _ => List.replicate c.bucketSize 0
      send := false
      metadata := none
      readableOp := none
      readOp := none
      phase := .readMetadata
      outlet := .empty }
  links _ := ⟨[], []⟩

def system (c : Config) (weights : List (String × Tensor δ)) :
    Transition.System (State δ) Action where
  initial := initial c weights
  step := step c

/-- All that a step can do. -/
inductive Moves (c : Config) (s : State δ) : State δ → Prop
  | pack (hphase : s.sender.phase = .packing)
      (hturn : s.sender.packing.turn c.bucketSize = .pack) : Moves c s s.pack
  | senderNotified {key notification : Nat} {rest : List Nat}
      (hphase : s.sender.phase = .packing ∨ s.sender.phase = .last)
      (hkey : s.sender.readableOp = some key)
      (hlink : (s.links 0).notifications = notification :: rest) :
      Moves c s (s.senderNotified key notification rest)
  | flush (key : Nat) (hphase : s.sender.phase = .packing)
      (hturn : s.sender.packing.turn c.bucketSize = .flush)
      (hop : s.sender.readableOp = none) : Moves c s (s.flush c key)
  | flushLast (key : Nat) (hphase : s.sender.phase = .packing)
      (hturn : s.sender.packing.turn c.bucketSize = .last)
      (hop : s.sender.readableOp = none) : Moves c s (s.flushLast key)
  | announce {i : Nat} (key : Nat) {metadata : Metadata δ}
      (hi : i < c.workers) (hphase : (s.receivers i).phase = .announce)
      (hmetadata : (s.receivers i).metadata = some metadata) :
      Moves c s (s.announce c i key metadata)
  | readMetadata {i : Nat} {message : Message δ} {rest : List (Message δ)}
      (hi : i < c.workers) (hphase : (s.receivers i).phase = .readMetadata)
      (hlink : (s.links i).messages = message :: rest) :
      Moves c s (s.readMetadata i message rest)
  | transfer {i : Nat} {message : Message δ} (hi : i < c.workers)
      (hop : (s.receivers i).readOp = some (message, false)) :
      Moves c s (s.transfer i message)
  | yieldNext {i : Nat} {outlet : Outlet δ} (hi : i < c.workers)
      (hphase : (s.receivers i).phase = .serve)
      (houtlet : (s.receivers i).outlet.yieldNext c.device
        ((s.receivers i).bufs (s.receivers i).send) = some outlet) :
      Moves c s (s.setOutlet i outlet)
  | copyNext {i : Nat} {outlet : Outlet δ} (hi : i < c.workers)
      (houtlet : (s.receivers i).outlet.copyNext c.device
        ((s.receivers i).bufs (s.receivers i).send) = some outlet) :
      Moves c s (s.setOutlet i outlet)
  | served {i : Nat} (hi : i < c.workers)
      (hphase : (s.receivers i).phase = .serve)
      (htodo : (s.receivers i).outlet.todo = [])
      (hop : (s.receivers i).readableOp = none) : Moves c s (s.served i)
  | servedNotified {i key notification : Nat} {rest : List Nat}
      (hi : i < c.workers) (hphase : (s.receivers i).phase = .serve)
      (htodo : (s.receivers i).outlet.todo = [])
      (hop : (s.receivers i).readableOp = some key)
      (hlink : (s.links (i + 1)).notifications = notification :: rest) :
      Moves c s (s.servedNotified i key notification rest)
  | advance {i : Nat} {message : Message δ} (hi : i < c.workers)
      (hphase : (s.receivers i).phase = .waitRead)
      (hop : (s.receivers i).readOp = some (message, true))
      (hdrained : (s.receivers i).outlet.drained = true) :
      Moves c s (s.advance i message)

theorem moves_of_receiverStep {c : Config} {s s' : State δ} {a : Action}
    (hrange : a.inRange c.workers = true)
    (hs : receiverStep c s a = some s') : Moves c s s' := by
  cases a with
  | announce i key =>
      simp only [receiverStep] at hs
      split at hs <;> cases hs
      rename_i hphase hmetadata
      exact .announce key (by simpa [Action.inRange] using hrange) hphase
        hmetadata
  | readMetadata i =>
      simp only [receiverStep] at hs
      split at hs <;> cases hs
      rename_i hphase hlink
      exact .readMetadata (by simpa [Action.inRange] using hrange) hphase hlink
  | transfer i =>
      simp only [receiverStep] at hs
      split at hs <;> cases hs
      rename_i hop
      exact .transfer (by simpa [Action.inRange] using hrange) hop
  | yieldNext i =>
      simp only [receiverStep] at hs
      split at hs
      · rename_i hphase
        obtain ⟨outlet, houtlet, rfl⟩ := Option.map_eq_some_iff.mp hs
        exact .yieldNext (by simpa [Action.inRange] using hrange) hphase
          houtlet
      · cases hs
  | copyNext i =>
      simp only [receiverStep] at hs
      obtain ⟨outlet, houtlet, rfl⟩ := Option.map_eq_some_iff.mp hs
      exact .copyNext (by simpa [Action.inRange] using hrange) houtlet
  | served i =>
      have hi : i < c.workers := by simpa [Action.inRange] using hrange
      simp only [receiverStep] at hs
      split at hs
      · rename_i hphase htodo hraised
        split at hs <;> cases hs
        · rename_i hop
          exact .served hi hphase htodo hop
        · rename_i hop hlink
          exact .servedNotified hi hphase htodo hop hlink
      · cases hs
  | advance i =>
      simp only [receiverStep] at hs
      split at hs
      · rename_i hphase hop
        obtain ⟨hdrained, hs⟩ := Option.ite_none_right_eq_some.mp hs
        cases hs
        exact .advance (by simpa [Action.inRange] using hrange) hphase hop
          hdrained
      · cases hs
  | pack => simp [receiverStep] at hs
  | waitReadable => simp [receiverStep] at hs
  | flush key => simp [receiverStep] at hs
  | flushLast key => simp [receiverStep] at hs

theorem moves_of_step {c : Config} {s s' : State δ} {a : Action}
    (hs : step c s a = some s') : Moves c s s' := by
  have hreceiver : ∀ {a : Action},
      (if a.inRange c.workers then receiverStep c s a else none) = some s' →
      Moves c s s' := fun h =>
    moves_of_receiverStep (Option.ite_none_right_eq_some.mp h).1
      (Option.ite_none_right_eq_some.mp h).2
  cases a with
  | pack =>
      simp only [step] at hs
      split at hs <;> cases hs
      rename_i hphase hturn
      exact .pack hphase hturn
  | waitReadable =>
      simp only [step] at hs
      split at hs
      · cases hs
      · rename_i hphase _
        split at hs <;> cases hs
        rename_i hkey hlink
        exact .senderNotified (.inl hphase) hkey hlink
      · rename_i hphase
        split at hs <;> cases hs
        rename_i hkey hlink
        exact .senderNotified (.inr hphase) hkey hlink
      · cases hs
  | flush key =>
      simp only [step] at hs
      split at hs <;> cases hs
      rename_i hphase hturn hop
      exact .flush key hphase hturn hop
  | flushLast key =>
      simp only [step] at hs
      split at hs <;> cases hs
      rename_i hphase hturn hop
      exact .flushLast key hphase hturn hop
  | announce i key => exact hreceiver hs
  | readMetadata i => exact hreceiver hs
  | transfer i => exact hreceiver hs
  | yieldNext i => exact hreceiver hs
  | copyNext i => exact hreceiver hs
  | served i => exact hreceiver hs
  | advance i => exact hreceiver hs

section Invariant

variable {c : Config} {plan : List (List (String × Tensor δ))}

namespace State

/-- The operation a process has not waited for, by rank. -/
def readable (s : State δ) : Nat → Option Nat
  | 0 => s.sender.readableOp
  | i + 1 => (s.receivers i).readableOp

/-- The buffer it offers: trainer 0 has swapped its buffers except after the
last bucket. -/
def offerDescs (s : State δ) : Nat → Bool
  | 0 =>
      match s.sender.phase with
      | .packing => !s.sender.send
      | _ => s.sender.send
  | i + 1 => (s.receivers i).send

end State

/-- Buckets read by a receiver that works off the first `g`. -/
def copied (readOp : Option (Message δ × Bool)) (g : Nat) : Nat :=
  match readOp with
  | some (_, true) => g + 1
  | _ => g

def isReading (readOp : Option (Message δ × Bool)) : Bool :=
  match readOp with
  | some (_, false) => true
  | _ => false

/-- Of the `sent` buckets at most the last is on its way: offered in a
message, being read, or read and not waited for. -/
def Link.Carries (plan : List (List (String × Tensor δ))) (link : Link δ)
    (readable : Option Nat) (descs : Bool) (buffer : List UInt8) (sent : Nat)
    (readOp : Option (Message δ × Bool)) (g : Nat) : Prop :=
  match readable with
  | none => link.messages = [] ∧ link.notifications = [] ∧
      copied readOp g = sent ∧ isReading readOp = false
  | some key => ∃ b bucket, sent = b + 1 ∧ plan[b]? = some bucket ∧
      ((link.messages =
            [⟨key, descs, ⟨bucketMeta bucket, b + 1 == plan.length⟩⟩] ∧
          link.notifications = [] ∧ content bucket <+: buffer ∧
          copied readOp g = b ∧ isReading readOp = false) ∨
        (link.messages = [] ∧ link.notifications = [] ∧
          content bucket <+: buffer ∧ g = b ∧ readOp =
            some (⟨key, descs, ⟨bucketMeta bucket, b + 1 == plan.length⟩⟩,
              false)) ∨
        (link.messages = [] ∧ link.notifications = [key] ∧
          copied readOp g = sent ∧ isReading readOp = false))

/-- A receiver works off the first `g` buckets, of which the last is in its
`send_buf`. -/
structure Receiver.Follows (device : Device)
    (plan : List (List (String × Tensor δ))) (hasNext : Prop)
    (r : Receiver δ) (g : Nat) : Prop where
  le_length : g ≤ plan.length
  serves : ∃ handed shown later, r.outlet.Serves device (r.bufs r.send)
    (entries (plan.take g)) handed shown later
  holds : ∀ j bucket, g = j + 1 → plan[j]? = some bucket →
    content bucket <+: r.bufs r.send
  metadata : ∀ metadata, r.metadata = some metadata →
    ∃ j, g = j + 1 ∧ (metadatas plan)[j]? = some metadata
  readOp : ∀ message, r.readOp = some (message, true) → ∃ bucket,
    plan[g]? = some bucket ∧
    message.metadata = ⟨bucketMeta bucket, g + 1 == plan.length⟩ ∧
    content bucket <+: r.bufs (!r.send)
  phase :
    match r.phase with
    | .announce => 0 < g ∧ r.metadata.isSome = true ∧ r.readOp = none ∧
        r.readableOp = none
    | .readMetadata => r.readOp = none ∧ g < plan.length
    | .serve => r.readOp.isSome = decide (g < plan.length)
    | .waitRead => r.readOp.isSome = true ∧ r.readableOp = none ∧
        r.outlet.todo = []
    | .done => g = plan.length ∧ r.readOp = none ∧ r.readableOp = none ∧
        r.outlet.todo = []
    | .raised _ => False
  last : ¬ hasNext → r.readableOp = none

/-- Buckets a receiver has sent on. -/
def Receiver.announced (r : Receiver δ) (g : Nat) : Nat :=
  match r.phase with
  | .announce => g - 1
  | _ => g

/-- Trainer 0 has offered the first `k` buckets. -/
def Sender.Sends (bucketSize : Nat)
    (plan : List (List (String × Tensor δ))) (s : Sender δ) (k : Nat) : Prop :=
  match s.phase with
  | .packing => s.packing.Follows bucketSize (s.bufs s.send) (plan.drop k)
  | .last => k = plan.length ∧ s.readableOp.isSome = true
  | .done => k = plan.length ∧ s.readableOp = none
  | .raised _ => False

namespace State

/-- Buckets the process of a rank has offered. -/
def sent (s : State δ) (k : Nat) (g : Nat → Nat) : Nat → Nat
  | 0 => k
  | i + 1 => (s.receivers i).announced (g i)

def Carried (plan : List (List (String × Tensor δ))) (s : State δ) (k : Nat)
    (g : Nat → Nat) (i : Nat) : Prop :=
  (s.links i).Carries plan (s.readable i) (s.offerDescs i)
    (s.buffer i (s.offerDescs i)) (s.sent k g i) (s.receivers i).readOp (g i)

end State

structure InvariantAt (c : Config) (plan : List (List (String × Tensor δ)))
    (s : State δ) (k : Nat) (g : Nat → Nat) : Prop where
  sends : s.sender.Sends c.bucketSize plan k
  follows : ∀ i < c.workers, (s.receivers i).Follows c.device plan
    (i + 1 < c.workers) (g i)
  carried : ∀ i < c.workers, s.Carried plan k g i

def Invariant (c : Config) (plan : List (List (String × Tensor δ)))
    (s : State δ) : Prop :=
  ∃ k g, InvariantAt c plan s k g

theorem invariant_initial {weights : List (String × Tensor δ)}
    (hfits : ∀ w ∈ weights, w.2.nbytes ≤ c.bucketSize) :
    Invariant c (buckets c.bucketSize weights) (initial c weights) := by
  refine ⟨0, fun _ => 0, Packing.follows_start hfits _, fun i _ => ?_,
    fun i _ => ?_⟩
  · exact ⟨Nat.zero_le _, ⟨[], [], [], Outlet.serves_empty _ _⟩, by simp,
      by simp [initial], by simp [initial],
      ⟨rfl, List.length_pos_iff.mpr (nextFit_ne_nil _ _ _ _)⟩, fun _ => rfl⟩
  · cases i with
    | zero => exact ⟨rfl, rfl, rfl, rfl⟩
    | succ i => exact ⟨rfl, rfl, rfl, rfl⟩

/-- What happens at receiver `i` concerns the links into and out of it. -/
theorem InvariantAt.atReceiver {s s' : State δ} {k : Nat} {g : Nat → Nat}
    (h : InvariantAt c plan s k g) {i n : Nat} (hi : i < c.workers)
    (hsender : s'.sender = s.sender)
    (hreceivers : ∀ j, j ≠ i → s'.receivers j = s.receivers j)
    (hlinks : ∀ j, j ≠ i → j ≠ i + 1 → s'.links j = s.links j)
    (hfollows : (s'.receivers i).Follows c.device plan (i + 1 < c.workers) n)
    (hin : ∀ {readable descs buffer sent},
      readable = s.readable i → descs = s.offerDescs i →
      buffer = s.buffer i descs →
      (s.links i).Carries plan readable descs buffer sent
        (s.receivers i).readOp (g i) →
      (s'.links i).Carries plan readable descs buffer sent
        (s'.receivers i).readOp n)
    (hout : i + 1 < c.workers → ∀ {readOp got},
      (s.links (i + 1)).Carries plan (s.receivers i).readableOp
        (s.receivers i).send ((s.receivers i).bufs (s.receivers i).send)
        ((s.receivers i).announced (g i)) readOp got →
      (s'.links (i + 1)).Carries plan (s'.receivers i).readableOp
        (s'.receivers i).send ((s'.receivers i).bufs (s'.receivers i).send)
        ((s'.receivers i).announced n) readOp got) :
    Invariant c plan s' := by
  refine ⟨k, update g i n, hsender ▸ h.sends, fun j hj => ?_, fun j hj => ?_⟩
  · by_cases hij : j = i
    · subst hij
      rwa [update_self]
    · rw [update_of_ne hij, hreceivers j hij]
      exact h.follows j hj
  have hcarried := h.carried j hj
  by_cases hij : j = i
  · subst hij
    have hnew := hin rfl rfl rfl hcarried
    cases j with
    | zero =>
        simpa only [State.Carried, State.readable, State.offerDescs,
          State.buffer, State.sent, hsender, update_self] using hnew
    | succ j =>
        have hne : j ≠ j + 1 := (Nat.succ_ne_self j).symm
        simpa only [State.Carried, State.readable, State.offerDescs,
          State.buffer, State.sent, hreceivers j hne, update_self,
          update_of_ne hne] using hnew
  by_cases hnext : j = i + 1
  · subst hnext
    have hnew := hout hj hcarried
    simpa only [State.Carried, State.readable, State.offerDescs, State.buffer,
      State.sent, hreceivers (i + 1) hij, update_self, update_of_ne hij]
      using hnew
  cases j with
  | zero =>
      simpa only [State.Carried, State.readable, State.offerDescs,
        State.buffer, State.sent, hsender, hreceivers 0 hij,
        hlinks 0 hij hnext, update_of_ne hij] using hcarried
  | succ j =>
      have hj' : j ≠ i := fun heq => hnext (congrArg (· + 1) heq)
      simpa only [State.Carried, State.readable, State.offerDescs,
        State.buffer, State.sent, hreceivers _ hij, hreceivers j hj',
        hlinks _ hij hnext, update_of_ne hij, update_of_ne hj']
        using hcarried

/-- What happens at trainer 0 concerns the first link. -/
theorem InvariantAt.atSender {s s' : State δ} {k n : Nat} {g : Nat → Nat}
    (h : InvariantAt c plan s k g) (hsends : s'.sender.Sends c.bucketSize plan n)
    (hreceivers : s'.receivers = s.receivers)
    (hlinks : ∀ j, j ≠ 0 → s'.links j = s.links j)
    (hcarried : s'.Carried plan n g 0) : Invariant c plan s' := by
  refine ⟨n, g, hsends, hreceivers ▸ h.follows, fun j hj => ?_⟩
  cases j with
  | zero => exact hcarried
  | succ j =>
      simpa only [State.Carried, State.readable, State.offerDescs,
        State.buffer, State.sent, hreceivers, hlinks (j + 1) (by omega)]
        using h.carried (j + 1) hj

section SenderSteps

variable {s : State δ}

theorem invariant_pack (hworkers : 0 < c.workers) (h : Invariant c plan s)
    (hphase : s.sender.phase = .packing)
    (hturn : s.sender.packing.turn c.bucketSize = .pack) :
    Invariant c plan s.pack := by
  obtain ⟨k, g, h⟩ := h
  have hsends := h.sends
  simp only [Sender.Sends, hphase] at hsends
  refine h.atSender (n := k) ?_ rfl (fun _ _ => rfl) ?_
  · simp only [Sender.Sends, State.pack, hphase, update_self]
    exact hsends.pack hturn
  · have hcarried := h.carried 0 hworkers
    simp only [State.Carried, State.offerDescs, State.buffer, hphase]
      at hcarried
    simp only [State.Carried, State.offerDescs, State.buffer, State.pack,
      hphase, update_of_ne (Bool.not_ne_self s.sender.send)]
    exact hcarried

/-- The only notification under way is the one that is waited for. -/
theorem Link.Carries.notified {link : Link δ} {key notification : Nat}
    {rest : List Nat} {descs : Bool} {buffer : List UInt8} {sent g : Nat}
    {readOp : Option (Message δ × Bool)}
    (h : link.Carries plan (some key) descs buffer sent readOp g)
    (hlink : link.notifications = notification :: rest) :
    notification = key ∧ rest = [] ∧ link.messages = [] ∧
      copied readOp g = sent ∧ isReading readOp = false := by
  obtain ⟨b, bucket, -, -, ⟨-, hnone, -⟩ | ⟨-, hnone, -⟩ |
    ⟨hmessages, hnotifications, hcopied, hreading⟩⟩ := h
  · cases hlink.symm.trans hnone
  · cases hlink.symm.trans hnone
  · cases hlink.symm.trans hnotifications
    exact ⟨rfl, rfl, hmessages, hcopied, hreading⟩

theorem takeNotification_self (key : Nat) :
    takeNotification key key = .ok () := by
  simp [takeNotification, pyAssert]

theorem invariant_senderNotified (hworkers : 0 < c.workers)
    (h : Invariant c plan s) {key notification : Nat} {rest : List Nat}
    (hphase : s.sender.phase = .packing ∨ s.sender.phase = .last)
    (hkey : s.sender.readableOp = some key)
    (hlink : (s.links 0).notifications = notification :: rest) :
    Invariant c plan (s.senderNotified key notification rest) := by
  obtain ⟨k, g, h⟩ := h
  have hsends := h.sends
  have hcarried := h.carried 0 hworkers
  simp only [State.Carried, State.readable, hkey] at hcarried
  obtain ⟨rfl, rfl, hmessages, hcopied, hreading⟩ := hcarried.notified hlink
  refine h.atSender (n := k) ?_ rfl (fun j hj => update_of_ne hj _ _) ?_
  · simp only [State.senderNotified, takeNotification_self]
    rcases hphase with hphase | hphase
    · simpa only [Sender.Sends, hphase] using hsends
    · simp only [Sender.Sends, hphase] at hsends
      simp only [Sender.Sends, hphase]
      exact ⟨hsends.1, trivial⟩
  · simp only [State.Carried, State.readable, State.senderNotified,
      takeNotification_self, update_self]
    exact ⟨hmessages, rfl, hcopied, hreading⟩

theorem invariant_flush (hworkers : 0 < c.workers) (h : Invariant c plan s)
    (key : Nat) (hphase : s.sender.phase = .packing)
    (hturn : s.sender.packing.turn c.bucketSize = .flush)
    (hop : s.sender.readableOp = none) : Invariant c plan (s.flush c key) := by
  obtain ⟨k, g, h⟩ := h
  have hsends := h.sends
  simp only [Sender.Sends, hphase] at hsends
  obtain ⟨bucket, later, hrest, hlater, hentries, hcontent, hassert, hclear⟩ :=
    hsends.flush hturn ""
  have hbucket : plan[k]? = some bucket := by
    rw [← List.head?_drop, hrest, List.head?_cons]
  have hdrop : plan.drop (k + 1) = later := by
    rw [← List.tail_drop, hrest, List.tail_cons]
  have hlast : (k + 1 == plan.length) = false := by
    rw [beq_eq_false_iff_ne]
    intro heq
    rw [heq, List.drop_length] at hdrop
    exact hlater hdrop.symm
  have hcarried := h.carried 0 hworkers
  simp only [State.Carried, State.readable, hop, State.sent] at hcarried
  obtain ⟨hmessages, hnotifications, hcopied, hreading⟩ := hcarried
  refine h.atSender (n := k + 1) ?_ rfl
    (fun j hj => update_of_ne hj _ _) ?_
  · simp only [Sender.Sends, State.flush, hassert, hdrop]
    exact hclear _
  · simp only [State.Carried, State.readable, State.offerDescs, State.buffer,
      State.sent, State.flush, State.push, hassert, update_self,
      Bool.not_not]
    refine ⟨k, bucket, rfl, hbucket, .inl ⟨?_, hnotifications, hcontent,
      hcopied, hreading⟩⟩
    rw [hmessages, hlast, ← hentries]
    rfl

theorem invariant_flushLast (hworkers : 0 < c.workers)
    (h : Invariant c plan s) (key : Nat) (hphase : s.sender.phase = .packing)
    (hturn : s.sender.packing.turn c.bucketSize = .last)
    (hop : s.sender.readableOp = none) :
    Invariant c plan (s.flushLast key) := by
  obtain ⟨k, g, h⟩ := h
  have hsends := h.sends
  simp only [Sender.Sends, hphase] at hsends
  obtain ⟨bucket, hrest, hentries, hcontent⟩ := hsends.last hturn
  have hbucket : plan[k]? = some bucket := by
    rw [← List.head?_drop, hrest, List.head?_cons]
  have hlength : k + 1 = plan.length := by
    have hdrop := congrArg List.length hrest
    rw [List.length_drop, List.length_singleton] at hdrop
    omega
  have hcarried := h.carried 0 hworkers
  simp only [State.Carried, State.readable, hop, State.sent] at hcarried
  obtain ⟨hmessages, hnotifications, hcopied, hreading⟩ := hcarried
  refine h.atSender (n := k + 1) ⟨hlength, rfl⟩ rfl
    (fun j hj => update_of_ne hj _ _) ?_
  simp only [State.Carried, State.readable, State.offerDescs, State.buffer,
    State.sent, State.flushLast, State.push, update_self]
  refine ⟨k, bucket, rfl, hbucket, .inl ⟨?_, hnotifications, hcontent,
    hcopied, hreading⟩⟩
  rw [hmessages, beq_iff_eq.mpr hlength, ← hentries]
  rfl

end SenderSteps

section ReceiverSteps

variable {s : State δ} {i : Nat}

/-- Where a receiver goes after sending a bucket on. -/
def afterAnnounce (isLast : Bool) : ReceivePhase :=
  if isLast then .serve else .readMetadata

theorem Receiver.Follows.announce {device : Device} {hasNext : Prop}
    {r : Receiver δ} {g : Nat} (h : r.Follows device plan hasNext g)
    {metadata : Metadata δ} (hphase : r.phase = .announce)
    (hmetadata : r.metadata = some metadata) {op : Option Nat}
    (hop : ¬ hasNext → op = none) :
    ({ r with readableOp := op, phase := afterAnnounce metadata.isLast } :
      Receiver δ).Follows device plan hasNext g := by
  have hcurrent := h.phase
  simp only [hphase] at hcurrent
  obtain ⟨j, hj, hget⟩ := h.metadata metadata hmetadata
  obtain ⟨bucket, hbucket, rfl⟩ := exists_of_getElem?_metadatas hget
  have hlt := (List.getElem?_eq_some_iff.mp hbucket).1
  refine ⟨h.le_length, h.serves, h.holds, h.metadata, h.readOp, ?_, hop⟩
  cases hlast : j + 1 == plan.length with
  | true =>
      rw [beq_iff_eq] at hlast
      simp only [afterAnnounce, if_true, hcurrent.2.2.1, hj, hlast]
      simp
  | false =>
      rw [beq_eq_false_iff_ne] at hlast
      simp only [afterAnnounce, Bool.false_eq_true, if_false]
      exact ⟨hcurrent.2.2.1, by omega⟩

theorem announced_afterAnnounce (r : Receiver δ) (op : Option Nat)
    (isLast : Bool) (g : Nat) :
    ({ r with readableOp := op, phase := afterAnnounce isLast } :
      Receiver δ).announced g = g := by
  cases isLast <;> rfl

theorem invariant_announce (h : Invariant c plan s) (key : Nat)
    {metadata : Metadata δ} (hi : i < c.workers)
    (hphase : (s.receivers i).phase = .announce)
    (hmetadata : (s.receivers i).metadata = some metadata) :
    Invariant c plan (s.announce c i key metadata) := by
  obtain ⟨k, g, h⟩ := h
  have hfollows := h.follows i hi
  have hcurrent := hfollows.phase
  simp only [hphase] at hcurrent
  obtain ⟨hpos, -, -, hop⟩ := hcurrent
  obtain ⟨j, hj, hget⟩ := hfollows.metadata metadata hmetadata
  obtain ⟨bucket, hbucket, hbucketMeta⟩ := exists_of_getElem?_metadatas hget
  have hcontent := hfollows.holds j bucket hj hbucket
  by_cases hrange : i + 1 < c.workers
  · have hstate : s.announce c i key metadata =
        (s.push (i + 1) ⟨key, (s.receivers i).send, metadata⟩).setReceiver i
          { s.receivers i with
            readableOp := some key
            phase := afterAnnounce metadata.isLast } :=
      if_pos hrange
    rw [hstate]
    refine h.atReceiver (i := i) (n := g i) hi rfl
      (fun j' hj' => update_of_ne hj' _ _)
      (fun j' _ hj' => update_of_ne hj' _ _) ?_ ?_ fun _ => ?_
    · simp only [State.setReceiver, update_self]
      exact hfollows.announce hphase hmetadata fun hnot => absurd hrange hnot
    · intro readable descs buffer sent _ _ _ hin
      simpa only [State.setReceiver, State.push, update_self,
        update_of_ne (Nat.succ_ne_self i).symm] using hin
    · intro readOp got hout
      simp only [hop, Receiver.announced, hphase] at hout
      obtain ⟨hmessages, hnotifications, hcopied, hreading⟩ := hout
      simp only [State.setReceiver, State.push, update_self,
        announced_afterAnnounce]
      refine ⟨j, bucket, hj, hbucket, .inl ⟨?_, hnotifications, hcontent,
        by omega, hreading⟩⟩
      rw [hmessages, hbucketMeta]
      rfl
  · have hstate : s.announce c i key metadata =
        s.setReceiver i { s.receivers i with
          phase := afterAnnounce metadata.isLast } :=
      if_neg hrange
    rw [hstate]
    refine h.atReceiver (i := i) (n := g i) hi rfl
      (fun j' hj' => update_of_ne hj' _ _) (fun _ _ _ => rfl) ?_ ?_
      fun hnot => absurd hnot hrange
    · simp only [State.setReceiver, update_self]
      exact hfollows.announce hphase hmetadata fun _ => hop
    · intro readable descs buffer sent _ _ _ hin
      simpa only [State.setReceiver, update_self] using hin

theorem invariant_readMetadata (h : Invariant c plan s) {message : Message δ}
    {rest : List (Message δ)} (hi : i < c.workers)
    (hphase : (s.receivers i).phase = .readMetadata)
    (hlink : (s.links i).messages = message :: rest) :
    Invariant c plan (s.readMetadata i message rest) := by
  obtain ⟨k, g, h⟩ := h
  have hfollows := h.follows i hi
  have hcurrent := hfollows.phase
  simp only [hphase] at hcurrent
  obtain ⟨hread, hlt⟩ := hcurrent
  refine h.atReceiver (i := i) (n := g i) hi rfl
    (fun j' hj' => update_of_ne hj' _ _)
    (fun j' hj' _ => update_of_ne hj' _ _) ?_ ?_ fun _ => ?_
  · simp only [State.readMetadata, update_self]
    refine ⟨hfollows.le_length, hfollows.serves, hfollows.holds,
      hfollows.metadata, ?_, by simp [hlt], hfollows.last⟩
    intro message' hmessage
    simp at hmessage
  · intro readable descs buffer sent _ _ _ hin
    simp only [State.readMetadata, update_self]
    cases readable with
    | none => cases hlink.symm.trans hin.1
    | some key =>
        obtain ⟨b, bucket, hsent, hbucket, ⟨hmessages, hnotifications,
          hcontent, hcopied, -⟩ | ⟨hnone, -⟩ | ⟨hnone, -⟩⟩ := hin
        · cases hlink.symm.trans hmessages
          rw [hread] at hcopied
          exact ⟨b, bucket, hsent, hbucket, .inr (.inl ⟨rfl, hnotifications,
            hcontent, hcopied, rfl⟩)⟩
        · cases hlink.symm.trans hnone
        · cases hlink.symm.trans hnone
  · intro readOp got hout
    simpa only [State.readMetadata, update_self, Receiver.announced, hphase,
      update_of_ne (Nat.succ_ne_self i)] using hout

theorem invariant_transfer (h : Invariant c plan s) {message : Message δ}
    (hi : i < c.workers)
    (hop : (s.receivers i).readOp = some (message, false)) :
    Invariant c plan (s.transfer i message) := by
  obtain ⟨k, g, h⟩ := h
  have hfollows := h.follows i hi
  have hother : (!(s.receivers i).send) ≠ (s.receivers i).send :=
    Bool.not_ne_self _
  -- the read under way is the one that is offered
  obtain ⟨key, bucket, hreadable, hbucket, hmessage, hcontent⟩ :
      ∃ key bucket, s.readable i = some key ∧ plan[g i]? = some bucket ∧
        message = ⟨key, s.offerDescs i,
          ⟨bucketMeta bucket, g i + 1 == plan.length⟩⟩ ∧
        content bucket <+: s.buffer i (s.offerDescs i) := by
    have hcarried := h.carried i hi
    rw [State.Carried, hop] at hcarried
    cases hreadable : s.readable i with
    | none => simp [hreadable, Link.Carries, isReading] at hcarried
    | some key =>
        rw [hreadable] at hcarried
        obtain ⟨b, bucket, -, hbucket, ⟨-, -, -, -, hreading⟩ |
          ⟨-, -, hcontent, rfl, hmessage⟩ | ⟨-, -, -, hreading⟩⟩ := hcarried
        · cases hreading
        · cases hmessage
          exact ⟨key, bucket, rfl, hbucket, rfl, hcontent⟩
        · cases hreading
  subst hmessage
  refine h.atReceiver (i := i) (n := g i) hi rfl
    (fun j' hj' => update_of_ne hj' _ _)
    (fun j' hj' _ => update_of_ne hj' _ _) ?_ ?_ fun _ => ?_
  · simp only [State.transfer, update_self]
    refine ⟨hfollows.le_length, ?_, ?_, hfollows.metadata, ?_, ?_,
      hfollows.last⟩
    · simpa only [update_of_ne hother.symm] using hfollows.serves
    · simpa only [update_of_ne hother.symm] using hfollows.holds
    · intro message hmessage
      cases hmessage
      exact ⟨bucket, hbucket, rfl, by simpa only [update_self] using hcontent⟩
    · have hphase := hfollows.phase
      cases hcurrent : (s.receivers i).phase <;>
        simp only [hcurrent, hop, reduceCtorEq, false_and, and_false,
          Option.isSome_some] at hphase ⊢ <;> exact hphase
  · intro readable descs buffer sent hreadable' _ _ hin
    rw [hreadable', hreadable, hop] at hin
    rw [hreadable', hreadable]
    simp only [State.transfer, update_self]
    obtain ⟨b, bucket', hsent, hbucket', ⟨-, -, -, -, hreading⟩ |
      ⟨hmessages, hnotifications, -, hb, -⟩ | ⟨-, -, -, hreading⟩⟩ := hin
    · cases hreading
    · refine ⟨b, bucket', hsent, hbucket', .inr (.inr ⟨hmessages, ?_, ?_,
        rfl⟩)⟩
      · rw [hnotifications]
        rfl
      · rw [hsent, ← hb]
        rfl
    · cases hreading
  · intro readOp got hout
    simp only [State.transfer, update_self,
      update_of_ne (Nat.succ_ne_self i), update_of_ne hother.symm]
    exact hout

/-- Yielding and copying. -/
theorem invariant_setOutlet (h : Invariant c plan s) (hi : i < c.workers)
    {outlet : Outlet δ}
    (htodo : (s.receivers i).phase = .serve ∨
      outlet.todo = (s.receivers i).outlet.todo)
    (hserves : ∀ {given handed shown later},
      (s.receivers i).outlet.Serves c.device
        ((s.receivers i).bufs (s.receivers i).send) given handed shown later →
      ∃ handed shown later, outlet.Serves c.device
        ((s.receivers i).bufs (s.receivers i).send) given handed shown later) :
    Invariant c plan (s.setOutlet i outlet) := by
  obtain ⟨k, g, h⟩ := h
  have hfollows := h.follows i hi
  refine h.atReceiver (i := i) (n := g i) hi rfl
    (fun j' hj' => update_of_ne hj' _ _) (fun _ _ _ => rfl) ?_ ?_
    fun _ => ?_
  · simp only [State.setOutlet, State.setReceiver, update_self]
    obtain ⟨_, _, _, hcurrent⟩ := hfollows.serves
    refine ⟨hfollows.le_length, hserves hcurrent, hfollows.holds,
      hfollows.metadata, hfollows.readOp, ?_, hfollows.last⟩
    have hphase := hfollows.phase
    rcases htodo with hserve | htodo
    · simpa only [hserve] using hphase
    · cases hcurrent : (s.receivers i).phase with
      | raised e => simp only [hcurrent] at hphase
      | _ => simpa only [hcurrent, htodo] using hphase
  · intro readable descs buffer sent _ _ _ hin
    simpa only [State.setOutlet, State.setReceiver, update_self] using hin
  · intro readOp got hout
    simp only [State.setOutlet, State.setReceiver, update_self]
    exact hout

/-- Where a receiver goes after yielding a bucket. -/
theorem Receiver.Follows.served {device : Device} {hasNext : Prop}
    {r : Receiver δ} {g : Nat} (h : r.Follows device plan hasNext g)
    (hphase : r.phase = .serve) (htodo : r.outlet.todo = []) :
    ({ r with
        readableOp := none
        phase := if r.readOp.isSome then .waitRead else .done } :
      Receiver δ).Follows device plan hasNext g := by
  have hcurrent := h.phase
  simp only [hphase] at hcurrent
  refine ⟨h.le_length, h.serves, h.holds, h.metadata, h.readOp, ?_,
    fun _ => rfl⟩
  have hle := h.le_length
  cases hop : r.readOp with
  | some op =>
      simp only [Option.isSome_some, if_true]
      exact ⟨trivial, trivial, htodo⟩
  | none =>
      rw [hop, Option.isSome_none, eq_comm, decide_eq_false_iff_not] at hcurrent
      simp only [Option.isSome_none, Bool.false_eq_true, if_false]
      exact ⟨by omega, trivial, trivial, htodo⟩

theorem announced_served (r : Receiver δ) (g : Nat) :
    ({ r with
        readableOp := none
        phase := if r.readOp.isSome then .waitRead else .done } :
      Receiver δ).announced g = g := by
  cases hop : r.readOp.isSome <;> simp [Receiver.announced]

theorem invariant_served (h : Invariant c plan s) (hi : i < c.workers)
    (hphase : (s.receivers i).phase = .serve)
    (htodo : (s.receivers i).outlet.todo = [])
    (hop : (s.receivers i).readableOp = none) :
    Invariant c plan (s.served i) := by
  obtain ⟨k, g, h⟩ := h
  have hstate : s.served i = s.setReceiver i { s.receivers i with
      readableOp := none
      phase := if (s.receivers i).readOp.isSome then .waitRead
        else .done } := by
    rw [State.served]
    congr 1
    rw [← hop]
  rw [hstate]
  refine h.atReceiver (i := i) (n := g i) hi rfl
    (fun j' hj' => update_of_ne hj' _ _) (fun _ _ _ => rfl) ?_ ?_
    fun _ => ?_
  · simp only [State.setReceiver, update_self]
    exact (h.follows i hi).served hphase htodo
  · intro readable descs buffer sent _ _ _ hin
    simpa only [State.setReceiver, update_self] using hin
  · intro readOp got hout
    simp only [hop, Receiver.announced, hphase] at hout
    simp only [State.setReceiver, update_self, announced_served]
    exact hout

theorem invariant_servedNotified (h : Invariant c plan s)
    {key notification : Nat} {rest : List Nat} (hi : i < c.workers)
    (hphase : (s.receivers i).phase = .serve)
    (htodo : (s.receivers i).outlet.todo = [])
    (hop : (s.receivers i).readableOp = some key)
    (hlink : (s.links (i + 1)).notifications = notification :: rest) :
    Invariant c plan (s.servedNotified i key notification rest) := by
  obtain ⟨k, g, h⟩ := h
  have hfollows := h.follows i hi
  have hrange : i + 1 < c.workers := by
    by_contra hnot
    cases (hfollows.last hnot).symm.trans hop
  have hcarried := h.carried (i + 1) hrange
  simp only [State.Carried, State.readable, hop] at hcarried
  obtain ⟨rfl, rfl, -⟩ := hcarried.notified hlink
  refine h.atReceiver (i := i) (n := g i) hi rfl
    (fun j' hj' => update_of_ne hj' _ _)
    (fun j' _ hj' => update_of_ne hj' _ _) ?_ ?_ fun _ => ?_
  · simp only [State.servedNotified, takeNotification_self, update_self]
    exact hfollows.served hphase htodo
  · intro readable descs buffer sent _ _ _ hin
    simpa only [State.servedNotified, takeNotification_self, update_self,
      update_of_ne (Nat.succ_ne_self i).symm] using hin
  · intro readOp got hout
    simp only [hop, Receiver.announced, hphase] at hout
    obtain ⟨-, -, hmessages, hcopied, hreading⟩ := hout.notified hlink
    simp only [State.servedNotified, takeNotification_self, update_self,
      announced_served]
    exact ⟨hmessages, rfl, hcopied, hreading⟩

theorem invariant_advance (h : Invariant c plan s) {message : Message δ}
    (hi : i < c.workers) (hphase : (s.receivers i).phase = .waitRead)
    (hop : (s.receivers i).readOp = some (message, true))
    (hdrained : (s.receivers i).outlet.drained = true) :
    Invariant c plan (s.advance i message) := by
  obtain ⟨k, g, h⟩ := h
  have hfollows := h.follows i hi
  have hcurrent := hfollows.phase
  simp only [hphase] at hcurrent
  obtain ⟨-, hreadable, -⟩ := hcurrent
  obtain ⟨bucket, hbucket, hmetadata, hcontent⟩ := hfollows.readOp message hop
  obtain ⟨handed, shown, later, hserves⟩ := hfollows.serves
  have hlt := (List.getElem?_eq_some_iff.mp hbucket).1
  refine h.atReceiver (i := i) (n := g i + 1) hi rfl
    (fun j' hj' => update_of_ne hj' _ _) (fun _ _ _ => rfl) ?_ ?_
    fun _ => ?_
  · simp only [State.advance, State.setReceiver, update_self, hmetadata]
    refine ⟨hlt, ?_, ?_, ?_, by simp,
      ⟨Nat.succ_pos _, rfl, rfl, hreadable⟩, fun _ => hreadable⟩
    · rw [entries_take_succ hbucket]
      exact ⟨_, _, _, hserves.refill hdrained hcontent _⟩
    · intro j bucket' hj hbucket'
      obtain rfl : g i = j := Nat.succ_injective hj
      cases hbucket.symm.trans hbucket'
      exact hcontent
    · intro metadata hsome
      cases hsome
      exact ⟨g i, rfl, getElem?_metadatas hbucket⟩
  · intro readable descs buffer sent _ _ _ hin
    rw [hop] at hin
    simp only [State.advance, State.setReceiver, update_self]
    cases readable with
    | none =>
        obtain ⟨hmessages, hnotifications, hcopied, -⟩ := hin
        exact ⟨hmessages, hnotifications, hcopied, rfl⟩
    | some key =>
        obtain ⟨b, bucket', hsent, hbucket', ⟨hmessages, hnotifications,
          hcontent', hcopied, -⟩ | ⟨-, -, -, -, hcontra⟩ | ⟨hmessages,
          hnotifications, hcopied, -⟩⟩ := hin
        · exact ⟨b, bucket', hsent, hbucket', .inl ⟨hmessages,
            hnotifications, hcontent', hcopied, rfl⟩⟩
        · cases hcontra
        · exact ⟨b, bucket', hsent, hbucket', .inr (.inr ⟨hmessages,
            hnotifications, hcopied, rfl⟩)⟩
  · intro readOp got hout
    simp only [hreadable, Receiver.announced, hphase] at hout
    simp only [State.advance, State.setReceiver, update_self, hreadable,
      Receiver.announced, Nat.add_sub_cancel]
    exact hout

theorem copyNext_todo {device : Device} {buffer : List UInt8}
    {o o' : Outlet δ} (h : o.copyNext device buffer = some o') :
    o'.todo = o.todo := by
  obtain ⟨todo, pending, received, raised⟩ := o
  match pending with
  | [] => simp [Outlet.copyNext] at h
  | (name, entry) :: pending =>
      cases hload : WeightBuckets.load device buffer entry with
      | error err => simp [Outlet.copyNext, hload] at h
      | ok tensor =>
          simp only [Outlet.copyNext, hload, Option.some.injEq] at h
          rw [← h]

/-- What every step keeps. -/
theorem invariant_moves {s' : State δ} (hworkers : 0 < c.workers)
    (h : Invariant c plan s) (hs : Moves c s s') : Invariant c plan s' := by
  cases hs with
  | pack hphase hturn => exact invariant_pack hworkers h hphase hturn
  | senderNotified hphase hkey hlink =>
      exact invariant_senderNotified hworkers h hphase hkey hlink
  | flush key hphase hturn hop =>
      exact invariant_flush hworkers h key hphase hturn hop
  | flushLast key hphase hturn hop =>
      exact invariant_flushLast hworkers h key hphase hturn hop
  | announce key hi hphase hmetadata =>
      exact invariant_announce h key hi hphase hmetadata
  | readMetadata hi hphase hlink => exact invariant_readMetadata h hi hphase hlink
  | transfer hi hop => exact invariant_transfer h hi hop
  | yieldNext hi hphase houtlet =>
      refine invariant_setOutlet h hi (.inl hphase) fun hserves => ?_
      obtain ⟨shown, later, hserves'⟩ := hserves.yieldNext houtlet
      exact ⟨_, shown, later, hserves'⟩
  | copyNext hi houtlet =>
      refine invariant_setOutlet h hi (.inr (copyNext_todo houtlet))
        fun hserves => ?_
      obtain ⟨handed, shown, hserves'⟩ := hserves.copyNext houtlet
      exact ⟨handed, shown, _, hserves'⟩
  | served hi hphase htodo hop => exact invariant_served h hi hphase htodo hop
  | servedNotified hi hphase htodo hop hlink =>
      exact invariant_servedNotified h hi hphase htodo hop hlink
  | advance hi hphase hop hdrained =>
      exact invariant_advance h hi hphase hop hdrained

end ReceiverSteps

end Invariant

section Progress

variable {c : Config} {plan : List (List (String × Tensor δ))} {s : State δ}
  {k : Nat} {g : Nat → Nat}

/-- Nothing of a link waits to be read. -/
def Settled (s : State δ) (i : Nat) : Prop :=
  ∀ key, s.readable i = some key → (s.links i).notifications ≠ []

theorem drained_of_stuck (h : InvariantAt c plan s k g) {i : Nat}
    (hi : i < c.workers) (hraised : (s.receivers i).outlet.raised = none)
    (hphase : (s.receivers i).phase = .serve ∨
      (s.receivers i).outlet.todo = [])
    (hstuck : ∀ a, step c s a = none) :
    (s.receivers i).outlet.drained = true := by
  obtain ⟨handed, shown, later, hserves⟩ := (h.follows i hi).serves
  have hcopy := hstuck (.copyNext i)
  simp only [step, Action.inRange, hi, decide_true, if_true, receiverStep,
    Option.map_eq_none_iff] at hcopy
  rcases hphase with hserve | htodo
  · have hyield := hstuck (.yieldNext i)
    simp only [step, Action.inRange, hi, decide_true, if_true, receiverStep,
      hserve, Option.map_eq_none_iff] at hyield
    exact hserves.drained_of_stuck hraised hyield hcopy
  · refine hserves.drained_of_stuck hraised ?_ hcopy
    simp [Outlet.yieldNext, hraised, htodo]

/-- A receiver that cannot go on is done or waits for a message, if the link
behind it is settled. -/
theorem receiver_of_stuck (h : InvariantAt c plan s k g) {i : Nat}
    (hi : i < c.workers) (hraised : (s.receivers i).outlet.raised = none)
    (hnext : i + 1 < c.workers → Settled s (i + 1))
    (hstuck : ∀ a, step c s a = none) :
    (s.receivers i).phase = .done ∨
      (s.receivers i).phase = .readMetadata ∧ (s.links i).messages = [] := by
  have hfollows := h.follows i hi
  have hphase := hfollows.phase
  cases hcurrent : (s.receivers i).phase with
  | done => exact .inl rfl
  | raised e => simp only [hcurrent] at hphase
  | announce =>
      simp only [hcurrent] at hphase
      obtain ⟨metadata, hmetadata⟩ := Option.isSome_iff_exists.mp hphase.2.1
      have hannounce := hstuck (.announce i 0)
      simp [step, Action.inRange, hi, receiverStep, hcurrent, hmetadata]
        at hannounce
  | readMetadata =>
      refine .inr ⟨rfl, ?_⟩
      have hread := hstuck (.readMetadata i)
      cases hlink : (s.links i).messages with
      | nil => rfl
      | cons message rest =>
          simp [step, Action.inRange, hi, receiverStep, hcurrent, hlink]
            at hread
  | serve =>
      have hdrained := drained_of_stuck h hi hraised (.inl hcurrent) hstuck
      obtain ⟨-, htodo, -⟩ := Outlet.drained_iff.mp hdrained
      have hserved := hstuck (.served i)
      cases hop : (s.receivers i).readableOp with
      | none =>
          simp [step, Action.inRange, hi, receiverStep, hcurrent, htodo,
            hraised, hop] at hserved
      | some key =>
          have hrange : i + 1 < c.workers := by
            by_contra hnot
            cases (hfollows.last hnot).symm.trans hop
          obtain ⟨notification, rest, hlink⟩ :=
            List.exists_cons_of_ne_nil (hnext hrange key hop)
          simp [step, Action.inRange, hi, receiverStep, hcurrent, htodo,
            hraised, hop, hlink] at hserved
  | waitRead =>
      simp only [hcurrent] at hphase
      obtain ⟨⟨message, complete⟩, hop⟩ :=
        Option.isSome_iff_exists.mp hphase.1
      cases complete with
      | false =>
          have htransfer := hstuck (.transfer i)
          simp [step, Action.inRange, hi, receiverStep, hop] at htransfer
      | true =>
          have hdrained := drained_of_stuck h hi hraised (.inr hphase.2.2)
            hstuck
          have hadvance := hstuck (.advance i)
          simp [step, Action.inRange, hi, receiverStep, hcurrent, hop,
            hdrained] at hadvance

theorem settled_of_next (h : InvariantAt c plan s k g)
    (hraised : ∀ i < c.workers, (s.receivers i).outlet.raised = none)
    (hstuck : ∀ a, step c s a = none) {i : Nat} (hi : i < c.workers)
    (hnext : i + 1 < c.workers → Settled s (i + 1)) : Settled s i := by
  intro key hkey
  have hcarried := h.carried i hi
  rw [State.Carried, hkey] at hcarried
  obtain ⟨b, bucket, hsent, hbucket, ⟨hmessages, -, -, hcopied, -⟩ |
    ⟨-, -, -, -, hop⟩ | ⟨-, hnotifications, -⟩⟩ := hcarried
  · rcases receiver_of_stuck h hi (hraised i hi) hnext hstuck with
      hdone | ⟨-, hnone⟩
    · have hphase := (h.follows i hi).phase
      simp only [hdone] at hphase
      rw [hphase.2.1] at hcopied
      have hlt := (List.getElem?_eq_some_iff.mp hbucket).1
      have hg : g i = b := hcopied
      omega
    · cases hnone.symm.trans hmessages
  · have htransfer := hstuck (.transfer i)
    simp [step, Action.inRange, hi, receiverStep, hop] at htransfer
  · rw [hnotifications]
    exact List.cons_ne_nil _ _

/-- From the last worker backwards, every offered bucket has been read. -/
theorem settled_of_stuck (h : InvariantAt c plan s k g)
    (hraised : ∀ i < c.workers, (s.receivers i).outlet.raised = none)
    (hstuck : ∀ a, step c s a = none) (d : Nat) {i : Nat}
    (hd : i + d + 1 = c.workers) : Settled s i := by
  induction d generalizing i with
  | zero =>
      exact settled_of_next h hraised hstuck (by omega)
        fun hnot => absurd hnot (by omega)
  | succ d ih =>
      exact settled_of_next h hraised hstuck (by omega)
        fun _ => ih (by omega)

theorem sender_of_stuck (h : InvariantAt c plan s k g)
    (hsettled : Settled s 0) (hstuck : ∀ a, step c s a = none) :
    k = plan.length := by
  have hsends := h.sends
  have hwait := hstuck .waitReadable
  cases hphase : s.sender.phase with
  | packing =>
      have hpack := hstuck .pack
      have hflush := hstuck (.flush 0)
      have hlast := hstuck (.flushLast 0)
      cases hop : s.sender.readableOp with
      | none =>
          cases hturn : s.sender.packing.turn c.bucketSize with
          | pack => simp [step, hphase, hturn] at hpack
          | flush => simp [step, hphase, hturn, hop] at hflush
          | last => simp [step, hphase, hturn, hop] at hlast
      | some key =>
          obtain ⟨notification, rest, hlink⟩ :=
            List.exists_cons_of_ne_nil (hsettled key hop)
          cases hturn : s.sender.packing.turn c.bucketSize with
          | pack => simp [step, hphase, hturn] at hpack
          | flush => simp [step, hphase, hturn, hop, hlink] at hwait
          | last => simp [step, hphase, hturn, hop, hlink] at hwait
  | last =>
      simp only [Sender.Sends, hphase] at hsends
      exact hsends.1
  | done =>
      simp only [Sender.Sends, hphase] at hsends
      exact hsends.1
  | raised e => simp only [Sender.Sends, hphase] at hsends

/-- A run in which no view was illegal ends with every worker done. -/
theorem done_of_stuck (h : InvariantAt c plan s k g)
    (hraised : ∀ i < c.workers, (s.receivers i).outlet.raised = none)
    (hstuck : ∀ a, step c s a = none) {i : Nat} (hi : i < c.workers) :
    (s.receivers i).phase = .done := by
  have hsettled : ∀ j < c.workers, Settled s j := fun j hj =>
    settled_of_stuck h hraised hstuck (c.workers - 1 - j) (by omega)
  -- a worker all buckets were sent to is done
  have hreach : ∀ j < c.workers, s.sent k g j = plan.length →
      (s.receivers j).phase = .done := by
    intro j hj hsent
    rcases receiver_of_stuck h hj (hraised j hj) (hsettled (j + 1)) hstuck with
      hdone | ⟨hphase, -⟩
    · exact hdone
    have hcurrent := (h.follows j hj).phase
    simp only [hphase] at hcurrent
    obtain ⟨hread, hlt⟩ := hcurrent
    have hcarried := h.carried j hj
    rw [State.Carried, hsent, hread] at hcarried
    cases hkey : s.readable j with
    | none =>
        rw [hkey] at hcarried
        have hcopied : g j = plan.length := hcarried.2.2.1
        omega
    | some key =>
        obtain ⟨notification, rest, hlink⟩ :=
          List.exists_cons_of_ne_nil (hsettled j hj key hkey)
        rw [hkey] at hcarried
        have hcopied : g j = plan.length := (hcarried.notified hlink).2.2.2.1
        omega
  induction i with
  | zero =>
      exact hreach 0 hi (sender_of_stuck h (hsettled 0 hi) hstuck)
  | succ i ih =>
      have hdone := ih (by omega)
      have hphase := (h.follows i (by omega)).phase
      simp only [hdone] at hphase
      refine hreach (i + 1) hi ?_
      rw [State.sent, Receiver.announced, hdone, hphase.1]

end Progress

section Work

variable {c : Config} {plan : List (List (String × Tensor δ))} {s s' : State δ}

/-- The steps a bucket of `n` entries leads to at the next `d` workers. -/
def forwardWork (d n : Nat) : Nat := d * (2 * n + 7)

theorem forwardWork_succ (d n : Nat) :
    forwardWork (d + 1) n = 2 * n + 7 + forwardWork d n := by
  rw [forwardWork, Nat.succ_mul, Nat.add_comm, forwardWork]

def Metadata.size (metadata : Metadata δ) : Nat :=
  metadata.bucketMeta.entries.length

/-- Of a receiver with `d` workers behind it. -/
def Receiver.work (d : Nat) (r : Receiver δ) : Nat :=
  (match r.phase with
    | .announce => 3 + (match r.metadata with
        | some metadata => forwardWork d (Metadata.size metadata)
        | none => 0)
    | .readMetadata => 2
    | .serve => 1
    | .waitRead | .done | .raised _ => 0) +
  (match r.readOp with
    | some (message, false) =>
        forwardWork d (Metadata.size message.metadata) +
          2 * Metadata.size message.metadata + 6
    | some (message, true) =>
        forwardWork d (Metadata.size message.metadata) +
          2 * Metadata.size message.metadata + 4
    | none => 0) + r.outlet.work

/-- Of a link with `d` workers at its end. -/
def Link.work (d : Nat) (link : Link δ) : Nat :=
  (link.messages.map fun message =>
    forwardWork d (Metadata.size message.metadata)).sum +
  link.notifications.length

/-- A bucket with something in it can be flushed. -/
def flushWork (workers offset : Nat) : Nat :=
  if 0 < offset then 7 * workers + 1 else 0

def Sender.work (workers : Nat) (s : Sender δ) : Nat :=
  match s.phase with
  | .packing => s.packing.weights.length * (9 * workers + 2) +
      workers * (2 * s.packing.bucketMeta.entries.length) +
      flushWork workers s.packing.offset + (7 * workers + 2)
  | .last => 1
  | .done | .raised _ => 0

/-- The steps a state can still lead to are at most this many. -/
def State.work (c : Config) (s : State δ) : Nat :=
  s.sender.work c.workers +
  ∑ i ∈ Finset.range c.workers, (s.receivers i).work (c.workers - 1 - i) +
  ∑ i ∈ Finset.range c.workers, (s.links i).work (c.workers - i)

theorem Sender.work_pack {sender : Sender δ} {n : Nat} {bufs send op}
    {bucketSize : Nat} (hphase : sender.phase = .packing)
    (hturn : sender.packing.turn bucketSize = .pack) (buffer : List UInt8) :
    ({ packing := (sender.packing.pack buffer).1, bufs := bufs, send := send,
       readableOp := op, phase := sender.phase } : Sender δ).work n <
      sender.work n := by
  obtain ⟨hweights, hentries⟩ := Packing.lengths_pack hturn buffer
  have hmeta := Nat.mul_le_mul_left n (Nat.mul_le_mul_left 2 hentries)
  have hsplit : n * (2 * (sender.packing.bucketMeta.entries.length + 1)) =
      n * (2 * sender.packing.bucketMeta.entries.length) + 2 * n := by ring
  have hflush : flushWork n (sender.packing.pack buffer).1.offset ≤
      7 * n + 1 := by
    rw [flushWork]
    split <;> omega
  simp only [Sender.work, hphase, ← hweights, Nat.add_mul, Nat.one_mul]
  omega

/-- One more message on a link. -/
theorem work_push (s : State δ) {i : Nat} (hi : i < c.workers)
    (message : Message δ) :
    ∑ j ∈ Finset.range c.workers,
        ((s.push i message).links j).work (c.workers - j) =
      ∑ j ∈ Finset.range c.workers, (s.links j).work (c.workers - j) +
        forwardWork (c.workers - i) (Metadata.size message.metadata) := by
  have hsum := Transition.sum_update_add (Finset.mem_range.mpr hi)
    (fun j => Link.work (c.workers - j)) s.links { s.links i with
      messages := (s.links i).messages ++ [message] }
  simp only [Link.work, List.map_append, List.sum_append, List.map_singleton,
    List.sum_singleton] at hsum
  simp only [State.push, Link.work]
  omega

theorem work_flush (hworkers : 0 < c.workers) {key : Nat}
    (hphase : s.sender.phase = .packing)
    (hturn : s.sender.packing.turn c.bucketSize = .flush)
    (hfits : ∀ w ∈ s.sender.packing.weights, w.2.nbytes ≤ c.bucketSize) :
    (s.flush c key).work c < s.work c := by
  have hpush := work_push s hworkers
    ⟨key, s.sender.send, ⟨s.sender.packing.bucketMeta, false⟩⟩
  have hlt : (s.flush c key).sender.work c.workers +
      forwardWork c.workers s.sender.packing.bucketMeta.entries.length <
      s.sender.work c.workers := by
    obtain ⟨⟨⟨weights, entries, offset⟩, bufs, send, op, phase⟩, receivers,
      links⟩ := s
    simp only at hphase
    subst hphase
    match weights with
    | [] => cases hturn
    | (name, weight) :: weights =>
        have hlt : c.bucketSize < offset + weight.nbytes := by
          by_contra hle
          simp [Packing.turn, hle] at hturn
        have hweight := hfits _ List.mem_cons_self
        have hpos : 0 < offset := by
          simp only at hweight
          omega
        have hfull : flushWork c.workers offset = 7 * c.workers + 1 :=
          if_pos hpos
        have hempty : flushWork c.workers 0 = 0 := rfl
        have hforward : forwardWork c.workers entries.entries.length =
            c.workers * (2 * entries.entries.length) + 7 * c.workers := by
          rw [forwardWork]
          ring
        have hclear : c.workers *
            (2 * (PyDict.empty : PyDict (TensorMeta δ)).entries.length) = 0 :=
          rfl
        simp only [State.flush, Sender.work, Packing.clear, hfull, hempty,
          hforward, hclear]
        split <;> omega
  simp only [State.work]
  change (s.flush c key).sender.work c.workers +
    ∑ i ∈ Finset.range c.workers, (s.receivers i).work (c.workers - 1 - i) +
    ∑ j ∈ Finset.range c.workers, ((s.push 0 _).links j).work (c.workers - j) <
    _
  rw [hpush]
  simp only [Metadata.size, Nat.sub_zero]
  omega

theorem work_flushLast (hworkers : 0 < c.workers) {key : Nat}
    (hphase : s.sender.phase = .packing) :
    (s.flushLast key).work c < s.work c := by
  have hpush := work_push s hworkers
    ⟨key, s.sender.send, ⟨s.sender.packing.bucketMeta, true⟩⟩
  have hforward : forwardWork c.workers
      s.sender.packing.bucketMeta.entries.length =
      c.workers * (2 * s.sender.packing.bucketMeta.entries.length) +
        7 * c.workers := by
    rw [forwardWork]
    ring
  simp only [State.work]
  change (s.flushLast key).sender.work c.workers +
    ∑ i ∈ Finset.range c.workers, (s.receivers i).work (c.workers - 1 - i) +
    ∑ j ∈ Finset.range c.workers, ((s.push 0 _).links j).work (c.workers - j) <
    _
  rw [hpush]
  simp only [Metadata.size, Nat.sub_zero, hforward, Sender.work, hphase,
    State.flushLast]
  omega

theorem work_setReceiver (s : State δ) {i : Nat} (hi : i < c.workers)
    (r : Receiver δ) :
    (s.setReceiver i r).work c + (s.receivers i).work (c.workers - 1 - i) =
      s.work c + r.work (c.workers - 1 - i) := by
  have hsum := Transition.sum_update_add (Finset.mem_range.mpr hi)
    (fun j => Receiver.work (c.workers - 1 - j)) s.receivers r
  simp only [State.work, State.setReceiver]
  omega

theorem work_setLink (s : State δ) {i : Nat} (hi : i < c.workers)
    (link : Link δ) :
    ({ s with links := update s.links i link } : State δ).work c +
        (s.links i).work (c.workers - i) =
      s.work c + link.work (c.workers - i) := by
  have hsum := Transition.sum_update_add (Finset.mem_range.mpr hi)
    (fun j => Link.work (c.workers - j)) s.links link
  simp only [State.work]
  omega

theorem work_takeNotification (s : State δ) {i : Nat} (hi : i < c.workers)
    {notification : Nat} {rest : List Nat}
    (hlink : (s.links i).notifications = notification :: rest) :
    (State.mk s.sender s.receivers
      (update s.links i ⟨(s.links i).messages, rest⟩)).work c + 1 =
      s.work c := by
  have hlinks := work_setLink s hi ⟨(s.links i).messages, rest⟩
  simp only [Link.work, hlink, List.length_cons] at hlinks
  omega

theorem work_lt_of_setReceiver (s : State δ) {i : Nat} (hi : i < c.workers)
    {r : Receiver δ}
    (hless : r.work (c.workers - 1 - i) <
      (s.receivers i).work (c.workers - 1 - i)) :
    (s.setReceiver i r).work c < s.work c := by
  have hset := work_setReceiver s hi r
  omega

/-- A bucket sent on is paid for by the receiver that had it. -/
theorem work_lt_of_push (s : State δ) {i : Nat} (hrange : i + 1 < c.workers)
    (message : Message δ) {r : Receiver δ}
    (hless : r.work (c.workers - 1 - i) +
      forwardWork (c.workers - 1 - i) (Metadata.size message.metadata) <
      (s.receivers i).work (c.workers - 1 - i)) :
    ((s.push (i + 1) message).setReceiver i r).work c < s.work c := by
  have hpush : (s.push (i + 1) message).work c = s.work c +
      forwardWork (c.workers - 1 - i) (Metadata.size message.metadata) := by
    have hlink := work_push s hrange message
    have hdepth : c.workers - (i + 1) = c.workers - 1 - i := by omega
    rw [State.work, hlink, State.work, hdepth, ← Nat.add_assoc]
    rfl
  have hset := work_setReceiver (s.push (i + 1) message)
    (Nat.lt_of_succ_lt hrange) r
  have hsame : (s.push (i + 1) message).receivers = s.receivers := rfl
  rw [hpush, hsame] at hset
  omega

theorem Receiver.work_announce {r : Receiver δ} {metadata : Metadata δ}
    (hphase : r.phase = .announce) (hmetadata : r.metadata = some metadata)
    (op : Option Nat) (d : Nat) :
    ({ r with readableOp := op, phase := afterAnnounce metadata.isLast } :
      Receiver δ).work d + forwardWork d (Metadata.size metadata) <
      r.work d := by
  cases hlast : metadata.isLast <;>
    simp only [Receiver.work, hphase, hmetadata, afterAnnounce, if_true,
      if_false, Bool.false_eq_true] <;> omega

theorem work_announce {i key : Nat} {metadata : Metadata δ}
    (hi : i < c.workers) (hphase : (s.receivers i).phase = .announce)
    (hmetadata : (s.receivers i).metadata = some metadata) :
    (s.announce c i key metadata).work c < s.work c := by
  by_cases hrange : i + 1 < c.workers
  · rw [State.announce, if_pos hrange]
    exact work_lt_of_push s hrange _
      (Receiver.work_announce hphase hmetadata (some key) _)
  · rw [State.announce, if_neg hrange]
    refine work_lt_of_setReceiver s hi (Nat.lt_of_le_of_lt ?_
      (Receiver.work_announce hphase hmetadata (s.receivers i).readableOp _))
    exact Nat.le_add_right _ _

theorem work_readMetadata {i : Nat} {message : Message δ}
    {rest : List (Message δ)} (hi : i < c.workers)
    (hphase : (s.receivers i).phase = .readMetadata)
    (hread : (s.receivers i).readOp = none)
    (hlink : (s.links i).messages = message :: rest) :
    (s.readMetadata i message rest).work c < s.work c := by
  have hset := work_setReceiver s hi { s.receivers i with
    readOp := some (message, false)
    phase := .serve }
  have hlinks := work_setLink (s.setReceiver i { s.receivers i with
    readOp := some (message, false)
    phase := .serve }) hi { s.links i with messages := rest }
  have hdepth : c.workers - i = c.workers - 1 - i + 1 := by omega
  have hforward := forwardWork_succ (c.workers - 1 - i)
    (Metadata.size message.metadata)
  change (s.readMetadata i message rest).work c +
    (s.links i).work (c.workers - i) = _ at hlinks
  simp only [Receiver.work, hphase, hread] at hset
  simp only [Link.work, hlink, List.map_cons, List.sum_cons, hdepth, hforward]
    at hlinks
  omega

theorem work_transfer {i : Nat} {message : Message δ} (hi : i < c.workers)
    (hop : (s.receivers i).readOp = some (message, false)) :
    (s.transfer i message).work c < s.work c := by
  have hset := work_setReceiver s hi { s.receivers i with
    bufs := update (s.receivers i).bufs (!(s.receivers i).send)
      (s.buffer i message.remoteDescs)
    readOp := some (message, true) }
  have hlinks := work_setLink (s.setReceiver i { s.receivers i with
    bufs := update (s.receivers i).bufs (!(s.receivers i).send)
      (s.buffer i message.remoteDescs)
    readOp := some (message, true) }) hi { s.links i with
      notifications := (s.links i).notifications ++ [message.notifyKey] }
  change (s.transfer i message).work c +
    (s.links i).work (c.workers - i) = _ at hlinks
  simp only [Receiver.work, hop] at hset
  simp only [Link.work, List.length_append, List.length_singleton] at hlinks
  omega

theorem work_setOutlet {i : Nat} {outlet : Outlet δ} (hi : i < c.workers)
    (houtlet : outlet.work < (s.receivers i).outlet.work) :
    (s.setOutlet i outlet).work c < s.work c :=
  work_lt_of_setReceiver s hi (Nat.add_lt_add_left houtlet _)

theorem Receiver.work_served {r : Receiver δ} (hphase : r.phase = .serve)
    (op : Option Nat) (d : Nat) :
    ({ r with
        readableOp := op
        phase := if r.readOp.isSome then .waitRead else .done } :
      Receiver δ).work d < r.work d := by
  cases hop : r.readOp.isSome <;>
    simp only [Receiver.work, hphase, if_true, if_false,
      Bool.false_eq_true] <;> omega

theorem work_served {i : Nat} (hi : i < c.workers)
    (hphase : (s.receivers i).phase = .serve) :
    (s.served i).work c < s.work c :=
  work_lt_of_setReceiver s hi
    (Receiver.work_served hphase (s.receivers i).readableOp _)

theorem work_servedNotified {i key notification : Nat} {rest : List Nat}
    (hi : i < c.workers) (hnext : i + 1 < c.workers)
    (hphase : (s.receivers i).phase = .serve)
    (hlink : (s.links (i + 1)).notifications = notification :: rest) :
    (s.servedNotified i key notification rest).work c < s.work c := by
  obtain ⟨r, hless, hstate⟩ : ∃ r : Receiver δ,
      r.work (c.workers - 1 - i) <
        (s.receivers i).work (c.workers - 1 - i) ∧
      s.servedNotified i key notification rest =
        State.mk s.sender (s.setReceiver i r).receivers
          (update s.links (i + 1) ⟨(s.links (i + 1)).messages, rest⟩) := by
    cases htake : takeNotification key notification with
    | error e =>
        refine ⟨{ s.receivers i with phase := .raised e }, ?_, ?_⟩
        · simp only [Receiver.work, hphase]
          omega
        · rw [State.servedNotified, htake]
          rfl
    | ok _ =>
        refine ⟨_, Receiver.work_served hphase none _, ?_⟩
        rw [State.servedNotified, htake]
        rfl
  have hset := work_lt_of_setReceiver s hi hless
  have hlinks := work_takeNotification (s.setReceiver i r) hnext hlink
  rw [hstate]
  exact Nat.lt_trans (Nat.lt_of_succ_le (Nat.le_of_eq hlinks)) hset

theorem work_advance {i : Nat} {message : Message δ} (hi : i < c.workers)
    (hphase : (s.receivers i).phase = .waitRead)
    (hop : (s.receivers i).readOp = some (message, true))
    (hdrained : (s.receivers i).outlet.drained = true) :
    (s.advance i message).work c < s.work c := by
  refine work_lt_of_setReceiver s hi ?_
  have hrefill := Outlet.work_refill hdrained message.metadata
  simp only [Receiver.work, hphase, hop, hrefill, Metadata.size]
  omega

theorem work_senderNotified (hworkers : 0 < c.workers)
    {key notification : Nat} {rest : List Nat}
    (hphase : s.sender.phase = .packing ∨ s.sender.phase = .last)
    (hlink : (s.links 0).notifications = notification :: rest) :
    (s.senderNotified key notification rest).work c < s.work c := by
  have hlinks := work_takeNotification s hworkers hlink
  have hsender : (s.senderNotified key notification rest).sender.work
      c.workers ≤ s.sender.work c.workers := by
    cases htake : takeNotification key notification with
    | error e =>
        simp only [State.senderNotified, htake, Sender.work]
        exact Nat.zero_le _
    | ok _ =>
        rcases hphase with hphase | hphase <;>
          simp only [State.senderNotified, htake, Sender.work, hphase]
        · exact Nat.le_refl _
        · exact Nat.zero_le _
  refine Nat.lt_of_le_of_lt (Nat.add_le_add_right (Nat.add_le_add_right
    hsender _) _) (Nat.lt_of_succ_le (Nat.le_of_eq hlinks))

/-- Every step counts the work down. -/
theorem work_moves (hworkers : 0 < c.workers) (h : Invariant c plan s)
    (hs : Moves c s s') : s'.work c < s.work c := by
  cases hs with
  | pack hphase hturn =>
      exact Nat.add_lt_add_right (Nat.add_lt_add_right
        (Sender.work_pack hphase hturn _) _) _
  | senderNotified hphase hkey hlink =>
      exact work_senderNotified hworkers hphase hlink
  | flush key hphase hturn hop =>
      obtain ⟨k, g, h⟩ := h
      have hsends := h.sends
      simp only [Sender.Sends, hphase] at hsends
      exact work_flush hworkers hphase hturn hsends.fits
  | flushLast key hphase hturn hop => exact work_flushLast hworkers hphase
  | announce key hi hphase hmetadata => exact work_announce hi hphase hmetadata
  | readMetadata hi hphase hlink =>
      obtain ⟨k, g, h⟩ := h
      have hcurrent := (h.follows _ hi).phase
      simp only [hphase] at hcurrent
      exact work_readMetadata hi hphase hcurrent.1 hlink
  | transfer hi hop => exact work_transfer hi hop
  | yieldNext hi hphase houtlet =>
      exact work_setOutlet hi (Outlet.work_yieldNext houtlet)
  | copyNext hi houtlet =>
      exact work_setOutlet hi (Outlet.work_copyNext houtlet)
  | served hi hphase htodo hop => exact work_served hi hphase
  | @servedNotified i key notification rest hi hphase htodo hop hlink =>
      obtain ⟨k, g, h⟩ := h
      have hnext : i + 1 < c.workers := by
        by_contra hnot
        cases ((h.follows i hi).last hnot).symm.trans hop
      exact work_servedNotified hi hnext hphase hlink
  | advance hi hphase hop hdrained =>
      exact work_advance hi hphase hop hdrained

end Work

/-- What worker `i` has of the weights. -/
def port (c : Config) (i : Fin c.workers) (s : State δ) : Port δ :=
  (s.receivers i).outlet.port c.device
    ((s.receivers i).bufs (s.receivers i).send)

/-- A bucket that the next worker has still to read, and its buffer. -/
def offered (c : Config) (s : State δ) (entries : PyDict (TensorMeta δ))
    (buffer : List UInt8) : Prop :=
  ∃ i < c.workers, ∃ message : Message δ,
    (message ∈ (s.links i).messages ∨
      (s.receivers i).readOp = some (message, false)) ∧
    entries = message.metadata.bucketMeta ∧
    buffer = s.buffer i message.remoteDescs

theorem offered_holds {c : Config} {plan : List (List (String × Tensor δ))}
    {s : State δ} (h : Invariant c plan s) {entries : PyDict (TensorMeta δ)}
    {buffer : List UInt8} (hoffered : offered c s entries buffer) :
    ∃ bucket ∈ plan, entries = bucketMeta bucket ∧
      content bucket <+: buffer := by
  obtain ⟨i, hi, message, hmessage, rfl, rfl⟩ := hoffered
  obtain ⟨k, g, h⟩ := h
  have hcarried := h.carried i hi
  rw [State.Carried] at hcarried
  cases hkey : s.readable i with
  | none =>
      rw [hkey] at hcarried
      obtain ⟨hmessages, -, -, hreading⟩ := hcarried
      rcases hmessage with hmem | hop
      · rw [hmessages] at hmem
        cases hmem
      · rw [hop] at hreading
        cases hreading
  | some key =>
      rw [hkey] at hcarried
      obtain ⟨b, bucket, -, hbucket, ⟨hmessages, -, hcontent, -, hreading⟩ |
        ⟨hmessages, -, hcontent, -, hread⟩ | ⟨hmessages, -, -, hreading⟩⟩ :=
        hcarried
      · rcases hmessage with hmem | hop
        · rw [hmessages, List.mem_singleton] at hmem
          subst hmem
          exact ⟨bucket, List.mem_of_getElem? hbucket, rfl, hcontent⟩
        · rw [hop] at hreading
          cases hreading
      · rcases hmessage with hmem | hop
        · rw [hmessages] at hmem
          cases hmem
        · cases hread.symm.trans hop
          exact ⟨bucket, List.mem_of_getElem? hbucket, rfl, hcontent⟩
      · rcases hmessage with hmem | hop
        · rw [hmessages] at hmem
          cases hmem
        · rw [hop] at hreading
          cases hreading

/-- Weights of one item size start at multiples of it. -/
theorem dvd_offset_of_mem_placed {size offset : Nat}
    {bucket : List (String × Tensor δ)}
    (huniform : ∀ w ∈ bucket, itemsize w.2.dtype = size)
    (hoffset : size ∣ offset) :
    ∀ e ∈ placed offset bucket, e.2.Legal := by
  induction bucket generalizing offset with
  | nil => simp [placed]
  | cons w bucket ih =>
      obtain ⟨hw, hbucket⟩ := List.forall_mem_cons.mp huniform
      rw [placed, List.forall_mem_cons]
      refine ⟨?_, ih hbucket (Nat.dvd_add hoffset ?_)⟩
      · rw [Placement.Legal, hw]
        exact hoffset
      · rw [Tensor.nbytes, w.2.length_bytes, hw]
        exact Nat.dvd_mul_right _ _

/-- Along a chain of any length weights of one item size are delivered exactly
when no bucket has a name twice. -/
theorem delivers_iff_nodup (c : Config) (hworkers : 0 < c.workers)
    {weights : List (String × Tensor δ)} {size : Nat}
    (huniform : ∀ w ∈ weights, itemsize w.2.dtype = size)
    (hfits : ∀ w ∈ weights, w.2.nbytes ≤ c.bucketSize) :
    Delivers (system c weights) (port c) (offered c) c.device c.bucketSize
      weights ↔ ∀ bucket ∈ buckets c.bucketSize weights,
        (bucket.map Prod.fst).Nodup := by
  have hlegal : ∀ e ∈ entries (buckets c.bucketSize weights), e.2.Legal := by
    intro e he
    obtain ⟨bucket, hbucket, he⟩ := List.mem_flatMap.mp he
    refine dvd_offset_of_mem_placed (fun w hw => huniform w ?_)
      (Nat.dvd_zero size) e (mem_placed_of_mem_placements he)
    rw [← flatten_buckets c.bucketSize weights]
    exact List.mem_flatten_of_mem hbucket hw
  have hnonempty : Nonempty (Fin c.workers) := ⟨⟨0, hworkers⟩⟩
  refine (delivers_iff (P := Invariant c (buckets c.bucketSize weights))
    (invariant_initial hfits)
    (fun s a s' hs hs' => ⟨invariant_moves hworkers hs (moves_of_step hs'),
      work_moves hworkers hs (moves_of_step hs')⟩)
    ?_ (fun s hs _ _ => offered_holds hs) ?_).trans
    (and_iff_left hlegal)
  · rintro s ⟨k, g, h⟩ i
    obtain ⟨handed, shown, later, hserves⟩ := (h.follows i i.isLt).serves
    exact ⟨[], _, hserves.shows⟩
  · rintro s ⟨k, g, h⟩ hraised hend i
    have hnone : ∀ j < c.workers, (s.receivers j).outlet.raised = none :=
      fun j hj => hraised ⟨j, hj⟩
    have hfollows := h.follows i i.isLt
    have hdone := done_of_stuck h hnone hend i.isLt
    have hphase := hfollows.phase
    simp only [hdone] at hphase
    obtain ⟨handed, shown, later, hserves⟩ := hfollows.serves
    rw [hphase.1, List.take_length] at hserves
    exact ⟨_, _, ⟨handed, shown, later, hserves⟩,
      drained_of_stuck h i.isLt (hnone i i.isLt) (.inr hphase.2.2.2) hend,
      rfl⟩

/-- Weights of one item size, each small enough for a bucket. -/
structure UniformWeights (δ : Type) [Torch δ] (bucketSize : Nat) where
  weights : List (String × Tensor δ)
  size : Nat
  uniform : ∀ w ∈ weights, itemsize w.2.dtype = size
  fits : ∀ w ∈ weights, w.2.nbytes ≤ bucketSize

/-- The workers of the world, each holding two buffers of `bucketSize`. -/
def World.config (w : World) (bucketSize : Nat) (device : Device) : Config where
  bucketSize := bucketSize
  device := device
  workers := w.rolloutWorldSize

end Transfer

end ChainTransfer

open WeightBuckets ChainTransfer

/-- The chain is formed and delivers the weights to every worker exactly when
there are two rollout workers at least and no bucket has a name twice. -/
theorem chainTransfer_reachesEveryWorker_iff {δ : Type} [Torch δ] (w : World)
    (bucketSize : Nat) (device : Device)
    (u : UniformWeights δ bucketSize) :
    ChainFormed w ∧
        Delivers (ChainTransfer.system (w.config bucketSize device) u.weights)
          (ChainTransfer.port (w.config bucketSize device))
          (ChainTransfer.offered (w.config bucketSize device)) device
          bucketSize u.weights ↔
      2 ≤ w.rolloutWorldSize ∧ ∀ bucket ∈ buckets bucketSize u.weights,
        (bucket.map Prod.fst).Nodup :=
  and_congr (chainFormed_iff w)
    (ChainTransfer.delivers_iff_nodup (w.config bucketSize device)
      w.rollout_pos u.uniform u.fits)

/-- One trainer and one rollout worker. -/
def trainerAndWorker : World where
  trainerWorldSize := 1
  rolloutWorldSize := 1
  metadata := [⟨"trainer"⟩, ⟨"worker"⟩]
  trainer_pos := Nat.one_pos
  rollout_pos := Nat.one_pos
  length_metadata := rfl

/-- For a single rollout worker `metadata[-1 + 1:]` is the whole list, so no
chain is formed. -/
theorem chainTransfer_singleWorker :
    buildProcessGroup trainerAndWorker.trainerWorldSize
        trainerAndWorker.rolloutWorldSize trainerAndWorker.metadata =
      .error (.assertionError
        "rollout_kwargs[next_agent_metadata] must have length of 1") ∧
    ¬ ChainFormed trainerAndWorker := by
  refine ⟨rfl, fun hformed => ?_⟩
  have htwo := (chainFormed_iff trainerAndWorker).mp hformed
  exact absurd htwo (by decide)

end SelfDistillation
