/-
The replay pool of SAC training, which may be saved and loaded into a pool of
another capacity (verl/experimental/vla/sac/replay_pool.py).
-/
import SelfDistillation.Python
import SelfDistillation.Library.Gather
import SelfDistillation.Library.RingBuffer
import SelfDistillation.Library.Transition

namespace SelfDistillation

namespace ReplayPool

open RingBuffer Gather

variable {α : Type}

/-- A row is a transition; all keys of the pool are written and read at the same
slots. -/
structure SACReplayPool (α : Type) where
  pool : Option (List α)
  capacity : Nat
  size : Nat
  position : Nat
deriving DecidableEq, Repr

/-- What `save` writes. -/
structure SavedPool (α : Type) where
  pool : List α
  size : Nat
  capacity : Nat
  position : Nat
deriving DecidableEq, Repr

namespace SACReplayPool

/-- `SACReplayPool(capacity)` -/
def init (capacity : Nat) : SACReplayPool α := ⟨none, capacity, 0, 0⟩

variable (p : SACReplayPool α)

def lazyInitPool [Zero α] : SACReplayPool α :=
  { p with pool := some (List.replicate p.capacity 0) }

def insertBlockToPool (source : List α) : Py (SACReplayPool α) :=
  match p.pool with
  | none => .error (.typeError "'NoneType' object is not subscriptable")
  | some slots =>
      let length := min source.length p.capacity
      let idx := (List.range length).map fun i =>
        (p.position + i) % p.capacity
      if p.capacity = 0 then .error .zeroDivisionError
      else .ok { p with
        pool := some (scatter slots (idx.zip (source.take length)))
        position := (p.position + length) % p.capacity
        size := min (p.size + length) p.capacity }

def addBatch [Zero α] (batch : List α) : Py (SACReplayPool α) :=
  let p := if p.pool.isNone then p.lazyInitPool else p
  p.insertBlockToPool batch

/-- `order` is what `torch.randperm(self.size)` gives. -/
def sampleBatch (order : List Nat) (batchSize : Nat) : Py (List α) := do
  pyAssert (decide (p.size ≥ batchSize))
    ("Not enough samples in the replay pool to sample the requested " ++
      "batch size.")
  match p.pool with
  | none => .error .attributeError
  | some slots =>
      match gather slots (order.take batchSize) with
      | some rows => .ok rows
      | none => .error .indexError

def insertAndResample [Zero α] (source : List α) (order : List Nat) :
    Py (SACReplayPool α × List α) := do
  let p ← p.addBatch source
  let rows ← p.sampleBatch order source.length
  return (p, rows)

/-- The file after `save`; an empty pool writes none. -/
def save (file : Option (SavedPool α)) : Option (SavedPool α) :=
  match p.pool with
  | some slots => some ⟨slots, p.size, p.capacity, p.position⟩
  | none => file

/-- `load` of the file that is there, or of none that can be read. -/
def load [Zero α] (file : Option (SavedPool α)) :
    Py (SACReplayPool α × Bool) :=
  match file with
  | none => .ok (p, false)
  | some saved =>
      let slots :=
        if saved.capacity ≠ p.capacity then
          if saved.capacity > p.capacity then saved.pool.take p.capacity
          else saved.pool ++ List.replicate (p.capacity - saved.capacity) 0
        else saved.pool
      if p.capacity = 0 then .error .zeroDivisionError
      else .ok ({ p with
        pool := some slots
        size := min saved.size p.capacity
        position := saved.position % p.capacity }, true)

/-- The slots in use. -/
def stored : List α := (p.pool.getD []).take p.size

end SACReplayPool

inductive Action (α : Type)
  /-- A new pool takes the place of the old one. -/
  | fresh (capacity : Nat)
  | addBatch (batch : List α)
  | save
  | load
  | sample (batchSize : Nat) (order : List Nat)
  | insertAndResample (source : List α) (order : List Nat)
deriving Repr

/-- A pool and the file; `inserted` is what went into the pool, by way of the
file too. -/
structure PoolState (α : Type) where
  pool : SACReplayPool α
  file : Option (SavedPool α)
  inserted : List α
  savedInserted : List α

def step [Zero α] (s : PoolState α) : Action α → Option (PoolState α)
  | .fresh capacity =>
      some { s with pool := SACReplayPool.init capacity, inserted := [] }
  | .addBatch batch =>
      match s.pool.addBatch batch with
      | .ok p => some { s with pool := p, inserted := s.inserted ++ batch }
      | .error _ => none
  | .save => some { s with
      file := s.pool.save s.file
      savedInserted :=
        if s.pool.pool.isSome then s.inserted else s.savedInserted }
  | .load =>
      match s.pool.load s.file with
      | .ok (p, loaded) => some { s with
          pool := p
          inserted := if loaded then s.savedInserted else s.inserted }
      | .error _ => none
  | .sample batchSize order =>
      if order.Perm (List.range s.pool.size) then
        match s.pool.sampleBatch order batchSize with
        | .ok _ => some s
        | .error _ => none
      else none
  | .insertAndResample source order =>
      match s.pool.insertAndResample source order with
      | .ok (p, _) =>
          if order.Perm (List.range p.size) then
            some { s with pool := p, inserted := s.inserted ++ source }
          else none
      | .error _ => none

def system (α : Type) [Zero α] (capacity : Nat) :
    Transition.System (PoolState α) (Action α) where
  initial := ⟨SACReplayPool.init capacity, none, [], []⟩
  step := step

/-- The pool has the most recent transitions, and samples give rows of distinct
slots, each of them inserted. -/
structure Truthful (s : PoolState α) : Prop where
  recent : s.pool.stored.Perm (s.inserted.drop
    (s.inserted.length - min s.inserted.length s.pool.capacity))
  sampled : ∀ order batchSize rows,
    order.Perm (List.range s.pool.size) →
    s.pool.sampleBatch order batchSize = .ok rows →
    rows.length = batchSize ∧
    (∃ slots, slots.Nodup ∧ (∀ i ∈ slots, i < s.pool.size) ∧
      gather (s.pool.pool.getD []) slots = some rows) ∧
    ∀ row ∈ rows, row ∈ s.inserted

/-- What a file may be loaded into: the same capacity; a larger one while the
saved pool is not full; a smaller one that has room for it, or at which the
writing just stands. -/
def FitsInto (saved : SavedPool α) (capacity : Nat) : Prop :=
  saved.capacity = capacity ∨
  saved.capacity < capacity ∧ saved.size < saved.capacity ∨
  capacity < saved.capacity ∧ (saved.size ≤ capacity ∨
    saved.size = saved.capacity ∧ saved.position = capacity)

instance (saved : SavedPool α) (capacity : Nat) :
    Decidable (FitsInto saved capacity) :=
  inferInstanceAs (Decidable (_ ∨ _ ∧ _ ∨ _ ∧ (_ ∨ _ ∧ _)))

def FileFits (file : Option (SavedPool α)) (capacity : Nat) : Prop :=
  match file with
  | none => True
  | some saved => FitsInto saved capacity

instance : (file : Option (SavedPool α)) → (capacity : Nat) →
    Decidable (FileFits file capacity)
  | none, _ => inferInstanceAs (Decidable True)
  | some saved, capacity =>
      inferInstanceAs (Decidable (FitsInto saved capacity))

/-- Batches no larger than the capacity, and files that fit. -/
def Fitting (s : PoolState α) : Action α → Prop
  | .addBatch batch => batch.length ≤ s.pool.capacity
  | .insertAndResample source _ => source.length ≤ s.pool.capacity
  | .load => FileFits s.file s.pool.capacity
  | .fresh _ | .save | .sample _ _ => True

instance (s : PoolState α) : (a : Action α) → Decidable (Fitting s a)
  | .addBatch batch =>
      inferInstanceAs (Decidable (batch.length ≤ s.pool.capacity))
  | .insertAndResample source _ =>
      inferInstanceAs (Decidable (source.length ≤ s.pool.capacity))
  | .load => inferInstanceAs (Decidable (FileFits s.file s.pool.capacity))
  | .fresh _ | .save | .sample _ _ => inferInstanceAs (Decidable True)

section Inserting

/-- Writing a block at once is writing it row by row. -/
theorem scatter_eq_pushAll {buffer : Buffer α} (xs : List α)
    (h : buffer.position < buffer.slots.length) :
    scatter buffer.slots (((List.range xs.length).map fun i =>
      (buffer.position + i) % buffer.slots.length).zip xs) =
      (buffer.pushAll xs).slots := by
  induction xs generalizing buffer with
  | nil => rfl
  | cons x xs ih =>
      have hpush : (buffer.push x).position < (buffer.push x).slots.length := by
        rw [Buffer.length_push]
        exact Nat.mod_lt _ (by omega)
      have hrest := ih hpush
      rw [Buffer.length_push] at hrest
      rw [List.length_cons, List.range_succ_eq_map, List.map_cons,
        List.map_map, List.zip_cons_cons, scatter, List.foldl_cons,
        Nat.add_zero, Nat.mod_eq_of_lt h]
      refine Eq.trans ?_ hrest
      have hidx : (List.range xs.length).map ((fun i =>
          (buffer.position + i) % buffer.slots.length) ∘ Nat.succ) =
          (List.range xs.length).map fun i =>
            ((buffer.push x).position + i) % buffer.slots.length := by
        apply List.map_congr_left
        intro i _
        rw [Buffer.push, Function.comp_apply, Nat.mod_add_mod, Nat.add_assoc,
          Nat.add_comm 1, Nat.succ_eq_add_one]
      rw [hidx]
      rfl

end Inserting

section Holding

/-- The pool is a buffer buffer that holds the log, or nothing was put in yet. -/
def PoolHolds (p : SACReplayPool α) (log : List α) : Prop :=
  match p.pool with
  | none => p.size = 0 ∧ p.position = 0 ∧ log = []
  | some slots => slots.length = p.capacity ∧
      Buffer.Holds ⟨slots, p.size, p.position⟩ log

def FileHolds (file : Option (SavedPool α)) (log : List α) : Prop :=
  ∀ saved, file = some saved → saved.pool.length = saved.capacity ∧
    Buffer.Holds ⟨saved.pool, saved.size, saved.position⟩ log

theorem insertBlockToPool_holds {p next : SACReplayPool α} {log slots : List α}
    {batch : List α} (hpool : p.pool = some slots)
    (hlength : slots.length = p.capacity)
    (hholds : Buffer.Holds ⟨slots, p.size, p.position⟩ log)
    (hbatch : batch.length ≤ p.capacity)
    (hok : p.insertBlockToPool batch = .ok next) :
    PoolHolds next (log ++ batch) ∧ next.capacity = p.capacity := by
  have hlt := hholds.position_lt
  have hle := hholds.size_le
  have hpos : p.capacity ≠ 0 := by
    simp only [] at hlt
    omega
  have hpushed := hholds.pushAll batch
  have hslots := scatter_eq_pushAll batch hlt
  have hposition := Buffer.position_pushAll batch hlt
  have hsize := Buffer.size_pushAll batch hle
  simp only [hlength] at hslots hposition hsize
  rw [SACReplayPool.insertBlockToPool, hpool] at hok
  simp only [Nat.min_eq_left hbatch, if_neg hpos,
    List.take_of_length_le (Nat.le_refl batch.length)] at hok
  cases hok
  refine ⟨⟨?_, ?_⟩, rfl⟩
  · rw [length_scatter, hlength]
  · simp only [hslots, ← hposition, ← hsize]
    exact hpushed

theorem save_holds {p : SACReplayPool α} {file : Option (SavedPool α)}
    {log savedLog : List α} (hpool : PoolHolds p log)
    (hfile : FileHolds file savedLog) :
    FileHolds (p.save file) (if p.pool.isSome then log else savedLog) := by
  rw [PoolHolds] at hpool
  rw [SACReplayPool.save]
  cases hp : p.pool with
  | none => exact hfile
  | some slots =>
      rw [hp] at hpool
      intro saved hsaved
      cases hsaved
      exact hpool

theorem sampleBatch_ok {p : SACReplayPool α} {order : List Nat}
    {batchSize : Nat} {rows : List α}
    (h : p.sampleBatch order batchSize = .ok rows) :
    batchSize ≤ p.size ∧ ∃ slots, p.pool = some slots ∧
      gather slots (order.take batchSize) = some rows := by
  rw [SACReplayPool.sampleBatch] at h
  obtain ⟨_, hassert, h⟩ := bind_eq_ok.mp h
  refine ⟨of_decide_eq_true (pyAssert_eq_ok.mp hassert), ?_⟩
  cases hp : p.pool with
  | none =>
      simp only [hp] at h
      cases h
  | some slots =>
      simp only [hp] at h
      split at h
      case h_1 found hfound =>
        cases h
        exact ⟨slots, rfl, hfound⟩
      case h_2 => cases h

theorem stored_perm {p : SACReplayPool α} {log : List α}
    (h : PoolHolds p log) :
    p.stored.Perm (log.drop (log.length - min log.length p.capacity)) := by
  rw [PoolHolds] at h
  rw [SACReplayPool.stored]
  cases hp : p.pool with
  | none =>
      rw [hp] at h
      obtain ⟨-, -, rfl⟩ := h
      rw [Option.getD_none, List.take_nil, List.drop_nil]
  | some slots =>
      rw [hp] at h
      rw [Option.getD_some, ← h.1]
      exact h.2.contents_perm

/-- What the two logs say of pool and file. -/
def Invariant (s : PoolState α) : Prop :=
  PoolHolds s.pool s.inserted ∧ FileHolds s.file s.savedInserted

theorem truthful_of_invariant {s : PoolState α} (h : Invariant s) :
    Truthful s := by
  constructor
  · exact stored_perm h.1
  · intro order batchSize rows horder hok
    obtain ⟨hle, slots, hslots, hgather⟩ := sampleBatch_ok hok
    have hlength : order.length = s.pool.size := by
      rw [horder.length_eq, List.length_range]
    have hlt : ∀ i ∈ order.take batchSize, i < s.pool.size := by
      intro i hi
      exact List.mem_range.mp (horder.mem_iff.mp (List.mem_of_mem_take hi))
    refine ⟨?_, ⟨order.take batchSize, ?_, hlt, ?_⟩, ?_⟩
    · rw [length_of_gather hgather, List.length_take, hlength]
      exact Nat.min_eq_left hle
    · exact (horder.nodup_iff.mpr List.nodup_range).sublist
        (List.take_sublist _ _)
    · rw [hslots, Option.getD_some]
      exact hgather
    · intro row hrow
      obtain ⟨i, hi, hget⟩ := exists_of_forall₂_right
        (gather_eq_some_iff.mp hgather) hrow
      have hstored : row ∈ s.pool.stored := by
        rw [SACReplayPool.stored, hslots, Option.getD_some]
        apply List.mem_of_getElem? (i := i)
        rw [List.getElem?_take_of_lt (hlt i hi)]
        exact hget
      exact List.mem_of_mem_drop ((stored_perm h.1).mem_iff.mp hstored)

variable [Zero α]

theorem addBatch_holds {p next : SACReplayPool α} {log batch : List α}
    (h : PoolHolds p log) (hbatch : batch.length ≤ p.capacity)
    (hok : p.addBatch batch = .ok next) :
    PoolHolds next (log ++ batch) ∧ next.capacity = p.capacity := by
  rw [PoolHolds] at h
  rw [SACReplayPool.addBatch] at hok
  cases hpool : p.pool with
  | some slots =>
      rw [hpool] at h hok
      exact insertBlockToPool_holds hpool h.1 h.2 hbatch hok
  | none =>
      rw [hpool] at h hok
      obtain ⟨hsize, hposition, rfl⟩ := h
      have hpos : 0 < p.capacity := by
        by_contra hzero
        have hcapacity : p.capacity = 0 := by omega
        simp only [Option.isNone_none, if_true, SACReplayPool.lazyInitPool,
          SACReplayPool.insertBlockToPool, hcapacity] at hok
        cases hok
      have hempty : Buffer.Holds ⟨List.replicate p.capacity (0 : α), p.size,
          p.position⟩ [] := by
        rw [hsize, hposition]
        apply Buffer.holds_empty
        rw [List.length_replicate]
        exact hpos
      exact insertBlockToPool_holds (p := p.lazyInitPool) rfl
        List.length_replicate hempty hbatch hok

theorem load_holds {p next : SACReplayPool α} {saved : SavedPool α}
    {log : List α} {loaded : Bool}
    (hlength : saved.pool.length = saved.capacity)
    (hholds : Buffer.Holds ⟨saved.pool, saved.size, saved.position⟩ log)
    (hfits : FitsInto saved p.capacity)
    (hok : p.load (some saved) = .ok (next, loaded)) :
    PoolHolds next log ∧ next.capacity = p.capacity ∧ loaded = true := by
  have hsize := hholds.size_le
  have hlt := hholds.position_lt
  simp only [hlength] at hsize hlt
  by_cases hzero : p.capacity = 0
  · simp only [SACReplayPool.load, if_pos hzero] at hok
    cases hok
  · simp only [SACReplayPool.load, if_neg hzero] at hok
    cases hok
    refine ⟨?_, rfl, rfl⟩
    rcases hfits with heq | ⟨hless, hroom⟩ | ⟨hmore, hfits⟩
    · rw [← heq, if_neg (fun hne => hne rfl), Nat.min_eq_left hsize,
        Nat.mod_eq_of_lt hlt]
      exact ⟨hlength, hholds⟩
    · have hwide := hholds.widen (by simp only [hlength]; exact hroom)
        (List.replicate (p.capacity - saved.capacity) (0 : α))
      rw [if_pos (by omega), if_neg (by omega), Nat.min_eq_left (by omega),
        Nat.mod_eq_of_lt (by omega)]
      refine ⟨?_, hwide⟩
      rw [List.length_append, List.length_replicate, hlength]
      simp only []
      omega
    · rw [if_pos (by omega), if_pos hmore]
      refine ⟨?_, hholds.narrow (by omega) (by simp only [hlength]; exact hmore)
        ?_⟩
      · rw [List.length_take, hlength]
        exact Nat.min_eq_left (Nat.le_of_lt hmore)
      · simp only [hlength]
        exact hfits

theorem insertAndResample_ok {p next : SACReplayPool α}
    {source rows : List α} {order : List Nat}
    (h : p.insertAndResample source order = .ok (next, rows)) :
    p.addBatch source = .ok next := by
  obtain ⟨added, hadded, h⟩ := bind_eq_ok.mp h
  obtain ⟨rows', -, h⟩ := bind_eq_ok.mp h
  cases h
  exact hadded

/-- Every fitting step keeps pool and file in line with what was inserted. -/
theorem invariant_step {s s' : PoolState α} {a : Action α}
    (h : Invariant s) (hfitting : Fitting s a) (hstep : step s a = some s') :
    Invariant s' := by
  obtain ⟨hpool, hfile⟩ := h
  cases a with
  | fresh capacity =>
      cases hstep
      exact ⟨⟨rfl, rfl, rfl⟩, hfile⟩
  | addBatch batch =>
      simp only [step] at hstep
      split at hstep
      case h_1 p hp =>
        cases hstep
        exact ⟨(addBatch_holds hpool hfitting hp).1, hfile⟩
      case h_2 => cases hstep
  | save =>
      cases hstep
      exact ⟨hpool, save_holds hpool hfile⟩
  | load =>
      simp only [step] at hstep
      split at hstep
      case h_1 p loaded hp =>
        cases hstep
        cases hsaved : s.file with
        | none =>
            rw [hsaved] at hp
            cases hp
            exact ⟨hpool, hsaved ▸ hfile⟩
        | some saved =>
            rw [hsaved] at hp
            obtain ⟨hlength, hholds⟩ := hfile saved hsaved
            have hfits : FitsInto saved s.pool.capacity := by
              rw [Fitting, hsaved] at hfitting
              exact hfitting
            obtain ⟨hnext, -, rfl⟩ := load_holds hlength hholds hfits hp
            exact ⟨hnext, hsaved ▸ hfile⟩
      case h_2 => cases hstep
  | sample batchSize order =>
      simp only [step] at hstep
      split at hstep
      · split at hstep
        · cases hstep
          exact ⟨hpool, hfile⟩
        · cases hstep
      · cases hstep
  | insertAndResample source order =>
      simp only [step] at hstep
      split at hstep
      case h_1 p rows hp =>
        split at hstep
        · cases hstep
          exact ⟨(addBatch_holds hpool hfitting
            (insertAndResample_ok hp)).1, hfile⟩
        · cases hstep
      case h_2 => cases hstep

theorem invariant_initial (capacity : Nat) :
    Invariant (system α capacity).initial := by
  refine ⟨⟨rfl, rfl, rfl⟩, fun saved hsaved => ?_⟩
  cases hsaved

/-- In every run whose batches and files fit, the pool has the most recent
transitions, and samples only them. -/
theorem replayPool_truthful (α : Type) [Zero α] (capacity : Nat)
    (actions : List (Action α)) (t : PoolState α)
    (hfitting : (system α capacity).Guarded Fitting
      (system α capacity).initial actions)
    (hrun : (system α capacity).exec (system α capacity).initial actions =
      some t) : Truthful t :=
  truthful_of_invariant (Transition.System.invariant_of_guarded (P := Invariant)
    (fun _ _ _ hinvariant hguard hstep =>
      invariant_step hinvariant hguard hstep)
    (invariant_initial capacity) hfitting hrun)

end Holding

section Examples

/-- A pool half full is loaded into a larger one. -/
def growHalfFull : List (Action Nat) :=
  [.addBatch [1, 2], .save, .fresh 6, .load, .addBatch [3, 4, 5]]

theorem replayPool_truthful_grown :
    ∃ t, (system Nat 4).exec (system Nat 4).initial growHalfFull = some t ∧
      Truthful t :=
  ⟨_, rfl, replayPool_truthful Nat 4 growHalfFull _ (by decide) rfl⟩

/-- A full pool loaded into a larger one: the next row overwrites the oldest,
and a slot that was never written counts as in use. -/
theorem sampled_zero :
    ¬ ∀ (capacity : Nat) (actions : List (Action Nat)) (t : PoolState Nat),
      (system Nat capacity).exec (system Nat capacity).initial actions =
        some t → Truthful t := by
  intro h
  have htruthful := h 2 [.addBatch [1, 2], .save, .fresh 3, .load,
    .addBatch [3]] _ rfl
  have hsampled := (htruthful.sampled [0, 1, 2] 3 [3, 2, 0] (List.Perm.refl _)
    rfl).2.2 0 (by decide)
  exact absurd hsampled (by decide)

end Examples

end ReplayPool

end SelfDistillation
