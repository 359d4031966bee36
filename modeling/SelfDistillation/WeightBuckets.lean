/-
Weights packed back to back into byte buffers: the loop the senders of
verl/checkpoint_engine/nccl_checkpoint_engine.py, nixl_checkpoint_engine.py
and verl/workers/rollout/vllm_rollout/bucketed_weight_transfer.py share, and
the views their receivers form.
-/
import SelfDistillation.ByteTensor
import SelfDistillation.Library.Chunks
import SelfDistillation.Library.Transition

namespace SelfDistillation

open Torch Chunks

variable {δ : Type} [Torch δ]

/-- `weight.nbytes` -/
def Tensor.nbytes (t : Tensor δ) : Nat := t.bytes.length

/-- `tensor.to(device)` -/
def Tensor.toDevice (device : Device) (t : Tensor δ) : Tensor δ :=
  { t with device := device }

namespace WeightBuckets

structure TensorMeta (δ : Type) where
  name : String
  shape : List Nat
  dtype : δ
  offset : Nat
deriving DecidableEq

/-- What is sent ahead of a bucket. -/
structure Metadata (δ : Type) where
  bucketMeta : PyDict (TensorMeta δ)
  isLast : Bool
deriving DecidableEq

/-- `buffer[offset : offset + len(bytes)] = bytes` -/
def store (buffer : List UInt8) (offset : Nat) (bytes : List UInt8) :
    List UInt8 :=
  buffer.take offset ++ bytes ++ buffer.drop (offset + bytes.length)

/-- `buffer[offset : offset + size].view(dtype=dtype).view(shape)` -/
def load (device : Device) (buffer : List UInt8) (entry : TensorMeta δ) :
    Py (Tensor δ) :=
  viewBytes device entry.offset
    ((buffer.drop entry.offset).take (itemsize entry.dtype * entry.shape.prod))
    entry.dtype entry.shape

section Sending

/-- The locals of a sender's loop; `weights` are those the generator has still
to yield. -/
structure Packing (δ : Type) [Torch δ] where
  weights : List (String × Tensor δ)
  bucketMeta : PyDict (TensorMeta δ)
  offset : Nat

/-- What the loop does next. -/
inductive Turn
  | pack
  | flush
  | last
deriving DecidableEq

namespace Packing

def start (weights : List (String × Tensor δ)) : Packing δ :=
  ⟨weights, PyDict.empty, 0⟩

def turn (bucketSize : Nat) (p : Packing δ) : Turn :=
  match p.weights with
  | [] => .last
  | (_, weight) :: _ =>
      if bucketSize < p.offset + weight.nbytes then .flush else .pack

/-- `bucket_meta[name] = {...}`, the copy into the buffer and
`offset += weight.nbytes` -/
def pack (p : Packing δ) (buffer : List UInt8) : Packing δ × List UInt8 :=
  match p.weights with
  | [] => (p, buffer)
  | (name, weight) :: rest =>
      ({ weights := rest
         bucketMeta := p.bucketMeta.set name
           ⟨name, weight.shape, weight.dtype, p.offset⟩
         offset := p.offset + weight.nbytes },
        store buffer p.offset weight.bytes)

/-- A weight packed is one weight less to pack and at most one entry more. -/
theorem lengths_pack {p : Packing δ} {bucketSize : Nat}
    (hturn : p.turn bucketSize = .pack) (buffer : List UInt8) :
    (p.pack buffer).1.weights.length + 1 = p.weights.length ∧
      (p.pack buffer).1.bucketMeta.entries.length ≤
        p.bucketMeta.entries.length + 1 := by
  obtain ⟨weights, entries, offset⟩ := p
  match weights with
  | [] => cases hturn
  | (name, weight) :: weights =>
      refine ⟨rfl, ?_⟩
      rw [pack, PyDict.length_entries_set]
      split <;> omega

/-- `bucket_meta = {}` and `offset = 0` -/
def clear (p : Packing δ) : Packing δ :=
  { p with bucketMeta := PyDict.empty, offset := 0 }

/-- The assertion that the weight at hand fits; `hint` ends its text. -/
def assertFits (bucketSize : Nat) (hint : String) (p : Packing δ) : Py Unit :=
  match p.weights with
  | [] => .ok ()
  | (name, weight) :: _ =>
      pyAssert (p.offset + weight.nbytes ≤ bucketSize)
        s!"Weight {name}(torch.Size({weight.shape}), torch.{dtypeName weight.dtype}) is too large to fit in the bucket.{hint}"

end Packing

end Sending

section Receiving

/-- A bucket as a receiver works through it: entries not yielded yet, views
that were yielded and are not copied yet, and everything it was handed. -/
structure Outlet (δ : Type) [Torch δ] where
  todo : List (String × TensorMeta δ)
  pending : List (String × TensorMeta δ)
  received : List (String × Tensor δ)
  raised : Option PyErr

namespace Outlet

def empty : Outlet δ := ⟨[], [], [], none⟩

/-- `for name, meta in metadata["bucket_meta"].items()` -/
def refill (metadata : Metadata δ) (o : Outlet δ) : Outlet δ :=
  { o with todo := metadata.bucketMeta.entries }

/-- The view of the next entry is formed and yielded. -/
def yieldNext (device : Device) (buffer : List UInt8) (o : Outlet δ) :
    Option (Outlet δ) :=
  match o.raised, o.todo with
  | none, (name, entry) :: rest =>
      match load device buffer entry with
      | .ok _ => some { o with
          todo := rest
          pending := o.pending ++ [(name, entry)] }
      | .error e => some { o with raised := some e }
  | _, _ => none

/-- The oldest view is copied as it reads now. -/
def copyNext (device : Device) (buffer : List UInt8) (o : Outlet δ) :
    Option (Outlet δ) :=
  match o.pending with
  | [] => none
  | (name, entry) :: rest =>
      match load device buffer entry with
      | .ok tensor => some { o with
          pending := rest
          received := o.received ++ [(name, tensor)] }
      | .error _ => none

/-- `synchronize()` has nothing to wait for and every entry was yielded. -/
def drained (o : Outlet δ) : Bool :=
  o.raised.isNone && o.todo.isEmpty && o.pending.isEmpty

end Outlet

end Receiving

section Plan

/-- A weight at its place in a bucket. -/
structure Placement (δ : Type) [Torch δ] where
  name : String
  offset : Nat
  weight : Tensor δ

namespace Placement

def entry (p : Placement δ) : TensorMeta δ :=
  ⟨p.name, p.weight.shape, p.weight.dtype, p.offset⟩

/-- torch views the bytes at this place as the weight's dtype. -/
def Legal (p : Placement δ) : Prop := itemsize p.weight.dtype ∣ p.offset

instance (p : Placement δ) : Decidable p.Legal :=
  inferInstanceAs (Decidable (_ ∣ _))

end Placement

/-- Bytes of the weights of a bucket. -/
def total (bucket : List (String × Tensor δ)) : Nat :=
  (bucket.map fun w => w.2.nbytes).sum

def content (bucket : List (String × Tensor δ)) : List UInt8 :=
  bucket.flatMap fun w => w.2.bytes

/-- The weights of a bucket one behind the other from `offset` on. -/
def placed (offset : Nat) :
    List (String × Tensor δ) → List (String × Placement δ)
  | [] => []
  | (name, weight) :: rest =>
      (name, ⟨name, offset, weight⟩) :: placed (offset + weight.nbytes) rest

/-- A name that comes again takes the place of the earlier one. -/
def placements (bucket : List (String × Tensor δ)) : PyDict (Placement δ) :=
  PyDict.ofList (placed 0 bucket)

def bucketMeta (bucket : List (String × Tensor δ)) : PyDict (TensorMeta δ) :=
  (placements bucket).mapVals Placement.entry

/-- The weights bucket by bucket, each filled until the next weight does not
fit. -/
def buckets (bucketSize : Nat) (weights : List (String × Tensor δ)) :
    List (List (String × Tensor δ)) :=
  nextFit bucketSize (fun w => w.2.nbytes) [] weights

/-- Every weight starts at a multiple of its item size in its bucket. -/
def Aligned (bucketSize : Nat) (weights : List (String × Tensor δ)) : Prop :=
  ∀ bucket ∈ buckets bucketSize weights, ∀ e ∈ placed 0 bucket, e.2.Legal

instance (bucketSize : Nat) (weights : List (String × Tensor δ)) :
    Decidable (Aligned bucketSize weights) :=
  inferInstanceAs (Decidable (∀ bucket ∈ buckets bucketSize weights,
    ∀ e ∈ placed 0 bucket, e.2.Legal))

/-- What is sent ahead of each bucket. -/
def metadatas (plan : List (List (String × Tensor δ))) : List (Metadata δ) :=
  plan.mapIdx fun k bucket => ⟨bucketMeta bucket, k + 1 == plan.length⟩

/-- The entries a receiver finds in the buckets. -/
def entries (plan : List (List (String × Tensor δ))) :
    List (String × Placement δ) :=
  plan.flatMap fun bucket => (placements bucket).entries

/-- The weights as a receiver sees them. -/
def onDevice (device : Device) (weights : List (String × Tensor δ)) :
    List (String × Tensor δ) :=
  weights.map fun w => (w.1, w.2.toDevice device)

end Plan

section PlanLemmas

theorem placed_append (offset : Nat) (front back : List (String × Tensor δ)) :
    placed offset (front ++ back) =
      placed offset front ++ placed (offset + total front) back := by
  induction front generalizing offset with
  | nil => rfl
  | cons w front ih =>
      simp [placed, ih, total, Nat.add_assoc]

theorem placed_map_weight (offset : Nat) (bucket : List (String × Tensor δ)) :
    (placed offset bucket).map (fun e => (e.1, e.2.weight)) = bucket := by
  induction bucket generalizing offset with
  | nil => rfl
  | cons w bucket ih => simp [placed, ih]

theorem length_content (bucket : List (String × Tensor δ)) :
    (content bucket).length = total bucket := by
  simp [content, total, Tensor.nbytes, List.length_flatMap]

theorem exists_split_of_mem_placed {offset : Nat}
    {bucket : List (String × Tensor δ)} {e : String × Placement δ}
    (he : e ∈ placed offset bucket) :
    ∃ front back, bucket = front ++ (e.1, e.2.weight) :: back ∧
      e.2.offset = offset + total front := by
  induction bucket generalizing offset with
  | nil => cases he
  | cons w bucket ih =>
      rcases List.mem_cons.mp he with rfl | he
      · exact ⟨[], bucket, rfl, rfl⟩
      · obtain ⟨front, back, rfl, hoffset⟩ := ih he
        refine ⟨w :: front, back, rfl, ?_⟩
        rw [hoffset, Nat.add_assoc]
        rfl

theorem mem_placed_of_mem_placements {bucket : List (String × Tensor δ)}
    {e : String × Placement δ} (he : e ∈ (placements bucket).entries) :
    e ∈ placed 0 bucket :=
  PyDict.mem_of_mem_ofList he

theorem placements_entries_of_nodup {bucket : List (String × Tensor δ)}
    (hnodup : (bucket.map Prod.fst).Nodup) :
    (placements bucket).entries = placed 0 bucket := by
  apply PyDict.ofList_entries_of_nodup
  have hkeys := congrArg (List.map Prod.fst) (placed_map_weight 0 bucket)
  rw [List.map_map] at hkeys
  exact hkeys.symm ▸ hnodup

theorem bucketMeta_append_singleton (bucket : List (String × Tensor δ))
    (w : String × Tensor δ) :
    bucketMeta (bucket ++ [w]) = (bucketMeta bucket).set w.1
      ⟨w.1, w.2.shape, w.2.dtype, total bucket⟩ := by
  rw [bucketMeta, placements, placed_append, Nat.zero_add, placed, placed,
    PyDict.ofList_append_singleton, PyDict.mapVals_set]
  rfl

theorem flatten_buckets (bucketSize : Nat)
    (weights : List (String × Tensor δ)) :
    (buckets bucketSize weights).flatten = weights := by
  rw [buckets, flatten_nextFit, List.nil_append]

@[simp] theorem length_metadatas (plan : List (List (String × Tensor δ))) :
    (metadatas plan).length = plan.length := by
  simp [metadatas]

theorem getElem?_metadatas {plan : List (List (String × Tensor δ))} {k : Nat}
    {bucket : List (String × Tensor δ)} (hbucket : plan[k]? = some bucket) :
    (metadatas plan)[k]? =
      some ⟨bucketMeta bucket, k + 1 == plan.length⟩ := by
  rw [metadatas, List.getElem?_mapIdx, hbucket, Option.map_some]

theorem exists_of_getElem?_metadatas
    {plan : List (List (String × Tensor δ))} {k : Nat} {metadata : Metadata δ}
    (h : (metadatas plan)[k]? = some metadata) :
    ∃ bucket, plan[k]? = some bucket ∧
      metadata = ⟨bucketMeta bucket, k + 1 == plan.length⟩ := by
  rw [metadatas, List.getElem?_mapIdx, Option.map_eq_some_iff] at h
  obtain ⟨bucket, hbucket, rfl⟩ := h
  exact ⟨bucket, hbucket, rfl⟩

theorem entries_take_succ {plan : List (List (String × Tensor δ))} {k : Nat}
    {bucket : List (String × Tensor δ)} (hbucket : plan[k]? = some bucket) :
    entries (plan.take (k + 1)) =
      entries (plan.take k) ++ (placements bucket).entries := by
  obtain ⟨hk, rfl⟩ := List.getElem?_eq_some_iff.mp hbucket
  rw [entries, List.take_succ_eq_append_getElem hk, List.flatMap_append,
    entries]
  simp

theorem entries_take_append (plan : List (List (String × Tensor δ)))
    (k : Nat) : entries (plan.take k) <+: entries plan := by
  refine ⟨entries (plan.drop k), ?_⟩
  rw [entries, entries, ← List.flatMap_append, List.take_append_drop, entries]

theorem content_isPrefix_store {bucket : List (String × Tensor δ)}
    {buffer : List UInt8} (hbuffer : content bucket <+: buffer)
    (w : String × Tensor δ) :
    content (bucket ++ [w]) <+: store buffer (total bucket) w.2.bytes := by
  obtain ⟨rest, rfl⟩ := hbuffer
  rw [store, List.take_left' (length_content bucket), content,
    List.flatMap_append, List.flatMap_singleton, ← content]
  exact List.prefix_append _ _

/-- The view at the place of a weight reads the weight, where it is legal. -/
theorem load_of_mem_placed {bucket : List (String × Tensor δ)}
    {buffer : List UInt8} (hbuffer : content bucket <+: buffer)
    (device : Device) {e : String × Placement δ}
    (he : e ∈ placed 0 bucket) :
    load device buffer e.2.entry =
      if e.2.Legal then .ok (e.2.weight.toDevice device)
      else .error (.runtimeError
        s!"self.storage_offset() must be divisible by {itemsize e.2.weight.dtype}") := by
  obtain ⟨front, back, hsplit, hoffset⟩ := exists_split_of_mem_placed he
  obtain ⟨rest, rfl⟩ := hbuffer
  have hbytes : ((content bucket ++ rest).drop e.2.offset).take
      (itemsize e.2.weight.dtype * e.2.weight.shape.prod) =
      e.2.weight.bytes := by
    have hcontent : content bucket =
        content front ++ (e.2.weight.bytes ++ content back) := by
      rw [hsplit, content, List.flatMap_append, List.flatMap_cons]
      rfl
    rw [hcontent, List.append_assoc, hoffset, Nat.zero_add,
      List.drop_left' (length_content front), List.append_assoc,
      ← e.2.weight.length_bytes, List.take_left]
  rw [load]
  change viewBytes device e.2.offset _ e.2.weight.dtype e.2.weight.shape = _
  rw [Placement.entry, hbytes]
  exact viewBytes_bytes (e.2.weight.toDevice device) e.2.offset

end PlanLemmas

section Sender

/-- The bucket being filled is the next one of the plan: `rest` is it and all
that come after it. -/
structure Packing.Follows (bucketSize : Nat) (p : Packing δ)
    (buffer : List UInt8) (rest : List (List (String × Tensor δ))) :
    Prop where
  fits : ∀ w ∈ p.weights, w.2.nbytes ≤ bucketSize
  filling : ∃ bucket, p.bucketMeta = WeightBuckets.bucketMeta bucket ∧
    p.offset = total bucket ∧ content bucket <+: buffer ∧
    nextFit bucketSize (fun w => w.2.nbytes) bucket p.weights = rest

namespace Packing

variable {bucketSize : Nat} {p : Packing δ} {buffer : List UInt8}
  {rest : List (List (String × Tensor δ))}

theorem follows_start {weights : List (String × Tensor δ)}
    (hfits : ∀ w ∈ weights, w.2.nbytes ≤ bucketSize) (buffer : List UInt8) :
    (start weights).Follows bucketSize buffer (buckets bucketSize weights) :=
  ⟨hfits, [], rfl, rfl, List.nil_prefix, rfl⟩

theorem Follows.pack (h : p.Follows bucketSize buffer rest)
    (hturn : p.turn bucketSize = .pack) :
    (p.pack buffer).1.Follows bucketSize (p.pack buffer).2 rest := by
  obtain ⟨weights, entries, offset⟩ := p
  obtain ⟨hfits, bucket, rfl, rfl, hbuffer, rfl⟩ := h
  match weights with
  | [] => cases hturn
  | (name, weight) :: weights =>
      have hle : ¬ bucketSize < total bucket + weight.nbytes := by
        intro hlt
        simp [turn, hlt] at hturn
      refine ⟨fun w hw => hfits w (List.mem_cons_of_mem _ hw),
        bucket ++ [(name, weight)],
        (bucketMeta_append_singleton bucket (name, weight)).symm, ?_,
        content_isPrefix_store hbuffer (name, weight), ?_⟩
      · simp [Packing.pack, total]
      · rw [nextFit]
        exact (if_neg hle).symm

/-- A full bucket is the next one of the plan, and not its last. -/
theorem Follows.flush (h : p.Follows bucketSize buffer rest)
    (hturn : p.turn bucketSize = .flush) (hint : String) :
    ∃ bucket later, rest = bucket :: later ∧ later ≠ [] ∧
      p.bucketMeta = WeightBuckets.bucketMeta bucket ∧
      content bucket <+: buffer ∧
      p.clear.assertFits bucketSize hint = .ok () ∧
      ∀ buffer', p.clear.Follows bucketSize buffer' later := by
  obtain ⟨weights, entries, offset⟩ := p
  obtain ⟨hfits, bucket, rfl, rfl, hbuffer, rfl⟩ := h
  match weights with
  | [] => cases hturn
  | (name, weight) :: weights =>
      have hlt : bucketSize < total bucket + weight.nbytes := by
        by_contra hle
        simp [turn, hle] at hturn
      have hweight : weight.nbytes ≤ bucketSize :=
        hfits _ List.mem_cons_self
      refine ⟨bucket, _, if_pos hlt, nextFit_ne_nil _ _ _ _, rfl, hbuffer, ?_,
        fun buffer' => ⟨hfits, [], rfl, rfl, List.nil_prefix, ?_⟩⟩
      · simp [assertFits, clear, hweight]
      · exact nextFit_nil_cons hweight

/-- When the generator has ended the bucket is the last one of the plan. -/
theorem Follows.last (h : p.Follows bucketSize buffer rest)
    (hturn : p.turn bucketSize = .last) :
    ∃ bucket, rest = [bucket] ∧
      p.bucketMeta = WeightBuckets.bucketMeta bucket ∧
      content bucket <+: buffer := by
  obtain ⟨weights, entries, offset⟩ := p
  obtain ⟨hfits, bucket, rfl, rfl, hbuffer, rfl⟩ := h
  match weights with
  | [] => exact ⟨bucket, rfl, rfl, hbuffer⟩
  | (name, weight) :: weights =>
      simp only [turn] at hturn
      split at hturn <;> cases hturn

theorem Follows.ne_nil (h : p.Follows bucketSize buffer rest) : rest ≠ [] := by
  obtain ⟨_, bucket, _, _, _, rfl⟩ := h
  exact nextFit_ne_nil _ _ _ _

end Packing

end Sender

section Receiver

/-- How a receiver works off `given`, the entries of the buckets it has: those
handed over, those shown and those to come; what was shown was legal. -/
structure Outlet.Serves (device : Device) (buffer : List UInt8)
    (given : List (String × Placement δ)) (o : Outlet δ)
    (handed shown later : List (String × Placement δ)) : Prop where
  given_eq : given = handed ++ shown ++ later
  received : o.received =
    onDevice device (handed.map fun e => (e.1, e.2.weight))
  pending : o.pending = shown.map fun e => (e.1, e.2.entry)
  todo : o.todo = later.map fun e => (e.1, e.2.entry)
  legal : ∀ e ∈ handed ++ shown, e.2.Legal
  raised : ∀ err, o.raised = some err → ∃ e ∈ later, ¬ e.2.Legal
  load : ∀ e ∈ shown ++ later,
    WeightBuckets.load device buffer e.2.entry =
      if e.2.Legal then .ok (e.2.weight.toDevice device)
      else .error (.runtimeError
        s!"self.storage_offset() must be divisible by {itemsize e.2.weight.dtype}")

namespace Outlet

variable {device : Device} {buffer : List UInt8}
  {given handed shown later : List (String × Placement δ)} {o o' : Outlet δ}

theorem serves_empty (device : Device) (buffer : List UInt8) :
    (empty : Outlet δ).Serves device buffer [] [] [] [] where
  given_eq := rfl
  received := rfl
  pending := rfl
  todo := rfl
  legal := by simp
  raised := by simp [empty]
  load := by simp

theorem Serves.yieldNext (h : o.Serves device buffer given handed shown later)
    (hyield : o.yieldNext device buffer = some o') :
    ∃ shown' later', o'.Serves device buffer given handed shown' later' := by
  obtain ⟨todo, pending, received, raised⟩ := o
  obtain ⟨rfl, hreceived, hpending, htodo, hlegal, hraised, hload⟩ := h
  simp only at hreceived hpending htodo hraised
  subst hreceived hpending htodo
  match raised, later with
  | some err, _ => simp [Outlet.yieldNext] at hyield
  | none, [] => simp [Outlet.yieldNext] at hyield
  | none, e :: later =>
      have he := hload e (by simp)
      simp only [Outlet.yieldNext, List.map_cons, he] at hyield
      by_cases hok : e.2.Legal
      · rw [if_pos hok] at hyield
        cases hyield
        refine ⟨shown ++ [e], later, by simp, rfl, by simp, rfl, ?_,
          by simp, by simpa using hload⟩
        intro x hx
        rw [← List.append_assoc, List.mem_append, List.mem_singleton] at hx
        rcases hx with hx | rfl
        · exact hlegal x hx
        · exact hok
      · rw [if_neg hok] at hyield
        cases hyield
        exact ⟨shown, e :: later, rfl, rfl, rfl, rfl, hlegal,
          fun _ _ => ⟨e, List.mem_cons_self, hok⟩, hload⟩

theorem Serves.copyNext (h : o.Serves device buffer given handed shown later)
    (hcopy : o.copyNext device buffer = some o') :
    ∃ handed' shown', o'.Serves device buffer given handed' shown' later := by
  obtain ⟨todo, pending, received, raised⟩ := o
  obtain ⟨rfl, hreceived, hpending, htodo, hlegal, hraised, hload⟩ := h
  simp only at hreceived hpending htodo hraised
  subst hreceived hpending htodo
  match shown with
  | [] => simp [Outlet.copyNext] at hcopy
  | e :: shown =>
      have he := hload e (by simp)
      rw [if_pos (hlegal e (by simp))] at he
      simp only [Outlet.copyNext, List.map_cons, he] at hcopy
      cases hcopy
      exact ⟨handed ++ [e], shown, by simp, by simp [onDevice], rfl, rfl,
        by simpa using hlegal, hraised,
        fun x hx => hload x (List.mem_cons_of_mem _ hx)⟩

theorem drained_iff :
    o.drained = true ↔ o.raised = none ∧ o.todo = [] ∧ o.pending = [] := by
  simp [drained, and_assoc]

/-- A drained outlet takes the next bucket, whatever becomes of the buffer it
served so far. -/
theorem Serves.refill (h : o.Serves device buffer given handed shown later)
    (hdrained : o.drained = true) {bucket : List (String × Tensor δ)}
    {buffer' : List UInt8} (hbuffer : content bucket <+: buffer')
    (isLast : Bool) :
    (o.refill ⟨bucketMeta bucket, isLast⟩).Serves device buffer'
      (given ++ (placements bucket).entries) given [] (placements bucket).entries := by
  obtain ⟨hnone, htodo, hpending⟩ := drained_iff.mp hdrained
  have hlater : later = [] := List.map_eq_nil_iff.mp (h.todo.symm.trans htodo)
  have hshown : shown = [] :=
    List.map_eq_nil_iff.mp (h.pending.symm.trans hpending)
  subst hlater hshown
  have hgiven := h.given_eq
  rw [List.append_nil, List.append_nil] at hgiven
  subst hgiven
  refine ⟨by simp, h.received, hpending, rfl, h.legal, ?_, fun e he => ?_⟩
  · intro err herr
    cases hnone.symm.trans herr
  · exact load_of_mem_placed hbuffer device (mem_placed_of_mem_placements he)

/-- A drained outlet does not look at the buffer any more. -/
theorem Serves.setBuffer (h : o.Serves device buffer given handed shown later)
    (hdrained : o.drained = true) (buffer' : List UInt8) :
    o.Serves device buffer' given handed shown later := by
  obtain ⟨-, htodo, hpending⟩ := drained_iff.mp hdrained
  have hlater : later = [] := List.map_eq_nil_iff.mp (h.todo.symm.trans htodo)
  have hshown : shown = [] :=
    List.map_eq_nil_iff.mp (h.pending.symm.trans hpending)
  exact ⟨h.given_eq, h.received, h.pending, h.todo, h.legal, h.raised,
    by simp [hlater, hshown]⟩

theorem Serves.isSome_copyNext
    (h : o.Serves device buffer given handed shown later)
    (hpending : o.pending ≠ []) : (o.copyNext device buffer).isSome = true := by
  obtain ⟨todo, pending, received, raised⟩ := o
  match shown with
  | [] => exact absurd h.pending hpending
  | e :: shown =>
      have hhead := h.pending
      have he := h.load e (by simp)
      rw [if_pos (h.legal e (by simp))] at he
      simp only [List.map_cons] at hhead
      subst hhead
      simp [Outlet.copyNext, he]

theorem isSome_yieldNext (hraised : o.raised = none) (htodo : o.todo ≠ []) :
    (o.yieldNext device buffer).isSome = true := by
  obtain ⟨todo, pending, received, raised⟩ := o
  simp only at hraised htodo
  subst hraised
  match todo with
  | [] => exact absurd rfl htodo
  | (name, entry) :: todo =>
      cases hload : load device buffer entry <;>
        simp [Outlet.yieldNext, hload]

/-- A receiver that can neither yield nor copy has nothing left. -/
theorem Serves.drained_of_stuck
    (h : o.Serves device buffer given handed shown later)
    (hraised : o.raised = none) (hyield : o.yieldNext device buffer = none)
    (hcopy : o.copyNext device buffer = none) : o.drained = true := by
  refine drained_iff.mpr ⟨hraised, ?_, ?_⟩
  · by_contra htodo
    have hsome : (o.yieldNext device buffer).isSome = true :=
      isSome_yieldNext hraised htodo
    rw [hyield] at hsome
    cases hsome
  · by_contra hpending
    have hsome := h.isSome_copyNext hpending
    rw [hcopy] at hsome
    cases hsome

/-- What the views of an outlet read, and what is still to be yielded. -/
def views (device : Device) (buffer : List UInt8) (o : Outlet δ) :
    List (String × Py (Tensor δ)) :=
  (o.pending ++ o.todo).map fun e => (e.1, WeightBuckets.load device buffer e.2)

/-- Where every place is legal, nothing is raised and the views read the
weights. -/
theorem Serves.views_eq (h : o.Serves device buffer given handed shown later)
    (hlegal : ∀ e ∈ given, e.2.Legal) :
    o.raised = none ∧ ∃ seen,
      o.views device buffer = seen.map (fun w => (w.1, .ok w.2)) ∧
      o.received ++ seen =
        onDevice device (given.map fun e => (e.1, e.2.weight)) := by
  have hgiven := h.given_eq
  refine ⟨?_, onDevice device
    ((shown ++ later).map fun e => (e.1, e.2.weight)), ?_, ?_⟩
  · cases hraised : o.raised with
    | none => rfl
    | some err =>
        obtain ⟨e, he, hbad⟩ := h.raised err hraised
        exact absurd (hlegal e (by simp [hgiven, he])) hbad
  · rw [views, h.pending, h.todo, ← List.map_append, List.map_map, onDevice,
      List.map_map, List.map_map]
    apply List.map_congr_left
    intro e he
    have hok := h.load e he
    rw [if_pos (hlegal e (by
      rw [hgiven, List.append_assoc]
      exact List.mem_append_right _ he))] at hok
    simp [hok]
  · rw [h.received, hgiven, onDevice, onDevice, onDevice, ← List.map_append,
      ← List.map_append, List.append_assoc]

/-- The outlet with what was handed over earlier in front. -/
def after (earlier : List (String × Tensor δ)) (o : Outlet δ) : Outlet δ :=
  { o with received := earlier ++ o.received }

theorem yieldNext_after (earlier : List (String × Tensor δ)) :
    (o.after earlier).yieldNext device buffer =
      (o.yieldNext device buffer).map (after earlier) := by
  obtain ⟨todo, pending, received, raised⟩ := o
  match raised, todo with
  | some err, _ => simp [yieldNext, after]
  | none, [] => simp [yieldNext, after]
  | none, (name, entry) :: todo =>
      cases hload : WeightBuckets.load device buffer entry <;>
        simp [yieldNext, after, hload]

theorem copyNext_after (earlier : List (String × Tensor δ)) :
    (o.after earlier).copyNext device buffer =
      (o.copyNext device buffer).map (after earlier) := by
  obtain ⟨todo, pending, received, raised⟩ := o
  match pending with
  | [] => simp [copyNext, after]
  | (name, entry) :: pending =>
      cases hload : WeightBuckets.load device buffer entry <;>
        simp [copyNext, after, hload]

/-- Every step of an outlet counts this down. -/
def work (o : Outlet δ) : Nat :=
  2 * o.todo.length + o.pending.length + if o.raised.isNone then 1 else 0

theorem work_yieldNext (hyield : o.yieldNext device buffer = some o') :
    o'.work < o.work := by
  obtain ⟨todo, pending, received, raised⟩ := o
  match raised, todo with
  | some err, _ => simp [yieldNext] at hyield
  | none, [] => simp [yieldNext] at hyield
  | none, (name, entry) :: todo =>
      cases hload : load device buffer entry with
      | error err =>
          simp only [yieldNext, hload, Option.some.injEq] at hyield
          subst hyield
          simp [work]
      | ok tensor =>
          simp only [yieldNext, hload, Option.some.injEq] at hyield
          subst hyield
          simp [work]
          omega

theorem work_copyNext (hcopy : o.copyNext device buffer = some o') :
    o'.work < o.work := by
  obtain ⟨todo, pending, received, raised⟩ := o
  match pending with
  | [] => simp [copyNext] at hcopy
  | (name, entry) :: pending =>
      cases hload : load device buffer entry with
      | error err => simp [copyNext, hload] at hcopy
      | ok tensor =>
          simp only [copyNext, hload, Option.some.injEq] at hcopy
          subst hcopy
          simp [work]

theorem work_refill (hdrained : o.drained = true) (metadata : Metadata δ) :
    (o.refill metadata).work =
      o.work + 2 * metadata.bucketMeta.entries.length := by
  obtain ⟨-, htodo, -⟩ := drained_iff.mp hdrained
  rw [work, work, refill, htodo, List.length_nil]
  simp only
  omega

end Outlet

end Receiver

section Delivery

/-- What shows at a receiver: the weights it was handed, the views it has and
has still to yield as they read now, and an exception. -/
structure Port (δ : Type) [Torch δ] where
  handed : List (String × Tensor δ)
  shown : List (String × Py (Tensor δ))
  raised : Option PyErr

def Outlet.port (device : Device) (buffer : List UInt8) (o : Outlet δ) :
    Port δ :=
  ⟨o.received, o.views device buffer, o.raised⟩

/-- Every receiver is handed the weights in order, intact, in every run. -/
structure Delivers {σ κ ι : Type} (system : Transition.System σ κ)
    (port : ι → σ → Port δ)
    (offered : σ → PyDict (TensorMeta δ) → List UInt8 → Prop)
    (device : Device) (bucketSize : Nat)
    (weights : List (String × Tensor δ)) : Prop where
  /-- no run goes on for ever -/
  bounded : ∃ bound, ∀ actions s,
    system.exec system.initial actions = some s → actions.length ≤ bound
  /-- every view is legal and reads its weight until it is copied -/
  inOrder : ∀ actions s, system.exec system.initial actions = some s → ∀ i,
    (port i s).raised = none ∧ ∃ seen,
      (port i s).shown = seen.map (fun w => (w.1, .ok w.2)) ∧
      (port i s).handed ++ seen <+: onDevice device weights
  /-- a buffer on offer holds its bucket -/
  intact : ∀ actions s, system.exec system.initial actions = some s →
    ∀ entries buffer, offered s entries buffer →
      ∃ bucket ∈ buckets bucketSize weights,
        entries = bucketMeta bucket ∧ content bucket <+: buffer
  /-- a run that cannot go on has handed over everything -/
  complete : ∀ actions s, system.exec system.initial actions = some s →
    (∀ a, system.step s a = none) → ∀ i,
      (port i s).handed = onDevice device weights

theorem length_entries_le (plan : List (List (String × Tensor δ))) :
    (entries plan).length ≤ plan.flatten.length := by
  induction plan with
  | nil => exact Nat.le_refl 0
  | cons bucket plan ih =>
      have hle := PyDict.length_ofList_le (placed 0 bucket)
      have hlength := congrArg List.length (placed_map_weight 0 bucket)
      rw [List.length_map] at hlength
      rw [entries, List.flatMap_cons, List.length_append, ← entries,
        List.flatten_cons, List.length_append, placements]
      omega

/-- Where no entry is lost no bucket has a name twice. -/
theorem nodup_of_length_entries {plan : List (List (String × Tensor δ))}
    (hlength : plan.flatten.length ≤ (entries plan).length) :
    ∀ bucket ∈ plan, (bucket.map Prod.fst).Nodup := by
  induction plan with
  | nil => simp
  | cons bucket plan ih =>
      have hrest := length_entries_le plan
      have hle := PyDict.length_ofList_le (placed 0 bucket)
      have hplaced := congrArg List.length (placed_map_weight 0 bucket)
      rw [List.length_map] at hplaced
      rw [entries, List.flatMap_cons, List.length_append, ← entries,
        List.flatten_cons, List.length_append, placements] at hlength
      rw [List.forall_mem_cons]
      constructor
      · have hnodup : ((placed 0 bucket).map Prod.fst).Nodup :=
          PyDict.nodup_of_length_le_ofList (by omega)
        have hkeys := congrArg (List.map Prod.fst) (placed_map_weight 0 bucket)
        rw [List.map_map] at hkeys
        exact hkeys ▸ hnodup
      · exact ih (by omega)

theorem entries_map_weight {plan : List (List (String × Tensor δ))}
    (hnodup : ∀ bucket ∈ plan, (bucket.map Prod.fst).Nodup) :
    (entries plan).map (fun e => (e.1, e.2.weight)) = plan.flatten := by
  induction plan with
  | nil => rfl
  | cons bucket plan ih =>
      obtain ⟨hbucket, hplan⟩ := List.forall_mem_cons.mp hnodup
      rw [entries, List.flatMap_cons, List.map_append, ← entries, ih hplan,
        placements_entries_of_nodup hbucket, placed_map_weight,
        List.flatten_cons]

/-- A receiver that was handed as many weights as were sent had a legal view
of each, and no bucket had a name twice. -/
theorem Outlet.Serves.complete_imp {device : Device} {buffer : List UInt8}
    {plan : List (List (String × Tensor δ))} {k : Nat} {o : Outlet δ}
    {handed shown later : List (String × Placement δ)}
    (h : o.Serves device buffer (entries (plan.take k)) handed shown later)
    (hlength : plan.flatten.length ≤ o.received.length) :
    (∀ bucket ∈ plan, (bucket.map Prod.fst).Nodup) ∧
      ∀ e ∈ entries plan, e.2.Legal := by
  have hfront : handed <+: entries plan :=
    List.IsPrefix.trans ⟨shown ++ later, by rw [h.given_eq, List.append_assoc]⟩
      (entries_take_append plan k)
  have hreceived : o.received.length = handed.length := by
    rw [h.received, onDevice, List.length_map, List.length_map]
  have hle := length_entries_le plan
  have hhanded : handed = entries plan :=
    hfront.eq_of_length_le (by omega)
  refine ⟨nodup_of_length_entries (by rw [← hhanded]; omega), fun e he => ?_⟩
  exact h.legal e (List.mem_append_left _ (hhanded ▸ he))

/-- With all entries there and legal, what a receiver was handed and what
shows at it are the first weights. -/
theorem Outlet.Serves.inOrder {device : Device} {buffer : List UInt8}
    {plan : List (List (String × Tensor δ))} {k : Nat} {o : Outlet δ}
    {handed shown later : List (String × Placement δ)}
    (h : o.Serves device buffer (entries (plan.take k)) handed shown later)
    (hnodup : ∀ bucket ∈ plan, (bucket.map Prod.fst).Nodup)
    (hlegal : ∀ e ∈ entries plan, e.2.Legal) :
    o.raised = none ∧ ∃ seen,
      o.views device buffer = seen.map (fun w => (w.1, .ok w.2)) ∧
      o.received ++ seen <+: onDevice device plan.flatten := by
  have hfront := entries_take_append plan k
  obtain ⟨hraised, seen, hviews, hseen⟩ := h.views_eq
    fun e he => hlegal e (hfront.subset he)
  refine ⟨hraised, seen, hviews, ?_⟩
  rw [hseen, ← entries_map_weight hnodup]
  exact (hfront.map _).map _

/-- A drained receiver that got all buckets was handed all weights. -/
theorem Outlet.Serves.received_eq {device : Device} {buffer : List UInt8}
    {plan : List (List (String × Tensor δ))} {o : Outlet δ}
    {handed shown later : List (String × Placement δ)}
    (h : o.Serves device buffer (entries plan) handed shown later)
    (hdrained : o.drained = true)
    (hnodup : ∀ bucket ∈ plan, (bucket.map Prod.fst).Nodup) :
    o.received = onDevice device plan.flatten := by
  obtain ⟨-, htodo, hpending⟩ := drained_iff.mp hdrained
  have hlater : later = [] := List.map_eq_nil_iff.mp (h.todo.symm.trans htodo)
  have hshown : shown = [] :=
    List.map_eq_nil_iff.mp (h.pending.symm.trans hpending)
  have hgiven := h.given_eq
  rw [hlater, hshown, List.append_nil, List.append_nil] at hgiven
  rw [h.received, ← hgiven, entries_map_weight hnodup]

/-- What `port` shows is an outlet working off the first buckets of the plan;
`kept` are weights it has copied and not handed over. -/
def Port.Shows (device : Device) (port : Port δ)
    (plan : List (List (String × Tensor δ)))
    (kept : List (String × Tensor δ)) (o : Outlet δ) : Prop :=
  ∃ buffer k handed shown later,
    o.Serves device buffer (entries (plan.take k)) handed shown later ∧
    port.raised = o.raised ∧ o.received = port.handed ++ kept ∧
    port.shown = kept.map (fun w => (w.1, .ok w.2)) ++ o.views device buffer

theorem Outlet.Serves.shows {device : Device} {buffer : List UInt8}
    {plan : List (List (String × Tensor δ))} {k : Nat} {o : Outlet δ}
    {handed shown later : List (String × Placement δ)}
    (h : o.Serves device buffer (entries (plan.take k)) handed shown later) :
    (o.port device buffer).Shows device plan [] o :=
  ⟨buffer, k, handed, shown, later, h, rfl, (List.append_nil _).symm, rfl⟩

/-- The rule for transfers: with an invariant under which each receiver works
off the plan, buffers on offer hold their buckets, and stuck means done, the
weights are delivered exactly if no bucket has a name twice and every entry is
legal. -/
theorem delivers_iff {σ κ ι : Type} [Nonempty ι]
    {system : Transition.System σ κ} {port : ι → σ → Port δ}
    {offered : σ → PyDict (TensorMeta δ) → List UInt8 → Prop}
    {device : Device} {bucketSize : Nat} {weights : List (String × Tensor δ)}
    {P : σ → Prop} {work : σ → Nat}
    (hinitial : P system.initial)
    (hstep : ∀ s a s', P s → system.step s a = some s' →
      P s' ∧ work s' < work s)
    (hshows : ∀ s, P s → ∀ i, ∃ kept o,
      (port i s).Shows device (buckets bucketSize weights) kept o)
    (hoffered : ∀ s, P s → ∀ entries buffer, offered s entries buffer →
      ∃ bucket ∈ buckets bucketSize weights,
        entries = bucketMeta bucket ∧ content bucket <+: buffer)
    (hstuck : ∀ s, P s → (∀ i, (port i s).raised = none) →
      (∀ a, system.step s a = none) →
      ∀ i, ∃ (o : Outlet δ) (buffer : List UInt8),
        (∃ handed shown later, o.Serves device buffer
          (entries (buckets bucketSize weights)) handed shown later) ∧
        o.drained = true ∧ (port i s).handed = o.received) :
    Delivers system port offered device bucketSize weights ↔
      (∀ bucket ∈ buckets bucketSize weights,
        (bucket.map Prod.fst).Nodup) ∧
      ∀ e ∈ entries (buckets bucketSize weights), e.2.Legal := by
  have hreach : ∀ actions s,
      system.exec system.initial actions = some s → P s :=
    fun _ _ hrun => Transition.System.invariant
      (fun s a s' hs hs' => (hstep s a s' hs hs').1) hinitial hrun
  constructor
  · intro hdelivers
    obtain ⟨actions, s, hrun, hend⟩ :=
      Transition.System.exists_stuck hstep hinitial
    have i : ι := Classical.arbitrary ι
    obtain ⟨kept, o, buffer, k, handed, shown, later, hserves, -, hreceived,
      -⟩ := hshows s (hreach actions s hrun) i
    apply hserves.complete_imp
    rw [hreceived, List.length_append, flatten_buckets,
      hdelivers.complete actions s hrun hend i, onDevice, List.length_map]
    omega
  · rintro ⟨hnodup, hlegal⟩
    have hinOrder : ∀ s, P s → ∀ i, (port i s).raised = none ∧ ∃ seen,
        (port i s).shown = seen.map (fun w => (w.1, .ok w.2)) ∧
        (port i s).handed ++ seen <+: onDevice device weights := by
      intro s hs i
      obtain ⟨kept, o, buffer, k, handed, shown, later, hserves, hraised,
        hreceived, hshown⟩ := hshows s hs i
      obtain ⟨hnone, seen, hviews, hfront⟩ := hserves.inOrder hnodup hlegal
      rw [flatten_buckets, hreceived, List.append_assoc] at hfront
      refine ⟨hraised.trans hnone, kept ++ seen, ?_, hfront⟩
      rw [hshown, hviews, List.map_append]
    refine ⟨⟨work system.initial, fun actions s hrun => ?_⟩,
      fun actions s hrun => hinOrder s (hreach actions s hrun),
      fun actions s hrun => hoffered s (hreach actions s hrun),
      fun actions s hrun hend i => ?_⟩
    · exact Nat.le_of_add_right_le
        (Transition.System.length_add_le hstep hinitial hrun)
    · have hs := hreach actions s hrun
      obtain ⟨o, buffer, ⟨handed, shown, later, hserves⟩, hdrained, hhanded⟩ :=
        hstuck s hs (fun i => (hinOrder s hs i).1) hend i
      rw [hhanded, hserves.received_eq hdrained hnodup, flatten_buckets]

theorem nodup_of_mem_buckets {bucketSize : Nat}
    {weights : List (String × Tensor δ)}
    (hnodup : (weights.map Prod.fst).Nodup)
    {bucket : List (String × Tensor δ)}
    (hbucket : bucket ∈ buckets bucketSize weights) :
    (bucket.map Prod.fst).Nodup := by
  rw [← flatten_buckets bucketSize weights] at hnodup
  exact hnodup.sublist ((List.sublist_flatten_of_mem hbucket).map Prod.fst)

/-- With distinct names every weight of a bucket has its entry. -/
theorem legal_iff_aligned {bucketSize : Nat}
    {weights : List (String × Tensor δ)}
    (hnodup : (weights.map Prod.fst).Nodup) :
    (∀ e ∈ entries (buckets bucketSize weights), e.2.Legal) ↔
      Aligned bucketSize weights := by
  simp only [entries, List.mem_flatMap, Aligned]
  constructor
  · intro h bucket hbucket e he
    rw [← placements_entries_of_nodup
      (nodup_of_mem_buckets hnodup hbucket)] at he
    exact h e ⟨bucket, hbucket, he⟩
  · rintro h e ⟨bucket, hbucket, he⟩
    exact h bucket hbucket e (mem_placed_of_mem_placements he)

end Delivery

end WeightBuckets

end SelfDistillation
