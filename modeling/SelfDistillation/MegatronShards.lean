/-
How a weight is cut into a piece for every tensor-parallel rank and put
together again (verl/models/mcore/loader.py and saver.py). A weight is the
list of its slices along the dimension it is cut on.
-/
import SelfDistillation.Python
import SelfDistillation.Library.SliceAssign

namespace SelfDistillation

namespace MegatronCheckpoint

open Blocks Chunks Buffer TryLoop

/-- What is read of the Hugging Face configuration, of the Megatron one and of
the parallel state. -/
structure Config where
  numHiddenLayers : Nat
  hiddenSize : Nat
  headDim : Option Nat
  numAttentionHeads : Nat
  numKeyValueHeads : Nat
  intermediateSize : Nat
  numQueryGroups : Nat
  qkLayernorm : Bool
  addQkvBias : Bool
  isValueModel : Bool
  tieWordEmbeddings : Bool
  tpSize : Nat
  cpSize : Nat
  dpSize : Nat
  ppSize : Nat
  vppSize : Nat

section Torch

variable {σ : Type}

/-- `torch.chunk(xs, n)`, along the dimension of the list. -/
def chunk (xs : List σ) (n : Nat) : Py (List (List σ)) :=
  if n = 0 then
    .error (.runtimeError
      "chunk expects `chunks` to be greater than 0, got: 0")
  else if xs.isEmpty then .ok (List.replicate n [])
  else .ok (chunksOf ((xs.length + n - 1) / n) xs)

/-- `torch.cat(xss)` -/
def cat (xss : List (List σ)) : Py (List σ) :=
  if xss.isEmpty then
    .error (.runtimeError "torch.cat(): expected a non-empty list of Tensors")
  else .ok xss.flatten

/-- `pieces[j]` -/
def pieceAt (pieces : List (List σ)) (j : Nat) : Py (List σ) :=
  match pieces[j]? with
  | some piece => .ok piece
  | none => .error .indexError

/-- `buf[start:stop].copy_(src)` -/
def copySlice (buf : List σ) (start stop : Nat) (src : List σ) :
    Py (List σ) :=
  match copyAt? buf start stop src with
  | some buf' => .ok buf'
  | none =>
      .error (.runtimeError "The sizes of the tensors must match")

variable {n m : Nat} {f : Nat → List σ}

theorem chunk_blocks (hn : 0 < n) (hlen : ∀ i < n, (f i).length = m) :
    chunk (blocks n f) n = .ok ((List.range n).map f) := by
  have hlength := length_blocks hlen
  rw [chunk, if_neg hn.ne']
  rcases Nat.eq_zero_or_pos m with rfl | hm
  · have hempty : blocks n f = [] := List.eq_nil_of_length_eq_zero hlength
    rw [hempty, List.isEmpty_nil, if_pos rfl]
    congr 1
    symm
    rw [List.eq_replicate_iff]
    refine ⟨by simp, fun piece hpiece => ?_⟩
    obtain ⟨i, hi, rfl⟩ := List.mem_map.mp hpiece
    exact List.eq_nil_of_length_eq_zero (hlen i (List.mem_range.mp hi))
  · have hne : (blocks n f).isEmpty = false := by
      rw [List.isEmpty_eq_false_iff, ← List.length_pos_iff, hlength]
      exact Nat.mul_pos hn hm
    have hsize : ((blocks n f).length + n - 1) / n = m := by
      rw [hlength]
      apply Nat.div_eq_of_lt_le
      · rw [Nat.mul_comm]
        omega
      · rw [Nat.succ_mul, Nat.mul_comm]
        omega
    rw [hne, if_neg Bool.false_ne_true, hsize, chunksOf_blocks hm hlen]

theorem cat_map_range (hn : 0 < n) :
    cat ((List.range n).map f) = .ok (blocks n f) := by
  have hne : ((List.range n).map f).isEmpty = false := by
    rw [List.isEmpty_eq_false_iff]
    intro h
    have hlen := congrArg List.length h
    simp only [List.length_map, List.length_range, List.length_nil] at hlen
    omega
  rw [cat, hne, if_neg Bool.false_ne_true, blocks, List.flatMap_def]

theorem pieceAt_map_range {i : Nat} (hi : i < n) :
    pieceAt ((List.range n).map f) i = .ok (f i) := by
  rw [pieceAt, List.getElem?_map, List.getElem?_range hi]
  rfl

end Torch

namespace Config

variable {σ : Type} (cfg : Config)

/-- `getattr(config, "head_dim", hidden_size // num_attention_heads)` -/
def hiddenSizePerHead : Py Nat :=
  if cfg.numAttentionHeads = 0 then .error .zeroDivisionError
  else .ok (cfg.headDim.getD (cfg.hiddenSize / cfg.numAttentionHeads))

/-- The gate and up weights of `_broadcast_tp_shard_tensor_gate_up` in one;
`fill` is what `torch.empty` holds. -/
def gateUpWeight (fill : σ) (gateWeight upWeight : List σ) : Py (List σ) :=
  tryRange cfg.tpSize (List.replicate (cfg.intermediateSize * 2) fill)
    fun i newGateUpWeight =>
      let intermediateSizeTp := cfg.intermediateSize / cfg.tpSize
      let gateWeightTp := window gateWeight (i * intermediateSizeTp)
        ((i + 1) * intermediateSizeTp)
      let upWeightTp := window upWeight (i * intermediateSizeTp)
        ((i + 1) * intermediateSizeTp)
      copySlice newGateUpWeight (intermediateSizeTp * 2 * i)
        (intermediateSizeTp * 2 * (i + 1)) (gateWeightTp ++ upWeightTp)

/-- The pieces of a query, key and value part, in turn, in the part of the
joined weight that belongs to one rank. -/
def interleave (pieces totalSizePerHead : Nat)
    (qPart kPart vPart newWeightQkvThisTp : List σ) : Py (List σ) := do
  let qPartPerHead ← chunk qPart pieces
  let kPartPerHead ← chunk kPart pieces
  let vPartPerHead ← chunk vPart pieces
  tryRange pieces newWeightQkvThisTp fun j buf => do
    let q ← pieceAt qPartPerHead j
    let k ← pieceAt kPartPerHead j
    let v ← pieceAt vPartPerHead j
    copySlice buf (j * totalSizePerHead) ((j + 1) * totalSizePerHead)
      (q ++ k ++ v)

/-- The joined weight of `_broadcast_tp_shard_tensor_qkv`. -/
def qkvWeight (fill : σ) (fullWeightQ fullWeightK fullWeightV : List σ) :
    Py (List σ) := do
  let hiddenSizePerHead ← cfg.hiddenSizePerHead
  let qSizeTp := hiddenSizePerHead * cfg.numAttentionHeads / cfg.tpSize
  if cfg.tpSize ≤ cfg.numKeyValueHeads then
    let kvSizeTp := hiddenSizePerHead * cfg.numKeyValueHeads / cfg.tpSize
    let totalSize := qSizeTp + 2 * kvSizeTp
    tryRange cfg.tpSize (List.replicate (totalSize * cfg.tpSize) fill)
      fun i newWeightQkv => do
        let numQueryGroupsPerPartition := cfg.numQueryGroups / cfg.tpSize
        let newWeightQkvThisTp ← interleave numQueryGroupsPerPartition
          (totalSize / numQueryGroupsPerPartition)
          (window fullWeightQ (i * qSizeTp) ((i + 1) * qSizeTp))
          (window fullWeightK (i * kvSizeTp) ((i + 1) * kvSizeTp))
          (window fullWeightV (i * kvSizeTp) ((i + 1) * kvSizeTp))
          (window newWeightQkv (i * totalSize) ((i + 1) * totalSize))
        -- the part is a view of the joined weight
        copySlice newWeightQkv (i * totalSize) ((i + 1) * totalSize)
          newWeightQkvThisTp
  else
    let kvSizeTp := hiddenSizePerHead
    let totalSize := qSizeTp + 2 * kvSizeTp
    tryRange cfg.tpSize (List.replicate (totalSize * cfg.tpSize) fill)
      fun i newWeightQkv => do
        let startIdx :=
          i * cfg.numKeyValueHeads / cfg.tpSize * hiddenSizePerHead
        let endIdx :=
          (i * cfg.numKeyValueHeads / cfg.tpSize + 1) * hiddenSizePerHead
        let newWeightQkvThisTp ← interleave cfg.numAttentionHeads
          (totalSize / cfg.numAttentionHeads)
          (window fullWeightQ (i * qSizeTp) ((i + 1) * qSizeTp))
          (window fullWeightK startIdx endIdx)
          (window fullWeightV startIdx endIdx)
          (window newWeightQkv (i * totalSize) ((i + 1) * totalSize))
        copySlice newWeightQkv (i * totalSize) ((i + 1) * totalSize)
          newWeightQkvThisTp

/-- What the saver makes of the joined gate and up weight. -/
def splitGateUp (fullTensor : List σ) : Py (List σ × List σ) := do
  let intermediateSizeTp := cfg.intermediateSize / cfg.tpSize
  let gateUpWeightTp (i : Nat) := window fullTensor
    (intermediateSizeTp * 2 * i) (intermediateSizeTp * 2 * (i + 1))
  let gateWeight ← cat ((List.range cfg.tpSize).map fun i =>
    (gateUpWeightTp i).take intermediateSizeTp)
  let upWeight ← cat ((List.range cfg.tpSize).map fun i =>
    (gateUpWeightTp i).drop intermediateSizeTp)
  .ok (gateWeight, upWeight)

/-- The lists the saver collects the parts of a joined weight in. -/
structure QkvLists (σ : Type) where
  q : List (List σ)
  k : List (List σ)
  v : List (List σ)

/-- One piece of a rank's part, cut in three; the key and value parts are
collected when `keep` says so. -/
def QkvLists.push (qSizeChunk kvSizeChunk : Nat) (keep : Bool)
    (lists : QkvLists σ) (qkvPartChunk : List σ) : QkvLists σ where
  q := lists.q ++ [qkvPartChunk.take qSizeChunk]
  k := if keep then
      lists.k ++ [window qkvPartChunk qSizeChunk (qSizeChunk + kvSizeChunk)]
    else lists.k
  v := if keep then lists.v ++ [qkvPartChunk.drop (qSizeChunk + kvSizeChunk)]
    else lists.v

/-- Rank `i`'s part of the joined weight, cut in pieces. -/
def splitPart (qSizeTp kvSizeTp : Nat) (fullTensor : List σ) (i : Nat)
    (lists : QkvLists σ) : Py (QkvLists σ) := do
  let totalSize := qSizeTp + 2 * kvSizeTp
  let numQueryGroupsPerPartition := cfg.numQueryGroups / cfg.tpSize
  let qkvPart := window fullTensor (i * totalSize) ((i + 1) * totalSize)
  if numQueryGroupsPerPartition = 0 then .error .zeroDivisionError
  else
    let qSizeChunk := qSizeTp / numQueryGroupsPerPartition
    let kvSizeChunk := kvSizeTp / numQueryGroupsPerPartition
    let chunks ← chunk qkvPart numQueryGroupsPerPartition
    -- with fewer key and value heads than ranks several ranks hold each head
    let keep := cfg.tpSize ≤ cfg.numKeyValueHeads ∨
      i * cfg.numKeyValueHeads % cfg.tpSize = 0
    .ok (chunks.foldl (QkvLists.push qSizeChunk kvSizeChunk keep) lists)

/-- What the saver makes of the joined query, key and value weight. -/
def splitQkv (fullTensor : List σ) : Py (List σ × List σ × List σ) := do
  let hiddenSizePerHead ← cfg.hiddenSizePerHead
  let qSizeTp := hiddenSizePerHead * cfg.numAttentionHeads / cfg.tpSize
  let kvSizeTp :=
    if cfg.tpSize ≤ cfg.numKeyValueHeads then
      hiddenSizePerHead * cfg.numKeyValueHeads / cfg.tpSize
    else hiddenSizePerHead
  let lists ← tryRange cfg.tpSize ⟨[], [], []⟩
    (cfg.splitPart qSizeTp kvSizeTp fullTensor)
  let q ← cat lists.q
  let k ← cat lists.k
  let v ← cat lists.v
  .ok (q, k, v)

end Config

section RoundTrip

variable {σ : Type} {cfg : Config} {fill : σ}

theorem copySlice_of_copyAt? {buf buf' src : List σ} {start stop : Nat}
    (h : copyAt? buf start stop src = some buf') :
    copySlice buf start stop src = .ok buf' := by
  rw [copySlice, h]

section GateUp

variable {m : Nat} {gate up : Nat → List σ} (htp : 0 < cfg.tpSize)
  (hsize : cfg.intermediateSize = cfg.tpSize * m)
  (hgate : ∀ i < cfg.tpSize, (gate i).length = m)
  (hup : ∀ i < cfg.tpSize, (up i).length = m)

include hgate hup in
theorem length_gateUp : ∀ i < cfg.tpSize, (gate i ++ up i).length = m * 2 := by
  intro i hi
  rw [List.length_append, hgate i hi, hup i hi, Nat.mul_two]

include htp hsize in
theorem intermediateSizeTp_eq : cfg.intermediateSize / cfg.tpSize = m := by
  rw [hsize, Nat.mul_div_cancel_left m htp]

include htp hsize hgate hup

/-- The gate and up parts of every rank, one after the other. -/
theorem gateUpWeight_blocks :
    cfg.gateUpWeight fill (blocks cfg.tpSize gate) (blocks cfg.tpSize up) =
      .ok (blocks cfg.tpSize fun i => gate i ++ up i) := by
  have hroom : cfg.tpSize * (m * 2) =
      (List.replicate (cfg.intermediateSize * 2) fill).length := by
    rw [List.length_replicate, hsize, Nat.mul_assoc]
  rw [Config.gateUpWeight,
    tryRange_copyAt (length_gateUp hgate hup) hroom.le]
  · rw [hroom, List.drop_length, List.append_nil]
  · intro i hi buf buf' _ hcopy
    have hg : window (blocks cfg.tpSize gate) (i * m) ((i + 1) * m) = gate i :=
      slice_blocks hgate hi
    have hu : window (blocks cfg.tpSize up) (i * m) ((i + 1) * m) = up i :=
      slice_blocks hup hi
    rw [Nat.mul_comm i, Nat.mul_comm (i + 1)] at hcopy
    simp only [intermediateSizeTp_eq htp hsize, hg, hu]
    exact copySlice_of_copyAt? hcopy

theorem splitGateUp_blocks :
    cfg.splitGateUp (blocks cfg.tpSize fun i => gate i ++ up i) =
      .ok (blocks cfg.tpSize gate, blocks cfg.tpSize up) := by
  -- `part` is the half of a rank's slices that is taken
  have hpart (part : List σ → List σ) (f : Nat → List σ)
      (hf : ∀ i < cfg.tpSize, part (gate i ++ up i) = f i) :
      ((List.range cfg.tpSize).map fun i =>
        part (window (blocks cfg.tpSize fun i => gate i ++ up i) (m * 2 * i)
          (m * 2 * (i + 1)))) = (List.range cfg.tpSize).map f := by
    apply List.map_congr_left
    intro i hi
    have hi := List.mem_range.mp hi
    rw [← hf i hi, Nat.mul_comm _ i, Nat.mul_comm _ (i + 1)]
    exact congrArg part (slice_blocks (length_gateUp hgate hup) hi)
  have htake := hpart (List.take m) gate fun i hi => by
    rw [← hgate i hi, List.take_left]
  have hdrop := hpart (List.drop m) up fun i hi => by
    rw [← hgate i hi, List.drop_left]
  simp only [Config.splitGateUp, intermediateSizeTp_eq htp hsize, htake,
    hdrop, cat_map_range htp, ok_bind]

end GateUp

section Pieces

variable {pieces a b c : Nat} {q k v : Nat → List σ}

theorem length_pieces (hq : ∀ j < pieces, (q j).length = a)
    (hk : ∀ j < pieces, (k j).length = b)
    (hv : ∀ j < pieces, (v j).length = c) :
    ∀ j < pieces, (q j ++ k j ++ v j).length = a + b + c := by
  intro j hj
  rw [List.length_append, List.length_append, hq j hj, hk j hj, hv j hj]

theorem interleave_blocks {buf : List σ} (hpieces : 0 < pieces)
    (hq : ∀ j < pieces, (q j).length = a)
    (hk : ∀ j < pieces, (k j).length = b)
    (hv : ∀ j < pieces, (v j).length = c)
    (hbuf : buf.length = pieces * (a + b + c)) :
    Config.interleave pieces (a + b + c) (blocks pieces q) (blocks pieces k)
      (blocks pieces v) buf =
        .ok (blocks pieces fun j => q j ++ k j ++ v j) := by
  rw [Config.interleave, chunk_blocks hpieces hq, ok_bind,
    chunk_blocks hpieces hk, ok_bind, chunk_blocks hpieces hv, ok_bind,
    tryRange_copyAt (length_pieces hq hk hv) hbuf.ge]
  · rw [← hbuf, List.drop_length, List.append_nil]
  · intro j hj s s' _ hcopy
    simp only [pieceAt_map_range hj, ok_bind]
    exact copySlice_of_copyAt? hcopy

theorem foldl_push (keep : Bool) (lists : Config.QkvLists σ)
    (hq : ∀ j < pieces, (q j).length = a)
    (hk : ∀ j < pieces, (k j).length = b) (hkeep : keep = true) :
    ((List.range pieces).map fun j => q j ++ k j ++ v j).foldl
        (Config.QkvLists.push a b keep) lists =
      ⟨lists.q ++ (List.range pieces).map q,
        lists.k ++ (List.range pieces).map k,
        lists.v ++ (List.range pieces).map v⟩ := by
  subst hkeep
  induction pieces with
  | zero => simp
  | succ n ih =>
      have hqn := hq n n.lt_succ_self
      have hkn := hk n n.lt_succ_self
      have htake : (q n ++ (k n ++ v n)).take a = q n := by
        rw [← hqn, List.take_left]
      have hwindow : window (q n ++ (k n ++ v n)) a (a + b) = k n := by
        rw [window, ← hqn, List.take_length_add_append, List.drop_left, ← hkn,
          List.take_left]
      have hdrop : (q n ++ (k n ++ v n)).drop (a + b) = v n := by
        rw [← hqn, List.drop_length_add_append, ← hkn, List.drop_left]
      rw [List.range_succ, List.map_append, List.foldl_append,
        ih (fun j hj => hq j (Nat.lt_succ_of_lt hj))
          fun j hj => hk j (Nat.lt_succ_of_lt hj)]
      simp [Config.QkvLists.push, htake, hwindow, hdrop]

end Pieces

/-- What is collected from the first `n` ranks. -/
def Config.QkvLists.ofRanks (n groups : Nat) (q k v : Nat → Nat → List σ) :
    Config.QkvLists σ where
  q := (List.range n).flatMap fun i => (List.range groups).map (q i)
  k := (List.range n).flatMap fun i => (List.range groups).map (k i)
  v := (List.range n).flatMap fun i => (List.range groups).map (v i)

theorem totalSize_eq (groups hidden heads : Nat) :
    groups * (hidden * heads) + 2 * (groups * hidden) =
      groups * (hidden * heads + hidden + hidden) := by
  ring

/-- Every rank has `groups` query groups, each of `heads` query heads with a
key and a value head. -/
structure GroupsPerRank (cfg : Config) (hidden groups heads : Nat) : Prop where
  tp_pos : 0 < cfg.tpSize
  groups_pos : 0 < groups
  hidden_eq : cfg.hiddenSizePerHead = .ok hidden
  attentionHeads : cfg.numAttentionHeads = cfg.tpSize * (groups * heads)
  keyValueHeads : cfg.numKeyValueHeads = cfg.tpSize * groups
  queryGroups : cfg.numQueryGroups = cfg.tpSize * groups

namespace GroupsPerRank

variable {hidden groups heads : Nat}
  (h : GroupsPerRank cfg hidden groups heads) {q k v : Nat → Nat → List σ}

include h

theorem tp_le : cfg.tpSize ≤ cfg.numKeyValueHeads := by
  rw [h.keyValueHeads]
  exact Nat.le_mul_of_pos_right _ h.groups_pos

theorem qSizeTp : hidden * cfg.numAttentionHeads / cfg.tpSize =
    groups * (hidden * heads) := by
  rw [h.attentionHeads, Nat.mul_left_comm, Nat.mul_div_cancel_left _ h.tp_pos,
    Nat.mul_left_comm]

theorem kvSizeTp : hidden * cfg.numKeyValueHeads / cfg.tpSize =
    groups * hidden := by
  rw [h.keyValueHeads, Nat.mul_left_comm, Nat.mul_div_cancel_left _ h.tp_pos,
    Nat.mul_comm]

theorem groupsPerPartition : cfg.numQueryGroups / cfg.tpSize = groups := by
  rw [h.queryGroups, Nat.mul_div_cancel_left _ h.tp_pos]

variable
  (hq : ∀ i < cfg.tpSize, ∀ j < groups, (q i j).length = hidden * heads)
  (hk : ∀ i < cfg.tpSize, ∀ j < groups, (k i j).length = hidden)
  (hv : ∀ i < cfg.tpSize, ∀ j < groups, (v i j).length = hidden)

include hq hk hv

omit h in
theorem length_part : ∀ i < cfg.tpSize,
    (blocks groups fun j => q i j ++ k i j ++ v i j).length =
      groups * (hidden * heads + hidden + hidden) := fun i hi =>
  length_blocks (length_pieces (hq i hi) (hk i hi) (hv i hi))

/-- Each rank's part holds its groups, each with its query, key and value
slices together. -/
theorem qkvWeight_blocks :
    cfg.qkvWeight fill (blocks cfg.tpSize fun i => blocks groups (q i))
        (blocks cfg.tpSize fun i => blocks groups (k i))
        (blocks cfg.tpSize fun i => blocks groups (v i)) =
      .ok (blocks cfg.tpSize fun i =>
        blocks groups fun j => q i j ++ k i j ++ v i j) := by
  have hqs : ∀ i < cfg.tpSize, (blocks groups (q i)).length =
      groups * (hidden * heads) := fun i hi => length_blocks (hq i hi)
  have hks : ∀ i < cfg.tpSize, (blocks groups (k i)).length =
      groups * hidden := fun i hi => length_blocks (hk i hi)
  have hvs : ∀ i < cfg.tpSize, (blocks groups (v i)).length =
      groups * hidden := fun i hi => length_blocks (hv i hi)
  have hroom : cfg.tpSize * (groups * (hidden * heads + hidden + hidden)) =
      (List.replicate (groups * (hidden * heads + hidden + hidden) *
        cfg.tpSize) fill).length := by
    rw [List.length_replicate, Nat.mul_comm]
  rw [Config.qkvWeight, h.hidden_eq, ok_bind, if_pos h.tp_le]
  simp only [h.qSizeTp, h.kvSizeTp, h.groupsPerPartition, totalSize_eq,
    Nat.mul_div_cancel_left _ h.groups_pos]
  rw [tryRange_copyAt (length_part hq hk hv) hroom.le]
  · rw [hroom, List.drop_length, List.append_nil]
  · intro i hi buf buf' hbuf hcopy
    have hview : (window buf
        (i * (groups * (hidden * heads + hidden + hidden)))
        ((i + 1) * (groups * (hidden * heads + hidden + hidden)))).length =
          groups * (hidden * heads + hidden + hidden) := by
      have hle := Nat.mul_le_mul_right
        (groups * (hidden * heads + hidden + hidden)) (Nat.succ_le_of_lt hi)
      rw [hroom, ← hbuf] at hle
      rw [window, List.length_drop, List.length_take, min_eq_left hle,
        Nat.succ_mul, Nat.add_sub_cancel_left]
    have hwq : window (blocks cfg.tpSize fun i => blocks groups (q i))
        (i * (groups * (hidden * heads)))
        ((i + 1) * (groups * (hidden * heads))) = blocks groups (q i) :=
      slice_blocks hqs hi
    have hwk : window (blocks cfg.tpSize fun i => blocks groups (k i))
        (i * (groups * hidden)) ((i + 1) * (groups * hidden)) =
          blocks groups (k i) := slice_blocks hks hi
    have hwv : window (blocks cfg.tpSize fun i => blocks groups (v i))
        (i * (groups * hidden)) ((i + 1) * (groups * hidden)) =
          blocks groups (v i) := slice_blocks hvs hi
    rw [hwq, hwk, hwv, interleave_blocks h.groups_pos (hq i hi) (hk i hi)
      (hv i hi) hview, ok_bind]
    exact copySlice_of_copyAt? hcopy

theorem splitQkv_blocks :
    cfg.splitQkv (blocks cfg.tpSize fun i =>
        blocks groups fun j => q i j ++ k i j ++ v i j) =
      .ok (blocks cfg.tpSize fun i => blocks groups (q i),
        blocks cfg.tpSize fun i => blocks groups (k i),
        blocks cfg.tpSize fun i => blocks groups (v i)) := by
  have hcat (f : Nat → Nat → List σ) :
      cat ((List.range cfg.tpSize).flatMap fun i =>
        (List.range groups).map (f i)) =
          .ok (blocks cfg.tpSize fun i => blocks groups (f i)) := by
    have hne : ((List.range cfg.tpSize).flatMap fun i =>
        (List.range groups).map (f i)).isEmpty = false := by
      rw [List.isEmpty_eq_false_iff, ← List.length_pos_iff,
        List.length_flatMap]
      simpa using Nat.mul_pos h.tp_pos h.groups_pos
    rw [cat, hne, if_neg Bool.false_ne_true]
    simp only [blocks, List.flatMap_def, List.flatten_flatten, List.map_map]
    rfl
  have hloop : ∃ lists, tryRange cfg.tpSize ⟨[], [], []⟩
      (cfg.splitPart (groups * (hidden * heads)) (groups * hidden)
        (blocks cfg.tpSize fun i =>
          blocks groups fun j => q i j ++ k i j ++ v i j)) = .ok lists ∧
        lists = .ofRanks cfg.tpSize groups q k v :=
    exists_tryRange
      (fun n lists => lists = Config.QkvLists.ofRanks n groups q k v) rfl
    fun i hi lists hlists => by
      have hwindow : window (blocks cfg.tpSize fun i =>
          blocks groups fun j => q i j ++ k i j ++ v i j)
          (i * (groups * (hidden * heads + hidden + hidden)))
          ((i + 1) * (groups * (hidden * heads + hidden + hidden))) =
            blocks groups fun j => q i j ++ k i j ++ v i j :=
        slice_blocks (length_part hq hk hv) hi
      refine ⟨_, ?_, rfl⟩
      simp only [Config.splitPart, h.groupsPerPartition, h.groups_pos.ne',
        if_false, totalSize_eq, hwindow,
        Nat.mul_div_cancel_left _ h.groups_pos, h.tp_le, true_or,
        decide_true]
      rw [chunk_blocks h.groups_pos
          (length_pieces (hq i hi) (hk i hi) (hv i hi)), ok_bind,
        foldl_push true lists (hq i hi) (hk i hi) rfl, hlists]
      simp only [Config.QkvLists.ofRanks, List.range_succ,
        List.flatMap_append, List.flatMap_singleton]
  obtain ⟨lists, hlists, rfl⟩ := hloop
  simp only [Config.splitQkv, h.hidden_eq, ok_bind, h.tp_le, if_true,
    h.qSizeTp, h.kvSizeTp]
  rw [hlists]
  simp only [ok_bind, Config.QkvLists.ofRanks, hcat]

end GroupsPerRank

end RoundTrip

end MegatronCheckpoint

end SelfDistillation
