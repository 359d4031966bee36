/-
What `load_state_dict_to_megatron_gptmodel` leaves in the processes of a
Megatron model.
-/
import SelfDistillation.MegatronCheckpoint

namespace SelfDistillation

namespace MegatronCheckpoint

open Blocks Chunks Buffer TryLoop

/-- A configuration Megatron accepts. -/
structure Valid (cfg : Config) : Prop where
  tp_pos : 0 < cfg.tpSize
  cp_pos : 0 < cfg.cpSize
  dp_pos : 0 < cfg.dpSize
  pp_pos : 0 < cfg.ppSize
  vpp_pos : 0 < cfg.vppSize
  layers : cfg.ppSize * cfg.vppSize ∣ cfg.numHiddenLayers
  kv_pos : 0 < cfg.numKeyValueHeads
  heads_pos : 0 < cfg.numAttentionHeads
  kv_dvd : cfg.numKeyValueHeads ∣ cfg.numAttentionHeads
  queryGroups : cfg.numQueryGroups = cfg.numKeyValueHeads
  tp_kv : cfg.tpSize ∣ cfg.numKeyValueHeads ∨ cfg.numKeyValueHeads ∣ cfg.tpSize
  intermediate : cfg.tpSize ∣ cfg.intermediateSize

/-- The layer at a place of the model chunks. -/
def Config.layerAt (cfg : Config) (pp vpp idx : Nat) : Nat :=
  (vpp * cfg.ppSize + pp) * cfg.numLayersPerModel + idx

section Layout

variable {σ : Type} {cfg : Config}

theorem layerAt_inj {pp pp' vpp vpp' idx idx' : Nat} (hpp : pp < cfg.ppSize)
    (hpp' : pp' < cfg.ppSize) (hidx : idx < cfg.numLayersPerModel)
    (hidx' : idx' < cfg.numLayersPerModel)
    (heq : cfg.layerAt pp vpp idx = cfg.layerAt pp' vpp' idx') :
    pp = pp' ∧ vpp = vpp' ∧ idx = idx' := by
  obtain ⟨hchunk, hi⟩ := place_inj hidx hidx' heq
  obtain ⟨hv, hp⟩ := place_inj hpp hpp' hchunk
  exact ⟨hp, hv, hi⟩

theorem mem_processes {c : Coord} : c ∈ cfg.processes ↔
    c.tp < cfg.tpSize ∧ c.cp < cfg.cpSize ∧ c.dp < cfg.dpSize ∧
      c.pp < cfg.ppSize := by
  simp only [Config.processes, List.mem_flatMap, List.mem_map, List.mem_range]
  constructor
  · rintro ⟨pp, hpp, dp, hdp, cp, hcp, tp, htp, rfl⟩
    exact ⟨htp, hcp, hdp, hpp⟩
  · rintro ⟨htp, hcp, hdp, hpp⟩
    exact ⟨c.pp, hpp, c.dp, hdp, c.cp, hcp, c.tp, htp, rfl⟩

/-- No two processes have the same global rank. -/
theorem calcGlobalRank_inj {c c' : Coord} (hc : c ∈ cfg.processes)
    (hc' : c' ∈ cfg.processes)
    (heq : cfg.calcGlobalRank c = cfg.calcGlobalRank c') : c = c' := by
  obtain ⟨htp, hcp, hdp, -⟩ := mem_processes.mp hc
  obtain ⟨htp', hcp', hdp', -⟩ := mem_processes.mp hc'
  obtain ⟨hrest, ht⟩ := place_inj htp htp' heq
  obtain ⟨hrest, hcpeq⟩ := place_inj hcp hcp' hrest
  obtain ⟨hpp, hd⟩ := place_inj hdp hdp' hrest
  cases c
  cases c'
  simp_all

theorem atRank_calcGlobalRank {tensor : Coord → Option (List σ)} {c : Coord}
    (hc : c ∈ cfg.processes) :
    cfg.atRank tensor (cfg.calcGlobalRank c) = tensor c := by
  rw [Config.atRank]
  cases hfind : cfg.processes.find? fun c' =>
      cfg.calcGlobalRank c' == cfg.calcGlobalRank c with
  | none =>
      have hnot := List.find?_eq_none.mp hfind c hc
      simp at hnot
  | some c' =>
      have hrank := List.find?_some hfind
      have hc' := List.mem_of_find?_eq_some hfind
      rw [calcGlobalRank_inj hc' hc (beq_iff_eq.mp hrank), Option.bind_some]

variable (h : Valid cfg)

include h

theorem Valid.numLayers : cfg.numHiddenLayers =
    cfg.vppSize * cfg.ppSize * cfg.numLayersPerModel := by
  obtain ⟨n, hn⟩ := h.layers
  have hper : cfg.numLayersPerModel = n := by
    rw [Config.numLayersPerModel, hn, Nat.mul_assoc,
      Nat.mul_div_cancel_left _ h.pp_pos, Nat.mul_div_cancel_left _ h.vpp_pos]
  rw [hper, hn, Nat.mul_comm cfg.vppSize]

theorem Valid.assertion :
    (cfg.numLayersPerModel * cfg.ppSize * cfg.vppSize ==
      cfg.numHiddenLayers) = true := by
  rw [beq_iff_eq, h.numLayers]
  ring

theorem mem_layerMapItems {item : Nat × Nat × Nat × Nat} :
    item ∈ cfg.layerMapItems ↔ ∃ pp < cfg.ppSize, ∃ vpp < cfg.vppSize,
      ∃ idx < cfg.numLayersPerModel,
        item = (cfg.layerAt pp vpp idx, pp, vpp, idx) := by
  have hchunk : cfg.numHiddenLayers / cfg.vppSize =
      cfg.ppSize * cfg.numLayersPerModel := by
    rw [h.numLayers, Nat.mul_assoc, Nat.mul_div_cancel_left _ h.vpp_pos]
  simp only [Config.layerMapItems, List.mem_flatMap, List.mem_map,
    List.mem_range, hchunk, Config.layerAt]
  constructor
  · rintro ⟨pp, hpp, vpp, hvpp, idx, hidx, rfl⟩
    refine ⟨pp, hpp, vpp, hvpp, idx, hidx, ?_⟩
    rw [Nat.add_mul, Nat.mul_assoc]
  · rintro ⟨pp, hpp, vpp, hvpp, idx, hidx, rfl⟩
    refine ⟨pp, hpp, vpp, hvpp, idx, hidx, ?_⟩
    rw [Nat.add_mul, Nat.mul_assoc]

/-- The layer map takes every place back to itself. -/
theorem layerMap_layerAt {pp vpp idx : Nat} (hpp : pp < cfg.ppSize)
    (hvpp : vpp < cfg.vppSize) (hidx : idx < cfg.numLayersPerModel) :
    cfg.layerMap (cfg.layerAt pp vpp idx) = .ok (pp, vpp, idx) := by
  have hmem : (cfg.layerAt pp vpp idx, pp, vpp, idx) ∈
      cfg.layerMapItems.reverse := by
    rw [List.mem_reverse, mem_layerMapItems h]
    exact ⟨pp, hpp, vpp, hvpp, idx, hidx, rfl⟩
  rw [Config.layerMap, h.assertion, pyAssert_true, ok_bind]
  cases hfind : cfg.layerMapItems.reverse.find? fun item =>
      item.1 == cfg.layerAt pp vpp idx with
  | none =>
      have hnot := List.find?_eq_none.mp hfind _ hmem
      simp at hnot
  | some item =>
      have hkey := List.find?_some hfind
      have hitem := List.mem_of_find?_eq_some hfind
      rw [List.mem_reverse, mem_layerMapItems h] at hitem
      obtain ⟨pp', hpp', vpp', hvpp', idx', hidx', rfl⟩ := hitem
      obtain ⟨rfl, rfl, rfl⟩ :=
        layerAt_inj hpp' hpp hidx' hidx (beq_iff_eq.mp hkey)
      rfl

/-- Every layer has a place. -/
theorem exists_layerAt {layer : Nat} (hlayer : layer < cfg.numHiddenLayers) :
    ∃ pp < cfg.ppSize, ∃ vpp < cfg.vppSize, ∃ idx < cfg.numLayersPerModel,
      layer = cfg.layerAt pp vpp idx := by
  rw [h.numLayers] at hlayer
  obtain ⟨chunk, hchunk, idx, hidx, rfl⟩ := exists_place hlayer
  obtain ⟨vpp, hvpp, pp, hpp, rfl⟩ := exists_place hchunk
  exact ⟨pp, hpp, vpp, hvpp, idx, hidx, rfl⟩

end Layout

namespace Config

variable (cfg : Config)

/-- The size of an attention head. -/
def headSize : Nat :=
  cfg.headDim.getD (cfg.hiddenSize / cfg.numAttentionHeads)

/-- The sizes of a layer's weights along the dimensions they are cut on. -/
def layerWeightSize : LayerWeight → Option Nat
  | .inputLayernorm => some cfg.hiddenSize
  | .qNorm => if cfg.qkLayernorm then some cfg.headSize else none
  | .kNorm => if cfg.qkLayernorm then some cfg.headSize else none
  | .qProj => some (cfg.headSize * cfg.numAttentionHeads)
  | .kProj => some (cfg.headSize * cfg.numKeyValueHeads)
  | .vProj => some (cfg.headSize * cfg.numKeyValueHeads)
  | .qProjBias =>
      if cfg.addQkvBias then some (cfg.headSize * cfg.numAttentionHeads)
      else none
  | .kProjBias =>
      if cfg.addQkvBias then some (cfg.headSize * cfg.numKeyValueHeads)
      else none
  | .vProjBias =>
      if cfg.addQkvBias then some (cfg.headSize * cfg.numKeyValueHeads)
      else none
  | .oProj => some (cfg.headSize * cfg.numAttentionHeads)
  | .postAttentionLayernorm => some cfg.hiddenSize
  | .gateProj => some cfg.intermediateSize
  | .upProj => some cfg.intermediateSize
  | .downProj => some cfg.intermediateSize

/-- The weights a model with `vocab` tokens has, and their sizes. -/
def weightSize (vocab : Nat) : WeightName → Option Nat
  | .embedTokens => some vocab
  | .layer index weight =>
      if index < cfg.numHiddenLayers then cfg.layerWeightSize weight else none
  | .norm => some cfg.hiddenSize
  | .lmHead =>
      if cfg.tieWordEmbeddings then none
      else if cfg.isValueModel then some 1
      else some vocab
  | .rewardHead => none
  | .score => none

/-- The sizes of a layer's parameters in one process. -/
def layerParamSize : LayerParam → Option Nat
  | .qkvLayerNorm => some cfg.hiddenSize
  | .qLayernorm => if cfg.qkLayernorm then some cfg.headSize else none
  | .kLayernorm => if cfg.qkLayernorm then some cfg.headSize else none
  | .qkvWeight =>
      some (cfg.headSize * cfg.numAttentionHeads / cfg.tpSize +
        2 * (cfg.headSize * cfg.numKeyValueHeads / cfg.tpSize))
  | .qkvBias =>
      if cfg.addQkvBias then
        some (cfg.headSize * cfg.numAttentionHeads / cfg.tpSize +
          2 * (cfg.headSize * cfg.numKeyValueHeads / cfg.tpSize))
      else none
  | .projWeight => some (cfg.headSize * cfg.numAttentionHeads / cfg.tpSize)
  | .fc1LayerNorm => some cfg.hiddenSize
  | .fc1Weight => some (cfg.intermediateSize / cfg.tpSize * 2)
  | .fc2Weight => some (cfg.intermediateSize / cfg.tpSize)

/-- The parameters a process has, and their sizes. -/
def paramSize (vocab : Nat) (c : Coord) : Param → Option Nat
  | .wordEmbeddings =>
      if c.pp = 0 then some (vocab / cfg.tpSize) else none
  | .layer vpp idx param =>
      if vpp < cfg.vppSize ∧ idx < cfg.numLayersPerModel then
        cfg.layerParamSize param
      else none
  | .finalLayernorm =>
      if c.pp + 1 = cfg.ppSize then some cfg.hiddenSize else none
  | .outputLayer =>
      if c.pp + 1 = cfg.ppSize ∧ cfg.tieWordEmbeddings = false then
        if cfg.isValueModel then some 1 else some (vocab / cfg.tpSize)
      else none

end Config

/-- A state dict with the weights of the model and no others. -/
def Complete (cfg : Config) (vocab : Nat) {σ : Type} (sd : StateDict σ) :
    Prop :=
  ∀ name, (sd name).map List.length = cfg.weightSize vocab name

/-- Processes that have their parameters; only the last stage has a final
norm. -/
def Allocated (cfg : Config) (vocab : Nat) {σ : Type} (mem : Memory σ) :
    Prop :=
  ∀ c ∈ cfg.processes, ∀ p,
    (cfg.paramSize vocab c p).isSome ∨ p = .finalLayernorm →
      (mem c p).map List.length = cfg.paramSize vocab c p

section Steps

variable {σ : Type} {cfg : Config} {vocab : Nat} {sd : StateDict σ}
  {mem : Memory σ} {passes : Coord → Bool} {p : Param} {name : WeightName}

theorem exists_of_size {x : Option (List σ)} {size : Nat}
    (h : x.map List.length = some size) :
    ∃ weight, x = some weight ∧ weight.length = size :=
  Option.map_eq_some_iff.mp h

theorem mem_loaders {c : Coord} :
    c ∈ cfg.loaders ↔ c ∈ cfg.processes ∧ c.dp = 0 := by
  simp [Config.loaders]

theorem mem_savers {c : Coord} :
    c ∈ cfg.savers ↔ c ∈ cfg.processes ∧ c.dp = 0 ∧ c.cp = 0 := by
  simp [Config.savers]

theorem store_of_passes {value : Nat → List σ} {c : Coord} (hdp : c.dp = 0)
    (hc : passes c = true) :
    mem.store passes p value c p = some (value c.tp) :=
  if_pos ⟨hdp, hc, rfl⟩

theorem store_of_ne {value : Nat → List σ} {c : Coord} {q : Param}
    (h : passes c = false ∨ q ≠ p) :
    mem.store passes p value c q = mem c q := by
  apply if_neg
  rintro ⟨-, hc, hq⟩
  rcases h with h | h
  · rw [h] at hc
    cases hc
  · exact h hq

/-- Every process that passes the parameter has it, in the given size. -/
def Fits (cfg : Config) (vocab : Nat) (passes : Coord → Bool) (p : Param)
    (size : Nat) : Prop :=
  ∀ c ∈ cfg.loaders, passes c = true → cfg.paramSize vocab c p = some size

theorem Allocated.store {size : Nat} {value : Nat → List σ}
    (hmem : Allocated cfg vocab mem) (hfits : Fits cfg vocab passes p size)
    (hvalue : ∀ i < cfg.tpSize, (value i).length = size) :
    Allocated cfg vocab (mem.store passes p value) := by
  intro c hc q hq
  by_cases hstored : c.dp = 0 ∧ passes c ∧ q = p
  · obtain ⟨hdp, hpass, rfl⟩ := hstored
    rw [store_of_passes hdp hpass, Option.map_some,
      hvalue c.tp (mem_processes.mp hc).1,
      hfits c (mem_loaders.mpr ⟨hc, hdp⟩) hpass]
  · rw [Memory.store, if_neg hstored]
    exact hmem c hc q hq

theorem Allocated.sizesMatch {size : Nat} (hmem : Allocated cfg vocab mem)
    (hfits : Fits cfg vocab passes p size) :
    cfg.sizesMatch mem passes p size = true := by
  rw [Config.sizesMatch, List.all_eq_true]
  intro c hc
  cases hpass : passes c with
  | false => rfl
  | true =>
      have hsize := hfits c hc hpass
      have hc' := (mem_loaders.mp hc).1
      rw [hmem c hc' p (.inl (by rw [hsize]; rfl)), hsize]
      simp

theorem Allocated.isSome (hmem : Allocated cfg vocab mem) {c : Coord}
    (hc : c ∈ cfg.processes) (hsize : (cfg.paramSize vocab c p).isSome) :
    (mem c p).isSome := by
  rw [← hmem c hc p (.inl hsize), Option.isSome_map] at hsize
  exact hsize

theorem Allocated.requireParam {group : List Coord}
    (hmem : Allocated cfg vocab mem) (hgroup : group ⊆ cfg.processes)
    (hsize : ∀ c ∈ group, passes c = true →
      (cfg.paramSize vocab c p).isSome) :
    Config.requireParam group mem passes p = .ok () := by
  rw [Config.requireParam, if_pos]
  rw [List.all_eq_true]
  intro c hc
  cases hpass : passes c with
  | false => rfl
  | true =>
      rw [hmem.isSome (hgroup hc) (hsize c hc hpass)]
      rfl

theorem Allocated.requireLoader {size : Nat} (hmem : Allocated cfg vocab mem)
    (hfits : Fits cfg vocab passes p size) :
    Config.requireParam cfg.loaders mem passes p = .ok () :=
  hmem.requireParam (fun _ hc => (mem_loaders.mp hc).1)
    fun c hc hpass => by rw [hfits c hc hpass]; rfl

theorem broadcastTensor_ok {weight : List σ} (hmem : Allocated cfg vocab mem)
    (hname : sd name = some weight)
    (hfits : Fits cfg vocab passes p weight.length) :
    cfg.broadcastTensor sd mem passes p name =
      .ok (mem.store passes p fun _ => weight) := by
  rw [Config.broadcastTensor, hmem.requireLoader hfits, ok_bind, hname]
  exact if_pos (hmem.sizesMatch hfits)

/-- The pieces as they are stored. -/
def stored (n : Nat) (f : Nat → List σ) (i : Nat) : List σ :=
  ((List.range n).map f).getD i []

theorem stored_of_lt {n i : Nat} {f : Nat → List σ} (hi : i < n) :
    stored n f i = f i := by
  rw [stored, List.getD_eq_getElem?_getD, List.getElem?_map,
    List.getElem?_range hi]
  rfl

theorem blocks_stored {n : Nat} {f : Nat → List σ} :
    blocks n (stored n f) = blocks n f :=
  blocks_congr fun _ hi => stored_of_lt hi

theorem broadcastChunks_ok {size : Nat} {f : Nat → List σ}
    (htp : 0 < cfg.tpSize) (hmem : Allocated cfg vocab mem)
    (hlen : ∀ i < cfg.tpSize, (f i).length = size)
    (hfits : Fits cfg vocab passes p size) :
    cfg.broadcastChunks mem passes p ((List.range cfg.tpSize).map f) =
      .ok (mem.store passes p (stored cfg.tpSize f)) := by
  have hpieces : ((List.range cfg.tpSize).mapM fun i => do
      let piece ← pieceAt ((List.range cfg.tpSize).map f) i
      copySlice (f 0) 0 (f 0).length piece) =
        (.ok ((List.range cfg.tpSize).map f) : Py _) := by
    apply mapM_eq_ok_of_forall
    intro i hi
    have hi := List.mem_range.mp hi
    have hcopy : copyAt? (f 0) 0 (f 0).length (f i) = some (f i) := by
      have hwindow : window (f 0) 0 (f 0).length = f 0 := by
        rw [window, List.take_length, List.drop_zero]
      rw [copyAt?, hwindow, copy?_of_length_eq
        (by rw [hlen i hi, hlen 0 htp])]
      simp
    rw [pieceAt_map_range hi, ok_bind, copySlice_of_copyAt? hcopy]
  rw [Config.broadcastChunks, pieceAt_map_range htp, ok_bind, hlen 0 htp,
    hmem.sizesMatch hfits, pyAssert_true, ok_bind, ← hlen 0 htp, hpieces]
  rfl

theorem broadcastTpShardTensor_ok {size : Nat} {weight : List σ}
    (htp : 0 < cfg.tpSize) (hmem : Allocated cfg vocab mem)
    (hname : sd name = some weight)
    (hlen : weight.length = cfg.tpSize * size)
    (hfits : Fits cfg vocab passes p size) :
    ∃ f : Nat → List σ, (∀ i < cfg.tpSize, (f i).length = size) ∧
      blocks cfg.tpSize f = weight ∧
      cfg.broadcastTpShardTensor sd mem passes p name =
        .ok (mem.store passes p f) := by
  obtain ⟨f, hf, rfl⟩ := exists_blocks hlen
  refine ⟨stored cfg.tpSize f, fun i hi => ?_, blocks_stored, ?_⟩
  · rw [stored_of_lt hi, hf i hi]
  · rw [Config.broadcastTpShardTensor, hmem.requireLoader hfits, ok_bind,
      hname]
    simp only [chunk_blocks htp hf, ok_bind]
    exact broadcastChunks_ok htp hmem hf hfits

end Steps

section Joined

variable {σ : Type} {cfg : Config} {vocab : Nat} {sd : StateDict σ} {fill : σ}
  {mem : Memory σ} {passes : Coord → Bool} {p : Param}

/-- Ranks that share out the key and value heads. -/
theorem Valid.groupsPerRank (h : Valid cfg)
    (hkv : cfg.tpSize ≤ cfg.numKeyValueHeads) :
    ∃ groups heads, GroupsPerRank cfg cfg.headSize groups heads := by
  have hdvd : cfg.tpSize ∣ cfg.numKeyValueHeads := by
    rcases h.tp_kv with hdvd | hdvd
    · exact hdvd
    · rw [Nat.le_antisymm hkv (Nat.le_of_dvd h.tp_pos hdvd)]
  obtain ⟨groups, hgroups⟩ := hdvd
  obtain ⟨heads, hheads⟩ := h.kv_dvd
  refine ⟨groups, heads, h.tp_pos, ?_, ?_, ?_, hgroups, ?_⟩
  · have hpos := h.kv_pos
    rw [hgroups] at hpos
    exact Nat.pos_of_mul_pos_left hpos
  · rw [Config.hiddenSizePerHead, if_neg h.heads_pos.ne', Config.headSize]
  · rw [hheads, hgroups, Nat.mul_assoc]
  · rw [h.queryGroups, hgroups]

theorem getWeight_ok {name : WeightName} {weight : List σ}
    (hname : sd name = some weight) :
    Config.getWeight sd name = .ok weight := by
  rw [Config.getWeight, hname]

theorem broadcastTpShardTensorGateUp_ok {gateName upName : WeightName}
    {gate up : List σ} (h : Valid cfg) (hmem : Allocated cfg vocab mem)
    (hgate : sd gateName = some gate) (hup : sd upName = some up)
    (hgateLen : gate.length = cfg.intermediateSize)
    (hupLen : up.length = cfg.intermediateSize)
    (hfits : Fits cfg vocab passes p
      (cfg.intermediateSize / cfg.tpSize * 2)) :
    ∃ f : Nat → List σ,
      (∀ i < cfg.tpSize,
        (f i).length = cfg.intermediateSize / cfg.tpSize * 2) ∧
      cfg.splitGateUp (blocks cfg.tpSize f) = .ok (gate, up) ∧
      cfg.broadcastTpShardTensorGateUp sd fill mem passes p gateName upName =
        .ok (mem.store passes p f) := by
  obtain ⟨m, hm⟩ := h.intermediate
  rw [intermediateSizeTp_eq h.tp_pos hm] at hfits ⊢
  obtain ⟨g, hg, rfl⟩ := exists_blocks (hgateLen.trans hm)
  obtain ⟨u, hu, rfl⟩ := exists_blocks (hupLen.trans hm)
  have hlen := length_gateUp hg hu
  refine ⟨stored cfg.tpSize fun i => g i ++ u i, fun i hi => ?_, ?_, ?_⟩
  · rw [stored_of_lt hi, hlen i hi]
  · rw [blocks_stored]
    exact splitGateUp_blocks h.tp_pos hm hg hu
  · rw [Config.broadcastTpShardTensorGateUp, hmem.requireLoader hfits]
    simp only [ok_bind, getWeight_ok hgate, getWeight_ok hup,
      gateUpWeight_blocks h.tp_pos hm hg hu, chunk_blocks h.tp_pos hlen]
    exact broadcastChunks_ok h.tp_pos hmem hlen hfits

theorem broadcastTpShardTensorQkv_ok {qName kName vName : WeightName}
    {q k v : List σ} (h : Valid cfg)
    (hkv : cfg.tpSize ≤ cfg.numKeyValueHeads)
    (hmem : Allocated cfg vocab mem)
    (hq : sd qName = some q) (hk : sd kName = some k) (hv : sd vName = some v)
    (hqLen : q.length = cfg.headSize * cfg.numAttentionHeads)
    (hkLen : k.length = cfg.headSize * cfg.numKeyValueHeads)
    (hvLen : v.length = cfg.headSize * cfg.numKeyValueHeads)
    (hfits : Fits cfg vocab passes p
      (cfg.headSize * cfg.numAttentionHeads / cfg.tpSize +
        2 * (cfg.headSize * cfg.numKeyValueHeads / cfg.tpSize))) :
    ∃ f : Nat → List σ,
      (∀ i < cfg.tpSize, (f i).length =
        cfg.headSize * cfg.numAttentionHeads / cfg.tpSize +
          2 * (cfg.headSize * cfg.numKeyValueHeads / cfg.tpSize)) ∧
      cfg.splitQkv (blocks cfg.tpSize f) = .ok (q, k, v) ∧
      cfg.broadcastTpShardTensorQkv sd fill mem passes p qName kName vName =
        .ok (mem.store passes p f) := by
  obtain ⟨groups, heads, hgroups⟩ := h.groupsPerRank hkv
  rw [hgroups.qSizeTp, hgroups.kvSizeTp, totalSize_eq] at hfits ⊢
  have hqLen' : q.length =
      cfg.tpSize * (groups * (cfg.headSize * heads)) := by
    rw [hqLen, hgroups.attentionHeads]
    ring
  have hkvLen : cfg.headSize * cfg.numKeyValueHeads =
      cfg.tpSize * (groups * cfg.headSize) := by
    rw [hgroups.keyValueHeads]
    ring
  obtain ⟨qs, hqs, rfl⟩ := exists_blocks_blocks hqLen'
  obtain ⟨ks, hks, rfl⟩ := exists_blocks_blocks (hkLen.trans hkvLen)
  obtain ⟨vs, hvs, rfl⟩ := exists_blocks_blocks (hvLen.trans hkvLen)
  have hlen := GroupsPerRank.length_part hqs hks hvs
  refine ⟨stored cfg.tpSize fun i =>
    blocks groups fun j => qs i j ++ ks i j ++ vs i j, fun i hi => ?_, ?_, ?_⟩
  · rw [stored_of_lt hi, hlen i hi]
  · rw [blocks_stored]
    exact hgroups.splitQkv_blocks hqs hks hvs
  · rw [Config.broadcastTpShardTensorQkv, hmem.requireLoader hfits]
    have hpresent : ((sd qName).isSome && (sd kName).isSome &&
        (sd vName).isSome) = true := by
      rw [hq, hk, hv]
      rfl
    simp only [ok_bind, hpresent, pyAssert_true, getWeight_ok hq,
      getWeight_ok hk, getWeight_ok hv,
      hgroups.qkvWeight_blocks hqs hks hvs, chunk_blocks h.tp_pos hlen]
    exact broadcastChunks_ok h.tp_pos hmem hlen hfits

end Joined

section Layers

variable {σ : Type} {cfg : Config} {vocab : Nat} {sd : StateDict σ}
  {mem : Memory σ}

/-- What the saver makes of these pieces of a layer's parameter is in the
state dict. -/
def Restores (cfg : Config) (sd : StateDict σ) (layer : Nat)
    (f : Nat → List σ) : LayerParam → Prop
  | .qkvLayerNorm => sd (.layer layer .inputLayernorm) = some (f 0)
  | .qLayernorm => sd (.layer layer .qNorm) = some (f 0)
  | .kLayernorm => sd (.layer layer .kNorm) = some (f 0)
  | .qkvWeight => ∃ q k v, sd (.layer layer .qProj) = some q ∧
      sd (.layer layer .kProj) = some k ∧
      sd (.layer layer .vProj) = some v ∧
      cfg.splitQkv (blocks cfg.tpSize f) = .ok (q, k, v)
  | .qkvBias => ∃ q k v, sd (.layer layer .qProjBias) = some q ∧
      sd (.layer layer .kProjBias) = some k ∧
      sd (.layer layer .vProjBias) = some v ∧
      cfg.splitQkv (blocks cfg.tpSize f) = .ok (q, k, v)
  | .projWeight => sd (.layer layer .oProj) = some (blocks cfg.tpSize f)
  | .fc1LayerNorm => sd (.layer layer .postAttentionLayernorm) = some (f 0)
  | .fc1Weight => ∃ gate up, sd (.layer layer .gateProj) = some gate ∧
      sd (.layer layer .upProj) = some up ∧
      cfg.splitGateUp (blocks cfg.tpSize f) = .ok (gate, up)
  | .fc2Weight => sd (.layer layer .downProj) = some (blocks cfg.tpSize f)

/-- The processes of a stage have pieces of the parameter that the saver puts
together to what the state dict holds. -/
def HasParam (cfg : Config) (sd : StateDict σ) (mem : Memory σ)
    (layer pp vpp idx : Nat) (param : LayerParam) : Prop :=
  ∃ f : Nat → List σ, Restores cfg sd layer f param ∧
    ∀ c : Coord, c.dp = 0 → c.pp = pp →
      mem c (.layer vpp idx param) = some (f c.tp)

theorem layerParamSize_isSome {param : LayerParam}
    (hparam : param ∈ cfg.savedParams) : (cfg.layerParamSize param).isSome := by
  cases param <;>
    cases hqk : cfg.qkLayernorm <;> cases hbias : cfg.addQkvBias <;>
    simp_all [Config.savedParams, Config.layerParamSize]

theorem Complete.layer (hsd : Complete cfg vocab sd) {layer : Nat}
    (hlayer : layer < cfg.numHiddenLayers) (weight : LayerWeight) {size : Nat}
    (hsize : cfg.layerWeightSize weight = some size) :
    ∃ w, sd (.layer layer weight) = some w ∧ w.length = size :=
  exists_of_size (by rw [hsd, Config.weightSize, if_pos hlayer, hsize])

/-- The saver collects what the loader found in the state dict. -/
theorem loadedParams_eq (hsd : Complete cfg vocab sd) {layer : Nat}
    (hlayer : layer < cfg.numHiddenLayers) :
    Config.loadedParams sd layer = cfg.savedParams := by
  have hnorm : (sd (.layer layer .qNorm)).isSome = cfg.qkLayernorm := by
    rw [← Option.isSome_map (f := List.length), hsd, Config.weightSize,
      if_pos hlayer, Config.layerWeightSize]
    cases cfg.qkLayernorm <;> rfl
  have hbias : (sd (.layer layer .qProjBias)).isSome = cfg.addQkvBias := by
    rw [← Option.isSome_map (f := List.length), hsd, Config.weightSize,
      if_pos hlayer, Config.layerWeightSize]
    cases cfg.addQkvBias <;> rfl
  rw [Config.loadedParams, Config.savedParams, hnorm, hbias]

theorem fits_layer {pp vpp idx size : Nat} {param : LayerParam}
    (hvpp : vpp < cfg.vppSize) (hidx : idx < cfg.numLayersPerModel)
    (hsize : cfg.layerParamSize param = some size) :
    Fits cfg vocab (fun c => c.pp == pp) (.layer vpp idx param) size := by
  intro c _ _
  rw [Config.paramSize, if_pos ⟨hvpp, hidx⟩, hsize]

/-- What loading one parameter of a layer does. -/
theorem loadParam_ok (fill : σ) (pp : Nat) (h : Valid cfg)
    (hkv : cfg.tpSize ≤ cfg.numKeyValueHeads)
    (hsd : Complete cfg vocab sd) (hmem : Allocated cfg vocab mem)
    {layer vpp idx : Nat} (hlayer : layer < cfg.numHiddenLayers)
    (hvpp : vpp < cfg.vppSize) (hidx : idx < cfg.numLayersPerModel)
    {param : LayerParam} (hparam : param ∈ cfg.savedParams) :
    ∃ (f : Nat → List σ) (size : Nat), Restores cfg sd layer f param ∧
      cfg.layerParamSize param = some size ∧
      (∀ i < cfg.tpSize, (f i).length = size) ∧
      cfg.loadParam sd fill layer pp vpp idx mem param =
        .ok (mem.store (fun c => c.pp == pp) (.layer vpp idx param) f) := by
  obtain ⟨size, hsize⟩ :=
    Option.isSome_iff_exists.mp (layerParamSize_isSome hparam)
  have hfits : Fits cfg vocab (fun c => c.pp == pp) (.layer vpp idx param)
      size := fits_layer hvpp hidx hsize
  -- a weight that every tensor parallel rank has whole
  have hwhole (weight : LayerWeight)
      (hweight : cfg.layerWeightSize weight = some size) :
      ∃ w, sd (.layer layer weight) = some w ∧ w.length = size ∧
        cfg.broadcastTensor sd mem (fun c => c.pp == pp)
          (.layer vpp idx param) (.layer layer weight) =
            .ok (mem.store (fun c => c.pp == pp) (.layer vpp idx param)
              fun _ => w) := by
    obtain ⟨w, hw, hlen⟩ := hsd.layer hlayer weight hweight
    subst hlen
    exact ⟨w, hw, rfl, broadcastTensor_ok hmem hw hfits⟩
  -- a weight cut in one piece for each
  have hcut (weight : LayerWeight)
      (hweight : cfg.layerWeightSize weight = some (cfg.tpSize * size)) :
      ∃ f : Nat → List σ, sd (.layer layer weight) =
          some (blocks cfg.tpSize f) ∧
        (∀ i < cfg.tpSize, (f i).length = size) ∧
        cfg.broadcastTpShardTensor sd mem (fun c => c.pp == pp)
          (.layer vpp idx param) (.layer layer weight) =
            .ok (mem.store (fun c => c.pp == pp) (.layer vpp idx param) f) := by
    obtain ⟨w, hw, hlen⟩ := hsd.layer hlayer weight hweight
    obtain ⟨f, hf, rfl, hload⟩ :=
      broadcastTpShardTensor_ok h.tp_pos hmem hw hlen hfits
    exact ⟨f, hw, hf, hload⟩
  have hheads : cfg.tpSize ∣ cfg.headSize * cfg.numAttentionHeads := by
    obtain ⟨groups, heads, hgroups⟩ := h.groupsPerRank hkv
    rw [hgroups.attentionHeads]
    exact (Nat.dvd_mul_right _ _).mul_left _
  -- the joined weights or biases of the attention
  have hqkv (wq wk wv : LayerWeight)
      (hq : cfg.layerWeightSize wq =
        some (cfg.headSize * cfg.numAttentionHeads))
      (hk : cfg.layerWeightSize wk =
        some (cfg.headSize * cfg.numKeyValueHeads))
      (hv : cfg.layerWeightSize wv =
        some (cfg.headSize * cfg.numKeyValueHeads))
      (hjoined : cfg.headSize * cfg.numAttentionHeads / cfg.tpSize +
        2 * (cfg.headSize * cfg.numKeyValueHeads / cfg.tpSize) = size) :
      ∃ f : Nat → List σ,
        (∃ q k v, sd (.layer layer wq) = some q ∧
          sd (.layer layer wk) = some k ∧ sd (.layer layer wv) = some v ∧
          cfg.splitQkv (blocks cfg.tpSize f) = .ok (q, k, v)) ∧
        (∀ i < cfg.tpSize, (f i).length = size) ∧
        cfg.broadcastTpShardTensorQkv sd fill mem (fun c => c.pp == pp)
          (.layer vpp idx param) (.layer layer wq) (.layer layer wk)
          (.layer layer wv) =
            .ok (mem.store (fun c => c.pp == pp) (.layer vpp idx param) f) := by
    subst hjoined
    obtain ⟨q, hq, hqLen⟩ := hsd.layer hlayer wq hq
    obtain ⟨k, hk, hkLen⟩ := hsd.layer hlayer wk hk
    obtain ⟨v, hv, hvLen⟩ := hsd.layer hlayer wv hv
    obtain ⟨f, hf, hsplit, hload⟩ := broadcastTpShardTensorQkv_ok h hkv hmem hq
      hk hv hqLen hkLen hvLen hfits
    exact ⟨f, ⟨q, k, v, hq, hk, hv, hsplit⟩, hf, hload⟩
  cases param with
  | qkvLayerNorm =>
      obtain ⟨w, hw, hlen, hload⟩ := hwhole .inputLayernorm hsize
      exact ⟨fun _ => w, size, hw, hsize, fun _ _ => hlen, hload⟩
  | qLayernorm =>
      obtain ⟨w, hw, hlen, hload⟩ := hwhole .qNorm hsize
      exact ⟨fun _ => w, size, hw, hsize, fun _ _ => hlen, hload⟩
  | kLayernorm =>
      obtain ⟨w, hw, hlen, hload⟩ := hwhole .kNorm hsize
      exact ⟨fun _ => w, size, hw, hsize, fun _ _ => hlen, hload⟩
  | qkvWeight =>
      obtain ⟨f, hrestores, hlen, hload⟩ :=
        hqkv .qProj .kProj .vProj rfl rfl rfl (Option.some.inj hsize)
      exact ⟨f, size, hrestores, hsize, hlen, hload⟩
  | qkvBias =>
      cases hbias : cfg.addQkvBias with
      | false => simp [Config.layerParamSize, hbias] at hsize
      | true =>
          have hjoined := hsize
          simp only [Config.layerParamSize, hbias, if_true] at hjoined
          obtain ⟨f, hrestores, hlen, hload⟩ :=
            hqkv .qProjBias .kProjBias .vProjBias
              (by simp [Config.layerWeightSize, hbias])
              (by simp [Config.layerWeightSize, hbias])
              (by simp [Config.layerWeightSize, hbias])
              (Option.some.inj hjoined)
          exact ⟨f, size, hrestores, hsize, hlen, hload⟩
  | projWeight =>
      have hpart : cfg.tpSize * size =
          cfg.headSize * cfg.numAttentionHeads := by
        rw [← Option.some.inj hsize, Nat.mul_div_cancel' hheads]
      obtain ⟨f, hw, hlen, hload⟩ := hcut .oProj (congrArg some hpart.symm)
      exact ⟨f, size, hw, hsize, hlen, hload⟩
  | fc1LayerNorm =>
      obtain ⟨w, hw, hlen, hload⟩ := hwhole .postAttentionLayernorm hsize
      exact ⟨fun _ => w, size, hw, hsize, fun _ _ => hlen, hload⟩
  | fc1Weight =>
      obtain rfl := Option.some.inj hsize
      obtain ⟨gate, hgate, hgateLen⟩ := hsd.layer hlayer .gateProj rfl
      obtain ⟨up, hup, hupLen⟩ := hsd.layer hlayer .upProj rfl
      obtain ⟨f, hlen, hsplit, hload⟩ := broadcastTpShardTensorGateUp_ok h hmem
        hgate hup hgateLen hupLen hfits
      exact ⟨f, _, ⟨gate, up, hgate, hup, hsplit⟩, hsize, hlen, hload⟩
  | fc2Weight =>
      have hpart : cfg.tpSize * size = cfg.intermediateSize := by
        rw [← Option.some.inj hsize, Nat.mul_div_cancel' h.intermediate]
      obtain ⟨f, hw, hlen, hload⟩ := hcut .downProj (congrArg some hpart.symm)
      exact ⟨f, size, hw, hsize, hlen, hload⟩

end Layers

section Load

variable {σ : Type} {cfg : Config} {vocab : Nat} {sd : StateDict σ}
  {mem mem' : Memory σ}

/-- Everything but the given layer's parameters is as it was. -/
def SameOutside (pp vpp idx : Nat) (mem mem' : Memory σ) : Prop :=
  ∀ c q, (c.pp ≠ pp ∨ ∀ param, q ≠ .layer vpp idx param) →
    mem' c q = mem c q

theorem HasParam.of_eq {layer pp vpp idx : Nat} {param : LayerParam}
    (hhas : HasParam cfg sd mem layer pp vpp idx param)
    (heq : ∀ c : Coord, c.pp = pp →
      mem' c (.layer vpp idx param) = mem c (.layer vpp idx param)) :
    HasParam cfg sd mem' layer pp vpp idx param := by
  obtain ⟨f, hrestores, hf⟩ := hhas
  exact ⟨f, hrestores, fun c hdp hpp => by rw [heq c hpp, hf c hdp hpp]⟩

theorem foldlM_loadParam (fill : σ) (pp : Nat) (h : Valid cfg)
    (hkv : cfg.tpSize ≤ cfg.numKeyValueHeads) (hsd : Complete cfg vocab sd)
    (hmem : Allocated cfg vocab mem) {layer vpp idx : Nat}
    (hlayer : layer < cfg.numHiddenLayers) (hvpp : vpp < cfg.vppSize)
    (hidx : idx < cfg.numLayersPerModel) (params : List LayerParam)
    (hparams : ∀ param ∈ params, param ∈ cfg.savedParams) :
    ∃ mem', params.foldlM (cfg.loadParam sd fill layer pp vpp idx) mem =
        .ok mem' ∧ Allocated cfg vocab mem' ∧
      SameOutside pp vpp idx mem mem' ∧
      ∀ param ∈ params, HasParam cfg sd mem' layer pp vpp idx param := by
  induction params using List.reverseRecOn with
  | nil => exact ⟨mem, rfl, hmem, fun _ _ _ => rfl, nofun⟩
  | append_singleton params param ih =>
      obtain ⟨mid, hmid, hall, hsame, hhas⟩ := ih fun p hp =>
        hparams p (List.mem_append_left _ hp)
      obtain ⟨f, size, hrestores, hsize, hlen, hload⟩ :=
        loadParam_ok fill pp h hkv hsd hall hlayer hvpp hidx
          (hparams param (by simp))
      refine ⟨mid.store (fun c => c.pp == pp) (.layer vpp idx param) f, ?_,
        hall.store (fits_layer hvpp hidx hsize) hlen, ?_, ?_⟩
      · rw [List.foldlM_append, hmid, ok_bind, List.foldlM_cons, hload]
        rfl
      · intro c q hq
        rw [store_of_ne, hsame c q hq]
        rcases hq with hpp | hparam
        · exact .inl (beq_eq_false_iff_ne.mpr hpp)
        · exact .inr (hparam param)
      · intro p hp
        by_cases heq : p = param
        · subst heq
          refine ⟨f, hrestores, fun c hdp hpp => ?_⟩
          exact store_of_passes hdp (beq_iff_eq.mpr hpp)
        · have hp : p ∈ params := by
            rcases List.mem_append.mp hp with hp | hp
            · exact hp
            · exact absurd (List.mem_singleton.mp hp) heq
          refine (hhas p hp).of_eq fun c _ => store_of_ne (.inr ?_)
          intro hcontra
          injection hcontra
          contradiction

/-- A layer has been loaded into the processes of its stage. -/
def HasLayer (cfg : Config) (sd : StateDict σ) (mem : Memory σ)
    (layer : Nat) : Prop :=
  ∃ pp < cfg.ppSize, ∃ vpp < cfg.vppSize, ∃ idx < cfg.numLayersPerModel,
    layer = cfg.layerAt pp vpp idx ∧
      ∀ param ∈ cfg.savedParams, HasParam cfg sd mem layer pp vpp idx param

theorem loadLayer_ok (fill : σ) (h : Valid cfg)
    (hkv : cfg.tpSize ≤ cfg.numKeyValueHeads) (hsd : Complete cfg vocab sd)
    (hmem : Allocated cfg vocab mem) {layer : Nat}
    (hlayer : layer < cfg.numHiddenLayers) :
    ∃ mem', cfg.loadLayer sd fill layer mem = .ok mem' ∧
      Allocated cfg vocab mem' ∧ HasLayer cfg sd mem' layer ∧
      (∀ c q, (∀ vpp idx param, q ≠ .layer vpp idx param) →
        mem' c q = mem c q) ∧
      ∀ other < layer, HasLayer cfg sd mem other →
        HasLayer cfg sd mem' other := by
  obtain ⟨pp, hpp, vpp, hvpp, idx, hidx, hplace⟩ := exists_layerAt h hlayer
  obtain ⟨mem', hload, hall, hsame, hhas⟩ :=
    foldlM_loadParam fill pp h hkv hsd hmem hlayer hvpp hidx
      cfg.savedParams fun _ hp => hp
  refine ⟨mem', ?_, hall, ⟨pp, hpp, vpp, hvpp, idx, hidx, hplace, hhas⟩,
    fun c q hq => hsame c q (.inr fun param => hq vpp idx param), ?_⟩
  · rw [Config.loadLayer, loadedParams_eq hsd hlayer, hplace,
      layerMap_layerAt h hpp hvpp hidx, ok_bind, ← hplace]
    exact hload
  · rintro other hother ⟨pp', hpp', vpp', hvpp', idx', hidx', rfl, hother'⟩
    refine ⟨pp', hpp', vpp', hvpp', idx', hidx', rfl, fun param hparam => ?_⟩
    refine (hother' param hparam).of_eq fun c hc => hsame c _ ?_
    -- another layer has another place
    by_contra hne
    push Not at hne
    obtain ⟨hcpp, q, hq⟩ := hne
    injection hq with hv hi
    have hpp'' : pp' = pp := by rw [← hc, hcpp]
    rw [hpp'', hv, hi, ← hplace] at hother
    exact Nat.lt_irrefl _ hother

/-- What the saver needs to find. -/
structure Loaded (cfg : Config) (vocab : Nat) (sd : StateDict σ)
    (mem : Memory σ) : Prop where
  allocated : Allocated cfg vocab mem
  embedding : ∃ f : Nat → List σ,
    sd .embedTokens = some (blocks cfg.tpSize f) ∧
      ∀ c : Coord, c.dp = 0 → c.pp = 0 →
        mem c .wordEmbeddings = some (f c.tp)
  layers : ∀ layer < cfg.numHiddenLayers, HasLayer cfg sd mem layer
  norm : ∃ weight, sd .norm = some weight ∧
    ∀ c ∈ cfg.processes, c.dp = 0 → c.pp + 1 = cfg.ppSize →
      mem c .finalLayernorm = some weight
  head : cfg.tieWordEmbeddings = false → ∃ f : Nat → List σ,
    sd .lmHead =
        some (if cfg.isValueModel then f 0 else blocks cfg.tpSize f) ∧
      ∀ c ∈ cfg.processes, c.dp = 0 → c.pp + 1 = cfg.ppSize →
        mem c .outputLayer = some (f c.tp)

theorem HasLayer.of_eq {layer : Nat} (hhas : HasLayer cfg sd mem layer)
    (heq : ∀ c vpp idx param,
      mem' c (.layer vpp idx param) = mem c (.layer vpp idx param)) :
    HasLayer cfg sd mem' layer := by
  obtain ⟨pp, hpp, vpp, hvpp, idx, hidx, hplace, hparams⟩ := hhas
  exact ⟨pp, hpp, vpp, hvpp, idx, hidx, hplace, fun param hparam =>
    (hparams param hparam).of_eq fun c _ => heq c vpp idx param⟩

/-- Loading the final norm, into the processes that have one. -/
theorem loadNorm_ok (hsd : Complete cfg vocab sd)
    (hmem : Allocated cfg vocab mem) :
    ∃ mem', cfg.broadcastTensor sd mem
        (fun c => (mem c .finalLayernorm).isSome) .finalLayernorm .norm =
          .ok mem' ∧
      Allocated cfg vocab mem' ∧
      (∀ c q, q ≠ .finalLayernorm → mem' c q = mem c q) ∧
      ∃ weight, sd .norm = some weight ∧
        ∀ c ∈ cfg.processes, c.dp = 0 → c.pp + 1 = cfg.ppSize →
          mem' c .finalLayernorm = some weight := by
  obtain ⟨w, hw, hlen⟩ := exists_of_size (hsd .norm)
  have hfits : Fits cfg vocab (fun c => (mem c .finalLayernorm).isSome)
      .finalLayernorm w.length := by
    intro c hc hpass
    have hsize := hmem c (mem_loaders.mp hc).1 .finalLayernorm (.inr rfl)
    have hsome : (mem c .finalLayernorm).isSome = true := hpass
    rw [← Option.isSome_map (f := List.length), hsize] at hsome
    rw [hlen]
    rw [Config.paramSize] at hsome ⊢
    by_cases hpp : c.pp + 1 = cfg.ppSize
    · rw [if_pos hpp]
    · rw [if_neg hpp] at hsome
      cases hsome
  refine ⟨_, broadcastTensor_ok hmem hw hfits, hmem.store hfits fun _ _ => rfl,
    fun c q hq => store_of_ne (.inr hq), w, hw, fun c hc hdp hpp => ?_⟩
  apply store_of_passes hdp
  have hsize := hmem c hc .finalLayernorm (.inr rfl)
  rw [Config.paramSize, if_pos hpp] at hsize
  rw [← Option.isSome_map (f := List.length), hsize]
  rfl

theorem requireParam_of_isSome {group : List Coord} {passes : Coord → Bool}
    {p : Param} (hpasses : ∀ c, passes c = true → (mem c p).isSome) :
    Config.requireParam group mem passes p = .ok () := by
  rw [Config.requireParam, if_pos]
  rw [List.all_eq_true]
  intro c _
  cases hpass : passes c with
  | false => rfl
  | true => simp [hpasses c hpass]

theorem loadLmHead_ok (h : Valid cfg) (hvocab : cfg.tpSize ∣ vocab)
    (hsd : Complete cfg vocab sd) (hmem : Allocated cfg vocab mem) :
    ∃ mem', cfg.loadLmHead sd mem = .ok mem' ∧ Allocated cfg vocab mem' ∧
      (∀ c q, q ≠ .outputLayer → mem' c q = mem c q) ∧
      (cfg.tieWordEmbeddings = false → ∃ f : Nat → List σ,
        sd .lmHead =
            some (if cfg.isValueModel then f 0 else blocks cfg.tpSize f) ∧
          ∀ c ∈ cfg.processes, c.dp = 0 → c.pp + 1 = cfg.ppSize →
            mem' c .outputLayer = some (f c.tp)) := by
  have hlm := hsd .lmHead
  cases htie : cfg.tieWordEmbeddings with
  | true =>
      have hnone : sd .lmHead = none := by
        rw [Config.weightSize, if_pos htie, Option.map_eq_none_iff] at hlm
        exact hlm
      have hreward : sd .rewardHead = none :=
        Option.map_eq_none_iff.mp (hsd .rewardHead)
      have hscore : sd .score = none :=
        Option.map_eq_none_iff.mp (hsd .score)
      refine ⟨mem, ?_, hmem, fun _ _ _ => rfl, nofun⟩
      have hrow : ((none : Option Nat) == some 1) = false := rfl
      rw [Config.loadLmHead]
      cases cfg.isValueModel with
      | true =>
          simp only [hnone, hreward, hscore, Option.map_none, hrow, if_true,
            Bool.false_eq_true, if_false]
          rw [Config.broadcastTensor,
            requireParam_of_isSome fun _ hc => absurd hc Bool.false_ne_true,
            ok_bind, hnone]
      | false =>
          rw [if_neg Bool.false_ne_true, Config.broadcastTpShardTensor,
            requireParam_of_isSome fun c hc => (Bool.and_eq_true_iff.mp hc).2,
            ok_bind, hnone]
  | false =>
      rw [Config.weightSize, if_neg (by rw [htie]; exact Bool.false_ne_true)]
        at hlm
      rw [Config.loadLmHead]
      let passes (c : Coord) :=
        c.pp + 1 == cfg.ppSize && (mem c .outputLayer).isSome
      have hlast {c : Coord} (hpass : passes c = true) :
          c.pp + 1 = cfg.ppSize :=
        beq_iff_eq.mp (Bool.and_eq_true_iff.mp hpass).1
      have hpasses (c : Coord) (hc : c ∈ cfg.processes)
          (hpp : c.pp + 1 = cfg.ppSize) : passes c = true := by
        have hsize : (cfg.paramSize vocab c .outputLayer).isSome := by
          rw [Config.paramSize, if_pos ⟨hpp, htie⟩]
          split <;> rfl
        exact Bool.and_eq_true_iff.mpr
          ⟨beq_iff_eq.mpr hpp, hmem.isSome hc hsize⟩
      cases hvalue : cfg.isValueModel with
      | true =>
          rw [hvalue, if_pos rfl] at hlm
          obtain ⟨w, hw, hlen⟩ := exists_of_size hlm
          have hfits : Fits cfg vocab passes .outputLayer w.length := by
            intro c _ hpass
            rw [Config.paramSize, if_pos ⟨hlast hpass, htie⟩, hvalue,
              if_pos rfl, hlen]
          refine ⟨mem.store passes .outputLayer fun _ => w, ?_,
            hmem.store hfits fun _ _ => rfl,
            fun c q hq => store_of_ne (.inr hq),
            fun _ => ⟨fun _ => w, hw, fun c hc hdp hpp =>
              store_of_passes hdp (hpasses c hc hpp)⟩⟩
          simp only [if_true, hlm, beq_self_eq_true]
          exact broadcastTensor_ok hmem hw hfits
      | false =>
          rw [hvalue, if_neg Bool.false_ne_true] at hlm
          obtain ⟨w, hw, hlen⟩ := exists_of_size hlm
          obtain ⟨m, rfl⟩ := hvocab
          have hfits : Fits cfg (cfg.tpSize * m) passes .outputLayer m := by
            intro c _ hpass
            rw [Config.paramSize, if_pos ⟨hlast hpass, htie⟩, hvalue,
              if_neg Bool.false_ne_true, Nat.mul_div_cancel_left m h.tp_pos]
          obtain ⟨f, hf, rfl, hload⟩ :=
            broadcastTpShardTensor_ok h.tp_pos hmem hw hlen hfits
          exact ⟨_, hload, hmem.store hfits hf,
            fun c q hq => store_of_ne (.inr hq),
            fun _ => ⟨f, hw, fun c hc hdp hpp =>
              store_of_passes hdp (hpasses c hc hpp)⟩⟩

/-- The data parallel copies change nothing for rank 0. -/
theorem Loaded.broadcastParams (h : Valid cfg)
    (hloaded : Loaded cfg vocab sd mem) :
    Loaded cfg vocab sd mem.broadcastParams := by
  have hzero (c : Coord) (hdp : c.dp = 0) (q : Param) :
      mem.broadcastParams c q = mem c q := by
    rw [Memory.broadcastParams, ← hdp]
  refine ⟨fun c hc q hq => ?_, ?_, fun layer hlayer => ?_, ?_, fun htie => ?_⟩
  · have hc₀ : ({ c with dp := 0 } : Coord) ∈ cfg.processes := by
      obtain ⟨htp, hcp, -, hpp⟩ := mem_processes.mp hc
      exact mem_processes.mpr ⟨htp, hcp, h.dp_pos, hpp⟩
    exact hloaded.allocated _ hc₀ q hq
  · obtain ⟨f, hf, hstored⟩ := hloaded.embedding
    exact ⟨f, hf, fun c hdp hpp => by rw [hzero c hdp, hstored c hdp hpp]⟩
  · obtain ⟨pp, hpp, vpp, hvpp, idx, hidx, hplace, hparams⟩ :=
      hloaded.layers layer hlayer
    refine ⟨pp, hpp, vpp, hvpp, idx, hidx, hplace, fun param hparam => ?_⟩
    obtain ⟨f, hrestores, hstored⟩ := hparams param hparam
    exact ⟨f, hrestores, fun c hdp hcpp => by
      rw [hzero c hdp, hstored c hdp hcpp]⟩
  · obtain ⟨w, hw, hstored⟩ := hloaded.norm
    exact ⟨w, hw, fun c hc hdp hpp => by
      rw [hzero c hdp, hstored c hc hdp hpp]⟩
  · obtain ⟨f, hf, hstored⟩ := hloaded.head htie
    exact ⟨f, hf, fun c hc hdp hpp => by
      rw [hzero c hdp, hstored c hc hdp hpp]⟩

theorem load_ok (fill : σ) (h : Valid cfg)
    (hkv : cfg.tpSize ≤ cfg.numKeyValueHeads)
    (hvocab : cfg.tpSize ∣ vocab) (hsd : Complete cfg vocab sd)
    (hmem : Allocated cfg vocab mem) :
    ∃ mem', cfg.loadStateDict sd fill mem = .ok mem' ∧
      Loaded cfg vocab sd mem' := by
  -- the embedding
  obtain ⟨m, rfl⟩ := hvocab
  have hvocabTp : cfg.tpSize * m / cfg.tpSize = m :=
    Nat.mul_div_cancel_left m h.tp_pos
  obtain ⟨embed, hembed, hembedLen⟩ := exists_of_size (hsd .embedTokens)
  have hfits₀ : Fits cfg (cfg.tpSize * m) (fun c => c.pp == 0)
      .wordEmbeddings m := by
    intro c _ hpp
    rw [Config.paramSize, if_pos (beq_iff_eq.mp hpp), hvocabTp]
  obtain ⟨f, hf, rfl, hload₀⟩ :=
    broadcastTpShardTensor_ok h.tp_pos hmem hembed hembedLen hfits₀
  have hall₀ := hmem.store hfits₀ hf
  -- the layers
  have hloop : ∃ mem', tryRange cfg.numHiddenLayers
      (mem.store (fun c => c.pp == 0) .wordEmbeddings f)
      (cfg.loadLayer sd fill) = .ok mem' ∧
        Allocated cfg (cfg.tpSize * m) mem' ∧
        (∀ c : Coord, c.dp = 0 → c.pp = 0 →
          mem' c .wordEmbeddings = some (f c.tp)) ∧
        ∀ layer < cfg.numHiddenLayers, HasLayer cfg sd mem' layer := by
    apply exists_tryRange fun n (mem' : Memory σ) =>
      Allocated cfg (cfg.tpSize * m) mem' ∧
        (∀ c : Coord, c.dp = 0 → c.pp = 0 →
          mem' c .wordEmbeddings = some (f c.tp)) ∧
        ∀ layer < n, HasLayer cfg sd mem' layer
    · exact ⟨hall₀, fun c hdp hpp => store_of_passes hdp (beq_iff_eq.mpr hpp),
        fun layer hlayer => absurd hlayer (Nat.not_lt_zero layer)⟩
    · rintro layer hlayer mem' ⟨hall, hemb, hlayers⟩
      obtain ⟨next, hnext, hall', hhas, hsame, hothers⟩ :=
        loadLayer_ok fill h hkv hsd hall hlayer
      refine ⟨next, hnext, hall', fun c hdp hpp => ?_, fun other hother => ?_⟩
      · rw [hsame c _ (by nofun), hemb c hdp hpp]
      · rcases Nat.lt_succ_iff_lt_or_eq.mp hother with hlt | rfl
        · exact hothers other hlt (hlayers other hlt)
        · exact hhas
  obtain ⟨mem₁, hload₁, hall₁, hemb₁, hlayers₁⟩ := hloop
  -- the final norm and the head
  obtain ⟨mem₂, hload₂, hall₂, hsame₂, hnorm⟩ := loadNorm_ok hsd hall₁
  obtain ⟨mem₃, hload₃, hall₃, hsame₃, hhead⟩ :=
    loadLmHead_ok h (Nat.dvd_mul_right _ _) hsd hall₂
  have hloaded : Loaded cfg (cfg.tpSize * m) sd mem₃ :=
    { allocated := hall₃
      embedding := ⟨f, hembed, fun c hdp hpp => by
        rw [hsame₃ c _ (by nofun), hsame₂ c _ (by nofun), hemb₁ c hdp hpp]⟩
      layers := fun layer hlayer =>
        (hlayers₁ layer hlayer).of_eq fun c vpp idx param => by
          rw [hsame₃ c _ (by nofun), hsame₂ c _ (by nofun)]
      norm := by
        obtain ⟨w, hw, hstored⟩ := hnorm
        exact ⟨w, hw, fun c hc hdp hpp => by
          rw [hsame₃ c _ (by nofun), hstored c hc hdp hpp]⟩
      head := hhead }
  refine ⟨mem₃.broadcastParams, ?_, hloaded.broadcastParams h⟩
  rw [Config.loadStateDict, h.assertion, pyAssert_true, ok_bind, hload₀,
    ok_bind, hload₁, ok_bind, hload₂, ok_bind, hload₃, ok_bind]

end Load

end MegatronCheckpoint

end SelfDistillation
