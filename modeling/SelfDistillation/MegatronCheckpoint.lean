/-
Loading a checkpoint into the processes of a Megatron model and collecting it
from them again: `load_state_dict_to_megatron_gptmodel`
(verl/models/mcore/loader.py) and `merge_megatron_ckpt_gptmodel`
(verl/models/mcore/saver.py).
-/
import SelfDistillation.MegatronShards

namespace SelfDistillation

namespace MegatronCheckpoint

open Blocks Chunks Buffer TryLoop

/-- A process, by its rank in each of the parallel groups. -/
structure Coord where
  tp : Nat
  cp : Nat
  dp : Nat
  pp : Nat
deriving DecidableEq

/-- A parameter of a decoder layer. -/
inductive LayerParam
  | qkvLayerNorm
  | qLayernorm
  | kLayernorm
  | qkvWeight
  | qkvBias
  | projWeight
  | fc1LayerNorm
  | fc1Weight
  | fc2Weight
deriving DecidableEq

/-- A parameter of a process: those of a layer by the model chunk, which is
the virtual pipeline rank, and the place in its `decoder.layers`. -/
inductive Param
  | wordEmbeddings
  | layer (virtualPpRank layerIdx : Nat) (param : LayerParam)
  | finalLayernorm
  | outputLayer
deriving DecidableEq

/-- The weights of a layer in the state dict. -/
inductive LayerWeight
  | inputLayernorm
  | qNorm
  | kNorm
  | qProj
  | kProj
  | vProj
  | qProjBias
  | kProjBias
  | vProjBias
  | oProj
  | postAttentionLayernorm
  | gateProj
  | upProj
  | downProj
deriving DecidableEq

inductive WeightName
  | embedTokens
  | layer (index : Nat) (weight : LayerWeight)
  | norm
  | lmHead
  | rewardHead
  | score
deriving DecidableEq

def LayerWeight.key : LayerWeight → String
  | inputLayernorm => "input_layernorm.weight"
  | qNorm => "self_attn.q_norm.weight"
  | kNorm => "self_attn.k_norm.weight"
  | qProj => "self_attn.q_proj.weight"
  | kProj => "self_attn.k_proj.weight"
  | vProj => "self_attn.v_proj.weight"
  | qProjBias => "self_attn.q_proj.bias"
  | kProjBias => "self_attn.k_proj.bias"
  | vProjBias => "self_attn.v_proj.bias"
  | oProj => "self_attn.o_proj.weight"
  | postAttentionLayernorm => "post_attention_layernorm.weight"
  | gateProj => "mlp.gate_proj.weight"
  | upProj => "mlp.up_proj.weight"
  | downProj => "mlp.down_proj.weight"

/-- The key in the state dict. -/
def WeightName.key : WeightName → String
  | embedTokens => "model.embed_tokens.weight"
  | layer index weight => s!"model.layers.{index}.{weight.key}"
  | norm => "model.norm.weight"
  | lmHead => "lm_head.weight"
  | rewardHead => "reward_head.weight"
  | score => "score.weight"

abbrev StateDict (σ : Type) := WeightName → Option (List σ)

/-- The parameters of every process; `none` for one that it does not have. -/
abbrev Memory (σ : Type) := Coord → Param → Option (List σ)

namespace Memory

variable {σ : Type}

/-- Every process with data parallel rank 0 that passes the parameter gets
the value for its tensor parallel rank. -/
def store (mem : Memory σ) (passes : Coord → Bool) (p : Param)
    (value : Nat → List σ) : Memory σ := fun c q =>
  if c.dp = 0 ∧ passes c ∧ q = p then some (value c.tp) else mem c q

/-- `broadcast_params`: all data parallel ranks get what rank 0 has. -/
def broadcastParams (mem : Memory σ) : Memory σ := fun c q =>
  mem { c with dp := 0 } q

end Memory

namespace StateDict

variable {σ : Type}

/-- `state_dict[name] = weight` -/
def set (sd : StateDict σ) (name : WeightName) (weight : List σ) :
    StateDict σ := fun n => if n = name then some weight else sd n

end StateDict

namespace Config

variable {σ : Type} (cfg : Config)

/-- `_megatron_calc_global_rank` -/
def calcGlobalRank (c : Coord) : Nat :=
  ((c.pp * cfg.dpSize + c.dp) * cfg.cpSize + c.cp) * cfg.tpSize + c.tp

def processes : List Coord :=
  (List.range cfg.ppSize).flatMap fun pp =>
    (List.range cfg.dpSize).flatMap fun dp =>
      (List.range cfg.cpSize).flatMap fun cp =>
        (List.range cfg.tpSize).map fun tp => ⟨tp, cp, dp, pp⟩

def numLayersPerModel : Nat :=
  cfg.numHiddenLayers / cfg.ppSize / cfg.vppSize

/-- The items `_megatron_calc_layer_map` sets, in their order. -/
def layerMapItems : List (Nat × Nat × Nat × Nat) :=
  (List.range cfg.ppSize).flatMap fun ppRankIdx =>
    (List.range cfg.vppSize).flatMap fun virtualPpRankIdx =>
      let layerOffset :=
        virtualPpRankIdx * (cfg.numHiddenLayers / cfg.vppSize) +
          ppRankIdx * cfg.numLayersPerModel
      (List.range cfg.numLayersPerModel).map fun layerIdx =>
        (layerOffset + layerIdx, ppRankIdx, virtualPpRankIdx, layerIdx)

/-- `_megatron_calc_layer_map(config)[layer]`; a later item takes the place
of an earlier one. -/
def layerMap (layer : Nat) : Py (Nat × Nat × Nat) := do
  pyAssert (cfg.numLayersPerModel * cfg.ppSize * cfg.vppSize ==
    cfg.numHiddenLayers) ""
  match cfg.layerMapItems.reverse.find? fun item => item.1 == layer with
  | some item => .ok item.2
  | none => .error (.keyError s!"{layer}")

section Loader

variable (sd : StateDict σ) (fill : σ)

/-- The processes that load, one model parallel group for each context
parallel rank. -/
def loaders : List Coord := cfg.processes.filter fun c => c.dp == 0

/-- A process that passes a parameter has to have it. -/
def requireParam (group : List Coord) (mem : Memory σ)
    (passes : Coord → Bool) (p : Param) : Py Unit :=
  if group.all fun c => !passes c || (mem c p).isSome then .ok ()
  else .error .attributeError

/-- Whether every process that passes the parameter has it in this size. -/
def sizesMatch (mem : Memory σ) (passes : Coord → Bool) (p : Param)
    (size : Nat) : Bool :=
  cfg.loaders.all fun c =>
    !passes c || ((mem c p).map List.length == some size)

/-- `_broadcast_tensor` of the loader. -/
def broadcastTensor (mem : Memory σ) (passes : Coord → Bool) (p : Param)
    (name : WeightName) : Py (Memory σ) := do
  requireParam cfg.loaders mem passes p
  match sd name with
  | none => .ok mem
  | some weight =>
      if cfg.sizesMatch mem passes p weight.length then
        .ok (mem.store passes p fun _ => weight)
      else .error (.runtimeError "The sizes of the tensors must match")

/-- The end of the `_broadcast_tp_shard_tensor` functions: piece `i` goes to
tensor parallel rank `i`. -/
def broadcastChunks (mem : Memory σ) (passes : Coord → Bool) (p : Param)
    (tensorChunk : List (List σ)) : Py (Memory σ) := do
  let first ← pieceAt tensorChunk 0
  pyAssert (cfg.sizesMatch mem passes p first.length)
    "tensor shape != chunk shape"
  let pieces ← (List.range cfg.tpSize).mapM fun i => do
    let piece ← pieceAt tensorChunk i
    -- all pieces go through one buffer of the size of the first
    copySlice first 0 first.length piece
  .ok (mem.store passes p fun i => pieces.getD i [])

/-- `_broadcast_tp_shard_tensor` and `_broadcast_tp_shard_tensor_vocab` of the
loader. -/
def broadcastTpShardTensor (mem : Memory σ) (passes : Coord → Bool)
    (p : Param) (name : WeightName) : Py (Memory σ) := do
  requireParam cfg.loaders mem passes p
  match sd name with
  | none => .ok mem
  | some fullWeight =>
      let tensorChunk ← chunk fullWeight cfg.tpSize
      cfg.broadcastChunks mem passes p tensorChunk

/-- `state_dict[name]` -/
def getWeight (name : WeightName) : Py (List σ) :=
  match sd name with
  | some weight => .ok weight
  | none => .error (.keyError name.key)

/-- `_broadcast_tp_shard_tensor_gate_up` of the loader. -/
def broadcastTpShardTensorGateUp (mem : Memory σ) (passes : Coord → Bool)
    (p : Param) (gateName upName : WeightName) : Py (Memory σ) := do
  requireParam cfg.loaders mem passes p
  let gateWeight ← getWeight sd gateName
  let upWeight ← getWeight sd upName
  let newGateUpWeight ← cfg.gateUpWeight fill gateWeight upWeight
  let tensorChunk ← chunk newGateUpWeight cfg.tpSize
  cfg.broadcastChunks mem passes p tensorChunk

/-- `_broadcast_tp_shard_tensor_qkv` of the loader. -/
def broadcastTpShardTensorQkv (mem : Memory σ) (passes : Coord → Bool)
    (p : Param) (qName kName vName : WeightName) : Py (Memory σ) := do
  requireParam cfg.loaders mem passes p
  pyAssert ((sd qName).isSome && (sd kName).isSome && (sd vName).isSome) ""
  let fullWeightQ ← getWeight sd qName
  let fullWeightK ← getWeight sd kName
  let fullWeightV ← getWeight sd vName
  let newWeightQkv ← cfg.qkvWeight fill fullWeightQ fullWeightK fullWeightV
  let tensorChunk ← chunk newWeightQkv cfg.tpSize
  cfg.broadcastChunks mem passes p tensorChunk

/-- The parameters of a layer that are loaded, in their order. -/
def loadedParams (layer : Nat) : List LayerParam :=
  let norms : List LayerParam :=
    if (sd (.layer layer .qNorm)).isSome then [.qLayernorm, .kLayernorm]
    else []
  let bias : List LayerParam :=
    if (sd (.layer layer .qProjBias)).isSome then [.qkvBias] else []
  let rest : List LayerParam :=
    [.projWeight, .fc1LayerNorm, .fc1Weight, .fc2Weight]
  .qkvLayerNorm :: (norms ++ .qkvWeight :: (bias ++ rest))

/-- The call that loads a parameter of a layer. -/
def loadParam (layer dstPpRank dstVirtualPpRank dstLayerIdx : Nat)
    (mem : Memory σ) (param : LayerParam) : Py (Memory σ) :=
  let passes (c : Coord) := c.pp == dstPpRank
  let p := Param.layer dstVirtualPpRank dstLayerIdx param
  match param with
  | .qkvLayerNorm =>
      cfg.broadcastTensor sd mem passes p (.layer layer .inputLayernorm)
  | .qLayernorm => cfg.broadcastTensor sd mem passes p (.layer layer .qNorm)
  | .kLayernorm => cfg.broadcastTensor sd mem passes p (.layer layer .kNorm)
  | .qkvWeight =>
      cfg.broadcastTpShardTensorQkv sd fill mem passes p (.layer layer .qProj)
        (.layer layer .kProj) (.layer layer .vProj)
  | .qkvBias =>
      cfg.broadcastTpShardTensorQkv sd fill mem passes p
        (.layer layer .qProjBias) (.layer layer .kProjBias)
        (.layer layer .vProjBias)
  | .projWeight =>
      cfg.broadcastTpShardTensor sd mem passes p (.layer layer .oProj)
  | .fc1LayerNorm =>
      cfg.broadcastTensor sd mem passes p
        (.layer layer .postAttentionLayernorm)
  | .fc1Weight =>
      cfg.broadcastTpShardTensorGateUp sd fill mem passes p
        (.layer layer .gateProj) (.layer layer .upProj)
  | .fc2Weight =>
      cfg.broadcastTpShardTensor sd mem passes p (.layer layer .downProj)

def loadLayer (layer : Nat) (mem : Memory σ) : Py (Memory σ) := do
  let (dstPpRank, dstVirtualPpRank, dstLayerIdx) ← cfg.layerMap layer
  (loadedParams sd layer).foldlM
    (cfg.loadParam sd fill layer dstPpRank dstVirtualPpRank dstLayerIdx) mem

/-- Loading `lm_head`. -/
def loadLmHead (mem : Memory σ) : Py (Memory σ) :=
  -- an output layer without a weight of its own holds none
  let passes (c : Coord) :=
    c.pp + 1 == cfg.ppSize && (mem c .outputLayer).isSome
  let oneRow (name : WeightName) := (sd name).map List.length == some 1
  if cfg.isValueModel then
    if oneRow .lmHead then
      cfg.broadcastTensor sd mem passes .outputLayer .lmHead
    else if oneRow .rewardHead then
      cfg.broadcastTensor sd mem passes .outputLayer .rewardHead
    else if oneRow .score then
      cfg.broadcastTensor sd mem passes .outputLayer .score
    else cfg.broadcastTensor sd mem (fun _ => false) .outputLayer .lmHead
  else cfg.broadcastTpShardTensor sd mem passes .outputLayer .lmHead

/-- `load_state_dict_to_megatron_gptmodel`; `fill` is what `torch.empty`
holds. -/
def loadStateDict (mem : Memory σ) : Py (Memory σ) := do
  pyAssert (cfg.numLayersPerModel * cfg.ppSize * cfg.vppSize ==
    cfg.numHiddenLayers) ""
  let mem ← cfg.broadcastTpShardTensor sd mem (fun c => c.pp == 0)
    .wordEmbeddings .embedTokens
  let mem ← tryRange cfg.numHiddenLayers mem (cfg.loadLayer sd fill)
  let mem ← cfg.broadcastTensor sd mem
    (fun c => (mem c .finalLayernorm).isSome) .finalLayernorm .norm
  let mem ← cfg.loadLmHead sd mem
  .ok mem.broadcastParams

end Loader

section Saver

/-- The tensor that the process with the given global rank passes. -/
def atRank (tensor : Coord → Option (List σ)) (rank : Nat) :
    Option (List σ) :=
  (cfg.processes.find? fun c => cfg.calcGlobalRank c == rank).bind tensor

/-- The processes that save: one model parallel group. -/
def savers : List Coord :=
  cfg.processes.filter fun c => c.dp == 0 && c.cp == 0

/-- `_broadcast_tensor` of the saver. -/
def collectTensor (tensor : Coord → Option (List σ)) (name : WeightName)
    (srcPpRank : Nat) (sd : StateDict σ) : Py (StateDict σ) :=
  match cfg.atRank tensor (cfg.calcGlobalRank ⟨0, 0, 0, srcPpRank⟩) with
  | none => .ok sd
  | some weight => .ok (sd.set name weight)

/-- The start of the `_broadcast_tp_shard_tensor` functions of the saver: the
pieces of all tensor parallel ranks, joined. -/
def collectShards (tensor : Coord → Option (List σ)) (srcPpRank : Nat) :
    Py (List σ) := do
  let chunkTensors ← (List.range cfg.tpSize).mapM fun i =>
    match cfg.atRank tensor (cfg.calcGlobalRank ⟨i, 0, 0, srcPpRank⟩) with
    | some syncTensor => .ok syncTensor
    | none => .error .attributeError
  cat chunkTensors

/-- `_broadcast_tp_shard_tensor` of the saver. -/
def collectTpShardTensor (tensor : Coord → Option (List σ))
    (name : WeightName) (srcPpRank : Nat) (sd : StateDict σ) :
    Py (StateDict σ) := do
  let fullTensor ← cfg.collectShards tensor srcPpRank
  .ok (sd.set name fullTensor)

/-- `_broadcast_tp_shard_tensor_gate_up` of the saver. -/
def collectTpShardTensorGateUp (tensor : Coord → Option (List σ))
    (gateName upName : WeightName) (srcPpRank : Nat) (sd : StateDict σ) :
    Py (StateDict σ) := do
  let fullTensor ← cfg.collectShards tensor srcPpRank
  let (gateWeight, upWeight) ← cfg.splitGateUp fullTensor
  .ok ((sd.set gateName gateWeight).set upName upWeight)

/-- `_broadcast_tp_shard_tensor_qkv` of the saver. -/
def collectTpShardTensorQkv (tensor : Coord → Option (List σ))
    (qName kName vName : WeightName) (srcPpRank : Nat) (sd : StateDict σ) :
    Py (StateDict σ) := do
  let fullTensor ← cfg.collectShards tensor srcPpRank
  let (q, k, v) ← cfg.splitQkv fullTensor
  .ok (((sd.set qName q).set kName k).set vName v)

/-- The parameters of a layer that are saved, in their order. -/
def savedParams : List LayerParam :=
  let norms : List LayerParam :=
    if cfg.qkLayernorm then [.qLayernorm, .kLayernorm]
    else []
  let bias : List LayerParam :=
    if cfg.addQkvBias then [.qkvBias] else []
  let rest : List LayerParam :=
    [.projWeight, .fc1LayerNorm, .fc1Weight, .fc2Weight]
  .qkvLayerNorm :: (norms ++ .qkvWeight :: (bias ++ rest))

/-- The call that saves a parameter of a layer. -/
def saveParam (mem : Memory σ)
    (layer srcPpRank srcVirtualPpRank srcLayerIdx : Nat) (sd : StateDict σ)
    (param : LayerParam) : Py (StateDict σ) := do
  let p := Param.layer srcVirtualPpRank srcLayerIdx param
  requireParam cfg.savers mem (fun _ => true) p
  let tensor (c : Coord) := mem c p
  match param with
  | .qkvLayerNorm =>
      cfg.collectTensor tensor (.layer layer .inputLayernorm) srcPpRank sd
  | .qLayernorm => cfg.collectTensor tensor (.layer layer .qNorm) srcPpRank sd
  | .kLayernorm => cfg.collectTensor tensor (.layer layer .kNorm) srcPpRank sd
  | .qkvWeight =>
      cfg.collectTpShardTensorQkv tensor (.layer layer .qProj)
        (.layer layer .kProj) (.layer layer .vProj) srcPpRank sd
  | .qkvBias =>
      cfg.collectTpShardTensorQkv tensor (.layer layer .qProjBias)
        (.layer layer .kProjBias) (.layer layer .vProjBias) srcPpRank sd
  | .projWeight =>
      cfg.collectTpShardTensor tensor (.layer layer .oProj) srcPpRank sd
  | .fc1LayerNorm =>
      cfg.collectTensor tensor (.layer layer .postAttentionLayernorm)
        srcPpRank sd
  | .fc1Weight =>
      cfg.collectTpShardTensorGateUp tensor (.layer layer .gateProj)
        (.layer layer .upProj) srcPpRank sd
  | .fc2Weight =>
      cfg.collectTpShardTensor tensor (.layer layer .downProj) srcPpRank sd

def saveLayer (mem : Memory σ) (layer : Nat) (sd : StateDict σ) :
    Py (StateDict σ) := do
  let (srcPpRank, srcVirtualPpRank, srcLayerIdx) ← cfg.layerMap layer
  cfg.savedParams.foldlM
    (cfg.saveParam mem layer srcPpRank srcVirtualPpRank srcLayerIdx) sd

/-- Saving `lm_head`. -/
def saveLmHead (mem : Memory σ) (sd : StateDict σ) : Py (StateDict σ) :=
  let lmHeadWeight (c : Coord) :=
    if c.pp + 1 = cfg.ppSize then mem c .outputLayer else none
  if cfg.tieWordEmbeddings then .ok sd
  else if cfg.isValueModel then
    cfg.collectTensor lmHeadWeight .lmHead (cfg.ppSize - 1) sd
  else cfg.collectTpShardTensor lmHeadWeight .lmHead (cfg.ppSize - 1) sd

/-- `merge_megatron_ckpt_gptmodel` -/
def mergeCkpt (mem : Memory σ) : Py (StateDict σ) := do
  pyAssert (cfg.numLayersPerModel * cfg.ppSize * cfg.vppSize ==
    cfg.numHiddenLayers) ""
  requireParam cfg.savers mem (fun c => c.pp == 0) .wordEmbeddings
  let sd ← cfg.collectTpShardTensor
    (fun c => if c.pp = 0 then mem c .wordEmbeddings else none) .embedTokens 0
    (fun _ => none)
  let sd ← tryRange cfg.numHiddenLayers sd (cfg.saveLayer mem)
  let sd ← cfg.collectTensor (fun c => mem c .finalLayernorm) .norm
    (cfg.ppSize - 1) sd
  cfg.saveLmHead mem sd

end Saver

end Config

end MegatronCheckpoint

end SelfDistillation
