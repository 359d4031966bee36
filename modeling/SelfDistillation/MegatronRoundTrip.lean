/-
What is loaded into the processes of a Megatron model is what is collected
from them.
-/
import SelfDistillation.MegatronLoad

namespace SelfDistillation

namespace MegatronCheckpoint

open Blocks Chunks Buffer TryLoop

/-- The weights a layer's parameter is made from. -/
def LayerParam.weights : LayerParam → List LayerWeight
  | .qkvLayerNorm => [.inputLayernorm]
  | .qLayernorm => [.qNorm]
  | .kLayernorm => [.kNorm]
  | .qkvWeight => [.qProj, .kProj, .vProj]
  | .qkvBias => [.qProjBias, .kProjBias, .vProjBias]
  | .projWeight => [.oProj]
  | .fc1LayerNorm => [.postAttentionLayernorm]
  | .fc1Weight => [.gateProj, .upProj]
  | .fc2Weight => [.downProj]

/-- The parameter a weight goes into. -/
def LayerWeight.param : LayerWeight → LayerParam
  | .inputLayernorm => .qkvLayerNorm
  | .qNorm => .qLayernorm
  | .kNorm => .kLayernorm
  | .qProj => .qkvWeight
  | .kProj => .qkvWeight
  | .vProj => .qkvWeight
  | .qProjBias => .qkvBias
  | .kProjBias => .qkvBias
  | .vProjBias => .qkvBias
  | .oProj => .projWeight
  | .postAttentionLayernorm => .fc1LayerNorm
  | .gateProj => .fc1Weight
  | .upProj => .fc1Weight
  | .downProj => .fc2Weight

/-- The given weights from the first state dict, the others from the
second. -/
def StateDict.overlay {σ : Type} (sd : StateDict σ) (names : List WeightName)
    (sd' : StateDict σ) : StateDict σ := fun n =>
  if n ∈ names then sd n else sd' n

section Save

variable {σ : Type} {cfg : Config} {vocab : Nat} {sd sd' : StateDict σ}
  {mem : Memory σ} {tensor : Coord → Option (List σ)} {pp : Nat}

theorem overlay_append (names names' : List WeightName) :
    sd.overlay names' (sd.overlay names sd') =
      sd.overlay (names ++ names') sd' := by
  funext n
  simp only [StateDict.overlay, List.mem_append]
  by_cases h' : n ∈ names'
  · simp [h']
  · simp [h']

theorem overlay_set {name : WeightName} {weight : List σ}
    (hname : sd name = some weight) (names : List WeightName) :
    (sd.overlay names sd').set name weight =
      sd.overlay (names ++ [name]) sd' := by
  rw [← overlay_append]
  funext n
  by_cases hn : n = name
  · simp [StateDict.set, StateDict.overlay, hn, hname]
  · simp [StateDict.set, StateDict.overlay, hn]

theorem overlay_nil : sd.overlay [] sd' = sd' := by
  funext n
  exact if_neg (List.not_mem_nil)

theorem set_eq_overlay {name : WeightName} {weight : List σ}
    (hname : sd name = some weight) :
    sd'.set name weight = sd.overlay [name] sd' := by
  rw [← List.nil_append [name], ← overlay_set hname, overlay_nil]

theorem Valid.mem_processes (h : Valid cfg) {i : Nat} (hi : i < cfg.tpSize)
    (hpp : pp < cfg.ppSize) : (⟨i, 0, 0, pp⟩ : Coord) ∈ cfg.processes :=
  MegatronCheckpoint.mem_processes.mpr ⟨hi, h.cp_pos, h.dp_pos, hpp⟩

theorem collectTensor_ok (h : Valid cfg) (hpp : pp < cfg.ppSize)
    {name : WeightName} {weight : List σ}
    (htensor : tensor ⟨0, 0, 0, pp⟩ = some weight)
    (hname : sd name = some weight) :
    cfg.collectTensor tensor name pp sd' = .ok (sd.overlay [name] sd') := by
  rw [Config.collectTensor,
    atRank_calcGlobalRank (h.mem_processes h.tp_pos hpp), htensor,
    ← set_eq_overlay hname]

theorem collectShards_ok (h : Valid cfg) (hpp : pp < cfg.ppSize)
    {f : Nat → List σ}
    (htensor : ∀ i < cfg.tpSize, tensor ⟨i, 0, 0, pp⟩ = some (f i)) :
    cfg.collectShards tensor pp = .ok (blocks cfg.tpSize f) := by
  rw [Config.collectShards, mapM_eq_ok_of_forall (g := f), ok_bind,
    cat_map_range h.tp_pos]
  intro i hi
  have hi := List.mem_range.mp hi
  rw [atRank_calcGlobalRank (h.mem_processes hi hpp), htensor i hi]

/-- What saving one parameter of a layer does. -/
theorem saveParam_ok (h : Valid cfg) (hall : Allocated cfg vocab mem)
    {layer vpp idx : Nat} (hpp : pp < cfg.ppSize) (hvpp : vpp < cfg.vppSize)
    (hidx : idx < cfg.numLayersPerModel) {param : LayerParam}
    (hparam : param ∈ cfg.savedParams)
    (hhas : HasParam cfg sd mem layer pp vpp idx param) :
    cfg.saveParam mem layer pp vpp idx sd' param =
      .ok (sd.overlay (param.weights.map (.layer layer)) sd') := by
  obtain ⟨f, hrestores, hf⟩ := hhas
  have hrequire : Config.requireParam cfg.savers mem (fun _ => true)
      (.layer vpp idx param) = .ok () := by
    apply hall.requireParam (fun _ hc => (mem_savers.mp hc).1)
    intro c _ _
    rw [Config.paramSize, if_pos ⟨hvpp, hidx⟩]
    exact layerParamSize_isSome hparam
  have hshards : ∀ i < cfg.tpSize,
      mem ⟨i, 0, 0, pp⟩ (.layer vpp idx param) = some (f i) :=
    fun i _ => hf ⟨i, 0, 0, pp⟩ rfl rfl
  have hfirst := hshards 0 h.tp_pos
  have hjoined : cfg.collectShards (fun c => mem c (.layer vpp idx param)) pp =
      .ok (blocks cfg.tpSize f) := collectShards_ok h hpp hshards
  rw [Config.saveParam, hrequire, ok_bind]
  cases param with
  | qkvLayerNorm | qLayernorm | kLayernorm | fc1LayerNorm =>
      exact collectTensor_ok h hpp hfirst hrestores
  | projWeight | fc2Weight =>
      simp only [Config.collectTpShardTensor, hjoined, ok_bind,
        set_eq_overlay hrestores]
      rfl
  | fc1Weight =>
      obtain ⟨gate, up, hgate, hup, hsplit⟩ := hrestores
      simp only [Config.collectTpShardTensorGateUp, hjoined, ok_bind, hsplit,
        set_eq_overlay hgate, overlay_set hup]
      rfl
  | qkvWeight | qkvBias =>
      obtain ⟨q, k, v, hq, hk, hv, hsplit⟩ := hrestores
      simp only [Config.collectTpShardTensorQkv, hjoined, ok_bind, hsplit,
        set_eq_overlay hq, overlay_set hk, overlay_set hv]
      rfl

/-- The weights of a layer that are saved. -/
def Config.layerNames (cfg : Config) (layer : Nat) : List WeightName :=
  cfg.savedParams.flatMap fun param => param.weights.map (.layer layer)

theorem saveLayer_ok (h : Valid cfg) (hall : Allocated cfg vocab mem)
    {layer : Nat} (hhas : HasLayer cfg sd mem layer) (sd' : StateDict σ) :
    cfg.saveLayer mem layer sd' =
      .ok (sd.overlay (cfg.layerNames layer) sd') := by
  obtain ⟨pp, hpp, vpp, hvpp, idx, hidx, hplace, hparams⟩ := hhas
  have hfold : ∀ params : List LayerParam,
      (∀ param ∈ params, param ∈ cfg.savedParams) → ∀ sd',
      params.foldlM (cfg.saveParam mem layer pp vpp idx) sd' =
        .ok (sd.overlay (params.flatMap fun param =>
          param.weights.map (.layer layer)) sd') := by
    intro params
    induction params with
    | nil => exact fun _ sd' => congrArg _ overlay_nil.symm
    | cons param params ih =>
        intro hmem sd'
        have hparam := hmem param List.mem_cons_self
        rw [List.foldlM_cons, saveParam_ok h hall hpp hvpp hidx hparam
            (hparams param hparam), ok_bind,
          ih (fun p hp => hmem p (List.mem_cons_of_mem _ hp)),
          overlay_append, List.flatMap_cons]
  rw [Config.saveLayer, hplace, layerMap_layerAt h hpp hvpp hidx, ok_bind,
    ← hplace]
  exact hfold _ (fun _ hp => hp) sd'

/-- All weights that are saved. -/
def Config.savedNames (cfg : Config) : List WeightName :=
  .embedTokens :: ((List.range cfg.numHiddenLayers).flatMap cfg.layerNames ++
    .norm :: if cfg.tieWordEmbeddings then [] else [.lmHead])

/-- Every weight of a layer goes into a parameter that is saved. -/
theorem exists_savedParam {weight : LayerWeight}
    (hsize : (cfg.layerWeightSize weight).isSome) :
    ∃ param ∈ cfg.savedParams, weight ∈ param.weights := by
  refine ⟨weight.param, ?_, by cases weight <;> decide⟩
  cases hqk : cfg.qkLayernorm <;> cases hbias : cfg.addQkvBias <;>
    cases weight <;>
    simp_all [LayerWeight.param, Config.savedParams, Config.layerWeightSize]

theorem mem_savedNames {name : WeightName}
    (hsize : (cfg.weightSize vocab name).isSome) : name ∈ cfg.savedNames := by
  rw [Config.savedNames, List.mem_cons, List.mem_append, List.mem_cons]
  cases name with
  | embedTokens => exact .inl rfl
  | layer index weight =>
      refine .inr (.inl ?_)
      rw [Config.weightSize] at hsize
      split at hsize
      · next hindex =>
          obtain ⟨param, hparam, hweight⟩ := exists_savedParam hsize
          rw [List.mem_flatMap]
          refine ⟨index, List.mem_range.mpr hindex, ?_⟩
          rw [Config.layerNames, List.mem_flatMap]
          exact ⟨param, hparam, List.mem_map_of_mem hweight⟩
      · cases hsize
  | norm => exact .inr (.inr (.inl rfl))
  | lmHead =>
      refine .inr (.inr (.inr ?_))
      rw [Config.weightSize] at hsize
      split at hsize
      · cases hsize
      · next htie =>
          rw [if_neg htie]
          exact List.mem_singleton_self _
  | rewardHead => cases hsize
  | score => cases hsize

theorem overlay_savedNames (hsd : Complete cfg vocab sd) :
    sd.overlay cfg.savedNames (fun _ => none) = sd := by
  funext n
  rw [StateDict.overlay]
  split
  · rfl
  · next hn =>
      symm
      rw [← Option.map_eq_none_iff (f := List.length), hsd n,
        ← Option.not_isSome_iff_eq_none]
      exact fun hsize => hn (mem_savedNames hsize)

theorem saveLmHead_ok (h : Valid cfg) (hloaded : Loaded cfg vocab sd mem)
    (sd' : StateDict σ) :
    cfg.saveLmHead mem sd' = .ok (sd.overlay
      (if cfg.tieWordEmbeddings then [] else [.lmHead]) sd') := by
  rw [Config.saveLmHead]
  cases htie : cfg.tieWordEmbeddings with
  | true =>
      rw [if_pos rfl, if_pos rfl, overlay_nil]
  | false =>
      obtain ⟨f, hf, hstored⟩ := hloaded.head htie
      have hpred : cfg.ppSize - 1 < cfg.ppSize :=
        Nat.sub_lt h.pp_pos Nat.one_pos
      have hlast : cfg.ppSize - 1 + 1 = cfg.ppSize :=
        Nat.sub_add_cancel h.pp_pos
      have htensor : ∀ i < cfg.tpSize,
          (if cfg.ppSize - 1 + 1 = cfg.ppSize then
            mem ⟨i, 0, 0, cfg.ppSize - 1⟩ .outputLayer else none) =
              some (f i) := by
        intro i hi
        rw [if_pos hlast]
        exact hstored _ (h.mem_processes hi hpred) rfl hlast
      simp only [Bool.false_eq_true, if_false]
      cases hvalue : cfg.isValueModel with
      | true =>
          rw [hvalue, if_pos rfl] at hf
          exact collectTensor_ok h hpred (htensor 0 h.tp_pos) hf
      | false =>
          rw [hvalue, if_neg Bool.false_ne_true] at hf
          simp only [Bool.false_eq_true, if_false,
            Config.collectTpShardTensor]
          rw [collectShards_ok h hpred htensor, ok_bind, set_eq_overlay hf]

theorem mergeCkpt_ok (h : Valid cfg) (hsd : Complete cfg vocab sd)
    (hloaded : Loaded cfg vocab sd mem) : cfg.mergeCkpt mem = .ok sd := by
  have hrequire : Config.requireParam cfg.savers mem (fun c => c.pp == 0)
      .wordEmbeddings = .ok () := by
    apply hloaded.allocated.requireParam fun _ hc => (mem_savers.mp hc).1
    intro c _ hpp
    rw [Config.paramSize, if_pos (beq_iff_eq.mp hpp)]
    rfl
  obtain ⟨f, hembed, hstored⟩ := hloaded.embedding
  have hembedding : cfg.collectTpShardTensor
      (fun c => if c.pp = 0 then mem c .wordEmbeddings else none) .embedTokens
      0 (fun _ => none) = .ok (sd.overlay [.embedTokens] fun _ => none) := by
    have htensor : ∀ i < cfg.tpSize,
        (if (0 : Nat) = 0 then mem ⟨i, 0, 0, 0⟩ .wordEmbeddings else none) =
          some (f i) := by
      intro i _
      rw [if_pos rfl]
      exact hstored _ rfl rfl
    rw [Config.collectTpShardTensor, collectShards_ok h h.pp_pos htensor,
      ok_bind, set_eq_overlay hembed]
  have hlayers : ∃ sd', tryRange cfg.numHiddenLayers
      (sd.overlay [.embedTokens] fun _ => none) (cfg.saveLayer mem) =
        .ok sd' ∧ sd' = sd.overlay (.embedTokens ::
          (List.range cfg.numHiddenLayers).flatMap cfg.layerNames)
          fun _ => none :=
    exists_tryRange (fun n sd' => sd' = sd.overlay (.embedTokens ::
      (List.range n).flatMap cfg.layerNames) fun _ => none) rfl
      fun layer hlayer sd' hsd' =>
        ⟨_, saveLayer_ok h hloaded.allocated (hloaded.layers layer hlayer) sd',
          by
            rw [hsd', overlay_append, List.cons_append, List.range_succ,
              List.flatMap_append, List.flatMap_singleton]⟩
  obtain ⟨sd', hlayers, rfl⟩ := hlayers
  obtain ⟨w, hw, hnorm⟩ := hloaded.norm
  have hpred : cfg.ppSize - 1 < cfg.ppSize :=
    Nat.sub_lt h.pp_pos Nat.one_pos
  have hfinal : mem ⟨0, 0, 0, cfg.ppSize - 1⟩ .finalLayernorm = some w :=
    hnorm _ (h.mem_processes h.tp_pos hpred) rfl
      (Nat.sub_add_cancel h.pp_pos)
  have hcollect (sd' : StateDict σ) :
      cfg.collectTensor (fun c => mem c .finalLayernorm) .norm
        (cfg.ppSize - 1) sd' = .ok (sd.overlay [.norm] sd') :=
    collectTensor_ok h hpred hfinal hw
  rw [Config.mergeCkpt, h.assertion, pyAssert_true, ok_bind, hrequire,
    ok_bind, hembedding, ok_bind, hlayers, ok_bind, hcollect, ok_bind,
    saveLmHead_ok h hloaded, overlay_append, overlay_append]
  have hnames := overlay_savedNames hsd
  rw [Config.savedNames] at hnames
  rw [List.cons_append, List.singleton_append, hnames]

/-- A loop over a list that returns has run its body for every element. -/
theorem exists_of_foldlM_ok {β γ : Type} {step : β → γ → Py β} {x : γ}
    {xs : List γ} {b b' : β} (hfold : xs.foldlM step b = .ok b')
    (hx : x ∈ xs) : ∃ s s', step s x = .ok s' := by
  induction xs generalizing b with
  | nil => cases hx
  | cons y ys ih =>
      rw [List.foldlM_cons, bind_eq_ok] at hfold
      obtain ⟨mid, hstep, hrest⟩ := hfold
      rcases List.mem_cons.mp hx with rfl | hx
      · exact ⟨b, mid, hstep⟩
      · exact ih hrest hx

theorem splitQkv_ne_ok (h : Valid cfg)
    (hkv : cfg.numKeyValueHeads < cfg.tpSize) {fullTensor : List σ}
    {parts : List σ × List σ × List σ} :
    cfg.splitQkv fullTensor ≠ .ok parts := by
  intro hok
  rw [Config.splitQkv, bind_eq_ok] at hok
  obtain ⟨hidden, -, hok⟩ := hok
  obtain ⟨lists, hloop, -⟩ := bind_eq_ok.mp hok
  obtain ⟨s, s', -, hpart⟩ :=
    (tryRange_invariant (fun _ _ => True) trivial
      (fun _ _ _ _ _ _ => trivial) hloop).2 0 h.tp_pos
  have hzero : cfg.numQueryGroups / cfg.tpSize = 0 := by
    rw [h.queryGroups, Nat.div_eq_of_lt hkv]
  simp only [Config.splitPart, hzero, if_true] at hpart
  cases hpart

/-- With more ranks than key and value heads the saver divides by zero in the
first layer, whatever the processes hold. -/
theorem mergeCkpt_ne_ok (h : Valid cfg)
    (hkv : cfg.numKeyValueHeads < cfg.tpSize)
    (hlayers : 0 < cfg.numHiddenLayers) : cfg.mergeCkpt mem ≠ .ok sd := by
  intro hok
  rw [Config.mergeCkpt, bind_eq_ok] at hok
  obtain ⟨_, -, hok⟩ := hok
  obtain ⟨_, -, hok⟩ := bind_eq_ok.mp hok
  obtain ⟨_, -, hok⟩ := bind_eq_ok.mp hok
  obtain ⟨_, hloop, -⟩ := bind_eq_ok.mp hok
  obtain ⟨_, _, -, hlayer⟩ :=
    (tryRange_invariant (fun _ _ => True) trivial
      (fun _ _ _ _ _ _ => trivial) hloop).2 0 hlayers
  obtain ⟨⟨pp, vpp, idx⟩, -, hfold⟩ := bind_eq_ok.mp hlayer
  have hmem : LayerParam.qkvWeight ∈ cfg.savedParams := by
    simp [Config.savedParams]
  obtain ⟨s, s', hparam⟩ := exists_of_foldlM_ok hfold hmem
  obtain ⟨_, -, hparam⟩ := bind_eq_ok.mp hparam
  obtain ⟨_, -, hparam⟩ := bind_eq_ok.mp hparam
  obtain ⟨_, hsplit, -⟩ := bind_eq_ok.mp hparam
  exact splitQkv_ne_ok h hkv hsplit

end Save

section RoundTrip

variable {σ : Type} {cfg : Config} {vocab : Nat}

variable {make : Nat → List σ} (hmake : ∀ size, (make size).length = size)

include hmake

theorem complete_make : Complete cfg vocab fun name =>
    (cfg.weightSize vocab name).map make := by
  intro name
  rw [Option.map_map, (funext hmake : List.length ∘ make = id), Option.map_id]
  rfl

theorem allocated_make : Allocated cfg vocab fun c p =>
    (cfg.paramSize vocab c p).map make := by
  intro c _ p _
  rw [Option.map_map, (funext hmake : List.length ∘ make = id), Option.map_id]
  rfl

omit hmake

/-- Four layers on two stages of two model chunks, with two tensor parallel
ranks. -/
def twoStages : Config where
  numHiddenLayers := 4
  hiddenSize := 8
  headDim := none
  numAttentionHeads := 4
  numKeyValueHeads := 2
  intermediateSize := 6
  numQueryGroups := 2
  qkLayernorm := true
  addQkvBias := true
  isValueModel := false
  tieWordEmbeddings := false
  tpSize := 2
  cpSize := 1
  dpSize := 2
  ppSize := 2
  vppSize := 2

end RoundTrip

end MegatronCheckpoint

end SelfDistillation
