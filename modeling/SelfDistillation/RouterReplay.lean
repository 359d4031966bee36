/-
Replay of expert routing under pipeline schedules
(verl/utils/megatron/router_replay_patch.py and router_replay_utils.py, and
the calls of workers/engine/megatron/transformer_impl.py): every router of a
pipeline rank with its targets, and any order of forward steps and recomputed
backward steps of the model chunks.
-/
import SelfDistillation.Library.Blocks
import SelfDistillation.Python

namespace SelfDistillation.RouterReplay

open Finset

/-- `RouterReplayAction` -/
inductive Action where
  | record
  | replayForward
  | replayBackward
deriving DecidableEq, Repr

/-- `RouterReplay` of one layer, where `ι` are the top-k indices of the tokens
of a micro-batch. -/
structure Router (ι : Type) where
  targetTopkIdx : Option ι
  recordedTopkIdx : Option ι
  routerReplayAction : Option Action
  replayBackwardList : List ι

namespace Router

variable {ι : Type}

def setTargetIndices (router : Router ι) (topkIndices : ι) : Router ι :=
  { router with
    targetTopkIdx := some topkIndices
    replayBackwardList := router.replayBackwardList ++ [topkIndices] }

def recordIndices (router : Router ι) (topkIndices : ι) : Router ι :=
  { router with recordedTopkIdx := some topkIndices }

def clearIndices (router : Router ι) : Router ι :=
  { router with
    recordedTopkIdx := none
    targetTopkIdx := none
    replayBackwardList := [] }

def setRouterReplayAction (router : Router ι) (action : Option Action) :
    Router ι :=
  { router with routerReplayAction := action }

end Router

/-- `_compute_topk`, and the probabilities that `gather` reads. -/
structure TopkRouting (S P ι : Type) where
  computeTopk : S → P × ι
  gather : S → ι → P

variable {S P ι : Type}

/-- `compute_topk` of `_patched_topk_routing_with_score_function` -/
def computeTopk (routing : TopkRouting S P ι) (router : Router ι)
    (scores : S) : (P × ι) × Router ι :=
  match router.routerReplayAction with
  | none => (routing.computeTopk scores, router)
  | some .record =>
      let (probs, topIndices) := routing.computeTopk scores
      ((probs, topIndices), router.recordIndices topIndices)
  | some .replayForward =>
      match router.targetTopkIdx with
      | none => (routing.computeTopk scores, router)
      | some topIndices =>
          ((routing.gather scores topIndices, topIndices), router)
  | some .replayBackward =>
      match router.replayBackwardList with
      | [] => (routing.computeTopk scores, router)
      | topIndices :: rest =>
          ((routing.gather scores topIndices, topIndices),
            { router with replayBackwardList := rest })

/-- `moe_layer_freq`: every so many layers, or one flag for each layer. -/
inductive MoeLayerFreq (numLayers : ℕ) where
  | every (freq : ℕ) (pos : 0 < freq)
  | pattern (flags : List ℕ) (length_eq : flags.length = numLayers)

/-- `is_moe_layer` -/
def isMoeLayer {numLayers : ℕ} : MoeLayerFreq numLayers → ℕ → Bool
  | .every freq _, layerIdx => layerIdx % freq == 0
  | .pattern flags _, layerIdx => flags.getD layerIdx 0 == 1

/-- The layers of a model and the number of them that each pipeline rank
builds in each of its chunks. Megatron's `get_transformer_layer_offset` counts
the chunks of one index on all ranks before those of the next index. -/
structure Layout where
  numLayers : ℕ
  moeLayerFreq : MoeLayerFreq numLayers
  virtualPipelineSize : Option ℕ
  pipelineSize : ℕ
  getNumLayersToBuild : ℕ → ℕ → ℕ
  layerOffset : ℕ → ℕ → ℕ
  layerOffset_eq : ∀ vp pp, layerOffset vp pp =
    ∑ u ∈ range vp, ∑ q ∈ range pipelineSize, getNumLayersToBuild u q +
      ∑ q ∈ range pp, getNumLayersToBuild vp q
  total_eq : ∑ u ∈ range (virtualPipelineSize.getD 1),
    ∑ q ∈ range pipelineSize, getNumLayersToBuild u q = numLayers

namespace Layout

variable (layout : Layout)

/-- The number of chunks of a rank. -/
def numChunks : ℕ := layout.virtualPipelineSize.getD 1

/-- The layers of a chunk. -/
def layers (vp pp : ℕ) : List ℕ :=
  List.range' (layout.layerOffset vp pp) (layout.getNumLayersToBuild vp pp)

/-- The layers of a chunk that have a router. -/
def moeLayers (vp pp : ℕ) : List ℕ :=
  (layout.layers vp pp).filter (isMoeLayer layout.moeLayerFreq)

/-- `get_moe_num_layers_to_build` -/
def getMoeNumLayersToBuild (vp pp : ℕ) : ℕ :=
  (layout.layers vp pp).countP (isMoeLayer layout.moeLayerFreq)

/-- Where the routers of a chunk begin in `router_instances`. -/
def routerOffset (vp pp : ℕ) : ℕ :=
  match layout.virtualPipelineSize with
  | none => 0
  | some vpSize =>
      ∑ u ∈ range (min vp vpSize), layout.getMoeNumLayersToBuild u pp

end Layout

/-- The loop of `set_router_replay_data` over the layers of a chunk: what its
routers are given, in order. -/
def replayTargetsLoop {numLayers : ℕ} (freq : MoeLayerFreq numLayers)
    (indexByLayer : Bool) (layersTopkIdx : List ι) : List ℕ → ℕ → Py (List ι)
  | [], _ => .ok []
  | layerIdx :: rest, moeIdx =>
      if isMoeLayer freq layerIdx then
        match layersTopkIdx[if indexByLayer then layerIdx else moeIdx]? with
        | some topkIndices => do
            let targets ← replayTargetsLoop freq indexByLayer layersTopkIdx rest
              (moeIdx + 1)
            return topkIndices :: targets
        | none => .error .indexError
      else replayTargetsLoop freq indexByLayer layersTopkIdx rest moeIdx

/-- What `set_router_replay_data` gives the routers of a chunk. -/
def replayTargets (layout : Layout) (vp pp : ℕ) (layersTopkIdx : List ι) :
    Py (List ι) :=
  let moeIdx := (List.range (layout.layerOffset vp pp)).countP
    (isMoeLayer layout.moeLayerFreq)
  replayTargetsLoop layout.moeLayerFreq
    (layersTopkIdx.length == layout.numLayers) layersTopkIdx
    (layout.layers vp pp) moeIdx

/-- A change of the routers of a chunk, by their places in it. -/
def onRouters (layout : Layout) (vp pp : ℕ) (f : ℕ → Router ι → Router ι)
    (routers : List (Router ι)) : List (Router ι) :=
  let offset := layout.routerOffset vp pp
  routers.mapIdx fun i router =>
    if offset ≤ i ∧ i < offset + layout.getMoeNumLayersToBuild vp pp then
      f (i - offset) router
    else router

/-- `get_micro_batch_router_list` -/
def getMicroBatchRouterList (layout : Layout) (vp pp : ℕ)
    (routers : List (Router ι)) : List (Router ι) :=
  (routers.drop (layout.routerOffset vp pp)).take
    (layout.getMoeNumLayersToBuild vp pp)

/-- Whether the first router of a chunk has an action. -/
def isAction (layout : Layout) (vp pp : ℕ) (action : Action)
    (routers : List (Router ι)) : Bool :=
  match getMicroBatchRouterList layout vp pp routers with
  | [] => false
  | router :: _ => router.routerReplayAction == some action

/-- One pass through a chunk: each of its routers routes its scores. -/
def route (routing : TopkRouting S P ι) (layout : Layout) (vp pp : ℕ)
    (scores : ℕ → S) (routers : List (Router ι)) :
    List (P × ι) × List (Router ι) :=
  ((getMicroBatchRouterList layout vp pp routers).mapIdx fun l router =>
      (computeTopk routing router (scores l)).1,
    onRouters layout vp pp
      (fun l router => (computeTopk routing router (scores l)).2) routers)

/-- The routers of a chunk are given their targets. -/
def setTargets (targets : List ι) (l : ℕ) (router : Router ι) : Router ι :=
  match targets[l]? with
  | some topkIndices => router.setTargetIndices topkIndices
  | none => router

/-- What a pipeline rank does: the forward step of a chunk with the indices of
a micro-batch for all layers, and a backward step that recomputes a chunk. -/
inductive Event (S ι : Type) where
  | forward (vp : ℕ) (layersTopkIdx : List ι) (scores : ℕ → S)
  | backward (vp : ℕ) (scores : ℕ → S)

/-- The routing parts of `forward_step`, and of a backward step. -/
def step (routing : TopkRouting S P ι) (layout : Layout) (pp : ℕ) :
    Event S ι → List (Router ι) → Py (List (P × ι) × List (Router ι))
  | .forward vp layersTopkIdx scores, routers => do
      let routers :=
        if isAction layout vp pp .replayBackward routers then
          onRouters layout vp pp
            (fun _ router => router.setRouterReplayAction
              (some .replayForward)) routers
        else routers
      let routers ←
        if isAction layout vp pp .replayForward routers then do
          let targets ← replayTargets layout vp pp layersTopkIdx
          pure (onRouters layout vp pp (setTargets targets) routers)
        else pure routers
      let (outputs, routers) := route routing layout vp pp scores routers
      let routers :=
        if isAction layout vp pp .replayForward routers then
          onRouters layout vp pp
            (fun _ router => router.setRouterReplayAction
              (some .replayBackward)) routers
        else routers
      return (outputs, routers)
  | .backward vp scores, routers =>
      .ok (route routing layout vp pp scores routers)

/-- The outputs of the events, one after the other. -/
def run (routing : TopkRouting S P ι) (layout : Layout) (pp : ℕ) :
    List (Event S ι) → List (Router ι) →
      Py (List (List (P × ι)) × List (Router ι))
  | [], routers => .ok ([], routers)
  | event :: events, routers => do
      let (outputs, routers) ← step routing layout pp event routers
      let (rest, routers) ← run routing layout pp events routers
      return (outputs :: rest, routers)

/-- `clear_global_indices` and `set_global_router_replay_action`, as before
and after each batch. -/
def prepare (action : Option Action) (routers : List (Router ι)) :
    List (Router ι) :=
  routers.map fun router => router.clearIndices.setRouterReplayAction action

section Chunks

variable (layout : Layout) (pp : ℕ)

/-- All routers of a rank. -/
def Layout.totalRouters : ℕ :=
  ∑ u ∈ range layout.numChunks, layout.getMoeNumLayersToBuild u pp

variable {layout pp} {vp : ℕ} {routers : List (Router ι)}

/-- The chunks of a rank have their routers one after the other. -/
theorem routerOffset_eq (hvp : vp < layout.numChunks) :
    layout.routerOffset vp pp =
      ∑ u ∈ range vp, layout.getMoeNumLayersToBuild u pp := by
  rw [Layout.numChunks] at hvp
  rw [Layout.routerOffset]
  cases hsize : layout.virtualPipelineSize with
  | none =>
      rw [hsize] at hvp
      obtain rfl : vp = 0 := Nat.lt_one_iff.mp hvp
      simp
  | some vpSize =>
      rw [hsize] at hvp
      have hlt : vp < vpSize := hvp
      simp only [min_eq_left hlt.le]

theorem routerOffset_before (pp : ℕ) {u : ℕ} (hvp : vp < layout.numChunks)
    (huv : u < vp) : layout.routerOffset u pp +
      layout.getMoeNumLayersToBuild u pp ≤ layout.routerOffset vp pp := by
  rw [routerOffset_eq (huv.trans hvp), routerOffset_eq hvp,
    ← sum_range_succ]
  exact sum_le_sum_of_subset (range_subset_range.mpr huv)

theorem routerOffset_le (pp : ℕ) (hvp : vp < layout.numChunks) :
    layout.routerOffset vp pp + layout.getMoeNumLayersToBuild vp pp ≤
      layout.totalRouters pp := by
  rw [routerOffset_eq hvp, ← sum_range_succ]
  exact sum_le_sum_of_subset (range_subset_range.mpr hvp)

theorem length_getMicroBatchRouterList (hvp : vp < layout.numChunks)
    (hlength : routers.length = layout.totalRouters pp) :
    (getMicroBatchRouterList layout vp pp routers).length =
      layout.getMoeNumLayersToBuild vp pp := by
  have hle := routerOffset_le pp hvp
  rw [getMicroBatchRouterList, List.length_take, List.length_drop, hlength]
  omega

theorem getElem?_getMicroBatchRouterList (l : ℕ) :
    (getMicroBatchRouterList layout vp pp routers)[l]? =
      if l < layout.getMoeNumLayersToBuild vp pp then
        routers[layout.routerOffset vp pp + l]?
      else none := by
  rw [getMicroBatchRouterList, List.getElem?_take, List.getElem?_drop]

@[simp] theorem length_onRouters (f : ℕ → Router ι → Router ι) :
    (onRouters layout vp pp f routers).length = routers.length :=
  List.length_mapIdx

/-- A change of a chunk changes its routers. -/
theorem getMicroBatchRouterList_onRouters (f : ℕ → Router ι → Router ι) :
    getMicroBatchRouterList layout vp pp (onRouters layout vp pp f routers) =
      (getMicroBatchRouterList layout vp pp routers).mapIdx f := by
  apply List.ext_getElem?
  intro l
  simp only [getElem?_getMicroBatchRouterList, List.getElem?_mapIdx,
    onRouters]
  split
  case isTrue hl => simp [hl]
  case isFalse => rfl

/-- A change of a chunk leaves the routers of the others. -/
theorem getMicroBatchRouterList_onRouters_of_ne {u : ℕ}
    (hvp : vp < layout.numChunks) (hu : u < layout.numChunks) (hne : u ≠ vp)
    (f : ℕ → Router ι → Router ι) :
    getMicroBatchRouterList layout u pp (onRouters layout vp pp f routers) =
      getMicroBatchRouterList layout u pp routers := by
  apply List.ext_getElem?
  intro l
  simp only [getElem?_getMicroBatchRouterList, List.getElem?_mapIdx,
    onRouters]
  split
  case isTrue hl =>
    have hout : ¬ (layout.routerOffset vp pp ≤ layout.routerOffset u pp + l ∧
        layout.routerOffset u pp + l < layout.routerOffset vp pp +
          layout.getMoeNumLayersToBuild vp pp) := by
      rcases Nat.lt_or_gt_of_ne hne with hlt | hlt
      · have hbefore := routerOffset_before pp hvp hlt
        omega
      · have hbefore := routerOffset_before pp hu hlt
        omega
    simp only [if_neg hout, Option.map_id']
  case isFalse => rfl

end Chunks

section Targets

variable {layout : Layout} {vp pp : ℕ} {layersTopkIdx : List ι}

/-- The indices of a layer: by its own number where there are indices for all
layers, else by its number among those with a router. -/
def target (layout : Layout) (layersTopkIdx : List ι) (layerIdx : ℕ) :
    Option ι :=
  layersTopkIdx[if layersTopkIdx.length = layout.numLayers then layerIdx
    else (List.range layerIdx).countP (isMoeLayer layout.moeLayerFreq)]?

theorem replayTargetsLoop_eq_ok {numLayers : ℕ}
    (freq : MoeLayerFreq numLayers) (indexByLayer : Bool)
    (layersTopkIdx : List ι) (start size : ℕ) {targets : List ι} :
    replayTargetsLoop freq indexByLayer layersTopkIdx
        (List.range' start size)
        ((List.range start).countP (isMoeLayer freq)) = .ok targets ↔
      targets.map some =
        ((List.range' start size).filter (isMoeLayer freq)).map
          (fun layerIdx => layersTopkIdx[if indexByLayer then layerIdx
            else (List.range layerIdx).countP (isMoeLayer freq)]?) := by
  induction size generalizing start targets with
  | zero =>
      rw [List.range'_zero, replayTargetsLoop, List.filter_nil, List.map_nil,
        List.map_eq_nil_iff]
      exact ⟨fun h => (Except.ok.inj h).symm, fun h => h ▸ rfl⟩
  | succ size ih =>
      have hnext := fun ts : List ι => @ih (start + 1) ts
      simp only [List.range_succ, List.countP_append, List.countP_singleton]
        at hnext
      rw [List.range'_succ, replayTargetsLoop]
      cases hmoe : isMoeLayer freq start with
      | false =>
          rw [hmoe] at hnext
          rw [List.filter_cons_of_neg (by simp [hmoe])]
          exact hnext targets
      | true =>
          rw [hmoe] at hnext
          rw [List.filter_cons_of_pos hmoe, List.map_cons, if_pos rfl]
          cases layersTopkIdx[if indexByLayer = true then start else
              (List.range start).countP (isMoeLayer freq)]? with
          | none => cases targets <;> simp
          | some topkIndices =>
              rw [bind_eq_ok]
              constructor
              · rintro ⟨rest, hrest, hret⟩
                obtain rfl := Except.ok.inj hret
                rw [List.map_cons, (hnext rest).mp hrest]
              · intro htargets
                cases targets with
                | nil => simp at htargets
                | cons first rest =>
                    obtain ⟨hfirst, hrest⟩ := List.cons.inj htargets
                    obtain rfl := Option.some.inj hfirst
                    exact ⟨rest, (hnext rest).mpr hrest, rfl⟩

/-- The routers of a chunk are given the indices of their layers. -/
theorem replayTargets_eq_ok {targets : List ι} :
    replayTargets layout vp pp layersTopkIdx = .ok targets ↔
      targets.map some =
        (layout.moeLayers vp pp).map (target layout layersTopkIdx) := by
  have htarget : (fun layerIdx => layersTopkIdx[if (layersTopkIdx.length ==
      layout.numLayers) = true then layerIdx else (List.range layerIdx).countP
        (isMoeLayer layout.moeLayerFreq)]?) = target layout layersTopkIdx := by
    funext layerIdx
    simp only [target, beq_iff_eq]
  rw [replayTargets, Layout.layers, replayTargetsLoop_eq_ok, htarget]
  rfl

end Targets
section Layers

variable (layout : Layout)

/-- The layers of a chunk are layers of the model. -/
theorem lt_numLayers {vp pp layerIdx : ℕ} (hvp : vp < layout.numChunks)
    (hpp : pp < layout.pipelineSize)
    (hmem : layerIdx ∈ layout.layers vp pp) : layerIdx < layout.numLayers := by
  have hchunk : ∑ q ∈ range pp, layout.getNumLayersToBuild vp q +
      layout.getNumLayersToBuild vp pp ≤
        ∑ q ∈ range layout.pipelineSize, layout.getNumLayersToBuild vp q := by
    rw [← sum_range_succ]
    exact sum_le_sum_of_subset (range_subset_range.mpr hpp)
  have htotal : ∑ u ∈ range vp, ∑ q ∈ range layout.pipelineSize,
      layout.getNumLayersToBuild u q +
        ∑ q ∈ range layout.pipelineSize, layout.getNumLayersToBuild vp q ≤
          layout.numLayers := by
    rw [← sum_range_succ, ← layout.total_eq]
    exact sum_le_sum_of_subset (range_subset_range.mpr hvp)
  have hlt := (List.mem_range'_1.mp hmem).2
  rw [layout.layerOffset_eq] at hlt
  omega

/-- Indices for all layers, or for all those that have a router. -/
def WellSized (layersTopkIdx : List ι) : Prop :=
  layersTopkIdx.length = layout.numLayers ∨ layersTopkIdx.length =
    (List.range layout.numLayers).countP (isMoeLayer layout.moeLayerFreq)

variable {layout}

theorem exists_target {layersTopkIdx : List ι} {layerIdx : ℕ}
    (hsize : WellSized layout layersTopkIdx)
    (hlt : layerIdx < layout.numLayers)
    (hmoe : isMoeLayer layout.moeLayerFreq layerIdx = true) :
    ∃ topkIndices, target layout layersTopkIdx layerIdx =
      some topkIndices := by
  rw [target]
  split
  case isTrue hall => exact ⟨_, List.getElem?_eq_getElem (hall ▸ hlt)⟩
  case isFalse hnot =>
    have hcount : (List.range layerIdx).countP
          (isMoeLayer layout.moeLayerFreq) + 1 ≤
        (List.range layout.numLayers).countP
          (isMoeLayer layout.moeLayerFreq) := by
      calc (List.range layerIdx).countP (isMoeLayer layout.moeLayerFreq) + 1
          = (List.range (layerIdx + 1)).countP
              (isMoeLayer layout.moeLayerFreq) := by
            rw [List.range_succ, List.countP_append, List.countP_singleton,
              hmoe]
            rfl
        _ ≤ _ := (List.range_sublist.mpr hlt).countP_le
    exact ⟨_, List.getElem?_eq_getElem
      (hsize.resolve_left hnot ▸ Nat.lt_of_succ_le hcount)⟩

/-- The indices that the routers of a chunk are given, by their places. -/
def chunkTarget (layout : Layout) (vp pp l : ℕ) (layersTopkIdx : List ι) :
    Option ι :=
  ((layout.moeLayers vp pp)[l]?).bind (target layout layersTopkIdx)

theorem length_moeLayers (vp pp : ℕ) : (layout.moeLayers vp pp).length =
    layout.getMoeNumLayersToBuild vp pp :=
  List.countP_eq_length_filter.symm

theorem exists_replayTargets {vp pp : ℕ} (hvp : vp < layout.numChunks)
    (hpp : pp < layout.pipelineSize) {layersTopkIdx : List ι}
    (hsize : WellSized layout layersTopkIdx) :
    ∃ targets, replayTargets layout vp pp layersTopkIdx = .ok targets ∧
      targets.length = layout.getMoeNumLayersToBuild vp pp ∧
      ∀ l, targets[l]? = chunkTarget layout vp pp l layersTopkIdx := by
  have htarget : ∀ layerIdx ∈ layout.moeLayers vp pp, ∃ topkIndices,
      target layout layersTopkIdx layerIdx = some topkIndices := by
    intro layerIdx hmem
    obtain ⟨hlayer, hmoe⟩ := List.mem_filter.mp hmem
    exact exists_target hsize (lt_numLayers layout hvp hpp hlayer) hmoe
  obtain ⟨targets, htargets⟩ : ∃ targets : List ι, targets.map some =
      (layout.moeLayers vp pp).map (target layout layersTopkIdx) := by
    generalize layout.moeLayers vp pp = layers at htarget
    induction layers with
    | nil => exact ⟨[], rfl⟩
    | cons layerIdx layers ih =>
        obtain ⟨topkIndices, hfirst⟩ := htarget layerIdx List.mem_cons_self
        obtain ⟨rest, hrest⟩ :=
          ih fun l hl => htarget l (List.mem_cons_of_mem _ hl)
        exact ⟨topkIndices :: rest, by simp [hfirst, hrest]⟩
  refine ⟨targets, replayTargets_eq_ok.mpr htargets, ?_, fun l => ?_⟩
  · have hlength := congrArg List.length htargets
    rwa [List.length_map, List.length_map, length_moeLayers] at hlength
  · have hget := congrArg (·[l]?) htargets
    simp only [List.getElem?_map] at hget
    rw [chunkTarget]
    cases hl : (layout.moeLayers vp pp)[l]? with
    | none => simpa [hl] using hget
    | some layerIdx =>
        rw [hl] at hget
        cases htl : targets[l]? with
        | none => simp [htl] at hget
        | some topkIndices => simpa [htl] using hget

end Layers
section Runs

variable (routing : TopkRouting S P ι) (layout : Layout) (pp : ℕ)

/-- The chunk that an event is about. -/
def Event.vp : Event S ι → ℕ
  | .forward vp _ _ => vp
  | .backward vp _ => vp

/-- The scores of the routers of its chunk. -/
def Event.scores : Event S ι → ℕ → S
  | .forward _ _ scores => scores
  | .backward _ scores => scores

/-- The micro-batches whose forward step has passed through a chunk. -/
def forwardsOf (vp : ℕ) (events : List (Event S ι)) : List (List ι) :=
  events.filterMap fun
    | .forward u layersTopkIdx _ =>
        if u = vp then some layersTopkIdx else none
    | .backward _ _ => none

/-- How many backward steps have passed through a chunk. -/
def backwardsOf (vp : ℕ) (events : List (Event S ι)) : ℕ :=
  events.countP fun
    | .forward _ _ _ => false
    | .backward u _ => u == vp

/-- The micro-batch that an event is about: of a backward step, the first one
whose forward step has passed through the chunk and whose backward step has
not. -/
def Event.microBatch (pre : List (Event S ι)) : Event S ι → Option (List ι)
  | .forward _ layersTopkIdx _ => some layersTopkIdx
  | .backward vp _ => (forwardsOf vp pre)[backwardsOf vp pre]?

/-- An event that can follow others: the indices are those of all layers or of
all that have routers, and a backward step comes after its forward step. -/
def Event.CanFollow (pre : List (Event S ι)) (event : Event S ι) : Prop :=
  event.vp < layout.numChunks ∧
    match event with
    | .forward _ layersTopkIdx _ => WellSized layout layersTopkIdx
    | .backward vp _ => backwardsOf vp pre < (forwardsOf vp pre).length

/-- The routers of a chunk between events. -/
def ChunkInvariant (pre : List (Event S ι)) (vp : ℕ) (chunk : List (Router ι)) :
    Prop :=
  ∀ l router, chunk[l]? = some router →
    router.routerReplayAction = some
      (if forwardsOf vp pre = [] then .replayForward else .replayBackward) ∧
    router.replayBackwardList.map some =
      ((forwardsOf vp pre).drop (backwardsOf vp pre)).map
        (chunkTarget layout vp pp l)

/-- The routers of a rank between events. -/
structure Invariant (pre : List (Event S ι)) (routers : List (Router ι)) :
    Prop where
  length : routers.length = layout.totalRouters pp
  chunks : ∀ vp < layout.numChunks, ChunkInvariant layout pp pre vp
    (getMicroBatchRouterList layout vp pp routers)

/-- What an event puts out: each router of its chunk has read the scores at the
indices of the event's micro-batch. -/
def Replays (pre : List (Event S ι)) (event : Event S ι)
    (outputs : List (P × ι)) : Prop :=
  outputs.length = layout.getMoeNumLayersToBuild event.vp pp ∧
    ∀ l output, outputs[l]? = some output →
      output.1 = routing.gather (event.scores l) output.2 ∧
      (event.microBatch pre).bind (chunkTarget layout event.vp pp l) =
        some output.2

variable {routing layout pp} {pre : List (Event S ι)} {vp : ℕ}
  {routers : List (Router ι)}

theorem isAction_eq {action : Action} {a : Option Action}
    (hall : ∀ (l : ℕ) router,
      (getMicroBatchRouterList layout vp pp routers)[l]? = some router →
        router.routerReplayAction = a)
    (hne : getMicroBatchRouterList layout vp pp routers ≠ []) :
    isAction layout vp pp action routers = (a == some action) := by
  rw [isAction]
  cases hlist : getMicroBatchRouterList layout vp pp routers with
  | nil => exact absurd hlist hne
  | cons router rest =>
      have hfirst := hall 0 router (by rw [hlist]; rfl)
      simp only [hfirst]

theorem isAction_of_nil {action : Action}
    (hnil : getMicroBatchRouterList layout vp pp routers = []) :
    isAction layout vp pp action routers = false := by
  rw [isAction, hnil]

/-- Routers of which those of one chunk have been changed. -/
structure OnChunk (layout : Layout) (pp vp : ℕ)
    (f : ℕ → Router ι → Router ι) (routers routers' : List (Router ι)) :
    Prop where
  length : routers'.length = routers.length
  others : ∀ u < layout.numChunks, u ≠ vp →
    getMicroBatchRouterList layout u pp routers' =
      getMicroBatchRouterList layout u pp routers
  chunk : getMicroBatchRouterList layout vp pp routers' =
    (getMicroBatchRouterList layout vp pp routers).mapIdx f

theorem onChunk_onRouters (hvp : vp < layout.numChunks)
    (f : ℕ → Router ι → Router ι) (routers : List (Router ι)) :
    OnChunk layout pp vp f routers (onRouters layout vp pp f routers) where
  length := length_onRouters f
  others := fun _ hu hne =>
    getMicroBatchRouterList_onRouters_of_ne hvp hu hne f
  chunk := getMicroBatchRouterList_onRouters f

theorem onChunk_route (routing : TopkRouting S P ι) (pp : ℕ)
    (hvp : vp < layout.numChunks) (scores : ℕ → S)
    (routers : List (Router ι)) : OnChunk layout pp vp
      (fun l router => (computeTopk routing router (scores l)).2) routers
      (route routing layout vp pp scores routers).2 :=
  onChunk_onRouters hvp _ _

theorem OnChunk.trans {f g : ℕ → Router ι → Router ι}
    {routers routers' routers'' : List (Router ι)}
    (hf : OnChunk layout pp vp f routers routers')
    (hg : OnChunk layout pp vp g routers' routers'') :
    OnChunk layout pp vp (fun l router => g l (f l router)) routers
      routers'' where
  length := hg.length.trans hf.length
  others := fun u hu hne => (hg.others u hu hne).trans (hf.others u hu hne)
  chunk := by
    rw [hg.chunk, hf.chunk, List.mapIdx_mapIdx]
    rfl

/-- All routers of a chunk get one action, or have it. -/
theorem onChunk_setAction (pp : ℕ) (action : Option Action)
    (routers : List (Router ι)) (hvp : vp < layout.numChunks) (b : Bool)
    (hall : b = false → ∀ (l : ℕ) router,
      (getMicroBatchRouterList layout vp pp routers)[l]? = some router →
        router.routerReplayAction = action) :
    OnChunk layout pp vp (fun _ router => router.setRouterReplayAction action)
      routers (if b then onRouters layout vp pp
        (fun _ router => router.setRouterReplayAction action) routers
      else routers) := by
  cases b with
  | true => exact onChunk_onRouters hvp _ _
  | false =>
      refine ⟨rfl, fun _ _ _ => rfl, ?_⟩
      apply List.ext_getElem?
      intro l
      rw [List.getElem?_mapIdx]
      cases hl : (getMicroBatchRouterList layout vp pp routers)[l]? with
      | none => simp [hl]
      | some router =>
          have hsame := hall rfl l router hl
          simp [hl, Router.setRouterReplayAction, ← hsame]

@[simp] theorem action_setTargets (targets : List ι) (l : ℕ)
    (router : Router ι) : (setTargets targets l router).routerReplayAction =
      router.routerReplayAction := by
  rw [setTargets]
  split <;> rfl

@[simp] theorem action_computeTopk (routing : TopkRouting S P ι)
    (router : Router ι) (scores : S) :
    (computeTopk routing router scores).2.routerReplayAction =
      router.routerReplayAction := by
  rw [computeTopk]
  split
  · rfl
  · rfl
  · split <;> rfl
  · split <;> rfl

/-- What a forward step does with a router. -/
def replayed (routing : TopkRouting S P ι) (targets : List ι) (scores : ℕ → S)
    (l : ℕ) (router : Router ι) : (P × ι) × Router ι :=
  computeTopk routing
    (setTargets targets l (router.setRouterReplayAction (some .replayForward)))
    (scores l)

theorem replayed_eq {targets : List ι} {scores : ℕ → S} {l : ℕ}
    {topkIndices : ι} (ht : targets[l]? = some topkIndices)
    (router : Router ι) :
    replayed routing targets scores l router =
      ((routing.gather (scores l) topkIndices, topkIndices),
        (router.setRouterReplayAction (some .replayForward)).setTargetIndices
          topkIndices) := by
  rw [replayed, setTargets, ht]
  rfl

/-- What a forward step does with the routers of its chunk. -/
theorem step_forward {layersTopkIdx : List ι} {scores : ℕ → S}
    (hpp : pp < layout.pipelineSize) (hvp : vp < layout.numChunks)
    (hsize : WellSized layout layersTopkIdx)
    (hinv : Invariant layout pp pre routers) :
    ∃ outputs routers' targets, step routing layout pp
        (.forward vp layersTopkIdx scores) routers = .ok (outputs, routers') ∧
      targets.length = layout.getMoeNumLayersToBuild vp pp ∧
      (∀ l, targets[l]? = chunkTarget layout vp pp l layersTopkIdx) ∧
      outputs = (getMicroBatchRouterList layout vp pp routers).mapIdx
        (fun l router => (replayed routing targets scores l router).1) ∧
      OnChunk layout pp vp (fun l router =>
        (replayed routing targets scores l router).2.setRouterReplayAction
          (some .replayBackward)) routers routers' := by
  obtain ⟨targets, hok, htargets, hget⟩ :=
    exists_replayTargets hvp hpp hsize
  by_cases hnil : getMicroBatchRouterList layout vp pp routers = []
  case pos =>
    -- a chunk without routers
    have hroute := onChunk_route routing pp hvp scores routers
    have hnil' : getMicroBatchRouterList layout vp pp
        (route routing layout vp pp scores routers).2 = [] := by
      rw [hroute.chunk, hnil]
      rfl
    refine ⟨[], (route routing layout vp pp scores routers).2, targets, ?_,
      htargets, hget, by rw [hnil]; rfl, hroute.length, hroute.others, ?_⟩
    · simp only [step, isAction_of_nil hnil, isAction_of_nil hnil',
        Bool.false_eq_true, if_false, pure_bind]
      simp only [route, hnil]
      rfl
    · rw [hnil', hnil]
      rfl
  case neg =>
    have hchunk := hinv.chunks vp hvp
    have h₁ := onChunk_setAction pp (some .replayForward) routers hvp
      (isAction layout vp pp .replayBackward routers) (by
        intro hnot l router hrouter
        rw [isAction_eq (fun l router hl => (hchunk l router hl).1) hnil]
          at hnot
        rw [(hchunk l router hrouter).1]
        split at hnot
        case isTrue hfirst => rw [if_pos hfirst]
        case isFalse => simp at hnot)
    generalize hs₁ : (if isAction layout vp pp .replayBackward routers then
      onRouters layout vp pp (fun _ router =>
        router.setRouterReplayAction (some .replayForward)) routers
      else routers) = s₁ at h₁
    have haction : ∀ (a : Action) (s : List (Router ι))
        (f : ℕ → Router ι → Router ι), OnChunk layout pp vp f routers s →
        (∀ l router, (f l router).routerReplayAction = some a) →
        isAction layout vp pp a s = true := by
      intro a s f hs hf
      have hall : ∀ (l : ℕ) router,
          (getMicroBatchRouterList layout vp pp s)[l]? = some router →
            router.routerReplayAction = some a := by
        intro l router hl
        rw [hs.chunk, List.getElem?_mapIdx] at hl
        obtain ⟨r, -, rfl⟩ := Option.map_eq_some_iff.mp hl
        exact hf l r
      rw [isAction_eq hall, beq_self_eq_true]
      rw [hs.chunk]
      simpa using hnil
    have h₂ := h₁.trans (onChunk_onRouters hvp (setTargets targets) s₁)
    have h₃ := h₂.trans (onChunk_route routing pp hvp scores
      (onRouters layout vp pp (setTargets targets) s₁))
    have h₄ := h₃.trans (onChunk_onRouters hvp
      (fun _ router => router.setRouterReplayAction (some .replayBackward)) _)
    have haction₁ := haction .replayForward _ _ h₁ fun _ _ => rfl
    have haction₃ := haction .replayForward _ _ h₃ (by
      intro l router
      simp [Router.setRouterReplayAction])
    refine ⟨(route routing layout vp pp scores
      (onRouters layout vp pp (setTargets targets) s₁)).1, _, targets, ?_,
      htargets, hget, ?_, h₄⟩
    · simp only [step, hs₁, haction₁, hok, haction₃, if_true, ok_bind,
        pure_bind]
      rfl
    · rw [route, h₂.chunk, List.mapIdx_mapIdx]
      rfl

end Runs
section Replay

variable {routing : TopkRouting S P ι} {layout : Layout} {pp : ℕ}
  {pre : List (Event S ι)} {vp : ℕ} {routers : List (Router ι)}

theorem forwardsOf_append (vp : ℕ) (pre : List (Event S ι))
    (event : Event S ι) : forwardsOf vp (pre ++ [event]) =
      forwardsOf vp pre ++ forwardsOf vp [event] :=
  List.filterMap_append

theorem backwardsOf_append (vp : ℕ) (pre : List (Event S ι))
    (event : Event S ι) : backwardsOf vp (pre ++ [event]) =
      backwardsOf vp pre + backwardsOf vp [event] :=
  List.countP_append

/-- An event leaves the chunks that it is not about. -/
theorem ChunkInvariant.of_ne {event : Event S ι} {u : ℕ}
    {chunk : List (Router ι)} (hne : u ≠ event.vp)
    (h : ChunkInvariant layout pp pre u chunk) :
    ChunkInvariant layout pp (pre ++ [event]) u chunk := by
  have hforwards : forwardsOf u (pre ++ [event]) = forwardsOf u pre := by
    rw [forwardsOf_append]
    cases event with
    | forward v layersTopkIdx scores =>
        have hne' : ¬ v = u := fun h => hne h.symm
        simp [forwardsOf, hne']
    | backward v scores => simp [forwardsOf]
  have hbackwards : backwardsOf u (pre ++ [event]) = backwardsOf u pre := by
    rw [backwardsOf_append]
    cases event with
    | forward v layersTopkIdx scores => simp [backwardsOf]
    | backward v scores =>
        have hne' : ¬ v = u := fun h => hne h.symm
        simp [backwardsOf, hne']
  rw [ChunkInvariant, hforwards, hbackwards]
  exact h

/-- A forward step replays the indices it is given, and its routers remember
them for the backward step. -/
theorem replay_forward {layersTopkIdx : List ι} {scores : ℕ → S}
    (hpp : pp < layout.pipelineSize) (hvp : vp < layout.numChunks)
    (hsize : WellSized layout layersTopkIdx)
    (hcausal : backwardsOf vp pre ≤ (forwardsOf vp pre).length)
    (hinv : Invariant layout pp pre routers) :
    ∃ outputs routers', step routing layout pp
        (.forward vp layersTopkIdx scores) routers = .ok (outputs, routers') ∧
      Replays routing layout pp pre (.forward vp layersTopkIdx scores)
        outputs ∧
      Invariant layout pp (pre ++ [.forward vp layersTopkIdx scores])
        routers' := by
  obtain ⟨outputs, routers', targets, hok, htargets, hget, houtputs, hchunk⟩ :=
    step_forward hpp hvp hsize hinv
  have hlength := length_getMicroBatchRouterList hvp hinv.length
  have hsome : ∀ (l : ℕ) router, (getMicroBatchRouterList layout vp pp
      routers)[l]? = some router → ∃ topkIndices, targets[l]? =
        some topkIndices := by
    intro l router hl
    have hlt := (List.getElem?_eq_some_iff.mp hl).1
    exact ⟨_, List.getElem?_eq_getElem (htargets.trans hlength.symm ▸ hlt)⟩
  refine ⟨outputs, routers', hok, ⟨?_, fun l output hl => ?_⟩,
    hchunk.length.trans hinv.length, fun u hu => ?_⟩
  · rw [houtputs, List.length_mapIdx, hlength]
    rfl
  · rw [houtputs, List.getElem?_mapIdx] at hl
    obtain ⟨router, hrouter, rfl⟩ := Option.map_eq_some_iff.mp hl
    obtain ⟨topkIndices, ht⟩ := hsome l router hrouter
    rw [replayed_eq ht]
    exact ⟨rfl, (hget l).symm.trans ht⟩
  · by_cases hne : u = vp
    · subst hne
      intro l router' hrouter'
      rw [hchunk.chunk, List.getElem?_mapIdx] at hrouter'
      obtain ⟨router, hrouter, rfl⟩ := Option.map_eq_some_iff.mp hrouter'
      obtain ⟨topkIndices, ht⟩ := hsome l router hrouter
      have hlist := (hinv.chunks u hu l router hrouter).2
      have hforwards : forwardsOf u
          (pre ++ [.forward u layersTopkIdx scores]) =
            forwardsOf u pre ++ [layersTopkIdx] := by
        rw [forwardsOf_append]
        simp [forwardsOf]
      have hbackwards : backwardsOf u
          (pre ++ [.forward u layersTopkIdx scores]) = backwardsOf u pre := by
        rw [backwardsOf_append]
        simp [backwardsOf]
      rw [replayed_eq ht, hforwards, hbackwards,
        List.drop_append_of_le_length hcausal, List.map_append, ← hlist]
      refine ⟨by simp [Router.setRouterReplayAction], ?_⟩
      simp [Router.setRouterReplayAction, Router.setTargetIndices, ← hget, ht]
    · rw [hchunk.others u hu hne]
      exact (hinv.chunks u hu).of_ne hne

/-- A recomputed backward step takes the indices of the first forward step
that no backward step has taken. -/
theorem replay_backward {scores : ℕ → S} (hvp : vp < layout.numChunks)
    (hcausal : backwardsOf vp pre < (forwardsOf vp pre).length)
    (hinv : Invariant layout pp pre routers) :
    ∃ outputs routers', step routing layout pp (.backward vp scores) routers =
        .ok (outputs, routers') ∧
      Replays routing layout pp pre (.backward vp scores) outputs ∧
      Invariant layout pp (pre ++ [.backward vp scores]) routers' := by
  have hlength := length_getMicroBatchRouterList hvp hinv.length
  have hchunk := onChunk_route routing pp hvp scores routers
  have hne : forwardsOf vp pre ≠ [] :=
    List.ne_nil_of_length_pos (Nat.zero_lt_of_lt hcausal)
  -- the list of a router begins with the indices of that micro-batch
  have hrouter : ∀ (l : ℕ) router, (getMicroBatchRouterList layout vp pp
      routers)[l]? = some router → ∃ topkIndices rest,
        computeTopk routing router (scores l) =
          ((routing.gather (scores l) topkIndices, topkIndices),
            { router with replayBackwardList := rest }) ∧
        router.routerReplayAction = some .replayBackward ∧
        some topkIndices = chunkTarget layout vp pp l
          (forwardsOf vp pre)[backwardsOf vp pre] ∧
        rest.map some = ((forwardsOf vp pre).drop (backwardsOf vp pre + 1)).map
          (chunkTarget layout vp pp l) := by
    intro l router hl
    obtain ⟨haction, hlist⟩ := hinv.chunks vp hvp l router hl
    rw [if_neg hne] at haction
    rw [List.drop_eq_getElem_cons hcausal, List.map_cons] at hlist
    cases hback : router.replayBackwardList with
    | nil => simp [hback] at hlist
    | cons topkIndices rest =>
        rw [hback, List.map_cons] at hlist
        obtain ⟨hfirst, hrest⟩ := List.cons.inj hlist
        exact ⟨topkIndices, rest, by rw [computeTopk, haction, hback],
          haction, hfirst, hrest⟩
  refine ⟨(route routing layout vp pp scores routers).1,
    (route routing layout vp pp scores routers).2, rfl,
    ⟨?_, fun l output hl => ?_⟩, hchunk.length.trans hinv.length,
    fun u hu => ?_⟩
  · rw [route, List.length_mapIdx, hlength]
    rfl
  · rw [route, List.getElem?_mapIdx] at hl
    obtain ⟨router, hmem, rfl⟩ := Option.map_eq_some_iff.mp hl
    obtain ⟨topkIndices, rest, hcompute, -, htarget, -⟩ := hrouter l router hmem
    rw [hcompute]
    refine ⟨rfl, ?_⟩
    rw [Event.microBatch, List.getElem?_eq_getElem hcausal]
    exact htarget.symm
  · by_cases hu' : u = vp
    · subst hu'
      intro l router' hrouter'
      rw [hchunk.chunk, List.getElem?_mapIdx] at hrouter'
      obtain ⟨router, hmem, rfl⟩ := Option.map_eq_some_iff.mp hrouter'
      obtain ⟨topkIndices, rest, hcompute, haction, -, hrest⟩ :=
        hrouter l router hmem
      have hforwards : forwardsOf u (pre ++ [.backward u scores]) =
          forwardsOf u pre := by
        rw [forwardsOf_append]
        simp [forwardsOf]
      have hbackwards : backwardsOf u (pre ++ [.backward u scores]) =
          backwardsOf u pre + 1 := by
        rw [backwardsOf_append]
        simp [backwardsOf]
      rw [hcompute, hforwards, hbackwards, if_neg hne]
      exact ⟨haction, hrest⟩
    · rw [hchunk.others u hu hu']
      exact (hinv.chunks u hu).of_ne hu'

end Replay
section Theorem

variable {routing : TopkRouting S P ι} {layout : Layout} {pp : ℕ}
  {routers : List (Router ι)}

theorem run_append_singleton {events : List (Event S ι)} {event : Event S ι}
    {outputs : List (List (P × ι))} {out : List (P × ι)}
    {routers' routers'' : List (Router ι)}
    (hrun : run routing layout pp events routers = .ok (outputs, routers'))
    (hstep : step routing layout pp event routers' = .ok (out, routers'')) :
    run routing layout pp (events ++ [event]) routers =
      .ok (outputs ++ [out], routers'') := by
  induction events generalizing routers outputs with
  | nil =>
      obtain ⟨rfl, rfl⟩ := Prod.mk.inj (Except.ok.inj hrun)
      rw [List.nil_append, run, hstep]
      rfl
  | cons first events ih =>
      obtain ⟨⟨out₁, routers₁⟩, hfirst, hrun⟩ := bind_eq_ok.mp hrun
      obtain ⟨⟨outputs₁, routers₂⟩, hrest, hret⟩ := bind_eq_ok.mp hrun
      obtain ⟨rfl, rfl⟩ := Prod.mk.inj (Except.ok.inj hret)
      rw [List.cons_append, run, hfirst, ok_bind]
      exact bind_eq_ok.mpr ⟨_, ih hrest, rfl⟩

/-- No step has been replayed at the start. -/
theorem invariant_prepare (hlength : routers.length = layout.totalRouters pp) :
    Invariant layout pp ([] : List (Event S ι))
      (prepare (some .replayForward) routers) where
  length := (List.length_map _).trans hlength
  chunks := by
    intro vp hvp l router hrouter
    rw [getElem?_getMicroBatchRouterList] at hrouter
    split at hrouter
    · rw [prepare, List.getElem?_map] at hrouter
      obtain ⟨r, -, rfl⟩ := Option.map_eq_some_iff.mp hrouter
      exact ⟨rfl, rfl⟩
    · cases hrouter

/-- Events of which each can follow those before it. -/
def Causal (layout : Layout) (events : List (Event S ι)) : Prop :=
  ∀ (k : ℕ) event, events[k]? = some event →
    Event.CanFollow layout (events.take k) event

theorem Causal.of_append {events : List (Event S ι)} {event : Event S ι}
    (h : Causal layout (events ++ [event])) :
    Causal layout events ∧ Event.CanFollow layout events event := by
  refine ⟨fun k e hk => ?_, ?_⟩
  · have hlt := (List.getElem?_eq_some_iff.mp hk).1
    have hfollow := h k e ((List.getElem?_append_left hlt).trans hk)
    rwa [List.take_append_of_le_length hlt.le] at hfollow
  · have hlast := h events.length event List.getElem?_concat_length
    rwa [List.take_left] at hlast

/-- No more backward steps than forward steps have passed through a chunk. -/
theorem backwardsOf_le {events : List (Event S ι)} {vp : ℕ}
    (hevents : Causal layout events) :
    backwardsOf vp events ≤ (forwardsOf vp events).length := by
  induction events using List.reverseRecOn with
  | nil => exact le_rfl
  | append_singleton events event ih =>
      obtain ⟨hinit, hlast⟩ := hevents.of_append
      have hle := ih hinit
      rw [forwardsOf_append, backwardsOf_append, List.length_append]
      cases event with
      | forward v layersTopkIdx scores =>
          have hzero : backwardsOf vp
              [(.forward v layersTopkIdx scores : Event S ι)] = 0 := by
            simp [backwardsOf]
          omega
      | backward v scores =>
          by_cases hv : v = vp
          · subst hv
            have hone : backwardsOf v [(.backward v scores : Event S ι)] =
                1 := by simp [backwardsOf]
            have hlt := hlast.2
            dsimp only at hlt
            omega
          · have hzero : backwardsOf vp [(.backward v scores : Event S ι)] =
                0 := by simp [backwardsOf, hv]
            omega

/-- In whatever order a pipeline rank runs the forward steps and the
recomputed backward steps of its chunks, no backward step before its forward
step: each router of a forward step reads its scores at the indices of its
layer that the step was given, each router of a backward step at those of the
first forward step of the chunk that no backward step has taken, and what the
routers remember is what is still to be taken. -/
theorem run_replays (routing : TopkRouting S P ι)
    (hpp : pp < layout.pipelineSize)
    (hlength : routers.length = layout.totalRouters pp)
    {events : List (Event S ι)}
    (hevents : Causal layout events) :
    ∃ outputs routers', run routing layout pp events
        (prepare (some .replayForward) routers) = .ok (outputs, routers') ∧
      outputs.length = events.length ∧
      (∀ k e, events[k]? = some e → ∃ out, outputs[k]? = some out ∧
        Replays routing layout pp (events.take k) e out) ∧
      ∀ vp < layout.numChunks, ∀ (l : ℕ) router,
        (getMicroBatchRouterList layout vp pp routers')[l]? = some router →
        router.replayBackwardList.map some =
          ((forwardsOf vp events).drop (backwardsOf vp events)).map
            (chunkTarget layout vp pp l) := by
  suffices h : ∃ outputs routers', run routing layout pp events
      (prepare (some .replayForward) routers) = .ok (outputs, routers') ∧
      outputs.length = events.length ∧
      (∀ k e, events[k]? = some e → ∃ out, outputs[k]? = some out ∧
        Replays routing layout pp (events.take k) e out) ∧
      Invariant layout pp events routers' by
    obtain ⟨outputs, routers', hrun, hlen, houtputs, hinv⟩ := h
    exact ⟨outputs, routers', hrun, hlen, houtputs,
      fun vp hvp l router hl => (hinv.chunks vp hvp l router hl).2⟩
  induction events using List.reverseRecOn with
  | nil =>
      exact ⟨[], _, rfl, rfl, fun k e hk => by simp at hk,
        invariant_prepare hlength⟩
  | append_singleton events event ih =>
      obtain ⟨hinit, hlast⟩ := hevents.of_append
      obtain ⟨outputs, routers', hrun, hlen, houtputs, hinv⟩ := ih hinit
      have hnext : ∃ out routers'', step routing layout pp event routers' =
          .ok (out, routers'') ∧ Replays routing layout pp events event out ∧
          Invariant layout pp (events ++ [event]) routers'' := by
        cases event with
        | forward v layersTopkIdx scores =>
            exact replay_forward hpp hlast.1 hlast.2 (backwardsOf_le hinit) hinv
        | backward v scores => exact replay_backward hlast.1 hlast.2 hinv
      obtain ⟨out, routers'', hstep, hreplays, hinv'⟩ := hnext
      refine ⟨outputs ++ [out], routers'', run_append_singleton hrun hstep,
        by simp [hlen], fun k e hk => ?_, hinv'⟩
      rcases Nat.lt_or_ge k events.length with hlt | hge
      · rw [List.getElem?_append_left hlt] at hk
        rw [List.getElem?_append_left (hlen.symm ▸ hlt),
          List.take_append_of_le_length hlt.le]
        exact houtputs k e hk
      · have hk' : k = events.length := by
          have hlt := (List.getElem?_eq_some_iff.mp hk).1
          rw [List.length_append, List.length_singleton] at hlt
          omega
        subst hk'
        rw [List.getElem?_concat_length] at hk
        obtain rfl := Option.some.inj hk
        refine ⟨out, ?_, ?_⟩
        · rw [← hlen, List.getElem?_concat_length]
        · rw [List.take_left]
          exact hreplays

end Theorem
section Gather

open Blocks

/-- The top-k expert ids of the tokens. -/
abbrev TopkIndices := List (List ℕ)

/-- `.to(torch.uint8)` -/
def toUint8 (topkIndices : TopkIndices) : TopkIndices :=
  topkIndices.map fun row => row.map (· % 256)

/-- The layers of `merge_router_topk_indices` for one chunk. -/
def mergeRouterTopkIndices (layout : Layout) (vp pp : ℕ)
    (routers : List (Router TopkIndices)) : Py (List TopkIndices) :=
  (getMicroBatchRouterList layout vp pp routers).mapM fun router =>
    match router.recordedTopkIdx with
    | some topkIndices => .ok (toUint8 topkIndices)
    | none => .error .attributeError

/-- The layers of `reorder_and_merge_vpp_layers`: chunk by chunk. -/
def reorderAndMergeVppLayers (layout : Layout) (chunks : ℕ → List ι) :
    List ι :=
  (List.range layout.numChunks).flatMap chunks

/-- `pp_gather`, from the layers of each pipeline rank. -/
def ppGather (layout : Layout) (pp : ℕ) (localLayers : ℕ → List ι) : List ι :=
  if layout.pipelineSize ≤ 1 then localLayers pp
  else
    match layout.virtualPipelineSize with
    | some vpSize =>
        let vppRouterMapOffset := fun ppStage vpStage =>
          ∑ u ∈ range vpStage, layout.getMoeNumLayersToBuild u ppStage
        (List.range vpSize).flatMap fun vpStage =>
          (List.range layout.pipelineSize).flatMap fun ppStage =>
            ((localLayers ppStage).take
              (vppRouterMapOffset ppStage (vpStage + 1))).drop
                (vppRouterMapOffset ppStage vpStage)
    | none => (List.range layout.pipelineSize).flatMap localLayers

variable {layout : Layout}

/-- The gathered layers are those of the chunks of one index on all ranks,
then those of the next index. -/
theorem ppGather_eq {chunks : ℕ → ℕ → List ι} {pp : ℕ}
    (hpp : pp < layout.pipelineSize)
    (hchunks : ∀ vp < layout.numChunks, ∀ q < layout.pipelineSize,
      (chunks vp q).length = layout.getMoeNumLayersToBuild vp q) :
    ppGather layout pp
        (fun q => reorderAndMergeVppLayers layout fun vp => chunks vp q) =
      blocks layout.numChunks fun vp =>
        blocks layout.pipelineSize fun q => chunks vp q := by
  rw [ppGather]
  split
  case isTrue hone =>
    have hsize : layout.pipelineSize = 1 := by omega
    obtain rfl : pp = 0 := by omega
    rw [reorderAndMergeVppLayers, hsize]
    exact blocks_congr fun vp _ => by simp [blocks]
  case isFalse hmany =>
    cases hvp : layout.virtualPipelineSize with
    | none =>
        have hchunk : layout.numChunks = 1 := by rw [Layout.numChunks, hvp]; rfl
        simp [blocks, reorderAndMergeVppLayers, hchunk]
    | some vpSize =>
        have hchunk : layout.numChunks = vpSize := by
          rw [Layout.numChunks, hvp]
          rfl
        rw [hchunk] at hchunks ⊢
        apply blocks_congr
        intro vp hvp
        apply blocks_congr
        intro q hq
        rw [reorderAndMergeVppLayers, hchunk]
        exact slice_blocks_sum (fun u hu => hchunks u hu q hq) hvp

end Gather
section Places

variable {layout : Layout}

theorem countP_range_add (p : ℕ → Bool) (start size : ℕ) :
    (List.range (start + size)).countP p =
      (List.range start).countP p + (List.range' start size).countP p := by
  rw [List.range_eq_range', List.range_eq_range', ← List.countP_append,
    ← List.range'_append_1]
  simp

/-- The layers with a router before a rank's chunk, of those of its index. -/
theorem countP_range_chunks (vp start pp : ℕ)
    (hstart : ∀ q, layout.layerOffset vp q =
      start + ∑ r ∈ range q, layout.getNumLayersToBuild vp r) :
    (List.range (start + ∑ q ∈ range pp,
        layout.getNumLayersToBuild vp q)).countP
          (isMoeLayer layout.moeLayerFreq) =
      (List.range start).countP (isMoeLayer layout.moeLayerFreq) +
        ∑ q ∈ range pp, layout.getMoeNumLayersToBuild vp q := by
  induction pp with
  | zero => simp
  | succ pp ih =>
      rw [sum_range_succ, sum_range_succ, ← Nat.add_assoc, countP_range_add,
        ih, ← hstart pp, Nat.add_assoc]
      rfl

/-- The layers with a router before a chunk are those of the chunks before. -/
theorem countP_range_layerOffset (layout : Layout) (vp pp : ℕ) :
    (List.range (layout.layerOffset vp pp)).countP
        (isMoeLayer layout.moeLayerFreq) =
      ∑ u ∈ range vp, ∑ q ∈ range layout.pipelineSize,
          layout.getMoeNumLayersToBuild u q +
        ∑ q ∈ range pp, layout.getMoeNumLayersToBuild vp q := by
  have hrows : ∀ v, (List.range (∑ u ∈ range v,
      ∑ q ∈ range layout.pipelineSize,
        layout.getNumLayersToBuild u q)).countP
          (isMoeLayer layout.moeLayerFreq) =
        ∑ u ∈ range v, ∑ q ∈ range layout.pipelineSize,
          layout.getMoeNumLayersToBuild u q := by
    intro v
    induction v with
    | zero => simp
    | succ v ih =>
        rw [sum_range_succ, sum_range_succ, countP_range_chunks v _ _
          (layout.layerOffset_eq v), ih]
  rw [layout.layerOffset_eq, countP_range_chunks vp _ _
    (layout.layerOffset_eq vp), hrows]

theorem countP_range_numLayers : (List.range layout.numLayers).countP
      (isMoeLayer layout.moeLayerFreq) =
    ∑ u ∈ range layout.numChunks, ∑ q ∈ range layout.pipelineSize,
      layout.getMoeNumLayersToBuild u q := by
  have htotal : layout.layerOffset layout.numChunks 0 = layout.numLayers := by
    rw [layout.layerOffset_eq, range_zero, sum_empty, Nat.add_zero]
    exact layout.total_eq
  have hcount := countP_range_layerOffset layout layout.numChunks 0
  rwa [htotal, range_zero, sum_empty, Nat.add_zero] at hcount

/-- The number of a chunk's layer among those with a router. -/
theorem countP_range_of_getElem? (p : ℕ → Bool) {start size l layerIdx : ℕ}
    (h : ((List.range' start size).filter p)[l]? = some layerIdx) :
    (List.range layerIdx).countP p = (List.range start).countP p + l := by
  induction size generalizing start l with
  | zero => simp at h
  | succ size ih =>
      have hnext : (List.range (start + 1)).countP p =
          (List.range start).countP p + if p start then 1 else 0 := by
        rw [countP_range_add]
        cases hp : p start <;> simp [hp]
      rw [List.range'_succ] at h
      cases hp : p start with
      | false =>
          rw [List.filter_cons_of_neg (by simp [hp])] at h
          rw [ih h, hnext, hp]
          simp
      | true =>
          rw [List.filter_cons_of_pos hp] at h
          cases l with
          | zero =>
              obtain rfl : start = layerIdx := by simpa using h
              simp
          | succ l =>
              rw [List.getElem?_cons_succ] at h
              rw [ih h, hnext, hp, if_pos rfl]
              omega

/-- With indices for all layers that have routers, a layer's are at its number
among these: where all layers have routers the two numbers are the same. -/
theorem target_eq {layersTopkIdx : List ι} {layerIdx : ℕ}
    (hsize : layersTopkIdx.length = (List.range layout.numLayers).countP
      (isMoeLayer layout.moeLayerFreq))
    (hlt : layerIdx < layout.numLayers) :
    target layout layersTopkIdx layerIdx =
      layersTopkIdx[(List.range layerIdx).countP
        (isMoeLayer layout.moeLayerFreq)]? := by
  rw [target]
  split
  case isTrue hall =>
    have hmoe : ∀ g ∈ List.range layout.numLayers,
        isMoeLayer layout.moeLayerFreq g = true := by
      rw [← List.countP_eq_length, List.length_range, ← hsize, hall]
    have hcount : (List.range layerIdx).countP
        (isMoeLayer layout.moeLayerFreq) = layerIdx := by
      calc (List.range layerIdx).countP (isMoeLayer layout.moeLayerFreq)
          = (List.range layerIdx).length := List.countP_eq_length.mpr
            fun g hg => hmoe g (List.mem_range.mpr
              ((List.mem_range.mp hg).trans hlt))
        _ = layerIdx := List.length_range
    rw [hcount]
  case isFalse => rfl

/-- What is gathered from the chunks of all ranks goes back to the routers it
came from. -/
theorem replayTargets_ppGather {chunks : ℕ → ℕ → List ι}
    (hchunks : ∀ vp < layout.numChunks, ∀ q < layout.pipelineSize,
      (chunks vp q).length = layout.getMoeNumLayersToBuild vp q)
    {vp pp : ℕ} (hvp : vp < layout.numChunks)
    (hpp : pp < layout.pipelineSize) :
    replayTargets layout vp pp (ppGather layout pp
      fun q => reorderAndMergeVppLayers layout fun u => chunks u q) =
        .ok (chunks vp pp) := by
  have hrows : ∀ u < layout.numChunks, (Blocks.blocks layout.pipelineSize
      fun q => chunks u q).length = ∑ q ∈ range layout.pipelineSize,
        layout.getMoeNumLayersToBuild u q := fun u hu =>
    Blocks.length_blocks_eq_sum fun q hq => hchunks u hu q hq
  rw [ppGather_eq hpp hchunks, replayTargets_eq_ok]
  apply List.ext_getElem?
  intro l
  rw [List.getElem?_map, List.getElem?_map]
  cases hl : (layout.moeLayers vp pp)[l]? with
  | none =>
      have hge : (layout.moeLayers vp pp).length ≤ l :=
        List.getElem?_eq_none_iff.mp hl
      rw [length_moeLayers, ← hchunks vp hvp pp hpp] at hge
      rw [List.getElem?_eq_none hge]
      rfl
  | some layerIdx =>
      have hlt : l < layout.getMoeNumLayersToBuild vp pp := by
        rw [← length_moeLayers]
        exact (List.getElem?_eq_some_iff.mp hl).1
      have hmem : layerIdx ∈ layout.layers vp pp :=
        (List.mem_filter.mp (List.mem_of_getElem? hl)).1
      have hplace := countP_range_of_getElem? _ hl
      rw [countP_range_layerOffset, Nat.add_assoc] at hplace
      have hinner : ∑ q ∈ range pp, layout.getMoeNumLayersToBuild vp q + l <
          ∑ q ∈ range layout.pipelineSize,
            layout.getMoeNumLayersToBuild vp q := by
        calc ∑ q ∈ range pp, layout.getMoeNumLayersToBuild vp q + l
            < ∑ q ∈ range (pp + 1), layout.getMoeNumLayersToBuild vp q := by
              rw [sum_range_succ]
              omega
          _ ≤ _ := sum_le_sum_of_subset (range_subset_range.mpr hpp)
      have hget : target layout (Blocks.blocks layout.numChunks fun vp =>
          Blocks.blocks layout.pipelineSize fun q => chunks vp q) layerIdx =
            (chunks vp pp)[l]? := by
        rw [target_eq ((Blocks.length_blocks_eq_sum hrows).trans
            countP_range_numLayers.symm) (lt_numLayers layout hvp hpp hmem),
          hplace, Blocks.getElem?_blocks_sum hrows hvp hinner]
        exact Blocks.getElem?_blocks_sum
          (fun q hq => hchunks vp hvp q hq) hpp hlt
      rw [Option.map_some, hget,
        List.getElem?_eq_getElem (hchunks vp hvp pp hpp ▸ hlt), Option.map_some]

end Places
section Record

variable {layout : Layout}

theorem map_eq_self_iff {α : Type} {f : α → α} {xs : List α} :
    xs.map f = xs ↔ ∀ x ∈ xs, f x = x := by
  induction xs with
  | nil => simp
  | cons x xs ih => simp [ih]

/-- A byte holds the expert ids below 256. -/
theorem toUint8_eq_self_iff {topkIndices : TopkIndices} :
    toUint8 topkIndices = topkIndices ↔
      ∀ row ∈ topkIndices, ∀ expert ∈ row, expert < 256 := by
  rw [toUint8, map_eq_self_iff]
  refine forall₂_congr fun row _ => ?_
  rw [map_eq_self_iff]
  exact forall₂_congr fun expert _ => Nat.mod_eq_iff_lt (by decide)

theorem isAction_eq_false {vp pp : ℕ} {action a : Action}
    {routers : List (Router ι)} (hne : a ≠ action)
    (hall : ∀ (l : ℕ) router,
      (getMicroBatchRouterList layout vp pp routers)[l]? = some router →
        router.routerReplayAction = some a) :
    isAction layout vp pp action routers = false := by
  by_cases hnil : getMicroBatchRouterList layout vp pp routers = []
  · exact isAction_of_nil hnil
  · rw [isAction_eq hall hnil]
    simpa using hne

/-- In a recording forward step the routers route as they would, and what they
record is merged as bytes. -/
theorem record_forward (routing : TopkRouting S P TopkIndices) {vp pp : ℕ}
    (hvp : vp < layout.numChunks)
    {routers : List (Router TopkIndices)}
    (hlength : routers.length = layout.totalRouters pp)
    (hrecord : ∀ router ∈ routers, router.routerReplayAction = some .record)
    (layersTopkIdx : List TopkIndices) (scores : ℕ → S) :
    ∃ outputs routers', step routing layout pp
        (.forward vp layersTopkIdx scores) routers = .ok (outputs, routers') ∧
      outputs.length = layout.getMoeNumLayersToBuild vp pp ∧
      (∀ l output, outputs[l]? = some output →
        output = routing.computeTopk (scores l)) ∧
      mergeRouterTopkIndices layout vp pp routers' =
        .ok (outputs.map fun output => toUint8 output.2) := by
  have hchunk := onChunk_route routing pp hvp scores routers
  have hall : ∀ (l : ℕ) router, (getMicroBatchRouterList layout vp pp
      routers)[l]? = some router → router.routerReplayAction = some .record :=
    fun l router hl => hrecord router
      (List.mem_of_mem_drop (List.mem_of_mem_take (List.mem_of_getElem? hl)))
  have hcompute : ∀ (l : ℕ) router, (getMicroBatchRouterList layout vp pp
      routers)[l]? = some router → computeTopk routing router (scores l) =
        (routing.computeTopk (scores l),
          router.recordIndices (routing.computeTopk (scores l)).2) := by
    intro l router hl
    rw [computeTopk, hall l router hl]
  have hall' : ∀ (l : ℕ) router, (getMicroBatchRouterList layout vp pp
      (route routing layout vp pp scores routers).2)[l]? = some router →
        router.routerReplayAction = some .record := by
    intro l router' hl
    rw [hchunk.chunk, List.getElem?_mapIdx] at hl
    obtain ⟨router, hrouter, rfl⟩ := Option.map_eq_some_iff.mp hl
    rw [action_computeTopk, hall l router hrouter]
  refine ⟨(route routing layout vp pp scores routers).1,
    (route routing layout vp pp scores routers).2, ?_, ?_,
    fun l output hl => ?_, ?_⟩
  · have hne : Action.record ≠ .replayBackward := by decide
    have hne' : Action.record ≠ .replayForward := by decide
    simp only [step, isAction_eq_false hne hall, isAction_eq_false hne' hall,
      isAction_eq_false hne' hall', Bool.false_eq_true, if_false, pure_bind]
    rfl
  · rw [route, List.length_mapIdx, length_getMicroBatchRouterList hvp hlength]
  · rw [route, List.getElem?_mapIdx] at hl
    obtain ⟨router, hrouter, rfl⟩ := Option.map_eq_some_iff.mp hl
    rw [hcompute l router hrouter]
  · have hmerge : ∀ router ∈ getMicroBatchRouterList layout vp pp
        (route routing layout vp pp scores routers).2,
        (match router.recordedTopkIdx with
          | some topkIndices => .ok (toUint8 topkIndices)
          | none => .error .attributeError : Py TopkIndices) =
            .ok (toUint8 (router.recordedTopkIdx.getD [])) := by
      intro router' hmem
      obtain ⟨l, hl⟩ := List.mem_iff_getElem?.mp hmem
      rw [hchunk.chunk, List.getElem?_mapIdx] at hl
      obtain ⟨router, hrouter, rfl⟩ := Option.map_eq_some_iff.mp hl
      rw [hcompute l router hrouter]
      rfl
    rw [mergeRouterTopkIndices, mapM_eq_ok_of_forall hmerge, hchunk.chunk,
      route]
    congr 1
    apply List.ext_getElem?
    intro l
    simp only [List.getElem?_map, List.getElem?_mapIdx, Option.map_map]
    cases hrouter : (getMicroBatchRouterList layout vp pp routers)[l]? with
    | none => rfl
    | some router =>
        simp only [Option.map_some, Function.comp_apply,
          hcompute l router hrouter]
        rfl

end Record
section Witness

/-- Four layers, every second one with a router, in two chunks of one rank. -/
def fourLayers : Layout where
  numLayers := 4
  moeLayerFreq := .every 2 Nat.two_pos
  virtualPipelineSize := some 2
  pipelineSize := 1
  getNumLayersToBuild := fun _ _ => 2
  layerOffset := fun vp pp =>
    ∑ _u ∈ range vp, ∑ _q ∈ range 1, 2 + ∑ _q ∈ range pp, 2
  layerOffset_eq := fun _ _ => rfl
  total_eq := rfl

def fresh (action : Option Action) (ι : Type) : List (Router ι) :=
  List.replicate 2 ⟨none, none, action, []⟩

theorem length_fresh (action : Option Action) (ι : Type) :
    (fresh action ι).length = fourLayers.totalRouters 0 := rfl

def addRouting : TopkRouting ℕ ℕ ℕ := ⟨fun s => (s, 0), fun s i => s + i⟩

/-- Two micro-batches pass a chunk before the first one's backward step. -/
def threeEvents : List (Event ℕ ℕ) :=
  [.forward 0 [10, 11, 12, 13] fun _ => 5,
    .forward 0 [20, 21, 22, 23] fun _ => 6, .backward 0 fun _ => 5]

theorem causal_threeEvents : Causal fourLayers threeEvents := by
  intro k event hk
  match k with
  | 0 =>
      obtain rfl := Option.some.inj hk
      exact ⟨Nat.two_pos, .inl rfl⟩
  | 1 =>
      obtain rfl := Option.some.inj hk
      exact ⟨Nat.two_pos, .inl rfl⟩
  | 2 =>
      obtain rfl := Option.some.inj hk
      exact ⟨Nat.two_pos, Nat.two_pos⟩
  | k + 3 => cases hk

theorem run_replays_threeEvents : ∃ outputs routers',
    run addRouting fourLayers 0 threeEvents
      (prepare (some .replayForward) (fresh none ℕ)) =
        .ok (outputs, routers') ∧
    ∃ out, outputs[2]? = some out ∧ Replays addRouting fourLayers 0
      (threeEvents.take 2) (.backward 0 fun _ => 5) out := by
  obtain ⟨outputs, routers', hrun, -, houtputs, -⟩ := run_replays addRouting
    Nat.one_pos (length_fresh none ℕ) causal_threeEvents
  exact ⟨outputs, routers', hrun, houtputs 2 _ rfl⟩

def expertRouting : TopkRouting ℕ ℕ TopkIndices :=
  ⟨fun s => (s, [[s]]), fun s _ => s⟩

end Witness

end SelfDistillation.RouterReplay
