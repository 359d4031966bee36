/-
Calls over an n-d device mesh: `dispatch_nd_compute` and `collect_nd_compute`
of verl/single_controller/base/decorator.py.
-/
import SelfDistillation.AutoPaddingDispatch
import SelfDistillation.DataProtoPadding

namespace SelfDistillation

variable {α β τ ν μ γ : Type}

/-- The dispatch and collect information of a mesh.  The collecting ranks, in
their global order, are the data-parallel ranks. -/
structure Mesh where
  worldSize : Nat
  dpSize : Nat
  dpRankMapping : List Nat
  collectMask : List Bool
  worldSize_pos : 0 < worldSize
  length_dpRankMapping : dpRankMapping.length = worldSize
  length_collectMask : collectMask.length = worldSize
  dpRank_lt : ∀ dpRank ∈ dpRankMapping, dpRank < dpSize
  collecting : ((dpRankMapping.zip collectMask).filter Prod.snd).map
    Prod.fst = List.range dpSize

section Dispatch

variable [DecidableEq μ] [MetaValue μ]

/-- `_split_args_kwargs_data_proto` -/
def splitArgsKwargsDataProto (autoPadding : Bool) (chunks : Nat)
    (arguments : Arguments (DataProto τ ν μ)) :
    Py (Arguments (List (DataProto τ ν μ))) :=
  arguments.mapM fun argument => do
    let chunkedArg ← argument.2.chunk autoPadding chunks
    pyAssert (chunkedArg.length == chunks) ""
    return (argument.1, chunkedArg)

/-- `len(args[0])`, read for the number of threads: there has to be a
positional argument. -/
def firstPositional (arguments : Arguments α) : Py α :=
  match arguments with
  | (none, arg) :: _ => .ok arg
  | _ => .error .indexError

/-- `parallel_put`: the list, in its order, at the object store. -/
def parallelPut (dataList : List α) : Py (List α) := do
  pyAssert (!dataList.isEmpty) "data_list must not be empty"
  return dataList

/-- `transformed_args`: for every global rank the element of its dp rank. -/
def transformArg (dpRankMapping : List Nat) (dpSize worldSize : Nat)
    (arg : List α) : Py (List α) := do
  pyAssert (arg.length == dpSize) ""
  (List.range worldSize).mapM fun i =>
    match dpRankMapping[i]? with
    | none => .error .indexError
    | some localDpRank =>
        match arg[localDpRank]? with
        | none => .error .indexError
        | some part => .ok part

/-- `dispatch_nd_compute` -/
def dispatchNdCompute (dpRankMapping : List Nat) (dpSize worldSize : Nat)
    (arguments : Arguments (List α)) : Py (Arguments (List α)) := do
  let _ ← firstPositional arguments
  let arguments ← arguments.mapM fun argument =>
    (fun refs => (argument.1, refs)) <$> parallelPut argument.2
  arguments.mapM fun argument =>
    (fun transformed => (argument.1, transformed)) <$>
      transformArg dpRankMapping dpSize worldSize argument.2

/-- `collect_nd_compute` -/
def collectNdCompute (collectMask : List Bool) (worldSize : Nat)
    (output : List γ) : Py (List γ) := do
  pyAssert (output.length == worldSize) ""
  let outputInDp ← (List.range worldSize).mapM fun globalRank =>
    match collectMask[globalRank]? with
    | none => .error .indexError
    | some false => .ok none
    | some true =>
        match output[globalRank]? with
        | none => .error .indexError
        | some out => .ok (some out)
  return outputInDp.reduceOption

/-- `dispatch_nd_compute_dataproto` -/
def dispatchNdComputeDataproto (autoPadding : Bool) (dpRankMapping : List Nat)
    (dpSize worldSize : Nat) (arguments : Arguments (DataProto τ ν μ)) :
    Py (Arguments (List (DataProto τ ν μ))) := do
  let splitted ← splitArgsKwargsDataProto autoPadding dpSize arguments
  dispatchNdCompute dpRankMapping dpSize worldSize splitted

/-- `collect_nd_compute_dataproto` -/
def collectNdComputeDataproto (collectMask : List Bool) (worldSize : Nat)
    (output : List (DataProto τ ν μ)) : Py (DataProto τ ν μ) := do
  let output ← collectNdCompute collectMask worldSize output
  pyAssert (!output.isEmpty)
    "expecting concatable output, but got element type empty"
  DataProto.concat output

/-- A call over the mesh, with every worker executed on its arguments. -/
def meshCall (mesh : Mesh) (autoPadding : Bool)
    (worker : Nat → Arguments (DataProto τ ν μ) → DataProto τ ν μ)
    (arguments : Arguments (DataProto τ ν μ)) : Py (DataProto τ ν μ) := do
  let dispatched ← dispatchNdComputeDataproto autoPadding mesh.dpRankMapping
    mesh.dpSize mesh.worldSize arguments
  let output ← executeAll mesh.worldSize worker dispatched
  collectNdComputeDataproto mesh.collectMask mesh.worldSize output

end Dispatch

section RoundTrip

variable (mesh : Mesh)

theorem Mesh.dpSize_pos : 0 < mesh.dpSize := by
  obtain ⟨dpRank, hdpRank⟩ := List.exists_mem_of_length_pos
    (mesh.length_dpRankMapping ▸ mesh.worldSize_pos)
  exact Nat.lt_of_le_of_lt (Nat.zero_le _) (mesh.dpRank_lt dpRank hdpRank)

/-- Every rank gets the part of its dp rank. -/
theorem transformArg_parts (f : Nat → α) :
    transformArg mesh.dpRankMapping mesh.dpSize mesh.worldSize
        ((List.range mesh.dpSize).map f) = .ok (mesh.dpRankMapping.map f) := by
  rw [transformArg, List.length_map, List.length_range, beq_self_eq_true,
    pyAssert_true, ok_bind, mapM_eq_ok_iff, List.forall₂_iff_get]
  refine ⟨by rw [List.length_range, List.length_map,
    mesh.length_dpRankMapping], fun i hi hi' => ?_⟩
  rw [List.length_map] at hi'
  have hget : mesh.dpRankMapping[i]? = some (mesh.dpRankMapping.get ⟨i, hi'⟩) :=
    List.getElem?_eq_getElem hi'
  have hlt := mesh.dpRank_lt _ (List.get_mem mesh.dpRankMapping ⟨i, hi'⟩)
  simp only [List.get_eq_getElem, List.getElem_range, List.getElem_map] at *
  rw [hget]
  simp only [List.getElem?_map, List.getElem?_range hlt, Option.map_some]

/-- The first argument is positional. -/
def Positional (arguments : Arguments β) : Prop :=
  ∃ first rest, arguments = (none, first) :: rest

theorem dispatchNdCompute_parts {arguments : Arguments β}
    (hpositional : Positional arguments) (f : β → Nat → α) :
    dispatchNdCompute mesh.dpRankMapping mesh.dpSize mesh.worldSize
        (arguments.map fun a => (a.1, (List.range mesh.dpSize).map (f a.2))) =
      .ok (arguments.map fun a => (a.1, mesh.dpRankMapping.map (f a.2))) := by
  have hfirst : ∃ first, firstPositional (arguments.map fun a =>
      (a.1, (List.range mesh.dpSize).map (f a.2))) = .ok first := by
    obtain ⟨first, rest, rfl⟩ := hpositional
    exact ⟨_, rfl⟩
  have hput : ∀ g : Nat → α, parallelPut ((List.range mesh.dpSize).map g) =
      .ok ((List.range mesh.dpSize).map g) := by
    intro g
    have hne : ((List.range mesh.dpSize).map g).isEmpty = false := by
      rw [List.isEmpty_eq_false_iff, ne_eq, List.map_eq_nil_iff,
        List.range_eq_nil]
      exact mesh.dpSize_pos.ne'
    rw [parallelPut, hne, Bool.not_false, pyAssert_true, ok_bind]
    rfl
  have hputs : (arguments.map fun a =>
      (a.1, (List.range mesh.dpSize).map (f a.2))).mapM
        (fun argument => (fun refs => (argument.1, refs)) <$>
          parallelPut argument.2) =
      .ok (arguments.map fun a =>
        (a.1, (List.range mesh.dpSize).map (f a.2))) := by
    rw [mapM_eq_ok_iff, List.forall₂_map_left_iff,
      List.forall₂_map_right_iff, List.forall₂_same]
    intro a _
    rw [hput]
    rfl
  obtain ⟨first, hfirst⟩ := hfirst
  rw [dispatchNdCompute, hfirst, ok_bind, hputs, ok_bind, mapM_eq_ok_iff,
    List.forall₂_map_left_iff, List.forall₂_map_right_iff,
    List.forall₂_same]
  intro a _
  rw [transformArg_parts]
  rfl

/-- The worker of a rank gets the parts of the dp rank. -/
theorem workerArguments_mapping (arguments : Arguments β)
    (f : β → Nat → DataProto τ ν μ) {rank dpRank : Nat}
    (hrank : mesh.dpRankMapping[rank]? = some dpRank) :
    workerArguments (arguments.map fun a =>
        (a.1, mesh.dpRankMapping.map (f a.2))) rank =
      .ok (arguments.map fun a => (a.1, f a.2 dpRank)) := by
  rw [workerArguments, mapM_eq_ok_iff, List.forall₂_map_left_iff,
    List.forall₂_map_right_iff, List.forall₂_same]
  intro a _
  simp [hrank]

/-- One output of every dp rank is collected, in the order of the dp
ranks. -/
theorem collectNdCompute_mapping (g : Nat → γ) :
    collectNdCompute mesh.collectMask mesh.worldSize
        (mesh.dpRankMapping.map g) = .ok ((List.range mesh.dpSize).map g) := by
  have hkept : (List.range mesh.worldSize).mapM (fun globalRank =>
      match mesh.collectMask[globalRank]? with
      | none => .error .indexError
      | some false => .ok none
      | some true =>
          match (mesh.dpRankMapping.map g)[globalRank]? with
          | none => .error .indexError
          | some out => .ok (some out)) =
      (.ok ((mesh.dpRankMapping.zip mesh.collectMask).map fun p =>
        if p.2 then some (g p.1) else none) : Py (List (Option γ))) := by
    rw [mapM_eq_ok_iff, List.forall₂_iff_get]
    have hlen := mesh.length_dpRankMapping
    have hlen' := mesh.length_collectMask
    refine ⟨by simp [hlen, hlen'], fun i hi hi' => ?_⟩
    have hi₁ : i < mesh.dpRankMapping.length := by
      rw [hlen]
      simpa using hi
    have hi₂ : i < mesh.collectMask.length := by
      rw [hlen']
      simpa using hi
    simp only [List.get_eq_getElem, List.getElem_range, List.getElem_map,
      List.getElem_zip, List.getElem?_eq_getElem hi₂, List.getElem?_map,
      List.getElem?_eq_getElem hi₁, Option.map_some]
    cases mesh.collectMask[i] <;> rfl
  have hreduce : ∀ ps : List (Nat × Bool),
      (ps.map fun p => if p.2 then some (g p.1) else none).reduceOption =
        ((ps.filter Prod.snd).map Prod.fst).map g := by
    intro ps
    induction ps with
    | nil => rfl
    | cons p ps ih =>
        obtain ⟨rank, kept⟩ := p
        cases kept <;> simp [ih]
  rw [collectNdCompute, List.length_map, mesh.length_dpRankMapping,
    beq_self_eq_true, pyAssert_true, ok_bind, hkept, ok_bind, hreduce,
    mesh.collecting]
  rfl

variable [DecidableEq μ] [MetaValue μ] (autoPadding : Bool)

/-- All ranks of a dp rank get its rows of the arguments, and the collected
output is the row-wise image of the rows in their order. -/
structure MeshRoundTrip (worker : RowWise τ ν μ)
    (arguments : Arguments (DataProto τ ν μ)) (size : Nat) : Prop where
  dispatched : ∃ dispatched, dispatchNdComputeDataproto autoPadding
      mesh.dpRankMapping mesh.dpSize mesh.worldSize arguments =
        .ok dispatched ∧
    ∀ rank dpRank, mesh.dpRankMapping[rank]? = some dpRank →
      workerArguments dispatched rank = .ok (arguments.map fun a =>
        (a.1, a.2.slice (dpRank * size) ((dpRank + 1) * size)))
  collected : ∃ out, meshCall mesh autoPadding worker.run arguments =
      .ok out ∧
    out.rows = (argumentRows arguments).map worker.schema.row

omit [DecidableEq μ] in
/-- Every argument is cut into a chunk for each dp rank. -/
theorem splitArgsKwargsDataProto_parts
    {arguments : Arguments (DataProto τ ν μ)} {size : Nat}
    (hrows : ∀ a ∈ arguments, a.2.HasRows (mesh.dpSize * size))
    (hfits : 0 < size ∨ mesh.dpSize = 1 ∨
      ∀ a ∈ arguments, a.2.batch = none) :
    splitArgsKwargsDataProto autoPadding mesh.dpSize arguments =
      .ok (arguments.map fun a => (a.1, (List.range mesh.dpSize).map
        fun i => a.2.slice (i * size) ((i + 1) * size))) := by
  rw [splitArgsKwargsDataProto, mapM_eq_ok_iff, List.forall₂_map_right_iff,
    List.forall₂_same]
  intro a ha
  have hfits' : 0 < size ∨ mesh.dpSize = 1 ∨ a.2.batch = none :=
    hfits.imp_right fun h => h.imp_right fun h => h a ha
  rw [DataProto.chunk_eq_slices (hrows a ha) mesh.dpSize_pos hfits', ok_bind,
    List.length_map, List.length_range, beq_self_eq_true, pyAssert_true,
    ok_bind]
  rfl

omit [DecidableEq μ] in
theorem dispatchNdComputeDataproto_parts
    {arguments : Arguments (DataProto τ ν μ)} {size : Nat}
    (hpositional : Positional arguments)
    (hrows : ∀ a ∈ arguments, a.2.HasRows (mesh.dpSize * size))
    (hfits : 0 < size ∨ mesh.dpSize = 1 ∨
      ∀ a ∈ arguments, a.2.batch = none) :
    dispatchNdComputeDataproto autoPadding mesh.dpRankMapping mesh.dpSize
        mesh.worldSize arguments =
      .ok (arguments.map fun a => (a.1, mesh.dpRankMapping.map
        fun i => a.2.slice (i * size) ((i + 1) * size))) := by
  rw [dispatchNdComputeDataproto,
    splitArgsKwargsDataProto_parts mesh autoPadding hrows hfits, ok_bind]
  exact dispatchNdCompute_parts mesh hpositional
    fun data i => data.slice (i * size) ((i + 1) * size)

/-- The collected output of a row-wise worker is its output for the whole
arguments. -/
theorem meshCall_run (worker : RowWise τ ν μ)
    {arguments : Arguments (DataProto τ ν μ)} {size : Nat}
    (hpositional : Positional arguments)
    (hrows : ∀ a ∈ arguments, a.2.HasRows (mesh.dpSize * size))
    (hfits : 0 < size ∨ mesh.dpSize = 1 ∨
      ∀ a ∈ arguments, a.2.batch = none) :
    meshCall mesh autoPadding worker.run arguments =
      .ok (worker.run 0 arguments) := by
  have houtput : executeAll mesh.worldSize worker.run
      (arguments.map fun a => (a.1, mesh.dpRankMapping.map
        fun i => a.2.slice (i * size) ((i + 1) * size))) =
      .ok (mesh.dpRankMapping.map fun i => worker.run i
        (arguments.map fun a =>
          (a.1, a.2.slice (i * size) ((i + 1) * size)))) := by
    rw [executeAll, mapM_eq_ok_iff, List.forall₂_iff_get]
    refine ⟨by rw [List.length_range, List.length_map,
      mesh.length_dpRankMapping], fun rank hrank hrank' => ?_⟩
    rw [List.length_map] at hrank'
    have hget : mesh.dpRankMapping[rank]? =
        some (mesh.dpRankMapping.get ⟨rank, hrank'⟩) :=
      List.getElem?_eq_getElem hrank'
    have harguments := workerArguments_mapping mesh arguments
      (fun data i => data.slice (i * size) ((i + 1) * size)) hget
    simp only [List.get_eq_getElem, List.getElem_range,
      List.getElem_map] at harguments ⊢
    rw [harguments]
    rfl
  have hne : arguments ≠ [] := by
    obtain ⟨first, rest, rfl⟩ := hpositional
    exact List.cons_ne_nil _ _
  have hnonempty : ((List.range mesh.dpSize).map fun i => worker.run i
      (arguments.map fun a =>
        (a.1, a.2.slice (i * size) ((i + 1) * size)))).isEmpty = false := by
    rw [List.isEmpty_eq_false_iff, ne_eq, List.map_eq_nil_iff,
      List.range_eq_nil]
    exact mesh.dpSize_pos.ne'
  rw [meshCall, dispatchNdComputeDataproto_parts mesh autoPadding hpositional
    hrows hfits, ok_bind, houtput, ok_bind, collectNdComputeDataproto,
    collectNdCompute_mapping, ok_bind, hnonempty, Bool.not_false,
    pyAssert_true, ok_bind]
  exact concat_run worker hne mesh.dpSize_pos hrows

omit [DecidableEq μ] in
/-- Without rows `TensorDict.chunk` does not give a chunk for every dp
rank. -/
theorem fits_of_chunk {data : DataProto τ ν μ} {size chunks : Nat}
    (hrows : data.HasRows (chunks * size)) (hchunks : 0 < chunks)
    {pieces : List (DataProto τ ν μ)}
    (h : data.chunk autoPadding chunks = .ok pieces) :
    0 < size ∨ chunks = 1 ∨ data.batch = none := by
  rcases Nat.eq_zero_or_pos size with rfl | hsize
  · obtain ⟨schema, -, -, rfl⟩ := DataProto.exists_build hrows
    have hcount := Nat.le_antisymm
      (schema.length_bounds_le _ hchunks) (Schema.le_of_chunk_build hchunks h)
    rw [Schema.length_bounds_eq_iff _ _ hchunks, List.length_finRange] at hcount
    rcases hcount with hnone | hone | hlt
    · exact .inr (.inr (Schema.batch_build_eq_none_iff.mpr hnone))
    · exact .inr (.inl hone)
    · exact absurd hlt (Nat.not_lt_zero _)
  · exact .inl hsize

end RoundTrip

section Examples

/-- Two data-parallel ranks of two ranks each, the first of which collects. -/
def tensorParallelMesh : Mesh where
  worldSize := 4
  dpSize := 2
  dpRankMapping := [0, 0, 1, 1]
  collectMask := [true, false, true, false]
  worldSize_pos := by decide
  length_dpRankMapping := rfl
  length_collectMask := rfl
  dpRank_lt := by decide
  collecting := by decide

theorem hasRows_numberedRows (n : Nat) : (numberedRows n).HasRows n := by
  have hrows : (numberedRows n).HasRows (List.range n).length :=
    DataProto.hasRows_build (.inl (by simp [numberedSchema])) _
  rw [List.length_range] at hrows
  exact hrows

end Examples

end SelfDistillation
