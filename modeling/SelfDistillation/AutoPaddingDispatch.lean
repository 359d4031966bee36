/-
Auto padding in worker-group calls: the dispatch functions of
verl/single_controller/base/decorator.py and `func_generator`
(verl/single_controller/ray/base.py), on a store of the caller's objects.
-/
import SelfDistillation.DataProtoSchema

namespace SelfDistillation

variable {ρ τ ν μ γ : Type}

/-- The caller's objects, by reference. -/
abbrev Store (ρ τ ν μ : Type) := ρ → DataProto τ ν μ

/-- The arguments of a call: positional ones, then those with a keyword. -/
abbrev Arguments (α : Type) := List (Option String × α)

/-- `data_proto_len` and `padding_size` -/
abbrev PaddingState := Option (Nat × Nat)

/-- `padding_size` for the first `DataProto`. -/
def paddingSizeFor (dataProtoLen chunks : Nat) : Nat :=
  if dataProtoLen % chunks > 0 then chunks - dataProtoLen % chunks else 0

/-- What a method returns after its outputs are collected. -/
inductive Collected (γ τ ν μ : Type)
  | proto (data : DataProto τ ν μ)
  | future (futures : List γ)
  | list (output : List γ)

section Dispatch

variable [DecidableEq ρ] [DecidableEq μ] [MetaValue μ]

/-- The two nonlocal variables after a `DataProto` of the given length. -/
def nextPaddingState (chunks : Nat) (state : PaddingState) (length : Nat) :
    Py (Nat × Nat) :=
  match state with
  | none => .ok (length, paddingSizeFor length chunks)
  | some (dataProtoLen, paddingSize) =>
      (fun _ => (dataProtoLen, paddingSize)) <$>
        pyAssert (dataProtoLen == length)
          (s!"expecting all arg share same length of {dataProtoLen}, " ++
            s!"but got {length}")

/-- `_padding_and_split_data`: the object itself is padded. -/
def paddingAndSplitData (autoPadding : Bool) (chunks : Nat)
    (state : PaddingState) (obj : ρ) (store : Store ρ τ ν μ) :
    Py (List (DataProto τ ν μ) × PaddingState) × Store ρ τ ν μ :=
  let data := store obj
  if data.isPaddingEnabled autoPadding then
    match nextPaddingState chunks state data.length with
    | .error e => (.error e, store)
    | .ok (dataProtoLen, paddingSize) =>
        match data.padding paddingSize with
        | .error e => (.error e, store)
        | .ok padded =>
            ((fun parts => (parts, some (dataProtoLen, paddingSize))) <$>
              padded.chunk autoPadding chunks,
              Function.update store obj padded)
  else
    ((fun parts => (parts, state)) <$> data.chunk autoPadding chunks, store)

/-- `_split_args_kwargs_data_proto_with_auto_padding`, from the values of the
nonlocal variables. -/
def splitArguments (autoPadding : Bool) (chunks : Nat) :
    PaddingState → Arguments ρ → Store ρ τ ν μ →
      Py (Arguments (List (DataProto τ ν μ)) × PaddingState) × Store ρ τ ν μ
  | state, [], store => (.ok ([], state), store)
  | state, (name, obj) :: arguments, store =>
      match paddingAndSplitData autoPadding chunks state obj store with
      | (.error e, store) => (.error e, store)
      | (.ok (parts, state), store) =>
          match splitArguments autoPadding chunks state arguments store with
          | (.error e, store) => (.error e, store)
          | (.ok (splitted, state), store) =>
              (.ok ((name, parts) :: splitted, state), store)

/-- The arguments of worker `i`. -/
def workerArguments (splitted : Arguments (List (DataProto τ ν μ)))
    (i : Nat) : Py (Arguments (DataProto τ ν μ)) :=
  splitted.mapM fun argument =>
    match argument.2[i]? with
    | some part => .ok (argument.1, part)
    | none => .error .indexError

/-- `execute_all`; every list of parts is as long as there are workers. -/
def executeAll (worldSize : Nat)
    (worker : Nat → Arguments (DataProto τ ν μ) → γ)
    (splitted : Arguments (List (DataProto τ ν μ))) : Py (List γ) :=
  (List.range worldSize).mapM fun i =>
    worker i <$> workerArguments splitted i

/-- `collect_dp_compute` -/
def collectDpCompute (worldSize : Nat) (output : List γ) :
    Py (Collected γ τ ν μ) := do
  pyAssert (output.length == worldSize) ""
  return .list output

/-- `collect_dp_compute_data_proto`: concatenated, or a `DataProtoFuture` of
outputs that are not awaited. -/
def collectDpComputeDataProto (blocking : Bool) (worldSize : Nat)
    (output : List (DataProto τ ν μ)) :
    Py (Collected (DataProto τ ν μ) τ ν μ) := do
  pyAssert (!output.isEmpty)
    "expecting concatable output, but got element type empty"
  pyAssert (output.length == worldSize) ""
  if blocking then Collected.proto <$> DataProto.concat output
  else return .future output

/-- The end of `func_generator`: `[:-padding_count]` of a `DataProto` or of a
list. -/
def undoPadding (paddingCount : Nat) (output : Collected γ τ ν μ) :
    Py (Collected γ τ ν μ) :=
  if paddingCount > 0 then
    match output with
    | .proto data => Collected.proto <$>
        data.selectIdxs
          ((List.range data.length).take (data.length - paddingCount))
    | .list output =>
        .ok (.list (output.take (output.length - paddingCount)))
    | .future futures => .ok (.future futures)
  else .ok output

/-- `func_generator` with `dispatch_dp_compute_data_proto`: the result, and the
caller's objects afterwards. -/
def funcGenerator (autoPadding : Bool) (worldSize : Nat)
    (worker : Nat → Arguments (DataProto τ ν μ) → γ)
    (collectFn : Nat → List γ → Py (Collected γ τ ν μ))
    (arguments : Arguments ρ) (store : Store ρ τ ν μ) :
    Py (Collected γ τ ν μ) × Store ρ τ ν μ :=
  match splitArguments autoPadding worldSize none arguments store with
  | (.error e, store) => (.error e, store)
  | (.ok (splitted, state), store) =>
      (do
        let output ← executeAll worldSize worker splitted
        let output ← collectFn worldSize output
        undoPadding ((state.map Prod.snd).getD 0) output, store)

/-- `DataProtoFuture.get`, or the collected `DataProto` itself. -/
def Collected.get (output : Collected (DataProto τ ν μ) τ ν μ) :
    Py (DataProto τ ν μ) :=
  match output with
  | .proto data => .ok data
  | .future futures => DataProto.concat futures
  | .list _ => .error .attributeError

end Dispatch

section Sizes

/-- The padded length divides evenly. -/
theorem add_paddingSizeFor (n : Nat) {chunks : Nat} (hchunks : 0 < chunks) :
    ∃ size, n + paddingSizeFor n chunks = chunks * size := by
  have hdiv := Nat.div_add_mod n chunks
  have hlt := Nat.mod_lt n hchunks
  unfold paddingSizeFor
  split
  · refine ⟨n / chunks + 1, ?_⟩
    rw [Nat.mul_add]
    omega
  · exact ⟨n / chunks, by omega⟩

theorem paddingSizeFor_eq_zero_iff {n chunks : Nat} (hchunks : 0 < chunks) :
    paddingSizeFor n chunks = 0 ↔ chunks ∣ n := by
  have hlt := Nat.mod_lt n hchunks
  rw [Nat.dvd_iff_mod_eq_zero]
  unfold paddingSizeFor
  split <;> omega

theorem paddingSizeFor_lt {n chunks : Nat} (hchunks : 0 < chunks) :
    paddingSizeFor n chunks < chunks := by
  unfold paddingSizeFor
  split <;> omega

end Sizes

section Split

variable [DecidableEq ρ] [DecidableEq μ] [MetaValue μ] {autoPadding : Bool}
  {chunks n size : Nat} {state : PaddingState} {obj : ρ}
  {store store' : Store ρ τ ν μ}

/-- An object with auto padding and `n` rows. -/
def AutoPadded (autoPadding : Bool) (n : Nat) (data : DataProto τ ν μ) :
    Prop :=
  data.HasRows n ∧ data.isPaddingEnabled autoPadding = true

/-- The state before or after the first object of `n` rows. -/
def StateFor (n chunks : Nat) (state : PaddingState) : Prop :=
  state = none ∨ state = some (n, paddingSizeFor n chunks)

/-- The parts of the object for the workers. -/
def parts (chunks size : Nat) (data : DataProto τ ν μ) :
    List (DataProto τ ν μ) :=
  (List.range chunks).map fun i => data.slice (i * size) ((i + 1) * size)

omit [DecidableEq μ] [MetaValue μ] in
theorem nextPaddingState_eq_ok (hstate : StateFor n chunks state) :
    nextPaddingState chunks state n =
      .ok (n, paddingSizeFor n chunks) := by
  rcases hstate with rfl | rfl
  · rfl
  · simp [nextPaddingState, pyAssert, Functor.map, Except.map]

/-- What the step does to an object of `n` rows when the world size divides
`n`: nothing. -/
theorem paddingAndSplitData_of_dvd (hstate : StateFor n chunks state)
    (hobj : AutoPadded autoPadding n (store obj)) (hn : 0 < n)
    (hsize : n = chunks * size) :
    paddingAndSplitData autoPadding chunks state obj store =
      (.ok (parts chunks size (store obj), some (n, 0)), store) := by
  subst hsize
  have hchunks : 0 < chunks := Nat.pos_of_mul_pos_right hn
  have hpos : 0 < size := Nat.pos_of_mul_pos_left hn
  have hzero : paddingSizeFor (chunks * size) chunks = 0 :=
    (paddingSizeFor_eq_zero_iff hchunks).mpr (Nat.dvd_mul_right chunks size)
  have hchunk := DataProto.chunk_eq_slices hobj.1 hchunks
    (.inl hpos) autoPadding
  rw [paddingAndSplitData, if_pos hobj.2,
    DataProto.length_of_hasRows hobj.1, nextPaddingState_eq_ok hstate]
  simp only [hzero, DataProto.padding, if_true, hchunk]
  rw [Function.update_eq_self]
  rfl

theorem splitArguments_of_dvd {arguments : Arguments ρ}
    (hstate : StateFor n chunks state)
    (harguments : ∀ a ∈ arguments, AutoPadded autoPadding n (store a.2))
    (hn : 0 < n) (hsize : n = chunks * size) :
    ∃ state', StateFor n chunks state' ∧
      splitArguments autoPadding chunks state arguments store =
        (.ok (arguments.map fun a => (a.1, parts chunks size (store a.2)),
          state'), store) := by
  induction arguments generalizing state with
  | nil => exact ⟨state, hstate, rfl⟩
  | cons argument arguments ih =>
      obtain ⟨name, obj⟩ := argument
      have hzero : paddingSizeFor n chunks = 0 :=
        (paddingSizeFor_eq_zero_iff
          (Nat.pos_of_mul_pos_right (hsize ▸ hn))).mpr
            (hsize ▸ Nat.dvd_mul_right chunks size)
      have hnext : StateFor n chunks (some (n, 0)) := .inr (by rw [hzero])
      obtain ⟨state', hstate', hrest⟩ :=
        ih hnext fun a ha => harguments a (List.mem_cons_of_mem _ ha)
      refine ⟨state', hstate', ?_⟩
      rw [splitArguments, paddingAndSplitData_of_dvd hstate
        (harguments _ List.mem_cons_self) hn hsize]
      simp only [hrest, List.map_cons]

/-- What the step does to an object of `n` rows when the world size does not
divide `n`: if its `meta_info` merges it is padded, else the step fails. -/
theorem paddingAndSplitData_cases (hstate : StateFor n chunks state)
    (hobj : AutoPadded autoPadding n (store obj)) (hn : 0 < n)
    (hdvd : ¬ chunks ∣ n) (hsize : n + paddingSizeFor n chunks = chunks * size) :
    ∃ padded : DataProto τ ν μ,
      AutoPadded autoPadding (n + paddingSizeFor n chunks) padded ∧
      ((store obj).MetaMergeable →
        paddingAndSplitData autoPadding chunks state obj store =
          (.ok (parts chunks size padded,
            some (n, paddingSizeFor n chunks)),
            Function.update store obj padded)) ∧
      (¬ (store obj).MetaMergeable →
        ∃ e, paddingAndSplitData autoPadding chunks state obj store =
          (.error e, store)) := by
  have hproduct : 0 < chunks * size := by omega
  have hchunks : 0 < chunks := Nat.pos_of_mul_pos_right hproduct
  have hpos : 0 < size := Nat.pos_of_mul_pos_left hproduct
  have hk : paddingSizeFor n chunks ≠ 0 := fun hzero =>
    hdvd ((paddingSizeFor_eq_zero_iff hchunks).mp hzero)
  obtain ⟨padded, hrows, hmeta, -, hpadding⟩ :=
    DataProto.padding_spec hobj.1 hn hk
  have henabled : padded.isPaddingEnabled autoPadding = true := by
    rw [← hobj.2, DataProto.isPaddingEnabled, hmeta]
    rfl
  refine ⟨padded, ⟨hrows, henabled⟩, fun hmerge => ?_, fun hmerge => ?_⟩
  · have hresult := (hpadding padded).mpr ⟨hmerge, rfl⟩
    have hchunk := DataProto.chunk_eq_slices (hsize ▸ hrows) hchunks
      (.inl hpos) autoPadding
    rw [paddingAndSplitData, if_pos hobj.2,
      DataProto.length_of_hasRows hobj.1, nextPaddingState_eq_ok hstate]
    simp only [hresult, hchunk]
    rfl
  · rw [paddingAndSplitData, if_pos hobj.2,
      DataProto.length_of_hasRows hobj.1, nextPaddingState_eq_ok hstate]
    cases hresult : (store obj).padding (paddingSizeFor n chunks) with
    | error e => exact ⟨e, by simp only [hresult]⟩
    | ok result => exact absurd ((hpadding result).mp hresult).1 hmerge

/-- What a later step can do: it replaces an object of the first length, or
nothing. -/
theorem paddingAndSplitData_eq_ok {k : Nat}
    {split : List (DataProto τ ν μ) × PaddingState}
    (h : paddingAndSplitData autoPadding chunks (some (n, k)) obj store =
      (.ok split, store')) :
    split.2 = some (n, k) ∧
      ((store obj).isPaddingEnabled autoPadding = false ∧ store' = store ∨
        (store obj).length = n ∧
          ∃ padded, store' = Function.update store obj padded) := by
  unfold paddingAndSplitData at h
  simp only at h
  split at h
  · split at h
    · simp at h
    · rename_i dataProtoLen paddingSize hstate
      rw [nextPaddingState, map_eq_ok] at hstate
      obtain ⟨_, hlength, hpair⟩ := hstate
      have heq : n = (store obj).length := by
        simpa using pyAssert_eq_ok.mp hlength
      cases hpair
      split at h
      · simp at h
      · rename_i padded hpadded
        rw [Prod.mk.injEq, map_eq_ok] at h
        obtain ⟨⟨parts, -, rfl⟩, rfl⟩ := h
        exact ⟨rfl, .inr ⟨heq.symm, padded, rfl⟩⟩
  · rename_i hdisabled
    rw [Prod.mk.injEq, map_eq_ok] at h
    obtain ⟨⟨parts, -, rfl⟩, rfl⟩ := h
    exact ⟨rfl, .inl ⟨by simpa using hdisabled, rfl⟩⟩

theorem paddingAndSplitData_frame {k : Nat} {other : ρ}
    {split : List (DataProto τ ν μ) × PaddingState}
    (h : paddingAndSplitData autoPadding chunks (some (n, k)) other store =
      (.ok split, store')) (hlength : (store obj).length ≠ n) :
    store' obj = store obj := by
  rcases (paddingAndSplitData_eq_ok h).2 with ⟨-, rfl⟩ |
    ⟨hother, padded, rfl⟩
  · rfl
  · have hne : obj ≠ other := by
      rintro rfl
      exact hlength hother
    rw [Function.update_of_ne hne]

/-- What a successful split of the arguments is made of. -/
theorem splitArguments_cons_eq_ok {name : Option String}
    {arguments : Arguments ρ}
    {splitted : Arguments (List (DataProto τ ν μ)) × PaddingState}
    (h : splitArguments autoPadding chunks state ((name, obj) :: arguments)
      store = (.ok splitted, store')) :
    ∃ split next rest,
      paddingAndSplitData autoPadding chunks state obj store =
        (.ok split, next) ∧
      splitArguments autoPadding chunks split.2 arguments next =
        (.ok rest, store') := by
  rw [splitArguments] at h
  split at h
  · simp at h
  · rename_i parts state next hstep
    split at h
    · simp at h
    · rename_i rest state' last hrest
      rw [Prod.mk.injEq] at h
      obtain ⟨-, rfl⟩ := h
      exact ⟨(parts, state), next, (rest, state'), hstep, hrest⟩

/-- Later steps cannot change an object of another length: they would have
failed. -/
theorem splitArguments_frame {k : Nat} {arguments : Arguments ρ}
    {splitted : Arguments (List (DataProto τ ν μ)) × PaddingState}
    (h : splitArguments autoPadding chunks (some (n, k)) arguments store =
      (.ok splitted, store')) (hlength : (store obj).length ≠ n) :
    store' obj = store obj := by
  induction arguments generalizing store splitted with
  | nil =>
      cases h
      rfl
  | cons argument arguments ih =>
      obtain ⟨name, other⟩ := argument
      obtain ⟨split, next, rest, hstep, hrest⟩ := splitArguments_cons_eq_ok h
      have hobj := paddingAndSplitData_frame hstep hlength
      rw [(paddingAndSplitData_eq_ok hstep).1] at hrest
      rw [ih hrest (hobj ▸ hlength), hobj]

/-- All later objects with padding have the first length. -/
theorem splitArguments_lengths {k : Nat} {arguments : Arguments ρ}
    {splitted : Arguments (List (DataProto τ ν μ)) × PaddingState}
    (h : splitArguments autoPadding chunks (some (n, k)) arguments store =
      (.ok splitted, store')) {a : Option String × ρ} (ha : a ∈ arguments)
    (henabled : (store a.2).isPaddingEnabled autoPadding = true) :
    (store a.2).length = n := by
  induction arguments generalizing store splitted with
  | nil => cases ha
  | cons argument arguments ih =>
      obtain ⟨name, other⟩ := argument
      obtain ⟨split, next, rest, hstep, hrest⟩ := splitArguments_cons_eq_ok h
      obtain ⟨hstate, hcases⟩ := paddingAndSplitData_eq_ok hstep
      rw [hstate] at hrest
      rcases List.mem_cons.mp ha with rfl | ha
      · rcases hcases with ⟨hdisabled, -⟩ | ⟨hlength, -⟩
        · rw [hdisabled] at henabled
          cases henabled
        · exact hlength
      · by_contra hlength
        have hobj := paddingAndSplitData_frame hstep hlength
        exact hlength (hobj ▸ ih hrest ha (hobj.symm ▸ henabled))

omit [DecidableEq μ] [MetaValue μ] in
theorem update_of_not_mem {arguments : Arguments ρ}
    (hnew : obj ∉ arguments.map Prod.snd) (padded : DataProto τ ν μ)
    (store : Store ρ τ ν μ) :
    ∀ a ∈ arguments, Function.update store obj padded a.2 = store a.2 := by
  intro a ha
  have hne : a.2 ≠ obj := fun heq => hnew (List.mem_map.mpr ⟨a, ha, heq⟩)
  rw [Function.update_of_ne hne]

/-- Without a divisor a successful split had distinct objects whose
`meta_info` merges. -/
theorem nodup_of_splitArguments {arguments : Arguments ρ}
    {splitted : Arguments (List (DataProto τ ν μ)) × PaddingState}
    (hstate : StateFor n chunks state)
    (harguments : ∀ a ∈ arguments, AutoPadded autoPadding n (store a.2))
    (hn : 0 < n) (hdvd : ¬ chunks ∣ n)
    (hsize : n + paddingSizeFor n chunks = chunks * size)
    (h : splitArguments autoPadding chunks state arguments store =
      (.ok splitted, store')) :
    (arguments.map Prod.snd).Nodup ∧
      ∀ a ∈ arguments, (store a.2).MetaMergeable := by
  induction arguments generalizing state store splitted with
  | nil => exact ⟨List.nodup_nil, by simp⟩
  | cons argument arguments ih =>
      obtain ⟨name, obj⟩ := argument
      obtain ⟨split, next, rest, hstep, hrest⟩ := splitArguments_cons_eq_ok h
      obtain ⟨padded, hpadded, hok, herror⟩ := paddingAndSplitData_cases
        hstate (harguments _ List.mem_cons_self) hn hdvd hsize
      by_cases hmerge : (store obj).MetaMergeable
      · rw [hok hmerge, Prod.mk.injEq, Except.ok.injEq] at hstep
        obtain ⟨rfl, rfl⟩ := hstep
        have hlength : (Function.update store obj padded obj).length ≠ n := by
          rw [Function.update_self, DataProto.length_of_hasRows hpadded.1]
          intro heq
          refine hdvd ((paddingSizeFor_eq_zero_iff ?_).mp (by omega))
          exact Nat.pos_of_mul_pos_right (hsize ▸ by omega : 0 < chunks * size)
        have hnew : obj ∉ arguments.map Prod.snd := by
          intro hmem
          obtain ⟨a, ha, heq⟩ := List.mem_map.mp hmem
          refine hlength (heq ▸ splitArguments_lengths hrest ha ?_)
          rw [heq, Function.update_self]
          exact hpadded.2
        have hsame := update_of_not_mem hnew padded store
        obtain ⟨hnodup, hmerges⟩ := ih (.inr rfl) (fun a ha =>
          hsame a ha ▸ harguments a (List.mem_cons_of_mem _ ha)) hrest
        refine ⟨List.nodup_cons.mpr ⟨hnew, hnodup⟩, ?_⟩
        intro a ha
        rcases List.mem_cons.mp ha with rfl | ha
        · exact hmerge
        · exact hsame a ha ▸ hmerges a ha
      · obtain ⟨e, he⟩ := herror hmerge
        rw [he] at hstep
        cases hstep

/-- Without a divisor the objects, if distinct, are padded one by one, and the
parts are those of the padded objects. -/
theorem splitArguments_of_nodup {arguments : Arguments ρ}
    (hstate : StateFor n chunks state)
    (harguments : ∀ a ∈ arguments, AutoPadded autoPadding n (store a.2))
    (hn : 0 < n) (hdvd : ¬ chunks ∣ n)
    (hsize : n + paddingSizeFor n chunks = chunks * size)
    (hnodup : (arguments.map Prod.snd).Nodup)
    (hmerges : ∀ a ∈ arguments, (store a.2).MetaMergeable) :
    ∃ state' store', (state ≠ none ∨ arguments ≠ [] →
        state' = some (n, paddingSizeFor n chunks)) ∧
      splitArguments autoPadding chunks state arguments store =
        (.ok (arguments.map fun a => (a.1, parts chunks size (store' a.2)),
          state'), store') ∧
      (∀ other ∉ arguments.map Prod.snd, store' other = store other) ∧
      ∀ a ∈ arguments, AutoPadded autoPadding
        (n + paddingSizeFor n chunks) (store' a.2) := by
  induction arguments generalizing state store with
  | nil =>
      refine ⟨state, store, ?_, rfl, fun _ _ => rfl, by simp⟩
      rintro (hne | hne)
      · exact hstate.resolve_left hne
      · exact absurd rfl hne
  | cons argument arguments ih =>
      obtain ⟨name, obj⟩ := argument
      obtain ⟨padded, hpadded, hok, -⟩ := paddingAndSplitData_cases
        hstate (harguments _ List.mem_cons_self) hn hdvd hsize
      have hstep := hok (hmerges _ List.mem_cons_self)
      obtain ⟨hnew, hrestNodup⟩ := List.nodup_cons.mp hnodup
      have hsame := update_of_not_mem hnew padded store
      have hnext : StateFor n chunks (some (n, paddingSizeFor n chunks)) :=
        .inr rfl
      obtain ⟨state', store', hstate', hsplit, hframe, hpads⟩ :=
        ih hnext (fun a ha =>
            hsame a ha ▸ harguments a (List.mem_cons_of_mem _ ha))
          hrestNodup fun a ha =>
            hsame a ha ▸ hmerges a (List.mem_cons_of_mem _ ha)
      have hobj : store' obj = padded := by
        rw [hframe obj hnew, Function.update_self]
      refine ⟨state', store', fun _ => hstate' (.inl (by simp)), ?_, ?_, ?_⟩
      · rw [splitArguments, hstep]
        simp only [hsplit, List.map_cons, hobj]
      · intro other hother
        simp only [List.map_cons, List.mem_cons, not_or] at hother
        rw [hframe other hother.2, Function.update_of_ne hother.1]
      · intro a ha
        rcases List.mem_cons.mp ha with rfl | ha
        · exact hobj ▸ hpadded
        · exact hpads a ha

omit [DecidableEq μ] [MetaValue μ] in
/-- Worker `i` gets the slices of the arguments. -/
theorem executeAll_parts (worldSize : Nat)
    (worker : Nat → Arguments (DataProto τ ν μ) → γ)
    (arguments : Arguments (DataProto τ ν μ)) :
    executeAll worldSize worker
      (arguments.map fun a => (a.1, parts worldSize size a.2)) =
      .ok ((List.range worldSize).map fun i => worker i
        (arguments.map fun a =>
          (a.1, a.2.slice (i * size) ((i + 1) * size)))) := by
  rw [executeAll]
  apply mapM_eq_ok_of_forall
  intro i hi
  have hlt := List.mem_range.mp hi
  have harguments : workerArguments
      (arguments.map fun a => (a.1, parts worldSize size a.2)) i =
        .ok (arguments.map fun a =>
          (a.1, a.2.slice (i * size) ((i + 1) * size))) := by
    rw [workerArguments, mapM_eq_ok_iff, List.forall₂_map_left_iff,
      List.forall₂_map_right_iff, List.forall₂_same]
    intro a _
    simp [parts, hlt]
  rw [harguments]
  rfl

end Split

/-- What a row-wise method sees of a row: that row of every argument. -/
abbrev ArgumentRow (τ ν : Type) := Arguments (DataProto.Row τ ν)

/-- The rows of the arguments side by side. -/
def argumentRows (arguments : Arguments (DataProto τ ν μ)) :
    List (ArgumentRow τ ν) :=
  match arguments with
  | [] => []
  | (_, first) :: _ => (List.range first.length).map fun j =>
      arguments.map fun a => (a.1, a.2.rowAt j)

/-- A method that computes every output row from the same row of its
arguments; its `meta_info` holds no metrics, which are not row-wise. -/
structure RowWise (τ ν μ : Type) where
  schema : Schema (ArgumentRow τ ν) τ ν μ
  hasColumn : schema.HasColumn
  noMetrics : "metrics" ∉ schema.metaInfo.keys

def RowWise.run (worker : RowWise τ ν μ) (_rank : Nat)
    (arguments : Arguments (DataProto τ ν μ)) : DataProto τ ν μ :=
  worker.schema.build (argumentRows arguments)

section RowWise

/-- The rows of slices are a piece of the rows. -/
theorem argumentRows_slice {arguments : Arguments (DataProto τ ν μ)}
    {chunks size : Nat}
    (harguments : ∀ a ∈ arguments, a.2.HasRows (chunks * size)) {i : Nat}
    (hi : i < chunks) :
    argumentRows (arguments.map fun a =>
        (a.1, a.2.slice (i * size) ((i + 1) * size))) =
      Schema.piece size (argumentRows arguments) i := by
  obtain _ | ⟨⟨name, first⟩, rest⟩ := arguments
  · simp [argumentRows, Schema.piece]
  · have hfirst : first.HasRows (chunks * size) :=
      harguments _ List.mem_cons_self
    have hlen := DataProto.length_of_hasRows hfirst
    have hslice : (first.slice (i * size) ((i + 1) * size)).length =
        size := by
      obtain ⟨schema, hcolumn, -, hdata⟩ := DataProto.exists_build hfirst
      rw [hdata, Schema.slice_build, Schema.length_build hcolumn,
        Schema.length_piece (List.length_finRange) hi]
    have hrows : (argumentRows ((name, first) :: rest)).length =
        chunks * size := by
      simp [argumentRows, hlen]
    apply List.ext_getElem
    · rw [Schema.length_piece hrows hi]
      simp [argumentRows, hslice]
    · intro j hj hj'
      rw [Schema.length_piece hrows hi] at hj'
      have hlt : i * size + j < (i + 1) * size := by
        rw [Nat.succ_mul]
        omega
      simp [argumentRows, Schema.piece, DataProto.rowAt_slice, hlt]

variable [DecidableEq μ] [MetaValue μ]

/-- The outputs of the workers for equal slices concatenate to the output for
the whole arguments. -/
theorem concat_run (worker : RowWise τ ν μ)
    {arguments : Arguments (DataProto τ ν μ)} (hne : arguments ≠ [])
    {chunks size : Nat} (hchunks : 0 < chunks)
    (harguments : ∀ a ∈ arguments, a.2.HasRows (chunks * size)) :
    DataProto.concat ((List.range chunks).map fun i => worker.run i
        (arguments.map fun a =>
          (a.1, a.2.slice (i * size) ((i + 1) * size)))) =
      .ok (worker.run 0 arguments) := by
  have hlen : (argumentRows arguments).length = chunks * size := by
    obtain ⟨⟨name, first⟩, rest, rfl⟩ := List.exists_cons_of_ne_nil hne
    simp [argumentRows,
      DataProto.length_of_hasRows (harguments _ List.mem_cons_self)]
  have hpieces : (List.range chunks).map (fun i => worker.run i
      (arguments.map fun a =>
        (a.1, a.2.slice (i * size) ((i + 1) * size)))) =
      ((List.range chunks).map
        (Schema.piece size (argumentRows arguments))).map
          worker.schema.build := by
    rw [List.map_map]
    apply List.map_congr_left
    intro i hi
    rw [RowWise.run, argumentRows_slice harguments (List.mem_range.mp hi)]
    rfl
  have hnonempty : (List.range chunks).map
      (Schema.piece size (argumentRows arguments)) ≠ [] := by
    rw [ne_eq, List.map_eq_nil_iff, List.range_eq_nil]
    omega
  rw [hpieces, Schema.concat_build_eq_ok hnonempty]
  refine ⟨worker.schema.metaInfo, ?_, ?_⟩
  · rw [List.length_map, List.length_range]
    exact DataProto.mergeMetaInfo_replicate hchunks worker.noMetrics
  · rw [Schema.flatten_pieces, ← hlen, List.take_length]
    rfl

end RowWise

/-- A call of a row-wise method in mode `DP_COMPUTE_PROTO`. -/
structure WorkerCall (ρ τ ν μ : Type) where
  worldSize : Nat
  arguments : Arguments ρ
  worker : RowWise τ ν μ
  blocking : Bool
  worldSize_pos : 0 < worldSize
  arguments_ne_nil : arguments ≠ []

/-- The arguments as they are in a store. -/
def load (arguments : Arguments ρ) (store : Store ρ τ ν μ) :
    Arguments (DataProto τ ν μ) :=
  arguments.map fun a => (a.1, store a.2)

/-- The rows of the first argument. -/
def rowCount (arguments : Arguments ρ) (store : Store ρ τ ν μ) : Nat :=
  match arguments with
  | [] => 0
  | (_, obj) :: _ => (store obj).length

section Calls

variable [DecidableEq ρ] [DecidableEq μ] [MetaValue μ] (autoPadding : Bool)

/-- All arguments have auto padding and the same number of rows, at least
one. -/
def Accepted (arguments : Arguments ρ) (store : Store ρ τ ν μ) : Prop :=
  0 < rowCount arguments store ∧ ∀ a ∈ arguments,
    AutoPadded autoPadding (rowCount arguments store) (store a.2)

def WorkerCall.run (call : WorkerCall ρ τ ν μ) (store : Store ρ τ ν μ) :
    Py (Collected (DataProto τ ν μ) τ ν μ) × Store ρ τ ν μ :=
  funcGenerator autoPadding call.worldSize call.worker.run
    (collectDpComputeDataProto call.blocking) call.arguments store

/-- The call returns the result for every original row in order, and leaves
the caller's objects as they were. -/
def WorkerCall.Invisible (call : WorkerCall ρ τ ν μ)
    (original store : Store ρ τ ν μ) : Prop :=
  ∃ output data, call.run autoPadding store = (.ok output, original) ∧
    output.get = .ok data ∧
    data.rows = (argumentRows (load call.arguments original)).map
      call.worker.schema.row

/-- Every call of a sequence does, each on what the calls before it left. -/
def AllInvisible (original : Store ρ τ ν μ) :
    List (WorkerCall ρ τ ν μ) → Store ρ τ ν μ → Prop
  | [], _ => True
  | call :: calls, store => call.Invisible autoPadding original store ∧
      AllInvisible original calls (call.run autoPadding store).2

variable {autoPadding} {store store' : Store ρ τ ν μ}

omit [DecidableEq ρ] [DecidableEq μ] [MetaValue μ] in
theorem load_parts (worldSize size : Nat) (arguments : Arguments ρ)
    (store : Store ρ τ ν μ) :
    (arguments.map fun a => (a.1, parts worldSize size (store a.2))) =
      (load arguments store).map fun a => (a.1, parts worldSize size a.2) := by
  simp [load]

theorem WorkerCall.invisible_of_dvd {call : WorkerCall ρ τ ν μ}
    (haccepted : Accepted autoPadding call.arguments store)
    (hdvd : call.worldSize ∣ rowCount call.arguments store) :
    call.Invisible autoPadding store store := by
  obtain ⟨hn, hobjects⟩ := haccepted
  obtain ⟨size, hsize⟩ := hdvd
  have hw := call.worldSize_pos
  have hpos : 0 < size := by
    refine Nat.pos_of_ne_zero fun hzero => ?_
    rw [hsize, hzero, Nat.mul_zero] at hn
    omega
  have hzero : paddingSizeFor (rowCount call.arguments store)
      call.worldSize = 0 :=
    (paddingSizeFor_eq_zero_iff hw).mpr ⟨size, hsize⟩
  obtain ⟨state, hstate, hsplit⟩ :=
    splitArguments_of_dvd (.inl rfl) hobjects hn hsize
  have hcount : (state.map Prod.snd).getD 0 = 0 := by
    rcases hstate with rfl | rfl
    · rfl
    · exact hzero
  have hload : ∀ a ∈ load call.arguments store,
      a.2.HasRows (call.worldSize * size) := by
    intro a ha
    obtain ⟨a', ha', rfl⟩ := List.mem_map.mp ha
    exact hsize ▸ (hobjects a' ha').1
  have hne : load call.arguments store ≠ [] := by
    simpa [load] using call.arguments_ne_nil
  have hconcat := concat_run call.worker hne hw hload
  have hrows : (call.worker.run 0 (load call.arguments store)).rows =
      (argumentRows (load call.arguments store)).map
        call.worker.schema.row :=
    Schema.rows_build call.worker.hasColumn _
  have hnonempty : (List.range call.worldSize).isEmpty = false := by
    rw [List.isEmpty_eq_false_iff, ne_eq, List.range_eq_nil]
    omega
  cases hblocking : call.blocking with
  | true =>
      refine ⟨.proto (call.worker.run 0 (load call.arguments store)), _, ?_,
        rfl, hrows⟩
      simp only [WorkerCall.run, funcGenerator, hsplit]
      rw [load_parts, executeAll_parts, ok_bind, collectDpComputeDataProto,
        hblocking, hcount]
      simp [hnonempty, pyAssert, hconcat, ok_bind, undoPadding, Functor.map,
        Except.map]
  | false =>
      refine ⟨.future _, _, ?_, hconcat, hrows⟩
      simp only [WorkerCall.run, funcGenerator, hsplit]
      rw [load_parts, executeAll_parts, ok_bind, collectDpComputeDataProto,
        hblocking, hcount]
      simp [hnonempty, pyAssert, ok_bind, undoPadding, pure, Except.pure]

/-- Without a divisor the first object is padded, or the call fails. -/
theorem WorkerCall.not_invisible_of_not_dvd {call : WorkerCall ρ τ ν μ}
    (haccepted : Accepted autoPadding call.arguments store)
    (hdvd : ¬ call.worldSize ∣ rowCount call.arguments store) :
    ¬ call.Invisible autoPadding store store := by
  rintro ⟨output, data, hrun, -, -⟩
  obtain ⟨size, hsize⟩ := add_paddingSizeFor
    (rowCount call.arguments store) call.worldSize_pos
  obtain ⟨hn, hobjects⟩ := haccepted
  rw [WorkerCall.run, funcGenerator] at hrun
  split at hrun
  · simp at hrun
  · rename_i splitted state store' hsplit
    rw [Prod.mk.injEq] at hrun
    obtain ⟨-, rfl⟩ := hrun
    obtain ⟨hnodup, hmerges⟩ := nodup_of_splitArguments (.inl rfl) hobjects
      hn hdvd hsize hsplit
    obtain ⟨state', padded, -, hresult, -, hpads⟩ := splitArguments_of_nodup
      (.inl rfl) hobjects hn hdvd hsize hnodup hmerges
    rw [hsplit, Prod.mk.injEq] at hresult
    obtain ⟨-, rfl⟩ := hresult
    obtain ⟨a, ha⟩ := List.exists_mem_of_ne_nil _ call.arguments_ne_nil
    have hlength := DataProto.length_of_hasRows (hpads a ha).1
    rw [DataProto.length_of_hasRows (hobjects a ha).1] at hlength
    exact hdvd ((paddingSizeFor_eq_zero_iff call.worldSize_pos).mp (by omega))

/-- In a sequence of calls each is invisible exactly when every world size
divides the number of rows of its arguments. -/
theorem allInvisible_iff {calls : List (WorkerCall ρ τ ν μ)}
    (haccepted : ∀ call ∈ calls, Accepted autoPadding call.arguments store) :
    AllInvisible autoPadding store calls store ↔
      ∀ call ∈ calls, call.worldSize ∣ rowCount call.arguments store := by
  induction calls with
  | nil => simp [AllInvisible]
  | cons call calls ih =>
      have hcall := haccepted call List.mem_cons_self
      have hcalls := ih fun c hc => haccepted c (List.mem_cons_of_mem call hc)
      rw [List.forall_mem_cons, ← hcalls, AllInvisible]
      constructor
      · rintro ⟨hfirst, hrest⟩
        refine ⟨?_, ?_⟩
        · by_contra hdvd
          exact WorkerCall.not_invisible_of_not_dvd hcall hdvd hfirst
        · obtain ⟨output, data, hrun, -⟩ := hfirst
          rwa [hrun] at hrest
      · rintro ⟨hdvd, hrest⟩
        have hfirst := WorkerCall.invisible_of_dvd hcall hdvd
        refine ⟨hfirst, ?_⟩
        obtain ⟨output, data, hrun, -⟩ := hfirst
        rw [hrun]
        exact hrest

end Calls

section Examples

/-- Rows numbered from zero, with auto padding. -/
def numberedSchema : Schema ℕ ℕ ℕ Bool where
  tensors := some (PyDict.ofKeys ["a"] (List.nodup_singleton _)
    fun _ => (some 1, id))
  objects := PyDict.empty
  metaInfo := PyDict.ofKeys ["_verl_auto_padding"] (List.nodup_singleton _)
    fun _ => true

def numberedRows (n : Nat) : DataProto ℕ ℕ Bool :=
  numberedSchema.build (List.range n)

/-- A method that counts the arguments of a row. -/
def countArguments : RowWise ℕ ℕ Bool where
  schema :=
    { tensors := some
        (PyDict.ofKeys ["count"] (List.nodup_singleton _)
          fun _ => (some 1, List.length))
      objects := PyDict.empty
      metaInfo := PyDict.empty }
  hasColumn := .inl (by simp)
  noMetrics := by decide

def countCall : WorkerCall Unit ℕ ℕ Bool where
  worldSize := 2
  arguments := [(none, ())]
  worker := countArguments
  blocking := true
  worldSize_pos := by decide
  arguments_ne_nil := by decide

theorem accepted_numberedRows {n : Nat} (hn : 0 < n) :
    Accepted false countCall.arguments fun _ => numberedRows n := by
  have hcolumn : numberedSchema.HasColumn := .inl (by simp [numberedSchema])
  have hrows := DataProto.hasRows_build hcolumn (List.range n)
  rw [List.length_range] at hrows
  have hcount : rowCount countCall.arguments (fun _ => numberedRows n) = n :=
    DataProto.length_of_hasRows hrows
  rw [Accepted, hcount]
  exact ⟨hn, fun _ _ => ⟨hrows, rfl⟩⟩

theorem allInvisible_iff_four_rows :
    (AllInvisible false (fun _ => numberedRows 4) [countCall, countCall]
        (fun _ => numberedRows 4) ↔
      ∀ call ∈ [countCall, countCall], call.worldSize ∣
        rowCount call.arguments fun _ => numberedRows 4) ∧
      ∀ call ∈ [countCall, countCall], call.worldSize ∣
        rowCount call.arguments fun _ => numberedRows 4 := by
  constructor
  · refine allInvisible_iff fun call hcall => ?_
    have heq : call = countCall := by simpa using hcall
    exact heq ▸ accepted_numberedRows (by decide)
  · intro call hcall
    have heq : call = countCall := by simpa using hcall
    rw [heq]
    decide

/-- Three rows over two workers leave the caller with four rows. -/
theorem allInvisible_fails :
    ¬ AllInvisible false (fun _ => numberedRows 3) [countCall]
      fun _ => numberedRows 3 := by
  rintro ⟨hfirst, -⟩
  exact WorkerCall.not_invisible_of_not_dvd
    (accepted_numberedRows (by decide)) (by decide) hfirst

end Examples

/-- A call in mode `DP_COMPUTE_METRIC`: its outputs are collected as they
are. -/
structure MetricCall (ρ τ ν μ γ : Type) where
  worldSize : Nat
  arguments : Arguments ρ
  worker : Nat → Arguments (DataProto τ ν μ) → γ
  worldSize_pos : 0 < worldSize
  arguments_ne_nil : arguments ≠ []

/-- The rows of a part of `n` rows after padding. -/
def chunkSize (n worldSize : Nat) : Nat :=
  (n + paddingSizeFor n worldSize) / worldSize

/-- The part of worker `i` holds one of the first `n` rows. -/
def HoldsOriginalRow (n worldSize i : Nat) : Prop :=
  ∃ k ∈ Schema.piece (chunkSize n worldSize)
    (List.range (n + paddingSizeFor n worldSize)) i, k < n

section Metrics

variable [DecidableEq ρ] [DecidableEq μ] [MetaValue μ] (autoPadding : Bool)

def MetricCall.run (call : MetricCall ρ τ ν μ γ) (store : Store ρ τ ν μ) :
    Py (Collected γ τ ν μ) × Store ρ τ ν μ :=
  funcGenerator autoPadding call.worldSize call.worker collectDpCompute
    call.arguments store

/-- The call returns a list that holds the output of every worker whose part
holds an original row. -/
def MetricCall.KeepsEveryResult (call : MetricCall ρ τ ν μ γ)
    (store : Store ρ τ ν μ) : Prop :=
  let n := rowCount call.arguments store
  let size := chunkSize n call.worldSize
  ∃ output store', call.run autoPadding store = (.ok (.list output), store') ∧
    ∀ i < call.worldSize, HoldsOriginalRow n call.worldSize i →
      output[i]? = some (call.worker i
        ((load call.arguments store').map fun a =>
          (a.1, a.2.slice (i * size) ((i + 1) * size))))

/-- Padding the arguments raises nothing: no object is passed twice, and each
`meta_info` merges with itself. -/
def PaddingSucceeds (arguments : Arguments ρ) (store : Store ρ τ ν μ) : Prop :=
  (arguments.map Prod.snd).Nodup ∧
    ∀ a ∈ arguments, (store a.2).MetaMergeable

theorem holdsOriginalRow_iff {n worldSize i : Nat} (hn : 0 < n)
    (hi : i < worldSize) :
    HoldsOriginalRow n worldSize i ↔ i * chunkSize n worldSize < n := by
  obtain ⟨size, hsize⟩ := add_paddingSizeFor n (i.zero_le.trans_lt hi)
  have hchunk : chunkSize n worldSize = size := by
    rw [chunkSize, hsize, Nat.mul_div_cancel_left size (i.zero_le.trans_lt hi)]
  have hpos : 0 < size := by
    refine Nat.pos_of_ne_zero fun hzero => ?_
    rw [hzero, Nat.mul_zero] at hsize
    omega
  have hroom : (i + 1) * size ≤ worldSize * size :=
    Nat.mul_le_mul_right size hi
  have hsucc := Nat.succ_mul i size
  rw [HoldsOriginalRow, hchunk]
  constructor
  · rintro ⟨k, hk, hlt⟩
    obtain ⟨j, hj, rfl⟩ := List.mem_iff_getElem.mp hk
    simp only [Schema.piece, List.getElem_drop, List.getElem_take,
      List.getElem_range] at hlt
    omega
  · intro hlt
    refine ⟨i * size, List.mem_iff_getElem.mpr ⟨0, ?_, ?_⟩, hlt⟩
    · rw [Schema.length_piece (by rw [List.length_range, hsize]) hi]
      exact hpos
    · simp [Schema.piece]

omit [DecidableEq μ] [MetaValue μ] in
theorem undoPadding_list (k : Nat) (output : List γ) :
    undoPadding k (.list output : Collected γ τ ν μ) =
      .ok (.list (output.take (output.length - k))) := by
  unfold undoPadding
  split
  · rfl
  · have hzero : k = 0 := by omega
    subst hzero
    simp

variable {autoPadding} {store store' : Store ρ τ ν μ}
  {call : MetricCall ρ τ ν μ γ}

/-- The output list of a call whose arguments are split loses as many workers
at its end as rows were added. -/
theorem MetricCall.run_eq {size : Nat} {state : PaddingState}
    (hsplit : splitArguments autoPadding call.worldSize none call.arguments
      store = (.ok (call.arguments.map fun a =>
        (a.1, parts call.worldSize size (store' a.2)), state), store')) :
    call.run autoPadding store =
      (.ok (.list (((List.range call.worldSize).map fun i => call.worker i
        ((load call.arguments store').map fun a =>
          (a.1, a.2.slice (i * size) ((i + 1) * size)))).take
            (call.worldSize - (state.map Prod.snd).getD 0))), store') := by
  simp only [MetricCall.run, funcGenerator, hsplit]
  rw [load_parts, executeAll_parts, ok_bind, collectDpCompute,
    List.length_map, List.length_range, beq_self_eq_true, pyAssert_true,
    ok_bind]
  simp only [pure, Except.pure, ok_bind]
  rw [undoPadding_list, List.length_map, List.length_range]

theorem chunkSize_eq {n size worldSize : Nat} (hw : 0 < worldSize)
    (hsize : n + paddingSizeFor n worldSize = worldSize * size) :
    chunkSize n worldSize = size := by
  rw [chunkSize, hsize, Nat.mul_div_cancel_left size hw]

theorem keepsEveryResult_of_dvd
    (haccepted : Accepted autoPadding call.arguments store)
    (hdvd : call.worldSize ∣ rowCount call.arguments store) :
    call.KeepsEveryResult autoPadding store := by
  obtain ⟨hn, hobjects⟩ := haccepted
  have hzero := (paddingSizeFor_eq_zero_iff call.worldSize_pos).mpr hdvd
  obtain ⟨size, hrows⟩ := hdvd
  have hchunk := chunkSize_eq call.worldSize_pos
    (by rw [hzero]; exact hrows)
  obtain ⟨state, hstate, hsplit⟩ :=
    splitArguments_of_dvd (.inl rfl) hobjects hn hrows
  have hcount : (state.map Prod.snd).getD 0 = 0 := by
    rcases hstate with rfl | rfl
    · rfl
    · exact hzero
  refine ⟨_, store, MetricCall.run_eq hsplit, fun i hi _ => ?_⟩
  rw [hcount, Nat.sub_zero, hchunk, List.getElem?_take_of_lt hi,
    List.getElem?_map, List.getElem?_range hi]
  rfl

/-- With one row a part the workers that are cut off hold padding only. -/
theorem keepsEveryResult_of_le
    (haccepted : Accepted autoPadding call.arguments store)
    (hdvd : ¬ call.worldSize ∣ rowCount call.arguments store)
    (hle : rowCount call.arguments store ≤ call.worldSize)
    (hpadding : PaddingSucceeds call.arguments store) :
    call.KeepsEveryResult autoPadding store := by
  obtain ⟨hn, hobjects⟩ := haccepted
  have hw := call.worldSize_pos
  obtain ⟨size, hsize⟩ :=
    add_paddingSizeFor (rowCount call.arguments store) hw
  have hlt := paddingSizeFor_lt (n := rowCount call.arguments store) hw
  obtain ⟨state, padded, hstate, hsplit, -, -⟩ := splitArguments_of_nodup
    (.inl rfl) hobjects hn hdvd hsize hpadding.1 hpadding.2
  refine ⟨_, padded, MetricCall.run_eq hsplit, fun i hi hholds => ?_⟩
  have hrow := (holdsOriginalRow_iff hn hi).mp hholds
  rw [chunkSize_eq hw hsize] at hrow ⊢
  have hone : size = 1 := by
    have hbound : call.worldSize * size < call.worldSize * 2 := by omega
    have hlt2 := Nat.lt_of_mul_lt_mul_left hbound
    have hne : size ≠ 0 := by
      rintro rfl
      omega
    omega
  have hkept : i < call.worldSize - paddingSizeFor
      (rowCount call.arguments store) call.worldSize := by
    subst hone
    omega
  rw [hstate (.inr call.arguments_ne_nil)]
  simp only [Option.map_some, Option.getD_some]
  rw [List.getElem?_take_of_lt hkept, List.getElem?_map,
    List.getElem?_range hi]
  rfl

/-- With two rows a part the first worker that is cut off holds an original
row. -/
theorem le_of_keepsEveryResult
    (haccepted : Accepted autoPadding call.arguments store)
    (hdvd : ¬ call.worldSize ∣ rowCount call.arguments store)
    (h : call.KeepsEveryResult autoPadding store) :
    rowCount call.arguments store ≤ call.worldSize ∧
      PaddingSucceeds call.arguments store := by
  obtain ⟨hn, hobjects⟩ := haccepted
  have hw := call.worldSize_pos
  obtain ⟨size, hsize⟩ :=
    add_paddingSizeFor (rowCount call.arguments store) hw
  have hlt := paddingSizeFor_lt (n := rowCount call.arguments store) hw
  have hpos : paddingSizeFor (rowCount call.arguments store)
      call.worldSize ≠ 0 := fun hzero =>
    hdvd ((paddingSizeFor_eq_zero_iff hw).mp hzero)
  obtain ⟨output, store', hrun, hkept⟩ := h
  cases hsplit : splitArguments autoPadding call.worldSize none
      call.arguments store with
  | mk result last =>
      cases result with
      | error e =>
          rw [MetricCall.run, funcGenerator, hsplit] at hrun
          simp at hrun
      | ok splitted =>
          obtain ⟨hnodup, hmerges⟩ := nodup_of_splitArguments (.inl rfl)
            hobjects hn hdvd hsize hsplit
          refine ⟨?_, hnodup, hmerges⟩
          obtain ⟨state, padded, hstate, hresult, -, -⟩ :=
            splitArguments_of_nodup (.inl rfl) hobjects hn hdvd hsize
              hnodup hmerges
          have hlist := MetricCall.run_eq hresult
          rw [hstate (.inr call.arguments_ne_nil), hrun, Prod.mk.injEq,
            Except.ok.injEq, Collected.list.injEq] at hlist
          obtain ⟨rfl, rfl⟩ := hlist
          by_contra hmany
          have htwo : 2 ≤ size := by
            by_contra hsmall
            have hle : call.worldSize * size ≤ call.worldSize * 1 :=
              Nat.mul_le_mul_left call.worldSize (by omega)
            omega
          have hcut : (call.worldSize - paddingSizeFor
              (rowCount call.arguments store) call.worldSize) * size <
                rowCount call.arguments store := by
            have hprod : paddingSizeFor (rowCount call.arguments store)
                call.worldSize * 2 ≤ paddingSizeFor
                  (rowCount call.arguments store) call.worldSize * size :=
              Nat.mul_le_mul_left _ htwo
            rw [Nat.sub_mul, ← hsize]
            omega
          have hlost := hkept (call.worldSize - paddingSizeFor
            (rowCount call.arguments store) call.worldSize) (by omega)
            ((holdsOriginalRow_iff hn (by omega)).mpr
              (by rw [chunkSize_eq hw hsize]; exact hcut))
          rw [List.getElem?_eq_none (by simp)] at hlost
          cases hlost

/-- Every result is kept exactly when nothing is padded, or every part has one
row and padding succeeds. -/
theorem keepsEveryResult_iff
    (haccepted : Accepted autoPadding call.arguments store) :
    call.KeepsEveryResult autoPadding store ↔
      call.worldSize ∣ rowCount call.arguments store ∨
        rowCount call.arguments store ≤ call.worldSize ∧
          PaddingSucceeds call.arguments store := by
  by_cases hdvd : call.worldSize ∣ rowCount call.arguments store
  · exact iff_of_true (keepsEveryResult_of_dvd haccepted hdvd) (.inl hdvd)
  · rw [or_iff_right hdvd]
    exact ⟨le_of_keepsEveryResult haccepted hdvd,
      fun h => keepsEveryResult_of_le haccepted hdvd h.1 h.2⟩

end Metrics

section MetricExamples

/-- A metric of the rows of a part. -/
def lengthCall (worldSize : Nat) (hpos : 0 < worldSize) :
    MetricCall Unit ℕ ℕ Bool (List Nat) where
  worldSize := worldSize
  arguments := [(none, ())]
  worker _ arguments := arguments.map fun a => a.2.length
  worldSize_pos := hpos
  arguments_ne_nil := by decide

theorem keepsEveryResult_iff_three_rows :
    ((lengthCall 4 (by decide)).KeepsEveryResult false
        (fun _ => numberedRows 3) ↔
      4 ∣ rowCount countCall.arguments (fun _ => numberedRows 3) ∨
        rowCount countCall.arguments (fun _ => numberedRows 3) ≤ 4 ∧
          PaddingSucceeds countCall.arguments fun _ => numberedRows 3) :=
  keepsEveryResult_iff (accepted_numberedRows (by decide))

/-- Of five rows over four workers the last two rows are lost. -/
theorem keepsEveryResult_fails :
    ¬ (lengthCall 4 (by decide)).KeepsEveryResult false
      fun _ => numberedRows 5 := by
  intro h
  have hle := le_of_keepsEveryResult (accepted_numberedRows (by decide))
    (by decide) h
  exact absurd hle.1 (by decide)

end MetricExamples

end SelfDistillation
