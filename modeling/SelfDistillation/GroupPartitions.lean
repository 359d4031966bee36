/-
`get_group_balanced_partitions` (verl/utils/seqlen_balancing.py): samples are
partitioned by runs of one uid, found by a loop that starts from a `None`
sentinel; which uids end up in one partition.
-/
import SelfDistillation.BalanceBatch
import SelfDistillation.Library.Runs
import SelfDistillation.PartitionSpread

namespace SelfDistillation

namespace GroupPartitions

open Runs

variable {ν : Type} [DecidableEq ν]

/-- What the loop over the samples carries; the uid `none` is Python's
`None`. -/
structure GroupState (ν : Type) where
  groups : List (List Nat × Int)
  currentUid : Option ν
  currentIndices : List Nat
  currentSeqlen : Int

/-- The state before the loop. -/
def GroupState.init : GroupState ν := ⟨[], none, [], 0⟩

/-- The groups with the current one, if it has a sample. -/
def GroupState.flush (state : GroupState ν) : List (List Nat × Int) :=
  if state.currentIndices.isEmpty then state.groups
  else state.groups ++ [(state.currentIndices, state.currentSeqlen)]

/-- The body of the loop. -/
def groupStep (state : GroupState ν) (sample : (Int × Option ν) × Nat) :
    GroupState ν :=
  if sample.1.2 ≠ state.currentUid then
    { groups := state.flush
      currentUid := sample.1.2
      currentIndices := [sample.2]
      currentSeqlen := sample.1.1 }
  else
    { state with
      currentIndices := state.currentIndices ++ [sample.2]
      currentSeqlen := state.currentSeqlen + sample.1.1 }

/-- `groups` -/
def buildGroups (seqlenList : List Int) (uidList : List (Option ν)) :
    List (List Nat × Int) :=
  ((seqlenList.zip uidList).zipIdx.foldl groupStep .init).flush

/-- `get_group_balanced_partitions` -/
def getGroupBalancedPartitions (seqlenList : List Int)
    (uidList : List (Option ν)) (kPartitions : Nat) :
    Py (List (List Nat)) := do
  pyAssert (seqlenList.length == uidList.length)
    "seqlen_list and uid_list must have same length"
  let groups := buildGroups seqlenList uidList
  pyAssert (groups.length ≥ kPartitions)
    (s!"Number of uid groups ({groups.length}) must be >= k_partitions " ++
      s!"({kPartitions}). Consider reducing world_size or increasing " ++
      s!"batch_size.")
  let groupWorkloads := groups.map fun group =>
    (group.1.map fun i =>
      (calculateWorkload [seqlenList.getD i 0]).sum).sum
  let groupPartitions ←
    getSeqlenBalancedPartitions groupWorkloads kPartitions true
  return groupPartitions.map fun groupPartition =>
    sortedPartition
      (groupPartition.flatMap fun group => (groups.getD group ([], 0)).1)

/-- The uid of a sample. -/
def uidOf (uidList : List (Option ν)) (i : Nat) : Option ν :=
  uidList.getD i none

section Loop

/-- What the loop knows after `n` samples. -/
structure LoopInvariant (uid : Nat → Option ν) (n : Nat)
    (state : GroupState ν) : Prop where
  runs : IsRuns uid n (state.flush.map Prod.fst)
  start : n = 0 → state = .init
  last : ∀ m, n = m + 1 →
    m ∈ state.currentIndices ∧ state.currentUid = uid m

variable {uid : Nat → Option ν} {n : Nat} {state : GroupState ν}

omit [DecidableEq ν] in
theorem LoopInvariant.init (uid : Nat → Option ν) :
    LoopInvariant uid 0 (.init : GroupState ν) where
  runs := IsRuns.nil uid
  start := fun _ => rfl
  last := by
    intro m hm
    omega

omit [DecidableEq ν] in
theorem map_fst_flush (h : state.currentIndices ≠ []) :
    state.flush.map Prod.fst =
      state.groups.map Prod.fst ++ [state.currentIndices] := by
  simp [GroupState.flush, h]

/-- A sample whose uid is another one than before. -/
theorem LoopInvariant.step_new (h : LoopInvariant uid n state) (seqlen : Int)
    (huid : uid n ≠ state.currentUid) :
    LoopInvariant uid (n + 1) (groupStep state ((seqlen, uid n), n)) := by
  rw [groupStep, if_pos huid]
  constructor
  · rw [map_fst_flush (List.cons_ne_nil n [])]
    apply h.runs.snoc_new
    intro m hm heq
    rw [(h.last m hm).2] at huid
    exact huid heq.symm
  · intro hn
    cases hn
  · intro m hm
    obtain rfl : n = m := Nat.succ.inj hm
    exact ⟨List.mem_singleton_self n, rfl⟩

/-- A sample with the uid before it, or with the uid `None` at the start. -/
theorem LoopInvariant.step_same (h : LoopInvariant uid n state) (seqlen : Int)
    (huid : uid n = state.currentUid) :
    LoopInvariant uid (n + 1) (groupStep state ((seqlen, uid n), n)) := by
  have hne : state.currentIndices ++ [n] ≠ [] := by simp
  rw [groupStep, if_neg (not_not.mpr huid)]
  constructor
  · rw [map_fst_flush hne]
    cases hn : n with
    | zero =>
        rw [h.start hn]
        exact (IsRuns.nil uid).snoc_new fun m hm => by cases hm
    | succ m =>
        obtain ⟨hmem, hlast⟩ := h.last m hn
        have hruns := h.runs
        rw [map_fst_flush (List.ne_nil_of_mem hmem)] at hruns
        rw [← hn]
        apply hruns.snoc_same
        · intro m' hm'
          obtain ⟨hmem', hlast'⟩ := h.last m' hm'
          exact ⟨hmem', hlast'.symm.trans huid.symm⟩
        · omega
  · intro hn
    cases hn
  · intro m hm
    obtain rfl : n = m := Nat.succ.inj hm
    exact ⟨List.mem_append_right _ (List.mem_singleton_self n), huid.symm⟩

theorem LoopInvariant.step (h : LoopInvariant uid n state) (seqlen : Int) :
    LoopInvariant uid (n + 1) (groupStep state ((seqlen, uid n), n)) := by
  by_cases huid : uid n = state.currentUid
  · exact h.step_same seqlen huid
  · exact h.step_new seqlen huid

/-- The loop over the samples that are left, by induction on them. -/
theorem LoopInvariant.foldl (h : LoopInvariant uid n state)
    (samples : List (Int × Option ν))
    (huid : ∀ j (hj : j < samples.length), samples[j].2 = uid (n + j)) :
    LoopInvariant uid (n + samples.length)
      ((samples.zipIdx n).foldl groupStep state) := by
  induction samples generalizing n state with
  | nil => exact h
  | cons sample samples ih =>
      have hfirst : sample.2 = uid n := huid 0 (Nat.succ_pos _)
      rw [List.zipIdx_cons, List.foldl_cons, List.length_cons,
        ← Nat.add_assoc, Nat.add_right_comm]
      apply ih
      · have hstep := h.step sample.1
        rw [← hfirst] at hstep
        exact hstep
      · intro j hj
        have hnext := huid (j + 1) (Nat.succ_lt_succ hj)
        rw [List.getElem_cons_succ] at hnext
        rw [hnext, Nat.add_assoc, Nat.add_comm 1 j]

/-- The groups are the runs of the uids. -/
theorem isRuns_buildGroups {seqlenList : List Int}
    {uidList : List (Option ν)} (hlen : seqlenList.length = uidList.length) :
    IsRuns (uidOf uidList) uidList.length
      ((buildGroups seqlenList uidList).map Prod.fst) := by
  have hzip : (seqlenList.zip uidList).length = uidList.length := by
    rw [List.length_zip, hlen, Nat.min_self]
  have hloop := (LoopInvariant.init (uidOf uidList)).foldl
    (seqlenList.zip uidList) (by
      intro j hj
      have hj' : j < uidList.length := hzip ▸ hj
      simp [uidOf, hj'])
  rw [Nat.zero_add, hzip] at hloop
  exact hloop.runs

end Loop

section Agreement

/-- The loop, once it has a current group, against the cutting of a list where
a value differs from the one before. -/
theorem map_fst_foldl {sameUid : Option ν × Nat → Option ν × Nat → Bool}
    (hsameUid : ∀ a b, sameUid a b = true ↔ a.1 = b.1)
    (samples : List (Int × Option ν)) (n : Nat)
    (state : GroupState ν) (last : Option ν × Nat)
    (current : List (Option ν × Nat)) (done : List (List (Option ν × Nat)))
    (hgroups : state.groups.map Prod.fst =
      done.reverse.map (List.map Prod.snd))
    (hindices : state.currentIndices =
      (last :: current).reverse.map Prod.snd)
    (huid : state.currentUid = last.1) :
    ((samples.zipIdx n).foldl groupStep state).flush.map Prod.fst =
      (List.splitBy.loop sameUid ((samples.map Prod.snd).zipIdx n) last
        current done).map (List.map Prod.snd) := by
  have hne : state.currentIndices ≠ [] := by simp [hindices]
  induction samples generalizing n state last current done with
  | nil =>
      rw [List.zipIdx_nil, List.foldl_nil, map_fst_flush hne, hgroups,
        hindices]
      simp [List.splitBy.loop]
  | cons sample samples ih =>
      rw [List.zipIdx_cons, List.foldl_cons, List.map_cons, List.zipIdx_cons,
        List.splitBy.loop]
      by_cases hsame : last.1 = sample.2
      · have hstep : groupStep state (sample, n) = { state with
            currentIndices := state.currentIndices ++ [n]
            currentSeqlen := state.currentSeqlen + sample.1 } :=
          if_neg (not_not.mpr (hsame.symm.trans huid.symm))
        rw [hstep, (hsameUid last (sample.2, n)).mpr hsame]
        apply ih
        · exact hgroups
        · simp [hindices]
        · exact huid.trans hsame
        · simp
      · have hstep : groupStep state (sample, n) =
            { groups := state.flush
              currentUid := sample.2
              currentIndices := [n]
              currentSeqlen := sample.1 } :=
          if_pos fun heq => hsame (huid.symm.trans heq.symm)
        rw [hstep, Bool.eq_false_iff.mpr
          fun h => hsame ((hsameUid last (sample.2, n)).mp h)]
        apply ih
        · rw [map_fst_flush hne, hgroups, hindices]
          simp
        · rfl
        · rfl
        · simp

/-- After one sample there is one group, also when its uid is `None`. -/
theorem groupStep_init (seqlen : Int) (uid : Option ν) :
    groupStep .init ((seqlen, uid), 0) = ⟨[], uid, [0], seqlen⟩ := by
  by_cases h : uid = none <;>
    simp [groupStep, GroupState.init, GroupState.flush, h]

/-- The groups of the loop are those a list is cut into where the uid
changes. -/
theorem map_fst_buildGroups {seqlenList : List Int}
    {uidList : List (Option ν)} (hlen : seqlenList.length = uidList.length) :
    (buildGroups seqlenList uidList).map Prod.fst = uidGroups uidList := by
  cases seqlenList with
  | nil =>
      have hnil : uidList = [] := List.length_eq_zero_iff.mp hlen.symm
      subst hnil
      rfl
  | cons seqlen seqlenList =>
      obtain ⟨uid, uidList, rfl⟩ := List.exists_of_length_succ _ hlen.symm
      have huids : (seqlenList.zip uidList).map Prod.snd = uidList := by
        apply List.map_snd_zip
        simp only [List.length_cons] at hlen
        omega
      rw [buildGroups, List.zip_cons_cons, List.zipIdx_cons, List.foldl_cons,
        uidGroups, List.zipIdx_cons, List.splitBy, groupStep_init,
        map_fst_foldl ?_ (seqlenList.zip uidList) _ _ (uid, 0) [] [] rfl rfl
          rfl, huids]
      intro a b
      exact decide_eq_true_iff

/-- The loop computes the partitions of `_balance_batch`. -/
theorem getGroupBalancedPartitions_eq (seqlenList : List Int)
    (uidList : List (Option ν)) (kPartitions : Nat) :
    getGroupBalancedPartitions seqlenList uidList kPartitions =
      SelfDistillation.getGroupBalancedPartitions seqlenList uidList
        kPartitions := by
  by_cases hlen : seqlenList.length = uidList.length
  · have hcount : (buildGroups seqlenList uidList).length =
        (uidGroups uidList).length := by
      rw [← map_fst_buildGroups hlen, List.length_map]
    have hget : ∀ g, ((buildGroups seqlenList uidList).getD g ([], 0)).1 =
        (uidGroups uidList).getD g [] := by
      intro g
      rw [← map_fst_buildGroups hlen]
      rw [List.getD_eq_getElem?_getD, List.getD_eq_getElem?_getD,
        List.getElem?_map]
      cases (buildGroups seqlenList uidList)[g]? <;> rfl
    have hworkloads : ∀ f : List Nat → Int,
        ((buildGroups seqlenList uidList).map fun group => f group.1) =
          (uidGroups uidList).map f := by
      intro f
      rw [← map_fst_buildGroups hlen, List.map_map]
      rfl
    simp only [getGroupBalancedPartitions,
      SelfDistillation.getGroupBalancedPartitions, hcount, hget]
    rw [hworkloads fun indices => (indices.map fun i =>
      (calculateWorkload [seqlenList.getD i 0]).sum).sum]
  · simp [getGroupBalancedPartitions,
      SelfDistillation.getGroupBalancedPartitions, hlen, pyAssert]
    rfl

end Agreement

/-- No uid has samples in two of the partitions. -/
def NeverSplit (uidList : List (Option ν)) (partitions : List (List Nat)) :
    Prop :=
  ∀ (p q : Nat) (hp : p < partitions.length) (hq : q < partitions.length),
    ∀ i ∈ partitions[p], ∀ j ∈ partitions[q],
      uidOf uidList i = uidOf uidList j → p = q

/-- The number of uids of some samples. -/
def uidCount (uidList : List (Option ν)) (samples : List Nat) : Nat :=
  (samples.map (uidOf uidList)).dedup.length

/-- What the partitions of contiguous uids are to be. -/
structure GroupsKept (uidList : List (Option ν)) (k : Nat)
    (partitions : List (List Nat)) : Prop where
  length : partitions.length = k
  perm : partitions.flatten.Perm (List.range uidList.length)
  neverSplit : NeverSplit uidList partitions
  even : ∀ p ∈ partitions, uidCount uidList p * k =
    uidCount uidList (List.range uidList.length)

/-- Contiguous uids give the partitions they are to give, and no uids are
split. -/
def KeepsGroups (seqlenList : List Int) (uidList : List (Option ν))
    (k : Nat) : Prop :=
  (Contiguous (uidOf uidList) uidList.length →
    k ∣ uidCount uidList (List.range uidList.length) →
    ∃ partitions, getGroupBalancedPartitions seqlenList uidList k =
      .ok partitions ∧ GroupsKept uidList k partitions) ∧
  ∀ partitions, getGroupBalancedPartitions seqlenList uidList k =
    .ok partitions → NeverSplit uidList partitions

section Partitions

variable {seqlenList : List Int} {uidList : List (Option ν)} {k : Nat}

theorem isRuns_uidGroups (uidList : List (Option ν)) :
    IsRuns (uidOf uidList) uidList.length (uidGroups uidList) := by
  have hlen : (uidList.map fun _ => (0 : Int)).length = uidList.length :=
    List.length_map _
  rw [← map_fst_buildGroups hlen]
  exact isRuns_buildGroups hlen

/-- `group_workloads` -/
def groupWorkloads (seqlenList : List Int) (groups : List (List Nat)) :
    List Int :=
  groups.map fun indices =>
    (indices.map fun i => (calculateWorkload [seqlenList.getD i 0]).sum).sum

/-- The samples of some groups. -/
def samplesOf (groups : List (List Nat)) (groupPartition : List Nat) :
    List Nat :=
  sortedPartition (groupPartition.flatMap fun group => groups.getD group [])

theorem getGroupBalancedPartitions_eq_ok
    (hlen : seqlenList.length = uidList.length)
    {partitions : List (List Nat)} :
    getGroupBalancedPartitions seqlenList uidList k = .ok partitions ↔
      k ≤ (uidGroups uidList).length ∧ ∃ groupPartitions,
        getSeqlenBalancedPartitions
          (groupWorkloads seqlenList (uidGroups uidList)) k true =
            .ok groupPartitions ∧
        partitions = groupPartitions.map (samplesOf (uidGroups uidList)) := by
  rw [getGroupBalancedPartitions_eq,
    SelfDistillation.getGroupBalancedPartitions]
  simp only [bind_eq_ok, pyAssert_eq_ok, beq_iff_eq, hlen, true_and,
    decide_eq_true_iff, ge_iff_le]
  constructor
  · rintro ⟨_, _, hk, groupPartitions, hparts, h⟩
    exact ⟨hk, groupPartitions, hparts, (Except.ok.inj h).symm⟩
  · rintro ⟨hk, groupPartitions, hparts, rfl⟩
    exact ⟨(), (), hk, groupPartitions, hparts, rfl⟩

theorem length_groupWorkloads (seqlenList : List Int)
    (groups : List (List Nat)) :
    (groupWorkloads seqlenList groups).length = groups.length := by
  rw [groupWorkloads, List.length_map]

theorem mem_samplesOf {groups : List (List Nat)} {groupPartition : List Nat}
    {i : Nat} : i ∈ samplesOf groups groupPartition ↔
      ∃ g ∈ groupPartition, i ∈ groups.getD g [] := by
  rw [samplesOf, (sortedPartition_perm _).mem_iff, List.mem_flatMap]

theorem flatten_samplesOf {groups groupPartitions : List (List Nat)} :
    (groupPartitions.map (samplesOf groups)).flatten.Perm
      (groupPartitions.flatten.flatMap fun g => groups.getD g []) := by
  induction groupPartitions with
  | nil => exact .refl _
  | cons groupPartition groupPartitions ih =>
      rw [List.map_cons, List.flatten_cons, List.flatten_cons,
        List.flatMap_append]
      exact (sortedPartition_perm _).append ih

theorem eq_of_mem_parts {parts : List (List Nat)} (h : parts.flatten.Nodup)
    {p q : Nat} (hp : p < parts.length) (hq : q < parts.length) {g : Nat}
    (hgp : g ∈ parts[p]) (hgq : g ∈ parts[q]) : p = q := by
  have hdisjoint := List.pairwise_iff_getElem.mp (List.nodup_flatten.mp h).2
  rcases Nat.lt_trichotomy p q with hlt | heq | hlt
  · exact absurd hgq (hdisjoint p q hp hq hlt hgp)
  · exact heq
  · exact absurd hgp (hdisjoint q p hq hp hlt hgq)

/-- With contiguous uids a uid is where its group is. -/
theorem neverSplit_of_contiguous {groupPartitions : List (List Nat)}
    (hc : Contiguous (uidOf uidList) uidList.length)
    (hperm : groupPartitions.flatten.Perm
      (List.range (uidGroups uidList).length)) :
    NeverSplit uidList (groupPartitions.map
      (samplesOf (uidGroups uidList))) := by
  intro p q hp hq i hi j hj huid
  rw [List.getElem_map] at hi hj
  obtain ⟨g, hg, hig⟩ := mem_samplesOf.mp hi
  obtain ⟨g', hg', hjg⟩ := mem_samplesOf.mp hj
  have hlt : ∀ {r : Nat} (hr : r < groupPartitions.length) {h : Nat},
      h ∈ groupPartitions[r] → h < (uidGroups uidList).length := by
    intro r hr h hmem
    rw [← List.mem_range, ← hperm.mem_iff]
    exact List.mem_flatten.mpr ⟨_, List.getElem_mem hr, hmem⟩
  rw [List.length_map] at hp hq
  have hgl := hlt hp hg
  have hgl' := hlt hq hg'
  rw [List.getD_eq_getElem _ _ hgl] at hig
  rw [List.getD_eq_getElem _ _ hgl'] at hjg
  obtain rfl :=
    (isRuns_uidGroups uidList).group_eq_of_key_eq hc hgl hgl' hig hjg huid
  exact eq_of_mem_parts (hperm.nodup_iff.mpr List.nodup_range) hp hq hg hg'

theorem uidCount_congr {left right : List Nat} (h : left.Perm right) :
    uidCount uidList left = uidCount uidList right :=
  (h.map _).dedup.length_eq

/-- Contiguous uids in a multiple of `k` groups are partitioned as they are
to be. -/
theorem exists_groupsKept (hk : 0 < k)
    (hlen : seqlenList.length = uidList.length) (hne : uidList ≠ [])
    (hc : Contiguous (uidOf uidList) uidList.length)
    (hdvd : k ∣ uidCount uidList (List.range uidList.length)) :
    ∃ partitions, getGroupBalancedPartitions seqlenList uidList k =
      .ok partitions ∧ GroupsKept uidList k partitions := by
  have hruns := isRuns_uidGroups uidList
  have hcount : uidCount uidList (List.range uidList.length) =
      (uidGroups uidList).length := hruns.length_groups hc
  have hgroups : uidGroups uidList ≠ [] := by
    intro hnil
    have hflat := hruns.flatten
    rw [hnil, List.flatten_nil, eq_comm, List.range_eq_nil,
      List.length_eq_zero_iff] at hflat
    exact hne hflat
  rw [hcount] at hdvd
  have hkn : k ≤ (uidGroups uidList).length :=
    Nat.le_of_dvd (List.length_pos_iff.mpr hgroups) hdvd
  have hworkloads :=
    length_groupWorkloads seqlenList (uidGroups uidList)
  obtain ⟨groupPartitions, hparts, hlength, hsizes, hperm⟩ :=
    exists_equalPartitions hk (hworkloads.symm ▸ hkn)
      (hworkloads.symm ▸ hdvd)
  rw [hworkloads] at hperm
  refine ⟨_, (getGroupBalancedPartitions_eq_ok hlen).mpr
    ⟨hkn, groupPartitions, hparts, rfl⟩, ?_, ?_, ?_, ?_⟩
  · rw [List.length_map, hlength]
  · apply flatten_samplesOf.trans
    rw [← hruns.flatten, ← flatMap_getD_range (uidGroups uidList)]
    exact hperm.flatMap_right _
  · exact neverSplit_of_contiguous hc hperm
  · intro p hp
    obtain ⟨groupPartition, hmem, rfl⟩ := List.mem_map.mp hp
    have hnodup := (List.nodup_flatten.mp
      (hperm.nodup_iff.mpr List.nodup_range)).1 groupPartition hmem
    have hlt : ∀ g ∈ groupPartition, g < (uidGroups uidList).length := by
      intro g hg
      rw [← List.mem_range, ← hperm.mem_iff]
      exact List.mem_flatten.mpr ⟨groupPartition, hmem, hg⟩
    rw [samplesOf, uidCount_congr (sortedPartition_perm _), uidCount,
      hruns.length_dedup_keys hc hnodup hlt, hsizes groupPartition hmem,
      hworkloads, hcount]

end Partitions

section Separated

variable {uidList : List (Option ν)} {k : Nat}

/-- Lengths that are 1 for two samples only. -/
def twoSamples (n i l : Nat) : List Int :=
  (List.range n).map fun x => if x = i ∨ x = l then 1 else 0

/-- The workload of one token. -/
def tokenWorkload : Int := (calculateWorkload [1]).sum

theorem tokenWorkload_pos : 0 < tokenWorkload := by decide

theorem sum_of_two {xs : List Nat} (hnodup : xs.Nodup) {i l : Nat}
    (hil : i ≠ l) (value : Int) :
    (xs.map fun x => if x = i ∨ x = l then value else 0).sum =
      (if i ∈ xs then value else 0) + (if l ∈ xs then value else 0) := by
  induction xs with
  | nil => simp
  | cons x xs ih =>
      obtain ⟨hx, hrest⟩ := List.nodup_cons.mp hnodup
      rw [List.map_cons, List.sum_cons, ih hrest]
      by_cases hi : x = i
      · subst hi
        simp [hx, hil.symm]
      · by_cases hl : x = l
        · subst hl
          simp [hx, Ne.symm hi, add_comm]
        · simp [hi, hl, Ne.symm hi, Ne.symm hl]

theorem workload_twoSamples {n i l x : Nat} (hx : x < n) :
    (calculateWorkload [(twoSamples n i l).getD x 0]).sum =
      if x = i ∨ x = l then tokenWorkload else 0 := by
  have hget : (twoSamples n i l).getD x 0 =
      if x = i ∨ x = l then 1 else 0 := by
    simp [twoSamples, hx]
  rw [hget]
  by_cases h : x = i ∨ x = l
  · rw [if_pos h, if_pos h]
    rfl
  · rw [if_neg h, if_neg h]
    rfl

omit [DecidableEq ν] in
/-- Of two samples in different groups, only their groups have a workload. -/
theorem groupWorkloads_twoSamples {key : Nat → Option ν} {n i l g g' : Nat}
    {groups : List (List Nat)} (hruns : IsRuns key n groups)
    (hg : g < groups.length) (hg' : g' < groups.length) (hgg' : g ≠ g')
    (hi : i ∈ groups[g]) (hl : l ∈ groups[g']) {h : Nat}
    (hh : h < groups.length) :
    (groupWorkloads (twoSamples n i l) groups).getD h 0 =
      if h = g ∨ h = g' then tokenWorkload else 0 := by
  have hil : i ≠ l := by
    rintro rfl
    exact hgg' (hruns.group_unique hg hg' hi hl)
  have hnodup : groups[h].Nodup := by
    have hflat : groups.flatten.Nodup := by
      rw [hruns.flatten]
      exact List.nodup_range
    exact (List.nodup_flatten.mp hflat).1 _ (List.getElem_mem hh)
  have hsum : (groupWorkloads (twoSamples n i l) groups).getD h 0 =
      (groups[h].map fun x =>
        if x = i ∨ x = l then tokenWorkload else 0).sum := by
    rw [groupWorkloads, List.getD_eq_getElem _ _ (by simpa using hh),
      List.getElem_map]
    apply congrArg
    apply List.map_congr_left
    intro x hx
    exact workload_twoSamples (hruns.lt_of_mem (List.getElem_mem hh) hx)
  have higroup : i ∈ groups[h] ↔ h = g := by
    constructor
    · exact fun hmem => hruns.group_unique hh hg hmem hi
    · rintro rfl
      exact hi
  have hlgroup : l ∈ groups[h] ↔ h = g' := by
    constructor
    · exact fun hmem => hruns.group_unique hh hg' hmem hl
    · rintro rfl
      exact hl
  rw [hsum, sum_of_two hnodup hil]
  simp only [higroup, hlgroup]
  by_cases h1 : h = g
  · simp [h1, hgg']
  · by_cases h2 : h = g'
    · simp [h2, hgg'.symm]
    · simp [h1, h2]

/-- Two groups that hold all of the workload are in different partitions: no
two sums differ by more than one of them. -/
theorem not_mem_both {workloads : List Int} (hk : 1 < k)
    (run : KKRun workloads k true) {g g' : Nat} (hgg' : g ≠ g')
    (hworkload : ∀ h < workloads.length, workloads.getD h 0 =
      if h = g ∨ h = g' then tokenWorkload else 0)
    {p : Nat} (hp : p < (run.finalState.getPartitions.map
      sortedPartition).length)
    (hg : g ∈ (run.finalState.getPartitions.map sortedPartition)[p])
    (hg' : g' ∈ (run.finalState.getPartitions.map sortedPartition)[p]) :
    False := by
  have hperm : (run.finalState.getPartitions.map sortedPartition).flatten.Perm
      (List.range workloads.length) :=
    flatten_map_perm.trans run.flatten_getPartitions
  have hnodup := hperm.nodup_iff.mpr List.nodup_range
  have hrange : ∀ l ∈ workloads, 0 ≤ l ∧ l ≤ tokenWorkload := by
    intro value hvalue
    obtain ⟨h, hh, rfl⟩ := List.mem_iff_getElem.mp hvalue
    have heq := hworkload h hh
    rw [List.getD_eq_getElem _ _ hh] at heq
    rw [heq]
    have hpos := tokenWorkload_pos
    split <;> omega
  have hsum : ∀ q (hq : q < (run.finalState.getPartitions.map
      sortedPartition).length), partitionSum workloads
        (run.finalState.getPartitions.map sortedPartition)[q] =
      (if g ∈ (run.finalState.getPartitions.map sortedPartition)[q]
        then tokenWorkload else 0) +
      (if g' ∈ (run.finalState.getPartitions.map sortedPartition)[q]
        then tokenWorkload else 0) := by
    intro q hq
    rw [← sum_of_two ((List.nodup_flatten.mp hnodup).1 _
      (List.getElem_mem hq)) hgg', partitionSum]
    apply congrArg
    apply List.map_congr_left
    intro h hh
    apply hworkload
    rw [← List.mem_range, ← hperm.mem_iff]
    exact List.mem_flatten.mpr ⟨_, List.getElem_mem hq, hh⟩
  obtain ⟨q, hq, hpq⟩ : ∃ q, q < (run.finalState.getPartitions.map
      sortedPartition).length ∧ q ≠ p := by
    rw [List.length_map, run.length_getPartitions] at hp ⊢
    by_cases hzero : p = 0
    · exact ⟨1, hk, by omega⟩
    · exact ⟨0, by omega, fun h => hzero h.symm⟩
  have hnot : ∀ {h : Nat}, h ∈ (run.finalState.getPartitions.map
      sortedPartition)[p] → h ∉ (run.finalState.getPartitions.map
        sortedPartition)[q] :=
    fun hmem hmem' => hpq (eq_of_mem_parts hnodup hq hp hmem' hmem)
  have hle := run.partitionSum_sub_le
    (run.balanced_final hrange tokenWorkload_pos.le)
    (List.getElem_mem hp) (List.getElem_mem hq)
  rw [hsum p hp, hsum q hq, if_pos hg, if_pos hg', if_neg (hnot hg),
    if_neg (hnot hg')] at hle
  have hpos := tokenWorkload_pos
  omega

/-- Two samples of one uid in different groups can be split. -/
theorem exists_split (hk : 1 < k) (hdvd : k ∣ (uidGroups uidList).length)
    {i l g g' : Nat} (hg : g < (uidGroups uidList).length)
    (hg' : g' < (uidGroups uidList).length) (hgg' : g ≠ g')
    (hi : i ∈ (uidGroups uidList)[g]) (hl : l ∈ (uidGroups uidList)[g'])
    (huid : uidOf uidList i = uidOf uidList l) :
    ∃ partitions, getGroupBalancedPartitions
      (twoSamples uidList.length i l) uidList k = .ok partitions ∧
        ¬ NeverSplit uidList partitions := by
  have hruns := isRuns_uidGroups uidList
  have hlen : (twoSamples uidList.length i l).length = uidList.length := by
    simp [twoSamples]
  have hcount := length_groupWorkloads (twoSamples uidList.length i l)
    (uidGroups uidList)
  have hworkload : ∀ h < (groupWorkloads (twoSamples uidList.length i l)
      (uidGroups uidList)).length,
      (groupWorkloads (twoSamples uidList.length i l)
        (uidGroups uidList)).getD h 0 =
          if h = g ∨ h = g' then tokenWorkload else 0 :=
    fun h hh => groupWorkloads_twoSamples hruns hg hg' hgg' hi hl
      (hcount ▸ hh)
  have hkn : k ≤ (uidGroups uidList).length :=
    Nat.le_of_dvd (Nat.lt_of_le_of_lt (Nat.zero_le g) hg) hdvd
  obtain ⟨run, hcall⟩ : ∃ run : KKRun (groupWorkloads
      (twoSamples uidList.length i l) (uidGroups uidList)) k true,
      getSeqlenBalancedPartitions (groupWorkloads
        (twoSamples uidList.length i l) (uidGroups uidList)) k true =
          .ok (run.finalState.getPartitions.map sortedPartition) := by
    apply exists_balancedRun _ (Nat.le_of_lt hk) (hcount.symm ▸ hkn)
      fun _ => hcount.symm ▸ hdvd
    intro value hvalue
    obtain ⟨h, hh, rfl⟩ := List.mem_iff_getElem.mp hvalue
    have heq := hworkload h hh
    rw [List.getD_eq_getElem _ _ hh] at heq
    rw [heq]
    have hpos := tokenWorkload_pos
    split <;> omega
  refine ⟨_, (getGroupBalancedPartitions_eq_ok hlen).mpr
    ⟨hkn, _, hcall, rfl⟩, ?_⟩
  intro hnever
  have hperm : (run.finalState.getPartitions.map sortedPartition).flatten.Perm
      (List.range (uidGroups uidList).length) := by
    rw [← hcount]
    exact flatten_map_perm.trans run.flatten_getPartitions
  have hplace : ∀ {h x : Nat} (hh : h < (uidGroups uidList).length),
      x ∈ (uidGroups uidList)[h] →
      ∃ p, ∃ hp : p < (run.finalState.getPartitions.map
        sortedPartition).length,
        h ∈ (run.finalState.getPartitions.map sortedPartition)[p] ∧
        x ∈ samplesOf (uidGroups uidList)
          (run.finalState.getPartitions.map sortedPartition)[p] := by
    intro h x hh hx
    obtain ⟨part, hpart, hmem⟩ := List.mem_flatten.mp
      (hperm.mem_iff.mpr (List.mem_range.mpr hh))
    obtain ⟨p, hp, rfl⟩ := List.mem_iff_getElem.mp hpart
    refine ⟨p, hp, hmem, mem_samplesOf.mpr ⟨h, hmem, ?_⟩⟩
    rw [List.getD_eq_getElem _ _ hh]
    exact hx
  obtain ⟨p, hp, hgp, hip⟩ := hplace hg hi
  obtain ⟨q, hq, hgq, hlq⟩ := hplace hg' hl
  have hpq : p = q := by
    apply hnever p q (by rw [List.length_map]; exact hp)
      (by rw [List.length_map]; exact hq) i _ l _ huid
    · rw [List.getElem_map]
      exact hip
    · rw [List.getElem_map]
      exact hlq
  subst hpq
  exact not_mem_both hk run hgg' hworkload hp hgp hgq

/-- For which uids the groups are kept whatever the lengths of the samples. -/
theorem keepsGroups_iff (uidList : List (Option ν)) (k : Nat) (hk : 0 < k) :
    (∀ seqlenList : List Int, seqlenList.length = uidList.length →
      (∀ l ∈ seqlenList, 0 ≤ l) → KeepsGroups seqlenList uidList k) ↔
      uidList ≠ [] ∧ (Contiguous (uidOf uidList) uidList.length ∨ k = 1 ∨
        ¬ k ∣ (uidGroups uidList).length) := by
  constructor
  · intro h
    constructor
    · rintro rfl
      have hempty := h [] rfl (by simp)
      obtain ⟨partitions, hcall, _⟩ := hempty.1
        (fun i j l _ _ hl => absurd hl (Nat.not_lt_zero l)) (dvd_zero k)
      have hkn := ((getGroupBalancedPartitions_eq_ok rfl).mp hcall).1
      exact absurd hk (Nat.not_lt.mpr hkn)
    · by_contra hnot
      push Not at hnot
      obtain ⟨hc, hone, hdvd⟩ := hnot
      simp only [Contiguous, not_forall] at hc
      obtain ⟨i, j, l, hij, hjl, hl, huid, hne⟩ := hc
      obtain ⟨g, hg, hi⟩ := (isRuns_uidGroups uidList).exists_group
        (Nat.lt_of_le_of_lt (hij.trans hjl) hl)
      obtain ⟨g', hg', hlg⟩ := (isRuns_uidGroups uidList).exists_group hl
      have hgg' : g ≠ g' := by
        rintro rfl
        exact hne ((isRuns_uidGroups uidList).key_between hg hi hlg hij hjl)
      obtain ⟨partitions, hcall, hsplit⟩ := exists_split
        (Nat.lt_of_le_of_ne hk (Ne.symm hone)) hdvd hg hg' hgg' hi hlg huid
      have hkeeps := h (twoSamples uidList.length i l) (by simp [twoSamples])
        (by
          intro value hvalue
          obtain ⟨x, _, rfl⟩ := List.mem_map.mp hvalue
          split <;> omega)
      exact hsplit (hkeeps.2 partitions hcall)
  · rintro ⟨hne, hcase⟩ seqlenList hlen _
    constructor
    · exact fun hc hdvd => exists_groupsKept hk hlen hne hc hdvd
    · intro partitions hcall
      obtain ⟨hkn, groupPartitions, hparts, rfl⟩ :=
        (getGroupBalancedPartitions_eq_ok hlen).mp hcall
      have hcount := length_groupWorkloads seqlenList (uidGroups uidList)
      obtain ⟨_, _, _, hlength, hperm⟩ :=
        getSeqlenBalancedPartitions_eq_ok hparts
      rcases hcase with hc | rfl | hdvd
      · rw [hcount] at hperm
        exact neverSplit_of_contiguous hc hperm
      · intro p q hp hq _ _ _ _ _
        rw [List.length_map] at hp hq
        omega
      · exact absurd (hcount ▸ dvd_of_equalPartitions hparts) hdvd

theorem keepsGroups_iff_three_runs :
    (∀ seqlenList : List Int, seqlenList.length = 4 →
      (∀ l ∈ seqlenList, 0 ≤ l) →
        KeepsGroups seqlenList [none, none, some 7, some (9 : Nat)] 3) ↔
      [none, none, some 7, some (9 : Nat)] ≠ [] ∧
        (Contiguous (uidOf [none, none, some 7, some (9 : Nat)]) 4 ∨ 3 = 1 ∨
          ¬ 3 ∣ (uidGroups [none, none, some 7, some (9 : Nat)]).length) :=
  keepsGroups_iff [none, none, some 7, some (9 : Nat)] 3 (by decide)

/-- Of four runs of two uids, two runs of one uid go to different lists. -/
theorem interleaved_uids_split :
    ¬ ∀ (seqlenList : List Int) (uidList : List (Option Nat)) (k : Nat)
        (partitions : List (List Nat)),
      seqlenList.length = uidList.length → (∀ l ∈ seqlenList, 0 ≤ l) →
      0 < k → k ∣ uidCount uidList (List.range uidList.length) →
      getGroupBalancedPartitions seqlenList uidList k = .ok partitions →
      NeverSplit uidList partitions := by
  intro hclaim
  have hsplit := hclaim [5, 1, 5, 1] [some 0, some 1, some 0, some 1] 2
    [[1, 2], [0, 3]] rfl (by decide) (by decide) (by decide)
    (by decide +kernel)
  have h := hsplit 0 1 (by decide) (by decide) 2 (by decide) 0 (by decide) rfl
  exact absurd h (by decide)

end Separated

end GroupPartitions

end SelfDistillation
