/-
`GlobalRequestLoadBalancer` (verl/experimental/agent_loop/agent_loop.py):
requests of one conversation go to one server, new ones to a server with the
fewest requests in flight.
-/
import SelfDistillation.Library.RecentUse
import SelfDistillation.Library.Transition
import SelfDistillation.Python

namespace SelfDistillation

open RecentUse Transition

/-- The operations of the routing cache (`cachetools.LRUCache`). -/
structure CacheOps where
  Cache : Type
  empty : Cache
  /-- `key in cache`, and the value it has -/
  get? : Cache → String → Option String
  /-- The cache after `cache[key]` was read. -/
  touch : Cache → String → Cache
  /-- The cache after `cache[key] = value`. -/
  set : Cache → String → String → Py Cache

/-- Least-recently-used eviction: the cache keeps the entries used last, at
most `maxsize`. -/
structure IsLru (cache : CacheOps)
    (order : cache.Cache → List (String × String)) (maxsize : Nat) :
    Prop where
  empty : order cache.empty = []
  get? : ∀ c key, cache.get? c key = (order c).lookup key
  touch : ∀ c key value, cache.get? c key = some value →
    order (cache.touch c key) = use (order c) (key, value)
  set : ∀ c key value, cache.get? c key = none → 0 < maxsize →
    ∃ c', cache.set c key value = .ok c' ∧
      order c' = ((key, value) :: order c).take maxsize

variable {cache : CacheOps}

/-- `GlobalRequestLoadBalancer` -/
structure LoadBalancer (cache : CacheOps) where
  inflightRequests : PyDict Int
  requestIdToServer : cache.Cache

namespace LoadBalancer

/-- `{sid: 0 for sid in server_actor_ids}` -/
def noRequests (serverActorIds : List String) : PyDict Int :=
  serverActorIds.foldl (fun d sid => d.set sid 0) PyDict.empty

/-- `__init__` -/
def init (cache : CacheOps) (serverActorIds : List String) :
    Py (LoadBalancer cache) :=
  if serverActorIds.isEmpty then
    .error (.valueError "server_actor_ids must be non-empty")
  else .ok ⟨noRequests serverActorIds, cache.empty⟩

/-- `min(d, key=d.get)`: the first key with the least value. -/
def argmin (d : PyDict Int) : Py (String × Int) :=
  match d.entries with
  | [] => .error (.valueError "min() arg is an empty sequence")
  | e :: es => .ok (es.foldl (fun best e => if e.2 < best.2 then e else best) e)

/-- `self._inflight_requests[server_id] += 1` -/
def countUp (lb : LoadBalancer cache) (serverId : String) :
    Py (LoadBalancer cache) := do
  let n ← lb.inflightRequests.get serverId
  return { lb with inflightRequests := lb.inflightRequests.set serverId (n + 1) }

/-- `acquire_server` -/
def acquireServer (lb : LoadBalancer cache) (requestId : String) :
    Py (LoadBalancer cache × String) :=
  match cache.get? lb.requestIdToServer requestId with
  | some serverId => do
      let lb := { lb with
        requestIdToServer := cache.touch lb.requestIdToServer requestId }
      let lb ← lb.countUp serverId
      return (lb, serverId)
  | none => do
      let (serverId, _) ← argmin lb.inflightRequests
      let requestIdToServer ← cache.set lb.requestIdToServer requestId serverId
      let lb ← { lb with requestIdToServer }.countUp serverId
      return (lb, serverId)

/-- `release_server` -/
def releaseServer (lb : LoadBalancer cache) (serverId : String) :
    Py (LoadBalancer cache) :=
  match lb.inflightRequests.get? serverId with
  | none => .error (.valueError
      s!"Invalid server_id for release: {serverId}")
  | some n =>
      if n ≤ 0 then .error (.valueError
        s!"Release called with no inflight requests on server {serverId}")
      else .ok { lb with
        inflightRequests := lb.inflightRequests.set serverId (n - 1) }

/-- The balancer, the servers that calls of `generate` have acquired and not
released, the routes taken so far, and the exceptions raised. -/
structure State (cache : CacheOps) where
  lb : LoadBalancer cache
  outstanding : List String
  routed : List (String × String)
  raised : List PyErr

/-- A call of `generate` acquires a server for its request id; a call that
holds one releases it in its `finally`. -/
inductive Action
  | acquire (requestId : String)
  | release (call : Nat)
deriving DecidableEq

def start (lb : LoadBalancer cache) : State cache := ⟨lb, [], [], []⟩

def step (s : State cache) : Action → Option (State cache)
  | .acquire requestId =>
      match s.lb.acquireServer requestId with
      | .ok (lb, serverId) => some { s with
          lb := lb
          outstanding := s.outstanding ++ [serverId]
          routed := s.routed ++ [(requestId, serverId)] }
      | .error e => some { s with raised := s.raised ++ [e] }
  | .release call =>
      s.outstanding[call]?.map fun serverId =>
        match s.lb.releaseServer serverId with
        | .ok lb => { s with
            lb := lb
            outstanding := s.outstanding.eraseIdx call }
        | .error e => { s with raised := s.raised ++ [e] }

/-- The calls of all workers, in the order the balancer serves them. -/
def calls (lb : LoadBalancer cache) : System (State cache) Action where
  initial := start lb
  step := step

/-- What the balancer guarantees in a state: its counts are those of the
requests outstanding, none of which it would refuse to release; a request id
that is not cached goes to a server with the fewest; and a request id goes
where it went last while fewer other ids than the cache holds were used
since. -/
structure Accounted (serverActorIds : List String) (maxCacheSize : Nat)
    (s : State cache) : Prop where
  counts : ∀ sid ∈ serverActorIds,
    s.lb.inflightRequests.get? sid = some (s.outstanding.count sid : Int)
  released : ∀ sid ∈ s.outstanding, ∃ lb, s.lb.releaseServer sid = .ok lb
  raised : s.raised = []
  least : ∀ requestId, cache.get? s.lb.requestIdToServer requestId = none →
    ∃ lb sid, s.lb.acquireServer requestId = .ok (lb, sid) ∧
      sid ∈ serverActorIds ∧ ∀ sid' ∈ serverActorIds,
        s.outstanding.count sid ≤ s.outstanding.count sid'
  sticky : ∀ before later requestId sid,
    s.routed = before ++ (requestId, sid) :: later →
    (∀ e ∈ later, e.1 ≠ requestId) →
    (later.map Prod.fst).dedup.length < maxCacheSize →
    ∃ lb, s.lb.acquireServer requestId = .ok (lb, sid)

/-- The invariant: the servers and their counts, and the cache as the last
routes leave it. -/
structure Consistent (serverActorIds : List String) (maxCacheSize : Nat)
    (order : cache.Cache → List (String × String)) (s : State cache) :
    Prop where
  counts : ∀ sid, s.lb.inflightRequests.get? sid =
    if sid ∈ serverActorIds then some (s.outstanding.count sid : Int) else none
  outstanding : ∀ sid ∈ s.outstanding, sid ∈ serverActorIds
  routes : ∀ e ∈ s.routed, e.2 ∈ serverActorIds
  cached : order s.lb.requestIdToServer =
    (recent s.routed).take maxCacheSize
  raised : s.raised = []

theorem get?_noRequests (serverActorIds : List String) (sid : String) :
    (noRequests serverActorIds).get? sid =
      if sid ∈ serverActorIds then some 0 else none := by
  suffices h : ∀ d : PyDict Int,
      (serverActorIds.foldl (fun d sid => d.set sid 0) d).get? sid =
        if sid ∈ serverActorIds then some 0 else d.get? sid by
    exact h PyDict.empty
  induction serverActorIds with
  | nil => simp
  | cons id ids ih =>
      intro d
      rw [List.foldl_cons, ih, PyDict.get?_set]
      by_cases hid : sid = id
      · simp [hid]
      · simp [hid]

theorem argmin_eq_ok {d : PyDict Int} {sid : String} {n : Int}
    (h : argmin d = .ok (sid, n)) :
    d.get? sid = some n ∧ ∀ sid' n', d.get? sid' = some n' → n ≤ n' := by
  simp only [PyDict.get?_eq_some_iff]
  unfold argmin at h
  split at h
  · cases h
  · rename_i e es hentries
    injection h with h
    suffices hfold : ∀ (es : List (String × Int)) (e : String × Int),
        (es.foldl (fun best e => if e.2 < best.2 then e else best) e) ∈
          e :: es ∧ ∀ e' ∈ e :: es,
          (es.foldl (fun best e => if e.2 < best.2 then e else best) e).2 ≤
            e'.2 by
      rw [hentries]
      obtain ⟨hmem, hle⟩ := hfold es e
      rw [h] at hmem hle
      exact ⟨hmem, fun sid' n' he => hle _ he⟩
    intro es
    induction es with
    | nil => simp
    | cons x xs ih =>
        intro e
        obtain ⟨hmem, hle⟩ := ih (if x.2 < e.2 then x else e)
        rw [List.foldl_cons]
        refine ⟨?_, fun e' he' => ?_⟩
        · split_ifs at hmem ⊢ <;>
            rcases List.mem_cons.mp hmem with hmem | hmem <;> simp [hmem]
        · have hhead := hle _ (List.mem_cons_self)
          rcases List.mem_cons.mp he' with rfl | he'
          · split_ifs at hhead ⊢ <;> omega
          · rcases List.mem_cons.mp he' with rfl | he'
            · split_ifs at hhead ⊢ <;> omega
            · exact hle e' (List.mem_cons_of_mem _ he')

theorem exists_argmin {d : PyDict Int} {sid : String} {n : Int}
    (h : d.get? sid = some n) : ∃ best, argmin d = .ok best := by
  unfold argmin
  split
  · rename_i hentries
    rw [PyDict.get?_eq_some_iff, hentries] at h
    cases h
  · exact ⟨_, rfl⟩

theorem countUp_of_get? {requests : PyDict Int} {sid : String} {n : Int}
    (h : requests.get? sid = some n) (c : cache.Cache) :
    countUp ⟨requests, c⟩ sid = .ok ⟨requests.set sid (n + 1), c⟩ := by
  simp only [countUp, PyDict.get, h]
  rfl

theorem releaseServer_of_pos {lb : LoadBalancer cache} {sid : String}
    {n : Int} (h : lb.inflightRequests.get? sid = some n) (hn : 0 < n) :
    lb.releaseServer sid = .ok { lb with
      inflightRequests := lb.inflightRequests.set sid (n - 1) } := by
  simp only [releaseServer, h, if_neg (Int.not_le.mpr hn)]

theorem mem_of_lookup {entries : List (String × String)}
    {key value : String} (h : entries.lookup key = some value) :
    (key, value) ∈ entries := by
  obtain ⟨l₁, l₂, rfl, -⟩ := List.lookup_eq_some_iff.mp h
  exact List.mem_append_right _ List.mem_cons_self

section

variable {serverActorIds : List String} {maxCacheSize : Nat}
  {order : cache.Cache → List (String × String)} {s : State cache}

theorem Consistent.get?_of_mem
    (h : Consistent serverActorIds maxCacheSize order s) {sid : String}
    (hsid : sid ∈ serverActorIds) : s.lb.inflightRequests.get? sid =
      some (s.outstanding.count sid : Int) := by
  rw [h.counts, if_pos hsid]

/-- A cached id goes where the cache says, and is the one used last. -/
theorem Consistent.acquire_cached
    (h : Consistent serverActorIds maxCacheSize order s)
    (hcache : IsLru cache order maxCacheSize) {requestId sid : String}
    (hget : cache.get? s.lb.requestIdToServer requestId = some sid) :
    ∃ lb, s.lb.acquireServer requestId = .ok (lb, sid) ∧
      sid ∈ serverActorIds ∧
      lb.inflightRequests = s.lb.inflightRequests.set sid
        (s.outstanding.count sid + 1) ∧
      order lb.requestIdToServer =
        (use (recent s.routed) (requestId, sid)).take maxCacheSize := by
  have hlookup := hget
  rw [hcache.get?, h.cached] at hlookup
  have hentry := mem_of_lookup hlookup
  have hsid : sid ∈ serverActorIds :=
    h.routes _ (mem_of_mem_recent (List.mem_of_mem_take hentry))
  have hn := h.get?_of_mem hsid
  refine ⟨⟨s.lb.inflightRequests.set sid (s.outstanding.count sid + 1),
    cache.touch s.lb.requestIdToServer requestId⟩, ?_, hsid, rfl, ?_⟩
  · simp only [acquireServer, hget]
    rw [countUp_of_get? hn]
    rfl
  · rw [hcache.touch _ _ _ hget, h.cached]
    exact use_take_of_mem (nodup_recent _) (List.mem_map.mpr ⟨_, hentry, rfl⟩)

/-- An id that is not cached goes to a server with the fewest requests. -/
theorem Consistent.acquire_new
    (h : Consistent serverActorIds maxCacheSize order s)
    (hcache : IsLru cache order maxCacheSize) (hmax : 0 < maxCacheSize)
    (hids : serverActorIds ≠ []) {requestId : String}
    (hget : cache.get? s.lb.requestIdToServer requestId = none) :
    ∃ lb sid, s.lb.acquireServer requestId = .ok (lb, sid) ∧
      sid ∈ serverActorIds ∧
      (∀ sid' ∈ serverActorIds,
        s.outstanding.count sid ≤ s.outstanding.count sid') ∧
      lb.inflightRequests = s.lb.inflightRequests.set sid
        (s.outstanding.count sid + 1) ∧
      order lb.requestIdToServer =
        (use (recent s.routed) (requestId, sid)).take maxCacheSize := by
  obtain ⟨any, hany⟩ := List.exists_mem_of_ne_nil _ hids
  obtain ⟨⟨sid, n⟩, hbest⟩ := exists_argmin (h.get?_of_mem hany)
  obtain ⟨hn, hleast⟩ := argmin_eq_ok hbest
  have hsid : sid ∈ serverActorIds := by
    by_contra hnot
    rw [h.counts, if_neg hnot] at hn
    cases hn
  obtain rfl : (s.outstanding.count sid : Int) = n :=
    Option.some.inj ((h.get?_of_mem hsid).symm.trans hn)
  obtain ⟨cache', hset, horder⟩ :=
    hcache.set s.lb.requestIdToServer requestId sid hget hmax
  refine ⟨⟨s.lb.inflightRequests.set sid (s.outstanding.count sid + 1),
    cache'⟩, sid, ?_, hsid, fun sid' hsid' => ?_, rfl, ?_⟩
  · simp only [acquireServer, hget, hbest]
    simp only [bind, Except.bind, hset]
    rw [countUp_of_get? hn]
    rfl
  · exact Int.ofNat_le.mp (hleast sid' _ (h.get?_of_mem hsid'))
  · rw [horder, h.cached]
    refine use_take_of_notMem fun hmem => ?_
    obtain ⟨e, he, hkey⟩ := List.mem_map.mp hmem
    rw [hcache.get?, h.cached, List.lookup_eq_none_iff] at hget
    simpa [hkey] using hget e he

/-- What `acquire_server` does, whether or not the id is cached. -/
theorem Consistent.acquire
    (h : Consistent serverActorIds maxCacheSize order s)
    (hcache : IsLru cache order maxCacheSize) (hmax : 0 < maxCacheSize)
    (hids : serverActorIds ≠ []) (requestId : String) :
    ∃ lb sid, s.lb.acquireServer requestId = .ok (lb, sid) ∧
      sid ∈ serverActorIds ∧
      lb.inflightRequests = s.lb.inflightRequests.set sid
        (s.outstanding.count sid + 1) ∧
      order lb.requestIdToServer =
        (use (recent s.routed) (requestId, sid)).take maxCacheSize := by
  cases hget : cache.get? s.lb.requestIdToServer requestId with
  | some sid =>
      obtain ⟨lb, hlb⟩ := h.acquire_cached hcache hget
      exact ⟨lb, sid, hlb⟩
  | none =>
      obtain ⟨lb, sid, hok, hsid, -, hrest⟩ :=
        h.acquire_new hcache hmax hids hget
      exact ⟨lb, sid, hok, hsid, hrest⟩

/-- A call that holds a server can release it. -/
theorem Consistent.release
    (h : Consistent serverActorIds maxCacheSize order s) {sid : String}
    (hsid : sid ∈ s.outstanding) :
    s.lb.releaseServer sid = .ok { s.lb with
      inflightRequests := s.lb.inflightRequests.set sid
        (s.outstanding.count sid - 1) } :=
  releaseServer_of_pos (h.get?_of_mem (h.outstanding sid hsid))
    (Int.natCast_pos.mpr (List.count_pos_iff.mpr hsid))

theorem consistent_start {lb : LoadBalancer cache}
    (hcache : IsLru cache order maxCacheSize)
    (hinit : init cache serverActorIds = .ok lb) :
    Consistent serverActorIds maxCacheSize order (start lb) where
  counts sid := by
    unfold init at hinit
    split at hinit
    · cases hinit
    · injection hinit with hinit
      rw [start, ← hinit]
      simp [get?_noRequests]
  outstanding := by simp [start]
  routes := by simp [start]
  cached := by
    unfold init at hinit
    split at hinit
    · cases hinit
    · injection hinit with hinit
      rw [start, ← hinit]
      simp [hcache.empty, recent]
  raised := rfl

theorem Consistent.step_acquire
    (h : Consistent serverActorIds maxCacheSize order s)
    (hcache : IsLru cache order maxCacheSize) (hmax : 0 < maxCacheSize)
    (hids : serverActorIds ≠ []) {requestId : String} {s' : State cache}
    (hstep : step s (.acquire requestId) = some s') :
    Consistent serverActorIds maxCacheSize order s' := by
  obtain ⟨lb, sid, hok, hsid, hcounts, horder⟩ :=
    h.acquire hcache hmax hids requestId
  simp only [step, hok, Option.some.injEq] at hstep
  subst hstep
  refine ⟨fun sid' => ?_, ?_, ?_, ?_, h.raised⟩
  · simp only [hcounts, PyDict.get?_set, h.counts, List.count_append]
    by_cases heq : sid' = sid
    · subst heq
      simp [hsid]
    · simp [heq, Ne.symm heq]
  · intro sid' hmem
    rcases List.mem_append.mp hmem with hmem | hmem
    · exact h.outstanding sid' hmem
    · exact List.mem_singleton.mp hmem ▸ hsid
  · intro e he
    rcases List.mem_append.mp he with he | he
    · exact h.routes e he
    · exact List.mem_singleton.mp he ▸ hsid
  · rw [recent_append_singleton]
    exact horder

theorem Consistent.step_release
    (h : Consistent serverActorIds maxCacheSize order s) {call : Nat}
    {s' : State cache} (hstep : step s (.release call) = some s') :
    Consistent serverActorIds maxCacheSize order s' := by
  obtain ⟨sid, hcall, hs'⟩ := Option.map_eq_some_iff.mp hstep
  obtain ⟨hlt, hget⟩ := List.getElem?_eq_some_iff.mp hcall
  have hmem : sid ∈ s.outstanding := hget ▸ List.getElem_mem hlt
  have hperm : s.outstanding.Perm (sid :: s.outstanding.eraseIdx call) :=
    hget ▸ (List.getElem_cons_eraseIdx_perm hlt).symm
  simp only [h.release hmem] at hs'
  subst hs'
  refine ⟨fun sid' => ?_, fun sid' hsid' => ?_, h.routes, h.cached, h.raised⟩
  · simp only [PyDict.get?_set, h.counts, hperm.count_eq, List.count_cons]
    by_cases heq : sid' = sid
    · subst heq
      simp [h.outstanding sid' hmem]
    · simp [heq, Ne.symm heq]
  · exact h.outstanding sid' (List.mem_of_mem_eraseIdx hsid')

theorem Consistent.accounted
    (h : Consistent serverActorIds maxCacheSize order s)
    (hcache : IsLru cache order maxCacheSize) (hmax : 0 < maxCacheSize)
    (hids : serverActorIds ≠ []) :
    Accounted serverActorIds maxCacheSize s where
  counts _ hsid := h.get?_of_mem hsid
  released _ hsid := ⟨_, h.release hsid⟩
  raised := h.raised
  least _ hget := by
    obtain ⟨lb, sid, hok, hsid, hleast, -⟩ :=
      h.acquire_new hcache hmax hids hget
    exact ⟨lb, sid, hok, hsid, hleast⟩
  sticky before later requestId sid hrouted hother hfew := by
    obtain ⟨front, back, heq, hkey, hlen⟩ :=
      exists_recent_eq sid before hother
    have hget : cache.get? s.lb.requestIdToServer requestId = some sid := by
      rw [hcache.get?, h.cached, hrouted]
      exact lookup_take heq hkey (hlen ▸ hfew)
    obtain ⟨lb, hok, -⟩ := h.acquire_cached hcache hget
    exact ⟨lb, hok⟩

/-- After any interleaving of the calls, with a cache that evicts the entry
used least recently, the balancer keeps its account. -/
theorem calls_accounted {lb : LoadBalancer cache}
    (hcache : IsLru cache order maxCacheSize) (hmax : 0 < maxCacheSize)
    (hinit : init cache serverActorIds = .ok lb) {actions : List Action}
    {t : State cache}
    (hrun : (calls lb).exec (start lb) actions = some t) :
    Accounted serverActorIds maxCacheSize t := by
  have hids : serverActorIds ≠ [] := by
    rintro rfl
    cases hinit
  have h : Consistent serverActorIds maxCacheSize order t := by
    refine System.invariant_of_guarded (fun s action s' hs _ hstep => ?_)
      (consistent_start hcache hinit) (System.guarded_true _ actions) hrun
    cases action with
    | acquire requestId => exact hs.step_acquire hcache hmax hids hstep
    | release call => exact hs.step_release hstep
  exact h.accounted hcache hmax hids

end

/-- A cache of at most two entries, the one used last in front. -/
def listCache : CacheOps where
  Cache := List (String × String)
  empty := []
  get? c key := c.lookup key
  touch c key := match c.lookup key with
    | some value => use c (key, value)
    | none => c
  set c key value :=
    match c.lookup key with
    | some _ => .ok (use c (key, value))
    | none => .ok (((key, value) :: c).take 2)

theorem listCache_isLru : IsLru listCache id 2 where
  empty := rfl
  get? _ _ := rfl
  touch c key value h := by
    change List.lookup key c = some value at h
    simp only [listCache, h]
    rfl
  set c key value h _ := by
    change List.lookup key c = none at h
    exact ⟨((key, value) :: c).take 2, by simp only [listCache, h], rfl⟩

/-- The first id is evicted while its request is in flight, and its next
request still finds the counts right. -/
theorem calls_accounted_evicted :
    ∃ (lb : LoadBalancer listCache) (t : State listCache),
      init listCache ["s0", "s1"] = .ok lb ∧
      (calls lb).exec (start lb) [.acquire "a", .acquire "b", .acquire "c",
        .release 1, .acquire "a", .release 0] = some t ∧
      Accounted ["s0", "s1"] 2 t := by
  obtain ⟨lb, hinit⟩ : ∃ lb, init listCache ["s0", "s1"] = .ok lb := ⟨_, rfl⟩
  obtain ⟨t, hrun⟩ : ∃ t, (calls lb).exec (start lb) [.acquire "a",
      .acquire "b", .acquire "c", .release 1, .acquire "a", .release 0] =
      some t := by
    cases hinit
    exact ⟨_, rfl⟩
  exact ⟨lb, t, hinit, hrun,
    calls_accounted listCache_isLru (by decide) hinit hrun⟩

end LoadBalancer

end SelfDistillation
