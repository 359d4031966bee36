/-
`NaiveRouter` (verl/experimental/reward_loop/router/naive_router.py): requests
take a worker when they arrive and give it back when it has answered, and only
then.
-/
import SelfDistillation.LoadBalancer

namespace SelfDistillation

open Transition

/-- `NaiveRouter`: what forwarding reads and counts. -/
structure NaiveRouter where
  workerUrls : List String
  requestCounts : PyDict Int
  maxAttempts : Nat

namespace NaiveRouter

/-- `__init__` -/
def init (workerUrls : List String) (maxAttempts : Nat) : NaiveRouter where
  workerUrls := workerUrls
  -- `{url: 0 for url in worker_urls}`
  requestCounts := LoadBalancer.noRequests workerUrls
  maxAttempts := maxAttempts

/-- `_select_worker` -/
def selectWorker (router : NaiveRouter) : Py (NaiveRouter × String) := do
  let (url, _) ← LoadBalancer.argmin router.requestCounts
  let n ← router.requestCounts.get url
  return ({ router with requestCounts := router.requestCounts.set url (n + 1) },
    url)

/-- `_release_worker` -/
def releaseWorker (router : NaiveRouter) (url : String) : Py NaiveRouter := do
  let n ← router.requestCounts.get url
  return { router with
    requestCounts := router.requestCounts.set url (max 0 (n - 1)) }

/-- How one attempt to forward a request ends, before it is cancelled. -/
inductive Reply
  | output
  | timeoutError
  | clientConnectorError
  | clientResponseError
  | exception
deriving DecidableEq

/-- What `_make_async_request` ends with other than a response of a worker. -/
inductive CallError
  | requestBody
  | clientResponseError
  | exception
  | runtimeError (msg : String)
  | cancelledError
deriving DecidableEq

/-- Where a call of `_make_async_request` is: at one of its `await`s, or at its
end. -/
inductive Phase
  | body
  | forwarding (attempt : Nat)
  | sleeping (attempt : Nat)
  | responded
  | raised (error : CallError)
deriving DecidableEq

/-- A call that has selected its worker. -/
structure Call where
  workerUrl : String
  endpoint : String
  phase : Phase
deriving DecidableEq

/-- The `RuntimeError` behind the loop over the attempts. -/
def exhausted (router : NaiveRouter) (endpoint : String) : CallError :=
  let attempts := toString router.maxAttempts
  .runtimeError
    s!"Failed to complete async request to {endpoint} after {attempts} attempts"

/-- `for attempt in range(self.max_attempts)`, entered -/
def firstAttempt (router : NaiveRouter) (endpoint : String) : Phase :=
  if 0 < router.maxAttempts then .forwarding 0
  else .raised (router.exhausted endpoint)

/-- The end of an attempt that failed with an exception that is caught: the
next one after a pause, if there is one. -/
def retry (router : NaiveRouter) (attempt : Nat) (error : CallError) : Phase :=
  if attempt + 1 < router.maxAttempts then .sleeping attempt
  else .raised error

/-- An attempt ends. -/
def replied (router : NaiveRouter) (call : Call) (attempt : Nat) :
    Reply → NaiveRouter × Phase
  | .output =>
      match router.releaseWorker call.workerUrl with
      | .ok router => (router, .responded)
      | .error _ => (router, router.retry attempt .exception)
  | .timeoutError | .clientConnectorError =>
      (router, router.retry attempt (router.exhausted call.endpoint))
  | .clientResponseError => (router, .raised .clientResponseError)
  | .exception => (router, router.retry attempt .exception)

/-- The router and the calls that have selected a worker. -/
structure State where
  router : NaiveRouter
  calls : List Call

/-- What can happen between two `await`s: a request arrives and selects its
worker, the body of a request has been read or not, an attempt ends, a pause
ends, a call is cancelled. -/
inductive Action
  | arrive (endpoint : String)
  | bodyRead (call : Nat) (received : Bool)
  | reply (call : Nat) (reply : Reply)
  | wake (call : Nat)
  | cancel (call : Nat)
deriving DecidableEq

/-- The call goes on from its `await`. -/
def resume (s : State) (index : Nat) (call : Call) (next : NaiveRouter × Phase) :
    State where
  router := next.1
  calls := s.calls.set index { call with phase := next.2 }

/-- `_make_async_request`, up to its first `await` -/
def arrive (s : State) (endpoint : String) : State :=
  -- the response with status code 503
  if s.router.workerUrls.isEmpty then s
  else
    match s.router.selectWorker with
    | .ok (router, url) => ⟨router, s.calls ++ [⟨url, endpoint, .body⟩]⟩
    | .error _ => s

/-- What an action makes of the call it is about. -/
def advance (router : NaiveRouter) (call : Call) :
    Action → Option (NaiveRouter × Phase)
  | .bodyRead _ received =>
      if call.phase = .body then
        some (router, if received then router.firstAttempt call.endpoint
          else .raised .requestBody)
      else none
  | .reply _ reply =>
      match call.phase with
      | .forwarding attempt => some (router.replied call attempt reply)
      | _ => none
  | .wake _ =>
      match call.phase with
      | .sleeping attempt => some (router, .forwarding (attempt + 1))
      | _ => none
  | .cancel _ =>
      match call.phase with
      | .responded | .raised _ => none
      | _ => some (router, .raised .cancelledError)
  | .arrive _ => none

def Action.call : Action → Nat
  | .arrive _ => 0
  | .bodyRead call _ | .reply call _ | .wake call | .cancel call => call

def step (s : State) : Action → Option State
  | .arrive endpoint => some (arrive s endpoint)
  | action => do
      let call ← s.calls[action.call]?
      let next ← advance s.router call action
      return resume s action.call call next

/-- The requests to a router, interleaved in any way. -/
def requests (workerUrls : List String) (maxAttempts : Nat) :
    System State Action where
  initial := ⟨init workerUrls maxAttempts, []⟩
  step := step

/-- A call that has neither returned nor raised. -/
def Phase.InFlight : Phase → Prop
  | .responded | .raised _ => False
  | _ => True

instance : DecidablePred Phase.InFlight := fun phase => by
  cases phase <;> unfold Phase.InFlight <;> infer_instance

/-- The number of requests being forwarded to `url`. -/
def inFlight (s : State) (url : String) : Nat :=
  s.calls.countP fun call => call.workerUrl = url ∧ call.phase.InFlight

/-- What the counts are there for: they are those of the requests in flight,
so they are 0 when there are none, and a request goes to a worker with the
fewest. -/
structure CountsInFlight (s : State) : Prop where
  counts : ∀ url ∈ s.router.workerUrls,
    s.router.requestCounts.get? url = some (inFlight s url : Int)
  idle : (∀ call ∈ s.calls, ¬ call.phase.InFlight) →
    ∀ url ∈ s.router.workerUrls, s.router.requestCounts.get? url = some 0
  least : ∀ router url, s.router.selectWorker = .ok (router, url) →
    url ∈ s.router.workerUrls ∧
      ∀ url' ∈ s.router.workerUrls, inFlight s url ≤ inFlight s url'

/-- There is an attempt after the one the call is in. -/
def Phase.HasRetry (router : NaiveRouter) : Phase → Prop
  | .forwarding attempt => attempt + 1 < router.maxAttempts
  | _ => False

instance (router : NaiveRouter) : DecidablePred (Phase.HasRetry router) :=
  fun phase => by cases phase <;> unfold Phase.HasRetry <;> infer_instance

/-- The action does not end a call without a response of its worker. -/
def Answered (s : State) : Action → Prop
  | .arrive _ | .wake _ => True
  | .bodyRead _ received => received ∧ 0 < s.router.maxAttempts
  | .reply index reply => reply = .output ∨
      reply ≠ .clientResponseError ∧
        ∃ call ∈ s.calls[index]?, call.phase.HasRetry s.router
  | .cancel _ => False

instance (s : State) : DecidablePred (Answered s) := fun action => by
  cases action <;> unfold Answered <;> infer_instance

section Counting

variable {s s' : State}

/-- Charged to `url`: the calls that took it and have not given it back. -/
def Charged (url : String) (call : Call) : Bool :=
  call.workerUrl = url ∧ call.phase ≠ .responded

theorem charged_self {call : Call} (h : call.phase ≠ .responded) :
    Charged call.workerUrl call := by
  simp [Charged, h]

theorem not_charged_of_ne {url : String} {call : Call}
    (h : url ≠ call.workerUrl) : ¬ Charged url call := by
  simp [Charged, Ne.symm h]

theorem not_charged_responded (url : String) (call : Call) :
    ¬ Charged url { call with phase := .responded } := by
  simp [Charged]

/-- The invariant: the counts are those of the calls charged. -/
structure Consistent (s : State) : Prop where
  counts : ∀ url, s.router.requestCounts.get? url =
    if url ∈ s.router.workerUrls then
      some (s.calls.countP (Charged url) : Int) else none
  urls : ∀ call ∈ s.calls, call.workerUrl ∈ s.router.workerUrls

theorem consistent_init (workerUrls : List String) (maxAttempts : Nat) :
    Consistent (requests workerUrls maxAttempts).initial where
  counts url := LoadBalancer.get?_noRequests workerUrls url
  urls := by simp [requests]

/-- One place of a list changes its count by what it was and what it is. -/
theorem countP_set_add {α : Type} {p : α → Bool} {xs : List α} {i : Nat}
    {x : α} (y : α) (h : xs[i]? = some x) :
    (xs.set i y).countP p + (if p x then 1 else 0) =
      xs.countP p + if p y then 1 else 0 := by
  induction xs generalizing i with
  | nil => cases h
  | cons z xs ih =>
      cases i with
      | zero =>
          cases h
          rw [List.set_cons_zero, List.countP_cons, List.countP_cons]
          omega
      | succ i =>
          have hrest := ih h
          rw [List.set_cons_succ, List.countP_cons, List.countP_cons]
          omega

theorem get_eq_ok_iff {d : PyDict Int} {url : String} {n : Int} :
    d.get url = .ok n ↔ d.get? url = some n :=
  PyDict.get_eq_ok.trans PyDict.get?_eq_some_iff.symm

theorem selectWorker_eq_ok {router next : NaiveRouter} {url : String}
    (h : router.selectWorker = .ok (next, url)) :
    ∃ n, router.requestCounts.get? url = some n ∧
      (∀ url' n', router.requestCounts.get? url' = some n' → n ≤ n') ∧
      next = { router with
        requestCounts := router.requestCounts.set url (n + 1) } := by
  obtain ⟨⟨url', n⟩, hargmin, hrest⟩ := bind_eq_ok.mp h
  obtain ⟨m, hget, hret⟩ := bind_eq_ok.mp hrest
  obtain ⟨hn, hleast⟩ := LoadBalancer.argmin_eq_ok hargmin
  cases hret
  rw [get_eq_ok_iff, hn] at hget
  cases hget
  exact ⟨n, hn, hleast, rfl⟩

/-- A call that goes on, but not to its response, stays charged. -/
theorem Consistent.of_moved (h : Consistent s) {index : Nat} {call : Call}
    {phase : Phase} (hcall : s.calls[index]? = some call)
    (hphase : call.phase ≠ .responded) (hnext : phase ≠ .responded) :
    Consistent (resume s index call (s.router, phase)) := by
  constructor
  · intro url
    have hcount := countP_set_add (p := Charged url)
      { call with phase := phase } hcall
    have hsame : Charged url { call with phase := phase } =
        Charged url call := by
      simp [Charged, hphase, hnext]
    rw [hsame, Nat.add_right_cancel_iff] at hcount
    simp only [resume, hcount]
    exact h.counts url
  · intro other hother
    rcases List.mem_or_eq_of_mem_set hother with hmem | rfl
    · exact h.urls other hmem
    · exact h.urls call (List.mem_of_getElem? hcall)

/-- The worker of a call that has not been answered is released. -/
theorem Consistent.of_released (h : Consistent s) {index : Nat} {call : Call}
    (hcall : s.calls[index]? = some call)
    (hphase : call.phase ≠ .responded) :
    ∃ router, s.router.releaseWorker call.workerUrl = .ok router ∧
      Consistent (resume s index call (router, .responded)) := by
  have hmem := List.mem_of_getElem? hcall
  have hurl := h.urls call hmem
  have hpos : 0 < s.calls.countP (Charged call.workerUrl) := by
    rw [List.countP_pos_iff]
    exact ⟨call, hmem, charged_self hphase⟩
  have hget := h.counts call.workerUrl
  rw [if_pos hurl] at hget
  refine ⟨_, bind_eq_ok.mpr ⟨_, get_eq_ok_iff.mpr hget, rfl⟩, ?_, ?_⟩
  · intro url
    have hcount := countP_set_add (p := Charged url)
      { call with phase := .responded } hcall
    rw [if_neg (not_charged_responded url call)] at hcount
    change (s.router.requestCounts.set call.workerUrl (max 0 (_ - 1))).get?
      url = if url ∈ s.router.workerUrls then some ((s.calls.set index
        { call with phase := .responded }).countP (Charged url) : Int) else none
    rw [PyDict.get?_set]
    by_cases heq : url = call.workerUrl
    · subst heq
      rw [if_pos (charged_self hphase)] at hcount
      rw [if_pos rfl, if_pos hurl]
      apply congrArg
      omega
    · rw [if_neg (not_charged_of_ne heq)] at hcount
      rw [if_neg heq, h.counts url, Nat.add_right_cancel hcount]
  · intro other hother
    rcases List.mem_or_eq_of_mem_set hother with hmem | rfl
    · exact h.urls other hmem
    · exact hurl

/-- A request that arrives is charged to a worker charged least. -/
theorem Consistent.of_arrive (h : Consistent s) (endpoint : String) :
    Consistent (arrive s endpoint) := by
  unfold arrive
  split_ifs with hempty
  · exact h
  · split
    · rename_i router url hselect
      obtain ⟨n, hget, -, rfl⟩ := selectWorker_eq_ok hselect
      have hurl : url ∈ s.router.workerUrls := by
        by_contra hurl
        rw [h.counts, if_neg hurl] at hget
        cases hget
      rw [h.counts, if_pos hurl] at hget
      constructor
      · intro url'
        change (s.router.requestCounts.set url (n + 1)).get? url' =
          if url' ∈ s.router.workerUrls then some ((s.calls ++
            [(⟨url, endpoint, .body⟩ : Call)]).countP (Charged url') : Int) else none
        rw [PyDict.get?_set, List.countP_append, List.countP_singleton]
        by_cases heq : url' = url
        · subst heq
          rw [if_pos rfl, if_pos hurl, if_pos (by simp [Charged])]
          injection hget with hget
          rw [← hget]
          rfl
        · have hnew : ¬ Charged url' ⟨url, endpoint, .body⟩ :=
            not_charged_of_ne heq
          rw [if_neg heq, h.counts, if_neg hnew]
          rfl
      · intro call hcall
        rcases List.mem_append.mp hcall with hmem | hmem
        · exact h.urls call hmem
        · rw [List.mem_singleton.mp hmem]
          exact hurl
    · exact h

/-- What one action does to the call it is about: its worker is released with
its response, and nothing changes the counts otherwise. -/
theorem advance_eq_some {router : NaiveRouter} {call : Call} {action : Action}
    {next : NaiveRouter × Phase}
    (h : advance router call action = some next) :
    call.phase.InFlight ∧
      (next.1 = router ∧ next.2 ≠ .responded ∨
        next.2 = .responded ∧
          router.releaseWorker call.workerUrl = .ok next.1) := by
  have hretry : ∀ attempt error, router.retry attempt error ≠ .responded := by
    intro attempt error
    unfold retry
    split_ifs <;> simp
  cases action with
  | arrive endpoint => cases h
  | bodyRead index received =>
      simp only [advance] at h
      split_ifs at h with hphase hreceived <;> cases h
      · refine ⟨by simp [hphase, Phase.InFlight], Or.inl ⟨rfl, ?_⟩⟩
        unfold firstAttempt
        split_ifs <;> simp
      · exact ⟨by simp [hphase, Phase.InFlight], Or.inl ⟨rfl, by simp⟩⟩
  | reply index reply =>
      simp only [advance] at h
      split at h
      · rename_i attempt hphase
        cases h
        refine ⟨by simp [hphase, Phase.InFlight], ?_⟩
        cases reply with
        | output =>
            simp only [replied]
            split
            · rename_i next hrelease
              exact Or.inr ⟨rfl, hrelease⟩
            · exact Or.inl ⟨rfl, hretry _ _⟩
        | timeoutError => exact Or.inl ⟨rfl, hretry _ _⟩
        | clientConnectorError => exact Or.inl ⟨rfl, hretry _ _⟩
        | clientResponseError => exact Or.inl ⟨rfl, by simp [replied]⟩
        | exception => exact Or.inl ⟨rfl, hretry _ _⟩
      · cases h
  | wake index =>
      simp only [advance] at h
      split at h
      · rename_i attempt hphase
        cases h
        exact ⟨by simp [hphase, Phase.InFlight], Or.inl ⟨rfl, by simp⟩⟩
      · cases h
  | cancel index =>
      simp only [advance] at h
      split at h
      · cases h
      · cases h
      · rename_i hresponded hraised
        cases h
        refine ⟨?_, Or.inl ⟨rfl, by simp⟩⟩
        cases hphase : call.phase with
        | responded => exact hresponded hphase
        | raised error => exact hraised error hphase
        | body => trivial
        | forwarding attempt => trivial
        | sleeping attempt => trivial

theorem step_eq_some {action : Action} (h : step s action = some s') :
    (∃ endpoint, action = .arrive endpoint ∧ s' = arrive s endpoint) ∨
      ∃ call next, s.calls[action.call]? = some call ∧
        advance s.router call action = some next ∧
        s' = resume s action.call call next := by
  unfold step at h
  split at h
  · rename_i endpoint
    cases h
    exact Or.inl ⟨endpoint, rfl, rfl⟩
  · obtain ⟨call, hcall, hrest⟩ := Option.bind_eq_some_iff.mp h
    obtain ⟨next, hnext, hresume⟩ := Option.bind_eq_some_iff.mp hrest
    cases hresume
    exact Or.inr ⟨call, next, hcall, hnext, rfl⟩

theorem not_responded_of_inFlight {phase : Phase} (h : phase.InFlight) :
    phase ≠ .responded := by
  rintro rfl
  exact h

theorem Consistent.step {action : Action} (h : Consistent s)
    (hstep : step s action = some s') : Consistent s' := by
  rcases step_eq_some hstep with ⟨endpoint, rfl, rfl⟩ |
    ⟨call, ⟨router, phase⟩, hcall, hadvance, rfl⟩
  · exact h.of_arrive endpoint
  · obtain ⟨hphase, ⟨rfl, hnext⟩ | ⟨rfl, hrelease⟩⟩ :=
      advance_eq_some hadvance
    · exact h.of_moved hcall (not_responded_of_inFlight hphase) hnext
    · obtain ⟨router', hrelease', hconsistent⟩ :=
        h.of_released hcall (not_responded_of_inFlight hphase)
      dsimp only at hrelease
      rw [hrelease] at hrelease'
      cases hrelease'
      exact hconsistent

/-- No call has ended without a response. -/
def NoneRaised (s : State) : Prop :=
  ∀ call ∈ s.calls, ∀ error, call.phase ≠ .raised error

theorem noneRaised_arrive_iff (endpoint : String) :
    NoneRaised (arrive s endpoint) ↔ NoneRaised s := by
  unfold arrive
  split_ifs
  · rfl
  · split
    · simp [NoneRaised, or_imp, forall_and]
    · rfl

theorem noneRaised_resume_iff {index : Nat} {call : Call}
    {next : NaiveRouter × Phase} (hcall : s.calls[index]? = some call)
    (hphase : call.phase.InFlight) :
    NoneRaised (resume s index call next) ↔
      NoneRaised s ∧ ∀ error, next.2 ≠ .raised error := by
  obtain ⟨hindex, hget⟩ := List.getElem?_eq_some_iff.mp hcall
  constructor
  · intro h
    constructor
    · intro other hother error hraised
      obtain ⟨place, hplace⟩ := List.getElem?_of_mem hother
      have hne : index ≠ place := by
        rintro rfl
        rw [hcall] at hplace
        cases hplace
        rw [hraised] at hphase
        exact hphase
      refine h other (List.mem_of_getElem? (i := place) ?_) error hraised
      rw [resume, List.getElem?_set_ne hne, hplace]
    · exact h _ (List.mem_set hindex _)
  · rintro ⟨h, hnext⟩ other hother
    rcases List.mem_or_eq_of_mem_set hother with hmem | rfl
    · exact h other hmem
    · exact hnext

theorem retry_ne_raised_iff {router : NaiveRouter} {attempt : Nat}
    {last : CallError} :
    (∀ error, router.retry attempt last ≠ .raised error) ↔
      attempt + 1 < router.maxAttempts := by
  unfold retry
  split_ifs with h <;> simp [h]

/-- Exactly the answered actions leave the call they are about unraised. -/
theorem advance_ne_raised_iff (h : Consistent s) {action : Action}
    {call : Call} {next : NaiveRouter × Phase}
    (hcall : s.calls[action.call]? = some call)
    (hadvance : advance s.router call action = some next) :
    (∀ error, next.2 ≠ .raised error) ↔ Answered s action := by
  obtain ⟨hphase, -⟩ := advance_eq_some hadvance
  cases action with
  | arrive endpoint => cases hadvance
  | bodyRead index received =>
      simp only [advance] at hadvance
      split_ifs at hadvance with _ hreceived <;> cases hadvance
      · simp only [Answered, hreceived, true_and, firstAttempt]
        split_ifs with hmax <;> simp [hmax]
      · simp [Answered, hreceived]
  | reply index reply =>
      simp only [advance] at hadvance
      split at hadvance
      · rename_i attempt hattempt
        cases hadvance
        have hretry : (∃ call, s.calls[index]? = some call ∧
            call.phase.HasRetry s.router) ↔
              attempt + 1 < s.router.maxAttempts := by
          change s.calls[index]? = some call at hcall
          simp [hcall, hattempt, Phase.HasRetry]
        cases reply with
        | output =>
            obtain ⟨router, hrelease, -⟩ :=
              h.of_released hcall (not_responded_of_inFlight hphase)
            simp [replied, hrelease, Answered]
        | timeoutError =>
            simp [Answered, hretry, replied, retry_ne_raised_iff]
        | clientConnectorError =>
            simp [Answered, hretry, replied, retry_ne_raised_iff]
        | clientResponseError => simp [Answered, replied]
        | exception => simp [Answered, hretry, replied, retry_ne_raised_iff]
      · cases hadvance
  | wake index =>
      simp only [advance] at hadvance
      split at hadvance
      · cases hadvance
        simp [Answered]
      · cases hadvance
  | cancel index =>
      simp only [advance] at hadvance
      split at hadvance <;> cases hadvance
      simp [Answered]

theorem noneRaised_step_iff (h : Consistent s) {action : Action}
    (hstep : NaiveRouter.step s action = some s') :
    NoneRaised s' ↔ NoneRaised s ∧ Answered s action := by
  rcases step_eq_some hstep with ⟨endpoint, rfl, rfl⟩ |
    ⟨call, next, hcall, hadvance, rfl⟩
  · rw [noneRaised_arrive_iff]
    simp [Answered]
  · rw [noneRaised_resume_iff hcall (advance_eq_some hadvance).1,
      advance_ne_raised_iff h hcall hadvance]

/-- A call that has raised stays so. -/
theorem noneRaised_of_step {action : Action}
    (hstep : NaiveRouter.step s action = some s') (h : NoneRaised s') :
    NoneRaised s := by
  rcases step_eq_some hstep with ⟨endpoint, rfl, rfl⟩ |
    ⟨call, next, hcall, hadvance, rfl⟩
  · exact (noneRaised_arrive_iff endpoint).mp h
  · exact ((noneRaised_resume_iff hcall (advance_eq_some hadvance).1).mp h).1

/-- The calls charged are those in flight and those that have raised. -/
theorem countP_charged (calls : List Call) (url : String) :
    calls.countP (Charged url) =
      calls.countP (fun call => call.workerUrl = url ∧ call.phase.InFlight) +
        calls.countP fun call => call.workerUrl = url ∧
          call.phase ≠ .responded ∧ ¬ call.phase.InFlight := by
  induction calls with
  | nil => rfl
  | cons call calls ih =>
      rw [List.countP_cons, List.countP_cons, List.countP_cons, ih]
      by_cases hurl : call.workerUrl = url
      · cases hphase : call.phase <;>
          simp [Charged, hurl, hphase, Phase.InFlight] <;> omega
      · simp [Charged, hurl]

/-- The counts are those in flight exactly while no call has raised. -/
theorem Consistent.counts_iff (h : Consistent s) :
    (∀ url ∈ s.router.workerUrls,
      s.router.requestCounts.get? url = some (inFlight s url : Int)) ↔
      NoneRaised s := by
  have hurl : ∀ url ∈ s.router.workerUrls,
      (s.router.requestCounts.get? url = some (inFlight s url : Int) ↔
        ∀ call ∈ s.calls, call.workerUrl = url → call.phase ≠ .responded →
          call.phase.InFlight) := by
    intro url hurl
    rw [h.counts, if_pos hurl, countP_charged, Option.some_inj, Nat.cast_inj,
      inFlight, Nat.add_eq_left, List.countP_eq_zero]
    simp
  constructor
  · intro hcounts call hcall error hraised
    have hphase := (hurl _ (h.urls call hcall)).mp (hcounts _ (h.urls call hcall))
      call hcall rfl (by simp [hraised])
    rw [hraised] at hphase
    exact hphase
  · intro hnone url hmem
    rw [hurl url hmem]
    intro call hcall _ hresponded
    cases hphase : call.phase with
    | responded => exact hresponded hphase
    | raised error => exact hnone call hcall error hphase
    | body => trivial
    | forwarding attempt => trivial
    | sleeping attempt => trivial

/-- The rest of what the counts are for follows from them. -/
theorem Consistent.countsInFlight_iff (h : Consistent s) :
    CountsInFlight s ↔ NoneRaised s := by
  rw [← h.counts_iff]
  constructor
  · exact fun hcounts => hcounts.counts
  · intro hcounts
    constructor
    · exact hcounts
    · intro hidle url hurl
      rw [hcounts url hurl, Option.some_inj, Nat.cast_eq_zero, inFlight,
        List.countP_eq_zero]
      intro call hcall
      simp [hidle call hcall]
    · intro router url hselect
      obtain ⟨n, hget, hleast, -⟩ := selectWorker_eq_ok hselect
      have hurl : url ∈ s.router.workerUrls := by
        by_contra hurl
        rw [h.counts, if_neg hurl] at hget
        cases hget
      refine ⟨hurl, fun url' hurl' => ?_⟩
      rw [hcounts url hurl] at hget
      cases hget
      exact Int.ofNat_le.mp (hleast url' _ (hcounts url' hurl'))

end Counting

/-- In every state that a run of requests reaches, the counts are those of the
requests in flight exactly if no action so far ended a call without a response
of its worker: what such a call took is never given back. -/
theorem requests_counts_iff {workerUrls : List String} {maxAttempts : Nat}
    {actions : List Action} {t : State}
    (hrun : (requests workerUrls maxAttempts).exec
      (requests workerUrls maxAttempts).initial actions = some t) :
    CountsInFlight t ↔ (requests workerUrls maxAttempts).Guarded Answered
      (requests workerUrls maxAttempts).initial actions := by
  have hconsistent : Consistent t :=
    System.invariant (P := Consistent) (fun s a s' hs hstep => hs.step hstep)
      (consistent_init workerUrls maxAttempts) hrun
  rw [hconsistent.countsInFlight_iff]
  refine System.iff_guarded (I := fun s => Consistent s ∧ NoneRaised s)
    ?_ ?_ ?_ ?_ ⟨consistent_init workerUrls maxAttempts, ?_⟩ hrun
  · exact fun s h => h.2
  · intro s a s' h hanswered hstep
    exact ⟨h.1.step hstep, (noneRaised_step_iff h.1 hstep).mpr ⟨h.2, hanswered⟩⟩
  · intro s a s' h hstep hnone
    exact ((noneRaised_step_iff h.1 hstep).mp hnone).2
  · exact fun s a s' hstep => noneRaised_of_step hstep
  · simp [NoneRaised, requests]

/-- A request is answered on its second attempt while another one waits for
its worker. -/
theorem requests_counts_retried :
    ∃ t, (requests ["w0", "w1"] 3).exec (requests ["w0", "w1"] 3).initial
        [.arrive "generate", .arrive "generate", .bodyRead 0 true,
          .reply 0 .timeoutError, .wake 0, .bodyRead 1 true,
          .reply 0 .output] = some t ∧ CountsInFlight t := by
  obtain ⟨t, ht⟩ : ∃ t, (requests ["w0", "w1"] 3).exec
      (requests ["w0", "w1"] 3).initial [.arrive "generate",
        .arrive "generate", .bodyRead 0 true, .reply 0 .timeoutError, .wake 0,
        .bodyRead 1 true, .reply 0 .output] = some t := ⟨_, rfl⟩
  exact ⟨t, ht, (requests_counts_iff ht).mpr (by decide)⟩

/-- A request that a worker answers with an error status is over, and its
worker still counts it. -/
theorem not_requests_counts :
    ∃ t, (requests ["w0", "w1"] 3).exec (requests ["w0", "w1"] 3).initial
        [.arrive "generate", .bodyRead 0 true,
          .reply 0 .clientResponseError] = some t ∧
      (∀ call ∈ t.calls, ¬ call.phase.InFlight) ∧
      t.router.requestCounts.get? "w0" = some 1 ∧ ¬ CountsInFlight t := by
  refine ⟨_, rfl, by decide, by decide, ?_⟩
  intro h
  have hidle := h.idle (by decide) "w0" (by decide)
  revert hidle
  decide

end NaiveRouter

end SelfDistillation
