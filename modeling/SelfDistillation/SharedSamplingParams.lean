/-
Calls of `FullyAsyncLLMServerManager.generate` that share one
`sampling_params` mapping, as the samples of a batch and the turns of a
trajectory do: which limit each request carries.
-/
import SelfDistillation.Library.Transition
import SelfDistillation.PartialRollout

namespace SelfDistillation

open Transition

variable {τ π : Type}

/-- Where a call stands: before it submits a request, before the answer to it,
or at its end. -/
inductive CallPhase
  | submitting
  | waiting
  | returned
deriving DecidableEq

/-- The local variables of a call. -/
structure GenerateCall (τ π : Type) where
  promptIds : List τ
  key : Option String
  original : Option Int
  final : FinalOutput τ π
  phase : CallPhase

/-- A request, with the number of tokens its call has so far. -/
structure SentRequest (τ : Type) where
  promptIds : List τ
  samplingParams : SamplingParams
  produced : Nat

/-- The mapping, the calls, the requests sent so far, and the calls whose
requests have been answered, in this order. -/
structure SharedCalls (τ π : Type) where
  params : SamplingParams
  calls : List (GenerateCall τ π)
  sent : List (SentRequest τ)
  answered : List Nat

inductive CallAction (τ π : Type)
  | start (promptIds : List τ)
  | submit (call : Nat)
  | answer (call : Nat) (output : ServerOutput τ π)

/-- The head of `generate`, which reads the limit. -/
def GenerateCall.start (promptIds : List τ) (params : SamplingParams) :
    GenerateCall τ π where
  promptIds
  key := limitKey params
  original := originalMaxTokens params
  final := .init
  phase := .submitting

/-- What a call makes of an answer. -/
def GenerateCall.answer (partialRollout : Bool) (call : GenerateCall τ π)
    (params : SamplingParams) (output : ServerOutput τ π) :
    GenerateCall τ π × SamplingParams :=
  let round := afterOutput partialRollout call.key call.original call.final
    params output
  ({ call with
      final := round.1
      phase := if round.2.2 then .returned else .submitting }, round.2.1)

/-- The calls interleave where they await: a request reads the mapping once a
server is acquired, and the answer comes later. -/
def callStep (partialRollout : Bool) (s : SharedCalls τ π) :
    CallAction τ π → Option (SharedCalls τ π)
  | .start promptIds =>
      some { s with calls := s.calls ++ [.start promptIds s.params] }
  | .submit c =>
      (s.calls[c]?.filter (·.phase = .submitting)).map fun call =>
        { s with
          calls := s.calls.set c { call with phase := .waiting }
          sent := s.sent ++ [⟨call.promptIds ++ call.final.tokenIds, s.params,
            call.final.tokenIds.length⟩] }
  | .answer c output =>
      (s.calls[c]?.filter (·.phase = .waiting)).map fun call =>
        let next := call.answer partialRollout s.params output
        { s with
          params := next.2
          calls := s.calls.set c next.1
          answered := s.answered ++ [c] }

def sharedCalls (partialRollout : Bool) (params : SamplingParams) :
    System (SharedCalls τ π) (CallAction τ π) where
  initial := ⟨params, [], [], []⟩
  step := callStep partialRollout

/-- Every call has the limit its caller set, and every request asks for what
the call has left of it. -/
structure GrantsLimit (limit : Option Int) (s : SharedCalls τ π) : Prop where
  calls : ∀ call ∈ s.calls, call.original = limit
  sent : ∀ request ∈ s.sent, originalMaxTokens request.samplingParams =
    limit.map fun max => max - (request.produced : Int)

/-- How many tokens each call has. -/
def SharedCalls.produced (s : SharedCalls τ π) : List Nat :=
  s.calls.map fun call => call.final.tokenIds.length

/-- How many tokens the call has that was answered last. -/
def SharedCalls.lastProduced (s : SharedCalls τ π) : Nat :=
  (s.answered.getLast?.bind fun c => s.produced[c]?).getD 0

/-- Without a limit nothing is written.  With one, a call starts while the
call that was answered last has no token, and submits a request while that
call has as many tokens as itself. -/
def KeepsLimit (limit : Option Int) (s : SharedCalls τ π) :
    CallAction τ π → Prop
  | .start _ => limit = none ∨ s.lastProduced = 0
  | .submit c => limit = none ∨ s.produced[c]? = some s.lastProduced
  | .answer _ _ => True

section Steps

variable {partialRollout : Bool} {s s' : SharedCalls τ π}
  {a : CallAction τ π} {key : Option String} {limit : Option Int}

/-- What a step does. -/
inductive CallCases (partialRollout : Bool) (s : SharedCalls τ π) :
    CallAction τ π → SharedCalls τ π → Prop
  | start (promptIds : List τ) :
      CallCases partialRollout s (.start promptIds)
        { s with calls := s.calls ++ [.start promptIds s.params] }
  | submit {c : Nat} {call : GenerateCall τ π}
      (hcall : s.calls[c]? = some call) :
      CallCases partialRollout s (.submit c)
        { s with
          calls := s.calls.set c { call with phase := .waiting }
          sent := s.sent ++ [⟨call.promptIds ++ call.final.tokenIds, s.params,
            call.final.tokenIds.length⟩] }
  | answer {c : Nat} {call : GenerateCall τ π}
      (hcall : s.calls[c]? = some call) (output : ServerOutput τ π) :
      CallCases partialRollout s (.answer c output)
        { s with
          params := (call.answer partialRollout s.params output).2
          calls := s.calls.set c (call.answer partialRollout s.params output).1
          answered := s.answered ++ [c] }

theorem callStep_cases (h : callStep partialRollout s a = some s') :
    CallCases partialRollout s a s' := by
  cases a with
  | start promptIds =>
      cases h
      exact .start promptIds
  | submit c =>
      obtain ⟨call, hcall, rfl⟩ := Option.map_eq_some_iff.mp h
      exact .submit (Option.filter_eq_some_iff.mp hcall).1
  | answer c output =>
      obtain ⟨call, hcall, rfl⟩ := Option.map_eq_some_iff.mp h
      exact .answer (Option.filter_eq_some_iff.mp hcall).1 output

/-- Replacing an entry changes nothing a function does not see. -/
theorem map_set_of_eq {α β : Type} {f : α → β} {xs : List α} {i : Nat}
    {x x' : α} (hx : xs[i]? = some x) (hf : f x' = f x) :
    (xs.set i x').map f = xs.map f := by
  rw [List.map_set, hf]
  apply List.ext_getElem?
  intro j
  rw [List.getElem?_set]
  split
  · rename_i heq
    subst heq
    obtain ⟨hi, rfl⟩ := List.getElem?_eq_some_iff.mp hx
    simp [hi]
  · rfl

theorem forall_set_iff {α β : Type} {f : α → β} {P : β → Prop}
    {xs : List α} {i : Nat} {x x' : α} (hx : xs[i]? = some x)
    (hf : f x' = f x) :
    (∀ y ∈ xs.set i x', P (f y)) ↔ ∀ y ∈ xs, P (f y) := by
  rw [← List.forall_mem_map (P := P), map_set_of_eq hx hf,
    List.forall_mem_map]

/-- No step changes the limit of a call that is there. -/
theorem forall_original_set_iff {c : Nat} {call call' : GenerateCall τ π}
    {calls : List (GenerateCall τ π)} (hcall : calls[c]? = some call)
    (horiginal : call'.original = call.original) :
    (∀ other ∈ calls.set c call', other.original = limit) ↔
      ∀ other ∈ calls, other.original = limit :=
  forall_set_iff (P := fun original => original = limit) hcall horiginal

theorem forall_key_set_iff {c : Nat} {call call' : GenerateCall τ π}
    {calls : List (GenerateCall τ π)} (hcall : calls[c]? = some call)
    (hkey : call'.key = call.key) :
    (∀ other ∈ calls.set c call', other.key = key) ↔
      ∀ other ∈ calls, other.key = key :=
  forall_set_iff (P := fun callKey => callKey = key) hcall hkey

theorem lastProduced_start (promptIds : List τ) :
    SharedCalls.lastProduced
        { s with calls := s.calls ++ [.start promptIds s.params] } =
      s.lastProduced := by
  simp only [SharedCalls.lastProduced, SharedCalls.produced, List.map_append]
  cases s.answered.getLast? with
  | none => rfl
  | some c =>
      simp only [Option.bind_some, List.getElem?_append]
      split
      · rfl
      · rename_i hc
        rw [List.getElem?_eq_none (Nat.le_of_not_lt hc)]
        cases c - (s.calls.map _).length with
        | zero => rfl
        | succ k => rfl

theorem produced_submit {c : Nat} {call : GenerateCall τ π}
    (hcall : s.calls[c]? = some call) :
    (s.calls.set c { call with phase := .waiting }).map
        (fun call => call.final.tokenIds.length) = s.produced :=
  map_set_of_eq hcall rfl

theorem lastProduced_answer {c : Nat} {call call' : GenerateCall τ π}
    (hcall : s.calls[c]? = some call) (params : SamplingParams) :
    SharedCalls.lastProduced
        ⟨params, s.calls.set c call', s.sent, s.answered ++ [c]⟩ =
      call'.final.tokenIds.length := by
  have hc : c < s.calls.length := (List.getElem?_eq_some_iff.mp hcall).1
  simp [SharedCalls.lastProduced, SharedCalls.produced, hc]

/-- The mapping holds what the call that was answered last left of the limit,
and all calls have read the same key. -/
structure SharesLimit (key : Option String) (limit : Option Int)
    (s : SharedCalls τ π) : Prop where
  tracks : Tracks key limit s.lastProduced s.params
  keys : ∀ call ∈ s.calls, call.key = key
  grants : GrantsLimit limit s

theorem map_sub_eq_map_sub_iff {limit : Option Int} {m n : Nat} :
    (limit.map fun max => max - (m : Int)) =
        (limit.map fun max => max - (n : Int)) ↔ limit = none ∨ m = n := by
  cases limit with
  | none => simp
  | some max =>
      simp only [Option.map_some, Option.some.injEq, reduceCtorEq, false_or]
      omega

theorem map_sub_eq_self_iff {limit : Option Int} {m : Nat} :
    (limit.map fun max => max - (m : Int)) = limit ↔
      limit = none ∨ m = 0 := by
  cases limit with
  | none => simp
  | some max =>
      simp only [Option.map_some, Option.some.injEq, reduceCtorEq, false_or]
      omega

/-- No step repairs a limit. -/
theorem grantsLimit_backward (hstep : callStep partialRollout s a = some s')
    (hgrants : GrantsLimit limit s') : GrantsLimit limit s := by
  obtain ⟨hcalls, hsent⟩ := hgrants
  cases callStep_cases hstep with
  | start promptIds =>
      exact ⟨fun call hcall => hcalls call (List.mem_append_left _ hcall),
        hsent⟩
  | submit hcall =>
      refine ⟨?_, fun request hrequest =>
        hsent request (List.mem_append_left _ hrequest)⟩
      exact (forall_original_set_iff hcall (by rfl)).mp hcalls
  | answer hcall output =>
      exact ⟨(forall_original_set_iff hcall (by rfl)).mp hcalls, hsent⟩

/-- The limits are granted after a step exactly when it meets the guard. -/
theorem grantsLimit_step_iff (hshares : SharesLimit key limit s)
    (hstep : callStep partialRollout s a = some s') :
    GrantsLimit limit s' ↔ KeepsLimit limit s a := by
  obtain ⟨htracks, hkeys, hgrants⟩ := hshares
  cases callStep_cases hstep with
  | start promptIds =>
      have hnew : (GenerateCall.start promptIds s.params :
          GenerateCall τ π).original = limit ↔
            limit = none ∨ s.lastProduced = 0 := by
        rw [← map_sub_eq_self_iff, ← htracks.maxTokens]
        rfl
      refine Iff.trans ?_ hnew
      constructor
      · exact fun h => h.calls _ (List.mem_append_right _ List.mem_cons_self)
      · intro hlimit
        refine ⟨fun call hcall => ?_, hgrants.sent⟩
        rcases List.mem_append.mp hcall with hold | hfresh
        · exact hgrants.calls call hold
        · rw [List.mem_singleton.mp hfresh]
          exact hlimit
  | @submit c call hcall =>
      have hproduced : s.produced[c]? = some call.final.tokenIds.length := by
        rw [SharedCalls.produced, List.getElem?_map, hcall, Option.map_some]
      have hnew : (originalMaxTokens s.params =
          limit.map fun max => max - (call.final.tokenIds.length : Int)) ↔
            KeepsLimit limit s (CallAction.submit c) := by
        rw [htracks.maxTokens, map_sub_eq_map_sub_iff, KeepsLimit, hproduced,
          Option.some.injEq, eq_comm (a := s.lastProduced)]
      refine Iff.trans ?_ hnew
      constructor
      · exact fun h => h.sent _ (List.mem_append_right _ List.mem_cons_self)
      · intro hlimit
        refine ⟨?_, fun request hrequest => ?_⟩
        · exact (forall_original_set_iff hcall (by rfl)).mpr hgrants.calls
        · rcases List.mem_append.mp hrequest with hold | hfresh
          · exact hgrants.sent request hold
          · rw [List.mem_singleton.mp hfresh]
            exact hlimit
  | answer hcall output =>
      refine iff_of_true ⟨?_, hgrants.sent⟩ trivial
      exact (forall_original_set_iff hcall (by rfl)).mpr hgrants.calls

/-- A guarded step keeps track of the limit. -/
theorem sharesLimit_step (hshares : SharesLimit key limit s)
    (hkeeps : KeepsLimit limit s a)
    (hstep : callStep partialRollout s a = some s') :
    SharesLimit key limit s' := by
  have hgrants := (grantsLimit_step_iff hshares hstep).mpr hkeeps
  obtain ⟨htracks, hkeys, hold⟩ := hshares
  cases callStep_cases hstep with
  | start promptIds =>
      refine ⟨?_, fun call hcall => ?_, hgrants⟩
      · rw [lastProduced_start]
        exact htracks
      · rcases List.mem_append.mp hcall with hmem | hfresh
        · exact hkeys call hmem
        · rw [List.mem_singleton.mp hfresh]
          exact htracks.limitKey
  | submit hcall =>
      refine ⟨?_, (forall_key_set_iff hcall (by rfl)).mpr hkeys, hgrants⟩
      rw [SharedCalls.lastProduced, SharedCalls.produced,
        produced_submit hcall]
      exact htracks
  | @answer c call hcall output =>
      have hmem := List.mem_of_getElem? hcall
      refine ⟨?_, (forall_key_set_iff hcall (by rfl)).mpr hkeys, hgrants⟩
      rw [lastProduced_answer hcall]
      simp only [GenerateCall.answer, afterOutput_params,
        afterOutput_tokenIds, hkeys call hmem, hold.calls call hmem]
      exact htracks.update _

end Steps

/-- In every run, whatever the servers answer, each call has the limit its
caller set and each request asks for what is left of it exactly when there is
no limit, or no call reads what another one has left. -/
theorem run_grantsLimit_iff (partialRollout : Bool) (params : SamplingParams)
    (actions : List (CallAction τ π)) (s : SharedCalls τ π)
    (hrun : (sharedCalls partialRollout params).exec
      (sharedCalls partialRollout params).initial actions = some s) :
    GrantsLimit (originalMaxTokens params) s ↔
      (sharedCalls partialRollout params).Guarded
        (KeepsLimit (originalMaxTokens params))
        (sharedCalls partialRollout params).initial actions := by
  refine System.iff_guarded (I := SharesLimit (limitKey params)
    (originalMaxTokens params)) (fun s h => h.grants)
    (fun s a s' hI hkeeps hstep => sharesLimit_step hI hkeeps hstep)
    (fun s a s' hI hstep h => (grantsLimit_step_iff hI hstep).mp h)
    (fun s a s' hstep h => grantsLimit_backward hstep h) ?_ hrun
  refine ⟨tracks_initial params, ?_, ?_, ?_⟩
  · intro call hcall
    cases hcall
  · intro call hcall
    cases hcall
  · intro request hrequest
    cases hrequest

/-- A round of a call that is alone. -/
theorem exec_round {partialRollout : Bool} {initial params : SamplingParams}
    {call : GenerateCall τ π} (hphase : call.phase = .submitting)
    (sent : List (SentRequest τ)) (answered : List Nat)
    (output : ServerOutput τ π) (actions : List (CallAction τ π)) :
    (sharedCalls partialRollout initial).exec
        ⟨params, [call], sent, answered⟩
        (.submit 0 :: .answer 0 output :: actions) =
      (sharedCalls partialRollout initial).exec
        ⟨(call.answer partialRollout params output).2,
          [(call.answer partialRollout params output).1],
          sent ++ [⟨call.promptIds ++ call.final.tokenIds, params,
            call.final.tokenIds.length⟩], answered ++ [0]⟩ actions := by
  simp [System.exec, sharedCalls, callStep, Option.filter, hphase,
    GenerateCall.answer]

/-- A call that is alone does what the loop of `generate` does. -/
theorem run_of_generateLoop {partialRollout : Bool} {server : Server τ π}
    {fuel request : Nat} {initial params : SamplingParams}
    {result : FinalOutput τ π × SamplingParams} (call : GenerateCall τ π)
    (hphase : call.phase = .submitting)
    (h : generateLoop partialRollout server call.promptIds call.key
      call.original fuel request call.final params = some result)
    (sent : List (SentRequest τ)) (answered : List Nat) :
    ∃ actions sent' answered',
      (sharedCalls partialRollout initial).exec
          ⟨params, [call], sent, answered⟩ actions =
        some ⟨result.2, [{ call with final := result.1, phase := .returned }],
          sent', answered'⟩ := by
  induction fuel generalizing request call params sent answered with
  | zero => cases h
  | succ fuel ih =>
      rw [generateLoop] at h
      let output :=
        server request (call.promptIds ++ call.final.tokenIds) params
      let next := call.answer partialRollout params output
      split at h
      · rename_i hends
        cases h
        have hphase' : next.1.phase = .returned := if_pos hends
        refine ⟨[.submit 0, .answer 0 output],
          sent ++ [⟨call.promptIds ++ call.final.tokenIds, params,
            call.final.tokenIds.length⟩], answered ++ [0], ?_⟩
        rw [exec_round hphase, System.exec, ← hphase']
        rfl
      · rename_i hends
        have hphase' : next.1.phase = .submitting := if_neg hends
        obtain ⟨actions, sent', answered', hrest⟩ :=
          ih next.1 hphase' h _ (answered ++ [0])
        exact ⟨.submit 0 :: .answer 0 output :: actions, sent', answered',
          (exec_round hphase sent answered output actions).trans hrest⟩

/-- `generate` is the run of a single call on a mapping of its own. -/
theorem run_of_generate {partialRollout : Bool} {server : Server τ π}
    {fuel : Nat} {promptIds : List τ} {params : SamplingParams}
    {result : FinalOutput τ π × SamplingParams}
    (h : generate partialRollout server fuel promptIds params =
      some result) :
    ∃ actions s, (sharedCalls partialRollout params).exec
        (sharedCalls partialRollout params).initial actions = some s ∧
      s.params = result.2 ∧
      s.calls.map GenerateCall.final = [result.1] := by
  obtain ⟨actions, sent, answered, hrun⟩ :=
    run_of_generateLoop (.start promptIds params) rfl h [] []
  exact ⟨.start promptIds :: actions, _, hrun, rfl, rfl⟩

instance (limit : Option Int) (s : SharedCalls τ π) (a : CallAction τ π) :
    Decidable (KeepsLimit limit s a) := by
  cases a <;> unfold KeepsLimit <;> infer_instance

section Runs

def fiveNewTokens : SamplingParams :=
  PyDict.empty.set "max_new_tokens" (some 5)

def withTokens (tokenIds : List Nat) (stopReason : StopReason) :
    ServerOutput Nat Nat where
  tokenIds
  logProbs := none
  stopReason := some stopReason
  numPreempted := none
  globalSteps := none

/-- Two samples of a batch send their requests before one is answered; the
first is aborted and resumed. -/
def abortedOnce : List (CallAction Nat Nat) :=
  [.start [1], .start [2], .submit 0, .submit 1,
    .answer 0 (withTokens [7, 8, 9] .aborted), .submit 0,
    .answer 1 (withTokens [6] .completed),
    .answer 0 (withTokens [5, 4] .completed)]

theorem run_grantsLimit_iff_abortedOnce :
    ∃ s, (sharedCalls true fiveNewTokens).exec
        (sharedCalls true fiveNewTokens).initial abortedOnce = some s ∧
      GrantsLimit (originalMaxTokens fiveNewTokens) s := by
  obtain ⟨s, hrun⟩ := Option.isSome_iff_exists.mp
    (show ((sharedCalls true fiveNewTokens).exec
      (sharedCalls true fiveNewTokens).initial abortedOnce).isSome = true by
        decide +kernel)
  exact ⟨s, hrun, (run_grantsLimit_iff true fiveNewTokens abortedOnce s
    hrun).mpr (by decide +kernel)⟩

/-- The second turn of a trajectory starts when the first has ended. -/
def secondTurn : List (CallAction Nat Nat) :=
  [.start [1], .submit 0, .answer 0 (withTokens [7, 8, 9] .completed),
    .start [1, 7, 8, 9]]

/-- A sample sends its request after another one has been answered. -/
def lateRequest : List (CallAction Nat Nat) :=
  [.start [1], .start [2], .submit 0,
    .answer 0 (withTokens [7, 8, 9] .completed), .submit 1]

/-- The turn is granted and the request asks for 2 tokens of 5. -/
theorem run_grantsLimit_fails :
    (∃ s, (sharedCalls true fiveNewTokens).exec
        (sharedCalls true fiveNewTokens).initial secondTurn = some s ∧
      ¬ GrantsLimit (originalMaxTokens fiveNewTokens) s) ∧
    ∃ s, (sharedCalls true fiveNewTokens).exec
        (sharedCalls true fiveNewTokens).initial lateRequest = some s ∧
      ¬ GrantsLimit (originalMaxTokens fiveNewTokens) s := by
  refine ⟨⟨_, rfl, fun h => ?_⟩, _, rfl, fun h => ?_⟩
  · exact absurd (h.calls _ (List.mem_of_getElem? (i := 1) rfl))
      (by decide +kernel)
  · exact absurd (h.sent _ (List.mem_of_getElem? (i := 1) rfl))
      (by decide +kernel)

end Runs

end SelfDistillation
