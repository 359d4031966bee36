/-
`OneStepOffRayTrainer` (verl/experimental/one_step_off_policy/ray_trainer.py)
over standalone rollout replicas: the batch of the next step is generated while
one step is trained on, and a weight synchronisation aborts what is in flight.
-/
import SelfDistillation.PartialRollout
import SelfDistillation.Library.Transition

namespace SelfDistillation

namespace OneStepOff

open Transition

variable {ρ : Type}

/-- The `finish_reason` of a request. -/
inductive FinishReason
  | stop
  | length
  | abort
deriving DecidableEq

/-- `stop_reason` in `generate` of vllm_async_server.py -/
def FinishReason.stopReason : FinishReason → StopReason
  | .abort => .aborted
  | .stop | .length => .completed

/-- A `TokenOutput`; of each token the version of the weights that produced
it. -/
structure Output where
  versions : List ℕ
  stopReason : StopReason
deriving DecidableEq

/-- A request in flight, with what it has produced. -/
structure Request (ρ : Type) where
  replica : ρ
  versions : List ℕ
deriving DecidableEq

/-- The run of an agent loop: what `AsyncLLMServerManager.generate` returned to
it, the call it waits for, and whether it has returned. -/
structure Response (ρ : Type) where
  outputs : List Output
  request : Option (Request ρ)
  ended : Bool
deriving DecidableEq

def Response.fresh : Response ρ where
  outputs := []
  request := none
  ended := false

/-- `server.generate` returns what the request has produced; the server manager
hands it on, whatever the stop reason is. -/
def Response.receive (response : Response ρ) (request : Request ρ)
    (reason : FinishReason) : Response ρ :=
  { response with
    outputs := response.outputs ++ [⟨request.versions, reason.stopReason⟩]
    request := none }

/-- `abort_all_requests` of one replica -/
def Response.abortAt [DecidableEq ρ] (response : Response ρ) (replica : ρ) :
    Response ρ :=
  match response.request with
  | some request =>
      if request.replica = replica then response.receive request .abort
      else response
  | none => response

/-- What happens to a response outside the driver. -/
inductive Event (ρ : Type)
  | submit (replica : ρ)
  | emit
  | finish (reason : FinishReason)
  | return
deriving DecidableEq

/-- A paused engine takes requests and produces nothing. An agent loop may
call the server any number of times before it returns. -/
def Response.step [DecidableEq ρ] (replicas paused : List ρ) (loaded : ℕ)
    (response : Response ρ) : Event ρ → Option (Response ρ)
  | .submit replica =>
      if response.ended = false ∧ response.request = none ∧
          replica ∈ replicas then
        some { response with request := some ⟨replica, []⟩ }
      else none
  | .emit =>
      match response.request with
      | some request =>
          if request.replica ∈ paused then none
          else some { response with
            request := some ⟨request.replica, request.versions ++ [loaded]⟩ }
      | none => none
  | .finish reason =>
      match response.request with
      | some request =>
          if request.replica ∈ paused ∨ reason = .abort then none
          else some (response.receive request reason)
      | none => none
  | .return =>
      if response.request = none ∧ response.outputs ≠ [] then
        some { response with ended := true }
      else none

/-- The task of `_async_gen_next_batch`: not created, created and not run yet,
waiting for `generate_sequences`, or done; it returns `None` when the data
is exhausted. -/
inductive GenerationTask (ρ : Type)
  | none
  | created
  | generating (responses : List (Response ρ))
  | returned (batch : Option (List (Response ρ)))
deriving DecidableEq

def GenerationTask.responses : GenerationTask ρ → List (Response ρ)
  | .generating responses => responses
  | .returned batch => batch.getD []
  | _ => []

def GenerationTask.abortAt [DecidableEq ρ] (replica : ρ) :
    GenerationTask ρ → GenerationTask ρ
  | .generating responses =>
      .generating (responses.map fun response => response.abortAt replica)
  | task => task

/-- Where `fit`, `fit_step` and `_fit_generate` are. -/
inductive Stage
  | initialWeights
  | firstGeneration
  | prepareStep
  | awaitBatch
  | syncRolloutWeights
  | nextGeneration
  | computeReward
  | computeLogProb
  | computeRefLogProb
  | computeCritic
  | computeAdvantage
  | updateCritic
  | updateActor
  | updateWeights
  | dumpData
  | validate
  | saveCheckpoint
  | postprocessStep
  | returned
deriving DecidableEq

def Stage.next : Stage → Stage
  | .initialWeights => .firstGeneration
  | .firstGeneration => .prepareStep
  | .prepareStep => .awaitBatch
  | .awaitBatch => .syncRolloutWeights
  | .syncRolloutWeights => .nextGeneration
  | .nextGeneration => .computeReward
  | .computeReward => .computeLogProb
  | .computeLogProb => .computeRefLogProb
  | .computeRefLogProb => .computeCritic
  | .computeCritic => .computeAdvantage
  | .computeAdvantage => .updateCritic
  | .updateCritic => .updateActor
  | .updateActor => .updateWeights
  | .updateWeights => .dumpData
  | .dumpData => .validate
  | .validate => .saveCheckpoint
  | .saveCheckpoint => .postprocessStep
  | .postprocessStep => .prepareStep
  | .returned => .returned

/-- The stages that call `_fit_update_weights`. -/
def Stage.synchronises : Stage → Bool
  | .initialWeights | .syncRolloutWeights | .updateWeights => true
  | _ => false

/-- `CheckpointEngineManager.update_weights`: replicas whose
`abort_all_requests`, or whose `resume_generation`, has not returned. -/
inductive SyncPhase (ρ : Type)
  | aborting (waiting : List ρ)
  | resuming (waiting : List ρ)
deriving DecidableEq

structure Config (ρ : Type) where
  replicas : List ρ
  criticWarmup : ℕ
  totalTrainingSteps : ℕ
  /-- `_VLLM_VERSION >= version.parse("0.12.0")` -/
  pausesGeneration : Bool

structure State (ρ : Type) where
  stage : Stage
  sync : Option (SyncPhase ρ)
  globalSteps : ℕ
  isLastStep : Bool
  /-- The version of the trainer's weights. -/
  trained : ℕ
  /-- The version of the replicas' weights. -/
  loaded : ℕ
  paused : List ρ
  future : GenerationTask ρ
  /-- The batches trained on. -/
  used : List (List (Response ρ))
deriving DecidableEq

/-- `fit` after `_load_checkpoint`. -/
def State.init (globalSteps : ℕ) : State ρ where
  stage := .initialWeights
  sync := none
  globalSteps := globalSteps
  isLastStep := false
  trained := 0
  loaded := 0
  paused := []
  future := .none
  used := []

/-- What the driver does between two awaits. -/
def State.advance (cfg : Config ρ) (s : State ρ) : Option (State ρ) :=
  match s.stage with
  | .initialWeights | .syncRolloutWeights | .updateWeights =>
      if cfg.criticWarmup ≤ s.globalSteps then
        some { s with sync := some (.aborting cfg.replicas) }
      else some { s with stage := s.stage.next }
  | .firstGeneration =>
      some { s with
        stage := .prepareStep
        globalSteps := s.globalSteps + 1
        future := .created }
  | .prepareStep =>
      some { s with
        stage := .awaitBatch
        isLastStep := decide (cfg.totalTrainingSteps ≤ s.globalSteps) }
  | .awaitBatch =>
      match s.future with
      | .returned (some batch) =>
          some { s with
            stage := .syncRolloutWeights
            future := .none
            used := s.used ++ [batch] }
      -- `None` cannot be unpacked
      | _ => none
  | .nextGeneration =>
      some { s with
        stage := .computeReward
        future := if s.isLastStep then .none else .created }
  | .updateActor =>
      some { s with
        stage := .updateWeights
        trained := if cfg.criticWarmup ≤ s.globalSteps then s.trained + 1
          else s.trained }
  | .postprocessStep =>
      some { s with
        stage := if s.isLastStep then .returned else .prepareStep
        globalSteps := s.globalSteps + 1 }
  | .returned => none
  | stage => some { s with stage := stage.next }

inductive Action (ρ : Type)
  | advance
  | abortRequests (replica : ρ) (fails : Bool)
  | loadWeights
  | resumeGeneration (replica : ρ)
  | synchronised
  | dispatch (responses : Option ℕ)
  | respond (i : ℕ) (event : Event ρ)
  | gather
deriving DecidableEq

/-- The driver blocks its event loop during a synchronisation; agent loops and
servers are other processes and go on. -/
def step [DecidableEq ρ] (cfg : Config ρ) (s : State ρ) :
    Action ρ → Option (State ρ)
  | .advance => if s.sync = none then s.advance cfg else none
  | .abortRequests replica fails =>
      match s.sync with
      | some (.aborting waiting) =>
          if replica ∈ waiting then
            let s := { s with sync := some (.aborting (waiting.erase replica)) }
            -- `except Exception` logs the error and returns
            if fails then some s
            else some { s with
              paused := if cfg.pausesGeneration then replica :: s.paused
                else s.paused
              future := s.future.abortAt replica }
          else none
      | _ => none
  | .loadWeights =>
      match s.sync with
      | some (.aborting []) =>
          some { s with
            sync := some (.resuming cfg.replicas)
            loaded := s.trained }
      | _ => none
  | .resumeGeneration replica =>
      match s.sync with
      | some (.resuming waiting) =>
          if replica ∈ waiting then
            some { s with
              sync := some (.resuming (waiting.erase replica))
              paused := s.paused.filter fun r => r ≠ replica }
          else none
      | _ => none
  | .synchronised =>
      match s.sync with
      | some (.resuming []) =>
          some { s with sync := none, stage := s.stage.next }
      | _ => none
  | .dispatch responses =>
      if s.sync = none ∧ s.future = .created then
        some { s with
          future := match responses with
            | some n => .generating (List.replicate n .fresh)
            | none => .returned none }
      else none
  | .respond i event =>
      match s.future with
      | .generating responses =>
          match responses[i]? with
          | some response =>
              (response.step cfg.replicas s.paused s.loaded event).map
                fun response' =>
                  { s with future := .generating (responses.set i response') }
          | none => none
      | _ => none
  | .gather =>
      match s.future with
      | .generating responses =>
          if ∀ response ∈ responses, response.ended = true then
            some { s with future := .returned (some responses) }
          else none
      | _ => none

/-- A run of the trainer from a checkpoint. -/
def system [DecidableEq ρ] (cfg : Config ρ) (globalSteps : ℕ) :
    System (State ρ) (Action ρ) where
  initial := .init globalSteps
  step := step cfg

/-- The versions of the weights that produced the tokens so far. -/
def Response.versions (response : Response ρ) : List ℕ :=
  response.outputs.flatMap Output.versions ++
    (response.request.map Request.versions).getD []

/-- The response ended by a stop token or its length limit, every call of the
server included, and all its tokens come from the same weights. -/
structure Response.Whole (response : Response ρ) : Prop where
  generated : response.outputs ≠ []
  completed : ∀ output ∈ response.outputs, output.stopReason = .completed
  version : ∃ v, ∀ w ∈ response.versions, w = v

/-- The synchronisation after the actor update finds no request in flight
where it aborts, and no response between two of its tokens where it loads the
weights. -/
def Undisturbed (s : State ρ) : Action ρ → Prop
  | .abortRequests replica fails =>
      s.stage = .updateWeights → fails = false →
        ∀ response ∈ s.future.responses,
          response.request.map Request.replica ≠ some replica
  | .loadWeights =>
      s.stage = .updateWeights →
        ∀ response ∈ s.future.responses,
          response.ended = true ∨ response.versions = []
  | _ => True

instance [DecidableEq ρ] (s : State ρ) :
    ∀ a, Decidable (Undisturbed s a)
  | .abortRequests replica fails => inferInstanceAs (Decidable
      (s.stage = .updateWeights → fails = false →
        ∀ response ∈ s.future.responses,
          response.request.map Request.replica ≠ some replica))
  | .loadWeights => inferInstanceAs (Decidable
      (s.stage = .updateWeights → ∀ response ∈ s.future.responses,
        response.ended = true ∨ response.versions = []))
  | .advance | .resumeGeneration _ | .synchronised | .dispatch _ |
    .respond _ _ | .gather => isTrue trivial

/-- What holds of a response while no synchronisation has disturbed it. -/
structure Response.Sound (loaded : ℕ) (response : Response ρ) : Prop where
  completed : ∀ output ∈ response.outputs, output.stopReason = .completed
  version : ∃ v, ∀ w ∈ response.versions, w = v
  current : response.ended = false → ∀ w ∈ response.versions, w = loaded
  closed : response.ended = true →
    response.request = none ∧ response.outputs ≠ []

section Responses

variable {loaded : ℕ} {response response' : Response ρ} {request : Request ρ}

theorem sound_fresh (loaded : ℕ) :
    (Response.fresh : Response ρ).Sound loaded where
  completed output houtput := by cases houtput
  version := ⟨loaded, fun w hw => by cases hw⟩
  current _ w hw := by cases hw
  closed hended := by cases hended

theorem Response.Sound.whole (h : response.Sound loaded)
    (hended : response.ended = true) : response.Whole where
  generated := (h.closed hended).2
  completed := h.completed
  version := h.version

/-- An agent loop that waits for a call has not returned. -/
theorem Response.Sound.not_ended (h : response.Sound loaded)
    (hrequest : response.request = some request) : response.ended = false := by
  rw [← Bool.not_eq_true]
  intro hended
  rw [(h.closed hended).1] at hrequest
  cases hrequest

theorem versions_receive (reason : FinishReason)
    (hrequest : response.request = some request) :
    (response.receive request reason).versions = response.versions := by
  simp [Response.versions, Response.receive, hrequest]

theorem Response.Sound.submit (h : response.Sound loaded)
    (hended : response.ended = false) (hrequest : response.request = none)
    (replica : ρ) :
    Response.Sound loaded { response with request := some ⟨replica, []⟩ } := by
  have hversions : Response.versions
      { response with request := some ⟨replica, []⟩ } = response.versions := by
    simp [Response.versions, hrequest]
  constructor
  · exact h.completed
  · rw [hversions]
    exact h.version
  · rw [hversions]
    exact h.current
  · intro htrue
    rw [hended] at htrue
    cases htrue

theorem Response.Sound.emit (h : response.Sound loaded)
    (hrequest : response.request = some request) :
    Response.Sound loaded { response with
      request := some ⟨request.replica, request.versions ++ [loaded]⟩ } := by
  have hended := h.not_ended hrequest
  have hcurrent : ∀ w ∈ Response.versions { response with
      request := some ⟨request.replica, request.versions ++ [loaded]⟩ },
      w = loaded := by
    intro w hw
    have hsplit : w ∈ response.versions ∨ w = loaded := by
      simpa [Response.versions, hrequest, or_assoc] using hw
    exact hsplit.elim (h.current hended w) id
  constructor
  · exact h.completed
  · exact ⟨loaded, hcurrent⟩
  · exact fun _ => hcurrent
  · intro htrue
    rw [hended] at htrue
    cases htrue

theorem Response.Sound.finish (h : response.Sound loaded)
    (hrequest : response.request = some request) {reason : FinishReason}
    (hreason : reason ≠ .abort) :
    (response.receive request reason).Sound loaded := by
  have hversions := versions_receive reason hrequest
  constructor
  · intro output houtput
    rcases List.mem_append.mp houtput with hold | hnew
    · exact h.completed output hold
    · rw [List.mem_singleton.mp hnew]
      cases reason with
      | abort => exact absurd rfl hreason
      | stop => rfl
      | length => rfl
  · rw [hversions]
    exact h.version
  · rw [hversions]
    exact h.current
  · exact fun _ => ⟨rfl, List.append_ne_nil_of_right_ne_nil _ (by simp)⟩

theorem Response.Sound.step [DecidableEq ρ] {replicas paused : List ρ}
    {event : Event ρ} (h : response.Sound loaded)
    (hstep : response.step replicas paused loaded event = some response') :
    response'.Sound loaded := by
  cases event with
  | submit replica =>
      obtain ⟨hguard, heq⟩ := Option.ite_none_right_eq_some.mp hstep
      cases heq
      exact h.submit hguard.1 hguard.2.1 replica
  | emit =>
      cases hrequest : response.request with
      | none => simp [Response.step, hrequest] at hstep
      | some request =>
          simp only [Response.step, hrequest] at hstep
          obtain ⟨-, heq⟩ := Option.ite_none_left_eq_some.mp hstep
          cases heq
          exact h.emit hrequest
  | finish reason =>
      cases hrequest : response.request with
      | none => simp [Response.step, hrequest] at hstep
      | some request =>
          simp only [Response.step, hrequest] at hstep
          obtain ⟨hguard, heq⟩ := Option.ite_none_left_eq_some.mp hstep
          cases heq
          exact h.finish hrequest fun habort => hguard (.inr habort)
  | «return» =>
      obtain ⟨hguard, heq⟩ := Option.ite_none_right_eq_some.mp hstep
      cases heq
      exact ⟨h.completed, h.version, fun hfalse => (by cases hfalse),
        fun _ => hguard⟩

/-- Weights may be loaded where the response has no token, or gets no more. -/
theorem Response.Sound.load (h : response.Sound loaded)
    (hquiet : response.ended = true ∨ response.versions = [])
    (trained : ℕ) : response.Sound trained := by
  refine ⟨h.completed, h.version, ?_, h.closed⟩
  intro hended w hw
  rcases hquiet with htrue | hnil
  · rw [hended] at htrue
    cases htrue
  · rw [hnil] at hw
    cases hw

theorem abortAt_eq_self [DecidableEq ρ] {replica : ρ}
    (h : response.request.map Request.replica ≠ some replica) :
    response.abortAt replica = response := by
  cases hrequest : response.request with
  | none => simp [Response.abortAt, hrequest]
  | some request =>
      have hne : request.replica ≠ replica := by
        simpa [hrequest] using h
      simp [Response.abortAt, hrequest, hne]

theorem task_abortAt_eq_self [DecidableEq ρ] {task : GenerationTask ρ}
    {replica : ρ} (h : ∀ response ∈ task.responses,
      response.request.map Request.replica ≠ some replica) :
    task.abortAt replica = task := by
  cases task with
  | generating responses =>
      rw [GenerationTask.abortAt]
      congr 1
      conv_rhs => rw [← List.map_id responses]
      exact List.map_congr_left fun response hresponse =>
        abortAt_eq_self (h response hresponse)
  | none => rfl
  | created => rfl
  | returned batch => rfl

end Responses

/-- No generation is under way: the batch was taken, and the next task is not
created yet. -/
def Stage.idle : Stage → Bool
  | .initialWeights | .firstGeneration | .syncRolloutWeights |
    .nextGeneration => true
  | _ => false

/-- Of the three synchronisations of the source only the one at the end of a
step can meet a generation. -/
theorem eq_updateWeights {stage : Stage} (hsync : stage.synchronises = true)
    (hidle : ¬ stage.idle = true) : stage = .updateWeights := by
  cases stage <;> simp_all [Stage.synchronises, Stage.idle]

/-- After a synchronisation a generation is under way exactly if it was
before. -/
theorem idle_next {stage : Stage} (hsync : stage.synchronises = true)
    (hidle : stage.next.idle = true) : stage.idle = true := by
  cases stage <;> simp_all [Stage.synchronises, Stage.next, Stage.idle]

structure Inv (s : State ρ) : Prop where
  used : ∀ batch ∈ s.used, ∀ response ∈ batch, response.Whole
  sound : ∀ response ∈ s.future.responses, response.Sound s.loaded
  ended : ∀ batch, s.future = .returned (some batch) →
    ∀ response ∈ batch, response.ended = true
  idle : s.stage.idle = true → s.future = .none
  syncing : s.sync ≠ none → s.stage.synchronises = true

theorem inv_init (globalSteps : ℕ) :
    Inv (State.init globalSteps : State ρ) where
  used batch hbatch := by cases hbatch
  sound response hresponse := by cases hresponse
  ended batch hbatch := by cases hbatch
  idle _ := rfl
  syncing hsync := absurd rfl hsync

/-- What the driver can do between two awaits. -/
inductive AdvanceCases (s : State ρ) : State ρ → Prop
  | synchronise (waiting : List ρ) (hstage : s.stage.synchronises = true) :
      AdvanceCases s { s with sync := some (.aborting waiting) }
  | move (s' : State ρ)
      (hframe : s'.sync = s.sync ∧ s'.used = s.used ∧ s'.loaded = s.loaded)
      (hfuture : s'.future = s.future)
      (hidle : s'.stage.idle = true → s.stage.idle = true) :
      AdvanceCases s s'
  | create (s' : State ρ)
      (hframe : s'.sync = s.sync ∧ s'.used = s.used ∧ s'.loaded = s.loaded)
      (hfuture : s'.future = .none ∨ s'.future = .created)
      (hidle : s'.stage.idle = false) : AdvanceCases s s'
  | await (batch : List (Response ρ))
      (hfuture : s.future = .returned (some batch)) :
      AdvanceCases s { s with
        stage := .syncRolloutWeights
        future := .none
        used := s.used ++ [batch] }

section Steps

variable {cfg : Config ρ} {s s' : State ρ}

theorem synchronise_cases (hstage : s.stage.synchronises = true)
    (hstep : (if cfg.criticWarmup ≤ s.globalSteps then
        some { s with sync := some (SyncPhase.aborting cfg.replicas) }
      else some { s with stage := s.stage.next }) = some s') :
    AdvanceCases s s' := by
  by_cases hwarm : cfg.criticWarmup ≤ s.globalSteps
  · rw [if_pos hwarm] at hstep
    cases hstep
    exact .synchronise _ hstage
  · rw [if_neg hwarm] at hstep
    cases hstep
    exact .move _ ⟨rfl, rfl, rfl⟩ rfl (idle_next hstage)

theorem advance_cases (hstep : s.advance cfg = some s') :
    AdvanceCases s s' := by
  cases hs : s.stage with
  | initialWeights | syncRolloutWeights | updateWeights =>
      simp only [State.advance, hs] at hstep
      exact synchronise_cases (by rw [hs]; rfl) (by rw [hs]; exact hstep)
  | firstGeneration =>
      simp only [State.advance, hs] at hstep
      cases hstep
      exact .create _ ⟨rfl, rfl, rfl⟩ (.inr rfl) rfl
  | nextGeneration =>
      simp only [State.advance, hs] at hstep
      cases hstep
      refine .create _ ⟨rfl, rfl, rfl⟩ ?_ rfl
      cases s.isLastStep with
      | true => exact .inl rfl
      | false => exact .inr rfl
  | awaitBatch =>
      simp only [State.advance, hs] at hstep
      cases hfuture : s.future with
      | returned batch =>
          cases batch with
          | none => simp [hfuture] at hstep
          | some batch =>
              simp only [hfuture] at hstep
              cases hstep
              exact .await batch hfuture
      | none => simp [hfuture] at hstep
      | created => simp [hfuture] at hstep
      | generating responses => simp [hfuture] at hstep
  | postprocessStep =>
      simp only [State.advance, hs] at hstep
      cases hstep
      refine .move _ ⟨rfl, rfl, rfl⟩ rfl fun hidle => ?_
      cases hlast : s.isLastStep <;> simp [hlast, Stage.idle] at hidle
  | returned =>
      simp only [State.advance, hs] at hstep
      cases hstep
  | prepareStep | computeReward | computeLogProb | computeRefLogProb |
    computeCritic | computeAdvantage | updateCritic | updateActor | dumpData |
    validate | saveCheckpoint =>
      simp only [State.advance, hs] at hstep
      cases hstep
      exact .move _ ⟨rfl, rfl, rfl⟩ rfl fun hidle => by cases hidle

/-- Neither the responses, nor their weights, nor the batches change. -/
theorem Inv.of_frame (h : Inv s) (hused : s'.used = s.used)
    (hloaded : s'.loaded = s.loaded) (hfuture : s'.future = s.future)
    (hidle : s'.stage.idle = true → s.stage.idle = true)
    (hsyncing : s'.sync ≠ none → s'.stage.synchronises = true) : Inv s' := by
  constructor
  · rw [hused]
    exact h.used
  · rw [hfuture, hloaded]
    exact h.sound
  · rw [hfuture]
    exact h.ended
  · rw [hfuture]
    exact fun hstage => h.idle (hidle hstage)
  · exact hsyncing

/-- The task goes on while nothing else changes. -/
theorem Inv.of_future (h : Inv s) (htask : s.future ≠ .none)
    {task : GenerationTask ρ}
    (hsound : ∀ response ∈ task.responses, response.Sound s.loaded)
    (hended : ∀ batch, task = .returned (some batch) →
      ∀ response ∈ batch, response.ended = true) :
    Inv { s with future := task } where
  used := h.used
  sound := hsound
  ended := hended
  idle hidle := absurd (h.idle hidle) htask
  syncing := h.syncing

theorem Inv.advance (h : Inv s) (hsync : s.sync = none)
    (hstep : s.advance cfg = some s') : Inv s' := by
  cases advance_cases hstep with
  | synchronise waiting hstage =>
      exact h.of_frame rfl rfl rfl id fun _ => hstage
  | move s' hframe hfuture hidle =>
      refine h.of_frame hframe.2.1 hframe.2.2 hfuture hidle fun hne => ?_
      exact absurd (hframe.1.trans hsync) hne
  | create s' hframe hfuture hidle =>
      constructor
      · rw [hframe.2.1]
        exact h.used
      · rcases hfuture with hfuture | hfuture <;>
          simp [hfuture, GenerationTask.responses]
      · rcases hfuture with hfuture | hfuture <;> simp [hfuture]
      · simp [hidle]
      · exact fun hne => absurd (hframe.1.trans hsync) hne
  | await batch hfuture =>
      have hresponses : s.future.responses = batch := by rw [hfuture]; rfl
      refine ⟨?_, fun _ hmem => (by cases hmem), fun _ heq => (by cases heq),
        fun _ => rfl, fun _ => rfl⟩
      intro used hmem response hresponse
      rcases List.mem_append.mp hmem with hold | hnew
      · exact h.used used hold response hresponse
      · rw [List.mem_singleton.mp hnew] at hresponse
        have hsound := h.sound response (by rwa [hresponses])
        exact hsound.whole (h.ended batch hfuture response hresponse)

/-- During a synchronisation, what the last one of a step finds of every
response holds of every response. -/
theorem Inv.forall_responses (h : Inv s) (hsync : s.sync ≠ none)
    {P : Response ρ → Prop}
    (hP : s.stage = .updateWeights → ∀ response ∈ s.future.responses,
      P response) : ∀ response ∈ s.future.responses, P response := by
  by_cases hidle : s.stage.idle = true
  · intro response hresponse
    rw [h.idle hidle] at hresponse
    cases hresponse
  · exact hP (eq_updateWeights (h.syncing hsync) hidle)

variable [DecidableEq ρ]

theorem Inv.abortRequests (h : Inv s) {replica : ρ} {fails : Bool}
    (hguard : Undisturbed s (.abortRequests replica fails))
    (hstep : step cfg s (.abortRequests replica fails) = some s') :
    Inv s' := by
  simp only [step] at hstep
  split at hstep
  case h_1 waiting hsync =>
    have hsyncing := h.syncing (by simp [hsync])
    obtain ⟨-, hstep⟩ := Option.ite_none_right_eq_some.mp hstep
    cases fails with
    | true =>
        cases hstep
        exact h.of_frame rfl rfl rfl id fun _ => hsyncing
    | false =>
        cases hstep
        have hflight := h.forall_responses (by simp [hsync])
          fun hstage => hguard hstage rfl
        exact h.of_frame rfl rfl (task_abortAt_eq_self hflight) id
          fun _ => hsyncing
  case h_2 => cases hstep

theorem Inv.loadWeights (h : Inv s) (hguard : Undisturbed s .loadWeights)
    (hstep : step cfg s .loadWeights = some s') : Inv s' := by
  simp only [step] at hstep
  split at hstep
  case h_1 hsync =>
    cases hstep
    have hquiet := h.forall_responses (by simp [hsync]) hguard
    exact {
      used := h.used
      sound := fun response hresponse =>
        (h.sound response hresponse).load (hquiet response hresponse) _
      ended := h.ended
      idle := h.idle
      syncing := fun _ => h.syncing (by simp [hsync]) }
  case h_2 => cases hstep

theorem Inv.resumeGeneration (h : Inv s) {replica : ρ}
    (hstep : step cfg s (.resumeGeneration replica) = some s') : Inv s' := by
  simp only [step] at hstep
  split at hstep
  case h_1 waiting hsync =>
    obtain ⟨-, heq⟩ := Option.ite_none_right_eq_some.mp hstep
    cases heq
    exact h.of_frame rfl rfl rfl id fun _ => h.syncing (by simp [hsync])
  case h_2 => cases hstep

theorem Inv.synchronised (h : Inv s)
    (hstep : step cfg s .synchronised = some s') : Inv s' := by
  simp only [step] at hstep
  split at hstep
  case h_1 hsync =>
    cases hstep
    have hsyncing := h.syncing (by simp [hsync])
    exact h.of_frame rfl rfl rfl (idle_next hsyncing) fun hne => absurd rfl hne
  case h_2 => cases hstep

theorem Inv.dispatch (h : Inv s) {responses : Option ℕ}
    (hstep : step cfg s (.dispatch responses) = some s') : Inv s' := by
  obtain ⟨hguard, heq⟩ := Option.ite_none_right_eq_some.mp hstep
  cases heq
  have htask : s.future ≠ .none := by simp [hguard.2]
  cases responses with
  | none =>
      exact h.of_future htask (fun _ hmem => by cases hmem)
        fun _ heq => by cases heq
  | some n =>
      refine h.of_future htask (fun response hresponse => ?_)
        fun _ heq => by cases heq
      rw [List.eq_of_mem_replicate hresponse]
      exact sound_fresh s.loaded

theorem Inv.respond (h : Inv s) {i : ℕ} {event : Event ρ}
    (hstep : step cfg s (.respond i event) = some s') : Inv s' := by
  simp only [step] at hstep
  split at hstep
  case h_1 responses hfuture =>
    have hresponses : s.future.responses = responses := by rw [hfuture]; rfl
    split at hstep
    case h_1 response hget =>
      obtain ⟨response', hevent, rfl⟩ := Option.map_eq_some_iff.mp hstep
      refine h.of_future (by simp [hfuture]) (fun other hother => ?_)
        fun _ heq => by cases heq
      rcases List.mem_or_eq_of_mem_set hother with hold | rfl
      · exact h.sound other (by rwa [hresponses])
      · have hmem := List.mem_of_getElem? hget
        exact (h.sound response (by rwa [hresponses])).step hevent
    case h_2 => cases hstep
  case h_2 => cases hstep

theorem Inv.gather (h : Inv s) (hstep : step cfg s .gather = some s') :
    Inv s' := by
  simp only [step] at hstep
  split at hstep
  case h_1 responses hfuture =>
    obtain ⟨hended, heq⟩ := Option.ite_none_right_eq_some.mp hstep
    cases heq
    have hresponses : s.future.responses = responses := by rw [hfuture]; rfl
    refine h.of_future (by simp [hfuture]) (fun response hresponse => ?_) ?_
    · exact h.sound response (by rw [hresponses]; exact hresponse)
    · intro batch hbatch
      cases hbatch
      exact hended
  case h_2 => cases hstep

theorem Inv.step {a : Action ρ} (h : Inv s) (hguard : Undisturbed s a)
    (hstep : step cfg s a = some s') : Inv s' := by
  cases a with
  | advance =>
      obtain ⟨hsync, hadvance⟩ := Option.ite_none_right_eq_some.mp hstep
      exact h.advance hsync hadvance
  | abortRequests replica fails => exact h.abortRequests hguard hstep
  | loadWeights => exact h.loadWeights hguard hstep
  | resumeGeneration replica => exact h.resumeGeneration hstep
  | synchronised => exact h.synchronised hstep
  | dispatch responses => exact h.dispatch hstep
  | respond i event => exact h.respond hstep
  | gather => exact h.gather hstep

end Steps

/-- In every run whose synchronisations meet the condition every response of a
batch that was trained on is whole. -/
theorem used_whole [DecidableEq ρ] (cfg : Config ρ) (globalSteps : ℕ)
    (actions : List (Action ρ)) (s : State ρ)
    (hundisturbed : (system cfg globalSteps).Guarded Undisturbed
      (system cfg globalSteps).initial actions)
    (hrun : (system cfg globalSteps).exec (system cfg globalSteps).initial
      actions = some s) :
    ∀ batch ∈ s.used, ∀ response ∈ batch, response.Whole := by
  have hinv : Inv s := System.invariant_of_guarded
    (fun _ _ _ h hguard hstep => h.step hguard hstep) (inv_init globalSteps)
    hundisturbed hrun
  exact hinv.used

/-- Two steps on one replica. -/
def twoSteps : Config ℕ where
  replicas := [0]
  criticWarmup := 0
  totalTrainingSteps := 2
  pausesGeneration := true

def updateWeights : List (Action ℕ) :=
  [.advance, .abortRequests 0 false, .loadWeights, .resumeGeneration 0,
    .synchronised]

/-- A batch of one response, which has one token so far. -/
def startGeneration : List (Action ℕ) :=
  [.advance, .dispatch (some 1), .respond 0 (.submit 0), .respond 0 .emit]

def endGeneration : List (Action ℕ) :=
  [.respond 0 (.finish .stop), .respond 0 .return, .gather]

/-- The run up to the generation for the second step. -/
def untilSecondBatch : List (Action ℕ) :=
  updateWeights ++ startGeneration ++ endGeneration ++ [.advance, .advance] ++
    updateWeights ++ startGeneration

/-- From `_fit_compute_reward` to `_fit_update_actor`. -/
def train : List (Action ℕ) := List.replicate 7 .advance

/-- From `_fit_dump_data` to the next batch. -/
def takeBatch : List (Action ℕ) := List.replicate 6 .advance

/-- The second generation ends before the first step does. -/
def quickGeneration : List (Action ℕ) :=
  untilSecondBatch ++ endGeneration ++ train ++ updateWeights ++ takeBatch

/-- The second generation is still at work when the first step ends. -/
def slowGeneration : List (Action ℕ) :=
  untilSecondBatch ++ train ++ updateWeights ++
    [.respond 0 .return, .gather] ++ takeBatch

theorem used_whole_quickGeneration :
    ∃ s, (system twoSteps 0).exec (.init 0) quickGeneration = some s ∧
      s.used.length = 2 ∧
      ∀ batch ∈ s.used, ∀ response ∈ batch, response.Whole := by
  have hused : ((system twoSteps 0).exec (.init 0) quickGeneration).any
      (fun s => s.used.length = 2) = true := by
    decide +kernel
  obtain ⟨s, hrun, hlength⟩ := (Option.any_eq_true _ _).mp hused
  exact ⟨s, hrun, of_decide_eq_true hlength,
    used_whole twoSteps 0 quickGeneration s (by decide +kernel) hrun⟩

/-- The synchronisation at the end of the first step cuts the response that
the second step is trained on. -/
theorem not_whole_slowGeneration :
    ¬ ∀ (cfg : Config ℕ) (globalSteps : ℕ) (actions : List (Action ℕ))
      (s : State ℕ),
      (system cfg globalSteps).exec (.init globalSteps) actions = some s →
        ∀ batch ∈ s.used, ∀ response ∈ batch, response.Whole := by
  intro hwhole
  have hcut : ((system twoSteps 0).exec (.init 0) slowGeneration).any
      (fun s => s.used.any fun batch => batch.any fun response =>
        response.outputs.any fun output => output.stopReason = .aborted) =
      true := by
    decide +kernel
  obtain ⟨s, hrun, hused⟩ := (Option.any_eq_true _ _).mp hcut
  obtain ⟨batch, hbatch, hany⟩ := List.any_eq_true.mp hused
  obtain ⟨response, hresponse, houtputs⟩ := List.any_eq_true.mp hany
  obtain ⟨output, houtput, haborted⟩ := List.any_eq_true.mp houtputs
  have hcompleted := (hwhole twoSteps 0 slowGeneration s hrun batch hbatch
    response hresponse).completed output houtput
  rw [of_decide_eq_true haborted] at hcompleted
  cases hcompleted

end OneStepOff

end SelfDistillation
