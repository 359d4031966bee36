/-
`ToolAgentLoop.run` (verl/experimental/agent_loop/tool_agent_loop.py) against
any surroundings: how many generations and transitions it takes to end.
-/
import SelfDistillation.ToolAgentLoop

namespace SelfDistillation

namespace ToolAgentBudget

open Transition

variable {τ π ι σ : Type}

/-- What tokenizer, server, tool parser, tools and interaction answer, each
from all that happened before; every call of a tool has one response. -/
structure Surroundings (τ π ι σ : Type) where
  prompt : List τ
  generate : List (Turn τ π ι σ) → TokenOutput τ π × Nat
  toolResponses : List (Turn τ π ι σ) → (calls : Nat) →
    Fin calls → ToolResponse ι σ
  toolTokens : List (Turn τ π ι σ) → List τ
  interact : List (Turn τ π ι σ) → InteractionReply τ σ

/-- Every generation returns at least one token. -/
def Surroundings.Productive (env : Surroundings τ π ι σ) : Prop :=
  ∀ history, (env.generate history).1.tokenIds ≠ []

/-- The transitions of a run, and its data or the exception that ended it. -/
abbrev Ending (τ π ι σ : Type) :=
  List (Turn τ π ι σ) × Py (AgentData τ π ι σ)

section Source

variable [Zero π] (cfg : AgentConfig) (env : Surroundings τ π ι σ)

/-- The answer a state waits for. -/
def answer (history : List (Turn τ π ι σ)) (data : AgentData τ π ι σ) :
    AgentState → Turn τ π ι σ
  | .pending => .prompt env.prompt
  | .generating =>
      .generate (env.generate history).1 (env.generate history).2
  | .processingTools =>
      .tools (List.ofFn (env.toolResponses history
        (min data.toolCalls cfg.maxParallelCalls))) (env.toolTokens history)
  | _ => .interact (env.interact history)

/-- The handler of a state, with its answer. -/
def handle (data : AgentData τ π ι σ) : Turn τ π ι σ →
    Py (AgentData τ π ι σ × AgentState)
  | .prompt promptIds => .ok (handlePendingState data promptIds)
  | .generate output toolCalls =>
      .ok (handleGeneratingState cfg data output toolCalls)
  | .tools responses responseIds =>
      handleProcessingToolsState cfg data responses responseIds
  | .interact reply => .ok (handleInteractingState data reply)

/-- `while state != AgentState.TERMINATED`, with one unit of fuel for every
transition. -/
def runLoop : Nat → List (Turn τ π ι σ) → AgentData τ π ι σ → AgentState →
    Option (Ending τ π ι σ)
  | _, history, data, .terminated => some (history, .ok data)
  | 0, _, _, _ => none
  | fuel + 1, history, data, state =>
      let turn := answer cfg env history data state
      match handle cfg data turn with
      | .error e => some (history ++ [turn], .error e)
      | .ok next => runLoop fuel (history ++ [turn]) next.1 next.2

/-- The state machine loop of `run`. -/
def run (images : Option (List ι)) (fuel : Nat) : Option (Ending τ π ι σ) :=
  runLoop cfg env fuel [] (.init images) .pending

end Source

/-- The generation calls of a run. -/
def generations (turns : List (Turn τ π ι σ)) : Nat :=
  turns.countP fun turn =>
    match turn with
    | .generate _ _ => true
    | _ => false

/-- A limit of turns that is neither `None` nor 0. -/
def Limits (limit : Option Nat) (bound : Nat) : Prop :=
  limit = some bound ∧ bound ≠ 0

/-- So many generations are within the budget: the response length, and the
limits of assistant and of user turns, where a user turn is the one between
two generations. -/
structure Within (cfg : AgentConfig) (count : Nat) : Prop where
  tokens : count ≤ max 1 cfg.responseLength
  assistant : ∀ bound, Limits cfg.maxAssistantTurns bound → count ≤ bound
  user : ∀ bound, Limits cfg.maxUserTurns bound → count ≤ bound + 1

/-- After so many generations the loop did not end. -/
structure Below (cfg : AgentConfig) (count : Nat) : Prop where
  tokens : count < cfg.responseLength
  assistant : ∀ bound, Limits cfg.maxAssistantTurns bound → count < bound
  user : ∀ bound, Limits cfg.maxUserTurns bound → count < bound + 1

/-- A run ends within the budget, or with the exception for a tool's images
or videos. -/
structure Ends (cfg : AgentConfig) (ending : Ending τ π ι σ) : Prop where
  within : Within cfg (generations ending.1)
  transitions : ending.1.length ≤ 2 * generations ending.1 + 1
  raises : ∀ e, ending.2 = .error e → ∃ responses responseIds,
    ending.1.getLast? = some (.tools responses responseIds) ∧
      ∃ response ∈ responses, checkToolResponse cfg response = .error e

section Counts

variable {cfg : AgentConfig} {count : Nat}

theorem generations_append (turns : List (Turn τ π ι σ))
    (turn : Turn τ π ι σ) : generations (turns ++ [turn]) =
      generations turns + generations [turn] :=
  List.countP_append

theorem Below.within_succ (h : count = 0 ∨ Below cfg count) :
    Within cfg (count + 1) := by
  rcases h with rfl | h
  · refine ⟨le_max_left _ _, fun bound hbound => ?_, fun bound hbound => ?_⟩
    · exact Nat.one_le_iff_ne_zero.mpr hbound.2
    · omega
  · refine ⟨?_, h.assistant, h.user⟩
    exact Nat.le_trans h.tokens (le_max_right _ _)

theorem Below.within (h : Below cfg count) : Within cfg count where
  tokens := h.tokens.le.trans (le_max_right _ _)
  assistant bound hbound := (h.assistant bound hbound).le
  user bound hbound := (h.user bound hbound).le

/-- A limit that is not reached is above the count. -/
theorem lt_of_not_turnsReached {limit : Option Nat} {turns bound : Nat}
    (h : ¬ turnsReached limit turns = true) (hbound : Limits limit bound) :
    turns < bound := by
  rw [hbound.1, turnsReached, Bool.and_eq_true, decide_eq_true_eq,
    decide_eq_true_eq] at h
  exact lt_of_not_ge fun hle => h ⟨hbound.2, hle⟩

end Counts

section Loop

variable [Zero π] {cfg : AgentConfig} {env : Surroundings τ π ι σ}

/-- What the counters and the length of the mask say of the generations and
the transitions so far. -/
structure Budget (cfg : AgentConfig) (history : List (Turn τ π ι σ))
    (data : AgentData τ π ι σ) (state : AgentState) : Prop where
  assistantTurns : data.assistantTurns = generations history
  mask : generations history ≤ data.responseMask.length
  pending : state = .pending → history = [] ∧ data.userTurns = 0
  generating : state = .generating →
    history.length = 2 * generations history + 1 ∧
      data.userTurns = generations history ∧
        (generations history = 0 ∨ Below cfg (generations history))
  between : state = .processingTools ∨ state = .interacting →
    history.length = 2 * generations history ∧
      data.userTurns + 1 = generations history ∧
        Below cfg (generations history)
  terminated : state = .terminated →
    history.length ≤ 2 * generations history + 1 ∧
      Within cfg (generations history)

/-- The transitions that are left at most. -/
def work (cfg : AgentConfig) (history : List (Turn τ π ι σ)) :
    AgentState → Nat
  | .terminated => 0
  | .pending => 2 * max 1 cfg.responseLength + 1
  | .generating => 2 * (max 1 cfg.responseLength - generations history)
  | _ => 2 * (max 1 cfg.responseLength - generations history) + 1

omit [Zero π] in
theorem budget_initial (images : Option (List ι)) :
    Budget (π := π) (σ := σ) (τ := τ) cfg [] (.init images) .pending where
  assistantTurns := rfl
  mask := Nat.le_refl 0
  pending := fun _ => ⟨rfl, rfl⟩
  generating := by simp
  between := by simp
  terminated := by simp

omit [Zero π] in
/-- A generation is counted, and the loop goes on only below the limits. -/
theorem budget_generate {history : List (Turn τ π ι σ)}
    {data : AgentData τ π ι σ}
    (hbudget : Budget cfg history data .generating)
    {output : TokenOutput τ π} (houtput : output.tokenIds ≠ [])
    (toolCalls : Nat) :
    Budget cfg (history ++ [.generate output toolCalls])
        (handleGeneratingState cfg data output toolCalls).1
        (handleGeneratingState cfg data output toolCalls).2 ∧
      work cfg (history ++ [.generate output toolCalls])
        (handleGeneratingState cfg data output toolCalls).2 <
          work cfg history .generating := by
  obtain ⟨hlength, huser, hbelow⟩ := hbudget.generating rfl
  have hcount : generations (history ++ [.generate output toolCalls]) =
      generations history + 1 := generations_append ..
  have hwithin := Below.within_succ hbelow
  have htokens : generations history < max 1 cfg.responseLength :=
    hwithin.tokens
  have hpos : 0 < output.tokenIds.length := List.length_pos_iff.mpr houtput
  have hassistant : (extendGenerated data output).assistantTurns =
      generations (history ++ [.generate output toolCalls]) := by
    rw [hcount, ← hbudget.assistantTurns]
    rfl
  have hmask : generations (history ++ [.generate output toolCalls]) ≤
      (extendGenerated data output).responseMask.length := by
    have hold := hbudget.mask
    rw [hcount, extendGenerated, List.length_append, List.length_replicate]
    omega
  have hends : (history ++ [Turn.generate output toolCalls]).length ≤
      2 * generations (history ++ [.generate output toolCalls]) + 1 := by
    rw [hcount, List.length_append, hlength, List.length_singleton]
    omega
  have hstop : Budget cfg (history ++ [.generate output toolCalls])
      (extendGenerated data output) .terminated :=
    ⟨hassistant, hmask, by simp, by simp, by simp,
      fun _ => ⟨hends, hcount ▸ hwithin⟩⟩
  have hdone : work cfg (history ++ [.generate output toolCalls])
      .terminated < work cfg history .generating := by
    simp only [work]
    omega
  rw [handleGeneratingState]
  dsimp only
  split
  · exact ⟨hstop, hdone⟩
  · rename_i hroom
    split
    · exact ⟨hstop, hdone⟩
    · rename_i hassistantLimit
      split
      · exact ⟨hstop, hdone⟩
      · rename_i huserLimit
        have hlater : Below cfg
            (generations (history ++ [.generate output toolCalls])) := by
          refine ⟨by omega, fun bound hbound => ?_, fun bound hbound => ?_⟩
          · rw [← hassistant]
            exact lt_of_not_turnsReached hassistantLimit hbound
          · have hlt := lt_of_not_turnsReached huserLimit hbound
            change data.userTurns < bound at hlt
            omega
        have hgoesOn : ∀ state, state = .processingTools ∨
            state = .interacting →
              Budget cfg (history ++ [.generate output toolCalls])
                { extendGenerated data output with toolCalls } state ∧
              work cfg (history ++ [.generate output toolCalls]) state <
                work cfg history .generating := by
          intro state hstate
          constructor
          · refine ⟨hassistant, hmask, ?_, ?_, fun _ => ⟨?_, ?_, hlater⟩, ?_⟩
            · rintro rfl
              simp at hstate
            · rintro rfl
              simp at hstate
            · rw [hcount, List.length_append, hlength, List.length_singleton]
              omega
            · rw [hcount, ← huser]
              rfl
            · rintro rfl
              simp at hstate
          · rcases hstate with rfl | rfl
            · simp only [work, hcount]
              omega
            · simp only [work, hcount]
              omega
        split
        · exact hgoesOn _ (.inl rfl)
        · split
          · exact hgoesOn _ (.inr rfl)
          · refine ⟨?_, hdone⟩
            exact ⟨hassistant, hmask, by simp, by simp, by simp,
              fun _ => ⟨hends, hcount ▸ hwithin⟩⟩

omit [Zero π] in
/-- Tokens from outside are no generation, and the next one follows. -/
theorem budget_observe {history : List (Turn τ π ι σ)}
    {data data' : AgentData τ π ι σ} {state : AgentState}
    (hbudget : Budget cfg history data state)
    (hstate : state = .processingTools ∨ state = .interacting)
    (turn : Turn τ π ι σ) (hturn : generations [turn] = 0)
    (hassistant : data'.assistantTurns = data.assistantTurns)
    (hmask : data.responseMask.length ≤ data'.responseMask.length)
    {next : AgentState}
    (hnext : next = .terminated ∨
      next = .generating ∧ data'.userTurns = data.userTurns + 1) :
    Budget cfg (history ++ [turn]) data' next ∧
      work cfg (history ++ [turn]) next < work cfg history state := by
  obtain ⟨hlength, huser, hbelow⟩ := hbudget.between hstate
  have hcount : generations (history ++ [turn]) = generations history := by
    rw [generations_append, hturn, Nat.add_zero]
  have hlast : (history ++ [turn]).length =
      2 * generations (history ++ [turn]) + 1 := by
    rw [hcount, List.length_append, hlength, List.length_singleton]
  have hwork : work cfg (history ++ [turn]) next < work cfg history state := by
    rcases hstate with rfl | rfl
    · rcases hnext with rfl | ⟨rfl, -⟩
      · simp [work]
      · simp [work, hcount]
    · rcases hnext with rfl | ⟨rfl, -⟩
      · simp [work]
      · simp [work, hcount]
  refine ⟨⟨by rw [hassistant, hcount, hbudget.assistantTurns],
    by rw [hcount]; exact hbudget.mask.trans hmask, ?_, ?_, ?_, ?_⟩, hwork⟩
  · rintro rfl
    simp at hnext
  · rintro rfl
    obtain ⟨-, husers⟩ := hnext.resolve_left (by simp)
    exact ⟨hlast, by omega, .inr (hcount ▸ hbelow)⟩
  · intro hbetween
    rcases hbetween with rfl | rfl
    · simp at hnext
    · simp at hnext
  · rintro rfl
    exact ⟨hlast.le, hcount ▸ hbelow.within⟩

theorem handleInteractingState_assistantTurns (data : AgentData τ π ι σ)
    (reply : InteractionReply τ σ) :
    (handleInteractingState data reply).1.assistantTurns =
      data.assistantTurns := rfl

/-- An interaction ends the loop or is one user turn. -/
theorem handleInteractingState_cases (data : AgentData τ π ι σ)
    (reply : InteractionReply τ σ) :
    (handleInteractingState data reply).2 = .terminated ∨
      (handleInteractingState data reply).2 = .generating ∧
        (handleInteractingState data reply).1.userTurns =
          data.userTurns + 1 := by
  rw [handleInteractingState]
  split
  · exact .inl rfl
  · exact .inr ⟨rfl, rfl⟩

/-- The tools' answer: refused, recorded, or of a kind that raises. -/
theorem handleProcessingToolsState_cases (cfg : AgentConfig)
    (data : AgentData τ π ι σ) (responses : List (ToolResponse ι σ))
    (responseIds : List τ) :
    (∃ e, handleProcessingToolsState cfg data responses responseIds =
        .error e ∧
      ∃ response ∈ responses, checkToolResponse cfg response = .error e) ∨
    ∃ data' next, handleProcessingToolsState cfg data responses responseIds =
        .ok (data', next) ∧
      data'.assistantTurns = data.assistantTurns ∧
      data.responseMask.length ≤ data'.responseMask.length ∧
      (next = .terminated ∨
        next = .generating ∧ data'.userTurns = data.userTurns + 1) := by
  cases hcheck : (forM responses fun response =>
      checkToolResponse cfg response : Py Unit) with
  | error e =>
      left
      refine ⟨e, ?_, ?_⟩
      · rw [handleProcessingToolsState, hcheck]
        rfl
      · clear data responseIds
        induction responses with
        | nil => cases hcheck
        | cons response rest ih =>
            rw [List.forM_cons] at hcheck
            cases hfirst : checkToolResponse cfg response with
            | error e' =>
                rw [hfirst] at hcheck
                cases hcheck
                exact ⟨response, List.mem_cons_self, hfirst⟩
            | ok _ =>
                rw [hfirst] at hcheck
                obtain ⟨other, hother, hraises⟩ := ih hcheck
                exact ⟨other, List.mem_cons_of_mem _ hother, hraises⟩
  | ok _ =>
      right
      rw [handleProcessingToolsState, hcheck, ok_bind]
      dsimp only
      split
      · exact ⟨_, _, rfl, rfl, Nat.le_refl _, .inl rfl⟩
      · refine ⟨_, _, rfl, rfl, ?_, .inr ⟨rfl, rfl⟩⟩
        simp [extendObserved]

omit [Zero π] in
/-- A tool's image or video that is refused ends the run within the budget. -/
theorem ends_of_raise {history : List (Turn τ π ι σ)}
    {data : AgentData τ π ι σ} {state : AgentState}
    (hbudget : Budget cfg history data state)
    (hstate : state = .processingTools ∨ state = .interacting)
    {responses : List (ToolResponse ι σ)} {responseIds : List τ} {e : PyErr}
    (hraises : ∃ response ∈ responses,
      checkToolResponse cfg response = .error e) :
    Ends cfg (history ++ [Turn.tools responses responseIds],
      (.error e : Py (AgentData τ π ι σ))) := by
  obtain ⟨hlength, -, hbelow⟩ := hbudget.between hstate
  have hcount : generations (history ++ [Turn.tools responses responseIds]) =
      generations history := generations_append ..
  refine ⟨hcount ▸ hbelow.within, ?_, fun e' he' => ?_⟩
  · rw [hcount, List.length_append, hlength]
    rfl
  · cases he'
    exact ⟨responses, responseIds, List.getLast?_concat, hraises⟩

/-- With fuel for the work that is left the loop ends as it should. -/
theorem runLoop_ends (henv : env.Productive) (fuel : Nat)
    (history : List (Turn τ π ι σ)) (data : AgentData τ π ι σ)
    (state : AgentState) (hbudget : Budget cfg history data state)
    (hfuel : work cfg history state ≤ fuel) :
    ∃ ending, runLoop cfg env fuel history data state = some ending ∧
      Ends cfg ending := by
  induction fuel generalizing history data state with
  | zero =>
      cases state with
      | terminated =>
          obtain ⟨hlength, hwithin⟩ := hbudget.terminated rfl
          exact ⟨_, rfl, hwithin, hlength, by simp⟩
      | pending => simp [work] at hfuel
      | generating =>
          obtain ⟨-, -, hbelow⟩ := hbudget.generating rfl
          have htokens := (Below.within_succ hbelow).tokens
          simp only [work] at hfuel
          omega
      | processingTools => simp [work] at hfuel
      | interacting => simp [work] at hfuel
  | succ fuel ih =>
      cases state with
      | terminated =>
          obtain ⟨hlength, hwithin⟩ := hbudget.terminated rfl
          exact ⟨_, rfl, hwithin, hlength, by simp⟩
      | pending =>
          obtain ⟨rfl, huser⟩ := hbudget.pending rfl
          have hnext : Budget cfg [.prompt env.prompt]
              (handlePendingState data env.prompt).1 .generating :=
            ⟨hbudget.assistantTurns, hbudget.mask, by simp,
              fun _ => ⟨rfl, huser, .inl rfl⟩, by simp, by simp⟩
          apply ih _ _ _ hnext
          have hzero : generations ([.prompt env.prompt] :
              List (Turn τ π ι σ)) = 0 := rfl
          simp only [work] at hfuel
          simp only [work, hzero]
          omega
      | generating =>
          obtain ⟨hnext, hwork⟩ := budget_generate hbudget
            (henv history) (env.generate history).2
          exact ih _ _ _ hnext (Nat.le_of_lt_succ (hwork.trans_le hfuel))
      | processingTools =>
          rw [runLoop.eq_def]
          simp only [answer, handle]
          rcases handleProcessingToolsState_cases cfg data
            (List.ofFn (env.toolResponses history
              (min data.toolCalls cfg.maxParallelCalls)))
            (env.toolTokens history) with
            ⟨e, herror, hraises⟩ | ⟨data', next, hok, hassistant, hmask, hnext⟩
          · rw [herror]
            exact ⟨_, rfl, ends_of_raise hbudget (.inl rfl) hraises⟩
          · rw [hok]
            obtain ⟨hbudget', hwork⟩ := budget_observe hbudget (.inl rfl)
              (.tools _ _) rfl hassistant hmask hnext
            exact ih _ _ _ hbudget' (Nat.le_of_lt_succ (hwork.trans_le hfuel))
      | interacting =>
          have hmask : data.responseMask.length ≤ (handleInteractingState data
              (env.interact history)).1.responseMask.length := by
            simp [handleInteractingState, extendObserved]
          obtain ⟨hbudget', hwork⟩ := budget_observe hbudget (.inr rfl)
            (.interact (env.interact history)) rfl
            (handleInteractingState_assistantTurns data _) hmask
            (handleInteractingState_cases data _)
          exact ih _ _ _ hbudget' (Nat.le_of_lt_succ (hwork.trans_le hfuel))

/-- The loop ends for all surroundings, after at most as many generations as
there are response tokens, or as the turn limits allow. -/
theorem run_ends (cfg : AgentConfig) (env : Surroundings τ π ι σ)
    (images : Option (List ι)) (henv : env.Productive) :
    ∃ ending, run cfg env images (2 * max 1 cfg.responseLength + 1) =
        some ending ∧ Ends cfg ending :=
  runLoop_ends henv _ _ _ _ (budget_initial images) (Nat.le_refl _)

/-- A handler with its answer is a step of the state machine. -/
theorem agentStep_answer (history : List (Turn τ π ι σ))
    (data : AgentData τ π ι σ) {state : AgentState}
    (hstate : state ≠ .terminated) :
    agentStep cfg (data, state) (answer cfg env history data state) =
      (handle cfg data (answer cfg env history data state)).toOption := by
  cases state with
  | terminated => exact absurd rfl hstate
  | processingTools => exact if_pos List.length_ofFn
  | pending => rfl
  | generating => rfl
  | interacting => rfl

theorem runLoop_succ (fuel : Nat) (history : List (Turn τ π ι σ))
    (data : AgentData τ π ι σ) {state : AgentState}
    (hstate : state ≠ .terminated) :
    runLoop cfg env (fuel + 1) history data state =
      match handle cfg data (answer cfg env history data state) with
      | .error e =>
          some (history ++ [answer cfg env history data state], .error e)
      | .ok next => runLoop cfg env fuel
          (history ++ [answer cfg env history data state]) next.1 next.2 := by
  cases state with
  | terminated => exact absurd rfl hstate
  | pending | generating | processingTools | interacting => rfl

theorem runLoop_terminated (fuel : Nat) (history : List (Turn τ π ι σ))
    (data : AgentData τ π ι σ) :
    runLoop cfg env fuel history data .terminated =
      some (history, .ok data) := by
  cases fuel <;> rfl

/-- What the loop does up to its end is a run of the state machine. -/
theorem exec_of_runLoop {fuel : Nat} {history turns : List (Turn τ π ι σ)}
    {data last : AgentData τ π ι σ} {state : AgentState}
    {images : Option (List ι)}
    (hhistory : (toolAgentLoop cfg images).exec
      (toolAgentLoop cfg images).initial history = some (data, state))
    (hloop : runLoop cfg env fuel history data state =
      some (turns, .ok last)) :
    (toolAgentLoop cfg images).exec (toolAgentLoop cfg images).initial turns =
      some (last, .terminated) := by
  by_cases hstate : state = .terminated
  · rw [hstate, runLoop_terminated] at hloop
    cases hloop
    rwa [hstate] at hhistory
  · induction fuel generalizing history data state with
    | zero =>
        cases state with
        | terminated => exact absurd rfl hstate
        | pending | generating | processingTools | interacting => cases hloop
    | succ fuel ih =>
        rw [runLoop_succ fuel history data hstate] at hloop
        have hstep : agentStep cfg (data, state)
            (answer cfg env history data state) =
              (handle cfg data (answer cfg env history data state)).toOption :=
          agentStep_answer history data hstate
        cases hhandle : handle cfg data
            (answer cfg env history data state) with
        | error e =>
            rw [hhandle] at hloop
            cases hloop
        | ok next =>
            obtain ⟨data', state'⟩ := next
            simp only [hhandle] at hloop hstep
            have hnext := System.exec_append_singleton hhistory hstep
            by_cases hended : state' = .terminated
            · rw [hended, runLoop_terminated] at hloop
              cases hloop
              rwa [hended] at hnext
            · exact ih hnext hloop hended

end Loop

section Runs

/-- A server that generates one token and one tool call each time, and tools
that answer with one token. -/
def callsTools (video : Bool) : Surroundings Nat Nat Nat Nat where
  prompt := [1]
  generate _ := (⟨[2], none⟩, 1)
  toolResponses _ _ _ := ⟨[], video, none⟩
  toolTokens _ := [3]
  interact _ := ⟨true, none, []⟩

/-- One user turn, ten tokens. -/
def oneUserTurn : AgentConfig where
  maxUserTurns := some 1
  maxAssistantTurns := none
  maxParallelCalls := 1
  responseLength := 10
  interactionConfigFile := false
  imageProcessor := true

theorem run_ends_callsTools :
    ∃ ending, run oneUserTurn (callsTools false) none 21 = some ending ∧
      Ends oneUserTurn ending :=
  run_ends oneUserTurn (callsTools false) none (by simp [
    Surroundings.Productive, callsTools])

/-- With one user turn there are two generations, and a video from a tool ends
the run with an exception. -/
theorem generations_exceed_userTurns :
    (∃ data, run oneUserTurn (callsTools false) none 21 = some
      ([.prompt [1], .generate ⟨[2], none⟩ 1,
        .tools [⟨[], false, none⟩] [3], .generate ⟨[2], none⟩ 1],
          .ok data)) ∧
    ∃ turns e, run oneUserTurn (callsTools true) none 21 =
      some (turns, .error e) :=
  ⟨⟨_, rfl⟩, _, _, rfl⟩

end Runs

end ToolAgentBudget

end SelfDistillation
