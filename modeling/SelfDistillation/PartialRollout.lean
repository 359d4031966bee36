/-
`FullyAsyncLLMServerManager.generate`
(verl/experimental/fully_async_policy/agent_loop/agent_loop.py): a generation
that servers abort is submitted again with what it has produced so far.
-/
import SelfDistillation.Python

namespace SelfDistillation

variable {τ π : Type}

inductive StopReason
  | aborted
  | abort
  | completed
  | length
  | other (text : String)
deriving DecidableEq

/-- The `TokenOutput` of a server, with the `global_steps` of its extra
fields. -/
structure ServerOutput (τ π : Type) where
  tokenIds : List τ
  logProbs : Option (List π)
  stopReason : Option StopReason
  numPreempted : Option Nat
  globalSteps : Option Nat

/-- `output.stop_reason in ("aborted", "abort")` -/
def ServerOutput.isAborted (output : ServerOutput τ π) : Bool :=
  output.stopReason = some .aborted || output.stopReason = some .abort

/-- `sampling_params`; of its values only the limits are read. -/
abbrev SamplingParams := PyDict (Option Int)

/-- A server, by the number of the request: what it makes of the prompt and
the sampling parameters. -/
abbrev Server (τ π : Type) :=
  Nat → List τ → SamplingParams → ServerOutput τ π

def limitKey (params : SamplingParams) : Option String :=
  if params.contains "max_tokens" then some "max_tokens"
  else if params.contains "max_new_tokens" then some "max_new_tokens"
  else none

/-- `sampling_params.get(limit_key) if limit_key else None`; the server of
vllm_async_server.py reads its limit in the same order. -/
def originalMaxTokens (params : SamplingParams) : Option Int :=
  (limitKey params).bind fun key => (params.get? key).join

/-- `final_output` with the steps that go into its extra fields. -/
structure FinalOutput (τ π : Type) where
  tokenIds : List τ
  logProbs : List π
  stopReason : Option StopReason
  numPreempted : Nat
  globalSteps : Option Nat
  minGlobalSteps : Option Nat
  maxGlobalSteps : Option Nat

def FinalOutput.init : FinalOutput τ π :=
  ⟨[], [], none, 0, none, none, none⟩

/-- Step 2: merge the output into `final_output`. -/
def mergeOutput (final : FinalOutput τ π) (output : ServerOutput τ π) :
    FinalOutput τ π where
  tokenIds := final.tokenIds ++ output.tokenIds
  logProbs := final.logProbs ++ output.logProbs.getD []
  stopReason := output.stopReason
  numPreempted := final.numPreempted + output.numPreempted.getD 0
  globalSteps := output.globalSteps
  minGlobalSteps := final.minGlobalSteps <|> output.globalSteps
  maxGlobalSteps := output.globalSteps

/-- Step 3: `sampling_params[limit_key]` is what is left of the limit. -/
def updateMaxTokens (key : Option String) (original : Option Int)
    (produced : Nat) (params : SamplingParams) : SamplingParams :=
  match key, original with
  | some key, some limit => params.set key (some (limit - produced))
  | _, _ => params

/-- `len(final_output.token_ids) >= original_max_tokens` -/
def reachedMaxTokens (original : Option Int) (produced : Nat) : Bool :=
  match original with
  | some limit => limit ≤ produced
  | none => false

/-- Steps 2 to 4 of a round: the merged output, the sampling parameters, and
whether the loop ends. -/
def afterOutput (partialRollout : Bool) (key : Option String)
    (original : Option Int) (final : FinalOutput τ π)
    (params : SamplingParams) (output : ServerOutput τ π) :
    FinalOutput τ π × SamplingParams × Bool :=
  let final := mergeOutput final output
  let params := updateMaxTokens key original final.tokenIds.length params
  if reachedMaxTokens original final.tokenIds.length then
    ({ final with stopReason := some .length }, params, true)
  else (final, params, !output.isAborted || !partialRollout)

/-- The loop of `generate`, its rounds bounded by `fuel`; it also returns the
sampling parameters, which it changes. -/
def generateLoop (partialRollout : Bool) (server : Server τ π)
    (promptIds : List τ) (key : Option String) (original : Option Int) :
    Nat → Nat → FinalOutput τ π → SamplingParams →
      Option (FinalOutput τ π × SamplingParams)
  | 0, _, _, _ => none
  | fuel + 1, request, final, params =>
      let output := server request (promptIds ++ final.tokenIds) params
      let round :=
        afterOutput partialRollout key original final params output
      if round.2.2 then some (round.1, round.2.1)
      else
        generateLoop partialRollout server promptIds key original fuel
          (request + 1) round.1 round.2.1

def generate (partialRollout : Bool) (server : Server τ π) (fuel : Nat)
    (promptIds : List τ) (params : SamplingParams) :
    Option (FinalOutput τ π × SamplingParams) :=
  generateLoop partialRollout server promptIds (limitKey params)
    (originalMaxTokens params) fuel 0 .init params

section SamplingParams

theorem contains_eq_isSome {α : Type} (d : PyDict α) (key : String) :
    d.contains key = (d.get? key).isSome := by
  rw [PyDict.contains, Bool.eq_iff_iff, decide_eq_true_iff,
    Option.isSome_iff_ne_none, ne_eq, PyDict.get?_eq_none_iff, not_not]

/-- Writing the limit does not change which key holds it. -/
theorem limitKey_set {params : SamplingParams} {key : String}
    (hkey : limitKey params = some key) (limit : Option Int) :
    limitKey (params.set key limit) = some key := by
  rw [limitKey] at hkey ⊢
  simp only [contains_eq_isSome, PyDict.get?_set] at hkey ⊢
  split at hkey
  · cases hkey
    simp
  · rename_i hmax
    split at hkey
    · cases hkey
      simp [hmax]
    · cases hkey

theorem originalMaxTokens_set {params : SamplingParams} {key : String}
    (hkey : limitKey params = some key) (limit : Option Int) :
    originalMaxTokens (params.set key limit) = limit := by
  rw [originalMaxTokens, limitKey_set hkey, Option.bind_some,
    PyDict.get?_set, if_pos rfl, Option.join_some]

/-- The parameters hold what is left of the limit. -/
structure Tracks (key : Option String) (original : Option Int)
    (produced : Nat) (params : SamplingParams) : Prop where
  limitKey : limitKey params = key
  maxTokens : originalMaxTokens params =
    original.map fun limit => limit - (produced : Int)

theorem tracks_initial (params : SamplingParams) :
    Tracks (limitKey params) (originalMaxTokens params) 0 params where
  limitKey := rfl
  maxTokens := by
    cases originalMaxTokens params <;> simp

theorem Tracks.update {key : Option String} {original : Option Int}
    {produced : Nat} {params : SamplingParams}
    (htracks : Tracks key original produced params) (produced' : Nat) :
    Tracks key original produced'
      (updateMaxTokens key original produced' params) := by
  obtain ⟨hkey, hmax⟩ := htracks
  cases original with
  | none =>
      have hsame : updateMaxTokens key none produced' params = params := by
        cases key <;> rfl
      rw [hsame]
      exact ⟨hkey, hmax⟩
  | some limit =>
      cases key with
      | none => rw [originalMaxTokens, hkey] at hmax; cases hmax
      | some key => exact ⟨limitKey_set hkey _, originalMaxTokens_set hkey _⟩

end SamplingParams

section Resumption

variable {server : Server τ π} {promptIds : List τ}
  {continuation : List (τ × π)} {key : Option String} {limit : Option Nat}

/-- What a limit leaves of a continuation; a limit below zero is zero. -/
def cut {α : Type} (limit : Option Int) (later : List α) : List α :=
  match limit with
  | none => later
  | some limit => later.take limit.toNat

/-- `original_max_tokens` for a limit -/
def tokenLimit (limit : Option Nat) : Option Int := limit.map Int.ofNat

/-- Asked to go on after a part of the continuation, the server returns the
next part of it with its log-probs, all the limit leaves unless it aborts. -/
def Continues (server : Server τ π) (promptIds : List τ)
    (continuation : List (τ × π)) : Prop :=
  ∀ request done later params, done ++ later = continuation →
    let output := server request (promptIds ++ done.map Prod.fst) params
    ∃ segment, segment <+: cut (originalMaxTokens params) later ∧
      output.tokenIds = segment.map Prod.fst ∧
      output.logProbs.getD [] = segment.map Prod.snd ∧
      (output.isAborted = false →
        segment = cut (originalMaxTokens params) later)

/-- The server does not abort all later requests before their first token. -/
def Progresses (server : Server τ π) : Prop :=
  ∀ request, ∃ later ≥ request, ∀ promptIds params,
    (server later promptIds params).isAborted = false ∨
      (server later promptIds params).tokenIds ≠ []

/-- The rounds so far have produced a part of the continuation. -/
structure Produced (continuation : List (τ × π)) (key : Option String)
    (limit : Option Nat) (final : FinalOutput τ π) (params : SamplingParams)
    (done later : List (τ × π)) : Prop where
  split : done ++ later = continuation
  tokenIds : final.tokenIds = done.map Prod.fst
  logProbs : final.logProbs = done.map Prod.snd
  length_le : ∀ max ∈ limit, done.length ≤ max
  tracks : Tracks key (tokenLimit limit) done.length params

theorem produced_initial (params : SamplingParams)
    (hlimit : originalMaxTokens params = tokenLimit limit) :
    Produced continuation (limitKey params) limit .init params []
      continuation where
  split := rfl
  tokenIds := rfl
  logProbs := rfl
  length_le _ _ := Nat.zero_le _
  tracks := hlimit ▸ tracks_initial params

/-- The limit cuts the same off what is left as off the whole. -/
theorem append_cut {α : Type} {limit : Option Nat} {done later : List α}
    (hle : ∀ max ∈ limit, done.length ≤ max) :
    done ++ cut ((tokenLimit limit).map fun max => max - (done.length : Int))
        later = cut (tokenLimit limit) (done ++ later) := by
  cases limit with
  | none => rfl
  | some max =>
      have hleft : (Int.ofNat max - (done.length : Int)).toNat =
          max - done.length := Int.toNat_sub max done.length
      have hwhole : (Int.ofNat max).toNat = max := rfl
      simp only [tokenLimit, Option.map_some, cut, hleft, hwhole]
      rw [List.take_append, List.take_of_length_le (hle max rfl)]

theorem length_cut_le {α : Type} {limit : Option Nat} (later : List α) :
    ∀ max ∈ limit, (cut (tokenLimit limit) later).length ≤ max := by
  rintro max rfl
  exact List.length_take_le max later

theorem afterOutput_tokenIds (partialRollout : Bool) (key : Option String)
    (original : Option Int) (final : FinalOutput τ π)
    (params : SamplingParams) (output : ServerOutput τ π) :
    (afterOutput partialRollout key original final params
      output).1.tokenIds = final.tokenIds ++ output.tokenIds := by
  rw [afterOutput]
  split <;> rfl

theorem afterOutput_logProbs (partialRollout : Bool) (key : Option String)
    (original : Option Int) (final : FinalOutput τ π)
    (params : SamplingParams) (output : ServerOutput τ π) :
    (afterOutput partialRollout key original final params
      output).1.logProbs = final.logProbs ++ output.logProbs.getD [] := by
  rw [afterOutput]
  split <;> rfl

theorem afterOutput_params (partialRollout : Bool) (key : Option String)
    (original : Option Int) (final : FinalOutput τ π)
    (params : SamplingParams) (output : ServerOutput τ π) :
    (afterOutput partialRollout key original final params output).2.1 =
      updateMaxTokens key original
        (final.tokenIds ++ output.tokenIds).length params := by
  rw [afterOutput]
  split <;> rfl

/-- The loop goes on exactly after an abort below the limit. -/
theorem afterOutput_ends (partialRollout : Bool) (key : Option String)
    (original : Option Int) (final : FinalOutput τ π)
    (params : SamplingParams) (output : ServerOutput τ π) :
    (afterOutput partialRollout key original final params
        output).2.2 = true ↔
      reachedMaxTokens original (final.tokenIds ++ output.tokenIds).length =
          true ∨ output.isAborted = false ∨ partialRollout = false := by
  have hlength : (mergeOutput final output).tokenIds =
      final.tokenIds ++ output.tokenIds := rfl
  rw [afterOutput, hlength]
  split
  · rename_i hreached
    exact iff_of_true rfl (.inl hreached)
  · rename_i hreached
    rw [or_iff_right hreached]
    simp

/-- A round appends the segment it gets; what it leaves is all there is when
the limit is reached or the server has not aborted. -/
theorem produced_round (hcontinues : Continues server promptIds continuation)
    {final : FinalOutput τ π} {params : SamplingParams}
    {done later : List (τ × π)}
    (hproduced : Produced continuation key limit final params done later)
    (partialRollout : Bool) (request : Nat) :
    let output := server request (promptIds ++ final.tokenIds) params
    let round := afterOutput partialRollout key (tokenLimit limit) final
      params output
    ∃ segment rest, later = segment ++ rest ∧
      output.tokenIds = segment.map Prod.fst ∧
      Produced continuation key limit round.1 round.2.1 (done ++ segment)
        rest ∧
      (done ++ segment <+: cut (tokenLimit limit) continuation) ∧
      (output.isAborted = false ∨ reachedMaxTokens (tokenLimit limit)
          (final.tokenIds ++ output.tokenIds).length = true →
        done ++ segment = cut (tokenLimit limit) continuation) := by
  intro output round
  obtain ⟨segment, hfront, htokens, hlogs, hall⟩ :=
    hcontinues request done later params hproduced.split
  rw [← hproduced.tokenIds] at htokens hlogs hall
  have hwhole : done ++ cut (originalMaxTokens params) later =
      cut (tokenLimit limit) continuation := by
    rw [hproduced.tracks.maxTokens, append_cut hproduced.length_le,
      hproduced.split]
  have hfront' : done ++ segment <+: cut (tokenLimit limit) continuation := by
    rw [← hwhole]
    exact (List.prefix_append_right_inj done).mpr hfront
  have hcut : cut (originalMaxTokens params) later <+: later := by
    cases originalMaxTokens params with
    | none => exact List.prefix_rfl
    | some max => exact List.take_prefix _ _
  obtain ⟨rest, hrest⟩ := hfront.trans hcut
  have hnext : final.tokenIds ++ output.tokenIds =
      (done ++ segment).map Prod.fst := by
    rw [List.map_append, ← hproduced.tokenIds, ← htokens]
  have hlength : (final.tokenIds ++ output.tokenIds).length =
      (done ++ segment).length := by
    rw [hnext, List.length_map]
  refine ⟨segment, rest, hrest.symm, htokens, ?_, hfront', ?_⟩
  · refine ⟨?_, ?_, ?_, ?_, ?_⟩
    · rw [List.append_assoc, hrest, hproduced.split]
    · rw [afterOutput_tokenIds, hnext]
    · rw [afterOutput_logProbs, List.map_append, ← hproduced.logProbs,
        ← hlogs]
    · intro max hmax
      exact hfront'.length_le.trans (length_cut_le continuation max hmax)
    · rw [afterOutput_params, hlength]
      exact hproduced.tracks.update _
  · rintro (hstopped | hreached)
    · rw [hall hstopped, hwhole]
    · cases limit with
      | none => cases hreached
      | some max =>
          refine hfront'.eq_of_length_le ?_
          have hmax : max ≤ (done ++ segment).length := by
            rw [← hlength]
            exact Int.ofNat_le.mp (of_decide_eq_true hreached)
          exact (length_cut_le continuation max rfl).trans hmax

/-- A result for some fuel is the result for more fuel. -/
theorem generateLoop_mono {partialRollout : Bool} {original : Option Int}
    {fuel fuel' : Nat} (hle : fuel ≤ fuel') {request : Nat}
    {final : FinalOutput τ π} {params : SamplingParams}
    {result : FinalOutput τ π × SamplingParams}
    (h : generateLoop partialRollout server promptIds key original fuel
      request final params = some result) :
    generateLoop partialRollout server promptIds key original fuel' request
      final params = some result := by
  induction fuel generalizing fuel' request final params with
  | zero => cases h
  | succ fuel ih =>
      obtain ⟨fuel', rfl⟩ := Nat.exists_eq_add_of_le' hle
      rw [← Nat.add_assoc, generateLoop]
      rw [generateLoop] at h
      split at h
      · rename_i hends
        rwa [if_pos hends]
      · rename_i hends
        rw [if_neg hends]
        exact ih (Nat.le_add_left ..) h

/-- A result that is a part of the continuation, token for token. -/
structure Returns (part : List (τ × π)) (final : FinalOutput τ π) :
    Prop where
  tokenIds : final.tokenIds = part.map Prod.fst
  logProbs : final.logProbs = part.map Prod.snd

/-- A round of the loop returns the whole, or leaves the rest to the next
request because the server has aborted. -/
theorem generateLoop_round
    (hcontinues : Continues server promptIds continuation)
    {final : FinalOutput τ π} {params : SamplingParams}
    {done later : List (τ × π)}
    (hproduced : Produced continuation key limit final params done later)
    (request : Nat) :
    let output := server request (promptIds ++ final.tokenIds) params
    (∃ result, generateLoop true server promptIds key (tokenLimit limit) 1
        request final params = some result ∧
      Returns (cut (tokenLimit limit) continuation) result.1) ∨
    output.isAborted = true ∧ ∃ next params' segment rest,
      later = segment ++ rest ∧ output.tokenIds = segment.map Prod.fst ∧
      Produced continuation key limit next params' (done ++ segment) rest ∧
      ∀ fuel result, generateLoop true server promptIds key
          (tokenLimit limit) fuel (request + 1) next params' = some result →
        generateLoop true server promptIds key (tokenLimit limit) (fuel + 1)
          request final params = some result := by
  intro output
  obtain ⟨segment, rest, hlater, htokens, hnext, -, hwhole⟩ :=
    produced_round hcontinues hproduced true request
  have hends := afterOutput_ends true key (tokenLimit limit) final params
    output
  cases hround : (afterOutput true key (tokenLimit limit) final params
      output).2.2 with
  | true =>
      rw [hround] at hends
      have hstopped : output.isAborted = false ∨
          reachedMaxTokens (tokenLimit limit)
            (final.tokenIds ++ output.tokenIds).length = true := by
        rcases hends.mp rfl with hreached | hstopped | hpartial
        · exact .inr hreached
        · exact .inl hstopped
        · cases hpartial
      refine .inl ⟨_, by rw [generateLoop, if_pos hround], ?_⟩
      rw [← hwhole hstopped]
      exact ⟨hnext.tokenIds, hnext.logProbs⟩
  | false =>
      rw [hround] at hends
      have haborted : output.isAborted = true := by
        cases h : output.isAborted with
        | true => rfl
        | false => cases hends.mpr (.inr (.inl h))
      refine .inr ⟨haborted, _, _, segment, rest, hlater, htokens, hnext,
        fun fuel result hresult => ?_⟩
      rw [generateLoop, if_neg (by rw [hround]; exact Bool.false_ne_true)]
      exact hresult

/-- The loop returns the whole: a segment that is not empty leaves less of the
continuation, and the server cannot abort empty segments for ever. -/
theorem generateLoop_complete
    (hcontinues : Continues server promptIds continuation)
    (hprogresses : Progresses server) {final : FinalOutput τ π}
    {params : SamplingParams} {done later : List (τ × π)}
    (hproduced : Produced continuation key limit final params done later)
    (request : Nat) :
    ∃ fuel result, generateLoop true server promptIds key (tokenLimit limit)
        fuel request final params = some result ∧
      Returns (cut (tokenLimit limit) continuation) result.1 := by
  induction hsize : later.length using Nat.strong_induction_on
    generalizing request final params done later with
  | _ size hshorter =>
      obtain ⟨later', hlater', hprogress⟩ := hprogresses request
      obtain ⟨gap, rfl⟩ := Nat.exists_eq_add_of_le hlater'
      clear hlater'
      -- on the requests before the one that makes progress
      induction gap generalizing request final params done later with
      | zero =>
          rcases generateLoop_round hcontinues hproduced request with
            ⟨result, hresult⟩ | ⟨haborted, next, params', segment, rest, hlater,
              htokens, hnext, hround⟩
          · exact ⟨1, result, hresult⟩
          · rcases hprogress (promptIds ++ final.tokenIds) params with
              hstopped | hsome
            · rw [Nat.add_zero, haborted] at hstopped
              cases hstopped
            · rw [Nat.add_zero, htokens, ne_eq, List.map_eq_nil_iff] at hsome
              have hless : rest.length < size := by
                rw [← hsize, hlater, List.length_append]
                have hpos := List.length_pos_of_ne_nil hsome
                omega
              obtain ⟨fuel, result, hrest, hreturns⟩ :=
                hshorter rest.length hless hnext (request + 1) rfl
              exact ⟨fuel + 1, result, hround fuel result hrest, hreturns⟩
      | succ gap ih =>
          rcases generateLoop_round hcontinues hproduced request with
            ⟨result, hresult⟩ | ⟨-, next, params', segment, rest, hlater, -,
              hnext, hround⟩
          · exact ⟨1, result, hresult⟩
          · obtain ⟨fuel, result, hrest, hreturns⟩ :
                ∃ fuel result, generateLoop true server promptIds key
                    (tokenLimit limit) fuel (request + 1) next params' =
                      some result ∧
                  Returns (cut (tokenLimit limit) continuation) result.1 := by
              rcases eq_or_ne segment [] with rfl | hsome
              · refine ih hnext (request + 1) (by rw [← hsize, hlater]; rfl) ?_
                rwa [Nat.add_right_comm, Nat.add_assoc]
              · have hless : rest.length < size := by
                  rw [← hsize, hlater, List.length_append]
                  have hpos := List.length_pos_of_ne_nil hsome
                  omega
                exact hshorter rest.length hless hnext (request + 1) rfl
            exact ⟨fuel + 1, result, hround fuel result hrest, hreturns⟩

/-- Without partial rollout the first round returns. -/
theorem generateLoop_first
    (hcontinues : Continues server promptIds continuation)
    {final : FinalOutput τ π} {params : SamplingParams}
    {done later : List (τ × π)}
    (hproduced : Produced continuation key limit final params done later)
    (request : Nat) :
    ∃ result part, generateLoop false server promptIds key (tokenLimit limit)
        1 request final params = some result ∧
      part <+: cut (tokenLimit limit) continuation ∧
      Returns part result.1 ∧
      ((server request (promptIds ++ final.tokenIds) params).isAborted =
          false → part = cut (tokenLimit limit) continuation) := by
  obtain ⟨segment, rest, -, -, hnext, hfront, hwhole⟩ :=
    produced_round hcontinues hproduced false request
  have hends := (afterOutput_ends false key (tokenLimit limit) final params
    (server request (promptIds ++ final.tokenIds) params)).mpr
      (.inr (.inr rfl))
  rw [generateLoop, if_pos hends]
  exact ⟨_, done ++ segment, rfl, hfront, ⟨hnext.tokenIds, hnext.logProbs⟩,
    fun hstopped => hwhole (.inl hstopped)⟩

/-- With partial rollout, or a first request that is not aborted, `generate`
returns the uninterrupted generation, and otherwise a part of it; there is a
log-prob for every token and no token beyond the limit. -/
theorem generate_uninterrupted (partialRollout : Bool)
    (server : Server τ π) (promptIds : List τ) (params : SamplingParams)
    (continuation : List (τ × π)) (limit : Option Nat)
    (hlimit : originalMaxTokens params = tokenLimit limit)
    (hcontinues : Continues server promptIds continuation)
    (hprogresses : Progresses server) :
    ∃ enough result part,
      (∀ fuel ≥ enough, generate partialRollout server fuel promptIds params =
        some result) ∧
      part <+: cut (tokenLimit limit) continuation ∧
      Returns part result.1 ∧
      result.1.logProbs.length = result.1.tokenIds.length ∧
      (∀ max ∈ limit, result.1.tokenIds.length ≤ max) ∧
      (partialRollout = true ∨
          (server 0 promptIds params).isAborted = false →
        part = cut (tokenLimit limit) continuation) := by
  have hproduced : Produced continuation (limitKey params) limit .init
      params [] continuation := produced_initial params hlimit
  obtain ⟨enough, result, part, hresult, hfront, hreturns, hwhole⟩ :
      ∃ enough result part, generateLoop partialRollout server promptIds
          (limitKey params) (tokenLimit limit) enough 0 .init params =
            some result ∧
        part <+: cut (tokenLimit limit) continuation ∧
        Returns part result.1 ∧
        (partialRollout = true ∨
            (server 0 promptIds params).isAborted = false →
          part = cut (tokenLimit limit) continuation) := by
    cases partialRollout with
    | true =>
        obtain ⟨enough, result, hresult, hreturns⟩ :=
          generateLoop_complete hcontinues hprogresses hproduced 0
        exact ⟨enough, result, _, hresult, List.prefix_rfl, hreturns,
          fun _ => rfl⟩
    | false =>
        obtain ⟨result, part, hresult, hfront, hreturns, hwhole⟩ :=
          generateLoop_first hcontinues hproduced 0
        refine ⟨1, result, part, hresult, hfront, hreturns, fun h => ?_⟩
        refine hwhole ?_
        rw [show (FinalOutput.init : FinalOutput τ π).tokenIds = [] from rfl,
          List.append_nil]
        exact h.resolve_left Bool.false_ne_true
  refine ⟨enough, result, part, fun fuel hfuel => ?_, hfront, hreturns, ?_,
    ?_, hwhole⟩
  · rw [generate, hlimit]
    exact generateLoop_mono hfuel hresult
  · rw [hreturns.logProbs, hreturns.tokenIds, List.length_map,
      List.length_map]
  · intro max hmax
    rw [hreturns.tokenIds, List.length_map]
    exact hfront.length_le.trans (length_cut_le continuation max hmax)

end Resumption

section Runs

def fourTokens : List (Nat × Nat) := [(1, 5), (2, 6), (3, 7), (4, 8)]

/-- The server continues a prompt of one token; it aborts its first request
after a token and its second one before a token. -/
def abortingServer : Server Nat Nat := fun request promptIds params =>
  let later := cut (originalMaxTokens params)
    (fourTokens.drop (promptIds.length - 1))
  let segment := if request < 2 then later.take (1 - request) else later
  { tokenIds := segment.map Prod.fst
    logProbs := some (segment.map Prod.snd)
    stopReason := some (if request < 2 then .aborted else .completed)
    numPreempted := none
    globalSteps := some request }

theorem continues_abortingServer :
    Continues abortingServer [0] fourTokens := by
  intro request done later params hsplit
  have hdrop : fourTokens.drop (([0] ++ done.map Prod.fst).length - 1) =
      later := by
    rw [← hsplit, List.length_append, List.length_map, List.length_singleton,
      Nat.add_sub_cancel_left, List.drop_left]
  simp only [abortingServer, hdrop]
  by_cases hearly : request < 2
  · refine ⟨_, ?_, rfl, rfl, ?_⟩
    · rw [if_pos hearly]
      exact List.take_prefix ..
    · simp [ServerOutput.isAborted, hearly]
  · refine ⟨_, ?_, rfl, rfl, ?_⟩
    · rw [if_neg hearly]
    · exact fun _ => if_neg hearly

theorem progresses_abortingServer : Progresses abortingServer := by
  intro request
  refine ⟨request + 2, Nat.le_add_right .., fun promptIds params => .inl ?_⟩
  simp [abortingServer, ServerOutput.isAborted]

def threeNewTokens : SamplingParams := PyDict.empty.set "max_new_tokens" (some 3)

theorem generate_uninterrupted_abortingServer :
    ∃ enough result, (∀ fuel ≥ enough,
        generate true abortingServer fuel [0] threeNewTokens = some result) ∧
      result.1.tokenIds = [1, 2, 3] ∧ result.1.logProbs = [5, 6, 7] := by
  obtain ⟨enough, result, part, hresult, -, hreturns, -, -, hwhole⟩ :=
    generate_uninterrupted true abortingServer [0] threeNewTokens fourTokens
      (some 3) rfl continues_abortingServer progresses_abortingServer
  refine ⟨enough, result, hresult, ?_, ?_⟩
  · rw [hreturns.tokenIds, hwhole (.inl rfl)]
    rfl
  · rw [hreturns.logProbs, hwhole (.inl rfl)]
    rfl

/-- Without partial rollout the aborted generation is returned as it is. -/
theorem generate_interrupted :
    Continues abortingServer [0] fourTokens ∧ Progresses abortingServer ∧
      ∃ result, generate false abortingServer 1 [0] threeNewTokens =
          some result ∧
        result.1.tokenIds ≠
          (cut (originalMaxTokens threeNewTokens) fourTokens).map Prod.fst :=
  ⟨continues_abortingServer, progresses_abortingServer, _, rfl,
    by decide +kernel⟩

end Runs

end SelfDistillation
