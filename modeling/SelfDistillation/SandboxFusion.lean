/-
`check_correctness` and `compute_score`
(verl/utils/reward_score/sandbox_fusion): the test cases of a program run in a
sandbox, in threads that end in any order; a compile error of one case
overwrites the cases behind it.
-/
import SelfDistillation.PyText

namespace SelfDistillation

namespace SandboxFusion

/-- An input or an expected output, by its `str` and its `bool`. -/
structure PyValue where
  text : Text
  truthy : Bool
deriving DecidableEq

/-- `str(value)` -/
def strOf : Option PyValue → Text
  | none => "None".toList
  | some value => value.text

/-- `str(value) if value else None` -/
def strIfTruthy : Option PyValue → Option Text
  | none => none
  | some value => if value.truthy then some value.text else none

section Service

/-- `compile_result` of a reply -/
structure CompileResult where
  status : Option String
  returnCode : Option Int
  executionTime : Option ℚ
  stderr : Option Text
deriving DecidableEq

/-- `run_result` of a reply -/
structure RunResult where
  status : Option String
  returnCode : Option Int
  executionTime : Option ℚ
  stdout : Option Text
  stderr : Option Text
deriving DecidableEq

/-- The reply of the sandbox; `none` is a field that is absent or empty. -/
structure Reply where
  status : Option String
  compileResult : Option CompileResult
  runResult : Option RunResult
deriving DecidableEq

/-- What `response.json()` can be: nothing, an object, or a value of another
type, which has no `get`. -/
inductive Json
  | falsy
  | reply (reply : Reply)
  | other (typeName : String)
deriving DecidableEq

/-- How one request ends. -/
inductive HttpOutcome
  | gatewayTimeout
  | ok (json : Json)
  | requestException (text : String)
  | jsonDecodeError (text : String)
  | exception (text : String)
deriving DecidableEq

/-- The payload of a request. -/
structure Payload where
  compileTimeout : Nat
  runTimeout : Nat
  code : Text
  stdin : Option Text
  memoryLimitMb : Nat
  language : String
deriving DecidableEq

/-- `MAX_RETRIES` -/
def maxRetries : Nat := 3

def supportedLanguages : List String :=
  ["python", "cpp", "nodejs", "go", "go_test", "java", "php", "csharp", "bash",
    "typescript", "sql", "rust", "cuda", "lua", "R", "perl", "D_ut", "ruby",
    "scala", "julia", "pytest", "junit", "kotlin_script", "jest", "verilog",
    "python_gpu", "lean", "swift", "racket"]

/-- The attempts that are left, with the last error. -/
def callAttempts (post : Nat → HttpOutcome) :
    Nat → Nat → String → Json × Option String
  | 0, _, lastError => (.falsy, some lastError)
  | left + 1, attempt, _ =>
      match post attempt with
      | .gatewayTimeout =>
          let number := attempt + 1
          callAttempts post left number
            (s!"API Call Failed: API Request Error: Gateway Timeout (504) on " ++
              s!"attempt {number}/{maxRetries}")
      | .ok json => (json, none)
      | .requestException text =>
          (.falsy, some s!"API Call Failed: API Request Error: {text}")
      | .jsonDecodeError text =>
          (.falsy,
            some s!"API Call Failed: API Response JSON Decode Error: {text}")
      | .exception text =>
          (.falsy, some s!"API Call Failed: Unexpected Error: {text}")

/-- `call_sandbox_api`, without the request id in its messages; `post` gives
the outcome of each attempt. -/
def callSandboxApi (post : Nat → Payload → HttpOutcome) (payload : Payload) :
    Json × Option String :=
  if payload.language ∉ supportedLanguages then
    (.falsy, some s!"Unsupported language: {payload.language}")
  else
    callAttempts (fun attempt => post attempt payload) maxRetries 0
      "API Call Failed after retries"

end Service

section SingleCase

/-- `True`, `False` or an error code. -/
inductive ResultStatus
  | bool (passed : Bool)
  | code (n : Int)
deriving DecidableEq

/-- `metadata` of a case -/
structure Metadata where
  caseIndex : Nat
  input : Option Text
  expectedOutput : Option Text
  apiRequestError : Option String
  status : String
  apiResponse : Json := .falsy
  stdout : Option Text := none
  stderr : Option Text := none
  exitCode : Option Int := none
  duration : Option ℚ := none
  compileDuration : Option ℚ := none
  compileStderr : Option Text := none
  apiStatus : Option String := none
  compileStatus : Option String := none
  runStatus : Option String := none
deriving DecidableEq

/-- A test case with the program that belongs to it. -/
structure Case where
  input : Option PyValue
  expectedOutput : Option PyValue
  assertCase : Text

/-- `is_compile_error` -/
def CompileResult.isError (compileResult : CompileResult) : Bool :=
  compileResult.status = some "Error" ∨
    compileResult.status = some "TimeLimitExceeded" ∨
    compileResult.status = some "Finished" ∧ compileResult.returnCode ≠ some 0

/-- `is_runtime_error` -/
def RunResult.isError (runResult : RunResult) : Bool :=
  runResult.status = some "TimeLimitExceeded" ∨
    runResult.status = some "Error" ∨
    runResult.status = some "Finished" ∧ runResult.returnCode ≠ some 0

/-- `s.rstrip("\n")` -/
def rstripNewlines (s : Text) : Text := s.rdropWhile (· == '\n')

/-- The actual output is the expected one, up to trailing newlines. -/
def outputMatches (expectedOutput : Option PyValue) (runResult : RunResult) :
    Bool :=
  match expectedOutput with
  | none => true
  | some expected =>
      rstripNewlines (runResult.stdout.getD []) = rstripNewlines expected.text

/-- What a `Failed` reply means. -/
def judgeFailed (reply : Reply) : ResultStatus × String :=
  match reply.compileResult.filter CompileResult.isError with
  | some compileResult =>
      if compileResult.status = some "TimeLimitExceeded" then
        (.code (-4), "compile_timeout")
      else (.code (-4), "compile_error")
  | none =>
      match reply.runResult with
      | some runResult =>
          if runResult.isError then
            if runResult.status = some "TimeLimitExceeded" then
              (.code (-3), "timeout")
            else (.code (-2), "runtime_error")
          else (.code (-1), "unknown_failure")
      | none => (.code (-1), "unknown_failure_state")

/-- Determine status based on API response. -/
def judge (expectedOutput : Option PyValue) (reply : Reply) :
    ResultStatus × String :=
  match reply.status with
  | some "SandboxError" => (.code (-1), "sandbox_error")
  | some "Failed" => judgeFailed reply
  | some "Success" =>
      match reply.runResult.filter fun runResult =>
          runResult.status = some "Finished" with
      | some runResult =>
          if outputMatches expectedOutput runResult then
            (.bool true, "success")
          else (.bool false, "wrong_answer")
      | none => (.code (-1), "unexpected_success_state")
  | apiStatus =>
      let name := apiStatus.getD "None"
      (.code (-1), s!"unknown_api_status_{name}")

/-- What stays the same in all cases: the arguments of `check_correctness`.
`wrapperCode` is the program around a function `fn_name`, which only the
sandbox reads. -/
structure Setting where
  generation : Text
  timeout : Nat
  memoryLimitMb : Nat
  language : String
  fnName : Option String
  wrapperCode : Text → String → Text

/-- The request of a case. -/
def Setting.payload (setting : Setting) (case : Case) : Payload :=
  -- Append assert case to generation
  let generation := setting.generation ++ "\n\n".toList ++ case.assertCase
  { compileTimeout := setting.timeout
    runTimeout := setting.timeout
    code := match setting.fnName with
      | some fnName =>
          if fnName ≠ "" ∧ setting.language = "python" then
            setting.wrapperCode generation fnName
          else generation
      | none => generation
    stdin := case.input.map PyValue.text
    memoryLimitMb := setting.memoryLimitMb
    language := setting.language }

/-- `_process_single_case`; a reply without `get` raises. -/
def processSingleCase (post : Nat → Payload → HttpOutcome) (setting : Setting)
    (caseIndex : Nat) (case : Case) :
    Except String (ResultStatus × Metadata) :=
  let (apiResponse, errorMsg) := callSandboxApi post (setting.payload case)
  let metadata : Metadata :=
    { caseIndex := caseIndex
      input := case.input.map PyValue.text
      expectedOutput := strIfTruthy case.expectedOutput
      apiRequestError := errorMsg
      status := "unknown" }
  match errorMsg with
  | some _ => .ok (.code (-1), { metadata with status := "api_error" })
  | none =>
      match apiResponse with
      | .falsy =>
          .ok (.code (-1), { metadata with status := "unknown_api_state" })
      | .other typeName =>
          .error s!"'{typeName}' object has no attribute 'get'"
      | .reply reply =>
          let (resultStatus, status) := judge case.expectedOutput reply
          .ok (resultStatus, { metadata with
            status := status
            apiResponse := apiResponse
            stdout := reply.runResult.bind RunResult.stdout
            stderr := reply.runResult.bind RunResult.stderr
            exitCode := reply.runResult.bind RunResult.returnCode
            duration := reply.runResult.bind RunResult.executionTime
            compileDuration :=
              reply.compileResult.bind CompileResult.executionTime
            compileStderr := reply.compileResult.bind CompileResult.stderr
            apiStatus := reply.status
            compileStatus := reply.compileResult.bind CompileResult.status
            runStatus := reply.runResult.bind RunResult.status })

end SingleCase

section CheckCorrectness

/-- `results`, `metadata_list` and `first_compile_error_index`, where `none`
stands for -1. -/
structure Progress where
  results : List (Option ResultStatus)
  metadataList : List (Option Metadata)
  firstCompileErrorIndex : Option Nat

/-- The placeholders. -/
def Progress.init (numCases : Nat) : Progress where
  results := List.replicate numCases none
  metadataList := List.replicate numCases none
  firstCompileErrorIndex := none

/-- The metadata of a case whose thread raised. -/
def raisedMetadata (case : Case) (index : Nat) (exc : String) : Metadata :=
  { caseIndex := index
    input := some (strOf case.input)
    expectedOutput := strIfTruthy case.expectedOutput
    apiRequestError := some s!"Internal execution error: {exc}"
    status := "internal_error" }

/-- `result_status` and `metadata` of a case, or what stands for an
exception. -/
def outcome (post : Nat → Payload → HttpOutcome) (setting : Setting)
    (index : Nat) (case : Case) : ResultStatus × Metadata :=
  match processSingleCase post setting index case with
  | .ok result => result
  | .error exc => (.code (-1), raisedMetadata case index exc)

/-- The body of the loop over the futures that have completed. -/
def completed (post : Nat → Nat → Payload → HttpOutcome) (setting : Setting)
    (cases : List Case) (s : Progress) (index : Nat) : Progress :=
  match cases[index]? with
  | none => s
  | some case =>
      let (resultStatus, metadata) := outcome (post index) setting index case
      let isFirst : Bool := match s.firstCompileErrorIndex with
        | none => true
        | some first => decide (index < first)
      { results := s.results.set index (some resultStatus)
        metadataList := s.metadataList.set index (some metadata)
        firstCompileErrorIndex :=
          if resultStatus = .code (-4) ∧ isFirst then some index
          else s.firstCompileErrorIndex }

/-- The metadata of a case without any, behind a compile error. -/
def skippedMetadata (case : Case) (index : Nat) : Metadata :=
  { caseIndex := index
    input := some (strOf case.input)
    expectedOutput := strIfTruthy case.expectedOutput
    apiRequestError := none
    status := "compile_error_skipped" }

/-- The body of the loop behind the first compile error. -/
def skipCase (cases : List Case) (s : Progress) (index : Nat) : Progress :=
  match cases[index]?, s.results[index]?, s.metadataList[index]? with
  | some case, some result, some metadata =>
      if result ≠ some (.code (-4)) then
        { s with
          results := s.results.set index (some (.code (-4)))
          metadataList := s.metadataList.set index (some (match metadata with
            | none => skippedMetadata case index
            | some metadata =>
                { metadata with status := "compile_error_skipped" })) }
      else s
  | _, _, _ => s

/-- Post-processing for compile errors. -/
def postProcess (cases : List Case) (s : Progress) : Progress :=
  match s.firstCompileErrorIndex with
  | none => s
  | some first =>
      (List.range' (first + 1) (cases.length - (first + 1))).foldl
        (skipCase cases) s

/-- The pool: `order` is the order in which the futures complete. -/
def runCases (post : Nat → Nat → Payload → HttpOutcome) (setting : Setting)
    (cases : List Case) (order : List Nat) : Progress :=
  postProcess cases
    (order.foldl (completed post setting cases) (.init cases.length))

/-- `in_outs`: the keys of it that are read. -/
structure InOuts where
  inputs : Option (List (Option PyValue))
  outputs : Option (List (Option PyValue))
  assertCase : Option (List Text)
  fnName : Option String

/-- An entry of the metadata list that is returned: that of a case, or an
error. -/
inductive MetadataEntry
  | metadata (metadata : Option Metadata)
  | error (msg : String) (caseIndex : Option Nat)

/-- `check_correctness` -/
def checkCorrectness (post : Nat → Nat → Payload → HttpOutcome)
    (setting : Setting) (inOuts : InOuts) (order : List Nat) :
    List (Option ResultStatus) × List MetadataEntry :=
  match inOuts.inputs, inOuts.outputs with
  | some inputs, some expectedOutputs =>
      let numCases := inputs.length
      let assertCases := inOuts.assertCase.getD (List.replicate numCases [])
      let mismatch := (List.replicate numCases (some (ResultStatus.code (-1))),
        (List.range numCases).map fun i =>
          MetadataEntry.error "Input/output count mismatch" (some i))
      if numCases = 0 then ([], [])
      else if inputs.length ≠ expectedOutputs.length then mismatch
      else if assertCases.length ≠ numCases then mismatch
      else
        let cases := List.zipWith (fun io assertCase =>
          Case.mk io.1 io.2 assertCase) (inputs.zip expectedOutputs) assertCases
        let s := runCases post { setting with fnName := inOuts.fnName } cases
          order
        (s.results, s.metadataList.map .metadata)
  | _, _ => ([some (.code (-1))], [.error "Invalid input/output data" none])

end CheckCorrectness

section ComputeScore

/-- The code block of a completion; `isAlpha` is `str.isalpha` of one code
point. -/
def codeBlock (isAlpha : Char → Bool) (completion : Text) : Option Text :=
  if "```python".toList <:+: completion then
    let last := (split "```python".toList completion).getLastD []
    some ((split "```".toList last).headD [])
  else if "```".toList <:+: completion then
    -- Handle cases like ```\ncode\n```
    match split "```".toList completion with
    | _ :: solution :: _ =>
        match Delimited.splitFirst ['\n'] solution with
        | some (firstLine, rest) =>
            let name := strip firstLine
            if name ≠ [] ∧ name.all isAlpha then some rest else some solution
        | none => some solution
    | _ => some completion
  else none

/-- `test_cases`: a dict, or a string with what `json.loads` makes of it. -/
inductive TestCases
  | dict (inOuts : InOuts)
  | text (loaded : Option InOuts)

def TestCases.load : TestCases → Option InOuts
  | .dict inOuts => some inOuts
  | .text loaded => loaded

/-- The defaults for assert cases. -/
def withDefaults (inOuts : InOuts) : InOuts :=
  match inOuts.assertCase with
  | some assertCases =>
      { inOuts with
        inputs := some (inOuts.inputs.getD
          (assertCases.map fun _ => some ⟨[], false⟩))
        outputs := some (inOuts.outputs.getD (assertCases.map fun _ => none)) }
  | none => inOuts

/-- The pass rate, `r is True` of the cases that are considered. -/
def passRate (results : List (Option ResultStatus)) : ℚ :=
  (results.count (some (.bool true)) : ℚ) / (results.length : ℚ)

/-- The score of a list of results; `continuous` looks at the first ten. -/
def score (continuous : Bool) (resList : List (Option ResultStatus)) : ℚ :=
  if resList = [] then 0
  else if continuous then passRate (resList.take (min resList.length 10))
  else passRate resList

/-- What `compute_score` calls `check_correctness` with. -/
def scoreSetting (wrapperCode : Text → String → Text) (memoryLimitMb : Nat)
    (timeout : Nat) (solution : Text) : Setting where
  generation := solution
  timeout := timeout
  memoryLimitMb := memoryLimitMb
  language := "python"
  fnName := none
  wrapperCode := wrapperCode

/-- `compute_score` -/
def computeScore (post : Nat → Nat → Payload → HttpOutcome)
    (isAlpha : Char → Bool) (wrapperCode : Text → String → Text)
    (memoryLimitMb : Nat) (completion : Text) (testCases : TestCases)
    (continuous : Bool) (timeout : Nat) (order : List Nat) :
    ℚ × List MetadataEntry :=
  match codeBlock isAlpha completion with
  | none => (0, [.error "Invalid completion (missing code block)" none])
  | some solution =>
      match testCases.load with
      | none => (0, [.error "Invalid test_cases JSON format" none])
      | some inOuts =>
          if inOuts.assertCase = none ∧
              (inOuts.inputs = none ∨ inOuts.outputs = none) then
            (0, [.error
              "Invalid test_cases structure (missing inputs/outputs)" none])
          else
            let (resList, metadataList) := checkCorrectness post
              (scoreSetting wrapperCode memoryLimitMb timeout solution)
              (withDefaults inOuts) order
            (score continuous resList, metadataList)

end ComputeScore

section Judged

/-- The reply of the service to a case, if it gives one. -/
def answer (post : Nat → Payload → HttpOutcome) (setting : Setting)
    (case : Case) : Option Reply :=
  match callSandboxApi post (setting.payload case) with
  | (.reply reply, none) => some reply
  | _ => none

/-- The run of the case finished successfully with the expected output. -/
def passed (post : Nat → Payload → HttpOutcome) (setting : Setting)
    (case : Case) : Bool :=
  (answer post setting case).any fun reply =>
    reply.status = some "Success" ∧ reply.runResult.any fun runResult =>
      runResult.status = some "Finished" ∧
        outputMatches case.expectedOutput runResult

/-- The program of the case did not compile, or not in time. -/
def compileFailed (post : Nat → Payload → HttpOutcome) (setting : Setting)
    (case : Case) : Bool :=
  (answer post setting case).any fun reply =>
    reply.status = some "Failed" ∧
      reply.compileResult.any CompileResult.isError

theorem judgeFailed_eq_compile_iff (reply : Reply) :
    (judgeFailed reply).1 = .code (-4) ↔
      reply.compileResult.any CompileResult.isError := by
  unfold judgeFailed
  cases hcompile : reply.compileResult with
  | none =>
      cases reply.runResult with
      | none => simp
      | some runResult =>
          simp only [Option.filter_none, Option.any_none]
          split_ifs <;> simp
  | some compileResult =>
      by_cases herror : compileResult.isError
      · simp only [Option.filter_some, herror, if_true, Option.any_some]
        split_ifs <;> simp
      · simp only [Option.filter_some, herror, Option.any_some]
        cases reply.runResult with
        | none => simp
        | some runResult =>
            simp only [Bool.false_eq_true, if_false]
            split_ifs <;> simp

theorem judgeFailed_ne_true (reply : Reply) :
    (judgeFailed reply).1 ≠ .bool true := by
  unfold judgeFailed
  split
  · split_ifs <;> simp
  · split
    · split_ifs <;> simp
    · simp

theorem judge_eq_true_iff (expectedOutput : Option PyValue) (reply : Reply) :
    (judge expectedOutput reply).1 = .bool true ↔
      reply.status = some "Success" ∧ reply.runResult.any fun runResult =>
        runResult.status = some "Finished" ∧
          outputMatches expectedOutput runResult := by
  unfold judge
  split
  · rename_i hstatus
    simp [hstatus]
  · rename_i hstatus
    simp [hstatus, judgeFailed_ne_true]
  · rename_i hstatus
    cases hrun : reply.runResult with
    | none => simp
    | some runResult =>
        by_cases hfinished : runResult.status = some "Finished"
        · simp only [Option.filter_some, hfinished, decide_true, if_true,
            Option.any_some, true_and, hstatus]
          split_ifs with hmatches <;> simp [hmatches]
        · simp [Option.filter_some, hfinished]
  · rename_i hsuccess
    exact iff_of_false (by simp) fun h => hsuccess h.1

theorem judge_eq_compile_iff (expectedOutput : Option PyValue)
    (reply : Reply) :
    (judge expectedOutput reply).1 = .code (-4) ↔
      reply.status = some "Failed" ∧
        reply.compileResult.any CompileResult.isError := by
  unfold judge
  split
  · rename_i hstatus
    simp [hstatus]
  · rename_i hstatus
    rw [judgeFailed_eq_compile_iff]
    simp [hstatus]
  · rename_i hstatus
    simp only [hstatus]
    split
    · split_ifs <;> simp
    · simp
  · rename_i hfailed _
    exact iff_of_false (by simp) fun h => hfailed h.1

variable (post : Nat → Payload → HttpOutcome) (setting : Setting) (index : Nat)
  (case : Case)

theorem outcome_caseIndex : (outcome post setting index case).2.caseIndex =
    index := by
  unfold outcome processSingleCase
  generalize callSandboxApi post (setting.payload case) = api
  obtain ⟨json, errorMsg⟩ := api
  cases errorMsg with
  | some errorMsg => rfl
  | none => cases json <;> rfl

/-- A case is reported as its own run ended. -/
theorem outcome_eq_true_iff : (outcome post setting index case).1 =
    .bool true ↔ passed post setting case := by
  unfold outcome processSingleCase passed answer
  generalize callSandboxApi post (setting.payload case) = api
  obtain ⟨json, errorMsg⟩ := api
  cases errorMsg with
  | some errorMsg => cases json <;> simp
  | none =>
      cases json with
      | falsy => simp
      | other typeName => simp
      | reply reply => simp [judge_eq_true_iff]

theorem outcome_eq_compile_iff : (outcome post setting index case).1 =
    .code (-4) ↔ compileFailed post setting case := by
  unfold outcome processSingleCase compileFailed answer
  generalize callSandboxApi post (setting.payload case) = api
  obtain ⟨json, errorMsg⟩ := api
  cases errorMsg with
  | some errorMsg => cases json <;> simp
  | none =>
      cases json with
      | falsy => simp
      | other typeName => simp
      | reply reply => simp [judge_eq_compile_iff]

end Judged

section Pool

variable (post : Nat → Nat → Payload → HttpOutcome) (setting : Setting)
  (cases : List Case)

/-- The program of case `i` did not compile. -/
def FailsAt (i : Nat) : Prop :=
  ∃ case ∈ cases[i]?, compileFailed (post i) setting case

instance (i : Nat) : Decidable (FailsAt post setting cases i) :=
  inferInstanceAs (Decidable
    (∃ case ∈ cases[i]?, compileFailed (post i) setting case))

/-- The state after the futures in `done`. -/
structure After (done : List Nat) (s : Progress) : Prop where
  results : s.results.length = cases.length
  metadataList : s.metadataList.length = cases.length
  outcome : ∀ i ∈ done, ∀ case, cases[i]? = some case →
    s.results[i]? = some (some (outcome (post i) setting i case).1) ∧
      s.metadataList[i]? = some (some (outcome (post i) setting i case).2)
  noError : s.firstCompileErrorIndex = none →
    ∀ i ∈ done, ¬ FailsAt post setting cases i
  firstError : ∀ first, s.firstCompileErrorIndex = some first →
    FailsAt post setting cases first ∧
      ∀ i ∈ done, FailsAt post setting cases i → first ≤ i

variable {post setting cases}

theorem after_init : After post setting cases [] (.init cases.length) where
  results := by simp [Progress.init]
  metadataList := by simp [Progress.init]
  outcome := by simp
  noError := by simp
  firstError := by simp [Progress.init]

theorem getElem?_set_self_of_some {α : Type} {xs : List α} {i : Nat} (x : α)
    (h : i < xs.length) : (xs.set i x)[i]? = some x := by
  simp [h]

/-- One future completes. -/
theorem After.completed {done : List Nat} {s : Progress} {index : Nat}
    (h : After post setting cases done s) (hindex : index < cases.length) :
    After post setting cases (done ++ [index])
      (completed post setting cases s index) := by
  have hcase := List.getElem?_eq_getElem hindex
  generalize cases[index] = case at hcase
  have hfails : FailsAt post setting cases index ↔
      (SandboxFusion.outcome (post index) setting index case).1 =
        .code (-4) := by
    rw [outcome_eq_compile_iff]
    simp [FailsAt, hcase]
  unfold SandboxFusion.completed
  simp only [hcase]
  constructor
  · simp [h.results]
  · simp [h.metadataList]
  · intro i hi case' hcase'
    by_cases heq : i = index
    · subst heq
      rw [hcase] at hcase'
      cases hcase'
      exact ⟨getElem?_set_self_of_some _ (h.results ▸ hindex),
        getElem?_set_self_of_some _ (h.metadataList ▸ hindex)⟩
    · have hmem : i ∈ done := by
        rcases List.mem_append.mp hi with hi | hi
        · exact hi
        · exact absurd (List.mem_singleton.mp hi) heq
      rw [List.getElem?_set_ne (Ne.symm heq), List.getElem?_set_ne
        (Ne.symm heq)]
      exact h.outcome i hmem case' hcase'
  · intro hnone i hi
    cases hfirst : s.firstCompileErrorIndex with
    | some first =>
        simp only [hfirst] at hnone
        split_ifs at hnone
    | none =>
        simp only [hfirst, and_true, ite_eq_right_iff, reduceCtorEq,
          imp_false] at hnone
        rcases List.mem_append.mp hi with hi | hi
        · exact h.noError hfirst i hi
        · rw [List.mem_singleton.mp hi, hfails]
          exact hnone
  · intro first hnew
    cases hfirst : s.firstCompileErrorIndex with
    | none =>
        simp only [hfirst, and_true, Option.ite_none_right_eq_some,
          Option.some_inj] at hnew
        obtain ⟨hfailed, rfl⟩ := hnew
        refine ⟨hfails.mpr hfailed, fun i hi hi' => ?_⟩
        rcases List.mem_append.mp hi with hi | hi
        · exact absurd hi' (h.noError hfirst i hi)
        · exact (List.mem_singleton.mp hi).ge
    | some first' =>
        obtain ⟨hfirst', hleast⟩ := h.firstError first' hfirst
        simp only [hfirst, decide_eq_true_eq] at hnew
        by_cases hless : (SandboxFusion.outcome (post index) setting index
            case).1 = .code (-4) ∧ index < first'
        · rw [if_pos hless] at hnew
          cases hnew
          refine ⟨hfails.mpr hless.1, fun i hi hi' => ?_⟩
          rcases List.mem_append.mp hi with hi | hi
          · exact hless.2.le.trans (hleast i hi hi')
          · exact (List.mem_singleton.mp hi).ge
        · rw [if_neg hless] at hnew
          cases hnew
          refine ⟨hfirst', fun i hi hi' => ?_⟩
          rcases List.mem_append.mp hi with hi | hi
          · exact hleast i hi hi'
          · rw [List.mem_singleton.mp hi] at hi' ⊢
            exact not_lt.mp fun hlt => hless ⟨hfails.mp hi', hlt⟩

/-- All futures, by induction on the order in which they complete. -/
theorem After.foldl {order : List Nat} {done : List Nat} {s : Progress}
    (h : After post setting cases done s)
    (horder : ∀ i ∈ order, i < cases.length) :
    After post setting cases (done ++ order)
      (order.foldl (SandboxFusion.completed post setting cases) s) := by
  induction order generalizing done s with
  | nil =>
      rw [List.append_nil]
      exact h
  | cons index order ih =>
      have hnext := h.completed (horder index List.mem_cons_self)
      have hrest := ih hnext fun i hi => horder i (List.mem_cons_of_mem _ hi)
      rw [List.append_assoc, List.singleton_append] at hrest
      exact hrest

variable (post setting cases) in
/-- What is reported of a case: its own outcome, unless a case before it did
not compile. -/
def reported (i : Nat) (case : Case) : ResultStatus × Metadata :=
  let own := outcome (post i) setting i case
  if (∃ first < i, FailsAt post setting cases first) ∧
      own.1 ≠ .code (-4) then
    (.code (-4), { own.2 with status := "compile_error_skipped" })
  else own

variable (post setting cases) in
/-- The state of the post-processing behind the case `first`, after the cases
in `done`. -/
structure Skipped (first : Nat) (done : List Nat) (s : Progress) : Prop where
  results : s.results.length = cases.length
  metadataList : s.metadataList.length = cases.length
  outcome : ∀ i case, cases[i]? = some case → i ∉ done →
    s.results[i]? = some (some (outcome (post i) setting i case).1) ∧
      s.metadataList[i]? = some (some (outcome (post i) setting i case).2)
  reported : ∀ i ∈ done, ∀ case, cases[i]? = some case → first < i →
    s.results[i]? = some (some (reported post setting cases i case).1) ∧
      s.metadataList[i]? = some (some (reported post setting cases i case).2)

theorem Skipped.skipCase {first index : Nat} {done : List Nat} {s : Progress}
    (hfirst : FailsAt post setting cases first)
    (h : Skipped post setting cases first done s)
    (hindex : index < cases.length) (hdone : index ∉ done)
    (hbehind : first < index) :
    Skipped post setting cases first (done ++ [index])
      (SandboxFusion.skipCase cases s index) := by
  have hcase := List.getElem?_eq_getElem hindex
  generalize cases[index] = case at hcase
  obtain ⟨hresult, hmetadata⟩ := h.outcome index case hcase hdone
  have hskipped : ∃ first < index, FailsAt post setting cases first :=
    ⟨first, hbehind, hfirst⟩
  unfold SandboxFusion.skipCase
  rw [hcase, hresult, hmetadata]
  dsimp only
  by_cases hown : (SandboxFusion.outcome (post index) setting index case).1 =
      .code (-4)
  · rw [if_neg (by simp [hown])]
    constructor
    · exact h.results
    · exact h.metadataList
    · intro i case' hcase' hi
      exact h.outcome i case' hcase' fun hmem =>
        hi (List.mem_append_left _ hmem)
    · intro i hi case' hcase' hlt
      rcases List.mem_append.mp hi with hi | hi
      · exact h.reported i hi case' hcase' hlt
      · rw [List.mem_singleton.mp hi] at hcase' ⊢
        rw [hcase] at hcase'
        cases hcase'
        rw [SandboxFusion.reported, if_neg fun hboth => hboth.2 hown]
        exact ⟨hresult, hmetadata⟩
  · rw [if_pos (by simp [hown])]
    constructor
    · rw [List.length_set, h.results]
    · rw [List.length_set, h.metadataList]
    · intro i case' hcase' hi
      rw [List.mem_append, List.mem_singleton, not_or] at hi
      rw [List.getElem?_set_ne (Ne.symm hi.2), List.getElem?_set_ne
        (Ne.symm hi.2)]
      exact h.outcome i case' hcase' hi.1
    · intro i hi case' hcase' hlt
      by_cases heq : i = index
      · subst heq
        rw [hcase] at hcase'
        cases hcase'
        rw [SandboxFusion.reported, if_pos ⟨hskipped, hown⟩]
        exact ⟨getElem?_set_self_of_some _ (h.results ▸ hindex),
          getElem?_set_self_of_some _ (h.metadataList ▸ hindex)⟩
      · have hmem : i ∈ done := by
          rcases List.mem_append.mp hi with hi | hi
          · exact hi
          · exact absurd (List.mem_singleton.mp hi) heq
        rw [List.getElem?_set_ne (Ne.symm heq), List.getElem?_set_ne
          (Ne.symm heq)]
        exact h.reported i hmem case' hcase' hlt

/-- The whole post-processing, by induction on the cases it goes over. -/
theorem Skipped.foldl {first : Nat} {indices done : List Nat} {s : Progress}
    (hfirst : FailsAt post setting cases first)
    (h : Skipped post setting cases first done s)
    (hindices : ∀ i ∈ indices, i < cases.length ∧ first < i)
    (hnodup : (done ++ indices).Nodup) :
    Skipped post setting cases first (done ++ indices)
      (indices.foldl (SandboxFusion.skipCase cases) s) := by
  induction indices generalizing done s with
  | nil =>
      rw [List.append_nil]
      exact h
  | cons index indices ih =>
      have hdone : index ∉ done := by
        rw [List.nodup_middle, List.nodup_cons] at hnodup
        exact fun hmem => hnodup.1 (List.mem_append_left _ hmem)
      obtain ⟨hindex, hbehind⟩ := hindices index List.mem_cons_self
      have hnext := h.skipCase hfirst hindex hdone hbehind
      have hrest := ih hnext
        (fun i hi => hindices i (List.mem_cons_of_mem _ hi))
        (by rwa [List.append_assoc, List.singleton_append])
      rwa [List.append_assoc, List.singleton_append] at hrest

/-- The pool reports the same in every order: of each case its own outcome,
unless a case before it did not compile. -/
theorem runCases_eq {order : List Nat}
    (horder : order.Perm (List.range cases.length)) :
    (runCases post setting cases order).results.length = cases.length ∧
      (runCases post setting cases order).metadataList.length =
        cases.length ∧
      ∀ i case, cases[i]? = some case →
        (runCases post setting cases order).results[i]? =
            some (some (reported post setting cases i case).1) ∧
          (runCases post setting cases order).metadataList[i]? =
            some (some (reported post setting cases i case).2) := by
  have hafter : After post setting cases order
      (order.foldl (completed post setting cases) (.init cases.length)) :=
    after_init.foldl fun i hi => List.mem_range.mp (horder.mem_iff.mp hi)
  unfold runCases postProcess
  generalize order.foldl (completed post setting cases) (.init cases.length) =
    s at hafter
  have hmem : ∀ i case, cases[i]? = some case → i ∈ order := by
    intro i case hcase
    obtain ⟨hi, -⟩ := List.getElem?_eq_some_iff.mp hcase
    exact horder.mem_iff.mpr (List.mem_range.mpr hi)
  cases hfirst : s.firstCompileErrorIndex with
  | none =>
      refine ⟨hafter.results, hafter.metadataList, fun i case hcase => ?_⟩
      have hnone : ¬ ∃ first < i, FailsAt post setting cases first := by
        rintro ⟨first, -, hfails⟩
        obtain ⟨other, hother, -⟩ := id hfails
        exact hafter.noError hfirst first (hmem first other hother) hfails
      rw [reported, if_neg fun hboth => hnone hboth.1]
      exact hafter.outcome i (hmem i case hcase) case hcase
  | some first =>
      obtain ⟨hfails, hleast⟩ := hafter.firstError first hfirst
      have hskipped : Skipped post setting cases first [] s :=
        ⟨hafter.results, hafter.metadataList, fun i case hcase _ =>
          hafter.outcome i (hmem i case hcase) case hcase, by simp⟩
      have hindices : ∀ i ∈ List.range' (first + 1)
          (cases.length - (first + 1)), i < cases.length ∧ first < i := by
        intro i hi
        rw [List.mem_range'_1] at hi
        omega
      have hall := hskipped.foldl hfails hindices (by
        rw [List.nil_append]
        exact List.nodup_range')
      rw [List.nil_append] at hall
      refine ⟨hall.results, hall.metadataList, fun i case hcase => ?_⟩
      obtain ⟨hi, -⟩ := List.getElem?_eq_some_iff.mp hcase
      by_cases hbehind : first < i
      · refine hall.reported i ?_ case hcase hbehind
        rw [List.mem_range'_1]
        omega
      · have hnone : ¬ ∃ other < i, FailsAt post setting cases other := by
          rintro ⟨other, hlt, hother⟩
          obtain ⟨case', hcase', -⟩ := id hother
          have := hleast other (hmem other case' hcase') hother
          omega
        rw [reported, if_neg fun hboth => hnone hboth.1]
        refine hall.outcome i case hcase ?_
        rw [List.mem_range'_1]
        omega

end Pool

section Reported

/-- `in_outs` holds these cases: as many inputs as outputs, with or without an
assert case for each. -/
structure Suite (inOuts : InOuts) (cases : List Case) : Prop where
  nonempty : cases ≠ []
  inputs : inOuts.inputs = some (cases.map Case.input)
  outputs : inOuts.outputs = some (cases.map Case.expectedOutput)
  assertCase : inOuts.assertCase = some (cases.map Case.assertCase) ∨
    inOuts.assertCase = none ∧ ∀ case ∈ cases, case.assertCase = []

theorem Suite.checkCorrectness_eq {inOuts : InOuts} {cases : List Case}
    (h : Suite inOuts cases) (post : Nat → Nat → Payload → HttpOutcome)
    (setting : Setting) (order : List Nat) :
    checkCorrectness post setting inOuts order =
      ((runCases post { setting with fnName := inOuts.fnName } cases
        order).results,
      (runCases post { setting with fnName := inOuts.fnName } cases
        order).metadataList.map .metadata) := by
  have hasserts : inOuts.assertCase.getD (List.replicate cases.length []) =
      cases.map Case.assertCase := by
    rcases h.assertCase with hsome | ⟨hnone, hempty⟩
    · rw [hsome, Option.getD_some]
    · rw [hnone, Option.getD_none, eq_comm, List.eq_replicate_iff]
      refine ⟨List.length_map _, fun text htext => ?_⟩
      obtain ⟨case, hcase, rfl⟩ := List.mem_map.mp htext
      exact hempty case hcase
  have hzip : List.zipWith (fun io assertCase => Case.mk io.1 io.2 assertCase)
      ((cases.map Case.input).zip (cases.map Case.expectedOutput))
      (cases.map Case.assertCase) = cases := by
    rw [List.zip_map', List.zipWith_map, List.zipWith_self]
    exact List.map_id' _
  have hlength : cases.length ≠ 0 := by
    simpa using h.nonempty
  unfold checkCorrectness
  rw [h.inputs, h.outputs]
  simp only [List.length_map, hasserts, hzip, ne_eq, not_true_eq_false,
    if_false, if_neg hlength]

/-- Whether the own run of each case passed. -/
def ownRuns (post : Nat → Nat → Payload → HttpOutcome) (setting : Setting)
    (cases : List Case) : List Bool :=
  cases.mapIdx fun i case => passed (post i) setting case

/-- The share of the cases that are considered whose own run passed. -/
def ownPassRate (post : Nat → Nat → Payload → HttpOutcome) (setting : Setting)
    (cases : List Case) (continuous : Bool) : ℚ :=
  let considered := if continuous then (ownRuns post setting cases).take 10
    else ownRuns post setting cases
  (considered.count true : ℚ) / (considered.length : ℚ)

/-- One result and one metadata entry for each case, in the order of the
inputs, and a case is passed exactly if its own run passed. -/
structure ByOwnRun (post : Nat → Nat → Payload → HttpOutcome)
    (setting : Setting) (cases : List Case)
    (reported : List (Option ResultStatus) × List MetadataEntry) : Prop where
  results : reported.1.length = cases.length
  metadata : ∃ entries : List Metadata,
    reported.2 = entries.map (fun metadata => .metadata (some metadata)) ∧
      entries.map Metadata.caseIndex = List.range cases.length
  passed : ∀ i case, cases[i]? = some case →
    (reported.1[i]? = some (some (.bool true)) ↔
      passed (post i) setting case)

variable {post : Nat → Nat → Payload → HttpOutcome} {setting : Setting}
  {cases : List Case}

/-- A case is reported as passed if its own run passed and every case before
it compiled. -/
theorem reported_eq_true_iff (i : Nat) (case : Case) :
    (reported post setting cases i case).1 = .bool true ↔
      passed (post i) setting case ∧
        ¬ ∃ first < i, FailsAt post setting cases first := by
  unfold reported
  dsimp only
  rw [← outcome_eq_true_iff (post i) setting i case]
  split_ifs with hskipped
  · simp [hskipped.1]
  · constructor
    · intro htrue
      refine ⟨htrue, fun hfails => hskipped ⟨hfails, ?_⟩⟩
      rw [htrue]
      simp
    · exact fun h => h.1

theorem reported_caseIndex (i : Nat) (case : Case) :
    (reported post setting cases i case).2.caseIndex = i := by
  unfold reported
  dsimp only
  split_ifs
  · exact outcome_caseIndex (post i) setting i case
  · exact outcome_caseIndex (post i) setting i case

/-- What the pool reports goes by the own runs exactly if no case passes
behind one that did not compile. -/
theorem byOwnRun_runCases_iff {order : List Nat}
    (horder : order.Perm (List.range cases.length)) :
    ByOwnRun post setting cases
        ((runCases post setting cases order).results,
          (runCases post setting cases order).metadataList.map .metadata) ↔
      ∀ i j case, i < j → cases[j]? = some case →
        FailsAt post setting cases i → ¬ passed (post j) setting case := by
  obtain ⟨hresults, hmetadata, hreported⟩ :=
    @runCases_eq post setting cases order horder
  constructor
  · intro h i j case hlt hcase hfails hpassed
    have htrue := (h.passed j case hcase).mpr hpassed
    dsimp only at htrue
    rw [(hreported j case hcase).1, Option.some_inj, Option.some_inj,
      reported_eq_true_iff] at htrue
    exact htrue.2 ⟨i, hlt, hfails⟩
  · intro h
    refine ⟨hresults, ⟨cases.mapIdx fun i case =>
      (reported post setting cases i case).2, ?_, ?_⟩, ?_⟩
    · have hentries : (runCases post setting cases order).metadataList =
          (cases.mapIdx fun i case =>
            (reported post setting cases i case).2).map some := by
        apply List.ext_getElem?
        intro i
        rw [List.getElem?_map, List.getElem?_mapIdx]
        cases hcase : cases[i]? with
        | none =>
            rw [List.getElem?_eq_none_iff] at hcase
            rw [List.getElem?_eq_none_iff.mpr (hmetadata.trans_le hcase)]
            rfl
        | some case => exact (hreported i case hcase).2
      rw [hentries, List.map_map]
      rfl
    · apply List.ext_getElem
      · simp
      · intro i hi hi'
        simp [reported_caseIndex]
    · intro i case hcase
      dsimp only
      rw [(hreported i case hcase).1, Option.some_inj, Option.some_inj,
        reported_eq_true_iff]
      constructor
      · exact fun hboth => hboth.1
      · intro hpassed
        refine ⟨hpassed, ?_⟩
        rintro ⟨first, hlt, hfails⟩
        exact h first i case hlt hcase hfails hpassed

/-- Results that go by the own runs score their pass rate. -/
theorem ByOwnRun.score_eq
    {reported : List (Option ResultStatus) × List MetadataEntry}
    (h : ByOwnRun post setting cases reported) (hcases : cases ≠ [])
    (continuous : Bool) :
    score continuous reported.1 =
      ownPassRate post setting cases continuous := by
  have hruns : reported.1.map (fun r => decide (r = some (.bool true))) =
      ownRuns post setting cases := by
    apply List.ext_getElem?
    intro i
    rw [ownRuns, List.getElem?_map, List.getElem?_mapIdx]
    cases hcase : cases[i]? with
    | none =>
        rw [List.getElem?_eq_none_iff] at hcase
        rw [List.getElem?_eq_none_iff.mpr (h.results ▸ hcase)]
        rfl
    | some case =>
        obtain ⟨hi, -⟩ := List.getElem?_eq_some_iff.mp hcase
        have hi' : i < reported.1.length := h.results ▸ hi
        have hpassed := h.passed i case hcase
        rw [List.getElem?_eq_getElem hi', Option.some_inj] at hpassed
        rw [List.getElem?_eq_getElem hi', Option.map_some, Option.map_some,
          Option.some_inj, Bool.eq_iff_iff, decide_eq_true_eq]
        exact hpassed
  have hrate : ∀ results : List (Option ResultStatus), passRate results =
      ((results.map fun r => decide (r = some (.bool true))).count true : ℚ) /
        ((results.map fun r => decide (r = some (.bool true))).length : ℚ) := by
    intro results
    rw [passRate, List.length_map, List.count_eq_countP,
      List.count_eq_countP, List.countP_map]
    simp [Function.comp_def, beq_eq_decide]
  have hne : reported.1 ≠ [] := by
    rw [← List.length_pos_iff, h.results, List.length_pos_iff]
    exact hcases
  unfold score ownPassRate
  rw [if_neg hne]
  cases continuous with
  | true =>
      simp only [if_true]
      have hlength : (ownRuns post setting cases).length =
          reported.1.length := by
        rw [← hruns, List.length_map]
      have htake : (ownRuns post setting cases).take
          (min reported.1.length 10) =
            (ownRuns post setting cases).take 10 := by
        rw [List.take_eq_take_iff, hlength]
        omega
      rw [hrate, List.map_take, hruns, htake]
  | false =>
      simp only [Bool.false_eq_true, if_false]
      rw [hrate, hruns]

theorem ownPassRate_mem (continuous : Bool) :
    0 ≤ ownPassRate post setting cases continuous ∧
      ownPassRate post setting cases continuous ≤ 1 := by
  unfold ownPassRate
  dsimp only
  generalize (if continuous then (ownRuns post setting cases).take 10
    else ownRuns post setting cases) = considered
  constructor
  · positivity
  · apply div_le_one_of_le₀
    · exact_mod_cast List.count_le_length
    · positivity

end Reported

section Claimed

variable {post : Nat → Nat → Payload → HttpOutcome} {isAlpha : Char → Bool}
  {wrapperCode : Text → String → Text} {memoryLimitMb timeout : Nat}
  {completion solution : Text} {testCases : TestCases} {inOuts : InOuts}
  {cases : List Case}

/-- What the cases of `compute_score` are run with. -/
def caseSetting (wrapperCode : Text → String → Text) (memoryLimitMb : Nat)
    (timeout : Nat) (solution : Text) (inOuts : InOuts) : Setting :=
  { scoreSetting wrapperCode memoryLimitMb timeout solution with
    fnName := inOuts.fnName }

theorem computeScore_eq (hcode : codeBlock isAlpha completion = some solution)
    (hload : testCases.load = some inOuts)
    (hsuite : Suite (withDefaults inOuts) cases) (continuous : Bool)
    (order : List Nat) :
    (computeScore post isAlpha wrapperCode memoryLimitMb completion testCases
        continuous timeout order).1 =
      score continuous (checkCorrectness post
        (scoreSetting wrapperCode memoryLimitMb timeout solution)
        (withDefaults inOuts) order).1 := by
  have hpresent : ¬ (inOuts.assertCase = none ∧
      (inOuts.inputs = none ∨ inOuts.outputs = none)) := by
    rintro ⟨hassert, habsent⟩
    have hinputs := hsuite.inputs
    have houtputs := hsuite.outputs
    rw [withDefaults, hassert] at hinputs houtputs
    rcases habsent with habsent | habsent
    · rw [habsent] at hinputs
      cases hinputs
    · rw [habsent] at houtputs
      cases houtputs
  simp only [computeScore, hcode, hload, if_neg hpresent]

theorem withDefaults_fnName (inOuts : InOuts) :
    (withDefaults inOuts).fnName = inOuts.fnName := by
  unfold withDefaults
  split <;> rfl

/-- In every order of completion the results, the metadata and the score go by
the own runs of the cases, exactly if no case passes behind one whose program
did not compile. -/
theorem sandbox_score_iff
    (hcode : codeBlock isAlpha completion = some solution)
    (hload : testCases.load = some inOuts)
    (hsuite : Suite (withDefaults inOuts) cases) :
    (∀ order, order.Perm (List.range cases.length) →
      ByOwnRun post
          (caseSetting wrapperCode memoryLimitMb timeout solution inOuts) cases
          (checkCorrectness post
            (scoreSetting wrapperCode memoryLimitMb timeout solution)
            (withDefaults inOuts) order) ∧
        ∀ continuous, (computeScore post isAlpha wrapperCode memoryLimitMb
            completion testCases continuous timeout order).1 =
              ownPassRate post (caseSetting wrapperCode memoryLimitMb timeout
                solution inOuts) cases continuous ∧
          0 ≤ (computeScore post isAlpha wrapperCode memoryLimitMb completion
            testCases continuous timeout order).1 ∧
          (computeScore post isAlpha wrapperCode memoryLimitMb completion
            testCases continuous timeout order).1 ≤ 1) ↔
      ∀ i j case, i < j → cases[j]? = some case →
        FailsAt post (caseSetting wrapperCode memoryLimitMb timeout solution
          inOuts) cases i →
        ¬ passed (post j) (caseSetting wrapperCode memoryLimitMb timeout
          solution inOuts) case := by
  have hcheck : ∀ order, checkCorrectness post
      (scoreSetting wrapperCode memoryLimitMb timeout solution)
      (withDefaults inOuts) order =
        ((runCases post (caseSetting wrapperCode memoryLimitMb timeout
          solution inOuts) cases order).results,
        (runCases post (caseSetting wrapperCode memoryLimitMb timeout solution
          inOuts) cases order).metadataList.map .metadata) := by
    intro order
    have h := hsuite.checkCorrectness_eq post
      (scoreSetting wrapperCode memoryLimitMb timeout solution) order
    rw [withDefaults_fnName] at h
    exact h
  constructor
  · intro h
    have hrange := (h (List.range cases.length) (List.Perm.refl _)).1
    rw [hcheck] at hrange
    exact (byOwnRun_runCases_iff (List.Perm.refl _)).mp hrange
  · intro h order horder
    have howns := (byOwnRun_runCases_iff horder).mpr h
    rw [hcheck]
    refine ⟨howns, fun continuous => ?_⟩
    have hscore := howns.score_eq hsuite.nonempty continuous
    rw [computeScore_eq hcode hload hsuite, hcheck, hscore]
    exact ⟨rfl, ownPassRate_mem continuous⟩

end Claimed

section Example

/-- A program whose first assert case has a syntax error of its own. -/
def twoAsserts : InOuts where
  inputs := none
  outputs := none
  assertCase := some ["assert f(".toList, "assert f() == 1".toList]
  fnName := none

def twoAssertCases : List Case :=
  [⟨some ⟨[], false⟩, none, "assert f(".toList⟩,
    ⟨some ⟨[], false⟩, none, "assert f() == 1".toList⟩]

theorem suite_twoAsserts : Suite (withDefaults twoAsserts) twoAssertCases where
  nonempty := by simp [twoAssertCases]
  inputs := rfl
  outputs := rfl
  assertCase := Or.inl rfl

def oneProgram : Text := "```python\ndef f(): return 1\n```".toList

def oneSolution : Text := "\ndef f(): return 1\n".toList

/-- Each run finishes. -/
def finishedReply : Reply :=
  ⟨some "Success", none,
    some ⟨some "Finished", some 0, none, some [], some []⟩⟩

/-- The first program is refused by the compiler. -/
def refusedReply : Reply :=
  ⟨some "Failed", some ⟨some "Error", some 1, none, some []⟩, none⟩

/-- Both cases pass, whichever is done first. -/
theorem sandbox_score_finished :
    (computeScore (fun _ _ _ => .ok (.reply finishedReply)) Char.isAlpha
      (fun code _ => code) 1024 oneProgram (.dict twoAsserts) false 10
      [1, 0]).1 =
    ownPassRate (fun _ _ _ => .ok (.reply finishedReply))
      (caseSetting (fun code _ => code) 1024 10 oneSolution twoAsserts)
      twoAssertCases false := by
  have hcode : codeBlock Char.isAlpha oneProgram = some oneSolution := by
    decide +kernel
  refine (((sandbox_score_iff hcode rfl suite_twoAsserts).mpr ?_ [1, 0]
    (List.Perm.swap _ _ _)).2 false).1
  rintro i j case - - ⟨failing, -, hfails⟩
  simp [compileFailed, answer, callSandboxApi, Setting.payload, caseSetting,
    scoreSetting, supportedLanguages, callAttempts, maxRetries,
    finishedReply] at hfails

/-- The second assert passes and is reported as a compile error all the
same. -/
theorem not_sandbox_score :
    let post := fun (i : Nat) (_ : Nat) (_ : Payload) => HttpOutcome.ok
      (.reply (if i = 0 then refusedReply else finishedReply))
    passed (post 1) (caseSetting (fun code _ => code) 1024 10 oneSolution
        twoAsserts) ⟨some ⟨[], false⟩, none, "assert f() == 1".toList⟩ = true ∧
      (checkCorrectness post
        (scoreSetting (fun code _ => code) 1024 10 oneSolution)
        (withDefaults twoAsserts) [0, 1]).1 =
          [some (.code (-4)), some (.code (-4))] ∧
      (computeScore post Char.isAlpha (fun code _ => code) 1024 oneProgram
        (.dict twoAsserts) false 10 [0, 1]).1 = 0 := by
  exact ⟨by decide +kernel, by decide +kernel, by decide +kernel⟩

end Example

end SandboxFusion

end SelfDistillation
