/-
Rejection sampling (verl/trainer/ppo/rollout_corr_helper.py): the thresholds of
the options, and the mask of what all options keep.
-/
import SelfDistillation.PyText

namespace SelfDistillation

namespace RolloutRejection

/-- The exact exponential, and the logarithm of what is positive. -/
structure ExpLog (F : Type) [Field F] [LinearOrder F] where
  exp : F → F
  log : F → F
  strictMono : StrictMono exp
  exp_zero : exp 0 = 1
  exp_add : ∀ x y, exp (x + y) = exp x * exp y
  exp_log : ∀ x, 0 < x → exp (log x) = x

/-- `str(x)`, and `float(s)` where it does not raise. -/
structure NumberText (F : Type) where
  str : F → Text
  float : Text → Option F

inductive Estimator
  | k1
  | k2
  | k3
deriving DecidableEq

inductive Level
  | token
  | seqSum
  | seqMean
  | seqMax
deriving DecidableEq

/-- `SUPPORTED_ROLLOUT_RS_OPTIONS` -/
inductive RsOption
  | tokenK1
  | tokenK2
  | tokenK3
  | seqSumK1
  | seqSumK2
  | seqSumK3
  | seqMeanK1
  | seqMeanK2
  | seqMeanK3
  | seqMaxK2
  | seqMaxK3
deriving DecidableEq

namespace RsOption

/-- `sorted(SUPPORTED_ROLLOUT_RS_OPTIONS)` -/
def supported : List RsOption :=
  [seqMaxK2, seqMaxK3, seqMeanK1, seqMeanK2, seqMeanK3, seqSumK1, seqSumK2,
    seqSumK3, tokenK1, tokenK2, tokenK3]

def name : RsOption → String
  | tokenK1 => "token_k1"
  | tokenK2 => "token_k2"
  | tokenK3 => "token_k3"
  | seqSumK1 => "seq_sum_k1"
  | seqSumK2 => "seq_sum_k2"
  | seqSumK3 => "seq_sum_k3"
  | seqMeanK1 => "seq_mean_k1"
  | seqMeanK2 => "seq_mean_k2"
  | seqMeanK3 => "seq_mean_k3"
  | seqMaxK2 => "seq_max_k2"
  | seqMaxK3 => "seq_max_k3"

/-- How the name ends. -/
def estimator : RsOption → Estimator
  | tokenK1 | seqSumK1 | seqMeanK1 => .k1
  | tokenK2 | seqSumK2 | seqMeanK2 | seqMaxK2 => .k2
  | tokenK3 | seqSumK3 | seqMeanK3 | seqMaxK3 => .k3

/-- How the name starts. -/
def level : RsOption → Level
  | tokenK1 | tokenK2 | tokenK3 => .token
  | seqSumK1 | seqSumK2 | seqSumK3 => .seqSum
  | seqMeanK1 | seqMeanK2 | seqMeanK3 => .seqMean
  | seqMaxK2 | seqMaxK3 => .seqMax

end RsOption

/-- `rollout_rs_threshold`, if it is given. -/
inductive ThresholdSpec (F : Type)
  | number (x : F)
  | text (s : Text)

structure Thresholds (F : Type) where
  lower : Option F
  upper : F
deriving DecidableEq

/-- `[part.strip() for part in s.split(",") if part.strip()]` -/
def commaSeparated (s : Text) : List Text :=
  ((s.splitOn ',').map strip).filter fun part => part ≠ []

/-- The options of `rollout_rs`, repetitions included. -/
def optionModes (rolloutRs : Text) : Py (List RsOption) := do
  let names := commaSeparated rolloutRs
  if names = [] then
    .error (.valueError "rollout_rs must contain at least one valid option.")
  else
    names.mapM fun opt =>
      match RsOption.supported.find? fun o => o.name.toList = opt with
      | some o => .ok o
      | none => .error (.valueError (s!"Invalid rollout_rs option: " ++
          s!"{String.ofList opt}. Must be one of [" ++
          ", ".intercalate (RsOption.supported.map fun o =>
            "'" ++ o.name ++ "'") ++ "]."))

/-- `normalized_options`: every option where it comes first. -/
def normalizedOptions (options : List RsOption) : List RsOption :=
  options.foldl (fun seen opt => if opt ∈ seen then seen else seen ++ [opt]) []

section Source

variable {F : Type} [Field F] [LinearOrder F] (numbers : NumberText F)

/-- `raw_specs` -/
def rawSpecs : ThresholdSpec F → List Text
  | .number x => [numbers.str x]
  | .text s => commaSeparated s

/-- `float(s)` -/
def pyFloat (s : Text) : Py F :=
  match numbers.float s with
  | some x => .ok x
  | none => .error (.valueError
      s!"could not convert string to float: '{String.ofList s}'")

/-- The texts of the two bounds: the lower one is the reciprocal of the upper
one unless it is given. -/
def boundTexts (spec : Text) : Py (Text × Text) :=
  if '_' ∈ spec then
    .ok (spec.takeWhile (· ≠ '_'), (spec.dropWhile (· ≠ '_')).tail)
  else do
    let upper ← pyFloat numbers spec
    if upper = 0 then .error .zeroDivisionError
    else .ok (numbers.str (1 / upper), spec)

/-- The body of the loop of `_parse_rollout_rs_thresholds`. -/
def parseThreshold (option : RsOption) (spec : Text) : Py (Thresholds F) :=
  match option.estimator with
  | .k1 => do
      let (lowerStr, upperStr) ← boundTexts numbers spec
      match numbers.float lowerStr, numbers.float upperStr with
      | some lower, some upper =>
          if lower ≤ 0 ∨ upper ≤ 0 then
            .error (.valueError (s!"Thresholds for option '{option.name}' " ++
              s!"must be positive, got {String.ofList spec}."))
          else .ok ⟨some lower, upper⟩
      | _, _ => .error (.valueError (s!"Invalid numeric threshold " ++
          s!"'{String.ofList spec}' for option '{option.name}'."))
  | _ =>
      if '_' ∈ spec then
        .error (.valueError (s!"rollout_rs_threshold for option " ++
          s!"'{option.name}' must provide a single upper bound without " ++
          s!"'_'. Received '{String.ofList spec}'."))
      else
        match numbers.float spec with
        | some upper =>
            if upper ≤ 0 then
              .error (.valueError (s!"Threshold for option '{option.name}' " ++
                s!"must be positive, got {String.ofList spec}."))
            else .ok ⟨none, upper⟩
        | none => .error (.valueError (s!"Invalid numeric threshold " ++
            s!"'{String.ofList spec}' for option '{option.name}'."))

/-- `_parse_rollout_rs_thresholds`; the items of its dictionary. -/
def parseRolloutRsThresholds (options : List RsOption)
    (spec : ThresholdSpec F) : Py (List (RsOption × Thresholds F)) := do
  let specs := rawSpecs numbers spec
  if specs = [] then
    .error (.valueError
      "rollout_rs_threshold must contain at least one threshold value.")
  else if specs.length ≠ 1 ∧ specs.length ≠ options.length then
    .error (.valueError ("rollout_rs_threshold expects either one threshold " ++
      "shared by all options or exactly " ++ s!"{options.length} thresholds " ++
      "to match the provided rollout_rs options."))
  else
    let specs := if specs.length = 1 ∧ 1 < options.length then
      (List.replicate options.length specs).flatten else specs
    (options.zip specs).mapM fun (option, spec) => do
      let thresholds ← parseThreshold numbers option spec
      return (option, thresholds)

variable (e : ExpLog F) {bs len : Nat}

/-- `log_ratio_safe`, within the safety bound. -/
def clampLog (x : F) : F := min (max x (-(20 : Nat))) (20 : Nat)

/-- `token_k1`, `token_k2` and `token_k3` -/
def tokenStatistic (estimator : Estimator) (logRatio : F) : F :=
  let safe := clampLog logRatio
  match estimator with
  | .k1 => -safe
  | .k2 => 1 / (2 : Nat) * safe ^ 2
  | .k3 => e.exp safe - 1 - safe

/-- `verl_F.masked_sum` of a row -/
def maskedSum (values : Fin len → F) (mask : Fin len → Bool) : F :=
  ∑ t, if mask t then values t else 0

/-- The number of live tokens of a row. -/
def maskCount (mask : Fin len → Bool) : Nat := ∑ t, (mask t).toNat

/-- `_sequence_max` of a row with at least one column: 0 if none is live. -/
def sequenceMax (values : Fin len → F) (mask : Fin len → Bool) : F :=
  (((List.finRange len).filter mask).map values).max?.getD 0

/-- What an option makes of the values of a row at one of its tokens; the mean
of `verl_F.masked_mean` has `epsilon` in its denominator. -/
def aggregate (epsilon : F) (level : Level) (values : Fin len → F)
    (mask : Fin len → Bool) (t : Fin len) : F :=
  match level with
  | .token => values t
  | .seqSum => maskedSum values mask
  | .seqMean => maskedSum values mask / (maskCount mask + epsilon)
  | .seqMax => sequenceMax values mask

/-- `1e-8` -/
def meanEpsilon : F := 1 / 100000000

/-- `per_token_stat` -/
def perTokenStat (option : RsOption) (logRatio : Fin bs → Fin len → F)
    (responseMask : Fin bs → Fin len → Bool) (i : Fin bs) (t : Fin len) : F :=
  aggregate meanEpsilon option.level
    (fun s => tokenStatistic e option.estimator (logRatio i s))
    (responseMask i) t

/-- `token_keep_bool` -/
def tokenKeep (option : RsOption) (thresholds : Thresholds F)
    (logRatio : Fin bs → Fin len → F)
    (responseMask : Fin bs → Fin len → Bool) :
    Py (Fin bs → Fin len → Bool) :=
  let stat := perTokenStat e option logRatio responseMask
  -- the maximum over no columns raises
  if option.level = .seqMax ∧ len = 0 then .error .indexError
  else
    match option.estimator, thresholds.lower with
    | .k1, none => .error (.valueError (s!"rollout_rs_threshold for option " ++
        s!"'{option.name}' must specify both lower and upper bounds."))
    | .k1, some lower => .ok fun i t =>
        decide (e.log lower ≤ stat i t ∧ stat i t ≤ e.log thresholds.upper)
    | _, _ => .ok fun i t => decide (stat i t ≤ thresholds.upper)

/-- What `compute_rs_metrics` refuses; its metrics are not part of the mask. -/
def checkRsMetrics (responseMask : Fin bs → Fin len → Bool) : Py Unit :=
  if ∃ i t, responseMask i t = true then .ok ()
  else .error (.valueError
    "response_mask must contain at least one valid token (1).")

/-- The body of the loop over the options. -/
def applyOption (logRatio : Fin bs → Fin len → F)
    (responseMask combinedMask : Fin bs → Fin len → Bool)
    (option : RsOption × Thresholds F) : Py (Fin bs → Fin len → Bool) := do
  let keep ← tokenKeep e option.1 option.2 logRatio responseMask
  checkRsMetrics responseMask
  return fun i t => combinedMask i t && keep i t

/-- `compute_rollout_rejection_mask`, the mask it returns -/
def computeRolloutRejectionMask (logRatio : Fin bs → Fin len → F)
    (responseMask : Fin bs → Fin len → Bool) (rolloutRs : Text)
    (rolloutRsThreshold : Option (ThresholdSpec F)) :
    Py (Fin bs → Fin len → Bool) :=
  match rolloutRsThreshold with
  | none => .error (.valueError
      "rollout_rs_threshold must be provided for rejection sampling.")
  | some spec =>
      if bs = 0 then .ok responseMask
      else do
        let options ← optionModes rolloutRs
        let thresholds ← parseRolloutRsThresholds numbers
          (normalizedOptions options) spec
        let combinedMask ← thresholds.foldlM
          (applyOption e logRatio responseMask) fun _ _ => true
        return fun i t => responseMask i t && combinedMask i t

end Source

section Options

variable {options : List RsOption}

theorem normalizedOptions_append_singleton (options : List RsOption)
    (opt : RsOption) :
    normalizedOptions (options ++ [opt]) =
      if opt ∈ normalizedOptions options then normalizedOptions options
      else normalizedOptions options ++ [opt] := by
  rw [normalizedOptions, List.foldl_append, List.foldl_cons, List.foldl_nil,
    normalizedOptions]

theorem mem_normalizedOptions (opt : RsOption) :
    opt ∈ normalizedOptions options ↔ opt ∈ options := by
  induction options using List.reverseRecOn with
  | nil => rfl
  | append_singleton options last ih =>
      rw [normalizedOptions_append_singleton]
      split
      case isTrue hold =>
        rw [ih, List.mem_append, List.mem_singleton]
        constructor
        · exact .inl
        · rintro (h | rfl)
          · exact h
          · exact ih.mp hold
      case isFalse => simp [ih]

theorem nodup_normalizedOptions (options : List RsOption) :
    (normalizedOptions options).Nodup := by
  induction options using List.reverseRecOn with
  | nil => exact List.nodup_nil
  | append_singleton options last ih =>
      rw [normalizedOptions_append_singleton]
      split
      case isTrue => exact ih
      case isFalse hnew =>
        apply ih.append (List.nodup_singleton last)
        rwa [List.disjoint_singleton]

theorem normalizedOptions_of_nodup (hnodup : options.Nodup) :
    normalizedOptions options = options := by
  induction options using List.reverseRecOn with
  | nil => rfl
  | append_singleton options last ih =>
      obtain ⟨hold, -, hdisjoint⟩ := List.nodup_append.mp hnodup
      have hnew : last ∉ options := fun h =>
        hdisjoint last h last (List.mem_singleton_self last) rfl
      rw [normalizedOptions_append_singleton, ih hold, if_neg hnew]

/-- Only repetitions make the list of the options shorter. -/
theorem nodup_of_length_eq
    (h : (normalizedOptions options).length = options.length) :
    options.Nodup := by
  have hcard : options.toFinset.card = options.length := by
    rw [← h, ← List.toFinset_card_of_nodup (nodup_normalizedOptions options)]
    congr 1
    ext opt
    simp [mem_normalizedOptions]
  rw [← Multiset.coe_nodup]
  exact Multiset.toFinset_card_eq_card_iff_nodup.mp hcard

theorem ne_nil_of_optionModes {rolloutRs : Text}
    (h : optionModes rolloutRs = .ok options) : options ≠ [] := by
  rw [optionModes] at h
  by_cases hempty : commaSeparated rolloutRs = []
  · simp only [hempty, if_true] at h
    cases h
  · simp only [hempty, if_false] at h
    have hlength := (mapM_eq_ok_iff.mp h).length_eq
    rintro rfl
    exact hempty (List.length_eq_zero_iff.mp hlength)

end Options

section Parsing

variable {F : Type} [Field F] [LinearOrder F] {numbers : NumberText F}
  {options : List RsOption} {spec : ThresholdSpec F}
  {requests : List (RsOption × Thresholds F)}

/-- An option with the threshold that is read for it. -/
def parseRequest (numbers : NumberText F) (option : RsOption) (spec : Text) :
    Py (RsOption × Thresholds F) := do
  let thresholds ← parseThreshold numbers option spec
  return (option, thresholds)

theorem zip_replicate (options : List RsOption) (s : Text) :
    options.zip (List.replicate options.length s) =
      options.map fun option => (option, s) := by
  induction options with
  | nil => rfl
  | cons option rest ih =>
      rw [List.length_cons, List.replicate_succ, List.zip_cons_cons, ih,
        List.map_cons]

/-- One threshold is shared by all options. -/
theorem parse_single {s : Text} (hspec : rawSpecs numbers spec = [s]) :
    parseRolloutRsThresholds numbers options spec =
      options.mapM fun option => parseRequest numbers option s := by
  have hzip : options.zip (if 1 < options.length then
      (List.replicate options.length [s]).flatten else [s]) =
        options.map fun option => (option, s) := by
    split
    case isTrue =>
      rw [List.flatten_replicate_singleton]
      exact zip_replicate options s
    case isFalse hfew =>
      rcases options with _ | ⟨first, _ | ⟨second, rest⟩⟩
      · rfl
      · rfl
      · exact absurd (by simp) hfew
  simp only [parseRolloutRsThresholds, hspec, List.cons_ne_nil, if_false,
    List.length_singleton, ne_eq, not_true_eq_false, false_and, true_and]
  rw [hzip, List.mapM_map]
  rfl

/-- Several thresholds are one for each option. -/
theorem parse_many (hmany : 1 < (rawSpecs numbers spec).length) :
    parseRolloutRsThresholds numbers options spec =
      if (rawSpecs numbers spec).length = options.length then
        (options.zip (rawSpecs numbers spec)).mapM fun pair =>
          parseRequest numbers pair.1 pair.2
      else .error (.valueError ("rollout_rs_threshold expects either one " ++
        "threshold shared by all options or exactly " ++
        s!"{options.length} thresholds " ++
        "to match the provided rollout_rs options.")) := by
  have hnil : rawSpecs numbers spec ≠ [] := by
    intro h
    simp [h] at hmany
  have hone : (rawSpecs numbers spec).length ≠ 1 := by omega
  simp only [parseRolloutRsThresholds, hnil, if_false, hone, ne_eq,
    not_false_eq_true, true_and, false_and]
  by_cases hcount : (rawSpecs numbers spec).length = options.length
  · simp only [hcount, not_true_eq_false, if_false, if_true]
    rfl
  · simp only [hcount, not_false_eq_true, if_true, if_false]
    rfl

theorem rawSpecs_ne_nil
    (h : parseRolloutRsThresholds numbers options spec = .ok requests) :
    rawSpecs numbers spec ≠ [] := by
  intro hnil
  simp only [parseRolloutRsThresholds, hnil, if_true] at h
  cases h

theorem parseRequest_eq_ok {option : RsOption} {s : Text}
    {request : RsOption × Thresholds F} :
    parseRequest numbers option s = .ok request ↔
      parseThreshold numbers option s = .ok request.2 ∧
        option = request.1 := by
  rw [parseRequest, bind_eq_ok]
  obtain ⟨o, thresholds⟩ := request
  constructor
  · rintro ⟨th, hth, h⟩
    cases h
    exact ⟨hth, rfl⟩
  · rintro ⟨hth, rfl⟩
    exact ⟨thresholds, hth, rfl⟩

/-- What is read for an option that has a lower bound has one, and both bounds
are positive. -/
theorem bounds_of_parseThreshold {option : RsOption} {s : Text}
    {thresholds : Thresholds F}
    (h : parseThreshold numbers option s = .ok thresholds)
    (hk1 : option.estimator = .k1) :
    ∃ lower, thresholds.lower = some lower ∧ 0 < lower ∧
      0 < thresholds.upper := by
  simp only [parseThreshold, hk1] at h
  obtain ⟨⟨lowerStr, upperStr⟩, -, h⟩ := bind_eq_ok.mp h
  split at h
  case h_2 => cases h
  case h_1 lower upper _ _ =>
    split at h
    case isTrue => cases h
    case isFalse hpos =>
      cases h
      obtain ⟨hlower, hupper⟩ := not_or.mp hpos
      exact ⟨lower, rfl, not_le.mp hlower, not_le.mp hupper⟩

end Parsing

section Requests

variable {F : Type} [Field F] [LinearOrder F] {numbers : NumberText F}
  {options : List RsOption} {rolloutRs : Text} {spec : ThresholdSpec F}
  {requests : List (RsOption × Thresholds F)}

/-- The options as they are listed, each with its threshold: one for each entry
of `rollout_rs`, or one for all. -/
def requested (numbers : NumberText F) (rolloutRs : Text)
    (spec : ThresholdSpec F) : Py (List (RsOption × Thresholds F)) := do
  let options ← optionModes rolloutRs
  parseRolloutRsThresholds numbers options spec

theorem single_or_many
    (h : parseRolloutRsThresholds numbers options spec = .ok requests) :
    (∃ s, rawSpecs numbers spec = [s]) ∨ 1 < (rawSpecs numbers spec).length := by
  have hpos := List.length_pos_iff.mpr (rawSpecs_ne_nil h)
  by_cases hone : (rawSpecs numbers spec).length = 1
  · exact .inl (List.length_eq_one_iff.mp hone)
  · exact .inr (by omega)

theorem map_fst_of_mapM {pairs : List (RsOption × Text)}
    (h : (pairs.mapM fun pair => parseRequest numbers pair.1 pair.2) =
      .ok requests) : requests.map Prod.fst = pairs.map Prod.fst := by
  rw [mapM_eq_ok_iff] at h
  induction h with
  | nil => rfl
  | cons hfirst _ ih =>
      rw [List.map_cons, List.map_cons, ih, (parseRequest_eq_ok.mp hfirst).2]

/-- The requests are for the options that are listed. -/
theorem map_fst_of_parse
    (h : parseRolloutRsThresholds numbers options spec = .ok requests) :
    requests.map Prod.fst = options := by
  rcases single_or_many h with ⟨s, hs⟩ | hmany
  · rw [parse_single hs] at h
    have hpairs : ((options.map fun option => (option, s)).mapM fun pair =>
        parseRequest numbers pair.1 pair.2) = .ok requests := by
      rwa [List.mapM_map]
    rw [map_fst_of_mapM hpairs, List.map_map]
    exact List.map_id _
  · rw [parse_many hmany] at h
    split at h
    case isFalse => cases h
    case isTrue hcount =>
      rw [map_fst_of_mapM h]
      exact List.map_fst_zip hcount.ge

theorem bounds_of_mem
    (h : parseRolloutRsThresholds numbers options spec = .ok requests)
    {request : RsOption × Thresholds F} (hmem : request ∈ requests)
    (hk1 : request.1.estimator = .k1) :
    ∃ lower, request.2.lower = some lower ∧ 0 < lower ∧
      0 < request.2.upper := by
  rcases single_or_many h with ⟨s, hs⟩ | hmany
  · rw [parse_single hs] at h
    obtain ⟨option, -, hparse⟩ := (mem_iff_of_mapM h request).mp hmem
    obtain ⟨hread, rfl⟩ := parseRequest_eq_ok.mp hparse
    exact bounds_of_parseThreshold hread hk1
  · rw [parse_many hmany] at h
    split at h
    case isFalse => cases h
    case isTrue =>
      obtain ⟨⟨option, s⟩, -, hparse⟩ := (mem_iff_of_mapM h request).mp hmem
      obtain ⟨hread, rfl⟩ := parseRequest_eq_ok.mp hparse
      exact bounds_of_parseThreshold hread hk1

/-- Without repetitions, or with one threshold for all, the distinct options
are read as they are listed. -/
theorem exists_parse_normalizedOptions
    (h : parseRolloutRsThresholds numbers options spec = .ok requests)
    (hread : (rawSpecs numbers spec).length = 1 ∨ options.Nodup) :
    ∃ pairs, parseRolloutRsThresholds numbers (normalizedOptions options)
        spec = .ok pairs ∧ ∀ request, request ∈ pairs ↔ request ∈ requests := by
  by_cases hnodup : options.Nodup
  · rw [normalizedOptions_of_nodup hnodup]
    exact ⟨requests, h, fun _ => Iff.rfl⟩
  · obtain ⟨s, hs⟩ := List.length_eq_one_iff.mp (hread.resolve_right hnodup)
    rw [parse_single hs] at h ⊢
    have hall : ∀ option ∈ normalizedOptions options,
        ∃ request, parseRequest numbers option s = .ok request := by
      intro option hoption
      have hlisted := (mem_normalizedOptions option).mp hoption
      obtain ⟨request, -, hrequest⟩ :=
        exists_of_forall₂_right (mapM_eq_ok_iff.mp h).flip hlisted
      exact ⟨request, hrequest⟩
    obtain ⟨pairs, hpairs⟩ := exists_mapM_eq_ok hall
    refine ⟨pairs, hpairs, fun request => ?_⟩
    rw [mem_iff_of_mapM hpairs, mem_iff_of_mapM h]
    simp only [mem_normalizedOptions]

/-- With a threshold for each of repeated options the distinct ones have too
many. -/
theorem parse_normalizedOptions_ne_ok
    (h : parseRolloutRsThresholds numbers options spec = .ok requests)
    (hone : (rawSpecs numbers spec).length ≠ 1) (hdup : ¬ options.Nodup)
    (pairs : List (RsOption × Thresholds F)) :
    parseRolloutRsThresholds numbers (normalizedOptions options) spec ≠
      .ok pairs := by
  have hmany : 1 < (rawSpecs numbers spec).length := by
    rcases single_or_many h with ⟨s, hs⟩ | hmany
    · exact absurd (by rw [hs]; rfl) hone
    · exact hmany
  rw [parse_many hmany] at h ⊢
  split at h
  case isFalse => cases h
  case isTrue hcount =>
    rw [if_neg]
    · exact nofun
    · intro hshort
      exact hdup (nodup_of_length_eq (hshort.symm.trans hcount))

end Requests

section Survival

variable {F : Type} [Field F] [LinearOrder F] {e : ExpLog F} {bs len : Nat}
  {logRatio : Fin bs → Fin len → F} {responseMask : Fin bs → Fin len → Bool}

/-- The option keeps the token. -/
def Survives (e : ExpLog F) (logRatio : Fin bs → Fin len → F)
    (responseMask : Fin bs → Fin len → Bool)
    (request : RsOption × Thresholds F) (i : Fin bs) (t : Fin len) : Prop :=
  ∃ keep, tokenKeep e request.1 request.2 logRatio responseMask = .ok keep ∧
    keep i t = true

def HasLive (responseMask : Fin bs → Fin len → Bool) : Prop :=
  ∃ i t, responseMask i t = true

/-- The bounds an option needs are there. -/
def HasBounds (request : RsOption × Thresholds F) : Prop :=
  request.1.estimator = .k1 → ∃ lower, request.2.lower = some lower

theorem exists_tokenKeep_eq {request : RsOption × Thresholds F}
    (hbounds : HasBounds request) (hlive : HasLive responseMask) :
    ∃ keep, tokenKeep e request.1 request.2 logRatio responseMask =
      .ok keep := by
  obtain ⟨option, thresholds⟩ := request
  obtain ⟨i, t, -⟩ := hlive
  have hlen : len ≠ 0 := fun h => absurd t.isLt (by omega)
  simp only [tokenKeep, hlen, and_false, if_false]
  cases hestimator : option.estimator with
  | k1 =>
      obtain ⟨lower, hlower⟩ := hbounds hestimator
      simp only at hlower
      rw [hlower]
      exact ⟨_, rfl⟩
  | k2 => exact ⟨_, rfl⟩
  | k3 => exact ⟨_, rfl⟩

theorem checkRsMetrics_eq_ok {r : Unit} :
    checkRsMetrics responseMask = .ok r ↔ HasLive responseMask := by
  rw [checkRsMetrics]
  split
  case isTrue h => exact iff_of_true rfl h
  case isFalse h => exact iff_of_false nofun h

/-- What the loop over the options makes of the mask it has. -/
theorem foldlM_applyOption {requests : List (RsOption × Thresholds F)}
    (hlive : HasLive responseMask)
    (hbounds : ∀ request ∈ requests, HasBounds request)
    (initial : Fin bs → Fin len → Bool) :
    ∃ combined, requests.foldlM (applyOption e logRatio responseMask) initial =
        .ok combined ∧
      ∀ i t, combined i t = true ↔ initial i t = true ∧
        ∀ request ∈ requests,
          Survives e logRatio responseMask request i t := by
  induction requests generalizing initial with
  | nil => exact ⟨initial, rfl, by simp⟩
  | cons request rest ih =>
      obtain ⟨hfirst, hrest⟩ := List.forall_mem_cons.mp hbounds
      obtain ⟨keep, hkeep⟩ : ∃ keep, tokenKeep e request.1 request.2 logRatio
          responseMask = .ok keep := exists_tokenKeep_eq hfirst hlive
      obtain ⟨combined, hcombined, hspec⟩ :=
        ih hrest fun i t => initial i t && keep i t
      have hstep : applyOption e logRatio responseMask initial request =
          .ok fun i t => initial i t && keep i t := by
        rw [applyOption, hkeep, ok_bind, (checkRsMetrics_eq_ok (r := ())).mpr hlive]
        rfl
      refine ⟨combined, ?_, fun i t => ?_⟩
      · rw [List.foldlM_cons, hstep, ok_bind, hcombined]
      · have hsurvives : Survives e logRatio responseMask request i t ↔
            keep i t = true := by
          rw [Survives, hkeep]
          simp
        rw [hspec, List.forall_mem_cons, hsurvives, Bool.and_eq_true, and_assoc]

/-- Without a live token the first option raises. -/
theorem foldlM_applyOption_ne_ok {requests : List (RsOption × Thresholds F)}
    (hnil : requests ≠ []) (hlive : ¬ HasLive responseMask)
    (initial combined : Fin bs → Fin len → Bool) :
    requests.foldlM (applyOption e logRatio responseMask) initial ≠
      .ok combined := by
  intro h
  cases requests with
  | nil => exact hnil rfl
  | cons request rest =>
      rw [List.foldlM_cons] at h
      obtain ⟨next, hnext, -⟩ := bind_eq_ok.mp h
      obtain ⟨keep, -, hcheck⟩ := bind_eq_ok.mp hnext
      obtain ⟨r, hr, -⟩ := bind_eq_ok.mp hcheck
      exact hlive (checkRsMetrics_eq_ok.mp hr)

variable {numbers : NumberText F} {rolloutRs : Text}
  {spec : ThresholdSpec F} {requests : List (RsOption × Thresholds F)}

/-- What the function can be asked for: one threshold, or no repetition, and a
live token. -/
def Computable (numbers : NumberText F)
    (responseMask : Fin bs → Fin len → Bool) (spec : ThresholdSpec F)
    (requests : List (RsOption × Thresholds F)) : Prop :=
  HasLive responseMask ∧ ((rawSpecs numbers spec).length = 1 ∨
    (requests.map Prod.fst).Nodup)

theorem exists_computeRolloutRejectionMask
    (hrequests : requested numbers rolloutRs spec = .ok requests)
    (hcomputable : Computable numbers responseMask spec requests) :
    ∃ result, computeRolloutRejectionMask numbers e logRatio responseMask
        rolloutRs (some spec) = .ok result ∧
      ∀ i t, result i t = true ↔ responseMask i t = true ∧
        ∀ request ∈ requests,
          Survives e logRatio responseMask request i t := by
  obtain ⟨options, hoptions, hparse⟩ := bind_eq_ok.mp hrequests
  obtain ⟨hlive, hread⟩ := hcomputable
  rw [map_fst_of_parse hparse] at hread
  obtain ⟨pairs, hpairs, hmem⟩ := exists_parse_normalizedOptions hparse hread
  have hbounds : ∀ request ∈ pairs, HasBounds request := by
    intro request hrequest hk1
    obtain ⟨lower, hlower, -⟩ :=
      bounds_of_mem hparse ((hmem request).mp hrequest) hk1
    exact ⟨lower, hlower⟩
  obtain ⟨combined, hcombined, hspec⟩ : ∃ combined, pairs.foldlM
      (applyOption e logRatio responseMask) (fun _ _ => true) = .ok combined ∧
        ∀ i t, combined i t = true ↔ true = true ∧ ∀ request ∈ pairs,
          Survives e logRatio responseMask request i t :=
    foldlM_applyOption hlive hbounds fun _ _ => true
  have hbs : bs ≠ 0 := by
    obtain ⟨i, -⟩ := hlive
    exact fun h => absurd i.isLt (by omega)
  refine ⟨fun i t => responseMask i t && combined i t, ?_, fun i t => ?_⟩
  · simp only [computeRolloutRejectionMask, hbs, if_false, hoptions, ok_bind,
      hpairs, hcombined]
    rfl
  · rw [Bool.and_eq_true, hspec]
    simp only [hmem, true_and]

theorem computable_of_eq_ok (hbs : bs ≠ 0)
    (hrequests : requested numbers rolloutRs spec = .ok requests)
    {result : Fin bs → Fin len → Bool}
    (hresult : computeRolloutRejectionMask numbers e logRatio responseMask
      rolloutRs (some spec) = .ok result) :
    Computable numbers responseMask spec requests := by
  obtain ⟨options, hoptions, hparse⟩ := bind_eq_ok.mp hrequests
  simp only [computeRolloutRejectionMask, hbs, if_false, hoptions, ok_bind]
    at hresult
  obtain ⟨pairs, hpairs, hloop⟩ := bind_eq_ok.mp hresult
  obtain ⟨combined, hcombined, -⟩ := bind_eq_ok.mp hloop
  have hnil : pairs ≠ [] := by
    rintro rfl
    have hlisted := map_fst_of_parse hpairs
    have hne := ne_nil_of_optionModes hoptions
    obtain ⟨first, hfirst⟩ := List.exists_mem_of_ne_nil _ hne
    have hmem := (mem_normalizedOptions first).mpr hfirst
    rw [← hlisted] at hmem
    cases hmem
  rw [Computable, map_fst_of_parse hparse]
  constructor
  · by_contra hdead
    exact foldlM_applyOption_ne_ok hnil hdead _ _ hcombined
  · by_contra hrepeated
    obtain ⟨hone, hdup⟩ := not_or.mp hrepeated
    exact parse_normalizedOptions_ne_ok hparse hone hdup _ hpairs

end Survival

section Ratios

variable {F : Type} [Field F] [LinearOrder F] {e : ExpLog F} {len : Nat}

/-- The ratio lies within the bounds. -/
def Within (lower upper ratio : F) : Prop := lower ≤ ratio ∧ ratio ≤ upper

namespace ExpLog

theorem exp_ne_zero (e : ExpLog F) (x : F) : e.exp x ≠ 0 := by
  intro h
  have hone : e.exp (x + -x) = 1 := by rw [add_neg_cancel, e.exp_zero]
  rw [e.exp_add, h, zero_mul] at hone
  exact zero_ne_one hone

theorem exp_neg (e : ExpLog F) (x : F) : e.exp (-x) = (e.exp x)⁻¹ := by
  apply eq_inv_of_mul_eq_one_left
  rw [← e.exp_add, neg_add_cancel, e.exp_zero]

theorem log_le_iff (e : ExpLog F) {x y : F} (hx : 0 < x) :
    e.log x ≤ y ↔ x ≤ e.exp y := by
  rw [← e.strictMono.le_iff_le, e.exp_log x hx]

theorem le_log_iff (e : ExpLog F) {x y : F} (hx : 0 < x) :
    y ≤ e.log x ↔ e.exp y ≤ x := by
  rw [← e.strictMono.le_iff_le, e.exp_log x hx]

end ExpLog

omit [LinearOrder F] in
theorem maskedSum_neg (values : Fin len → F) (mask : Fin len → Bool) :
    maskedSum (fun t => -values t) mask = -maskedSum values mask := by
  rw [maskedSum, maskedSum, ← Finset.sum_neg_distrib]
  apply Finset.sum_congr rfl
  intro t _
  cases mask t <;> simp

theorem aggregate_neg {level : Level} (hlevel : level ≠ .seqMax) (epsilon : F)
    (values : Fin len → F) (mask : Fin len → Bool) (t : Fin len) :
    aggregate epsilon level (fun s => -values s) mask t =
      -aggregate epsilon level values mask t := by
  cases level with
  | token => rfl
  | seqSum => exact maskedSum_neg values mask
  | seqMean => simp only [aggregate, maskedSum_neg, neg_div]
  | seqMax => exact absurd rfl hlevel

theorem level_ne_seqMax {option : RsOption} (hk1 : option.estimator = .k1) :
    option.level ≠ .seqMax := by
  cases option <;> simp [RsOption.estimator, RsOption.level] at hk1 ⊢

variable [IsStrictOrderedRing F] {bs : Nat}
  {logRatio : Fin bs → Fin len → F} {responseMask : Fin bs → Fin len → Bool}

/-- The training-to-rollout ratio of a token, or of a sequence by the sum or
mean of its log ratios. -/
def ratio (e : ExpLog F) (level : Level) (logRatio : Fin len → F)
    (mask : Fin len → Bool) (t : Fin len) : F :=
  e.exp (aggregate 0 level logRatio mask t)

/-- The ratio with the log ratios within the safety bound, and with the small
constant of the masked mean. -/
def safeRatio (e : ExpLog F) (level : Level) (logRatio : Fin len → F)
    (mask : Fin len → Bool) (t : Fin len) : F :=
  e.exp (aggregate meanEpsilon level (fun s => clampLog (logRatio s)) mask t)

theorem exp_pos (e : ExpLog F) (x : F) : 0 < e.exp x := by
  have hhalf : e.exp (x / 2) * e.exp (x / 2) = e.exp x := by
    rw [← e.exp_add, add_halves]
  rw [← hhalf]
  exact mul_self_pos.mpr (e.exp_ne_zero _)

/-- The statistic of a k1 option is the negated log ratio, so what the option
keeps is the ratio whose reciprocal is within the bounds. -/
theorem survives_k1_iff {request : RsOption × Thresholds F} {lower : F}
    (hk1 : request.1.estimator = .k1) (hbound : request.2.lower = some lower)
    (hlower : 0 < lower) (hupper : 0 < request.2.upper) (i : Fin bs)
    (t : Fin len) :
    Survives e logRatio responseMask request i t ↔
      Within request.2.upper⁻¹ lower⁻¹
        (safeRatio e request.1.level (logRatio i) (responseMask i) t) := by
  obtain ⟨option, thresholds⟩ := request
  simp only at hk1 hbound hupper ⊢
  have hlevel := level_ne_seqMax hk1
  have hstat : perTokenStat e option logRatio responseMask i t =
      -aggregate meanEpsilon option.level (fun s => clampLog (logRatio i s))
        (responseMask i) t := by
    rw [perTokenStat, hk1]
    exact aggregate_neg hlevel ..
  simp only [Survives, tokenKeep, hlevel, false_and, if_false, hk1, hbound,
    Except.ok.injEq, exists_eq_left', decide_eq_true_eq, hstat]
  rw [e.log_le_iff hlower, e.le_log_iff hupper, e.exp_neg, Within, safeRatio,
    and_comm, inv_le_comm₀ (exp_pos e _) hupper,
    le_inv_comm₀ hlower (exp_pos e _)]

omit [IsStrictOrderedRing F] in
/-- A sequence-level option treats all tokens of a sequence alike. -/
theorem survives_sequence {request : RsOption × Thresholds F}
    (hlevel : request.1.level ≠ .token) (i : Fin bs) (s t : Fin len) :
    Survives e logRatio responseMask request i s ↔
      Survives e logRatio responseMask request i t := by
  obtain ⟨option, thresholds⟩ := request
  simp only at hlevel
  have hstat : perTokenStat e option logRatio responseMask i s =
      perTokenStat e option logRatio responseMask i t := by
    rw [perTokenStat, perTokenStat]
    cases hcase : option.level with
    | token => exact absurd hcase hlevel
    | seqSum | seqMean | seqMax => rfl
  have hkeep : ∀ keep, tokenKeep e option thresholds logRatio responseMask =
      .ok keep → keep i s = keep i t := by
    intro keep hkeep
    rw [tokenKeep] at hkeep
    split at hkeep
    case isTrue => cases hkeep
    case isFalse =>
      split at hkeep
      case h_1 => cases hkeep
      case h_2 =>
        cases hkeep
        simp only [hstat]
      case h_3 =>
        cases hkeep
        simp only [hstat]
  constructor
  · rintro ⟨keep, hok, h⟩
    exact ⟨keep, hok, hkeep keep hok ▸ h⟩
  · rintro ⟨keep, hok, h⟩
    exact ⟨keep, hok, (hkeep keep hok).symm ▸ h⟩

end Ratios

section Documentation

variable {F : Type} [Field F] [LinearOrder F] {e : ExpLog F}
  {numbers : NumberText F} {bs len : Nat} {logRatio : Fin bs → Fin len → F}
  {responseMask : Fin bs → Fin len → Bool} {rolloutRs : Text}
  {spec : ThresholdSpec F} {requests : List (RsOption × Thresholds F)}

/-- What is documented of a mask: it is within the response mask, every option
must pass, a k1 option passes what has its ratio within the bounds, options of
the sequence level keep or drop whole sequences, and only which options are
requested matters. -/
structure Documented (numbers : NumberText F) (e : ExpLog F)
    (logRatio : Fin bs → Fin len → F) (responseMask : Fin bs → Fin len → Bool)
    (requests : List (RsOption × Thresholds F))
    (result : Fin bs → Fin len → Bool) : Prop where
  le : ∀ i t, result i t = true → responseMask i t = true
  all : ∀ i t, result i t = true ↔ responseMask i t = true ∧
    ∀ request ∈ requests, Survives e logRatio responseMask request i t
  within : ∀ request ∈ requests, request.1.estimator = .k1 →
    ∀ lower, request.2.lower = some lower →
      ∀ i t, responseMask i t = true →
        (Survives e logRatio responseMask request i t ↔
          Within lower request.2.upper
            (ratio e request.1.level (logRatio i) (responseMask i) t))
  sequence : ∀ request ∈ requests, request.1.level ≠ .token →
    ∀ i s t, Survives e logRatio responseMask request i s ↔
      Survives e logRatio responseMask request i t
  order : ∀ rolloutRs spec requests' result',
    requested numbers rolloutRs spec = .ok requests' →
      (∀ request, request ∈ requests' ↔ request ∈ requests) →
        computeRolloutRejectionMask numbers e logRatio responseMask rolloutRs
          (some spec) = .ok result' → result' = result

def KeepsWhatItDocuments (numbers : NumberText F) (e : ExpLog F)
    (logRatio : Fin bs → Fin len → F) (responseMask : Fin bs → Fin len → Bool)
    (rolloutRs : Text) (spec : ThresholdSpec F)
    (requests : List (RsOption × Thresholds F)) : Prop :=
  ∃ result, computeRolloutRejectionMask numbers e logRatio responseMask
      rolloutRs (some spec) = .ok result ∧
    Documented numbers e logRatio responseMask requests result

/-- No k1 option separates a live ratio from its reciprocal. -/
def RatiosAgree (e : ExpLog F) (logRatio : Fin bs → Fin len → F)
    (responseMask : Fin bs → Fin len → Bool)
    (requests : List (RsOption × Thresholds F)) : Prop :=
  ∀ request ∈ requests, request.1.estimator = .k1 →
    ∀ lower, request.2.lower = some lower →
      ∀ i t, responseMask i t = true →
        (Within lower request.2.upper
            (ratio e request.1.level (logRatio i) (responseMask i) t) ↔
          Within request.2.upper⁻¹ lower⁻¹
            (safeRatio e request.1.level (logRatio i) (responseMask i) t))

/-- Which options are requested decides the mask. -/
theorem eq_of_requests_iff (hbs : bs ≠ 0)
    (hrequests : requested numbers rolloutRs spec = .ok requests)
    {result other : Fin bs → Fin len → Bool}
    {requests' : List (RsOption × Thresholds F)}
    (hsame : ∀ request, request ∈ requests ↔ request ∈ requests')
    (hother : ∀ i t, other i t = true ↔ responseMask i t = true ∧
      ∀ request ∈ requests', Survives e logRatio responseMask request i t)
    (hresult : computeRolloutRejectionMask numbers e logRatio responseMask
      rolloutRs (some spec) = .ok result) : result = other := by
  have hcomputable := computable_of_eq_ok hbs hrequests hresult
  obtain ⟨mask, hmask, hspec⟩ :
      ∃ mask, computeRolloutRejectionMask numbers e logRatio responseMask
          rolloutRs (some spec) = .ok mask ∧
        ∀ i t, mask i t = true ↔ responseMask i t = true ∧
          ∀ request ∈ requests,
            Survives e logRatio responseMask request i t :=
    exists_computeRolloutRejectionMask hrequests hcomputable
  rw [hresult] at hmask
  cases hmask
  funext i t
  rw [Bool.eq_iff_iff, hspec, hother]
  simp only [hsame]

theorem documented_of_rows_eq_zero (hbs : bs = 0)
    (result : Fin bs → Fin len → Bool) :
    Documented numbers e logRatio responseMask requests result := by
  subst bs
  have hrow : ∀ i : Fin 0, False := fun i => i.elim0
  exact ⟨fun i => i.elim0, fun i => i.elim0,
    fun _ _ _ _ _ i => i.elim0, fun _ _ _ i => i.elim0,
    fun _ _ _ _ _ _ _ => funext fun i => i.elim0⟩

variable [IsStrictOrderedRing F]

/-- The function keeps what is documented exactly if the batch has no rows, or
it can be computed and no k1 option separates a live ratio from its
reciprocal. -/
theorem keepsWhatItDocuments_iff
    (hrequests : requested numbers rolloutRs spec = .ok requests) :
    KeepsWhatItDocuments numbers e logRatio responseMask rolloutRs spec
        requests ↔
      bs = 0 ∨ Computable numbers responseMask spec requests ∧
        RatiosAgree e logRatio responseMask requests := by
  obtain ⟨options, hoptions, hparse⟩ := bind_eq_ok.mp hrequests
  by_cases hbs : bs = 0
  · refine iff_of_true ⟨responseMask, ?_, documented_of_rows_eq_zero hbs _⟩
      (.inl hbs)
    simp only [computeRolloutRejectionMask, hbs, if_true]
  · simp only [hbs, false_or]
    constructor
    · rintro ⟨result, hresult, hdocumented⟩
      refine ⟨computable_of_eq_ok hbs hrequests hresult, ?_⟩
      intro request hmem hk1 lower hbound i t hlive
      obtain ⟨_, hlower, hpos, hupper⟩ := bounds_of_mem hparse hmem hk1
      rw [hbound] at hlower
      cases hlower
      rw [← survives_k1_iff hk1 hbound hpos hupper]
      exact (hdocumented.within request hmem hk1 lower hbound i t hlive).symm
    · rintro ⟨hcomputable, hagree⟩
      obtain ⟨result, hresult, hspec⟩ :
          ∃ result, computeRolloutRejectionMask numbers e logRatio responseMask
              rolloutRs (some spec) = .ok result ∧
            ∀ i t, result i t = true ↔ responseMask i t = true ∧
              ∀ request ∈ requests,
                Survives e logRatio responseMask request i t :=
        exists_computeRolloutRejectionMask hrequests hcomputable
      refine ⟨result, hresult, ?_⟩
      constructor
      case le => exact fun i t h => ((hspec i t).mp h).1
      case all => exact hspec
      case within =>
        intro request hmem hk1 lower hbound i t hlive
        obtain ⟨_, hlower, hpos, hupper⟩ := bounds_of_mem hparse hmem hk1
        rw [hbound] at hlower
        cases hlower
        rw [survives_k1_iff hk1 hbound hpos hupper]
        exact (hagree request hmem hk1 lower hbound i t hlive).symm
      case sequence =>
        exact fun request _ hlevel => survives_sequence hlevel
      case order =>
        intro rolloutRs' spec' requests' result' hrequests' hsame hresult'
        exact eq_of_requests_iff hbs hrequests' hsame hspec hresult'

end Documentation

section Symmetric

variable {F : Type} [Field F] [LinearOrder F] {e : ExpLog F}
  {bs len : Nat} {logRatio : Fin bs → Fin len → F}
  {responseMask : Fin bs → Fin len → Bool}
  {requests : List (RsOption × Thresholds F)}

theorem clampLog_of_mem {x : F} (hlow : -20 ≤ x) (hhigh : x ≤ 20) :
    clampLog x = x := by
  rw [clampLog, Nat.cast_ofNat, max_eq_left hlow, min_eq_left hhigh]

theorem safeRatio_eq_ratio {level : Level}
    (hlevel : level = .token ∨ level = .seqSum) {logRatio : Fin len → F}
    {mask : Fin len → Bool}
    (hsafe : ∀ s, mask s = true → -20 ≤ logRatio s ∧ logRatio s ≤ 20)
    {t : Fin len} (hlive : mask t = true) :
    safeRatio e level logRatio mask t = ratio e level logRatio mask t := by
  apply congrArg e.exp
  rcases hlevel with rfl | rfl
  · exact clampLog_of_mem (hsafe t hlive).1 (hsafe t hlive).2
  · rw [aggregate, aggregate, maskedSum, maskedSum]
    apply Finset.sum_congr rfl
    intro s _
    by_cases hs : mask s = true
    · rw [if_pos hs, if_pos hs]
      exact clampLog_of_mem (hsafe s hs).1 (hsafe s hs).2
    · rw [if_neg hs, if_neg hs]

/-- Bounds that are each other's reciprocals, as a single number gives them,
hide that the statistic is that of the reciprocal ratio. -/
theorem ratiosAgree_of_reciprocal
    (hbounds : ∀ request ∈ requests, request.1.estimator = .k1 →
      ∀ lower, request.2.lower = some lower → request.2.upper * lower = 1 ∧
        (request.1.level = .token ∨ request.1.level = .seqSum))
    (hsafe : ∀ i t, responseMask i t = true →
      -20 ≤ logRatio i t ∧ logRatio i t ≤ 20) :
    RatiosAgree e logRatio responseMask requests := by
  intro request hmem hk1 lower hbound i t hlive
  obtain ⟨hone, hlevel⟩ := hbounds request hmem hk1 lower hbound
  rw [safeRatio_eq_ratio hlevel (hsafe i) hlive,
    inv_eq_of_mul_eq_one_right hone, inv_eq_of_mul_eq_one_left hone]

end Symmetric

section Batch

noncomputable def realExpLog : ExpLog ℝ where
  exp := Real.exp
  log := Real.log
  strictMono := Real.exp_strictMono
  exp_zero := Real.exp_zero
  exp_add := Real.exp_add
  exp_log _ := Real.exp_log

/-- The numbers of the two threshold texts below. -/
noncomputable def fewNumbers : NumberText ℝ where
  str _ := []
  float s :=
    if s = "0.5".toList then some (1 / (2 : Nat))
    else if s = "2".toList then some (2 : Nat)
    else if s = "4".toList then some (4 : Nat)
    else none

theorem parseThreshold_fewNumbers {s : Text} {upperText : Text} {upper : ℝ}
    (hsplit : boundTexts fewNumbers s = .ok ("0.5".toList, upperText))
    (hfloat : fewNumbers.float upperText = some upper) (hupper : 0 < upper) :
    parseThreshold fewNumbers .tokenK1 s = .ok ⟨some (1 / 2), upper⟩ := by
  have hhalf : fewNumbers.float "0.5".toList = some (1 / 2) := rfl
  have hpos : ¬ ((1 / 2 : ℝ) ≤ 0 ∨ upper ≤ 0) := by
    rw [not_or, not_le, not_le]
    exact ⟨by norm_num, hupper⟩
  simp only [parseThreshold, RsOption.estimator, hsplit, ok_bind, hhalf,
    hfloat, if_neg hpos]

theorem requested_tokenK1 {s : Text} {thresholds : Thresholds ℝ}
    (hcommas : commaSeparated s = [s])
    (hparse : parseThreshold fewNumbers .tokenK1 s = .ok thresholds) :
    requested fewNumbers "token_k1".toList (.text s) =
      .ok [(.tokenK1, thresholds)] := by
  have hmodes : optionModes "token_k1".toList = .ok [.tokenK1] := by
    decide +kernel
  have hspecs : rawSpecs fewNumbers (.text s) = [s] := hcommas
  rw [requested, hmodes, ok_bind, parse_single hspecs, mapM_eq_ok_iff]
  exact .cons (parseRequest_eq_ok.mpr ⟨hparse, rfl⟩) .nil

theorem requested_halfFour :
    requested fewNumbers "token_k1".toList (.text "0.5_4".toList) =
      .ok [(.tokenK1, ⟨some (1 / 2), 4⟩)] := by
  apply requested_tokenK1 (by decide +kernel)
  apply parseThreshold_fewNumbers rfl rfl
  norm_num

theorem requested_halfTwo :
    requested fewNumbers "token_k1".toList (.text "0.5_2".toList) =
      .ok [(.tokenK1, ⟨some (1 / 2), 2⟩)] := by
  apply requested_tokenK1 (by decide +kernel)
  apply parseThreshold_fewNumbers rfl rfl
  norm_num

/-- With one threshold a batch with a live token can be computed. -/
theorem computable_tokenK1 (s : Text) (thresholds : Thresholds ℝ)
    (hcommas : commaSeparated s = [s]) :
    Computable fewNumbers (fun (_ _ : Fin 1) => true) (.text s)
      [(.tokenK1, thresholds)] := by
  refine ⟨⟨0, 0, rfl⟩, .inl ?_⟩
  rw [rawSpecs, hcommas, List.length_singleton]

theorem keepsWhatItDocuments_iff_halfTwo :
    KeepsWhatItDocuments fewNumbers realExpLog (fun (_ _ : Fin 1) => 1)
      (fun _ _ => true) "token_k1".toList (.text "0.5_2".toList)
      [(.tokenK1, ⟨some (1 / 2), 2⟩)] := by
  apply (keepsWhatItDocuments_iff requested_halfTwo).mpr
  refine .inr ⟨computable_tokenK1 _ _ (by decide +kernel), ?_⟩
  apply ratiosAgree_of_reciprocal
  · intro request hmem _ lower hlower
    rw [List.mem_singleton] at hmem
    subst hmem
    cases hlower
    exact ⟨by norm_num, .inl rfl⟩
  · intro _ _ _
    norm_num

/-- The ratio e is within 0.5 and 4, its reciprocal is not. -/
theorem not_keepsWhatItDocuments_halfFour :
    requested fewNumbers "token_k1".toList (.text "0.5_4".toList) =
        .ok [(.tokenK1, ⟨some (1 / 2), 4⟩)] ∧
      ¬ KeepsWhatItDocuments fewNumbers realExpLog (fun (_ _ : Fin 1) => 1)
        (fun _ _ => true) "token_k1".toList (.text "0.5_4".toList)
        [(.tokenK1, ⟨some (1 / 2), 4⟩)] := by
  refine ⟨requested_halfFour, ?_⟩
  rintro ⟨result, -, hdocumented⟩
  have hsurvives := hdocumented.within _ (List.mem_singleton_self _) rfl _ rfl
    0 0 rfl
  rw [survives_k1_iff rfl rfl (by norm_num) (by norm_num)] at hsurvives
  have hlow := Real.exp_one_gt_d9
  have hhigh := Real.exp_one_lt_d9
  have hratio : Within (1 / 2) 4 (ratio realExpLog RsOption.tokenK1.level
      (fun _ : Fin 1 => 1) (fun _ => true) 0) := by
    change (1 / 2 : ℝ) ≤ Real.exp 1 ∧ Real.exp 1 ≤ 4
    constructor <;> linarith
  have hclamp : clampLog (1 : ℝ) = 1 := clampLog_of_mem (by norm_num)
    (by norm_num)
  obtain ⟨-, hsafe⟩ := hsurvives.mpr hratio
  change Real.exp (clampLog 1) ≤ (1 / 2 : ℝ)⁻¹ at hsafe
  rw [hclamp] at hsafe
  norm_num at hsafe
  linarith

end Batch

end RolloutRejection

end SelfDistillation
