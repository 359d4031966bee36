/-
`AsyncTokenBucket` (verl/experimental/reward_loop/reward_manager/limited.py):
concurrent `acquire` calls on one bucket that is refilled at a constant rate.
-/
import SelfDistillation.Library.Transition

namespace SelfDistillation

namespace TokenBucket

open Transition

variable {F : Type} [Field F] [LinearOrder F]

/-- The arguments of the constructor. -/
structure BucketConfig (F : Type) [Field F] [LinearOrder F] where
  rateLimit : F
  maxTokens : Option F
  rate_pos : 0 < rateLimit
  max_nonneg : ∀ m ∈ maxTokens, 0 ≤ m

/-- `self.max_tokens = max_tokens or rate_limit` -/
def BucketConfig.capacity (cfg : BucketConfig F) : F :=
  match cfg.maxTokens with
  | none => cfg.rateLimit
  | some m => if m = 0 then cfg.rateLimit else m

/-- `tokens` and `last_update` -/
structure AsyncTokenBucket (F : Type) where
  tokens : F
  lastUpdate : Option F
deriving DecidableEq

/-- The refill both paths of `acquire` begin with. -/
def refill (cfg : BucketConfig F) (bucket : AsyncTokenBucket F) (now : F) :
    AsyncTokenBucket F :=
  let elapsed := now - bucket.lastUpdate.getD now
  let newTokens := elapsed * cfg.rateLimit
  ⟨min cfg.capacity (bucket.tokens + newTokens), some now⟩

/-- The locked part of `acquire` for a request above the capacity, and
`wait_time`. -/
def acquireLarge (cfg : BucketConfig F) (bucket : AsyncTokenBucket F)
    (numTokens now : F) : AsyncTokenBucket F × F :=
  let bucket := refill cfg bucket now
  let tokensNeeded := numTokens - bucket.tokens
  let waitTime := if tokensNeeded > 0 then tokensNeeded / cfg.rateLimit else 0
  ({ bucket with tokens := bucket.tokens - numTokens }, waitTime)

/-- One pass of the loop of `acquire`: `none` where it returns, else
`wait_time`. -/
def acquireStandard (cfg : BucketConfig F) (bucket : AsyncTokenBucket F)
    (numTokens now : F) : AsyncTokenBucket F × Option F :=
  let bucket := refill cfg bucket now
  if bucket.tokens ≥ numTokens then
    ({ bucket with tokens := bucket.tokens - numTokens }, none)
  else (bucket, some ((numTokens - bucket.tokens) / cfg.rateLimit))

/-- How far a call is: it enters the lock not before some time, it has taken
its tokens and sleeps, or it has returned. -/
inductive Phase (F : Type)
  | waiting (notBefore : F)
  | paying (due : F)
  | returned (at' : F)
deriving DecidableEq

/-- A call of `acquire`. -/
structure Call (F : Type) where
  numTokens : F
  phase : Phase F
deriving DecidableEq

structure BucketState (F : Type) where
  clock : F
  bucket : AsyncTokenBucket F
  calls : List (Call F)
deriving DecidableEq

/-- A new call, or a turn of the event loop for call `k` at time `now`. -/
inductive BucketAction (F : Type)
  | call (numTokens : F)
  | turn (k : Nat) (now : F)

/-- What a turn makes of the bucket and of the call.  Nothing is awaited under
the lock, so that part of a call is one step. -/
def turnOf (cfg : BucketConfig F) (bucket : AsyncTokenBucket F)
    (call : Call F) (now : F) : Option (AsyncTokenBucket F × Phase F) :=
  match call.phase with
  | .waiting notBefore =>
      if notBefore ≤ now then
        if call.numTokens > cfg.capacity then
          let (bucket, waitTime) :=
            acquireLarge cfg bucket call.numTokens now
          some (bucket, if waitTime > 0 then .paying (now + waitTime)
            else .returned now)
        else
          match acquireStandard cfg bucket call.numTokens now with
          | (bucket, none) => some (bucket, .returned now)
          | (bucket, some waitTime) =>
              some (bucket, .waiting (now + waitTime))
      else none
  | .paying due =>
      if due ≤ now then some (bucket, .returned now) else none
  | .returned _ => none

/-- Requests are of any size, and the clock does not go back. -/
def bucketStep (cfg : BucketConfig F) (s : BucketState F) :
    BucketAction F → Option (BucketState F)
  | .call numTokens =>
      if 0 ≤ numTokens then
        some { s with calls := s.calls ++ [⟨numTokens, .waiting s.clock⟩] }
      else none
  | .turn k now =>
      if s.clock ≤ now then
        match s.calls[k]? with
        | none => none
        | some call =>
            (turnOf cfg s.bucket call now).map fun result =>
              ⟨now, result.1, s.calls.set k { call with phase := result.2 }⟩
      else none

/-- A bucket created at time `created`. -/
def bucketSystem (cfg : BucketConfig F) (created : F) :
    System (BucketState F) (BucketAction F) where
  initial := ⟨created, ⟨cfg.capacity, none⟩, []⟩
  step := bucketStep cfg

section Totals

/-- The tokens of a call that has returned by time `t`. -/
def Call.grantedBy (t : F) (call : Call F) : F :=
  match call.phase with
  | .returned at' => if at' ≤ t then call.numTokens else 0
  | _ => 0

/-- The tokens granted to the calls that have returned by time `t`. -/
def grantedBy (t : F) (calls : List (Call F)) : F :=
  (calls.map (Call.grantedBy t)).sum

/-- The tokens a call has taken if it may return by time `t`. -/
def Call.dueBy (t : F) (call : Call F) : F :=
  match call.phase with
  | .waiting _ => 0
  | .paying due => if due ≤ t then call.numTokens else 0
  | .returned at' => if at' ≤ t then call.numTokens else 0

def dueBy (t : F) (calls : List (Call F)) : F :=
  (calls.map (Call.dueBy t)).sum

/-- The tokens a call has taken from the bucket. -/
def Call.taken (call : Call F) : F :=
  match call.phase with
  | .waiting _ => 0
  | _ => call.numTokens

def taken (calls : List (Call F)) : F := (calls.map Call.taken).sum

/-- The wait of every call above the capacity is over at time `t`. -/
def PaidBy (t : F) (calls : List (Call F)) : Prop :=
  ∀ call ∈ calls, ∀ due, call.phase = .paying due → due ≤ t

end Totals

variable [IsStrictOrderedRing F] {cfg : BucketConfig F} {created : F}

section Lists

omit [LinearOrder F] [IsStrictOrderedRing F] in
/-- Replacing an account changes the total by the difference. -/
theorem sum_map_set {α : Type} (f : α → F) {xs : List α} {k : Nat} {x : α}
    (hx : xs[k]? = some x) (y : α) :
    ((xs.set k y).map f).sum = (xs.map f).sum + (f y - f x) := by
  obtain ⟨hk, rfl⟩ := List.getElem?_eq_some_iff.mp hx
  rw [List.map_set, List.sum_set', dif_pos (by simpa using hk),
    List.getElem_map]
  ring

omit [Field F] [IsStrictOrderedRing F] in
theorem forall_mem_set {α : Type} {P : α → Prop} {xs : List α} {k : Nat}
    {y : α} (hxs : ∀ x ∈ xs, P x) (hy : P y) : ∀ x ∈ xs.set k y, P x := by
  intro x hx
  rcases List.mem_or_eq_of_mem_set hx with hmem | rfl
  · exact hxs x hmem
  · exact hy

omit [Field F] [IsStrictOrderedRing F] in
theorem paidBy_of_set {calls : List (Call F)} {k : Nat} {call call' : Call F}
    {t : F} (hcall : calls[k]? = some call)
    (hpaid : PaidBy t (calls.set k call'))
    (hold : ∀ due, call.phase = .paying due → due ≤ t) : PaidBy t calls := by
  intro other hother due hdue
  obtain ⟨j, hj⟩ := List.mem_iff_getElem?.mp hother
  by_cases hjk : k = j
  · subst hjk
    rw [hcall] at hj
    cases hj
    exact hold due hdue
  · apply hpaid other ?_ due hdue
    apply List.mem_of_getElem? (i := j)
    rw [List.getElem?_set_ne hjk, hj]

end Lists

section Calls

variable {call : Call F} {t : F}

omit [IsStrictOrderedRing F] in
theorem Call.grantedBy_le_dueBy (hsize : 0 ≤ call.numTokens) :
    call.grantedBy t ≤ call.dueBy t := by
  rw [Call.grantedBy, Call.dueBy]
  cases call.phase with
  | waiting notBefore => exact le_refl 0
  | paying due =>
      by_cases hdue : due ≤ t
      · simpa [hdue] using hsize
      · simp [hdue]
  | returned at' => exact le_refl _

omit [IsStrictOrderedRing F] in
theorem Call.dueBy_le_taken (hsize : 0 ≤ call.numTokens) :
    call.dueBy t ≤ call.taken := by
  rw [Call.dueBy, Call.taken]
  cases call.phase with
  | waiting notBefore => exact le_refl 0
  | paying due =>
      by_cases hdue : due ≤ t
      · simp [hdue]
      · simpa [hdue] using hsize
  | returned at' =>
      by_cases hat : at' ≤ t
      · simp [hat]
      · simpa [hat] using hsize

omit [IsStrictOrderedRing F] in
theorem Call.dueBy_nonneg (hsize : 0 ≤ call.numTokens) :
    0 ≤ call.dueBy t := by
  rw [Call.dueBy]
  cases call.phase with
  | waiting notBefore => exact le_refl 0
  | paying due => exact ite_nonneg hsize (le_refl 0)
  | returned at' => exact ite_nonneg hsize (le_refl 0)

end Calls

section Refill

variable {bucket : AsyncTokenBucket F} {now : F}

omit [IsStrictOrderedRing F] in
theorem BucketConfig.capacity_pos (cfg : BucketConfig F) :
    0 < cfg.capacity := by
  rw [BucketConfig.capacity]
  cases hmax : cfg.maxTokens with
  | none => exact cfg.rate_pos
  | some m =>
      by_cases hzero : m = 0
      · simpa [hzero] using cfg.rate_pos
      · simpa [hzero] using
          lt_of_le_of_ne (cfg.max_nonneg m hmax) (Ne.symm hzero)

/-- When the bucket was last refilled; before the first call, when it was
created. -/
def AsyncTokenBucket.last (bucket : AsyncTokenBucket F) (created : F) : F :=
  bucket.lastUpdate.getD created

/-- Until the first call the bucket is full. -/
def AsyncTokenBucket.Fresh (cfg : BucketConfig F)
    (bucket : AsyncTokenBucket F) : Prop :=
  bucket.lastUpdate = none → bucket.tokens = cfg.capacity

/-- The refill counts from the last one on. -/
theorem tokens_refill (hfresh : bucket.Fresh cfg)
    (hnow : bucket.last created ≤ now) :
    (refill cfg bucket now).tokens = min cfg.capacity
      (bucket.tokens + (now - bucket.last created) * cfg.rateLimit) := by
  rw [refill]
  cases hlast : bucket.lastUpdate with
  | none =>
      have hnonneg : 0 ≤ (now - bucket.last created) * cfg.rateLimit :=
        mul_nonneg (by linarith) cfg.rate_pos.le
      have hfull := hfresh hlast
      simp only [Option.getD_none, sub_self, zero_mul, add_zero]
      rw [hfull, min_self, min_eq_left (by linarith)]
  | some last => simp only [AsyncTokenBucket.last, hlast, Option.getD_some]

end Refill

/-- What holds between the turns: the calls have taken no more than the bucket
was given since it was created, no call is due before what was taken up to it
has flown in, and a debt is that of a call that still sleeps. -/
structure Sound (cfg : BucketConfig F) (created : F) (s : BucketState F) :
    Prop where
  size_nonneg : ∀ call ∈ s.calls, 0 ≤ call.numTokens
  tokens_le : s.bucket.tokens ≤ cfg.capacity
  fresh : s.bucket.Fresh cfg
  created_le : created ≤ s.bucket.last created
  last_le : s.bucket.last created ≤ s.clock
  taken_le : taken s.calls + s.bucket.tokens ≤
    cfg.capacity + cfg.rateLimit * (s.bucket.last created - created)
  due_le : ∀ t, created ≤ t →
    dueBy t s.calls ≤ cfg.capacity + cfg.rateLimit * (t - created)
  solvent : ∀ t, s.clock ≤ t → PaidBy t s.calls →
    0 ≤ s.bucket.tokens + (t - s.bucket.last created) * cfg.rateLimit

theorem sound_initial : Sound cfg created (bucketSystem cfg created).initial := by
  have hcapacity := cfg.capacity_pos
  refine ⟨by simp [bucketSystem], le_refl _, fun _ => rfl, le_refl _,
    le_refl _, ?_, fun t ht => ?_, fun t ht _ => ?_⟩
  · simp [bucketSystem, taken, AsyncTokenBucket.last]
  · have hgiven := mul_nonneg cfg.rate_pos.le (sub_nonneg.mpr ht)
    simp only [bucketSystem, dueBy, List.map_nil, List.sum_nil]
    linarith
  · have hgiven := mul_nonneg (sub_nonneg.mpr ht) cfg.rate_pos.le
    change 0 ≤ cfg.capacity + (t - created) * cfg.rateLimit
    change 0 ≤ (t - created) * cfg.rateLimit at hgiven
    linarith

section Steps

variable {s s' : BucketState F} {now : F} {k : Nat} {call : Call F}

omit [IsStrictOrderedRing F] in
theorem sound_call (hsound : Sound cfg created s) {numTokens : F}
    (hsize : 0 ≤ numTokens) :
    Sound cfg created
      { s with calls := s.calls ++ [⟨numTokens, .waiting s.clock⟩] } where
  size_nonneg := by
    intro call hcall
    rcases List.mem_append.mp hcall with hmem | hnew
    · exact hsound.size_nonneg call hmem
    · rw [List.mem_singleton.mp hnew]
      exact hsize
  tokens_le := hsound.tokens_le
  fresh := hsound.fresh
  created_le := hsound.created_le
  last_le := hsound.last_le
  taken_le := by
    simpa [taken, Call.taken] using hsound.taken_le
  due_le t ht := by
    simpa [dueBy, Call.dueBy] using hsound.due_le t ht
  solvent t ht hpaid := by
    apply hsound.solvent t ht
    intro call hcall
    exact hpaid call (List.mem_append_left _ hcall)

/-- The call takes its tokens; it may return at `due`, when what it took beyond
the bucket has flown in. -/
theorem sound_take (hsound : Sound cfg created s) (hnow : s.clock ≤ now)
    (hcall : s.calls[k]? = some call) (htaken : call.taken = 0) {phase : Phase F}
    {due : F} (htakes : Call.taken ⟨call.numTokens, phase⟩ = call.numTokens)
    (hdueBy : ∀ t, Call.dueBy t ⟨call.numTokens, phase⟩ =
      if due ≤ t then call.numTokens else 0)
    (hsleeps : ∀ t, now ≤ t → (∀ d, phase = .paying d → d ≤ t) → due ≤ t)
    (hpaid : 0 ≤ (refill cfg s.bucket now).tokens - call.numTokens +
      (due - now) * cfg.rateLimit) :
    Sound cfg created ⟨now,
      ⟨(refill cfg s.bucket now).tokens - call.numTokens, some now⟩,
      s.calls.set k { call with phase }⟩ := by
  have hmem := List.mem_of_getElem? hcall
  have hsize := hsound.size_nonneg call hmem
  have hlast := hsound.last_le.trans hnow
  have htokens := tokens_refill hsound.fresh hlast
  have hcapacity : (refill cfg s.bucket now).tokens ≤ cfg.capacity := by
    rw [htokens]
    exact min_le_left _ _
  have hgrown : (refill cfg s.bucket now).tokens ≤ s.bucket.tokens +
      (now - s.bucket.last created) * cfg.rateLimit := by
    rw [htokens]
    exact min_le_right _ _
  have htotal : taken (s.calls.set k { call with phase }) =
      taken s.calls + call.numTokens := by
    rw [taken, sum_map_set _ hcall, htakes, htaken, sub_zero]
    rfl
  have hbound : taken s.calls + (refill cfg s.bucket now).tokens ≤
      cfg.capacity + cfg.rateLimit * (now - created) := by
    have hsum := hsound.taken_le
    linarith
  have hsizes : ∀ other ∈ s.calls.set k { call with phase },
      0 ≤ other.numTokens := forall_mem_set hsound.size_nonneg hsize
  refine ⟨hsizes, by linarith, by simp [AsyncTokenBucket.Fresh],
    hsound.created_le.trans hlast, le_refl _, ?_, fun t ht => ?_,
    fun t ht hpaidBy => ?_⟩
  · rw [htotal]
    change taken s.calls + call.numTokens +
      ((refill cfg s.bucket now).tokens - call.numTokens) ≤
        cfg.capacity + cfg.rateLimit * (now - created)
    linarith
  · by_cases hdue : due ≤ t
    · have hle : dueBy t (s.calls.set k { call with phase }) ≤
          taken (s.calls.set k { call with phase }) :=
        List.sum_le_sum fun other hother =>
          Call.dueBy_le_taken (hsizes other hother)
      have hflown : (due - now) * cfg.rateLimit ≤ (t - now) * cfg.rateLimit :=
        mul_le_mul_of_nonneg_right (by linarith) cfg.rate_pos.le
      rw [htotal] at hle
      change dueBy t (s.calls.set k { call with phase }) ≤ _
      linarith
    · have hold : 0 ≤ call.dueBy t := Call.dueBy_nonneg hsize
      have hsum := hsound.due_le t ht
      change dueBy t (s.calls.set k { call with phase }) ≤ _
      rw [dueBy, sum_map_set _ hcall, hdueBy, if_neg hdue]
      change dueBy t s.calls + (0 - call.dueBy t) ≤ _
      linarith
  · have hle := hsleeps t ht (by
      intro d hd
      exact hpaidBy { call with phase } (List.mem_set
        (List.getElem?_eq_some_iff.mp hcall).1 _) d hd)
    have hflown : (due - now) * cfg.rateLimit ≤ (t - now) * cfg.rateLimit :=
      mul_le_mul_of_nonneg_right (by linarith) cfg.rate_pos.le
    change 0 ≤ (refill cfg s.bucket now).tokens - call.numTokens +
      (t - now) * cfg.rateLimit
    linarith

/-- The call finds too few tokens and goes to sleep; only the refill is left
of its turn. -/
theorem sound_wait (hsound : Sound cfg created s) (hnow : s.clock ≤ now)
    (hcall : s.calls[k]? = some call) {notBefore later : F}
    (hphase : call.phase = .waiting notBefore) :
    Sound cfg created ⟨now, refill cfg s.bucket now,
      s.calls.set k { call with phase := .waiting later }⟩ := by
  have hlast := hsound.last_le.trans hnow
  have htokens := tokens_refill hsound.fresh hlast
  have htaken : taken (s.calls.set k { call with phase := .waiting later }) =
      taken s.calls := by
    rw [taken, sum_map_set _ hcall]
    simp [Call.taken, hphase, taken]
  have hdueBy : ∀ t, dueBy t (s.calls.set k
      { call with phase := .waiting later }) = dueBy t s.calls := by
    intro t
    rw [dueBy, sum_map_set _ hcall]
    simp [Call.dueBy, hphase, dueBy]
  refine ⟨forall_mem_set hsound.size_nonneg
      (hsound.size_nonneg call (List.mem_of_getElem? hcall)), ?_,
    by simp [AsyncTokenBucket.Fresh, refill], hsound.created_le.trans hlast,
    le_refl _, ?_, fun t ht => ?_, fun t ht hpaid => ?_⟩
  · exact min_le_left _ _
  · have hsum := hsound.taken_le
    have hgrown : (refill cfg s.bucket now).tokens ≤ s.bucket.tokens +
        (now - s.bucket.last created) * cfg.rateLimit := by
      rw [htokens]
      exact min_le_right _ _
    rw [htaken]
    change taken s.calls + (refill cfg s.bucket now).tokens ≤
      cfg.capacity + cfg.rateLimit * (now - created)
    linarith
  · rw [hdueBy]
    exact hsound.due_le t ht
  · have hold := hsound.solvent t (hnow.trans ht)
      (paidBy_of_set hcall hpaid (by simp [hphase]))
    have hgiven := mul_nonneg (sub_nonneg.mpr ht) cfg.rate_pos.le
    change 0 ≤ (refill cfg s.bucket now).tokens + (t - now) * cfg.rateLimit
    rw [htokens]
    have hcapacity := cfg.capacity_pos
    rcases le_total cfg.capacity (s.bucket.tokens +
        (now - s.bucket.last created) * cfg.rateLimit) with hle | hle
    · rw [min_eq_left hle]
      linarith
    · rw [min_eq_right hle]
      linarith

/-- The call wakes up after its tokens have flown in. -/
theorem sound_return (hsound : Sound cfg created s) (hnow : s.clock ≤ now)
    (hcall : s.calls[k]? = some call) {due : F}
    (hphase : call.phase = .paying due) (hdue : due ≤ now) :
    Sound cfg created ⟨now, s.bucket,
      s.calls.set k { call with phase := .returned now }⟩ := by
  have hsize := hsound.size_nonneg call (List.mem_of_getElem? hcall)
  have htaken : taken (s.calls.set k { call with phase := .returned now }) =
      taken s.calls := by
    rw [taken, sum_map_set _ hcall]
    simp [Call.taken, hphase, taken]
  refine ⟨forall_mem_set hsound.size_nonneg hsize, hsound.tokens_le,
    hsound.fresh, hsound.created_le, hsound.last_le.trans hnow, ?_,
    fun t ht => ?_, fun t ht hpaid => ?_⟩
  · rw [htaken]
    exact hsound.taken_le
  · have hless : Call.dueBy t { call with phase := .returned now } ≤
        call.dueBy t := by
      rw [Call.dueBy, Call.dueBy, hphase]
      by_cases hreturned : now ≤ t
      · simp [hreturned, hdue.trans hreturned]
      · by_cases hpaid : due ≤ t
        · simpa [hreturned, hpaid] using hsize
        · simp [hreturned, hpaid]
    have hsum := hsound.due_le t ht
    change dueBy t (s.calls.set k _) ≤ _
    rw [dueBy, sum_map_set _ hcall]
    change dueBy t s.calls + _ ≤ _
    linarith
  · apply hsound.solvent t (hnow.trans ht)
    apply paidBy_of_set hcall hpaid
    intro d hd
    rw [hphase] at hd
    cases hd
    exact hdue.trans ht

/-- Every turn keeps the bucket sound. -/
theorem sound_turn (hsound : Sound cfg created s) (hnow : s.clock ≤ now)
    (hcall : s.calls[k]? = some call) {bucket : AsyncTokenBucket F}
    {phase : Phase F}
    (hturn : turnOf cfg s.bucket call now = some (bucket, phase)) :
    Sound cfg created
      ⟨now, bucket, s.calls.set k { call with phase }⟩ := by
  rw [turnOf] at hturn
  cases hphase : call.phase with
  | returned at' =>
      rw [hphase] at hturn
      cases hturn
  | paying due =>
      simp only [hphase] at hturn
      split at hturn
      · rename_i hdue
        cases hturn
        exact sound_return hsound hnow hcall hphase hdue
      · cases hturn
  | waiting notBefore =>
      have htaken : call.taken = 0 := by rw [Call.taken, hphase]
      simp only [hphase] at hturn
      split at hturn
      · split at hturn
        · -- above the capacity: the tokens are taken before the sleep
          rename_i hlarge
          have hrate := cfg.rate_pos
          have hneeded : call.numTokens - (refill cfg s.bucket now).tokens >
              0 := by
            have hcapacity : (refill cfg s.bucket now).tokens ≤
                cfg.capacity := min_le_left _ _
            linarith
          have hwait : (call.numTokens - (refill cfg s.bucket now).tokens) /
              cfg.rateLimit > 0 := div_pos hneeded hrate
          simp only [acquireLarge, if_pos hneeded, if_pos hwait,
            Option.some.injEq, Prod.mk.injEq] at hturn
          obtain ⟨rfl, rfl⟩ := hturn
          apply sound_take hsound hnow hcall htaken rfl (fun t => rfl)
          · intro t _ hsleeps
            exact hsleeps _ rfl
          · rw [add_sub_cancel_left, div_mul_cancel₀ _ hrate.ne']
            linarith
        · rw [acquireStandard] at hturn
          by_cases henough :
              (refill cfg s.bucket now).tokens ≥ call.numTokens
          · simp only [if_pos henough, Option.some.injEq, Prod.mk.injEq]
              at hturn
            obtain ⟨rfl, rfl⟩ := hturn
            apply sound_take hsound hnow hcall htaken rfl (fun t => rfl)
              (fun t ht _ => ht)
            linarith
          · simp only [if_neg henough, Option.some.injEq, Prod.mk.injEq]
              at hturn
            obtain ⟨rfl, rfl⟩ := hturn
            exact sound_wait hsound hnow hcall hphase
      · cases hturn

theorem sound_step {action : BucketAction F} (hsound : Sound cfg created s)
    (hstep : bucketStep cfg s action = some s') : Sound cfg created s' := by
  cases action with
  | call numTokens =>
      rw [bucketStep] at hstep
      split at hstep
      · rename_i hsize
        cases hstep
        exact sound_call hsound hsize
      · cases hstep
  | turn k now =>
      rw [bucketStep] at hstep
      split at hstep
      · rename_i hnow
        split at hstep
        · cases hstep
        · rename_i call hcall
          obtain ⟨⟨bucket, phase⟩, hturn, rfl⟩ := Option.map_eq_some_iff.mp hstep
          exact sound_turn hsound hnow hcall hturn
      · cases hstep

end Steps

/-- In every run the calls that have returned by any time were granted no more
than the rate allows, the bucket never holds more than its capacity, and it
owes nothing once the calls above the capacity have waited. -/
theorem run_rateBound (cfg : BucketConfig F) {created : F}
    {actions : List (BucketAction F)} {s : BucketState F}
    (hrun : (bucketSystem cfg created).exec (bucketSystem cfg created).initial
      actions = some s) :
    (∀ t, created ≤ t →
      grantedBy t s.calls ≤ cfg.capacity + cfg.rateLimit * (t - created)) ∧
    s.bucket.tokens ≤ cfg.capacity ∧
    ∀ now, s.clock ≤ now → PaidBy now s.calls →
      0 ≤ (refill cfg s.bucket now).tokens := by
  have hsound : Sound cfg created s :=
    System.invariant (fun _ _ _ => sound_step) sound_initial hrun
  refine ⟨fun t ht => ?_, hsound.tokens_le, fun now hnow hpaid => ?_⟩
  · calc grantedBy t s.calls
        ≤ dueBy t s.calls := List.sum_le_sum fun call hcall =>
          Call.grantedBy_le_dueBy (hsound.size_nonneg call hcall)
      _ ≤ cfg.capacity + cfg.rateLimit * (t - created) := hsound.due_le t ht
  · rw [tokens_refill hsound.fresh (hsound.last_le.trans hnow)]
    exact le_min cfg.capacity_pos.le (hsound.solvent now hnow hpaid)

section Runs

/-- One token a second, one token at most. -/
def oneToken : BucketConfig ℚ where
  rateLimit := 1
  maxTokens := none
  rate_pos := one_pos
  max_nonneg := by simp

theorem run_rateBound_three :
    ∃ s, (bucketSystem oneToken 0).exec (bucketSystem oneToken 0).initial
        [.call 1, .call 2, .turn 0 0, .turn 1 1, .turn 1 2] = some s ∧
      grantedBy 2 s.calls ≤ 3 ∧ s.bucket.tokens ≤ 1 := by
  obtain ⟨s, hs⟩ : ∃ s, (bucketSystem oneToken 0).exec
      (bucketSystem oneToken 0).initial
        [.call 1, .call 2, .turn 0 0, .turn 1 1, .turn 1 2] = some s :=
    Option.isSome_iff_exists.mp (by decide +kernel)
  obtain ⟨hgranted, htokens, -⟩ := run_rateBound oneToken hs
  refine ⟨s, hs, (hgranted 2 (by norm_num)).trans ?_, htokens⟩
  simp only [BucketConfig.capacity, oneToken]
  norm_num

/-- A call for two tokens leaves the bucket with -1. -/
theorem tokens_neg_of_large :
    ∃ s, (bucketSystem oneToken 0).exec (bucketSystem oneToken 0).initial
        [.call 2, .turn 0 0] = some s ∧ s.bucket.tokens = -1 ∧
      ¬ 0 ≤ s.bucket.tokens := by
  refine ⟨⟨0, ⟨-1, some 0⟩, [⟨2, .paying 1⟩]⟩, ?_, rfl, by norm_num⟩
  decide +kernel

end Runs

end TokenBucket

end SelfDistillation
