import FinHub.Lib.Table
import FinHub.MarketApi.CircuitBreaker

/-!
# FinHub.MarketApi.Requests

The requests that ask the breaker: `_request` and `health_check` of `services/api_client.py`, `_get` and
`_post` of `services/macro_client.py`.

An event is what happens under one lock of a breaker, or one HTTP attempt; requests are interleaved at will.
A request leaves its loop with an outcome to record, or without one: `FailsFast` says which attempts do that,
and `recorded_iff` that nothing else does.

* `outcomesKept_event`: what one event keeps.
* `recorded_iff`: over every run, each granted request has recorded one outcome exactly if no attempt fails
  fast, and then no circuit is half open without a request in flight.
* `halfOpen_stuck`: a circuit that is half open without a request in flight stays so and denies every request.
-/

namespace FinHub

open Tabular Trace

structure ResilienceConfig where
  retryAttempts : ℤ
  circuitFailureThreshold : ℤ
  circuitCooldownSeconds : ℚ

/-- Who sends the request. -/
inductive RequestKind where
  | request (path : String)
  | healthCheck
  | get (path : String)
  | post (path : String)
  deriving DecidableEq

/-- What one HTTP attempt comes to. -/
inductive Attempt where
  | success (decodes : Bool)
  | transportError (typeName : String) (timeout : Bool)
  | status (code : ℕ)
  | otherException
  deriving DecidableEq

inductive RequestError where
  | marketApiUnavailable (message : String)
  | marketApiNotFound (message : String)
  | marketApiError (code : ℕ)
  | macroUnavailable (message : String)
  | macroClientError (message : String)
  | decodeError
  | otherException
  deriving DecidableEq

inductive RequestResult where
  | returned
  | healthy (answer : Bool)
  | raised (e : RequestError)
  deriving DecidableEq

/-- What an attempt makes of its request: another attempt, an outcome to record, or neither. -/
inductive Reaction where
  | retry
  | record (success : Bool) (result : RequestResult)
  | leave (result : RequestResult)
  deriving DecidableEq

/-- 5xx and 429. -/
def shouldRetryHttp (status_code : ℕ) : Bool := decide (500 ≤ status_code) || decide (status_code = 429)

/-! ## The loops -/

/-- One pass through the loop of `_request`. -/
def requestReaction (path : String) (attempts attempt : ℕ) : Attempt → Reaction
  | .success decodes => .record true (if decodes then .returned else .raised .decodeError)
  | .transportError _ timeout =>
    if attempt < attempts then .retry
    else
      .record false (.raised (.marketApiUnavailable
        (if timeout then "Market API request timed out" else "Cannot connect to Market API")))
  | .status code =>
    if code = 404 then .leave (.raised (.marketApiNotFound s!"Resource not found: {path}"))
    else if shouldRetryHttp code then
      if attempt < attempts then .retry else .record false (.raised (.marketApiError code))
    else .leave (.raised (.marketApiError code))
  | .otherException => .leave (.raised .otherException)

/-- One pass through the loop of `_get` and `_post`, by the text of a transport error. -/
def macroReaction (unreachable : String → String) (path : String) (attempts attempt : ℕ) : Attempt → Reaction
  | .success _ => .record true .returned
  | .transportError type_name _ =>
    if attempt < attempts then .retry
    else .record false (.raised (.macroUnavailable (unreachable type_name)))
  | .status code =>
    if shouldRetryHttp code ∧ attempt < attempts then .retry
    else if shouldRetryHttp code then
      .record false (.raised (.macroClientError s!"macro provider error {code} for {path}"))
    else .leave (.raised (.macroClientError s!"macro provider error {code} for {path}"))
  | .otherException => .leave (.raised .otherException)

def getReaction (base_url : String) : String → ℕ → ℕ → Attempt → Reaction :=
  macroReaction fun type_name => s!"cannot reach {base_url}: {type_name}"

def postReaction (base_url : String) : String → ℕ → ℕ → Attempt → Reaction :=
  macroReaction fun _ => s!"cannot reach {base_url}"

/-- `health_check` makes one attempt and catches every exception. -/
def healthReaction : Attempt → Reaction
  | .success _ => .record true (.healthy true)
  | _ => .record false (.healthy false)

def react (base_url : String) (attempts attempt : ℕ) (a : Attempt) : RequestKind → Reaction
  | .request path => requestReaction path attempts attempt a
  | .healthCheck => healthReaction a
  | .get path => getReaction base_url path attempts attempt a
  | .post path => postReaction base_url path attempts attempt a

/-- What a request that is not granted comes to. -/
def deniedResult (base_url : String) : RequestKind → RequestResult
  | .request _ => .raised (.marketApiUnavailable "Market API is unavailable (circuit open)")
  | .healthCheck => .healthy false
  | .get _ | .post _ => .raised (.macroUnavailable s!"macro provider {base_url} unavailable (circuit open)")

/-- A status that is not retried, or an exception that is not caught. -/
def FailsFast (kind : RequestKind) (a : Attempt) : Prop :=
  kind ≠ .healthCheck ∧
    ((∃ code, a = .status code ∧ shouldRetryHttp code = false) ∨ a = .otherException)

/-- Nothing else leaves a loop without an outcome. -/
theorem react_leave_iff (base_url : String) (attempts attempt : ℕ) (a : Attempt) (kind : RequestKind) :
    (∃ result, react base_url attempts attempt a kind = .leave result) ↔ FailsFast kind a := by
  have h404 : shouldRetryHttp 404 = false := by decide
  unfold FailsFast
  cases kind with
  | healthCheck => cases a <;> simp [react, healthReaction]
  | request path =>
    cases a with
    | success decodes => simp [react, requestReaction]
    | transportError type_name timeout =>
      simp only [react, requestReaction]
      split_ifs <;> simp
    | status code =>
      by_cases hcode : code = 404
      · simp [react, requestReaction, hcode, h404]
      · cases hretry : shouldRetryHttp code <;> simp [react, requestReaction, hcode, hretry]
        split_ifs <;> simp
    | otherException => simp [react, requestReaction]
  | get path | post path =>
    cases a with
    | success decodes => simp [react, getReaction, postReaction, macroReaction]
    | transportError type_name timeout =>
      simp only [react, getReaction, postReaction, macroReaction]
      split_ifs <;> simp
    | status code =>
      cases hretry : shouldRetryHttp code <;>
        simp [react, getReaction, postReaction, macroReaction, hretry]
      split_ifs <;> simp
    | otherException => simp [react, getReaction, postReaction, macroReaction]

/-! ## Interleaved requests -/

/-- Where a granted request stands. -/
inductive RequestPhase where
  | attempting (attempt : ℕ)
  | recording (success : Bool) (result : RequestResult)
  deriving DecidableEq

structure InFlight where
  baseUrl : String
  kind : RequestKind
  phase : RequestPhase
  recorded : ℕ
  deriving DecidableEq

/-- A request that has returned or raised. -/
structure Finished where
  baseUrl : String
  kind : RequestKind
  granted : Bool
  recorded : ℕ
  result : RequestResult
  deriving DecidableEq

structure ApiState where
  breakers : String → Option CircuitBreaker
  inFlight : Table InFlight
  finished : List Finished

/-- `get_breaker` and the answer of `allow_request`, one attempt of a request, one outcome of a request. -/
inductive ApiEvent where
  | issue (base_url : String) (kind : RequestKind) (now : ℚ)
  | attempt (id : ℕ) (a : Attempt)
  | record (id : ℕ) (now : ℚ) (nowIso : String)

def ApiState.start : ApiState where
  breakers _ := none
  inFlight := .empty
  finished := []

section

variable (config : ResilienceConfig)

/-- `get_breaker`. -/
def getBreaker (breakers : String → Option CircuitBreaker) (base_url : String) : CircuitBreaker :=
  (breakers base_url).getD (.create config.circuitFailureThreshold config.circuitCooldownSeconds)

/-- `max(1, config.market_api_retry_attempts)`. -/
def ResilienceConfig.attempts : ℕ := (max 1 config.retryAttempts).toNat

def recordOutcome (b : CircuitBreaker) (success : Bool) (now : ℚ) (now_iso : String) : CircuitBreaker :=
  if success then b.recordSuccess now_iso else b.recordFailure now

/-- The state after an event; an event of a request that is not there, or elsewhere, is none. -/
def ApiState.event (s : ApiState) : ApiEvent → ApiState
  | .issue base_url kind now =>
    let answer := (getBreaker config s.breakers base_url).allowRequest now
    let breakers := Function.update s.breakers base_url (some answer.2)
    if answer.1 then { s with breakers, inFlight := s.inFlight.insert ⟨base_url, kind, .attempting 1, 0⟩ }
    else
      { s with
        breakers
        finished := s.finished ++ [⟨base_url, kind, false, 0, deniedResult base_url kind⟩] }
  | .attempt id a =>
    match s.inFlight.get? id with
    | some ⟨base_url, kind, .attempting attempt, recorded⟩ =>
      match react base_url config.attempts attempt a kind with
      | .retry => { s with inFlight := s.inFlight.modify id fun r => { r with phase := .attempting (attempt + 1) } }
      | .record success result =>
        { s with inFlight := s.inFlight.modify id fun r => { r with phase := .recording success result } }
      | .leave result =>
        { s with
          inFlight := s.inFlight.erase id
          finished := s.finished ++ [⟨base_url, kind, true, recorded, result⟩] }
    | _ => s
  | .record id now now_iso =>
    match s.inFlight.get? id with
    | some ⟨base_url, kind, .recording success result, recorded⟩ =>
      { breakers := Function.update s.breakers base_url
          (some (recordOutcome (getBreaker config s.breakers base_url) success now now_iso))
        inFlight := s.inFlight.erase id
        finished := s.finished ++ [⟨base_url, kind, true, recorded + 1, result⟩] }
    | _ => s

end

/-- An attempt of a request in flight fails fast. -/
def FailsFastAt (t : Transition ApiState ApiEvent) : Prop :=
  ∃ id a r attempt, t.event = .attempt id a ∧ t.before.inFlight.get? id = some r ∧
    r.phase = .attempting attempt ∧ FailsFast r.kind a

/-- Every granted request that has returned or raised has recorded one outcome. -/
def ApiState.RecordsOne (s : ApiState) : Prop := ∀ f ∈ s.finished, f.granted = true → f.recorded = 1

/-- No request to the address is in flight. -/
def ApiState.Quiet (s : ApiState) (base_url : String) : Prop :=
  ∀ r ∈ s.inFlight.rows, r.2.baseUrl ≠ base_url

/-- A half-open circuit waits for a request in flight. -/
def ApiState.TrialInFlight (s : ApiState) : Prop :=
  ∀ base_url b, s.breakers base_url = some b → b.state = .halfOpen → ¬ s.Quiet base_url

/-! ## One event -/

section

variable {config : ResilienceConfig} {s : ApiState}

/-- No request in flight has recorded an outcome. -/
def ApiState.Unrecorded (s : ApiState) : Prop := ∀ r ∈ s.inFlight.rows, r.2.recorded = 0

/-- One more request is over. -/
theorem recordsOne_append {breakers : String → Option CircuitBreaker} {inFlight : Table InFlight} {f : Finished} :
    ApiState.RecordsOne ⟨breakers, inFlight, s.finished ++ [f]⟩ ↔
      s.RecordsOne ∧ (f.granted = true → f.recorded = 1) := by
  unfold ApiState.RecordsOne
  constructor
  · intro h
    refine ⟨?_, h f (by simp)⟩
    intro g hg
    exact h g (by simp [hg])
  · rintro ⟨hs, hf⟩ g hg
    rcases List.mem_append.mp hg with hg | hg
    · exact hs g hg
    · rw [List.mem_singleton.mp hg]
      exact hf

theorem unrecorded_modify (h : s.Unrecorded) {id : ℕ} {phase : RequestPhase} :
    ∀ r ∈ (s.inFlight.modify id fun r => { r with phase }).rows, r.2.recorded = 0 := by
  rintro ⟨j, r⟩ hr
  rcases Table.mem_modify.mp hr with ⟨_, hr⟩ | ⟨_, r', hr', hrr⟩
  · exact h _ hr
  · rw [← hrr]
    exact h (id, r') hr'

theorem unrecorded_erase (h : s.Unrecorded) {id : ℕ} : ∀ r ∈ (s.inFlight.erase id).rows, r.2.recorded = 0 := by
  intro r hr
  exact h r (Table.mem_erase.mp hr).1

variable (config) in
/-- A request ends without one outcome exactly if its attempt fails fast. -/
theorem recorded_event (h : s.Unrecorded) (e : ApiEvent) :
    (s.event config e).Unrecorded ∧
      ((s.event config e).RecordsOne ↔ s.RecordsOne ∧ ¬ FailsFastAt ⟨s, e, s.event config e⟩) := by
  cases e with
  | issue base_url kind now =>
    have hno : ¬ FailsFastAt ⟨s, .issue base_url kind now, s.event config (.issue base_url kind now)⟩ := by
      rintro ⟨id, a, r, attempt, he, _⟩
      cases he
    simp only [hno, not_false_iff, and_true]
    simp only [ApiState.event]
    split_ifs with hanswer
    · refine ⟨?_, by simp [ApiState.RecordsOne]⟩
      intro r hr
      rcases Table.mem_insert.mp hr with hr | hr
      · exact h r hr
      · rw [hr]
    · exact ⟨h, by rw [recordsOne_append]; simp⟩
  | attempt id a =>
    cases hr : s.inFlight.get? id with
    | none =>
      have hno : ¬ FailsFastAt ⟨s, .attempt id a, s⟩ := by
        rintro ⟨id', a', r, attempt, he, hfound, _⟩
        cases he
        rw [hr] at hfound
        cases hfound
      have hsame : s.event config (.attempt id a) = s := by simp [ApiState.event, hr]
      rw [hsame]
      exact ⟨h, by simp [hno]⟩
    | some r =>
      obtain ⟨base_url, kind, phase, recorded⟩ := r
      have hzero : recorded = 0 := h _ ((Table.get?_eq_some_iff _).mp hr)
      cases phase with
      | recording success result =>
        have hno : ¬ FailsFastAt ⟨s, .attempt id a, s⟩ := by
          rintro ⟨id', a', r, attempt, he, hfound, hphase, _⟩
          cases he
          rw [hr] at hfound
          cases hfound
          cases hphase
        have hsame : s.event config (.attempt id a) = s := by simp [ApiState.event, hr]
        rw [hsame]
        exact ⟨h, by simp [hno]⟩
      | attempting attempt =>
        have hfails : FailsFastAt ⟨s, .attempt id a, s.event config (.attempt id a)⟩ ↔
            ∃ result, react base_url config.attempts attempt a kind = .leave result := by
          rw [react_leave_iff]
          constructor
          · rintro ⟨id', a', r, attempt', he, hfound, hphase, hfast⟩
            cases he
            rw [hr] at hfound
            cases hfound
            exact hfast
          · intro hfast
            exact ⟨id, a, _, attempt, rfl, hr, rfl, hfast⟩
        rw [hfails]
        cases hreact : react base_url config.attempts attempt a kind with
        | retry =>
          simp only [ApiState.event, hr, hreact]
          exact ⟨unrecorded_modify h, by simp [ApiState.RecordsOne]⟩
        | record success result =>
          simp only [ApiState.event, hr, hreact]
          exact ⟨unrecorded_modify h, by simp [ApiState.RecordsOne]⟩
        | leave result =>
          simp only [ApiState.event, hr, hreact]
          refine ⟨unrecorded_erase h, ?_⟩
          rw [recordsOne_append]
          simp [hzero]
  | record id now now_iso =>
    have hno : ¬ FailsFastAt ⟨s, .record id now now_iso, s.event config (.record id now now_iso)⟩ := by
      rintro ⟨id', a, r, attempt, he, _⟩
      cases he
    cases hr : s.inFlight.get? id with
    | none =>
      have hsame : s.event config (.record id now now_iso) = s := by simp [ApiState.event, hr]
      rw [hsame] at hno ⊢
      exact ⟨h, by simp [hno]⟩
    | some r =>
      obtain ⟨base_url, kind, phase, recorded⟩ := r
      have hzero : recorded = 0 := h _ ((Table.get?_eq_some_iff _).mp hr)
      cases phase with
      | attempting attempt =>
        have hsame : s.event config (.record id now now_iso) = s := by simp [ApiState.event, hr]
        rw [hsame] at hno ⊢
        exact ⟨h, by simp [hno]⟩
      | recording success result =>
        simp only [hno, not_false_iff, and_true]
        simp only [ApiState.event, hr]
        refine ⟨unrecorded_erase h, ?_⟩
        rw [recordsOne_append]
        simp [hzero]

/-! ### The trial -/

/-- A grant that leaves the circuit half open is the trial. -/
theorem allowRequest_halfOpen {b : CircuitBreaker} {now : ℚ} (h : (b.allowRequest now).2.state = .halfOpen) :
    b.state = .halfOpen ∨ (b.allowRequest now).1 = true := by
  unfold CircuitBreaker.allowRequest at h ⊢
  cases hstate : b.state with
  | closed => simp
  | halfOpen => simp
  | open_ =>
    by_cases hlate : b.cooldownSeconds ≤ now - b.openedAt
    · simp [hlate]
    · simp [hstate, hlate] at h

/-- After an outcome the circuit is not half open. -/
theorem recordOutcome_state (b : CircuitBreaker) (success : Bool) (now : ℚ) (now_iso : String) :
    (recordOutcome b success now now_iso).state ≠ .halfOpen := by
  unfold recordOutcome CircuitBreaker.recordSuccess CircuitBreaker.recordFailure
  cases success <;> cases hstate : b.state <;> simp [hstate]
  split_ifs <;> simp

/-- The state of the breaker, of one that is not there yet too. -/
theorem getBreaker_halfOpen {base_url : String} (h : (getBreaker config s.breakers base_url).state = .halfOpen) :
    ∃ b, s.breakers base_url = some b ∧ b.state = .halfOpen := by
  unfold getBreaker at h
  cases hb : s.breakers base_url with
  | none =>
    rw [hb] at h
    cases h
  | some b =>
    rw [hb] at h
    exact ⟨b, rfl, h⟩

/-- Where requests are only rewritten in place, as many are in flight. -/
theorem quiet_modify {base_url : String} {id : ℕ} {phase : RequestPhase}
    {breakers : String → Option CircuitBreaker} {finished : List Finished} :
    ApiState.Quiet ⟨breakers, s.inFlight.modify id fun r => { r with phase }, finished⟩ base_url ↔
      s.Quiet base_url := by
  unfold ApiState.Quiet
  constructor
  · rintro h ⟨j, r⟩ hr
    by_cases hj : j = id
    · exact h (j, { r with phase }) (Table.mem_modify.mpr (.inr ⟨hj, r, hj ▸ hr, rfl⟩))
    · exact h (j, r) (Table.mem_modify.mpr (.inl ⟨hj, hr⟩))
  · rintro h ⟨j, r⟩ hr
    rcases Table.mem_modify.mp hr with ⟨_, hr⟩ | ⟨_, r', hr', hrr⟩
    · exact h _ hr
    · rw [← hrr]
      exact h (id, r') hr'

theorem trial_event (h : s.TrialInFlight) {e : ApiEvent} (hfast : ¬ FailsFastAt ⟨s, e, s.event config e⟩) :
    (s.event config e).TrialInFlight := by
  cases e with
  | issue base_url kind now =>
    intro base_url' b hb hstate
    simp only [ApiState.event] at hb ⊢
    -- the breakers after the answer, granted or not
    have hbreakers : Function.update s.breakers base_url
        (some ((getBreaker config s.breakers base_url).allowRequest now).2) base_url' = some b := by
      split_ifs at hb <;> exact hb
    by_cases hurl : base_url' = base_url
    · subst hurl
      rw [Function.update_self] at hbreakers
      have hhalf : ((getBreaker config s.breakers base_url').allowRequest now).2.state = .halfOpen := by
        rw [Option.some.inj hbreakers]
        exact hstate
      rcases allowRequest_halfOpen hhalf with hwas | hgranted
      · obtain ⟨b', hb', hstate'⟩ := getBreaker_halfOpen hwas
        intro hquiet
        refine h base_url' b' hb' hstate' ?_
        intro r hr
        split_ifs at hquiet
        · exact hquiet r (Table.mem_insert.mpr (.inl hr))
        · exact hquiet r hr
      · rw [if_pos hgranted]
        intro hquiet
        exact hquiet _ (Table.mem_insert.mpr (.inr rfl)) rfl
    · rw [Function.update_of_ne hurl] at hbreakers
      intro hquiet
      refine h base_url' b hbreakers hstate ?_
      intro r hr
      split_ifs at hquiet
      · exact hquiet r (Table.mem_insert.mpr (.inl hr))
      · exact hquiet r hr
  | attempt id a =>
    cases hr : s.inFlight.get? id with
    | none => simpa [ApiState.event, hr] using h
    | some r =>
      obtain ⟨base_url, kind, phase, recorded⟩ := r
      cases phase with
      | recording success result => simpa [ApiState.event, hr] using h
      | attempting attempt =>
        cases hreact : react base_url config.attempts attempt a kind with
        | retry =>
          simp only [ApiState.event, hr, hreact]
          intro base_url' b hb hstate
          rw [quiet_modify]
          exact h base_url' b hb hstate
        | record success result =>
          simp only [ApiState.event, hr, hreact]
          intro base_url' b hb hstate
          rw [quiet_modify]
          exact h base_url' b hb hstate
        | leave result =>
          exfalso
          exact hfast ⟨id, a, _, attempt, rfl, hr, rfl, (react_leave_iff _ _ _ _ _).mp ⟨result, hreact⟩⟩
  | record id now now_iso =>
    cases hr : s.inFlight.get? id with
    | none => simpa [ApiState.event, hr] using h
    | some r =>
      obtain ⟨base_url, kind, phase, recorded⟩ := r
      cases phase with
      | attempting attempt => simpa [ApiState.event, hr] using h
      | recording success result =>
        simp only [ApiState.event, hr]
        intro base_url' b hb hstate
        dsimp only at hb
        by_cases hurl : base_url' = base_url
        · subst hurl
          exfalso
          rw [Function.update_self] at hb
          exact recordOutcome_state _ _ _ _ (Option.some.inj hb ▸ hstate)
        · rw [Function.update_of_ne hurl] at hb
          intro hquiet
          refine h base_url' b hb hstate ?_
          rintro ⟨j, r'⟩ hr'
          by_cases hj : j = id
          · -- the request that recorded is of another address
            subst hj
            rw [Table.unique _ hr' ((Table.get?_eq_some_iff _).mp hr)]
            exact fun he => hurl he.symm
          · exact hquiet _ (Table.mem_erase.mpr ⟨hr', hj⟩)

end

/-! ## Every run -/

/-- What a run keeps: whether an attempt has failed fast is seen in the outcomes. -/
structure OutcomesKept (trace : List (Transition ApiState ApiEvent)) (s : ApiState) : Prop where
  unrecorded : s.Unrecorded
  recordsOne : s.RecordsOne ↔ ∀ t ∈ trace, ¬ FailsFastAt t
  trial : (∀ t ∈ trace, ¬ FailsFastAt t) → s.TrialInFlight

theorem outcomesKept_start : OutcomesKept [] .start where
  unrecorded := by
    intro r hr
    cases hr
  recordsOne := by simp [ApiState.RecordsOne, ApiState.start]
  trial := by
    intro _ base_url b hb
    cases hb

theorem outcomesKept_event {config : ResilienceConfig} {trace : List (Transition ApiState ApiEvent)}
    {s : ApiState} (h : OutcomesKept trace s) (e : ApiEvent) :
    OutcomesKept (trace ++ [⟨s, e, s.event config e⟩]) (s.event config e) := by
  obtain ⟨hunrecorded, hone⟩ := recorded_event config h.unrecorded e
  refine ⟨hunrecorded, ?_, ?_⟩
  · rw [hone, h.recordsOne]
    simp [or_imp, forall_and]
  · intro hnone
    have hbefore : ∀ t ∈ trace, ¬ FailsFastAt t := fun t ht => hnone t (List.mem_append_left _ ht)
    exact trial_event (h.trial hbefore) (hnone _ (by simp))

section

variable {config : ResilienceConfig} {s : ApiState} {base_url : String} {b : CircuitBreaker}

variable (config) in
/-- A circuit that is half open without a request in flight keeps its state. -/
theorem stuck_event (hb : s.breakers base_url = some b) (hstate : b.state = .halfOpen)
    (hquiet : s.Quiet base_url) (e : ApiEvent) :
    (s.event config e).breakers base_url = some b ∧ (s.event config e).Quiet base_url := by
  cases e with
  | issue base_url' kind now =>
    by_cases hurl : base_url' = base_url
    · subst hurl
      have hdenied : (getBreaker config s.breakers base_url').allowRequest now = (false, b) := by
        simp [getBreaker, hb, CircuitBreaker.allowRequest, hstate]
      simp only [ApiState.event, hdenied]
      exact ⟨by simp, hquiet⟩
    · simp only [ApiState.event]
      split_ifs
      · refine ⟨by simpa [Function.update_of_ne (Ne.symm hurl)] using hb, ?_⟩
        intro r hr
        rcases Table.mem_insert.mp hr with hr | hr
        · exact hquiet r hr
        · rw [hr]
          exact hurl
      · exact ⟨by simpa [Function.update_of_ne (Ne.symm hurl)] using hb, hquiet⟩
  | attempt id a =>
    cases hr : s.inFlight.get? id with
    | none => simpa [ApiState.event, hr] using ⟨hb, hquiet⟩
    | some r =>
      obtain ⟨base_url', kind, phase, recorded⟩ := r
      cases phase with
      | recording success result => simpa [ApiState.event, hr] using ⟨hb, hquiet⟩
      | attempting attempt =>
        cases hreact : react base_url' config.attempts attempt a kind with
        | retry =>
          simp only [ApiState.event, hr, hreact]
          exact ⟨hb, quiet_modify.mpr hquiet⟩
        | record success result =>
          simp only [ApiState.event, hr, hreact]
          exact ⟨hb, quiet_modify.mpr hquiet⟩
        | leave result =>
          simp only [ApiState.event, hr, hreact]
          exact ⟨hb, fun r' hr' => hquiet r' (Table.mem_erase.mp hr').1⟩
  | record id now now_iso =>
    cases hr : s.inFlight.get? id with
    | none => simpa [ApiState.event, hr] using ⟨hb, hquiet⟩
    | some r =>
      obtain ⟨base_url', kind, phase, recorded⟩ := r
      cases phase with
      | attempting attempt => simpa [ApiState.event, hr] using ⟨hb, hquiet⟩
      | recording success result =>
        have hurl : base_url ≠ base_url' := fun he => hquiet _ ((Table.get?_eq_some_iff _).mp hr) he.symm
        simp only [ApiState.event, hr]
        refine ⟨by simpa [Function.update_of_ne hurl] using hb, ?_⟩
        intro r' hr'
        exact hquiet r' (Table.mem_erase.mp hr').1

/-- It denies every later request. -/
theorem halfOpen_stuck (hb : s.breakers base_url = some b) (hstate : b.state = .halfOpen)
    (hquiet : s.Quiet base_url) (events : List ApiEvent) (now : ℚ) :
    ((getBreaker config (after (ApiState.event config) s events).breakers base_url).allowRequest now).1 =
      false := by
  have hkept : (after (ApiState.event config) s events).breakers base_url = some b ∧
      (after (ApiState.event config) s events).Quiet base_url :=
    after_keeps (P := fun s : ApiState => s.breakers base_url = some b ∧ s.Quiet base_url) ⟨hb, hquiet⟩
      fun _ e _ h => stuck_event config h.1 hstate h.2 e
  simp [getBreaker, hkept.1, CircuitBreaker.allowRequest, hstate]

end

namespace Sample

def oneAttempt : ResilienceConfig := ⟨1, 1, 60⟩

/-- A failure opens the circuit; the trial after the cooldown asks for a symbol that does not exist. -/
def missingSymbol : List ApiEvent :=
  [.issue "http://market-api" (.request "/symbol/AAPL") 0, .attempt 0 (.transportError "ConnectError" false),
    .record 0 1 "2025-01-01T00:00:01+00:00", .issue "http://market-api" (.request "/symbol/NOPE") 61,
    .attempt 1 (.status 404)]

def afterMissingSymbol : ApiState := after (ApiState.event oneAttempt) .start missingSymbol

end Sample

end FinHub
