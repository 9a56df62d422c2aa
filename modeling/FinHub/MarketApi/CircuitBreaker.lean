import FinHub.Lib.Trace
import Mathlib.Algebra.Order.Ring.Rat
import Mathlib.Tactic.Linarith

/-!
# FinHub.MarketApi.CircuitBreaker

The circuit breaker of `services/api_resilience.py`.

Every method holds the lock, so an interleaving of callers is a list of calls, each with the reading of the
monotonic clock it takes. `grant_discipline` is what holds over every such list.

* `open_stays`: before the cooldown is over no call leaves `OPEN`.
* `grants_le`: while no state is entered, at most one request is granted outside `CLOSED`.
* `failures_counted`: in `CLOSED` the counter is below the threshold and counts the failures since the last
  reset.
-/

namespace FinHub

open Trace

inductive CircuitState where
  | closed | open_ | halfOpen
  deriving DecidableEq

structure CircuitBreaker where
  failureThreshold : ℕ
  cooldownSeconds : ℚ
  state : CircuitState
  consecutiveFailures : ℕ
  openedAt : ℚ
  lastSuccessAt : Option String
  threshold_pos : 1 ≤ failureThreshold

/-- A call with the reading of the clock; `nowIso` is the time that a success is noted with. -/
inductive BreakerMethod where
  | allowRequest
  | canProceed
  | recordSuccess (nowIso : String)
  | recordFailure
  deriving DecidableEq

structure BreakerCall where
  method : BreakerMethod
  now : ℚ
  deriving DecidableEq

namespace CircuitBreaker

/-- `__init__`: the threshold is at least 1. -/
def create (failure_threshold : ℤ) (cooldown_seconds : ℚ) : CircuitBreaker where
  failureThreshold := (max 1 failure_threshold).toNat
  cooldownSeconds := cooldown_seconds
  state := .closed
  consecutiveFailures := 0
  openedAt := 0
  lastSuccessAt := none
  threshold_pos := by omega

def allowRequest (b : CircuitBreaker) (now : ℚ) : Bool × CircuitBreaker :=
  match b.state with
  | .closed => (true, b)
  | .open_ => if b.cooldownSeconds ≤ now - b.openedAt then (true, { b with state := .halfOpen }) else (false, b)
  | .halfOpen => (false, b)

def canProceed (b : CircuitBreaker) (now : ℚ) : Bool :=
  match b.state with
  | .closed => true
  | .open_ => decide (b.cooldownSeconds ≤ now - b.openedAt)
  | .halfOpen => false

def recordSuccess (b : CircuitBreaker) (now_iso : String) : CircuitBreaker :=
  { b with
    consecutiveFailures := 0
    lastSuccessAt := some now_iso
    state := if b.state = .halfOpen then .closed else b.state }

def recordFailure (b : CircuitBreaker) (now : ℚ) : CircuitBreaker :=
  match b.state with
  | .closed =>
    if b.failureThreshold ≤ b.consecutiveFailures + 1 then
      { b with consecutiveFailures := b.consecutiveFailures + 1, state := .open_, openedAt := now }
    else { b with consecutiveFailures := b.consecutiveFailures + 1 }
  | .halfOpen => { b with consecutiveFailures := 0, state := .open_, openedAt := now }
  | .open_ => b

/-- The state after a call. -/
def call (b : CircuitBreaker) (c : BreakerCall) : CircuitBreaker :=
  match c.method with
  | .allowRequest => (b.allowRequest c.now).2
  | .canProceed => b
  | .recordSuccess now_iso => b.recordSuccess now_iso
  | .recordFailure => b.recordFailure c.now

/-- The answer of a call; the record methods have none. -/
def answer (b : CircuitBreaker) (c : BreakerCall) : Option Bool :=
  match c.method with
  | .allowRequest => some (b.allowRequest c.now).1
  | .canProceed => some (b.canProceed c.now)
  | .recordSuccess _ => none
  | .recordFailure => none

/-- The answers of a run. -/
def answers (b : CircuitBreaker) (cs : List BreakerCall) : List (Option Bool) :=
  (transitions call b cs).map fun t => t.before.answer t.event

end CircuitBreaker

abbrev BreakerStep := Transition CircuitBreaker BreakerCall

namespace BreakerStep

/-- The call enters a state. -/
def Enters (t : BreakerStep) (state : CircuitState) : Prop := t.before.state ≠ state ∧ t.after.state = state

instance (t : BreakerStep) (state : CircuitState) : Decidable (t.Enters state) := by
  unfold Enters
  infer_instance

/-- A request is granted. -/
def grants (t : BreakerStep) : Bool :=
  decide (t.event.method = .allowRequest) && decide (t.before.answer t.event = some true)

def grantsUnclosed (t : BreakerStep) : Bool := t.grants && decide (t.before.state ≠ .closed)

def isFailure (t : BreakerStep) : Bool := decide (t.event.method = .recordFailure)

def isSuccess (t : BreakerStep) : Bool :=
  match t.event.method with
  | .recordSuccess _ => true
  | _ => false

/-- A recorded success, or a closing. -/
def resets (t : BreakerStep) : Bool := t.isSuccess || decide (t.Enters .closed)

end BreakerStep

namespace CircuitBreaker

variable {b : CircuitBreaker} {c : BreakerCall}

/-! ## What a call does -/

@[simp] theorem call_failureThreshold (b : CircuitBreaker) (c : BreakerCall) :
    (b.call c).failureThreshold = b.failureThreshold := by
  unfold call allowRequest recordSuccess recordFailure
  cases c.method <;> cases b.state <;> simp only <;> split_ifs <;> rfl

@[simp] theorem call_cooldownSeconds (b : CircuitBreaker) (c : BreakerCall) :
    (b.call c).cooldownSeconds = b.cooldownSeconds := by
  unfold call allowRequest recordSuccess recordFailure
  cases c.method <;> cases b.state <;> simp only <;> split_ifs <;> rfl

/-- The peek tells what a request would be answered. -/
theorem canProceed_eq (b : CircuitBreaker) (now : ℚ) : b.canProceed now = (b.allowRequest now).1 := by
  unfold canProceed allowRequest
  cases b.state with
  | closed => rfl
  | open_ =>
    by_cases h : b.cooldownSeconds ≤ now - b.openedAt
    · simp [h]
    · simp [h]
  | halfOpen => rfl

/-! ## Open -/

/-- Before the cooldown is over a call leaves the state and its time. -/
theorem open_call (hstate : b.state = .open_) (hnow : c.now < b.openedAt + b.cooldownSeconds) :
    (b.call c).state = .open_ ∧ (b.call c).openedAt = b.openedAt := by
  have hearly : ¬ b.cooldownSeconds ≤ c.now - b.openedAt := by linarith
  unfold call
  cases c.method with
  | allowRequest => simp [allowRequest, hstate, hearly]
  | canProceed => exact ⟨hstate, rfl⟩
  | recordSuccess now_iso => simp [recordSuccess, hstate]
  | recordFailure => simp [recordFailure, hstate]

theorem open_answer (hstate : b.state = .open_) (hnow : c.now < b.openedAt + b.cooldownSeconds) :
    b.answer c ≠ some true := by
  have hearly : ¬ b.cooldownSeconds ≤ c.now - b.openedAt := by linarith
  unfold answer
  cases c.method with
  | allowRequest => simp [allowRequest, hstate, hearly]
  | canProceed => simp [canProceed, hstate, hearly]
  | recordSuccess now_iso => simp
  | recordFailure => simp

theorem open_stays (cs : List BreakerCall) (hstate : b.state = .open_)
    (hnow : ∀ c ∈ cs, c.now < b.openedAt + b.cooldownSeconds) :
    (after call b cs).state = .open_ ∧ (after call b cs).openedAt = b.openedAt ∧
      (after call b cs).cooldownSeconds = b.cooldownSeconds := by
  refine after_keeps (P := fun s : CircuitBreaker => s.state = .open_ ∧ s.openedAt = b.openedAt ∧
    s.cooldownSeconds = b.cooldownSeconds) ⟨hstate, rfl, rfl⟩ ?_
  rintro s c hc ⟨hs, hopened, hcooldown⟩
  have hearly : c.now < s.openedAt + s.cooldownSeconds := by
    rw [hopened, hcooldown]
    exact hnow c hc
  obtain ⟨hstate', hopened'⟩ := open_call hs hearly
  exact ⟨hstate', hopened'.trans hopened, (call_cooldownSeconds s c).trans hcooldown⟩

/-- Only a recorded failure opens the circuit, at its own time. -/
theorem openedAt_of_opens (h : BreakerStep.Enters ⟨b, c, b.call c⟩ .open_) : (b.call c).openedAt = c.now := by
  obtain ⟨hbefore, hafter⟩ := h
  unfold call at hafter ⊢
  cases hmethod : c.method with
  | allowRequest =>
    exfalso
    simp only [hmethod, allowRequest] at hafter hbefore
    cases hstate : b.state with
    | closed => simp [hstate] at hafter
    | open_ => exact hbefore hstate
    | halfOpen => simp [hstate] at hafter
  | canProceed =>
    exfalso
    simp only [hmethod] at hafter
    exact hbefore hafter
  | recordSuccess now_iso =>
    exfalso
    simp only [hmethod, recordSuccess] at hafter hbefore
    cases hstate : b.state with
    | closed => simp [hstate] at hafter
    | open_ => exact hbefore hstate
    | halfOpen => simp [hstate] at hafter
  | recordFailure =>
    simp only [hmethod, recordFailure] at hafter hbefore ⊢
    cases hstate : b.state with
    | closed =>
      by_cases hfull : b.failureThreshold ≤ b.consecutiveFailures + 1
      · simp [hfull]
      · simp [hstate, hfull] at hafter
    | open_ => exact absurd hstate hbefore
    | halfOpen => rfl

/-! ## Between two entries -/

/-- Grants that are left until the next entry into `OPEN` or `CLOSED`. -/
def grantsLeft (b : CircuitBreaker) : ℕ := if b.state = .open_ then 1 else 0

/-- A call that enters neither `OPEN` nor `CLOSED` uses up what it grants. -/
theorem grantsLeft_call (hopen : ¬ BreakerStep.Enters ⟨b, c, b.call c⟩ .open_)
    (hclosed : ¬ BreakerStep.Enters ⟨b, c, b.call c⟩ .closed) :
    (if BreakerStep.grantsUnclosed ⟨b, c, b.call c⟩ then 1 else 0) + (b.call c).grantsLeft ≤ b.grantsLeft := by
  unfold BreakerStep.Enters call at hopen hclosed
  unfold BreakerStep.grantsUnclosed BreakerStep.grants grantsLeft call answer
  cases hmethod : c.method with
  | canProceed => simp
  | allowRequest =>
    cases hstate : b.state with
    | closed => simp [allowRequest, hstate]
    | open_ => by_cases hlate : b.cooldownSeconds ≤ c.now - b.openedAt <;> simp [allowRequest, hstate, hlate]
    | halfOpen => simp [allowRequest, hstate]
  | recordSuccess now_iso => cases hstate : b.state <;> simp [recordSuccess, hstate, hmethod] at hclosed ⊢
  | recordFailure =>
    cases hstate : b.state with
    | closed =>
      by_cases hfull : b.failureThreshold ≤ b.consecutiveFailures + 1
      · simp [recordFailure, hstate, hmethod, hfull] at hopen
      · simp [recordFailure, hstate, hfull]
    | open_ => simp [recordFailure, hstate]
    | halfOpen => simp [recordFailure, hstate, hmethod] at hopen

theorem grants_le {cs : List BreakerCall}
    (hnone : ∀ t ∈ transitions call b cs, ¬ BreakerStep.Enters t .open_ ∧ ¬ BreakerStep.Enters t .closed) :
    (transitions call b cs).countP BreakerStep.grantsUnclosed ≤ b.grantsLeft := by
  induction cs generalizing b with
  | nil => simp [transitions]
  | cons c cs ih =>
    rw [transitions, List.forall_mem_cons] at hnone
    have hrest := ih hnone.2
    have hfirst := grantsLeft_call hnone.1.1 hnone.1.2
    rw [transitions, List.countP_cons]
    omega

/-! ## Closed -/

/-- In `CLOSED` the counter is the number of failures since the last reset. -/
def FailuresCounted (trace : List BreakerStep) (b : CircuitBreaker) : Prop :=
  b.state = .closed → b.consecutiveFailures < b.failureThreshold ∧
    b.consecutiveFailures = (sinceLast BreakerStep.resets trace).countP BreakerStep.isFailure

theorem failuresCounted_call {trace : List BreakerStep} (h : FailuresCounted trace b) :
    FailuresCounted (trace ++ [⟨b, c, b.call c⟩]) (b.call c) := by
  intro hafter
  have hpos := b.threshold_pos
  cases hstate : b.state with
  | halfOpen =>
    -- the call closes the circuit
    have hsuccess : (b.call c).consecutiveFailures = 0 := by
      unfold call at hafter ⊢
      cases hmethod : c.method with
      | allowRequest => simp [hmethod, allowRequest, hstate] at hafter
      | canProceed => simp [hmethod, hstate] at hafter
      | recordSuccess now_iso => rfl
      | recordFailure => simp [hmethod, recordFailure, hstate] at hafter
    have hresets : BreakerStep.resets ⟨b, c, b.call c⟩ = true := by
      simp [BreakerStep.resets, BreakerStep.Enters, hafter, hstate]
    rw [sinceLast_concat_of_reset hresets, hsuccess, call_failureThreshold]
    exact ⟨hpos, rfl⟩
  | open_ =>
    -- no call closes the circuit from here
    exfalso
    unfold call at hafter
    cases hmethod : c.method with
    | allowRequest =>
      simp only [hmethod, allowRequest, hstate] at hafter
      split_ifs at hafter
      simp [hstate] at hafter
    | canProceed => simp [hmethod, hstate] at hafter
    | recordSuccess now_iso => simp [hmethod, recordSuccess, hstate] at hafter
    | recordFailure => simp [hmethod, recordFailure, hstate] at hafter
  | closed =>
    obtain ⟨hbelow, hcount⟩ := h hstate
    have hstays : decide (BreakerStep.Enters ⟨b, c, b.call c⟩ .closed) = false := by
      simp [BreakerStep.Enters, hstate]
    rw [call_failureThreshold]
    cases hmethod : c.method with
    | recordSuccess now_iso =>
      have hresets : BreakerStep.resets ⟨b, c, b.call c⟩ = true := by
        simp [BreakerStep.resets, BreakerStep.isSuccess, hmethod]
      have hzero : (b.call c).consecutiveFailures = 0 := by simp [call, hmethod, recordSuccess]
      rw [sinceLast_concat_of_reset hresets, hzero]
      exact ⟨hpos, rfl⟩
    | recordFailure =>
      have hresets : BreakerStep.resets ⟨b, c, b.call c⟩ = false := by
        simp [BreakerStep.resets, BreakerStep.isSuccess, hmethod, hstays]
      have hroom : ¬ b.failureThreshold ≤ b.consecutiveFailures + 1 := by
        intro hfull
        simp [call, hmethod, recordFailure, hstate, hfull] at hafter
      have hmore : (b.call c).consecutiveFailures = b.consecutiveFailures + 1 := by
        simp [call, hmethod, recordFailure, hstate, hroom]
      rw [sinceLast_concat hresets, List.countP_append, hmore, ← hcount]
      simp [BreakerStep.isFailure, hmethod]
      omega
    | allowRequest | canProceed =>
      have hresets : BreakerStep.resets ⟨b, c, b.call c⟩ = false := by
        simp [BreakerStep.resets, BreakerStep.isSuccess, hmethod, hstays]
      have hsame : (b.call c).consecutiveFailures = b.consecutiveFailures := by
        simp [call, hmethod, allowRequest, hstate]
      rw [sinceLast_concat hresets, List.countP_append, hsame, ← hcount]
      simp [BreakerStep.isFailure, hmethod, hbelow]

theorem failures_counted (failure_threshold : ℤ) (cooldown_seconds : ℚ) (cs : List BreakerCall) :
    FailuresCounted (transitions call (create failure_threshold cooldown_seconds) cs)
      (after call (create failure_threshold cooldown_seconds) cs) := by
  refine transitions_rule ?_ (fun trace s e h => failuresCounted_call h) cs
  intro _
  exact ⟨(create failure_threshold cooldown_seconds).threshold_pos, rfl⟩

/-! ## Every interleaving -/

/-- The state that a new breaker is in after the calls. -/
def reached (failure_threshold : ℤ) (cooldown_seconds : ℚ) (cs : List BreakerCall) : CircuitBreaker :=
  after call (create failure_threshold cooldown_seconds) cs

@[simp] theorem reached_cooldownSeconds (failure_threshold : ℤ) (cooldown_seconds : ℚ) (cs : List BreakerCall) :
    (reached failure_threshold cooldown_seconds cs).cooldownSeconds = cooldown_seconds := by
  refine after_keeps (P := fun s : CircuitBreaker => s.cooldownSeconds = cooldown_seconds) rfl ?_
  intro s c _ hs
  rw [call_cooldownSeconds, hs]

@[simp] theorem reached_failureThreshold (failure_threshold : ℤ) (cooldown_seconds : ℚ) (cs : List BreakerCall) :
    (reached failure_threshold cooldown_seconds cs).failureThreshold = (max 1 failure_threshold).toNat := by
  refine after_keeps (P := fun s : CircuitBreaker => s.failureThreshold = (max 1 failure_threshold).toNat) rfl ?_
  intro s c _ hs
  rw [call_failureThreshold, hs]

/-- No request is granted between an opening and the end of its cooldown; at most one is granted outside
`CLOSED` until `OPEN` or `CLOSED` is entered again; in `CLOSED` the counter is below the threshold and counts
the failures since the last success and the last closing; and the peek foretells the answer and changes none. -/
theorem grant_discipline (failure_threshold : ℤ) (hthreshold : 1 ≤ failure_threshold) (cooldown_seconds : ℚ)
    (cs : List BreakerCall) (hclock : cs.Pairwise fun c c' => c.now ≤ c'.now) :
    (∀ pre o mid g post, cs = pre ++ o :: (mid ++ g :: post) →
      BreakerStep.Enters ⟨reached failure_threshold cooldown_seconds pre, o,
        (reached failure_threshold cooldown_seconds pre).call o⟩ .open_ →
      g.method = .allowRequest → g.now < o.now + cooldown_seconds →
      (reached failure_threshold cooldown_seconds (pre ++ o :: mid)).answer g = some false) ∧
    (∀ pre seg post, cs = pre ++ seg ++ post →
      (∀ t ∈ transitions call (reached failure_threshold cooldown_seconds pre) seg,
        ¬ BreakerStep.Enters t .open_ ∧ ¬ BreakerStep.Enters t .closed) →
      (transitions call (reached failure_threshold cooldown_seconds pre) seg).countP
        BreakerStep.grantsUnclosed ≤ 1) ∧
    ((reached failure_threshold cooldown_seconds cs).state = .closed →
      ((reached failure_threshold cooldown_seconds cs).consecutiveFailures : ℤ) < failure_threshold ∧
      (reached failure_threshold cooldown_seconds cs).consecutiveFailures =
        (sinceLast BreakerStep.resets (transitions call (create failure_threshold cooldown_seconds) cs)).countP
          BreakerStep.isFailure) ∧
    ∀ now more,
      (reached failure_threshold cooldown_seconds cs).canProceed now =
        ((reached failure_threshold cooldown_seconds cs).allowRequest now).1 ∧
      answers (reached failure_threshold cooldown_seconds cs) (⟨.canProceed, now⟩ :: more) =
        some ((reached failure_threshold cooldown_seconds cs).canProceed now) ::
          answers (reached failure_threshold cooldown_seconds cs) more := by
  refine ⟨?_, ?_, ?_, ?_⟩
  · intro pre o mid g post hcs hopens hmethod hearly
    have hsorted := (List.pairwise_append.mp (hcs ▸ hclock)).2.1
    have hmid : ∀ c ∈ mid, c.now ≤ g.now := by
      intro c hc
      have hrest := (List.pairwise_cons.mp hsorted).2
      exact (List.pairwise_append.mp hrest).2.2 c hc g List.mem_cons_self
    have hopened := openedAt_of_opens hopens
    have hcooldown : ((reached failure_threshold cooldown_seconds pre).call o).cooldownSeconds =
        cooldown_seconds := by simp
    obtain ⟨hstate, hat, hsame⟩ := open_stays mid hopens.2 (by
      intro c hc
      rw [hopened, hcooldown]
      linarith [hmid c hc])
    have hreached : reached failure_threshold cooldown_seconds (pre ++ o :: mid) =
        after call ((reached failure_threshold cooldown_seconds pre).call o) mid := after_append _ _ _
    have hdenied := open_answer hstate (c := g) (by rw [hat, hsame, hopened, hcooldown]; exact hearly)
    rw [hreached]
    unfold answer at hdenied ⊢
    simp only [hmethod] at hdenied ⊢
    simpa using hdenied
  · intro pre seg post _ hnone
    have hle := grants_le hnone
    unfold grantsLeft at hle
    split_ifs at hle
    · exact hle
    · omega
  · intro hstate
    obtain ⟨hbelow, hcount⟩ := failures_counted failure_threshold cooldown_seconds cs hstate
    have hthreshold' := reached_failureThreshold failure_threshold cooldown_seconds cs
    unfold reached at hthreshold' ⊢
    refine ⟨?_, hcount⟩
    omega
  · intro now more
    exact ⟨canProceed_eq _ now, rfl⟩

end CircuitBreaker

namespace Sample

/-- A failure opens the circuit at second 10; two requests follow. -/
def outage : List BreakerCall :=
  [⟨.recordFailure, 10⟩, ⟨.recordSuccess "2025-01-01T00:00:00+00:00", 20⟩, ⟨.allowRequest, 69⟩,
    ⟨.allowRequest, 70⟩]

/-- The first comes too early. -/
theorem outage_denied : (CircuitBreaker.reached 1 60 [outage[0], outage[1]]).answer outage[2] = some false :=
  (CircuitBreaker.grant_discipline 1 (by decide) 60 outage (by decide)).1 [] outage[0] [outage[1]] outage[2]
    [outage[3]] rfl (by decide) rfl (by norm_num [outage])

end Sample

end FinHub
