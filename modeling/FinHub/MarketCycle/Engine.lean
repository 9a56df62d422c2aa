import FinHub.Lib.Calendar
import FinHub.Lib.Streak
import Mathlib.Algebra.Order.Ring.Rat
import Mathlib.Data.List.Dedup
import Mathlib.Data.List.Sort

/-!
# FinHub.MarketCycle.Engine

`services/market_cycle_engine.py`: the replay of the market-cycle machine over the months that all required
inputs have.

Nothing is decided by the formulas that the status shows for its signals and metrics; those of the trends are
in `MarketCycle.Derivation`.
-/

namespace FinHub

open Streak

/-! ## Inputs -/

inductive TrendDirection where
  | increasing | stable | decreasing
  deriving DecidableEq

/-- The value of a point: a level or a direction. -/
inductive SeriesValue where
  | number (value : ℚ)
  | direction (value : TrendDirection)
  deriving DecidableEq

structure DatedPoint where
  obsDate : Calendar.Date
  value : SeriesValue
  deriving DecidableEq

structure MonthKey where
  year : ℤ
  month : ℤ
  month_mem : 1 ≤ month ∧ month ≤ 12

instance : Inhabited MonthKey := ⟨⟨1, 1, by decide⟩⟩

def monthKey (value : Calendar.Date) : MonthKey := ⟨value.year, value.month, value.month_mem⟩

/-- Months are ordered as pairs, which is the order of their count. -/
def MonthKey.index (m : MonthKey) : ℤ := 12 * m.year + (m.month - 1)

theorem MonthKey.index_injective {m m' : MonthKey} (h : m.index = m'.index) : m = m' := by
  obtain ⟨year, month, hm⟩ := m
  obtain ⟨year', month', hm'⟩ := m'
  unfold MonthKey.index at h
  simp only [MonthKey.mk.injEq]
  dsimp only at h
  omega

instance : DecidableEq MonthKey := fun _ _ =>
  decidable_of_iff _ ⟨MonthKey.index_injective, congrArg MonthKey.index⟩

inductive InputName where
  | policyRate | policyRateTrend | inflationRate | inflationRateTrend | realInterestRate
  | realInterestRateTrend
  deriving DecidableEq

/-- `SCOPE_INPUTS`. -/
def scopeInputs : List InputName :=
  [.policyRate, .policyRateTrend, .inflationRate, .inflationRateTrend, .realInterestRate, .realInterestRateTrend]

/-- `REQUIRED_INPUTS`. -/
def requiredInputs : List InputName :=
  [.policyRateTrend, .inflationRateTrend, .realInterestRate, .realInterestRateTrend]

inductive NotComputable where
  | lacksInputs (name : InputName)
  | noMonths
  deriving DecidableEq

/-- The months of the replay and the values by month. -/
structure CycleData where
  months : List MonthKey
  indexes : InputName → MonthKey → Option SeriesValue

/-- `_index`: a later point of a month replaces an earlier one. -/
def indexPoints (points : List DatedPoint) (month : MonthKey) : Option SeriesValue :=
  (points.reverse.find? fun p => decide (monthKey p.obsDate = month)).map DatedPoint.value

def monthKeys (points : List DatedPoint) : List MonthKey := points.map fun p => monthKey p.obsDate

/-- The months that all required inputs have. -/
def commonMonths (series : InputName → List DatedPoint) : List MonthKey :=
  requiredInputs.tail.foldl (fun months name => months.filter fun m => decide (m ∈ monthKeys (series name)))
    (monthKeys (series .policyRateTrend)).dedup

def sortMonths (months : List MonthKey) : List MonthKey :=
  months.insertionSort fun m m' => m.index ≤ m'.index

/-- `_load`, by the series that its inputs resolve to. -/
def loadCycle (resolve : InputName → Option (List DatedPoint)) : Except NotComputable CycleData := do
  let _ ← scopeInputs.mapM fun name =>
    match resolve name with
    | some points => Except.ok points
    | none => .error (NotComputable.lacksInputs name)
  let series name := (resolve name).getD []
  let months := commonMonths series
  if months = [] then .error .noMonths
  else .ok ⟨sortMonths months, fun name => indexPoints (series name)⟩

/-! ## States and edges -/

inductive CycleState where
  | lowRealRates | risingInflation | hikingCycle | highRealRates | firstRateCut | cuttingCycle
  deriving DecidableEq

def CycleState.name : CycleState → String
  | .lowRealRates => "Low Real Rates"
  | .risingInflation => "Rising Inflation"
  | .hikingCycle => "Hiking Cycle"
  | .highRealRates => "High Real Rates"
  | .firstRateCut => "First Rate Cut"
  | .cuttingCycle => "Cutting Cycle"

inductive EdgeDirection where
  | forward | reverse
  deriving DecidableEq

inductive TransitionStatus where
  | inactive | emerging | near | triggered
  deriving DecidableEq

inductive EntrySignal where
  | none | favourable | strong
  deriving DecidableEq

/-- `SIGNAL_CODES`. -/
inductive SignalCode where
  | inflationRateTrendIncreasing | policyRateTrendIncreasing | policyRateTrendDecreasing | realRatesHigh
  | realRatesLow | realRatesDeclining | realRatesClimbing | hikesResumed | hikesStopped | cutsStopped
  | firstCutDetected
  deriving DecidableEq

structure CycleTransition where
  source : CycleState
  target : CycleState
  direction : EdgeDirection
  signals : List SignalCode
  key : String
  priority : ℤ := 0
  deriving DecidableEq

/-- `_EDGE_DEFS`. -/
def edgeDefs : List CycleTransition :=
  [⟨.lowRealRates, .risingInflation, .forward, [.inflationRateTrendIncreasing], "1->2", 0⟩,
    ⟨.risingInflation, .hikingCycle, .forward, [.policyRateTrendIncreasing], "2->3", 0⟩,
    ⟨.hikingCycle, .highRealRates, .forward, [.realRatesHigh], "3->4", 0⟩,
    ⟨.highRealRates, .firstRateCut, .forward, [.firstCutDetected], "4->5", 0⟩,
    ⟨.firstRateCut, .cuttingCycle, .forward, [.policyRateTrendDecreasing], "5->6", 0⟩,
    ⟨.cuttingCycle, .lowRealRates, .forward, [.realRatesLow], "6->1", 0⟩,
    ⟨.cuttingCycle, .risingInflation, .reverse, [.realRatesDeclining, .cutsStopped], "6->2", 0⟩,
    ⟨.firstRateCut, .highRealRates, .reverse, [.realRatesHigh, .hikesResumed], "5->4", 0⟩,
    ⟨.highRealRates, .hikingCycle, .reverse, [.hikesResumed, .realRatesClimbing], "4->3", 0⟩,
    ⟨.hikingCycle, .risingInflation, .reverse, [.hikesStopped, .inflationRateTrendIncreasing], "3->2", 0⟩]

/-- `market_cycle_persistence`. -/
structure Persistence where
  emerging : ℤ
  near : ℤ
  triggered : ℤ

structure CycleConfig where
  initialState : CycleState
  realRateHigh : ℚ
  realRateLow : ℚ
  persistence : Persistence
  hikesResumedLookbackMonths : ℤ
  reverseEdgesEnabled : List (String × Bool)
  priority : List (String × ℤ)

section

variable (config : CycleConfig)

/-- `_edges`. -/
def cycleEdges : List CycleTransition :=
  (edgeDefs.zipIdx 1).map fun e => { e.1 with priority := (config.priority.lookup e.1.key).getD e.2 }

def edgeEnabled (edge : CycleTransition) : Bool :=
  match edge.direction with
  | .forward => true
  | .reverse => (config.reverseEdgesEnabled.lookup edge.key).getD true

def outgoing (state : CycleState) : List CycleTransition :=
  (cycleEdges config).filter fun edge => decide (edge.source = state) && edgeEnabled config edge

end

/-! ## Signals -/

namespace CycleData

variable (d : CycleData)

def monthAt (i : ℕ) : MonthKey := d.months.getD i default

/-- `_num` at the month of a position. -/
def num (name : InputName) (i : ℕ) : Option SeriesValue := d.indexes name (d.monthAt i)

/-- `_direction_probe`; `equal` is whether its operator is `==` or `!=`. -/
def directionProbe (metric : InputName) (target : TrendDirection) (equal : Bool) (i : ℕ) : Bool :=
  match d.num metric i with
  | some (.direction value) => decide (value = target) == equal
  | _ => false

/-- `_threshold_probe`; `above` is whether its operator is `>` or `<`. -/
def thresholdProbe (above : Bool) (threshold : ℚ) (i : ℕ) : Bool :=
  match d.num .realInterestRate i with
  | some (.number value) => if above then decide (threshold < value) else decide (value < threshold)
  | _ => false

def isIncreasing (value : Option SeriesValue) : Bool := decide (value = some (.direction .increasing))

/-- `_hikes_resumed_probe`: an increase after a month without one in the lookback. -/
def hikesResumedProbe (lookback : ℤ) (i : ℕ) : Bool :=
  let first := (max 0 ((i : ℤ) - lookback)).toNat
  let prior := (List.range' first (i - first)).map fun j => d.num .policyRateTrend j
  isIncreasing (d.num .policyRateTrend i) && prior.any fun value => value.isSome && !isIncreasing value

/-- `_first_cut_probe`. -/
def firstCutProbe (state : CycleState) (i : ℕ) : Bool :=
  decide (d.num .policyRateTrend i = some (.direction .decreasing)) &&
    (decide (state = .hikingCycle) || decide (state = .highRealRates))

variable (config : CycleConfig)

/-- `_probe`. -/
def probe (state : CycleState) (i : ℕ) : SignalCode → Bool
  | .inflationRateTrendIncreasing => d.directionProbe .inflationRateTrend .increasing true i
  | .policyRateTrendIncreasing => d.directionProbe .policyRateTrend .increasing true i
  | .policyRateTrendDecreasing => d.directionProbe .policyRateTrend .decreasing true i
  | .realRatesDeclining => d.directionProbe .realInterestRateTrend .decreasing true i
  | .realRatesClimbing => d.directionProbe .realInterestRateTrend .increasing true i
  | .hikesStopped => d.directionProbe .policyRateTrend .increasing false i
  | .cutsStopped => d.directionProbe .policyRateTrend .decreasing false i
  | .realRatesHigh => d.thresholdProbe true config.realRateHigh i
  | .realRatesLow => d.thresholdProbe false config.realRateLow i
  | .hikesResumed => d.hikesResumedProbe config.hikesResumedLookbackMonths i
  | .firstCutDetected => d.firstCutProbe state i

/-- All signals of the edge are true at the month. -/
def holds (state : CycleState) (edge : CycleTransition) (i : ℕ) : Bool :=
  decide (edge.signals ≠ []) && edge.signals.all (d.probe config state i)

/-- `_held`. -/
def held (state : CycleState) (edge : CycleTransition) (i : ℕ) : ℕ := streak (d.holds config state edge) i

end CycleData

def statusFor (config : CycleConfig) (held : ℕ) : TransitionStatus :=
  if config.persistence.triggered ≤ held then .triggered
  else if config.persistence.near ≤ held then .near
  else if config.persistence.emerging ≤ held then .emerging
  else .inactive

def entrySignal : CycleState → EntrySignal
  | .highRealRates => .favourable
  | .firstRateCut => .strong
  | _ => .none

/-! ## The replay -/

structure ActiveTransition where
  source : String
  target : String
  status : TransitionStatus
  direction : EdgeDirection
  priority : ℤ
  heldMonths : ℕ
  requiredMonths : ℤ
  deriving DecidableEq

structure CycleStatus where
  scope : String
  currentState : CycleState
  currentStateSince : MonthKey
  activeTransitions : List ActiveTransition
  entrySignals : EntrySignal
  ambiguousConfirmation : Bool
  deriving DecidableEq

namespace CycleData

variable (d : CycleData) (config : CycleConfig)

/-- The edges out of the state that are triggered at the month. -/
def triggered (state : CycleState) (i : ℕ) : List CycleTransition :=
  (outgoing config state).filter fun edge => decide (statusFor config (d.held config state edge i) = .triggered)

/-- One month of the loop: the state and the month it is since. -/
def replayStep (st : CycleState × MonthKey) (i : ℕ) : CycleState × MonthKey :=
  match d.triggered config st.1 i with
  | [edge] => (edge.target, d.monthAt i)
  | _ => st

/-- The state and its month before the month at `n`. -/
def replay (n : ℕ) : CycleState × MonthKey :=
  (List.range n).foldl (d.replayStep config) (config.initialState, d.monthAt 0)

/-- The rest of `evaluate`, after the loop. -/
def status (scope : String) : CycleStatus :=
  let last := d.months.length - 1
  let final := d.replay config d.months.length
  let active := (outgoing config final.1).map fun edge =>
    let held := d.held config final.1 edge last
    { source := edge.source.name
      target := edge.target.name
      status := statusFor config held
      direction := edge.direction
      priority := edge.priority
      heldMonths := held
      requiredMonths := config.persistence.triggered : ActiveTransition }
  { scope
    currentState := final.1
    currentStateSince := final.2
    activeTransitions := active.insertionSort fun a b => a.priority ≤ b.priority
    entrySignals := entrySignal final.1
    ambiguousConfirmation := decide (2 ≤ active.countP fun a => decide (a.status = .triggered)) }

end CycleData

/-- `evaluate`. -/
def evaluateCycle (config : CycleConfig) (resolve : InputName → Option (List DatedPoint)) (scope : String) :
    Except NotComputable CycleStatus := do
  let d ← loadCycle resolve
  .ok (d.status config scope)

end FinHub
