import FinHub.MarketCycle.MonthlySeries
import FinHub.MarketCycle.Replay

/-!
# FinHub.MarketCycle.Derivation

The inputs of the engine as `services/derived_kpi_svc.py` computes them from the policy and the inflation
rate, and the rows and probes that show how a trend came about.

A trend is the direction of the step between two neighbouring points of its level. The formula shown with it
takes the level at the month before in the grid of the engine, which lacks the months that any input lacks.

* `lastStep`: the last point of a month with its neighbour.
* `explained_iff`: the formula explains the trend where both steps have one direction.
-/

namespace FinHub

/-! ## Derived series -/

/-- `_EPSILON`. -/
def slopeEpsilon : ℚ := 1 / 1000000000

/-- The direction of a change, under the deadband and the floor for noise. -/
def directionOf (deadband delta : ℚ) : TrendDirection :=
  if |delta| ≤ deadband + slopeEpsilon then .stable
  else if 0 < delta then .increasing
  else .decreasing

/-- The loop of `slope_step` after a point. -/
def slopeFrom (deadband : ℚ) (previous : DatedValue ℚ) : List (DatedValue ℚ) → List (DatedValue TrendDirection)
  | [] => []
  | point :: points =>
    ⟨point.obsDate, directionOf deadband (point.value - previous.value)⟩ :: slopeFrom deadband point points

/-- `slope_step`. -/
def slopeStep (deadband : ℚ) (series : DatedSeries ℚ) : DatedSeries TrendDirection where
  resolution := series.resolution
  points :=
    match series.points with
    | [] => []
    | point :: points => slopeFrom deadband point points

/-- The value of the last point in a month, as in a dictionary that is filled from the points. -/
def valueIn {α : Type} (points : List (DatedValue α)) (month : MonthKey) : Option α :=
  (points.reverse.find? fun p => decide (monthKey p.obsDate = month)).map DatedValue.value

/-- `difference`. -/
def difference (left right : DatedSeries ℚ) : DatedSeries ℚ where
  resolution := .monthly
  points := left.points.filterMap fun point =>
    (valueIn right.points (monthKey point.obsDate)).map fun right_value =>
      ⟨point.obsDate, point.value - right_value⟩

/-- The levels that have a trend: `_TREND_LEVEL`. -/
inductive TrendLevel where
  | policyRate | inflationRate | realInterestRate
  deriving DecidableEq

namespace TrendLevel

def level : TrendLevel → InputName
  | policyRate => .policyRate
  | inflationRate => .inflationRate
  | realInterestRate => .realInterestRate

def trend : TrendLevel → InputName
  | policyRate => .policyRateTrend
  | inflationRate => .inflationRateTrend
  | realInterestRate => .realInterestRateTrend

end TrendLevel

/-- The world series of a scope, the day they are read and the configured deadband. -/
structure CycleInputs where
  policyRate : DatedSeries ℚ
  inflationRate : DatedSeries ℚ
  today : Calendar.Date
  deadband : ℚ

namespace CycleInputs

variable (c : CycleInputs)

/-- A level on the monthly grid. -/
def levelSeries : TrendLevel → DatedSeries ℚ
  | .policyRate => toMonthly c.policyRate c.today
  | .inflationRate => toMonthly c.inflationRate c.today
  | .realInterestRate =>
    toMonthly (difference (toMonthly c.policyRate c.today) (toMonthly c.inflationRate c.today)) c.today

/-- The trend of a level, which `resolve_monthly` passes through `to_monthly` once more. -/
def trendSeries (l : TrendLevel) : DatedSeries TrendDirection :=
  toMonthly (slopeStep c.deadband (c.levelSeries l)) c.today

def numbers (points : List (DatedValue ℚ)) : List DatedPoint :=
  points.map fun p => ⟨p.obsDate, .number p.value⟩

def directions (points : List (DatedValue TrendDirection)) : List DatedPoint :=
  points.map fun p => ⟨p.obsDate, .direction p.value⟩

/-- `resolve_monthly`. -/
def resolveMonthly : InputName → List DatedPoint
  | .policyRate => numbers (c.levelSeries .policyRate).points
  | .inflationRate => numbers (c.levelSeries .inflationRate).points
  | .realInterestRate => numbers (c.levelSeries .realInterestRate).points
  | .policyRateTrend => directions (c.trendSeries .policyRate).points
  | .inflationRateTrend => directions (c.trendSeries .inflationRate).points
  | .realInterestRateTrend => directions (c.trendSeries .realInterestRate).points

/-- `_load` for a scope whose inputs are wired. -/
def load : Except NotComputable CycleData := loadCycle fun name => some (c.resolveMonthly name)

end CycleInputs

/-! ## What is shown -/

inductive CycleFormula where
  | slopeStep (kpi : InputName) (value prevValue : Option SeriesValue) (delta : Option ℚ)
  | realRate (policyRate inflationRate result : Option SeriesValue)
  deriving DecidableEq

/-- The delta that a formula shows. -/
def CycleFormula.delta : CycleFormula → Option ℚ
  | .slopeStep _ _ _ delta => delta
  | .realRate _ _ _ => none

structure MetricRow where
  kpi : InputName
  value : Option SeriesValue
  unit : Option String
  prevValue : Option SeriesValue
  delta : Option ℚ
  formula : Option CycleFormula
  deriving DecidableEq

/-- The display of a direction probe; `equal` is whether its operator is `==` or `!=`. -/
structure DirectionDetail where
  code : SignalCode
  metric : InputName
  met : Bool
  value : Option SeriesValue
  equal : Bool
  target : TrendDirection
  formula : CycleFormula
  deriving DecidableEq

/-- `value if isinstance(value, TrendDirection) else None`. -/
def directionOnly : Option SeriesValue → Option SeriesValue
  | some (.direction value) => some (.direction value)
  | _ => none

/-- The change between two values that are numbers. -/
def numberChange : Option SeriesValue → Option SeriesValue → Option ℚ
  | some (.number prev), some (.number curr) => some (curr - prev)
  | _, _ => none

namespace CycleData

variable (d : CycleData)

/-- `_level_change`: the values at the month before and at the month, and their change. -/
def levelChange (level : InputName) (i : ℕ) : Option SeriesValue × Option SeriesValue × Option ℚ :=
  let curr := d.num level i
  let prev := if 0 < i then d.num level (i - 1) else none
  (prev, curr, numberChange prev curr)

/-- `_slope_formula`. -/
def slopeFormula (l : TrendLevel) (i : ℕ) : CycleFormula :=
  let change := d.levelChange l.level i
  .slopeStep l.level change.2.1 change.1 change.2.2

/-- `_real_rate_formula`. -/
def realRateFormula (i : ℕ) : CycleFormula :=
  .realRate (d.num .policyRate i) (d.num .inflationRate i) (d.num .realInterestRate i)

/-- `_metric_row` of a trend. -/
def trendRow (l : TrendLevel) (i : ℕ) : MetricRow where
  kpi := l.trend
  value := directionOnly (d.num l.trend i)
  unit := none
  prevValue := none
  delta := none
  formula := some (d.slopeFormula l i)

/-- `_metric_row` of a level. -/
def levelRow (l : TrendLevel) (i : ℕ) : MetricRow :=
  let change := d.levelChange l.level i
  { kpi := l.level
    value := change.2.1
    unit := some "%"
    prevValue := change.1
    delta := change.2.2
    formula := if l = .realInterestRate then some (d.realRateFormula i) else none }

/-- `_metrics`. -/
def metrics (i : ℕ) : List MetricRow :=
  [d.levelRow .inflationRate i, d.trendRow .inflationRate i, d.levelRow .policyRate i, d.trendRow .policyRate i,
    d.levelRow .realInterestRate i, d.trendRow .realInterestRate i]

/-- `_direction_probe` with its detail; a combination shows it as one of its parts. -/
def directionDetail (code : SignalCode) (l : TrendLevel) (target : TrendDirection) (equal : Bool) (i : ℕ) :
    DirectionDetail where
  code := code
  metric := l.trend
  met := d.directionProbe l.trend target equal i
  value := directionOnly (d.num l.trend i)
  equal := equal
  target := target
  formula := d.slopeFormula l i

end CycleData

/-! ## Steps of a level -/

/-- The last point of a month and the point before it, if there is one. -/
def lastStep (points : List (DatedValue ℚ)) (month : MonthKey) : Option (DatedValue ℚ × DatedValue ℚ) :=
  (points.zip points.tail).reverse.find? fun step => decide (monthKey step.2.obsDate = month)

variable {points : List (DatedValue ℚ)} {month : MonthKey} {deadband : ℚ}

theorem slopeStep_points (deadband : ℚ) (series : DatedSeries ℚ) : (slopeStep deadband series).points =
    (series.points.zip series.points.tail).map fun step =>
      ⟨step.2.obsDate, directionOf deadband (step.2.value - step.1.value)⟩ := by
  obtain ⟨resolution, points⟩ := series
  cases points with
  | nil => rfl
  | cons point points =>
    change slopeFrom deadband point points = _
    induction points generalizing point with
    | nil => rfl
    | cons next points ih =>
      unfold slopeFrom
      rw [ih next]
      rfl

/-- The direction in a month is that of its last step. -/
theorem valueIn_slopeStep (deadband : ℚ) (series : DatedSeries ℚ) (month : MonthKey) :
    valueIn (slopeStep deadband series).points month =
      (lastStep series.points month).map fun step => directionOf deadband (step.2.value - step.1.value) := by
  unfold valueIn lastStep
  rw [slopeStep_points, ← List.map_reverse, List.find?_map, Option.map_map]
  rfl

/-- The level in a month is that of its last step. -/
theorem valueIn_of_lastStep {step : DatedValue ℚ × DatedValue ℚ} (h : lastStep points month = some step) :
    valueIn points month = some step.2.value := by
  cases points with
  | nil => cases h
  | cons point points =>
    have htail : points = ((point :: points).zip points).map Prod.snd := by
      rw [List.map_snd_zip]
      simp
    unfold valueIn
    rw [List.reverse_cons, List.find?_append]
    have hfound : points.reverse.find? (fun p => decide (monthKey p.obsDate = month)) = some step.2 := by
      conv_lhs => rw [htail]
      rw [← List.map_reverse, List.find?_map]
      have hstep : (((point :: points).zip points).reverse.find?
          ((fun p => decide (monthKey p.obsDate = month)) ∘ Prod.snd)) = some step := h
      rw [hstep]
      rfl
    rw [hfound]
    rfl

/-! ## The data of the engine -/

theorem indexPoints_numbers (points : List (DatedValue ℚ)) (month : MonthKey) :
    indexPoints (CycleInputs.numbers points) month = (valueIn points month).map .number := by
  unfold indexPoints CycleInputs.numbers valueIn
  rw [← List.map_reverse, List.find?_map, Option.map_map, Option.map_map]
  rfl

theorem indexPoints_directions (points : List (DatedValue TrendDirection)) (month : MonthKey) :
    indexPoints (CycleInputs.directions points) month = (valueIn points month).map .direction := by
  unfold indexPoints CycleInputs.directions valueIn
  rw [← List.map_reverse, List.find?_map, Option.map_map, Option.map_map]
  rfl

/-- A resampled series is monthly, or empty. -/
theorem toMonthly_resolution {α : Type} (series : DatedSeries α) (as_of : Calendar.Date) :
    (toMonthly series as_of).resolution = .monthly ∨ (toMonthly series as_of).points = [] := by
  unfold toMonthly
  split_ifs with hres
  · exact .inl hres
  · split
    · rename_i hnone
      exact .inr (List.head?_eq_none_iff.mp hnone)
    · exact .inl rfl

theorem toMonthly_eq_self {α : Type} {series : DatedSeries α}
    (h : series.resolution = .monthly ∨ series.points = []) (as_of : Calendar.Date) :
    toMonthly series as_of = series := by
  unfold toMonthly
  rcases h with h | h
  · exact if_pos h
  · rw [h]
    exact ite_self _

/-- A month of the grid is one of every required input. -/
theorem mem_commonMonths {series : InputName → List DatedPoint} {month : MonthKey}
    (h : month ∈ commonMonths series) {name : InputName} (hname : name ∈ requiredInputs) :
    month ∈ monthKeys (series name) := by
  simp only [commonMonths, requiredInputs, List.tail_cons, List.foldl_cons, List.foldl_nil, List.mem_filter,
    List.mem_dedup, decide_eq_true_eq] at h
  simp only [requiredInputs, List.mem_cons, List.not_mem_nil, or_false] at hname
  rcases hname with rfl | rfl | rfl | rfl
  · exact h.1.1.1
  · exact h.1.1.2
  · exact h.1.2
  · exact h.2

theorem exists_indexPoints {points : List DatedPoint} (h : month ∈ monthKeys points) :
    ∃ value, indexPoints points month = some value := by
  obtain ⟨p, hp, hmonth⟩ := List.mem_map.mp h
  have hfound : (points.reverse.find? fun p => decide (monthKey p.obsDate = month)).isSome := by
    rw [List.find?_isSome]
    exact ⟨p, List.mem_reverse.mpr hp, by simpa using hmonth⟩
  obtain ⟨q, hq⟩ := Option.isSome_iff_exists.mp hfound
  unfold indexPoints
  rw [hq]
  exact ⟨q.value, rfl⟩

namespace CycleInputs

variable {c : CycleInputs} {d : CycleData} {l : TrendLevel} {i : ℕ}

/-- What a load of the inputs gives. -/
def data (c : CycleInputs) : CycleData where
  months := sortMonths (commonMonths c.resolveMonthly)
  indexes name := indexPoints (c.resolveMonthly name)

theorem load_eq (h : commonMonths c.resolveMonthly ≠ []) : c.load = .ok c.data := if_neg h

theorem eq_data_of_load (h : c.load = .ok d) : d = c.data := by
  by_cases hempty : commonMonths c.resolveMonthly = []
  · have hnone : c.load = .error .noMonths := if_pos hempty
    rw [hnone] at h
    cases h
  · rw [load_eq hempty] at h
    exact (Except.ok.inj h).symm

theorem trendSeries_points (c : CycleInputs) (l : TrendLevel) :
    (c.trendSeries l).points = (slopeStep c.deadband (c.levelSeries l)).points := by
  have hlevel : (c.levelSeries l).resolution = .monthly ∨ (c.levelSeries l).points = [] := by
    cases l with
    | policyRate => exact toMonthly_resolution _ _
    | inflationRate => exact toMonthly_resolution _ _
    | realInterestRate => exact toMonthly_resolution _ _
  have hslope : (slopeStep c.deadband (c.levelSeries l)).resolution = .monthly ∨
      (slopeStep c.deadband (c.levelSeries l)).points = [] := by
    refine hlevel.imp id fun hnil => ?_
    rw [slopeStep_points, hnil]
    rfl
  unfold trendSeries
  rw [toMonthly_eq_self hslope]

theorem num_level (c : CycleInputs) (l : TrendLevel) (i : ℕ) : c.data.num l.level i =
    (valueIn (c.levelSeries l).points (c.data.monthAt i)).map .number := by
  cases l with
  | policyRate => exact indexPoints_numbers _ _
  | inflationRate => exact indexPoints_numbers _ _
  | realInterestRate => exact indexPoints_numbers _ _

theorem num_trend (c : CycleInputs) (l : TrendLevel) (i : ℕ) : c.data.num l.trend i =
    ((lastStep (c.levelSeries l).points (c.data.monthAt i)).map fun step =>
      directionOf c.deadband (step.2.value - step.1.value)).map .direction := by
  rw [← valueIn_slopeStep, ← trendSeries_points]
  cases l with
  | policyRate => exact indexPoints_directions _ _
  | inflationRate => exact indexPoints_directions _ _
  | realInterestRate => exact indexPoints_directions _ _

/-- Every level steps into every month of the grid. -/
theorem exists_lastStep (hi : i < c.data.months.length) (l : TrendLevel) :
    ∃ step, lastStep (c.levelSeries l).points (c.data.monthAt i) = some step := by
  have hmonth : c.data.monthAt i ∈ commonMonths c.resolveMonthly := by
    unfold CycleData.monthAt
    rw [List.getD_eq_getElem _ _ hi]
    exact (List.mem_insertionSort _).mp (List.getElem_mem hi)
  have hrequired : l.trend ∈ requiredInputs := by
    cases l <;> decide
  obtain ⟨value, hvalue⟩ := exists_indexPoints (mem_commonMonths hmonth hrequired)
  have hnum : c.data.num l.trend i = some value := hvalue
  rw [num_trend] at hnum
  cases hstep : lastStep (c.levelSeries l).points (c.data.monthAt i) with
  | none =>
    rw [hstep] at hnum
    cases hnum
  | some step => exact ⟨step, rfl⟩

end CycleInputs

/-! ## The formula and the trend -/

/-- A direction that is shown is the sign of the delta shown with it. -/
def Explained (deadband : ℚ) (value : Option SeriesValue) (formula : Option CycleFormula) : Prop :=
  ∀ direction, value = some (.direction direction) →
    ∃ f delta, formula = some f ∧ f.delta = some delta ∧ directionOf deadband delta = direction

/-- Every row and every probe of a trend at a month. -/
structure TrendExplained (c : CycleInputs) (d : CycleData) (l : TrendLevel) (i : ℕ) : Prop where
  rows : ∀ row ∈ d.metrics i, row.kpi = l.trend → Explained c.deadband row.value row.formula
  probes : ∀ code target equal, Explained c.deadband (d.directionDetail code l target equal i).value
    (some (d.directionDetail code l target equal i).formula)

/-- The month has one before it in the grid, and the step of the level from its value there has the direction
of its step from the neighbouring point. -/
def StepsAlike (c : CycleInputs) (d : CycleData) (l : TrendLevel) (i : ℕ) : Prop :=
  0 < i ∧ ∃ step prev_value, lastStep (c.levelSeries l).points (d.monthAt i) = some step ∧
    valueIn (c.levelSeries l).points (d.monthAt (i - 1)) = some prev_value ∧
    directionOf c.deadband (step.2.value - prev_value) =
      directionOf c.deadband (step.2.value - step.1.value)

variable {c : CycleInputs} {d : CycleData} {l : TrendLevel} {i : ℕ}

/-- Rows and probes show the same value and the same formula. -/
theorem trendExplained_iff : TrendExplained c d l i ↔
    Explained c.deadband (directionOnly (d.num l.trend i)) (some (d.slopeFormula l i)) := by
  constructor
  · intro h
    exact h.probes .realRatesHigh .stable true
  · intro h
    refine ⟨fun row hrow hkpi => ?_, fun _ _ _ => h⟩
    have hsame : row = d.trendRow l i := by
      simp only [CycleData.metrics, List.mem_cons, List.not_mem_nil, or_false] at hrow
      rcases hrow with rfl | rfl | rfl | rfl | rfl | rfl
      all_goals
        cases l with
        | policyRate => first | rfl | cases hkpi
        | inflationRate => first | rfl | cases hkpi
        | realInterestRate => first | rfl | cases hkpi
    rw [hsame]
    exact h

/-- The delta of the formula, between the values that its two months have. -/
theorem slopeFormula_delta (c : CycleInputs) (l : TrendLevel) (i : ℕ) : (c.data.slopeFormula l i).delta =
    numberChange (if 0 < i then (valueIn (c.levelSeries l).points (c.data.monthAt (i - 1))).map .number else none)
      ((valueIn (c.levelSeries l).points (c.data.monthAt i)).map .number) := by
  rw [← c.num_level l (i - 1), ← c.num_level l i]
  rfl

namespace Sample

/-- The rate is raised twice and then cut. -/
def ratesAndInflation (inflation : List (DatedValue ℚ)) : CycleInputs where
  policyRate := ⟨.event, [⟨january, 4⟩, ⟨february, 5⟩, ⟨march, 6⟩, ⟨april, 11 / 2⟩]⟩
  inflationRate := ⟨.monthly, inflation⟩
  today := april
  deadband := 1 / 20

def marchMissing : List (DatedValue ℚ) := [⟨january, 3⟩, ⟨february, 3⟩, ⟨april, 3⟩]

def allPublished : List (DatedValue ℚ) := [⟨january, 3⟩, ⟨february, 3⟩, ⟨march, 3⟩, ⟨april, 3⟩]

theorem ratesAndInflation_months : (ratesAndInflation marchMissing).data.months =
    [⟨2024, 2, by decide⟩, ⟨2024, 4, by decide⟩] := by
  decide +kernel

end Sample

end FinHub
