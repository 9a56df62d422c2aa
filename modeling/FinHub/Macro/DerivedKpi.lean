import FinHub.Lib.Registry
import FinHub.Macro.WorldKpi

/-!
# FinHub.Macro.DerivedKpi

The registry of `services/derived_kpi_svc.py`: KPIs that are computed from world KPIs and from each other, and
the markets that they can be computed for.

* `derivedKpi_access`: a KPI answers in exactly the markets that its keys list, with the kind of value that it
  declares; these are the markets in which every world KPI below it has a source.
-/

namespace FinHub

inductive DerivedKpi where
  | policyRateTrend | inflationRateTrend | m2GrowthTrend | realInterestRate | realInterestRateTrend
  | yieldCurveSlope | yieldCurveSlopeTrend
  deriving DecidableEq

def DerivedKpi.name : DerivedKpi → String
  | policyRateTrend => "policy_rate_trend"
  | inflationRateTrend => "inflation_rate_trend"
  | m2GrowthTrend => "m2_growth_trend"
  | realInterestRate => "real_interest_rate"
  | realInterestRateTrend => "real_interest_rate_trend"
  | yieldCurveSlope => "yield_curve_slope"
  | yieldCurveSlopeTrend => "yield_curve_slope_trend"

/-- The name of an input: a derived or a world KPI. -/
abbrev KpiName : Type := DerivedKpi ⊕ WorldKpi

inductive Computation where
  | slopeStep | realRate | difference
  deriving DecidableEq

inductive ValueKind where
  | numeric | direction
  deriving DecidableEq

structure DerivedDefinition where
  inputs : List KpiName
  computation : Computation
  valueKind : ValueKind

/-- `REGISTRY` of the derived KPIs. -/
def derivedRegistry : DerivedKpi → DerivedDefinition
  | .policyRateTrend => ⟨[.inr .policyRate], .slopeStep, .direction⟩
  | .inflationRateTrend => ⟨[.inr .inflationRate], .slopeStep, .direction⟩
  | .m2GrowthTrend => ⟨[.inr .m2Growth], .slopeStep, .direction⟩
  | .realInterestRate => ⟨[.inr .policyRate, .inr .inflationRate], .realRate, .numeric⟩
  | .realInterestRateTrend => ⟨[.inl .realInterestRate], .slopeStep, .direction⟩
  | .yieldCurveSlope => ⟨[.inr .yield10y, .inr .policyRate], .difference, .numeric⟩
  | .yieldCurveSlopeTrend => ⟨[.inl .yieldCurveSlope], .slopeStep, .direction⟩

/-- How many derived KPIs a KPI is computed over. -/
def derivedDepth : DerivedKpi → ℕ
  | .realInterestRateTrend | .yieldCurveSlopeTrend => 1
  | _ => 0

def kpiRegistry : Registry DerivedKpi WorldKpi where
  inputs name := (derivedRegistry name).inputs
  rank := derivedDepth
  rank_lt := by
    intro n m h
    cases n with
    | realInterestRateTrend =>
      obtain rfl : m = .realInterestRate := by simpa [derivedRegistry] using h
      decide
    | yieldCurveSlopeTrend =>
      obtain rfl : m = .yieldCurveSlope := by simpa [derivedRegistry] using h
      decide
    | _ => simp [derivedRegistry] at h
  inputs_ne_nil n := by cases n <;> exact List.cons_ne_nil _ _

/-- A series of levels or of directions. -/
inductive KpiSeries where
  | numeric (series : DatedSeries ℚ)
  | direction (series : DatedSeries TrendDirection)
  deriving DecidableEq

namespace KpiSeries

def kind : KpiSeries → ValueKind
  | numeric _ => .numeric
  | direction _ => .direction

def toMonthly (today : Calendar.Date) : KpiSeries → KpiSeries
  | numeric series => .numeric (FinHub.toMonthly series today)
  | direction series => .direction (FinHub.toMonthly series today)

/-- The points as the engine takes them. -/
def points : KpiSeries → List DatedPoint
  | numeric series => CycleInputs.numbers series.points
  | direction series => CycleInputs.directions series.points

end KpiSeries

/-- What the series are read from: the tables, the day and the configured deadband. -/
structure KpiReads where
  store : MacroStore
  today : Calendar.Date
  deadband : ℚ

section

variable (k : KpiReads) (market : MarketKey)

/-- `_world_series`. -/
def worldSeries (kpi : WorldKpi) : Except KpiError KpiSeries := do
  let source ← kpi.getSource market
  let points ← worldKpi k.store kpi market
  .ok (.numeric ⟨source.resolution, points⟩)

/-- `_compute`, by the series of its inputs. -/
def computeFrom (name : DerivedKpi) (inputs : List KpiSeries) : Except KpiError KpiSeries :=
  match (derivedRegistry name).computation, inputs.map (KpiSeries.toMonthly k.today) with
  | .slopeStep, .numeric base :: _ => .ok (.direction (slopeStep k.deadband base))
  | .realRate, .numeric policy :: .numeric inflation :: _ => .ok (.numeric (difference policy inflation))
  | .difference, .numeric left :: .numeric right :: _ => .ok (.numeric (difference left right))
  | _, _ => .error .typeError

/-- `_resolve_series`. -/
def resolveSeries (name : KpiName) : Except KpiError KpiSeries :=
  kpiRegistry.eval (computeFrom k) (worldSeries k market) name

/-- `market_keys` of a derived KPI. -/
def DerivedKpi.marketKeys (name : DerivedKpi) : List MarketKey :=
  sortMarkets (kpiRegistry.offered WorldKpi.marketKeys (.inl name))

/-- `derived_kpi`. -/
def derivedKpi (name : DerivedKpi) : Except KpiError KpiSeries :=
  if name.marketKeys.elem market then resolveSeries k market (.inl name)
  else .error (.noInputs name.name market)

/-- `resolve_monthly`, which no list of markets guards. -/
def resolveMonthly (name : KpiName) : Except KpiError KpiSeries := do
  let series ← resolveSeries k market name
  .ok (series.toMonthly k.today)

end

/-! ## Markets -/

variable {k : KpiReads} {market : MarketKey} {name : DerivedKpi} {kpi : WorldKpi}

theorem mem_sortMarkets {markets : List MarketKey} : market ∈ sortMarkets markets ↔ market ∈ markets := by
  unfold sortMarkets
  rw [List.mem_filter, List.elem_iff]
  refine and_iff_right ?_
  cases market <;> decide

theorem WorldKpi.getSource_cases (kpi : WorldKpi) (market : MarketKey) :
    (market ∈ kpi.marketKeys ∧ ∃ source, kpi.getSource market = .ok source) ∨
      (market ∉ kpi.marketKeys ∧ kpi.getSource market = .error (.noSource kpi market)) := by
  unfold marketKeys getSource
  rw [mem_sortMarkets]
  cases hsource : (worldRegistry kpi).lookup market with
  | some source =>
    obtain ⟨before, after, hsplit, -⟩ := List.lookup_eq_some_iff.mp hsource
    refine .inl ⟨List.mem_map.mpr ⟨(market, source), ?_, rfl⟩, source, rfl⟩
    rw [hsplit]
    exact List.mem_append_right _ List.mem_cons_self
  | none =>
    refine .inr ⟨?_, rfl⟩
    rintro hmem
    obtain ⟨entry, hentry, rfl⟩ := List.mem_map.mp hmem
    exact List.lookup_eq_none_iff.mp hsource entry hentry |> fun h => by simp at h

/-- A world KPI is read where it has a source. -/
theorem worldSeries_cases (k : KpiReads) (market : MarketKey) (kpi : WorldKpi) :
    (market ∈ kpi.marketKeys ∧ ∃ series, worldSeries k market kpi = .ok (.numeric series)) ∨
      (market ∉ kpi.marketKeys ∧ worldSeries k market kpi = .error (.noSource kpi market)) := by
  unfold worldSeries worldKpi
  rcases kpi.getSource_cases market with ⟨hmem, source, hsource⟩ | ⟨hmem, hsource⟩
  · rw [hsource]
    exact .inl ⟨hmem, _, rfl⟩
  · rw [hsource]
    exact .inr ⟨hmem, rfl⟩

theorem exists_worldSeries_iff : (∃ series, worldSeries k market kpi = .ok series) ↔ market ∈ kpi.marketKeys := by
  rcases worldSeries_cases k market kpi with ⟨hmem, series, hseries⟩ | ⟨hmem, hseries⟩
  · exact ⟨fun _ => hmem, fun _ => ⟨_, hseries⟩⟩
  · rw [hseries]
    refine ⟨?_, fun h => absurd h hmem⟩
    rintro ⟨series, h⟩
    cases h

/-! ## Values -/

/-- The kind of value that a name stands for. -/
def kindOf : KpiName → ValueKind
  | .inl name => (derivedRegistry name).valueKind
  | .inr _ => .numeric

theorem exists_numeric {series : KpiSeries} (h : series.kind = .numeric) : ∃ points, series = .numeric points := by
  cases series with
  | numeric points => exact ⟨points, rfl⟩
  | direction points => cases h

/-- No KPI of the registry computes with directions, and each gives the kind that it declares. -/
theorem kpiRegistry_fits (k : KpiReads) (market : MarketKey) :
    kpiRegistry.Fits (computeFrom k) (worldSeries k market) fun x series => series.kind = kindOf x where
  read kpi series h := by
    rcases worldSeries_cases k market kpi with ⟨-, points, hpoints⟩ | ⟨-, herror⟩
    · rw [hpoints] at h
      cases h
      rfl
    · rw [herror] at h
      cases h
  combine name inputs h := by
    have hone : ∀ x, kindOf x = .numeric → List.Forall₂ (fun x (series : KpiSeries) => series.kind = kindOf x) [x] inputs →
        ∃ base, inputs = [.numeric base] := by
      rintro x hx (_ | ⟨hkind, _ | _⟩)
      obtain ⟨base, rfl⟩ := exists_numeric (hkind.trans hx)
      exact ⟨base, rfl⟩
    have htwo : ∀ x y, kindOf x = .numeric → kindOf y = .numeric →
        List.Forall₂ (fun x (series : KpiSeries) => series.kind = kindOf x) [x, y] inputs →
        ∃ left right, inputs = [.numeric left, .numeric right] := by
      rintro x y hx hy (_ | ⟨hleft, _ | ⟨hright, _ | _⟩⟩)
      obtain ⟨left, rfl⟩ := exists_numeric (hleft.trans hx)
      obtain ⟨right, rfl⟩ := exists_numeric (hright.trans hy)
      exact ⟨left, right, rfl⟩
    cases name with
    | policyRateTrend => obtain ⟨base, rfl⟩ := hone _ rfl h; exact ⟨_, rfl, rfl⟩
    | inflationRateTrend => obtain ⟨base, rfl⟩ := hone _ rfl h; exact ⟨_, rfl, rfl⟩
    | m2GrowthTrend => obtain ⟨base, rfl⟩ := hone _ rfl h; exact ⟨_, rfl, rfl⟩
    | realInterestRate => obtain ⟨left, right, rfl⟩ := htwo _ _ rfl rfl h; exact ⟨_, rfl, rfl⟩
    | realInterestRateTrend => obtain ⟨base, rfl⟩ := hone _ rfl h; exact ⟨_, rfl, rfl⟩
    | yieldCurveSlope => obtain ⟨left, right, rfl⟩ := htwo _ _ rfl rfl h; exact ⟨_, rfl, rfl⟩
    | yieldCurveSlopeTrend => obtain ⟨base, rfl⟩ := hone _ rfl h; exact ⟨_, rfl, rfl⟩

/-- The markets of a name are those in which every world KPI below it has a source. -/
theorem mem_offered_marketKeys {x : KpiName} : market ∈ kpiRegistry.offered WorldKpi.marketKeys x ↔
    ∀ kpi, kpiRegistry.Below kpi x → market ∈ kpi.marketKeys := kpiRegistry.mem_offered_iff x

/-- A series resolves where every world KPI below its name has a source; else one of them is missed. -/
theorem resolveSeries_cases (k : KpiReads) (market : MarketKey) (x : KpiName) :
    (market ∈ kpiRegistry.offered WorldKpi.marketKeys x ∧
      ∃ series, resolveSeries k market x = .ok series ∧ series.kind = kindOf x) ∨
    (market ∉ kpiRegistry.offered WorldKpi.marketKeys x ∧ ∃ kpi, kpiRegistry.Below kpi x ∧
      resolveSeries k market x = .error (.noSource kpi market)) := by
  rw [mem_offered_marketKeys]
  unfold resolveSeries
  rcases Registry.eval_spec (kpiRegistry_fits k market) x with ⟨series, hseries, hkind, hall⟩ | ⟨e, he, kpi, hkpi, hread⟩
  · exact .inl ⟨fun kpi hkpi => exists_worldSeries_iff.mp (hall kpi hkpi), series, hseries, hkind⟩
  · rcases worldSeries_cases k market kpi with ⟨-, points, hpoints⟩ | ⟨hmem, herror⟩
    · rw [hpoints] at hread
      cases hread
    · refine .inr ⟨fun hall => hmem (hall kpi hkpi), kpi, hkpi, ?_⟩
      rw [he, ← hread, herror]

/-- How a derived KPI answers in a market. -/
structure DerivedAccess (k : KpiReads) (name : DerivedKpi) (market : MarketKey) : Prop where
  markets : market ∈ name.marketKeys ↔ ∀ kpi, kpiRegistry.Below kpi (.inl name) → market ∈ kpi.marketKeys
  answers : market ∈ name.marketKeys →
    ∃ series, derivedKpi k market name = .ok series ∧ series.kind = (derivedRegistry name).valueKind
  refuses : market ∉ name.marketKeys → derivedKpi k market name = .error (.noInputs name.name market) ∧
    ∃ kpi, kpiRegistry.Below kpi (.inl name) ∧ resolveMonthly k market (.inl name) = .error (.noSource kpi market)

/-- A derived KPI answers in exactly the markets of its keys, with the kind of value that it declares: no
computation finds an input missing, and none is given directions for levels. Elsewhere the guard refuses, and
without it the read would miss the source of a world KPI below. -/
theorem derivedKpi_access (k : KpiReads) (name : DerivedKpi) (market : MarketKey) : DerivedAccess k name market where
  markets := mem_sortMarkets.trans mem_offered_marketKeys
  answers h := by
    unfold derivedKpi
    rw [if_pos (List.elem_iff.mpr h)]
    rcases resolveSeries_cases k market (.inl name) with ⟨-, series, hseries, hkind⟩ | ⟨hmem, -⟩
    · exact ⟨series, hseries, hkind⟩
    · exact absurd (mem_sortMarkets.mp h) hmem
  refuses h := by
    unfold derivedKpi resolveMonthly
    rw [if_neg (by rwa [List.elem_iff])]
    rcases resolveSeries_cases k market (.inl name) with ⟨hmem, -⟩ | ⟨-, kpi, hkpi, herror⟩
    · exact absurd (mem_sortMarkets.mpr hmem) h
    · refine ⟨rfl, kpi, hkpi, ?_⟩
      rw [herror]
      rfl

end FinHub
