import FinHub.Macro.DerivedKpi

/-!
# FinHub.MarketCycle.Scopes

Where the engine gets its inputs: the scopes of `services/market_cycle_engine.py` over the registry of the
derived KPIs.

* `resolveMonthly_wired`: the six inputs of a scope are the series that `MarketCycle.Derivation` computes from
  its policy and inflation rate.
* `scope_access`: a scope is evaluated exactly where its inputs have sources.
-/

namespace FinHub

/-- The KPI of an input of the engine. -/
def InputName.kpi : InputName → KpiName
  | policyRate => .inr .policyRate
  | policyRateTrend => .inl .policyRateTrend
  | inflationRate => .inr .inflationRate
  | inflationRateTrend => .inl .inflationRateTrend
  | realInterestRate => .inl .realInterestRate
  | realInterestRateTrend => .inl .realInterestRateTrend

/-- `_input_market_keys`. -/
def inputMarketKeys : KpiName → List MarketKey
  | .inl name => name.marketKeys
  | .inr kpi => kpi.marketKeys

/-- `scope_keys`. -/
def scopeKeys : List MarketKey :=
  sortMarkets (Registry.common (scopeInputs.map fun name => inputMarketKeys name.kpi))

section

variable (k : KpiReads) (market : MarketKey)

/-- The points of an input in a scope, if it resolves. -/
def scopePoints (name : InputName) : Option (List DatedPoint) :=
  (resolveMonthly k market name.kpi).toOption.map KpiSeries.points

/-- `_load` for a scope. -/
def loadScope : Except NotComputable CycleData := loadCycle (scopePoints k market)

/-- `evaluate` for a scope. -/
def evaluateScope (config : CycleConfig) : Except NotComputable CycleStatus :=
  evaluateCycle config (scopePoints k market) market.text

/-- The scope reads the two rates of the inputs, on their day. -/
structure Wired (c : CycleInputs) : Prop where
  policyRate : worldSeries k market .policyRate = .ok (.numeric c.policyRate)
  inflationRate : worldSeries k market .inflationRate = .ok (.numeric c.inflationRate)
  today : c.today = k.today
  deadband : c.deadband = k.deadband

end

variable {k : KpiReads} {market : MarketKey} {c : CycleInputs} {config : CycleConfig}

/-! ## The inputs of a scope -/

theorem resolveSeries_world (k : KpiReads) (market : MarketKey) (kpi : WorldKpi) :
    resolveSeries k market (.inr kpi) = worldSeries k market kpi := by
  unfold resolveSeries
  rw [Registry.eval]

/-- A KPI with one input. -/
theorem resolveSeries_one {name : DerivedKpi} {x : KpiName} {series : KpiSeries}
    (hinputs : (derivedRegistry name).inputs = [x]) (h : resolveSeries k market x = .ok series) :
    resolveSeries k market (.inl name) = computeFrom k name [series] := by
  have hnode := kpiRegistry.eval_node (computeFrom k) (worldSeries k market) name
  have hlist : kpiRegistry.inputs name = [x] := hinputs
  unfold resolveSeries at h ⊢
  rw [hnode, hlist, List.mapM_cons, h]
  rfl

/-- A KPI with two inputs. -/
theorem resolveSeries_two {name : DerivedKpi} {x y : KpiName} {series series' : KpiSeries}
    (hinputs : (derivedRegistry name).inputs = [x, y]) (h : resolveSeries k market x = .ok series)
    (h' : resolveSeries k market y = .ok series') :
    resolveSeries k market (.inl name) = computeFrom k name [series, series'] := by
  have hnode := kpiRegistry.eval_node (computeFrom k) (worldSeries k market) name
  have hlist : kpiRegistry.inputs name = [x, y] := hinputs
  unfold resolveSeries at h h' ⊢
  rw [hnode, hlist, List.mapM_cons, List.mapM_cons, h, h']
  rfl

/-- The real rate that the registry resolves. -/
theorem resolveSeries_realRate (h : Wired k market c) : resolveSeries k market (.inl .realInterestRate) =
    .ok (.numeric (difference (toMonthly c.policyRate k.today) (toMonthly c.inflationRate k.today))) :=
  resolveSeries_two rfl ((resolveSeries_world ..).trans h.policyRate) ((resolveSeries_world ..).trans h.inflationRate)

/-- The inputs of a scope are those that are derived from its two rates. -/
theorem resolveMonthly_wired (h : Wired k market c) (name : InputName) : ∃ series,
    resolveMonthly k market name.kpi = .ok series ∧ series.points = c.resolveMonthly name := by
  have hpolicy := (resolveSeries_world k market .policyRate).trans h.policyRate
  have hinflation := (resolveSeries_world k market .inflationRate).trans h.inflationRate
  have hreal := resolveSeries_realRate h
  unfold resolveMonthly
  have hmonthly : ∀ {x : KpiName} {series : KpiSeries}, resolveSeries k market x = .ok series →
      (do let series ← resolveSeries k market x; .ok (series.toMonthly k.today) : Except KpiError KpiSeries) =
        .ok (series.toMonthly k.today) := by
    intro x series hx
    rw [hx]
    rfl
  have htrend : ∀ {name' : DerivedKpi} {x : KpiName} {base : DatedSeries ℚ},
      (derivedRegistry name').inputs = [x] → (derivedRegistry name').computation = .slopeStep →
      resolveSeries k market x = .ok (.numeric base) → resolveSeries k market (.inl name') =
        .ok (.direction (slopeStep k.deadband (toMonthly base k.today))) := by
    intro name' x base hinputs hslope hx
    rw [resolveSeries_one hinputs hx]
    unfold computeFrom
    rw [hslope]
    rfl
  obtain ⟨policy, inflation, today, deadband⟩ := c
  obtain rfl : today = k.today := h.today
  obtain rfl : deadband = k.deadband := h.deadband
  cases name with
  | policyRate => exact ⟨_, hmonthly hpolicy, rfl⟩
  | inflationRate => exact ⟨_, hmonthly hinflation, rfl⟩
  | realInterestRate => exact ⟨_, hmonthly hreal, rfl⟩
  | policyRateTrend => exact ⟨_, hmonthly (htrend rfl rfl hpolicy), rfl⟩
  | inflationRateTrend => exact ⟨_, hmonthly (htrend rfl rfl hinflation), rfl⟩
  | realInterestRateTrend => exact ⟨_, hmonthly (htrend rfl rfl hreal), rfl⟩

theorem scopePoints_wired (h : Wired k market c) : scopePoints k market = fun name => some (c.resolveMonthly name) := by
  funext name
  obtain ⟨series, hseries, hpoints⟩ := resolveMonthly_wired h name
  unfold scopePoints
  rw [hseries, ← hpoints]
  rfl

theorem loadScope_wired (h : Wired k market c) : loadScope k market = c.load := by
  unfold loadScope CycleInputs.load
  rw [scopePoints_wired h]

/-! ## Scopes -/

theorem mem_inputMarketKeys {x : KpiName} :
    market ∈ inputMarketKeys x ↔ market ∈ kpiRegistry.offered WorldKpi.marketKeys x := by
  cases x with
  | inl name => exact mem_sortMarkets
  | inr kpi =>
    rw [mem_offered_marketKeys]
    simp only [Registry.below_leaf_iff, forall_eq]
    rfl

theorem mem_scopeKeys :
    market ∈ scopeKeys ↔ ∀ name ∈ scopeInputs, market ∈ kpiRegistry.offered WorldKpi.marketKeys name.kpi := by
  unfold scopeKeys
  rw [mem_sortMarkets, Registry.mem_common_iff (by simp [scopeInputs])]
  simp only [List.forall_mem_map, mem_inputMarketKeys]

/-- Every wired scope has its two rates. -/
theorem exists_wired (h : market ∈ scopeKeys) : ∃ c, Wired k market c := by
  have hall := mem_scopeKeys.mp h
  have hrate : ∀ kpi, market ∈ kpiRegistry.offered WorldKpi.marketKeys (.inr kpi) →
      ∃ series, worldSeries k market kpi = .ok (.numeric series) := by
    intro kpi hmem
    rcases worldSeries_cases k market kpi with ⟨-, hseries⟩ | ⟨hnot, -⟩
    · exact hseries
    · rw [mem_offered_marketKeys] at hmem
      exact absurd (hmem kpi (.leaf kpi)) hnot
  obtain ⟨policy, hpolicy⟩ := hrate .policyRate (hall .policyRate (by simp [scopeInputs]))
  obtain ⟨inflation, hinflation⟩ := hrate .inflationRate (hall .inflationRate (by simp [scopeInputs]))
  exact ⟨⟨policy, inflation, k.today, k.deadband⟩, hpolicy, hinflation, rfl, rfl⟩

theorem evaluateScope_eq (k : KpiReads) (market : MarketKey) (config : CycleConfig) :
    evaluateScope k market config = (loadScope k market).map fun d => d.status config market.text := by
  unfold evaluateScope evaluateCycle loadScope
  cases loadCycle (scopePoints k market) <;> rfl

/-- The inputs resolve together, or one of them misses a source. -/
theorem scopePoints_cases (k : KpiReads) (market : MarketKey) (name : InputName) :
    ((∃ points, scopePoints k market name = some points) ∧
      market ∈ kpiRegistry.offered WorldKpi.marketKeys name.kpi) ∨
    scopePoints k market name = none ∧ market ∉ kpiRegistry.offered WorldKpi.marketKeys name.kpi := by
  unfold scopePoints resolveMonthly
  rcases resolveSeries_cases k market name.kpi with ⟨hmem, series, hseries, -⟩ | ⟨hmem, kpi, -, herror⟩
  · rw [hseries]
    exact .inl ⟨⟨_, rfl⟩, hmem⟩
  · rw [herror]
    exact .inr ⟨rfl, hmem⟩

/-- Where the engine evaluates a scope. -/
structure ScopeAccess (k : KpiReads) (config : CycleConfig) (market : MarketKey) : Prop where
  wired : market ∈ scopeKeys → ∃ c, Wired k market c ∧ evaluateScope k market config =
    if commonMonths c.resolveMonthly = [] then .error .noMonths else .ok (c.data.status config market.text)
  lacking : market ∉ scopeKeys → ∃ name ∈ scopeInputs, evaluateScope k market config = .error (.lacksInputs name) ∧
    ∃ kpi, kpiRegistry.Below kpi name.kpi ∧ market ∉ kpi.marketKeys

/-- A run that stops at its first element without `P` gives the error of one. -/
theorem bind_mapM_lacking {α β γ ε : Type} {f : α → Except ε β} {e : α → ε} {rest : List β → Except ε γ}
    {P : α → Prop} {xs : List α} (h : ∀ x ∈ xs, (∃ y, f x = .ok y) ∧ P x ∨ f x = .error (e x) ∧ ¬ P x)
    (hnot : ¬ ∀ x ∈ xs, P x) : ∃ x ∈ xs, (xs.mapM f >>= rest) = .error (e x) ∧ ¬ P x := by
  have hrun : ∃ x ∈ xs, xs.mapM f = .error (e x) ∧ ¬ P x := by
    induction xs with
    | nil => exact absurd (by simp) hnot
    | cons first xs ih =>
      rcases h first List.mem_cons_self with ⟨⟨y, hy⟩, hfirst⟩ | ⟨hstop, hfirst⟩
      · obtain ⟨x, hx, hrest, hlacks⟩ := ih (fun x hx => h x (List.mem_cons_of_mem _ hx))
          fun hP => hnot (List.forall_mem_cons.mpr ⟨hfirst, hP⟩)
        refine ⟨x, List.mem_cons_of_mem _ hx, ?_, hlacks⟩
        rw [List.mapM_cons, hy, hrest]
        rfl
      · refine ⟨first, List.mem_cons_self, ?_, hfirst⟩
        rw [List.mapM_cons, hstop]
        rfl
  obtain ⟨x, hx, hrun, hlacks⟩ := hrun
  exact ⟨x, hx, by rw [hrun]; rfl, hlacks⟩

/-- A load names the first input that does not resolve. -/
theorem loadCycle_lacking {resolve : InputName → Option (List DatedPoint)} {P : InputName → Prop}
    (h : ∀ name ∈ scopeInputs, (∃ points, resolve name = some points) ∧ P name ∨ resolve name = none ∧ ¬ P name)
    (hnot : ¬ ∀ name ∈ scopeInputs, P name) :
    ∃ name ∈ scopeInputs, loadCycle resolve = .error (.lacksInputs name) ∧ ¬ P name := by
  unfold loadCycle
  refine bind_mapM_lacking (fun name hname => ?_) hnot
  rcases h name hname with ⟨⟨points, hpoints⟩, hP⟩ | ⟨hnone, hP⟩
  · exact .inl ⟨⟨points, by rw [hpoints]⟩, hP⟩
  · exact .inr ⟨by rw [hnone], hP⟩

/-- A scope is evaluated exactly where every world KPI below its inputs has a source: then it is computed from
its two rates, and only a grid without months stops it. Elsewhere the error names an input, and a source is
missing below that one. -/
theorem scope_access (k : KpiReads) (config : CycleConfig) (market : MarketKey) : ScopeAccess k config market where
  wired h := by
    obtain ⟨c, hc⟩ := exists_wired (k := k) h
    refine ⟨c, hc, ?_⟩
    rw [evaluateScope_eq, loadScope_wired hc]
    split_ifs with hempty
    · rw [show c.load = .error .noMonths from if_pos hempty]
      rfl
    · rw [CycleInputs.load_eq hempty]
      rfl
  lacking h := by
    rw [mem_scopeKeys] at h
    obtain ⟨name, hname, hload, hlacks⟩ := loadCycle_lacking (fun name _ => scopePoints_cases k market name) h
    rw [mem_offered_marketKeys] at hlacks
    push Not at hlacks
    refine ⟨name, hname, ?_, hlacks⟩
    rw [evaluateScope_eq]
    unfold loadScope
    rw [hload]
    rfl

end FinHub
