import FinHub.MarketCycle.Causal
import FinHub.MarketCycle.Scopes

/-!
# FinHub.MarketCycle.History

The engine keeps no history: it replays all months whenever it is asked. What it replays for a month is what it
would have answered on the last day of that month, and later syncs do not rewrite it.

* `evaluateScope_past`: the replay up to a month, as an answer of that month.
* `syncRuns_history`: the same after any syncs that add no date to the months already past.
-/

namespace FinHub

open Past StepSeries

/-- The observations up to the end of a month. -/
def MacroStore.upTo (m : MonthKey) (s : MacroStore) : MacroStore where
  series := s.series
  observations := s.observations.filter fun o => decide ((monthKey o.obsDate).index ≤ m.index)
  slug_unique := s.slug_unique
  unique := s.unique.sublist (List.filter_sublist.map _)

/-- What is read on the last day of a month from the observations up to it. -/
def KpiReads.upTo (m : MonthKey) (k : KpiReads) : KpiReads where
  store := k.store.upTo m
  today := lastDayOfMonth m
  deadband := k.deadband

/-- How many of the months are past. -/
def CycleData.pastMonths (d : CycleData) (m : MonthKey) : ℕ := (Past.upTo MonthKey.index m.index d.months).length

variable {m : MonthKey} {c : CycleInputs} {s : MacroStore} {k : KpiReads} {market : MarketKey}
  {config : CycleConfig}

/-! ## The series of a scope -/

/-- A series read from the observations up to a month. -/
theorem readMacroSeries_upTo (s : MacroStore) (slug : String) : readMacroSeries (s.upTo m) slug =
    Past.upTo DatedValue.monthIndex m.index (readMacroSeries s slug) := by
  refine eq_of_perm (ascending_readMacroSeries _ _) ((ascending_readMacroSeries s slug).filter _) ?_
  refine (List.perm_insertionSort _ _).trans ?_
  unfold Past.upTo MacroStore.upTo
  refine List.Perm.trans ?_ ((List.perm_insertionSort _ _).symm.filter _)
  rw [List.filter_filter, List.filter_map, List.filter_filter]
  refine .of_eq (congrArg _ (List.filter_congr fun o _ => ?_))
  exact Bool.and_comm _ _

theorem apply_upTo (normalization : Normalization) {levels : List (DatedValue ℚ)}
    (hordered : Ordered DatedValue.obsDate levels) :
    normalization.apply (Past.upTo DatedValue.monthIndex m.index levels) =
      Past.upTo DatedValue.monthIndex m.index (normalization.apply levels) := by
  cases normalization with
  | none => rfl
  | yoyFromLevel => exact (upTo_yoyFromLevel hordered).symm

/-- The series of a source, in order. -/
theorem ordered_apply (normalization : Normalization) (s : MacroStore) (slug : String) :
    Ordered DatedValue.obsDate (normalization.apply (readMacroSeries s slug)) := by
  cases normalization with
  | none => exact (ascending_readMacroSeries s slug).ordered
  | yoyFromLevel => exact (yoyFromLevel_laws s slug).ascending.ordered

/-- What a world series that is read says of its source. -/
theorem worldSeries_ok {kpi : WorldKpi} {series : KpiSeries} (h : worldSeries k market kpi = .ok series) :
    ∃ source, kpi.getSource market = .ok source ∧
      series = .numeric ⟨source.resolution, source.normalization.apply (readMacroSeries k.store source.ref)⟩ := by
  unfold worldSeries worldKpi at h
  cases hsource : kpi.getSource market with
  | error e =>
    rw [hsource] at h
    cases h
  | ok source =>
    rw [hsource] at h
    cases h
    exact ⟨source, rfl, rfl⟩

theorem worldSeries_of_getSource {kpi : WorldKpi} {source : KpiSource} (h : kpi.getSource market = .ok source) :
    worldSeries k market kpi =
      .ok (.numeric ⟨source.resolution, source.normalization.apply (readMacroSeries k.store source.ref)⟩) := by
  unfold worldSeries worldKpi
  rw [h]
  rfl

theorem worldSeries_upTo {kpi : WorldKpi} {series : DatedSeries ℚ}
    (h : worldSeries k market kpi = .ok (.numeric series)) :
    worldSeries (k.upTo m) market kpi = .ok (.numeric (series.upTo m)) ∧ Ordered DatedValue.obsDate series.points := by
  obtain ⟨source, hsource, heq⟩ := worldSeries_ok h
  cases heq
  refine ⟨?_, ordered_apply _ _ _⟩
  rw [worldSeries_of_getSource hsource]
  unfold KpiReads.upTo DatedSeries.upTo
  dsimp only
  rw [readMacroSeries_upTo, apply_upTo _ (ascending_readMacroSeries k.store source.ref).ordered]

theorem Wired.inOrder (h : Wired k market c) : c.InOrder where
  policyRate := (worldSeries_upTo (m := default) h.policyRate).2
  inflationRate := (worldSeries_upTo (m := default) h.inflationRate).2

theorem Wired.upTo (h : Wired k market c) (m : MonthKey) : Wired (k.upTo m) market (c.upTo m) where
  policyRate := (worldSeries_upTo h.policyRate).1
  inflationRate := (worldSeries_upTo h.inflationRate).1
  today := rfl
  deadband := h.deadband

/-- A scope that loads is wired. -/
theorem exists_wired_of_loadScope {d : CycleData} (h : loadScope k market = .ok d) :
    ∃ c, Wired k market c ∧ d = c.data := by
  by_cases hscope : market ∈ scopeKeys
  · obtain ⟨c, hc⟩ := exists_wired (k := k) hscope
    rw [loadScope_wired hc] at h
    exact ⟨c, hc, CycleInputs.eq_data_of_load h⟩
  · obtain ⟨name, -, hload, -⟩ :=
      loadCycle_lacking (fun name _ => scopePoints_cases k market name) fun hall => hscope (mem_scopeKeys.mpr hall)
    unfold loadScope at h
    rw [hload] at h
    cases h

/-! ## The history of a scope -/

/-- The replay up to a month, beside an evaluation on its last day. -/
structure IsHistory (k : KpiReads) (config : CycleConfig) (market : MarketKey) (m : MonthKey) (d : CycleData) :
    Prop where
  silent : d.pastMonths m = 0 → evaluateScope (k.upTo m) market config = .error .noMonths
  answers : 0 < d.pastMonths m → ∃ status, evaluateScope (k.upTo m) market config = .ok status ∧
    (status.currentState, status.currentStateSince) = d.replay config (d.pastMonths m)

theorem status_state (d : CycleData) (config : CycleConfig) (scope : String) :
    ((d.status config scope).currentState, (d.status config scope).currentStateSince) =
      d.replay config d.months.length := Prod.mk.eta

/-- What the engine replays for the months up to one that has ended is what it would have answered on the last
day of that month from the observations up to it: no signal, trend or resampled value looks ahead. -/
theorem evaluateScope_past (config : CycleConfig) {d : CycleData} (hload : loadScope k market = .ok d)
    (hday : lastDayOfMonth m ≤ k.today) : IsHistory k config market m d := by
  obtain ⟨c, hc, rfl⟩ := exists_wired_of_loadScope hload
  have hday' : lastDayOfMonth m ≤ c.today := hc.today ▸ hday
  have hpart := CycleInputs.data_partOf hc.inOrder hday'
  have hlength : c.data.pastMonths m = (c.upTo m).data.months.length := by
    unfold CycleData.pastMonths
    rw [CycleInputs.upTo_months hc.inOrder hday']
  have hmonths : (c.upTo m).data.months = [] ↔ commonMonths (c.upTo m).resolveMonthly = [] := by
    change sortMonths _ = [] ↔ _
    unfold sortMonths
    exact ⟨fun h => List.nil_perm.mp (h ▸ List.perm_insertionSort _ _), fun h => by rw [h]; rfl⟩
  constructor
  · rw [hlength]
    intro hzero
    rw [evaluateScope_eq, loadScope_wired (hc.upTo m)]
    have hempty := hmonths.mp (List.length_eq_zero_iff.mp hzero)
    rw [show (c.upTo m).load = .error .noMonths from if_pos hempty]
    rfl
  · rw [hlength]
    intro hpos
    have hne : (c.upTo m).data.months ≠ [] := List.length_pos_iff.mp hpos
    refine ⟨(c.upTo m).data.status config market.text, ?_, ?_⟩
    · rw [evaluateScope_eq, loadScope_wired (hc.upTo m), CycleInputs.load_eq fun h => hne (hmonths.mpr h)]
      rfl
    · have hfinal : (c.upTo m).data.replay config (c.upTo m).data.months.length = c.data.replay config _ :=
        hpart.replay_past hne le_rfl
      rw [← hfinal, status_state]

namespace Sample

/-- Three releases of the inflation rate, and a deposit rate that is cut after it is raised twice. -/
def eurozone : KpiReads where
  store :=
    { series := [{ slug := "ecb-deposit-rate", provider := some "ecb", sourceUrl := some "deposit" },
        { slug := "eurozone-cpi-yoy", provider := some "ecb", sourceUrl := some "cpi" }]
      observations := [⟨"ecb-deposit-rate", january, 4⟩, ⟨"ecb-deposit-rate", february, 5⟩,
        ⟨"ecb-deposit-rate", march, 6⟩, ⟨"ecb-deposit-rate", april, 11 / 2⟩, ⟨"eurozone-cpi-yoy", january, 3⟩,
        ⟨"eurozone-cpi-yoy", february, 3⟩, ⟨"eurozone-cpi-yoy", march, 3⟩]
      slug_unique := by decide
      unique := by decide }
  today := april
  deadband := 1 / 20

def eurozoneInputs : CycleInputs where
  policyRate := ⟨.event, readMacroSeries eurozone.store "ecb-deposit-rate"⟩
  inflationRate := ⟨.monthly, readMacroSeries eurozone.store "eurozone-cpi-yoy"⟩
  today := april
  deadband := 1 / 20

theorem eurozone_load : loadScope eurozone .spainEurozone = .ok eurozoneInputs.data :=
  (loadScope_wired ⟨rfl, rfl, rfl, rfl⟩).trans (CycleInputs.load_eq (by decide))

theorem eurozone_past : IsHistory eurozone cycleConfig .spainEurozone (monthKey february) eurozoneInputs.data ∧
    eurozoneInputs.data.pastMonths (monthKey february) = 1 :=
  ⟨evaluateScope_past cycleConfig eurozone_load (by decide), by decide⟩

end Sample

/-! ## Later syncs -/

/-- The series that the engine reads in a scope. -/
def scopeSources (market : MarketKey) : List String :=
  [WorldKpi.policyRate, .inflationRate].filterMap fun kpi => ((worldRegistry kpi).lookup market).map KpiSource.ref

/-- What is read on a later day, after runs of the sync. -/
def KpiReads.after (k : KpiReads) (freshness : ℤ) (runs : List MacroRun) (today : Calendar.Date) : KpiReads where
  store := syncRuns freshness k.store runs
  today := today
  deadband := k.deadband

/-- The runs fetch no date of the months up to one for the scope, except dates that are stored already. -/
def NothingBackdated (freshness : ℤ) (s : MacroStore) (runs : List MacroRun) (market : MarketKey) (m : MonthKey) :
    Prop :=
  ∀ o ∈ macroGiven freshness s runs, o.slug ∈ scopeSources market → (monthKey o.obsDate).index ≤ m.index →
    o.key ∈ s.observations.map MacroObservation.key

variable {freshness : ℤ} {runs : List MacroRun} {today : Calendar.Date}

/-- Revisions are not stored, so a series only changes by dates that are new. -/
theorem readMacroSeries_syncRuns (h : NothingBackdated freshness s runs market m) {slug : String}
    (hslug : slug ∈ scopeSources market) :
    readMacroSeries ((syncRuns freshness s runs).upTo m) slug = readMacroSeries (s.upTo m) slug := by
  obtain ⟨rest, hrest⟩ := (syncRuns_laws freshness s runs).kept
  have hunique := (syncRuns freshness s runs).unique
  rw [← hrest, List.map_append] at hunique
  have hnew : ∀ o ∈ rest, o.key ∉ s.observations.map MacroObservation.key := fun o ho hstored =>
    (List.nodup_append.mp hunique).2.2 _ hstored _ (List.mem_map_of_mem ho) rfl
  have hlater : (rest.filter fun o => decide ((monthKey o.obsDate).index ≤ m.index)).filter (fun o => o.slug == slug) = [] := by
    rw [List.filter_filter, List.filter_eq_nil_iff]
    intro o ho hboth
    rw [Bool.and_eq_true, beq_iff_eq, decide_eq_true_eq] at hboth
    obtain ⟨rfl, hmonth⟩ := hboth
    have hfound := ((syncRuns_laws freshness s runs).first_wins o).mp (hrest ▸ List.mem_append_right _ ho)
    rcases List.mem_append.mp (List.mem_of_find?_eq_some hfound) with hstored | hgiven
    · exact hnew o ho (List.mem_map_of_mem hstored)
    · exact hnew o ho (h o hgiven hslug hmonth)
  unfold readMacroSeries MacroStore.upTo
  dsimp only
  rw [← hrest, List.filter_append, List.filter_append, hlater, List.append_nil]

theorem worldSeries_after (h : NothingBackdated freshness k.store runs market m) {kpi : WorldKpi}
    (hkpi : kpi ∈ [WorldKpi.policyRate, .inflationRate]) :
    worldSeries ((k.after freshness runs today).upTo m) market kpi = worldSeries (k.upTo m) market kpi := by
  cases hsource : (worldRegistry kpi).lookup market with
  | none =>
    unfold worldSeries WorldKpi.getSource
    rw [hsource]
    rfl
  | some source =>
    have hget : kpi.getSource market = .ok source := by
      unfold WorldKpi.getSource
      rw [hsource]
    have hslug : source.ref ∈ scopeSources market :=
      List.mem_filterMap.mpr ⟨kpi, hkpi, by rw [hsource]; rfl⟩
    have hread : readMacroSeries ((k.after freshness runs today).upTo m).store source.ref =
        readMacroSeries (k.upTo m).store source.ref := readMacroSeries_syncRuns h hslug
    rw [worldSeries_of_getSource hget, worldSeries_of_getSource hget, hread]

/-- The history of a scope after more runs: the months up to one, and what the engine has for them. -/
structure SameHistory (config : CycleConfig) (m : MonthKey) (d d' : CycleData) : Prop where
  months : Past.upTo MonthKey.index m.index d'.months = Past.upTo MonthKey.index m.index d.months
  values : ∀ name, ∀ i < d.pastMonths m, d'.num name i = d.num name i
  replay : ∀ i ≤ d.pastMonths m, d'.replay config i = d.replay config i

/-- Whatever the providers revise, no sync rewrites the history of a scope: as long as no run brings a date of
the months up to one that the tables lack, the engine keeps these months, their values and its states in them. -/
theorem syncRuns_history (config : CycleConfig) {d : CycleData} (hload : loadScope k market = .ok d)
    (hday : lastDayOfMonth m ≤ k.today) (hlater : k.today ≤ today) (hpast : 0 < d.pastMonths m)
    (hback : NothingBackdated freshness k.store runs market m) :
    ∃ d', loadScope (k.after freshness runs today) market = .ok d' ∧ SameHistory config m d d' := by
  obtain ⟨c, hc, rfl⟩ := exists_wired_of_loadScope hload
  have hscope : market ∈ scopeKeys := by
    by_contra hnot
    obtain ⟨name, -, hlacks, -⟩ := (scope_access k config market).lacking hnot
    rw [evaluateScope_eq, hload] at hlacks
    cases hlacks
  obtain ⟨c', hc'⟩ := exists_wired (k := k.after freshness runs today) hscope
  have hsame : c'.upTo m = c.upTo m := by
    have hpolicy := (hc'.upTo m).policyRate
    have hinflation := (hc'.upTo m).inflationRate
    rw [worldSeries_after hback (by simp), (hc.upTo m).policyRate] at hpolicy
    rw [worldSeries_after hback (by simp), (hc.upTo m).inflationRate] at hinflation
    have hdeadband : c'.deadband = c.deadband := hc'.deadband.trans hc.deadband.symm
    unfold CycleInputs.upTo at hpolicy hinflation ⊢
    simp only [Except.ok.injEq, KpiSeries.numeric.injEq] at hpolicy hinflation
    rw [hpolicy, hinflation, hdeadband]
  have hday' : lastDayOfMonth m ≤ c'.today := hc'.today ▸ hday.trans hlater
  have hday : lastDayOfMonth m ≤ c.today := hc.today ▸ hday
  have hpart := CycleInputs.data_partOf hc.inOrder hday
  have hpart' := CycleInputs.data_partOf hc'.inOrder hday'
  have hmonths := CycleInputs.upTo_months hc.inOrder hday
  have hmonths' := CycleInputs.upTo_months hc'.inOrder hday'
  rw [hsame] at hpart' hmonths'
  have hlength : c.data.pastMonths m = (c.upTo m).data.months.length := congrArg List.length hmonths
  rw [hlength] at hpast
  have hne : (c.upTo m).data.months ≠ [] := List.length_pos_iff.mp hpast
  refine ⟨c'.data, ?_, hmonths'.trans hmonths.symm, ?_, ?_⟩
  · rw [loadScope_wired hc', CycleInputs.load_eq]
    intro hempty
    have hnil : c'.data.months = [] := by
      change sortMonths _ = []
      rw [hempty]
      rfl
    exact hne (List.prefix_nil.mp (hnil ▸ hpart'.months))
  · intro name i hi
    rw [hlength] at hi
    rw [← hpart'.num_eq hi, hpart.num_eq hi]
  · intro i hi
    rw [hlength] at hi
    rw [← hpart'.replay_past hne hi, hpart.replay_past hne hi]

namespace Sample

/-- The inflation rate of March is revised, and that of April is released. -/
def revision : MacroRun where
  now := 0
  answers slug := .fetched (if slug = "eurozone-cpi-yoy" then [⟨march, 4⟩, ⟨april, 2⟩] else [])

theorem eurozone_kept : ∃ d', loadScope (eurozone.after 12 [revision] april) .spainEurozone = .ok d' ∧
    SameHistory cycleConfig (monthKey march) eurozoneInputs.data d' :=
  syncRuns_history cycleConfig eurozone_load (by decide) (by decide) (by decide) (by unfold NothingBackdated; decide)

end Sample

end FinHub
