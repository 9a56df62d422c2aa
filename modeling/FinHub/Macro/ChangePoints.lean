import FinHub.MarketCycle.History

/-!
# FinHub.Macro.ChangePoints

A series of which only the changes are stored, across syncs.

The deposit rate and the policy rate are quoted by day, and their clients pass on the observations that change the
value. Every sync gets the changes up to its day, and the table keeps the first row of a date.

* `syncRuns_changes`: whatever the pace of the syncs and their failures, what is stored reads as the history by
  day up to any sync.
* `evaluateScope_changes`: so the engine answers as from the history by day.
-/

namespace FinHub

open KeepFirst Past StepSeries

/-! ## Resampling reads the step function -/

section

variable {points points' : List (DatedValue ℚ)} {resolution resolution' : Resolution} {as_of : Calendar.Date}

theorem toMonthly_of_later (hres : resolution ≠ .monthly) (h : ∀ p ∈ points, as_of < p.obsDate) :
    (toMonthly ⟨resolution, points⟩ as_of).points = [] := by
  cases points with
  | nil =>
    rw [toMonthly_eq_self (.inr rfl)]
  | cons first rest =>
    rw [toMonthly_cons hres]
    refine List.filterMap_eq_nil_iff.mpr fun m _ => ?_
    have hnone : latestAtOrBefore (first :: rest) (asOfDate as_of m) = none :=
      latestFrom_of_later fun p hp => (min_le_right _ _).trans_lt (h p hp)
    unfold monthPoint
    rw [hnone]
    rfl

/-- A series that reads as another up to a day starts no later. -/
theorem exists_first (h : Ordered DatedValue.obsDate points)
    (hread : ∀ d ≤ as_of, latestAtOrBefore points d = latestAtOrBefore points' d)
    (h' : Ordered DatedValue.obsDate points') {p : DatedValue ℚ} (hp : p ∈ points) (hle : p.obsDate ≤ as_of) :
    ∃ first rest, points' = first :: rest ∧ first.obsDate ≤ p.obsDate := by
  obtain ⟨v, hv, -⟩ : ∃ v, latestAtOrBefore points p.obsDate = some v ∧
      IsLatest DatedValue.obsDate DatedValue.value points p.obsDate v := exists_isLatest h ⟨p, hp, le_rfl⟩
  have hsome : ∃ q ∈ points', q.obsDate ≤ p.obsDate := by
    by_contra hnone
    push Not at hnone
    have hread' := hread _ hle
    rw [hv] at hread'
    cases hread'.trans (latestFrom_of_later hnone)
  obtain ⟨q, hq, hqp⟩ := hsome
  cases points' with
  | nil => cases hq
  | cons first rest =>
    refine ⟨first, rest, rfl, ?_⟩
    rcases List.mem_cons.mp hq with rfl | hq
    · exact hqp
    · exact ((List.pairwise_cons.mp h').1 q hq).trans hqp

/-- Two series with the same value on every day up to one have the same months. -/
theorem toMonthly_congr (hres : resolution ≠ .monthly) (hres' : resolution' ≠ .monthly)
    (h : Ordered DatedValue.obsDate points) (h' : Ordered DatedValue.obsDate points')
    (hread : ∀ d ≤ as_of, latestAtOrBefore points d = latestAtOrBefore points' d) :
    (toMonthly ⟨resolution, points⟩ as_of).points = (toMonthly ⟨resolution', points'⟩ as_of).points := by
  have hread' : ∀ d ≤ as_of, latestAtOrBefore points' d = latestAtOrBefore points d := fun d hd => (hread d hd).symm
  by_cases hsome : ∃ p ∈ points, p.obsDate ≤ as_of
  · obtain ⟨p, hp, hle⟩ := hsome
    obtain ⟨first', rest', rfl, hfirst'⟩ := exists_first h hread h' hp hle
    obtain ⟨first, rest, rfl, hfirst⟩ := exists_first h' hread' h List.mem_cons_self (hfirst'.trans hle)
    obtain ⟨first'', rest'', hcons, hfirst''⟩ := exists_first h hread h' List.mem_cons_self
      (hfirst.trans (hfirst'.trans hle))
    obtain ⟨rfl, rfl⟩ := List.cons.inj hcons
    have hdate : first.obsDate = first'.obsDate := le_antisymm hfirst hfirst''
    rw [toMonthly_cons hres, toMonthly_cons hres', hdate]
    refine List.filterMap_congr fun m _ => ?_
    unfold monthPoint
    rw [hread (asOfDate as_of m) (min_le_right _ _)]
  · push Not at hsome
    rw [toMonthly_of_later hres hsome, toMonthly_of_later hres']
    intro p' hp'
    by_contra hle
    obtain ⟨first, rest, rfl, hfirst⟩ := exists_first h' hread' h hp' (not_lt.mp hle)
    exact absurd (hsome first List.mem_cons_self) (not_lt.mpr (hfirst.trans (not_lt.mp hle)))

end

/-! ## What the runs store -/

/-- A provider that revises nothing, behind a client that passes on the changes: a fetch gets those up to its day. -/
structure ReleasesChanges (slug : String) (history : List (DatedValue ℚ)) (day : Timestamp → Calendar.Date)
    (runs : List MacroRun) : Prop where
  ascending : Ascending history
  answers : ∀ run ∈ runs, ∀ observations, run.answers slug = .fetched observations →
    observations = changePointsOnly (Past.upTo DatedValue.obsDate (day run.now) history)

section

variable {freshness : ℤ} {run : MacroRun} {runs : List MacroRun} {s : MacroStore} {slug : String}
  {history : List (DatedValue ℚ)} {day : Timestamp → Calendar.Date}

theorem Ascending.past (h : Ascending history) (d : Calendar.Date) :
    Ascending (Past.upTo DatedValue.obsDate d history) := h.filter _

theorem Ascending.nodup (h : Ascending history) : history.Nodup := by
  refine h.imp ?_
  rintro p q hlt rfl
  exact lt_irrefl _ hlt

theorem changePointsOnly_eq (h : Ascending history) :
    changePointsOnly history = changesFrom DatedValue.value none history := by
  unfold changePointsOnly
  rw [sortedByDate_eq_self h.ordered]

/-- The changes up to a day. -/
theorem changePointsOnly_upTo (h : Ascending history) (d : Calendar.Date) :
    changePointsOnly (Past.upTo DatedValue.obsDate d history) =
      Past.upTo DatedValue.obsDate d (changePointsOnly history) := by
  rw [changePointsOnly_eq h, changePointsOnly_eq (h.past d), upTo_changesFrom h.ordered]

theorem ascending_changePointsOnly (h : Ascending history) : Ascending (changePointsOnly history) := by
  rw [changePointsOnly_eq h]
  exact h.sublist (changesFrom_sublist _ _ _)

theorem answers_of_fetchedFor {x : MacroSeries} {observations : List (DatedValue ℚ)}
    (h : run.fetchedFor freshness x = some observations) : run.answers x.slug = .fetched observations := by
  unfold MacroRun.fetchedFor MacroRun.answerTo at h
  split_ifs at h
  · cases h
  · rw [Option.bind_some] at h
    cases hanswer : run.answers x.slug with
    | fetched observations' =>
      rw [hanswer] at h
      rw [Option.some_inj.mp h]
    | refused e =>
      rw [hanswer] at h
      cases h
    | raised e =>
      rw [hanswer] at h
      cases h

/-- A run that fetches the series tries to store its changes up to the day. -/
theorem mem_rows_iff (h : ReleasesChanges slug history day [run]) (p : DatedValue ℚ) :
    ⟨slug, p.obsDate, p.value⟩ ∈ run.rows freshness s ↔
      slug ∈ run.stamped freshness s ∧ p ∈ changePointsOnly history ∧ p.obsDate ≤ day run.now := by
  have hobservations : ∀ x observations, x.slug = slug → run.fetchedFor freshness x = some observations →
      (p ∈ observations ↔ p ∈ changePointsOnly history ∧ p.obsDate ≤ day run.now) := by
    rintro x observations rfl hfetched
    rw [h.answers run List.mem_cons_self observations (answers_of_fetchedFor hfetched),
      changePointsOnly_upTo h.ascending, mem_upTo]
  unfold MacroRun.rows MacroRun.stamped
  rw [List.mem_flatMap, List.mem_map]
  constructor
  · rintro ⟨x, hx, hrow⟩
    cases hfetched : run.fetchedFor freshness x with
    | none =>
      rw [hfetched] at hrow
      cases hrow
    | some observations =>
      rw [hfetched] at hrow
      obtain ⟨q, hq, heq⟩ := List.mem_map.mp hrow
      obtain ⟨hslug, hdate, hvalue⟩ := MacroObservation.mk.inj heq
      obtain rfl : q = p := by
        cases q
        cases p
        exact congrArg₂ DatedValue.mk hdate hvalue
      exact ⟨⟨x, List.mem_filter.mpr ⟨hx, by rw [hfetched]; rfl⟩, hslug⟩, (hobservations x _ hslug hfetched).mp hq⟩
  · rintro ⟨⟨x, hx, hslug⟩, hp⟩
    obtain ⟨hx, hsome⟩ := List.mem_filter.mp hx
    obtain ⟨observations, hfetched⟩ := Option.isSome_iff_exists.mp hsome
    refine ⟨x, hx, ?_⟩
    rw [hfetched]
    refine List.mem_map.mpr ⟨p, (hobservations x _ hslug hfetched).mpr hp, ?_⟩
    rw [hslug]

theorem ReleasesChanges.head (h : ReleasesChanges slug history day (run :: runs)) :
    ReleasesChanges slug history day [run] :=
  ⟨h.ascending, fun run' hrun => h.answers run' (by simp only [List.mem_singleton.mp hrun, List.mem_cons_self])⟩

theorem ReleasesChanges.tail (h : ReleasesChanges slug history day (run :: runs)) :
    ReleasesChanges slug history day runs :=
  ⟨h.ascending, fun run' hrun => h.answers run' (List.mem_cons_of_mem _ hrun)⟩

theorem mem_macroGiven_iff (h : ReleasesChanges slug history day runs) (s : MacroStore) (p : DatedValue ℚ) :
    ⟨slug, p.obsDate, p.value⟩ ∈ macroGiven freshness s runs ↔
      p ∈ changePointsOnly history ∧ ∃ t, (slug, t) ∈ macroFetches freshness s runs ∧ p.obsDate ≤ day t := by
  induction runs generalizing s with
  | nil =>
    unfold macroGiven macroFetches
    simp
  | cons run runs ih =>
    unfold macroGiven macroFetches
    rw [List.mem_append, mem_rows_iff h.head, ih h.tail]
    constructor
    · rintro (⟨hstamped, hp, hle⟩ | ⟨hp, t, ht, hle⟩)
      · exact ⟨hp, run.now, List.mem_append_left _ (List.mem_map.mpr ⟨slug, hstamped, rfl⟩), hle⟩
      · exact ⟨hp, t, List.mem_append_right _ ht, hle⟩
    · rintro ⟨hp, t, ht, hle⟩
      rcases List.mem_append.mp ht with hnow | hlater
      · obtain ⟨slug', hstamped, heq⟩ := List.mem_map.mp hnow
        obtain ⟨rfl, rfl⟩ := Prod.mk.inj heq
        exact .inl ⟨hstamped, hp, hle⟩
      · exact .inr ⟨hp, t, hlater, hle⟩

theorem mem_readMacroSeries {p : DatedValue ℚ} :
    p ∈ readMacroSeries s slug ↔ ⟨slug, p.obsDate, p.value⟩ ∈ s.observations := by
  unfold readMacroSeries
  rw [mem_sortedByDate, List.mem_map]
  constructor
  · rintro ⟨o, ho, rfl⟩
    obtain ⟨ho, hslug⟩ := List.mem_filter.mp ho
    rw [← eq_of_beq hslug]
    exact ho
  · intro hp
    exact ⟨_, List.mem_filter.mpr ⟨hp, beq_self_eq_true slug⟩, rfl⟩

/-- A series that was empty has, after the runs, the changes up to a day of a fetch. -/
theorem mem_readMacroSeries_syncRuns (h : ReleasesChanges slug history day runs)
    (hnew : ∀ o ∈ s.observations, o.slug ≠ slug) (p : DatedValue ℚ) :
    p ∈ readMacroSeries (syncRuns freshness s runs) slug ↔
      p ∈ changePointsOnly history ∧ ∃ t, (slug, t) ∈ macroFetches freshness s runs ∧ p.obsDate ≤ day t := by
  rw [← mem_macroGiven_iff h, mem_readMacroSeries, (syncRuns_laws freshness s runs).first_wins]
  constructor
  · intro hfound
    rcases List.mem_append.mp (List.mem_of_find?_eq_some hfound) with hstored | hgiven
    · exact absurd rfl (hnew _ hstored)
    · exact hgiven
  · intro hgiven
    cases hfound : (s.observations ++ macroGiven freshness s runs).find? fun o =>
        decide (o.key = MacroObservation.key ⟨slug, p.obsDate, p.value⟩) with
    | none => exact absurd (decide_eq_true rfl) (List.find?_eq_none.mp hfound _ (List.mem_append_right _ hgiven))
    | some o =>
      have hkey := List.find?_some hfound
      rw [decide_eq_true_eq] at hkey
      obtain ⟨hslug, hdate⟩ := Prod.mk.inj hkey
      rcases List.mem_append.mp (List.mem_of_find?_eq_some hfound) with hstored | hother
      · exact absurd hslug (hnew o hstored)
      · -- The history has one value for the date.
        obtain ⟨oslug, odate, ovalue⟩ := o
        dsimp only at hslug hdate
        subst hslug hdate
        have hmem := ((mem_macroGiven_iff h s ⟨p.obsDate, ovalue⟩).mp hother).1
        have hmem' := ((mem_macroGiven_iff h s p).mp hgiven).1
        have hnodup : ((changePointsOnly history).map DatedValue.obsDate).Nodup :=
          List.pairwise_map.mpr ((ascending_changePointsOnly h.ascending).imp fun hlt => hlt.ne)
        have hsame := List.inj_on_of_nodup_map hnodup hmem hmem' rfl
        rw [← hsame]

/-- What the runs leave of a history by day. -/
structure ChangesKept (freshness : ℤ) (s : MacroStore) (runs : List MacroRun) (slug : String)
    (history : List (DatedValue ℚ)) (day : Timestamp → Calendar.Date) : Prop where
  rows : ∀ p, p ∈ readMacroSeries (syncRuns freshness s runs) slug ↔
    p ∈ changePointsOnly history ∧ ∃ t, (slug, t) ∈ macroFetches freshness s runs ∧ p.obsDate ≤ day t
  inForce : ∀ t, (slug, t) ∈ macroFetches freshness s runs → ∀ d ≤ day t,
    latestAtOrBefore (readMacroSeries (syncRuns freshness s runs) slug) d = latestAtOrBefore history d
  byMonth : ∀ t, (slug, t) ∈ macroFetches freshness s runs → ∀ as_of ≤ day t,
    (toMonthly ⟨.event, readMacroSeries (syncRuns freshness s runs) slug⟩ as_of).points =
      (toMonthly ⟨.daily, history⟩ as_of).points

/-- Up to any fetch the stored changes read as the history by day, at every day and by month, whatever runs came
between, failed or were left out. -/
theorem syncRuns_changes (h : ReleasesChanges slug history day runs) (hnew : ∀ o ∈ s.observations, o.slug ≠ slug) :
    ChangesKept freshness s runs slug history day := by
  have hrows : ∀ p, p ∈ readMacroSeries (syncRuns freshness s runs) slug ↔
      p ∈ changePointsOnly history ∧ ∃ t, (slug, t) ∈ macroFetches freshness s runs ∧ p.obsDate ≤ day t :=
    fun p => mem_readMacroSeries_syncRuns h hnew p
  have hstored := ascending_readMacroSeries (syncRuns freshness s runs) slug
  have hchanges := ascending_changePointsOnly h.ascending
  have hread : ∀ t, (slug, t) ∈ macroFetches freshness s runs → ∀ d ≤ day t,
      latestAtOrBefore (readMacroSeries (syncRuns freshness s runs) slug) d = latestAtOrBefore history d := by
    intro t ht d hd
    have hsame : Past.upTo DatedValue.obsDate (day t) (readMacroSeries (syncRuns freshness s runs) slug) =
        Past.upTo DatedValue.obsDate (day t) (changePointsOnly history) := by
      refine eq_of_perm (hstored.past _) (hchanges.past _) ?_
      refine (List.perm_ext_iff_of_nodup (hstored.past _).nodup (hchanges.past _).nodup).mpr fun p => ?_
      rw [mem_upTo, mem_upTo, hrows]
      exact ⟨fun ⟨⟨hp, _⟩, hle⟩ => ⟨hp, hle⟩, fun ⟨hp, hle⟩ => ⟨⟨hp, t, ht, hle⟩, hle⟩⟩
    have hkeep : ∀ p : DatedValue ℚ, p.obsDate ≤ d → decide (p.obsDate ≤ day t) = true :=
      fun p hp => decide_eq_true (hp.trans hd)
    calc latestAtOrBefore (readMacroSeries (syncRuns freshness s runs) slug) d
        = latestAtOrBefore (Past.upTo DatedValue.obsDate (day t)
            (readMacroSeries (syncRuns freshness s runs) slug)) d := (latestFrom_filter hkeep hstored.ordered).symm
      _ = latestAtOrBefore (Past.upTo DatedValue.obsDate (day t) (changePointsOnly history)) d := by rw [hsame]
      _ = latestAtOrBefore (changePointsOnly history) d := latestFrom_filter hkeep hchanges.ordered
      _ = latestAtOrBefore history d := by
        rw [changePointsOnly_eq h.ascending]
        exact latestFrom_changesFrom h.ascending.ordered none
  refine ⟨hrows, hread, fun t ht as_of hle => ?_⟩
  exact toMonthly_congr (by decide) (by decide) hstored.ordered h.ascending.ordered fun d hd =>
    hread t ht d (hd.trans hle)

end

/-! ## The engine -/

/-- The inputs of the engine read the policy rate by month. -/
theorem CycleInputs.resolveMonthly_congr {c : CycleInputs} {policy_rate : DatedSeries ℚ}
    (h : (toMonthly c.policyRate c.today).points = (toMonthly policy_rate c.today).points) (name : InputName) :
    c.resolveMonthly name = { c with policyRate := policy_rate }.resolveMonthly name := by
  have hlevel : ∀ l, (c.levelSeries l).points = (CycleInputs.levelSeries { c with policyRate := policy_rate } l).points := by
    intro l
    cases l with
    | policyRate => exact h
    | inflationRate => rfl
    | realInterestRate =>
      rw [levelSeries_realInterestRate, levelSeries_realInterestRate]
      exact difference_points h rfl
  have htrend : ∀ l, (c.trendSeries l).points = (CycleInputs.trendSeries { c with policyRate := policy_rate } l).points := by
    intro l
    rw [trendSeries_points, trendSeries_points, slopeStep_points, slopeStep_points, hlevel]
  cases name with
  | policyRate => exact congrArg numbers (hlevel .policyRate)
  | inflationRate => exact congrArg numbers (hlevel .inflationRate)
  | realInterestRate => exact congrArg numbers (hlevel .realInterestRate)
  | policyRateTrend => exact congrArg directions (htrend .policyRate)
  | inflationRateTrend => exact congrArg directions (htrend .inflationRate)
  | realInterestRateTrend => exact congrArg directions (htrend .realInterestRate)

section

variable {k : KpiReads} {freshness : ℤ} {runs : List MacroRun} {history : List (DatedValue ℚ)}
  {day : Timestamp → Calendar.Date} {today : Calendar.Date}

/-- What the engine would read if the deposit rate were stored by day. -/
def byDay (k : KpiReads) (history : List (DatedValue ℚ)) : CycleInputs where
  policyRate := ⟨.daily, history⟩
  inflationRate := ⟨.monthly, readMacroSeries k.store "eurozone-cpi-yoy"⟩
  today := k.today
  deadband := k.deadband

/-- Storing the changes of the deposit rate as the syncs find them, the engine answers on every day up to a fetch
as from the whole history by day. -/
theorem evaluateScope_changes (config : CycleConfig) (h : ReleasesChanges "ecb-deposit-rate" history day runs)
    (hnew : ∀ o ∈ k.store.observations, o.slug ≠ "ecb-deposit-rate") {t : Timestamp}
    (ht : ("ecb-deposit-rate", t) ∈ macroFetches freshness k.store runs) (htoday : today ≤ day t) :
    evaluateScope (k.after freshness runs today) .spainEurozone config =
      (byDay (k.after freshness runs today) history).load.map
        fun d => d.status config MarketKey.spainEurozone.text := by
  let c : CycleInputs :=
    { byDay (k.after freshness runs today) history with
      policyRate := ⟨.event, readMacroSeries (syncRuns freshness k.store runs) "ecb-deposit-rate"⟩ }
  have hwired : Wired (k.after freshness runs today) .spainEurozone c := ⟨rfl, rfl, rfl, rfl⟩
  have hmonths : (toMonthly c.policyRate today).points = (toMonthly ⟨.daily, history⟩ today).points :=
    (syncRuns_changes h hnew).byMonth t ht today htoday
  have hinputs : c.resolveMonthly = (byDay (k.after freshness runs today) history).resolveMonthly :=
    funext fun name => CycleInputs.resolveMonthly_congr hmonths name
  rw [evaluateScope_eq, loadScope_wired hwired]
  unfold CycleInputs.load
  rw [hinputs]

end

namespace Sample

/-- A deposit rate by day that moves twice. -/
def depositRate : List (DatedValue ℚ) := [⟨january, 4⟩, ⟨february, 5⟩, ⟨march, 5⟩, ⟨april, 4⟩]

def fetchDay (t : Timestamp) : Calendar.Date := if t < 60 then february else april

def depositRun (now : Timestamp) (refused : Bool) : MacroRun where
  slugs := some ["ecb-deposit-rate"]
  now := now
  answers _ := if refused then .refused "circuit open" else
    .fetched (changePointsOnly (Past.upTo DatedValue.obsDate (fetchDay now) depositRate))

/-- Fetched in February, refused in March, and fetched in April. -/
def depositRuns : List MacroRun := [depositRun 31 false, depositRun 60 true, depositRun 90 false]

theorem depositRuns_release : ReleasesChanges "ecb-deposit-rate" depositRate fetchDay depositRuns where
  ascending := by unfold Ascending; decide
  answers run hrun observations hfetched := by
    simp only [depositRuns, List.mem_cons, List.not_mem_nil, or_false] at hrun
    rcases hrun with rfl | rfl | rfl
    · exact (MacroAnswer.fetched.inj hfetched).symm
    · cases hfetched
    · exact (MacroAnswer.fetched.inj hfetched).symm

/-- Before the deposit rate is fetched. -/
def withoutRate : KpiReads where
  store :=
    { series := eurozone.store.series
      observations := [⟨"eurozone-cpi-yoy", january, 3⟩, ⟨"eurozone-cpi-yoy", february, 3⟩, ⟨"eurozone-cpi-yoy", march, 3⟩]
      slug_unique := by decide
      unique := by decide }
  today := january
  deadband := 1 / 20

/-- Three rows are stored of four days. -/
theorem deposit_changes : ChangesKept 12 withoutRate.store depositRuns "ecb-deposit-rate" depositRate fetchDay ∧
    (readMacroSeries (syncRuns 12 withoutRate.store depositRuns) "ecb-deposit-rate").length = 3 :=
  ⟨syncRuns_changes depositRuns_release (by decide), by decide⟩

theorem eurozone_changes :
    evaluateScope (withoutRate.after 12 depositRuns april) .spainEurozone cycleConfig =
      (byDay (withoutRate.after 12 depositRuns april) depositRate).load.map
        fun d => d.status cycleConfig MarketKey.spainEurozone.text :=
  evaluateScope_changes cycleConfig depositRuns_release (by decide) (t := 90) (by decide) (by decide)

end Sample

end FinHub
