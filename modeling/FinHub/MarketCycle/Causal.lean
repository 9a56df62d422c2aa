import FinHub.Lib.Past
import FinHub.Macro.WorldKpi

/-!
# FinHub.MarketCycle.Causal

The derivations of the macro series and the replay of the engine look at no later month.

* `upTo_toMonthly`, `upTo_slopeStep`, `upTo_difference`, `upTo_yoyFromLevel`: the past of a derived series is
  derived from the past.
* `CycleInputs.data_partOf`: so are the months and the values of the engine.
* `replay_past`: the replay of a first part of the months is the first part of the replay.
-/

namespace FinHub

open Past StepSeries

/-! ## What was known at the end of a month -/

def DatedValue.monthIndex {α : Type} (p : DatedValue α) : ℤ := (monthKey p.obsDate).index

def DatedPoint.monthIndex (p : DatedPoint) : ℤ := (monthKey p.obsDate).index

/-- The points of a series up to the end of a month. -/
def DatedSeries.upTo {α : Type} (m : MonthKey) (series : DatedSeries α) : DatedSeries α where
  resolution := series.resolution
  points := Past.upTo DatedValue.monthIndex m.index series.points

def CycleInputs.upTo (m : MonthKey) (c : CycleInputs) : CycleInputs where
  policyRate := c.policyRate.upTo m
  inflationRate := c.inflationRate.upTo m
  today := lastDayOfMonth m
  deadband := c.deadband

variable {α : Type} {m : MonthKey} {as_of : Calendar.Date} {series : DatedSeries α} {points : List (DatedValue α)}

theorem monthOrdered_of_ordered (h : Ordered DatedValue.obsDate points) : Ordered DatedValue.monthIndex points :=
  h.imp fun hle => Calendar.Date.index_mono hle

/-! ## Resampling is causal -/

theorem lastDayOfMonth_mono {m' : MonthKey} (h : m'.index ≤ m.index) : lastDayOfMonth m' ≤ lastDayOfMonth m :=
  le_lastDayOfMonth h

/-- A month that is past ends on its last day, whenever the series is read. -/
theorem asOfDate_past {m' : MonthKey} (hday : lastDayOfMonth m ≤ as_of) (h : m'.index ≤ m.index) :
    asOfDate as_of m' = lastDayOfMonth m' := min_eq_left ((lastDayOfMonth_mono h).trans hday)

theorem upTo_monthsUpTo (h : m.index ≤ (monthKey as_of).index) (fuel : ℕ) (start : MonthKey) :
    Past.upTo MonthKey.index m.index (monthsUpTo as_of fuel start) = monthsUpTo (lastDayOfMonth m) fuel start := by
  induction fuel generalizing start with
  | zero => rfl
  | succ fuel ih =>
    have hkey : (monthKey (lastDayOfMonth m)).index = m.index := rfl
    unfold monthsUpTo
    rw [hkey]
    rcases le_or_gt start.index m.index with hle | hlt
    · rw [if_pos (hle.trans h), if_pos hle, upTo_cons_of_le hle, ih]
    · rw [if_neg (not_le.mpr hlt)]
      refine upTo_eq_nil fun m' hm' => ?_
      split_ifs at hm' with hstart
      · rcases List.mem_cons.mp hm' with rfl | hrest
        · exact hlt
        · have hlow := (mem_monthsUpTo hrest).1
          rw [start.index_next] at hlow
          omega
      · cases hm'

theorem monthsUpTo_fuel {fuel fuel' : ℕ} {start : MonthKey}
    (h : ((monthKey as_of).index + 1 - start.index).toNat ≤ fuel)
    (h' : ((monthKey as_of).index + 1 - start.index).toNat ≤ fuel') :
    monthsUpTo as_of fuel start = monthsUpTo as_of fuel' start := by
  refine List.map_injective_iff.mpr (fun _ _ => MonthKey.index_injective) ?_
  rw [monthsUpTo_eq fuel h, monthsUpTo_eq fuel' h']

/-- The point of a month that is past is known at its end. -/
theorem monthPoint_past (hordered : Ordered DatedValue.obsDate points) (hday : lastDayOfMonth m ≤ as_of)
    {m' : MonthKey} (h : m'.index ≤ m.index) : monthPoint points as_of m' =
      monthPoint (Past.upTo DatedValue.monthIndex m.index points) (lastDayOfMonth m) m' := by
  unfold monthPoint
  rw [asOfDate_past hday h, asOfDate_past le_rfl h]
  unfold latestAtOrBefore Past.upTo
  rw [latestFrom_filter _ hordered]
  intro p hp
  have hindex : (monthKey p.obsDate).index ≤ m'.index := Calendar.Date.index_mono hp
  exact decide_eq_true (hindex.trans h)

/-- The past of a resampling is the resampling of the past. -/
theorem upTo_toMonthly (hordered : Ordered DatedValue.obsDate series.points) (hday : lastDayOfMonth m ≤ as_of) :
    Past.upTo DatedValue.monthIndex m.index (toMonthly series as_of).points =
      (toMonthly (series.upTo m) (lastDayOfMonth m)).points := by
  have hm : m.index ≤ (monthKey as_of).index := Calendar.Date.index_mono hday
  obtain ⟨resolution, points⟩ := series
  by_cases hres : resolution = .monthly
  · rw [toMonthly_eq_self (.inl hres), toMonthly_eq_self (.inl hres)]
    rfl
  · cases points with
    | nil =>
      rw [toMonthly_eq_self (.inr rfl), toMonthly_eq_self (.inr rfl)]
      rfl
    | cons first rest =>
      rw [toMonthly_cons hres]
      have hpast : ∀ fuel start, Past.upTo DatedValue.monthIndex m.index
          ((monthsUpTo as_of fuel start).filterMap (monthPoint (first :: rest) as_of)) =
          (monthsUpTo (lastDayOfMonth m) fuel start).filterMap
            (monthPoint (Past.upTo DatedValue.monthIndex m.index (first :: rest)) (lastDayOfMonth m)) := by
        intro fuel start
        rw [← upTo_monthsUpTo hm]
        refine upTo_filterMap ?_ fun m' _ hle => monthPoint_past hordered hday hle
        intro m' hm' p hp
        obtain ⟨v, -, rfl⟩ := Option.map_eq_some_iff.mp hp
        exact congrArg MonthKey.index (monthKey_asOfDate (mem_monthsUpTo hm').2)
      rw [hpast]
      unfold DatedSeries.upTo
      dsimp only
      rcases le_or_gt first.monthIndex m.index with hle | hlt
      · rw [upTo_cons_of_le hle, toMonthly_cons hres]
        have hle' : (monthKey first.obsDate).index ≤ m.index := hle
        have hkey : (monthKey (lastDayOfMonth m)).index = m.index := rfl
        exact congrArg _ (monthsUpTo_fuel (by rw [hkey]; omega) le_rfl)
      · have hlater : ∀ p ∈ first :: rest, m.index < p.monthIndex := by
          intro p hp
          rcases List.mem_cons.mp hp with rfl | hp
          · exact hlt
          · exact hlt.trans_le ((List.pairwise_cons.mp (monthOrdered_of_ordered hordered)).1 p hp)
        rw [upTo_eq_nil hlater, toMonthly_eq_self (.inr rfl)]
        refine List.filterMap_eq_nil_iff.mpr fun m' _ => ?_
        rfl

/-! ## The derivations are causal -/

theorem upTo_slopeStep {series : DatedSeries ℚ} (deadband : ℚ)
    (hordered : Ordered DatedValue.monthIndex series.points) :
    Past.upTo DatedValue.monthIndex m.index (slopeStep deadband series).points =
      (slopeStep deadband (series.upTo m)).points := by
  rw [slopeStep_points, slopeStep_points, upTo_map fun _ _ => rfl]
  exact congrArg _ (upTo_steps hordered)

/-- The value in a month is that of its past. -/
theorem valueIn_upTo {month : MonthKey} (h : month.index ≤ m.index) :
    valueIn (Past.upTo DatedValue.monthIndex m.index points) month = valueIn points month := by
  unfold valueIn
  rw [find?_upTo]
  intro p hp
  rw [decide_eq_true_eq] at hp
  exact (congrArg MonthKey.index hp).trans_le h

theorem upTo_difference (left right : DatedSeries ℚ) :
    Past.upTo DatedValue.monthIndex m.index (difference left right).points =
      (difference (left.upTo m) (right.upTo m)).points := by
  refine upTo_filterMap ?_ ?_
  · intro p _ q hq
    obtain ⟨v, -, rfl⟩ := Option.map_eq_some_iff.mp hq
    rfl
  · intro p _ hle
    exact congrArg _ (valueIn_upTo hle).symm

theorem upTo_yoyFromLevel {levels : List (DatedValue ℚ)} (hordered : Ordered DatedValue.obsDate levels) :
    Past.upTo DatedValue.monthIndex m.index (yoyFromLevel levels) =
      yoyFromLevel (Past.upTo DatedValue.monthIndex m.index levels) := by
  rw [yoyFromLevel_eq, yoyFromLevel_eq, sortedByDate_eq_self hordered, sortedByDate_eq_self (upTo_ordered hordered)]
  refine upTo_filterMap ?_ ?_
  · intro p _ q hq
    obtain ⟨f, -, rfl⟩ := Option.map_eq_some_iff.mp hq
    rfl
  · intro p _ hle
    have hbefore : (monthKey p.obsDate).yearBefore.index ≤ m.index := by
      have hmonth : (monthKey p.obsDate).index ≤ m.index := hle
      rw [MonthKey.index_yearBefore]
      omega
    unfold growthRule
    rw [valueIn_upTo hbefore]

/-- Resampled points stand in order. -/
theorem ordered_toMonthly (hordered : Ordered DatedValue.obsDate series.points) (as_of : Calendar.Date) :
    Ordered DatedValue.obsDate (toMonthly series as_of).points := by
  obtain ⟨resolution, points⟩ := series
  by_cases hres : resolution = .monthly
  · rw [toMonthly_eq_self (.inl hres)]
    exact hordered
  · cases points with
    | nil =>
      rw [toMonthly_eq_self (.inr rfl)]
      exact .nil
    | cons first rest =>
      rw [toMonthly_cons hres]
      have hmonths : ∀ n start, ((monthsUpTo as_of n start).map MonthKey.index).Pairwise (· ≤ ·) := by
        intro n start
        induction n generalizing start with
        | zero => exact .nil
        | succ n ih =>
          unfold monthsUpTo
          split_ifs
          · refine List.pairwise_cons.mpr ⟨?_, ih start.next⟩
            rw [List.forall_mem_map]
            intro m' hm'
            have hlow := (mem_monthsUpTo hm').1
            rw [start.index_next] at hlow
            omega
          · exact .nil
      refine List.Pairwise.filterMap _ ?_ (List.pairwise_map.mp (hmonths _ _))
      intro m' m'' hle p hp q hq
      obtain ⟨v, -, rfl⟩ := Option.map_eq_some_iff.mp hp
      obtain ⟨w, -, rfl⟩ := Option.map_eq_some_iff.mp hq
      exact min_le_min_right as_of (lastDayOfMonth_mono hle)

theorem ordered_difference {left right : DatedSeries ℚ} (h : Ordered DatedValue.obsDate left.points) :
    Ordered DatedValue.obsDate (difference left right).points := by
  refine List.Pairwise.filterMap _ ?_ h
  intro p q hle p' hp q' hq
  obtain ⟨v, -, rfl⟩ := Option.map_eq_some_iff.mp hp
  obtain ⟨w, -, rfl⟩ := Option.map_eq_some_iff.mp hq
  exact hle

/-! ## The inputs of the engine are causal -/

/-- The two rates stand in the order of their dates. -/
structure CycleInputs.InOrder (c : CycleInputs) : Prop where
  policyRate : Ordered DatedValue.obsDate c.policyRate.points
  inflationRate : Ordered DatedValue.obsDate c.inflationRate.points

namespace CycleInputs

variable {c : CycleInputs}

theorem levelSeries_realInterestRate (c : CycleInputs) : c.levelSeries .realInterestRate =
    difference (toMonthly c.policyRate c.today) (toMonthly c.inflationRate c.today) :=
  toMonthly_eq_self (.inl rfl) _

theorem ordered_levelSeries (h : c.InOrder) (l : TrendLevel) :
    Ordered DatedValue.obsDate (c.levelSeries l).points := by
  cases l with
  | policyRate => exact ordered_toMonthly h.policyRate _
  | inflationRate => exact ordered_toMonthly h.inflationRate _
  | realInterestRate =>
    rw [levelSeries_realInterestRate]
    exact ordered_difference (ordered_toMonthly h.policyRate _)

/-- A difference reads the points. -/
theorem difference_points {left left' right right' : DatedSeries ℚ} (hleft : left.points = left'.points)
    (hright : right.points = right'.points) : (difference left right).points = (difference left' right').points := by
  unfold difference
  rw [hleft, hright]

theorem upTo_levelSeries (h : c.InOrder) (hday : lastDayOfMonth m ≤ c.today) (l : TrendLevel) :
    Past.upTo DatedValue.monthIndex m.index (c.levelSeries l).points = ((c.upTo m).levelSeries l).points := by
  cases l with
  | policyRate => exact upTo_toMonthly h.policyRate hday
  | inflationRate => exact upTo_toMonthly h.inflationRate hday
  | realInterestRate =>
    rw [levelSeries_realInterestRate, levelSeries_realInterestRate, upTo_difference]
    exact difference_points (upTo_toMonthly h.policyRate hday) (upTo_toMonthly h.inflationRate hday)

theorem upTo_trendSeries (h : c.InOrder) (hday : lastDayOfMonth m ≤ c.today) (l : TrendLevel) :
    Past.upTo DatedValue.monthIndex m.index (c.trendSeries l).points = ((c.upTo m).trendSeries l).points := by
  rw [trendSeries_points, trendSeries_points,
    upTo_slopeStep _ (monthOrdered_of_ordered (ordered_levelSeries h l)), slopeStep_points, slopeStep_points]
  rw [← upTo_levelSeries h hday]
  rfl

theorem upTo_numbers (points : List (DatedValue ℚ)) : Past.upTo DatedPoint.monthIndex m.index (numbers points) =
    numbers (Past.upTo DatedValue.monthIndex m.index points) := upTo_map fun _ _ => rfl

theorem upTo_directions (points : List (DatedValue TrendDirection)) :
    Past.upTo DatedPoint.monthIndex m.index (directions points) =
      directions (Past.upTo DatedValue.monthIndex m.index points) := upTo_map fun _ _ => rfl

/-- The past of every input is the input of the past. -/
theorem upTo_resolveMonthly (h : c.InOrder) (hday : lastDayOfMonth m ≤ c.today) (name : InputName) :
    Past.upTo DatedPoint.monthIndex m.index (c.resolveMonthly name) = (c.upTo m).resolveMonthly name := by
  have hlevel := upTo_levelSeries h hday
  have htrend := upTo_trendSeries h hday
  cases name with
  | policyRate => exact (upTo_numbers _).trans (congrArg numbers (hlevel .policyRate))
  | inflationRate => exact (upTo_numbers _).trans (congrArg numbers (hlevel .inflationRate))
  | realInterestRate => exact (upTo_numbers _).trans (congrArg numbers (hlevel .realInterestRate))
  | policyRateTrend => exact (upTo_directions _).trans (congrArg directions (htrend .policyRate))
  | inflationRateTrend => exact (upTo_directions _).trans (congrArg directions (htrend .inflationRate))
  | realInterestRateTrend => exact (upTo_directions _).trans (congrArg directions (htrend .realInterestRate))

end CycleInputs

/-! ## The months are causal -/

theorem mem_commonMonths_iff {series : InputName → List DatedPoint} {month : MonthKey} :
    month ∈ commonMonths series ↔ ∀ name ∈ requiredInputs, month ∈ monthKeys (series name) := by
  simp [commonMonths, requiredInputs]
  tauto

theorem mem_monthKeys_upTo {points : List DatedPoint} {month : MonthKey} :
    month ∈ monthKeys (Past.upTo DatedPoint.monthIndex m.index points) ↔
      month ∈ monthKeys points ∧ month.index ≤ m.index := by
  unfold monthKeys
  simp only [List.mem_map, mem_upTo]
  constructor
  · rintro ⟨p, ⟨hp, hle⟩, rfl⟩
    exact ⟨⟨p, hp, rfl⟩, hle⟩
  · rintro ⟨⟨p, hp, rfl⟩, hle⟩
    exact ⟨p, ⟨hp, hle⟩, rfl⟩

theorem indexPoints_upTo {points : List DatedPoint} {month : MonthKey} (h : month.index ≤ m.index) :
    indexPoints (Past.upTo DatedPoint.monthIndex m.index points) month = indexPoints points month := by
  unfold indexPoints
  rw [find?_upTo]
  intro p hp
  rw [decide_eq_true_eq] at hp
  exact (congrArg MonthKey.index hp).trans_le h

/-- Some data are a first part of others. -/
structure CycleData.PartOf (d' d : CycleData) : Prop where
  months : d'.months <+: d.months
  indexes : ∀ name, ∀ month ∈ d'.months, d'.indexes name month = d.indexes name month

variable {c : CycleInputs}

/-- The months that are past are those of the past inputs. -/
theorem CycleInputs.upTo_months (h : c.InOrder) (hday : lastDayOfMonth m ≤ c.today) :
    Past.upTo MonthKey.index m.index c.data.months = (c.upTo m).data.months := by
  have hall := sorted_sortMonths (nodup_commonMonths c.resolveMonthly)
  have hpast := sorted_sortMonths (nodup_commonMonths (c.upTo m).resolveMonthly)
  refine eq_of_perm (hall.filter _) hpast ?_
  have hnodup : ∀ {months : List MonthKey}, months.Pairwise (fun m m' => m.index < m'.index) → months.Nodup :=
    fun hsorted => hsorted.imp fun hlt heq => absurd (congrArg MonthKey.index heq) hlt.ne
  refine (List.perm_ext_iff_of_nodup (hnodup (hall.filter _)) (hnodup hpast)).mpr fun month => ?_
  change month ∈ Past.upTo MonthKey.index m.index (sortMonths _) ↔ month ∈ sortMonths _
  unfold sortMonths
  rw [mem_upTo, List.mem_insertionSort, List.mem_insertionSort, mem_commonMonths_iff, mem_commonMonths_iff]
  simp only [← CycleInputs.upTo_resolveMonthly h hday, mem_monthKeys_upTo]
  constructor
  · rintro ⟨hmem, hle⟩ name hname
    exact ⟨hmem name hname, hle⟩
  · intro hmem
    exact ⟨fun name hname => (hmem name hname).1, (hmem .policyRateTrend (by simp [requiredInputs])).2⟩

theorem CycleInputs.data_partOf (h : c.InOrder) (hday : lastDayOfMonth m ≤ c.today) :
    (c.upTo m).data.PartOf c.data where
  months := by
    rw [← CycleInputs.upTo_months h hday]
    have hsorted := sorted_sortMonths (nodup_commonMonths c.resolveMonthly)
    exact upTo_prefix (hsorted.imp le_of_lt)
  indexes name month hmonth := by
    rw [← CycleInputs.upTo_months h hday] at hmonth
    change indexPoints ((c.upTo m).resolveMonthly name) month = indexPoints (c.resolveMonthly name) month
    rw [← CycleInputs.upTo_resolveMonthly h hday, indexPoints_upTo (mem_upTo.mp hmonth).2]

/-! ## The replay of a first part -/

namespace CycleData.PartOf

variable {d d' : CycleData} {config : CycleConfig} {state : CycleState} {edge : CycleTransition} {i j : ℕ}

theorem monthAt_eq (h : d'.PartOf d) (hi : i < d'.months.length) : d'.monthAt i = d.monthAt i := by
  unfold monthAt
  rw [List.getD_eq_getElem _ _ hi, List.getD_eq_getElem _ _ (hi.trans_le h.months.length_le)]
  exact h.months.getElem hi

theorem num_eq (h : d'.PartOf d) (hi : i < d'.months.length) (name : InputName) : d'.num name i = d.num name i := by
  unfold num
  rw [← h.monthAt_eq hi]
  refine h.indexes name _ ?_
  unfold monthAt
  rw [List.getD_eq_getElem _ _ hi]
  exact List.getElem_mem hi

/-- Every signal looks at the month and at months before it. -/
theorem probe_eq (h : d'.PartOf d) (hi : i < d'.months.length) (code : SignalCode) :
    d'.probe config state i code = d.probe config state i code := by
  have hnum := h.num_eq hi
  have hdirection : ∀ metric target equal,
      d'.directionProbe metric target equal i = d.directionProbe metric target equal i := by
    intro metric target equal
    unfold directionProbe
    rw [hnum]
  have hthreshold : ∀ above threshold, d'.thresholdProbe above threshold i = d.thresholdProbe above threshold i := by
    intro above threshold
    unfold thresholdProbe
    rw [hnum]
  cases code with
  | realRatesHigh => exact hthreshold _ _
  | realRatesLow => exact hthreshold _ _
  | hikesResumed =>
    change d'.hikesResumedProbe _ i = d.hikesResumedProbe _ i
    unfold hikesResumedProbe
    dsimp only
    rw [hnum]
    congr 2
    refine List.map_congr_left fun j hj => h.num_eq ?_ _
    obtain ⟨hfirst, hbefore⟩ := List.mem_range'_1.mp hj
    omega
  | firstCutDetected =>
    change d'.firstCutProbe state i = d.firstCutProbe state i
    unfold firstCutProbe
    rw [hnum]
  | _ => exact hdirection _ _ _

theorem held_eq (h : d'.PartOf d) (hi : i < d'.months.length) :
    d'.held config state edge i = d.held config state edge i := by
  have hholds : ∀ j, j < d'.months.length → d'.holds config state edge j = d.holds config state edge j := by
    intro j hj
    unfold holds
    rw [show d'.probe config state j = d.probe config state j from funext fun code => h.probe_eq hj code]
  unfold held
  induction i with
  | zero =>
    unfold Streak.streak
    rw [hholds 0 hi]
  | succ i ih =>
    unfold Streak.streak
    rw [hholds _ hi, ih (by omega)]

theorem replayStep_eq (h : d'.PartOf d) (hi : i < d'.months.length) (st : CycleState × MonthKey) :
    d'.replayStep config st i = d.replayStep config st i := by
  unfold replayStep triggered
  rw [h.monthAt_eq hi]
  have hheld : ∀ edge, d'.held config st.1 edge i = d.held config st.1 edge i := fun edge => h.held_eq hi
  simp only [hheld]

/-- The replay of a first part of the months is the first part of the replay. -/
theorem replay_past (h : d'.PartOf d) (hne : d'.months ≠ []) {n : ℕ} (hn : n ≤ d'.months.length) :
    d'.replay config n = d.replay config n := by
  induction n with
  | zero =>
    have hfirst := h.monthAt_eq (List.length_pos_iff.mpr hne)
    exact congrArg (Prod.mk config.initialState) hfirst
  | succ n ih => rw [replay_succ, replay_succ, ih (by omega), h.replayStep_eq (by omega)]

end CycleData.PartOf

end FinHub
