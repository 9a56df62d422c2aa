import FinHub.Analytics.HistoricalValues
import FinHub.Lib.WhileLoop
import FinHub.Schedules.Calendars

/-!
# FinHub.Analytics.DateGrids

The dates of the two histories: those that `get_cash_by_currency_history` steps through, and those of
`_generate_dates`.

* `DateGrid` is what both are for: dates from the start on, one in each period of the range.
* `cashDates` has no branch for a week and forms the month thirteen: `nextCashDate_eq_ok` says which step
  there is. The grid of `generateDates` fails only at the end of the calendar.
* `dateGrids_iff`: both loops have their grid exactly where the range `EndsInTime`.
-/

namespace FinHub

open Calendar WhileLoop

/-! ## The loops -/

/-- What `datetime` and `timedelta` raise. -/
inductive CashDateError where
  | yearOutOfRange (year : ℤ)
  | monthOutOfRange
  | overflowError
  deriving DecidableEq

def CashDateError.message : CashDateError → String
  | yearOutOfRange year => s!"year {year} is out of range"
  | monthOutOfRange => "month must be in 1..12"
  | overflowError => "date value out of range"

/-- `datetime(year, month, 1)`. -/
def newDate (year month : ℤ) : Except CashDateError Date :=
  if 9999 < year then .error (.yearOutOfRange year)
  else if month < 1 ∨ 12 < month then .error .monthOutOfRange
  else .ok (firstOfMonth year (month - 1))

/-- One step of the loop in `get_cash_by_currency_history`, which takes any text for the interval. -/
def nextCashDate (interval : String) (d : Date) : Except CashDateError Date :=
  if interval = "day" then
    if 9999 < (d.addDays 1).year then .error .overflowError else .ok (d.addDays 1)
  else if interval = "month" then
    let month := d.month + 1
    let year := d.year + (month - 1) / 12
    newDate year month
  else if interval = "quarter" then
    let month := d.month + 3
    let year := d.year + (month - 1) / 12
    newDate year month
  else if interval = "year" then newDate (d.year + 1) 1
  else .ok d

/-- `while d <= end_d`. -/
def notAfter (end_ d : Date) : Bool := decide (d ≤ end_)

def cashPass (interval : String) (d : Date) : Except CashDateError (Date × Date) :=
  (nextCashDate interval d).map fun next => (d, next)

/-- The dates of `get_cash_by_currency_history`. -/
def cashDates (interval : String) (fuel : ℕ) (start end_ : Date) :
    Except (Option CashDateError) (List Date) :=
  passes (notAfter end_) (cashPass interval) fuel start

def Interval.text : Interval → String
  | day => "day"
  | week => "week"
  | month => "month"
  | quarter => "quarter"
  | year => "year"

theorem parseInterval_text (interval : Interval) : parseInterval interval.text = .ok interval := by
  cases interval <;> rfl

/-! ## What they are for -/

/-- The day, week, month, quarter or year of a date, counted. Weeks begin on Mondays. -/
def periodNumber (interval : Interval) (d : Date) : ℤ :=
  match interval with
  | .day => d.ordinal
  | .week => (d.ordinal - 1) / 7
  | .month => d.index
  | .quarter => d.index / 3
  | .year => d.year

/-- Dates from the start on, in consecutive periods. -/
structure DateGrid (interval : Interval) (start end_ : Date) (dates : List Date) : Prop where
  first : dates.head? = some start
  increasing : dates.Pairwise fun d d' => d < d'
  within : ∀ d ∈ dates, start ≤ d ∧ d ≤ end_
  consecutive : dates.IsChain fun d d' => periodNumber interval d' = periodNumber interval d + 1

namespace DateGrid

variable {interval : Interval} {start next end_ : Date} {dates : List Date}

protected theorem singleton (h : start ≤ end_) : DateGrid interval start end_ [start] where
  first := rfl
  increasing := List.pairwise_singleton _ _
  within := by
    intro d hd
    obtain rfl := List.mem_singleton.mp hd
    exact ⟨le_rfl, h⟩
  consecutive := List.isChain_singleton _

protected theorem cons (hlt : start < next)
    (hperiod : periodNumber interval next = periodNumber interval start + 1)
    (h : DateGrid interval next end_ dates) : DateGrid interval start end_ (start :: dates) := by
  have hnext : next ∈ dates := List.mem_of_head? h.first
  refine ⟨rfl, List.pairwise_cons.mpr ⟨fun d hd => hlt.trans_le (h.within d hd).1, h.increasing⟩, ?_, ?_⟩
  · intro d hd
    rcases List.mem_cons.mp hd with rfl | hd
    · exact ⟨le_rfl, hlt.le.trans (h.within _ hnext).2⟩
    · exact ⟨hlt.le.trans (h.within d hd).1, (h.within d hd).2⟩
  · refine List.isChain_cons.mpr ⟨?_, h.consecutive⟩
    intro d hd
    rw [h.first] at hd
    obtain rfl := Option.some_inj.mp hd
    exact hperiod

end DateGrid

/-! ## One step -/

section

variable {interval : Interval} {d d' start end_ : Date}

@[simp] theorem index_firstOfMonth (y n : ℤ) : (firstOfMonth y n).index = 12 * y + n := by
  rw [firstOfMonth, Date.index_clamped]
  omega

@[simp] theorem day_firstOfMonth (y n : ℤ) : (firstOfMonth y n).day = 1 :=
  min_eq_left (le_trans (by omega) (monthLength_pos _ _))

@[simp] theorem year_firstOfMonth (y n : ℤ) : (firstOfMonth y n).year = y + n / 12 := rfl

/-- The first of a month is no later than any date of that month or a later one. -/
theorem firstOfMonth_le {y n : ℤ} (h : 12 * y + n ≤ d.index) : firstOfMonth y n ≤ d := by
  rcases h.lt_or_eq with hlt | heq
  · exact (Date.lt_of_index_lt (by rw [index_firstOfMonth]; exact hlt)).le
  · rw [Date.le_iff_of_index_eq (by rw [index_firstOfMonth, heq]), day_firstOfMonth]
    exact d.day_mem.1

theorem year_le_of_index (d : Date) {y : ℤ} : d.year ≤ y ↔ d.index < 12 * (y + 1) := by
  have := d.month_mem
  unfold Date.index
  omega

theorem year_mono (h : d ≤ d') : d.year ≤ d'.year := by
  rw [← Date.index_div, ← Date.index_div]
  exact Int.ediv_le_ediv (by omega) (Date.index_mono h)

/-- The ordinal of `datetime.max`. -/
theorem year_le_iff_ordinal (d : Date) : d.year ≤ 9999 ↔ d.ordinal ≤ 3652059 := by
  have hnext : daysBefore 120000 = 3652059 := by decide
  have hlen := d.day_le_lengthAt
  have hday := d.day_mem.1
  rw [year_le_of_index, Date.ordinal_eq]
  constructor
  · intro h
    have hle := daysBefore_add_lengthAt_le (i := d.index) (j := 120000) (by omega)
    omega
  · intro h
    by_contra hge
    rcases (show (120000 : ℤ) ≤ d.index by omega).lt_or_eq with hlt | heq
    · have hle := daysBefore_add_lengthAt_le hlt
      have hpos : 28 ≤ lengthAt 120000 := monthLength_pos _ _
      omega
    · rw [← heq] at h
      omega

theorem newDate_eq_ok {year month : ℤ} :
    newDate year month = .ok d ↔
      year ≤ 9999 ∧ (1 ≤ month ∧ month ≤ 12) ∧ d = firstOfMonth year (month - 1) := by
  unfold newDate
  split_ifs with hyear hmonth
  · exact ⟨fun h => (by cases h), fun h => absurd h.1 (not_le.mpr hyear)⟩
  · exact ⟨fun h => (by cases h), fun h => by omega⟩
  · exact ⟨fun h => ⟨by omega, by omega, (Except.ok.inj h).symm⟩, fun h => h.2.2 ▸ rfl⟩

theorem nextCashDate_day : nextCashDate "day" d = .ok d' ↔ d.ordinal < 3652059 ∧ d' = d.addDays 1 := by
  have hyear := year_le_iff_ordinal (d.addDays 1)
  rw [Date.ordinal_addDays, Nat.cast_one] at hyear
  rw [nextCashDate, if_pos rfl]
  split_ifs with h
  · exact ⟨fun h' => (by cases h'), fun h' => by omega⟩
  · exact ⟨fun h' => ⟨by omega, (Except.ok.inj h').symm⟩, fun h' => h'.2 ▸ rfl⟩

/-- In December the loop forms a month 13. -/
theorem nextCashDate_month :
    nextCashDate "month" d = .ok d' ↔ d.year ≤ 9999 ∧ d.month < 12 ∧ d' = firstOfMonth d.year d.month := by
  have hmonth := d.month_mem
  have hstep : nextCashDate "month" d = newDate (d.year + (d.month + 1 - 1) / 12) (d.month + 1) := rfl
  rw [hstep, newDate_eq_ok, add_sub_cancel_right]
  constructor
  · rintro ⟨hyear, hrange, rfl⟩
    have hsame : d.month / 12 = 0 := by omega
    rw [hsame, add_zero] at hyear ⊢
    exact ⟨hyear, by omega, rfl⟩
  · rintro ⟨hyear, hrange, rfl⟩
    have hsame : d.month / 12 = 0 := by omega
    rw [hsame, add_zero]
    exact ⟨hyear, by omega, rfl⟩

/-- From October on the loop forms a month after the twelfth. -/
theorem nextCashDate_quarter :
    nextCashDate "quarter" d = .ok d' ↔
      d.year ≤ 9999 ∧ d.month < 10 ∧ d' = firstOfMonth d.year (d.month + 2) := by
  have hmonth := d.month_mem
  have hstep : nextCashDate "quarter" d = newDate (d.year + (d.month + 3 - 1) / 12) (d.month + 3) := rfl
  have hadd : d.month + 3 - 1 = d.month + 2 := by omega
  rw [hstep, newDate_eq_ok, hadd]
  constructor
  · rintro ⟨hyear, hrange, rfl⟩
    have hsame : (d.month + 2) / 12 = 0 := by omega
    rw [hsame, add_zero] at hyear ⊢
    exact ⟨hyear, by omega, rfl⟩
  · rintro ⟨hyear, hrange, rfl⟩
    have hsame : (d.month + 2) / 12 = 0 := by omega
    rw [hsame, add_zero]
    exact ⟨hyear, by omega, rfl⟩

theorem nextCashDate_year :
    nextCashDate "year" d = .ok d' ↔ d.year < 9999 ∧ d' = firstOfMonth (d.year + 1) 0 := by
  have hstep : nextCashDate "year" d = newDate (d.year + 1) 1 := rfl
  rw [hstep, newDate_eq_ok, sub_self]
  constructor
  · rintro ⟨hyear, -, rfl⟩
    exact ⟨by omega, rfl⟩
  · rintro ⟨hyear, rfl⟩
    exact ⟨by omega, by omega, rfl⟩

/-- A text without a branch leaves the date where it is. -/
theorem nextCashDate_other {interval : String} (h : interval ∉ ["day", "month", "quarter", "year"])
    (d : Date) : nextCashDate interval d = .ok d := by
  simp only [List.mem_cons, List.not_mem_nil, or_false, not_or] at h
  obtain ⟨hday, hmonth, hquarter, hyear⟩ := h
  rw [nextCashDate, if_neg hday, if_neg hmonth, if_neg hquarter, if_neg hyear]

/-- A step that is made leads into the next period. -/
theorem nextCashDate_advances (hweek : interval ≠ .week) (h : nextCashDate interval.text d = .ok d') :
    d < d' ∧ periodNumber interval d' = periodNumber interval d + 1 := by
  have hindex : d.index = 12 * d.year + (d.month - 1) := rfl
  have hmonth := d.month_mem
  cases interval with
  | day =>
    obtain ⟨-, rfl⟩ := nextCashDate_day.mp h
    refine ⟨Date.lt_addDays 0 d, ?_⟩
    rw [periodNumber, periodNumber, Date.ordinal_addDays, Nat.cast_one]
  | week => exact absurd rfl hweek
  | month =>
    obtain ⟨-, -, rfl⟩ := nextCashDate_month.mp h
    refine ⟨Date.lt_of_index_lt ?_, ?_⟩ <;> simp only [periodNumber, index_firstOfMonth] <;> omega
  | quarter =>
    obtain ⟨-, -, rfl⟩ := nextCashDate_quarter.mp h
    refine ⟨Date.lt_of_index_lt ?_, ?_⟩ <;> simp only [periodNumber, index_firstOfMonth] <;> omega
  | year =>
    obtain ⟨-, rfl⟩ := nextCashDate_year.mp h
    refine ⟨Date.lt_of_index_lt ?_, ?_⟩
    · rw [index_firstOfMonth]; omega
    · rw [periodNumber, periodNumber, year_firstOfMonth]; omega

theorem nextDate_period (interval : Interval) (d : Date) :
    periodNumber interval (nextDate interval d) = periodNumber interval d + 1 := by
  have hindex : d.index = 12 * d.year + (d.month - 1) := rfl
  have hmonth := d.month_mem
  cases interval with
  | day => simp only [periodNumber, nextDate, Date.ordinal_addDays]; omega
  | week => simp only [periodNumber, nextDate, Date.ordinal_addDays]; omega
  | month => simp only [periodNumber, nextDate, index_firstOfMonth]; omega
  | quarter => simp only [periodNumber, nextDate, index_firstOfMonth]; omega
  | year => simp only [periodNumber, nextDate, year_firstOfMonth]; omega

/-! ## The loop of the cash history -/

/-- The loop from a date, with the text of an interval. -/
def CashLists (interval : String) (end_ d : Date) (dates : List Date) : Prop :=
  Returns (notAfter end_) (cashPass interval) d dates

theorem cashPass_eq_ok {interval : String} {r : Date × Date} :
    cashPass interval d = .ok r ↔ nextCashDate interval d = .ok r.2 ∧ r.1 = d := by
  rw [cashPass, Runs.map_eq_ok]
  constructor
  · rintro ⟨d', h, rfl⟩
    exact ⟨h, rfl⟩
  · rintro ⟨h, rfl⟩
    exact ⟨r.2, h, rfl⟩

/-- Whatever the loop lists is a grid. -/
theorem dateGrid_of_cashLists (hweek : interval ≠ .week) (hle : start ≤ end_) {dates : List Date}
    (h : CashLists interval.text end_ start dates) : DateGrid interval start end_ dates := by
  have hmotive : (end_ < start → dates = []) ∧ (start ≤ end_ → DateGrid interval start end_ dates) := by
    refine Returns.rule (motive := fun d dates =>
      (end_ < d → dates = []) ∧ (d ≤ end_ → DateGrid interval d end_ dates)) ?_ ?_ h
    · intro d hcond
      exact ⟨fun _ => rfl, fun hle => absurd hle (of_decide_eq_false hcond)⟩
    · intro d r rest hcond hr ⟨hempty, hgrid⟩
      have hle : d ≤ end_ := of_decide_eq_true hcond
      obtain ⟨hstep, hd⟩ := cashPass_eq_ok.mp hr
      obtain ⟨hlt, hperiod⟩ := nextCashDate_advances hweek hstep
      rw [hd]
      refine ⟨fun hlt => absurd hle (not_le.mpr hlt), fun _ => ?_⟩
      rcases le_or_gt r.2 end_ with hnext | hnext
      · exact .cons hlt hperiod (hgrid hnext)
      · rw [hempty hnext]
        exact .singleton hle
  exact hmotive.2 hle

/-- The loop ends where every date that it can reach has its step. -/
theorem exists_cashLists (Inv : Date → Prop) (hweek : interval ≠ .week)
    (hstep : ∀ d, Inv d → d ≤ end_ → ∃ d', nextCashDate interval.text d = .ok d' ∧ Inv d') (h : Inv start) :
    ∃ dates, CashLists interval.text end_ start dates := by
  refine exists_returns Inv (fun d => (end_.ordinal + 1 - d.ordinal).toNat) ?_ h
  intro d hd hcond
  have hle : d ≤ end_ := of_decide_eq_true hcond
  obtain ⟨d', hok, hinv⟩ := hstep d hd hle
  have hlt := (nextCashDate_advances hweek hok).1
  rw [Date.le_def] at hle
  rw [Date.lt_def] at hlt
  exact ⟨(d, d'), cashPass_eq_ok.mpr ⟨hok, rfl⟩, hinv, by dsimp only; omega⟩

/-- The loop does not end where its steps never leave the range. -/
theorem not_cashLists {interval : String} (Inv : Date → Prop) (hrange : ∀ d, Inv d → d ≤ end_)
    (hstep : ∀ d d', Inv d → nextCashDate interval d = .ok d' → Inv d') (h : Inv start)
    (dates : List Date) : ¬ CashLists interval end_ start dates := by
  refine not_returns Inv (fun d hd => decide_eq_true (hrange d hd)) ?_ h
  intro d r hd hr
  exact hstep d r.2 hd (cashPass_eq_ok.mp hr).1

/-- With the text of a week, or any other without a branch, the loop runs on. -/
theorem not_cashLists_other {interval : String} (h : interval ∉ ["day", "month", "quarter", "year"])
    (hle : start ≤ end_) (dates : List Date) : ¬ CashLists interval end_ start dates := by
  refine not_cashLists (fun d => d = start) ?_ ?_ rfl dates
  · rintro d rfl
    exact hle
  · rintro d d' rfl hstep
    rw [nextCashDate_other h] at hstep
    exact (Except.ok.inj hstep).symm

/-! ## The loop of the value history -/

theorem dateGrid_upTo (fuel : ℕ) (hs : start ≤ d) (hle : d ≤ end_) :
    DateGrid interval d end_ (upTo (nextDate interval) start end_ (fuel + 1) d) := by
  induction fuel generalizing d with
  | zero =>
    rw [upTo, if_pos hle, if_pos hs]
    exact .singleton hle
  | succ fuel ih =>
    have hlt := lt_nextDate interval d
    rw [upTo, if_pos hle, if_pos hs]
    rcases le_or_gt (nextDate interval d) end_ with hnext | hnext
    · exact .cons hlt (nextDate_period interval d) (ih (hs.trans hlt.le) hnext)
    · rw [upTo, if_neg (not_le.mpr hnext)]
      exact .singleton hle

/-- The loop lists a date whose next one is past the end. -/
theorem exists_last_upTo {fuel : ℕ} (hs : start ≤ d) (hle : d ≤ end_)
    (hfuel : end_.ordinal - d.ordinal < fuel) :
    ∃ x ∈ upTo (nextDate interval) start end_ fuel d, end_ < nextDate interval x := by
  induction fuel generalizing d with
  | zero =>
    rw [Date.le_def] at hle
    omega
  | succ fuel ih =>
    have hlt := lt_nextDate interval d
    rw [upTo, if_pos hle, if_pos hs]
    rcases le_or_gt (nextDate interval d) end_ with hnext | hnext
    · have hord := Date.lt_def.mp hlt
      obtain ⟨x, hx, hend⟩ := ih (hs.trans hlt.le) hnext (by push_cast at hfuel; omega)
      exact ⟨x, List.mem_cons_of_mem _ hx, hend⟩
    · exact ⟨d, List.mem_cons_self, hnext⟩

/-- The grid of `_generate_dates`, whose result is the texts of its dates. -/
def GeneratesGrid (interval : Interval) (start end_ : Date) : Prop :=
  ∃ dates, generateDates start end_ interval = .ok (dates.map isoDay) ∧ DateGrid interval start end_ dates

theorem generatesGrid_of_years (hle : start ≤ end_) (hyears : ∀ d ≤ end_, (nextDate interval d).year ≤ 9999) :
    GeneratesGrid interval start end_ := by
  obtain ⟨fuel, hfuel⟩ : ∃ fuel : ℕ, (end_.ordinal - start.ordinal + 1).toNat = fuel + 1 := by
    rw [Date.le_def] at hle
    exact ⟨(end_.ordinal - start.ordinal).toNat, by omega⟩
  have hgrid : DateGrid interval start end_ (upTo (nextDate interval) start end_ (fuel + 1) start) :=
    dateGrid_upTo fuel le_rfl hle
  refine ⟨_, ?_, hgrid⟩
  have hany : ¬ (upTo (nextDate interval) start end_ (fuel + 1) start).any
      (fun d => decide (9999 < (nextDate interval d).year)) = true := by
    rw [List.any_eq_true]
    rintro ⟨d, hd, hlate⟩
    exact absurd (of_decide_eq_true hlate) (not_lt.mpr (hyears d (hgrid.within d hd).2))
  rw [generateDates, hfuel]
  exact if_neg hany

/-- After the first of October 9999 there is no quarter. -/
theorem not_generatesGrid_quarter (hle : start ≤ end_) (hlate : 12 * 9999 + 9 ≤ end_.index) :
    ¬ GeneratesGrid .quarter start end_ := by
  rintro ⟨dates, h, -⟩
  have hlast : ∃ x ∈ upTo (nextDate .quarter) start end_ (end_.ordinal - start.ordinal + 1).toNat start,
      end_ < nextDate .quarter x := exists_last_upTo le_rfl hle (by omega)
  obtain ⟨d, hd, hend⟩ := hlast
  have hindex : d.index = 12 * d.year + (d.month - 1) := rfl
  have hmonth := d.month_mem
  have hnext : end_.index < 12 * d.year + ((d.month - 1) / 3 + 1) * 3 := by
    by_contra hge
    exact absurd (firstOfMonth_le (not_lt.mp hge)) (not_le.mpr hend)
  have hyear : 9999 < (nextDate .quarter d).year := by
    rw [nextDate, year_firstOfMonth]
    omega
  have hany : (upTo (nextDate .quarter) start end_ (end_.ordinal - start.ordinal + 1).toNat start).any
      (fun d => decide (9999 < (nextDate .quarter d).year)) = true :=
    List.any_eq_true.mpr ⟨d, hd, decide_eq_true hyear⟩
  rw [generateDates, if_pos hany] at h
  cases h

/-! ## Both -/

/-- The grid of the cash history. -/
def CashGrid (interval : Interval) (start end_ : Date) : Prop :=
  ∃ fuel dates, cashDates interval.text fuel start end_ = .ok dates ∧ DateGrid interval start end_ dates

/-- The ranges whose dates both loops list: no weeks; months before the December of the first year, quarters
before the last month that their step reaches in it, and nothing at the end of the calendar. -/
def EndsInTime (interval : Interval) (start end_ : Date) : Prop :=
  match interval with
  | .day => end_.ordinal < 3652059
  | .week => False
  | .month => end_.year ≤ 9999 ∧ end_.index < 12 * start.year + 11
  | .quarter => end_.index < 12 * 9999 + 9 ∧ end_.index < 12 * start.year + 9 + (start.month - 1) % 3
  | .year => end_.year < 9999

theorem cashGrid_iff (hweek : interval ≠ .week) (hle : start ≤ end_) :
    CashGrid interval start end_ ↔ ∃ dates, CashLists interval.text end_ start dates := by
  constructor
  · rintro ⟨fuel, dates, h, -⟩
    exact ⟨dates, fuel, h⟩
  · rintro ⟨dates, h⟩
    have hgrid := dateGrid_of_cashLists hweek hle h
    obtain ⟨fuel, h⟩ := h
    exact ⟨fuel, dates, h, hgrid⟩

theorem cashGrid_day (hle : start ≤ end_) : CashGrid .day start end_ ↔ end_.ordinal < 3652059 := by
  rw [cashGrid_iff (by decide) hle]
  constructor
  · rintro ⟨dates, h⟩
    by_contra hlate
    refine not_cashLists (fun d => d ≤ end_) (fun d hd => hd) ?_ hle dates h
    intro d d' _ hstep
    obtain ⟨hlt, rfl⟩ := nextCashDate_day.mp hstep
    rw [Date.le_def, Date.ordinal_addDays, Nat.cast_one]
    omega
  · intro hend
    refine exists_cashLists (fun _ => True) (by decide) ?_ trivial
    intro d _ hd
    rw [Date.le_def] at hd
    exact ⟨_, nextCashDate_day.mpr ⟨by omega, rfl⟩, trivial⟩

theorem not_cashGrid_week (hle : start ≤ end_) : ¬ CashGrid .week start end_ := by
  rintro ⟨fuel, dates, h, -⟩
  exact not_cashLists_other (by decide) hle dates ⟨fuel, h⟩

theorem cashGrid_month (hle : start ≤ end_) :
    CashGrid .month start end_ ↔ end_.year ≤ 9999 ∧ end_.index < 12 * start.year + 11 := by
  have hmonths := Date.index_mono hle
  rw [cashGrid_iff (by decide) hle]
  constructor
  · rintro ⟨dates, h⟩
    by_contra hlate
    refine not_cashLists (fun d => d ≤ end_ ∧ d.year = start.year) (fun d hd => hd.1) ?_
      ⟨hle, rfl⟩ dates h
    rintro d d' ⟨hd, hsame⟩ hstep
    have hmonth := d.month_mem
    obtain ⟨hyear, hdec, rfl⟩ := nextCashDate_month.mp hstep
    rw [year_le_of_index] at hlate
    exact ⟨firstOfMonth_le (by omega), by rw [year_firstOfMonth]; omega⟩
  · rintro ⟨hyear, hend⟩
    refine exists_cashLists (fun d => d.year = start.year) (by decide) ?_ rfl
    intro d hsame hd
    have hmonth := d.month_mem
    have hindex : d.index = 12 * d.year + (d.month - 1) := rfl
    have hdend := Date.index_mono hd
    rw [year_le_of_index] at hyear
    exact ⟨_, nextCashDate_month.mpr ⟨by omega, by omega, rfl⟩, by rw [year_firstOfMonth]; omega⟩

theorem cashGrid_quarter (hle : start ≤ end_) :
    CashGrid .quarter start end_ ↔
      end_.year ≤ 9999 ∧ end_.index < 12 * start.year + 9 + (start.month - 1) % 3 := by
  have hmonths := Date.index_mono hle
  have hfirst : start.index = 12 * start.year + (start.month - 1) := rfl
  rw [cashGrid_iff (by decide) hle]
  constructor
  · rintro ⟨dates, h⟩
    by_contra hlate
    refine not_cashLists (fun d => d ≤ end_ ∧ d.year = start.year ∧
      (d.month - 1) % 3 = (start.month - 1) % 3) (fun d hd => hd.1) ?_ ⟨hle, rfl, rfl⟩ dates h
    rintro d d' ⟨hd, hsame, hmod⟩ hstep
    have hmonth := d.month_mem
    obtain ⟨hyear, hdec, rfl⟩ := nextCashDate_quarter.mp hstep
    have hnext : (firstOfMonth d.year (d.month + 2)).month = d.month + 3 := by
      rw [firstOfMonth]
      simp only [Date.clamped]
      omega
    rw [year_le_of_index] at hlate
    refine ⟨firstOfMonth_le (by omega), by rw [year_firstOfMonth]; omega, ?_⟩
    rw [hnext]
    omega
  · rintro ⟨hyear, hend⟩
    refine exists_cashLists (fun d => d.year = start.year ∧
      (d.month - 1) % 3 = (start.month - 1) % 3) (by decide) ?_ ⟨rfl, rfl⟩
    rintro d ⟨hsame, hmod⟩ hd
    have hmonth := d.month_mem
    have hindex : d.index = 12 * d.year + (d.month - 1) := rfl
    have hdend := Date.index_mono hd
    have hnext : (firstOfMonth d.year (d.month + 2)).month = (d.month + 2) % 12 + 1 := rfl
    rw [year_le_of_index] at hyear
    refine ⟨_, nextCashDate_quarter.mpr ⟨by omega, by omega, rfl⟩, by rw [year_firstOfMonth]; omega, ?_⟩
    rw [hnext]
    omega

theorem cashGrid_year (hle : start ≤ end_) : CashGrid .year start end_ ↔ end_.year < 9999 := by
  rw [cashGrid_iff (by decide) hle]
  constructor
  · rintro ⟨dates, h⟩
    by_contra hlate
    refine not_cashLists (fun d => d ≤ end_) (fun d hd => hd) ?_ hle dates h
    intro d d' _ hstep
    have hmonth := end_.month_mem
    obtain ⟨hyear, rfl⟩ := nextCashDate_year.mp hstep
    refine firstOfMonth_le ?_
    unfold Date.index
    omega
  · intro hend
    refine exists_cashLists (fun _ => True) (by decide) ?_ trivial
    intro d _ hd
    have hyear := year_mono hd
    exact ⟨_, nextCashDate_year.mpr ⟨by omega, rfl⟩, trivial⟩

theorem generatesGrid_day (hle : start ≤ end_) (hend : end_.ordinal < 3652059) :
    GeneratesGrid .day start end_ := by
  refine generatesGrid_of_years hle fun d hd => ?_
  rw [Date.le_def] at hd
  rw [year_le_iff_ordinal, nextDate, Date.ordinal_addDays, Nat.cast_one]
  omega

/-- A step of months stays in the calendar up to the end of its last period. -/
theorem generatesGrid_month (hle : start ≤ end_) (hend : end_.index < 12 * 9999 + 11) :
    GeneratesGrid .month start end_ := by
  refine generatesGrid_of_years hle fun d hd => ?_
  have hindex : d.index = 12 * d.year + (d.month - 1) := rfl
  have hmonth := d.month_mem
  have hdend := Date.index_mono hd
  rw [nextDate, year_firstOfMonth]
  omega

theorem generatesGrid_quarter (hle : start ≤ end_) :
    GeneratesGrid .quarter start end_ ↔ end_.index < 12 * 9999 + 9 := by
  constructor
  · intro hgrid
    by_contra hlate
    exact not_generatesGrid_quarter hle (not_lt.mp hlate) hgrid
  · intro hend
    refine generatesGrid_of_years hle fun d hd => ?_
    have hindex : d.index = 12 * d.year + (d.month - 1) := rfl
    have hmonth := d.month_mem
    have hdend := Date.index_mono hd
    rw [nextDate, year_firstOfMonth]
    omega

theorem generatesGrid_year (hle : start ≤ end_) (hend : end_.year < 9999) :
    GeneratesGrid .year start end_ := by
  refine generatesGrid_of_years hle fun d hd => ?_
  have hyear := year_mono hd
  rw [nextDate, year_firstOfMonth]
  omega

/-- Both loops list the grid of a range exactly where it ends in time. -/
theorem dateGrids_iff {start end_ : Date} (h : start ≤ end_) (interval : Interval) :
    (CashGrid interval start end_ ∧ GeneratesGrid interval start end_) ↔ EndsInTime interval start end_ := by
  cases interval with
  | day =>
    rw [cashGrid_day h]
    exact and_iff_left_of_imp (generatesGrid_day h)
  | week => exact iff_of_false (fun hboth => not_cashGrid_week h hboth.1) id
  | month =>
    rw [cashGrid_month h]
    refine and_iff_left_of_imp fun hend => generatesGrid_month h ?_
    have hyear := year_mono h
    omega
  | quarter =>
    rw [cashGrid_quarter h, generatesGrid_quarter h]
    constructor
    · rintro ⟨⟨-, hfirst⟩, hlast⟩
      exact ⟨hlast, hfirst⟩
    · rintro ⟨hlast, hfirst⟩
      exact ⟨⟨(year_le_of_index end_).mpr (by omega), hfirst⟩, hlast⟩
  | year =>
    rw [cashGrid_year h]
    exact and_iff_left_of_imp (generatesGrid_year h)

end

end FinHub

namespace FinHub.Sample

/-- The months of a range within one year, before its December. -/
theorem dateGrids_months :
    (CashGrid .month (date 2024 1 31 (by decide)) (date 2024 11 15 (by decide)) ∧
      GeneratesGrid .month (date 2024 1 31 (by decide)) (date 2024 11 15 (by decide))) ↔
      EndsInTime .month (date 2024 1 31 (by decide)) (date 2024 11 15 (by decide)) :=
  dateGrids_iff (by decide) .month

/-- From November to February the months of the cash history raise and its weeks never end, where
`_generate_dates` lists the four months. -/
theorem november_noGrid :
    (∃ fuel, cashDates "month" fuel (date 2024 11 1 (by decide)) (date 2025 2 1 (by decide)) =
        .error (some .monthOutOfRange)) ∧
      (¬ CashGrid .month (date 2024 11 1 (by decide)) (date 2025 2 1 (by decide))) ∧
      (¬ CashGrid .week (date 2024 11 1 (by decide)) (date 2025 2 1 (by decide))) ∧
      GeneratesGrid .month (date 2024 11 1 (by decide)) (date 2025 2 1 (by decide)) := by
  refine ⟨⟨3, by decide⟩, ?_, not_cashGrid_week (by decide), generatesGrid_month (by decide) (by decide)⟩
  rw [cashGrid_month (by decide)]
  decide

end FinHub.Sample
