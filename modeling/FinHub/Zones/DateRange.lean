import FinHub.Lib.Calendar
import FinHub.Model.Queries
import Mathlib.Data.List.Sort

/-!
# FinHub.Zones.DateRange

The three places that turn an instant into a calendar date of the profile: `_to_iso`, which stores a
submitted timestamp, `resolve_date_range`, which takes a range of dates to two UTC instants, and the
day buckets of the cash-flow queries, which shift every stored text by the offset of the moment of the
query.

They agree about a transaction when its stored text lies within the bounds of the date of the
submitted instant, outside those of its neighbours, and today's offset reads that date off it
(`agrees_iff`).
-/

namespace FinHub

open Tabular

/-- `_to_iso`: the wall clock to the second, without its offset. -/
def IsoStamp.toIso (dt : IsoStamp) : Timestamp := dt.wall / Time.ticksPerSecond * Time.ticksPerSecond

namespace TimeZone

variable (tz : TimeZone)

/-- The first second of a day. -/
def dayStart (d : ℤ) : Timestamp := tz.profileDateToUtcInstant d false

/-- The last second of a day. -/
def dayEnd (d : ℤ) : Timestamp := tz.profileDateToUtcInstant d true

def resolveDateRange (start_date end_date : Option ℤ) : Option Timestamp × Option Timestamp :=
  (start_date.map tz.dayStart, end_date.map tz.dayEnd)

/-- No clock of the zone is turned by more than a day from one midnight to the next. -/
structure Ordered : Prop where
  start_le : ∀ d, tz.wallOffset (Time.startOfDay (d + 1)) ≤
    tz.wallOffset (Time.startOfDay d) + Time.ticksPerDay
  end_le : ∀ d, tz.wallOffset (Time.endOfDay (d + 1)) ≤
    tz.wallOffset (Time.endOfDay d) + Time.ticksPerDay

variable {tz} {d d' : ℤ}

theorem le_of_le_succ {f : ℤ → ℤ} (hf : ∀ d, f d ≤ f (d + 1)) (h : d ≤ d') : f d ≤ f d' := by
  obtain ⟨n, rfl⟩ := Int.le.dest h
  induction n with
  | zero => simp
  | succ n ih =>
    refine (ih (by omega)).trans ?_
    have := hf (d + n)
    rwa [show d + (n : ℤ) + 1 = d + ((n + 1 : ℕ) : ℤ) by push_cast; omega] at this

theorem dayStart_le_succ (h : tz.Ordered) (d : ℤ) : tz.dayStart d ≤ tz.dayStart (d + 1) := by
  have hstart := h.start_le d
  simp only [dayStart, profileDateToUtcInstant, Time.startOfDay] at hstart ⊢
  simp only [Bool.false_eq_true, if_false]
  linarith

theorem dayEnd_le_succ (h : tz.Ordered) (d : ℤ) : tz.dayEnd d ≤ tz.dayEnd (d + 1) := by
  have hend := h.end_le d
  simp only [dayEnd, profileDateToUtcInstant, if_true, Time.endOfDay, Time.startOfDay] at hend ⊢
  linarith

theorem dayStart_mono (h : tz.Ordered) (hd : d ≤ d') : tz.dayStart d ≤ tz.dayStart d' :=
  le_of_le_succ (dayStart_le_succ h) hd

theorem dayEnd_mono (h : tz.Ordered) (hd : d ≤ d') : tz.dayEnd d ≤ tz.dayEnd d' :=
  le_of_le_succ (dayEnd_le_succ h) hd

end TimeZone

/-- The `WHERE` clause of a range. -/
def inRange (range : Option Timestamp × Option Timestamp) (timestamp : Timestamp) : Bool :=
  (range.1.all fun start => decide (start ≤ timestamp)) &&
    range.2.all fun last => decide (timestamp ≤ last)

/-! ## Buckets -/

inductive GroupBy where
  | day | week | month | quarter | year
  deriving DecidableEq

/-- What `period_expr` yields, before it is written out. -/
inductive Period where
  | day (day : ℤ)
  | week (year week : ℤ)
  | month (year month : ℤ)
  | quarter (year quarter : ℤ)
  | year (year : ℤ)
  deriving DecidableEq

/-- `%W`: the weeks since the first Monday of the year. -/
def weekOfYear (day : ℤ) : ℤ :=
  let year_day := day - (Calendar.daysBeforeYear (Time.civil day).1 + 1 - 719163)
  (year_day + 7 - (day + 3) % 7) / 7

/-- `period_expr`. Days are shifted by the offset that the zone has `now`, the other periods are
not. -/
def periodExpr (tz : TimeZone) (now : Timestamp) (group_by : GroupBy) (timestamp : Timestamp) : Period :=
  let day := Time.dayOf timestamp
  let ymd := Time.civil day
  match group_by with
  | .day => .day (Time.dayOf (timestamp + tz.utcOffset now))
  | .week => .week ymd.1 (weekOfYear day)
  | .month => .month ymd.1 ymd.2.1
  | .quarter => .quarter ymd.1 ((ymd.2.1 + 2) / 3)
  | .year => .year ymd.1

/-- `COALESCE(income_category, investment_transaction_category)`. -/
inductive FlowCategory where
  | income (c : IncomeCategory)
  | investment (c : InvestmentTransactionCategory)
  deriving DecidableEq

def flowCategory (t : Transaction) : Option FlowCategory :=
  (t.incomeCategory.map .income).or (t.investmentTransactionCategory.map .investment)

/-- A row of a grouping query: its key, and the rows it sums and counts. -/
structure QueryGroup (κ : Type) where
  key : κ
  rows : List (ℕ × Transaction)

namespace QueryGroup

variable {κ : Type}

/-- `SUM(total_value)`, which leaves `NULL`s out. -/
def totalValue (g : QueryGroup κ) : Option ℚ :=
  let values := g.rows.filterMap fun r => r.2.totalValue
  if values = [] then none else some values.sum

def count (g : QueryGroup κ) : ℕ := g.rows.length

end QueryGroup

/-- `GROUP BY`. -/
def groupRows {κ : Type} [DecidableEq κ] (key : ℕ × Transaction → κ) (rows : List (ℕ × Transaction)) :
    List (QueryGroup κ) :=
  (rows.map key).eraseDups.map fun k => ⟨k, rows.filter fun r => decide (key r = k)⟩

theorem mem_of_groupRows {κ : Type} [DecidableEq κ] {key : ℕ × Transaction → κ}
    {rows : List (ℕ × Transaction)} {g : QueryGroup κ} (hg : g ∈ groupRows key rows)
    {r : ℕ × Transaction} (hr : r ∈ g.rows) : r ∈ rows ∧ g.key = key r := by
  obtain ⟨k, -, rfl⟩ := List.mem_map.mp hg
  obtain ⟨hr, hk⟩ := List.mem_filter.mp hr
  exact ⟨hr, (of_decide_eq_true hk).symm⟩

/-! ## The queries -/

structure CashFlowKey where
  period : Period
  type : TransactionType
  currency : Currency
  category : Option FlowCategory
  deriving DecidableEq

structure CashFlowTaggedRow where
  id : ℕ
  timestamp : Timestamp
  type : TransactionType
  totalValue : Option ℚ
  currency : Currency
  effCurrency : Currency
  category : Option FlowCategory
  period : Period
  deriving DecidableEq

/-- `GROUP BY income_category` is by the column; what is selected under that name follows from it and from
the entity. -/
structure IncomeKey where
  period : Period
  entityId : ℕ
  entityName : String
  storedCategory : Option IncomeCategory
  incomeCategory : IncomeCategory
  currency : Currency
  deriving DecidableEq

namespace Ledger

variable (l : Ledger) (now : Timestamp) (group_by : GroupBy) (range : Option Timestamp × Option Timestamp)

def rowsInRange : List (ℕ × Transaction) :=
  l.transactions.rows.filter fun r => inRange range r.2.timestamp

/-- The groups of `get_cash_flow_raw`, in no order. -/
def getCashFlowRaw : List (QueryGroup CashFlowKey) :=
  groupRows (fun r => ⟨periodExpr l.timezone now group_by r.2.timestamp, r.2.type, r.2.currency,
    flowCategory r.2⟩) (l.rowsInRange range)

def cashFlowTaggedRow (r : ℕ × Transaction) : CashFlowTaggedRow where
  id := r.1
  timestamp := r.2.timestamp
  type := r.2.type
  totalValue := r.2.totalValue
  currency := r.2.currency
  effCurrency := r.2.paymentCurrency.getD r.2.currency
  category := flowCategory r.2
  period := periodExpr l.timezone now group_by r.2.timestamp

def getCashFlowTagged : List CashFlowTaggedRow :=
  ((l.rowsInRange range).insertionSort fun r r' => r.2.timestamp ≤ r'.2.timestamp).map
    (l.cashFlowTaggedRow now group_by)

/-- The key of an income row. `employer` says which entities have the type `EMPLOYER`. -/
def incomeKey (employer : ℕ → Bool) (r : ℕ × Transaction) : IncomeKey where
  period := periodExpr l.timezone now group_by r.2.timestamp
  entityId := r.2.entityId
  entityName := ((l.entities.get? r.2.entityId).map Entity.name).getD ""
  storedCategory := r.2.incomeCategory
  incomeCategory := r.2.incomeCategory.getD (if employer r.2.entityId then .salary else .other)
  currency := r.2.currency

/-- The groups of `get_income_by_source_raw`, in no order. -/
def getIncomeBySourceRaw (employer : ℕ → Bool) : List (QueryGroup IncomeKey) :=
  groupRows (l.incomeKey now group_by employer)
    ((l.rowsInRange range).filter fun r =>
      decide (r.2.type = .income) && (l.entities.get? r.2.entityId).isSome)

end Ledger

/-! ## One calendar -/

section Agreement

variable {l : Ledger} {now : Timestamp} {employer : ℕ → Bool} {id : ℕ} {row : Transaction}
  {range : Option Timestamp × Option Timestamp} {submitted : IsoStamp} {day : ℤ}

/-- The transaction is selected by the ranges around `day` and bucketed there. -/
structure Agrees (l : Ledger) (now : Timestamp) (employer : ℕ → Bool) (id : ℕ) (day : ℤ) : Prop where
  selected : ∀ first last, first ≤ last →
    ((∃ r ∈ l.getCashFlowTagged now .day (l.timezone.resolveDateRange (some first) (some last)),
      r.id = id) ↔ first ≤ day ∧ day ≤ last)
  tagged : ∀ range, ∀ r ∈ l.getCashFlowTagged now .day range, r.id = id → r.period = .day day
  raw : ∀ range, ∀ g ∈ l.getCashFlowRaw now .day range, ∀ r ∈ g.rows, r.1 = id →
    g.key.period = .day day
  income : ∀ range, ∀ g ∈ l.getIncomeBySourceRaw now .day range employer, ∀ r ∈ g.rows, r.1 = id →
    g.key.period = .day day

/-- The stored text lies within the bounds of the day, outside those of its neighbours, and today's
offset puts it on that day. -/
structure WithinDay (tz : TimeZone) (now stored : Timestamp) (day : ℤ) : Prop where
  today : Time.dayOf (stored + tz.utcOffset now) = day
  start_le : tz.dayStart day ≤ stored
  le_end : stored ≤ tz.dayEnd day
  end_lt : tz.dayEnd (day - 1) < stored
  lt_start : stored < tz.dayStart (day + 1)

theorem mem_rowsInRange {r : ℕ × Transaction} : r ∈ l.rowsInRange range ↔
    r ∈ l.transactions.rows ∧ inRange range r.2.timestamp = true := by
  rw [Ledger.rowsInRange, List.mem_filter]

theorem mem_getCashFlowTagged {r : CashFlowTaggedRow} : r ∈ l.getCashFlowTagged now .day range ↔
    ∃ t ∈ l.rowsInRange range, l.cashFlowTaggedRow now .day t = r := by
  rw [Ledger.getCashFlowTagged, List.mem_map]
  simp only [List.mem_insertionSort]

/-- A row of the table with the transaction's id is the transaction. -/
theorem eq_of_id (hrow : l.getTransaction id = some row) {r : ℕ × Transaction}
    (hr : r ∈ l.transactions.rows) (hid : r.1 = id) : r.2 = row :=
  l.transactions.unique (k := id) (by rw [← hid]; exact hr) ((l.transactions.get?_eq_some_iff).mp hrow)

theorem selected_iff (hrow : l.getTransaction id = some row) :
    (∃ r ∈ l.getCashFlowTagged now .day range, r.id = id) ↔ inRange range row.timestamp = true := by
  constructor
  · rintro ⟨r, hr, hid⟩
    obtain ⟨t, ht, rfl⟩ := mem_getCashFlowTagged.mp hr
    obtain ⟨ht, hin⟩ := mem_rowsInRange.mp ht
    rw [← eq_of_id hrow ht hid]
    exact hin
  · intro hin
    have hmem := mem_rowsInRange.mpr ⟨(l.transactions.get?_eq_some_iff).mp hrow, hin⟩
    exact ⟨_, mem_getCashFlowTagged.mpr ⟨_, hmem, rfl⟩, rfl⟩

theorem inRange_dates {tz : TimeZone} {first last : ℤ} {t : Timestamp} :
    inRange (tz.resolveDateRange (some first) (some last)) t = true ↔
      tz.dayStart first ≤ t ∧ t ≤ tz.dayEnd last := by
  simp only [inRange, TimeZone.resolveDateRange, Option.map_some, Option.all_some, Bool.and_eq_true,
    decide_eq_true_iff]

/-- Ranges select a text within a day's bounds by that day. -/
theorem WithinDay.selected_iff {tz : TimeZone} (htz : tz.Ordered) {stored : Timestamp}
    (h : WithinDay tz now stored day) {first last : ℤ} :
    tz.dayStart first ≤ stored ∧ stored ≤ tz.dayEnd last ↔ first ≤ day ∧ day ≤ last := by
  constructor
  · rintro ⟨hfirst, hlast⟩
    constructor
    · by_contra hlt
      have := TimeZone.dayStart_mono htz (show day + 1 ≤ first by omega)
      exact absurd (h.lt_start.trans_le this) (not_lt.mpr hfirst)
    · by_contra hlt
      have := TimeZone.dayEnd_mono htz (show last ≤ day - 1 by omega)
      exact absurd (this.trans_lt h.end_lt) (not_lt.mpr hlast)
  · rintro ⟨hfirst, hlast⟩
    exact ⟨(TimeZone.dayStart_mono htz hfirst).trans h.start_le,
      h.le_end.trans (TimeZone.dayEnd_mono htz hlast)⟩

/-- The range of one day selects a text on it, the ranges of its neighbours do not. -/
theorem WithinDay.of_selected {tz : TimeZone} (htz : tz.Ordered) {stored : Timestamp}
    (htoday : Time.dayOf (stored + tz.utcOffset now) = day)
    (h : ∀ d, tz.dayStart d ≤ stored ∧ stored ≤ tz.dayEnd d ↔ d = day) :
    WithinDay tz now stored day := by
  obtain ⟨hstart, hend⟩ := (h day).mpr rfl
  refine ⟨htoday, hstart, hend, ?_, ?_⟩
  · by_contra hlt
    have hprev := TimeZone.dayStart_mono htz (show day - 1 ≤ day by omega)
    have := (h (day - 1)).mp ⟨hprev.trans hstart, not_lt.mp hlt⟩
    omega
  · by_contra hlt
    have hnext := TimeZone.dayEnd_mono htz (show day ≤ day + 1 by omega)
    have := (h (day + 1)).mp ⟨not_lt.mp hlt, hend.trans hnext⟩
    omega

theorem agrees_of_withinDay (htz : l.timezone.Ordered) (hrow : l.getTransaction id = some row)
    (h : WithinDay l.timezone now row.timestamp day) : Agrees l now employer id day := by
  have hperiod : ∀ r ∈ l.transactions.rows, r.1 = id →
      periodExpr l.timezone now .day r.2.timestamp = .day day := by
    intro r hr hid
    rw [eq_of_id hrow hr hid]
    exact congrArg Period.day h.today
  refine ⟨fun first last _ => ?_, fun range r hr hid => ?_, fun range g hg r hr hid => ?_,
    fun range g hg r hr hid => ?_⟩
  · rw [selected_iff hrow, inRange_dates]
    exact h.selected_iff htz
  · obtain ⟨t, ht, rfl⟩ := mem_getCashFlowTagged.mp hr
    exact hperiod t (mem_rowsInRange.mp ht).1 hid
  · obtain ⟨hr, hkey⟩ := mem_of_groupRows hg hr
    rw [hkey]
    exact hperiod r (mem_rowsInRange.mp hr).1 hid
  · obtain ⟨hr, hkey⟩ := mem_of_groupRows hg hr
    rw [hkey]
    exact hperiod r (mem_rowsInRange.mp (List.mem_of_mem_filter hr)).1 hid

theorem withinDay_of_agrees (htz : l.timezone.Ordered) (hrow : l.getTransaction id = some row)
    (h : Agrees l now employer id day) : WithinDay l.timezone now row.timestamp day := by
  have hday : ∀ d, l.timezone.dayStart d ≤ row.timestamp ∧ row.timestamp ≤ l.timezone.dayEnd d ↔
      d = day := by
    intro d
    rw [← inRange_dates, ← selected_iff hrow, h.selected d d le_rfl]
    omega
  obtain ⟨r, hr, hid⟩ := (h.selected day day le_rfl).mpr ⟨le_rfl, le_rfl⟩
  have htagged := h.tagged _ r hr hid
  obtain ⟨t, ht, rfl⟩ := mem_getCashFlowTagged.mp hr
  have htoday : Time.dayOf (t.2.timestamp + l.timezone.utcOffset now) = day :=
    Period.day.inj htagged
  rw [eq_of_id hrow (mem_rowsInRange.mp ht).1 hid] at htoday
  exact .of_selected htz htoday hday

/-- Away from a change of the clock, a whole second lies within the day the zone gives it. -/
theorem withinDay_of_steady {tz : TimeZone} {o t : ℤ} (ho : Time.ticksPerSecond ∣ o)
    (ht : Time.ticksPerSecond ∣ t) (hnow : tz.utcOffset now = o) (hat : tz.utcOffset t = o)
    (hday : tz.utcInstantToProfileDate t = day)
    (hstart : ∀ d, d = day ∨ d = day + 1 → tz.wallOffset (Time.startOfDay d) = o)
    (hend : ∀ d, d = day ∨ d = day - 1 → tz.wallOffset (Time.endOfDay d) = o) :
    WithinDay tz now t day := by
  obtain ⟨o, rfl⟩ := ho
  obtain ⟨t, rfl⟩ := ht
  rw [TimeZone.utcInstantToProfileDate, hat] at hday
  have hlast := hend day (.inl rfl)
  have hprev := hend (day - 1) (.inr rfl)
  have hfirst := hstart day (.inl rfl)
  have hnext := hstart (day + 1) (.inr rfl)
  have hlow : 86400 * day ≤ t + o := by
    simp only [Time.dayOf, Time.ticksPerDay, Time.ticksPerSecond] at hday
    omega
  have hhigh : t + o ≤ 86400 * day + 86399 := by
    simp only [Time.dayOf, Time.ticksPerDay, Time.ticksPerSecond] at hday
    omega
  refine ⟨by rw [hnow]; exact hday, ?_, ?_, ?_, ?_⟩ <;>
    simp only [TimeZone.dayStart, TimeZone.dayEnd, TimeZone.profileDateToUtcInstant, if_true,
      Bool.false_eq_true, if_false, hlast, hprev, hfirst, hnext] <;>
    simp only [Time.endOfDay, Time.startOfDay, Time.ticksPerDay, Time.ticksPerSecond] <;>
    linarith

end Agreement

namespace Sample

def hours (n : ℤ) : ℤ := n * 3600 * Time.ticksPerSecond

/-- A zone that never turns its clock. -/
def fixedZone (n : ℤ) : TimeZone := ⟨fun _ => hours n, fun _ => hours n⟩

theorem fixedZone_ordered (n : ℤ) : (fixedZone n).Ordered :=
  ⟨fun _ => le_add_of_nonneg_right (by decide), fun _ => le_add_of_nonneg_right (by decide)⟩

/-- New York in 2026: summer time from 8 March to 1 November. -/
def newYork : TimeZone where
  utcOffset t :=
    if Time.startOfDay 20520 + hours 7 ≤ t ∧ t < Time.startOfDay 20758 + hours 6 then hours (-4)
    else hours (-5)
  wallOffset w :=
    if Time.startOfDay 20520 + hours 3 ≤ w ∧ w < Time.startOfDay 20758 + hours 2 then hours (-4)
    else hours (-5)

theorem newYork_ordered : newYork.Ordered := by
  constructor <;> intro d <;> simp only [newYork] <;> split_ifs <;> decide

/-- A salary. -/
def salaryAt (submitted : IsoStamp) : Transaction where
  timestamp := submitted.toIso
  type := .income
  entityId := 0
  currency := usd

/-- A ledger with one transaction. -/
def ledgerWith (tz : TimeZone) (submitted : IsoStamp) : Ledger :=
  (Ledger.empty tz).insertTransaction (salaryAt submitted)

/-- 2026-01-15, 04:30 UTC: 23:30 of the day before in New York. -/
def lateEvening : IsoStamp where
  wall := Time.startOfDay 20468 + hours 4 + 1800 * Time.ticksPerSecond

end Sample

end FinHub
