import FinHub.Analytics.HistoricalValues
import FinHub.Lib.WhileLoop
import FinHub.Rates.Metadata
import FinHub.Schedules.FireDates
import FinHub.Zones.DateRange

/-!
# FinHub.Analytics.ProjectedIncome

`get_projected_income` of `services/analytics_svc.py`.

A schedule is stepped from its start date, a step taking the month and day of the date before it; dates are
compared as midnights of UTC with the instants of the range. The amounts of a line are added up before they
are converted.
-/

namespace FinHub

open Calendar WhileLoop

inductive ProjectionError where
  | typeError
  | overflowError
  | valueError
  | rate (e : PnlError)
  deriving DecidableEq

structure ProjectionCall where
  startDate : Option ℤ := none
  endDate : Option ℤ := none
  displayCurrency : Option Currency := none
  now : Timestamp

/-- A row of `get_all_entities`; `employer` is whether its type is `EMPLOYER`. -/
structure EntityRow where
  id : ℕ
  name : String
  employer : Bool
  deriving DecidableEq

/-- A schedule with type `INCOME` and an entity. -/
structure IncomeSchedule where
  id : ℕ
  entityId : ℕ
  row : ScheduleRow
  deriving DecidableEq

structure ProjectedOccurrence where
  schedule : IncomeSchedule
  date : Date
  deriving DecidableEq

structure ProjectedKey where
  period : String
  entityId : ℕ
  category : IncomeCategory
  deriving DecidableEq

structure IncomeBySourceLine where
  period : String
  entityId : ℕ
  entityName : String
  type : TransactionType
  incomeCategory : IncomeCategory
  currency : Currency
  totalValue : ℚ
  count : ℕ
  deriving DecidableEq

structure IncomeBySourceWithRates where
  data : List IncomeBySourceLine
  rateInfo : Option RateMetadata
  deriving DecidableEq

def IncomeCategory.text : IncomeCategory → String
  | .salary => "salary"
  | .other => "other"
  | .dividends => "dividends"
  | .interest => "interest"
  | .cashback => "cashback"

/-- Midnight of a date in UTC. -/
def midnight (d : Date) : Timestamp := Time.startOfDay (isoDay d)

namespace Projection

/-! ## Stepping -/

theorem month_mem_mod (month : ℤ) : 1 ≤ (month - 1) % 12 + 1 ∧ (month - 1) % 12 + 1 ≤ 12 := by
  omega

theorem one_le_day (d : Date) : 1 ≤ d.day := d.day_mem.1

/-- The same day of the next month, its last where that is shorter. -/
def advanceMonth (dt : Date) : Date :=
  let month := dt.month + 1
  Date.clamped (dt.year + (month - 1) / 12) ((month - 1) % 12 + 1) (month_mem_mod month) dt.day (one_le_day dt)

/-- The same day of the next year, the 28th where there is none. -/
def advanceYear (dt : Date) : Date :=
  if h : dt.day ≤ monthLength (dt.year + 1) dt.month then
    { dt with year := dt.year + 1, day_mem := ⟨dt.day_mem.1, h⟩ }
  else { dt with year := dt.year + 1, day := 28, day_mem := ⟨by omega, monthLength_pos _ _⟩ }

def advance (periodicity : PeriodicityType) (dt : Date) : Date :=
  match periodicity with
  | .daily => dt.addDays 1
  | .weekly => dt.addDays 7
  | .monthly => advanceMonth dt
  | .quarterly => advanceMonth (advanceMonth (advanceMonth dt))
  | .annually => advanceYear dt
  | .oneOff | .custom => dt

/-- `advance_date`; no date is after the year 9999. -/
def advanceDate (periodicity : PeriodicityType) (dt : Date) : Except ProjectionError Date :=
  let next := advance periodicity dt
  if 9999 < next.year then
    .error (if periodicity = .daily ∨ periodicity = .weekly then .overflowError else .valueError)
  else .ok next

/-! ## The dates of a schedule -/

section

variable (periodicity : PeriodicityType)

/-- `while current < effective_start`: the date it stops at. -/
def skipBefore (effective_start : Timestamp) (fuel : ℕ) (current : Date) : Except ProjectionError Date :=
  (whileLoop (advanceDate periodicity) (fun d => decide (midnight d < effective_start)) fuel current).map Prod.snd

/-- `while current <= bound`, which a date after the range leaves: the dates it passes. -/
def collectUpTo (bound : Timestamp) (end_dt : Option Timestamp) (fuel : ℕ) (current : Date) :
    Except ProjectionError (List Date) :=
  (whileLoop (advanceDate periodicity)
    (fun d => decide (midnight d ≤ bound) && end_dt.all fun last => decide (midnight d ≤ last)) fuel current).map
      Prod.fst

end

/-- Days from a date to the one of an instant, and one more: a step takes a day at least. -/
def daysTo (d : Date) (t : Timestamp) : ℕ := (Time.dayOf t - isoDay d + 1).toNat

section

variable (tz : TimeZone) (call : ProjectionCall)

def startDt : Timestamp := (tz.resolveDateRange call.startDate call.endDate).1.getD call.now

def endDt : Option Timestamp := (tz.resolveDateRange call.startDate call.endDate).2

/-- The greatest of the start of the schedule, midnight today and the start of the range. -/
def effectiveStart (sch : ScheduleRow) : Timestamp :=
  max (max (midnight sch.startDate) (Time.startOfDay (Time.dayOf call.now))) (startDt tz call)

/-- `schedule_end or end_dt`. Without either the comparison is with a naive date. -/
def boundOf (sch : ScheduleRow) : Option Timestamp := (sch.endDate.map midnight).or (endDt tz call)

def projectSchedule (sch : ScheduleRow) : Except ProjectionError (List Date) :=
  if sch.periodicityType = .oneOff ∨ sch.periodicityType = .custom then .ok []
  else do
    let effective_start := effectiveStart tz call sch
    let first ← skipBefore sch.periodicityType effective_start (daysTo sch.startDate effective_start) sch.startDate
    match boundOf tz call sch with
    | none => .error .typeError
    | some bound => collectUpTo sch.periodicityType bound (endDt tz call) (daysTo first bound) first

end

/-! ## The answer -/

def incomeSchedules (schedules : List (ℕ × ScheduleRow)) : List IncomeSchedule :=
  schedules.filterMap fun s =>
    if s.2.type = some .income then s.2.entityId.map fun entity_id => ⟨s.1, entity_id, s.2⟩ else none

theorem usd_ne : "USD" ≠ "" := by decide

/-- The currency of a schedule without one. -/
def usd : Currency := ⟨"USD", usd_ne⟩

def currencyOf (s : IncomeSchedule) : Currency := s.row.currency.getD usd

/-- The category of the schedule, or the one of its entity. -/
def categoryOf (entities : List EntityRow) (s : IncomeSchedule) : IncomeCategory :=
  s.row.incomeCategory.getD
    (if (entities.find? fun e => decide (e.id = s.entityId)).any EntityRow.employer then .salary else .other)

/-- `format_period`. -/
def formatPeriod (d : Date) : String := toString d.year ++ "-" ++ Time.padded 2 d.month

def keyOf (entities : List EntityRow) (o : ProjectedOccurrence) : ProjectedKey :=
  ⟨formatPeriod o.date, o.schedule.entityId, categoryOf entities o.schedule⟩

/-- The keys of `projected_data` as the answer lists them: by period, then as the entities came up, then by
category. -/
def sortKeys (keys : List ProjectedKey) : List ProjectedKey :=
  let periods := (keys.map ProjectedKey.period).eraseDups.insertionSort fun a b => a ≤ b
  periods.flatMap fun period =>
    let ofPeriod := keys.filter fun k => decide (k.period = period)
    (ofPeriod.map ProjectedKey.entityId).eraseDups.flatMap fun entity_id =>
      (ofPeriod.filter fun k => decide (k.entityId = entity_id)).eraseDups.insertionSort fun a b =>
        a.category.text ≤ b.category.text

/-- The currency of the first schedule of the entity. -/
def entityCurrency (schedules : List IncomeSchedule) (entity_id : ℕ) : Currency :=
  ((schedules.find? fun s => decide (s.entityId = entity_id)).map currencyOf).getD usd

section

variable (l : Ledger) (call : ProjectionCall) (schedules : List (ℕ × ScheduleRow)) (entities : List EntityRow)

/-- The occurrences that are counted. -/
def projectedOccurrences : Except ProjectionError (List ProjectedOccurrence) :=
  ((incomeSchedules schedules).mapM fun s =>
    (projectSchedule l.timezone call s.row).map fun dates => dates.map fun d => ⟨s, d⟩).map List.flatten

def entityName (entity_id : ℕ) : String :=
  match entities.find? fun e => decide (e.id = entity_id) with
  | some e => e.name
  | none => "Entity #" ++ toString entity_id

/-- The line of a key. -/
def projectedLine (found : List FoundRate) (occurrences : List ProjectedOccurrence) (key : ProjectedKey) :
    IncomeBySourceLine :=
  let total_value := ((occurrences.filter fun o => decide (keyOf entities o = key)).map fun o =>
    o.schedule.row.totalValue.getD 0).sum
  let currency := entityCurrency (incomeSchedules schedules) key.entityId
  { period := key.period
    entityId := key.entityId
    entityName := entityName entities key.entityId
    type := .income
    incomeCategory := key.category
    currency
    totalValue := Decimal.roundTo 4 (convertAt found call.displayCurrency total_value currency)
    count := 1 }

def projectedLines (found : List FoundRate) (occurrences : List ProjectedOccurrence) : List IncomeBySourceLine :=
  (sortKeys (occurrences.map (keyOf entities))).map (projectedLine call schedules entities found occurrences)

/-- `get_projected_income`. -/
def getProjectedIncome : Except ProjectionError IncomeBySourceWithRates := do
  let occurrences ← projectedOccurrences l call schedules
  let currencies := occurrences.map fun o => currencyOf o.schedule
  match call.displayCurrency with
  | none => .ok ⟨projectedLines call schedules entities [] occurrences, none⟩
  | some display => do
    let found ← (l.foundRates display currencies).mapError .rate
    let rate_info ← (l.getRateMetadata display call.now currencies).mapError .rate
    .ok ⟨projectedLines call schedules entities found occurrences, rate_info⟩

end

end Projection

end FinHub
