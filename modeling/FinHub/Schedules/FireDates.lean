import FinHub.Lib.Calendar
import FinHub.Model.Ledger

/-!
# FinHub.Schedules.FireDates

The two calendars of `scheduler/scheduler.py`.

* `computeFireDates`: the dates a catch-up materializes, by stepping from the start date.
* `makeTrigger`: the trigger the live scheduler fires on, a cron expression for most periodicities.

`CronTrigger.from_crontab` belongs to APScheduler. Its reading of the expressions that the code
writes itself is `CronTrigger.firesOn`, with the week counted from Monday as 0 and every field
required; what it makes of a user's own expression is a parameter, `none` where it raises.
-/

namespace FinHub

open Calendar

inductive PeriodicityType where
  | oneOff | daily | weekly | monthly | quarterly | annually | custom
  deriving DecidableEq, Repr

/-- A row of `schedules`. -/
structure ScheduleRow where
  description : String
  startDate : Date
  endDate : Option Date := none
  periodicityType : PeriodicityType
  customCron : Option String := none
  entityId : Option ℕ := none
  currency : Option Currency := none
  type : Option TransactionType := none
  incomeCategory : Option IncomeCategory := none
  totalValue : Option ℚ := none
  notes : Option String := none
  portfolioAssetId : Option ℕ := none
  deriving DecidableEq

namespace Scheduler

/-! ## The catch-up calendar -/

/-- The next month, its last day where `day` is missing. -/
def nextMonthDay (d : Date) (day : ℤ) (hday : 1 ≤ day) : Date :=
  if h : d.month = 12 then Date.clamped (d.year + 1) 1 ⟨le_rfl, by omega⟩ day hday
  else Date.clamped d.year (d.month + 1) ⟨by have := d.month_mem; omega, by have := d.month_mem; omega⟩
    day hday

/-- Three months on. One subtraction of 12 is all the `while m > 12` makes. -/
def nextQuarterDay (d : Date) (day : ℤ) (hday : 1 ≤ day) : Date :=
  if h : 12 < d.month + 3 then
    Date.clamped (d.year + 1) (d.month + 3 - 12) ⟨by omega, by have := d.month_mem; omega⟩ day hday
  else Date.clamped d.year (d.month + 3) ⟨by have := d.month_mem; omega, by omega⟩ day hday

/-- The month and day of `start` in the next year. -/
def nextYearDay (start d : Date) : Date :=
  Date.clamped (d.year + 1) start.month start.month_mem start.day start.day_mem.1

/-- One pass of the loop of a periodicity, `none` where it has no loop. -/
def step? (sch : ScheduleRow) : Option (Date → Date) :=
  let start := sch.startDate
  match sch.periodicityType with
  | .daily => some (Date.addDays 1)
  | .weekly => some (Date.addDays 7)
  | .monthly => some fun d => nextMonthDay d start.day start.day_mem.1
  | .quarterly => some fun d => nextQuarterDay d start.day start.day_mem.1
  | .annually => some (nextYearDay start)
  | .oneOff | .custom => none

def firesUpTo (sch : ScheduleRow) (since until_ : Date) : List Date :=
  let start := sch.startDate
  if sch.periodicityType = .oneOff then
    if since ≤ start ∧ start ≤ until_ then [start] else []
  else
    match step? sch with
    | some step =>
      -- Every step takes a day at least.
      upTo step since until_ (until_.ordinal - start.ordinal + 1).toNat start
    | none => []

def computeFireDates (sch : ScheduleRow) (since until_ : Date) : List Date :=
  match sch.endDate with
  | some end_ => if end_ < sch.startDate then [] else firesUpTo sch since (min until_ end_)
  | none => firesUpTo sch since until_

/-! ## The live trigger -/

/-- A field of a cron expression: `*` and `*/n`, or one value. -/
inductive CronField where
  | every (n : ℤ)
  | only (v : ℤ)
  deriving DecidableEq

/-- `*/n` counts from the lowest value of its field. -/
def CronField.allows (lowest v : ℤ) : CronField → Bool
  | .every n => (v - lowest) % n = 0
  | .only w => v = w

/-- The day, month and weekday fields of an expression that fires at midnight. -/
structure CronTrigger where
  day : CronField
  month : CronField
  dayOfWeek : CronField
  deriving DecidableEq

def CronTrigger.firesOn (t : CronTrigger) (d : Date) : Bool :=
  t.day.allows 1 d.day && t.month.allows 1 d.month && t.dayOfWeek.allows 0 d.weekday

inductive Trigger where
  | date (run_date : Date)
  | cron (t : CronTrigger)
  | crontab (fires : Date → Bool)

def Trigger.firesOn : Trigger → Date → Bool
  | .date run_date, d => d = run_date
  | .cron t, d => t.firesOn d
  | .crontab fires, d => fires d

/-- A schedule without a trigger never fires. -/
def firesOn (t : Option Trigger) (d : Date) : Bool :=
  match t with
  | some t => t.firesOn d
  | none => false

/-- `ValueError` of a crontab expression that APScheduler refuses. -/
inductive TriggerError where
  | valueError (expr : String)
  deriving DecidableEq

def makeTrigger (from_crontab : String → Option (Date → Bool)) (sch : ScheduleRow) (today : Date) :
    Except TriggerError (Option Trigger) :=
  let start := sch.startDate
  match sch.periodicityType with
  | .oneOff => if start < today then .ok none else .ok (some (.date start))
  | .daily => .ok (some (.cron ⟨.every 1, .every 1, .every 1⟩))
  | .weekly => .ok (some (.cron ⟨.every 1, .every 1, .only (start.isoweekday % 7)⟩))
  | .monthly => .ok (some (.cron ⟨.only start.day, .every 1, .every 1⟩))
  | .quarterly => .ok (some (.cron ⟨.only start.day, .every 3, .every 1⟩))
  | .annually => .ok (some (.cron ⟨.only start.day, .only start.month, .every 1⟩))
  | .custom =>
    match sch.customCron with
    | none => .ok none
    | some cron =>
      if cron = "" then .ok none
      else
        match from_crontab cron with
        | some fires => .ok (some (.crontab fires))
        | none => .error (.valueError cron)

end Scheduler

end FinHub
