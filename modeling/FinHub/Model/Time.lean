import Mathlib.Algebra.Order.Ring.Int
import Mathlib.Tactic.Linarith

/-!
# FinHub.Model.Time

Instants as the database stores and compares them. Every stored instant is an ISO text, and SQLite
compares texts; what the code uses of a text is its place in that order and its calendar date. Both
are kept by a count of ticks, two to the microsecond: a naive text (`_to_iso`, whole seconds) sits
on an even tick and a text with an offset suffix (`isoformat()` of an aware `now`) on the odd tick
after it, since the longer text sorts just after its own prefix.

* `dayOf`, `startOfDay`, `endOfDay`: the `YYYY-MM-DD` prefix, `DT00:00:00` and `DT23:59:59`.
* `injectionTs`: the instant of inferred cash, `23:59:59` of the day before a spend.
* `TimeZone`: the two lookups of `zoneinfo` the code makes.
-/

namespace FinHub

abbrev Timestamp := ℤ

/- Instants and dates are compared while the model runs: their order is the computable one,
whatever else is imported. -/
instance instPartialOrderInstant : PartialOrder ℤ := Int.instLinearOrder.toPartialOrder

instance instPreorderInstant : Preorder ℤ := Int.instLinearOrder.toPartialOrder.toPreorder

namespace Time

def ticksPerSecond : ℤ := 2000000

def ticksPerDay : ℤ := 86400 * ticksPerSecond

/-- The calendar date of an instant, as a day number. -/
def dayOf (t : ℤ) : ℤ := t / ticksPerDay

def startOfDay (d : ℤ) : ℤ := d * ticksPerDay

/-- `DT23:59:59`. -/
def endOfDay (d : ℤ) : ℤ := startOfDay d + 86399 * ticksPerSecond

/-- `(ts - timedelta(days=1)).strftime("%Y-%m-%d") + "T23:59:59"`. -/
def injectionTs (t : ℤ) : ℤ := endOfDay (dayOf t - 1)

/-- Proleptic Gregorian year, month and day of a day number (day 0 is 1970-01-01). -/
def civil (d : ℤ) : ℤ × ℤ × ℤ :=
  let z := d + 719468
  let era := z / 146097
  let doe := z - era * 146097
  let yoe := (doe - doe / 1460 + doe / 36524 - doe / 146096) / 365
  let doy := doe - (365 * yoe + yoe / 4 - yoe / 100)
  let mp := (5 * doy + 2) / 153
  let m := if mp < 10 then mp + 3 else mp - 9
  (yoe + era * 400 + (if m ≤ 2 then 1 else 0), m, doy - (153 * mp + 2) / 5 + 1)

/-- `n` in decimal, padded with zeros to `width` digits. -/
def padded (width : ℕ) (n : ℤ) : String :=
  let digits := toString n
  String.ofList (List.replicate (width - digits.length) '0') ++ digits

/-- `strftime("%Y-%m-%dT%H:%M:%S")`. -/
def isoText (t : ℤ) : String :=
  let ymd := civil (dayOf t)
  let sec := t / ticksPerSecond % 86400
  padded 4 ymd.1 ++ "-" ++ padded 2 ymd.2.1 ++ "-" ++ padded 2 ymd.2.2 ++ "T" ++
    padded 2 (sec / 3600) ++ ":" ++ padded 2 (sec / 60 % 60) ++ ":" ++ padded 2 (sec % 60)

example : isoText (19782 * 172800000000 + 45296 * 2000000) = "2024-02-29T12:34:56" := by
  decide +kernel

theorem dayOf_endOfDay (d : ℤ) : dayOf (endOfDay d) = d := by
  simp only [dayOf, endOfDay, startOfDay, ticksPerDay, ticksPerSecond]; omega

theorem dayOf_startOfDay (d : ℤ) : dayOf (startOfDay d) = d := by
  simp only [dayOf, startOfDay, ticksPerDay, ticksPerSecond]; omega

theorem startOfDay_le (t : ℤ) : startOfDay (dayOf t) ≤ t := by
  simp only [dayOf, startOfDay, ticksPerDay, ticksPerSecond]; omega

theorem lt_startOfDay_succ (t : ℤ) : t < startOfDay (dayOf t + 1) := by
  simp only [dayOf, startOfDay, ticksPerDay, ticksPerSecond]; omega

theorem endOfDay_lt_startOfDay_succ (d : ℤ) : endOfDay d < startOfDay (d + 1) := by
  simp only [endOfDay, startOfDay, ticksPerDay, ticksPerSecond]; omega

theorem dayOf_mono {t u : ℤ} (h : t ≤ u) : dayOf t ≤ dayOf u := by
  simp only [dayOf, ticksPerDay, ticksPerSecond]; omega

/-- Inferred cash stands before every instant of the day it funds. -/
theorem injectionTs_lt {t u : ℤ} (h : dayOf u = dayOf t) : injectionTs t < u := by
  have h1 := endOfDay_lt_startOfDay_succ (dayOf t - 1)
  have h2 := startOfDay_le u
  rw [h] at h2
  simp only [injectionTs]
  rw [show dayOf t - 1 + 1 = dayOf t by omega] at h1
  linarith

theorem injectionTs_lt_self (t : ℤ) : injectionTs t < t := injectionTs_lt rfl

theorem dayOf_injectionTs (t : ℤ) : dayOf (injectionTs t) = dayOf t - 1 :=
  dayOf_endOfDay _

end Time

/-- A profile's timezone: the offset of an instant (`astimezone(tz)`), and the offset `zoneinfo`
gives a wall-clock reading (`datetime(..., tzinfo=tz)`). -/
structure TimeZone where
  utcOffset : Timestamp → ℤ
  wallOffset : Timestamp → ℤ

namespace TimeZone

def utc : TimeZone := ⟨fun _ => 0, fun _ => 0⟩

/-- `utc_instant_to_profile_date`. -/
def utcInstantToProfileDate (tz : TimeZone) (t : Timestamp) : ℤ := Time.dayOf (t + tz.utcOffset t)

/-- `profile_date_to_utc_instant`. -/
def profileDateToUtcInstant (tz : TimeZone) (d : ℤ) (end_of_day : Bool) : Timestamp :=
  let wall := if end_of_day then Time.endOfDay d else Time.startOfDay d
  wall - tz.wallOffset wall

/-- `adjustment_timestamp`: `23:59:59` of the profile-timezone day before the snapshot. -/
def adjustmentTimestamp (tz : TimeZone) (snapshot_timestamp : Timestamp) : Timestamp :=
  tz.profileDateToUtcInstant (tz.utcInstantToProfileDate snapshot_timestamp - 1) true

end TimeZone

end FinHub
