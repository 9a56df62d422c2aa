import FinHub.Schedules.Materialize
import FinHub.Zones.DateRange

/-!
# FinHub.Zones.Occurrences

Which zone a missed date of a schedule is taken in, and which one reads it back.

`profile_timezone` asks for the column itself. `_create_catchup_tx` asks `get_profile`, which does not
select it, so every date is taken in `Asia/Tokyo` (`catchupTimezone_eq`). A transaction keeps its date
under profiles whose clocks are not behind Tokyo's (`catchup_onDate_iff`).
-/

namespace FinHub

open Calendar Tabular Db

structure ProfileRow where
  name : String
  passwordHash : Option String := none
  defaultFiscalRule : Option String := none
  timezone : Option String := none
  createdAt : String := ""
  deriving DecidableEq

/-- `zoneinfo`: the zones by their names. -/
structure Zones where
  zoneInfo : String → Option TimeZone
  tokyo : TimeZone
  zoneInfo_tokyo : zoneInfo "Asia/Tokyo" = some tokyo

namespace Zones

variable (z : Zones) (profiles : Table ProfileRow)

/-- A name that `zoneinfo` does not know counts as Tokyo. -/
def resolve (name : String) : TimeZone := (z.zoneInfo name).getD z.tokyo

/-- Python's `value or "Asia/Tokyo"`. -/
def orTokyo (value : Option String) : String := (value.filter fun v => decide (v ≠ "")).getD "Asia/Tokyo"

/-- `profile_timezone` of a connection. -/
def profileTimezone (profile_id : Option ℕ) : TimeZone :=
  z.resolve (orTokyo ((profile_id.bind profiles.get?).bind ProfileRow.timezone))

/-- The row of `get_profile`, by the columns it selects. -/
def getProfile (profile_id : ℕ) : Option (List (String × Option String)) :=
  (profiles.get? profile_id).map fun r =>
    [("id", some (toString profile_id)), ("name", some r.name), ("password_hash", r.passwordHash),
      ("default_fiscal_rule", r.defaultFiscalRule), ("created_at", some r.createdAt)]

/-- The zone `_create_catchup_tx` takes a date in, for the profile of a schedule, or else of the
connection. -/
def catchupTimezone (sch_profile conn_profile : Option ℕ) : TimeZone :=
  let profile := (sch_profile.or conn_profile).bind (getProfile profiles)
  z.resolve (orTokyo (profile.bind fun row => (row.lookup "timezone").join))

/-- No profile has a timezone there. -/
theorem catchupTimezone_eq (sch_profile conn_profile : Option ℕ) :
    z.catchupTimezone profiles sch_profile conn_profile = z.tokyo := by
  have hname : ((sch_profile.or conn_profile).bind (getProfile profiles)).bind
      (fun row => (row.lookup "timezone").join) = none := by
    refine Option.bind_eq_none_iff.mpr fun row hrow => ?_
    obtain ⟨id, -, hid⟩ := Option.bind_eq_some_iff.mp hrow
    obtain ⟨r, -, rfl⟩ := Option.map_eq_some_iff.mp hid
    rfl
  simp only [catchupTimezone, hname]
  simp [resolve, orTokyo, z.zoneInfo_tokyo]

end Zones

/-- What `datetime` asks of a zone, and that its clocks are turned by whole seconds. -/
structure TimeZone.Regular (tz : TimeZone) : Prop extends tz.Ordered where
  utc_lt : ∀ t, tz.utcOffset t < Time.ticksPerDay
  wall_lt : ∀ w, tz.wallOffset w < Time.ticksPerDay
  seconds : ∀ w, Time.ticksPerSecond ∣ tz.wallOffset w

/-- Tokyo is ahead of UTC, by whole seconds. -/
structure AheadOfUtc (tz : TimeZone) : Prop where
  nonneg : ∀ w, 0 ≤ tz.wallOffset w
  seconds : ∀ w, Time.ticksPerSecond ∣ tz.wallOffset w

/-- The clocks of a zone are not behind Tokyo's around Tokyo's midnight of a day. -/
structure NotBehind (tz tokyo : TimeZone) (day : ℤ) : Prop where
  at_midnight : tokyo.wallOffset (Time.startOfDay day) ≤ tz.utcOffset (tokyo.dayStart day)
  first : tokyo.wallOffset (Time.startOfDay day) ≤ tz.wallOffset (Time.startOfDay day)
  before : tokyo.wallOffset (Time.startOfDay day) ≤ tz.wallOffset (Time.endOfDay (day - 1))

/-- An instant is read back as a day, and only the filter of that day selects it. -/
def OnDate (tz : TimeZone) (t : Timestamp) (day : ℤ) : Prop :=
  tz.utcInstantToProfileDate t = day ∧
    ∀ d, inRange (tz.resolveDateRange (some d) (some d)) t = true ↔ d = day

section

variable {tz tokyo : TimeZone} {day : ℤ}

theorem onDate_iff_withinDay (htz : tz.Ordered) {t : Timestamp} :
    OnDate tz t day ↔ WithinDay tz t t day := by
  constructor
  · rintro ⟨hdate, hrange⟩
    exact .of_selected htz hdate fun d => inRange_dates.symm.trans (hrange d)
  · intro h
    refine ⟨h.today, fun d => inRange_dates.trans ((h.selected_iff htz).trans ?_)⟩
    omega

theorem withinDay_iff_notBehind (htz : tz.Regular) (htokyo : AheadOfUtc tokyo) :
    WithinDay tz (tokyo.dayStart day) (tokyo.dayStart day) day ↔ NotBehind tz tokyo day := by
  have hpos := htokyo.nonneg (Time.startOfDay day)
  obtain ⟨o, ho⟩ := htokyo.seconds (Time.startOfDay day)
  obtain ⟨w, hw⟩ := htz.seconds (Time.endOfDay (day - 1))
  have hutc := htz.utc_lt (tokyo.dayStart day)
  have hend := htz.wall_lt (Time.endOfDay day)
  have hnext := htz.wall_lt (Time.startOfDay (day + 1))
  have hat : tokyo.dayStart day = day * Time.ticksPerDay - tokyo.wallOffset (Time.startOfDay day) := rfl
  have hfirst : tz.dayStart day = day * Time.ticksPerDay - tz.wallOffset (Time.startOfDay day) := rfl
  have hlast : tz.dayEnd (day - 1) = (day - 1) * Time.ticksPerDay + 86399 * Time.ticksPerSecond -
      tz.wallOffset (Time.endOfDay (day - 1)) := rfl
  have hclose : tz.dayEnd day = day * Time.ticksPerDay + 86399 * Time.ticksPerSecond -
      tz.wallOffset (Time.endOfDay day) := rfl
  have hopen : tz.dayStart (day + 1) = (day + 1) * Time.ticksPerDay -
      tz.wallOffset (Time.startOfDay (day + 1)) := rfl
  constructor
  · rintro ⟨htoday, hstart, -, hbefore, -⟩
    refine ⟨?_, ?_, ?_⟩
    · have hle := Time.startOfDay_le (tokyo.dayStart day + tz.utcOffset (tokyo.dayStart day))
      rw [htoday, Time.startOfDay] at hle
      linarith
    · linarith
    · have hlt : tokyo.wallOffset (Time.startOfDay day) <
          tz.wallOffset (Time.endOfDay (day - 1)) + Time.ticksPerSecond := by
        simp only [Time.ticksPerDay, Time.ticksPerSecond] at hlast hat ⊢
        linarith
      rw [ho, hw] at hlt ⊢
      simp only [Time.ticksPerSecond] at hlt ⊢
      omega
  · rintro ⟨hmid, hstart, hbefore⟩
    refine ⟨?_, by linarith, ?_, ?_, ?_⟩
    · have hsum : tokyo.dayStart day + tz.utcOffset (tokyo.dayStart day) =
          (tz.utcOffset (tokyo.dayStart day) - tokyo.wallOffset (Time.startOfDay day)) +
            day * Time.ticksPerDay := by
        rw [hat]
        ring
      rw [Time.dayOf, hsum, Int.add_mul_ediv_right _ _ (by decide),
        Int.ediv_eq_zero_of_lt (sub_nonneg.mpr hmid) (by linarith), zero_add]
    · obtain ⟨w', hw'⟩ := htz.seconds (Time.endOfDay day)
      have hle : tz.wallOffset (Time.endOfDay day) ≤ 86399 * Time.ticksPerSecond := by
        rw [hw'] at hend ⊢
        simp only [Time.ticksPerDay, Time.ticksPerSecond] at hend ⊢
        omega
      linarith
    · simp only [Time.ticksPerDay, Time.ticksPerSecond] at hlast hat
      linarith
    · linarith

theorem onDate_iff_notBehind (htz : tz.Regular) (htokyo : AheadOfUtc tokyo) :
    OnDate tz (tokyo.dayStart day) day ↔ NotBehind tz tokyo day :=
  (onDate_iff_withinDay htz.toOrdered).trans (withinDay_iff_notBehind htz htokyo)

end

namespace Scheduler

/-- What completes an investment keeps its timestamp. -/
theorem getTransaction_completed {d : Database} {tx_id : ℕ} {row : Transaction}
    (h : d.ledger.getTransaction tx_id = some row) :
    ∃ row', (completed d tx_id row).ledger.getTransaction tx_id = some row' ∧
      row'.timestamp = row.timestamp := by
  unfold completed
  cases investmentFields row with
  | none => exact ⟨row, h, rfl⟩
  | some body =>
    refine ⟨_, (Table.get?_eq_some_iff _).mpr (Table.mem_modify.mpr (.inr ⟨rfl, row, ?_, rfl⟩)), rfl⟩
    exact (Table.get?_eq_some_iff _).mp h

/-- The transaction of a missed date is stamped with Tokyo's midnight of it. -/
theorem timestamp_of_createCatchupTx {server : Server} {schedule_id : ℕ} {sch : ScheduleRow}
    {fire_date : Date} {s s' : Session Database} {tx_id : ℕ}
    (h : createCatchupTx server schedule_id sch fire_date s = (.ok (some tx_id), s')) :
    ∃ row, s'.working.ledger.getTransaction tx_id = some row ∧
      row.timestamp = server.tokyo.dayStart (dayNumber fire_date) := by
  rcases createCatchupTx_cases server schedule_id sch fire_date s with
    ⟨-, hskip⟩ | ⟨type_, entity_id, currency, -, hfresh, hmade⟩
  · rw [hskip] at h
    cases h
  · rw [hmade] at h
    cases h
    obtain ⟨row, hrow, htime⟩ := getTransaction_completed (Table.get?_insert_self
      s.working.ledger.transactions (generatedRow server s.working.ledger schedule_id sch type_
        entity_id currency (dayNumber fire_date)))
      (d := s.working.withGenerated schedule_id (dayNumber fire_date) _)
    exact ⟨row, hrow, htime⟩

end Scheduler

open Scheduler in
/-- A missed date is read back as itself, and selected by its own filter alone, exactly under profiles
whose clocks are not behind Tokyo's at the midnight of the date. -/
theorem catchup_onDate_iff (z : Zones) (profiles : Table ProfileRow) (sch_profile conn_profile : Option ℕ)
    {server : Server} (hserver : server.tokyo = z.catchupTimezone profiles sch_profile conn_profile)
    {schedule_id : ℕ} {sch : ScheduleRow} {fire_date : Date} {s s' : Session Database} {tx_id : ℕ}
    (hcall : createCatchupTx server schedule_id sch fire_date s = (.ok (some tx_id), s'))
    (htz : (z.profileTimezone profiles (sch_profile.or conn_profile)).Regular)
    (htokyo : AheadOfUtc z.tokyo) :
    ∃ row, s'.working.ledger.getTransaction tx_id = some row ∧
      (OnDate (z.profileTimezone profiles (sch_profile.or conn_profile)) row.timestamp
          (dayNumber fire_date) ↔
        NotBehind (z.profileTimezone profiles (sch_profile.or conn_profile)) z.tokyo
          (dayNumber fire_date)) := by
  obtain ⟨row, hrow, htime⟩ := timestamp_of_createCatchupTx hcall
  refine ⟨row, hrow, ?_⟩
  rw [htime, hserver, z.catchupTimezone_eq]
  exact onDate_iff_notBehind htz htokyo

namespace Sample

/-- Zones with fixed offsets. -/
def zones : Zones where
  zoneInfo name :=
    if name = "Asia/Tokyo" then some (fixedZone 9)
    else if name = "Australia/Brisbane" then some (fixedZone 10)
    else if name = "America/Bogota" then some (fixedZone (-5))
    else none
  tokyo := fixedZone 9
  zoneInfo_tokyo := if_pos rfl

/-- A profile in Brisbane and one in Bogota. -/
def profiles : Table ProfileRow :=
  (Table.empty.insert { name := "Ana", timezone := some "Australia/Brisbane" }).insert
    { name := "Luz", timezone := some "America/Bogota" }

theorem fixedZone_regular {n : ℤ} (h : hours n < Time.ticksPerDay) : (fixedZone n).Regular where
  toOrdered := fixedZone_ordered n
  utc_lt _ := h
  wall_lt _ := h
  seconds _ := ⟨n * 3600, mul_comm _ _⟩

theorem tokyo_ahead : AheadOfUtc zones.tokyo :=
  ⟨fun _ => show 0 ≤ hours 9 by decide, fun _ => ⟨9 * 3600, mul_comm _ _⟩⟩

/-- Pay on the 15th of each month. -/
def monthlyPay : ScheduleRow where
  __ := fromMidJune .monthly
  entityId := some 0
  currency := some usd
  type := some .income
  totalValue := some 100

def payDay : Date := date 2026 7 15 (by decide)

theorem payDay_created :
    Scheduler.createCatchupTx (serverOn payDay 12) 0 monthlyPay payDay (.ofDb database) =
      (.ok (some 0),
        (Scheduler.createCatchupTx (serverOn payDay 12) 0 monthlyPay payDay (.ofDb database)).2) :=
  rfl

/-- The profile in Brisbane finds its pay on the 15th. -/
theorem payDay_brisbane : ∃ s' row,
    Scheduler.createCatchupTx (serverOn payDay 12) 0 monthlyPay payDay (.ofDb database) =
      (.ok (some 0), s') ∧
    s'.working.ledger.getTransaction 0 = some row ∧
      OnDate (zones.profileTimezone profiles (some 0)) row.timestamp (Scheduler.dayNumber payDay) := by
  have hzone : zones.profileTimezone profiles (some 0) = fixedZone 10 := rfl
  have hregular : (zones.profileTimezone profiles ((some 0).or none)).Regular := by
    rw [Option.or_none, hzone]
    exact fixedZone_regular (by decide)
  obtain ⟨row, hrow, hiff⟩ := catchup_onDate_iff zones profiles (some 0) none
    (zones.catchupTimezone_eq profiles (some 0) none).symm payDay_created hregular tokyo_ahead
  exact ⟨_, row, rfl, hrow, hiff.mpr ⟨by decide, by decide, by decide⟩⟩

/-- The profile in Bogota finds it on the 14th. -/
theorem payDay_bogota : ∃ s' row,
    Scheduler.createCatchupTx (serverOn payDay 12) 0 monthlyPay payDay (.ofDb database) =
      (.ok (some 0), s') ∧
    s'.working.ledger.getTransaction 0 = some row ∧
      (zones.profileTimezone profiles (some 1)).utcInstantToProfileDate row.timestamp =
        Scheduler.dayNumber payDay - 1 := by
  have hzone : zones.profileTimezone profiles (some 1) = fixedZone (-5) := rfl
  obtain ⟨row, hrow, htime⟩ := Scheduler.timestamp_of_createCatchupTx payDay_created
  refine ⟨_, row, rfl, hrow, ?_⟩
  rw [htime, hzone]
  decide

end Sample

end FinHub
