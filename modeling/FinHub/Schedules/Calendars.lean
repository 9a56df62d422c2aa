import FinHub.Schedules.FireDates

/-!
# FinHub.Schedules.Calendars

The two calendars of a schedule, compared.

* `mem_computeFireDates` says which dates a catch-up takes, `firesOn_iff` on which dates the trigger
  fires, both in terms of the date's own fields.
* `CalendarsAgree` is the condition on a schedule under which these are the same dates:
  the trigger does not know the end date, clamps no day to a shorter month, counts the week from
  another day and every quarter from January.
* `calendars_agree_iff`: the two sets are equal exactly then.
-/

namespace FinHub.Scheduler

open Calendar

/-! ## The catch-up calendar -/

theorem index_nextMonthDay (d : Date) (day : ℤ) (hday : 1 ≤ day) :
    (nextMonthDay d day hday).index = d.index + 1 := by
  have := d.month_mem
  unfold nextMonthDay
  split_ifs with h <;> rw [Date.index_clamped, Date.index] <;> omega

theorem index_nextQuarterDay (d : Date) (day : ℤ) (hday : 1 ≤ day) :
    (nextQuarterDay d day hday).index = d.index + 3 := by
  unfold nextQuarterDay
  split_ifs with h <;> rw [Date.index_clamped, Date.index] <;> omega

theorem day_nextMonthDay (d : Date) (day : ℤ) (hday : 1 ≤ day) :
    (nextMonthDay d day hday).day = min day (lengthAt (nextMonthDay d day hday).index) := by
  unfold nextMonthDay
  split_ifs <;> exact Date.day_clamped ..

theorem day_nextQuarterDay (d : Date) (day : ℤ) (hday : 1 ≤ day) :
    (nextQuarterDay d day hday).day = min day (lengthAt (nextQuarterDay d day hday).index) := by
  unfold nextQuarterDay
  split_ifs <;> exact Date.day_clamped ..

/-- A year on, from a date in the month of the start. -/
theorem index_nextYearDay {start d : Date} (h : (d.index - start.index) % 12 = 0) :
    (nextYearDay start d).index = d.index + 12 := by
  have hm := start.month_mem
  have hm' := d.month_mem
  rw [nextYearDay, Date.index_clamped]
  unfold Date.index at h ⊢
  omega

theorem lt_nextYearDay (start d : Date) : d < nextYearDay start d := by
  have hm := start.month_mem
  have hm' := d.month_mem
  refine Date.lt_of_index_lt ?_
  rw [nextYearDay, Date.index_clamped, Date.index]
  omega

/-- A loop that goes `p` months on and takes the start's day or the month's last. -/
theorem exists_iterate_iff {start : Date} {step : Date → Date} {p : ℤ} (hp : 0 < p)
    (hindex : ∀ d, (d.index - start.index) % p = 0 → (step d).index = d.index + p)
    (hday : ∀ d, (step d).day = min start.day (lengthAt (step d).index)) {x : Date} (hx : start ≤ x) :
    (∃ n, x = step^[n] start) ↔
      (x.index - start.index) % p = 0 ∧ x.day = min start.day (lengthAt x.index) := by
  have hiter : ∀ n, (step^[n] start).index = start.index + p * n ∧
      (step^[n] start).day = min start.day (lengthAt (step^[n] start).index) := by
    intro n
    induction n with
    | zero => exact ⟨by simp, (min_eq_left start.day_le_lengthAt).symm⟩
    | succ n ih =>
      rw [Function.iterate_succ_apply']
      refine ⟨?_, hday _⟩
      rw [hindex _ (by rw [ih.1, add_sub_cancel_left]; exact Int.mul_emod_right p n), ih.1]
      push_cast
      ring
  constructor
  · rintro ⟨n, rfl⟩
    refine ⟨?_, (hiter n).2⟩
    rw [(hiter n).1, add_sub_cancel_left]
    exact Int.mul_emod_right p n
  · rintro ⟨hmod, hd⟩
    obtain ⟨k, hk⟩ := Int.dvd_of_emod_eq_zero hmod
    have hk0 : 0 ≤ k := by
      have := Date.index_mono hx
      by_contra hneg
      have := mul_neg_of_pos_of_neg hp (not_le.mp hneg)
      omega
    refine ⟨k.toNat, Date.ext_index ?_ ?_⟩
    · rw [(hiter _).1, Int.toNat_of_nonneg hk0]
      omega
    · have hi : (step^[k.toNat] start).index = x.index := by
        rw [(hiter _).1, Int.toNat_of_nonneg hk0]
        omega
      rw [(hiter _).2, hi, hd]

/-- A date at the rhythm of the catch-up. -/
def OnCadence (sch : ScheduleRow) (d : Date) : Prop :=
  match sch.periodicityType with
  | .oneOff => d = sch.startDate
  | .daily => True
  | .weekly => d.weekday = sch.startDate.weekday
  | .monthly => d.day = min sch.startDate.day (lengthAt d.index)
  | .quarterly => (d.index - sch.startDate.index) % 3 = 0 ∧
      d.day = min sch.startDate.day (lengthAt d.index)
  | .annually => (d.index - sch.startDate.index) % 12 = 0 ∧
      d.day = min sch.startDate.day (lengthAt d.index)
  | .custom => False

theorem exists_iterate_addDays {start x : Date} (h : start ≤ x) :
    (∃ n, x = (Date.addDays 1)^[n] start) ↔ True := by
  obtain ⟨n, rfl⟩ := Date.exists_addDays h
  exact ⟨fun _ => trivial, fun _ => ⟨n, rfl⟩⟩

theorem exists_iterate_weeks {start x : Date} (h : start ≤ x) :
    (∃ n, x = (Date.addDays 7)^[n] start) ↔ x.weekday = start.weekday := by
  have hiter : ∀ n, ((Date.addDays 7)^[n] start).ordinal = start.ordinal + 7 * n := by
    intro n
    induction n with
    | zero => simp
    | succ n ih =>
      rw [Function.iterate_succ_apply', Date.ordinal_addDays, ih]
      push_cast
      ring
  constructor
  · rintro ⟨n, rfl⟩
    rw [Date.weekday, Date.weekday, hiter]
    omega
  · intro hw
    rw [Date.le_def] at h
    rw [Date.weekday, Date.weekday] at hw
    refine ⟨((x.ordinal - start.ordinal) / 7).toNat, Date.ordinal_injective ?_⟩
    rw [hiter]
    omega

theorem mem_firesUpTo (sch : ScheduleRow) (until_ d : Date) :
    d ∈ firesUpTo sch sch.startDate until_ ↔
      sch.startDate ≤ d ∧ d ≤ until_ ∧ OnCadence sch d := by
  have hloop : ∀ {step : Date → Date} {P : Prop}, (∀ d, d < step d) →
      (sch.startDate ≤ d → ((∃ n, d = step^[n] sch.startDate) ↔ P)) →
      (d ∈ upTo step sch.startDate until_ (until_.ordinal - sch.startDate.ordinal + 1).toNat
        sch.startDate ↔ sch.startDate ≤ d ∧ d ≤ until_ ∧ P) := by
    intro step P hstep hP
    rw [mem_upTo hstep (by omega)]
    constructor
    · rintro ⟨h1, h2, h3⟩; exact ⟨h1, h2, (hP h1).mp h3⟩
    · rintro ⟨h1, h2, h3⟩; exact ⟨h1, h2, (hP h1).mpr h3⟩
  unfold firesUpTo step? OnCadence
  cases sch.periodicityType with
  | oneOff =>
    simp only [if_true]
    split_ifs with h
    · rw [List.mem_singleton]
      constructor
      · rintro rfl; exact ⟨le_rfl, h.2, rfl⟩
      · exact fun hd => hd.2.2
    · constructor
      · intro hd; cases hd
      · rintro ⟨-, h2, rfl⟩; exact absurd ⟨le_rfl, h2⟩ h
  | daily => exact hloop (Date.lt_addDays 0) exists_iterate_addDays
  | weekly => exact hloop (Date.lt_addDays 6) exists_iterate_weeks
  | monthly =>
    refine hloop (fun d => Date.lt_of_index_lt (by rw [index_nextMonthDay]; omega)) fun h => ?_
    rw [exists_iterate_iff one_pos (fun d _ => index_nextMonthDay d _ _)
      (fun d => day_nextMonthDay d _ _) h, Int.emod_one]
    exact and_iff_right rfl
  | quarterly =>
    refine hloop (fun d => Date.lt_of_index_lt (by rw [index_nextQuarterDay]; omega)) fun h => ?_
    exact exists_iterate_iff (by omega) (fun d _ => index_nextQuarterDay d _ _)
      (fun d => day_nextQuarterDay d _ _) h
  | annually =>
    exact hloop (lt_nextYearDay _) fun h => exists_iterate_iff (by omega)
      (fun d hd => index_nextYearDay hd) (fun d => Date.day_clamped ..) h
  | custom =>
    constructor
    · intro hd; cases hd
    · rintro ⟨-, -, h⟩; exact h.elim

/-- The date is not after the schedule's end. -/
def NotEnded (sch : ScheduleRow) (d : Date) : Prop := ∀ e ∈ sch.endDate, d ≤ e

theorem mem_computeFireDates (sch : ScheduleRow) (until_ d : Date) :
    d ∈ computeFireDates sch sch.startDate until_ ↔
      sch.startDate ≤ d ∧ d ≤ until_ ∧ NotEnded sch d ∧ OnCadence sch d := by
  unfold computeFireDates NotEnded
  cases sch.endDate with
  | none =>
    rw [mem_firesUpTo]
    simp
  | some e =>
    simp only [Option.mem_some_iff, forall_eq']
    split_ifs with h
    · constructor
      · intro hd; cases hd
      · rintro ⟨h1, -, h3, -⟩; exact absurd (h1.trans h3) (not_le.mpr h)
    · rw [mem_firesUpTo, le_min_iff]
      tauto

/-! ## The live trigger -/

/-- A date on which the trigger fires that was made on the day `today`. -/
def OnCron (from_crontab : String → Option (Date → Bool)) (sch : ScheduleRow) (today d : Date) :
    Prop :=
  match sch.periodicityType with
  | .oneOff => today ≤ sch.startDate ∧ d = sch.startDate
  | .daily => True
  | .weekly => d.weekday = (sch.startDate.weekday + 1) % 7
  | .monthly => d.day = sch.startDate.day
  | .quarterly => d.day = sch.startDate.day ∧ d.index % 3 = 0
  | .annually => d.day = sch.startDate.day ∧ d.index % 12 = sch.startDate.index % 12
  | .custom => ∃ cron ∈ sch.customCron, cron ≠ "" ∧ ∃ fires ∈ from_crontab cron, fires d = true

@[simp] theorem allows_every_one (lowest v : ℤ) : (CronField.every 1).allows lowest v = true := by
  simp [CronField.allows]

@[simp] theorem allows_only (lowest v w : ℤ) : (CronField.only w).allows lowest v = decide (v = w) :=
  rfl

/-- The months that `*/3` allows are those of January's quarter. -/
theorem allows_every_three (d : Date) :
    (CronField.every 3).allows 1 d.month = decide (d.index % 3 = 0) := by
  refine decide_eq_decide.mpr ?_
  unfold Date.index
  omega

theorem month_eq_iff (d d' : Date) : d.month = d'.month ↔ d.index % 12 = d'.index % 12 := by
  have hm := d.index_mod
  have hm' := d'.index_mod
  omega

theorem firesOn_iff {from_crontab : String → Option (Date → Bool)} {sch : ScheduleRow}
    {today : Date} {t : Option Trigger} (ht : makeTrigger from_crontab sch today = .ok t) (d : Date) :
    firesOn t d = true ↔ OnCron from_crontab sch today d := by
  unfold makeTrigger at ht
  unfold OnCron
  cases hp : sch.periodicityType with
  | oneOff =>
    simp only [hp] at ht
    split_ifs at ht with hpast
    · cases ht
      simp [firesOn, not_le.mpr hpast]
    · cases ht
      simp [firesOn, Trigger.firesOn, not_lt.mp hpast]
  | daily =>
    simp only [hp] at ht
    cases ht
    simp [firesOn, Trigger.firesOn, CronTrigger.firesOn]
  | weekly =>
    simp only [hp] at ht
    cases ht
    simp [firesOn, Trigger.firesOn, CronTrigger.firesOn, Date.isoweekday]
  | monthly =>
    simp only [hp] at ht
    cases ht
    simp [firesOn, Trigger.firesOn, CronTrigger.firesOn]
  | quarterly =>
    simp only [hp] at ht
    cases ht
    simp [firesOn, Trigger.firesOn, CronTrigger.firesOn, allows_every_three]
  | annually =>
    simp only [hp] at ht
    cases ht
    simp [firesOn, Trigger.firesOn, CronTrigger.firesOn, month_eq_iff]
  | custom =>
    simp only [hp] at ht
    cases hc : sch.customCron with
    | none =>
      simp only [hc] at ht
      cases ht
      simp [firesOn]
    | some cron =>
      simp only [hc] at ht
      split_ifs at ht with hempty
      · cases ht
        simp [firesOn, hempty]
      · cases hf : from_crontab cron with
        | none => simp only [hf] at ht; cases ht
        | some fires =>
          simp only [hf] at ht
          cases ht
          simp [firesOn, Trigger.firesOn, hempty, hf]

/-! ## The comparison -/

/-- The trigger fires on the start date itself. -/
def StartsOnCron (sch : ScheduleRow) (today : Date) : Prop :=
  match sch.periodicityType with
  | .oneOff => today ≤ sch.startDate
  | .weekly => False
  | .quarterly => sch.startDate.index % 3 = 0
  | _ => True

/-- A month in which the catch-up takes a day, the last one where the start's day is missing. -/
def CatchUpMonth (sch : ScheduleRow) (d : Date) : Prop :=
  match sch.periodicityType with
  | .monthly => True
  | .quarterly => (d.index - sch.startDate.index) % 3 = 0
  | .annually => (d.index - sch.startDate.index) % 12 = 0
  | _ => False

/-- When the two calendars of a schedule are one up to a date. -/
@[mk_iff] structure CalendarsAgree (from_crontab : String → Option (Date → Bool)) (sch : ScheduleRow)
    (today until_ : Date) : Prop where
  /-- Nothing matches the expression after the end date. -/
  ended : ∀ d, sch.startDate ≤ d → d ≤ until_ → OnCron from_crontab sch today d → NotEnded sch d
  /-- The start date, if it is reached, matches the expression. -/
  started : sch.startDate ≤ until_ → NotEnded sch sch.startDate → StartsOnCron sch today
  /-- No month that ends in the window is too short for the start's day. -/
  full : ∀ d, sch.startDate ≤ d → d ≤ until_ → NotEnded sch d → CatchUpMonth sch d →
    d.day = lengthAt d.index → sch.startDate.day ≤ d.day
  /-- The catch-up knows no expression of the user's. -/
  standard : sch.periodicityType = .custom → ∀ d, sch.startDate ≤ d → d ≤ until_ →
    ¬ OnCron from_crontab sch today d

theorem NotEnded.mono {sch : ScheduleRow} {d d' : Date} (h : NotEnded sch d') (hd : d ≤ d') :
    NotEnded sch d := fun e he => hd.trans (h e he)

/-- A rhythm of `p` months against an expression of one day and of the months that leave `r`. -/
theorem months_agree_iff (start until_ : Date) (ended : Date → Prop)
    (hended : ∀ {d d'}, ended d' → d ≤ d' → ended d) (p r : ℤ) :
    (∀ d, (start ≤ d ∧ d ≤ until_ ∧ ended d ∧ (d.index - start.index) % p = 0 ∧
        d.day = min start.day (lengthAt d.index)) ↔
      (start ≤ d ∧ d ≤ until_ ∧ d.day = start.day ∧ d.index % p = r)) ↔
    (∀ d, start ≤ d → d ≤ until_ → d.day = start.day ∧ d.index % p = r → ended d) ∧
    (start ≤ until_ → ended start → start.index % p = r) ∧
    (∀ d, start ≤ d → d ≤ until_ → ended d → (d.index - start.index) % p = 0 →
      d.day = lengthAt d.index → start.day ≤ d.day) := by
  have hmod : ∀ d : Date, (d.index - start.index) % p = 0 ↔ d.index % p = start.index % p :=
    fun d => Int.emod_eq_emod_iff_emod_sub_eq_zero.symm
  constructor
  · intro hsame
    refine ⟨fun d h1 h2 hd => ((hsame d).mpr ⟨h1, h2, hd⟩).2.2.1, fun h hend => ?_, ?_⟩
    · exact ((hsame start).mp ⟨le_rfl, h, hend, by simp,
        (min_eq_left start.day_le_lengthAt).symm⟩).2.2.2
    · intro d h1 h2 hend hm hlast
      by_contra hshort
      rw [not_le] at hshort
      have hday := ((hsame d).mp ⟨h1, h2, hend, hm, by rw [← hlast, min_eq_right hshort.le]⟩).2.2.1
      exact hshort.ne hday
  · rintro ⟨hend, hstart, hfull⟩ d
    constructor
    · rintro ⟨h1, h2, hd, hm, hday⟩
      have hroom : start.day ≤ lengthAt d.index := by
        by_contra hshort
        rw [not_le] at hshort
        rw [min_eq_right hshort.le] at hday
        exact absurd (hfull d h1 h2 hd hm hday) (not_le.mpr (hday ▸ hshort))
      rw [min_eq_left hroom] at hday
      exact ⟨h1, h2, hday, ((hmod d).mp hm).trans (hstart (h1.trans h2) (hended hd h1))⟩
    · rintro ⟨h1, h2, hday, hm⟩
      have hd := hend d h1 h2 ⟨hday, hm⟩
      refine ⟨h1, h2, hd, ?_, ?_⟩
      · rw [hmod, hm, hstart (h1.trans h2) (hended hd h1)]
      · rw [min_eq_left (hday ▸ d.day_le_lengthAt), hday]

theorem weekday_ne (d : Date) : d.weekday ≠ (d.weekday + 1) % 7 := by
  unfold Date.weekday
  omega

theorem calendars_agree_iff (from_crontab : String → Option (Date → Bool)) (sch : ScheduleRow)
    (today until_ : Date) {t : Option Trigger} (ht : makeTrigger from_crontab sch today = .ok t) :
    (∀ d, d ∈ computeFireDates sch sch.startDate until_ ↔
      sch.startDate ≤ d ∧ d ≤ until_ ∧ firesOn t d = true) ↔
    CalendarsAgree from_crontab sch today until_ := by
  simp only [mem_computeFireDates, firesOn_iff ht, calendarsAgree_iff]
  cases hp : sch.periodicityType with
  | oneOff =>
    simp only [OnCadence, OnCron, StartsOnCron, CatchUpMonth, hp]
    constructor
    · intro hsame
      refine ⟨?_, fun h hend => ((hsame _).mp ⟨le_rfl, h, hend, rfl⟩).2.2.1, by simp, by simp⟩
      exact fun d h1 h2 hd => ((hsame d).mpr ⟨h1, h2, hd⟩).2.2.1
    · rintro ⟨hend, hstart, -, -⟩ d
      constructor
      · rintro ⟨h1, h2, hd, rfl⟩
        exact ⟨h1, h2, hstart h2 hd, rfl⟩
      · rintro ⟨h1, h2, hd⟩
        exact ⟨h1, h2, hend d h1 h2 hd, hd.2⟩
  | daily =>
    simp only [OnCadence, OnCron, StartsOnCron, CatchUpMonth, hp]
    constructor
    · intro hsame
      exact ⟨fun d h1 h2 hd => ((hsame d).mpr ⟨h1, h2, hd⟩).2.2.1, by simp, by simp, by simp⟩
    · rintro ⟨hend, -, -, -⟩ d
      exact ⟨fun h => ⟨h.1, h.2.1, trivial⟩, fun h => ⟨h.1, h.2.1, hend d h.1 h.2.1 trivial, trivial⟩⟩
  | weekly =>
    simp only [OnCadence, OnCron, StartsOnCron, CatchUpMonth, hp]
    constructor
    · intro hsame
      refine ⟨fun d h1 h2 hd => ((hsame d).mpr ⟨h1, h2, hd⟩).2.2.1, fun h hend => ?_, by simp, by simp⟩
      exact weekday_ne _ ((hsame _).mp ⟨le_rfl, h, hend, rfl⟩).2.2
    · -- The start is out of the window, or over: neither calendar has a date.
      rintro ⟨hend, hstart, -, -⟩ d
      constructor
      · rintro ⟨h1, h2, hd, -⟩
        exact (hstart (h1.trans h2) (hd.mono h1)).elim
      · rintro ⟨h1, h2, hd⟩
        exact (hstart (h1.trans h2) ((hend d h1 h2 hd).mono h1)).elim
  | monthly =>
    have h := months_agree_iff sch.startDate until_ (NotEnded sch) NotEnded.mono 1 0
    simp only [OnCadence, OnCron, StartsOnCron, CatchUpMonth, hp]
    simp only [Int.emod_one, true_and, and_true] at h
    rw [h]
    tauto
  | quarterly =>
    have h := months_agree_iff sch.startDate until_ (NotEnded sch) NotEnded.mono 3 0
    simp only [OnCadence, OnCron, StartsOnCron, CatchUpMonth, hp]
    rw [h]
    tauto
  | annually =>
    have h := months_agree_iff sch.startDate until_ (NotEnded sch) NotEnded.mono 12
      (sch.startDate.index % 12)
    simp only [OnCadence, OnCron, StartsOnCron, CatchUpMonth, hp]
    rw [h]
    tauto
  | custom =>
    simp only [OnCadence, StartsOnCron, CatchUpMonth, hp]
    constructor
    · intro hsame
      exact ⟨fun d h1 h2 hd => ((hsame d).mpr ⟨h1, h2, hd⟩).2.2.1, by simp, by simp,
        fun _ d h1 h2 hd => ((hsame d).mpr ⟨h1, h2, hd⟩).2.2.2⟩
    · rintro ⟨-, -, -, hstd⟩ d
      constructor
      · rintro ⟨-, -, -, h⟩
        exact h.elim
      · rintro ⟨h1, h2, hd⟩
        exact absurd hd (hstd trivial d h1 h2)

end FinHub.Scheduler

namespace FinHub.Sample

open Calendar Scheduler

def date (y m d : ℤ) (h : (1 ≤ m ∧ m ≤ 12) ∧ 1 ≤ d ∧ d ≤ monthLength y m) : Date := ⟨y, m, d, h.1, h.2⟩

/-- A schedule from 2026-06-15, a Monday. -/
def fromMidJune (p : PeriodicityType) : ScheduleRow where
  description := "rent"
  startDate := date 2026 6 15 (by decide)
  periodicityType := p

theorem monthly_agrees :
    let d := date 2026 8 15 (by decide)
    let until_ := date 2026 9 1 (by decide)
    d ∈ computeFireDates (fromMidJune .monthly) (fromMidJune .monthly).startDate until_ ∧
      firesOn (some (.cron ⟨.only 15, .every 1, .every 1⟩)) d = true := by
  intro d until_
  have hagree := (calendars_agree_iff (fun _ => none) (fromMidJune .monthly)
    (date 2026 6 15 (by decide)) until_ rfl).mpr
    { ended := fun _ _ _ _ e he => by cases he
      started := fun _ _ => trivial
      full := by
        intro d _ _ _ _ hlast
        have hlen : 28 ≤ lengthAt d.index := monthLength_pos _ _
        show (15 : ℤ) ≤ d.day
        omega
      standard := by intro h; cases h } d
  have hmem : d ∈ computeFireDates (fromMidJune .monthly) (fromMidJune .monthly).startDate until_ := by
    decide +kernel
  exact ⟨hmem, (hagree.mp hmem).2.2⟩

/-- Of a week from a Monday the catch-up takes the Mondays and the trigger the Tuesdays; of a
quarter from June the catch-up takes September and the trigger October. -/
theorem weekly_disagrees :
    let weekly := fromMidJune .weekly
    let quarterly := fromMidJune .quarterly
    let tuesday := date 2026 6 16 (by decide)
    let september := date 2026 9 15 (by decide)
    (∃ t, makeTrigger (fun _ => none) weekly weekly.startDate = .ok t ∧
      tuesday ∉ computeFireDates weekly weekly.startDate (date 2026 6 30 (by decide)) ∧
      firesOn t tuesday = true ∧ firesOn t weekly.startDate = false) ∧
    (∃ t, makeTrigger (fun _ => none) quarterly quarterly.startDate = .ok t ∧
      september ∈ computeFireDates quarterly quarterly.startDate (date 2026 12 31 (by decide)) ∧
      firesOn t september = false) := by
  intro weekly quarterly tuesday september
  exact ⟨⟨_, rfl, by decide +kernel, by decide +kernel, by decide +kernel⟩,
    ⟨_, rfl, by decide +kernel, by decide +kernel⟩⟩

end FinHub.Sample
