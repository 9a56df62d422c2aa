import FinHub.Analytics.Stepping

/-!
# FinHub.Analytics.ProjectedDates

The occurrences that a projection counts, beside the dates of the catch-up in the range asked for.

* `exists_projectSchedule_iff` and `mem_projectSchedule`: when a schedule is projected at all, and on which
  dates.
* `Projects` is the condition on one schedule: something ends it, no step leaves the calendar, no short month
  lies before a date that counts, and at the dates that count the instants of the range are its dates.
* `follows_calendar_iff`: the projection follows the calendar exactly when every recurring schedule meets it.
-/

namespace FinHub.Projection

open Calendar Scheduler WhileLoop

/-! ## Midnights -/

theorem startOfDay_lt_iff {i j : ℤ} : Time.startOfDay i < Time.startOfDay j ↔ i < j := by
  simp only [Time.startOfDay, Time.ticksPerDay, Time.ticksPerSecond]
  omega

theorem lt_startOfDay_iff {t i : ℤ} : t < Time.startOfDay i ↔ Time.dayOf t < i := by
  simp only [Time.dayOf, Time.startOfDay, Time.ticksPerDay, Time.ticksPerSecond]
  omega

/-- The first second of a day in a zone ahead of UTC. -/
theorem sub_le_startOfDay_iff {first i off : ℤ} (h : 0 ≤ off ∧ off < Time.ticksPerDay) :
    Time.startOfDay first - off ≤ Time.startOfDay i ↔ first ≤ i := by
  simp only [Time.startOfDay, Time.ticksPerDay, Time.ticksPerSecond] at h ⊢
  omega

/-- The last second of a day in such a zone. -/
theorem startOfDay_le_sub_iff {last i off : ℤ} (h : 0 ≤ off ∧ off ≤ 86399 * Time.ticksPerSecond) :
    Time.startOfDay i ≤ Time.endOfDay last - off ↔ i ≤ last := by
  simp only [Time.endOfDay, Time.startOfDay, Time.ticksPerDay, Time.ticksPerSecond] at h ⊢
  omega

theorem midnight_lt_iff {d d' : Date} : midnight d < midnight d' ↔ d < d' := by
  refine startOfDay_lt_iff.trans ?_
  rw [Date.lt_def, isoDay, isoDay]
  omega

theorem midnight_le_iff {d d' : Date} : midnight d ≤ midnight d' ↔ d ≤ d' := by
  rw [← not_lt, midnight_lt_iff, not_lt]

section

variable {sch : ScheduleRow}

/-- Days enough have passed after as many steps. -/
theorem lt_midnight_iterate (hr : Recurring sch) (d : Date) (t : Timestamp) :
    t < midnight ((advance sch.periodicityType)^[daysTo d t] d) := by
  have hdays : ∀ n : ℕ, d.ordinal + n ≤ ((advance sch.periodicityType)^[n] d).ordinal := by
    intro n
    induction n with
    | zero => simp
    | succ n ih =>
      have hstep := lt_advance hr ((advance sch.periodicityType)^[n] d)
      rw [Date.lt_def] at hstep
      rw [Function.iterate_succ_apply']
      push_cast
      omega
  have hfuel := hdays (daysTo d t)
  refine lt_startOfDay_iff.mpr ?_
  unfold daysTo isoDay at hfuel ⊢
  omega

theorem steps_advanceDate (periodicity : PeriodicityType) :
    Steps (advanceDate periodicity) (advance periodicity) fun d => (advance periodicity d).year ≤ 9999 where
  ok := by
    intro d hd
    exact if_neg (by omega)
  error := by
    intro d hd
    exact ⟨_, if_pos (by omega)⟩

theorem iterate_strictMono (hr : Recurring sch) (d : Date) :
    StrictMono fun n => (advance sch.periodicityType)^[n] d := by
  refine strictMono_nat_of_lt_succ fun n => ?_
  rw [Function.iterate_succ_apply']
  exact lt_advance hr _

end

/-! ## The dates of a schedule -/

section

variable {tz : TimeZone} {call : ProjectionCall} {sch : ScheduleRow}

/-- Not after the end of the schedule, nor after the last instant of the range. -/
def BeforeEnd (tz : TimeZone) (call : ProjectionCall) (sch : ScheduleRow) (d : Date) : Prop :=
  NotEnded sch d ∧ ∀ last ∈ endDt tz call, midnight d ≤ last

/-- What the two loops let through. -/
def InInstants (tz : TimeZone) (call : ProjectionCall) (sch : ScheduleRow) (d : Date) : Prop :=
  effectiveStart tz call sch ≤ midnight d ∧ BeforeEnd tz call sch d

/-- The condition of the second loop. -/
theorem beforeEnd_iff {bound : Timestamp} (hbound : boundOf tz call sch = some bound) (d : Date) :
    (decide (midnight d ≤ bound) && (endDt tz call).all fun last => decide (midnight d ≤ last)) = true ↔
      BeforeEnd tz call sch d := by
  unfold boundOf at hbound
  unfold BeforeEnd NotEnded
  cases hend : sch.endDate with
  | none =>
    rw [hend] at hbound
    have hdt : endDt tz call = some bound := hbound
    simp [hdt]
  | some e =>
    rw [hend] at hbound
    obtain rfl : midnight e = bound := by simpa using hbound
    simp [midnight_le_iff, Option.all_eq_true]

theorem boundOf_isSome_iff : (boundOf tz call sch).isSome ↔ sch.endDate.isSome ∨ call.endDate.isSome := by
  unfold boundOf endDt TimeZone.resolveDateRange
  simp

section

variable (hr : Recurring sch)

include hr

theorem skipBefore_spec (effective_start : Timestamp) (d : Date) :
    ((∃ first, skipBefore sch.periodicityType effective_start (daysTo d effective_start) d = .ok first) ↔
      ∀ n, midnight ((advance sch.periodicityType)^[n] d) < effective_start →
        (advance sch.periodicityType ((advance sch.periodicityType)^[n] d)).year ≤ 9999) ∧
    ∀ first, skipBefore sch.periodicityType effective_start (daysTo d effective_start) d = .ok first →
      ∃ k, first = (advance sch.periodicityType)^[k] d ∧ effective_start ≤ midnight first ∧
        ∀ n < k, midnight ((advance sch.periodicityType)^[n] d) < effective_start := by
  have hsteps := steps_advanceDate sch.periodicityType
  have hstop := (lt_midnight_iterate hr d effective_start).le
  constructor
  · have hcond : ∀ a : Date, decide (midnight (advance sch.periodicityType a) < effective_start) = true →
        decide (midnight a < effective_start) = true := by
      intro a ha
      have hlt := midnight_lt_iff.mpr (lt_advance hr a)
      exact decide_eq_true (hlt.trans (of_decide_eq_true ha))
    have hloop := exists_whileLoop_iff (fun a => decide (midnight a < effective_start)) hsteps hcond
      (decide_eq_false (not_lt.mpr hstop))
    simp only [decide_eq_true_eq] at hloop
    rw [← hloop]
    constructor
    · rintro ⟨first, h⟩
      obtain ⟨r, hr', _⟩ := Runs.map_eq_ok.mp h
      exact ⟨r, hr'⟩
    · rintro ⟨r, hr'⟩
      exact ⟨r.2, Runs.map_eq_ok.mpr ⟨r, hr', rfl⟩⟩
  · intro first h
    obtain ⟨r, hr', hfirst⟩ := Runs.map_eq_ok.mp h
    obtain ⟨k, hlast, hout, hpassed, _⟩ := whileLoop_eq_ok _ hsteps (decide_eq_false (not_lt.mpr hstop)) hr'
    rw [hfirst] at hlast hout
    exact ⟨k, hlast, not_lt.mp (of_decide_eq_false hout), fun n hn => of_decide_eq_true (hpassed n hn)⟩

theorem collectUpTo_spec {bound : Timestamp} (hbound : boundOf tz call sch = some bound) (d : Date) :
    ((∃ dates, collectUpTo sch.periodicityType bound (endDt tz call) (daysTo d bound) d = .ok dates) ↔
      ∀ n, BeforeEnd tz call sch ((advance sch.periodicityType)^[n] d) →
        (advance sch.periodicityType ((advance sch.periodicityType)^[n] d)).year ≤ 9999) ∧
    ∀ dates, collectUpTo sch.periodicityType bound (endDt tz call) (daysTo d bound) d = .ok dates →
      dates.Nodup ∧ ∀ x, x ∈ dates ↔
        ∃ n, x = (advance sch.periodicityType)^[n] d ∧ BeforeEnd tz call sch x := by
  have hsteps := steps_advanceDate sch.periodicityType
  have hcond : ∀ a, (decide (midnight (advance sch.periodicityType a) ≤ bound) &&
      (endDt tz call).all fun last => decide (midnight (advance sch.periodicityType a) ≤ last)) = true →
      (decide (midnight a ≤ bound) && (endDt tz call).all fun last => decide (midnight a ≤ last)) = true := by
    intro a ha
    have hlt := lt_advance hr a
    rw [beforeEnd_iff hbound] at ha ⊢
    exact ⟨ha.1.mono hlt.le, fun last hlast => (midnight_le_iff.mpr hlt.le).trans (ha.2 last hlast)⟩
  have hstop : (decide (midnight ((advance sch.periodicityType)^[daysTo d bound] d) ≤ bound) &&
      (endDt tz call).all fun last =>
        decide (midnight ((advance sch.periodicityType)^[daysTo d bound] d) ≤ last)) = false := by
    rw [decide_eq_false (not_le.mpr (lt_midnight_iterate hr d bound)), Bool.false_and]
  constructor
  · have hloop := exists_whileLoop_iff (fun a => decide (midnight a ≤ bound) &&
      (endDt tz call).all fun last => decide (midnight a ≤ last)) hsteps hcond hstop
    simp only [beforeEnd_iff hbound] at hloop
    rw [← hloop]
    constructor
    · rintro ⟨dates, h⟩
      obtain ⟨r, hr', _⟩ := Runs.map_eq_ok.mp h
      exact ⟨r, hr'⟩
    · rintro ⟨r, hr'⟩
      exact ⟨r.1, Runs.map_eq_ok.mpr ⟨r, hr', rfl⟩⟩
  · intro dates h
    obtain ⟨r, hr', hdates⟩ := Runs.map_eq_ok.mp h
    have hmem := fun x => mem_whileLoop _ hsteps hcond hstop hr' (x := x)
    simp only [beforeEnd_iff hbound, hdates] at hmem
    obtain ⟨k, _, _, _, hlist⟩ := whileLoop_eq_ok _ hsteps hstop hr'
    refine ⟨?_, hmem⟩
    rw [← hdates, hlist]
    exact List.nodup_range.map (iterate_strictMono hr d).injective

/-- Both loops, from the start of the schedule. -/
theorem projectSchedule_spec {bound : Timestamp} (hbound : boundOf tz call sch = some bound) :
    ((∃ dates, projectSchedule tz call sch = .ok dates) ↔
      ∀ d, Stepped sch d → midnight d < effectiveStart tz call sch ∨ BeforeEnd tz call sch d →
        (advance sch.periodicityType d).year ≤ 9999) ∧
    ∀ dates, projectSchedule tz call sch = .ok dates →
      dates.Nodup ∧ ∀ d, d ∈ dates ↔ Stepped sch d ∧ InInstants tz call sch d := by
  have hskip := skipBefore_spec hr (effectiveStart tz call sch) sch.startDate
  have hmono := iterate_strictMono hr sch.startDate
  have hbody : projectSchedule tz call sch =
      skipBefore sch.periodicityType (effectiveStart tz call sch)
          (daysTo sch.startDate (effectiveStart tz call sch)) sch.startDate >>= fun first =>
        collectUpTo sch.periodicityType bound (endDt tz call) (daysTo first bound) first := by
    unfold projectSchedule
    rw [if_neg (not_or.mpr hr)]
    simp only [hbound]
  rw [hbody]
  constructor
  · constructor
    · rintro ⟨dates, h⟩ d ⟨n, rfl⟩ hd
      obtain ⟨first, hfirst, hdates⟩ := Runs.bind_eq_ok.mp h
      obtain ⟨k, rfl, _, hbefore⟩ := hskip.2 first hfirst
      rcases lt_or_ge n k with hn | hn
      · exact hskip.1.mp ⟨_, hfirst⟩ n (hbefore n hn)
      · rcases hd with hd | hd
        · exact hskip.1.mp ⟨_, hfirst⟩ n hd
        · have hafter := (collectUpTo_spec hr hbound _).1.mp ⟨dates, hdates⟩ (n - k)
          rw [← Function.iterate_add_apply, Nat.sub_add_cancel hn] at hafter
          exact hafter hd
    · intro h
      obtain ⟨first, hfirst⟩ := hskip.1.mpr fun n hn => h _ ⟨n, rfl⟩ (.inl hn)
      obtain ⟨k, hk, _, _⟩ := hskip.2 first hfirst
      obtain ⟨dates, hdates⟩ := (collectUpTo_spec hr hbound first).1.mpr fun n hn => by
        refine h _ ⟨n + k, ?_⟩ (.inr hn)
        rw [hk, Function.iterate_add_apply]
      exact ⟨dates, Runs.bind_eq_ok.mpr ⟨first, hfirst, hdates⟩⟩
  · intro dates h
    obtain ⟨first, hfirst, hdates⟩ := Runs.bind_eq_ok.mp h
    obtain ⟨k, rfl, hreached, hbefore⟩ := hskip.2 first hfirst
    obtain ⟨hnodup, hmem⟩ := (collectUpTo_spec hr hbound _).2 dates hdates
    refine ⟨hnodup, fun d => ?_⟩
    rw [hmem]
    constructor
    · rintro ⟨n, rfl, hend⟩
      rw [← Function.iterate_add_apply] at hend ⊢
      refine ⟨⟨n + k, rfl⟩, hreached.trans (midnight_le_iff.mpr (hmono.monotone (by omega))), hend⟩
    · rintro ⟨⟨n, rfl⟩, hstart, hend⟩
      have hn : k ≤ n := by
        by_contra hlt
        exact absurd (hbefore n (not_le.mp hlt)) (not_lt.mpr hstart)
      refine ⟨n - k, ?_, hend⟩
      rw [← Function.iterate_add_apply, Nat.sub_add_cancel hn]

/-- Without a bound the comparison raises. -/
theorem projectSchedule_of_unbounded (h : boundOf tz call sch = none) :
    ∀ dates, projectSchedule tz call sch ≠ .ok dates := by
  intro dates hok
  unfold projectSchedule at hok
  rw [if_neg (not_or.mpr hr)] at hok
  simp only [h] at hok
  obtain ⟨first, _, hraise⟩ := Runs.bind_eq_ok.mp hok
  cases hraise

end

end

/-! ## The calendar of the range -/

/-- The range asked for, in dates, from today on. -/
def InCalendar (call : ProjectionCall) (d : Date) : Prop :=
  (∀ first ∈ call.startDate, first ≤ isoDay d) ∧ (∀ last ∈ call.endDate, isoDay d ≤ last) ∧
    Time.dayOf call.now ≤ isoDay d

/-- A date of the catch-up. -/
def Fires (sch : ScheduleRow) (d : Date) : Prop := d ∈ computeFireDates sch sch.startDate d

theorem fires_iff {sch : ScheduleRow} {d : Date} :
    Fires sch d ↔ sch.startDate ≤ d ∧ NotEnded sch d ∧ OnCadence sch d := by
  unfold Fires
  rw [mem_computeFireDates]
  simp only [le_refl, true_and]

/-- When the dates that are projected for a schedule are those of the catch-up. -/
structure Projects (tz : TimeZone) (call : ProjectionCall) (sch : ScheduleRow) : Prop where
  /-- The schedule or the range has an end. -/
  bounded : sch.endDate.isSome ∨ call.endDate.isSome
  /-- No step from before the range or from within it leaves the calendar. -/
  within_years : ∀ d, Stepped sch d → midnight d < effectiveStart tz call sch ∨ BeforeEnd tz call sch d →
    (advance sch.periodicityType d).year ≤ 9999
  /-- No short month lies before a date of the range. -/
  calm : ∀ d, Fires sch d ∧ InCalendar call d ∨ Stepped sch d ∧ InInstants tz call sch d → Calm sch d
  /-- The instants of the range are its dates, where there is something to count. -/
  edges : ∀ d, Fires sch d → Calm sch d → (InInstants tz call sch d ↔ InCalendar call d)

section

variable {tz : TimeZone} {call : ProjectionCall} {sch : ScheduleRow}

theorem stepped_iff_fires (hr : Recurring sch) {d : Date} (hcalm : Calm sch d) (hend : NotEnded sch d) :
    Stepped sch d ↔ Fires sch d := by
  rw [fires_iff]
  constructor
  · intro h
    exact ⟨h.start_le hr, hend, (onCadence_iff_calm hr h).mpr hcalm⟩
  · rintro ⟨hstart, _, hon⟩
    exact stepped_of_calm hr hstart hon hcalm

/-- A schedule that is projected on its dates of the range. -/
def ProjectedOnDates (tz : TimeZone) (call : ProjectionCall) (sch : ScheduleRow) : Prop :=
  ∃ dates, projectSchedule tz call sch = .ok dates ∧ ∀ d, d ∈ dates ↔ Fires sch d ∧ InCalendar call d

theorem exists_bound (hr : Recurring sch) {dates : List Date} (h : projectSchedule tz call sch = .ok dates) :
    ∃ bound, boundOf tz call sch = some bound := by
  cases hb : boundOf tz call sch with
  | none => exact absurd h (projectSchedule_of_unbounded hr hb dates)
  | some bound => exact ⟨bound, rfl⟩

theorem projectedOnDates_iff (hr : Recurring sch) : ProjectedOnDates tz call sch ↔ Projects tz call sch := by
  constructor
  · rintro ⟨dates, hok, hmem⟩
    obtain ⟨bound, hbound⟩ := exists_bound hr hok
    obtain ⟨hreturns, hdates⟩ := projectSchedule_spec hr hbound
    have hsame : ∀ d, Stepped sch d ∧ InInstants tz call sch d ↔ Fires sch d ∧ InCalendar call d := by
      intro d
      rw [← hmem, (hdates dates hok).2]
    refine ⟨boundOf_isSome_iff.mp (Option.isSome_iff_exists.mpr ⟨bound, hbound⟩), hreturns.mp ⟨dates, hok⟩, ?_, ?_⟩
    · intro d hd
      have hboth := hd.elim (fun h => And.intro ((hsame d).mpr h) h) fun h => ⟨h, (hsame d).mp h⟩
      exact (onCadence_iff_calm hr hboth.1.1).mp (fires_iff.mp hboth.2.1).2.2
    · intro d hfires hcalm
      have hstepped := (stepped_iff_fires hr hcalm (fires_iff.mp hfires).2.1).mpr hfires
      constructor
      · intro h
        exact ((hsame d).mp ⟨hstepped, h⟩).2
      · intro h
        exact ((hsame d).mpr ⟨hfires, h⟩).2
  · intro h
    obtain ⟨bound, hbound⟩ := Option.isSome_iff_exists.mp (boundOf_isSome_iff.mpr h.bounded)
    obtain ⟨hreturns, hdates⟩ := projectSchedule_spec hr hbound
    obtain ⟨dates, hok⟩ := hreturns.mpr h.within_years
    refine ⟨dates, hok, fun d => ?_⟩
    rw [(hdates dates hok).2]
    constructor
    · rintro ⟨hstepped, hin⟩
      have hcalm := h.calm d (.inr ⟨hstepped, hin⟩)
      have hfires := (stepped_iff_fires hr hcalm hin.2.1).mp hstepped
      exact ⟨hfires, (h.edges d hfires hcalm).mp hin⟩
    · rintro ⟨hfires, hin⟩
      have hcalm := h.calm d (.inl ⟨hfires, hin⟩)
      exact ⟨(stepped_iff_fires hr hcalm (fires_iff.mp hfires).2.1).mpr hfires, (h.edges d hfires hcalm).mpr hin⟩

/-- The edges are right where the zone is at UTC or ahead of it at both ends of the range, and the range has a
first date. -/
theorem edges_of_ahead {first : ℤ} (hfirst : call.startDate = some first)
    (hstart : 0 ≤ tz.wallOffset (Time.startOfDay first) ∧ tz.wallOffset (Time.startOfDay first) < Time.ticksPerDay)
    (hlast : ∀ last ∈ call.endDate, 0 ≤ tz.wallOffset (Time.endOfDay last) ∧
      tz.wallOffset (Time.endOfDay last) ≤ 86399 * Time.ticksPerSecond) {d : Date} (h : Fires sch d) :
    InInstants tz call sch d ↔ InCalendar call d := by
  obtain ⟨hafter, hend, _⟩ := fires_iff.mp h
  have hday : ∀ {i : ℤ}, Time.startOfDay i ≤ midnight d ↔ i ≤ isoDay d := by
    intro i
    rw [midnight, ← not_lt, startOfDay_lt_iff, not_lt]
  have hlow : startDt tz call ≤ midnight d ↔ first ≤ isoDay d := by
    have hat : startDt tz call = Time.startOfDay first - tz.wallOffset (Time.startOfDay first) := by
      unfold startDt TimeZone.resolveDateRange
      rw [hfirst]
      rfl
    rw [hat]
    exact sub_le_startOfDay_iff hstart
  have hhigh : ∀ last ∈ call.endDate, midnight d ≤ tz.dayEnd last ↔ isoDay d ≤ last := by
    intro last hl
    exact startOfDay_le_sub_iff (hlast last hl)
  unfold InInstants BeforeEnd InCalendar effectiveStart
  rw [max_le_iff, max_le_iff, hday, hlow, hfirst]
  simp only [midnight_le_iff, hafter, hend, true_and, Option.mem_some_iff, forall_eq', endDt,
    TimeZone.resolveDateRange]
  cases hl : call.endDate with
  | none => simp [and_comm]
  | some last =>
    have := hhigh last hl
    simp [this]
    tauto

/-- What a schedule that starts by the 28th needs in such a zone. -/
theorem projects_of_early_day (hbounded : sch.endDate.isSome ∨ call.endDate.isSome)
    (hday : sch.startDate.day ≤ 28)
    (hyears : ∀ d, Stepped sch d → midnight d < effectiveStart tz call sch ∨ BeforeEnd tz call sch d →
      (advance sch.periodicityType d).year ≤ 9999)
    {first : ℤ} (hfirst : call.startDate = some first)
    (hstart : 0 ≤ tz.wallOffset (Time.startOfDay first) ∧ tz.wallOffset (Time.startOfDay first) < Time.ticksPerDay)
    (hlast : ∀ last ∈ call.endDate, 0 ≤ tz.wallOffset (Time.endOfDay last) ∧
      tz.wallOffset (Time.endOfDay last) ≤ 86399 * Time.ticksPerSecond) :
    Projects tz call sch where
  bounded := hbounded
  within_years := hyears
  calm := fun d _ => calm_of_day_le hday d
  edges := fun _ hfires _ => edges_of_ahead hfirst hstart hlast hfires

end

/-! ## The occurrences that are counted -/

/-- The occurrences of a period and an entity. -/
def cell (occurrences : List ProjectedOccurrence) (period : String) (entity_id : ℕ) : List ProjectedOccurrence :=
  occurrences.filter fun o => decide (formatPeriod o.date = period ∧ o.schedule.entityId = entity_id)

/-- The projection returns, and counts in every period and for every entity the dates of the catch-up that are in
the range, each once for a schedule. -/
structure FollowsCalendar (l : Ledger) (call : ProjectionCall) (schedules : List (ℕ × ScheduleRow))
    (entities : List EntityRow) : Prop where
  answers : ∃ answer, getProjectedIncome l { call with displayCurrency := none } schedules entities = .ok answer
  counts : ∃ occurrences, projectedOccurrences l call schedules = .ok occurrences ∧ ∀ period entity_id o,
    (o ∈ cell occurrences period entity_id ↔
      o.schedule ∈ incomeSchedules schedules ∧ Recurring o.schedule.row ∧ formatPeriod o.date = period ∧
        o.schedule.entityId = entity_id ∧ Fires o.schedule.row o.date ∧ InCalendar call o.date) ∧
    (o ∈ cell occurrences period entity_id →
      (cell occurrences period entity_id).count o = (incomeSchedules schedules).count o.schedule)

section

variable {l : Ledger} {call : ProjectionCall} {schedules : List (ℕ × ScheduleRow)}

theorem mem_projectedOccurrences {occurrences : List ProjectedOccurrence}
    (h : projectedOccurrences l call schedules = .ok occurrences) (o : ProjectedOccurrence) :
    o ∈ occurrences ↔ o.schedule ∈ incomeSchedules schedules ∧
      ∃ dates, projectSchedule l.timezone call o.schedule.row = .ok dates ∧ o.date ∈ dates := by
  obtain ⟨lists, hlists, rfl⟩ := Runs.map_eq_ok.mp h
  obtain ⟨hof, hfrom⟩ := Runs.exists_mem_of_mapM hlists
  rw [List.mem_flatten]
  constructor
  · rintro ⟨ofSchedule, hmem, ho⟩
    obtain ⟨s, hs, hproject⟩ := hfrom ofSchedule hmem
    obtain ⟨dates, hok, rfl⟩ := Runs.map_eq_ok.mp hproject
    obtain ⟨d, hd, rfl⟩ := List.mem_map.mp ho
    exact ⟨hs, dates, hok, hd⟩
  · rintro ⟨hs, dates, hok, hd⟩
    obtain ⟨ofSchedule, hmem, hproject⟩ := hof o.schedule hs
    obtain ⟨dates', hok', rfl⟩ := Runs.map_eq_ok.mp hproject
    rw [hok] at hok'
    cases hok'
    exact ⟨_, hmem, List.mem_map.mpr ⟨o.date, hd, rfl⟩⟩

theorem nodup_projectSchedule {tz : TimeZone} {sch : ScheduleRow} {dates : List Date}
    (h : projectSchedule tz call sch = .ok dates) : dates.Nodup := by
  by_cases hr : Recurring sch
  · obtain ⟨bound, hbound⟩ := exists_bound hr h
    exact ((projectSchedule_spec hr hbound).2 dates h).1
  · unfold projectSchedule at h
    rw [if_pos (by unfold Recurring at hr; tauto)] at h
    cases h
    exact List.nodup_nil

/-- An occurrence is counted once for every time its schedule is listed. -/
theorem count_projectedOccurrences {occurrences : List ProjectedOccurrence}
    (h : projectedOccurrences l call schedules = .ok occurrences) {o : ProjectedOccurrence} (ho : o ∈ occurrences) :
    occurrences.count o = (incomeSchedules schedules).count o.schedule := by
  obtain ⟨-, dates, hdates, hd⟩ := (mem_projectedOccurrences h o).mp ho
  obtain ⟨lists, hlists, rfl⟩ := Runs.map_eq_ok.mp h
  have hall := Runs.mapM_eq_ok.mp hlists
  clear h hlists ho
  generalize incomeSchedules schedules = income at hall ⊢
  induction hall with
  | nil => rfl
  | @cons s ofSchedule rest lists hproject _ ih =>
    obtain ⟨own, hok, rfl⟩ := Runs.map_eq_ok.mp hproject
    rw [List.flatten_cons, List.count_append, ih, List.count_cons, Nat.add_comm]
    congr 1
    by_cases hs : s = o.schedule
    · subst hs
      rw [hdates] at hok
      cases hok
      have hinj : Function.Injective (ProjectedOccurrence.mk o.schedule) := fun _ _ heq => congrArg (·.date) heq
      rw [beq_self_eq_true, if_pos rfl]
      exact (List.count_map_of_injective dates _ hinj o.date).trans
        (List.count_eq_one_of_mem (nodup_projectSchedule hdates) hd)
    · rw [if_neg (by simpa using hs), List.count_eq_zero]
      intro hmem
      obtain ⟨d, _, heq⟩ := List.mem_map.mp hmem
      exact hs (congrArg (·.schedule) heq)

theorem mem_cell {occurrences : List ProjectedOccurrence} {period : String} {entity_id : ℕ} {o : ProjectedOccurrence} :
    o ∈ cell occurrences period entity_id ↔
      o ∈ occurrences ∧ formatPeriod o.date = period ∧ o.schedule.entityId = entity_id := by
  unfold cell
  rw [List.mem_filter, decide_eq_true_eq]

end

end FinHub.Projection

namespace FinHub.Sample

open Calendar Projection

/-- 2000 a month from the last day of January 2026 on. -/
def lateSalary : ScheduleRow where
  description := "salary"
  startDate := date 2026 1 31 (by decide)
  periodicityType := .monthly
  entityId := some 1
  type := some .income
  totalValue := some 2000

/-- The first quarter of 2026, seen from its first midnight. -/
def firstQuarter : ProjectionCall where
  startDate := some 20454
  endDate := some 20543
  now := Time.startOfDay 20454

end FinHub.Sample
