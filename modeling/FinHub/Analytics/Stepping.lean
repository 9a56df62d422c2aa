import FinHub.Analytics.ProjectedIncome
import FinHub.Schedules.Calendars

/-!
# FinHub.Analytics.Stepping

The dates that the projection steps through, beside those of the catch-up.

A step takes the day of the date before it, so a short month shortens every date after it. A date of the
catch-up is reached as long as no month on the way was shorter than it: `Calm`.
-/

namespace FinHub.Projection

open Calendar Scheduler

def Recurring (sch : ScheduleRow) : Prop := sch.periodicityType ≠ .oneOff ∧ sch.periodicityType ≠ .custom

/-- A date that is some steps from the start of the schedule. -/
def Stepped (sch : ScheduleRow) (d : Date) : Prop := ∃ n, d = (advance sch.periodicityType)^[n] sch.startDate

/-- No month between two dates, of those a stride of `k` months visits, is shorter than the later date is
to be. -/
def CalmBetween (k : ℤ) (start d : Date) : Prop :=
  ∀ j, start.index < j → j < d.index → (j - start.index) % k = 0 → min start.day (lengthAt d.index) ≤ lengthAt j

def Calm (sch : ScheduleRow) (d : Date) : Prop :=
  match sch.periodicityType with
  | .monthly | .quarterly => CalmBetween 1 sch.startDate d
  | .annually => CalmBetween 12 sch.startDate d
  | .oneOff | .daily | .weekly | .custom => True

/-! ## One step -/

theorem index_advanceMonth (dt : Date) : (advanceMonth dt).index = dt.index + 1 := by
  have hm := dt.month_mem
  rw [advanceMonth, Date.index_clamped, Date.index]
  omega

theorem day_advanceMonth (dt : Date) :
    (advanceMonth dt).day = min dt.day (lengthAt (advanceMonth dt).index) :=
  Date.day_clamped _ _ _ _ dt.day_mem.1

theorem index_advanceYear (dt : Date) : (advanceYear dt).index = dt.index + 12 := by
  unfold advanceYear Date.index
  split <;> simp only <;> omega

/-- Only 29 February has no such day in the next year. -/
theorem day_advanceYear (dt : Date) : (advanceYear dt).day = min dt.day (lengthAt (advanceYear dt).index) := by
  have hday := dt.day_mem.2
  rw [Date.lengthAt_index]
  unfold advanceYear
  split
  next h => exact (min_eq_left h).symm
  next h =>
    simp only
    have hfeb : dt.month = 2 := by
      by_contra hne
      unfold monthLength at h hday
      rw [if_neg hne] at h hday
      exact h hday
    have hshort : monthLength (dt.year + 1) dt.month = 28 := by
      unfold monthLength at h hday ⊢
      rw [if_pos hfeb] at h hday ⊢
      split_ifs at h hday ⊢ <;> omega
    rw [hshort] at h ⊢
    omega

theorem lt_advance {sch : ScheduleRow} (hr : Recurring sch) (d : Date) : d < advance sch.periodicityType d := by
  have hmonths : ∀ {k : ℤ} {d' : Date}, d'.index = d.index + k → 0 < k → d < d' := by
    intro k d' hindex hk
    exact Date.lt_of_index_lt (by omega)
  unfold advance
  cases hp : sch.periodicityType with
  | daily => exact Date.lt_addDays 0 d
  | weekly => exact Date.lt_addDays 6 d
  | monthly => exact hmonths (index_advanceMonth d) (by omega)
  | quarterly =>
    refine hmonths (k := 3) ?_ (by omega)
    rw [index_advanceMonth, index_advanceMonth, index_advanceMonth]
    omega
  | annually => exact hmonths (index_advanceYear d) (by omega)
  | oneOff => exact absurd hp hr.1
  | custom => exact absurd hp hr.2

/-! ## Steps of months -/

section

variable {f : Date → Date} {k : ℤ} (hindex : ∀ d, (f d).index = d.index + k)
  (hday : ∀ d, (f d).day = min d.day (lengthAt (f d).index))

include hindex

theorem index_iterate (a : Date) (n : ℕ) : (f^[n] a).index = a.index + k * n := by
  induction n with
  | zero => simp
  | succ n ih =>
    rw [Function.iterate_succ_apply', hindex, ih]
    push_cast
    ring

include hday

/-- The day after some steps is the least of the first day and of the lengths on the way. -/
theorem le_day_iterate {c : ℤ} (a : Date) (n : ℕ) :
    c ≤ (f^[n] a).day ↔ c ≤ a.day ∧ ∀ j < n, c ≤ lengthAt (a.index + k * (j + 1 : ℕ)) := by
  induction n with
  | zero => simp
  | succ n ih =>
    have hnext : (f (f^[n] a)).index = a.index + k * (n + 1 : ℕ) := by
      rw [hindex, index_iterate hindex]
      push_cast
      ring
    rw [Function.iterate_succ_apply', hday, le_min_iff, ih, hnext, and_assoc]
    refine and_congr_right fun _ => ?_
    constructor
    · rintro ⟨hbefore, hlast⟩ j hj
      rcases Nat.lt_succ_iff_lt_or_eq.mp hj with hlt | rfl
      · exact hbefore j hlt
      · exact hlast
    · intro h
      exact ⟨fun j hj => h j (by omega), h n (by omega)⟩

theorem day_iterate_iff (hk : 0 < k) (a : Date) (n : ℕ) :
    (f^[n] a).day = min a.day (lengthAt (f^[n] a).index) ↔ CalmBetween k a (f^[n] a) := by
  have hle := le_day_iterate hindex hday (c := min a.day (lengthAt (f^[n] a).index)) a n
  have hat := index_iterate hindex a n
  have hshort : (f^[n] a).day ≤ min a.day (lengthAt (f^[n] a).index) :=
    le_min ((le_day_iterate hindex hday a n).mp le_rfl).1 (Date.day_le_lengthAt _)
  have hiff : (f^[n] a).day = min a.day (lengthAt (f^[n] a).index) ↔
      ∀ j < n, min a.day (lengthAt (f^[n] a).index) ≤ lengthAt (a.index + k * (j + 1 : ℕ)) := by
    constructor
    · intro h
      exact (hle.mp h.ge).2
    · intro h
      exact le_antisymm hshort (hle.mpr ⟨min_le_left _ _, h⟩)
  rw [hiff]
  constructor
  · intro h j hafter hbefore hmod
    obtain ⟨q, hq⟩ := Int.dvd_of_emod_eq_zero hmod
    have hq0 : 0 < q := by
      by_contra hneg
      have := mul_nonpos_of_nonneg_of_nonpos hk.le (not_lt.mp hneg)
      omega
    have hqn : q < n := by
      have hlt : k * q < k * n := by omega
      exact lt_of_mul_lt_mul_left hlt hk.le
    have hmonth := h (q - 1).toNat (by omega)
    rwa [show a.index + k * ((q - 1).toNat + 1 : ℕ) = j by
      rw [show (((q - 1).toNat + 1 : ℕ) : ℤ) = q by omega, ← hq]; omega] at hmonth
  · intro h j hj
    rcases Nat.lt_succ_iff_lt_or_eq.mp (Nat.succ_lt_succ hj) with hlt | heq
    · refine h _ ?_ ?_ ?_
      · have : 0 < k * (j + 1 : ℕ) := mul_pos hk (by omega)
        omega
      · rw [hat]
        have : k * (j + 1 : ℕ) < k * n := mul_lt_mul_of_pos_left (by omega) hk
        omega
      · rw [add_sub_cancel_left]
        exact Int.mul_emod_right k _
    · -- The month of the date itself.
      rw [show j + 1 = n by omega, ← hat]
      exact min_le_right _ _

/-- Dates that are `m` strides apart. -/
theorem exists_iterate_of_calm (hk : 0 < k) {m : ℕ} (hm : 0 < m) {start d : Date} (hstart : start ≤ d)
    (hmod : (d.index - start.index) % (k * m) = 0) (hd : d.day = min start.day (lengthAt d.index))
    (hcalm : CalmBetween k start d) : ∃ n, d = (f^[m])^[n] start := by
  obtain ⟨q, hq⟩ := Int.dvd_of_emod_eq_zero hmod
  have hkm : 0 < k * (m : ℤ) := mul_pos hk (by omega)
  have hq0 : 0 ≤ q := by
    have hmono := Date.index_mono hstart
    by_contra hneg
    have := mul_neg_of_pos_of_neg hkm (not_le.mp hneg)
    omega
  refine ⟨q.toNat, ?_⟩
  rw [← Function.iterate_mul]
  have hidx : (f^[m * q.toNat] start).index = d.index := by
    rw [index_iterate hindex]
    push_cast
    rw [Int.toNat_of_nonneg hq0, ← mul_assoc, ← hq]
    omega
  refine Date.ext_index hidx.symm ?_
  have hcalm' : CalmBetween k start (f^[m * q.toNat] start) := by
    unfold CalmBetween at hcalm ⊢
    rwa [hidx]
  rw [(day_iterate_iff hindex hday hk start _).mpr hcalm', hidx, hd]

end

/-! ## The steps of a schedule -/

theorem advance_quarterly : advance .quarterly = advanceMonth^[3] := rfl

section

variable {sch : ScheduleRow} {d : Date}

theorem Stepped.start_le (hr : Recurring sch) (h : Stepped sch d) : sch.startDate ≤ d := by
  obtain ⟨n, rfl⟩ := h
  exact Function.id_le_iterate_of_id_le (fun d => (lt_advance hr d).le) n _

/-- Every month has 28 days. -/
theorem calm_of_day_le (h : sch.startDate.day ≤ 28) (d : Date) : Calm sch d := by
  have hlong : ∀ k, CalmBetween k sch.startDate d := by
    intro k j _ _ _
    exact (min_le_left _ _).trans (h.trans (monthLength_pos _ _))
  unfold Calm
  cases sch.periodicityType with
  | monthly | quarterly => exact hlong 1
  | annually => exact hlong 12
  | oneOff | daily | weekly | custom => trivial

/-- A date that is stepped to is one of the catch-up exactly when the months before it were long enough. -/
theorem onCadence_iff_calm (hr : Recurring sch) (h : Stepped sch d) : OnCadence sch d ↔ Calm sch d := by
  have hstart := h.start_le hr
  unfold Stepped at h
  unfold OnCadence Calm
  cases hp : sch.periodicityType with
  | oneOff => exact absurd hp hr.1
  | custom => exact absurd hp hr.2
  | daily => exact Iff.rfl
  | weekly =>
    rw [hp] at h
    exact iff_of_true ((exists_iterate_weeks hstart).mp h) trivial
  | monthly =>
    rw [hp] at h
    obtain ⟨n, rfl⟩ := h
    exact day_iterate_iff index_advanceMonth day_advanceMonth one_pos _ n
  | quarterly =>
    rw [hp] at h
    obtain ⟨n, rfl⟩ := h
    simp only [advance_quarterly, ← Function.iterate_mul]
    have hmod : ((advanceMonth^[3 * n] sch.startDate).index - sch.startDate.index) % 3 = 0 := by
      rw [index_iterate index_advanceMonth]
      omega
    rw [and_iff_right hmod]
    exact day_iterate_iff index_advanceMonth day_advanceMonth one_pos _ _
  | annually =>
    rw [hp] at h
    obtain ⟨n, rfl⟩ := h
    have hmod : (((advance .annually)^[n] sch.startDate).index - sch.startDate.index) % 12 = 0 := by
      rw [index_iterate (f := advance .annually) index_advanceYear, add_sub_cancel_left]
      exact Int.mul_emod_right 12 _
    rw [and_iff_right hmod]
    exact day_iterate_iff index_advanceYear day_advanceYear (by omega) _ n

/-- A date of the catch-up is stepped to where the months before it were long enough. -/
theorem stepped_of_calm (hr : Recurring sch) (hstart : sch.startDate ≤ d) (h : OnCadence sch d)
    (hcalm : Calm sch d) : Stepped sch d := by
  unfold Stepped
  unfold OnCadence at h
  unfold Calm at hcalm
  cases hp : sch.periodicityType with
  | oneOff => exact absurd hp hr.1
  | custom => exact absurd hp hr.2
  | daily => exact (exists_iterate_addDays hstart).mpr trivial
  | weekly =>
    simp only [hp] at h
    exact (exists_iterate_weeks hstart).mpr h
  | monthly =>
    simp only [hp] at h hcalm
    exact exists_iterate_of_calm (m := 1) index_advanceMonth day_advanceMonth one_pos one_pos hstart
      (by omega) h hcalm
  | quarterly =>
    simp only [hp] at h hcalm
    exact exists_iterate_of_calm (m := 3) index_advanceMonth day_advanceMonth one_pos (by omega) hstart
      h.1 h.2 hcalm
  | annually =>
    simp only [hp] at h hcalm
    exact exists_iterate_of_calm (m := 1) index_advanceYear day_advanceYear (by omega) one_pos hstart
      h.1 h.2 hcalm

end

end FinHub.Projection
