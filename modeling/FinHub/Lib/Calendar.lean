import Mathlib.Algebra.Order.Ring.Int
import Mathlib.Logic.Function.Iterate
import Mathlib.Order.Iterate
import Mathlib.Tactic.IntervalCases
import Mathlib.Tactic.Ring

/-!
# FinHub.Lib.Calendar

The proleptic Gregorian calendar.

* `Date`: a year, a month and a day of that month.
* `Date.index` counts months and `Date.ordinal` counts days; both grow with the date
  (`index_mono`, `ordinal_tomorrow`), and dates are compared by their ordinals.
* `Date.clamped`: a day of a month, the last one where the month is shorter.
* `upTo`: the dates of a loop that steps forward until it passes a bound.
-/

namespace Calendar

def isLeap (y : ℤ) : Bool := decide (y % 4 = 0) && (decide (y % 100 ≠ 0) || decide (y % 400 = 0))

def monthLength (y m : ℤ) : ℤ :=
  if m = 2 then if isLeap y then 29 else 28
  else if m = 4 ∨ m = 6 ∨ m = 9 ∨ m = 11 then 30
  else 31

def daysBeforeYear (y : ℤ) : ℤ := (y - 1) * 365 + (y - 1) / 4 - (y - 1) / 100 + (y - 1) / 400

def daysBeforeMonth (y m : ℤ) : ℤ :=
  [0, 31, 59, 90, 120, 151, 181, 212, 243, 273, 304, 334].getD (m - 1).toNat 0 +
    if 2 < m ∧ isLeap y then 1 else 0

theorem monthLength_pos (y m : ℤ) : 28 ≤ monthLength y m := by
  unfold monthLength
  split_ifs <;> omega

theorem daysBeforeYear_succ (y : ℤ) :
    daysBeforeYear (y + 1) = daysBeforeYear y + 365 + if isLeap y then 1 else 0 := by
  simp only [daysBeforeYear, isLeap, Bool.and_eq_true, Bool.or_eq_true, decide_eq_true_eq]
  split_ifs <;> omega

/-! ## Months, counted -/

/-- The length of the month of an index. -/
def lengthAt (i : ℤ) : ℤ := monthLength (i / 12) (i % 12 + 1)

/-- The days before the month of an index. -/
def daysBefore (i : ℤ) : ℤ := daysBeforeYear (i / 12) + daysBeforeMonth (i / 12) (i % 12 + 1)

theorem daysBefore_succ (i : ℤ) : daysBefore (i + 1) = daysBefore i + lengthAt i := by
  have hlo : 0 ≤ i % 12 := Int.emod_nonneg i (by omega)
  have hhi : i % 12 < 12 := Int.emod_lt_of_pos i (by omega)
  by_cases hdec : i % 12 = 11
  · -- December is followed by the next year.
    have hy : (i + 1) / 12 = i / 12 + 1 := by omega
    have hm : (i + 1) % 12 = 0 := by omega
    simp only [daysBefore, lengthAt, hy, hm, hdec, daysBeforeYear_succ, daysBeforeMonth, monthLength]
    cases isLeap (i / 12) <;> simp <;> omega
  · have hy : (i + 1) / 12 = i / 12 := by omega
    have hm : (i + 1) % 12 = i % 12 + 1 := by omega
    simp only [daysBefore, lengthAt, hy, hm, daysBeforeMonth, monthLength]
    generalize i % 12 = r at hlo hhi hdec
    interval_cases r <;> cases isLeap (i / 12) <;> simp <;> omega

theorem daysBefore_add_lengthAt_le {i j : ℤ} (h : i < j) :
    daysBefore i + lengthAt i ≤ daysBefore j := by
  obtain ⟨n, rfl⟩ : ∃ n : ℕ, j = i + 1 + n := ⟨(j - i - 1).toNat, by omega⟩
  clear h
  induction n with
  | zero => rw [← daysBefore_succ]; simp
  | succ n ih =>
    have hlen : 28 ≤ lengthAt (i + 1 + n) := monthLength_pos _ _
    rw [show i + 1 + ((n + 1 : ℕ) : ℤ) = i + 1 + n + 1 by push_cast; ring, daysBefore_succ]
    omega

/-! ## Dates -/

structure Date where
  year : ℤ
  month : ℤ
  day : ℤ
  month_mem : 1 ≤ month ∧ month ≤ 12
  day_mem : 1 ≤ day ∧ day ≤ monthLength year month
  deriving DecidableEq

namespace Date

variable {d d' : Date}

/-- Months since the year 0. -/
def index (d : Date) : ℤ := 12 * d.year + (d.month - 1)

/-- `toordinal()`. -/
def ordinal (d : Date) : ℤ := daysBeforeYear d.year + daysBeforeMonth d.year d.month + d.day

/-- `weekday()`, Monday is 0. -/
def weekday (d : Date) : ℤ := (d.ordinal + 6) % 7

/-- `isoweekday()`, Monday is 1. -/
def isoweekday (d : Date) : ℤ := d.weekday + 1

theorem index_div (d : Date) : d.index / 12 = d.year := by
  have := d.month_mem
  unfold index; omega

theorem index_mod (d : Date) : d.index % 12 + 1 = d.month := by
  have := d.month_mem
  unfold index; omega

theorem lengthAt_index (d : Date) : lengthAt d.index = monthLength d.year d.month := by
  rw [lengthAt, index_div, index_mod]

theorem ordinal_eq (d : Date) : d.ordinal = daysBefore d.index + d.day := by
  rw [ordinal, daysBefore, index_div, index_mod]

theorem day_le_lengthAt (d : Date) : d.day ≤ lengthAt d.index := d.lengthAt_index ▸ d.day_mem.2

theorem ext_index (hi : d.index = d'.index) (hd : d.day = d'.day) : d = d' := by
  have hy : d.year = d'.year := by rw [← index_div, hi, index_div]
  have hm : d.month = d'.month := by rw [← index_mod, hi, index_mod]
  cases d; cases d'
  simp only at hy hm hd
  subst hy hm hd
  rfl

theorem ordinal_lt_of_index_lt (h : d.index < d'.index) : d.ordinal < d'.ordinal := by
  have hmonths := daysBefore_add_lengthAt_le h
  have hd := d.day_le_lengthAt
  have hd' := d'.day_mem.1
  rw [ordinal_eq, ordinal_eq]
  omega

theorem ordinal_injective : Function.Injective ordinal := by
  intro d d' h
  rcases lt_trichotomy d.index d'.index with hlt | heq | hlt
  · exact absurd h (ordinal_lt_of_index_lt hlt).ne
  · rw [ordinal_eq, ordinal_eq, heq] at h
    exact ext_index heq (by omega)
  · exact absurd h (ordinal_lt_of_index_lt hlt).ne'

instance instLinearOrder : LinearOrder Date := LinearOrder.lift' ordinal ordinal_injective

theorem le_def : d ≤ d' ↔ d.ordinal ≤ d'.ordinal := Iff.rfl

theorem lt_def : d < d' ↔ d.ordinal < d'.ordinal := Iff.rfl

theorem lt_of_index_lt (h : d.index < d'.index) : d < d' := ordinal_lt_of_index_lt h

theorem index_mono (h : d ≤ d') : d.index ≤ d'.index :=
  not_lt.mp fun hlt => absurd h (not_le.mpr (lt_of_index_lt hlt))

/-- In one month the days compare. -/
theorem le_iff_of_index_eq (h : d.index = d'.index) : d ≤ d' ↔ d.day ≤ d'.day := by
  rw [le_def, ordinal_eq, ordinal_eq, h]
  omega

/-- A day of a month, its last where it is shorter: `date(y, m, min(day, monthrange(y, m)[1]))`. -/
def clamped (y m : ℤ) (hm : 1 ≤ m ∧ m ≤ 12) (day : ℤ) (hday : 1 ≤ day) : Date where
  year := y
  month := m
  day := min day (monthLength y m)
  month_mem := hm
  day_mem := ⟨le_min hday (by have := monthLength_pos y m; omega), min_le_right _ _⟩

theorem index_clamped (y m : ℤ) (hm : 1 ≤ m ∧ m ≤ 12) (day : ℤ) (hday : 1 ≤ day) :
    (clamped y m hm day hday).index = 12 * y + (m - 1) := rfl

theorem day_clamped (y m : ℤ) (hm : 1 ≤ m ∧ m ≤ 12) (day : ℤ) (hday : 1 ≤ day) :
    (clamped y m hm day hday).day = min day (lengthAt (clamped y m hm day hday).index) := by
  rw [lengthAt_index]; rfl

/-- `d + timedelta(days=1)`. -/
def tomorrow (d : Date) : Date :=
  if h : d.day < monthLength d.year d.month then
    { d with day := d.day + 1, day_mem := ⟨by have := d.day_mem; omega, h⟩ }
  else if hm : d.month < 12 then
    { d with
      month := d.month + 1
      day := 1
      month_mem := ⟨by have := d.month_mem; omega, hm⟩
      day_mem := ⟨le_rfl, by have := monthLength_pos d.year (d.month + 1); omega⟩ }
  else
    { year := d.year + 1
      month := 1
      day := 1
      month_mem := ⟨le_rfl, by omega⟩
      day_mem := ⟨le_rfl, by have := monthLength_pos (d.year + 1) 1; omega⟩ }

theorem ordinal_tomorrow (d : Date) : d.tomorrow.ordinal = d.ordinal + 1 := by
  have hday := d.day_mem
  have hmonth := d.month_mem
  have hsucc := daysBefore_succ d.index
  rw [lengthAt_index] at hsucc
  unfold tomorrow
  split_ifs with h hm
  · simp only [ordinal]; omega
  · have hi : (12 * d.year + (d.month + 1 - 1)) = d.index + 1 := by unfold index; ring
    rw [ordinal_eq, ordinal_eq, index]
    simp only [hi, hsucc]
    omega
  · have hi : (12 * (d.year + 1) + (1 - 1)) = d.index + 1 := by unfold index; omega
    rw [ordinal_eq, ordinal_eq, index]
    simp only [hi, hsucc]
    omega

/-- `d + timedelta(days=n)`. -/
def addDays (n : ℕ) (d : Date) : Date := tomorrow^[n] d

theorem ordinal_addDays (n : ℕ) (d : Date) : (d.addDays n).ordinal = d.ordinal + n := by
  induction n with
  | zero => simp [addDays]
  | succ n ih =>
    rw [addDays, Function.iterate_succ_apply', ordinal_tomorrow, ← addDays, ih]
    push_cast
    ring

theorem lt_addDays (n : ℕ) (d : Date) : d < d.addDays (n + 1) := by
  rw [lt_def, ordinal_addDays]
  push_cast
  omega

/-- Every later date is some days later. -/
theorem exists_addDays (h : d ≤ d') : ∃ n : ℕ, d' = d.addDays n := by
  rw [le_def] at h
  refine ⟨(d'.ordinal - d.ordinal).toNat, ordinal_injective ?_⟩
  rw [ordinal_addDays]
  omega

end Date

/-! ## A loop over dates -/

/-- `while current <= last: if current >= since: fires.append(current); current = step(current)`. -/
def upTo (step : Date → Date) (since last : Date) : ℕ → Date → List Date
  | 0, _ => []
  | fuel + 1, current =>
    if current ≤ last then
      let rest := upTo step since last fuel (step current)
      if since ≤ current then current :: rest else rest
    else []

/-- The loop lists the iterates of its step between the bounds, with one pass for each day. -/
theorem mem_upTo {step : Date → Date} (hstep : ∀ d, d < step d) {since last : Date} {fuel : ℕ}
    {current x : Date} (hfuel : last.ordinal - current.ordinal < fuel) :
    x ∈ upTo step since last fuel current ↔
      since ≤ x ∧ x ≤ last ∧ ∃ n, x = step^[n] current := by
  have hle : ∀ n d, d ≤ step^[n] d := fun n d => Function.id_le_iterate_of_id_le
    (fun d => (hstep d).le) n d
  induction fuel generalizing current with
  | zero =>
    constructor
    · intro h; cases h
    · rintro ⟨-, hlast, n, rfl⟩
      have := (hle n current).trans hlast
      rw [Date.le_def] at this
      push_cast at hfuel
      omega
  | succ fuel ih =>
    have hs := hstep current
    rw [Date.lt_def] at hs
    have ihs : x ∈ upTo step since last fuel (step current) ↔
        since ≤ x ∧ x ≤ last ∧ ∃ n, x = step^[n] (step current) :=
      ih (by push_cast at hfuel; omega)
    rw [upTo]
    split_ifs with hcur hsince
    · rw [List.mem_cons, ihs]
      constructor
      · rintro (rfl | ⟨h1, h2, n, rfl⟩)
        · exact ⟨hsince, hcur, 0, rfl⟩
        · exact ⟨h1, h2, n + 1, rfl⟩
      · rintro ⟨h1, h2, _ | n, rfl⟩
        · exact .inl rfl
        · exact .inr ⟨h1, h2, n, rfl⟩
    · rw [ihs]
      constructor
      · rintro ⟨h1, h2, n, rfl⟩
        exact ⟨h1, h2, n + 1, rfl⟩
      · rintro ⟨h1, h2, _ | n, rfl⟩
        · exact absurd h1 hsince
        · exact ⟨h1, h2, n, rfl⟩
    · constructor
      · intro h; cases h
      · rintro ⟨-, h2, n, rfl⟩
        exact absurd ((hle n current).trans h2) hcur

end Calendar
