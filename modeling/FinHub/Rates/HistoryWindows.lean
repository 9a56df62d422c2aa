import FinHub.Lib.WhileLoop
import FinHub.Model.Time
import Mathlib.Tactic.Ring

/-!
# FinHub.Rates.HistoryWindows

The windows in which a history is fetched: `_sync_windows` of `services/currency_svc.py`, which splits
instants, and `_market_history_windows` of `services/macro_client.py`, which splits dates.

* `windowPass` is a pass of their loop, for values with `unit` ticks a day.
* `windows_ordered`: whatever is returned ascends, is disjoint and no longer than a window.
* `covered_iff`: every date of the range is in a window exactly where one starts after the full
  windows, `EndsInside`.
-/

namespace FinHub

open WhileLoop

/-- The day of `date.max`, the 31 December 9999. -/
def maxDay : ℤ := 2932896

inductive DateError where
  | overflowError
  deriving DecidableEq

/-- `t + timedelta(days=n)`. -/
def plusDays (unit t : ℤ) (n : ℕ) : Except DateError ℤ :=
  if maxDay < (t + n * unit) / unit then .error .overflowError else .ok (t + n * unit)

/-- A pass of the loop: the window that starts at `current`, and where the next one starts. -/
def windowPass (unit : ℤ) (max_days : ℕ) (end_ current : ℤ) : Except DateError ((ℤ × ℤ) × ℤ) := do
  let far ← plusDays unit current max_days
  let window_end := min far end_
  let next ← plusDays unit window_end 1
  .ok ((current, window_end), next)

/-- `while current < end`. -/
def goesOn (end_ current : ℤ) : Bool := decide (current < end_)

/-- The loop, for at most `fuel` passes. -/
def windowsFrom (unit : ℤ) (max_days : ℕ) (end_ : ℤ) (fuel : ℕ) (current : ℤ) :
    Except (Option DateError) (List (ℤ × ℤ)) :=
  passes (goesOn end_) (windowPass unit max_days end_) fuel current

/-- `_sync_windows`. -/
def syncWindows (fuel : ℕ) (start end_ : Timestamp) :
    Except (Option DateError) (List (Timestamp × Timestamp)) :=
  windowsFrom Time.ticksPerDay 365 end_ fuel start

/-- `_market_history_windows`. -/
def marketHistoryWindows (fuel : ℕ) (start end_ : ℤ) (max_days : ℕ) :
    Except (Option DateError) (List (ℤ × ℤ)) :=
  (windowsFrom 1 max_days end_ fuel start).map fun windows =>
    if windows.isEmpty then [(start, end_)] else windows

/-! ## What the windows are for -/

/-- The calendar dates of a window, its ends included. -/
def datesOf (unit : ℤ) (w : ℤ × ℤ) : Set ℤ := Set.Icc (w.1 / unit) (w.2 / unit)

/-- Every date of the range is in a window. -/
def CoversDates (unit start end_ : ℤ) (windows : List (ℤ × ℤ)) : Prop :=
  ∀ d, start / unit ≤ d → d ≤ end_ / unit → ∃ w ∈ windows, d ∈ datesOf unit w

/-- Windows that tile the dates of a range. -/
structure Tiles (unit : ℤ) (max_days : ℕ) (start end_ : ℤ) (windows : List (ℤ × ℤ)) : Prop where
  ascending : windows.Pairwise fun w v => w.1 < v.1
  disjoint : windows.Pairwise fun w v => ∀ d ∈ datesOf unit w, d ∉ datesOf unit v
  span : ∀ w ∈ windows, w.1 ≤ w.2 ∧ w.2 - w.1 ≤ max_days * unit
  covers : CoversDates unit start end_ windows

/-- The days in windows that are full and have another date of the range after them. -/
def fullDays (unit : ℤ) (max_days : ℕ) (start end_ : ℤ) : ℤ :=
  (end_ / unit - start / unit) / (max_days + 1) * (max_days + 1)

/-- A window starts after the full ones, before the end of the range; its longest extent and the day after
the range are dates. -/
structure EndsInside (unit : ℤ) (max_days : ℕ) (start end_ : ℤ) : Prop where
  starts : start + fullDays unit max_days start end_ * unit < end_
  extent : start / unit + fullDays unit max_days start end_ + max_days ≤ maxDay
  next : end_ / unit < maxDay

section

variable {unit : ℤ} {max_days : ℕ} {start end_ current : ℤ}

theorem day_add_days (hunit : 0 < unit) (t n : ℤ) : (t + n * unit) / unit = t / unit + n :=
  Int.add_mul_ediv_right t n hunit.ne'

theorem day_add_unit (hunit : 0 < unit) (t : ℤ) : (t + unit) / unit = t / unit + 1 := by
  have h := day_add_days hunit t 1
  rwa [one_mul] at h

theorem plusDays_eq_ok (hunit : 0 < unit) {t u : ℤ} {n : ℕ} :
    plusDays unit t n = .ok u ↔ t / unit + n ≤ maxDay ∧ u = t + n * unit := by
  unfold plusDays
  rw [day_add_days hunit]
  split_ifs with h
  · exact ⟨fun hu => (by cases hu), fun hu => absurd hu.1 (not_le.mpr h)⟩
  · exact ⟨fun hu => ⟨not_lt.mp h, (Except.ok.inj hu).symm⟩, fun hu => hu.2 ▸ rfl⟩

/-- The last instant of the window that starts at `current`. -/
def windowEnd (unit : ℤ) (max_days : ℕ) (end_ current : ℤ) : ℤ := min (current + max_days * unit) end_

theorem windowPass_eq_ok (hunit : 0 < unit) {r : (ℤ × ℤ) × ℤ} :
    windowPass unit max_days end_ current = .ok r ↔
      current / unit + max_days ≤ maxDay ∧ windowEnd unit max_days end_ current / unit + 1 ≤ maxDay ∧
        r = ((current, windowEnd unit max_days end_ current),
          windowEnd unit max_days end_ current + unit) := by
  constructor
  · intro h
    obtain ⟨far, hfar, h⟩ := Runs.bind_eq_ok.mp h
    obtain ⟨next, hnext, h⟩ := Runs.bind_eq_ok.mp h
    obtain ⟨hextent, rfl⟩ := (plusDays_eq_ok hunit).mp hfar
    obtain ⟨hlast, rfl⟩ := (plusDays_eq_ok hunit).mp hnext
    rw [← Except.ok.inj h, Nat.cast_one, one_mul]
    exact ⟨hextent, by exact_mod_cast hlast, rfl⟩
  · rintro ⟨hextent, hlast, rfl⟩
    refine Runs.bind_eq_ok.mpr ⟨_, (plusDays_eq_ok hunit).mpr ⟨hextent, rfl⟩, ?_⟩
    refine Runs.bind_eq_ok.mpr ⟨_, (plusDays_eq_ok hunit).mpr ⟨by exact_mod_cast hlast, rfl⟩, ?_⟩
    rw [Nat.cast_one, one_mul]
    rfl

theorem windowEnd_le (unit : ℤ) (max_days : ℕ) (end_ current : ℤ) :
    windowEnd unit max_days end_ current ≤ current + max_days * unit := min_le_left _ _

theorem le_windowEnd (hunit : 0 < unit) (h : current ≤ end_) :
    current ≤ windowEnd unit max_days end_ current :=
  le_min (le_add_of_nonneg_right (mul_nonneg (Int.natCast_nonneg _) hunit.le)) h

theorem lt_of_day_lt (hunit : 0 < unit) {t u : ℤ} (h : t / unit < u / unit) : t < u :=
  lt_of_not_ge fun hle => absurd (Int.ediv_le_ediv hunit hle) (not_le.mpr h)

/-- The window ends on its last date or on that of the range. -/
theorem day_windowEnd (hunit : 0 < unit) :
    windowEnd unit max_days end_ current / unit = min (current / unit + max_days) (end_ / unit) := by
  rw [← day_add_days hunit]
  unfold windowEnd
  rcases le_total (current + max_days * unit) end_ with h | h
  · rw [min_eq_left h, min_eq_left (Int.ediv_le_ediv hunit h)]
  · rw [min_eq_right h, min_eq_right (Int.ediv_le_ediv hunit h)]

/-- The loop from `current`. -/
def ListsWindows (unit : ℤ) (max_days : ℕ) (end_ current : ℤ) (windows : List (ℤ × ℤ)) : Prop :=
  Returns (goesOn end_) (windowPass unit max_days end_) current windows

theorem listsWindows_iff_of_lt (hunit : 0 < unit) (h : current < end_) {windows : List (ℤ × ℤ)} :
    ListsWindows unit max_days end_ current windows ↔
      current / unit + max_days ≤ maxDay ∧ windowEnd unit max_days end_ current / unit + 1 ≤ maxDay ∧
        ∃ rest, ListsWindows unit max_days end_ (windowEnd unit max_days end_ current + unit) rest ∧
          windows = (current, windowEnd unit max_days end_ current) :: rest := by
  rw [ListsWindows, returns_iff_of_cond (show goesOn end_ current = true from decide_eq_true h)]
  constructor
  · rintro ⟨r, rest, hr, hrest, rfl⟩
    obtain ⟨hextent, hlast, rfl⟩ := (windowPass_eq_ok hunit).mp hr
    exact ⟨hextent, hlast, rest, hrest, rfl⟩
  · rintro ⟨hextent, hlast, rest, hrest, rfl⟩
    exact ⟨_, rest, (windowPass_eq_ok hunit).mpr ⟨hextent, hlast, rfl⟩, hrest, rfl⟩

theorem listsWindows_iff_of_le (h : end_ ≤ current) {windows : List (ℤ × ℤ)} :
    ListsWindows unit max_days end_ current windows ↔ windows = [] :=
  returns_iff_of_not (show goesOn end_ current = false from decide_eq_false (not_lt.mpr h))

/-- Whatever the loop lists: each window starts a day after the one before it, or later. -/
theorem windows_ordered (hunit : 0 < unit) {windows : List (ℤ × ℤ)}
    (h : ListsWindows unit max_days end_ current windows) :
    (∀ w ∈ windows, current ≤ w.1 ∧ w.1 ≤ w.2 ∧ w.2 ≤ w.1 + max_days * unit) ∧
      windows.Pairwise fun w v => w.2 + unit ≤ v.1 := by
  refine Returns.rule (motive := fun current windows =>
    (∀ w ∈ windows, current ≤ w.1 ∧ w.1 ≤ w.2 ∧ w.2 ≤ w.1 + max_days * unit) ∧
      windows.Pairwise fun w v => w.2 + unit ≤ v.1) ?_ ?_ h
  · intro current _
    exact ⟨fun w hw => (by cases hw), List.Pairwise.nil⟩
  · intro current r rest hcond hr ⟨hspans, hordered⟩
    obtain ⟨-, -, rfl⟩ := (windowPass_eq_ok hunit).mp hr
    have hcurrent : current ≤ windowEnd unit max_days end_ current :=
      le_windowEnd hunit (of_decide_eq_true hcond).le
    refine ⟨?_, List.pairwise_cons.mpr ⟨fun v hv => (hspans v hv).1, hordered⟩⟩
    intro w hw
    rcases List.mem_cons.mp hw with rfl | hw
    · exact ⟨le_rfl, hcurrent, windowEnd_le _ _ _ _⟩
    · obtain ⟨hle, hspan⟩ := hspans w hw
      exact ⟨by dsimp only at hle; linarith, hspan⟩

/-- The first part of the range is covered by the first window, and the rest by the others. -/
theorem covers_cons_iff {w : ℤ × ℤ} {rest : List (ℤ × ℤ)} {next : ℤ} (hstart : w.1 = start)
    (hnext : next / unit = w.2 / unit + 1)
    (hle : start / unit ≤ next / unit) :
    CoversDates unit start end_ (w :: rest) ↔ CoversDates unit next end_ rest := by
  constructor
  · intro h d hd hlast
    obtain ⟨v, hv, hmem⟩ := h d (hle.trans hd) hlast
    rcases List.mem_cons.mp hv with rfl | hv
    · have := hmem.2
      omega
    · exact ⟨v, hv, hmem⟩
  · intro h d hd hlast
    by_cases hdn : next / unit ≤ d
    · obtain ⟨v, hv, hmem⟩ := h d hdn hlast
      exact ⟨v, List.mem_cons_of_mem _ hv, hmem⟩
    · exact ⟨w, List.mem_cons_self, by rw [hstart]; exact hd, by omega⟩

theorem fullDays_eq_zero (hle : start / unit ≤ end_ / unit)
    (hlast : end_ / unit ≤ start / unit + max_days) : fullDays unit max_days start end_ = 0 := by
  rw [fullDays, Int.ediv_eq_zero_of_lt (by omega) (by omega), zero_mul]

theorem fullDays_next {next : ℤ} (hnext : next / unit = start / unit + max_days + 1) :
    fullDays unit max_days start end_ = fullDays unit max_days next end_ + (max_days + 1) := by
  have hsplit : end_ / unit - start / unit = (end_ / unit - next / unit) + (max_days + 1 : ℤ) * 1 := by
    rw [hnext]; ring
  rw [fullDays, fullDays, hsplit, Int.add_mul_ediv_left _ _ (by omega)]
  ring

/-- A full window leaves the condition as it was. -/
theorem endsInside_next {next : ℤ} (hunit : 0 < unit) (hnext : next = start + (max_days + 1) * unit) :
    EndsInside unit max_days next end_ ↔ EndsInside unit max_days start end_ := by
  have hday : next / unit = start / unit + max_days + 1 := by
    rw [hnext, day_add_days hunit]; ring
  have hfull : fullDays unit max_days start end_ = fullDays unit max_days next end_ + (max_days + 1) :=
    fullDays_next hday
  have hstarts : next + fullDays unit max_days next end_ * unit =
      start + fullDays unit max_days start end_ * unit := by
    rw [hfull, hnext]; ring
  constructor
  · rintro ⟨h1, h2, h3⟩
    exact ⟨hstarts ▸ h1, by omega, h3⟩
  · rintro ⟨h1, h2, h3⟩
    exact ⟨hstarts.symm ▸ h1, by omega, h3⟩

/-- The windows from `start` on are returned and hold every date up to the end. -/
def Covered (unit : ℤ) (max_days : ℕ) (start end_ : ℤ) : Prop :=
  ∃ windows, ListsWindows unit max_days end_ start windows ∧ CoversDates unit start end_ windows

theorem not_covered (hle : start / unit ≤ end_ / unit) (hend : end_ ≤ start) :
    ¬ Covered unit max_days start end_ := by
  rintro ⟨windows, hlists, hcovers⟩
  obtain rfl := (listsWindows_iff_of_le hend).mp hlists
  obtain ⟨w, hw, -⟩ := hcovers _ hle le_rfl
  cases hw

/-- A full window with a date of the range after it: the loop goes on a day after the window. -/
theorem covered_next (hunit : 0 < unit) (hfull : start / unit + max_days < end_ / unit) :
    Covered unit max_days start end_ ↔
      start / unit + max_days + 1 ≤ maxDay ∧
        Covered unit max_days (start + (max_days + 1) * unit) end_ := by
  have hfar : windowEnd unit max_days end_ start = start + max_days * unit :=
    min_eq_left (lt_of_day_lt hunit (by rw [day_add_days hunit]; exact hfull)).le
  have hend : start < end_ := lt_of_day_lt hunit (by omega)
  have hlast : windowEnd unit max_days end_ start / unit = start / unit + max_days := by
    rw [hfar, day_add_days hunit]
  have hnext : start + max_days * unit + unit = start + (max_days + 1) * unit := by ring
  have hnextday : (start + (max_days + 1) * unit) / unit = start / unit + max_days + 1 := by
    rw [day_add_days hunit]; ring
  have hcovers : ∀ rest, CoversDates unit start end_ ((start, windowEnd unit max_days end_ start) :: rest) ↔
      CoversDates unit (start + (max_days + 1) * unit) end_ rest := fun rest =>
    covers_cons_iff rfl (by rw [hnextday, hlast]) (by omega)
  constructor
  · rintro ⟨windows, hlists, hdates⟩
    obtain ⟨-, hmax, rest, hrest, rfl⟩ := (listsWindows_iff_of_lt hunit hend).mp hlists
    rw [hfar, hnext] at hrest
    exact ⟨by omega, rest, hrest, (hcovers rest).mp hdates⟩
  · rintro ⟨hmax, rest, hrest, hdates⟩
    rw [← hnext, ← hfar] at hrest
    exact ⟨_, (listsWindows_iff_of_lt hunit hend).mpr ⟨by omega, by omega, rest, hrest, rfl⟩,
      (hcovers rest).mpr hdates⟩

/-- The last window: the loop stops a day after it. -/
theorem covered_last (hunit : 0 < unit) (hfull : end_ / unit ≤ start / unit + max_days)
    (hend : start < end_) :
    Covered unit max_days start end_ ↔ start / unit + max_days ≤ maxDay ∧ end_ / unit < maxDay := by
  have hlast : windowEnd unit max_days end_ start / unit = end_ / unit := by
    rw [day_windowEnd hunit, min_eq_right hfull]
  have hstop : end_ ≤ windowEnd unit max_days end_ start + unit :=
    (lt_of_day_lt hunit (by rw [day_add_unit hunit, hlast]; omega)).le
  constructor
  · rintro ⟨windows, hlists, -⟩
    obtain ⟨hextent, hnext, -⟩ := (listsWindows_iff_of_lt hunit hend).mp hlists
    exact ⟨hextent, by omega⟩
  · rintro ⟨hextent, hnext⟩
    refine ⟨[(start, windowEnd unit max_days end_ start)], (listsWindows_iff_of_lt hunit hend).mpr
      ⟨hextent, by omega, [], (listsWindows_iff_of_le hstop).mpr rfl, rfl⟩, ?_⟩
    intro d hd hdend
    exact ⟨_, List.mem_singleton_self _, hd, hlast ▸ hdend⟩

theorem covered_iff (hunit : 0 < unit) (hle : start / unit ≤ end_ / unit) :
    Covered unit max_days start end_ ↔ EndsInside unit max_days start end_ := by
  -- Induction on the days that are left; a full window takes its own off them.
  induction hn : (end_ / unit - start / unit).toNat using Nat.strong_induction_on generalizing start with
  | h n ih =>
    rcases lt_or_ge (start / unit + max_days) (end_ / unit) with hfull | hfull
    · have hnextday : (start + (max_days + 1) * unit) / unit = start / unit + max_days + 1 := by
        rw [day_add_days hunit]; ring
      rw [covered_next hunit hfull, ih _ (by omega) (by omega) rfl, endsInside_next hunit rfl]
      refine and_iff_right_of_imp fun h => ?_
      have := h.next
      omega
    · have hzero := fullDays_eq_zero hle hfull
      have hiff : EndsInside unit max_days start end_ ↔
          start < end_ ∧ start / unit + max_days ≤ maxDay ∧ end_ / unit < maxDay := by
        constructor
        · rintro ⟨hstarts, hextent, hnext⟩
          rw [hzero, zero_mul, add_zero] at hstarts
          exact ⟨hstarts, by omega, hnext⟩
        · rintro ⟨hend, hextent, hnext⟩
          exact ⟨by rw [hzero, zero_mul, add_zero]; exact hend, by omega, hnext⟩
      rw [hiff]
      by_cases hend : start < end_
      · rw [covered_last hunit hfull hend, and_iff_right hend]
      · exact iff_of_false (not_covered hle (not_lt.mp hend)) fun h => hend h.1

/-- Only the dates can be missing: the windows listed always ascend, without a common date. -/
theorem tiles_iff (hunit : 0 < unit) {windows : List (ℤ × ℤ)}
    (h : ListsWindows unit max_days end_ start windows) :
    Tiles unit max_days start end_ windows ↔ CoversDates unit start end_ windows := by
  obtain ⟨hspans, hordered⟩ := windows_ordered hunit h
  refine ⟨Tiles.covers, fun hcovers => ⟨?_, ?_, ?_, hcovers⟩⟩
  · refine hordered.imp_of_mem fun hw _ hlt => ?_
    have hw := (hspans _ hw).2.1
    linarith
  · refine hordered.imp fun {w v} hlt d hd hd' => ?_
    have hday := Int.ediv_le_ediv hunit hlt
    rw [day_add_unit hunit] at hday
    have hlast := hd.2
    have hfirst := hd'.1
    omega
  · intro w hw
    obtain ⟨-, hle, hspan⟩ := hspans w hw
    exact ⟨hle, by linarith⟩

theorem exists_tiles_iff (hunit : 0 < unit) (h : start ≤ end_) :
    (∃ windows, ListsWindows unit max_days end_ start windows ∧ Tiles unit max_days start end_ windows) ↔
      EndsInside unit max_days start end_ := by
  rw [← covered_iff hunit (Int.ediv_le_ediv hunit h)]
  exact exists_congr fun windows => and_congr_right fun hlists => tiles_iff hunit hlists

/-- A range of one date is a window of its own. -/
theorem tiles_singleton (start : ℤ) (max_days : ℕ) : Tiles 1 max_days start start [(start, start)] where
  ascending := List.pairwise_singleton _ _
  disjoint := List.pairwise_singleton _ _
  span := by
    intro w hw
    obtain rfl := List.mem_singleton.mp hw
    exact ⟨le_rfl, by simp⟩
  covers := fun d hd hd' => ⟨_, List.mem_singleton_self _, hd, hd'⟩

theorem marketHistoryWindows_eq_ok {windows : List (ℤ × ℤ)} :
    (∃ fuel, marketHistoryWindows fuel start end_ max_days = .ok windows) ↔
      ∃ listed, ListsWindows 1 max_days end_ start listed ∧
        (if listed.isEmpty then [(start, end_)] else listed) = windows := by
  constructor
  · rintro ⟨fuel, h⟩
    obtain ⟨listed, hlisted, h⟩ := Runs.map_eq_ok.mp h
    exact ⟨listed, ⟨fuel, hlisted⟩, h⟩
  · rintro ⟨listed, ⟨fuel, hlisted⟩, h⟩
    exact ⟨fuel, Runs.map_eq_ok.mpr ⟨listed, hlisted, h⟩⟩

theorem exists_syncTiles_iff (h : start ≤ end_) :
    (∃ fuel windows, syncWindows fuel start end_ = .ok windows ∧
      Tiles Time.ticksPerDay 365 start end_ windows) ↔ EndsInside Time.ticksPerDay 365 start end_ := by
  rw [← exists_tiles_iff (by decide) h, exists_comm]
  exact exists_congr fun windows => exists_and_right

theorem exists_marketTiles_iff (h : start ≤ end_) :
    (∃ fuel windows, marketHistoryWindows fuel start end_ max_days = .ok windows ∧
      Tiles 1 max_days start end_ windows) ↔ start = end_ ∨ EndsInside 1 max_days start end_ := by
  have hlists : (∃ fuel windows, marketHistoryWindows fuel start end_ max_days = .ok windows ∧
        Tiles 1 max_days start end_ windows) ↔
      ∃ listed, ListsWindows 1 max_days end_ start listed ∧
        Tiles 1 max_days start end_ (if listed.isEmpty then [(start, end_)] else listed) := by
    constructor
    · rintro ⟨fuel, windows, hwindows, htiles⟩
      obtain ⟨listed, hlisted, rfl⟩ := marketHistoryWindows_eq_ok.mp ⟨fuel, hwindows⟩
      exact ⟨listed, hlisted, htiles⟩
    · rintro ⟨listed, hlisted, htiles⟩
      obtain ⟨fuel, hwindows⟩ := marketHistoryWindows_eq_ok.mpr ⟨listed, hlisted, rfl⟩
      exact ⟨fuel, _, hwindows, htiles⟩
  rw [hlists]
  rcases h.eq_or_lt with rfl | hlt
  · exact iff_of_true ⟨[], (listsWindows_iff_of_le le_rfl).mpr rfl, tiles_singleton _ _⟩ (.inl rfl)
  · rw [← exists_tiles_iff one_pos h, or_iff_right hlt.ne]
    refine exists_congr fun listed => and_congr_right fun hlisted => ?_
    obtain ⟨-, -, rest, -, rfl⟩ := (listsWindows_iff_of_lt one_pos hlt).mp hlisted
    rfl

/-- The instants are tiled exactly where a window starts after the full ones, and the dates also where
there is only one. A window and the day after it are 366 days: where the last date is a multiple of these
after the first, and for instants no later in its day, it is in no window. -/
theorem historyWindows_tile_iff {start end_ : Timestamp} (h : start ≤ end_) {first last : ℤ}
    (h' : first ≤ last) :
    ((∃ fuel windows, syncWindows fuel start end_ = .ok windows ∧
        Tiles Time.ticksPerDay 365 start end_ windows) ↔ EndsInside Time.ticksPerDay 365 start end_) ∧
      ((∃ fuel windows, marketHistoryWindows fuel first last 365 = .ok windows ∧
        Tiles 1 365 first last windows) ↔ first = last ∨ EndsInside 1 365 first last) :=
  ⟨exists_syncTiles_iff h, exists_marketTiles_iff h'⟩

/-- From 1 January 2024 to 1 June 2025. -/
theorem historyWindows_tile_iff_june :
    ((∃ fuel windows, syncWindows fuel (Time.startOfDay 19723) (Time.startOfDay 20240) = .ok windows ∧
        Tiles Time.ticksPerDay 365 (Time.startOfDay 19723) (Time.startOfDay 20240) windows) ↔
        EndsInside Time.ticksPerDay 365 (Time.startOfDay 19723) (Time.startOfDay 20240)) ∧
      ((∃ fuel windows, marketHistoryWindows fuel 19723 20240 365 = .ok windows ∧
        Tiles 1 365 19723 20240 windows) ↔ (19723 : ℤ) = 20240 ∨ EndsInside 1 365 19723 20240) :=
  historyWindows_tile_iff (by decide) (by decide)

/-- From 1 January 2024 to 1 January 2025 there is one window, and it ends on 31 December 2024. -/
theorem newYear_lost :
    (∃ fuel, marketHistoryWindows fuel 19723 20089 365 = .ok [(19723, 20088)]) ∧
      (¬ ∃ fuel windows, marketHistoryWindows fuel 19723 20089 365 = .ok windows ∧
        Tiles 1 365 19723 20089 windows) ∧
      ¬ ∃ fuel windows, syncWindows fuel (Time.startOfDay 19723) (Time.startOfDay 20089) = .ok windows ∧
        Tiles Time.ticksPerDay 365 (Time.startOfDay 19723) (Time.startOfDay 20089) windows := by
  refine ⟨⟨2, by decide⟩, ?_, ?_⟩
  · rw [exists_marketTiles_iff (by decide)]
    rintro (h | h)
    · exact absurd h (by decide)
    · exact absurd h.starts (by decide)
  · rw [exists_syncTiles_iff (by decide)]
    intro h
    exact absurd h.starts (by decide)

end

end FinHub
