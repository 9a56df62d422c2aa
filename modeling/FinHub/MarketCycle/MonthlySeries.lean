import FinHub.Lib.StepSeries
import FinHub.MarketCycle.Engine

/-!
# FinHub.MarketCycle.MonthlySeries

The resampling of `services/derived_kpi_calc.py`, and the compression of `services/macro_client.py` to the
observations that change the value.

* `toMonthly`: one point for each month from the first observation to `as_of`, with the value known then.
* `toMonthly_exact`: the months and the values of the points.
* `toMonthly_changePointsOnly`: the compressed observations give the same points.
-/

namespace FinHub

open StepSeries

/-- A `DatedPoint` or an `Observation`. -/
structure DatedValue (α : Type) where
  obsDate : Calendar.Date
  value : α
  deriving DecidableEq

inductive Resolution where
  | monthly | daily | event
  deriving DecidableEq

structure DatedSeries (α : Type) where
  resolution : Resolution
  points : List (DatedValue α)
  deriving DecidableEq

/-! ## Months -/

namespace MonthKey

/-- The month after. -/
def next (m : MonthKey) : MonthKey where
  year := if m.month = 12 then m.year + 1 else m.year
  month := if m.month = 12 then 1 else m.month + 1
  month_mem := by
    have := m.month_mem
    split_ifs with h
    · omega
    · omega

theorem index_next (m : MonthKey) : m.next.index = m.index + 1 := by
  unfold next index
  dsimp only
  split_ifs with h
  · omega
  · omega

end MonthKey

theorem index_monthKey (d : Calendar.Date) : (monthKey d).index = d.index := rfl

/-- `_last_day_of_month`. -/
def lastDayOfMonth (m : MonthKey) : Calendar.Date where
  year := m.year
  month := m.month
  day := Calendar.monthLength m.year m.month
  month_mem := m.month_mem
  day_mem := ⟨by have := Calendar.monthLength_pos m.year m.month; omega, le_rfl⟩

theorem index_lastDayOfMonth (m : MonthKey) : (lastDayOfMonth m).index = m.index := rfl

/-- No day of a month, or of an earlier one, is after its last. -/
theorem le_lastDayOfMonth {m : MonthKey} {d : Calendar.Date} (h : (monthKey d).index ≤ m.index) :
    d ≤ lastDayOfMonth m := by
  rw [index_monthKey, ← index_lastDayOfMonth] at h
  rcases lt_or_eq_of_le h with hlt | heq
  · exact le_of_lt (Calendar.Date.lt_of_index_lt hlt)
  · rw [Calendar.Date.le_iff_of_index_eq heq]
    have hday := d.day_le_lengthAt
    rw [heq, Calendar.Date.lengthAt_index] at hday
    exact hday

/-! ## Resampling -/

/-- `_latest_at_or_before`. -/
def latestAtOrBefore {α : Type} (points : List (DatedValue α)) (when_ : Calendar.Date) : Option α :=
  latestFrom DatedValue.obsDate DatedValue.value none when_ points

/-- The date of a month's point. -/
def asOfDate (as_of : Calendar.Date) (m : MonthKey) : Calendar.Date := min (lastDayOfMonth m) as_of

/-- What one pass of the loop appends. -/
def monthPoint {α : Type} (points : List (DatedValue α)) (as_of : Calendar.Date) (m : MonthKey) :
    Option (DatedValue α) :=
  (latestAtOrBefore points (asOfDate as_of m)).map fun value => ⟨asOfDate as_of m, value⟩

/-- The months of the loop, which ends after the month of `as_of`. -/
def monthsUpTo (as_of : Calendar.Date) : ℕ → MonthKey → List MonthKey
  | 0, _ => []
  | fuel + 1, m => if m.index ≤ (monthKey as_of).index then m :: monthsUpTo as_of fuel m.next else []

/-- `to_monthly`. -/
def toMonthly {α : Type} (series : DatedSeries α) (as_of : Calendar.Date) : DatedSeries α :=
  if series.resolution = .monthly then series
  else
    match series.points.head? with
    | none => series
    | some first =>
      let start := monthKey first.obsDate
      { resolution := .monthly
        points := (monthsUpTo as_of ((monthKey as_of).index + 1 - start.index).toNat start).filterMap
          (monthPoint series.points as_of) }

/-- `sorted(observations, key=lambda o: o.obs_date)`. -/
def sortedByDate {α : Type} (observations : List (DatedValue α)) : List (DatedValue α) :=
  observations.insertionSort fun a b => a.obsDate ≤ b.obsDate

/-- `change_points_only`. -/
def changePointsOnly {α : Type} [DecidableEq α] (observations : List (DatedValue α)) : List (DatedValue α) :=
  changesFrom DatedValue.value none (sortedByDate observations)

variable {α : Type} {points : List (DatedValue α)} {as_of : Calendar.Date} {m : MonthKey}

theorem ordered_sortedByDate (observations : List (DatedValue α)) :
    Ordered DatedValue.obsDate (sortedByDate observations) := List.pairwise_insertionSort _ _

theorem mem_sortedByDate {observations : List (DatedValue α)} {o : DatedValue α} :
    o ∈ sortedByDate observations ↔ o ∈ observations := List.mem_insertionSort _

/-- The month of a point is the one that it is for. -/
theorem monthKey_asOfDate (h : m.index ≤ (monthKey as_of).index) : monthKey (asOfDate as_of m) = m := by
  refine MonthKey.index_injective ?_
  unfold asOfDate
  rcases le_total (lastDayOfMonth m) as_of with hle | hle
  · rw [min_eq_left hle]
    rfl
  · rw [min_eq_right hle]
    exact le_antisymm (Calendar.Date.index_mono hle) h

/-- The loop passes every month up to that of `as_of` once, in order. -/
theorem monthsUpTo_eq (fuel : ℕ) (h : ((monthKey as_of).index + 1 - m.index).toNat ≤ fuel) :
    (monthsUpTo as_of fuel m).map MonthKey.index =
      (List.range ((monthKey as_of).index + 1 - m.index).toNat).map fun i : ℕ => m.index + i := by
  induction fuel generalizing m with
  | zero =>
    rw [Nat.le_zero.mp h]
    rfl
  | succ fuel ih =>
    unfold monthsUpTo
    split_ifs with hle
    · have hcount : ((monthKey as_of).index + 1 - m.index).toNat =
          ((monthKey as_of).index + 1 - m.next.index).toNat + 1 := by
        rw [m.index_next]
        omega
      have hrest : ((monthKey as_of).index + 1 - m.next.index).toNat ≤ fuel := by omega
      rw [List.map_cons, ih hrest, hcount, List.range_succ_eq_map, List.map_cons, List.map_map, m.index_next]
      refine congrArg₂ List.cons (by simp) (List.map_congr_left fun i _ => ?_)
      simp only [Function.comp_apply, Nat.cast_succ]
      omega
    · have hcount : ((monthKey as_of).index + 1 - m.index).toNat = 0 := by omega
      rw [hcount]
      rfl

/-! ## The points -/

/-- The points of a resampling: one for each month from that of the first observation to that of `as_of`, in
order, each with the last value up to the end of its month or `as_of`. -/
structure ExactMonths (observations : List (DatedValue α)) (as_of : Calendar.Date)
    (result : List (DatedValue α)) : Prop where
  months : ∃ first ∈ observations, (∀ o ∈ observations, first.obsDate ≤ o.obsDate) ∧
    (result.map fun p => (monthKey p.obsDate).index) =
      (List.range ((monthKey as_of).index + 1 - (monthKey first.obsDate).index).toNat).map
        fun i : ℕ => (monthKey first.obsDate).index + i
  values : ∀ p ∈ result, p.obsDate = min (lastDayOfMonth (monthKey p.obsDate)) as_of ∧
    IsLatest DatedValue.obsDate DatedValue.value (sortedByDate observations) p.obsDate p.value

theorem toMonthly_cons {resolution : Resolution} (hres : resolution ≠ .monthly) (first : DatedValue α)
    (rest : List (DatedValue α)) (as_of : Calendar.Date) : toMonthly ⟨resolution, first :: rest⟩ as_of =
      ⟨.monthly, (monthsUpTo as_of ((monthKey as_of).index + 1 - (monthKey first.obsDate).index).toNat
        (monthKey first.obsDate)).filterMap (monthPoint (first :: rest) as_of)⟩ := if_neg hres

/-- A month of the loop has a point, unless `as_of` comes before the first observation. -/
theorem exists_monthPoint (hordered : Ordered DatedValue.obsDate points) {first : DatedValue α}
    (hfirst : first ∈ points) (hle : first.obsDate ≤ as_of) (hm : (monthKey first.obsDate).index ≤ m.index) :
    ∃ p, monthPoint points as_of m = some p ∧ p.obsDate = asOfDate as_of m ∧
      IsLatest DatedValue.obsDate DatedValue.value points p.obsDate p.value := by
  have hread : ∃ v, latestAtOrBefore points (asOfDate as_of m) = some v ∧
      IsLatest DatedValue.obsDate DatedValue.value points (asOfDate as_of m) v :=
    exists_isLatest hordered ⟨first, hfirst, le_min (le_lastDayOfMonth hm) hle⟩
  obtain ⟨v, hv, hlatest⟩ := hread
  refine ⟨⟨asOfDate as_of m, v⟩, ?_, rfl, hlatest⟩
  unfold monthPoint
  rw [hv]
  rfl

theorem mem_monthsUpTo {fuel : ℕ} {m' : MonthKey} (h : m' ∈ monthsUpTo as_of fuel m) :
    m.index ≤ m'.index ∧ m'.index ≤ (monthKey as_of).index := by
  induction fuel generalizing m with
  | zero => cases h
  | succ fuel ih =>
    unfold monthsUpTo at h
    split_ifs at h with hle
    · rcases List.mem_cons.mp h with rfl | h
      · exact ⟨le_rfl, hle⟩
      · obtain ⟨hlow, hhigh⟩ := ih h
        rw [m.index_next] at hlow
        exact ⟨by omega, hhigh⟩
    · cases h

/-- The points of ordered observations. -/
theorem exactMonths_cons {resolution : Resolution} (hres : resolution ≠ .monthly) {observations : List (DatedValue α)}
    {first : DatedValue α} {rest : List (DatedValue α)} (hsorted : sortedByDate observations = first :: rest)
    (hle : first.obsDate ≤ as_of) :
    ExactMonths observations as_of (toMonthly ⟨resolution, sortedByDate observations⟩ as_of).points := by
  have hordered := ordered_sortedByDate observations
  have hmem : first ∈ sortedByDate observations := hsorted ▸ List.mem_cons_self
  have hpoint : ∀ {m}, (monthKey first.obsDate).index ≤ m.index →
      ∃ p, monthPoint (sortedByDate observations) as_of m = some p ∧ p.obsDate = asOfDate as_of m ∧
        IsLatest DatedValue.obsDate DatedValue.value (sortedByDate observations) p.obsDate p.value := fun hm =>
    exists_monthPoint hordered hmem hle hm
  rw [hsorted, toMonthly_cons hres, ← hsorted]
  constructor
  · refine ⟨first, mem_sortedByDate.mp hmem, fun o ho => ?_, ?_⟩
    · rw [← mem_sortedByDate, hsorted] at ho
      rcases List.mem_cons.mp ho with rfl | ho
      · exact le_rfl
      · exact (List.pairwise_cons.mp (hsorted ▸ hordered)).1 o ho
    · rw [← monthsUpTo_eq _ le_rfl, List.map_filterMap, ← List.filterMap_eq_map]
      refine List.filterMap_congr fun m hm => ?_
      obtain ⟨hlow, hhigh⟩ := mem_monthsUpTo hm
      obtain ⟨p, hp, hdate, -⟩ := hpoint hlow
      rw [hp, Option.map_some, hdate, monthKey_asOfDate hhigh]
      rfl
  · intro p hp
    obtain ⟨m, hm, hp⟩ := List.mem_filterMap.mp hp
    obtain ⟨hlow, hhigh⟩ := mem_monthsUpTo hm
    obtain ⟨p', hp', hdate, hlatest⟩ := hpoint hlow
    obtain rfl := Option.some_inj.mp (hp.symm.trans hp')
    refine ⟨?_, hlatest⟩
    rw [hdate, monthKey_asOfDate hhigh]
    rfl

/-- Leaving out the observations that repeat the value changes no point. -/
theorem toMonthly_changePointsOnly [DecidableEq α] {resolution resolution' : Resolution}
    (hres : resolution ≠ .monthly) (hres' : resolution' ≠ .monthly) {observations : List (DatedValue α)}
    (hne : observations ≠ []) (as_of : Calendar.Date) :
    toMonthly ⟨resolution', changePointsOnly observations⟩ as_of =
      toMonthly ⟨resolution, sortedByDate observations⟩ as_of := by
  have hordered := ordered_sortedByDate observations
  unfold changePointsOnly
  cases hsorted : sortedByDate observations with
  | nil =>
    have hperm := List.perm_insertionSort (fun a b : DatedValue α => a.obsDate ≤ b.obsDate) observations
    exact absurd (List.nil_perm.mp ((show sortedByDate observations = [] from hsorted) ▸ hperm)) hne
  | cons first rest =>
    have hpoint : monthPoint (first :: changesFrom DatedValue.value (some first.value) rest) as_of =
        monthPoint (first :: rest) as_of := by
      funext m
      have hread : latestAtOrBefore (changesFrom DatedValue.value none (first :: rest)) (asOfDate as_of m) =
          latestAtOrBefore (first :: rest) (asOfDate as_of m) :=
        latestFrom_changesFrom (hsorted ▸ hordered) none
      rw [changesFrom_none_cons] at hread
      unfold monthPoint
      rw [hread]
    rw [changesFrom_none_cons, toMonthly_cons hres', toMonthly_cons hres, hpoint]

/-- Resampling is exact, and compression to the changes loses nothing of it. -/
theorem monthly_exact_and_lossless [DecidableEq α] {resolution resolution' : Resolution}
    (hres : resolution ≠ .monthly) (hres' : resolution' ≠ .monthly) (observations : List (DatedValue α))
    (as_of : Calendar.Date) (h : ∃ o ∈ observations, o.obsDate ≤ as_of) :
    ExactMonths observations as_of (toMonthly ⟨resolution, sortedByDate observations⟩ as_of).points ∧
    toMonthly ⟨resolution', changePointsOnly observations⟩ as_of =
      toMonthly ⟨resolution, sortedByDate observations⟩ as_of := by
  obtain ⟨o, ho, hle⟩ := h
  have hne : observations ≠ [] := List.ne_nil_of_mem ho
  refine ⟨?_, toMonthly_changePointsOnly hres hres' hne as_of⟩
  cases hsorted : sortedByDate observations with
  | nil =>
    rw [← mem_sortedByDate, hsorted] at ho
    cases ho
  | cons first rest =>
    rw [← hsorted]
    refine exactMonths_cons hres hsorted ?_
    have hordered := ordered_sortedByDate observations
    rw [← mem_sortedByDate, hsorted] at ho
    rw [hsorted] at hordered
    rcases List.mem_cons.mp ho with rfl | ho
    · exact hle
    · exact le_trans ((List.pairwise_cons.mp hordered).1 o ho) hle

namespace Sample

/-- A day of a month, both counted from zero. -/
def releaseDay (year month day : ℕ) : Calendar.Date where
  year := year
  month := month % 12 + 1
  day := day % 28 + 1
  month_mem := by omega
  day_mem := ⟨by omega, le_trans (by omega) (Calendar.monthLength_pos year (month % 12 + 1))⟩

/-- A policy rate around a year end, as it is released: twice on one day, and back at an earlier level. -/
def releases : List (DatedValue ℚ) :=
  [⟨releaseDay 2024 1 8, 4⟩, ⟨releaseDay 2023 10 19, 4⟩, ⟨releaseDay 2023 11 27, 3⟩,
    ⟨releaseDay 2023 11 27, 5⟩, ⟨releaseDay 2024 0 14, 5⟩]

def earlyMarch : Calendar.Date := releaseDay 2024 2 3

/-- Five months, the last of them partial. -/
theorem releases_by_month : ExactMonths releases earlyMarch
      (toMonthly ⟨.daily, sortedByDate releases⟩ earlyMarch).points ∧
    toMonthly ⟨.event, changePointsOnly releases⟩ earlyMarch =
      toMonthly ⟨.daily, sortedByDate releases⟩ earlyMarch ∧
    (toMonthly ⟨.daily, sortedByDate releases⟩ earlyMarch).points.map DatedValue.value = [4, 5, 5, 4, 4] := by
  have hboth := monthly_exact_and_lossless (show Resolution.daily ≠ .monthly by decide)
    (show Resolution.event ≠ .monthly by decide) releases earlyMarch (by decide +kernel)
  exact ⟨hboth.1, hboth.2, by decide +kernel⟩

end Sample

end FinHub
