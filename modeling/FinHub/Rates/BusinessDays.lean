import FinHub.Rates.Provider
import Mathlib.Data.Int.Interval
import Mathlib.Order.Interval.Finset.Basic

/-!
# FinHub.Rates.BusinessDays

How old a rate is, in business days.

* `countBusinessDays` is `business_days_between` as it is written, a pass for each day. Its value is the
  number of the days in `businessDays`, and so is that of `businessDaysBetween`, which every reader of
  the rates takes.
* `countBusinessDays_adjacent`: the distance of adjacent stretches adds up, and a stale rate stays stale
  on an earlier day and for a later reference.
-/

namespace FinHub

/-- The loop of `business_days_between`. -/
def countFrom (end_ cursor : ℤ) (days : ℕ) : ℕ :=
  if cursor < end_ then
    countFrom end_ (cursor + 1) (if weekdayOf (cursor + 1) < 5 then days + 1 else days)
  else days
termination_by (end_ - cursor).toNat

/-- `business_days_between`. -/
def countBusinessDays (start end_ : ℤ) : ℕ := if end_ ≤ start then 0 else countFrom end_ start 0

/-- The days after one date and up to another that are no weekend. -/
def businessDays (start end_ : ℤ) : Finset ℤ := (Finset.Ioc start end_).filter fun d => weekdayOf d < 5

variable {a b c d : ℤ}

theorem mem_businessDays : d ∈ businessDays a b ↔ (a < d ∧ d ≤ b) ∧ weekdayOf d < 5 := by
  rw [businessDays, Finset.mem_filter, Finset.mem_Ioc]

theorem businessDays_subset (hab : b ≤ a) (hcd : c ≤ d) : businessDays a c ⊆ businessDays b d := by
  intro x hx
  rw [mem_businessDays] at hx ⊢
  exact ⟨⟨hab.trans_lt hx.1.1, hx.1.2.trans hcd⟩, hx.2⟩

theorem card_businessDays_add (hab : a ≤ b) (hbc : b ≤ c) :
    (businessDays a c).card = (businessDays a b).card + (businessDays b c).card := by
  have hdisj : Disjoint (businessDays a b) (businessDays b c) := by
    refine Finset.disjoint_left.mpr fun x hx hx' => ?_
    rw [mem_businessDays] at hx hx'
    exact absurd hx.1.2 (not_le.mpr hx'.1.1)
  have hunion : businessDays a c = businessDays a b ∪ businessDays b c := by
    ext x
    rw [Finset.mem_union, mem_businessDays, mem_businessDays, mem_businessDays]
    omega
  rw [hunion, Finset.card_union_of_disjoint hdisj]

theorem businessDays_eq_empty (h : b ≤ a) : businessDays a b = ∅ := by
  rw [businessDays, Finset.Ioc_eq_empty (not_lt.mpr h), Finset.filter_empty]

/-- What one pass of the loop counts. -/
theorem card_businessDays_tomorrow (d : ℤ) :
    (businessDays d (d + 1)).card = if weekdayOf (d + 1) < 5 then 1 else 0 := by
  have hday : ∀ x, x ∈ businessDays d (d + 1) ↔ x = d + 1 ∧ weekdayOf (d + 1) < 5 := by
    intro x
    rw [mem_businessDays]
    constructor
    · rintro ⟨hx, hwork⟩
      obtain rfl : x = d + 1 := by omega
      exact ⟨rfl, hwork⟩
    · rintro ⟨rfl, hwork⟩
      exact ⟨⟨by omega, le_rfl⟩, hwork⟩
  split_ifs with hwork
  · refine Finset.card_eq_one.mpr ⟨d + 1, Finset.ext fun x => ?_⟩
    rw [hday, Finset.mem_singleton, and_iff_left hwork]
  · refine Finset.card_eq_zero.mpr (Finset.eq_empty_of_forall_notMem fun x hx => ?_)
    exact hwork ((hday x).mp hx).2

theorem countFrom_eq (end_ cursor : ℤ) (days : ℕ) :
    countFrom end_ cursor days = days + (businessDays cursor end_).card := by
  induction cursor, days using countFrom.induct end_ with
  | case1 cursor days h ih =>
    have hpass := card_businessDays_tomorrow cursor
    have hsplit := card_businessDays_add (a := cursor) (b := cursor + 1) (c := end_) (by omega) (by omega)
    simp only [dite_eq_ite] at ih
    rw [countFrom, if_pos h, ih, hsplit, hpass]
    split_ifs <;> omega
  | case2 cursor days h =>
    rw [countFrom, if_neg h, businessDays_eq_empty (not_lt.mp h), Finset.card_empty, add_zero]

theorem countBusinessDays_eq (start end_ : ℤ) :
    countBusinessDays start end_ = (businessDays start end_).card := by
  unfold countBusinessDays
  split_ifs with h
  · rw [businessDays_eq_empty h, Finset.card_empty]
  · rw [countFrom_eq, zero_add]

/-- The count over the whole range is that of the loop. -/
theorem businessDaysBetween_eq (start end_ : ℤ) :
    businessDaysBetween start end_ = countBusinessDays start end_ := by
  have hcount : ∀ n : ℕ, (((List.range n).map fun i : ℕ => (i : ℤ)).filter fun i =>
      decide (weekdayOf (start + i + 1) < 5)).length = (businessDays start (start + n)).card := by
    intro n
    induction n with
    | zero => rw [businessDays_eq_empty (by omega)]; rfl
    | succ n ih =>
      have hday := card_businessDays_tomorrow (start + n)
      have hsplit := card_businessDays_add (a := start) (b := start + n) (c := start + n + 1)
        (by omega) (by omega)
      rw [List.range_succ, List.map_append, List.filter_append, List.length_append, ih, Nat.cast_succ,
        ← add_assoc, hsplit, hday]
      by_cases hwork : weekdayOf (start + n + 1) < 5
      · simp [hwork]
      · simp [hwork]
  have hrange : businessDaysBetween start end_ =
      (businessDays start (start + (end_ - start).toNat)).card := by
    rw [← hcount, List.map_eq_flatMap]
    rfl
  rw [hrange, countBusinessDays_eq]
  by_cases h : start ≤ end_
  · rw [show start + ((end_ - start).toNat : ℤ) = end_ by omega]
  · rw [businessDays_eq_empty (by omega), businessDays_eq_empty (by omega)]

theorem isStaleRate_iff {rate_date reference_date : ℤ} :
    isStaleRate rate_date reference_date = true ↔ 2 ≤ countBusinessDays rate_date reference_date := by
  rw [isStaleRate, decide_eq_true_eq, businessDaysBetween_eq]

/-- The distance counts the weekdays of `(a, c]`, so it adds up over adjacent stretches, and a stale rate
is stale for every earlier rate date and every later reference. -/
theorem countBusinessDays_adjacent (hab : a ≤ b) (hbc : b ≤ c) :
    countBusinessDays a c = countBusinessDays a b + countBusinessDays b c ∧
      countBusinessDays a c = ((Finset.Ioc a c).filter fun d => weekdayOf d < 5).card ∧
      ∀ r r' t t', r' ≤ r → t ≤ t' → isStaleRate r t = true → isStaleRate r' t' = true := by
  refine ⟨?_, countBusinessDays_eq a c, ?_⟩
  · simp only [countBusinessDays_eq]
    exact card_businessDays_add hab hbc
  · intro r r' t t' hr ht hstale
    rw [isStaleRate_iff, countBusinessDays_eq] at hstale ⊢
    exact hstale.trans (Finset.card_le_card (businessDays_subset hr ht))

/-- From a Friday over the weekend to the Tuesday after it. -/
theorem countBusinessDays_weekend :
    countBusinessDays 19783 19787 = countBusinessDays 19783 19785 + countBusinessDays 19785 19787 ∧
      countBusinessDays 19783 19787 = ((Finset.Ioc 19783 19787).filter fun d => weekdayOf d < 5).card ∧
      ∀ r r' t t', r' ≤ r → t ≤ t' → isStaleRate r t = true → isStaleRate r' t' = true :=
  countBusinessDays_adjacent (by omega) (by omega)

end FinHub
