import Mathlib.Algebra.Order.Field.Basic

/-!
# FinHub.Lib.AverageCost

A pool of like units at their average cost.

A purchase adds its units and what they cost; a sale takes its share of the cost. `average_sell`: a sale leaves the
average alone. `within_run`: since the pool was last empty, the average lies between the lowest and the highest price
paid for a unit.
-/

namespace FinHub.AverageCost

structure Pool (K : Type) where
  units : K
  cost : K

inductive Trade (K : Type) where
  | buy (units cost : K)
  | sell (units : K)

variable {K : Type} [Field K] [LinearOrder K]

namespace Pool

def empty : Pool K := ⟨0, 0⟩

def trade (p : Pool K) : Trade K → Pool K
  | .buy units cost => ⟨p.units + units, p.cost + cost⟩
  | .sell units =>
    ⟨p.units - units, if 0 < p.units ∧ 0 < units then p.cost - p.cost / p.units * units else p.cost⟩

def run (p : Pool K) (trades : List (Trade K)) : Pool K := trades.foldl trade p

/-- A purchase has units, and no sale takes more than there are. -/
def Allows (p : Pool K) : Trade K → Prop
  | .buy units _ => 0 < units
  | .sell units => 0 ≤ units ∧ units ≤ p.units

/-- Each trade is allowed where it stands. -/
def AllowsRun : Pool K → List (Trade K) → Prop
  | _, [] => True
  | p, t :: trades => p.Allows t ∧ AllowsRun (p.trade t) trades

/-- No units are missing, and an empty pool has no cost. -/
structure Sound (p : Pool K) : Prop where
  nonneg : 0 ≤ p.units
  empty : p.units = 0 → p.cost = 0

/-- The cost of a unit is between two prices. -/
structure Within (low high : K) (p : Pool K) : Prop where
  nonneg : 0 ≤ p.units
  low_le : low * p.units ≤ p.cost
  le_high : p.cost ≤ high * p.units

end Pool

/-- The price of a unit is between two others. -/
def Trade.Within (low high : K) : Trade K → Prop
  | .buy units cost => low * units ≤ cost ∧ cost ≤ high * units
  | .sell _ => True

namespace Pool

variable {p : Pool K} {t : Trade K} {trades before since : List (Trade K)} {low high units : K}

@[simp] theorem run_nil : p.run [] = p := rfl

theorem run_append : p.run (before ++ since) = (p.run before).run since := List.foldl_append

theorem allowsRun_append : p.AllowsRun (before ++ since) ↔ p.AllowsRun before ∧ (p.run before).AllowsRun since := by
  induction before generalizing p with
  | nil => exact ⟨fun h => ⟨trivial, h⟩, fun h => h.2⟩
  | cons t before ih => exact (and_congr_right fun _ => ih).trans (and_assoc).symm

theorem trade_sell_of_held (hp : 0 < p.units) (hunits : 0 < units) :
    p.trade (.sell units) = ⟨p.units - units, p.cost - p.cost / p.units * units⟩ :=
  congrArg (Pool.mk _) (if_pos ⟨hp, hunits⟩)

theorem trade_sell_of_not (h : ¬ (0 < p.units ∧ 0 < units)) : p.trade (.sell units) = ⟨p.units - units, p.cost⟩ :=
  congrArg (Pool.mk _) (if_neg h)

/-- A part of a sound pool is sold: the cost that stays is that of the units that stay. -/
theorem trade_sell (hp : 0 < p.units) (hunits : 0 ≤ units) :
    p.trade (.sell units) = ⟨p.units - units, p.cost / p.units * (p.units - units)⟩ := by
  rw [mul_sub, div_mul_cancel₀ _ hp.ne']
  rcases hunits.eq_or_lt with rfl | hpos
  · rw [trade_sell_of_not fun hsold => lt_irrefl _ hsold.2, mul_zero, sub_zero, sub_zero]
  · exact trade_sell_of_held hp hpos

variable [IsStrictOrderedRing K]

/-- A sale leaves the average alone. -/
theorem average_sell (hunits : 0 ≤ units) (hleft : units < p.units) :
    (p.trade (.sell units)).cost / (p.trade (.sell units)).units = p.cost / p.units := by
  rw [trade_sell (hunits.trans_lt hleft) hunits]
  exact mul_div_cancel_right₀ _ (sub_pos.mpr hleft).ne'

theorem Sound.trade (h : p.Sound) (hallowed : p.Allows t) : (p.trade t).Sound := by
  cases t with
  | buy units cost =>
    have hpos : 0 < p.units + units := add_pos_of_nonneg_of_pos h.nonneg hallowed
    exact ⟨hpos.le, fun hnone => absurd hnone hpos.ne'⟩
  | sell units =>
    obtain ⟨hunits, hheld⟩ := hallowed
    refine ⟨sub_nonneg.mpr hheld, fun hnone => ?_⟩
    rcases h.nonneg.eq_or_lt with hzero | hpos
    · rw [trade_sell_of_not fun hsold => hzero.not_lt hsold.1]
      exact h.empty hzero.symm
    · rw [trade_sell hpos hunits] at hnone ⊢
      rw [show p.units - units = 0 from hnone, mul_zero]

theorem Sound.run (h : p.Sound) (hallowed : p.AllowsRun trades) : (p.run trades).Sound := by
  induction trades generalizing p with
  | nil => exact h
  | cons t trades ih => exact ih (h.trade hallowed.1) hallowed.2

theorem Within.trade (h : p.Within low high) (hallowed : p.Allows t) (ht : t.Within low high) :
    (p.trade t).Within low high := by
  cases t with
  | buy units cost =>
    refine ⟨(add_pos_of_nonneg_of_pos h.nonneg hallowed).le, ?_, ?_⟩
    · exact (mul_add low _ _).le.trans (add_le_add h.low_le ht.1)
    · exact (add_le_add h.le_high ht.2).trans (mul_add high _ _).ge
  | sell units =>
    obtain ⟨hunits, hheld⟩ := hallowed
    have hleft : 0 ≤ p.units - units := sub_nonneg.mpr hheld
    rcases h.nonneg.eq_or_lt with hzero | hpos
    · have hsame : p.trade (.sell units) = p := by
        have hnothing : units = 0 := le_antisymm (hheld.trans hzero.ge) hunits
        rw [trade_sell_of_not fun hsold => hzero.not_lt hsold.1, hnothing, sub_zero]
      rw [hsame]
      exact h
    · rw [trade_sell hpos hunits]
      have hlow : low ≤ p.cost / p.units := (le_div_iff₀ hpos).mpr h.low_le
      have hhigh : p.cost / p.units ≤ high := (div_le_iff₀ hpos).mpr h.le_high
      exact ⟨hleft, mul_le_mul_of_nonneg_right hlow hleft, mul_le_mul_of_nonneg_right hhigh hleft⟩

theorem Within.run (h : p.Within low high) (hallowed : p.AllowsRun trades) (ht : ∀ t ∈ trades, t.Within low high) :
    (p.run trades).Within low high := by
  induction trades generalizing p with
  | nil => exact h
  | cons t trades ih =>
    exact ih (h.trade hallowed.1 (ht t List.mem_cons_self)) hallowed.2 fun u hu => ht u (List.mem_cons_of_mem t hu)

/-- Since the pool was empty, the cost of a unit is between the prices paid. -/
theorem within_run (hallowed : empty.AllowsRun (before ++ since)) (hclosed : (empty.run before).units = 0)
    (ht : ∀ t ∈ since, t.Within low high) : ((empty : Pool K).run (before ++ since)).Within low high := by
  obtain ⟨hbefore, hsince⟩ := allowsRun_append.mp hallowed
  have hsound : (empty.run before : Pool K).Sound := Sound.run ⟨le_rfl, fun _ => rfl⟩ hbefore
  have hstart : (empty.run before : Pool K).Within low high :=
    ⟨hsound.nonneg, by rw [hclosed, hsound.empty hclosed, mul_zero], by rw [hclosed, hsound.empty hclosed, mul_zero]⟩
  rw [run_append]
  exact hstart.run hsince ht

end Pool

end FinHub.AverageCost
