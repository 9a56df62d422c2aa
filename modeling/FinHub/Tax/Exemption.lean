import FinHub.Tax.TaxablePnl
import Mathlib.Algebra.Order.Group.MinMax

/-!
# FinHub.Tax.Exemption

`_apply_exemption` as an allowance: a percentage of the gross amount, up to a cap, and a converted fixed amount.

* `allowance`: what an exemption takes off a positive gross amount; it grows by at most what the gross amount
  grows by.
* `taxableAfter`: what is left, never below zero.
* `exemption_laws`: the bounds and the monotonicity of the function itself.
-/

namespace FinHub

/-- The numbers of an exemption are in range. -/
structure FiscalExemption.InRange (e : FiscalExemption) : Prop where
  rate_nonneg : 0 ≤ e.exemptionRate
  rate_le : e.exemptionRate ≤ 100
  amount_nonneg : 0 ≤ e.exemptionAmount
  limit_nonneg : ∀ limit, e.exemptionRateLimit = some limit → 0 ≤ limit

/-- A cap is at most another one; no cap is above all. -/
def LimitLe (cap cap' : Option ℚ) : Prop := ∀ limit', cap' = some limit' → ∃ limit, cap = some limit ∧ limit ≤ limit'

/-- The second exemption is at least as generous in each of its numbers. -/
structure FiscalExemption.LessGenerous (e e' : FiscalExemption) : Prop where
  rate : e.exemptionRate ≤ e'.exemptionRate
  amount : e.exemptionAmount ≤ e'.exemptionAmount
  limit : LimitLe e.exemptionRateLimit e'.exemptionRateLimit

namespace FiscalExemption

variable {e e' : FiscalExemption} {rate gross gross' : ℚ}

/-- The part by percentage. -/
def rateExempt (e : FiscalExemption) (gross : ℚ) : ℚ :=
  match e.exemptionRateLimit with
  | some limit => min (gross * (e.exemptionRate / 100)) limit
  | none => gross * (e.exemptionRate / 100)

def allowance (e : FiscalExemption) (rate gross : ℚ) : ℚ := e.rateExempt gross + e.exemptionAmount * rate

/-- What stays taxable of a gross amount. -/
def taxableAfter (e : FiscalExemption) (rate gross : ℚ) : ℚ :=
  if gross ≤ 0 then gross else gross - min gross (e.allowance rate gross)

theorem rateExempt_nonneg (h : e.InRange) (hgross : 0 ≤ gross) : 0 ≤ e.rateExempt gross := by
  have hpart : 0 ≤ gross * (e.exemptionRate / 100) :=
    mul_nonneg hgross (div_nonneg h.rate_nonneg (by norm_num))
  unfold rateExempt
  cases hlimit : e.exemptionRateLimit with
  | none => exact hpart
  | some limit => exact le_min hpart (h.limit_nonneg limit hlimit)

/-- The percentage takes at most what the gross amount grows by. -/
theorem rateExempt_sub_le (h : e.InRange) (hle : gross ≤ gross') :
    e.rateExempt gross' - e.rateExempt gross ≤ gross' - gross := by
  have hone : e.exemptionRate / 100 ≤ 1 := by
    rw [div_le_one (by norm_num)]
    exact h.rate_le
  have hpart : gross' * (e.exemptionRate / 100) - gross * (e.exemptionRate / 100) ≤ gross' - gross := by
    rw [← sub_mul]
    exact mul_le_of_le_one_right (sub_nonneg.mpr hle) hone
  unfold rateExempt
  cases e.exemptionRateLimit with
  | none => exact hpart
  | some limit =>
    dsimp only
    rw [sub_le_iff_le_add'] at hpart ⊢
    rw [← min_add_add_right]
    refine le_min ((min_le_left _ _).trans hpart) ((min_le_right _ _).trans ?_)
    exact le_add_of_nonneg_right (sub_nonneg.mpr hle)

theorem rateExempt_mono (h : e.LessGenerous e') (hgross : 0 ≤ gross) :
    e.rateExempt gross ≤ e'.rateExempt gross := by
  have hpart : gross * (e.exemptionRate / 100) ≤ gross * (e'.exemptionRate / 100) :=
    mul_le_mul_of_nonneg_left (div_le_div_of_nonneg_right h.rate (by norm_num)) hgross
  unfold rateExempt
  cases hcap' : e'.exemptionRateLimit with
  | none =>
    cases e.exemptionRateLimit with
    | none => exact hpart
    | some limit => exact (min_le_left _ _).trans hpart
  | some limit' =>
    obtain ⟨limit, hcap, hle⟩ := h.limit limit' hcap'
    rw [hcap]
    exact min_le_min hpart hle

theorem allowance_nonneg (h : e.InRange) (hrate : 0 < rate) (hgross : 0 ≤ gross) :
    0 ≤ e.allowance rate gross :=
  add_nonneg (rateExempt_nonneg h hgross) (mul_nonneg h.amount_nonneg hrate.le)

theorem allowance_mono (h : e.LessGenerous e') (hrate : 0 < rate) (hgross : 0 ≤ gross) :
    e.allowance rate gross ≤ e'.allowance rate gross :=
  add_le_add (rateExempt_mono h hgross) (mul_le_mul_of_nonneg_right h.amount hrate.le)

theorem taxableAfter_of_nonpos (h : gross ≤ 0) : e.taxableAfter rate gross = gross := if_pos h

theorem taxableAfter_of_pos (h : 0 < gross) :
    e.taxableAfter rate gross = max 0 (gross - e.allowance rate gross) := by
  unfold taxableAfter
  rw [if_neg (not_le.mpr h), ← max_sub_sub_left, sub_self]

theorem taxableAfter_nonneg (h : 0 < gross) : 0 ≤ e.taxableAfter rate gross := by
  rw [taxableAfter_of_pos h]
  exact le_max_left _ _

theorem taxableAfter_le (he : e.InRange) (hrate : 0 < rate) (h : 0 < gross) :
    e.taxableAfter rate gross ≤ gross := by
  rw [taxableAfter_of_pos h]
  exact max_le h.le (sub_le_self _ (allowance_nonneg he hrate h.le))

theorem taxableAfter_mono (he : e.InRange) (h : gross ≤ gross') :
    e.taxableAfter rate gross ≤ e.taxableAfter rate gross' := by
  rcases le_or_gt gross' 0 with hnonpos | hpos
  · rw [taxableAfter_of_nonpos hnonpos, taxableAfter_of_nonpos (h.trans hnonpos)]
    exact h
  · rcases le_or_gt gross 0 with hnonpos | hpos'
    · rw [taxableAfter_of_nonpos hnonpos]
      exact hnonpos.trans (taxableAfter_nonneg hpos)
    · have hgrowth := rateExempt_sub_le he h
      rw [taxableAfter_of_pos hpos, taxableAfter_of_pos hpos']
      unfold allowance
      exact max_le_max le_rfl (by linarith)

theorem taxableAfter_antitone (h : e.LessGenerous e') (hrate : 0 < rate) :
    e'.taxableAfter rate gross ≤ e.taxableAfter rate gross := by
  rcases le_or_gt gross 0 with hnonpos | hpos
  · rw [taxableAfter_of_nonpos hnonpos, taxableAfter_of_nonpos hnonpos]
  · rw [taxableAfter_of_pos hpos, taxableAfter_of_pos hpos]
    exact max_le_max le_rfl (sub_le_sub_left (allowance_mono h hrate hpos.le) _)

end FiscalExemption

/-! ## The function -/

section

variable {provider : RateProvider} {display_currency currency : Currency} {at_ : Timestamp} {scope : String}

/-- The function leaves what is taxable after the allowance at the looked-up rate. -/
theorem applyExemption_eq {rate : ℚ} {notes : List RateFallbackInfo}
    (hrate : lookupRate provider display_currency currency at_ scope = .ok (rate, notes))
    (e : FiscalExemption) (gross : ℚ) : ∃ notes', applyExemption provider display_currency gross e currency at_
      scope = .ok (e.taxableAfter rate gross, notes') := by
  unfold applyExemption FiscalExemption.taxableAfter FiscalExemption.allowance FiscalExemption.rateExempt
  split_ifs with hgross hamount
  · exact ⟨[], rfl⟩
  · rw [hrate]
    exact ⟨notes, rfl⟩
  · rw [not_not] at hamount
    rw [hamount, zero_mul]
    exact ⟨[], rfl⟩

/-- An exemption behaves as an allowance. -/
structure ExemptionLaws (provider : RateProvider) (display_currency currency : Currency) (at_ : Timestamp)
    (scope : String) : Prop where
  unchanged : ∀ (e : FiscalExemption) (gross : ℚ), gross ≤ 0 →
    applyExemption provider display_currency gross e currency at_ scope = .ok (gross, [])
  bounded : ∀ e : FiscalExemption, e.InRange → ∀ gross : ℚ, 0 < gross → ∃ x,
    applyExemption provider display_currency gross e currency at_ scope = .ok x ∧ 0 ≤ x.1 ∧ x.1 ≤ gross
  mono : ∀ e : FiscalExemption, e.InRange → ∀ gross gross' : ℚ, gross ≤ gross' → ∀ x y,
    applyExemption provider display_currency gross e currency at_ scope = .ok x →
    applyExemption provider display_currency gross' e currency at_ scope = .ok y → x.1 ≤ y.1
  antitone : ∀ e e' : FiscalExemption, e.InRange → e'.InRange → e.LessGenerous e' → ∀ (gross : ℚ), ∀ x y,
    applyExemption provider display_currency gross e currency at_ scope = .ok x →
    applyExemption provider display_currency gross e' currency at_ scope = .ok y → y.1 ≤ x.1

/-- Whatever the provider answers, as long as it answers and the rate is positive. -/
theorem exemption_laws {rate : ℚ} {notes : List RateFallbackInfo}
    (hrate : lookupRate provider display_currency currency at_ scope = .ok (rate, notes)) (hpos : 0 < rate) :
    ExemptionLaws provider display_currency currency at_ scope where
  unchanged e gross hgross := if_pos hgross
  bounded e he gross hgross := by
    obtain ⟨notes', heq⟩ := applyExemption_eq hrate e gross
    exact ⟨_, heq, FiscalExemption.taxableAfter_nonneg hgross, FiscalExemption.taxableAfter_le he hpos hgross⟩
  mono e he gross gross' hle x y hx hy := by
    obtain ⟨notes', heq⟩ := applyExemption_eq hrate e gross
    obtain ⟨notes'', heq'⟩ := applyExemption_eq hrate e gross'
    cases heq.symm.trans hx
    cases heq'.symm.trans hy
    exact FiscalExemption.taxableAfter_mono he hle
  antitone e e' _ _ hle gross x y hx hy := by
    obtain ⟨notes', heq⟩ := applyExemption_eq hrate e gross
    obtain ⟨notes'', heq'⟩ := applyExemption_eq hrate e' gross
    cases heq.symm.trans hx
    cases heq'.symm.trans hy
    exact FiscalExemption.taxableAfter_antitone hle hpos

end

namespace Sample

/-- A euro is worth a dollar and a quarter. -/
def euroProvider : RateProvider where
  historical _ _ _ := .ok { rate := 5 / 4, timestamp := ⟨0, none⟩, fallback := false }
  latest _ _ := .error .noRate

/-- A tenth of a gain, up to 30, and 8 euros. -/
def savingsExemption : FiscalExemption where
  exemptionType := "savings"
  exemptionAmount := 8
  exemptionRate := 10
  exemptionRateLimit := some 30

/-- Of a gain of 500 dollars the cap exempts 30 and the allowance 10. -/
theorem savingsExemption_laws : ExemptionLaws euroProvider usd eur (at_ 10 12) "realized_pl" ∧
    applyExemption euroProvider usd 500 savingsExemption eur (at_ 10 12) "realized_pl" = .ok (460, []) := by
  have hrate : lookupRate euroProvider usd eur (at_ 10 12) "realized_pl" = .ok (5 / 4, []) := by decide +kernel
  exact ⟨exemption_laws hrate (by norm_num), by decide +kernel⟩

end Sample

end FinHub
