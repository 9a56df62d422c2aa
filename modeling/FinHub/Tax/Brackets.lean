import FinHub.Lib.Walk
import FinHub.Tax.Engine

/-!
# FinHub.Tax.Brackets

What the chronological bracket attribution adds up to.

* `taxBelow` is the tax of everything under a level. `applyProgressive` is its increment over a
  range that goes up, rounded, and nothing over one that goes down (`applyProgressive_eq`).
* `applyProgressive_adjacent`: two adjacent ranges are taxed as the range they make up.
* `sum_itemTaxes` telescopes the items along `Walk.steps`: the year's tax is that of the whole base
  and what the brackets take of the stretches that losses walk down.
* `totalTax_of_brackets` carries this to `computeFiscalYear`, for any order of the items.
-/

namespace FinHub.TaxEngine

open Decimal

/-- The rounding of one amount. -/
def halfUnit : ℚ := 1 / 2 / 10 ^ 4

/-! ## One range -/

/-- The part of a band under a level. -/
def TaxBand.below (b : TaxBand) (x : ℚ) : ℚ :=
  match b.toAmount with
  | some to_amount => max 0 (min x to_amount - b.fromAmount)
  | none => max 0 (x - b.fromAmount)

/-- The tax of everything under a level, not rounded. -/
def taxBelow (bands : List TaxBand) (x : ℚ) : ℚ :=
  (bands.map fun b => TaxBand.below b x * b.rate).sum

/-- The part of a band in a range that goes up. -/
theorem addBand_eq (b : TaxBand) {x y : ℚ} (h : x < y) (tax : ℚ) :
    addBand x y tax b = tax + (TaxBand.below b y - TaxBand.below b x) * b.rate := by
  have hpart : ∀ hi hi' : ℚ, hi' = min x hi → x < hi ∨ hi' = hi →
      (if max x b.fromAmount < hi then tax + (hi - max x b.fromAmount) * b.rate else tax) =
        tax + (max 0 (hi - b.fromAmount) - max 0 (hi' - b.fromAmount)) * b.rate := by
    rintro hi _ rfl hx
    rcases le_total x b.fromAmount with hf | hf
    · -- The range starts under the band.
      have h0 : min x hi - b.fromAmount ≤ 0 := sub_nonpos.mpr ((min_le_left _ _).trans hf)
      rw [max_eq_right hf, max_eq_left h0]
      split_ifs with hlt
      · rw [max_eq_right (sub_nonneg.mpr hlt.le)]; ring
      · rw [max_eq_left (sub_nonpos.mpr (not_lt.mp hlt))]; ring
    · rw [max_eq_left hf]
      rcases hx with hx | hx
      · rw [if_pos hx, min_eq_left hx.le, max_eq_right (sub_nonneg.mpr hf),
          max_eq_right (sub_nonneg.mpr (hf.trans hx.le))]
        ring
      · have hle : hi ≤ x := hx ▸ min_le_left x hi
        rw [if_neg (not_lt.mpr hle), hx]; ring
  unfold addBand TaxBand.below
  cases b.toAmount with
  | none => exact hpart y x (min_eq_left h.le).symm (.inl h)
  | some t =>
    refine hpart (min y t) (min x t) ?_ ?_
    · rw [← min_assoc, min_eq_left h.le]
    · rcases lt_or_ge x (min y t) with hlt | hle
      · exact .inl hlt
      · have ht : t ≤ x := (min_le_iff.mp hle).resolve_left (not_le.mpr h)
        exact .inr (by rw [min_eq_right ht, min_eq_right (ht.trans h.le)])

theorem applyProgressive_eq (x y : ℚ) (bands : List TaxBand) :
    applyProgressive x y bands = roundTo 4 (Walk.rise (taxBelow bands) (x, y)) := by
  unfold applyProgressive Walk.rise
  by_cases h : x < y
  · have hfold : ∀ (l : List TaxBand) (tax : ℚ),
        l.foldl (addBand x y) tax = tax + (taxBelow l y - taxBelow l x) := by
      intro l
      induction l with
      | nil => intro tax; simp [taxBelow]
      | cons b l ih =>
        intro tax
        rw [List.foldl_cons, addBand_eq b h tax, ih]
        simp only [taxBelow, List.map_cons, List.sum_cons]
        ring
    have hperm : ∀ z, taxBelow (bands.insertionSort fun a b => a.fromAmount ≤ b.fromAmount) z =
        taxBelow bands z := fun z => ((List.perm_insertionSort _ _).map _).sum_eq
    rw [if_pos h]
    by_cases hb : bands = []
    · rw [if_pos (.inr hb), hb]; simp [taxBelow]
    · rw [if_neg (by simp only [hb, or_false, not_le]; exact h), hfold, hperm, hperm, zero_add]
  · rw [if_pos (.inl (not_lt.mp h)), if_neg h, roundTo_zero]

theorem abs_applyProgressive_sub_le (p : ℚ × ℚ) (bands : List TaxBand) :
    |applyProgressive p.1 p.2 bands - Walk.rise (taxBelow bands) p| ≤ halfUnit := by
  rw [applyProgressive_eq]
  exact abs_roundTo_sub_le 4 _

theorem isDecimal_applyProgressive (x y : ℚ) (bands : List TaxBand) :
    IsDecimal 4 (applyProgressive x y bands) := by
  rw [applyProgressive_eq]
  exact .roundTo 4 _

/-- Nothing under zero is taxed where no band reaches under zero. -/
theorem applyProgressive_below_zero {bands : List TaxBand} (h : ∀ b ∈ bands, 0 ≤ b.fromAmount)
    (x : ℚ) : applyProgressive x 0 bands = 0 := by
  have hbelow : ∀ z ≤ 0, taxBelow bands z = 0 := by
    intro z hz
    refine List.sum_eq_zero fun t ht => ?_
    obtain ⟨b, hb, rfl⟩ := List.mem_map.mp ht
    have hf := h b hb
    unfold TaxBand.below
    cases b.toAmount with
    | none => simp only [max_eq_left (show z - b.fromAmount ≤ 0 by linarith), zero_mul]
    | some t =>
      have hmin := min_le_left z t
      simp only [max_eq_left (show min z t - b.fromAmount ≤ 0 by linarith), zero_mul]
  rw [applyProgressive_eq, Walk.rise]
  split_ifs with hx
  · rw [hbelow 0 le_rfl, hbelow x hx.le, sub_zero, roundTo_zero]
  · exact roundTo_zero 4

/-! ## Adjacent ranges -/

theorem TaxBand.below_mono (b : TaxBand) {x y : ℚ} (h : x ≤ y) : TaxBand.below b x ≤ TaxBand.below b y := by
  unfold TaxBand.below
  cases b.toAmount with
  | none => exact max_le_max_left 0 (sub_le_sub_right h _)
  | some t => exact max_le_max_left 0 (sub_le_sub_right (min_le_min_right t h) _)

theorem taxBelow_mono {bands : List TaxBand} (hrates : ∀ b ∈ bands, 0 ≤ b.rate) {x y : ℚ} (h : x ≤ y) :
    taxBelow bands x ≤ taxBelow bands y :=
  List.sum_le_sum fun b hb => mul_le_mul_of_nonneg_right (TaxBand.below_mono b h) (hrates b hb)

theorem taxBelow_perm {bands bands' : List TaxBand} (h : bands'.Perm bands) :
    taxBelow bands' = taxBelow bands :=
  funext fun _ => (h.map _).sum_eq

/-- A range that does not go down takes the increment, also where it is empty. -/
theorem applyProgressive_eq_of_le {x y : ℚ} (h : x ≤ y) (bands : List TaxBand) :
    applyProgressive x y bands = roundTo 4 (taxBelow bands y - taxBelow bands x) := by
  rw [applyProgressive_eq, Walk.rise]
  rcases h.lt_or_eq with hlt | rfl
  · rw [if_pos hlt]
  · rw [if_neg (lt_irrefl _), sub_self]

/-- The tax of a range is that of its two parts but for the rounding of the three calls; it grows with
the end of the range where no rate is negative, and the order of the bands does not matter. -/
theorem applyProgressive_adjacent {a b c : ℚ} (hab : a ≤ b) (hbc : b ≤ c) (bands : List TaxBand) :
    |applyProgressive a b bands + applyProgressive b c bands - applyProgressive a c bands| ≤ 3 * halfUnit ∧
      ((∀ band ∈ bands, 0 ≤ band.rate) → applyProgressive a b bands ≤ applyProgressive a c bands) ∧
      ∀ bands', List.Perm bands' bands → applyProgressive a c bands' = applyProgressive a c bands := by
  have hac := hab.trans hbc
  refine ⟨?_, ?_, ?_⟩
  · have h1 := abs_roundTo_sub_le 4 (taxBelow bands b - taxBelow bands a)
    have h2 := abs_roundTo_sub_le 4 (taxBelow bands c - taxBelow bands b)
    have h3 := abs_roundTo_sub_le 4 (taxBelow bands c - taxBelow bands a)
    rw [applyProgressive_eq_of_le hab, applyProgressive_eq_of_le hbc, applyProgressive_eq_of_le hac]
    unfold halfUnit
    rw [abs_le] at h1 h2 h3 ⊢
    constructor <;> linarith [h1.1, h1.2, h2.1, h2.2, h3.1, h3.2]
  · intro hrates
    have hbelow := taxBelow_mono hrates hbc
    rw [applyProgressive_eq_of_le hab, applyProgressive_eq_of_le hac]
    exact roundTo_mono 4 (sub_le_sub_right hbelow _)
  · intro bands' hperm
    rw [applyProgressive_eq, applyProgressive_eq, taxBelow_perm hperm]

theorem applyProgressive_adjacent_savings :
    |applyProgressive (-100) 3000 Sample.savingsBands + applyProgressive 3000 10000 Sample.savingsBands -
        applyProgressive (-100) 10000 Sample.savingsBands| ≤ 3 * halfUnit ∧
      ((∀ band ∈ Sample.savingsBands, 0 ≤ band.rate) →
        applyProgressive (-100) 3000 Sample.savingsBands ≤
          applyProgressive (-100) 10000 Sample.savingsBands) ∧
      ∀ bands', List.Perm bands' Sample.savingsBands →
        applyProgressive (-100) 10000 bands' = applyProgressive (-100) 10000 Sample.savingsBands :=
  applyProgressive_adjacent (by norm_num) (by norm_num) Sample.savingsBands

/-! ## A walk along the items -/

/-- The core taxes of the steps of a walk. -/
def itemTaxes (bands : List TaxBand) (r : ℚ) (amounts : List ℚ) : List ℚ :=
  (Walk.steps r amounts).map fun p => applyProgressive p.1 p.2 bands

/-- The taxes of the stretches walked down, as if they were walked up. -/
def lossTaxes (bands : List TaxBand) (r : ℚ) (amounts : List ℚ) : List ℚ :=
  (Walk.steps r amounts).map fun p => applyProgressive p.2 p.1 bands

/-- Each step is either taxed going up or counted going down, so one rounding a step. -/
theorem abs_sum_sub_rises_le (bands : List TaxBand) (steps : List (ℚ × ℚ)) :
    |((steps.map fun p => applyProgressive p.1 p.2 bands).sum -
        (steps.map fun p => applyProgressive p.2 p.1 bands).sum) -
      ((steps.map (Walk.rise (taxBelow bands))).sum -
        (steps.map fun p => Walk.rise (taxBelow bands) p.swap).sum)| ≤
      steps.length * halfUnit := by
  induction steps with
  | nil => simp
  | cons p steps ih =>
    have hstep : |applyProgressive p.1 p.2 bands - applyProgressive p.2 p.1 bands -
        (Walk.rise (taxBelow bands) p - Walk.rise (taxBelow bands) p.swap)| ≤ halfUnit := by
      have hup := abs_applyProgressive_sub_le p bands
      have hdown := abs_applyProgressive_sub_le p.swap bands
      rw [Prod.fst_swap, Prod.snd_swap] at hdown
      rcases lt_or_ge p.1 p.2 with h | h
      · have h0 : Walk.rise (taxBelow bands) p.swap = 0 := if_neg h.asymm
        have hzero : applyProgressive p.2 p.1 bands = 0 := by
          rw [applyProgressive_eq, Walk.rise, if_neg h.asymm, roundTo_zero]
        rw [h0, hzero, sub_zero, sub_zero]
        exact hup
      · have h0 : Walk.rise (taxBelow bands) p = 0 := if_neg (not_lt.mpr h)
        have hzero : applyProgressive p.1 p.2 bands = 0 := by
          rw [applyProgressive_eq, Walk.rise, if_neg (not_lt.mpr h), roundTo_zero]
        rw [h0, hzero, zero_sub, zero_sub, neg_sub_neg, abs_sub_comm]
        exact hdown
    rw [abs_le] at hstep ih ⊢
    simp only [List.map_cons, List.sum_cons, List.length_cons, Nat.cast_add, Nat.cast_one]
    constructor <;> linarith [hstep.1, hstep.2, ih.1, ih.2]

theorem sum_itemTaxes (bands : List TaxBand) (amounts : List ℚ) :
    |(itemTaxes bands 0 amounts).sum - (applyProgressive 0 amounts.sum bands -
        applyProgressive amounts.sum 0 bands + (lossTaxes bands 0 amounts).sum)| ≤
      (amounts.length + 1) * halfUnit := by
  have hsteps := abs_sum_sub_rises_le bands (Walk.steps 0 amounts)
  have hends := abs_sum_sub_rises_le bands [(0, amounts.sum)]
  have hwalk := Walk.sum_rises (taxBelow bands) 0 amounts
  have hnet : Walk.rise (taxBelow bands) (0, amounts.sum) -
      Walk.rise (taxBelow bands) (amounts.sum, 0) = taxBelow bands amounts.sum - taxBelow bands 0 := by
    simp only [Walk.rise]
    rcases lt_trichotomy 0 amounts.sum with h | h | h
    · rw [if_pos h, if_neg h.asymm, sub_zero]
    · rw [← h]; simp
    · rw [if_neg h.asymm, if_pos h, zero_sub, neg_sub]
  rw [zero_add] at hwalk
  simp only [List.map_cons, List.map_nil, List.sum_cons, List.sum_nil, add_zero, List.length_cons,
    List.length_nil, Prod.swap_prod_mk, zero_add, Nat.cast_one, one_mul, hnet] at hends
  rw [Walk.length_steps] at hsteps
  unfold itemTaxes lossTaxes
  rw [abs_le] at hsteps hends ⊢
  constructor <;> linarith [hsteps.1, hsteps.2, hends.1, hends.2]

theorem sum_lossTaxes_of_nonneg (bands : List TaxBand) (r : ℚ) {amounts : List ℚ}
    (h : ∀ x ∈ amounts, 0 ≤ x) : (lossTaxes bands r amounts).sum = 0 := by
  refine List.sum_eq_zero fun t ht => ?_
  obtain ⟨p, hp, rfl⟩ := List.mem_map.mp ht
  exact if_pos (.inl (Walk.fst_le_snd_of_mem_steps h hp))

end FinHub.TaxEngine
