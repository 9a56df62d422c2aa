import Mathlib.Data.Rat.Floor
import Mathlib.Tactic.FieldSimp
import Mathlib.Tactic.Linarith
import Mathlib.Tactic.Positivity
import Mathlib.Tactic.Ring

/-!
# FinHub.Lib.Decimal

Rounding to decimal places, halves to the even neighbour.

* `roundTo n x`: the multiple of `10⁻ⁿ` nearest to `x`.
* `abs_roundTo_sub_le`: it is at most half a unit of the last place away.
* `IsDecimal n x`: `x` has at most `n` decimals; rounding leaves exactly these alone.
-/

namespace Decimal

/-- The nearest integer; a half goes to the even neighbour. -/
def roundHalfEven (x : ℚ) : ℤ :=
  let f := ⌊x⌋
  let r := x - f
  if r < 1 / 2 then f
  else if 1 / 2 < r then f + 1
  else if f % 2 = 0 then f else f + 1

def roundTo (n : ℕ) (x : ℚ) : ℚ := roundHalfEven (x * 10 ^ n) / 10 ^ n

theorem abs_roundHalfEven_sub_le (x : ℚ) : |(roundHalfEven x : ℚ) - x| ≤ 1 / 2 := by
  have h0 : (⌊x⌋ : ℚ) ≤ x := Int.floor_le x
  have h1 : x < ⌊x⌋ + 1 := Int.lt_floor_add_one x
  rw [abs_le]
  simp only [roundHalfEven]
  split_ifs with hlt hgt heven
  · constructor <;> linarith
  · push_cast; constructor <;> linarith
  · constructor <;> linarith
  · push_cast; constructor <;> linarith

theorem abs_roundTo_sub_le (n : ℕ) (x : ℚ) : |roundTo n x - x| ≤ 1 / 2 / 10 ^ n := by
  have hp : (0 : ℚ) < 10 ^ n := by positivity
  have he : roundTo n x - x = (roundHalfEven (x * 10 ^ n) - x * 10 ^ n) / 10 ^ n := by
    unfold roundTo; field_simp
  rw [he, abs_div, abs_of_pos hp]
  exact div_le_div_of_nonneg_right (abs_roundHalfEven_sub_le _) hp.le

/-- Two numbers that are one apart are still apart when rounded to a decimal. -/
theorem roundTo_add_one_ne {n : ℕ} (hn : n ≠ 0) (x : ℚ) : roundTo n (x + 1) ≠ roundTo n x := by
  intro he
  have hx := abs_le.mp (abs_roundTo_sub_le n x)
  have hx' := abs_le.mp (abs_roundTo_sub_le n (x + 1))
  have hten : (10 : ℚ) ≤ 10 ^ n := le_self_pow₀ (by norm_num) hn
  have hunit : 1 / 2 / (10 : ℚ) ^ n ≤ 1 / 2 / 10 :=
    div_le_div_of_nonneg_left (by norm_num) (by norm_num) hten
  rw [he] at hx'
  linarith [hx.2, hx'.1]

theorem roundHalfEven_intCast (z : ℤ) : roundHalfEven z = z := by
  simp [roundHalfEven]

@[simp] theorem roundTo_zero (n : ℕ) : roundTo n 0 = 0 := by
  have := roundHalfEven_intCast 0
  simp only [Int.cast_zero] at this
  simp [roundTo, this]

/-! ## Numbers of `n` decimals -/

/-- A number with at most `n` decimals. -/
def IsDecimal (n : ℕ) (x : ℚ) : Prop := ∃ z : ℤ, x = z / 10 ^ n

namespace IsDecimal

variable {n : ℕ} {x y : ℚ}

protected theorem zero (n : ℕ) : IsDecimal n 0 := ⟨0, by simp⟩

theorem roundTo (n : ℕ) (x : ℚ) : IsDecimal n (Decimal.roundTo n x) := ⟨_, rfl⟩

protected theorem add (hx : IsDecimal n x) (hy : IsDecimal n y) : IsDecimal n (x + y) := by
  obtain ⟨a, rfl⟩ := hx
  obtain ⟨b, rfl⟩ := hy
  exact ⟨a + b, by push_cast; ring⟩

protected theorem sum {l : List ℚ} (h : ∀ x ∈ l, IsDecimal n x) : IsDecimal n l.sum := by
  induction l with
  | nil => exact .zero n
  | cons x l ih =>
    rw [List.sum_cons]
    exact (h x List.mem_cons_self).add (ih fun y hy => h y (List.mem_cons_of_mem _ hy))

end IsDecimal

theorem roundTo_of_isDecimal {n : ℕ} {x : ℚ} (h : IsDecimal n x) : roundTo n x = x := by
  obtain ⟨z, rfl⟩ := h
  have hp : (10 : ℚ) ^ n ≠ 0 := by positivity
  rw [roundTo, div_mul_cancel₀ _ hp, roundHalfEven_intCast]

theorem roundHalfEven_mono {x y : ℚ} (h : x ≤ y) : roundHalfEven x ≤ roundHalfEven y := by
  have hfloor := Int.floor_mono h
  have hlo : roundHalfEven x ≤ ⌊x⌋ + 1 := by simp only [roundHalfEven]; split_ifs <;> omega
  have hhi : ⌊y⌋ ≤ roundHalfEven y := by simp only [roundHalfEven]; split_ifs <;> omega
  rcases hfloor.lt_or_eq with hlt | heq
  · omega
  · -- On one unit interval the fractional parts decide.
    simp only [roundHalfEven, heq]
    split_ifs <;> first | omega | (exfalso; linarith)

theorem roundTo_mono (n : ℕ) {x y : ℚ} (h : x ≤ y) : roundTo n x ≤ roundTo n y := by
  have hp : (0 : ℚ) < 10 ^ n := by positivity
  refine div_le_div_of_nonneg_right ?_ hp.le
  exact_mod_cast roundHalfEven_mono (mul_le_mul_of_nonneg_right h hp.le)

theorem roundTo_nonneg (n : ℕ) {x : ℚ} (h : 0 ≤ x) : 0 ≤ roundTo n x := by
  have := roundTo_mono n h
  rwa [roundTo_zero] at this

end Decimal
