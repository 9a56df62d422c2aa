import Mathlib.Algebra.Order.Ring.Int
import Mathlib.Data.List.Basic

/-!
# FinHub.Lib.Streak

How long something has held, counted back over a list of dates.

* `streak p i`: how many positions in a row, from `i` down, satisfy `p`; `le_streak_iff` says when there are
  at least `k`.
* `position_of_back`: over increasing dates, if the `k` dates up to the one at `i` are all there, they stand
  at the `k` positions up to `i`.
-/

namespace Streak

/-- The positions from `i` down to the last one without `p`. -/
def streak (p : ℕ → Bool) : ℕ → ℕ
  | 0 => if p 0 then 1 else 0
  | i + 1 => if p (i + 1) then streak p i + 1 else 0

theorem le_streak_iff {p : ℕ → Bool} {i k : ℕ} :
    k ≤ streak p i ↔ k ≤ i + 1 ∧ ∀ j < k, p (i - j) = true := by
  induction i generalizing k with
  | zero =>
    unfold streak
    split_ifs with h
    · constructor
      · intro hk
        refine ⟨by omega, ?_⟩
        intro j hj
        simpa using h
      · intro hk
        omega
    · constructor
      · intro hk
        refine ⟨by omega, ?_⟩
        intro j hj
        omega
      · rintro ⟨_, hall⟩
        by_contra hk
        exact h (by simpa using hall 0 (by omega))
  | succ i ih =>
    cases k with
    | zero => simp
    | succ k =>
      unfold streak
      split_ifs with h
      · have hstep : (k ≤ streak p i ↔ k ≤ i + 1 ∧ ∀ j < k, p (i - j) = true) := ih
        constructor
        · intro hk
          obtain ⟨hle, hall⟩ := hstep.mp (by omega)
          refine ⟨by omega, ?_⟩
          intro j hj
          cases j with
          | zero => simpa using h
          | succ j => simpa using hall j (by omega)
        · rintro ⟨hle, hall⟩
          have hrest : k ≤ streak p i := by
            refine hstep.mpr ⟨by omega, ?_⟩
            intro j hj
            simpa using hall (j + 1) (by omega)
          omega
      · constructor
        · intro hk
          omega
        · rintro ⟨_, hall⟩
          exact absurd (by simpa using hall 0 (by omega)) h

/-! ## Increasing dates -/

variable {f : ℕ → ℤ} {n i : ℕ}

/-- Dates that are all listed stand next to each other. -/
theorem position_of_back (hf : ∀ a b, a < b → b < n → f a < f b) (hi : i < n) {k : ℕ}
    (hall : ∀ j < k, ∃ a < n, f a = f i - j) : k ≤ i + 1 ∧ ∀ j < k, f (i - j) = f i - j := by
  induction k with
  | zero =>
    refine ⟨by omega, ?_⟩
    intro j hj
    omega
  | succ k ih =>
    obtain ⟨hle, hback⟩ := ih fun j hj => hall j (by omega)
    obtain ⟨a, ha, hfa⟩ := hall k (by omega)
    cases k with
    | zero =>
      refine ⟨by omega, ?_⟩
      intro j hj
      obtain rfl : j = 0 := by omega
      simp
    | succ k =>
      have hprev := hback k (by omega)
      -- `a` stands before the last position found, and nothing fits in between
      have hbefore : a < i - k := by
        by_contra hnot
        rcases Nat.lt_or_ge (i - k) a with hlt | hge
        · have := hf _ _ hlt ha
          push_cast at hfa
          omega
        · obtain rfl : a = i - k := by omega
          push_cast at hfa
          omega
      have hlast : a = i - (k + 1) := by
        by_contra hne
        have h1 := hf a (i - (k + 1)) (by omega) (by omega)
        have h2 := hf (i - (k + 1)) (i - k) (by omega) (by omega)
        push_cast at hfa
        omega
      refine ⟨by omega, ?_⟩
      intro j hj
      rcases Nat.lt_or_ge j (k + 1) with hlt | hge
      · exact hback j hlt
      · obtain rfl : j = k + 1 := by omega
        rw [← hlast]
        exact hfa

/-- A window that spans as many dates as it has positions has no gap. -/
theorem back_of_span (hf : ∀ a b, a < b → b < n → f a < f b) (hi : i < n) {k : ℕ} (hk : k ≤ i)
    (hspan : f (i - k) = f i - k) : ∀ j ≤ k, f (i - j) = f i - j := by
  have hlow : ∀ j ≤ k, f (i - j) ≤ f i - j := by
    intro j
    induction j with
    | zero => intro _; simp
    | succ j ih =>
      intro hj
      have h1 := hf (i - (j + 1)) (i - j) (by omega) (by omega)
      have h2 := ih (by omega)
      push_cast
      omega
  have hhigh : ∀ d ≤ k, f (i - k) + d ≤ f (i - k + d) := by
    intro d
    induction d with
    | zero => intro _; simp
    | succ d ih =>
      intro hd
      have h1 := hf (i - k + d) (i - k + (d + 1)) (by omega) (by omega)
      have h2 := ih (by omega)
      push_cast
      omega
  intro j hj
  have h1 := hlow j hj
  have h2 := hhigh (k - j) (by omega)
  rw [show i - k + (k - j) = i - j by omega] at h2
  omega

end Streak
