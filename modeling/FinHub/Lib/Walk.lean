import Mathlib.Algebra.BigOperators.Group.List.Basic
import Mathlib.Algebra.Order.Group.Defs
import Mathlib.Tactic.Abel
import Mathlib.Tactic.Linarith

/-!
# FinHub.Lib.Walk

A running total that walks up and down along a list.

* `steps r xs`: the position before and after each `x`, from `r`.
* `sum_steps`: the increments of a function along the walk telescope.
* `sum_rises`: the increments on the way up are the increment from end to end and what the way down
  takes back.
-/

namespace Walk

variable {α β : Type*}

section Add

variable [AddCommGroup α] [AddCommGroup β]

def steps : α → List α → List (α × α)
  | _, [] => []
  | r, x :: xs => (r, r + x) :: steps (r + x) xs

@[simp] theorem length_steps (r : α) (xs : List α) : (steps r xs).length = xs.length := by
  induction xs generalizing r with
  | nil => rfl
  | cons x xs ih => simp [steps, ih]

theorem sum_steps (F : α → β) (r : α) (xs : List α) :
    ((steps r xs).map fun p => F p.2 - F p.1).sum = F (r + xs.sum) - F r := by
  induction xs generalizing r with
  | nil => simp [steps]
  | cons x xs ih =>
    simp only [steps, List.map_cons, List.sum_cons, ih, add_assoc]
    abel

end Add

section Order

variable [AddCommGroup α] [LinearOrder α] [AddCommGroup β]

/-- The increment of `F` over a step up; a step down counts for nothing. -/
def rise (F : α → β) (p : α × α) : β := if p.1 < p.2 then F p.2 - F p.1 else 0

theorem sum_rises (F : α → β) (r : α) (xs : List α) :
    ((steps r xs).map (rise F)).sum =
      F (r + xs.sum) - F r + ((steps r xs).map fun p => rise F p.swap).sum := by
  have hsplit : ∀ l : List (α × α), (l.map (rise F)).sum =
      (l.map fun p => F p.2 - F p.1).sum + (l.map fun p => rise F p.swap).sum := by
    intro l
    induction l with
    | nil => simp
    | cons p l ih =>
      simp only [List.map_cons, List.sum_cons, ih, rise, Prod.fst_swap, Prod.snd_swap]
      rcases lt_trichotomy p.1 p.2 with h | h | h
      · rw [if_pos h, if_neg h.asymm]; abel
      · rw [if_neg h.not_lt, if_neg h.not_gt, h]; abel
      · rw [if_neg h.asymm, if_pos h]; abel
  rw [hsplit, sum_steps]

variable [IsOrderedAddMonoid α]

/-- The walk goes up where no `x` is negative. -/
theorem fst_le_snd_of_mem_steps {r : α} {xs : List α} (h : ∀ x ∈ xs, 0 ≤ x) {p : α × α}
    (hp : p ∈ steps r xs) : p.1 ≤ p.2 := by
  induction xs generalizing r with
  | nil => cases hp
  | cons x xs ih =>
    rcases List.mem_cons.mp hp with rfl | hp
    · exact le_add_of_nonneg_right (h x List.mem_cons_self)
    · exact ih (fun y hy => h y (List.mem_cons_of_mem _ hy)) hp

end Order

end Walk
