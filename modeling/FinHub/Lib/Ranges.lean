import Mathlib.Order.BoundedOrder.Basic
import Mathlib.Order.Lattice
import Mathlib.Data.List.Pairwise

/-!
# FinHub.Lib.Ranges

Closed ranges over a linear order, inverted ones included.

* `meets`: two ranges share an element.
* `crosses`: the comparison of the bounds that programs make instead. `crosses_of_meets` holds of all
  ranges, `meets_of_crosses` of ranges that are not inverted.
-/

/-- The elements from `first` to `last`; none, if the bounds are inverted. -/
structure Range (α : Type*) where
  first : α
  last : α

namespace Range

variable {α : Type*} [LinearOrder α] {r s : Range α} {x : α}

def Contains (r : Range α) (x : α) : Prop := r.first ≤ x ∧ x ≤ r.last

def Meets (r s : Range α) : Prop := ∃ x, r.Contains x ∧ s.Contains x

def Ordered (r : Range α) : Prop := r.first ≤ r.last

/-- Each range starts before the other ends. -/
def Crosses (r s : Range α) : Prop := r.first ≤ s.last ∧ s.first ≤ r.last

instance (r s : Range α) : Decidable (r.Crosses s) := inferInstanceAs (Decidable (_ ∧ _))

theorem exists_contains_iff : (∃ x, r.Contains x) ↔ r.Ordered :=
  ⟨fun ⟨_, hx⟩ => le_trans hx.1 hx.2, fun h => ⟨r.first, le_rfl, h⟩⟩

theorem crosses_of_meets (h : r.Meets s) : r.Crosses s := by
  obtain ⟨x, hr, hs⟩ := h
  exact ⟨hr.1.trans hs.2, hs.1.trans hr.2⟩

theorem meets_of_crosses (hr : r.Ordered) (hs : s.Ordered) (h : r.Crosses s) : r.Meets s :=
  ⟨max r.first s.first, ⟨le_max_left _ _, max_le hr h.2⟩, le_max_right _ _, max_le h.1 hs⟩

theorem Meets.symm (h : r.Meets s) : s.Meets r := by
  obtain ⟨x, hr, hs⟩ := h
  exact ⟨x, hs, hr⟩

end Range
