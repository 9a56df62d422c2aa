import Mathlib.Algebra.BigOperators.Group.List.Basic
import Mathlib.Algebra.Order.Field.Basic
import Mathlib.Tactic.Linarith
import Mathlib.Tactic.Ring

/-!
# FinHub.Lib.LotLine

A queue of divisible lots as a stretch of a line. Laying the lots end to end, `takeQty q` is the
interval `[0, q)` of the line and `dropQty q` the rest; a cut inside a lot leaves two pieces of it.

* `Divisible L K`: lots of type `L` that can be cut to any quantity in `K`.
* `weigh_take_add_drop`: a weight per unit is shared between the two parts without loss.
* `dropQty_dropQty`, `dropQty_append`: cuts add up, and lots joined at the back are not touched.
* `dropQty_suffix`: what is left are the last lots, in their order, the first of them possibly cut.
-/

namespace LotLine

/-- Lots that can be cut to a given quantity. -/
class Divisible (L : Type*) (K : outParam Type*) where
  qty : L → K
  resize : K → L → L
  qty_resize : ∀ q l, qty (resize q l) = q
  resize_resize : ∀ p q l, resize p (resize q l) = resize p l

open Divisible

attribute [simp] qty_resize resize_resize

section Weights

variable {L K : Type*} [Field K] [Divisible L K]

/-- The total of a line under a weight per unit. -/
def weigh (w : L → K) (ls : List L) : K := (ls.map fun l => qty l * w l).sum

def total (ls : List L) : K := weigh (fun _ => 1) ls

/-- A weight that a cut does not change. -/
def CutInvariant (w : L → K) : Prop := ∀ q l, w (resize q l) = w l

@[simp] theorem weigh_nil (w : L → K) : weigh w [] = 0 := rfl

@[simp] theorem weigh_cons (w : L → K) (l : L) (ls : List L) :
    weigh w (l :: ls) = qty l * w l + weigh w ls := by simp [weigh]

@[simp] theorem weigh_append (w : L → K) (ls ms : List L) :
    weigh w (ls ++ ms) = weigh w ls + weigh w ms := by simp [weigh]

end Weights

section Cuts

variable {L K : Type*} [Field K] [LinearOrder K] [Divisible L K]

/-- The first `q` units of a line of lots. -/
def takeQty : K → List L → List L
  | _, [] => []
  | q, l :: ls =>
    if q ≤ 0 then []
    else if qty l ≤ q then l :: takeQty (q - qty l) ls
    else [resize q l]

/-- The line without its first `q` units. -/
def dropQty : K → List L → List L
  | _, [] => []
  | q, l :: ls =>
    if q ≤ 0 then l :: ls
    else if qty l ≤ q then dropQty (q - qty l) ls
    else resize (qty l - q) l :: ls

@[simp] theorem takeQty_nil (q : K) : takeQty q ([] : List L) = [] := rfl
@[simp] theorem dropQty_nil (q : K) : dropQty q ([] : List L) = [] := rfl
theorem takeQty_of_nonpos {q : K} (h : q ≤ 0) (ls : List L) : takeQty q ls = [] := by
  cases ls with
  | nil => rfl
  | cons l ls => simp [takeQty, h]

theorem dropQty_of_nonpos {q : K} (h : q ≤ 0) (ls : List L) : dropQty q ls = ls := by
  cases ls with
  | nil => rfl
  | cons l ls => simp [dropQty, h]

theorem takeQty_pos {q : K} {ls : List L} (h : ∀ l ∈ ls, 0 < qty l) :
    ∀ l ∈ takeQty q ls, 0 < qty l := by
  induction ls generalizing q with
  | nil => simp
  | cons l ls ih =>
    simp only [takeQty]
    split_ifs with h0 hl
    · simp
    · intro m hm
      rcases List.mem_cons.mp hm with rfl | hm
      · exact h m List.mem_cons_self
      · exact ih (fun m hm => h m (List.mem_cons_of_mem _ hm)) m hm
    · intro m hm
      rw [List.mem_singleton.mp hm, qty_resize]
      exact not_le.mp h0

/-- What is left of a line are its last lots in their order: a mark that a cut does not change
reads along the rest as along the end of the line. -/
theorem dropQty_suffix {M : Type*} {mark : L → M} (hm : ∀ q l, mark (resize q l) = mark l) (q : K)
    (ls : List L) : (dropQty q ls).map mark <:+ ls.map mark := by
  induction ls generalizing q with
  | nil => simp
  | cons l ls ih =>
    simp only [dropQty]
    split_ifs with h0 hl
    · exact List.suffix_refl _
    · exact (ih _).trans (List.suffix_cons _ _)
    · simp [hm]

theorem weigh_take_add_drop {w : L → K} (hw : CutInvariant w) (q : K) (ls : List L) :
    weigh w (takeQty q ls) + weigh w (dropQty q ls) = weigh w ls := by
  induction ls generalizing q with
  | nil => simp
  | cons l ls ih =>
    simp only [takeQty, dropQty]
    split_ifs with h0 hl
    · simp
    · simp only [weigh_cons, add_assoc, ih]
    · simp only [weigh_cons, weigh_nil, qty_resize, hw _ _, add_zero]
      ring

theorem total_take_add_drop (q : K) (ls : List L) :
    total (takeQty q ls) + total (dropQty q ls) = total ls :=
  weigh_take_add_drop (fun _ _ => rfl) q ls

variable [IsStrictOrderedRing K]

theorem dropQty_pos {q : K} {ls : List L} (h : ∀ l ∈ ls, 0 < qty l) :
    ∀ l ∈ dropQty q ls, 0 < qty l := by
  induction ls generalizing q with
  | nil => simp
  | cons l ls ih =>
    simp only [dropQty]
    split_ifs with h0 hl
    · exact h
    · exact ih fun m hm => h m (List.mem_cons_of_mem _ hm)
    · intro m hm
      rcases List.mem_cons.mp hm with rfl | hm
      · rw [qty_resize]; linarith
      · exact h m (List.mem_cons_of_mem _ hm)

/-- A lot that is left is one of the line, whole or cut. -/
theorem mem_dropQty {q : K} {ls : List L} {l : L} (h : l ∈ dropQty q ls) :
    l ∈ ls ∨ ∃ m ∈ ls, ∃ p, p ≤ qty m ∧ l = resize p m := by
  induction ls generalizing q with
  | nil => cases h
  | cons m ls ih =>
    simp only [dropQty] at h
    split_ifs at h with h0 hm
    · exact .inl h
    · rcases ih h with hl | ⟨m', hm', p, hp, rfl⟩
      · exact .inl (List.mem_cons_of_mem _ hl)
      · exact .inr ⟨m', List.mem_cons_of_mem _ hm', p, hp, rfl⟩
    · rcases List.mem_cons.mp h with rfl | hl
      · exact .inr ⟨m, List.mem_cons_self, _, by linarith [not_le.mp h0], rfl⟩
      · exact .inl (List.mem_cons_of_mem _ hl)

theorem total_nonneg {ls : List L} (h : ∀ l ∈ ls, 0 < qty l) : 0 ≤ total ls := by
  induction ls with
  | nil => simp [total]
  | cons l ls ih =>
    have h1 := h l List.mem_cons_self
    have h2 := ih fun m hm => h m (List.mem_cons_of_mem _ hm)
    simp only [total, weigh_cons, mul_one] at h2 ⊢
    linarith

theorem total_takeQty_le {q : K} (hq : 0 ≤ q) (ls : List L) : total (takeQty q ls) ≤ q := by
  induction ls generalizing q with
  | nil => simpa [total] using hq
  | cons l ls ih =>
    simp only [takeQty]
    split_ifs with h0 hl
    · simpa [total] using hq
    · have := ih (sub_nonneg.mpr hl)
      simp only [total, weigh_cons, mul_one] at this ⊢
      linarith
    · simp [total]

/-- A line that holds `q` units gives exactly `q`. -/
theorem total_takeQty {q : K} {ls : List L} (hq : 0 ≤ q) (hle : q ≤ total ls) :
    total (takeQty q ls) = q := by
  induction ls generalizing q with
  | nil =>
    have : q ≤ 0 := by simpa [total] using hle
    simpa [total] using le_antisymm hq this
  | cons l ls ih =>
    simp only [takeQty]
    split_ifs with h0 hl
    · simpa [total] using le_antisymm hq h0
    · have := ih (sub_nonneg.mpr hl) (by simp only [total, weigh_cons, mul_one] at hle ⊢; linarith)
      simp only [total, weigh_cons, mul_one] at this ⊢
      linarith
    · simp [total]

/-- A line with no more than `q` units is taken whole. -/
theorem takeQty_of_total_le {q : K} {ls : List L} (hpos : ∀ l ∈ ls, 0 < qty l)
    (h : total ls ≤ q) : takeQty q ls = ls ∧ dropQty q ls = [] := by
  induction ls generalizing q with
  | nil => simp
  | cons l ls ih =>
    have hl := hpos l List.mem_cons_self
    have hrest : ∀ m ∈ ls, 0 < qty m := fun m hm => hpos m (List.mem_cons_of_mem _ hm)
    have htot := total_nonneg hrest
    simp only [total, weigh_cons, mul_one] at h htot
    have h0 : ¬ q ≤ 0 := by linarith
    have h1 : qty l ≤ q := by linarith
    obtain ⟨ht, hd⟩ := ih (q := q - qty l) hrest (by simp only [total]; linarith)
    simp only [takeQty, dropQty, if_neg h0, if_pos h1, ht, hd, and_self]

theorem dropQty_dropQty {a b : K} (ha : 0 ≤ a) (hb : 0 ≤ b) {ls : List L}
    (hpos : ∀ l ∈ ls, 0 < qty l) : dropQty b (dropQty a ls) = dropQty (a + b) ls := by
  induction ls generalizing a with
  | nil => simp
  | cons l ls ih =>
    have hl := hpos l List.mem_cons_self
    rcases ha.eq_or_lt with rfl | ha'
    · rw [dropQty_of_nonpos le_rfl, zero_add]
    have hab : ¬ a + b ≤ 0 := by linarith
    by_cases hla : qty l ≤ a
    · have h1 : dropQty a (l :: ls) = dropQty (a - qty l) ls := by
        simp only [dropQty, if_neg (not_le.mpr ha'), if_pos hla]
      have h2 : dropQty (a + b) (l :: ls) = dropQty (a + b - qty l) ls := by
        simp only [dropQty, if_neg hab, if_pos (show qty l ≤ a + b by linarith)]
      rw [h1, h2, ih (sub_nonneg.mpr hla) fun m hm => hpos m (List.mem_cons_of_mem _ hm)]
      congr 1; ring
    · -- The first cut falls inside the first lot; the second one starts in its remainder.
      have h1 : dropQty a (l :: ls) = resize (qty l - a) l :: ls := by
        simp only [dropQty, if_neg (not_le.mpr ha'), if_neg hla]
      rw [h1]
      rcases hb.eq_or_lt with rfl | hb'
      · rw [dropQty_of_nonpos le_rfl, add_zero, h1]
      simp only [dropQty, if_neg (not_le.mpr hb'), if_neg hab, qty_resize, resize_resize]
      by_cases hlab : qty l ≤ a + b
      · rw [if_pos (by linarith), if_pos hlab]
        congr 1; ring
      · rw [if_neg (by intro h; exact hlab (by linarith)), if_neg hlab]
        congr 2; ring

/-- A cut past the end of the line is the cut at what it holds. -/
theorem dropQty_total_takeQty {q : K} (hq : 0 ≤ q) {ls : List L} (hpos : ∀ l ∈ ls, 0 < qty l) :
    dropQty (total (takeQty q ls)) ls = dropQty q ls := by
  rcases le_total q (total ls) with h | h
  · rw [total_takeQty hq h]
  · obtain ⟨ht, hd⟩ := takeQty_of_total_le hpos h
    rw [ht, hd]
    exact (takeQty_of_total_le hpos le_rfl).2

/-- Lots joined at the back are not touched by a cut within the line. -/
theorem dropQty_append {q : K} {ls : List L} (h : q ≤ total ls) (ms : List L) :
    dropQty q (ls ++ ms) = dropQty q ls ++ ms := by
  induction ls generalizing q with
  | nil =>
    have : q ≤ 0 := by simpa [total] using h
    simp [dropQty_of_nonpos this]
  | cons l ls ih =>
    simp only [List.cons_append, dropQty]
    split_ifs with h0 hl
    · rfl
    · exact ih (by simp only [total, weigh_cons, mul_one] at h ⊢; linarith)
    · rfl

end Cuts

end LotLine
