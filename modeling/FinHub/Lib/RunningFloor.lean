import Mathlib.Algebra.BigOperators.Group.List.Basic
import Mathlib.Algebra.Order.Group.Defs
import Mathlib.Algebra.Order.Group.MinMax
import Mathlib.Algebra.Order.BigOperators.Group.List
import Mathlib.Data.List.Pairwise
import Mathlib.Order.Bounds.Basic
import Mathlib.Tactic.Abel
import Mathlib.Tactic.Linarith

/-!
# FinHub.Lib.RunningFloor

A level that dated items raise and drain, and the top-up that keeps it from falling below zero.

* `deepest`: the deepest deficit after a draining item, as one walk over the items finds it.
* `Covers`: a top-up leaves no deficit at the instant of any item.
* `isLeast_deepest`: the walk finds the least such top-up.
-/

namespace FinHub.RunningFloor

variable {ι T A : Type} [LinearOrder T] [AddCommGroup A] (time : ι → T) (flow : ι → A) (drains : ι → Bool)

/-- What the items up to an instant add. -/
def upTo (items : List ι) (t : T) : A := ((items.filter fun i => decide (time i ≤ t)).map flow).sum

variable {time flow} in
theorem upTo_cons_of_le {items : List ι} {i : ι} {t : T} (h : time i ≤ t) :
    upTo time flow (i :: items) t = flow i + upTo time flow items t := by
  unfold upTo
  rw [List.filter_cons_of_pos (by simpa using h), List.map_cons, List.sum_cons]

variable [LinearOrder A]

/-- One item of the walk: the level and the deepest deficit so far. -/
def walk (acc : A × A) (i : ι) : A × A :=
  (acc.1 + flow i, if drains i then max acc.2 (-(acc.1 + flow i)) else acc.2)

def deepest (level : A) (items : List ι) : A := (items.foldl (walk flow drains) (level, 0)).2

/-- With a top-up no draining item leaves a deficit in the walk. -/
def Stays (x : A) : A → List ι → Prop
  | _, [] => True
  | level, i :: items => (drains i = true → 0 ≤ x + (level + flow i)) ∧ Stays x (level + flow i) items

/-- With a top-up there is no deficit at the instant of any item. -/
def Covers (x level : A) (items : List ι) : Prop := ∀ i ∈ items, 0 ≤ x + (level + upTo time flow items (time i))

/-- Items in their order, that raise or drain the level, each instant with items of one kind. -/
structure Plain (items : List ι) : Prop where
  ordered : items.Pairwise fun i j => time i ≤ time j
  draining : ∀ i ∈ items, drains i = true → flow i ≤ 0
  raising : ∀ i ∈ items, drains i = false → 0 ≤ flow i
  ties : ∀ i ∈ items, ∀ j ∈ items, time i = time j → drains i = drains j

variable {time flow drains} {x level low : A} {items : List ι} {i j : ι} {t : T}

@[simp] theorem stays_cons : Stays flow drains x level (i :: items) ↔
    (drains i = true → 0 ≤ x + (level + flow i)) ∧ Stays flow drains x (level + flow i) items := Iff.rfl

namespace Plain

theorem tail (h : Plain time flow drains (i :: items)) : Plain time flow drains items where
  ordered := (List.pairwise_cons.mp h.ordered).2
  draining j hj := h.draining j (List.mem_cons_of_mem _ hj)
  raising j hj := h.raising j (List.mem_cons_of_mem _ hj)
  ties j hj k hk := h.ties j (List.mem_cons_of_mem _ hj) k (List.mem_cons_of_mem _ hk)

theorem head_le (h : Plain time flow drains (i :: items)) (hj : j ∈ items) : time i ≤ time j :=
  (List.pairwise_cons.mp h.ordered).1 j hj

/-- The items of the first instant are of the kind of the first. -/
theorem drains_eq (h : Plain time flow drains (i :: items)) (hj : j ∈ items) (hle : time j ≤ time i) :
    drains j = drains i :=
  h.ties j (List.mem_cons_of_mem _ hj) i List.mem_cons_self (le_antisymm hle (h.head_le hj))

end Plain

variable [IsOrderedAddMonoid A]

/-- The walk is at most what leaves no deficit in it. -/
theorem walk_le_iff : (items.foldl (walk flow drains) (level, low)).2 ≤ x ↔
    low ≤ x ∧ Stays flow drains x level items := by
  induction items generalizing level low with
  | nil => exact (and_iff_left trivial).symm
  | cons i items ih =>
    rw [List.foldl_cons, walk, ih, stays_cons]
    cases hi : drains i with
    | true =>
      rw [if_pos rfl, max_le_iff, neg_le_iff_add_nonneg]
      simp only [forall_const, and_assoc]
    | false =>
      simp only [Bool.false_eq_true, if_false, false_implies, true_and]

namespace Plain

theorem upTo_head_nonpos (h : Plain time flow drains (i :: items)) (hi : drains i = true) :
    upTo time flow items (time i) ≤ 0 := by
  refine (List.sum_le_card_nsmul _ 0 fun a ha => ?_).trans_eq (nsmul_zero _)
  obtain ⟨j, hj, rfl⟩ := List.mem_map.mp ha
  obtain ⟨hmem, hle⟩ := List.mem_filter.mp hj
  exact h.tail.draining j hmem ((h.drains_eq hmem (by simpa using hle)).trans hi)

/-- A top-up for all instants is one for the walk, which may stop between items of one instant. -/
theorem stays (h : Plain time flow drains items) (hcovers : Covers time flow x level items) :
    Stays flow drains x level items := by
  induction items generalizing level with
  | nil => trivial
  | cons i items ih =>
    constructor
    · intro hi
      have hhead := hcovers i List.mem_cons_self
      rw [upTo_cons_of_le le_rfl] at hhead
      refine le_trans hhead (add_le_add_right (add_le_add_right ?_ _) _)
      exact add_le_of_nonpos_right (h.upTo_head_nonpos hi)
    · refine ih h.tail fun j hj => ?_
      have hj' := hcovers j (List.mem_cons_of_mem _ hj)
      rw [upTo_cons_of_le (h.head_le hj), ← add_assoc level] at hj'
      exact hj'

/-- A top-up for the walk is one for all instants, if the level starts without a deficit or is drained
before it is raised. -/
theorem covers (h : Plain time flow drains items) (hstays : Stays flow drains x level items)
    (hstart : 0 ≤ x + level ∨ ∀ i ∈ items, drains i = false → ∃ j ∈ items, drains j = true ∧ time j < time i) :
    Covers time flow x level items := by
  induction items generalizing level with
  | nil =>
    intro i hi
    cases hi
  | cons i items ih =>
    obtain ⟨hhead, htail⟩ := hstays
    have hlevel : 0 ≤ x + (level + flow i) := by
      cases hi : drains i with
      | true => exact hhead hi
      | false =>
        -- nothing comes before the first item
        have hnone : ¬ ∃ j ∈ i :: items, drains j = true ∧ time j < time i := by
          rintro ⟨j, hj, -, hlt⟩
          rcases List.mem_cons.mp hj with rfl | hj
          · exact lt_irrefl _ hlt
          · exact not_lt.mpr (h.head_le hj) hlt
        have hpos : 0 ≤ x + level := hstart.resolve_right fun hall => hnone (hall i List.mem_cons_self hi)
        rw [← add_assoc]
        exact add_nonneg hpos (h.raising i List.mem_cons_self hi)
    have hrest := ih h.tail htail (.inl hlevel)
    have hlater : ∀ j ∈ items, 0 ≤ x + (level + upTo time flow (i :: items) (time j)) := by
      intro j hj
      rw [upTo_cons_of_le (h.head_le hj), ← add_assoc level]
      exact hrest j hj
    intro j hj
    rcases List.mem_cons.mp hj with rfl | hj
    · by_cases htie : ∃ k ∈ items, time k ≤ time j
      · obtain ⟨k, hk, hle⟩ := htie
        rw [le_antisymm (h.head_le hk) hle]
        exact hlater k hk
      · have hnil : upTo time flow items (time j) = 0 := by
          unfold upTo
          rw [List.filter_eq_nil_iff.mpr]
          · rfl
          · intro k hk
            rw [decide_eq_true_eq]
            exact fun hle => htie ⟨k, hk, hle⟩
        rw [upTo_cons_of_le le_rfl, hnil, add_zero]
        exact hlevel
    · exact hlater j hj

/-- The walk finds the least top-up. -/
theorem isLeast_deepest (h : Plain time flow drains items)
    (hstart : 0 ≤ level ∨ ∀ i ∈ items, drains i = false → ∃ j ∈ items, drains j = true ∧ time j < time i) :
    IsLeast {x | 0 ≤ x ∧ Covers time flow x level items} (deepest flow drains level items) := by
  constructor
  · obtain ⟨hpos, hstays⟩ := walk_le_iff.mp (le_refl (deepest flow drains level items))
    exact ⟨hpos, h.covers hstays (hstart.imp_left fun hlevel => add_nonneg hpos hlevel)⟩
  · intro x hx
    exact walk_le_iff.mpr ⟨hx.1, h.stays hx.2⟩

end Plain

end FinHub.RunningFloor
