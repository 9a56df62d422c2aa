import Mathlib.Data.Finset.Card
import Mathlib.Data.List.Sort

/-!
# FinHub.Lib.Folder

A folder of named files.

* `write` replaces or adds a file, `unlink` removes one; `mem_write` and `mem_unlink` say which
  files there are then.
* `keepNewest r` unlinks all but the `r` greatest names: a file stays where fewer than `r` names are
  greater (`mem_keepNewest`).
-/

structure Folder (N C : Type) where
  files : List (N × C)
  nodup : (files.map Prod.fst).Nodup

namespace Folder

variable {N C : Type}

instance : Membership (N × C) (Folder N C) := ⟨fun f e => e ∈ f.files⟩

theorem mem_def {f : Folder N C} {e : N × C} : e ∈ f ↔ e ∈ f.files := Iff.rfl

def names (f : Folder N C) : List N := f.files.map Prod.fst

theorem mem_names {f : Folder N C} {n : N} : n ∈ f.names ↔ ∃ c, (n, c) ∈ f := by
  simp [names, mem_def]

section Write

variable [DecidableEq N]

def unlink (f : Folder N C) (n : N) : Folder N C where
  files := f.files.filter fun e => e.1 ≠ n
  nodup := f.nodup.sublist (List.filter_sublist.map _)

def write (f : Folder N C) (n : N) (c : C) : Folder N C where
  files := (f.unlink n).files ++ [(n, c)]
  nodup := by
    rw [List.map_append, List.map_singleton]
    refine (f.unlink n).nodup.append (List.nodup_singleton n) fun m hm hn => ?_
    rw [List.mem_singleton] at hn
    obtain ⟨e, he, rfl⟩ := List.mem_map.mp hm
    exact of_decide_eq_true (List.mem_filter.mp he).2 hn

@[simp] theorem mem_unlink {f : Folder N C} {n : N} {e : N × C} :
    e ∈ f.unlink n ↔ e ∈ f ∧ e.1 ≠ n := by
  simp [mem_def, unlink]

@[simp] theorem mem_write {f : Folder N C} {n : N} {c : C} {e : N × C} :
    e ∈ f.write n c ↔ (e ∈ f ∧ e.1 ≠ n) ∨ e = (n, c) := by
  rw [mem_def, write, List.mem_append, List.mem_singleton]
  exact or_congr mem_unlink Iff.rfl

theorem mem_names_write {f : Folder N C} {n m : N} {c : C} :
    m ∈ (f.write n c).names ↔ m ∈ f.names ∨ m = n := by
  simp only [mem_names, mem_write, Prod.mk.injEq]
  constructor
  · rintro ⟨x, ⟨hx, -⟩ | ⟨rfl, -⟩⟩
    · exact .inl ⟨x, hx⟩
    · exact .inr rfl
  · rintro (⟨x, hx⟩ | rfl)
    · by_cases hm : m = n
      · exact ⟨c, .inr ⟨hm, rfl⟩⟩
      · exact ⟨x, .inl ⟨hx, hm⟩⟩
    · exact ⟨c, .inr ⟨rfl, rfl⟩⟩

/-- One content written under several names. -/
theorem mem_foldl_write {f : Folder N C} {ns : List N} {c : C} {e : N × C} :
    e ∈ ns.foldl (fun f n => f.write n c) f ↔ (e ∈ f ∧ e.1 ∉ ns) ∨ (e.1 ∈ ns ∧ e.2 = c) := by
  induction ns generalizing f with
  | nil => simp
  | cons n ns ih =>
    obtain ⟨m, x⟩ := e
    rw [List.foldl_cons, ih]
    simp only [mem_write, Prod.mk.injEq, List.mem_cons, not_or]
    by_cases hm : m ∈ ns <;> simp [hm]

theorem mem_names_foldl_write {f : Folder N C} {ns : List N} {c : C} {m : N} :
    m ∈ (ns.foldl (fun f n => f.write n c) f).names ↔ m ∈ f.names ∨ m ∈ ns := by
  induction ns generalizing f with
  | nil => simp
  | cons n ns ih => rw [List.foldl_cons, ih, mem_names_write, List.mem_cons, or_assoc]

theorem mem_foldl_unlink {f : Folder N C} {ns : List N} {e : N × C} :
    e ∈ ns.foldl unlink f ↔ e ∈ f ∧ e.1 ∉ ns := by
  induction ns generalizing f with
  | nil => simp
  | cons n ns ih => rw [List.foldl_cons, ih, mem_unlink, List.mem_cons, not_or, and_assoc]

end Write

/-! ## Retention -/

section Order

variable [LinearOrder N]

/-- The names, greatest first. -/
def newestFirst (f : Folder N C) : List N := f.names.insertionSort fun a b => b ≤ a

/-- How many names are greater. -/
def later (f : Folder N C) (n : N) : ℕ := (f.names.toFinset.filter (n < ·)).card

def keepNewest (f : Folder N C) (r : ℕ) : Folder N C where
  files := f.files.filter fun e => e.1 ∉ f.newestFirst.drop r
  nodup := f.nodup.sublist (List.filter_sublist.map _)

/-- In a list that falls, a name is behind the first `r` where `r` names are greater. -/
theorem mem_drop_iff {l : List N} (h : l.Pairwise fun a b => b < a) {r : ℕ} {n : N} (hn : n ∈ l) :
    n ∈ l.drop r ↔ r ≤ (l.toFinset.filter (n < ·)).card := by
  induction l generalizing r with
  | nil => cases hn
  | cons a l ih =>
    rw [List.pairwise_cons] at h
    cases r with
    | zero => simpa using hn
    | succ r =>
      rw [List.drop_succ_cons]
      by_cases hna : n = a
      · subst hna
        have hnone : ((n :: l).toFinset.filter (n < ·)) = ∅ := by
          refine Finset.filter_eq_empty_iff.mpr fun m hm => ?_
          rw [List.mem_toFinset, List.mem_cons] at hm
          rcases hm with rfl | hm
          · exact lt_irrefl _
          · exact (h.1 m hm).not_gt
        have hnot : n ∉ l.drop r := fun hm => lt_irrefl n (h.1 n (List.mem_of_mem_drop hm))
        rw [hnone]
        simp [hnot]
      · have hl : n ∈ l := (List.mem_cons.mp hn).resolve_left hna
        have ha : a ∉ l.toFinset.filter (n < ·) := fun hm =>
          lt_irrefl a (h.1 a (List.mem_toFinset.mp (Finset.mem_of_mem_filter a hm)))
        have hset : (a :: l).toFinset.filter (n < ·) = insert a (l.toFinset.filter (n < ·)) := by
          rw [List.toFinset_cons, Finset.filter_insert, if_pos (h.1 n hl)]
        rw [ih h.2 hl, hset, Finset.card_insert_of_notMem ha, Nat.succ_le_succ_iff]

theorem newestFirst_falls (f : Folder N C) : f.newestFirst.Pairwise fun a b => b < a := by
  have hsorted := List.pairwise_insertionSort (fun a b : N => b ≤ a) f.names
  have hnodup := (List.perm_insertionSort (fun a b : N => b ≤ a) f.names).nodup_iff.mpr f.nodup
  exact (hsorted.and hnodup).imp fun h => lt_of_le_of_ne h.1 (Ne.symm h.2)

@[simp] theorem mem_keepNewest {f : Folder N C} {r : ℕ} {e : N × C} :
    e ∈ f.keepNewest r ↔ e ∈ f ∧ f.later e.1 < r := by
  have hperm := List.perm_insertionSort (fun a b : N => b ≤ a) f.names
  rw [mem_def, keepNewest, List.mem_filter, mem_def]
  refine and_congr_right fun he => ?_
  have hmem : e.1 ∈ f.newestFirst := hperm.mem_iff.mpr (List.mem_map_of_mem he)
  rw [decide_eq_true_iff, mem_drop_iff f.newestFirst_falls hmem, not_le, later, newestFirst,
    List.toFinset_eq_of_perm _ _ hperm]

end Order

end Folder
