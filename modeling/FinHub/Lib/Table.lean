import Mathlib.Algebra.BigOperators.Group.List.Basic
import Mathlib.Data.List.Basic
import Mathlib.Tactic.Abel

/-!
# FinHub.Lib.Table

Rowid tables. A `Table α` is a list of rows under natural-number keys together with the key the
next insertion gets. Its two fields say what a primary key with `AUTOINCREMENT` says: the rows
stand in the order of their keys, no key occurs twice, and the next key is above all of them, so a
key is never used again.

* `insert`, `modify`, `removeWhere` are the three writes; each keeps the two fields.
* `get?` is the lookup by key, `get?_eq_some_iff` relates it to membership.
* `sum` adds a quantity over all rows; `sum_insert`, `sum_modify`, `sum_erase` say what one write
  does to it, `sum_eq_single` reads a sum with one share. They are the only facts about writes an
  accounting argument needs.
* `Write`: one write of one row, by the row it takes away and the row it brings.
-/

namespace Tabular

structure Table (α : Type*) where
  rows : List (ℕ × α)
  next : ℕ
  sorted : rows.Pairwise fun a b => a.1 < b.1
  bounded : ∀ r ∈ rows, r.1 < next

namespace Table

variable {α : Type*} {A : Type*}

def empty : Table α where
  rows := []
  next := 0
  sorted := .nil
  bounded := by simp

/-- Append a row under the key `next`. -/
def insert (t : Table α) (a : α) : Table α where
  rows := t.rows ++ [(t.next, a)]
  next := t.next + 1
  sorted := by
    rw [List.pairwise_append]
    exact ⟨t.sorted, List.pairwise_singleton _ _, by simpa using t.bounded⟩
  bounded := by
    intro r hr
    rcases List.mem_append.mp hr with hr | hr
    · exact Nat.lt_succ_of_lt (t.bounded r hr)
    · rw [List.mem_singleton.mp hr]; exact Nat.lt_succ_self _

/-- Rewrite the row under key `k`, if there is one. -/
def modify (t : Table α) (k : ℕ) (f : α → α) : Table α where
  rows := t.rows.map fun r => if r.1 = k then (r.1, f r.2) else r
  next := t.next
  sorted := by
    rw [List.pairwise_map]
    refine t.sorted.imp ?_
    intro a b hab
    split <;> split <;> exact hab
  bounded := by
    intro r hr
    obtain ⟨a, ha, rfl⟩ := List.mem_map.mp hr
    split <;> exact t.bounded a ha

/-- Drop every row that satisfies `p`. -/
def removeWhere (t : Table α) (p : ℕ × α → Bool) : Table α where
  rows := t.rows.filter fun r => !p r
  next := t.next
  sorted := t.sorted.filter _
  bounded := fun r hr => t.bounded r (List.mem_of_mem_filter hr)

/-- Rewrite every row. -/
def mapRows (t : Table α) (f : ℕ → α → α) : Table α where
  rows := t.rows.map fun r => (r.1, f r.1 r.2)
  next := t.next
  sorted := by
    rw [List.pairwise_map]
    exact t.sorted
  bounded := by
    intro r hr
    obtain ⟨a, ha, rfl⟩ := List.mem_map.mp hr
    exact t.bounded a ha

def erase (t : Table α) (k : ℕ) : Table α := t.removeWhere fun r => r.1 == k

def get? (t : Table α) (k : ℕ) : Option α := (t.rows.find? fun r => r.1 == k).map Prod.snd

@[simp] theorem insert_next (t : Table α) (a : α) : (t.insert a).next = t.next + 1 := rfl
@[simp] theorem modify_next (t : Table α) (k : ℕ) (f : α → α) : (t.modify k f).next = t.next := rfl
@[simp] theorem removeWhere_next (t : Table α) (p : ℕ × α → Bool) :
    (t.removeWhere p).next = t.next := rfl
@[simp] theorem erase_next (t : Table α) (k : ℕ) : (t.erase k).next = t.next := rfl

/-! ## Membership -/

theorem ext_rows {t t' : Table α} (hr : t.rows = t'.rows) (hn : t.next = t'.next) : t = t' := by
  cases t; cases t'
  cases hr; cases hn
  rfl

/-- A key names at most one row. -/
theorem unique (t : Table α) {k : ℕ} {a b : α} (ha : (k, a) ∈ t.rows) (hb : (k, b) ∈ t.rows) :
    a = b := by
  obtain ⟨rows, next, sorted, bounded⟩ := t
  simp only at ha hb
  clear bounded
  induction rows with
  | nil => cases ha
  | cons r rest ih =>
    obtain ⟨hr, hrest⟩ := List.pairwise_cons.mp sorted
    rcases List.mem_cons.mp ha with rfl | ha' <;> rcases List.mem_cons.mp hb with hb' | hb'
    · exact ((Prod.ext_iff.mp hb').2).symm
    · exact absurd (hr _ hb') (lt_irrefl _)
    · rw [← hb'] at hr; exact absurd (hr _ ha') (lt_irrefl _)
    · exact ih hrest ha' hb'

theorem nodup_keys (t : Table α) : (t.rows.map Prod.fst).Nodup := by
  rw [List.Nodup, List.pairwise_map]
  exact t.sorted.imp fun h => h.ne

theorem get?_eq_some_iff (t : Table α) {k : ℕ} {a : α} : t.get? k = some a ↔ (k, a) ∈ t.rows := by
  unfold get?
  constructor
  · intro h
    obtain ⟨⟨j, b⟩, hf, rfl⟩ := Option.map_eq_some_iff.mp h
    have hj : j = k := by simpa using List.find?_some hf
    subst hj
    exact List.mem_of_find?_eq_some hf
  · intro h
    cases hf : t.rows.find? fun r => r.1 == k with
    | none =>
      rw [List.find?_eq_none] at hf
      exact absurd (by simp) (hf _ h)
    | some r =>
      obtain ⟨j, b⟩ := r
      have hj : j = k := by simpa using List.find?_some hf
      subst hj
      rw [t.unique h (List.mem_of_find?_eq_some hf)]
      rfl

theorem get?_eq_none_iff (t : Table α) {k : ℕ} : t.get? k = none ↔ ∀ a, (k, a) ∉ t.rows := by
  rw [Option.eq_none_iff_forall_ne_some]
  exact forall_congr' fun a => not_congr t.get?_eq_some_iff

theorem isSome_get? {t : Table α} {k : ℕ} : (t.get? k).isSome ↔ ∃ a, (k, a) ∈ t.rows := by
  rw [Option.isSome_iff_exists]
  exact exists_congr fun a => t.get?_eq_some_iff

@[simp] theorem mem_insert {t : Table α} {a : α} {r : ℕ × α} :
    r ∈ (t.insert a).rows ↔ r ∈ t.rows ∨ r = (t.next, a) := by
  simp [insert]

@[simp] theorem mem_modify {t : Table α} {k : ℕ} {f : α → α} {j : ℕ} {b : α} :
    (j, b) ∈ (t.modify k f).rows ↔
      (j ≠ k ∧ (j, b) ∈ t.rows) ∨ (j = k ∧ ∃ a, (k, a) ∈ t.rows ∧ f a = b) := by
  simp only [modify, List.mem_map, Prod.exists]
  constructor
  · rintro ⟨i, a, hm, he⟩
    by_cases hk : i = k
    · rw [if_pos hk] at he; cases he; subst hk
      exact .inr ⟨rfl, a, hm, rfl⟩
    · rw [if_neg hk] at he; cases he
      exact .inl ⟨hk, hm⟩
  · rintro (⟨hj, hm⟩ | ⟨rfl, a, hm, rfl⟩)
    · exact ⟨j, b, hm, by simp [hj]⟩
    · exact ⟨j, a, hm, by simp⟩

@[simp] theorem mem_removeWhere {t : Table α} {p : ℕ × α → Bool} {r : ℕ × α} :
    r ∈ (t.removeWhere p).rows ↔ r ∈ t.rows ∧ p r = false := by
  simp [removeWhere]

@[simp] theorem mem_erase {t : Table α} {k : ℕ} {r : ℕ × α} :
    r ∈ (t.erase k).rows ↔ r ∈ t.rows ∧ r.1 ≠ k := by
  simp [erase]

theorem get?_insert_self (t : Table α) (a : α) : (t.insert a).get? t.next = some a := by
  rw [get?_eq_some_iff, mem_insert]; exact .inr rfl

theorem modify_eq_self (t : Table α) {k : ℕ} {f : α → α} (h : ∀ a, (k, a) ∈ t.rows → f a = a) :
    t.modify k f = t := by
  refine ext_rows ?_ rfl
  refine (List.map_congr_left ?_).trans (List.map_id _)
  rintro ⟨j, a⟩ hm
  by_cases hj : j = k
  · subst hj; simp [h a hm]
  · simp [hj]

theorem modify_modify (t : Table α) (k : ℕ) (f g : α → α) :
    (t.modify k f).modify k g = t.modify k (g ∘ f) := by
  refine ext_rows ?_ rfl
  simp only [modify, List.map_map]
  refine List.map_congr_left ?_
  rintro ⟨j, a⟩ -
  by_cases hj : j = k <;> simp [hj]

/-- Writes to two rows may change places. -/
theorem modify_comm (t : Table α) {j k : ℕ} (h : j ≠ k) (f g : α → α) :
    (t.modify j f).modify k g = (t.modify k g).modify j f := by
  refine ext_rows ?_ rfl
  simp only [modify, List.map_map]
  refine List.map_congr_left fun r _ => ?_
  obtain ⟨i, a⟩ := r
  by_cases hj : i = j
  · subst hj
    simp [h]
  · by_cases hk : i = k
    · subst hk
      simp [hj]
    · simp [hj, hk]

/-- The rows that only their key picks out. -/
theorem filter_eq_singleton (t : Table α) {k : ℕ} {a : α} (hm : (k, a) ∈ t.rows) {p : ℕ × α → Bool}
    (hp : ∀ r ∈ t.rows, p r = decide (r.1 = k)) : t.rows.filter p = [(k, a)] := by
  have hmem : ∀ r, r ∈ t.rows.filter p ↔ r = (k, a) := by
    intro r
    rw [List.mem_filter]
    constructor
    · intro ⟨hr, hpr⟩
      rw [hp r hr, decide_eq_true_eq] at hpr
      obtain ⟨j, b⟩ := r
      obtain rfl : j = k := hpr
      rw [t.unique hr hm]
    · intro hr
      rw [hr]
      exact ⟨hm, by rw [hp _ hm]; exact decide_eq_true rfl⟩
  have hnodup : t.rows.Nodup := t.sorted.imp fun hlt he => absurd (congrArg Prod.fst he) (ne_of_lt hlt)
  exact List.perm_singleton.mp ((List.perm_ext_iff_of_nodup (hnodup.filter p) (by simp)).mpr
    fun r => by rw [hmem, List.mem_singleton])

/-- A scan that reads the same from the rewritten row does not see the rewrite. -/
theorem filterMap_modify {B : Type*} (t : Table α) {k : ℕ} {f : α → α} (g : ℕ × α → Option B)
    (h : ∀ a, (k, a) ∈ t.rows → g (k, f a) = g (k, a)) :
    (t.modify k f).rows.filterMap g = t.rows.filterMap g := by
  simp only [modify, List.filterMap_map]
  refine List.filterMap_congr fun r hr => ?_
  obtain ⟨j, a⟩ := r
  by_cases hj : j = k
  · subst hj; simp [h a hr]
  · simp [hj]

theorem removeWhere_eq_self (t : Table α) {p : ℕ × α → Bool} (h : ∀ r ∈ t.rows, p r = false) :
    t.removeWhere p = t := by
  refine ext_rows ?_ rfl
  exact List.filter_eq_self.mpr fun r hr => by simp [h r hr]

/-! ## Sums over rows -/

def sum [AddCommMonoid A] (t : Table α) (g : ℕ × α → A) : A := (t.rows.map g).sum

theorem sum_congr [AddCommMonoid A] {t : Table α} {g h : ℕ × α → A}
    (hgh : ∀ r ∈ t.rows, g r = h r) : t.sum g = t.sum h := by
  unfold sum; rw [List.map_congr_left hgh]

theorem sum_eq_zero [AddCommMonoid A] {t : Table α} {g : ℕ × α → A}
    (h : ∀ r ∈ t.rows, g r = 0) : t.sum g = 0 :=
  List.sum_eq_zero fun x hx => by
    obtain ⟨r, hr, rfl⟩ := List.mem_map.mp hx
    exact h r hr

theorem sum_add [AddCommMonoid A] (t : Table α) (g h : ℕ × α → A) :
    (t.sum fun r => g r + h r) = t.sum g + t.sum h :=
  List.sum_map_add

theorem sum_sub [AddCommGroup A] (t : Table α) (g h : ℕ × α → A) :
    (t.sum fun r => g r - h r) = t.sum g - t.sum h := by
  have hadd := t.sum_add (fun r => g r - h r) h
  simp only [sub_add_cancel] at hadd
  rw [hadd]; abel

theorem sum_insert [AddCommMonoid A] (t : Table α) (a : α) (g : ℕ × α → A) :
    (t.insert a).sum g = t.sum g + g (t.next, a) := by
  simp [sum, insert]

/-- Rewriting row `k` moves a sum by the new row's share minus the old row's. -/
theorem sum_modify [AddCommGroup A] (t : Table α) {k : ℕ} {a : α} (f : α → α) (g : ℕ × α → A)
    (h : (k, a) ∈ t.rows) : (t.modify k f).sum g = t.sum g + (g (k, f a) - g (k, a)) := by
  obtain ⟨rows, next, sorted, bounded⟩ := t
  simp only [sum, modify] at h ⊢
  clear bounded
  induction rows with
  | nil => cases h
  | cons r rest ih =>
    obtain ⟨hr, hrest⟩ := List.pairwise_cons.mp sorted
    rcases List.mem_cons.mp h with rfl | hm
    · have hsame : (rest.map fun r => if r.1 = k then (r.1, f r.2) else r) = rest := by
        refine (List.map_congr_left ?_).trans (List.map_id _)
        intro r hm
        rw [if_neg (ne_of_gt (hr r hm))]; rfl
      simp only [List.map_cons, if_true, List.sum_cons, hsame]
      abel
    · have hne : r.1 ≠ k := ne_of_lt (hr _ hm)
      simp only [List.map_cons, if_neg hne, List.sum_cons, ih hrest hm]
      abel

theorem sum_erase [AddCommGroup A] (t : Table α) {k : ℕ} {a : α} (g : ℕ × α → A)
    (h : (k, a) ∈ t.rows) : (t.erase k).sum g = t.sum g - g (k, a) := by
  obtain ⟨rows, next, sorted, bounded⟩ := t
  simp only [sum, erase, removeWhere] at h ⊢
  clear bounded
  induction rows with
  | nil => cases h
  | cons r rest ih =>
    obtain ⟨hr, hrest⟩ := List.pairwise_cons.mp sorted
    rcases List.mem_cons.mp h with rfl | hm
    · have hsame : (rest.filter fun r => !(r.1 == k)) = rest := by
        refine List.filter_eq_self.mpr fun r hm => ?_
        simpa using ne_of_gt (hr r hm)
      simp [hsame]
    · have hne : r.1 ≠ k := ne_of_lt (hr _ hm)
      have hkeep : (!(r.1 == k)) = true := by simpa using hne
      simp only [List.filter_cons, hkeep, if_true, List.map_cons, List.sum_cons, ih hrest hm]
      abel

/-- A sum with one share. -/
theorem sum_eq_single [AddCommGroup A] (t : Table α) {k : ℕ} {a : α} (g : ℕ × α → A)
    (h : (k, a) ∈ t.rows) (hz : ∀ r ∈ t.rows, r ≠ (k, a) → g r = 0) : t.sum g = g (k, a) := by
  have herase : (t.erase k).sum g = 0 := sum_eq_zero fun r hr => by
    obtain ⟨hm, hne⟩ := mem_erase.mp hr
    exact hz r hm fun he => hne (by rw [he])
  rw [sum_erase t g h, sub_eq_zero] at herase
  exact herase

/-! ## Single writes -/

/-- One write of one row: the row it takes away and the row it brings. -/
inductive Write (t : Table α) : Table α → Option α → Option α → Prop where
  | insert (a : α) : Write t (t.insert a) none (some a)
  | modify {k : ℕ} {a : α} (h : (k, a) ∈ t.rows) (b : α) :
      Write t (t.modify k fun _ => b) (some a) (some b)
  | erase {k : ℕ} {a : α} (h : (k, a) ∈ t.rows) : Write t (t.erase k) (some a) none

namespace Write

variable {t t' : Table α} {old new : Option α}

theorem sum_eq [AddCommGroup A] (h : Write t t' old new) (g : α → A) :
    (t'.sum fun r => g r.2) =
      t.sum (fun r => g r.2) + ((new.map g).getD 0 - (old.map g).getD 0) := by
  cases h with
  | insert a => simp [sum_insert]
  | modify h b => simp [sum_modify t _ (fun r => g r.2) h]
  | erase h => rw [sum_erase t (fun r => g r.2) h]; simp [sub_eq_add_neg]

theorem mem (h : Write t t' old new) {r : ℕ × α} (hr : r ∈ t'.rows) : r ∈ t.rows ∨ r.2 ∈ new := by
  cases h with
  | insert a =>
    rcases mem_insert.mp hr with hr | rfl
    · exact .inl hr
    · exact .inr rfl
  | modify h b =>
    obtain ⟨j, c⟩ := r
    rcases mem_modify.mp hr with ⟨-, hr⟩ | ⟨-, -, -, rfl⟩
    · exact .inl hr
    · exact .inr rfl
  | erase h => exact .inl (mem_erase.mp hr).1

/-- A scan that reads the same from both rows does not see the write. -/
theorem filterMap_eq {B : Type*} (h : Write t t' old new) (g : α → Option B)
    (hg : new.bind g = old.bind g) :
    (t'.rows.filterMap fun r => g r.2) = t.rows.filterMap fun r => g r.2 := by
  cases h with
  | insert a => simp [Table.insert, show g a = none from hg]
  | @modify k a h b =>
    simp only [Table.modify, List.filterMap_map]
    refine List.filterMap_congr fun r hr => ?_
    simp only [Function.comp]
    split_ifs with hk
    · obtain ⟨j, c⟩ := r
      obtain rfl : j = k := hk
      rw [t.unique hr h]
      exact hg
    · rfl
  | @erase k a h =>
    simp only [Table.erase, removeWhere, List.filterMap_filter]
    refine List.filterMap_congr fun r hr => ?_
    split_ifs with hk
    · rfl
    · obtain ⟨j, c⟩ := r
      obtain rfl : j = k := by simpa using hk
      rw [t.unique hr h]
      exact hg

end Write

end Table

end Tabular
