import FinHub.Lib.Table
import Mathlib.Data.List.Infix

/-!
# FinHub.Lib.Children

Records that a database keeps in two tables: a row, and its children in a table that no constraint ties to it.

A row that is deleted may leave its children behind. They are not seen: a row gets its children by `Children.replace`,
two statements of which the first takes away what stands under its key.

* `Children.of`: the children of a row, before and after such a write.
* `Table.nest`: the table of the whole records. Each write of the two tables is one write of it.
-/

namespace Tabular

variable {α β γ : Type*}

namespace Children

/-- The children of a row, in the order of their insertion. -/
def of (children : List (ℕ × β)) (k : ℕ) : List β := (children.filter fun c => c.1 == k).map Prod.snd

/-- The statement that takes the children of a row away. -/
def drop (children : List (ℕ × β)) (k : ℕ) : List (ℕ × β) := children.filter fun c => c.1 != k

def replace (children : List (ℕ × β)) (k : ℕ) (bs : List β) : List (ℕ × β) := drop children k ++ bs.map (Prod.mk k)

variable {children : List (ℕ × β)} {k j : ℕ} {bs : List β}

theorem not_mem_drop (b : β) : (k, b) ∉ drop children k := by
  intro h
  simpa using (List.mem_filter.mp h).2

@[simp] theorem of_append (children more : List (ℕ × β)) (k : ℕ) :
    of (children ++ more) k = of children k ++ of more k := by
  simp [of]

@[simp] theorem of_drop_self (children : List (ℕ × β)) (k : ℕ) : of (drop children k) k = [] := by
  simp [of, drop, List.filter_filter]

theorem of_drop_of_ne (h : j ≠ k) : of (drop children k) j = of children j := by
  unfold of drop
  rw [List.filter_filter]
  refine congrArg _ (List.filter_congr fun c _ => ?_)
  by_cases hc : c.1 = j
  · simp [hc, h]
  · simp [hc]

@[simp] theorem of_map_self (bs : List β) (k : ℕ) : of (bs.map (Prod.mk k)) k = bs := by
  have hall : (bs.map (Prod.mk k)).filter (fun c => c.1 == k) = bs.map (Prod.mk k) :=
    List.filter_eq_self.mpr fun c hc => by
      obtain ⟨b, -, rfl⟩ := List.mem_map.mp hc
      exact beq_self_eq_true k
  rw [of, hall, List.map_map]
  exact List.map_id bs

theorem of_map_of_ne (h : j ≠ k) : of (bs.map (Prod.mk k)) j = [] := by
  simp [of, h.symm]

@[simp] theorem of_replace_self (children : List (ℕ × β)) (k : ℕ) (bs : List β) :
    of (replace children k bs) k = bs := by
  simp [replace]

theorem of_replace_of_ne (h : j ≠ k) : of (replace children k bs) j = of children j := by
  simp [replace, of_drop_of_ne h, of_map_of_ne h]

end Children

namespace Table

variable {t : Table α} {f u : ℕ → α → γ} {k : ℕ}

/-- The table of the records `f` makes of the rows. -/
def nest (t : Table α) (f : ℕ → α → γ) : Table γ where
  rows := t.rows.map fun r => (r.1, f r.1 r.2)
  next := t.next
  sorted := by
    rw [List.pairwise_map]
    exact t.sorted
  bounded := by
    intro r hr
    obtain ⟨a, ha, rfl⟩ := List.mem_map.mp hr
    exact t.bounded a ha

theorem get?_nest (t : Table α) (f : ℕ → α → γ) (k : ℕ) : (t.nest f).get? k = (t.get? k).map (f k) := by
  cases h : t.get? k with
  | none =>
    rw [get?_eq_none_iff] at h
    rw [Option.map_none, get?_eq_none_iff]
    intro c hc
    obtain ⟨r, hr, heq⟩ := List.mem_map.mp hc
    obtain rfl : r.1 = k := congrArg Prod.fst heq
    exact h r.2 hr
  | some a =>
    rw [get?_eq_some_iff] at h
    rw [Option.map_some, get?_eq_some_iff]
    exact List.mem_map_of_mem h

theorem nest_insert (a : α) (h : ∀ r ∈ t.rows, u r.1 r.2 = f r.1 r.2) :
    (t.insert a).nest u = (t.nest f).insert (u t.next a) := by
  refine ext_rows ?_ rfl
  change (t.rows ++ [(t.next, a)]).map _ = t.rows.map _ ++ _
  rw [List.map_append]
  exact congrArg (· ++ _) (List.map_congr_left fun r hr => by rw [h r hr])

/-- A row is written and its children are replaced. -/
theorem nest_modify {g : α → α} {c : γ} (hk : ∀ a, u k (g a) = c) (h : ∀ j a, j ≠ k → u j a = f j a) :
    (t.modify k g).nest u = (t.nest f).modify k fun _ => c := by
  refine ext_rows ?_ rfl
  change (t.rows.map _).map _ = (t.rows.map _).map _
  rw [List.map_map, List.map_map]
  refine List.map_congr_left ?_
  rintro ⟨j, a⟩ -
  by_cases hj : j = k
  · subst hj
    simp [hk]
  · simp [hj, h j a hj]

theorem nest_erase (t : Table α) (f : ℕ → α → γ) (k : ℕ) : (t.erase k).nest f = (t.nest f).erase k := by
  refine ext_rows ?_ rfl
  change (t.rows.filter _).map _ = (t.rows.map _).filter _
  rw [List.filter_map]
  rfl

end Table

end Tabular
