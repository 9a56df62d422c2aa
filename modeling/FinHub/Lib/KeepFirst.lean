import Mathlib.Data.List.Basic
import Mathlib.Data.List.Nodup

/-!
# FinHub.Lib.KeepFirst

Rows that are inserted one by one into a table with a unique key, where a row under a key that the table has
is left out.

* `filter_keepFirst`: the rows of a key afterwards.
* `keepFirst_keepFirst`: inserting the same rows again changes nothing.
* `mem_keepFirst_iff`: the rows afterwards are those that came first under their key.
* `keepFirst_perm`, `keepFirst_map`: rows that are their own keys, in another order or renamed.
-/

namespace FinHub.KeepFirst

variable {α κ : Type} [DecidableEq κ] (key : α → κ)

def hasKey (table : List α) (k : κ) : Bool := table.any fun x => decide (key x = k)

/-- Insert a row, if its key is new. -/
def insertNew (table : List α) (x : α) : List α := if hasKey key table (key x) then table else table ++ [x]

def keepFirst (table : List α) (rows : List α) : List α := rows.foldl (insertNew key) table

/-- The rows of a key. -/
def rowsOf (table : List α) (k : κ) : List α := table.filter fun x => decide (key x = k)

variable {key} {table rows : List α} {k : κ} {x : α}

theorem hasKey_iff : hasKey key table k = true ↔ ∃ x ∈ table, key x = k := by
  simp [hasKey]

theorem rowsOf_eq_nil (h : hasKey key table k = false) : rowsOf key table k = [] := by
  refine List.filter_eq_nil_iff.mpr fun x hx => ?_
  rw [decide_eq_true_eq]
  intro hk
  rw [hasKey_iff.mpr ⟨x, hx, hk⟩] at h
  cases h

theorem hasKey_insertNew :
    hasKey key (insertNew key table x) k = (hasKey key table k || decide (key x = k)) := by
  unfold insertNew
  split_ifs with hx
  · by_cases hk : key x = k
    · rw [← hk, hx]
      rfl
    · simp [hk]
  · simp [hasKey]

/-- A row comes under its key, if the key is new. -/
theorem rowsOf_insertNew : rowsOf key (insertNew key table x) k =
    if hasKey key table k then rowsOf key table k else if key x = k then [x] else [] := by
  unfold insertNew
  by_cases hk : key x = k
  · rw [hk, if_pos rfl]
    split_ifs with hhas
    · rfl
    · unfold rowsOf
      rw [List.filter_append, ← rowsOf, rowsOf_eq_nil (by simpa using hhas)]
      simp [hk]
  · rw [if_neg hk]
    split_ifs with hx hhas hhas
    · rfl
    · exact rowsOf_eq_nil (by simpa using hhas)
    · simp [rowsOf, hk]
    · unfold rowsOf
      rw [List.filter_append, ← rowsOf, rowsOf_eq_nil (by simpa using hhas)]
      simp [hk]

theorem keepFirst_cons : keepFirst key table (x :: rows) = keepFirst key (insertNew key table x) rows := rfl

theorem hasKey_keepFirst : hasKey key (keepFirst key table rows) k =
    (hasKey key table k || hasKey key rows k) := by
  induction rows generalizing table with
  | nil => simp [keepFirst, hasKey]
  | cons x rows ih =>
    rw [keepFirst_cons, ih, hasKey_insertNew, Bool.or_assoc]
    rfl

/-- Under a key that the table lacks comes the first row with it. -/
theorem rowsOf_keepFirst : rowsOf key (keepFirst key table rows) k =
    if hasKey key table k then rowsOf key table k else (rows.find? fun x => decide (key x = k)).toList := by
  induction rows generalizing table with
  | nil =>
    change rowsOf key table k = _
    split_ifs with hhas
    · rfl
    · exact rowsOf_eq_nil (by simpa using hhas)
  | cons x rows ih =>
    rw [keepFirst_cons, ih, hasKey_insertNew, rowsOf_insertNew]
    by_cases hhas : hasKey key table k = true
    · simp [hhas]
    · by_cases hk : key x = k
      · simp [hhas, hk]
      · simp [hhas, hk]

/-- What is in the table stays. -/
theorem prefix_keepFirst : table <+: keepFirst key table rows := by
  induction rows generalizing table with
  | nil => exact List.prefix_rfl
  | cons x rows ih =>
    refine List.IsPrefix.trans ?_ ih
    unfold insertNew
    split_ifs with hx
    · exact List.prefix_rfl
    · exact List.prefix_append _ _

/-- Rows under keys that the table has change nothing. -/
theorem keepFirst_eq_self (h : ∀ x ∈ rows, hasKey key table (key x) = true) :
    keepFirst key table rows = table := by
  induction rows with
  | nil => rfl
  | cons x rows ih =>
    have hx : insertNew key table x = table := if_pos (h x List.mem_cons_self)
    rw [keepFirst_cons, hx]
    exact ih fun y hy => h y (List.mem_cons_of_mem _ hy)

theorem keepFirst_keepFirst : keepFirst key (keepFirst key table rows) rows = keepFirst key table rows := by
  refine keepFirst_eq_self fun x hx => ?_
  rw [hasKey_keepFirst, Bool.or_eq_true]
  exact .inr (hasKey_iff.mpr ⟨x, hx, rfl⟩)

/-! ## Tables whose keys are unique -/

theorem nodup_insertNew (h : (table.map key).Nodup) : ((insertNew key table x).map key).Nodup := by
  unfold insertNew
  split_ifs with hx
  · exact h
  · rw [List.map_append, List.nodup_append']
    refine ⟨h, List.nodup_singleton _, ?_⟩
    intro k hk hx'
    obtain rfl := List.mem_singleton.mp hx'
    obtain ⟨y, hy, hkey⟩ := List.mem_map.mp hk
    exact hx (hasKey_iff.mpr ⟨y, hy, hkey⟩)

theorem mem_iff_find? (h : (table.map key).Nodup) :
    x ∈ table ↔ (table.find? fun y => decide (key y = key x)) = some x := by
  constructor
  · intro hx
    cases hfind : table.find? fun y => decide (key y = key x) with
    | none => exact absurd (decide_eq_true rfl) (List.find?_eq_none.mp hfind x hx)
    | some y =>
      have hkey : key y = key x := by simpa using List.find?_some hfind
      rw [List.inj_on_of_nodup_map h (List.mem_of_find?_eq_some hfind) hx hkey]
  · exact List.mem_of_find?_eq_some

/-- Afterwards the table has the rows that are the first under their key. -/
theorem mem_keepFirst_iff (h : (table.map key).Nodup) : x ∈ keepFirst key table rows ↔
    ((table ++ rows).find? fun y => decide (key y = key x)) = some x := by
  have hrows : x ∈ keepFirst key table rows ↔ x ∈ rowsOf key (keepFirst key table rows) (key x) := by
    unfold rowsOf
    rw [List.mem_filter, decide_eq_true_eq, and_iff_left rfl]
  rw [hrows, rowsOf_keepFirst, List.find?_append]
  cases hhas : hasKey key table (key x) with
  | true =>
    obtain ⟨y, hy, hkey⟩ := hasKey_iff.mp hhas
    have hfind : (table.find? fun z => decide (key z = key x)) = some y := by
      rw [← hkey]
      exact (mem_iff_find? h).mp hy
    rw [if_pos rfl, rowsOf, List.mem_filter, decide_eq_true_eq, and_iff_left rfl, mem_iff_find? h, hfind]
    rfl
  | false =>
    have hnone : (table.find? fun z => decide (key z = key x)) = none := by
      rw [List.find?_eq_none]
      intro z hz hkey
      rw [hasKey_iff.mpr ⟨z, hz, of_decide_eq_true hkey⟩] at hhas
      cases hhas
    rw [if_neg Bool.false_ne_true, hnone, Option.none_or, Option.mem_toList]

/-! ## Rows that are their own keys -/

theorem count_keepFirst {table rows : List κ} {k : κ} : (keepFirst id table rows).count k =
    if k ∈ table then table.count k else if k ∈ rows then 1 else 0 := by
  have hcount : ∀ l : List κ, l.count k = (rowsOf id l k).length := by
    intro l
    rw [List.count, List.countP_eq_length_filter]
    rfl
  have hhas : hasKey id table k = true ↔ k ∈ table := by
    rw [hasKey_iff]
    exact ⟨fun ⟨x, hx, he⟩ => he ▸ hx, fun hk => ⟨k, hk, rfl⟩⟩
  rw [hcount, rowsOf_keepFirst]
  by_cases hk : k ∈ table
  · rw [if_pos (hhas.mpr hk), if_pos hk, hcount]
  · rw [if_neg (mt hhas.mp hk), if_neg hk]
    by_cases hrows : k ∈ rows
    · have hfind : ∃ x, rows.find? (fun x => decide (id x = k)) = some x :=
        Option.isSome_iff_exists.mp (List.find?_isSome.mpr ⟨k, hrows, decide_eq_true rfl⟩)
      obtain ⟨x, hx⟩ := hfind
      rw [hx, if_pos hrows]
      rfl
    · have hfind : rows.find? (fun x => decide (id x = k)) = none :=
        List.find?_eq_none.mpr fun x hx hxk => hrows (of_decide_eq_true hxk ▸ hx)
      rw [hfind, if_neg hrows]
      rfl

/-- The order does not matter. -/
theorem keepFirst_perm {table table' rows rows' : List κ} (htable : table.Perm table')
    (hrows : rows.Perm rows') : (keepFirst id table rows).Perm (keepFirst id table' rows') := by
  refine List.perm_iff_count.mpr fun k => ?_
  simp only [count_keepFirst, htable.count_eq, htable.mem_iff, hrows.mem_iff]

theorem keepFirst_map {f : κ → κ} (hf : f.Injective) (table rows : List κ) :
    keepFirst id (table.map f) (rows.map f) = (keepFirst id table rows).map f := by
  induction rows generalizing table with
  | nil => rfl
  | cons x rows ih =>
    have hinsert : insertNew id (table.map f) (f x) = (insertNew id table x).map f := by
      unfold insertNew hasKey
      rw [List.any_map]
      simp only [Function.comp_def, id_eq, hf.eq_iff]
      split_ifs
      · rfl
      · rw [List.map_append]
        rfl
    rw [List.map_cons, keepFirst_cons, keepFirst_cons, hinsert, ih]

end FinHub.KeepFirst
