import FinHub.Lib.Worth
import Mathlib.Data.List.Nodup

/-!
# FinHub.Lib.Groups

Rows added up by groups, each sum rounded.

* `groups_perm`: the groups of distinct keys hold the rows with these keys, each once.
* `sum_groups`: so the sums of the groups add up to the sum of the rows.
* `amountOf_pairs`: a sum over distinct pairs, by their first components.
* `forall_abs_le_iff`: a quantity that is the worth of some entries, up to rounding, is small for all rates
  exactly when the entries of every key cancel.
-/

namespace Groups

open Decimal Worth

variable {α κ : Type}

section

variable [DecidableEq κ]

omit [DecidableEq κ] in
theorem nodup_eraseDups [BEq κ] [LawfulBEq κ] (l : List κ) : l.eraseDups.Nodup := by
  induction hn : l.length using Nat.strong_induction_on generalizing l with
  | _ n ih =>
    cases l with
    | nil => exact List.nodup_nil
    | cons a l =>
      rw [List.eraseDups_cons, List.nodup_cons]
      constructor
      · intro hmem
        have hin := List.mem_eraseDups.mp hmem
        simp at hin
      · refine ih _ ?_ _ rfl
        have hle := List.length_filter_le (fun b => !b == a) l
        rw [List.length_cons] at hn
        omega

omit [DecidableEq κ] in
/-- Duplicates are of equal elements, so a filter keeps all of them or none. -/
theorem eraseDups_filter [BEq κ] [LawfulBEq κ] (p : κ → Bool) (l : List κ) : (l.filter p).eraseDups = l.eraseDups.filter p := by
  induction hn : l.length using Nat.strong_induction_on generalizing l with
  | _ n ih =>
    cases l with
    | nil => rfl
    | cons a l =>
      have hle := List.length_filter_le (fun b => !b == a) l
      rw [List.length_cons] at hn
      have hrest := ih _ (by omega) (l.filter fun b => !b == a) rfl
      rw [List.filter_filter] at hrest
      rw [List.eraseDups_cons, List.filter_cons, List.filter_cons]
      by_cases ha : p a = true
      · rw [if_pos ha, if_pos ha, List.eraseDups_cons, ← hrest, List.filter_filter]
        simp only [Bool.and_comm]
      · have hkeep : l.filter (fun b => p b && !b == a) = l.filter p := by
          refine List.filter_congr fun b _ => ?_
          by_cases hb : b = a
          · simp [hb, ha]
          · simp [hb]
        rw [if_neg ha, if_neg ha, ← hrest, hkeep]

omit [DecidableEq κ] in
/-- Lists that are told apart by a key of their members, one after another. -/
theorem nodup_flatMap_of_key {ks : List κ} (hks : ks.Nodup) {f : κ → List α} (hf : ∀ k, (f k).Nodup) (key : α → κ)
    (hkey : ∀ k, ∀ a ∈ f k, key a = k) : (ks.flatMap f).Nodup := by
  rw [List.nodup_flatMap]
  refine ⟨fun k _ => hf k, hks.imp ?_⟩
  intro k k' hne a ha ha'
  exact hne ((hkey k a ha).symm.trans (hkey k' a ha'))

theorem groups_perm (key : α → κ) {ks : List κ} (hks : ks.Nodup) (l : List α) :
    (ks.flatMap fun k => l.filter fun a => decide (key a = k)).Perm (l.filter fun a => decide (key a ∈ ks)) := by
  induction ks with
  | nil => simp
  | cons k ks ih =>
    obtain ⟨hk, hks⟩ := List.nodup_cons.mp hks
    have hsplit := List.filter_append_perm (fun a => decide (key a = k))
      (l.filter fun a => decide (key a ∈ k :: ks))
    rw [List.filter_filter, List.filter_filter] at hsplit
    have hthis : (l.filter fun a => decide (key a = k) && decide (key a ∈ k :: ks)) =
        l.filter fun a => decide (key a = k) := by
      refine List.filter_congr fun a _ => ?_
      by_cases ha : key a = k <;> simp [ha]
    have hrest : (l.filter fun a => !decide (key a = k) && decide (key a ∈ k :: ks)) =
        l.filter fun a => decide (key a ∈ ks) := by
      refine List.filter_congr fun a _ => ?_
      by_cases ha : key a = k
      · simp [ha, hk]
      · simp [ha]
    rw [hthis, hrest] at hsplit
    rw [List.flatMap_cons]
    exact ((ih hks).append_left _).trans hsplit

/-- No row has the key. -/
theorem sum_key_eq_zero {key : α → κ} {k : κ} {l : List α} (h : k ∉ l.map key) (f : α → ℚ) :
    ((l.filter fun a => decide (key a = k)).map f).sum = 0 := by
  have hnil : l.filter (fun a => decide (key a = k)) = [] := by
    rw [List.filter_eq_nil_iff]
    intro a ha hkey
    exact h (List.mem_map.mpr ⟨a, ha, of_decide_eq_true hkey⟩)
  rw [hnil, List.map_nil, List.sum_nil]

theorem sum_groups (key : α → κ) {ks : List κ} (hks : ks.Nodup) (l : List α) (f : α → ℚ) :
    (ks.map fun k => ((l.filter fun a => decide (key a = k)).map f).sum).sum =
      ((l.filter fun a => decide (key a ∈ ks)).map f).sum := by
  rw [← ((groups_perm key hks l).map f).sum_eq]
  clear hks
  induction ks with
  | nil => rfl
  | cons k ks ih => rw [List.map_cons, List.sum_cons, ih, List.flatMap_cons, List.map_append, List.sum_append]

/-- A sum over a list is the sum over its parts under distinct keys, where these are all keys. -/
theorem sum_parts (key : α → κ) {ks : List κ} (hks : ks.Nodup) {l : List α} (hl : ∀ a ∈ l, key a ∈ ks) (f : α → ℚ) :
    (ks.map fun k => ((l.filter fun a => decide (key a = k)).map f).sum).sum = (l.map f).sum := by
  rw [sum_groups key hks, List.filter_eq_self.mpr fun a ha => decide_eq_true (hl a ha)]

/-- The rows whose groups meet a condition. -/
theorem mem_keys_filter (key : α → κ) (p : κ → Bool) (l : List α) :
    (l.filter fun a => decide (key a ∈ ((l.map key).eraseDups.filter p))) = l.filter fun a => p (key a) := by
  refine List.filter_congr fun a ha => ?_
  have hmem : key a ∈ (l.map key).eraseDups := List.mem_eraseDups.mpr (List.mem_map_of_mem ha)
  rw [Bool.eq_iff_iff, decide_eq_true_eq, List.mem_filter]
  exact and_iff_right hmem

theorem sum_groups_where (key : α → κ) (p : κ → Bool) (l : List α) (f : α → ℚ) :
    (((l.map key).eraseDups.filter p).map fun k => ((l.filter fun a => decide (key a = k)).map f).sum).sum =
      ((l.filter fun a => p (key a)).map f).sum := by
  rw [sum_groups key ((nodup_eraseDups _).filter _), mem_keys_filter]

theorem sum_length_groups_where (key : α → κ) (p : κ → Bool) (l : List α) :
    (((l.map key).eraseDups.filter p).map fun k => (l.filter fun a => decide (key a = k)).length).sum =
      (l.filter fun a => p (key a)).length := by
  rw [← mem_keys_filter key p l, ← (groups_perm key ((nodup_eraseDups _).filter p) l).length_eq, List.length_flatMap]

end

theorem sum_filter (p : α → Bool) (l : List α) (f : α → ℚ) :
    ((l.filter p).map f).sum = (l.map fun a => if p a = true then f a else 0).sum := by
  induction l with
  | nil => rfl
  | cons a l ih =>
    rw [List.filter_cons, List.map_cons, List.sum_cons, ← ih]
    split_ifs
    · rw [List.map_cons, List.sum_cons]
    · rw [zero_add]

/-- A sum over distinct pairs, by the first components. -/
theorem amountOf_pairs [DecidableEq α] [DecidableEq κ] {ids : List α} (hids : ids.Nodup) {pairs : List (α × κ)}
    (hpairs : pairs.Nodup) (hmem : ∀ p ∈ pairs, p.1 ∈ ids) (f : α × κ → ℚ) (k : κ) :
    amountOf k (pairs.map fun p => (p.2, f p)) =
      (ids.map fun a => if (a, k) ∈ pairs then f (a, k) else 0).sum := by
  have hpart : ∀ a, ((pairs.filter fun p => decide (p.1 = a)).map fun p => if p.2 = k then f p else 0).sum =
      if (a, k) ∈ pairs then f (a, k) else 0 := by
    intro a
    have hone : ((pairs.filter fun p => decide (p.1 = a)).filter fun p => decide (p.2 = k)) =
        pairs.filter fun p => decide (p = (a, k)) := by
      rw [List.filter_filter]
      refine List.filter_congr fun p _ => ?_
      rw [← Bool.decide_and, decide_eq_decide, Prod.ext_iff, and_comm]
    have hsum := sum_filter (fun p : α × κ => decide (p.2 = k)) (pairs.filter fun p => decide (p.1 = a)) f
    simp only [decide_eq_true_eq] at hsum
    rw [← hsum, hone, List.filter_eq, hpairs.count]
    split_ifs <;> simp
  rw [amountOf, List.map_map, ← sum_parts Prod.fst hids hmem]
  exact congrArg List.sum (List.map_congr_left fun a _ => hpart a)

/-- The positive parts of some numbers come to the positive part of their sum only if all have one sign. -/
theorem sum_max_zero_eq_iff (l : List ℚ) :
    (l.map fun x => max x 0).sum = max l.sum 0 ↔ (∀ x ∈ l, 0 ≤ x) ∨ ∀ x ∈ l, x ≤ 0 := by
  have hsplit : l.sum = (l.map fun x => max x 0).sum - (l.map fun x => max (-x) 0).sum := by
    induction l with
    | nil => simp
    | cons x l ih =>
      rw [List.sum_cons, List.map_cons, List.map_cons, List.sum_cons, List.sum_cons, ih]
      rcases le_total 0 x with hx | hx
      · rw [max_eq_left hx, max_eq_right (neg_nonpos.mpr hx)]
        ring
      · rw [max_eq_right hx, max_eq_left (neg_nonneg.mpr hx)]
        ring
  have hpart : ∀ f : ℚ → ℚ, (l.map fun x => max (f x) 0).sum = 0 ↔ ∀ x ∈ l, f x ≤ 0 := by
    intro f
    constructor
    · intro h x hx
      have hle : max (f x) 0 ≤ (l.map fun x => max (f x) 0).sum :=
        List.single_le_sum (by simp) _ (List.mem_map_of_mem hx)
      exact (le_max_left _ _).trans (hle.trans h.le)
    · intro h
      refine List.sum_eq_zero fun y hy => ?_
      obtain ⟨x, hx, rfl⟩ := List.mem_map.mp hy
      exact max_eq_right (h x hx)
  have hneg := hpart fun x => -x
  have hpos := hpart fun x => x
  have hpos_nonneg : 0 ≤ (l.map fun x => max x 0).sum := List.sum_nonneg (by simp)
  have hneg_nonneg : 0 ≤ (l.map fun x => max (-x) 0).sum := List.sum_nonneg (by simp)
  simp only [neg_nonpos] at hneg
  rw [← hneg, ← hpos]
  constructor
  · intro h
    rcases le_total 0 l.sum with hsum | hsum
    · rw [max_eq_left hsum] at h
      left
      linarith
    · rw [max_eq_right hsum] at h
      exact .inr h
  · rintro (h | h)
    · rw [max_eq_left (by linarith), hsplit, h, sub_zero]
    · rw [h, max_eq_right (by linarith)]

/-- A key names one row. -/
theorem sum_of_key [DecidableEq κ] (key : α → κ) {l : List α} (hl : (l.map key).Nodup) {a : α} (ha : a ∈ l) (f : α → ℚ) :
    (l.map fun b => if key b = key a then f b else 0).sum = f a := by
  induction l with
  | nil => cases ha
  | cons b l ih =>
    rw [List.map_cons, List.nodup_cons] at hl
    rw [List.map_cons, List.sum_cons]
    rcases List.mem_cons.mp ha with rfl | ha
    · have hrest : (l.map fun b => if key b = key a then f b else 0).sum = 0 := by
        refine List.sum_eq_zero fun x hx => ?_
        obtain ⟨c, hc, rfl⟩ := List.mem_map.mp hx
        refine if_neg fun heq => hl.1 ?_
        rw [← heq]
        exact List.mem_map_of_mem hc
      rw [if_pos rfl, hrest, add_zero]
    · have hne : key b ≠ key a := by
        intro heq
        refine hl.1 ?_
        rw [heq]
        exact List.mem_map_of_mem ha
      rw [if_neg hne, zero_add, ih hl.2 ha]

/-- `SUM` of a query: `NULL`s are left out, and a sum of nothing else is `NULL`. -/
def sumOption (l : List (Option ℚ)) : Option ℚ :=
  if l.all Option.isNone then none else some (l.map fun x => x.getD 0).sum

theorem sumOption_getD (l : List (Option ℚ)) : (sumOption l).getD 0 = (l.map fun x => x.getD 0).sum := by
  unfold sumOption
  split_ifs with h
  · refine (List.sum_eq_zero fun x hx => ?_).symm
    obtain ⟨y, hy, rfl⟩ := List.mem_map.mp hx
    have hnone := Option.isNone_iff_eq_none.mp (List.all_eq_true.mp h y hy)
    rw [hnone]
    rfl
  · rfl

theorem isSome_sumOption {l : List (Option ℚ)} : (sumOption l).isSome ↔ ∃ x ∈ l, x.isSome := by
  unfold sumOption
  split_ifs with h
  · rw [List.all_eq_true] at h
    refine iff_of_false (by simp) ?_
    rintro ⟨x, hx, hsome⟩
    have hnone := h x hx
    rw [Option.isNone_iff_eq_none] at hnone
    rw [hnone] at hsome
    cases hsome
  · rw [List.all_eq_true] at h
    push Not at h
    obtain ⟨x, hx, hsome⟩ := h
    refine iff_of_true rfl ⟨x, hx, ?_⟩
    cases x with
    | none => exact absurd rfl hsome
    | some x => rfl

/-- Every term is rounded once. -/
theorem abs_sum_roundTo_sub_le (n : ℕ) (l : List α) (g : α → ℚ) :
    |(l.map fun a => roundTo n (g a)).sum - (l.map g).sum| ≤ l.length * (1 / 2 / 10 ^ n) := by
  induction l with
  | nil => simp
  | cons a l ih =>
    have hhead := abs_roundTo_sub_le n (g a)
    rw [List.map_cons, List.sum_cons, List.map_cons, List.sum_cons, List.length_cons]
    push_cast
    rw [abs_le] at ih hhead ⊢
    constructor <;> linarith

section

variable [DecidableEq κ] {es : List (κ × ℚ)}

theorem worth_eq_zero (h : ∀ k, amountOf k es = 0) (x : κ → ℚ) : worth x es = 0 := by
  have hsame : worth x es = worth (fun _ => 0) es := worth_congr fun k _ => h k
  rw [hsame]
  simp [worth]

theorem amountOf_map (f : α → κ) (g : α → ℚ) (k : κ) (l : List α) :
    amountOf k (l.map fun a => (f a, g a)) = ((l.filter fun a => decide (f a = k)).map g).sum := by
  induction l with
  | nil => rfl
  | cons a l ih =>
    rw [List.map_cons, amountOf_cons, ih, List.filter_cons]
    by_cases ha : f a = k <;> simp [ha]

/-- Entries of distinct keys cancel only where each is zero. -/
theorem forall_amountOf_map_eq_zero {f : α → κ} {g : α → ℚ} {l : List α} (hl : (l.map f).Nodup) :
    (∀ k, amountOf k (l.map fun a => (f a, g a)) = 0) ↔ ∀ a ∈ l, g a = 0 := by
  induction l with
  | nil => simp
  | cons a l ih =>
    rw [List.map_cons, List.nodup_cons] at hl
    have hnot : amountOf (f a) (l.map fun a => (f a, g a)) = 0 := by
      refine amountOf_of_not_mem fun e he heq => hl.1 ?_
      obtain ⟨b, hb, rfl⟩ := List.mem_map.mp he
      rw [← heq]
      exact List.mem_map_of_mem hb
    simp only [List.map_cons, amountOf_cons, List.forall_mem_cons]
    constructor
    · intro h
      have ha := h (f a)
      rw [if_pos rfl, hnot, add_zero] at ha
      refine ⟨ha, (ih hl.2).mp fun k => ?_⟩
      have hk := h k
      rwa [ha, ite_self, zero_add] at hk
    · rintro ⟨ha, hrest⟩ k
      rw [ha, ite_self, zero_add]
      exact (ih hl.2).mpr hrest k

/-- A large enough rate of one key makes the worth as large as one likes. -/
theorem amountOf_eq_zero {b : ℚ} (h : ∀ x, |worth x es| ≤ b) (k : κ) : amountOf k es = 0 := by
  by_contra hne
  have hx := h (Function.update (fun _ => 0) k ((b + 1) / amountOf k es))
  have hzero : worth (fun _ => 0) es = 0 := by simp [worth]
  rw [worth_update, hzero, zero_add, sub_zero, mul_div_cancel₀ _ hne] at hx
  have := le_abs_self (b + 1)
  linarith

theorem forall_abs_le_iff {D : (κ → ℚ) → ℚ} {b c : ℚ} (hD : ∀ x, |D x - worth x es| ≤ b) (hbc : b ≤ c) :
    (∀ x, |D x| ≤ c) ↔ ∀ k, amountOf k es = 0 := by
  constructor
  · intro h
    refine amountOf_eq_zero (b := b + c) fun x => ?_
    have hx := h x
    have hd := hD x
    rw [abs_le] at hx hd ⊢
    constructor <;> linarith
  · intro h x
    have hd := hD x
    rw [worth_eq_zero h, sub_zero] at hd
    exact hd.trans hbc

end

end Groups
