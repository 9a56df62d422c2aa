import FinHub.Lib.Tally
import Mathlib.Algebra.BigOperators.Group.Finset.Basic
import Mathlib.Algebra.BigOperators.Ring.Finset

/-!
# FinHub.Lib.Worth

Amounts by key, and what they are worth under rates.

* `worth_congr`: rates that differ only on keys whose amounts cancel give the same worth.
* `worth_update`: the worth as a function of one rate.
* `bump`, `collect`: a dictionary of sums, worth what was put into it.
* `amountOf_flatten`, `amountOf_keys`: the amount of a key in lists of lists, and of distinct keys.
-/

namespace Worth

variable {κ : Type} [DecidableEq κ]

/-- The amounts of one key, added up. -/
def amountOf (k : κ) (es : List (κ × ℚ)) : ℚ := (es.map fun e => if e.1 = k then e.2 else 0).sum

omit [DecidableEq κ] in
/-- What the amounts are worth under the rates. -/
def worth (ρ : κ → ℚ) (es : List (κ × ℚ)) : ℚ := (es.map fun e => e.2 * ρ e.1).sum

@[simp] theorem amountOf_nil (k : κ) : amountOf k [] = 0 := rfl

omit [DecidableEq κ] in
@[simp] theorem worth_nil (ρ : κ → ℚ) : worth ρ [] = 0 := rfl

@[simp] theorem amountOf_cons (k : κ) (e : κ × ℚ) (es : List (κ × ℚ)) :
    amountOf k (e :: es) = (if e.1 = k then e.2 else 0) + amountOf k es := by
  rw [amountOf, List.map_cons, List.sum_cons]
  rfl

omit [DecidableEq κ] in
@[simp] theorem worth_cons (ρ : κ → ℚ) (e : κ × ℚ) (es : List (κ × ℚ)) :
    worth ρ (e :: es) = e.2 * ρ e.1 + worth ρ es := by
  rw [worth, List.map_cons, List.sum_cons]
  rfl

@[simp] theorem amountOf_append (k : κ) (es es' : List (κ × ℚ)) :
    amountOf k (es ++ es') = amountOf k es + amountOf k es' := by
  simp [amountOf]

omit [DecidableEq κ] in
@[simp] theorem worth_append (ρ : κ → ℚ) (es es' : List (κ × ℚ)) :
    worth ρ (es ++ es') = worth ρ es + worth ρ es' := by
  simp [worth]

omit [DecidableEq κ] in
theorem worth_filterMap {α : Type} (ρ : κ → ℚ) (f : α → Option (κ × ℚ)) (l : List α) :
    worth ρ (l.filterMap f) = (l.map fun a => ((f a).map fun e => e.2 * ρ e.1).getD 0).sum := by
  induction l with
  | nil => rfl
  | cons a l ih =>
    rw [List.map_cons, List.sum_cons, ← ih, List.filterMap_cons]
    cases f a with
    | none => simp
    | some e => simp

theorem amountOf_of_not_mem {k : κ} {es : List (κ × ℚ)} (h : ∀ e ∈ es, e.1 ≠ k) :
    amountOf k es = 0 := by
  induction es with
  | nil => rfl
  | cons e es ih =>
    rw [amountOf_cons, if_neg (h e List.mem_cons_self), zero_add]
    exact ih fun e' he' => h e' (List.mem_cons_of_mem _ he')

/-- The worth, key by key. -/
theorem worth_eq_sum (ρ : κ → ℚ) (es : List (κ × ℚ)) {S : Finset κ} (hS : ∀ e ∈ es, e.1 ∈ S) :
    worth ρ es = ∑ k ∈ S, amountOf k es * ρ k := by
  induction es with
  | nil => simp
  | cons e es ih =>
    have hhead : ∑ k ∈ S, (if e.1 = k then e.2 else 0) * ρ k = e.2 * ρ e.1 := by
      simp only [ite_mul, zero_mul]
      rw [Finset.sum_ite_eq, if_pos (hS e List.mem_cons_self)]
    rw [worth_cons, ih fun e' he' => hS e' (List.mem_cons_of_mem _ he'), ← hhead,
      ← Finset.sum_add_distrib]
    refine Finset.sum_congr rfl fun k _ => ?_
    rw [amountOf_cons, add_mul]

theorem worth_congr {ρ ρ' : κ → ℚ} {es : List (κ × ℚ)} (h : ∀ k, ρ k ≠ ρ' k → amountOf k es = 0) :
    worth ρ es = worth ρ' es := by
  have hkeys : ∀ e ∈ es, e.1 ∈ (es.map Prod.fst).toFinset := by
    intro e he
    rw [List.mem_toFinset]
    exact List.mem_map_of_mem he
  rw [worth_eq_sum ρ es hkeys, worth_eq_sum ρ' es hkeys]
  refine Finset.sum_congr rfl fun k _ => ?_
  by_cases hk : ρ k = ρ' k
  · rw [hk]
  · rw [h k hk, zero_mul, zero_mul]

/-- One rate is changed. -/
theorem worth_update (ρ : κ → ℚ) (k : κ) (r : ℚ) (es : List (κ × ℚ)) :
    worth (Function.update ρ k r) es = worth ρ es + amountOf k es * (r - ρ k) := by
  induction es with
  | nil => simp
  | cons e es ih =>
    rw [worth_cons, worth_cons, amountOf_cons, ih]
    by_cases he : e.1 = k
    · rw [he, Function.update_self, if_pos rfl]
      ring
    · rw [Function.update_of_ne he, if_neg he]
      ring

/-! ## A dictionary of sums -/

/-- `d[k] += x`. -/
def bump (d : Tally κ) (k : κ) (x : ℚ) : Tally κ := d.set k (d.get k + x)

/-- The dictionary of the entries. -/
def collect (entries : List (κ × ℚ)) : Tally κ := entries.foldl (fun d e => bump d e.1 e.2) []

theorem worth_bump (ρ : κ → ℚ) (d : Tally κ) (k : κ) (x : ℚ) :
    worth ρ (bump d k x) = worth ρ d + x * ρ k := by
  have hset : ∀ v, worth ρ (d.set k v) = worth ρ d + (v - d.get k) * ρ k := by
    intro v
    induction d with
    | nil => simp [Tally.set, Tally.get]
    | cons e d ih =>
      simp only [Tally.set, Tally.get]
      by_cases he : e.1 = k
      · rw [if_pos he, if_pos he, worth_cons, worth_cons, he]
        ring
      · rw [if_neg he, if_neg he, worth_cons, worth_cons, ih]
        ring
  rw [bump, hset]
  ring

theorem mem_keys_set {d : Tally κ} {k v k'} : k' ∈ (d.set k v).map Prod.fst ↔ k' ∈ d.map Prod.fst ∨ k' = k := by
  induction d with
  | nil => simp [Tally.set]
  | cons e d ih =>
    rw [Tally.set]
    by_cases he : e.1 = k
    · rw [if_pos he, List.map_cons, List.map_cons, List.mem_cons, List.mem_cons, he]
      tauto
    · rw [if_neg he, List.map_cons, List.map_cons, List.mem_cons, List.mem_cons, ih]
      tauto

theorem mem_keys_bump {d : Tally κ} {k x k'} :
    k' ∈ (bump d k x).map Prod.fst ↔ k' ∈ d.map Prod.fst ∨ k' = k := mem_keys_set

theorem nodup_keys_set {d : Tally κ} (h : (d.map Prod.fst).Nodup) (k : κ) (v : ℚ) :
    ((d.set k v).map Prod.fst).Nodup := by
  induction d with
  | nil => simp [Tally.set]
  | cons e d ih =>
    obtain ⟨he, hd⟩ := List.nodup_cons.mp h
    rw [Tally.set]
    by_cases hk : e.1 = k
    · rw [if_pos hk]
      exact hk ▸ h
    · rw [if_neg hk]
      refine List.nodup_cons.mpr ⟨fun hmem => ?_, ih hd⟩
      exact (mem_keys_set.mp hmem).elim he hk

theorem worth_collect (ρ : κ → ℚ) (entries : List (κ × ℚ)) :
    worth ρ (collect entries) = worth ρ entries := by
  have hrun : ∀ d, worth ρ (entries.foldl (fun d e => bump d e.1 e.2) d) = worth ρ d + worth ρ entries := by
    induction entries with
    | nil => simp
    | cons e entries ih =>
      intro d
      rw [List.foldl_cons, ih, worth_bump, worth_cons]
      ring
  rw [collect, hrun, worth_nil, zero_add]

/-- Grouping keeps the sum. -/
theorem total_collect (entries : List (κ × ℚ)) : (collect entries).total = (entries.map Prod.snd).sum := by
  have hworth := worth_collect (fun _ => 1) entries
  unfold worth at hworth
  simp only [mul_one] at hworth
  exact hworth

/-- An amount is what the entries are worth where only its key counts. -/
theorem amountOf_eq_worth (k : κ) (es : List (κ × ℚ)) :
    amountOf k es = worth (fun k' => if k' = k then 1 else 0) es := by
  unfold amountOf worth
  refine congrArg List.sum (List.map_congr_left fun e _ => ?_)
  rw [mul_ite, mul_one, mul_zero]

theorem amountOf_collect (k : κ) (entries : List (κ × ℚ)) : amountOf k (collect entries) = amountOf k entries := by
  rw [amountOf_eq_worth, worth_collect, ← amountOf_eq_worth]

theorem amountOf_flatten (k : κ) (ls : List (List (κ × ℚ))) : amountOf k ls.flatten = (ls.map (amountOf k)).sum := by
  induction ls with
  | nil => rfl
  | cons l ls ih => rw [List.flatten_cons, amountOf_append, ih, List.map_cons, List.sum_cons]

/-- The amounts of a list of distinct keys. -/
theorem amountOf_keys {ks : List κ} (hks : ks.Nodup) (f : κ → ℚ) (k : κ) :
    amountOf k (ks.map fun k => (k, f k)) = if k ∈ ks then f k else 0 := by
  induction ks with
  | nil => rfl
  | cons k' ks ih =>
    obtain ⟨hk', hks⟩ := List.nodup_cons.mp hks
    rw [List.map_cons, amountOf_cons, ih hks]
    by_cases heq : k' = k
    · subst heq
      rw [if_pos rfl, if_neg hk', if_pos List.mem_cons_self, add_zero]
    · have hmem : k ∈ k' :: ks ↔ k ∈ ks := by
        rw [List.mem_cons]
        exact or_iff_right fun h => heq h.symm
      rw [if_neg heq, zero_add]
      simp only [hmem]

theorem nodup_keys_collect (entries : List (κ × ℚ)) : ((collect entries).map Prod.fst).Nodup := by
  have hrun : ∀ d : Tally κ, (d.map Prod.fst).Nodup →
      ((entries.foldl (fun d e => bump d e.1 e.2) d).map Prod.fst).Nodup := by
    induction entries with
    | nil => exact fun _ hd => hd
    | cons e entries ih => exact fun d hd => ih _ (nodup_keys_set hd _ _)
  exact hrun [] List.nodup_nil

theorem mem_keys_collect {entries : List (κ × ℚ)} {k : κ} :
    k ∈ (collect entries).map Prod.fst ↔ k ∈ entries.map Prod.fst := by
  have hrun : ∀ d : Tally κ, k ∈ (entries.foldl (fun d e => bump d e.1 e.2) d).map Prod.fst ↔
      k ∈ d.map Prod.fst ∨ k ∈ entries.map Prod.fst := by
    induction entries with
    | nil => simp
    | cons e entries ih =>
      intro d
      rw [List.foldl_cons, ih, mem_keys_bump, List.map_cons, List.mem_cons, or_assoc]
  rw [collect, hrun]
  simp

end Worth
