import FinHub.Lib.Decimal

/-!
# FinHub.Lib.Tally

Running sums by key: a dictionary to which amounts are added one at a time, every sum rounded to
`n` decimals as it is stored.

* `total_add`: what one addition does to the total of all keys.
* `abs_total_tally_sub_le`: after a run of additions the total is off by at most half a unit of the
  last place for each of them.
* `total_tally_of_isDecimal`: amounts of `n` decimals lose nothing.
-/

open Decimal

/-- A dictionary of sums, in the order its keys came in. -/
abbrev Tally (κ : Type) := List (κ × ℚ)

namespace Tally

variable {κ : Type} [DecidableEq κ]

/-- `d.get(k, 0.0)`. -/
def get (k : κ) : Tally κ → ℚ
  | [] => 0
  | e :: d => if e.1 = k then e.2 else get k d

/-- `d[k] = v`. -/
def set (k : κ) (v : ℚ) : Tally κ → Tally κ
  | [] => [(k, v)]
  | e :: d => if e.1 = k then (k, v) :: d else e :: set k v d

/-- `d[k] = round(d.get(k, 0.0) + x, n)`. -/
def add (n : ℕ) (d : Tally κ) (k : κ) (x : ℚ) : Tally κ := d.set k (roundTo n (d.get k + x))

def tally (n : ℕ) (d : Tally κ) (entries : List (κ × ℚ)) : Tally κ :=
  entries.foldl (fun d e => d.add n e.1 e.2) d

/-- `sum(d.values())`. -/
def total (d : Tally κ) : ℚ := (d.map Prod.snd).sum

omit [DecidableEq κ] in
@[simp] theorem total_nil : total ([] : Tally κ) = 0 := rfl

/-- Every sum has at most `n` decimals. -/
def IsDecimal (n : ℕ) (d : Tally κ) : Prop := ∀ e ∈ d, Decimal.IsDecimal n e.2

omit [DecidableEq κ] in
theorem IsDecimal.total {n : ℕ} {d : Tally κ} (h : d.IsDecimal n) :
    Decimal.IsDecimal n d.total := by
  refine .sum fun x hx => ?_
  obtain ⟨e, he, rfl⟩ := List.mem_map.mp hx
  exact h e he

theorem total_set (k : κ) (v : ℚ) (d : Tally κ) :
    (d.set k v).total = d.total - d.get k + v := by
  induction d with
  | nil => simp [set, get, total]
  | cons e d ih =>
    simp only [total] at ih
    simp only [set, get]
    split_ifs <;> simp only [total, List.map_cons, List.sum_cons]
    · ring
    · rw [ih]; ring

theorem total_add (n : ℕ) (d : Tally κ) (k : κ) (x : ℚ) :
    (d.add n k x).total = d.total + x + (roundTo n (d.get k + x) - (d.get k + x)) := by
  rw [add, total_set]; ring

theorem IsDecimal.get {n : ℕ} {d : Tally κ} (h : d.IsDecimal n) (k : κ) :
    Decimal.IsDecimal n (d.get k) := by
  induction d with
  | nil => exact .zero n
  | cons e d ih =>
    simp only [Tally.get]
    split_ifs
    · exact h e List.mem_cons_self
    · exact ih fun e' he' => h e' (List.mem_cons_of_mem _ he')

theorem IsDecimal.set {n : ℕ} {d : Tally κ} (h : d.IsDecimal n) (k : κ) {v : ℚ}
    (hv : Decimal.IsDecimal n v) : (d.set k v).IsDecimal n := by
  induction d with
  | nil =>
    intro e he
    rw [List.mem_singleton.mp he]
    exact hv
  | cons a d ih =>
    have hd : IsDecimal n d := fun e he => h e (List.mem_cons_of_mem _ he)
    simp only [Tally.set]
    split_ifs
    · intro e he
      rcases List.mem_cons.mp he with rfl | he
      · exact hv
      · exact hd e he
    · intro e he
      rcases List.mem_cons.mp he with rfl | he
      · exact h _ List.mem_cons_self
      · exact ih hd e he

theorem IsDecimal.add {n : ℕ} {d : Tally κ} (h : d.IsDecimal n) (k : κ) (x : ℚ) :
    (d.add n k x).IsDecimal n := h.set k (.roundTo n _)

theorem IsDecimal.tally {n : ℕ} {d : Tally κ} (h : d.IsDecimal n) (entries : List (κ × ℚ)) :
    (d.tally n entries).IsDecimal n := by
  induction entries generalizing d with
  | nil => exact h
  | cons e entries ih => exact ih (h.add e.1 e.2)

theorem abs_total_tally_sub_le (n : ℕ) (d : Tally κ) (entries : List (κ × ℚ)) :
    |(d.tally n entries).total - (d.total + (entries.map Prod.snd).sum)| ≤
      entries.length * (1 / 2 / 10 ^ n) := by
  induction entries generalizing d with
  | nil => simp [tally]
  | cons e entries ih =>
    have hstep := abs_roundTo_sub_le n (d.get e.1 + e.2)
    have hrest := ih (d.add n e.1 e.2)
    rw [total_add] at hrest
    -- The rounding of this addition and those of the rest.
    set x := roundTo n (d.get e.1 + e.2) - (d.get e.1 + e.2)
    rw [abs_le] at hstep hrest ⊢
    simp only [tally, List.foldl_cons, List.map_cons, List.sum_cons, List.length_cons,
      Nat.cast_add, Nat.cast_one] at hrest ⊢
    constructor <;> linarith [hrest.1, hrest.2, hstep.1, hstep.2]

theorem total_tally_of_isDecimal {n : ℕ} {d : Tally κ} (hd : d.IsDecimal n)
    {entries : List (κ × ℚ)} (h : ∀ e ∈ entries, Decimal.IsDecimal n e.2) :
    (d.tally n entries).total = d.total + (entries.map Prod.snd).sum := by
  induction entries generalizing d with
  | nil => simp [tally]
  | cons e entries ih =>
    have hround := roundTo_of_isDecimal ((hd.get e.1).add (h e List.mem_cons_self))
    have hrest := ih (hd.add e.1 e.2) fun e' he' => h e' (List.mem_cons_of_mem _ he')
    rw [total_add, hround, sub_self, add_zero] at hrest
    rw [List.map_cons, List.sum_cons, ← add_assoc, ← hrest]
    rfl

/-- Sums of amounts that are not negative stay so. -/
theorem nonneg_tally (n : ℕ) {d : Tally κ} (hd : ∀ e ∈ d, 0 ≤ e.2) {entries : List (κ × ℚ)}
    (h : ∀ e ∈ entries, 0 ≤ e.2) : ∀ e ∈ d.tally n entries, 0 ≤ e.2 := by
  induction entries generalizing d with
  | nil => exact hd
  | cons e entries ih =>
    have hget : 0 ≤ d.get e.1 := by
      clear ih h
      induction d with
      | nil => exact le_rfl
      | cons a d ih =>
        simp only [get]
        split_ifs
        · exact hd a List.mem_cons_self
        · exact ih fun b hb => hd b (List.mem_cons_of_mem _ hb)
    have hsum := roundTo_nonneg n (add_nonneg hget (h e List.mem_cons_self))
    have hset : ∀ (l : Tally κ), (∀ b ∈ l, 0 ≤ b.2) →
        ∀ b ∈ l.set e.1 (roundTo n (d.get e.1 + e.2)), 0 ≤ b.2 := by
      intro l hl
      induction l with
      | nil =>
        intro b hb
        rw [List.mem_singleton.mp hb]
        exact hsum
      | cons a l ihl =>
        have htail := fun b hb => hl b (List.mem_cons_of_mem _ hb)
        simp only [set]
        split_ifs
        · rintro b (_ | ⟨_, hb⟩)
          · exact hsum
          · exact htail b hb
        · rintro b (_ | ⟨_, hb⟩)
          · exact hl a List.mem_cons_self
          · exact ihl htail b hb
    exact ih (hset d hd) fun b hb => h b (List.mem_cons_of_mem _ hb)

end Tally
