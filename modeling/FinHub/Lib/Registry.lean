import Mathlib.Data.List.Basic
import Mathlib.Data.Sum.Basic
import Mathlib.Tactic.SplitIfs

/-!
# FinHub.Lib.Registry

Values that are computed by name from other values, down to leaves that are read.

* `Registry.induct`: what holds of the leaves and passes from the inputs of a name to it holds everywhere.
* `mem_offered_iff`: what a name shares over its inputs is what all leaves below it have.
* `eval_spec`: a name has a value exactly when all leaves below it have one; otherwise the error is one of theirs.
-/

namespace FinHub

/-- What each name is computed from: names of lower rank, and leaves. -/
structure Registry (N L : Type) where
  inputs : N → List (N ⊕ L)
  rank : N → ℕ
  rank_lt : ∀ {n m : N}, Sum.inl m ∈ inputs n → rank m < rank n
  inputs_ne_nil : ∀ n, inputs n ≠ []

namespace Registry

variable {N L : Type} (r : Registry N L)

/-- A bound on the recursion below a name or a leaf. -/
def height : N ⊕ L → ℕ
  | .inl n => r.rank n + 1
  | .inr _ => 0

theorem height_lt {n : N} {x : N ⊕ L} (h : x ∈ r.inputs n) : r.height x < r.height (.inl n) := by
  cases x with
  | inl m => exact Nat.succ_lt_succ (r.rank_lt h)
  | inr l => exact Nat.succ_pos _

/-- Induction from the inputs of a name to it. -/
theorem induct {P : N ⊕ L → Prop} (leaf : ∀ l, P (.inr l)) (node : ∀ n, (∀ x ∈ r.inputs n, P x) → P (.inl n))
    (x : N ⊕ L) : P x := by
  induction hheight : r.height x using Nat.strongRecOn generalizing x with
  | _ height ih =>
    cases x with
    | inr l => exact leaf l
    | inl n => exact node n fun y hy => ih _ (hheight ▸ r.height_lt hy) y rfl

/-- The leaves below a name. -/
inductive Below : L → N ⊕ L → Prop where
  | leaf (l : L) : Below l (.inr l)
  | node {l : L} {n : N} {x : N ⊕ L} (hx : x ∈ r.inputs n) (h : Below l x) : Below l (.inl n)

variable {r} {l : L} {n : N}

theorem below_leaf_iff {l' : L} : r.Below l (.inr l') ↔ l = l' := by
  constructor
  · rintro ⟨⟩
    rfl
  · rintro rfl
    exact .leaf l

theorem below_node_iff : r.Below l (.inl n) ↔ ∃ x ∈ r.inputs n, r.Below l x := by
  constructor
  · intro h
    cases h with
    | node hx h => exact ⟨_, hx, h⟩
  · rintro ⟨x, hx, h⟩
    exact .node hx h

/-! ## What the inputs share -/

/-- What all lists have, and nothing where there are none. -/
def common {M : Type} [BEq M] : List (List M) → List M
  | [] => []
  | first :: rest => rest.foldl (fun shared l => shared.filter fun m => l.elem m) first

theorem mem_common_iff {M : Type} [BEq M] [LawfulBEq M] {ls : List (List M)} (hne : ls ≠ []) {m : M} :
    m ∈ common ls ↔ ∀ l ∈ ls, m ∈ l := by
  cases ls with
  | nil => exact absurd rfl hne
  | cons first rest =>
    change m ∈ rest.foldl _ first ↔ _
    rw [List.forall_mem_cons]
    clear hne
    induction rest generalizing first with
    | nil => simp
    | cons l rest ih =>
      rw [List.foldl_cons, ih, List.mem_filter, List.elem_iff, List.forall_mem_cons, and_assoc]

variable (r)

/-- What a name shares over its inputs, where a leaf offers what it has. -/
def offered {M : Type} [BEq M] (offers : L → List M) : N ⊕ L → List M
  | .inr l => offers l
  | .inl n => common ((r.inputs n).attach.map fun x => offered offers x.1)
termination_by x => r.height x
decreasing_by exact r.height_lt x.2

theorem offered_node {M : Type} [BEq M] (offers : L → List M) (n : N) :
    r.offered offers (.inl n) = common ((r.inputs n).map (r.offered offers)) := by
  rw [offered]
  conv_rhs => rw [← List.attach_map_subtype_val (r.inputs n), List.map_map]
  rfl

theorem mem_offered_iff {M : Type} [BEq M] [LawfulBEq M] {offers : L → List M} {m : M} (x : N ⊕ L) :
    m ∈ r.offered offers x ↔ ∀ l, r.Below l x → m ∈ offers l := by
  induction x using r.induct with
  | leaf l =>
    rw [offered]
    simp only [below_leaf_iff, forall_eq]
  | node n ih =>
    rw [offered_node, mem_common_iff (by simpa using r.inputs_ne_nil n)]
    simp only [List.forall_mem_map, below_node_iff]
    constructor
    · rintro h l ⟨x, hx, hl⟩
      exact (ih x hx).mp (h x hx) l hl
    · intro h x hx
      exact (ih x hx).mpr fun l hl => h l ⟨x, hx, hl⟩

/-! ## Values -/

variable {V E : Type} (combine : N → List V → Except E V) (read : L → Except E V)

/-- The value of a name from those of its inputs. -/
def eval : N ⊕ L → Except E V
  | .inr l => read l
  | .inl n => (r.inputs n).attach.mapM (fun x => eval x.1) >>= combine n
termination_by x => r.height x
decreasing_by exact r.height_lt x.2

theorem eval_node (n : N) : r.eval combine read (.inl n) = (r.inputs n).mapM (r.eval combine read) >>= combine n := by
  rw [eval]
  conv_rhs => rw [← List.attach_map_subtype_val (r.inputs n), List.mapM_map]
  rfl

/-- Values of the kind of their name: reading gives them, and a combination of them is one. -/
structure Fits (fits : N ⊕ L → V → Prop) : Prop where
  read : ∀ l v, read l = .ok v → fits (.inr l) v
  combine : ∀ n vs, List.Forall₂ fits (r.inputs n) vs → ∃ v, combine n vs = .ok v ∧ fits (.inl n) v

variable {r combine read}

/-- A list of computations: all values, or the first error. -/
theorem mapM_cases {X : Type} {f : X → Except E V} {fits : X → V → Prop} {reads : X → Prop} {fails : X → E → Prop}
    {xs : List X} (h : ∀ x ∈ xs, (∃ v, f x = .ok v ∧ fits x v ∧ reads x) ∨ ∃ e, f x = .error e ∧ fails x e) :
    (∃ vs, xs.mapM f = .ok vs ∧ List.Forall₂ fits xs vs ∧ ∀ x ∈ xs, reads x) ∨
      ∃ x ∈ xs, ∃ e, xs.mapM f = .error e ∧ fails x e := by
  induction xs with
  | nil => exact .inl ⟨[], rfl, .nil, by simp⟩
  | cons x xs ih =>
    rw [List.mapM_cons]
    rcases h x List.mem_cons_self with ⟨v, hv, hfits, hreads⟩ | ⟨e, he, hfails⟩
    · rcases ih fun y hy => h y (List.mem_cons_of_mem _ hy) with ⟨vs, hvs, hall, hread⟩ | ⟨y, hy, e, he, hfails⟩
      · refine .inl ⟨v :: vs, ?_, .cons hfits hall, List.forall_mem_cons.mpr ⟨hreads, hread⟩⟩
        rw [hv, hvs]
        rfl
      · refine .inr ⟨y, List.mem_cons_of_mem _ hy, e, ?_, hfails⟩
        rw [hv, he]
        rfl
    · refine .inr ⟨x, List.mem_cons_self, e, ?_, hfails⟩
      rw [he]
      rfl

/-- A name has a value of its kind where all leaves below it are read; otherwise the error of one of them. -/
theorem eval_spec {fits : N ⊕ L → V → Prop} (h : r.Fits combine read fits) (x : N ⊕ L) :
    (∃ v, r.eval combine read x = .ok v ∧ fits x v ∧ ∀ l, r.Below l x → ∃ w, read l = .ok w) ∨
      ∃ e, r.eval combine read x = .error e ∧ ∃ l, r.Below l x ∧ read l = .error e := by
  induction x using r.induct with
  | leaf l =>
    rw [eval]
    cases hread : read l with
    | ok v =>
      refine .inl ⟨v, rfl, h.read l v hread, fun l' hl' => ?_⟩
      exact ⟨v, below_leaf_iff.mp hl' ▸ hread⟩
    | error e => exact .inr ⟨e, rfl, l, .leaf l, hread⟩
  | node n ih =>
    rw [eval_node]
    rcases mapM_cases ih with ⟨vs, hvs, hall, hreads⟩ | ⟨x, hx, e, he, l, hl, hread⟩
    · obtain ⟨v, hv, hfits⟩ := h.combine n vs hall
      refine .inl ⟨v, ?_, hfits, ?_⟩
      · rw [hvs]
        exact hv
      · intro l hl
        obtain ⟨x, hx, hbelow⟩ := below_node_iff.mp hl
        exact hreads x hx l hbelow
    · refine .inr ⟨e, ?_, l, .node hx hl, hread⟩
      rw [he]
      rfl

end Registry

end FinHub
