import Mathlib.Algebra.BigOperators.Group.List.Basic
import Mathlib.Algebra.Order.BigOperators.Group.List
import Mathlib.Algebra.Order.Group.Defs
import Mathlib.Algebra.Order.Group.MinMax
import Mathlib.Data.List.Induction
import Mathlib.Data.List.Perm.Subperm
import Mathlib.Data.List.Sort
import Mathlib.Order.Bounds.Basic
import Mathlib.Tactic.Abel

/-!
# FinHub.Lib.TopUp

A pool that is topped up from before all demands, whenever a demand is recorded that it cannot meet.

A demand is measured when it is recorded, at its own instant and against the demands recorded so far. A
demand may give back instead of taking.

* `run`: the demands of a list recorded in its order.
* `run_total_le_iff`: what an order tops up, by the measures of its demands.
* `settled_iff`: the order does not matter, and the pool holds no more and no less than the demands take,
  exactly where the demands agree.
-/

namespace FinHub.TopUp

/-- A demand on the pool. One that is not checked is taken without a measurement. -/
structure Demand (T A : Type) where
  time : T
  cost : A
  checked : Bool

/-- The demands recorded so far, what the pool was topped up by, and the demands linked to the top-up. -/
structure State (T A : Type) where
  recorded : List (Demand T A)
  total : A
  linked : List (Demand T A)

section Defs

variable {T A : Type} [LinearOrder T] [AddCommGroup A] [LinearOrder A]

/-- What a list of demands takes up to an instant. -/
def drawn (ds : List (Demand T A)) (t : T) : A :=
  (ds.map fun d => if d.time ≤ t then d.cost else 0).sum

def start : State T A := ⟨[], 0, []⟩

/-- What a demand lacks when it is recorded. `base` is what the pool holds without demands. -/
def lack (base : T → A) (st : State T A) (d : Demand T A) : A :=
  if d.checked then max 0 (d.cost - (base d.time + st.total - drawn st.recorded d.time)) else 0

def record (base : T → A) (st : State T A) (d : Demand T A) : State T A where
  recorded := d :: st.recorded
  total := st.total + lack base st d
  linked := if 0 < st.total + lack base st d then d :: st.linked else st.linked

def run (base : T → A) (ds : List (Demand T A)) : State T A := ds.foldl (record base) start

/-- What the demands before an instant take, each counted by `f`. -/
def before (f : A → A) (ds : List (Demand T A)) (t : T) : A :=
  (ds.map fun d => if d.time < t then f d.cost else 0).sum

/-- What the pool lacks with a demand, when `taken` is taken before it. -/
def deficit (base : T → A) (d : Demand T A) (taken : A) : A := d.cost + taken - base d.time

/-- What every order tops up: the largest deficit of a demand with only what is given back before it. -/
def floor (base : T → A) (ds : List (Demand T A)) : A :=
  (ds.map fun d => if d.checked then deficit base d (before (min 0) ds d.time) else 0).foldr max 0

/-- The pool covers a demand, where the demand is checked. -/
def Covered (base : T → A) (d : Demand T A) (taken : A) : Prop :=
  d.checked = true → deficit base d taken ≤ 0

/-- Demands that the pool covers in the order of their instants, and that let it cover one more. -/
structure Spares (base : T → A) (ds : List (Demand T A)) (d : Demand T A) (others : List (Demand T A)) :
    Prop where
  sub : (d :: others).Subperm ds
  each : ∀ e ∈ others, Covered base e (before id others e.time)
  last : Covered base d (before id others d.time)

/-- No demand lacks more in some order than every order tops up, the pool lacks no more than that in the
end, and if it is topped up at all, then for every demand. -/
structure Agree (base : T → A) (ds : List (Demand T A)) : Prop where
  most : ∀ d ∈ ds, d.checked = true → deficit base d (before (max 0) ds d.time) ≤ floor base ds
  last : ∀ d ∈ ds, deficit base d (before id ds d.time) ≤ floor base ds
  linked : floor base ds = 0 ∨ ∀ d others, ¬ Spares base ds d others

/-- Every order tops the pool up by the least total that leaves no deficit, and links the same demands. -/
structure Settled (base : T → A) (ds : List (Demand T A)) : Prop where
  least : ∀ l, l.Perm ds →
    IsLeast {x | 0 ≤ x ∧ ∀ d ∈ ds, deficit base d (before id ds d.time) ≤ x} (run base l).total
  linked : ∀ l, l.Perm ds → ∀ l', l'.Perm ds →
    ∀ d, d ∈ (run base l).linked ↔ d ∈ (run base l').linked

end Defs

/-- In demands at distinct instants, those at the instant of one of them are itself. -/
theorem time_ne_of_nodup {T A : Type} {d : Demand T A} {l₁ l₂ : List (Demand T A)}
    (h : ((l₁ ++ d :: l₂).map Demand.time).Nodup) : ∀ e ∈ l₁, e.time ≠ d.time := by
  intro e he heq
  rw [List.map_append, List.map_cons] at h
  have hdisjoint := List.disjoint_of_nodup_append h
  exact hdisjoint (heq ▸ List.mem_map_of_mem he) List.mem_cons_self

/-! ## What demands take -/

section Sums

variable {T A : Type} [LinearOrder T] [AddCommGroup A] {ds l l' : List (Demand T A)} {d : Demand T A} {t : T}
  {f g : A → A}

@[simp] theorem drawn_nil (t : T) : drawn ([] : List (Demand T A)) t = 0 := rfl

@[simp] theorem drawn_cons (d : Demand T A) (ds : List (Demand T A)) (t : T) :
    drawn (d :: ds) t = (if d.time ≤ t then d.cost else 0) + drawn ds t := List.sum_cons

@[simp] theorem before_nil (f : A → A) (t : T) : before f ([] : List (Demand T A)) t = 0 := rfl

@[simp] theorem before_cons (f : A → A) (d : Demand T A) (ds : List (Demand T A)) (t : T) :
    before f (d :: ds) t = (if d.time < t then f d.cost else 0) + before f ds t := List.sum_cons

theorem before_append (f : A → A) (l l' : List (Demand T A)) (t : T) :
    before f (l ++ l') t = before f l t + before f l' t := by
  unfold before
  rw [List.map_append, List.sum_append]

theorem drawn_perm (h : l.Perm l') (t : T) : drawn l t = drawn l' t := List.Perm.sum_eq (h.map _)

theorem before_perm (f : A → A) (h : l.Perm l') (t : T) : before f l t = before f l' t :=
  List.Perm.sum_eq (h.map _)

/-- At an instant without a demand, nothing is taken but what is taken before. -/
theorem drawn_eq_before (h : ∀ d ∈ ds, d.time ≠ t) : drawn ds t = before id ds t := by
  unfold drawn before
  refine congrArg List.sum (List.map_congr_left fun d hd => ?_)
  simp only [id_eq, le_iff_lt_or_eq, h d hd, or_false]

theorem before_congr (h : ∀ d ∈ ds, d.time < t → f d.cost = g d.cost) :
    before f ds t = before g ds t := by
  unfold before
  refine congrArg List.sum (List.map_congr_left fun d hd => ?_)
  split_ifs with hlt
  · exact h d hd hlt
  · rfl

theorem before_eq_zero (h : ∀ d ∈ ds, d.time < t → f d.cost = 0) : before f ds t = 0 := by
  unfold before
  refine List.sum_eq_zero fun x hx => ?_
  obtain ⟨d, hd, rfl⟩ := List.mem_map.mp hx
  split_ifs with hlt
  · exact h d hd hlt
  · rfl

/-- A demand of an order stands among the others. -/
theorem split_of_perm {l₁ l₂ : List (Demand T A)} (hl : l.Perm ds) (hdistinct : (ds.map Demand.time).Nodup)
    (heq : l = l₁ ++ d :: l₂) : d ∈ ds ∧ drawn l₁ d.time = before id l₁ d.time ∧
      ∀ f : A → A, before f ds d.time = before f l₁ d.time + before f l₂ d.time := by
  subst heq
  refine ⟨hl.mem_iff.mp (List.mem_append.mpr (.inr List.mem_cons_self)), ?_, fun f => ?_⟩
  · exact drawn_eq_before (time_ne_of_nodup ((hl.map Demand.time).nodup_iff.mpr hdistinct))
  · rw [← before_perm f hl, before_append, before_cons, if_neg (lt_irrefl _), zero_add]

/-- What is taken up to a demand, with the demand. -/
theorem drawn_of_mem (hdistinct : (ds.map Demand.time).Nodup) (hd : d ∈ ds) :
    drawn ds d.time = d.cost + before id ds d.time := by
  obtain ⟨l₁, l₂, rfl⟩ := List.append_of_mem hd
  have hmiddle : (l₁ ++ d :: l₂).Perm (d :: (l₁ ++ l₂)) := List.perm_middle
  have hnodup := (hmiddle.map Demand.time).nodup_iff.mp hdistinct
  have hother : ∀ e ∈ l₁ ++ l₂, e.time ≠ d.time := fun e he heq =>
    (List.nodup_cons.mp hnodup).1 (List.mem_map.mpr ⟨e, he, heq⟩)
  rw [drawn_perm hmiddle, before_perm id hmiddle, drawn_cons, if_pos le_rfl, drawn_eq_before hother,
    before_cons, if_neg (lt_irrefl _), zero_add]

end Sums

/-! ## What every order tops up -/

section Runs

variable {T A : Type} [LinearOrder T] [AddCommGroup A] [LinearOrder A] {ds l : List (Demand T A)}
  {base : T → A} {d : Demand T A} {x : A}

theorem floor_le_iff : floor base ds ≤ x ↔ 0 ≤ x ∧
    ∀ d ∈ ds, d.checked = true → deficit base d (before (min 0) ds d.time) ≤ x := by
  have hfold : ∀ values : List A, values.foldr max 0 ≤ x ↔ 0 ≤ x ∧ ∀ v ∈ values, v ≤ x := by
    intro values
    induction values with
    | nil => simp
    | cons v values ih =>
      rw [List.foldr_cons, max_le_iff, ih, List.forall_mem_cons]
      tauto
  unfold floor
  rw [hfold, List.forall_mem_map]
  refine and_congr_right fun hx => forall₂_congr fun d _ => ?_
  split_ifs with h
  · simp [h]
  · simp [h, hx]

theorem floor_nonneg (base : T → A) (ds : List (Demand T A)) : 0 ≤ floor base ds :=
  (floor_le_iff.mp le_rfl).1

/-! ## One demand -/

theorem lack_nonneg (base : T → A) (st : State T A) (d : Demand T A) : 0 ≤ lack base st d := by
  unfold lack
  split_ifs
  · exact le_max_left _ _
  · exact le_rfl

theorem total_record_of_unchecked (h : ¬ d.checked = true) (st : State T A) :
    (record base st d).total = st.total := by
  change st.total + lack base st d = _
  unfold lack
  rw [if_neg h, add_zero]

/-- What is given back, as a list of its own. -/
theorem before_given (l : List (Demand T A)) (t : T) :
    before id (l.filter fun d => decide (d.cost < 0)) t = before (min 0) l t := by
  induction l with
  | nil => rfl
  | cons d l ih =>
    rw [List.filter_cons, before_cons, ← ih]
    split_ifs with hneg hlt hlt
    · rw [before_cons, if_pos hlt, min_eq_right (of_decide_eq_true hneg).le, id]
    · rw [before_cons, if_neg hlt]
    · rw [min_eq_left (not_lt.mp fun h => hneg (decide_eq_true h)), zero_add]
    · rw [zero_add]

theorem run_append (base : T → A) (l l' : List (Demand T A)) :
    run base (l ++ l') = l'.foldl (record base) (run base l) := List.foldl_append

theorem run_concat (base : T → A) (l : List (Demand T A)) (d : Demand T A) :
    run base (l ++ [d]) = record base (run base l) d := run_append base l [d]

theorem run_recorded (base : T → A) (l : List (Demand T A)) : (run base l).recorded = l.reverse := by
  induction l using List.reverseRecOn with
  | nil => rfl
  | append_singleton l d ih =>
    rw [run_concat, List.reverse_append]
    exact congrArg (d :: ·) ih

/-- The linked demands are those after which the pool was topped up. -/
theorem mem_linked_run : d ∈ (run base l).linked ↔
    ∃ l₁ l₂, l = l₁ ++ d :: l₂ ∧ 0 < (run base (l₁ ++ [d])).total := by
  induction l using List.reverseRecOn with
  | nil =>
    refine iff_of_false List.not_mem_nil ?_
    rintro ⟨l₁, l₂, heq, -⟩
    exact List.append_ne_nil_of_right_ne_nil l₁ (List.cons_ne_nil d l₂) heq.symm
  | append_singleton l e ih =>
    have hstep : d ∈ (run base (l ++ [e])).linked ↔
        d = e ∧ 0 < (run base (l ++ [e])).total ∨ d ∈ (run base l).linked := by
      rw [run_concat]
      change d ∈ (if 0 < (record base (run base l) e).total then e :: (run base l).linked
        else (run base l).linked) ↔ _
      split_ifs with hpos
      · rw [List.mem_cons]
        exact or_congr_left (iff_self_and.mpr fun _ => hpos)
      · exact (or_iff_right fun h => hpos h.2).symm
    rw [hstep, ih]
    constructor
    · rintro (⟨rfl, hpos⟩ | ⟨l₁, l₂, rfl, hpos⟩)
      · exact ⟨l, [], rfl, hpos⟩
      · exact ⟨l₁, l₂ ++ [e], by rw [List.append_assoc, List.cons_append], hpos⟩
    · rintro ⟨l₁, l₂, heq, hpos⟩
      rcases List.eq_nil_or_concat l₂ with rfl | ⟨l₃, a, rfl⟩
      · obtain ⟨rfl, hlast⟩ := List.append_inj' heq rfl
        obtain rfl : e = d := List.singleton_inj.mp hlast
        exact .inl ⟨rfl, hpos⟩
      · rw [List.concat_eq_append, ← List.cons_append, ← List.append_assoc] at heq
        exact .inr ⟨l₁, l₃, (List.append_inj' heq rfl).1, hpos⟩

/-- The first of two demands in an order that measures no demand with more than it has to. -/
def Ahead (a b : Demand T A) : Prop :=
  (a.cost ≤ 0 ∨ b.time < a.time) ∧ (0 ≤ b.cost ∨ a.time < b.time)

/-- What gives back comes first, from the earliest on, and what takes follows from the latest on. -/
theorem exists_ahead (hdistinct : (ds.map Demand.time).Nodup) :
    ∃ l : List (Demand T A), l.Perm ds ∧ l.Pairwise Ahead := by
  let given := ds.filter fun d => decide (d.cost < 0)
  let taken := ds.filter fun d => !decide (d.cost < 0)
  have hgiven := List.perm_insertionSort (fun a b : Demand T A => a.time ≤ b.time) given
  have htaken := List.perm_insertionSort (fun a b : Demand T A => b.time ≤ a.time) taken
  have hneg : ∀ d ∈ given.insertionSort fun a b => a.time ≤ b.time, d.cost < 0 := fun d hd =>
    of_decide_eq_true (List.mem_filter.mp (hgiven.mem_iff.mp hd)).2
  have hpos : ∀ d ∈ taken.insertionSort fun a b => b.time ≤ a.time, 0 ≤ d.cost := fun d hd => by
    have hnot := (List.mem_filter.mp (htaken.mem_iff.mp hd)).2
    simpa using hnot
  have hne : ∀ (p : Demand T A → Bool) (l : List (Demand T A)), l.Perm (ds.filter p) →
      l.Pairwise fun a b => a.time ≠ b.time := fun p l hl => List.pairwise_map.mp
    ((hl.map Demand.time).nodup_iff.mpr (hdistinct.sublist (List.filter_sublist.map _)))
  refine ⟨_, (hgiven.append htaken).trans (List.filter_append_perm _ ds),
    List.pairwise_append.mpr ⟨?_, ?_, ?_⟩⟩
  · have hsorted := List.pairwise_insertionSort (fun a b : Demand T A => a.time ≤ b.time) given
    refine (hsorted.and (hne _ _ hgiven)).imp_of_mem fun ha _ h => ?_
    exact ⟨.inl (hneg _ ha).le, .inr (lt_of_le_of_ne h.1 h.2)⟩
  · have hsorted := List.pairwise_insertionSort (fun a b : Demand T A => b.time ≤ a.time) taken
    refine (hsorted.and (hne _ _ htaken)).imp_of_mem fun _ hb h => ?_
    exact ⟨.inr (lt_of_le_of_ne h.1 h.2.symm), .inl (hpos _ hb)⟩
  · exact fun a ha b hb => ⟨.inl (hneg a ha).le, .inl (hpos b hb)⟩

theorem linked_subset (base : T → A) (l : List (Demand T A)) : (run base l).linked ⊆ l := by
  intro d hd
  obtain ⟨l₁, l₂, rfl, -⟩ := mem_linked_run.mp hd
  exact List.mem_append.mpr (.inr List.mem_cons_self)

/-- In demands at distinct instants, the linked ones are known by their instants. -/
theorem mem_linked_iff_time (hdistinct : (l.map Demand.time).Nodup) : d ∈ (run base l).linked ↔
    d ∈ l ∧ d.time ∈ (run base l).linked.map Demand.time := by
  constructor
  · exact fun hd => ⟨linked_subset base l hd, List.mem_map_of_mem hd⟩
  · rintro ⟨hd, ht⟩
    obtain ⟨e, he, heq⟩ := List.mem_map.mp ht
    obtain rfl := List.inj_on_of_nodup_map hdistinct (linked_subset base l he) hd heq
    exact he

end Runs

/-! ## Measures -/

theorem deficit_le_deficit {T A : Type} [AddCommGroup A] [LinearOrder A] [IsOrderedAddMonoid A] {base : T → A}
    {d : Demand T A} {taken taken' : A} (h : taken ≤ taken') : deficit base d taken ≤ deficit base d taken' :=
  sub_le_sub_right (add_le_add_right h d.cost) (base d.time)

section Measures

variable {T A : Type} [LinearOrder T] [AddCommGroup A] [LinearOrder A] [IsOrderedAddMonoid A]
  {ds l : List (Demand T A)} {base : T → A} {d : Demand T A} {t : T} {x : A}

/-- A checked demand leaves the pool with the larger of its total and the deficit that was measured. -/
theorem total_record (h : d.checked = true) (st : State T A) : (record base st d).total =
    max st.total (deficit base d (drawn st.recorded d.time)) := by
  have hsub : st.total + (d.cost - (base d.time + st.total - drawn st.recorded d.time)) =
      deficit base d (drawn st.recorded d.time) := by
    unfold deficit
    abel
  change st.total + lack base st d = _
  unfold lack
  rw [if_pos h, ← max_add_add_left, add_zero, hsub]

/-- An order tops up the largest deficit that is measured in it. -/
theorem run_total_le_iff (hx : 0 ≤ x) : (run base l).total ≤ x ↔
    ∀ l₁ d l₂, l = l₁ ++ d :: l₂ → d.checked = true → deficit base d (drawn l₁ d.time) ≤ x := by
  induction l using List.reverseRecOn with
  | nil =>
    refine iff_of_true hx fun l₁ d l₂ heq => ?_
    exact absurd heq.symm (List.append_ne_nil_of_right_ne_nil l₁ (List.cons_ne_nil d l₂))
  | append_singleton l e ih =>
    have hstep : (run base (l ++ [e])).total ≤ x ↔
        (run base l).total ≤ x ∧ (e.checked = true → deficit base e (drawn l e.time) ≤ x) := by
      rw [run_concat]
      by_cases hchecked : e.checked = true
      · rw [total_record hchecked, max_le_iff, run_recorded, drawn_perm l.reverse_perm]
        exact and_congr_right fun _ => ⟨fun h _ => h, fun h => h hchecked⟩
      · rw [total_record_of_unchecked hchecked]
        exact (and_iff_left fun h => absurd h hchecked).symm
    rw [hstep, ih]
    constructor
    · rintro ⟨hfirst, hlast⟩ l₁ d l₂ heq
      rcases List.eq_nil_or_concat l₂ with rfl | ⟨l₃, a, rfl⟩
      · obtain ⟨rfl, hlast'⟩ := List.append_inj' heq rfl
        obtain rfl : e = d := List.singleton_inj.mp hlast'
        exact hlast
      · rw [List.concat_eq_append, ← List.cons_append, ← List.append_assoc] at heq
        exact hfirst l₁ d l₃ (List.append_inj' heq rfl).1
    · intro h
      constructor
      · rintro l₁ d l₂ rfl
        exact h l₁ d (l₂ ++ [e]) (by rw [List.append_assoc, List.cons_append])
      · exact h l e [] rfl

theorem run_total_nonneg (base : T → A) (l : List (Demand T A)) : 0 ≤ (run base l).total := by
  induction l using List.reverseRecOn with
  | nil => exact le_rfl
  | append_singleton l d ih =>
    rw [run_concat]
    exact add_nonneg ih (lack_nonneg base _ d)

/-- The deficit of a demand, as it is measured in an order. -/
theorem deficit_le_run {l₁ l₂ : List (Demand T A)} (h : d.checked = true) :
    deficit base d (drawn l₁ d.time) ≤ (run base (l₁ ++ d :: l₂)).total :=
  (run_total_le_iff (run_total_nonneg base _)).mp le_rfl l₁ d l₂ rfl h

theorem before_mono {f g : A → A} (h : ∀ x, f x ≤ g x) (l : List (Demand T A)) (t : T) :
    before f l t ≤ before g l t := by
  refine List.sum_le_sum fun d _ => ?_
  split_ifs
  · exact h d.cost
  · exact le_rfl

theorem before_min_le (l : List (Demand T A)) (t : T) : before (min 0) l t ≤ 0 :=
  (before_mono (fun x => min_le_left 0 x) l t).trans_eq (before_eq_zero fun _ _ _ => rfl)

theorem le_before_max (l : List (Demand T A)) (t : T) : 0 ≤ before (max 0) l t :=
  (before_eq_zero fun _ _ _ => rfl).symm.trans_le (before_mono (fun x => le_max_left 0 x) l t)

end Measures

/-! ## Orders -/

section Orders

variable {T A : Type} [LinearOrder T] [AddCommGroup A] [LinearOrder A] [IsOrderedAddMonoid A]
  {ds l : List (Demand T A)} {base : T → A} {d : Demand T A} {x : A}

/-- No order tops up less than the floor. -/
theorem floor_le_run (hl : l.Perm ds) (hdistinct : (ds.map Demand.time).Nodup) :
    floor base ds ≤ (run base l).total := by
  refine floor_le_iff.mpr ⟨run_total_nonneg base l, fun d hd hchecked => ?_⟩
  obtain ⟨l₁, l₂, heq⟩ := List.append_of_mem (hl.mem_iff.mpr hd)
  obtain ⟨-, hdrawn, hbefore⟩ := split_of_perm hl hdistinct heq
  have hle : before (min 0) ds d.time ≤ drawn l₁ d.time := by
    rw [hdrawn, hbefore]
    exact (add_le_of_nonpos_right (before_min_le _ _)).trans (before_mono (fun _ => min_le_right _ _) _ _)
  rw [heq]
  exact (deficit_le_deficit hle).trans (deficit_le_run hchecked)

/-- No order tops up more than what bounds the demands with all that is taken before them. -/
theorem run_le_of_most (hl : l.Perm ds) (hdistinct : (ds.map Demand.time).Nodup) (hx : 0 ≤ x)
    (h : ∀ d ∈ ds, d.checked = true → deficit base d (before (max 0) ds d.time) ≤ x) :
    (run base l).total ≤ x := by
  refine (run_total_le_iff hx).mpr fun l₁ d l₂ heq hchecked => ?_
  obtain ⟨hd, hdrawn, hbefore⟩ := split_of_perm hl hdistinct heq
  refine (deficit_le_deficit ?_).trans (h d hd hchecked)
  rw [hdrawn, hbefore]
  exact (before_mono (fun _ => le_max_right _ _) _ _).trans (le_add_of_nonneg_right (le_before_max _ _))

/-- One order measures a demand with all that is taken before it, and nothing that is given back. -/
theorem exists_most (hdistinct : (ds.map Demand.time).Nodup) (hd : d ∈ ds) (hchecked : d.checked = true) :
    ∃ l, l.Perm ds ∧ deficit base d (before (max 0) ds d.time) ≤ (run base l).total := by
  obtain ⟨l₁, l₂, rfl⟩ := List.append_of_mem hd
  let taken := (l₁ ++ l₂).filter fun e => 0 ≤ e.cost
  let given := (l₁ ++ l₂).filter fun e => !decide (0 ≤ e.cost)
  have hperm : (taken ++ d :: given).Perm (l₁ ++ d :: l₂) :=
    List.perm_middle.trans (((List.filter_append_perm _ _).cons d).trans List.perm_middle.symm)
  refine ⟨_, hperm, (deficit_le_deficit ?_).trans (deficit_le_run hchecked)⟩
  obtain ⟨-, hdrawn, hbefore⟩ := split_of_perm hperm hdistinct rfl
  have htaken : before (max 0) taken d.time = before id taken d.time :=
    before_congr fun e he _ => max_eq_right (of_decide_eq_true (List.mem_filter.mp he).2)
  have hgiven : before (max 0) given d.time = 0 := before_eq_zero fun e he _ => by
    have hneg := (List.mem_filter.mp he).2
    simp only [Bool.not_eq_true', decide_eq_false_iff_not, not_le] at hneg
    exact max_eq_left hneg.le
  rw [hdrawn, hbefore, htaken, hgiven, add_zero]

/-- One order tops up the floor. -/
theorem exists_floor (hdistinct : (ds.map Demand.time).Nodup) :
    ∃ l, l.Perm ds ∧ (run base l).total = floor base ds := by
  obtain ⟨l, hl, hahead⟩ := exists_ahead hdistinct
  refine ⟨l, hl, le_antisymm ((run_total_le_iff (floor_nonneg base ds)).mpr fun l₁ d l₂ heq hchecked => ?_)
    (floor_le_run hl hdistinct)⟩
  obtain ⟨hd, hdrawn, hbefore⟩ := split_of_perm hl hdistinct heq
  rw [heq, List.pairwise_append, List.pairwise_cons] at hahead
  obtain ⟨-, ⟨hlater, -⟩, hfirst⟩ := hahead
  have htaken : before id l₁ d.time = before (min 0) l₁ d.time := before_congr fun e he hlt =>
    (min_eq_right ((hfirst e he d List.mem_cons_self).1.resolve_right (not_lt.mpr hlt.le))).symm
  have hrest : before (min 0) l₂ d.time = 0 := before_eq_zero fun e he hlt =>
    min_eq_left ((hlater e he).2.resolve_right (not_lt.mpr hlt.le))
  have hmeasured : drawn l₁ d.time = before (min 0) ds d.time := by
    rw [hdrawn, hbefore, htaken, hrest, add_zero]
  rw [hmeasured]
  exact (floor_le_iff.mp le_rfl).2 d hd hchecked

/-! ## The linked demands -/

theorem run_total_mono (base : T → A) (l l' : List (Demand T A)) :
    (run base l).total ≤ (run base (l ++ l')).total := by
  refine (run_total_le_iff (run_total_nonneg base _)).mpr ?_
  rintro l₁ d l₂ rfl hchecked
  rw [List.append_assoc, List.cons_append]
  exact deficit_le_run hchecked

/-- Demands that spare one are recorded before it without a top-up. -/
theorem Spares.exists_order {others : List (Demand T A)} (h : Spares base ds d others)
    (hdistinct : (ds.map Demand.time).Nodup) :
    ∃ l rest, (l ++ d :: rest).Perm ds ∧ (run base (l ++ [d])).total ≤ 0 := by
  obtain ⟨found, hfound, hsub⟩ := h.sub
  obtain ⟨rest, hrest⟩ := hsub.exists_perm_append
  let l := others.insertionSort fun a b => a.time ≤ b.time
  have hl : l.Perm others := List.perm_insertionSort _ others
  have hwhole : (l ++ d :: rest).Perm ds := by
    refine List.perm_middle.trans (List.Perm.trans ?_ hrest.symm)
    exact ((hl.cons d).trans hfound.symm).append_right rest
  have hnodup := (hwhole.map Demand.time).nodup_iff.mpr hdistinct
  have hothers : (others.map Demand.time).Nodup := (hl.map Demand.time).nodup_iff.mp
    (hnodup.sublist ((List.sublist_append_left l (d :: rest)).map _))
  refine ⟨l, rest, hwhole, (run_total_le_iff le_rfl).mpr fun l₁ e l₂ heq hchecked => ?_⟩
  rcases List.eq_nil_or_concat l₂ with rfl | ⟨l₃, a, rfl⟩
  · obtain ⟨rfl, hlast⟩ := List.append_inj' heq rfl
    obtain rfl : d = e := List.singleton_inj.mp hlast
    rw [drawn_eq_before (time_ne_of_nodup hnodup), before_perm id hl]
    exact h.last hchecked
  · rw [List.concat_eq_append, ← List.cons_append, ← List.append_assoc] at heq
    obtain ⟨he, hdrawn, hbefore⟩ := split_of_perm hl hothers (List.append_inj' heq rfl).1
    -- What follows in the order lies after the demand.
    have hlater : before id l₃ e.time = 0 := before_eq_zero fun f hf hlt => by
      have hsorted : l.Pairwise fun a b => a.time ≤ b.time := List.pairwise_insertionSort _ others
      rw [(List.append_inj' heq rfl).1, List.pairwise_append, List.pairwise_cons] at hsorted
      exact absurd hlt (not_lt.mpr (hsorted.2.1.1 f hf))
    have hmeasured : drawn l₁ e.time = before id others e.time := by
      rw [hdrawn, hbefore, hlater, add_zero]
    rw [hmeasured]
    exact h.each e he hchecked

/-- A demand after which nothing was topped up is spared by what gives back before it. -/
theorem spares_of_total {l₁ l₂ : List (Demand T A)} (hl : (l₁ ++ d :: l₂).Perm ds)
    (hdistinct : (ds.map Demand.time).Nodup) (htotal : (run base (l₁ ++ [d])).total ≤ 0) :
    Spares base ds d (l₁.filter fun e => decide (e.cost < 0)) := by
  have hnodup := (hl.map Demand.time).nodup_iff.mpr hdistinct
  have hmeasured := (run_total_le_iff le_rfl).mp htotal
  constructor
  · refine List.Subperm.trans ?_ hl.subperm
    refine List.Subperm.trans ?_ List.perm_middle.symm.subperm
    exact ((List.filter_sublist.trans (List.sublist_append_left l₁ l₂)).cons_cons d).subperm
  · intro e he hchecked
    obtain ⟨a, b, rfl⟩ := List.append_of_mem (List.mem_filter.mp he).1
    rw [List.append_assoc, List.cons_append] at hmeasured hnodup
    refine (deficit_le_deficit ?_).trans (hmeasured a e (b ++ [d]) rfl hchecked)
    rw [before_given, before_append, before_cons, if_neg (lt_irrefl _), zero_add,
      drawn_eq_before (time_ne_of_nodup hnodup)]
    exact (add_le_of_nonpos_right (before_min_le _ _)).trans (before_mono (fun _ => min_le_right _ _) _ _)
  · intro hchecked
    refine (deficit_le_deficit ?_).trans (hmeasured l₁ d [] rfl hchecked)
    rw [drawn_eq_before (time_ne_of_nodup hnodup), before_given]
    exact before_mono (fun _ => min_le_right _ _) _ _

/-- The order does not matter exactly where the demands agree. -/
theorem settled_iff (hdistinct : (ds.map Demand.time).Nodup) : Settled base ds ↔ Agree base ds := by
  have hnodup : ds.Nodup := List.Nodup.of_map Demand.time hdistinct
  constructor
  · intro hsettled
    obtain ⟨l, hl, htotal⟩ : ∃ l, l.Perm ds ∧ (run base l).total = floor base ds := exists_floor hdistinct
    have hleast := hsettled.least l hl
    rw [htotal] at hleast
    have hsame : ∀ l', l'.Perm ds → (run base l').total = floor base ds := fun l' hl' =>
      (hsettled.least l' hl').unique hleast
    refine ⟨fun d hd hchecked => ?_, hleast.1.2, ?_⟩
    · obtain ⟨l', hl', hmost⟩ := exists_most hdistinct hd hchecked
      exact hmost.trans (hsame l' hl').le
    · refine or_iff_not_imp_left.mpr fun hfloor d others hspares => ?_
      obtain ⟨l₁, rest, hfirst, hzero⟩ := hspares.exists_order hdistinct
      have hlast : ((l₁ ++ rest) ++ [d]).Perm ds :=
        (List.perm_append_singleton d _).trans (List.perm_middle.symm.trans hfirst)
      -- Recorded last, the demand is linked.
      have hlinked : d ∈ (run base ((l₁ ++ rest) ++ [d])).linked := mem_linked_run.mpr
        ⟨l₁ ++ rest, [], rfl, by
          rw [hsame _ hlast]
          exact lt_of_le_of_ne (floor_nonneg base ds) (Ne.symm hfloor)⟩
      obtain ⟨l₂, rest', heq, hpos⟩ := mem_linked_run.mp ((hsettled.linked _ hlast _ hfirst d).mp hlinked)
      have honce := hfirst.nodup_iff.mpr hnodup
      rw [List.nodup_middle, List.nodup_cons, List.mem_append, not_or] at honce
      obtain ⟨rfl, -, -⟩ := (List.append_cons_inj_of_notMem honce.1.1 honce.1.2).mp heq
      exact absurd hpos (not_lt.mpr hzero)
  · intro hagree
    have htotal : ∀ l, l.Perm ds → (run base l).total = floor base ds := fun l hl =>
      le_antisymm (run_le_of_most hl hdistinct (floor_nonneg base ds) hagree.most) (floor_le_run hl hdistinct)
    constructor
    · intro l hl
      rw [htotal l hl]
      refine ⟨⟨floor_nonneg base ds, hagree.last⟩, fun x hx => ?_⟩
      refine floor_le_iff.mpr ⟨hx.1, fun d hd _ => ?_⟩
      exact (deficit_le_deficit (before_mono (fun _ => min_le_right _ _) _ _)).trans (hx.2 d hd)
    · have hlinked : ∀ l, l.Perm ds → ∀ d, d ∈ (run base l).linked ↔ floor base ds ≠ 0 ∧ d ∈ ds := by
        intro l hl d
        rw [mem_linked_run]
        constructor
        · rintro ⟨l₁, l₂, rfl, hpos⟩
          refine ⟨fun hfloor => ?_, hl.mem_iff.mp (List.mem_append.mpr (.inr List.mem_cons_self))⟩
          have hmono := run_total_mono base (l₁ ++ [d]) l₂
          rw [List.append_assoc, List.singleton_append, htotal _ hl, hfloor] at hmono
          exact absurd hpos (not_lt.mpr hmono)
        · rintro ⟨hfloor, hd⟩
          obtain ⟨l₁, l₂, rfl⟩ := List.append_of_mem (hl.mem_iff.mpr hd)
          refine ⟨l₁, l₂, rfl, not_le.mp fun hzero => ?_⟩
          exact hagree.linked.resolve_left hfloor d _ (spares_of_total hl hdistinct hzero)
      intro l hl l' hl' d
      rw [hlinked l hl, hlinked l' hl']

/-- A single demand that the pool cannot meet agrees. -/
theorem agree_singleton (hchecked : d.checked = true) (hshort : base d.time < d.cost) : Agree base [d] := by
  have hbefore : ∀ f : A → A, before f [d] d.time = 0 := fun f => by
    rw [before_cons, if_neg (lt_irrefl _), before_nil, add_zero]
  have hfloor : deficit base d 0 ≤ floor base [d] := by
    rw [← hbefore (min 0)]
    exact (floor_le_iff.mp le_rfl).2 d List.mem_cons_self hchecked
  refine ⟨List.forall_mem_singleton.mpr fun _ => (hbefore _).symm ▸ hfloor,
    List.forall_mem_singleton.mpr ((hbefore _).symm ▸ hfloor), .inr fun e others hspares => ?_⟩
  have hlength : others = [] := List.length_eq_zero_iff.mp (Nat.le_zero.mp (Nat.succ_le_succ_iff.mp
    hspares.sub.length_le))
  subst hlength
  obtain rfl : e = d := List.mem_singleton.mp (hspares.sub.subset List.mem_cons_self)
  have hlast := hspares.last hchecked
  unfold deficit at hlast
  rw [before_nil, add_zero, sub_nonpos] at hlast
  exact absurd hshort (not_lt.mpr hlast)

end Orders

end FinHub.TopUp
