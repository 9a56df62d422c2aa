import FinHub.Lib.Checkpoint
import FinHub.Lib.RunningFloor
import Mathlib.Order.BoundedOrder.Basic
import Mathlib.Order.Lattice

/-!
# FinHub.Lib.Backfill

A level rebuilt in one pass over dated entries. An entry either states the level or moves it; what is
missing at an entry is written down at the entry's place, an instant before the entry.

* `levelAfter`, `written`: the pass, and what it writes down.
* `closing`: the level at the end, from the entries alone: the level stated last, the moves after it and
  what the draining ones among these lack.
* `levelAfter_eq_closing`: the pass ends at the closing level.
* `sumOn_rebuilt`: the moves and what was written for them, added up over the instants before some cut:
  the closing level of all the entries placed before the cut, less the moves that are not.
-/

namespace FinHub.Backfill

open Checkpoint RunningFloor

variable {T A : Type}

inductive Entry (T A : Type) where
  | states (time place : T) (level : A)
  | moves (time place : T) (flow : A) (drains : Bool)

namespace Entry

def time : Entry T A → T
  | states t _ _ | moves t _ _ _ => t

def place : Entry T A → T
  | states _ p _ | moves _ p _ _ => p

def drains : Entry T A → Bool
  | states _ _ _ => false
  | moves _ _ _ d => d

def flow [Zero A] : Entry T A → A
  | states _ _ _ => 0
  | moves _ _ v _ => v

end Entry

variable [AddCommGroup A] [LinearOrder A]

/-! ## The pass -/

/-- What is missing at an entry: the way to the stated level, or what a draining move lacks. -/
def lack (level : A) : Entry T A → A
  | .states _ _ stated => stated - level
  | .moves _ _ flow drains => if drains && decide (level + flow < 0) then -(level + flow) else 0

def next (level : A) (e : Entry T A) : A := level + lack level e + e.flow

def levelAfter (level : A) (es : List (Entry T A)) : A := es.foldl next level

def written : A → List (Entry T A) → List (T × A)
  | _, [] => []
  | level, e :: es => (e.place, lack level e) :: written (next level e) es

/-- The moves of the entries, each at its instant. -/
def flows (es : List (Entry T A)) : List (T × A) := es.map fun e => (e.time, e.flow)

variable {level : A} {e : Entry T A} {es es' : List (Entry T A)}

theorem lack_moves {time place : T} {flow : A} {drains : Bool} :
    lack level (.moves time place flow drains) =
      if drains = true ∧ level + flow < 0 then -(level + flow) else 0 := by
  simp only [lack, Bool.and_eq_true, decide_eq_true_eq]

theorem levelAfter_append : levelAfter level (es ++ es') = levelAfter (levelAfter level es) es' :=
  List.foldl_append

theorem flows_append : flows (es ++ es') = flows es ++ flows es' := List.map_append

theorem written_append : written level (es ++ es') = written level es ++ written (levelAfter level es) es' := by
  induction es generalizing level with
  | nil => rfl
  | cons e es ih =>
    rw [List.cons_append, written, ih, written, List.cons_append]
    rfl

theorem place_of_mem_written {m : T × A} (hm : m ∈ written level es) : ∃ e ∈ es, m.1 = e.place := by
  induction es generalizing level with
  | nil => cases hm
  | cons e es ih =>
    rcases List.mem_cons.mp hm with rfl | hm
    · exact ⟨e, List.mem_cons_self, rfl⟩
    · obtain ⟨e', he', hplace⟩ := ih hm
      exact ⟨e', List.mem_cons_of_mem _ he', hplace⟩

/-- Of entries that are all seen, the cut counts what was written and the moves that it does not leave
for later. -/
theorem sumOn_of_seen {q : T → Bool} (h : ∀ e ∈ es, q e.place = true) :
    sumOn (flows es) q + sumOn (written level es) q =
      levelAfter level es - level - sumOn (flows es) fun t => !q t := by
  induction es generalizing level with
  | nil => simp [sumOn, flows, written, levelAfter]
  | cons e es ih =>
    have hrest : sumOn (flows es) q + sumOn (written (next level e) es) q =
        levelAfter (next level e) es - next level e - sumOn (flows es) fun t => !q t :=
      ih fun e' he' => h e' (List.mem_cons_of_mem _ he')
    have hnext : next level e = level + lack level e +
        ((if q e.time then e.flow else 0) + if !q e.time then e.flow else 0) := by
      rw [next]
      cases q e.time <;> simp
    have hlast : levelAfter level (e :: es) = levelAfter (next level e) es := rfl
    simp only [sumOn, flows, written, List.map_cons, List.sum_cons, h e List.mem_cons_self, if_true] at hrest ⊢
    rw [hlast, add_add_add_comm, hrest, hnext]
    abel

/-! ## The closing level -/

/-- The level stated last and the entries after it, one entry on. -/
def resume (acc : A × List (Entry T A)) : Entry T A → A × List (Entry T A)
  | .states _ _ stated => (stated, [])
  | .moves time place flow drains => (acc.1, acc.2 ++ [.moves time place flow drains])

def lastStated (level : A) (es : List (Entry T A)) : A × List (Entry T A) := es.foldl resume (level, [])

/-- The level stated last, the moves after it and what the draining ones among these lack. -/
def closing (level : A) (es : List (Entry T A)) : A :=
  let last := lastStated level es
  last.1 + (last.2.map Entry.flow).sum + deepest Entry.flow Entry.drains last.1 last.2

omit [AddCommGroup A] [LinearOrder A] in
theorem lastStated_append : lastStated level (es ++ [e]) = resume (lastStated level es) e :=
  List.foldl_append

/-- The first part of the walk is the level without any top-up. -/
theorem walk_fst (low : A) :
    (es.foldl (walk Entry.flow Entry.drains) (level, low)).1 = level + (es.map Entry.flow).sum := by
  induction es generalizing level low with
  | nil => exact (add_zero level).symm
  | cons e es ih =>
    rw [List.foldl_cons, List.map_cons, List.sum_cons, ← add_assoc]
    exact ih _

theorem deepest_append : deepest Entry.flow Entry.drains level (es ++ [e]) =
    if e.drains then max (deepest Entry.flow Entry.drains level es) (-(level + (es.map Entry.flow).sum + e.flow))
    else deepest Entry.flow Entry.drains level es := by
  unfold deepest
  rw [List.foldl_append, List.foldl_cons, List.foldl_nil, walk, walk_fst]

variable [IsOrderedAddMonoid A]

/-- One entry on, the closing level takes the step of the pass. -/
theorem closing_append : closing level (es ++ [e]) = next (closing level es) e := by
  unfold closing next
  rw [lastStated_append]
  obtain ⟨stated, tail⟩ := lastStated level es
  cases e with
  | states time place level =>
    simp only [resume, lack, Entry.flow, List.map_nil, List.sum_nil, add_zero, deepest, List.foldl_nil]
    abel
  | moves time place flow drains =>
    simp only [resume, deepest_append, Entry.flow, Entry.drains, List.map_append, List.map_cons, List.map_nil,
      List.sum_append, List.sum_cons, List.sum_nil, add_zero]
    rw [lack_moves]
    cases drains with
    | false =>
      simp only [Bool.false_eq_true, false_and, if_false]
      abel
    | true =>
      simp only [true_and, if_true]
      have hshort : stated + (tail.map Entry.flow).sum + deepest Entry.flow Entry.drains stated tail + flow < 0 ↔
          deepest Entry.flow Entry.drains stated tail < -(stated + (tail.map Entry.flow).sum + flow) := by
        rw [lt_neg_iff_add_neg, add_right_comm, add_comm (deepest _ _ _ _)]
      by_cases hlt : deepest Entry.flow Entry.drains stated tail < -(stated + (tail.map Entry.flow).sum + flow)
      · rw [max_eq_right hlt.le, if_pos (hshort.mpr hlt)]
        abel
      · rw [max_eq_left (not_lt.mp hlt), if_neg (hshort.not.mpr hlt)]
        abel

theorem levelAfter_eq_closing : levelAfter level es = closing level es := by
  induction es using List.reverseRecOn with
  | nil => simp [levelAfter, closing, lastStated, deepest]
  | append_singleton es e ih => rw [levelAfter_append, ih, closing_append]; rfl

/-! ## What a cut counts -/

section Cut

variable [Preorder T] {q : T → Bool}

/-- Entries in the order of their places, each after its place. -/
structure Dated (es : List (Entry T A)) : Prop where
  ordered : es.Pairwise fun e e' => e.place ≤ e'.place
  before : ∀ e ∈ es, e.place ≤ e.time

/-- Whatever is before an instant that the cut counts, it counts too. -/
def IsCut (q : T → Bool) : Prop := ∀ t u, t ≤ u → q u = true → q t = true

/-- The entries whose place the cut counts come first. -/
theorem Dated.seen_append (h : Dated es) (hq : IsCut q) :
    (es.filter fun e => q e.place) ++ (es.filter fun e => !q e.place) = es := by
  have hordered := h.ordered
  clear h
  induction es with
  | nil => rfl
  | cons e es ih =>
    obtain ⟨hhead, htail⟩ := List.pairwise_cons.mp hordered
    cases he : q e.place with
    | true =>
      rw [List.filter_cons, List.filter_cons, if_pos he, if_neg (by rw [he]; exact Bool.false_ne_true), List.cons_append,
        ih htail]
    | false =>
      -- nothing placed later is counted
      have hnone : (es.filter fun e => q e.place) = [] := by
        rw [List.filter_eq_nil_iff]
        intro e' he' hcounted
        rw [hq _ _ (hhead e' he') hcounted] at he
        cases he
      have hrest := ih htail
      rw [hnone, List.nil_append] at hrest
      rw [List.filter_cons, List.filter_cons, if_neg (by rw [he]; exact Bool.false_ne_true), if_pos (by rw [he]; rfl),
        hnone, hrest, List.nil_append]

/-- What the cut counts of the moves and of what was written for them. -/
theorem sumOn_rebuilt (h : Dated es) (hq : IsCut q) :
    sumOn (flows es) q + sumOn (written level es) q =
      closing level (es.filter fun e => q e.place) - level -
        sumOn (flows (es.filter fun e => q e.place)) fun t => !q t := by
  have hlater : ∀ e ∈ es.filter fun e => !q e.place, q e.time = false ∧ q e.place = false := by
    intro e he
    obtain ⟨hmem, hunseen⟩ := List.mem_filter.mp he
    have hplace : q e.place = false := by simpa using hunseen
    refine ⟨?_, hplace⟩
    by_contra htime
    rw [hq _ _ (h.before e hmem) (by simpa using htime)] at hplace
    cases hplace
  have hflows : sumOn (flows (es.filter fun e => !q e.place)) q = 0 := by
    refine sumOn_eq_zero fun m hm => ?_
    obtain ⟨e, he, rfl⟩ := List.mem_map.mp hm
    exact (hlater e he).1
  have hwritten : ∀ level, sumOn (written level (es.filter fun e => !q e.place)) q = 0 := by
    intro level
    refine sumOn_eq_zero fun m hm => ?_
    obtain ⟨e, he, hplace⟩ := place_of_mem_written hm
    rw [hplace]
    exact (hlater e he).2
  conv_lhs => rw [← h.seen_append hq]
  rw [flows_append, written_append, sumOn_append, sumOn_append, hflows, hwritten, add_zero, add_zero,
    ← levelAfter_eq_closing]
  exact sumOn_of_seen fun e he => (List.mem_filter.mp he).2

end Cut

end FinHub.Backfill
