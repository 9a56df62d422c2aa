import FinHub.Lib.Trace
import Mathlib.Algebra.Order.Group.Defs

/-!
# FinHub.Lib.TimedCache

One value that is fetched anew once it is too old.

A look-up is served from the cache while the value is younger than `ttl`, and from the source otherwise; a fetch that
fails leaves the cache alone. `after_eq`: after every run the cache holds the last fetch that succeeded.
-/

namespace FinHub

open Trace

/-- A look-up: when it starts, what the source would answer, and when that is stored. -/
structure Lookup (K α : Type) where
  now : K
  answer : Option α
  done : K

structure TimedCache (K α : Type) where
  fetchedAt : K
  value : Option α

namespace TimedCache

variable {K α : Type}

/-- The cache after a fetch. -/
def ofFetch [Zero K] : Option (Lookup K α) → TimedCache K α
  | some l => ⟨l.done, l.answer⟩
  | none => ⟨0, none⟩

variable [AddGroup K] [LinearOrder K] (ttl : K)

/-- The value, while it is young. -/
def hit (c : TimedCache K α) (now : K) : Option α := c.value.filter fun _ => decide (now - c.fetchedAt < ttl)

/-- What a look-up is answered. -/
def serve (c : TimedCache K α) (l : Lookup K α) : Option α := (c.hit ttl l.now).or l.answer

/-- The look-up asks the source, and is answered. -/
def stores (c : TimedCache K α) (l : Lookup K α) : Bool := (c.hit ttl l.now).isNone && l.answer.isSome

/-- The cache after a look-up. -/
def next (c : TimedCache K α) (l : Lookup K α) : TimedCache K α :=
  if c.stores ttl l then ⟨l.done, l.answer⟩ else c

/-- The last fetch that succeeded. -/
def lastFetch (trace : List (Transition (TimedCache K α) (Lookup K α))) : Option (Lookup K α) :=
  (trace.reverse.find? fun t => t.before.stores ttl t.event).map Transition.event

variable {ttl} {trace : List (Transition (TimedCache K α) (Lookup K α))}
  {t : Transition (TimedCache K α) (Lookup K α)}

theorem lastFetch_concat : lastFetch ttl (trace ++ [t]) =
    if t.before.stores ttl t.event then some t.event else lastFetch ttl trace := by
  unfold lastFetch
  rw [List.reverse_append, List.reverse_singleton, List.singleton_append, List.find?_cons]
  cases t.before.stores ttl t.event <;> rfl

/-- After every run from the empty cache it holds the last fetch that succeeded. -/
theorem after_eq (ls : List (Lookup K α)) : after (next ttl) (ofFetch none) ls =
    ofFetch (lastFetch ttl (transitions (next ttl) (ofFetch none) ls)) := by
  refine transitions_rule (R := fun trace c => c = ofFetch (lastFetch ttl trace)) rfl ?_ ls
  intro trace c l h
  rw [lastFetch_concat]
  unfold next
  dsimp only
  split_ifs
  · rfl
  · exact h

theorem answer_of_lastFetch {l : Lookup K α} (h : lastFetch ttl trace = some l) : l.answer.isSome := by
  obtain ⟨t, ht, rfl⟩ := Option.map_eq_some_iff.mp h
  have hstores := List.find?_some ht
  unfold stores at hstores
  rw [Bool.and_eq_true] at hstores
  exact hstores.2

/-- What the cache serves is the last fetch, while it is young. -/
theorem hit_ofFetch {last : Option (Lookup K α)} {now : K} {a : α} : (ofFetch last).hit ttl now = some a ↔
    ∃ l, last = some l ∧ l.answer = some a ∧ now - l.done < ttl := by
  cases last with
  | none => exact ⟨fun h => (nomatch h), fun ⟨_, h, _⟩ => (nomatch h)⟩
  | some l =>
    unfold hit ofFetch
    rw [Option.filter_eq_some_iff, decide_eq_true_eq]
    exact ⟨fun h => ⟨l, rfl, h⟩, fun ⟨_, h, hl⟩ => Option.some_inj.mp h ▸ hl⟩

/-- Where nothing is served, the last fetch is old. -/
theorem le_of_hit_eq_none {last : Option (Lookup K α)} {l : Lookup K α} {now : K} (hlast : last = some l)
    (hanswer : l.answer.isSome) (h : (ofFetch last).hit ttl now = none) : ttl ≤ now - l.done := by
  obtain ⟨a, ha⟩ := Option.isSome_iff_exists.mp hanswer
  by_contra hyoung
  rw [hit_ofFetch.mpr ⟨l, hlast, ha, not_le.mp hyoung⟩] at h
  cases h

end TimedCache

end FinHub
