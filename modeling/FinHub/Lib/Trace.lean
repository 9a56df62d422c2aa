import Mathlib.Data.List.Basic
import Mathlib.Order.Basic

/-!
# FinHub.Lib.Trace

Runs of a deterministic machine, transition by transition.

* `after`: the state after a list of events; `transitions`: each event between its states.
* `after_keeps`: what every event keeps holds after a run.
* `transitions_rule`: what a transition that extends a run keeps holds of every run and its transitions.
* `sinceLast`: the end of a trace that no reset interrupts.
-/

namespace Trace

variable {S E : Type} (step : S → E → S)

/-- An event between two states. -/
structure Transition (S E : Type) where
  before : S
  event : E
  after : S

/-- The state after the events. -/
def after (s : S) (es : List E) : S := es.foldl step s

def transitions : S → List E → List (Transition S E)
  | _, [] => []
  | s, e :: es => ⟨s, e, step s e⟩ :: transitions (step s e) es

variable {step}

@[simp] theorem after_nil (s : S) : after step s [] = s := rfl

@[simp] theorem after_cons (s : S) (e : E) (es : List E) :
    after step s (e :: es) = after step (step s e) es := rfl

theorem after_append (s : S) (es es' : List E) :
    after step s (es ++ es') = after step (after step s es) es' := List.foldl_append

/-- What the events of a run keep. -/
theorem after_keeps {P : S → Prop} {es : List E} {s : S} (hs : P s)
    (hstep : ∀ s e, e ∈ es → P s → P (step s e)) : P (after step s es) := by
  induction es generalizing s with
  | nil => exact hs
  | cons e es ih =>
    refine ih (hstep s e List.mem_cons_self hs) ?_
    intro s' e' he'
    exact hstep s' e' (List.mem_cons_of_mem _ he')

/-- What holds of the empty run and is kept by one more event. -/
theorem transitions_rule {R : List (Transition S E) → S → Prop} {s : S} (hnil : R [] s)
    (hstep : ∀ trace s e, R trace s → R (trace ++ [⟨s, e, step s e⟩]) (step s e)) (es : List E) :
    R (transitions step s es) (after step s es) := by
  have hall : ∀ es trace s, R trace s → R (trace ++ transitions step s es) (after step s es) := by
    intro es
    induction es with
    | nil => intro trace s hR; simpa [transitions] using hR
    | cons e es ih =>
      intro trace s hR
      have hnext := ih _ _ (hstep trace s e hR)
      simpa [transitions] using hnext
  exact hall es [] s hnil

/-! ## Since the last reset -/

variable {α : Type}

/-- The elements after the last one that resets. -/
def sinceLast (reset : α → Bool) (l : List α) : List α := (l.reverse.takeWhile fun a => !reset a).reverse

@[simp] theorem sinceLast_nil (reset : α → Bool) : sinceLast reset [] = [] := rfl

theorem sinceLast_concat_of_reset {reset : α → Bool} {a : α} (h : reset a = true) (l : List α) :
    sinceLast reset (l ++ [a]) = [] := by
  simp [sinceLast, h]

theorem sinceLast_concat {reset : α → Bool} {a : α} (h : reset a = false) (l : List α) :
    sinceLast reset (l ++ [a]) = sinceLast reset l ++ [a] := by
  simp [sinceLast, h]

end Trace
