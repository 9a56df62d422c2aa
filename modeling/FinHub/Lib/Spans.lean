import FinHub.Lib.Past
import Mathlib.Data.List.Induction

/-!
# FinHub.Lib.Spans

A label that changes in time, kept as closed spans and the one that runs.

* `Timeline.switch`: from an instant on the label is another one.
* `labelAt_record`: a reader who takes the first span around an instant finds the label of the state at it, which later
  items do not change.
* `record_spans_ordered`: the spans stand in order and do not overlap.
-/

namespace FinHub.Spans

open Past StepSeries

structure Span (T L : Type) where
  start : T
  stop : T
  label : L

/-- The closed spans, and the start and the label of the running one. -/
structure Timeline (T L : Type) where
  closed : List (Span T L)
  running : Option (T × L)

namespace Timeline

variable {T L : Type} (b : Timeline T L)

/-- Nothing has run. -/
def empty : Timeline T L := ⟨[], none⟩

/-- All spans, the running one up to an instant. -/
def spans (last : T) : List (Span T L) := b.closed ++ (b.running.map fun r => ⟨r.1, last, r.2⟩).toList

/-- From an instant on the label is another one: the running span ends and the next begins. -/
def switch [DecidableEq L] (t : T) (label : Option L) : Timeline T L :=
  if b.running.map Prod.snd = label then b else ⟨b.spans t, label.map (t, ·)⟩

variable [LinearOrder T]

/-- The label of the first span around an instant. -/
def labelAt (t : T) : Option L :=
  ((b.closed.find? fun s => decide (s.start ≤ t ∧ t < s.stop)).map Span.label).or
    ((b.running.filter fun r => decide (r.1 ≤ t)).map Prod.snd)

/-- The spans up to an instant stand in order and do not overlap. -/
structure Tiled (now : T) : Prop where
  ordered : (b.spans now).Pairwise fun x y => x.stop ≤ y.start
  proper : ∀ x ∈ b.spans now, x.start ≤ x.stop ∧ x.stop ≤ now

end Timeline

variable {T L : Type} {b : Timeline T L} {t now last : T} {label : Option L}

theorem mem_spans {x : Span T L} :
    x ∈ b.spans now ↔ x ∈ b.closed ∨ ∃ r, b.running = some r ∧ x = ⟨r.1, now, r.2⟩ := by
  unfold Timeline.spans
  rw [List.mem_append, Option.mem_toList, Option.map_eq_some_iff]
  simp only [eq_comm]

/-- The first label of a pause starts to run. -/
theorem switch_of_idle [DecidableEq L] (h : b.running = none) : b.switch t label = ⟨b.closed, label.map (t, ·)⟩ := by
  obtain ⟨closed, running⟩ := b
  cases h
  cases label with
  | none => rfl
  | some l => exact congrArg (Timeline.mk · _) (List.append_nil closed)

/-- Another label ends the running span. -/
theorem switch_of_ne [DecidableEq L] {r : T × L} (h : b.running = some r) (hne : some r.2 ≠ label) :
    b.switch t label = ⟨b.closed ++ [⟨r.1, t, r.2⟩], label.map (t, ·)⟩ := by
  unfold Timeline.switch Timeline.spans
  rw [h]
  exact if_neg hne

variable [LinearOrder T]

/-- The instant up to which the running span is read does not matter before it. -/
theorem find?_spans (h : t < last) :
    ((b.spans last).find? fun s => decide (s.start ≤ t ∧ t < s.stop)).map Span.label = b.labelAt t := by
  unfold Timeline.spans Timeline.labelAt
  rw [List.find?_append]
  cases b.closed.find? fun s => decide (s.start ≤ t ∧ t < s.stop) with
  | some s => rfl
  | none =>
    cases b.running with
    | none => rfl
    | some r =>
      rw [Option.map_some, Option.toList_some, Option.map_none, Option.none_or, Option.none_or, Option.filter_some]
      by_cases hr : r.1 ≤ t
      · have hfound : decide (r.1 ≤ t ∧ t < last) = true := decide_eq_true ⟨hr, h⟩
        rw [if_pos (decide_eq_true hr), List.find?_cons, hfound]
        rfl
      · have hmissed : decide (r.1 ≤ t ∧ t < last) = false := decide_eq_false fun hin => hr hin.1
        rw [if_neg (by simpa using hr), List.find?_cons, hmissed]
        rfl

namespace Timeline.Tiled

theorem empty : (Timeline.empty : Timeline T L).Tiled now where
  ordered := .nil
  proper _ hx := by cases hx

/-- The order of the spans does not depend on where the running one is read. -/
theorem ordered_spans (h : b.Tiled now) (last : T) : (b.spans last).Pairwise fun x y => x.stop ≤ y.start := by
  obtain ⟨hclosed, -, hrunning⟩ := List.pairwise_append.mp h.ordered
  refine List.pairwise_append.mpr ⟨hclosed, ?_, ?_⟩
  · cases b.running with
    | none => exact .nil
    | some r => exact List.pairwise_singleton _ _
  · intro x hx y hy
    obtain ⟨r, hr, rfl⟩ := Option.map_eq_some_iff.mp (Option.mem_toList.mp hy)
    exact hrunning x hx ⟨r.1, now, r.2⟩ (Option.mem_toList.mpr (Option.map_eq_some_iff.mpr ⟨r, hr, rfl⟩))

/-- As time passes the running span grows. -/
theorem later (h : b.Tiled now) (hle : now ≤ last) : b.Tiled last where
  ordered := h.ordered_spans last
  proper x hx := by
    rcases mem_spans.mp hx with hx | ⟨r, hr, rfl⟩
    · exact (h.proper x (mem_spans.mpr (.inl hx))).imp_right fun hstop => hstop.trans hle
    · exact ⟨(h.proper ⟨r.1, now, r.2⟩ (mem_spans.mpr (.inr ⟨r, hr, rfl⟩))).1.trans hle, le_rfl⟩

/-- Closed spans are past. -/
theorem find?_closed (h : b.Tiled now) (hle : now ≤ t) :
    b.closed.find? (fun s => decide (s.start ≤ t ∧ t < s.stop)) = none := by
  rw [List.find?_eq_none]
  intro x hx
  have hstop := (h.proper x (mem_spans.mpr (.inl hx))).2
  simp [hstop.trans hle]

/-- From now on the label is that of the running span. -/
theorem labelAt_of_le (h : b.Tiled now) (hle : now ≤ t) : b.labelAt t = b.running.map Prod.snd := by
  unfold Timeline.labelAt
  rw [h.find?_closed hle]
  cases hr : b.running with
  | none => rfl
  | some r =>
    have hstart := (h.proper ⟨r.1, now, r.2⟩ (mem_spans.mpr (.inr ⟨r, hr, rfl⟩))).1
    rw [Option.map_none, Option.none_or, Option.filter_some, if_pos (decide_eq_true (le_trans hstart hle))]

variable [DecidableEq L]

theorem switch (h : b.Tiled now) : (b.switch now label).Tiled now := by
  unfold Timeline.switch
  split_ifs
  · exact h
  · constructor
    · refine List.pairwise_append.mpr ⟨h.ordered, ?_, ?_⟩
      · cases label with
        | none => exact .nil
        | some l => exact List.pairwise_singleton _ _
      · intro x hx y hy
        obtain ⟨r, hr, rfl⟩ := Option.map_eq_some_iff.mp (Option.mem_toList.mp hy)
        obtain ⟨l, -, rfl⟩ := Option.map_eq_some_iff.mp hr
        exact (h.proper x hx).2
    · intro x hx
      rcases mem_spans.mp hx with hx | ⟨r, hr, rfl⟩
      · exact h.proper x hx
      · obtain ⟨l, -, rfl⟩ := Option.map_eq_some_iff.mp hr
        exact ⟨le_rfl, le_rfl⟩

/-- A switch decides the label from its instant on and leaves it alone before. -/
theorem labelAt_switch (h : b.Tiled now) : (b.switch now label).labelAt t = if now ≤ t then label else b.labelAt t := by
  split_ifs with hle
  · rw [h.switch.labelAt_of_le hle]
    unfold Timeline.switch
    split_ifs with hsame
    · exact hsame
    · cases label <;> rfl
  · unfold Timeline.switch
    split_ifs with hsame
    · rfl
    · rw [← find?_spans (b := b) (not_le.mp hle)]
      unfold Timeline.labelAt
      cases label with
      | none => exact Option.or_none
      | some l =>
        rw [Option.map_some, Option.filter_some, if_neg (by simpa using not_le.mp hle)]
        exact Option.or_none

end Timeline.Tiled

/-! ## The labels of a run -/

section

variable {ι σ T L : Type} [DecidableEq L] (time : ι → T) (step : σ → ι → σ) (labelOf : σ → Option L)

/-- One item: the next state, and its label from the instant of the item on. -/
def recordStep (acc : σ × Timeline T L) (i : ι) : σ × Timeline T L :=
  (step acc.1 i, acc.2.switch (time i) (labelOf (step acc.1 i)))

/-- The timeline of the labels of a run. -/
def record (s : σ) (items : List ι) : σ × Timeline T L := items.foldl (recordStep time step labelOf) (s, .empty)

variable {time step labelOf} {s : σ} {items : List ι}

theorem record_concat (i : ι) : record time step labelOf s (items ++ [i]) =
    recordStep time step labelOf (record time step labelOf s items) i := List.foldl_concat ..

@[simp] theorem record_fst : (record time step labelOf s items).1 = items.foldl step s := by
  induction items using List.reverseRecOn with
  | nil => rfl
  | append_singleton items i ih =>
    rw [record_concat, List.foldl_concat, ← ih]
    rfl

variable [LinearOrder T] {t now : T}

/-- After items in order the spans are tiled. -/
theorem record_tiled (hordered : Ordered time items) (hle : ∀ i ∈ items, time i ≤ now) :
    (record time step labelOf s items).2.Tiled now := by
  induction items using List.reverseRecOn generalizing now with
  | nil => exact .empty
  | append_singleton items i ih =>
    obtain ⟨hbefore, -, hlast⟩ := List.pairwise_append.mp hordered
    have hearlier : ∀ j ∈ items, time j ≤ time i := fun j hj => hlast j hj i List.mem_cons_self
    rw [record_concat]
    exact (ih hbefore hearlier).switch.later (hle i (by simp))

/-- The spans of a run stand in order. -/
theorem record_spans_ordered (hordered : Ordered time items) (last : T) :
    ((record time step labelOf s items).2.spans last).Pairwise fun x y => x.stop ≤ y.start := by
  cases items using List.reverseRecOn with
  | nil => exact .nil
  | append_singleton items i =>
    have hlast : ∀ j ∈ items ++ [i], time j ≤ time i := by
      intro j hj
      rcases List.mem_append.mp hj with hj | hj
      · exact (List.pairwise_append.mp hordered).2.2 j hj i List.mem_cons_self
      · exact (congrArg time (List.mem_singleton.mp hj)).le
    exact (record_tiled hordered hlast).ordered_spans last

/-- The label at an instant is that of the state that the items up to it lead to. -/
theorem labelAt_record (hordered : Ordered time items) (hs : labelOf s = none) :
    (record time step labelOf s items).2.labelAt t = labelOf ((upTo time t items).foldl step s) := by
  induction items using List.reverseRecOn with
  | nil => exact hs.symm
  | append_singleton items i ih =>
    obtain ⟨hbefore, -, hlast⟩ := List.pairwise_append.mp hordered
    have hearlier : ∀ j ∈ items, time j ≤ time i := fun j hj => hlast j hj i List.mem_cons_self
    rw [record_concat]
    refine (record_tiled hbefore hearlier).labelAt_switch.trans ?_
    have happend : upTo time t (items ++ [i]) = upTo time t items ++ upTo time t [i] := List.filter_append ..
    rw [happend]
    split_ifs with hle
    · have hall : upTo time t items = items :=
        List.filter_eq_self.mpr fun j hj => decide_eq_true ((hearlier j hj).trans hle)
      rw [hall, upTo_cons_of_le hle, upTo_nil, List.foldl_concat, record_fst]
    · rw [upTo_cons_of_lt (not_le.mp hle), upTo_nil, List.append_nil]
      exact ih hbefore

end

end FinHub.Spans
