import Mathlib.Algebra.BigOperators.Group.List.Basic
import Mathlib.Algebra.Order.Group.Int
import Mathlib.Data.List.MinMax
import Mathlib.Tactic.Abel
import Mathlib.Tactic.Order

/-!
# FinHub.Lib.Checkpoint

Running totals with checkpoints. A total over timed moves is read either from the origin or from
the latest checkpoint, a remembered total at some instant. Two conventions decide what a reading
at `t` counts (`spans`): from a checkpoint `c` the moves in `[key c, t)`, from the origin the moves
up to `t`, the end included or not. Besides the moves there is a drain, a quantity known only
through its cumulative value; a reading subtracts what it grew by.

* `latestBefore`, `firstAfter`: the two neighbours of an instant among the checkpoints.
* `spans_iff_firstAfter`: a move at `u` is counted at exactly the checkpoints that share the
  instant of the first one after `u`, except for a move stamped at the very first checkpoint, which
  that checkpoint counts too.
* `reconciled_iff`: which checkpoints those are, said by totals from the origin.
* `read_eq_total`: when every checkpoint remembers its own reading, a reading taken from a
  checkpoint is the total from the origin of what lies before `t`, plus the moves at the first
  checkpoint's instant (they are counted there and again in the interval that starts there).
-/

namespace Checkpoint

variable {C T A : Type*}

/-! ## Sums over instants -/

section Sums

variable [AddCommMonoid A]

/-- The moves whose instant satisfies `p`, added up. -/
def sumOn (moves : List (T × A)) (p : T → Bool) : A :=
  (moves.map fun m => if p m.1 then m.2 else 0).sum

/-- A set of instants cut in two disjoint parts. -/
theorem sumOn_split {moves : List (T × A)} {p q r : T → Bool}
    (hr : ∀ u, r u = (p u || q u)) (hd : ∀ u, p u = true → q u = false) :
    sumOn moves r = sumOn moves p + sumOn moves q := by
  unfold sumOn
  rw [← List.sum_map_add]
  congr 1
  refine List.map_congr_left fun m _ => ?_
  have hm := hd m.1
  rw [hr]
  cases hp : p m.1 <;> cases hq : q m.1 <;> simp_all

theorem sumOn_cons (m : T × A) (moves : List (T × A)) (p : T → Bool) :
    sumOn (m :: moves) p = (if p m.1 then m.2 else 0) + sumOn moves p := rfl

theorem sumOn_append (moves moves' : List (T × A)) (p : T → Bool) :
    sumOn (moves ++ moves') p = sumOn moves p + sumOn moves' p := by
  unfold sumOn
  rw [List.map_append, List.sum_append]

theorem sumOn_perm {moves moves' : List (T × A)} (h : moves.Perm moves') (p : T → Bool) :
    sumOn moves p = sumOn moves' p := (h.map _).sum_eq

theorem sumOn_eq_zero {moves : List (T × A)} {p : T → Bool} (h : ∀ m ∈ moves, p m.1 = false) : sumOn moves p = 0 := by
  unfold sumOn
  refine List.sum_eq_zero fun x hx => ?_
  obtain ⟨m, hm, rfl⟩ := List.mem_map.mp hx
  rw [if_neg (by rw [h m hm]; exact Bool.false_ne_true)]

end Sums

variable [LinearOrder T]

/-! ## Neighbours -/

section Neighbours

/-- The greatest of the images is the image of the greatest. -/
theorem argmax_map {D : Type*} (g : D → C) (key : C → T) (l : List D) :
    (l.map g).argmax key = (l.argmax (key ∘ g)).map g := by
  induction l with
  | nil => rfl
  | cons d l ih =>
    rw [List.map_cons, List.argmax_cons, List.argmax_cons, ih]
    cases l.argmax (key ∘ g) with
    | none => rfl
    | some c => simp only [Option.map_some, Function.comp]; split_ifs <;> rfl

variable (key : C → T) (cs : List C)

/-- The latest checkpoint strictly before `t`; of several at one instant the first listed. -/
def latestBefore (t : T) : Option C := (cs.filter fun c => decide (key c < t)).argmax key

/-- The first checkpoint strictly after `t`; of several at one instant the first listed. -/
def firstAfter (t : T) : Option C := (cs.filter fun c => decide (t < key c)).argmin key

variable {key cs}

theorem latestBefore_eq_some {t : T} {c : C} (h : latestBefore key cs t = some c) :
    c ∈ cs ∧ key c < t ∧ ∀ d ∈ cs, key d < t → key d ≤ key c := by
  have hm : c ∈ cs.filter fun c => decide (key c < t) := List.argmax_mem h
  have hc := List.mem_filter.mp hm
  refine ⟨hc.1, by simpa using hc.2, ?_⟩
  intro d hd hdt
  exact List.le_of_mem_argmax (List.mem_filter.mpr ⟨hd, by simpa using hdt⟩) h

theorem latestBefore_eq_none {t : T} : latestBefore key cs t = none ↔ ∀ c ∈ cs, t ≤ key c := by
  simp [latestBefore, List.argmax_eq_none, List.filter_eq_nil_iff]

theorem firstAfter_eq_some {t : T} {c : C} (h : firstAfter key cs t = some c) :
    c ∈ cs ∧ t < key c ∧ ∀ d ∈ cs, t < key d → key c ≤ key d := by
  have hm : c ∈ cs.filter fun c => decide (t < key c) := List.argmin_mem h
  have hc := List.mem_filter.mp hm
  refine ⟨hc.1, by simpa using hc.2, ?_⟩
  intro d hd hdt
  exact List.le_of_mem_argmin (List.mem_filter.mpr ⟨hd, by simpa using hdt⟩) h

/-- Being among the first after `t`, said without the search. -/
theorem key_eq_firstAfter_iff {t : T} {c : C} (hc : c ∈ cs) :
    (∃ n, firstAfter key cs t = some n ∧ key c = key n) ↔
      t < key c ∧ ∀ d ∈ cs, t < key d → key c ≤ key d := by
  constructor
  · rintro ⟨n, hn, he⟩
    obtain ⟨-, htn, hmin⟩ := firstAfter_eq_some hn
    exact ⟨he ▸ htn, fun d hd htd => he ▸ hmin d hd htd⟩
  · rintro ⟨htc, hmin⟩
    cases hn : firstAfter key cs t with
    | none =>
      have hm : c ∈ cs.filter fun c => decide (t < key c) := List.mem_filter.mpr ⟨hc, by simpa⟩
      rw [firstAfter, List.argmin_eq_none] at hn
      rw [hn] at hm; cases hm
    | some n =>
      obtain ⟨hnm, htn, hnmin⟩ := firstAfter_eq_some hn
      exact ⟨n, rfl, le_antisymm (hmin n hnm htn) (hnmin c hc htc)⟩

theorem firstAfter_eq_none {t : T} : firstAfter key cs t = none ↔ ∀ c ∈ cs, key c ≤ t := by
  simp [firstAfter, List.argmin_eq_none, List.filter_eq_nil_iff]

end Neighbours

/-! ## The instants a reading counts -/

section Spans

variable (key : C → T) (cs : List C)

/-- Whether a reading at `t` counts a move at `u`. `closed` decides the end of a reading from the
origin; a reading from a checkpoint is always half-open. -/
def spans (closed : Bool) (t u : T) : Bool :=
  match latestBefore key cs t with
  | some c => decide (key c ≤ u) && decide (u < t)
  | none => if closed then decide (u ≤ t) else decide (u < t)

variable {key cs} in
theorem spans_of_some {closed : Bool} {t : T} {c : C} (h : latestBefore key cs t = some c) :
    spans key cs closed t = fun u => decide (key c ≤ u) && decide (u < t) := by
  funext u; simp only [spans, h]

variable {key cs} in
theorem spans_of_none {closed : Bool} {t : T} (h : latestBefore key cs t = none) :
    spans key cs closed t = fun u => if closed then decide (u ≤ t) else decide (u < t) := by
  funext u; simp only [spans, h]

/-- No checkpoint lies strictly before `c`. -/
def IsFirst (c : C) : Prop := ∀ d ∈ cs, key c ≤ key d

instance (c : C) : Decidable (IsFirst key cs c) :=
  inferInstanceAs (Decidable (∀ d ∈ cs, key c ≤ key d))

variable {key cs}

theorem isFirst_iff {c : C} : IsFirst key cs c ↔ latestBefore key cs (key c) = none :=
  latestBefore_eq_none.symm

theorem spans_iff_firstAfter {u : T} {n c : C} (hn : firstAfter key cs u = some n) (hc : c ∈ cs) :
    spans key cs true (key c) u = true ↔ key c = key n ∨ (IsFirst key cs c ∧ key c = u) := by
  obtain ⟨hnm, hun, hnmin⟩ := firstAfter_eq_some hn
  cases hp : latestBefore key cs (key c) with
  | some p =>
    obtain ⟨hpm, hpc, hpmax⟩ := latestBefore_eq_some hp
    simp only [spans, hp, Bool.and_eq_true, decide_eq_true_eq]
    constructor
    · rintro ⟨hpu, huc⟩
      refine .inl (le_antisymm ?_ (hnmin c hc huc))
      by_contra hlt
      exact absurd (hpmax n hnm (not_le.mp hlt)) (by order)
    · rintro (he | ⟨hfirst, rfl⟩)
      · refine ⟨?_, by order⟩
        by_contra hlt
        have := hnmin p hpm (not_le.mp hlt)
        order
      · exact absurd (hfirst p hpm) (by order)
  | none =>
    have hfirst := isFirst_iff.mpr hp
    simp only [spans, hp, if_true, decide_eq_true_eq]
    constructor
    · intro huc
      rcases huc.lt_or_eq with hlt | rfl
      · exact .inl (le_antisymm (hfirst n hnm) (hnmin c hc hlt))
      · exact .inr ⟨hfirst, rfl⟩
    · rintro (he | ⟨-, rfl⟩)
      · order
      · exact le_rfl

theorem spans_iff_of_none {u : T} {c : C} (hn : firstAfter key cs u = none) (hc : c ∈ cs) :
    spans key cs true (key c) u = true ↔ IsFirst key cs c ∧ key c = u := by
  have hcu := firstAfter_eq_none.mp hn c hc
  cases hp : latestBefore key cs (key c) with
  | some p =>
    obtain ⟨hpm, hpc, -⟩ := latestBefore_eq_some hp
    simp only [spans, hp, Bool.and_eq_true, decide_eq_true_eq]
    constructor
    · rintro ⟨-, huc⟩; order
    · rintro ⟨hfirst, rfl⟩; exact absurd (hfirst p hpm) (by order)
  | none =>
    simp only [spans, hp, if_true, decide_eq_true_eq]
    exact ⟨fun huc => ⟨isFirst_iff.mpr hp, by order⟩, fun h => h.2 ▸ le_rfl⟩

end Spans

/-! ## Readings -/

section Readings

variable [AddCommGroup A]

variable (key : C → T) (amount : C → A) (cs : List C) (moves : List (T × A)) (drain : T → A)

/-- The total at `t`: from the latest checkpoint before `t`, or from the origin. -/
def read (closed : Bool) (t : T) : A :=
  match latestBefore key cs t with
  | some c => amount c + sumOn moves (spans key cs closed t) - (drain t - drain (key c))
  | none => sumOn moves (spans key cs closed t) - drain t

variable {key amount cs moves drain}

/-- Every checkpoint remembers its own reading. -/
def Reconciled (key : C → T) (amount : C → A) (cs : List C) (moves : List (T × A))
    (drain : T → A) : Prop :=
  ∀ c ∈ cs, read key amount cs moves drain true (key c) = amount c

theorem sumOn_from (moves : List (T × A)) {k t : T} (h : k < t) :
    sumOn moves (fun u => decide (u < t)) =
      sumOn moves (fun u => decide (u < k)) + sumOn moves (fun u => decide (k ≤ u) && decide (u < t)) :=
  sumOn_split
    (fun u => by
      by_cases h1 : u < k
      · simp [h1, h1.trans h]
      · simp [h1, not_lt.mp h1])
    (fun u hu => by
      have : u < k := by simpa using hu
      simp [not_le.mpr this])

theorem sumOn_le (moves : List (T × A)) (t : T) :
    sumOn moves (fun u => decide (u ≤ t)) =
      sumOn moves (fun u => decide (u < t)) + sumOn moves (fun u => decide (u = t)) :=
  sumOn_split
    (fun u => by rcases lt_trichotomy u t with h | h | h
                 · simp [h, h.le]
                 · simp [h]
                 · simp [h.not_ge, h.not_gt, h.ne'])
    (fun u hu => by
      have : u < t := by simpa using hu
      simp [this.ne])

/-- Over reconciled checkpoints, a reading from a checkpoint is the total from the origin of the
moves before `t`, with the moves at the first checkpoint's instant counted once more. -/
theorem read_eq_total (hrec : Reconciled key amount cs moves drain) {t : T} {p f : C}
    (hp : latestBefore key cs t = some p) (hf : f ∈ cs) (hfirst : IsFirst key cs f) :
    read key amount cs moves drain true t =
      sumOn moves (fun u => decide (u < t)) + sumOn moves (fun u => decide (u = key f)) - drain t := by
  -- Strong induction on the number of checkpoints before `t`.
  induction hlen : (cs.filter fun c => decide (key c < t)).length using Nat.strong_induction_on
    generalizing t p with
  | _ n ih =>
    obtain ⟨hpm, hpt, -⟩ := latestBefore_eq_some hp
    have hopen : read key amount cs moves drain true t =
        amount p + sumOn moves (fun u => decide (key p ≤ u) && decide (u < t)) -
          (drain t - drain (key p)) := by
      simp only [read, hp, spans_of_some hp]
    rw [hopen, ← hrec p hpm, sumOn_from moves hpt]
    cases hq : latestBefore key cs (key p) with
    | some q =>
      have hless : (cs.filter fun c => decide (key c < key p)).length < n := by
        rw [← hlen]
        have hsub : (cs.filter fun c => decide (key c < key p)).Sublist
            (cs.filter fun c => decide (key c < t)) := by
          refine List.monotone_filter_right cs fun c hc => ?_
          have : key c < key p := by simpa using hc
          simpa using this.trans hpt
        refine lt_of_le_of_ne hsub.length_le fun he => ?_
        -- `p` itself is dropped, so the two lists differ.
        have hmem : p ∈ cs.filter fun c => decide (key c < t) :=
          List.mem_filter.mpr ⟨hpm, by simpa using hpt⟩
        rw [← hsub.eq_of_length he] at hmem
        simpa using (List.mem_filter.mp hmem).2
      rw [ih _ hless hq rfl]
      abel
    | none =>
      have hkey : key p = key f :=
        le_antisymm (isFirst_iff.mpr hq f hf) (hfirst p hpm)
      have hle : read key amount cs moves drain true (key p) =
          sumOn moves (fun u => decide (u ≤ key p)) - drain (key p) := by
        simp only [read, hq, spans_of_none hq, if_true]
      rw [hle, sumOn_le, ← hkey]
      abel

/-- Checkpoints are reconciled exactly when each states the total from the origin. -/
theorem reconciled_iff {f : C} (hf : f ∈ cs) (hfirst : IsFirst key cs f) :
    Reconciled key amount cs moves drain ↔ ∀ c ∈ cs,
      sumOn moves (fun u => decide (u < key c)) + sumOn moves (fun u => decide (u = key f)) - drain (key c) =
        amount c := by
  have hunread : ∀ c ∈ cs, latestBefore key cs (key c) = none →
      read key amount cs moves drain true (key c) =
        sumOn moves (fun u => decide (u < key c)) + sumOn moves (fun u => decide (u = key f)) - drain (key c) := by
    intro c hc hnone
    have hkey : key c = key f := le_antisymm (isFirst_iff.mpr hnone f hf) (hfirst c hc)
    simp only [read, hnone, spans_of_none hnone, if_true]
    rw [sumOn_le, hkey]
  constructor
  · intro hrec c hc
    cases hp : latestBefore key cs (key c) with
    | none => rw [← hunread c hc hp, hrec c hc]
    | some p => rw [← read_eq_total hrec hp hf hfirst, hrec c hc]
  · intro htotal c hc
    cases hp : latestBefore key cs (key c) with
    | none => rw [hunread c hc hp, htotal c hc]
    | some p =>
      obtain ⟨hpm, hpc, -⟩ := latestBefore_eq_some hp
      simp only [read, hp, spans_of_some hp]
      rw [← htotal p hpm, ← htotal c hc, sumOn_from moves hpc]
      abel

end Readings

end Checkpoint
