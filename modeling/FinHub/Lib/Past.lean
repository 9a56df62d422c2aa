import FinHub.Lib.StepSeries
import Mathlib.Data.List.Sort

/-!
# FinHub.Lib.Past

What a series of items in time had up to an instant.

A derivation is causal where its past is the derivation of the past. `upTo_filterMap`, `upTo_steps`,
`upTo_changesFrom`, `find?_upTo` and `latestFrom_filter` are the rules for the shapes that derivations have: by
items, by neighbours, by changes, by look-up, and by the value at an instant. `eq_of_perm` is the rule for what is
sorted.
-/

namespace FinHub.Past

open StepSeries

variable {ι κ T : Type} [LinearOrder T] {time : ι → T} {time' : κ → T} {t : T} {xs ys : List ι}

/-- The items up to an instant. -/
def upTo (time : ι → T) (t : T) (xs : List ι) : List ι := xs.filter fun x => decide (time x ≤ t)

@[simp] theorem mem_upTo {x : ι} : x ∈ upTo time t xs ↔ x ∈ xs ∧ time x ≤ t := by
  unfold upTo
  simp

@[simp] theorem upTo_nil : upTo time t [] = [] := rfl

theorem upTo_cons_of_le {x : ι} (h : time x ≤ t) : upTo time t (x :: xs) = x :: upTo time t xs := by
  simp [upTo, h]

theorem upTo_cons_of_lt {x : ι} (h : t < time x) : upTo time t (x :: xs) = upTo time t xs := by
  simp [upTo, h]

theorem upTo_eq_nil (h : ∀ x ∈ xs, t < time x) : upTo time t xs = [] := by
  unfold upTo
  simpa using h

theorem upTo_ordered {S : Type} [LinearOrder S] {stamp : ι → S} (h : Ordered stamp xs) :
    Ordered stamp (upTo time t xs) := h.filter _

/-- In order, the past is a first part. -/
theorem upTo_prefix (h : Ordered time xs) : upTo time t xs <+: xs := by
  induction xs with
  | nil => exact List.nil_prefix
  | cons x xs ih =>
    obtain ⟨hhead, htail⟩ := List.pairwise_cons.mp h
    rcases le_or_gt (time x) t with hle | hlt
    · rw [upTo_cons_of_le hle]
      exact List.cons_prefix_cons.mpr ⟨rfl, ih htail⟩
    · rw [upTo_cons_of_lt hlt, upTo_eq_nil fun y hy => hlt.trans_le (hhead y hy)]
      exact List.nil_prefix

/-- A derivation item by item. -/
theorem upTo_filterMap {f g : ι → Option κ} (htime : ∀ x ∈ xs, ∀ y, f x = some y → time' y = time x)
    (hfg : ∀ x ∈ xs, time x ≤ t → f x = g x) :
    upTo time' t (xs.filterMap f) = (upTo time t xs).filterMap g := by
  induction xs with
  | nil => rfl
  | cons x xs ih =>
    have hrest := ih (fun y hy => htime y (List.mem_cons_of_mem x hy)) fun y hy => hfg y (List.mem_cons_of_mem x hy)
    rcases le_or_gt (time x) t with hle | hlt
    · rw [upTo_cons_of_le hle, List.filterMap_cons, List.filterMap_cons, ← hfg x List.mem_cons_self hle]
      cases hfx : f x with
      | none => exact hrest
      | some y => exact (upTo_cons_of_le ((htime x List.mem_cons_self y hfx).trans_le hle)).trans (congrArg _ hrest)
    · rw [upTo_cons_of_lt hlt, List.filterMap_cons]
      cases hfx : f x with
      | none => exact hrest
      | some y => exact (upTo_cons_of_lt (hlt.trans_eq (htime x List.mem_cons_self y hfx).symm)).trans hrest

theorem upTo_map {f : ι → κ} (htime : ∀ x ∈ xs, time' (f x) = time x) :
    upTo time' t (xs.map f) = (upTo time t xs).map f := by
  rw [← List.filterMap_eq_map]
  refine upTo_filterMap ?_ fun _ _ _ => rfl
  intro x hx y hy
  cases hy
  exact htime x hx

/-- The steps between neighbours, in time with their ends. -/
theorem upTo_steps (h : Ordered time xs) :
    upTo (fun step : ι × ι => time step.2) t (xs.zip xs.tail) = (upTo time t xs).zip (upTo time t xs).tail := by
  have hfrom : ∀ (x : ι) (xs : List ι), Ordered time (x :: xs) → time x ≤ t →
      upTo (fun step : ι × ι => time step.2) t ((x :: xs).zip xs) = (x :: upTo time t xs).zip (upTo time t xs) := by
    intro x xs hordered hx
    induction xs generalizing x with
    | nil => rfl
    | cons y ys ih =>
      obtain ⟨hhead, htail⟩ := List.pairwise_cons.mp hordered
      rw [List.zip_cons_cons]
      rcases le_or_gt (time y) t with hle | hlt
      · rw [upTo_cons_of_le hle, List.zip_cons_cons, ← ih y htail hle]
        exact upTo_cons_of_le hle
      · have hlater : ∀ z ∈ ys, t < time z := fun z hz => hlt.trans_le ((List.pairwise_cons.mp htail).1 z hz)
        rw [upTo_cons_of_lt hlt, upTo_eq_nil hlater, List.zip_nil_right]
        refine upTo_eq_nil ?_
        rintro ⟨x', z⟩ hstep
        rcases List.mem_cons.mp hstep with heq | hstep
        · cases heq
          exact hlt
        · exact hlater z (List.of_mem_zip hstep).2
  cases xs with
  | nil => rfl
  | cons x xs =>
    rcases le_or_gt (time x) t with hle | hlt
    · rw [upTo_cons_of_le hle]
      exact hfrom x xs h hle
    · have hlater : ∀ y ∈ xs, t < time y := fun y hy => hlt.trans_le ((List.pairwise_cons.mp h).1 y hy)
      rw [upTo_cons_of_lt hlt, upTo_eq_nil hlater]
      refine upTo_eq_nil ?_
      rintro ⟨x', y⟩ hstep
      exact hlater y (List.of_mem_zip hstep).2

theorem changesFrom_sublist {α : Type} [DecidableEq α] (value : ι → α) (previous : Option α) (xs : List ι) :
    (changesFrom value previous xs).Sublist xs := by
  induction xs generalizing previous with
  | nil => exact .slnil
  | cons x xs ih =>
    unfold changesFrom
    split_ifs
    · exact (ih previous).cons x
    · exact (ih _).cons_cons x

/-- The changes. -/
theorem upTo_changesFrom {α : Type} [DecidableEq α] {value : ι → α} (h : Ordered time xs) (previous : Option α) :
    upTo time t (changesFrom value previous xs) = changesFrom value previous (upTo time t xs) := by
  induction xs generalizing previous with
  | nil => rfl
  | cons x xs ih =>
    obtain ⟨hhead, htail⟩ := List.pairwise_cons.mp h
    rcases le_or_gt (time x) t with hle | hlt
    · rw [upTo_cons_of_le hle]
      unfold changesFrom
      split_ifs with hsame
      · exact ih htail previous
      · rw [upTo_cons_of_le hle, ih htail]
    · have hlater : ∀ y ∈ x :: xs, t < time y := by
        intro y hy
        rcases List.mem_cons.mp hy with rfl | hy
        · exact hlt
        · exact hlt.trans_le (hhead y hy)
      rw [upTo_eq_nil hlater, upTo_eq_nil fun y hy => hlater y ((changesFrom_sublist value previous _).subset hy)]
      rfl

/-- A look-up that only the past can answer, from the last item back. -/
theorem find?_upTo {p : ι → Bool} (h : ∀ x, p x = true → time x ≤ t) :
    (upTo time t xs).reverse.find? p = xs.reverse.find? p := by
  unfold upTo
  rw [← List.filter_reverse, List.find?_filter]
  congr 1
  funext x
  cases hp : p x with
  | false => simp
  | true => simpa using h x hp

/-- The value at an instant does not read the items that are left out after it. -/
theorem latestFrom_filter {α S : Type} [LinearOrder S] {stamp : ι → S} {value : ι → α} {latest : Option α} {at_ : S}
    {keep : ι → Bool} (hkeep : ∀ x, stamp x ≤ at_ → keep x = true) (hordered : Ordered stamp xs) :
    latestFrom stamp value latest at_ (xs.filter keep) = latestFrom stamp value latest at_ xs := by
  induction xs generalizing latest with
  | nil => rfl
  | cons x xs ih =>
    obtain ⟨hhead, htail⟩ := List.pairwise_cons.mp hordered
    rcases le_or_gt (stamp x) at_ with hle | hlt
    · rw [List.filter_cons_of_pos (hkeep x hle)]
      unfold latestFrom
      rw [if_pos hle, if_pos hle, ih htail]
    · have hlater : ∀ y ∈ x :: xs, at_ < stamp y := by
        intro y hy
        rcases List.mem_cons.mp hy with rfl | hy
        · exact hlt
        · exact hlt.trans_le (hhead y hy)
      rw [latestFrom_of_later hlater, latestFrom_of_later fun y hy => hlater y (List.mem_filter.mp hy).1]

/-- Two strict orders of the same items are one. -/
theorem eq_of_perm (hxs : xs.Pairwise fun x y => time x < time y) (hys : ys.Pairwise fun x y => time x < time y)
    (h : xs.Perm ys) : xs = ys :=
  h.eq_of_pairwise (fun _ _ _ _ hxy hyx => absurd hxy hyx.asymm) hxs hys

end FinHub.Past
