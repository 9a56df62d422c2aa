import Mathlib.Data.List.Pairwise
import Mathlib.Order.BoundedOrder.Basic
import Mathlib.Order.Lattice

/-!
# FinHub.Lib.StepSeries

A series of dated items read as a step function: the value at an instant is that of the last item up to it.

* `latestFrom`: the walk that stops at the first later item.
* `changesFrom`: the items whose value differs from the one before.
* `latestFrom_changesFrom`: the step function of the changes is that of the series.
-/

namespace FinHub.StepSeries

variable {ι T α : Type} [LinearOrder T] (time : ι → T) (value : ι → α)

/-- The value of the last item up to an instant, and `latest` where there is none. -/
def latestFrom (latest : Option α) (at_ : T) : List ι → Option α
  | [] => latest
  | p :: ps => if time p ≤ at_ then latestFrom (some (value p)) at_ ps else latest

/-- The items that change the value, which was `previous` before them. -/
def changesFrom [DecidableEq α] (previous : Option α) : List ι → List ι
  | [] => []
  | p :: ps =>
    if previous = some (value p) then changesFrom previous ps else p :: changesFrom (some (value p)) ps

/-- The items stand in the order of their instants. -/
def Ordered (ps : List ι) : Prop := ps.Pairwise fun p q => time p ≤ time q

/-- A value is that of the last item up to an instant. -/
def IsLatest (ps : List ι) (at_ : T) (v : α) : Prop :=
  ∃ before p later, ps = before ++ p :: later ∧ time p ≤ at_ ∧ (∀ q ∈ later, at_ < time q) ∧ value p = v

variable {time value} {ps : List ι} {at_ : T} {latest : Option α}

/-- Later items are not read. -/
theorem latestFrom_of_later (h : ∀ p ∈ ps, at_ < time p) : latestFrom time value latest at_ ps = latest := by
  cases ps with
  | nil => rfl
  | cons p ps => exact if_neg (not_le.mpr (h p List.mem_cons_self))

/-- An item up to the instant gives it a value. -/
theorem exists_isLatest (hordered : Ordered time ps) (h : ∃ p ∈ ps, time p ≤ at_) :
    ∃ v, latestFrom time value latest at_ ps = some v ∧ IsLatest time value ps at_ v := by
  induction ps generalizing latest with
  | nil =>
    obtain ⟨p, hp, -⟩ := h
    cases hp
  | cons p ps ih =>
    obtain ⟨hhead, htail⟩ := List.pairwise_cons.mp hordered
    have hp : time p ≤ at_ := by
      obtain ⟨q, hq, hle⟩ := h
      rcases List.mem_cons.mp hq with rfl | hq
      · exact hle
      · exact le_trans (hhead q hq) hle
    have hstep : latestFrom time value latest at_ (p :: ps) =
        latestFrom time value (some (value p)) at_ ps := if_pos hp
    rw [hstep]
    by_cases hmore : ∃ q ∈ ps, time q ≤ at_
    · obtain ⟨v, hv, before, q, later, rfl, hq, hlater, hvalue⟩ := ih htail hmore
      exact ⟨v, hv, p :: before, q, later, rfl, hq, hlater, hvalue⟩
    · have hlater : ∀ q ∈ ps, at_ < time q := fun q hq => not_le.mp fun hle => hmore ⟨q, hq, hle⟩
      exact ⟨value p, latestFrom_of_later hlater, [], p, ps, rfl, hp, hlater, rfl⟩

section

variable [DecidableEq α]

/-- The first item is always kept. -/
theorem changesFrom_none_cons (p : ι) (ps : List ι) :
    changesFrom value none (p :: ps) = p :: changesFrom value (some (value p)) ps :=
  if_neg (Option.some_ne_none (value p)).symm

/-- Leaving out the items that repeat the value changes no reading. -/
theorem latestFrom_changesFrom (hordered : Ordered time ps) (previous : Option α) :
    latestFrom time value previous at_ (changesFrom value previous ps) =
      latestFrom time value previous at_ ps := by
  induction ps generalizing previous with
  | nil => rfl
  | cons p ps ih =>
    obtain ⟨hhead, htail⟩ := List.pairwise_cons.mp hordered
    unfold changesFrom
    split_ifs with hsame
    · rw [ih htail]
      by_cases hp : time p ≤ at_
      · rw [hsame]
        exact (if_pos hp).symm
      · -- The walk ends at the item, and without it at the next one.
        have hlater : ∀ q ∈ ps, at_ < time q := fun q hq => lt_of_lt_of_le (not_le.mp hp) (hhead q hq)
        rw [latestFrom_of_later hlater]
        exact (if_neg hp).symm
    · unfold latestFrom
      rw [ih htail]

end

end FinHub.StepSeries
