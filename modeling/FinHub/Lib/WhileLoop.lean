import FinHub.Lib.Runs
import Mathlib.Algebra.Order.Ring.Int
import Mathlib.Logic.Function.Iterate

/-!
# FinHub.Lib.WhileLoop

A loop that steps forward while a condition holds, where a step may raise.

`whileLoop` keeps the values it passes and the one it stops at. It is described by the iterates of a total
`step` that `next` makes where it succeeds: `exists_whileLoop_iff` says when the loop returns, and
`whileLoop_eq_ok` what it returns.

`passes` lists an item a pass and may never end. `Returns` says that it ends and what it has listed:
* `Returns.rule`: what holds at the end and survives a pass holds of what is listed.
* `exists_returns`: a loop ends where its passes succeed and a measure falls.
* `not_returns`: it does not where the condition holds again after every pass that succeeds.
-/

namespace WhileLoop

variable {α ε : Type} (next : α → Except ε α) (cond : α → Bool)

def whileLoop : ℕ → α → Except ε (List α × α)
  | 0, a => .ok ([], a)
  | fuel + 1, a =>
    if cond a then do
      let a' ← next a
      let r ← whileLoop fuel a'
      .ok (a :: r.1, r.2)
    else .ok ([], a)

variable {next}

/-- The step of a loop, where it has one. -/
structure Steps (next : α → Except ε α) (step : α → α) (good : α → Prop) : Prop where
  ok : ∀ a, good a → next a = .ok (step a)
  error : ∀ a, ¬ good a → ∃ e, next a = .error e

variable {step : α → α} {good : α → Prop} {fuel : ℕ} {a : α}

/-- Once the condition has failed it stays so. -/
theorem cond_iterate (hcond : ∀ a, cond (step a) = true → cond a = true) {n m : ℕ} (hnm : n ≤ m)
    (h : cond (step^[m] a) = true) : cond (step^[n] a) = true := by
  induction m, hnm using Nat.le_induction with
  | base => exact h
  | succ m _ ih =>
    rw [Function.iterate_succ_apply'] at h
    exact ih (hcond _ h)

theorem exists_whileLoop_iff (hsteps : Steps next step good)
    (hcond : ∀ a, cond (step a) = true → cond a = true) (hstop : cond (step^[fuel] a) = false) :
    (∃ r, whileLoop next cond fuel a = .ok r) ↔ ∀ n, cond (step^[n] a) = true → good (step^[n] a) := by
  induction fuel generalizing a with
  | zero =>
    refine iff_of_true ⟨_, rfl⟩ ?_
    intro n hn
    have hnow := cond_iterate cond hcond (Nat.zero_le n) hn
    rw [hstop] at hnow
    cases hnow
  | succ fuel ih =>
    unfold whileLoop
    by_cases ha : cond a = true
    · rw [if_pos ha]
      by_cases hgood : good a
      · have hrest := ih (a := step a) hstop
        have hnext := hsteps.ok a hgood
        constructor
        · rintro ⟨r, hr⟩ n hn
          obtain ⟨a', ha', hr⟩ := Runs.bind_eq_ok.mp hr
          obtain ⟨r', hr', _⟩ := Runs.bind_eq_ok.mp hr
          rw [hnext] at ha'
          cases ha'
          cases n with
          | zero => exact hgood
          | succ n => exact hrest.mp ⟨r', hr'⟩ n hn
        · intro h
          obtain ⟨r, hr⟩ := hrest.mpr fun n hn => h (n + 1) hn
          refine ⟨(a :: r.1, r.2), Runs.bind_eq_ok.mpr ⟨step a, hnext, ?_⟩⟩
          exact Runs.bind_eq_ok.mpr ⟨r, hr, rfl⟩
      · obtain ⟨e, he⟩ := hsteps.error a hgood
        rw [he]
        constructor
        · rintro ⟨r, hr⟩
          cases hr
        · intro h
          exact absurd (h 0 ha) hgood
    · rw [if_neg ha]
      refine iff_of_true ⟨_, rfl⟩ ?_
      intro n hn
      exact absurd (cond_iterate cond hcond (Nat.zero_le n) hn) ha

theorem whileLoop_eq_ok (hsteps : Steps next step good) (hstop : cond (step^[fuel] a) = false)
    {r : List α × α} (h : whileLoop next cond fuel a = .ok r) :
    ∃ k, r.2 = step^[k] a ∧ cond r.2 = false ∧ (∀ n < k, cond (step^[n] a) = true) ∧
      r.1 = (List.range k).map fun n => step^[n] a := by
  induction fuel generalizing a r with
  | zero =>
    cases h
    refine ⟨0, rfl, hstop, ?_, rfl⟩
    intro n hn
    omega
  | succ fuel ih =>
    unfold whileLoop at h
    by_cases ha : cond a = true
    · rw [if_pos ha] at h
      obtain ⟨a', ha', hloop⟩ := Runs.bind_eq_ok.mp h
      obtain ⟨r', hr', hr⟩ := Runs.bind_eq_ok.mp hloop
      have hgood : good a := by
        by_contra hbad
        obtain ⟨e, he⟩ := hsteps.error a hbad
        rw [he] at ha'
        cases ha'
      rw [hsteps.ok a hgood] at ha'
      obtain rfl := Except.ok.inj ha'
      obtain rfl := Except.ok.inj hr
      obtain ⟨k, hlast, hfalse, hpassed, hlist⟩ := ih hstop hr'
      refine ⟨k + 1, hlast, hfalse, ?_, ?_⟩
      · intro n hn
        cases n with
        | zero => exact ha
        | succ n => exact hpassed n (by omega)
      · rw [List.range_succ_eq_map, List.map_cons, List.map_map, hlist]
        rfl
    · rw [if_neg ha] at h
      cases h
      refine ⟨0, rfl, by simpa using ha, ?_, rfl⟩
      intro n hn
      omega

/-- The values that are passed are the iterates that meet the condition. -/
theorem mem_whileLoop (hsteps : Steps next step good)
    (hcond : ∀ a, cond (step a) = true → cond a = true) (hstop : cond (step^[fuel] a) = false)
    {r : List α × α} (h : whileLoop next cond fuel a = .ok r) {x : α} :
    x ∈ r.1 ↔ ∃ n, x = step^[n] a ∧ cond x = true := by
  obtain ⟨k, hlast, hfalse, hpassed, hlist⟩ := whileLoop_eq_ok cond hsteps hstop h
  rw [hlist, List.mem_map]
  constructor
  · rintro ⟨n, hn, rfl⟩
    exact ⟨n, rfl, hpassed n (List.mem_range.mp hn)⟩
  · rintro ⟨n, rfl, hn⟩
    refine ⟨n, List.mem_range.mpr ?_, rfl⟩
    by_contra hle
    have hat := cond_iterate cond hcond (not_lt.mp hle) hn
    rw [← hlast, hfalse] at hat
    cases hat

/-! ## A loop that may never end -/

variable {β : Type} (body : α → Except ε (β × α))

/-- The items of a loop, one a pass; `none` is the error of a loop that is not through. -/
def passes : ℕ → α → Except (Option ε) (List β)
  | 0, _ => .error none
  | fuel + 1, a =>
    if cond a then do
      let r ← (body a).mapError some
      let rest ← passes fuel r.2
      .ok (r.1 :: rest)
    else .ok []

/-- The loop ends and has listed `l`. -/
def Returns (a : α) (l : List β) : Prop := ∃ fuel, passes cond body fuel a = .ok l

variable {cond} {body} {l : List β}

theorem mapError_eq_ok {x : Except ε β} {b : β} : x.mapError some = .ok b ↔ x = .ok b := by
  cases x with
  | error e => exact ⟨fun h => (by cases h), fun h => (by cases h)⟩
  | ok b' => exact ⟨fun h => (by cases h; rfl), fun h => (by cases h; rfl)⟩

theorem returns_iff_of_not (ha : cond a = false) : Returns cond body a l ↔ l = [] := by
  have hend : ∀ fuel, passes cond body (fuel + 1) a = .ok [] := by
    intro fuel
    rw [passes, ha]
    rfl
  constructor
  · rintro ⟨fuel, h⟩
    cases fuel with
    | zero => cases h
    | succ fuel =>
      rw [hend] at h
      exact (Except.ok.inj h).symm
  · rintro rfl
    exact ⟨1, hend 0⟩

theorem returns_iff_of_cond (ha : cond a = true) :
    Returns cond body a l ↔
      ∃ r rest, body a = .ok r ∧ Returns cond body r.2 rest ∧ l = r.1 :: rest := by
  constructor
  · rintro ⟨fuel, h⟩
    cases fuel with
    | zero => cases h
    | succ fuel =>
      rw [passes, if_pos ha] at h
      obtain ⟨r, hr, h⟩ := Runs.bind_eq_ok.mp h
      obtain ⟨rest, hrest, h⟩ := Runs.bind_eq_ok.mp h
      exact ⟨r, rest, mapError_eq_ok.mp hr, ⟨fuel, hrest⟩, (Except.ok.inj h).symm⟩
  · rintro ⟨r, rest, hr, ⟨fuel, hrest⟩, rfl⟩
    refine ⟨fuel + 1, ?_⟩
    rw [passes, if_pos ha]
    exact Runs.bind_eq_ok.mpr ⟨r, mapError_eq_ok.mpr hr, Runs.bind_eq_ok.mpr ⟨rest, hrest, rfl⟩⟩

/-- What holds where the loop stops, and before a pass where it holds after it, holds of all it lists. -/
theorem Returns.rule {motive : α → List β → Prop} (stop : ∀ a, cond a = false → motive a [])
    (pass : ∀ a r rest, cond a = true → body a = .ok r → motive r.2 rest → motive a (r.1 :: rest))
    (h : Returns cond body a l) : motive a l := by
  obtain ⟨fuel, h⟩ := h
  induction fuel generalizing a l with
  | zero => cases h
  | succ fuel ih =>
    cases ha : cond a with
    | false =>
      rw [(returns_iff_of_not ha).mp ⟨fuel + 1, h⟩]
      exact stop a ha
    | true =>
      rw [passes, if_pos ha] at h
      obtain ⟨r, hr, h⟩ := Runs.bind_eq_ok.mp h
      obtain ⟨rest, hrest, h⟩ := Runs.bind_eq_ok.mp h
      rw [← Except.ok.inj h]
      exact pass a r rest ha (mapError_eq_ok.mp hr) (ih hrest)

theorem exists_returns (Inv : α → Prop) (measure : α → ℕ)
    (hpass : ∀ a, Inv a → cond a = true → ∃ r, body a = .ok r ∧ Inv r.2 ∧ measure r.2 < measure a)
    (h : Inv a) : ∃ l, Returns cond body a l := by
  induction hn : measure a using Nat.strong_induction_on generalizing a with
  | h n ih =>
    cases ha : cond a with
    | false => exact ⟨[], (returns_iff_of_not ha).mpr rfl⟩
    | true =>
      obtain ⟨r, hr, hinv, hlt⟩ := hpass a h ha
      obtain ⟨rest, hrest⟩ := ih _ (hn ▸ hlt) hinv rfl
      exact ⟨r.1 :: rest, (returns_iff_of_cond ha).mpr ⟨r, rest, hr, hrest, rfl⟩⟩

theorem not_returns (Inv : α → Prop) (hcond : ∀ a, Inv a → cond a = true)
    (hpass : ∀ a r, Inv a → body a = .ok r → Inv r.2) (h : Inv a) : ¬ Returns cond body a l := by
  intro hret
  refine Returns.rule (motive := fun a _ => ¬ Inv a) ?_ ?_ hret h
  · intro a ha hinv
    rw [hcond a hinv] at ha
    cases ha
  · intro a r rest _ hr hrest hinv
    exact hrest (hpass a r hinv hr)

end WhileLoop
