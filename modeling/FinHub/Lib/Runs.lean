import Mathlib.Data.List.Basic
import Mathlib.Data.List.Forall2
import Mathlib.Logic.Relation

/-!
# FinHub.Lib.Runs

Services as transition systems: a call answers with the next state or raises.

* `bind_eq_ok`, `mapM_eq_some`, `mapM_eq_ok`: what the result of a sequence of partial steps says of
  each step.
* `mapM_bind`, `mapM_append_bind`: two passes over a list are one.
* `foldlM_mirror`: a loop beside one that does more.
* `Reaches call allowed`: the states reached by calls that succeed and that `allowed` lets through.
* `Reaches.invariant`: what every such call keeps holds in every state reached.
* `reaches_of_foldlM`: a list of calls, carried out one after another, is a run.
-/

namespace Runs

variable {α β ε : Type}

theorem bind_eq_ok {x : Except ε α} {f : α → Except ε β} {b : β} :
    x >>= f = .ok b ↔ ∃ a, x = .ok a ∧ f a = .ok b := by
  cases x with
  | error e => exact ⟨fun h => (by cases h), fun ⟨a, h, _⟩ => (by cases h)⟩
  | ok a => exact ⟨fun h => ⟨a, rfl, h⟩, fun ⟨a', h, hf⟩ => (by cases h; exact hf)⟩

theorem exists_of_isSome_toOption {x : Except ε α} (h : x.toOption.isSome) : ∃ a, x = .ok a := by
  cases x with
  | error e => cases h
  | ok a => exact ⟨a, rfl⟩

theorem map_eq_ok {x : Except ε α} {f : α → β} {b : β} :
    x.map f = .ok b ↔ ∃ a, x = .ok a ∧ f a = b := by
  cases x with
  | error e => exact ⟨fun h => (by cases h), fun ⟨a, h, _⟩ => (by cases h)⟩
  | ok a => exact ⟨fun h => ⟨a, rfl, (by cases h; rfl)⟩, fun ⟨a', h, hf⟩ => (by cases h; rw [← hf]; rfl)⟩

/-- What is read off the results of two sequences, where their first steps agree in what the second
ones use. -/
theorem map_bind_congr {γ δ : Type} {x y : Except ε α} {p : α → γ} {k k' : α → Except ε β} {q : β → δ}
    (hxy : x.map p = y.map p) (hk : ∀ a a', p a = p a' → (k a).map q = (k' a').map q) :
    (x >>= k).map q = (y >>= k').map q := by
  cases x with
  | error e =>
    cases y with
    | error e' => cases hxy; rfl
    | ok b => cases hxy
  | ok a =>
    cases y with
    | error e' => cases hxy
    | ok b => exact hk a b (Except.ok.inj hxy)

theorem mapM_eq_some {f : α → Option β} {l : List α} {ys : List β} :
    l.mapM f = some ys ↔ l.map f = ys.map some := by
  induction l generalizing ys with
  | nil => cases ys <;> simp
  | cons a l ih =>
    rw [List.mapM_cons]
    cases ys with
    | nil => cases f a <;> cases l.mapM f <;> simp
    | cons y ys =>
      cases ha : f a with
      | none => simp [ha]
      | some b =>
        cases hl : l.mapM f with
        | none =>
          have hno : l.map f ≠ ys.map some := fun h => by rw [ih.mpr h] at hl; cases hl
          simp [ha, hno]
        | some bs =>
          have hys : bs = ys ↔ l.map f = ys.map some := by rw [← ih, hl, Option.some_inj]
          simp [ha, hys]

theorem isSome_mapM {f : α → Option β} {l : List α} :
    (l.mapM f).isSome ↔ ∀ a ∈ l, (f a).isSome := by
  induction l with
  | nil => simp
  | cons a l ih =>
    rw [List.mapM_cons]
    cases ha : f a with
    | none => simp [ha]
    | some b => cases hl : l.mapM f <;> simp_all

theorem mapM_bind {f : α → Option β} {g : β → Option γ} (l : List α) :
    (l.mapM f).bind (fun ys => ys.mapM g) = l.mapM fun a => (f a).bind g := by
  induction l with
  | nil => rfl
  | cons a l ih =>
    rw [List.mapM_cons, List.mapM_cons, ← ih]
    cases f a with
    | none => rfl
    | some b =>
      cases l.mapM f with
      | none => cases hg : g b <;> simp [hg]
      | some ys => simp

theorem mapM_append_bind {f : α → Option β} {g : β → Option γ} (l : List α) (more : List β) :
    (l.mapM f).bind (fun ys => (ys ++ more).mapM g) =
      (l.mapM fun a => (f a).bind g).bind fun xs => (more.mapM g).bind fun zs => some (xs ++ zs) := by
  rw [← mapM_bind, Option.bind_assoc]
  exact congrArg _ (funext fun ys => List.mapM_append)

/-- A step that keeps every element of a list and the next one. -/
theorem mapM_filterMap {f : α → Option β} {g : β → Option γ} {h : α → Option γ} {l : List α}
    (hl : ∀ a ∈ l, ∃ b, f a = some b ∧ g b = h a) : (l.filterMap f).mapM g = l.mapM h := by
  induction l with
  | nil => rfl
  | cons a l ih =>
    obtain ⟨b, hb, hgb⟩ := hl a List.mem_cons_self
    have hrest := ih fun a' ha' => hl a' (List.mem_cons_of_mem _ ha')
    rw [List.filterMap_cons, hb, List.mapM_cons, List.mapM_cons, hgb, hrest]

theorem toOption_mapM {f : α → Except ε β} (l : List α) :
    (l.mapM f).toOption = l.mapM fun a => (f a).toOption := by
  induction l with
  | nil => rfl
  | cons a l ih =>
    rw [List.mapM_cons, List.mapM_cons, ← ih]
    cases f a with
    | error e => rfl
    | ok b => cases l.mapM f <;> rfl

theorem mapM_eq_ok {f : α → Except ε β} {l : List α} {ys : List β} :
    l.mapM f = .ok ys ↔ List.Forall₂ (fun a y => f a = .ok y) l ys := by
  induction l generalizing ys with
  | nil =>
    rw [List.mapM_nil, List.forall₂_nil_left_iff]
    exact ⟨fun h => (Except.ok.inj h).symm, fun h => congrArg Except.ok h.symm⟩
  | cons a l ih =>
    rw [List.mapM_cons, bind_eq_ok, List.forall₂_cons_left_iff]
    constructor
    · intro ⟨y, hy, h⟩
      obtain ⟨rest, hrest, h⟩ := bind_eq_ok.mp h
      exact ⟨y, rest, hy, ih.mp hrest, (Except.ok.inj h).symm⟩
    · intro ⟨y, rest, hy, hrest, hys⟩
      exact ⟨y, hy, bind_eq_ok.mpr ⟨rest, ih.mpr hrest, congrArg Except.ok hys.symm⟩⟩

theorem exists_mapM_iff {f : α → Except ε β} {l : List α} :
    (∃ ys, l.mapM f = .ok ys) ↔ ∀ a ∈ l, ∃ y, f a = .ok y := by
  simp only [mapM_eq_ok]
  induction l with
  | nil => simp
  | cons a l ih =>
    rw [List.forall_mem_cons, ← ih]
    constructor
    · intro ⟨ys, hys⟩
      obtain ⟨y, rest, hy, hrest, -⟩ := List.forall₂_cons_left_iff.mp hys
      exact ⟨⟨y, hy⟩, rest, hrest⟩
    · intro ⟨⟨y, hy⟩, rest, hrest⟩
      exact ⟨y :: rest, .cons hy hrest⟩

theorem exists_mem_of_mapM {f : α → Except ε β} {l : List α} {ys : List β} (h : l.mapM f = .ok ys) :
    (∀ a ∈ l, ∃ y ∈ ys, f a = .ok y) ∧ ∀ y ∈ ys, ∃ a ∈ l, f a = .ok y := by
  have hall := mapM_eq_ok.mp h
  clear h
  induction hall with
  | nil => simp
  | cons hay _ ih =>
    refine ⟨List.forall_mem_cons.mpr ⟨⟨_, List.mem_cons_self, hay⟩, fun a ha => ?_⟩,
      List.forall_mem_cons.mpr ⟨⟨_, List.mem_cons_self, hay⟩, fun y hy => ?_⟩⟩
    · obtain ⟨y, hy, hf⟩ := ih.1 a ha
      exact ⟨y, List.mem_cons_of_mem _ hy, hf⟩
    · obtain ⟨a, ha, hf⟩ := ih.2 y hy
      exact ⟨a, List.mem_cons_of_mem _ ha, hf⟩

/-- What each step's result shows of its input, the results show of the list. -/
theorem map_eq_of_mapM {γ : Type} {f : α → Except ε β} {p : β → γ} {q : α → γ}
    (hpq : ∀ a y, f a = .ok y → p y = q a) {l : List α} {ys : List β} (h : l.mapM f = .ok ys) :
    ys.map p = l.map q := by
  have hall := mapM_eq_ok.mp h
  clear h
  induction hall with
  | nil => rfl
  | cons hay _ ih => rw [List.map_cons, List.map_cons, hpq _ _ hay, ih]

/-- A step done to every result. -/
theorem mapM_map_result {γ : Type} (f : α → Except ε β) (g : β → γ) (l : List α) :
    (l.mapM fun a => (f a).map g) = (l.mapM f).map (List.map g) := by
  induction l with
  | nil => rfl
  | cons a l ih =>
    rw [List.mapM_cons, List.mapM_cons, ih]
    cases f a with
    | error e => rfl
    | ok b => cases l.mapM f <;> rfl

/-- What each step keeps with its element, a loop keeps with its list. -/
theorem foldlM_keeps {σ : Type} {f : σ → α → Except ε σ} {R : List α → σ → Prop}
    (hstep : ∀ pre s a s', R pre s → f s a = .ok s' → R (pre ++ [a]) s') (l pre : List α) {s s' : σ}
    (hR : R pre s) (hf : l.foldlM f s = .ok s') : R (pre ++ l) s' := by
  induction l generalizing pre s with
  | nil =>
    cases hf
    rwa [List.append_nil]
  | cons a l ih =>
    rw [List.foldlM_cons, bind_eq_ok] at hf
    obtain ⟨s₁, hs₁, hf⟩ := hf
    have := ih _ (hstep pre s a s₁ hR hs₁) hf
    rwa [List.append_assoc] at this

/-- Two loops over one list, the second of which does more at each step. Where the first returns, the
second returns exactly if `C` holds of every element, and then the states are related. -/
theorem foldlM_mirror {σ τ : Type} {f : σ → α → Except ε σ} {g : τ → α → Except ε τ}
    {R : List α → σ → τ → Prop} {C : α → Prop}
    (hstep : ∀ pre s t a s', R pre s t → f s a = .ok s' → C a →
      ∃ t', g t a = .ok t' ∧ R (pre ++ [a]) s' t')
    (hneeds : ∀ t a t', g t a = .ok t' → C a) (l pre : List α) {s s' : σ} {t : τ}
    (hR : R pre s t) (hf : l.foldlM f s = .ok s') :
    ((∃ t', l.foldlM g t = .ok t') ↔ ∀ a ∈ l, C a) ∧
      ∀ t', l.foldlM g t = .ok t' → R (pre ++ l) s' t' := by
  induction l generalizing pre s t with
  | nil =>
    cases hf
    refine ⟨⟨fun _ _ ha => (by cases ha), fun _ => ⟨t, rfl⟩⟩, fun t' ht' => ?_⟩
    cases ht'
    rwa [List.append_nil]
  | cons a l ih =>
    rw [List.foldlM_cons, bind_eq_ok] at hf
    obtain ⟨s₁, hs₁, hf⟩ := hf
    by_cases ha : C a
    · obtain ⟨t₁, ht₁, hR₁⟩ := hstep pre s t a s₁ hR hs₁ ha
      have hgo : ∀ t', (a :: l).foldlM g t = .ok t' ↔ l.foldlM g t₁ = .ok t' := by
        intro t'
        rw [List.foldlM_cons, ht₁]
        rfl
      obtain ⟨hok, hrel⟩ := ih _ hR₁ hf
      refine ⟨?_, fun t' ht' => ?_⟩
      · simp only [hgo, hok, List.forall_mem_cons, ha, true_and]
      · have := hrel t' ((hgo t').mp ht')
        rwa [List.append_assoc] at this
    · have hno : ∀ t', (a :: l).foldlM g t ≠ .ok t' := by
        intro t' ht'
        rw [List.foldlM_cons, bind_eq_ok] at ht'
        obtain ⟨t₁, ht₁, -⟩ := ht'
        exact ha (hneeds t a t₁ ht₁)
      refine ⟨⟨fun ⟨t', ht'⟩ => absurd ht' (hno t'), fun h => absurd (h a List.mem_cons_self) ha⟩,
        fun t' ht' => absurd ht' (hno t')⟩

variable {S : Type} {C : Type*}

/-- One call that is let through and succeeds. -/
def Step (call : S → C → Except ε S) (allowed : S → C → Prop) (s s' : S) : Prop :=
  ∃ c, allowed s c ∧ call s c = .ok s'

/-- A run of calls. -/
def Reaches (call : S → C → Except ε S) (allowed : S → C → Prop) : S → S → Prop :=
  Relation.ReflTransGen (Step call allowed)

theorem Reaches.invariant {call : S → C → Except ε S} {allowed : S → C → Prop} {P : S → Prop}
    {s s' : S} (h : Reaches call allowed s s') (hs : P s)
    (hstep : ∀ s c s', P s → allowed s c → call s c = .ok s' → P s') : P s' := by
  induction h with
  | refl => exact hs
  | tail _ hlast ih =>
    obtain ⟨c, hc, hcall⟩ := hlast
    exact hstep _ c _ ih hc hcall

/-- Every call of a list is let through in the state it meets. -/
def AllAllowed (call : S → C → Except ε S) (allowed : S → C → Prop) : S → List C → Prop
  | _, [] => True
  | s, c :: cs => allowed s c ∧ ∀ s', call s c = .ok s' → AllAllowed call allowed s' cs

theorem reaches_of_foldlM {call : S → C → Except ε S} {allowed : S → C → Prop} {s s' : S}
    {cs : List C} (hok : cs.foldlM call s = .ok s') (hall : AllAllowed call allowed s cs) :
    Reaches call allowed s s' := by
  induction cs generalizing s with
  | nil => cases hok; exact .refl
  | cons c cs ih =>
    rw [List.foldlM_cons, bind_eq_ok] at hok
    obtain ⟨s₁, h1, hok⟩ := hok
    exact .head ⟨c, hall.1, h1⟩ (ih hok (hall.2 s₁ h1))

end Runs
