import Mathlib.Data.List.Basic

/-!
# FinHub.Lib.Session

Services over one database connection: statements, commits and rollbacks.

A connection sees the working copy of its open transaction, everybody else what was committed last.
`Work` is a service on a connection; it answers or raises, and either way leaves a session behind.

* `Triple P w Q E`: from `P` the service answers with `Q` or raises with `E`. Each construct has its
  rule; `Triple.foldlM` is the one for loops.
* `Uncommitted`: a service that never commits. Followed by one last commit it is `Atomic`: what
  raises leaves nothing behind (`atomic_commit_last`).
* `Session.history` keeps every state ever committed, which is what a crash can leave.
-/

namespace Db

/-- A connection. `history` lists what was committed, the latest first. -/
structure Session (D : Type) where
  committed : D
  working : D
  history : List D := []

variable {D ε α β : Type}

/-- A connection without an open transaction. -/
def Session.clean (d : D) (history : List D) : Session D := ⟨d, d, history⟩

/-- A connection that has just been opened. -/
def Session.ofDb (d : D) : Session D := .clean d []

def Work (D ε α : Type) : Type := Session D → Except ε α × Session D

namespace Work

protected def pure (a : α) : Work D ε α := fun s => (.ok a, s)

protected def bind (w : Work D ε α) (f : α → Work D ε β) : Work D ε β := fun s =>
  match w s with
  | (.ok a, s') => f a s'
  | (.error e, s') => (.error e, s')

instance instMonad : Monad (Work D ε) where
  pure := Work.pure
  bind := Work.bind

theorem id_map' (w : Work D ε α) : (id <$> w) = w := by
  funext s
  change (Work.bind w Work.pure) s = w s
  unfold Work.bind
  rcases w s with ⟨_ | _, s'⟩ <;> rfl

theorem bind_assoc' {γ : Type} (w : Work D ε α) (f : α → Work D ε β) (g : β → Work D ε γ) :
    w >>= f >>= g = w >>= fun a => f a >>= g := by
  funext s
  change Work.bind (Work.bind w f) g s = Work.bind w (fun a => Work.bind (f a) g) s
  unfold Work.bind
  rcases w s with ⟨_ | _, s'⟩ <;> rfl

instance instLawfulMonad : LawfulMonad (Work D ε) :=
  LawfulMonad.mk' _ id_map' (fun _ _ => rfl) bind_assoc'

/-! ## Statements -/

def raise (e : ε) : Work D ε α := fun s => (.error e, s)

/-- A query. -/
def read (f : D → α) : Work D ε α := fun s => (.ok (f s.working), s)

/-- A query on a connection of its own, which sees only what is committed. -/
def readCommitted (f : D → α) : Work D ε α := fun s => (.ok (f s.committed), s)

/-- Statements that raise or write. One that raises halfway leaves `torn` of what it found. -/
def stmt (f : D → Except ε (α × D)) (torn : D → D := id) : Work D ε α := fun s =>
  match f s.working with
  | .ok (a, d) => (.ok a, { s with working := d })
  | .error e => (.error e, { s with working := torn s.working })

/-- A statement that cannot raise. -/
def write (f : D → α × D) : Work D ε α := fun s =>
  (.ok (f s.working).1, { s with working := (f s.working).2 })

def commit : Work D ε Unit := fun s => (.ok (), .clean s.working (s.working :: s.history))

def rollback : Work D ε Unit := fun s => (.ok (), { s with working := s.committed })

/-! ## Control -/

/-- `try: w; except: handler`. -/
def tryExcept (w : Work D ε α) (handler : ε → Work D ε α) : Work D ε α := fun s =>
  match w s with
  | (.ok a, s') => (.ok a, s')
  | (.error e, s') => handler e s'

/-- `except: conn.rollback(); raise`. -/
def orRollback (w : Work D ε α) : Work D ε α := tryExcept w fun e => do rollback; raise e

/-- A service on a connection of its own, closed when it returns: what it did not commit is lost. -/
def onOwnConnection (w : Work D ε α) : Work D ε α := fun s =>
  ((w (.clean s.committed s.history)).1,
    let s' := (w (.clean s.committed s.history)).2
    .clean s'.committed s'.history)

/-- A service that sees a part of the database. It commits all of it, and it must not roll back. -/
def focus {C : Type} (view : D → C) (put : D → C → D) (w : Work C ε α) : Work D ε α := fun s =>
  ((w ⟨view s.committed, view s.working, []⟩).1,
    let part := (w ⟨view s.committed, view s.working, []⟩).2
    { committed := if part.history.isEmpty then s.committed else put s.working part.committed
      working := put s.working part.working
      history := part.history.map (put s.working) ++ s.history })

/-- What a call raises on a database, if it does. -/
def raised (w : Work D ε α) (d : D) : Option ε :=
  match w (.ofDb d) with
  | (.ok _, _) => none
  | (.error e, _) => some e

/-- The database after a call. -/
def saved (w : Work D ε α) (d : D) : D := (w (.ofDb d)).2.committed

/-- The states a crash during a call can leave: the one before it and those it committed. -/
def crashes (w : Work D ε α) (d : D) : List D := d :: (w (.ofDb d)).2.history

/-! ## What a call does -/

variable {w : Work D ε α} {f : α → Work D ε β} {s s' : Session D} {a : α} {e : ε}

theorem bind_ok (h : w s = (.ok a, s')) : (w >>= f) s = f a s' := by
  change Work.bind w f s = _
  simp only [Work.bind, h]

theorem bind_error (h : w s = (.error e, s')) : (w >>= f) s = (.error e, s') := by
  change Work.bind w f s = _
  simp only [Work.bind, h]

@[simp] theorem pure_apply (a : α) (s : Session D) : (pure a : Work D ε α) s = (.ok a, s) := rfl

@[simp] theorem raise_apply (e : ε) (s : Session D) : (raise e : Work D ε α) s = (.error e, s) := rfl

@[simp] theorem raise_bind (e : ε) (f : α → Work D ε β) : (raise e >>= f) = raise e := rfl

@[simp] theorem read_bind (g : D → α) (f : α → Work D ε β) (s : Session D) :
    (read g >>= f) s = f (g s.working) s := rfl

@[simp] theorem readCommitted_bind (g : D → α) (f : α → Work D ε β) (s : Session D) :
    (readCommitted g >>= f) s = f (g s.committed) s := rfl

@[simp] theorem write_bind (g : D → α × D) (f : α → Work D ε β) (s : Session D) :
    (write g >>= f) s = f (g s.working).1 { s with working := (g s.working).2 } := rfl

@[simp] theorem commit_bind (f : Unit → Work D ε β) (s : Session D) :
    ((commit : Work D ε Unit) >>= f) s = f () (.clean s.working (s.working :: s.history)) := rfl

theorem stmt_ok {g : D → Except ε (α × D)} {torn : D → D} {d : D} (h : g s.working = .ok (a, d)) :
    stmt g torn s = (.ok a, { s with working := d }) := by simp only [stmt, h]

theorem stmt_error {g : D → Except ε (α × D)} {torn : D → D} (h : g s.working = .error e) :
    stmt g torn s = (.error e, { s with working := torn s.working }) := by simp only [stmt, h]

theorem tryExcept_ok {handler : ε → Work D ε α} (h : w s = (.ok a, s')) :
    tryExcept w handler s = (.ok a, s') := by simp only [tryExcept, h]

theorem tryExcept_error {handler : ε → Work D ε α} (h : w s = (.error e, s')) :
    tryExcept w handler s = handler e s' := by simp only [tryExcept, h]

theorem orRollback_ok (h : w s = (.ok a, s')) : orRollback w s = (.ok a, s') := tryExcept_ok h

theorem focus_apply {C : Type} {view : D → C} {put : D → C → D} {w : Work C ε α} {r : Except ε α}
    {part : Session C} (h : w ⟨view s.committed, view s.working, []⟩ = (r, part)) :
    focus view put w s = (r,
      { committed := if part.history.isEmpty then s.committed else put s.working part.committed
        working := put s.working part.working
        history := part.history.map (put s.working) ++ s.history }) := by
  simp only [focus, h]

theorem orRollback_error (h : w s = (.error e, s')) :
    orRollback w s = (.error e, { s' with working := s'.committed }) :=
  tryExcept_error h

/-! ## Triples -/

/-- From `P` the service answers with `Q` or raises with `E`. -/
def Triple (P : Session D → Prop) (w : Work D ε α) (Q : α → Session D → Prop)
    (E : ε → Session D → Prop) : Prop :=
  ∀ s, P s → match w s with
    | (.ok a, s') => Q a s'
    | (.error e, s') => E e s'

namespace Triple

variable {P P' : Session D → Prop} {Q Q' : α → Session D → Prop} {R : β → Session D → Prop}
  {E E' : ε → Session D → Prop}

theorem ok (h : Triple P w Q E) (hs : P s) (hw : w s = (.ok a, s')) : Q a s' := by
  have := h s hs
  rwa [hw] at this

theorem error (h : Triple P w Q E) (hs : P s) (hw : w s = (.error e, s')) : E e s' := by
  have := h s hs
  rwa [hw] at this

theorem consequence (h : Triple P w Q E) (hp : ∀ s, P' s → P s) (hq : ∀ a s, Q a s → Q' a s)
    (he : ∀ e s, E e s → E' e s) : Triple P' w Q' E' := by
  intro s hs
  have := h s (hp s hs)
  cases hw : w s with
  | mk r s' =>
    rw [hw] at this
    cases r with
    | ok a => exact hq a s' this
    | error e => exact he e s' this

theorem pure {a : α} (h : ∀ s, P s → Q a s) : Triple P (Pure.pure a) Q E := h

theorem raise {e : ε} (h : ∀ s, P s → E e s) : Triple P (Work.raise e) Q E := h

theorem bind (hw : Triple P w Q E) (hf : ∀ a, Triple (Q a) (f a) R E) : Triple P (w >>= f) R E := by
  intro s hs
  cases h : w s with
  | mk r s' =>
    cases r with
    | ok a => rw [bind_ok h]; exact hf a s' (hw.ok hs h)
    | error e => rw [bind_error h]; exact hw.error hs h

theorem read {g : D → α} (h : ∀ s, P s → Q (g s.working) s) : Triple P (Work.read g) Q E := h

theorem readCommitted {g : D → α} (h : ∀ s, P s → Q (g s.committed) s) :
    Triple P (Work.readCommitted g) Q E := h

theorem write {g : D → α × D}
    (h : ∀ s, P s → Q (g s.working).1 { s with working := (g s.working).2 }) :
    Triple P (Work.write g) Q E := h

theorem stmt {g : D → Except ε (α × D)} {torn : D → D}
    (hok : ∀ s a d, P s → g s.working = .ok (a, d) → Q a { s with working := d })
    (herr : ∀ s e, P s → g s.working = .error e → E e { s with working := torn s.working }) :
    Triple P (Work.stmt g torn) Q E := by
  intro s hs
  cases hg : g s.working with
  | ok r => rw [stmt_ok hg]; exact hok s _ _ hs hg
  | error e => rw [stmt_error hg]; exact herr s e hs hg

theorem commit {Q : Unit → Session D → Prop}
    (h : ∀ s, P s → Q () (.clean s.working (s.working :: s.history))) :
    Triple P (Work.commit : Work D ε Unit) Q E := h

theorem rollback {Q : Unit → Session D → Prop} (h : ∀ s, P s → Q () { s with working := s.committed }) :
    Triple P (Work.rollback : Work D ε Unit) Q E := h

theorem tryExcept {handler : ε → Work D ε α} (hw : Triple P w Q E')
    (hh : ∀ e, Triple (E' e) (handler e) Q E) : Triple P (Work.tryExcept w handler) Q E := by
  intro s hs
  unfold Work.tryExcept
  cases h : w s with
  | mk r s' =>
    cases r with
    | ok a => exact hw.ok hs h
    | error e => exact hh e s' (hw.error hs h)

/-- A service that does not raise never reaches its handler. -/
theorem tryExcept_of_total {handler : ε → Work D ε α} (hw : Triple P w Q fun _ _ => False) :
    Triple P (Work.tryExcept w handler) Q E := hw.tryExcept fun _ _ hs => hs.elim

theorem orRollback (hw : Triple P w Q E') (he : ∀ e s, E' e s → E e { s with working := s.committed }) :
    Triple P (Work.orRollback w) Q E :=
  hw.tryExcept fun e => (rollback (Q := fun _ s => E e s) (he e)).bind fun _ => raise fun _ hs => hs

theorem onOwnConnection
    (hw : Triple (fun s' => ∃ s, P s ∧ s' = .clean s.committed s.history) w
      (fun a s' => Q a (.clean s'.committed s'.history))
      fun e s' => E e (.clean s'.committed s'.history)) :
    Triple P (Work.onOwnConnection w) Q E := by
  intro s hs
  have := hw _ ⟨s, hs, rfl⟩
  unfold Work.onOwnConnection
  rcases h : w (.clean s.committed s.history) with ⟨_ | _, s'⟩ <;> rw [h] at this <;> exact this

/-- What a call leaves in the database. -/
theorem saved {P : D → Prop} {d : D} (h : Triple (fun s => s = .ofDb d) w (fun _ s => P s.committed)
    fun _ s => P s.committed) : P (w.saved d) := by
  have := h (.ofDb d) rfl
  unfold Work.saved
  rcases hw : w (.ofDb d) with ⟨_ | _, s'⟩ <;> rw [hw] at this <;> exact this

/-- A loop keeps what every pass keeps. -/
theorem foldlM {σ : Type} {I : σ → Session D → Prop} {step : σ → β → Work D ε σ} {bs : List β}
    (h : ∀ acc, ∀ b ∈ bs, Triple (I acc) (step acc b) I E) (acc : σ) :
    Triple (I acc) (bs.foldlM step acc) I E := by
  induction bs generalizing acc with
  | nil => exact pure fun s hs => hs
  | cons b bs ih =>
    rw [List.foldlM_cons]
    exact (h acc b List.mem_cons_self).bind fun acc' =>
      ih (fun a b hb => h a b (List.mem_cons_of_mem _ hb)) acc'

theorem mapM {I : Session D → Prop} {step : β → Work D ε α} {bs : List β}
    (h : ∀ b ∈ bs, Triple I (step b) (fun _ => I) E) :
    Triple I (bs.mapM step) (fun _ => I) E := by
  induction bs with
  | nil => rw [List.mapM_nil]; exact pure fun s hs => hs
  | cons b bs ih =>
    rw [List.mapM_cons]
    refine (h b List.mem_cons_self).bind fun _ => ?_
    exact (ih fun b hb => h b (List.mem_cons_of_mem _ hb)).bind fun _ => pure fun s hs => hs

end Triple

/-! ## Counted passes -/

section Records

variable {C K : Type}

/-- A pass that adds keys to those on record and counts what it makes. It makes nothing where all of them
are there, and making nothing it leaves everything. -/
def Records (keys : D → List K) (same : D → D → Prop) (added : D → List K) (w : ℕ → Work D ε ℕ) : Prop :=
  ∀ total s, ∃ n s', w total s = (.ok (total + n), s') ∧
    (∀ k, k ∈ keys s'.working ↔ k ∈ keys s.working ∨ k ∈ added s.working) ∧
    same s.working s'.working ∧ (n = 0 → s' = s) ∧
    ((∀ k ∈ added s.working, k ∈ keys s.working) → n = 0)

/-- A loop of such passes, where what a pass adds does not depend on the passes before. -/
theorem Records.foldlM {keys : D → List K} {same : D → D → Prop} {added : β → D → List K}
    {step : ℕ → β → Work D ε ℕ} (hrefl : ∀ d, same d d)
    (htrans : ∀ d d' d'', same d d' → same d' d'' → same d d'')
    (hadded : ∀ b d d', same d d' → added b d' = added b d)
    (h : ∀ b, Records keys same (added b) fun total => step total b) (bs : List β) :
    Records keys same (fun d => bs.flatMap fun b => added b d) fun total => bs.foldlM step total := by
  induction bs with
  | nil =>
    intro total s
    exact ⟨0, s, rfl, fun k => by simp, hrefl _, fun _ => rfl, fun _ => rfl⟩
  | cons b bs ih =>
    intro total s
    obtain ⟨n₁, s₁, hfirst, hkeys₁, hsame₁, hstill₁, hquiet₁⟩ := h b total s
    obtain ⟨n₂, s₂, hrest, hkeys₂, hsame₂, hstill₂, hquiet₂⟩ := ih (total + n₁) s₁
    have hlater : (bs.flatMap fun b => added b s₁.working) = bs.flatMap fun b => added b s.working := by
      simp only [hadded _ _ _ hsame₁]
    dsimp only at hkeys₂ hquiet₂ ⊢
    rw [hlater] at hkeys₂ hquiet₂
    refine ⟨n₁ + n₂, s₂, ?_, ?_, htrans _ _ _ hsame₁ hsame₂, ?_, ?_⟩
    · rw [List.foldlM_cons, ← Nat.add_assoc]
      exact (bind_ok hfirst).trans hrest
    · intro k
      rw [List.flatMap_cons, hkeys₂, hkeys₁, List.mem_append, or_assoc]
    · intro hn
      rw [hstill₂ (by omega), hstill₁ (by omega)]
    · intro hall
      rw [List.flatMap_cons] at hall
      have hn₁ := hquiet₁ fun k hk => hall k (List.mem_append_left _ hk)
      have hn₂ := hquiet₂ fun k hk => by
        rw [hkeys₁]
        exact .inl (hall k (List.mem_append_right _ hk))
      omega

/-- A pass over a part of the database. -/
theorem Records.focus {keys : C → List K} {same : C → C → Prop} {added : C → List K}
    {w : ℕ → Work C ε ℕ} (hw : Records keys same added w) {view : D → C} {put : D → C → D}
    {keys' : D → List K} {same' : D → D → Prop} (hview : ∀ d, keys (view d) = keys' d)
    (hput : ∀ d c, keys' (put d c) = keys c) (hsame : ∀ d c, same (view d) c → same' d (put d c))
    (hstill : ∀ d, put d (view d) = d) :
    Records keys' same' (fun d => added (view d)) fun total => Work.focus view put (w total) := by
  intro total s
  obtain ⟨n, part, hcall, hkeys, hkept, hquiet, hnone⟩ := hw total ⟨view s.committed, view s.working, []⟩
  refine ⟨n, _, focus_apply hcall, ?_, hsame _ _ hkept, ?_, ?_⟩
  · intro k
    rw [hput, hkeys, hview]
  · intro hn
    rw [hquiet hn]
    simp [hstill]
  · intro hall
    refine hnone fun k hk => ?_
    rw [hview]
    exact hall k hk

end Records

/-! ## Commits -/

/-- A service that never commits. -/
def Uncommitted (w : Work D ε α) : Prop :=
  ∀ c h, Triple (fun s => s.committed = c ∧ s.history = h) w
    (fun _ s => s.committed = c ∧ s.history = h) (fun _ s => s.committed = c ∧ s.history = h)

namespace Uncommitted

theorem pure (a : α) : Uncommitted (Pure.pure a : Work D ε α) := fun _ _ => .pure fun _ h => h

theorem raise (e : ε) : Uncommitted (Work.raise e : Work D ε α) := fun _ _ => .raise fun _ h => h

theorem bind (hw : Uncommitted w) (hf : ∀ a, Uncommitted (f a)) : Uncommitted (w >>= f) :=
  fun c h => (hw c h).bind fun a => hf a c h

theorem read (g : D → α) : Uncommitted (Work.read g : Work D ε α) := fun _ _ => .read fun _ h => h

theorem write (g : D → α × D) : Uncommitted (Work.write g : Work D ε α) :=
  fun _ _ => .write fun _ h => h

theorem stmt (g : D → Except ε (α × D)) (torn : D → D) : Uncommitted (Work.stmt g torn) :=
  fun _ _ => .stmt (fun _ _ _ h _ => h) fun _ _ h _ => h

theorem mapM {step : β → Work D ε α} {bs : List β} (h : ∀ b ∈ bs, Uncommitted (step b)) :
    Uncommitted (bs.mapM step) :=
  fun c hs => .mapM fun b hb => h b hb c hs

theorem orRollback (hw : Uncommitted w) : Uncommitted (Work.orRollback w) :=
  fun c h => (hw c h).orRollback fun _ _ he => he

theorem committed_eq (hw : Uncommitted w) (s : Session D) : (w s).2.committed = s.committed := by
  have := hw s.committed s.history s ⟨rfl, rfl⟩
  cases h : w s with
  | mk r s' => rw [h] at this; cases r <;> exact this.1

end Uncommitted

/-- A call that raises leaves the database as it was. -/
def AtomicAt (w : Work D ε α) (d : D) : Prop := ∀ e, w.raised d = some e → w.saved d = d

def Atomic (w : Work D ε α) : Prop := ∀ d, AtomicAt w d

theorem atomicAt_of_ok {d : D} (h : w (.ofDb d) = (.ok a, s')) : AtomicAt w d := by
  intro e he
  rw [raised, h] at he
  cases he

theorem atomicAt_of_error {d : D} (h : w (.ofDb d) = (.error e, s')) :
    AtomicAt w d ↔ s'.committed = d := by
  have hraised : w.raised d = some e := by rw [raised, h]
  have hsaved : w.saved d = s'.committed := by rw [saved, h]
  rw [← hsaved]
  exact ⟨fun ha => ha e hraised, fun hd _ _ => hd⟩

/-- Nothing is committed before the last step, and after it nothing raises. -/
theorem atomic_commit_last (hw : Uncommitted w) :
    Atomic (orRollback (w >>= fun a => commit >>= fun _ => Pure.pure a)) := by
  intro d
  have hc := hw.committed_eq (.ofDb d)
  cases h : w (.ofDb d) with
  | mk r s' =>
    rw [h] at hc
    cases r with
    | ok a =>
      exact atomicAt_of_ok (orRollback_ok ((bind_ok h).trans (commit_bind (fun _ => Pure.pure a) s')))
    | error e => exact (atomicAt_of_error (orRollback_error (bind_error h))).mpr hc

theorem onOwnConnection_ok (h : w (.clean s.committed s.history) = (.ok a, s')) :
    onOwnConnection w s = (.ok a, .clean s'.committed s'.history) := by
  simp only [onOwnConnection, h]

/-- A service that handles what it raises with a rollback returns. -/
theorem tryExcept_rollback (w : Work D ε Unit) (s : Session D) :
    ∃ s', tryExcept w (fun _ => rollback) s = (.ok (), s') := by
  unfold tryExcept
  rcases h : w s with ⟨_ | _, s'⟩
  · exact ⟨_, rfl⟩
  · exact ⟨s', rfl⟩

end Work

end Db
