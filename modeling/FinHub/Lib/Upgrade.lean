import FinHub.Lib.Runs
import Mathlib.Data.Finset.Basic

/-!
# FinHub.Lib.Upgrade

Schema upgrades that are recorded one by one and can be stopped at any commit.

A `Migration` is what its `up` commits, one transaction after another, and a check of its end-state.
The runner skips a migration that is recorded and checks, and otherwise carries it out and records
it in a transaction of its own (`close`).

* `run_of_applied`: a run over migrations that are all applied changes nothing.
* `Keeps`: what a transaction does not destroy; `applied_of_run`: when later migrations keep the
  end-states of earlier ones, a run leaves all of them applied.
* `Stops`: where a run can be stopped. `run_of_stops` says what the next run has left to do, and
  `commitAll_of_done` that transactions which find their work done drop out of it.
* `Lasting`: transactions that a next run can carry out again from any stop among them.
* `process_of_resumed`: a stopped migration is finished by the next run, if it is `Resumed`.
* `Agree`: the same results up to a relation, which a run keeps where its migrations are `Respected`.
* `EndState`: end-states about a set of items, and what has to survive for one to survive.
-/

namespace Upgrade

variable {D ε V : Type}

/-- What a transaction commits on a state, unless it raises. -/
abbrev Tx (D ε : Type) : Type := D → Except ε D

def commitAll (txs : List (Tx D ε)) (d : D) : Except ε D := txs.foldlM (fun d tx => tx d) d

@[simp] theorem commitAll_nil (d : D) : commitAll ([] : List (Tx D ε)) d = .ok d := rfl

theorem commitAll_cons (tx : Tx D ε) (txs : List (Tx D ε)) (d : D) :
    commitAll (tx :: txs) d = tx d >>= commitAll txs := rfl

theorem commitAll_cons_eq_ok {tx : Tx D ε} {txs : List (Tx D ε)} {d d' : D} :
    commitAll (tx :: txs) d = .ok d' ↔ ∃ d₁, tx d = .ok d₁ ∧ commitAll txs d₁ = .ok d' := Runs.bind_eq_ok

@[simp] theorem commitAll_singleton (tx : Tx D ε) (d : D) : commitAll [tx] d = tx d := by
  rw [commitAll_cons]
  cases tx d <;> rfl

theorem commitAll_append (txs txs' : List (Tx D ε)) (d : D) :
    commitAll (txs ++ txs') d = commitAll txs d >>= commitAll txs' := List.foldlM_append ..

/-- Transactions that find their work done. -/
theorem commitAll_of_done {txs : List (Tx D ε)} {d : D} (h : ∀ tx ∈ txs, tx d = .ok d) :
    commitAll txs d = .ok d := by
  induction txs with
  | nil => rfl
  | cons tx txs ih =>
    rw [commitAll_cons, h tx List.mem_cons_self]
    exact ih fun tx' htx' => h tx' (List.mem_cons_of_mem _ htx')

/-- What a transaction does not destroy. -/
def Keeps (P : D → Prop) (tx : Tx D ε) : Prop := ∀ d d', P d → tx d = .ok d' → P d'

theorem Keeps.commitAll {P : D → Prop} {txs : List (Tx D ε)} (h : ∀ tx ∈ txs, Keeps P tx) :
    Keeps P (Upgrade.commitAll txs) := by
  induction txs with
  | nil => intro d d' hd hok; cases hok; exact hd
  | cons tx txs ih =>
    intro d d' hd hok
    rw [commitAll_cons, Runs.bind_eq_ok] at hok
    obtain ⟨d₁, h1, hok⟩ := hok
    exact ih (fun tx' htx' => h tx' (List.mem_cons_of_mem _ htx')) _ _
      (h tx List.mem_cons_self _ _ hd h1) hok

/-- Transactions that find their work done once they are carried out, also after the later ones. -/
structure Lasting (txs : List (Tx D ε)) : Prop where
  again : ∀ tx ∈ txs, ∀ d d', tx d = .ok d' → tx d' = .ok d'
  kept : txs.Pairwise fun tx tx' => Keeps (fun d => tx d = .ok d) tx'

namespace Lasting

variable {tx : Tx D ε} {txs : List (Tx D ε)} {d d' c : D}

theorem singleton (h : ∀ d d', tx d = .ok d' → tx d' = .ok d') : Lasting [tx] where
  again tx' htx' := by rw [List.mem_singleton.mp htx']; exact h
  kept := List.pairwise_singleton _ _

protected theorem take (h : Lasting txs) (k : ℕ) : Lasting (txs.take k) where
  again tx htx := h.again tx (List.mem_of_mem_take htx)
  kept := h.kept.sublist (List.take_sublist k txs)

theorem done (h : Lasting txs) (hok : commitAll txs d = .ok d') : ∀ tx ∈ txs, tx d' = .ok d' := by
  induction txs generalizing d with
  | nil => exact fun tx htx => absurd htx List.not_mem_nil
  | cons tx txs ih =>
    obtain ⟨hhead, hkept⟩ := List.pairwise_cons.mp h.kept
    rw [commitAll_cons, Runs.bind_eq_ok] at hok
    obtain ⟨d₁, h1, hok⟩ := hok
    have hfirst : tx d' = .ok d' :=
      Keeps.commitAll (P := fun d => tx d = .ok d) hhead _ _ (h.again tx List.mem_cons_self _ _ h1) hok
    have hrest := ih ⟨fun tx' htx' => h.again tx' (List.mem_cons_of_mem _ htx'), hkept⟩ hok
    intro tx' htx'
    rcases List.mem_cons.mp htx' with rfl | htx'
    · exact hfirst
    · exact hrest tx' htx'

/-- Carried out again from a stop, the transactions do what was left. -/
theorem commitAll_stop (h : Lasting txs) {k : ℕ} (hstop : commitAll (txs.take k) d = .ok c) :
    commitAll txs c = commitAll (txs.drop k) c := by
  have hdone := commitAll_of_done ((h.take k).done hstop)
  conv_lhs => rw [← List.take_append_drop k txs, commitAll_append, hdone]
  rfl

/-- Carried out twice. -/
theorem commitAll_again (h : Lasting txs) (hok : commitAll txs d = .ok d') : commitAll txs d' = .ok d' :=
  commitAll_of_done (h.done hok)

/-- A last transaction that leaves the ones before it done. -/
theorem concat (h : Lasting txs) (hkeeps : ∀ tx' ∈ txs, Keeps (fun d => tx' d = .ok d) tx)
    (hagain : ∀ d d', tx d = .ok d' → tx d' = .ok d') : Lasting (txs ++ [tx]) where
  again tx' htx' := by
    rcases List.mem_append.mp htx' with htx' | htx'
    · exact h.again tx' htx'
    · rw [List.mem_singleton.mp htx']
      exact hagain
  kept := List.pairwise_append.mpr ⟨h.kept, List.pairwise_singleton _ _, fun tx' htx' tx'' htx'' => by
    rw [List.mem_singleton.mp htx'']
    exact hkeeps tx' htx'⟩

end Lasting

/-! ## Inserts -/

section

variable {α : Type} {f : D → α → D} {as : List α} {d : D}

theorem commitAll_map_ok (f : D → α → D) (as : List α) (d : D) :
    commitAll (as.map fun a d => (.ok (f d a) : Except ε D)) d = .ok (as.foldl f d) := by
  induction as generalizing d with
  | nil => rfl
  | cons a as ih => exact ih (f d a)

/-- Inserts that find what they insert. -/
theorem lasting_inserts {P : α → D → Prop} (hdone : ∀ a d, P a d → f d a = d)
    (hbring : ∀ a ∈ as, ∀ d, P a (f d a)) (hkeep : ∀ a b d, P a d → P a (f d b)) :
    Lasting (as.map fun a d => (.ok (f d a) : Except ε D)) where
  again tx htx d d' hok := by
    obtain ⟨a, ha, rfl⟩ := List.mem_map.mp htx
    rw [← Except.ok.inj hok]
    exact congrArg Except.ok (hdone a _ (hbring a ha d))
  kept := by
    refine List.pairwise_map.mpr (List.pairwise_of_forall_mem_list fun a ha b _ => ?_)
    intro d d' hd hok
    have hthere : P a d := Except.ok.inj hd ▸ hbring a ha d
    rw [← Except.ok.inj hok]
    exact congrArg Except.ok (hdone a _ (hkeep a b d hthere))

theorem foldl_again (h : Lasting (as.map fun a d => (.ok (f d a) : Except ε D))) :
    as.foldl f (as.foldl f d) = as.foldl f d := by
  have hok := commitAll_map_ok (ε := ε) f as d
  have hagain := h.commitAll_again hok
  rw [commitAll_map_ok] at hagain
  exact Except.ok.inj hagain

end

/-! ## Results that agree -/

/-- Related states, or the same error. -/
inductive Agree (R : D → D → Prop) : Except ε D → Except ε D → Prop where
  | ok {d d' : D} (h : R d d') : Agree R (.ok d) (.ok d')
  | error (e : ε) : Agree R (.error e) (.error e)

/-- A transaction takes related states to results that agree. -/
def Respects (R : D → D → Prop) (tx : Tx D ε) : Prop := ∀ d d', R d d' → Agree R (tx d) (tx d')

section

variable {R : D → D → Prop} {tx : Tx D ε} {txs : List (Tx D ε)}

theorem Agree.refl (hR : ∀ d, R d d) (x : Except ε D) : Agree R x x := by
  cases x with
  | ok d => exact .ok (hR d)
  | error e => exact .error e

theorem Agree.trans (hR : ∀ {d d' d''}, R d d' → R d' d'' → R d d'') {x x' x'' : Except ε D}
    (h : Agree R x x') (h' : Agree R x' x'') : Agree R x x'' := by
  cases h with
  | error e => exact h'
  | ok h =>
    cases h' with
    | ok h' => exact .ok (hR h h')

theorem Agree.bind {x x' : Except ε D} (h : Agree R x x') (htx : Respects R tx) :
    Agree R (x >>= tx) (x' >>= tx) := by
  cases h with
  | ok h => exact htx _ _ h
  | error e => exact .error e

theorem Respects.commitAll (h : ∀ tx ∈ txs, Respects R tx) : Respects R (Upgrade.commitAll txs) := by
  induction txs with
  | nil => exact fun d d' hd => .ok hd
  | cons tx txs ih =>
    intro d d' hd
    rw [commitAll_cons, commitAll_cons]
    exact (h tx List.mem_cons_self d d' hd).bind (ih fun tx' htx' => h tx' (List.mem_cons_of_mem _ htx'))

end

structure Migration (D ε V : Type) where
  version : V
  /-- The transactions of `up`, as what it reads first decides them. -/
  up : D → List (Tx D ε)
  verify : D → Bool

/-- The table of the versions that have been applied. -/
structure Tracking (D ε V : Type) where
  recorded : D → V → Bool
  record : V → D → D
  /-- What the runner raises when an end-state is not reached. -/
  notReached : V → ε

namespace Tracking

variable (b : Tracking D ε V)

def applied (m : Migration D ε V) (d : D) : Bool := b.recorded d m.version && m.verify d

/-- The last transaction of a migration records its version. -/
def close (m : Migration D ε V) : Tx D ε := fun d =>
  if m.verify d then .ok (b.record m.version d) else .error (b.notReached m.version)

def steps (m : Migration D ε V) (d : D) : List (Tx D ε) :=
  if b.applied m d then [] else m.up d ++ [b.close m]

def process (d : D) (m : Migration D ε V) : Except ε D := commitAll (b.steps m d) d

def run (ms : List (Migration D ε V)) (d : D) : Except ε D := ms.foldlM b.process d

/-- A run over `ms` from `d` can stop at `c` while it carries out `m`, which it found `d₁` with. -/
def Stops (ms : List (Migration D ε V)) (d : D) (m : Migration D ε V) (d₁ c : D) : Prop :=
  ∃ pre post, ms = pre ++ m :: post ∧ b.run pre d = .ok d₁ ∧
    ∃ k, commitAll ((b.steps m d₁).take k) d₁ = .ok c

/-- The same stop, after `k` of the transactions. -/
def StopsAfter (ms : List (Migration D ε V)) (d : D) (m : Migration D ε V) (d₁ : D) (k : ℕ) (c : D) : Prop :=
  ∃ pre post, ms = pre ++ m :: post ∧ b.run pre d = .ok d₁ ∧ commitAll ((b.steps m d₁).take k) d₁ = .ok c

variable {b} {m : Migration D ε V} {ms pre post : List (Migration D ε V)} {d d₁ d' c : D}

theorem run_cons : b.run (m :: ms) d = b.process d m >>= b.run ms := rfl

theorem run_append : b.run (pre ++ post) d = b.run pre d >>= b.run post := List.foldlM_append ..

theorem process_of_applied (h : b.applied m d = true) : b.process d m = .ok d := by
  rw [process, steps, if_pos h]
  rfl

theorem process_of_pending (h : b.applied m d = false) :
    b.process d m = commitAll (m.up d) d >>= b.close m := by
  rw [process, steps, if_neg (by rw [h]; exact Bool.false_ne_true), commitAll_append]
  refine congrArg _ (funext fun d₁ => ?_)
  rw [commitAll_cons]
  cases b.close m d₁ <;> rfl

/-- A run over what is applied changes nothing. -/
theorem run_of_applied (h : ∀ m ∈ ms, b.applied m d = true) : b.run ms d = .ok d := by
  induction ms with
  | nil => rfl
  | cons m ms ih =>
    rw [run_cons, process_of_applied (h m List.mem_cons_self)]
    exact ih fun m' hm' => h m' (List.mem_cons_of_mem _ hm')

theorem close_eq_ok (h : b.close m d = .ok d') : m.verify d = true ∧ d' = b.record m.version d := by
  unfold close at h
  split_ifs at h with hv
  cases h
  exact ⟨hv, rfl⟩

/-! ## Later migrations and earlier end-states -/

/-- What recording a version leaves alone. -/
structure Lawful (b : Tracking D ε V) (ms : List (Migration D ε V)) : Prop where
  recorded_record : ∀ v d, b.recorded (b.record v d) v = true
  recorded_keeps : ∀ m ∈ ms, ∀ v, Keeps (fun d => b.recorded d v = true) (b.close m)
  verify_record : ∀ m ∈ ms, ∀ v d, m.verify (b.record v d) = m.verify d
  recorded_up : ∀ m ∈ ms, ∀ v d, ∀ tx ∈ m.up d, Keeps (fun d => b.recorded d v = true) tx
  /-- Later migrations keep the end-states of earlier ones. -/
  kept : ms.Pairwise fun m' m => ∀ d, ∀ tx ∈ m.up d, Keeps (fun d => m'.verify d = true) tx

theorem Lawful.of_append (h : Lawful b (pre ++ post)) : Lawful b pre where
  recorded_record := h.recorded_record
  recorded_keeps m hm := h.recorded_keeps m (List.mem_append_left _ hm)
  verify_record m hm := h.verify_record m (List.mem_append_left _ hm)
  recorded_up m hm := h.recorded_up m (List.mem_append_left _ hm)
  kept := (List.pairwise_append.mp h.kept).1

/-- Each transaction of a migration keeps the earlier ones applied. -/
theorem Lawful.steps_keep (h : Lawful b (pre ++ m :: post)) {m' : Migration D ε V} (hm' : m' ∈ pre) :
    ∀ tx ∈ b.steps m d, Keeps (fun d => b.applied m' d = true) tx := by
  have hmem : m ∈ pre ++ m :: post := List.mem_append_right _ List.mem_cons_self
  have hmem' : m' ∈ pre ++ m :: post := List.mem_append_left _ hm'
  have hkept := (List.pairwise_append.mp h.kept).2.2 m' hm' m List.mem_cons_self
  intro tx htx d₁ d₂ hd hok
  obtain ⟨hr, hv⟩ := Bool.and_eq_true_iff.mp hd
  unfold steps at htx
  split_ifs at htx
  · cases htx
  rcases List.mem_append.mp htx with htx | htx
  · exact Bool.and_eq_true_iff.mpr ⟨h.recorded_up m hmem _ _ tx htx _ _ hr hok,
      hkept _ tx htx _ _ hv hok⟩
  · rw [List.mem_singleton.mp htx] at hok
    obtain ⟨-, rfl⟩ := close_eq_ok hok
    refine Bool.and_eq_true_iff.mpr ⟨h.recorded_keeps m hmem _ _ _ hr hok, ?_⟩
    rw [h.verify_record m' hmem']
    exact hv

theorem Lawful.process_applied (h : Lawful b ms) (hm : m ∈ ms) (hok : b.process d m = .ok d') :
    b.applied m d' = true := by
  by_cases ha : b.applied m d = true
  · rw [process_of_applied ha] at hok
    cases hok
    exact ha
  · rw [process_of_pending (Bool.not_eq_true _ ▸ ha), Runs.bind_eq_ok] at hok
    obtain ⟨d₁, -, hclose⟩ := hok
    obtain ⟨hv, rfl⟩ := close_eq_ok hclose
    refine Bool.and_eq_true_iff.mpr ⟨h.recorded_record _ _, ?_⟩
    rw [h.verify_record m hm]
    exact hv

/-- A run leaves what it went over applied. -/
theorem Lawful.applied_of_run (h : Lawful b ms) (hok : b.run ms d = .ok d') :
    ∀ m ∈ ms, b.applied m d' = true := by
  induction ms using List.reverseRecOn generalizing d' with
  | nil => exact fun m hm => absurd hm List.not_mem_nil
  | append_singleton pre m ih =>
    rw [run_append, Runs.bind_eq_ok] at hok
    obtain ⟨d₁, hpre, hok⟩ := hok
    rw [run_cons, Runs.bind_eq_ok] at hok
    obtain ⟨d₂, hm, hok⟩ := hok
    cases hok
    intro m' hm'
    rcases List.mem_append.mp hm' with hm' | hm'
    · exact Keeps.commitAll (h.steps_keep hm') _ _ (ih h.of_append hpre m' hm') hm
    · rw [List.mem_singleton.mp hm']
      exact h.process_applied (List.mem_append_right _ List.mem_cons_self) hm

/-! ## Stopped runs -/

/-- The next run skips what was applied before the stop. -/
theorem run_of_stops (h : Lawful b ms) (hs : b.Stops ms d m d₁ c) :
    ∃ pre post, ms = pre ++ m :: post ∧ b.run pre d = .ok d₁ ∧
      b.run ms c = b.process c m >>= b.run post ∧ b.run ms d = b.process d₁ m >>= b.run post := by
  obtain ⟨pre, post, rfl, hrun, k, hpart⟩ := hs
  refine ⟨pre, post, rfl, hrun, ?_, ?_⟩
  · have hdone : b.run pre c = .ok c := by
      refine run_of_applied fun m' hm' => ?_
      refine Keeps.commitAll (fun tx htx => h.steps_keep hm' tx (List.mem_of_mem_take htx)) _ _ ?_ hpart
      exact h.of_append.applied_of_run hrun m' hm'
    rw [run_append, hdone]
    rfl
  · rw [run_append, hrun]
    rfl

theorem stops_iff : b.Stops ms d m d₁ c ↔ ∃ k, b.StopsAfter ms d m d₁ k c := by
  constructor
  · rintro ⟨pre, post, hms, hrun, k, hpart⟩
    exact ⟨k, pre, post, hms, hrun, hpart⟩
  · rintro ⟨k, pre, post, hms, hrun, hpart⟩
    exact ⟨pre, post, hms, hrun, k, hpart⟩

/-- The next run catches up where it finishes the migration as the stopped one would have. -/
theorem run_of_resumed (h : Lawful b ms) (hs : b.Stops ms d m d₁ c)
    (hm : b.process c m = b.process d₁ m) : b.run ms c = b.run ms d := by
  obtain ⟨pre, post, -, -, hc, hd⟩ := run_of_stops h hs
  rw [hc, hd, hm]

/-- A migration that does not tell related states apart. -/
structure Respected (b : Tracking D ε V) (R : D → D → Prop) (m : Migration D ε V) : Prop where
  recorded : ∀ d d', R d d' → b.recorded d' m.version = b.recorded d m.version
  record : ∀ d d', R d d' → R (b.record m.version d) (b.record m.version d')
  verify : ∀ d d', R d d' → m.verify d' = m.verify d
  up : ∀ d d', R d d' → m.up d' = m.up d
  respects : ∀ d, ∀ tx ∈ m.up d, Respects R tx

section

variable {R : D → D → Prop}

theorem respects_close (hverify : ∀ d d', R d d' → m.verify d' = m.verify d)
    (hrecord : ∀ d d', R d d' → R (b.record m.version d) (b.record m.version d')) :
    Respects R (b.close m) := by
  intro d d' hd
  unfold close
  rw [hverify d d' hd]
  split_ifs
  · exact .ok (hrecord d d' hd)
  · exact .error _

theorem Respected.process (h : Respected b R m) (hd : R d d') : Agree R (b.process d m) (b.process d' m) := by
  have happlied : b.applied m d' = b.applied m d := by
    rw [applied, applied, h.recorded d d' hd, h.verify d d' hd]
  have hsteps : b.steps m d' = b.steps m d := by
    rw [steps, steps, happlied, h.up d d' hd]
  rw [Tracking.process, Tracking.process, hsteps]
  refine Respects.commitAll (fun tx htx => ?_) d d' hd
  unfold steps at htx
  split_ifs at htx
  · cases htx
  · rcases List.mem_append.mp htx with htx | htx
    · exact h.respects d tx htx
    · rw [List.mem_singleton.mp htx]
      exact respects_close h.verify h.record

theorem respects_run (h : ∀ m ∈ ms, Respected b R m) : Respects R (b.run ms) := by
  induction ms with
  | nil => exact fun d d' hd => .ok hd
  | cons m ms ih =>
    intro d d' hd
    rw [run_cons, run_cons]
    exact ((h m List.mem_cons_self).process hd).bind (ih fun m' hm' => h m' (List.mem_cons_of_mem _ hm'))

/-- The next run catches up to a related state, where the later migrations do not tell them apart. -/
theorem agree_run_of_stops (h : Lawful b ms) (hs : b.Stops ms d m d₁ c)
    (hm : Agree R (b.process d₁ m) (b.process c m))
    (hpost : ∀ pre post, ms = pre ++ m :: post → ∀ m' ∈ post, Respected b R m') :
    Agree R (b.run ms d) (b.run ms c) := by
  obtain ⟨pre, post, hms, -, hc, hd⟩ := run_of_stops h hs
  rw [hc, hd]
  exact hm.bind (respects_run (hpost pre post hms))

end

/-- What `up` has to do for a stop inside it: the next one, or the check that makes the runner skip it,
accounts for what was left. -/
structure Resumed (b : Tracking D ε V) (m : Migration D ε V) (d₁ : D) (k : ℕ) (c : D) : Prop where
  up : commitAll (m.up c) c = commitAll ((m.up d₁).drop k) c
  skip : b.applied m c = true → commitAll ((m.up d₁).drop k) c = .ok c

/-- A stop before the first transaction, after the last one, or inside `up`. -/
theorem process_of_stop (h : Lawful b ms) (hm : m ∈ ms) {k : ℕ}
    (hpart : commitAll ((b.steps m d₁).take k) d₁ = .ok c) :
    b.process c m = b.process d₁ m ∨ b.applied m d₁ = false ∧ 0 < k ∧ k ≤ (m.up d₁).length ∧
      commitAll ((m.up d₁).take k) d₁ = .ok c := by
  by_cases ha : b.applied m d₁ = true
  · rw [steps, if_pos ha, List.take_nil] at hpart
    rw [Except.ok.inj hpart]
    exact .inl rfl
  have hpending : b.applied m d₁ = false := Bool.not_eq_true _ ▸ ha
  rw [steps, if_neg ha] at hpart
  rcases Nat.eq_zero_or_pos k with rfl | hk
  · rw [List.take_zero] at hpart
    rw [Except.ok.inj hpart]
    exact .inl rfl
  rcases le_or_gt k (m.up d₁).length with hlen | hlen
  · rw [List.take_append_of_le_length hlen] at hpart
    exact .inr ⟨hpending, hk, hlen, hpart⟩
  · -- The migration was finished.
    have hall : b.process d₁ m = .ok c := by
      rw [process, steps, if_neg ha, ← hpart, List.take_of_length_le]
      rw [List.length_append, List.length_singleton]
      exact hlen
    rw [hall, process_of_applied (h.process_applied hm hall)]
    exact .inl rfl

section

variable {k : ℕ} (hagain : ∀ v d, b.recorded d v = true → b.record v d = d)
  (hpending : b.applied m d₁ = false)

include hagain

theorem close_of_applied (h : b.applied m c = true) : b.close m c = .ok c := by
  obtain ⟨hr, hv⟩ := Bool.and_eq_true_iff.mp h
  rw [close, if_pos hv, hagain _ _ hr]

include hpending

theorem process_of_resumed (hstop : commitAll ((m.up d₁).take k) d₁ = .ok c) (h : Resumed b m d₁ k c) :
    b.process c m = b.process d₁ m := by
  have hd : b.process d₁ m = commitAll ((m.up d₁).drop k) c >>= b.close m := by
    rw [process_of_pending hpending, ← List.take_append_drop k (m.up d₁), commitAll_append,
      List.take_append_drop, hstop]
    rfl
  rw [hd]
  by_cases hc : b.applied m c = true
  · rw [process_of_applied hc, h.skip hc]
    exact (close_of_applied hagain hc).symm
  · rw [process_of_pending (Bool.not_eq_true _ ▸ hc), h.up]

/-- An `up` that is carried out twice and comes to a related state. -/
theorem agree_process_of_repeated {R : D → D → Prop} (hR : ∀ d, R d d) (hclose : Respects R (b.close m))
    (hstop : commitAll (m.up d₁) d₁ = .ok c) (h : ∃ c', commitAll (m.up c) c = .ok c' ∧ R c c') :
    Agree R (b.process d₁ m) (b.process c m) := by
  have hd : b.process d₁ m = b.close m c := by
    rw [process_of_pending hpending, hstop]
    rfl
  rw [hd]
  by_cases hc : b.applied m c = true
  · rw [process_of_applied hc, close_of_applied hagain hc]
    exact .ok (hR c)
  · obtain ⟨c', hup, hrelated⟩ := h
    rw [process_of_pending (Bool.not_eq_true _ ▸ hc), hup]
    exact hclose c c' hrelated

end

end Tracking

/-! ## End-states -/

/-- A condition on a set of items. An end-state is a list of them. -/
inductive EndState (α : Type) where
  | has (x : α)
  | lacks (x : α)
  | either (p q : EndState α)

namespace EndState

variable {α : Type} [DecidableEq α] {s s' : Finset α}

def eval (s : Finset α) : EndState α → Bool
  | has x => decide (x ∈ s)
  | lacks x => decide (x ∉ s)
  | either p q => p.eval s || q.eval s

/-- The items whose removal can break the condition. -/
def needs : EndState α → List α
  | has x => [x]
  | lacks _ => []
  | either p q => p.needs ++ q.needs

/-- The items whose arrival can break the condition. -/
def bars : EndState α → List α
  | has _ => []
  | lacks x => [x]
  | either p q => p.bars ++ q.bars

theorem eval_mono {p : EndState α} (hneeds : ∀ x ∈ p.needs, x ∈ s → x ∈ s')
    (hbars : ∀ x ∈ p.bars, x ∈ s' → x ∈ s) (h : p.eval s = true) : p.eval s' = true := by
  induction p with
  | has x =>
    simp only [eval, decide_eq_true_eq] at h ⊢
    exact hneeds x List.mem_cons_self h
  | lacks x =>
    simp only [eval, decide_eq_true_eq] at h ⊢
    exact fun hx => h (hbars x List.mem_cons_self hx)
  | either p q ihp ihq =>
    simp only [eval, Bool.or_eq_true] at h ⊢
    exact h.imp
      (ihp (fun x hx => hneeds x (List.mem_append_left _ hx))
        fun x hx => hbars x (List.mem_append_left _ hx))
      (ihq (fun x hx => hneeds x (List.mem_append_right _ hx))
        fun x hx => hbars x (List.mem_append_right _ hx))

end EndState

end Upgrade
