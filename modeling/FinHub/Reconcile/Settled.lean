import FinHub.Balance.Frame

/-!
# FinHub.Reconcile.Settled

Snapshots under writes. A snapshot is settled when the balance at its instant is its amount.

* `SettledBut A`: every snapshot is settled, but for those in `A`. A row written at an instant can
  only unsettle the snapshots that count the instant (`SettledBut.insert`, `.modify`, `.delete`).
* `counts_group`: off the instant of the first snapshot, the snapshots that count an instant are the
  ones `getNextSnapshot` finds after it, all of one timestamp.
* `OwnAdjustment`: the adjustment row of a snapshot stands in the snapshot's own interval.
* `SettledBut.recalculateAdjustments`: the refresh settles the snapshots after its instant and leaves
  the others as they were.
-/

namespace FinHub

open Tabular

/-- The balance at the instant of a snapshot is its amount. -/
def Settled (s : Ledger) (r : ℕ × BalanceSnapshot) : Prop :=
  s.getBalanceAtDate r.2.entityId r.2.currency r.2.timestamp = some r.2.amount

instance (s : Ledger) (r : ℕ × BalanceSnapshot) : Decidable (Settled s r) :=
  inferInstanceAs (Decidable (_ = _))

/-- Every snapshot of every pair is settled. -/
def Reconciled (s : Ledger) : Prop := ∀ r ∈ s.snapshots.rows, Settled s r

instance (s : Ledger) : Decidable (Reconciled s) :=
  inferInstanceAs (Decidable (∀ r ∈ s.snapshots.rows, Settled s r))

def SettledBut (A : ℕ × BalanceSnapshot → Prop) (s : Ledger) : Prop :=
  ∀ r ∈ s.snapshots.rows, Settled s r ∨ A r

/-- The balance at a snapshot counts the moves of the pair at an instant. -/
def Counts (s : Ledger) (entity_id : ℕ) (currency : Currency) (u : Timestamp)
    (r : ℕ × BalanceSnapshot) : Prop :=
  r.2.entityId = entity_id ∧ r.2.currency = currency ∧
    s.window entity_id currency true r.2.timestamp u = true

/-- The balance at a snapshot reads a fee of the pair at an instant. Unlike the moves of a window,
fees are read after the previous snapshot and up to the snapshot's own instant. -/
def FeeCounts (s : Ledger) (entity_id : ℕ) (currency : Currency) (u : Timestamp)
    (r : ℕ × BalanceSnapshot) : Prop :=
  r.2.entityId = entity_id ∧ r.2.currency = currency ∧
    (∀ p, s.getPreviousSnapshot entity_id currency r.2.timestamp = some p → p.2.timestamp < u) ∧
    u ≤ r.2.timestamp

/-- The snapshots of the pair that `getNextSnapshot` finds after an instant; several can share a
timestamp. -/
def Group (s : Ledger) (entity_id : ℕ) (currency : Currency) (u : Timestamp)
    (r : ℕ × BalanceSnapshot) : Prop :=
  ∃ n, s.getNextSnapshot entity_id currency u = some n ∧ r.2.entityId = entity_id ∧
    r.2.currency = currency ∧ r.2.timestamp = n.2.timestamp

/-- The instant is not the one of the first snapshot of the pair, which counts its own instant. -/
def OffFirst (s : Ledger) (entity_id : ℕ) (currency : Currency) (u : Timestamp) : Prop :=
  ∀ f ∈ s.pairSnapshots entity_id currency,
    Checkpoint.IsFirst (fun r => r.2.timestamp) (s.pairSnapshots entity_id currency) f →
    f.2.timestamp ≠ u

instance (s : Ledger) (entity_id : ℕ) (currency : Currency) (u : Timestamp) :
    Decidable (OffFirst s entity_id currency u) :=
  inferInstanceAs (Decidable (∀ f ∈ s.pairSnapshots entity_id currency, _ → _ ≠ _))

instance (s : Ledger) (entity_id : ℕ) (currency : Currency) (u : Timestamp)
    (r : ℕ × BalanceSnapshot) : Decidable (Group s entity_id currency u r) :=
  decidable_of_iff (∃ n ∈ (s.getNextSnapshot entity_id currency u).toList, r.2.entityId = entity_id ∧
    r.2.currency = currency ∧ r.2.timestamp = n.2.timestamp) (by simp [Group])

/-- Snapshots of one pair and instant agree on the amount. -/
def TiesAgree (s : Ledger) : Prop :=
  ∀ r ∈ s.snapshots.rows, ∀ r' ∈ s.snapshots.rows, r.2.entityId = r'.2.entityId →
    r.2.currency = r'.2.currency → r.2.timestamp = r'.2.timestamp → r.2.amount = r'.2.amount

variable {s s' : Ledger} {A : ℕ × BalanceSnapshot → Prop}

theorem Reconciled.settledBut (h : Reconciled s) (A : ℕ × BalanceSnapshot → Prop) :
    SettledBut A s := fun r hr => .inl (h r hr)

theorem Reconciled.tiesAgree (h : Reconciled s) : TiesAgree s := by
  intro r hr r' hr' he hc ht
  have h1 := h r hr
  have h2 := h r' hr'
  rw [Settled, he, hc, ht] at h1
  rw [Settled, h1] at h2
  exact Option.some_inj.mp h2

theorem SettledBut.mono {B : ℕ × BalanceSnapshot → Prop} (h : SettledBut A s)
    (hAB : ∀ r ∈ s.snapshots.rows, A r → B r) : SettledBut B s :=
  fun r hr => (h r hr).imp_right (hAB r hr)

theorem SettledBut.reconciled (h : SettledBut A s) (hA : ∀ r ∈ s.snapshots.rows, ¬ A r) :
    Reconciled s := fun r hr => (h r hr).resolve_right (hA r hr)

theorem mem_pairSnapshots {entity_id : ℕ} {currency : Currency} {r : ℕ × BalanceSnapshot} :
    r ∈ s.pairSnapshots entity_id currency ↔
      r ∈ s.snapshots.rows ∧ r.2.entityId = entity_id ∧ r.2.currency = currency := by
  simp [Ledger.pairSnapshots]

theorem pairSnapshots_congr (h : s'.snapshots = s.snapshots) (entity_id : ℕ) (currency : Currency) :
    s'.pairSnapshots entity_id currency = s.pairSnapshots entity_id currency := by
  rw [Ledger.pairSnapshots, Ledger.pairSnapshots, h]

theorem getNextSnapshot_mem {entity_id : ℕ} {currency : Currency} {u : Timestamp}
    {n : ℕ × BalanceSnapshot} (h : s.getNextSnapshot entity_id currency u = some n) :
    n ∈ s.snapshots.rows ∧ n.2.entityId = entity_id ∧ n.2.currency = currency :=
  mem_pairSnapshots.mp (Checkpoint.firstAfter_eq_some h).1

theorem Counts.congr (h : s'.snapshots = s.snapshots) {entity_id : ℕ} {currency : Currency}
    {u : Timestamp} {r : ℕ × BalanceSnapshot} :
    Counts s' entity_id currency u r ↔ Counts s entity_id currency u r := by
  rw [Counts, Counts, Ledger.window_congr (pairSnapshots_congr h _ _)]

theorem Group.congr (h : s'.snapshots = s.snapshots) {entity_id : ℕ} {currency : Currency}
    {u : Timestamp} {r : ℕ × BalanceSnapshot} :
    Group s' entity_id currency u r ↔ Group s entity_id currency u r := by
  rw [Group, Group, Ledger.getNextSnapshot_congr (pairSnapshots_congr h _ _)]

theorem OffFirst.congr (h : s'.snapshots = s.snapshots) {entity_id : ℕ} {currency : Currency}
    {u : Timestamp} : OffFirst s' entity_id currency u ↔ OffFirst s entity_id currency u := by
  rw [OffFirst, OffFirst, pairSnapshots_congr h]

/-- The instants see the same next snapshot. -/
def SameNext (s : Ledger) (entity_id : ℕ) (currency : Currency) (u t : Timestamp) : Prop :=
  s.getNextSnapshot entity_id currency u = s.getNextSnapshot entity_id currency t

theorem SameNext.group {entity_id : ℕ} {currency : Currency} {u t : Timestamp}
    (h : SameNext s entity_id currency u t) {r : ℕ × BalanceSnapshot}
    (hr : Group s entity_id currency u r) : Group s entity_id currency t r := by
  obtain ⟨n, hn, hrest⟩ := hr
  exact ⟨n, h ▸ hn, hrest⟩

/-- The places a fee drains lie off the snapshots of their pair, and a refresh at one of the places
`P` reaches what counts them. -/
def FeeReached (s : Ledger) (P : ℕ → Currency → Timestamp → Prop) (entity_id : ℕ)
    (currency : Currency) (u : Timestamp) : Prop :=
  (∀ r ∈ s.pairSnapshots entity_id currency, r.2.timestamp ≠ u) ∧
    (s.getNextSnapshot entity_id currency u = none ∨
      ∃ t, P entity_id currency t ∧ SameNext s entity_id currency u t)

/-! ## Which snapshots count an instant -/

theorem counts_group {entity_id : ℕ} {currency : Currency} {u : Timestamp}
    {r : ℕ × BalanceSnapshot} (hoff : OffFirst s entity_id currency u) (hr : r ∈ s.snapshots.rows)
    (h : Counts s entity_id currency u r) : Group s entity_id currency u r := by
  obtain ⟨he, hc, hw⟩ := h
  have hmem : r ∈ s.pairSnapshots entity_id currency := mem_pairSnapshots.mpr ⟨hr, he, hc⟩
  cases hn : s.getNextSnapshot entity_id currency u with
  | none =>
    obtain ⟨hfirst, hu⟩ := (Checkpoint.spans_iff_of_none hn hmem).mp hw
    exact absurd hu (hoff r hmem hfirst)
  | some n =>
    rcases (Checkpoint.spans_iff_firstAfter hn hmem).mp hw with ht | ⟨hfirst, hu⟩
    · exact ⟨n, hn, he, hc, ht⟩
    · exact absurd hu (hoff r hmem hfirst)

/-- Off all snapshots of the pair, fees and moves are counted alike. -/
theorem feeCounts_group {entity_id : ℕ} {currency : Currency} {u : Timestamp}
    {r : ℕ × BalanceSnapshot} (hr : r ∈ s.snapshots.rows)
    (hoff : ∀ r ∈ s.pairSnapshots entity_id currency, r.2.timestamp ≠ u)
    (h : FeeCounts s entity_id currency u r) : Group s entity_id currency u r := by
  obtain ⟨he, hc, hprev, hur⟩ := h
  have hmem : r ∈ s.pairSnapshots entity_id currency := mem_pairSnapshots.mpr ⟨hr, he, hc⟩
  have hlt : u < r.2.timestamp := lt_of_le_of_ne hur (hoff r hmem).symm
  cases hn : s.getNextSnapshot entity_id currency u with
  | none => exact absurd hlt (not_lt.mpr (Checkpoint.firstAfter_eq_none.mp hn r hmem))
  | some n =>
    obtain ⟨hnm, hun, hnmin⟩ := Checkpoint.firstAfter_eq_some hn
    refine ⟨n, hn, he, hc, le_antisymm ?_ (hnmin r hmem hlt)⟩
    by_contra hnr
    have hnr : n.2.timestamp < r.2.timestamp := not_le.mp hnr
    -- A snapshot between the fee and `r` would be the one `r` reads from.
    cases hp : s.getPreviousSnapshot entity_id currency r.2.timestamp with
    | none => exact absurd hnr (not_lt.mpr (Checkpoint.latestBefore_eq_none.mp hp n hnm))
    | some p =>
      have hpn := (Checkpoint.latestBefore_eq_some hp).2.2 n hnm hnr
      exact absurd (hprev p hp) (not_lt.mpr (hun.le.trans hpn))

theorem FeeReached.group {P : ℕ → Currency → Timestamp → Prop} {entity_id : ℕ} {currency : Currency}
    {u : Timestamp} (h : FeeReached s P entity_id currency u) {r : ℕ × BalanceSnapshot}
    (hr : r ∈ s.snapshots.rows) (hcount : FeeCounts s entity_id currency u r) :
    ∃ t, P entity_id currency t ∧ Group s entity_id currency t r := by
  have hg := feeCounts_group hr h.1 hcount
  rcases h.2 with hnone | ⟨t, ht, hsame⟩
  · obtain ⟨n, hn, -⟩ := hg
    rw [hnone] at hn; cases hn
  · exact ⟨t, ht, hsame.group hg⟩

theorem Group.counts {entity_id : ℕ} {currency : Currency} {u : Timestamp}
    {r : ℕ × BalanceSnapshot} (hr : r ∈ s.snapshots.rows) (h : Group s entity_id currency u r) :
    Counts s entity_id currency u r := by
  obtain ⟨n, hn, he, hc, ht⟩ := h
  exact ⟨he, hc, (Checkpoint.spans_iff_firstAfter hn (mem_pairSnapshots.mpr ⟨hr, he, hc⟩)).mpr
    (.inl ht)⟩

/-! ## Writes -/

/-- A snapshot stays settled when no fee moves in its interval and the moves in its window stay. -/
theorem Settled.congr_moved {r : ℕ × BalanceSnapshot} {D : ℕ → Currency → Timestamp → Prop}
    (h : Settled s r) (hc : Ledger.ChargesMoved s s' D) (hs : s'.snapshots = s.snapshots)
    (hfee : ∀ u, D r.2.entityId r.2.currency u → ¬ FeeCounts s r.2.entityId r.2.currency u r)
    (hval : s'.cashOver r.2.entityId r.2.currency {}
        (s.window r.2.entityId r.2.currency true r.2.timestamp) =
      s.cashOver r.2.entityId r.2.currency {}
        (s.window r.2.entityId r.2.currency true r.2.timestamp))
    (hread : ∀ x ∈ s'.transactions.rows, Ledger.inPair r.2.entityId r.2.currency x = true →
      s.window r.2.entityId r.2.currency true r.2.timestamp x.2.timestamp = true →
      x ∈ s.transactions.rows ∨ x.2.loopImpact.isSome) : Settled s' r := by
  have hpairs := pairSnapshots_congr hs r.2.entityId r.2.currency
  obtain ⟨⟨hfees, hloop⟩, hb⟩ := Ledger.getBalanceAtDate_eq_some_iff.mp h
  refine Ledger.getBalanceAtDate_eq_some_iff.mpr ⟨⟨hc.readable _ _ _ hfees, ?_⟩, ?_⟩
  · intro p hp x hx hpair hkeep h1 h2
    rw [Ledger.getPreviousSnapshot_congr hpairs] at hp
    have hw : s.window r.2.entityId r.2.currency true r.2.timestamp x.2.timestamp = true := by
      rw [Ledger.window, Checkpoint.spans_of_some hp]
      simp [h1, h2]
    rcases hread x hx hpair hw with hold | hsome
    · exact hloop p hp x hold hpair hkeep h1 h2
    · exact hsome
  · have hanchor : s'.anchor r.2.entityId r.2.currency none r.2.timestamp =
        s.anchor r.2.entityId r.2.currency none r.2.timestamp :=
      Ledger.anchor_of_moved hc hpairs hfees fun u hu hp hle => hfee u hu ⟨rfl, rfl, hp, hle⟩
    rw [Ledger.balance_sub_of_anchor {} hanchor hpairs, hval, hb]
    ring

/-- A snapshot stays settled when its charges, its window and the moves in it stay. -/
theorem Settled.congr {r : ℕ × BalanceSnapshot} (h : Settled s r) (hc : Ledger.SameCharges s s')
    (hs : s'.snapshots = s.snapshots)
    (hval : s'.cashOver r.2.entityId r.2.currency {}
        (s.window r.2.entityId r.2.currency true r.2.timestamp) =
      s.cashOver r.2.entityId r.2.currency {}
        (s.window r.2.entityId r.2.currency true r.2.timestamp))
    (hread : ∀ x ∈ s'.transactions.rows, Ledger.inPair r.2.entityId r.2.currency x = true →
      s.window r.2.entityId r.2.currency true r.2.timestamp x.2.timestamp = true →
      x ∈ s.transactions.rows ∨ x.2.loopImpact.isSome) : Settled s' r :=
  h.congr_moved hc.moved hs (fun _ hu => hu.elim) hval hread

namespace SettledBut

/-- Fees that move unsettle the snapshots that read them. -/
theorem chargesMoved {D : ℕ → Currency → Timestamp → Prop} (h : SettledBut A s)
    (hc : Ledger.ChargesMoved s s' D) (hs : s'.snapshots = s.snapshots)
    (ht : s'.transactions = s.transactions) :
    SettledBut (fun r => A r ∨ ∃ u, D r.2.entityId r.2.currency u ∧
      FeeCounts s r.2.entityId r.2.currency u r) s' := by
  intro r hr
  rw [hs] at hr
  rcases h r hr with hset | ha
  swap
  · exact .inr (.inl ha)
  by_cases hfee : ∃ u, D r.2.entityId r.2.currency u ∧ FeeCounts s r.2.entityId r.2.currency u r
  · exact .inr (.inr hfee)
  refine .inl (hset.congr_moved hc hs (fun u hu hcount => hfee ⟨u, hu, hcount⟩) ?_ ?_)
  · rw [Ledger.cashOver_congr ht]
  · intro x hx _ _
    rw [ht] at hx
    exact .inl hx

/-- Writes that keep the rows, such as those to the links. -/
theorem of_same_rows (h : SettledBut A s) (hc : Ledger.SameCharges s s')
    (hs : s'.snapshots = s.snapshots) (ht : s'.transactions = s.transactions) : SettledBut A s' := by
  intro r hr
  rw [hs] at hr
  refine (h r hr).imp_left fun hset => hset.congr hc hs ?_ ?_
  · rw [Ledger.cashOver_congr ht]
  · intro x hx _ _
    rw [ht] at hx
    exact .inl hx

theorem insert (h : SettledBut A s) (t : Transaction) :
    SettledBut (fun r => A r ∨ Counts s t.entityId t.cashPocket t.timestamp r)
      (s.insertTransaction t) := by
  intro r hr
  rcases h r hr with hset | ha
  swap
  · exact .inr (.inl ha)
  by_cases hcount : Counts s t.entityId t.cashPocket t.timestamp r
  · exact .inr (.inr hcount)
  refine .inl (hset.congr (.insert s t) rfl ?_ ?_)
  · rw [Ledger.cashOver_insert]
    have hshare : Ledger.share r.2.entityId r.2.currency {}
        (s.window r.2.entityId r.2.currency true r.2.timestamp) (s.transactions.next, t) = 0 := by
      by_cases hp : Ledger.inPair r.2.entityId r.2.currency (s.transactions.next, t) = true
      · obtain ⟨he, hc⟩ := Ledger.inPair_iff.mp hp
        refine Ledger.share_of_not_mem (Bool.eq_false_iff.mpr fun hw => hcount ?_)
        exact ⟨he.symm, hc.symm, by rw [← he, ← hc] at hw; exact hw⟩
      · exact Ledger.share_of_not_inPair (Bool.eq_false_iff.mpr hp)
    rw [hshare, add_zero]
  · intro x hx hpair hw
    rcases Table.mem_insert.mp hx with hx | rfl
    · exact .inl hx
    · obtain ⟨he, hc⟩ := Ledger.inPair_iff.mp hpair
      exact absurd ⟨he.symm, hc.symm, by rw [← he, ← hc] at hw; exact hw⟩ hcount

/-- A row share that a snapshot does not count. -/
theorem share_eq_zero {r : ℕ × BalanceSnapshot} {x : ℕ × Transaction}
    (h : ¬ Counts s x.2.entityId x.2.cashPocket x.2.timestamp r) :
    Ledger.share r.2.entityId r.2.currency {}
      (s.window r.2.entityId r.2.currency true r.2.timestamp) x = 0 := by
  by_cases hp : Ledger.inPair r.2.entityId r.2.currency x = true
  · obtain ⟨he, hc⟩ := Ledger.inPair_iff.mp hp
    refine Ledger.share_of_not_mem (Bool.eq_false_iff.mpr fun hw => h ?_)
    exact ⟨he.symm, hc.symm, by rw [← he, ← hc] at hw; exact hw⟩
  · exact Ledger.share_of_not_inPair (Bool.eq_false_iff.mpr hp)

theorem modify_moved (h : SettledBut A s) {k : ℕ} {t : Transaction} (f : Transaction → Transaction)
    {D : ℕ → Currency → Timestamp → Prop} (hm : (k, t) ∈ s.transactions.rows)
    (hc : Ledger.ChargesMoved s (s.modifyTransaction k f) D) :
    SettledBut (fun r => A r ∨ Counts s t.entityId t.cashPocket t.timestamp r ∨
      Counts s (f t).entityId (f t).cashPocket (f t).timestamp r ∨
      ∃ u, D r.2.entityId r.2.currency u ∧ FeeCounts s r.2.entityId r.2.currency u r)
      (s.modifyTransaction k f) := by
  intro r hr
  rcases h r hr with hset | ha
  swap
  · exact .inr (.inl ha)
  by_cases hcount : Counts s t.entityId t.cashPocket t.timestamp r
  · exact .inr (.inr (.inl hcount))
  by_cases hcount' : Counts s (f t).entityId (f t).cashPocket (f t).timestamp r
  · exact .inr (.inr (.inr (.inl hcount')))
  by_cases hfee : ∃ u, D r.2.entityId r.2.currency u ∧ FeeCounts s r.2.entityId r.2.currency u r
  · exact .inr (.inr (.inr (.inr hfee)))
  refine .inl (hset.congr_moved hc rfl (fun u hu hcount => hfee ⟨u, hu, hcount⟩) ?_ ?_)
  · rw [Ledger.cashOver_modify f hm, share_eq_zero (x := (k, f t)) hcount',
      share_eq_zero (x := (k, t)) hcount, sub_zero, add_zero]
  · rintro ⟨j, x⟩ hx hpair hw
    rcases Table.mem_modify.mp hx with ⟨-, hx⟩ | ⟨rfl, t', ht', rfl⟩
    · exact .inl hx
    · obtain rfl : t = t' := s.transactions.unique hm ht'
      obtain ⟨he, hcur⟩ := Ledger.inPair_iff.mp hpair
      exact absurd ⟨he.symm, hcur.symm, by rw [← he, ← hcur] at hw; exact hw⟩ hcount'

theorem modify (h : SettledBut A s) {k : ℕ} {t : Transaction} (f : Transaction → Transaction)
    (hm : (k, t) ∈ s.transactions.rows) (hc : Ledger.SameCharges s (s.modifyTransaction k f)) :
    SettledBut (fun r => A r ∨ Counts s t.entityId t.cashPocket t.timestamp r ∨
      Counts s (f t).entityId (f t).cashPocket (f t).timestamp r) (s.modifyTransaction k f) := by
  refine (h.modify_moved f hm hc.moved).mono ?_
  rintro r - (ha | hcount | hcount | ⟨u, hu, -⟩)
  · exact .inl ha
  · exact .inr (.inl hcount)
  · exact .inr (.inr hcount)
  · exact hu.elim

theorem delete (h : SettledBut A s) {k : ℕ} {t : Transaction}
    (hm : (k, t) ∈ s.transactions.rows) (hc : Ledger.SameCharges s (s.deleteTransaction k)) :
    SettledBut (fun r => A r ∨ Counts s t.entityId t.cashPocket t.timestamp r)
      (s.deleteTransaction k) := by
  intro r hr
  rcases h r hr with hset | ha
  swap
  · exact .inr (.inl ha)
  by_cases hcount : Counts s t.entityId t.cashPocket t.timestamp r
  · exact .inr (.inr hcount)
  refine .inl (hset.congr hc rfl ?_ ?_)
  · rw [Ledger.cashOver_delete hm, share_eq_zero (x := (k, t)) hcount, sub_zero]
  · exact fun x hx _ _ => .inl (Table.mem_erase.mp hx).1

end SettledBut

/-! ## The adjustment of a snapshot -/

/-- The row is an adjustment of the snapshot. -/
def Own (s : Ledger) (snapshot_id : ℕ) (x : ℕ × Transaction) : Prop :=
  x ∈ s.transactions.rows ∧ x.2.type = .balanceAdjustment ∧ x.2.balanceSnapshotId = some snapshot_id

/-- The instant lies in the interval of the snapshot and in no other. -/
def Lands (s : Ledger) (n : ℕ × BalanceSnapshot) (u : Timestamp) : Prop :=
  OffFirst s n.2.entityId n.2.currency u ∧ Group s n.2.entityId n.2.currency u n

/-- A snapshot has at most one adjustment; the row is of its pair, carries no fee or tax, and stands
(or is to be opened) in the interval of the snapshot. -/
structure OwnAdjustment (s : Ledger) (n : ℕ × BalanceSnapshot) : Prop where
  home : ∀ x, Own s n.1 x → x.2.entityId = n.2.entityId ∧ x.2.currency = n.2.currency ∧
    x.2.paymentCurrency = none ∧ ¬ s.Charged x.1
  single : ∀ x y, Own s n.1 x → Own s n.1 y → x = y
  lands : ∀ x, Own s n.1 x → Lands s n x.2.timestamp
  opens : (∀ x, ¬ Own s n.1 x) → Lands s n (s.timezone.adjustmentTimestamp n.2.timestamp)

instance (s : Ledger) (snapshot_id : ℕ) (x : ℕ × Transaction) : Decidable (Own s snapshot_id x) :=
  inferInstanceAs (Decidable (_ ∧ _ ∧ _))

instance (s : Ledger) (n : ℕ × BalanceSnapshot) (u : Timestamp) : Decidable (Lands s n u) :=
  inferInstanceAs (Decidable (_ ∧ _))

/-- The conditions on the adjustment of a snapshot only concern the rows of the table. -/
theorem ownAdjustment_iff {n : ℕ × BalanceSnapshot} : OwnAdjustment s n ↔
    (∀ x ∈ s.transactions.rows, Own s n.1 x → (x.2.entityId = n.2.entityId ∧
      x.2.currency = n.2.currency ∧ x.2.paymentCurrency = none ∧ ¬ s.Charged x.1) ∧
      (∀ y ∈ s.transactions.rows, Own s n.1 y → x = y) ∧ Lands s n x.2.timestamp) ∧
    ((∀ x ∈ s.transactions.rows, ¬ Own s n.1 x) →
      Lands s n (s.timezone.adjustmentTimestamp n.2.timestamp)) := by
  constructor
  · exact fun h => ⟨fun x _ hx => ⟨h.home x hx, fun y _ hy => h.single x y hx hy, h.lands x hx⟩,
      fun hno => h.opens fun x hx => hno x hx.1 hx⟩
  · exact fun h => ⟨fun x hx => (h.1 x hx.1 hx).1, fun x y hx hy => (h.1 x hx.1 hx).2.1 y hy.1 hy,
      fun x hx => (h.1 x hx.1 hx).2.2, fun hno => h.2 fun x _ => hno x⟩

instance (s : Ledger) (n : ℕ × BalanceSnapshot) : Decidable (OwnAdjustment s n) :=
  decidable_of_iff' _ ownAdjustment_iff

theorem Lands.congr (h : s'.snapshots = s.snapshots) {n : ℕ × BalanceSnapshot} {u : Timestamp} :
    Lands s' n u ↔ Lands s n u := by
  rw [Lands, Lands, OffFirst.congr h, Group.congr h]

/-- Writes that leave the adjustment rows of the snapshot alone. -/
theorem OwnAdjustment.congr {n : ℕ × BalanceSnapshot} (h : OwnAdjustment s n)
    (hs : s'.snapshots = s.snapshots) (htz : s'.timezone = s.timezone)
    (hc : ∀ x, Own s n.1 x → s'.Charged x.1 → s.Charged x.1)
    (hown : ∀ x, Own s' n.1 x ↔ Own s n.1 x) : OwnAdjustment s' n where
  home x hx := by
    obtain ⟨he, hcur, hp, hch⟩ := h.home x ((hown x).mp hx)
    exact ⟨he, hcur, hp, fun hch' => hch (hc x ((hown x).mp hx) hch')⟩
  single x y hx hy := h.single x y ((hown x).mp hx) ((hown y).mp hy)
  lands x hx := (Lands.congr hs).mpr (h.lands x ((hown x).mp hx))
  opens hno := by
    rw [htz]
    exact (Lands.congr hs).mpr (h.opens fun x hx => hno x ((hown x).mpr hx))

theorem Lands.counts_iff {n r : ℕ × BalanceSnapshot} {u : Timestamp} (h : Lands s n u)
    (hr : r ∈ s.snapshots.rows) : Counts s n.2.entityId n.2.currency u r ↔
      r.2.entityId = n.2.entityId ∧ r.2.currency = n.2.currency ∧ r.2.timestamp = n.2.timestamp := by
  obtain ⟨hoff, m, hm, -, -, hnm⟩ := h
  constructor
  · intro hc
    obtain ⟨m', hm', he, hcur, ht⟩ := counts_group hoff hr hc
    rw [hm] at hm'
    rw [← Option.some_inj.mp hm'] at ht
    exact ⟨he, hcur, ht.trans hnm.symm⟩
  · rintro ⟨he, hcur, ht⟩
    exact Group.counts hr ⟨m, hm, he, hcur, ht.trans hnm⟩

/-- The measured balance with the own adjustment put back. -/
theorem getBalanceAtDate_of_own {entity_id : ℕ} {currency : Currency} {t : Timestamp}
    {snapshot_id k : ℕ} {b : Transaction} {expected v : ℚ} (hc : Ledger.SameCharges s s')
    (hs : s'.snapshots = s.snapshots)
    (hexp : s.getBalanceAtDate entity_id currency t { adjustmentSnapshotId := some snapshot_id } =
      some expected)
    (hval : s'.cashOver entity_id currency { adjustmentSnapshotId := some snapshot_id }
        (s.window entity_id currency true t) =
      s.cashOver entity_id currency { adjustmentSnapshotId := some snapshot_id }
        (s.window entity_id currency true t))
    (hother : ∀ x ∈ s'.transactions.rows, ¬ Own s' snapshot_id x → x ∈ s.transactions.rows)
    (hown : ∀ x, Own s' snapshot_id x ↔ x = (k, b))
    (hpair : Ledger.inPair entity_id currency (k, b) = true)
    (hw : s.window entity_id currency true t b.timestamp = true) (hv : b.totalValue = some v) :
    s'.getBalanceAtDate entity_id currency t = some (expected + v) := by
  have hpairs := pairSnapshots_congr hs entity_id currency
  have hk : Own s' snapshot_id (k, b) := (hown _).mpr rfl
  have hkeeps : ∀ x ∈ s'.transactions.rows,
      Exclude.keeps { adjustmentSnapshotId := some snapshot_id } x = true ↔ ¬ Own s' snapshot_id x := by
    intro x hx
    simp [Exclude.keeps, Own, hx, Transaction.isAdjustment, imp_iff_not_or]
  -- All moves are the kept ones and the own adjustment.
  have hsum : s'.cashOver entity_id currency {} (s.window entity_id currency true t) =
      s'.cashOver entity_id currency { adjustmentSnapshotId := some snapshot_id }
        (s.window entity_id currency true t) + v := by
    have hsplit : s'.cashOver entity_id currency {} (s.window entity_id currency true t) =
        s'.transactions.sum fun x =>
          Ledger.share entity_id currency { adjustmentSnapshotId := some snapshot_id }
            (s.window entity_id currency true t) x +
          if x = (k, b) then v else 0 := by
      refine Table.sum_congr fun x hx => ?_
      by_cases hxk : x = (k, b)
      · subst hxk
        have hnk : Exclude.keeps { adjustmentSnapshotId := some snapshot_id } (k, b) = false :=
          Bool.eq_false_iff.mpr fun h => (hkeeps _ hx).mp h hk
        have himpact : b.sqlImpact = v := by
          rw [Transaction.sqlImpact_of_isAdjustment hk.2.1, hv]; rfl
        simp [Ledger.share, cashMove, hnk, hw, hpair, Ledger.keeps_default, himpact]
      · have hkp : Exclude.keeps { adjustmentSnapshotId := some snapshot_id } x = true :=
          (hkeeps x hx).mpr fun h => hxk ((hown x).mp h)
        simp [Ledger.share, cashMove, hkp, Ledger.keeps_default, hxk]
    rw [hsplit, Table.sum_add,
      s'.transactions.sum_eq_single (fun x => if x = (k, b) then v else 0) hk.1
        (fun x _ hne => if_neg hne), if_pos rfl]
    rfl
  obtain ⟨⟨hfees, hloop⟩, hb⟩ := Ledger.getBalanceAtDate_eq_some_iff.mp hexp
  refine Ledger.getBalanceAtDate_eq_some_iff.mpr ⟨⟨(hc.feesReadable _ _ _ _).mpr hfees, ?_⟩, ?_⟩
  · intro p hp x hx hxp _ h1 h2
    rw [Ledger.getPreviousSnapshot_congr hpairs] at hp
    by_cases hxo : Own s' snapshot_id x
    · rw [Transaction.loopImpact_of_isAdjustment hxo.2.1]; rfl
    · refine hloop p hp x (hother x hx hxo) hxp ?_ h1 h2
      exact (hkeeps x hx).mpr hxo
  · have hsub := Ledger.balance_sub hc hpairs t { adjustmentSnapshotId := some snapshot_id } true
    have hanch : s'.balance entity_id currency t {} true =
        s'.balance entity_id currency t { adjustmentSnapshotId := some snapshot_id } true + v := by
      rw [Ledger.balance_eq_window, Ledger.balance_eq_window, Ledger.window_congr hpairs, hsum]
      ring
    rw [hanch, hsub, hval, hb]
    ring

/-- What setting the adjustment of a snapshot leaves behind: one own row `(k, b)` of the amount, in
the interval of the snapshot, and every other row as it was. -/
structure AdjustmentSet (s s' : Ledger) (n : ℕ × BalanceSnapshot) (amount : ℚ) (k : ℕ)
    (b : Transaction) : Prop where
  charges : Ledger.SameCharges s s'
  snapshots : s'.snapshots = s.snapshots
  timezone : s'.timezone = s.timezone
  links : s'.links = s.links
  own : ∀ x, Own s' n.1 x ↔ x = (k, b)
  place : b.entityId = n.2.entityId ∧ b.currency = n.2.currency ∧ b.paymentCurrency = none
  total : b.totalValue = some amount
  lands : Lands s n b.timestamp
  old : ∀ x ∈ s'.transactions.rows, x ≠ (k, b) → x ∈ s.transactions.rows
  kept : ∀ x ∈ s.transactions.rows, ¬ Own s n.1 x → x ∈ s'.transactions.rows
  uncharged : ¬ s.Charged k
  value : ∀ p, s'.cashOver n.2.entityId n.2.currency { adjustmentSnapshotId := some n.1 } p =
    s.cashOver n.2.entityId n.2.currency { adjustmentSnapshotId := some n.1 } p
  frame : ∀ entity_id currency p, (Ledger.inPair entity_id currency (k, b) = true →
    p b.timestamp = false) → s'.cashOver entity_id currency {} p = s.cashOver entity_id currency {} p

/-- A row outside the pair or outside the instants has no share. -/
theorem share_eq_zero_of_imp {entity_id : ℕ} {currency : Currency} {p : Timestamp → Bool}
    {x : ℕ × Transaction} (h : Ledger.inPair entity_id currency x = true → p x.2.timestamp = false)
    (ex : Exclude) : Ledger.share entity_id currency ex p x = 0 := by
  by_cases hp : Ledger.inPair entity_id currency x = true
  · exact Ledger.share_of_not_mem (h hp)
  · exact Ledger.share_of_not_inPair (Bool.eq_false_iff.mpr hp)

theorem share_own_eq_zero {snapshot_id k : ℕ} {t : Transaction} (ht : t.type = .balanceAdjustment)
    (hs : t.balanceSnapshotId = some snapshot_id) (entity_id : ℕ) (currency : Currency)
    (p : Timestamp → Bool) :
    Ledger.share entity_id currency { adjustmentSnapshotId := some snapshot_id } p (k, t) = 0 := by
  simp [Ledger.share, cashMove, Exclude.keeps, Transaction.isAdjustment, ht, hs]

theorem exists_adjustmentSet {n : ℕ × BalanceSnapshot} (h : OwnAdjustment s n) (amount : ℚ) :
    ∃ k b, AdjustmentSet s (s.setSnapshotAdjustment n.2.entityId n.2.currency n.1 n.2.timestamp
      amount) n amount k b := by
  rcases Ledger.setSnapshotAdjustment_cases s n.2.entityId n.2.currency n.1 n.2.timestamp amount with
    ⟨⟨k, a⟩, hr, he⟩ | ⟨hr, he⟩
  · obtain ⟨hm, hent, hcur, htype, hsid⟩ := Ledger.getAdjustmentTransaction_eq_some hr
    have hown : Own s n.1 (k, a) := ⟨hm, htype, hsid⟩
    obtain ⟨-, -, hpay, hch⟩ := h.home _ hown
    refine ⟨k, withAmount amount (Ledger.snapshotNotes n.2.timestamp) a, ?_⟩
    rw [he]
    refine ⟨.modify fun hc => absurd hc hch, rfl, rfl, rfl, fun x => ?_, ⟨hent, hcur, hpay⟩, rfl,
      h.lands _ hown, ?_, ?_, hch, fun p => ?_, fun e c p hp => ?_⟩
    · obtain ⟨j, x⟩ := x
      constructor
      · rintro ⟨hx, hxt, hxs⟩
        rcases Table.mem_modify.mp hx with ⟨hj, hx⟩ | ⟨rfl, a', ha', rfl⟩
        · exact absurd (Prod.ext_iff.mp (h.single _ _ ⟨hx, hxt, hxs⟩ hown)).1 hj
        · rw [s.transactions.unique ha' hm]
      · rintro he'
        obtain ⟨rfl, rfl⟩ := Prod.mk.inj he'
        exact ⟨Table.mem_modify.mpr (.inr ⟨rfl, a, hm, rfl⟩), htype, hsid⟩
    · rintro ⟨j, x⟩ hx hne
      rcases Table.mem_modify.mp hx with ⟨-, hx⟩ | ⟨rfl, a', ha', rfl⟩
      · exact hx
      · exact absurd (by rw [s.transactions.unique ha' hm]) hne
    · rintro ⟨j, x⟩ hx hno
      refine Table.mem_modify.mpr (.inl ⟨?_, hx⟩)
      rintro rfl
      rw [s.transactions.unique hx hm] at hno
      exact hno hown
    · rw [Ledger.cashOver_modify _ hm, share_own_eq_zero htype hsid,
        share_own_eq_zero (t := withAmount amount _ a) htype hsid, sub_zero, add_zero]
    · rw [Ledger.cashOver_modify _ hm, share_eq_zero_of_imp hp,
        share_eq_zero_of_imp (x := (k, a)) hp, sub_zero, add_zero]
  · have hno : ∀ x, ¬ Own s n.1 x := fun x hx => by
      obtain ⟨hent, hcur, -, -⟩ := h.home x hx
      exact Ledger.getAdjustmentTransaction_eq_none hr x hx.1 hent hcur hx.2.1 hx.2.2
    refine ⟨s.transactions.next, adjustmentRow n.2.entityId n.2.currency amount
      (s.timezone.adjustmentTimestamp n.2.timestamp) (some n.1)
      (Ledger.snapshotNotes n.2.timestamp), ?_⟩
    rw [he]
    refine ⟨.insert _ _, rfl, rfl, rfl, fun x => ?_, ⟨rfl, rfl, rfl⟩, rfl, h.opens hno, ?_, ?_,
      fun hc => lt_irrefl _ hc.lt, fun p => ?_, fun e c p hp => ?_⟩
    · constructor
      · rintro ⟨hx, hxt, hxs⟩
        rcases Table.mem_insert.mp hx with hx | hx
        · exact absurd ⟨hx, hxt, hxs⟩ (hno x)
        · exact hx
      · rintro rfl
        exact ⟨Table.mem_insert.mpr (.inr rfl), rfl, rfl⟩
    · intro x hx hne
      exact (Table.mem_insert.mp hx).resolve_right hne
    · exact fun x hx _ => Table.mem_insert.mpr (.inl hx)
    · rw [Ledger.cashOver_insert, share_own_eq_zero (t := adjustmentRow _ _ _ _ _ _) rfl rfl, add_zero]
    · rw [Ledger.cashOver_insert, share_eq_zero_of_imp hp, add_zero]

namespace AdjustmentSet

variable {n : ℕ × BalanceSnapshot} {amount expected : ℚ} {k : ℕ} {b : Transaction}

/-- The snapshot, and those that share its pair and instant, now read expected plus adjustment. -/
theorem getBalanceAtDate (h : AdjustmentSet s s' n amount k b) (hn : n ∈ s.snapshots.rows)
    (hexp : s.getBalanceAtDate n.2.entityId n.2.currency n.2.timestamp
      { adjustmentSnapshotId := some n.1 } = some expected) :
    s'.getBalanceAtDate n.2.entityId n.2.currency n.2.timestamp = some (expected + amount) := by
  obtain ⟨he, hc, hp⟩ := h.place
  refine getBalanceAtDate_of_own h.charges h.snapshots hexp (h.value _) ?_ h.own ?_ ?_ h.total
  · exact fun x hx hno => h.old x hx fun hxk => hno ((h.own x).mpr hxk)
  · exact Ledger.inPair_iff.mpr ⟨he, by simp [Transaction.cashPocket, hp, hc]⟩
  · exact ((h.lands.counts_iff hn).mpr ⟨rfl, rfl, rfl⟩).2.2

theorem settledBut (h : AdjustmentSet s s' n amount k b) (hn : n ∈ s.snapshots.rows)
    (hA : SettledBut A s)
    (hexp : s.getBalanceAtDate n.2.entityId n.2.currency n.2.timestamp
      { adjustmentSnapshotId := some n.1 } = some expected)
    (hamount : ∀ r ∈ s.snapshots.rows, r.2.entityId = n.2.entityId → r.2.currency = n.2.currency →
      r.2.timestamp = n.2.timestamp → r.2.amount = expected + amount) :
    SettledBut (fun r => A r ∧ ¬ (r.2.entityId = n.2.entityId ∧ r.2.currency = n.2.currency ∧
      r.2.timestamp = n.2.timestamp)) s' := by
  intro r hr
  rw [h.snapshots] at hr
  by_cases hgroup : r.2.entityId = n.2.entityId ∧ r.2.currency = n.2.currency ∧
      r.2.timestamp = n.2.timestamp
  · obtain ⟨he, hc, ht⟩ := hgroup
    left
    rw [Settled, he, hc, ht, hamount r hr he hc ht]
    exact h.getBalanceAtDate hn hexp
  refine (hA r hr).imp (fun hset => ?_) fun ha => ⟨ha, hgroup⟩
  -- The adjustment lies outside the interval of `r`: its share is nothing before and after.
  obtain ⟨he, hc, hp⟩ := h.place
  have hcount : ¬ Counts s n.2.entityId n.2.currency b.timestamp r :=
    fun hcount => hgroup ((h.lands.counts_iff hr).mp hcount)
  have hout : Ledger.inPair r.2.entityId r.2.currency (k, b) = true →
      s.window r.2.entityId r.2.currency true r.2.timestamp b.timestamp = false := by
    intro hpair
    refine Bool.eq_false_iff.mpr fun hw => ?_
    obtain ⟨hre, hrc⟩ := Ledger.inPair_iff.mp hpair
    have hrc' : b.currency = r.2.currency := by simpa [Transaction.cashPocket, hp] using hrc
    refine hcount ⟨hre.symm.trans he, hrc'.symm.trans hc, ?_⟩
    rw [← he, ← hc, hre, hrc']
    exact hw
  refine hset.congr h.charges h.snapshots (h.frame _ _ _ hout) ?_
  · intro x hx hpair hw
    by_cases hxk : x = (k, b)
    · subst hxk; rw [hout hpair] at hw; cases hw
    · exact .inl (h.old x hx hxk)

/-- Adjustments stay in place, the own one of `n` included. -/
theorem ownAdjustment (h : AdjustmentSet s s' n amount k b) (hn : n ∈ s.snapshots.rows)
    {m : ℕ × BalanceSnapshot} (hm : m ∈ s.snapshots.rows) (hown : OwnAdjustment s m) :
    OwnAdjustment s' m := by
  have hkb : Own s' n.1 (k, b) := (h.own _).mpr rfl
  by_cases hid : m.1 = n.1
  · obtain ⟨i, m⟩ := m
    obtain ⟨j, n⟩ := n
    simp only at hid
    subst hid
    obtain rfl := s.snapshots.unique hm hn
    obtain ⟨he, hc, hp⟩ := h.place
    refine ⟨fun x hx => ?_, fun x y hx hy => ?_, fun x hx => ?_, fun hno => absurd hkb (hno _)⟩
    · obtain rfl := (h.own x).mp hx
      exact ⟨he, hc, hp, fun hch => h.uncharged ((h.charges.charged_iff _).mp hch)⟩
    · rw [(h.own x).mp hx, (h.own y).mp hy]
    · obtain rfl := (h.own x).mp hx
      exact (Lands.congr h.snapshots).mpr h.lands
  · refine hown.congr h.snapshots h.timezone (fun x _ => (h.charges.charged_iff x.1).mp)
      fun x => ?_
    constructor
    · rintro ⟨hx, ht, hs⟩
      refine ⟨h.old x hx ?_, ht, hs⟩
      rintro rfl
      rw [hkb.2.2] at hs
      exact hid (Option.some_inj.mp hs).symm
    · rintro ⟨hx, ht, hs⟩
      refine ⟨h.kept x hx fun hxn => ?_, ht, hs⟩
      rw [hxn.2.2] at hs
      exact hid (Option.some_inj.mp hs).symm

end AdjustmentSet

/-! ## The refresh -/

/-- What a call keeps besides the balances: the snapshots and their adjustments. -/
structure KeepsOwn (s s' : Ledger) : Prop where
  snapshots : s'.snapshots = s.snapshots
  own : ∀ m ∈ s.snapshots.rows, OwnAdjustment s m → OwnAdjustment s' m
  owned : ∀ id, (∃ x, Own s id x) → ∃ x, Own s' id x
  origin : ∀ id x, Own s' id x → (∃ y, Own s id y) ∨ ∃ n, (id, n) ∈ s.snapshots.rows

/-- What every pass keeps, the charges included. -/
structure PassFrame (s s' : Ledger) : Prop extends KeepsOwn s s' where
  charges : Ledger.SameCharges s s'

theorem KeepsOwn.refl (s : Ledger) : KeepsOwn s s :=
  ⟨rfl, fun _ _ h => h, fun _ h => h, fun _ x h => .inl ⟨x, h⟩⟩

theorem KeepsOwn.trans {s'' : Ledger} (h : KeepsOwn s s') (h' : KeepsOwn s' s'') :
    KeepsOwn s s'' where
  snapshots := h'.snapshots.trans h.snapshots
  own m hm ho := h'.own m (by rw [h.snapshots]; exact hm) (h.own m hm ho)
  owned id ho := h'.owned id (h.owned id ho)
  origin id x hx := by
    rcases h'.origin id x hx with ⟨y, hy⟩ | ⟨n, hn⟩
    · exact h.origin id y hy
    · exact .inr ⟨n, h.snapshots ▸ hn⟩

/-- Writes that leave the adjustments of all snapshots alone. -/
theorem KeepsOwn.of_own (hs : s'.snapshots = s.snapshots) (htz : s'.timezone = s.timezone)
    (hc : ∀ id x, Own s id x → s'.Charged x.1 → s.Charged x.1)
    (hown : ∀ id x, Own s' id x ↔ Own s id x) : KeepsOwn s s' :=
  ⟨hs, fun m _ hm => hm.congr hs htz (hc m.1) (hown m.1), fun id ⟨x, hx⟩ => ⟨x, (hown id x).mpr hx⟩,
    fun id x hx => .inl ⟨x, (hown id x).mp hx⟩⟩

theorem PassFrame.refl (s : Ledger) : PassFrame s s := ⟨.refl s, .refl s⟩

theorem PassFrame.trans {s'' : Ledger} (h : PassFrame s s') (h' : PassFrame s' s'') :
    PassFrame s s'' := ⟨h.toKeepsOwn.trans h'.toKeepsOwn, h.charges.trans h'.charges⟩

/-- Writing the adjustment of a snapshot keeps the frame. -/
theorem AdjustmentSet.passFrame {n : ℕ × BalanceSnapshot} {amount : ℚ} {k : ℕ} {b : Transaction}
    (h : AdjustmentSet s s' n amount k b) (hn : n ∈ s.snapshots.rows) : PassFrame s s' where
  charges := h.charges
  snapshots := h.snapshots
  own _ hm := h.ownAdjustment hn hm
  owned id := by
    rintro ⟨x, hx⟩
    by_cases hxn : Own s n.1 x
    · have hid : id = n.1 := Option.some_inj.mp (hx.2.2.symm.trans hxn.2.2)
      exact ⟨_, hid ▸ (h.own _).mpr rfl⟩
    · exact ⟨x, h.kept x hx.1 hxn, hx.2⟩
  origin id x hx := by
    by_cases hxk : x = (k, b)
    · have hxn := (h.own x).mpr hxk
      have hid : id = n.1 := Option.some_inj.mp (hx.2.2.symm.trans hxn.2.2)
      exact .inr ⟨n.2, hid ▸ hn⟩
    · exact .inl ⟨x, h.old x hx.1 hxk, hx.2⟩

theorem TiesAgree.congr (h : TiesAgree s) (hs : s'.snapshots = s.snapshots) : TiesAgree s' := by
  unfold TiesAgree; rw [hs]; exact h

/-- The refresh settles the snapshots after its instant. -/
theorem SettledBut.recalculateAdjustments {entity_id : ℕ} {currency : Currency} {t : Timestamp}
    (h : SettledBut A s) (hties : TiesAgree s)
    (hok : s.recalculateAdjustments entity_id currency t = .ok s')
    (hown : ∀ n, s.getNextSnapshot entity_id currency t = some n → OwnAdjustment s n) :
    PassFrame s s' ∧ SettledBut (fun r => A r ∧ ¬ Group s entity_id currency t r) s' := by
  rcases Ledger.recalculateAdjustments_cases hok with ⟨hn, rfl⟩ | ⟨n, expected, hn, hexp, he⟩
  · refine ⟨.refl _, h.mono fun r _ ha => ⟨ha, ?_⟩⟩
    rintro ⟨n, hn', -⟩
    rw [hn] at hn'; cases hn'
  obtain ⟨hnm, rfl, rfl⟩ := getNextSnapshot_mem hn
  obtain ⟨k, b, hset⟩ := exists_adjustmentSet (hown n hn) (n.2.amount - expected)
  rw [← he] at hset
  refine ⟨hset.passFrame hnm, ?_⟩
  refine (hset.settledBut hnm h hexp ?_).mono fun r _ hr => ⟨hr.1, ?_⟩
  · intro r hr he' hc' ht'
    rw [hties r hr n hnm he' hc' ht']
    ring
  · rintro ⟨n', hn', he', hc', ht'⟩
    rw [hn] at hn'
    obtain rfl := Option.some_inj.mp hn'
    exact hr.2 ⟨he', hc', ht'⟩

end FinHub
