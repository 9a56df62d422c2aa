import FinHub.Recording.Passes

/-!
# FinHub.Recording.Attachment

The attachment invariant of inferred cash. Every standalone injection is linked to a spend of the
day it funds, every link joins such a pair, and an entity has one injection per pocket and day.

* `AttachedExcept pending`: the invariant while some injections still wait for their link. Each
  primitive write has one lemma.
* the passes: `recalculateAdjustments` does not touch it, `ensureCash` leaves at most the injection
  of its own day pending and `linkInjection` settles that one, `refreshInjections` and
  `deleteInjectionIfUnlinked` settle what an edit or a deletion left pending.
* `attachment_of_reaches`: every run whose calls meet `AttachmentAllowed` stays attached.
-/

namespace FinHub

open Tabular

/-- What a link says of the two rows it names. -/
structure Joins (adj spend : Transaction) : Prop where
  injection : Ledger.isInjection adj = true
  isSpend : spend.type.isSpend = true
  entity : spend.entityId = adj.entityId
  pocket : spend.cashPocket = adj.currency
  day : Time.dayOf spend.timestamp = Time.dayOf adj.timestamp + 1

/-- The attachment invariant, but for the injections in `pending`, which may have no link yet. -/
structure AttachedExcept (pending : ℕ → Prop) (s : Ledger) : Prop where
  linked : ∀ id t, (id, t) ∈ s.transactions.rows → Ledger.isInjection t = true → ¬ pending id →
    ∃ l ∈ s.links, l.balanceAdjustmentId = id
  joins : ∀ l ∈ s.links, ∃ adj spend, (l.balanceAdjustmentId, adj) ∈ s.transactions.rows ∧
    (l.linkedTransactionId, spend) ∈ s.transactions.rows ∧ Joins adj spend
  shape : ∀ id t, (id, t) ∈ s.transactions.rows → Ledger.isInjection t = true →
    t.paymentCurrency = none ∧ t.timestamp = Time.endOfDay (Time.dayOf t.timestamp)
  unique : ∀ i j a b, (i, a) ∈ s.transactions.rows → (j, b) ∈ s.transactions.rows →
    Ledger.isInjection a = true → Ledger.isInjection b = true → a.entityId = b.entityId →
    a.currency = b.currency → a.timestamp = b.timestamp → i = j

abbrev Attached (s : Ledger) : Prop := AttachedExcept (fun _ => False) s

/-- A rewritten row that its links cannot tell from the old one. -/
structure KeepsAttachment (linked : Prop) (t t' : Transaction) : Prop where
  injection : Ledger.isInjection t' = Ledger.isInjection t
  place : Ledger.isInjection t = true → t'.entityId = t.entityId ∧ t'.currency = t.currency ∧
    t'.paymentCurrency = t.paymentCurrency ∧ t'.timestamp = t.timestamp
  spend : linked → t.type.isSpend = true → t'.type.isSpend = true ∧ t'.entityId = t.entityId ∧
    t'.cashPocket = t.cashPocket ∧ Time.dayOf t'.timestamp = Time.dayOf t.timestamp

theorem KeepsAttachment.refl (linked : Prop) (t : Transaction) : KeepsAttachment linked t t :=
  ⟨rfl, fun _ => ⟨rfl, rfl, rfl, rfl⟩, fun _ h => ⟨h, rfl, rfl, rfl⟩⟩

theorem isSpend_of_isInjection {t : Transaction} (h : Ledger.isInjection t = true) :
    t.type.isSpend = false := by
  rw [(Ledger.isInjection_iff.mp h).1]; rfl

theorem likeInferredCash_injectionNotes : likeInferredCash (some Ledger.injectionNotes) = true := by
  decide +kernel

theorem isInjection_withAmount {t : Transaction} (h : Ledger.isInjection t = true) (amount : ℚ) :
    Ledger.isInjection (withAmount amount Ledger.injectionNotes t) = true := by
  obtain ⟨ht, hs, -⟩ := Ledger.isInjection_iff.mp h
  exact Ledger.isInjection_iff.mpr ⟨ht, hs, likeInferredCash_injectionNotes⟩

/-- A new amount on an injection. -/
theorem KeepsAttachment.withAmount {linked : Prop} {t : Transaction}
    (h : Ledger.isInjection t = true) (amount : ℚ) :
    KeepsAttachment linked t (FinHub.withAmount amount Ledger.injectionNotes t) where
  injection := by rw [isInjection_withAmount h, h]
  place _ := ⟨rfl, rfl, rfl, rfl⟩
  spend _ hs := by rw [isSpend_of_isInjection h] at hs; cases hs

theorem isInjection_of_snapshot {t : Transaction} {sid : ℕ} (h : t.balanceSnapshotId = some sid) :
    Ledger.isInjection t = false := by
  rw [Bool.eq_false_iff]
  intro hi
  have := (Ledger.isInjection_iff.mp hi).2.1
  rw [h] at this; cases this

namespace AttachedExcept

variable {s s' : Ledger} {pending : ℕ → Prop}

/-! ## Primitive writes -/

theorem mono {pending' : ℕ → Prop} (h : AttachedExcept pending s)
    (hp : ∀ id t, (id, t) ∈ s.transactions.rows → Ledger.isInjection t = true → pending id →
      pending' id) : AttachedExcept pending' s where
  linked id t hm hi hn := h.linked id t hm hi fun hpend => hn (hp id t hm hi hpend)
  joins := h.joins
  shape := h.shape
  unique := h.unique

theorem congr (h : AttachedExcept pending s) (ht : s'.transactions = s.transactions)
    (hl : s'.links = s.links) : AttachedExcept pending s' := by
  obtain ⟨h1, h2, h3, h4⟩ := h
  constructor <;> rw [ht] <;> try rw [hl]
  · exact h1
  · exact h2
  · exact h3
  · exact h4

/-- A link never has a spend on its left or an injection on its right. -/
theorem linked_isSpend (h : AttachedExcept pending s) {l : Link} (hl : l ∈ s.links)
    {t : Transaction} (ht : (l.linkedTransactionId, t) ∈ s.transactions.rows) :
    t.type.isSpend = true := by
  obtain ⟨adj, spend, -, hs, hj⟩ := h.joins l hl
  rw [s.transactions.unique ht hs]; exact hj.isSpend

theorem adjustment_isInjection (h : AttachedExcept pending s) {l : Link} (hl : l ∈ s.links)
    {t : Transaction} (ht : (l.balanceAdjustmentId, t) ∈ s.transactions.rows) :
    Ledger.isInjection t = true := by
  obtain ⟨adj, spend, ha, -, hj⟩ := h.joins l hl
  rw [s.transactions.unique ht ha]; exact hj.injection

theorem modify (h : AttachedExcept pending s) {k : ℕ} {f : Transaction → Transaction}
    (hf : ∀ t, (k, t) ∈ s.transactions.rows →
      KeepsAttachment (∃ l ∈ s.links, l.linkedTransactionId = k) t (f t)) :
    AttachedExcept pending (s.modifyTransaction k f) := by
  -- Every row of the new table is an old one under the same id, up to `KeepsAttachment`.
  have hback : ∀ j b, (j, b) ∈ (s.transactions.modify k f).rows →
      ∃ a, (j, a) ∈ s.transactions.rows ∧
        KeepsAttachment (∃ l ∈ s.links, l.linkedTransactionId = j) a b := by
    intro j b hb
    rcases Table.mem_modify.mp hb with ⟨-, hm⟩ | ⟨rfl, a, hm, rfl⟩
    · exact ⟨b, hm, .refl _ _⟩
    · exact ⟨a, hm, hf a hm⟩
  have hforth : ∀ j a, (j, a) ∈ s.transactions.rows →
      ∃ b, (j, b) ∈ (s.transactions.modify k f).rows ∧
        KeepsAttachment (∃ l ∈ s.links, l.linkedTransactionId = j) a b := by
    intro j a ha
    by_cases hj : j = k
    · subst hj; exact ⟨f a, Table.mem_modify.mpr (.inr ⟨rfl, a, ha, rfl⟩), hf a ha⟩
    · exact ⟨a, Table.mem_modify.mpr (.inl ⟨hj, ha⟩), .refl _ _⟩
  constructor
  · intro id t ht hi hn
    obtain ⟨a, ha, hk⟩ := hback id t ht
    exact h.linked id a ha (by rw [← hk.injection]; exact hi) hn
  · intro l hl
    obtain ⟨adj, spend, ha, hs, hj⟩ := h.joins l hl
    obtain ⟨adj', ha', hka⟩ := hforth _ _ ha
    obtain ⟨spend', hs', hks⟩ := hforth _ _ hs
    obtain ⟨he, hc, -, htime⟩ := hka.place hj.injection
    obtain ⟨hsp, hse, hsc, hsd⟩ := hks.spend ⟨l, hl, rfl⟩ hj.isSpend
    refine ⟨adj', spend', ha', hs', ⟨by rw [hka.injection]; exact hj.injection, hsp, ?_, ?_, ?_⟩⟩
    · rw [hse, he, hj.entity]
    · rw [hsc, hc, hj.pocket]
    · rw [hsd, htime, hj.day]
  · intro id t ht hi
    obtain ⟨a, ha, hk⟩ := hback id t ht
    have hia : Ledger.isInjection a = true := by rw [← hk.injection]; exact hi
    obtain ⟨-, -, hp, htime⟩ := hk.place hia
    rw [hp, htime]
    exact h.shape id a ha hia
  · intro i j a b ha hb hia hib he hc ht
    obtain ⟨a', ha', hka⟩ := hback i a ha
    obtain ⟨b', hb', hkb⟩ := hback j b hb
    have hia' : Ledger.isInjection a' = true := by rw [← hka.injection]; exact hia
    have hib' : Ledger.isInjection b' = true := by rw [← hkb.injection]; exact hib
    obtain ⟨hae, hac, -, hat⟩ := hka.place hia'
    obtain ⟨hbe, hbc, -, hbt⟩ := hkb.place hib'
    exact h.unique i j a' b' ha' hb' hia' hib' (by rw [← hae, ← hbe, he])
      (by rw [← hac, ← hbc, hc]) (by rw [← hat, ← hbt, ht])

/-- A row that is no injection. -/
theorem insert (h : AttachedExcept pending s) {row : Transaction}
    (hrow : Ledger.isInjection row = false) : AttachedExcept pending (s.insertTransaction row) := by
  have hold : ∀ id t, (id, t) ∈ (s.transactions.insert row).rows → Ledger.isInjection t = true →
      (id, t) ∈ s.transactions.rows := by
    intro id t ht hi
    rcases Table.mem_insert.mp ht with hm | he
    · exact hm
    · cases he; rw [hrow] at hi; cases hi
  constructor
  · exact fun id t ht hi => h.linked id t (hold id t ht hi) hi
  · intro l hl
    obtain ⟨adj, spend, ha, hs, hj⟩ := h.joins l hl
    exact ⟨adj, spend, Table.mem_insert.mpr (.inl ha), Table.mem_insert.mpr (.inl hs), hj⟩
  · exact fun id t ht hi => h.shape id t (hold id t ht hi) hi
  · exact fun i j a b ha hb hia hib => h.unique i j a b (hold i a ha hia) (hold j b hb hib) hia hib

/-- An injection on a free pocket and day; it waits for its link. -/
theorem insertInjection (h : AttachedExcept pending s) {row : Transaction}
    (hp : row.paymentCurrency = none)
    (hshape : row.timestamp = Time.endOfDay (Time.dayOf row.timestamp))
    (hfree : s.getInjectedAdjustmentAt row.entityId row.currency row.timestamp = none) :
    AttachedExcept (fun id => pending id ∨ id = s.transactions.next) (s.insertTransaction row) := by
  have hnew := Ledger.getInjectedAdjustmentAt_eq_none hfree
  constructor
  · intro id t ht hi hn
    rcases Table.mem_insert.mp ht with hm | he
    · exact h.linked id t hm hi fun hpend => hn (.inl hpend)
    · cases he; exact absurd (.inr rfl) hn
  · intro l hl
    obtain ⟨adj, spend, ha, hs, hj⟩ := h.joins l hl
    exact ⟨adj, spend, Table.mem_insert.mpr (.inl ha), Table.mem_insert.mpr (.inl hs), hj⟩
  · intro id t ht hi
    rcases Table.mem_insert.mp ht with hm | he
    · exact h.shape id t hm hi
    · cases he; exact ⟨hp, hshape⟩
  · intro i j a b ha hb hia hib he hc htime
    rcases Table.mem_insert.mp ha with ha | ha <;> rcases Table.mem_insert.mp hb with hb | hb
    · exact h.unique i j a b ha hb hia hib he hc htime
    · cases hb; exact absurd htime (hnew _ ha he hc hia)
    · cases ha; exact absurd htime.symm (hnew _ hb he.symm hc.symm hib)
    · cases ha; cases hb; rfl

/-- Rows that no link names can go. -/
theorem remove (h : AttachedExcept pending s) {p : ℕ × Transaction → Bool}
    (hp : ∀ l ∈ s.links, ∀ r ∈ s.transactions.rows, p r = true →
      r.1 ≠ l.balanceAdjustmentId ∧ r.1 ≠ l.linkedTransactionId) :
    AttachedExcept pending (s.removeTransactions p) := by
  have hold : ∀ r, r ∈ (s.transactions.removeWhere p).rows → r ∈ s.transactions.rows :=
    fun r hr => (Table.mem_removeWhere.mp hr).1
  constructor
  · exact fun id t ht => h.linked id t (hold _ ht)
  · intro l hl
    obtain ⟨adj, spend, ha, hs, hj⟩ := h.joins l hl
    refine ⟨adj, spend, Table.mem_removeWhere.mpr ⟨ha, ?_⟩, Table.mem_removeWhere.mpr ⟨hs, ?_⟩, hj⟩
    · exact Bool.eq_false_iff.mpr fun hpa => (hp l hl _ ha hpa).1 rfl
    · exact Bool.eq_false_iff.mpr fun hps => (hp l hl _ hs hps).2 rfl
  · exact fun id t ht => h.shape id t (hold _ ht)
  · exact fun i j a b ha hb => h.unique i j a b (hold _ ha) (hold _ hb)

/-- The injections of the dropped links become pending. -/
theorem removeLinks (h : AttachedExcept pending s) (p : Link → Bool) :
    AttachedExcept (fun id => pending id ∨ ∃ l ∈ s.links, l.balanceAdjustmentId = id ∧ p l = true)
      (s.removeLinks p) := by
  constructor
  · intro id t ht hi hn
    obtain ⟨l, hl, hid⟩ := h.linked id t ht hi fun hpend => hn (.inl hpend)
    refine ⟨l, List.mem_filter.mpr ⟨hl, ?_⟩, hid⟩
    by_contra hpl
    exact hn (.inr ⟨l, hl, hid, by simpa using hpl⟩)
  · exact fun l hl => h.joins l (List.mem_of_mem_filter hl)
  · exact h.shape
  · exact h.unique

theorem link (h : AttachedExcept pending s) {a k : ℕ} {adj spend : Transaction}
    (ha : (a, adj) ∈ s.transactions.rows) (hk : (k, spend) ∈ s.transactions.rows)
    (hj : Joins adj spend) :
    AttachedExcept (fun id => pending id ∧ id ≠ a) (s.linkAdjustmentToTransaction a k) := by
  have hmem := fun l => Ledger.mem_linkAdjustmentToTransaction (l := l)
    (s.transactions.bounded _ ha) (s.transactions.bounded _ hk)
  have htx := s.linkAdjustmentToTransaction_transactions a k
  constructor <;> rw [htx]
  · intro id t ht hi hn
    by_cases hid : id = a
    · exact ⟨⟨a, k⟩, (hmem _).mpr (.inr rfl), hid.symm⟩
    · obtain ⟨l, hl, he⟩ := h.linked id t ht hi fun hp => hn ⟨hp, hid⟩
      exact ⟨l, (hmem _).mpr (.inl hl), he⟩
  · intro l hl
    rcases (hmem l).mp hl with hl | rfl
    · exact h.joins l hl
    · exact ⟨adj, spend, ha, hk, hj⟩
  · exact h.shape
  · exact h.unique

/-! ## Snapshot adjustments -/

theorem setSnapshotAdjustment (h : AttachedExcept pending s) (entity_id : ℕ) (currency : Currency)
    (snapshot_id : ℕ) (timestamp : Timestamp) (amount : ℚ) :
    AttachedExcept pending
      (s.setSnapshotAdjustment entity_id currency snapshot_id timestamp amount) := by
  rcases Ledger.setSnapshotAdjustment_cases s entity_id currency snapshot_id timestamp amount with
    ⟨r, hr, he⟩ | ⟨-, he⟩
  · obtain ⟨hm, -, -, htype, hsid⟩ := Ledger.getAdjustmentTransaction_eq_some hr
    rw [he]
    refine h.modify fun t ht => ?_
    obtain rfl : t = r.2 := s.transactions.unique ht hm
    have hno := isInjection_of_snapshot hsid
    refine ⟨?_, fun hi => (by rw [hno] at hi; cases hi), fun _ hs => (by rw [htype] at hs; cases hs)⟩
    rw [hno]
    exact isInjection_of_snapshot (t := withAmount amount _ r.2) hsid
  · rw [he]
    have hsid : (adjustmentRow entity_id currency amount (s.timezone.adjustmentTimestamp timestamp)
        (some snapshot_id) (Ledger.snapshotNotes timestamp)).balanceSnapshotId = some snapshot_id := rfl
    exact h.insert (isInjection_of_snapshot hsid)

theorem recalculateAdjustments (h : AttachedExcept pending s) {entity_id : ℕ} {currency : Currency}
    {timestamp : Timestamp} (hok : s.recalculateAdjustments entity_id currency timestamp = .ok s') :
    AttachedExcept pending s' := by
  rcases Ledger.recalculateAdjustments_cases hok with ⟨-, rfl⟩ | ⟨next, expected, -, -, rfl⟩
  · exact h
  · exact h.setSnapshotAdjustment _ _ _ _ _

theorem recalculateFor (h : AttachedExcept pending s) {body : TransactionCreate}
    (hok : s.recalculateFor body = .ok s') : AttachedExcept pending s' := by
  unfold Ledger.recalculateFor at hok
  split_ifs at hok
  · cases hok; exact h
  · exact h.recalculateAdjustments hok

theorem recalculateOld (h : AttachedExcept pending s) {body : TransactionCreate}
    {existing : Transaction} (hok : s.recalculateOld body existing = .ok s') :
    AttachedExcept pending s' := by
  unfold Ledger.recalculateOld at hok
  split_ifs at hok
  · cases hok; exact h
  · exact h.recalculateAdjustments hok
  · cases hok; exact h

end AttachedExcept

end FinHub
