import FinHub.Balance.Frame

/-!
# FinHub.Balance.Readable

When no balance query and no fee query can raise.

* `AllReadable`: both queries answer for every entity, currency, instant and exclusion.
* `BooksReadable`: the stored rows that are enough for it. A row that moves cash without an amount lies
  before every snapshot of its pair, and no fee takes a percentage of a missing total.
* `allReadable_iff`: the two are the same.
* `KeepsReadable`: what the passes of the services do to the rows, none of which is in the way.
-/

namespace FinHub

open Tabular

namespace Ledger

variable {s s' s'' : Ledger} {entity_id : ℕ} {currency : Currency} {timestamp : Timestamp}

/-- Both queries answer whatever they are asked. -/
def AllReadable (s : Ledger) : Prop :=
  (∀ entity_id currency timestamp ex inclusive_end,
    (s.getBalanceAtDate entity_id currency timestamp ex inclusive_end).isSome) ∧
  ∀ entity_id currency timestamp exclude_transaction_id,
    (s.computeFeeCashOutAt entity_id currency timestamp exclude_transaction_id).isSome

/-- A row that moves cash without an amount lies before every snapshot of its pair. -/
def Fits (s : Ledger) (t : Transaction) : Prop :=
  t.loopImpact = none → ∀ b ∈ s.snapshots.rows, b.2.entityId = t.entityId →
    b.2.currency = t.cashPocket → t.timestamp < b.2.timestamp

instance (s : Ledger) (t : Transaction) : Decidable (s.Fits t) :=
  inferInstanceAs (Decidable (_ → ∀ b ∈ s.snapshots.rows, _))

/-- The fee has an amount on its parent, unless the parent's entity is gone. -/
def FeeFits (s : Ledger) (f : TransactionFee) : Prop :=
  ∀ t, s.getTransaction f.transactionId = some t → (s.getEntity t.entityId).isSome →
    (feeAmount f t.totalValue).isSome

/-- The stored rows that the queries can read. -/
structure BooksReadable (s : Ledger) : Prop where
  rows : ∀ r ∈ s.transactions.rows, s.Fits r.2
  fees : ∀ f ∈ s.fees.rows, s.FeeFits f.2

/-! ## What the queries read -/

theorem feesReadable_of_fits (h : ∀ f ∈ s.fees.rows, s.FeeFits f.2) (ex : Option ℕ) :
    s.FeesReadable entity_id currency ex timestamp := by
  unfold FeesReadable computeFeeCashOutAt
  cases he : s.getEntity entity_id with
  | none => rfl
  | some entity =>
    simp only
    split_ifs with hmain
    · rfl
    · simp only [Option.bind_eq_bind, Option.isSome_bind, Option.isSome_some, Option.any_true]
      rw [Runs.isSome_mapM]
      intro x hx
      obtain ⟨id, hf, hg, hp⟩ := mem_feeRows.mp hx
      simp only [chargesParent, Bool.and_eq_true, decide_eq_true_eq] at hp
      rw [feeCharge, Option.isSome_map]
      refine h (id, x.1) hf x.2 hg ?_
      rw [hp.1.1, he]
      rfl

/-- A row that the loop meets for some instant comes after a snapshot of its pair. -/
theorem loopReadable_iff : (∀ entity_id currency timestamp ex,
    s.LoopReadable entity_id currency timestamp ex) ↔ ∀ r ∈ s.transactions.rows, s.Fits r.2 := by
  constructor
  · intro h r hr hnone b hb he hc
    by_contra hlt
    have hmem : b ∈ s.pairSnapshots r.2.entityId r.2.cashPocket := by
      simp [pairSnapshots, hb, he, hc]
    -- The query right after the row starts from a snapshot that is not later than the row.
    cases hp : s.getPreviousSnapshot r.2.entityId r.2.cashPocket (r.2.timestamp + 1) with
    | none =>
      have := Checkpoint.latestBefore_eq_none.mp hp b hmem
      exact hlt (lt_of_lt_of_le (Int.lt_succ _) this)
    | some p =>
      have hlast := Int.lt_add_one_iff.mp (getPreviousSnapshot_lt hp)
      have hsome := h _ _ _ {} p hp r hr (inPair_iff.mpr ⟨rfl, rfl⟩) (keeps_default r) hlast
        (Int.lt_succ _)
      rw [hnone] at hsome
      cases hsome
  · intro h entity_id currency timestamp ex p hp r hr hpair _ h1 _
    obtain ⟨he, hc⟩ := inPair_iff.mp hpair
    cases hi : r.2.loopImpact with
    | some x => rfl
    | none =>
      have hmem := (Checkpoint.latestBefore_eq_some hp).1
      simp only [pairSnapshots, List.mem_filter, Bool.and_eq_true, decide_eq_true_eq] at hmem
      have := h r hr hi p hmem.1 (hmem.2.1.trans he.symm) (hmem.2.2.trans hc.symm)
      exact absurd h1 (not_le.mpr this)

theorem allReadable_iff : s.AllReadable ↔ s.BooksReadable := by
  constructor
  · intro ⟨hbalance, hfees⟩
    refine ⟨loopReadable_iff.mp fun entity_id currency timestamp ex => ?_, fun f hf t hg he => ?_⟩
    · obtain ⟨x, hx⟩ := Option.isSome_iff_exists.mp (hbalance entity_id currency timestamp ex true)
      exact (readable_of_getBalanceAtDate hx).loop
    · obtain ⟨entity, he⟩ := Option.isSome_iff_exists.mp he
      -- The main currency of the entity, or any other without one, reads all fees of the entity.
      have hread := feesReadable_iff.mp (hfees t.entityId (entity.mainCurrency.getD t.currency)
        t.timestamp none) entity he (by cases entity.mainCurrency <;> simp) f hf t
        (parentOf_of_le hg rfl le_rfl)
      rwa [feeCharge, Option.isSome_map] at hread
  · intro h
    have hfees : ∀ entity_id currency timestamp ex,
        s.FeesReadable entity_id currency ex timestamp := fun _ _ _ ex => feesReadable_of_fits h.fees ex
    refine ⟨fun entity_id currency timestamp ex inclusive_end => ?_, fun e c t ex => hfees e c t ex⟩
    have hread : s.Readable entity_id currency timestamp ex :=
      ⟨hfees _ _ _ _, loopReadable_iff.mpr h.rows _ _ _ _⟩
    rw [hread.getBalanceAtDate inclusive_end]
    rfl

/-! ## What the services write -/

/-- What an edit keeps of a stored row: its entity and, once there is one, its total; an edited row has
an amount. -/
def SameOrAmount (t t' : Transaction) : Prop :=
  t'.entityId = t.entityId ∧ (t.totalValue.isSome → t'.totalValue.isSome) ∧
    (t' = t ∨ t'.loopImpact.isSome)

/-- Rows are edited so, come in with an amount, or go; the other tables stay. -/
structure KeepsReadable (s s' : Ledger) : Prop where
  snapshots : s'.snapshots = s.snapshots
  entities : s'.entities = s.entities
  fees : s'.fees = s.fees
  next : s.transactions.next ≤ s'.transactions.next
  rows : ∀ r ∈ s'.transactions.rows, (∃ t, (r.1, t) ∈ s.transactions.rows ∧ SameOrAmount t r.2) ∨
    (s.transactions.next ≤ r.1 ∧ r.2.loopImpact.isSome)

theorem SameOrAmount.refl (t : Transaction) : SameOrAmount t t := ⟨rfl, id, .inl rfl⟩

theorem SameOrAmount.trans {t t' t'' : Transaction} (h : SameOrAmount t t')
    (h' : SameOrAmount t' t'') : SameOrAmount t t'' := by
  obtain ⟨he, htotal, himpact⟩ := h
  obtain ⟨he', htotal', himpact'⟩ := h'
  refine ⟨he'.trans he, fun h => htotal' (htotal h), ?_⟩
  rcases himpact' with rfl | himpact'
  · exact himpact
  · exact .inr himpact'

theorem Fits.of_isSome {t : Transaction} (h : t.loopImpact.isSome) : s.Fits t := by
  intro hnone
  rw [hnone] at h
  cases h

theorem Fits.congr {t : Transaction} (h : s.Fits t) (hs : s'.snapshots = s.snapshots) : s'.Fits t := by
  intro hnone b hb
  rw [hs] at hb
  exact h hnone b hb

theorem FeeFits.mono {f : TransactionFee} (h : s.FeeFits f) (hent : s'.entities = s.entities)
    (hrows : ∀ t', s'.getTransaction f.transactionId = some t' → ∃ t,
      s.getTransaction f.transactionId = some t ∧ t'.entityId = t.entityId ∧
        (t.totalValue.isSome → t'.totalValue.isSome)) : s'.FeeFits f := by
  intro t' hg' he'
  obtain ⟨t, hg, he, htotal⟩ := hrows t' hg'
  have hsome := h t hg (by rw [getEntity, hent, he] at he'; exact he')
  unfold feeAmount at hsome ⊢
  cases hn : f.nature with
  | fixed => rfl
  | percentage | both | min =>
    simp only [hn, Option.isSome_map] at hsome ⊢
    exact htotal hsome

namespace KeepsReadable

theorem refl (s : Ledger) : KeepsReadable s s :=
  ⟨rfl, rfl, rfl, le_rfl, fun r hr => .inl ⟨r.2, hr, .refl r.2⟩⟩

theorem trans (h : KeepsReadable s s') (h' : KeepsReadable s' s'') : KeepsReadable s s'' where
  snapshots := h'.snapshots.trans h.snapshots
  entities := h'.entities.trans h.entities
  fees := h'.fees.trans h.fees
  next := h.next.trans h'.next
  rows r hr := by
    rcases h'.rows r hr with ⟨t', ht', hsame'⟩ | ⟨hnext, himpact⟩
    · rcases h.rows _ ht' with ⟨t, ht, hsame⟩ | ⟨hnext, himpact⟩
      · exact .inl ⟨t, ht, hsame.trans hsame'⟩
      · refine .inr ⟨hnext, ?_⟩
        rcases hsame'.2.2 with he | himpact'
        · rw [he]
          exact himpact
        · exact himpact'
    · exact .inr ⟨h.next.trans hnext, himpact⟩

theorem fits (h : KeepsReadable s s') {t : Transaction} (ht : s.Fits t) : s'.Fits t :=
  ht.congr h.snapshots

/-- The fees of a stored parent keep their amounts. -/
theorem feeFits (h : KeepsReadable s s') {f : TransactionFee} (hf : s.FeeFits f)
    (hlt : f.transactionId < s.transactions.next) : s'.FeeFits f := by
  refine hf.mono h.entities fun t' hg' => ?_
  rcases h.rows _ (mem_of_getTransaction hg') with ⟨t, ht, he, htotal, -⟩ | ⟨hnext, -⟩
  · exact ⟨t, getTransaction_of_mem ht, he, htotal⟩
  · exact absurd hlt (not_lt.mpr hnext)

theorem rowsFit (h : KeepsReadable s s') (hs : ∀ r ∈ s.transactions.rows, s.Fits r.2) :
    ∀ r ∈ s'.transactions.rows, s'.Fits r.2 := by
  intro r hr
  rcases h.rows r hr with ⟨t, ht, -, -, he | himpact⟩ | ⟨-, himpact⟩
  · rw [he]
    exact h.fits (hs _ ht)
  · exact .of_isSome himpact
  · exact .of_isSome himpact

theorem booksReadable (h : KeepsReadable s s') (hs : s.BooksReadable) : s'.BooksReadable where
  rows := h.rowsFit hs.rows
  fees f hf := by
    rw [h.fees] at hf
    exact h.feeFits (hs.fees f hf) (s.fees_lt f hf)

/-- Only the row table matters. -/
theorem of_transactions (hsnap : s'.snapshots = s.snapshots) (hent : s'.entities = s.entities)
    (hfees : s'.fees = s.fees) (ht : s'.transactions = s.transactions) : KeepsReadable s s' :=
  ⟨hsnap, hent, hfees, by rw [ht], fun r hr => .inl ⟨r.2, by rw [ht] at hr; exact hr, .refl r.2⟩⟩

theorem insert {t : Transaction} (h : t.loopImpact.isSome) : KeepsReadable s (s.insertTransaction t) where
  snapshots := rfl
  entities := rfl
  fees := rfl
  next := Nat.le_succ _
  rows r hr := by
    rcases Table.mem_insert.mp hr with hr | rfl
    · exact .inl ⟨r.2, hr, .refl r.2⟩
    · exact .inr ⟨le_rfl, h⟩

theorem modify {k : ℕ} {f : Transaction → Transaction}
    (h : ∀ t, (k, t) ∈ s.transactions.rows → SameOrAmount t (f t)) :
    KeepsReadable s (s.modifyTransaction k f) where
  snapshots := rfl
  entities := rfl
  fees := rfl
  next := le_rfl
  rows := by
    intro ⟨j, a⟩ hr
    rcases Table.mem_modify.mp hr with ⟨-, hr⟩ | ⟨rfl, b, hb, rfl⟩
    · exact .inl ⟨a, hr, .refl a⟩
    · exact .inl ⟨b, hb, h b hb⟩

theorem delete (s : Ledger) (k : ℕ) : KeepsReadable s (s.deleteTransaction k) where
  snapshots := rfl
  entities := rfl
  fees := rfl
  next := le_rfl
  rows r hr := .inl ⟨r.2, (Table.mem_erase.mp hr).1, .refl r.2⟩

end KeepsReadable

/-- A row with an amount can be read. -/
theorem isSome_loopImpact {t : Transaction} (h : t.cashAmount.isSome) : t.loopImpact.isSome := by
  unfold Transaction.loopImpact
  split_ifs
  · exact h
  · rw [Option.isSome_map]
    exact h
  · rfl
  · rfl

theorem loopImpact_withAmount (amount : ℚ) (notes : String) (t : Transaction) :
    (withAmount amount notes t).loopImpact.isSome := by
  refine isSome_loopImpact ?_
  unfold Transaction.cashAmount withAmount
  cases t.grossAmount <;> rfl

theorem loopImpact_adjustmentRow (entity_id : ℕ) (currency : Currency) (amount : ℚ)
    (timestamp : Timestamp) (snapshot_id : Option ℕ) (notes : String) :
    (adjustmentRow entity_id currency amount timestamp snapshot_id notes).loopImpact.isSome := by
  rw [Transaction.loopImpact_of_isAdjustment rfl]
  rfl

theorem KeepsReadable.withAmount (s : Ledger) (k : ℕ) (amount : ℚ) (notes : String) :
    KeepsReadable s (s.modifyTransaction k (withAmount amount notes)) :=
  .modify fun t _ => ⟨rfl, fun _ => rfl, .inr (loopImpact_withAmount amount notes t)⟩

/-! ## The passes -/

namespace KeepsReadable

theorem link (s : Ledger) (a k : ℕ) : KeepsReadable s (s.linkAdjustmentToTransaction a k) := by
  unfold linkAdjustmentToTransaction
  split_ifs
  · exact .refl s
  · exact .of_transactions rfl rfl rfl rfl
  · exact .refl s

theorem removeLinks (s : Ledger) (k : ℕ) : KeepsReadable s (s.removeLinksForTransaction k) :=
  .of_transactions rfl rfl rfl rfl

theorem setSnapshotAdjustment (s : Ledger) (entity_id : ℕ) (currency : Currency) (snapshot_id : ℕ)
    (timestamp : Timestamp) (amount : ℚ) :
    KeepsReadable s (s.setSnapshotAdjustment entity_id currency snapshot_id timestamp amount) := by
  rcases setSnapshotAdjustment_cases s entity_id currency snapshot_id timestamp amount with
    ⟨r, -, he⟩ | ⟨-, he⟩
  · rw [he]
    exact .withAmount s _ _ _
  · rw [he]
    exact .insert (loopImpact_adjustmentRow _ _ _ _ _ _)

theorem recalculateAdjustments (hok : s.recalculateAdjustments entity_id currency timestamp = .ok s') :
    KeepsReadable s s' := by
  rcases recalculateAdjustments_cases hok with ⟨-, rfl⟩ | ⟨n, expected, -, -, rfl⟩
  · exact .refl s'
  · exact .setSnapshotAdjustment s _ _ _ _ _

theorem ensureCash {body : TransactionCreate} {mode : Option BalanceMode} {ex : Option ℕ}
    (hok : s.ensureCash body mode ex = .ok s') : KeepsReadable s s' := by
  rcases ensureCash_cases hok with rfl | ⟨_, needed, -, -, -, rfl⟩
  · exact .refl s'
  rcases inject_cases s body.entityId body.cashPocket body.timestamp needed with
    ⟨r, -, he⟩ | ⟨-, he⟩
  · rw [he]
    exact .withAmount s _ _ _
  · rw [he]
    exact .insert (loopImpact_adjustmentRow _ _ _ _ _ _)

theorem attach (s : Ledger) (body : TransactionCreate) (tx_id : ℕ) :
    KeepsReadable s (s.attach body tx_id) := by
  unfold Ledger.attach
  split_ifs
  · rcases linkInjection_cases s body.entityId body.cashPocket body.timestamp tx_id with
      ⟨r, -, he⟩ | ⟨-, he⟩
    · rw [he]
      exact .link s _ _
    · rw [he]
      exact .refl s
  · exact .refl s

theorem recalculateFor {body : TransactionCreate} (hok : s.recalculateFor body = .ok s') :
    KeepsReadable s s' := by
  unfold Ledger.recalculateFor at hok
  split_ifs at hok
  · cases hok
    exact .refl s
  · exact .recalculateAdjustments hok

theorem recalculateOld {body : TransactionCreate} {existing : Transaction}
    (hok : s.recalculateOld body existing = .ok s') : KeepsReadable s s' := by
  unfold Ledger.recalculateOld at hok
  split_ifs at hok
  · cases hok
    exact .refl s
  · exact .recalculateAdjustments hok
  · cases hok
    exact .refl s

theorem deleteInjectionIfUnlinked (s : Ledger) (k : ℕ) :
    KeepsReadable s (s.deleteInjectionIfUnlinked k) := by
  rcases deleteInjectionIfUnlinked_cases s k with he | ⟨row, -, -, -, he⟩
  · rw [he]
    exact .refl s
  · rw [he]
    exact .delete s k

theorem refreshInjection {k : ℕ} {ex : Option ℕ} (hok : s.refreshInjection k ex = .ok s') :
    KeepsReadable s s' := by
  rcases refreshInjection_cases hok with ⟨rfl, -⟩ | rfl | ⟨-, adj, required, -, -, rfl⟩
  · exact .refl s'
  · exact (removeLinks s k).trans (.deleteInjectionIfUnlinked _ k)
  · exact .withAmount s _ _ _

theorem detach {existing : Transaction} {tx_id : ℕ} {linked_adjs : List ℕ}
    (hok : s.detach existing tx_id linked_adjs = .ok s') : KeepsReadable s s' := by
  unfold Ledger.detach at hok
  split_ifs at hok
  · refine (removeLinks s tx_id).trans ?_
    exact Runs.foldlM_keeps (R := fun _ => KeepsReadable (s.removeLinksForTransaction tx_id))
      (fun _ s₁ k s₂ h hok => h.trans (.refreshInjection hok)) linked_adjs [] (.refl _) hok
  · cases hok
    exact .refl s

theorem foldl_deleteInjectionIfUnlinked (s : Ledger) (ids : List ℕ) :
    KeepsReadable s (ids.foldl Ledger.deleteInjectionIfUnlinked s) := by
  induction ids generalizing s with
  | nil => exact .refl s
  | cons k ids ih => exact (deleteInjectionIfUnlinked s k).trans (ih _)

theorem foldl_link (s : Ledger) (a : ℕ) (spends : List (ℕ × Transaction)) :
    KeepsReadable s (spends.foldl (fun s sp => s.linkAdjustmentToTransaction a sp.1) s) := by
  induction spends generalizing s with
  | nil => exact .refl s
  | cons sp spends ih => exact (link s a sp.1).trans (ih _)

theorem reconcileFeeInjection {tx : Transaction} {main : Currency}
    (hok : s.reconcileFeeInjection tx main = .ok s') : KeepsReadable s s' := by
  unfold Ledger.reconcileFeeInjection at hok
  split_ifs at hok with hanchor
  · cases hok
    exact .refl s
  obtain ⟨balance, -, hok⟩ := Runs.bind_eq_ok.mp hok
  dsimp only at hok
  split at hok
  · split_ifs at hok
    · cases hok
      exact .delete s _
    · cases hok
      exact .withAmount s _ _ _
  · split_ifs at hok
    · cases hok
      exact .refl s
    · cases hok
      exact (insert (loopImpact_adjustmentRow _ _ _ _ _ _)).trans (.foldl_link _ _ _)

theorem reconcileAfterFeeChange {transaction_id : ℕ}
    (hok : s.reconcileAfterFeeChange transaction_id = .ok s') : KeepsReadable s s' := by
  rcases reconcileAfterFeeChange_cases hok with ⟨rfl, -⟩ | ⟨tx, s₁, -, -, h₁, hcase⟩
  · exact .refl s'
  have hfirst := recalculateAdjustments h₁
  rcases hcase with ⟨-, rfl⟩ | ⟨-, rfl⟩ | ⟨main, s₂, -, -, h₂, h₃⟩
  · exact hfirst
  · exact hfirst
  · exact (hfirst.trans (.recalculateAdjustments h₂)).trans (.reconcileFeeInjection h₃)

end KeepsReadable

end Ledger

end FinHub
