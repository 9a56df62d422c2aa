import FinHub.Recording.BookCalls
import FinHub.Recording.Passes

/-!
# FinHub.Recording.References

What the rows of a ledger name, under the calls that write them.

* `NamedIn s₀ s`: the transactions and the snapshots of `s` name what is there in `s₀`.
* `NamedIn.ledgerCall`: each call of the ledger, with all its passes, keeps it so.
-/

namespace FinHub

open Tabular

/-! ## What the rows name -/

/-- What a transaction names is there. -/
structure Ledger.Knows (s : Ledger) (t : Transaction) : Prop where
  entity : (s.getEntity t.entityId).isSome
  asset : ∀ a ∈ t.portfolioAssetId, (s.getPortfolioAsset a).isSome
  exemption : ∀ e ∈ t.fiscalExemptionId, (s.getFiscalExemption e).isSome

/-- The rows of `s` name what is there in `s₀`, and `s` has the same. -/
structure NamedIn (s₀ s : Ledger) : Prop where
  entities : s.entities = s₀.entities
  portfolioAssets : s.portfolioAssets = s₀.portfolioAssets
  fiscalExemptions : s.fiscalExemptions = s₀.fiscalExemptions
  transactions : ∀ r ∈ s.transactions.rows, s₀.Knows r.2
  snapshots : ∀ r ∈ s.snapshots.rows, (s₀.getEntity r.2.entityId).isSome

/-- Every reference of the rows is to something that is there. -/
def Named (s : Ledger) : Prop := NamedIn s s

/-- An adjustment names its entity and nothing else. -/
theorem Ledger.Knows.adjustmentRow {s : Ledger} {entity_id : ℕ} (h : (s.getEntity entity_id).isSome)
    (currency : Currency) (amount : ℚ) (timestamp : Timestamp) (snapshot_id : Option ℕ) (notes : String) :
    s.Knows (FinHub.adjustmentRow entity_id currency amount timestamp snapshot_id notes) where
  entity := h
  asset _ ha := nomatch ha
  exemption _ he := nomatch he

theorem Ledger.Knows.withAmount {s : Ledger} {t : Transaction} (h : s.Knows t) (amount : ℚ) (notes : String) :
    s.Knows (FinHub.withAmount amount notes t) := ⟨h.entity, h.asset, h.exemption⟩

namespace NamedIn

variable {s₀ s s' : Ledger} {entity_id : ℕ} {currency : Currency} {timestamp : Timestamp}

/-! ### Writes -/

theorem getEntity_eq (h : NamedIn s₀ s) (entity_id : ℕ) : s.getEntity entity_id = s₀.getEntity entity_id := by
  unfold Ledger.getEntity
  rw [h.entities]

theorem knows_iff (h : NamedIn s₀ s) {t : Transaction} : s.Knows t ↔ s₀.Knows t := by
  have hknows : ∀ {s s' : Ledger}, s.entities = s'.entities → s.portfolioAssets = s'.portfolioAssets →
      s.fiscalExemptions = s'.fiscalExemptions → s.Knows t → s'.Knows t := by
    intro s s' he hp hf hknown
    obtain ⟨entity, asset, exemption⟩ := hknown
    unfold Ledger.getEntity at entity
    unfold Ledger.getPortfolioAsset at asset
    unfold Ledger.getFiscalExemption at exemption
    rw [he] at entity
    rw [hp] at asset
    rw [hf] at exemption
    exact ⟨entity, asset, exemption⟩
  exact ⟨hknows h.entities h.portfolioAssets h.fiscalExemptions,
    hknows h.entities.symm h.portfolioAssets.symm h.fiscalExemptions.symm⟩

theorem insertTransaction (h : NamedIn s₀ s) {t : Transaction} (ht : s₀.Knows t) :
    NamedIn s₀ (s.insertTransaction t) where
  entities := h.entities
  portfolioAssets := h.portfolioAssets
  fiscalExemptions := h.fiscalExemptions
  transactions r hr := by
    rcases Table.mem_insert.mp hr with hr | rfl
    · exact h.transactions r hr
    · exact ht
  snapshots := h.snapshots

theorem modifyTransaction (h : NamedIn s₀ s) {k : ℕ} {f : Transaction → Transaction}
    (hf : ∀ t, s₀.Knows t → s₀.Knows (f t)) : NamedIn s₀ (s.modifyTransaction k f) where
  entities := h.entities
  portfolioAssets := h.portfolioAssets
  fiscalExemptions := h.fiscalExemptions
  transactions r hr := by
    obtain ⟨j, t⟩ := r
    rcases Table.mem_modify.mp hr with ⟨-, hr⟩ | ⟨rfl, a, ha, rfl⟩
    · exact h.transactions _ hr
    · exact hf a (h.transactions _ ha)
  snapshots := h.snapshots

theorem removeTransactions (h : NamedIn s₀ s) (p : ℕ × Transaction → Bool) : NamedIn s₀ (s.removeTransactions p) where
  entities := h.entities
  portfolioAssets := h.portfolioAssets
  fiscalExemptions := h.fiscalExemptions
  transactions r hr := h.transactions r (Table.mem_removeWhere.mp hr).1
  snapshots := h.snapshots

theorem setSnapshots (h : NamedIn s₀ s) {snapshots : Table BalanceSnapshot}
    (hs : ∀ r ∈ snapshots.rows, (s₀.getEntity r.2.entityId).isSome) : NamedIn s₀ (s.setSnapshots snapshots) :=
  ⟨h.entities, h.portfolioAssets, h.fiscalExemptions, h.transactions, hs⟩

/-- Links, fees and taxes are not looked at. -/
theorem congr (h : NamedIn s₀ s) (he : s'.entities = s.entities) (hp : s'.portfolioAssets = s.portfolioAssets)
    (hf : s'.fiscalExemptions = s.fiscalExemptions) (ht : s'.transactions = s.transactions)
    (hs : s'.snapshots = s.snapshots) : NamedIn s₀ s' :=
  ⟨he.trans h.entities, hp.trans h.portfolioAssets, hf.trans h.fiscalExemptions, ht ▸ h.transactions, hs ▸ h.snapshots⟩

theorem linkAdjustmentToTransaction (h : NamedIn s₀ s) (a t : ℕ) : NamedIn s₀ (s.linkAdjustmentToTransaction a t) := by
  unfold Ledger.linkAdjustmentToTransaction
  split_ifs
  · exact h
  · exact ⟨h.entities, h.portfolioAssets, h.fiscalExemptions, h.transactions, h.snapshots⟩
  · exact h

theorem linkInjection (h : NamedIn s₀ s) (entity_id : ℕ) (currency : Currency) (timestamp : Timestamp) (spend_id : ℕ) :
    NamedIn s₀ (s.linkInjection entity_id currency timestamp spend_id) := by
  rcases Ledger.linkInjection_cases s entity_id currency timestamp spend_id with ⟨r, -, he⟩ | ⟨-, he⟩
  · rw [he]
    exact h.linkAdjustmentToTransaction _ _
  · rw [he]
    exact h

/-! ### Passes -/

theorem withAmount (h : NamedIn s₀ s) (k : ℕ) (amount : ℚ) (notes : String) :
    NamedIn s₀ (s.modifyTransaction k (FinHub.withAmount amount notes)) :=
  h.modifyTransaction fun _ ht => ht.withAmount amount notes

theorem setSnapshotAdjustment (h : NamedIn s₀ s) (hentity : (s₀.getEntity entity_id).isSome) (currency : Currency)
    (snapshot_id : ℕ) (timestamp : Timestamp) (amount : ℚ) :
    NamedIn s₀ (s.setSnapshotAdjustment entity_id currency snapshot_id timestamp amount) := by
  rcases Ledger.setSnapshotAdjustment_cases s entity_id currency snapshot_id timestamp amount with
    ⟨r, -, he⟩ | ⟨-, he⟩
  · rw [he]
    exact h.withAmount _ _ _
  · rw [he]
    exact h.insertTransaction (.adjustmentRow hentity _ _ _ _ _)

/-- The adjustment is written for the entity of a snapshot. -/
theorem recalculateAdjustments (h : NamedIn s₀ s) (hok : s.recalculateAdjustments entity_id currency timestamp = .ok s') :
    NamedIn s₀ s' := by
  rcases Ledger.recalculateAdjustments_cases hok with ⟨-, rfl⟩ | ⟨next, expected, hnext, -, rfl⟩
  · exact h
  · obtain ⟨hmem, hentity, -⟩ := getNextSnapshot_mem hnext
    have hknown := h.snapshots next hmem
    rw [hentity] at hknown
    exact h.setSnapshotAdjustment hknown _ _ _ _

theorem ensureCash (h : NamedIn s₀ s) {body : TransactionCreate} {mode : Option BalanceMode} {ex : Option ℕ}
    (hentity : (s₀.getEntity body.entityId).isSome) (hok : s.ensureCash body mode ex = .ok s') : NamedIn s₀ s' := by
  rcases Ledger.ensureCash_cases hok with rfl | ⟨-, needed, -, -, -, rfl⟩
  · exact h
  · rcases Ledger.inject_cases s body.entityId body.cashPocket body.timestamp needed with ⟨r, -, he⟩ | ⟨-, he⟩
    · rw [he]
      exact h.withAmount _ _ _
    · rw [he]
      exact h.insertTransaction (.adjustmentRow hentity _ _ _ _ _)

theorem removeLinks (h : NamedIn s₀ s) (p : Link → Bool) : NamedIn s₀ (s.removeLinks p) :=
  ⟨h.entities, h.portfolioAssets, h.fiscalExemptions, h.transactions, h.snapshots⟩

theorem deleteInjectionIfUnlinked (h : NamedIn s₀ s) (a : ℕ) : NamedIn s₀ (s.deleteInjectionIfUnlinked a) := by
  rcases Ledger.deleteInjectionIfUnlinked_cases s a with he | ⟨row, -, -, -, he⟩
  · rw [he]
    exact h
  · rw [he]
    exact h.removeTransactions _

theorem refreshInjection (h : NamedIn s₀ s) {a : ℕ} {ex : Option ℕ} (hok : s.refreshInjection a ex = .ok s') :
    NamedIn s₀ s' := by
  rcases Ledger.refreshInjection_cases hok with ⟨rfl, -⟩ | rfl | ⟨-, adj, required, -, -, rfl⟩
  · exact h
  · exact (h.removeLinks _).deleteInjectionIfUnlinked a
  · exact h.withAmount _ _ _

theorem refreshInjections (h : NamedIn s₀ s) {adjs : List ℕ} {ex : Option ℕ} (hok : s.refreshInjections adjs ex = .ok s') :
    NamedIn s₀ s' := by
  unfold Ledger.refreshInjections at hok
  induction adjs generalizing s with
  | nil =>
    cases hok
    exact h
  | cons a adjs ih =>
    rw [List.foldlM_cons, Runs.bind_eq_ok] at hok
    obtain ⟨s₁, hfirst, hrest⟩ := hok
    exact ih (h.refreshInjection hfirst) hrest

theorem recalculateFor (h : NamedIn s₀ s) {body : TransactionCreate} (hok : s.recalculateFor body = .ok s') :
    NamedIn s₀ s' := by
  unfold Ledger.recalculateFor at hok
  split_ifs at hok
  · cases hok
    exact h
  · exact h.recalculateAdjustments hok

theorem recalculateOld (h : NamedIn s₀ s) {body : TransactionCreate} {existing : Transaction}
    (hok : s.recalculateOld body existing = .ok s') : NamedIn s₀ s' := by
  unfold Ledger.recalculateOld at hok
  split_ifs at hok
  · cases hok
    exact h
  · exact h.recalculateAdjustments hok
  · cases hok
    exact h

theorem attach (h : NamedIn s₀ s) (body : TransactionCreate) (tx_id : ℕ) : NamedIn s₀ (s.attach body tx_id) := by
  unfold Ledger.attach
  split_ifs
  · exact h.linkInjection _ _ _ _
  · exact h

theorem detach (h : NamedIn s₀ s) {existing : Transaction} {tx_id : ℕ} {adjs : List ℕ}
    (hok : s.detach existing tx_id adjs = .ok s') : NamedIn s₀ s' := by
  unfold Ledger.detach at hok
  split_ifs at hok
  · exact (h.removeLinks _).refreshInjections hok
  · cases hok
    exact h

theorem foldl_link (h : NamedIn s₀ s) (a : ℕ) (spends : List (ℕ × Transaction)) :
    NamedIn s₀ (spends.foldl (fun s sp => s.linkAdjustmentToTransaction a sp.1) s) := by
  induction spends generalizing s with
  | nil => exact h
  | cons sp spends ih => exact ih (h.linkAdjustmentToTransaction a sp.1)

theorem reconcileFeeInjection (h : NamedIn s₀ s) {tx : Transaction} {main : Currency}
    (hentity : (s₀.getEntity tx.entityId).isSome) (hok : s.reconcileFeeInjection tx main = .ok s') : NamedIn s₀ s' := by
  unfold Ledger.reconcileFeeInjection at hok
  split_ifs at hok with hanchored
  · cases hok
    exact h
  · rw [Runs.bind_eq_ok] at hok
    obtain ⟨balance, -, hok⟩ := hok
    cases hinj : s.getInjectedAdjustmentAt tx.entityId main (Time.injectionTs tx.timestamp) with
    | some existing =>
      simp only [hinj] at hok
      split_ifs at hok
      · cases hok
        exact h.removeTransactions _
      · cases hok
        exact h.withAmount _ _ _
    | none =>
      simp only [hinj] at hok
      split_ifs at hok
      · cases hok
        exact h
      · cases hok
        exact (h.insertTransaction (.adjustmentRow hentity _ _ _ _ _)).foldl_link _ _

theorem reconcileAfterFeeChange (h : NamedIn s₀ s) {transaction_id : ℕ}
    (hok : s.reconcileAfterFeeChange transaction_id = .ok s') : NamedIn s₀ s' := by
  rcases Ledger.reconcileAfterFeeChange_cases hok with ⟨rfl, -⟩ | ⟨tx, s₁, hget, -, h1, hrest⟩
  · exact h
  · have hentity := (h.transactions _ (Ledger.mem_of_getTransaction hget)).entity
    have hs₁ := h.recalculateAdjustments h1
    rcases hrest with ⟨-, rfl⟩ | ⟨-, rfl⟩ | ⟨main, s₂, -, -, h2, h3⟩
    · exact hs₁
    · exact hs₁
    · exact (hs₁.recalculateAdjustments h2).reconcileFeeInjection hentity h3

/-! ### Calls of the ledger -/

/-- Of the checks of a body, those of its entity, its asset and its exemption. -/
theorem knows_of_resolveFks {body : TransactionCreate} (hok : s.resolveFks body = .ok ()) {t : Transaction}
    (hentity : t.entityId = body.entityId) (hasset : t.portfolioAssetId = body.portfolioAssetId)
    (hexemption : t.fiscalExemptionId = body.fiscalExemptionId) : s.Knows t := by
  unfold Ledger.resolveFks at hok
  have hknown : (s.getEntity body.entityId).isSome = true := by
    by_contra hne
    simp only [hne] at hok
    cases hok
  have hcode : s.codeExists body.currency = true := by
    by_contra hne
    simp only [hknown, hne] at hok
    cases hok
  have hheld : ∀ a, body.portfolioAssetId = some a → (s.getPortfolioAsset a).isSome = true := by
    intro a ha
    by_contra hne
    simp only [hknown, hcode, ha, hne] at hok
    cases hok
  have hpaid : ∀ code, body.paymentCurrency = some code → s.codeExists code = true := by
    intro code hpayment
    by_contra hne
    cases hheld' : body.portfolioAssetId <;> simp [hknown, hcode, hheld', hheld, hpayment, hne] at hok <;> cases hok
  refine ⟨hentity ▸ hknown, hasset ▸ hheld, ?_⟩
  rw [hexemption]
  intro e he
  by_contra hne
  rw [Option.mem_def] at he
  cases hheld' : body.portfolioAssetId <;> cases hpayment : body.paymentCurrency <;>
    simp [hknown, hcode, hheld', hheld, hpayment, hpaid, he, hne] at hok <;> cases hok

/-- The row that a body is stored as names what the body names. -/
theorem knows_toRow {body : TransactionCreate} (hok : s.resolveFks body = .ok ()) (rule : Option String)
    (mode : Option BalanceMode) : s.Knows ((body.resolved s).toRow rule mode) := by
  obtain ⟨quantity, unitPrice, totalValue, fxRate, grossAmount, netAmount, h⟩ := TransactionCreate.resolved_eq s body
  rw [h]
  exact knows_of_resolveFks hok rfl rfl rfl

theorem createTransaction (h : Named s) {body : TransactionCreate} {resp : TransactionResponse}
    (hok : s.createTransaction body = .ok (resp, s')) : NamedIn s s' := by
  have hfks : s.resolveFks body = .ok () := (Runs.bind_eq_ok.mp hok).elim fun _ hrest => hrest.1
  obtain ⟨s₁, hensure, -, hrow, hrecalculate⟩ := Ledger.createTransaction_cases hok
  have hknown := knows_toRow hfks
    (s₁.fiscalRuleFor (body.resolved s).type (body.resolved s).timestamp) (body.resolved s).cashHandling
  rw [← hrow] at hknown
  have hentity : (s.getEntity (body.resolved s).entityId).isSome := by
    rw [TransactionCreate.resolved_entityId]
    exact (knows_of_resolveFks hfks rfl rfl rfl (t := body.toRow none none)).entity
  exact (((h.ensureCash hentity hensure).insertTransaction hknown).attach _ _).recalculateFor hrecalculate

theorem updateTransaction (h : Named s) {tx_id : ℕ} {body : TransactionCreate} {resp : TransactionResponse}
    (hok : s.updateTransaction tx_id body = .ok (resp, s')) : NamedIn s s' := by
  have hfks : s.resolveFks body = .ok () := by
    unfold Ledger.updateTransaction at hok
    cases hget : s.getTransaction tx_id with
    | none =>
      rw [hget] at hok
      cases hok
    | some existing =>
      rw [hget] at hok
      exact (Runs.bind_eq_ok.mp hok).elim fun _ hrest => hrest.1
  obtain ⟨existing, s₁, s₂, s₄, -, -, hrow, hdetach, hensure, hfor, hold⟩ := Ledger.updateTransaction_cases hok
  have hstored := knows_toRow hfks
    (s.fiscalRuleFor (body.resolved s).type (body.resolved s).timestamp)
    (if (body.resolved s).cashHandlingSent then (body.resolved s).cashHandling else existing.cashHandling)
  have hknown : s.Knows resp.row := by
    rw [hrow]
    exact ⟨hstored.entity, hstored.asset, hstored.exemption⟩
  have hentity : (s.getEntity (body.resolved s).entityId).isSome := hstored.entity
  have hs₂ := ((h.modifyTransaction fun _ _ => hknown).detach hdetach).ensureCash hentity hensure
  refine NamedIn.recalculateOld (NamedIn.recalculateFor ?_ hfor) hold
  split_ifs
  · exact hs₂.attach _ _
  · exact hs₂

theorem deleteTransactionSvc (h : Named s) {tx_id : ℕ} (hok : s.deleteTransactionSvc tx_id = .ok s') : NamedIn s s' := by
  obtain ⟨existing, s₂, -, -, hs₂, hrest⟩ := Ledger.deleteTransactionSvc_cases hok
  have hfold : ∀ (adjs : List ℕ) (s₁ : Ledger), NamedIn s s₁ →
      NamedIn s (adjs.foldl Ledger.deleteInjectionIfUnlinked s₁) := by
    intro adjs
    induction adjs with
    | nil => exact fun _ h => h
    | cons a adjs ih => exact fun _ h => ih _ (h.deleteInjectionIfUnlinked a)
  have hnamed : NamedIn s s₂ := by
    rw [hs₂]
    exact hfold _ _ (NamedIn.removeTransactions (NamedIn.removeLinks h _) _)
  rcases hrest with ⟨-, rfl⟩ | ⟨-, hrecalculate⟩
  · exact hnamed
  · exact hnamed.recalculateAdjustments hrecalculate

theorem createOrUpdateAdjustment {s₀ : Ledger} (h : NamedIn s₀ s) (hentity : (s₀.getEntity entity_id).isSome)
    {snapshot_id : ℕ} {target : ℚ}
    (hok : s.createOrUpdateAdjustment entity_id currency snapshot_id timestamp target = .ok s') : NamedIn s₀ s' := by
  obtain ⟨expected, -, rfl⟩ := Ledger.createOrUpdateAdjustment_cases hok
  exact h.setSnapshotAdjustment hentity _ _ _ _

theorem entity_of_resolveSnapshotFk {body : BalanceSnapshotCreate} (hok : s.resolveSnapshotFk body = .ok ()) :
    (s.getEntity body.entityId).isSome = true := by
  unfold Ledger.resolveSnapshotFk at hok
  by_contra hne
  simp only [hne] at hok
  cases hok

theorem createSnapshot (h : Named s) {body : BalanceSnapshotCreate} {snapshot_id : ℕ}
    (hok : s.createSnapshot body = .ok (snapshot_id, s')) : NamedIn s s' := by
  have hentity := entity_of_resolveSnapshotFk ((Runs.bind_eq_ok.mp hok).elim fun _ hrest => hrest.1)
  obtain ⟨-, -, hadjust⟩ := Ledger.createSnapshot_cases hok
  refine NamedIn.createOrUpdateAdjustment (NamedIn.setSnapshots h fun r hr => ?_) hentity hadjust
  rcases Table.mem_insert.mp hr with hr | rfl
  · exact NamedIn.snapshots h r hr
  · exact hentity

theorem updateSnapshot (h : Named s) {snapshot_id : ℕ} {body : BalanceSnapshotCreate}
    (hok : s.updateSnapshot snapshot_id body = .ok s') : NamedIn s s' := by
  have hentity : (s.getEntity body.entityId).isSome = true := by
    unfold Ledger.updateSnapshot at hok
    cases hget : s.getBalanceSnapshot snapshot_id with
    | none =>
      rw [hget] at hok
      cases hok
    | some existing =>
      rw [hget] at hok
      exact entity_of_resolveSnapshotFk ((Runs.bind_eq_ok.mp hok).elim fun _ hrest => hrest.1)
  obtain ⟨existing, s₁, -, hcase, rfl⟩ := Ledger.updateSnapshot_cases hok
  have hs₁ : NamedIn s s₁ := by
    rcases hcase with ⟨-, -, rfl⟩ | ⟨-, hadjust⟩
    · exact h
    · exact NamedIn.createOrUpdateAdjustment (NamedIn.removeTransactions h _) hentity hadjust
  refine hs₁.setSnapshots fun r hr => ?_
  obtain ⟨j, snapshot⟩ := r
  rcases Table.mem_modify.mp hr with ⟨-, hr⟩ | ⟨rfl, old, -, rfl⟩
  · exact hs₁.snapshots _ hr
  · exact hentity

theorem deleteSnapshot (h : Named s) {snapshot_id : ℕ} (hok : s.deleteSnapshot snapshot_id = .ok s') : NamedIn s s' := by
  obtain ⟨existing, -, rfl⟩ := Ledger.deleteSnapshot_cases hok
  exact (NamedIn.removeTransactions h _).setSnapshots fun r hr => NamedIn.snapshots h r (Table.mem_erase.mp hr).1

/-- Fees and taxes name their transaction only. -/
theorem ledgerCall (h : Named s) {c : LedgerCall} (hok : s.call c = .ok s') : NamedIn s s' := by
  cases c with
  | createTransaction body =>
    obtain ⟨⟨resp, s₁⟩, hcall, rfl⟩ := Runs.map_eq_ok.mp hok
    exact createTransaction h hcall
  | updateTransaction tx_id body =>
    obtain ⟨⟨resp, s₁⟩, hcall, rfl⟩ := Runs.map_eq_ok.mp hok
    exact updateTransaction h hcall
  | deleteTransaction tx_id => exact deleteTransactionSvc h hok
  | createFee body =>
    obtain ⟨⟨fee_id, s₁⟩, hcall, rfl⟩ := Runs.map_eq_ok.mp hok
    obtain ⟨hlt, -, hpass⟩ := Ledger.createFee_cases hcall
    have hedit : NamedIn s (s.insertFee body hlt) := .congr h rfl rfl rfl rfl rfl
    exact hedit.reconcileAfterFeeChange hpass
  | updateFee fee_id body =>
    obtain ⟨existing, hlt, -, hpass⟩ := Ledger.updateFee_cases hok
    have hedit : NamedIn s (s.modifyFee fee_id body hlt) := .congr h rfl rfl rfl rfl rfl
    exact hedit.reconcileAfterFeeChange hpass
  | deleteFee fee_id =>
    obtain ⟨existing, -, hpass⟩ := Ledger.deleteFee_cases hok
    have hedit : NamedIn s (s.eraseFee fee_id) := .congr h rfl rfl rfl rfl rfl
    exact hedit.reconcileAfterFeeChange hpass
  | createTax body =>
    obtain ⟨⟨tax_id, s₁⟩, hcall, rfl⟩ := Runs.map_eq_ok.mp hok
    obtain ⟨hlt, -, hpass⟩ := Ledger.createTax_cases hcall
    have hedit : NamedIn s (s.insertTax body hlt) := .congr h rfl rfl rfl rfl rfl
    exact hedit.reconcileAfterFeeChange hpass
  | updateTax tax_id body =>
    obtain ⟨existing, hlt, -, hpass⟩ := Ledger.updateTax_cases hok
    have hedit : NamedIn s (s.modifyTax tax_id body hlt) := .congr h rfl rfl rfl rfl rfl
    exact hedit.reconcileAfterFeeChange hpass
  | deleteTax tax_id =>
    obtain ⟨existing, -, hpass⟩ := Ledger.deleteTax_cases hok
    have hedit : NamedIn s (s.eraseTax tax_id) := .congr h rfl rfl rfl rfl rfl
    exact hedit.reconcileAfterFeeChange hpass
  | createSnapshot body =>
    obtain ⟨⟨snapshot_id, s₁⟩, hcall, rfl⟩ := Runs.map_eq_ok.mp hok
    exact createSnapshot h hcall
  | updateSnapshot snapshot_id body => exact updateSnapshot h hok
  | deleteSnapshot snapshot_id => exact deleteSnapshot h hok

/-- The rows name what is there in the ledger that they are in. -/
theorem named (h : NamedIn s₀ s) : Named s where
  entities := rfl
  portfolioAssets := rfl
  fiscalExemptions := rfl
  transactions r hr := h.knows_iff.mpr (h.transactions r hr)
  snapshots r hr := by
    rw [h.getEntity_eq]
    exact h.snapshots r hr

end NamedIn

end FinHub
