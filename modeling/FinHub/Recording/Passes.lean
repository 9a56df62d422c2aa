import FinHub.Balance.Value

/-!
# FinHub.Recording.Passes

What each bookkeeping pass and each call can do, said once. Every lemma here inverts one definition
of the services: from a call that answered, the writes it made and the reads it made them on. The
invariants and frame facts of the other modules are proved from these lemmas.
-/

namespace FinHub

open Tabular

/-- The row a snapshot adjustment is opened with. -/
def adjustmentRow (entity_id : ℕ) (currency : Currency) (amount : ℚ) (timestamp : Timestamp)
    (snapshot_id : Option ℕ) (notes : String) : Transaction :=
  { timestamp, type := .balanceAdjustment, entityId := entity_id, currency
    totalValue := some amount, balanceSnapshotId := snapshot_id, notes := some notes }

/-- What `update_adjustment_transaction` writes. -/
def withAmount (amount : ℚ) (notes : String) (t : Transaction) : Transaction :=
  { t with totalValue := some amount, notes := some notes }

namespace TransactionCreate

variable (s : Ledger) (body : TransactionCreate)

/-- Resolving a body fills in amounts and a rate. -/
theorem resolved_eq : ∃ quantity unitPrice totalValue fxRate grossAmount netAmount,
    body.resolved s = { body with quantity, unitPrice, totalValue, fxRate, grossAmount, netAmount } := by
  have hinv : ∃ quantity unitPrice totalValue,
      body.resolveInvestmentFields = { body with quantity, unitPrice, totalValue } := by
    unfold resolveInvestmentFields
    split_ifs <;> split <;> try split_ifs
    all_goals exact ⟨_, _, _, rfl⟩
  obtain ⟨quantity, unitPrice, totalValue, he⟩ := hinv
  unfold resolved resolveFxFields
  rw [he]
  split
  · exact ⟨_, _, _, _, _, _, rfl⟩
  · split_ifs
    · exact ⟨_, _, _, _, _, _, rfl⟩
    · dsimp only
      split <;> exact ⟨_, _, _, _, _, _, rfl⟩

@[simp] theorem resolved_timestamp : (body.resolved s).timestamp = body.timestamp := by
  obtain ⟨_, _, _, _, _, _, h⟩ := resolved_eq s body; rw [h]
@[simp] theorem resolved_type : (body.resolved s).type = body.type := by
  obtain ⟨_, _, _, _, _, _, h⟩ := resolved_eq s body; rw [h]
@[simp] theorem resolved_entityId : (body.resolved s).entityId = body.entityId := by
  obtain ⟨_, _, _, _, _, _, h⟩ := resolved_eq s body; rw [h]
@[simp] theorem resolved_currency : (body.resolved s).currency = body.currency := by
  obtain ⟨_, _, _, _, _, _, h⟩ := resolved_eq s body; rw [h]
@[simp] theorem resolved_paymentCurrency :
    (body.resolved s).paymentCurrency = body.paymentCurrency := by
  obtain ⟨_, _, _, _, _, _, h⟩ := resolved_eq s body; rw [h]
@[simp] theorem resolved_cashPocket : (body.resolved s).cashPocket = body.cashPocket := by
  simp [cashPocket]
@[simp] theorem resolved_notes : (body.resolved s).notes = body.notes := by
  obtain ⟨_, _, _, _, _, _, h⟩ := resolved_eq s body; rw [h]
@[simp] theorem resolved_cashHandling : (body.resolved s).cashHandling = body.cashHandling := by
  obtain ⟨_, _, _, _, _, _, h⟩ := resolved_eq s body; rw [h]

end TransactionCreate

namespace Ledger

variable {s s' : Ledger} {entity_id : ℕ} {currency : Currency}

theorem mem_of_getTransaction {id : ℕ} {t : Transaction} (h : s.getTransaction id = some t) :
    (id, t) ∈ s.transactions.rows := s.transactions.get?_eq_some_iff.mp h

theorem getTransaction_of_mem {id : ℕ} {t : Transaction} (h : (id, t) ∈ s.transactions.rows) :
    s.getTransaction id = some t := s.transactions.get?_eq_some_iff.mpr h

/-! ## Lookups -/

theorem getAdjustmentTransaction_eq_some {snapshot_id : ℕ} {r : ℕ × Transaction}
    (h : s.getAdjustmentTransaction entity_id currency snapshot_id = some r) :
    r ∈ s.transactions.rows ∧ r.2.entityId = entity_id ∧ r.2.currency = currency ∧
      r.2.type = .balanceAdjustment ∧ r.2.balanceSnapshotId = some snapshot_id := by
  have hm := List.mem_of_find?_eq_some h
  have hp := List.find?_some h
  simp only [Bool.and_eq_true, decide_eq_true_eq, Transaction.isAdjustment] at hp
  exact ⟨hm, hp.1.1.1, hp.1.1.2, hp.1.2, hp.2⟩

theorem getAdjustmentTransaction_eq_none {snapshot_id : ℕ}
    (h : s.getAdjustmentTransaction entity_id currency snapshot_id = none) :
    ∀ r ∈ s.transactions.rows, r.2.entityId = entity_id → r.2.currency = currency →
      r.2.type = .balanceAdjustment → r.2.balanceSnapshotId ≠ some snapshot_id := by
  intro r hr he hc ht hs
  have := List.find?_eq_none.mp h r hr
  simp [he, hc, hs, Transaction.isAdjustment, ht] at this

theorem isInjection_iff {t : Transaction} : isInjection t = true ↔
    t.type = .balanceAdjustment ∧ t.balanceSnapshotId = none ∧ likeInferredCash t.notes = true := by
  simp only [isInjection, Transaction.isAdjustment, Bool.and_eq_true, decide_eq_true_eq, and_assoc]

theorem getInjectedAdjustmentAt_eq_some {timestamp : Timestamp} {r : ℕ × Transaction}
    (h : s.getInjectedAdjustmentAt entity_id currency timestamp = some r) :
    r ∈ s.transactions.rows ∧ r.2.entityId = entity_id ∧ r.2.currency = currency ∧
      isInjection r.2 = true ∧ r.2.timestamp = timestamp := by
  have hm := List.mem_of_find?_eq_some h
  have hp := List.find?_some h
  simp only [Bool.and_eq_true, decide_eq_true_eq] at hp
  exact ⟨hm, hp.1.1.1, hp.1.1.2, hp.1.2, hp.2⟩

theorem getInjectedAdjustmentAt_eq_none {timestamp : Timestamp}
    (h : s.getInjectedAdjustmentAt entity_id currency timestamp = none) :
    ∀ r ∈ s.transactions.rows, r.2.entityId = entity_id → r.2.currency = currency →
      isInjection r.2 = true → r.2.timestamp ≠ timestamp := by
  intro r hr he hc hi ht
  have := List.find?_eq_none.mp h r hr
  simp [he, hc, hi, ht] at this

/-! ## Adjustment writes -/

theorem setSnapshotAdjustment_cases (s : Ledger) (entity_id : ℕ) (currency : Currency)
    (snapshot_id : ℕ) (timestamp : Timestamp) (amount : ℚ) :
    (∃ r, s.getAdjustmentTransaction entity_id currency snapshot_id = some r ∧
      s.setSnapshotAdjustment entity_id currency snapshot_id timestamp amount =
        s.modifyTransaction r.1 (withAmount amount (snapshotNotes timestamp))) ∨
    (s.getAdjustmentTransaction entity_id currency snapshot_id = none ∧
      s.setSnapshotAdjustment entity_id currency snapshot_id timestamp amount =
        s.insertTransaction (adjustmentRow entity_id currency amount
          (s.timezone.adjustmentTimestamp timestamp) (some snapshot_id) (snapshotNotes timestamp))) := by
  unfold setSnapshotAdjustment
  cases h : s.getAdjustmentTransaction entity_id currency snapshot_id with
  | some r => exact .inl ⟨r, rfl, rfl⟩
  | none => exact .inr ⟨rfl, rfl⟩

theorem orTypeError_eq_ok {α : Type} {x : Option α} {a : α} : orTypeError x = .ok a ↔ x = some a := by
  cases x <;> simp [orTypeError]

theorem recalculateAdjustments_cases {timestamp : Timestamp}
    (h : s.recalculateAdjustments entity_id currency timestamp = .ok s') :
    (s.getNextSnapshot entity_id currency timestamp = none ∧ s' = s) ∨
    ∃ next expected, s.getNextSnapshot entity_id currency timestamp = some next ∧
      s.getBalanceAtDate entity_id currency next.2.timestamp
        { adjustmentSnapshotId := some next.1 } = some expected ∧
      s' = s.setSnapshotAdjustment entity_id currency next.1 next.2.timestamp
        (next.2.amount - expected) := by
  unfold recalculateAdjustments at h
  cases hn : s.getNextSnapshot entity_id currency timestamp with
  | none => rw [hn] at h; exact .inl ⟨rfl, (Except.ok.inj h).symm⟩
  | some next =>
    simp only [hn, Runs.bind_eq_ok, orTypeError_eq_ok] at h
    obtain ⟨expected, hb, he⟩ := h
    exact .inr ⟨next, expected, rfl, hb, (Except.ok.inj he).symm⟩

/-! ## Inferred cash -/

theorem inject_cases (s : Ledger) (entity_id : ℕ) (currency : Currency) (timestamp : Timestamp)
    (needed : ℚ) :
    (∃ r, s.getInjectedAdjustmentAt entity_id currency (Time.injectionTs timestamp) = some r ∧
      s.inject entity_id currency timestamp needed = s.modifyTransaction r.1
        (withAmount (r.2.totalValue.getD 0 + needed) injectionNotes)) ∨
    (s.getInjectedAdjustmentAt entity_id currency (Time.injectionTs timestamp) = none ∧
      s.inject entity_id currency timestamp needed = s.insertTransaction
        (adjustmentRow entity_id currency needed (Time.injectionTs timestamp) none injectionNotes)) := by
  unfold inject
  cases h : s.getInjectedAdjustmentAt entity_id currency (Time.injectionTs timestamp) with
  | some r => exact .inl ⟨r, rfl, rfl⟩
  | none => exact .inr ⟨rfl, rfl⟩

/-- What has to be injected is a positive shortfall against the measured balance. -/
theorem cashNeeded_eq_some {timestamp : Timestamp} {total_value needed : ℚ}
    {mode : Option BalanceMode} {ex : Option ℕ}
    (h : s.cashNeeded entity_id currency timestamp total_value mode ex = .ok (some needed)) :
    mode ≠ some .debit ∧ (s.anchoredAt entity_id currency timestamp = true → mode = some .inject) ∧
    ∃ balance, s.getBalanceAtDate entity_id currency timestamp { transactionId := ex } = some balance ∧
      balance < total_value ∧ needed = total_value - balance := by
  unfold cashNeeded at h
  split_ifs at h with h1 h2
  · cases h
  · cases h
  rw [Runs.bind_eq_ok] at h
  obtain ⟨balance, hb, hn⟩ := h
  rw [orTypeError_eq_ok] at hb
  split_ifs at hn with h3
  · cases hn
  refine ⟨h1, fun ha => ?_, balance, hb, not_le.mp h3, ?_⟩
  · by_contra hm; exact h2 ⟨ha, hm⟩
  · cases hn; rfl

theorem ensureCash_cases {body : TransactionCreate} {mode : Option BalanceMode} {ex : Option ℕ}
    (h : s.ensureCash body mode ex = .ok s') :
    s' = s ∨ ∃ cash_amount needed, body.spendAmount = some cash_amount ∧ body.type.isSpend = true ∧
      s.cashNeeded body.entityId body.cashPocket body.timestamp cash_amount mode ex =
        .ok (some needed) ∧
      s' = s.inject body.entityId body.cashPocket body.timestamp needed := by
  unfold ensureCash at h
  split at h
  · rename_i cash_amount ha
    split_ifs at h with hspend
    · simp only [ensureCashForSpend, Runs.bind_eq_ok] at h
      obtain ⟨n, hn, h⟩ := h
      cases n with
      | none => exact .inl (Except.ok.inj h).symm
      | some needed => exact .inr ⟨cash_amount, needed, ha, hspend, hn, (Except.ok.inj h).symm⟩
    · exact .inl (Except.ok.inj h).symm
  · exact .inl (Except.ok.inj h).symm

theorem linkInjection_cases (s : Ledger) (entity_id : ℕ) (currency : Currency)
    (timestamp : Timestamp) (spend_id : ℕ) :
    (∃ r, s.getInjectedAdjustmentAt entity_id currency (Time.injectionTs timestamp) = some r ∧
      s.linkInjection entity_id currency timestamp spend_id =
        s.linkAdjustmentToTransaction r.1 spend_id) ∨
    (s.getInjectedAdjustmentAt entity_id currency (Time.injectionTs timestamp) = none ∧
      s.linkInjection entity_id currency timestamp spend_id = s) := by
  unfold linkInjection
  cases h : s.getInjectedAdjustmentAt entity_id currency (Time.injectionTs timestamp) with
  | some r => exact .inl ⟨r, rfl, rfl⟩
  | none => exact .inr ⟨rfl, rfl⟩

theorem mem_linkAdjustmentToTransaction {a t : ℕ} {l : Link} (ha : a < s.transactions.next)
    (ht : t < s.transactions.next) :
    l ∈ (s.linkAdjustmentToTransaction a t).links ↔ l ∈ s.links ∨ l = ⟨a, t⟩ := by
  unfold linkAdjustmentToTransaction
  rw [dif_pos ⟨ha, ht⟩]
  split_ifs with h
  · constructor
    · exact .inl
    · rintro (hl | rfl)
      · exact hl
      · exact h
  · simp

theorem deleteInjectionIfUnlinked_cases (s : Ledger) (adjustment_id : ℕ) :
    s.deleteInjectionIfUnlinked adjustment_id = s ∨
    ∃ row, s.getTransaction adjustment_id = some row ∧ isInjection row = true ∧
      (∀ l ∈ s.links, l.balanceAdjustmentId ≠ adjustment_id) ∧
      s.deleteInjectionIfUnlinked adjustment_id = s.deleteTransaction adjustment_id := by
  unfold deleteInjectionIfUnlinked
  cases hg : s.getTransaction adjustment_id with
  | none => exact .inl rfl
  | some row =>
    dsimp only
    split_ifs with h1 h2 h3
    · exact .inl rfl
    · exact .inl rfl
    · refine .inr ⟨row, rfl, h3, fun l hl he => h2 ?_, rfl⟩
      exact List.any_eq_true.mpr ⟨l, hl, by simpa using he⟩
    · exact .inl rfl

/-- An unlinked injection is gone after the call. -/
theorem deleteInjectionIfUnlinked_of_unlinked {adjustment_id : ℕ} {row : Transaction}
    (hg : s.getTransaction adjustment_id = some row) (hi : isInjection row = true)
    (hl : ∀ l ∈ s.links, l.balanceAdjustmentId ≠ adjustment_id) :
    s.deleteInjectionIfUnlinked adjustment_id = s.deleteTransaction adjustment_id := by
  have hnone := (isInjection_iff.mp hi).2.1
  have hany : (s.links.any fun l => decide (l.balanceAdjustmentId = adjustment_id)) = false := by
    rw [Bool.eq_false_iff, Ne, List.any_eq_true]
    rintro ⟨l, hm, he⟩
    exact hl l hm (by simpa using he)
  simp [deleteInjectionIfUnlinked, hg, hnone, hany, hi]

/-- A refresh keeps the injection with a new amount, or deletes it with its links. -/
theorem refreshInjection_cases {adjustment_id : ℕ} {ex : Option ℕ}
    (h : s.refreshInjection adjustment_id ex = .ok s') :
    (s' = s ∧ ∀ row, s.getTransaction adjustment_id = some row → isInjection row = false) ∨
    s' = (s.removeLinksForTransaction adjustment_id).deleteInjectionIfUnlinked adjustment_id ∨
    (s.getAttachedTransactionIds adjustment_id ≠ [] ∧ ∃ adj required,
      s.getTransaction adjustment_id = some adj ∧
      s.requiredInjectionForDay adj.entityId adj.currency (Time.dayOf adj.timestamp + 1)
        (some adjustment_id) ex = .ok required ∧
      s' = s.modifyTransaction adjustment_id (withAmount required injectionNotes)) := by
  unfold refreshInjection at h
  cases hg : s.getTransaction adjustment_id with
  | none =>
    rw [hg] at h
    exact .inl ⟨(Except.ok.inj h).symm, fun row hr => by cases hr⟩
  | some adj =>
    simp only [hg] at h
    split_ifs at h with h1 h2
    · refine .inl ⟨(Except.ok.inj h).symm, fun row hr => ?_⟩
      obtain rfl : adj = row := Option.some_inj.mp hr
      rw [Bool.eq_false_iff]
      intro hi
      obtain ⟨ht, hs, -⟩ := isInjection_iff.mp hi
      rcases h1 with h1 | h1
      · exact h1 ht
      · rw [hs] at h1; cases h1
    · exact .inr (.inl (Except.ok.inj h).symm)
    · rw [Runs.bind_eq_ok] at h
      obtain ⟨required, hreq, h⟩ := h
      split_ifs at h with h3
      · exact .inr (.inl (Except.ok.inj h).symm)
      · exact .inr (.inr ⟨h2, adj, required, rfl, hreq, (Except.ok.inj h).symm⟩)

/-! ## Calls -/

theorem createTransaction_cases {body : TransactionCreate} {resp : TransactionResponse}
    (h : s.createTransaction body = .ok (resp, s')) :
    ∃ s₁, s.ensureCash (body.resolved s) (body.resolved s).cashHandling none = .ok s₁ ∧
      resp.id = s₁.transactions.next ∧
      resp.row = (body.resolved s).toRow
        (s₁.fiscalRuleFor (body.resolved s).type (body.resolved s).timestamp)
        (body.resolved s).cashHandling ∧
      (((s₁.insertTransaction resp.row).attach (body.resolved s) resp.id).recalculateFor
        (body.resolved s)) = .ok s' := by
  unfold createTransaction at h
  simp only [Runs.bind_eq_ok] at h
  obtain ⟨-, -, s₁, h1, s₃, h3, h⟩ := h
  cases h
  exact ⟨s₁, h1, rfl, rfl, h3⟩

theorem updateTransaction_cases {tx_id : ℕ} {body : TransactionCreate} {resp : TransactionResponse}
    (h : s.updateTransaction tx_id body = .ok (resp, s')) :
    ∃ existing s₁ s₂ s₄, s.getTransaction tx_id = some existing ∧
      resp.id = tx_id ∧ resp.row = s.editedRow (body.resolved s) existing ∧
      (s.modifyTransaction tx_id fun _ => resp.row).detach existing tx_id
        ((s.getAdjustmentsLinkedToTransaction tx_id).map Prod.fst) = .ok s₁ ∧
      s₁.ensureCash (body.resolved s) resp.row.cashHandling (some tx_id) = .ok s₂ ∧
      (if (body.resolved s).spendAmount.isSome then s₂.attach (body.resolved s) tx_id
        else s₂).recalculateFor (body.resolved s) = .ok s₄ ∧
      s₄.recalculateOld (body.resolved s) existing = .ok s' := by
  unfold updateTransaction at h
  cases hg : s.getTransaction tx_id with
  | none => rw [hg] at h; cases h
  | some existing =>
    simp only [hg, Runs.bind_eq_ok] at h
    obtain ⟨-, -, s₁, h1, s₂, h2, s₄, h4, s₅, h5, h⟩ := h
    cases h
    exact ⟨existing, s₁, s₂, s₄, rfl, rfl, rfl, h1, h2, h4, h5⟩

/-- The injections a deleted row was attached to. -/
def attachedInjections (s : Ledger) (existing : Transaction) (tx_id : ℕ) : List ℕ :=
  if existing.type.isSpend then (s.getAdjustmentsLinkedToTransaction tx_id).map Prod.fst else []

theorem deleteTransactionSvc_cases {tx_id : ℕ} (h : s.deleteTransactionSvc tx_id = .ok s') :
    ∃ existing s₂, s.getTransaction tx_id = some existing ∧ s.transactionHasDependents tx_id = false ∧
      s₂ = (s.attachedInjections existing tx_id).foldl deleteInjectionIfUnlinked
        ((s.removeLinksForTransaction tx_id).deleteTransaction tx_id) ∧
      ((existing.type = .balanceAdjustment ∧ s' = s₂) ∨
        (existing.type ≠ .balanceAdjustment ∧ s₂.recalculateAdjustments existing.entityId
          existing.currency existing.timestamp = .ok s')) := by
  unfold deleteTransactionSvc at h
  cases hg : s.getTransaction tx_id with
  | none => rw [hg] at h; cases h
  | some existing =>
    simp only [hg] at h
    by_cases hdep : s.transactionHasDependents tx_id = true
    · rw [if_pos hdep] at h; cases h
    rw [if_neg hdep] at h
    refine ⟨existing, _, rfl, Bool.eq_false_iff.mpr hdep, rfl, ?_⟩
    by_cases htype : existing.type = .balanceAdjustment
    · rw [if_pos htype] at h
      exact .inl ⟨htype, (Except.ok.inj h).symm⟩
    · rw [if_neg htype] at h
      exact .inr ⟨htype, h⟩

theorem reconcileAfterFeeChange_cases {transaction_id : ℕ}
    (h : s.reconcileAfterFeeChange transaction_id = .ok s') :
    (s' = s ∧ ∀ tx, s.getTransaction transaction_id = some tx → tx.type = .balanceAdjustment) ∨
    ∃ tx s₁, s.getTransaction transaction_id = some tx ∧ tx.type ≠ .balanceAdjustment ∧
      s.recalculateAdjustments tx.entityId tx.cashPocket tx.timestamp = .ok s₁ ∧
      (((s₁.getEntity tx.entityId).bind Entity.mainCurrency = none ∧ s' = s₁) ∨
        ((s₁.getEntity tx.entityId).bind Entity.mainCurrency = some tx.currency ∧ s' = s₁) ∨
        ∃ main s₂, (s₁.getEntity tx.entityId).bind Entity.mainCurrency = some main ∧
          main ≠ tx.currency ∧
          s₁.recalculateAdjustments tx.entityId main tx.timestamp = .ok s₂ ∧
          s₂.reconcileFeeInjection tx main = .ok s') := by
  unfold reconcileAfterFeeChange at h
  cases hg : s.getTransaction transaction_id with
  | none =>
    rw [hg] at h
    exact .inl ⟨(Except.ok.inj h).symm, fun tx ht => by cases ht⟩
  | some tx =>
    simp only [hg] at h
    split_ifs at h with htype
    · refine .inl ⟨(Except.ok.inj h).symm, fun t ht => ?_⟩
      obtain rfl : tx = t := Option.some_inj.mp ht
      exact htype
    rw [Runs.bind_eq_ok] at h
    obtain ⟨s₁, h1, h⟩ := h
    refine .inr ⟨tx, s₁, rfl, htype, h1, ?_⟩
    cases hm : (s₁.getEntity tx.entityId).bind Entity.mainCurrency with
    | none => simp only [hm] at h; exact .inl ⟨rfl, (Except.ok.inj h).symm⟩
    | some main =>
      simp only [hm] at h
      split_ifs at h with hcur
      · exact .inr (.inl ⟨by rw [hcur], (Except.ok.inj h).symm⟩)
      · rw [Runs.bind_eq_ok] at h
        obtain ⟨s₂, h2, h⟩ := h
        exact .inr (.inr ⟨main, s₂, rfl, hcur, h2, h⟩)

theorem createFee_cases {body : TransactionFee} {fee_id : ℕ} (h : s.createFee body = .ok (fee_id, s')) :
    ∃ hlt, fee_id = s.fees.next ∧ (s.insertFee body hlt).reconcileAfterFeeChange body.transactionId =
      .ok s' := by
  unfold createFee at h
  split at h
  · cases h
  · simp only [Runs.bind_eq_ok] at h
    obtain ⟨s₂, h2, h⟩ := h
    cases h
    exact ⟨_, rfl, h2⟩

theorem updateFee_cases {fee_id : ℕ} {body : TransactionFee} (h : s.updateFee fee_id body = .ok s') :
    ∃ existing hlt, s.getFee fee_id = some existing ∧
      (s.modifyFee fee_id body hlt).reconcileAfterFeeChange body.transactionId = .ok s' := by
  unfold updateFee at h
  split at h
  · cases h
  · rename_i existing hf
    split at h
    · cases h
    · exact ⟨existing, _, hf, h⟩

theorem deleteFee_cases {fee_id : ℕ} (h : s.deleteFee fee_id = .ok s') :
    ∃ existing, s.getFee fee_id = some existing ∧
      (s.eraseFee fee_id).reconcileAfterFeeChange existing.transactionId = .ok s' := by
  unfold deleteFee at h
  split at h
  · cases h
  · rename_i existing hf
    exact ⟨existing, hf, h⟩

theorem createTax_cases {body : TransactionTax} {tax_id : ℕ} (h : s.createTax body = .ok (tax_id, s')) :
    ∃ hlt, tax_id = s.taxes.next ∧ (s.insertTax body hlt).reconcileAfterFeeChange body.transactionId =
      .ok s' := by
  unfold createTax at h
  split at h
  · cases h
  · simp only [Runs.bind_eq_ok] at h
    obtain ⟨s₂, h2, h⟩ := h
    cases h
    exact ⟨_, rfl, h2⟩

theorem updateTax_cases {tax_id : ℕ} {body : TransactionTax} (h : s.updateTax tax_id body = .ok s') :
    ∃ existing hlt, s.getTax tax_id = some existing ∧
      (s.modifyTax tax_id body hlt).reconcileAfterFeeChange body.transactionId = .ok s' := by
  unfold updateTax at h
  split at h
  · cases h
  · rename_i existing hf
    split at h
    · cases h
    · exact ⟨existing, _, hf, h⟩

theorem deleteTax_cases {tax_id : ℕ} (h : s.deleteTax tax_id = .ok s') :
    ∃ existing, s.getTax tax_id = some existing ∧
      (s.eraseTax tax_id).reconcileAfterFeeChange existing.transactionId = .ok s' := by
  unfold deleteTax at h
  split at h
  · cases h
  · rename_i existing hf
    exact ⟨existing, hf, h⟩

theorem createOrUpdateAdjustment_cases {snapshot_id : ℕ} {timestamp : Timestamp} {target_amount : ℚ}
    (h : s.createOrUpdateAdjustment entity_id currency snapshot_id timestamp target_amount = .ok s') :
    ∃ expected, s.getBalanceAtDate entity_id currency timestamp
        { adjustmentSnapshotId := some snapshot_id } = some expected ∧
      s' = s.setSnapshotAdjustment entity_id currency snapshot_id timestamp
        (target_amount - expected) := by
  simp only [createOrUpdateAdjustment, Runs.bind_eq_ok, orTypeError_eq_ok] at h
  obtain ⟨expected, hb, h⟩ := h
  exact ⟨expected, hb, (Except.ok.inj h).symm⟩

theorem createSnapshot_cases {body : BalanceSnapshotCreate} {snapshot_id : ℕ}
    (h : s.createSnapshot body = .ok (snapshot_id, s')) :
    s.hasTransactionsOnOrAfter body.entityId body.currency body.timestamp = false ∧
    snapshot_id = s.snapshots.next ∧
    (s.setSnapshots (s.snapshots.insert (snapshotRow body))).createOrUpdateAdjustment body.entityId
      body.currency snapshot_id body.timestamp body.amount = .ok s' := by
  unfold createSnapshot at h
  rw [Runs.bind_eq_ok] at h
  obtain ⟨-, -, h⟩ := h
  by_cases hc : s.hasTransactionsOnOrAfter body.entityId body.currency body.timestamp = true
  · rw [if_pos hc] at h
    cases h
  · rw [if_neg hc] at h
    simp only [Runs.bind_eq_ok] at h
    obtain ⟨s₂, h2, h⟩ := h
    cases h
    exact ⟨Bool.eq_false_iff.mpr hc, rfl, h2⟩

theorem updateSnapshot_cases {snapshot_id : ℕ} {body : BalanceSnapshotCreate}
    (h : s.updateSnapshot snapshot_id body = .ok s') :
    ∃ existing s₁, s.getBalanceSnapshot snapshot_id = some existing ∧
      ((existing.timestamp = body.timestamp ∧ existing.amount = body.amount ∧ s₁ = s) ∨
        ((existing.timestamp ≠ body.timestamp ∨ existing.amount ≠ body.amount) ∧
          (s.deleteAdjustmentTransaction existing.entityId existing.currency
            snapshot_id).createOrUpdateAdjustment body.entityId body.currency snapshot_id
              body.timestamp body.amount = .ok s₁)) ∧
      s' = s₁.setSnapshots (s₁.snapshots.modify snapshot_id fun _ => snapshotRow body) := by
  unfold updateSnapshot at h
  cases hg : s.getBalanceSnapshot snapshot_id with
  | none => rw [hg] at h; cases h
  | some existing =>
    simp only [hg, Runs.bind_eq_ok] at h
    obtain ⟨-, -, h⟩ := h
    by_cases hc : existing.timestamp ≠ body.timestamp ∨ existing.amount ≠ body.amount
    · rw [if_pos hc, Runs.bind_eq_ok] at h
      obtain ⟨s₁, h1, h⟩ := h
      exact ⟨existing, s₁, rfl, .inr ⟨hc, h1⟩, (Except.ok.inj h).symm⟩
    · rw [if_neg hc, Runs.bind_eq_ok] at h
      obtain ⟨s₁, h1, h⟩ := h
      cases h1
      simp only [not_or, not_not] at hc
      exact ⟨existing, s, rfl, .inl ⟨hc.1, hc.2, rfl⟩, (Except.ok.inj h).symm⟩

theorem deleteSnapshot_cases {snapshot_id : ℕ} (h : s.deleteSnapshot snapshot_id = .ok s') :
    ∃ existing, s.getBalanceSnapshot snapshot_id = some existing ∧
      s' = (s.deleteAdjustmentTransaction existing.entityId existing.currency
        snapshot_id).setSnapshots (s.snapshots.erase snapshot_id) := by
  unfold deleteSnapshot at h
  cases hg : s.getBalanceSnapshot snapshot_id with
  | none => rw [hg] at h; cases h
  | some existing =>
    simp only [hg] at h
    exact ⟨existing, rfl, (Except.ok.inj h).symm⟩

end Ledger

end FinHub
