import FinHub.Model.Queries

/-!
# FinHub.Model.TransactionSvc

`services/transaction_svc.py`: recording, editing and deleting a transaction, and the three
bookkeeping passes these calls and the fee services share.

* `recalculateAdjustments` refreshes the adjustment of the first snapshot strictly after an instant.
* `ensureCashForSpend` injects inferred cash on the day before an unfunded spend, `linkInjection`
  attaches the spend to it and `refreshInjection` recomputes it from its remaining spends.
* `reconcileAfterFeeChange` runs after every fee or tax write.

A call that raises leaves the database as it was: nothing is committed. So a call is a function into
`Except SvcError`, and an error carries no ledger.
-/

namespace FinHub

open Tabular

/-- What the ledger services raise. `typeError` is Python's, on a missing amount. -/
inductive SvcError where
  | entityNotFound (id : ℕ)
  | currencyNotFound (code : Currency)
  | portfolioAssetNotFound (id : ℕ)
  | fiscalExemptionNotFound (id : ℕ)
  | transactionNotFound (id : ℕ)
  | transactionHasDependents (id : ℕ)
  | feeNotFound (id : ℕ)
  | taxNotFound (id : ℕ)
  | snapshotNotFound (id : ℕ)
  | snapshotConflict (timestamp : Timestamp) (entity_id : ℕ) (currency : Currency)
  | typeError
  deriving DecidableEq

namespace SvcError

def message : SvcError → String
  | entityNotFound id => s!"Entity {id} not found"
  | currencyNotFound code => s!"Currency '{code.1}' not found"
  | portfolioAssetNotFound id => s!"Portfolio asset {id} not found"
  | fiscalExemptionNotFound id => s!"Fiscal exemption {id} not found"
  | transactionNotFound id => s!"Transaction {id} not found"
  | transactionHasDependents id =>
    s!"Transaction {id} has fees, taxes, or schedules referencing it"
  | feeNotFound id => s!"Fee {id} not found"
  | taxNotFound id => s!"Tax {id} not found"
  | snapshotNotFound id => s!"Balance snapshot {id} not found"
  | snapshotConflict timestamp entity_id currency =>
    s!"Cannot create snapshot: transactions exist with timestamp >= {Time.isoText timestamp} " ++
      s!"for entity {entity_id} / {currency.1}"
  | typeError => "unsupported operand type(s)"

end SvcError

/-- The value of a read, or the `TypeError` it raised. -/
def orTypeError {α : Type} : Option α → Except SvcError α
  | some a => .ok a
  | none => .error .typeError

/-- The body of a create or update request, its timestamp already through `_to_iso`.
`cashHandlingSent` is `"cash_handling" in body.model_fields_set`. -/
structure TransactionCreate where
  timestamp : Timestamp
  type : TransactionType
  entityId : ℕ
  currency : Currency
  investmentTransactionCategory : Option InvestmentTransactionCategory := none
  incomeCategory : Option IncomeCategory := none
  portfolioAssetId : Option ℕ := none
  quantity : Option ℚ := none
  unitPrice : Option ℚ := none
  totalValue : Option ℚ := none
  grossAmount : Option ℚ := none
  netAmount : Option ℚ := none
  paymentCurrency : Option Currency := none
  fxRate : Option ℚ := none
  settlementDate : Option ℤ := none
  fiscalExemptionId : Option ℕ := none
  dividendType : Option DividendType := none
  recordDate : Option ℤ := none
  paymentDate : Option ℤ := none
  dividendCurrency : Option Currency := none
  dividendPaymentCurrency : Option Currency := none
  dividendFxRate : Option ℚ := none
  notes : Option String := none
  cashHandling : Option BalanceMode := none
  cashHandlingSent : Bool := false
  deriving DecidableEq

namespace TransactionCreate

/-- `body.payment_currency or body.currency`. -/
def cashPocket (body : TransactionCreate) : Currency := body.paymentCurrency.getD body.currency

/-- The amount a spend is checked for; a spend without `total_value` is not checked. -/
def spendAmount (body : TransactionCreate) : Option ℚ :=
  body.totalValue.map fun total => body.grossAmount.getD total

/-- Whichever of quantity, unit price and total value is missing, from the other two. -/
def resolveInvestmentFields (body : TransactionCreate) : TransactionCreate :=
  if body.type ≠ .investmentBuy ∧ body.type ≠ .investmentSell then
    match body.quantity, body.unitPrice, body.totalValue with
    | some q, some p, none => { body with totalValue := some (q * p) }
    | _, _, _ => body
  else
    match body.quantity, body.unitPrice, body.totalValue with
    | some q, some p, none => { body with totalValue := some (q * p) }
    | none, some p, some t => if p = 0 then body else { body with quantity := some (t / p) }
    | some q, none, some t => if q = 0 then body else { body with unitPrice := some (t / q) }
    | none, none, some t => { body with quantity := some 1, unitPrice := some t }
    | _, _, _ => body

/-- `fx_rate`, `gross_amount` and `net_amount` of a cross-currency body. -/
def resolveFxFields (s : Ledger) (body : TransactionCreate) : TransactionCreate :=
  match body.paymentCurrency with
  | none => body
  | some payment =>
    if payment = body.currency then body
    else
      let fx_rate := body.fxRate.or (s.getRate body.currency payment none)
      match body.totalValue, fx_rate with
      | none, _ => body
      | some _, none => body
      | some total, some fx =>
        let gross := body.grossAmount.getD (Decimal.roundTo 2 (total * fx))
        { body with
          fxRate := some fx
          grossAmount := some gross
          netAmount := some (body.netAmount.getD gross) }

/-- The body as it is stored: `_resolve_investment_fields`, then `_resolve_fx_fields`. -/
def resolved (s : Ledger) (body : TransactionCreate) : TransactionCreate :=
  resolveFxFields s body.resolveInvestmentFields

/-- The row a resolved body is stored as. -/
def toRow (body : TransactionCreate) (fiscal_rule : Option String)
    (cash_handling : Option BalanceMode) : Transaction where
  timestamp := body.timestamp
  type := body.type
  entityId := body.entityId
  currency := body.currency
  investmentTransactionCategory := body.investmentTransactionCategory
  incomeCategory := body.incomeCategory
  portfolioAssetId := body.portfolioAssetId
  quantity := body.quantity
  unitPrice := body.unitPrice
  totalValue := body.totalValue
  grossAmount := body.grossAmount
  netAmount := body.netAmount
  paymentCurrency := body.paymentCurrency
  fxRate := body.fxRate
  settlementDate := body.settlementDate
  fiscalExemptionId := body.fiscalExemptionId
  fiscalRule := fiscal_rule
  dividendType := body.dividendType
  recordDate := body.recordDate
  paymentDate := body.paymentDate
  dividendCurrency := body.dividendCurrency
  dividendPaymentCurrency := body.dividendPaymentCurrency
  dividendFxRate := body.dividendFxRate
  notes := body.notes
  cashHandling := cash_handling

end TransactionCreate

/-- What a create or update answers: the id and the stored row. -/
structure TransactionResponse where
  id : ℕ
  row : Transaction

namespace Ledger

/-! ## Adjustment rows -/

def createAdjustmentTransaction (s : Ledger) (entity_id : ℕ) (currency : Currency) (amount : ℚ)
    (timestamp : Timestamp) (snapshot_id : Option ℕ) (notes : String) : Ledger :=
  s.insertTransaction
    { timestamp, type := .balanceAdjustment, entityId := entity_id, currency
      totalValue := some amount, balanceSnapshotId := snapshot_id, notes := some notes }

def updateAdjustmentTransaction (s : Ledger) (tx_id : ℕ) (amount : ℚ) (notes : String) : Ledger :=
  s.modifyTransaction tx_id fun t => { t with totalValue := some amount, notes := some notes }

def deleteTransaction (s : Ledger) (tx_id : ℕ) : Ledger :=
  s.removeTransactions fun r => r.1 == tx_id

/-- Drop every link row touching `tx_id`, on either side. -/
def removeLinksForTransaction (s : Ledger) (tx_id : ℕ) : Ledger :=
  s.removeLinks fun l => decide (l.balanceAdjustmentId = tx_id) || decide (l.linkedTransactionId = tx_id)

/-- Delete a standalone inferred-cash adjustment once no link is left. -/
def deleteInjectionIfUnlinked (s : Ledger) (adjustment_id : ℕ) : Ledger :=
  match s.getTransaction adjustment_id with
  | none => s
  | some row =>
    if row.balanceSnapshotId.isSome then s
    else if s.links.any fun l => decide (l.balanceAdjustmentId = adjustment_id) then s
    else if isInjection row then s.deleteTransaction adjustment_id
    else s

def injectionNotes : String := "Inferred cash for investment purchases"

def snapshotNotes (timestamp : Timestamp) : String :=
  "Balance adjustment for snapshot at " ++ Time.isoText timestamp

/-! ## Snapshot adjustments -/

/-- Write `amount` on the adjustment of a snapshot, or open one. -/
def setSnapshotAdjustment (s : Ledger) (entity_id : ℕ) (currency : Currency) (snapshot_id : ℕ)
    (timestamp : Timestamp) (amount : ℚ) : Ledger :=
  match s.getAdjustmentTransaction entity_id currency snapshot_id with
  | some existing => s.updateAdjustmentTransaction existing.1 amount (snapshotNotes timestamp)
  | none =>
    s.createAdjustmentTransaction entity_id currency amount (s.timezone.adjustmentTimestamp timestamp)
      (some snapshot_id) (snapshotNotes timestamp)

/-- The measured balance leaves the snapshot's own adjustment out, so the recomputation is not
circular. -/
def recalculateAdjustments (s : Ledger) (entity_id : ℕ) (currency : Currency)
    (timestamp : Timestamp) : Except SvcError Ledger :=
  match s.getNextSnapshot entity_id currency timestamp with
  | none => .ok s
  | some next => do
    let balance_expected ← orTypeError <| s.getBalanceAtDate entity_id currency next.2.timestamp
      { adjustmentSnapshotId := some next.1 }
    .ok (s.setSnapshotAdjustment entity_id currency next.1 next.2.timestamp
      (next.2.amount - balance_expected))

/-! ## Inferred cash -/

/-- Whether a snapshot strictly before the injection instant anchors the pair. -/
def anchoredAt (s : Ledger) (entity_id : ℕ) (currency : Currency) (timestamp : Timestamp) : Bool :=
  (s.getPreviousSnapshot entity_id currency (Time.injectionTs timestamp)).isSome

/-- The measuring half of `_ensure_cash_for_spend`: what has to be injected, if anything. -/
def cashNeeded (s : Ledger) (entity_id : ℕ) (currency : Currency) (timestamp : Timestamp)
    (total_value : ℚ) (mode : Option BalanceMode) (exclude_transaction_id : Option ℕ) :
    Except SvcError (Option ℚ) :=
  if mode = some .debit then .ok none
  else if s.anchoredAt entity_id currency timestamp ∧ mode ≠ some .inject then .ok none
  else do
    let balance ← orTypeError <| s.getBalanceAtDate entity_id currency timestamp
      { transactionId := exclude_transaction_id }
    if total_value ≤ balance then .ok none else .ok (some (total_value - balance))

/-- The writing half: same-day spends merge into one injected adjustment. -/
def inject (s : Ledger) (entity_id : ℕ) (currency : Currency) (timestamp : Timestamp) (needed : ℚ) :
    Ledger :=
  match s.getInjectedAdjustmentAt entity_id currency (Time.injectionTs timestamp) with
  | some existing =>
    s.updateAdjustmentTransaction existing.1 (existing.2.totalValue.getD 0 + needed) injectionNotes
  | none =>
    s.createAdjustmentTransaction entity_id currency needed (Time.injectionTs timestamp) none
      injectionNotes

def ensureCashForSpend (s : Ledger) (entity_id : ℕ) (currency : Currency) (timestamp : Timestamp)
    (total_value : ℚ) (mode : Option BalanceMode) (exclude_transaction_id : Option ℕ) :
    Except SvcError Ledger := do
  match ← s.cashNeeded entity_id currency timestamp total_value mode exclude_transaction_id with
  | none => .ok s
  | some needed => .ok (s.inject entity_id currency timestamp needed)

/-- The ensure step as `create` and `update` run it, on a resolved body. -/
def ensureCash (s : Ledger) (body : TransactionCreate) (mode : Option BalanceMode)
    (exclude_transaction_id : Option ℕ) : Except SvcError Ledger :=
  match body.spendAmount with
  | some cash_amount =>
    if body.type.isSpend then
      s.ensureCashForSpend body.entityId body.cashPocket body.timestamp cash_amount mode
        exclude_transaction_id
    else .ok s
  | none => .ok s

def linkInjection (s : Ledger) (entity_id : ℕ) (currency : Currency) (timestamp : Timestamp)
    (spend_id : ℕ) : Ledger :=
  match s.getInjectedAdjustmentAt entity_id currency (Time.injectionTs timestamp) with
  | some existing => s.linkAdjustmentToTransaction existing.1 spend_id
  | none => s

/-- One row of the day's walk: the running balance and the deepest deficit so far. -/
def walkStep (acc : ℚ × ℚ) (t : Transaction) : ℚ × ℚ :=
  let cash_amount := t.cashAmount.getD 0
  if t.type.isSpend then (acc.1 - cash_amount, max acc.2 (-(acc.1 - cash_amount)))
  else if t.type.isInflow then (acc.1 + cash_amount, acc.2)
  else acc

def requiredInjectionForDay (s : Ledger) (entity_id : ℕ) (currency : Currency) (spend_day : ℤ)
    (injected_adj_id : Option ℕ) (exclude_transaction_id : Option ℕ) : Except SvcError ℚ := do
  let opening ← orTypeError <| s.getBalanceAtDate entity_id currency (Time.startOfDay spend_day)
    { adjustmentId := injected_adj_id, transactionId := exclude_transaction_id } false
  let rows := s.getTransactionsBetween entity_id currency (Time.startOfDay spend_day)
    (Time.startOfDay (spend_day + 1)) { transactionId := exclude_transaction_id }
  .ok (Decimal.roundTo 2 ((rows.map Prod.snd).foldl walkStep (opening, 0)).2)

/-- Recompute an attached injection from its linked spends. -/
def refreshInjection (s : Ledger) (adjustment_id : ℕ) (exclude_transaction_id : Option ℕ) :
    Except SvcError Ledger :=
  match s.getTransaction adjustment_id with
  | none => .ok s
  | some adj =>
    if adj.type ≠ .balanceAdjustment ∨ adj.balanceSnapshotId.isSome then .ok s
    else if s.getAttachedTransactionIds adjustment_id = [] then
      .ok ((s.removeLinksForTransaction adjustment_id).deleteInjectionIfUnlinked adjustment_id)
    else do
      let required ← s.requiredInjectionForDay adj.entityId adj.currency (Time.dayOf adj.timestamp + 1)
        (some adjustment_id) exclude_transaction_id
      if required ≤ 0 then
        .ok ((s.removeLinksForTransaction adjustment_id).deleteInjectionIfUnlinked adjustment_id)
      else .ok (s.updateAdjustmentTransaction adjustment_id required injectionNotes)

def refreshInjections (s : Ledger) (adjustment_ids : List ℕ) (exclude_transaction_id : Option ℕ) :
    Except SvcError Ledger :=
  adjustment_ids.foldlM (fun s id => s.refreshInjection id exclude_transaction_id) s

/-! ## Fees -/

/-- The fee-driven injection on the main pocket, the last part of `reconcile_after_fee_change`. -/
def reconcileFeeInjection (s : Ledger) (tx : Transaction) (main_currency : Currency) :
    Except SvcError Ledger :=
  if s.anchoredAt tx.entityId main_currency tx.timestamp then .ok s
  else do
    let balance ← orTypeError <| s.getBalanceAtDate tx.entityId main_currency tx.timestamp
    let injection_ts := Time.injectionTs tx.timestamp
    match s.getInjectedAdjustmentAt tx.entityId main_currency injection_ts with
    | some existing =>
      if 0 ≤ balance then .ok (s.deleteTransaction existing.1)
      else .ok (s.updateAdjustmentTransaction existing.1 (-balance) injectionNotes)
    | none =>
      if 0 ≤ balance then .ok s
      else
        let adj_id := s.transactions.next
        let s₁ := s.createAdjustmentTransaction tx.entityId main_currency (-balance) injection_ts none
          injectionNotes
        -- Both bounds are the date text of `injection_ts`, as in the query.
        let day := Time.startOfDay (Time.dayOf injection_ts)
        let spends := s₁.transactions.rows.filter fun r => decide (r.2.entityId = tx.entityId)
          && decide (r.2.currency = main_currency) && r.2.type.isSpend
          && decide (day ≤ r.2.timestamp) && decide (r.2.timestamp < day)
        .ok (spends.foldl (fun s sp => s.linkAdjustmentToTransaction adj_id sp.1) s₁)

def reconcileAfterFeeChange (s : Ledger) (transaction_id : ℕ) : Except SvcError Ledger :=
  match s.getTransaction transaction_id with
  | none => .ok s
  | some tx =>
    if tx.type = .balanceAdjustment then .ok s
    else do
      let s ← s.recalculateAdjustments tx.entityId tx.cashPocket tx.timestamp
      match (s.getEntity tx.entityId).bind Entity.mainCurrency with
      | none => .ok s
      | some main_currency =>
        if main_currency = tx.currency then .ok s
        else do
          let s ← s.recalculateAdjustments tx.entityId main_currency tx.timestamp
          s.reconcileFeeInjection tx main_currency

/-! ## The calls -/

def resolveFks (s : Ledger) (body : TransactionCreate) : Except SvcError Unit := do
  unless (s.getEntity body.entityId).isSome do throw (.entityNotFound body.entityId)
  unless s.codeExists body.currency do throw (.currencyNotFound body.currency)
  if let some id := body.portfolioAssetId then
    unless (s.getPortfolioAsset id).isSome do throw (.portfolioAssetNotFound id)
  if let some code := body.paymentCurrency then
    unless s.codeExists code do throw (.currencyNotFound code)
  if let some id := body.fiscalExemptionId then
    unless (s.getFiscalExemption id).isSome do throw (.fiscalExemptionNotFound id)
  if let some code := body.dividendCurrency then
    unless s.codeExists code do throw (.currencyNotFound code)
  if let some code := body.dividendPaymentCurrency then
    unless s.codeExists code do throw (.currencyNotFound code)

/-- Attach a spend to the injection of its day; rows of other types are left alone. -/
def attach (s : Ledger) (body : TransactionCreate) (tx_id : ℕ) : Ledger :=
  if body.type.isSpend then
    s.linkInjection body.entityId body.cashPocket body.timestamp tx_id
  else s

/-- Refresh the snapshot after the body's row, unless the row is itself an adjustment. -/
def recalculateFor (s : Ledger) (body : TransactionCreate) : Except SvcError Ledger :=
  if body.type = .balanceAdjustment then .ok s
  else s.recalculateAdjustments body.entityId body.cashPocket body.timestamp

def createTransaction (s : Ledger) (body : TransactionCreate) :
    Except SvcError (TransactionResponse × Ledger) := do
  s.resolveFks body
  let body := body.resolved s
  let s₁ ← s.ensureCash body body.cashHandling none
  let tx_id := s₁.transactions.next
  let row := body.toRow (s₁.fiscalRuleFor body.type body.timestamp) body.cashHandling
  let s₂ := (s₁.insertTransaction row).attach body tx_id
  let s₃ ← s₂.recalculateFor body
  .ok (⟨tx_id, row⟩, s₃)

/-- Detach an edited spend from its injections and refresh them against what is left. -/
def detach (s : Ledger) (existing : Transaction) (tx_id : ℕ) (linked_adjs : List ℕ) :
    Except SvcError Ledger :=
  if existing.type.isSpend then
    (s.removeLinksForTransaction tx_id).refreshInjections linked_adjs (some tx_id)
  else .ok s

/-- The second refresh of an edit, at the row's old place. -/
def recalculateOld (s : Ledger) (body : TransactionCreate) (existing : Transaction) :
    Except SvcError Ledger :=
  if body.type = .balanceAdjustment then .ok s
  else if existing.entityId ≠ body.entityId ∨ existing.cashPocket ≠ body.cashPocket ∨
      existing.timestamp ≠ body.timestamp then
    s.recalculateAdjustments existing.entityId existing.cashPocket existing.timestamp
  else .ok s

/-- The row an edit leaves: the body's columns, the row's own snapshot link, and the stored
cash-handling mode unless the body sends one. -/
def editedRow (s : Ledger) (body : TransactionCreate) (existing : Transaction) : Transaction :=
  { body.toRow (s.fiscalRuleFor body.type body.timestamp)
      (if body.cashHandlingSent then body.cashHandling else existing.cashHandling) with
    balanceSnapshotId := existing.balanceSnapshotId }

def updateTransaction (s : Ledger) (tx_id : ℕ) (body : TransactionCreate) :
    Except SvcError (TransactionResponse × Ledger) :=
  match s.getTransaction tx_id with
  | none => .error (.transactionNotFound tx_id)
  | some existing => do
    let linked_adjs := (s.getAdjustmentsLinkedToTransaction tx_id).map Prod.fst
    s.resolveFks body
    let body := body.resolved s
    let row := s.editedRow body existing
    let s₁ ← (s.modifyTransaction tx_id fun _ => row).detach existing tx_id linked_adjs
    let s₂ ← s₁.ensureCash body row.cashHandling (some tx_id)
    -- The link is made inside the branch that checks the amount.
    let s₃ := if body.spendAmount.isSome then s₂.attach body tx_id else s₂
    let s₄ ← s₃.recalculateFor body
    let s₅ ← s₄.recalculateOld body existing
    .ok (⟨tx_id, row⟩, s₅)

/-- The refresh of `delete` runs on the asset currency of the row, not on its cash pocket. -/
def deleteTransactionSvc (s : Ledger) (tx_id : ℕ) : Except SvcError Ledger :=
  match s.getTransaction tx_id with
  | none => .error (.transactionNotFound tx_id)
  | some existing =>
    if s.transactionHasDependents tx_id then .error (.transactionHasDependents tx_id)
    else
      let attached := if existing.type.isSpend then
        (s.getAdjustmentsLinkedToTransaction tx_id).map Prod.fst else []
      let s₁ := (s.removeLinksForTransaction tx_id).deleteTransaction tx_id
      let s₂ := attached.foldl deleteInjectionIfUnlinked s₁
      if existing.type = .balanceAdjustment then .ok s₂
      else s₂.recalculateAdjustments existing.entityId existing.currency existing.timestamp

end Ledger

end FinHub
