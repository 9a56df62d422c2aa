import FinHub.Lib.Checkpoint
import FinHub.Lib.Decimal
import FinHub.Model.Ledger
import Mathlib.Data.List.Sort

/-!
# FinHub.Model.Queries

The reads of `db/queries.py` that the cash ledger is built on.

* snapshots: `getPreviousSnapshot`, `getNextSnapshot`, strict on both sides.
* rates: `getRateAt` (latest stored rate at or before an instant), `getRate` with its inversion.
* fees: `computeFeeCashOutAt`, a loop over the fee and tax rows with a rate cache.
* balance: `getBalanceAtDate`. It has two paths, a Python loop from the previous snapshot and an
  SQL sum from the origin. `none` is the `TypeError` that Python raises on an amount that is
  missing; the SQL sum skips such a row.
-/

namespace FinHub

open Tabular

/-! ## Transactions as cash -/

namespace Transaction

def isAdjustment (t : Transaction) : Bool := decide (t.type = .balanceAdjustment)

/-- `COALESCE(payment_currency, currency)`. -/
def cashPocket (t : Transaction) : Currency := t.paymentCurrency.getD t.currency

/-- `COALESCE(gross_amount, total_value)`. -/
def cashAmount (t : Transaction) : Option ℚ := t.grossAmount.or t.totalValue

/-- What one pass of the loop in `get_balance_at_date` adds to the balance. -/
def loopImpact (t : Transaction) : Option ℚ :=
  if t.type.isInflow then t.cashAmount
  else if t.type.isSpend then t.cashAmount.map (- ·)
  else if t.isAdjustment then some (t.totalValue.getD 0)
  else some 0

/-- What the row contributes to `SUM(CASE ..)`; `SUM` skips `NULL`. -/
def sqlImpact (t : Transaction) : ℚ :=
  if t.type.isInflow then t.cashAmount.getD 0
  else if t.type.isSpend then (t.cashAmount.map (- ·)).getD 0
  else if t.isAdjustment then t.totalValue.getD 0
  else 0

theorem loopImpact_getD (t : Transaction) : t.loopImpact.getD 0 = t.sqlImpact := by
  unfold loopImpact sqlImpact; split_ifs <;> rfl

theorem sqlImpact_of_loopImpact {t : Transaction} {x : ℚ} (h : t.loopImpact = some x) :
    t.sqlImpact = x := by
  rw [← loopImpact_getD, h]; rfl

theorem loopImpact_of_isAdjustment {t : Transaction} (h : t.type = .balanceAdjustment) :
    t.loopImpact = some (t.totalValue.getD 0) := by
  simp [loopImpact, isAdjustment, h, TransactionType.isInflow, TransactionType.isSpend]

theorem sqlImpact_of_isAdjustment {t : Transaction} (h : t.type = .balanceAdjustment) :
    t.sqlImpact = t.totalValue.getD 0 :=
  sqlImpact_of_loopImpact (loopImpact_of_isAdjustment h)

end Transaction

/-- `notes LIKE 'Inferred cash%'`; `LIKE` ignores ASCII case and `NULL` matches nothing. -/
def likeInferredCash : Option String → Bool
  | none => false
  | some n => String.isPrefixOf "inferred cash" n.toLower

/-- The rows a balance query is told to leave out. -/
structure Exclude where
  adjustmentSnapshotId : Option ℕ := none
  adjustmentId : Option ℕ := none
  transactionId : Option ℕ := none

namespace Exclude

def keeps (ex : Exclude) (r : ℕ × Transaction) : Bool :=
  ex.adjustmentSnapshotId.all (fun sid => !(r.2.isAdjustment && decide (r.2.balanceSnapshotId = some sid)))
    && ex.adjustmentId.all (fun id => !(r.2.isAdjustment && decide (r.1 = id)))
    && ex.transactionId.all fun id => decide (r.1 ≠ id)

end Exclude

namespace Ledger

variable (s : Ledger)

/-! ## Lookups by key -/

def getEntity (entity_id : ℕ) : Option Entity :=
  (s.entities.get? entity_id).filter fun e => e.deletedAt.isNone

def codeExists (code : Currency) : Bool :=
  s.currencies.any fun r => decide (r.code = code) || decide (r.baseCode = code)

def getPortfolioAsset (asset_id : ℕ) : Option PortfolioAsset := s.portfolioAssets.get? asset_id

def getFiscalExemption (exemption_id : ℕ) : Option FiscalExemption :=
  s.fiscalExemptions.get? exemption_id

def getTransaction (tx_id : ℕ) : Option Transaction := s.transactions.get? tx_id

def getFee (fee_id : ℕ) : Option TransactionFee := s.fees.get? fee_id

def getTax (tax_id : ℕ) : Option TransactionTax := s.taxes.get? tax_id

def getBalanceSnapshot (snapshot_id : ℕ) : Option BalanceSnapshot := s.snapshots.get? snapshot_id

theorem getTransaction_lt {tx_id : ℕ} {t : Transaction} (h : s.getTransaction tx_id = some t) :
    tx_id < s.transactions.next :=
  s.transactions.bounded _ ((s.transactions.get?_eq_some_iff).mp h)

def transactionHasDependents (tx_id : ℕ) : Bool :=
  s.fees.rows.any (fun f => decide (f.2.transactionId = tx_id))
    || s.taxes.rows.any (fun t => decide (t.2.transactionId = tx_id))
    || s.schedules.rows.any fun sc => decide (sc.2.linkedTransactionId = some tx_id)

/-! ## Fiscal rule of a sale -/

def getFiscalPeriodAt (sell_date : Timestamp) : Option FiscalPeriod :=
  let local_date := s.timezone.utcInstantToProfileDate sell_date
  (s.fiscalPeriods.filter fun p =>
    decide (p.startDate ≤ local_date) && p.endDate.all fun e => decide (local_date ≤ e)).argmax
      FiscalPeriod.startDate

def resolveFiscalRule (sell_date : Timestamp) : Option String :=
  (s.getFiscalPeriodAt sell_date).map FiscalPeriod.ruleKey

/-- The rule `create_transaction` and `update_transaction` store: an empty rule key counts as no
rule (`or`), and only sales carry one. -/
def fiscalRuleFor (type : TransactionType) (timestamp : Timestamp) : Option String :=
  if type = .investmentSell then
    ((s.resolveFiscalRule timestamp).filter fun k => decide (k ≠ "")).or s.defaultFiscalRule
  else none

/-! ## Exchange rates -/

def pairExists (code base_code : Currency) : Bool :=
  s.currencies.any fun r => decide (r.code = code) && decide (r.baseCode = base_code)

/-- Latest stored rate at or before `at_`; lookups never look forward. -/
def getRateAt (code base_code : Currency) (at_ : Timestamp) : Option CurrencyRate :=
  (s.currencies.filter fun r => decide (r.code = code) && decide (r.baseCode = base_code) &&
    decide (r.timestamp.instant ≤ at_)).argmax fun r => r.timestamp.instant

/-- The row whose timestamp text is greatest. -/
def getLatestRate (code base_code : Currency) : Option CurrencyRate :=
  (s.currencies.filter fun r => decide (r.code = code) && decide (r.baseCode = base_code)).argmax
    fun r => r.timestamp.textKey

/-- `_resolve_direction`: the stored direction of a pair and whether it is the inverse one. -/
def resolveDirection (code base_code : Currency) : Option (Currency × Currency × Bool) :=
  if s.pairExists code base_code then some (code, base_code, false)
  else if s.pairExists base_code code then some (base_code, code, true)
  else none

/-- `currency_svc.get_rate`; `none` where it raises (no pair, no rate, an inverted rate of zero). -/
def getRate (code base_code : Currency) (at_ : Option Timestamp) : Option ℚ := do
  let (stored_code, stored_base_code, invert) ← s.resolveDirection code base_code
  let row ← match at_ with
    | some at_ => s.getRateAt stored_code stored_base_code at_
    | none => s.getLatestRate stored_code stored_base_code
  if invert then (if row.rate = 0 then none else some (1 / row.rate)) else some row.rate

/-! ## Balance snapshots -/

/-- The snapshots of one pair, in rowid order. -/
def pairSnapshots (entity_id : ℕ) (currency : Currency) : List (ℕ × BalanceSnapshot) :=
  s.snapshots.rows.filter fun r => decide (r.2.entityId = entity_id) && decide (r.2.currency = currency)

def getPreviousSnapshot (entity_id : ℕ) (currency : Currency) (timestamp : Timestamp) :
    Option (ℕ × BalanceSnapshot) :=
  Checkpoint.latestBefore (fun r => r.2.timestamp) (s.pairSnapshots entity_id currency) timestamp

def getNextSnapshot (entity_id : ℕ) (currency : Currency) (timestamp : Timestamp) :
    Option (ℕ × BalanceSnapshot) :=
  Checkpoint.firstAfter (fun r => r.2.timestamp) (s.pairSnapshots entity_id currency) timestamp

/-- A non-adjustment row in `currency` (the asset currency, not the cash pocket) at or after
`since`. -/
def hasTransactionsOnOrAfter (entity_id : ℕ) (currency : Currency) (since : Timestamp) : Bool :=
  s.transactions.rows.any fun r => decide (r.2.entityId = entity_id) && decide (r.2.currency = currency)
    && decide (since ≤ r.2.timestamp) && !r.2.isAdjustment

/-! ## Transactions of a pair -/

/-- `entity_id = ? AND COALESCE(payment_currency, currency) = ?`. -/
def inPair (entity_id : ℕ) (currency : Currency) (r : ℕ × Transaction) : Bool :=
  decide (r.2.entityId = entity_id) && decide (r.2.cashPocket = currency)

def getTransactionsBetween (entity_id : ℕ) (currency : Currency) (start end_ : Timestamp)
    (ex : Exclude) : List (ℕ × Transaction) :=
  (s.transactions.rows.filter fun r => inPair entity_id currency r && decide (start ≤ r.2.timestamp)
    && decide (r.2.timestamp < end_) && ex.keeps r).insertionSort
      fun a b => a.2.timestamp ≤ b.2.timestamp

def getAdjustmentTransaction (entity_id : ℕ) (currency : Currency) (snapshot_id : ℕ) :
    Option (ℕ × Transaction) :=
  s.transactions.rows.find? fun r => decide (r.2.entityId = entity_id) && decide (r.2.currency = currency)
    && r.2.isAdjustment && decide (r.2.balanceSnapshotId = some snapshot_id)

/-- Whether the row is a standalone inferred-cash adjustment. -/
def isInjection (t : Transaction) : Bool :=
  t.isAdjustment && decide (t.balanceSnapshotId = none) && likeInferredCash t.notes

def getInjectedAdjustmentAt (entity_id : ℕ) (currency : Currency) (timestamp : Timestamp) :
    Option (ℕ × Transaction) :=
  s.transactions.rows.find? fun r => decide (r.2.entityId = entity_id) && decide (r.2.currency = currency)
    && isInjection r.2 && decide (r.2.timestamp = timestamp)

def getAttachedTransactionIds (adjustment_id : ℕ) : List ℕ :=
  (s.links.filter fun l => decide (l.balanceAdjustmentId = adjustment_id)).map
    Link.linkedTransactionId

/-- The join of the link rows of `tx_id` with the adjustments they name. -/
def getAdjustmentsLinkedToTransaction (tx_id : ℕ) : List (ℕ × Transaction) :=
  s.transactions.rows.filter fun r => decide (⟨r.1, tx_id⟩ ∈ s.links)

/-! ## Fee and tax cash-out -/

/-- One fee or tax row as the conversion loop sees it. -/
structure Charge where
  currency : Currency
  amount : ℚ
  txTs : Timestamp

/-- Whether the parent of a fee or tax row is read. -/
def chargesParent (entity_id : ℕ) (timestamp : Timestamp) (exclude_transaction_id : Option ℕ)
    (r : ℕ × Transaction) : Bool :=
  decide (r.2.entityId = entity_id) && decide (r.2.timestamp ≤ timestamp)
    && exclude_transaction_id.all fun id => decide (r.1 ≠ id)

/-- The parent row of a fee or tax, when the join and its `WHERE` keep it. -/
def parentOf (entity_id : ℕ) (timestamp : Timestamp) (exclude_transaction_id : Option ℕ)
    (transaction_id : ℕ) : Option Transaction :=
  (s.getTransaction transaction_id).filter fun t =>
    chargesParent entity_id timestamp exclude_transaction_id (transaction_id, t)

/-- The amount of a fee; a percentage of a missing total is a `TypeError`. -/
def feeAmount (f : TransactionFee) (tx_total : Option ℚ) : Option ℚ :=
  match f.nature with
  | .fixed => some f.fixedAmount
  | .percentage => tx_total.map fun total => f.percentage * total / 100
  | .both => tx_total.map fun total => f.fixedAmount + f.percentage * total / 100
  | .min => tx_total.map fun total => min f.fixedAmount (f.percentage * total / 100)

def feeCharge (p : TransactionFee × Transaction) : Option Charge :=
  (feeAmount p.1 p.2.totalValue).map fun amt => ⟨p.1.currency, amt, p.2.timestamp⟩

/-- `transaction_fees` joined with their parents, in fee order. -/
def feeRows (entity_id : ℕ) (timestamp : Timestamp) (exclude_transaction_id : Option ℕ) :
    List (TransactionFee × Transaction) :=
  s.fees.rows.filterMap fun f =>
    (s.parentOf entity_id timestamp exclude_transaction_id f.2.transactionId).map fun t => (f.2, t)

/-- `transaction_taxes` with an amount, joined with their parents, in tax order. -/
def taxCharges (entity_id : ℕ) (timestamp : Timestamp) (exclude_transaction_id : Option ℕ) :
    List Charge :=
  s.taxes.rows.filterMap fun x =>
    (s.parentOf entity_id timestamp exclude_transaction_id x.2.transactionId).bind fun t =>
      x.2.taxAmount.map fun amt => ⟨x.2.currency, amt, t.timestamp⟩

/-- One pass of the conversion loops: the total and the rate cache, keyed by currency (the other
half of the cache key, `main_currency`, is the same for every row). -/
def chargeStep (main_currency : Option Currency) (pocket : Currency)
    (acc : ℚ × List (Currency × Option ℚ)) (ch : Charge) : ℚ × List (Currency × Option ℚ) :=
  if ch.currency = pocket then (acc.1 + ch.amount, acc.2)
  else
    match main_currency with
    | none => acc
    | some main =>
      match acc.2.lookup ch.currency with
      | some rate => (acc.1 + (rate.map (ch.amount * ·)).getD 0, acc.2)
      | none =>
        let rate := (s.getRateAt ch.currency main ch.txTs).map CurrencyRate.rate
        (acc.1 + (rate.map (ch.amount * ·)).getD 0, (ch.currency, rate) :: acc.2)

/-- Total fee and tax cash-out of an entity in `target_currency`. -/
def computeFeeCashOutAt (entity_id : ℕ) (target_currency : Currency) (timestamp : Timestamp)
    (exclude_transaction_id : Option ℕ := none) : Option ℚ :=
  match s.getEntity entity_id with
  | none => some 0
  | some entity =>
    if entity.mainCurrency.any (fun main => decide (main ≠ target_currency)) then some 0
    else do
      let fees ← (s.feeRows entity_id timestamp exclude_transaction_id).mapM feeCharge
      let taxes := s.taxCharges entity_id timestamp exclude_transaction_id
      let pocket := entity.mainCurrency.getD target_currency
      some ((fees ++ taxes).foldl (s.chargeStep entity.mainCurrency pocket) (0, [])).1

/-! ## Balance -/

def getBalanceAtDate (entity_id : ℕ) (currency : Currency) (timestamp : Timestamp)
    (ex : Exclude := {}) (inclusive_end : Bool := true) : Option ℚ :=
  match s.getPreviousSnapshot entity_id currency timestamp with
  | some snapshot => do
    let impacts ← (s.getTransactionsBetween entity_id currency snapshot.2.timestamp timestamp ex).mapM
      fun r => r.2.loopImpact
    let fee_t ← s.computeFeeCashOutAt entity_id currency timestamp ex.transactionId
    let fee_s ← s.computeFeeCashOutAt entity_id currency snapshot.2.timestamp ex.transactionId
    some (snapshot.2.amount + impacts.sum - (fee_t - fee_s))
  | none => do
    let rows := s.transactions.rows.filter fun r => inPair entity_id currency r && ex.keeps r
      && (if inclusive_end then decide (r.2.timestamp ≤ timestamp) else decide (r.2.timestamp < timestamp))
    let fee_t ← s.computeFeeCashOutAt entity_id currency timestamp ex.transactionId
    some ((rows.map fun r => r.2.sqlImpact).sum - fee_t)

end Ledger

end FinHub
