import FinHub.Analytics.DateGrids
import FinHub.Analytics.EntityHoldings
import FinHub.Analytics.EntityShares

/-!
# FinHub.Analytics.CashReports

The cash of a profile by currency, in five views and by the balances of its entities.

* `getCashBalanceByCurrency`: the pairs at the end of today. `_apply_fee_corrections` gets the rows of the pairs with
  a snapshot too, whose balances have their fees taken off already.
* `getCashByCurrencyHistory`: the currencies at the end of each date. Nothing takes the fees off the pairs without a
  snapshot.
* `CashViewsAgree`: each of the views shows what the balances of the entities come to at the instant it reads.
-/

namespace FinHub

open Calendar Groups Worth

structure CashBalanceRow where
  entityId : ℕ
  currency : Currency
  balance : Option ℚ
  deriving DecidableEq

/-- `period_key`. -/
inductive PeriodKey where
  | day (d : Date)
  | month (year month : ℤ)
  deriving DecidableEq

structure CashHistoryRow where
  date : PeriodKey
  currency : Currency
  balance : ℚ
  deriving DecidableEq

/-- `none` in `dates`: the loop over the dates has not ended. -/
inductive CashHistoryError where
  | dates (e : Option CashDateError)
  | typeError
  deriving DecidableEq

def periodKey (interval : String) (dt : Date) : PeriodKey :=
  if interval = "day" then .day dt else .month dt.year dt.month

structure CashHistoryCall where
  start : Date
  end_ : Date
  interval : String := "month"

namespace Ledger

variable (s : Ledger)

/-- The rows up to an instant whose pair has no snapshot. -/
def openRows (timestamp : Timestamp) : List (ℕ × Transaction) :=
  s.transactions.rows.filter fun r => decide (r.2.timestamp ≤ timestamp) &&
    !(s.snapshotPairs none).elem (r.2.entityId, r.2.cashPocket)

/-! ## The pairs today -/

/-- Whether the fees of an entity are taken from its pocket in a currency: the test of `_apply_fee_corrections`. -/
def isMainPocket (p : ℕ × Currency) : Bool := (s.getEntity p.1).any fun e => decide (e.mainCurrency = some p.2)

/-- One row of `_apply_fee_corrections`; a missing balance cannot be subtracted from. -/
def correctRow (timestamp : Timestamp) (r : CashBalanceRow) : Option CashBalanceRow :=
  if s.isMainPocket (r.entityId, r.currency) then do
    let balance ← r.balance
    let fees ← s.computeFeeCashOutAt r.entityId r.currency timestamp
    some { r with balance := some (balance - fees) }
  else some r

/-- `now_cutoff`. -/
def nowCutoff (now : Timestamp) : Timestamp := Time.endOfDay (Time.dayOf now)

def anchoredBalanceRow (now_cutoff : Timestamp) (p : ℕ × Currency) : Option CashBalanceRow :=
  (s.getBalanceAtDate p.1 p.2 now_cutoff).map fun balance => ⟨p.1, p.2, some balance⟩

/-- `GROUP BY t.entity_id, COALESCE(t.payment_currency, t.currency)`. -/
def openBalanceRow (now_cutoff : Timestamp) (p : ℕ × Currency) : CashBalanceRow where
  entityId := p.1
  currency := p.2
  balance := sumOption (((s.openRows now_cutoff).filter fun r => inPair p.1 p.2 r).map fun r => r.2.caseImpact)

/-- `none` is a `TypeError`. -/
def getCashBalanceByCurrency (now : Timestamp) : Option (List CashBalanceRow) := do
  let now_cutoff := nowCutoff now
  let results ← (s.snapshotPairs none).mapM (s.anchoredBalanceRow now_cutoff)
  let non_snapshot_rows := ((s.openRows now_cutoff).map fun r => (r.2.entityId, r.2.cashPocket)).eraseDups.map
    (s.openBalanceRow now_cutoff)
  (results ++ non_snapshot_rows).mapM (s.correctRow now_cutoff)

/-! ## The history -/

/-- `GROUP BY COALESCE(t.payment_currency, t.currency)`; a sum that is `NULL` cannot be added. -/
def openCurrencyEntry (ts : Timestamp) (cur : Currency) : Option (Currency × ℚ) :=
  (sumOption (((s.openRows ts).filter fun r => decide (r.2.cashPocket = cur)).map fun r => r.2.caseImpact)).map
    fun balance => (cur, balance)

def currencyTotals (ts : Timestamp) : Option (Tally Currency) := do
  let anchored ← (s.snapshotPairs none).mapM fun p => (s.getBalanceAtDate p.1 p.2 ts).map fun balance => (p.2, balance)
  let rest ← ((s.openRows ts).map fun r => r.2.cashPocket).eraseDups.mapM (s.openCurrencyEntry ts)
  some (collect (anchored ++ rest))

/-- The instant that a date of the history reads. -/
def historyTs (dt : Date) : Timestamp := Time.endOfDay (isoDay dt)

def pointRows (key : PeriodKey) (totals : Tally Currency) : List CashHistoryRow :=
  totals.map fun e => ⟨key, e.1, e.2⟩

/-- One pass of the loop over the dates. -/
def cashHistoryPoint (interval : String) (dt : Date) : Option (List CashHistoryRow) :=
  (s.currencyTotals (historyTs dt)).map (pointRows (periodKey interval dt))

def getCashByCurrencyHistory (fuel : ℕ) (c : CashHistoryCall) : Except CashHistoryError (List CashHistoryRow) := do
  let dates ← (cashDates c.interval fuel c.start c.end_).mapError .dates
  match dates.mapM (s.cashHistoryPoint c.interval) with
  | none => .error .typeError
  | some points => .ok points.flatten

/-! ## What the views show -/

/-- The amounts of the rows, none of which is missing. -/
def rowEntries {α : Type} (currency : α → Currency) (amount : α → Option ℚ) (rows : List α) :
    Option (List (Currency × ℚ)) :=
  rows.mapM fun r => (amount r).map fun x => (currency r, x)

def balanceEntries (now : Timestamp) : Option (List (Currency × ℚ)) :=
  (s.getCashBalanceByCurrency now).bind (rowEntries CashBalanceRow.currency CashBalanceRow.balance)

/-- The views of the entities, one after another. -/
def entityEntries (timestamp : Timestamp) : Option (List (Currency × ℚ)) :=
  (s.entityIds.mapM fun e => s.getEntityTotalCashByCurrencyAsOf e timestamp).map List.flatten

def rawEntries (now : Timestamp) : Option (List (Currency × ℚ)) :=
  (s.getCashByEntityRaw now).toOption.bind (rowEntries CashByEntityRow.currency CashByEntityRow.cashBalance)

/-- The rows of a date. -/
def pointEntries (key : PeriodKey) (rows : List CashHistoryRow) : List (Currency × ℚ) :=
  (rows.filter fun r => decide (r.date = key)).map fun r => (r.currency, r.balance)

def historyEntries (fuel : ℕ) (c : CashHistoryCall) (dt : Date) : Option (List (Currency × ℚ)) :=
  (s.getCashByCurrencyHistory fuel c).toOption.map (pointEntries (periodKey c.interval dt))

/-- The balances of the entities in a currency, added up. -/
def cashTotal (timestamp : Timestamp) (cur : Currency) : Option ℚ :=
  (s.entityIds.mapM fun e => s.getBalanceAtDate e cur timestamp).map List.sum

/-- A view has the balances at an instant, in every currency. -/
def Shows (timestamp : Timestamp) (view : Option (List (Currency × ℚ))) : Prop :=
  ∃ entries, view = some entries ∧ ∀ cur, s.cashTotal timestamp cur = some (amountOf cur entries)

/-- The five views, called at `now` or for `timestamp`, with a history whose last date is `last`. -/
structure CashViewsAgree (now timestamp : Timestamp) (fuel : ℕ) (c : CashHistoryCall) (last : Date) : Prop where
  balance : s.Shows (nowCutoff now) (s.balanceEntries now)
  total : s.Shows timestamp (s.getTotalCashByCurrencyAsOf timestamp)
  entities : s.Shows timestamp (s.entityEntries timestamp)
  raw : s.Shows now (s.rawEntries now)
  history : s.Shows (historyTs last) (s.historyEntries fuel c last)

end Ledger

end FinHub
