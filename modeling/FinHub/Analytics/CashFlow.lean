import FinHub.Rates.Metadata
import FinHub.Zones.DateRange

/-!
# FinHub.Analytics.CashFlow

`get_income_by_source`, `get_cash_flow` and `get_cash_flow_txns` of `services/analytics_svc.py`.

The first adds up the rows of a group and converts the sum at the latest rate. The second adds up converted rows,
each at the rate of its own day, when a display currency is given, and native rows otherwise. The third lists the
rows of one line. Lines come in no order; the asset or entity a row is shown with is left out.
-/

namespace FinHub

/-- The arguments that the views share. -/
structure ViewCall where
  groupBy : GroupBy
  startDate : Option ℤ := none
  endDate : Option ℤ := none
  displayCurrency : Option Currency := none
  now : Timestamp

/-- An `IncomeBySourceLine`, its period before it is written out. -/
structure IncomeLine where
  period : Period
  entityId : ℕ
  entityName : String
  incomeCategory : IncomeCategory
  currency : Currency
  totalValue : ℚ
  count : ℕ
  deriving DecidableEq

structure IncomeView where
  data : List IncomeLine
  rateInfo : Option RateMetadata
  deriving DecidableEq

structure CashFlowLine where
  period : Period
  type : TransactionType
  totalValue : ℚ
  count : ℕ
  currency : Currency
  category : Option FlowCategory
  deriving DecidableEq

structure CashFlowSummary where
  lines : List CashFlowLine
  totalIn : ℚ
  totalOut : ℚ
  net : ℚ
  rateInfo : Option RateMetadata
  deriving DecidableEq

structure CashFlowTransactionLine where
  id : ℕ
  date : Timestamp
  description : String
  amount : ℚ
  currency : Currency
  displayAmount : Option ℚ
  rate : Option ℚ
  deriving DecidableEq

structure CashFlowTransactions where
  transactions : List CashFlowTransactionLine
  totalCount : ℕ
  deriving DecidableEq

namespace CashFlow

variable (l : Ledger) (call : ViewCall)

def rangeOf : Option Timestamp × Option Timestamp :=
  l.timezone.resolveDateRange call.startDate call.endDate

/-- The rates a view keeps in its cache, of a set of currencies. -/
def foundOf (currencies : List Currency) : Except PnlError (List FoundRate) :=
  match call.displayCurrency with
  | none => .ok []
  | some display => l.foundRates display currencies

def rateInfoOf (currencies : List Currency) : Except PnlError (Option RateMetadata) :=
  match call.displayCurrency with
  | none => .ok none
  | some display => l.getRateMetadata display call.now currencies

/-! ## Income by source -/

def incomeLineOf (key : IncomeKey) (total_value : ℚ) (count : ℕ) : IncomeLine where
  period := key.period
  entityId := key.entityId
  entityName := key.entityName
  incomeCategory := key.incomeCategory
  currency := key.currency
  totalValue := Decimal.roundTo 4 total_value
  count := count

/-- A sum without a value cannot be rounded. -/
def incomeLine (found : List FoundRate) (g : QueryGroup IncomeKey) : Except PnlError IncomeLine :=
  match g.totalValue with
  | none => .error .typeError
  | some total_value =>
    .ok (incomeLineOf g.key (convertAt found call.displayCurrency total_value g.key.currency) g.count)

/-- `get_income_by_source`. -/
def getIncomeBySource (employer : ℕ → Bool) : Except PnlError IncomeView := do
  let rows := l.getIncomeBySourceRaw call.now call.groupBy (rangeOf l call) employer
  let currencies := rows.map fun g => g.key.currency
  let found ← foundOf l call currencies
  let data ← rows.mapM (incomeLine call found)
  let rate_info ← rateInfoOf l call currencies
  .ok ⟨data, rate_info⟩

/-! ## Cash flow -/

def isIn (type : TransactionType) : Bool := decide (type = .income ∨ type = .investmentSell)

def isOut (type : TransactionType) : Bool := decide (type = .moneyOut ∨ type = .investmentBuy)

/-- The answer, from its lines and the values they count with. -/
def summary (lines : List (CashFlowLine × ℚ)) (rate_info : Option RateMetadata) : CashFlowSummary :=
  let total_in := ((lines.filter fun e => isIn e.1.type).map Prod.snd).sum
  let total_out := ((lines.filter fun e => isOut e.1.type).map Prod.snd).sum
  { lines := lines.map Prod.fst
    totalIn := Decimal.roundTo 4 total_in
    totalOut := Decimal.roundTo 4 total_out
    net := Decimal.roundTo 4 (total_in - total_out)
    rateInfo := rate_info }

def lineOf (key : CashFlowKey) (total_value : ℚ) (count : ℕ) : CashFlowLine where
  period := key.period
  type := key.type
  totalValue := Decimal.roundTo 4 total_value
  count := count
  currency := key.currency
  category := key.category

/-- Without a display currency: the sums of the query. -/
def nativeLine (g : QueryGroup CashFlowKey) : Except PnlError (CashFlowLine × ℚ) :=
  match g.totalValue with
  | none => .error .typeError
  | some total_value => .ok (lineOf g.key total_value g.count, total_value)

/-- What was found for a currency and a day. -/
abbrev RateCache := List ((Currency × ℤ) × Option ℚ)

/-- `rate_for`: the rate of the first row of the day stands for the day. -/
def rateFor (disp : Currency) (cache : RateCache) (cur : Currency) (at_ : Timestamp) :
    Except PnlError (Option ℚ × RateCache) :=
  let key := (cur, Time.dayOf at_)
  match cache.lookup key with
  | some rate => .ok (rate, cache)
  | none =>
    match l.rateResponse cur disp (some at_) with
    | .ok r => .ok (some r.1, (key, some r.1) :: cache)
    | .error .noRate => .ok (none, (key, none) :: cache)
    | .error (.raised e) => .error e

/-- The rate of a row, which one in the display currency has no use for. -/
def taggedRate (disp : Currency) (cache : RateCache) (row : CashFlowTaggedRow) :
    Except PnlError (Option ℚ × RateCache) :=
  if row.effCurrency = disp then .ok (none, cache) else rateFor l disp cache row.effCurrency row.timestamp

/-- A rate of 0 counts as none. -/
def factorOf (rate : Option ℚ) : ℚ :=
  match rate with
  | some rate => if rate = 0 then 1 else rate
  | none => 1

/-- `convert_tagged`, for every row in turn. -/
def convertTagged (disp : Currency) : RateCache → List CashFlowTaggedRow →
    Except PnlError (List (CashFlowTaggedRow × ℚ))
  | _, [] => .ok []
  | cache, row :: rows => do
    let r ← taggedRate l disp cache row
    match row.totalValue with
    | none => .error .typeError
    | some total_value => do
      let rest ← convertTagged disp r.2 rows
      .ok ((row, total_value * factorOf r.1) :: rest)

def taggedKey (row : CashFlowTaggedRow) : CashFlowKey :=
  ⟨row.period, row.type, row.effCurrency, row.category⟩

/-- `acc`: a line for every key, in the order the keys come up. -/
def taggedLines (converted : List (CashFlowTaggedRow × ℚ)) : List CashFlowLine :=
  (converted.map fun e => taggedKey e.1).eraseDups.map fun key =>
    let ofKey := converted.filter fun e => decide (taggedKey e.1 = key)
    lineOf key (ofKey.map Prod.snd).sum ofKey.length

/-- `get_cash_flow`. -/
def getCashFlow : Except PnlError CashFlowSummary :=
  match call.displayCurrency with
  | none => do
    let lines ← (l.getCashFlowRaw call.now call.groupBy (rangeOf l call)).mapM nativeLine
    .ok (summary lines none)
  | some disp => do
    let tagged := l.getCashFlowTagged call.now call.groupBy (rangeOf l call)
    let converted ← convertTagged l disp [] tagged
    let lines := taggedLines converted
    let rate_info ← l.getRateMetadata disp call.now (tagged.map CashFlowTaggedRow.effCurrency)
    .ok (summary (lines.map fun line => (line, line.totalValue)) rate_info)

/-! ## The rows of a line -/

/-- The `WHERE` clause of `get_cash_flow_transactions`. -/
def matchesLine (key : CashFlowKey) (r : ℕ × Transaction) : Bool :=
  decide (periodExpr l.timezone call.now call.groupBy r.2.timestamp = key.period) && decide (r.2.type = key.type) &&
    decide (flowCategory r.2 = key.category) && decide (r.2.paymentCurrency.getD r.2.currency = key.currency)

/-- The rows of a line, the latest first. -/
def lineRows (key : CashFlowKey) : List (ℕ × Transaction) :=
  ((l.rowsInRange (rangeOf l call)).filter (matchesLine l call key)).insertionSort fun r r' =>
    r'.2.timestamp ≤ r.2.timestamp

/-- The rate a row is listed with; `none` where it is not converted. -/
def listedRate (txn_currency : Currency) (at_ : Timestamp) : Except PnlError (Option ℚ) :=
  match call.displayCurrency with
  | none => .ok none
  | some display =>
    if txn_currency = display then .ok none
    else
      match l.rateResponse txn_currency display (some at_) with
      | .ok r => .ok (some r.1)
      | .error .noRate => .ok none
      | .error (.raised e) => .error e

def transactionLine (r : ℕ × Transaction) : Except PnlError CashFlowTransactionLine := do
  let txn_currency := r.2.paymentCurrency.getD r.2.currency
  let rate ← listedRate l call txn_currency r.2.timestamp
  match r.2.totalValue with
  | none => .error .typeError
  | some amount =>
    .ok
      { id := r.1
        date := r.2.timestamp
        description := r.2.notes.getD ""
        amount := Decimal.roundTo 4 amount
        currency := txn_currency
        displayAmount := rate.map fun rate => Decimal.roundTo 4 (amount * rate)
        rate }

/-- `get_cash_flow_txns`: a page of 50 rows, and how many there are. -/
def getCashFlowTxns (key : CashFlowKey) : Except PnlError CashFlowTransactions := do
  let rows := lineRows l call key
  let transactions ← (rows.take 50).mapM (transactionLine l call)
  .ok ⟨transactions, rows.length⟩

end CashFlow

end FinHub
