import FinHub.Analytics.CashViews
import FinHub.Analytics.Holdings
import FinHub.Lib.Calendar
import FinHub.Lib.Runs
import FinHub.Rates.Provider

/-!
# FinHub.Analytics.HistoricalValues

`get_historical_values` of `services/analytics_svc.py`: the value of the portfolio at the dates of a range.

Positions, cash and recorded manual values are read as of each date. The prices that stand in where none
is stored yet, and the rates of the conversion, are collected once for all dates: `ValueContext`.
-/

namespace FinHub

open Tabular

/-! ## The dates -/

inductive Interval where
  | day | week | month | quarter | year
  deriving DecidableEq

/-- What leaves the call: its own refusal, or an error of Python's. -/
inductive HistoryError where
  | invalidInterval (interval : String)
  | valueError
  | overflowError
  | indexError
  | typeError
  | zeroDivisionError
  deriving DecidableEq

def HistoryError.message : HistoryError → String
  | invalidInterval interval =>
    s!"Invalid interval '" ++ interval ++ "'. Must be one of: day, week, month, quarter, year"
  | valueError => "year 10000 is out of range"
  | overflowError => "date value out of range"
  | indexError => "list index out of range"
  | typeError => "unsupported operand type(s)"
  | zeroDivisionError => "float division by zero"

def parseInterval (interval : String) : Except HistoryError Interval :=
  match interval with
  | "day" => .ok .day
  | "week" => .ok .week
  | "month" => .ok .month
  | "quarter" => .ok .quarter
  | "year" => .ok .year
  | _ => .error (.invalidInterval interval)

open Calendar in
/-- The first of the month that is `n` months after the January of year `y`. -/
def firstOfMonth (y n : ℤ) : Date :=
  Date.clamped (y + n / 12) (n % 12 + 1) ⟨by omega, by omega⟩ 1 le_rfl

open Calendar in
/-- One step of the loop in `_generate_dates`. -/
def nextDate (interval : Interval) (current : Date) : Date :=
  match interval with
  | .day => current.addDays 1
  | .week => current.addDays 7
  | .month => firstOfMonth current.year current.month
  | .quarter => firstOfMonth current.year (((current.month - 1) / 3 + 1) * 3)
  | .year => firstOfMonth current.year 12

open Calendar in
/-- A step takes the loop forward. -/
theorem lt_nextDate (interval : Interval) (d : Date) : d < nextDate interval d := by
  have hmonth := d.month_mem
  have hfirst : ∀ n : ℤ, d.month ≤ n → d < firstOfMonth d.year n := by
    intro n hn
    refine Date.lt_of_index_lt ?_
    rw [firstOfMonth, Date.index_clamped, Date.index]
    omega
  cases interval with
  | day => exact Date.lt_addDays 0 d
  | week => exact Date.lt_addDays 6 d
  | month => exact hfirst _ le_rfl
  | quarter => exact hfirst _ (by omega)
  | year => exact hfirst _ hmonth.2

/-- The day of a date, counted from 1970-01-01. -/
def isoDay (d : Calendar.Date) : ℤ := d.ordinal - 719163

structure HistoricalCall where
  startDate : Calendar.Date
  endDate : Calendar.Date
  interval : String := "month"
  entityId : Option ℕ := none
  displayCurrency : Option Currency := none
  today : Calendar.Date

/-- `_generate_dates`. No date is later than the year 9999. -/
def generateDates (start end_ : Calendar.Date) (interval : Interval) : Except HistoryError (List ℤ) :=
  let dates := Calendar.upTo (nextDate interval) start end_ (end_.ordinal - start.ordinal + 1).toNat start
  if dates.any fun d => decide (9999 < (nextDate interval d).year) then
    .error (if interval = .day ∨ interval = .week then .overflowError else .valueError)
  else .ok (dates.map isoDay)

/-- The dates of a call: those of the loop, and the day of the call. -/
def HistoricalCall.dates (c : HistoricalCall) : Except HistoryError (List ℤ) := do
  let interval ← parseInterval c.interval
  let dates ← generateDates c.startDate c.endDate interval
  match dates.getLast? with
  | none => .error .indexError
  | some last =>
    if last < isoDay c.today ∧ isoDay c.today ≤ isoDay c.endDate then
      .ok (dates ++ [isoDay c.today])
    else .ok dates

/-! ## As of a date -/

structure NetPosition where
  portfolioAssetId : ℕ
  marketCode : String
  currencyCode : Currency
  netQuantity : ℚ
  deriving DecidableEq

structure ManualAsset where
  id : ℕ
  asset : PortfolioAsset
  currencyCode : Currency
  deriving DecidableEq

namespace Market

variable (m : Market)

/-- The stored price at or before an instant. -/
def getPriceAsOf (market_code : String) (cutoff : Timestamp) : Option Price :=
  (m.prices.filter fun p => decide (p.marketCode = market_code) && decide (p.timestamp ≤ cutoff)).argmax
    Price.timestamp

def getManualValueAsOf (portfolio_asset_id : ℕ) (d : ℤ) : Option ManualValue :=
  (m.manualValues.filter fun v =>
    decide (v.portfolioAssetId = portfolio_asset_id) && decide (v.effectiveDate ≤ d)).argmax
      ManualValue.effectiveDate

end Market

namespace Ledger

variable (s : Ledger) (m : Market)

/-- The entity of the first transaction on an asset. -/
def primaryEntity (portfolio_asset_id : ℕ) : Option ℕ :=
  ((s.transactions.rows.filter fun r => decide (r.2.portfolioAssetId = some portfolio_asset_id)).argmin
    fun r => toLex (r.2.timestamp, r.1)).map fun r => r.2.entityId

/-- The quantity of one asset in transactions of one type up to an instant. -/
def quantityUpTo (cutoff : Timestamp) (type : TransactionType) (portfolio_asset_id : ℕ) : ℚ :=
  ((s.transactions.rows.filter fun r => decide (r.2.timestamp ≤ cutoff)).map fun r =>
    if r.2.portfolioAssetId = some portfolio_asset_id ∧ r.2.type = type then r.2.quantity.getD 0 else 0).sum

def getNetPositionsAsOf (cutoff : Timestamp) (entity_id : Option ℕ) (include_inactive : Bool := false) :
    List NetPosition :=
  s.portfolioAssets.rows.filterMap fun pa =>
    let net := s.quantityUpTo cutoff .investmentBuy pa.1 - s.quantityUpTo cutoff .investmentSell pa.1
    if (include_inactive || pa.2.isActive) && decide (0 < net) && entity_id.all fun e => decide (s.primaryEntity pa.1 = some e) then
      (m.getAsset pa.2.marketCode).map fun ma => ⟨pa.1, pa.2.marketCode, ma.currencyCode, net⟩
    else none

def getManualTrackedAssets : List ManualAsset :=
  s.portfolioAssets.rows.filterMap fun pa =>
    if pa.2.isActive && decide (pa.2.trackingMode = .manual) then
      (m.getAsset pa.2.marketCode).map fun ma => ⟨pa.1, pa.2, ma.currencyCode⟩
    else none

/-- The cash view of a call. -/
def cashAsOf (entity_id : Option ℕ) (timestamp : Timestamp) : Option (Tally Currency) :=
  match entity_id with
  | none => s.getTotalCashByCurrencyAsOf timestamp
  | some e => s.getEntityTotalCashByCurrencyAsOf e timestamp

/-- `get_rate(cur, display_currency).rate`; `none` is `PairNotFound`. -/
def latestRateTo (display_currency cur : Currency) : Except HistoryError (Option ℚ) :=
  match s.rateResponse cur display_currency none with
  | .ok r => .ok (some r.1)
  | .error .noRate => .ok none
  | .error (.raised _) => .error .zeroDivisionError

end Ledger

/-! ## The context of a call -/

/-- What the statements of a call answer, as functions of their arguments. -/
structure ValuationReads where
  netPositions : Timestamp → List NetPosition
  manualTrackedAssets : List ManualAsset
  cash : Timestamp → Option (Tally Currency)
  latestRateTo : Currency → Currency → Except HistoryError (Option ℚ)
  latestTransactionPrice : String → Option ℚ
  getPriceAsOf : String → Timestamp → Option ℚ
  manualValueAsOf : ℕ → ℤ → Option ℚ

/-- What a call collects before it values the dates. -/
structure ValueContext where
  displayCurrency : Option Currency
  rates : List (Currency × ℚ)
  txFallback : String → Option ℚ

namespace ValueContext

variable (ctx : ValueContext)

/-- The factor of `convert`. -/
def rateOf (cur : Currency) : ℚ :=
  match ctx.displayCurrency with
  | none => 1
  | some display => if cur = display then 1 else (ctx.rates.lookup cur).getD 1

def convert (value : ℚ) (cur : Currency) : ℚ := value * ctx.rateOf cur

end ValueContext

structure HistoricalValuePoint where
  date : ℤ
  totalValue : ℚ
  investmentValue : ℚ
  deriving DecidableEq

namespace ValuationReads

variable (r : ValuationReads)

/-- The currencies of the positions and of the cash at one date. -/
def currenciesAsOf (d : ℤ) : Except HistoryError (List Currency) :=
  match r.cash (Time.endOfDay d) with
  | none => .error .typeError
  | some cash =>
    .ok ((r.netPositions (Time.endOfDay d)).map NetPosition.currencyCode ++ cash.map Prod.fst)

/-- The currencies of all dates, and the rate of each to the display currency. -/
def rateCache (display_currency : Currency) (dates : List ℤ) : Except HistoryError (List (Currency × ℚ)) := do
  let currencies ← dates.mapM r.currenciesAsOf
  let rates ← (currencies.flatten.filter fun cur => decide (cur ≠ display_currency)).mapM fun cur =>
    (r.latestRateTo display_currency cur).map fun rate => rate.map fun rate => (cur, rate)
  .ok (rates.filterMap id)

def valueContext (c : HistoricalCall) (dates : List ℤ) : Except HistoryError ValueContext := do
  let rates ← match c.displayCurrency with
    | none => .ok []
    | some display => r.rateCache display dates
  .ok { displayCurrency := c.displayCurrency, rates, txFallback := r.latestTransactionPrice }

/-- The positions that are not tracked by hand. -/
def marketPositions (d : ℤ) : List NetPosition :=
  (r.netPositions (Time.endOfDay d)).filter fun pos =>
    decide (pos.portfolioAssetId ∉ r.manualTrackedAssets.map ManualAsset.id)

/-- `_price_as_of`. -/
def priceAsOf (ctx : ValueContext) (market_code : String) (cutoff : Timestamp) : Option ℚ :=
  (r.getPriceAsOf market_code cutoff).or (ctx.txFallback market_code)

def positionEntries (ctx : ValueContext) (d : ℤ) : List (Currency × ℚ) :=
  (r.marketPositions d).filterMap fun pos =>
    (r.priceAsOf ctx pos.marketCode (Time.endOfDay d)).map fun price =>
      (pos.currencyCode, pos.netQuantity * price)

/-- The values recorded by hand, or the undated one of the asset. -/
def manualEntries (d : ℤ) : List (Currency × ℚ) :=
  r.manualTrackedAssets.filterMap fun ma =>
    ((r.manualValueAsOf ma.id d).or ma.asset.currentValueManual).map fun value => (ma.currencyCode, value)

/-- One pass of the loop over the dates. -/
def valuePoint (ctx : ValueContext) (d : ℤ) : Except HistoryError HistoricalValuePoint :=
  match r.cash (Time.endOfDay d) with
  | none => .error .typeError
  | some cash =>
    let converted := fun entries : List (Currency × ℚ) => (entries.map fun e => ctx.convert e.2 e.1).sum
    let investment := converted (r.positionEntries ctx d)
    .ok
      { date := d
        totalValue := Decimal.roundTo 4 (investment + converted (r.manualEntries d) + converted cash)
        investmentValue := Decimal.roundTo 4 investment }

def getHistoricalValues (c : HistoricalCall) : Except HistoryError (List HistoricalValuePoint) := do
  let dates ← c.dates
  let ctx ← r.valueContext c dates
  dates.mapM (r.valuePoint ctx)

end ValuationReads

/-! ## The call on a profile -/

namespace Ledger

variable (s : Ledger) (m : Market)

def valuationReads (entity_id : Option ℕ) : ValuationReads where
  netPositions cutoff := s.getNetPositionsAsOf m cutoff entity_id
  manualTrackedAssets := s.getManualTrackedAssets m
  cash := s.cashAsOf entity_id
  latestRateTo := s.latestRateTo
  latestTransactionPrice market_code := (s.getLatestTransactionPrice m market_code).map Prod.fst
  getPriceAsOf market_code cutoff := (m.getPriceAsOf market_code cutoff).map Price.price
  manualValueAsOf id d := (m.getManualValueAsOf id d).map ManualValue.value

abbrev currenciesAsOf (entity_id : Option ℕ) : ℤ → Except HistoryError (List Currency) :=
  (s.valuationReads m entity_id).currenciesAsOf

abbrev rateCache (entity_id : Option ℕ) : Currency → List ℤ → Except HistoryError (List (Currency × ℚ)) :=
  (s.valuationReads m entity_id).rateCache

abbrev valueContext (c : HistoricalCall) : List ℤ → Except HistoryError ValueContext :=
  (s.valuationReads m c.entityId).valueContext c

abbrev marketPositions (entity_id : Option ℕ) : ℤ → List NetPosition :=
  (s.valuationReads m entity_id).marketPositions

abbrev priceAsOf (ctx : ValueContext) : String → Timestamp → Option ℚ := (s.valuationReads m none).priceAsOf ctx

abbrev positionEntries (ctx : ValueContext) (entity_id : Option ℕ) : ℤ → List (Currency × ℚ) :=
  (s.valuationReads m entity_id).positionEntries ctx

abbrev manualEntries : ℤ → List (Currency × ℚ) := (s.valuationReads m none).manualEntries

abbrev valuePoint (ctx : ValueContext) (entity_id : Option ℕ) : ℤ → Except HistoryError HistoricalValuePoint :=
  (s.valuationReads m entity_id).valuePoint ctx

def getHistoricalValues (c : HistoricalCall) : Except HistoryError (List HistoricalValuePoint) :=
  (s.valuationReads m c.entityId).getHistoricalValues c

end Ledger

end FinHub
