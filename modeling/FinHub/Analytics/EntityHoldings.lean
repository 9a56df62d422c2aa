import FinHub.Analytics.HistoricalValues
import FinHub.Lib.Groups

/-!
# FinHub.Analytics.EntityHoldings

`get_holdings_by_entity` of `services/analytics_svc.py` with its two queries.

* `perEntity`: the net quantity and the cost of an asset at an entity, one row for every pair with transactions.
* `getHoldingsByEntityRaw`: the value of the positive rows by entity, asset class and currency. A manual value is split
  by the shares of the entities; a position is worth its price, or what it cost.
* `getCashByEntityRaw`: the cash of the pairs, without the fees where there is no snapshot.

Lines come in no order.
-/

namespace FinHub

open Groups

/-- A row of `per_entity`. -/
structure PerEntity where
  portfolioAssetId : ℕ
  entityId : ℕ
  netQuantity : Option ℚ
  totalCost : Option ℚ
  deriving DecidableEq

/-- A position at an entity, joined with its asset. -/
structure EntityPosition where
  row : PerEntity
  asset : PortfolioAsset
  market : MarketAsset

/-- What `get_holdings_by_entity_raw` groups by. -/
structure EntityHoldingKey where
  entityId : ℕ
  entityName : Option String
  assetClass : Option AssetClass
  currencyCode : Currency
  deriving DecidableEq

structure HoldingByEntityRow where
  key : EntityHoldingKey
  currentValue : Option ℚ
  deriving DecidableEq

structure CashByEntityRow where
  entityId : ℕ
  entityName : String
  currency : Currency
  cashBalance : Option ℚ
  deriving DecidableEq

/-- The class of a line: one of the assets, or `CASH`. -/
inductive HoldingClass where
  | asset (assetClass : Option AssetClass)
  | cash
  deriving DecidableEq

structure HoldingByEntityLine where
  entityId : ℕ
  entityName : Option String
  assetClass : HoldingClass
  currentValue : ℚ
  currency : Currency
  deriving DecidableEq

/-- What the row contributes to `SUM(CASE ..)` of a cash query; `NULL` for a missing amount. -/
def Transaction.caseImpact (t : Transaction) : Option ℚ :=
  if t.type.isInflow then t.cashAmount
  else if t.type.isSpend then t.cashAmount.map (- ·)
  else if t.isAdjustment then t.totalValue
  else some 0

/-- `CASE WHEN type = ? THEN amount ELSE 0 END`. -/
def caseType (type : TransactionType) (amount : Transaction → Option ℚ) (r : ℕ × Transaction) : Option ℚ :=
  if r.2.type = type then amount r.2 else some 0

/-- The `per_entity` row of an asset and an entity. -/
def perEntityRow (rows : List (ℕ × Transaction)) (key : ℕ × ℕ) : PerEntity :=
  let own := rows.filter fun r => decide (r.2.portfolioAssetId = some key.1 ∧ r.2.entityId = key.2)
  { portfolioAssetId := key.1
    entityId := key.2
    netQuantity := (sumOption (own.map (caseType .investmentBuy Transaction.quantity))).bind fun bought =>
      (sumOption (own.map (caseType .investmentSell Transaction.quantity))).map fun sold => bought - sold
    totalCost := sumOption (own.map (caseType .investmentBuy Transaction.totalValue)) }

/-- `net_quantity > 0`, which `NULL` is not. -/
def PerEntity.isHeld (pe : PerEntity) : Bool := pe.netQuantity.any fun q => decide (0 < q)

namespace Ledger

variable (s : Ledger) (m : Market)

/-! ## Assets -/

def perEntity : List PerEntity :=
  (s.transactions.rows.filterMap fun r => r.2.portfolioAssetId.map fun aid => (aid, r.2.entityId)).eraseDups.map
    (perEntityRow s.transactions.rows)

/-- `total_net` of an asset. -/
def assetNet (portfolio_asset_id : ℕ) : ℚ :=
  ((s.perEntity.filter fun pe => decide (pe.portfolioAssetId = portfolio_asset_id)).map fun pe =>
    if pe.isHeld then pe.netQuantity.getD 0 else 0).sum

/-- The rows the query sums. -/
def entityPositions : List EntityPosition :=
  s.perEntity.filterMap fun pe =>
    (s.getPortfolioAsset pe.portfolioAssetId).bind fun pa =>
      if pa.isActive && pe.isHeld then (m.getAsset pa.marketCode).map fun ma => ⟨pe, pa, ma⟩ else none

/-- The `CASE` of a held position. -/
def positionValue (pos : EntityPosition) : Option ℚ :=
  match (if pos.asset.trackingMode = .manual then pos.asset.currentValueManual else none) with
  | some value => pos.row.netQuantity.map fun q => value * (q / s.assetNet pos.row.portfolioAssetId)
  | none =>
    match m.getLatestPrice pos.asset.marketCode with
    | some p => pos.row.netQuantity.map fun q => q * p.price
    | none => pos.row.totalCost

def entityHoldingKey (pos : EntityPosition) : EntityHoldingKey where
  entityId := pos.row.entityId
  entityName := (s.entities.get? pos.row.entityId).map Entity.name
  assetClass := pos.market.assetClass
  currencyCode := pos.market.currencyCode

def getHoldingsByEntityRaw : List HoldingByEntityRow :=
  ((s.entityPositions m).map s.entityHoldingKey).eraseDups.map fun key =>
    { key
      currentValue := sumOption (((s.entityPositions m).filter fun pos => decide (s.entityHoldingKey pos = key)).map
        (s.positionValue m)) }

/-! ## Cash -/

/-- A pair with a snapshot. -/
def anchoredCashRow (now : Timestamp) (p : ℕ × Currency) : Except HistoryError CashByEntityRow :=
  match s.getBalanceAtDate p.1 p.2 now with
  | none => .error .typeError
  | some balance =>
    .ok
      { entityId := p.1
        entityName := ((s.entities.get? p.1).map Entity.name).getD s!"Entity #{p.1}"
        currency := p.2
        cashBalance := some balance }

/-- The transactions that `timestamp <= datetime('now')` lets through: `datetime` writes a space where the stored
texts have a `T`, which is greater, so none of the day of the call is. -/
def beforeToday (now : Timestamp) : List (ℕ × Transaction) :=
  s.transactions.rows.filter fun r => decide (Time.dayOf r.2.timestamp < Time.dayOf now)

/-- The pairs without a snapshot, of entities that exist. -/
def openCashRows (now : Timestamp) : List CashByEntityRow :=
  let rows := (s.beforeToday now).filter fun r => !(s.snapshotPairs none).elem (r.2.entityId, r.2.cashPocket)
  (rows.map fun r => (r.2.entityId, r.2.cashPocket)).eraseDups.filterMap fun p =>
    (s.entities.get? p.1).map fun e =>
      { entityId := p.1
        entityName := e.name
        currency := p.2
        cashBalance := sumOption ((rows.filter fun r => inPair p.1 p.2 r).map fun r => r.2.caseImpact) }

def getCashByEntityRaw (now : Timestamp) : Except HistoryError (List CashByEntityRow) := do
  let results ← (s.snapshotPairs none).mapM (s.anchoredCashRow now)
  .ok (results ++ s.openCashRows now)

/-! ## The service -/

/-- The key of `seen`. -/
structure SeenKey where
  entityId : ℕ
  assetClass : HoldingClass
  currency : Currency
  deriving DecidableEq

/-- The rate cache of the call. -/
def holdingRates (display_currency : Option Currency) (currencies : List Currency) :
    Except HistoryError (List (Currency × ℚ)) :=
  match display_currency with
  | none => .ok []
  | some display => do
    let rates ← (currencies.filter fun cur => decide (cur ≠ display)).mapM fun cur =>
      (s.latestRateTo display cur).map fun rate => rate.map fun rate => (cur, rate)
    .ok (rates.filterMap id)

/-- `seen[key] += convert(value, cur)`; a missing value raises. -/
def seenEntry (ctx : ValueContext) (key : SeenKey) (value : Option ℚ) : Except HistoryError (SeenKey × ℚ) :=
  match value with
  | none => .error .typeError
  | some value => .ok (key, ctx.convert value key.currency)

/-- The name of an entity: from the first of its rows, assets before cash. -/
def lineName (inv_rows : List HoldingByEntityRow) (cash_rows : List CashByEntityRow) (entity_id : ℕ) : Option String :=
  ((inv_rows.find? fun r => decide (r.key.entityId = entity_id)).bind fun r => r.key.entityName).or
    ((cash_rows.find? fun r => decide (r.entityId = entity_id)).map CashByEntityRow.entityName)

def getHoldingsByEntity (display_currency : Option Currency) (now : Timestamp) :
    Except HistoryError (List HoldingByEntityLine) := do
  let inv_rows := s.getHoldingsByEntityRaw m
  let cash_rows ← s.getCashByEntityRaw now
  let rates ← s.holdingRates display_currency
    (inv_rows.map (fun r => r.key.currencyCode) ++ cash_rows.map CashByEntityRow.currency)
  let ctx : ValueContext := { displayCurrency := display_currency, rates, txFallback := fun _ => none }
  let inv ← inv_rows.mapM fun r =>
    seenEntry ctx ⟨r.key.entityId, .asset r.key.assetClass, r.key.currencyCode⟩ r.currentValue
  let cash ← cash_rows.mapM fun r => seenEntry ctx ⟨r.entityId, .cash, r.currency⟩ r.cashBalance
  .ok ((Worth.collect (inv ++ cash)).map fun e =>
    { entityId := e.1.entityId
      entityName := lineName inv_rows cash_rows e.1.entityId
      assetClass := e.1.assetClass
      currentValue := Decimal.roundTo 4 e.2
      currency := e.1.currency })

end Ledger

end FinHub
