import FinHub.Analytics.Fifo
import FinHub.Model.LedgerSvc

/-!
# FinHub.Analytics.Holdings

`get_holdings` of `services/analytics_svc.py`: current value from the net quantity, cost from the
lot engine.

* `getHoldingsRaw`: the net quantity, one SQL sum per portfolio asset over all entities.
* `computeFifoCostBasis`: open quantity and cost per asset, summed over the queues of its entities
  and rounded to four places.
* `getHoldings`: the two joined; unrealized profit is the value less the average open cost times the
  net quantity.
-/

namespace FinHub

open Tabular LotLine

/-! ## Market data -/

inductive AssetType where
  | stock | etf | etc | fund | indexFund | currency | crypto | other
  deriving DecidableEq, Repr

inductive AssetClass where
  | fi | vi | corpFi | sovereignFi | mixFi | reit | gold | monetary
  deriving DecidableEq, Repr

/-- A row of `market_assets`, under its primary key. -/
structure MarketAsset where
  marketCode : String
  ticker : Option String := none
  name : Option String := none
  assetType : AssetType
  assetClass : Option AssetClass := none
  currencyCode : Currency
  deriving DecidableEq

structure Price where
  marketCode : String
  timestamp : Timestamp
  price : ℚ
  deriving DecidableEq

structure ManualValue where
  portfolioAssetId : ℕ
  value : ℚ
  effectiveDate : ℤ
  deriving DecidableEq

/-- What the valuation reads besides the ledger. -/
structure Market where
  assets : List MarketAsset
  prices : List Price
  manualValues : List ManualValue

namespace Market

variable (m : Market)

def getAsset (market_code : String) : Option MarketAsset :=
  m.assets.find? fun a => a.marketCode == market_code

/-- The row `get_latest_prices` keeps for a market code. -/
def getLatestPrice (market_code : String) : Option Price :=
  (m.prices.filter fun p => p.marketCode == market_code).argmax Price.timestamp

def getLatestManualValue (portfolio_asset_id : ℕ) : Option ManualValue :=
  (m.manualValues.filter fun v => v.portfolioAssetId == portfolio_asset_id).argmax
    ManualValue.effectiveDate

end Market

/-! ## Rows -/

/-- A row of `get_holdings_raw`. -/
structure HoldingRaw where
  portfolioAssetId : ℕ
  asset : PortfolioAsset
  market : MarketAsset
  totalBoughtQty : ℚ
  totalSoldQty : ℚ

namespace Ledger

variable (s : Ledger) (m : Market)

/-- `COALESCE(SUM(CASE WHEN type = ? THEN quantity ELSE 0 END), 0)` over one asset. -/
def sumQuantity (type : TransactionType) (portfolio_asset_id : ℕ) : ℚ :=
  s.transactions.sum fun r =>
    if r.2.portfolioAssetId = some portfolio_asset_id ∧ r.2.type = type then r.2.quantity.getD 0 else 0

def getHoldingsRaw : List HoldingRaw :=
  s.portfolioAssets.rows.filterMap fun pa =>
    if pa.2.isActive then
      (m.getAsset pa.2.marketCode).map fun ma =>
        { portfolioAssetId := pa.1, asset := pa.2, market := ma
          totalBoughtQty := s.sumQuantity .investmentBuy pa.1
          totalSoldQty := s.sumQuantity .investmentSell pa.1 }
    else none

/-- A buy or sell joined with its asset and its entity, deleted entities included. -/
def toFifoRow (r : ℕ × Transaction) : Option FifoRow :=
  if r.2.type = .investmentBuy ∨ r.2.type = .investmentSell then do
    let aid ← r.2.portfolioAssetId
    let pa ← s.getPortfolioAsset aid
    let ma ← m.getAsset pa.marketCode
    let e ← s.entities.get? r.2.entityId
    some
      { transactionId := r.1, portfolioAssetId := aid, entityId := some r.2.entityId
        entityName := some e.name, marketCode := some pa.marketCode, ticker := ma.ticker
        name := ma.name, type := r.2.type, timestamp := r.2.timestamp, quantity := r.2.quantity
        unitPrice := r.2.unitPrice, totalValue := r.2.totalValue, currency := r.2.currency
        paymentCurrency := r.2.paymentCurrency, fxRate := r.2.fxRate, fiscalRule := r.2.fiscalRule
        fiscalExemptionId := r.2.fiscalExemptionId }
  else none

/-- `ORDER BY portfolio_asset_id, entity_id, timestamp, id`. -/
def fifoOrder (r : FifoRow) : ℕ ×ₗ ℕ ×ₗ ℤ ×ₗ ℕ :=
  toLex (r.portfolioAssetId, toLex (r.entityId.getD 0, toLex (r.timestamp, r.transactionId)))

def getBuySellTransactions : List FifoRow :=
  (s.transactions.rows.filterMap (s.toFifoRow m)).insertionSort fun a b => fifoOrder a ≤ fifoOrder b

/-- The latest purchase with a unit price among the active assets under a market code. -/
def getLatestTransactionPrice (market_code : String) : Option (ℚ × Timestamp) :=
  ((s.transactions.rows.filterMap fun r =>
      if r.2.type = .investmentBuy then do
        let aid ← r.2.portfolioAssetId
        let pa ← s.getPortfolioAsset aid
        let _ ← m.getAsset pa.marketCode
        let unit_price ← r.2.unitPrice
        if pa.isActive && pa.marketCode == market_code then some (unit_price, r.2.timestamp) else none
      else none).argmax Prod.snd)

end Ledger

/-! ## Cost basis -/

/-- One pass of the aggregation over `result.remaining`. -/
def addQueue (per_asset : AList fun _ : ℕ => ℚ × ℚ) (queue : Σ _ : FifoKey, List PnlLot) :
    AList fun _ : ℕ => ℚ × ℚ :=
  let entry := (per_asset.lookup queue.1.1).getD (0, 0)
  per_asset.insert queue.1.1 (entry.1 + total queue.2, entry.2 + lotCost queue.2)

/-- Open quantity and cost per asset. -/
def openLots (result : FifoResult) : AList fun _ : ℕ => ℚ × ℚ :=
  result.remaining.entries.foldl addQueue ∅

/-- The entry of `_compute_fifo_cost_basis` for one asset, both numbers rounded. -/
def computeFifoCostBasis (result : FifoResult) (portfolio_asset_id : ℕ) : Option (ℚ × ℚ) :=
  ((openLots result).lookup portfolio_asset_id).map fun entry =>
    (Decimal.roundTo 4 entry.1, Decimal.roundTo 4 entry.2)

/-! ## Holdings -/

inductive PriceSource where
  | marketApi | transactionFallback | manual | none
  deriving DecidableEq, Repr

/-- What dates a price: an instant, or the effective date of a manual value. -/
inductive PriceAsOf where
  | instant (t : Timestamp)
  | date (d : ℤ)
  deriving DecidableEq

/-- An item of `enriched`. -/
structure HoldingItem where
  row : HoldingRaw
  netQty : ℚ
  totalCost : ℚ
  avgCost : Option ℚ
  currentValue : Option ℚ
  priceSource : PriceSource
  priceAsOf : Option PriceAsOf

structure HoldingLine where
  portfolioAssetId : ℕ
  marketCode : String
  ticker : Option String
  name : Option String
  assetType : AssetType
  assetClass : Option AssetClass
  layer : Option Layer
  currencyCode : Currency
  trackingMode : TrackingMode
  netQuantity : ℚ
  avgCost : Option ℚ
  totalCost : ℚ
  latestPrice : Option ℚ
  currentValue : Option ℚ
  unrealizedPl : Option ℚ
  unrealizedPlPct : Option ℚ
  weightPct : ℚ
  priceSource : PriceSource
  priceAsOf : Option PriceAsOf

namespace Ledger

variable (s : Ledger) (m : Market)

/-- Current value, price source and price date of one asset. -/
def valuation (row : HoldingRaw) (net_qty : ℚ) : Option ℚ × PriceSource × Option PriceAsOf :=
  let latest := m.getLatestPrice row.asset.marketCode
  if row.asset.trackingMode = .manual then
    let mv := m.getLatestManualValue row.portfolioAssetId
    match (mv.map ManualValue.value).or row.asset.currentValueManual with
    | none => (none, .none, none)
    | some value => (some value, .manual, mv.map fun v => .date v.effectiveDate)
  else if 0 < net_qty ∧ latest.isSome then
    (latest.map fun p => net_qty * p.price, .marketApi, latest.map fun p => .instant p.timestamp)
  else
    match (if 0 < net_qty then s.getLatestTransactionPrice m row.asset.marketCode else none) with
    | some (unit_price, ts) => (some (net_qty * unit_price), .transactionFallback, some (.instant ts))
    | none =>
      match latest with
      | some p => (none, .marketApi, some (.instant p.timestamp))
      | none => (none, .none, none)

def enrich (result : FifoResult) (row : HoldingRaw) : HoldingItem :=
  let net_qty := row.totalBoughtQty - row.totalSoldQty
  let fifo := (computeFifoCostBasis result row.portfolioAssetId).filter fun f => 0 < f.1
  let value := s.valuation m row net_qty
  { row, netQty := net_qty
    totalCost := (fifo.map Prod.snd).getD 0
    avgCost := fifo.map fun f => f.2 / f.1
    currentValue := value.1, priceSource := value.2.1, priceAsOf := value.2.2 }

/-- Value and cost of an item that has an unrealized result. -/
def valueAndCost (item : HoldingItem) : Option (ℚ × ℚ) := do
  let value ← item.currentValue
  let avg_cost ← item.avgCost
  if 0 < item.netQty then some (value, avg_cost * item.netQty) else none

def holdingLine (total_value : ℚ) (item : HoldingItem) : HoldingLine :=
  let vc := valueAndCost item
  { portfolioAssetId := item.row.portfolioAssetId
    marketCode := item.row.asset.marketCode
    ticker := item.row.market.ticker
    name := item.row.market.name
    assetType := item.row.market.assetType
    assetClass := item.row.market.assetClass
    layer := item.row.asset.layer
    currencyCode := item.row.market.currencyCode
    trackingMode := item.row.asset.trackingMode
    netQuantity := item.netQty
    avgCost := item.avgCost
    totalCost := item.totalCost
    latestPrice := (m.getLatestPrice item.row.asset.marketCode).map Price.price
    currentValue := item.currentValue
    unrealizedPl := vc.map fun vc => Decimal.roundTo 4 (vc.1 - vc.2)
    unrealizedPlPct := (vc.filter fun vc => 0 < vc.2).map fun vc =>
      Decimal.roundTo 4 ((vc.1 / vc.2 - 1) * 100)
    weightPct := Decimal.roundTo 4 <|
      if 0 < total_value then (item.currentValue.map (· / total_value * 100)).getD 0 else 0
    priceSource := item.priceSource
    priceAsOf := item.priceAsOf }

def getHoldings : List HoldingLine :=
  let result := computeFifo (s.getBuySellTransactions m)
  let enriched := (s.getHoldingsRaw m).map (s.enrich m result)
  let total_value := (enriched.map fun item => item.currentValue.getD 0).sum
  enriched.map (holdingLine m total_value)

end Ledger

end FinHub
