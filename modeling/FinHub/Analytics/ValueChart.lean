import FinHub.Analytics.HistoricalValues
import FinHub.Profiles.Store

/-!
# FinHub.Analytics.ValueChart

`portfolio_value_chart` of `routes/prices.py`, by the rows that its statements read.

Prices are looked up by their day. Splits come from three places: `stock_splits`, purchases at a multiple of
the price of their day, which are also registered, and purchases at a multiple of the nearest price, which
are only flagged. `ChartReads.chart_ne`: an asset that is listed twice has its points twice.
-/

namespace FinHub

open Tabular

/-- A row of the assets: the market code and its currency. -/
structure ChartAsset where
  marketCode : String
  currencyCode : Currency
  deriving DecidableEq

/-- A purchase with a unit price, under the market code of its asset. -/
structure PricedBuy where
  portfolioAssetId : ℕ
  marketCode : String
  timestamp : Timestamp
  unitPrice : ℚ
  deriving DecidableEq

/-- A purchase or sale with a quantity. -/
structure ChartTrade where
  isBuy : Bool
  timestamp : Timestamp
  quantity : ℚ
  deriving DecidableEq

/-- What the statements of a call answer, as functions of their arguments. -/
structure ChartReads where
  earliest : Option Timestamp
  prices : List Price
  assets : List ChartAsset
  stockSplits : List StockSplit
  detectRows : List PricedBuy
  allBuyTxs : List PricedBuy
  allTxs : String → List ChartTrade
  netPositions : Timestamp → List NetPosition
  manualTrackedAssets : List ManualAsset
  manualValueAsOf : ℕ → ℤ → Option ℚ
  getRate : Currency → Currency → Option ℚ

structure ChartCall where
  startDate : Option Calendar.Date := none
  endDate : Option Calendar.Date := none
  displayCurrency : Option Currency := none
  today : Calendar.Date

structure FlaggedSplit where
  marketCode : String
  buyDate : ℤ
  inferredRatio : ℕ
  buyPrice : ℚ
  marketPrice : ℚ
  deriving DecidableEq

structure ChartPoint where
  date : ℤ
  value : ℚ
  estimated : Bool
  deriving DecidableEq

structure PortfolioValueChartResponse where
  data : List (String × List ChartPoint)
  flaggedSplits : List FlaggedSplit
  deriving DecidableEq

/-! ## Dates -/

/-- 2020-01-01. -/
def defaultStart : ℤ := 18262

/-- 9999-12-31. -/
def lastDay : ℤ := 2932896

/-- Steps of 30 days over more than two years, of 7 days otherwise, and the last day. -/
def chartDates (start end_ : ℤ) : Except HistoryError (List ℤ) :=
  let interval := if 730 < end_ - start then 30 else 7
  let dates := (List.range ((end_ - start) / interval + 1).toNat).map fun i => start + i * interval
  match dates.getLast? with
  | none => .error .indexError
  | some last =>
    if lastDay < last + interval then .error .overflowError
    else if last = end_ then .ok dates
    else .ok (dates ++ [end_])

/-- `strftime("%Y-%m-%d")`. -/
def dateText (d : ℤ) : String := String.ofList ((Time.isoText (Time.startOfDay d)).toList.take 10)

/-- `substr(date, 1, 4)`. -/
def yearText (date : String) : String := String.ofList (date.toList.take 4)

namespace ChartReads

variable (r : ChartReads)

/-! ## Prices -/

def pricesOf (market_code : String) : List Price :=
  r.prices.filter fun p => decide (p.marketCode = market_code)

/-- `price_as_of`: the last price of the last day with one. -/
def priceAsOf (market_code : String) (d : ℤ) : Option Price :=
  ((r.pricesOf market_code).filter fun p => decide (Time.dayOf p.timestamp ≤ d)).argmax Price.timestamp

def firstPrice (market_code : String) : Option Price := (r.pricesOf market_code).argmin Price.timestamp

/-! ## Splits -/

/-- A multiple of at least two, within 15 percent of a whole number. -/
def splitRatio (buy_price market_price : ℚ) : Option ℕ :=
  if market_price ≤ 0 ∨ buy_price ≤ 0 then none
  else
    let ratio := buy_price / market_price
    let nearest := ⌊ratio + 1 / 2⌋.toNat
    if ratio < 2 ∨ nearest < 2 ∨ 15 / 100 < |ratio - nearest| / nearest then none else some nearest

/-- `detect_stock_splits`: market code, day and ratio. -/
def detectStockSplits : List (String × ℤ × ℕ) :=
  r.detectRows.filterMap fun b =>
    let buy_date := Time.dayOf b.timestamp
    ((r.priceAsOf b.marketCode buy_date).filter fun p => decide (Time.dayOf p.timestamp = buy_date)).bind fun p =>
      (splitRatio b.unitPrice p.price).map fun ratio => (b.marketCode, buy_date, ratio)

/-- The ratio of a day in `all_buy_ratios`: a stored split before a detected one. -/
def ratioOn (market_code : String) (d : ℤ) : Option ℚ :=
  ((r.stockSplits.reverse.find? fun s => decide (s.marketCode = market_code ∧ s.splitDate = dateText d)).map
    fun s => (s.ratio : ℚ)).or
    ((r.detectStockSplits.reverse.find? fun s => decide (s.1 = market_code ∧ s.2.1 = d)).map
      fun s => (s.2.2 : ℚ))

/-- A split of the market code is stored in the year of the day. -/
def hasSplitInYear (splits : List StockSplit) (market_code : String) (d : ℤ) : Bool :=
  splits.any fun s => decide (s.marketCode = market_code ∧ yearText s.splitDate = yearText (dateText d))

/-- `stock_splits` after the detected ones are registered. -/
def registeredSplits : List StockSplit :=
  r.detectStockSplits.foldl (fun splits s =>
    if hasSplitInYear splits s.1 s.2.1 then splits else splits ++ [⟨s.1, dateText s.2.1, s.2.2⟩]) r.stockSplits

/-- A purchase without a price of its day, at a multiple of the nearest one. -/
def flaggedSplit (b : PricedBuy) : Option FlaggedSplit := do
  let buy_date := Time.dayOf b.timestamp
  let nearest ← (r.priceAsOf b.marketCode buy_date).or (r.firstPrice b.marketCode)
  let ratio ← if Time.dayOf nearest.timestamp = buy_date then none else splitRatio b.unitPrice nearest.price
  if hasSplitInYear r.registeredSplits b.marketCode buy_date then none
  else some ⟨b.marketCode, buy_date, ratio, b.unitPrice, nearest.price⟩

def flaggedSplits : List FlaggedSplit := r.allBuyTxs.filterMap r.flaggedSplit

/-- The loop over the trades of a market code. -/
structure SplitState where
  splitQtyRemaining : ℚ := 0
  currentRatio : ℚ := 1
  currentStart : Option ℤ := none
  periods : List (Option ℤ × ℤ × ℚ) := []

def splitStep (market_code : String) (st : SplitState) (t : ChartTrade) : SplitState :=
  let tx_date := Time.dayOf t.timestamp
  if t.isBuy then
    let ratio := (r.ratioOn market_code tx_date).getD 0
    if 0 < ratio then
      let st :=
        if st.splitQtyRemaining ≤ 0 then { st with currentStart := some tx_date, currentRatio := ratio }
        else if st.currentRatio ≠ ratio then
          { st with
            periods := st.periods ++ [(st.currentStart, tx_date, st.currentRatio)]
            currentStart := some tx_date, currentRatio := ratio }
        else st
      { st with splitQtyRemaining := st.splitQtyRemaining + t.quantity }
    else st
  else if 0 < st.splitQtyRemaining then
    let remaining := st.splitQtyRemaining - min st.splitQtyRemaining t.quantity
    if remaining ≤ 0 then
      { st with
        periods := st.periods ++ [(st.currentStart, tx_date, st.currentRatio)], splitQtyRemaining := 0 }
    else { st with splitQtyRemaining := remaining }
  else st

def splitPeriods (market_code : String) : List (Option ℤ × ℤ × ℚ) :=
  let st := (r.allTxs market_code).foldl (r.splitStep market_code) {}
  if 0 < st.splitQtyRemaining ∧ st.currentStart.isSome then
    st.periods ++ [(st.currentStart, lastDay, st.currentRatio)]
  else st.periods

/-! ## Points -/

/-- The rate of a conversion, which any exception and a zero leave out. -/
def rateTo (display_currency : Option Currency) (cur : Currency) : Option ℚ :=
  match display_currency with
  | none => none
  | some display => if cur = display then none else (r.getRate cur display).filter fun rate => decide (rate ≠ 0)

/-- `pos_map`: the last position of a market code. -/
def quantityOf (market_code : String) (d : ℤ) : ℚ :=
  (((r.netPositions (Time.endOfDay d)).reverse.find? fun p => decide (p.marketCode = market_code)).map
    NetPosition.netQuantity).getD 0

/-- One asset at one date. -/
def assetPoint (display_currency : Option Currency) (d : ℤ) (a : ChartAsset) : Option ChartPoint :=
  let price := r.priceAsOf a.marketCode d
  if r.quantityOf a.marketCode d ≤ 0 then none
  else
    (price.or (r.firstPrice a.marketCode)).map fun p =>
      let value := Decimal.roundTo 2 (r.quantityOf a.marketCode d * p.price)
      let value :=
        match (r.splitPeriods a.marketCode).find? fun sp => decide (sp.1.all (· ≤ d) = true ∧ d < sp.2.1) with
        | some sp => Decimal.roundTo 2 (value * sp.2.2)
        | none => value
      let value :=
        match r.rateTo display_currency a.currencyCode with
        | some rate => Decimal.roundTo 2 (value * rate)
        | none => value
      ⟨d, value, price.isNone⟩

/-- The points of a market code in the loop over the dates. -/
def marketPoints (display_currency : Option Currency) (dates : List ℤ) (market_code : String) : List ChartPoint :=
  dates.flatMap fun d =>
    (r.assets.filter fun a => decide (a.marketCode = market_code)).filterMap (r.assetPoint display_currency d)

/-- The points of an asset tracked by hand: its recorded values, or the undated one for every date. -/
def manualPoints (display_currency : Option Currency) (dates : List ℤ) (ma : ManualAsset) : List ChartPoint :=
  let rate := (r.rateTo display_currency ma.currencyCode).getD 1
  let recorded := dates.filterMap fun d =>
    (r.manualValueAsOf ma.id d).map fun mv => ⟨d, Decimal.roundTo 2 (mv * rate), false⟩
  if recorded ≠ [] then recorded
  else
    match ma.asset.currentValueManual with
    | some value => dates.map fun d => ⟨d, Decimal.roundTo 2 (value * rate), true⟩
    | none => []

/-- The entry of `by_asset`. -/
def series (display_currency : Option Currency) (dates : List ℤ) (market_code : String) : List ChartPoint :=
  r.marketPoints display_currency dates market_code ++
    (r.manualTrackedAssets.filter fun ma => decide (ma.asset.marketCode = market_code)).flatMap
      (r.manualPoints display_currency dates)

/-- The keys of `by_asset`, in their order. -/
def marketCodes : List String :=
  (r.assets.map ChartAsset.marketCode ++ r.manualTrackedAssets.map fun ma => ma.asset.marketCode).eraseDups

def startOf (c : ChartCall) : ℤ :=
  match c.startDate with
  | some start => isoDay start
  | none => (r.earliest.map Time.dayOf).getD defaultStart

def endOf (c : ChartCall) : ℤ := isoDay (c.endDate.getD c.today)

/-- The entries of the answer. -/
def chartData (display_currency : Option Currency) (dates : List ℤ) : List (String × List ChartPoint) :=
  (r.marketCodes.map fun code => (code, r.series display_currency dates code)).filter fun e => decide (e.2 ≠ [])

/-- `portfolio_value_chart`. -/
def chart (c : ChartCall) : Except HistoryError PortfolioValueChartResponse :=
  (chartDates (r.startOf c) (endOf c)).map fun dates =>
    { data := r.chartData c.displayCurrency dates, flaggedSplits := r.flaggedSplits }

/-! ## An asset that is listed twice -/

variable {r}

theorem mem_chartData {display_currency : Option Currency} {dates : List ℤ} {code : String}
    {points : List ChartPoint} : (code, points) ∈ r.chartData display_currency dates ↔
      code ∈ r.marketCodes ∧ points = r.series display_currency dates code ∧ points ≠ [] := by
  unfold chartData
  rw [List.mem_filter, List.mem_map, decide_eq_true_eq]
  constructor
  · rintro ⟨⟨code', hcode, he⟩, hne⟩
    cases he
    exact ⟨hcode, rfl, hne⟩
  · rintro ⟨hcode, hpoints, hne⟩
    exact ⟨⟨code, hcode, by rw [hpoints]⟩, hne⟩

/-- The same statements but for more assets. -/
def withAssets (r : ChartReads) (assets : List ChartAsset) : ChartReads := { r with assets }

/-- One more asset under a market code with a point: the answer is another one. -/
theorem chart_ne {c : ChartCall} {dates : List ℤ} {assets : List ChartAsset} {a : ChartAsset}
    (hdates : chartDates (r.startOf c) (endOf c) = .ok dates) (hperm : assets.Perm (a :: r.assets))
    {d : ℤ} (hd : d ∈ dates) (hpoint : (r.assetPoint c.displayCurrency d a).isSome) :
    (r.withAssets assets).chart c ≠ r.chart c := by
  have hlength : ∀ dates' : List ℤ,
      ((r.withAssets assets).marketPoints c.displayCurrency dates' a.marketCode).length =
        (r.marketPoints c.displayCurrency dates' a.marketCode).length +
          (dates'.filterMap fun d => r.assetPoint c.displayCurrency d a).length := by
    intro dates'
    have hfilter := hperm.filter fun b => decide (b.marketCode = a.marketCode)
    rw [List.filter_cons_of_pos (by simp)] at hfilter
    induction dates' with
    | nil => rfl
    | cons d dates' ih =>
      have hstep := (hfilter.filterMap (r.assetPoint c.displayCurrency d)).length_eq
      have hwith : (r.withAssets assets).assetPoint c.displayCurrency d = r.assetPoint c.displayCurrency d := rfl
      unfold marketPoints at ih ⊢
      rw [List.flatMap_cons, List.flatMap_cons, List.length_append, List.length_append, ih, hwith]
      rw [show (r.withAssets assets).assets = assets from rfl, hstep, List.filterMap_cons, List.filterMap_cons]
      cases r.assetPoint c.displayCurrency d a with
      | none => simp only; omega
      | some p => simp only [List.length_cons]; omega
  have hpositive : 0 < (dates.filterMap fun d => r.assetPoint c.displayCurrency d a).length := by
    obtain ⟨p, hp⟩ := Option.isSome_iff_exists.mp hpoint
    exact List.length_pos_of_mem (List.mem_filterMap.mpr ⟨d, hd, hp⟩)
  have hlonger := hlength dates
  intro heq
  have hstart : (r.withAssets assets).startOf c = r.startOf c := rfl
  unfold chart at heq
  rw [hstart, hdates] at heq
  have hdata : (r.withAssets assets).chartData c.displayCurrency dates = r.chartData c.displayCurrency dates :=
    congrArg PortfolioValueChartResponse.data (Except.ok.inj heq)
  -- the series of the code in the second answer is one of the first
  set series' := (r.withAssets assets).series c.displayCurrency dates a.marketCode with hseries'
  have hmore : (r.series c.displayCurrency dates a.marketCode).length < series'.length := by
    rw [hseries', series, series, List.length_append, List.length_append]
    have hmanual : (r.withAssets assets).manualTrackedAssets = r.manualTrackedAssets := rfl
    have hpoints : (r.withAssets assets).manualPoints c.displayCurrency dates =
        r.manualPoints c.displayCurrency dates := rfl
    rw [hmanual, hpoints]
    omega
  have hcode : a.marketCode ∈ (r.withAssets assets).marketCodes := by
    refine List.mem_eraseDups.mpr (List.mem_append_left _ (List.mem_map_of_mem ?_))
    exact hperm.mem_iff.mpr List.mem_cons_self
  have hin : (a.marketCode, series') ∈ (r.withAssets assets).chartData c.displayCurrency dates :=
    mem_chartData.mpr ⟨hcode, rfl, fun hnil => by simp [hnil] at hmore⟩
  rw [hdata] at hin
  have hsame := (mem_chartData.mp hin).2.1
  rw [hsame] at hmore
  exact lt_irrefl _ hmore

end ChartReads

end FinHub
