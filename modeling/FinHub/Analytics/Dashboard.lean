import FinHub.Analytics.Allocation
import FinHub.Analytics.Lookahead

/-!
# FinHub.Analytics.Dashboard

`get_dashboard` of `services/analytics_svc.py`, beside the other views of the same holdings.

* `getDashboard`: the sums of the holdings and of the cash in one currency.
* `allocation_of_dashboard`, `allocation_by_entity`: the parts of an allocation are those of the dashboard, or of the
  holdings and the cash of the entities.
* `dashboard_performance`: the dashboard and the performance summary value the holdings alike; they part over the
  costs in currencies that the dashboard asks no rate for.
-/

namespace FinHub

open Groups Worth

structure RealizedGainLine where
  transactionId : ℕ
  portfolioAssetId : ℕ
  marketCode : Option String
  ticker : Option String
  name : Option String
  sellDate : Timestamp
  sellQuantity : ℚ
  sellPrice : ℚ
  sellTotal : ℚ
  costBasis : ℚ
  realizedPl : ℚ
  realizedPlPct : ℚ
  currency : Currency
  deriving DecidableEq

structure DashboardSummary where
  displayCurrency : Currency
  totalPortfolioValue : ℚ
  totalInvested : ℚ
  investmentValue : ℚ
  cashBalance : ℚ
  totalReturn : ℚ
  totalReturnPct : ℚ
  numHoldings : ℕ
  unrealizedPl : ℚ
  realizedPl : ℚ
  deriving DecidableEq

namespace Ledger

variable (s : Ledger) (m : Market)

/-- `get_realized_gains`. -/
def getRealizedGains : List RealizedGainLine :=
  (computeFifo (s.getBuySellTransactions m)).sales.map fun sale =>
    { transactionId := sale.transactionId
      portfolioAssetId := sale.portfolioAssetId
      marketCode := sale.marketCode
      ticker := sale.ticker
      name := sale.name
      sellDate := sale.sellDate
      sellQuantity := sale.sellQuantity
      sellPrice := sale.sellPrice
      sellTotal := sale.sellTotal
      costBasis := sale.costBasis
      realizedPl := sale.realizedPl
      realizedPlPct := Decimal.roundTo 4 (percentOf sale.realizedPl sale.costBasis)
      currency := sale.currency }

/-- `get_dashboard`: the rates are read once for values and costs, and again with the currencies of the sales. -/
def getDashboard (display_currency : Currency) (now : Timestamp) : Except HistoryError DashboardSummary := do
  let holdings := s.getHoldings m
  let cash_by_currency ← s.cashRows now
  let needed_currencies := valuedCurrencies holdings cash_by_currency
  let ctx ← s.displayContext (some display_currency) needed_currencies
  let total_value := (holdings.filterMap fun h => h.currentValue.map fun v => ctx.convert v h.currencyCode).sum
  let total_invested := (holdings.map fun h => ctx.convert h.totalCost h.currencyCode).sum
  let realized_gains := s.getRealizedGains m
  let ctx' ← s.displayContext (some display_currency) (needed_currencies ++ realized_gains.map RealizedGainLine.currency)
  let unrealized_pl := (holdings.filterMap fun h => h.currentValue.map fun v =>
    ctx'.convert v h.currencyCode - ctx'.convert h.totalCost h.currencyCode).sum
  let realized_pl := (realized_gains.map fun g => ctx'.convert g.realizedPl g.currency).sum
  let cash ← cash_by_currency.mapM ctx'.cashValue
  let total_cash := cash.sum
  let total_return := total_value + total_cash - total_invested
  .ok
    { displayCurrency := display_currency
      totalPortfolioValue := Decimal.roundTo 4 (total_value + total_cash)
      totalInvested := Decimal.roundTo 4 total_invested
      investmentValue := Decimal.roundTo 4 total_value
      cashBalance := Decimal.roundTo 4 total_cash
      totalReturn := Decimal.roundTo 4 total_return
      totalReturnPct := Decimal.roundTo 4 (percentOf total_return total_invested)
      numHoldings := holdings.length
      unrealizedPl := Decimal.roundTo 4 unrealized_pl
      realizedPl := Decimal.roundTo 4 realized_pl }

end Ledger

/-! ## Rates -/

namespace Ledger

variable {s : Ledger} {m : Market} {display : Currency} {now : Timestamp}

/-- The factor from a currency whose rate is asked for: 1 where there is none. -/
def displayRate (s : Ledger) (display cur : Currency) : ℚ :=
  if cur = display then 1
  else
    match s.latestRateTo display cur with
    | .ok (some rate) => rate
    | _ => 1

theorem displayContext_rateOf {currencies : List Currency} {ctx : ValueContext}
    (h : s.displayContext (some display) currencies = .ok ctx) (cur : Currency) :
    (cur ∈ currencies → ctx.rateOf cur = s.displayRate display cur) ∧ (cur ∉ currencies → ctx.rateOf cur = 1) := by
  unfold displayContext holdingRates at h
  obtain ⟨rates, hrates, h⟩ := Runs.bind_eq_ok.mp h
  obtain ⟨found, hfound, hrates⟩ := Runs.bind_eq_ok.mp hrates
  cases h
  cases hrates
  unfold ValueContext.rateOf displayRate
  dsimp only
  by_cases hsame : cur = display
  · simp [hsame]
  · rw [if_neg hsame, if_neg hsame]
    have hlookup := lookup_rates (Runs.mapM_eq_ok.mp hfound) cur
    have hmem : cur ∈ currencies.filter (fun cur => decide (cur ≠ display)) ↔ cur ∈ currencies := by
      rw [List.mem_filter, decide_eq_true_eq]
      exact and_iff_left hsame
    rw [hmem] at hlookup
    refine ⟨fun hcur => ?_, fun hcur => by rw [hlookup.1 hcur]; rfl⟩
    obtain ⟨r, -, hr⟩ := (Runs.exists_mem_of_mapM hfound).1 cur (hmem.mpr hcur)
    obtain ⟨rate, hrate, -⟩ := Runs.map_eq_ok.mp hr
    rw [hlookup.2 rate hcur hrate, hrate]
    cases rate <;> rfl

/-- The performance summary asks for every rate. -/
theorem cachedRate_eq {cur : Currency} {rate : ℚ}
    (h : cachedRate s.currencyServiceRateProvider display cur = .ok rate) : rate = s.displayRate display cur := by
  unfold cachedRate currencyServiceRateProvider at h
  unfold displayRate latestRateTo
  by_cases hsame : cur = display
  · rw [if_pos hsame] at h ⊢
    exact (Except.ok.inj h).symm
  · rw [if_neg hsame] at h ⊢
    dsimp only at h
    cases hread : s.rateResponse cur display none with
    | ok r =>
      rw [hread] at h
      exact (Except.ok.inj h).symm
    | error e =>
      rw [hread] at h
      cases e with
      | noRate => exact (Except.ok.inj h).symm
      | raised e => cases h

/-! ## The sums of the dashboard -/

/-- The priced holdings in the display currency. -/
def pricedWorth (s : Ledger) (m : Market) (display : Currency) : ℚ :=
  ((s.getHoldings m).filterMap fun h =>
    h.currentValue.map fun value => value * s.displayRate display h.currencyCode).sum

/-- What the dashboard makes of a cost: it has a rate where a priced holding or a pocket has the currency. -/
def listedRate (s : Ledger) (m : Market) (display : Currency) (cash : List CashBalanceRow) (cur : Currency) : ℚ :=
  if (valuedCurrencies (s.getHoldings m) cash).elem cur then s.displayRate display cur else 1

theorem mem_valuedCurrencies_of_priced {holdings : List HoldingLine} {cash : List CashBalanceRow} {h : HoldingLine}
    (hmem : h ∈ holdings) {value : ℚ} (hvalue : h.currentValue = some value) :
    h.currencyCode ∈ valuedCurrencies holdings cash := by
  refine List.mem_append_left _ (List.mem_map.mpr ⟨h, List.mem_filter.mpr ⟨hmem, ?_⟩, rfl⟩)
  rw [hvalue]
  rfl

theorem mem_valuedCurrencies_of_cash {holdings : List HoldingLine} {cash : List CashBalanceRow} {r : CashBalanceRow}
    (hmem : r ∈ cash) : r.currency ∈ valuedCurrencies holdings cash :=
  List.mem_append_right _ (List.mem_map_of_mem hmem)

/-- The cash rows under the rates of a call that lists their currencies. -/
theorem cashValues_eq {ctx : ValueContext} {currencies : List Currency} {cash : List CashBalanceRow} {values : List ℚ}
    (hctx : s.displayContext (some display) currencies = .ok ctx) (hlisted : ∀ r ∈ cash, r.currency ∈ currencies)
    (h : cash.mapM ctx.cashValue = .ok values) :
    values = cash.map fun r => r.balance.getD 0 * s.displayRate display r.currency := by
  have hall := Runs.mapM_eq_ok.mp h
  clear h
  induction hall with
  | nil => rfl
  | @cons r value cash values hvalue _ ih =>
    rw [List.map_cons, ← ih fun r' hr' => hlisted r' (List.mem_cons_of_mem r hr')]
    congr 1
    unfold ValueContext.cashValue ValueContext.convertRow at hvalue
    cases hbalance : r.balance with
    | none =>
      rw [hbalance] at hvalue
      cases hvalue
    | some balance =>
      have hrate := (displayContext_rateOf hctx r.currency).1 (hlisted r List.mem_cons_self)
      rw [hbalance] at hvalue
      rw [← Except.ok.inj hvalue, Option.getD_some, ← hrate]
      rfl

/-- What the dashboard shows, before it is rounded. -/
theorem getDashboard_sums {d : DashboardSummary} (h : s.getDashboard m display now = .ok d) :
    ∃ cash, s.cashRows now = .ok cash ∧ d.investmentValue = Decimal.roundTo 4 (s.pricedWorth m display) ∧
      (let values := cash.map fun r => r.balance.getD 0 * s.displayRate display r.currency
       d.cashBalance = Decimal.roundTo 4 values.sum ∧
        d.totalPortfolioValue = Decimal.roundTo 4 (s.pricedWorth m display + values.sum)) ∧
      d.totalInvested = Decimal.roundTo 4
        ((s.getHoldings m).map fun h => h.totalCost * s.listedRate m display cash h.currencyCode).sum := by
  unfold getDashboard at h
  obtain ⟨cash, hcash, h⟩ := Runs.bind_eq_ok.mp h
  obtain ⟨ctx, hctx, h⟩ := Runs.bind_eq_ok.mp h
  obtain ⟨ctx', hctx', h⟩ := Runs.bind_eq_ok.mp h
  obtain ⟨values, hvalues, h⟩ := Runs.bind_eq_ok.mp h
  cases h
  have hworth : ((s.getHoldings m).filterMap fun h => h.currentValue.map fun v => ctx.convert v h.currencyCode) =
      (s.getHoldings m).filterMap fun h => h.currentValue.map fun v => v * s.displayRate display h.currencyCode := by
    refine List.filterMap_congr fun h hh => ?_
    cases hvalue : h.currentValue with
    | none => rfl
    | some value =>
      have hrate := (displayContext_rateOf hctx h.currencyCode).1 (mem_valuedCurrencies_of_priced hh hvalue)
      unfold ValueContext.convert
      rw [hrate]
  have hcost : ((s.getHoldings m).map fun h => ctx.convert h.totalCost h.currencyCode) =
      (s.getHoldings m).map fun h => h.totalCost * s.listedRate m display cash h.currencyCode := by
    refine List.map_congr_left fun h _ => ?_
    unfold ValueContext.convert listedRate
    simp only [List.elem_eq_mem, decide_eq_true_eq]
    split_ifs with hlisted
    · rw [(displayContext_rateOf hctx h.currencyCode).1 hlisted]
    · rw [(displayContext_rateOf hctx h.currencyCode).2 hlisted]
  have hvalues' := cashValues_eq hctx' (fun r hr => List.mem_append_left _ (mem_valuedCurrencies_of_cash hr)) hvalues
  refine ⟨cash, hcash, ?_, ⟨?_, ?_⟩, ?_⟩
  · rw [hworth]
    rfl
  · rw [hvalues']
  · rw [hworth, hvalues']
    rfl
  · rw [hcost]

/-! ## The parts of the dashboard -/

theorem ofText_value (dimension : AllocationDimension) :
    AllocationDimension.ofText dimension.value = some dimension := by
  cases dimension with
  | entity => rfl
  | holdings dimension => cases dimension <;> rfl

theorem holdingAllocation_of_getAssetAllocation {dimension : HoldingDimension} {lines : List AllocationLine}
    (h : s.getAssetAllocation m (AllocationDimension.holdings dimension).value (some display) now = .ok lines) :
    s.holdingAllocation m dimension (some display) now = .ok lines := by
  unfold getAssetAllocation at h
  rw [ofText_value] at h
  dsimp only at h
  cases hread : s.holdingAllocation m dimension (some display) now with
  | error e =>
    rw [hread] at h
    cases h
  | ok lines' =>
    rw [hread] at h
    cases h
    rfl

/-- An allocation beside the dashboard of the same call. -/
structure AllocationOfDashboard (dimension : HoldingDimension) (lines : List AllocationLine) (d : DashboardSummary) :
    Prop where
  parts : ∃ (value : ℚ) (cash : List ℚ), d.investmentValue = Decimal.roundTo 4 value ∧
    d.cashBalance = Decimal.roundTo 4 cash.sum ∧ d.totalPortfolioValue = Decimal.roundTo 4 (value + cash.sum) ∧
    (dimension ≠ .assetClass → Parts lines value) ∧
    (dimension = .assetClass → ∃ total, Parts lines total ∧ value + cash.sum ≤ total ∧
      (total = value + cash.sum ↔ ∀ c ∈ cash, 0 ≤ c))

/-- The positive values come to more than all of them, unless none is negative. -/
theorem sum_positive (l : List ℚ) : l.sum ≤ (l.filter fun x => 0 < x).sum ∧
    ((l.filter fun x => 0 < x).sum = l.sum ↔ ∀ x ∈ l, 0 ≤ x) := by
  induction l with
  | nil => simp
  | cons x l ih =>
    obtain ⟨hle, hiff⟩ := ih
    rw [List.forall_mem_cons, ← hiff, List.sum_cons]
    rcases lt_trichotomy 0 x with hpos | rfl | hneg
    · have hkeep : ((x :: l).filter fun x => 0 < x) = x :: l.filter fun x => 0 < x := by simp [hpos]
      rw [hkeep, List.sum_cons]
      exact ⟨by linarith, fun h => ⟨hpos.le, by linarith⟩, fun h => by rw [h.2]⟩
    · simpa using hle
    · have hdrop : ((x :: l).filter fun x => 0 < x) = l.filter fun x => 0 < x := by simp [hneg.le]
      rw [hdrop]
      exact ⟨by linarith, fun h => absurd h (by linarith), fun h => absurd h.1 (not_le.mpr hneg)⟩

/-- The values of the entries, whatever they are grouped by. -/
theorem sum_holdingEntries {ctx : ValueContext} {currencies : List Currency} {cash : List CashBalanceRow}
    (hctx : s.displayContext (some display) currencies = .ok ctx)
    (hcurrencies : currencies = valuedCurrencies (s.getHoldings m) cash) (key : HoldingLine → String) :
    ((ctx.holdingEntries key (s.getHoldings m)).map Prod.snd).sum = s.pricedWorth m display := by
  unfold ValueContext.holdingEntries pricedWorth
  rw [List.map_filterMap]
  refine congrArg List.sum (List.filterMap_congr fun h hh => ?_)
  cases hvalue : h.currentValue with
  | none => rfl
  | some value =>
    have hvalued : h.currencyCode ∈ valuedCurrencies (s.getHoldings m) cash := mem_valuedCurrencies_of_priced hh hvalue
    have hlisted := hcurrencies ▸ hvalued
    simp only [Option.map_some, ValueContext.convert, (displayContext_rateOf hctx h.currencyCode).1 hlisted]

end Ledger

namespace Sample

open Ledger

/-- The stock is at 110; the purchase has overdrawn the cash by 200. -/
def stockPrices : Market := stockMarket [⟨"ACME", Time.startOfDay 20601, 110⟩]

def stockDay : Timestamp := Time.startOfDay 20602

theorem exists_stockDashboard : ∃ d, stockLedger.getDashboard stockPrices usd stockDay = .ok d ∧
    d.investmentValue = 220 ∧ d.totalPortfolioValue = 20 := by
  obtain ⟨d, hd⟩ := Runs.exists_of_isSome_toOption (x := stockLedger.getDashboard stockPrices usd stockDay)
    (by decide +kernel)
  have hshown : (stockLedger.getDashboard stockPrices usd stockDay).toOption.map
      (fun d => (d.investmentValue, d.totalPortfolioValue)) = some (220, 20) := by decide +kernel
  rw [hd] at hshown
  have hpair := Option.some_inj.mp hshown
  exact ⟨d, hd, congrArg Prod.fst hpair, congrArg Prod.snd hpair⟩

end Sample

namespace Ledger

variable {s : Ledger} {m : Market} {display : Currency} {now : Timestamp}

/-! ## By entity -/

theorem convertRow_eq_ok {ctx : ValueContext} {amount : Option ℚ} {cur : Currency} {value : ℚ} :
    ctx.convertRow amount cur = .ok value ↔ ∃ x, amount = some x ∧ value = ctx.convert x cur := by
  unfold ValueContext.convertRow
  cases amount with
  | none => simp
  | some x => simp [eq_comm]

/-- Two ways to enter a row under a key, each with its converted amount. -/
theorem sum_entries_eq {κ κ' ρ : Type} {ctx : ValueContext} {rows : List ρ} {key : ρ → κ} {key' : ρ → κ'}
    {amount : ρ → Option ℚ} {cur : ρ → Currency} {entries : List (κ × ℚ)} {entries' : List (κ' × ℚ)}
    (h : rows.mapM (fun r => (ctx.convertRow (amount r) (cur r)).map fun value => (key r, value)) = .ok entries)
    (h' : rows.mapM (fun r => (ctx.convertRow (amount r) (cur r)).map fun value => (key' r, value)) = .ok entries') :
    (entries.map Prod.snd).sum = (entries'.map Prod.snd).sum := by
  have hvalues : ∀ {κ : Type} {key : ρ → κ} {entries : List (κ × ℚ)},
      rows.mapM (fun r => (ctx.convertRow (amount r) (cur r)).map fun value => (key r, value)) = .ok entries →
      entries.map Prod.snd = rows.map fun r => ctx.convert ((amount r).getD 0) (cur r) := by
    intro κ key entries hentries
    refine Runs.map_eq_of_mapM (fun r e he => ?_) hentries
    obtain ⟨value, hvalue, rfl⟩ := Runs.map_eq_ok.mp he
    obtain ⟨x, hx, rfl⟩ := convertRow_eq_ok.mp hvalue
    rw [hx]
    rfl
  rw [hvalues h, hvalues h']

theorem seenEntry_eq (ctx : ValueContext) (key : SeenKey) (value : Option ℚ) :
    seenEntry ctx key value = (ctx.convertRow value key.currency).map fun v => (key, v) := by
  cases value <;> rfl

/-- The allocation by entity and the list by entity, class and currency share out one total. -/
theorem allocation_by_entity {display_currency : Option Currency} {lines : List AllocationLine}
    {rows : List HoldingByEntityLine} (h : s.getAssetAllocation m "entity" display_currency now = .ok lines)
    (hrows : s.getHoldingsByEntity m display_currency now = .ok rows) :
    ∃ total, Parts lines total ∧
      |(rows.map HoldingByEntityLine.currentValue).sum - total| ≤ rows.length * (1 / 2 / 10 ^ 4) := by
  have hlines : s.allocationByEntity m display_currency now = .ok lines := by
    unfold getAssetAllocation at h
    rw [show AllocationDimension.ofText "entity" = some .entity from ofText_value .entity] at h
    dsimp only at h
    cases hread : s.allocationByEntity m display_currency now with
    | error e =>
      rw [hread] at h
      cases h
    | ok lines' =>
      rw [hread] at h
      cases h
      rfl
  unfold allocationByEntity at hlines
  unfold getHoldingsByEntity at hrows
  obtain ⟨cash_rows, hcash, hlines⟩ := Runs.bind_eq_ok.mp hlines
  obtain ⟨ctx, hctx, hlines⟩ := Runs.bind_eq_ok.mp hlines
  rw [hcash] at hrows
  obtain ⟨_, hsame, hrows⟩ := Runs.bind_eq_ok.mp hrows
  cases hsame
  unfold displayContext at hctx
  obtain ⟨rates, hrates, hrows⟩ := Runs.bind_eq_ok.mp hrows
  rw [hrates] at hctx
  obtain ⟨_, hsame, hctx⟩ := Runs.bind_eq_ok.mp hctx
  cases hsame
  cases hctx
  obtain ⟨inv, hinv, hlines⟩ := Runs.bind_eq_ok.mp hlines
  obtain ⟨cash, hcashes, hlines⟩ := Runs.bind_eq_ok.mp hlines
  obtain ⟨inv', hinv', hrows⟩ := Runs.bind_eq_ok.mp hrows
  obtain ⟨cash', hcashes', hrows⟩ := Runs.bind_eq_ok.mp hrows
  obtain rfl := Except.ok.inj hlines
  obtain rfl := Except.ok.inj hrows
  simp only [seenEntry_eq] at hinv' hcashes'
  have htotal : ((inv ++ cash).map Prod.snd).sum = ((inv' ++ cash').map Prod.snd).sum := by
    rw [List.map_append, List.map_append, List.sum_append, List.sum_append, sum_entries_eq hinv hinv',
      sum_entries_eq hcashes hcashes']
  refine ⟨((inv ++ cash).map Prod.snd).sum, parts_allocationLines .entity ?_ _ rfl, ?_⟩
  · intro hpos x
    rw [total_collect, if_neg hpos.ne']
  · have hround := abs_sum_roundTo_sub_le 4 (collect (inv' ++ cash')) Prod.snd
    rw [show ((collect (inv' ++ cash')).map Prod.snd).sum = _ from total_collect _, ← htotal] at hround
    rw [List.map_map, List.length_map]
    exact hround

end Ledger

namespace Sample

theorem stock_by_entity : ∃ (lines : List AllocationLine) (rows : List HoldingByEntityLine) (total : ℚ),
    stockLedger.getAssetAllocation stockPrices "entity" none stockDay = .ok lines ∧ Parts lines total ∧
      |(rows.map HoldingByEntityLine.currentValue).sum - total| ≤ rows.length * (1 / 2 / 10 ^ 4) := by
  obtain ⟨lines, hlines⟩ := Runs.exists_of_isSome_toOption (x := stockLedger.getAssetAllocation stockPrices
    "entity" none stockDay) (by decide +kernel)
  obtain ⟨rows, hrows⟩ := Runs.exists_of_isSome_toOption (x := stockLedger.getHoldingsByEntity stockPrices
    none stockDay) (by decide +kernel)
  obtain ⟨total, hparts, hsum⟩ := Ledger.allocation_by_entity hlines hrows
  exact ⟨lines, rows, total, hlines, hparts, hsum⟩

end Sample

namespace Ledger

variable {s : Ledger} {m : Market} {display : Currency} {now : Timestamp}

/-! ## The performance summary -/

/-- The holdings whose currency the dashboard asks no rate for. -/
def unratedHoldings (s : Ledger) (m : Market) (cash : List CashBalanceRow) : List HoldingLine :=
  (s.getHoldings m).filter fun h => !(valuedCurrencies (s.getHoldings m) cash).elem h.currencyCode

/-- What the two summaries show of the same holdings, in one display currency. -/
structure DashboardPerformance (s : Ledger) (m : Market) (display : Currency) (cash : List CashBalanceRow)
    (d : DashboardSummary) (p : PerformanceSummary) : Prop where
  value : d.investmentValue = p.totalPortfolioValue
  invested : ∃ cost, d.totalInvested = Decimal.roundTo 4 cost ∧ p.totalInvestedNow = Decimal.roundTo 4
    (cost + ((s.unratedHoldings m cash).map fun h => h.totalCost * (s.displayRate display h.currencyCode - 1)).sum)

/-- The dashboard and the performance summary value the holdings alike. What is invested they show alike as far as
the dashboard asks for rates: a holding without a price, in a currency that no priced holding and no cash has,
enters its sum at its cost as it stands, and that of the summary at the rate. -/
theorem dashboard_performance {d : DashboardSummary} {p : PerformanceSummary} {reads : PerformanceReads}
    {locale : String} (hreads : reads.holdings = s.getHoldings m)
    (hp : performanceSummary s.currencyServiceRateProvider display reads locale = .ok p)
    (hd : s.getDashboard m display now = .ok d) :
    ∃ cash, s.cashRows now = .ok cash ∧ DashboardPerformance s m display cash d p := by
  obtain ⟨cash, hcash, hvalue, -, hinvested⟩ := getDashboard_sums hd
  refine ⟨cash, hcash, ?_⟩
  unfold performanceSummary at hp
  obtain ⟨invested, -, hp⟩ := Runs.bind_eq_ok.mp hp
  obtain ⟨realized, -, hp⟩ := Runs.bind_eq_ok.mp hp
  obtain ⟨income, -, hp⟩ := Runs.bind_eq_ok.mp hp
  obtain ⟨sold, -, hp⟩ := Runs.bind_eq_ok.mp hp
  obtain ⟨rated, hrated, hp⟩ := Runs.bind_eq_ok.mp hp
  obtain ⟨fallbacks, -, hp⟩ := Runs.bind_eq_ok.mp hp
  cases hp
  have hrates : rated = (s.getHoldings m).map fun h => (h, s.displayRate display h.currencyCode) := by
    rw [hreads] at hrated
    rw [← Runs.map_eq_of_mapM (p := id) (fun h y hy => ?_) hrated, List.map_id]
    obtain ⟨rate, hrate, rfl⟩ := Runs.map_eq_ok.mp hy
    rw [cachedRate_eq hrate]
    rfl
  subst hrates
  constructor
  · dsimp only
    rw [hvalue, List.filterMap_map]
    rfl
  · refine ⟨_, hinvested, ?_⟩
    rw [List.map_map]
    dsimp only
    congr 1
    unfold unratedHoldings
    rw [Groups.sum_filter, ← List.sum_map_add]
    refine congrArg List.sum (List.map_congr_left fun h _ => ?_)
    unfold listedRate
    simp only [Function.comp_apply, Bool.not_eq_true', List.elem_eq_mem, decide_eq_true_eq, decide_eq_false_iff_not]
    split_ifs
    · rw [add_zero]
    · ring

end Ledger

namespace Sample

def stockReads : PerformanceReads := ⟨stockLedger.getHoldings stockPrices, [], [], []⟩

theorem stock_performance : ∃ cash d p,
    performanceSummary stockLedger.currencyServiceRateProvider usd stockReads "" = .ok p ∧
      d.investmentValue = 220 ∧ Ledger.DashboardPerformance stockLedger stockPrices usd cash d p := by
  obtain ⟨p, hp⟩ := Runs.exists_of_isSome_toOption
    (x := performanceSummary stockLedger.currencyServiceRateProvider usd stockReads "") (by decide +kernel)
  obtain ⟨d, hd, hvalue, -⟩ := exists_stockDashboard
  obtain ⟨cash, -, hsame⟩ := Ledger.dashboard_performance rfl hp hd
  exact ⟨cash, d, p, hp, hvalue, hsame⟩

end Sample

end FinHub
