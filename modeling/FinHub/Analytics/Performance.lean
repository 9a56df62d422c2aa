import FinHub.Rates.Provider
import FinHub.Tax.TaxablePnl

/-!
# FinHub.Analytics.Performance

`get_performance_summary` of `services/analytics_svc.py`, by the rows that its statements read.

`performanceSummary_income` says what one more row of interest in the display currency does to the summary.
-/

namespace FinHub

structure PerformanceSummary where
  displayCurrency : Currency
  totalRealizedPl : ℚ
  totalUnrealizedPl : ℚ
  totalReturn : ℚ
  totalInvestedNow : ℚ
  totalInvestedHistoric : ℚ
  totalReturnPct : ℚ
  totalPortfolioValue : ℚ
  unrealizedPlPct : ℚ
  realizedPlPct : ℚ
  totalDividends : ℚ
  dividendYieldPct : ℚ
  totalInterest : ℚ
  ruleKey : String
  rateFallbacks : List PerformanceRateFallback
  deriving DecidableEq

/-- What the statements of a call answer. -/
structure PerformanceReads where
  holdings : List HoldingLine
  investedRows : List Transaction
  sales : List NativeSale
  incomeRows : List Transaction

/-- `type = 'INVESTMENT_BUY'`. -/
def isInvested (t : Transaction) : Bool := decide (t.type = .investmentBuy)

/-- `type = 'INCOME' AND income_category IN ('dividends', 'interest')`. -/
def isInvestmentIncome (t : Transaction) : Bool :=
  decide (t.type = .income) &&
    (decide (t.incomeCategory = some .dividends) || decide (t.incomeCategory = some .interest))

/-- The sums of the loop over the sales. -/
structure RealizedTotals where
  realized : ℚ := 0
  soldCost : ℚ := 0
  deriving DecidableEq

/-- The sums of the loop over the income. -/
structure IncomeTotals where
  dividends : ℚ := 0
  interest : ℚ := 0
  deriving DecidableEq

section

variable (provider : RateProvider) (display_currency : Currency)

/-- One purchase, at the rate of its own date. -/
def addInvested (acc : Noted ℚ) (t : Transaction) : Except PnlError (Noted ℚ) := do
  let rate ← lookupRate provider display_currency t.currency t.timestamp "invested_historic"
  .ok (acc.1 + t.totalValue.getD 0 * rate.1, acc.2 ++ rate.2)

def addRealized (rule_key : String) (acc : Noted RealizedTotals) (sale : NativeSale) :
    Except PnlError (Noted RealizedTotals) := do
  let converted ← convertSale provider display_currency sale (saleRule rule_key sale)
  .ok (⟨acc.1.realized + converted.value, acc.1.soldCost + converted.costBasisDisplay⟩,
    acc.2 ++ converted.fallbacks)

/-- One payment of dividends or interest. -/
def addIncome (acc : Noted IncomeTotals) (t : Transaction) : Except PnlError (Noted IncomeTotals) := do
  let scope := if t.incomeCategory = some .dividends then "dividends" else "interest"
  let rate ← lookupRate provider display_currency t.currency t.timestamp scope
  let amount := t.totalValue.getD 0 * rate.1
  .ok (if scope = "dividends" then { acc.1 with dividends := acc.1.dividends + amount }
    else { acc.1 with interest := acc.1.interest + amount }, acc.2 ++ rate.2)

/-- The entry of `rate_cache`, or the 1 of a currency without one. -/
def cachedRate (cur : Currency) : Except PnlError ℚ :=
  if cur = display_currency then .ok 1
  else
    match provider.latest cur display_currency with
    | .ok lookup => .ok lookup.rate
    | .error .noRate => .ok 1
    | .error (.raised e) => .error e

/-- A share of a positive total in percent. -/
def percentOf (part total : ℚ) : ℚ := if 0 < total then part / total * 100 else 0

/-- `get_performance_summary`. -/
def performanceSummary (reads : PerformanceReads) (locale : String) : Except PnlError PerformanceSummary := do
  let rule_key := ruleForLocale locale
  let invested ← reads.investedRows.foldlM (addInvested provider display_currency) (0, [])
  let realized ← reads.sales.foldlM (addRealized provider display_currency rule_key) ({}, [])
  let income ← reads.incomeRows.foldlM (addIncome provider display_currency) ({}, [])
  let _ ← reads.sales.mapM fun sale => cachedRate provider display_currency sale.currency
  let rated ← reads.holdings.mapM fun h =>
    (cachedRate provider display_currency h.currencyCode).map fun rate => (h, rate)
  let total_unrealized := (rated.filterMap fun h => h.1.unrealizedPl.map (· * h.2)).sum
  let total_invested_now := (rated.map fun h => h.1.totalCost * h.2).sum
  let total_portfolio_value := (rated.filterMap fun h => h.1.currentValue.map (· * h.2)).sum
  let total_return := realized.1.realized + income.1.dividends
  let rate_fallbacks ← aggregateRateFallbacks (invested.2 ++ realized.2 ++ income.2)
  .ok
    { displayCurrency := display_currency
      totalRealizedPl := Decimal.roundTo 4 realized.1.realized
      totalUnrealizedPl := Decimal.roundTo 4 total_unrealized
      totalReturn := Decimal.roundTo 4 total_return
      totalInvestedNow := Decimal.roundTo 4 total_invested_now
      totalInvestedHistoric := Decimal.roundTo 4 invested.1
      totalReturnPct := Decimal.roundTo 4 (percentOf total_return invested.1)
      totalPortfolioValue := Decimal.roundTo 4 total_portfolio_value
      unrealizedPlPct := Decimal.roundTo 4 (percentOf total_unrealized total_invested_now)
      realizedPlPct := Decimal.roundTo 4 (percentOf realized.1.realized realized.1.soldCost)
      totalDividends := Decimal.roundTo 4 income.1.dividends
      dividendYieldPct := Decimal.roundTo 4 (percentOf income.1.dividends invested.1)
      totalInterest := Decimal.roundTo 4 income.1.interest
      ruleKey := rule_key
      rateFallbacks := rate_fallbacks }

/-- Interest in the display currency. -/
def interestPayment (amount : ℚ) : Transaction where
  timestamp := 0
  type := .income
  incomeCategory := some .interest
  entityId := 0
  currency := display_currency
  totalValue := some amount

/-- One more interest payment raises the interest by it, and changes nothing else. -/
theorem performanceSummary_income {reads : PerformanceReads} {locale : String} {summary : PerformanceSummary}
    (h : performanceSummary provider display_currency reads locale = .ok summary) (amount : ℚ) :
    ∃ interest, summary.totalInterest = Decimal.roundTo 4 interest ∧
      performanceSummary provider display_currency
        { reads with incomeRows := reads.incomeRows ++ [interestPayment display_currency amount] } locale =
          .ok { summary with totalInterest := Decimal.roundTo 4 (interest + amount) } := by
  unfold performanceSummary at h ⊢
  obtain ⟨invested, hinvested, h⟩ := Runs.bind_eq_ok.mp h
  obtain ⟨realized, hrealized, h⟩ := Runs.bind_eq_ok.mp h
  obtain ⟨income, hincome, h⟩ := Runs.bind_eq_ok.mp h
  obtain ⟨sold, hsold, h⟩ := Runs.bind_eq_ok.mp h
  obtain ⟨rated, hrated, h⟩ := Runs.bind_eq_ok.mp h
  obtain ⟨fallbacks, hfallbacks, h⟩ := Runs.bind_eq_ok.mp h
  cases h
  have hmore : (reads.incomeRows ++ [interestPayment display_currency amount]).foldlM
      (addIncome provider display_currency) ({}, []) =
        .ok ({ income.1 with interest := income.1.interest + amount }, income.2) := by
    rw [List.foldlM_append, hincome]
    simp [interestPayment, addIncome, lookupRate, List.foldlM, bind, Except.bind, pure, Except.pure]
  refine ⟨income.1.interest, rfl, ?_⟩
  simp only [hinvested, hrealized, hmore, hsold, hrated, hfallbacks, bind, Except.bind]

end

end FinHub
