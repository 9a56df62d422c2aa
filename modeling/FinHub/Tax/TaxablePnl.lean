import FinHub.Analytics.Holdings
import FinHub.Lib.Calendar
import FinHub.Rates.Provider
import FinHub.Tax.Engine

/-!
# FinHub.Tax.TaxablePnl

The two tax reports of `services/analytics_svc.py`.

`getTaxablePnl` adds up the taxable gains and dividends of each fiscal year. `getTaxablePnlExtended` runs
a copy of the same loop that also lists the items, and hands them to the tax engine. Both convert
through a rate provider and report the fallbacks of their conversions.

The text of an exemption (`tax_policy`) decides nothing and is left out. Amounts are exact rationals
and dates are day numbers.
-/

namespace FinHub

open Tabular

/-! ## Fiscal years -/

structure FiscalYear where
  label : ℤ
  startDate : ℤ
  endDate : ℤ
  deriving DecidableEq

/-- `FISCAL_YEAR_START`, and the default of its lookup. -/
def fiscalYearStart (ruleset : String) : ℤ × ℤ :=
  ([("spain", (1, 1)), ("japan", (1, 1)), ("default", (1, 1)), ("latest", (1, 1)), ("none", (1, 1))].lookup
    ruleset).getD (1, 1)

/-- `date(year, month, day)`. -/
def dayNumberOf (year month day : ℤ) : ℤ :=
  Calendar.daysBeforeYear year + Calendar.daysBeforeMonth year month + day - 719163

/-- `fiscal_year_bounds`. No `date` is later than the year 9999. -/
def fiscalYearBounds (at_ : Timestamp) (start : ℤ × ℤ) : Except PnlError FiscalYear :=
  let (year, month, day) := Time.civil (Time.dayOf at_)
  let label := if start.1 < month ∨ start.1 = month ∧ start.2 ≤ day then year else year - 1
  if 9999 < label + 1 then .error .valueError
  else .ok ⟨label, dayNumberOf label start.1 start.2, dayNumberOf (label + 1) start.1 start.2 - 1⟩

/-! ## What the reports read -/

/-- A row of `get_dividend_transactions`. -/
structure DividendRow where
  id : ℕ
  timestamp : Timestamp
  paymentDate : Option ℤ
  currency : Currency
  totalValue : Option ℚ
  fiscalExemptionId : Option ℕ
  marketCode : Option String
  ticker : Option String
  assetName : Option String
  entityName : String
  deriving DecidableEq

namespace DividendRow

/-- `payment_date or timestamp`. -/
def at_ (d : DividendRow) : Timestamp :=
  match d.paymentDate with
  | some day => Time.startOfDay day
  | none => d.timestamp

/-- `total_value or 0.0`. -/
def amount (d : DividendRow) : ℚ := d.totalValue.getD 0

end DividendRow

namespace Ledger

variable (s : Ledger) (m : Market)

/-- A dividend with its asset, where it has one, and its entity. -/
def toDividendRow (r : ℕ × Transaction) : Option DividendRow :=
  if r.2.incomeCategory = some .dividends then
    (s.entities.get? r.2.entityId).map fun e =>
      let pa := r.2.portfolioAssetId.bind s.getPortfolioAsset
      let ma := pa.bind fun pa => m.getAsset pa.marketCode
      { id := r.1, timestamp := r.2.timestamp, paymentDate := r.2.paymentDate, currency := r.2.currency
        totalValue := r.2.totalValue, fiscalExemptionId := r.2.fiscalExemptionId
        marketCode := pa.map PortfolioAsset.marketCode, ticker := ma.bind MarketAsset.ticker
        assetName := ma.bind MarketAsset.name, entityName := e.name }
  else none

/-- `ORDER BY timestamp, id`. -/
def getDividendTransactions : List DividendRow :=
  (s.transactions.rows.filterMap (s.toDividendRow m)).insertionSort fun a b =>
    a.timestamp < b.timestamp ∨ a.timestamp = b.timestamp ∧ a.id ≤ b.id

end Ledger

/-- A row of `tax_bases` with its version. -/
structure TaxBaseRow extends TaxBase where
  id : ℕ
  yearStart : Option ℤ := none
  deriving DecidableEq

/-- The tax catalog: the bases with their categories and rates, and the definitions. -/
structure TaxCatalog where
  bases : List TaxBaseRow
  categories : ℕ → List TaxCategory
  rates : ℕ → List TaxBand
  definitions : List TaxDefinition

namespace TaxCatalog

/-- The order of versions: a dated one before the default, a later one before an earlier. -/
def versionOrder (b : TaxBaseRow) : ℕ ×ₗ ℤ :=
  match b.yearStart with
  | some year => toLex (1, year)
  | none => toLex (0, 0)

/-- `resolve_tax_base`. -/
def resolveTaxBase (c : TaxCatalog) (ruleset_key : String) (year : ℤ) : Option TaxBaseRow :=
  (c.bases.filter fun b => decide (b.rulesetKey = ruleset_key) &&
    b.yearStart.all fun y => decide (y ≤ year)).argmax versionOrder

/-- `get_base_categories` and `get_base_rates` of a year that has a base. -/
def categoriesOf (c : TaxCatalog) (base : Option TaxBaseRow) : List TaxCategory :=
  match base with
  | some b => c.categories b.id
  | none => []

def ratesOf (c : TaxCatalog) (base : Option TaxBaseRow) : List TaxBand :=
  match base with
  | some b => c.rates b.id
  | none => []

end TaxCatalog

/-! ## Fallbacks in the response -/

structure PerformanceRateFallback where
  currency : Currency
  scope : String
  reason : String
  requestedDate : Option ℤ
  usedTimestamp : Option IsoStamp
  count : ℕ
  deriving DecidableEq

/-- `Literal["realized_pl", "invested_historic", "dividends", "interest"]`. -/
def fallbackScopes : List String := ["realized_pl", "invested_historic", "dividends", "interest"]

/-- One group of equal entries. A scope the response does not know fails its validation. -/
def toPerformanceRateFallback (entries : List RateFallbackInfo) (first : RateFallbackInfo) :
    Except PnlError PerformanceRateFallback :=
  if first.scope ∈ fallbackScopes then
    .ok ⟨first.currency, first.scope, first.reason, first.requestedDate, first.usedTimestamp,
      entries.count first⟩
  else .error (.validationError first.scope)

/-- `_aggregate_rate_fallbacks`. -/
def aggregateRateFallbacks (entries : List RateFallbackInfo) :
    Except PnlError (List PerformanceRateFallback) :=
  entries.eraseDups.mapM (toPerformanceRateFallback entries)

/-! ## Items and years -/

structure TaxablePnlItem where
  transactionId : ℕ
  marketCode : Option String
  ticker : Option String
  name : Option String
  category : TaxCategory
  date : Timestamp
  nativeAmount : ℚ
  displayAmount : ℚ
  taxableAmount : ℚ
  taxOwed : Option ℚ := none
  fiscalRule : String
  currency : Currency
  taxes : List TaxDefinitionResult := []
  deriving DecidableEq

/-- A year while the loops run; the first report keeps no items. -/
structure YearBucket where
  fiscalYear : ℤ
  startDate : ℤ
  endDate : ℤ
  realizedGainsTaxable : ℚ := 0
  dividendsTaxable : ℚ := 0
  numSells : ℕ := 0
  numDividends : ℕ := 0
  items : List TaxablePnlItem := []
  deriving DecidableEq

/-- The dictionary of years with the fallbacks noted so far. -/
abbrev ReportState : Type := List YearBucket × List RateFallbackInfo

/-- `_year_bucket` and what is done to the bucket. -/
def updateBucket (fy : FiscalYear) (f : YearBucket → YearBucket) : List YearBucket → List YearBucket
  | [] => [f { fiscalYear := fy.label, startDate := fy.startDate, endDate := fy.endDate }]
  | b :: bs => if b.fiscalYear = fy.label then f b :: bs else b :: updateBucket fy f bs

structure TaxablePnlFiscalYear where
  fiscalYear : ℤ
  startDate : ℤ
  endDate : ℤ
  realizedGainsTaxable : ℚ
  dividendsTaxable : ℚ
  totalTaxable : ℚ
  numSells : ℕ
  numDividends : ℕ
  deriving DecidableEq

/-- The sums of a year, rounded, and the rounded sum of the rounded ones. -/
def YearBucket.summary (b : YearBucket) : TaxablePnlFiscalYear where
  fiscalYear := b.fiscalYear
  startDate := b.startDate
  endDate := b.endDate
  realizedGainsTaxable := Decimal.roundTo 4 b.realizedGainsTaxable
  dividendsTaxable := Decimal.roundTo 4 b.dividendsTaxable
  totalTaxable :=
    Decimal.roundTo 4 (Decimal.roundTo 4 b.realizedGainsTaxable + Decimal.roundTo 4 b.dividendsTaxable)
  numSells := b.numSells
  numDividends := b.numDividends

/-- `sorted(fiscal_years)`. -/
def sortedYears (buckets : List YearBucket) : List YearBucket :=
  buckets.insertionSort fun a b => a.fiscalYear ≤ b.fiscalYear

structure TaxablePnlSummary where
  ruleset : String
  displayCurrency : Currency
  fiscalYears : List TaxablePnlFiscalYear
  totalTaxable : ℚ
  rateFallbacks : List PerformanceRateFallback
  deriving DecidableEq

structure TaxablePnlFiscalYearExtended extends TaxablePnlFiscalYear where
  taxOwed : Tally TaxCategory
  totalTaxOwed : Option ℚ
  confirmed : Tally TaxCategory
  totalConfirmed : ℚ
  items : List TaxablePnlItem
  deriving DecidableEq

structure TaxablePnlSummaryExtended where
  ruleset : String
  displayCurrency : Currency
  fiscalYears : List TaxablePnlFiscalYearExtended
  totalTaxable : ℚ
  totalTaxOwed : Option ℚ
  totalConfirmed : Option ℚ
  combinedBase : Option ℚ
  rateFallbacks : List PerformanceRateFallback
  defaultRuleset : Option String
  deriving DecidableEq

/-- Python's `value or default` on texts. -/
def textOr (value : Option String) (default_ : String) : String :=
  (value.filter fun v => decide (v ≠ "")).getD default_

/-- `ruleset or rule_for_locale(locale)`. -/
def resolvedRuleset (locale ruleset : String) : String :=
  if ruleset ≠ "" then ruleset else ruleForLocale locale

/-! ## The loops -/

section Loops

variable (provider : RateProvider) (display_currency : Currency)

/-- `_apply_exemption`. -/
def applyExemption (gross : ℚ) (exemption : FiscalExemption) (currency : Currency) (at_ : Timestamp)
    (scope : String) : Except PnlError (Noted ℚ) :=
  if gross ≤ 0 then .ok (gross, [])
  else do
    let rate_exempt := gross * (exemption.exemptionRate / 100)
    let rate_exempt := match exemption.exemptionRateLimit with
      | some limit => min rate_exempt limit
      | none => rate_exempt
    let fixed ←
      if exemption.exemptionAmount ≠ 0 then
        (lookupRate provider display_currency currency at_ scope).map fun rate =>
          (exemption.exemptionAmount * rate.1, rate.2)
      else .ok (exemption.exemptionAmount, [])
    .ok (gross - min gross (rate_exempt + fixed.1), fixed.2)

/-- A value after the exemption that is linked to it, if there is one. -/
def exempted (exemption : Option FiscalExemption) (taxable : Noted ℚ) (currency : Currency)
    (at_ : Timestamp) (scope : String) : Except PnlError (Noted ℚ) :=
  match exemption with
  | some exemption => do
    let reduced ← applyExemption provider display_currency taxable.1 exemption currency at_ scope
    .ok (reduced.1, taxable.2 ++ reduced.2)
  | none => .ok taxable

variable (s : Ledger) (resolved_ruleset : String)

/-- `sale.fiscal_rule or resolved_ruleset`. -/
def saleRule (sale : NativeSale) : String := textOr sale.fiscalRule resolved_ruleset

/-- The taxable part of a sale. -/
def saleTaxable (sale : NativeSale) : Except PnlError (Noted ℚ) := do
  let converted ← convertSale provider display_currency sale (saleRule resolved_ruleset sale)
  exempted provider display_currency (sale.fiscalExemptionId.bind s.getFiscalExemption)
    (converted.value, converted.fallbacks) sale.currency sale.sellDate "realized_pl"

/-- The taxable part of a dividend. -/
def dividendTaxable (div : DividendRow) : Except PnlError (Noted ℚ) := do
  let converted ← convertDividend provider display_currency div.amount div.currency div.at_
  exempted provider display_currency (div.fiscalExemptionId.bind s.getFiscalExemption) converted
    div.currency div.at_ "dividends"

/-- One sale in `get_taxable_pnl`. -/
def addSale (st : ReportState) (sale : NativeSale) : Except PnlError ReportState := do
  let taxable ← saleTaxable provider display_currency s resolved_ruleset sale
  let fy ← fiscalYearBounds sale.sellDate (fiscalYearStart resolved_ruleset)
  .ok (updateBucket fy (fun b =>
    { b with
      realizedGainsTaxable := b.realizedGainsTaxable + taxable.1
      numSells := b.numSells + 1 }) st.1, st.2 ++ taxable.2)

/-- One dividend in `get_taxable_pnl`. -/
def addDividend (st : ReportState) (div : DividendRow) : Except PnlError ReportState := do
  let taxable ← dividendTaxable provider display_currency s div
  let fy ← fiscalYearBounds div.at_ (fiscalYearStart resolved_ruleset)
  .ok (updateBucket fy (fun b =>
    { b with
      dividendsTaxable := b.dividendsTaxable + taxable.1
      numDividends := b.numDividends + 1 }) st.1, st.2 ++ taxable.2)

/-- The item of a sale; `rate` is looked up for its display amount only. -/
def saleItem (sale : NativeSale) (taxable rate : ℚ) : TaxablePnlItem where
  transactionId := sale.transactionId
  marketCode := sale.marketCode
  ticker := sale.ticker
  name := sale.name
  category := .capitalGains
  date := sale.sellDate
  nativeAmount := sale.sellTotal - sale.costBasis
  displayAmount := Decimal.roundTo 4 ((sale.sellTotal - sale.costBasis) * rate)
  taxableAmount := Decimal.roundTo 4 taxable
  fiscalRule := saleRule resolved_ruleset sale
  currency := sale.currency

/-- One sale in `get_taxable_pnl_extended`. -/
def addSaleItem (st : ReportState) (sale : NativeSale) : Except PnlError ReportState := do
  let taxable ← saleTaxable provider display_currency s resolved_ruleset sale
  let fy ← fiscalYearBounds sale.sellDate (fiscalYearStart resolved_ruleset)
  let rate ← lookupRate provider display_currency sale.currency sale.sellDate "realized_pl"
  .ok (updateBucket fy (fun b =>
    { b with
      realizedGainsTaxable := b.realizedGainsTaxable + taxable.1
      numSells := b.numSells + 1
      items := b.items ++ [saleItem resolved_ruleset sale taxable.1 rate.1] }) st.1,
    st.2 ++ taxable.2 ++ rate.2)

/-- The rule of a dividend, resolved when the report is made: the date of the payment goes into a
lookup that takes an instant. -/
def dividendRule (div : DividendRow) : String :=
  textOr (s.resolveFiscalRule (Time.startOfDay (Time.dayOf div.at_))) resolved_ruleset

def dividendItem (div : DividendRow) (taxable display_amount : ℚ) : TaxablePnlItem where
  transactionId := div.id
  marketCode := div.marketCode
  ticker := div.ticker
  name := textOr div.assetName div.entityName
  category := .dividends
  date := div.at_
  nativeAmount := div.amount
  displayAmount := Decimal.roundTo 4 display_amount
  taxableAmount := Decimal.roundTo 4 taxable
  fiscalRule := dividendRule s resolved_ruleset div
  currency := div.currency

/-- One dividend in `get_taxable_pnl_extended`. -/
def addDividendItem (st : ReportState) (div : DividendRow) : Except PnlError ReportState := do
  let taxable ← dividendTaxable provider display_currency s div
  let fy ← fiscalYearBounds div.at_ (fiscalYearStart resolved_ruleset)
  let display_amount ← convertDividend provider display_currency div.amount div.currency div.at_
  .ok (updateBucket fy (fun b =>
    { b with
      dividendsTaxable := b.dividendsTaxable + taxable.1
      numDividends := b.numDividends + 1
      items := b.items ++ [dividendItem s resolved_ruleset div taxable.1 display_amount.1] }) st.1,
    st.2 ++ taxable.2 ++ display_amount.2)

end Loops

/-! ## The first report -/

/-- `get_taxable_pnl`. -/
def getTaxablePnl (provider : RateProvider) (s : Ledger) (m : Market) (display_currency : Currency)
    (locale ruleset : String) : Except PnlError TaxablePnlSummary := do
  let resolved_ruleset := resolvedRuleset locale ruleset
  let st ← (computeFifo (s.getBuySellTransactions m)).sales.foldlM
    (addSale provider display_currency s resolved_ruleset) ([], [])
  let st ← (s.getDividendTransactions m).foldlM
    (addDividend provider display_currency s resolved_ruleset) st
  let years := (sortedYears st.1).map YearBucket.summary
  let rate_fallbacks ← aggregateRateFallbacks st.2
  .ok
    { ruleset := resolved_ruleset
      displayCurrency := display_currency
      fiscalYears := years
      totalTaxable := Decimal.roundTo 4 (years.map TaxablePnlFiscalYear.totalTaxable).sum
      rateFallbacks := rate_fallbacks }

/-! ## The tax engine in the second report -/

/-- A call of `_convert_tax`; a confirmed row may have no amount. -/
structure TaxConversion where
  amount : Option ℚ
  currency : Currency
  at_ : Timestamp
  deriving DecidableEq

/-- `_item_to_engine`. -/
def TaxablePnlItem.toEngine (resolved_ruleset : String) (item : TaxablePnlItem) : TaxItem where
  transactionId := item.transactionId
  category := item.category
  timestamp := item.date
  taxableAmount := item.taxableAmount
  nativeAmount := item.nativeAmount
  fiscalRule := textOr (some item.fiscalRule) resolved_ruleset
  currency := item.currency

section Closing

variable (provider : RateProvider) (display_currency : Currency) (resolved_ruleset : String)
  (catalog : TaxCatalog) (confirmed : ConfirmedMap)

/-- `_convert_tax` with what it notes. The rate is looked up before the amount is multiplied. -/
def convertTax (notes : List RateFallbackInfo) (c : TaxConversion) :
    Except PnlError (List RateFallbackInfo) := do
  let rate ← lookupRate provider display_currency c.currency c.at_ "tax_withholding"
  match c.amount with
  | some _ => .ok (notes ++ rate.2)
  | none => .error .typeError

/-- The value of a conversion. -/
def taxConvert : Convert := fun amount currency at_ =>
  match lookupRate provider display_currency currency at_ "tax_withholding" with
  | .ok rate => amount * rate.1
  | .error _ => 0

/-- The conversions of a confirmed amount, item by item. -/
def confirmedConversions (items : List TaxItem) : List TaxConversion :=
  items.flatMap fun item =>
    (TaxEngine.resolveItemTaxes catalog.definitions confirmed item).filterMap fun t =>
      t.confirmed.map fun amount =>
        let currency := match confirmed (item.transactionId, t.taxDefinitionId) with
          | some crate => crate.currency
          | none => item.currency
        ⟨some amount, currency, item.timestamp⟩

/-- The conversions of the withholding, under a progressive base. -/
def withholdingConversions (base : Option TaxBaseRow) (items : List TaxItem) : List TaxConversion :=
  match base with
  | some base =>
    match base.computation with
    | .progressive =>
      (TaxEngine.genericRows base.toTaxBase catalog.definitions confirmed
        (TaxEngine.inBase items (catalog.categories base.id))).map fun r =>
          ⟨r.2.taxAmount, r.2.currency, r.1.timestamp⟩
    | .flat => []
  | none => []

/-- The calls of `_convert_tax` in `compute_fiscal_year`, in their order. -/
def taxConversions (base : Option TaxBaseRow) (items : List TaxItem) : List TaxConversion :=
  confirmedConversions catalog confirmed items ++ withholdingConversions catalog confirmed base items

/-- A year after the engine, with what the totals need of it. -/
structure ClosedYear where
  year : TaxablePnlFiscalYearExtended
  hasBase : Bool
  result : FiscalYearTaxResult

/-- An item with its taxes filled in. -/
def TaxablePnlItem.withTaxes (result : FiscalYearTaxResult) (has_base : Bool) (item : TaxablePnlItem) :
    TaxablePnlItem :=
  let entry := ((result.perItem.reverse.find? fun r => r.transactionId == item.transactionId).getD
    { transactionId := item.transactionId, category := item.category, taxOwed := 0 })
  { item with
    taxOwed := if has_base then some entry.taxOwed else none
    taxes := entry.taxes }

/-- The second loop over a year. -/
def closeYear (b : YearBucket) : Except PnlError (Noted ClosedYear) := do
  let base_row := catalog.resolveTaxBase resolved_ruleset b.fiscalYear
  let items := b.items.map (TaxablePnlItem.toEngine resolved_ruleset)
  let notes ← (taxConversions catalog confirmed base_row items).foldlM
    (convertTax provider display_currency) []
  match TaxEngine.computeFiscalYear items (catalog.categoriesOf base_row) (catalog.ratesOf base_row)
      catalog.definitions confirmed (taxConvert provider display_currency)
      (base_row.map TaxBaseRow.toTaxBase) with
  | none => .error .typeError
  | some result =>
    .ok (
      { year :=
          { toTaxablePnlFiscalYear := b.summary
            taxOwed := result.taxOwed
            totalTaxOwed := if base_row.isSome then some result.totalTaxOwed else none
            confirmed := result.confirmed
            totalConfirmed := Decimal.roundTo 4 result.totalConfirmed
            items := (b.items.map (TaxablePnlItem.withTaxes result base_row.isSome)).insertionSort
              fun a b => a.date ≤ b.date }
        hasBase := base_row.isSome
        result := result }, notes)

end Closing

/-! ## The second report -/

/-- `get_taxable_pnl_extended`. `default_fiscal_rule` is the column of the first profile of the
database. -/
def getTaxablePnlExtended (provider : RateProvider) (s : Ledger) (m : Market) (catalog : TaxCatalog)
    (default_fiscal_rule : Option String) (display_currency : Currency) (locale ruleset : String) :
    Except PnlError TaxablePnlSummaryExtended := do
  let resolved_ruleset := resolvedRuleset locale ruleset
  let confirmed := TaxEngine.getConfirmedTaxMap (s.taxes.rows.map Prod.snd)
  let st ← (computeFifo (s.getBuySellTransactions m)).sales.foldlM
    (addSaleItem provider display_currency s resolved_ruleset) ([], [])
  let st ← (s.getDividendTransactions m).foldlM
    (addDividendItem provider display_currency s resolved_ruleset) st
  let closed ← (sortedYears st.1).mapM
    (closeYear provider display_currency resolved_ruleset catalog confirmed)
  let results := closed.map fun c => c.1.result
  let combined_base := (results.filterMap FiscalYearTaxResult.combinedBase).sum
  let rate_fallbacks ← aggregateRateFallbacks (st.2 ++ closed.flatMap Prod.snd)
  .ok
    { ruleset := resolved_ruleset
      displayCurrency := display_currency
      fiscalYears := closed.map fun c => c.1.year
      totalTaxable := Decimal.roundTo 4 (closed.map fun c => c.1.year.totalTaxable).sum
      totalTaxOwed :=
        if closed.any fun c => c.1.hasBase then
          some (Decimal.roundTo 4 (results.map FiscalYearTaxResult.totalTaxOwed).sum)
        else none
      totalConfirmed :=
        if results.any fun r => decide (0 < r.totalConfirmed) then
          some (Decimal.roundTo 4 (results.map FiscalYearTaxResult.totalConfirmed).sum)
        else none
      combinedBase := if combined_base ≠ 0 then some (Decimal.roundTo 4 combined_base) else none
      rateFallbacks := rate_fallbacks
      defaultRuleset := default_fiscal_rule.filter fun v => decide (v ≠ "") }

end FinHub
