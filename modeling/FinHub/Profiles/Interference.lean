import FinHub.Analytics.Performance
import FinHub.Analytics.ValueChart
import FinHub.Profiles.Deletes
import FinHub.Profiles.Reads

/-!
# FinHub.Profiles.Interference

What the reads under a profile take from the rows of others.

The performance summary and the value chart have statements of their own without the profile clause, and
the second tax report takes the default rule of the first profile there is. `isolation_of_reads` says when
the reads are isolated from other profiles and when they are not.
-/

namespace FinHub

open Tabular

/-! ## Reads with statements of their own -/

namespace Store

variable (s : Store) (z : Zones) (profile_id : ℕ)

/-- The rows of all profiles that a statement over `transactions` keeps. -/
def allTransactions (keep : Transaction → Bool) : List Transaction :=
  ((scopedRows s.transactions none).map Prod.snd).filter keep

def performanceReads : PerformanceReads where
  holdings := s.getHoldings z profile_id
  investedRows := s.allTransactions isInvested
  sales := (computeFifo ((s.joined z profile_id).getBuySellTransactions (s.market profile_id))).sales
  incomeRows := s.allTransactions isInvestmentIncome

def getPerformanceSummary (display_currency : Currency) (locale : String) : Except PnlError PerformanceSummary :=
  performanceSummary (s.rateProvider z profile_id) display_currency (s.performanceReads z profile_id) locale

/-- An asset by its id, whosever it is. -/
def anyAsset (id : ℕ) : Option PortfolioAsset := (scopedTable s.portfolioAssets none).get? id

/-- A purchase with a unit price, joined with its asset. -/
def toPricedBuy (r : ℕ × Transaction) : Option PricedBuy :=
  if r.2.type = .investmentBuy then do
    let aid ← r.2.portfolioAssetId
    let pa ← s.anyAsset aid
    let unit_price ← r.2.unitPrice
    some ⟨aid, pa.marketCode, r.2.timestamp, unit_price⟩
  else none

/-- `ORDER BY portfolio_asset_id, timestamp`. -/
def sortBuys (buys : List PricedBuy) : List PricedBuy :=
  buys.insertionSort fun a b => a.portfolioAssetId < b.portfolioAssetId ∨
    a.portfolioAssetId = b.portfolioAssetId ∧ a.timestamp ≤ b.timestamp

/-- A purchase or sale with a quantity, of an asset under the market code. -/
def toChartTrade (market_code : String) (r : ℕ × Transaction) : Option ChartTrade :=
  if r.2.type = .investmentBuy ∨ r.2.type = .investmentSell then do
    let aid ← r.2.portfolioAssetId
    let pa ← s.anyAsset aid
    let quantity ← r.2.quantity
    if pa.marketCode = market_code then some ⟨decide (r.2.type = .investmentBuy), r.2.timestamp, quantity⟩
    else none
  else none

/-- An asset joined with its market asset. -/
def toChartAsset (r : ℕ × PortfolioAsset) : Option ChartAsset :=
  (s.getMarketAsset r.2.marketCode).map fun ma => ⟨r.2.marketCode, ma.currencyCode⟩

def sortAssets (assets : List ChartAsset) : List ChartAsset :=
  assets.insertionSort fun a b => a.marketCode ≤ b.marketCode

def chartReads : ChartReads where
  earliest := (((scopedRows s.transactions none).map fun r => r.2.timestamp) ++ s.prices.map Price.timestamp).min?
  prices := s.prices
  assets := sortAssets ((scopedRows s.portfolioAssets none).filterMap s.toChartAsset)
  stockSplits := s.stockSplits
  detectRows := sortBuys ((((scopedRows s.transactions (some profile_id)).filter fun r =>
    r.2.quantity.isSome)).filterMap s.toPricedBuy)
  allBuyTxs := sortBuys ((scopedRows s.transactions none).filterMap s.toPricedBuy)
  allTxs market_code := ((scopedRows s.transactions none).filterMap (s.toChartTrade market_code)).insertionSort
    fun a b => a.timestamp ≤ b.timestamp
  netPositions cutoff := (s.joined z profile_id).getNetPositionsAsOf (s.market profile_id) cutoff none true
  manualTrackedAssets := (s.own z profile_id).getManualTrackedAssets (s.market profile_id)
  manualValueAsOf id d := ((s.market profile_id).getManualValueAsOf id d).map ManualValue.value
  getRate cur display := ((s.own z profile_id).rateResponse cur display none).toOption.map Prod.fst

def portfolioValueChart (c : ChartCall) : Except HistoryError PortfolioValueChartResponse :=
  (s.chartReads z profile_id).chart c

end Store

/-! ## Calls -/

/-- A read under the active profile. -/
inductive ReadCall where
  | holdings
  | performanceSummary (display_currency : Currency) (locale : String)
  | taxablePnl (display_currency : Currency) (locale ruleset : String)
  | taxablePnlExtended (display_currency : Currency) (locale ruleset : String)
  | historicalValues (c : HistoricalCall)
  | valueChart (c : ChartCall)

inductive ReadAnswer where
  | holdings (answer : List HoldingLine)
  | performanceSummary (answer : Except PnlError PerformanceSummary)
  | taxablePnl (answer : Except PnlError TaxablePnlSummary)
  | taxablePnlExtended (answer : Except PnlError TaxablePnlSummaryExtended)
  | historicalValues (answer : Except HistoryError (List HistoricalValuePoint))
  | valueChart (answer : Except HistoryError PortfolioValueChartResponse)

def Store.answer (s : Store) (z : Zones) (catalog : TaxCatalog) (profile_id : ℕ) : ReadCall → ReadAnswer
  | .holdings => .holdings (s.getHoldings z profile_id)
  | .performanceSummary display_currency locale =>
    .performanceSummary (s.getPerformanceSummary z profile_id display_currency locale)
  | .taxablePnl display_currency locale ruleset =>
    .taxablePnl (s.getTaxablePnl z profile_id display_currency locale ruleset)
  | .taxablePnlExtended display_currency locale ruleset =>
    .taxablePnlExtended (s.getTaxablePnlExtended z profile_id catalog display_currency locale ruleset)
  | .historicalValues c => .historicalValues (s.getHistoricalValues z profile_id c)
  | .valueChart c => .valueChart (s.portfolioValueChart z profile_id c)

/-! ## The same rows everywhere -/

/-- What the statements without a clause read of other profiles is the same. -/
structure SameUnscoped (s s' : Store) : Prop where
  transactions : scopedRows s'.transactions none = scopedRows s.transactions none
  portfolioAssets : scopedRows s'.portfolioAssets none = scopedRows s.portfolioAssets none
  entities : scopedRows s'.entities none = scopedRows s.entities none
  firstDefaultRule : s'.firstDefaultRule = s.firstDefaultRule

section

variable {s s' : Store} {profile_id : ℕ}

theorem SameFor.rateProvider_eq (h : SameFor profile_id s s') (z : Zones) :
    s'.rateProvider z profile_id = s.rateProvider z profile_id := by
  unfold Store.rateProvider
  rw [h.own_eq]

theorem SameUnscoped.answer_eq (hunscoped : SameUnscoped s s') (h : SameFor profile_id s s') (z : Zones)
    (catalog : TaxCatalog) (call : ReadCall) :
    s'.answer z catalog profile_id call = s.answer z catalog profile_id call := by
  have hown := h.own_eq z
  have hmarket := h.market_eq
  have hrates := h.rateProvider_eq z
  have hjoined : s'.joined z profile_id = s.joined z profile_id :=
    h.ledger_eq z _ h.transactions hunscoped.portfolioAssets hunscoped.entities
  have hattached : s'.attached z profile_id = s.attached z profile_id :=
    h.ledger_eq z _ hunscoped.transactions h.portfolioAssets h.entities
  have hholdings : s'.getHoldings z profile_id = s.getHoldings z profile_id := by
    unfold Store.getHoldings
    rw [hjoined, hattached, hmarket]
  cases call with
  | holdings => exact congrArg ReadAnswer.holdings hholdings
  | performanceSummary display_currency locale =>
    unfold Store.answer Store.getPerformanceSummary Store.performanceReads Store.allTransactions
    rw [hrates, hholdings, hjoined, hmarket, hunscoped.transactions]
  | taxablePnl display_currency locale ruleset =>
    unfold Store.answer Store.getTaxablePnl
    rw [hrates, hjoined, hmarket]
  | taxablePnlExtended display_currency locale ruleset =>
    unfold Store.answer Store.getTaxablePnlExtended
    rw [hrates, hjoined, hmarket, hunscoped.firstDefaultRule]
  | historicalValues c =>
    unfold Store.answer Store.getHistoricalValues Store.valuationReads Store.cashAsOf Store.getBalanceAtDate
      Store.computeFeeCashOutAt
    rw [hjoined, hattached, hown, hmarket]
  | valueChart c =>
    have hasset : s'.anyAsset = s.anyAsset := by
      unfold Store.anyAsset
      rw [scopedTable_congr hunscoped.portfolioAssets rfl]
    have hbuy : s'.toPricedBuy = s.toPricedBuy := by
      unfold Store.toPricedBuy
      rw [hasset]
    have htrade : s'.toChartTrade = s.toChartTrade := by
      unfold Store.toChartTrade
      rw [hasset]
    have hchartAsset : s'.toChartAsset = s.toChartAsset := by
      unfold Store.toChartAsset Store.getMarketAsset
      rw [h.marketAssets]
    unfold Store.answer Store.portfolioValueChart Store.chartReads
    rw [hjoined, hown, hmarket, hbuy, htrade, hchartAsset, hunscoped.transactions, hunscoped.portfolioAssets,
      h.transactions, h.prices, h.stockSplits]

end

/-! ## Separated profiles -/

section

variable {s s' : Store} {profile_id : ℕ}

theorem SameFor.getHoldings_eq (h : SameFor profile_id s s') (hs : Separated s profile_id)
    (hs' : Separated s' profile_id) (z : Zones) : s'.getHoldings z profile_id = s.getHoldings z profile_id := by
  rw [hs'.getHoldings_eq, hs.getHoldings_eq, h.own_eq, h.market_eq]

theorem SameFor.getTaxablePnl_eq (h : SameFor profile_id s s') (hs : Separated s profile_id)
    (hs' : Separated s' profile_id) (z : Zones) (display_currency : Currency) (locale ruleset : String) :
    s'.getTaxablePnl z profile_id display_currency locale ruleset =
      s.getTaxablePnl z profile_id display_currency locale ruleset := by
  rw [hs'.getTaxablePnl_eq, hs.getTaxablePnl_eq, h.own_eq, h.market_eq, h.rateProvider_eq]

theorem SameFor.getHistoricalValues_eq (h : SameFor profile_id s s') (hs : Separated s profile_id)
    (hs' : Separated s' profile_id) (z : Zones) (c : HistoricalCall) :
    s'.getHistoricalValues z profile_id c = s.getHistoricalValues z profile_id c := by
  rw [hs'.getHistoricalValues_eq, hs.getHistoricalValues_eq, h.own_eq, h.market_eq]

/-- The default rule as the second report shows it. -/
def shownDefault (rule : Option String) : Option String := rule.filter fun v => decide (v ≠ "")

/-- The second report shows the default rule, and is otherwise independent of it. -/
theorem getTaxablePnlExtended_default {provider : RateProvider} {l : Ledger} {m : Market} {catalog : TaxCatalog}
    {rule : Option String} {display_currency : Currency} {locale ruleset : String}
    {report : TaxablePnlSummaryExtended}
    (h : FinHub.getTaxablePnlExtended provider l m catalog rule display_currency locale ruleset = .ok report)
    (rule' : Option String) : report.defaultRuleset = shownDefault rule ∧
      FinHub.getTaxablePnlExtended provider l m catalog rule' display_currency locale ruleset =
        .ok { report with defaultRuleset := shownDefault rule' } := by
  unfold FinHub.getTaxablePnlExtended at h ⊢
  obtain ⟨sales, hsales, h⟩ := Runs.bind_eq_ok.mp h
  obtain ⟨dividends, hdividends, h⟩ := Runs.bind_eq_ok.mp h
  obtain ⟨closed, hclosed, h⟩ := Runs.bind_eq_ok.mp h
  obtain ⟨fallbacks, hfallbacks, h⟩ := Runs.bind_eq_ok.mp h
  cases h
  refine ⟨rfl, ?_⟩
  simp only [hsales, hdividends, hclosed, hfallbacks, bind, Except.bind]
  rfl

/-- It is the same exactly if the first profiles show the same default rule. -/
theorem SameFor.getTaxablePnlExtended_eq_iff (h : SameFor profile_id s s') (hs : Separated s profile_id)
    (hs' : Separated s' profile_id) {z : Zones} {catalog : TaxCatalog} {display_currency : Currency}
    {locale ruleset : String} {report : TaxablePnlSummaryExtended}
    (hreport : s.getTaxablePnlExtended z profile_id catalog display_currency locale ruleset = .ok report) :
    s'.getTaxablePnlExtended z profile_id catalog display_currency locale ruleset = .ok report ↔
      shownDefault s'.firstDefaultRule = shownDefault s.firstDefaultRule := by
  rw [hs.getTaxablePnlExtended_eq] at hreport
  rw [hs'.getTaxablePnlExtended_eq, h.own_eq, h.market_eq, h.rateProvider_eq]
  obtain ⟨hshown, hother⟩ := getTaxablePnlExtended_default hreport s'.firstDefaultRule
  rw [hother]
  constructor
  · intro he
    have hdefault := congrArg TaxablePnlSummaryExtended.defaultRuleset (Except.ok.inj he)
    exact hdefault.trans hshown
  · intro he
    rw [he, ← hshown]

end

/-! ## A payment of another profile -/

section

variable {s : Store} {profile_id q : ℕ}

/-- One more row under an owner. -/
def Store.withTransaction (s : Store) (o : Owned Transaction) : Store :=
  { s with transactions := s.transactions.insert o }

theorem scopedRows_insert_none {α : Type} (t : Table (Owned α)) (o : Owned α) :
    scopedRows (t.insert o) none = scopedRows t none ++ [(t.next, o.row)] := by
  unfold scopedRows
  rw [show (t.insert o).rows = t.rows ++ [(t.next, o)] from rfl, List.filter_append, List.map_append]
  rfl

/-- A row of another profile is out of scope. -/
theorem scopedRows_insert_some {α : Type} (t : Table (Owned α)) {o : Owned α} {p : ℕ}
    (ho : o.profileId ≠ some p) : scopedRows (t.insert o) (some p) = scopedRows t (some p) := by
  unfold scopedRows
  rw [show (t.insert o).rows = t.rows ++ [(t.next, o)] from rfl, List.filter_append, List.map_append]
  simp [Owned.inScope, ho]

theorem sameFor_withTransaction (hq : q ≠ profile_id) (t : Transaction) :
    SameFor profile_id s (s.withTransaction ⟨some q, t⟩) := by
  constructor <;> try rfl
  exact scopedRows_insert_some _ (by simpa using hq)

/-- A payment that is of no asset leaves the holdings. -/
theorem getHoldings_withTransaction (hq : q ≠ profile_id) {t : Transaction} (ht : t.portfolioAssetId = none)
    (z : Zones) : (s.withTransaction ⟨some q, t⟩).getHoldings z profile_id = s.getHoldings z profile_id := by
  have hsame := sameFor_withTransaction (s := s) hq t
  have hjoined : (s.withTransaction ⟨some q, t⟩).joined z profile_id = s.joined z profile_id :=
    hsame.ledger_eq z _ hsame.transactions rfl rfl
  have hraw : ((s.withTransaction ⟨some q, t⟩).attached z profile_id).getHoldingsRaw (s.market profile_id) =
      (s.attached z profile_id).getHoldingsRaw (s.market profile_id) := by
    have hsum : ∀ type id, ((s.withTransaction ⟨some q, t⟩).attached z profile_id).sumQuantity type id =
        (s.attached z profile_id).sumQuantity type id := by
      intro type id
      change ((scopedRows (s.transactions.insert ⟨some q, t⟩) none).map _).sum =
        ((scopedRows s.transactions none).map _).sum
      rw [scopedRows_insert_none, List.map_append, List.sum_append]
      simp [ht]
    unfold Ledger.getHoldingsRaw
    simp only [hsum]
    rfl
  unfold Store.getHoldings
  simp only [hsame.market_eq, hjoined, hraw]

/-- Interest of another profile changes the summary. -/
theorem performanceSummary_changes (hq : q ≠ profile_id) {z : Zones} {display_currency : Currency}
    {locale : String} {summary : PerformanceSummary}
    (h : s.getPerformanceSummary z profile_id display_currency locale = .ok summary) :
    (s.withTransaction ⟨some q, interestPayment display_currency 1⟩).getPerformanceSummary z profile_id
      display_currency locale ≠ .ok summary := by
  have hsame := sameFor_withTransaction (s := s) hq (interestPayment display_currency 1)
  have hrows : scopedRows (s.withTransaction ⟨some q, interestPayment display_currency 1⟩).transactions none =
      scopedRows s.transactions none ++ [(s.transactions.next, interestPayment display_currency 1)] :=
    scopedRows_insert_none _ _
  have hreads : (s.withTransaction ⟨some q, interestPayment display_currency 1⟩).performanceReads z profile_id =
      { s.performanceReads z profile_id with
        incomeRows := (s.performanceReads z profile_id).incomeRows ++ [interestPayment display_currency 1] } := by
    unfold Store.performanceReads Store.allTransactions
    rw [getHoldings_withTransaction hq rfl, hsame.market_eq,
      show (s.withTransaction _).joined z profile_id = s.joined z profile_id from
        hsame.ledger_eq z _ hsame.transactions rfl rfl,
      hrows, List.map_append, List.filter_append, List.filter_append]
    simp [isInvested, isInvestmentIncome, interestPayment]
  obtain ⟨interest, hinterest, hmore⟩ := performanceSummary_income _ _ h 1
  intro he
  unfold Store.getPerformanceSummary at he
  rw [hreads, hsame.rateProvider_eq, hmore] at he
  have hrounded := congrArg PerformanceSummary.totalInterest (Except.ok.inj he)
  rw [hinterest] at hrounded
  exact Decimal.roundTo_add_one_ne (by decide) interest hrounded

end

/-! ## An asset of another profile -/

section

variable {s : Store} {profile_id q : ℕ}

/-- A table whose next key is past `k`. -/
def skipTo {α : Type} (t : Table α) (k : ℕ) : Table α where
  rows := t.rows
  next := max t.next k
  sorted := t.sorted
  bounded r hr := lt_of_lt_of_le (t.bounded r hr) (le_max_left _ _)

/-- A number above the assets that transactions name. -/
def Store.assetKey (s : Store) : ℕ :=
  topKey (s.transactions.rows.filterMap fun r => r.2.row.portfolioAssetId)

/-- One more asset, under a key that no transaction names. -/
def Store.withAsset (s : Store) (o : Owned PortfolioAsset) : Store :=
  { s with portfolioAssets := (skipTo s.portfolioAssets s.assetKey).insert o }

theorem sameFor_withAsset (hq : q ≠ profile_id) (a : PortfolioAsset) :
    SameFor profile_id s (s.withAsset ⟨some q, a⟩) := by
  constructor <;> try rfl
  exact scopedRows_insert_some (skipTo s.portfolioAssets s.assetKey) (by simpa using hq)

/-- The key of the new asset is named by no transaction. -/
theorem ne_assetKey {r : ℕ × Transaction} {scope : Option ℕ} (hr : r ∈ scopedRows s.transactions scope) {aid : ℕ}
    (haid : r.2.portfolioAssetId = some aid) : aid ≠ (skipTo s.portfolioAssets s.assetKey).next := by
  obtain ⟨o, hmem, _, hrow⟩ := mem_scopedRows.mp hr
  have hlt : aid < s.assetKey := by
    refine lt_topKey (List.mem_filterMap.mpr ⟨(r.1, o), hmem, ?_⟩)
    rw [← haid, ← hrow]
  exact ne_of_lt (lt_of_lt_of_le hlt (le_max_right _ _))

theorem anyAsset_withAsset (o : Owned PortfolioAsset) {aid : ℕ}
    (haid : aid ≠ (skipTo s.portfolioAssets s.assetKey).next) : (s.withAsset o).anyAsset aid = s.anyAsset aid := by
  ext a
  have hrows : ∀ {t : Table (Owned PortfolioAsset)} {a : PortfolioAsset},
      (scopedTable t none).get? aid = some a ↔ ∃ o : Owned PortfolioAsset, (aid, o) ∈ t.rows ∧ o.row = a := by
    intro t a
    rw [Table.get?_eq_some_iff]
    exact mem_scopedRows_none
  unfold Store.anyAsset
  rw [hrows, hrows]
  refine exists_congr fun o' => and_congr_left fun _ => ?_
  change (aid, o') ∈ s.portfolioAssets.rows ++ [_] ↔ _
  rw [List.mem_append, List.mem_singleton]
  refine or_iff_left fun he => haid ?_
  exact (Prod.ext_iff.mp he).1

/-- No transaction is of the new asset, so none of its positions is above zero. -/
theorem getNetPositionsAsOf_withAsset (a : PortfolioAsset) (z : Zones) (m : Market)
    (cutoff : Timestamp) (entity_id : Option ℕ) (include_inactive : Bool) :
    ((s.withAsset ⟨some q, a⟩).joined z profile_id).getNetPositionsAsOf m cutoff entity_id include_inactive =
      (s.joined z profile_id).getNetPositionsAsOf m cutoff entity_id include_inactive := by
  have hquantity : ∀ type, (s.joined z profile_id).quantityUpTo cutoff type
      (skipTo s.portfolioAssets s.assetKey).next = 0 := by
    intro type
    unfold Ledger.quantityUpTo
    refine List.sum_eq_zero fun x hx => ?_
    obtain ⟨r, hr, hx⟩ := List.mem_map.mp hx
    rw [← hx]
    exact if_neg fun hasset => ne_assetKey (List.mem_filter.mp hr).1 hasset.1 rfl
  change ((scopedRows ((skipTo s.portfolioAssets s.assetKey).insert ⟨some q, a⟩) none).filterMap _) =
    ((scopedRows s.portfolioAssets none).filterMap _)
  rw [scopedRows_insert_none, List.filterMap_append]
  change _ ++ (List.filterMap (fun pa : ℕ × PortfolioAsset =>
    let net := (s.joined z profile_id).quantityUpTo cutoff .investmentBuy pa.1 -
      (s.joined z profile_id).quantityUpTo cutoff .investmentSell pa.1
    if (include_inactive || pa.2.isActive) && decide (0 < net) &&
        entity_id.all fun e => decide ((s.joined z profile_id).primaryEntity pa.1 = some e) then
      (m.getAsset pa.2.marketCode).map fun ma =>
        (⟨pa.1, pa.2.marketCode, ma.currencyCode, net⟩ : NetPosition)
    else none) [_]) = _
  simp only [List.filterMap_cons, hquantity, sub_zero, lt_irrefl, decide_false, Bool.and_false, Bool.false_and,
    Bool.false_eq_true, if_false, List.filterMap_nil, List.append_nil]
  rfl

/-- The statements of the chart read one more asset. -/
theorem chartReads_withAsset (hq : q ≠ profile_id) (a : PortfolioAsset) (z : Zones) :
    (s.withAsset ⟨some q, a⟩).chartReads z profile_id = (s.chartReads z profile_id).withAssets
      (Store.sortAssets ((scopedRows s.portfolioAssets none).filterMap s.toChartAsset ++
        [a].filterMap fun a => s.toChartAsset (0, a))) := by
  have hsame := sameFor_withAsset (s := s) hq a
  have hbuy : ∀ scope, ∀ r ∈ scopedRows s.transactions scope,
      (s.withAsset ⟨some q, a⟩).toPricedBuy r = s.toPricedBuy r := by
    intro scope r hr
    unfold Store.toPricedBuy
    cases haid : r.2.portfolioAssetId with
    | none => rfl
    | some aid => simp only [Option.bind_eq_bind, Option.bind_some, anyAsset_withAsset _ (ne_assetKey hr haid)]
  have htrade : ∀ market_code, ∀ r ∈ scopedRows s.transactions none,
      (s.withAsset ⟨some q, a⟩).toChartTrade market_code r = s.toChartTrade market_code r := by
    intro market_code r hr
    unfold Store.toChartTrade
    cases haid : r.2.portfolioAssetId with
    | none => rfl
    | some aid => simp only [Option.bind_eq_bind, Option.bind_some, anyAsset_withAsset _ (ne_assetKey hr haid)]
  have hassets : scopedRows (s.withAsset ⟨some q, a⟩).portfolioAssets none =
      scopedRows s.portfolioAssets none ++ [((skipTo s.portfolioAssets s.assetKey).next, a)] :=
    scopedRows_insert_none _ _
  have hdetect := List.filterMap_congr fun r (hr : r ∈ (scopedRows s.transactions (some profile_id)).filter
    fun r => r.2.quantity.isSome) => hbuy _ r (List.mem_filter.mp hr).1
  have hbuys := List.filterMap_congr (hbuy none)
  have htrades := fun market_code => List.filterMap_congr (htrade market_code)
  unfold Store.chartReads ChartReads.withAssets
  rw [hsame.market_eq, hsame.own_eq, hassets, List.filterMap_append]
  simp only [getNetPositionsAsOf_withAsset]
  rw [show (s.withAsset ⟨some q, a⟩).transactions = s.transactions from rfl, hdetect, hbuys]
  simp only [htrades]
  rfl

/-- Another asset under a market code with a point changes the chart. -/
theorem chart_changes (hq : q ≠ profile_id) {z : Zones} {c : ChartCall} {dates : List ℤ} {a : ChartAsset}
    (hdates : chartDates ((s.chartReads z profile_id).startOf c) (ChartReads.endOf c) = .ok dates)
    (ha : a ∈ (s.chartReads z profile_id).assets) {d : ℤ} (hd : d ∈ dates)
    (hpoint : ((s.chartReads z profile_id).assetPoint c.displayCurrency d a).isSome) :
    (s.withAsset ⟨some q, { marketCode := a.marketCode }⟩).portfolioValueChart z profile_id c ≠
      s.portfolioValueChart z profile_id c := by
  have hnew : s.toChartAsset (0, { marketCode := a.marketCode }) = some a := by
    have hmem : a ∈ (scopedRows s.portfolioAssets none).filterMap s.toChartAsset :=
      (List.perm_insertionSort _ _).mem_iff.mp ha
    obtain ⟨r, _, hr⟩ := List.mem_filterMap.mp hmem
    obtain ⟨ma, hma, hra⟩ := Option.map_eq_some_iff.mp hr
    unfold Store.toChartAsset
    rw [← hra] at *
    exact Option.map_eq_some_iff.mpr ⟨ma, hma, rfl⟩
  unfold Store.portfolioValueChart
  rw [chartReads_withAsset hq]
  refine ChartReads.chart_ne hdates ?_ hd hpoint
  rw [List.filterMap_cons, hnew, List.filterMap_nil]
  refine (List.perm_insertionSort _ _).trans (List.perm_append_comm.trans ?_)
  exact List.Perm.cons a (List.perm_insertionSort _ _).symm

end

/-! ## What isolates the reads -/

/-- The reads are the same if the statements without a clause read the same rows. Where no row names a row
across profiles, holdings, tax reports and value history are isolated but for the default rule that is
shown. The performance summary never is, and the value chart is not where it has a point of an asset. -/
theorem isolation_of_reads (s : Store) (z : Zones) (catalog : TaxCatalog) (profile_id : ℕ) :
    (∀ s', SameFor profile_id s s' → SameUnscoped s s' → ∀ call,
      s'.answer z catalog profile_id call = s.answer z catalog profile_id call) ∧
    (∀ s', SameFor profile_id s s' → Separated s profile_id → Separated s' profile_id →
      s'.getHoldings z profile_id = s.getHoldings z profile_id ∧
      (∀ display_currency locale ruleset, s'.getTaxablePnl z profile_id display_currency locale ruleset =
        s.getTaxablePnl z profile_id display_currency locale ruleset) ∧
      (∀ c, s'.getHistoricalValues z profile_id c = s.getHistoricalValues z profile_id c) ∧
      ∀ display_currency locale ruleset report,
        s.getTaxablePnlExtended z profile_id catalog display_currency locale ruleset = .ok report →
        (s'.getTaxablePnlExtended z profile_id catalog display_currency locale ruleset = .ok report ↔
          shownDefault s'.firstDefaultRule = shownDefault s.firstDefaultRule)) ∧
    (∀ display_currency locale summary,
      s.getPerformanceSummary z profile_id display_currency locale = .ok summary → ∀ q ≠ profile_id, ∃ t,
        SameFor profile_id s (s.withTransaction ⟨some q, t⟩) ∧
        (s.withTransaction ⟨some q, t⟩).getPerformanceSummary z profile_id display_currency locale ≠ .ok summary) ∧
    ∀ c dates, chartDates ((s.chartReads z profile_id).startOf c) (ChartReads.endOf c) = .ok dates →
      (∃ a ∈ (s.chartReads z profile_id).assets, ∃ d ∈ dates,
        ((s.chartReads z profile_id).assetPoint c.displayCurrency d a).isSome) → ∀ q ≠ profile_id, ∃ asset,
        SameFor profile_id s (s.withAsset ⟨some q, asset⟩) ∧
        (s.withAsset ⟨some q, asset⟩).portfolioValueChart z profile_id c ≠ s.portfolioValueChart z profile_id c := by
  refine ⟨?_, ?_, ?_, ?_⟩
  · intro s' h hunscoped call
    exact hunscoped.answer_eq h z catalog call
  · intro s' h hs hs'
    refine ⟨h.getHoldings_eq hs hs' z, h.getTaxablePnl_eq hs hs' z, h.getHistoricalValues_eq hs hs' z, ?_⟩
    intro display_currency locale ruleset report hreport
    exact h.getTaxablePnlExtended_eq_iff hs hs' hreport
  · intro display_currency locale summary h q hq
    exact ⟨interestPayment display_currency 1, sameFor_withTransaction hq _, performanceSummary_changes hq h⟩
  · rintro c dates hdates ⟨a, ha, d, hd, hpoint⟩ q hq
    exact ⟨{ marketCode := a.marketCode }, sameFor_withAsset hq _, chart_changes hq hdates ha hd hpoint⟩

namespace Sample

/-- The second profile of `household` is paid interest. -/
def householdWithInterest : Store := household.withTransaction ⟨some 1, interestPayment eur 100⟩

/-- The first profile is shown the interest of the second. -/
theorem interest_shown :
    (household.getPerformanceSummary zones 0 eur "es").map PerformanceSummary.totalInterest = .ok 0 ∧
    (householdWithInterest.getPerformanceSummary zones 0 eur "es").map PerformanceSummary.totalInterest =
      .ok 100 ∧
    ¬ ∀ (s s' : Store) (z : Zones) (catalog : TaxCatalog) (profile_id : ℕ), SameFor profile_id s s' →
      ∀ call, s'.answer z catalog profile_id call = s.answer z catalog profile_id call := by
  have hbefore : (household.getPerformanceSummary zones 0 eur "es").map PerformanceSummary.totalInterest =
      .ok 0 := by decide +kernel
  have hafter : (householdWithInterest.getPerformanceSummary zones 0 eur "es").map
      PerformanceSummary.totalInterest = .ok 100 := by decide +kernel
  refine ⟨hbefore, hafter, fun hall => ?_⟩
  have hsame : SameFor 0 household householdWithInterest := sameFor_withTransaction (by decide) _
  have hanswer := hall _ _ zones ⟨[], fun _ => [], fun _ => [], []⟩ 0 hsame (.performanceSummary eur "es")
  have hequal : householdWithInterest.getPerformanceSummary zones 0 eur "es" =
      household.getPerformanceSummary zones 0 eur "es" := ReadAnswer.performanceSummary.inj hanswer
  rw [hequal, hbefore] at hafter
  exact absurd hafter (by decide)

end Sample

end FinHub
