import FinHub.Analytics.HistoricalValues
import FinHub.Profiles.Views
import FinHub.Tax.TaxablePnl

/-!
# FinHub.Profiles.Reads

The reads under a profile, statement by statement over the whole database.

Holdings, the two tax reports and the value history put the clause on the row they start from and join the
rest by id. `Separated` says that no such join leaves the profile: then each of these reads is the one of
the profile's own ledger (`Separated.getHoldings_eq` and the like).
-/

namespace FinHub

open Tabular

/-! ## The reads -/

namespace Store

variable (s : Store) (z : Zones) (profile_id : ℕ)

/-- `get_holdings`. The purchases and sales that are summed for an asset are of any profile. -/
def getHoldings : List HoldingLine :=
  let m := s.market profile_id
  let result := computeFifo ((s.joined z profile_id).getBuySellTransactions m)
  let enriched := ((s.attached z profile_id).getHoldingsRaw m).map ((s.joined z profile_id).enrich m result)
  let total_value := (enriched.map fun item => item.currentValue.getD 0).sum
  enriched.map (Ledger.holdingLine m total_value)

def rateProvider : RateProvider := (s.own z profile_id).currencyServiceRateProvider

def getTaxablePnl (display_currency : Currency) (locale ruleset : String) : Except PnlError TaxablePnlSummary :=
  FinHub.getTaxablePnl (s.rateProvider z profile_id) (s.joined z profile_id) (s.market profile_id)
    display_currency locale ruleset

/-- `SELECT default_fiscal_rule FROM profiles LIMIT 1`: the rule of the first profile there is. -/
def firstDefaultRule : Option String := (s.profiles.rows.head?).bind fun r => r.2.defaultFiscalRule

def getTaxablePnlExtended (catalog : TaxCatalog) (display_currency : Currency) (locale ruleset : String) :
    Except PnlError TaxablePnlSummaryExtended :=
  FinHub.getTaxablePnlExtended (s.rateProvider z profile_id) (s.joined z profile_id) (s.market profile_id)
    catalog s.firstDefaultRule display_currency locale ruleset

/-! ### Cash -/

/-- A fee of the profile is read with the transaction it names, whosever that is. -/
def computeFeeCashOutAt (entity_id : ℕ) (currency : Currency) (timestamp : Timestamp) : Option ℚ :=
  (s.attached z profile_id).computeFeeCashOutAt entity_id currency timestamp

def getBalanceAtDate (entity_id : ℕ) (currency : Currency) (timestamp : Timestamp) : Option ℚ :=
  let own := s.own z profile_id
  match own.getPreviousSnapshot entity_id currency timestamp with
  | some snapshot => do
    let impacts ← (own.getTransactionsBetween entity_id currency snapshot.2.timestamp timestamp {}).mapM
      fun r => r.2.loopImpact
    let fee_t ← s.computeFeeCashOutAt z profile_id entity_id currency timestamp
    let fee_s ← s.computeFeeCashOutAt z profile_id entity_id currency snapshot.2.timestamp
    some (snapshot.2.amount + impacts.sum - (fee_t - fee_s))
  | none => do
    let rows := own.transactions.rows.filter fun r => Ledger.inPair entity_id currency r &&
      decide (r.2.timestamp ≤ timestamp)
    let fee_t ← s.computeFeeCashOutAt z profile_id entity_id currency timestamp
    some ((rows.map fun r => r.2.sqlImpact).sum - fee_t)

def cashAsOf (entity_id : Option ℕ) (timestamp : Timestamp) : Option (Tally Currency) :=
  ((s.own z profile_id).cashEntriesOf (fun p => s.getBalanceAtDate z profile_id p.1 p.2 timestamp)
    (fun p => s.computeFeeCashOutAt z profile_id p.1 p.2 timestamp) entity_id timestamp).map Worth.collect

/-! ### The value history -/

def valuationReads (entity_id : Option ℕ) : ValuationReads where
  netPositions cutoff := (s.joined z profile_id).getNetPositionsAsOf (s.market profile_id) cutoff entity_id
  manualTrackedAssets := (s.own z profile_id).getManualTrackedAssets (s.market profile_id)
  cash := s.cashAsOf z profile_id entity_id
  latestRateTo := (s.own z profile_id).latestRateTo
  latestTransactionPrice market_code :=
    ((s.joined z profile_id).getLatestTransactionPrice (s.market profile_id) market_code).map Prod.fst
  getPriceAsOf market_code cutoff := ((s.market profile_id).getPriceAsOf market_code cutoff).map Price.price
  manualValueAsOf id d := ((s.market profile_id).getManualValueAsOf id d).map ManualValue.value

def getHistoricalValues (c : HistoricalCall) : Except HistoryError (List HistoricalValuePoint) :=
  (s.valuationReads z profile_id c.entityId).getHistoricalValues c

end Store

/-! ## Separated profiles -/

/-- No row of the profile names a row of another one, and no transaction of another one names an asset
of the profile. -/
structure Separated (s : Store) (profile_id : ℕ) : Prop where
  assets : ∀ t ∈ s.transactions.rows, ∀ a ∈ s.portfolioAssets.rows, t.2.row.portfolioAssetId = some a.1 →
    (t.2.profileId = some profile_id ↔ a.2.profileId = some profile_id)
  entities : ∀ t ∈ s.transactions.rows, ∀ e ∈ s.entities.rows, t.2.row.entityId = e.1 →
    t.2.profileId = some profile_id → e.2.profileId = some profile_id
  fees : ∀ f ∈ s.transactionFees.rows, ∀ t ∈ s.transactions.rows, f.2.row.transactionId = t.1 →
    f.2.profileId = some profile_id → t.2.profileId = some profile_id
  taxes : ∀ x ∈ s.transactionTaxes.rows, ∀ t ∈ s.transactions.rows, x.2.row.transactionId = t.1 →
    x.2.profileId = some profile_id → t.2.profileId = some profile_id

section Scoped

variable {α : Type} {t : Table (Owned α)} {p : ℕ}

/-- Where the row under a key is of the profile, the clause does not matter. -/
theorem scopedTable_get?_eq {id : ℕ} (h : ∀ o, (id, o) ∈ t.rows → o.profileId = some p) (named named' : List ℕ) :
    (scopedTable t none named).get? id = (scopedTable t (some p) named').get? id := by
  ext a
  rw [scopedTable_get?_none, scopedTable_get?_some]
  constructor
  · rintro ⟨owner, hmem⟩
    have howner : owner = some p := h _ hmem
    rwa [howner] at hmem
  · exact fun hmem => ⟨_, hmem⟩

/-- A query that drops the rows of others reads the rows of the profile. -/
theorem filterMap_scopedRows {β : Type} {f : ℕ × α → Option β}
    (h : ∀ r ∈ t.rows, r.2.profileId ≠ some p → f (r.1, r.2.row) = none) :
    (scopedRows t none).filterMap f = (scopedRows t (some p)).filterMap f := by
  unfold scopedRows
  rw [List.filterMap_map, List.filterMap_map, List.filterMap_filter, List.filterMap_filter]
  refine List.filterMap_congr fun r hr => ?_
  by_cases howner : r.2.profileId = some p
  · simp [Owned.inScope, howner]
  · simp [Owned.inScope, howner, h r hr howner]

end Scoped

namespace Separated

variable {s : Store} {profile_id : ℕ} (h : Separated s profile_id) (z : Zones) (m : Market)

include h

/-! ### Joins -/

theorem getPortfolioAsset {r : ℕ × Transaction} (hr : r ∈ (s.own z profile_id).transactions.rows) {aid : ℕ}
    (hasset : r.2.portfolioAssetId = some aid) :
    (s.joined z profile_id).getPortfolioAsset aid = (s.own z profile_id).getPortfolioAsset aid := by
  refine scopedTable_get?_eq (fun o ho => ?_) _ _
  exact (h.assets _ (mem_scopedRows_some.mp hr) _ ho hasset).mp rfl

theorem get?_entity {r : ℕ × Transaction} (hr : r ∈ (s.own z profile_id).transactions.rows) :
    (s.joined z profile_id).entities.get? r.2.entityId = (s.own z profile_id).entities.get? r.2.entityId := by
  refine scopedTable_get?_eq (fun o ho => ?_) _ _
  exact h.entities _ (mem_scopedRows_some.mp hr) _ ho rfl rfl

theorem getBuySellTransactions_eq : (s.joined z profile_id).getBuySellTransactions m =
    (s.own z profile_id).getBuySellTransactions m := by
  unfold Ledger.getBuySellTransactions
  congr 1
  refine List.filterMap_congr fun r hr => ?_
  unfold Ledger.toFifoRow
  cases hasset : r.2.portfolioAssetId with
  | none => rfl
  | some aid =>
    simp only [Option.bind_eq_bind, Option.bind_some, h.getPortfolioAsset z hr hasset, h.get?_entity z hr]

theorem getDividendTransactions_eq : (s.joined z profile_id).getDividendTransactions m =
    (s.own z profile_id).getDividendTransactions m := by
  unfold Ledger.getDividendTransactions
  congr 1
  refine List.filterMap_congr fun r hr => ?_
  unfold Ledger.toDividendRow
  cases hasset : r.2.portfolioAssetId with
  | none => simp only [Option.bind_none, h.get?_entity z hr]
  | some aid => simp only [Option.bind_some, h.getPortfolioAsset z hr hasset, h.get?_entity z hr]

theorem getLatestTransactionPrice_eq (market_code : String) :
    (s.joined z profile_id).getLatestTransactionPrice m market_code =
      (s.own z profile_id).getLatestTransactionPrice m market_code := by
  unfold Ledger.getLatestTransactionPrice
  congr 1
  refine List.filterMap_congr fun r hr => ?_
  cases hasset : r.2.portfolioAssetId with
  | none => rfl
  | some aid => simp only [Option.bind_eq_bind, Option.bind_some, h.getPortfolioAsset z hr hasset]

/-- The transactions of the profile have no quantity of an asset of another one. -/
theorem quantityUpTo_eq_zero {a : ℕ × Owned PortfolioAsset} (ha : a ∈ s.portfolioAssets.rows)
    (howner : a.2.profileId ≠ some profile_id) (cutoff : Timestamp) (type : TransactionType) :
    (s.joined z profile_id).quantityUpTo cutoff type a.1 = 0 := by
  unfold Ledger.quantityUpTo
  refine List.sum_eq_zero fun x hx => ?_
  obtain ⟨r, hr, hx⟩ := List.mem_map.mp hx
  rw [← hx]
  refine if_neg fun hasset => howner ?_
  exact (h.assets _ (mem_scopedRows_some.mp (List.mem_filter.mp hr).1) a ha hasset.1).mp rfl

theorem getNetPositionsAsOf_eq (cutoff : Timestamp) (entity_id : Option ℕ) :
    (s.joined z profile_id).getNetPositionsAsOf m cutoff entity_id =
      (s.own z profile_id).getNetPositionsAsOf m cutoff entity_id := by
  refine filterMap_scopedRows fun a ha howner => ?_
  simp [h.quantityUpTo_eq_zero z ha howner]

/-! ### Rows of others -/

theorem sumQuantity_eq {a : ℕ × PortfolioAsset} (ha : a ∈ (s.own z profile_id).portfolioAssets.rows)
    (type : TransactionType) :
    (s.attached z profile_id).sumQuantity type a.1 = (s.own z profile_id).sumQuantity type a.1 := by
  have hasset := mem_scopedRows_some.mp ha
  have hsum : ∀ scope : Option ℕ, ((scopedRows s.transactions scope).map fun r =>
      if r.2.portfolioAssetId = some a.1 ∧ r.2.type = type then r.2.quantity.getD 0 else 0).sum =
      ((scopedRows s.transactions scope).filterMap fun r =>
        if r.2.portfolioAssetId = some a.1 ∧ r.2.type = type then some (r.2.quantity.getD 0) else none).sum := by
    intro scope
    induction scopedRows s.transactions scope with
    | nil => rfl
    | cons r rows ih =>
      rw [List.map_cons, List.sum_cons, ih, List.filterMap_cons]
      split_ifs with hr <;> simp
  change ((scopedRows s.transactions none).map _).sum = ((scopedRows s.transactions (some profile_id)).map _).sum
  rw [hsum, hsum, filterMap_scopedRows]
  intro t ht howner
  refine if_neg fun hr => howner ?_
  exact (h.assets t ht _ hasset hr.1).mpr rfl

theorem getHoldingsRaw_eq :
    (s.attached z profile_id).getHoldingsRaw m = (s.own z profile_id).getHoldingsRaw m := by
  refine List.filterMap_congr fun a ha => ?_
  simp only [h.sumQuantity_eq z ha]

omit h in
theorem parentOf_eq {entity_id id : ℕ} {timestamp : Timestamp}
    (hid : ∀ o, (id, o) ∈ s.transactions.rows → o.profileId = some profile_id) :
    (s.attached z profile_id).parentOf entity_id timestamp none id =
      (s.own z profile_id).parentOf entity_id timestamp none id := by
  unfold Ledger.parentOf Ledger.getTransaction
  rw [show (s.attached z profile_id).transactions.get? id = (s.own z profile_id).transactions.get? id from
    scopedTable_get?_eq hid _ _]

theorem computeFeeCashOutAt_eq (entity_id : ℕ) (currency : Currency) (timestamp : Timestamp) :
    s.computeFeeCashOutAt z profile_id entity_id currency timestamp =
      (s.own z profile_id).computeFeeCashOutAt entity_id currency timestamp := by
  have hfees : (s.attached z profile_id).feeRows entity_id timestamp none =
      (s.own z profile_id).feeRows entity_id timestamp none := by
    refine List.filterMap_congr fun f hf => ?_
    rw [parentOf_eq z fun o ho => h.fees _ (mem_scopedRows_some.mp hf) _ ho rfl rfl]
  have htaxes : (s.attached z profile_id).taxCharges entity_id timestamp none =
      (s.own z profile_id).taxCharges entity_id timestamp none := by
    refine List.filterMap_congr fun x hx => ?_
    rw [parentOf_eq z fun o ho => h.taxes _ (mem_scopedRows_some.mp hx) _ ho rfl rfl]
  unfold Store.computeFeeCashOutAt Ledger.computeFeeCashOutAt
  rw [hfees, htaxes]
  rfl

theorem getBalanceAtDate_eq (entity_id : ℕ) (currency : Currency) (timestamp : Timestamp) :
    s.getBalanceAtDate z profile_id entity_id currency timestamp =
      (s.own z profile_id).getBalanceAtDate entity_id currency timestamp := by
  unfold Store.getBalanceAtDate Ledger.getBalanceAtDate
  simp only [h.computeFeeCashOutAt_eq z]
  cases (s.own z profile_id).getPreviousSnapshot entity_id currency timestamp with
  | none => simp [Exclude.keeps]
  | some snapshot => rfl

theorem cashAsOf_eq (entity_id : Option ℕ) (timestamp : Timestamp) :
    s.cashAsOf z profile_id entity_id timestamp = (s.own z profile_id).cashAsOf entity_id timestamp := by
  unfold Store.cashAsOf
  simp only [h.getBalanceAtDate_eq z, h.computeFeeCashOutAt_eq z]
  cases entity_id <;> rfl

/-! ### The reads are those of the profile's own ledger -/

theorem getHoldings_eq :
    s.getHoldings z profile_id = (s.own z profile_id).getHoldings (s.market profile_id) := by
  have hvaluation : ∀ row net_qty, (s.joined z profile_id).valuation (s.market profile_id) row net_qty =
      (s.own z profile_id).valuation (s.market profile_id) row net_qty := by
    intro row net_qty
    unfold Ledger.valuation
    rw [h.getLatestTransactionPrice_eq z]
  have henrich : (s.joined z profile_id).enrich (s.market profile_id) =
      (s.own z profile_id).enrich (s.market profile_id) := by
    funext result row
    unfold Ledger.enrich
    simp only [hvaluation]
  unfold Store.getHoldings Ledger.getHoldings
  simp only [h.getBuySellTransactions_eq z, h.getHoldingsRaw_eq z, henrich]

theorem getTaxablePnl_eq (display_currency : Currency) (locale ruleset : String) :
    s.getTaxablePnl z profile_id display_currency locale ruleset =
      FinHub.getTaxablePnl (s.rateProvider z profile_id) (s.own z profile_id) (s.market profile_id)
        display_currency locale ruleset := by
  unfold Store.getTaxablePnl FinHub.getTaxablePnl
  rw [h.getBuySellTransactions_eq z, h.getDividendTransactions_eq z]
  rfl

theorem getTaxablePnlExtended_eq (catalog : TaxCatalog) (display_currency : Currency) (locale ruleset : String) :
    s.getTaxablePnlExtended z profile_id catalog display_currency locale ruleset =
      FinHub.getTaxablePnlExtended (s.rateProvider z profile_id) (s.own z profile_id) (s.market profile_id)
        catalog s.firstDefaultRule display_currency locale ruleset := by
  unfold Store.getTaxablePnlExtended FinHub.getTaxablePnlExtended
  rw [h.getBuySellTransactions_eq z, h.getDividendTransactions_eq z]
  rfl

theorem valuationReads_eq (entity_id : Option ℕ) : s.valuationReads z profile_id entity_id =
    (s.own z profile_id).valuationReads (s.market profile_id) entity_id := by
  unfold Store.valuationReads Ledger.valuationReads
  simp only [h.getNetPositionsAsOf_eq z, h.getLatestTransactionPrice_eq z]
  congr 1
  funext timestamp
  exact h.cashAsOf_eq z entity_id timestamp

theorem getHistoricalValues_eq (c : HistoricalCall) : s.getHistoricalValues z profile_id c =
    (s.own z profile_id).getHistoricalValues (s.market profile_id) c := by
  unfold Store.getHistoricalValues Ledger.getHistoricalValues
  rw [h.valuationReads_eq]

end Separated

end FinHub
