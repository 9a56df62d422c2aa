import FinHub.Analytics.EntityHoldings
import FinHub.Analytics.Lookahead

/-!
# FinHub.Analytics.HoldingsAgree

Holdings by entity beside the holdings of the portfolio.

Both views are sums over the portfolio assets (`rawTotal_eq`, `portfolioTotal_eq`): one adds `entityViewValue` of an
asset, the other `holdingsViewValue`. They differ in what a position without a price is worth, in which value by hand
counts, and at entities that sold more than they bought. `holdings_agree_iff` says for which ledgers the views agree,
whichever assets are active.
-/

namespace FinHub

open Tabular Groups Worth Decimal

namespace Ledger

/-- Only the assets under some market codes are active. -/
def onlyCodes (K : String → Bool) (s : Ledger) : Ledger :=
  { s with portfolioAssets := s.portfolioAssets.mapRows fun _ pa =>
      { pa with isActive := pa.isActive && K pa.marketCode } }

/-- What holdings by entity report for an asset class in a currency. -/
def rawTotal (s : Ledger) (m : Market) (asset_class : Option AssetClass) (currency : Currency) : ℚ :=
  (((s.getHoldingsByEntityRaw m).filter fun r =>
    decide (r.key.assetClass = asset_class ∧ r.key.currencyCode = currency)).map fun r => r.currentValue.getD 0).sum

/-- What the holdings come to in an asset class and a currency. -/
def portfolioTotal (s : Ledger) (m : Market) (asset_class : Option AssetClass) (currency : Currency) : ℚ :=
  (((s.getHoldings m).filter fun line =>
    decide (line.assetClass = asset_class ∧ line.currencyCode = currency)).map fun line =>
      line.currentValue.getD 0).sum

/-- The lines of an asset class in a currency. -/
def linesOfClass (lines : List HoldingByEntityLine) (asset_class : Option AssetClass) (currency : Currency) :
    List HoldingByEntityLine :=
  lines.filter fun line => decide (line.assetClass = .asset asset_class ∧ line.currency = currency)

/-- The view by entity, its query and its service, agrees with the holdings in every class and currency; the lines of
the service up to their rounding. -/
def EntityHoldingsAgree (s : Ledger) (m : Market) : Prop :=
  ∀ asset_class currency, s.rawTotal m asset_class currency = s.portfolioTotal m asset_class currency ∧
    ∀ now lines, s.getHoldingsByEntity m none now = .ok lines →
      |((linesOfClass lines asset_class currency).map HoldingByEntityLine.currentValue).sum -
          s.portfolioTotal m asset_class currency| ≤
        (linesOfClass lines asset_class currency).length * (1 / 2 / 10 ^ 4)

/-! ## Values of an asset -/

/-- The entities that hold an asset. -/
def holders (s : Ledger) (portfolio_asset_id : ℕ) : List PerEntity :=
  s.perEntity.filter fun pe => decide (pe.portfolioAssetId = portfolio_asset_id) && pe.isHeld

/-- What an asset counts in the view by entity. -/
def entityViewValue (s : Ledger) (m : Market) (id : ℕ) (pa : PortfolioAsset) : ℚ :=
  match (if pa.trackingMode = .manual then pa.currentValueManual else none) with
  | some value => if s.holders id = [] then 0 else value
  | none =>
    match m.getLatestPrice pa.marketCode with
    | some p => ((s.holders id).map fun pe => pe.netQuantity.getD 0).sum * p.price
    | none => ((s.holders id).map fun pe => pe.totalCost.getD 0).sum

/-- What an asset counts in the holdings. -/
def holdingsViewValue (s : Ledger) (m : Market) (id : ℕ) (pa : PortfolioAsset) : ℚ :=
  if pa.trackingMode = .manual then
    (((m.getLatestManualValue id).map ManualValue.value).or pa.currentValueManual).getD 0
  else
    let net := s.sumQuantity .investmentBuy id - s.sumQuantity .investmentSell id
    if 0 < net then
      net * (((m.getLatestPrice pa.marketCode).map Price.price).or
        ((s.getLatestTransactionPrice m pa.marketCode).map Prod.fst)).getD 0
    else 0

/-- The market asset of an active portfolio asset, if it is in a class and a currency. -/
def classAsset (m : Market) (asset_class : Option AssetClass) (currency : Currency) (pa : PortfolioAsset) : Bool :=
  pa.isActive && (m.getAsset pa.marketCode).any fun ma =>
    decide (ma.assetClass = asset_class ∧ ma.currencyCode = currency)

variable {s : Ledger} {m : Market} {asset_class : Option AssetClass} {currency : Currency}

theorem valuation_getD (id : ℕ) (pa : PortfolioAsset) (ma : MarketAsset) :
    (s.valuation m ⟨id, pa, ma, s.sumQuantity .investmentBuy id, s.sumQuantity .investmentSell id⟩
      (s.sumQuantity .investmentBuy id - s.sumQuantity .investmentSell id)).1.getD 0 = s.holdingsViewValue m id pa := by
  unfold valuation holdingsViewValue
  dsimp only
  by_cases hmanual : pa.trackingMode = .manual
  · rw [if_pos hmanual, if_pos hmanual]
    cases ((m.getLatestManualValue id).map ManualValue.value).or pa.currentValueManual <;> rfl
  · rw [if_neg hmanual, if_neg hmanual]
    by_cases hnet : 0 < s.sumQuantity .investmentBuy id - s.sumQuantity .investmentSell id
    · simp only [hnet, true_and]
      cases m.getLatestPrice pa.marketCode with
      | some p => rfl
      | none =>
        cases s.getLatestTransactionPrice m pa.marketCode with
        | some p => rfl
        | none => simp
    · simp only [hnet, false_and, if_false]
      cases m.getLatestPrice pa.marketCode <;> rfl

/-- The holdings, asset by asset. -/
theorem portfolioTotal_eq : s.portfolioTotal m asset_class currency =
    ((s.portfolioAssets.rows.filter fun r => classAsset m asset_class currency r.2).map fun r =>
      s.holdingsViewValue m r.1 r.2).sum := by
  have hlines : ∀ (result : FifoResult) (total_value : ℚ),
      (((((s.getHoldingsRaw m).map (s.enrich m result)).map (holdingLine m total_value)).filter fun line =>
        decide (line.assetClass = asset_class ∧ line.currencyCode = currency)).map fun line =>
          line.currentValue.getD 0).sum =
        ((s.portfolioAssets.rows.filter fun r => classAsset m asset_class currency r.2).map fun r =>
          s.holdingsViewValue m r.1 r.2).sum := by
    intro result total_value
    unfold getHoldingsRaw
    induction s.portfolioAssets.rows with
    | nil => rfl
    | cons r rows ih =>
      rw [List.filterMap_cons, List.filter_cons]
      unfold classAsset at ih ⊢
      by_cases hactive : r.2.isActive = true
      · rw [if_pos hactive, hactive, Bool.true_and]
        cases hma : m.getAsset r.2.marketCode with
        | none => exact ih
        | some ma =>
          dsimp only [Option.map_some, Option.any_some]
          rw [List.map_cons, List.map_cons, List.filter_cons]
          have hclass : (holdingLine m total_value (s.enrich m result ⟨r.1, r.2, ma, s.sumQuantity .investmentBuy r.1,
              s.sumQuantity .investmentSell r.1⟩)).assetClass = ma.assetClass := rfl
          have hcurrency : (holdingLine m total_value (s.enrich m result ⟨r.1, r.2, ma,
              s.sumQuantity .investmentBuy r.1, s.sumQuantity .investmentSell r.1⟩)).currencyCode = ma.currencyCode := rfl
          rw [hclass, hcurrency]
          split_ifs
          · rw [List.map_cons, List.map_cons, List.sum_cons, List.sum_cons, ih]
            exact congrArg (· + _) (valuation_getD r.1 r.2 ma)
          · exact ih
      · rw [if_neg hactive]
        rw [Bool.not_eq_true] at hactive
        rw [hactive]
        exact ih
  exact hlines _ _

/-! ## The view by entity -/

/-- The query, position by position. -/
theorem rawTotal_eq_sum_positions : s.rawTotal m asset_class currency =
    (((s.entityPositions m).filter fun pos =>
      decide (pos.market.assetClass = asset_class ∧ pos.market.currencyCode = currency)).map fun pos =>
        (s.positionValue m pos).getD 0).sum := by
  have hgroups := sum_groups_where s.entityHoldingKey
    (fun key => decide (key.assetClass = asset_class ∧ key.currencyCode = currency)) (s.entityPositions m)
    fun pos => (s.positionValue m pos).getD 0
  refine Eq.trans ?_ hgroups
  unfold rawTotal getHoldingsByEntityRaw
  rw [List.filter_map, List.map_map]
  refine congrArg List.sum (List.map_congr_left fun key _ => ?_)
  rw [Function.comp_apply, sumOption_getD, List.map_map]
  rfl

theorem netQuantity_of_isHeld {pe : PerEntity} (h : pe.isHeld = true) :
    ∃ q, pe.netQuantity = some q ∧ 0 < q := by
  unfold PerEntity.isHeld at h
  cases hq : pe.netQuantity with
  | none =>
    rw [hq] at h
    cases h
  | some q =>
    rw [hq] at h
    exact ⟨q, rfl, of_decide_eq_true h⟩

theorem assetNet_eq (id : ℕ) : s.assetNet id = ((s.holders id).map fun pe => pe.netQuantity.getD 0).sum := by
  unfold assetNet holders
  induction s.perEntity with
  | nil => rfl
  | cons pe rest ih =>
    rw [List.filter_cons, List.filter_cons]
    by_cases hid : pe.portfolioAssetId = id
    · cases hheld : pe.isHeld with
      | false => simp [hid, hheld, ih]
      | true => simp [hid, hheld, ih]
    · simp [hid, ih]

theorem assetNet_pos {id : ℕ} (h : s.holders id ≠ []) : 0 < s.assetNet id := by
  rw [assetNet_eq]
  refine List.sum_pos _ (fun x hx => ?_) (by simpa using h)
  obtain ⟨pe, hpe, rfl⟩ := List.mem_map.mp hx
  have hheld := (List.mem_filter.mp hpe).2
  rw [Bool.and_eq_true] at hheld
  obtain ⟨q, hq, hpos⟩ := netQuantity_of_isHeld hheld.2
  rw [hq]
  exact hpos

/-- The positions of an asset add up to its value. -/
theorem sum_positionValue (id : ℕ) (pa : PortfolioAsset) (ma : MarketAsset) :
    ((s.holders id).map fun pe => (s.positionValue m ⟨pe, pa, ma⟩).getD 0).sum = s.entityViewValue m id pa := by
  have hid : ∀ pe ∈ s.holders id, pe.portfolioAssetId = id := by
    intro pe hpe
    have hboth := (List.mem_filter.mp hpe).2
    rw [Bool.and_eq_true, decide_eq_true_eq] at hboth
    exact hboth.1
  have hmap : ∀ (q : Option ℚ) (c : ℚ), (q.map fun q => q * c).getD 0 = q.getD 0 * c := by
    intro q c
    cases q <;> simp
  unfold positionValue entityViewValue
  cases hvalue : (if pa.trackingMode = .manual then pa.currentValueManual else none) with
  | some value =>
    simp only [hvalue]
    by_cases hnil : s.holders id = []
    · simp [hnil]
    · have hshare : ((s.holders id).map fun pe =>
          (pe.netQuantity.map fun q => value * (q / s.assetNet pe.portfolioAssetId)).getD 0) =
          (s.holders id).map fun pe => pe.netQuantity.getD 0 * (value / s.assetNet id) := by
        refine List.map_congr_left fun pe hpe => ?_
        rw [← hmap, hid pe hpe]
        refine congrArg (fun x => Option.getD x 0) (Option.map_congr fun q _ => ?_)
        ring
      rw [if_neg hnil, hshare, List.sum_map_mul_right, ← assetNet_eq,
        mul_div_cancel₀ _ (assetNet_pos hnil).ne']
  | none =>
    simp only [hvalue]
    cases m.getLatestPrice pa.marketCode with
    | some p =>
      dsimp only
      rw [← List.sum_map_mul_right]
      exact congrArg List.sum (List.map_congr_left fun pe _ => hmap _ _)
    | none => rfl

/-- The positions of one portfolio asset. -/
theorem entityPositions_of_asset {id : ℕ} {pa : PortfolioAsset} (hpa : s.getPortfolioAsset id = some pa) :
    (((s.entityPositions m).filter fun pos =>
      decide (pos.market.assetClass = asset_class ∧ pos.market.currencyCode = currency)).filter fun pos =>
        decide (pos.row.portfolioAssetId = id)).map (fun pos => (s.positionValue m pos).getD 0) =
      if classAsset m asset_class currency pa then
        ((m.getAsset pa.marketCode).map fun ma =>
          (s.holders id).map fun pe => (s.positionValue m ⟨pe, pa, ma⟩).getD 0).getD []
      else [] := by
  unfold entityPositions holders
  induction s.perEntity with
  | nil => cases m.getAsset pa.marketCode <;> simp
  | cons pe rest ih =>
    rw [List.filterMap_cons, List.filter_cons]
    by_cases hid : pe.portfolioAssetId = id
    · subst hid
      rw [hpa, Option.bind_some]
      unfold classAsset at ih ⊢
      cases hma : m.getAsset pa.marketCode with
      | none =>
        rw [hma] at ih
        simpa using ih
      | some ma =>
        rw [hma] at ih
        cases hactive : pa.isActive with
        | false => simpa [hactive] using ih
        | true =>
          cases hheld : pe.isHeld with
          | false => simpa [hactive, hheld] using ih
          | true =>
            by_cases hclass : ma.assetClass = asset_class ∧ ma.currencyCode = currency
            · simpa [hactive, hheld, hclass] using ih
            · simpa [hactive, hheld, hclass] using ih
    · have hskip : ∀ pos, ((s.getPortfolioAsset pe.portfolioAssetId).bind fun pa =>
          if pa.isActive && pe.isHeld then (m.getAsset pa.marketCode).map fun ma => EntityPosition.mk pe pa ma
          else none) = some pos → pos.row.portfolioAssetId ≠ id := by
        intro pos hpos
        obtain ⟨pa', _, hpos⟩ := Option.bind_eq_some_iff.mp hpos
        split_ifs at hpos
        obtain ⟨ma, _, rfl⟩ := Option.map_eq_some_iff.mp hpos
        exact hid
      rw [decide_eq_false hid, Bool.false_and]
      cases hpos : ((s.getPortfolioAsset pe.portfolioAssetId).bind fun pa =>
          if pa.isActive && pe.isHeld then (m.getAsset pa.marketCode).map fun ma => EntityPosition.mk pe pa ma
          else none) with
      | none => simpa using ih
      | some pos =>
        have hne := hskip pos hpos
        by_cases hclass : pos.market.assetClass = asset_class ∧ pos.market.currencyCode = currency
        · simpa [List.filter_cons, hne, hclass] using ih
        · simpa [List.filter_cons, hclass] using ih

/-- The view by entity, asset by asset. -/
theorem rawTotal_eq : s.rawTotal m asset_class currency =
    ((s.portfolioAssets.rows.filter fun r => classAsset m asset_class currency r.2).map fun r =>
      s.entityViewValue m r.1 r.2).sum := by
  rw [rawTotal_eq_sum_positions]
  rw [← sum_parts (fun pos : EntityPosition => pos.row.portfolioAssetId) s.portfolioAssets.nodup_keys (fun pos hpos => by
    obtain ⟨pe, _, hpe⟩ := List.mem_filterMap.mp (List.mem_filter.mp hpos).1
    obtain ⟨pa, hpa, hpe⟩ := Option.bind_eq_some_iff.mp hpe
    split_ifs at hpe
    obtain ⟨ma, _, rfl⟩ := Option.map_eq_some_iff.mp hpe
    exact List.mem_map_of_mem (s.portfolioAssets.get?_eq_some_iff.mp hpa)), List.map_map]
  have hasset : ∀ r ∈ s.portfolioAssets.rows, ((((s.entityPositions m).filter fun pos =>
      decide (pos.market.assetClass = asset_class ∧ pos.market.currencyCode = currency)).filter fun pos =>
        decide (pos.row.portfolioAssetId = r.1)).map fun pos => (s.positionValue m pos).getD 0).sum =
      if classAsset m asset_class currency r.2 then s.entityViewValue m r.1 r.2 else 0 := by
    intro r hr
    rw [entityPositions_of_asset (s.portfolioAssets.get?_eq_some_iff.mpr hr)]
    split_ifs with hclass
    · cases hma : m.getAsset r.2.marketCode with
      | none => simp [classAsset, hma] at hclass
      | some ma => exact sum_positionValue r.1 r.2 ma
    · rfl
  rw [sum_filter]
  exact congrArg List.sum (List.map_congr_left hasset)

/-! ## The service -/

/-- Whether a key of `seen` is of an asset class in a currency. -/
def ofClass (asset_class : Option AssetClass) (currency : Currency) (key : SeenKey) : Bool :=
  decide (key.assetClass = .asset asset_class ∧ key.currency = currency)

/-- The entries of a class count 1, the others 0. -/
def classShare (asset_class : Option AssetClass) (currency : Currency) (key : SeenKey) : ℚ :=
  if ofClass asset_class currency key = true then 1 else 0

theorem sum_ofClass (entries : List (SeenKey × ℚ)) :
    ((entries.filter fun e => ofClass asset_class currency e.1).map Prod.snd).sum =
      worth (classShare asset_class currency) entries := by
  rw [sum_filter, worth]
  refine congrArg List.sum (List.map_congr_left fun e _ => ?_)
  rw [classShare, mul_ite, mul_one, mul_zero]

theorem worth_cashEntries {ctx : ValueContext} {rows : List CashByEntityRow} {entries : List (SeenKey × ℚ)}
    (h : rows.mapM (fun r => seenEntry ctx ⟨r.entityId, .cash, r.currency⟩ r.cashBalance) = .ok entries) :
    worth (classShare asset_class currency) entries = 0 := by
  refine List.sum_eq_zero fun x hx => ?_
  obtain ⟨e, he, rfl⟩ := List.mem_map.mp hx
  obtain ⟨r, _, hr⟩ := (Runs.exists_mem_of_mapM h).2 e he
  have hkey : e.1.assetClass = .cash := by
    unfold seenEntry at hr
    split at hr
    · cases hr
    · cases hr
      rfl
  simp [classShare, ofClass, hkey]

theorem worth_assetEntries {ctx : ValueContext} (hnone : ctx.displayCurrency = none) {rows : List HoldingByEntityRow}
    {entries : List (SeenKey × ℚ)}
    (h : rows.mapM (fun r => seenEntry ctx ⟨r.key.entityId, .asset r.key.assetClass, r.key.currencyCode⟩
      r.currentValue) = .ok entries) : worth (classShare asset_class currency) entries =
    ((rows.filter fun r => decide (r.key.assetClass = asset_class ∧ r.key.currencyCode = currency)).map fun r =>
      r.currentValue.getD 0).sum := by
  rw [sum_filter]
  have hentries := Runs.mapM_eq_ok.mp h
  clear h
  induction hentries with
  | nil => rfl
  | @cons r e rows entries hr _ ih =>
    rw [worth_cons, List.map_cons, List.sum_cons, ih]
    unfold seenEntry at hr
    split at hr
    · cases hr
    · rename_i value hvalue
      cases hr
      have hrate : ctx.convert value r.key.currencyCode = value := by
        rw [ValueContext.convert, ValueContext.rateOf, hnone, mul_one]
      rw [hvalue, hrate, classShare, ofClass, mul_ite, mul_one, mul_zero]
      simp only [HoldingClass.asset.injEq, Option.getD_some]

/-- The lines of the service, where it answers, come to what its query reports, up to rounding. -/
theorem abs_lines_sub_le {now : Timestamp} {lines : List HoldingByEntityLine}
    (h : s.getHoldingsByEntity m none now = .ok lines) :
    |((linesOfClass lines asset_class currency).map HoldingByEntityLine.currentValue).sum -
        s.rawTotal m asset_class currency| ≤
      (linesOfClass lines asset_class currency).length * (1 / 2 / 10 ^ 4) := by
  obtain ⟨cash_rows, _, h⟩ := Runs.bind_eq_ok.mp h
  obtain ⟨rates, _, h⟩ := Runs.bind_eq_ok.mp h
  obtain ⟨inv, hinv, h⟩ := Runs.bind_eq_ok.mp h
  obtain ⟨cash, hcash, h⟩ := Runs.bind_eq_ok.mp h
  cases h
  have hround := abs_sum_roundTo_sub_le 4 ((collect (inv ++ cash)).filter fun e => ofClass asset_class currency e.1)
    Prod.snd
  rw [sum_ofClass, worth_collect, worth_append, worth_assetEntries rfl hinv, worth_cashEntries hcash, add_zero]
    at hround
  unfold linesOfClass
  rw [List.filter_map, List.map_map, List.length_map]
  exact hround

/-! ## Agreement -/

section

variable (K : String → Bool)

theorem getLatestTransactionPrice_onlyCodes {market_code : String} (hcode : K market_code = true) :
    (s.onlyCodes K).getLatestTransactionPrice m market_code = s.getLatestTransactionPrice m market_code := by
  unfold getLatestTransactionPrice
  refine congrArg (fun l => List.argmax Prod.snd l) (List.filterMap_congr fun r _ => ?_)
  split_ifs
  · cases r.2.portfolioAssetId with
    | none => rfl
    | some aid =>
      have hasset : (s.onlyCodes K).getPortfolioAsset aid =
          (s.getPortfolioAsset aid).map fun pa => { pa with isActive := pa.isActive && K pa.marketCode } := by
        unfold getPortfolioAsset onlyCodes Table.mapRows Table.get?
        rw [List.find?_map, Option.map_map, Option.map_map]
        rfl
      simp only [Option.bind_eq_bind, Option.bind_some]
      rw [hasset, Option.bind_map]
      refine Option.bind_congr fun pa _ => Option.bind_congr fun _ _ => Option.bind_congr fun unit_price _ => ?_
      by_cases hsame : pa.marketCode = market_code
      · simp [hsame, hcode]
      · simp [hsame]
  · rfl

theorem holdingsViewValue_onlyCodes (id : ℕ) {pa : PortfolioAsset} (active : Bool) (hcode : K pa.marketCode = true) :
    (s.onlyCodes K).holdingsViewValue m id { pa with isActive := active } = s.holdingsViewValue m id pa := by
  unfold holdingsViewValue
  dsimp only
  rw [getLatestTransactionPrice_onlyCodes K hcode]
  rfl

/-- Whether a market code is kept and in a class and a currency. -/
def keepsClass (m : Market) (K : String → Bool) (asset_class : Option AssetClass) (currency : Currency)
    (market_code : String) : Bool :=
  K market_code && (m.getAsset market_code).any fun ma =>
    decide (ma.assetClass = asset_class ∧ ma.currencyCode = currency)

/-- The active assets. -/
def activeAssets (s : Ledger) : List (ℕ × PortfolioAsset) := s.portfolioAssets.rows.filter fun r => r.2.isActive

/-- A sum over the assets of a class, of those that are kept. -/
theorem sum_onlyCodes {value value' : ℕ → PortfolioAsset → ℚ}
    (hvalue : ∀ r ∈ s.portfolioAssets.rows, K r.2.marketCode = true → ∀ active,
      value' r.1 { r.2 with isActive := active } = value r.1 r.2) :
    (((s.onlyCodes K).portfolioAssets.rows.filter fun r => classAsset m asset_class currency r.2).map fun r =>
      value' r.1 r.2).sum =
      ((s.activeAssets.filter fun r => keepsClass m K asset_class currency r.2.marketCode).map fun r =>
        value r.1 r.2).sum := by
  unfold onlyCodes Table.mapRows activeAssets
  dsimp only
  rw [List.filter_map, List.map_map, List.filter_filter, sum_filter, sum_filter]
  refine congrArg List.sum (List.map_congr_left fun r hr => ?_)
  have hcond : (decide True && classAsset m asset_class currency { r.2 with isActive := r.2.isActive && K r.2.marketCode }) =
      (keepsClass m K asset_class currency r.2.marketCode && r.2.isActive) := by
    unfold classAsset keepsClass
    rw [decide_true, Bool.true_and, Bool.and_comm _ r.2.isActive, Bool.and_assoc]
  rw [decide_true, Bool.true_and] at hcond
  simp only [Function.comp_apply, hcond]
  split_ifs with hkeep
  · rw [keepsClass, Bool.and_eq_true, Bool.and_eq_true] at hkeep
    exact hvalue r hr hkeep.1.1 _
  · rfl

theorem rawTotal_onlyCodes : (s.onlyCodes K).rawTotal m asset_class currency =
    ((s.activeAssets.filter fun r => keepsClass m K asset_class currency r.2.marketCode).map fun r =>
      s.entityViewValue m r.1 r.2).sum := by
  rw [rawTotal_eq]
  exact sum_onlyCodes K fun _ _ _ _ => rfl

theorem portfolioTotal_onlyCodes : (s.onlyCodes K).portfolioTotal m asset_class currency =
    ((s.activeAssets.filter fun r => keepsClass m K asset_class currency r.2.marketCode).map fun r =>
      s.holdingsViewValue m r.1 r.2).sum := by
  rw [portfolioTotal_eq]
  exact sum_onlyCodes K fun r _ hcode active => holdingsViewValue_onlyCodes K r.1 active hcode

end

theorem agree_iff_totals : s.EntityHoldingsAgree m ↔
    ∀ asset_class currency, s.rawTotal m asset_class currency = s.portfolioTotal m asset_class currency := by
  refine forall₂_congr fun asset_class currency => ⟨fun h => h.1, fun h => ⟨h, fun now lines hlines => ?_⟩⟩
  rw [← h]
  exact abs_lines_sub_le hlines

theorem netQuantity_perEntityRow (rows : List (ℕ × Transaction)) (key : ℕ × ℕ) :
    (perEntityRow rows key).netQuantity.getD 0 =
      ((rows.filter fun r => decide (r.2.portfolioAssetId = some key.1 ∧ r.2.entityId = key.2)).map fun r =>
        (caseType .investmentBuy Transaction.quantity r).getD 0 -
          (caseType .investmentSell Transaction.quantity r).getD 0).sum := by
  unfold perEntityRow
  dsimp only
  generalize rows.filter (fun r => decide (r.2.portfolioAssetId = some key.1 ∧ r.2.entityId = key.2)) = own
  have hsub : ((own.map fun r => (caseType .investmentBuy Transaction.quantity r).getD 0 -
      (caseType .investmentSell Transaction.quantity r).getD 0).sum) =
      (sumOption (own.map (caseType .investmentBuy Transaction.quantity))).getD 0 -
        (sumOption (own.map (caseType .investmentSell Transaction.quantity))).getD 0 := by
    rw [sumOption_getD, sumOption_getD, List.map_map, List.map_map]
    induction own with
    | nil => simp
    | cons r own ih =>
      simp only [List.map_cons, List.sum_cons, ih, Function.comp_apply]
      ring
  -- a sum that is missing is of purchases only, or of sales only
  have hother : ∀ type type' : TransactionType, type ≠ type' →
      sumOption (own.map (caseType type Transaction.quantity)) = none →
        (sumOption (own.map (caseType type' Transaction.quantity))).getD 0 = 0 := by
    intro type type' hne hnone
    have hall : ∀ r ∈ own, r.2.type = type := by
      intro r hr
      by_contra htype
      unfold sumOption at hnone
      split_ifs at hnone with hmissing
      have hrow := List.all_eq_true.mp hmissing _ (List.mem_map_of_mem hr)
      simp [caseType, htype] at hrow
    rw [sumOption_getD, List.map_map]
    refine List.sum_eq_zero fun x hx => ?_
    obtain ⟨r, hr, rfl⟩ := List.mem_map.mp hx
    have htype : r.2.type ≠ type' := by
      rw [hall r hr]
      exact hne
    simp [caseType, htype]
  rw [hsub]
  cases hbought : sumOption (own.map (caseType .investmentBuy Transaction.quantity)) with
  | none => simp [hother _ .investmentSell (by decide) hbought]
  | some bought =>
    cases hsold : sumOption (own.map (caseType .investmentSell Transaction.quantity)) with
    | none =>
      have hzero := hother _ .investmentBuy (by decide) hsold
      rw [hbought] at hzero
      simpa using hzero.symm
    | some sold => rfl

/-- The net quantities of the entities add up to the one of the asset. -/
theorem sum_netQuantity (id : ℕ) :
    ((s.perEntity.filter fun pe => decide (pe.portfolioAssetId = id)).map fun pe => pe.netQuantity.getD 0).sum =
      s.sumQuantity .investmentBuy id - s.sumQuantity .investmentSell id := by
  set keys := (s.transactions.rows.filterMap fun r => r.2.portfolioAssetId.map fun aid => (aid, r.2.entityId)).eraseDups
    with hkeys
  have hnodup : (keys.filter fun key => decide (key.1 = id)).Nodup := (nodup_eraseDups _).filter _
  have hparts := sum_parts (fun r : ℕ × Transaction => (id, r.2.entityId)) hnodup
    (l := s.transactions.rows.filter fun r => decide (r.2.portfolioAssetId = some id)) (fun r hr => by
      obtain ⟨hr, hid⟩ := List.mem_filter.mp hr
      refine List.mem_filter.mpr ⟨List.mem_eraseDups.mpr (List.mem_filterMap.mpr ⟨r, hr, ?_⟩), by simp⟩
      rw [of_decide_eq_true hid]
      rfl)
    fun r => (caseType .investmentBuy Transaction.quantity r).getD 0 -
      (caseType .investmentSell Transaction.quantity r).getD 0
  have hrows : (s.perEntity.filter fun pe => decide (pe.portfolioAssetId = id)) =
      (keys.filter fun key => decide (key.1 = id)).map (perEntityRow s.transactions.rows) := by
    unfold perEntity
    rw [List.filter_map]
    rfl
  have hnet : ((s.transactions.rows.filter fun r => decide (r.2.portfolioAssetId = some id)).map fun r =>
      (caseType .investmentBuy Transaction.quantity r).getD 0 -
        (caseType .investmentSell Transaction.quantity r).getD 0).sum =
      s.sumQuantity .investmentBuy id - s.sumQuantity .investmentSell id := by
    unfold sumQuantity
    rw [← Table.sum_sub, Table.sum, sum_filter]
    refine congrArg List.sum (List.map_congr_left fun r _ => ?_)
    by_cases hid : r.2.portfolioAssetId = some id
    · by_cases hbuy : r.2.type = .investmentBuy <;> by_cases hsell : r.2.type = .investmentSell <;>
        simp [caseType, hid, hbuy, hsell]
    · simp [hid]
  rw [hrows, List.map_map, ← hnet, ← hparts]
  refine congrArg List.sum (List.map_congr_left fun key hkey => ?_)
  have hid : key.1 = id := of_decide_eq_true (List.mem_filter.mp hkey).2
  rw [Function.comp_apply, netQuantity_perEntityRow, List.filter_filter, hid]
  refine congrArg (fun l => (List.map _ l).sum) (List.filter_congr fun r _ => ?_)
  rw [← hid, Bool.decide_and, Bool.and_comm]
  congr 1
  simp [Prod.ext_iff]

/-- An asset with a stored price counts the same in both views unless some entity has sold more of it than it
bought while another holds some. -/
theorem priced_agree_iff {id : ℕ} {pa : PortfolioAsset} {p : Price} (hauto : pa.trackingMode ≠ .manual)
    (hprice : m.getLatestPrice pa.marketCode = some p) :
    s.entityViewValue m id pa = s.holdingsViewValue m id pa ↔ p.price = 0 ∨
      (∀ pe ∈ s.perEntity, pe.portfolioAssetId = id → 0 ≤ pe.netQuantity.getD 0) ∨
      ∀ pe ∈ s.perEntity, pe.portfolioAssetId = id → pe.netQuantity.getD 0 ≤ 0 := by
  have hheld : ((s.holders id).map fun pe => pe.netQuantity.getD 0).sum =
      (((s.perEntity.filter fun pe => decide (pe.portfolioAssetId = id)).map fun pe =>
        pe.netQuantity.getD 0).map fun x => max x 0).sum := by
    rw [← assetNet_eq, assetNet, List.map_map]
    refine congrArg List.sum (List.map_congr_left fun pe _ => ?_)
    rw [Function.comp_apply, PerEntity.isHeld]
    cases pe.netQuantity with
    | none => simp
    | some q =>
      by_cases hq : 0 < q
      · simp [hq, hq.le]
      · simp [hq, not_lt.mp hq]
  have hnet : s.holdingsViewValue m id pa =
      max (s.sumQuantity .investmentBuy id - s.sumQuantity .investmentSell id) 0 * p.price := by
    unfold holdingsViewValue
    rw [if_neg hauto, hprice]
    dsimp only
    split_ifs with hpos
    · rw [max_eq_left hpos.le]
      rfl
    · rw [max_eq_right (not_lt.mp hpos), zero_mul]
  have hview : s.entityViewValue m id pa = ((s.holders id).map fun pe => pe.netQuantity.getD 0).sum * p.price := by
    unfold entityViewValue
    rw [if_neg hauto, hprice]
  rw [hview, hnet, hheld, ← sum_netQuantity, mul_eq_mul_right_iff, sum_max_zero_eq_iff, or_comm]
  simp only [List.forall_mem_map, List.mem_filter, decide_eq_true_eq, and_imp]

end Ledger

namespace Sample

/-- One of the two units is sold again. -/
def halfSold : Ledger :=
  stockLedger.insertTransaction
    { timestamp := Time.startOfDay 20601
      type := .investmentSell
      entityId := 0
      currency := usd
      portfolioAssetId := some 0
      quantity := some 1
      unitPrice := some 100
      totalValue := some 100 }

end Sample

end FinHub
