import FinHub.Analytics.EntityShares

/-!
# FinHub.Analytics.EntityValues

The value history of the portfolio beside those of its entities.

Cash and market positions are shared out among the entities. A value by hand is not: the call of every entity adds
all of them. A position goes whole to the entity of its first transaction, wherever the rest was bought.
`additive_iff` says for which ledgers the histories of the entities add up to the one of the portfolio, whatever the
values by hand are, and every entity counts what it holds.
-/

namespace FinHub

open Tabular Worth Groups Decimal

/-! ## Values by hand -/

def PortfolioAsset.revalued (value : ℚ) (pa : PortfolioAsset) : PortfolioAsset :=
  { pa with currentValueManual := pa.currentValueManual.map fun _ => value }

def ManualAsset.revalued (x : ℕ → ℚ) (ma : ManualAsset) : ManualAsset := { ma with asset := ma.asset.revalued (x ma.id) }

/-- Every value by hand replaced by the one of its asset. -/
def Ledger.revalued (x : ℕ → ℚ) (s : Ledger) : Ledger :=
  { s with portfolioAssets := s.portfolioAssets.mapRows fun id pa => pa.revalued (x id) }

def Market.revalued (x : ℕ → ℚ) (m : Market) : Market :=
  { m with manualValues := m.manualValues.map fun v => { v with value := x v.portfolioAssetId } }

theorem Market.getManualValueAsOf_revalued (m : Market) (x : ℕ → ℚ) (id : ℕ) (d : ℤ) :
    (m.revalued x).getManualValueAsOf id d = (m.getManualValueAsOf id d).map fun v => { v with value := x id } := by
  unfold getManualValueAsOf revalued
  rw [List.filter_map, Checkpoint.argmax_map]
  change Option.map _ ((m.manualValues.filter fun v =>
    decide (v.portfolioAssetId = id) && decide (v.effectiveDate ≤ d)).argmax ManualValue.effectiveDate) = _
  refine Option.map_congr fun v hv => ?_
  have hid := (List.mem_filter.mp (List.argmax_mem hv)).2
  rw [Bool.and_eq_true, decide_eq_true_eq] at hid
  rw [hid.1]

namespace Ledger

variable (s : Ledger) (m : Market) (x : ℕ → ℚ)

theorem getManualTrackedAssets_revalued : (s.revalued x).getManualTrackedAssets (m.revalued x) =
    (s.getManualTrackedAssets m).map (ManualAsset.revalued x) := by
  unfold getManualTrackedAssets revalued Table.mapRows
  rw [List.filterMap_map, List.map_filterMap]
  refine List.filterMap_congr fun pa _ => ?_
  rw [Function.comp_apply]
  change (if pa.2.isActive && decide (pa.2.trackingMode = .manual) then
    (m.getAsset pa.2.marketCode).map fun ma => ManualAsset.mk pa.1 (pa.2.revalued (x pa.1)) ma.currencyCode else none) = _
  split_ifs
  · rw [Option.map_map]
    rfl
  · rfl

theorem getNetPositionsAsOf_revalued (cutoff : Timestamp) (entity_id : Option ℕ) :
    (s.revalued x).getNetPositionsAsOf (m.revalued x) cutoff entity_id = s.getNetPositionsAsOf m cutoff entity_id := by
  unfold getNetPositionsAsOf revalued Table.mapRows
  rw [List.filterMap_map]
  rfl

theorem getPortfolioAsset_revalued (id : ℕ) :
    (s.revalued x).getPortfolioAsset id = (s.getPortfolioAsset id).map (PortfolioAsset.revalued (x id)) := by
  unfold getPortfolioAsset revalued Table.mapRows Table.get?
  rw [List.find?_map, Option.map_map, Option.map_map]
  refine Option.map_congr fun r hr => ?_
  have hid : r.1 = id := by simpa using List.find?_some hr
  rw [Function.comp_apply, Function.comp_apply, hid]

theorem getLatestTransactionPrice_revalued (market_code : String) :
    (s.revalued x).getLatestTransactionPrice (m.revalued x) market_code = s.getLatestTransactionPrice m market_code := by
  unfold getLatestTransactionPrice
  refine congrArg (fun l => List.argmax Prod.snd l) (List.filterMap_congr fun r _ => ?_)
  split_ifs
  · cases r.2.portfolioAssetId with
    | none => rfl
    | some aid =>
      simp only [Option.bind_eq_bind, Option.bind_some]
      rw [getPortfolioAsset_revalued, Option.bind_map]
      rfl
  · rfl

theorem valuationReads_revalued (entity_id : Option ℕ) : (s.revalued x).valuationReads (m.revalued x) entity_id =
    { s.valuationReads m entity_id with
      manualTrackedAssets := (s.getManualTrackedAssets m).map (ManualAsset.revalued x)
      manualValueAsOf := fun id d => (m.getManualValueAsOf id d).map fun _ => x id } := by
  unfold valuationReads
  simp only [getManualTrackedAssets_revalued, getNetPositionsAsOf_revalued, getLatestTransactionPrice_revalued,
    Market.getManualValueAsOf_revalued, Option.map_map]
  rfl

theorem valueContext_revalued (c : HistoricalCall) (dates : List ℤ) :
    (s.revalued x).valueContext (m.revalued x) c dates = s.valueContext m c dates := by
  unfold valueContext
  rw [valuationReads_revalued]
  rfl

theorem marketPositions_revalued (entity_id : Option ℕ) (d : ℤ) :
    (s.revalued x).marketPositions (m.revalued x) entity_id d = s.marketPositions m entity_id d := by
  unfold marketPositions
  rw [valuationReads_revalued]
  unfold ValuationReads.marketPositions
  dsimp only
  rw [List.map_map]
  rfl

theorem currenciesAsOf_revalued (entity_id : Option ℕ) (d : ℤ) :
    (s.revalued x).currenciesAsOf (m.revalued x) entity_id d = s.currenciesAsOf m entity_id d := by
  unfold currenciesAsOf
  rw [valuationReads_revalued]
  rfl

theorem rateIn_revalued (display_currency : Option Currency) (dates : List ℤ) (entity_id : Option ℕ) (cur : Currency) :
    (s.revalued x).rateIn (m.revalued x) display_currency dates entity_id cur =
      s.rateIn m display_currency dates entity_id cur := by
  unfold rateIn collects
  simp only [currenciesAsOf_revalued]
  rfl

/-- Whether an asset has a value by hand at a date. -/
def hasManualValue (d : ℤ) (ma : ManualAsset) : Bool :=
  ((m.getManualValueAsOf ma.id d).map ManualValue.value).isSome || ma.asset.currentValueManual.isSome

theorem manualEntries_revalued (d : ℤ) : (s.revalued x).manualEntries (m.revalued x) d =
    ((s.getManualTrackedAssets m).filter (hasManualValue m d)).map fun ma => (ma.currencyCode, x ma.id) := by
  unfold manualEntries
  rw [valuationReads_revalued]
  unfold ValuationReads.manualEntries
  dsimp only
  rw [List.filterMap_map]
  induction s.getManualTrackedAssets m with
  | nil => rfl
  | cons ma rest ih =>
    rw [List.filterMap_cons, List.filter_cons, ih]
    unfold hasManualValue Function.comp ManualAsset.revalued PortfolioAsset.revalued
    dsimp only
    cases m.getManualValueAsOf ma.id d with
    | some v => simp
    | none =>
      cases ma.asset.currentValueManual with
      | some v => simp
      | none => simp

end Ledger

/-! ## Points of a history -/

namespace Ledger

variable (s : Ledger) (m : Market)

/-- A call answers, and with this point. -/
def Reports (c : HistoricalCall) (p : HistoricalValuePoint) : Prop :=
  ∃ points, s.getHistoricalValues m c = .ok points ∧ p ∈ points

/-- A call answers over these dates in this context. -/
structure Answers (c : HistoricalCall) (dates : List ℤ) (ctx : ValueContext) : Prop where
  range : c.dates = .ok dates
  context : s.valueContext m c dates = .ok ctx
  cash : ∀ d ∈ dates, ∃ cash, s.cashAsOf c.entityId (Time.endOfDay d) = some cash

variable {s m} {c : HistoricalCall} {dates : List ℤ} {ctx : ValueContext} {p : HistoricalValuePoint}

theorem Reports.exists_answers (h : s.Reports m c p) : ∃ dates ctx, s.Answers m c dates ctx := by
  obtain ⟨points, hpoints, _⟩ := h
  obtain ⟨dates, hdates, h⟩ := Runs.bind_eq_ok.mp hpoints
  obtain ⟨ctx, hctx, hpoints⟩ := Runs.bind_eq_ok.mp h
  refine ⟨dates, ctx, hdates, hctx, fun d hd => ?_⟩
  obtain ⟨p, _, hp⟩ := (Runs.exists_mem_of_mapM hpoints).1 d hd
  obtain ⟨cash, hcash, _⟩ := valuePoint_eq_ok.mp hp
  exact ⟨cash, hcash⟩

theorem Answers.reports_iff (h : s.Answers m c dates ctx) :
    s.Reports m c p ↔ p.date ∈ dates ∧ s.valuePoint m ctx c.entityId p.date = .ok p := by
  constructor
  · intro ⟨points, hpoints, hp⟩
    obtain ⟨dates', ctx', hdates, hctx, hmem, hpoint⟩ := exists_valuePoint_of_mem hpoints hp
    cases h.range.symm.trans hdates
    cases h.context.symm.trans hctx
    exact ⟨hmem, hpoint⟩
  · intro ⟨hmem, hpoint⟩
    have hall : ∀ d ∈ dates, ∃ p, s.valuePoint m ctx c.entityId d = .ok p := by
      intro d hd
      obtain ⟨cash, hcash⟩ := h.cash d hd
      exact ⟨_, valuePoint_eq_ok.mpr ⟨cash, hcash, rfl⟩⟩
    obtain ⟨points, hpoints⟩ := Runs.exists_mapM_iff.mpr hall
    obtain ⟨q, hq, hpoint'⟩ := (Runs.exists_mem_of_mapM hpoints).1 p.date hmem
    cases hpoint.symm.trans hpoint'
    exact ⟨points, Runs.bind_eq_ok.mpr ⟨dates, h.range, Runs.bind_eq_ok.mpr ⟨ctx, h.context, hpoints⟩⟩, hq⟩

theorem Answers.read (h : s.Answers m c dates ctx) :
    ∀ d ∈ dates, ∃ currencies, s.currenciesAsOf m c.entityId d = .ok currencies := by
  intro d hd
  obtain ⟨cash, hcash⟩ := h.cash d hd
  exact ⟨_, currenciesAsOf_eq_ok.mpr ⟨cash, hcash, rfl⟩⟩

/-- Where the call without an entity answers, that of each entity does. -/
theorem Answers.exists_entity (h : s.Answers m (c.forEntity none) dates ctx) (e : ℕ) :
    ∃ ctx', s.Answers m (c.forEntity (some e)) dates ctx' := by
  obtain ⟨ctx', hctx'⟩ := exists_valueContext_some h.context h.read e
  refine ⟨ctx', h.range, hctx', fun d hd => ?_⟩
  obtain ⟨cash, hcash⟩ := h.cash d hd
  obtain ⟨cash', hcash', _⟩ := exists_cashAsOf_some hcash e
  exact ⟨cash', hcash'⟩

theorem answers_revalued (x : ℕ → ℚ) :
    (s.revalued x).Answers (m.revalued x) c dates ctx ↔ s.Answers m c dates ctx := by
  constructor
  · intro h
    exact ⟨h.range, (valueContext_revalued s m x c dates).symm.trans h.context, h.cash⟩
  · intro h
    exact ⟨h.range, (valueContext_revalued s m x c dates).trans h.context, h.cash⟩

/-! ## Gaps -/

/-- What the values of the entities leave of a currency's rate in the call without an entity. -/
def rateGap (s : Ledger) (m : Market) (display_currency : Option Currency) (dates : List ℤ) (cur : Currency) : ℚ :=
  s.rateIn m display_currency dates none cur -
    (s.entityIds.map fun e => s.rateIn m display_currency dates (some e) cur).sum

theorem worth_sub_sum (ρ : Currency → ℚ) (ρOf : ℕ → Currency → ℚ) (es : List ℕ) (entries : List (Currency × ℚ)) :
    worth ρ entries - (es.map fun e => worth (ρOf e) entries).sum =
      (entries.map fun entry => entry.2 * (ρ entry.1 - (es.map fun e => ρOf e entry.1).sum)).sum := by
  induction entries with
  | nil => simp
  | cons entry entries ih =>
    have hsum : (es.map fun e => worth (ρOf e) (entry :: entries)).sum =
        entry.2 * (es.map fun e => ρOf e entry.1).sum + (es.map fun e => worth (ρOf e) entries).sum := by
      simp only [worth_cons]
      rw [List.sum_map_add, List.sum_map_mul_left]
    rw [List.map_cons, List.sum_cons, ← ih, hsum, worth_cons]
    ring

/-- Investments and cash of the entities add up; the values by hand count at the gaps of their rates. -/
theorem worth_entities (hknown : s.EntitiesKnown) (h : s.Answers m (c.forEntity none) dates ctx)
    {ctxOf : ℕ → ValueContext} (hof : ∀ e ∈ s.entityIds, s.Answers m (c.forEntity (some e)) dates (ctxOf e))
    {d : ℤ} (hd : d ∈ dates) {cash : Tally Currency} (hcash : s.cashAsOf none (Time.endOfDay d) = some cash)
    {cashOf : ℕ → Tally Currency} (hcashOf : ∀ e ∈ s.entityIds, s.cashAsOf (some e) (Time.endOfDay d) = some (cashOf e)) :
    s.investmentWorth m ctx none d = (s.entityIds.map fun e => s.investmentWorth m (ctxOf e) (some e) d).sum ∧
    s.totalWorth m ctx none d cash -
        (s.entityIds.map fun e => s.totalWorth m (ctxOf e) (some e) d (cashOf e)).sum =
      ((s.manualEntries m d).map fun entry =>
        entry.2 * s.rateGap m c.displayCurrency dates entry.1).sum := by
  have hrate : ∀ cur, ctx.rateOf cur = s.rateIn m c.displayCurrency dates none cur := rateOf_eq_rateIn h.context
  have hrateOf : ∀ e ∈ s.entityIds, ∀ cur, (ctxOf e).rateOf cur = s.rateIn m c.displayCurrency dates (some e) cur :=
    fun e he => rateOf_eq_rateIn (hof e he).context
  have hsame : ∀ e ∈ s.entityIds, ∀ cur, Collects s m (some e) dates cur → (ctxOf e).rateOf cur = ctx.rateOf cur := by
    intro e he cur hcollects
    rw [hrate, hrateOf e he, rateIn_some h.read hcollects]
  have hcurrencies : ∀ e ∈ s.entityIds, s.currenciesAsOf m (some e) d = .ok
      ((s.getNetPositionsAsOf m (Time.endOfDay d) (some e)).map NetPosition.currencyCode ++ (cashOf e).map Prod.fst) :=
    fun e he => currenciesAsOf_eq_ok.mpr ⟨cashOf e, hcashOf e he, rfl⟩
  have hpositions : ∀ e ∈ s.entityIds, ∀ pos ∈ s.marketPositions m (some e) d,
      (ctxOf e).rateOf pos.currencyCode = ctx.rateOf pos.currencyCode := by
    intro e he pos hpos
    refine hsame e he _ ⟨d, hd, _, hcurrencies e he, List.mem_append_left _ ?_⟩
    exact List.mem_map_of_mem (List.mem_filter.mp hpos).1
  have hkeys : ∀ e ∈ s.entityIds, ∀ cur ∈ (cashOf e).map Prod.fst, (ctxOf e).rateOf cur = ctx.rateOf cur :=
    fun e he cur hcur => hsame e he _ ⟨d, hd, _, hcurrencies e he, List.mem_append_right _ hcur⟩
  have hinvestment : s.investmentWorth m ctx none d =
      (s.entityIds.map fun e => s.investmentWorth m (ctxOf e) (some e) d).sum := by
    unfold investmentWorth
    rw [worth_positionEntries h.context,
      ← sum_positionWorth hknown d ctx.rateOf (fun e => (ctxOf e).rateOf) hpositions]
    refine congrArg List.sum (List.map_congr_left fun e he => ?_)
    rw [worth_positionEntries (hof e he).context]
  refine ⟨hinvestment, ?_⟩
  have htotals : (s.entityIds.map fun e => s.totalWorth m (ctxOf e) (some e) d (cashOf e)).sum =
      (s.entityIds.map fun e => s.investmentWorth m (ctxOf e) (some e) d).sum +
      (s.entityIds.map fun e => worth (ctxOf e).rateOf (s.manualEntries m d)).sum +
      (s.entityIds.map fun e => worth (ctxOf e).rateOf (cashOf e)).sum := by
    rw [← List.sum_map_add, ← List.sum_map_add]
    refine congrArg List.sum (List.map_congr_left fun e _ => ?_)
    rw [totalWorth, worth_append, worth_append, investmentWorth]
  have hmanual := worth_sub_sum ctx.rateOf (fun e => (ctxOf e).rateOf) s.entityIds (s.manualEntries m d)
  have hgaps : ((s.manualEntries m d).map fun entry =>
      entry.2 * (ctx.rateOf entry.1 - (s.entityIds.map fun e => (ctxOf e).rateOf entry.1).sum)) =
      (s.manualEntries m d).map fun entry => entry.2 * s.rateGap m c.displayCurrency dates entry.1 := by
    refine List.map_congr_left fun entry _ => ?_
    rw [rateGap, hrate, List.map_congr_left fun e he => hrateOf e he entry.1]
  rw [htotals, ← hinvestment, worth_cash_eq_sum hknown hcash hcashOf _ _ hkeys, ← hgaps, ← hmanual, totalWorth,
    worth_append, worth_append, investmentWorth]
  ring

end Ledger

/-! ## Quantities -/

namespace Ledger

/-- The quantity of one asset in an entity's transactions of one type up to an instant. -/
def entityQuantityUpTo (s : Ledger) (entity_id : ℕ) (cutoff : Timestamp) (type : TransactionType)
    (portfolio_asset_id : ℕ) : ℚ :=
  (((s.transactions.rows.filter fun r => decide (r.2.timestamp ≤ cutoff)).filter fun r =>
    decide (r.2.entityId = entity_id)).map fun r =>
      if r.2.portfolioAssetId = some portfolio_asset_id ∧ r.2.type = type then r.2.quantity.getD 0 else 0).sum

/-- What the entity holds of an asset: its own purchases less its own sales. -/
def heldAt (s : Ledger) (entity_id : ℕ) (cutoff : Timestamp) (portfolio_asset_id : ℕ) : ℚ :=
  s.entityQuantityUpTo entity_id cutoff .investmentBuy portfolio_asset_id -
    s.entityQuantityUpTo entity_id cutoff .investmentSell portfolio_asset_id

/-- What the call of an entity counts of an asset. -/
def countedAt (s : Ledger) (m : Market) (entity_id : ℕ) (d : ℤ) (portfolio_asset_id : ℕ) : ℚ :=
  ((s.marketPositions m (some entity_id) d).map fun pos =>
    if pos.portfolioAssetId = portfolio_asset_id then pos.netQuantity else 0).sum

variable {s : Ledger} {m : Market} {d : ℤ}

theorem sum_entityQuantityUpTo (h : s.EntitiesKnown) (cutoff : Timestamp) (type : TransactionType) (id : ℕ) :
    (s.entityIds.map fun e => s.entityQuantityUpTo e cutoff type id).sum = s.quantityUpTo cutoff type id :=
  sum_parts (fun r : ℕ × Transaction => r.2.entityId) nodup_entityIds
    (fun r hr => h.transactions r (List.mem_filter.mp hr).1) _

theorem sum_heldAt (h : s.EntitiesKnown) (cutoff : Timestamp) (id : ℕ) :
    (s.entityIds.map fun e => s.heldAt e cutoff id).sum =
      s.quantityUpTo cutoff .investmentBuy id - s.quantityUpTo cutoff .investmentSell id := by
  rw [← sum_entityQuantityUpTo h, ← sum_entityQuantityUpTo h]
  unfold heldAt
  induction s.entityIds with
  | nil => simp
  | cons e es ih =>
    simp only [List.map_cons, List.sum_cons, ih]
    ring

theorem nodup_marketPositions : ((s.marketPositions m none d).map NetPosition.portfolioAssetId).Nodup := by
  have hsub : ((s.marketPositions m none d).map NetPosition.portfolioAssetId).Sublist
      (s.portfolioAssets.rows.map Prod.fst) := by
    refine (List.Sublist.map _ List.filter_sublist).trans ?_
    unfold valuationReads getNetPositionsAsOf
    dsimp only
    induction s.portfolioAssets.rows with
    | nil => exact List.Sublist.refl _
    | cons pa rows ih =>
      rw [List.filterMap_cons, List.map_cons]
      split_ifs
      · cases m.getAsset pa.2.marketCode with
        | none => exact ih.cons _
        | some ma => exact ih.cons_cons _
      · exact ih.cons _
  exact s.portfolioAssets.nodup_keys.sublist hsub

theorem netQuantity_of_mem {pos : NetPosition} (hpos : pos ∈ s.marketPositions m none d) : pos.netQuantity =
    s.quantityUpTo (Time.endOfDay d) .investmentBuy pos.portfolioAssetId -
      s.quantityUpTo (Time.endOfDay d) .investmentSell pos.portfolioAssetId := by
  obtain ⟨pa, _, hpa⟩ := List.mem_filterMap.mp (List.mem_filter.mp hpos).1
  dsimp only at hpa
  split_ifs at hpa
  obtain ⟨ma, _, rfl⟩ := Option.map_eq_some_iff.mp hpa
  rfl

/-- The position is counted whole at the entity of the first transaction. -/
theorem countedAt_of_mem {pos : NetPosition} (hpos : pos ∈ s.marketPositions m none d) (e : ℕ) :
    s.countedAt m e d pos.portfolioAssetId =
      if s.primaryEntity pos.portfolioAssetId = some e then pos.netQuantity else 0 := by
  unfold countedAt
  rw [marketPositions_some]
  split_ifs with hprimary
  · refine sum_of_key NetPosition.portfolioAssetId ?_ (List.mem_filter.mpr ⟨hpos, decide_eq_true hprimary⟩) _
    exact nodup_marketPositions.sublist (List.Sublist.map _ List.filter_sublist)
  · refine List.sum_eq_zero fun y hy => ?_
    obtain ⟨pos', hpos', rfl⟩ := List.mem_map.mp hy
    refine if_neg fun heq => hprimary ?_
    rw [← heq]
    exact of_decide_eq_true (List.mem_filter.mp hpos').2

theorem countedAt_revalued (x : ℕ → ℚ) (e id : ℕ) :
    (s.revalued x).countedAt (m.revalued x) e d id = s.countedAt m e d id := by
  unfold countedAt
  rw [marketPositions_revalued]

/-- Every held asset lies at the entity of its first transaction alone. -/
def Undivided (s : Ledger) (m : Market) (d : ℤ) : Prop :=
  ∀ pos ∈ s.marketPositions m none d, ∀ e ∈ s.entityIds, s.primaryEntity pos.portfolioAssetId ≠ some e →
    s.heldAt e (Time.endOfDay d) pos.portfolioAssetId = 0

/-- Every entity counts what it holds exactly when nothing is held besides the first entity. -/
theorem countedAt_eq_heldAt_iff (h : s.EntitiesKnown) :
    (∀ pos ∈ s.marketPositions m none d, ∀ e ∈ s.entityIds,
      s.countedAt m e d pos.portfolioAssetId = s.heldAt e (Time.endOfDay d) pos.portfolioAssetId) ↔
      s.Undivided m d := by
  refine forall₂_congr fun pos hpos => ⟨fun hall e he hne => ?_, fun hzero e he => ?_⟩
  · rw [← hall e he, countedAt_of_mem hpos, if_neg hne]
  · rw [countedAt_of_mem hpos]
    split_ifs with hprimary
    · -- The other entities hold nothing, so the entity holds all.
      rw [netQuantity_of_mem hpos, ← sum_heldAt h]
      have hone : (s.entityIds.map fun e' => s.heldAt e' (Time.endOfDay d) pos.portfolioAssetId) =
          s.entityIds.map fun e' => if id e' = id e then s.heldAt e' (Time.endOfDay d) pos.portfolioAssetId else 0 := by
        refine List.map_congr_left fun e' he' => ?_
        split_ifs with heq
        · rfl
        · refine hzero e' he' fun hprimary' => heq ?_
          exact (Option.some.inj (hprimary.symm.trans hprimary')).symm
      rw [hone]
      exact sum_of_key id (by rw [List.map_id]; exact nodup_entityIds) he
        fun e' => s.heldAt e' (Time.endOfDay d) pos.portfolioAssetId
    · exact (hzero e he hprimary).symm

end Ledger

/-! ## Additivity -/

namespace Ledger

/-- At every date of the history the entities' histories answer and add up, up to rounding, and every entity counts
what it holds of each position. -/
def AdditiveOverEntities (s : Ledger) (m : Market) (c : HistoricalCall) : Prop :=
  ∀ p, s.Reports m (c.forEntity none) p →
    (∃ q : ℕ → HistoricalValuePoint,
      (∀ e ∈ s.entityIds, s.Reports m (c.forEntity (some e)) (q e) ∧ (q e).date = p.date) ∧
      |p.totalValue - (s.entityIds.map fun e => (q e).totalValue).sum| ≤ (s.entityIds.length + 1) * (1 / 2 / 10 ^ 4) ∧
      |p.investmentValue - (s.entityIds.map fun e => (q e).investmentValue).sum| ≤
        (s.entityIds.length + 1) * (1 / 2 / 10 ^ 4)) ∧
    ∀ pos ∈ s.marketPositions m none p.date, ∀ e ∈ s.entityIds,
      s.countedAt m e p.date pos.portfolioAssetId = s.heldAt e (Time.endOfDay p.date) pos.portfolioAssetId

/-- The ledgers whose history is additive at a date. -/
structure SharedOut (s : Ledger) (m : Market) (c : HistoricalCall) (dates : List ℤ) (d : ℤ) : Prop where
  undivided : s.Undivided m d
  converted : ∀ ma ∈ s.getManualTrackedAssets m, hasManualValue m d ma = true →
    (s.entityIds.map fun e => s.rateIn m c.displayCurrency dates (some e) ma.currencyCode).sum =
      s.rateIn m c.displayCurrency dates none ma.currencyCode

section

variable {s : Ledger} {m : Market} {c : HistoricalCall} {dates : List ℤ} {d : ℤ} {ctx : ValueContext}

/-- The gaps of the values by hand at a date. -/
def manualGaps (s : Ledger) (m : Market) (c : HistoricalCall) (dates : List ℤ) (d : ℤ) : List (ℕ × ℚ) :=
  ((s.getManualTrackedAssets m).filter (hasManualValue m d)).map fun ma =>
    (ma.id, s.rateGap m c.displayCurrency dates ma.currencyCode)

theorem nodup_manualAssets :
    (((s.getManualTrackedAssets m).filter (hasManualValue m d)).map ManualAsset.id).Nodup := by
  have hsub : ((s.getManualTrackedAssets m).map ManualAsset.id).Sublist (s.portfolioAssets.rows.map Prod.fst) := by
    unfold getManualTrackedAssets
    induction s.portfolioAssets.rows with
    | nil => exact List.Sublist.refl _
    | cons pa rows ih =>
      rw [List.filterMap_cons, List.map_cons]
      split_ifs
      · cases m.getAsset pa.2.marketCode with
        | none => exact ih.cons _
        | some ma => exact ih.cons_cons _
      · exact ih.cons _
  exact s.portfolioAssets.nodup_keys.sublist ((List.filter_sublist.map _).trans hsub)

theorem manualGaps_eq_zero_iff : (∀ id, amountOf id (s.manualGaps m c dates d) = 0) ↔
    ∀ ma ∈ s.getManualTrackedAssets m, hasManualValue m d ma = true →
      (s.entityIds.map fun e => s.rateIn m c.displayCurrency dates (some e) ma.currencyCode).sum =
        s.rateIn m c.displayCurrency dates none ma.currencyCode := by
  unfold manualGaps
  rw [forall_amountOf_map_eq_zero nodup_manualAssets]
  simp only [List.mem_filter, and_imp]
  refine forall₂_congr fun ma _ => imp_congr_right fun _ => ?_
  rw [rateGap, sub_eq_zero, eq_comm]

theorem EntitiesKnown.revalued (h : s.EntitiesKnown) (x : ℕ → ℚ) : (s.revalued x).EntitiesKnown :=
  ⟨h.transactions, h.snapshots⟩

/-- The total of the portfolio less those of the entities, for all values by hand. -/
theorem abs_total_sub_le (hknown : s.EntitiesKnown) (h : s.Answers m (c.forEntity none) dates ctx)
    {ctxOf : ℕ → ValueContext} (hof : ∀ e ∈ s.entityIds, s.Answers m (c.forEntity (some e)) dates (ctxOf e))
    (hd : d ∈ dates) {cash : Tally Currency} (hcash : s.cashAsOf none (Time.endOfDay d) = some cash)
    {cashOf : ℕ → Tally Currency} (hcashOf : ∀ e ∈ s.entityIds, s.cashAsOf (some e) (Time.endOfDay d) = some (cashOf e))
    (x : ℕ → ℚ) :
    |roundTo 4 ((s.revalued x).totalWorth (m.revalued x) ctx none d cash) -
        (s.entityIds.map fun e =>
          roundTo 4 ((s.revalued x).totalWorth (m.revalued x) (ctxOf e) (some e) d (cashOf e))).sum -
        worth x (s.manualGaps m c dates d)| ≤ (s.entityIds.length + 1) * (1 / 2 / 10 ^ 4) := by
  have hgap := (worth_entities (hknown.revalued x) ((answers_revalued x).mpr h)
    (fun e he => (answers_revalued x).mpr (hof e he)) hd hcash hcashOf).2
  have hworth : (((s.revalued x).manualEntries (m.revalued x) d).map fun entry =>
      entry.2 * (s.revalued x).rateGap (m.revalued x) c.displayCurrency dates entry.1).sum =
        worth x (s.manualGaps m c dates d) := by
    unfold manualGaps worth rateGap
    rw [manualEntries_revalued, List.map_map, List.map_map]
    refine congrArg List.sum (List.map_congr_left fun ma _ => ?_)
    simp only [Function.comp_apply, rateIn_revalued]
    exact mul_comm _ _
  rw [hworth] at hgap
  change _ - (s.entityIds.map fun e =>
    (s.revalued x).totalWorth (m.revalued x) (ctxOf e) (some e) d (cashOf e)).sum = _ at hgap
  have hnone := abs_roundTo_sub_le 4 ((s.revalued x).totalWorth (m.revalued x) ctx none d cash)
  have hsum := abs_sum_roundTo_sub_le 4 s.entityIds fun e =>
    (s.revalued x).totalWorth (m.revalued x) (ctxOf e) (some e) d (cashOf e)
  rw [abs_le] at hnone hsum ⊢
  constructor <;> linarith

theorem abs_investment_sub_le (hknown : s.EntitiesKnown) (h : s.Answers m (c.forEntity none) dates ctx)
    {ctxOf : ℕ → ValueContext} (hof : ∀ e ∈ s.entityIds, s.Answers m (c.forEntity (some e)) dates (ctxOf e))
    (hd : d ∈ dates) :
    |roundTo 4 (s.investmentWorth m ctx none d) -
        (s.entityIds.map fun e => roundTo 4 (s.investmentWorth m (ctxOf e) (some e) d)).sum| ≤
      (s.entityIds.length + 1) * (1 / 2 / 10 ^ 4) := by
  obtain ⟨cash, hcash⟩ := h.cash d hd
  choose cashOf hcashOf _ using exists_cashAsOf_some hcash
  have hsame := (worth_entities hknown h hof hd hcash fun e _ => hcashOf e).1
  have hnone := abs_roundTo_sub_le 4 (s.investmentWorth m ctx none d)
  have hsum := abs_sum_roundTo_sub_le 4 s.entityIds fun e => s.investmentWorth m (ctxOf e) (some e) d
  rw [abs_le] at hnone hsum ⊢
  constructor <;> linarith

end

theorem additive_iff (s : Ledger) (m : Market) (c : HistoricalCall) (hknown : s.EntitiesKnown) :
    (∀ x, (s.revalued x).AdditiveOverEntities (m.revalued x) c) ↔
      ∀ p dates, s.Reports m (c.forEntity none) p → c.dates = .ok dates → s.SharedOut m c dates p.date := by
  constructor
  · intro hall p dates hp hdates
    obtain ⟨dates', ctx, h⟩ := hp.exists_answers
    cases hdates.symm.trans h.range
    obtain ⟨hd, _⟩ := h.reports_iff.mp hp
    choose ctxOf hof using h.exists_entity
    obtain ⟨cash, hcash⟩ := h.cash _ hd
    choose cashOf hcashOf _ using exists_cashAsOf_some hcash
    have hpoint : ∀ x, (s.revalued x).Reports (m.revalued x) (c.forEntity none)
        ⟨p.date, roundTo 4 ((s.revalued x).totalWorth (m.revalued x) ctx none p.date cash),
          roundTo 4 ((s.revalued x).investmentWorth (m.revalued x) ctx none p.date)⟩ :=
      fun x => ((answers_revalued x).mpr h).reports_iff.mpr ⟨hd, valuePoint_eq_ok.mpr ⟨cash, hcash, rfl⟩⟩
    constructor
    · rw [← countedAt_eq_heldAt_iff hknown]
      intro pos hpos e he
      have hcounted := (hall 0 _ (hpoint 0)).2
      simp only [marketPositions_revalued] at hcounted
      rw [← countedAt_revalued 0]
      exact hcounted pos hpos e he
    · rw [← manualGaps_eq_zero_iff]
      refine (forall_abs_le_iff (fun x => abs_total_sub_le hknown h (fun e _ => hof e) hd hcash
        (fun e _ => hcashOf e) x) le_rfl).mp fun x => ?_
      obtain ⟨⟨q, hq, htotal, _⟩, _⟩ := hall x _ (hpoint x)
      have hvalue : ∀ e ∈ s.entityIds, (q e).totalValue =
          roundTo 4 ((s.revalued x).totalWorth (m.revalued x) (ctxOf e) (some e) p.date (cashOf e)) := by
        intro e he
        obtain ⟨hreport, hdate⟩ := hq e he
        obtain ⟨_, hpoint⟩ := ((answers_revalued x).mpr (hof e)).reports_iff.mp hreport
        rw [hdate] at hpoint
        obtain ⟨cash', hcash', hqe⟩ := valuePoint_eq_ok.mp hpoint
        have hcash'' : s.cashAsOf (some e) (Time.endOfDay p.date) = some cash' := hcash'
        cases (hcashOf e).symm.trans hcash''
        rw [hqe]
        rfl
      rw [← List.map_congr_left hvalue]
      exact htotal
  · intro hshared x p hp
    obtain ⟨dates, ctx, h'⟩ := hp.exists_answers
    have h := (answers_revalued x).mp h'
    obtain ⟨hd, hpoint⟩ := h'.reports_iff.mp hp
    choose ctxOf hof using h.exists_entity
    obtain ⟨cash, hcash⟩ := h.cash _ hd
    choose cashOf hcashOf _ using exists_cashAsOf_some hcash
    have hbase : s.Reports m (c.forEntity none) ⟨p.date, roundTo 4 (s.totalWorth m ctx none p.date cash),
        roundTo 4 (s.investmentWorth m ctx none p.date)⟩ :=
      h.reports_iff.mpr ⟨hd, valuePoint_eq_ok.mpr ⟨cash, hcash, rfl⟩⟩
    have hdate := hshared _ dates hbase h.range
    obtain ⟨cash', hcash', hpe⟩ := valuePoint_eq_ok.mp hpoint
    have hcash'' : s.cashAsOf none (Time.endOfDay p.date) = some cash' := hcash'
    cases hcash.symm.trans hcash''
    refine ⟨⟨fun e => ⟨p.date,
      roundTo 4 ((s.revalued x).totalWorth (m.revalued x) (ctxOf e) (some e) p.date (cashOf e)),
      roundTo 4 ((s.revalued x).investmentWorth (m.revalued x) (ctxOf e) (some e) p.date)⟩, fun e he => ⟨?_, rfl⟩,
      ?_, ?_⟩, ?_⟩
    · exact ((answers_revalued x).mpr (hof e)).reports_iff.mpr
        ⟨hd, valuePoint_eq_ok.mpr ⟨cashOf e, hcashOf e, rfl⟩⟩
    · rw [hpe]
      exact (forall_abs_le_iff (fun x => abs_total_sub_le hknown h (fun e _ => hof e) hd hcash
        (fun e _ => hcashOf e) x) le_rfl).mpr (manualGaps_eq_zero_iff.mpr hdate.converted) x
    · rw [hpe]
      exact abs_investment_sub_le (hknown.revalued x) h' (fun e _ => (answers_revalued x).mpr (hof e)) hd
    · intro pos hpos e he
      rw [marketPositions_revalued] at hpos
      rw [countedAt_revalued]
      exact (countedAt_eq_heldAt_iff hknown).mpr hdate.undivided pos hpos e he

end Ledger

end FinHub

namespace FinHub.Sample

open Ledger

/-- The stock at one of two entities. -/
def twoEntities : Ledger :=
  { stockLedger with entities := (Tabular.Table.empty.insert { name := "broker" }).insert { name := "bank" } }

/-- With an asset that is valued by hand. -/
def withHouse : Ledger :=
  { twoEntities with
    portfolioAssets := stockLedger.portfolioAssets.insert
      { marketCode := "HOUSE", trackingMode := .manual, currentValueManual := some 100 } }

def houseMarket : Market :=
  ⟨(stockMarket []).assets ++ [{ marketCode := "HOUSE", assetType := .other, currencyCode := usd }], [], []⟩

/-- The house counts 100 for the portfolio and 100 for each of the entities. -/
theorem house_counted_twice : ¬ withHouse.AdditiveOverEntities houseMarket stockHistory := by
  intro h
  have hnone : withHouse.getHistoricalValues houseMarket (stockHistory.forEntity none) = .ok [⟨20600, 100, 200⟩] := by
    decide +kernel
  have hof : ∀ e ∈ withHouse.entityIds, withHouse.getHistoricalValues houseMarket (stockHistory.forEntity (some e)) =
      .ok [⟨20600, 100, if e = 0 then 200 else 0⟩] := by
    decide +kernel
  obtain ⟨⟨q, hq, htotal, _⟩, _⟩ := h _ ⟨_, hnone, List.mem_cons_self⟩
  have hvalue : ∀ e ∈ withHouse.entityIds, (q e).totalValue = 100 := by
    intro e he
    obtain ⟨⟨points, hpoints, hmem⟩, _⟩ := hq e he
    rw [hof e he] at hpoints
    cases hpoints
    rw [List.mem_singleton.mp hmem]
  rw [List.map_congr_left hvalue] at htotal
  revert htotal
  decide +kernel

/-- Without it the histories of the two entities add up. -/
theorem twoEntities_additive : twoEntities.EntitiesKnown ∧
    ∀ x, (twoEntities.revalued x).AdditiveOverEntities ((stockMarket []).revalued x) stockHistory := by
  have hknown : twoEntities.EntitiesKnown := ⟨by decide +kernel, by decide +kernel⟩
  refine ⟨hknown, (additive_iff twoEntities (stockMarket []) stockHistory hknown).mpr ?_⟩
  intro p dates hp hdates
  have hnone : twoEntities.getHistoricalValues (stockMarket []) (stockHistory.forEntity none) =
      .ok [⟨20600, 0, 200⟩] := by
    decide +kernel
  obtain ⟨points, hpoints, hmem⟩ := hp
  rw [hnone] at hpoints
  cases hpoints
  rw [List.mem_singleton.mp hmem]
  have hmanual : twoEntities.getManualTrackedAssets (stockMarket []) = [] := by decide +kernel
  refine ⟨?_, fun ma hma => ?_⟩
  · unfold Undivided
    decide +kernel
  · rw [hmanual] at hma
    cases hma

end FinHub.Sample
