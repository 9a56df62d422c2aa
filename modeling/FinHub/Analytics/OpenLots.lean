import FinHub.Analytics.Holdings
import Mathlib.Algebra.BigOperators.Ring.Finset

/-!
# FinHub.Analytics.OpenLots

Holdings against the lot ledger.

* `openWeight_computeFifo`: over the entities of an asset, what is open is what was bought less what
  the sales consumed.
* `openQuantity_eq`: the open quantity is the net quantity of the SQL sum, plus what was sold without
  finding a lot at its own entity, less what the walk skips (no total, no entity, no quantity).
* `getHoldings_laws`: what a holding reports.
-/

namespace FinHub

open Tabular LotLine

/-- A weight of the lots of an asset, over the queues of all its entities. -/
def openWeight (w : PnlLot → ℚ) (result : FifoResult) (portfolio_asset_id : ℕ) : ℚ :=
  (result.remaining.entries.map fun e => if e.1.1 = portfolio_asset_id then weigh w e.2 else 0).sum

def openQuantity (result : FifoResult) (portfolio_asset_id : ℕ) : ℚ :=
  openWeight (fun _ => 1) result portfolio_asset_id

def openCost (result : FifoResult) (portfolio_asset_id : ℕ) : ℚ :=
  openWeight PnlLot.unitCost result portfolio_asset_id

/-! ## The aggregation per asset -/

theorem lookup_foldl_addQueue (aid : ℕ) (es : List (Σ _ : FifoKey, List PnlLot))
    (acc : AList fun _ : ℕ => ℚ × ℚ) :
    ((es.foldl addQueue acc).lookup aid).getD (0, 0) =
      (((acc.lookup aid).getD (0, 0)).1 +
          (es.map fun e => if e.1.1 = aid then total e.2 else 0).sum,
        ((acc.lookup aid).getD (0, 0)).2 +
          (es.map fun e => if e.1.1 = aid then lotCost e.2 else 0).sum) := by
  induction es generalizing acc with
  | nil => simp
  | cons e es ih =>
    rw [List.foldl_cons, ih]
    by_cases he : e.1.1 = aid
    · subst he
      simp only [addQueue, AList.lookup_insert, Option.getD_some, List.map_cons, if_true,
        List.sum_cons, add_assoc]
    · simp only [addQueue, AList.lookup_insert_ne (Ne.symm he), List.map_cons, if_neg he,
        List.sum_cons, zero_add]

theorem lookup_openLots (result : FifoResult) (aid : ℕ) :
    ((openLots result).lookup aid).getD (0, 0) = (openQuantity result aid, openCost result aid) := by
  rw [openLots, lookup_foldl_addQueue]
  simp only [AList.lookup_empty, Option.getD_none, zero_add]
  rfl

/-! ## Open lots over a run -/

/-- The share of one key among entries of pairwise distinct keys. -/
theorem sum_entries_key {f : List PnlLot → ℚ} (hf : f [] = 0) (k : FifoKey)
    {es : List (Σ _ : FifoKey, List PnlLot)} (hnd : es.NodupKeys) :
    (es.map fun e => if e.1 = k then f e.2 else 0).sum = f ((es.dlookup k).getD []) := by
  induction es with
  | nil => simp [hf]
  | cons e es ih =>
    obtain ⟨k', lots⟩ := e
    obtain ⟨hnotin, hnd'⟩ := List.nodupKeys_cons.mp hnd
    rw [List.map_cons, List.sum_cons, ih hnd']
    by_cases hk : k' = k
    · subst hk
      rw [List.dlookup_cons_eq, List.dlookup_eq_none.mpr hnotin]
      simp [hf]
    · rw [List.dlookup_cons_ne _ _ (Ne.symm hk)]
      simp [hk]

/-- Adding up by key, over keys enough for all of a list, and over the list at once. -/
theorem sum_by_key {ι : Type} (l : List ι) (key : ι → FifoKey) (x : ι → ℚ) (aid : ℕ)
    (S : Finset FifoKey) (hS : ∀ a ∈ l, key a ∈ S) :
    ∑ k ∈ S with k.1 = aid, (l.map fun a => if key a = k then x a else 0).sum =
      (l.map fun a => if (key a).1 = aid then x a else 0).sum := by
  induction l with
  | nil => simp
  | cons a l ih =>
    have hrest := ih fun b hb => hS b (List.mem_cons_of_mem _ hb)
    have hhead : ∑ k ∈ S with k.1 = aid, (if key a = k then x a else 0) =
        if (key a).1 = aid then x a else 0 := by
      rw [Finset.sum_ite_eq]
      simp [hS a List.mem_cons_self]
    simp only [List.map_cons, List.sum_cons, Finset.sum_add_distrib, hrest, hhead]

theorem weigh_purchases_eq_sum (w : PnlLot → ℚ) (k : FifoKey) (rows : List FifoRow) :
    weigh w (purchases k rows) =
      (rows.map fun r => if r.key = k then weigh w r.bought else 0).sum := by
  induction rows with
  | nil => rfl
  | cons r rows ih =>
    simp only [purchases, List.flatMap_cons, weigh_append, List.map_cons, List.sum_cons] at ih ⊢
    rw [ih]
    split_ifs <;> rfl

/-- Over all entities of an asset: bought less consumed is open. -/
theorem openWeight_computeFifo {w : PnlLot → ℚ} (hw : ∀ l : PnlLot, w l.anonymous = w l)
    (hcut : CutInvariant w) (rows : List FifoRow) (aid : ℕ) :
    openWeight w (computeFifo rows) aid =
      (rows.map fun r => if r.portfolioAssetId = aid then weigh w r.bought else 0).sum -
      ((computeFifo rows).sales.map fun sale =>
        if sale.portfolioAssetId = aid then weigh w sale.lots else 0).sum := by
  set result := computeFifo rows with hres
  let S : Finset FifoKey := (result.remaining.entries.map (·.1) ++ rows.map FifoRow.key ++
    result.sales.map NativeSale.key).toFinset
  have hopen := sum_by_key result.remaining.entries (·.1) (fun e => weigh w e.2) aid S
    fun e he => by simp only [S, List.mem_toFinset, List.mem_append, List.mem_map]; exact .inl (.inl ⟨e, he, rfl⟩)
  have hrows := sum_by_key rows FifoRow.key (fun r => weigh w r.bought) aid S
    fun r hr => by simp only [S, List.mem_toFinset, List.mem_append, List.mem_map]; exact .inl (.inr ⟨r, hr, rfl⟩)
  have hsales := sum_by_key result.sales NativeSale.key (fun sale => weigh w sale.lots) aid S
    fun r hr => by simp only [S, List.mem_toFinset, List.mem_append, List.mem_map]; exact .inr ⟨r, hr, rfl⟩
  -- The law of each single key, added up.
  have hkey : ∀ k, (result.remaining.entries.map fun e => if e.1 = k then weigh w e.2 else 0).sum =
      (rows.map fun r => if r.key = k then weigh w r.bought else 0).sum -
        (result.sales.map fun sale => if sale.key = k then weigh w sale.lots else 0).sum := by
    intro k
    rw [sum_entries_key (weigh_nil w) k result.remaining.nodupKeys, ← weigh_purchases_eq_sum,
      ← soldWeight_add_queue hw hcut k rows]
    show weigh w (result.queueOf k) = soldWeight w k result.sales + _ - soldWeight w k result.sales
    rw [hres]; ring
  simp only [hkey, Finset.sum_sub_distrib] at hopen
  rw [hrows, hsales] at hopen
  exact hopen.symm

/-! ## Net quantity -/

/-- The row is walked: it has a positive quantity and a total. -/
def FifoRow.walked (r : FifoRow) : Bool := r.quantity.any (fun q => decide (0 < q)) && r.totalValue.isSome

/-- Bought less sold, as the SQL sum counts one row. -/
def Transaction.netQty (t : Transaction) : ℚ :=
  if t.type = .investmentBuy then t.quantity.getD 0
  else if t.type = .investmentSell then -t.quantity.getD 0
  else 0

namespace Ledger

variable (s : Ledger) (m : Market)

/-- The net quantity of an asset in rows that the walk skips. -/
def skippedQuantity (aid : ℕ) : ℚ :=
  s.transactions.sum fun r =>
    if r.2.portfolioAssetId = some aid ∧ (s.toFifoRow m r).any FifoRow.walked = false
    then r.2.netQty else 0

/-- The quantity of an asset that was sold without finding a lot at its own entity. -/
def unmatchedQuantity (aid : ℕ) : ℚ :=
  let rows := s.getBuySellTransactions m
  (rows.map fun r => if r.portfolioAssetId = aid then r.sold else 0).sum -
    ((computeFifo rows).sales.map fun sale =>
      if sale.portfolioAssetId = aid then total sale.lots else 0).sum

variable {s m}

theorem sumQuantity_sub (aid : ℕ) :
    s.sumQuantity .investmentBuy aid - s.sumQuantity .investmentSell aid =
      s.transactions.sum fun r => if r.2.portfolioAssetId = some aid then r.2.netQty else 0 := by
  rw [sub_eq_iff_eq_add', sumQuantity, sumQuantity, ← Table.sum_add]
  refine Table.sum_congr fun r _ => ?_
  unfold Transaction.netQty
  by_cases ha : r.2.portfolioAssetId = some aid
  · cases r.2.type <;> simp [ha]
  · simp [ha]

theorem toFifoRow_eq_some {r : ℕ × Transaction} {f : FifoRow} (h : s.toFifoRow m r = some f) :
    (r.2.type = .investmentBuy ∨ r.2.type = .investmentSell) ∧ f.type = r.2.type ∧
      r.2.portfolioAssetId = some f.portfolioAssetId ∧ f.quantity = r.2.quantity ∧
      f.totalValue = r.2.totalValue := by
  unfold toFifoRow at h
  split_ifs at h with htype
  simp only [Option.bind_eq_bind, Option.bind_eq_some_iff] at h
  obtain ⟨aid, haid, pa, -, ma, -, e, -, hf⟩ := h
  cases hf
  exact ⟨htype, rfl, haid, rfl, rfl⟩

/-- A walked row counts for the lots what it counts for the net quantity. -/
theorem total_bought_sub_sold {r : ℕ × Transaction} {f : FifoRow} (h : s.toFifoRow m r = some f) :
    total f.bought - f.sold = if f.walked then r.2.netQty else 0 := by
  obtain ⟨htype, hft, -, hq, hv⟩ := toFifoRow_eq_some h
  unfold FifoRow.bought FifoRow.sold FifoRow.asked FifoRow.walked Transaction.netQty
  rw [hft, hq, hv]
  cases r.2.quantity with
  | none => simp [total]
  | some q =>
    cases r.2.totalValue with
    | none => simp [total]
    | some v =>
      by_cases hpos : 0 < q
      · rcases htype with ht | ht <;> simp [ht, hpos, total, Divisible.qty]
      · simp [hpos, total]

theorem sum_getBuySellTransactions (g : FifoRow → ℚ) :
    ((s.getBuySellTransactions m).map g).sum =
      s.transactions.sum fun r => ((s.toFifoRow m r).map g).getD 0 := by
  rw [getBuySellTransactions, ((List.perm_insertionSort _ _).map g).sum_eq, Table.sum]
  induction s.transactions.rows with
  | nil => rfl
  | cons r rows ih => cases h : s.toFifoRow m r <;> simp [h, ih]

/-- The open quantity of an asset against its net quantity. -/
theorem openQuantity_eq (aid : ℕ) :
    openQuantity (computeFifo (s.getBuySellTransactions m)) aid =
      s.sumQuantity .investmentBuy aid - s.sumQuantity .investmentSell aid +
        s.unmatchedQuantity m aid - s.skippedQuantity m aid := by
  have hopen := openWeight_computeFifo (w := fun _ => 1) (fun _ => rfl) (fun _ _ => rfl)
    (s.getBuySellTransactions m) aid
  have hnet : s.sumQuantity .investmentBuy aid - s.sumQuantity .investmentSell aid -
      s.skippedQuantity m aid =
      ((s.getBuySellTransactions m).map fun f =>
        if f.portfolioAssetId = aid then total f.bought - f.sold else 0).sum := by
    rw [sumQuantity_sub, skippedQuantity, sum_getBuySellTransactions, sub_eq_iff_eq_add,
      ← Table.sum_add]
    refine Table.sum_congr fun r _ => ?_
    cases hf : s.toFifoRow m r with
    | none => simp
    | some f =>
      rw [Option.map_some, Option.getD_some, total_bought_sub_sold hf, (toFifoRow_eq_some hf).2.2.1]
      by_cases ha : f.portfolioAssetId = aid <;> cases hw : f.walked <;> simp [ha, hw]
  have hsplit : ((s.getBuySellTransactions m).map fun f =>
        if f.portfolioAssetId = aid then total f.bought - f.sold else 0).sum =
      ((s.getBuySellTransactions m).map fun f =>
        if f.portfolioAssetId = aid then total f.bought else 0).sum -
      ((s.getBuySellTransactions m).map fun f =>
        if f.portfolioAssetId = aid then f.sold else 0).sum := by
    rw [eq_sub_iff_add_eq, ← List.sum_map_add]
    refine congrArg List.sum (List.map_congr_left fun f _ => ?_)
    split_ifs <;> simp
  rw [openQuantity, hopen]
  simp only [unmatchedQuantity, total] at hnet hsplit ⊢
  linarith

/-! ## Holdings -/

/-- The laws of one reported holding. -/
structure HoldingLaws (s : Ledger) (m : Market) (h : HoldingLine) : Prop where
  net : h.netQuantity = s.sumQuantity .investmentBuy h.portfolioAssetId -
    s.sumQuantity .investmentSell h.portfolioAssetId
  quantity : openQuantity (computeFifo (s.getBuySellTransactions m)) h.portfolioAssetId =
    h.netQuantity + s.unmatchedQuantity m h.portfolioAssetId - s.skippedQuantity m h.portfolioAssetId
  /-- No result without a value, a net position or an open quantity. -/
  unvalued : h.unrealizedPl = none ↔ h.currentValue = none ∨ h.netQuantity ≤ 0 ∨
    Decimal.roundTo 4
      (openQuantity (computeFifo (s.getBuySellTransactions m)) h.portfolioAssetId) ≤ 0
  /-- Where every sale found its lots, and the quantity has four decimals, the result is value less
  open cost up to the rounding of both. -/
  unrealized : ∀ v, h.currentValue = some v → 0 < h.netQuantity →
    s.unmatchedQuantity m h.portfolioAssetId = s.skippedQuantity m h.portfolioAssetId →
    Decimal.roundTo 4 h.netQuantity = h.netQuantity →
    ∃ u, h.unrealizedPl = some u ∧
      |u - (v - openCost (computeFifo (s.getBuySellTransactions m)) h.portfolioAssetId)| ≤ 1 / 10 ^ 4

theorem exists_of_mem_getHoldings {h : HoldingLine} (hm : h ∈ s.getHoldings m) :
    ∃ total_value row, h = holdingLine m total_value
        (s.enrich m (computeFifo (s.getBuySellTransactions m)) row) ∧
      row.totalBoughtQty = s.sumQuantity .investmentBuy row.portfolioAssetId ∧
      row.totalSoldQty = s.sumQuantity .investmentSell row.portfolioAssetId := by
  simp only [getHoldings, List.map_map, List.mem_map] at hm
  obtain ⟨row, hrow, rfl⟩ := hm
  refine ⟨_, row, rfl, ?_⟩
  simp only [getHoldingsRaw, List.mem_filterMap] at hrow
  obtain ⟨pa, -, hpa⟩ := hrow
  split_ifs at hpa
  obtain ⟨ma, -, rfl⟩ := Option.map_eq_some_iff.mp hpa
  exact ⟨rfl, rfl⟩

/-- The entry of the cost basis that `get_holdings` uses. -/
theorem costBasis_filter (result : FifoResult) (aid : ℕ) :
    (computeFifoCostBasis result aid).filter (fun f => 0 < f.1) =
      if 0 < Decimal.roundTo 4 (openQuantity result aid) then
        some (Decimal.roundTo 4 (openQuantity result aid), Decimal.roundTo 4 (openCost result aid))
      else none := by
  have hl := lookup_openLots result aid
  unfold computeFifoCostBasis
  cases hlook : (openLots result).lookup aid with
  | none =>
    rw [hlook, Option.getD_none, Prod.mk.injEq] at hl
    simp [← hl.1]
  | some entry =>
    rw [hlook, Option.getD_some] at hl
    subst hl
    simp only [Option.map_some, Option.filter_some, decide_eq_true_eq]

theorem getHoldings_laws {h : HoldingLine} (hm : h ∈ s.getHoldings m) : HoldingLaws s m h := by
  obtain ⟨total_value, row, rfl, hbought, hsold⟩ := exists_of_mem_getHoldings hm
  have hnet : (holdingLine m total_value
      (s.enrich m (computeFifo (s.getBuySellTransactions m)) row)).netQuantity =
      s.sumQuantity .investmentBuy row.portfolioAssetId -
        s.sumQuantity .investmentSell row.portfolioAssetId := by
    simp only [holdingLine, enrich, hbought, hsold]
  have hopen := openQuantity_eq (s := s) (m := m) row.portfolioAssetId
  refine ⟨hnet, by rw [hnet]; exact hopen, ?_, ?_⟩
  · simp only [holdingLine, enrich, valueAndCost, costBasis_filter]
    cases (s.valuation m row (row.totalBoughtQty - row.totalSoldQty)).1 with
    | none => simp
    | some v =>
      by_cases h1 : 0 < Decimal.roundTo 4
          (openQuantity (computeFifo (s.getBuySellTransactions m)) row.portfolioAssetId)
      · by_cases h2 : 0 < row.totalBoughtQty - row.totalSoldQty
        · simp [h1, h2, not_le.mpr h1, not_le.mpr h2]
        · simp [h1, h2, not_lt.mp h2, -sub_pos]
      · simp [h1, not_lt.mp h1]
  · intro v hv hpos hmatch hround
    -- The quantity is open in full, so the average cost times the net quantity is the open cost.
    have hqty : openQuantity (computeFifo (s.getBuySellTransactions m)) row.portfolioAssetId =
        row.totalBoughtQty - row.totalSoldQty := by
      rw [hopen, hbought, hsold]
      have := hmatch
      simp only [holdingLine, enrich] at this
      rw [this]; ring
    simp only [holdingLine, enrich] at hv hpos hround
    set c := openCost (computeFifo (s.getBuySellTransactions m)) row.portfolioAssetId
    refine ⟨Decimal.roundTo 4 (v - Decimal.roundTo 4 c), ?_, ?_⟩
    · simp only [holdingLine, enrich, valueAndCost, costBasis_filter, hqty, hround, if_pos hpos, hv,
        Option.map_some, Option.bind_eq_bind, Option.bind_some]
      rw [div_mul_cancel₀ _ hpos.ne']
    · have h1 := Decimal.abs_roundTo_sub_le 4 (v - Decimal.roundTo 4 c)
      have h2 := Decimal.abs_roundTo_sub_le 4 c
      show |Decimal.roundTo 4 (v - Decimal.roundTo 4 c) - (v - c)| ≤ 1 / 10 ^ 4
      rw [abs_le] at h1 h2 ⊢
      constructor <;> linarith [h1.1, h1.2, h2.1, h2.2]

end Ledger

namespace Sample

/-- One stock, under one portfolio asset, valued by hand at `value`. -/
def market (value : ℚ) : Market where
  assets := [{ marketCode := "ACME", assetType := .stock, currencyCode := usd }]
  prices := []
  manualValues := [{ portfolioAssetId := 0, value, effectiveDate := 30 }]

def trade (type : TransactionType) (entity_id : ℕ) (day : ℤ) (qty total_val : ℚ) : LedgerCall :=
  .createTransaction
    { timestamp := at_ day 10, type, entityId := entity_id, currency := usd, portfolioAssetId := some 0
      quantity := some qty, totalValue := some total_val }

/-- Ten units bought at entity 0 for 100, `sold` of them sold at entity `e`. -/
def trades (e : ℕ) (sold : ℚ) : Ledger :=
  let base : Ledger := { profile with
    portfolioAssets := Table.empty.insert { marketCode := "ACME", trackingMode := .manual } }
  match base.calls [trade .investmentBuy 0 10 10 100, trade .investmentSell e 11 sold 60] with
  | .ok s => s
  | .error _ => base

/-- Everything bought at one entity is sold at the other: nothing is held net, the lots are all
still open, and the holding has a value and no result. -/
theorem holding_without_result :
    ((trades 1 10).getHoldings (market 50)).map (fun h =>
      (h.netQuantity, h.currentValue, h.unrealizedPl)) = [(0, some 50, none)] ∧
    openQuantity (computeFifo ((trades 1 10).getBuySellTransactions (market 50))) 0 = 10 ∧
    openCost (computeFifo ((trades 1 10).getBuySellTransactions (market 50))) 0 = 100 := by
  decide +kernel

/-- Four of the ten are sold where they were bought: the six left cost 60 and are worth 90. -/
theorem holding_with_result :
    ((trades 0 4).getHoldings (market 90)).map HoldingLine.unrealizedPl = [some 30] ∧
    Ledger.HoldingLaws (trades 0 4) (market 90)
      (((trades 0 4).getHoldings (market 90)).get ⟨0, by decide +kernel⟩) :=
  ⟨by decide +kernel, Ledger.getHoldings_laws (List.get_mem _ _)⟩

end Sample

end FinHub
