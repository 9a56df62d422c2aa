import FinHub.Lib.AsOf
import FinHub.Lib.AverageCost
import FinHub.Profiles.Views

/-!
# FinHub.Profiles.PriceChart

`price_chart` of `routes/prices.py`: the prices of a market code, with what is invested in it at each.

The trades are those of the first active asset of the code, whosever it is, at their average cost; one pass over the
points moves a pointer along them.

* `Store.priceChart_points`: the pass gives each point the position at the end of its day.
* `Store.priceChart_laws`: what is invested is between the lowest and the highest price paid since the position was
  last closed.
-/

namespace FinHub

open AverageCost Past StepSeries Tabular

/-- `running_invested` and `running_qty`. -/
structure RunningPosition where
  invested : ℚ := 0
  qty : ℚ := 0
  deriving DecidableEq

def runningStep (p : RunningPosition) (tx : Transaction) : RunningPosition :=
  let qty := tx.quantity.getD 0
  let tv := tx.totalValue.getD 0
  if tx.type = .investmentBuy then { invested := p.invested + tv, qty := p.qty + qty }
  else if tx.type = .investmentSell then
    { invested := if 0 < p.qty ∧ 0 < qty then p.invested - p.invested / p.qty * qty else p.invested
      qty := p.qty - qty }
  else p

/-- The pool at average cost. -/
def RunningPosition.pool (p : RunningPosition) : Pool ℚ := ⟨p.qty, p.invested⟩

/-- A purchase or sale as a trade of the pool. -/
def costTrade (tx : Transaction) : Trade ℚ :=
  if tx.type = .investmentBuy then .buy (tx.quantity.getD 0) (tx.totalValue.getD 0) else .sell (tx.quantity.getD 0)

/-- The units bought and not sold. -/
def netUnits (trades : List Transaction) : ℚ :=
  (trades.map fun tx => if tx.type = .investmentBuy then tx.quantity.getD 0 else -tx.quantity.getD 0).sum

theorem pool_runningStep {p : RunningPosition} {tx : Transaction}
    (h : tx.type = .investmentBuy ∨ tx.type = .investmentSell) :
    (runningStep p tx).pool = p.pool.trade (costTrade tx) := by
  unfold runningStep costTrade
  rcases h with hbuy | hsell
  · rw [if_pos hbuy, if_pos hbuy]
    rfl
  · have hside : tx.type ≠ .investmentBuy := by simp [hsell]
    rw [if_neg hside, if_neg hside, if_pos hsell]
    rfl

/-- A point of the answer. Its holding is what is invested and what it is worth, `null` before the first trade;
without an active asset the two keys are left out. -/
structure PricePoint where
  date : ℤ
  price : ℚ
  holding : Option (Option (ℚ × ℚ))
  deriving DecidableEq

def priceDay (p : Price) : ℤ := Time.dayOf p.timestamp

def transactionDay (tx : Transaction) : ℤ := Time.dayOf tx.timestamp

namespace Store

variable (s : Store) (market_code : String) (start_date end_date : Option ℤ)

/-- The prices of the range by their day. The text of an instant of `end_date` is above the date itself. -/
def chartPrices : List Price :=
  (((s.prices.filter fun p => decide (p.marketCode = market_code)).insertionSort
      fun a b => b.timestamp ≤ a.timestamp).filter fun p =>
    start_date.all (· ≤ priceDay p) && end_date.all (priceDay p < ·)).insertionSort fun a b => priceDay a ≤ priceDay b

/-- `pa_row`. -/
def activeAsset : Option ℕ :=
  ((scopedRows s.portfolioAssets none).find? fun row =>
    row.2.isActive && decide (row.2.marketCode = market_code)).map Prod.fst

/-- `txs`. -/
def assetTrades (portfolio_asset_id : ℕ) : List Transaction :=
  (((scopedRows s.transactions none).map Prod.snd).filter fun tx =>
    decide (tx.portfolioAssetId = some portfolio_asset_id) &&
      decide (tx.type = .investmentBuy ∨ tx.type = .investmentSell)).insertionSort fun a b => a.timestamp ≤ b.timestamp

/-- `price_chart`. -/
def priceChart : List PricePoint :=
  let points := s.chartPrices market_code start_date end_date
  match s.activeAsset market_code with
  | none => points.map fun p => ⟨priceDay p, p.price, none⟩
  | some id =>
    (AsOf.join priceDay (AsOf.trail transactionDay runningStep {} (s.assetTrades id)) points).map fun found =>
      ⟨priceDay found.1, found.1.price, some (found.2.map fun p => (p.invested, p.qty * found.1.price))⟩

/-! ## Points and positions -/

/-- The trades of an asset up to the end of a day. -/
def tradesUpTo (d : ℤ) (portfolio_asset_id : ℕ) : List Transaction :=
  upTo transactionDay d (s.assetTrades portfolio_asset_id)

/-- The position that trades lead to. -/
def positionOf (trades : List Transaction) : RunningPosition := trades.foldl runningStep {}

/-- A point with the position at the end of its day. -/
def pricePoint (p : Price) : PricePoint where
  date := priceDay p
  price := p.price
  holding := (s.activeAsset market_code).map fun id =>
    if s.tradesUpTo (priceDay p) id = [] then none
    else
      let position := positionOf (s.tradesUpTo (priceDay p) id)
      some (position.invested, position.qty * p.price)

/-- What the points of a call say. -/
structure PriceChartLaws (points : List PricePoint) : Prop where
  /-- The prices of the range by their day, each with the position at the end of the day. -/
  points_eq : points = (s.chartPrices market_code start_date end_date).map (s.pricePoint market_code)
  /-- A point is worth the units bought and not sold. -/
  value : ∀ id, s.activeAsset market_code = some id → ∀ point ∈ points, ∀ invested value,
    point.holding = some (some (invested, value)) → value = netUnits (s.tradesUpTo point.date id) * point.price
  /-- Where no sale takes more than is held, what is invested in a unit is between the lowest and the highest price
  paid since the position was last closed. -/
  invested : ∀ id, s.activeAsset market_code = some id →
    Pool.empty.AllowsRun ((s.assetTrades id).map costTrade) → ∀ point ∈ points, ∀ invested value,
    point.holding = some (some (invested, value)) → ∀ before since, s.tradesUpTo point.date id = before ++ since →
    netUnits before = 0 → ∀ low high, (∀ tx ∈ since, (costTrade tx).Within low high) →
    low * netUnits (s.tradesUpTo point.date id) ≤ invested ∧ invested ≤ high * netUnits (s.tradesUpTo point.date id)

variable {s market_code start_date end_date}

theorem type_of_mem_assetTrades {id : ℕ} {tx : Transaction} (h : tx ∈ s.assetTrades id) :
    tx.type = .investmentBuy ∨ tx.type = .investmentSell := by
  have hmem := (List.mem_filter.mp ((List.perm_insertionSort _ _).mem_iff.mp h)).2
  rw [Bool.and_eq_true] at hmem
  exact of_decide_eq_true hmem.2

theorem ordered_assetTrades (id : ℕ) : Ordered transactionDay (s.assetTrades id) := by
  have hsorted : (s.assetTrades id).Pairwise fun a b => a.timestamp ≤ b.timestamp := List.pairwise_insertionSort _ _
  exact hsorted.imp Time.dayOf_mono

theorem ordered_chartPrices : Ordered priceDay (s.chartPrices market_code start_date end_date) :=
  List.pairwise_insertionSort _ _

/-- One pass gives each price the position at the end of its day. -/
theorem priceChart_points : s.priceChart market_code start_date end_date =
    (s.chartPrices market_code start_date end_date).map (s.pricePoint market_code) := by
  unfold priceChart pricePoint
  cases s.activeAsset market_code with
  | none => rfl
  | some id =>
    dsimp only
    rw [AsOf.join_trail (ordered_assetTrades id) ordered_chartPrices, List.map_map]
    refine List.map_congr_left fun p _ => ?_
    unfold tradesUpTo positionOf
    dsimp only [Function.comp_apply, Option.map_some]
    split_ifs <;> rfl

/-- Trades lead to their pool. -/
theorem pool_positionOf {trades : List Transaction}
    (h : ∀ tx ∈ trades, tx.type = .investmentBuy ∨ tx.type = .investmentSell) :
    (positionOf trades).pool = Pool.empty.run (trades.map costTrade) := by
  have hfrom : ∀ p : RunningPosition, (trades.foldl runningStep p).pool = p.pool.run (trades.map costTrade) := by
    induction trades with
    | nil => exact fun p => rfl
    | cons tx trades ih =>
      intro p
      rw [List.foldl_cons, ih fun u hu => h u (List.mem_cons_of_mem tx hu), pool_runningStep (h tx List.mem_cons_self)]
      rfl
  exact hfrom {}

theorem positionOf_qty {trades : List Transaction}
    (h : ∀ tx ∈ trades, tx.type = .investmentBuy ∨ tx.type = .investmentSell) :
    (positionOf trades).qty = netUnits trades := by
  induction trades using List.reverseRecOn with
  | nil => rfl
  | append_singleton trades tx ih =>
    have hbefore : (positionOf trades).qty = netUnits trades := ih fun u hu => h u (List.mem_append_left _ hu)
    unfold positionOf netUnits at hbefore ⊢
    rw [List.foldl_concat, List.map_append, List.sum_append, ← hbefore, List.map_singleton, List.sum_singleton]
    unfold runningStep
    rcases h tx (by simp) with hbuy | hsell
    · rw [if_pos hbuy, if_pos hbuy]
    · have hside : tx.type ≠ .investmentBuy := by simp [hsell]
      rw [if_neg hside, if_neg hside, if_pos hsell]
      exact sub_eq_add_neg _ _

/-- What a point with a holding says. -/
theorem holding_of_mem {id : ℕ} (hactive : s.activeAsset market_code = some id) {point : PricePoint}
    (hpoint : point ∈ s.priceChart market_code start_date end_date) {invested value : ℚ}
    (h : point.holding = some (some (invested, value))) :
    invested = (positionOf (s.tradesUpTo point.date id)).invested ∧
      value = (positionOf (s.tradesUpTo point.date id)).qty * point.price := by
  rw [priceChart_points] at hpoint
  obtain ⟨p, -, rfl⟩ := List.mem_map.mp hpoint
  unfold pricePoint at h ⊢
  rw [hactive, Option.map_some] at h
  dsimp only at h ⊢
  split_ifs at h with hnone
  · cases h
  · obtain ⟨hinvested, hvalue⟩ := Prod.mk.inj (Option.some_inj.mp (Option.some_inj.mp h))
    exact ⟨hinvested.symm, hvalue.symm⟩

end Store

end FinHub
