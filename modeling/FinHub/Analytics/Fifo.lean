import FinHub.Lib.Decimal
import FinHub.Lib.LotLine
import FinHub.Model.Ledger
import Mathlib.Data.List.AList

/-!
# FinHub.Analytics.Fifo

The lot engine of `services/pnl_rules.py`: `computeFifo` walks buy and sell rows and keeps a queue
of lots for every `(portfolio asset, entity)`.

* `fifoStep` is one pass of its loop, `consumeLots` the inner `while`.
* `queueOf_fifoStep` and `sales_fifoStep` say what one row does: it acts on the queue of its own
  key, which is then the line `LotLine.dropQty` leaves of the queue with the row's lot appended.
* `computeFifo_laws` puts the run together: the queue of a key is its purchases laid end to end,
  without the stretch its sales have consumed.
-/

namespace FinHub

open LotLine

/-- One purchase lot in a FIFO queue. -/
structure PnlLot where
  quantity : ℚ
  unitCost : ℚ
  buyDate : Timestamp
  transactionId : Option ℕ := none
  deriving DecidableEq

namespace PnlLot

instance : Divisible PnlLot ℚ where
  qty := quantity
  resize q l := { l with quantity := q }
  qty_resize _ _ := rfl
  resize_resize _ _ _ := rfl

/-- Consumed lots do not keep the id of their purchase. -/
def anonymous (l : PnlLot) : PnlLot := { l with transactionId := none }

/-- What a cut leaves alone. -/
def mark (l : PnlLot) : ℚ × Timestamp × Option ℕ := (l.unitCost, l.buyDate, l.transactionId)

end PnlLot

/-- A row of `get_buy_sell_transactions`. -/
structure FifoRow where
  transactionId : ℕ
  portfolioAssetId : ℕ
  entityId : Option ℕ
  entityName : Option String
  marketCode : Option String
  ticker : Option String
  name : Option String
  type : TransactionType
  timestamp : Timestamp
  quantity : Option ℚ
  unitPrice : Option ℚ
  totalValue : Option ℚ
  currency : Currency
  paymentCurrency : Option Currency
  fxRate : Option ℚ
  fiscalRule : Option String
  fiscalExemptionId : Option ℕ
  deriving DecidableEq

/-- `(portfolio asset, entity)`. -/
abbrev FifoKey := ℕ × Option ℕ

def FifoRow.key (r : FifoRow) : FifoKey := (r.portfolioAssetId, r.entityId)

/-- A sell with the lots it consumed. -/
structure NativeSale where
  transactionId : ℕ
  portfolioAssetId : ℕ
  marketCode : Option String
  ticker : Option String
  name : Option String
  sellDate : Timestamp
  sellQuantity : ℚ
  sellPrice : ℚ
  sellTotal : ℚ
  currency : Currency
  paymentCurrency : Option Currency
  fxRate : Option ℚ
  fiscalRule : Option String
  fiscalExemptionId : Option ℕ
  lots : List PnlLot
  costBasis : ℚ
  realizedPl : ℚ
  entityId : Option ℕ
  entityName : Option String
  deriving DecidableEq

def NativeSale.key (sale : NativeSale) : FifoKey := (sale.portfolioAssetId, sale.entityId)

/-- `compute_fifo` while it walks, and at its end: the sales so far and the queues. The order of the
queues in the Python dictionary is not kept; nothing reads it. -/
structure FifoResult where
  sales : List NativeSale
  remaining : AList fun _ : FifoKey => List PnlLot

namespace FifoResult

def empty : FifoResult := ⟨[], ∅⟩

def queueOf (st : FifoResult) (key : FifoKey) : List PnlLot := (st.remaining.lookup key).getD []

end FifoResult

/-- The inner loop of a sell: the pieces taken from the front of the queue, and what stays. Once a
piece is smaller than its lot nothing remains to consume, and the loop ends. -/
def consumeLots (remaining_to_consume : ℚ) : List PnlLot → List PnlLot × List PnlLot
  | [] => ([], [])
  | lot :: queue =>
    if 0 < remaining_to_consume then
      let take := min lot.quantity remaining_to_consume
      let piece : PnlLot := { quantity := take, unitCost := lot.unitCost, buyDate := lot.buyDate }
      if lot.quantity ≤ take then
        let rest := consumeLots (remaining_to_consume - take) queue
        (piece :: rest.1, rest.2)
      else ([piece], { lot with quantity := lot.quantity - take } :: queue)
    else ([], lot :: queue)

def lotCost (lots : List PnlLot) : ℚ := (lots.map fun l => l.quantity * l.unitCost).sum

/-- The record of a sell of `qty` for `total_val` that consumed `consumed`. -/
def nativeSale (r : FifoRow) (qty total_val : ℚ) (consumed : List PnlLot) : NativeSale where
  transactionId := r.transactionId
  portfolioAssetId := r.portfolioAssetId
  marketCode := r.marketCode
  ticker := r.ticker
  name := r.name
  sellDate := r.timestamp
  sellQuantity := qty
  sellPrice := r.unitPrice.getD (total_val / qty)
  sellTotal := total_val
  currency := r.currency
  paymentCurrency := r.paymentCurrency
  fxRate := r.fxRate
  fiscalRule := r.fiscalRule
  fiscalExemptionId := r.fiscalExemptionId
  lots := consumed
  costBasis := Decimal.roundTo 4 (lotCost consumed)
  realizedPl := Decimal.roundTo 4 (total_val - lotCost consumed)
  entityId := r.entityId
  entityName := r.entityName

def fifoStep (st : FifoResult) (r : FifoRow) : FifoResult :=
  match r.quantity, r.totalValue with
  | some qty, some total_val =>
    if qty ≤ 0 then st
    else if r.type = .investmentBuy then
      let lot : PnlLot :=
        { quantity := qty, unitCost := total_val / qty, buyDate := r.timestamp
          transactionId := some r.transactionId }
      { st with remaining := st.remaining.insert r.key (st.queueOf r.key ++ [lot]) }
    else if r.type ≠ .investmentSell then st
    else
      match st.remaining.lookup r.key with
      | none | some [] => st
      | some (lot :: queue) =>
        let loop := consumeLots qty (lot :: queue)
        let remaining := st.remaining.insert r.key loop.2
        if loop.1 = [] then { st with remaining }
        else ⟨st.sales ++ [nativeSale r qty total_val loop.1], remaining⟩
  | _, _ => st

def computeFifo (rows : List FifoRow) : FifoResult := rows.foldl fifoStep .empty

/-! ## What a row asks for -/

/-- The lot a row puts into its queue: purchases of a positive quantity with a recorded total. -/
def FifoRow.bought (r : FifoRow) : List PnlLot :=
  match r.quantity, r.totalValue with
  | some qty, some total_val =>
    if r.type = .investmentBuy ∧ 0 < qty then
      [{ quantity := qty, unitCost := total_val / qty, buyDate := r.timestamp
         transactionId := some r.transactionId }]
    else []
  | _, _ => []

/-- The quantity a row takes out of its queue, with the total of the sale. -/
def FifoRow.asked (r : FifoRow) : Option (ℚ × ℚ) :=
  match r.quantity, r.totalValue with
  | some qty, some total_val =>
    if r.type = .investmentSell ∧ 0 < qty then some (qty, total_val) else none
  | _, _ => none

def FifoRow.sold (r : FifoRow) : ℚ := (r.asked.map Prod.fst).getD 0

/-- The sale a row records when it takes `lots`; a sell that finds nothing records none. -/
def FifoRow.saleOf (r : FifoRow) (lots : List PnlLot) : List NativeSale :=
  if lots = [] then []
  else (r.asked.map fun a => nativeSale r a.1 a.2 (lots.map PnlLot.anonymous)).toList

theorem FifoRow.sold_nonneg (r : FifoRow) : 0 ≤ r.sold := by
  unfold sold asked
  split
  · split_ifs with h
    · simpa using h.2.le
    · simp
  · simp

theorem FifoRow.bought_pos (r : FifoRow) : ∀ l ∈ r.bought, 0 < l.quantity := by
  unfold bought
  split
  · split_ifs with h
    · simpa using h.2
    · simp
  · simp

/-- A row does not both buy and sell. -/
theorem FifoRow.bought_eq_nil_of_asked {r : FifoRow} {a : ℚ × ℚ} (h : r.asked = some a) :
    r.bought = [] ∧ 0 < a.1 := by
  unfold asked at h
  unfold bought
  split at h
  · split_ifs at h with hs
    cases h
    simp [hs.1, hs.2]
  · cases h

theorem consumeLots_eq (q : ℚ) (queue : List PnlLot) :
    consumeLots q queue = ((takeQty q queue).map PnlLot.anonymous, dropQty q queue) := by
  induction queue generalizing q with
  | nil => rfl
  | cons lot queue ih =>
    simp only [consumeLots, takeQty, dropQty]
    by_cases hq : 0 < q
    · have hq' : ¬ q ≤ 0 := not_le.mpr hq
      by_cases hl : lot.quantity ≤ q
      · have hl' : Divisible.qty lot ≤ q := hl
        simp only [if_pos hq, if_neg hq', if_pos hl', min_eq_left hl, le_refl, if_true, ih,
          List.map_cons]
        rfl
      · have hl' : ¬ Divisible.qty lot ≤ q := hl
        have hmin : min lot.quantity q = q := min_eq_right (not_le.mp hl).le
        simp only [if_pos hq, if_neg hq', if_neg hl', hmin, if_neg hl, List.map_cons, List.map_nil]
        rfl
    · simp [if_neg hq, not_lt.mp hq]

/-! ## One row -/

theorem queueOf_insert (st : FifoResult) (sales : List NativeSale) (key k : FifoKey)
    (lots : List PnlLot) : FifoResult.queueOf ⟨sales, st.remaining.insert key lots⟩ k =
      if key = k then lots else st.queueOf k := by
  unfold FifoResult.queueOf
  split_ifs with h
  · subst h; simp
  · rw [AList.lookup_insert_ne (Ne.symm h)]

/-- What one row does to the ledger of lots, whichever branch it takes. -/
theorem fifoStep_spec (st : FifoResult) (r : FifoRow) :
    (fifoStep st r).sales = st.sales ++ r.saleOf (takeQty r.sold (st.queueOf r.key)) ∧
    ∀ k, (fifoStep st r).queueOf k =
      if r.key = k then dropQty r.sold (st.queueOf k) ++ r.bought else st.queueOf k := by
  have hskip : r.bought = [] → r.asked = none →
      st.sales = st.sales ++ r.saleOf (takeQty r.sold (st.queueOf r.key)) ∧
      ∀ k, st.queueOf k =
        if r.key = k then dropQty r.sold (st.queueOf k) ++ r.bought else st.queueOf k := by
    intro hb ha
    have hs : r.sold = 0 := by simp [FifoRow.sold, ha]
    simp [hb, hs, takeQty_of_nonpos, dropQty_of_nonpos, FifoRow.saleOf]
  cases hq : r.quantity with
  | none =>
    simpa [fifoStep, hq] using hskip (by simp [FifoRow.bought, hq]) (by simp [FifoRow.asked, hq])
  | some qty =>
    cases hv : r.totalValue with
    | none =>
      simpa [fifoStep, hq, hv] using
        hskip (by simp [FifoRow.bought, hv]) (by simp [FifoRow.asked, hv])
    | some total_val =>
      simp only [fifoStep, hq, hv]
      by_cases hpos : qty ≤ 0
      · rw [if_pos hpos]
        exact hskip (by simp [FifoRow.bought, hq, hv, not_lt.mpr hpos])
          (by simp [FifoRow.asked, hq, hv, not_lt.mpr hpos])
      rw [if_neg hpos]
      by_cases hbuy : r.type = .investmentBuy
      · have hs : r.sold = 0 := by simp [FifoRow.sold, FifoRow.asked, hq, hv, hbuy]
        rw [if_pos hbuy, hs]
        refine ⟨by simp [takeQty_of_nonpos, FifoRow.saleOf], fun k => ?_⟩
        rw [queueOf_insert]
        split_ifs with hk
        · simp [dropQty_of_nonpos, FifoRow.bought, hq, hv, hbuy, not_le.mp hpos, hk]
        · rfl
      rw [if_neg hbuy]
      by_cases hsell : r.type = .investmentSell
      swap
      · rw [if_pos hsell]
        exact hskip (by simp [FifoRow.bought, hq, hv, hbuy]) (by simp [FifoRow.asked, hq, hv, hsell])
      have hasked : r.asked = some (qty, total_val) := by
        simp [FifoRow.asked, hq, hv, hsell, not_le.mp hpos]
      have hs : r.sold = qty := by simp [FifoRow.sold, hasked]
      have hb : r.bought = [] := (FifoRow.bought_eq_nil_of_asked hasked).1
      rw [if_neg (not_not.mpr hsell), hs, hb]
      cases hqueue : st.remaining.lookup r.key with
      | none =>
        have hnil : st.queueOf r.key = [] := by simp [FifoResult.queueOf, hqueue]
        refine ⟨by simp [hnil, FifoRow.saleOf], fun k => ?_⟩
        split_ifs with hk
        · simp [← hk, hnil]
        · rfl
      | some queue =>
        have hqueue' : st.queueOf r.key = queue := by simp [FifoResult.queueOf, hqueue]
        cases queue with
        | nil =>
          refine ⟨by simp [hqueue', FifoRow.saleOf], fun k => ?_⟩
          split_ifs with hk
          · simp [← hk, hqueue']
          · rfl
        | cons lot rest =>
          simp only [consumeLots_eq, List.map_eq_nil_iff]
          by_cases hnil : takeQty qty (lot :: rest) = []
          · rw [if_pos hnil]
            refine ⟨by simp [hqueue', hnil, FifoRow.saleOf], fun k => ?_⟩
            rw [queueOf_insert]
            split_ifs with hk
            · simp [← hk, hqueue']
            · rfl
          · rw [if_neg hnil]
            refine ⟨by simp [hqueue', hnil, FifoRow.saleOf, hasked], fun k => ?_⟩
            rw [queueOf_insert]
            split_ifs with hk
            · simp [← hk, hqueue']
            · rfl

/-! ## Runs -/

/-- The purchases of a key, laid end to end. -/
def purchases (k : FifoKey) (rows : List FifoRow) : List PnlLot :=
  rows.flatMap fun r => if r.key = k then r.bought else []

/-- What a row pays for a purchase of a positive quantity. -/
def FifoRow.paid (r : FifoRow) : ℚ :=
  match r.quantity, r.totalValue with
  | some qty, some total_val => if r.type = .investmentBuy ∧ 0 < qty then total_val else 0
  | _, _ => 0

def purchaseCost (k : FifoKey) (rows : List FifoRow) : ℚ :=
  (rows.map fun r => if r.key = k then r.paid else 0).sum

/-- A weight of the lots that the sales of a key consumed. -/
def soldWeight (w : PnlLot → ℚ) (k : FifoKey) (sales : List NativeSale) : ℚ :=
  (sales.map fun sale => if sale.key = k then weigh w sale.lots else 0).sum

def soldQuantity (k : FifoKey) (sales : List NativeSale) : ℚ := soldWeight (fun _ => 1) k sales

def soldCost (k : FifoKey) (sales : List NativeSale) : ℚ := soldWeight PnlLot.unitCost k sales

theorem computeFifo_append (rows : List FifoRow) (r : FifoRow) :
    computeFifo (rows ++ [r]) = fifoStep (computeFifo rows) r := by
  simp [computeFifo]

theorem purchases_append (k : FifoKey) (rows : List FifoRow) (r : FifoRow) :
    purchases k (rows ++ [r]) = purchases k rows ++ if r.key = k then r.bought else [] := by
  simp [purchases]

theorem purchases_pos (k : FifoKey) (rows : List FifoRow) :
    ∀ l ∈ purchases k rows, 0 < Divisible.qty l := by
  intro l hl
  obtain ⟨r, -, hr⟩ := List.mem_flatMap.mp hl
  split_ifs at hr
  · exact r.bought_pos l hr
  · cases hr

theorem weigh_anonymous {w : PnlLot → ℚ} (hw : ∀ l : PnlLot, w l.anonymous = w l)
    (lots : List PnlLot) : weigh w (lots.map PnlLot.anonymous) = weigh w lots := by
  simp only [weigh, List.map_map, Function.comp_def, hw]
  rfl

theorem key_of_mem_saleOf {r : FifoRow} {lots : List PnlLot} {sale : NativeSale}
    (h : sale ∈ r.saleOf lots) : sale.key = r.key := by
  unfold FifoRow.saleOf at h
  split_ifs at h
  · cases h
  · cases ha : r.asked with
    | none => simp [ha] at h
    | some a =>
      obtain rfl : sale = _ := by simpa [ha] using h
      rfl

/-- A row adds what it takes to the sales of its own key, and nothing to the others. -/
theorem soldWeight_saleOf {w : PnlLot → ℚ} (hw : ∀ l : PnlLot, w l.anonymous = w l) (k : FifoKey)
    (r : FifoRow) (queue : List PnlLot) : soldWeight w k (r.saleOf (takeQty r.sold queue)) =
      if r.key = k then weigh w (takeQty r.sold queue) else 0 := by
  unfold FifoRow.saleOf
  by_cases hnil : takeQty r.sold queue = []
  · simp [soldWeight, hnil]
  · rw [if_neg hnil]
    cases ha : r.asked with
    | none =>
      have hs : r.sold = 0 := by simp [FifoRow.sold, ha]
      exact absurd (by rw [hs, takeQty_of_nonpos le_rfl]) hnil
    | some a =>
      have hkey : ∀ lots, (nativeSale r a.1 a.2 lots).key = r.key := fun _ => rfl
      simp only [soldWeight, Option.map_some, Option.toList_some, List.map_cons, List.map_nil,
        List.sum_cons, List.sum_nil, hkey, add_zero]
      split_ifs
      · exact weigh_anonymous hw _
      · rfl

theorem soldWeight_append (w : PnlLot → ℚ) (k : FifoKey) (xs ys : List NativeSale) :
    soldWeight w k (xs ++ ys) = soldWeight w k xs + soldWeight w k ys := by
  simp [soldWeight]

/-- Nothing is lost: a weight of the purchases of a key is shared by its sales and its queue. -/
theorem soldWeight_add_queue {w : PnlLot → ℚ} (hw : ∀ l : PnlLot, w l.anonymous = w l)
    (hcut : CutInvariant w) (k : FifoKey) (rows : List FifoRow) :
    soldWeight w k (computeFifo rows).sales + weigh w ((computeFifo rows).queueOf k) =
      weigh w (purchases k rows) := by
  induction rows using List.reverseRecOn with
  | nil => simp [computeFifo, FifoResult.empty, FifoResult.queueOf, soldWeight, purchases]
  | append_singleton rows r ih =>
    obtain ⟨hsales, hqueue⟩ := fifoStep_spec (computeFifo rows) r
    rw [computeFifo_append, hsales, hqueue, purchases_append, soldWeight_append,
      soldWeight_saleOf hw, weigh_append, ← ih]
    split_ifs with hk
    · have := weigh_take_add_drop hcut r.sold ((computeFifo rows).queueOf k)
      rw [hk, weigh_append]
      linarith
    · simp

/-- The queue of a key is the line of its purchases without the stretch its sales consumed. -/
theorem queueOf_eq_dropQty (k : FifoKey) (rows : List FifoRow) :
    (0 ≤ soldQuantity k (computeFifo rows).sales ∧
      soldQuantity k (computeFifo rows).sales ≤ total (purchases k rows)) ∧
    (computeFifo rows).queueOf k =
      dropQty (soldQuantity k (computeFifo rows).sales) (purchases k rows) := by
  induction rows using List.reverseRecOn with
  | nil => simp [computeFifo, FifoResult.empty, FifoResult.queueOf, soldQuantity, soldWeight,
      purchases, total]
  | append_singleton rows r ih =>
    obtain ⟨⟨hnonneg, hle⟩, hq⟩ := ih
    obtain ⟨hsales, hqueue⟩ := fifoStep_spec (computeFifo rows) r
    have hsold : soldQuantity k (computeFifo (rows ++ [r])).sales =
        soldQuantity k (computeFifo rows).sales +
          if r.key = k then total (takeQty r.sold ((computeFifo rows).queueOf r.key)) else 0 := by
      rw [computeFifo_append, hsales, soldQuantity, soldWeight_append,
        soldWeight_saleOf (fun _ => rfl)]
      rfl
    rw [hsold, computeFifo_append, hqueue, purchases_append]
    split_ifs with hk
    swap
    · simpa using ⟨⟨hnonneg, hle⟩, hq⟩
    rw [hk]
    have hpos := purchases_pos k rows
    have hqpos : ∀ l ∈ (computeFifo rows).queueOf k, 0 < Divisible.qty l := by
      rw [hq]; exact dropQty_pos hpos
    have htake : 0 ≤ total (takeQty r.sold ((computeFifo rows).queueOf k)) :=
      total_nonneg (takeQty_pos hqpos)
    have hfit : soldQuantity k (computeFifo rows).sales +
        total (takeQty r.sold ((computeFifo rows).queueOf k)) ≤ total (purchases k rows) := by
      have h1 := total_take_add_drop r.sold ((computeFifo rows).queueOf k)
      have h2 := total_take_add_drop (soldQuantity k (computeFifo rows).sales) (purchases k rows)
      have h3 : 0 ≤ total (dropQty r.sold ((computeFifo rows).queueOf k)) :=
        total_nonneg (dropQty_pos hqpos)
      rw [total_takeQty hnonneg hle, ← hq] at h2
      linarith
    have hbought : 0 ≤ total r.bought := total_nonneg r.bought_pos
    refine ⟨⟨by linarith, ?_⟩, ?_⟩
    · simp only [total, weigh_append] at hfit hbought ⊢
      linarith
    · rw [dropQty_append hfit, ← dropQty_total_takeQty r.sold_nonneg hqpos, hq,
        dropQty_dropQty hnonneg (by rw [← hq]; exact htake) hpos]

theorem sales_prefix (rows post : List FifoRow) :
    (computeFifo rows).sales <+: (computeFifo (rows ++ post)).sales := by
  induction post using List.reverseRecOn with
  | nil => simp
  | append_singleton post r ih =>
    rw [← List.append_assoc, computeFifo_append, (fifoStep_spec _ r).1]
    exact ih.trans (List.prefix_append _ _)

/-- A sale takes no more than was sold, and reports the rounded cost of what it took. -/
theorem sale_sound {rows : List FifoRow} {sale : NativeSale} (h : sale ∈ (computeFifo rows).sales) :
    total sale.lots ≤ sale.sellQuantity ∧ sale.costBasis = Decimal.roundTo 4 (lotCost sale.lots) := by
  induction rows using List.reverseRecOn with
  | nil => cases h
  | append_singleton rows r ih =>
    rw [computeFifo_append, (fifoStep_spec _ r).1] at h
    rcases List.mem_append.mp h with h | h
    · exact ih h
    unfold FifoRow.saleOf at h
    split_ifs at h
    · cases h
    cases ha : r.asked with
    | none => simp [ha] at h
    | some a =>
      obtain rfl : sale = _ := by simpa [ha] using h
      refine ⟨?_, rfl⟩
      have hs : r.sold = a.1 := by simp [FifoRow.sold, ha]
      show total _ ≤ a.1
      simp only [nativeSale]
      rw [total, weigh_anonymous (fun _ => rfl), hs]
      exact total_takeQty_le (FifoRow.bought_eq_nil_of_asked ha).2.le _

/-- The rows of other keys may be left out. -/
theorem computeFifo_filter (k : FifoKey) (rows : List FifoRow) :
    (computeFifo (rows.filter fun r => r.key = k)).queueOf k = (computeFifo rows).queueOf k ∧
    (computeFifo (rows.filter fun r => r.key = k)).sales =
      (computeFifo rows).sales.filter fun sale => sale.key = k := by
  induction rows using List.reverseRecOn with
  | nil => exact ⟨rfl, rfl⟩
  | append_singleton rows r ih =>
    obtain ⟨hsales, hqueue⟩ := fifoStep_spec (computeFifo rows) r
    rw [computeFifo_append, List.filter_append, hsales, hqueue, List.filter_append]
    by_cases hk : r.key = k
    · obtain ⟨hsales', hqueue'⟩ :=
        fifoStep_spec (computeFifo (rows.filter fun r => r.key = k)) r
      have hown : (r.saleOf (takeQty r.sold ((computeFifo rows).queueOf k))).filter
          (fun sale => sale.key = k) = r.saleOf (takeQty r.sold ((computeFifo rows).queueOf k)) :=
        List.filter_eq_self.mpr fun sale h => by simp [key_of_mem_saleOf h, hk]
      simp only [hk, List.filter_cons, List.filter_nil, decide_true, if_true, computeFifo_append,
        hsales', hqueue', ih.1, ih.2, hown, and_self]
    · have hother : ∀ lots, (r.saleOf lots).filter (fun sale => sale.key = k) = [] := fun lots =>
        List.filter_eq_nil_iff.mpr fun sale h => by simp [key_of_mem_saleOf h, hk]
      simpa [hk, hother] using ih

theorem weigh_bought (r : FifoRow) : weigh PnlLot.unitCost r.bought = r.paid := by
  unfold FifoRow.bought FifoRow.paid
  split
  · split_ifs with h
    · have hne := h.2.ne'
      simp only [weigh_cons, weigh_nil, add_zero, Divisible.qty]
      field_simp
    · rfl
  · rfl

theorem weigh_purchases (k : FifoKey) (rows : List FifoRow) :
    weigh PnlLot.unitCost (purchases k rows) = purchaseCost k rows := by
  induction rows with
  | nil => rfl
  | cons r rows ih =>
    simp only [purchases, purchaseCost, List.flatMap_cons, List.map_cons, List.sum_cons,
      weigh_append] at ih ⊢
    rw [ih]
    split_ifs
    · rw [weigh_bought]
    · rfl

/-- The laws of the lot ledger for one key. -/
structure FifoLaws (rows : List FifoRow) (k : FifoKey) : Prop where
  /-- Consumed and left over make up what was bought. -/
  quantity : soldQuantity k (computeFifo rows).sales + total ((computeFifo rows).queueOf k) =
    total (purchases k rows)
  /-- So do the costs. -/
  cost : soldCost k (computeFifo rows).sales + lotCost ((computeFifo rows).queueOf k) =
    purchaseCost k rows
  costBasis : ∀ sale ∈ (computeFifo rows).sales,
    sale.costBasis = Decimal.roundTo 4 (lotCost sale.lots)
  positive : ∀ l ∈ (computeFifo rows).queueOf k, 0 < l.quantity
  order : ((computeFifo rows).queueOf k).map PnlLot.mark <:+ (purchases k rows).map PnlLot.mark
  noExcess : ∀ sale ∈ (computeFifo rows).sales, total sale.lots ≤ sale.sellQuantity
  /-- Each row's sale takes the stretch of the purchase line right after what was consumed. -/
  interval : ∀ pre r post, rows = pre ++ r :: post → r.key = k →
    (computeFifo (pre ++ [r])).sales = (computeFifo pre).sales ++ r.saleOf
      (takeQty r.sold (dropQty (soldQuantity k (computeFifo pre).sales) (purchases k pre))) ∧
    (computeFifo (pre ++ [r])).sales <+: (computeFifo rows).sales
  locality : (computeFifo (rows.filter fun r => r.key = k)).queueOf k =
      (computeFifo rows).queueOf k ∧
    (computeFifo (rows.filter fun r => r.key = k)).sales =
      (computeFifo rows).sales.filter fun sale => sale.key = k

theorem computeFifo_laws (rows : List FifoRow) (k : FifoKey) : FifoLaws rows k where
  quantity := soldWeight_add_queue (fun _ => rfl) (fun _ _ => rfl) k rows
  cost := by
    rw [← weigh_purchases]
    exact soldWeight_add_queue (fun _ => rfl) (fun _ _ => rfl) k rows
  costBasis _ h := (sale_sound h).2
  positive := by
    rw [(queueOf_eq_dropQty k rows).2]
    exact dropQty_pos (purchases_pos k rows)
  order := by
    rw [(queueOf_eq_dropQty k rows).2]
    exact dropQty_suffix (fun _ _ => rfl) _ _
  noExcess _ h := (sale_sound h).1
  interval pre r post he hk := by
    constructor
    · rw [computeFifo_append, (fifoStep_spec _ r).1, hk, (queueOf_eq_dropQty k pre).2]
    · rw [he, show pre ++ r :: post = pre ++ [r] ++ post by simp]
      exact sales_prefix _ _
  locality := computeFifo_filter k rows

namespace Sample

/-- A row of asset 0 at entity 0. -/
def fifoRow (id : ℕ) (type : TransactionType) (qty total_val : ℚ) : FifoRow where
  transactionId := id
  portfolioAssetId := 0
  entityId := some 0
  entityName := none
  marketCode := none
  ticker := none
  name := none
  type := type
  timestamp := id
  quantity := some qty
  unitPrice := none
  totalValue := some total_val
  currency := usd
  paymentCurrency := none
  fxRate := none
  fiscalRule := none
  fiscalExemptionId := none

def boughtFor (rows : List FifoRow) : ℚ :=
  ((rows.filter fun r => r.type = .investmentBuy).map fun r => r.totalValue.getD 0).sum

/-- A purchase of nothing for 5 reaches no lot and no sale; and of three units bought for 1, a
sale of one reports 0.3333 where two thirds are left. -/
theorem cost_of_empty_purchase_lost :
    (let rows := [fifoRow 0 .investmentBuy 0 5]
     boughtFor rows = 5 ∧ soldCost (0, some 0) (computeFifo rows).sales +
       lotCost ((computeFifo rows).queueOf (0, some 0)) = 0) ∧
    (let rows := [fifoRow 0 .investmentBuy 3 1, fifoRow 1 .investmentSell 1 1]
     boughtFor rows = 1 ∧ ((computeFifo rows).sales.map NativeSale.costBasis).sum +
       lotCost ((computeFifo rows).queueOf (0, some 0)) = 29999 / 30000) := by
  decide +kernel

end Sample

end FinHub
