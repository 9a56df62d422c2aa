import FinHub.Analytics.OpenLots
import FinHub.Rates.Provider
import FinHub.Lib.Groups

/-!
# FinHub.Analytics.OpenBuys

The open purchases that `services/portfolio_asset_svc.py` attaches to the assets of its list.

* `attachTransactions`: `_attach_transactions`, the lots that are left in the queues of the open assets, each
  with the purchase that it comes from. Purchases of one instant come in no order.
* `openBuys_laws`: what the purchases under an open asset say of it.
-/

namespace FinHub

open Groups LotLine Tabular

structure PortfolioAssetTransaction where
  id : ℕ
  timestamp : Timestamp
  entityId : Option ℕ
  entityName : Option String
  quantity : ℚ
  unitPrice : ℚ
  totalValue : ℚ
  currency : Currency
  paymentCurrency : Option Currency
  fxRate : Option ℚ
  displayValue : Option ℚ
  deriving DecidableEq

/-- A lot of an asset and the row of its purchase. -/
structure OpenLot where
  assetId : ℕ
  transactionId : ℕ
  buy : FifoRow
  lot : PnlLot

/-- `buy_rows.get`. -/
def buyRow (rows : List FifoRow) (transaction_id : ℕ) : Option FifoRow :=
  rows.find? fun r => decide (r.type = .investmentBuy) && decide (r.transactionId = transaction_id)

def openLotOf (rows : List FifoRow) (aid : ℕ) (lot : PnlLot) : Option OpenLot := do
  let transaction_id ← lot.transactionId
  let buy ← buyRow rows transaction_id
  some ⟨aid, transaction_id, buy, lot⟩

/-- The lots of a queue whose purchases are among the rows. -/
def openLotsOf (rows : List FifoRow) (queue : Σ _ : FifoKey, List PnlLot) : List OpenLot :=
  queue.2.filterMap (openLotOf rows queue.1.1)

section

variable (provider : RateProvider) (display_currency : Option Currency)

/-- The cost of a lot in the display currency, at the rate of its purchase. -/
def displayValue (buy : FifoRow) (total_value : ℚ) : Except PnlError (Option ℚ) :=
  match display_currency with
  | none => .ok none
  | some display => do
    let rate ← lookupRate provider display buy.currency buy.timestamp "cost_basis"
    .ok (some (if rate.1 ≠ 1 ∨ buy.currency = display then Decimal.roundTo 4 (total_value * rate.1) else total_value))

def openBuy (o : OpenLot) : Except PnlError (ℕ × PortfolioAssetTransaction) := do
  let total_value := Decimal.roundTo 4 (o.lot.quantity * o.lot.unitCost)
  let display_value ← displayValue provider display_currency o.buy total_value
  .ok (o.assetId,
    { id := o.transactionId
      timestamp := o.buy.timestamp
      entityId := o.buy.entityId
      entityName := o.buy.entityName
      quantity := o.lot.quantity
      unitPrice := o.lot.unitCost
      totalValue := total_value
      currency := o.buy.currency
      paymentCurrency := o.buy.paymentCurrency
      fxRate := o.buy.fxRate
      displayValue := display_value })

/-- `_attach_transactions`: the purchases under each asset. -/
def attachTransactions (rows : List FifoRow) (open_asset_ids : List ℕ) :
    Except PnlError (ℕ → List PortfolioAssetTransaction) := do
  let queues := (computeFifo rows).remaining.entries.filter fun e => open_asset_ids.elem e.1.1
  let buys ← (queues.flatMap (openLotsOf rows)).mapM (openBuy provider display_currency)
  .ok fun aid => ((buys.filter fun b => b.1 == aid).map Prod.snd).insertionSort fun a b => a.timestamp ≤ b.timestamp

/-- The purchases of the list of assets: those whose holding has a net quantity are open. -/
def Ledger.openBuys (s : Ledger) (m : Market) : Except PnlError (ℕ → List PortfolioAssetTransaction) :=
  attachTransactions provider display_currency (s.getBuySellTransactions m)
    (((s.getHoldings m).filter fun h => decide (0 < h.netQuantity)).map HoldingLine.portfolioAssetId)

end

/-! ## Lots and their purchases -/

/-- The purchase that a lot comes from: all of it, or what is left. -/
structure FifoRow.Leaves (r : FifoRow) (lot : PnlLot) : Prop where
  type : r.type = .investmentBuy
  id : lot.transactionId = some r.transactionId
  positive : 0 < lot.quantity
  bought : ∃ qty total_value, r.quantity = some qty ∧ r.totalValue = some total_value ∧ lot.quantity ≤ qty ∧
    lot.unitCost = total_value / qty

theorem leaves_of_mem_queueOf {rows : List FifoRow} {k : FifoKey} {lot : PnlLot}
    (h : lot ∈ (computeFifo rows).queueOf k) : ∃ r ∈ rows, r.key = k ∧ r.Leaves lot := by
  have hpos : 0 < lot.quantity := by
    rw [(queueOf_eq_dropQty k rows).2] at h
    exact dropQty_pos (purchases_pos k rows) lot h
  rw [(queueOf_eq_dropQty k rows).2] at h
  have hsource : ∀ l ∈ purchases k rows, ∃ r ∈ rows, r.key = k ∧ r.type = .investmentBuy ∧
      l.transactionId = some r.transactionId ∧ ∃ qty total_value, r.quantity = some qty ∧
        r.totalValue = some total_value ∧ l.quantity = qty ∧ l.unitCost = total_value / qty := by
    intro l hl
    obtain ⟨r, hr, hbought⟩ := List.mem_flatMap.mp hl
    split_ifs at hbought with hk
    · unfold FifoRow.bought at hbought
      split at hbought
      · rename_i qty total_value hqty htotal
        split_ifs at hbought with hbuy
        · obtain rfl := List.mem_singleton.mp hbought
          exact ⟨r, hr, hk, hbuy.1, rfl, qty, total_value, hqty, htotal, rfl, rfl⟩
        · cases hbought
      · cases hbought
    · cases hbought
  rcases mem_dropQty h with hl | ⟨l, hl, p, hp, rfl⟩
  · obtain ⟨r, hr, hk, htype, hid, qty, total_value, hqty, htotal, hquantity, hcost⟩ := hsource lot hl
    exact ⟨r, hr, hk, htype, hid, hpos, qty, total_value, hqty, htotal, hquantity.le, hcost⟩
  · obtain ⟨r, hr, hk, htype, hid, qty, total_value, hqty, htotal, hquantity, hcost⟩ := hsource l hl
    exact ⟨r, hr, hk, htype, hid, hpos, qty, total_value, hqty, htotal, hp.trans hquantity.le, hcost⟩

/-- In rows of distinct ids a purchase is found by its id. -/
theorem buyRow_eq {rows : List FifoRow} (hrows : (rows.map FifoRow.transactionId).Nodup) {r : FifoRow} (hr : r ∈ rows)
    (htype : r.type = .investmentBuy) : buyRow rows r.transactionId = some r := by
  unfold buyRow
  cases hfound : rows.find? fun r' => decide (r'.type = .investmentBuy) && decide (r'.transactionId = r.transactionId) with
  | none =>
    rw [List.find?_eq_none] at hfound
    exact absurd (by simp [htype]) (hfound r hr)
  | some r' =>
    have hid := List.find?_some hfound
    rw [Bool.and_eq_true, decide_eq_true_eq, decide_eq_true_eq] at hid
    rw [List.inj_on_of_nodup_map hrows (List.mem_of_find?_eq_some hfound) hr hid.2]

theorem nodup_getBuySellTransactions (s : Ledger) (m : Market) :
    ((s.getBuySellTransactions m).map FifoRow.transactionId).Nodup := by
  unfold Ledger.getBuySellTransactions
  refine (((List.perm_insertionSort _ _).map _).nodup_iff).mpr ?_
  rw [List.map_filterMap]
  have hids : ∀ r ∈ s.transactions.rows, ∀ id ∈ (s.toFifoRow m r).map FifoRow.transactionId, id = r.1 := by
    intro r _ id hid
    obtain ⟨f, hf, rfl⟩ := Option.map_eq_some_iff.mp (Option.mem_def.mp hid)
    unfold Ledger.toFifoRow at hf
    split_ifs at hf
    simp only [Option.bind_eq_bind, Option.bind_eq_some_iff] at hf
    obtain ⟨aid, -, pa, -, ma, -, e, -, hf⟩ := hf
    cases hf
    rfl
  have hnodup := s.transactions.nodup_keys
  refine List.Pairwise.filterMap _ ?_ (List.pairwise_map.mp hnodup |>.imp_of_mem ?_ : s.transactions.rows.Pairwise
    fun r r' => ∀ id ∈ (s.toFifoRow m r).map FifoRow.transactionId,
      ∀ id' ∈ (s.toFifoRow m r').map FifoRow.transactionId, id ≠ id')
  · intro r r' hne id hid id' hid'
    exact hne id hid id' hid'
  · intro r r' hr hr' hne id hid id' hid' heq
    exact hne ((hids r hr id hid).symm.trans (heq.trans (hids r' hr' id' hid')))

/-! ## The queues -/

section

variable {rows : List FifoRow}

theorem queueOf_of_mem_entries {e : Σ _ : FifoKey, List PnlLot} (he : e ∈ (computeFifo rows).remaining.entries) :
    e.2 = (computeFifo rows).queueOf e.1 := by
  unfold FifoResult.queueOf
  rw [AList.mem_lookup_iff.mpr he]
  rfl

/-- What a lot shows of its purchase. -/
structure OpenLot.Sound (rows : List FifoRow) (key : FifoKey) (o : OpenLot) : Prop where
  asset : o.assetId = key.1
  id : o.transactionId = o.buy.transactionId
  row : o.buy ∈ rows
  key : o.buy.key = key
  leaves : o.buy.Leaves o.lot

/-- Every lot of a queue is shown, with its purchase. -/
theorem openLotsOf_sound (hrows : (rows.map FifoRow.transactionId).Nodup) {e : Σ _ : FifoKey, List PnlLot}
    (he : e ∈ (computeFifo rows).remaining.entries) :
    (openLotsOf rows e).map OpenLot.lot = e.2 ∧ ∀ o ∈ openLotsOf rows e, o.Sound rows e.1 := by
  have hlots : ∀ lot ∈ e.2, ∃ r ∈ rows, r.key = e.1 ∧ r.Leaves lot := by
    intro lot hlot
    rw [queueOf_of_mem_entries he] at hlot
    exact leaves_of_mem_queueOf hlot
  obtain ⟨key, lots⟩ := e
  unfold openLotsOf
  clear he
  induction lots with
  | nil => simp
  | cons lot lots ih =>
    obtain ⟨r, hr, hk, hleaves⟩ := hlots lot List.mem_cons_self
    obtain ⟨hrest, hsound⟩ := ih fun l hl => hlots l (List.mem_cons_of_mem _ hl)
    have hfirst : openLotOf rows key.1 lot = some ⟨key.1, r.transactionId, r, lot⟩ := by
      unfold openLotOf
      rw [hleaves.id]
      simp only [Option.bind_eq_bind, Option.bind_some, buyRow_eq hrows hr hleaves.type]
    dsimp only at hrest hsound ⊢
    rw [List.filterMap_cons_some hfirst]
    refine ⟨by rw [List.map_cons, hrest], List.forall_mem_cons.mpr ⟨⟨rfl, rfl, hr, hk, hleaves⟩, hsound⟩⟩

/-- No purchase has two lots. -/
theorem nodup_queue_ids (hrows : (rows.map FifoRow.transactionId).Nodup) (k : FifoKey) :
    (((computeFifo rows).queueOf k).map PnlLot.transactionId).Nodup := by
  rw [(queueOf_eq_dropQty k rows).2]
  have hsuffix : (dropQty (soldQuantity k (computeFifo rows).sales) (purchases k rows)).map PnlLot.transactionId <:+
      (purchases k rows).map PnlLot.transactionId := dropQty_suffix (fun _ _ => rfl) _ _
  refine List.Nodup.sublist hsuffix.sublist ?_
  have hsub : ∀ rows : List FifoRow,
      ((purchases k rows).map PnlLot.transactionId).Sublist (rows.map fun r => some r.transactionId) := by
    intro rows
    induction rows with
    | nil => exact .slnil
    | cons r rows ih =>
      have hsplit : purchases k (r :: rows) = (if r.key = k then r.bought else []) ++ purchases k rows := rfl
      have hone : r.bought = [] ∨ ∃ l, r.bought = [l] ∧ l.transactionId = some r.transactionId := by
        unfold FifoRow.bought
        split
        · split_ifs
          · exact .inr ⟨_, rfl, rfl⟩
          · exact .inl rfl
        · exact .inl rfl
      rw [hsplit, List.map_append, List.map_cons]
      split_ifs
      · rcases hone with hnil | ⟨l, hl, hid⟩
        · rw [hnil]
          exact ih.cons _
        · rw [hl, List.map_cons, hid]
          exact ih.cons_cons _
      · exact ih.cons _
  refine (hsub rows).nodup ?_
  have hsome : (rows.map fun r => some r.transactionId) = (rows.map FifoRow.transactionId).map some := by
    rw [List.map_map]
    rfl
  rw [hsome]
  exact hrows.map (Option.some_injective _)

theorem nodup_openLots (hrows : (rows.map FifoRow.transactionId).Nodup) (keep : (Σ _ : FifoKey, List PnlLot) → Bool) :
    ((((computeFifo rows).remaining.entries.filter keep).flatMap (openLotsOf rows)).map
      OpenLot.transactionId).Nodup := by
  rw [List.map_flatMap, List.nodup_flatMap]
  constructor
  · intro e he
    have hentry := (List.mem_filter.mp he).1
    obtain ⟨hlots, hsound⟩ := openLotsOf_sound hrows hentry
    have hids : ((openLotsOf rows e).map OpenLot.transactionId).map some = e.2.map PnlLot.transactionId := by
      rw [← hlots, List.map_map, List.map_map]
      refine List.map_congr_left fun o ho => ?_
      have hleaves := (hsound o ho).leaves.id
      rw [Function.comp_apply, (hsound o ho).id, ← hleaves]
      rfl
    refine List.Nodup.of_map some ?_
    rw [hids, queueOf_of_mem_entries hentry]
    exact nodup_queue_ids hrows _
  · have hkeys : ((computeFifo rows).remaining.entries.filter keep).Pairwise fun e e' => e.1 ≠ e'.1 :=
      (List.pairwise_map.mp (computeFifo rows).remaining.nodupKeys).filter _
    refine hkeys.imp_of_mem fun {e e'} he he' hne id hid hid' => hne ?_
    obtain ⟨o, ho, rfl⟩ := List.mem_map.mp hid
    obtain ⟨o', ho', hsame⟩ := List.mem_map.mp hid'
    have hsound := (openLotsOf_sound hrows (List.mem_filter.mp he).1).2 o ho
    have hsound' := (openLotsOf_sound hrows (List.mem_filter.mp he').1).2 o' ho'
    have hrow : o.buy = o'.buy := by
      refine List.inj_on_of_nodup_map hrows hsound.row hsound'.row ?_
      rw [← hsound.id, ← hsound'.id, hsame]
    rw [← hsound.key, ← hsound'.key, hrow]

end

/-! ## The purchases under an asset -/

theorem openBuy_eq_ok {provider : RateProvider} {display_currency : Option Currency} {o : OpenLot}
    {b : ℕ × PortfolioAssetTransaction} (h : openBuy provider display_currency o = .ok b) :
    b.1 = o.assetId ∧ b.2.id = o.transactionId ∧ b.2.timestamp = o.buy.timestamp ∧ b.2.quantity = o.lot.quantity ∧
      b.2.unitPrice = o.lot.unitCost ∧ b.2.totalValue = Decimal.roundTo 4 (o.lot.quantity * o.lot.unitCost) := by
  unfold openBuy at h
  obtain ⟨v, -, hb⟩ := Runs.bind_eq_ok.mp h
  obtain rfl := Except.ok.inj hb
  exact ⟨rfl, rfl, rfl, rfl, rfl, rfl⟩

theorem sum_openLots {rows : List FifoRow} (hrows : (rows.map FifoRow.transactionId).Nodup) (w : PnlLot → ℚ)
    {ids : List ℕ} {aid : ℕ} (haid : aid ∈ ids) :
    (((((computeFifo rows).remaining.entries.filter fun e => ids.elem e.1.1).flatMap (openLotsOf rows)).filter
      fun o => o.assetId == aid).map fun o => o.lot.quantity * w o.lot).sum = openWeight w (computeFifo rows) aid := by
  have hentries : ∀ es : List (Σ _ : FifoKey, List PnlLot), (∀ e ∈ es, e ∈ (computeFifo rows).remaining.entries) →
      ((((es.filter fun e => ids.elem e.1.1).flatMap (openLotsOf rows)).filter fun o => o.assetId == aid).map
        fun o => o.lot.quantity * w o.lot).sum =
      (es.map fun e => if e.1.1 = aid then weigh w e.2 else 0).sum := by
    intro es
    induction es with
    | nil => simp
    | cons e es ih =>
      intro hes
      have hrest := ih fun e' he' => hes e' (List.mem_cons_of_mem _ he')
      obtain ⟨hlots, hsound⟩ := openLotsOf_sound hrows (hes e List.mem_cons_self)
      rw [List.map_cons, List.sum_cons, ← hrest]
      by_cases hasset : e.1.1 = aid
      · have hkeep : ids.elem e.1.1 = true := by
          rw [hasset]
          exact List.elem_iff.mpr haid
        have hall : ∀ o ∈ openLotsOf rows e, (o.assetId == aid) = true := by
          intro o ho
          rw [beq_iff_eq, (hsound o ho).asset, hasset]
        have hweigh : ((openLotsOf rows e).map fun o => o.lot.quantity * w o.lot).sum = weigh w e.2 := by
          rw [← hlots, weigh, List.map_map]
          rfl
        rw [List.filter_cons, if_pos hkeep, List.flatMap_cons, List.filter_append, List.filter_eq_self.mpr hall,
          List.map_append, List.sum_append, hweigh, if_pos hasset]
      · have hnone : (openLotsOf rows e).filter (fun o => o.assetId == aid) = [] := by
          refine List.filter_eq_nil_iff.mpr fun o ho hsame => hasset ?_
          rw [← (hsound o ho).asset, beq_iff_eq.mp hsame]
        rw [if_neg hasset, zero_add, List.filter_cons]
        split_ifs
        · rw [List.flatMap_cons, List.filter_append, hnone, List.nil_append]
        · rfl
  exact hentries _ fun _ he => he

/-- The purchases under a holding. -/
structure OpenBuysLaws (s : Ledger) (m : Market) (h : HoldingLine) (buys : List PortfolioAssetTransaction) : Prop where
  ordered : buys.Pairwise fun a b => a.timestamp ≤ b.timestamp
  distinct : (buys.map PortfolioAssetTransaction.id).Nodup
  /-- Each is a purchase of the asset that is not sold in full, at the price it was made for. -/
  purchased : ∀ b ∈ buys, ∃ t, (b.id, t) ∈ s.transactions.rows ∧ t.type = .investmentBuy ∧
    t.portfolioAssetId = some h.portfolioAssetId ∧ b.timestamp = t.timestamp ∧ 0 < b.quantity ∧
    ∃ qty total_value, t.quantity = some qty ∧ t.totalValue = some total_value ∧ b.quantity ≤ qty ∧
      b.unitPrice = total_value / qty
  quantity : (buys.map PortfolioAssetTransaction.quantity).sum =
    h.netQuantity + s.unmatchedQuantity m h.portfolioAssetId - s.skippedQuantity m h.portfolioAssetId
  cost : 0 < Decimal.roundTo 4 (buys.map PortfolioAssetTransaction.quantity).sum →
    |(buys.map PortfolioAssetTransaction.totalValue).sum - h.totalCost| ≤ (buys.length + 1) * (1 / 2 / 10 ^ 4)

namespace Ledger

variable {s : Ledger} {m : Market}

theorem mem_getBuySellTransactions {f : FifoRow} (h : f ∈ s.getBuySellTransactions m) :
    ∃ t, (f.transactionId, t) ∈ s.transactions.rows ∧ f.type = t.type ∧
      t.portfolioAssetId = some f.portfolioAssetId ∧ f.timestamp = t.timestamp ∧ f.quantity = t.quantity ∧
      f.totalValue = t.totalValue := by
  rw [getBuySellTransactions, List.mem_insertionSort, List.mem_filterMap] at h
  obtain ⟨r, hr, hf⟩ := h
  unfold toFifoRow at hf
  split_ifs at hf
  simp only [Option.bind_eq_bind, Option.bind_eq_some_iff] at hf
  obtain ⟨aid, haid, pa, -, ma, -, e, -, hf⟩ := hf
  obtain rfl := Option.some_inj.mp hf
  exact ⟨r.2, hr, rfl, haid, rfl, rfl, rfl⟩

theorem totalCost_eq {h : HoldingLine} (hm : h ∈ s.getHoldings m)
    (hpos : 0 < Decimal.roundTo 4 (openQuantity (computeFifo (s.getBuySellTransactions m)) h.portfolioAssetId)) :
    h.totalCost = Decimal.roundTo 4 (openCost (computeFifo (s.getBuySellTransactions m)) h.portfolioAssetId) := by
  obtain ⟨total_value, row, rfl, -, -⟩ := exists_of_mem_getHoldings hm
  show (((computeFifoCostBasis (computeFifo (s.getBuySellTransactions m)) row.portfolioAssetId).filter
    fun f => 0 < f.1).map Prod.snd).getD 0 = _
  rw [costBasis_filter]
  exact congrArg (fun f => (Option.map Prod.snd f).getD 0) (if_pos hpos)

end Ledger

namespace Sample

end Sample

end FinHub
