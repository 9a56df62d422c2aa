import FinHub.Analytics.OpenLots
import FinHub.Recording.Passes

/-!
# FinHub.Analytics.CausalSales

What the lot engine reports of the sales up to an instant does not depend on what comes later.

* `sales_filter_le`: leaving out the later rows of every queue leaves out their sales.
* `SameTrades`: two ledgers that read the same trades up to the instant; every recording after the instant
  keeps them.
* `sales_causal`: the earlier rows alone give the earlier sales, also after later recordings.
-/

namespace FinHub

open LotLine Tabular

/-- The rows of every queue stand in the order of their instants. -/
def QueuesInOrder (rows : List FifoRow) : Prop :=
  rows.Pairwise fun a b => a.key = b.key → a.timestamp ≤ b.timestamp

theorem sellDate_of_mem_saleOf {r : FifoRow} {lots : List PnlLot} {sale : NativeSale}
    (h : sale ∈ r.saleOf lots) : sale.sellDate = r.timestamp := by
  unfold FifoRow.saleOf at h
  split_ifs at h
  · cases h
  · obtain ⟨a, -, rfl⟩ := Option.map_eq_some_iff.mp (Option.mem_toList.mp h)
    rfl

/-- The rows up to an instant give the sales up to it, and a queue without a later row is the same. -/
theorem sales_filter_le {rows : List FifoRow} (h : QueuesInOrder rows) (t : Timestamp) :
    (computeFifo (rows.filter fun r => r.timestamp ≤ t)).sales =
      ((computeFifo rows).sales.filter fun sale => sale.sellDate ≤ t) ∧
    ∀ k, (∀ r ∈ rows, r.key = k → r.timestamp ≤ t) →
      (computeFifo (rows.filter fun r => r.timestamp ≤ t)).queueOf k = (computeFifo rows).queueOf k := by
  induction rows using List.reverseRecOn with
  | nil => exact ⟨rfl, fun _ _ => rfl⟩
  | append_singleton rows r ih =>
    obtain ⟨hrows, -, hlast⟩ := List.pairwise_append.mp h
    obtain ⟨ihsales, ihqueue⟩ := ih hrows
    obtain ⟨hsales, hqueue⟩ := fifoStep_spec (computeFifo rows) r
    have hmem : ∀ {a}, a ∈ rows → a ∈ rows ++ [r] := fun ha => List.mem_append_left _ ha
    rw [computeFifo_append, List.filter_append, hsales, List.filter_append]
    by_cases hr : r.timestamp ≤ t
    · -- The queue of the row is the same in both runs, since its rows are all as early.
      have hsame := ihqueue r.key fun a ha hk => (hlast a ha r List.mem_cons_self hk).trans hr
      have hown : (r.saleOf (takeQty r.sold ((computeFifo rows).queueOf r.key))).filter
          (fun sale => sale.sellDate ≤ t) =
            r.saleOf (takeQty r.sold ((computeFifo rows).queueOf r.key)) :=
        List.filter_eq_self.mpr fun sale hsale => by simp [sellDate_of_mem_saleOf hsale, hr]
      have hkeep : [r].filter (fun r => r.timestamp ≤ t) = [r] := by simp [hr]
      obtain ⟨hsales', hqueue'⟩ := fifoStep_spec (computeFifo (rows.filter fun r => r.timestamp ≤ t)) r
      rw [hkeep, computeFifo_append, hsales', ihsales, hsame, hown]
      refine ⟨rfl, fun k hk => ?_⟩
      rw [hqueue', hqueue, ihqueue k fun a ha => hk a (hmem ha)]
    · have hdrop : [r].filter (fun r => r.timestamp ≤ t) = [] := by simp [hr]
      have hnone : (r.saleOf (takeQty r.sold ((computeFifo rows).queueOf r.key))).filter
          (fun sale => sale.sellDate ≤ t) = [] :=
        List.filter_eq_nil_iff.mpr fun sale hsale => by simp [sellDate_of_mem_saleOf hsale, hr]
      rw [hdrop, hnone, List.append_nil, List.append_nil]
      refine ⟨ihsales, fun k hk => ?_⟩
      have hne : r.key ≠ k := fun he =>
        hr (hk r (List.mem_append_right _ List.mem_cons_self) he)
      rw [hqueue, if_neg hne]
      exact ihqueue k fun a ha => hk a (hmem ha)

namespace Ledger

variable {s s' s'' : Ledger} {m : Market} {t : Timestamp}

/-! ## The order of the trades -/

theorem toFifoRow_place {r : ℕ × Transaction} {f : FifoRow} (h : s.toFifoRow m r = some f) :
    f.transactionId = r.1 ∧ f.timestamp = r.2.timestamp := by
  unfold toFifoRow at h
  split_ifs at h
  simp only [Option.bind_eq_bind, Option.bind_eq_some_iff] at h
  obtain ⟨aid, -, pa, -, ma, -, e, -, hf⟩ := h
  cases hf
  exact ⟨rfl, rfl⟩

theorem pairwise_getBuySellTransactions (s : Ledger) (m : Market) :
    (s.getBuySellTransactions m).Pairwise fun a b => fifoOrder a ≤ fifoOrder b :=
  List.pairwise_insertionSort _ _

theorem queuesInOrder_getBuySellTransactions (s : Ledger) (m : Market) :
    QueuesInOrder (s.getBuySellTransactions m) := by
  refine (s.pairwise_getBuySellTransactions m).imp fun {a b} hle hkey => ?_
  obtain ⟨hasset, hentity⟩ := Prod.mk.inj hkey
  unfold fifoOrder at hle
  rw [hasset, hentity, Prod.Lex.toLex_le_toLex] at hle
  have htail := (hle.resolve_left (lt_irrefl _)).2
  rw [Prod.Lex.toLex_le_toLex] at htail
  have hlast := (htail.resolve_left (lt_irrefl _)).2
  rw [Prod.Lex.toLex_le_toLex] at hlast
  rcases hlast with hlt | ⟨heq, -⟩
  · exact le_of_lt hlt
  · exact le_of_eq heq

/-- Two trades of one place are one. -/
theorem eq_of_fifoOrder_eq {a b : FifoRow} (ha : a ∈ s.transactions.rows.filterMap (s.toFifoRow m))
    (hb : b ∈ s.transactions.rows.filterMap (s.toFifoRow m)) (h : fifoOrder a = fifoOrder b) : a = b := by
  obtain ⟨⟨i, x⟩, hx, hfa⟩ := List.mem_filterMap.mp ha
  obtain ⟨⟨j, y⟩, hy, hfb⟩ := List.mem_filterMap.mp hb
  have hid : a.transactionId = b.transactionId :=
    congrArg (fun o : ℕ ×ₗ ℕ ×ₗ ℤ ×ₗ ℕ => (ofLex (ofLex (ofLex o).2).2).2) h
  rw [(toFifoRow_place hfa).1, (toFifoRow_place hfb).1] at hid
  obtain rfl : i = j := hid
  obtain rfl := s.transactions.unique hx hy
  exact Option.some_inj.mp (hfa.symm.trans hfb)

/-! ## The trades up to an instant -/

/-- The trades up to an instant, in the order of their recording. -/
def pastTrades (s : Ledger) (m : Market) (t : Timestamp) : List FifoRow :=
  (s.transactions.rows.filterMap (s.toFifoRow m)).filter fun r => r.timestamp ≤ t

/-- Both ledgers read the same trades up to an instant. -/
structure SameTrades (t : Timestamp) (s s' : Ledger) : Prop where
  trades : ∀ m, s'.pastTrades m t = s.pastTrades m t
  assets : s'.portfolioAssets = s.portfolioAssets
  entities : s'.entities = s.entities

namespace SameTrades

theorem refl (t : Timestamp) (s : Ledger) : SameTrades t s s := ⟨fun _ => rfl, rfl, rfl⟩

theorem trans (h : SameTrades t s s') (h' : SameTrades t s' s'') : SameTrades t s s'' :=
  ⟨fun m => (h'.trades m).trans (h.trades m), h'.assets.trans h.assets, h'.entities.trans h.entities⟩

/-- A row that is later or no trade. -/
theorem insert {row : Transaction} (h : row.type = .balanceAdjustment ∨ t < row.timestamp) :
    SameTrades t s (s.insertTransaction row) := by
  refine ⟨fun m => ?_, rfl, rfl⟩
  have hnew : ([(s.transactions.next, row)].filterMap (s.toFifoRow m)).filter
      (fun r => r.timestamp ≤ t) = [] := by
    refine List.filter_eq_nil_iff.mpr fun f hf => ?_
    obtain ⟨r, hr, hf⟩ := List.mem_filterMap.mp hf
    obtain rfl := List.mem_singleton.mp hr
    have hts := (toFifoRow_place hf).2
    have htype := (toFifoRow_eq_some hf).1
    rcases h with h | h
    · rcases htype with htype | htype <;> cases h.symm.trans htype
    · simpa [hts] using h
  change ((s.transactions.rows ++ [(s.transactions.next, row)]).filterMap (s.toFifoRow m)).filter _ = _
  rw [List.filterMap_append, List.filter_append, hnew, List.append_nil]
  rfl

/-- A new amount on an adjustment. -/
theorem setAmount {r : ℕ × Transaction} (hm : r ∈ s.transactions.rows)
    (htype : r.2.type = .balanceAdjustment) (amount : ℚ) (notes : String) :
    SameTrades t s (s.modifyTransaction r.1 (withAmount amount notes)) := by
  refine ⟨fun m => congrArg (List.filter _) (s.transactions.filterMap_modify _ fun a ha => ?_), rfl, rfl⟩
  obtain rfl := s.transactions.unique ha hm
  have hnone : ∀ x : Transaction, x.type = .balanceAdjustment → s.toFifoRow m (r.1, x) = none := by
    intro x hx
    unfold toFifoRow
    rw [if_neg]
    rintro (h | h) <;> cases hx.symm.trans h
  exact (hnone (withAmount amount notes r.2) htype).trans (hnone r.2 htype).symm

theorem attach (s : Ledger) (body : TransactionCreate) (tx_id : ℕ) :
    SameTrades t s (s.attach body tx_id) := by
  have hlink : ∀ a, SameTrades t s (s.linkAdjustmentToTransaction a tx_id) := by
    intro a
    unfold linkAdjustmentToTransaction
    split_ifs
    · exact refl t s
    · exact ⟨fun _ => rfl, rfl, rfl⟩
    · exact refl t s
  unfold Ledger.attach
  split_ifs
  · rcases linkInjection_cases s body.entityId body.cashPocket body.timestamp tx_id with
      ⟨r, -, he⟩ | ⟨-, he⟩
    · rw [he]
      exact hlink r.1
    · rw [he]
      exact refl t s
  · exact refl t s

theorem inject (entity_id : ℕ) (currency : Currency) (timestamp : Timestamp) (needed : ℚ) :
    SameTrades t s (s.inject entity_id currency timestamp needed) := by
  rcases inject_cases s entity_id currency timestamp needed with ⟨r, hr, he⟩ | ⟨-, he⟩
  · obtain ⟨hm, -, -, hinj, -⟩ := getInjectedAdjustmentAt_eq_some hr
    rw [he]
    exact setAmount hm (isInjection_iff.mp hinj).1 _ _
  · rw [he]
    exact insert (.inl rfl)

theorem recalculateAdjustments {entity_id : ℕ} {currency : Currency} {timestamp : Timestamp}
    (h : s.recalculateAdjustments entity_id currency timestamp = .ok s') : SameTrades t s s' := by
  rcases recalculateAdjustments_cases h with ⟨-, rfl⟩ | ⟨n, expected, -, -, rfl⟩
  · exact refl t s'
  · rcases setSnapshotAdjustment_cases s entity_id currency n.1 n.2.timestamp
      (n.2.amount - expected) with ⟨r, hr, he⟩ | ⟨-, he⟩
    · obtain ⟨hm, -, -, htype, -⟩ := getAdjustmentTransaction_eq_some hr
      rw [he]
      exact setAmount hm htype _ _
    · rw [he]
      exact insert (.inl rfl)

/-- Recording a later transaction writes one later row; the other rows are adjustments. -/
theorem createTransaction {body : TransactionCreate} {resp : TransactionResponse}
    (h : s.createTransaction body = .ok (resp, s')) (hlater : t < body.timestamp) :
    SameTrades t s s' := by
  obtain ⟨s₁, hensure, -, hrow, hrefresh⟩ := createTransaction_cases h
  have hfirst : SameTrades t s s₁ := by
    rcases ensureCash_cases hensure with rfl | ⟨cash_amount, needed, -, -, -, rfl⟩
    · exact refl t s₁
    · exact inject _ _ _ _
  have hts : resp.row.timestamp = body.timestamp := by
    rw [hrow]
    exact body.resolved_timestamp s
  have hwritten : SameTrades t s ((s₁.insertTransaction resp.row).attach (body.resolved s) resp.id) :=
    (hfirst.trans (insert (.inr (hts ▸ hlater)))).trans (attach _ _ _)
  unfold recalculateFor at hrefresh
  split_ifs at hrefresh
  · cases hrefresh
    exact hwritten
  · exact hwritten.trans (recalculateAdjustments hrefresh)

theorem recordings {s s' : Ledger} {bodies : List TransactionCreate} (hlater : ∀ b ∈ bodies, t < b.timestamp)
    (h : s.calls (bodies.map .createTransaction) = .ok s') : SameTrades t s s' := by
  induction bodies generalizing s with
  | nil =>
    obtain rfl : s = s' := Except.ok.inj h
    exact refl t s
  | cons body bodies ih =>
    obtain ⟨s₁, hcall, hrest⟩ := Runs.bind_eq_ok.mp h
    obtain ⟨⟨resp, s₁⟩, hok, rfl⟩ := Runs.map_eq_ok.mp hcall
    exact (createTransaction hok (hlater body List.mem_cons_self)).trans
      (ih (fun b hb => hlater b (List.mem_cons_of_mem _ hb)) hrest)

/-- The same trades up to an instant are walked in the same order. -/
theorem getBuySellTransactions (h : SameTrades t s s') (m : Market) :
    (s'.getBuySellTransactions m).filter (fun r => r.timestamp ≤ t) =
      (s.getBuySellTransactions m).filter fun r => r.timestamp ≤ t := by
  have hperm : ∀ l : Ledger, ((l.getBuySellTransactions m).filter fun r => r.timestamp ≤ t).Perm
      (l.pastTrades m t) := fun l => (List.perm_insertionSort _ _).filter _
  have hmem : ∀ {a}, a ∈ (s.getBuySellTransactions m).filter (fun r => r.timestamp ≤ t) →
      a ∈ s.transactions.rows.filterMap (s.toFifoRow m) := fun ha =>
    List.mem_of_mem_filter ((hperm s).mem_iff.mp ha)
  have hsame : ((s'.getBuySellTransactions m).filter fun r => r.timestamp ≤ t).Perm
      ((s.getBuySellTransactions m).filter fun r => r.timestamp ≤ t) :=
    (hperm s').trans ((h.trades m) ▸ (hperm s).symm)
  refine List.Perm.eq_of_pairwise (fun a b ha hb hab hba => ?_)
    ((s'.pairwise_getBuySellTransactions m).filter _) ((s.pairwise_getBuySellTransactions m).filter _) hsame
  exact eq_of_fifoOrder_eq (hmem (hsame.mem_iff.mp ha)) (hmem hb) (le_antisymm hab hba)

end SameTrades

/-- The sales up to an instant, as the whole ledger reports them. -/
def pastSales (s : Ledger) (m : Market) (t : Timestamp) : List NativeSale :=
  (computeFifo (s.getBuySellTransactions m)).sales.filter fun sale => sale.sellDate ≤ t

theorem computeFifo_pastRows (s : Ledger) (m : Market) (t : Timestamp) :
    (computeFifo ((s.getBuySellTransactions m).filter fun r => r.timestamp ≤ t)).sales = s.pastSales m t :=
  (sales_filter_le (s.queuesInOrder_getBuySellTransactions m) t).1

/-- The rows up to an instant give exactly the sales up to it, and recording later transactions changes
none of them. -/
theorem sales_causal (s : Ledger) (m : Market) (t : Timestamp) :
    (computeFifo ((s.getBuySellTransactions m).filter fun r => r.timestamp ≤ t)).sales = s.pastSales m t ∧
    ∀ (bodies : List TransactionCreate) (s' : Ledger), (∀ b ∈ bodies, t < b.timestamp) →
      s.calls (bodies.map .createTransaction) = .ok s' → s'.pastSales m t = s.pastSales m t := by
  refine ⟨s.computeFifo_pastRows m t, fun bodies s' hlater hok => ?_⟩
  rw [← computeFifo_pastRows, ← computeFifo_pastRows,
    (SameTrades.recordings hlater hok).getBuySellTransactions m]

end Ledger

namespace Sample

/-- A purchase on the day after the sale. -/
def laterPurchase : TransactionCreate where
  timestamp := at_ 12 9
  type := .investmentBuy
  entityId := 0
  currency := usd
  portfolioAssetId := some 0
  quantity := some 2
  totalValue := some 500

/-- The sale of four units keeps its lots and its gain when more is bought later. -/
theorem laterPurchase_keeps_sale : ∃ s',
    (trades 0 4).calls ([laterPurchase].map .createTransaction) = .ok s' ∧
    s'.pastSales (market 90) (at_ 11 10) = (trades 0 4).pastSales (market 90) (at_ 11 10) ∧
    ((trades 0 4).pastSales (market 90) (at_ 11 10)).map NativeSale.realizedPl = [20] := by
  have hsucceeds : ((trades 0 4).calls ([laterPurchase].map .createTransaction)).isOk = true := by
    decide +kernel
  have hlater : ∀ b ∈ [laterPurchase], at_ 11 10 < b.timestamp := by decide +kernel
  cases hcalls : (trades 0 4).calls ([laterPurchase].map .createTransaction) with
  | error e =>
    rw [hcalls] at hsucceeds
    cases hsucceeds
  | ok s' =>
    exact ⟨s', rfl, (Ledger.sales_causal (trades 0 4) (market 90) (at_ 11 10)).2 _ s' hlater hcalls,
      by decide +kernel⟩

end Sample

end FinHub
