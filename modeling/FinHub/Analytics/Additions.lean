import FinHub.Analytics.HistoricalValues

/-!
# FinHub.Analytics.Additions

Rows that are added after a date, and what is read as of that date: nothing of it moves.

`AddsAfter` compares two ledgers. Positions, cash and recorded values as of the date are the same in both
(`positions_eq`, `cashAsOf_eq`), since every query behind them is bounded by its cutoff.
-/

namespace FinHub

open Tabular

/-- Rows for the four dated tables of the valuation. -/
structure Additions where
  transactions : List Transaction := []
  currencies : List CurrencyRate := []
  prices : List Price := []
  manualValues : List ManualValue := []

namespace Additions

/-- Every row is dated after the day. -/
structure After (a : Additions) (d : ℤ) : Prop where
  transactions : ∀ t ∈ a.transactions, d < Time.dayOf t.timestamp
  currencies : ∀ r ∈ a.currencies, d < Time.dayOf r.timestamp.instant
  prices : ∀ p ∈ a.prices, d < Time.dayOf p.timestamp
  manualValues : ∀ v ∈ a.manualValues, d < v.effectiveDate

/-- One batch of rows after another. -/
def append (a b : Additions) : Additions :=
  ⟨a.transactions ++ b.transactions, a.currencies ++ b.currencies, a.prices ++ b.prices,
    a.manualValues ++ b.manualValues⟩

theorem After.append {a b : Additions} {d : ℤ} (ha : a.After d) (hb : b.After d) : (a.append b).After d where
  transactions := List.forall_mem_append.mpr ⟨ha.transactions, hb.transactions⟩
  currencies := List.forall_mem_append.mpr ⟨ha.currencies, hb.currencies⟩
  prices := List.forall_mem_append.mpr ⟨ha.prices, hb.prices⟩
  manualValues := List.forall_mem_append.mpr ⟨ha.manualValues, hb.manualValues⟩

theorem After.mono {a : Additions} {d e : ℤ} (h : a.After d) (he : e ≤ d) : a.After e where
  transactions t ht := lt_of_le_of_lt he (h.transactions t ht)
  currencies r hr := lt_of_le_of_lt he (h.currencies r hr)
  prices p hp := lt_of_le_of_lt he (h.prices p hp)
  manualValues v hv := lt_of_le_of_lt he (h.manualValues v hv)

end Additions

def Ledger.withAdditions (s : Ledger) (a : Additions) : Ledger :=
  let s' := a.transactions.foldl Ledger.insertTransaction s
  { s' with currencies := s'.currencies ++ a.currencies }

def Market.withAdditions (m : Market) (a : Additions) : Market :=
  { m with prices := m.prices ++ a.prices, manualValues := m.manualValues ++ a.manualValues }

/-! ## Instants of a day -/

theorem endOfDay_lt_of_lt_dayOf {d : ℤ} {t : Timestamp} (h : d < Time.dayOf t) : Time.endOfDay d < t := by
  simp only [Time.dayOf, Time.endOfDay, Time.startOfDay, Time.ticksPerDay, Time.ticksPerSecond] at h ⊢
  omega

/-! ## Lists that grow at the end -/

theorem filter_append_of_false {α : Type} {l new : List α} {p : α → Bool} (h : ∀ a ∈ new, p a = false) :
    (l ++ new).filter p = l.filter p := by
  have hnil : new.filter p = [] := List.filter_eq_nil_iff.mpr fun a ha => by simp [h a ha]
  rw [List.filter_append, hnil, List.append_nil]

/-- An element that nothing new undercuts stays the least. -/
theorem argmin_append_of_le {α β : Type} [LinearOrder β] (f : α → β) {l new : List α} {c : α}
    (hc : l.argmin f = some c) (hnew : ∀ a ∈ new, f c ≤ f a) : (l ++ new).argmin f = some c := by
  induction new using List.reverseRecOn with
  | nil => rwa [List.append_nil]
  | append_singleton new a ih =>
    have hprev := ih fun b hb => hnew b (List.mem_append_left _ hb)
    have ha := hnew a (List.mem_append_right _ List.mem_cons_self)
    rw [← List.append_assoc, List.argmin_concat, hprev]
    simp only [if_neg (not_lt.mpr ha)]

/-! ## Ledgers that differ after an instant -/

/-- The second ledger has more transactions and rates, all of them after the instant. -/
structure AddsAfter (c : Timestamp) (s s' : Ledger) : Prop where
  transactions : ∃ new, s'.transactions.rows = s.transactions.rows ++ new ∧ ∀ r ∈ new, c < r.2.timestamp
  parents : ∀ id < s.transactions.next, s'.getTransaction id = s.getTransaction id
  currencies : ∃ new, s'.currencies = s.currencies ++ new ∧ ∀ r ∈ new, c < r.timestamp.instant
  entities : s'.entities = s.entities
  portfolioAssets : s'.portfolioAssets = s.portfolioAssets
  fees : s'.fees = s.fees
  taxes : s'.taxes = s.taxes
  snapshots : s'.snapshots = s.snapshots

namespace AddsAfter

variable {c : Timestamp} {s s' : Ledger}

theorem filter_rows (h : AddsAfter c s s') {p : ℕ × Transaction → Bool}
    (hp : ∀ r, c < r.2.timestamp → p r = false) :
    s'.transactions.rows.filter p = s.transactions.rows.filter p := by
  obtain ⟨new, hrows, hnew⟩ := h.transactions
  rw [hrows]
  exact filter_append_of_false fun r hr => hp r (hnew r hr)

/-! ### Fees and balances -/

theorem getRateAt_eq (h : AddsAfter c s s') {code base_code : Currency} {at_ : Timestamp} (hat : at_ ≤ c) :
    s'.getRateAt code base_code at_ = s.getRateAt code base_code at_ := by
  obtain ⟨new, hrates, hnew⟩ := h.currencies
  unfold Ledger.getRateAt
  rw [hrates, filter_append_of_false]
  intro r hr
  have hlt : ¬ r.timestamp.instant ≤ at_ := not_le.mpr (lt_of_le_of_lt hat (hnew r hr))
  simp [hlt]

theorem parentOf_eq (h : AddsAfter c s s') {entity_id id : ℕ} {timestamp : Timestamp}
    (hid : id < s.transactions.next) :
    s'.parentOf entity_id timestamp none id = s.parentOf entity_id timestamp none id := by
  unfold Ledger.parentOf
  rw [h.parents id hid]

theorem feeRows_eq (h : AddsAfter c s s') (entity_id : ℕ) (timestamp : Timestamp) :
    s'.feeRows entity_id timestamp none = s.feeRows entity_id timestamp none := by
  unfold Ledger.feeRows
  rw [h.fees]
  refine List.filterMap_congr fun f hf => ?_
  rw [h.parentOf_eq (s.fees_lt f hf)]

theorem taxCharges_eq (h : AddsAfter c s s') (entity_id : ℕ) (timestamp : Timestamp) :
    s'.taxCharges entity_id timestamp none = s.taxCharges entity_id timestamp none := by
  unfold Ledger.taxCharges
  rw [h.taxes]
  refine List.filterMap_congr fun x hx => ?_
  rw [h.parentOf_eq (s.taxes_lt x hx)]

theorem timestamp_le_of_parentOf {entity_id id : ℕ} {timestamp : Timestamp} {t : Transaction}
    (h : s.parentOf entity_id timestamp none id = some t) : t.timestamp ≤ timestamp := by
  have hp := (Option.filter_eq_some_iff.mp h).2
  simp only [Ledger.chargesParent, Bool.and_eq_true, decide_eq_true_eq] at hp
  exact hp.1.2

/-- The charges of an entity up to an instant are of transactions up to it. -/
theorem txTs_le_of_mem {entity_id : ℕ} {timestamp : Timestamp} {fees : List Ledger.Charge}
    (hfees : (s.feeRows entity_id timestamp none).mapM Ledger.feeCharge = some fees) {ch : Ledger.Charge}
    (hch : ch ∈ fees ++ s.taxCharges entity_id timestamp none) : ch.txTs ≤ timestamp := by
  rcases List.mem_append.mp hch with hch | hch
  · have hmap : some ch ∈ (s.feeRows entity_id timestamp none).map Ledger.feeCharge := by
      rw [Runs.mapM_eq_some.mp hfees]
      exact List.mem_map_of_mem hch
    obtain ⟨r, hr, hcharge⟩ := List.mem_map.mp hmap
    obtain ⟨f, -, hf⟩ := List.mem_filterMap.mp hr
    obtain ⟨t, ht, hrt⟩ := Option.map_eq_some_iff.mp hf
    obtain ⟨amt, -, hamt⟩ := Option.map_eq_some_iff.mp hcharge
    rw [← hamt, ← hrt]
    exact timestamp_le_of_parentOf ht
  · obtain ⟨x, -, hx⟩ := List.mem_filterMap.mp hch
    obtain ⟨t, ht, hx⟩ := Option.bind_eq_some_iff.mp hx
    obtain ⟨amt, -, hamt⟩ := Option.map_eq_some_iff.mp hx
    rw [← hamt]
    exact timestamp_le_of_parentOf ht

theorem computeFeeCashOutAt_eq (h : AddsAfter c s s') (entity_id : ℕ) (currency : Currency)
    {timestamp : Timestamp} (hts : timestamp ≤ c) :
    s'.computeFeeCashOutAt entity_id currency timestamp = s.computeFeeCashOutAt entity_id currency timestamp := by
  unfold Ledger.computeFeeCashOutAt Ledger.getEntity
  rw [h.entities, h.feeRows_eq, h.taxCharges_eq]
  cases (s.entities.get? entity_id).filter fun e => e.deletedAt.isNone with
  | none => rfl
  | some entity =>
    dsimp only
    split_ifs
    · rfl
    · cases hfees : (s.feeRows entity_id timestamp none).mapM Ledger.feeCharge with
      | none => rfl
      | some fees =>
        simp only [Option.bind_eq_bind, Option.bind_some]
        congr 2
        refine List.foldl_ext _ _ _ fun acc ch hch => ?_
        have hle : ch.txTs ≤ c := (txTs_le_of_mem hfees hch).trans hts
        unfold Ledger.chargeStep
        simp only [h.getRateAt_eq hle]

theorem getBalanceAtDate_eq (h : AddsAfter c s s') (entity_id : ℕ) (currency : Currency)
    {timestamp : Timestamp} (hts : timestamp ≤ c) :
    s'.getBalanceAtDate entity_id currency timestamp = s.getBalanceAtDate entity_id currency timestamp := by
  have hlate : ∀ r : ℕ × Transaction, c < r.2.timestamp → ¬ r.2.timestamp ≤ timestamp :=
    fun r hr => not_le.mpr (lt_of_le_of_lt hts hr)
  have hbetween : ∀ start, s'.getTransactionsBetween entity_id currency start timestamp {} =
      s.getTransactionsBetween entity_id currency start timestamp {} := by
    intro start
    unfold Ledger.getTransactionsBetween
    rw [h.filter_rows]
    intro r hr
    have hlt : ¬ r.2.timestamp < timestamp := fun hlt => hlate r hr hlt.le
    simp [hlt]
  unfold Ledger.getBalanceAtDate Ledger.getPreviousSnapshot Ledger.pairSnapshots
  rw [h.snapshots]
  cases hprev : Checkpoint.latestBefore (fun r => r.2.timestamp)
      (s.snapshots.rows.filter fun r => decide (r.2.entityId = entity_id) && decide (r.2.currency = currency))
      timestamp with
  | none =>
    dsimp only
    rw [h.filter_rows fun r hr => by simp [hlate r hr], h.computeFeeCashOutAt_eq entity_id currency hts]
  | some snapshot =>
    have hsnap : snapshot.2.timestamp ≤ c := by
      have hmem := List.argmax_mem hprev
      have hlt := of_decide_eq_true (List.mem_filter.mp hmem).2
      exact hlt.le.trans hts
    dsimp only
    rw [hbetween, h.computeFeeCashOutAt_eq entity_id currency hts,
      h.computeFeeCashOutAt_eq entity_id currency hsnap]

/-! ### Cash -/

theorem cashAsOf_eq (h : AddsAfter c s s') (entity_id : Option ℕ) : s'.cashAsOf entity_id c = s.cashAsOf entity_id c := by
  have hpairs : ∀ e, s'.snapshotPairs e = s.snapshotPairs e := by
    intro e
    unfold Ledger.snapshotPairs
    rw [h.snapshots]
  have hunanchored : ∀ e, s'.unanchoredPairs e c = s.unanchoredPairs e c := by
    intro e
    unfold Ledger.unanchoredPairs
    rw [hpairs, h.filter_rows fun r hr => by simp [not_le.mpr hr]]
  have hcash : ∀ p, s'.pairCash c p = s.pairCash c p := by
    intro p
    unfold Ledger.pairCash
    rw [h.filter_rows fun r hr => by simp [not_le.mpr hr]]
  have hentity : ∀ e, s'.getEntity e = s.getEntity e := by
    intro e
    unfold Ledger.getEntity
    rw [h.entities]
  have hentries : ∀ e, s'.cashEntriesAsOf e c = s.cashEntriesAsOf e c := by
    intro e
    unfold Ledger.cashEntriesAsOf Ledger.cashEntriesOf Ledger.feeCorrected
    simp only [hpairs, hunanchored, hcash, hentity, h.computeFeeCashOutAt_eq _ _ le_rfl,
      h.getBalanceAtDate_eq _ _ le_rfl]
  cases entity_id with
  | none => exact congrArg (Option.map Worth.collect) (hentries none)
  | some e => exact congrArg (Option.map Worth.collect) (hentries (some e))

/-! ### Positions -/

theorem quantityUpTo_eq (h : AddsAfter c s s') (type : TransactionType) (portfolio_asset_id : ℕ) :
    s'.quantityUpTo c type portfolio_asset_id = s.quantityUpTo c type portfolio_asset_id := by
  unfold Ledger.quantityUpTo
  rw [h.filter_rows fun r hr => by simp [not_le.mpr hr]]

/-- A quantity is of some transaction. -/
theorem exists_of_quantityUpTo_ne_zero {type : TransactionType} {portfolio_asset_id : ℕ}
    (hne : s.quantityUpTo c type portfolio_asset_id ≠ 0) : ∃ r ∈ s.transactions.rows,
      r.2.timestamp ≤ c ∧ r.2.portfolioAssetId = some portfolio_asset_id ∧ r.2.type = type := by
  by_contra hno
  refine hne (List.sum_eq_zero fun x hx => ?_)
  obtain ⟨r, hr, hx⟩ := List.mem_map.mp hx
  obtain ⟨hmem, hts⟩ := List.mem_filter.mp hr
  rw [← hx]
  refine if_neg fun hasset => hno ⟨r, hmem, of_decide_eq_true hts, hasset⟩

/-- The first transaction of an asset with one up to the instant is none of the new ones. -/
theorem primaryEntity_eq (h : AddsAfter c s s') {portfolio_asset_id : ℕ} {r : ℕ × Transaction}
    (hr : r ∈ s.transactions.rows) (hts : r.2.timestamp ≤ c)
    (hasset : r.2.portfolioAssetId = some portfolio_asset_id) :
    s'.primaryEntity portfolio_asset_id = s.primaryEntity portfolio_asset_id := by
  obtain ⟨new, hrows, hnew⟩ := h.transactions
  unfold Ledger.primaryEntity
  rw [hrows, List.filter_append]
  set key : ℕ × Transaction → ℤ ×ₗ ℕ := fun r => toLex (r.2.timestamp, r.1)
  set l := s.transactions.rows.filter fun r => decide (r.2.portfolioAssetId = some portfolio_asset_id)
  have hmem : r ∈ l := List.mem_filter.mpr ⟨hr, decide_eq_true hasset⟩
  cases hfirst : l.argmin key with
  | none =>
    rw [List.argmin_eq_none.mp hfirst] at hmem
    cases hmem
  | some first =>
    have hle : key first ≤ key r := List.le_of_mem_argmin hmem hfirst
    rw [argmin_append_of_le key hfirst]
    intro a ha
    have hlate := hnew a (List.mem_filter.mp ha).1
    refine hle.trans (le_of_lt ?_)
    exact Prod.Lex.toLex_lt_toLex.mpr (.inl (lt_of_le_of_lt hts hlate))

theorem getNetPositionsAsOf_eq (h : AddsAfter c s s') (m : Market) (entity_id : Option ℕ) :
    s'.getNetPositionsAsOf m c entity_id = s.getNetPositionsAsOf m c entity_id := by
  unfold Ledger.getNetPositionsAsOf
  rw [h.portfolioAssets]
  refine List.filterMap_congr fun pa _ => ?_
  simp only [h.quantityUpTo_eq]
  by_cases hnet : 0 < s.quantityUpTo c .investmentBuy pa.1 - s.quantityUpTo c .investmentSell pa.1
  · have hsome : ∃ r ∈ s.transactions.rows, r.2.timestamp ≤ c ∧ r.2.portfolioAssetId = some pa.1 := by
      by_cases hbuy : s.quantityUpTo c .investmentBuy pa.1 = 0
      · have hsell : s.quantityUpTo c .investmentSell pa.1 ≠ 0 := by
          intro hsell
          rw [hbuy, hsell, sub_zero] at hnet
          exact lt_irrefl _ hnet
        obtain ⟨r, hr, hts, hasset, _⟩ := exists_of_quantityUpTo_ne_zero hsell
        exact ⟨r, hr, hts, hasset⟩
      · obtain ⟨r, hr, hts, hasset, _⟩ := exists_of_quantityUpTo_ne_zero hbuy
        exact ⟨r, hr, hts, hasset⟩
    obtain ⟨r, hr, hts, hasset⟩ := hsome
    rw [h.primaryEntity_eq hr hts hasset]
  · simp [hnet]

end AddsAfter

/-! ## Batches -/

namespace Ledger

variable {s : Ledger} {a : Additions} {d : ℤ}

theorem currencies_foldl_insertTransaction (txs : List Transaction) (s : Ledger) :
    (txs.foldl insertTransaction s).currencies = s.currencies := by
  induction txs generalizing s with
  | nil => rfl
  | cons t txs ih => exact ih (s.insertTransaction t)

@[simp] theorem withAdditions_currencies (s : Ledger) (a : Additions) :
    (s.withAdditions a).currencies = s.currencies ++ a.currencies :=
  congrArg (· ++ a.currencies) (currencies_foldl_insertTransaction a.transactions s)

theorem addsAfter_withAdditions (h : a.After d) : AddsAfter (Time.endOfDay d) s (s.withAdditions a) := by
  have hfold : ∀ (txs : List Transaction) (s : Ledger), (∀ t ∈ txs, d < Time.dayOf t.timestamp) →
      AddsAfter (Time.endOfDay d) s (txs.foldl insertTransaction s) := by
    intro txs
    induction txs with
    | nil =>
      intro s _
      exact ⟨⟨[], by simp, by simp⟩, fun _ _ => rfl, ⟨[], by simp, by simp⟩, rfl, rfl, rfl, rfl, rfl⟩
    | cons t txs ih =>
      intro s htxs
      obtain ⟨ht, hrest⟩ := List.forall_mem_cons.mp htxs
      have hadds := ih (s.insertTransaction t) hrest
      obtain ⟨new, hrows, hnew⟩ := hadds.transactions
      have hinsert : ∀ id < s.transactions.next,
          (s.insertTransaction t).getTransaction id = s.getTransaction id := by
        intro id hid
        have hmem : ∀ b, (s.insertTransaction t).getTransaction id = some b ↔
            s.getTransaction id = some b := by
          intro b
          rw [getTransaction, getTransaction, Table.get?_eq_some_iff, Table.get?_eq_some_iff,
            insertTransaction_transactions, Table.mem_insert]
          refine ⟨fun hb => ?_, .inl⟩
          rcases hb with hb | hb
          · exact hb
          · cases hb
            exact absurd hid (lt_irrefl _)
        exact Option.ext hmem
      constructor
      · refine ⟨(s.transactions.next, t) :: new, ?_, ?_⟩
        · rw [List.foldl_cons, hrows]
          simp [Table.insert]
        · exact List.forall_mem_cons.mpr ⟨endOfDay_lt_of_lt_dayOf ht, hnew⟩
      · intro id hid
        rw [List.foldl_cons, hadds.parents id (Nat.lt_succ_of_lt hid), hinsert id hid]
      · exact hadds.currencies
      · exact hadds.entities
      · exact hadds.portfolioAssets
      · exact hadds.fees
      · exact hadds.taxes
      · exact hadds.snapshots
  have hadds := hfold a.transactions s h.transactions
  exact ⟨hadds.transactions, hadds.parents, ⟨a.currencies, s.withAdditions_currencies a,
      fun r hr => endOfDay_lt_of_lt_dayOf (h.currencies r hr)⟩,
    hadds.entities, hadds.portfolioAssets, hadds.fees, hadds.taxes, hadds.snapshots⟩

end Ledger

end FinHub
