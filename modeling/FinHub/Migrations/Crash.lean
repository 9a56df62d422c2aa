import FinHub.Migrations.Resume

/-!
# FinHub.Migrations.Crash

Each migration, stopped inside its `up` and carried out again by the next boot.
-/

namespace FinHub

open Tabular Upgrade

namespace Migrations

variable {d d' d₁ c : Store} {t : TableName} {x : ColumnName} {columns : List ColumnName}
  {texts : List SqlText} {k : ℕ}

/-! ## Stops inside a migration -/

/-- The stop is inside `up`, or between it and the record. -/
structure Inside (v : Version) (d₁ : Store) (k : ℕ) (c : Store) : Prop where
  pos : 0 < k
  le : k ≤ (v.up d₁).length
  stop : commitAll ((v.up d₁).take k) d₁ = .ok c

/-- The next run finishes the migration as the stopped one would have. -/
abbrev Finished (v : Version) (d₁ : Store) (k : ℕ) (c : Store) : Prop :=
  Tracking.Resumed tracking v.migration d₁ k c

section

variable {v : Version} {tx tx' : Statement}

theorem versions_eq (h : Inside v d₁ k c) : c.versions = d₁.versions := by
  have hwithin := within_of_stop h.stop
  have hwrites : .versions ∉ v.effect.writes := by cases v <;> decide
  exact hwithin.same .versions hwrites

/-- Nothing is left to do after the last statement. -/
theorem drop_all (hk : (v.up d₁).length ≤ k) : commitAll ((v.up d₁).drop k) c = .ok c := by
  rw [List.drop_eq_nil_of_le hk]
  rfl

theorem finished_of_last (hk : (v.up d₁).length ≤ k) (hup : commitAll (v.up c) c = .ok c) :
    Finished v d₁ k c :=
  ⟨hup.trans (drop_all hk).symm, fun _ => drop_all hk⟩

/-- A migration of one statement. -/
theorem finished_of_single (h : Inside v d₁ k c) (hsingle : v.up d₁ = [tx])
    (hup : tx d₁ = .ok c → commitAll (v.up c) c = .ok c) : Finished v d₁ k c := by
  obtain ⟨hpos, hle, hstop⟩ := h
  rw [hsingle] at hle hstop
  obtain rfl : k = 1 := le_antisymm hle hpos
  refine finished_of_last (hsingle ▸ le_rfl) (hup ?_)
  rw [← commitAll_singleton tx d₁]
  exact hstop

/-- A migration of one statement that does nothing more when it is carried out again. -/
theorem finished_of_again (h : Inside v d₁ k c) (hsingle : v.up d₁ = [tx])
    (hsame : v.up c = [tx] ∨ v.up c = []) (hagain : tx d₁ = .ok c → tx c = .ok c) :
    Finished v d₁ k c := by
  refine finished_of_single h hsingle fun hok => ?_
  rcases hsame with hsame | hsame
  · rw [hsame, commitAll_singleton]
    exact hagain hok
  · rw [hsame]
    rfl

/-- Statements that find their work done. -/
theorem finished_of_lasting (h : Inside v d₁ k c) (hlasting : Lasting (v.up d₁)) (hsame : v.up c = v.up d₁)
    (hskip : v ∈ d₁.versions → v.verify c = true → ∀ tx ∈ (v.up d₁).drop k, tx c = .ok c) :
    Finished v d₁ k c where
  up := by
    show commitAll (v.up c) c = commitAll ((v.up d₁).drop k) c
    rw [hsame]
    exact hlasting.commitAll_stop h.stop
  skip := by
    intro ha
    obtain ⟨hr, hv⟩ := Bool.and_eq_true_iff.mp ha
    have hrecorded : v ∈ c.versions := of_decide_eq_true hr
    exact commitAll_of_done (hskip (versions_eq h ▸ hrecorded) hv)

end

/-! ## 001 to 007 -/

theorem Inside.not_nil {v : Version} (h : Inside v d₁ k c) (hnil : v.up d₁ = []) : False := by
  have hle := h.le
  rw [hnil] at hle
  exact absurd h.pos (not_lt.mpr hle)

/-- A migration of two statements. -/
theorem Inside.two {v : Version} {tx tx' : Statement} (h : Inside v d₁ k c) (hup : v.up d₁ = [tx, tx']) :
    k = 1 ∧ tx d₁ = .ok c ∨ k = 2 ∧ ∃ d₂, tx d₁ = .ok d₂ ∧ tx' d₂ = .ok c := by
  obtain ⟨hpos, hle, hstop⟩ := h
  rw [hup] at hle hstop
  rcases Nat.lt_or_ge 1 k with hk | hk
  · obtain rfl : k = 2 := le_antisymm hle hk
    obtain ⟨d₂, h1, h2⟩ := commitAll_cons_eq_ok.mp hstop
    exact .inr ⟨rfl, d₂, h1, commitAll_singleton tx' d₂ ▸ h2⟩
  · obtain rfl : k = 1 := le_antisymm hk hpos
    exact .inl ⟨rfl, commitAll_singleton tx d₁ ▸ hstop⟩

/-- A scratch table that has come with a statement. -/
def LeavesScratch (d₁ c : Store) (t : TableName) : Prop := c.tableExists t = true ∧ d₁.tableExists t = false

theorem leavesScratch_of_create (h : create t columns texts d₁ = .ok c) : LeavesScratch d₁ c t := by
  unfold create at h
  split_ifs at h with ht
  rw [← Except.ok.inj h]
  exact ⟨decide_eq_true (Finset.mem_union_right _ table_mem_tableItems), Bool.not_eq_true _ ▸ ht⟩

theorem not_columnExists_erase (d : Store) (t : TableName) (x : ColumnName) :
    ¬ Store.columnExists { d with schema := d.schema.erase (.column t x) } t x = true := fun hx =>
  absurd rfl (Finset.ne_of_mem_erase (of_decide_eq_true hx))

theorem PurchaseDate.finished (h : Inside .purchaseDate d₁ k c) : Finished .purchaseDate d₁ k c := by
  by_cases hcolumn : d₁.columnExists .portfolioAssets .purchaseDate = true
  · refine finished_of_single h (if_pos hcolumn) fun hok => ?_
    obtain rfl := Except.ok.inj hok
    exact congrArg (commitAll · _) (if_neg (not_columnExists_erase d₁ .portfolioAssets .purchaseDate))
  · exact (h.not_nil (if_neg hcolumn)).elim

namespace BackfillSnapshots

/-- A buy finds its cash the day before. -/
def Covered (d : Store) (buy : ℕ × TransactionRow) : Prop :=
  ∀ total_value, buy.2.totalValue = some total_value →
    ∃ balance, computeBalanceAt d buy.2.entityId buy.2.currency (dayBefore buy.2.timestamp) = .ok balance ∧
      total_value ≤ balance

theorem backfillBuy_of_covered {buy : ℕ × TransactionRow} (h : Covered d buy) :
    backfillBuy d buy = .ok d := by
  unfold backfillBuy
  cases htotal : buy.2.totalValue with
  | none => rfl
  | some total_value =>
    obtain ⟨balance, hbalance, hle⟩ := h total_value htotal
    dsimp only
    rw [hbalance]
    exact if_pos hle

theorem foldlM_backfillBuy {l : List (ℕ × TransactionRow)} (h : ∀ buy ∈ l, Covered d buy) :
    l.foldlM backfillBuy d = .ok d := by
  induction l with
  | nil => rfl
  | cons buy l ih =>
    rw [List.foldlM_cons, backfillBuy_of_covered (h buy List.mem_cons_self)]
    exact ih fun buy' hbuy' => h buy' (List.mem_cons_of_mem _ hbuy')

theorem finished (h : Inside .backfillSnapshots d₁ k c) (hcovered : ∀ buy ∈ buys c, Covered c buy) :
    Finished .backfillSnapshots d₁ k c := by
  have hwithin := within_of_stop h.stop
  refine finished_of_again h rfl (.inl rfl) fun hok => ?_
  unfold backfillAutoSnapshots at hok ⊢
  split_ifs at hok with htable
  have hkept : c.tableExists .transactions = true := (hwithin.has_eq rfl rfl).trans htable
  rw [if_pos hkept]
  exact foldlM_backfillBuy hcovered

end BackfillSnapshots

theorem StockSplits.finished (h : Inside .stockSplits d₁ k c) : Finished .stockSplits d₁ k c :=
  finished_of_again h rfl (.inl rfl) ((onlyTable_createIfMissing _ _ _).again _ _)

theorem ScheduleAsset.finished (h : Inside .scheduleAsset d₁ k c) : Finished .scheduleAsset d₁ k c :=
  finished_of_again h rfl (.inl rfl) ((onlyTable_addColumn _ _).again _ _)

theorem ManualValues.finished (h : Inside .manualValues d₁ k c) : Finished .manualValues d₁ k c :=
  finished_of_again h rfl (.inl rfl) ((onlyTable_createIfMissing _ _ _).again _ _)

theorem ExactTable.sqlHas {text : SqlText} (h : ExactTable t columns texts d) (htext : text ∈ texts) :
    d.sqlHas t text = true := by
  refine decide_eq_true ((h (.sql t text) rfl).mpr ?_)
  rw [tableItems, List.mem_toFinset]
  exact List.mem_append_right _ (List.mem_map.mpr ⟨text, htext, rfl⟩)

theorem exactTable_of_rebuild {scratch : TableName} (h : rebuild t scratch columns texts d = .ok d') :
    ExactTable t columns texts d' := by
  obtain ⟨-, rfl⟩ := rebuild_eq_ok h
  exact exactTable_withRebuilt t scratch columns texts d

theorem TransferTypes.finished (h : Inside .transferTypes d₁ k c)
    (hscratch : ¬ LeavesScratch d₁ c .transactionsNew) : Finished .transferTypes d₁ k c := by
  by_cases hcond : (!d₁.tableExists .transactions || d₁.sqlHas .transactions .transferIn) = true
  · exact (h.not_nil (if_pos hcond)).elim
  have hup : Version.transferTypes.up d₁ = _ := if_neg hcond
  rcases h.two hup with ⟨-, h1⟩ | ⟨rfl, d₂, -, h2⟩
  · exact absurd (leavesScratch_of_create h1) hscratch
  · refine finished_of_last (by rw [hup]; exact le_rfl) ?_
    obtain ⟨d₃, h3, rfl⟩ := Runs.map_eq_ok.mp h2
    have hsql : d₃.sqlHas .transactions .transferIn = true :=
      (exactTable_of_rebuild h3).sqlHas (List.mem_singleton_self _)
    have hnil : up { d₃ with transactions := recount d₃.transactions } = [] := by
      refine if_pos ?_
      rw [Bool.or_eq_true]
      exact .inr hsql
    exact congrArg (commitAll · _) hnil

namespace ScheduleOccurrences

theorem schema_insertOccurrence (d : Store) (o : OccurrenceRow) :
    (insertOccurrence d o).schema = d.schema := by
  unfold insertOccurrence
  split_ifs <;> rfl

theorem finished (h : Inside .scheduleOccurrences d₁ k c)
    (hnone : k = 1 → c.tableExists .transactions = true ∧ ∀ r ∈ c.transactions.rows, backfilled r = none) :
    Finished .scheduleOccurrences d₁ k c := by
  by_cases htable : d₁.tableExists .scheduleOccurrences = true
  · exact (h.not_nil (if_pos htable)).elim
  have hup : Version.scheduleOccurrences.up d₁ = _ := if_neg htable
  rcases h.two hup with ⟨rfl, h1⟩ | ⟨rfl, d₂, h1, h2⟩
  · have hcreated := (leavesScratch_of_create h1).1
    have hnil : Version.scheduleOccurrences.up c = [] := if_pos hcreated
    obtain ⟨htransactions, hrows⟩ := hnone rfl
    have hrest : commitAll ((Version.scheduleOccurrences.up d₁).drop 1) c = .ok c := by
      rw [hup]
      show commitAll [backfillScheduleOccurrences] c = .ok c
      rw [commitAll_singleton, backfillScheduleOccurrences, onTable, if_pos htransactions,
        List.filterMap_eq_nil_iff.mpr hrows]
      rfl
    exact ⟨(congrArg (commitAll · c) hnil).trans hrest.symm, fun _ => hrest⟩
  · refine finished_of_last (by rw [hup]; exact le_rfl) ?_
    have hcreated := (leavesScratch_of_create h1).1
    unfold backfillScheduleOccurrences onTable at h2
    split_ifs at h2
    obtain rfl := Except.ok.inj h2
    refine congrArg (commitAll · _) (if_pos ?_)
    rw [Store.tableExists, Store.has, foldl_schema schema_insertOccurrence]
    exact hcreated

end ScheduleOccurrences

/-! ## 008 to 015 -/

/-- The migrations whose check does not look at everything that `up` does: recorded already, they are
skipped when the check holds again, so the stop must come after the last statement. -/
def Unseen (v : Version) (d₁ : Store) (k : ℕ) (c : Store) : Prop :=
  v ∈ d₁.versions → v.verify c = true → (v.up d₁).length ≤ k

theorem not_mem_drop {v : Version} {tx : Statement} (hk : (v.up d₁).length ≤ k) : tx ∉ (v.up d₁).drop k := by
  rw [List.drop_eq_nil_of_le hk]
  exact List.not_mem_nil

theorem skip_of_seen {v : Version} (h : Inside v d₁ k c) (hseen : Unseen v d₁ k c)
    (ha : tracking.applied v.migration c = true) : commitAll ((v.up d₁).drop k) c = .ok c := by
  obtain ⟨hr, hv⟩ := Bool.and_eq_true_iff.mp ha
  have hrecorded : v ∈ c.versions := of_decide_eq_true hr
  exact drop_all (hseen (versions_eq h ▸ hrecorded) hv)

theorem Profiles.finished (h : Inside .profiles d₁ k c) (hseen : Unseen .profiles d₁ k c) :
    Finished .profiles d₁ k c where
  up := up_resumed h.pos h.stop
  skip := skip_of_seen h hseen

theorem MarketAssetLastSynced.finished (h : Inside .marketAssetLastSynced d₁ k c) :
    Finished .marketAssetLastSynced d₁ k c := by
  by_cases htable : d₁.tableExists .marketAssets = true
  · refine finished_of_again h (if_pos htable) ?_ ((onlyTable_addColumn _ _).again _ _)
    show MarketAssetLastSynced.up c = _ ∨ MarketAssetLastSynced.up c = _
    unfold MarketAssetLastSynced.up
    split_ifs
    · exact .inl rfl
    · exact .inr rfl
  · exact (h.not_nil (if_neg htable)).elim

theorem IncomeCategory.finished (h : Inside .incomeCategory d₁ k c) : Finished .incomeCategory d₁ k c := by
  refine finished_of_lasting h (up_lasting d₁) rfl fun _ hv tx htx => ?_
  obtain ⟨h1, h2⟩ := Bool.and_eq_true_iff.mp hv
  rcases List.mem_pair.mp (List.mem_of_mem_drop htx) with rfl | rfl
  · exact addColumn_eq_self.mpr h1
  · exact addColumn_eq_self.mpr h2

theorem RenameInvestmentCategory.finished (h : Inside .renameInvestmentCategory d₁ k c) :
    Finished .renameInvestmentCategory d₁ k c := by
  by_cases hcond : (d₁.columnExists .transactions .transactionCategory &&
      !d₁.columnExists .transactions .investmentTransactionCategory) = true
  · refine finished_of_single h (if_pos hcond) fun hok => ?_
    obtain rfl := Except.ok.inj hok
    refine congrArg (commitAll · _) (if_neg fun hagain => ?_)
    have hcolumn := of_decide_eq_true (Bool.and_eq_true_iff.mp hagain).1
    rcases Finset.mem_insert.mp hcolumn with hx | hx
    · cases hx
    · exact absurd rfl (Finset.ne_of_mem_erase hx)
  · exact (h.not_nil (if_neg hcond)).elim

theorem FiscalPeriods.finished (h : Inside .fiscalPeriods d₁ k c) : Finished .fiscalPeriods d₁ k c := by
  refine finished_of_lasting h (up_lasting d₁) rfl fun _ hv tx htx => ?_
  obtain ⟨h1, h2⟩ := Bool.and_eq_true_iff.mp hv
  rcases List.mem_pair.mp (List.mem_of_mem_drop htx) with rfl | rfl
  · exact createIfMissing_eq_self.mpr h1
  · exact addColumn_eq_self.mpr h2

theorem TaxRates.finished (h : Inside .taxRates d₁ k c) : Finished .taxRates d₁ k c := by
  refine finished_of_lasting h (up_lasting d₁) rfl fun _ hv tx htx => ?_
  obtain ⟨k, rfl⟩ := Nat.exists_eq_succ_of_ne_zero h.pos.ne'
  -- The table is created first.
  have hrest : tx ∈ [addColumn .profiles .defaultFiscalRule] := List.mem_of_mem_drop (i := k) htx
  rw [List.mem_singleton.mp hrest]
  exact addColumn_eq_self.mpr hv

theorem AddCashbackCategory.finished (h : Inside .addCashbackCategory d₁ k c)
    (hscratch : ¬ LeavesScratch d₁ c .transactionsNew) : Finished .addCashbackCategory d₁ k c := by
  rcases h.two rfl with ⟨-, h1⟩ | ⟨rfl, -⟩
  · exact absurd (leavesScratch_of_create h1) hscratch
  · exact finished_of_last le_rfl (up_of_rebuilt (rebuilt_of_up h.stop))

namespace BalanceSnapshotId

theorem foldl_link_frame (l : List (ℕ × SnapshotRow)) (d : Store) :
    (l.foldl link d).schema = d.schema ∧ (l.foldl link d).balanceSnapshots = d.balanceSnapshots := by
  induction l generalizing d with
  | nil => exact ⟨rfl, rfl⟩
  | cons s l ih =>
    obtain ⟨hschema, hrows⟩ := ih (link d s)
    rw [List.foldl_cons, hschema, hrows]
    unfold link
    split <;> exact ⟨rfl, rfl⟩

theorem foldl_link_eq_self {l : List (ℕ × SnapshotRow)} (h : ∀ s ∈ l, findAdjustment d s.2 = none) :
    l.foldl link d = d := by
  induction l with
  | nil => rfl
  | cons s l ih =>
    have hs : link d s = d := by
      unfold link
      rw [h s List.mem_cons_self]
    rw [List.foldl_cons, hs]
    exact ih fun s' hs' => h s' (List.mem_cons_of_mem _ hs')

theorem place_place (d : Store) (r : ℕ × TransactionRow) : place d (r.1, place d r) = place d r := by
  unfold place
  cases hs : r.2.balanceSnapshotId.bind d.balanceSnapshots.get? with
  | none => simp only [hs]
  | some s => simp only [hs]

/-- The adjustments that were linked stay where they were put. -/
theorem linkAndPlace_again (h : linkAndPlace d = .ok c)
    (hnone : ∀ s ∈ c.balanceSnapshots.rows, findAdjustment c s.2 = none) : linkAndPlace c = .ok c := by
  unfold linkAndPlace at h ⊢
  by_cases htable : d.tableExists .balanceSnapshots = true
  · rw [if_pos htable] at h
    obtain rfl := Except.ok.inj h
    obtain ⟨hschema, -⟩ := foldl_link_frame d.balanceSnapshots.rows d
    generalize d.balanceSnapshots.rows.foldl link d = linked at hnone hschema ⊢
    have hkept : Store.tableExists { linked with transactions := mapRows linked.transactions (place linked) }
        .balanceSnapshots = true := by
      show decide (_ ∈ linked.schema) = true
      rw [hschema]
      exact htable
    rw [if_pos hkept, foldl_link_eq_self hnone]
    have hplaced := Profiles.mapRows_again linked.transactions (place_place linked)
    exact congrArg (fun rows => Except.ok { linked with transactions := rows }) hplaced
  · rw [if_neg htable] at h
    obtain rfl := Except.ok.inj h
    exact if_neg htable

theorem finished (h : Inside .balanceSnapshotId d₁ k c) (hseen : Unseen .balanceSnapshotId d₁ k c)
    (hnone : k = 2 → ∀ s ∈ c.balanceSnapshots.rows, findAdjustment c s.2 = none) :
    Finished .balanceSnapshotId d₁ k c := by
  rcases h.two rfl with ⟨rfl, h1⟩ | ⟨rfl, d₂, h1, h2⟩
  · refine ⟨?_, skip_of_seen h hseen⟩
    show commitAll [addColumn .transactions .balanceSnapshotId, linkAndPlace] c = commitAll [linkAndPlace] c
    rw [commitAll_cons, (onlyTable_addColumn _ _).again _ _ h1]
    rfl
  · refine finished_of_last le_rfl ?_
    have hcolumn : c.columnExists .transactions .balanceSnapshotId = true := by
      have hadded := columnExists_of_addColumn h1
      unfold linkAndPlace at h2
      split_ifs at h2
      · obtain rfl := Except.ok.inj h2
        obtain ⟨hschema, -⟩ := foldl_link_frame d₂.balanceSnapshots.rows d₂
        show decide (_ ∈ (d₂.balanceSnapshots.rows.foldl link d₂).schema) = true
        rw [hschema]
        exact hadded
      · obtain rfl := Except.ok.inj h2
        exact hadded
    show commitAll [addColumn .transactions .balanceSnapshotId, linkAndPlace] c = .ok c
    rw [commitAll_cons, addColumn_eq_self.mpr hcolumn]
    show commitAll [linkAndPlace] c = .ok c
    rw [commitAll_singleton]
    exact linkAndPlace_again h2 (hnone rfl)

end BalanceSnapshotId

/-! ## 017 to 028 -/

theorem PersistCashHandling.finished (h : Inside .persistCashHandling d₁ k c)
    (hseen : Unseen .persistCashHandling d₁ k c) : Finished .persistCashHandling d₁ k c :=
  finished_of_lasting h (up_lasting d₁) rfl fun hr hv _ htx => absurd htx (not_mem_drop (hseen hr hv))

theorem AddEntityMainCurrency.finished (h : Inside .addEntityMainCurrency d₁ k c) :
    Finished .addEntityMainCurrency d₁ k c :=
  finished_of_again h rfl (.inl rfl) ((onlyTable_addColumn _ _).again _ _)

theorem AddProfileTimezone.finished (h : Inside .addProfileTimezone d₁ k c) :
    Finished .addProfileTimezone d₁ k c :=
  finished_of_again h rfl (.inl rfl) ((onlyTable_addColumn _ _).again _ _)

namespace BackfillJstToUtc

/-- No row of the two tables has a timestamp. -/
def NoTimestamps (d : Store) : Prop :=
  d.transactions.rows = [] ∧
    (d.columnExists .balanceSnapshots .timestamp = true → d.balanceSnapshots.rows = [])

theorem mapRows_of_nil {α : Type} {rows : Table α} (h : rows.rows = []) (f : ℕ × α → α) :
    mapRows rows f = rows := by
  refine Table.ext_rows ?_ rfl
  show rows.rows.map _ = rows.rows
  rw [h]
  rfl

theorem convert_of_noTimestamps (h : NoTimestamps d) : convert d = .ok d := by
  obtain ⟨htransactions, hsnapshots⟩ := h
  have hfirst : convertTransactions d = d := by
    rw [convertTransactions, mapRows_of_nil htransactions]
  unfold convert
  rw [hfirst]
  dsimp only
  split_ifs with hcolumn
  · rw [convertSnapshots, mapRows_of_nil (hsnapshots hcolumn)]
  · rfl

theorem verify_convert (h : convert d = .ok c) : verify c = true := by
  have hsuffix : ∀ ts, hasSuffix (normalizeTimestamp ts) = false := fun _ => rfl
  obtain rfl := Except.ok.inj h
  unfold verify
  simp only [Bool.and_eq_true, Bool.or_eq_true, Bool.not_eq_true', List.all_eq_true]
  split_ifs with hcolumn
  · refine ⟨.inr fun r hr => ?_, .inr fun r hr => ?_⟩
    · obtain ⟨r', -, rfl⟩ := List.mem_map.mp hr
      exact hsuffix _
    · obtain ⟨r', -, rfl⟩ := List.mem_map.mp hr
      exact hsuffix _
  · refine ⟨.inr fun r hr => ?_, .inl (Bool.not_eq_true _ ▸ hcolumn)⟩
    obtain ⟨r', -, rfl⟩ := List.mem_map.mp hr
    exact hsuffix _

theorem finished (h : Inside .backfillJstToUtc d₁ k c)
    (hshift : .backfillJstToUtc ∈ d₁.versions ∨ NoTimestamps c) :
    Finished .backfillJstToUtc d₁ k c := by
  have hup : ∀ d : Store, up d = [convert] ∨ up d = [] := by
    intro d
    unfold up
    split_ifs
    · exact .inr rfl
    · exact .inl rfl
    · exact .inr rfl
  rcases hup d₁ with hsingle | hnil
  · refine finished_of_single h hsingle fun hok => ?_
    show commitAll (up c) c = .ok c
    rcases hshift with hr | hempty
    · rw [← versions_eq h] at hr
      rw [up, if_pos (by rw [verify_convert hok, decide_eq_true hr]; rfl)]
      rfl
    · rcases hup c with hc | hc
      · rw [hc, commitAll_singleton]
        exact convert_of_noTimestamps hempty
      · rw [hc]
        rfl
  · exact (h.not_nil hnil).elim

end BackfillJstToUtc

namespace TaxSchemaV2

theorem finished (h : Inside .taxSchemaV2 d₁ k c)
    (hcolumns : .taxSchemaV2 ∈ d₁.versions → c.tableExists .taxRates = false → NoTable .taxRates c) :
    Finished .taxSchemaV2 d₁ k c := by
  refine finished_of_lasting h (up_lasting d₁) rfl fun hr hv tx htx => ?_
  have hverify : verify c = true := hv
  simp only [verify, Bool.and_eq_true, Bool.or_eq_true, Bool.not_eq_true'] at hverify
  obtain ⟨⟨⟨⟨⟨⟨⟨h1, h2⟩, h3⟩, h4⟩, h5⟩, h6⟩, h7⟩, h8⟩ := hverify
  have hcolumn : ∀ {t : TableName} {x : ColumnName}, c.tableExists t = false ∨ c.columnExists t x = true →
      addColumnIfTable t x c = .ok c := by
    intro t x hx
    refine addColumnIfTable_eq_self.mpr fun ht => hx.resolve_left fun hf => ?_
    rw [ht] at hf
    cases hf
  have hmem : tx ∈ up d₁ := List.mem_of_mem_drop htx
  simp only [up, List.mem_cons, List.not_mem_nil, or_false] at hmem
  rcases hmem with rfl | rfl | rfl | rfl | rfl | rfl | rfl | rfl
  · exact createIfMissing_eq_self.mpr h1
  · exact createIfMissing_eq_self.mpr h2
  · exact createIfMissing_eq_self.mpr h3
  · exact createIfMissing_eq_self.mpr h4
  · exact createIfMissing_eq_self.mpr h5
  · exact hcolumn h7
  · exact hcolumn h8
  · exact dropTaxRates_eq_self.mpr (hcolumns hr h6)

end TaxSchemaV2

namespace DropTaxType

theorem taxType_of_rebuildTaxes (h : rebuildTaxes d = .ok d') :
    d'.columnExists .transactionTaxes .taxType = false := by
  unfold rebuildTaxes at h
  split_ifs at h
  obtain rfl := Except.ok.inj h
  refine decide_eq_false fun hmem => ?_
  have hitems := (exactTable_withRebuilt .transactionTaxes .transactionTaxesNew columns
    [.taxDefinitionIdNotNull] d (.column .transactionTaxes .taxType) rfl).mp hmem
  exact absurd hitems (by decide)

theorem finished (h : Inside .dropTaxType d₁ k c) (hscratch : ¬ LeavesScratch d₁ c .transactionTaxesNew) :
    Finished .dropTaxType d₁ k c := by
  have hnothing : ∀ d : Store, rebuildTaxes d = .ok c → commitAll (up c) c = .ok c := by
    intro d hd
    have hcolumn := taxType_of_rebuildTaxes hd
    rw [up, hcolumn, Bool.and_false]
    rfl
  by_cases hold : (d₁.tableExists .transactionTaxes && d₁.columnExists .transactionTaxes .taxType) = true
  · by_cases hcatalog : d₁.tableExists .taxDefinitions = true
    · refine finished_of_single h ((if_pos hold).trans (if_pos hcatalog)) fun hok => ?_
      obtain ⟨d₂, -, hok⟩ := commitAll_cons_eq_ok.mp hok
      obtain ⟨d₃, -, hok⟩ := commitAll_cons_eq_ok.mp hok
      rw [commitAll_singleton] at hok
      exact hnothing d₃ hok
    · have hup : Version.dropTaxType.up d₁ = _ := (if_pos hold).trans (if_neg hcatalog)
      rcases h.two hup with ⟨-, h1⟩ | ⟨rfl, d₂, -, h2⟩
      · exact absurd (leavesScratch_of_create h1) hscratch
      · exact finished_of_last (by rw [hup]; exact le_rfl) (hnothing d₂ h2)
  · exact (h.not_nil (if_neg hold)).elim

end DropTaxType

theorem SeedTaxCatalog.finished (h : Inside .seedTaxCatalog d₁ k c) : Finished .seedTaxCatalog d₁ k c :=
  finished_of_again h rfl (.inl rfl) seed_again

theorem MacroSeries.finished (h : Inside .macroSeries d₁ k c) : Finished .macroSeries d₁ k c := by
  refine finished_of_lasting h (up_lasting d₁) rfl fun _ hv tx htx => ?_
  have hverify : verify c = true := hv
  simp only [verify, Bool.and_eq_true, List.all_eq_true] at hverify
  obtain ⟨⟨h1, h2⟩, h3⟩ := hverify
  have hmem : tx ∈ up d₁ := List.mem_of_mem_drop htx
  simp only [up, List.mem_cons, List.not_mem_nil, or_false] at hmem
  rcases hmem with rfl | rfl | rfl
  · exact createIfMissing_eq_self.mpr h1
  · exact createIfMissing_eq_self.mpr h2
  · have hthere : ∀ rows : List MacroSeriesRow, (∀ row ∈ rows, seriesExists c row.slug = true) →
        rows.foldl insertSeries c = c := by
      intro rows
      induction rows with
      | nil => exact fun _ => rfl
      | cons row rows ih =>
        intro hrows
        have hrow : insertSeries c row = c := if_pos (hrows row List.mem_cons_self)
        rw [List.foldl_cons, hrow]
        exact ih fun row' hrow' => hrows row' (List.mem_cons_of_mem _ hrow')
    exact congrArg Except.ok (hthere series h3)

theorem EcbDepositRateSource.finished (h : Inside .ecbDepositRateSource d₁ k c) :
    Finished .ecbDepositRateSource d₁ k c := by
  refine finished_of_again h rfl (.inl rfl) fun hok => ?_
  unfold onTable at hok ⊢
  split_ifs at hok with htable
  obtain rfl := Except.ok.inj hok
  have hkept : (repoint d₁ source).tableExists .macroSeries = true := htable
  rw [if_pos hkept]
  exact congrArg Except.ok (repoint_again d₁ source)

theorem ExactTable.tableExists (h : ExactTable t columns texts d) : d.tableExists t = true :=
  decide_eq_true ((h _ rfl).mpr table_mem_tableItems)

/-- A last statement that can be repeated, after others that are not taken up again. -/
theorem up_of_last {v : Version} {first : List Statement} {last : Statement} (h : Inside v d₁ k c)
    (hup : v.up d₁ = first ++ [last]) (hfirst : first.length ≤ k) (hc : v.up c = [last])
    (hagain : ∀ d d', last d = .ok d' → last d' = .ok d') :
    commitAll (v.up c) c = commitAll ((v.up d₁).drop k) c := by
  obtain ⟨-, hle, hstop⟩ := h
  rw [hup, List.length_append, List.length_singleton] at hle
  rw [hup] at hstop ⊢
  rcases hfirst.eq_or_lt with rfl | hlt
  · rw [hc, List.drop_left]
  · rw [List.take_of_length_le (by rw [List.length_append]; exact hlt), commitAll_append,
      Runs.bind_eq_ok] at hstop
    obtain ⟨d₂, -, hlast⟩ := hstop
    rw [commitAll_singleton] at hlast
    rw [hc, commitAll_singleton, hagain d₂ c hlast,
      List.drop_eq_nil_of_le (by rw [List.length_append]; exact hlt)]
    rfl

/-- The series, rebuilt with a scratch table, and rows written last. -/
theorem up_of_rebuilt_series {v : Version} {rebuildSeries last : Statement} (h : Inside v d₁ k c)
    (hup : v.up d₁ = [create .macroSeriesNew [] texts, rebuildSeries] ++ [last])
    (hscratch : ¬ LeavesScratch d₁ c .macroSeriesNew)
    (hrebuild : ∀ d d', rebuildSeries d = .ok d' → ExactTable .macroSeries [] texts d')
    (hschema : ∀ d d', last d = .ok d' → d'.schema = d.schema)
    (hagain : ∀ d d', last d = .ok d' → last d' = .ok d')
    (hc : ExactTable .macroSeries [] texts c → v.up c = [last]) :
    commitAll (v.up c) c = commitAll ((v.up d₁).drop k) c := by
  have hstop := h.stop
  rw [hup] at hstop
  rcases Nat.lt_or_ge 1 k with hk | hk
  · refine up_of_last h hup hk (hc ?_) hagain
    obtain ⟨j, rfl⟩ := Nat.exists_eq_add_of_le' hk
    obtain ⟨d₂, -, hstop⟩ := commitAll_cons_eq_ok.mp hstop
    obtain ⟨d₃, h3, hstop⟩ := commitAll_cons_eq_ok.mp hstop
    refine Keeps.commitAll (fun tx htx d d' hd hok => ?_) _ _ (hrebuild _ _ h3) hstop
    rw [List.mem_singleton.mp (List.mem_of_mem_take htx)] at hok
    exact hd.of_same (sameTable_of_schema (hschema d d' hok) _)
  · obtain rfl : k = 1 := le_antisymm hk h.pos
    rw [List.take_append_of_le_length (Nat.succ_le_succ (Nat.zero_le 1))] at hstop
    exact absurd (leavesScratch_of_create (commitAll_singleton _ d₁ ▸ hstop)) hscratch

namespace OfficialMacroSources

/-- The last statement. -/
def repointSources : Statement := fun d => .ok (sources.foldl repoint d)

theorem schema_repoint (d : Store) (r : Repoint) : (repoint d r).schema = d.schema := rfl

theorem schema_repointSources (d d' : Store) (h : repointSources d = .ok d') : d'.schema = d.schema := by
  unfold repointSources at h
  obtain rfl := Except.ok.inj h
  exact foldl_schema schema_repoint sources d

theorem repointSources_again (d d' : Store) (h : repointSources d = .ok d') : repointSources d' = .ok d' := by
  unfold repointSources at h ⊢
  obtain rfl := Except.ok.inj h
  rw [sources_again]

theorem up_of_sourced (htable : d.tableExists .macroSeries = true)
    (hsql : d.sqlHas .macroSeries .investingCom = false) : up d = [repointSources] := by
  rw [up, if_pos htable, hsql]
  rfl

theorem finished (h : Inside .officialMacroSources d₁ k c) (hseen : Unseen .officialMacroSources d₁ k c)
    (hscratch : ¬ LeavesScratch d₁ c .macroSeriesNew) : Finished .officialMacroSources d₁ k c where
  up := by
    by_cases htable : d₁.tableExists .macroSeries = true
    swap
    · exact (h.not_nil (if_neg htable)).elim
    cases hsql : d₁.sqlHas .macroSeries .investingCom with
    | true =>
      have hup : Version.officialMacroSources.up d₁ =
          [create .macroSeriesNew [] [.boj, .fred], rebuildSeries] ++ [repointSources] := by
        show up d₁ = _
        rw [up, if_pos htable, hsql]
        rfl
      refine up_of_rebuilt_series h hup hscratch (fun d d' => exactTable_of_rebuild) schema_repointSources
        repointSources_again fun hexact => up_of_sourced hexact.tableExists ?_
      exact decide_eq_false fun hmem => absurd ((hexact _ rfl).mp hmem) (by decide)
    | false =>
      have hup : Version.officialMacroSources.up d₁ = [] ++ [repointSources] := up_of_sourced htable hsql
      have hwithin := within_of_stop h.stop
      have htable' : c.tableExists .macroSeries = true := by
        refine decide_eq_true (hwithin.keeps _ (of_decide_eq_true htable) rfl)
      have hsql' : c.sqlHas .macroSeries .investingCom = false :=
        decide_eq_false fun hmem => of_decide_eq_false hsql (hwithin.brings _ hmem rfl)
      exact up_of_last h hup (Nat.zero_le k) (up_of_sourced htable' hsql') repointSources_again
  skip := skip_of_seen h hseen

end OfficialMacroSources

/-- One more series. -/
def insertRow (row : MacroSeriesRow) : Statement := fun d => .ok (MacroSeries.insertSeries d row)

theorem schema_insertRow (row : MacroSeriesRow) (d d' : Store) (h : insertRow row d = .ok d') :
    d'.schema = d.schema := by
  rw [← Except.ok.inj h]
  exact MacroSeries.schema_insertSeries d row

theorem insertRow_again (row : MacroSeriesRow) (d d' : Store) (h : insertRow row d = .ok d') :
    insertRow row d' = .ok d' := by
  have hlasting := MacroSeries.lasting_insertSeries [row]
  exact hlasting.again _ (List.mem_singleton_self _) d d' h

theorem insertRow_of_fromMarketApi {row : MacroSeriesRow} (h : fromMarketApi d row.slug = true) :
    insertRow row d = .ok d := by
  obtain ⟨row', hrow, -⟩ := fromMarketApi_iff.mp h
  refine congrArg Except.ok (if_pos ?_)
  exact seriesExists_iff.mpr (Option.isSome_iff_exists.mpr ⟨row', hrow⟩)

namespace UsaPolicyRateSource

theorem up_of_allowed (htable : d.tableExists .macroSeries = true)
    (hsql : d.sqlHas .macroSeries .marketApi = true) : up d = [insertRow row] := by
  rw [up, if_pos htable, hsql]
  rfl

theorem finished (h : Inside .usaPolicyRateSource d₁ k c) (hscratch : ¬ LeavesScratch d₁ c .macroSeriesNew) :
    Finished .usaPolicyRateSource d₁ k c := by
  by_cases htable : d₁.tableExists .macroSeries = true
  swap
  · exact (h.not_nil (if_neg htable)).elim
  cases hsql : d₁.sqlHas .macroSeries .marketApi with
  | true =>
    have hwithin := within_of_stop h.stop
    have htable' : c.tableExists .macroSeries = true :=
      decide_eq_true (hwithin.keeps _ (of_decide_eq_true htable) rfl)
    have hsql' : c.sqlHas .macroSeries .marketApi = true :=
      decide_eq_true (hwithin.keeps _ (of_decide_eq_true hsql) rfl)
    refine finished_of_again h (up_of_allowed htable hsql) (.inl ?_) (insertRow_again row d₁ c)
    exact up_of_allowed htable' hsql'
  | false =>
    have hup : Version.usaPolicyRateSource.up d₁ =
        [create .macroSeriesNew [] [.boj, .fred, .marketApi], rebuildSeries] ++ [insertRow row] := by
      show up d₁ = _
      rw [up, if_pos htable, hsql]
      rfl
    have hup' := up_of_rebuilt_series h hup hscratch (fun d d' => exactTable_of_rebuild)
      (schema_insertRow row) (insertRow_again row) fun hexact =>
        up_of_allowed hexact.tableExists (hexact.sqlHas (by decide))
    refine ⟨hup', fun ha => ?_⟩
    obtain ⟨-, hv⟩ := Bool.and_eq_true_iff.mp ha
    obtain ⟨hreached, hrow⟩ := Bool.and_eq_true_iff.mp hv
    obtain ⟨htable', hsql'⟩ := Bool.and_eq_true_iff.mp hreached
    show commitAll ((Version.usaPolicyRateSource.up d₁).drop k) c = .ok c
    rw [← hup']
    show commitAll (up c) c = .ok c
    rw [up_of_allowed htable' hsql', commitAll_singleton]
    exact insertRow_of_fromMarketApi hrow

end UsaPolicyRateSource

theorem Usa10yYieldSource.finished (h : Inside .usa10yYieldSource d₁ k c) :
    Finished .usa10yYieldSource d₁ k c := by
  by_cases htable : d₁.tableExists .macroSeries = true
  · refine finished_of_again h (if_pos htable) (.inl ?_) (insertRow_again row d₁ c)
    have hwithin := within_of_stop h.stop
    exact if_pos (decide_eq_true (hwithin.keeps _ (of_decide_eq_true htable) rfl))
  · exact (h.not_nil (if_neg htable)).elim

end Migrations

end FinHub
