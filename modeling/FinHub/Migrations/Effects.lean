import FinHub.Migrations.Versions

/-!
# FinHub.Migrations.Effects

What each migration can change: the parts of the file it writes, and the items of the schema it can
take away or bring (`Version.effect`, `Version.up_stays`).
-/

namespace FinHub

open Tabular Upgrade

namespace Migrations

/-! ## Effects -/

/-- The parts of the file besides its schema. -/
inductive Part where
  | transactions | balanceSnapshots | links | occurrences | taxes | owned | profiles | catalog
  | macroSeries | versions | others
  deriving DecidableEq

def SamePart (d d' : Store) : Part → Prop
  | .transactions => d'.transactions = d.transactions
  | .balanceSnapshots => d'.balanceSnapshots = d.balanceSnapshots
  | .links => d'.balanceAdjustmentLinks = d.balanceAdjustmentLinks
  | .occurrences => d'.scheduleOccurrences = d.scheduleOccurrences
  | .taxes => d'.transactionTaxes = d.transactionTaxes
  | .owned => d'.owned = d.owned
  | .profiles => d'.profiles = d.profiles
  | .catalog => d'.taxBases = d.taxBases ∧ d'.taxBaseCategories = d.taxBaseCategories ∧
      d'.taxBaseRates = d.taxBaseRates ∧ d'.taxDefinitions = d.taxDefinitions ∧
      d'.brokerFeeDefinitions = d.brokerFeeDefinitions
  | .macroSeries => d'.macroSeries = d.macroSeries
  | .versions => d'.versions = d.versions
  | .others => d'.others = d.others

structure Effect where
  writes : List Part := []
  /-- The items that can go. -/
  lost : SchemaItem → Bool := fun _ => false
  /-- The items that can come. -/
  gained : SchemaItem → Bool := fun _ => false

structure Within (e : Effect) (d d' : Store) : Prop where
  same : ∀ p ∉ e.writes, SamePart d d' p
  keeps : ∀ x ∈ d.schema, e.lost x = false → x ∈ d'.schema
  brings : ∀ x ∈ d'.schema, e.gained x = false → x ∈ d.schema

/-- A statement stays within an effect. -/
def Stays (e : Effect) (tx : Statement) : Prop := ∀ d d', tx d = .ok d' → Within e d d'

variable {e : Effect} {d d' d₁ : Store} {t scratch : TableName} {c : ColumnName}
  {columns : List ColumnName} {texts : List SqlText}

theorem SamePart.refl (d : Store) (p : Part) : SamePart d d p := by
  cases p
  case catalog => exact ⟨rfl, rfl, rfl, rfl, rfl⟩
  all_goals rfl

theorem SamePart.trans {p : Part} (h : SamePart d d₁ p) (h' : SamePart d₁ d' p) :
    SamePart d d' p := by
  cases p
  case catalog =>
    obtain ⟨h1, h2, h3, h4, h5⟩ := h
    obtain ⟨h1', h2', h3', h4', h5'⟩ := h'
    exact ⟨h1'.trans h1, h2'.trans h2, h3'.trans h3, h4'.trans h4, h5'.trans h5⟩
  all_goals exact Eq.trans h' h

theorem Within.refl (e : Effect) (d : Store) : Within e d d :=
  ⟨fun p _ => .refl d p, fun _ h _ => h, fun _ h _ => h⟩

theorem Within.trans (h : Within e d d₁) (h' : Within e d₁ d') : Within e d d' where
  same p hp := (h.same p hp).trans (h'.same p hp)
  keeps x hx hl := h'.keeps x (h.keeps x hx hl) hl
  brings x hx hg := h.brings x (h'.brings x hx hg) hg

/-- Rows are written, and the schema is not. -/
theorem Within.rows (hs : d'.schema = d.schema) (hp : ∀ p ∉ e.writes, SamePart d d' p) :
    Within e d d' := ⟨hp, fun _ hx _ => hs ▸ hx, fun _ hx _ => hs ▸ hx⟩

theorem Within.foldl {α : Type} {f : Store → α → Store} (h : ∀ d a, Within e d (f d a))
    (as : List α) (d : Store) : Within e d (as.foldl f d) := by
  induction as generalizing d with
  | nil => exact .refl e d
  | cons a as ih => exact (h d a).trans (ih _)

/-! ## Statements -/

theorem stays_pure {f : Store → Store} (h : ∀ d, Within e d (f d)) :
    Stays e fun d => .ok (f d) := by
  intro d d' hok
  cases hok
  exact h d

theorem stays_bind {tx : Statement} {k : Store → Except MigrationError Store} (h : Stays e tx)
    (hk : Stays e k) : Stays e fun d => tx d >>= k := by
  intro d d' hok
  obtain ⟨d₁, h1, h2⟩ := Runs.bind_eq_ok.mp hok
  exact (h d d₁ h1).trans (hk d₁ d' h2)

theorem stays_map {tx : Statement} {f : Store → Store} (h : Stays e tx) (hf : ∀ d, Within e d (f d)) :
    Stays e fun d => (tx d).map f := by
  intro d d' hok
  obtain ⟨d₁, h1, rfl⟩ := Runs.map_eq_ok.mp hok
  exact (h d d₁ h1).trans (hf d₁)

theorem stays_commitAll {txs : List Statement} (h : ∀ tx ∈ txs, Stays e tx) :
    Stays e (commitAll txs) := by
  induction txs with
  | nil => exact stays_pure fun d => .refl e d
  | cons tx txs ih =>
    exact stays_bind (h tx List.mem_cons_self) (ih fun tx' htx' => h tx' (List.mem_cons_of_mem _ htx'))

theorem stays_foldlM {α : Type} {f : Store → α → Except MigrationError Store}
    (h : ∀ a, Stays e fun d => f d a) (as : List α) : Stays e fun d => as.foldlM f d := by
  induction as with
  | nil => exact stays_pure fun d => .refl e d
  | cons a as ih => exact stays_bind (h a) ih

theorem within_withItems {items : Finset SchemaItem} (h : ∀ x ∈ items, e.gained x = true)
    (d : Store) : Within e d (d.withItems items) where
  same p _ := by
    cases p
    case catalog => exact ⟨rfl, rfl, rfl, rfl, rfl⟩
    all_goals rfl
  keeps _ hx _ := Finset.mem_union_left _ hx
  brings x hx hg := by
    rcases Finset.mem_union.mp hx with hx | hx
    · exact hx
    · rw [h x hx] at hg; cases hg

theorem stays_onTable {f : Store → Store} (h : ∀ d, Within e d (f d)) : Stays e (onTable t f) := by
  intro d d' hok
  unfold onTable at hok
  split_ifs at hok
  cases hok
  exact h d

theorem stays_createIfMissing (h : ∀ x ∈ tableItems t columns texts, e.gained x = true) :
    Stays e (createIfMissing t columns texts) := by
  refine stays_pure fun d => ?_
  split_ifs
  · exact .refl e d
  · exact within_withItems h d

theorem stays_create (h : ∀ x ∈ tableItems t columns texts, e.gained x = true) :
    Stays e (create t columns texts) := by
  intro d d' hok
  unfold create at hok
  split_ifs at hok
  cases hok
  exact within_withItems h d

theorem stays_addColumn (h : e.gained (.column t c) = true) : Stays e (addColumn t c) := by
  intro d d' hok
  unfold addColumn at hok
  split_ifs at hok
  · cases hok
    exact .refl e d
  · refine stays_onTable (fun d => within_withItems (fun x hx => ?_) d) _ _ hok
    rw [Finset.mem_singleton.mp hx]
    exact h

theorem within_withRebuilt (hpos : ∀ x, x.tableName = t ∨ x.tableName = scratch →
      x ∉ tableItems t columns texts → e.lost x = true)
    (hneg : ∀ x ∈ tableItems t columns texts, x ≠ .table t → e.gained x = true)
    (ht : d.tableExists t = true) : Within e d (d.withRebuilt t scratch columns texts) where
  same p _ := by
    cases p
    case catalog => exact ⟨rfl, rfl, rfl, rfl, rfl⟩
    all_goals rfl
  keeps x hx hl := by
    refine Finset.mem_union.mpr ?_
    by_cases hitem : x ∈ tableItems t columns texts
    · exact .inr hitem
    · refine .inl (Finset.mem_filter.mpr ⟨hx, ?_, ?_⟩)
      · intro he
        rw [hpos x (.inl he) hitem] at hl
        cases hl
      · intro he
        rw [hpos x (.inr he) hitem] at hl
        cases hl
  brings x hx hg := by
    rcases Finset.mem_union.mp hx with hx | hx
    · exact (Finset.mem_filter.mp hx).1
    · by_cases he : x = .table t
      · rw [he]
        exact of_decide_eq_true ht
      · rw [hneg x hx he] at hg
        cases hg

theorem rebuild_eq_ok (h : rebuild t scratch columns texts d = .ok d') :
    d.tableExists t = true ∧ d' = d.withRebuilt t scratch columns texts := by
  unfold rebuild at h
  split_ifs at h with h1 h2
  · cases h
    exact ⟨Bool.eq_true_of_not_eq_false h1, rfl⟩

theorem stays_rebuild (hpos : ∀ x, x.tableName = t ∨ x.tableName = scratch →
      x ∉ tableItems t columns texts → e.lost x = true)
    (hneg : ∀ x ∈ tableItems t columns texts, x ≠ .table t → e.gained x = true) :
    Stays e (rebuild t scratch columns texts) := by
  intro d d' hok
  obtain ⟨ht, rfl⟩ := rebuild_eq_ok hok
  exact within_withRebuilt hpos hneg ht

/-! ## The migrations -/

def gains (items : Finset SchemaItem) (x : SchemaItem) : Bool := decide (x ∈ items)

/-- What a rebuilt table brings besides itself, its scratch table included. -/
def rebuiltItems (t scratch : TableName) (columns : List ColumnName) (texts : List SqlText) :
    Finset SchemaItem := tableItems scratch columns texts ∪ (tableItems t columns texts).erase (.table t)

/-- What a rebuilt table takes away. -/
def drops (t scratch : TableName) (columns : List ColumnName) (texts : List SqlText)
    (x : SchemaItem) : Bool :=
  (decide (x.tableName = t) || decide (x.tableName = scratch)) &&
    !decide (x ∈ tableItems t columns texts)

namespace Version

def effect : Version → Effect
  | purchaseDate => { lost := gains {.column .portfolioAssets .purchaseDate} }
  | backfillSnapshots => { writes := [.balanceSnapshots] }
  | stockSplits => { gained := gains (tableItems .stockSplits [] []) }
  | scheduleAsset => { gained := gains {.column .schedules .portfolioAssetId} }
  | manualValues => { gained := gains (tableItems .manualValues [] []) }
  | transferTypes =>
    { writes := [.transactions]
      lost := drops .transactions .transactionsNew TransferTypes.columns [.transferIn]
      gained := gains
        (rebuiltItems .transactions .transactionsNew TransferTypes.columns [.transferIn]) }
  | scheduleOccurrences =>
    { writes := [.occurrences], gained := gains (tableItems .scheduleOccurrences [] []) }
  | profiles =>
    { writes := [.profiles, .transactions, .balanceSnapshots, .occurrences, .taxes, .owned]
      gained := fun x => gains (tableItems .profiles [] []) x ||
        decide (x = .column x.tableName .profileId) }
  | marketAssetLastSynced => { gained := gains {.column .marketAssets .lastSyncedAt} }
  | incomeCategory =>
    { gained := gains {.column .schedules .incomeCategory, .column .transactions .incomeCategory} }
  | renameInvestmentCategory =>
    { lost := gains {.column .transactions .transactionCategory}
      gained := gains {.column .transactions .investmentTransactionCategory} }
  | fiscalPeriods =>
    { gained := gains (insert (.column .transactions .fiscalRule) (tableItems .fiscalPeriods [] [])) }
  | taxRates =>
    { gained := gains (insert (.column .profiles .defaultFiscalRule) (tableItems .taxRates [] [])) }
  | addCashbackCategory =>
    { writes := [.transactions, .owned]
      lost := fun x =>
        drops .transactions .transactionsNew AddCashbackCategory.transactionColumns
          [.transferIn, .cashback] x ||
        drops .schedules .schedulesNew AddCashbackCategory.scheduleColumns [.cashback] x
      gained := gains
        (rebuiltItems .transactions .transactionsNew AddCashbackCategory.transactionColumns
            [.transferIn, .cashback] ∪
          rebuiltItems .schedules .schedulesNew AddCashbackCategory.scheduleColumns [.cashback]) }
  | balanceSnapshotId =>
    { writes := [.transactions], gained := gains {.column .transactions .balanceSnapshotId} }
  | consolidateAutoSnapshots => { writes := [.transactions, .balanceSnapshots] }
  | persistCashHandling =>
    { writes := [.links]
      gained := gains (insert (.column .transactions .cashHandling)
        (tableItems .balanceAdjustmentLinks [] [])) }
  | addEntityMainCurrency => { gained := gains {.column .entities .mainCurrency} }
  | addProfileTimezone => { gained := gains {.column .profiles .timezone} }
  | backfillJstToUtc => { writes := [.transactions, .balanceSnapshots] }
  | taxSchemaV2 =>
    { lost := fun x => decide (x.tableName = .taxRates)
      gained := gains
        {.table .taxBases, .table .taxBaseCategories, .table .taxBaseRates, .table .taxDefinitions,
          .table .brokerFeeDefinitions, .column .transactionTaxes .taxDefinitionId,
          .column .transactionFees .brokerFeeDefinitionId} }
  | dropTaxType =>
    { writes := [.taxes, .catalog]
      lost := drops .transactionTaxes .transactionTaxesNew DropTaxType.columns
        [.taxDefinitionIdNotNull]
      gained := gains (rebuiltItems .transactionTaxes .transactionTaxesNew DropTaxType.columns
        [.taxDefinitionIdNotNull]) }
  | seedTaxCatalog => { writes := [.catalog] }
  | macroSeries =>
    { writes := [.macroSeries]
      gained := gains (tableItems .macroSeries [] [.boj, .fred] ∪
        tableItems .macroSeriesObservations [] []) }
  | ecbDepositRateSource => { writes := [.macroSeries] }
  | officialMacroSources =>
    { writes := [.macroSeries]
      lost := drops .macroSeries .macroSeriesNew [] [.boj, .fred]
      gained := gains (rebuiltItems .macroSeries .macroSeriesNew [] [.boj, .fred]) }
  | usaPolicyRateSource =>
    { writes := [.macroSeries]
      lost := drops .macroSeries .macroSeriesNew [] [.boj, .fred, .marketApi]
      gained := gains (rebuiltItems .macroSeries .macroSeriesNew [] [.boj, .fred, .marketApi]) }
  | usa10yYieldSource => { writes := [.macroSeries] }

end Version

theorem stays_create_rebuilt (h : ∀ x ∈ rebuiltItems t scratch columns texts, e.gained x = true) :
    Stays e (create scratch columns texts) :=
  stays_create fun x hx => h x (Finset.mem_union_left _ hx)

theorem drops_of {x : SchemaItem} (h : x.tableName = t ∨ x.tableName = scratch)
    (hx : x ∉ tableItems t columns texts) : drops t scratch columns texts x = true := by
  simp only [drops, Bool.and_eq_true, Bool.or_eq_true, decide_eq_true_eq, Bool.not_eq_true',
    decide_eq_false_iff_not]
  exact ⟨h, hx⟩

theorem stays_rebuild_of (hl : ∀ x, drops t scratch columns texts x = true → e.lost x = true)
    (hg : ∀ x ∈ rebuiltItems t scratch columns texts, e.gained x = true) :
    Stays e (rebuild t scratch columns texts) :=
  stays_rebuild (fun x hx hitem => hl x (drops_of hx hitem)) fun x hx hne =>
    hg x (Finset.mem_union_right _ (Finset.mem_erase.mpr ⟨hne, hx⟩))

/-! ### Writes of one part -/

theorem within_transactions (h : .transactions ∈ e.writes) (rows : Table TransactionRow) :
    Within e d { d with transactions := rows } := by
  refine .rows rfl fun p hp => ?_
  cases p
  case transactions => exact absurd h hp
  case catalog => exact ⟨rfl, rfl, rfl, rfl, rfl⟩
  all_goals rfl

theorem within_balanceSnapshots (h : .balanceSnapshots ∈ e.writes) (rows : Table SnapshotRow) :
    Within e d { d with balanceSnapshots := rows } := by
  refine .rows rfl fun p hp => ?_
  cases p
  case balanceSnapshots => exact absurd h hp
  case catalog => exact ⟨rfl, rfl, rfl, rfl, rfl⟩
  all_goals rfl

theorem within_links (h : .links ∈ e.writes) (rows : Table LinkRow) :
    Within e d { d with balanceAdjustmentLinks := rows } := by
  refine .rows rfl fun p hp => ?_
  cases p
  case links => exact absurd h hp
  case catalog => exact ⟨rfl, rfl, rfl, rfl, rfl⟩
  all_goals rfl

theorem within_occurrences (h : .occurrences ∈ e.writes) (rows : Table OccurrenceRow) :
    Within e d { d with scheduleOccurrences := rows } := by
  refine .rows rfl fun p hp => ?_
  cases p
  case occurrences => exact absurd h hp
  case catalog => exact ⟨rfl, rfl, rfl, rfl, rfl⟩
  all_goals rfl

theorem within_taxes (h : .taxes ∈ e.writes) (rows : Table TransactionTaxRow) :
    Within e d { d with transactionTaxes := rows } := by
  refine .rows rfl fun p hp => ?_
  cases p
  case taxes => exact absurd h hp
  case catalog => exact ⟨rfl, rfl, rfl, rfl, rfl⟩
  all_goals rfl

theorem within_owned (h : .owned ∈ e.writes) (rows : OwnedTable → Table OwnedRow) :
    Within e d { d with owned := rows } := by
  refine .rows rfl fun p hp => ?_
  cases p
  case owned => exact absurd h hp
  case catalog => exact ⟨rfl, rfl, rfl, rfl, rfl⟩
  all_goals rfl

theorem within_profiles (h : .profiles ∈ e.writes) (rows : Table String) :
    Within e d { d with profiles := rows } := by
  refine .rows rfl fun p hp => ?_
  cases p
  case profiles => exact absurd h hp
  case catalog => exact ⟨rfl, rfl, rfl, rfl, rfl⟩
  all_goals rfl

theorem within_macroSeries (h : .macroSeries ∈ e.writes) (rows : List MacroSeriesRow) :
    Within e d { d with macroSeries := rows } := by
  refine .rows rfl fun p hp => ?_
  cases p
  case macroSeries => exact absurd h hp
  case catalog => exact ⟨rfl, rfl, rfl, rfl, rfl⟩
  all_goals rfl

theorem within_catalog (h : .catalog ∈ e.writes)
    (bases : Table TaxBaseRow) (categories : List (ℕ × String)) (rates : List TaxBaseRateRow)
    (definitions : Table TaxDefinitionRow) (fees : Table String) :
    Within e d
      { d with
        taxBases := bases
        taxBaseCategories := categories
        taxBaseRates := rates
        taxDefinitions := definitions
        brokerFeeDefinitions := fees } := by
  refine .rows rfl fun p hp => ?_
  cases p
  case catalog => exact absurd h hp
  all_goals rfl

/-! ### One migration after another -/

theorem gains_of_mem {items : Finset SchemaItem} {x : SchemaItem} (h : x ∈ items) :
    gains items x = true := decide_eq_true h

theorem stays_backfill (h : .balanceSnapshots ∈ e.writes) :
    Stays e BackfillSnapshots.backfillAutoSnapshots := by
  intro d d' hok
  unfold BackfillSnapshots.backfillAutoSnapshots at hok
  split_ifs at hok
  refine stays_foldlM (fun buy d d' hok => ?_) _ _ _ hok
  unfold BackfillSnapshots.backfillBuy at hok
  cases hv : buy.2.totalValue with
  | none => rw [hv] at hok; cases hok; exact .refl e d
  | some total_value =>
    simp only [hv] at hok
    obtain ⟨balance, -, hok⟩ := Runs.bind_eq_ok.mp hok
    split_ifs at hok <;> cases hok
    · exact .refl e d
    · exact within_balanceSnapshots h _

theorem TransferTypes.up_stays : ∀ tx ∈ TransferTypes.up d, Stays Version.transferTypes.effect tx := by
  intro tx htx
  unfold TransferTypes.up at htx
  split_ifs at htx
  · cases htx
  rcases List.mem_cons.mp htx with rfl | htx
  · exact stays_create_rebuilt fun x hx => gains_of_mem hx
  · rw [List.mem_singleton.mp htx]
    exact stays_map (stays_rebuild_of (fun _ h => h) fun x hx => gains_of_mem hx) fun d =>
      within_transactions (by decide) _

theorem ScheduleOccurrences.up_stays :
    ∀ tx ∈ ScheduleOccurrences.up d, Stays Version.scheduleOccurrences.effect tx := by
  intro tx htx
  unfold ScheduleOccurrences.up at htx
  split_ifs at htx
  · cases htx
  rcases List.mem_cons.mp htx with rfl | htx
  · exact stays_create fun x hx => gains_of_mem hx
  · rw [List.mem_singleton.mp htx]
    refine stays_onTable fun d => Within.foldl (fun d o => ?_) _ d
    unfold insertOccurrence
    split_ifs
    · exact .refl _ d
    · exact within_occurrences (by decide) _

namespace Profiles

theorem within_fill {t : ProfileTable} (ht : t ∈ profileTables) (id : ℕ) (d : Store) :
    Within Version.profiles.effect d (t.fill id d) := by
  simp only [profileTables, List.mem_cons, List.not_mem_nil, or_false] at ht
  rcases ht with rfl | rfl | rfl | rfl | rfl | rfl | rfl | rfl | rfl | rfl
  case inr.inl => exact within_transactions (by decide) _
  case inr.inr.inr.inl => exact within_taxes (by decide) _
  case inr.inr.inr.inr.inr.inl => exact within_balanceSnapshots (by decide) _
  case inr.inr.inr.inr.inr.inr.inr.inl => exact within_occurrences (by decide) _
  all_goals exact within_owned (by decide) _

theorem stays_fillTable {t : ProfileTable} (ht : t ∈ profileTables) :
    Stays Version.profiles.effect (fillTable t) := stays_pure fun d => within_fill ht _ d

theorem stays_addOwner (t : TableName) : Stays Version.profiles.effect (addColumn t .profileId) := by
  refine stays_addColumn ?_
  simp [Version.effect, SchemaItem.tableName]

theorem within_seedDefault (d : Store) : Within Version.profiles.effect d (seedDefault d) := by
  unfold seedDefault
  split_ifs
  · exact within_profiles (by decide) _
  · exact .refl _ d

theorem up_stays : ∀ tx ∈ up d, Stays Version.profiles.effect tx := by
  intro tx htx
  unfold up at htx
  rcases List.mem_cons.mp htx with rfl | htx
  · exact stays_createIfMissing fun x hx => by simp [Version.effect, gains_of_mem hx]
  have htables : ∀ t ∈ profileTables.filter (fun t => d.tableExists t.name), t ∈ profileTables :=
    fun t ht => List.mem_of_mem_filter ht
  cases hfilter : profileTables.filter (fun t => d.tableExists t.name) with
  | nil =>
    simp only [hfilter] at htx
    rw [List.mem_singleton.mp htx]
    exact stays_pure within_seedDefault
  | cons first rest =>
    simp only [hfilter] at htx
    rw [hfilter] at htables
    rcases List.mem_cons.mp htx with rfl | htx
    · refine stays_commitAll fun tx htx => ?_
      rcases List.mem_cons.mp htx with rfl | htx
      · exact stays_pure within_seedDefault
      rcases List.mem_cons.mp htx with rfl | htx
      · exact stays_addOwner _
      · rw [List.mem_singleton.mp htx]
        exact stays_fillTable (htables first List.mem_cons_self)
    · obtain ⟨t, ht, htx⟩ := List.mem_flatMap.mp htx
      rcases List.mem_cons.mp htx with rfl | htx
      · exact stays_addOwner _
      · rw [List.mem_singleton.mp htx]
        exact stays_fillTable (htables t (List.mem_cons_of_mem _ ht))

end Profiles

namespace AddCashbackCategory

theorem up_stays : ∀ tx ∈ up d, Stays Version.addCashbackCategory.effect tx := by
  intro tx htx
  rcases List.mem_cons.mp htx with rfl | htx
  · exact stays_create_rebuilt fun x hx => gains_of_mem (Finset.mem_union_left _ hx)
  rw [List.mem_singleton.mp htx]
  refine stays_commitAll fun tx htx => ?_
  rcases List.mem_cons.mp htx with rfl | htx
  · refine stays_bind (stays_rebuild_of (fun x hx => ?_) fun x hx => ?_)
      (stays_pure fun d => within_transactions (by decide) _)
    · simp [Version.effect, hx]
    · exact gains_of_mem (Finset.mem_union_left _ hx)
  · rw [List.mem_singleton.mp htx]
    refine stays_bind (stays_create_rebuilt fun x hx => gains_of_mem (Finset.mem_union_right _ hx))
      (stays_bind (stays_rebuild_of (fun x hx => ?_) fun x hx => ?_)
        (stays_pure fun d => within_owned (by decide) _))
    · simp [Version.effect, hx]
    · exact gains_of_mem (Finset.mem_union_right _ hx)

end AddCashbackCategory

theorem BalanceSnapshotId.up_stays :
    ∀ tx ∈ BalanceSnapshotId.up d, Stays Version.balanceSnapshotId.effect tx := by
  intro tx htx
  rcases List.mem_cons.mp htx with rfl | htx
  · exact stays_addColumn (by decide)
  rw [List.mem_singleton.mp htx]
  intro d d' hok
  unfold linkAndPlace at hok
  split_ifs at hok <;> cases hok
  · refine (Within.foldl (fun d s => ?_) _ d).trans (within_transactions (by decide) _)
    unfold link
    cases findAdjustment d s.2 with
    | none => exact .refl _ d
    | some adj => exact within_transactions (by decide) _
  · exact .refl _ d

theorem within_reconcilePair (d : Store) (p : ℕ × Currency) :
    Within Version.consolidateAutoSnapshots.effect d (ConsolidateAutoSnapshots.reconcilePair d p) := by
  refine .rows rfl fun p hp => ?_
  cases p
  case transactions => exact absurd (by decide) hp
  case balanceSnapshots => exact absurd (by decide) hp
  case catalog => exact ⟨rfl, rfl, rfl, rfl, rfl⟩
  all_goals rfl

theorem stays_consolidate : Stays Version.consolidateAutoSnapshots.effect
    ConsolidateAutoSnapshots.consolidate := by
  refine stays_pure fun d => ?_
  split_ifs
  · exact Within.foldl within_reconcilePair _ d
  · exact .refl _ d

theorem PersistCashHandling.up_stays :
    ∀ tx ∈ PersistCashHandling.up d, Stays Version.persistCashHandling.effect tx := by
  intro tx htx
  rcases List.mem_cons.mp htx with rfl | htx
  · exact stays_addColumn (by decide)
  rcases List.mem_cons.mp htx with rfl | htx
  · exact stays_createIfMissing fun x hx => gains_of_mem (Finset.mem_insert_of_mem hx)
  rw [List.mem_singleton.mp htx]
  refine stays_pure fun d => Within.foldl (fun d l => ?_) _ d
  unfold insertLink
  split_ifs
  · exact .refl _ d
  · exact within_links (by decide) _

theorem BackfillJstToUtc.up_stays :
    ∀ tx ∈ BackfillJstToUtc.up d, Stays Version.backfillJstToUtc.effect tx := by
  intro tx htx
  unfold BackfillJstToUtc.up at htx
  split_ifs at htx
  · cases htx
  · rw [List.mem_singleton.mp htx]
    refine stays_pure fun d => ?_
    have hrows : Within Version.backfillJstToUtc.effect d (convertTransactions d) :=
      within_transactions (by decide) _
    refine hrows.trans ?_
    split_ifs
    · exact within_balanceSnapshots (by decide) _
    · exact .refl _ _
  · cases htx

theorem TaxSchemaV2.up_stays : ∀ tx ∈ TaxSchemaV2.up d, Stays Version.taxSchemaV2.effect tx := by
  have hcolumn : ∀ t c, Version.taxSchemaV2.effect.gained (.column t c) = true →
      Stays Version.taxSchemaV2.effect (addColumnIfTable t c) := by
    intro t c h d d' hok
    unfold addColumnIfTable at hok
    split_ifs at hok
    · exact stays_addColumn h _ _ hok
    · cases hok
      exact .refl _ d
  intro tx htx
  simp only [up, List.mem_cons, List.not_mem_nil, or_false] at htx
  rcases htx with rfl | rfl | rfl | rfl | rfl | rfl | rfl | rfl
  case inr.inr.inr.inr.inr.inl => exact hcolumn _ _ (by decide)
  case inr.inr.inr.inr.inr.inr.inl => exact hcolumn _ _ (by decide)
  case inr.inr.inr.inr.inr.inr.inr =>
    refine stays_pure fun d => ⟨fun p _ => ?_, fun x hx hl => ?_, fun x hx _ => ?_⟩
    · cases p
      case catalog => exact ⟨rfl, rfl, rfl, rfl, rfl⟩
      all_goals rfl
    · exact Finset.mem_filter.mpr ⟨hx, of_decide_eq_false hl⟩
    · exact (Finset.mem_filter.mp hx).1
  all_goals exact stays_createIfMissing (by decide)

theorem within_insertDefinition (h : .catalog ∈ e.writes) (row : TaxDefinitionRow) (d : Store) :
    Within e d (DropTaxType.insertDefinition row d) := by
  unfold DropTaxType.insertDefinition
  split_ifs
  · exact .refl e d
  · exact within_catalog h _ _ _ _ _

namespace DropTaxType

theorem stays_backfillDefinition : Stays Version.dropTaxType.effect backfillDefinition := by
  refine stays_pure fun d => (within_insertDefinition (by decide) genericWithholding d).trans ?_
  exact within_taxes (by decide) _

theorem stays_rebuildTaxes : Stays Version.dropTaxType.effect rebuildTaxes := by
  intro d d' hok
  unfold rebuildTaxes at hok
  split_ifs at hok with ht hc hn
  cases hok
  refine Within.trans (within_withRebuilt (fun x hx hitem => drops_of hx hitem)
    (fun x hx hne => gains_of_mem ?_) (Bool.eq_true_of_not_eq_false ht)) ?_
  · exact Finset.mem_union_right _ (Finset.mem_erase.mpr ⟨hne, hx⟩)
  · exact within_taxes (by decide) _

theorem up_stays : ∀ tx ∈ up d, Stays Version.dropTaxType.effect tx := by
  have hcreate : Stays Version.dropTaxType.effect createNew :=
    stays_create_rebuilt (t := .transactionTaxes) fun x hx => gains_of_mem hx
  intro tx htx
  unfold up at htx
  split_ifs at htx
  · rw [List.mem_singleton.mp htx]
    refine stays_commitAll fun tx htx => ?_
    simp only [List.mem_cons, List.not_mem_nil, or_false] at htx
    rcases htx with rfl | rfl | rfl
    · exact stays_backfillDefinition
    · exact hcreate
    · exact stays_rebuildTaxes
  · simp only [List.mem_cons, List.not_mem_nil, or_false] at htx
    rcases htx with rfl | rfl
    · exact hcreate
    · exact stays_rebuildTaxes
  · cases htx

end DropTaxType

namespace SeedTaxCatalog

theorem within_seedBase (d : Store) (base : TaxBaseRow × Bool) :
    Within Version.seedTaxCatalog.effect d (seedBase d base) := by
  unfold seedBase
  cases baseOf d base.1.rulesetKey with
  | some _ => exact .refl _ d
  | none => exact within_catalog (by decide) _ _ _ _ _

theorem within_seedFee (d : Store) (name : String) :
    Within Version.seedTaxCatalog.effect d (seedFee d name) := by
  unfold seedFee
  split_ifs
  · exact .refl _ d
  · exact within_catalog (by decide) _ _ _ _ _

theorem stays_seed : Stays Version.seedTaxCatalog.effect seed := by
  intro d d' hok
  unfold seed at hok
  split at hok
  · cases hok
  · rw [← Except.ok.inj hok]
    refine (within_insertDefinition (by decide) DropTaxType.genericWithholding d).trans ?_
    refine (within_insertDefinition (by decide) tasaTobin _).trans ?_
    exact (Within.foldl within_seedBase _ _).trans (Within.foldl within_seedFee _ _)

end SeedTaxCatalog

theorem within_insertSeries (h : .macroSeries ∈ e.writes) (row : MacroSeriesRow) (d : Store) :
    Within e d (MacroSeries.insertSeries d row) := by
  unfold MacroSeries.insertSeries
  split_ifs
  · exact .refl e d
  · exact within_macroSeries h _

theorem MacroSeries.up_stays : ∀ tx ∈ MacroSeries.up d, Stays Version.macroSeries.effect tx := by
  intro tx htx
  simp only [up, List.mem_cons, List.not_mem_nil, or_false] at htx
  rcases htx with rfl | rfl | rfl
  · exact stays_createIfMissing fun x hx => gains_of_mem (Finset.mem_union_left _ hx)
  · exact stays_createIfMissing fun x hx => gains_of_mem (Finset.mem_union_right _ hx)
  · exact stays_pure fun d =>
      Within.foldl (fun d row => within_insertSeries (by decide) row d) _ d

theorem within_repoint (h : .macroSeries ∈ e.writes) (d : Store) (r : Repoint) :
    Within e d (repoint d r) := within_macroSeries h _

/-- A rebuilt `macro_series`. -/
theorem stays_rebuildSeries {allowed : List String} (h : .macroSeries ∈ e.writes)
    (hl : ∀ x, drops .macroSeries .macroSeriesNew [] texts x = true → e.lost x = true)
    (hg : ∀ x ∈ rebuiltItems .macroSeries .macroSeriesNew [] texts, e.gained x = true) :
    Stays e fun d => rebuild .macroSeries .macroSeriesNew [] texts (keepAllowed allowed d) :=
  fun d d' hok => (within_macroSeries h _).trans (stays_rebuild_of hl hg (keepAllowed allowed d) d' hok)

theorem OfficialMacroSources.up_stays :
    ∀ tx ∈ OfficialMacroSources.up d, Stays Version.officialMacroSources.effect tx := by
  intro tx htx
  unfold OfficialMacroSources.up at htx
  split_ifs at htx <;> simp only [List.mem_append, List.mem_cons, List.not_mem_nil, or_false, false_or] at htx
  · rcases htx with (rfl | rfl) | rfl
    · exact stays_create_rebuilt (t := .macroSeries) fun x hx => gains_of_mem hx
    · exact stays_rebuildSeries (by decide) (fun _ h => h) fun x hx => gains_of_mem hx
    · exact stays_pure fun d => Within.foldl (within_repoint (by decide)) _ d
  · rw [htx]
    exact stays_pure fun d => Within.foldl (within_repoint (by decide)) _ d

theorem UsaPolicyRateSource.up_stays :
    ∀ tx ∈ UsaPolicyRateSource.up d, Stays Version.usaPolicyRateSource.effect tx := by
  intro tx htx
  unfold UsaPolicyRateSource.up at htx
  split_ifs at htx <;> simp only [List.mem_append, List.mem_cons, List.not_mem_nil, or_false, false_or] at htx
  · rw [htx]
    exact stays_pure fun d => within_insertSeries (by decide) _ d
  · rcases htx with (rfl | rfl) | rfl
    · exact stays_create_rebuilt (t := .macroSeries) fun x hx => gains_of_mem hx
    · exact stays_rebuildSeries (by decide) (fun _ h => h) fun x hx => gains_of_mem hx
    · exact stays_pure fun d => within_insertSeries (by decide) _ d

/-- Every transaction of a migration stays within its effect. -/
theorem Version.up_stays (v : Version) (d : Store) : ∀ tx ∈ v.up d, Stays v.effect tx := by
  cases v with
  | purchaseDate =>
    intro tx htx
    simp only [up, PurchaseDate.up] at htx
    split_ifs at htx
    · rw [List.mem_singleton.mp htx]
      refine stays_pure fun d => ⟨fun p _ => ?_, fun x hx hl => ?_, fun x hx _ => ?_⟩
      · cases p
        case catalog => exact ⟨rfl, rfl, rfl, rfl, rfl⟩
        all_goals rfl
      · refine Finset.mem_erase.mpr ⟨fun he => ?_, hx⟩
        rw [he] at hl
        exact absurd hl (by decide)
      · exact Finset.mem_of_mem_erase hx
    · cases htx
  | backfillSnapshots => exact fun tx htx => List.mem_singleton.mp htx ▸ stays_backfill (by decide)
  | stockSplits => exact fun tx htx => List.mem_singleton.mp htx ▸ stays_createIfMissing (by decide)
  | scheduleAsset => exact fun tx htx => List.mem_singleton.mp htx ▸ stays_addColumn (by decide)
  | manualValues => exact fun tx htx => List.mem_singleton.mp htx ▸ stays_createIfMissing (by decide)
  | transferTypes => exact TransferTypes.up_stays
  | scheduleOccurrences => exact ScheduleOccurrences.up_stays
  | profiles => exact Profiles.up_stays
  | marketAssetLastSynced =>
    intro tx htx
    simp only [up, MarketAssetLastSynced.up] at htx
    split_ifs at htx
    · exact List.mem_singleton.mp htx ▸ stays_addColumn (by decide)
    · cases htx
  | incomeCategory =>
    intro tx htx
    simp only [up, IncomeCategory.up, List.mem_cons, List.not_mem_nil, or_false] at htx
    rcases htx with rfl | rfl <;> exact stays_addColumn (by decide)
  | renameInvestmentCategory =>
    intro tx htx
    simp only [up, RenameInvestmentCategory.up] at htx
    split_ifs at htx
    · rw [List.mem_singleton.mp htx]
      refine stays_pure fun d => ⟨fun p _ => ?_, fun x hx hl => ?_, fun x hx hg => ?_⟩
      · cases p
        case catalog => exact ⟨rfl, rfl, rfl, rfl, rfl⟩
        all_goals rfl
      · refine Finset.mem_insert_of_mem (Finset.mem_erase.mpr ⟨fun he => ?_, hx⟩)
        rw [he] at hl
        exact absurd hl (by decide)
      · rcases Finset.mem_insert.mp hx with rfl | hx
        · exact absurd hg (by decide)
        · exact Finset.mem_of_mem_erase hx
    · cases htx
  | fiscalPeriods =>
    intro tx htx
    simp only [up, FiscalPeriods.up, List.mem_cons, List.not_mem_nil, or_false] at htx
    rcases htx with rfl | rfl
    · exact stays_createIfMissing (by decide)
    · exact stays_addColumn (by decide)
  | taxRates =>
    intro tx htx
    simp only [up, TaxRates.up, List.mem_cons, List.not_mem_nil, or_false] at htx
    rcases htx with rfl | rfl
    · exact stays_createIfMissing (by decide)
    · exact stays_addColumn (by decide)
  | addCashbackCategory => exact AddCashbackCategory.up_stays (d := d)
  | balanceSnapshotId => exact BalanceSnapshotId.up_stays (d := d)
  | consolidateAutoSnapshots => exact fun tx htx => List.mem_singleton.mp htx ▸ stays_consolidate
  | persistCashHandling => exact PersistCashHandling.up_stays (d := d)
  | addEntityMainCurrency =>
    exact fun tx htx => List.mem_singleton.mp htx ▸ stays_addColumn (by decide)
  | addProfileTimezone => exact fun tx htx => List.mem_singleton.mp htx ▸ stays_addColumn (by decide)
  | backfillJstToUtc => exact BackfillJstToUtc.up_stays
  | taxSchemaV2 => exact TaxSchemaV2.up_stays (d := d)
  | dropTaxType => exact DropTaxType.up_stays
  | seedTaxCatalog => exact fun tx htx => List.mem_singleton.mp htx ▸ SeedTaxCatalog.stays_seed
  | macroSeries => exact MacroSeries.up_stays (d := d)
  | ecbDepositRateSource =>
    exact fun tx htx => List.mem_singleton.mp htx ▸ stays_onTable fun d => within_repoint (by decide) d _
  | officialMacroSources => exact OfficialMacroSources.up_stays
  | usaPolicyRateSource => exact UsaPolicyRateSource.up_stays
  | usa10yYieldSource =>
    intro tx htx
    simp only [up, Usa10yYieldSource.up] at htx
    split_ifs at htx
    · rw [List.mem_singleton.mp htx]
      exact stays_pure fun d => within_insertSeries (by decide) _ d
    · cases htx

end Migrations

end FinHub
