import FinHub.Migrations.Lawful

/-!
# FinHub.Migrations.Boot

Booting a migrated database. Between two boots the API writes rows (`UserWrite`); it never touches
the schema or `schema_migrations`. A boot carries a migration out again when a write has undone its
end-state. Two kinds of writes can: a snapshot whose notes start with `Auto-`, and an edit of the tax
catalog that removes a seeded entry. Timestamps cannot, since the services store them without their
offset (`toIso`).
-/

namespace FinHub

open Tabular Upgrade

namespace Migrations

variable {d d' : Store}

/-! ## User writes -/

/-- `_to_iso`: the wall clock to the second, whatever the offset. -/
def toIso (t : IsoStamp) : IsoStamp := { wall := t.wall / Time.ticksPerSecond * Time.ticksPerSecond }

/-- One write of the API to the database, as `db/queries.py` makes it. -/
inductive UserWrite where
  | createTransaction (row : TransactionRow)
  | updateTransaction (id : ℕ) (row : TransactionRow)
  | deleteTransaction (id : ℕ)
  | createBalanceSnapshot (row : SnapshotRow)
  | updateBalanceSnapshot (id : ℕ) (row : SnapshotRow)
  | deleteBalanceSnapshot (id : ℕ)
  | linkAdjustment (row : LinkRow)
  | unlinkAdjustments (id : ℕ)
  | createScheduleOccurrence (row : OccurrenceRow)
  | deleteScheduleOccurrences (schedule_id : ℕ)
  | createTransactionTax (row : TransactionTaxRow)
  | updateTransactionTax (id : ℕ) (row : TransactionTaxRow)
  | deleteTransactionTax (id : ℕ)
  | createOwned (t : OwnedTable) (row : OwnedRow)
  | updateOwned (t : OwnedTable) (id : ℕ) (row : OwnedRow)
  | deleteOwned (t : OwnedTable) (id : ℕ)
  | createProfile (name : String)
  | renameProfile (id : ℕ) (name : String)
  | deleteProfile (id : ℕ)
  | createTaxBase (row : TaxBaseRow) (categories : List String) (rates : List (ℚ × Option ℚ × ℚ))
  | updateTaxBase (id : ℕ) (row : TaxBaseRow) (categories : List String)
      (rates : List (ℚ × Option ℚ × ℚ))
  | deleteTaxBase (id : ℕ)
  | createTaxDefinition (row : TaxDefinitionRow)
  | updateTaxDefinition (id : ℕ) (row : TaxDefinitionRow)
  | deleteTaxDefinition (id : ℕ)
  | createBrokerFeeDefinition (name : String)
  | updateBrokerFeeDefinition (id : ℕ) (name : String)
  | deleteBrokerFeeDefinition (id : ℕ)
  | touchMacroSeriesSynced (slug : String) (synced_at : String)
  /-- Prices, currency rates and the other tables. -/
  | writeOthers (others : List (String × List Columns))

inductive UserError where
  | lastProfileError
  deriving DecidableEq

/-- `replace_tax_base_categories` and `replace_tax_base_rates`. -/
def replaceChildren (d : Store) (base_id : ℕ) (categories : List String)
    (rates : List (ℚ × Option ℚ × ℚ)) : Store :=
  let keptCategories := d.taxBaseCategories.filter fun c => decide (c.1 ≠ base_id)
  let keptRates := d.taxBaseRates.filter fun r => decide (r.taxBaseId ≠ base_id)
  let newRates : List TaxBaseRateRow := rates.map fun r => ⟨base_id, r.1, r.2.1, r.2.2⟩
  { d with
    taxBaseCategories := keptCategories ++ categories.map fun c => (base_id, c)
    taxBaseRates := keptRates ++ newRates }

/-- The rows of a profile go with it, whatever table they stand in. -/
def deleteProfileRows (d : Store) (id : ℕ) : Store :=
  { d with
    scheduleOccurrences := d.scheduleOccurrences.removeWhere fun r => decide (r.2.profileId = some id)
    transactionTaxes := d.transactionTaxes.removeWhere fun r => decide (r.2.profileId = some id)
    balanceSnapshots := d.balanceSnapshots.removeWhere fun r => decide (r.2.profileId = some id)
    transactions := d.transactions.removeWhere fun r => decide (r.2.profileId = some id)
    owned := fun t => (d.owned t).removeWhere fun r => decide (r.2.profileId = some id)
    profiles := d.profiles.erase id }

/-- `profile_svc.delete`. -/
def deleteProfile (d : Store) (id : ℕ) : Except UserError Store :=
  if d.profiles.rows.length ≤ 1 then .error .lastProfileError else .ok (deleteProfileRows d id)

namespace UserWrite

def storedTransaction (row : TransactionRow) : TransactionRow :=
  { row with timestamp := toIso row.timestamp }

def storedSnapshot (row : SnapshotRow) : SnapshotRow := { row with timestamp := toIso row.timestamp }

def apply (d : Store) : UserWrite → Except UserError Store
  | createTransaction row =>
    .ok { d with transactions := d.transactions.insert (storedTransaction row) }
  | updateTransaction id row =>
    .ok { d with transactions := d.transactions.modify id fun _ => storedTransaction row }
  | deleteTransaction id => .ok { d with transactions := d.transactions.erase id }
  | createBalanceSnapshot row =>
    .ok { d with balanceSnapshots := d.balanceSnapshots.insert (storedSnapshot row) }
  | updateBalanceSnapshot id row =>
    .ok { d with balanceSnapshots := d.balanceSnapshots.modify id fun _ => storedSnapshot row }
  | deleteBalanceSnapshot id => .ok { d with balanceSnapshots := d.balanceSnapshots.erase id }
  | linkAdjustment row =>
    .ok { d with balanceAdjustmentLinks := d.balanceAdjustmentLinks.insert row }
  | unlinkAdjustments id =>
    let links := d.balanceAdjustmentLinks.removeWhere fun r =>
      decide (r.2.balanceAdjustmentId = id ∨ r.2.linkedTransactionId = id)
    .ok { d with balanceAdjustmentLinks := links }
  | createScheduleOccurrence row =>
    .ok { d with scheduleOccurrences := d.scheduleOccurrences.insert row }
  | deleteScheduleOccurrences schedule_id =>
    let rows := d.scheduleOccurrences.removeWhere fun r => decide (r.2.scheduleId = schedule_id)
    .ok { d with scheduleOccurrences := rows }
  | createTransactionTax row => .ok { d with transactionTaxes := d.transactionTaxes.insert row }
  | updateTransactionTax id row =>
    .ok { d with transactionTaxes := d.transactionTaxes.modify id fun _ => row }
  | deleteTransactionTax id => .ok { d with transactionTaxes := d.transactionTaxes.erase id }
  | createOwned t row => .ok { d with owned := Function.update d.owned t ((d.owned t).insert row) }
  | updateOwned t id row =>
    .ok { d with owned := Function.update d.owned t ((d.owned t).modify id fun _ => row) }
  | deleteOwned t id => .ok { d with owned := Function.update d.owned t ((d.owned t).erase id) }
  | createProfile name => .ok { d with profiles := d.profiles.insert name }
  | renameProfile id name => .ok { d with profiles := d.profiles.modify id fun _ => name }
  | .deleteProfile id => Migrations.deleteProfile d id
  | createTaxBase row categories rates =>
    let created := { d with taxBases := d.taxBases.insert row }
    .ok (replaceChildren created d.taxBases.next categories rates)
  | updateTaxBase id row categories rates =>
    let updated := { d with taxBases := d.taxBases.modify id fun _ => row }
    .ok (replaceChildren updated id categories rates)
  | deleteTaxBase id => .ok { d with taxBases := d.taxBases.erase id }
  | createTaxDefinition row => .ok { d with taxDefinitions := d.taxDefinitions.insert row }
  | updateTaxDefinition id row =>
    .ok { d with taxDefinitions := d.taxDefinitions.modify id fun _ => row }
  | deleteTaxDefinition id => .ok { d with taxDefinitions := d.taxDefinitions.erase id }
  | createBrokerFeeDefinition name =>
    .ok { d with brokerFeeDefinitions := d.brokerFeeDefinitions.insert name }
  | updateBrokerFeeDefinition id name =>
    .ok { d with brokerFeeDefinitions := d.brokerFeeDefinitions.modify id fun _ => name }
  | deleteBrokerFeeDefinition id =>
    .ok { d with brokerFeeDefinitions := d.brokerFeeDefinitions.erase id }
  | touchMacroSeriesSynced slug synced_at =>
    let rows := d.macroSeries.map fun row =>
      if row.slug = slug then { row with lastSyncedAt := some synced_at } else row
    .ok { d with macroSeries := rows }
  | writeOthers others => .ok { d with others := others }

/-- An edit of the tax catalog. -/
def isCatalogEdit : UserWrite → Bool
  | createTaxBase .. | updateTaxBase .. | deleteTaxBase .. | createTaxDefinition ..
  | updateTaxDefinition .. | deleteTaxDefinition .. | createBrokerFeeDefinition ..
  | updateBrokerFeeDefinition .. | deleteBrokerFeeDefinition .. => true
  | _ => false

/-- The notes a write gives a snapshot. -/
def snapshotNotes : UserWrite → Option String
  | createBalanceSnapshot row | updateBalanceSnapshot _ row => row.notes
  | _ => none

/-- The write makes no auto-snapshot, and an edit of the tax catalog leaves the seeded entries. -/
def Harmless (d : Store) (w : UserWrite) : Prop :=
  ConsolidateAutoSnapshots.likeAuto w.snapshotNotes = false ∧
    (w.isCatalogEdit = true → ∀ d' ∈ (w.apply d).toOption, Version.seedTaxCatalog.seeded d' = true)

end UserWrite

/-! ## What writes leave alone -/

/-- Every migration is recorded and in its end-state. -/
def Migrated (d : Store) : Prop := ∀ m ∈ migrations, tracking.applied m d = true

theorem migrated_iff : Migrated d ↔ ∀ v ∈ Version.all, v ∈ d.versions ∧ v.verify d = true := by
  simp only [Migrated, migrations, List.forall_mem_map, Tracking.applied, tracking,
    Version.migration, Bool.and_eq_true, decide_eq_true_eq]

/-- A completed boot leaves a migrated database. -/
theorem migrated_of_ok (h : runMigrations d = .ok d') : Migrated d' := lawful.applied_of_run h

theorem runMigrations_of_migrated (h : Migrated d) : runMigrations d = .ok d :=
  Tracking.run_of_applied h

namespace UserWrite

variable {w : UserWrite}

theorem apply_frame (h : w.apply d = .ok d') : d'.schema = d.schema ∧ d'.versions = d.versions := by
  cases w
  case deleteProfile id =>
    simp only [apply, Migrations.deleteProfile] at h
    split_ifs at h
    cases h
    exact ⟨rfl, rfl⟩
  all_goals
    cases h
    exact ⟨rfl, rfl⟩

/-- The last profile cannot be deleted. -/
theorem profiles_kept (h : w.apply d = .ok d') (hd : d.profiles.rows ≠ []) : d'.profiles.rows ≠ [] := by
  cases w
  case createProfile name => cases h; simp [Table.insert]
  case renameProfile id name => cases h; simpa [Table.modify] using hd
  case deleteProfile id =>
    simp only [apply, Migrations.deleteProfile] at h
    split_ifs at h with hlen
    cases h
    intro hnil
    obtain ⟨a, b, hab⟩ : ∃ a b, a ∈ d.profiles.rows ∧ b ∈ d.profiles.rows ∧ a.1 ≠ b.1 := by
      have hsorted := d.profiles.sorted
      cases hrows : d.profiles.rows with
      | nil => exact absurd hrows hd
      | cons a rest =>
        cases rest with
        | nil => rw [hrows] at hlen; exact absurd le_rfl hlen
        | cons b rest =>
          rw [hrows] at hsorted
          exact ⟨a, b, by simp, by simp, (List.rel_of_pairwise_cons hsorted List.mem_cons_self).ne⟩
    have hgone : ∀ r ∈ d.profiles.rows, r.1 = id := by
      intro r hr
      by_contra hne
      have : r ∈ (d.profiles.erase id).rows := Table.mem_erase.mpr ⟨hr, hne⟩
      rw [show (d.profiles.erase id).rows = [] from hnil] at this
      cases this
    exact hab.2.2 ((hgone a hab.1).trans (hgone b hab.2.1).symm)
  all_goals
    cases h
    exact hd

theorem mem_modify_row {α : Type} {t : Table α} {k : ℕ} {f : α → α} {r : ℕ × α}
    (h : r ∈ (t.modify k f).rows) : r ∈ t.rows ∨ ∃ a, r.2 = f a := by
  obtain ⟨j, b⟩ := r
  rcases Table.mem_modify.mp h with ⟨-, hr⟩ | ⟨-, a, -, rfl⟩
  · exact .inl hr
  · exact .inr ⟨a, rfl⟩

/-- A snapshot of the new database is an old one or the one that was written. -/
theorem snapshots_of_apply (h : w.apply d = .ok d') :
    ∀ r ∈ d'.balanceSnapshots.rows, r ∈ d.balanceSnapshots.rows ∨
      BackfillJstToUtc.hasSuffix r.2.timestamp = false ∧ r.2.notes = w.snapshotNotes := by
  intro r hr
  cases w
  case createBalanceSnapshot row =>
    cases h
    rcases Table.mem_insert.mp hr with hr | rfl
    · exact .inl hr
    · exact .inr ⟨rfl, rfl⟩
  case updateBalanceSnapshot id row =>
    cases h
    rcases mem_modify_row hr with hr | ⟨a, hr⟩
    · exact .inl hr
    · rw [hr]
      exact .inr ⟨rfl, rfl⟩
  case deleteBalanceSnapshot id => cases h; exact .inl (Table.mem_erase.mp hr).1
  case deleteProfile id =>
    simp only [apply, Migrations.deleteProfile] at h
    split_ifs at h
    cases h
    exact .inl (Table.mem_removeWhere.mp hr).1
  all_goals
    cases h
    exact .inl hr

theorem transactions_of_apply (h : w.apply d = .ok d') :
    ∀ r ∈ d'.transactions.rows, r ∈ d.transactions.rows ∨
      BackfillJstToUtc.hasSuffix r.2.timestamp = false := by
  intro r hr
  cases w
  case createTransaction row =>
    cases h
    rcases Table.mem_insert.mp hr with hr | rfl
    · exact .inl hr
    · exact .inr rfl
  case updateTransaction id row =>
    cases h
    rcases mem_modify_row hr with hr | ⟨a, hr⟩
    · exact .inl hr
    · rw [hr]
      exact .inr rfl
  case deleteTransaction id => cases h; exact .inl (Table.mem_erase.mp hr).1
  case deleteProfile id =>
    simp only [apply, Migrations.deleteProfile] at h
    split_ifs at h
    cases h
    exact .inl (Table.mem_removeWhere.mp hr).1
  all_goals
    cases h
    exact .inl hr

theorem catalog_of_apply (h : w.apply d = .ok d') (hw : w.isCatalogEdit = false) :
    SamePart d d' .catalog := by
  cases w
  case deleteProfile id =>
    simp only [apply, Migrations.deleteProfile] at h
    split_ifs at h
    cases h
    exact ⟨rfl, rfl, rfl, rfl, rfl⟩
  all_goals first
    | exact Bool.noConfusion hw
    | (cases h; exact ⟨rfl, rfl, rfl, rfl, rfl⟩)

/-- The source of a macro series is not the users' to write. -/
theorem rowOf_of_apply (h : w.apply d = .ok d') (slug : String) :
    ∃ f : MacroSeriesRow → MacroSeriesRow,
      (∀ row, (f row).provider = row.provider ∧ (f row).sourceUrl = row.sourceUrl) ∧
      rowOf d' slug = (rowOf d slug).map f := by
  cases w
  case touchMacroSeriesSynced touched synced_at =>
    cases h
    refine ⟨_, fun row => ?_, rowOf_map (fun row => ?_) rfl slug⟩
    · split_ifs <;> exact ⟨rfl, rfl⟩
    · split_ifs <;> rfl
  case deleteProfile id =>
    simp only [apply, Migrations.deleteProfile] at h
    split_ifs at h
    cases h
    exact ⟨fun row => row, fun _ => ⟨rfl, rfl⟩, Option.map_id'.symm⟩
  all_goals
    cases h
    exact ⟨fun row => row, fun _ => ⟨rfl, rfl⟩, Option.map_id'.symm⟩

theorem pointed_of_apply (h : w.apply d = .ok d') {r : Repoint} (hd : pointed d r = true) :
    pointed d' r = true := by
  obtain ⟨f, hf, hrow⟩ := rowOf_of_apply h r.slug
  rw [pointed_iff] at hd ⊢
  obtain ⟨row, hd, hp, hs⟩ := hd
  exact ⟨f row, by rw [hrow, hd]; rfl, (hf row).1.trans hp, (hf row).2.trans hs⟩

theorem fromMarketApi_of_apply (h : w.apply d = .ok d') {slug : String}
    (hd : fromMarketApi d slug = true) : fromMarketApi d' slug = true := by
  obtain ⟨f, hf, hrow⟩ := rowOf_of_apply h slug
  rw [fromMarketApi_iff] at hd ⊢
  obtain ⟨row, hd, hp⟩ := hd
  exact ⟨f row, by rw [hrow, hd]; rfl, (hf row).1.trans hp⟩

theorem seriesExists_of_apply (h : w.apply d = .ok d') {slug : String}
    (hd : MacroSeries.seriesExists d slug = true) : MacroSeries.seriesExists d' slug = true := by
  obtain ⟨f, -, hrow⟩ := rowOf_of_apply h slug
  rw [seriesExists_iff] at hd ⊢
  rw [hrow, Option.isSome_map]
  exact hd

/-- A harmless write keeps every end-state. -/
theorem seeded_of_apply (h : w.apply d = .ok d') (hw : Harmless d w) (v : Version)
    (hd : v.seeded d = true) : v.seeded d' = true := by
  have hschema := (apply_frame h).1
  cases v
  case profiles =>
    simp only [Version.seeded, Bool.not_eq_true', List.isEmpty_eq_false_iff] at hd ⊢
    exact profiles_kept h hd
  case consolidateAutoSnapshots =>
    simp only [Version.seeded, ConsolidateAutoSnapshots.verify, Store.tableExists, Store.has, hschema,
      Bool.or_eq_true, List.all_eq_true, Bool.not_eq_true'] at hd ⊢
    refine hd.imp id fun hrows r hr => ?_
    rcases snapshots_of_apply h r hr with hr | ⟨-, hnotes⟩
    · exact hrows r hr
    · rw [hnotes]
      exact hw.1
  case backfillJstToUtc =>
    simp only [Version.seeded, BackfillJstToUtc.verify, Store.columnExists, Store.has, hschema,
      Bool.and_eq_true, Bool.or_eq_true, List.all_eq_true, Bool.not_eq_true'] at hd ⊢
    refine ⟨hd.1.imp id fun hrows r hr => ?_, hd.2.imp id fun hrows r hr => ?_⟩
    · exact (transactions_of_apply h r hr).elim (hrows r) id
    · exact (snapshots_of_apply h r hr).elim (hrows r) And.left
  case seedTaxCatalog =>
    by_cases hedit : w.isCatalogEdit = true
    · exact hw.2 hedit d' (by rw [h]; rfl)
    · have hsame := catalog_of_apply h (Bool.not_eq_true _ ▸ hedit)
      refine Version.seeded_congr .seedTaxCatalog (fun p hp => ?_) (by simp [Version.looksAt]) hd
      rw [List.mem_singleton.mp hp]
      exact hsame
  case macroSeries =>
    simp only [Version.seeded, List.all_eq_true] at hd ⊢
    exact fun row hrow => seriesExists_of_apply h (hd row hrow)
  case ecbDepositRateSource => exact pointed_of_apply h hd
  case officialMacroSources =>
    simp only [Version.seeded, List.all_eq_true] at hd ⊢
    exact fun r hr => pointed_of_apply h (hd r hr)
  case usaPolicyRateSource => exact fromMarketApi_of_apply h hd
  case usa10yYieldSource => exact fromMarketApi_of_apply h hd
  all_goals rfl

theorem migrated_of_apply (h : w.apply d = .ok d') (hw : Harmless d w) (hd : Migrated d) :
    Migrated d' := by
  obtain ⟨hschema, hversions⟩ := apply_frame h
  rw [migrated_iff] at hd ⊢
  intro v hv
  obtain ⟨hrec, hver⟩ := hd v hv
  rw [Version.verify_iff] at hver ⊢
  refine ⟨hversions ▸ hrec, fun p hp => ?_, seeded_of_apply h hw v hver.2⟩
  rw [hschema]
  exact hver.1 p hp

end UserWrite

/-! ## Runs -/

/-- What happens to a database, in any order. -/
inductive StoreEvent where
  | write (w : UserWrite)
  | boot

namespace StoreEvent

/-- A write that is refused leaves the database, and so does a boot that raises. -/
def call (d : Store) : StoreEvent → Except MigrationError Store
  | write w => .ok ((w.apply d).toOption.getD d)
  | boot => runMigrations d

def Harmless (d : Store) : StoreEvent → Prop
  | write w => w.Harmless d
  | boot => True

theorem migrated_of_call {e : StoreEvent} (h : e.call d = .ok d') (he : e.Harmless d)
    (hd : Migrated d) : Migrated d' := by
  cases e with
  | boot => exact migrated_of_ok h
  | write w =>
    simp only [call] at h
    cases hw : w.apply d with
    | error e => rw [hw] at h; cases h; exact hd
    | ok d₁ =>
      rw [hw] at h
      cases h
      exact UserWrite.migrated_of_apply hw he hd

end StoreEvent

/-- After harmless writes a boot changes nothing. -/
theorem boot_identity_of_reaches {d₀ d : Store}
    (h : Runs.Reaches StoreEvent.call StoreEvent.Harmless d₀ d) (h₀ : Migrated d₀) :
    runMigrations d = .ok d :=
  runMigrations_of_migrated
    (h.invariant h₀ fun _ _ _ hd he hcall => StoreEvent.migrated_of_call hcall he hd)

/-! ## A fresh install -/

/-- The tables of `db/schema.sql`. -/
def schemaSql : Finset SchemaItem :=
  tableItems .entities [.mainCurrency, .profileId] [] ∪
  tableItems .transactions AddCashbackCategory.transactionColumns [.transferIn, .cashback] ∪
  tableItems .transactionFees [.brokerFeeDefinitionId, .profileId] [] ∪
  tableItems .transactionTaxes [.taxDefinitionId, .profileId] [.taxDefinitionIdNotNull] ∪
  tableItems .portfolioAssets [.profileId] [] ∪
  tableItems .balanceSnapshots [.timestamp, .profileId] [] ∪
  tableItems .schedules AddCashbackCategory.scheduleColumns [.cashback] ∪
  tableItems .scheduleOccurrences [.profileId] [] ∪
  tableItems .manualValues [.portfolioAssetId, .profileId] [] ∪
  tableItems .fiscalExemptions [.profileId] [] ∪
  tableItems .profiles [.defaultFiscalRule, .timezone] [] ∪
  tableItems .marketAssets [.lastSyncedAt] [] ∪
  tableItems .stockSplits [] [] ∪
  tableItems .fiscalPeriods [.profileId] [] ∪
  tableItems .balanceAdjustmentLinks [] [] ∪
  tableItems .taxBases [] [] ∪ tableItems .taxBaseCategories [] [] ∪ tableItems .taxBaseRates [] [] ∪
  tableItems .taxDefinitions [] [] ∪ tableItems .brokerFeeDefinitions [] [] ∪
  tableItems .macroSeries [] [.boj, .fred, .marketApi] ∪ tableItems .macroSeriesObservations [] []

namespace Sample

def freshInstall : Store := { schema := schemaSql }

/-- The database after the first boot. -/
def installed : Store := (runMigrations freshInstall).toOption.getD freshInstall

theorem installed_migrated : Migrated installed := by
  have hok : (runMigrations freshInstall).isOk = true := by decide +kernel
  refine migrated_of_ok (d := freshInstall) ?_
  unfold installed
  cases h : runMigrations freshInstall with
  | error e => rw [h] at hok; cases hok
  | ok d => rfl

def yen : Currency := ⟨"JPY", by decide⟩

def salary : TransactionRow where
  timestamp := { wall := 0 }
  type := .income
  entityId := 0
  currency := yen
  totalValue := some 300

/-- A balance of 100, with a note. -/
def balance (notes : String) : SnapshotRow where
  entityId := 0
  currency := yen
  amount := 100
  timestamp := { wall := 0 }
  notes := some notes

/-- The adjustment that the service records for a balance of 100. -/
def adjustment : TransactionRow where
  timestamp := { wall := -Time.ticksPerSecond }
  type := .balanceAdjustment
  entityId := 0
  currency := yen
  totalValue := some 100
  balanceSnapshotId := some 0

def written (ws : List UserWrite) : Store :=
  ws.foldl (fun d w => (w.apply d).toOption.getD d) installed

/-- A balance and a salary survive two boots. -/
theorem boot_after_salary :
    let d := written [.createBalanceSnapshot (balance "Opening"), .createTransaction salary]
    d.transactions.rows.length = 1 ∧ d.balanceSnapshots.rows.length = 1 ∧
      runMigrations d = .ok d := by
  intro d
  have hrows : d.transactions.rows.length = 1 ∧ d.balanceSnapshots.rows.length = 1 := by
    decide +kernel
  refine ⟨hrows.1, hrows.2, boot_identity_of_reaches ?_ installed_migrated⟩
  have hbalance : UserWrite.Harmless installed (.createBalanceSnapshot (balance "Opening")) :=
    ⟨by decide, fun hedit => by cases hedit⟩
  have hsalary : ∀ d, UserWrite.Harmless d (.createTransaction salary) :=
    fun d => ⟨by decide, fun hedit => by cases hedit⟩
  exact .tail (.tail .refl ⟨.write (.createBalanceSnapshot (balance "Opening")), hbalance, rfl⟩)
    ⟨.write (.createTransaction salary), hsalary _, rfl⟩

/-- A balance noted `Auto-deposit` is gone after the next boot, with its adjustment, and a deleted
broker fee is back. -/
theorem boot_after_autoNote :
    let d := written [.createBalanceSnapshot (balance "Auto-deposit"), .createTransaction adjustment,
      .deleteBrokerFeeDefinition 0]
    Migrated installed ∧
      (d.balanceSnapshots.rows.length = 1 ∧ d.transactions.rows.length = 1 ∧
        d.brokerFeeDefinitions.rows.length = 2) ∧
      (runMigrations d).toOption.map (fun d' => (d'.balanceSnapshots.rows.length,
        d'.transactions.rows.length, d'.brokerFeeDefinitions.rows.length)) = some (0, 0, 3) := by
  exact ⟨installed_migrated, by decide +kernel⟩

end Sample

end Migrations

end FinHub
