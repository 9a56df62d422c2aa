import FinHub.Lib.Upgrade
import FinHub.Model.Ledger
import Mathlib.Data.Finset.Image

/-!
# FinHub.Migrations.Store

The database file as the migrations meet it: which tables, columns and `CHECK` texts it has, and the
rows of every profile.

Rows carry the columns some migration reads or writes under their names, and the others as they are
(`other`). A table or column that does not exist yet leaves its rows empty or its field `NULL`.
Indexes are left out: no migration depends on one.
-/

namespace FinHub

open Tabular Upgrade

namespace Migrations

/-! ## The schema -/

inductive TableName where
  | entities | transactions | transactionFees | transactionTaxes | portfolioAssets
  | balanceSnapshots | schedules | scheduleOccurrences | manualValues | fiscalExemptions
  | profiles | marketAssets | stockSplits | fiscalPeriods | taxRates | balanceAdjustmentLinks
  | taxBases | taxBaseCategories | taxBaseRates | taxDefinitions | brokerFeeDefinitions
  | macroSeries | macroSeriesObservations
  | transactionsNew | schedulesNew | transactionTaxesNew | macroSeriesNew
  deriving DecidableEq

inductive ColumnName where
  | purchaseDate | portfolioAssetId | profileId | lastSyncedAt | incomeCategory
  | transactionCategory | investmentTransactionCategory | fiscalRule | defaultFiscalRule
  | balanceSnapshotId | cashHandling | mainCurrency | timezone | timestamp
  | taxDefinitionId | brokerFeeDefinitionId | taxType
  deriving DecidableEq

/-- A text that a migration looks for in the `sql` of a table. -/
inductive SqlText where
  | transferIn | cashback | investingCom | marketApi | boj | fred | taxDefinitionIdNotNull
  deriving DecidableEq

inductive SchemaItem where
  | table (t : TableName)
  | column (t : TableName) (c : ColumnName)
  | sql (t : TableName) (x : SqlText)
  deriving DecidableEq

namespace SchemaItem

def tableName : SchemaItem → TableName
  | table t | column t _ | sql t _ => t

def isColumnOf (t : TableName) : SchemaItem → Bool
  | column t' _ => decide (t' = t)
  | table _ | sql _ _ => false

end SchemaItem

/-- What a `CREATE TABLE` brings. -/
def tableItems (t : TableName) (columns : List ColumnName) (texts : List SqlText) :
    Finset SchemaItem :=
  (SchemaItem.table t :: columns.map (SchemaItem.column t) ++ texts.map (SchemaItem.sql t)).toFinset

/-! ## Rows -/

/-- The columns of a row that no migration names. -/
abbrev Columns := List (String × Option String)

structure TransactionRow where
  timestamp : IsoStamp
  type : TransactionType
  entityId : ℕ
  currency : Currency
  totalValue : Option ℚ := none
  grossAmount : Option ℚ := none
  paymentCurrency : Option Currency := none
  balanceSnapshotId : Option ℕ := none
  notes : Option String := none
  profileId : Option ℕ := none
  other : Columns := []
  deriving DecidableEq

structure SnapshotRow where
  entityId : ℕ
  currency : Currency
  amount : ℚ
  timestamp : IsoStamp
  notes : Option String := none
  profileId : Option ℕ := none
  deriving DecidableEq

structure LinkRow where
  balanceAdjustmentId : ℕ
  linkedTransactionId : ℕ
  deriving DecidableEq

/-- `occurrence_date` is a day number. -/
structure OccurrenceRow where
  scheduleId : ℕ
  occurrenceDate : ℤ
  transactionId : ℕ
  profileId : Option ℕ := none
  deriving DecidableEq

/-- A row of another table that belongs to a profile. -/
structure OwnedRow where
  profileId : Option ℕ := none
  other : Columns := []
  deriving DecidableEq

structure TransactionTaxRow where
  taxDefinitionId : Option ℕ := none
  profileId : Option ℕ := none
  other : Columns := []
  deriving DecidableEq

structure TaxBaseRow where
  rulesetKey : String
  name : String
  computation : String
  flatRate : Option ℚ := none
  yearStart : Option ℤ := none
  deriving DecidableEq

structure TaxBaseRateRow where
  taxBaseId : ℕ
  fromAmount : ℚ
  toAmount : Option ℚ
  rate : ℚ
  deriving DecidableEq

structure TaxDefinitionRow where
  slug : String
  rulesetKey : Option String := none
  name : String
  rate : Option ℚ := none
  yearStart : Option ℤ := none
  deriving DecidableEq

structure MacroSeriesRow where
  slug : String
  provider : Option String
  name : String
  unit : Option String
  sourceUrl : Option String
  updateFrequency : Option String
  lastSyncedAt : Option String := none
  deriving DecidableEq

/-! ## The file -/

/-- The migrations, by the names of their files. -/
inductive Version where
  | purchaseDate | backfillSnapshots | stockSplits | scheduleAsset | manualValues | transferTypes
  | scheduleOccurrences | profiles | marketAssetLastSynced | incomeCategory
  | renameInvestmentCategory | fiscalPeriods | taxRates | addCashbackCategory | balanceSnapshotId
  | consolidateAutoSnapshots | persistCashHandling | addEntityMainCurrency | addProfileTimezone
  | backfillJstToUtc | taxSchemaV2 | dropTaxType | seedTaxCatalog | macroSeries
  | ecbDepositRateSource | officialMacroSources | usaPolicyRateSource | usa10yYieldSource
  deriving DecidableEq

/-- The tables of `PROFILE_TABLES` whose rows are only ever given an owner. -/
inductive OwnedTable where
  | entities | transactionFees | portfolioAssets | schedules | manualValues | fiscalExemptions
  deriving DecidableEq

structure Store where
  schema : Finset SchemaItem
  /-- `schema_migrations`. -/
  versions : List Version := []
  transactions : Table TransactionRow := .empty
  balanceSnapshots : Table SnapshotRow := .empty
  balanceAdjustmentLinks : Table LinkRow := .empty
  scheduleOccurrences : Table OccurrenceRow := .empty
  transactionTaxes : Table TransactionTaxRow := .empty
  owned : OwnedTable → Table OwnedRow := fun _ => .empty
  /-- The names of the profiles. -/
  profiles : Table String := .empty
  taxBases : Table TaxBaseRow := .empty
  taxBaseCategories : List (ℕ × String) := []
  taxBaseRates : List TaxBaseRateRow := []
  taxDefinitions : Table TaxDefinitionRow := .empty
  brokerFeeDefinitions : Table String := .empty
  macroSeries : List MacroSeriesRow := []
  /-- Tables that no migration reads or writes, such as the prices and the currency rates. -/
  others : List (String × List Columns) := []

/-- What a statement or the runner raises. -/
inductive MigrationError where
  | noSuchTable (t : TableName)
  | tableAlreadyExists (t : TableName)
  /-- The copy into a rebuilt table names a column that it does not have. -/
  | noSuchColumn (t : TableName)
  /-- An arithmetic operation meets `None`. -/
  | typeError
  /-- A `NOT NULL` column of a rebuilt table gets no value. -/
  | notNull (t : TableName)
  /-- `RuntimeError(f"Migration {version} did not reach its verified end-state")`. -/
  | notVerified (v : Version)
  deriving DecidableEq

namespace Store

variable (d : Store)

def has (x : SchemaItem) : Bool := decide (x ∈ d.schema)

/-- `_table_exists`. -/
def tableExists (t : TableName) : Bool := d.has (.table t)

/-- `_column_exists`. -/
def columnExists (t : TableName) (c : ColumnName) : Bool := d.has (.column t c)

/-- A text occurs in the `sql` of a table. -/
def sqlHas (t : TableName) (x : SqlText) : Bool := d.has (.sql t x)

def withItems (items : Finset SchemaItem) : Store := { d with schema := d.schema ∪ items }

/-- A rebuilt table: `scratch` has been filled, the old table dropped and `scratch` renamed. -/
def withRebuilt (t scratch : TableName) (columns : List ColumnName) (texts : List SqlText) : Store :=
  { d with schema := (d.schema.filter fun x => x.tableName ≠ t ∧ x.tableName ≠ scratch) ∪
      tableItems t columns texts }

end Store

/-! ## Statements -/

abbrev Statement := Tx Store MigrationError

/-- A statement that reads or writes a table. -/
def onTable (t : TableName) (f : Store → Store) : Statement := fun d =>
  if d.tableExists t then .ok (f d) else .error (.noSuchTable t)

/-- `CREATE TABLE IF NOT EXISTS`. -/
def createIfMissing (t : TableName) (columns : List ColumnName) (texts : List SqlText) :
    Statement := fun d =>
  .ok (if d.tableExists t then d else d.withItems (tableItems t columns texts))

/-- `CREATE TABLE`. -/
def create (t : TableName) (columns : List ColumnName) (texts : List SqlText) : Statement := fun d =>
  if d.tableExists t then .error (.tableAlreadyExists t)
  else .ok (d.withItems (tableItems t columns texts))

/-- `ALTER TABLE … ADD COLUMN`, when the column is missing. -/
def addColumn (t : TableName) (c : ColumnName) : Statement := fun d =>
  if d.columnExists t c then .ok d else onTable t (fun d => d.withItems {.column t c}) d

/-- `INSERT INTO scratch (cols) SELECT cols FROM t`, `DROP TABLE t` and the renaming. The copy needs a
place for every column of `t`. -/
def rebuild (t scratch : TableName) (columns : List ColumnName) (texts : List SqlText) : Statement :=
  fun d =>
    if d.tableExists t = false then .error (.noSuchTable t)
    else if d.schema.filter (fun x => x.isColumnOf t) ⊆ tableItems t columns texts
    then .ok (d.withRebuilt t scratch columns texts)
    else .error (.noSuchColumn scratch)

/-- Every row rewritten. -/
def mapRows {α : Type} (t : Table α) (f : ℕ × α → α) : Table α where
  rows := t.rows.map fun r => (r.1, f r)
  next := t.next
  sorted := List.pairwise_map.mpr t.sorted
  bounded := by
    intro r hr
    obtain ⟨r', hr', rfl⟩ := List.mem_map.mp hr
    exact t.bounded r' hr'

/-- A table whose rows have been copied into a new one counts its ids from its highest one. -/
def recount {α : Type} (t : Table α) : Table α where
  rows := t.rows
  next := (t.rows.getLast?.map fun r => r.1 + 1).getD 0
  sorted := t.sorted
  bounded := by
    intro r hr
    have hsorted := t.sorted
    rcases List.eq_nil_or_concat t.rows with hnil | ⟨init, last, hlast⟩
    · rw [hnil] at hr
      cases hr
    · rw [List.concat_eq_append] at hlast
      rw [hlast] at hr hsorted ⊢
      simp only [List.getLast?_append, List.getLast?_singleton, Option.some_or, Option.map_some,
        Option.getD_some]
      rcases List.mem_append.mp hr with hr | hr
      · exact Nat.lt_succ_of_lt ((List.pairwise_append.mp hsorted).2.2 r hr last (List.mem_singleton_self _))
      · rw [List.mem_singleton.mp hr]
        exact Nat.lt_succ_self _

end Migrations

end FinHub
