import FinHub.Analytics.Holdings
import FinHub.Fiscal.Periods
import FinHub.Tax.Engine
import FinHub.Zones.Occurrences

/-!
# FinHub.Profiles.Store

The whole database: the tables of every profile in one file, with the profile clause of the queries.

A row of a profile carries `profile_id`; the market tables are shared. The schema declares references
between the tables and no connection turns `foreign_keys` on, so a reference is a value in a column and
nothing more. `Store.references` lists every such value, table by table. Of the catalogues, which name
no profile and no row of one, the two that rows of profiles name are kept.
-/

namespace FinHub

open Tabular

/-- A row with its `profile_id`; `none` is `NULL`. -/
structure Owned (α : Type) where
  profileId : Option ℕ
  row : α
  deriving DecidableEq

/-- `_profile_clause`: without an active profile every row is in scope. -/
def Owned.inScope {α : Type} (o : Owned α) (profile_id : Option ℕ) : Bool :=
  profile_id.all fun p => o.profileId == some p

structure StockSplit where
  marketCode : String
  splitDate : String
  ratio : ℕ
  deriving DecidableEq

structure StoredSchedule extends ScheduleRow where
  linkedTransactionId : Option ℕ := none
  deriving DecidableEq

structure Store where
  currencies : List CurrencyRate
  profiles : Table ProfileRow
  entities : Table (Owned Entity)
  fiscalExemptions : Table (Owned FiscalExemption)
  marketAssets : List MarketAsset
  portfolioAssets : Table (Owned PortfolioAsset)
  transactions : Table (Owned Transaction)
  balanceAdjustmentLinks : List Link
  transactionFees : Table (Owned TransactionFee)
  transactionTaxes : Table (Owned TransactionTax)
  prices : List Price
  balanceSnapshots : Table (Owned BalanceSnapshot)
  schedules : Table (Owned StoredSchedule)
  scheduleOccurrences : Table (Owned Occurrence)
  stockSplits : List StockSplit
  manualValues : Table (Owned ManualValue)
  fiscalPeriods : Table FiscalPeriodRow
  taxDefinitions : List TaxDefinition
  brokerFeeDefinitions : Table String

/-- No rows. -/
def Store.empty : Store where
  currencies := []
  profiles := .empty
  entities := .empty
  fiscalExemptions := .empty
  marketAssets := []
  portfolioAssets := .empty
  transactions := .empty
  balanceAdjustmentLinks := []
  transactionFees := .empty
  transactionTaxes := .empty
  prices := []
  balanceSnapshots := .empty
  schedules := .empty
  scheduleOccurrences := .empty
  stockSplits := []
  manualValues := .empty
  fiscalPeriods := .empty
  taxDefinitions := []
  brokerFeeDefinitions := .empty

/-! ## References -/

/-- The tables that hold references. -/
inductive TableName where
  | entities | fiscalExemptions | marketAssets | portfolioAssets | transactions
  | balanceAdjustmentLinks | transactionFees | transactionTaxes | prices | balanceSnapshots | schedules
  | scheduleOccurrences | stockSplits | manualValues | fiscalPeriods
  deriving DecidableEq

/-- What a reference names: a code, or a row of a table by its id. -/
inductive Target where
  | currency (code : Currency)
  | marketAsset (market_code : String)
  | profile (id : ℕ)
  | entity (id : ℕ)
  | fiscalExemption (id : ℕ)
  | portfolioAsset (id : ℕ)
  | transaction (id : ℕ)
  | balanceSnapshot (id : ℕ)
  | schedule (id : ℕ)
  | taxDefinition (id : ℕ)
  | brokerFeeDefinition (id : ℕ)
  deriving DecidableEq

@[simp] def Entity.targets (e : Entity) : List Target := (e.mainCurrency.map .currency).toList

@[simp] def PortfolioAsset.targets (a : PortfolioAsset) : List Target := [.marketAsset a.marketCode]

@[simp] def MarketAsset.targets (a : MarketAsset) : List Target := [.currency a.currencyCode]

/-- The currency columns of a transaction. -/
def Transaction.currencies (t : Transaction) : List Currency :=
  [t.currency] ++ t.paymentCurrency.toList ++ t.dividendCurrency.toList ++
    t.dividendPaymentCurrency.toList

@[simp] def Transaction.targets (t : Transaction) : List Target :=
  [.entity t.entityId] ++ (t.portfolioAssetId.map .portfolioAsset).toList ++
    t.currencies.map .currency ++ (t.fiscalExemptionId.map .fiscalExemption).toList ++
    (t.balanceSnapshotId.map .balanceSnapshot).toList

@[simp] def Link.targets (l : Link) : List Target :=
  [.transaction l.balanceAdjustmentId, .transaction l.linkedTransactionId]

@[simp] def TransactionFee.targets (f : TransactionFee) : List Target :=
  [.transaction f.transactionId, .currency f.currency] ++
    (f.brokerFeeDefinitionId.map .brokerFeeDefinition).toList

@[simp] def TransactionTax.targets (t : TransactionTax) : List Target :=
  [.transaction t.transactionId, .taxDefinition t.taxDefinitionId, .currency t.currency]

@[simp] def Price.targets (p : Price) : List Target := [.marketAsset p.marketCode]

@[simp] def BalanceSnapshot.targets (b : BalanceSnapshot) : List Target := [.entity b.entityId, .currency b.currency]

@[simp] def StoredSchedule.targets (s : StoredSchedule) : List Target :=
  (s.linkedTransactionId.map .transaction).toList ++ (s.entityId.map .entity).toList ++
    (s.currency.map .currency).toList ++ (s.portfolioAssetId.map .portfolioAsset).toList

@[simp] def Occurrence.targets (o : Occurrence) : List Target :=
  [.schedule o.scheduleId, .transaction o.transactionId]

@[simp] def StockSplit.targets (s : StockSplit) : List Target := [.marketAsset s.marketCode]

@[simp] def ManualValue.targets (v : ManualValue) : List Target := [.portfolioAsset v.portfolioAssetId]

/-- A value in a reference column, with the table and the `profile_id` of its row. -/
structure Reference where
  table : TableName
  owner : Option ℕ
  target : Target
  deriving DecidableEq

/-- The references of a table of the profiles, `profile_id` among them. -/
def ownedReferences {α : Type} (table : TableName) (targets : α → List Target) (t : Table (Owned α)) :
    List Reference :=
  t.rows.flatMap fun r =>
    ((r.2.profileId.map .profile).toList ++ targets r.2.row).map (⟨table, r.2.profileId, ·⟩)

/-- The references of a table without `profile_id`. -/
def sharedReferences {α : Type} (table : TableName) (targets : α → List Target) (rows : List α) :
    List Reference :=
  rows.flatMap fun a => (targets a).map (⟨table, none, ·⟩)

/-- A fiscal period names its profile only. -/
def periodReferences (t : Table FiscalPeriodRow) : List Reference :=
  t.rows.map fun r => ⟨.fiscalPeriods, some r.2.profileId, .profile r.2.profileId⟩

section

variable {α : Type} {table : TableName} {targets : α → List Target} {r : Reference}

theorem mem_ownedReferences {t : Table (Owned α)} :
    r ∈ ownedReferences table targets t ↔ r.table = table ∧ ∃ row ∈ t.rows, r.owner = row.2.profileId ∧
      (row.2.profileId.map .profile = some r.target ∨ r.target ∈ targets row.2.row) := by
  obtain ⟨table', owner, target⟩ := r
  simp only [ownedReferences, List.mem_flatMap, List.mem_map, List.mem_append, Option.mem_toList,
    Reference.mk.injEq]
  constructor
  · rintro ⟨row, hrow, x, hx, htable, howner, hxt⟩
    exact ⟨htable.symm, row, hrow, howner.symm, by rwa [hxt] at hx⟩
  · rintro ⟨htable, row, hrow, howner, hx⟩
    exact ⟨row, hrow, target, hx, htable.symm, howner.symm, rfl⟩

theorem mem_sharedReferences {rows : List α} :
    r ∈ sharedReferences table targets rows ↔
      r.table = table ∧ r.owner = none ∧ ∃ a ∈ rows, r.target ∈ targets a := by
  obtain ⟨table', owner, target⟩ := r
  simp only [sharedReferences, List.mem_flatMap, List.mem_map, Reference.mk.injEq]
  constructor
  · intro ⟨a, ha, x, hx, htable, howner, hxt⟩
    exact ⟨htable.symm, howner.symm, a, ha, by rwa [hxt] at hx⟩
  · intro ⟨htable, howner, a, ha, hx⟩
    exact ⟨a, ha, target, hx, htable.symm, howner.symm, rfl⟩

theorem mem_periodReferences {t : Table FiscalPeriodRow} :
    r ∈ periodReferences t ↔ r.table = .fiscalPeriods ∧ ∃ row ∈ t.rows,
      r.owner = some row.2.profileId ∧ r.target = .profile row.2.profileId := by
  obtain ⟨table', owner, target⟩ := r
  simp only [periodReferences, List.mem_map, Reference.mk.injEq]
  constructor
  · intro ⟨row, hrow, htable, howner, htarget⟩
    exact ⟨htable.symm, row, hrow, howner.symm, htarget.symm⟩
  · intro ⟨htable, row, hrow, howner, htarget⟩
    exact ⟨row, hrow, htable.symm, howner.symm, htarget.symm⟩

end

namespace Store

/-- Every reference of the database. -/
def references (s : Store) : List Reference :=
  ownedReferences .entities Entity.targets s.entities ++
  ownedReferences .fiscalExemptions (fun _ => []) s.fiscalExemptions ++
  sharedReferences .marketAssets MarketAsset.targets s.marketAssets ++
  ownedReferences .portfolioAssets PortfolioAsset.targets s.portfolioAssets ++
  ownedReferences .transactions Transaction.targets s.transactions ++
  sharedReferences .balanceAdjustmentLinks Link.targets s.balanceAdjustmentLinks ++
  ownedReferences .transactionFees TransactionFee.targets s.transactionFees ++
  ownedReferences .transactionTaxes TransactionTax.targets s.transactionTaxes ++
  sharedReferences .prices Price.targets s.prices ++
  ownedReferences .balanceSnapshots BalanceSnapshot.targets s.balanceSnapshots ++
  ownedReferences .schedules StoredSchedule.targets s.schedules ++
  ownedReferences .scheduleOccurrences Occurrence.targets s.scheduleOccurrences ++
  sharedReferences .stockSplits StockSplit.targets s.stockSplits ++
  ownedReferences .manualValues ManualValue.targets s.manualValues ++
  periodReferences s.fiscalPeriods

/-- Some row names `target`. -/
def RefersTo (s : Store) (target : Target) : Prop := ∃ r ∈ s.references, r.target = target

/-- `code_exists`. -/
def codeExists (s : Store) (code : Currency) : Bool :=
  s.currencies.any fun c => c.code == code || c.baseCode == code

def getMarketAsset (s : Store) (market_code : String) : Option MarketAsset :=
  s.marketAssets.find? fun a => a.marketCode == market_code

/-- What a reference names is there. -/
def has (s : Store) : Target → Bool
  | .currency code => s.codeExists code
  | .marketAsset market_code => (s.getMarketAsset market_code).isSome
  | .profile id => (s.profiles.get? id).isSome
  | .entity id => (s.entities.get? id).isSome
  | .fiscalExemption id => (s.fiscalExemptions.get? id).isSome
  | .portfolioAsset id => (s.portfolioAssets.get? id).isSome
  | .transaction id => (s.transactions.get? id).isSome
  | .balanceSnapshot id => (s.balanceSnapshots.get? id).isSome
  | .schedule id => (s.schedules.get? id).isSome
  | .taxDefinition id => (s.taxDefinitions.find? fun d => d.id == id).isSome
  | .brokerFeeDefinition id => (s.brokerFeeDefinitions.get? id).isSome

/-- All references resolve. -/
def Resolves (s : Store) : Prop := ∀ r ∈ s.references, s.has r.target = true

instance (s : Store) : Decidable s.Resolves :=
  inferInstanceAs (Decidable (∀ r ∈ s.references, s.has r.target = true))

instance (s : Store) (target : Target) : Decidable (s.RefersTo target) :=
  inferInstanceAs (Decidable (∃ r ∈ s.references, r.target = target))

end Store

end FinHub
