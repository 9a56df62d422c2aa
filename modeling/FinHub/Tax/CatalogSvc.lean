import FinHub.Lib.Children
import FinHub.Lib.Session
import FinHub.Tax.TaxablePnl

/-!
# FinHub.Tax.CatalogSvc

The tax catalog and the calls that edit it, `services/tax_catalog_svc.py`.

A tax base is kept in three tables, and SQLite does not enforce the keys between them: a base that is deleted leaves its
categories and its rates behind.
-/

namespace FinHub

open Db (Work Session)
open Tabular

/-! ## Rows, requests and answers -/

def TaxCategory.text : TaxCategory → String
  | capitalGains => "capital_gains"
  | dividends => "dividends"
  | interest => "interest"

/-- A row of `tax_bases`. -/
structure TaxBaseColumns where
  rulesetKey : String
  name : String
  computation : TaxComputation
  flatRate : Option ℚ := none
  yearStart : Option ℤ := none
  deriving DecidableEq

structure TaxBaseCreate extends TaxBaseColumns where
  categories : List TaxCategory := []
  rates : List TaxBand := []
  deriving DecidableEq

structure TaxBaseResponse extends TaxBaseCreate where
  id : ℕ
  deriving DecidableEq

structure TaxDefinitionCreate where
  slug : String
  rulesetKey : Option String := none
  name : String
  rate : Option ℚ := none
  yearStart : Option ℤ := none
  deriving DecidableEq

structure TaxDefinitionResponse extends TaxDefinitionCreate where
  id : ℕ
  deriving DecidableEq

structure BrokerFeeDefinitionResponse where
  id : ℕ
  name : String
  deriving DecidableEq

inductive TaxCatalogError where
  | taxCatalog (text : String)
  | taxBaseNotFound (base_id : ℕ) (after : String := "")
  | taxDefinitionNotFound (definition_id : ℕ) (after : String := "")
  | brokerFeeDefinitionNotFound (definition_id : ℕ) (after : String := "")
  | taxDefinitionInUse (definition_id : ℕ)
  | brokerFeeDefinitionInUse (definition_id : ℕ)
  | taxDefinitionSlugTaken (text : String)
  deriving DecidableEq

namespace TaxCatalogError

def message : TaxCatalogError → String
  | taxCatalog text => text
  | taxBaseNotFound base_id after => s!"Tax base {base_id} not found{after}"
  | taxDefinitionNotFound definition_id after => s!"Tax definition {definition_id} not found{after}"
  | brokerFeeDefinitionNotFound definition_id after => s!"Broker fee definition {definition_id} not found{after}"
  | taxDefinitionInUse definition_id =>
    s!"Tax definition {definition_id} is referenced by confirmed transaction taxes"
  | brokerFeeDefinitionInUse definition_id => s!"Broker fee definition {definition_id} is referenced by transaction fees"
  | taxDefinitionSlugTaken text => text

/-- What SQLite says of a category that a base has already. -/
def categoryTwice : TaxCatalogError :=
  .taxCatalog "UNIQUE constraint failed: tax_base_categories.tax_base_id, tax_base_categories.category"

/-- What SQLite says of a slug that another definition has. -/
def slugTwice : TaxCatalogError := .taxDefinitionSlugTaken "UNIQUE constraint failed: tax_definitions.slug"

def slugTaken (slug : String) : TaxCatalogError :=
  .taxDefinitionSlugTaken s!"Tax definition slug '{slug}' already exists"

end TaxCatalogError

/-! ## Tables -/

/-- The tables of the catalog, and what the rows of `transaction_taxes` and of `transaction_fees` refer to. -/
structure CatalogTables where
  taxBases : Table TaxBaseColumns
  taxBaseCategories : List (ℕ × TaxCategory)
  taxBaseRates : List (ℕ × TaxBand)
  taxDefinitions : Table TaxDefinitionCreate
  brokerFeeDefinitions : Table String
  transactionTaxes : List ℕ
  transactionFees : List (Option ℕ)

/-- `ORDER BY category`. -/
def byCategory (cs : List TaxCategory) : List TaxCategory := cs.insertionSort fun a b => a.text ≤ b.text

/-- `ORDER BY from_amount`. -/
def byFromAmount (bands : List TaxBand) : List TaxBand := bands.insertionSort fun a b => a.fromAmount ≤ b.fromAmount

/-- `ORDER BY ruleset_key, year_start`, where NULL comes first. -/
def TaxBaseColumns.before (a b : TaxBaseColumns) : Bool :=
  decide (a.rulesetKey < b.rulesetKey) ||
    decide (a.rulesetKey = b.rulesetKey) &&
      match a.yearStart, b.yearStart with
      | none, _ => true
      | some _, none => false
      | some y, some y' => decide (y ≤ y')

namespace CatalogTables

variable (d : CatalogTables)

def empty : CatalogTables := ⟨.empty, [], [], .empty, .empty, [], []⟩

def getTaxBaseCategories (base_id : ℕ) : List TaxCategory := byCategory (Children.of d.taxBaseCategories base_id)

def getTaxBaseRates (base_id : ℕ) : List TaxBand := byFromAmount (Children.of d.taxBaseRates base_id)

/-- `_base_with_children`. -/
def baseWithChildren (base_id : ℕ) (row : TaxBaseColumns) : TaxBaseResponse where
  toTaxBaseColumns := row
  categories := d.getTaxBaseCategories base_id
  rates := d.getTaxBaseRates base_id
  id := base_id

def getAllTaxBases : List (ℕ × TaxBaseColumns) := d.taxBases.rows.insertionSort fun a b => a.2.before b.2

def getTaxDefinitionBySlug (slug : String) : Option (ℕ × TaxDefinitionCreate) :=
  d.taxDefinitions.rows.find? fun r => r.2.slug == slug

def countTransactionTaxesForDefinition (definition_id : ℕ) : ℕ := d.transactionTaxes.count definition_id

def countTransactionFeesForDefinition (definition_id : ℕ) : ℕ := d.transactionFees.count (some definition_id)

end CatalogTables

/-! ## The service -/

namespace TaxCatalogSvc

open TaxCatalogError

abbrev Call (α : Type) : Type := Work CatalogTables TaxCatalogError α

/-- A row, or the exception that it is not there. -/
def rowOr {α : Type} (find : CatalogTables → Option α) (missing : TaxCatalogError) : Call α := do
  let row ← Work.read find
  match row with
  | some row => pure row
  | none => Work.raise missing

def insertCategory (base_id : ℕ) (category : TaxCategory) : Call Unit :=
  Work.stmt fun d =>
    if d.taxBaseCategories.elem (base_id, category) then .error categoryTwice
    else .ok ((), { d with taxBaseCategories := d.taxBaseCategories ++ [(base_id, category)] })

def replaceTaxBaseCategories (base_id : ℕ) (categories : List TaxCategory) : Call Unit := do
  Work.write fun d => ((), { d with taxBaseCategories := Children.drop d.taxBaseCategories base_id })
  categories.foldlM (fun _ category => insertCategory base_id category) ()

def replaceTaxBaseRates (base_id : ℕ) (rates : List TaxBand) : Call Unit :=
  Work.write fun d => ((), { d with taxBaseRates := Children.replace d.taxBaseRates base_id rates })

def getTaxBase (base_id : ℕ) (after : String := "") : Call TaxBaseResponse := do
  let row ← rowOr (fun d => d.taxBases.get? base_id) (taxBaseNotFound base_id after)
  Work.read fun d => d.baseWithChildren base_id row

def listTaxBases : Call (List TaxBaseResponse) :=
  Work.read fun d => d.getAllTaxBases.map fun r => d.baseWithChildren r.1 r.2

def createTaxBase (body : TaxBaseCreate) : Call TaxBaseResponse := do
  let base_id ← Work.write fun d =>
    (d.taxBases.next, { d with taxBases := d.taxBases.insert body.toTaxBaseColumns })
  replaceTaxBaseCategories base_id body.categories
  replaceTaxBaseRates base_id body.rates
  Work.commit
  getTaxBase base_id " after create"

def updateTaxBase (base_id : ℕ) (body : TaxBaseCreate) : Call TaxBaseResponse := do
  let _ ← rowOr (fun d => d.taxBases.get? base_id) (taxBaseNotFound base_id)
  Work.write fun d => ((), { d with taxBases := d.taxBases.modify base_id fun _ => body.toTaxBaseColumns })
  replaceTaxBaseCategories base_id body.categories
  replaceTaxBaseRates base_id body.rates
  Work.commit
  getTaxBase base_id " after update"

def deleteTaxBase (base_id : ℕ) : Call Unit := do
  let _ ← rowOr (fun d => d.taxBases.get? base_id) (taxBaseNotFound base_id)
  Work.write fun d => ((), { d with taxBases := d.taxBases.erase base_id })
  Work.commit

def getTaxDefinition (definition_id : ℕ) (after : String := "") : Call TaxDefinitionResponse := do
  let row ← rowOr (fun d => d.taxDefinitions.get? definition_id) (taxDefinitionNotFound definition_id after)
  pure { row with id := definition_id }

def listTaxDefinitions : Call (List TaxDefinitionResponse) :=
  Work.read fun d => d.taxDefinitions.rows.map fun r => { r.2 with id := r.1 }

/-- `TaxDefinitionSlugTaken`, except for the slug that the definition has itself. -/
def checkSlug (own : Option ℕ) (slug : String) : Call Unit := do
  let existing ← Work.read fun d => d.getTaxDefinitionBySlug slug
  if existing.any fun r => decide (own ≠ some r.1) then Work.raise (slugTaken slug) else pure ()

/-- The `INSERT` of a definition. -/
def insertDefinition (body : TaxDefinitionCreate) : Call ℕ :=
  Work.stmt fun d =>
    if d.taxDefinitions.rows.any fun r => r.2.slug == body.slug then .error slugTwice
    else .ok (d.taxDefinitions.next, { d with taxDefinitions := d.taxDefinitions.insert body })

/-- The `UPDATE` of a definition. -/
def modifyDefinition (definition_id : ℕ) (body : TaxDefinitionCreate) : Call Unit :=
  Work.stmt fun d =>
    if d.taxDefinitions.rows.any fun r => r.2.slug == body.slug && decide (r.1 ≠ definition_id) then .error slugTwice
    else .ok ((), { d with taxDefinitions := d.taxDefinitions.modify definition_id fun _ => body })

def createTaxDefinition (body : TaxDefinitionCreate) : Call TaxDefinitionResponse := do
  checkSlug none body.slug
  let definition_id ← insertDefinition body
  Work.commit
  getTaxDefinition definition_id " after create"

def updateTaxDefinition (definition_id : ℕ) (body : TaxDefinitionCreate) : Call TaxDefinitionResponse := do
  let _ ← rowOr (fun d => d.taxDefinitions.get? definition_id) (taxDefinitionNotFound definition_id)
  checkSlug (some definition_id) body.slug
  modifyDefinition definition_id body
  Work.commit
  getTaxDefinition definition_id " after update"

def deleteTaxDefinition (definition_id : ℕ) : Call Unit := do
  let _ ← rowOr (fun d => d.taxDefinitions.get? definition_id) (taxDefinitionNotFound definition_id)
  let count ← Work.read fun d => d.countTransactionTaxesForDefinition definition_id
  if 0 < count then Work.raise (taxDefinitionInUse definition_id)
  else do
    Work.write fun d => ((), { d with taxDefinitions := d.taxDefinitions.erase definition_id })
    Work.commit

def getBrokerFeeDefinition (definition_id : ℕ) (after : String := "") : Call BrokerFeeDefinitionResponse := do
  let name ← rowOr (fun d => d.brokerFeeDefinitions.get? definition_id) (brokerFeeDefinitionNotFound definition_id after)
  pure ⟨definition_id, name⟩

def listBrokerFeeDefinitions : Call (List BrokerFeeDefinitionResponse) :=
  Work.read fun d => d.brokerFeeDefinitions.rows.map fun r => ⟨r.1, r.2⟩

def createBrokerFeeDefinition (name : String) : Call BrokerFeeDefinitionResponse := do
  let definition_id ← Work.write fun d =>
    (d.brokerFeeDefinitions.next, { d with brokerFeeDefinitions := d.brokerFeeDefinitions.insert name })
  Work.commit
  getBrokerFeeDefinition definition_id " after create"

def updateBrokerFeeDefinition (definition_id : ℕ) (name : String) : Call BrokerFeeDefinitionResponse := do
  let _ ← rowOr (fun d => d.brokerFeeDefinitions.get? definition_id) (brokerFeeDefinitionNotFound definition_id)
  Work.write fun d =>
    ((), { d with brokerFeeDefinitions := d.brokerFeeDefinitions.modify definition_id fun _ => name })
  Work.commit
  getBrokerFeeDefinition definition_id " after update"

def deleteBrokerFeeDefinition (definition_id : ℕ) : Call Unit := do
  let _ ← rowOr (fun d => d.brokerFeeDefinitions.get? definition_id) (brokerFeeDefinitionNotFound definition_id)
  let count ← Work.read fun d => d.countTransactionFeesForDefinition definition_id
  if 0 < count then Work.raise (brokerFeeDefinitionInUse definition_id)
  else do
    Work.write fun d => ((), { d with brokerFeeDefinitions := d.brokerFeeDefinitions.erase definition_id })
    Work.commit

end TaxCatalogSvc

end FinHub
