import FinHub.Lib.Tally
import FinHub.Model.Ledger
import Mathlib.Data.List.Sort

/-!
# FinHub.Tax.Engine

The tax engine of `services/tax_engine.py`.

* `applyProgressive` taxes a range of the base through the brackets.
* `computeFiscalYear` puts one fiscal year together: the taxes of each item by definition, the core
  tax of each item by the base's computation, the confirmed amounts and the withholding.

Amounts are exact rationals and `convert` is the caller's currency conversion. `none` is the
`TypeError` of converting a confirmed row without an amount.
-/

namespace FinHub

open Decimal

/-! ## The catalog and the items -/

inductive TaxCategory where
  | capitalGains | dividends | interest
  deriving DecidableEq, Repr

inductive TaxComputation where
  | progressive | flat
  deriving DecidableEq, Repr

/-- One progressive bracket row. -/
structure TaxBand where
  fromAmount : ℚ
  toAmount : Option ℚ
  rate : ℚ
  deriving DecidableEq

/-- A row of `tax_bases`. -/
structure TaxBase where
  rulesetKey : String
  computation : TaxComputation
  flatRate : Option ℚ := none
  deriving DecidableEq

/-- A row of `tax_definitions`. -/
structure TaxDefinition where
  id : ℕ
  slug : String
  name : String
  rulesetKey : Option String := none
  rate : Option ℚ := none
  deriving DecidableEq

/-- A taxable item as the engine reads it. -/
structure TaxItem where
  transactionId : ℕ
  category : TaxCategory
  timestamp : Timestamp
  taxableAmount : ℚ
  nativeAmount : ℚ
  fiscalRule : String
  currency : Currency
  deriving DecidableEq

/-- `(transaction_id, tax_definition_id)` to the confirmed row. -/
abbrev ConfirmedMap := ℕ × ℕ → Option TransactionTax

abbrev Convert := ℚ → Currency → Timestamp → ℚ

/-! ## Results -/

structure TaxDefinitionResult where
  taxDefinitionId : ℕ
  slug : String
  name : String
  computed : ℚ
  confirmed : Option ℚ := none
  deriving DecidableEq

structure ItemTaxResult where
  transactionId : ℕ
  category : TaxCategory
  taxOwed : ℚ
  taxes : List TaxDefinitionResult := []
  deriving DecidableEq

structure FiscalYearTaxResult where
  taxOwed : Tally TaxCategory
  base : ℚ
  totalTax : ℚ
  withholding : ℚ
  totalTaxOwed : ℚ
  combinedBase : Option ℚ
  confirmed : Tally TaxCategory := []
  totalConfirmed : ℚ := 0
  perItem : List ItemTaxResult := []
  deriving DecidableEq

namespace TaxEngine

/-- The row is stored under the key. -/
def ofKey (key : ℕ × ℕ) (r : TransactionTax) : Bool :=
  decide (r.transactionId = key.1) && decide (r.taxDefinitionId = key.2)

/-- Of rows with one key the dictionary keeps the last. -/
def getConfirmedTaxMap (rows : List TransactionTax) : ConfirmedMap := fun key =>
  (rows.filter (ofKey key)).getLast?

/-- One pass of the loop: the tax of the part of the range in a band. -/
def addBand (range_start range_end tax : ℚ) (band : TaxBand) : ℚ :=
  let lo := max range_start band.fromAmount
  let hi := match band.toAmount with
    | some to_amount => min range_end to_amount
    | none => range_end
  if lo < hi then tax + (hi - lo) * band.rate else tax

def applyProgressive (range_start range_end : ℚ) (bands : List TaxBand) : ℚ :=
  if range_end ≤ range_start ∨ bands = [] then 0
  else
    roundTo 4 ((bands.insertionSort fun a b => a.fromAmount ≤ b.fromAmount).foldl
      (addBand range_start range_end) 0)

/-! ## One item -/

def applies (d : TaxDefinition) (item : TaxItem) : Option ℚ :=
  match d.rate with
  | some rate =>
    if 0 < rate ∧ (d.rulesetKey = none ∨ d.rulesetKey = some item.fiscalRule) then some rate else none
  | none => none

/-- The row of one definition on an item, left out where it neither applies nor is confirmed. -/
def resolveDefinition (confirmed : ConfirmedMap) (item : TaxItem) (d : TaxDefinition) :
    Option TaxDefinitionResult :=
  let confirmed_amt := (confirmed (item.transactionId, d.id)).bind TransactionTax.taxAmount
  let rate := applies d item
  if rate = none ∧ confirmed_amt = none then none
  else some {
    taxDefinitionId := d.id
    slug := d.slug
    name := d.name
    computed := (rate.map fun r => roundTo 4 (r * item.nativeAmount)).getD 0
    confirmed := confirmed_amt }

def resolveItemTaxes (definitions : List TaxDefinition) (confirmed : ConfirmedMap)
    (item : TaxItem) : List TaxDefinitionResult :=
  definitions.filterMap (resolveDefinition confirmed item)

/-- The converted confirmed amounts of an item, one for each of its tax lines that has one. -/
def confirmedEntries (confirmed : ConfirmedMap) (convert : Convert) (item : TaxItem)
    (taxes : List TaxDefinitionResult) : List (TaxCategory × ℚ) :=
  taxes.filterMap fun t => t.confirmed.map fun amount =>
    let currency := match confirmed (item.transactionId, t.taxDefinitionId) with
      | some crate => crate.currency
      | none => item.currency
    (item.category, convert amount currency item.timestamp)

/-! ## The dictionary of item results -/

abbrev PerItem := ℕ → Option ItemTaxResult

namespace PerItem

def set (per_item : PerItem) (item : TaxItem) (tax_owed : ℚ) (taxes : List TaxDefinitionResult) :
    PerItem :=
  Function.update per_item item.transactionId
    (some ⟨item.transactionId, item.category, tax_owed, taxes⟩)

/-- `per_item[tid].taxes`. Every id has been stored by the first pass. -/
def taxes (per_item : PerItem) (tid : ℕ) : List TaxDefinitionResult :=
  match per_item tid with
  | some entry => entry.taxes
  | none => []

/-- The entry of an item with its core tax filled in. -/
def setTax (per_item : PerItem) (item : TaxItem) (tax_owed : ℚ) : PerItem :=
  per_item.set item tax_owed (per_item.taxes item.transactionId)

end PerItem

/-- The first pass: every item with its taxes by definition and no core tax. -/
def firstPass (definitions : List TaxDefinition) (confirmed : ConfirmedMap) (items : List TaxItem) :
    PerItem :=
  items.foldl (fun per_item item => per_item.set item 0 (resolveItemTaxes definitions confirmed item))
    fun _ => none

/-! ## The core tax -/

/-- The brackets fill up as the running total walks along the items. -/
def attributeBrackets (bands : List TaxBand) : ℚ → List TaxItem → PerItem → PerItem
  | _, [], per_item => per_item
  | running_total, item :: items, per_item =>
    attributeBrackets bands (running_total + item.taxableAmount) items
      (per_item.setTax item
        (applyProgressive running_total (running_total + item.taxableAmount) bands))

/-- `if flat_rate` is false of no rate and of a rate of zero. -/
def flatTax (flat_rate : Option ℚ) (item : TaxItem) : ℚ :=
  match flat_rate with
  | some rate => if rate ≠ 0 then roundTo 4 (item.taxableAmount * rate) else 0
  | none => 0

def attributeFlat (flat_rate : Option ℚ) (in_base : List TaxItem) (per_item : PerItem) : PerItem :=
  in_base.foldl (fun per_item item => per_item.setTax item (flatTax flat_rate item)) per_item

def taxOwedByCategory (in_base : List TaxItem) (per_item : PerItem) : Tally TaxCategory :=
  Tally.tally 4 [] (in_base.filterMap fun i =>
    (per_item i.transactionId).map fun entry => (entry.category, entry.taxOwed))

/-- The confirmed rows of generic definitions on the items of the base's own ruleset. -/
def genericRows (base : TaxBase) (definitions : List TaxDefinition) (confirmed : ConfirmedMap)
    (in_base : List TaxItem) : List (TaxItem × TransactionTax) :=
  in_base.flatMap fun item =>
    if item.fiscalRule = base.rulesetKey then
      definitions.filterMap fun d =>
        if d.rulesetKey = none then
          (confirmed (item.transactionId, d.id)).map fun crate => (item, crate)
        else none
    else []

def genericConfirmed (convert : Convert) (rows : List (TaxItem × TransactionTax)) : Option ℚ :=
  rows.foldlM (fun sum r => r.2.taxAmount.map fun amount =>
    sum + convert amount r.2.currency r.1.timestamp) 0

/-! ## The fiscal year -/

section Year

variable (items : List TaxItem) (categories : List TaxCategory) (bands : List TaxBand)
  (definitions : List TaxDefinition) (confirmed : ConfirmedMap) (convert : Convert)

def confirmedByCat : Tally TaxCategory :=
  Tally.tally 4 [] (items.flatMap fun item =>
    confirmedEntries confirmed convert item (resolveItemTaxes definitions confirmed item))

def itemsOut (per_item : PerItem) : List ItemTaxResult :=
  items.map fun i => (per_item i.transactionId).getD
    { transactionId := i.transactionId, category := i.category, taxOwed := 0 }

def inBase : List TaxItem := items.filter fun i => i.category ∈ categories

def baseTotal : ℚ := roundTo 4 ((inBase items categories).map TaxItem.taxableAmount).sum

/-- A year without a `tax_bases` row. -/
def withoutBase : FiscalYearTaxResult where
  taxOwed := []
  base := 0
  totalTax := 0
  withholding := 0
  totalTaxOwed := 0
  combinedBase := none
  confirmed := confirmedByCat items definitions confirmed convert
  totalConfirmed := roundTo 4 (confirmedByCat items definitions confirmed convert).total
  perItem := itemsOut items (firstPass definitions confirmed items)

def progressiveYear (generic_confirmed : ℚ) : FiscalYearTaxResult :=
  let per_item := attributeBrackets bands 0
    ((inBase items categories).insertionSort fun a b => a.timestamp ≤ b.timestamp)
    (firstPass definitions confirmed items)
  let tax_owed := taxOwedByCategory (inBase items categories) per_item
  let total_tax := roundTo 4 tax_owed.total
  let withholding := roundTo 4 (min generic_confirmed total_tax)
  { taxOwed := tax_owed
    base := baseTotal items categories
    totalTax := total_tax
    withholding := withholding
    totalTaxOwed := roundTo 4 (max 0 (total_tax - withholding))
    combinedBase := some (baseTotal items categories)
    confirmed := confirmedByCat items definitions confirmed convert
    totalConfirmed := roundTo 4 (confirmedByCat items definitions confirmed convert).total
    perItem := itemsOut items per_item }

def flatYear (flat_rate : Option ℚ) : FiscalYearTaxResult :=
  let per_item := attributeFlat flat_rate (inBase items categories)
    (firstPass definitions confirmed items)
  let tax_owed := taxOwedByCategory (inBase items categories) per_item
  let total_tax := roundTo 4 tax_owed.total
  { taxOwed := tax_owed
    base := baseTotal items categories
    totalTax := total_tax
    withholding := 0
    totalTaxOwed := total_tax
    combinedBase := none
    confirmed := confirmedByCat items definitions confirmed convert
    totalConfirmed := roundTo 4 (confirmedByCat items definitions confirmed convert).total
    perItem := itemsOut items per_item }

def computeFiscalYear (base : Option TaxBase) : Option FiscalYearTaxResult :=
  match base with
  | none => some (withoutBase items definitions confirmed convert)
  | some base =>
    match base.computation with
    | .progressive =>
      (genericConfirmed convert
        (genericRows base definitions confirmed (inBase items categories))).map
        (progressiveYear items categories bands definitions confirmed convert)
    | .flat => some (flatYear items categories definitions confirmed convert base.flatRate)

end Year

end TaxEngine

namespace Sample

def savingsBase : TaxBase := ⟨"spain", .progressive, none⟩

/-- Nineteen percent up to 6000 and twenty-one above. -/
def savingsBands : List TaxBand := [⟨0, some 6000, 19 / 100⟩, ⟨6000, none, 21 / 100⟩]

def sale (id : ℕ) (day : ℤ) (amount : ℚ) : TaxItem :=
  ⟨id, .capitalGains, Time.startOfDay day, amount, amount, "spain", eur⟩

end Sample

end FinHub
