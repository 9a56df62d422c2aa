import FinHub.Analytics.CashReports
import FinHub.Analytics.Performance

/-!
# FinHub.Analytics.Allocation

`get_asset_allocation` of `services/analytics_svc.py`: the parts of the portfolio.

* `getAssetAllocation`: the worth of the priced holdings by a dimension, for the asset class with the positive
  pockets of cash; or the worth of assets and cash by entity.
* `parts_allocationLines`: the lines are the parts of one total.
-/

namespace FinHub

open Groups Worth

/-! ## Allocation -/

def Layer.value : Layer → String
  | core => "core"
  | reserve => "reserve"
  | satellite => "satellite"

def AssetType.value : AssetType → String
  | stock => "STOCK"
  | etf => "ETF"
  | etc => "ETC"
  | fund => "FUND"
  | indexFund => "INDEX FUND"
  | currency => "CURRENCY"
  | crypto => "CRYPTO"
  | other => "OTHER"

def AssetClass.value : AssetClass → String
  | fi => "FI"
  | vi => "VI"
  | corpFi => "corp FI"
  | sovereignFi => "Sovereign FI"
  | mixFi => "mix FI"
  | reit => "REIT"
  | gold => "Gold"
  | monetary => "Monetary"

/-- The dimensions that group the holdings. -/
inductive HoldingDimension where
  | layer | assetType | currency | assetClass
  deriving DecidableEq

/-- The dimensions of `valid`. -/
inductive AllocationDimension where
  | holdings (dimension : HoldingDimension)
  | entity
  deriving DecidableEq

namespace AllocationDimension

def value : AllocationDimension → String
  | holdings .layer => "layer"
  | holdings .assetType => "asset_type"
  | holdings .currency => "currency"
  | holdings .assetClass => "asset_class"
  | entity => "entity"

def valid : List AllocationDimension :=
  [.holdings .layer, .holdings .assetType, .holdings .currency, .holdings .assetClass, .entity]

def ofText (dimension : String) : Option AllocationDimension := valid.find? fun d => d.value == dimension

end AllocationDimension

structure AllocationLine where
  category : String
  dimension : String
  valuePct : ℚ
  valueAbs : ℚ
  deriving DecidableEq

inductive AllocationError where
  | invalidDimension (dimension : String)
  | reads (e : HistoryError)
  deriving DecidableEq

def AllocationError.message : AllocationError → Option String
  | invalidDimension dimension =>
    some s!"Invalid dimension '{dimension}'. Must be one of: layer, asset_type, currency, asset_class, entity"
  | reads _ => none

/-- The group of a holding. -/
def HoldingDimension.category (h : HoldingLine) : HoldingDimension → String
  | layer => (h.layer.map Layer.value).getD "unspecified"
  | assetType => h.assetType.value
  | assetClass => (h.assetClass.map AssetClass.value).getD "UNSPECIFIED"
  | currency => h.currencyCode.1

/-- `r["entity_name"] or "Unassigned"`. -/
def entityLabel (entity_name : Option String) : String :=
  match entity_name with
  | none | some "" => "Unassigned"
  | some name => name

/-- The lines of the groups, the largest first, with their shares. -/
def allocationLines (dimension : AllocationDimension) (share : ℚ → ℚ) (groups : Tally String) : List AllocationLine :=
  (groups.insertionSort fun a b => b.2 ≤ a.2).map fun g =>
    { category := g.1
      dimension := dimension.value
      valuePct := Decimal.roundTo 4 (share g.2)
      valueAbs := Decimal.roundTo 4 g.2 }

namespace ValueContext

variable (ctx : ValueContext)

/-- The converted values of the priced holdings, by group. -/
def holdingEntries (key : HoldingLine → String) (holdings : List HoldingLine) : List (String × ℚ) :=
  holdings.filterMap fun h => h.currentValue.map fun value => (key h, ctx.convert value h.currencyCode)

/-- An amount in the display currency; a missing one cannot be added. -/
def convertRow (amount : Option ℚ) (cur : Currency) : Except HistoryError ℚ :=
  match amount with
  | some amount => .ok (ctx.convert amount cur)
  | none => .error .typeError

def cashValue (r : CashBalanceRow) : Except HistoryError ℚ := ctx.convertRow r.balance r.currency

/-- The cash of the dimension: the positive pockets for the asset class, and none for the others. -/
def cashParts (dimension : HoldingDimension) (cash : List CashBalanceRow) : Except HistoryError (List ℚ) :=
  match dimension with
  | .assetClass => (cash.mapM ctx.cashValue).map fun values => values.filter fun value => 0 < value
  | _ => .ok []

end ValueContext

namespace Ledger

variable (s : Ledger) (m : Market)

/-- `get_cash_balance_by_currency`, which raises where a sum is missing. -/
def cashRows (now : Timestamp) : Except HistoryError (List CashBalanceRow) :=
  match s.getCashBalanceByCurrency now with
  | some rows => .ok rows
  | none => .error .typeError

/-- The currencies of the priced holdings and of the cash. -/
def valuedCurrencies (holdings : List HoldingLine) (cash : List CashBalanceRow) : List Currency :=
  (holdings.filter fun h => h.currentValue.isSome).map HoldingLine.currencyCode ++ cash.map CashBalanceRow.currency

/-- The context of a call with the rates to its display currency. -/
def displayContext (display_currency : Option Currency) (currencies : List Currency) :
    Except HistoryError ValueContext := do
  let rates ← s.holdingRates display_currency currencies
  .ok { displayCurrency := display_currency, rates, txFallback := fun _ => none }

/-- `get_asset_allocation` by a dimension of the holdings. -/
def holdingAllocation (dimension : HoldingDimension) (display_currency : Option Currency) (now : Timestamp) :
    Except HistoryError (List AllocationLine) := do
  let holdings := s.getHoldings m
  let cash ← s.cashRows now
  let ctx ← s.displayContext display_currency (valuedCurrencies holdings cash)
  let entries := ctx.holdingEntries dimension.category holdings
  let positive ← ctx.cashParts dimension cash
  let total_value := (entries.map Prod.snd).sum + positive.sum
  .ok (allocationLines (.holdings dimension) (percentOf · total_value)
    (collect (entries ++ positive.map fun value => ("CASH", value))))

/-- `_get_allocation_by_entity`; a total of zero divides as 1. -/
def allocationByEntity (display_currency : Option Currency) (now : Timestamp) :
    Except HistoryError (List AllocationLine) := do
  let inv_rows := s.getHoldingsByEntityRaw m
  let cash_rows ← s.getCashByEntityRaw now
  let ctx ← s.displayContext display_currency
    (inv_rows.map (fun r => r.key.currencyCode) ++ cash_rows.map CashByEntityRow.currency)
  let inv ← inv_rows.mapM fun r =>
    (ctx.convertRow r.currentValue r.key.currencyCode).map fun value => (entityLabel r.key.entityName, value)
  let cash ← cash_rows.mapM fun r =>
    (ctx.convertRow r.cashBalance r.currency).map fun value => (r.entityName, value)
  let groups := collect (inv ++ cash)
  let total := if groups.total = 0 then 1 else groups.total
  .ok (allocationLines .entity (· / total * 100) groups)

/-- `get_asset_allocation`. -/
def getAssetAllocation (dimension : String) (display_currency : Option Currency) (now : Timestamp) :
    Except AllocationError (List AllocationLine) :=
  match AllocationDimension.ofText dimension with
  | none => .error (.invalidDimension dimension)
  | some .entity => (s.allocationByEntity m display_currency now).mapError .reads
  | some (.holdings d) => (s.holdingAllocation m d display_currency now).mapError .reads

end Ledger

/-! ## Parts -/

/-- Lines that share out a total: one for a category, the largest first, each rounded once. -/
structure Parts (lines : List AllocationLine) (total : ℚ) : Prop where
  distinct : (lines.map AllocationLine.category).Nodup
  ordered : lines.Pairwise fun a b => b.valueAbs ≤ a.valueAbs
  values : |(lines.map AllocationLine.valueAbs).sum - total| ≤ lines.length * (1 / 2 / 10 ^ 4)
  shares : 0 < total → |(lines.map AllocationLine.valuePct).sum - 100| ≤ lines.length * (1 / 2 / 10 ^ 4)

/-- The lines of groups whose shares are those of their total, where it is positive. -/
theorem parts_allocationLines (dimension : AllocationDimension) {share : ℚ → ℚ} {total : ℚ}
    (hshare : 0 < total → ∀ x, share x = x / total * 100) (entries : List (String × ℚ))
    (htotal : (entries.map Prod.snd).sum = total) :
    Parts (allocationLines dimension share (collect entries)) total := by
  let sorted := (collect entries).insertionSort fun a b => b.2 ≤ a.2
  have hperm : sorted.Perm (collect entries) := List.perm_insertionSort _ _
  have hsorted : sorted.Pairwise fun a b => b.2 ≤ a.2 := List.pairwise_insertionSort _ _
  have hsum : (sorted.map Prod.snd).sum = total := by
    rw [(hperm.map Prod.snd).sum_eq, ← htotal]
    exact total_collect entries
  have hlines : allocationLines dimension share (collect entries) = sorted.map fun g =>
      { category := g.1, dimension := dimension.value, valuePct := Decimal.roundTo 4 (share g.2),
        valueAbs := Decimal.roundTo 4 g.2 } := rfl
  rw [hlines]
  constructor
  · rw [List.map_map]
    exact (hperm.map Prod.fst).nodup_iff.mpr (nodup_keys_collect entries)
  · refine List.pairwise_map.mpr (hsorted.imp fun hle => Decimal.roundTo_mono 4 hle)
  · have hround := abs_sum_roundTo_sub_le 4 sorted Prod.snd
    rw [hsum] at hround
    rw [List.map_map, List.length_map]
    exact hround
  · intro hpos
    have hround := abs_sum_roundTo_sub_le 4 sorted fun g => share g.2
    have hhundred : (sorted.map fun g => share g.2).sum = 100 := by
      simp only [hshare hpos, div_eq_mul_inv, mul_assoc]
      rw [List.sum_map_mul_right, hsum, ← mul_assoc, mul_inv_cancel₀ hpos.ne', one_mul]
    rw [hhundred] at hround
    rw [List.map_map, List.length_map]
    exact hround

end FinHub
