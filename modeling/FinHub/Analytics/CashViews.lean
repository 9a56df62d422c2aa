import FinHub.Lib.Worth
import FinHub.Model.Queries

/-!
# FinHub.Analytics.CashViews

The cash of a profile by currency as of an instant, over all entities or of one.

A pair of entity and currency with a snapshot is read through `getBalanceAtDate`; the others are summed
from their transactions, and the fees of the entity are taken from its main pocket.
-/

namespace FinHub

open Tabular

namespace Ledger

variable (s : Ledger)

/-- The rows of one entity, or all. -/
def ofEntity (entity_id : Option ℕ) (id : ℕ) : Bool := entity_id.all fun e => decide (id = e)

/-- `SELECT DISTINCT entity_id, currency FROM balance_snapshots`. -/
def snapshotPairs (entity_id : Option ℕ) : List (ℕ × Currency) :=
  ((s.snapshots.rows.filter fun r => ofEntity entity_id r.2.entityId).map fun r =>
    (r.2.entityId, r.2.currency)).eraseDups

/-- The pairs of the transactions up to an instant that have no snapshot. -/
def unanchoredPairs (entity_id : Option ℕ) (timestamp : Timestamp) : List (ℕ × Currency) :=
  ((s.transactions.rows.filter fun r => decide (r.2.timestamp ≤ timestamp) &&
    ofEntity entity_id r.2.entityId && decide ((r.2.entityId, r.2.cashPocket) ∉ s.snapshotPairs entity_id)).map
      fun r => (r.2.entityId, r.2.cashPocket)).eraseDups

/-- The sum of a pair's transactions up to an instant. -/
def pairCash (timestamp : Timestamp) (p : ℕ × Currency) : ℚ :=
  ((s.transactions.rows.filter fun r => decide (r.2.timestamp ≤ timestamp) && inPair p.1 p.2 r).map fun r =>
    r.2.sqlImpact).sum

section Amounts

variable (balance fees : ℕ × Currency → Option ℚ)

/-- One row of `_apply_fee_corrections`. -/
def feeCorrected (p : ℕ × Currency) (amount : ℚ) : Option ℚ :=
  if (s.getEntity p.1).any fun e => decide (e.mainCurrency = some p.2) then
    (fees p).map fun fees => amount - fees
  else some amount

/-- The amounts that the views add up, pair by pair, by the balance and the fees of a pair. -/
def cashEntriesOf (entity_id : Option ℕ) (timestamp : Timestamp) : Option (List (Currency × ℚ)) := do
  let anchored ← (s.snapshotPairs entity_id).mapM fun p => (balance p).map fun amount => (p.2, amount)
  let rest ← (s.unanchoredPairs entity_id timestamp).mapM fun p =>
    (s.feeCorrected fees p (s.pairCash timestamp p)).map fun amount => (p.2, amount)
  some (anchored ++ rest)

end Amounts

def cashEntriesAsOf (entity_id : Option ℕ) (timestamp : Timestamp) : Option (List (Currency × ℚ)) :=
  s.cashEntriesOf (fun p => s.getBalanceAtDate p.1 p.2 timestamp)
    (fun p => s.computeFeeCashOutAt p.1 p.2 timestamp) entity_id timestamp

def getTotalCashByCurrencyAsOf (timestamp : Timestamp) : Option (Tally Currency) :=
  (s.cashEntriesAsOf none timestamp).map Worth.collect

def getEntityTotalCashByCurrencyAsOf (entity_id : ℕ) (timestamp : Timestamp) : Option (Tally Currency) :=
  (s.cashEntriesAsOf (some entity_id) timestamp).map Worth.collect

end Ledger

end FinHub
