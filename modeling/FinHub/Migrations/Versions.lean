import FinHub.Migrations.Store
import Mathlib.Data.List.MinMax
import Mathlib.Data.List.Sort

/-!
# FinHub.Migrations.Versions

The migrations, each under the name of its file. `up` lists the transactions its statements fall
into: outside a transaction SQLite commits a DDL statement at once, and rows are written in a
transaction that the next `conn.commit()` ends. What `up` asks before its first statement decides
the list.
-/

namespace FinHub

open Tabular Upgrade

namespace Migrations

/-! ## 001 to 005 -/

namespace PurchaseDate

/-- Drop the deprecated `portfolio_assets.purchase_date`. -/
def up (d : Store) : List Statement :=
  if d.columnExists .portfolioAssets .purchaseDate then
    [fun d => .ok { d with schema := d.schema.erase (.column .portfolioAssets .purchaseDate) }]
  else []

def verify (d : Store) : Bool := !d.columnExists .portfolioAssets .purchaseDate

end PurchaseDate

/-- The cash a transaction moves, by sign; the other types move none. -/
def signed (type : TransactionType) (v : ℚ) : ℚ :=
  if type.isInflow then v else if type.isSpend then -v else 0

namespace BackfillSnapshots

def cashImpact (t : TransactionRow) : Option ℚ := t.grossAmount.orElse fun _ => t.totalValue

def cashPocket (t : TransactionRow) : Currency := t.paymentCurrency.getD t.currency

/-- `_compute_balance_at`. The loop over the rows raises on one that has no amount, the sum skips it. -/
def computeBalanceAt (d : Store) (entity_id : ℕ) (currency : Currency) (timestamp : IsoStamp) :
    Except MigrationError ℚ :=
  let rows := d.transactions.rows.filter fun r => decide (r.2.entityId = entity_id) &&
    decide (cashPocket r.2 = currency) && decide (r.2.timestamp.textKey ≤ timestamp.textKey)
  let before := d.balanceSnapshots.rows.filter fun r => decide (r.2.entityId = entity_id) &&
    decide (r.2.currency = currency) && decide (r.2.timestamp.textKey ≤ timestamp.textKey)
  match before.argmax fun r => r.2.timestamp.textKey with
  | some prev =>
    (rows.filter fun r => decide (prev.2.timestamp.textKey < r.2.timestamp.textKey)).foldlM
      (fun balance r =>
        if r.2.type.isInflow || r.2.type.isSpend then
          match cashImpact r.2 with
          | some v => .ok (balance + signed r.2.type v)
          | none => .error .typeError
        else .ok balance) prev.2.amount
  | none => .ok ((rows.filterMap fun r => (cashImpact r.2).map (signed r.2.type)).sum)

def dayBefore (t : IsoStamp) : IsoStamp := { t with wall := t.wall - Time.ticksPerDay }

def autoMigrated : String := "Auto-migrated: inferred cash for investment purchase"

/-- The shortfall of one buy becomes a snapshot. -/
def backfillBuy (d : Store) (buy : ℕ × TransactionRow) : Except MigrationError Store :=
  match buy.2.totalValue with
  | none => .ok d
  | some total_value => do
    let snapshot_ts := dayBefore buy.2.timestamp
    let balance ← computeBalanceAt d buy.2.entityId buy.2.currency snapshot_ts
    if total_value ≤ balance then .ok d
    else
      let row : SnapshotRow :=
        { entityId := buy.2.entityId, currency := buy.2.currency, amount := total_value - balance,
          timestamp := snapshot_ts, notes := some autoMigrated }
      .ok { d with balanceSnapshots := d.balanceSnapshots.insert row }

/-- The buys with a value, in chronological order. -/
def buys (d : Store) : List (ℕ × TransactionRow) :=
  (d.transactions.rows.filter fun r => decide (r.2.type = .investmentBuy) && r.2.totalValue.isSome)
    |>.insertionSort fun r r' => r.2.timestamp.textKey ≤ r'.2.timestamp.textKey

/-- `_backfill_auto_snapshots`. -/
def backfillAutoSnapshots : Statement := fun d =>
  if d.tableExists .transactions then (buys d).foldlM backfillBuy d
  else .error (.noSuchTable .transactions)

def up (_ : Store) : List Statement := [backfillAutoSnapshots]

def verify (_ : Store) : Bool := true

end BackfillSnapshots

namespace StockSplits

def up (_ : Store) : List Statement := [createIfMissing .stockSplits [] []]

def verify (d : Store) : Bool := d.tableExists .stockSplits

end StockSplits

namespace ScheduleAsset

def up (_ : Store) : List Statement := [addColumn .schedules .portfolioAssetId]

def verify (d : Store) : Bool := d.columnExists .schedules .portfolioAssetId

end ScheduleAsset

namespace ManualValues

def up (_ : Store) : List Statement := [createIfMissing .manualValues [] []]

def verify (d : Store) : Bool := d.tableExists .manualValues

end ManualValues

/-! ## 006 to 013 -/

namespace TransferTypes

def columns : List ColumnName := [.timestamp, .transactionCategory, .portfolioAssetId, .profileId]

/-- `_migrate_transactions_check`. -/
def up (d : Store) : List Statement :=
  if !d.tableExists .transactions || d.sqlHas .transactions .transferIn then []
  else
    [create .transactionsNew columns [.transferIn],
      fun d => (rebuild .transactions .transactionsNew columns [.transferIn] d).map fun d =>
        { d with transactions := recount d.transactions }]

def verify (d : Store) : Bool := d.tableExists .transactions && d.sqlHas .transactions .transferIn

end TransferTypes

namespace ScheduleOccurrences

/-- The digits that follow `[schedule:` at the head of a text, if a `]` closes them. -/
def tagAt (cs : List Char) : Option ℕ :=
  if "[schedule:".toList.isPrefixOf cs then
    let rest := cs.drop "[schedule:".length
    let digits := rest.takeWhile Char.isDigit
    if digits ≠ [] ∧ (rest.drop digits.length).head? = some ']'
    then some (digits.foldl (fun n c => 10 * n + (c.toNat - 48)) 0)
    else none
  else none

/-- `re.search(r"\[schedule:(\d+)\]", notes)`. -/
def scheduleTag (notes : String) : Option ℕ := notes.toList.tails.findSome? tagAt

/-- `notes LIKE '%[schedule:%]'`. -/
def likeTag (notes : String) : Bool :=
  (notes.toList.tails.any fun cs =>
      decide ((cs.take "[schedule:".length).map Char.toLower = "[schedule:".toList)) &&
    decide (notes.toList.getLast? = some ']')

/-- The occurrence a transaction was generated for, when its notes say so. -/
def backfilled (r : ℕ × TransactionRow) : Option OccurrenceRow := do
  let notes ← r.2.notes
  if likeTag notes then
    let schedule_id ← scheduleTag notes
    some ⟨schedule_id, Time.dayOf r.2.timestamp.wall, r.1, none⟩
  else none

/-- `INSERT OR IGNORE`, under `UNIQUE (schedule_id, occurrence_date)`. -/
def insertOccurrence (d : Store) (o : OccurrenceRow) : Store :=
  if d.scheduleOccurrences.rows.any fun r => decide (r.2.scheduleId = o.scheduleId) &&
      decide (r.2.occurrenceDate = o.occurrenceDate)
  then d
  else { d with scheduleOccurrences := d.scheduleOccurrences.insert o }

/-- `_backfill_schedule_occurrences`. -/
def backfillScheduleOccurrences : Statement :=
  onTable .transactions fun d => (d.transactions.rows.filterMap backfilled).foldl insertOccurrence d

/-- `_migrate_schedule_occurrences`: only the call that creates the table fills it. -/
def up (d : Store) : List Statement :=
  if d.tableExists .scheduleOccurrences then []
  else [create .scheduleOccurrences [] [], backfillScheduleOccurrences]

def verify (d : Store) : Bool := d.tableExists .scheduleOccurrences

end ScheduleOccurrences

namespace Profiles

/-- A table of `PROFILE_TABLES`, with `UPDATE … SET profile_id = ? WHERE profile_id IS NULL`. -/
structure ProfileTable where
  name : TableName
  fill : ℕ → Store → Store

def owner (id : ℕ) (profile_id : Option ℕ) : Option ℕ := profile_id.or (some id)

def ownedTable (name : TableName) (t : OwnedTable) : ProfileTable where
  name := name
  fill id d :=
    let rows := mapRows (d.owned t) fun r => { r.2 with profileId := owner id r.2.profileId }
    { d with owned := Function.update d.owned t rows }

def transactionsTable : ProfileTable where
  name := .transactions
  fill id d :=
    let rows := mapRows d.transactions fun r => { r.2 with profileId := owner id r.2.profileId }
    { d with transactions := rows }

def transactionTaxesTable : ProfileTable where
  name := .transactionTaxes
  fill id d :=
    let rows := mapRows d.transactionTaxes fun r => { r.2 with profileId := owner id r.2.profileId }
    { d with transactionTaxes := rows }

def balanceSnapshotsTable : ProfileTable where
  name := .balanceSnapshots
  fill id d :=
    let rows := mapRows d.balanceSnapshots fun r => { r.2 with profileId := owner id r.2.profileId }
    { d with balanceSnapshots := rows }

def scheduleOccurrencesTable : ProfileTable where
  name := .scheduleOccurrences
  fill id d :=
    let rows := mapRows d.scheduleOccurrences fun r => { r.2 with profileId := owner id r.2.profileId }
    { d with scheduleOccurrences := rows }

/-- `PROFILE_TABLES`. -/
def profileTables : List ProfileTable :=
  [ownedTable .entities .entities, transactionsTable,
    ownedTable .transactionFees .transactionFees, transactionTaxesTable,
    ownedTable .portfolioAssets .portfolioAssets, balanceSnapshotsTable,
    ownedTable .schedules .schedules, scheduleOccurrencesTable,
    ownedTable .manualValues .manualValues, ownedTable .fiscalExemptions .fiscalExemptions]

/-- `INSERT INTO profiles … WHERE NOT EXISTS (SELECT 1 FROM profiles)`. -/
def seedDefault (d : Store) : Store :=
  if d.profiles.rows = [] then { d with profiles := d.profiles.insert "Default" } else d

def defaultId (d : Store) : ℕ := (d.profiles.rows.head?.map Prod.fst).getD 0

/-- The rows of one table get the default profile as their owner. -/
def fillTable (t : ProfileTable) : Statement := fun d => .ok (t.fill (defaultId d) d)

/-- `_migrate_profiles`. The column of the first table is added in the transaction of the default
profile, the others' outside one. -/
def up (d : Store) : List Statement :=
  createIfMissing .profiles [] [] ::
    match profileTables.filter fun t => d.tableExists t.name with
    | [] => [fun d => .ok (seedDefault d)]
    | first :: rest =>
      commitAll [fun d => .ok (seedDefault d), addColumn first.name .profileId, fillTable first] ::
        rest.flatMap fun t => [addColumn t.name .profileId, fillTable t]

def verify (d : Store) : Bool :=
  d.tableExists .profiles &&
    (profileTables.all fun t => !d.tableExists t.name || d.columnExists t.name .profileId) &&
    !d.profiles.rows.isEmpty

end Profiles

namespace MarketAssetLastSynced

def up (d : Store) : List Statement :=
  if d.tableExists .marketAssets then [addColumn .marketAssets .lastSyncedAt] else []

def verify (d : Store) : Bool :=
  !d.tableExists .marketAssets || d.columnExists .marketAssets .lastSyncedAt

end MarketAssetLastSynced

namespace IncomeCategory

def up (_ : Store) : List Statement :=
  [addColumn .schedules .incomeCategory, addColumn .transactions .incomeCategory]

def verify (d : Store) : Bool :=
  d.columnExists .schedules .incomeCategory && d.columnExists .transactions .incomeCategory

end IncomeCategory

namespace RenameInvestmentCategory

def up (d : Store) : List Statement :=
  if d.columnExists .transactions .transactionCategory &&
      !d.columnExists .transactions .investmentTransactionCategory then
    [fun d =>
      let items := d.schema.erase (.column .transactions .transactionCategory)
      .ok { d with schema := insert (.column .transactions .investmentTransactionCategory) items }]
  else []

def verify (d : Store) : Bool := d.columnExists .transactions .investmentTransactionCategory

end RenameInvestmentCategory

namespace FiscalPeriods

def up (_ : Store) : List Statement :=
  [createIfMissing .fiscalPeriods [] [], addColumn .transactions .fiscalRule]

def verify (d : Store) : Bool :=
  d.tableExists .fiscalPeriods && d.columnExists .transactions .fiscalRule

end FiscalPeriods

namespace TaxRates

/-- The seeded rows of `tax_rates` are left out: nothing reads them, and 021 drops the table. -/
def up (_ : Store) : List Statement :=
  [createIfMissing .taxRates [] [], addColumn .profiles .defaultFiscalRule]

def verify (d : Store) : Bool := d.columnExists .profiles .defaultFiscalRule

end TaxRates

/-! ## 014 to 020 -/

namespace AddCashbackCategory

def transactionColumns : List ColumnName :=
  [.timestamp, .investmentTransactionCategory, .incomeCategory, .portfolioAssetId, .fiscalRule,
    .balanceSnapshotId, .cashHandling, .profileId]

def scheduleColumns : List ColumnName := [.incomeCategory, .portfolioAssetId, .profileId]

def rebuildTransactions : Statement := fun d => do
  let d ← rebuild .transactions .transactionsNew transactionColumns [.transferIn, .cashback] d
  .ok { d with transactions := recount d.transactions }

def rebuildSchedules : Statement := fun d => do
  let d ← create .schedulesNew scheduleColumns [.cashback] d
  let d ← rebuild .schedules .schedulesNew scheduleColumns [.cashback] d
  .ok { d with owned := Function.update d.owned .schedules (recount (d.owned .schedules)) }

/-- The first table is created outside a transaction, everything else in one. -/
def up (_ : Store) : List Statement :=
  [create .transactionsNew transactionColumns [.transferIn, .cashback],
    commitAll [rebuildTransactions, rebuildSchedules]]

def verify (d : Store) : Bool :=
  (d.tableExists .transactions && d.sqlHas .transactions .cashback) &&
    (d.tableExists .schedules && d.sqlHas .schedules .cashback)

end AddCashbackCategory

/-- `_day_before_235959`. -/
def dayBefore235959 (ts : IsoStamp) : IsoStamp := { wall := Time.injectionTs ts.wall }

namespace BalanceSnapshotId

/-- The adjustment that stands at midnight of the snapshot's day and has no snapshot yet. -/
def findAdjustment (d : Store) (s : SnapshotRow) : Option (ℕ × TransactionRow) :=
  let old_ts : IsoStamp := { wall := Time.startOfDay (Time.dayOf s.timestamp.wall) }
  d.transactions.rows.find? fun r => decide (r.2.entityId = s.entityId) &&
    decide (r.2.currency = s.currency) && decide (r.2.type = .balanceAdjustment) &&
    decide (r.2.timestamp = old_ts) && r.2.balanceSnapshotId.isNone

def link (d : Store) (s : ℕ × SnapshotRow) : Store :=
  match findAdjustment d s.2 with
  | some adj => { d with transactions := d.transactions.modify adj.1 fun t =>
      { t with balanceSnapshotId := some s.1 } }
  | none => d

/-- A linked adjustment moves to the end of the day before its snapshot. -/
def place (d : Store) (r : ℕ × TransactionRow) : TransactionRow :=
  match r.2.balanceSnapshotId.bind d.balanceSnapshots.get? with
  | some s => { r.2 with timestamp := dayBefore235959 s.timestamp }
  | none => r.2

def linkAndPlace : Statement := fun d =>
  if d.tableExists .balanceSnapshots then
    let linked := d.balanceSnapshots.rows.foldl link d
    .ok { linked with transactions := mapRows linked.transactions (place linked) }
  else .ok d

def up (_ : Store) : List Statement := [addColumn .transactions .balanceSnapshotId, linkAndPlace]

def verify (d : Store) : Bool := d.columnExists .transactions .balanceSnapshotId

end BalanceSnapshotId

namespace ConsolidateAutoSnapshots

/-- `notes LIKE 'Auto-%'`, which ignores the case of letters. -/
def likeAuto (notes : Option String) : Bool :=
  notes.any fun n => decide ((n.toList.take 5).map Char.toLower = "auto-".toList)

/-- An adjustment to write for a manual snapshot: the snapshot's id, the amount and the snapshot's
timestamp. -/
structure Adjustment where
  snapshotId : ℕ
  amount : ℚ
  timestamp : IsoStamp
  deriving DecidableEq

/-- The walk over the transactions of a pair. -/
structure Walk where
  bal : ℚ := 0
  /-- Inferred cash by its timestamp, in the order of the first entry. -/
  injections : List (IsoStamp × ℚ) := []
  adjustments : List Adjustment := []
  /-- The snapshots that have not been passed. -/
  manual : List (ℕ × SnapshotRow)

def addInjection (key : IsoStamp) (amount : ℚ) : List (IsoStamp × ℚ) → List (IsoStamp × ℚ)
  | [] => [(key, amount)]
  | entry :: rest =>
    if entry.1 = key then (key, entry.2 + amount) :: rest else entry :: addInjection key amount rest

def Walk.pass (w : Walk) (s : ℕ × SnapshotRow) : Walk where
  bal := s.2.amount
  injections := w.injections
  adjustments := w.adjustments ++ [⟨s.1, s.2.amount - w.bal, s.2.timestamp⟩]
  manual := w.manual.tail

/-- `while mi < len(manual) and …`: pass the snapshots up to a timestamp, or all of them. -/
def Walk.passUntil (due : ℕ × SnapshotRow → Bool) (w : Walk) : Walk :=
  (w.manual.takeWhile due).foldl Walk.pass w

def Walk.spend (w : Walk) (tx : ℕ × TransactionRow) : Walk :=
  let v := tx.2.totalValue.getD 0
  let w := w.passUntil fun s => decide (s.2.timestamp.textKey ≤ tx.2.timestamp.textKey)
  let w :=
    if tx.2.type.isSpend && decide (w.bal < v) then
      { w with
        injections := addInjection (dayBefore235959 tx.2.timestamp) (v - w.bal) w.injections
        bal := v }
    else w
  { w with bal := w.bal + signed tx.2.type v }

def walk (manual : List (ℕ × SnapshotRow)) (txns : List (ℕ × TransactionRow)) : Walk :=
  (txns.foldl Walk.spend { manual := manual }).passUntil fun _ => true

def pairOf (t : TransactionRow) : ℕ × Currency := (t.entityId, t.currency)

def isAdjustmentOf (p : ℕ × Currency) (t : TransactionRow) : Bool :=
  decide (pairOf t = p) && decide (t.type = .balanceAdjustment)

/-- The snapshots of a pair, in order, that are no auto-snapshots. -/
def manualOf (d : Store) (p : ℕ × Currency) : List (ℕ × SnapshotRow) :=
  (d.balanceSnapshots.rows.filter fun r => decide (r.2.entityId = p.1) &&
      decide (r.2.currency = p.2) && !likeAuto r.2.notes)
    |>.insertionSort fun r r' => r.2.timestamp.textKey ≤ r'.2.timestamp.textKey

/-- The transactions of a pair, in order, that are no adjustments. -/
def txnsOf (d : Store) (p : ℕ × Currency) : List (ℕ × TransactionRow) :=
  (d.transactions.rows.filter fun r => decide (pairOf r.2 = p) &&
      decide (r.2.type ≠ .balanceAdjustment))
    |>.insertionSort fun r r' => r.2.timestamp.textKey ≤ r'.2.timestamp.textKey

def profileOf (d : Store) (p : ℕ × Currency) : Option ℕ :=
  match manualOf d p with
  | s :: _ => s.2.profileId
  | [] => (d.transactions.rows.find? fun r => decide (pairOf r.2 = p)).bind fun r => r.2.profileId

def injectionRow (p : ℕ × Currency) (profile_id : Option ℕ) (entry : IsoStamp × ℚ) :
    TransactionRow where
  timestamp := entry.1
  type := .balanceAdjustment
  entityId := p.1
  currency := p.2
  totalValue := some entry.2
  notes := some "Inferred cash for investment purchases"
  profileId := profile_id

/-- `isoformat()`. -/
def isoformat (ts : IsoStamp) : String :=
  let micros := ts.wall / 2 % 1000000
  let minutes := fun o : ℤ => Time.padded 2 (o / (3600 * Time.ticksPerSecond)) ++ ":" ++
    Time.padded 2 (o / (60 * Time.ticksPerSecond) % 60)
  Time.isoText ts.wall ++ (if micros = 0 then "" else "." ++ Time.padded 6 micros) ++
    match ts.offset with
    | none => ""
    | some o => if 0 ≤ o then "+" ++ minutes o else "-" ++ minutes (-o)

def adjustmentRow (p : ℕ × Currency) (profile_id : Option ℕ) (a : Adjustment) : TransactionRow where
  timestamp := dayBefore235959 a.timestamp
  type := .balanceAdjustment
  entityId := p.1
  currency := p.2
  totalValue := some a.amount
  balanceSnapshotId := some a.snapshotId
  notes := some ("Balance adjustment for snapshot at " ++ isoformat a.timestamp)
  profileId := profile_id

/-- What `_reconcile_pair` inserts. -/
def derivedRows (d : Store) (p : ℕ × Currency) : List TransactionRow :=
  let w := walk (manualOf d p) (txnsOf d p)
  w.injections.map (injectionRow p (profileOf d p)) ++
    w.adjustments.map (adjustmentRow p (profileOf d p))

/-- `_reconcile_pair`. -/
def reconcilePair (d : Store) (p : ℕ × Currency) : Store :=
  let kept := d.transactions.removeWhere fun r => isAdjustmentOf p r.2
  { d with
    balanceSnapshots := d.balanceSnapshots.removeWhere fun r =>
      decide ((r.2.entityId, r.2.currency) = p) && likeAuto r.2.notes
    transactions := (derivedRows d p).foldl Table.insert kept }

/-- `SELECT DISTINCT entity_id, currency FROM balance_snapshots`. -/
def pairs (d : Store) : List (ℕ × Currency) :=
  (d.balanceSnapshots.rows.map fun r => (r.2.entityId, r.2.currency)).eraseDups

def consolidate : Statement := fun d =>
  .ok (if d.tableExists .balanceSnapshots then (pairs d).foldl reconcilePair d else d)

def up (_ : Store) : List Statement := [consolidate]

def verify (d : Store) : Bool :=
  !d.tableExists .balanceSnapshots || d.balanceSnapshots.rows.all fun r => !likeAuto r.2.notes

end ConsolidateAutoSnapshots

namespace PersistCashHandling

def insertLink (d : Store) (l : LinkRow) : Store :=
  if d.balanceAdjustmentLinks.rows.any fun r => decide (r.2 = l) then d
  else { d with balanceAdjustmentLinks := d.balanceAdjustmentLinks.insert l }

/-- The injections, by their marker. -/
def injections (d : Store) : List (ℕ × TransactionRow) :=
  d.transactions.rows.filter fun r => decide (r.2.type = .balanceAdjustment) &&
    r.2.balanceSnapshotId.isNone &&
    decide (r.2.notes = some "Inferred cash for investment purchases")

/-- The spends of the pair on the day after an injection. -/
def nextDaySpends (d : Store) (inj : TransactionRow) : List (ℕ × TransactionRow) :=
  let day := Time.dayOf inj.timestamp.wall + 1
  let first : IsoStamp := { wall := Time.startOfDay day }
  let last : IsoStamp := { wall := Time.endOfDay day }
  d.transactions.rows.filter fun r => decide (r.2.entityId = inj.entityId) &&
    decide (r.2.currency = inj.currency) && r.2.type.isSpend &&
    decide (first.textKey ≤ r.2.timestamp.textKey) && decide (r.2.timestamp.textKey < last.textKey)

def newLinks (d : Store) : List LinkRow :=
  (injections d).flatMap fun inj => (nextDaySpends d inj.2).map fun sp => ⟨inj.1, sp.1⟩

/-- `_backfill_links`. -/
def backfillLinks : Statement := fun d => .ok ((newLinks d).foldl insertLink d)

def up (_ : Store) : List Statement :=
  [addColumn .transactions .cashHandling, createIfMissing .balanceAdjustmentLinks [] [],
    backfillLinks]

def verify (d : Store) : Bool :=
  d.columnExists .transactions .cashHandling && d.tableExists .balanceAdjustmentLinks

end PersistCashHandling

namespace AddEntityMainCurrency

def up (_ : Store) : List Statement := [addColumn .entities .mainCurrency]

def verify (d : Store) : Bool := d.columnExists .entities .mainCurrency

end AddEntityMainCurrency

namespace AddProfileTimezone

def up (_ : Store) : List Statement := [addColumn .profiles .timezone]

def verify (d : Store) : Bool := d.columnExists .profiles .timezone

end AddProfileTimezone

namespace BackfillJstToUtc

def jst : ℤ := 9 * 3600 * Time.ticksPerSecond

/-- `_normalize_timestamp`: an explicit offset is taken off, a bare wall clock is Tokyo's. -/
def normalizeTimestamp (value : IsoStamp) : IsoStamp :=
  let utc := value.wall - value.offset.getD jst
  { wall := utc / Time.ticksPerSecond * Time.ticksPerSecond }

/-- `timestamp LIKE '%+%' OR timestamp LIKE '%Z%'`. -/
def hasSuffix (value : IsoStamp) : Bool := value.offset.any fun o => decide (0 ≤ o)

def verify (d : Store) : Bool :=
  (!d.columnExists .transactions .timestamp ||
      d.transactions.rows.all fun r => !hasSuffix r.2.timestamp) &&
    (!d.columnExists .balanceSnapshots .timestamp ||
      d.balanceSnapshots.rows.all fun r => !hasSuffix r.2.timestamp)

def convertTransactions (d : Store) : Store :=
  let rows := mapRows d.transactions fun r =>
    { r.2 with timestamp := normalizeTimestamp r.2.timestamp }
  { d with transactions := rows }

def convertSnapshots (d : Store) : Store :=
  let rows := mapRows d.balanceSnapshots fun r =>
    { r.2 with timestamp := normalizeTimestamp r.2.timestamp }
  { d with balanceSnapshots := rows }

/-- `_convert_column` on both tables. -/
def convert : Statement := fun d =>
  let d := convertTransactions d
  .ok (if d.columnExists .balanceSnapshots .timestamp then convertSnapshots d else d)

/-- The recorded version, and not the end-state, decides whether a database is converted. -/
def up (d : Store) : List Statement :=
  if decide (.backfillJstToUtc ∈ d.versions) && verify d then []
  else if d.columnExists .transactions .timestamp then [convert]
  else []

end BackfillJstToUtc

/-! ## 021 to 028 -/

namespace TaxSchemaV2

def dropTaxRates : Statement := fun d =>
  .ok { d with schema := d.schema.filter fun x => x.tableName ≠ .taxRates }

def addColumnIfTable (t : TableName) (c : ColumnName) : Statement := fun d =>
  if d.tableExists t then addColumn t c d else .ok d

def up (_ : Store) : List Statement :=
  [createIfMissing .taxBases [] [], createIfMissing .taxBaseCategories [] [],
    createIfMissing .taxBaseRates [] [], createIfMissing .taxDefinitions [] [],
    createIfMissing .brokerFeeDefinitions [] [],
    addColumnIfTable .transactionTaxes .taxDefinitionId,
    addColumnIfTable .transactionFees .brokerFeeDefinitionId, dropTaxRates]

def verify (d : Store) : Bool :=
  d.tableExists .taxBases && d.tableExists .taxBaseCategories && d.tableExists .taxBaseRates &&
    d.tableExists .taxDefinitions && d.tableExists .brokerFeeDefinitions &&
    !d.tableExists .taxRates &&
    (!d.tableExists .transactionTaxes || d.columnExists .transactionTaxes .taxDefinitionId) &&
    (!d.tableExists .transactionFees || d.columnExists .transactionFees .brokerFeeDefinitionId)

end TaxSchemaV2

namespace DropTaxType

def genericWithholding : TaxDefinitionRow where
  slug := "foreign_withholding"
  name := "Foreign Withholding"

/-- `INSERT OR IGNORE INTO tax_definitions`, under `UNIQUE (slug)`. -/
def insertDefinition (row : TaxDefinitionRow) (d : Store) : Store :=
  if d.taxDefinitions.rows.any fun r => decide (r.2.slug = row.slug) then d
  else { d with taxDefinitions := d.taxDefinitions.insert row }

def definitionId (d : Store) (slug : String) : Option ℕ :=
  (d.taxDefinitions.rows.find? fun r => decide (r.2.slug = slug)).map Prod.fst

/-- The rows without a definition get the generic one. -/
def backfillDefinition : Statement := fun d =>
  let d := insertDefinition genericWithholding d
  let rows := mapRows d.transactionTaxes fun r =>
    { r.2 with taxDefinitionId := r.2.taxDefinitionId.or (definitionId d genericWithholding.slug) }
  .ok { d with transactionTaxes := rows }

def columns : List ColumnName := [.taxDefinitionId, .profileId]

/-- The copy into the new table names its columns, and `tax_definition_id` must not be `NULL`. -/
def rebuildTaxes : Statement := fun d =>
  if d.tableExists .transactionTaxes = false then .error (.noSuchTable .transactionTaxes)
  else if (columns.all fun c => d.columnExists .transactionTaxes c) = false then
    .error (.noSuchColumn .transactionTaxes)
  else if d.transactionTaxes.rows.any fun r => r.2.taxDefinitionId.isNone then
    .error (.notNull .transactionTaxesNew)
  else
    let d := d.withRebuilt .transactionTaxes .transactionTaxesNew columns [.taxDefinitionIdNotNull]
    .ok { d with transactionTaxes := recount d.transactionTaxes }

def createNew : Statement := create .transactionTaxesNew columns [.taxDefinitionIdNotNull]

/-- With a catalog the rows are written first, and the new table is created in their transaction. -/
def up (d : Store) : List Statement :=
  if d.tableExists .transactionTaxes && d.columnExists .transactionTaxes .taxType then
    if d.tableExists .taxDefinitions then [commitAll [backfillDefinition, createNew, rebuildTaxes]]
    else [createNew, rebuildTaxes]
  else []

def verify (d : Store) : Bool :=
  !d.tableExists .transactionTaxes ||
    (!d.columnExists .transactionTaxes .taxType &&
      d.sqlHas .transactionTaxes .taxDefinitionIdNotNull)

end DropTaxType

namespace SeedTaxCatalog

def categories : List String := ["capital_gains", "dividends", "interest"]

/-- `_SPAIN_BRACKETS`. -/
def spainBrackets : List (ℚ × Option ℚ × ℚ) :=
  [(0, some 6000, 19 / 100), (6000, some 50000, 21 / 100), (50000, some 200000, 23 / 100),
    (200000, some 300000, 27 / 100), (300000, none, 30 / 100)]

/-- `_BASES`, each with whether it has brackets. -/
def bases : List (TaxBaseRow × Bool) :=
  [(⟨"spain", "IRPF sobre el ahorro", "progressive", none, none⟩, true),
    (⟨"default", "IRPF sobre el ahorro", "progressive", none, none⟩, true),
    (⟨"japan", "Impuesto de capitales", "flat", some (20315 / 100000), none⟩, false)]

def tasaTobin : TaxDefinitionRow := ⟨"spain_itf", some "spain", "Tasa Tobin", some (2 / 1000), none⟩

def brokerFees : List String := ["Fee de compra", "Fee de venta", "Fee de cambio de divisa (FX)"]

/-- `SELECT id FROM tax_bases WHERE ruleset_key = ? AND year_start IS NULL`. -/
def baseOf (d : Store) (ruleset_key : String) : Option ℕ :=
  (d.taxBases.rows.find? fun r => decide (r.2.rulesetKey = ruleset_key) && r.2.yearStart.isNone).map
    Prod.fst

/-- A base that a user has created is left as it is. -/
def seedBase (d : Store) (base : TaxBaseRow × Bool) : Store :=
  match baseOf d base.1.rulesetKey with
  | some _ => d
  | none =>
    let base_id := d.taxBases.next
    let brackets : List TaxBaseRateRow :=
      if base.2 then spainBrackets.map fun b => ⟨base_id, b.1, b.2.1, b.2.2⟩ else []
    { d with
      taxBases := d.taxBases.insert base.1
      taxBaseCategories := d.taxBaseCategories ++ categories.map fun c => (base_id, c)
      taxBaseRates := d.taxBaseRates ++ brackets }

def seedFee (d : Store) (name : String) : Store :=
  if d.brokerFeeDefinitions.rows.any fun r => decide (r.2 = name) then d
  else { d with brokerFeeDefinitions := d.brokerFeeDefinitions.insert name }

def catalogTables : List TableName :=
  [.taxBases, .taxBaseCategories, .taxBaseRates, .taxDefinitions, .brokerFeeDefinitions]

def seed : Statement := fun d =>
  match catalogTables.find? fun t => !d.tableExists t with
  | some t => .error (.noSuchTable t)
  | none =>
    let d := DropTaxType.insertDefinition DropTaxType.genericWithholding d
    let d := DropTaxType.insertDefinition tasaTobin d
    .ok (brokerFees.foldl seedFee (bases.foldl seedBase d))

def up (_ : Store) : List Statement := [seed]

def definitionExists (d : Store) (slug : String) : Bool :=
  d.taxDefinitions.rows.any fun r => decide (r.2.slug = slug)

/-- A base of a seeded ruleset, with a category and, where it needs one, a bracket. -/
def baseSeeded (d : Store) (base : TaxBaseRow × Bool) : Bool :=
  match baseOf d base.1.rulesetKey with
  | none => false
  | some base_id =>
    (d.taxBaseCategories.any fun c => decide (c.1 = base_id)) &&
      (!base.2 || d.taxBaseRates.any fun r => decide (r.taxBaseId = base_id))

def feeExists (d : Store) (name : String) : Bool :=
  d.brokerFeeDefinitions.rows.any fun r => decide (r.2 = name)

def verify (d : Store) : Bool :=
  catalogTables.all (fun t => d.tableExists t) &&
    [DropTaxType.genericWithholding.slug, tasaTobin.slug].all (definitionExists d) &&
    bases.all (baseSeeded d) && brokerFees.all (feeExists d)

end SeedTaxCatalog

namespace MacroSeries

/-- `_SERIES`. -/
def series : List MacroSeriesRow :=
  [{ slug := "boj-policy-rate", provider := some "boj",
     name := "Japan Interest Rate Decision (Basic Discount Rate)", unit := some "%",
     sourceUrl := some "https://www.stat-search.boj.or.jp/api/v1/getDataCode?db=IR01&code=MADR1Z%40D",
     updateFrequency := some "event-driven" },
    { slug := "ecb-deposit-rate", provider := some "ecb",
      name := "ECB Deposit Facility Rate (date of changes)", unit := some "%",
      sourceUrl := some
        "https://data-api.ecb.europa.eu/service/data/FM/D.U2.EUR.4F.KR.DFR.LEV?format=jsondata",
      updateFrequency := some "event-driven" },
    { slug := "usa-cpi-yoy", provider := some "bls",
      name := "U.S. Consumer Price Index (CPI-U, All items, YoY)", unit := some "%",
      sourceUrl := some "https://api.bls.gov/publicAPI/v2/timeseries/data/",
      updateFrequency := some "monthly" },
    { slug := "japan-cpi-yoy", provider := none,
      name := "Japan National Consumer Price Index (CPI) YoY", unit := some "%",
      sourceUrl := none, updateFrequency := some "monthly" },
    { slug := "eurozone-cpi-yoy", provider := some "eurostat",
      name := "HICP - monthly data (annual rate of change), Euro area, All-items", unit := some "%",
      sourceUrl := some ("https://ec.europa.eu/eurostat/api/dissemination/statistics/1.0/data/" ++
        "prc_hicp_manr?format=JSON&geo=EA&coicop=CP00&unit=RCH_A"),
      updateFrequency := some "monthly" },
    { slug := "usa-m2-money-supply", provider := some "fred", name := "M2 Money Stock (M2SL)",
      unit := none, sourceUrl := some "https://fred.stlouisfed.org/graph/fredgraph.csv?id=M2SL",
      updateFrequency := some "monthly" },
    { slug := "japan-m2-yoy", provider := some "boj", name := "Japan M2 Money Stock (YoY)",
      unit := some "%",
      sourceUrl := some "https://www.stat-search.boj.or.jp/api/v1/getDataCode?db=MD02&code=MAM1NAM2M2MO",
      updateFrequency := some "monthly" },
    { slug := "eurozone-m2-yoy", provider := some "ecb", name := "Eurozone M2 (annual growth rate)",
      unit := some "%",
      sourceUrl := some
        "https://data.ecb.europa.eu/data-detail-api/BSI.M.U2.Y.V.M20.X.I.U2.2300.Z01.A",
      updateFrequency := some "monthly" }]

/-- `INSERT OR IGNORE INTO macro_series`, under `PRIMARY KEY (slug)`. -/
def insertSeries (d : Store) (row : MacroSeriesRow) : Store :=
  if d.macroSeries.any fun r => decide (r.slug = row.slug) then d
  else { d with macroSeries := d.macroSeries ++ [row] }

def up (_ : Store) : List Statement :=
  [createIfMissing .macroSeries [] [.boj, .fred], createIfMissing .macroSeriesObservations [] [],
    fun d => .ok (series.foldl insertSeries d)]

def seriesExists (d : Store) (slug : String) : Bool :=
  d.macroSeries.any fun r => decide (r.slug = slug)

def verify (d : Store) : Bool :=
  d.tableExists .macroSeries && d.tableExists .macroSeriesObservations &&
    series.all fun row => seriesExists d row.slug

end MacroSeries

/-- The new source of a series. -/
structure Repoint where
  slug : String
  provider : Option String
  /-- `None` keeps the name. -/
  name : Option String
  sourceUrl : Option String

def Repoint.apply (r : Repoint) (row : MacroSeriesRow) : MacroSeriesRow :=
  if row.slug = r.slug then
    { row with provider := r.provider, name := r.name.getD row.name, sourceUrl := r.sourceUrl }
  else row

/-- `UPDATE macro_series SET … WHERE slug = ?`. -/
def repoint (d : Store) (r : Repoint) : Store := { d with macroSeries := d.macroSeries.map r.apply }

/-- The row of a series has the source it was given. -/
def pointed (d : Store) (r : Repoint) : Bool :=
  match d.macroSeries.find? fun row => decide (row.slug = r.slug) with
  | some row => decide (row.provider = r.provider) && decide (row.sourceUrl = r.sourceUrl)
  | none => false

namespace EcbDepositRateSource

def source : Repoint where
  slug := "ecb-deposit-rate"
  provider := some "ecb"
  name := some "ECB Deposit Facility Rate (date of changes)"
  sourceUrl := some
    "https://data-api.ecb.europa.eu/service/data/FM/D.U2.EUR.4F.KR.DFR.LEV?format=jsondata"

def up (_ : Store) : List Statement := [onTable .macroSeries fun d => repoint d source]

def verify (d : Store) : Bool := pointed d source

end EcbDepositRateSource

/-- The copy of a row into a rebuilt `macro_series`: a provider that the new table does not allow is
dropped. -/
def allowedRow (allowed : List String) (row : MacroSeriesRow) : MacroSeriesRow :=
  { row with provider := row.provider.filter fun p => decide (p ∈ allowed) }

def keepAllowed (allowed : List String) (d : Store) : Store :=
  { d with macroSeries := d.macroSeries.map (allowedRow allowed) }

namespace OfficialMacroSources

/-- `_REPOINT` and `_UNSOURCED`. -/
def sources : List Repoint :=
  [⟨"boj-policy-rate", some "boj", some "Japan Interest Rate Decision (Basic Discount Rate)",
      some "https://www.stat-search.boj.or.jp/api/v1/getDataCode?db=IR01&code=MADR1Z%40D"⟩,
    ⟨"usa-cpi-yoy", some "bls", some "U.S. Consumer Price Index (CPI-U, All items, YoY)",
      some "https://api.bls.gov/publicAPI/v2/timeseries/data/"⟩,
    ⟨"eurozone-cpi-yoy", some "eurostat",
      some "HICP - monthly data (annual rate of change), Euro area, All-items",
      some ("https://ec.europa.eu/eurostat/api/dissemination/statistics/1.0/data/" ++
        "prc_hicp_manr?format=JSON&geo=EA&coicop=CP00&unit=RCH_A")⟩,
    ⟨"usa-m2-money-supply", some "fred", some "M2 Money Stock (M2SL)",
      some "https://fred.stlouisfed.org/graph/fredgraph.csv?id=M2SL"⟩,
    ⟨"japan-m2-yoy", some "boj", some "Japan M2 Money Stock (YoY)",
      some "https://www.stat-search.boj.or.jp/api/v1/getDataCode?db=MD02&code=MAM1NAM2M2MO"⟩,
    ⟨"japan-cpi-yoy", none, none, none⟩]

def allowed : List String := ["ecb", "boj", "bls", "eurostat", "fred"]

def rebuildSeries : Statement := fun d =>
  rebuild .macroSeries .macroSeriesNew [] [.boj, .fred] (keepAllowed allowed d)

def up (d : Store) : List Statement :=
  if d.tableExists .macroSeries then
    (if d.sqlHas .macroSeries .investingCom then
        [create .macroSeriesNew [] [.boj, .fred], rebuildSeries] else []) ++
      [fun d => .ok (sources.foldl repoint d)]
  else []

def verify (d : Store) : Bool :=
  d.tableExists .macroSeries && !d.sqlHas .macroSeries .investingCom &&
    (d.sqlHas .macroSeries .boj && d.sqlHas .macroSeries .fred) && sources.all (pointed d)

end OfficialMacroSources

/-- A series of the External Market API is there. -/
def fromMarketApi (d : Store) (slug : String) : Bool :=
  match d.macroSeries.find? fun row => decide (row.slug = slug) with
  | some row => decide (row.provider = some "market-api")
  | none => false

namespace UsaPolicyRateSource

def row : MacroSeriesRow where
  slug := "usa-13w-bill-rate"
  provider := some "market-api"
  name := "US 13-week Treasury bill rate (policy-rate proxy)"
  unit := some "%"
  sourceUrl := some "^IRX"
  updateFrequency := some "daily"

def allowed : List String := ["ecb", "boj", "bls", "eurostat", "fred", "market-api"]

def rebuildSeries : Statement := fun d =>
  rebuild .macroSeries .macroSeriesNew [] [.boj, .fred, .marketApi] (keepAllowed allowed d)

def up (d : Store) : List Statement :=
  if d.tableExists .macroSeries then
    (if d.sqlHas .macroSeries .marketApi then []
      else [create .macroSeriesNew [] [.boj, .fred, .marketApi], rebuildSeries]) ++
      [fun d => .ok (MacroSeries.insertSeries d row)]
  else []

def verify (d : Store) : Bool :=
  d.tableExists .macroSeries && d.sqlHas .macroSeries .marketApi && fromMarketApi d row.slug

end UsaPolicyRateSource

namespace Usa10yYieldSource

def row : MacroSeriesRow where
  slug := "usa-10y-treasury-yield"
  provider := some "market-api"
  name := "US 10-year Treasury yield"
  unit := some "%"
  sourceUrl := some "^TNX"
  updateFrequency := some "daily"

def up (d : Store) : List Statement :=
  if d.tableExists .macroSeries then [fun d => .ok (MacroSeries.insertSeries d row)] else []

def verify (d : Store) : Bool := d.tableExists .macroSeries && fromMarketApi d row.slug

end Usa10yYieldSource

/-! ## The runner -/

namespace Version

def up : Version → Store → List Statement
  | purchaseDate => PurchaseDate.up
  | backfillSnapshots => BackfillSnapshots.up
  | stockSplits => StockSplits.up
  | scheduleAsset => ScheduleAsset.up
  | manualValues => ManualValues.up
  | transferTypes => TransferTypes.up
  | scheduleOccurrences => ScheduleOccurrences.up
  | profiles => Profiles.up
  | marketAssetLastSynced => MarketAssetLastSynced.up
  | incomeCategory => IncomeCategory.up
  | renameInvestmentCategory => RenameInvestmentCategory.up
  | fiscalPeriods => FiscalPeriods.up
  | taxRates => TaxRates.up
  | addCashbackCategory => AddCashbackCategory.up
  | balanceSnapshotId => BalanceSnapshotId.up
  | consolidateAutoSnapshots => ConsolidateAutoSnapshots.up
  | persistCashHandling => PersistCashHandling.up
  | addEntityMainCurrency => AddEntityMainCurrency.up
  | addProfileTimezone => AddProfileTimezone.up
  | backfillJstToUtc => BackfillJstToUtc.up
  | taxSchemaV2 => TaxSchemaV2.up
  | dropTaxType => DropTaxType.up
  | seedTaxCatalog => SeedTaxCatalog.up
  | macroSeries => MacroSeries.up
  | ecbDepositRateSource => EcbDepositRateSource.up
  | officialMacroSources => OfficialMacroSources.up
  | usaPolicyRateSource => UsaPolicyRateSource.up
  | usa10yYieldSource => Usa10yYieldSource.up

def verify : Version → Store → Bool
  | purchaseDate => PurchaseDate.verify
  | backfillSnapshots => BackfillSnapshots.verify
  | stockSplits => StockSplits.verify
  | scheduleAsset => ScheduleAsset.verify
  | manualValues => ManualValues.verify
  | transferTypes => TransferTypes.verify
  | scheduleOccurrences => ScheduleOccurrences.verify
  | profiles => Profiles.verify
  | marketAssetLastSynced => MarketAssetLastSynced.verify
  | incomeCategory => IncomeCategory.verify
  | renameInvestmentCategory => RenameInvestmentCategory.verify
  | fiscalPeriods => FiscalPeriods.verify
  | taxRates => TaxRates.verify
  | addCashbackCategory => AddCashbackCategory.verify
  | balanceSnapshotId => BalanceSnapshotId.verify
  | consolidateAutoSnapshots => ConsolidateAutoSnapshots.verify
  | persistCashHandling => PersistCashHandling.verify
  | addEntityMainCurrency => AddEntityMainCurrency.verify
  | addProfileTimezone => AddProfileTimezone.verify
  | backfillJstToUtc => BackfillJstToUtc.verify
  | taxSchemaV2 => TaxSchemaV2.verify
  | dropTaxType => DropTaxType.verify
  | seedTaxCatalog => SeedTaxCatalog.verify
  | macroSeries => MacroSeries.verify
  | ecbDepositRateSource => EcbDepositRateSource.verify
  | officialMacroSources => OfficialMacroSources.verify
  | usaPolicyRateSource => UsaPolicyRateSource.verify
  | usa10yYieldSource => Usa10yYieldSource.verify

def migration (v : Version) : Migration Store MigrationError Version := ⟨v, v.up, v.verify⟩

/-- The files, sorted by name. -/
def all : List Version :=
  [purchaseDate, backfillSnapshots, stockSplits, scheduleAsset, manualValues, transferTypes,
    scheduleOccurrences, profiles, marketAssetLastSynced, incomeCategory, renameInvestmentCategory,
    fiscalPeriods, taxRates, addCashbackCategory, balanceSnapshotId, consolidateAutoSnapshots,
    persistCashHandling, addEntityMainCurrency, addProfileTimezone, backfillJstToUtc, taxSchemaV2,
    dropTaxType, seedTaxCatalog, macroSeries, ecbDepositRateSource, officialMacroSources,
    usaPolicyRateSource, usa10yYieldSource]

end Version

/-- `schema_migrations`. -/
def tracking : Tracking Store MigrationError Version where
  recorded d v := decide (v ∈ d.versions)
  record v d := { d with versions := if v ∈ d.versions then d.versions else d.versions ++ [v] }
  notReached := .notVerified

def migrations : List (Migration Store MigrationError Version) := Version.all.map Version.migration

/-- `_run_migrations`. -/
def runMigrations (d : Store) : Except MigrationError Store := tracking.run migrations d

end Migrations

end FinHub
