import FinHub.Schedules.Materialize

/-!
# FinHub.Schedules.ScheduleSvc

`schedule_svc` and `schedule_full_svc`: creating and editing a schedule. Both commit the row before
they register its job, and the trigger of the job is parsed then.

The jobs themselves live in the memory of the process. What registering one can do to a call is
raise, so that is what `syncSchedule` keeps of it.
-/

namespace FinHub

open Calendar Tabular Db

/-- The columns of a schedule, as its services answer with them. -/
structure ScheduleResponse where
  id : ℕ
  row : ScheduleRow

namespace ScheduleSvc

open Scheduler

/-- `sync_schedule`, on a connection of its own. -/
def syncSchedule (server : Server) (schedule_id : ℕ) : Work Database CallError Unit := do
  match ← Work.readCommitted fun d => d.schedules.get? schedule_id with
  | none => pure ()
  | some sch =>
    match makeTrigger server.fromCrontab sch server.today with
    | .ok _ => pure ()
    | .error e => Work.raise (.trigger e)

/-- The first foreign key of a body that names nothing. -/
def fkError (d : Database) (body : ScheduleRow) : Option CallError :=
  match body.entityId.filter fun id => (d.ledger.getEntity id).isNone with
  | some id => some (.svc (.entityNotFound id))
  | none =>
    (body.currency.filter fun code => !d.ledger.codeExists code).map fun code =>
      .svc (.currencyNotFound code)

def checkFks (body : ScheduleRow) : Work Database CallError Unit := do
  match ← Work.read fun d => fkError d body with
  | some e => Work.raise e
  | none => pure ()

/-- `queries.create_schedule`. `tx` is the transaction a full schedule has made for its start date. -/
def insertSchedule (body : ScheduleRow) (tx : Option ℕ) : Work Database CallError ℕ :=
  .write fun d => (d.schedules.next,
    { d with
      schedules := d.schedules.insert body
      made := d.made ++ (tx.map fun tx_id =>
        ⟨d.schedules.next, dayNumber body.startDate, tx_id⟩).toList })

/-- The answer leaves `portfolio_asset_id` out. -/
def create (server : Server) (body : ScheduleRow) : Work Database CallError ScheduleResponse := do
  checkFks body
  let schedule_id ← insertSchedule body none
  Work.commit
  syncSchedule server schedule_id
  Work.onOwnConnection (catchUpSingleSchedule server schedule_id)
  pure ⟨schedule_id, { body with portfolioAssetId := none }⟩

def update (server : Server) (schedule_id : ℕ) (body : ScheduleRow) :
    Work Database CallError ScheduleResponse := do
  match ← Work.read fun d => d.schedules.get? schedule_id with
  | none => Work.raise (.scheduleNotFound schedule_id)
  | some _ =>
    checkFks body
    Work.write fun d => ((), { d with schedules := d.schedules.modify schedule_id fun _ => body })
    Work.commit
    syncSchedule server schedule_id
    pure ⟨schedule_id, body⟩

/-- The occurrences of the schedule stay. -/
def delete (schedule_id : ℕ) : Work Database CallError Unit := do
  match ← Work.read fun d => d.schedules.get? schedule_id with
  | none => Work.raise (.scheduleNotFound schedule_id)
  | some _ =>
    Work.write fun d => ((), { d with schedules := d.schedules.erase schedule_id })
    Work.commit

end ScheduleSvc

namespace ScheduleFullSvc

open Scheduler ScheduleSvc

/-- The body of the transaction made at once for a start date of today. It is stamped with the bare
midnight and drops the asset of the schedule. -/
def initialBody (body : ScheduleRow) (type_ : TransactionType) (entity_id : ℕ) (currency : Currency) :
    TransactionCreate where
  timestamp := Time.startOfDay (dayNumber body.startDate)
  type := type_
  entityId := entity_id
  currency := currency
  totalValue := body.totalValue
  notes := body.notes
  incomeCategory := body.incomeCategory
  investmentTransactionCategory := if type_ = .investmentBuy then some .dca else none

/-- The initial transaction, when the schedule starts today. -/
def createInitial (server : Server) (body : ScheduleRow) (type_ : TransactionType) (entity_id : ℕ)
    (currency : Currency) : Work Database CallError (Option TransactionResponse) :=
  if body.startDate = server.today then do
    let tx ← Database.onLedger server.torn fun l =>
      l.createTransaction (initialBody body type_ entity_id currency)
    pure (some tx)
  else pure none

/-- A full schedule whose columns are all given. -/
def createComplete (server : Server) (body : ScheduleRow) (type_ : TransactionType) (entity_id : ℕ)
    (currency : Currency) : Work Database CallError (ScheduleResponse × Option TransactionResponse) := do
  let tx ← createInitial server body type_ entity_id currency
  let schedule_id ← insertSchedule body (tx.map TransactionResponse.id)
  Work.commit
  syncSchedule server schedule_id
  pure (⟨schedule_id, { body with portfolioAssetId := none }⟩, tx)

def create (server : Server) (body : ScheduleRow) :
    Work Database CallError (ScheduleResponse × Option TransactionResponse) :=
  .orRollback
    (match body.entityId, body.currency, body.type with
    | some entity_id, some currency, some type_ =>
      createComplete server body type_ entity_id currency
    | _, _, _ => Work.raise .scheduleFullFields)

end ScheduleFullSvc

end FinHub
