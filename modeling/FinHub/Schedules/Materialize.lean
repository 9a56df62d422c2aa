import FinHub.Lib.Session
import FinHub.Model.LedgerSvc
import FinHub.Schedules.Calendars

/-!
# FinHub.Schedules.Materialize

The writers of `scheduler/scheduler.py`: what turns a date of a schedule into a transaction.

* `cloneTx`: a live fire.
* `createCatchupTx`: one missed date, and its callers `catchUpMissedFires` (at boot) and
  `catchUpSingleSchedule` (when a schedule has been created).

The scheduler asks `get_profile` for the profile's timezone. The query does not select that column,
so the name is missing and every date is taken in `Asia/Tokyo`.
-/

namespace FinHub

open Calendar Tabular Db

/-- A row of `schedule_occurrences`. The date is kept as its day number. -/
structure Occurrence where
  scheduleId : ℕ
  occurrenceDate : ℤ
  transactionId : ℕ
  deriving DecidableEq

def Occurrence.key (o : Occurrence) : ℕ × ℤ := (o.scheduleId, o.occurrenceDate)

/-- A key that is new can be added. -/
theorem Occurrence.nodup_append {os : List Occurrence} {o : Occurrence}
    (hos : (os.map Occurrence.key).Nodup) (ho : o.key ∉ os.map Occurrence.key) :
    ((os ++ [o]).map Occurrence.key).Nodup := by
  rw [List.map_append, List.map_singleton]
  refine List.nodup_append.mpr ⟨hos, List.nodup_singleton _, ?_⟩
  intro k hk k' hk' he
  rw [List.mem_singleton.mp hk'] at he
  exact ho (he ▸ hk)

/-- The cash ledger and the tables of the scheduler, with the unique index of the occurrences.
`lastShutdown` is the UTC date of `last_shutdown_at`. `made` is no table and nothing reads it: it
lists the transactions made for the dates of the schedules, whoever made them. -/
structure Database where
  ledger : Ledger
  schedules : Table ScheduleRow
  occurrences : List Occurrence
  lastShutdown : Option Date
  made : List Occurrence
  occurrences_unique : (occurrences.map Occurrence.key).Nodup

/-- The process at some moment: its clocks, the libraries it calls, and what a statement that raised
halfway has left in its open transaction. -/
structure Server where
  now : Timestamp
  utcToday : Date
  today : Date
  tokyo : TimeZone
  fromCrontab : String → Option (Date → Bool)
  torn : Database → Database

/-- What the calls raise. -/
inductive CallError where
  | svc (e : SvcError)
  | scheduleNotFound (id : ℕ)
  | scheduleFullFields
  | trigger (e : Scheduler.TriggerError)
  | occurrenceExists
  deriving DecidableEq

/-- The texts the code itself writes. -/
def CallError.message : CallError → Option String
  | svc e => some e.message
  | scheduleNotFound id => some s!"Schedule {id} not found"
  | scheduleFullFields => some "Schedule full requires entity_id, currency, and type"
  | trigger _ | occurrenceExists => none

namespace Database

/-- A call of a ledger service on the connection it is given. -/
def onLedger {α : Type} (torn : Database → Database) (f : Ledger → Except SvcError (α × Ledger)) :
    Work Database CallError α :=
  .stmt (fun d => ((f d.ledger).map fun r => (r.1, { d with ledger := r.2 })).mapError .svc) torn

theorem onLedger_ok {α : Type} {torn : Database → Database}
    {f : Ledger → Except SvcError (α × Ledger)} {s : Session Database} {a : α} {l : Ledger}
    (h : f s.working.ledger = .ok (a, l)) :
    onLedger torn f s = (.ok a, { s with working := { s.working with ledger := l } }) :=
  Work.stmt_ok (by simp only [h]; rfl)

theorem onLedger_error {α : Type} {torn : Database → Database}
    {f : Ledger → Except SvcError (α × Ledger)} {s : Session Database} {e : SvcError}
    (h : f s.working.ledger = .error e) :
    onLedger torn f s = (.error (.svc e), { s with working := torn s.working }) :=
  Work.stmt_error (by simp only [h]; rfl)

def getScheduleOccurrence (d : Database) (schedule_id : ℕ) (day : ℤ) : Option Occurrence :=
  d.occurrences.find? fun o => decide (o.key = (schedule_id, day))

/-- The database with one more occurrence. -/
@[simps] def withOccurrence (d : Database) (o : Occurrence)
    (h : o.key ∉ d.occurrences.map Occurrence.key) : Database where
  __ := d
  occurrences := d.occurrences ++ [o]
  occurrences_unique := Occurrence.nodup_append d.occurrences_unique h

/-- `INSERT INTO schedule_occurrences`. -/
def insertScheduleOccurrence (schedule_id : ℕ) (day : ℤ) (transaction_id : ℕ) :
    Work Database CallError Unit :=
  .stmt fun d =>
    if h : (schedule_id, day) ∈ d.occurrences.map Occurrence.key then .error .occurrenceExists
    else .ok ((), d.withOccurrence ⟨schedule_id, day, transaction_id⟩ h)

/-- The database with a transaction generated for a date of a schedule. -/
@[simps] def withGenerated (d : Database) (schedule_id : ℕ) (day : ℤ) (row : Transaction) : Database where
  __ := d
  ledger := d.ledger.insertTransaction row
  made := d.made ++ [⟨schedule_id, day, d.ledger.transactions.next⟩]
  occurrences_unique := d.occurrences_unique

/-- The database with the three columns of an investment updated. -/
@[simps] def withInvestmentFields (d : Database) (tx_id : ℕ) (body : TransactionCreate) : Database where
  __ := d
  ledger := d.ledger.modifyTransaction tx_id fun t =>
    { t with
      quantity := body.quantity
      unitPrice := body.unitPrice
      totalValue := body.totalValue }
  occurrences_unique := d.occurrences_unique

end Database

namespace Scheduler

/-- Days since 1970-01-01. -/
def dayNumber (d : Date) : ℤ := d.ordinal - 719163

/-! ## A generated transaction -/

def catchupTag (schedule_id : ℕ) : String := s!"[schedule:{schedule_id}]"

/-- The columns a schedule cannot fire without, while its entity is alive. -/
def embeddedFields (d : Database) (sch : ScheduleRow) : Option (TransactionType × ℕ × Currency) :=
  if sch.entityId.isSome ∧ (sch.entityId.bind d.ledger.getEntity).isNone then none
  else
    match sch.type, sch.entityId, sch.currency with
    | some type_, some entity_id, some currency => some (type_, entity_id, currency)
    | _, _, _ => none

/-- Midnight of an occurrence date, as the UTC instant its transaction is stamped with. -/
def occurrenceTs (server : Server) (day : ℤ) : Timestamp :=
  server.tokyo.profileDateToUtcInstant day false

/-- The row a schedule generates for an occurrence date. -/
def generatedRow (server : Server) (l : Ledger) (schedule_id : ℕ) (sch : ScheduleRow)
    (type_ : TransactionType) (entity_id : ℕ) (currency : Currency) (day : ℤ) : Transaction where
  timestamp := occurrenceTs server day
  type := type_
  entityId := entity_id
  currency := currency
  totalValue := sch.totalValue
  notes :=
    match sch.notes with
    | some base => if base = "" then some (catchupTag schedule_id)
      else some (base ++ " " ++ catchupTag schedule_id)
    | none => some (catchupTag schedule_id)
  incomeCategory := sch.incomeCategory
  investmentTransactionCategory := if type_ = .investmentBuy then some .dca else none
  portfolioAssetId := sch.portfolioAssetId
  fiscalRule := l.fiscalRuleFor type_ (occurrenceTs server day)

/-- `q.create_transaction`, as a schedule's writer calls it for one of its dates. -/
def createGenerated (schedule_id : ℕ) (day : ℤ) (row : Transaction) : Work Database CallError ℕ :=
  .write fun d => (d.ledger.transactions.next, d.withGenerated schedule_id day row)

/-- The body `_resolve_investment_fields` is given: the row as it was stored. -/
def storedBody (row : Transaction) : TransactionCreate where
  timestamp := row.timestamp
  type := row.type
  entityId := row.entityId
  portfolioAssetId := row.portfolioAssetId
  quantity := row.quantity
  unitPrice := row.unitPrice
  totalValue := row.totalValue
  currency := row.currency

/-- The body to update a generated row from, where there is anything to update. -/
def investmentFields (row : Transaction) : Option TransactionCreate :=
  if row.portfolioAssetId.isSome ∧ (row.type = .investmentBuy ∨ row.type = .investmentSell) then
    let body := (storedBody row).resolveInvestmentFields
    if body.quantity.isSome ∨ body.unitPrice.isSome then some body else none
  else none

/-- `UPDATE transactions SET quantity = ?, unit_price = ?, total_value = ? WHERE id = ?`. -/
def updateInvestmentFields (tx_id : ℕ) (body : TransactionCreate) : Work Database CallError Unit :=
  .write fun d => ((), d.withInvestmentFields tx_id body)

/-! ## Missed dates -/

/-- The quantity of an investment, committed at once. -/
def fillAndCommit (tx_id : ℕ) (row : Transaction) : Work Database CallError Unit :=
  match investmentFields row with
  | some body => do
    updateInvestmentFields tx_id body
    Work.commit
  | none => pure ()

/-- One missed date. -/
def createCatchupTx (server : Server) (schedule_id : ℕ) (sch : ScheduleRow) (fire_date : Date) :
    Work Database CallError (Option ℕ) := do
  let day := dayNumber fire_date
  match ← Work.read fun d => d.getScheduleOccurrence schedule_id day with
  | some _ => pure none
  | none =>
    match ← Work.read fun d => embeddedFields d sch with
    | none => pure none
    | some (type_, entity_id, currency) =>
      let row ← Work.read fun d =>
        generatedRow server d.ledger schedule_id sch type_ entity_id currency day
      let tx_id ← createGenerated schedule_id day row
      fillAndCommit tx_id row
      Database.insertScheduleOccurrence schedule_id day tx_id
      pure (some tx_id)

/-- `_recalculate_adjustments` from the bare midnight of a fire date; what it raises is logged. -/
def recalculateQuietly (entity_id : ℕ) (currency : Currency) (fire_date : Date) :
    Work Database CallError Unit :=
  .tryExcept
    (Database.onLedger id fun l =>
      (l.recalculateAdjustments entity_id currency (Time.startOfDay (dayNumber fire_date))).map
        fun l => ((), l))
    fun _ => pure ()

/-- One pass of the loop of a catch-up, which counts what it creates. -/
def catchUpDate (server : Server) (schedule_id : ℕ) (sch : ScheduleRow) (total : ℕ)
    (fire_date : Date) : Work Database CallError ℕ := do
  match ← createCatchupTx server schedule_id sch fire_date with
  | none => pure total
  | some _ =>
    match sch.entityId, sch.currency with
    | some entity_id, some currency => recalculateQuietly entity_id currency fire_date
    | _, _ => pure ()
    pure (total + 1)

def catchUpDates (server : Server) (schedule_id : ℕ) (sch : ScheduleRow) (since : Date) (total : ℕ) :
    Work Database CallError ℕ :=
  (computeFireDates sch since server.utcToday).foldlM (catchUpDate server schedule_id sch) total

/-- `if total > 0: conn.commit()`. -/
def commitIfAny (total : ℕ) : Work Database CallError Unit :=
  if 0 < total then .commit else pure ()

/-- Where the catch-up of a schedule starts: the last shutdown, when that is before its start. -/
def catchUpSince (last_shutdown : Option Date) (sch : ScheduleRow) : Date :=
  match last_shutdown with
  | some since_date => min since_date sch.startDate
  | none => sch.startDate

/-- A schedule in the loop of `catchUpMissedFires`. -/
def catchUpRow (server : Server) (last_shutdown : Option Date) (total : ℕ) (r : ℕ × ScheduleRow) :
    Work Database CallError ℕ :=
  catchUpDates server r.1 r.2 (catchUpSince last_shutdown r.2) total

/-- Without a recorded shutdown there is nothing to catch up while every schedule starts later. -/
def nothingMissed (server : Server) (last_shutdown : Option Date) (schedules : Table ScheduleRow) :
    Bool :=
  match last_shutdown, (schedules.rows.map fun r => r.2.startDate).min? with
  | some _, _ => false
  | none, some earliest => decide (server.utcToday ≤ earliest)
  | none, none => true

def catchUpMissedFires (server : Server) : Work Database CallError Unit :=
  .tryExcept
    (do
      let last_shutdown ← Work.read Database.lastShutdown
      let schedules ← Work.read Database.schedules
      if nothingMissed server last_shutdown schedules then pure ()
      else
        let total_created ← schedules.rows.foldlM (catchUpRow server last_shutdown) 0
        commitIfAny total_created)
    fun _ => .rollback

def catchUpSingleSchedule (server : Server) (schedule_id : ℕ) : Work Database CallError Unit :=
  .tryExcept
    (do
      match ← Work.read fun d => d.schedules.get? schedule_id with
      | none => pure ()
      | some sch =>
        if server.utcToday ≤ sch.startDate then pure ()
        else
          let total ← catchUpDates server schedule_id sch sch.startDate 0
          commitIfAny total)
    fun _ => .rollback

theorem catchUpSingleSchedule_returns (server : Server) (schedule_id : ℕ) (s : Session Database) :
    ∃ s', catchUpSingleSchedule server schedule_id s = (.ok (), s') := Work.tryExcept_rollback _ s

/-! ## Live fires -/

/-- `date.today() > end_date`; the job is removed then. -/
def pastEnd (server : Server) (sch : ScheduleRow) : Bool :=
  match sch.endDate with
  | some end_ => decide (end_ < server.today)
  | none => false

/-- The date a live fire materializes. -/
def occurrenceDate (server : Server) : ℤ := server.tokyo.utcInstantToProfileDate server.now

/-- The quantity of an investment, left to the commit of the fire. -/
def fill (tx_id : ℕ) (row : Transaction) : Work Database CallError Unit :=
  match investmentFields row with
  | some body => updateInvestmentFields tx_id body
  | none => pure ()

/-- What a live fire does inside its `try`. -/
def cloneBody (server : Server) (schedule_id : ℕ) : Work Database CallError (Option ℕ) := do
  match ← Work.read fun d => d.schedules.get? schedule_id with
  | none => pure none
  | some sch =>
    if pastEnd server sch then pure none
    else
      match ← Work.read fun d => embeddedFields d sch with
      | none => pure none
      | some (type_, entity_id, currency) =>
        let day := occurrenceDate server
        let row ← Work.read fun d =>
          generatedRow server d.ledger schedule_id sch type_ entity_id currency day
        let tx_id ← createGenerated schedule_id day row
        Database.insertScheduleOccurrence schedule_id day tx_id
        fill tx_id row
        Work.commit
        pure (some tx_id)

def cloneTx (server : Server) (schedule_id : ℕ) : Work Database CallError (Option ℕ) :=
  .orRollback (cloneBody server schedule_id)

/-- What a fire raises is logged. -/
def executeSchedule (server : Server) (schedule_id : ℕ) : Work Database CallError Unit :=
  .tryExcept (do let _ ← cloneTx server schedule_id; pure ()) fun _ => pure ()

theorem executeSchedule_ok {server : Server} {schedule_id : ℕ} {s s' : Session Database}
    {r : Option ℕ} (h : cloneTx server schedule_id s = (.ok r, s')) :
    executeSchedule server schedule_id s = (.ok (), s') :=
  Work.tryExcept_ok ((Work.bind_ok h).trans (Work.pure_apply _ _))

theorem executeSchedule_error {server : Server} {schedule_id : ℕ} {s s' : Session Database}
    {e : CallError} (h : cloneTx server schedule_id s = (.error e, s')) :
    executeSchedule server schedule_id s = (.ok (), s') :=
  Work.tryExcept_error (Work.bind_error h)

/-- `_save_shutdown_timestamp`. -/
def saveShutdownTimestamp (server : Server) : Work Database CallError Unit := do
  Work.write fun d => ((), { d with lastShutdown := some server.utcToday })
  Work.commit

/-! ## What a writer can do -/

theorem key_fresh {d : Database} {schedule_id : ℕ} {day : ℤ} (tx_id : ℕ)
    (h : d.getScheduleOccurrence schedule_id day = none) :
    (⟨schedule_id, day, tx_id⟩ : Occurrence).key ∉ d.occurrences.map Occurrence.key := by
  intro hk
  obtain ⟨o, ho, hkey⟩ := List.mem_map.mp hk
  exact absurd (decide_eq_true hkey) (List.find?_eq_none.mp h o ho)

theorem insertScheduleOccurrence_of_fresh {s : Session Database} {d : Database} {o : Occurrence}
    (hd : s.working = d) (h : o.key ∉ d.occurrences.map Occurrence.key) :
    Database.insertScheduleOccurrence o.scheduleId o.occurrenceDate o.transactionId s =
      (.ok (), { s with working := d.withOccurrence o h }) := by
  subst hd
  exact Work.stmt_ok (dif_neg h)

theorem insertScheduleOccurrence_of_recorded {s : Session Database} {schedule_id : ℕ} {day : ℤ}
    (tx_id : ℕ) (h : (schedule_id, day) ∈ s.working.occurrences.map Occurrence.key) :
    Database.insertScheduleOccurrence schedule_id day tx_id s = (.error .occurrenceExists, s) :=
  Work.stmt_error (dif_pos h)

theorem createGenerated_bind {α : Type} (schedule_id : ℕ) (day : ℤ) (row : Transaction)
    (f : ℕ → Work Database CallError α) (s : Session Database) :
    (createGenerated schedule_id day row >>= f) s = f s.working.ledger.transactions.next
      { s with working := s.working.withGenerated schedule_id day row } := rfl

/-- A generated row, completed where it is an investment. -/
def completed (d : Database) (tx_id : ℕ) (row : Transaction) : Database :=
  match investmentFields row with
  | some body => d.withInvestmentFields tx_id body
  | none => d

@[simp] theorem completed_occurrences (d : Database) (tx_id : ℕ) (row : Transaction) :
    (completed d tx_id row).occurrences = d.occurrences := by
  unfold completed
  split <;> rfl

@[simp] theorem completed_schedules (d : Database) (tx_id : ℕ) (row : Transaction) :
    (completed d tx_id row).schedules = d.schedules := by
  unfold completed
  split <;> rfl

@[simp] theorem completed_made (d : Database) (tx_id : ℕ) (row : Transaction) :
    (completed d tx_id row).made = d.made := by
  unfold completed
  split <;> rfl

/-- The session after `d` is the working copy, which an investment commits. -/
def afterFill (s : Session Database) (row : Transaction) (d : Database) : Session Database :=
  if (investmentFields row).isSome then .clean d (d :: s.history) else { s with working := d }

theorem fillAndCommit_apply (tx_id : ℕ) (row : Transaction) (s : Session Database) :
    fillAndCommit tx_id row s = (.ok (), afterFill s row (completed s.working tx_id row)) := by
  unfold fillAndCommit afterFill completed
  cases investmentFields row <;> rfl

/-- The date has an occurrence, or the schedule cannot fire. -/
def Skips (d : Database) (schedule_id : ℕ) (sch : ScheduleRow) (fire_date : Date) : Prop :=
  (schedule_id, dayNumber fire_date) ∈ d.occurrences.map Occurrence.key ∨ embeddedFields d sch = none

theorem mem_keys_of_getScheduleOccurrence {d : Database} {schedule_id : ℕ} {day : ℤ} {o : Occurrence}
    (h : d.getScheduleOccurrence schedule_id day = some o) :
    (schedule_id, day) ∈ d.occurrences.map Occurrence.key := by
  unfold Database.getScheduleOccurrence at h
  have hkey : o.key = (schedule_id, day) := by simpa using List.find?_some h
  exact hkey ▸ List.mem_map_of_mem (List.mem_of_find?_eq_some h)

/-- A missed date is skipped, or its transaction is written and then its occurrence. -/
theorem createCatchupTx_cases (server : Server) (schedule_id : ℕ) (sch : ScheduleRow)
    (fire_date : Date) (s : Session Database) :
    Skips s.working schedule_id sch fire_date ∧
      createCatchupTx server schedule_id sch fire_date s = (.ok none, s) ∨
    ∃ type_ entity_id currency,
      embeddedFields s.working sch = some (type_, entity_id, currency) ∧
      let day := dayNumber fire_date
      let row := generatedRow server s.working.ledger schedule_id sch type_ entity_id currency day
      let tx_id := s.working.ledger.transactions.next
      let d := completed (s.working.withGenerated schedule_id day row) tx_id row
      ∃ h : (⟨schedule_id, day, tx_id⟩ : Occurrence).key ∉ d.occurrences.map Occurrence.key,
        createCatchupTx server schedule_id sch fire_date s =
          (.ok (some tx_id), { afterFill s row d with working := d.withOccurrence _ h }) := by
  cases hocc : s.working.getScheduleOccurrence schedule_id (dayNumber fire_date) with
  | some o =>
    refine .inl ⟨.inl (mem_keys_of_getScheduleOccurrence hocc), ?_⟩
    simp only [createCatchupTx, Work.read_bind, hocc, Work.pure_apply]
  | none =>
    cases hfields : embeddedFields s.working sch with
    | none =>
      refine .inl ⟨.inr hfields, ?_⟩
      simp only [createCatchupTx, Work.read_bind, hocc, hfields, Work.pure_apply]
    | some r =>
      obtain ⟨type_, entity_id, currency⟩ := r
      right
      refine ⟨type_, entity_id, currency, rfl, ?_⟩
      intro day row tx_id d
      have hfresh : (⟨schedule_id, day, tx_id⟩ : Occurrence).key ∉
          d.occurrences.map Occurrence.key := by
        simp only [d, completed_occurrences]
        exact key_fresh tx_id hocc
      have hwork : (afterFill { s with working := s.working.withGenerated schedule_id day row } row
          d).working = d := by
        unfold afterFill
        split <;> rfl
      refine ⟨hfresh, ?_⟩
      have hcall : createCatchupTx server schedule_id sch fire_date s =
          (createGenerated schedule_id day row >>= fun tx_id => fillAndCommit tx_id row >>= fun _ =>
            Database.insertScheduleOccurrence schedule_id day tx_id >>= fun _ =>
              pure (some tx_id)) s := by
        simp only [createCatchupTx, Work.read_bind, hocc, hfields]
        rfl
      have hinsert := insertScheduleOccurrence_of_fresh (s := afterFill
        { s with working := s.working.withGenerated schedule_id day row } row d) hwork hfresh
      rw [hcall]
      refine (Work.bind_ok (fillAndCommit_apply tx_id row
        { s with working := s.working.withGenerated schedule_id day row })).trans ?_
      exact (Work.bind_ok hinsert).trans (Work.pure_apply _ _)

theorem embeddedFields_eq_some {d : Database} {sch : ScheduleRow} {type_ : TransactionType}
    {entity_id : ℕ} {currency : Currency} (h : embeddedFields d sch = some (type_, entity_id, currency)) :
    sch.type = some type_ ∧ sch.entityId = some entity_id ∧ sch.currency = some currency := by
  unfold embeddedFields at h
  split_ifs at h
  split at h
  · rename_i ht he hc
    cases h
    exact ⟨ht, he, hc⟩
  · cases h

/-- The ledger after a recalculation whose errors are only logged. -/
def recalculated (l : Ledger) (entity_id : ℕ) (currency : Currency) (fire_date : Date) : Ledger :=
  match l.recalculateAdjustments entity_id currency (Time.startOfDay (dayNumber fire_date)) with
  | .ok l' => l'
  | .error _ => l

theorem recalculateQuietly_apply (entity_id : ℕ) (currency : Currency) (fire_date : Date)
    (s : Session Database) :
    recalculateQuietly entity_id currency fire_date s =
      (.ok (), { s with
        working := { s.working with
          ledger := recalculated s.working.ledger entity_id currency fire_date } }) := by
  unfold recalculateQuietly recalculated
  cases hr : s.working.ledger.recalculateAdjustments entity_id currency
    (Time.startOfDay (dayNumber fire_date)) with
  | ok l => exact Work.tryExcept_ok (Database.onLedger_ok (by rw [hr]; rfl))
  | error e => exact Work.tryExcept_error (Database.onLedger_error (by rw [hr]; rfl))

/-- A pass of a catch-up skips its date, or writes the transaction, its occurrence and the
adjustments after it. -/
theorem catchUpDate_cases (server : Server) (schedule_id : ℕ) (sch : ScheduleRow) (total : ℕ)
    (fire_date : Date) (s : Session Database) :
    Skips s.working schedule_id sch fire_date ∧
      catchUpDate server schedule_id sch total fire_date s = (.ok total, s) ∨
    ∃ type_ entity_id currency,
      embeddedFields s.working sch = some (type_, entity_id, currency) ∧
      let day := dayNumber fire_date
      let row := generatedRow server s.working.ledger schedule_id sch type_ entity_id currency day
      let tx_id := s.working.ledger.transactions.next
      let d := completed (s.working.withGenerated schedule_id day row) tx_id row
      ∃ h : (⟨schedule_id, day, tx_id⟩ : Occurrence).key ∉ d.occurrences.map Occurrence.key,
        catchUpDate server schedule_id sch total fire_date s =
          (.ok (total + 1), { afterFill s row d with
            working := { d.withOccurrence _ h with
              ledger := recalculated d.ledger entity_id currency fire_date } }) := by
  rcases createCatchupTx_cases server schedule_id sch fire_date s with
    ⟨hskips, hskip⟩ | ⟨type_, entity_id, currency, hfields, h, hcall⟩
  · exact .inl ⟨hskips, Work.bind_ok hskip⟩
  · obtain ⟨-, he, hc⟩ := embeddedFields_eq_some hfields
    refine .inr ⟨type_, entity_id, currency, hfields, h, (Work.bind_ok hcall).trans ?_⟩
    simp only [he, hc]
    exact Work.bind_ok (recalculateQuietly_apply _ _ _ _)

theorem fill_apply (tx_id : ℕ) (row : Transaction) (s : Session Database) :
    fill tx_id row s = (.ok (), { s with working := completed s.working tx_id row }) := by
  unfold fill completed
  cases investmentFields row <;> rfl

/-- A live fire is skipped, or finds its occurrence recorded, or writes both and commits them. -/
theorem cloneTx_cases (server : Server) (schedule_id : ℕ) (s : Session Database) :
    cloneTx server schedule_id s = (.ok none, s) ∨
    cloneTx server schedule_id s = (.error .occurrenceExists, { s with working := s.committed }) ∨
    ∃ sch type_ entity_id currency, s.working.schedules.get? schedule_id = some sch ∧
      pastEnd server sch = false ∧
      embeddedFields s.working sch = some (type_, entity_id, currency) ∧
      let day := occurrenceDate server
      let row := generatedRow server s.working.ledger schedule_id sch type_ entity_id currency day
      let tx_id := s.working.ledger.transactions.next
      ∃ h : (⟨schedule_id, day, tx_id⟩ : Occurrence).key ∉ s.working.occurrences.map Occurrence.key,
        let d := completed ((s.working.withGenerated schedule_id day row).withOccurrence
          ⟨schedule_id, day, tx_id⟩ h) tx_id row
        cloneTx server schedule_id s = (.ok (some tx_id), .clean d (d :: s.history)) := by
  cases hsch : s.working.schedules.get? schedule_id with
  | none =>
    have hbody : cloneBody server schedule_id s = (.ok none, s) := by
      simp only [cloneBody, Work.read_bind, hsch, Work.pure_apply]
    exact .inl (Work.orRollback_ok hbody)
  | some sch =>
    by_cases hpast : pastEnd server sch = true
    · have hbody : cloneBody server schedule_id s = (.ok none, s) := by
        simp only [cloneBody, Work.read_bind, hsch, if_pos hpast, Work.pure_apply]
      exact .inl (Work.orRollback_ok hbody)
    cases hfields : embeddedFields s.working sch with
    | none =>
      have hbody : cloneBody server schedule_id s = (.ok none, s) := by
        simp only [cloneBody, Work.read_bind, hsch, if_neg hpast, hfields, Work.pure_apply]
      exact .inl (Work.orRollback_ok hbody)
    | some r =>
      obtain ⟨type_, entity_id, currency⟩ := r
      refine .inr ?_
      by_cases h : (schedule_id, occurrenceDate server) ∈ s.working.occurrences.map Occurrence.key
      · have hbody : cloneBody server schedule_id s = (.error .occurrenceExists,
            { s with
              working := s.working.withGenerated schedule_id (occurrenceDate server)
                (generatedRow server s.working.ledger schedule_id sch type_ entity_id currency
                  (occurrenceDate server)) }) := by
          simp only [cloneBody, Work.read_bind, hsch, if_neg hpast, hfields, createGenerated_bind]
          exact Work.bind_error (insertScheduleOccurrence_of_recorded _ h)
        have hrolled := Work.orRollback_error hbody
        exact .inl hrolled
      · refine .inr ⟨sch, type_, entity_id, currency, rfl, Bool.eq_false_iff.mpr hpast, hfields, h, ?_⟩
        refine Work.orRollback_ok ?_
        simp only [cloneBody, Work.read_bind, hsch, if_neg hpast, hfields, createGenerated_bind]
        have hinsert := insertScheduleOccurrence_of_fresh
          (o := ⟨schedule_id, occurrenceDate server, s.working.ledger.transactions.next⟩)
          (s := { s with
            working := s.working.withGenerated schedule_id (occurrenceDate server)
              (generatedRow server s.working.ledger schedule_id sch type_ entity_id currency
                (occurrenceDate server)) }) rfl h
        exact (Work.bind_ok hinsert).trans (Work.bind_ok (fill_apply _ _ _))

end Scheduler

/-! ## A sample server -/

namespace Sample

/-- Nine hours ahead of UTC all year. -/
def tokyo : TimeZone := ⟨fun _ => 9 * 3600 * Time.ticksPerSecond, fun _ => 9 * 3600 * Time.ticksPerSecond⟩

/-- A server running in UTC, at some hour of a date. -/
def serverOn (today : Date) (hour : ℤ) : Server where
  now := at_ (Scheduler.dayNumber today) hour
  utcToday := today
  today := today
  tokyo := tokyo
  fromCrontab := fun _ => none
  torn := id

/-- The sample profile without schedules. -/
def database : Database where
  ledger := profile
  schedules := .empty
  occurrences := []
  lastShutdown := none
  made := []
  occurrences_unique := List.nodup_nil

end Sample

end FinHub
