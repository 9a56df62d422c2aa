import FinHub.Composites.CompositeSvc

/-!
# FinHub.Composites.Atomicity

What a composite request that raises leaves behind.

The transaction composites commit last, so they leave nothing. The schedule services commit the row
and then parse its trigger: a custom expression that is refused raises after the commit, and the row
stays. `CompositeRequest.LeavesRow` says exactly when.
-/

namespace FinHub

open Calendar Tabular Db Work

/-! ## The transaction composites -/

theorem uncommitted_onLedger {α : Type} (torn : Database → Database)
    (f : Ledger → Except SvcError (α × Ledger)) : Uncommitted (Database.onLedger torn f) :=
  .stmt _ _

variable (torn : Database → Database)

theorem uncommitted_createFeesOn (transaction_id : ℕ) (fees : List TransactionFeeInner) :
    Uncommitted (createFeesOn torn transaction_id fees) :=
  .mapM fun _ _ => uncommitted_onLedger torn _

theorem uncommitted_createTaxesOn (transaction_id : ℕ) (taxes : List TransactionTaxInner) :
    Uncommitted (createTaxesOn torn transaction_id taxes) :=
  .mapM fun _ _ => uncommitted_onLedger torn _

theorem TransactionFullSvc.create_atomic (body : FullTransactionCreate) :
    Atomic (TransactionFullSvc.create torn body) := by
  refine atomic_commit_last ?_
  refine .bind (uncommitted_onLedger torn _) fun tx => ?_
  refine .bind (uncommitted_createFeesOn torn _ _) fun fees => ?_
  exact .bind (uncommitted_createTaxesOn torn _ _) fun taxes => .pure _

theorem TransactionFullSvc.updateFull_atomic (tx_id : ℕ) (body : FullTransactionCreate) :
    Atomic (TransactionFullSvc.updateFull torn tx_id body) := by
  refine atomic_commit_last ?_
  refine .bind (uncommitted_onLedger torn _) fun tx => ?_
  refine .bind (.write _) fun _ => .bind (.write _) fun _ => ?_
  refine .bind (uncommitted_createFeesOn torn _ _) fun fees => ?_
  refine .bind (uncommitted_createTaxesOn torn _ _) fun taxes => ?_
  exact .bind (uncommitted_onLedger torn _) fun _ => .pure _

theorem TransactionBatchSvc.create_atomic (bodies : List TransactionCreate) :
    Atomic (TransactionBatchSvc.create torn bodies) :=
  atomic_commit_last (.mapM fun _ _ => uncommitted_onLedger torn _)

theorem TransferSvc.create_atomic (body : TransferCreate) : Atomic (TransferSvc.create torn body) := by
  refine atomic_commit_last ?_
  have hchecks : Uncommitted (TransferSvc.checkFks body) := by
    refine .bind (.read _) fun e => ?_
    cases e with
    | none => exact .pure _
    | some e => exact .raise e
  refine .bind hchecks fun _ => ?_
  refine .bind (uncommitted_onLedger torn _) fun out_tx => ?_
  refine .bind (uncommitted_onLedger torn _) fun in_tx => ?_
  exact .bind (uncommitted_createFeesOn torn _ _) fun fees => .pure _

/-! ## Schedules -/

variable (server : Server) (body : ScheduleRow) {d : Database} {s : Session Database}

/-- A custom expression the trigger parser refuses. -/
def CronRefused : Prop :=
  body.periodicityType = .custom ∧
    ∃ cron, body.customCron = some cron ∧ cron ≠ "" ∧ server.fromCrontab cron = none

variable {server body}

theorem makeTrigger_ok_of_accepted (h : ¬ CronRefused server body) :
    ∃ t, Scheduler.makeTrigger server.fromCrontab body server.today = .ok t := by
  unfold Scheduler.makeTrigger
  cases hp : body.periodicityType with
  | oneOff => simp only; split_ifs <;> exact ⟨_, rfl⟩
  | custom =>
    simp only
    cases hc : body.customCron with
    | none => exact ⟨none, rfl⟩
    | some cron =>
      simp only
      split_ifs with hempty
      · exact ⟨none, rfl⟩
      · cases hf : server.fromCrontab cron with
        | none => exact absurd ⟨hp, cron, hc, hempty, hf⟩ h
        | some fires => exact ⟨_, rfl⟩
  | daily | weekly | monthly | quarterly | annually => exact ⟨_, rfl⟩

theorem makeTrigger_error_of_refused (h : CronRefused server body) :
    ∃ e, Scheduler.makeTrigger server.fromCrontab body server.today = .error e := by
  obtain ⟨hp, cron, hc, hne, hf⟩ := h
  refine ⟨.valueError cron, ?_⟩
  simp only [Scheduler.makeTrigger, hp, hc, hf, if_neg hne]

namespace ScheduleSvc

theorem syncSchedule_of_accepted {id : ℕ} (hget : s.committed.schedules.get? id = some body)
    (h : ¬ CronRefused server body) : syncSchedule server id s = (.ok (), s) := by
  obtain ⟨t, ht⟩ := makeTrigger_ok_of_accepted h
  simp only [syncSchedule, readCommitted_bind, hget, ht, pure_apply]

theorem syncSchedule_of_refused {id : ℕ} (hget : s.committed.schedules.get? id = some body)
    (h : CronRefused server body) : ∃ e, syncSchedule server id s = (.error e, s) := by
  obtain ⟨e, he⟩ := makeTrigger_error_of_refused h
  exact ⟨.trigger e, by simp only [syncSchedule, readCommitted_bind, hget, he, raise_apply]⟩

theorem checkFks_ok (h : fkError s.working body = none) : checkFks body s = (.ok (), s) := by
  simp only [checkFks, read_bind, h, pure_apply]

theorem checkFks_error {e : CallError} (h : fkError s.working body = some e) :
    checkFks body s = (.error e, s) := by
  simp only [checkFks, read_bind, h, raise_apply]

/-- The database with the row of a new schedule. -/
def withSchedule (d : Database) (body : ScheduleRow) (tx : Option ℕ) : Database :=
  { d with
    schedules := d.schedules.insert body
    made := d.made ++ (tx.map fun tx_id =>
      ⟨d.schedules.next, Scheduler.dayNumber body.startDate, tx_id⟩).toList }

theorem withSchedule_ne (d d' : Database) (hd : d'.schedules = d.schedules) (tx : Option ℕ) :
    withSchedule d' body tx ≠ d := by
  intro h
  have hnext : (d'.schedules.insert body).next = d.schedules.next := congrArg (·.schedules.next) h
  rw [hd, Table.insert_next] at hnext
  omega

/-- The session right after the row of a new schedule is committed. -/
def afterInsert (d : Database) (body : ScheduleRow) (tx : Option ℕ) : Session Database :=
  .clean (withSchedule d body tx) [withSchedule d body tx]

theorem get?_afterInsert (d : Database) (body : ScheduleRow) (tx : Option ℕ) :
    (afterInsert d body tx).committed.schedules.get? d.schedules.next = some body :=
  d.schedules.get?_insert_self body

theorem create_atomicAt_iff (d : Database) :
    AtomicAt (create server body) d ↔ ¬ (CronRefused server body ∧ fkError d body = none) := by
  cases hfk : fkError d body with
  | some e =>
    have hcall : create server body (.ofDb d) = (.error e, .ofDb d) :=
      bind_error (checkFks_error hfk)
    rw [atomicAt_of_error hcall]
    simp [Session.ofDb, Session.clean]
  | none =>
    -- What runs once the row is committed.
    have hcall : create server body (.ofDb d) = (do
        syncSchedule server d.schedules.next
        Work.onOwnConnection (Scheduler.catchUpSingleSchedule server d.schedules.next)
        pure ⟨d.schedules.next, { body with portfolioAssetId := none }⟩ :
          Work Database CallError ScheduleResponse) (afterInsert d body none) :=
      bind_ok (checkFks_ok hfk)
    have hget := get?_afterInsert d body none
    by_cases hcron : CronRefused server body
    · obtain ⟨e, he⟩ := syncSchedule_of_refused hget hcron
      rw [atomicAt_of_error (hcall.trans (bind_error he))]
      simp [hcron, afterInsert, Session.clean, withSchedule_ne]
    · have hsync := syncSchedule_of_accepted hget hcron
      obtain ⟨s', hs'⟩ := Scheduler.catchUpSingleSchedule_returns server d.schedules.next
        (.clean (afterInsert d body none).committed (afterInsert d body none).history)
      have hcatch : (do
          Work.onOwnConnection (Scheduler.catchUpSingleSchedule server d.schedules.next)
          pure ⟨d.schedules.next, { body with portfolioAssetId := none }⟩ :
            Work Database CallError ScheduleResponse) (afterInsert d body none) = (.ok _, _) :=
        bind_ok (onOwnConnection_ok hs')
      simp [hcron, atomicAt_of_ok (hcall.trans ((bind_ok hsync).trans hcatch))]

/-- The database with an edited schedule row. -/
def withEdit (d : Database) (schedule_id : ℕ) (body : ScheduleRow) : Database :=
  { d with schedules := d.schedules.modify schedule_id fun _ => body }

/-- The session right after an edited row is committed. -/
def afterEdit (d : Database) (schedule_id : ℕ) (body : ScheduleRow) : Session Database :=
  .clean (withEdit d schedule_id body) [withEdit d schedule_id body]

theorem get?_afterEdit (body : ScheduleRow) {schedule_id : ℕ} {old : ScheduleRow}
    (hold : d.schedules.get? schedule_id = some old) :
    (afterEdit d schedule_id body).committed.schedules.get? schedule_id = some body :=
  (Table.get?_eq_some_iff _).mpr
    (Table.mem_modify.mpr (.inr ⟨rfl, old, (Table.get?_eq_some_iff _).mp hold, rfl⟩))

/-- An edit that changes nothing writes what was there. -/
theorem withEdit_eq_iff {schedule_id : ℕ} {old : ScheduleRow}
    (hold : d.schedules.get? schedule_id = some old) :
    withEdit d schedule_id body = d ↔ old = body := by
  constructor
  · intro h
    have hbody : (withEdit d schedule_id body).schedules.get? schedule_id = some body :=
      get?_afterEdit body hold
    rw [h, hold] at hbody
    exact Option.some_inj.mp hbody
  · rintro rfl
    have hself : (d.schedules.modify schedule_id fun _ => old) = d.schedules :=
      d.schedules.modify_eq_self fun a ha =>
        d.schedules.unique ((Table.get?_eq_some_iff _).mp hold) ha
    rw [withEdit, hself]

theorem update_atomicAt_iff (schedule_id : ℕ) (d : Database) :
    AtomicAt (update server schedule_id body) d ↔
      ¬ (CronRefused server body ∧ fkError d body = none ∧
        ∃ old, d.schedules.get? schedule_id = some old ∧ old ≠ body) := by
  cases hold : d.schedules.get? schedule_id with
  | none =>
    have hcall : update server schedule_id body (.ofDb d) =
        (.error (.scheduleNotFound schedule_id), .ofDb d) := by
      simp only [update, read_bind, Session.ofDb, Session.clean, hold, raise_apply]
    rw [atomicAt_of_error hcall]
    simp [Session.ofDb, Session.clean]
  | some old =>
    have hread : update server schedule_id body (.ofDb d) = (do
        checkFks body
        Work.write fun d => ((), withEdit d schedule_id body)
        Work.commit
        syncSchedule server schedule_id
        pure ⟨schedule_id, body⟩ : Work Database CallError ScheduleResponse) (.ofDb d) := by
      simp only [update, read_bind, Session.ofDb, Session.clean, hold]
      rfl
    cases hfk : fkError d body with
    | some e =>
      rw [atomicAt_of_error (hread.trans (bind_error (checkFks_error hfk)))]
      simp [Session.ofDb, Session.clean]
    | none =>
      have hcall : update server schedule_id body (.ofDb d) = (do
          syncSchedule server schedule_id
          pure ⟨schedule_id, body⟩ : Work Database CallError ScheduleResponse)
          (afterEdit d schedule_id body) :=
        hread.trans (bind_ok (checkFks_ok hfk))
      have hget := get?_afterEdit body hold
      by_cases hcron : CronRefused server body
      · obtain ⟨e, he⟩ := syncSchedule_of_refused hget hcron
        rw [atomicAt_of_error (hcall.trans (bind_error he))]
        simp [hcron, afterEdit, Session.clean, withEdit_eq_iff hold]
      · have hsync := syncSchedule_of_accepted hget hcron
        simp [hcron, atomicAt_of_ok (hcall.trans (bind_ok hsync))]

end ScheduleSvc

/-! ## Full schedules -/

namespace ScheduleFullSvc

open ScheduleSvc

/-- The request gets as far as the row of the schedule. -/
def Inserts (server : Server) (body : ScheduleRow) (d : Database) : Prop :=
  ∃ entity_id currency type_, body.entityId = some entity_id ∧ body.currency = some currency ∧
    body.type = some type_ ∧ (body.startDate = server.today →
      ∃ r, d.ledger.createTransaction (initialBody body type_ entity_id currency) = .ok r)

/-- The initial transaction, when it does not stop the request. -/
theorem createInitial_ok {entity_id : ℕ} {currency : Currency} {type_ : TransactionType}
    (h : body.startDate = server.today →
      ∃ r, d.ledger.createTransaction (initialBody body type_ entity_id currency) = .ok r) :
    ∃ tx l, createInitial server body type_ entity_id currency (.ofDb d) =
      (.ok tx, ⟨d, { d with ledger := l }, []⟩) := by
  unfold createInitial
  split_ifs with htoday
  · obtain ⟨⟨tx, l⟩, hr⟩ := h htoday
    exact ⟨some tx, l, bind_ok (Database.onLedger_ok hr)⟩
  · exact ⟨none, d.ledger, rfl⟩

theorem createInitial_error {entity_id : ℕ} {currency : Currency} {type_ : TransactionType}
    {e : SvcError} (htoday : body.startDate = server.today)
    (h : d.ledger.createTransaction (initialBody body type_ entity_id currency) = .error e) :
    createInitial server body type_ entity_id currency (.ofDb d) =
      (.error (.svc e), ⟨d, server.torn d, []⟩) := by
  rw [createInitial, if_pos htoday]
  exact bind_error (Database.onLedger_error h)

theorem create_complete {entity_id : ℕ} {currency : Currency} {type_ : TransactionType}
    (he : body.entityId = some entity_id) (hc : body.currency = some currency)
    (ht : body.type = some type_) :
    create server body = orRollback (createComplete server body type_ entity_id currency) := by
  simp only [create, he, hc, ht]

theorem create_incomplete
    (h : ¬ ∃ entity_id currency type_, body.entityId = some entity_id ∧
      body.currency = some currency ∧ body.type = some type_) :
    create server body = orRollback (Work.raise .scheduleFullFields) := by
  unfold create
  split
  · rename_i entity_id currency type_ he hc ht
    exact absurd ⟨entity_id, currency, type_, he, hc, ht⟩ h
  · rfl

/-- The row stays where the trigger is refused, whatever the initial transaction. -/
theorem createComplete_atomicAt_iff {entity_id : ℕ} {currency : Currency} {type_ : TransactionType}
    (h : body.startDate = server.today →
      ∃ r, d.ledger.createTransaction (initialBody body type_ entity_id currency) = .ok r) :
    AtomicAt (orRollback (createComplete server body type_ entity_id currency)) d ↔
      ¬ CronRefused server body := by
  obtain ⟨tx, l, htx⟩ := createInitial_ok h
  -- What runs once the row is committed.
  have hcall : createComplete server body type_ entity_id currency (.ofDb d) = (do
      syncSchedule server d.schedules.next
      pure (⟨d.schedules.next, { body with portfolioAssetId := none }⟩, tx) :
        Work Database CallError (ScheduleResponse × Option TransactionResponse))
      (afterInsert { d with ledger := l } body (tx.map TransactionResponse.id)) :=
    bind_ok htx
  have hget := get?_afterInsert { d with ledger := l } body (tx.map TransactionResponse.id)
  by_cases hcron : CronRefused server body
  · obtain ⟨e, he⟩ := syncSchedule_of_refused hget hcron
    rw [atomicAt_of_error (orRollback_error (hcall.trans (bind_error he)))]
    simp [hcron, afterInsert, Session.clean, withSchedule_ne]
  · have hsync := syncSchedule_of_accepted hget hcron
    simp [hcron, atomicAt_of_ok (orRollback_ok (hcall.trans (bind_ok hsync)))]

/-- What does not get as far as the row is rolled back. -/
theorem create_of_not_inserts (h : ¬ Inserts server body d) :
    ∃ e s', create server body (.ofDb d) = (.error e, s') ∧ s'.committed = d := by
  by_cases hfields : ∃ entity_id currency type_, body.entityId = some entity_id ∧
      body.currency = some currency ∧ body.type = some type_
  · obtain ⟨entity_id, currency, type_, he, hc, ht⟩ := hfields
    -- The initial transaction is refused.
    have hrefused : body.startDate = server.today ∧ ∃ e,
        d.ledger.createTransaction (initialBody body type_ entity_id currency) = .error e := by
      by_contra hno
      refine h ⟨_, _, _, he, hc, ht, fun htoday => ?_⟩
      cases hr : d.ledger.createTransaction (initialBody body type_ entity_id currency) with
      | ok r => exact ⟨r, rfl⟩
      | error e => exact absurd ⟨htoday, e, hr⟩ hno
    obtain ⟨htoday, e, hr⟩ := hrefused
    have hcall : createComplete server body type_ entity_id currency (.ofDb d) =
        (.error (.svc e), ⟨d, server.torn d, []⟩) :=
      bind_error (createInitial_error htoday hr)
    rw [create_complete he hc ht]
    exact ⟨_, _, orRollback_error hcall, rfl⟩
  · rw [create_incomplete hfields]
    exact ⟨_, _, orRollback_error (raise_apply _ _), rfl⟩

theorem create_atomicAt_iff (d : Database) :
    AtomicAt (create server body) d ↔ ¬ (CronRefused server body ∧ Inserts server body d) := by
  by_cases hins : Inserts server body d
  · obtain ⟨entity_id, currency, type_, he, hc, ht, hinit⟩ := id hins
    rw [create_complete he hc ht, createComplete_atomicAt_iff hinit]
    simp [hins]
  · obtain ⟨e, s', hcall, hcommitted⟩ := create_of_not_inserts hins
    rw [atomicAt_of_error hcall]
    simp [hins, hcommitted]

end ScheduleFullSvc

/-! ## Every composite request -/

/-- The requests that raise after they have committed. -/
def CompositeRequest.LeavesRow (server : Server) (d : Database) : CompositeRequest → Prop
  | .fullCreate _ | .fullUpdate _ _ | .batchCreate _ | .transferCreate _ => False
  | .scheduleCreate body => CronRefused server body ∧ ScheduleSvc.fkError d body = none
  | .scheduleUpdate schedule_id body => CronRefused server body ∧ ScheduleSvc.fkError d body = none ∧
      ∃ old, d.schedules.get? schedule_id = some old ∧ old ≠ body
  | .scheduleFullCreate body => CronRefused server body ∧ ScheduleFullSvc.Inserts server body d

/-- A composite request that raises leaves the database as it was, unless its trigger is refused
after the row is committed. -/
theorem composite_atomicAt_iff (server : Server) (d : Database) (req : CompositeRequest) :
    AtomicAt (req.call server) d ↔ ¬ req.LeavesRow server d := by
  cases req with
  | fullCreate body => exact iff_of_true (TransactionFullSvc.create_atomic _ body d) not_false
  | fullUpdate tx_id body =>
    exact iff_of_true (TransactionFullSvc.updateFull_atomic _ tx_id body d) not_false
  | batchCreate bodies => exact iff_of_true (TransactionBatchSvc.create_atomic _ bodies d) not_false
  | transferCreate body => exact iff_of_true (TransferSvc.create_atomic _ body d) not_false
  | scheduleCreate body => exact ScheduleSvc.create_atomicAt_iff d
  | scheduleUpdate schedule_id body => exact ScheduleSvc.update_atomicAt_iff schedule_id d
  | scheduleFullCreate body => exact ScheduleFullSvc.create_atomicAt_iff d

namespace Sample

/-- A schedule with an expression that is no crontab. -/
def everyFriday : ScheduleRow where
  description := "rent"
  startDate := date 2026 6 19 (by decide)
  periodicityType := .custom
  customCron := some "every friday"

theorem refusedCron_stays :
    let server := serverOn (date 2026 6 15 (by decide)) 12
    let req := CompositeRequest.scheduleCreate everyFriday
    (req.call server).raised database = some (.trigger (.valueError "every friday")) ∧
      ((req.call server).saved database).schedules.rows = [(0, everyFriday)] ∧
      ¬ AtomicAt (req.call server) database := by
  intro server req
  have hrefused : CronRefused server everyFriday := ⟨rfl, "every friday", rfl, by decide, rfl⟩
  refine ⟨by decide +kernel, by decide +kernel, fun h => ?_⟩
  exact (ScheduleSvc.create_atomicAt_iff database).mp h ⟨hrefused, rfl⟩

end Sample

end FinHub
