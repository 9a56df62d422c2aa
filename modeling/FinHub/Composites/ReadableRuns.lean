import FinHub.Composites.ReadableRequests
import FinHub.Schedules.Materialized

/-!
# FinHub.Composites.ReadableRuns

Runs in which no balance query can raise.

A schedule stores its total, or none, with every row it makes. `Operation.Fits` says which operation
writes no row and no fee that a query would meet without an amount; a run of such operations keeps
every balance readable (`allReadable_of_reaches`).
-/

namespace FinHub

open Calendar Tabular Db Scheduler

variable {d : Database}

/-! ## Schedules -/

variable {server : Server}

/-- The row of a date that is still to be made fits. -/
def DateFits (server : Server) (d : Database) (schedule_id : ℕ) (sch : ScheduleRow) (day : ℤ) : Prop :=
  ∀ f ∈ embeddedFields d sch, (schedule_id, day) ∉ d.occurrences.map Occurrence.key →
    d.ledger.Fits (generatedRow server d.ledger schedule_id sch f.1 f.2.1 f.2.2 day)

/-- The dates of a catch-up from `since` fit. -/
def CatchUpFits (server : Server) (d : Database) (schedule_id : ℕ) (sch : ScheduleRow) (since : Date) :
    Prop :=
  ∀ fd ∈ computeFireDates sch since server.utcToday, DateFits server d schedule_id sch (dayNumber fd)

/-- Between the passes of a catch-up that started on `d`. -/
structure StaysReadable (d : Database) (s : Session Database) : Prop where
  committed : s.committed.ledger.BooksReadable
  working : s.working.ledger.BooksReadable
  snapshots : s.working.ledger.snapshots = d.ledger.snapshots
  entities : s.working.ledger.entities = d.ledger.entities
  grown : ∀ o ∈ d.occurrences, o ∈ s.working.occurrences

theorem StaysReadable.start (hd : d.ledger.BooksReadable) (history : List Database) :
    StaysReadable d (.clean d history) :=
  ⟨hd, hd, rfl, rfl, fun _ h => h⟩

/-- A date that fits still does where the snapshots and the entities are as they were. -/
theorem DateFits.later {d' : Database} {schedule_id : ℕ} {sch : ScheduleRow} {day : ℤ}
    (h : DateFits server d schedule_id sch day) (hsnap : d'.ledger.snapshots = d.ledger.snapshots)
    (hent : d'.ledger.entities = d.ledger.entities) (hgrown : ∀ o ∈ d.occurrences, o ∈ d'.occurrences) :
    DateFits server d' schedule_id sch day := by
  intro f hf hfresh
  rw [embeddedFields_congr hent] at hf
  have hfits := h f hf fun hk => hfresh (by
    obtain ⟨o, ho, hkey⟩ := List.mem_map.mp hk
    exact List.mem_map.mpr ⟨o, hgrown o ho, hkey⟩)
  exact Ledger.Fits.congr (s := d.ledger) hfits hsnap

/-- The completed row of a date. -/
theorem fits_completedRow {l : Ledger} {row : Transaction} (hq : row.quantity = none)
    (hp : row.unitPrice = none) (h : l.Fits row) : l.Fits (completedRow row) := by
  obtain ⟨himpact, he, hc, ht⟩ := completedRow_cash hq hp
  intro hnone b hb hbe hbc
  rw [himpact] at hnone
  rw [he] at hbe
  rw [hc] at hbc
  rw [ht]
  exact h hnone b hb hbe hbc

theorem keepsReadable_recalculated (l : Ledger) (entity_id : ℕ) (currency : Currency)
    (fire_date : Date) : Ledger.KeepsReadable l (recalculated l entity_id currency fire_date) := by
  unfold recalculated
  split
  · rename_i l' hok
    exact .recalculateAdjustments hok
  · exact .refl l

theorem catchUpDate_readable {schedule_id : ℕ} {sch : ScheduleRow} {fire_date : Date}
    (hfits : DateFits server d schedule_id sch (dayNumber fire_date)) (total : ℕ) :
    Work.Triple (StaysReadable d) (catchUpDate server schedule_id sch total fire_date)
      (fun _ => StaysReadable d) fun _ _ => False := by
  intro s hs
  rcases catchUpDate_cases server schedule_id sch total fire_date s with
    ⟨-, hskip⟩ | ⟨type_, entity_id, currency, hfields, hfresh, hcall⟩
  · rw [hskip]
    exact hs
  rw [hcall]
  have hrow := (hfits.later hs.snapshots hs.entities hs.grown) _ hfields
    (by rw [completed_occurrences] at hfresh; exact hfresh)
  have hmade := hs.working.insert (fits_completedRow rfl rfl hrow)
  have hledger := completed_insert (s.working.withGenerated schedule_id (dayNumber fire_date)
    (generatedRow server s.working.ledger schedule_id sch type_ entity_id currency
      (dayNumber fire_date))) _ s.working.ledger rfl
  rw [← hledger] at hmade
  have hkeeps := keepsReadable_recalculated (completed (s.working.withGenerated schedule_id
    (dayNumber fire_date) (generatedRow server s.working.ledger schedule_id sch type_ entity_id
      currency (dayNumber fire_date))) s.working.ledger.transactions.next (generatedRow server
        s.working.ledger schedule_id sch type_ entity_id currency (dayNumber fire_date))).ledger
    entity_id currency fire_date
  exact
    { committed := by
        -- An investment is committed before its occurrence.
        unfold afterFill
        split_ifs
        · exact hmade
        · exact hs.committed
      working := hkeeps.booksReadable hmade
      snapshots := by
        refine hkeeps.snapshots.trans ?_
        rw [hledger]
        exact hs.snapshots
      entities := by
        refine hkeeps.entities.trans ?_
        rw [hledger]
        exact hs.entities
      grown := fun o ho => List.mem_append_left _ (by
        rw [completed_occurrences]
        exact hs.grown o ho) }

theorem catchUpDates_readable {schedule_id : ℕ} {sch : ScheduleRow} {since : Date}
    (hfits : CatchUpFits server d schedule_id sch since) (total : ℕ) :
    Work.Triple (StaysReadable d) (catchUpDates server schedule_id sch since total)
      (fun _ => StaysReadable d) fun _ _ => False :=
  Work.Triple.foldlM (I := fun _ => StaysReadable d)
    (fun total fd hfd => catchUpDate_readable (hfits fd hfd) total) total

theorem commitIfAny_readable (total : ℕ) : Work.Triple (StaysReadable d) (commitIfAny total)
    (fun _ s => s.committed.ledger.BooksReadable) fun _ _ => False := by
  unfold commitIfAny
  split_ifs
  · exact .commit fun s hs => hs.working
  · exact .pure fun s hs => hs.committed

theorem catchUpMissedFires_readable (hd : d.ledger.BooksReadable)
    (hfits : ∀ r ∈ d.schedules.rows,
      CatchUpFits server d r.1 r.2 (catchUpSince d.lastShutdown r.2)) :
    ((catchUpMissedFires server).saved d).ledger.BooksReadable := by
  refine Work.Triple.saved (P := fun d : Database => d.ledger.BooksReadable) ?_
  refine .tryExcept_of_total ?_
  rintro _ rfl
  simp only [Work.read_bind]
  split_ifs
  · exact hd
  · refine Work.Triple.bind (P := StaysReadable d) (Q := fun _ => StaysReadable d)
      (.foldlM (I := fun _ => StaysReadable d) ?_ 0) commitIfAny_readable _ (.start hd [])
    exact fun total r hmem => catchUpDates_readable (hfits r hmem) total

theorem catchUpSingleSchedule_readable (server : Server) (schedule_id : ℕ) (hd : d.ledger.BooksReadable)
    (hfits : ∀ sch ∈ d.schedules.get? schedule_id, CatchUpFits server d schedule_id sch sch.startDate)
    (history : List Database) :
    ∃ s', catchUpSingleSchedule server schedule_id (.clean d history) = (.ok (), s') ∧
      s'.committed.ledger.BooksReadable := by
  have htriple : Work.Triple (fun s => s = .clean d history) (catchUpSingleSchedule server schedule_id)
      (fun _ s => s.committed.ledger.BooksReadable) fun _ _ => False := by
    refine .tryExcept_of_total ?_
    rintro _ rfl
    simp only [Work.read_bind]
    cases hsch : d.schedules.get? schedule_id with
    | none =>
      simp only [Session.clean, hsch]
      exact hd
    | some sch =>
      simp only [Session.clean, hsch]
      split_ifs
      · exact hd
      · exact Work.Triple.bind (catchUpDates_readable (hfits sch hsch) 0) commitIfAny_readable _
          (.start hd history)
  obtain ⟨s', hs'⟩ := catchUpSingleSchedule_returns server schedule_id (.clean d history)
  exact ⟨s', hs', htriple.ok rfl hs'⟩

theorem scheduleCreate_readable {body : ScheduleRow} (hd : d.ledger.BooksReadable)
    (hfits : ScheduleSvc.fkError d body = none → ¬ CronRefused server body →
      CatchUpFits server (ScheduleSvc.withSchedule d body none) d.schedules.next body body.startDate) :
    ((ScheduleSvc.create server body).saved d).ledger.BooksReadable := by
  cases hfk : ScheduleSvc.fkError d body with
  | some e =>
    have hcall : ScheduleSvc.create server body (.ofDb d) = (.error e, .ofDb d) :=
      Work.bind_error (ScheduleSvc.checkFks_error hfk)
    rw [Work.saved, hcall]
    exact hd
  | none =>
    -- What runs once the row is committed.
    have hcall : ScheduleSvc.create server body (.ofDb d) = (do
        ScheduleSvc.syncSchedule server d.schedules.next
        Work.onOwnConnection (catchUpSingleSchedule server d.schedules.next)
        pure ⟨d.schedules.next, { body with portfolioAssetId := none }⟩ :
          Work Database CallError ScheduleResponse) (ScheduleSvc.afterInsert d body none) :=
      Work.bind_ok (ScheduleSvc.checkFks_ok hfk)
    have hget := ScheduleSvc.get?_afterInsert d body none
    by_cases hcron : CronRefused server body
    · obtain ⟨e, he⟩ := ScheduleSvc.syncSchedule_of_refused hget hcron
      rw [Work.saved, hcall, Work.bind_error he]
      exact hd
    · have hsync := ScheduleSvc.syncSchedule_of_accepted hget hcron
      obtain ⟨s', hs', hread⟩ := catchUpSingleSchedule_readable server d.schedules.next
        (d := ScheduleSvc.withSchedule d body none) hd
        (fun sch hsch => by
          obtain rfl : body = sch := Option.some_inj.mp (hget.symm.trans hsch)
          exact hfits hfk hcron) [ScheduleSvc.withSchedule d body none]
      rw [Work.saved, hcall, Work.bind_ok hsync, Work.bind_ok (Work.onOwnConnection_ok hs')]
      exact hread

/-- What is committed can be read, and what is about to be. -/
def BothReadable (s : Session Database) : Prop :=
  s.committed.ledger.BooksReadable ∧ s.working.ledger.BooksReadable

theorem scheduleFullCreate_readable {body : ScheduleRow} (hd : d.ledger.BooksReadable)
    (hfits : body.startDate = server.today → ∀ type_ ∈ body.type, ∀ entity_id ∈ body.entityId,
      ∀ currency ∈ body.currency, d.ledger.TransactionFits
        (ScheduleFullSvc.initialBody body type_ entity_id currency)) :
    ((ScheduleFullSvc.create server body).saved d).ledger.BooksReadable := by
  refine Work.Triple.saved (P := fun d : Database => d.ledger.BooksReadable) ?_
  have hcommitted : ∀ {α : Type} {w : Work Database CallError α},
      Work.Triple (fun s => s = .ofDb d) w (fun _ s => s.committed.ledger.BooksReadable)
        (fun _ s => s.committed.ledger.BooksReadable) →
      Work.Triple (fun s => s = .ofDb d) (Work.orRollback w)
        (fun _ s => s.committed.ledger.BooksReadable) fun _ s => s.committed.ledger.BooksReadable :=
    fun h => h.orRollback fun _ _ hs => hs
  refine hcommitted ?_
  split
  case h_2 => exact .raise fun s hs => hs ▸ hd
  rename_i entity_id currency type_ he hc ht
  have hinitial : Work.Triple (fun s => s = .ofDb d)
      (ScheduleFullSvc.createInitial server body type_ entity_id currency) (fun _ => BothReadable)
      fun _ s => s.committed.ledger.BooksReadable := by
    unfold ScheduleFullSvc.createInitial
    split_ifs with htoday
    · refine .bind (Q := fun _ => BothReadable) ?_ fun _ => .pure fun s hs => hs
      refine (onLedger_during (d := d) (P := (· = d.ledger)) (Q := fun _ => Ledger.BooksReadable)
        ?_).consequence (fun s hs => hs ▸ ⟨rfl, rfl⟩) (fun _ s hs => ⟨hs.1 ▸ hd, hs.2⟩)
        fun _ s hs => hs ▸ hd
      rintro l resp l' rfl hok
      exact (Ledger.createTransaction_readable hd
        (hfits htoday type_ ht entity_id he currency hc) hok).1
    · exact .pure fun s hs => hs ▸ ⟨hd, hd⟩
  refine .bind hinitial fun tx => ?_
  refine .bind (Q := fun _ => BothReadable) (.write fun s hs => hs) fun id => ?_
  refine .bind (Q := fun _ => BothReadable) (.commit fun s hs => ⟨hs.2, hs.2⟩) fun _ => ?_
  exact .bind (Q := fun _ => BothReadable) ((syncSchedule_triple (P := BothReadable) id).consequence
    (fun _ h => h) (fun _ _ h => h) fun _ s h => h.1) fun _ => .pure fun s hs => hs.1

theorem executeSchedule_readable {schedule_id : ℕ} (hd : d.ledger.BooksReadable)
    (hfits : ∀ sch ∈ d.schedules.get? schedule_id, pastEnd server sch = false →
      DateFits server d schedule_id sch (occurrenceDate server)) :
    ((executeSchedule server schedule_id).saved d).ledger.BooksReadable := by
  rcases cloneTx_cases server schedule_id (.ofDb d) with hskip | hdup |
    ⟨sch, type_, entity_id, currency, hsch, hpast, hfields, hfresh, hmade⟩
  · rw [Work.saved, executeSchedule_ok hskip]
    exact hd
  · rw [Work.saved, executeSchedule_error hdup]
    exact hd
  · rw [Work.saved, executeSchedule_ok hmade]
    have hrow := hfits sch hsch hpast _ hfields hfresh
    have hledger : (completed ((d.withGenerated schedule_id (occurrenceDate server) (generatedRow server
        d.ledger schedule_id sch type_ entity_id currency (occurrenceDate server))).withOccurrence
          ⟨schedule_id, occurrenceDate server, d.ledger.transactions.next⟩ hfresh)
        d.ledger.transactions.next (generatedRow server d.ledger schedule_id sch type_ entity_id
          currency (occurrenceDate server))).ledger = d.ledger.insertTransaction (completedRow
            (generatedRow server d.ledger schedule_id sch type_ entity_id currency
              (occurrenceDate server))) := completed_insert _ _ d.ledger rfl
    exact (congrArg Ledger.BooksReadable hledger).mpr (hd.insert (fits_completedRow rfl rfl hrow))

namespace SchedulerEvent

/-- The event stores nothing that a query could not read. -/
def Fits (d : Database) : SchedulerEvent → Prop
  | scheduleCreate server body =>
    ScheduleSvc.fkError d body = none → ¬ CronRefused server body →
      CatchUpFits server (ScheduleSvc.withSchedule d body none) d.schedules.next body body.startDate
  | scheduleFullCreate server body =>
    body.startDate = server.today → ∀ type_ ∈ body.type, ∀ entity_id ∈ body.entityId,
      ∀ currency ∈ body.currency,
        d.ledger.TransactionFits (ScheduleFullSvc.initialBody body type_ entity_id currency)
  | fire server schedule_id => ∀ sch ∈ d.schedules.get? schedule_id, pastEnd server sch = false →
    DateFits server d schedule_id sch (occurrenceDate server)
  | boot server => ∀ r ∈ d.schedules.rows,
    CatchUpFits server d r.1 r.2 (catchUpSince d.lastShutdown r.2)
  | catchUp server schedule_id => ∀ sch ∈ d.schedules.get? schedule_id,
    CatchUpFits server d schedule_id sch sch.startDate
  | shutdown _ => True
  | ledgerCall c => d.ledger.CallFits c

theorem after_readable {e : SchedulerEvent} (hd : d.ledger.BooksReadable) (he : e.Fits d) :
    (e.after d).ledger.BooksReadable := by
  cases e with
  | scheduleCreate server body => exact scheduleCreate_readable hd he
  | scheduleFullCreate server body => exact scheduleFullCreate_readable hd he
  | fire server schedule_id => exact executeSchedule_readable hd he
  | shutdown server => exact hd
  | boot server => exact catchUpMissedFires_readable hd he
  | catchUp server schedule_id =>
    obtain ⟨s', hs', hread⟩ := catchUpSingleSchedule_readable server schedule_id hd he []
    simp only [after, Work.saved, Session.ofDb, hs']
    exact hread
  | ledgerCall c =>
    simp only [after]
    cases hok : d.ledger.call c with
    | ok l => exact hd.call he hok
    | error e => exact hd

end SchedulerEvent

theorem scheduleUpdate_readable {schedule_id : ℕ} {body : ScheduleRow} (hd : d.ledger.BooksReadable) :
    ((ScheduleSvc.update server schedule_id body).saved d).ledger.BooksReadable := by
  refine Work.Triple.saved (P := fun d : Database => d.ledger.BooksReadable) ?_
  have hboth : Work.Triple BothReadable (ScheduleSvc.update server schedule_id body)
      (fun _ => BothReadable) fun _ => BothReadable := by
    refine .bind (Q := fun _ => BothReadable) (.read fun s hs => hs) fun sch => ?_
    cases sch with
    | none => exact .raise fun s hs => hs
    | some sch =>
      refine .bind (Q := fun _ => BothReadable) ?_ fun _ => ?_
      · refine .bind (Q := fun _ => BothReadable) (.read fun s hs => hs) fun e => ?_
        cases e with
        | none => exact .pure fun s hs => hs
        | some e => exact .raise fun s hs => hs
      refine .bind (Q := fun _ => BothReadable) (.write fun s hs => hs) fun _ => ?_
      refine .bind (Q := fun _ => BothReadable) (.commit fun s hs => ⟨hs.2, hs.2⟩) fun _ => ?_
      exact .bind (syncSchedule_triple schedule_id) fun _ => .pure fun s hs => hs
  exact hboth.consequence (fun s hs => hs ▸ ⟨hd, hd⟩) (fun _ _ h => h.1) fun _ _ h => h.1

theorem scheduleDelete_readable (schedule_id : ℕ) (hd : d.ledger.BooksReadable) :
    ((ScheduleSvc.delete schedule_id).saved d).ledger.BooksReadable := by
  refine Work.Triple.saved (P := fun d : Database => d.ledger.BooksReadable) ?_
  have hboth : Work.Triple BothReadable (ScheduleSvc.delete schedule_id) (fun _ => BothReadable)
      fun _ => BothReadable := by
    refine .bind (Q := fun _ => BothReadable) (.read fun s hs => hs) fun sch => ?_
    cases sch with
    | none => exact .raise fun s hs => hs
    | some sch =>
      exact .bind (Q := fun _ => BothReadable) (.write fun s hs => hs) fun _ =>
        .commit fun s hs => ⟨hs.2, hs.2⟩
  exact hboth.consequence (fun s hs => hs ▸ ⟨hd, hd⟩) (fun _ _ h => h.1) fun _ _ h => h.1

namespace CompositeRequest

/-- The request stores nothing that a query could not read. -/
def Fits (server : Server) (d : Database) : CompositeRequest → Prop
  | fullCreate body | fullUpdate _ body => FullFits d.ledger body
  | batchCreate bodies => ∀ b ∈ bodies, d.ledger.TransactionFits b
  | scheduleCreate body => (SchedulerEvent.scheduleCreate server body).Fits d
  | scheduleFullCreate body => (SchedulerEvent.scheduleFullCreate server body).Fits d
  | transferCreate _ | scheduleUpdate _ _ => True

theorem saved_readable {req : CompositeRequest} (hd : d.ledger.BooksReadable)
    (hreq : req.Fits server d) : ((req.call server).saved d).ledger.BooksReadable := by
  cases req with
  | fullCreate body => exact fullCreate_readable hd hreq
  | fullUpdate tx_id body => exact fullUpdate_readable hd hreq
  | batchCreate bodies => exact batchCreate_readable hd hreq
  | transferCreate body => exact transferCreate_readable hd
  | scheduleCreate body => exact scheduleCreate_readable hd hreq
  | scheduleUpdate schedule_id body => exact scheduleUpdate_readable hd
  | scheduleFullCreate body => exact scheduleFullCreate_readable hd hreq

end CompositeRequest

/-! ## Runs -/

/-- An operation on the transactions, fees, taxes, snapshots, transfers or schedules. -/
inductive Operation where
  | request (server : Server) (req : CompositeRequest)
  | event (e : SchedulerEvent)
  | scheduleDelete (schedule_id : ℕ)

namespace Operation

/-- The database after an operation, whether it answers or raises. -/
def after (d : Database) : Operation → Database
  | request server req => (req.call server).saved d
  | event e => e.after d
  | scheduleDelete schedule_id => (ScheduleSvc.delete schedule_id).saved d

def call (d : Database) (o : Operation) : Except CallError Database := .ok (o.after d)

def Fits (d : Database) : Operation → Prop
  | request server req => req.Fits server d
  | event e => e.Fits d
  | scheduleDelete _ => True

theorem after_readable {o : Operation} (hd : d.ledger.BooksReadable) (ho : o.Fits d) :
    (o.after d).ledger.BooksReadable := by
  cases o with
  | request server req => exact CompositeRequest.saved_readable hd ho
  | event e => exact SchedulerEvent.after_readable hd ho
  | scheduleDelete schedule_id => exact scheduleDelete_readable schedule_id hd

end Operation

/-- In a run of operations that fit, every balance and every fee sum can be read. -/
theorem allReadable_of_reaches {d d' : Database} (h : Runs.Reaches Operation.call Operation.Fits d d')
    (hd : d.ledger.AllReadable) : d'.ledger.AllReadable := by
  rw [Ledger.allReadable_iff] at hd ⊢
  refine h.invariant (P := fun d => d.ledger.BooksReadable) hd fun d o d' hd ho hcall => ?_
  cases hcall
  exact Operation.after_readable hd ho

namespace Sample

/-- A spend without an amount, and a snapshot of its pair at noon of day 10. -/
def amountlessSpend (day : ℤ) : Operation :=
  .event (.ledgerCall (.createTransaction
    { timestamp := at_ day 9, type := .moneyOut, entityId := 0, currency := usd }))

def noonSnapshot : Operation := .event (.ledgerCall (snapshot 0 usd 100 (at_ 10 12)))

/-- After the snapshot, the balance of the pair can no longer be read. -/
theorem amountlessSpend_raises :
    ¬ ∀ os : List Operation, (os.foldl Operation.after database).ledger.AllReadable := by
  intro hall
  have hread := (hall [noonSnapshot, amountlessSpend 11]).1 0 usd (at_ 12 0) {} true
  exact absurd hread (by decide +kernel)

/-- Before the snapshot it can. -/
theorem amountlessSpend_readable :
    ([amountlessSpend 9, noonSnapshot].foldl Operation.after database).ledger.AllReadable := by
  have hfits : Runs.AllAllowed Operation.call Operation.Fits database
      [amountlessSpend 9, noonSnapshot] := by
    refine ⟨?_, fun d hd => ⟨?_, fun _ _ => trivial⟩⟩
    · show Ledger.Fits _ _
      decide +kernel
    · cases hd
      intro _
      show Ledger.SnapshotFits _ _
      decide +kernel
  refine allReadable_of_reaches (Runs.reaches_of_foldlM (List.foldlM_pure ..) hfits) ?_
  rw [Ledger.allReadable_iff]
  constructor
  · intro r hr
    cases hr
  · intro f hf
    cases hf

end Sample

end FinHub
