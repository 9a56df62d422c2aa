import FinHub.Composites.Atomicity

/-!
# FinHub.Schedules.ExactlyOnce

A schedule makes one transaction for each of its dates.

`ExactlyOnce` is kept by catch-ups whatever the window they look at, and by a live fire whose date
lies in the range of its schedule: the unique index of the occurrences undoes the second transaction
of a date. Two writers are outside of it. A full schedule that starts today makes its first
transaction without an occurrence, and a live trigger knows no start date.
-/

namespace FinHub

open Calendar Tabular Db Scheduler

/-- A date from the start of a schedule to its end. -/
def InRange (sch : ScheduleRow) (day : ℤ) : Prop :=
  dayNumber sch.startDate ≤ day ∧ ∀ e ∈ sch.endDate, day ≤ dayNumber e

instance (sch : ScheduleRow) (day : ℤ) : Decidable (InRange sch day) :=
  inferInstanceAs (Decidable (_ ∧ ∀ e ∈ sch.endDate, _))

/-- One transaction for a date of a schedule, one occurrence for the transaction, and no date out of
range. -/
structure ExactlyOnce (d : Database) : Prop where
  once : (d.made.map Occurrence.key).Nodup
  recorded : ∀ m ∈ d.made, m ∈ d.occurrences ∧ ∀ o ∈ d.occurrences, o.key = m.key → o = m
  dated : ∀ m ∈ d.made, ∃ sch, d.schedules.get? m.scheduleId = some sch ∧
    InRange sch m.occurrenceDate

/-! ## The dates of a catch-up -/

theorem lt_of_step? {sch : ScheduleRow} {step : Date → Date} (h : step? sch = some step) (d : Date) :
    d < step d := by
  unfold step? at h
  cases hp : sch.periodicityType <;> rw [hp] at h <;> cases h
  · exact Date.lt_addDays 0 d
  · exact Date.lt_addDays 6 d
  · exact Date.lt_of_index_lt (by rw [index_nextMonthDay]; omega)
  · exact Date.lt_of_index_lt (by rw [index_nextQuarterDay]; omega)
  · exact lt_nextYearDay _ d

/-- The loop never leaves the days from where it starts to its bound. -/
theorem bounds_of_mem_upTo {step : Date → Date} (hstep : ∀ d, d < step d) {since last x : Date}
    {fuel : ℕ} {current : Date} (h : x ∈ upTo step since last fuel current) :
    current ≤ x ∧ x ≤ last := by
  induction fuel generalizing current with
  | zero => cases h
  | succ fuel ih =>
    rw [upTo] at h
    split_ifs at h with hlast hsince
    · rcases List.mem_cons.mp h with rfl | h
      · exact ⟨le_rfl, hlast⟩
      · exact ⟨(hstep current).le.trans (ih h).1, (ih h).2⟩
    · exact ⟨(hstep current).le.trans (ih h).1, (ih h).2⟩
    · cases h

theorem bounds_of_mem_firesUpTo {sch : ScheduleRow} {since until_ d : Date}
    (h : d ∈ firesUpTo sch since until_) : sch.startDate ≤ d ∧ d ≤ until_ := by
  unfold firesUpTo at h
  dsimp only at h
  split_ifs at h with hone hwindow
  · rw [List.mem_singleton.mp h]
    exact ⟨le_rfl, hwindow.2⟩
  · cases h
  · cases hs : step? sch with
    | none => rw [hs] at h; cases h
    | some step => rw [hs] at h; exact bounds_of_mem_upTo (lt_of_step? hs) h

theorem inRange_of_mem_computeFireDates {sch : ScheduleRow} {since until_ d : Date}
    (h : d ∈ computeFireDates sch since until_) : InRange sch (dayNumber d) := by
  have hdays : ∀ {d d' : Date}, d ≤ d' → dayNumber d ≤ dayNumber d' := fun h =>
    sub_le_sub_right (Date.le_def.mp h) _
  unfold computeFireDates at h
  cases he : sch.endDate with
  | none =>
    rw [he] at h
    exact ⟨hdays (bounds_of_mem_firesUpTo h).1, by simp [he]⟩
  | some e =>
    simp only [he] at h
    split_ifs at h with hend
    · cases h
    · have hb := bounds_of_mem_firesUpTo h
      refine ⟨hdays hb.1, fun e' he' => ?_⟩
      rw [he] at he'
      cases he'
      exact hdays (le_min_iff.mp hb.2).2

/-! ## What the writers keep -/

namespace ExactlyOnce

variable {d d' : Database}

/-- Writes to the ledger, and whatever else is no transaction of a schedule. -/
theorem congr (h : ExactlyOnce d) (hs : d'.schedules = d.schedules)
    (ho : d'.occurrences = d.occurrences) (hm : d'.made = d.made) : ExactlyOnce d' where
  once := hm ▸ h.once
  recorded := hm ▸ ho ▸ h.recorded
  dated := hm ▸ hs ▸ h.dated

/-- One more date of a schedule, with its occurrence. -/
theorem record (h : ExactlyOnce d) {m : Occurrence} {sch : ScheduleRow}
    (hfresh : m.key ∉ d.occurrences.map Occurrence.key)
    (hsch : d.schedules.get? m.scheduleId = some sch) (hrange : InRange sch m.occurrenceDate)
    (hs : d'.schedules = d.schedules) (ho : d'.occurrences = d.occurrences ++ [m])
    (hm : d'.made = d.made ++ [m]) : ExactlyOnce d' where
  once := by
    rw [hm]
    refine Occurrence.nodup_append h.once fun hmade => hfresh ?_
    obtain ⟨x, hx, hkey⟩ := List.mem_map.mp hmade
    exact hkey ▸ List.mem_map_of_mem (h.recorded x hx).1
  recorded := by
    intro x hx
    have hmem : x ∈ d'.occurrences := by
      rw [ho]
      rw [hm] at hx
      rcases List.mem_append.mp hx with hx | hx
      · exact List.mem_append_left _ (h.recorded x hx).1
      · exact List.mem_append_right _ hx
    exact ⟨hmem, fun o ho hkey => List.inj_on_of_nodup_map d'.occurrences_unique ho hmem hkey⟩
  dated := by
    intro x hx
    rw [hm] at hx
    rw [hs]
    rcases List.mem_append.mp hx with hx | hx
    · exact h.dated x hx
    · rw [List.mem_singleton.mp hx]
      exact ⟨sch, hsch, hrange⟩

/-- A schedule that is added without a transaction. -/
theorem insertSchedule (h : ExactlyOnce d) (body : ScheduleRow)
    (hs : d'.schedules = d.schedules.insert body) (ho : d'.occurrences = d.occurrences)
    (hm : d'.made = d.made) : ExactlyOnce d' where
  once := hm ▸ h.once
  recorded := hm ▸ ho ▸ h.recorded
  dated := by
    intro m hmem
    rw [hm] at hmem
    obtain ⟨sch, hsch, hrange⟩ := h.dated m hmem
    refine ⟨sch, ?_, hrange⟩
    rw [hs, Table.get?_eq_some_iff]
    exact Table.mem_insert.mpr (.inl ((Table.get?_eq_some_iff _).mp hsch))

end ExactlyOnce

/-! ## Catch-ups -/

/-- Between the passes of a catch-up over the schedules `table`: nothing has been counted while
nothing is committed. -/
def CatchingUp (table : Table ScheduleRow) (total : ℕ) (s : Session Database) : Prop :=
  ExactlyOnce s.working ∧ s.working.schedules = table ∧ (total = 0 → ExactlyOnce s.committed)

variable {table : Table ScheduleRow} {server : Server}

theorem catchUpDate_triple {schedule_id : ℕ} {sch : ScheduleRow} {fire_date : Date}
    (hsch : table.get? schedule_id = some sch) (hrange : InRange sch (dayNumber fire_date))
    (total : ℕ) :
    Work.Triple (CatchingUp table total) (catchUpDate server schedule_id sch total fire_date)
      (CatchingUp table) fun _ _ => False := by
  rintro s ⟨hgood, htable, hcommitted⟩
  rcases catchUpDate_cases server schedule_id sch total fire_date s with
    ⟨-, hskip⟩ | ⟨type_, entity_id, currency, -, hfresh, hcall⟩
  · rw [hskip]
    exact ⟨hgood, htable, hcommitted⟩
  · rw [hcall]
    refine ⟨?_, by simp [htable], fun h => absurd h (Nat.succ_ne_zero total)⟩
    rw [completed_occurrences] at hfresh
    exact hgood.record hfresh (htable ▸ hsch) hrange (by simp) (by simp) (by simp)

theorem catchUpDates_triple {schedule_id : ℕ} {sch : ScheduleRow} {since : Date}
    (hsch : table.get? schedule_id = some sch) (total : ℕ) :
    Work.Triple (CatchingUp table total) (catchUpDates server schedule_id sch since total)
      (CatchingUp table) fun _ _ => False :=
  .foldlM (fun total _ hfd =>
    catchUpDate_triple hsch (inRange_of_mem_computeFireDates hfd) total) total

theorem commitIfAny_triple (total : ℕ) :
    Work.Triple (CatchingUp table total) (commitIfAny total) (fun _ s => ExactlyOnce s.committed)
      fun _ _ => False := by
  unfold commitIfAny
  split_ifs with hpos
  · exact .commit fun s hs => hs.1
  · exact .pure fun s hs => hs.2.2 (Nat.eq_zero_of_not_pos hpos)

/-- A service on a connection of its own that leaves every transaction recorded. -/
def KeepsExactlyOnce (w : Work Database CallError Unit) : Prop :=
  Work.Triple (fun s => ∃ d h, ExactlyOnce d ∧ s = .clean d h) w (fun _ s => ExactlyOnce s.committed)
    fun _ _ => False

theorem catchUpMissedFires_keeps : KeepsExactlyOnce (catchUpMissedFires server) := by
  refine .tryExcept_of_total ?_
  rintro _ ⟨d, h, hd, rfl⟩
  simp only [Work.read_bind]
  split_ifs
  · exact hd
  · refine Work.Triple.bind (P := CatchingUp d.schedules 0) (.foldlM ?_ 0) commitIfAny_triple _
      ⟨hd, rfl, fun _ => hd⟩
    intro total r hr
    exact catchUpDates_triple ((Table.get?_eq_some_iff _).mpr hr) total

theorem catchUpSingleSchedule_keeps (schedule_id : ℕ) :
    KeepsExactlyOnce (catchUpSingleSchedule server schedule_id) := by
  refine .tryExcept_of_total ?_
  rintro _ ⟨d, h, hd, rfl⟩
  simp only [Work.read_bind]
  cases hsch : d.schedules.get? schedule_id with
  | none => simp only [Session.clean, hsch]; exact hd
  | some sch =>
    simp only [Session.clean, hsch]
    split_ifs
    · exact hd
    · exact Work.Triple.bind (catchUpDates_triple hsch 0) commitIfAny_triple _ ⟨hd, rfl, fun _ => hd⟩

theorem KeepsExactlyOnce.saved {w : Work Database CallError Unit} {d : Database}
    (hw : KeepsExactlyOnce w) (hd : ExactlyOnce d) : ExactlyOnce (w.saved d) :=
  Work.Triple.saved (hw.consequence (fun _ hs => ⟨d, [], hd, hs⟩) (fun _ _ h => h) fun _ _ h => h.elim)

/-! ## Schedules -/

/-- What is committed and what is about to be. -/
def BothExactlyOnce (s : Session Database) : Prop := ExactlyOnce s.committed ∧ ExactlyOnce s.working

/-- The job of a schedule is set up without a write. -/
theorem syncSchedule_triple {P : Session Database → Prop} (schedule_id : ℕ) :
    Work.Triple P (ScheduleSvc.syncSchedule server schedule_id) (fun _ => P) fun _ => P := by
  refine .bind (Q := fun _ => P) (.readCommitted fun s hs => hs) fun sch => ?_
  cases sch with
  | none => exact .pure fun s hs => hs
  | some sch =>
    cases ht : makeTrigger server.fromCrontab sch server.today with
    | ok t => simp only [ht]; exact .pure fun s hs => hs
    | error e => simp only [ht]; exact .raise fun s hs => hs

/-- Adding a schedule that makes no transaction, up to its job. -/
theorem insert_commit_triple {α : Type} (body : ScheduleRow) {f : ℕ → Work Database CallError α}
    (hf : ∀ schedule_id, Work.Triple BothExactlyOnce (f schedule_id) (fun _ => BothExactlyOnce)
      fun _ => BothExactlyOnce) :
    Work.Triple BothExactlyOnce
      (ScheduleSvc.insertSchedule body none >>= fun schedule_id => Work.commit >>= fun _ => f schedule_id)
      (fun _ => BothExactlyOnce) fun _ => BothExactlyOnce := by
  refine Work.Triple.bind (Q := fun _ => BothExactlyOnce) (.write fun s hs => ⟨hs.1, ?_⟩) fun id => ?_
  · exact hs.2.insertSchedule body rfl rfl (by simp)
  · exact .bind (Q := fun _ => BothExactlyOnce) (.commit fun s hs => ⟨hs.2, hs.2⟩) fun _ => hf id

theorem scheduleCreate_keeps {d : Database} (body : ScheduleRow) (hd : ExactlyOnce d) :
    ExactlyOnce ((ScheduleSvc.create server body).saved d) := by
  refine Work.Triple.saved (P := ExactlyOnce) ?_
  have hcall : Work.Triple BothExactlyOnce (ScheduleSvc.create server body) (fun _ => BothExactlyOnce)
      fun _ => BothExactlyOnce := by
    refine .bind (Q := fun _ => BothExactlyOnce) ?_ fun _ => insert_commit_triple body fun id => ?_
    · refine .bind (Q := fun _ => BothExactlyOnce) (.read fun s hs => hs) fun e => ?_
      cases e with
      | none => exact .pure fun s hs => hs
      | some e => exact .raise fun s hs => hs
    · refine .bind (syncSchedule_triple id) fun _ => ?_
      refine .bind (Q := fun _ => BothExactlyOnce) (.onOwnConnection ?_) fun _ => .pure fun s hs => hs
      refine (catchUpSingleSchedule_keeps id).consequence ?_ (fun _ s hs => ⟨hs, hs⟩)
        fun _ _ h => h.elim
      rintro _ ⟨s, hs, rfl⟩
      exact ⟨s.committed, s.history, hs.1, rfl⟩
  exact hcall.consequence (fun s hs => hs ▸ ⟨hd, hd⟩) (fun _ _ h => h.1) fun _ _ h => h.1

/-- A full schedule that makes no initial transaction. -/
theorem scheduleFullCreate_keeps {d : Database} (body : ScheduleRow) (hd : ExactlyOnce d)
    (hlater : body.startDate = server.today → ¬ ScheduleFullSvc.Inserts server body d) :
    ExactlyOnce ((ScheduleFullSvc.create server body).saved d) := by
  by_cases htoday : body.startDate = server.today
  · obtain ⟨e, s', hcall, hcommitted⟩ := ScheduleFullSvc.create_of_not_inserts (hlater htoday)
    rw [Work.saved, hcall]
    exact hcommitted.symm ▸ hd
  · refine Work.Triple.saved (P := ExactlyOnce) ?_
    refine .orRollback (Q := fun _ s => ExactlyOnce s.committed) ?_ fun e s hs => hs
    have hcall : ∀ type_ entity_id currency, Work.Triple BothExactlyOnce
        (ScheduleFullSvc.createComplete server body type_ entity_id currency)
        (fun _ => BothExactlyOnce) fun _ => BothExactlyOnce := by
      intro type_ entity_id currency
      unfold ScheduleFullSvc.createComplete ScheduleFullSvc.createInitial
      rw [if_neg htoday, pure_bind]
      refine insert_commit_triple body fun id => ?_
      exact .bind (syncSchedule_triple id) fun _ => .pure fun s hs => hs
    split
    · exact (hcall _ _ _).consequence (fun s hs => hs ▸ ⟨hd, hd⟩) (fun _ _ h => h.1) fun _ _ h => h.1
    · exact .raise fun s hs => hs ▸ hd

/-! ## Live fires -/

/-- The fire finds nothing to make, or a date in the range of its schedule. -/
def FiresInRange (server : Server) (d : Database) (schedule_id : ℕ) : Prop :=
  ∀ sch ∈ d.schedules.get? schedule_id, pastEnd server sch = false →
    (embeddedFields d sch).isSome = true →
    (schedule_id, occurrenceDate server) ∉ d.occurrences.map Occurrence.key →
    InRange sch (occurrenceDate server)

instance (server : Server) (d : Database) (schedule_id : ℕ) :
    Decidable (FiresInRange server d schedule_id) :=
  inferInstanceAs (Decidable (∀ sch ∈ d.schedules.get? schedule_id, _ → _ → _ → _))

theorem executeSchedule_keeps {d : Database} {schedule_id : ℕ} (hd : ExactlyOnce d)
    (hrange : FiresInRange server d schedule_id) :
    ExactlyOnce ((executeSchedule server schedule_id).saved d) := by
  rcases cloneTx_cases server schedule_id (.ofDb d) with hskip | hdup |
    ⟨sch, type_, entity_id, currency, hsch, hpast, hfields, hfresh, hmade⟩
  · rw [Work.saved, executeSchedule_ok hskip]
    exact hd
  · rw [Work.saved, executeSchedule_error hdup]
    exact hd
  · rw [Work.saved, executeSchedule_ok hmade]
    have hin := hrange sch hsch hpast (Option.isSome_of_eq_some hfields) hfresh
    exact hd.record hfresh hsch hin (by simp [Session.clean, Session.ofDb])
      (by simp [Session.clean, Session.ofDb]) (by simp [Session.clean, Session.ofDb])

/-! ## Runs -/

/-- What happens to the schedules and the ledger, in any order. -/
inductive SchedulerEvent where
  | scheduleCreate (server : Server) (body : ScheduleRow)
  | scheduleFullCreate (server : Server) (body : ScheduleRow)
  | fire (server : Server) (schedule_id : ℕ)
  | shutdown (server : Server)
  | boot (server : Server)
  | catchUp (server : Server) (schedule_id : ℕ)
  | ledgerCall (c : LedgerCall)

namespace SchedulerEvent

/-- The database after an event. A call that raises may have left something, and a ledger call that
raises has not. -/
def after (d : Database) : SchedulerEvent → Database
  | scheduleCreate server body => (ScheduleSvc.create server body).saved d
  | scheduleFullCreate server body => (ScheduleFullSvc.create server body).saved d
  | fire server schedule_id => (executeSchedule server schedule_id).saved d
  | shutdown server => (saveShutdownTimestamp server).saved d
  | boot server => (catchUpMissedFires server).saved d
  | catchUp server schedule_id => (catchUpSingleSchedule server schedule_id).saved d
  | ledgerCall c =>
    match d.ledger.call c with
    | .ok l => { d with ledger := l }
    | .error _ => d

/-- The event as a call of the transition system, which never raises. -/
def call (d : Database) (e : SchedulerEvent) : Except CallError Database := .ok (e.after d)

/-- No full schedule makes an initial transaction, and no live fire leaves the range of its
schedule. -/
def InOrder (d : Database) : SchedulerEvent → Prop
  | scheduleFullCreate server body =>
    body.startDate = server.today → ¬ ScheduleFullSvc.Inserts server body d
  | fire server schedule_id => FiresInRange server d schedule_id
  | scheduleCreate _ _ | shutdown _ | boot _ | catchUp _ _ | ledgerCall _ => True

theorem after_keeps {d : Database} {e : SchedulerEvent} (hd : ExactlyOnce d) (he : e.InOrder d) :
    ExactlyOnce (e.after d) := by
  cases e with
  | scheduleCreate server body => exact scheduleCreate_keeps body hd
  | scheduleFullCreate server body => exact scheduleFullCreate_keeps body hd he
  | fire server schedule_id => exact executeSchedule_keeps hd he
  | shutdown server => exact hd.congr rfl rfl rfl
  | boot server => exact catchUpMissedFires_keeps.saved hd
  | catchUp server schedule_id => exact (catchUpSingleSchedule_keeps schedule_id).saved hd
  | ledgerCall c =>
    simp only [after]
    cases d.ledger.call c with
    | ok l => exact hd.congr rfl rfl rfl
    | error e => exact hd

end SchedulerEvent

namespace Sample

open SchedulerEvent

/-- A monthly salary from 2026-06-15. -/
def salary : ScheduleRow where
  __ := fromMidJune .monthly
  description := "salary"
  entityId := some 0
  currency := some usd
  type := some .income
  incomeCategory := some .salary
  totalValue := some 100

def run (es : List SchedulerEvent) : Database := es.foldl SchedulerEvent.after database

theorem reaches_run {es : List SchedulerEvent}
    (h : Runs.AllAllowed SchedulerEvent.call InOrder database es) :
    Runs.Reaches SchedulerEvent.call InOrder database (run es) :=
  Runs.reaches_of_foldlM (List.foldlM_pure ..) h

/-- Created in advance, fired on its first date, and caught up two months later. -/
def salaryRun : List SchedulerEvent :=
  [.scheduleCreate (serverOn (date 2026 6 10 (by decide)) 12) salary,
    .fire (serverOn salary.startDate 0) 0,
    .shutdown (serverOn (date 2026 6 20 (by decide)) 12),
    .boot (serverOn (date 2026 8 20 (by decide)) 12)]

end Sample

end FinHub
