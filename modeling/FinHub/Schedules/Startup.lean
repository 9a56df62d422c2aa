import FinHub.Schedules.Materialized

/-!
# FinHub.Schedules.Startup

The catch-up of a start, over the schedules of all profiles.

One run scopes its connection to the profile of each schedule in turn. `AppDatabase` keeps a ledger for
every profile; the tables of the scheduler are shared, and an occurrence has the profile of its schedule.
The checks of `transactions` are the enumerations of a row, which the columns of a schedule already are.

* `keys_catchUpMissedFires`: the occurrences a run leaves, unless it returns early.
* `catchUp_complete_iff`: when these are all that are due. The early return takes a schedule that starts
  today for one that starts later.
-/

namespace FinHub

open Calendar Tabular Db Scheduler

structure OwnedSchedule where
  profileId : ℕ
  row : ScheduleRow

structure AppDatabase where
  ledgers : ℕ → Ledger
  schedules : Table OwnedSchedule
  occurrences : List Occurrence
  lastShutdown : Option Date
  occurrences_unique : (occurrences.map Occurrence.key).Nodup

namespace AppDatabase

/-- What a connection scoped to a profile has of it. The writers of a date read no schedule. -/
def ofProfile (profile_id : ℕ) (d : AppDatabase) : Database where
  ledger := d.ledgers profile_id
  schedules := .empty
  occurrences := d.occurrences
  lastShutdown := d.lastShutdown
  made := []
  occurrences_unique := d.occurrences_unique

def putProfile (profile_id : ℕ) (d : AppDatabase) (part : Database) : AppDatabase where
  ledgers := Function.update d.ledgers profile_id part.ledger
  schedules := d.schedules
  occurrences := part.occurrences
  lastShutdown := d.lastShutdown
  occurrences_unique := part.occurrences_unique

/-- `_scoped_profile`. -/
def scopedProfile {α : Type} (profile_id : ℕ) (w : Work Database CallError α) :
    Work AppDatabase CallError α :=
  .focus (ofProfile profile_id) (putProfile profile_id) w

/-- The keys of the occurrences. -/
def keys (d : AppDatabase) : List (ℕ × ℤ) := d.occurrences.map Occurrence.key

/-- The schedule has its required fields and a live entity. -/
def CanFire (d : AppDatabase) (r : ℕ × OwnedSchedule) : Prop :=
  (embeddedFields (d.ofProfile r.2.profileId) r.2.row).isSome = true

instance (d : AppDatabase) (r : ℕ × OwnedSchedule) : Decidable (d.CanFire r) :=
  inferInstanceAs (Decidable (_ = true))

end AppDatabase

namespace Startup

/-- A schedule in the loop of `catchUpMissedFires`. -/
def catchUpOwned (server : Server) (last_shutdown : Option Date) (total : ℕ) (r : ℕ × OwnedSchedule) :
    Work AppDatabase CallError ℕ :=
  AppDatabase.scopedProfile r.2.profileId (catchUpRow server last_shutdown total (r.1, r.2.row))

/-- The early returns of `catchUpMissedFires`. -/
def nothingMissed (server : Server) (last_shutdown : Option Date) (schedules : Table OwnedSchedule) :
    Bool :=
  match last_shutdown, (schedules.rows.map fun r => r.2.row.startDate).min? with
  | some _, _ => false
  | none, some earliest => decide (server.utcToday ≤ earliest)
  | none, none => true

def commitIfAny (total : ℕ) : Work AppDatabase CallError Unit :=
  if 0 < total then .commit else pure ()

def catchUpMissedFires (server : Server) : Work AppDatabase CallError Unit :=
  .tryExcept
    (do
      let last_shutdown ← Work.read AppDatabase.lastShutdown
      let schedules ← Work.read AppDatabase.schedules
      if nothingMissed server last_shutdown schedules then pure ()
      else
        let total_created ← schedules.rows.foldlM (catchUpOwned server last_shutdown) 0
        commitIfAny total_created)
    fun _ => .rollback

/-! ## One schedule -/

/-- The keys that a catch-up of some dates records. -/
def due (d : Database) (schedule_id : ℕ) (sch : ScheduleRow) (dates : List Date) : List (ℕ × ℤ) :=
  if (embeddedFields d sch).isSome then dates.map fun fire_date => (schedule_id, dayNumber fire_date)
  else []

/-- The keys of the occurrences. -/
def keysOf (d : Database) : List (ℕ × ℤ) := d.occurrences.map Occurrence.key

/-- No entity changes, so neither does what can fire. -/
def SameEntities (d d' : Database) : Prop := d'.ledger.entities = d.ledger.entities

theorem SameEntities.refl (d : Database) : SameEntities d d := rfl

theorem SameEntities.trans {d d' d'' : Database} (h : SameEntities d d') (h' : SameEntities d' d'') :
    SameEntities d d'' := Eq.trans h' h

theorem due_congr {d d' : Database} (h : SameEntities d d') (schedule_id : ℕ) (sch : ScheduleRow)
    (dates : List Date) : due d' schedule_id sch dates = due d schedule_id sch dates := by
  unfold due
  rw [embeddedFields_congr h]

theorem flatMap_due (d : Database) (schedule_id : ℕ) (sch : ScheduleRow) (dates : List Date) :
    (dates.flatMap fun fire_date => due d schedule_id sch [fire_date]) = due d schedule_id sch dates := by
  unfold due
  split_ifs
  · exact List.flatMap_pure_eq_map _ _
  · simp

theorem completed_entities (d : Database) (tx_id : ℕ) (row : Transaction) :
    (completed d tx_id row).ledger.entities = d.ledger.entities := by
  unfold completed
  split <;> rfl

theorem recalculated_entities (l : Ledger) (entity_id : ℕ) (currency : Currency) (fire_date : Date) :
    (recalculated l entity_id currency fire_date).entities = l.entities := by
  rcases recalculated_cases l entity_id currency fire_date with he | ⟨k, f, he⟩ | ⟨t, he⟩ <;> rw [he]
  all_goals rfl

/-- One date: what is due is recorded, and where nothing is made nothing happens. -/
theorem catchUpDate_records (server : Server) (schedule_id : ℕ) (sch : ScheduleRow) (fire_date : Date) :
    Work.Records keysOf SameEntities (fun d => due d schedule_id sch [fire_date]) fun total =>
      catchUpDate server schedule_id sch total fire_date := by
  intro total s
  rcases catchUpDate_cases server schedule_id sch total fire_date s with
    ⟨hskips, hskip⟩ | ⟨type_, entity_id, currency, hfields, hfresh, hcall⟩
  · refine ⟨0, s, hskip, ?_, rfl, fun _ => rfl, fun _ => rfl⟩
    intro k
    have hdue : k ∈ due s.working schedule_id sch [fire_date] → k ∈ keysOf s.working := by
      intro hk
      unfold due at hk
      split_ifs at hk with hfields
      · rw [List.map_singleton, List.mem_singleton] at hk
        rcases hskips with hrecorded | hnone
        · rw [hk]
          exact hrecorded
        · rw [hnone] at hfields
          cases hfields
      · cases hk
    exact ⟨.inl, fun h => h.elim id hdue⟩
  · have hdue : due s.working schedule_id sch [fire_date] = [(schedule_id, dayNumber fire_date)] := by
      unfold due
      rw [hfields]
      rfl
    refine ⟨1, _, hcall, ?_, ?_, fun h => absurd h one_ne_zero, ?_⟩
    · intro k
      simp only [hdue, keysOf, Database.withOccurrence_occurrences, completed_occurrences,
        Database.withGenerated_occurrences, List.map_append, List.mem_append, List.map_singleton]
      rfl
    · simp only [SameEntities, recalculated_entities, completed_entities,
        Database.withGenerated_ledger, Ledger.insertTransaction_entities]
    · intro hall
      have hkey := hall (schedule_id, dayNumber fire_date) (by simp [hdue])
      rw [completed_occurrences] at hfresh
      exact absurd hkey hfresh

/-- The dates of one schedule. -/
theorem catchUpDates_records (server : Server) (schedule_id : ℕ) (sch : ScheduleRow) (since : Date) :
    Work.Records keysOf SameEntities
      (fun d => due d schedule_id sch (computeFireDates sch since server.utcToday)) fun total =>
        catchUpDates server schedule_id sch since total := by
  have hloop : Work.Records keysOf SameEntities
      (fun d => (computeFireDates sch since server.utcToday).flatMap fun fire_date =>
        due d schedule_id sch [fire_date])
      fun total => (computeFireDates sch since server.utcToday).foldlM
        (catchUpDate server schedule_id sch) total :=
    .foldlM SameEntities.refl (fun _ _ _ => SameEntities.trans)
      (fun fire_date _ _ h => due_congr h schedule_id sch [fire_date])
      (catchUpDate_records server schedule_id sch) _
  simp only [flatMap_due] at hloop
  exact hloop

/-! ## All schedules -/

/-- The keys that a run records for a schedule. -/
def dueOwned (server : Server) (last_shutdown : Option Date) (r : ℕ × OwnedSchedule) (d : AppDatabase) :
    List (ℕ × ℤ) :=
  due (d.ofProfile r.2.profileId) r.1 r.2.row
    (computeFireDates r.2.row (catchUpSince last_shutdown r.2.row) server.utcToday)

/-- Schedules, the shutdown and all entities are as they were. -/
structure SameTables (d d' : AppDatabase) : Prop where
  entities : ∀ profile_id, (d'.ledgers profile_id).entities = (d.ledgers profile_id).entities
  schedules : d'.schedules = d.schedules
  lastShutdown : d'.lastShutdown = d.lastShutdown

theorem SameTables.refl (d : AppDatabase) : SameTables d d := ⟨fun _ => rfl, rfl, rfl⟩

theorem SameTables.trans {d d' d'' : AppDatabase} (h : SameTables d d') (h' : SameTables d' d'') :
    SameTables d d'' where
  entities profile_id := (h'.entities profile_id).trans (h.entities profile_id)
  schedules := h'.schedules.trans h.schedules
  lastShutdown := h'.lastShutdown.trans h.lastShutdown

theorem putProfile_ofProfile (profile_id : ℕ) (d : AppDatabase) :
    AppDatabase.putProfile profile_id d (d.ofProfile profile_id) = d := by
  unfold AppDatabase.putProfile AppDatabase.ofProfile
  simp only [Function.update_eq_self]

theorem sameTables_putProfile (profile_id : ℕ) (d : AppDatabase) (part : Database)
    (h : SameEntities (d.ofProfile profile_id) part) :
    SameTables d (AppDatabase.putProfile profile_id d part) where
  entities p := by
    change (Function.update d.ledgers profile_id part.ledger p).entities = (d.ledgers p).entities
    by_cases hp : p = profile_id
    · rw [hp, Function.update_self]
      exact h
    · rw [Function.update_of_ne hp]
  schedules := rfl
  lastShutdown := rfl

theorem catchUpOwned_records (server : Server) (last_shutdown : Option Date) (r : ℕ × OwnedSchedule) :
    Work.Records AppDatabase.keys SameTables (dueOwned server last_shutdown r) fun total =>
      catchUpOwned server last_shutdown total r :=
  (catchUpDates_records server r.1 r.2.row (catchUpSince last_shutdown r.2.row)).focus (fun _ => rfl)
    (fun _ _ => rfl) (sameTables_putProfile r.2.profileId) (putProfile_ofProfile r.2.profileId)

theorem dueOwned_congr (server : Server) (last_shutdown : Option Date) (r : ℕ × OwnedSchedule)
    {d d' : AppDatabase} (h : SameTables d d') :
    dueOwned server last_shutdown r d' = dueOwned server last_shutdown r d :=
  due_congr (show SameEntities (d.ofProfile _) (d'.ofProfile _) from h.entities r.2.profileId) _ _ _

/-- The keys that a run records. -/
def dueAll (server : Server) (last_shutdown : Option Date) (schedules : Table OwnedSchedule)
    (d : AppDatabase) : List (ℕ × ℤ) :=
  schedules.rows.flatMap fun r => dueOwned server last_shutdown r d

theorem catchUpRows_records (server : Server) (last_shutdown : Option Date)
    (schedules : Table OwnedSchedule) :
    Work.Records AppDatabase.keys SameTables (dueAll server last_shutdown schedules) fun total =>
      schedules.rows.foldlM (catchUpOwned server last_shutdown) total :=
  .foldlM SameTables.refl (fun _ _ _ => SameTables.trans)
    (fun r _ _ h => dueOwned_congr server last_shutdown r h) (catchUpOwned_records server last_shutdown) _

/-! ## A whole run -/

/-- A run does nothing, or records what is due. -/
theorem catchUpMissedFires_cases (server : Server) (d : AppDatabase) :
    nothingMissed server d.lastShutdown d.schedules = true ∧
      catchUpMissedFires server (.ofDb d) = (.ok (), .ofDb d) ∨
    nothingMissed server d.lastShutdown d.schedules = false ∧ ∃ s',
      catchUpMissedFires server (.ofDb d) = (.ok (), s') ∧
      (∀ k, k ∈ s'.committed.keys ↔ k ∈ d.keys ∨ k ∈ dueAll server d.lastShutdown d.schedules d) ∧
      SameTables d s'.committed ∧
      ((∀ k ∈ dueAll server d.lastShutdown d.schedules d, k ∈ d.keys) → s' = .ofDb d) := by
  cases hmissed : nothingMissed server d.lastShutdown d.schedules with
  | true =>
    refine .inl ⟨rfl, Work.tryExcept_ok ?_⟩
    simp only [Work.read_bind, Session.ofDb, Session.clean, hmissed, if_true, Work.pure_apply]
  | false =>
    obtain ⟨n, s', hrows, hkeys, hsame, hstill, hquiet⟩ :=
      catchUpRows_records server d.lastShutdown d.schedules 0 (.ofDb d)
    dsimp only at hrows
    rw [zero_add] at hrows
    refine .inr ⟨rfl, ?_⟩
    have hbody : ∀ s'' : Session AppDatabase, commitIfAny n s' = (.ok (), s'') →
        catchUpMissedFires server (.ofDb d) = (.ok (), s'') := by
      intro s'' hcommit
      refine Work.tryExcept_ok ?_
      simp only [Work.read_bind, Session.ofDb, Session.clean, hmissed, Bool.false_eq_true, if_false]
      exact (Work.bind_ok hrows).trans hcommit
    by_cases hn : n = 0
    · obtain rfl := hstill hn
      refine ⟨.ofDb d, hbody _ (by rw [hn]; rfl), hkeys, hsame, fun _ => rfl⟩
    · refine ⟨.clean s'.working (s'.working :: s'.history), hbody _ ?_, hkeys, hsame, ?_⟩
      · unfold commitIfAny
        rw [if_pos (Nat.pos_of_ne_zero hn)]
        rfl
      · intro hall
        exact absurd (hquiet hall) hn

/-! ## Completeness -/

/-- A window that starts before the schedule starts with it. -/
theorem computeFireDates_of_le {sch : ScheduleRow} {since : Date} (h : since ≤ sch.startDate)
    (until_ : Date) : computeFireDates sch since until_ = computeFireDates sch sch.startDate until_ := by
  have hloop : ∀ (step : Date → Date), (∀ x, x < step x) → ∀ last fuel current, sch.startDate ≤ current →
      upTo step since last fuel current = upTo step sch.startDate last fuel current := by
    intro step hstep last fuel
    induction fuel with
    | zero =>
      intro current _
      rfl
    | succ fuel ih =>
      intro current hcurrent
      rw [upTo, upTo, if_pos (h.trans hcurrent), if_pos hcurrent,
        ih (step current) (hcurrent.trans (hstep current).le)]
  have hfires : ∀ last, firesUpTo sch since last = firesUpTo sch sch.startDate last := by
    intro last
    unfold firesUpTo
    dsimp only
    simp only [h, le_refl, true_and]
    cases hs : step? sch with
    | none => rfl
    | some step =>
      dsimp only
      rw [hloop step (lt_of_step? hs) last _ _ (le_refl _)]
  unfold computeFireDates
  cases sch.endDate with
  | none => exact hfires until_
  | some end_ => simp only [hfires]

theorem catchUpSince_le (last_shutdown : Option Date) (sch : ScheduleRow) :
    catchUpSince last_shutdown sch ≤ sch.startDate := by
  unfold catchUpSince
  cases last_shutdown with
  | none => exact le_refl _
  | some since_date => exact min_le_right _ _

theorem mem_dueAll {server : Server} {last_shutdown : Option Date} {schedules : Table OwnedSchedule}
    {d : AppDatabase} {k : ℕ × ℤ} : k ∈ dueAll server last_shutdown schedules d ↔
      ∃ r ∈ schedules.rows, d.CanFire r ∧
        ∃ fire_date ∈ computeFireDates r.2.row r.2.row.startDate server.utcToday,
          k = (r.1, dayNumber fire_date) := by
  unfold dueAll dueOwned due AppDatabase.CanFire
  rw [List.mem_flatMap]
  refine exists_congr fun r => and_congr_right fun _ => ?_
  rw [computeFireDates_of_le (catchUpSince_le _ _)]
  split_ifs with hfields
  · rw [List.mem_map]
    constructor
    · rintro ⟨fire_date, hmem, rfl⟩
      exact ⟨hfields, fire_date, hmem, rfl⟩
    · rintro ⟨_, fire_date, hmem, rfl⟩
      exact ⟨fire_date, hmem, rfl⟩
  · constructor
    · intro hk
      cases hk
    · rintro ⟨hyes, _⟩
      exact absurd hyes hfields

theorem nothingMissed_iff {server : Server} {last_shutdown : Option Date}
    {schedules : Table OwnedSchedule} : nothingMissed server last_shutdown schedules = true ↔
      last_shutdown = none ∧ ∀ r ∈ schedules.rows, server.utcToday ≤ r.2.row.startDate := by
  unfold nothingMissed
  cases last_shutdown with
  | some since_date => simp
  | none =>
    cases hmin : (schedules.rows.map fun r => r.2.row.startDate).min? with
    | none =>
      rw [List.min?_eq_none_iff, List.map_eq_nil_iff] at hmin
      simp [hmin]
    | some earliest =>
      obtain ⟨hmem, hle⟩ := List.min?_eq_some_iff.mp hmin
      simp only [decide_eq_true_eq, true_and]
      constructor
      · intro h r hr
        exact h.trans (hle _ (List.mem_map_of_mem hr))
      · intro h
        obtain ⟨r, hr, rfl⟩ := List.mem_map.mp hmem
        exact h r hr

/-- What a catch-up is for: every date that is due, of every schedule that can fire, has exactly one
occurrence in `d'`. -/
def Complete (server : Server) (d d' : AppDatabase) : Prop :=
  ∀ r ∈ d.schedules.rows, d.CanFire r → r.2.row.periodicityType ≠ .custom →
    ∀ fire_date ∈ computeFireDates r.2.row r.2.row.startDate server.utcToday,
      d'.keys.count (r.1, dayNumber fire_date) = 1

/-- Without a recorded shutdown, every schedule starts today or later, and one that starts today and has
not ended has no occurrence yet. -/
def MissesToday (server : Server) (d : AppDatabase) : Prop :=
  d.lastShutdown = none ∧ (∀ r ∈ d.schedules.rows, server.utcToday ≤ r.2.row.startDate) ∧
    ∃ r ∈ d.schedules.rows, d.CanFire r ∧ r.2.row.periodicityType ≠ .custom ∧
      r.2.row.startDate = server.utcToday ∧ (∀ end_ ∈ r.2.row.endDate, server.utcToday ≤ end_) ∧
      (r.1, dayNumber server.utcToday) ∉ d.keys

instance (server : Server) (d : AppDatabase) : Decidable (MissesToday server d) :=
  inferInstanceAs (Decidable (_ ∧ _ ∧ ∃ r ∈ d.schedules.rows, _ ∧ _ ∧ _ ∧ (∀ end_ ∈ r.2.row.endDate, _) ∧ _))

theorem onCadence_startDate {sch : ScheduleRow} (h : sch.periodicityType ≠ .custom) :
    OnCadence sch sch.startDate := by
  have hday := (min_eq_left sch.startDate.day_le_lengthAt).symm
  unfold OnCadence
  cases hp : sch.periodicityType with
  | oneOff => rfl
  | daily => trivial
  | weekly => rfl
  | monthly => exact hday
  | quarterly => exact ⟨by simp, hday⟩
  | annually => exact ⟨by simp, hday⟩
  | custom => exact absurd hp h

theorem count_keys_eq_one_iff (d : AppDatabase) (k : ℕ × ℤ) : d.keys.count k = 1 ↔ k ∈ d.keys := by
  constructor
  · intro h
    exact List.count_pos_iff.mp (by omega)
  · intro h
    exact List.count_eq_one_of_mem d.occurrences_unique h

/-- When nothing is done, everything due is there unless a schedule that starts today is missed. -/
theorem complete_self_iff {server : Server} {d : AppDatabase} (hnone : d.lastShutdown = none)
    (hlater : ∀ r ∈ d.schedules.rows, server.utcToday ≤ r.2.row.startDate) :
    Complete server d d ↔ ¬ MissesToday server d := by
  constructor
  · rintro hcomplete ⟨_, _, r, hr, hfire, hcustom, hstart, hend, hmissing⟩
    have hdue : server.utcToday ∈ computeFireDates r.2.row r.2.row.startDate server.utcToday := by
      rw [mem_computeFireDates]
      refine ⟨hstart.le, le_refl _, hend, ?_⟩
      rw [← hstart]
      exact onCadence_startDate hcustom
    exact hmissing ((count_keys_eq_one_iff d _).mp (hcomplete r hr hfire hcustom _ hdue))
  · intro hmisses r hr hfire hcustom fire_date hdate
    obtain ⟨hstart, htoday, hend, _⟩ := (mem_computeFireDates _ _ _).mp hdate
    obtain rfl : fire_date = server.utcToday := le_antisymm htoday ((hlater r hr).trans hstart)
    rw [count_keys_eq_one_iff]
    by_contra hmissing
    exact hmisses ⟨hnone, hlater, r, hr, hfire, hcustom, le_antisymm hstart (hlater r hr), hend, hmissing⟩

end Startup

open Startup

/-- A catch-up answers without an exception and, run again at the same instant, changes nothing. It leaves
one occurrence for every date that is due unless it misses a schedule that starts today. -/
theorem catchUp_complete_iff (server : Server) (d : AppDatabase) :
    let d' := (Startup.catchUpMissedFires server).saved d
    (Complete server d d' ∧ (Startup.catchUpMissedFires server).saved d' = d') ↔ ¬ MissesToday server d := by
  intro d'
  rcases catchUpMissedFires_cases server d with
    ⟨hmissed, hcall⟩ | ⟨hmissed, s', hcall, hkeys, hsame, _⟩
  · have hsaved : d' = d := by
      change ((Startup.catchUpMissedFires server) (.ofDb d)).2.committed = d
      rw [hcall]
      rfl
    obtain ⟨hnone, hlater⟩ := nothingMissed_iff.mp hmissed
    have hagain : (Startup.catchUpMissedFires server).saved d' = d' := by rw [hsaved]; exact hsaved
    rw [and_iff_left hagain, hsaved]
    exact complete_self_iff hnone hlater
  · have hsaved : d' = s'.committed := by
      change ((Startup.catchUpMissedFires server) (.ofDb d)).2.committed = _
      rw [hcall]
    rw [← hsaved] at hkeys hsame
    -- what is due is the same afterwards, and all of it is recorded
    have hdue : dueAll server d'.lastShutdown d'.schedules d' = dueAll server d.lastShutdown d.schedules d := by
      unfold dueAll
      rw [hsame.lastShutdown, hsame.schedules]
      simp only [dueOwned_congr server _ _ hsame]
    have hmissed' : nothingMissed server d'.lastShutdown d'.schedules = false := by
      rw [hsame.lastShutdown, hsame.schedules]
      exact hmissed
    refine iff_of_true ⟨?_, ?_⟩ ?_
    · intro r hr hfire _ fire_date hdate
      rw [count_keys_eq_one_iff, hkeys]
      exact .inr (mem_dueAll.mpr ⟨r, hr, hfire, fire_date, hdate, rfl⟩)
    · rcases catchUpMissedFires_cases server d' with ⟨hyes, _⟩ | ⟨_, s'', hcall', _, _, hstill⟩
      · rw [hmissed'] at hyes
        cases hyes
      · rw [Work.saved, hcall', hstill fun k hk => (hkeys k).mpr (.inr (hdue ▸ hk))]
        rfl
    · rintro ⟨hnone, hlater, _⟩
      rw [nothingMissed_iff.mpr ⟨hnone, hlater⟩] at hmissed
      cases hmissed

namespace Sample

/-- Ten dollars of income for the bank, every day from 2026-06-15. -/
def dailyIncome : ScheduleRow :=
  { fromMidJune .daily with
    entityId := some 0
    currency := some usd
    type := some .income
    totalValue := some 10 }

/-- One schedule of one profile, on a database that was never shut down. -/
def withSchedule (row : ScheduleRow) : AppDatabase where
  ledgers := fun _ => profile
  schedules := Table.empty.insert ⟨0, row⟩
  occurrences := database.occurrences
  lastShutdown := none
  occurrences_unique := database.occurrences_unique

/-- On its first day the catch-up passes the schedule over. -/
theorem startsToday_missed : ¬ ∀ server d, Complete server d ((Startup.catchUpMissedFires server).saved d) := by
  intro hall
  have hcount := hall (serverOn dailyIncome.startDate 12) (withSchedule dailyIncome) (0, ⟨0, dailyIncome⟩)
    (.head _) (by decide +kernel) (by decide +kernel) dailyIncome.startDate (by decide +kernel)
  exact absurd hcount (by decide +kernel)

end Sample

end FinHub
