import FinHub.Schedules.Startup

/-!
# FinHub.Schedules.InitScheduler

A start of the scheduler: the catch-up, then the registration of the jobs.

The jobs live in the memory of the process. The parser of cron expressions may refuse the one of a schedule,
which has been stored before it was parsed; the registration then ends where it is.

* `registerJobs_eq`: which jobs are there when it ends.
* `isolated_iff`: when a refused schedule makes no difference to the others.
-/

namespace FinHub

open Calendar Tabular Db Scheduler Startup

/-! ## Jobs -/

inductive JobId where
  | schedule (id : ℕ)
  | priceSync | rateSync | macroSync | backupDaily
  deriving DecidableEq

/-- `_job_id` and the ids of the scheduler's own jobs. -/
def JobId.text : JobId → String
  | schedule id => s!"schedule_{id}"
  | priceSync => "price_sync"
  | rateSync => "rate_sync"
  | macroSync => "macro_sync"
  | backupDaily => "backup_daily"

inductive JobTrigger where
  | schedule (t : Trigger)
  | daily (hours : List (Fin 24)) (minute : Fin 60)

structure Job where
  id : JobId
  trigger : JobTrigger

/-- The hours of the scheduler's own jobs; an empty list or none disables the job. -/
structure SchedulerConfig where
  syncCronHours : List (Fin 24)
  rateSyncHourUtc : Option (Fin 24)
  macroSyncHoursUtc : List (Fin 24)
  backupCron : Option (Fin 24 × Fin 60)

/-- `add_job` with `replace_existing`. -/
def addJob (jobs : List Job) (job : Job) : List Job :=
  jobs.filter (fun j => decide (j.id ≠ job.id)) ++ [job]

def priceSyncJob (config : SchedulerConfig) : Option Job :=
  if config.syncCronHours = [] then none else some ⟨.priceSync, .daily config.syncCronHours 0⟩

def rateSyncJob (config : SchedulerConfig) : Option Job :=
  config.rateSyncHourUtc.map fun hour => ⟨.rateSync, .daily [hour] 0⟩

def macroSyncJob (config : SchedulerConfig) : Option Job :=
  if config.macroSyncHoursUtc = [] then none else some ⟨.macroSync, .daily config.macroSyncHoursUtc 0⟩

def backupJob (config : SchedulerConfig) : Option Job :=
  config.backupCron.map fun cron => ⟨.backupDaily, .daily [cron.1] cron.2⟩

/-- The scheduler's own jobs, in the order of their registration. -/
def systemJobs (config : SchedulerConfig) : List Job :=
  (priceSyncJob config).toList ++ (rateSyncJob config).toList ++ (macroSyncJob config).toList ++
    (backupJob config).toList

/-! ## Registration -/

def trigger (server : Server) (r : ℕ × OwnedSchedule) : Except TriggerError (Option Trigger) :=
  makeTrigger server.fromCrontab r.2.row server.today

/-- `_register_job`. -/
def registerJob (server : Server) (jobs : List Job) (r : ℕ × OwnedSchedule) :
    Except TriggerError (List Job) := do
  match ← trigger server r with
  | none => .ok jobs
  | some t => .ok (addJob jobs ⟨.schedule r.1, .schedule t⟩)

/-- The loop of `init_scheduler`; one that raises leaves the jobs it has registered. -/
def registerJobs (server : Server) : List (ℕ × OwnedSchedule) → List Job →
    Except TriggerError Unit × List Job
  | [], jobs => (.ok (), jobs)
  | r :: rs, jobs =>
    match registerJob server jobs r with
    | .ok jobs => registerJobs server rs jobs
    | .error e => (.error e, jobs)

/-- The process after a start. -/
structure Started where
  database : AppDatabase
  jobs : List Job
  running : Bool

/-- `init_scheduler`, which starts nothing when it raises. -/
def initScheduler (server : Server) (config : SchedulerConfig) (d : AppDatabase) :
    Except TriggerError Unit × Started :=
  match registerJobs server d.schedules.rows [] with
  | (.error e, jobs) => (.error e, ⟨d, jobs, false⟩)
  | (.ok (), jobs) =>
    let jobs := (systemJobs config).foldl addJob jobs
    (.ok (), ⟨d, jobs, !jobs.isEmpty⟩)

/-- The scheduler's part of a start. What it raises is logged. -/
def startup (server : Server) (config : SchedulerConfig) (d : AppDatabase) : Started :=
  (initScheduler server config ((Startup.catchUpMissedFires server).saved d)).2

/-! ## Refused schedules -/

/-- The parser refuses the expression of the schedule. -/
def refused (server : Server) (r : ℕ × OwnedSchedule) : Bool :=
  match trigger server r with
  | .ok _ => false
  | .error _ => true

/-- The job of a schedule that has a trigger. -/
def jobOf (server : Server) (r : ℕ × OwnedSchedule) : Option Job :=
  match trigger server r with
  | .ok (some t) => some ⟨.schedule r.1, .schedule t⟩
  | .ok none | .error _ => none

/-- The database without the schedules that are refused. -/
def AppDatabase.withoutRefused (server : Server) (d : AppDatabase) : AppDatabase :=
  { d with schedules := d.schedules.removeWhere (refused server) }

/-- Every other schedule has the occurrences and the job that it has when no refused schedule is there, and
the scheduler has its own jobs. -/
structure Isolated (server : Server) (config : SchedulerConfig) (d : AppDatabase) : Prop where
  occurrences : ∀ r ∈ d.schedules.rows, refused server r = false → ∀ day,
    (r.1, day) ∈ (startup server config d).database.keys ↔
      (r.1, day) ∈ (startup server config (d.withoutRefused server)).database.keys
  jobs : ∀ r ∈ d.schedules.rows, refused server r = false → ∀ job, job.id = .schedule r.1 →
    (job ∈ (startup server config d).jobs ↔ job ∈ (startup server config (d.withoutRefused server)).jobs)
  system : ∀ job ∈ systemJobs config, job ∈ (startup server config d).jobs

/-- Nothing is registered after a refused schedule. -/
def NothingAfterRefused (server : Server) (config : SchedulerConfig) (d : AppDatabase) : Prop :=
  ∀ r ∈ d.schedules.rows, refused server r = true → systemJobs config = [] ∧
    ∀ r' ∈ d.schedules.rows, r.1 < r'.1 → jobOf server r' = none

/-- Where the others alone miss a schedule of today, no refused one starts earlier. -/
def SameWindow (server : Server) (d : AppDatabase) : Prop :=
  MissesToday server (d.withoutRefused server) → ∀ r ∈ d.schedules.rows, refused server r = true →
    server.utcToday ≤ r.2.row.startDate

/-! ## What is registered -/

variable {server : Server} {config : SchedulerConfig} {d : AppDatabase}

theorem addJob_of_new {jobs : List Job} {job : Job} (h : ∀ j ∈ jobs, j.id ≠ job.id) :
    addJob jobs job = jobs ++ [job] := by
  unfold addJob
  rw [List.filter_eq_self.mpr fun j hj => decide_eq_true (h j hj)]

theorem foldl_addJob {js jobs : List Job} (hnew : ∀ j ∈ jobs, ∀ k ∈ js, j.id ≠ k.id)
    (hdistinct : js.Pairwise fun j k => j.id ≠ k.id) : js.foldl addJob jobs = jobs ++ js := by
  induction js generalizing jobs with
  | nil => simp
  | cons k js ih =>
    obtain ⟨hk, hjs⟩ := List.pairwise_cons.mp hdistinct
    rw [List.foldl_cons, addJob_of_new fun j hj => hnew j hj k List.mem_cons_self, ih ?_ hjs,
      List.append_assoc, List.singleton_append]
    intro j hj k' hk'
    rcases List.mem_append.mp hj with hj | hj
    · exact hnew j hj k' (List.mem_cons_of_mem _ hk')
    · rw [List.mem_singleton.mp hj]
      exact hk k' hk'

theorem jobOf_id {r : ℕ × OwnedSchedule} {job : Job} (h : jobOf server r = some job) :
    job.id = .schedule r.1 := by
  unfold jobOf at h
  split at h
  · exact congrArg Job.id (Option.some_inj.mp h).symm
  · cases h
  · cases h

theorem registerJob_cases (server : Server) (jobs : List Job) (r : ℕ × OwnedSchedule) :
    (∃ e, refused server r = true ∧ jobOf server r = none ∧ registerJob server jobs r = .error e) ∨
    refused server r = false ∧ registerJob server jobs r = .ok ((jobOf server r).toList.foldl addJob jobs) := by
  unfold refused registerJob jobOf
  cases trigger server r with
  | error e => exact .inl ⟨e, rfl, rfl, rfl⟩
  | ok t =>
    cases t with
    | none => exact .inr ⟨rfl, rfl⟩
    | some t => exact .inr ⟨rfl, rfl⟩

/-- The jobs are those of the schedules before the first that is refused. -/
theorem registerJobs_eq (server : Server) {rs : List (ℕ × OwnedSchedule)}
    (hrs : rs.Pairwise fun a b => a.1 < b.1) (jobs : List Job) (hjobs : ∀ j ∈ jobs, ∀ r ∈ rs, j.id ≠ .schedule r.1) :
    (registerJobs server rs jobs).2 =
        jobs ++ (rs.takeWhile fun r => !refused server r).filterMap (jobOf server) ∧
      ((registerJobs server rs jobs).1 = .ok () ↔ ∀ r ∈ rs, refused server r = false) := by
  induction rs generalizing jobs with
  | nil => simp [registerJobs]
  | cons r rs ih =>
    obtain ⟨hr, hrs⟩ := List.pairwise_cons.mp hrs
    rcases registerJob_cases server jobs r with ⟨e, hrefused, _, hcall⟩ | ⟨hrefused, hcall⟩
    · rw [registerJobs, hcall]
      simp [hrefused]
    · have hnew : (jobOf server r).toList.foldl addJob jobs = jobs ++ (jobOf server r).toList := by
        refine foldl_addJob ?_ ?_
        · intro j hj k hk
          rw [jobOf_id (Option.mem_toList.mp hk)]
          exact hjobs j hj r List.mem_cons_self
        · cases jobOf server r <;> simp
      have hlater : ∀ j ∈ jobs ++ (jobOf server r).toList, ∀ r' ∈ rs, j.id ≠ .schedule r'.1 := by
        intro j hj r' hr'
        rcases List.mem_append.mp hj with hj | hj
        · exact hjobs j hj r' (List.mem_cons_of_mem _ hr')
        · rw [jobOf_id (Option.mem_toList.mp hj)]
          intro heq
          have hid : r.1 = r'.1 := JobId.schedule.inj heq
          exact absurd (hr r' hr') (by omega)
      obtain ⟨hlist, hok⟩ := ih hrs _ hlater
      rw [registerJobs, hcall, hnew]
      refine ⟨?_, ?_⟩
      · rw [hlist, List.takeWhile_cons_of_pos (by simp [hrefused]), List.append_assoc]
        congr 1
        cases hjob : jobOf server r <;> simp [hjob]
      · rw [hok, List.forall_mem_cons, and_iff_right hrefused]

theorem systemJobs_id {job : Job} (h : job ∈ systemJobs config) (id : ℕ) : job.id ≠ .schedule id := by
  unfold systemJobs priceSyncJob rateSyncJob macroSyncJob backupJob at h
  simp only [List.mem_append, Option.mem_toList, Option.map_eq_some_iff] at h
  rcases h with ((h | ⟨_, _, rfl⟩) | h) | ⟨_, _, rfl⟩
  · split_ifs at h
    rw [← Option.some_inj.mp h]
    simp
  · simp
  · split_ifs at h
    rw [← Option.some_inj.mp h]
    simp
  · simp

theorem pairwise_systemJobs (config : SchedulerConfig) :
    (systemJobs config).Pairwise fun j k => j.id ≠ k.id := by
  unfold systemJobs priceSyncJob rateSyncJob macroSyncJob backupJob
  cases config.rateSyncHourUtc <;> cases config.backupCron <;> split_ifs <;> simp

theorem refused_of_jobOf {r : ℕ × OwnedSchedule} {job : Job} (h : jobOf server r = some job) :
    refused server r = false := by
  unfold jobOf at h
  unfold refused
  split at h
  · rename_i ht
    rw [ht]
  · cases h
  · cases h

/-- What stands before the first that is refused. -/
theorem mem_takeWhile_iff {rs : List (ℕ × OwnedSchedule)} (hrs : rs.Pairwise fun a b => a.1 < b.1)
    {r : ℕ × OwnedSchedule} (hr : r ∈ rs) : (r ∈ rs.takeWhile fun r => !refused server r) ↔
      ∀ b ∈ rs, refused server b = true → r.1 < b.1 := by
  induction rs with
  | nil => cases hr
  | cons a rs ih =>
    obtain ⟨ha, hrs⟩ := List.pairwise_cons.mp hrs
    cases hrefused : refused server a with
    | true =>
      rw [List.takeWhile_cons_of_neg (by simp [hrefused])]
      refine iff_of_false (by simp) fun h => ?_
      have hlt := h a List.mem_cons_self hrefused
      rcases List.mem_cons.mp hr with rfl | hr
      · omega
      · have := ha r hr
        omega
    | false =>
      rw [List.takeWhile_cons_of_pos (by simp [hrefused]), List.mem_cons]
      rcases List.mem_cons.mp hr with rfl | hr
      · refine iff_of_true (.inl rfl) ?_
        intro b hb hbad
        rcases List.mem_cons.mp hb with rfl | hb
        · rw [hrefused] at hbad
          cases hbad
        · exact ha b hb
      · rw [or_iff_right (fun he => by rw [he] at hr; exact absurd (ha a hr) (lt_irrefl _)), ih hrs hr,
          List.forall_mem_cons]
        exact (and_iff_right fun hbad => by rw [hrefused] at hbad; cases hbad).symm

theorem initScheduler_jobs (server : Server) (config : SchedulerConfig) (d : AppDatabase) :
    (initScheduler server config d).2.jobs =
      ((d.schedules.rows.takeWhile fun r => !refused server r).filterMap (jobOf server)) ++
        if ∀ r ∈ d.schedules.rows, refused server r = false then systemJobs config else [] := by
  obtain ⟨hlist, hok⟩ := registerJobs_eq server d.schedules.sorted [] fun j hj => by cases hj
  rw [List.nil_append] at hlist
  unfold initScheduler
  cases hrun : registerJobs server d.schedules.rows [] with
  | mk r jobs =>
    rw [hrun] at hlist hok
    dsimp only at hlist hok
    cases r with
    | error e =>
      have hsome : ¬ ∀ r ∈ d.schedules.rows, refused server r = false := by
        intro hall
        have := hok.mpr hall
        cases this
      rw [if_neg hsome, List.append_nil]
      exact hlist
    | ok u =>
      rw [if_pos (hok.mp rfl), ← hlist]
      refine foldl_addJob ?_ (pairwise_systemJobs config)
      intro j hj k hk
      rw [hlist] at hj
      obtain ⟨r, _, hjob⟩ := List.mem_filterMap.mp hj
      rw [jobOf_id hjob]
      exact (systemJobs_id hk r.1).symm

theorem saved_schedules (server : Server) (d : AppDatabase) :
    ((Startup.catchUpMissedFires server).saved d).schedules = d.schedules := by
  rcases catchUpMissedFires_cases server d with ⟨_, hcall⟩ | ⟨_, s', hcall, _, hsame, _⟩
  · rw [Work.saved, hcall]
    rfl
  · rw [Work.saved, hcall]
    exact hsame.schedules

/-- The job of a schedule is there unless it stands after one that is refused. -/
theorem mem_jobs_iff {r : ℕ × OwnedSchedule} (hr : r ∈ d.schedules.rows) {job : Job}
    (hjob : job.id = .schedule r.1) : job ∈ (startup server config d).jobs ↔
      jobOf server r = some job ∧ ∀ b ∈ d.schedules.rows, refused server b = true → r.1 < b.1 := by
  unfold startup
  rw [initScheduler_jobs, saved_schedules, List.mem_append, or_iff_left, List.mem_filterMap]
  · constructor
    · rintro ⟨r', hr', hjob'⟩
      have hmem := List.takeWhile_subset _ hr'
      have hid : r'.1 = r.1 := by
        have := (jobOf_id hjob').symm.trans hjob
        exact JobId.schedule.inj this
      obtain rfl : r' = r :=
        List.inj_on_of_nodup_map d.schedules.nodup_keys hmem hr hid
      exact ⟨hjob', (mem_takeWhile_iff d.schedules.sorted hr).mp hr'⟩
    · rintro ⟨hjob', hbefore⟩
      exact ⟨r, (mem_takeWhile_iff d.schedules.sorted hr).mpr hbefore, hjob'⟩
  · split_ifs
    · exact fun hmem => systemJobs_id hmem r.1 hjob
    · exact List.not_mem_nil

theorem mem_jobs_system_iff {job : Job} (hjob : job ∈ systemJobs config) :
    job ∈ (startup server config d).jobs ↔ ∀ r ∈ d.schedules.rows, refused server r = false := by
  unfold startup
  rw [initScheduler_jobs, saved_schedules, List.mem_append, or_iff_right]
  · split_ifs with hall
    · exact iff_of_true hjob hall
    · exact iff_of_false List.not_mem_nil hall
  · intro hmem
    obtain ⟨r, _, hr⟩ := List.mem_filterMap.mp hmem
    exact systemJobs_id hjob r.1 (jobOf_id hr)

theorem mem_withoutRefused {r : ℕ × OwnedSchedule} :
    r ∈ (d.withoutRefused server).schedules.rows ↔ r ∈ d.schedules.rows ∧ refused server r = false := by
  unfold AppDatabase.withoutRefused
  rw [Table.mem_removeWhere]

/-! ## Isolation -/

theorem isolated_jobs_iff (server : Server) (config : SchedulerConfig) (d : AppDatabase) :
    (∀ r ∈ d.schedules.rows, refused server r = false → ∀ job, job.id = .schedule r.1 → (job ∈ (startup server config d).jobs ↔
        job ∈ (startup server config (d.withoutRefused server)).jobs)) ↔
    ∀ r ∈ d.schedules.rows, refused server r = true →
      ∀ r' ∈ d.schedules.rows, r.1 < r'.1 → jobOf server r' = none := by
  have halone : ∀ r ∈ d.schedules.rows, refused server r = false → ∀ job, job.id = .schedule r.1 →
      (job ∈ (startup server config (d.withoutRefused server)).jobs ↔ jobOf server r = some job) := by
    intro r hr hgood job hjob
    rw [mem_jobs_iff (mem_withoutRefused.mpr ⟨hr, hgood⟩) hjob]
    refine and_iff_left fun b hb hbad => ?_
    rw [(mem_withoutRefused.mp hb).2] at hbad
    cases hbad
  constructor
  · intro h b hb hbad r hr hlt
    cases hjob : jobOf server r with
    | none => rfl
    | some job =>
      have hgood := refused_of_jobOf hjob
      have hid := jobOf_id hjob
      have hmem := (h r hr hgood job hid).mpr ((halone r hr hgood job hid).mpr hjob)
      have hbefore := ((mem_jobs_iff hr hid).mp hmem).2 b hb hbad
      omega
  · intro h r hr hgood job hid
    rw [halone r hr hgood job hid, mem_jobs_iff hr hid]
    refine and_iff_left_of_imp fun hjob b hb hbad => ?_
    by_contra hafter
    have hne : b.1 ≠ r.1 := by
      intro he
      obtain rfl : b = r := List.inj_on_of_nodup_map d.schedules.nodup_keys hb hr he
      rw [hgood] at hbad
      cases hbad
    have hnone := h b hb hbad r hr (by omega)
    rw [hjob] at hnone
    cases hnone

theorem isolated_system_iff : (∀ job ∈ systemJobs config, job ∈ (startup server config d).jobs) ↔
    ∀ r ∈ d.schedules.rows, refused server r = true → systemJobs config = [] := by
  constructor
  · intro h r hr hbad
    rw [List.eq_nil_iff_forall_not_mem]
    intro job hjob
    have hgood := (mem_jobs_system_iff hjob).mp (h job hjob) r hr
    rw [hbad] at hgood
    cases hgood
  · intro h job hjob
    rw [mem_jobs_system_iff hjob]
    intro r hr
    by_contra hbad
    rw [h r hr (Bool.eq_true_of_not_eq_false hbad)] at hjob
    cases hjob

/-- The keys that a run leaves to a schedule. -/
theorem mem_saved_keys {r : ℕ × OwnedSchedule} (hr : r ∈ d.schedules.rows) (day : ℤ) :
    (r.1, day) ∈ ((Startup.catchUpMissedFires server).saved d).keys ↔ (r.1, day) ∈ d.keys ∨
      nothingMissed server d.lastShutdown d.schedules = false ∧ d.CanFire r ∧
        ∃ fire_date ∈ computeFireDates r.2.row r.2.row.startDate server.utcToday,
          day = dayNumber fire_date := by
  rcases catchUpMissedFires_cases server d with ⟨hmissed, hcall⟩ | ⟨hmissed, s', hcall, hkeys, _, _⟩
  · rw [Work.saved, hcall, hmissed]
    simp [Session.ofDb, Session.clean]
  · rw [Work.saved, hcall, hkeys, mem_dueAll, and_iff_right hmissed]
    refine or_congr_right ⟨?_, ?_⟩
    · rintro ⟨r', hr', hfire, fire_date, hdate, he⟩
      obtain ⟨hid, hday⟩ := Prod.mk.inj he
      obtain rfl : r = r' := List.inj_on_of_nodup_map d.schedules.nodup_keys hr hr' hid
      exact ⟨hfire, fire_date, hdate, hday⟩
    · rintro ⟨hfire, fire_date, hdate, rfl⟩
      exact ⟨r, hr, hfire, fire_date, hdate, rfl⟩

theorem isolated_occurrences_iff (server : Server) (config : SchedulerConfig) (d : AppDatabase) :
    (∀ r ∈ d.schedules.rows, refused server r = false → ∀ day,
      ((r.1, day) ∈ (startup server config d).database.keys ↔
        (r.1, day) ∈ (startup server config (d.withoutRefused server)).database.keys)) ↔
    SameWindow server d := by
  have hdatabase : ∀ d, (startup server config d).database =
      (Startup.catchUpMissedFires server).saved d := by
    intro d
    unfold startup initScheduler
    split <;> rfl
  have hsub : nothingMissed server d.lastShutdown d.schedules = true →
      nothingMissed server d.lastShutdown (d.withoutRefused server).schedules = true := by
    rw [nothingMissed_iff, nothingMissed_iff]
    exact fun h => ⟨h.1, fun r hr => h.2 r (mem_withoutRefused.mp hr).1⟩
  have hcompare : ∀ r ∈ d.schedules.rows, refused server r = false → ∀ day,
      ((r.1, day) ∈ ((Startup.catchUpMissedFires server).saved (d.withoutRefused server)).keys ↔
        (r.1, day) ∈ d.keys ∨
          nothingMissed server d.lastShutdown (d.withoutRefused server).schedules = false ∧ d.CanFire r ∧
            ∃ fire_date ∈ computeFireDates r.2.row r.2.row.startDate server.utcToday,
              day = dayNumber fire_date) := by
    intro r hr hgood day
    exact mem_saved_keys (mem_withoutRefused.mpr ⟨hr, hgood⟩) day
  simp only [hdatabase]
  cases hall : nothingMissed server d.lastShutdown d.schedules with
  | true =>
    obtain ⟨_, hlater⟩ := nothingMissed_iff.mp hall
    refine iff_of_true ?_ fun _ r hr _ => hlater r hr
    intro r hr hgood day
    rw [mem_saved_keys hr, hcompare r hr hgood, hall, hsub hall]
  | false =>
    cases hothers : nothingMissed server d.lastShutdown (d.withoutRefused server).schedules with
    | false =>
      refine iff_of_true ?_ ?_
      · intro r hr hgood day
        rw [mem_saved_keys hr, hcompare r hr hgood, hall, hothers]
      · rintro ⟨hnone, hlater, _⟩
        have hyes : nothingMissed server d.lastShutdown (d.withoutRefused server).schedules = true :=
          nothingMissed_iff.mpr ⟨hnone, hlater⟩
        rw [hothers] at hyes
        cases hyes
    | true =>
      obtain ⟨hnone, hlater⟩ := nothingMissed_iff.mp hothers
      -- a schedule that starts earlier is one that is refused
      have hearlier : ¬ ∀ r ∈ d.schedules.rows, refused server r = true →
          server.utcToday ≤ r.2.row.startDate := by
        intro hbad
        have hyes : nothingMissed server d.lastShutdown d.schedules = true := by
          refine nothingMissed_iff.mpr ⟨hnone, fun r hr => ?_⟩
          cases hr' : refused server r with
          | true => exact hbad r hr hr'
          | false => exact hlater r (mem_withoutRefused.mpr ⟨hr, hr'⟩)
        rw [hall] at hyes
        cases hyes
      have hself := complete_self_iff (d := d.withoutRefused server) hnone hlater
      unfold SameWindow
      rw [iff_false_intro hearlier, imp_false, ← hself]
      constructor
      · intro h r hr hfire _ fire_date hdate
        obtain ⟨hmem, hgood⟩ := mem_withoutRefused.mp hr
        have hsame := h r hmem hgood (dayNumber fire_date)
        rw [mem_saved_keys hmem, hcompare r hmem hgood, hall, hothers] at hsame
        rw [count_keys_eq_one_iff]
        have hkeys := hsame.mp (.inr ⟨rfl, hfire, fire_date, hdate, rfl⟩)
        exact hkeys.elim id fun hno => by cases hno.1
      · intro h r hr hgood day
        rw [mem_saved_keys hr, hcompare r hr hgood, hall, hothers]
        simp only [true_and, Bool.true_eq_false, false_and, or_false]
        refine or_iff_left_of_imp ?_
        rintro ⟨hfire, fire_date, hdate, rfl⟩
        have hcustom : r.2.row.periodicityType ≠ .custom := by
          intro hc
          obtain ⟨_, _, _, hcadence⟩ := (mem_computeFireDates _ _ _).mp hdate
          unfold OnCadence at hcadence
          rw [hc] at hcadence
          exact hcadence
        have hone := h r (mem_withoutRefused.mpr ⟨hr, hgood⟩) hfire hcustom fire_date hdate
        exact (count_keys_eq_one_iff _ _).mp hone

namespace Sample

def schedulerConfig : SchedulerConfig := ⟨[0, 12], some 1, [3, 15], some (3, 0)⟩

/-- The daily income again, after a schedule whose expression is no cron expression. -/
def withBadCron : AppDatabase :=
  { withSchedule { fromMidJune .custom with customCron := some "every day" } with
    schedules := (Table.empty.insert ⟨0, { fromMidJune .custom with customCron := some "every day" }⟩).insert
      ⟨0, dailyIncome⟩ }

end Sample

end FinHub
