import FinHub.Backups.BackupSvc

/-!
# FinHub.Backups.PreMigration

Whether a boot that migrates leaves a file with the contents from before.

* `boot_of_applied`: what such a boot does to the backups. Only the daily catch-up copies the old
  contents; whatever `migration_backups` copies is taken after the migrations.
* `PreKept`: the catch-up's file, or one that held the contents already, is neither written over nor
  out of the retention.
* `preKept_iff`: a file of the directory holds the old contents exactly then.
-/

namespace FinHub.BackupSvc

variable {Db : Type} (verify : Db → Bool) (cfg : BackupConfig) (m : Migrations Db)
  (clock : BootClock) (d : Disk Db)

/-- The catch-up copies the database before it is migrated. -/
def preFiles (contents : Db) : Folder BackupName Db :=
  if isDailyDue cfg clock.due d then d.backups.write (filename clock.daily) contents else d.backups

/-- The files that `migration_backups` writes or, where the migrated database fails verification,
removes. -/
def migrationNames (contents : Db) : List BackupName :=
  if isDailyDue cfg clock.due d then [filename clock.postMigration]
  else if verify (m.run contents).2 then [filename clock.preMigration, filename clock.postMigration]
  else [filename clock.preMigration]

/-- How many backups have a later name when the retention is applied. -/
def laterNames (contents : Db) (name : BackupName) : ℕ :=
  (((preFiles cfg clock d contents).names ++ migrationNames verify cfg m clock d contents).toFinset.filter
    (name < ·)).card

/-- A file holds the old contents, is left alone by `migration_backups`, and is recent enough where
the backups are pruned. -/
def PreKept (contents : Db) : Prop :=
  contents ∈ d.others ∨
  ∃ name, (name, contents) ∈ preFiles cfg clock d contents ∧
    name ∉ migrationNames verify cfg m clock d contents ∧
    (verify (m.run contents).2 = true →
      laterNames verify cfg m clock d contents name < max 1 cfg.retention)

/-- The backups after `migration_backups`. -/
def migratedFiles (contents : Db) : Folder BackupName Db :=
  let post := (m.run contents).2
  if verify post then
    ((migrationNames verify cfg m clock d contents).foldl (fun f n => f.write n post)
      (preFiles cfg clock d contents)).keepNewest (max 1 cfg.retention)
  else
    (migrationNames verify cfg m clock d contents).foldl Folder.unlink (preFiles cfg clock d contents)

variable {verify cfg m clock d}

theorem createBackup_data {now : LocalTime} {contents : Db} (hdata : d.db = .data contents) :
    createBackup verify now d =
      if verify contents then
        ({ d with backups := d.backups.write (filename now) contents }, .ok (filename now))
      else
        ({ d with backups := d.backups.unlink (filename now) },
          .error (.failedVerification (filename now))) := by
  simp only [createBackup, hdata]

/-- A boot that gets as far as the migrations has copied the database if the catch-up was due. -/
theorem startupDailyBackup_ok {contents : Db} (hdata : d.db = .data contents)
    (hen : cfg.enabled = true) {d' : Disk Db} {daily_ran : Bool}
    (h : startupDailyBackup verify cfg clock d = (d', .ok daily_ran)) :
    daily_ran = isDailyDue cfg clock.due d ∧
      d' = { d with backups := preFiles cfg clock d contents } := by
  unfold startupDailyBackup preFiles at *
  simp only [hen, Bool.not_true, Bool.false_eq_true, if_false, hdata, createBackup_data hdata] at h
  cases hdue : isDailyDue cfg clock.due d with
  | false =>
    simp only [hdue, Bool.not_false, if_true, Prod.mk.injEq, Except.ok.injEq] at h
    obtain ⟨rfl, rfl⟩ := h
    exact ⟨rfl, rfl⟩
  | true =>
    simp only [hdue, Bool.not_true, Bool.false_eq_true, if_false] at h
    by_cases hv : verify contents = true
    · simp only [hv, if_true, Prod.mk.injEq, Except.ok.injEq] at h
      obtain ⟨rfl, rfl⟩ := h
      exact ⟨rfl, by simp [hdata]⟩
    · simp [hv] at h

variable (verify cfg clock d)

/-- Both copies around the migrations are taken after them. -/
theorem migrationBackups_backups {post : Db} (hdata : d.db = .data post) (hen : cfg.enabled = true)
    {applied : List String} (happ : applied ≠ []) (daily_ran : Bool) :
    (migrationBackups verify cfg clock false applied daily_ran d).1.others = d.others ∧
    (migrationBackups verify cfg clock false applied daily_ran d).1.backups =
      let names := if daily_ran then [filename clock.postMigration]
        else if verify post then [filename clock.preMigration, filename clock.postMigration]
        else [filename clock.preMigration]
      if verify post then
        (names.foldl (fun f n => f.write n post) d.backups).keepNewest (max 1 cfg.retention)
      else names.foldl Folder.unlink d.backups := by
  have hne : applied.isEmpty = false := by simpa using happ
  unfold migrationBackups
  simp only [hen, hne, Bool.not_true, Bool.or_false, Bool.false_eq_true, if_false]
  cases daily_ran <;> by_cases hv : verify post = true <;>
    simp [createBackup, hdata, hv, pruneBackups]

variable (m)

theorem boot_of_applied {contents : Db} (hdata : d.db = .data contents) (hen : cfg.enabled = true)
    (happ : (boot verify cfg m clock d).applied ≠ []) :
    (m.run contents).1 ≠ [] ∧ (boot verify cfg m clock d).disk.others = d.others ∧
      (boot verify cfg m clock d).disk.backups = migratedFiles verify cfg m clock d contents := by
  cases hstart : startupDailyBackup verify cfg clock d with
  | mk d₁ r =>
    cases r with
    | error e =>
      -- The start-up stopped before the migrations.
      simp [boot, hstart] at happ
    | ok daily_ran =>
      obtain ⟨rfl, rfl⟩ := startupDailyBackup_ok hdata hen hstart
      have hresult : ∀ {x : Disk Db × Except BackupError Unit},
          migrationBackups verify cfg clock false (m.run contents).1 (isDailyDue cfg clock.due d)
            { d with backups := preFiles cfg clock d contents, db := .data (m.run contents).2 } = x →
          (boot verify cfg m clock d).disk = x.1 ∧
            (boot verify cfg m clock d).applied = (m.run contents).1 := by
        rintro ⟨d₂, _ | _⟩ hx <;> simp [boot, hstart, initDb, hdata, hx]
      obtain ⟨hdisk, happlied⟩ := hresult rfl
      rw [happlied] at happ
      rw [hdisk]
      exact ⟨happ, migrationBackups_backups verify cfg clock _ rfl hen happ _⟩

theorem mem_kept {d : Disk Db} {contents : Db} :
    contents ∈ d.kept ↔ contents ∈ d.others ∨ ∃ name, (name, contents) ∈ d.backups := by
  rw [Disk.kept, List.mem_append, List.mem_map]
  refine or_congr_right ⟨?_, ?_⟩
  · rintro ⟨⟨name, _⟩, h, rfl⟩
    exact ⟨name, h⟩
  · rintro ⟨name, h⟩
    exact ⟨(name, contents), h, rfl⟩

theorem preKept_iff {contents : Db} (hdata : d.db = .data contents) (hen : cfg.enabled = true)
    (happ : (boot verify cfg m clock d).applied ≠ []) :
    contents ∈ (boot verify cfg m clock d).disk.kept ↔ PreKept verify cfg m clock d contents := by
  obtain ⟨hrun, hothers, hbackups⟩ := boot_of_applied verify cfg m clock d hdata hen happ
  have hne : contents ≠ (m.run contents).2 := (m.run_ne contents hrun).symm
  rw [mem_kept, hothers, hbackups, PreKept]
  refine or_congr_right (exists_congr fun name => ?_)
  unfold migratedFiles
  by_cases hv : verify (m.run contents).2 = true
  · -- The copies hold the new contents, so only an old file will do.
    have hlater : ((migrationNames verify cfg m clock d contents).foldl
        (fun f n => f.write n (m.run contents).2) (preFiles cfg clock d contents)).later name =
        laterNames verify cfg m clock d contents name := by
      unfold Folder.later laterNames
      congr 2
      ext n
      simp only [List.mem_toFinset, Folder.mem_names_foldl_write, List.mem_append]
    simp only [hv, if_true, Folder.mem_keepNewest, Folder.mem_foldl_write, hlater, hne, and_false,
      or_false, forall_const, and_assoc]
  · simp only [hv, if_false, Folder.mem_foldl_unlink, Bool.false_eq_true, false_implies, and_true]

/-- The usual boot after the cutoff: the day's first backup is the catch-up's, later than all there
are, and the copy after the migrations is of another second. -/
theorem preKept_of_due {contents : Db} (hdue : isDailyDue cfg clock.due d = true)
    (hsecond : filename clock.daily ≠ filename clock.postMigration)
    (hold : ∀ n ∈ d.backups.names, n ≤ filename clock.daily) (hret : 2 ≤ cfg.retention) :
    PreKept verify cfg m clock d contents := by
  refine .inr ⟨filename clock.daily, by simp [preFiles, hdue], ?_, fun _ => ?_⟩
  · simpa [migrationNames, hdue] using hsecond
  · have hsub : ((preFiles cfg clock d contents).names ++
        migrationNames verify cfg m clock d contents).toFinset.filter (filename clock.daily < ·) ⊆
        {filename clock.postMigration} := by
      intro n hn
      rw [Finset.mem_filter, List.mem_toFinset, List.mem_append] at hn
      obtain ⟨hn | hn, hlt⟩ := hn
      · simp only [preFiles, hdue, if_true, Folder.mem_names_write] at hn
        rcases hn with hn | rfl
        · exact absurd (hold n hn) (not_le.mpr hlt)
        · exact absurd hlt (lt_irrefl _)
      · simpa [migrationNames, hdue] using hn
    have hcard := Finset.card_le_card hsub
    rw [Finset.card_singleton] at hcard
    unfold laterNames
    omega

/-- Without a catch-up the boot itself copies the old contents nowhere. -/
theorem not_preKept_of_not_due {contents : Db} (hdue : isDailyDue cfg clock.due d = false)
    (hothers : contents ∉ d.kept) : ¬ PreKept verify cfg m clock d contents := by
  rw [mem_kept, not_or, not_exists] at hothers
  rintro (h | ⟨name, h, -⟩)
  · exact hothers.1 h
  · rw [preFiles, hdue] at h
    exact hothers.2 name h

end FinHub.BackupSvc

namespace FinHub.Sample

open BackupSvc

/-- Databases by the number of their last migration; one is pending. -/
def oneMigration : Migrations ℕ where
  schema := 0
  run v := (["028_next"], v + 1)
  run_ne v _ := Nat.succ_ne_self v

def nightly : BackupConfig := ⟨true, 3, 0, 7⟩

/-- A database without backups. -/
def unsaved : Disk ℕ := ⟨"data/finhub.db", .data 27, ⟨[], List.nodup_nil⟩, []⟩

/-- A boot that takes a few seconds from some hour on. -/
def bootAt (hour : ℕ) : BootClock :=
  ⟨⟨2026, 8, 11, hour, 0, 0⟩, ⟨2026, 8, 11, hour, 0, 1⟩, ⟨2026, 8, 11, hour, 0, 2⟩,
    ⟨2026, 8, 11, hour, 0, 3⟩⟩

theorem bootAtFour_keeps :
    27 ∈ (boot (fun _ => true) nightly oneMigration (bootAt 4) unsaved).disk.kept :=
  (preKept_iff _ nightly oneMigration (bootAt 4) unsaved rfl rfl (by decide +kernel)).mpr
    (preKept_of_due _ nightly oneMigration (bootAt 4) unsaved (by decide +kernel) (by decide +kernel)
      (fun n hn => by cases hn) (by decide))

/-- Before the cutoff both copies are taken of the migrated database. -/
theorem bootAtOne_loses :
    let r := boot (fun _ => true) nightly oneMigration (bootAt 1) unsaved
    r.applied ≠ [] ∧ r.error = none ∧ r.disk.kept = [28, 28] := by
  decide +kernel

end FinHub.Sample
