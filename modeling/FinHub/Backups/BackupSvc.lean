import FinHub.Lib.Folder
import FinHub.Model.Time
import Mathlib.Data.Prod.Lex

/-!
# FinHub.Backups.BackupSvc

The backups of `services/backup_svc.py` and the part of `main.py`'s start-up that takes them:
`startup_daily_backup`, `init_db`, `migration_backups`.

A backup is known by the fourteen digits of its name, `finhub.db-{8 digits}-{6 digits}.bak`; other
files of the directory are only carried along. Contents of databases are a type of their own, and
what `verify_backup` finds of them is a parameter, as are the migrations.
-/

namespace FinHub

/-- A reading of the clock in `BACKUP_TIMEZONE`. -/
structure LocalTime where
  year : ℕ
  month : ℕ
  day : ℕ
  hour : ℕ
  minute : ℕ
  second : ℕ
  deriving DecidableEq

/-- The eight and the six digits of a backup's name; names of one length sort as their digits do. -/
abbrev BackupName := ℕ ×ₗ ℕ

def BackupName.text (n : BackupName) : String :=
  "finhub.db-" ++ Time.padded 8 (ofLex n).1 ++ "-" ++ Time.padded 6 (ofLex n).2 ++ ".bak"

inductive BackupError where
  | databaseNotFound (path : String)
  | databaseEmpty (path : String)
  | failedVerification (name : BackupName)
  deriving DecidableEq

namespace BackupError

def message : BackupError → String
  | databaseNotFound path => s!"Database not found at {path}"
  | databaseEmpty path => s!"Database at {path} is empty; refusing to back up"
  | failedVerification name => s!"Backup {name.text} failed integrity verification"

end BackupError

/-- The database file. A file without tables is as empty as one without bytes. -/
inductive DbFile (Db : Type) where
  | missing
  | empty
  | data (contents : Db)

structure Disk (Db : Type) where
  path : String
  db : DbFile Db
  backups : Folder BackupName Db
  /-- Files of the backup directory under other names. -/
  others : List Db

/-- The contents of the files in the backup directory. -/
def Disk.kept {Db : Type} (d : Disk Db) : List Db := d.others ++ d.backups.files.map Prod.snd

/-- `BACKUP_ENABLED`, `BACKUP_CRON`, `BACKUP_RETENTION`. -/
structure BackupConfig where
  enabled : Bool
  hour : ℕ
  minute : ℕ
  retention : ℕ

/-- `_run_migrations` on a database with tables, and the fresh schema. A version that is applied is
recorded, so the contents are not what they were. -/
structure Migrations (Db : Type) where
  schema : Db
  run : Db → List String × Db
  run_ne : ∀ db, (run db).1 ≠ [] → (run db).2 ≠ db

namespace BackupSvc

variable {Db : Type}

def filename (now : LocalTime) : BackupName :=
  toLex (now.year * 10000 + now.month * 100 + now.day, now.hour * 10000 + now.minute * 100 + now.second)

/-- A copy of the database under the name of the moment; one that fails verification is removed
again. -/
def createBackup (verify : Db → Bool) (now : LocalTime) (d : Disk Db) :
    Disk Db × Except BackupError BackupName :=
  match d.db with
  | .missing => (d, .error (.databaseNotFound d.path))
  | .empty => (d, .error (.databaseEmpty d.path))
  | .data contents =>
    let target := filename now
    if verify contents then ({ d with backups := d.backups.write target contents }, .ok target)
    else ({ d with backups := d.backups.unlink target }, .error (.failedVerification target))

/-- `BACKUP_RETENTION` is one at least. -/
def pruneBackups (cfg : BackupConfig) (d : Disk Db) : Disk Db :=
  { d with backups := d.backups.keepNewest (max 1 cfg.retention) }

/-- Past the cutoff of the day, and no backup has the day's eight digits. -/
def isDailyDue (cfg : BackupConfig) (now : LocalTime) (d : Disk Db) : Bool :=
  decide (cfg.hour * 60 + cfg.minute ≤ now.hour * 60 + now.minute) &&
    !d.backups.names.any fun n => (ofLex n).1 = (ofLex (filename now)).1

/-- The moments a boot reads the clock for its backups. -/
structure BootClock where
  due : LocalTime
  daily : LocalTime
  preMigration : LocalTime
  postMigration : LocalTime

def startupDailyBackup (verify : Db → Bool) (cfg : BackupConfig) (clock : BootClock) (d : Disk Db) :
    Disk Db × Except BackupError Bool :=
  if !cfg.enabled then (d, .ok false)
  else
    match d.db with
    | .missing | .empty => (d, .ok false)
    | .data _ =>
      if !isDailyDue cfg clock.due d then (d, .ok false)
      else
        match createBackup verify clock.daily d with
        | (d, .ok _) => (d, .ok true)
        | (d, .error e) => (d, .error e)

/-- `(fresh, applied)` and the migrated database. -/
def initDb (m : Migrations Db) (d : Disk Db) : Disk Db × Bool × List String :=
  match d.db with
  | .data contents => ({ d with db := .data (m.run contents).2 }, false, (m.run contents).1)
  | .missing | .empty => ({ d with db := .data (m.run m.schema).2 }, true, (m.run m.schema).1)

def migrationBackups (verify : Db → Bool) (cfg : BackupConfig) (clock : BootClock) (fresh : Bool)
    (applied : List String) (daily_ran : Bool) (d : Disk Db) : Disk Db × Except BackupError Unit :=
  if !cfg.enabled || fresh || applied.isEmpty then (d, .ok ())
  else
    let pre := if daily_ran then (d, .ok (filename clock.daily))
      else createBackup verify clock.preMigration d
    match pre with
    | (d, .error e) => (d, .error e)
    | (d, .ok _) =>
      match createBackup verify clock.postMigration d with
      | (d, .error e) => (d, .error e)
      | (d, .ok _) => (pruneBackups cfg d, .ok ())

/-- What a boot leaves: the disk, the migrations that ran, and whether the start-up went on. -/
structure BootResult (Db : Type) where
  disk : Disk Db
  applied : List String
  error : Option BackupError

/-- The beginning of `lifespan`. -/
def boot (verify : Db → Bool) (cfg : BackupConfig) (m : Migrations Db) (clock : BootClock)
    (d : Disk Db) : BootResult Db :=
  match startupDailyBackup verify cfg clock d with
  | (d, .error e) => ⟨d, [], some e⟩
  | (d, .ok daily_ran) =>
    let (d, fresh, applied) := initDb m d
    match migrationBackups verify cfg clock fresh applied daily_ran d with
    | (d, .error e) => ⟨d, applied, some e⟩
    | (d, .ok ()) => ⟨d, applied, none⟩

end BackupSvc

end FinHub
