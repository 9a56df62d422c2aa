import FinHub.Migrations.Boot
import FinHub.Migrations.Renumbered

/-!
# FinHub.Migrations.Restart

The boot after a crash. A crash keeps what was committed, so the next boot finds a migration carried out in
part, or carried out and not recorded. `Resumable` says when it finishes the migration and comes to the data
of an uninterrupted boot (`agree_of_stop`).
-/

namespace FinHub

open Tabular Upgrade

namespace Migrations

variable {d d₁ c c' : Store} {v : Version} {k : ℕ}

/-- The tables that a migration fills before it drops the one they replace. -/
def scratchTables : List TableName := [.transactionsNew, .transactionTaxesNew, .macroSeriesNew]

/-- The migrations whose check does not cover everything that `up` does. -/
def partlyChecked : List Version :=
  [.profiles, .balanceSnapshotId, .persistCashHandling, .officialMacroSources]

/-- The stop is inside `up`, or between it and the record. -/
def StopsInside (v : Version) (d₁ : Store) (k : ℕ) : Prop :=
  tracking.applied v.migration d₁ = false ∧ 0 < k ∧ k ≤ (v.up d₁).length

/-- What a boot after a stop needs to finish a migration as the stopped one would have. The stop left `c`
after `k` of the transactions of `up`, which had begun at `d₁`. -/
structure Resumable (v : Version) (d₁ : Store) (k : ℕ) (c : Store) : Prop where
  /-- No scratch table is left behind. -/
  scratch : ∀ t ∈ scratchTables, ¬ LeavesScratch d₁ c t
  /-- 002 finds the buys covered by the snapshots it has written. -/
  covered : v = .backfillSnapshots → ∀ buy ∈ BackfillSnapshots.buys c, BackfillSnapshots.Covered c buy
  /-- 007 had nothing to fill its table with. -/
  occurrences : v = .scheduleOccurrences → k = 1 →
    c.tableExists .transactions = true ∧ ∀ r ∈ c.transactions.rows, ScheduleOccurrences.backfilled r = none
  /-- 015 finds no further adjustment at the midnight of a snapshot. -/
  placed : v = .balanceSnapshotId → k = 2 →
    ∀ s ∈ c.balanceSnapshots.rows, BalanceSnapshotId.findAdjustment c s.2 = none
  /-- The links that 016 meets name ids that are in use or have been. -/
  links : v = .consolidateAutoSnapshots → ConsolidateAutoSnapshots.LinksBelow d₁.transactions.next c
  /-- 020 has been recorded before, or has nothing to shift. -/
  shifted : v = .backfillJstToUtc → v ∈ d₁.versions ∨ BackfillJstToUtc.NoTimestamps c
  /-- The columns of `tax_rates` go with the table. -/
  rates : v = .taxSchemaV2 → c.tableExists .taxRates = false → NoTable .taxRates c
  seen : v ∈ partlyChecked → Unseen v d₁ k c

/-- Every migration but 016 is finished with the same database. -/
theorem finished_of_resumable (h : Inside v d₁ k c) (hres : Resumable v d₁ k c)
    (hv : v ≠ .consolidateAutoSnapshots) : Finished v d₁ k c := by
  have hscratch := hres.scratch
  cases v with
  | purchaseDate => exact PurchaseDate.finished h
  | backfillSnapshots => exact BackfillSnapshots.finished h (hres.covered rfl)
  | stockSplits => exact StockSplits.finished h
  | scheduleAsset => exact ScheduleAsset.finished h
  | manualValues => exact ManualValues.finished h
  | transferTypes => exact TransferTypes.finished h (hscratch _ (by decide))
  | scheduleOccurrences => exact ScheduleOccurrences.finished h (hres.occurrences rfl)
  | profiles => exact Profiles.finished h (hres.seen (by decide))
  | marketAssetLastSynced => exact MarketAssetLastSynced.finished h
  | incomeCategory => exact IncomeCategory.finished h
  | renameInvestmentCategory => exact RenameInvestmentCategory.finished h
  | fiscalPeriods => exact FiscalPeriods.finished h
  | taxRates => exact TaxRates.finished h
  | addCashbackCategory => exact AddCashbackCategory.finished h (hscratch _ (by decide))
  | balanceSnapshotId => exact BalanceSnapshotId.finished h (hres.seen (by decide)) (hres.placed rfl)
  | consolidateAutoSnapshots => exact absurd rfl hv
  | persistCashHandling => exact PersistCashHandling.finished h (hres.seen (by decide))
  | addEntityMainCurrency => exact AddEntityMainCurrency.finished h
  | addProfileTimezone => exact AddProfileTimezone.finished h
  | backfillJstToUtc => exact BackfillJstToUtc.finished h (hres.shifted rfl)
  | taxSchemaV2 => exact TaxSchemaV2.finished h fun _ => hres.rates rfl
  | dropTaxType => exact DropTaxType.finished h (hscratch _ (by decide))
  | seedTaxCatalog => exact SeedTaxCatalog.finished h
  | macroSeries => exact MacroSeries.finished h
  | ecbDepositRateSource => exact EcbDepositRateSource.finished h
  | officialMacroSources =>
    exact OfficialMacroSources.finished h (hres.seen (by decide)) (hscratch _ (by decide))
  | usaPolicyRateSource => exact UsaPolicyRateSource.finished h (hscratch _ (by decide))
  | usa10yYieldSource => exact Usa10yYieldSource.finished h

theorem record_of_recorded (v : Version) (d : Store) (h : tracking.recorded d v = true) :
    tracking.record v d = d := by
  have hmem : v ∈ d.versions := of_decide_eq_true h
  simp only [tracking, if_pos hmem]

theorem ConsolidateAutoSnapshots.agree_process (h : Inside .consolidateAutoSnapshots d₁ k c)
    (hpending : tracking.applied Version.consolidateAutoSnapshots.migration d₁ = false)
    (hlinks : LinksBelow d₁.transactions.next c) :
    Agree SameData (tracking.process d₁ Version.consolidateAutoSnapshots.migration)
      (tracking.process c Version.consolidateAutoSnapshots.migration) := by
  obtain rfl : k = 1 := le_antisymm h.le h.pos
  have hclose : Respects SameData (tracking.close Version.consolidateAutoSnapshots.migration) :=
    Tracking.respects_close (fun d d' ⟨_, hσ⟩ => verify_renumbers .consolidateAutoSnapshots hσ)
      record_sameData
  refine Tracking.agree_process_of_repeated record_of_recorded hpending .refl hclose h.stop ?_
  have hok : consolidate d₁ = .ok c := commitAll_singleton consolidate d₁ ▸ h.stop
  obtain ⟨c', hagain, hsame⟩ := consolidate_again hok hlinks
  exact ⟨c', (commitAll_singleton consolidate c).trans hagain, hsame⟩

/-- The migrations that come after 016. -/
theorem mem_later {pre post : List (Migration Store MigrationError Version)}
    (h : migrations = pre ++ Version.consolidateAutoSnapshots.migration :: post)
    {m : Migration Store MigrationError Version} (hm : m ∈ post) : ∃ v ∈ Version.later, m = v.migration := by
  have hversions : Version.all =
      pre.map Migration.version ++ .consolidateAutoSnapshots :: post.map Migration.version := by
    have hmap := congrArg (List.map Migration.version) h
    rw [List.map_append, List.map_cons] at hmap
    exact hmap
  have hfirst : ∀ v ∈ pre.map Migration.version, decide (v ≠ .consolidateAutoSnapshots) = true := by
    have hnodup : Version.all.Nodup := by decide
    rw [hversions] at hnodup
    exact fun v hv => decide_eq_true fun he =>
      (List.nodup_append.mp hnodup).2.2 v hv _ List.mem_cons_self he
  have hlater : Version.later = post.map Migration.version := by
    rw [Version.later, hversions, List.dropWhile_append_of_pos hfirst]
    rfl
  have hmem : m ∈ migrations := by
    rw [h]
    exact List.mem_append_right _ (List.mem_cons_of_mem _ hm)
  obtain ⟨v, -, rfl⟩ := List.mem_map.mp hmem
  exact ⟨v, hlater ▸ List.mem_map_of_mem hm, rfl⟩

/-- A boot that is stopped where it can be resumed comes to the same data after the next boot as without the
stop. -/
theorem agree_of_stop (hs : tracking.StopsAfter migrations d v.migration d₁ k c)
    (hres : StopsInside v d₁ k → Resumable v d₁ k c) :
    Agree SameData (runMigrations d) (runMigrations c) := by
  have hstops : tracking.Stops migrations d v.migration d₁ c := Tracking.stops_iff.mpr ⟨k, hs⟩
  obtain ⟨pre, post, hms, -, hpart⟩ := hs
  have hmem : v.migration ∈ migrations := by
    rw [hms]
    exact List.mem_append_right _ List.mem_cons_self
  have hsame : ∀ {c : Store}, tracking.process c v.migration = tracking.process d₁ v.migration →
      tracking.Stops migrations d v.migration d₁ c → Agree SameData (runMigrations d) (runMigrations c) := by
    intro c hprocess hstops
    rw [runMigrations, runMigrations, Tracking.run_of_resumed lawful hstops hprocess]
    exact .refl SameData.refl _
  rcases Tracking.process_of_stop lawful hmem hpart with hprocess | ⟨hpending, hpos, hle, hstop⟩
  · exact hsame hprocess hstops
  have hinside : Inside v d₁ k c := ⟨hpos, hle, hstop⟩
  have hres := hres ⟨hpending, hpos, hle⟩
  by_cases hv : v = .consolidateAutoSnapshots
  · subst hv
    refine Tracking.agree_run_of_stops lawful hstops
      (ConsolidateAutoSnapshots.agree_process hinside hpending (hres.links rfl)) ?_
    intro pre post hms m hm
    obtain ⟨v, hv, rfl⟩ := mem_later hms hm
    exact respected hv
  · exact hsame (Tracking.process_of_resumed record_of_recorded hpending hstop
      (finished_of_resumable hinside hres hv)) hstops

/-- Boots that are stopped one after another, each where it can be resumed. -/
inductive Crashes (d : Store) : Store → Prop where
  | none : Crashes d d
  | stop {c d₁ c' : Store} {v : Version} {k : ℕ} (h : Crashes d c)
      (hs : tracking.StopsAfter migrations c v.migration d₁ k c')
      (hres : StopsInside v d₁ k → Resumable v d₁ k c') : Crashes d c'

/-- The boot that is not stopped comes to the data of an uninterrupted one. -/
theorem agree_of_crashes (h : Crashes d c) : Agree SameData (runMigrations d) (runMigrations c) := by
  induction h with
  | none => exact .refl SameData.refl _
  | stop h hs hres ih =>
    refine Agree.trans (R := SameData) ?_ ih (agree_of_stop hs hres)
    exact SameData.trans

namespace Sample

/-- A database from before the migrations, with a balance and a salary. -/
def old : Store where
  schema := schemaSql
  transactions := Table.insert .empty salary
  balanceSnapshots := Table.insert .empty (balance "Opening")

def before (v : Version) : List (Migration Store MigrationError Version) :=
  (Version.all.takeWhile fun v' => decide (v' ≠ v)).map Version.migration

/-- The database that a boot finds when it comes to a migration. -/
def reached (v : Version) : Store := (tracking.run (before v) old).toOption.getD old

/-- The database that a stop leaves before the migration is recorded. -/
def stopped (v : Version) : Store := (commitAll (v.up (reached v)) (reached v)).toOption.getD old

theorem eq_ok_of_isOk {x : Except MigrationError Store} (h : x.isOk = true) (d : Store) :
    x = .ok (x.toOption.getD d) := by
  cases x with
  | error e => cases h
  | ok d' => rfl

/-- The boot of `old` comes to a migration that it finds pending, and commits its `k` transactions. -/
def Committed (v : Version) (k : ℕ) : Prop :=
  (tracking.run (before v) old).isOk = true ∧ tracking.applied v.migration (reached v) = false ∧
    (commitAll (v.up (reached v)) (reached v)).isOk = true ∧ (v.up (reached v)).length = k

instance (v : Version) (k : ℕ) : Decidable (Committed v k) := inferInstanceAs (Decidable (_ ∧ _))

theorem Committed.stopsAfter {v : Version} {k : ℕ} (h : Committed v k)
    (post : List (Migration Store MigrationError Version))
    (hsplit : migrations = before v ++ v.migration :: post) :
    tracking.StopsAfter migrations old v.migration (reached v) k (stopped v) := by
  obtain ⟨hrun, hpending, hup, hk⟩ := h
  refine ⟨before v, post, hsplit, eq_ok_of_isOk hrun old, ?_⟩
  rw [← hk, Tracking.steps, hpending]
  show commitAll (List.take _ (v.up (reached v) ++ [_])) _ = _
  rw [List.take_left]
  exact eq_ok_of_isOk hup old

/-- A stop between the consolidation and its record. -/
theorem crashes_consolidated : Crashes old (stopped .consolidateAutoSnapshots) ∧
    Agree SameData (runMigrations old) (runMigrations (stopped .consolidateAutoSnapshots)) := by
  obtain ⟨hcommitted, hscratch, hlinks⟩ : Committed .consolidateAutoSnapshots 1 ∧
      (∀ t ∈ scratchTables, (stopped .consolidateAutoSnapshots).tableExists t = false) ∧
      (stopped .consolidateAutoSnapshots).balanceAdjustmentLinks.rows = [] := by decide +kernel
  have hcrash : Crashes old (stopped .consolidateAutoSnapshots) := by
    refine .stop .none (hcommitted.stopsAfter (Version.later.map Version.migration) rfl) fun _ => ?_
    exact {
      scratch := fun t ht h => Bool.false_ne_true ((hscratch t ht).symm.trans h.1)
      covered := fun h => by cases h
      occurrences := fun h => by cases h
      placed := fun h => by cases h
      links := fun _ r hr => by rw [hlinks] at hr; cases hr
      shifted := fun h => by cases h
      rates := fun h => by cases h
      seen := fun h => absurd h (by decide) }
  exact ⟨hcrash, agree_of_crashes hcrash⟩

/-- The timestamps of the transactions, in seconds. -/
def stamps (d : Store) : List ℤ := d.transactions.rows.map fun r => r.2.timestamp.wall / Time.ticksPerSecond

theorem not_agree_of_stamps {x x' : Except MigrationError Store} {l l' : List ℤ}
    (hx : x.toOption.map stamps = some l) (hx' : x'.toOption.map stamps = some l') (hne : ¬ l'.Perm l) :
    ¬ Agree SameData x x' := by
  intro h
  cases h with
  | error e => cases hx
  | ok h =>
    obtain ⟨σ, hσ⟩ := h
    have hperm := List.Perm.map
      (fun r : ℕ × TransactionRow => r.2.timestamp.wall / Time.ticksPerSecond) hσ.rows
    rw [List.map_map] at hperm
    obtain rfl := Option.some_inj.mp hx
    obtain rfl := Option.some_inj.mp hx'
    exact hne hperm

/-- A stop between the conversion and its record: the next boot takes another nine hours off. -/
theorem shifted_twice :
    tracking.StopsAfter migrations old Version.backfillJstToUtc.migration (reached .backfillJstToUtc) 1
        (stopped .backfillJstToUtc) ∧
      (runMigrations old).toOption.map stamps = some [-32400, -32401] ∧
      (runMigrations (stopped .backfillJstToUtc)).toOption.map stamps = some [-64800, -64801] ∧
      ¬ Agree SameData (runMigrations old) (runMigrations (stopped .backfillJstToUtc)) := by
  obtain ⟨hcommitted, hold, hagain⟩ : Committed .backfillJstToUtc 1 ∧
      (runMigrations old).toOption.map stamps = some [-32400, -32401] ∧
      (runMigrations (stopped .backfillJstToUtc)).toOption.map stamps = some [-64800, -64801] := by
    decide +kernel
  refine ⟨?_, hold, hagain, not_agree_of_stamps hold hagain (by decide)⟩
  exact hcommitted.stopsAfter ((Version.all.drop 20).map Version.migration) rfl

end Sample

end Migrations

end FinHub
