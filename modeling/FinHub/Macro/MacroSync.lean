import FinHub.Lib.KeepFirst
import FinHub.Lib.Session
import FinHub.MarketCycle.MonthlySeries
import FinHub.Model.Time
import Mathlib.Data.String.Basic

/-!
# FinHub.Macro.MacroSync

`sync_series` of `services/macro_sync_svc.py` and what a sequence of its runs leaves in the macro tables.

A run asks the providers series by series and commits after each. An error of a provider is noted and the run
goes on; anything else ends the run, and the series before it stay committed. `INSERT OR IGNORE` leaves a
date that is stored as it is, so a value that the provider revises later never replaces it.

* `syncSeries_saved`: one run, as rows of which the first under a date is kept, and the stamps.
* `syncRuns_laws`: a sequence of runs.
* `asks_iff`: when a series is asked for.
-/

namespace FinHub

open KeepFirst
open Db (Work Session)

/-- A row of `macro_series`. -/
structure MacroSeries where
  slug : String
  provider : Option String
  sourceUrl : Option String
  lastSyncedAt : Option Timestamp := none

/-- A row of `macro_series_observations`. -/
structure MacroObservation where
  slug : String
  obsDate : Calendar.Date
  value : ℚ
  deriving DecidableEq

/-- `UNIQUE(slug, obs_date)`. -/
def MacroObservation.key (o : MacroObservation) : String × Calendar.Date := (o.slug, o.obsDate)

/-- The macro tables. -/
@[ext]
structure MacroStore where
  series : List MacroSeries
  observations : List MacroObservation
  slug_unique : (series.map MacroSeries.slug).Nodup
  unique : (observations.map MacroObservation.key).Nodup

/-- What `fetch_series` comes to: observations, a `MacroClientError`, or an exception that no client wraps. -/
inductive MacroAnswer where
  | fetched (observations : List (DatedValue ℚ))
  | refused (error : String)
  | raised (error : String)

namespace MacroAnswer

def observations? : MacroAnswer → Option (List (DatedValue ℚ))
  | fetched observations => some observations
  | refused _ | raised _ => none

def isRaised : MacroAnswer → Bool
  | raised _ => true
  | fetched _ | refused _ => false

end MacroAnswer

/-- One call of `sync_series`: its argument, the clock, the lock, the breakers and the answers by series. -/
structure MacroRun where
  slugs : Option (List String) := none
  now : Timestamp
  busy : Bool := false
  circuitOpen : Bool := false
  answers : String → MacroAnswer

inductive SkipReason where
  | noSource | fresh
  deriving DecidableEq

def SkipReason.text : SkipReason → String
  | noSource => "no-source"
  | fresh => "fresh"

structure MacroEntry where
  slug : String
  added : ℕ := 0
  skipped : Option SkipReason := none
  error : Option String := none
  deriving DecidableEq

structure MacroReport where
  synced : Bool := true
  series : List MacroEntry := []
  totalAdded : ℕ := 0
  busy : Bool := false
  circuitOpen : Bool := false

/-! ## A run -/

/-- `upsert_macro_observation`: whether a row was inserted. -/
def upsertMacroObservation (s : MacroStore) (o : MacroObservation) : Bool × MacroStore :=
  (!hasKey MacroObservation.key s.observations o.key,
    { s with
      observations := insertNew MacroObservation.key s.observations o
      unique := nodup_insertNew s.unique })

/-- The row with its stamp, if it is the one. -/
def MacroSeries.touch (slug : String) (synced_at : Timestamp) (x : MacroSeries) : MacroSeries :=
  if x.slug = slug then { x with lastSyncedAt := some synced_at } else x

@[simp] theorem MacroSeries.touch_slug (slug : String) (synced_at : Timestamp) (x : MacroSeries) :
    (x.touch slug synced_at).slug = x.slug := by
  unfold touch
  split_ifs <;> rfl

/-- `touch_macro_series_synced`. -/
def touchMacroSeriesSynced (s : MacroStore) (slug : String) (synced_at : Timestamp) : MacroStore :=
  { s with
    series := s.series.map (MacroSeries.touch slug synced_at)
    slug_unique := by
      rw [List.map_map]
      refine Eq.mpr (congrArg List.Nodup (List.map_congr_left fun x _ => ?_)) s.slug_unique
      exact x.touch_slug slug synced_at }

/-- The series are read in the order of their slugs. -/
def getAllMacroSeries (s : MacroStore) : List MacroSeries := s.series.insertionSort fun a b => a.slug ≤ b.slug

/-- A provider and a URL that are neither missing nor empty. -/
def MacroSeries.source (x : MacroSeries) : Option (String × String) := do
  let provider ← x.provider
  let source_url ← x.sourceUrl
  if provider = "" ∨ source_url = "" then none else some (provider, source_url)

/-- `_is_fresh`. -/
def isFresh (freshness : ℤ) (now : Timestamp) (x : MacroSeries) : Bool :=
  x.lastSyncedAt.any fun last => decide (now - last < freshness)

/-- The series of a call: all, or those that it names. -/
def MacroRun.selected (run : MacroRun) (s : MacroStore) : List MacroSeries :=
  match run.slugs with
  | none => getAllMacroSeries s
  | some slugs => (getAllMacroSeries s).filter fun x => slugs.elem x.slug

/-- Store one observation, and count it if it is new. -/
def storeObservation (slug : String) (added : ℕ) (obs : DatedValue ℚ) : Work MacroStore String ℕ := do
  let inserted ← Work.write fun s => upsertMacroObservation s ⟨slug, obs.obsDate, obs.value⟩
  pure (if inserted then added + 1 else added)

/-- Store what was fetched, and stamp the series. -/
def storeObservations (slug : String) (observations : List (DatedValue ℚ)) (now : Timestamp) :
    Work MacroStore String ℕ := do
  let added ← observations.foldlM (storeObservation slug) 0
  Work.write fun s => ((), touchMacroSeriesSynced s slug now)
  Work.commit
  pure added

/-- One pass of the loop. -/
def syncOne (freshness : ℤ) (run : MacroRun) (results : List MacroEntry) (x : MacroSeries) :
    Work MacroStore String (List MacroEntry) :=
  if x.source.isNone then pure (results ++ [{ slug := x.slug, skipped := some .noSource }])
  else if isFresh freshness run.now x then pure (results ++ [{ slug := x.slug, skipped := some .fresh }])
  else
    match run.answers x.slug with
    | .raised error => Work.raise error
    | .refused error => pure (results ++ [{ slug := x.slug, error := some error }])
    | .fetched observations => do
      let added ← storeObservations x.slug observations run.now
      pure (results ++ [{ slug := x.slug, added }])

/-- `sync_series`. -/
def syncSeries (freshness : ℤ) (run : MacroRun) : Work MacroStore String MacroReport := do
  if run.busy then pure { synced := false, busy := true }
  else
    let all_series ← Work.read run.selected
    if all_series.isEmpty then pure {}
    else
      let results ← all_series.foldlM (syncOne freshness run) []
      pure { series := results, totalAdded := (results.map MacroEntry.added).sum, circuitOpen := run.circuitOpen }

/-- A sequence of runs, each on a connection of its own. -/
def syncRuns (freshness : ℤ) (s : MacroStore) (runs : List MacroRun) : MacroStore :=
  runs.foldl (fun s run => (syncSeries freshness run).saved s) s

/-! ## What a run fetches -/

namespace MacroRun

/-- What asking for a series comes to, if it is asked for. -/
def answerTo (freshness : ℤ) (run : MacroRun) (x : MacroSeries) : Option MacroAnswer :=
  if x.source.isNone || isFresh freshness run.now x then none else some (run.answers x.slug)

/-- The series that a run comes to before an exception ends it. -/
def reached (freshness : ℤ) (run : MacroRun) (s : MacroStore) : List MacroSeries :=
  if run.busy then []
  else (run.selected s).takeWhile fun x => !(run.answerTo freshness x).any MacroAnswer.isRaised

/-- What is fetched for a series. -/
def fetchedFor (freshness : ℤ) (run : MacroRun) (x : MacroSeries) : Option (List (DatedValue ℚ)) :=
  (run.answerTo freshness x).bind MacroAnswer.observations?

end MacroRun

def macroRows (slug : String) (observations : List (DatedValue ℚ)) : List MacroObservation :=
  observations.map fun obs => ⟨slug, obs.obsDate, obs.value⟩

/-- The rows that a run tries to store. -/
def MacroRun.rows (freshness : ℤ) (run : MacroRun) (s : MacroStore) : List MacroObservation :=
  (run.reached freshness s).flatMap fun x => (run.fetchedFor freshness x).elim [] (macroRows x.slug)

/-- The series that a run stamps. -/
def MacroRun.stamped (freshness : ℤ) (run : MacroRun) (s : MacroStore) : List String :=
  ((run.reached freshness s).filter fun x => (run.fetchedFor freshness x).isSome).map MacroSeries.slug

/-- The rows that the runs try to store, in their order. -/
def macroGiven (freshness : ℤ) : MacroStore → List MacroRun → List MacroObservation
  | _, [] => []
  | s, run :: runs => run.rows freshness s ++ macroGiven freshness ((syncSeries freshness run).saved s) runs

/-- The series that the runs fetched and when, in their order. -/
def macroFetches (freshness : ℤ) : MacroStore → List MacroRun → List (String × Timestamp)
  | _, [] => []
  | s, run :: runs => ((run.stamped freshness s).map fun slug => (slug, run.now)) ++
      macroFetches freshness ((syncSeries freshness run).saved s) runs

/-! ## One series -/

variable {freshness : ℤ} {run : MacroRun} {runs : List MacroRun} {s s' : MacroStore} {x : MacroSeries}

/-- What storing an answer leaves. -/
def storeRows (s : MacroStore) (slug : String) (now : Timestamp) (observations : List (DatedValue ℚ)) : MacroStore :=
  touchMacroSeriesSynced ((macroRows slug observations).foldl (fun s o => (upsertMacroObservation s o).2) s) slug now

theorem foldl_upsert_observations (rows : List MacroObservation) (s : MacroStore) :
    (rows.foldl (fun s o => (upsertMacroObservation s o).2) s).observations =
      keepFirst MacroObservation.key s.observations rows := by
  induction rows generalizing s with
  | nil => rfl
  | cons o rows ih =>
    rw [List.foldl_cons, ih]
    rfl

theorem foldl_upsert_series (rows : List MacroObservation) (s : MacroStore) :
    (rows.foldl (fun s o => (upsertMacroObservation s o).2) s).series = s.series := by
  induction rows generalizing s with
  | nil => rfl
  | cons o rows ih =>
    rw [List.foldl_cons, ih]
    rfl

theorem storeRows_observations (slug : String) (now : Timestamp) (observations : List (DatedValue ℚ)) :
    (storeRows s slug now observations).observations =
      keepFirst MacroObservation.key s.observations (macroRows slug observations) :=
  foldl_upsert_observations _ _

theorem storeRows_series (slug : String) (now : Timestamp) (observations : List (DatedValue ℚ)) :
    (storeRows s slug now observations).series = s.series.map (MacroSeries.touch slug now) := by
  unfold storeRows touchMacroSeriesSynced
  dsimp only
  rw [foldl_upsert_series]

/-- A row that is inserted is counted. -/
theorem length_upsert (s : MacroStore) (o : MacroObservation) :
    (upsertMacroObservation s o).2.observations.length =
      s.observations.length + (if (upsertMacroObservation s o).1 then 1 else 0) := by
  unfold upsertMacroObservation insertNew
  by_cases hhas : hasKey MacroObservation.key s.observations o.key = true
  · simp [hhas]
  · simp [hhas]

theorem storeLoop_apply (slug : String) (observations : List (DatedValue ℚ)) (added : ℕ) (σ : Session MacroStore) :
    ∃ more σ', observations.foldlM (storeObservation slug) added σ = (.ok (added + more), σ') ∧
      σ' = { σ with
        working := (macroRows slug observations).foldl (fun s o => (upsertMacroObservation s o).2) σ.working } ∧
      σ'.working.observations.length = σ.working.observations.length + more := by
  induction observations generalizing added σ with
  | nil => exact ⟨0, σ, rfl, rfl, rfl⟩
  | cons obs observations ih =>
    let first := upsertMacroObservation σ.working ⟨slug, obs.obsDate, obs.value⟩
    obtain ⟨more, σ', hrest, hσ', hlength⟩ := ih (if first.1 then added + 1 else added) { σ with working := first.2 }
    have hfirst : first.2.observations.length = _ := length_upsert σ.working ⟨slug, obs.obsDate, obs.value⟩
    refine ⟨(if first.1 then 1 else 0) + more, σ', ?_, hσ', ?_⟩
    · rw [List.foldlM_cons]
      refine Eq.trans hrest ?_
      congr 2
      split_ifs with hnew
      · omega
      · omega
    · rw [hlength]
      change first.2.observations.length + more = _
      rw [hfirst, Nat.add_assoc]

/-- The answer is committed, and the rows that were new are counted. -/
theorem storeObservations_apply (slug : String) (observations : List (DatedValue ℚ)) (now : Timestamp)
    (s : MacroStore) (history : List MacroStore) :
    ∃ added history', storeObservations slug observations now (.clean s history) =
        (.ok added, .clean (storeRows s slug now observations) history') ∧
      (storeRows s slug now observations).observations.length = s.observations.length + added := by
  obtain ⟨added, σ', hrun, rfl, hlength⟩ := storeLoop_apply slug observations 0 (.clean s history)
  refine ⟨added, storeRows s slug now observations :: history, ?_, hlength⟩
  unfold storeObservations
  rw [Work.bind_ok hrun, Nat.zero_add]
  rfl

/-! ## One run -/

/-- Whether the loop goes on after a series. -/
def MacroRun.goesOn (freshness : ℤ) (run : MacroRun) (x : MacroSeries) : Bool :=
  !(run.answerTo freshness x).any MacroAnswer.isRaised

/-- What the pass of a series leaves. -/
def storeFetched (freshness : ℤ) (run : MacroRun) (s : MacroStore) (x : MacroSeries) : MacroStore :=
  (run.fetchedFor freshness x).elim s (storeRows s x.slug run.now)

theorem syncOne_apply (freshness : ℤ) (run : MacroRun) (results : List MacroEntry) (s : MacroStore)
    (history : List MacroStore) :
    (run.goesOn freshness x = false ∧
      ∃ e, syncOne freshness run results x (.clean s history) = (.error e, .clean s history)) ∨
    (run.goesOn freshness x = true ∧ ∃ entry history',
      syncOne freshness run results x (.clean s history) =
        (.ok (results ++ [entry]), .clean (storeFetched freshness run s x) history') ∧
      (storeFetched freshness run s x).observations.length = s.observations.length + entry.added) := by
  unfold syncOne MacroRun.goesOn storeFetched MacroRun.fetchedFor MacroRun.answerTo
  cases hsource : x.source.isNone with
  | true => exact .inr ⟨rfl, _, history, rfl, rfl⟩
  | false =>
    cases hfresh : isFresh freshness run.now x with
    | true => exact .inr ⟨rfl, _, history, rfl, rfl⟩
    | false =>
      simp only [Bool.or_self, Bool.false_eq_true, if_false, Option.any_some, Option.bind_some]
      cases run.answers x.slug with
      | raised error => exact .inl ⟨rfl, error, rfl⟩
      | refused error => exact .inr ⟨rfl, _, history, rfl, rfl⟩
      | fetched observations =>
        obtain ⟨added, history', hstore, hlength⟩ := storeObservations_apply x.slug observations run.now s history
        refine .inr ⟨rfl, { slug := x.slug, added }, history', ?_, hlength⟩
        exact Work.bind_ok hstore

theorem syncLoop_apply (freshness : ℤ) (run : MacroRun) (xs : List MacroSeries) (results : List MacroEntry)
    (s : MacroStore) (history : List MacroStore) :
    ∃ answer history', xs.foldlM (syncOne freshness run) results (.clean s history) =
        (answer, .clean ((xs.takeWhile (run.goesOn freshness)).foldl (storeFetched freshness run) s) history') ∧
      ∀ entries, answer = .ok entries →
        ((xs.takeWhile (run.goesOn freshness)).foldl (storeFetched freshness run) s).observations.length +
            (results.map MacroEntry.added).sum =
          s.observations.length + (entries.map MacroEntry.added).sum := by
  induction xs generalizing results s history with
  | nil =>
    refine ⟨.ok results, history, rfl, ?_⟩
    rintro entries ⟨⟩
    rfl
  | cons x xs ih =>
    rw [List.foldlM_cons]
    rcases syncOne_apply freshness run results s history (x := x) with
      ⟨hstop, e, hone⟩ | ⟨hgo, entry, history₁, hone, hlength⟩
    · refine ⟨.error e, history, ?_, fun entries h => nomatch h⟩
      rw [Work.bind_error hone, List.takeWhile_cons_of_neg (by rw [hstop]; exact Bool.false_ne_true)]
      rfl
    · obtain ⟨answer, history', hrest, hcount⟩ := ih (results ++ [entry]) (storeFetched freshness run s x) history₁
      refine ⟨answer, history', ?_, ?_⟩
      · rw [Work.bind_ok hone, hrest, List.takeWhile_cons_of_pos hgo]
        rfl
      · intro entries hanswer
        have := hcount entries hanswer
        rw [List.takeWhile_cons_of_pos hgo, List.foldl_cons]
        simp only [List.map_append, List.sum_append, List.map_cons, List.map_nil, List.sum_cons, List.sum_nil] at this
        omega

theorem syncSeries_apply (freshness : ℤ) (run : MacroRun) (s : MacroStore) :
    ∃ answer history', syncSeries freshness run (.ofDb s) =
        (answer, .clean ((run.reached freshness s).foldl (storeFetched freshness run) s) history') ∧
      ∀ report, answer = .ok report →
        ((run.reached freshness s).foldl (storeFetched freshness run) s).observations.length =
          s.observations.length + report.totalAdded := by
  unfold syncSeries MacroRun.reached
  cases hbusy : run.busy with
  | true =>
    refine ⟨_, [], rfl, ?_⟩
    rintro report ⟨⟩
    rfl
  | false =>
    simp only [Bool.false_eq_true, if_false, Work.read_bind, Session.ofDb, Session.clean]
    cases hnone : (run.selected s).isEmpty with
    | true =>
      rw [List.isEmpty_iff.mp hnone]
      refine ⟨_, [], rfl, ?_⟩
      rintro report ⟨⟩
      rfl
    | false =>
      obtain ⟨answer, history', hloop, hcount⟩ := syncLoop_apply freshness run (run.selected s) [] s []
      cases answer with
      | error e =>
        refine ⟨.error e, history', Work.bind_error hloop, fun report h => nomatch h⟩
      | ok entries =>
        refine ⟨_, history', Work.bind_ok hloop, ?_⟩
        rintro report ⟨⟩
        exact (Nat.add_zero _).symm.trans (hcount entries rfl)

/-- A run stores the series that it comes to, also when an exception ends it. -/
theorem syncSeries_saved (freshness : ℤ) (run : MacroRun) (s : MacroStore) :
    (syncSeries freshness run).saved s = (run.reached freshness s).foldl (storeFetched freshness run) s := by
  obtain ⟨answer, history', happly, -⟩ := syncSeries_apply freshness run s
  unfold Work.saved
  rw [happly]
  rfl

/-- A run that answers reports as many rows as it adds. -/
theorem syncSeries_counted {report : MacroReport} (h : (syncSeries freshness run (.ofDb s)).1 = .ok report) :
    ((syncSeries freshness run).saved s).observations.length = s.observations.length + report.totalAdded := by
  obtain ⟨answer, history', happly, hcount⟩ := syncSeries_apply freshness run s
  rw [syncSeries_saved]
  rw [happly] at h
  exact hcount report h

theorem keepFirst_append_rows {table rows rows' : List MacroObservation} :
    keepFirst MacroObservation.key table (rows ++ rows') =
      keepFirst MacroObservation.key (keepFirst MacroObservation.key table rows) rows' := List.foldl_append

theorem foldl_storeFetched_observations (xs : List MacroSeries) (s : MacroStore) :
    (xs.foldl (storeFetched freshness run) s).observations = keepFirst MacroObservation.key s.observations
      (xs.flatMap fun x => (run.fetchedFor freshness x).elim [] (macroRows x.slug)) := by
  induction xs generalizing s with
  | nil => rfl
  | cons x xs ih =>
    rw [List.foldl_cons, ih, List.flatMap_cons, keepFirst_append_rows]
    congr 1
    unfold storeFetched
    cases run.fetchedFor freshness x with
    | none => rfl
    | some observations => exact storeRows_observations ..

/-- One run: of what was stored and what the run fetches, the first row under a date is kept. -/
theorem syncSeries_observations (freshness : ℤ) (run : MacroRun) (s : MacroStore) :
    ((syncSeries freshness run).saved s).observations =
      keepFirst MacroObservation.key s.observations (run.rows freshness s) := by
  rw [syncSeries_saved, foldl_storeFetched_observations]
  rfl

/-- What a pass does to the series of a slug. -/
def MacroRun.stamp (run : MacroRun) (slugs : List String) (x : MacroSeries) : MacroSeries :=
  if slugs.elem x.slug then { x with lastSyncedAt := some run.now } else x

theorem foldl_storeFetched_series (xs : List MacroSeries) (s : MacroStore) :
    (xs.foldl (storeFetched freshness run) s).series = s.series.map (run.stamp
      ((xs.filter fun x => (run.fetchedFor freshness x).isSome).map MacroSeries.slug)) := by
  induction xs generalizing s with
  | nil => exact (List.map_id _).symm
  | cons x xs ih =>
    rw [List.foldl_cons, ih]
    unfold storeFetched
    cases hfetched : run.fetchedFor freshness x with
    | none => rw [List.filter_cons_of_neg (by rw [hfetched]; exact Bool.false_ne_true)]; rfl
    | some observations =>
      rw [List.filter_cons_of_pos (by rw [hfetched]; rfl), Option.elim_some, storeRows_series, List.map_map]
      refine List.map_congr_left fun y _ => ?_
      simp only [Function.comp_apply, MacroRun.stamp, MacroSeries.touch_slug, List.map_cons]
      by_cases hy : y.slug = x.slug
      · have helem : ∀ slugs : List String, (x.slug :: slugs).elem y.slug = true := by
          intro slugs
          rw [List.elem_iff, hy]
          exact List.mem_cons_self
        rw [MacroSeries.touch, if_pos hy, helem, if_pos rfl]
        split_ifs <;> rfl
      · have helem : ∀ slugs : List String, (x.slug :: slugs).elem y.slug = slugs.elem y.slug := by
          intro slugs
          rw [Bool.eq_iff_iff, List.elem_iff, List.elem_iff, List.mem_cons, or_iff_right hy]
        rw [MacroSeries.touch, if_neg hy, helem]

/-- One run stamps the series that it fetches. -/
theorem syncSeries_series (freshness : ℤ) (run : MacroRun) (s : MacroStore) :
    ((syncSeries freshness run).saved s).series = s.series.map (run.stamp (run.stamped freshness s)) := by
  rw [syncSeries_saved, foldl_storeFetched_series]
  rfl

theorem mem_selected (h : x ∈ run.selected s) : x ∈ s.series := by
  unfold MacroRun.selected at h
  cases hslugs : run.slugs with
  | none =>
    rw [hslugs] at h
    exact (List.mem_insertionSort _).mp h
  | some slugs =>
    rw [hslugs] at h
    exact (List.mem_insertionSort _).mp (List.mem_filter.mp h).1

theorem mem_reached (h : x ∈ run.reached freshness s) : x ∈ s.series := by
  unfold MacroRun.reached at h
  split_ifs at h with hbusy
  · cases h
  · exact mem_selected ((List.takeWhile_prefix _).subset h)

theorem nodup_stamped (freshness : ℤ) (run : MacroRun) (s : MacroStore) : (run.stamped freshness s).Nodup := by
  have hall : ((getAllMacroSeries s).map MacroSeries.slug).Nodup :=
    ((List.perm_insertionSort _ _).map _).nodup_iff.mpr s.slug_unique
  have hsub : (run.stamped freshness s).Sublist ((getAllMacroSeries s).map MacroSeries.slug) := by
    refine List.Sublist.map _ (List.filter_sublist.trans ?_)
    unfold MacroRun.reached
    split_ifs with hbusy
    · exact List.nil_sublist _
    · refine (List.takeWhile_prefix _).sublist.trans ?_
      unfold MacroRun.selected
      cases run.slugs with
      | none => exact List.Sublist.refl _
      | some slugs => exact List.filter_sublist
  exact hall.sublist hsub

/-- A series is only fetched when its stamp is old. -/
theorem old_of_stamped {slug : String} (h : slug ∈ run.stamped freshness s) (hx : x ∈ s.series)
    (hslug : x.slug = slug) : ∀ last ∈ x.lastSyncedAt, last + freshness ≤ run.now := by
  obtain ⟨y, hy, hyslug⟩ := List.mem_map.mp h
  obtain ⟨hreached, hfetched⟩ := List.mem_filter.mp hy
  obtain rfl : y = x := List.inj_on_of_nodup_map s.slug_unique (mem_reached hreached) hx (hyslug.trans hslug.symm)
  intro last hlast
  unfold MacroRun.fetchedFor MacroRun.answerTo isFresh at hfetched
  rw [Option.mem_def.mp hlast] at hfetched
  by_contra hlt
  have hfresh : run.now - last < freshness := sub_lt_iff_lt_add'.mpr (not_le.mp hlt)
  simp [hfresh] at hfetched

/-! ## Sequences of runs -/

theorem syncRuns_cons (freshness : ℤ) (s : MacroStore) (run : MacroRun) (runs : List MacroRun) :
    syncRuns freshness s (run :: runs) = syncRuns freshness ((syncSeries freshness run).saved s) runs := rfl

theorem syncRuns_concat (freshness : ℤ) (s : MacroStore) (runs : List MacroRun) (run : MacroRun) :
    syncRuns freshness s (runs ++ [run]) = (syncSeries freshness run).saved (syncRuns freshness s runs) :=
  List.foldl_append

theorem syncRuns_observations (freshness : ℤ) (s : MacroStore) (runs : List MacroRun) :
    (syncRuns freshness s runs).observations =
      keepFirst MacroObservation.key s.observations (macroGiven freshness s runs) := by
  induction runs generalizing s with
  | nil => rfl
  | cons run runs ih => rw [syncRuns_cons, ih, macroGiven, keepFirst_append_rows, syncSeries_observations]

/-- The tables after a sequence of runs. -/
structure MacroLaws (freshness : ℤ) (s : MacroStore) (runs : List MacroRun) : Prop where
  first_wins : ∀ o, o ∈ (syncRuns freshness s runs).observations ↔
    ((s.observations ++ macroGiven freshness s runs).find? fun p => decide (p.key = o.key)) = some o
  kept : s.observations <+: (syncRuns freshness s runs).observations
  counted : ∀ run report, (syncSeries freshness run (.ofDb (syncRuns freshness s runs))).1 = .ok report →
    (syncRuns freshness s (runs ++ [run])).observations.length =
      (syncRuns freshness s runs).observations.length + report.totalAdded

/-- In every sequence of runs, also of runs that an exception ends, a date has the value that was fetched for
it first, whatever the provider says later; nothing stored is lost; and a report counts what its run added. -/
theorem syncRuns_laws (freshness : ℤ) (s : MacroStore) (runs : List MacroRun) : MacroLaws freshness s runs where
  first_wins o := by
    rw [syncRuns_observations]
    exact mem_keepFirst_iff s.unique
  kept := by
    rw [syncRuns_observations]
    exact prefix_keepFirst
  counted run report h := by
    rw [syncRuns_concat]
    exact syncSeries_counted h

/-! ## When a series is asked for -/

theorem stamp_slug (slugs : List String) (x : MacroSeries) : (run.stamp slugs x).slug = x.slug := by
  unfold MacroRun.stamp
  split_ifs <;> rfl

/-- Fetches of a series come at least the freshness apart, and so does the first from the stamp before it. -/
theorem stamp_le_of_fetched (hfresh : 0 ≤ freshness) {fetch : String × Timestamp}
    (h : fetch ∈ macroFetches freshness s runs) (hx : x ∈ s.series) (hslug : x.slug = fetch.1) :
    ∀ last ∈ x.lastSyncedAt, last + freshness ≤ fetch.2 := by
  induction runs generalizing s x with
  | nil => cases h
  | cons run runs ih =>
    rcases List.mem_append.mp h with hnow | hlater
    · obtain ⟨slug, hstamped, rfl⟩ := List.mem_map.mp hnow
      exact old_of_stamped hstamped hx hslug
    · have hx' : run.stamp (run.stamped freshness s) x ∈ ((syncSeries freshness run).saved s).series := by
        rw [syncSeries_series]
        exact List.mem_map_of_mem hx
      have hrest := ih hlater hx' ((stamp_slug _ x).trans hslug)
      intro last hlast
      by_cases hstamped : x.slug ∈ run.stamped freshness s
      · have hold := old_of_stamped hstamped hx rfl last hlast
        have hnow := hrest run.now (by unfold MacroRun.stamp; rw [if_pos (List.elem_iff.mpr hstamped)]; rfl)
        exact hold.trans ((le_add_of_nonneg_right hfresh).trans hnow)
      · refine hrest last ?_
        unfold MacroRun.stamp
        rw [if_neg (by rw [List.elem_iff]; exact hstamped)]
        exact hlast

theorem fetches_apart (hfresh : 0 ≤ freshness) (s : MacroStore) (runs : List MacroRun) :
    (macroFetches freshness s runs).Pairwise fun a b => a.1 = b.1 → a.2 + freshness ≤ b.2 := by
  induction runs generalizing s with
  | nil => exact .nil
  | cons run runs ih =>
    refine List.pairwise_append.mpr ⟨?_, ih _, ?_⟩
    · refine List.pairwise_map.mpr ((nodup_stamped freshness run s).imp ?_)
      intro a b hne heq
      exact absurd heq hne
    · intro a ha b hb hslug
      obtain ⟨slug, hstamped, rfl⟩ := List.mem_map.mp ha
      obtain ⟨y, hy, rfl⟩ := List.mem_map.mp hstamped
      have hmem : y ∈ s.series := mem_reached (List.mem_filter.mp hy).1
      have hx' : run.stamp (run.stamped freshness s) y ∈ ((syncSeries freshness run).saved s).series := by
        rw [syncSeries_series]
        exact List.mem_map_of_mem hmem
      refine stamp_le_of_fetched hfresh hb hx' ((stamp_slug _ y).trans hslug) run.now ?_
      unfold MacroRun.stamp
      rw [if_pos (List.elem_iff.mpr hstamped)]
      rfl

/-- The stamp of a series after the runs: its last fetch, if there was one. -/
def lastFetch (freshness : ℤ) (s : MacroStore) (runs : List MacroRun) (x : MacroSeries) : Option Timestamp :=
  (((macroFetches freshness s runs).filter fun fetch => fetch.1 == x.slug).getLast?.map Prod.snd).or x.lastSyncedAt

theorem lastFetch_cons (freshness : ℤ) (s : MacroStore) (run : MacroRun) (runs : List MacroRun) (x : MacroSeries) :
    lastFetch freshness s (run :: runs) x = lastFetch freshness ((syncSeries freshness run).saved s) runs
      (run.stamp (run.stamped freshness s) x) := by
  unfold lastFetch
  rw [macroFetches, List.filter_append, List.getLast?_append, stamp_slug, List.filter_map]
  cases (macroFetches freshness ((syncSeries freshness run).saved s) runs |>.filter
      fun fetch => fetch.1 == x.slug).getLast? with
  | some fetch => rfl
  | none =>
    rw [Option.none_or, Option.map_none, Option.none_or]
    unfold MacroRun.stamp
    split_ifs with hstamped
    · have hmem := List.elem_iff.mp hstamped
      cases hlast : ((run.stamped freshness s).filter ((fun fetch : String × Timestamp => fetch.1 == x.slug) ∘
          fun slug => (slug, run.now))).getLast? with
      | none =>
        rw [List.getLast?_eq_none_iff, List.filter_eq_nil_iff] at hlast
        exact absurd (by simp) (hlast x.slug hmem)
      | some slug => simp [List.getLast?_map, hlast]
    · have hnone : (run.stamped freshness s).filter ((fun fetch : String × Timestamp => fetch.1 == x.slug) ∘
          fun slug => (slug, run.now)) = [] := by
        refine List.filter_eq_nil_iff.mpr fun slug hslug heq => hstamped (List.elem_iff.mpr ?_)
        exact (eq_of_beq heq) ▸ hslug
      rw [hnone]
      rfl

theorem syncRuns_series (freshness : ℤ) (s : MacroStore) (runs : List MacroRun) :
    (syncRuns freshness s runs).series =
      s.series.map fun x => { x with lastSyncedAt := lastFetch freshness s runs x } := by
  induction runs generalizing s with
  | nil => exact (List.map_id _).symm
  | cons run runs ih =>
    rw [syncRuns_cons, ih, syncSeries_series, List.map_map]
    refine List.map_congr_left fun x _ => ?_
    rw [Function.comp_apply, lastFetch_cons]
    unfold MacroRun.stamp
    split_ifs <;> rfl

theorem isSome_answerTo : (run.answerTo freshness x).isSome ↔
    x.source.isSome ∧ ∀ last ∈ x.lastSyncedAt, last + freshness ≤ run.now := by
  have hold : isFresh freshness run.now x = false ↔ ∀ last ∈ x.lastSyncedAt, last + freshness ≤ run.now := by
    unfold isFresh
    cases x.lastSyncedAt with
    | none => simp
    | some last => simp [le_sub_iff_add_le']
  unfold MacroRun.answerTo
  rw [← hold]
  cases x.source <;> cases isFresh freshness run.now x <;> simp

/-- When the runs ask for a series. -/
structure MacroPace (freshness : ℤ) (s : MacroStore) (runs : List MacroRun) : Prop where
  apart : (macroFetches freshness s runs).Pairwise fun a b => a.1 = b.1 → a.2 + freshness ≤ b.2
  stamps : (syncRuns freshness s runs).series =
    s.series.map fun x => { x with lastSyncedAt := lastFetch freshness s runs x }
  asked : ∀ (run : MacroRun), ∀ x ∈ s.series,
    ((run.answerTo freshness { x with lastSyncedAt := lastFetch freshness s runs x }).isSome ↔
      x.source.isSome ∧ ∀ last ∈ lastFetch freshness s runs x, last + freshness ≤ run.now)

/-- Whatever the clocks, the answers and the series that the runs name, no series is fetched twice within the
freshness, and one with a source is asked for again as soon as its last fetch is that old: a run that names a
series does not force it, and a fetch that failed does not count. -/
theorem syncRuns_pace (hfresh : 0 ≤ freshness) (s : MacroStore) (runs : List MacroRun) :
    MacroPace freshness s runs where
  apart := fetches_apart hfresh s runs
  stamps := syncRuns_series freshness s runs
  asked _ _ _ := isSome_answerTo

namespace Sample

def moneySupply : MacroStore where
  series := [{ slug := "usa-m2-money-supply", provider := some "fred", sourceUrl := some "https://fred.stlouisfed.org" }]
  observations := []
  slug_unique := by decide
  unique := by decide

def macroRunAt (now : Timestamp) (answer : MacroAnswer) : MacroRun where
  slugs := some ["usa-m2-money-supply"]
  now := now
  answers _ := answer

/-- Fetched, skipped as fresh, refused, and fetched again. -/
def macroRuns : List MacroRun :=
  [macroRunAt 0 (.fetched []), macroRunAt 5 (.fetched []), macroRunAt 12 (.refused "circuit open"),
    macroRunAt 13 (.fetched [])]

theorem macroRuns_pace : MacroPace 12 moneySupply macroRuns ∧
    macroFetches 12 moneySupply macroRuns = [("usa-m2-money-supply", 0), ("usa-m2-money-supply", 13)] :=
  ⟨syncRuns_pace (by decide) moneySupply macroRuns, by decide⟩

end Sample

end FinHub
