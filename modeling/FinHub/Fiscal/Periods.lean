import FinHub.Lib.Ranges
import FinHub.Model.Queries

/-!
# FinHub.Fiscal.Periods

`services/fiscal_period_svc.py`: the fiscal periods of every profile, and what a run of requests keeps.

`_overlaps_existing` compares bounds. Nothing asks that a period starts before it ends, so an inverted
period can be stored. Such a period contains no date; between the others the comparison of the bounds
is sharing a date, and no date ever lies in two periods of a profile (`noShared_of_run`).
-/

namespace FinHub

open Tabular

/-- `date.min` and `date.max`, as day numbers. -/
def dateMin : ℤ := -719162

def dateMax : ℤ := 2932896

/-- A `datetime.date`, by its day number. -/
abbrev DateValue : Type := {d : ℤ // dateMin ≤ d ∧ d ≤ dateMax}

namespace DateValue

def max : DateValue := ⟨dateMax, by decide, le_rfl⟩

theorem le_max (d : DateValue) : d ≤ max := d.2.2

end DateValue

structure FiscalPeriodRow where
  profileId : ℕ
  ruleKey : String
  startDate : DateValue
  endDate : Option DateValue := none
  deriving DecidableEq

structure FiscalPeriodCreate where
  ruleKey : String
  startDate : DateValue
  endDate : Option DateValue := none
  deriving DecidableEq

/-- `_to_date` of an end: an open period ends with the calendar. -/
def toDate (value : Option DateValue) : DateValue := value.getD .max

def FiscalPeriodRow.span (r : FiscalPeriodRow) : Range DateValue := ⟨r.startDate, toDate r.endDate⟩

def FiscalPeriodCreate.span (b : FiscalPeriodCreate) : Range DateValue := ⟨b.startDate, toDate b.endDate⟩

def FiscalPeriodCreate.toRow (b : FiscalPeriodCreate) (profile_id : ℕ) : FiscalPeriodRow :=
  ⟨profile_id, b.ruleKey, b.startDate, b.endDate⟩

inductive FiscalPeriodError where
  | fiscalPeriodNotFound (id : ℕ)
  | fiscalPeriodOverlap
  deriving DecidableEq

def FiscalPeriodError.message : FiscalPeriodError → String
  | fiscalPeriodNotFound id => s!"Fiscal period {id} not found"
  | fiscalPeriodOverlap => "Fiscal period overlaps an existing period"

/-- `fiscal_periods`. -/
abbrev FiscalPeriods : Type := Table FiscalPeriodRow

/-- The table after a call, and what the call returned or raised. -/
abbrev PeriodResult (α : Type) : Type := FiscalPeriods × Except FiscalPeriodError α

namespace FiscalPeriodSvc

variable (t : FiscalPeriods) (profile_id : ℕ)

/-- The profile's rows, as `get_all_fiscal_periods` reads them; their order does not matter here. -/
def getAllFiscalPeriods : List (ℕ × FiscalPeriodRow) :=
  t.rows.filter fun r => decide (r.2.profileId = profile_id)

def getFiscalPeriod (period_id : ℕ) : Option FiscalPeriodRow :=
  (t.get? period_id).filter fun r => decide (r.profileId = profile_id)

/-- `_overlaps_existing`. -/
def overlapsExisting (body : FiscalPeriodCreate) (exclude_id : Option ℕ) : Bool :=
  (getAllFiscalPeriods t profile_id).any fun r =>
    decide (exclude_id ≠ some r.1) && decide (body.span.Crosses r.2.span)

def create (body : FiscalPeriodCreate) : PeriodResult ℕ :=
  if overlapsExisting t profile_id body none then (t, .error .fiscalPeriodOverlap)
  else (t.insert (body.toRow profile_id), .ok t.next)

def update (period_id : ℕ) (body : FiscalPeriodCreate) : PeriodResult ℕ :=
  match getFiscalPeriod t profile_id period_id with
  | none => (t, .error (.fiscalPeriodNotFound period_id))
  | some _ =>
    if overlapsExisting t profile_id body (some period_id) then (t, .error .fiscalPeriodOverlap)
    else (t.modify period_id fun _ => body.toRow profile_id, .ok period_id)

def delete (period_id : ℕ) : PeriodResult ℕ :=
  match getFiscalPeriod t profile_id period_id with
  | none => (t, .error (.fiscalPeriodNotFound period_id))
  | some _ => (t.erase period_id, .ok period_id)

end FiscalPeriodSvc

/-- A request, with the profile it is made under. -/
inductive PeriodRequest where
  | create (profile_id : ℕ) (body : FiscalPeriodCreate)
  | update (profile_id period_id : ℕ) (body : FiscalPeriodCreate)
  | delete (profile_id period_id : ℕ)

namespace PeriodRequest

def call (t : FiscalPeriods) : PeriodRequest → PeriodResult ℕ
  | create profile_id body => FiscalPeriodSvc.create t profile_id body
  | update profile_id period_id body => FiscalPeriodSvc.update t profile_id period_id body
  | delete profile_id period_id => FiscalPeriodSvc.delete t profile_id period_id

/-- The table after a sequence of requests. -/
def run (t : FiscalPeriods) (reqs : List PeriodRequest) : FiscalPeriods :=
  reqs.foldl (fun t req => (req.call t).1) t

end PeriodRequest

/-! ## No date in two periods -/

variable {t : FiscalPeriods} {profile_id period_id : ℕ} {body : FiscalPeriodCreate}

/-- No two periods of a profile share a date. -/
def NoShared (t : FiscalPeriods) : Prop :=
  ∀ a ∈ t.rows, ∀ b ∈ t.rows, a.2.profileId = b.2.profileId → a.1 ≠ b.1 → ¬ a.2.span.Meets b.2.span

namespace FiscalPeriodSvc

theorem overlapsExisting_eq_true_iff {exclude_id : Option ℕ} :
    overlapsExisting t profile_id body exclude_id = true ↔
      ∃ r ∈ t.rows, r.2.profileId = profile_id ∧ exclude_id ≠ some r.1 ∧
        body.span.Crosses r.2.span := by
  simp only [overlapsExisting, getAllFiscalPeriods, List.any_eq_true, List.mem_filter,
    decide_eq_true_eq, Bool.and_eq_true, and_assoc]

theorem getFiscalPeriod_eq_some_iff {r : FiscalPeriodRow} :
    getFiscalPeriod t profile_id period_id = some r ↔
      (period_id, r) ∈ t.rows ∧ r.profileId = profile_id := by
  rw [getFiscalPeriod, Option.filter_eq_some_iff, Table.get?_eq_some_iff, decide_eq_true_eq]

/-- The new row shares no date with the others, so none do. -/
theorem noShared_create (h : NoShared t) : NoShared (create t profile_id body).1 := by
  unfold create
  split_ifs with hover
  · exact h
  have hnew : ∀ r ∈ t.rows, r.2.profileId = profile_id → ¬ body.span.Meets r.2.span :=
    fun r hr hp hmeets => hover (overlapsExisting_eq_true_iff.mpr
      ⟨r, hr, hp, by simp, Range.crosses_of_meets hmeets⟩)
  intro a ha b hb hp hne
  rcases Table.mem_insert.mp ha with ha | rfl <;> rcases Table.mem_insert.mp hb with hb | rfl
  · exact h a ha b hb hp hne
  · exact fun hmeets => hnew a ha hp hmeets.symm
  · exact hnew b hb hp.symm
  · exact absurd rfl hne

theorem noShared_update (h : NoShared t) : NoShared (update t profile_id period_id body).1 := by
  unfold update
  cases hget : getFiscalPeriod t profile_id period_id with
  | none => exact h
  | some old =>
    dsimp only
    split_ifs with hover
    · exact h
    have hnew : ∀ r ∈ t.rows, r.2.profileId = profile_id → r.1 ≠ period_id →
        ¬ body.span.Meets r.2.span :=
      fun r hr hp hne hmeets => hover (overlapsExisting_eq_true_iff.mpr
        ⟨r, hr, hp, fun he => hne (Option.some_inj.mp he).symm, Range.crosses_of_meets hmeets⟩)
    rintro ⟨i, a⟩ ha ⟨j, b⟩ hb hp hne
    rcases Table.mem_modify.mp ha with ⟨hi, ha'⟩ | ⟨hi, -, -, rfl⟩ <;>
      rcases Table.mem_modify.mp hb with ⟨hj, hb'⟩ | ⟨hj, -, -, rfl⟩
    · exact h _ ha' _ hb' hp hne
    · exact fun hmeets => hnew _ ha' hp hi hmeets.symm
    · exact hnew _ hb' hp.symm hj
    · exact absurd (hi.trans hj.symm) hne

theorem noShared_delete (h : NoShared t) : NoShared (delete t profile_id period_id).1 := by
  unfold delete
  cases getFiscalPeriod t profile_id period_id with
  | none => exact h
  | some old =>
    intro a ha b hb hp hne
    exact h a (Table.mem_erase.mp ha).1 b (Table.mem_erase.mp hb).1 hp hne

end FiscalPeriodSvc

namespace PeriodRequest

theorem noShared_call {req : PeriodRequest} (h : NoShared t) : NoShared (req.call t).1 := by
  cases req with
  | create profile_id body => exact FiscalPeriodSvc.noShared_create h
  | update profile_id period_id body => exact FiscalPeriodSvc.noShared_update h
  | delete profile_id period_id => exact FiscalPeriodSvc.noShared_delete h

/-- No run of requests puts a date into two periods of a profile. -/
theorem noShared_of_run (reqs : List PeriodRequest) (h : NoShared t) : NoShared (run t reqs) := by
  induction reqs generalizing t with
  | nil => exact h
  | cons req reqs ih => exact ih (noShared_call h)

/-! ## Refusals -/

/-- The other stored periods of the profile that a create or update of an existing period is checked
against. -/
def others (t : FiscalPeriods) : PeriodRequest → List FiscalPeriodRow
  | create profile_id _ =>
    (t.rows.filter fun r => decide (r.2.profileId = profile_id)).map Prod.snd
  | update profile_id period_id _ =>
    if (FiscalPeriodSvc.getFiscalPeriod t profile_id period_id).isSome then
      (t.rows.filter fun r => decide (r.2.profileId = profile_id) && decide (r.1 ≠ period_id)).map Prod.snd
    else []
  | delete .. => []

/-- The period that is requested. -/
def span? : PeriodRequest → Option (Range DateValue)
  | create _ body | update _ _ body => some body.span
  | delete .. => none

/-- The requested period shares a date with another stored one. -/
def SharesDate (t : FiscalPeriods) (req : PeriodRequest) : Prop :=
  ∃ s ∈ req.span?, ∃ r ∈ req.others t, s.Meets r.span

/-- Neither the requested period nor one it is checked against ends before it starts. -/
def Upright (t : FiscalPeriods) (req : PeriodRequest) : Prop :=
  ∀ s ∈ req.span?, s.Ordered ∧ ∀ r ∈ req.others t, r.span.Ordered

theorem refused_iff (req : PeriodRequest) : (req.call t).2 = .error .fiscalPeriodOverlap ↔
    ∃ s ∈ req.span?, ∃ r ∈ req.others t, s.Crosses r.span := by
  cases req with
  | create profile_id body =>
    simp only [call, FiscalPeriodSvc.create, span?, others, Option.mem_some_iff, exists_eq_left',
      List.mem_map, List.mem_filter, decide_eq_true_eq]
    split_ifs with hover
    · refine iff_of_true rfl ?_
      obtain ⟨r, hr, hp, -, hcross⟩ := FiscalPeriodSvc.overlapsExisting_eq_true_iff.mp hover
      exact ⟨r.2, ⟨r, ⟨hr, hp⟩, rfl⟩, hcross⟩
    · refine iff_of_false (fun h => by cases h) ?_
      rintro ⟨-, ⟨r, ⟨hr, hp⟩, rfl⟩, hcross⟩
      exact hover (FiscalPeriodSvc.overlapsExisting_eq_true_iff.mpr ⟨r, hr, hp, by simp, hcross⟩)
  | update profile_id period_id body =>
    simp only [call, FiscalPeriodSvc.update, span?, others, Option.mem_some_iff, exists_eq_left']
    cases hget : FiscalPeriodSvc.getFiscalPeriod t profile_id period_id with
    | none => simp
    | some old =>
      simp only [Option.isSome_some, if_true, List.mem_map, List.mem_filter, Bool.and_eq_true,
        decide_eq_true_eq]
      split_ifs with hover
      · refine iff_of_true rfl ?_
        obtain ⟨r, hr, hp, hne, hcross⟩ := FiscalPeriodSvc.overlapsExisting_eq_true_iff.mp hover
        exact ⟨r.2, ⟨r, ⟨hr, hp, fun he => hne (by rw [he])⟩, rfl⟩, hcross⟩
      · refine iff_of_false (fun h => by cases h) ?_
        rintro ⟨-, ⟨r, ⟨hr, hp, hne⟩, rfl⟩, hcross⟩
        exact hover (FiscalPeriodSvc.overlapsExisting_eq_true_iff.mpr
          ⟨r, hr, hp, fun he => hne (Option.some_inj.mp he).symm, hcross⟩)
  | delete profile_id period_id =>
    simp only [call, FiscalPeriodSvc.delete, span?]
    cases FiscalPeriodSvc.getFiscalPeriod t profile_id period_id <;> simp

theorem call_of_error {req : PeriodRequest} {e : FiscalPeriodError} (h : (req.call t).2 = .error e) :
    (req.call t).1 = t := by
  cases req with
  | create profile_id body =>
    simp only [call, FiscalPeriodSvc.create] at h ⊢
    split_ifs at h ⊢
    rfl
  | update profile_id period_id body =>
    simp only [call, FiscalPeriodSvc.update] at h ⊢
    cases hget : FiscalPeriodSvc.getFiscalPeriod t profile_id period_id with
    | none => rfl
    | some old =>
      rw [hget] at h
      dsimp only at h ⊢
      split_ifs at h ⊢
      rfl
  | delete profile_id period_id =>
    simp only [call, FiscalPeriodSvc.delete] at h ⊢
    cases hget : FiscalPeriodSvc.getFiscalPeriod t profile_id period_id with
    | none => rfl
    | some old => rw [hget] at h; cases h

end PeriodRequest

/-! ## The period of a date -/

/-- A row as the ledger of its profile reads it. -/
def FiscalPeriodRow.toPeriod (r : FiscalPeriodRow) : FiscalPeriod :=
  ⟨r.ruleKey, r.startDate, r.endDate.map Subtype.val⟩

/-- The fiscal periods of one profile. -/
def periodsOf (t : FiscalPeriods) (profile_id : ℕ) : List FiscalPeriod :=
  (FiscalPeriodSvc.getAllFiscalPeriods t profile_id).map fun r => r.2.toPeriod

/-- The window of `get_fiscal_period_at`. -/
theorem contains_iff (r : FiscalPeriodRow) (d : DateValue) : r.span.Contains d ↔
    (decide (r.toPeriod.startDate ≤ d.1) && r.toPeriod.endDate.all fun e => decide (d.1 ≤ e)) = true := by
  rw [Bool.and_eq_true]
  refine and_congr decide_eq_true_iff.symm ?_
  cases hend : r.endDate with
  | none =>
    simp only [FiscalPeriodRow.span, FiscalPeriodRow.toPeriod, toDate, hend, Option.getD_none,
      Option.map_none, Option.all_none, iff_true]
    exact d.le_max
  | some e =>
    simp only [FiscalPeriodRow.span, FiscalPeriodRow.toPeriod, toDate, hend, Option.getD_some,
      Option.map_some, Option.all_some]
    exact decide_eq_true_iff.symm

/-- Where a period contains the date of an instant, it is the answer. -/
theorem getFiscalPeriodAt_eq (h : NoShared t) {l : Ledger}
    (hl : l.fiscalPeriods = periodsOf t profile_id) {ts : Timestamp} {d : DateValue}
    (hd : l.timezone.utcInstantToProfileDate ts = d.1) {r : ℕ × FiscalPeriodRow} (hr : r ∈ t.rows)
    (hp : r.2.profileId = profile_id) (hc : r.2.span.Contains d) :
    l.getFiscalPeriodAt ts = some r.2.toPeriod := by
  have honly : ∀ p ∈ l.fiscalPeriods.filter (fun p => decide (p.startDate ≤ d.1) &&
      p.endDate.all fun e => decide (d.1 ≤ e)), p = r.2.toPeriod := by
    intro p hmem
    rw [hl] at hmem
    obtain ⟨hmem, hwindow⟩ := List.mem_filter.mp hmem
    obtain ⟨r', hr', rfl⟩ := List.mem_map.mp hmem
    obtain ⟨hr', hp'⟩ := List.mem_filter.mp hr'
    by_contra hne
    refine h r' hr' r hr ((of_decide_eq_true hp').trans hp.symm) (fun hid => hne ?_)
      ⟨d, (contains_iff r'.2 d).mpr hwindow, hc⟩
    rw [t.unique (k := r.1) (a := r'.2) (b := r.2) (hid ▸ hr') hr]
  have hmem : r.2.toPeriod ∈ l.fiscalPeriods.filter (fun p => decide (p.startDate ≤ d.1) &&
      p.endDate.all fun e => decide (d.1 ≤ e)) := by
    refine List.mem_filter.mpr ⟨?_, (contains_iff r.2 d).mp hc⟩
    rw [hl]
    exact List.mem_map.mpr ⟨r, List.mem_filter.mpr ⟨hr, decide_eq_true hp⟩, rfl⟩
  unfold Ledger.getFiscalPeriodAt
  simp only [hd]
  cases hmax : (l.fiscalPeriods.filter fun p => decide (p.startDate ≤ d.1) &&
      p.endDate.all fun e => decide (d.1 ≤ e)).argmax FiscalPeriod.startDate with
  | none =>
    rw [List.argmax_eq_none] at hmax
    rw [hmax] at hmem
    cases hmem
  | some p => rw [honly p (List.argmax_mem hmax)]

/-! ## Runs -/

namespace PeriodRequest

theorem crosses_iff_sharesDate {req : PeriodRequest} (h : req.Upright t) :
    (∃ s ∈ req.span?, ∃ r ∈ req.others t, s.Crosses r.span) ↔ req.SharesDate t := by
  constructor
  · rintro ⟨s, hs, r, hr, hcross⟩
    exact ⟨s, hs, r, hr, Range.meets_of_crosses (h s hs).1 ((h s hs).2 r hr) hcross⟩
  · rintro ⟨s, hs, r, hr, hmeets⟩
    exact ⟨s, hs, r, hr, Range.crosses_of_meets hmeets⟩

/-- After any run from an empty table no date lies in two periods of a profile, so a period that
contains a date is the one `get_fiscal_period_at` answers with. A request that shares a date is
refused, and, between periods that are not inverted, no other create or update of a stored period. -/
theorem run_disjoint (reqs : List PeriodRequest) :
    let t := run .empty reqs
    (∀ a ∈ t.rows, ∀ b ∈ t.rows, a.2.profileId = b.2.profileId →
      ∀ d, a.2.span.Contains d → b.2.span.Contains d → a = b) ∧
    (∀ profile_id, ∀ l : Ledger, l.fiscalPeriods = periodsOf t profile_id → ∀ ts, ∀ d : DateValue,
      l.timezone.utcInstantToProfileDate ts = d.1 →
      ∀ r ∈ t.rows, r.2.profileId = profile_id → r.2.span.Contains d →
        l.getFiscalPeriodAt ts = some r.2.toPeriod) ∧
    (∀ r ∈ t.rows, r.2.startDate ≤ toDate r.2.endDate ↔ ∃ d, r.2.span.Contains d) ∧
    ∀ req : PeriodRequest,
      (req.SharesDate t → (req.call t).2 = .error .fiscalPeriodOverlap) ∧
      (req.Upright t → ((req.call t).2 = .error .fiscalPeriodOverlap ↔ req.SharesDate t)) ∧
      ∀ e, (req.call t).2 = .error e → (req.call t).1 = t := by
  intro t
  have hdisjoint : NoShared t :=
    noShared_of_run reqs fun a ha => absurd ha List.not_mem_nil
  refine ⟨fun a ha b hb hp d had hbd => ?_,
    fun profile_id l hl ts d hd r hr hp hc => getFiscalPeriodAt_eq hdisjoint hl hd hr hp hc,
    fun r _ => (Range.exists_contains_iff (r := r.2.span)).symm, fun req => ⟨fun hshares => ?_, fun hup => ?_, fun e he => ?_⟩⟩
  · by_cases hid : a.1 = b.1
    · exact Prod.ext hid (t.unique (k := b.1) (hid ▸ ha) hb)
    · exact absurd ⟨d, had, hbd⟩ (hdisjoint a ha b hb hp hid)
  · obtain ⟨s, hs, r, hr, hmeets⟩ := hshares
    exact (refused_iff req).mpr ⟨s, hs, r, hr, Range.crosses_of_meets hmeets⟩
  · exact (refused_iff req).trans (crosses_iff_sharesDate hup)
  · exact call_of_error he

end PeriodRequest

namespace Sample

/-- From 2025-06-10 to 2025-06-01. -/
def backwards : FiscalPeriodCreate where
  ruleKey := "spain"
  startDate := ⟨20249, by decide⟩
  endDate := some ⟨20240, by decide⟩

/-- From 2025-05-01 to 2025-07-01. -/
def summer : FiscalPeriodCreate where
  ruleKey := "japan"
  startDate := ⟨20209, by decide⟩
  endDate := some ⟨20270, by decide⟩

/-- An inverted period is stored, and a period around it is refused although the two share no date. -/
theorem backwards_stored :
    let t := PeriodRequest.run .empty [.create 1 backwards]
    t.rows = [(0, backwards.toRow 1)] ∧ (¬ ∃ d, (backwards.toRow 1).span.Contains d) ∧
      ((PeriodRequest.create 1 summer).call t).2 = .error .fiscalPeriodOverlap ∧
      ¬ (PeriodRequest.create 1 summer).SharesDate t := by
  have hrows : (PeriodRequest.run .empty [.create 1 backwards]).rows = [(0, backwards.toRow 1)] := by
    decide
  have hnone : ¬ ∃ d, (backwards.toRow 1).span.Contains d :=
    fun h => absurd (Range.exists_contains_iff.mp h) (by unfold Range.Ordered; decide)
  refine ⟨hrows, hnone, by decide, ?_⟩
  rintro ⟨s, -, r, hr, d, -, hd⟩
  simp only [PeriodRequest.others, List.mem_map, List.mem_filter] at hr
  obtain ⟨r', ⟨hr', -⟩, rfl⟩ := hr
  rw [hrows, List.mem_singleton] at hr'
  rw [hr'] at hd
  exact hnone ⟨d, hd⟩

end Sample

end FinHub
