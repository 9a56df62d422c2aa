import FinHub.Lib.Texts
import FinHub.Lib.TimedCache
import FinHub.Model.Time
import Mathlib.Algebra.Order.Ring.Rat
import Mathlib.Data.List.Lex
import Mathlib.Data.List.MinMax

/-!
# FinHub.Updates.UpdateSvc

`update_svc.py`: whether a newer release of the backend or the frontend exists.

Versions are compared as lists of numbers. The releases are cached, and a failed fetch answers that nothing is known.

* `componentStatus_reports`: a component is outdated where a tag of its side is newer.
* `updateRuns_laws`: in every sequence of checks an answer is made of the releases that the call fetched, or of those
  of the last fetch that succeeded while they are young.
-/

namespace FinHub

open Trace

/-! ## Versions -/

/-- `bare_version`: after the last slash, without leading letters `v`. -/
def bareVersion (tag : List Char) : List Char :=
  (tag.rtakeWhile (· ≠ '/')).dropWhile fun c => decide (c = 'v' ∨ c = 'V')

/-- `parse_version`: what is no number counts as 0. -/
def parseVersion (version : List Char) : List ℤ :=
  ((bareVersion version).splitOn '.').map fun segment => (Texts.parseInt segment).getD 0

/-- `max_version`: the first of the greatest. -/
def maxVersion (tags : List (List Char)) : Option (List Char) := tags.argmax parseVersion

/-- The `tag_name` of a release, if it has one. -/
abbrev Release := Option (List Char)

/-- The tags of a side, such as `backend/`. -/
def tagsOf (releases : List Release) (side : List Char) : List (List Char) :=
  releases.filterMap fun release => release.filter side.isPrefixOf

def latestByPrefix (releases : List Release) (side : List Char) : Option (List Char) :=
  maxVersion (tagsOf releases side)

/-! ## Status -/

structure ComponentUpdate where
  current : List Char
  latest : Option (List Char)
  outdated : Bool
  url : Option (List Char)
  deriving DecidableEq

structure UpdateConfig where
  enabled : Bool := true
  repo : List Char := "alvmarrod/personal-fin-hub".toList
  cacheSeconds : ℚ := 3600

def releaseUrl (cfg : UpdateConfig) (tag : List Char) : List Char :=
  "https://github.com/".toList ++ cfg.repo ++ "/releases/tag/".toList ++ tag

/-- `_component_status`. -/
def componentStatus (cfg : UpdateConfig) (current : List Char) : Option (List Char) → ComponentUpdate
  | none => { current, latest := none, outdated := false, url := none }
  | some tag =>
    { current
      latest := some (bareVersion tag)
      outdated := decide (parseVersion current < parseVersion tag)
      url := some (releaseUrl cfg tag) }

example : (componentStatus {} "0.9.0".toList (latestByPrefix
    [some "backend/v0.9.0".toList, some "frontend/v9".toList, none, some "backend/v0.10.0".toList]
    "backend/".toList)).latest = some "0.10.0".toList := by decide +kernel

/-! ## Checks -/

/-- A check: what the frontend says of itself, the clocks, and what GitHub would answer, `none` for an exception. -/
structure UpdateCall where
  frontendVersion : Option (List Char)
  now : ℚ
  releases : Option (List Release)
  done : ℚ
  checkedAt : Timestamp

inductive UpdateAnswer where
  | disabled
  | unavailable (checked_at : Timestamp)
  | status (backend : ComponentUpdate) (frontend : Option ComponentUpdate) (checked_at : Timestamp)
  deriving DecidableEq

namespace UpdateCall

abbrev Cache := TimedCache ℚ (List Release)

def lookup (call : UpdateCall) : Lookup ℚ (List Release) := ⟨call.now, call.releases, call.done⟩

variable (cfg : UpdateConfig) (backend_version : List Char)

/-- The status of the two components, of the frontend if it says its version. -/
def statusOf (call : UpdateCall) (releases : List Release) : UpdateAnswer :=
  .status (componentStatus cfg backend_version (latestByPrefix releases "backend/".toList))
    ((call.frontendVersion.filter fun version => !version.isEmpty).map fun version =>
      componentStatus cfg version (latestByPrefix releases "frontend/".toList))
    call.checkedAt

/-- `get_update_status`. -/
def getUpdateStatus (cache : Cache) (call : UpdateCall) : UpdateAnswer :=
  if cfg.enabled then
    match cache.serve cfg.cacheSeconds call.lookup with
    | none => .unavailable call.checkedAt
    | some releases => call.statusOf cfg backend_version releases
  else .disabled

/-- The cache after a check. -/
def step (cache : Cache) (call : UpdateCall) : Cache :=
  if cfg.enabled then cache.next cfg.cacheSeconds call.lookup else cache

/-- The cache after checks since the start of the process. -/
def cacheAfter (calls : List UpdateCall) : Cache := after (step cfg) (TimedCache.ofFetch none) calls

/-- The last fetch of these checks that succeeded. -/
def lastFetch (calls : List UpdateCall) : Option (Lookup ℚ (List Release)) :=
  if cfg.enabled then
    TimedCache.lastFetch cfg.cacheSeconds
      (transitions (TimedCache.next cfg.cacheSeconds) (TimedCache.ofFetch none) (calls.map lookup))
  else none

/-- What the status of a component says of releases. -/
structure Reports (releases : List Release) (side version : List Char) (c : ComponentUpdate) : Prop where
  current : c.current = version
  outdated : c.outdated = true ↔ ∃ tag, some tag ∈ releases ∧ side <+: tag ∧ parseVersion version < parseVersion tag
  latest : ∀ tag, some tag ∈ releases → side <+: tag →
    ∃ newest, some newest ∈ releases ∧ side <+: newest ∧ parseVersion tag ≤ parseVersion newest ∧
      c.latest = some (bareVersion newest) ∧ c.url = some (releaseUrl cfg newest)
  unknown : c.latest = none → ∀ tag, some tag ∈ releases → ¬ side <+: tag

/-- What is answered to a check whose cache holds a fetch. -/
structure AnswerLaws (last : Option (Lookup ℚ (List Release))) (call : UpdateCall) (answer : UpdateAnswer) : Prop where
  disabled : answer = .disabled ↔ cfg.enabled = false
  /-- GitHub was asked, since nothing young is known, and did not answer. -/
  unavailable : ∀ at_, answer = .unavailable at_ →
    call.releases = none ∧ ∀ l, last = some l → cfg.cacheSeconds ≤ call.now - l.done
  /-- A status is made of releases that are young, or that the check has fetched. -/
  status : ∀ backend frontend at_, answer = .status backend frontend at_ → ∃ releases,
    ((∃ l, last = some l ∧ l.answer = some releases ∧ call.now - l.done < cfg.cacheSeconds) ∨
      call.releases = some releases ∧ ∀ l, last = some l → cfg.cacheSeconds ≤ call.now - l.done) ∧
    Reports cfg releases "backend/".toList backend_version backend ∧
    ∀ c, frontend = some c → ∃ version, call.frontendVersion = some version ∧ version ≠ [] ∧
      Reports cfg releases "frontend/".toList version c

variable {cfg backend_version}

theorem mem_tagsOf {releases : List Release} {side tag : List Char} :
    tag ∈ tagsOf releases side ↔ some tag ∈ releases ∧ side <+: tag := by
  unfold tagsOf
  rw [List.mem_filterMap]
  constructor
  · rintro ⟨release, hrelease, htag⟩
    obtain ⟨rfl, hside⟩ := Option.filter_eq_some_iff.mp htag
    exact ⟨hrelease, List.isPrefixOf_iff_prefix.mp hside⟩
  · intro ⟨hrelease, hside⟩
    exact ⟨some tag, hrelease, Option.filter_eq_some_iff.mpr ⟨rfl, List.isPrefixOf_iff_prefix.mpr hside⟩⟩

/-- The newest tag of a side decides. -/
theorem reports_componentStatus (releases : List Release) (side version : List Char) :
    Reports cfg releases side version (componentStatus cfg version (latestByPrefix releases side)) := by
  unfold latestByPrefix maxVersion
  cases hlatest : (tagsOf releases side).argmax parseVersion with
  | none =>
    have hnone : ∀ tag, some tag ∈ releases → ¬ side <+: tag := by
      intro tag htag hside
      have hmem := mem_tagsOf.mpr ⟨htag, hside⟩
      rw [List.argmax_eq_none.mp hlatest] at hmem
      cases hmem
    refine ⟨rfl, ⟨fun h => (nomatch h), ?_⟩, fun tag htag hside => absurd hside (hnone tag htag), fun _ => hnone⟩
    rintro ⟨tag, htag, hside, -⟩
    exact absurd hside (hnone tag htag)
  | some newest =>
    obtain ⟨hnewest, hside⟩ := mem_tagsOf.mp (List.argmax_mem hlatest)
    have hgreatest : ∀ tag ∈ tagsOf releases side, parseVersion tag ≤ parseVersion newest :=
      fun tag htag => not_lt.mp (List.not_lt_of_mem_argmax htag hlatest)
    constructor
    · rfl
    · refine decide_eq_true_iff.trans ⟨fun h => ⟨newest, hnewest, hside, h⟩, ?_⟩
      rintro ⟨tag, htag, htside, hnewer⟩
      exact hnewer.trans_le (hgreatest tag (mem_tagsOf.mpr ⟨htag, htside⟩))
    · intro tag htag htside
      exact ⟨newest, hnewest, hside, hgreatest tag (mem_tagsOf.mpr ⟨htag, htside⟩), rfl, rfl⟩
    · intro h
      cases h

theorem reports_statusOf {call : UpdateCall} {releases : List Release} {backend : ComponentUpdate}
    {frontend : Option ComponentUpdate} {at_ : Timestamp}
    (h : call.statusOf cfg backend_version releases = .status backend frontend at_) :
    Reports cfg releases "backend/".toList backend_version backend ∧
    ∀ c, frontend = some c → ∃ version, call.frontendVersion = some version ∧ version ≠ [] ∧
      Reports cfg releases "frontend/".toList version c := by
  cases h
  refine ⟨reports_componentStatus releases _ _, fun c hc => ?_⟩
  obtain ⟨version, hversion, rfl⟩ := Option.map_eq_some_iff.mp hc
  obtain ⟨hsaid, hnonempty⟩ := Option.filter_eq_some_iff.mp hversion
  exact ⟨version, hsaid, by simpa using hnonempty, reports_componentStatus releases _ _⟩

/-- The checks of a run leave the last fetch in the cache. -/
theorem cacheAfter_eq (calls : List UpdateCall) : cacheAfter cfg calls = TimedCache.ofFetch (lastFetch cfg calls) := by
  unfold lastFetch
  split_ifs with henabled
  · rw [← TimedCache.after_eq]
    unfold cacheAfter after
    rw [List.foldl_map]
    congr 1
    funext cache call
    exact if_pos henabled
  · unfold cacheAfter after
    induction calls using List.reverseRecOn with
    | nil => rfl
    | append_singleton calls call ih =>
      rw [List.foldl_concat, ih]
      exact if_neg henabled

/-- Every check of every run. -/
theorem updateRuns_laws (cfg : UpdateConfig) (backend_version : List Char) (calls : List UpdateCall)
    (call : UpdateCall) :
    AnswerLaws cfg backend_version (lastFetch cfg calls) call
      (getUpdateStatus cfg backend_version (cacheAfter cfg calls) call) := by
  rw [cacheAfter_eq]
  have hanswer : ∀ l, lastFetch cfg calls = some l → l.answer.isSome := by
    intro l hl
    unfold lastFetch at hl
    split_ifs at hl
    exact TimedCache.answer_of_lastFetch hl
  generalize lastFetch cfg calls = last at hanswer ⊢
  unfold getUpdateStatus
  cases henabled : cfg.enabled with
  | false => exact ⟨⟨fun _ => henabled, fun _ => rfl⟩, fun _ h => (nomatch h), fun _ _ _ h => (nomatch h)⟩
  | true =>
    rw [if_pos rfl]
    unfold TimedCache.serve
    cases hhit : (TimedCache.ofFetch last).hit cfg.cacheSeconds call.lookup.now with
    | some releases =>
      obtain hyoung := TimedCache.hit_ofFetch.mp hhit
      refine ⟨⟨fun h => (nomatch h), fun h => (nomatch henabled.symm.trans h)⟩, fun _ h => (nomatch h), fun _ _ _ h => ?_⟩
      exact ⟨releases, .inl hyoung, reports_statusOf h⟩
    | none =>
      have hold : ∀ l, last = some l → cfg.cacheSeconds ≤ call.now - l.done :=
        fun l hl => TimedCache.le_of_hit_eq_none hl (hanswer l hl) hhit
      rw [Option.none_or]
      cases hreleases : call.lookup.answer with
      | none =>
        refine ⟨⟨fun h => (nomatch h), fun h => (nomatch henabled.symm.trans h)⟩, fun _ _ => ⟨hreleases, hold⟩,
          fun _ _ _ h => (nomatch h)⟩
      | some releases =>
        refine ⟨⟨fun h => (nomatch h), fun h => (nomatch henabled.symm.trans h)⟩, fun _ h => (nomatch h), fun _ _ _ h => ?_⟩
        exact ⟨releases, .inr ⟨hreleases, hold⟩, reports_statusOf h⟩

end UpdateCall

end FinHub
