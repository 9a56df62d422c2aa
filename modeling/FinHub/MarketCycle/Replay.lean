import FinHub.Lib.Runs
import FinHub.MarketCycle.Engine
import Mathlib.Data.List.GetD

/-!
# FinHub.MarketCycle.Replay

The replay beside the rule of confirmation, which speaks of calendar months.

`CalendarRule` is the rule for one month, `SinceRule` the one for the month the state is since. The replay
counts the months it has, so the two part where the last `triggered` of them are not consecutive
(`calendarRule_iff`); `replay_follows_iff` says when it follows the rule at every month.
-/

namespace FinHub

open Streak

namespace CycleData

variable (d : CycleData) (config : CycleConfig)

/-! ## The rule -/

/-- The months of confirmation. -/
def window : ℕ := config.persistence.triggered.toNat

/-- All signals of the edge are true in a calendar month. -/
def HoldsIn (state : CycleState) (edge : CycleTransition) (month : ℤ) : Prop :=
  ∃ j < d.months.length, (d.monthAt j).index = month ∧ d.holds config state edge j = true

/-- They are true in the month and in those before it. -/
def Confirmed (state : CycleState) (edge : CycleTransition) (i : ℕ) : Prop :=
  ∀ k < window config, d.HoldsIn config state edge ((d.monthAt i).index - k)

/-- The state changes exactly if one edge is confirmed, and then to its target. -/
structure CalendarRule (state : CycleState) (i : ℕ) (state' : CycleState) : Prop where
  changes : state' ≠ state ↔ ∃! edge, edge ∈ outgoing config state ∧ d.Confirmed config state edge i
  target : ∀ edge ∈ outgoing config state, d.Confirmed config state edge i → state' ≠ state →
    state' = edge.target

/-- The state changes at the month. -/
def ChangesAt (i : ℕ) : Prop := (d.replay config (i + 1)).1 ≠ (d.replay config i).1

/-- The month of the last change, or the first one. -/
def SinceRule (n : ℕ) (since : MonthKey) : Prop :=
  (∃ i < n, d.ChangesAt config i ∧ (∀ j, i < j → j < n → ¬ d.ChangesAt config j) ∧ since = d.monthAt i) ∨
    (∀ j < n, ¬ d.ChangesAt config j) ∧ since = d.monthAt 0

/-- The months of confirmation up to the position are not consecutive. -/
def GapAt (i : ℕ) : Prop :=
  window config ≤ i + 1 ∧
    (d.monthAt (i - (window config - 1))).index ≠ (d.monthAt i).index - (window config - 1 : ℕ)

instance (i : ℕ) : Decidable (d.GapAt config i) := inferInstanceAs (Decidable (_ ∧ _))

/-! ## Months -/

/-- The months stand in their order. -/
def Increasing : Prop := ∀ a b, a < b → b < d.months.length → (d.monthAt a).index < (d.monthAt b).index

end CycleData

theorem nodup_commonMonths (series : InputName → List DatedPoint) : (commonMonths series).Nodup := by
  unfold commonMonths
  have hfold : ∀ names : List InputName, ∀ months : List MonthKey, months.Nodup →
      (names.foldl (fun months name => months.filter fun m => decide (m ∈ monthKeys (series name)))
        months).Nodup := by
    intro names
    induction names with
    | nil => intro months h; exact h
    | cons name names ih => intro months h; exact ih _ (h.filter _)
  exact hfold _ _ (List.nodup_dedup _)

theorem sorted_sortMonths {months : List MonthKey} (h : months.Nodup) :
    (sortMonths months).Pairwise fun m m' => m.index < m'.index := by
  unfold sortMonths
  have hsorted := List.pairwise_insertionSort (fun m m' : MonthKey => m.index ≤ m'.index) months
  have hnodup := (List.perm_insertionSort (fun m m' : MonthKey => m.index ≤ m'.index) months).nodup_iff.mpr h
  refine (hsorted.and hnodup).imp ?_
  rintro m m' ⟨hle, hne⟩
  exact lt_of_le_of_ne hle fun he => hne (MonthKey.index_injective he)

theorem increasing_of_loadCycle {resolve : InputName → Option (List DatedPoint)} {d : CycleData}
    (h : loadCycle resolve = .ok d) : d.Increasing := by
  unfold loadCycle at h
  obtain ⟨_, _, h⟩ := Runs.bind_eq_ok.mp h
  dsimp only at h
  split_ifs at h with hnone
  obtain rfl := Except.ok.inj h
  intro a b hab hb
  have hsorted := sorted_sortMonths (nodup_commonMonths fun name => (resolve name).getD [])
  dsimp only at hb
  unfold CycleData.monthAt
  rw [List.getD_eq_getElem _ _ (hab.trans hb), List.getD_eq_getElem _ _ hb]
  exact List.pairwise_iff_getElem.mp hsorted a b (hab.trans hb) hb hab

/-! ## Edges -/

theorem keys_cycleEdges (config : CycleConfig) :
    (cycleEdges config).map CycleTransition.key = edgeDefs.map CycleTransition.key := by
  simp [cycleEdges, edgeDefs]

theorem nodup_outgoing (config : CycleConfig) (state : CycleState) : (outgoing config state).Nodup := by
  refine List.Nodup.filter _ (List.Nodup.of_map CycleTransition.key ?_)
  rw [keys_cycleEdges]
  decide

/-- No edge leads back to its own state. -/
theorem target_ne_source {config : CycleConfig} {state : CycleState} {edge : CycleTransition}
    (h : edge ∈ outgoing config state) : edge.target ≠ state := by
  unfold outgoing cycleEdges at h
  obtain ⟨hmem, hstate⟩ := List.mem_filter.mp h
  have hsource : edge.source = state := by
    simp only [Bool.and_eq_true, decide_eq_true_eq] at hstate
    exact hstate.1
  obtain ⟨⟨e, k⟩, he, rfl⟩ := List.mem_map.mp hmem
  have hall : ∀ e ∈ edgeDefs, e.target ≠ e.source := by decide
  rw [← hsource]
  exact hall e (List.fst_mem_of_mem_zipIdx he)

/-- One element of a list without repetitions is all that a filter keeps. -/
theorem filter_eq_singleton_iff {α : Type} {l : List α} (hl : l.Nodup) {p : α → Bool} :
    (∃ a, l.filter p = [a]) ↔ ∃! a, a ∈ l ∧ p a = true := by
  constructor
  · rintro ⟨a, ha⟩
    have hmem : ∀ b, b ∈ l ∧ p b = true ↔ b = a := by
      intro b
      rw [← List.mem_filter, ha, List.mem_singleton]
    exact ⟨a, (hmem a).mpr rfl, fun b hb => (hmem b).mp hb⟩
  · rintro ⟨a, ha, hunique⟩
    refine ⟨a, List.perm_singleton.mp ?_⟩
    refine (List.perm_ext_iff_of_nodup (hl.filter _) (List.nodup_singleton a)).mpr ?_
    intro b
    rw [List.mem_filter, List.mem_singleton]
    exact ⟨hunique b, fun hb => hb ▸ ha⟩

namespace CycleData

variable {d : CycleData} {config : CycleConfig} {state : CycleState} {edge : CycleTransition} {i : ℕ}

/-! ## Confirmation -/

theorem mem_triggered_iff : edge ∈ d.triggered config state i ↔
    edge ∈ outgoing config state ∧ window config ≤ i + 1 ∧
      ∀ k < window config, d.holds config state edge (i - k) = true := by
  unfold triggered
  have hstatus : statusFor config (d.held config state edge i) = .triggered ↔
      window config ≤ d.held config state edge i := by
    unfold statusFor window
    split_ifs <;> simp <;> omega
  rw [List.mem_filter, decide_eq_true_eq, hstatus]
  unfold held
  rw [le_streak_iff]

/-- An edge is confirmed if it is triggered over months without a gap. -/
theorem confirmed_iff (hd : d.Increasing) (hi : i < d.months.length) (hp : 1 ≤ config.persistence.triggered)
    (hedge : edge ∈ outgoing config state) :
    d.Confirmed config state edge i ↔ edge ∈ d.triggered config state i ∧ ¬ d.GapAt config i := by
  have hwindow : 1 ≤ window config := by unfold window; omega
  rw [mem_triggered_iff]
  constructor
  · intro h
    obtain ⟨hle, hback⟩ := position_of_back hd hi fun k hk => by
      obtain ⟨j, hj, hindex, _⟩ := h k hk
      exact ⟨j, hj, hindex⟩
    refine ⟨⟨hedge, hle, ?_⟩, ?_⟩
    · intro k hk
      obtain ⟨j, hj, hindex, hholds⟩ := h k hk
      have hsame : j = i - k := by
        rw [← hback k hk] at hindex
        by_contra hne
        rcases Nat.lt_or_gt_of_ne hne with hlt | hgt
        · have := hd _ _ hlt (by omega)
          omega
        · have := hd _ _ hgt hj
          omega
      rw [← hsame]
      exact hholds
    · rintro ⟨_, hgap⟩
      exact hgap (hback (window config - 1) (by omega))
  · rintro ⟨⟨_, hle, hholds⟩, hgap⟩ k hk
    have hspan : (d.monthAt (i - (window config - 1))).index =
        (d.monthAt i).index - (window config - 1 : ℕ) := by
      by_contra hne
      exact hgap ⟨hle, hne⟩
    have hback := back_of_span hd hi (by omega) hspan k (by omega)
    exact ⟨i - k, by omega, hback, hholds k hk⟩

/-- What one month of the loop does. -/
theorem replayStep_cases (d : CycleData) (config : CycleConfig) (st : CycleState × MonthKey) (i : ℕ) :
    (∃ edge, d.triggered config st.1 i = [edge] ∧ d.replayStep config st i = (edge.target, d.monthAt i)) ∨
      (¬ ∃ edge, d.triggered config st.1 i = [edge]) ∧ d.replayStep config st i = st := by
  unfold replayStep
  cases htriggered : d.triggered config st.1 i with
  | nil => exact .inr ⟨by simp, rfl⟩
  | cons edge rest =>
    cases rest with
    | nil => exact .inl ⟨edge, rfl, rfl⟩
    | cons edge' rest => exact .inr ⟨by simp, rfl⟩

theorem triggered_source (h : d.triggered config state i = [edge]) : edge ∈ outgoing config state := by
  have hmem : edge ∈ d.triggered config state i := by simp [h]
  exact (List.mem_filter.mp hmem).1

/-- A month follows the rule unless one edge is triggered over a gap. -/
theorem calendarRule_iff (hd : d.Increasing) (hi : i < d.months.length)
    (hp : 1 ≤ config.persistence.triggered) (st : CycleState × MonthKey) :
    d.CalendarRule config st.1 i (d.replayStep config st i).1 ↔
      (d.GapAt config i → (d.triggered config st.1 i).length ≠ 1) := by
  have hone : (∃ edge, d.triggered config st.1 i = [edge]) ↔
      ∃! edge, edge ∈ outgoing config st.1 ∧ edge ∈ d.triggered config st.1 i := by
    have hfilter := filter_eq_singleton_iff (nodup_outgoing config st.1) (p := fun edge =>
      decide (statusFor config (d.held config st.1 edge i) = .triggered))
    unfold triggered
    rw [hfilter]
    refine existsUnique_congr fun edge => ?_
    rw [List.mem_filter]
    tauto
  by_cases hgap : d.GapAt config i
  · -- no edge is confirmed here
    have hnone : ∀ edge ∈ outgoing config st.1, ¬ d.Confirmed config st.1 edge i := by
      intro edge hedge hconfirmed
      exact ((confirmed_iff hd hi hp hedge).mp hconfirmed).2 hgap
    have hlength : (d.triggered config st.1 i).length ≠ 1 ↔ ¬ ∃ edge, d.triggered config st.1 i = [edge] := by
      rw [← List.length_eq_one_iff]
    rw [hlength]
    constructor
    · intro hrule _ hsingle
      rcases replayStep_cases d config st i with ⟨edge, htriggered, hstep⟩ | ⟨hnot, _⟩
      · have hchange : (d.replayStep config st i).1 ≠ st.1 := by
          rw [hstep]
          exact target_ne_source (triggered_source htriggered)
        obtain ⟨edge', ⟨hedge', hconfirmed⟩, _⟩ := hrule.changes.mp hchange
        exact hnone edge' hedge' hconfirmed
      · exact hnot hsingle
    · intro h
      rcases replayStep_cases d config st i with ⟨edge, htriggered, _⟩ | ⟨_, hstep⟩
      · exact absurd ⟨edge, htriggered⟩ (h hgap)
      · rw [hstep]
        constructor
        · constructor
          · intro hchange
            exact absurd rfl hchange
          · rintro ⟨edge, ⟨hedge, hconfirmed⟩, _⟩
            exact absurd hconfirmed (hnone edge hedge)
        · intro edge hedge hconfirmed
          exact absurd hconfirmed (hnone edge hedge)
  · have hconfirmed : ∀ edge ∈ outgoing config st.1,
        (d.Confirmed config st.1 edge i ↔ edge ∈ d.triggered config st.1 i) := by
      intro edge hedge
      rw [confirmed_iff hd hi hp hedge]
      exact and_iff_left hgap
    have hunique : (∃! edge, edge ∈ outgoing config st.1 ∧ d.Confirmed config st.1 edge i) ↔
        ∃ edge, d.triggered config st.1 i = [edge] := by
      rw [hone]
      exact existsUnique_congr fun edge => and_congr_right (hconfirmed edge)
    refine iff_of_true ?_ fun h => absurd h hgap
    rcases replayStep_cases d config st i with ⟨edge, htriggered, hstep⟩ | ⟨hnot, hstep⟩
    · rw [hstep]
      constructor
      · rw [hunique]
        exact iff_of_true (target_ne_source (triggered_source htriggered)) ⟨edge, htriggered⟩
      · intro edge' hedge' hconfirmed' _
        have hmem := (hconfirmed edge' hedge').mp hconfirmed'
        rw [htriggered, List.mem_singleton] at hmem
        rw [hmem]
    · rw [hstep]
      constructor
      · rw [hunique]
        exact iff_of_false (fun h => h rfl) hnot
      · intro edge' _ _ hchange
        exact absurd rfl hchange

/-! ## The whole replay -/

theorem replay_succ (d : CycleData) (config : CycleConfig) (n : ℕ) :
    d.replay config (n + 1) = d.replayStep config (d.replay config n) n := by
  unfold replay
  rw [List.range_succ, List.foldl_append]
  rfl

/-- The month that is kept beside the state is the one of the last change. -/
theorem sinceRule_replay (d : CycleData) (config : CycleConfig) (n : ℕ) :
    d.SinceRule config n (d.replay config n).2 := by
  induction n with
  | zero =>
    refine .inr ⟨?_, rfl⟩
    intro j hj
    omega
  | succ n ih =>
    rcases replayStep_cases d config (d.replay config n) n with ⟨edge, htriggered, hstep⟩ | ⟨_, hstep⟩
    · refine .inl ⟨n, by omega, ?_, ?_, ?_⟩
      · unfold ChangesAt
        rw [replay_succ, hstep]
        exact target_ne_source (triggered_source htriggered)
      · intro j hlt hle
        omega
      · rw [replay_succ, hstep]
    · have hstays : ¬ d.ChangesAt config n := by
        unfold ChangesAt
        rw [replay_succ, hstep]
        exact fun h => h rfl
      rw [replay_succ, hstep]
      rcases ih with ⟨i, hi, hchange, hlater, hsince⟩ | ⟨hnone, hsince⟩
      · refine .inl ⟨i, by omega, hchange, ?_, hsince⟩
        intro j hlt hle
        by_cases hj : j = n
        · rw [hj]
          exact hstays
        · exact hlater j hlt (by omega)
      · refine .inr ⟨?_, hsince⟩
        intro j hj
        by_cases he : j = n
        · rw [he]
          exact hstays
        · exact hnone j (by omega)

end CycleData

/-- The replay follows the rule of the calendar at every month exactly if, at every month whose last
`triggered` months are not consecutive, other than one edge of the state is triggered. -/
theorem replay_follows_iff (config : CycleConfig) (hp : 1 ≤ config.persistence.triggered)
    (resolve : InputName → Option (List DatedPoint)) (d : CycleData) (hload : loadCycle resolve = .ok d)
    (scope : String) : evaluateCycle config resolve scope = .ok (d.status config scope) ∧
    (((∀ i < d.months.length,
        d.CalendarRule config (d.replay config i).1 i (d.replay config (i + 1)).1) ∧
      (d.status config scope).currentState = (d.replay config d.months.length).1 ∧
      d.SinceRule config d.months.length (d.status config scope).currentStateSince) ↔
    ∀ i < d.months.length, d.GapAt config i →
      (d.triggered config (d.replay config i).1 i).length ≠ 1) := by
  have hd := increasing_of_loadCycle hload
  refine ⟨by simp [evaluateCycle, hload, bind, Except.bind], ?_⟩
  constructor
  · rintro ⟨hrule, _⟩ i hi
    have hmonth := hrule i hi
    rw [CycleData.replay_succ] at hmonth
    exact (CycleData.calendarRule_iff hd hi hp _).mp hmonth
  · intro h
    refine ⟨?_, rfl, CycleData.sinceRule_replay d config _⟩
    intro i hi
    rw [CycleData.replay_succ]
    exact (CycleData.calendarRule_iff hd hi hp _).mpr (h i hi)

namespace Sample

/-- The defaults of the configuration. -/
def cycleConfig : CycleConfig where
  initialState := .lowRealRates
  realRateHigh := 1
  realRateLow := 1 / 4
  persistence := ⟨1, 2, 3⟩
  hikesResumedLookbackMonths := 6
  reverseEdgesEnabled := []
  priority := []

def firstOfMonth (month : Fin 12) : Calendar.Date where
  year := 2024
  month := month + 1
  day := 1
  month_mem := by omega
  day_mem := ⟨le_refl 1, le_trans (by decide) (Calendar.monthLength_pos _ _)⟩

def january : Calendar.Date := firstOfMonth 0
def february : Calendar.Date := firstOfMonth 1
def march : Calendar.Date := firstOfMonth 2
def april : Calendar.Date := firstOfMonth 3

/-- Inflation has risen in every month it is published for; all else is steady. -/
def risingSeries (published : List Calendar.Date) (name : InputName) : Option (List DatedPoint) :=
  match name with
  | .inflationRateTrend => some (published.map fun d => ⟨d, .direction .increasing⟩)
  | .policyRateTrend | .realInterestRateTrend =>
    some ([january, february, march, april].map fun d => ⟨d, .direction .stable⟩)
  | .policyRate | .inflationRate | .realInterestRate =>
    some ([january, february, march, april].map fun d => ⟨d, .number (1 / 2)⟩)

def risingData (published : List Calendar.Date) : CycleData :=
  ⟨sortMonths (commonMonths fun name => (risingSeries published name).getD []),
    fun name => indexPoints ((risingSeries published name).getD [])⟩

theorem risingData_loaded {published : List Calendar.Date}
    (h : commonMonths (fun name => (risingSeries published name).getD []) ≠ []) :
    loadCycle (risingSeries published) = .ok (risingData published) := by
  unfold loadCycle
  simp only [h, if_false]
  rfl

/-- Three months with a gap, as March is not published, confirm the edge to Rising Inflation. -/
theorem gap_confirms : ¬ ∀ (config : CycleConfig) (resolve : InputName → Option (List DatedPoint))
    (d : CycleData), 1 ≤ config.persistence.triggered → loadCycle resolve = .ok d → ∀ i < d.months.length,
      d.CalendarRule config (d.replay config i).1 i (d.replay config (i + 1)).1 := by
  intro hall
  have hloaded : loadCycle (risingSeries [january, february, april]) = .ok _ :=
    risingData_loaded (by decide +kernel)
  have hlength : 2 < (risingData [january, february, april]).months.length := by decide +kernel
  have hrule := hall cycleConfig _ _ (by decide) hloaded 2 hlength
  rw [CycleData.replay_succ _ _ 2,
    CycleData.calendarRule_iff (increasing_of_loadCycle hloaded) hlength (by decide)] at hrule
  exact hrule (by decide +kernel) (by decide +kernel)

def completeData : CycleData := risingData [january, february, march, april]

/-- With all months there the replay follows the rule, and the state is new since March. -/
theorem complete_follows : (∀ i < completeData.months.length, completeData.CalendarRule cycleConfig
      (completeData.replay cycleConfig i).1 i (completeData.replay cycleConfig (i + 1)).1) ∧
    (completeData.status cycleConfig "spain").currentState = (completeData.replay cycleConfig 4).1 ∧
    completeData.SinceRule cycleConfig 4 (completeData.status cycleConfig "spain").currentStateSince := by
  have hloaded : loadCycle (risingSeries [january, february, march, april]) = .ok completeData :=
    risingData_loaded (by decide +kernel)
  have hfollows := (replay_follows_iff cycleConfig (by decide) _ _ hloaded "spain").2
  exact hfollows.mpr (by decide +kernel)

end Sample

end FinHub
