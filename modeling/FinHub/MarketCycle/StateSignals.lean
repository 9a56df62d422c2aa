import FinHub.MarketCycle.Replay

/-!
# FinHub.MarketCycle.StateSignals

The one signal that reads the state: `_held` asks it of past months under the state of the present one.

The states it asks for are entered only in a month in which the policy rate rises
(`increasing_of_entry`), so a run of cuts reaches back no further than the last entry
(`realRate_of_decreasing`) and the answers are those of the months' own states (`counted_realRate`).
-/

namespace FinHub

open Streak

/-- The states that `first_cut_detected` asks for. -/
def CycleState.RealRate (state : CycleState) : Prop := state = .hikingCycle ∨ state = .highRealRates

instance (state : CycleState) : Decidable state.RealRate := inferInstanceAs (Decidable (_ ∨ _))

namespace CycleData

variable {d : CycleData} {config : CycleConfig} {state : CycleState} {edge : CycleTransition} {i j : ℕ}

/-- `_held` counts the month at `j` as it goes back from the month at `i` in the state. -/
def Counts (d : CycleData) (config : CycleConfig) (state : CycleState) (edge : CycleTransition) (i j : ℕ) :
    Prop :=
  edge ∈ outgoing config state ∧ j ≤ i ∧ i - j < d.held config state edge i

instance : Decidable (d.Counts config state edge i j) := inferInstanceAs (Decidable (_ ∧ _))

/-! ## Signals -/

theorem firstCutProbe_iff : d.firstCutProbe state i = true ↔
    d.num .policyRateTrend i = some (.direction .decreasing) ∧ state.RealRate := by
  unfold firstCutProbe CycleState.RealRate
  simp

/-- No other signal reads the state. -/
theorem probe_of_ne (state state' : CycleState) {code : SignalCode} (h : code ≠ .firstCutDetected) :
    d.probe config state i code = d.probe config state' i code := by
  cases code <;> first | rfl | exact absurd rfl h

theorem increasing_of_directionProbe {metric : InputName}
    (h : d.directionProbe metric .increasing true i = true) :
    d.num metric i = some (.direction .increasing) := by
  unfold directionProbe at h
  split at h
  · rename_i value hvalue
    have hincreasing : value = .increasing := by simpa using h
    rw [hvalue, hincreasing]
  · cases h

theorem increasing_of_hikesResumed {lookback : ℤ} (h : d.hikesResumedProbe lookback i = true) :
    d.num .policyRateTrend i = some (.direction .increasing) := by
  unfold hikesResumedProbe isIncreasing at h
  dsimp only at h
  rw [Bool.and_eq_true, decide_eq_true_eq] at h
  exact h.1

theorem probe_of_holds (h : d.holds config state edge i = true) {code : SignalCode}
    (hcode : code ∈ edge.signals) : d.probe config state i code = true := by
  unfold holds at h
  rw [Bool.and_eq_true, List.all_eq_true] at h
  exact h.2 code hcode

/-! ## Edges into the two states -/

theorem mem_edgeDefs_of_outgoing (h : edge ∈ outgoing config state) :
    ∃ e ∈ edgeDefs, edge.source = e.source ∧ edge.target = e.target ∧ edge.signals = e.signals ∧
      e.source = state := by
  unfold outgoing cycleEdges at h
  obtain ⟨hmem, hstate⟩ := List.mem_filter.mp h
  simp only [Bool.and_eq_true, decide_eq_true_eq] at hstate
  obtain ⟨⟨e, k⟩, he, rfl⟩ := List.mem_map.mp hmem
  exact ⟨e, List.fst_mem_of_mem_zipIdx he, rfl, rfl, rfl, hstate.1⟩

/-- An edge into one of the two states from elsewhere asks for a rise of the policy rate. -/
theorem increasing_of_entry (hedge : edge ∈ outgoing config state) (hout : ¬ state.RealRate)
    (hin : edge.target.RealRate) (hholds : d.holds config state edge i = true) :
    d.num .policyRateTrend i = some (.direction .increasing) := by
  obtain ⟨e, he, _, htarget, hsignals, hsource⟩ := mem_edgeDefs_of_outgoing hedge
  have hall : ∀ e ∈ edgeDefs, ¬ e.source.RealRate → e.target.RealRate →
      .policyRateTrendIncreasing ∈ e.signals ∨ .hikesResumed ∈ e.signals := by decide
  have hsignal := hall e he (hsource ▸ hout) (htarget ▸ hin)
  rw [← hsignals] at hsignal
  cases hsignal with
  | inl hrise => exact increasing_of_directionProbe (probe_of_holds hholds hrise)
  | inr hresumed => exact increasing_of_hikesResumed (probe_of_holds hholds hresumed)

/-- The edges with the signal leave one of the two states. -/
theorem realRate_of_firstCut (hedge : edge ∈ outgoing config state)
    (hcode : SignalCode.firstCutDetected ∈ edge.signals) : state.RealRate ∧ edge.signals = [.firstCutDetected] := by
  obtain ⟨e, he, _, _, hsignals, hsource⟩ := mem_edgeDefs_of_outgoing hedge
  have hall : ∀ e ∈ edgeDefs, SignalCode.firstCutDetected ∈ e.signals →
      e.source.RealRate ∧ e.signals = [.firstCutDetected] := by decide
  rw [hsignals] at hcode ⊢
  rw [← hsource]
  exact hall e he hcode

/-! ## The run -/

/-- A month that enters the two states is one of a rise. -/
theorem increasing_of_replayStep (hp : 1 ≤ config.persistence.triggered) (st : CycleState × MonthKey)
    (hout : ¬ st.1.RealRate) (hin : (d.replayStep config st i).1.RealRate) :
    d.num .policyRateTrend i = some (.direction .increasing) := by
  rcases replayStep_cases d config st i with ⟨edge, htriggered, hstep⟩ | ⟨_, hstep⟩
  · have hmem : edge ∈ d.triggered config st.1 i := by simp [htriggered]
    obtain ⟨hedge, _, hholds⟩ := mem_triggered_iff.mp hmem
    have hnow := hholds 0 (by unfold window; omega)
    rw [hstep] at hin
    exact increasing_of_entry hedge hout hin hnow
  · rw [hstep] at hin
    exact absurd hin hout

/-- Back from one of the two states, the state stays in them for as long as the policy rate falls. -/
theorem realRate_of_decreasing (hp : 1 ≤ config.persistence.triggered) {n : ℕ}
    (hnow : (d.replay config n).1.RealRate) (hj : j ≤ n)
    (hcuts : ∀ k, j ≤ k → k < n → d.num .policyRateTrend k = some (.direction .decreasing)) :
    (d.replay config j).1.RealRate := by
  induction n with
  | zero =>
    obtain rfl : j = 0 := by omega
    exact hnow
  | succ n ih =>
    by_cases hlast : j = n + 1
    · rw [hlast]
      exact hnow
    · have hcut := hcuts n (by omega) (by omega)
      have hbefore : (d.replay config n).1.RealRate := by
        by_contra hout
        rw [replay_succ] at hnow
        have hrise := increasing_of_replayStep hp _ hout hnow
        rw [hcut] at hrise
        simp at hrise
      exact ih hbefore (by omega) fun k hk hkn => hcuts k hk (by omega)

/-- The states in which the replay asks `_held` at the month: the one that it has there, and after the last
month the one that it ends in. -/
def AsksIn (d : CycleData) (config : CycleConfig) (i : ℕ) (state : CycleState) : Prop :=
  state = (d.replay config i).1 ∨ i = d.months.length - 1 ∧ state = (d.replay config d.months.length).1

theorem asksIn_cases (hi : i < d.months.length) (h : d.AsksIn config i state) :
    state = (d.replay config i).1 ∨ state = (d.replay config (i + 1)).1 := by
  cases h with
  | inl hnow => exact .inl hnow
  | inr hlast =>
    right
    rw [hlast.2, show d.months.length = i + 1 by omega]

/-- As long as the signal has held back from a month, the months' own states were among the two. -/
theorem realRate_of_firstCuts (hp : 1 ≤ config.persistence.triggered) (hi : i < d.months.length)
    (hasks : d.AsksIn config i state) (hstate : state.RealRate) (hj : j ≤ i)
    (hcuts : ∀ k, j ≤ k → k ≤ i → d.num .policyRateTrend k = some (.direction .decreasing)) :
    (d.replay config j).1.RealRate := by
  cases asksIn_cases hi hasks with
  | inl hnow =>
    rw [hnow] at hstate
    exact realRate_of_decreasing hp hstate hj fun k hk hki => hcuts k hk (by omega)
  | inr hafter =>
    rw [hafter] at hstate
    exact realRate_of_decreasing hp hstate (by omega) fun k hk hki => hcuts k hk (by omega)

theorem decreasing_of_counts (hcode : SignalCode.firstCutDetected ∈ edge.signals)
    (hcount : d.Counts config state edge i j) {k : ℕ} (hjk : j ≤ k) (hki : k ≤ i) :
    d.num .policyRateTrend k = some (.direction .decreasing) := by
  obtain ⟨_, hji, hheld⟩ := hcount
  unfold held at hheld
  obtain ⟨_, hall⟩ := le_streak_iff.mp (Nat.succ_le_of_lt hheld)
  have hholds := hall (i - k) (by omega)
  rw [show i - (i - k) = k by omega] at hholds
  exact (firstCutProbe_iff.mp (probe_of_holds hholds hcode)).1

/-- Counting stops where counting under the months' own states stops. -/
theorem held_eq_own (hp : 1 ≤ config.persistence.triggered) (hi : i < d.months.length)
    (hasks : d.AsksIn config i state) (hedge : edge ∈ outgoing config state) :
    d.held config state edge i = streak (fun j => d.holds config (d.replay config j).1 edge j) i := by
  have hsame : ∀ k, (∀ j < k, d.holds config state edge (i - j) = true) ∧ k ≤ i + 1 ↔
      (∀ j < k, d.holds config (d.replay config (i - j)).1 edge (i - j) = true) ∧ k ≤ i + 1 := by
    intro k
    refine and_congr_left fun hk => ?_
    by_cases hcode : SignalCode.firstCutDetected ∈ edge.signals
    · obtain ⟨hstate, hsignals⟩ := realRate_of_firstCut hedge hcode
      have hholds : ∀ state' l, d.holds config state' edge l = d.firstCutProbe state' l := by
        intro state' l
        simp [holds, hsignals, probe]
      simp only [hholds, firstCutProbe_iff]
      constructor
      · intro h j hj
        refine ⟨(h j hj).1, realRate_of_firstCuts hp hi hasks hstate (by omega) ?_⟩
        intro l hjl hli
        have hcut := (h (i - l) (by omega)).1
        rwa [show i - (i - l) = l by omega] at hcut
      · intro h j hj
        exact ⟨(h j hj).1, hstate⟩
    · have hholds : ∀ state' l, d.holds config state' edge l = d.holds config state edge l := by
        intro state' l
        unfold holds
        rw [Bool.eq_iff_iff, Bool.and_eq_true, Bool.and_eq_true, List.all_eq_true, List.all_eq_true]
        refine and_congr_right fun _ => forall₂_congr fun code hmem => ?_
        rw [probe_of_ne state' state fun he => hcode (he ▸ hmem)]
      simp only [hholds]
  unfold held
  refine le_antisymm ?_ ?_
  · have hown := (hsame _).mp (le_streak_iff.mp (le_refl (streak (d.holds config state edge) i))).symm
    exact le_streak_iff.mpr hown.symm
  · have hheld := (hsame _).mpr
      (le_streak_iff.mp (le_refl (streak (fun j => d.holds config (d.replay config j).1 edge j) i))).symm
    exact le_streak_iff.mpr hheld.symm

end CycleData

/-- A month counted towards an edge with `first_cut_detected` was processed in one of the two states, so that
all signals of a counted month, and the number of months counted for any edge, are those of the months' own
states. -/
theorem counted_realRate (config : CycleConfig) (hp : 1 ≤ config.persistence.triggered) (d : CycleData)
    (i : ℕ) (hi : i < d.months.length) (state : CycleState) (hasks : d.AsksIn config i state) :
    (∀ edge j, SignalCode.firstCutDetected ∈ edge.signals → d.Counts config state edge i j →
      ((d.replay config j).1 = .hikingCycle ∨ (d.replay config j).1 = .highRealRates) ∧
        ∀ code, d.probe config state j code = d.probe config (d.replay config j).1 j code) ∧
    ∀ edge ∈ outgoing config state,
      d.held config state edge i = streak (fun j => d.holds config (d.replay config j).1 edge j) i := by
  refine ⟨?_, fun edge hedge => CycleData.held_eq_own hp hi hasks hedge⟩
  intro edge j hcode hcount
  have hstate := (CycleData.realRate_of_firstCut hcount.1 hcode).1
  have hown : (d.replay config j).1.RealRate :=
    CycleData.realRate_of_firstCuts hp hi hasks hstate hcount.2.1 fun k hjk hki =>
      CycleData.decreasing_of_counts hcode hcount hjk hki
  refine ⟨hown, ?_⟩
  intro code
  by_cases hfirst : code = .firstCutDetected
  · rw [hfirst, Bool.eq_iff_iff]
    change d.firstCutProbe state j = true ↔ d.firstCutProbe (d.replay config j).1 j = true
    rw [CycleData.firstCutProbe_iff, CycleData.firstCutProbe_iff]
    exact and_congr_right fun _ => iff_of_true hstate hown
  · exact CycleData.probe_of_ne _ _ hfirst

namespace Sample

/-- Real rates are high while the policy rate falls. -/
def fallingData : CycleData where
  months := [monthKey january, monthKey february]
  indexes name _ :=
    match name with
    | .policyRateTrend => some (.direction .decreasing)
    | .realInterestRate => some (.number 2)
    | _ => none

def hikingConfig : CycleConfig := { cycleConfig with initialState := .hikingCycle, persistence := ⟨1, 1, 1⟩ }

def firstCutEdge : CycleTransition :=
  ⟨.highRealRates, .firstRateCut, .forward, [.firstCutDetected], "4->5", 4⟩

/-- In February, by then with high real rates, January is counted, which was one of the hiking cycle. -/
theorem january_counted : fallingData.Counts hikingConfig .highRealRates firstCutEdge 1 0 ∧
    ((fallingData.replay hikingConfig 0).1 = .hikingCycle ∨
      (fallingData.replay hikingConfig 0).1 = .highRealRates) := by
  have hcount : fallingData.Counts hikingConfig .highRealRates firstCutEdge 1 0 := by decide +kernel
  have hasks : fallingData.AsksIn hikingConfig 1 .highRealRates := .inl (by decide +kernel)
  have hsame := counted_realRate hikingConfig (by decide) fallingData 1 (by decide) _ hasks
  exact ⟨hcount, (hsame.1 firstCutEdge 0 (by decide) hcount).1⟩

end Sample

end FinHub
