import FinHub.Lib.Spans
import FinHub.Profiles.ChartPoints

/-!
# FinHub.Profiles.SplitPeriods

The factor that the value chart applies to a market code at a date.

A purchase at a multiple of the market price holds its units at that multiple until as many are sold. The loop over
the trades keeps periods of such holdings; the chart takes the first one around a date.

* `SplitUnits`: the units that are held at a multiple.
* `ChartReads.realises_foldl`: the loop keeps the timeline of their factor.
* `Store.splitValue_of_trades`: the factor of a date is that of the trades up to it.
-/

namespace FinHub

open Past Spans StepSeries Tabular

/-- The units bought at a multiple that no sale has taken, and the multiple of the last such purchase. -/
structure SplitUnits where
  remaining : ℚ := 0
  ratio : ℚ := 1

def SplitUnits.factor (u : SplitUnits) : Option ℚ := if 0 < u.remaining then some u.ratio else none

/-- A stored period. -/
def splitPeriod (x : Span ℤ ℚ) : Option ℤ × ℤ × ℚ := (some x.start, x.stop, x.label)

namespace ChartReads

variable (r : ChartReads) (market_code : String)

def tradeDay (t : ChartTrade) : ℤ := Time.dayOf t.timestamp

/-- A purchase at a multiple adds to the units; a sale takes them first. -/
def unitsStep (u : SplitUnits) (t : ChartTrade) : SplitUnits :=
  if t.isBuy then
    let ratio := (r.ratioOn market_code (tradeDay t)).getD 0
    if 0 < ratio then ⟨u.remaining + t.quantity, ratio⟩ else u
  else { u with remaining := max 0 (u.remaining - t.quantity) }

/-- The units at the end of a day. -/
def splitUnits (d : ℤ) : SplitUnits := (upTo tradeDay d (r.allTxs market_code)).foldl (r.unitsStep market_code) {}

/-- The state of the loop keeps the units and the timeline of their factor. -/
structure Realises (st : SplitState) (acc : SplitUnits × Timeline ℤ ℚ) : Prop where
  nonneg : 0 ≤ st.splitQtyRemaining
  units : acc.1.remaining = st.splitQtyRemaining
  ratio : 0 < st.splitQtyRemaining → acc.1.ratio = st.currentRatio
  periods : st.periods = acc.2.closed.map splitPeriod
  running : 0 < st.splitQtyRemaining → ∃ start, st.currentStart = some start ∧ acc.2.running = some (start, st.currentRatio)
  idle : st.splitQtyRemaining = 0 → acc.2.running = none

variable {r market_code} {st : SplitState} {acc : SplitUnits × Timeline ℤ ℚ} {t : ChartTrade}

namespace Realises

/-- The running label is the factor. -/
theorem running_label (h : Realises st acc) : acc.2.running.map Prod.snd = acc.1.factor := by
  unfold SplitUnits.factor
  rw [h.units]
  rcases h.nonneg.eq_or_lt with hzero | hpos
  · rw [h.idle hzero.symm, if_neg hzero.not_lt]
    rfl
  · obtain ⟨start, -, hrunning⟩ := h.running hpos
    rw [hrunning, if_pos hpos, h.ratio hpos]
    rfl

/-- Where the factor stays, so does the timeline. -/
theorem switch_eq (h : Realises st acc) {u : SplitUnits} {d : ℤ} (hu : u.factor = acc.1.factor) :
    acc.2.switch d u.factor = acc.2 := if_pos (h.running_label.trans hu.symm)

/-- A purchase at a multiple. -/
theorem buy (h : Realises st acc) (hbuy : t.isBuy = true) (hquantity : 0 ≤ t.quantity)
    (hratio : 0 < (r.ratioOn market_code (tradeDay t)).getD 0) :
    Realises (r.splitStep market_code st t) (recordStep tradeDay (r.unitsStep market_code) SplitUnits.factor acc t) := by
  have hunits : r.unitsStep market_code acc.1 t =
      ⟨st.splitQtyRemaining + t.quantity, (r.ratioOn market_code (tradeDay t)).getD 0⟩ := by
    unfold unitsStep
    rw [if_pos hbuy, ← h.units]
    exact if_pos hratio
  have hday : Time.dayOf t.timestamp = tradeDay t := rfl
  unfold recordStep splitStep
  rw [hunits, if_pos hbuy]
  simp only [hday]
  rw [if_pos hratio]
  generalize (r.ratioOn market_code (tradeDay t)).getD 0 = ratio at hratio ⊢
  rcases h.nonneg.eq_or_lt with hzero | hpos
  · -- the units start to be held
    rw [if_pos hzero.symm.le, switch_of_idle (h.idle hzero.symm)]
    constructor
    · exact add_nonneg h.nonneg hquantity
    · rfl
    · intro _
      rfl
    · exact h.periods
    · intro hheld
      exact ⟨tradeDay t, rfl, by simp [SplitUnits.factor, show 0 < st.splitQtyRemaining + t.quantity from hheld]⟩
    · intro hnone
      simp [SplitUnits.factor, show st.splitQtyRemaining + t.quantity = 0 from hnone]
  · have hheld : 0 < st.splitQtyRemaining + t.quantity := add_pos_of_pos_of_nonneg hpos hquantity
    have hfactor : (⟨st.splitQtyRemaining + t.quantity, ratio⟩ : SplitUnits).factor = some ratio := if_pos hheld
    obtain ⟨start, hstart, hrunning⟩ := h.running hpos
    rw [if_neg hpos.not_ge, hfactor]
    by_cases hsame : st.currentRatio = ratio
    · have hkept : acc.2.switch (tradeDay t) (some ratio) = acc.2 := by
        rw [← hsame]
        exact if_pos (congrArg (Option.map Prod.snd) hrunning)
      rw [if_neg (not_not.mpr hsame), hkept]
      exact ⟨hheld.le, rfl, fun _ => hsame.symm, h.periods, fun _ => ⟨start, hstart, hrunning⟩,
        fun hnone => absurd hnone hheld.ne'⟩
    · -- another multiple ends the period
      have hne : some st.currentRatio ≠ some ratio := fun heq => hsame (Option.some_inj.mp heq)
      rw [if_pos hsame, switch_of_ne hrunning hne]
      refine ⟨hheld.le, rfl, fun _ => rfl, ?_, fun _ => ⟨tradeDay t, rfl, rfl⟩, fun hnone => absurd hnone hheld.ne'⟩
      rw [List.map_append, ← h.periods, hstart]
      rfl

/-- A sale. -/
theorem sell (h : Realises st acc) (hsell : t.isBuy = false) (hquantity : 0 ≤ t.quantity) :
    Realises (r.splitStep market_code st t) (recordStep tradeDay (r.unitsStep market_code) SplitUnits.factor acc t) := by
  have hunits : r.unitsStep market_code acc.1 t =
      { acc.1 with remaining := max 0 (st.splitQtyRemaining - t.quantity) } := by
    unfold unitsStep
    rw [if_neg (by simp [hsell]), h.units]
  have hside : ¬ t.isBuy = true := by simp [hsell]
  unfold recordStep splitStep
  rw [hunits, if_neg hside]
  rcases h.nonneg.eq_or_lt with hzero | hpos
  · have hsame : ({ acc.1 with remaining := max 0 (st.splitQtyRemaining - t.quantity) } : SplitUnits) = acc.1 := by
      rw [max_eq_left (by linarith), hzero, ← h.units]
    rw [if_neg hzero.not_lt, hsame, h.switch_eq rfl]
    exact h
  · rw [if_pos hpos]
    obtain ⟨start, hstart, hrunning⟩ := h.running hpos
    rcases le_or_gt st.splitQtyRemaining t.quantity with hall | hsome
    · -- the last unit is sold
      have hfactor : ({ acc.1 with remaining := (0 : ℚ) } : SplitUnits).factor = none := if_neg (lt_irrefl _)
      have hne : some st.currentRatio ≠ none := Option.some_ne_none _
      rw [min_eq_left hall, sub_self, if_pos le_rfl, max_eq_left (by linarith), hfactor, switch_of_ne hrunning hne]
      refine ⟨le_rfl, rfl, fun hheld => absurd hheld (lt_irrefl _), ?_, fun hheld => absurd hheld (lt_irrefl _),
        fun _ => rfl⟩
      rw [List.map_append, ← h.periods, hstart]
      rfl
    · have hheld : 0 < st.splitQtyRemaining - t.quantity := sub_pos.mpr hsome
      have hkept : ({ acc.1 with remaining := st.splitQtyRemaining - t.quantity } : SplitUnits).factor =
          acc.1.factor := by
        unfold SplitUnits.factor
        rw [if_pos hheld, h.units, if_pos hpos]
      rw [min_eq_right hsome.le, if_neg hheld.not_ge, max_eq_right hheld.le, h.switch_eq hkept]
      exact ⟨hheld.le, rfl, fun _ => h.ratio hpos, h.periods, fun _ => ⟨start, hstart, hrunning⟩,
        fun hnone => absurd hnone hheld.ne'⟩

theorem step (h : Realises st acc) (hquantity : 0 ≤ t.quantity) :
    Realises (r.splitStep market_code st t) (recordStep tradeDay (r.unitsStep market_code) SplitUnits.factor acc t) := by
  cases hside : t.isBuy with
  | false => exact h.sell hside hquantity
  | true =>
    by_cases hratio : 0 < (r.ratioOn market_code (tradeDay t)).getD 0
    · exact h.buy hside hquantity hratio
    · -- a purchase at the market price changes nothing
      have hstep : r.splitStep market_code st t = st := by
        unfold splitStep
        rw [if_pos hside]
        exact if_neg hratio
      have hunits : r.unitsStep market_code acc.1 t = acc.1 := by
        unfold unitsStep
        rw [if_pos hside]
        exact if_neg hratio
      unfold recordStep
      rw [hstep, hunits, h.switch_eq rfl]
      exact h

end Realises

/-- The loop keeps the timeline of the factor. -/
theorem realises_foldl {trades : List ChartTrade} (hquantity : ∀ t ∈ trades, 0 ≤ t.quantity) :
    Realises (trades.foldl (r.splitStep market_code) {})
      (record tradeDay (r.unitsStep market_code) SplitUnits.factor {} trades) := by
  induction trades using List.reverseRecOn with
  | nil => exact ⟨le_rfl, rfl, fun h => absurd h (lt_irrefl _), rfl, fun h => absurd h (lt_irrefl _), fun _ => rfl⟩
  | append_singleton trades t ih =>
    rw [List.foldl_concat, record_concat]
    exact (ih fun u hu => hquantity u (List.mem_append_left _ hu)).step (hquantity t (by simp))

/-- The periods are the spans of the timeline. -/
theorem splitPeriods_eq (hquantity : ∀ t ∈ r.allTxs market_code, 0 ≤ t.quantity) : r.splitPeriods market_code =
    ((record tradeDay (r.unitsStep market_code) SplitUnits.factor {} (r.allTxs market_code)).2.spans lastDay).map
      splitPeriod := by
  have hloop : Realises _ (record tradeDay (r.unitsStep market_code) _ _ _) := realises_foldl hquantity
  unfold splitPeriods Timeline.spans
  rw [List.map_append, ← hloop.periods]
  rcases hloop.nonneg.eq_or_lt with hzero | hpos
  · rw [hloop.idle hzero.symm]
    refine (if_neg fun hheld => hzero.not_lt hheld.1).trans ?_
    exact (List.append_nil _).symm
  · obtain ⟨start, hstart, hrunning⟩ := hloop.running hpos
    rw [hrunning]
    refine (if_pos ⟨hpos, by rw [hstart]; rfl⟩).trans ?_
    rw [hstart]
    rfl

/-- What the periods of a market code say. -/
structure SplitLaws (r : ChartReads) (market_code : String) : Prop where
  /-- The factor of a date is that of the units at its end. -/
  value : ∀ d value, d < lastDay → r.splitValue market_code d value =
    (r.splitUnits market_code d).factor.elim value fun ratio => Decimal.roundTo 2 (value * ratio)
  /-- Two periods do not overlap. -/
  ordered : (r.splitPeriods market_code).Pairwise fun x y => ∃ start, y.1 = some start ∧ x.2.1 ≤ start
  /-- A factor is the multiple of a purchase up to the date. -/
  source : ∀ d ratio, (r.splitUnits market_code d).factor = some ratio →
    ∃ t ∈ r.allTxs market_code, t.isBuy = true ∧ tradeDay t ≤ d ∧ r.ratioOn market_code (tradeDay t) = some ratio

/-- Units that are held have the multiple of a purchase. -/
theorem exists_of_factor {trades : List ChartTrade} {ratio : ℚ} (hquantity : ∀ t ∈ trades, 0 ≤ t.quantity)
    (h : (trades.foldl (r.unitsStep market_code) {}).factor = some ratio) :
    ∃ t ∈ trades, t.isBuy = true ∧ r.ratioOn market_code (tradeDay t) = some ratio := by
  induction trades using List.reverseRecOn with
  | nil => cases h
  | append_singleton trades t ih =>
    have hearlier : (trades.foldl (r.unitsStep market_code) {}).factor = some ratio →
        ∃ u ∈ trades ++ [t], u.isBuy = true ∧ r.ratioOn market_code (tradeDay u) = some ratio := by
      intro hfactor
      obtain ⟨u, hu, hfound⟩ := ih (fun u hu => hquantity u (List.mem_append_left _ hu)) hfactor
      exact ⟨u, List.mem_append_left _ hu, hfound⟩
    rw [List.foldl_concat] at h
    generalize trades.foldl (r.unitsStep market_code) {} = units at h hearlier
    unfold unitsStep at h
    cases hbuy : t.isBuy with
    | true =>
      rw [if_pos hbuy] at h
      dsimp only at h
      split_ifs at h with hratio
      · unfold SplitUnits.factor at h
        split_ifs at h with hheld
        refine ⟨t, List.mem_append_right _ List.mem_cons_self, hbuy, ?_⟩
        rw [← h]
        cases hfound : r.ratioOn market_code (tradeDay t) with
        | none =>
          rw [hfound] at hratio
          exact absurd hratio (lt_irrefl _)
        | some found => rfl
      · exact hearlier h
    | false =>
      -- what a sale leaves was held before it
      rw [if_neg (by simp [hbuy])] at h
      refine hearlier ?_
      unfold SplitUnits.factor at h ⊢
      split_ifs at h with hheld
      have hleft : 0 < units.remaining - t.quantity := (lt_max_iff.mp hheld).resolve_left (lt_irrefl _)
      rw [if_pos (hleft.trans_le (sub_le_self _ (hquantity t (by simp))))]
      exact h

theorem splitLaws (hordered : Ordered tradeDay (r.allTxs market_code))
    (hquantity : ∀ t ∈ r.allTxs market_code, 0 ≤ t.quantity) : SplitLaws r market_code where
  value d value hd := by
    have hread : ((r.splitPeriods market_code).find? fun sp => decide (sp.1.all (· ≤ d) = true ∧ d < sp.2.1)).map
        (fun sp => sp.2.2) = (r.splitUnits market_code d).factor := by
      have hfind : (fun sp : Option ℤ × ℤ × ℚ => decide (sp.1.all (· ≤ d) = true ∧ d < sp.2.1)) ∘ splitPeriod =
          fun x : Span ℤ ℚ => decide (x.start ≤ d ∧ d < x.stop) := by
        exact funext fun x => decide_eq_decide.mpr (by simp [splitPeriod])
      rw [splitPeriods_eq hquantity, List.find?_map, hfind, Option.map_map]
      exact (find?_spans hd).trans (labelAt_record hordered rfl)
    unfold splitValue
    rw [← hread]
    cases (r.splitPeriods market_code).find? fun sp => decide (sp.1.all (· ≤ d) = true ∧ d < sp.2.1) with
    | none => rfl
    | some sp => rfl
  ordered := by
    rw [splitPeriods_eq hquantity, List.pairwise_map]
    exact (record_spans_ordered hordered lastDay).imp fun h => ⟨_, rfl, h⟩
  source d ratio h := by
    obtain ⟨t, ht, hbuy, hratio⟩ := exists_of_factor (fun t ht => hquantity t (mem_upTo.mp ht).1) h
    exact ⟨t, (mem_upTo.mp ht).1, hbuy, (mem_upTo.mp ht).2, hratio⟩

end ChartReads

/-! ## Periods of the database -/

namespace Store

variable (s : Store) (z : Zones) (profile_id : ℕ) (market_code : String)

/-- The factor of the chart at a date is decided by the trades up to it, if no stored quantity is negative. -/
theorem split_laws (hquantity : ∀ row ∈ s.transactions.rows, ∀ q ∈ row.2.row.quantity, 0 ≤ q) :
    (s.chartReads z profile_id).SplitLaws market_code := by
  refine ChartReads.splitLaws ?_ fun t ht => ?_
  · have hsorted : ((s.chartReads z profile_id).allTxs market_code).Pairwise fun a b => a.timestamp ≤ b.timestamp :=
      List.pairwise_insertionSort _ _
    exact hsorted.imp Time.dayOf_mono
  · obtain ⟨row, hrow, htrade⟩ := List.mem_filterMap.mp ((List.perm_insertionSort _ _).mem_iff.mp ht)
    obtain ⟨stored, hstored, rfl⟩ := List.mem_map.mp hrow
    unfold toChartTrade at htrade
    split_ifs at htrade
    obtain ⟨aid, -, htrade⟩ := Option.bind_eq_some_iff.mp htrade
    obtain ⟨pa, -, htrade⟩ := Option.bind_eq_some_iff.mp htrade
    obtain ⟨q, hq, htrade⟩ := Option.bind_eq_some_iff.mp htrade
    split_ifs at htrade
    cases htrade
    exact hquantity stored (List.mem_filter.mp hstored).1 q hq

end Store

/-! ## A unit at twice the price of its day -/

namespace Sample

def tradeOf (d : ℤ) (type : TransactionType) (unit_price : ℚ) : Owned Transaction :=
  ⟨some 0, { timestamp := Time.startOfDay d, type, entityId := 0, currency := eur, portfolioAssetId := some 0,
             quantity := some 1, unitPrice := some unit_price }⟩

/-- Of a fund at 10, a unit is bought at 20 and sold two days later. -/
def splitSeller : Store :=
  { fundHolder oneAsset with
    transactions := (Table.empty.insert (tradeOf 0 .investmentBuy 20)).insert (tradeOf 2 .investmentSell 10) }

/-- The factor holds until the day of the sale. -/
theorem split_released : (splitSeller.chartReads zones 0).SplitLaws "fund" ∧
    (splitSeller.chartReads zones 0).splitValue "fund" 1 10 = 20 ∧
    (splitSeller.chartReads zones 0).splitValue "fund" 2 10 = 10 :=
  ⟨Store.split_laws splitSeller zones 0 "fund" (by decide +kernel), by decide +kernel, by decide +kernel⟩

end Sample

end FinHub
