import FinHub.Lib.KeepFirst
import FinHub.Profiles.ChartPoints

/-!
# FinHub.Profiles.ChartTwice

The value chart registers the splits that it detects, and is called again.

Of the purchases at a multiple of the price, a call takes the last one of each day; it registers the first one
of each year. The next call takes what is registered.

* `Store.readValueChart`: a call, with the rows that it leaves.
* `Store.readTwice`: where the registered ratios are those that were taken, both calls answer the same.
-/

namespace FinHub

open Tabular KeepFirst

/-! ## Registered splits -/

/-- The unique index of `stock_splits`. -/
def StockSplit.key (s : StockSplit) : String × String := (s.marketCode, yearText s.splitDate)

namespace ChartReads

/-- The row that is registered for a detection. -/
def detectedSplit (s : String × ℤ × ℕ) : StockSplit := ⟨s.1, dateText s.2.1, s.2.2⟩

variable (r : ChartReads)

/-- What the statements answer after a call. -/
def afterCall : ChartReads := { r with stockSplits := r.registeredSplits }

/-- The first detection of a market code in the year of a day. -/
def firstOfYear (market_code : String) (d : ℤ) : Option (String × ℤ × ℕ) :=
  r.detectStockSplits.find? fun s => decide (s.1 = market_code ∧ yearText (dateText s.2.1) = yearText (dateText d))

/-- The ratio of the last detection of a market code on a day. -/
def lastOfDay (market_code : String) (d : ℤ) : Option ℕ :=
  (r.detectStockSplits.reverse.find? fun s => decide (s.1 = market_code ∧ s.2.1 = d)).map fun s => s.2.2

/-- A detection that is registered has the ratio of the last one of its day, wherever there is a purchase. -/
def RatiosKept : Prop :=
  ∀ s ∈ r.detectStockSplits, hasSplitInYear r.stockSplits s.1 s.2.1 = false →
    r.firstOfYear s.1 s.2.1 = some s → ∀ t ∈ r.allTxs s.1, t.isBuy = true →
      dateText (Time.dayOf t.timestamp) = dateText s.2.1 → r.lastOfDay s.1 (Time.dayOf t.timestamp) = some s.2.2

instance : Decidable r.RatiosKept := by unfold RatiosKept; infer_instance

variable {r}

theorem hasSplitInYear_eq (splits : List StockSplit) (market_code : String) (d : ℤ) :
    hasSplitInYear splits market_code d = hasKey StockSplit.key splits (market_code, yearText (dateText d)) := by
  unfold hasSplitInYear hasKey StockSplit.key
  refine congrArg splits.any (funext fun s => ?_)
  exact decide_eq_decide.mpr Prod.mk_inj.symm

theorem registeredSplits_eq :
    r.registeredSplits = keepFirst StockSplit.key r.stockSplits (r.detectStockSplits.map detectedSplit) := by
  unfold registeredSplits keepFirst
  rw [List.foldl_map]
  refine congrArg (fun f => List.foldl f r.stockSplits r.detectStockSplits) (funext₂ fun splits s => ?_)
  unfold insertNew
  rw [hasSplitInYear_eq]
  rfl

/-- A second call registers nothing. -/
theorem registeredSplits_afterCall : r.afterCall.registeredSplits = r.registeredSplits := by
  rw [registeredSplits_eq]
  change keepFirst StockSplit.key r.registeredSplits (r.detectStockSplits.map detectedSplit) = _
  rw [registeredSplits_eq]
  exact keepFirst_keepFirst

/-- The stored ratio of a day, which only rows of its year can have. -/
def storedRatio (splits : List StockSplit) (market_code : String) (d : ℤ) : Option ℕ :=
  ((rowsOf StockSplit.key splits (market_code, yearText (dateText d))).reverse.find?
    fun s => decide (s.splitDate = dateText d)).map StockSplit.ratio

theorem ratioOn_eq (market_code : String) (d : ℤ) : r.ratioOn market_code d =
    ((storedRatio r.stockSplits market_code d).or (r.lastOfDay market_code d)).map (Nat.cast : ℕ → ℚ) := by
  have hstored : (r.stockSplits.reverse.find? fun s => decide (s.marketCode = market_code ∧
      s.splitDate = dateText d)).map StockSplit.ratio = storedRatio r.stockSplits market_code d := by
    unfold storedRatio rowsOf
    rw [← List.filter_reverse, List.find?_filter]
    refine congrArg (fun p => (r.stockSplits.reverse.find? p).map StockSplit.ratio) (funext fun s => ?_)
    unfold StockSplit.key
    rw [decide_eq_decide, decide_eq_true_eq, decide_eq_true_eq, Prod.mk.injEq]
    constructor
    · rintro ⟨hcode, hdate⟩
      exact ⟨⟨hcode, by rw [hdate]⟩, hdate⟩
    · rintro ⟨⟨hcode, -⟩, hdate⟩
      exact ⟨hcode, hdate⟩
  rw [← hstored]
  unfold ratioOn lastOfDay
  rw [Option.map_or, Option.map_map, Option.map_map]
  rfl

/-- After a call the days of a year without a stored split have the ratio that was registered. -/
theorem storedRatio_afterCall (market_code : String) (d : ℤ) :
    storedRatio r.afterCall.stockSplits market_code d =
      if hasSplitInYear r.stockSplits market_code d then storedRatio r.stockSplits market_code d
      else (r.firstOfYear market_code d).bind fun s => if dateText s.2.1 = dateText d then some s.2.2 else none := by
  change storedRatio r.registeredSplits market_code d = _
  unfold storedRatio
  rw [registeredSplits_eq, rowsOf_keepFirst, ← hasSplitInYear_eq]
  split_ifs with hhas
  · rfl
  · have hfirst : (r.detectStockSplits.map detectedSplit).find?
        (fun x => decide (x.key = (market_code, yearText (dateText d)))) =
          (r.firstOfYear market_code d).map detectedSplit := by
      rw [List.find?_map]
      refine congrArg (fun p => (r.detectStockSplits.find? p).map detectedSplit) (funext fun s => ?_)
      exact decide_eq_decide.mpr Prod.mk_inj
    rw [hfirst]
    cases r.firstOfYear market_code d with
    | none => rfl
    | some s =>
      by_cases hdate : dateText s.2.1 = dateText d
      · simp [detectedSplit, hdate]
      · simp [detectedSplit, hdate]

/-- A purchase has the same ratio in both calls. -/
theorem RatiosKept.ratioOn_afterCall (h : r.RatiosKept) {market_code : String} {t : ChartTrade}
    (ht : t ∈ r.allTxs market_code) (hbuy : t.isBuy = true) :
    r.afterCall.ratioOn market_code (Time.dayOf t.timestamp) = r.ratioOn market_code (Time.dayOf t.timestamp) := by
  have hlast : r.afterCall.lastOfDay market_code (Time.dayOf t.timestamp) =
      r.lastOfDay market_code (Time.dayOf t.timestamp) := rfl
  rw [ratioOn_eq, ratioOn_eq, hlast, storedRatio_afterCall]
  split_ifs with hhas
  · rfl
  · have hnone : storedRatio r.stockSplits market_code (Time.dayOf t.timestamp) = none := by
      unfold storedRatio
      rw [rowsOf_eq_nil (by rw [← hasSplitInYear_eq]; simpa using hhas)]
      rfl
    rw [hnone, Option.none_or]
    cases hfirst : r.firstOfYear market_code (Time.dayOf t.timestamp) with
    | none => rfl
    | some s =>
      have hcond : s.1 = market_code ∧ yearText (dateText s.2.1) = yearText (dateText (Time.dayOf t.timestamp)) := by
        simpa using List.find?_some hfirst
      obtain ⟨rfl, hyear⟩ := hcond
      by_cases hdate : dateText s.2.1 = dateText (Time.dayOf t.timestamp)
      · have hsame : r.firstOfYear s.1 s.2.1 = some s := by
          unfold firstOfYear at hfirst ⊢
          rw [hyear]
          exact hfirst
        have hfree : hasSplitInYear r.stockSplits s.1 s.2.1 = false := by
          rw [hasSplitInYear_eq, hyear, ← hasSplitInYear_eq]
          simpa using hhas
        rw [h s (List.mem_of_find?_eq_some hfirst) hfree hsame t ht hbuy hdate.symm]
        simp [hdate]
      · simp [hdate]

theorem RatiosKept.splitPeriods_afterCall (h : r.RatiosKept) (market_code : String) :
    r.afterCall.splitPeriods market_code = r.splitPeriods market_code := by
  have hstep : ∀ (st : SplitState), ∀ t ∈ r.allTxs market_code,
      r.afterCall.splitStep market_code st t = r.splitStep market_code st t := by
    intro st t ht
    unfold splitStep
    cases hbuy : t.isBuy with
    | false => rfl
    | true => simp only [h.ratioOn_afterCall ht hbuy]
  have hloop : (r.allTxs market_code).foldl (r.afterCall.splitStep market_code) {} =
      (r.allTxs market_code).foldl (r.splitStep market_code) {} :=
    List.foldl_ext _ _ _ hstep
  unfold splitPeriods
  rw [show r.afterCall.allTxs = r.allTxs from rfl, hloop]

/-- The whole answer depends on the splits by the periods and by the years that have one. -/
theorem RatiosKept.chart_afterCall (h : r.RatiosKept) (c : ChartCall) : r.afterCall.chart c = r.chart c := by
  have hpoint : ∀ d, r.afterCall.assetPoint c.displayCurrency d = r.assetPoint c.displayCurrency d := by
    intro d
    funext a
    rw [assetPoint_eq, assetPoint_eq]
    unfold pointOf splitValue
    rw [h.splitPeriods_afterCall]
    rfl
  have hseries : ∀ dates code, r.afterCall.series c.displayCurrency dates code =
      r.series c.displayCurrency dates code := by
    intro dates code
    unfold series marketPoints
    simp only [hpoint]
    rfl
  have hflagged : r.afterCall.flaggedSplits = r.flaggedSplits := by
    unfold flaggedSplits flaggedSplit
    rw [registeredSplits_afterCall]
    rfl
  unfold chart chartData
  simp only [hseries, hflagged]
  rfl

end ChartReads

/-! ## Two calls -/

namespace Store

/-- `portfolio_value_chart` with the rows that it leaves. -/
def readValueChart (s : Store) (z : Zones) (profile_id : ℕ) (c : ChartCall) :
    Except HistoryError PortfolioValueChartResponse × Store :=
  (s.portfolioValueChart z profile_id c, { s with stockSplits := (s.chartReads z profile_id).registeredSplits })

/-- The next call of a chart answers the same, if the registered ratios are those that were taken. -/
theorem readTwice {s : Store} {z : Zones} {profile_id : ℕ} (h : (s.chartReads z profile_id).RatiosKept)
    (c : ChartCall) :
    ((s.readValueChart z profile_id c).2.readValueChart z profile_id c).1 = (s.readValueChart z profile_id c).1 :=
  h.chart_afterCall c

end Store

/-! ## Two purchases of a day -/

namespace Sample

/-- One unit each at these prices on the day when the fund stands at 10. -/
def splitBuyer (unit_prices : List ℚ) : Store :=
  { fundHolder oneAsset with
    transactions := unit_prices.foldl (fun transactions unit_price => transactions.insert ⟨some 0,
      { timestamp := 0, type := .investmentBuy, entityId := 0, currency := eur, portfolioAssetId := some 0,
        quantity := some 1, unitPrice := some unit_price }⟩) .empty }

/-- The first call takes the ratio of the second purchase and registers that of the first. -/
theorem split_changed : ¬ ∀ (s : Store) (z : Zones) (profile_id : ℕ) (c : ChartCall),
    ((s.readValueChart z profile_id c).2.readValueChart z profile_id c).1 = (s.readValueChart z profile_id c).1 := by
  intro h
  have hfirst : ((splitBuyer [20, 30]).readValueChart zones 0 firstDay).1 =
      .ok ⟨[("fund", [⟨0, 60, false⟩])], []⟩ := by decide +kernel
  have hsecond : (((splitBuyer [20, 30]).readValueChart zones 0 firstDay).2.readValueChart zones 0 firstDay).1 =
      .ok ⟨[("fund", [⟨0, 40, false⟩])], []⟩ := by decide +kernel
  have hsame := h (splitBuyer [20, 30]) zones 0 firstDay
  rw [hfirst, hsecond] at hsame
  exact absurd hsame (by decide)

theorem split_kept :
    (((splitBuyer [20]).readValueChart zones 0 firstDay).2.readValueChart zones 0 firstDay).1 =
      ((splitBuyer [20]).readValueChart zones 0 firstDay).1 ∧
    ((splitBuyer [20]).readValueChart zones 0 firstDay).2.stockSplits = [⟨"fund", "1970-01-01", 2⟩] :=
  ⟨Store.readTwice (by decide +kernel) firstDay, by decide +kernel⟩

end Sample

end FinHub
