import FinHub.Profiles.Interference

/-!
# FinHub.Profiles.ChartPoints

The points that the value chart of a profile has for a market code.

The loop over the dates passes the assets of the code one by one, those of other profiles among them, and
values each at the position that comes last under the code; the assets tracked by hand add their own points.

* `Store.OneSource`: at a date, one asset gives the code its points.
* `Store.chart_sound_iff`: that is when there is one point a date, at the whole quantity.
-/

namespace FinHub

open Tabular

namespace ChartReads

variable (r : ChartReads)

/-- A value in a split period of the market code. -/
def splitValue (market_code : String) (d : ℤ) (value : ℚ) : ℚ :=
  ((r.splitPeriods market_code).find? fun sp => decide (sp.1.all (· ≤ d) = true ∧ d < sp.2.1)).elim value
    fun sp => Decimal.roundTo 2 (value * sp.2.2)

def convertedValue (display_currency : Option Currency) (cur : Currency) (value : ℚ) : ℚ :=
  (r.rateTo display_currency cur).elim value fun rate => Decimal.roundTo 2 (value * rate)

/-- The point of a quantity of a market code. -/
def pointOf (display_currency : Option Currency) (d : ℤ) (a : ChartAsset) (quantity : ℚ) : Option ChartPoint :=
  if quantity ≤ 0 then none
  else
    ((r.priceAsOf a.marketCode d).or (r.firstPrice a.marketCode)).map fun p =>
      let value := r.splitValue a.marketCode d (Decimal.roundTo 2 (quantity * p.price))
      ⟨d, r.convertedValue display_currency a.currencyCode value, (r.priceAsOf a.marketCode d).isNone⟩

/-- The values of an asset tracked by hand that are recorded up to some of the dates. -/
def hasData (dates : List ℤ) (ma : ManualAsset) : Bool := dates.any fun d => (r.manualValueAsOf ma.id d).isSome

/-- The point of an asset tracked by hand at a date. -/
def manualPoint (display_currency : Option Currency) (dates : List ℤ) (d : ℤ) (ma : ManualAsset) :
    Option ChartPoint :=
  let rate := (r.rateTo display_currency ma.currencyCode).getD 1
  if r.hasData dates ma then
    (r.manualValueAsOf ma.id d).map fun mv => ⟨d, Decimal.roundTo 2 (mv * rate), false⟩
  else ma.asset.currentValueManual.map fun value => ⟨d, Decimal.roundTo 2 (value * rate), true⟩

/-- The assets of a market code. -/
def assetsOf (market_code : String) : List ChartAsset :=
  r.assets.filter fun a => decide (a.marketCode = market_code)

def manualAssetsOf (market_code : String) : List ManualAsset :=
  r.manualTrackedAssets.filter fun ma => decide (ma.asset.marketCode = market_code)

/-- The points of a market code at a date. -/
def pointsOn (display_currency : Option Currency) (dates : List ℤ) (market_code : String) (d : ℤ) :
    List ChartPoint :=
  (r.assetsOf market_code).filterMap (r.assetPoint display_currency d) ++
    (r.manualAssetsOf market_code).filterMap (r.manualPoint display_currency dates d)

variable {r} {display_currency : Option Currency} {dates : List ℤ} {market_code : String} {d : ℤ}

theorem assetPoint_eq (a : ChartAsset) : r.assetPoint display_currency d a =
    r.pointOf display_currency d a (r.quantityOf a.marketCode d) := by
  unfold assetPoint pointOf splitValue convertedValue
  split_ifs with hq
  · rfl
  · refine congrArg (Option.map · _) (funext fun p => ?_)
    dsimp only
    cases (r.splitPeriods a.marketCode).find? fun sp => decide (sp.1.all (· ≤ d) = true ∧ d < sp.2.1) with
    | none => cases r.rateTo display_currency a.currencyCode <;> rfl
    | some sp => cases r.rateTo display_currency a.currencyCode <;> rfl

theorem pointOf_date {a : ChartAsset} {quantity : ℚ} {p : ChartPoint}
    (h : r.pointOf display_currency d a quantity = some p) : p.date = d := by
  unfold pointOf at h
  split_ifs at h
  obtain ⟨price, -, rfl⟩ := Option.map_eq_some_iff.mp h
  rfl

theorem manualPoint_date {ma : ManualAsset} {p : ChartPoint}
    (h : r.manualPoint display_currency dates d ma = some p) : p.date = d := by
  unfold manualPoint at h
  dsimp only at h
  split_ifs at h
  · obtain ⟨value, -, rfl⟩ := Option.map_eq_some_iff.mp h
    rfl
  · obtain ⟨value, -, rfl⟩ := Option.map_eq_some_iff.mp h
    rfl

theorem pointsOn_date {p : ChartPoint} (h : p ∈ r.pointsOn display_currency dates market_code d) : p.date = d := by
  rcases List.mem_append.mp h with h | h
  · obtain ⟨a, -, ha⟩ := List.mem_filterMap.mp h
    rw [assetPoint_eq] at ha
    exact pointOf_date ha
  · obtain ⟨ma, -, hma⟩ := List.mem_filterMap.mp h
    exact manualPoint_date hma

/-- There is a point where there are a quantity and a price, whatever the asset. -/
theorem pointOf_isSome_iff {a : ChartAsset} {quantity : ℚ} : (r.pointOf display_currency d a quantity).isSome ↔
    0 < quantity ∧ r.pricesOf a.marketCode ≠ [] := by
  unfold pointOf
  split_ifs with hq
  · simp only [Option.isSome_none, Bool.false_eq_true, false_iff, not_and]
    intro hpos
    exact absurd hq (not_le.mpr hpos)
  · rw [Option.isSome_map]
    refine Iff.trans ?_ (and_iff_right (not_le.mp hq)).symm
    unfold firstPrice
    constructor
    · intro h hnil
      unfold priceAsOf at h
      rw [hnil] at h
      cases h
    · intro hne
      cases hfirst : (r.pricesOf a.marketCode).argmin Price.timestamp with
      | none => exact absurd (List.argmin_eq_none.mp hfirst) hne
      | some p =>
        cases r.priceAsOf a.marketCode d with
        | none => rfl
        | some p => rfl

/-- The points of a manual asset, date by date. -/
theorem manualPoints_eq (ma : ManualAsset) : r.manualPoints display_currency dates ma =
    dates.filterMap fun d => r.manualPoint display_currency dates d ma := by
  have hdata : r.hasData dates ma = true ↔ (dates.filterMap fun d =>
      (r.manualValueAsOf ma.id d).map fun mv =>
        (⟨d, Decimal.roundTo 2 (mv * (r.rateTo display_currency ma.currencyCode).getD 1), false⟩ : ChartPoint)) ≠
          [] := by
    rw [Ne, List.filterMap_eq_nil_iff, hasData, List.any_eq_true]
    push Not
    refine exists_congr fun d => and_congr_right fun _ => ?_
    cases r.manualValueAsOf ma.id d with
    | none => simp
    | some mv => simp
  unfold manualPoints manualPoint
  dsimp only
  by_cases h : r.hasData dates ma = true
  · rw [if_pos (hdata.mp h)]
    simp only [if_pos h]
  · rw [if_neg fun hne => h (hdata.mpr hne)]
    simp only [if_neg h]
    cases ma.asset.currentValueManual with
    | none => simp
    | some value => simp

/-- The points of a market code are those of its dates. -/
theorem series_perm : (r.series display_currency dates market_code).Perm
    (dates.flatMap (r.pointsOn display_currency dates market_code)) := by
  have hmanual : ((r.manualAssetsOf market_code).flatMap (r.manualPoints display_currency dates)).Perm
      (dates.flatMap fun d =>
        (r.manualAssetsOf market_code).filterMap (r.manualPoint display_currency dates d)) := by
    have hpoints : r.manualPoints display_currency dates = fun ma =>
        dates.flatMap fun d => (r.manualPoint display_currency dates d ma).toList := by
      funext ma
      rw [manualPoints_eq, List.filterMap_eq_flatMap_toList]
    rw [hpoints]
    simp only [List.filterMap_eq_flatMap_toList]
    -- the two loops in either order
    have hswap := Multiset.bind_bind (↑(r.manualAssetsOf market_code)) (↑dates : Multiset ℤ)
      (f := fun ma d => (↑(r.manualPoint display_currency dates d ma).toList : Multiset ChartPoint))
    simpa using hswap
  refine (hmanual.append_left _).trans ?_
  exact List.flatMap_append_perm dates _ _

/-- One point a date at most, if no date has two. -/
theorem nodup_series_iff (hdates : dates.Nodup) :
    ((r.series display_currency dates market_code).map ChartPoint.date).Nodup ↔
      ∀ d ∈ dates, (r.pointsOn display_currency dates market_code d).length ≤ 1 := by
  have hmap : (dates.flatMap (r.pointsOn display_currency dates market_code)).map ChartPoint.date =
      dates.flatMap fun d => List.replicate (r.pointsOn display_currency dates market_code d).length d := by
    rw [List.map_flatMap]
    refine List.flatMap_congr fun d _ => ?_
    rw [List.eq_replicate_iff, List.length_map]
    refine ⟨rfl, fun date hdate => ?_⟩
    obtain ⟨p, hp, rfl⟩ := List.mem_map.mp hdate
    exact pointsOn_date hp
  rw [(series_perm.map ChartPoint.date).nodup_iff, hmap, List.nodup_flatMap]
  simp only [List.nodup_replicate]
  refine and_iff_left ?_
  refine List.Pairwise.imp (fun {d d'} hne => ?_) hdates
  intro x hx hx'
  exact hne ((List.eq_of_mem_replicate hx).symm.trans (List.eq_of_mem_replicate hx'))

theorem mem_series {p : ChartPoint} : p ∈ r.series display_currency dates market_code ↔
    ∃ d ∈ dates, p ∈ r.pointsOn display_currency dates market_code d := by
  rw [series_perm.mem_iff, List.mem_flatMap]

/-- The manual assets of a market code with a value at a date. -/
def manualAssetsOn (r : ChartReads) (dates : List ℤ) (market_code : String) (d : ℤ) : List ManualAsset :=
  (r.manualAssetsOf market_code).filter fun ma =>
    if r.hasData dates ma then (r.manualValueAsOf ma.id d).isSome else ma.asset.currentValueManual.isSome

theorem length_manual : ((r.manualAssetsOf market_code).filterMap (r.manualPoint display_currency dates d)).length =
    (r.manualAssetsOn dates market_code d).length := by
  have hvalue : ∀ ma, (r.manualPoint display_currency dates d ma).isSome =
      if r.hasData dates ma then (r.manualValueAsOf ma.id d).isSome else ma.asset.currentValueManual.isSome := by
    intro ma
    unfold manualPoint
    dsimp only
    split_ifs
    · rw [Option.isSome_map]
    · rw [Option.isSome_map]
  unfold manualAssetsOn
  rw [List.length_filterMap_eq_countP, List.countP_eq_length_filter]
  simp only [hvalue]

/-- The dates are in steps, with another one after them at most. -/
theorem nodup_chartDates {start end_ : ℤ} (h : chartDates start end_ = .ok dates) : dates.Nodup := by
  unfold chartDates at h
  set interval : ℤ := if 730 < end_ - start then 30 else 7 with hinterval
  have hpos : 0 < interval := by
    rw [hinterval]
    split_ifs <;> omega
  simp only [List.bind_eq_flatMap, List.pure_def, ← List.map_eq_flatMap, List.map_map] at h
  set count := ((end_ - start) / interval + 1).toNat with hcount
  set step : ℕ → ℤ := (fun i : ℤ => start + i * interval) ∘ fun i : ℕ => (i : ℤ) with hstep
  have hmono : StrictMono step := by
    intro i j hij
    have hmul : (i : ℤ) * interval < j * interval := mul_lt_mul_of_pos_right (by exact_mod_cast hij) hpos
    exact add_lt_add_right hmul start
  have hnodup : ((List.range count).map step).Nodup := List.nodup_range.map hmono.injective
  cases hn : count with
  | zero =>
    rw [hn] at h
    cases h
  | succ last =>
    have hgetLast : ((List.range count).map step).getLast? = some (step last) := by
      rw [hn, List.range_succ, List.map_append]
      simp
    have hle : step last ≤ end_ := by
      have hdiv : (last : ℤ) ≤ (end_ - start) / interval := by omega
      have hmul := (Int.le_ediv_iff_mul_le hpos).mp hdiv
      change start + (last : ℤ) * interval ≤ end_
      linarith only [hmul]
    simp only [hgetLast] at h
    split_ifs at h with hover heq
    · obtain rfl := Except.ok.inj h
      exact hnodup
    · obtain rfl := Except.ok.inj h
      have hnew : end_ ∉ (List.range count).map step := by
        intro hmem
        obtain ⟨i, hi, hend⟩ := List.mem_map.mp hmem
        have hi' : i ≤ last := by
          have := List.mem_range.mp hi
          omega
        have hend' : end_ ≤ step last := hend ▸ hmono.monotone hi'
        exact heq (le_antisymm hle hend')
      rw [List.nodup_append]
      refine ⟨hnodup, List.nodup_singleton _, ?_⟩
      intro x hx y hy hxy
      rw [List.mem_singleton.mp hy] at hxy
      exact hnew (hxy ▸ hx)

theorem quantityOf_eq : r.quantityOf market_code d =
    ((((r.netPositions (Time.endOfDay d)).filter fun p => decide (p.marketCode = market_code)).getLast?).map
      NetPosition.netQuantity).getD 0 := by
  unfold quantityOf
  rw [← List.head?_filter, List.filter_reverse, List.head?_reverse]

end ChartReads

/-- `data.get(market_code, [])`. -/
def PortfolioValueChartResponse.pointsOf (response : PortfolioValueChartResponse) (market_code : String) :
    List ChartPoint :=
  ((response.data.find? fun e => decide (e.1 = market_code)).map Prod.snd).getD []

namespace ChartReads

variable {r : ChartReads} {display_currency : Option Currency} {dates : List ℤ} {market_code : String}

/-- The entries of the answer are the series that are not empty. -/
theorem pointsOf_eq (flagged : List FlaggedSplit) :
    (PortfolioValueChartResponse.mk (r.chartData display_currency dates) flagged).pointsOf market_code =
      r.series display_currency dates market_code := by
  unfold PortfolioValueChartResponse.pointsOf
  dsimp only
  cases hfound : (r.chartData display_currency dates).find? fun e => decide (e.1 = market_code) with
  | some e =>
    obtain ⟨code, points⟩ := e
    have hcode : code = market_code := by simpa using List.find?_some hfound
    obtain ⟨-, hpoints, -⟩ := mem_chartData.mp (List.mem_of_find?_eq_some hfound)
    rw [← hcode]
    exact hpoints
  | none =>
    have hnone : ∀ points, (market_code, points) ∉ r.chartData display_currency dates := by
      intro points hmem
      have := List.find?_eq_none.mp hfound _ hmem
      simp at this
    by_contra hne
    refine hnone _ (mem_chartData.mpr ⟨?_, rfl, fun hnil => hne hnil.symm⟩)
    unfold marketCodes
    rw [List.mem_eraseDups, List.mem_append]
    by_contra hno
    push Not at hno
    have hassets : r.assetsOf market_code = [] := by
      refine List.filter_eq_nil_iff.mpr fun a ha => ?_
      rw [decide_eq_true_eq]
      exact fun hcode => hno.1 (hcode ▸ List.mem_map_of_mem ha)
    have hmanual : r.manualAssetsOf market_code = [] := by
      refine List.filter_eq_nil_iff.mpr fun ma hma => ?_
      rw [decide_eq_true_eq]
      exact fun hcode => hno.2 (hcode ▸ List.mem_map_of_mem (f := fun ma : ManualAsset => ma.asset.marketCode) hma)
    refine hne ((List.eq_nil_iff_forall_not_mem.mpr fun p hp => ?_).symm)
    obtain ⟨d, -, hd⟩ := mem_series.mp hp
    unfold pointsOn at hd
    rw [hassets, hmanual] at hd
    cases hd

end ChartReads

/-! ## Points of a profile -/

namespace Store

variable (s : Store) (z : Zones) (profile_id : ℕ)

/-- The assets of a market code, whosever they are. -/
def assetRows (market_code : String) : List (ℕ × PortfolioAsset) :=
  (scopedRows s.portfolioAssets none).filter fun row => decide (row.2.marketCode = market_code)

/-- What the profile has bought of an asset and not sold, up to a date. -/
def netQuantity (d : ℤ) (portfolio_asset_id : ℕ) : ℚ :=
  (s.joined z profile_id).quantityUpTo (Time.endOfDay d) .investmentBuy portfolio_asset_id -
    (s.joined z profile_id).quantityUpTo (Time.endOfDay d) .investmentSell portfolio_asset_id

def totalQuantity (market_code : String) (d : ℤ) : ℚ :=
  ((s.assetRows market_code).map fun row => s.netQuantity z profile_id d row.1).sum

/-- The point of a market code for all that is held of it. -/
def totalPoint (display_currency : Option Currency) (market_code : String) (d : ℤ) : Option ChartPoint :=
  (s.getMarketAsset market_code).bind fun ma =>
    (s.chartReads z profile_id).pointOf display_currency d ⟨market_code, ma.currencyCode⟩
      (s.totalQuantity z profile_id market_code d)

/-- One point a date at most, one wherever something is held, and for a code without manual assets no other. -/
structure SoundPoints (display_currency : Option Currency) (dates : List ℤ) (market_code : String)
    (points : List ChartPoint) : Prop where
  unique : (points.map ChartPoint.date).Nodup
  complete : ∀ d ∈ dates, ∀ point, s.totalPoint z profile_id display_currency market_code d = some point →
    point ∈ points
  exact : (s.chartReads z profile_id).manualAssetsOf market_code = [] → ∀ point ∈ points, point.date ∈ dates ∧
    s.totalPoint z profile_id display_currency market_code point.date = some point

/-- Some asset of the code is held at a date, and there are prices for it. -/
structure Held (market_code : String) (d : ℤ) : Prop where
  listed : (s.getMarketAsset market_code).isSome
  held : ∃ row ∈ s.assetRows market_code, 0 < s.netQuantity z profile_id d row.1
  priced : ∃ p ∈ s.prices, p.marketCode = market_code

/-- At a date one asset gives the code its points. -/
structure OneSource (dates : List ℤ) (market_code : String) (d : ℤ) : Prop where
  asset : s.Held z profile_id market_code d → (s.assetRows market_code).length = 1
  kind : s.Held z profile_id market_code d →
    (s.chartReads z profile_id).manualAssetsOn dates market_code d = []
  manual : ((s.chartReads z profile_id).manualAssetsOn dates market_code d).length ≤ 1

variable {s z profile_id} {display_currency : Option Currency} {dates : List ℤ} {market_code : String} {d : ℤ}

/-- Every asset of a code is read with the currency of the code. -/
theorem assetsOf_eq {ma : MarketAsset} (hma : s.getMarketAsset market_code = some ma) :
    (s.chartReads z profile_id).assetsOf market_code =
      List.replicate (s.assetRows market_code).length ⟨market_code, ma.currencyCode⟩ := by
  have hperm : ((s.chartReads z profile_id).assetsOf market_code).Perm
      (((scopedRows s.portfolioAssets none).filterMap s.toChartAsset).filter
        fun a => decide (a.marketCode = market_code)) := (List.perm_insertionSort _ _).filter _
  have hrows : ((scopedRows s.portfolioAssets none).filterMap s.toChartAsset).filter
      (fun a => decide (a.marketCode = market_code)) =
        (s.assetRows market_code).map fun _ => (⟨market_code, ma.currencyCode⟩ : ChartAsset) := by
    unfold assetRows
    induction scopedRows s.portfolioAssets none with
    | nil => rfl
    | cons row rows ih =>
      by_cases hcode : row.2.marketCode = market_code
      · have hrow : s.toChartAsset row = some ⟨market_code, ma.currencyCode⟩ := by
          unfold toChartAsset
          rw [hcode, hma]
          rfl
        rw [List.filterMap_cons_some hrow, List.filter_cons_of_pos (by simp), ih,
          List.filter_cons_of_pos (by simpa using hcode), List.map_cons]
      · rw [List.filter_cons_of_neg (by simpa using hcode), ← ih]
        cases hrow : s.toChartAsset row with
        | none => rw [List.filterMap_cons_none hrow]
        | some a =>
          have hother : a.marketCode ≠ market_code := by
            obtain ⟨ma', -, ha⟩ := Option.map_eq_some_iff.mp hrow
            rw [← ha]
            exact hcode
          rw [List.filterMap_cons_some hrow, List.filter_cons_of_neg (by simpa using hother)]
  rw [hrows] at hperm
  rw [List.map_const'] at hperm
  exact List.perm_replicate.mp hperm

theorem assetsOf_eq_nil (hma : s.getMarketAsset market_code = none) :
    (s.chartReads z profile_id).assetsOf market_code = [] := by
  refine List.filter_eq_nil_iff.mpr fun a ha => ?_
  rw [decide_eq_true_eq]
  intro hcode
  obtain ⟨row, -, hrow⟩ := List.mem_filterMap.mp ((List.perm_insertionSort _ _).mem_iff.mp ha)
  obtain ⟨ma, hfound, ha'⟩ := Option.map_eq_some_iff.mp hrow
  rw [← ha'] at hcode
  rw [show row.2.marketCode = market_code from hcode, hma] at hfound
  cases hfound

/-- The positions of a profile over the assets of all. -/
theorem netPositions_eq : (s.chartReads z profile_id).netPositions (Time.endOfDay d) =
    (scopedRows s.portfolioAssets none).filterMap fun row =>
      if 0 < s.netQuantity z profile_id d row.1 then
        (s.getMarketAsset row.2.marketCode).map fun ma =>
          ⟨row.1, row.2.marketCode, ma.currencyCode, s.netQuantity z profile_id d row.1⟩
      else none := by
  refine List.filterMap_congr fun row _ => ?_
  dsimp only
  simp only [Bool.true_or, Bool.true_and, Option.all_none, Bool.and_true, decide_eq_true_eq]
  rfl

/-- The positions of a code are its assets with a quantity. -/
theorem positions_eq {ma : MarketAsset} (hma : s.getMarketAsset market_code = some ma) :
    ((s.chartReads z profile_id).netPositions (Time.endOfDay d)).filter
      (fun p => decide (p.marketCode = market_code)) =
        ((s.assetRows market_code).filter fun row => decide (0 < s.netQuantity z profile_id d row.1)).map
          fun row => ⟨row.1, market_code, ma.currencyCode, s.netQuantity z profile_id d row.1⟩ := by
  unfold assetRows
  rw [netPositions_eq, List.filter_filterMap, ← List.filterMap_eq_map, List.filterMap_filter, List.filterMap_filter]
  refine List.filterMap_congr fun row _ => ?_
  by_cases hpos : 0 < s.netQuantity z profile_id d row.1
  · by_cases hcode : row.2.marketCode = market_code
    · simp [hpos, hcode, hma]
    · cases hfound : s.getMarketAsset row.2.marketCode with
      | none => simp [hpos, hcode]
      | some ma' => simp [hpos, hcode]
  · simp [hpos]

/-- The quantity that the loop takes is positive where some asset is held. -/
theorem quantityOf_pos_iff {ma : MarketAsset} (hma : s.getMarketAsset market_code = some ma) :
    0 < (s.chartReads z profile_id).quantityOf market_code d ↔
      ∃ row ∈ s.assetRows market_code, 0 < s.netQuantity z profile_id d row.1 := by
  rw [ChartReads.quantityOf_eq, positions_eq hma, List.getLast?_map, Option.map_map]
  constructor
  · intro h
    cases hlast : ((s.assetRows market_code).filter
        fun row => decide (0 < s.netQuantity z profile_id d row.1)).getLast? with
    | none =>
      rw [hlast] at h
      exact absurd h (lt_irrefl 0)
    | some row =>
      obtain ⟨hrow, hpos⟩ := List.mem_filter.mp (List.mem_of_getLast? hlast)
      exact ⟨row, hrow, by simpa using hpos⟩
  · rintro ⟨row, hrow, hpos⟩
    have hmem : row ∈ (s.assetRows market_code).filter
        fun row => decide (0 < s.netQuantity z profile_id d row.1) :=
      List.mem_filter.mpr ⟨hrow, by simpa using hpos⟩
    cases hlast : ((s.assetRows market_code).filter
        fun row => decide (0 < s.netQuantity z profile_id d row.1)).getLast? with
    | none =>
      rw [List.getLast?_eq_none_iff] at hlast
      rw [hlast] at hmem
      cases hmem
    | some last =>
      obtain ⟨-, hpos'⟩ := List.mem_filter.mp (List.mem_of_getLast? hlast)
      simpa using hpos'

/-- Of a single asset the loop takes what is held. -/
theorem quantityOf_of_single {ma : MarketAsset} (hma : s.getMarketAsset market_code = some ma)
    (hone : (s.assetRows market_code).length = 1)
    (hpos : ∃ row ∈ s.assetRows market_code, 0 < s.netQuantity z profile_id d row.1) :
    (s.chartReads z profile_id).quantityOf market_code d = s.totalQuantity z profile_id market_code d := by
  obtain ⟨row, hrows⟩ := List.length_eq_one_iff.mp hone
  obtain ⟨row', hrow', hheld⟩ := hpos
  rw [hrows, List.mem_singleton] at hrow'
  obtain rfl := hrow'
  unfold totalQuantity
  rw [ChartReads.quantityOf_eq, positions_eq hma, hrows,
    List.filter_cons_of_pos (by simpa using hheld)]
  simp

/-- Without a held asset nothing is held in total. -/
theorem exists_held_of_totalQuantity (h : 0 < s.totalQuantity z profile_id market_code d) :
    ∃ row ∈ s.assetRows market_code, 0 < s.netQuantity z profile_id d row.1 := by
  by_contra hno
  push Not at hno
  refine absurd h (not_lt.mpr ?_)
  unfold totalQuantity
  refine List.sum_le_card_nsmul _ 0 (fun q hq => ?_) |>.trans (by simp)
  obtain ⟨row, hrow, rfl⟩ := List.mem_map.mp hq
  exact hno row hrow

/-- Each asset of a code that is held has the same point. -/
theorem Held.points (h : s.Held z profile_id market_code d) (display_currency : Option Currency) :
    ∃ ma p, s.getMarketAsset market_code = some ma ∧
      (s.chartReads z profile_id).pointOf display_currency d ⟨market_code, ma.currencyCode⟩
        ((s.chartReads z profile_id).quantityOf market_code d) = some p ∧
      ((s.chartReads z profile_id).assetsOf market_code).filterMap
        ((s.chartReads z profile_id).assetPoint display_currency d) =
          List.replicate (s.assetRows market_code).length p := by
  obtain ⟨ma, hma⟩ := Option.isSome_iff_exists.mp h.listed
  have hsome : ((s.chartReads z profile_id).pointOf display_currency d ⟨market_code, ma.currencyCode⟩
      ((s.chartReads z profile_id).quantityOf market_code d)).isSome := by
    refine ChartReads.pointOf_isSome_iff.mpr ⟨(quantityOf_pos_iff hma).mpr h.held, ?_⟩
    obtain ⟨p, hp, hcode⟩ := h.priced
    exact List.ne_nil_of_mem (List.mem_filter.mpr ⟨hp, by simpa using hcode⟩)
  obtain ⟨p, hp⟩ := Option.isSome_iff_exists.mp hsome
  refine ⟨ma, p, hma, hp, ?_⟩
  rw [assetsOf_eq hma]
  exact List.filterMap_replicate_of_some ((ChartReads.assetPoint_eq _).trans hp)

/-- A point that the loop makes, or one of the whole quantity, is of a code that is held. -/
theorem held_of_pointOf {ma : MarketAsset} {quantity : ℚ} {p : ChartPoint}
    (hma : s.getMarketAsset market_code = some ma)
    (hheld : 0 < quantity → ∃ row ∈ s.assetRows market_code, 0 < s.netQuantity z profile_id d row.1)
    (h : (s.chartReads z profile_id).pointOf display_currency d ⟨market_code, ma.currencyCode⟩ quantity = some p) :
    s.Held z profile_id market_code d := by
  obtain ⟨hpos, hprices⟩ := ChartReads.pointOf_isSome_iff.mp (Option.isSome_iff_exists.mpr ⟨p, h⟩)
  refine ⟨Option.isSome_iff_exists.mpr ⟨ma, hma⟩, hheld hpos, ?_⟩
  obtain ⟨price, hprice⟩ := List.exists_mem_of_ne_nil _ hprices
  obtain ⟨hmem, hcode⟩ := List.mem_filter.mp hprice
  exact ⟨price, hmem, by simpa using hcode⟩

/-- The loop has no point of a code that is not held. -/
theorem points_of_not_held (h : ¬ s.Held z profile_id market_code d) (display_currency : Option Currency) :
    ((s.chartReads z profile_id).assetsOf market_code).filterMap
      ((s.chartReads z profile_id).assetPoint display_currency d) = [] := by
  refine List.filterMap_eq_nil_iff.mpr fun a ha => ?_
  cases hma : s.getMarketAsset market_code with
  | none =>
    rw [assetsOf_eq_nil hma] at ha
    cases ha
  | some ma =>
    rw [assetsOf_eq hma] at ha
    rw [List.eq_of_mem_replicate ha, ChartReads.assetPoint_eq]
    by_contra hne
    obtain ⟨p, hp⟩ := Option.ne_none_iff_exists'.mp hne
    exact h (held_of_pointOf hma (quantityOf_pos_iff hma).mp hp)

/-- One point at a date is one source. -/
theorem length_pointsOn_le_one_iff :
    ((s.chartReads z profile_id).pointsOn display_currency dates market_code d).length ≤ 1 ↔
      s.OneSource z profile_id dates market_code d := by
  unfold ChartReads.pointsOn
  rw [List.length_append, ChartReads.length_manual]
  by_cases hheld : s.Held z profile_id market_code d
  · obtain ⟨ma, p, -, -, hpoints⟩ := hheld.points display_currency
    obtain ⟨row, hrow, -⟩ := hheld.held
    have hrows := List.length_pos_of_mem hrow
    rw [hpoints, List.length_replicate]
    constructor
    · intro h
      refine ⟨fun _ => by omega, fun _ => List.length_eq_zero_iff.mp (by omega), by omega⟩
    · intro h
      rw [h.asset hheld, h.kind hheld, List.length_nil]
  · rw [points_of_not_held hheld, List.length_nil, Nat.zero_add]
    exact ⟨fun h => ⟨fun hh => absurd hh hheld, fun hh => absurd hh hheld, h⟩, OneSource.manual⟩

/-- The total point is the one that the loop makes of a single asset. -/
theorem OneSource.totalPoint_eq (h : s.OneSource z profile_id dates market_code d) {ma : MarketAsset}
    (hma : s.getMarketAsset market_code = some ma) (hheld : s.Held z profile_id market_code d) :
    s.totalPoint z profile_id display_currency market_code d =
      (s.chartReads z profile_id).pointOf display_currency d ⟨market_code, ma.currencyCode⟩
        ((s.chartReads z profile_id).quantityOf market_code d) := by
  unfold totalPoint
  rw [hma, quantityOf_of_single hma (h.asset hheld) hheld.held]
  rfl

/-- The points are sound where each date has one source. -/
theorem soundPoints_iff (hdates : dates.Nodup) :
    s.SoundPoints z profile_id display_currency dates market_code
        ((s.chartReads z profile_id).series display_currency dates market_code) ↔
      ∀ d ∈ dates, s.OneSource z profile_id dates market_code d := by
  constructor
  · intro h d hd
    exact length_pointsOn_le_one_iff.mp ((ChartReads.nodup_series_iff hdates).mp h.unique d hd)
  · intro h
    refine ⟨(ChartReads.nodup_series_iff hdates).mpr fun d hd => length_pointsOn_le_one_iff.mpr (h d hd), ?_, ?_⟩
    · intro d hd point hpoint
      have htotal := hpoint
      obtain ⟨ma, hma, hp⟩ := Option.bind_eq_some_iff.mp htotal
      have hheld := held_of_pointOf hma exists_held_of_totalQuantity hp
      rw [(h d hd).totalPoint_eq hma hheld] at hpoint
      refine ChartReads.mem_series.mpr ⟨d, hd, List.mem_append_left _ (List.mem_filterMap.mpr ?_)⟩
      refine ⟨⟨market_code, ma.currencyCode⟩, ?_, (ChartReads.assetPoint_eq _).trans hpoint⟩
      rw [assetsOf_eq hma, (h d hd).asset hheld]
      exact List.mem_singleton_self _
    · intro hmanual point hpoint
      obtain ⟨d, hd, hon⟩ := ChartReads.mem_series.mp hpoint
      obtain rfl := ChartReads.pointsOn_date hon
      refine ⟨hd, ?_⟩
      unfold ChartReads.pointsOn at hon
      rw [hmanual, List.filterMap_nil, List.append_nil] at hon
      have hheld : s.Held z profile_id market_code point.date := by
        by_contra hno
        rw [points_of_not_held hno] at hon
        cases hon
      obtain ⟨ma, p, hma, hp, hpoints⟩ := hheld.points display_currency
      rw [hpoints] at hon
      rw [(h _ hd).totalPoint_eq hma hheld, hp, List.eq_of_mem_replicate hon]

/-- The chart has one point a date for a market code, of all that is held of it, if and only if one asset
gives the code its points. -/
theorem chart_sound_iff {c : ChartCall} {response : PortfolioValueChartResponse}
    (hchart : s.portfolioValueChart z profile_id c = .ok response)
    (hdates : chartDates ((s.chartReads z profile_id).startOf c) (ChartReads.endOf c) = .ok dates)
    (market_code : String) :
    s.SoundPoints z profile_id c.displayCurrency dates market_code (response.pointsOf market_code) ↔
      ∀ d ∈ dates, s.OneSource z profile_id dates market_code d := by
  unfold portfolioValueChart ChartReads.chart at hchart
  rw [hdates] at hchart
  obtain rfl := Except.ok.inj hchart
  rw [ChartReads.pointsOf_eq]
  exact soundPoints_iff (ChartReads.nodup_chartDates hdates)

end Store

/-! ## Two accounts with one fund -/

namespace Sample

def purchaseOf (id : ℕ) (units : ℚ) : Owned Transaction :=
  ⟨some 0, { timestamp := 0, type := .investmentBuy, entityId := 0, currency := eur,
             portfolioAssetId := some id, quantity := some units }⟩

/-- Of a fund at 10, three units are bought under the first asset and two under the second. -/
def fundHolder (assets : Table (Owned PortfolioAsset)) : Store :=
  { Store.empty with
    currencies := [⟨eur, eur, 1, ⟨0, none⟩⟩]
    profiles := Table.empty.insert { name := "Ana" }
    marketAssets := [{ marketCode := "fund", assetType := .fund, currencyCode := eur }]
    portfolioAssets := assets
    transactions := (Table.empty.insert (purchaseOf 0 3)).insert (purchaseOf 1 2)
    prices := [⟨"fund", 0, 10⟩] }

def oneAsset : Table (Owned PortfolioAsset) := Table.empty.insert ⟨some 0, { marketCode := "fund" }⟩

def twoAssets : Table (Owned PortfolioAsset) := oneAsset.insert ⟨some 0, { marketCode := "fund" }⟩

theorem firstMonth_mem : 1 ≤ (1 : ℤ) ∧ (1 : ℤ) ≤ 12 := by decide

theorem firstDay_mem : 1 ≤ (1 : ℤ) ∧ (1 : ℤ) ≤ Calendar.monthLength 1970 1 := by decide

/-- The chart of the first day with a price. -/
def firstDay : ChartCall where
  today := ⟨1970, 1, 1, firstMonth_mem, firstDay_mem⟩

/-- Two points of the last asset, in place of one of both. -/
theorem fund_twice : ¬ ∀ (s : Store) (z : Zones) (profile_id : ℕ) (c : ChartCall)
    (response : PortfolioValueChartResponse) (dates : List ℤ), s.portfolioValueChart z profile_id c = .ok response →
    chartDates ((s.chartReads z profile_id).startOf c) (ChartReads.endOf c) = .ok dates →
    ∀ market_code, s.SoundPoints z profile_id c.displayCurrency dates market_code
      (response.pointsOf market_code) := by
  intro h
  have hchart : (fundHolder twoAssets).portfolioValueChart zones 0 firstDay =
      .ok ⟨[("fund", [⟨0, 20, false⟩, ⟨0, 20, false⟩])], []⟩ := by decide +kernel
  have hsound := h _ zones 0 firstDay _ [0] hchart (by decide +kernel) "fund"
  exact absurd hsound.unique (by decide)

theorem fund_once : (fundHolder oneAsset).SoundPoints zones 0 none [0] "fund" [⟨0, 30, false⟩] := by
  have hchart : (fundHolder oneAsset).portfolioValueChart zones 0 firstDay =
      .ok ⟨[("fund", [⟨0, 30, false⟩])], []⟩ := by decide +kernel
  have hdates : chartDates (((fundHolder oneAsset).chartReads zones 0).startOf firstDay)
      (ChartReads.endOf firstDay) = .ok [0] := by decide +kernel
  refine (Store.chart_sound_iff hchart hdates "fund").mpr fun d hd => ?_
  obtain rfl := List.mem_singleton.mp hd
  exact ⟨fun _ => by decide +kernel, fun _ => by decide +kernel, by decide +kernel⟩

end Sample

end FinHub
