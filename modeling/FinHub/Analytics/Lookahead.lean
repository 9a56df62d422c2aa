import FinHub.Analytics.Additions
import FinHub.Schedules.Calendars

/-!
# FinHub.Analytics.Lookahead

When the value at a date of the history stays as later rows are added.

The rows read as of the date stay. What a call collects once for all its dates does not: the price of the
latest purchase, which stands in for a position without a stored price, and the latest rate of each currency.
`noLookahead_iff` says when neither shows.
-/

namespace FinHub

open Tabular Worth

/-! ## What is read as of a date -/

section AsOf

variable {s : Ledger} {m : Market} {a : Additions} {d : ℤ}

theorem Market.getPriceAsOf_withAdditions (h : a.After d) (market_code : String) :
    (m.withAdditions a).getPriceAsOf market_code (Time.endOfDay d) =
      m.getPriceAsOf market_code (Time.endOfDay d) := by
  unfold Market.getPriceAsOf Market.withAdditions
  rw [filter_append_of_false]
  intro p hp
  have hlate := endOfDay_lt_of_lt_dayOf (h.prices p hp)
  simp [not_le.mpr hlate]

theorem Market.getManualValueAsOf_withAdditions (h : a.After d) (portfolio_asset_id : ℕ) :
    (m.withAdditions a).getManualValueAsOf portfolio_asset_id d =
      m.getManualValueAsOf portfolio_asset_id d := by
  unfold Market.getManualValueAsOf Market.withAdditions
  rw [filter_append_of_false]
  intro v hv
  have hlate := h.manualValues v hv
  simp [not_le.mpr hlate]

namespace Ledger

theorem getManualTrackedAssets_withAdditions (h : a.After d) :
    (s.withAdditions a).getManualTrackedAssets (m.withAdditions a) = s.getManualTrackedAssets m := by
  unfold getManualTrackedAssets
  rw [(addsAfter_withAdditions h).portfolioAssets]
  rfl

theorem getNetPositionsAsOf_withAdditions (h : a.After d) (entity_id : Option ℕ) :
    (s.withAdditions a).getNetPositionsAsOf (m.withAdditions a) (Time.endOfDay d) entity_id =
      s.getNetPositionsAsOf m (Time.endOfDay d) entity_id :=
  (addsAfter_withAdditions h).getNetPositionsAsOf_eq m entity_id

theorem marketPositions_withAdditions (h : a.After d) (entity_id : Option ℕ) :
    (s.withAdditions a).marketPositions (m.withAdditions a) entity_id d = s.marketPositions m entity_id d := by
  unfold marketPositions ValuationReads.marketPositions valuationReads
  simp only [getNetPositionsAsOf_withAdditions h, getManualTrackedAssets_withAdditions h]

theorem manualEntries_withAdditions (h : a.After d) :
    (s.withAdditions a).manualEntries (m.withAdditions a) d = s.manualEntries m d := by
  unfold manualEntries ValuationReads.manualEntries valuationReads
  simp only [getManualTrackedAssets_withAdditions h, Market.getManualValueAsOf_withAdditions h]

theorem cashAsOf_withAdditions (h : a.After d) (entity_id : Option ℕ) :
    (s.withAdditions a).cashAsOf entity_id (Time.endOfDay d) = s.cashAsOf entity_id (Time.endOfDay d) :=
  (addsAfter_withAdditions h).cashAsOf_eq entity_id

theorem currenciesAsOf_withAdditions (h : a.After d) (entity_id : Option ℕ) :
    (s.withAdditions a).currenciesAsOf (m.withAdditions a) entity_id d = s.currenciesAsOf m entity_id d := by
  unfold currenciesAsOf ValuationReads.currenciesAsOf valuationReads
  simp only [cashAsOf_withAdditions h, getNetPositionsAsOf_withAdditions h]

end Ledger

end AsOf

/-! ## The value of a date -/

namespace Ledger

variable {s : Ledger} {m : Market} {ctx : ValueContext} {entity_id : Option ℕ} {d : ℤ}

/-- The positions of a date that have a stored price by then. -/
def pricedEntries (s : Ledger) (m : Market) (entity_id : Option ℕ) (d : ℤ) : List (Currency × ℚ) :=
  (s.marketPositions m entity_id d).filterMap fun pos =>
    (m.getPriceAsOf pos.marketCode (Time.endOfDay d)).map fun price =>
      (pos.currencyCode, pos.netQuantity * price.price)

theorem positionEntries_of_priced (h : ∀ pos ∈ s.marketPositions m entity_id d,
    ∃ price, m.getPriceAsOf pos.marketCode (Time.endOfDay d) = some price) :
    s.positionEntries m ctx entity_id d = s.pricedEntries m entity_id d := by
  unfold positionEntries ValuationReads.positionEntries pricedEntries
  refine List.filterMap_congr fun pos hpos => ?_
  obtain ⟨price, hprice⟩ := h pos hpos
  simp [ValuationReads.priceAsOf, valuationReads, hprice]

/-- The worth of a date's investments before rounding. -/
def investmentWorth (s : Ledger) (m : Market) (ctx : ValueContext) (entity_id : Option ℕ) (d : ℤ) : ℚ :=
  worth ctx.rateOf (s.positionEntries m ctx entity_id d)

/-- The worth of all a date has before rounding. -/
def totalWorth (s : Ledger) (m : Market) (ctx : ValueContext) (entity_id : Option ℕ) (d : ℤ)
    (cash : Tally Currency) : ℚ :=
  worth ctx.rateOf (s.positionEntries m ctx entity_id d ++ s.manualEntries m d ++ cash)

theorem valuePoint_eq_ok {p : HistoricalValuePoint} : s.valuePoint m ctx entity_id d = .ok p ↔
    ∃ cash, s.cashAsOf entity_id (Time.endOfDay d) = some cash ∧
      p = ⟨d, Decimal.roundTo 4 (s.totalWorth m ctx entity_id d cash),
        Decimal.roundTo 4 (s.investmentWorth m ctx entity_id d)⟩ := by
  unfold valuePoint ValuationReads.valuePoint
  rw [show (s.valuationReads m entity_id).cash (Time.endOfDay d) = s.cashAsOf entity_id (Time.endOfDay d) from rfl]
  cases s.cashAsOf entity_id (Time.endOfDay d) with
  | none => simp
  | some cash =>
    have htotal : s.totalWorth m ctx entity_id d cash =
        worth ctx.rateOf (s.positionEntries m ctx entity_id d) + worth ctx.rateOf (s.manualEntries m d) +
          worth ctx.rateOf cash := by
      rw [totalWorth, worth_append, worth_append]
    simp only [Option.some.injEq, exists_eq_left', htotal]
    exact ⟨fun h => (Except.ok.inj h).symm, fun h => congrArg Except.ok h.symm⟩

end Ledger

/-! ## What a call collects -/

/-- The currencies of the positions and of the cash at the dates of a call. -/
def Collects (s : Ledger) (m : Market) (entity_id : Option ℕ) (dates : List ℤ) (cur : Currency) : Prop :=
  ∃ d ∈ dates, ∃ currencies, s.currenciesAsOf m entity_id d = .ok currencies ∧ cur ∈ currencies

namespace Ledger

variable {s : Ledger} {m : Market} {entity_id : Option ℕ} {dates : List ℤ} {display : Currency}

/-- A currency is looked up once for each place it was found in, always to the same rate. -/
theorem lookup_rates {currencies : List Currency} {found : List (Option (Currency × ℚ))}
    (h : List.Forall₂ (fun cur r => (s.latestRateTo display cur).map
      (fun rate => rate.map fun rate => (cur, rate)) = .ok r) currencies found) (cur : Currency) :
    (cur ∉ currencies → (found.filterMap id).lookup cur = none) ∧
      ∀ rate, cur ∈ currencies → s.latestRateTo display cur = .ok rate →
        (found.filterMap id).lookup cur = rate := by
  induction h with
  | nil => simp
  | @cons first r rest found hfirst _ ih =>
    obtain ⟨rate₀, hrate₀, hr⟩ := Runs.map_eq_ok.mp hfirst
    subst hr
    obtain ⟨hmissing, hfound⟩ := ih
    have htail : ∀ rate, s.latestRateTo display cur = .ok rate → (cur = first → rate = none) →
        cur ∈ first :: rest → (found.filterMap id).lookup cur = rate := by
      intro rate hrate hnone hmem
      by_cases hrest : cur ∈ rest
      · exact hfound rate hrest hrate
      · have hhead : cur = first := (List.mem_cons.mp hmem).resolve_right hrest
        rw [hmissing hrest, hnone hhead]
    cases rate₀ with
    | none =>
      simp only [Option.map_none, List.filterMap_cons, id]
      refine ⟨fun hno => hmissing fun hmem => hno (List.mem_cons_of_mem _ hmem), fun rate hmem hrate => ?_⟩
      refine htail rate hrate (fun hhead => ?_) hmem
      rw [hhead, hrate₀] at hrate
      exact (Except.ok.inj hrate).symm
    | some x =>
      simp only [Option.map_some, List.filterMap_cons, id, List.lookup_cons]
      by_cases hhead : cur = first
      · subst hhead
        simp only [beq_self_eq_true]
        refine ⟨fun hno => absurd List.mem_cons_self hno, fun rate _ hrate => ?_⟩
        rw [hrate₀] at hrate
        exact Except.ok.inj hrate
      · have hbeq : (cur == first) = false := beq_eq_false_iff_ne.mpr hhead
        rw [hbeq]
        refine ⟨fun hno => hmissing fun hmem => hno (List.mem_cons_of_mem _ hmem), fun rate hmem hrate => ?_⟩
        exact htail rate hrate (fun he => absurd he hhead) hmem

/-- A call that collects its rates, and the rates it collects. -/
theorem rateCache_eq_ok {rates : List (Currency × ℚ)}
    (h : s.rateCache m entity_id display dates = .ok rates) :
    (∀ d ∈ dates, ∃ currencies, s.currenciesAsOf m entity_id d = .ok currencies) ∧
      ∀ cur, cur ≠ display →
        (Collects s m entity_id dates cur → ∃ rate, s.latestRateTo display cur = .ok rate) ∧
        (¬ Collects s m entity_id dates cur → rates.lookup cur = none) ∧
        ∀ rate, Collects s m entity_id dates cur → s.latestRateTo display cur = .ok rate →
          rates.lookup cur = rate := by
  obtain ⟨currencies, hcurrencies, h⟩ := Runs.bind_eq_ok.mp h
  obtain ⟨found, hfound, h⟩ := Runs.bind_eq_ok.mp h
  cases h
  obtain ⟨hforth, hback⟩ := Runs.exists_mem_of_mapM hcurrencies
  refine ⟨fun d hd => ?_, fun cur hcur => ?_⟩
  · obtain ⟨cs, _, hcs⟩ := hforth d hd
    exact ⟨cs, hcs⟩
  have hmem : cur ∈ currencies.flatten.filter (fun cur => decide (cur ≠ display)) ↔
      Collects s m entity_id dates cur := by
    rw [List.mem_filter, List.mem_flatten, decide_eq_true_eq]
    constructor
    · intro ⟨⟨cs, hcs, hmem⟩, _⟩
      obtain ⟨d, hd, hdcs⟩ := hback cs hcs
      exact ⟨d, hd, cs, hdcs, hmem⟩
    · intro ⟨d, hd, cs, hdcs, hmem⟩
      obtain ⟨cs', hcs', hdcs'⟩ := hforth d hd
      cases hdcs.symm.trans hdcs'
      exact ⟨⟨cs, hcs', hmem⟩, hcur⟩
  have hlookup := lookup_rates (Runs.mapM_eq_ok.mp hfound) cur
  rw [hmem] at hlookup
  refine ⟨fun hcollects => ?_, hlookup.1, hlookup.2⟩
  obtain ⟨r, _, hr⟩ := (Runs.exists_mem_of_mapM hfound).1 cur (hmem.mpr hcollects)
  obtain ⟨rate, hrate, _⟩ := Runs.map_eq_ok.mp hr
  exact ⟨rate, hrate⟩

/-- Where the currencies are read and their lookups answer, the rates are collected. -/
theorem exists_rateCache (hcurrencies : ∀ d ∈ dates, ∃ cs, s.currenciesAsOf m entity_id d = .ok cs)
    (hrates : ∀ cur, cur ≠ display → Collects s m entity_id dates cur →
      ∃ rate, s.latestRateTo display cur = .ok rate) :
    ∃ rates, s.rateCache m entity_id display dates = .ok rates := by
  obtain ⟨currencies, hread⟩ := Runs.exists_mapM_iff.mpr hcurrencies
  have hback := (Runs.exists_mem_of_mapM hread).2
  have hfound : ∀ cur ∈ currencies.flatten.filter (fun cur => decide (cur ≠ display)),
      ∃ r, (s.latestRateTo display cur).map (fun rate => rate.map fun rate => (cur, rate)) = .ok r := by
    intro cur hcur
    rw [List.mem_filter, List.mem_flatten, decide_eq_true_eq] at hcur
    obtain ⟨⟨cs, hcs, hmem⟩, hne⟩ := hcur
    obtain ⟨d, hd, hdcs⟩ := hback cs hcs
    obtain ⟨rate, hrate⟩ := hrates cur hne ⟨d, hd, cs, hdcs, hmem⟩
    exact ⟨_, Runs.map_eq_ok.mpr ⟨rate, hrate, rfl⟩⟩
  obtain ⟨found, hfound⟩ := Runs.exists_mapM_iff.mpr hfound
  exact ⟨found.filterMap id, Runs.bind_eq_ok.mpr ⟨currencies, hread,
    Runs.bind_eq_ok.mpr ⟨found, hfound, rfl⟩⟩⟩

end Ledger

/-! ## Calls -/

namespace Ledger

variable {s : Ledger} {m : Market} {c : HistoricalCall} {dates : List ℤ} {ctx : ValueContext}

theorem valueContext_of_none (h : c.displayCurrency = none) : s.valueContext m c dates =
    .ok ⟨none, [], fun market_code => (s.getLatestTransactionPrice m market_code).map Prod.fst⟩ := by
  unfold valueContext ValuationReads.valueContext
  rw [h]
  rfl

theorem valueContext_of_some {display : Currency} (h : c.displayCurrency = some display) :
    s.valueContext m c dates = .ok ctx ↔ ∃ rates, s.rateCache m c.entityId display dates = .ok rates ∧
      ctx = ⟨some display, rates, fun market_code => (s.getLatestTransactionPrice m market_code).map Prod.fst⟩ := by
  unfold valueContext ValuationReads.valueContext
  rw [h]
  simp only [Runs.bind_eq_ok]
  refine exists_congr fun rates => and_congr_right fun _ => ?_
  exact ⟨fun he => (Except.ok.inj he).symm, fun he => congrArg Except.ok he.symm⟩

/-- The fallback of every context. -/
theorem txFallback_of_valueContext (h : s.valueContext m c dates = .ok ctx) :
    ctx.txFallback = fun market_code => (s.getLatestTransactionPrice m market_code).map Prod.fst := by
  cases hdisplay : c.displayCurrency with
  | none =>
    rw [valueContext_of_none hdisplay] at h
    cases h
    rfl
  | some display =>
    obtain ⟨rates, _, rfl⟩ := (valueContext_of_some hdisplay).mp h
    rfl

/-- A currency is converted only if the call collects it. -/
theorem rateOf_eq_one (h : s.valueContext m c dates = .ok ctx) {cur : Currency}
    (hcur : ∀ display, c.displayCurrency = some display → cur ≠ display →
      ¬ Collects s m c.entityId dates cur) : ctx.rateOf cur = 1 := by
  cases hdisplay : c.displayCurrency with
  | none =>
    rw [valueContext_of_none hdisplay] at h
    cases h
    rfl
  | some display =>
    obtain ⟨rates, hrates, rfl⟩ := (valueContext_of_some hdisplay).mp h
    by_cases hsame : cur = display
    · simp [ValueContext.rateOf, hsame]
    · have hnone := ((rateCache_eq_ok hrates).2 cur hsame).2.1 (hcur display hdisplay hsame)
      simp [ValueContext.rateOf, hsame, hnone]

theorem rateOf_of_collects {display cur : Currency} (h : s.valueContext m c dates = .ok ctx)
    (hdisplay : c.displayCurrency = some display) (hne : cur ≠ display)
    (hcollects : Collects s m c.entityId dates cur) {rate : Option ℚ}
    (hrate : s.latestRateTo display cur = .ok rate) : ctx.rateOf cur = rate.getD 1 := by
  obtain ⟨rates, hrates, rfl⟩ := (valueContext_of_some hdisplay).mp h
  have hlookup := ((rateCache_eq_ok hrates).2 cur hne).2.2 rate hcollects hrate
  simp [ValueContext.rateOf, hne, hlookup]

/-- The point of a date in the answer of a call. -/
theorem exists_valuePoint_of_mem {points : List HistoricalValuePoint}
    (h : s.getHistoricalValues m c = .ok points) {p : HistoricalValuePoint} (hp : p ∈ points) :
    ∃ dates ctx, c.dates = .ok dates ∧ s.valueContext m c dates = .ok ctx ∧ p.date ∈ dates ∧
      s.valuePoint m ctx c.entityId p.date = .ok p := by
  obtain ⟨dates, hdates, h⟩ := Runs.bind_eq_ok.mp h
  obtain ⟨ctx, hctx, hpoints⟩ := Runs.bind_eq_ok.mp h
  obtain ⟨d, hd, hpoint⟩ := (Runs.exists_mem_of_mapM hpoints).2 p hp
  have hdate : p.date = d := by
    obtain ⟨cash, _, rfl⟩ := valuePoint_eq_ok.mp hpoint
    rfl
  rw [← hdate] at hd hpoint
  exact ⟨dates, ctx, hdates, hctx, hd, hpoint⟩

theorem withAdditions_nil : s.withAdditions {} = s := by
  simp [withAdditions]

end Ledger

theorem Market.withAdditions_nil (m : Market) : m.withAdditions {} = m := by
  simp [Market.withAdditions]

/-! ## No lookahead -/

section Lookahead

variable (s : Ledger) (m : Market) (c : HistoricalCall) (d : ℤ)

/-- The call reports the same value at the date, whatever rows of later dates are added. -/
def NoLookahead : Prop :=
  ∀ a : Additions, a.After d → ∀ points points', s.getHistoricalValues m c = .ok points →
    (s.withAdditions a).getHistoricalValues (m.withAdditions a) c = .ok points' →
      ∀ p ∈ points, ∀ p' ∈ points', p.date = d → p'.date = d → p' = p

/-- The call looks up a rate for the currency, now or once rows of later dates are added. -/
def Converts (cur : Currency) : Prop :=
  (∃ display, c.displayCurrency = some display ∧ cur ≠ display) ∧
    ∃ a : Additions, a.After d ∧
      (∃ points, (s.withAdditions a).getHistoricalValues (m.withAdditions a) c = .ok points) ∧
      ∃ dates, c.dates = .ok dates ∧
        Collects (s.withAdditions a) (m.withAdditions a) c.entityId dates cur

/-- Every position of the date has a stored price by then, and the amounts that a rate applies to cancel. -/
structure Undisturbed : Prop where
  priced : ∀ pos ∈ s.marketPositions m c.entityId d,
    ∃ price, m.getPriceAsOf pos.marketCode (Time.endOfDay d) = some price
  settled : ∀ cash, s.cashAsOf c.entityId (Time.endOfDay d) = some cash → ∀ cur, Converts s m c d cur →
    amountOf cur (s.pricedEntries m c.entityId d) = 0 ∧
      amountOf cur (s.pricedEntries m c.entityId d ++ s.manualEntries m d ++ cash) = 0

variable {s m c d}

theorem noLookahead_of_undisturbed (h : Undisturbed s m c d) : NoLookahead s m c d := by
  intro a ha points points' hpoints hpoints' p hp p' hp' hdate hdate'
  obtain ⟨dates, ctx, hdates, hctx, -, hpoint⟩ := Ledger.exists_valuePoint_of_mem hpoints hp
  obtain ⟨dates', ctx', hdates', hctx', -, hpoint'⟩ := Ledger.exists_valuePoint_of_mem hpoints' hp'
  rw [hdates] at hdates'
  cases hdates'
  rw [hdate] at hpoint
  rw [hdate'] at hpoint'
  obtain ⟨cash, hcash, hp⟩ := Ledger.valuePoint_eq_ok.mp hpoint
  obtain ⟨cash', hcash', hp'⟩ := Ledger.valuePoint_eq_ok.mp hpoint'
  rw [Ledger.cashAsOf_withAdditions ha, hcash] at hcash'
  cases hcash'
  -- the same priced positions in both databases
  have hpriced' : ∀ pos ∈ (s.withAdditions a).marketPositions (m.withAdditions a) c.entityId d,
      ∃ price, (m.withAdditions a).getPriceAsOf pos.marketCode (Time.endOfDay d) = some price := by
    intro pos hpos
    rw [Ledger.marketPositions_withAdditions ha] at hpos
    rw [Market.getPriceAsOf_withAdditions ha]
    exact h.priced pos hpos
  have hentries : (s.withAdditions a).pricedEntries (m.withAdditions a) c.entityId d =
      s.pricedEntries m c.entityId d := by
    unfold Ledger.pricedEntries
    simp only [Ledger.marketPositions_withAdditions ha, Market.getPriceAsOf_withAdditions ha]
  -- a rate that differs is a rate of a currency that is converted
  have hconverts : ∀ cur, ctx'.rateOf cur ≠ ctx.rateOf cur → Converts s m c d cur := by
    intro cur hne
    by_contra hno
    refine hne ?_
    have hnot : ∀ b : Additions, b.After d → ∀ points,
        (s.withAdditions b).getHistoricalValues (m.withAdditions b) c = .ok points →
        ∀ display, c.displayCurrency = some display → cur ≠ display →
          ¬ Collects (s.withAdditions b) (m.withAdditions b) c.entityId dates cur := by
      intro b hb points hrun display hdisplay hcur hcollects
      exact hno ⟨⟨display, hdisplay, hcur⟩, b, hb, ⟨points, hrun⟩, dates, hdates, hcollects⟩
    have hempty : Additions.After {} d := ⟨by simp, by simp, by simp, by simp⟩
    have hbase := hnot {} hempty points
    rw [Ledger.withAdditions_nil, Market.withAdditions_nil] at hbase
    rw [Ledger.rateOf_eq_one hctx' (hnot a ha points' hpoints'), Ledger.rateOf_eq_one hctx (hbase hpoints)]
  have hinvestment : (s.withAdditions a).investmentWorth (m.withAdditions a) ctx' c.entityId d =
      s.investmentWorth m ctx c.entityId d := by
    unfold Ledger.investmentWorth
    rw [Ledger.positionEntries_of_priced hpriced', Ledger.positionEntries_of_priced h.priced, hentries]
    exact worth_congr fun cur hne => (h.settled cash hcash cur (hconverts cur hne)).1
  have htotal : (s.withAdditions a).totalWorth (m.withAdditions a) ctx' c.entityId d cash =
      s.totalWorth m ctx c.entityId d cash := by
    unfold Ledger.totalWorth
    rw [Ledger.positionEntries_of_priced hpriced', Ledger.positionEntries_of_priced h.priced, hentries,
      Ledger.manualEntries_withAdditions ha]
    exact worth_congr fun cur hne => (h.settled cash hcash cur (hconverts cur hne)).2
  rw [hp, hp', hinvestment, htotal]

end Lookahead

/-! ## Rows after all dates of a call -/

theorem exists_late (days instants : List ℤ) :
    ∃ w : Timestamp, (∀ e ∈ days, e < Time.dayOf w) ∧ ∀ t ∈ instants, t < w := by
  have hbound : ∀ l : List ℤ, ∃ w : ℤ, ∀ x ∈ l, x < w := by
    intro l
    induction l with
    | nil => exact ⟨0, by simp⟩
    | cons x l ih =>
      obtain ⟨w, hw⟩ := ih
      refine ⟨max (x + 1) w, List.forall_mem_cons.mpr ⟨?_, fun y hy => ?_⟩⟩
      · exact lt_of_lt_of_le (lt_add_one x) (le_max_left _ _)
      · exact lt_of_lt_of_le (hw y hy) (le_max_right _ _)
  obtain ⟨w, hw⟩ := hbound (instants ++ days.map fun e => Time.startOfDay (e + 1))
  obtain ⟨hinstants, hdays⟩ := List.forall_mem_append.mp hw
  refine ⟨w, fun e he => ?_, hinstants⟩
  have hlt := hdays _ (List.mem_map_of_mem he)
  have hday := Time.dayOf_mono hlt.le
  rw [Time.dayOf_startOfDay] at hday
  omega

section Far

variable {s : Ledger} {m : Market} {c : HistoricalCall} {dates : List ℤ} {b : Additions}

theorem collects_withAdditions (hfar : ∀ e ∈ dates, b.After e) (entity_id : Option ℕ) (cur : Currency) :
    Collects (s.withAdditions b) (m.withAdditions b) entity_id dates cur ↔
      Collects s m entity_id dates cur := by
  unfold Collects
  refine exists_congr fun e => and_congr_right fun he => ?_
  rw [Ledger.currenciesAsOf_withAdditions (hfar e he)]

/-- A call answers over late rows as long as its lookups do. -/
theorem exists_run_withAdditions {points : List HistoricalValuePoint}
    (hrun : s.getHistoricalValues m c = .ok points) (hdates : c.dates = .ok dates)
    (hfar : ∀ e ∈ dates, b.After e)
    (hrates : ∀ display, c.displayCurrency = some display → ∀ cur, cur ≠ display →
      Collects s m c.entityId dates cur → ∃ rate, (s.withAdditions b).latestRateTo display cur = .ok rate) :
    ∃ points', (s.withAdditions b).getHistoricalValues (m.withAdditions b) c = .ok points' := by
  obtain ⟨dates', hdates', hrun⟩ := Runs.bind_eq_ok.mp hrun
  rw [hdates] at hdates'
  cases hdates'
  obtain ⟨ctx, hctx, hpoints⟩ := Runs.bind_eq_ok.mp hrun
  have hctx' : ∃ ctx', (s.withAdditions b).valueContext (m.withAdditions b) c dates = .ok ctx' := by
    cases hdisplay : c.displayCurrency with
    | none => exact ⟨_, Ledger.valueContext_of_none hdisplay⟩
    | some display =>
      obtain ⟨rates, hcache, _⟩ := (Ledger.valueContext_of_some hdisplay).mp hctx
      obtain ⟨rates', hcache'⟩ : ∃ rates', (s.withAdditions b).rateCache (m.withAdditions b) c.entityId
          display dates = .ok rates' := by
        refine Ledger.exists_rateCache (fun e he => ?_) fun cur hcur hcollects => ?_
        · rw [Ledger.currenciesAsOf_withAdditions (hfar e he)]
          exact (Ledger.rateCache_eq_ok hcache).1 e he
        · exact hrates display hdisplay cur hcur ((collects_withAdditions hfar _ _).mp hcollects)
      exact ⟨_, (Ledger.valueContext_of_some hdisplay).mpr ⟨rates', hcache', rfl⟩⟩
  obtain ⟨ctx', hctx'⟩ := hctx'
  have hpoints' : ∀ e ∈ dates, ∃ p, (s.withAdditions b).valuePoint (m.withAdditions b) ctx' c.entityId e =
      .ok p := by
    intro e he
    obtain ⟨p, _, hp⟩ := (Runs.exists_mem_of_mapM hpoints).1 e he
    obtain ⟨cash, hcash, _⟩ := Ledger.valuePoint_eq_ok.mp hp
    rw [← Ledger.cashAsOf_withAdditions (hfar e he)] at hcash
    exact ⟨_, Ledger.valuePoint_eq_ok.mpr ⟨cash, hcash, rfl⟩⟩
  obtain ⟨points', hpoints'⟩ := Runs.exists_mapM_iff.mpr hpoints'
  exact ⟨points', Runs.bind_eq_ok.mpr ⟨dates, hdates, Runs.bind_eq_ok.mpr ⟨ctx', hctx', hpoints'⟩⟩⟩

/-- A currency whose latest rate stays is converted at the rate it was. -/
theorem rateOf_withAdditions {ctx ctx' : ValueContext} (hctx : s.valueContext m c dates = .ok ctx)
    (hctx' : (s.withAdditions b).valueContext (m.withAdditions b) c dates = .ok ctx')
    (hfar : ∀ e ∈ dates, b.After e) {cur : Currency}
    (hsame : ∀ display, c.displayCurrency = some display → cur ≠ display →
      (s.withAdditions b).latestRateTo display cur = s.latestRateTo display cur) :
    ctx'.rateOf cur = ctx.rateOf cur := by
  by_cases hcur : ∃ display, c.displayCurrency = some display ∧ cur ≠ display ∧
      Collects s m c.entityId dates cur
  · obtain ⟨display, hdisplay, hne, hcollects⟩ := hcur
    obtain ⟨rates, hcache, _⟩ := (Ledger.valueContext_of_some hdisplay).mp hctx
    obtain ⟨rate, hrate⟩ := ((Ledger.rateCache_eq_ok hcache).2 cur hne).1 hcollects
    have hrate' := (hsame display hdisplay hne).trans hrate
    have hcollects' := (collects_withAdditions (m := m) hfar c.entityId cur).mpr hcollects
    rw [Ledger.rateOf_of_collects hctx' hdisplay hne hcollects' hrate',
      Ledger.rateOf_of_collects hctx hdisplay hne hcollects hrate]
  · have hno : ∀ display, c.displayCurrency = some display → cur ≠ display →
        ¬ Collects s m c.entityId dates cur :=
      fun display hdisplay hne hcollects => hcur ⟨display, hdisplay, hne, hcollects⟩
    rw [Ledger.rateOf_eq_one hctx hno, Ledger.rateOf_eq_one hctx']
    intro display hdisplay hne hcollects
    exact hno display hdisplay hne ((collects_withAdditions hfar _ _).mp hcollects)

end Far

/-! ### A rate that is set -/

/-- A row that makes the latest rate of a currency what one likes. -/
def rateRow (cur display : Currency) (rate : ℚ) (w : Timestamp) : CurrencyRate :=
  ⟨cur, display, rate, ⟨w, none⟩⟩

namespace Ledger

variable {s : Ledger} {b : Additions} {cur display : Currency} {rate : ℚ} {w : Timestamp}

theorem latestRateTo_rateRow (hb : b.currencies = [rateRow cur display rate w])
    (hw : ∀ r ∈ s.currencies, r.timestamp.wall < w) :
    (s.withAdditions b).latestRateTo display cur = .ok (some rate) := by
  have hexists : (s.withAdditions b).pairExists cur display = true := by
    simp [pairExists, hb, rateRow]
  have hlatest : (s.withAdditions b).getLatestRate cur display = some (rateRow cur display rate w) := by
    unfold getLatestRate
    rw [withAdditions_currencies, hb, List.filter_append]
    have hlast : [rateRow cur display rate w].filter (fun r => decide (r.code = cur) &&
        decide (r.baseCode = display)) = [rateRow cur display rate w] := by
      simp [rateRow]
    rw [hlast, List.argmax_concat]
    cases hmax : (s.currencies.filter fun r => decide (r.code = cur) && decide (r.baseCode = display)).argmax
        (fun r => r.timestamp.textKey) with
    | none => rfl
    | some r =>
      have hr := hw r (List.mem_filter.mp (List.argmax_mem hmax)).1
      have hlt : r.timestamp.textKey < (rateRow cur display rate w).timestamp.textKey :=
        Prod.Lex.toLex_lt_toLex.mpr (.inl hr)
      simp only [if_pos hlt]
  unfold latestRateTo rateResponse resolveDirection
  simp only [hexists, if_true, hlatest]
  rfl

/-- The rates of other currencies stay. -/
theorem latestRateTo_of_ne {cur' : Currency} (hb : b.currencies = [rateRow cur display rate w])
    (hne : cur ≠ display) (hcur : cur' ≠ cur) :
    (s.withAdditions b).latestRateTo display cur' = s.latestRateTo display cur' := by
  have hfilter : ∀ code base_code, (code = cur' ∧ base_code = display ∨ code = display ∧ base_code = cur') →
      (decide ((rateRow cur display rate w).code = code) &&
        decide ((rateRow cur display rate w).baseCode = base_code)) = false := by
    intro code base_code hpair
    rcases hpair with ⟨rfl, rfl⟩ | ⟨rfl, rfl⟩
    · simp [rateRow, Ne.symm hcur]
    · simp [rateRow, hne]
  have hexists : ∀ code base_code, (code = cur' ∧ base_code = display ∨ code = display ∧ base_code = cur') →
      (s.withAdditions b).pairExists code base_code = s.pairExists code base_code := by
    intro code base_code hpair
    simp only [pairExists, withAdditions_currencies, hb, List.any_append, List.any_cons, List.any_nil,
      hfilter code base_code hpair, Bool.or_false]
  have hlatest : ∀ code base_code, (code = cur' ∧ base_code = display ∨ code = display ∧ base_code = cur') →
      (s.withAdditions b).getLatestRate code base_code = s.getLatestRate code base_code := by
    intro code base_code hpair
    unfold getLatestRate
    rw [withAdditions_currencies, hb, filter_append_of_false]
    intro r hr
    rw [List.mem_singleton.mp hr]
    exact hfilter code base_code hpair
  have hdirect := hexists cur' display (.inl ⟨rfl, rfl⟩)
  have hinverse := hexists display cur' (.inr ⟨rfl, rfl⟩)
  unfold latestRateTo rateResponse resolveDirection
  rw [hdirect, hinverse]
  cases s.pairExists cur' display with
  | true => simp [hlatest cur' display (.inl ⟨rfl, rfl⟩)]
  | false =>
    cases s.pairExists display cur' with
    | true => simp [hlatest display cur' (.inr ⟨rfl, rfl⟩)]
    | false => simp

theorem latestRateTo_of_nil (hb : b.currencies = []) (cur' : Currency) :
    (s.withAdditions b).latestRateTo display cur' = s.latestRateTo display cur' := by
  have hcurrencies : (s.withAdditions b).currencies = s.currencies := by
    rw [withAdditions_currencies, hb, List.append_nil]
  unfold latestRateTo rateResponse resolveDirection pairExists getLatestRate
  rw [hcurrencies]

end Ledger

/-! ## Lookahead shows -/

/-- A rounded affine function that does not move has no slope. -/
theorem slope_eq_zero {x k v : ℚ} (h : ∀ r : ℚ, Decimal.roundTo 4 (x + k * r) = v) : k = 0 := by
  by_contra hk
  have hstart := h 0
  have hone := h (1 / k)
  rw [mul_zero, add_zero] at hstart
  rw [mul_one_div_cancel hk, ← hstart] at hone
  exact Decimal.roundTo_add_one_ne (by decide) x hone

namespace Ledger

theorem foldl_insertTransaction_with (txs : List Transaction) (s : Ledger) (rates : List CurrencyRate) :
    txs.foldl insertTransaction { s with currencies := rates } =
      { txs.foldl insertTransaction s with currencies := rates } := by
  induction txs generalizing s with
  | nil => rfl
  | cons t txs ih => exact ih (s.insertTransaction t)

theorem withAdditions_append (s : Ledger) (a b : Additions) :
    (s.withAdditions a).withAdditions b = s.withAdditions (a.append b) := by
  simp only [withAdditions, Additions.append, foldl_insertTransaction_with, List.foldl_append,
    currencies_foldl_insertTransaction, List.append_assoc]

end Ledger

theorem Market.withAdditions_append (m : Market) (a b : Additions) :
    (m.withAdditions a).withAdditions b = m.withAdditions (a.append b) := by
  simp [Market.withAdditions, Additions.append]

section Shows

variable {s : Ledger} {m : Market} {c : HistoricalCall} {d : ℤ} {dates : List ℤ}
  {points : List HistoricalValuePoint} {cash : Tally Currency}

/-- What a call that answers has collected, and its point of a date. -/
theorem exists_context (hrun : s.getHistoricalValues m c = .ok points) (hdates : c.dates = .ok dates) :
    ∃ ctx, s.valueContext m c dates = .ok ctx ∧
      ∀ d ∈ dates, ∃ p ∈ points, s.valuePoint m ctx c.entityId d = .ok p := by
  obtain ⟨dates', hdates', hrun⟩ := Runs.bind_eq_ok.mp hrun
  rw [hdates] at hdates'
  cases hdates'
  obtain ⟨ctx, hctx, hpoints⟩ := Runs.bind_eq_ok.mp hrun
  exact ⟨ctx, hctx, (Runs.exists_mem_of_mapM hpoints).1⟩

/-- What a call without lookahead reports of the date, it reports over all later rows. -/
theorem NoLookahead.worth_eq (h : NoLookahead s m c d) (hrun : s.getHistoricalValues m c = .ok points)
    (hdates : c.dates = .ok dates) (hd : d ∈ dates)
    (hcash : s.cashAsOf c.entityId (Time.endOfDay d) = some cash) :
    ∃ total investment : ℚ, ∀ a : Additions, a.After d → ∀ points' ctx',
      (s.withAdditions a).getHistoricalValues (m.withAdditions a) c = .ok points' →
      (s.withAdditions a).valueContext (m.withAdditions a) c dates = .ok ctx' →
        Decimal.roundTo 4 ((s.withAdditions a).totalWorth (m.withAdditions a) ctx' c.entityId d cash) = total ∧
        Decimal.roundTo 4 ((s.withAdditions a).investmentWorth (m.withAdditions a) ctx' c.entityId d) =
          investment := by
  obtain ⟨ctx, hctx, hpoints⟩ := exists_context hrun hdates
  obtain ⟨p, hp, hpoint⟩ := hpoints d hd
  refine ⟨p.totalValue, p.investmentValue, fun a ha points' ctx' hrun' hctx' => ?_⟩
  obtain ⟨ctx'', hctx'', hpoints'⟩ := exists_context hrun' hdates
  rw [hctx'] at hctx''
  cases hctx''
  obtain ⟨p', hp', hpoint'⟩ := hpoints' d hd
  obtain ⟨_, _, hpeq⟩ := Ledger.valuePoint_eq_ok.mp hpoint
  obtain ⟨cash', hcash', hpeq'⟩ := Ledger.valuePoint_eq_ok.mp hpoint'
  rw [Ledger.cashAsOf_withAdditions ha, hcash] at hcash'
  cases hcash'
  have hsame : p' = p := h a ha points points' hrun hrun' p hp p' hp' (by rw [hpeq]) (by rw [hpeq'])
  rw [← hsame, hpeq']
  exact ⟨rfl, rfl⟩

/-- Later rows set the rate of a currency that a call collects to any rate. -/
theorem exists_setRate {ctx : ValueContext} (hrun : s.getHistoricalValues m c = .ok points)
    (hdates : c.dates = .ok dates) (hctx : s.valueContext m c dates = .ok ctx) {display cur : Currency}
    (hdisplay : c.displayCurrency = some display) (hne : cur ≠ display)
    (hcollects : Collects s m c.entityId dates cur) (d : ℤ) (rate : ℚ) :
    ∃ b : Additions, b.After d ∧ ∃ points' ctx',
      (s.withAdditions b).getHistoricalValues (m.withAdditions b) c = .ok points' ∧
      (s.withAdditions b).valueContext (m.withAdditions b) c dates = .ok ctx' ∧
      ctx'.rateOf = Function.update ctx.rateOf cur rate := by
  obtain ⟨w, hdays, hwalls⟩ := exists_late (d :: dates) (s.currencies.map fun r => r.timestamp.wall)
  obtain ⟨hday, hdays⟩ := List.forall_mem_cons.mp hdays
  rw [List.forall_mem_map] at hwalls
  set b : Additions := { currencies := [rateRow cur display rate w] } with hb
  have hafter : ∀ e, e < Time.dayOf w → b.After e := by
    intro e he
    refine ⟨by simp [hb], ?_, by simp [hb], by simp [hb]⟩
    intro r hr
    rw [List.mem_singleton.mp hr]
    simpa [rateRow, IsoStamp.instant] using he
  have hfar : ∀ e ∈ dates, b.After e := fun e he => hafter e (hdays e he)
  have hself := Ledger.latestRateTo_rateRow (s := s) (b := b) rfl hwalls
  have hother : ∀ cur', cur' ≠ cur →
      (s.withAdditions b).latestRateTo display cur' = s.latestRateTo display cur' :=
    fun cur' hcur' => Ledger.latestRateTo_of_ne rfl hne hcur'
  obtain ⟨points', hrun'⟩ := exists_run_withAdditions hrun hdates hfar (by
    intro display' hdisplay' cur' hcur' hcollects'
    rw [hdisplay] at hdisplay'
    cases hdisplay'
    by_cases hsame : cur' = cur
    · exact ⟨_, hsame ▸ hself⟩
    · obtain ⟨rates, hcache, _⟩ := (Ledger.valueContext_of_some hdisplay).mp hctx
      obtain ⟨rate', hrate'⟩ := ((Ledger.rateCache_eq_ok hcache).2 cur' hcur').1 hcollects'
      exact ⟨rate', (hother cur' hsame).trans hrate'⟩)
  obtain ⟨ctx', hctx', _⟩ := exists_context hrun' hdates
  refine ⟨b, hafter d hday, points', ctx', hrun', hctx', ?_⟩
  funext cur'
  by_cases hsame : cur' = cur
  · have hcollects' := (collects_withAdditions hfar c.entityId cur).mpr hcollects
    rw [hsame, Function.update_self, Ledger.rateOf_of_collects hctx' hdisplay hne hcollects' hself]
    rfl
  · rw [Function.update_of_ne hsame]
    refine rateOf_withAdditions hctx hctx' hfar fun display' hdisplay' _ => ?_
    rw [hdisplay] at hdisplay'
    cases hdisplay'
    exact hother cur' hsame

/-- The amounts that a rate applies to cancel. -/
theorem NoLookahead.settled (h : NoLookahead s m c d) (hrun : s.getHistoricalValues m c = .ok points)
    (hdates : c.dates = .ok dates) (hd : d ∈ dates)
    (hcash : s.cashAsOf c.entityId (Time.endOfDay d) = some cash)
    (hpriced : ∀ pos ∈ s.marketPositions m c.entityId d,
      ∃ price, m.getPriceAsOf pos.marketCode (Time.endOfDay d) = some price)
    {cur : Currency} (hcur : Converts s m c d cur) :
    amountOf cur (s.pricedEntries m c.entityId d) = 0 ∧
      amountOf cur (s.pricedEntries m c.entityId d ++ s.manualEntries m d ++ cash) = 0 := by
  obtain ⟨⟨display, hdisplay, hne⟩, a, ha, ⟨points₁, hrun₁⟩, dates', hdates', hcollects⟩ := hcur
  rw [hdates] at hdates'
  cases hdates'
  obtain ⟨total, investment, hconst⟩ := h.worth_eq hrun hdates hd hcash
  obtain ⟨ctx₁, hctx₁, _⟩ := exists_context hrun₁ hdates
  have hset : ∀ rate, ∃ b : Additions, b.After d ∧ ∃ points₂ ctx₂,
      (s.withAdditions b).getHistoricalValues (m.withAdditions b) c = .ok points₂ ∧
      (s.withAdditions b).valueContext (m.withAdditions b) c dates = .ok ctx₂ ∧
      ctx₂.rateOf = Function.update ctx₁.rateOf cur rate := by
    intro rate
    obtain ⟨b, hb, points₂, ctx₂, hrun₂, hctx₂, hrate⟩ :=
      exists_setRate hrun₁ hdates hctx₁ hdisplay hne hcollects d rate
    rw [Ledger.withAdditions_append, Market.withAdditions_append] at hrun₂ hctx₂
    exact ⟨a.append b, ha.append hb, points₂, ctx₂, hrun₂, hctx₂, hrate⟩
  have hpositions : ∀ b : Additions, b.After d → ∀ ctx, (s.withAdditions b).positionEntries
      (m.withAdditions b) ctx c.entityId d = s.pricedEntries m c.entityId d := by
    intro b hb ctx
    rw [Ledger.positionEntries_of_priced]
    · unfold Ledger.pricedEntries
      simp only [Ledger.marketPositions_withAdditions hb, Market.getPriceAsOf_withAdditions hb]
    · intro pos hpos
      rw [Ledger.marketPositions_withAdditions hb] at hpos
      rw [Market.getPriceAsOf_withAdditions hb]
      exact hpriced pos hpos
  constructor
  · refine slope_eq_zero (x := worth ctx₁.rateOf (s.pricedEntries m c.entityId d)) (v := investment)
      fun r => ?_
    obtain ⟨b, hb, points₂, ctx₂, hrun₂, hctx₂, hrate⟩ := hset (r + ctx₁.rateOf cur)
    have hworth := (hconst b hb points₂ ctx₂ hrun₂ hctx₂).2
    rw [Ledger.investmentWorth, hpositions b hb, hrate, worth_update, add_sub_cancel_right] at hworth
    exact hworth
  · refine slope_eq_zero (v := total)
      (x := worth ctx₁.rateOf (s.pricedEntries m c.entityId d ++ s.manualEntries m d ++ cash)) fun r => ?_
    obtain ⟨b, hb, points₂, ctx₂, hrun₂, hctx₂, hrate⟩ := hset (r + ctx₁.rateOf cur)
    have hworth := (hconst b hb points₂ ctx₂ hrun₂ hctx₂).1
    rw [Ledger.totalWorth, hpositions b hb, Ledger.manualEntries_withAdditions hb, hrate, worth_update,
      add_sub_cancel_right] at hworth
    exact hworth

/-! ### A price that stands in -/

/-- A position is of an active asset with a transaction, in the currency of its market code. -/
theorem Ledger.exists_asset_of_mem {entity_id : Option ℕ} {pos : NetPosition}
    (h : pos ∈ s.marketPositions m entity_id d) : 0 < pos.netQuantity ∧
      ∃ pa ma r, s.getPortfolioAsset pos.portfolioAssetId = some pa ∧ pa.isActive = true ∧
        pa.marketCode = pos.marketCode ∧ m.getAsset pos.marketCode = some ma ∧
        ma.currencyCode = pos.currencyCode ∧ r ∈ s.transactions.rows ∧
        r.2.portfolioAssetId = some pos.portfolioAssetId := by
  obtain ⟨row, hrow, hpos⟩ := List.mem_filterMap.mp (List.mem_filter.mp h).1
  dsimp only at hpos
  split_ifs at hpos with hcond
  obtain ⟨ma, hma, hpos⟩ := Option.map_eq_some_iff.mp hpos
  simp only [Bool.and_eq_true, decide_eq_true_eq] at hcond
  obtain ⟨⟨hactive, hnet⟩, _⟩ := hcond
  have hasset : s.getPortfolioAsset row.1 = some row.2 := s.portfolioAssets.get?_eq_some_iff.mpr hrow
  have htransaction : ∃ r ∈ s.transactions.rows, r.2.portfolioAssetId = some row.1 := by
    by_cases hbuy : s.quantityUpTo (Time.endOfDay d) .investmentBuy row.1 = 0
    · have hsell : s.quantityUpTo (Time.endOfDay d) .investmentSell row.1 ≠ 0 := by
        intro hsell
        rw [hbuy, hsell, sub_zero] at hnet
        exact lt_irrefl _ hnet
      obtain ⟨r, hr, _, hasset, _⟩ := AddsAfter.exists_of_quantityUpTo_ne_zero hsell
      exact ⟨r, hr, hasset⟩
    · obtain ⟨r, hr, _, hasset, _⟩ := AddsAfter.exists_of_quantityUpTo_ne_zero hbuy
      exact ⟨r, hr, hasset⟩
  obtain ⟨r, hr, hrasset⟩ := htransaction
  subst hpos
  exact ⟨hnet, row.2, ma, r, hasset, hactive, rfl, hma, rfl, hr, hrasset⟩

/-- A later purchase with a unit price, copied from a transaction on the asset. -/
def latePurchase (t : Transaction) (w : Timestamp) (unit_price : ℚ) : Transaction :=
  { t with
    type := .investmentBuy, timestamp := w, quantity := some 0, unitPrice := some unit_price
    totalValue := some 0, grossAmount := none, netAmount := none }

/-- It sets the price that stands in for its market code, and no other. -/
theorem Ledger.getLatestTransactionPrice_latePurchase {t : Transaction} {w : Timestamp}
    (unit_price : ℚ) {aid : ℕ} {pa : PortfolioAsset} {ma : MarketAsset}
    (hasset : s.getPortfolioAsset aid = some pa)
    (hactive : pa.isActive = true) (hma : m.getAsset pa.marketCode = some ma)
    (ht : t.portfolioAssetId = some aid) (hw : ∀ r ∈ s.transactions.rows, r.2.timestamp < w)
    (market_code : String) :
    ((s.withAdditions { transactions := [latePurchase t w unit_price] }).getLatestTransactionPrice m
      market_code).map Prod.fst =
        if market_code = pa.marketCode then some unit_price
        else (s.getLatestTransactionPrice m market_code).map Prod.fst := by
  have hrows : (s.withAdditions { transactions := [latePurchase t w unit_price] }).transactions.rows =
      s.transactions.rows ++ [(s.transactions.next, latePurchase t w unit_price)] := rfl
  have hassets : ∀ id, (s.withAdditions { transactions := [latePurchase t w unit_price] }).getPortfolioAsset
      id = s.getPortfolioAsset id := fun _ => rfl
  unfold Ledger.getLatestTransactionPrice
  rw [hrows, List.filterMap_append]
  simp only [hassets]
  set price : ℕ × Transaction → Option (ℚ × Timestamp) := fun r =>
    if r.2.type = .investmentBuy then do
      let aid ← r.2.portfolioAssetId
      let pa ← s.getPortfolioAsset aid
      let _ ← m.getAsset pa.marketCode
      let unit_price ← r.2.unitPrice
      if pa.isActive && pa.marketCode == market_code then some (unit_price, r.2.timestamp) else none
    else none with hprice
  have hnew : price (s.transactions.next, latePurchase t w unit_price) =
      if pa.marketCode = market_code then some (unit_price, w) else none := by
    simp only [hprice, latePurchase, if_true, ht, hasset, hma, Option.bind_eq_bind, Option.bind_some, hactive,
      Bool.true_and, beq_iff_eq]
  by_cases hcode : market_code = pa.marketCode
  · rw [if_pos hcode]
    have hlast : [(s.transactions.next, latePurchase t w unit_price)].filterMap price =
        [(unit_price, w)] := by
      rw [List.filterMap_cons, hnew, if_pos hcode.symm]
      rfl
    rw [hlast, List.argmax_concat]
    cases hmax : (s.transactions.rows.filterMap price).argmax Prod.snd with
    | none => rfl
    | some latest =>
      obtain ⟨r, hr, hlatest⟩ := List.mem_filterMap.mp (List.argmax_mem hmax)
      have htimestamp : latest.2 = r.2.timestamp := by
        simp only [hprice] at hlatest
        split_ifs at hlatest
        obtain ⟨_, _, hlatest⟩ := Option.bind_eq_some_iff.mp hlatest
        obtain ⟨_, _, hlatest⟩ := Option.bind_eq_some_iff.mp hlatest
        obtain ⟨_, _, hlatest⟩ := Option.bind_eq_some_iff.mp hlatest
        obtain ⟨_, _, hlatest⟩ := Option.bind_eq_some_iff.mp hlatest
        split_ifs at hlatest
        cases hlatest
        rfl
      have hlt : latest.2 < w := htimestamp ▸ hw r hr
      simp only [if_pos hlt]
      rfl
  · rw [if_neg hcode]
    have hlast : [(s.transactions.next, latePurchase t w unit_price)].filterMap price = [] := by
      rw [List.filterMap_cons, hnew, if_neg (Ne.symm hcode)]
      rfl
    rw [hlast, List.append_nil]

/-- The worth of positions, one price of which stands in. -/
theorem worth_standIn {ρ : Currency → ℚ} {cur : Currency} (hcur : ρ cur = 1) {market_code : String}
    (price : String → Option ℚ) (u : ℚ) {positions : List NetPosition}
    (h : ∀ pos ∈ positions, pos.marketCode = market_code → pos.currencyCode = cur) :
    worth ρ (positions.filterMap fun pos =>
      (if pos.marketCode = market_code then some u else price pos.marketCode).map fun x =>
        (pos.currencyCode, pos.netQuantity * x)) =
    worth ρ (positions.filterMap fun pos =>
      (if pos.marketCode = market_code then some 0 else price pos.marketCode).map fun x =>
        (pos.currencyCode, pos.netQuantity * x)) +
      (positions.map fun pos => if pos.marketCode = market_code then pos.netQuantity else 0).sum * u := by
  induction positions with
  | nil => simp
  | cons pos positions ih =>
    obtain ⟨hpos, hrest⟩ := List.forall_mem_cons.mp h
    have ih := ih hrest
    rw [List.map_cons, List.sum_cons]
    by_cases hcode : pos.marketCode = market_code
    · simp only [List.filterMap_cons, if_pos hcode, Option.map_some, worth_cons, ih, hpos hcode, hcur]
      ring
    · simp only [List.filterMap_cons, if_neg hcode]
      cases price pos.marketCode with
      | none =>
        simp only [Option.map_none, ih]
        ring
      | some x =>
        simp only [Option.map_some, worth_cons, ih]
        ring

/-- The positions of the date over a later purchase: its unit price stands in for its market code. -/
theorem Ledger.positionEntries_latePurchase {ctx ctx' : ValueContext} {t : Transaction} {w : Timestamp}
    {unit_price : ℚ} {aid : ℕ} {pa : PortfolioAsset} {ma : MarketAsset}
    (hctx : s.valueContext m c dates = .ok ctx)
    (hctx' : (s.withAdditions { transactions := [latePurchase t w unit_price] }).valueContext
      (m.withAdditions { transactions := [latePurchase t w unit_price] }) c dates = .ok ctx')
    (hasset : s.getPortfolioAsset aid = some pa) (hactive : pa.isActive = true)
    (hma : m.getAsset pa.marketCode = some ma) (ht : t.portfolioAssetId = some aid)
    (hw : ∀ r ∈ s.transactions.rows, r.2.timestamp < w) (hd : d < Time.dayOf w)
    (hnone : m.getPriceAsOf pa.marketCode (Time.endOfDay d) = none) :
    (s.withAdditions { transactions := [latePurchase t w unit_price] }).positionEntries
      (m.withAdditions { transactions := [latePurchase t w unit_price] }) ctx' c.entityId d =
    (s.marketPositions m c.entityId d).filterMap fun pos =>
      (if pos.marketCode = pa.marketCode then some unit_price
        else s.priceAsOf m ctx pos.marketCode (Time.endOfDay d)).map fun x =>
          (pos.currencyCode, pos.netQuantity * x) := by
  have hafter : ({ transactions := [latePurchase t w unit_price] } : Additions).After d :=
    ⟨by simpa [latePurchase] using hd, by simp, by simp, by simp⟩
  unfold positionEntries ValuationReads.positionEntries
  rw [show (valuationReads _ _ c.entityId).marketPositions d = s.marketPositions m c.entityId d from
    marketPositions_withAdditions hafter c.entityId]
  refine List.filterMap_congr fun pos _ => ?_
  have hfallback := getLatestTransactionPrice_latePurchase unit_price hasset hactive hma ht hw
    pos.marketCode
  unfold priceAsOf ValuationReads.priceAsOf valuationReads
  dsimp only
  rw [Market.getPriceAsOf_withAdditions hafter, txFallback_of_valueContext hctx',
    txFallback_of_valueContext hctx]
  change Option.map _ (Option.or _ (((s.withAdditions _).getLatestTransactionPrice m pos.marketCode).map
    Prod.fst)) = _
  rw [hfallback]
  by_cases hcode : pos.marketCode = pa.marketCode
  · rw [if_pos hcode, if_pos hcode, hcode, hnone]
    rfl
  · rw [if_neg hcode, if_neg hcode]

/-- Later rows under which a currency of a position counts as it is. -/
theorem exists_unitRate (hrun : s.getHistoricalValues m c = .ok points) (hdates : c.dates = .ok dates)
    (hd : d ∈ dates) {pos : NetPosition} (hpos : pos ∈ s.marketPositions m c.entityId d) :
    ∃ a : Additions, a.After d ∧ ∃ points' ctx',
      (s.withAdditions a).getHistoricalValues (m.withAdditions a) c = .ok points' ∧
      (s.withAdditions a).valueContext (m.withAdditions a) c dates = .ok ctx' ∧
      ctx'.rateOf pos.currencyCode = 1 := by
  obtain ⟨ctx, hctx, hpoints⟩ := exists_context hrun hdates
  by_cases hdisplay : ∃ display, c.displayCurrency = some display ∧ pos.currencyCode ≠ display
  · obtain ⟨display, hdisplay, hne⟩ := hdisplay
    obtain ⟨p, _, hpoint⟩ := hpoints d hd
    obtain ⟨cash, hcash, _⟩ := Ledger.valuePoint_eq_ok.mp hpoint
    have hcurrencies : s.currenciesAsOf m c.entityId d =
        .ok ((s.getNetPositionsAsOf m (Time.endOfDay d) c.entityId).map NetPosition.currencyCode ++
          cash.map Prod.fst) := by
      unfold Ledger.currenciesAsOf ValuationReads.currenciesAsOf Ledger.valuationReads
      simp only [hcash]
    have hcollects : Collects s m c.entityId dates pos.currencyCode := by
      refine ⟨d, hd, _, hcurrencies, ?_⟩
      exact List.mem_append_left _ (List.mem_map_of_mem (List.mem_filter.mp hpos).1)
    obtain ⟨a, ha, points', ctx', hrun', hctx', hrate⟩ :=
      exists_setRate hrun hdates hctx hdisplay hne hcollects d 1
    exact ⟨a, ha, points', ctx', hrun', hctx', by rw [hrate, Function.update_self]⟩
  · refine ⟨{}, ⟨by simp, by simp, by simp, by simp⟩, points, ctx, ?_, ?_, ?_⟩
    · rwa [Ledger.withAdditions_nil, Market.withAdditions_nil]
    · rwa [Ledger.withAdditions_nil, Market.withAdditions_nil]
    · exact Ledger.rateOf_eq_one hctx fun display hsome hne => absurd ⟨display, hsome, hne⟩ hdisplay

/-- Every position of the date has a stored price by then. -/
theorem NoLookahead.priced (h : NoLookahead s m c d) (hrun : s.getHistoricalValues m c = .ok points)
    (hdates : c.dates = .ok dates) (hd : d ∈ dates)
    (hcash : s.cashAsOf c.entityId (Time.endOfDay d) = some cash) {pos : NetPosition}
    (hpos : pos ∈ s.marketPositions m c.entityId d) :
    ∃ price, m.getPriceAsOf pos.marketCode (Time.endOfDay d) = some price := by
  by_contra hno
  have hnone : m.getPriceAsOf pos.marketCode (Time.endOfDay d) = none :=
    Option.eq_none_iff_forall_ne_some.mpr fun price hprice => hno ⟨price, hprice⟩
  obtain ⟨hnet, pa, ma, r, hasset, hactive, hcode, hma, hcurrency, _, hrasset⟩ :=
    Ledger.exists_asset_of_mem hpos
  obtain ⟨total, investment, hconst⟩ := h.worth_eq hrun hdates hd hcash
  obtain ⟨a, ha, points₁, ctx₁, hrun₁, hctx₁, hone⟩ := exists_unitRate hrun hdates hd hpos
  obtain ⟨w, hdays, hlate⟩ :=
    exists_late (d :: dates) ((s.withAdditions a).transactions.rows.map fun r => r.2.timestamp)
  obtain ⟨hday, hdays⟩ := List.forall_mem_cons.mp hdays
  rw [List.forall_mem_map] at hlate
  -- the asset over the first rows
  have hasset₁ : (s.withAdditions a).getPortfolioAsset pos.portfolioAssetId = some pa := by
    unfold Ledger.getPortfolioAsset
    rw [(Ledger.addsAfter_withAdditions ha).portfolioAssets]
    exact hasset
  have hma₁ : (m.withAdditions a).getAsset pa.marketCode = some ma := hcode ▸ hma
  have hnone₁ : (m.withAdditions a).getPriceAsOf pa.marketCode (Time.endOfDay d) = none := by
    rw [Market.getPriceAsOf_withAdditions ha, hcode, hnone]
  have hpositions₁ := Ledger.marketPositions_withAdditions (s := s) (m := m) ha c.entityId
  have hcurrencies : ∀ pos' ∈ s.marketPositions m c.entityId d, pos'.marketCode = pa.marketCode →
      pos'.currencyCode = pos.currencyCode := by
    intro pos' hpos' hcode'
    obtain ⟨_, pa', ma', _, _, _, _, hma', hcurrency', _⟩ := Ledger.exists_asset_of_mem hpos'
    rw [hcode', hcode, hma] at hma'
    cases hma'
    rw [← hcurrency', hcurrency]
  -- the investments of the date by the unit price of a later purchase
  have hunit : ∀ u : ℚ, Decimal.roundTo 4 (worth ctx₁.rateOf ((s.marketPositions m c.entityId d).filterMap
      fun pos => (if pos.marketCode = pa.marketCode then some u
        else (s.withAdditions a).priceAsOf (m.withAdditions a) ctx₁ pos.marketCode (Time.endOfDay d)).map fun x =>
          (pos.currencyCode, pos.netQuantity * x))) = investment := by
    intro u
    set b : Additions := { transactions := [latePurchase r.2 w u] } with hb
    have hafter : ∀ e, e < Time.dayOf w → b.After e :=
      fun e he => ⟨by simpa [hb, latePurchase] using he, by simp [hb], by simp [hb], by simp [hb]⟩
    have hrates : ∀ cur display, ((s.withAdditions a).withAdditions b).latestRateTo display cur =
        (s.withAdditions a).latestRateTo display cur :=
      fun cur display => Ledger.latestRateTo_of_nil rfl cur
    have hfar : ∀ e ∈ dates, b.After e := fun e he => hafter e (hdays e he)
    obtain ⟨points₂, hrun₂⟩ := exists_run_withAdditions hrun₁ hdates hfar (by
      intro display hdisplay cur hne hcollects
      obtain ⟨rates, hcache, _⟩ := (Ledger.valueContext_of_some hdisplay).mp hctx₁
      obtain ⟨rate, hrate⟩ := ((Ledger.rateCache_eq_ok hcache).2 cur hne).1 hcollects
      exact ⟨rate, (hrates cur display).trans hrate⟩)
    obtain ⟨ctx₂, hctx₂, _⟩ := exists_context hrun₂ hdates
    have hrate : ctx₂.rateOf = ctx₁.rateOf :=
      funext fun cur => rateOf_withAdditions hctx₁ hctx₂ hfar fun display _ _ => hrates cur display
    have hentries := Ledger.positionEntries_latePurchase hctx₁ hctx₂ hasset₁ hactive hma₁ hrasset hlate hday
      hnone₁
    rw [hpositions₁] at hentries
    rw [Ledger.withAdditions_append, Market.withAdditions_append] at hrun₂ hctx₂
    have hworth := (hconst (a.append b) (ha.append (hafter d hday)) points₂ ctx₂ hrun₂ hctx₂).2
    rw [Ledger.investmentWorth, ← Ledger.withAdditions_append, ← Market.withAdditions_append, hentries,
      hrate] at hworth
    exact hworth
  have hsum : ((s.marketPositions m c.entityId d).map fun pos' =>
      if pos'.marketCode = pa.marketCode then pos'.netQuantity else 0).sum = 0 := by
    have hflat := fun u : ℚ =>
      (congrArg (Decimal.roundTo 4) (worth_standIn hone (fun market_code =>
        (s.withAdditions a).priceAsOf (m.withAdditions a) ctx₁ market_code (Time.endOfDay d)) u hcurrencies)).symm.trans
          (hunit u)
    exact slope_eq_zero hflat
  have hle : pos.netQuantity ≤ ((s.marketPositions m c.entityId d).map fun pos' =>
      if pos'.marketCode = pa.marketCode then pos'.netQuantity else 0).sum := by
    refine List.single_le_sum ?_ _ (List.mem_map.mpr ⟨pos, hpos, if_pos hcode.symm⟩)
    intro x hx
    obtain ⟨pos', hpos', rfl⟩ := List.mem_map.mp hx
    split_ifs
    · exact (Ledger.exists_asset_of_mem hpos').1.le
    · exact le_rfl
  linarith

/-- The exact condition under which the history at a date of a call does not look ahead. -/
theorem noLookahead_iff (s : Ledger) (m : Market) (c : HistoricalCall) (d : ℤ)
    (points : List HistoricalValuePoint) (h : s.getHistoricalValues m c = .ok points)
    (hd : ∃ p ∈ points, p.date = d) : NoLookahead s m c d ↔ Undisturbed s m c d := by
  refine ⟨fun hlook => ?_, noLookahead_of_undisturbed⟩
  obtain ⟨p, hp, rfl⟩ := hd
  obtain ⟨dates, ctx, hdates, _, hmem, hpoint⟩ := Ledger.exists_valuePoint_of_mem h hp
  obtain ⟨cash, hcash, _⟩ := Ledger.valuePoint_eq_ok.mp hpoint
  have hpriced : ∀ pos ∈ s.marketPositions m c.entityId p.date,
      ∃ price, m.getPriceAsOf pos.marketCode (Time.endOfDay p.date) = some price :=
    fun pos hpos => hlook.priced h hdates hmem hcash hpos
  refine ⟨hpriced, fun cash' hcash' cur hcur => ?_⟩
  rw [hcash] at hcash'
  cases hcash'
  exact hlook.settled h hdates hmem hcash hpriced hcur

end Shows

namespace Sample

/-- One stock in dollars. -/
def stockMarket (prices : List Price) : Market :=
  ⟨[{ marketCode := "ACME", assetType := .stock, currencyCode := usd }], prices, []⟩

/-- Two units of the stock, bought during a day at a unit price. -/
def stockPurchase (day : ℤ) (unit_price : ℚ) : Transaction where
  timestamp := Time.startOfDay day
  type := .investmentBuy
  entityId := 0
  currency := usd
  portfolioAssetId := some 0
  quantity := some 2
  unitPrice := some unit_price
  totalValue := some (2 * unit_price)

/-- A purchase at 100 on 27 May 2026, which is day 20600. -/
def stockLedger : Ledger :=
  { Ledger.empty .utc with
    entities := Table.empty.insert { name := "broker" }
    portfolioAssets := Table.empty.insert { marketCode := "ACME" } }.insertTransaction
      (stockPurchase 20600 100)

def oneDay : Calendar.Date := date 2026 5 27 (by decide)

def stockHistory : HistoricalCall where
  startDate := oneDay
  endDate := oneDay
  interval := "day"
  today := oneDay

/-- No price is stored: a purchase at 150 on the next day raises the value of the day before. -/
theorem stockHistory_looksAhead :
    ({ transactions := [stockPurchase 20601 150] } : Additions).After 20600 ∧
      stockLedger.getHistoricalValues (stockMarket []) stockHistory = .ok [⟨20600, 0, 200⟩] ∧
      (stockLedger.withAdditions { transactions := [stockPurchase 20601 150] }).getHistoricalValues
        ((stockMarket []).withAdditions { transactions := [stockPurchase 20601 150] }) stockHistory =
          .ok [⟨20600, 100, 300⟩] ∧
      ¬ NoLookahead stockLedger (stockMarket []) stockHistory 20600 := by
  have hafter : ({ transactions := [stockPurchase 20601 150] } : Additions).After 20600 :=
    ⟨by decide +kernel, by simp, by simp, by simp⟩
  have hbefore : stockLedger.getHistoricalValues (stockMarket []) stockHistory = .ok [⟨20600, 0, 200⟩] := by
    decide +kernel
  have hlater : (stockLedger.withAdditions { transactions := [stockPurchase 20601 150] }).getHistoricalValues
      ((stockMarket []).withAdditions { transactions := [stockPurchase 20601 150] }) stockHistory =
        .ok [⟨20600, 100, 300⟩] := by
    decide +kernel
  refine ⟨hafter, hbefore, hlater, fun h => ?_⟩
  have hsame := h _ hafter _ _ hbefore hlater _ List.mem_cons_self _ List.mem_cons_self rfl rfl
  exact absurd hsame (by decide +kernel)

/-- With a stored price of the day and no conversion, no later row changes the day. -/
theorem pricedHistory_kept :
    NoLookahead stockLedger (stockMarket [⟨"ACME", Time.startOfDay 20600, 110⟩]) stockHistory 20600 := by
  refine (noLookahead_iff _ _ _ _ [⟨20600, 20, 220⟩] (by decide +kernel)
    ⟨_, List.mem_cons_self, rfl⟩).mpr ⟨fun pos hpos => ?_, fun cash _ cur hcur => ?_⟩
  · have hcodes : ∀ pos ∈ stockLedger.marketPositions (stockMarket [⟨"ACME", Time.startOfDay 20600, 110⟩])
        stockHistory.entityId 20600, pos.marketCode = "ACME" := by
      decide +kernel
    rw [hcodes pos hpos]
    exact ⟨⟨"ACME", Time.startOfDay 20600, 110⟩, by decide +kernel⟩
  · obtain ⟨⟨display, hdisplay, _⟩, _⟩ := hcur
    cases hdisplay

end Sample

end FinHub
