import FinHub.Analytics.Lookahead
import FinHub.Lib.Groups

/-!
# FinHub.Analytics.EntityShares

What a call of the value history with an entity reads, beside the call without one.

The pairs of the cash and the positions of an entity are those of the call without an entity that belong to the
entity: a position belongs to the entity of its first transaction. So the shares of all entities add up
(`worth_cash_eq_sum`, `worth_positions_eq_sum`), each at the rates of its own call, which are the rates of the call
without an entity for every currency in the share.
-/

namespace FinHub

open Tabular Worth Groups

/-- The call with another entity, or with none. -/
def HistoricalCall.forEntity (c : HistoricalCall) (entity_id : Option ℕ) : HistoricalCall :=
  { c with entityId := entity_id }

namespace Ledger

/-- The entities of the profile. -/
def entityIds (s : Ledger) : List ℕ := s.entities.rows.map Prod.fst

/-- Transactions and snapshots are of entities of the profile. -/
structure EntitiesKnown (s : Ledger) : Prop where
  transactions : ∀ r ∈ s.transactions.rows, r.2.entityId ∈ s.entityIds
  snapshots : ∀ r ∈ s.snapshots.rows, r.2.entityId ∈ s.entityIds

variable {s : Ledger} {m : Market}

theorem nodup_entityIds : s.entityIds.Nodup := s.entities.nodup_keys

/-! ## Cash -/

theorem snapshotPairs_some (e : ℕ) :
    s.snapshotPairs (some e) = (s.snapshotPairs none).filter fun p => decide (p.1 = e) := by
  unfold snapshotPairs
  rw [← eraseDups_filter, List.filter_map, List.filter_filter]
  congr 2
  refine List.filter_congr fun r _ => ?_
  simp [ofEntity]

theorem mem_snapshotPairs_some {p : ℕ × Currency} : p ∈ s.snapshotPairs (some p.1) ↔ p ∈ s.snapshotPairs none := by
  rw [snapshotPairs_some, List.mem_filter, decide_eq_true_eq]
  exact and_iff_left rfl

theorem unanchoredPairs_some (e : ℕ) (timestamp : Timestamp) :
    s.unanchoredPairs (some e) timestamp = (s.unanchoredPairs none timestamp).filter fun p => decide (p.1 = e) := by
  unfold unanchoredPairs
  rw [← eraseDups_filter, List.filter_map, List.filter_filter]
  congr 2
  refine List.filter_congr fun r _ => ?_
  by_cases hentity : r.2.entityId = e
  · have hmem := mem_snapshotPairs_some (s := s) (p := (r.2.entityId, r.2.cashPocket))
    subst hentity
    simp [ofEntity, hmem]
  · simp [ofEntity, hentity]

theorem mem_entityIds_of_snapshotPairs (h : s.EntitiesKnown) {p : ℕ × Currency} (hp : p ∈ s.snapshotPairs none) :
    p.1 ∈ s.entityIds := by
  obtain ⟨r, hr, rfl⟩ := List.mem_map.mp (List.mem_eraseDups.mp hp)
  exact h.snapshots r (List.mem_filter.mp hr).1

theorem mem_entityIds_of_unanchoredPairs (h : s.EntitiesKnown) {p : ℕ × Currency} {timestamp : Timestamp}
    (hp : p ∈ s.unanchoredPairs none timestamp) : p.1 ∈ s.entityIds := by
  obtain ⟨r, hr, rfl⟩ := List.mem_map.mp (List.mem_eraseDups.mp hp)
  exact h.transactions r (List.mem_filter.mp hr).1

/-- The amount of a pair with a snapshot. -/
def anchoredAmount (s : Ledger) (timestamp : Timestamp) (p : ℕ × Currency) : Option ℚ :=
  s.getBalanceAtDate p.1 p.2 timestamp

/-- The amount of a pair without a snapshot. -/
def unanchoredAmount (s : Ledger) (timestamp : Timestamp) (p : ℕ × Currency) : Option ℚ :=
  s.feeCorrected (fun p => s.computeFeeCashOutAt p.1 p.2 timestamp) p (s.pairCash timestamp p)

/-- The elements of a list, each with its key and its amount. -/
theorem mapM_amounts {α κ : Type} {key : α → κ} {amount : α → Option ℚ} {l : List α} {entries : List (κ × ℚ)} :
    l.mapM (fun a => (amount a).map fun x => (key a, x)) = some entries ↔
      (∀ a ∈ l, (amount a).isSome) ∧ entries = l.map fun a => (key a, (amount a).getD 0) := by
  rw [Runs.mapM_eq_some]
  constructor
  · intro h
    have hsome : ∀ a ∈ l, (amount a).isSome := by
      intro a ha
      have hmem : (amount a).map (fun x => (key a, x)) ∈ entries.map some := h ▸ List.mem_map_of_mem ha
      obtain ⟨e, _, he⟩ := List.mem_map.mp hmem
      obtain ⟨x, hx, _⟩ := Option.map_eq_some_iff.mp he.symm
      simp [hx]
    refine ⟨hsome, List.map_injective_iff.mpr (Option.some_injective _) ?_⟩
    rw [← h, List.map_map]
    refine List.map_congr_left fun a ha => ?_
    obtain ⟨x, hx⟩ := Option.isSome_iff_exists.mp (hsome a ha)
    simp [hx]
  · rintro ⟨hsome, rfl⟩
    rw [List.map_map]
    refine List.map_congr_left fun a ha => ?_
    obtain ⟨x, hx⟩ := Option.isSome_iff_exists.mp (hsome a ha)
    simp [hx]

theorem cashAsOf_eq_some {entity_id : Option ℕ} {timestamp : Timestamp} {cash : Tally Currency} :
    s.cashAsOf entity_id timestamp = some cash ↔
      (∀ p ∈ s.snapshotPairs entity_id, (s.anchoredAmount timestamp p).isSome) ∧
      (∀ p ∈ s.unanchoredPairs entity_id timestamp, (s.unanchoredAmount timestamp p).isSome) ∧
      cash = collect ((s.snapshotPairs entity_id).map (fun p => (p.2, (s.anchoredAmount timestamp p).getD 0)) ++
        (s.unanchoredPairs entity_id timestamp).map fun p => (p.2, (s.unanchoredAmount timestamp p).getD 0)) := by
  have hview : s.cashAsOf entity_id timestamp = (s.cashEntriesAsOf entity_id timestamp).map collect := by
    cases entity_id <;> rfl
  rw [hview, Option.map_eq_some_iff]
  constructor
  · rintro ⟨entries, hentries, rfl⟩
    obtain ⟨anchored, hanchored, h⟩ := Option.bind_eq_some_iff.mp hentries
    obtain ⟨rest, hrest, h⟩ := Option.bind_eq_some_iff.mp h
    cases h
    obtain ⟨hsome, rfl⟩ := mapM_amounts.mp hanchored
    obtain ⟨hsome', rfl⟩ := mapM_amounts.mp hrest
    exact ⟨hsome, hsome', rfl⟩
  · rintro ⟨hanchored, hrest, rfl⟩
    refine ⟨_, Option.bind_eq_some_iff.mpr ⟨_, mapM_amounts.mpr ⟨hanchored, rfl⟩, ?_⟩, rfl⟩
    exact Option.bind_eq_some_iff.mpr ⟨_, mapM_amounts.mpr ⟨hrest, rfl⟩, rfl⟩

/-- Where the cash of all entities is read, that of one entity is. -/
theorem exists_cashAsOf_some {timestamp : Timestamp} {cash : Tally Currency}
    (h : s.cashAsOf none timestamp = some cash) (e : ℕ) :
    ∃ cash', s.cashAsOf (some e) timestamp = some cash' ∧ ∀ cur ∈ cash'.map Prod.fst, cur ∈ cash.map Prod.fst := by
  obtain ⟨hanchored, hrest, rfl⟩ := cashAsOf_eq_some.mp h
  have hpairs : ∀ p ∈ s.snapshotPairs (some e), p ∈ s.snapshotPairs none := by
    intro p hp
    rw [snapshotPairs_some] at hp
    exact (List.mem_filter.mp hp).1
  have hpairs' : ∀ p ∈ s.unanchoredPairs (some e) timestamp, p ∈ s.unanchoredPairs none timestamp := by
    intro p hp
    rw [unanchoredPairs_some] at hp
    exact (List.mem_filter.mp hp).1
  refine ⟨_, cashAsOf_eq_some.mpr ⟨fun p hp => hanchored p (hpairs p hp), fun p hp => hrest p (hpairs' p hp), rfl⟩, ?_⟩
  intro cur hcur
  rw [mem_keys_collect, List.map_append, List.map_map, List.map_map, List.mem_append] at hcur ⊢
  rcases hcur with hcur | hcur
  · exact .inl (List.map_subset _ hpairs hcur)
  · exact .inr (List.map_subset _ hpairs' hcur)

/-- The worth of a list of pairs. -/
theorem worth_pairs (ρ : Currency → ℚ) (amount : ℕ × Currency → ℚ) (pairs : List (ℕ × Currency)) :
    worth ρ (pairs.map fun p => (p.2, amount p)) = (pairs.map fun p => amount p * ρ p.2).sum := by
  unfold worth
  rw [List.map_map]
  rfl

/-- The cash of all entities, at rates that those of each entity agree with. -/
theorem worth_cash_eq_sum (h : s.EntitiesKnown) {timestamp : Timestamp} {cash : Tally Currency}
    {cashOf : ℕ → Tally Currency} (hcash : s.cashAsOf none timestamp = some cash)
    (hcashOf : ∀ e ∈ s.entityIds, s.cashAsOf (some e) timestamp = some (cashOf e)) (ρ : Currency → ℚ)
    (ρOf : ℕ → Currency → ℚ) (hρ : ∀ e ∈ s.entityIds, ∀ cur ∈ (cashOf e).map Prod.fst, ρOf e cur = ρ cur) :
    (s.entityIds.map fun e => worth (ρOf e) (cashOf e)).sum = worth ρ cash := by
  obtain ⟨_, _, rfl⟩ := cashAsOf_eq_some.mp hcash
  have hshare : ∀ e ∈ s.entityIds, worth (ρOf e) (cashOf e) =
      (((s.snapshotPairs none).filter fun p => decide (p.1 = e)).map fun p =>
        (s.anchoredAmount timestamp p).getD 0 * ρ p.2).sum +
      (((s.unanchoredPairs none timestamp).filter fun p => decide (p.1 = e)).map fun p =>
        (s.unanchoredAmount timestamp p).getD 0 * ρ p.2).sum := by
    intro e he
    obtain ⟨_, _, hof⟩ := cashAsOf_eq_some.mp (hcashOf e he)
    have hsame : worth (ρOf e) (cashOf e) = worth ρ (cashOf e) := by
      unfold worth
      refine congrArg List.sum (List.map_congr_left fun entry hentry => ?_)
      rw [hρ e he _ (List.mem_map_of_mem hentry)]
    rw [hsame, hof, worth_collect, worth_append, worth_pairs, worth_pairs, snapshotPairs_some, unanchoredPairs_some]
  rw [List.map_congr_left hshare, List.sum_map_add,
    sum_parts Prod.fst nodup_entityIds (fun p hp => mem_entityIds_of_snapshotPairs h hp),
    sum_parts Prod.fst nodup_entityIds (fun p hp => mem_entityIds_of_unanchoredPairs h hp),
    worth_collect, worth_append, worth_pairs, worth_pairs]

/-! ## Positions -/

theorem getNetPositionsAsOf_some (cutoff : Timestamp) (e : ℕ) : s.getNetPositionsAsOf m cutoff (some e) =
    (s.getNetPositionsAsOf m cutoff none).filter fun pos => decide (s.primaryEntity pos.portfolioAssetId = some e) := by
  unfold getNetPositionsAsOf
  rw [List.filter_filterMap]
  refine List.filterMap_congr fun pa _ => ?_
  by_cases hprimary : s.primaryEntity pa.1 = some e
  · simp only [Option.all_some, hprimary, decide_true, Option.all_none, Bool.and_true]
    split_ifs
    · cases m.getAsset pa.2.marketCode <;> simp [Option.filter, hprimary]
    · rfl
  · simp only [Option.all_some, hprimary, decide_false, Bool.and_false, Bool.false_eq_true, if_false,
      Option.all_none, Bool.and_true]
    split_ifs
    · cases m.getAsset pa.2.marketCode <;> simp [Option.filter, hprimary]
    · rfl

theorem marketPositions_some (d : ℤ) (e : ℕ) : s.marketPositions m (some e) d =
    (s.marketPositions m none d).filter fun pos => decide (s.primaryEntity pos.portfolioAssetId = some e) := by
  unfold marketPositions ValuationReads.marketPositions valuationReads
  dsimp only
  rw [getNetPositionsAsOf_some, List.filter_filter, List.filter_filter]
  refine List.filter_congr fun pos _ => ?_
  exact Bool.and_comm _ _

/-- A position belongs to some entity of the profile. -/
theorem exists_primaryEntity (h : s.EntitiesKnown) {d : ℤ} {pos : NetPosition} (hpos : pos ∈ s.marketPositions m none d) :
    ∃ e ∈ s.entityIds, s.primaryEntity pos.portfolioAssetId = some e := by
  obtain ⟨_, _, _, r, _, _, _, _, _, hr, hasset⟩ := exists_asset_of_mem hpos
  have hmem : r ∈ s.transactions.rows.filter fun r => decide (r.2.portfolioAssetId = some pos.portfolioAssetId) :=
    List.mem_filter.mpr ⟨hr, decide_eq_true hasset⟩
  unfold primaryEntity
  cases hfirst : (s.transactions.rows.filter fun r =>
      decide (r.2.portfolioAssetId = some pos.portfolioAssetId)).argmin fun r => toLex (r.2.timestamp, r.1) with
  | none =>
    rw [List.argmin_eq_none.mp hfirst] at hmem
    cases hmem
  | some first =>
    have hfirstRow := (List.mem_filter.mp (List.argmin_mem hfirst)).1
    exact ⟨first.2.entityId, h.transactions first hfirstRow, rfl⟩

/-- What a position adds to the worth of the investments. -/
def positionWorth (s : Ledger) (m : Market) (d : ℤ) (ρ : Currency → ℚ) (pos : NetPosition) : ℚ :=
  ((((m.getPriceAsOf pos.marketCode (Time.endOfDay d)).map Price.price).or
    ((s.getLatestTransactionPrice m pos.marketCode).map Prod.fst)).map fun price =>
      pos.netQuantity * price * ρ pos.currencyCode).getD 0

theorem worth_positionEntries {c : HistoricalCall} {dates : List ℤ} {ctx : ValueContext}
    (hctx : s.valueContext m c dates = .ok ctx) (entity_id : Option ℕ) (d : ℤ) (ρ : Currency → ℚ) :
    worth ρ (s.positionEntries m ctx entity_id d) =
      ((s.marketPositions m entity_id d).map (s.positionWorth m d ρ)).sum := by
  unfold positionEntries ValuationReads.positionEntries
  rw [worth_filterMap]
  refine congrArg List.sum (List.map_congr_left fun pos _ => ?_)
  unfold ValuationReads.priceAsOf valuationReads positionWorth
  dsimp only
  rw [txFallback_of_valueContext hctx, Option.map_map]
  rfl

/-- The positions of all entities, at rates that those of each entity agree with. -/
theorem sum_positionWorth (h : s.EntitiesKnown) (d : ℤ) (ρ : Currency → ℚ) (ρOf : ℕ → Currency → ℚ)
    (hρ : ∀ e ∈ s.entityIds, ∀ pos ∈ s.marketPositions m (some e) d, ρOf e pos.currencyCode = ρ pos.currencyCode) :
    (s.entityIds.map fun e => ((s.marketPositions m (some e) d).map (s.positionWorth m d (ρOf e))).sum).sum =
      ((s.marketPositions m none d).map (s.positionWorth m d ρ)).sum := by
  have hparts := sum_parts (fun pos : NetPosition => s.primaryEntity pos.portfolioAssetId)
    (nodup_entityIds.map (Option.some_injective _)) (l := s.marketPositions m none d) (fun pos hpos => by
      obtain ⟨e, he, hprimary⟩ := exists_primaryEntity h hpos
      rw [hprimary]
      exact List.mem_map_of_mem he) (s.positionWorth m d ρ)
  rw [← hparts, List.map_map]
  refine congrArg List.sum (List.map_congr_left fun e he => ?_)
  rw [Function.comp_apply, ← marketPositions_some]
  refine congrArg List.sum (List.map_congr_left fun pos hpos => ?_)
  unfold positionWorth
  rw [hρ e he pos hpos]

/-! ## Rates -/

theorem currenciesAsOf_eq_ok {entity_id : Option ℕ} {d : ℤ} {currencies : List Currency} :
    s.currenciesAsOf m entity_id d = .ok currencies ↔ ∃ cash, s.cashAsOf entity_id (Time.endOfDay d) = some cash ∧
      currencies = (s.getNetPositionsAsOf m (Time.endOfDay d) entity_id).map NetPosition.currencyCode ++
        cash.map Prod.fst := by
  unfold currenciesAsOf ValuationReads.currenciesAsOf
  rw [show (s.valuationReads m entity_id).cash (Time.endOfDay d) = s.cashAsOf entity_id (Time.endOfDay d) from rfl]
  cases s.cashAsOf entity_id (Time.endOfDay d) with
  | none => simp
  | some cash =>
    simp only [Option.some.injEq, exists_eq_left', Except.ok.injEq]
    exact eq_comm

/-- What the call of an entity reads the call without an entity reads too. -/
theorem exists_currenciesAsOf_some {d : ℤ} {currencies : List Currency}
    (h : s.currenciesAsOf m none d = .ok currencies) (e : ℕ) :
    ∃ currencies', s.currenciesAsOf m (some e) d = .ok currencies' ∧ ∀ cur ∈ currencies', cur ∈ currencies := by
  obtain ⟨cash, hcash, rfl⟩ := currenciesAsOf_eq_ok.mp h
  obtain ⟨cash', hcash', hsub⟩ := exists_cashAsOf_some hcash e
  refine ⟨_, currenciesAsOf_eq_ok.mpr ⟨cash', hcash', rfl⟩, fun cur hcur => ?_⟩
  rcases List.mem_append.mp hcur with hcur | hcur
  · rw [getNetPositionsAsOf_some] at hcur
    exact List.mem_append_left _ (List.map_subset _ (List.filter_subset_self _) hcur)
  · exact List.mem_append_right _ (hsub cur hcur)

end Ledger

theorem Collects.of_entity {s : Ledger} {m : Market} {dates : List ℤ} {cur : Currency} {e : ℕ}
    (hread : ∀ d ∈ dates, ∃ currencies, s.currenciesAsOf m none d = .ok currencies)
    (h : Collects s m (some e) dates cur) : Collects s m none dates cur := by
  obtain ⟨d, hd, currencies', hcurrencies', hcur⟩ := h
  obtain ⟨currencies, hcurrencies⟩ := hread d hd
  obtain ⟨found, hfound, hsub⟩ := Ledger.exists_currenciesAsOf_some hcurrencies e
  rw [hcurrencies'] at hfound
  cases hfound
  exact ⟨d, hd, currencies, hcurrencies, hsub cur hcur⟩

namespace Ledger

variable {s : Ledger} {m : Market}

/-- Whether a currency turns up in the positions or the cash at one of the dates. -/
def collects (s : Ledger) (m : Market) (entity_id : Option ℕ) (dates : List ℤ) (cur : Currency) : Bool :=
  dates.any fun d =>
    match s.currenciesAsOf m entity_id d with
    | .ok currencies => currencies.any fun cur' => decide (cur' = cur)
    | .error _ => false

theorem collects_iff {entity_id : Option ℕ} {dates : List ℤ} {cur : Currency} :
    s.collects m entity_id dates cur = true ↔ Collects s m entity_id dates cur := by
  unfold collects Collects
  rw [List.any_eq_true]
  refine exists_congr fun d => and_congr_right fun _ => ?_
  cases s.currenciesAsOf m entity_id d with
  | error => simp
  | ok currencies => simp

/-- The rate of a currency in a call: its latest rate if the call collects it, 1 otherwise. -/
def rateIn (s : Ledger) (m : Market) (display_currency : Option Currency) (dates : List ℤ) (entity_id : Option ℕ)
    (cur : Currency) : ℚ :=
  match display_currency with
  | none => 1
  | some display =>
    if decide (cur ≠ display) && s.collects m entity_id dates cur then
      match s.latestRateTo display cur with
      | .ok rate => rate.getD 1
      | .error _ => 1
    else 1

theorem rateOf_eq_rateIn {c : HistoricalCall} {dates : List ℤ} {ctx : ValueContext}
    (hctx : s.valueContext m c dates = .ok ctx) (cur : Currency) :
    ctx.rateOf cur = s.rateIn m c.displayCurrency dates c.entityId cur := by
  cases hdisplay : c.displayCurrency with
  | none => exact rateOf_eq_one hctx fun display hsome => absurd (hdisplay.symm.trans hsome) (by simp)
  | some display =>
    unfold rateIn
    dsimp only
    by_cases hcur : cur ≠ display ∧ Collects s m c.entityId dates cur
    · obtain ⟨hne, hcollects⟩ := hcur
      obtain ⟨rates, hcache, _⟩ := (valueContext_of_some hdisplay).mp hctx
      obtain ⟨rate, hrate⟩ := ((rateCache_eq_ok hcache).2 cur hne).1 hcollects
      rw [rateOf_of_collects hctx hdisplay hne hcollects hrate, collects_iff.mpr hcollects, hrate]
      simp [hne]
    · have hno : ¬ (decide (cur ≠ display) && s.collects m c.entityId dates cur) = true := by
        rw [Bool.and_eq_true, decide_eq_true_eq, collects_iff]
        exact hcur
      rw [if_neg hno]
      refine rateOf_eq_one hctx fun display' hsome hne hcollects => hcur ⟨?_, hcollects⟩
      cases hdisplay.symm.trans hsome
      exact hne

/-- A currency that an entity's call collects has one rate in both calls. -/
theorem rateIn_some {display_currency : Option Currency} {dates : List ℤ} {e : ℕ} {cur : Currency}
    (hread : ∀ d ∈ dates, ∃ currencies, s.currenciesAsOf m none d = .ok currencies)
    (h : Collects s m (some e) dates cur) :
    s.rateIn m display_currency dates (some e) cur = s.rateIn m display_currency dates none cur := by
  unfold rateIn
  rw [collects_iff.mpr h, collects_iff.mpr (h.of_entity hread)]

/-! ## Calls -/

/-- The call of an entity collects its rates where the call without one does. -/
theorem exists_valueContext_some {c : HistoricalCall} {dates : List ℤ} {ctx : ValueContext}
    (hctx : s.valueContext m (c.forEntity none) dates = .ok ctx)
    (hread : ∀ d ∈ dates, ∃ currencies, s.currenciesAsOf m none d = .ok currencies) (e : ℕ) :
    ∃ ctx', s.valueContext m (c.forEntity (some e)) dates = .ok ctx' := by
  cases hdisplay : (c.forEntity (some e)).displayCurrency with
  | none => exact ⟨_, valueContext_of_none hdisplay⟩
  | some display =>
    have hdisplay' : (c.forEntity none).displayCurrency = some display := hdisplay
    obtain ⟨rates, hcache, _⟩ := (valueContext_of_some hdisplay').mp hctx
    obtain ⟨rates', hcache'⟩ : ∃ rates', s.rateCache m (some e) display dates = .ok rates' := by
      refine exists_rateCache (fun d hd => ?_) fun cur hcur hcollects => ?_
      · obtain ⟨currencies, hcurrencies⟩ := hread d hd
        obtain ⟨currencies', hcurrencies', _⟩ := exists_currenciesAsOf_some hcurrencies e
        exact ⟨currencies', hcurrencies'⟩
      · exact ((rateCache_eq_ok hcache).2 cur hcur).1 (hcollects.of_entity hread)
    exact ⟨_, (valueContext_of_some hdisplay).mpr ⟨rates', hcache', rfl⟩⟩

end Ledger

end FinHub
