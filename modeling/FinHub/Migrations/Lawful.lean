import FinHub.Migrations.Effects

/-!
# FinHub.Migrations.Lawful

No migration destroys the end-state of an earlier one (`lawful`), so a completed run leaves all of
them applied, and the next run changes nothing (`runMigrations_of_ok`).

What `verify` asks of the schema is a list of conditions, and whether a later migration can reach one
of them is read off its effect. Only the migrations of `Version.shared` write rows that an earlier
`verify` looks at.
-/

namespace FinHub

open Tabular Upgrade

namespace Migrations

variable {d d' : Store} {e : Effect}

/-! ## End-states -/

namespace Version

/-- The tables whose rows have an owner. -/
def ownedNames : List TableName := Profiles.profileTables.map fun t => t.name

open EndState SchemaItem in
/-- What `verify` asks of the schema. -/
def endState : Version → List (EndState SchemaItem)
  | purchaseDate => [lacks (column .portfolioAssets .purchaseDate)]
  | backfillSnapshots | consolidateAutoSnapshots | backfillJstToUtc | ecbDepositRateSource => []
  | stockSplits => [has (table .stockSplits)]
  | scheduleAsset => [has (column .schedules .portfolioAssetId)]
  | manualValues => [has (table .manualValues)]
  | transferTypes => [has (table .transactions), has (sql .transactions .transferIn)]
  | scheduleOccurrences => [has (table .scheduleOccurrences)]
  | profiles => has (table .profiles) ::
      ownedNames.map fun t => either (lacks (table t)) (has (column t .profileId))
  | marketAssetLastSynced =>
    [either (lacks (table .marketAssets)) (has (column .marketAssets .lastSyncedAt))]
  | incomeCategory =>
    [has (column .schedules .incomeCategory), has (column .transactions .incomeCategory)]
  | renameInvestmentCategory => [has (column .transactions .investmentTransactionCategory)]
  | fiscalPeriods => [has (table .fiscalPeriods), has (column .transactions .fiscalRule)]
  | taxRates => [has (column .profiles .defaultFiscalRule)]
  | addCashbackCategory =>
    [has (table .transactions), has (sql .transactions .cashback), has (table .schedules),
      has (sql .schedules .cashback)]
  | balanceSnapshotId => [has (column .transactions .balanceSnapshotId)]
  | persistCashHandling =>
    [has (column .transactions .cashHandling), has (table .balanceAdjustmentLinks)]
  | addEntityMainCurrency => [has (column .entities .mainCurrency)]
  | addProfileTimezone => [has (column .profiles .timezone)]
  | taxSchemaV2 =>
    [has (table .taxBases), has (table .taxBaseCategories), has (table .taxBaseRates),
      has (table .taxDefinitions), has (table .brokerFeeDefinitions), lacks (table .taxRates),
      either (lacks (table .transactionTaxes)) (has (column .transactionTaxes .taxDefinitionId)),
      either (lacks (table .transactionFees)) (has (column .transactionFees .brokerFeeDefinitionId))]
  | dropTaxType =>
    [either (lacks (table .transactionTaxes)) (lacks (column .transactionTaxes .taxType)),
      either (lacks (table .transactionTaxes)) (has (sql .transactionTaxes .taxDefinitionIdNotNull))]
  | seedTaxCatalog => SeedTaxCatalog.catalogTables.map fun t => has (table t)
  | macroSeries => [has (table .macroSeries), has (table .macroSeriesObservations)]
  | officialMacroSources =>
    [has (table .macroSeries), lacks (sql .macroSeries .investingCom), has (sql .macroSeries .boj),
      has (sql .macroSeries .fred)]
  | usaPolicyRateSource => [has (table .macroSeries), has (sql .macroSeries .marketApi)]
  | usa10yYieldSource => [has (table .macroSeries)]

/-- What `verify` asks of the rows. -/
def seeded : Version → Store → Bool
  | profiles, d => !d.profiles.rows.isEmpty
  | consolidateAutoSnapshots, d => ConsolidateAutoSnapshots.verify d
  | backfillJstToUtc, d => BackfillJstToUtc.verify d
  | seedTaxCatalog, d =>
    [DropTaxType.genericWithholding.slug, SeedTaxCatalog.tasaTobin.slug].all
        (SeedTaxCatalog.definitionExists d) &&
      SeedTaxCatalog.bases.all (SeedTaxCatalog.baseSeeded d) &&
      SeedTaxCatalog.brokerFees.all (SeedTaxCatalog.feeExists d)
  | macroSeries, d => MacroSeries.series.all fun row => MacroSeries.seriesExists d row.slug
  | ecbDepositRateSource, d => pointed d EcbDepositRateSource.source
  | officialMacroSources, d => OfficialMacroSources.sources.all (pointed d)
  | usaPolicyRateSource, d => fromMarketApi d UsaPolicyRateSource.row.slug
  | usa10yYieldSource, d => fromMarketApi d Usa10yYieldSource.row.slug
  | _, _ => true

theorem verify_iff (v : Version) (d : Store) :
    v.verify d = true ↔ (∀ p ∈ v.endState, p.eval d.schema = true) ∧ v.seeded d = true := by
  cases v
  case dropTaxType =>
    simp [verify, DropTaxType.verify, endState, seeded, EndState.eval, Store.tableExists,
      Store.columnExists, Store.sqlHas, Store.has, or_and_left]
  case seedTaxCatalog =>
    simp [verify, SeedTaxCatalog.verify, endState, seeded, EndState.eval, Store.tableExists,
      Store.has, and_assoc]
  all_goals
    simp [verify, endState, seeded, EndState.eval, PurchaseDate.verify, BackfillSnapshots.verify,
      StockSplits.verify, ScheduleAsset.verify, ManualValues.verify, TransferTypes.verify,
      ScheduleOccurrences.verify, Profiles.verify, MarketAssetLastSynced.verify,
      IncomeCategory.verify, RenameInvestmentCategory.verify, FiscalPeriods.verify, TaxRates.verify,
      AddCashbackCategory.verify, BalanceSnapshotId.verify, PersistCashHandling.verify,
      AddEntityMainCurrency.verify, AddProfileTimezone.verify, TaxSchemaV2.verify,
      MacroSeries.verify, EcbDepositRateSource.verify,
      OfficialMacroSources.verify, UsaPolicyRateSource.verify, Usa10yYieldSource.verify,
      Store.tableExists, Store.columnExists, Store.sqlHas, Store.has, ownedNames, and_assoc]

end Version

/-! ## Earlier end-states -/

namespace Version

/-- The parts that `seeded` reads. -/
def reads : Version → List Part
  | profiles => [.profiles]
  | consolidateAutoSnapshots => [.balanceSnapshots]
  | backfillJstToUtc => [.transactions, .balanceSnapshots]
  | seedTaxCatalog => [.catalog]
  | macroSeries | ecbDepositRateSource | officialMacroSources | usaPolicyRateSource
  | usa10yYieldSource => [.macroSeries]
  | _ => []

/-- The items without which `seeded` does not look at the rows. -/
def looksAt : Version → List SchemaItem
  | consolidateAutoSnapshots => [.table .balanceSnapshots]
  | backfillJstToUtc => [.column .transactions .timestamp, .column .balanceSnapshots .timestamp]
  | _ => []

theorem seeded_congr (v : Version) (hp : ∀ p ∈ v.reads, SamePart d d' p)
    (hs : ∀ x ∈ v.looksAt, x ∈ d'.schema → x ∈ d.schema) (h : v.seeded d = true) :
    v.seeded d' = true := by
  cases v
  case consolidateAutoSnapshots =>
    have hrows : d'.balanceSnapshots = d.balanceSnapshots := hp .balanceSnapshots (by decide)
    have htable := hs _ (List.mem_singleton_self _)
    simp only [seeded, ConsolidateAutoSnapshots.verify, Store.tableExists, Store.has, hrows,
      Bool.or_eq_true, Bool.not_eq_true', decide_eq_false_iff_not] at h ⊢
    exact h.imp_left fun hno ht => hno (htable ht)
  case backfillJstToUtc =>
    have htx : d'.transactions = d.transactions := hp .transactions (by decide)
    have hsnap : d'.balanceSnapshots = d.balanceSnapshots := hp .balanceSnapshots (by decide)
    have h1 := hs _ List.mem_cons_self
    have h2 := hs _ (List.mem_cons_of_mem _ (List.mem_singleton_self _))
    simp only [seeded, BackfillJstToUtc.verify, Store.columnExists, Store.has, htx, hsnap,
      Bool.and_eq_true, Bool.or_eq_true, Bool.not_eq_true', decide_eq_false_iff_not] at h ⊢
    exact ⟨h.1.imp_left fun hno ht => hno (h1 ht), h.2.imp_left fun hno ht => hno (h2 ht)⟩
  case seedTaxCatalog =>
    obtain ⟨h1, h2, h3, h4, h5⟩ := hp .catalog (by decide)
    have hdef : SeedTaxCatalog.definitionExists d' = SeedTaxCatalog.definitionExists d := by
      funext slug
      rw [SeedTaxCatalog.definitionExists, SeedTaxCatalog.definitionExists, h4]
    have hbase : SeedTaxCatalog.baseSeeded d' = SeedTaxCatalog.baseSeeded d := by
      funext base
      simp only [SeedTaxCatalog.baseSeeded, SeedTaxCatalog.baseOf, h1, h2, h3]
    have hfee : SeedTaxCatalog.feeExists d' = SeedTaxCatalog.feeExists d := by
      funext name
      rw [SeedTaxCatalog.feeExists, SeedTaxCatalog.feeExists, h5]
    simp only [seeded, hdef, hbase, hfee] at h ⊢
    exact h
  case profiles =>
    have hrows : d'.profiles = d.profiles := hp .profiles (by decide)
    simpa only [seeded, hrows] using h
  case macroSeries | ecbDepositRateSource | officialMacroSources | usaPolicyRateSource |
      usa10yYieldSource =>
    have hrows : d'.macroSeries = d.macroSeries := hp .macroSeries (by decide)
    simpa only [seeded, MacroSeries.seriesExists, funext (fun r => show pointed d' r = pointed d r by
      rw [pointed, pointed, hrows]), pointed, fromMarketApi, hrows] using h
  all_goals rfl

/-- The schema that `v'` has reached is out of reach of `v`. -/
def schemaClear (v' v : Version) : Bool :=
  (v'.endState.all fun p =>
      (p.needs.all fun x => !v.effect.lost x) && p.bars.all fun x => !v.effect.gained x) &&
    v'.looksAt.all fun x => !v.effect.gained x

/-- The rows that `v'` looks at are not written by `v`. -/
def rowsClear (v' v : Version) : Bool := v'.reads.all fun p => !decide (p ∈ v.effect.writes)

theorem endState_kept {v' v : Version} (h : schemaClear v' v = true) (hw : Within v.effect d d')
    (hd : ∀ p ∈ v'.endState, p.eval d.schema = true) : ∀ p ∈ v'.endState, p.eval d'.schema = true := by
  simp only [schemaClear, Bool.and_eq_true, List.all_eq_true, Bool.not_eq_true'] at h
  intro p hp
  obtain ⟨hneeds, hbars⟩ := h.1 p hp
  exact EndState.eval_mono (fun x hx hxs => hw.keeps x hxs (hneeds x hx))
    (fun x hx hxs => hw.brings x hxs (hbars x hx)) (hd p hp)

theorem seeded_kept {v' v : Version} (h : schemaClear v' v = true) (hr : rowsClear v' v = true)
    (hw : Within v.effect d d') (hd : v'.seeded d = true) : v'.seeded d' = true := by
  simp only [schemaClear, rowsClear, Bool.and_eq_true, List.all_eq_true, Bool.not_eq_true',
    decide_eq_false_iff_not] at h hr
  exact seeded_congr v' (fun p hp => hw.same p (hr p hp)) (fun x hx hxs => hw.brings x hxs (h.2 x hx)) hd

/-- Later migrations cannot reach the schema of earlier ones. -/
theorem schemaClear_all : all.Pairwise fun v' v => schemaClear v' v = true := by decide +kernel

/-- The pairs of migrations that write the same rows. -/
def shared : List (Version × Version) :=
  [(consolidateAutoSnapshots, backfillJstToUtc), (macroSeries, ecbDepositRateSource),
    (macroSeries, officialMacroSources), (macroSeries, usaPolicyRateSource),
    (macroSeries, usa10yYieldSource), (ecbDepositRateSource, officialMacroSources),
    (ecbDepositRateSource, usaPolicyRateSource), (ecbDepositRateSource, usa10yYieldSource),
    (officialMacroSources, usaPolicyRateSource), (officialMacroSources, usa10yYieldSource),
    (usaPolicyRateSource, usa10yYieldSource)]

theorem rowsClear_all :
    all.Pairwise fun v' v => rowsClear v' v = true ∨ (v', v) ∈ shared := by decide +kernel

end Version

/-! ### Rows that later migrations write -/

/-- A conversion takes no auto-snapshot in. -/
theorem convert_keeps (hok : BackfillJstToUtc.convert d = .ok d')
    (h : ConsolidateAutoSnapshots.verify d = true) : ConsolidateAutoSnapshots.verify d' = true := by
  cases hok
  unfold ConsolidateAutoSnapshots.verify at h ⊢
  simp only [Bool.or_eq_true, Bool.not_eq_true', List.all_eq_true] at h ⊢
  split_ifs
  · refine h.imp id fun hrows r hr => ?_
    obtain ⟨r', hr', rfl⟩ := List.mem_map.mp hr
    exact hrows r' hr'
  · exact h

def rowOf (d : Store) (slug : String) : Option MacroSeriesRow :=
  d.macroSeries.find? fun row => decide (row.slug = slug)

theorem slug_of_rowOf {slug : String} {row : MacroSeriesRow} (h : rowOf d slug = some row) :
    row.slug = slug := by
  unfold rowOf at h
  have := List.find?_some h
  exact of_decide_eq_true this

theorem pointed_iff {r : Repoint} : pointed d r = true ↔
    ∃ row, rowOf d r.slug = some row ∧ row.provider = r.provider ∧ row.sourceUrl = r.sourceUrl := by
  unfold pointed rowOf
  cases d.macroSeries.find? fun row => decide (row.slug = r.slug) <;> simp

theorem seriesExists_iff {slug : String} :
    MacroSeries.seriesExists d slug = true ↔ (rowOf d slug).isSome = true := by
  rw [MacroSeries.seriesExists, rowOf, List.find?_isSome, List.any_eq_true]

theorem fromMarketApi_iff {slug : String} : fromMarketApi d slug = true ↔
    ∃ row, rowOf d slug = some row ∧ row.provider = some "market-api" := by
  unfold fromMarketApi rowOf
  cases d.macroSeries.find? fun row => decide (row.slug = slug) <;> simp

/-- Rows rewritten one by one, under their slugs. -/
theorem rowOf_map {f : MacroSeriesRow → MacroSeriesRow} (hf : ∀ row, (f row).slug = row.slug)
    (hd : d'.macroSeries = d.macroSeries.map f) (slug : String) :
    rowOf d' slug = (rowOf d slug).map f := by
  rw [rowOf, rowOf, hd, List.find?_map]
  simp only [Function.comp_def, hf]

theorem rowOf_repoint (d : Store) (r : Repoint) (slug : String) :
    rowOf (repoint d r) slug = (rowOf d slug).map r.apply := by
  refine rowOf_map (fun row => ?_) rfl slug
  unfold Repoint.apply
  split_ifs <;> rfl

theorem rowOf_keepAllowed (allowed : List String) (d : Store) (slug : String) :
    rowOf (keepAllowed allowed d) slug = (rowOf d slug).map (allowedRow allowed) :=
  rowOf_map (f := allowedRow allowed) (fun _ => rfl) rfl slug

theorem rowOf_insertSeries {row row' : MacroSeriesRow} {slug : String} (h : rowOf d slug = some row) :
    rowOf (MacroSeries.insertSeries d row') slug = some row := by
  unfold MacroSeries.insertSeries
  split_ifs
  · exact h
  · rw [rowOf, List.find?_append]
    rw [rowOf] at h
    rw [h]
    rfl

section Rows

variable {r r' : Repoint} {slug : String} {allowed : List String} {row : MacroSeriesRow}

theorem seriesExists_repoint (h : MacroSeries.seriesExists d slug = true) :
    MacroSeries.seriesExists (repoint d r) slug = true := by
  rw [seriesExists_iff] at h ⊢
  rw [rowOf_repoint, Option.isSome_map]
  exact h

theorem seriesExists_keepAllowed (h : MacroSeries.seriesExists d slug = true) :
    MacroSeries.seriesExists (keepAllowed allowed d) slug = true := by
  rw [seriesExists_iff] at h ⊢
  rw [rowOf_keepAllowed, Option.isSome_map]
  exact h

theorem seriesExists_insertSeries (h : MacroSeries.seriesExists d slug = true) :
    MacroSeries.seriesExists (MacroSeries.insertSeries d row) slug = true := by
  rw [seriesExists_iff] at h ⊢
  obtain ⟨row', hrow⟩ := Option.isSome_iff_exists.mp h
  rw [rowOf_insertSeries hrow]
  rfl

/-- Another series is repointed. -/
theorem pointed_repoint (hne : r.slug ≠ r'.slug) (h : pointed d r = true) :
    pointed (repoint d r') r = true := by
  rw [pointed_iff] at h ⊢
  obtain ⟨row, hrow, hp⟩ := h
  refine ⟨row, ?_, hp⟩
  rw [rowOf_repoint, hrow, Option.map_some, Repoint.apply, if_neg (slug_of_rowOf hrow ▸ hne)]

theorem pointed_keepAllowed (hr : ∀ p ∈ r.provider, p ∈ allowed) (h : pointed d r = true) :
    pointed (keepAllowed allowed d) r = true := by
  rw [pointed_iff] at h ⊢
  obtain ⟨row, hrow, hp, hs⟩ := h
  refine ⟨allowedRow allowed row, by rw [rowOf_keepAllowed, hrow]; rfl, ?_, hs⟩
  simp only [allowedRow, hp]
  cases hprov : r.provider with
  | none => rfl
  | some p => exact Option.filter_some_pos (decide_eq_true (hr p hprov))

theorem pointed_insertSeries (h : pointed d r = true) :
    pointed (MacroSeries.insertSeries d row) r = true := by
  rw [pointed_iff] at h ⊢
  obtain ⟨row', hrow, hp⟩ := h
  exact ⟨row', rowOf_insertSeries hrow, hp⟩

theorem fromMarketApi_insertSeries (h : fromMarketApi d slug = true) :
    fromMarketApi (MacroSeries.insertSeries d row) slug = true := by
  rw [fromMarketApi_iff] at h ⊢
  obtain ⟨row', hrow, hp⟩ := h
  exact ⟨row', rowOf_insertSeries hrow, hp⟩

end Rows

/-! ### The law -/

section Later

variable {Q : Store → Prop}

/-- What only the rows of `macro_series` decide. -/
def OfSeries (Q : Store → Prop) : Prop := ∀ d d', d'.macroSeries = d.macroSeries → Q d → Q d'

theorem OfSeries.create (hQ : OfSeries Q) (texts : List SqlText) :
    Keeps Q (create .macroSeriesNew [] texts) := by
  intro d d' hd hok
  have hw : Within { gained := fun _ => true } d d' := stays_create (fun _ _ => rfl) d d' hok
  exact hQ d d' (hw.same .macroSeries (by decide)) hd

theorem OfSeries.rebuild (hQ : OfSeries Q) {allowed : List String} {texts : List SqlText}
    (ha : ∀ d, Q d → Q (keepAllowed allowed d)) :
    Keeps Q fun d => rebuild .macroSeries .macroSeriesNew [] texts (keepAllowed allowed d) := by
  intro d d' hd hok
  obtain ⟨-, rfl⟩ := rebuild_eq_ok hok
  exact hQ (keepAllowed allowed d) _ rfl (ha d hd)

theorem keeps_foldl {α : Type} {f : Store → α → Store} {as : List α}
    (h : ∀ a ∈ as, ∀ d, Q d → Q (f d a)) (hd : Q d) : Q (as.foldl f d) := by
  induction as generalizing d with
  | nil => exact hd
  | cons a as ih =>
    exact ih (fun a' ha' => h a' (List.mem_cons_of_mem _ ha')) (h a List.mem_cons_self d hd)

theorem EcbDepositRateSource.keeps (hr : ∀ d, Q d → Q (repoint d EcbDepositRateSource.source))
    (d₀ : Store) : ∀ tx ∈ EcbDepositRateSource.up d₀, Keeps Q tx := by
  intro tx htx d d' hd hok
  rw [List.mem_singleton.mp htx] at hok
  unfold onTable at hok
  split_ifs at hok
  cases hok
  exact hr d hd

theorem OfficialMacroSources.keeps (hQ : OfSeries Q)
    (hr : ∀ r ∈ OfficialMacroSources.sources, ∀ d, Q d → Q (repoint d r))
    (ha : ∀ d, Q d → Q (keepAllowed OfficialMacroSources.allowed d)) (d₀ : Store) :
    ∀ tx ∈ OfficialMacroSources.up d₀, Keeps Q tx := by
  have hpoint : Keeps Q (fun d => (.ok (sources.foldl repoint d) : Except MigrationError Store)) := by
    intro d d' hd hok
    cases hok
    exact keeps_foldl hr hd
  intro tx htx
  unfold OfficialMacroSources.up at htx
  split_ifs at htx <;>
    simp only [List.mem_append, List.mem_cons, List.not_mem_nil, or_false, false_or] at htx
  · rcases htx with (rfl | rfl) | rfl
    · exact hQ.create _
    · exact hQ.rebuild ha
    · exact hpoint
  · rw [htx]
    exact hpoint

theorem UsaPolicyRateSource.keeps (hQ : OfSeries Q)
    (ha : ∀ d, Q d → Q (keepAllowed UsaPolicyRateSource.allowed d))
    (hi : ∀ d, Q d → Q (MacroSeries.insertSeries d UsaPolicyRateSource.row)) (d₀ : Store) :
    ∀ tx ∈ UsaPolicyRateSource.up d₀, Keeps Q tx := by
  have hinsert :
      Keeps Q (fun d => (.ok (MacroSeries.insertSeries d row) : Except MigrationError Store)) := by
    intro d d' hd hok
    cases hok
    exact hi d hd
  intro tx htx
  unfold UsaPolicyRateSource.up at htx
  split_ifs at htx <;>
    simp only [List.mem_append, List.mem_cons, List.not_mem_nil, or_false, false_or] at htx
  · rw [htx]
    exact hinsert
  · rcases htx with (rfl | rfl) | rfl
    · exact hQ.create _
    · exact hQ.rebuild ha
    · exact hinsert

theorem Usa10yYieldSource.keeps
    (hi : ∀ d, Q d → Q (MacroSeries.insertSeries d Usa10yYieldSource.row)) (d₀ : Store) :
    ∀ tx ∈ Usa10yYieldSource.up d₀, Keeps Q tx := by
  intro tx htx
  unfold Usa10yYieldSource.up at htx
  split_ifs at htx
  · rw [List.mem_singleton.mp htx]
    intro d d' hd hok
    cases hok
    exact hi d hd
  · cases htx

end Later

theorem OfSeries.pointed (r : Repoint) : OfSeries fun d => Migrations.pointed d r = true := by
  intro d d' h hd
  simpa only [Migrations.pointed, h] using hd

namespace Version

theorem shared_kept {v' v : Version} (h : (v', v) ∈ shared) (d₀ : Store) :
    ∀ tx ∈ v.up d₀, Keeps (fun d => v'.seeded d = true) tx := by
  have hseries : OfSeries fun d => macroSeries.seeded d = true := by
    intro d d' h hd
    simpa only [seeded, MacroSeries.seriesExists, h] using hd
  have hsources : OfSeries fun d => officialMacroSources.seeded d = true := by
    intro d d' h hd
    exact List.all_eq_true.mpr fun r hr => OfSeries.pointed r d d' h (List.all_eq_true.mp hd r hr)
  have hall : ∀ {f : Store → Store}, (∀ d slug, MacroSeries.seriesExists d slug = true →
      MacroSeries.seriesExists (f d) slug = true) →
      ∀ d, macroSeries.seeded d = true → macroSeries.seeded (f d) = true := by
    intro f hf d hd
    exact List.all_eq_true.mpr fun row hrow => hf d row.slug (List.all_eq_true.mp hd row hrow)
  have hallp : ∀ {f : Store → Store}, (∀ r ∈ OfficialMacroSources.sources, ∀ d,
      Migrations.pointed d r = true → Migrations.pointed (f d) r = true) →
      ∀ d, officialMacroSources.seeded d = true → officialMacroSources.seeded (f d) = true := by
    intro f hf d hd
    exact List.all_eq_true.mpr fun r hr => hf r hr d (List.all_eq_true.mp hd r hr)
  simp only [shared, List.mem_cons, Prod.mk.injEq, List.not_mem_nil, or_false] at h
  rcases h with ⟨rfl, rfl⟩ | ⟨rfl, rfl⟩ | ⟨rfl, rfl⟩ | ⟨rfl, rfl⟩ | ⟨rfl, rfl⟩ | ⟨rfl, rfl⟩ |
    ⟨rfl, rfl⟩ | ⟨rfl, rfl⟩ | ⟨rfl, rfl⟩ | ⟨rfl, rfl⟩ | ⟨rfl, rfl⟩
  · intro tx htx d d' hd hok
    simp only [up, BackfillJstToUtc.up] at htx
    split_ifs at htx
    · cases htx
    · rw [List.mem_singleton.mp htx] at hok
      exact convert_keeps hok hd
    · cases htx
  · exact EcbDepositRateSource.keeps (hall fun d slug => seriesExists_repoint) d₀
  · exact OfficialMacroSources.keeps hseries (fun r _ => hall fun d slug => seriesExists_repoint)
      (hall fun d slug => seriesExists_keepAllowed) d₀
  · exact UsaPolicyRateSource.keeps hseries (hall fun d slug => seriesExists_keepAllowed)
      (hall fun d slug => seriesExists_insertSeries) d₀
  · exact Usa10yYieldSource.keeps (hall fun d slug => seriesExists_insertSeries) d₀
  · exact OfficialMacroSources.keeps (.pointed _)
      (fun r hr d => pointed_repoint (by revert r; decide)) (fun d => pointed_keepAllowed (by decide)) d₀
  · exact UsaPolicyRateSource.keeps (.pointed _) (fun d => pointed_keepAllowed (by decide))
      (fun d => pointed_insertSeries) d₀
  · exact Usa10yYieldSource.keeps (fun d => pointed_insertSeries) d₀
  · exact UsaPolicyRateSource.keeps hsources
      (hallp fun r hr d => pointed_keepAllowed (by revert r; decide))
      (hallp fun r _ d => pointed_insertSeries) d₀
  · exact Usa10yYieldSource.keeps (hallp fun r _ d => pointed_insertSeries) d₀
  · exact Usa10yYieldSource.keeps (fun d => fromMarketApi_insertSeries) d₀

end Version

theorem verify_record (v v' : Version) (d : Store) : v.verify (tracking.record v' d) = v.verify d := by
  cases v <;> rfl

/-- Later migrations keep the end-states of earlier ones. -/
theorem Version.kept : all.Pairwise fun v' v => ∀ d₀, ∀ tx ∈ v.up d₀,
    Keeps (fun d => v'.verify d = true) tx := by
  refine (schemaClear_all.and rowsClear_all).imp fun {v' v} h d₀ tx htx d d' hd hok => ?_
  have hw := v.up_stays d₀ tx htx d d' hok
  obtain ⟨hschema, hseeded⟩ := (verify_iff v' d).mp hd
  refine (verify_iff v' d').mpr ⟨endState_kept h.1 hw hschema, ?_⟩
  rcases h.2 with hr | hshared
  · exact seeded_kept h.1 hr hw hseeded
  · exact shared_kept hshared d₀ tx htx d d' hseeded hok

theorem lawful : tracking.Lawful migrations where
  recorded_record v d := by
    simp only [tracking]
    split_ifs with h <;> simp [h]
  recorded_keeps := by
    intro m _ v d d' hd hok
    obtain ⟨-, rfl⟩ := Tracking.close_eq_ok hok
    simp only [tracking, decide_eq_true_eq] at hd ⊢
    split_ifs
    · exact hd
    · exact List.mem_append_left _ hd
  verify_record := by
    intro m hm v d
    obtain ⟨v', -, rfl⟩ := List.mem_map.mp hm
    exact verify_record v' v d
  recorded_up := by
    intro m hm v d₀ tx htx d d' hd hok
    obtain ⟨v', -, rfl⟩ := List.mem_map.mp hm
    have hsame := (v'.up_stays d₀ tx htx d d' hok).same .versions (by cases v' <;> decide)
    simp only [tracking] at hd ⊢
    rw [show d'.versions = d.versions from hsame]
    exact hd
  kept := List.pairwise_map.mpr Version.kept

/-- The boot after a completed one changes nothing. -/
theorem runMigrations_of_ok (h : runMigrations d = .ok d') : runMigrations d' = .ok d' :=
  Tracking.run_of_applied (lawful.applied_of_run h)

end Migrations

end FinHub
