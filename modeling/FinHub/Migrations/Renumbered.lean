import FinHub.Lib.KeepFirst
import FinHub.Lib.Renumber
import FinHub.Migrations.Crash

/-!
# FinHub.Migrations.Renumbered

Databases that differ in the ids of their adjustments only (`SameData`). Carried out a second time,
migration 016 derives the same adjustments under new ids (`consolidate_again`). The migrations after it
do not tell such databases apart (`respected`): their links follow the ids.
-/

namespace FinHub

open Tabular Upgrade

namespace Migrations

/-! ## The same data -/

def Store.withRows (d : Store) (transactions : Table TransactionRow) (links : Table LinkRow) : Store :=
  { d with transactions := transactions, balanceAdjustmentLinks := links }

def renamed (σ : Equiv.Perm ℕ) (l : LinkRow) : LinkRow := ⟨σ l.balanceAdjustmentId, σ l.linkedTransactionId⟩

/-- The adjustments have the ids that `σ` gives them, and the links name them so. -/
structure Renumbers (σ : Equiv.Perm ℕ) (d d' : Store) : Prop where
  rest : d' = d.withRows d'.transactions d'.balanceAdjustmentLinks
  rows : Table.Renumbered σ d.transactions d'.transactions
  fixes : ∀ r ∈ d.transactions.rows, r.2.type ≠ .balanceAdjustment → σ r.1 = r.1
  links : (d'.balanceAdjustmentLinks.rows.map Prod.snd).Perm
    ((d.balanceAdjustmentLinks.rows.map Prod.snd).map (renamed σ))

/-- The same data, up to the ids of the adjustments. -/
def SameData (d d' : Store) : Prop := ∃ σ, Renumbers σ d d'

variable {d d' d'' c : Store} {σ τ : Equiv.Perm ℕ} {t : TableName} {columns : List ColumnName}
  {texts : List SqlText}

theorem SameData.refl (d : Store) : SameData d d :=
  ⟨Equiv.refl ℕ, rfl, .refl _, fun _ _ _ => rfl, List.Perm.of_eq (List.map_id _).symm⟩

theorem Renumbers.mem (h : Renumbers σ d d') {r : ℕ × TransactionRow} (hr : r ∈ d.transactions.rows) :
    (σ r.1, r.2) ∈ d'.transactions.rows :=
  (List.Perm.mem_iff h.rows).mpr (List.mem_map.mpr ⟨r, hr, rfl⟩)

theorem Renumbers.trans (h : Renumbers σ d d') (h' : Renumbers τ d' d'') : Renumbers (σ.trans τ) d d'' where
  rest := by
    have hrest := h'.rest
    rw [h.rest] at hrest
    exact hrest
  rows := h.rows.trans h'.rows
  fixes r hr ht := by
    have hσ := h.fixes r hr ht
    have hτ := h'.fixes _ (h.mem hr) ht
    rw [Equiv.trans_apply, hτ, hσ]
  links := by
    have hlinks := h'.links.trans (h.links.map (renamed τ))
    rw [List.map_map] at hlinks
    exact hlinks

theorem SameData.trans (h : SameData d d') (h' : SameData d' d'') : SameData d d'' := by
  obtain ⟨σ, h⟩ := h
  obtain ⟨τ, h'⟩ := h'
  exact ⟨σ.trans τ, h.trans h'⟩

/-! ## Statements that ignore the transactions and their links -/

def Ignores (tx : Statement) : Prop :=
  ∀ d transactions links, tx (d.withRows transactions links) =
    (tx d).map fun d => d.withRows transactions links

theorem Ignores.frame {tx : Statement} (h : Ignores tx) (hok : tx d = .ok d') :
    d'.transactions = d.transactions ∧ d'.balanceAdjustmentLinks = d.balanceAdjustmentLinks := by
  have hsame : tx d = (tx d).map fun d' => d'.withRows d.transactions d.balanceAdjustmentLinks :=
    h d d.transactions d.balanceAdjustmentLinks
  rw [hok] at hsame
  have hrows : d' = d'.withRows d.transactions d.balanceAdjustmentLinks := Except.ok.inj hsame
  constructor
  · rw [hrows]
    rfl
  · rw [hrows]
    rfl

theorem Ignores.respects {tx : Statement} (h : Ignores tx) : Respects SameData tx := by
  rintro d d' ⟨σ, hσ⟩
  rw [hσ.rest, h]
  cases hok : tx d with
  | error e => exact .error e
  | ok e =>
    obtain ⟨htransactions, hlinks⟩ := h.frame hok
    refine .ok ⟨σ, rfl, ?_, ?_, ?_⟩
    · rw [htransactions]
      exact hσ.rows
    · rw [htransactions]
      exact hσ.fixes
    · rw [hlinks]
      exact hσ.links

theorem ignores_pure {f : Store → Store}
    (h : ∀ d transactions links, f (d.withRows transactions links) = (f d).withRows transactions links) :
    Ignores fun d => .ok (f d) := fun d transactions links => congrArg Except.ok (h d transactions links)

theorem foldl_withRows {α : Type} {f : Store → α → Store}
    (h : ∀ d a transactions links, f (d.withRows transactions links) a = (f d a).withRows transactions links)
    (as : List α) (d : Store) (transactions : Table TransactionRow) (links : Table LinkRow) :
    as.foldl f (d.withRows transactions links) = (as.foldl f d).withRows transactions links := by
  induction as generalizing d with
  | nil => rfl
  | cons a as ih => rw [List.foldl_cons, List.foldl_cons, h, ih]

theorem ignores_commitAll {txs : List Statement} (h : ∀ tx ∈ txs, Ignores tx) : Ignores (commitAll txs) := by
  induction txs with
  | nil => exact fun d transactions links => rfl
  | cons tx txs ih =>
    intro d transactions links
    rw [commitAll_cons, commitAll_cons, h tx List.mem_cons_self]
    cases tx d with
    | error e => rfl
    | ok d₁ => exact ih (fun tx' htx' => h tx' (List.mem_cons_of_mem _ htx')) d₁ transactions links

theorem ignores_onTable {f : Store → Store}
    (h : ∀ d transactions links, f (d.withRows transactions links) = (f d).withRows transactions links) :
    Ignores (onTable t f) := by
  intro d transactions links
  have htable : (d.withRows transactions links).tableExists t = d.tableExists t := rfl
  unfold onTable
  rw [htable, h]
  split_ifs <;> rfl

theorem ignores_createIfMissing : Ignores (createIfMissing t columns texts) := by
  intro d transactions links
  have htable : (d.withRows transactions links).tableExists t = d.tableExists t := rfl
  unfold createIfMissing
  rw [htable]
  split_ifs <;> rfl

theorem ignores_create : Ignores (create t columns texts) := by
  intro d transactions links
  have htable : (d.withRows transactions links).tableExists t = d.tableExists t := rfl
  unfold create
  rw [htable]
  split_ifs <;> rfl

theorem ignores_addColumn {x : ColumnName} : Ignores (addColumn t x) := by
  intro d transactions links
  have hcolumn : (d.withRows transactions links).columnExists t x = d.columnExists t x := rfl
  unfold addColumn
  rw [hcolumn]
  split_ifs
  · rfl
  · exact ignores_onTable (fun _ _ _ => rfl) d transactions links

theorem TaxSchemaV2.ignores_addColumnIfTable {x : ColumnName} : Ignores (addColumnIfTable t x) := by
  intro d transactions links
  have htable : (d.withRows transactions links).tableExists t = d.tableExists t := rfl
  unfold addColumnIfTable
  rw [htable]
  split_ifs
  · exact ignores_addColumn d transactions links
  · rfl

theorem ignores_rebuild {scratch : TableName} : Ignores (rebuild t scratch columns texts) := by
  intro d transactions links
  have htable : (d.withRows transactions links).tableExists t = d.tableExists t := rfl
  have hschema : (d.withRows transactions links).schema = d.schema := rfl
  unfold rebuild
  rw [htable, hschema]
  split_ifs <;> rfl

/-! ## 017 to 028 -/

theorem DropTaxType.insertDefinition_withRows (row : TaxDefinitionRow) (d : Store)
    (transactions : Table TransactionRow) (links : Table LinkRow) :
    insertDefinition row (d.withRows transactions links) =
      (insertDefinition row d).withRows transactions links := by
  have hrows : (d.withRows transactions links).taxDefinitions = d.taxDefinitions := rfl
  unfold insertDefinition
  rw [hrows]
  split_ifs <;> rfl

theorem DropTaxType.ignores_up (d : Store) : ∀ tx ∈ up d, Ignores tx := by
  have hbackfill : Ignores backfillDefinition := by
    refine ignores_pure fun d transactions links => ?_
    rw [insertDefinition_withRows]
    rfl
  have hrebuild : Ignores rebuildTaxes := by
    intro d transactions links
    have htable : (d.withRows transactions links).tableExists .transactionTaxes =
        d.tableExists .transactionTaxes := rfl
    have hcolumns : (columns.all fun c => (d.withRows transactions links).columnExists .transactionTaxes c) =
        columns.all fun c => d.columnExists .transactionTaxes c := rfl
    have htaxes : (d.withRows transactions links).transactionTaxes = d.transactionTaxes := rfl
    unfold rebuildTaxes
    rw [htable, hcolumns, htaxes]
    split_ifs <;> rfl
  intro tx htx
  unfold up at htx
  split_ifs at htx
  · rw [List.mem_singleton.mp htx]
    refine ignores_commitAll fun tx htx => ?_
    simp only [List.mem_cons, List.not_mem_nil, or_false] at htx
    rcases htx with rfl | rfl | rfl
    · exact hbackfill
    · exact ignores_create
    · exact hrebuild
  · rcases List.mem_pair.mp htx with rfl | rfl
    · exact ignores_create
    · exact hrebuild
  · cases htx

theorem SeedTaxCatalog.ignores_seed : Ignores seed := by
  intro d transactions links
  have htables : (catalogTables.find? fun t => !(d.withRows transactions links).tableExists t) =
      catalogTables.find? fun t => !d.tableExists t := rfl
  have hbase : ∀ d base transactions links,
      seedBase (d.withRows transactions links) base = (seedBase d base).withRows transactions links := by
    intro d base transactions links
    have hof : baseOf (d.withRows transactions links) base.1.rulesetKey = baseOf d base.1.rulesetKey := rfl
    unfold seedBase
    rw [hof]
    cases baseOf d base.1.rulesetKey <;> rfl
  have hfee : ∀ d name transactions links,
      seedFee (d.withRows transactions links) name = (seedFee d name).withRows transactions links := by
    intro d name transactions links
    have hrows : (d.withRows transactions links).brokerFeeDefinitions = d.brokerFeeDefinitions := rfl
    unfold seedFee
    rw [hrows]
    split_ifs <;> rfl
  unfold seed
  rw [htables]
  cases catalogTables.find? fun t => !d.tableExists t with
  | some t => rfl
  | none =>
    dsimp only
    rw [DropTaxType.insertDefinition_withRows, DropTaxType.insertDefinition_withRows, foldl_withRows hbase,
      foldl_withRows hfee]
    rfl

theorem MacroSeries.insertSeries_withRows (d : Store) (row : MacroSeriesRow)
    (transactions : Table TransactionRow) (links : Table LinkRow) :
    insertSeries (d.withRows transactions links) row = (insertSeries d row).withRows transactions links := by
  have hrows : (d.withRows transactions links).macroSeries = d.macroSeries := rfl
  unfold insertSeries
  rw [hrows]
  split_ifs <;> rfl

/-- The migrations after 016 that read neither the transactions nor their links. -/
def Version.ignoring : List Version :=
  [addEntityMainCurrency, addProfileTimezone, taxSchemaV2, dropTaxType, seedTaxCatalog, macroSeries,
    ecbDepositRateSource, officialMacroSources, usaPolicyRateSource, usa10yYieldSource]

theorem Version.ignores_up {v : Version} (hv : v ∈ ignoring) (d : Store) : ∀ tx ∈ v.up d, Ignores tx := by
  have hseries : ∀ {allowed : List String} {texts : List SqlText},
      Ignores fun d => rebuild .macroSeries .macroSeriesNew [] texts (keepAllowed allowed d) :=
    fun d transactions links => ignores_rebuild (keepAllowed _ d) transactions links
  have hinsert : ∀ row, Ignores (insertRow row) := fun row =>
    ignores_pure fun d transactions links => MacroSeries.insertSeries_withRows d row transactions links
  simp only [ignoring, List.mem_cons, List.not_mem_nil, or_false] at hv
  intro tx htx
  rcases hv with rfl | rfl | rfl | rfl | rfl | rfl | rfl | rfl | rfl | rfl
  · rw [List.mem_singleton.mp htx]
    exact ignores_addColumn
  · rw [List.mem_singleton.mp htx]
    exact ignores_addColumn
  · have hmem : tx ∈ TaxSchemaV2.up d := htx
    simp only [TaxSchemaV2.up, List.mem_cons, List.not_mem_nil, or_false] at hmem
    rcases hmem with rfl | rfl | rfl | rfl | rfl | rfl | rfl | rfl
    iterate 5 exact ignores_createIfMissing
    iterate 2 exact TaxSchemaV2.ignores_addColumnIfTable
    exact fun _ _ _ => rfl
  · exact DropTaxType.ignores_up d tx htx
  · rw [List.mem_singleton.mp htx]
    exact SeedTaxCatalog.ignores_seed
  · have hmem : tx ∈ MacroSeries.up d := htx
    simp only [MacroSeries.up, List.mem_cons, List.not_mem_nil, or_false] at hmem
    rcases hmem with rfl | rfl | rfl
    · exact ignores_createIfMissing
    · exact ignores_createIfMissing
    · exact ignores_pure fun d transactions links =>
        foldl_withRows MacroSeries.insertSeries_withRows _ d transactions links
  · rw [List.mem_singleton.mp htx]
    exact ignores_onTable fun _ _ _ => rfl
  · have hmem : tx ∈ OfficialMacroSources.up d := htx
    have hsources : Ignores OfficialMacroSources.repointSources :=
      ignores_pure fun d transactions links => foldl_withRows (fun _ _ _ _ => rfl) _ d transactions links
    unfold OfficialMacroSources.up at hmem
    split_ifs at hmem
    · simp only [List.cons_append, List.nil_append, List.mem_cons, List.not_mem_nil, or_false] at hmem
      rcases hmem with rfl | rfl | rfl
      · exact ignores_create
      · exact hseries
      · exact hsources
    · rw [List.mem_singleton.mp hmem]
      exact hsources
    · cases hmem
  · have hmem : tx ∈ UsaPolicyRateSource.up d := htx
    unfold UsaPolicyRateSource.up at hmem
    split_ifs at hmem
    · rw [List.mem_singleton.mp hmem]
      exact hinsert _
    · simp only [List.cons_append, List.nil_append, List.mem_cons, List.not_mem_nil, or_false] at hmem
      rcases hmem with rfl | rfl | rfl
      · exact ignores_create
      · exact hseries
      · exact hinsert _
    · cases hmem
  · have hmem : tx ∈ Usa10yYieldSource.up d := htx
    unfold Usa10yYieldSource.up at hmem
    split_ifs at hmem
    · rw [List.mem_singleton.mp hmem]
      exact hinsert _
    · cases hmem

/-! ### The links -/

namespace PersistCashHandling

open KeepFirst

theorem newLinks_perm (h : Renumbers σ d d') : (newLinks d').Perm ((newLinks d).map (renamed σ)) := by
  have hinjections : (injections d').Perm ((injections d).map (Table.renumber σ)) :=
    h.rows.filter fun t : TransactionRow => decide (t.type = .balanceAdjustment) &&
      t.balanceSnapshotId.isNone && decide (t.notes = some "Inferred cash for investment purchases")
  have hspends : ∀ inj, (nextDaySpends d' inj).Perm ((nextDaySpends d inj).map (Table.renumber σ)) :=
    fun inj => h.rows.filter fun t : TransactionRow =>
      let day := Time.dayOf inj.timestamp.wall + 1
      let first : IsoStamp := { wall := Time.startOfDay day }
      let last : IsoStamp := { wall := Time.endOfDay day }
      decide (t.entityId = inj.entityId) && decide (t.currency = inj.currency) && t.type.isSpend &&
        decide (first.textKey ≤ t.timestamp.textKey) && decide (t.timestamp.textKey < last.textKey)
  have hlinks : (newLinks d').Perm ((((injections d).map (Table.renumber σ)).flatMap fun inj =>
      ((nextDaySpends d inj.2).map (Table.renumber σ)).map fun sp => (⟨inj.1, sp.1⟩ : LinkRow))) :=
    hinjections.flatMap fun inj _ => (hspends inj.2).map _
  refine hlinks.trans (List.Perm.of_eq ?_)
  simp only [newLinks, List.flatMap_map, List.map_flatMap, List.map_map]
  rfl

/-- The links afterwards, without their ids. -/
theorem contents_insertLink (ls : List LinkRow) (d : Store) :
    (ls.foldl insertLink d).balanceAdjustmentLinks.rows.map Prod.snd =
      keepFirst id (d.balanceAdjustmentLinks.rows.map Prod.snd) ls := by
  induction ls generalizing d with
  | nil => rfl
  | cons l ls ih =>
    rw [List.foldl_cons, ih, keepFirst_cons]
    refine congrArg (keepFirst id · ls) ?_
    have hthere : hasKey id (d.balanceAdjustmentLinks.rows.map Prod.snd) l =
        d.balanceAdjustmentLinks.rows.any fun r => decide (r.2 = l) := List.any_map
    show (insertLink d l).balanceAdjustmentLinks.rows.map Prod.snd =
      if hasKey id (d.balanceAdjustmentLinks.rows.map Prod.snd) l = true then _ else _
    rw [hthere]
    unfold insertLink
    split_ifs
    · rfl
    · exact List.map_append

theorem foldl_insertLink_frame (ls : List LinkRow) (d : Store) :
    ∃ links, ls.foldl insertLink d = d.withRows d.transactions links := by
  induction ls generalizing d with
  | nil => exact ⟨d.balanceAdjustmentLinks, rfl⟩
  | cons l ls ih =>
    obtain ⟨links, hrest⟩ := ih (insertLink d l)
    have hstep : ∃ links, insertLink d l = d.withRows d.transactions links := by
      unfold insertLink
      split_ifs
      · exact ⟨d.balanceAdjustmentLinks, rfl⟩
      · exact ⟨_, rfl⟩
    obtain ⟨links', hstep⟩ := hstep
    refine ⟨links, ?_⟩
    rw [List.foldl_cons, hrest, hstep]
    rfl

theorem renamed_injective (σ : Equiv.Perm ℕ) : (renamed σ).Injective := by
  intro l l' h
  obtain ⟨a, b⟩ := l
  obtain ⟨a', b'⟩ := l'
  obtain ⟨ha, hb⟩ := LinkRow.mk.inj h
  obtain rfl : a = a' := σ.injective ha
  obtain rfl : b = b' := σ.injective hb
  rfl

theorem respects_backfillLinks : Respects SameData backfillLinks := by
  rintro d d' ⟨σ, hσ⟩
  have hrows : ∀ d : Store, ((newLinks d).foldl insertLink d).transactions = d.transactions := fun d =>
    transactions_insertLink _ d
  refine .ok ⟨σ, ?_, ?_, ?_, ?_⟩
  · obtain ⟨links, hd⟩ := foldl_insertLink_frame (newLinks d) d
    obtain ⟨links', hd'⟩ := foldl_insertLink_frame (newLinks d') d'
    rw [hd, hd', hσ.rest]
    rfl
  · rw [hrows, hrows]
    exact hσ.rows
  · rw [hrows]
    exact hσ.fixes
  · rw [contents_insertLink, contents_insertLink, ← keepFirst_map (renamed_injective σ)]
    exact keepFirst_perm hσ.links (newLinks_perm hσ)

end PersistCashHandling

/-! ### The conversion -/

namespace BackfillJstToUtc

theorem verify_renumbers (h : Renumbers σ d d') : verify d' = verify d := by
  have htransactions : (d'.transactions.rows.all fun r => !hasSuffix r.2.timestamp) =
      d.transactions.rows.all fun r => !hasSuffix r.2.timestamp := by
    rw [List.Perm.all_eq h.rows, List.all_map]
    rfl
  rw [verify, htransactions, h.rest]
  rfl

theorem up_renumbers (h : Renumbers σ d d') : up d' = up d := by
  rw [up, verify_renumbers h, h.rest]
  rfl

theorem convertTransactions_renumbers (h : Renumbers σ d d') :
    Renumbers σ (convertTransactions d) (convertTransactions d') where
  rest := by
    rw [h.rest]
    rfl
  rows := by
    have hmap := List.Perm.map (fun r : ℕ × TransactionRow =>
      (r.1, { r.2 with timestamp := normalizeTimestamp r.2.timestamp })) h.rows
    rw [List.map_map] at hmap
    refine List.Perm.trans hmap (List.Perm.of_eq ?_)
    show _ = (d.transactions.rows.map _).map _
    rw [List.map_map]
    rfl
  fixes r hr ht := by
    obtain ⟨r', hr', rfl⟩ := List.mem_map.mp hr
    exact h.fixes r' hr' ht
  links := h.links

theorem respects_convert : Respects SameData convert := by
  rintro d d' ⟨σ, hσ⟩
  have hsnapshots : Ignores fun d =>
      .ok (if d.columnExists .balanceSnapshots .timestamp then convertSnapshots d else d) := by
    refine ignores_pure fun d transactions links => ?_
    have hcolumn : (d.withRows transactions links).columnExists .balanceSnapshots .timestamp =
        d.columnExists .balanceSnapshots .timestamp := rfl
    rw [hcolumn]
    split_ifs <;> rfl
  exact hsnapshots.respects _ _ ⟨σ, convertTransactions_renumbers hσ⟩

end BackfillJstToUtc

/-! ### The later migrations -/

theorem verify_renumbers (v : Version) (h : Renumbers σ d d') : v.verify d' = v.verify d := by
  by_cases hv : v = .backfillJstToUtc
  · rw [hv]
    exact BackfillJstToUtc.verify_renumbers h
  · rw [h.rest]
    cases v
    case backfillJstToUtc => exact absurd rfl hv
    all_goals rfl

theorem up_renumbers (v : Version) (h : Renumbers σ d d') : v.up d' = v.up d := by
  by_cases hv : v = .backfillJstToUtc
  · rw [hv]
    exact BackfillJstToUtc.up_renumbers h
  · rw [h.rest]
    cases v
    case backfillJstToUtc => exact absurd rfl hv
    all_goals rfl

/-- The migrations after 016. -/
def Version.later : List Version := (all.dropWhile fun v => decide (v ≠ consolidateAutoSnapshots)).tail

theorem Version.respects_up {v : Version} (hv : v ∈ later) (d : Store) :
    ∀ tx ∈ v.up d, Respects SameData tx := by
  have hcases : v = persistCashHandling ∨ v = backfillJstToUtc ∨ v ∈ ignoring := by
    revert v
    decide
  intro tx htx
  rcases hcases with rfl | rfl | hignoring
  · have hmem : tx ∈ PersistCashHandling.up d := htx
    simp only [PersistCashHandling.up, List.mem_cons, List.not_mem_nil, or_false] at hmem
    rcases hmem with rfl | rfl | rfl
    · exact ignores_addColumn.respects
    · exact ignores_createIfMissing.respects
    · exact PersistCashHandling.respects_backfillLinks
  · have hmem : tx ∈ BackfillJstToUtc.up d := htx
    unfold BackfillJstToUtc.up at hmem
    split_ifs at hmem
    · cases hmem
    · rw [List.mem_singleton.mp hmem]
      exact BackfillJstToUtc.respects_convert
    · cases hmem
  · exact (ignores_up hignoring d tx htx).respects

theorem record_sameData {v : Version} (d d' : Store) (h : SameData d d') :
    SameData (tracking.record v d) (tracking.record v d') := by
  obtain ⟨σ, hσ⟩ := h
  refine ⟨σ, ?_, hσ.rows, hσ.fixes, hσ.links⟩
  rw [hσ.rest]
  rfl

/-- The migrations after 016 do not tell the same data apart. -/
theorem respected {v : Version} (hv : v ∈ Version.later) : tracking.Respected SameData v.migration where
  recorded := by
    rintro d d' ⟨σ, hσ⟩
    rw [hσ.rest]
    rfl
  record := record_sameData
  verify := fun d d' ⟨_, hσ⟩ => verify_renumbers v hσ
  up := fun d d' ⟨_, hσ⟩ => up_renumbers v hσ
  respects := Version.respects_up hv

/-! ## 016, carried out again -/

namespace ConsolidateAutoSnapshots

variable {p p' : ℕ × Currency} {n : ℕ}

def adjustmentsOf (d : Store) (p : ℕ × Currency) : List (ℕ × TransactionRow) :=
  d.transactions.rows.filter fun r => isAdjustmentOf p r.2

theorem isAdjustmentOf_derived {t : TransactionRow} (ht : t ∈ derivedRows d p) :
    isAdjustmentOf p t = true := by
  rcases List.mem_append.mp ht with h | h
  · obtain ⟨entry, -, rfl⟩ := List.mem_map.mp h
    exact Bool.and_eq_true_iff.mpr ⟨decide_eq_true rfl, rfl⟩
  · obtain ⟨a, -, rfl⟩ := List.mem_map.mp h
    exact Bool.and_eq_true_iff.mpr ⟨decide_eq_true rfl, rfl⟩

/-- The rows that are left, and the derived ones under new ids. -/
theorem rows_reconcilePair (d : Store) (p : ℕ × Currency) : ∃ fresh : List (ℕ × TransactionRow),
    (reconcilePair d p).transactions.rows =
      (d.transactions.rows.filter fun r => !isAdjustmentOf p r.2) ++ fresh ∧
    fresh.map Prod.snd = derivedRows d p ∧
    ∀ r ∈ fresh, isAdjustmentOf p r.2 = true ∧ d.transactions.next ≤ r.1 := by
  obtain ⟨fresh, hrows, hsnd, hnext⟩ := Table.exists_inserted (derivedRows d p)
    (d.transactions.removeWhere fun r => isAdjustmentOf p r.2)
  refine ⟨fresh, hrows, hsnd, fun r hr => ⟨isAdjustmentOf_derived (d := d) ?_, hnext r hr⟩⟩
  rw [← hsnd]
  exact List.mem_map_of_mem hr

theorem manualOf_reconcilePair : manualOf (reconcilePair d p') p = manualOf d p := by
  unfold manualOf reconcilePair
  dsimp only [Table.removeWhere]
  rw [List.filter_filter]
  refine congrArg (List.insertionSort _) (List.filter_congr fun r _ => ?_)
  cases likeAuto r.2.notes <;> simp

theorem txnsOf_reconcilePair : txnsOf (reconcilePair d p') p = txnsOf d p := by
  obtain ⟨fresh, hrows, -, hfresh⟩ := rows_reconcilePair d p'
  unfold txnsOf
  rw [hrows, List.filter_append, List.filter_filter]
  have hnone : (fresh.filter fun r => decide (pairOf r.2 = p) &&
      decide (r.2.type ≠ .balanceAdjustment)) = [] := by
    refine List.filter_eq_nil_iff.mpr fun r hr => ?_
    obtain ⟨-, htype⟩ := Bool.and_eq_true_iff.mp (hfresh r hr).1
    rw [of_decide_eq_true htype]
    simp
  rw [hnone, List.append_nil]
  refine congrArg (List.insertionSort _) (List.filter_congr fun r _ => ?_)
  unfold isAdjustmentOf
  by_cases htype : r.2.type = .balanceAdjustment <;> simp [htype]

theorem derivedRows_reconcilePair (hmanual : manualOf d p ≠ []) :
    derivedRows (reconcilePair d p') p = derivedRows d p := by
  have hprofile : profileOf (reconcilePair d p') p = profileOf d p := by
    unfold profileOf
    rw [manualOf_reconcilePair]
    cases h : manualOf d p with
    | nil => exact absurd h hmanual
    | cons s rest => rfl
  rw [derivedRows, derivedRows, manualOf_reconcilePair, txnsOf_reconcilePair, hprofile]

theorem next_reconcilePair (d : Store) (p : ℕ × Currency) :
    d.transactions.next ≤ (reconcilePair d p).transactions.next :=
  Table.next_foldl_insert (derivedRows d p) (d.transactions.removeWhere fun r => isAdjustmentOf p r.2)

/-- The adjustments of a pair with a manual snapshot are those that would be derived, and none is older
than the id `n`. -/
structure Settled (n : ℕ) (d : Store) (p : ℕ × Currency) : Prop where
  manual : manualOf d p ≠ []
  rows : (adjustmentsOf d p).map Prod.snd = derivedRows d p
  fresh : ∀ r ∈ adjustmentsOf d p, n ≤ r.1

theorem settled_reconcilePair (hn : n ≤ d.transactions.next) (hmanual : manualOf d p ≠ []) :
    Settled n (reconcilePair d p) p := by
  obtain ⟨fresh, hrows, hsnd, hfresh⟩ := rows_reconcilePair d p
  have hadjustments : adjustmentsOf (reconcilePair d p) p = fresh := by
    unfold adjustmentsOf
    rw [hrows, List.filter_append, List.filter_filter, List.filter_eq_self.mpr fun r hr => (hfresh r hr).1]
    simp
  refine ⟨manualOf_reconcilePair.trans_ne hmanual, ?_, ?_⟩
  · rw [hadjustments, hsnd, derivedRows_reconcilePair hmanual]
  · rw [hadjustments]
    exact fun r hr => hn.trans (hfresh r hr).2

theorem Settled.reconcilePair (h : Settled n d p) (hn : n ≤ d.transactions.next) (p' : ℕ × Currency) :
    Settled n (ConsolidateAutoSnapshots.reconcilePair d p') p := by
  by_cases hp : p' = p
  · rw [hp]
    exact settled_reconcilePair hn h.manual
  obtain ⟨fresh, hrows, -, hfresh⟩ := rows_reconcilePair d p'
  have hother : ∀ r : ℕ × TransactionRow, isAdjustmentOf p r.2 = true → isAdjustmentOf p' r.2 = false := by
    intro r hr
    have hpair := of_decide_eq_true (Bool.and_eq_true_iff.mp hr).1
    unfold isAdjustmentOf
    rw [decide_eq_false fun he => hp (he.symm.trans hpair), Bool.false_and]
  have hadjustments : adjustmentsOf (ConsolidateAutoSnapshots.reconcilePair d p') p = adjustmentsOf d p := by
    unfold adjustmentsOf
    have hnone : (fresh.filter fun r => isAdjustmentOf p r.2) = [] := by
      refine List.filter_eq_nil_iff.mpr fun r hr hr' => ?_
      exact Bool.false_ne_true ((hother r hr').symm.trans (hfresh r hr).1)
    rw [hrows, List.filter_append, List.filter_filter, hnone, List.append_nil]
    refine List.filter_congr fun r _ => ?_
    cases hr : isAdjustmentOf p r.2 with
    | true => rw [hother r hr]; rfl
    | false => rfl
  refine ⟨manualOf_reconcilePair.trans_ne h.manual, ?_, ?_⟩
  · rw [hadjustments, h.rows, derivedRows_reconcilePair h.manual]
  · rw [hadjustments]
    exact h.fresh

theorem Settled.foldl (h : Settled n d p) (hn : n ≤ d.transactions.next) (ps : List (ℕ × Currency)) :
    Settled n (ps.foldl ConsolidateAutoSnapshots.reconcilePair d) p := by
  induction ps generalizing d with
  | nil => exact h
  | cons p' ps ih => exact ih (h.reconcilePair hn p') (hn.trans (next_reconcilePair d p'))

theorem next_foldl (ps : List (ℕ × Currency)) (d : Store) :
    d.transactions.next ≤ (ps.foldl reconcilePair d).transactions.next := by
  induction ps generalizing d with
  | nil => exact le_rfl
  | cons p ps ih => exact (next_reconcilePair d p).trans (ih _)

/-- Every pair that was gone over is settled, if it has a manual snapshot. -/
theorem settled_foldl {ps : List (ℕ × Currency)} (hp : p ∈ ps) (hmanual : manualOf d p ≠ [])
    (hn : n ≤ d.transactions.next) : Settled n (ps.foldl reconcilePair d) p := by
  induction ps generalizing d with
  | nil => cases hp
  | cons p' ps ih =>
    have hn' := hn.trans (next_reconcilePair d p')
    rcases List.mem_cons.mp hp with rfl | hp
    · exact (settled_reconcilePair hn hmanual).foldl hn' ps
    · exact ih hp (manualOf_reconcilePair.trans_ne hmanual) hn'

/-- No auto-snapshot of the pairs that were gone over is left. -/
theorem snapshots_foldl {ps : List (ℕ × Currency)} {r : ℕ × SnapshotRow}
    (hr : r ∈ (ps.foldl reconcilePair d).balanceSnapshots.rows) :
    r ∈ d.balanceSnapshots.rows ∧ ((r.2.entityId, r.2.currency) ∈ ps → likeAuto r.2.notes = false) := by
  induction ps generalizing d with
  | nil => exact ⟨hr, fun h => absurd h List.not_mem_nil⟩
  | cons p ps ih =>
    obtain ⟨hmem, hrest⟩ := ih hr
    obtain ⟨hmem, hkept⟩ := Table.mem_removeWhere.mp hmem
    refine ⟨hmem, fun h => ?_⟩
    rcases List.mem_cons.mp h with hp | hp
    · rw [decide_eq_true hp, Bool.true_and] at hkept
      exact hkept
    · exact hrest hp

theorem mem_pairs {p : ℕ × Currency} :
    p ∈ pairs d ↔ ∃ r ∈ d.balanceSnapshots.rows, (r.2.entityId, r.2.currency) = p := by
  rw [pairs, List.mem_eraseDups, List.mem_map]

/-- No snapshot is an auto-snapshot. -/
def NoAuto (d : Store) : Prop := ∀ r ∈ d.balanceSnapshots.rows, likeAuto r.2.notes = false

/-- Every link names ids below `n`. -/
def LinksBelow (n : ℕ) (d : Store) : Prop :=
  ∀ r ∈ d.balanceAdjustmentLinks.rows, r.2.balanceAdjustmentId < n ∧ r.2.linkedTransactionId < n

/-- A settled pair is derived again under new ids. -/
theorem Settled.sameData (h : Settled n d p) (hauto : NoAuto d) (hlinks : LinksBelow n d)
    (hn : n ≤ d.transactions.next) : SameData d (ConsolidateAutoSnapshots.reconcilePair d p) := by
  obtain ⟨σ, hσ, hfix⟩ := d.transactions.exists_renumbered_reinsert fun r => isAdjustmentOf p r.2
  have hrows : ((d.transactions.rows.filter fun r => isAdjustmentOf p r.2).map Prod.snd) = derivedRows d p :=
    h.rows
  rw [hrows] at hσ
  have hsnapshots : (d.balanceSnapshots.removeWhere fun r =>
      decide ((r.2.entityId, r.2.currency) = p) && likeAuto r.2.notes) = d.balanceSnapshots := by
    refine d.balanceSnapshots.removeWhere_eq_self fun r hr => ?_
    rw [hauto r hr, Bool.and_false]
  refine ⟨σ, ?_, hσ, fun r hr htype => ?_, ?_⟩
  · unfold ConsolidateAutoSnapshots.reconcilePair
    rw [hsnapshots]
    rfl
  · refine hfix r.1 (d.transactions.bounded r hr) fun r' hr' hadjustment he => htype ?_
    have hsame : r' = r := Prod.ext he (d.transactions.unique (he ▸ hr') hr)
    rw [hsame] at hadjustment
    exact of_decide_eq_true (Bool.and_eq_true_iff.mp hadjustment).2
  · have hold : ∀ k < n, σ k = k := by
      intro k hk
      refine hfix k (hk.trans_le hn) fun r hr hadjustment => ?_
      exact (hk.trans_le (h.fresh r (List.mem_filter.mpr ⟨hr, hadjustment⟩))).ne'
    refine List.Perm.of_eq ((List.map_id _).symm.trans (List.map_congr_left fun l hl => ?_))
    obtain ⟨r, hr, rfl⟩ := List.mem_map.mp hl
    obtain ⟨h1, h2⟩ := hlinks r hr
    rw [renamed, hold _ h1, hold _ h2]
    rfl

theorem sameData_foldl {ps : List (ℕ × Currency)} (h : ∀ p ∈ ps, Settled n d p) (hauto : NoAuto d)
    (hlinks : LinksBelow n d) (hn : n ≤ d.transactions.next) : SameData d (ps.foldl reconcilePair d) := by
  induction ps generalizing d with
  | nil => exact .refl d
  | cons p ps ih =>
    refine ((h p List.mem_cons_self).sameData hauto hlinks hn).trans (ih ?_ ?_ hlinks ?_)
    · exact fun p' hp' => (h p' (List.mem_cons_of_mem _ hp')).reconcilePair hn p
    · exact fun r hr => hauto r (Table.mem_removeWhere.mp hr).1
    · exact hn.trans (next_reconcilePair d p)

/-- Carried out again, the consolidation gives the adjustments new ids and nothing else. -/
theorem consolidate_again (h : consolidate d = .ok c) (hlinks : LinksBelow d.transactions.next c) :
    ∃ c', consolidate c = .ok c' ∧ SameData c c' := by
  unfold consolidate at h ⊢
  refine ⟨_, rfl, ?_⟩
  by_cases htable : c.tableExists .balanceSnapshots = true
  swap
  · rw [if_neg htable]
    exact .refl c
  rw [if_pos htable]
  obtain rfl := Except.ok.inj h
  by_cases hold : d.tableExists .balanceSnapshots = true
  · simp only [hold, if_true] at hlinks ⊢
    have hsnapshots : ∀ r ∈ ((pairs d).foldl reconcilePair d).balanceSnapshots.rows,
        r ∈ d.balanceSnapshots.rows ∧ likeAuto r.2.notes = false := by
      intro r hr
      obtain ⟨hmem, hkept⟩ := snapshots_foldl hr
      exact ⟨hmem, hkept (mem_pairs.mpr ⟨r, hmem, rfl⟩)⟩
    refine sameData_foldl (fun p hp => ?_) (fun r hr => (hsnapshots r hr).2) hlinks (next_foldl _ d)
    obtain ⟨r, hr, rfl⟩ := mem_pairs.mp hp
    obtain ⟨hmem, hmanual⟩ := hsnapshots r hr
    refine settled_foldl (mem_pairs.mpr ⟨r, hmem, rfl⟩) (List.ne_nil_of_mem (a := r) ?_) le_rfl
    rw [manualOf, List.mem_insertionSort, List.mem_filter]
    exact ⟨hmem, by simp [hmanual]⟩
  · rw [if_neg hold] at htable
    exact absurd htable hold

end ConsolidateAutoSnapshots

end Migrations

end FinHub
