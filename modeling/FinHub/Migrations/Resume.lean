import FinHub.Migrations.Lawful

/-!
# FinHub.Migrations.Resume

Boots after a crash. A stop keeps what was committed: a part of the transactions of one migration, and
everything before it.
-/

namespace FinHub

open Tabular Upgrade

namespace Migrations

variable {d d' d₁ c : Store} {t : TableName} {x : ColumnName} {columns : List ColumnName}
  {texts : List SqlText}

/-! ## The effect of a part of a migration -/

theorem within_of_stop {v : Version} {k : ℕ} (h : commitAll ((v.up d₁).take k) d₁ = .ok c) :
    Within v.effect d₁ c :=
  stays_commitAll (fun tx htx => v.up_stays d₁ tx (List.mem_of_mem_take htx)) d₁ c h

theorem Within.has_eq {e : Effect} (h : Within e d d') {i : SchemaItem} (hl : e.lost i = false)
    (hg : e.gained i = false) : d'.has i = d.has i :=
  decide_eq_decide.mpr ⟨fun hi => h.brings i hi hg, fun hi => h.keeps i hi hl⟩

/-! ## Statements about the schema of one table -/

/-- Two databases have the same table of a name, with its columns and texts. -/
def SameTable (t : TableName) (d d' : Store) : Prop :=
  ∀ i : SchemaItem, i.tableName = t → (i ∈ d.schema ↔ i ∈ d'.schema)

/-- A statement that depends on one table of the schema, changes no other and is done once. -/
structure OnlyTable (t : TableName) (tx : Statement) : Prop where
  again : ∀ d d', tx d = .ok d' → tx d' = .ok d'
  read : ∀ d d', SameTable t d d' → tx d = .ok d → tx d' = .ok d'
  frame : ∀ d d', tx d = .ok d' → ∀ t' ≠ t, SameTable t' d d'

theorem exists_onlyTable {ts : List TableName} {txs : List Statement} (h : List.Forall₂ OnlyTable ts txs)
    {tx : Statement} (htx : tx ∈ txs) : ∃ t ∈ ts, OnlyTable t tx := by
  induction h with
  | nil => cases htx
  | cons hhead _ ih =>
    rcases List.mem_cons.mp htx with rfl | htx
    · exact ⟨_, List.mem_cons_self, hhead⟩
    · obtain ⟨t, ht, h⟩ := ih htx
      exact ⟨t, List.mem_cons_of_mem _ ht, h⟩

/-- Statements about different tables do not undo each other. -/
theorem lasting_of_tables {ts : List TableName} {txs : List Statement} (h : List.Forall₂ OnlyTable ts txs)
    (hts : ts.Nodup) : Lasting txs := by
  refine ⟨fun tx htx => ?_, ?_⟩
  · obtain ⟨t, -, ht⟩ := exists_onlyTable h htx
    exact ht.again
  · induction h with
    | nil => exact List.Pairwise.nil
    | cons hhead hrest ih =>
      obtain ⟨hnot, hts⟩ := List.nodup_cons.mp hts
      refine List.pairwise_cons.mpr ⟨fun tx' htx' d d' hdone hok => ?_, ih hts⟩
      obtain ⟨t', ht', h'⟩ := exists_onlyTable hrest htx'
      exact hhead.read d d' (h'.frame d d' hok _ fun he => hnot (he ▸ ht')) hdone

theorem tableName_of_mem {i : SchemaItem} (h : i ∈ tableItems t columns texts) : i.tableName = t := by
  rw [tableItems, List.mem_toFinset, List.mem_append, List.mem_cons, List.mem_map, List.mem_map] at h
  rcases h with (rfl | ⟨c, -, rfl⟩) | ⟨s, -, rfl⟩ <;> rfl

theorem table_mem_tableItems : SchemaItem.table t ∈ tableItems t columns texts := by
  rw [tableItems, List.mem_toFinset]
  exact List.mem_append_left _ List.mem_cons_self

theorem sameTable_withItems {items : Finset SchemaItem} (h : ∀ i ∈ items, i.tableName = t) {t' : TableName}
    (hne : t' ≠ t) (d : Store) : SameTable t' d (d.withItems items) := by
  intro i hi
  refine ⟨fun hd => Finset.mem_union_left _ hd, fun hd => ?_⟩
  rcases Finset.mem_union.mp hd with hd | hd
  · exact hd
  · exact absurd (hi.symm.trans (h i hd)) hne

theorem subset_of_withItems_eq {items : Finset SchemaItem} (h : d.withItems items = d) :
    items ⊆ d.schema := by
  intro i hi
  rw [← h]
  exact Finset.mem_union_right _ hi

theorem createIfMissing_eq_self :
    createIfMissing t columns texts d = .ok d ↔ d.tableExists t = true := by
  unfold createIfMissing
  split_ifs with h
  · exact iff_of_true rfl h
  · refine iff_of_false (fun hd => h ?_) h
    exact decide_eq_true (subset_of_withItems_eq (Except.ok.inj hd) table_mem_tableItems)

theorem onlyTable_createIfMissing (t : TableName) (columns : List ColumnName) (texts : List SqlText) :
    OnlyTable t (createIfMissing t columns texts) where
  again d d' h := by
    rw [createIfMissing_eq_self]
    unfold createIfMissing at h
    split_ifs at h with ht
    · rw [← Except.ok.inj h]
      exact ht
    · rw [← Except.ok.inj h]
      exact decide_eq_true (Finset.mem_union_right _ table_mem_tableItems)
  read d d' hsame h := by
    rw [createIfMissing_eq_self] at h ⊢
    exact decide_eq_true ((hsame _ rfl).mp (of_decide_eq_true h))
  frame d d' h t' hne := by
    unfold createIfMissing at h
    rw [← Except.ok.inj h]
    split_ifs
    · exact fun _ _ => Iff.rfl
    · exact sameTable_withItems (fun _ => tableName_of_mem) hne d

theorem addColumn_cases (h : addColumn t x d = .ok d') :
    d.columnExists t x = true ∧ d' = d ∨ d.tableExists t = true ∧ d' = d.withItems {.column t x} := by
  unfold addColumn onTable at h
  split_ifs at h with hcolumn htable
  · exact .inl ⟨hcolumn, (Except.ok.inj h).symm⟩
  · exact .inr ⟨htable, (Except.ok.inj h).symm⟩

theorem addColumn_eq_self : addColumn t x d = .ok d ↔ d.columnExists t x = true := by
  constructor
  · intro h
    rcases addColumn_cases h with ⟨hcolumn, -⟩ | ⟨-, hd⟩
    · exact hcolumn
    · exact decide_eq_true (subset_of_withItems_eq hd.symm (Finset.mem_singleton_self _))
  · intro h
    rw [addColumn, if_pos h]

theorem columnExists_of_addColumn (h : addColumn t x d = .ok d') : d'.columnExists t x = true := by
  rcases addColumn_cases h with ⟨hcolumn, rfl⟩ | ⟨-, rfl⟩
  · exact hcolumn
  · exact decide_eq_true (Finset.mem_union_right _ (Finset.mem_singleton_self _))

theorem onlyTable_addColumn (t : TableName) (x : ColumnName) : OnlyTable t (addColumn t x) where
  again d d' h := addColumn_eq_self.mpr (columnExists_of_addColumn h)
  read d d' hsame h := by
    rw [addColumn_eq_self] at h ⊢
    exact decide_eq_true ((hsame _ rfl).mp (of_decide_eq_true h))
  frame d d' h t' hne := by
    rcases addColumn_cases h with ⟨-, rfl⟩ | ⟨-, rfl⟩
    · exact fun _ _ => Iff.rfl
    · refine sameTable_withItems (fun i hi => ?_) hne d
      rw [Finset.mem_singleton.mp hi]
      rfl

namespace TaxSchemaV2

theorem addColumnIfTable_eq_self :
    addColumnIfTable t x d = .ok d ↔ (d.tableExists t = true → d.columnExists t x = true) := by
  unfold addColumnIfTable
  split_ifs with h
  · rw [addColumn_eq_self]
    exact ⟨fun hx _ => hx, fun hx => hx h⟩
  · exact iff_of_true rfl fun ht => absurd ht h

theorem onlyTable_addColumnIfTable (t : TableName) (x : ColumnName) : OnlyTable t (addColumnIfTable t x) where
  again d d' h := by
    rw [addColumnIfTable_eq_self]
    intro ht
    unfold addColumnIfTable at h
    split_ifs at h with htable
    · exact columnExists_of_addColumn h
    · rw [← Except.ok.inj h] at ht
      exact absurd ht htable
  read d d' hsame h := by
    rw [addColumnIfTable_eq_self] at h ⊢
    intro ht
    have hcolumn := h (decide_eq_true ((hsame _ rfl).mpr (of_decide_eq_true ht)))
    exact decide_eq_true ((hsame _ rfl).mp (of_decide_eq_true hcolumn))
  frame d d' h t' hne := by
    unfold addColumnIfTable at h
    split_ifs at h
    · exact (onlyTable_addColumn t x).frame d d' h t' hne
    · rw [← Except.ok.inj h]
      exact fun _ _ => Iff.rfl

theorem dropTaxRates_eq_self : dropTaxRates d = .ok d ↔ ∀ i ∈ d.schema, i.tableName ≠ .taxRates := by
  unfold dropTaxRates
  rw [← Finset.filter_eq_self]
  constructor
  · intro h
    exact congrArg Store.schema (Except.ok.inj h)
  · intro h
    rw [h]

theorem onlyTable_dropTaxRates : OnlyTable .taxRates dropTaxRates where
  again d d' h := by
    rw [dropTaxRates_eq_self, ← Except.ok.inj h]
    exact fun i hi => (Finset.mem_filter.mp hi).2
  read d d' hsame h := by
    rw [dropTaxRates_eq_self] at h ⊢
    intro i hi ht
    exact h i ((hsame i ht).mpr hi) ht
  frame d d' h t' hne := by
    rw [← Except.ok.inj h]
    intro i hi
    refine ⟨fun hd => Finset.mem_filter.mpr ⟨hd, ?_⟩, fun hd => (Finset.mem_filter.mp hd).1⟩
    rw [hi]
    exact hne

theorem up_lasting (d : Store) : Lasting (up d) := by
  have htables : List.Forall₂ OnlyTable [.taxBases, .taxBaseCategories, .taxBaseRates, .taxDefinitions,
      .brokerFeeDefinitions, .transactionTaxes, .transactionFees, .taxRates] (up d) :=
    .cons (onlyTable_createIfMissing _ _ _) <| .cons (onlyTable_createIfMissing _ _ _) <|
      .cons (onlyTable_createIfMissing _ _ _) <| .cons (onlyTable_createIfMissing _ _ _) <|
      .cons (onlyTable_createIfMissing _ _ _) <| .cons (onlyTable_addColumnIfTable _ _) <|
      .cons (onlyTable_addColumnIfTable _ _) <| .cons onlyTable_dropTaxRates .nil
  exact lasting_of_tables htables (by decide)

end TaxSchemaV2

/-! ## The migrations that can be carried out again -/

theorem IncomeCategory.up_lasting (d : Store) : Lasting (IncomeCategory.up d) :=
  lasting_of_tables (.cons (onlyTable_addColumn _ _) (.cons (onlyTable_addColumn _ _) .nil)) (by decide)

theorem FiscalPeriods.up_lasting (d : Store) : Lasting (FiscalPeriods.up d) :=
  lasting_of_tables (.cons (onlyTable_createIfMissing _ _ _) (.cons (onlyTable_addColumn _ _) .nil))
    (by decide)

theorem TaxRates.up_lasting (d : Store) : Lasting (TaxRates.up d) :=
  lasting_of_tables (.cons (onlyTable_createIfMissing _ _ _) (.cons (onlyTable_addColumn _ _) .nil))
    (by decide)

theorem sameTable_of_schema (h : d'.schema = d.schema) (t : TableName) : SameTable t d d' := by
  intro i _
  rw [h]

theorem foldl_schema {α : Type} {f : Store → α → Store} (h : ∀ d a, (f d a).schema = d.schema) (as : List α)
    (d : Store) : (as.foldl f d).schema = d.schema := by
  induction as generalizing d with
  | nil => rfl
  | cons a as ih => exact (ih _).trans (h d a)

/-- Rows that are written last leave the schema as it is. -/
theorem lasting_of_tables_rows {ts : List TableName} {txs : List Statement} {tx : Statement}
    (h : List.Forall₂ OnlyTable ts txs) (hts : ts.Nodup)
    (hschema : ∀ d d', tx d = .ok d' → d'.schema = d.schema)
    (hagain : ∀ d d', tx d = .ok d' → tx d' = .ok d') : Lasting (txs ++ [tx]) := by
  refine (lasting_of_tables h hts).concat (fun tx' htx' d d' hd hok => ?_) hagain
  obtain ⟨t, -, ht⟩ := exists_onlyTable h htx'
  exact ht.read d d' (sameTable_of_schema (hschema d d' hok) t) hd

namespace PersistCashHandling

theorem schema_insertLink (d : Store) (l : LinkRow) : (insertLink d l).schema = d.schema := by
  unfold insertLink
  split_ifs <;> rfl

theorem lasting_insertLink (ls : List LinkRow) :
    Lasting (ls.map fun l d => (.ok (insertLink d l) : Except MigrationError Store)) := by
  refine lasting_inserts (P := fun l d => ∃ r ∈ d.balanceAdjustmentLinks.rows, r.2 = l) ?_ ?_ ?_
  · rintro l d ⟨r, hr, rfl⟩
    exact if_pos (List.any_eq_true.mpr ⟨r, hr, decide_eq_true rfl⟩)
  · intro l _ d
    unfold insertLink
    split_ifs with h
    · obtain ⟨r, hr, hl⟩ := List.any_eq_true.mp h
      exact ⟨r, hr, of_decide_eq_true hl⟩
    · exact ⟨_, Table.mem_insert.mpr (.inr rfl), rfl⟩
  · rintro l l' d ⟨r, hr, rfl⟩
    unfold insertLink
    split_ifs
    · exact ⟨r, hr, rfl⟩
    · exact ⟨r, Table.mem_insert.mpr (.inl hr), rfl⟩

theorem newLinks_congr (h : d'.transactions = d.transactions) : newLinks d' = newLinks d := by
  simp only [newLinks, injections, nextDaySpends, h]

theorem transactions_insertLink (ls : List LinkRow) (d : Store) :
    (ls.foldl insertLink d).transactions = d.transactions := by
  induction ls generalizing d with
  | nil => rfl
  | cons l ls ih =>
    refine (ih _).trans ?_
    unfold insertLink
    split_ifs <;> rfl

theorem backfillLinks_again (h : backfillLinks d = .ok d') : backfillLinks d' = .ok d' := by
  rw [← Except.ok.inj h, backfillLinks, newLinks_congr (transactions_insertLink _ _)]
  exact congrArg Except.ok (foldl_again (lasting_insertLink (newLinks d)))

theorem up_lasting (d : Store) : Lasting (up d) := by
  refine lasting_of_tables_rows (.cons (onlyTable_addColumn .transactions .cashHandling)
    (.cons (onlyTable_createIfMissing .balanceAdjustmentLinks [] []) .nil)) (by decide) ?_
    fun d d' => backfillLinks_again
  intro d d' h
  rw [← Except.ok.inj h]
  exact foldl_schema schema_insertLink _ d

end PersistCashHandling

namespace MacroSeries

theorem schema_insertSeries (d : Store) (row : MacroSeriesRow) : (insertSeries d row).schema = d.schema := by
  unfold insertSeries
  split_ifs <;> rfl

theorem lasting_insertSeries (rows : List MacroSeriesRow) :
    Lasting (rows.map fun row d => (.ok (insertSeries d row) : Except MigrationError Store)) := by
  refine lasting_inserts (P := fun row d => ∃ r ∈ d.macroSeries, r.slug = row.slug) ?_ ?_ ?_
  · rintro row d ⟨r, hr, hs⟩
    exact if_pos (List.any_eq_true.mpr ⟨r, hr, decide_eq_true hs⟩)
  · intro row _ d
    unfold insertSeries
    split_ifs with h
    · obtain ⟨r, hr, hs⟩ := List.any_eq_true.mp h
      exact ⟨r, hr, of_decide_eq_true hs⟩
    · exact ⟨row, List.mem_append_right _ (List.mem_singleton_self _), rfl⟩
  · rintro row row' d ⟨r, hr, hs⟩
    unfold insertSeries
    split_ifs
    · exact ⟨r, hr, hs⟩
    · exact ⟨r, List.mem_append_left _ hr, hs⟩

theorem up_lasting (d : Store) : Lasting (up d) := by
  refine lasting_of_tables_rows (.cons (onlyTable_createIfMissing .macroSeries [] [.boj, .fred])
    (.cons (onlyTable_createIfMissing .macroSeriesObservations [] []) .nil)) (by decide) ?_ ?_
  · intro d d' h
    rw [← Except.ok.inj h]
    exact foldl_schema schema_insertSeries _ d
  · intro d d' h
    rw [← Except.ok.inj h]
    exact congrArg Except.ok (foldl_again (lasting_insertSeries series))

end MacroSeries

namespace SeedTaxCatalog

/-- What `seed` inserts where it is missing. -/
inductive CatalogItem where
  | definition (row : TaxDefinitionRow)
  | base (base : TaxBaseRow × Bool)
  | fee (name : String)

def insertItem (d : Store) : CatalogItem → Store
  | .definition row => DropTaxType.insertDefinition row d
  | .base base => seedBase d base
  | .fee name => seedFee d name

def Present (d : Store) : CatalogItem → Prop
  | .definition row => definitionExists d row.slug = true
  | .base base => (baseOf d base.1.rulesetKey).isSome = true
  | .fee name => feeExists d name = true

def items : List CatalogItem :=
  [.definition DropTaxType.genericWithholding, .definition tasaTobin] ++ bases.map .base ++
    brokerFees.map .fee

theorem foldl_items (d : Store) : items.foldl insertItem d =
    brokerFees.foldl seedFee (bases.foldl seedBase
      (DropTaxType.insertDefinition tasaTobin
        (DropTaxType.insertDefinition DropTaxType.genericWithholding d))) := by
  rw [items, List.foldl_append, List.foldl_append, List.foldl_map, List.foldl_map]
  rfl

theorem seedBase_cases (d : Store) (base : TaxBaseRow × Bool) :
    seedBase d base = d ∧ (baseOf d base.1.rulesetKey).isSome = true ∨
      (seedBase d base).taxBases = d.taxBases.insert base.1 ∧
        (seedBase d base).taxDefinitions = d.taxDefinitions ∧
        (seedBase d base).brokerFeeDefinitions = d.brokerFeeDefinitions := by
  unfold seedBase
  cases baseOf d base.1.rulesetKey with
  | some id => exact .inl ⟨rfl, rfl⟩
  | none => exact .inr ⟨rfl, rfl, rfl⟩

theorem isSome_baseOf {d : Store} {ruleset_key : String} : (baseOf d ruleset_key).isSome = true ↔
    ∃ r ∈ d.taxBases.rows, r.2.rulesetKey = ruleset_key ∧ r.2.yearStart = none := by
  rw [baseOf, Option.isSome_map, List.find?_isSome]
  simp only [Bool.and_eq_true, decide_eq_true_eq, Option.isNone_iff_eq_none]

theorem definitionExists_iff {d : Store} {slug : String} :
    definitionExists d slug = true ↔ ∃ r ∈ d.taxDefinitions.rows, r.2.slug = slug := by
  simp only [definitionExists, List.any_eq_true, decide_eq_true_eq]

theorem feeExists_iff {d : Store} {name : String} :
    feeExists d name = true ↔ ∃ r ∈ d.brokerFeeDefinitions.rows, r.2 = name := by
  simp only [feeExists, List.any_eq_true, decide_eq_true_eq]

theorem insertItem_of_present {i : CatalogItem} (h : Present d i) : insertItem d i = d := by
  cases i with
  | definition row => exact if_pos h
  | fee name => exact if_pos h
  | base base =>
    obtain ⟨id, hid⟩ := Option.isSome_iff_exists.mp h
    show seedBase d base = d
    rw [seedBase, hid]

theorem present_insertItem {i : CatalogItem} (hi : i ∈ items) (d : Store) : Present (insertItem d i) i := by
  have hyears : ∀ b ∈ bases, b.1.yearStart = none := by decide
  cases i with
  | definition row =>
    show definitionExists (DropTaxType.insertDefinition row d) row.slug = true
    unfold DropTaxType.insertDefinition
    split_ifs with h
    · exact h
    · exact definitionExists_iff.mpr ⟨_, Table.mem_insert.mpr (.inr rfl), rfl⟩
  | fee name =>
    show feeExists (seedFee d name) name = true
    unfold seedFee
    split_ifs with h
    · exact h
    · exact feeExists_iff.mpr ⟨_, Table.mem_insert.mpr (.inr rfl), rfl⟩
  | base base =>
    have hbase : base ∈ bases := by
      simpa [items] using hi
    show (baseOf (seedBase d base) base.1.rulesetKey).isSome = true
    rcases seedBase_cases d base with ⟨hsame, hsome⟩ | ⟨hrows, -, -⟩
    · rw [hsame]
      exact hsome
    · rw [isSome_baseOf, hrows]
      exact ⟨_, Table.mem_insert.mpr (.inr rfl), rfl, hyears base hbase⟩

/-- The rows of the catalog that are there stay there. -/
theorem rows_insertItem (d : Store) (j : CatalogItem) :
    (∀ r ∈ d.taxDefinitions.rows, r ∈ (insertItem d j).taxDefinitions.rows) ∧
      (∀ r ∈ d.taxBases.rows, r ∈ (insertItem d j).taxBases.rows) ∧
      ∀ r ∈ d.brokerFeeDefinitions.rows, r ∈ (insertItem d j).brokerFeeDefinitions.rows := by
  cases j with
  | definition row =>
    show (∀ r ∈ d.taxDefinitions.rows, r ∈ (DropTaxType.insertDefinition row d).taxDefinitions.rows) ∧
      (∀ r ∈ d.taxBases.rows, r ∈ (DropTaxType.insertDefinition row d).taxBases.rows) ∧
      ∀ r ∈ d.brokerFeeDefinitions.rows, r ∈ (DropTaxType.insertDefinition row d).brokerFeeDefinitions.rows
    unfold DropTaxType.insertDefinition
    split_ifs
    · exact ⟨fun _ h => h, fun _ h => h, fun _ h => h⟩
    · exact ⟨fun _ h => Table.mem_insert.mpr (.inl h), fun _ h => h, fun _ h => h⟩
  | fee name =>
    show (∀ r ∈ d.taxDefinitions.rows, r ∈ (seedFee d name).taxDefinitions.rows) ∧
      (∀ r ∈ d.taxBases.rows, r ∈ (seedFee d name).taxBases.rows) ∧
      ∀ r ∈ d.brokerFeeDefinitions.rows, r ∈ (seedFee d name).brokerFeeDefinitions.rows
    unfold seedFee
    split_ifs
    · exact ⟨fun _ h => h, fun _ h => h, fun _ h => h⟩
    · exact ⟨fun _ h => h, fun _ h => h, fun _ h => Table.mem_insert.mpr (.inl h)⟩
  | base base =>
    show (∀ r ∈ d.taxDefinitions.rows, r ∈ (seedBase d base).taxDefinitions.rows) ∧
      (∀ r ∈ d.taxBases.rows, r ∈ (seedBase d base).taxBases.rows) ∧
      ∀ r ∈ d.brokerFeeDefinitions.rows, r ∈ (seedBase d base).brokerFeeDefinitions.rows
    rcases seedBase_cases d base with ⟨hsame, -⟩ | ⟨hrows, hdefs, hfees⟩
    · rw [hsame]
      exact ⟨fun _ h => h, fun _ h => h, fun _ h => h⟩
    · rw [hrows, hdefs, hfees]
      exact ⟨fun _ h => h, fun _ h => Table.mem_insert.mpr (.inl h), fun _ h => h⟩

theorem present_kept {i : CatalogItem} (j : CatalogItem) (h : Present d i) : Present (insertItem d j) i := by
  obtain ⟨hdefs, hbases, hfees⟩ := rows_insertItem d j
  cases i with
  | definition row =>
    obtain ⟨r, hr, hs⟩ := definitionExists_iff.mp h
    exact definitionExists_iff.mpr ⟨r, hdefs r hr, hs⟩
  | fee name =>
    obtain ⟨r, hr, hs⟩ := feeExists_iff.mp h
    exact feeExists_iff.mpr ⟨r, hfees r hr, hs⟩
  | base base =>
    obtain ⟨r, hr, hs⟩ := isSome_baseOf.mp h
    exact isSome_baseOf.mpr ⟨r, hbases r hr, hs⟩

theorem schema_insertItem (d : Store) (i : CatalogItem) : (insertItem d i).schema = d.schema := by
  cases i with
  | definition row =>
    show (DropTaxType.insertDefinition row d).schema = d.schema
    unfold DropTaxType.insertDefinition
    split_ifs <;> rfl
  | fee name =>
    show (seedFee d name).schema = d.schema
    unfold seedFee
    split_ifs <;> rfl
  | base base =>
    show (seedBase d base).schema = d.schema
    unfold seedBase
    cases baseOf d base.1.rulesetKey <;> rfl

theorem seed_of_tables (h : (catalogTables.find? fun t => !d.tableExists t) = none) :
    seed d = .ok (items.foldl insertItem d) := by
  rw [seed, h, foldl_items]

theorem tables_of_seed (h : seed d = .ok d') : (catalogTables.find? fun t => !d.tableExists t) = none := by
  unfold seed at h
  cases hfind : catalogTables.find? fun t => !d.tableExists t with
  | some t =>
    rw [hfind] at h
    cases h
  | none => rfl

theorem seed_again (h : seed d = .ok d') : seed d' = .ok d' := by
  have hfind := tables_of_seed h
  rw [seed_of_tables hfind] at h
  obtain rfl := Except.ok.inj h
  have hschema := foldl_schema schema_insertItem items d
  have hfind' : (catalogTables.find? fun t => !(items.foldl insertItem d).tableExists t) = none := by
    simp only [Store.tableExists, Store.has, hschema] at hfind ⊢
    exact hfind
  have hlasting : Lasting (items.map fun i d => (.ok (insertItem d i) : Except MigrationError Store)) :=
    lasting_inserts (fun i d => insertItem_of_present) (fun i hi d => present_insertItem hi d)
      fun i j d => present_kept j
  rw [seed_of_tables hfind']
  exact congrArg Except.ok (foldl_again hlasting)

end SeedTaxCatalog

/-! ## Sources of macro series -/

theorem Repoint.apply_apply (r : Repoint) (row : MacroSeriesRow) : r.apply (r.apply row) = r.apply row := by
  unfold Repoint.apply
  by_cases h : row.slug = r.slug
  · rw [if_pos h, if_pos h]
    cases r.name <;> rfl
  · rw [if_neg h, if_neg h]

theorem Repoint.apply_comm {r r' : Repoint} (hne : r.slug ≠ r'.slug) (row : MacroSeriesRow) :
    r.apply (r'.apply row) = r'.apply (r.apply row) := by
  unfold Repoint.apply
  by_cases h : row.slug = r.slug
  · rw [if_neg (h.trans_ne hne), if_pos h, if_neg (h.trans_ne hne)]
  · by_cases h' : row.slug = r'.slug
    · rw [if_pos h', if_neg h, if_neg h, if_pos h']
    · rw [if_neg h', if_neg h, if_neg h']

theorem repoint_again (d : Store) (r : Repoint) : repoint (repoint d r) r = repoint d r := by
  simp only [repoint, List.map_map, Function.comp_def, Repoint.apply_apply]

theorem repoint_comm {r r' : Repoint} (hne : r.slug ≠ r'.slug) (d : Store) :
    repoint (repoint d r') r = repoint (repoint d r) r' := by
  simp only [repoint, List.map_map, Function.comp_def, Repoint.apply_comm hne]

theorem lasting_repoint {rs : List Repoint} (h : rs.Pairwise fun r r' => r.slug ≠ r'.slug) :
    Lasting (rs.map fun r d => (.ok (repoint d r) : Except MigrationError Store)) where
  again tx htx d d' hok := by
    obtain ⟨r, -, rfl⟩ := List.mem_map.mp htx
    rw [← Except.ok.inj hok]
    exact congrArg Except.ok (repoint_again d r)
  kept := by
    refine List.pairwise_map.mpr (h.imp fun {r r'} hne d d' hd hok => ?_)
    rw [← Except.ok.inj hok]
    show Except.ok (repoint (repoint d r') r) = Except.ok (repoint d r')
    rw [repoint_comm hne, Except.ok.inj hd]

theorem OfficialMacroSources.sources_again (d : Store) :
    OfficialMacroSources.sources.foldl repoint (OfficialMacroSources.sources.foldl repoint d) =
      OfficialMacroSources.sources.foldl repoint d :=
  foldl_again (lasting_repoint (by decide))

/-! ## Rebuilt tables -/

/-- A table has just the columns and texts it was created with. -/
def ExactTable (t : TableName) (columns : List ColumnName) (texts : List SqlText) (d : Store) : Prop :=
  ∀ i : SchemaItem, i.tableName = t → (i ∈ d.schema ↔ i ∈ tableItems t columns texts)

def NoTable (t : TableName) (d : Store) : Prop := ∀ i ∈ d.schema, i.tableName ≠ t

theorem ExactTable.of_same (h : ExactTable t columns texts d) (hsame : SameTable t d d') :
    ExactTable t columns texts d' := fun i hi => (hsame i hi).symm.trans (h i hi)

theorem NoTable.of_same (h : NoTable t d) (hsame : SameTable t d d') : NoTable t d' :=
  fun i hi hname => h i ((hsame i hname).mpr hi) hname

theorem exactTable_withRebuilt (t scratch : TableName) (columns : List ColumnName) (texts : List SqlText)
    (d : Store) : ExactTable t columns texts (d.withRebuilt t scratch columns texts) := by
  intro i hi
  refine ⟨fun h => ?_, fun h => Finset.mem_union_right _ h⟩
  rcases Finset.mem_union.mp h with h | h
  · exact absurd hi (Finset.mem_filter.mp h).2.1
  · exact h

theorem noTable_withRebuilt {scratch : TableName} (hne : t ≠ scratch) (columns : List ColumnName)
    (texts : List SqlText) (d : Store) : NoTable scratch (d.withRebuilt t scratch columns texts) := by
  intro i hi hname
  rcases Finset.mem_union.mp hi with h | h
  · exact (Finset.mem_filter.mp h).2.2 hname
  · exact hne ((tableName_of_mem h).symm.trans hname)

theorem sameTable_withRebuilt {scratch t' : TableName} (ht : t' ≠ t) (hscratch : t' ≠ scratch)
    (columns : List ColumnName) (texts : List SqlText) (d : Store) :
    SameTable t' d (d.withRebuilt t scratch columns texts) := by
  intro i hi
  constructor
  · intro h
    exact Finset.mem_union_left _ (Finset.mem_filter.mpr ⟨h, hi ▸ ht, hi ▸ hscratch⟩)
  · intro h
    rcases Finset.mem_union.mp h with h | h
    · exact (Finset.mem_filter.mp h).1
    · exact absurd (hi.symm.trans (tableName_of_mem h)) ht

theorem create_of_noTable (h : NoTable t d) :
    create t columns texts d = .ok (d.withItems (tableItems t columns texts)) :=
  if_neg fun ht => h _ (of_decide_eq_true ht) rfl

/-- A rebuilt table that is rebuilt again, by the same statements. -/
theorem rebuild_again {scratch : TableName} (hne : t ≠ scratch) (hexact : ExactTable t columns texts d)
    (hno : NoTable scratch d) :
    rebuild t scratch columns texts (d.withItems (tableItems scratch columns texts)) = .ok d := by
  have hcreated : SameTable t d (d.withItems (tableItems scratch columns texts)) :=
    sameTable_withItems (fun _ => tableName_of_mem) hne d
  have htable : (d.withItems (tableItems scratch columns texts)).tableExists t = true :=
    decide_eq_true ((hcreated _ rfl).mp ((hexact _ rfl).mpr table_mem_tableItems))
  have hcolumns : (d.withItems (tableItems scratch columns texts)).schema.filter (fun i => i.isColumnOf t) ⊆
      tableItems t columns texts := by
    intro i hi
    obtain ⟨hi, hcolumn⟩ := Finset.mem_filter.mp hi
    have hname : i.tableName = t := by
      cases i with
      | column t' _ => exact of_decide_eq_true hcolumn
      | table _ => cases hcolumn
      | sql _ _ => cases hcolumn
    exact (hexact i hname).mp ((hcreated i hname).mpr hi)
  have hschema : ((d.withItems (tableItems scratch columns texts)).withRebuilt t scratch columns
      texts).schema = d.schema := by
    ext i
    by_cases ht : i.tableName = t
    · rw [exactTable_withRebuilt t scratch columns texts _ i ht, hexact i ht]
    · by_cases hs : i.tableName = scratch
      · refine iff_of_false (fun h => ?_) fun h => hno i h hs
        exact noTable_withRebuilt hne columns texts _ i h hs
      · rw [← sameTable_withRebuilt ht hs columns texts _ i rfl]
        exact (sameTable_withItems (fun _ => tableName_of_mem) hs d i rfl).symm
  rw [rebuild, if_neg (by rw [htable]; exact Bool.noConfusion), if_pos hcolumns]
  exact congrArg (fun schema => Except.ok { d with schema := schema }) hschema

theorem recount_recount {α : Type} (t : Table α) : recount (recount t) = recount t := rfl

namespace AddCashbackCategory

/-- Both tables have been rebuilt. -/
structure Rebuilt (d : Store) : Prop where
  transactions : ExactTable .transactions transactionColumns [.transferIn, .cashback] d
  noTransactionsNew : NoTable .transactionsNew d
  schedules : ExactTable .schedules scheduleColumns [.cashback] d
  noSchedulesNew : NoTable .schedulesNew d
  transactionsCounted : recount d.transactions = d.transactions
  schedulesCounted : recount (d.owned .schedules) = d.owned .schedules

theorem rebuilt_of_up (h : commitAll (up d) d = .ok d') : Rebuilt d' := by
  obtain ⟨d₁, -, h⟩ := commitAll_cons_eq_ok.mp h
  rw [commitAll_singleton] at h
  obtain ⟨d₂, h2, h⟩ := commitAll_cons_eq_ok.mp h
  rw [commitAll_singleton] at h
  -- The transactions.
  obtain ⟨d₃, h3, h2⟩ := Runs.bind_eq_ok.mp h2
  obtain ⟨-, rfl⟩ := rebuild_eq_ok h3
  obtain rfl := Except.ok.inj h2
  -- The schedules.
  obtain ⟨d₄, h4, h⟩ := Runs.bind_eq_ok.mp h
  obtain ⟨d₅, h5, h⟩ := Runs.bind_eq_ok.mp h
  obtain ⟨-, rfl⟩ := rebuild_eq_ok h5
  obtain rfl := Except.ok.inj h
  unfold create at h4
  split_ifs at h4
  obtain rfl := Except.ok.inj h4
  have hkept : ∀ {t : TableName} (d : Store), t ≠ .schedules → t ≠ .schedulesNew →
      SameTable t d ((d.withItems (tableItems .schedulesNew scheduleColumns [.cashback])).withRebuilt
        .schedules .schedulesNew scheduleColumns [.cashback]) := by
    intro t d h1 h2 i hi
    exact (sameTable_withItems (fun _ => tableName_of_mem) h2 _ i hi).trans
      (sameTable_withRebuilt h1 h2 _ _ _ i hi)
  exact {
    transactions := (exactTable_withRebuilt _ _ _ _ d₁).of_same (hkept _ (by decide) (by decide))
    noTransactionsNew := (noTable_withRebuilt (by decide) _ _ d₁).of_same (hkept _ (by decide) (by decide))
    schedules := exactTable_withRebuilt _ _ _ _ _
    noSchedulesNew := noTable_withRebuilt (by decide) _ _ _
    transactionsCounted := recount_recount _
    schedulesCounted := by
      simp only [Function.update_self]
      exact recount_recount _ }

theorem up_of_rebuilt (h : Rebuilt d) : commitAll (up d) d = .ok d := by
  have htransactions : rebuildTransactions
      (d.withItems (tableItems .transactionsNew transactionColumns [.transferIn, .cashback])) = .ok d := by
    rw [rebuildTransactions, rebuild_again (by decide) h.transactions h.noTransactionsNew]
    show Except.ok { d with transactions := recount d.transactions } = .ok d
    rw [h.transactionsCounted]
  have hschedules : rebuildSchedules d = .ok d := by
    rw [rebuildSchedules, create_of_noTable h.noSchedulesNew]
    show rebuild .schedules .schedulesNew scheduleColumns [.cashback]
      (d.withItems (tableItems .schedulesNew scheduleColumns [.cashback])) >>= _ = .ok d
    rw [rebuild_again (by decide) h.schedules h.noSchedulesNew]
    show Except.ok
      { d with owned := Function.update d.owned .schedules (recount (d.owned .schedules)) } = .ok d
    rw [h.schedulesCounted, Function.update_eq_self]
  rw [up, commitAll_cons, create_of_noTable h.noTransactionsNew]
  show commitAll [commitAll [rebuildTransactions, rebuildSchedules]] _ = _
  refine Runs.bind_eq_ok.mpr ⟨d, Runs.bind_eq_ok.mpr ⟨d, htransactions, ?_⟩, rfl⟩
  exact Runs.bind_eq_ok.mpr ⟨d, hschedules, rfl⟩

end AddCashbackCategory

/-! ## The profiles -/

namespace Profiles

/-- The transactions of `up`, each statement in one of its own. -/
def split (tables : List ProfileTable) : List Statement :=
  createIfMissing .profiles [] [] :: (fun d => .ok (seedDefault d)) ::
    tables.flatMap fun t => [addColumn t.name .profileId, fillTable t]

def tablesOf (d : Store) : List ProfileTable := profileTables.filter fun t => d.tableExists t.name

theorem commitAll_up (d : Store) : commitAll (up d) = commitAll (split (tablesOf d)) := by
  funext d'
  unfold up split tablesOf
  cases profileTables.filter fun t => d.tableExists t.name with
  | nil => rfl
  | cons first rest =>
    have hfirst : split (first :: rest) = [createIfMissing .profiles [] []] ++
        ([fun d => .ok (seedDefault d), addColumn first.name .profileId, fillTable first] ++
          rest.flatMap fun t => [addColumn t.name .profileId, fillTable t]) := rfl
    rw [← split, hfirst, commitAll_append, commitAll_cons, commitAll_singleton]
    refine congrArg _ (funext fun d₁ => ?_)
    rw [commitAll_append]
    rfl

theorem mapRows_again {α : Type} (t : Table α) {f : ℕ × α → α} (hf : ∀ r, f (r.1, f r) = f r) :
    mapRows (mapRows t f) f = mapRows t f := by
  have hrows : (mapRows (mapRows t f) f).rows = (mapRows t f).rows := by
    simp only [mapRows, List.map_map, Function.comp_def, hf]
  simp only [mapRows] at hrows ⊢
  simp only [hrows]

theorem owner_owner (id : ℕ) (profile_id : Option ℕ) :
    owner id (owner id profile_id) = owner id profile_id := by
  cases profile_id <;> rfl

theorem mem_profileTables {t : ProfileTable} (h : t ∈ profileTables) :
    (∃ name o, t = ownedTable name o) ∨ t = transactionsTable ∨ t = transactionTaxesTable ∨
      t = balanceSnapshotsTable ∨ t = scheduleOccurrencesTable := by
  simp only [profileTables, List.mem_cons, List.not_mem_nil, or_false] at h
  rcases h with rfl | rfl | rfl | rfl | rfl | rfl | rfl | rfl | rfl | rfl
  case inr.inl => exact .inr (.inl rfl)
  case inr.inr.inr.inl => exact .inr (.inr (.inl rfl))
  case inr.inr.inr.inr.inr.inl => exact .inr (.inr (.inr (.inl rfl)))
  case inr.inr.inr.inr.inr.inr.inr.inl => exact .inr (.inr (.inr (.inr rfl)))
  all_goals exact .inl ⟨_, _, rfl⟩

variable {t t' : ProfileTable}

theorem fill_again (ht : t ∈ profileTables) (id : ℕ) (d : Store) : t.fill id (t.fill id d) = t.fill id d := by
  rcases mem_profileTables ht with ⟨name, o, rfl⟩ | rfl | rfl | rfl | rfl
  · have hagain := mapRows_again (d.owned o)
      (f := fun r => { r.2 with profileId := owner id r.2.profileId }) (fun r => by simp only [owner_owner])
    simp only [ownedTable, Function.update_self, Function.update_idem, hagain]
  · have hagain := mapRows_again d.transactions
      (f := fun r => { r.2 with profileId := owner id r.2.profileId }) (fun r => by simp only [owner_owner])
    simp only [transactionsTable, hagain]
  · have hagain := mapRows_again d.transactionTaxes
      (f := fun r => { r.2 with profileId := owner id r.2.profileId }) (fun r => by simp only [owner_owner])
    simp only [transactionTaxesTable, hagain]
  · have hagain := mapRows_again d.balanceSnapshots
      (f := fun r => { r.2 with profileId := owner id r.2.profileId }) (fun r => by simp only [owner_owner])
    simp only [balanceSnapshotsTable, hagain]
  · have hagain := mapRows_again d.scheduleOccurrences
      (f := fun r => { r.2 with profileId := owner id r.2.profileId }) (fun r => by simp only [owner_owner])
    simp only [scheduleOccurrencesTable, hagain]

theorem fill_comm (ht : t ∈ profileTables) (ht' : t' ∈ profileTables) (id : ℕ) (d : Store) :
    t.fill id (t'.fill id d) = t'.fill id (t.fill id d) := by
  rcases mem_profileTables ht with ⟨name, o, rfl⟩ | rfl | rfl | rfl | rfl <;>
    rcases mem_profileTables ht' with ⟨name', o', rfl⟩ | rfl | rfl | rfl | rfl
  case inl.inl =>
    by_cases ho : o = o'
    · rw [ho]
      rfl
    · simp only [ownedTable, Function.update_of_ne ho, Function.update_of_ne (Ne.symm ho)]
      rw [Function.update_comm (Ne.symm ho)]
  all_goals rfl

theorem fill_frame (ht : t ∈ profileTables) (id : ℕ) (d : Store) :
    (t.fill id d).schema = d.schema ∧ (t.fill id d).profiles = d.profiles := by
  rcases mem_profileTables ht with ⟨name, o, rfl⟩ | rfl | rfl | rfl | rfl <;> exact ⟨rfl, rfl⟩

theorem fill_withItems (ht : t ∈ profileTables) (id : ℕ) (items : Finset SchemaItem) (d : Store) :
    t.fill id (d.withItems items) = (t.fill id d).withItems items := by
  rcases mem_profileTables ht with ⟨name, o, rfl⟩ | rfl | rfl | rfl | rfl <;> rfl

theorem defaultId_fill (ht : t ∈ profileTables) (id : ℕ) (d : Store) :
    defaultId (t.fill id d) = defaultId d := by
  unfold defaultId
  rw [(fill_frame ht id d).2]

theorem fillTable_again (ht : t ∈ profileTables) (h : fillTable t d = .ok d') : fillTable t d' = .ok d' := by
  obtain rfl := Except.ok.inj h
  rw [fillTable, defaultId_fill ht, fill_again ht]

theorem fillTable_keeps_fill (ht : t ∈ profileTables) (ht' : t' ∈ profileTables) :
    Keeps (fun d => fillTable t d = .ok d) (fillTable t') := by
  intro d d' hd h
  have hfilled : t.fill (defaultId d) d = d := Except.ok.inj hd
  obtain rfl := Except.ok.inj h
  rw [fillTable, defaultId_fill ht', fill_comm ht ht', hfilled]

theorem addColumn_keeps_fill (ht : t ∈ profileTables) (name : TableName) :
    Keeps (fun d => fillTable t d = .ok d) (addColumn name .profileId) := by
  intro d d' hd h
  have hfilled : t.fill (defaultId d) d = d := Except.ok.inj hd
  rcases addColumn_cases h with ⟨-, rfl⟩ | ⟨-, rfl⟩
  · exact hd
  · have hid : defaultId (d.withItems {.column name .profileId}) = defaultId d := rfl
    rw [fillTable, hid, fill_withItems ht, hfilled]

/-- The rows of the tables come after their column, and the default profile before both. -/
theorem lasting_tables {tables : List ProfileTable} (h : ∀ t ∈ tables, t ∈ profileTables) :
    Lasting (tables.flatMap fun t => [addColumn t.name .profileId, fillTable t]) := by
  have hcolumn : ∀ (n : TableName) {t' : ProfileTable}, t' ∈ profileTables →
      ∀ tx ∈ [addColumn t'.name .profileId, fillTable t'],
        Keeps (fun d => addColumn n .profileId d = .ok d) tx := by
    intro n t' ht' tx htx d d' hd hok
    rw [addColumn_eq_self] at hd ⊢
    rcases List.mem_pair.mp htx with rfl | rfl
    · rcases addColumn_cases hok with ⟨-, rfl⟩ | ⟨-, rfl⟩
      · exact hd
      · exact decide_eq_true (Finset.mem_union_left _ (of_decide_eq_true hd))
    · obtain rfl := Except.ok.inj hok
      rw [Store.columnExists, Store.has, (fill_frame ht' _ d).1]
      exact hd
  have hfill : ∀ {t t' : ProfileTable}, t ∈ profileTables → t' ∈ profileTables →
      ∀ tx ∈ [addColumn t'.name .profileId, fillTable t'], Keeps (fun d => fillTable t d = .ok d) tx := by
    intro t t' ht ht' tx htx
    rcases List.mem_pair.mp htx with rfl | rfl
    · exact addColumn_keeps_fill ht _
    · exact fillTable_keeps_fill ht ht'
  induction tables with
  | nil => exact ⟨fun tx htx => absurd htx List.not_mem_nil, List.Pairwise.nil⟩
  | cons t tables ih =>
    have ht := h t List.mem_cons_self
    have hrest : ∀ t' ∈ tables, t' ∈ profileTables := fun t' ht' => h t' (List.mem_cons_of_mem _ ht')
    obtain ⟨hagain, hkept⟩ := ih hrest
    constructor
    · intro tx htx
      rw [List.flatMap_cons, List.mem_append] at htx
      rcases htx with htx | htx
      · rcases List.mem_pair.mp htx with rfl | rfl
        · exact (onlyTable_addColumn _ _).again
        · exact fun d d' => fillTable_again ht
      · exact hagain tx htx
    · rw [List.flatMap_cons]
      refine List.pairwise_append.mpr ⟨List.pairwise_pair.mpr ?_, hkept, ?_⟩
      · exact hcolumn _ ht _ (List.mem_cons_of_mem _ List.mem_cons_self)
      · intro tx htx tx' htx'
        obtain ⟨t', ht', htx'⟩ := List.mem_flatMap.mp htx'
        rcases List.mem_pair.mp htx with rfl | rfl
        · exact hcolumn _ (hrest t' ht') tx' htx'
        · exact hfill ht (hrest t' ht') tx' htx'

theorem seedDefault_eq_self : seedDefault d = d ↔ d.profiles.rows ≠ [] := by
  unfold seedDefault
  split_ifs with h
  · refine iff_of_false (fun hd => ?_) fun hne => hne h
    have hrows := congrArg (fun d : Store => d.profiles.rows) hd
    simp [Table.insert, h] at hrows
  · exact iff_of_true rfl h

theorem lasting_split (d : Store) : Lasting (split (tablesOf d)) := by
  have hmem : ∀ t ∈ tablesOf d, t ∈ profileTables := fun t ht => (List.mem_filter.mp ht).1
  obtain ⟨hagain, hkept⟩ := lasting_tables hmem
  have hseeded : ∀ d, (seedDefault d).profiles.rows ≠ [] := by
    intro d
    unfold seedDefault
    split_ifs with h
    · simp [Table.insert]
    · exact h
  have hschema : ∀ d, (seedDefault d).schema = d.schema := by
    intro d
    unfold seedDefault
    split_ifs <;> rfl
  -- The statements of a table neither take a table away nor a profile.
  have hframe : ∀ tx ∈ (tablesOf d).flatMap fun t => [addColumn t.name .profileId, fillTable t],
      ∀ d d', tx d = .ok d' → d.schema ⊆ d'.schema ∧ d'.profiles = d.profiles := by
    intro tx htx d d' hok
    obtain ⟨t, ht, htx⟩ := List.mem_flatMap.mp htx
    rcases List.mem_pair.mp htx with rfl | rfl
    · rcases addColumn_cases hok with ⟨-, rfl⟩ | ⟨-, rfl⟩
      · exact ⟨fun _ hi => hi, rfl⟩
      · exact ⟨Finset.subset_union_left, rfl⟩
    · obtain rfl := Except.ok.inj hok
      obtain ⟨hs, hp⟩ := fill_frame (hmem t ht) (defaultId d) d
      exact ⟨fun i hi => by rw [hs]; exact hi, hp⟩
  have hcreate : ∀ {d d' : Store}, d.schema ⊆ d'.schema → createIfMissing .profiles [] [] d = .ok d →
      createIfMissing .profiles [] [] d' = .ok d' := by
    intro d d' hsub hd
    rw [createIfMissing_eq_self] at hd ⊢
    exact decide_eq_true (hsub (of_decide_eq_true hd))
  constructor
  · intro tx htx d d' hok
    rcases List.mem_cons.mp htx with rfl | htx
    · exact (onlyTable_createIfMissing _ _ _).again d d' hok
    · rcases List.mem_cons.mp htx with rfl | htx
      · rw [← Except.ok.inj hok]
        exact congrArg Except.ok (seedDefault_eq_self.mpr (hseeded d))
      · exact hagain tx htx d d' hok
  · refine List.pairwise_cons.mpr ⟨?_, List.pairwise_cons.mpr ⟨?_, hkept⟩⟩
    · intro tx htx d d' hd hok
      rcases List.mem_cons.mp htx with rfl | htx
      · exact hcreate (fun i hi => by rw [← Except.ok.inj hok, hschema]; exact hi) hd
      · exact hcreate (hframe tx htx d d' hok).1 hd
    · intro tx htx d d' hd hok
      have hrows := seedDefault_eq_self.mp (Except.ok.inj hd)
      rw [← (hframe tx htx d d' hok).2] at hrows
      exact congrArg Except.ok (seedDefault_eq_self.mpr hrows)

theorem commitAll_group (first rest : List Statement) :
    commitAll (commitAll first :: rest) = commitAll (first ++ rest) := by
  funext d
  rw [commitAll_append]
  rfl

/-- A stop inside `up` is one between its statements. -/
theorem exists_split_stop {k : ℕ} (hk : 0 < k) :
    ∃ j, commitAll ((up d).take k) = commitAll ((split (tablesOf d)).take j) ∧
      commitAll ((up d).drop k) = commitAll ((split (tablesOf d)).drop j) := by
  unfold up split tablesOf
  cases profileTables.filter fun t => d.tableExists t.name with
  | nil => exact ⟨k, rfl, rfl⟩
  | cons first rest =>
    obtain ⟨k, rfl⟩ := Nat.exists_eq_succ_of_ne_zero hk.ne'
    cases k with
    | zero => exact ⟨1, rfl, commitAll_group _ _⟩
    | succ k =>
      refine ⟨k + 4, ?_, rfl⟩
      have hgroup := commitAll_group [fun d => .ok (seedDefault d), addColumn first.name .profileId,
        fillTable first] ((rest.flatMap fun t => [addColumn t.name .profileId, fillTable t]).take k)
      funext d'
      show createIfMissing .profiles [] [] d' >>= commitAll (commitAll [fun d => .ok (seedDefault d),
        addColumn first.name .profileId, fillTable first] :: List.take k _) = _
      rw [hgroup]
      rfl

theorem up_resumed {k : ℕ} (hk : 0 < k) (h : commitAll ((up d₁).take k) d₁ = .ok c) :
    commitAll (up c) c = commitAll ((up d₁).drop k) c := by
  have hwithin : Within Version.profiles.effect d₁ c := within_of_stop (v := .profiles) h
  have htables : tablesOf c = tablesOf d₁ := by
    refine List.filter_congr fun t ht => ?_
    refine hwithin.has_eq rfl ?_
    have hname : ∀ t ∈ profileTables, Version.profiles.effect.gained (.table t.name) = false := by decide
    exact hname t ht
  obtain ⟨j, htake, hdrop⟩ := exists_split_stop (d := d₁) hk
  rw [htake] at h
  rw [commitAll_up, htables, hdrop]
  exact (lasting_split d₁).commitAll_stop h

end Profiles

end Migrations

end FinHub
