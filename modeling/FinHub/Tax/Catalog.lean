import FinHub.Tax.CatalogSvc

/-!
# FinHub.Tax.Catalog

The tax catalog as its users know it: one record for each base, each definition and each broker fee.

* `Catalog.call`: what a call answers and leaves.
* `CatalogTables.catalog`: the catalog that the tables hold.
* `CatalogCall.realises`: each call of the service does to the tables what it does to the records.
-/

namespace FinHub

open Db (Work Session)
open Tabular

/-! ## The catalog as records -/

/-- A call of the service. -/
inductive CatalogCall where
  | createTaxBase (body : TaxBaseCreate)
  | getTaxBase (base_id : ℕ)
  | listTaxBases
  | updateTaxBase (base_id : ℕ) (body : TaxBaseCreate)
  | deleteTaxBase (base_id : ℕ)
  | createTaxDefinition (body : TaxDefinitionCreate)
  | getTaxDefinition (definition_id : ℕ)
  | listTaxDefinitions
  | updateTaxDefinition (definition_id : ℕ) (body : TaxDefinitionCreate)
  | deleteTaxDefinition (definition_id : ℕ)
  | createBrokerFeeDefinition (name : String)
  | getBrokerFeeDefinition (definition_id : ℕ)
  | listBrokerFeeDefinitions
  | updateBrokerFeeDefinition (definition_id : ℕ) (name : String)
  | deleteBrokerFeeDefinition (definition_id : ℕ)

inductive CatalogAnswer where
  | taxBase (response : TaxBaseResponse)
  | taxBases (responses : List TaxBaseResponse)
  | taxDefinition (response : TaxDefinitionResponse)
  | taxDefinitions (responses : List TaxDefinitionResponse)
  | brokerFeeDefinition (response : BrokerFeeDefinitionResponse)
  | brokerFeeDefinitions (responses : List BrokerFeeDefinitionResponse)
  | deleted
  deriving DecidableEq

section

open CatalogAnswer

def CatalogCall.work : CatalogCall → Work CatalogTables TaxCatalogError CatalogAnswer
  | createTaxBase body => do let r ← TaxCatalogSvc.createTaxBase body; pure (taxBase r)
  | getTaxBase base_id => do let r ← TaxCatalogSvc.getTaxBase base_id; pure (taxBase r)
  | listTaxBases => do let rs ← TaxCatalogSvc.listTaxBases; pure (taxBases rs)
  | updateTaxBase base_id body => do let r ← TaxCatalogSvc.updateTaxBase base_id body; pure (taxBase r)
  | deleteTaxBase base_id => do TaxCatalogSvc.deleteTaxBase base_id; pure deleted
  | createTaxDefinition body => do let r ← TaxCatalogSvc.createTaxDefinition body; pure (taxDefinition r)
  | getTaxDefinition definition_id => do let r ← TaxCatalogSvc.getTaxDefinition definition_id; pure (taxDefinition r)
  | listTaxDefinitions => do let rs ← TaxCatalogSvc.listTaxDefinitions; pure (taxDefinitions rs)
  | updateTaxDefinition definition_id body => do
    let r ← TaxCatalogSvc.updateTaxDefinition definition_id body; pure (taxDefinition r)
  | deleteTaxDefinition definition_id => do TaxCatalogSvc.deleteTaxDefinition definition_id; pure deleted
  | createBrokerFeeDefinition name => do
    let r ← TaxCatalogSvc.createBrokerFeeDefinition name; pure (brokerFeeDefinition r)
  | getBrokerFeeDefinition definition_id => do
    let r ← TaxCatalogSvc.getBrokerFeeDefinition definition_id; pure (brokerFeeDefinition r)
  | listBrokerFeeDefinitions => do let rs ← TaxCatalogSvc.listBrokerFeeDefinitions; pure (brokerFeeDefinitions rs)
  | updateBrokerFeeDefinition definition_id name => do
    let r ← TaxCatalogSvc.updateBrokerFeeDefinition definition_id name; pure (brokerFeeDefinition r)
  | deleteBrokerFeeDefinition definition_id => do TaxCatalogSvc.deleteBrokerFeeDefinition definition_id; pure deleted

end

/-- The catalog as its users know it. -/
structure Catalog where
  bases : Table TaxBaseCreate
  definitions : Table TaxDefinitionCreate
  fees : Table String
  taxed : List ℕ
  charged : List (Option ℕ)

/-- A base with its categories and its rates in order. -/
def TaxBaseCreate.ordered (body : TaxBaseCreate) : TaxBaseCreate :=
  { body with categories := byCategory body.categories, rates := byFromAmount body.rates }

namespace Catalog

open TaxCatalogError CatalogAnswer

variable (c : Catalog)

/-- Whether a definition other than `own` has the slug. -/
def slugElsewhere (own : Option ℕ) (slug : String) : Bool :=
  c.definitions.rows.any fun r => r.2.slug == slug && decide (own ≠ some r.1)

/-- The record, with what is done to it, or the exception that it is not there. -/
def withRecord {α β : Type} (t : Table α) (k : ℕ) (missing : TaxCatalogError) (f : α → Except TaxCatalogError β) :
    Except TaxCatalogError β :=
  match t.get? k with
  | some a => f a
  | none => .error missing

/-- What a call answers and what it leaves. -/
def call : CatalogCall → Except TaxCatalogError (CatalogAnswer × Catalog)
  | .createTaxBase body =>
    if body.categories.Nodup then
      .ok (taxBase { body.ordered with id := c.bases.next }, { c with bases := c.bases.insert body.ordered })
    else .error categoryTwice
  | .getTaxBase base_id =>
    withRecord c.bases base_id (taxBaseNotFound base_id) fun b => .ok (taxBase { b with id := base_id }, c)
  | .listTaxBases =>
    .ok (taxBases ((c.bases.rows.insertionSort fun a b => a.2.before b.2.toTaxBaseColumns).map fun r => { r.2 with id := r.1 }), c)
  | .updateTaxBase base_id body =>
    withRecord c.bases base_id (taxBaseNotFound base_id) fun _ =>
      if body.categories.Nodup then
        .ok (taxBase { body.ordered with id := base_id }, { c with bases := c.bases.modify base_id fun _ => body.ordered })
      else .error categoryTwice
  | .deleteTaxBase base_id =>
    withRecord c.bases base_id (taxBaseNotFound base_id) fun _ =>
      .ok (deleted, { c with bases := c.bases.erase base_id })
  | .createTaxDefinition body =>
    if c.slugElsewhere none body.slug then .error (slugTaken body.slug)
    else .ok (taxDefinition { body with id := c.definitions.next }, { c with definitions := c.definitions.insert body })
  | .getTaxDefinition definition_id =>
    withRecord c.definitions definition_id (taxDefinitionNotFound definition_id) fun r =>
      .ok (taxDefinition { r with id := definition_id }, c)
  | .listTaxDefinitions => .ok (taxDefinitions (c.definitions.rows.map fun r => { r.2 with id := r.1 }), c)
  | .updateTaxDefinition definition_id body =>
    withRecord c.definitions definition_id (taxDefinitionNotFound definition_id) fun _ =>
      if c.slugElsewhere (some definition_id) body.slug then .error (slugTaken body.slug)
      else .ok (taxDefinition { body with id := definition_id },
        { c with definitions := c.definitions.modify definition_id fun _ => body })
  | .deleteTaxDefinition definition_id =>
    withRecord c.definitions definition_id (taxDefinitionNotFound definition_id) fun _ =>
      if definition_id ∈ c.taxed then .error (taxDefinitionInUse definition_id)
      else .ok (deleted, { c with definitions := c.definitions.erase definition_id })
  | .createBrokerFeeDefinition name =>
    .ok (brokerFeeDefinition ⟨c.fees.next, name⟩, { c with fees := c.fees.insert name })
  | .getBrokerFeeDefinition definition_id =>
    withRecord c.fees definition_id (brokerFeeDefinitionNotFound definition_id) fun name =>
      .ok (brokerFeeDefinition ⟨definition_id, name⟩, c)
  | .listBrokerFeeDefinitions => .ok (brokerFeeDefinitions (c.fees.rows.map fun r => ⟨r.1, r.2⟩), c)
  | .updateBrokerFeeDefinition definition_id name =>
    withRecord c.fees definition_id (brokerFeeDefinitionNotFound definition_id) fun _ =>
      .ok (brokerFeeDefinition ⟨definition_id, name⟩, { c with fees := c.fees.modify definition_id fun _ => name })
  | .deleteBrokerFeeDefinition definition_id =>
    withRecord c.fees definition_id (brokerFeeDefinitionNotFound definition_id) fun _ =>
      if some definition_id ∈ c.charged then .error (brokerFeeDefinitionInUse definition_id)
      else .ok (deleted, { c with fees := c.fees.erase definition_id })

end Catalog

/-! ## The tables hold a catalog -/

namespace CatalogTables

variable (d : CatalogTables)

/-- A base with its children. -/
def record (base_id : ℕ) (row : TaxBaseColumns) : TaxBaseCreate where
  toTaxBaseColumns := row
  categories := d.getTaxBaseCategories base_id
  rates := d.getTaxBaseRates base_id

/-- The catalog that the tables hold. -/
def catalog : Catalog where
  bases := d.taxBases.nest d.record
  definitions := d.taxDefinitions
  fees := d.brokerFeeDefinitions
  taxed := d.transactionTaxes
  charged := d.transactionFees

/-- `UNIQUE(slug)`. -/
def SlugsUnique : Prop :=
  ∀ r ∈ d.taxDefinitions.rows, ∀ r' ∈ d.taxDefinitions.rows, r.2.slug = r'.2.slug → r.1 = r'.1

/-- The tables after a base was written with its children. -/
def withBase (taxBases : Table TaxBaseColumns) (base_id : ℕ) (body : TaxBaseCreate) : CatalogTables :=
  { d with
    taxBases := taxBases
    taxBaseCategories := Children.replace d.taxBaseCategories base_id body.categories
    taxBaseRates := Children.replace d.taxBaseRates base_id body.rates }

variable {d} {base_id : ℕ}

theorem record_withBase_self (t : Table TaxBaseColumns) (base_id : ℕ) (body : TaxBaseCreate) :
    (d.withBase t base_id body).record base_id body.toTaxBaseColumns = body.ordered := by
  unfold record getTaxBaseCategories getTaxBaseRates withBase TaxBaseCreate.ordered
  simp only [Children.of_replace_self]

theorem record_withBase_of_ne (t : Table TaxBaseColumns) {body : TaxBaseCreate} {j : ℕ} (h : j ≠ base_id)
    (row : TaxBaseColumns) : (d.withBase t base_id body).record j row = d.record j row := by
  unfold record getTaxBaseCategories getTaxBaseRates withBase
  simp only [Children.of_replace_of_ne h]

theorem catalog_insert_base (body : TaxBaseCreate) :
    (d.withBase (d.taxBases.insert body.toTaxBaseColumns) d.taxBases.next body).catalog =
      { d.catalog with bases := d.catalog.bases.insert body.ordered } := by
  have hnest := Table.nest_insert (t := d.taxBases) (f := d.record)
    (u := (d.withBase (d.taxBases.insert body.toTaxBaseColumns) d.taxBases.next body).record)
    body.toTaxBaseColumns fun r hr => record_withBase_of_ne _ (d.taxBases.bounded r hr).ne r.2
  rw [record_withBase_self] at hnest
  exact congrArg (fun bases => ({ d.catalog with bases := bases } : Catalog)) hnest

theorem catalog_modify_base (base_id : ℕ) (body : TaxBaseCreate) :
    (d.withBase (d.taxBases.modify base_id fun _ => body.toTaxBaseColumns) base_id body).catalog =
      { d.catalog with bases := d.catalog.bases.modify base_id fun _ => body.ordered } := by
  have hnest := Table.nest_modify (t := d.taxBases) (k := base_id) (f := d.record)
    (u := (d.withBase (d.taxBases.modify base_id fun _ => body.toTaxBaseColumns) base_id body).record)
    (g := fun _ => body.toTaxBaseColumns) (fun _ => record_withBase_self _ base_id body)
    fun j row hj => record_withBase_of_ne _ hj row
  exact congrArg (fun bases => ({ d.catalog with bases := bases } : Catalog)) hnest

/-- The children that a deleted base leaves are no one's. -/
theorem catalog_erase_base (base_id : ℕ) :
    ({ d with taxBases := d.taxBases.erase base_id } : CatalogTables).catalog =
      { d.catalog with bases := d.catalog.bases.erase base_id } :=
  congrArg (fun bases => ({ d.catalog with bases := bases } : Catalog)) (Table.nest_erase d.taxBases d.record base_id)

theorem getAllTaxBases_answer (d : CatalogTables) :
    (d.getAllTaxBases.map fun r => d.baseWithChildren r.1 r.2) =
      (d.catalog.bases.rows.insertionSort fun a b => a.2.before b.2.toTaxBaseColumns).map fun r =>
        { r.2 with id := r.1 } := by
  have hsort := List.map_insertionSort (fun a b : ℕ × TaxBaseColumns => a.2.before b.2)
    (fun a b : ℕ × TaxBaseCreate => a.2.before b.2.toTaxBaseColumns) (fun r => (r.1, d.record r.1 r.2)) d.taxBases.rows
    fun _ _ _ _ => Iff.rfl
  change _ = (List.insertionSort _ (d.taxBases.rows.map fun r => (r.1, d.record r.1 r.2))).map _
  rw [← hsort, List.map_map]
  rfl

/-! ### Slugs -/

theorem getTaxDefinitionBySlug_any (h : d.SlugsUnique) (own : Option ℕ) (slug : String) :
    ((d.getTaxDefinitionBySlug slug).any fun r => decide (own ≠ some r.1)) = d.catalog.slugElsewhere own slug := by
  unfold getTaxDefinitionBySlug Catalog.slugElsewhere
  rw [Bool.eq_iff_iff, List.any_eq_true]
  constructor
  · intro hany
    cases hfind : d.taxDefinitions.rows.find? fun r => r.2.slug == slug with
    | none =>
      rw [hfind] at hany
      cases hany
    | some r =>
      rw [hfind] at hany
      exact ⟨r, List.mem_of_find?_eq_some hfind, by simpa using ⟨by simpa using List.find?_some hfind, by simpa using hany⟩⟩
  · rintro ⟨r, hr, hcond⟩
    obtain ⟨hslug, hown⟩ : r.2.slug = slug ∧ own ≠ some r.1 := by simpa using hcond
    cases hfind : d.taxDefinitions.rows.find? fun r => r.2.slug == slug with
    | none => exact absurd (by simpa using hslug) (List.find?_eq_none.mp hfind r hr)
    | some r' =>
      have hslug' : r'.2.slug = slug := by simpa using List.find?_some hfind
      have hid := h r' (List.mem_of_find?_eq_some hfind) r hr (hslug'.trans hslug.symm)
      simpa [hid] using hown

theorem slugElsewhere_eq_false_iff {c : Catalog} {own : Option ℕ} {slug : String} :
    c.slugElsewhere own slug = false ↔ ∀ r ∈ c.definitions.rows, r.2.slug = slug → own = some r.1 := by
  unfold Catalog.slugElsewhere
  simp [List.any_eq_false]

theorem SlugsUnique.insert (h : d.SlugsUnique) {body : TaxDefinitionCreate}
    (hfree : d.catalog.slugElsewhere none body.slug = false) :
    ({ d with taxDefinitions := d.taxDefinitions.insert body } : CatalogTables).SlugsUnique := by
  have hnone : ∀ r ∈ d.taxDefinitions.rows, r.2.slug ≠ body.slug := fun r hr heq =>
    nomatch slugElsewhere_eq_false_iff.mp hfree r hr heq
  intro r hr r' hr' heq
  rcases Table.mem_insert.mp hr with hold | rfl <;> rcases Table.mem_insert.mp hr' with hold' | rfl
  · exact h r hold r' hold' heq
  · exact absurd heq (hnone r hold)
  · exact absurd heq.symm (hnone r' hold')
  · rfl

theorem SlugsUnique.modify (h : d.SlugsUnique) {definition_id : ℕ} {body : TaxDefinitionCreate}
    (hfree : d.catalog.slugElsewhere (some definition_id) body.slug = false) :
    ({ d with taxDefinitions := d.taxDefinitions.modify definition_id fun _ => body } : CatalogTables).SlugsUnique := by
  have hown : ∀ r ∈ d.taxDefinitions.rows, r.2.slug = body.slug → r.1 = definition_id := fun r hr heq =>
    (Option.some_inj.mp (slugElsewhere_eq_false_iff.mp hfree r hr heq)).symm
  rintro ⟨i, b⟩ hr ⟨j, b'⟩ hr' heq
  rcases Table.mem_modify.mp hr with ⟨hi, hold⟩ | ⟨rfl, a, ha, rfl⟩ <;>
    rcases Table.mem_modify.mp hr' with ⟨hj, hold'⟩ | ⟨rfl, a', ha', rfl⟩
  · exact h _ hold _ hold' heq
  · exact hown _ hold heq
  · exact (hown _ hold' heq.symm).symm
  · rfl

theorem SlugsUnique.erase (h : d.SlugsUnique) (definition_id : ℕ) :
    ({ d with taxDefinitions := d.taxDefinitions.erase definition_id } : CatalogTables).SlugsUnique :=
  fun r hr r' hr' => h r (Table.mem_erase.mp hr).1 r' (Table.mem_erase.mp hr').1

end CatalogTables

/-! ## What a call does -/

namespace TaxCatalogSvc

open TaxCatalogError

variable {s : Session CatalogTables} {base_id definition_id : ℕ}

theorem rowOr_some {α : Type} {f : CatalogTables → Option α} {row : α} (h : f s.working = some row)
    (missing : TaxCatalogError) : rowOr f missing s = (.ok row, s) := by
  unfold rowOr
  rw [Work.read_bind, h]
  rfl

theorem rowOr_none {α : Type} {find : CatalogTables → Option α} (h : find s.working = none)
    (missing : TaxCatalogError) : rowOr find missing s = (.error missing, s) := by
  unfold rowOr
  rw [Work.read_bind, h]
  rfl

/-- The inserts of categories that a base does not have. -/
theorem insertCategories_ok {categories : List TaxCategory} (hnodup : categories.Nodup)
    (hnew : ∀ c ∈ categories, (base_id, c) ∉ s.working.taxBaseCategories) :
    categories.foldlM (fun _ category => insertCategory base_id category) () s =
      (.ok (), { s with working := { s.working with
        taxBaseCategories := s.working.taxBaseCategories ++ categories.map (Prod.mk base_id) } }) := by
  induction categories generalizing s with
  | nil => simp
  | cons c cs ih =>
    obtain ⟨hc, hnodup⟩ := List.nodup_cons.mp hnodup
    have hinsert : insertCategory base_id c s = (.ok (), { s with working := { s.working with
        taxBaseCategories := s.working.taxBaseCategories ++ [(base_id, c)] } }) := by
      refine Work.stmt_ok ?_
      rw [if_neg fun h => hnew c List.mem_cons_self (List.elem_iff.mp h)]
    rw [List.foldlM_cons, Work.bind_ok hinsert, ih hnodup ?_]
    · simp
    · intro c' hc' hmem
      rcases List.mem_append.mp hmem with hold | hlast
      · exact hnew c' (List.mem_cons_of_mem _ hc') hold
      · obtain rfl : c' = c := by simpa using hlast
        exact hc hc'

/-- A category that the base has, or that is given twice, stops them. -/
theorem insertCategories_error {categories : List TaxCategory}
    (h : ¬ (categories.Nodup ∧ ∀ c ∈ categories, (base_id, c) ∉ s.working.taxBaseCategories)) :
    ∃ s', categories.foldlM (fun _ category => insertCategory base_id category) () s = (.error categoryTwice, s') ∧
      s'.committed = s.committed := by
  induction categories generalizing s with
  | nil => exact absurd ⟨List.nodup_nil, by simp⟩ h
  | cons c cs ih =>
    rw [List.foldlM_cons]
    by_cases hc : (base_id, c) ∈ s.working.taxBaseCategories
    · have hinsert : insertCategory base_id c s = (.error categoryTwice, s) := by
        refine Work.stmt_error ?_
        rw [if_pos (List.elem_iff.mpr hc)]
      exact ⟨s, Work.bind_error hinsert, rfl⟩
    · have hinsert : insertCategory base_id c s = (.ok (), { s with working := { s.working with
          taxBaseCategories := s.working.taxBaseCategories ++ [(base_id, c)] } }) := by
        refine Work.stmt_ok ?_
        rw [if_neg fun h => hc (List.elem_iff.mp h)]
      rw [Work.bind_ok hinsert]
      refine ih fun hrest => h ⟨List.nodup_cons.mpr ⟨fun hmem => ?_, hrest.1⟩, fun c' hc' => ?_⟩
      · exact hrest.2 c hmem (List.mem_append_right _ (List.mem_singleton_self _))
      · rcases List.mem_cons.mp hc' with rfl | hmem
        · exact hc
        · exact fun hold => hrest.2 c' hmem (List.mem_append_left _ hold)

theorem replaceTaxBaseCategories_ok {categories : List TaxCategory} (h : categories.Nodup) :
    replaceTaxBaseCategories base_id categories s = (.ok (), { s with working := { s.working with
      taxBaseCategories := Children.replace s.working.taxBaseCategories base_id categories } }) := by
  unfold replaceTaxBaseCategories
  rw [Work.write_bind, insertCategories_ok h fun c _ => Children.not_mem_drop c]
  rfl

theorem replaceTaxBaseCategories_error {k : ℕ} {categories : List TaxCategory} (h : ¬ categories.Nodup) :
    ∃ s', replaceTaxBaseCategories k categories s = (.error categoryTwice, s') ∧ s'.committed = s.committed := by
  unfold replaceTaxBaseCategories
  rw [Work.write_bind]
  exact insertCategories_error fun hall => h hall.1

theorem getTaxBase_some {r : TaxBaseColumns} (h : s.working.taxBases.get? base_id = some r) (after : String) :
    getTaxBase base_id after s = (.ok (s.working.baseWithChildren base_id r), s) :=
  Work.bind_ok (rowOr_some (f := fun d => d.taxBases.get? base_id) h _)

theorem getTaxDefinition_some {row : TaxDefinitionCreate}
    (h : s.working.taxDefinitions.get? definition_id = some row) (after : String) :
    getTaxDefinition definition_id after s = (.ok { row with id := definition_id }, s) :=
  Work.bind_ok (rowOr_some (f := fun d => d.taxDefinitions.get? definition_id) h _)

theorem getBrokerFeeDefinition_some {name : String}
    (h : s.working.brokerFeeDefinitions.get? definition_id = some name) (after : String) :
    getBrokerFeeDefinition definition_id after s = (.ok ⟨definition_id, name⟩, s) :=
  Work.bind_ok (rowOr_some (f := fun d => d.brokerFeeDefinitions.get? definition_id) h _)

theorem checkSlug_eq (h : s.working.SlugsUnique) (own : Option ℕ) (slug : String) :
    checkSlug own slug s =
      if s.working.catalog.slugElsewhere own slug then (.error (slugTaken slug), s) else (.ok (), s) := by
  unfold checkSlug
  rw [Work.read_bind, CatalogTables.getTaxDefinitionBySlug_any h]
  split_ifs <;> rfl

theorem insertDefinition_ok {body : TaxDefinitionCreate}
    (hfree : s.working.catalog.slugElsewhere none body.slug = false) :
    insertDefinition body s = (.ok s.working.taxDefinitions.next, { s with working :=
      { s.working with taxDefinitions := s.working.taxDefinitions.insert body } }) := by
  refine Work.stmt_ok (if_neg fun hany => ?_)
  obtain ⟨r, hr, hslug⟩ := List.any_eq_true.mp hany
  exact nomatch CatalogTables.slugElsewhere_eq_false_iff.mp hfree r hr (by simpa using hslug)

theorem modifyDefinition_ok {body : TaxDefinitionCreate}
    (hfree : s.working.catalog.slugElsewhere (some definition_id) body.slug = false) :
    modifyDefinition definition_id body s = (.ok (), { s with working :=
      { s.working with taxDefinitions := s.working.taxDefinitions.modify definition_id fun _ => body } }) := by
  refine Work.stmt_ok (if_neg fun hany => ?_)
  obtain ⟨r, hr, hcond⟩ := List.any_eq_true.mp hany
  obtain ⟨hslug, hne⟩ : r.2.slug = body.slug ∧ r.1 ≠ definition_id := by simpa using hcond
  exact hne (Option.some_inj.mp (CatalogTables.slugElsewhere_eq_false_iff.mp hfree r hr hslug)).symm

theorem createTaxBase_ok {body : TaxBaseCreate} (h : body.categories.Nodup) (d : CatalogTables) :
    createTaxBase body (.ofDb d) = (.ok { body.ordered with id := d.taxBases.next },
      let d' := d.withBase (d.taxBases.insert body.toTaxBaseColumns) d.taxBases.next body
      .clean d' [d']) := by
  unfold createTaxBase replaceTaxBaseRates
  rw [Work.write_bind, Work.bind_ok (replaceTaxBaseCategories_ok h), Work.write_bind, Work.commit_bind]
  refine (getTaxBase_some (Table.get?_insert_self _ _) _).trans ?_
  refine Prod.ext (congrArg Except.ok ?_) rfl
  exact congrArg (fun b : TaxBaseCreate => ({ b with id := d.taxBases.next } : TaxBaseResponse))
    (CatalogTables.record_withBase_self (d := d) _ d.taxBases.next body)

theorem createTaxBase_error {body : TaxBaseCreate} (h : ¬ body.categories.Nodup) (d : CatalogTables) :
    ∃ s, createTaxBase body (.ofDb d) = (.error categoryTwice, s) ∧ s.committed = d := by
  unfold createTaxBase
  rw [Work.write_bind]
  obtain ⟨s, hs, hcommitted⟩ := replaceTaxBaseCategories_error (k := d.taxBases.next)
    (s := { Session.ofDb d with working := { d with taxBases := d.taxBases.insert body.toTaxBaseColumns } }) h
  exact ⟨s, Work.bind_error hs, hcommitted⟩

theorem updateTaxBase_ok {body : TaxBaseCreate} (h : body.categories.Nodup) {d : CatalogTables} {row : TaxBaseColumns}
    (hrow : d.taxBases.get? base_id = some row) :
    updateTaxBase base_id body (.ofDb d) = (.ok { body.ordered with id := base_id },
      let d' := d.withBase (d.taxBases.modify base_id fun _ => body.toTaxBaseColumns) base_id body
      .clean d' [d']) := by
  unfold updateTaxBase replaceTaxBaseRates
  rw [Work.bind_ok (rowOr_some (s := .ofDb d) hrow _), Work.write_bind, Work.bind_ok (replaceTaxBaseCategories_ok h),
    Work.write_bind, Work.commit_bind]
  refine (getTaxBase_some (r := body.toTaxBaseColumns) ?_ _).trans ?_
  · exact (Table.get?_eq_some_iff _).mpr
      (Table.mem_modify.mpr (.inr ⟨rfl, row, (Table.get?_eq_some_iff _).mp hrow, rfl⟩))
  · refine Prod.ext (congrArg Except.ok ?_) rfl
    exact congrArg (fun b : TaxBaseCreate => ({ b with id := base_id } : TaxBaseResponse))
      (CatalogTables.record_withBase_self (d := d) _ base_id body)

theorem updateTaxBase_error {body : TaxBaseCreate} (h : ¬ body.categories.Nodup) {d : CatalogTables}
    {row : TaxBaseColumns} (hrow : d.taxBases.get? base_id = some row) :
    ∃ s, updateTaxBase base_id body (.ofDb d) = (.error categoryTwice, s) ∧ s.committed = d := by
  unfold updateTaxBase
  rw [Work.bind_ok (rowOr_some (s := .ofDb d) hrow _), Work.write_bind]
  obtain ⟨s, hs, hcommitted⟩ := replaceTaxBaseCategories_error (k := base_id)
    (s := { Session.ofDb d with working :=
      { d with taxBases := d.taxBases.modify base_id fun _ => body.toTaxBaseColumns } }) h
  exact ⟨s, Work.bind_error hs, hcommitted⟩

end TaxCatalogSvc

/-- A call answers and leaves what it does on the records, or it raises the same and leaves everything. -/
def CatalogCall.Realises (call : CatalogCall) (d : CatalogTables) : Prop :=
  match call.work (.ofDb d) with
  | (.ok answer, s) => d.catalog.call call = .ok (answer, s.committed.catalog) ∧ s.committed.SlugsUnique
  | (.error e, s) => d.catalog.call call = .error e ∧ s.committed = d

namespace CatalogCall

open TaxCatalogError CatalogAnswer TaxCatalogSvc

variable {call : CatalogCall} {d : CatalogTables} {s : Session CatalogTables} {base_id definition_id : ℕ}

theorem Realises.ok {answer : CatalogAnswer} (hrun : call.work (.ofDb d) = (.ok answer, s))
    (hcall : d.catalog.call call = .ok (answer, s.committed.catalog)) (hslugs : s.committed.SlugsUnique) :
    call.Realises d := by
  unfold Realises
  rw [hrun]
  exact ⟨hcall, hslugs⟩

theorem Realises.error {e : TaxCatalogError} (hrun : call.work (.ofDb d) = (.error e, s))
    (hcall : d.catalog.call call = .error e) (hsame : s.committed = d) : call.Realises d := by
  unfold Realises
  rw [hrun]
  exact ⟨hcall, hsame⟩

theorem withRecord_some {α β : Type} {t : Table α} {k : ℕ} {a : α} (h : t.get? k = some a) (missing : TaxCatalogError)
    (f : α → Except TaxCatalogError β) : Catalog.withRecord t k missing f = f a := by
  unfold Catalog.withRecord
  rw [h]

theorem withRecord_none {α β : Type} {t : Table α} {k : ℕ} (h : t.get? k = none) (missing : TaxCatalogError)
    (f : α → Except TaxCatalogError β) : Catalog.withRecord t k missing f = .error missing := by
  unfold Catalog.withRecord
  rw [h]

theorem catalog_get?_some {row : TaxBaseColumns} (h : d.taxBases.get? base_id = some row) :
    d.catalog.bases.get? base_id = some (d.record base_id row) := by
  change (d.taxBases.nest d.record).get? base_id = _
  rw [Table.get?_nest, h]
  rfl

theorem catalog_get?_none (h : d.taxBases.get? base_id = none) : d.catalog.bases.get? base_id = none := by
  change (d.taxBases.nest d.record).get? base_id = _
  rw [Table.get?_nest, h]
  rfl

/-! ### Bases -/

theorem realises_createTaxBase (h : d.SlugsUnique) (body : TaxBaseCreate) : (createTaxBase body).Realises d := by
  by_cases hnodup : body.categories.Nodup
  · refine .ok (Work.bind_ok (createTaxBase_ok hnodup d)) ?_ h
    change (if body.categories.Nodup then _ else _) = _
    rw [if_pos hnodup]
    exact congrArg (fun c => Except.ok (_, c)) (CatalogTables.catalog_insert_base body).symm
  · obtain ⟨s, hs, hcommitted⟩ := createTaxBase_error hnodup d
    exact .error (Work.bind_error hs) (if_neg hnodup) hcommitted

theorem realises_getTaxBase (h : d.SlugsUnique) (base_id : ℕ) : (getTaxBase base_id).Realises d := by
  cases hrow : d.taxBases.get? base_id with
  | none =>
    exact .error (Work.bind_error (Work.bind_error (rowOr_none (s := .ofDb d) hrow _)))
      (withRecord_none (catalog_get?_none hrow) _ _) rfl
  | some row =>
    exact .ok (Work.bind_ok (getTaxBase_some (s := .ofDb d) hrow _)) (withRecord_some (catalog_get?_some hrow) _ _) h

theorem realises_listTaxBases (h : d.SlugsUnique) : listTaxBases.Realises d := by
  refine .ok (s := .ofDb d) rfl ?_ h
  exact congrArg (fun rs => Except.ok (taxBases rs, d.catalog)) d.getAllTaxBases_answer.symm

theorem realises_updateTaxBase (h : d.SlugsUnique) (base_id : ℕ) (body : TaxBaseCreate) :
    (updateTaxBase base_id body).Realises d := by
  cases hrow : d.taxBases.get? base_id with
  | none =>
    exact .error (Work.bind_error (Work.bind_error (rowOr_none (s := .ofDb d) hrow _)))
      (withRecord_none (catalog_get?_none hrow) _ _) rfl
  | some row =>
    by_cases hnodup : body.categories.Nodup
    · refine .ok (Work.bind_ok (updateTaxBase_ok hnodup hrow)) ?_ h
      refine (withRecord_some (catalog_get?_some hrow) _ _).trans ((if_pos hnodup).trans ?_)
      exact congrArg (fun c => Except.ok (_, c)) (CatalogTables.catalog_modify_base base_id body).symm
    · obtain ⟨s, hs, hcommitted⟩ := updateTaxBase_error hnodup hrow
      exact .error (Work.bind_error hs) ((withRecord_some (catalog_get?_some hrow) _ _).trans (if_neg hnodup)) hcommitted

theorem realises_deleteTaxBase (h : d.SlugsUnique) (base_id : ℕ) : (deleteTaxBase base_id).Realises d := by
  cases hrow : d.taxBases.get? base_id with
  | none =>
    exact .error (Work.bind_error (Work.bind_error (rowOr_none (s := .ofDb d) hrow _)))
      (withRecord_none (catalog_get?_none hrow) _ _) rfl
  | some row =>
    have hrun : TaxCatalogSvc.deleteTaxBase base_id (.ofDb d) = (.ok (),
        let d' : CatalogTables := { d with taxBases := d.taxBases.erase base_id }
        .clean d' [d']) := by
      unfold TaxCatalogSvc.deleteTaxBase
      rw [Work.bind_ok (rowOr_some (s := .ofDb d) hrow _), Work.write_bind]
      rfl
    refine .ok (Work.bind_ok hrun) ?_ h
    refine (withRecord_some (catalog_get?_some hrow) _ _).trans ?_
    exact congrArg (fun c => Except.ok (deleted, c)) (CatalogTables.catalog_erase_base base_id).symm

/-! ### Definitions -/

theorem realises_createTaxDefinition (h : d.SlugsUnique) (body : TaxDefinitionCreate) :
    (createTaxDefinition body).Realises d := by
  have hcheck := checkSlug_eq (s := .ofDb d) h none body.slug
  cases htaken : d.catalog.slugElsewhere none body.slug with
  | true =>
    exact .error (Work.bind_error (Work.bind_error (hcheck.trans (if_pos htaken)))) (if_pos htaken) rfl
  | false =>
    have hpass := hcheck.trans (if_neg (ne_true_of_eq_false htaken))
    have hrun : TaxCatalogSvc.createTaxDefinition body (.ofDb d) = (.ok { body with id := d.taxDefinitions.next },
        let d' : CatalogTables := { d with taxDefinitions := d.taxDefinitions.insert body }
        .clean d' [d']) := by
      unfold TaxCatalogSvc.createTaxDefinition
      rw [Work.bind_ok hpass, Work.bind_ok (insertDefinition_ok (s := .ofDb d) htaken), Work.commit_bind]
      exact getTaxDefinition_some (Table.get?_insert_self _ _) _
    exact .ok (Work.bind_ok hrun) (if_neg (ne_true_of_eq_false htaken)) (h.insert htaken)

theorem realises_getTaxDefinition (h : d.SlugsUnique) (definition_id : ℕ) :
    (getTaxDefinition definition_id).Realises d := by
  cases hrow : d.taxDefinitions.get? definition_id with
  | none =>
    exact .error (Work.bind_error (Work.bind_error (rowOr_none (s := .ofDb d) hrow _))) (withRecord_none hrow _ _) rfl
  | some row =>
    exact .ok (Work.bind_ok (getTaxDefinition_some (s := .ofDb d) hrow _)) (withRecord_some hrow _ _) h

theorem realises_updateTaxDefinition (h : d.SlugsUnique) (definition_id : ℕ) (body : TaxDefinitionCreate) :
    (updateTaxDefinition definition_id body).Realises d := by
  cases hrow : d.taxDefinitions.get? definition_id with
  | none =>
    exact .error (Work.bind_error (Work.bind_error (rowOr_none (s := .ofDb d) hrow _))) (withRecord_none hrow _ _) rfl
  | some row =>
    have hcheck := checkSlug_eq (s := .ofDb d) h (some definition_id) body.slug
    cases htaken : d.catalog.slugElsewhere (some definition_id) body.slug with
    | true =>
      have hrun : TaxCatalogSvc.updateTaxDefinition definition_id body (.ofDb d) =
          (.error (slugTaken body.slug), .ofDb d) := by
        unfold TaxCatalogSvc.updateTaxDefinition
        rw [Work.bind_ok (rowOr_some (s := .ofDb d) hrow _)]
        exact Work.bind_error (hcheck.trans (if_pos htaken))
      exact .error (Work.bind_error hrun) ((withRecord_some hrow _ _).trans (if_pos htaken)) rfl
    | false =>
      have hpass := hcheck.trans (if_neg (ne_true_of_eq_false htaken))
      have hrun : TaxCatalogSvc.updateTaxDefinition definition_id body (.ofDb d) =
          (.ok { body with id := definition_id },
            let d' : CatalogTables := { d with taxDefinitions := d.taxDefinitions.modify definition_id fun _ => body }
            .clean d' [d']) := by
        unfold TaxCatalogSvc.updateTaxDefinition
        rw [Work.bind_ok (rowOr_some (s := .ofDb d) hrow _), Work.bind_ok hpass,
          Work.bind_ok (modifyDefinition_ok (s := .ofDb d) htaken), Work.commit_bind]
        refine getTaxDefinition_some ((Table.get?_eq_some_iff _).mpr (Table.mem_modify.mpr (.inr ⟨rfl, row, ?_, rfl⟩))) _
        exact (Table.get?_eq_some_iff _).mp hrow
      exact .ok (Work.bind_ok hrun)
        ((withRecord_some hrow _ _).trans (if_neg (ne_true_of_eq_false htaken))) (h.modify htaken)

theorem realises_deleteTaxDefinition (h : d.SlugsUnique) (definition_id : ℕ) :
    (deleteTaxDefinition definition_id).Realises d := by
  cases hrow : d.taxDefinitions.get? definition_id with
  | none =>
    exact .error (Work.bind_error (Work.bind_error (rowOr_none (s := .ofDb d) hrow _))) (withRecord_none hrow _ _) rfl
  | some row =>
    by_cases hused : definition_id ∈ d.transactionTaxes
    · have hrun : TaxCatalogSvc.deleteTaxDefinition definition_id (.ofDb d) =
          (.error (taxDefinitionInUse definition_id), .ofDb d) := by
        unfold TaxCatalogSvc.deleteTaxDefinition
        rw [Work.bind_ok (rowOr_some (s := .ofDb d) hrow _), Work.read_bind]
        exact congrFun (if_pos (List.count_pos_iff.mpr hused)) _
      exact .error (Work.bind_error hrun) ((withRecord_some hrow _ _).trans (if_pos hused)) rfl
    · have hrun : TaxCatalogSvc.deleteTaxDefinition definition_id (.ofDb d) = (.ok (),
          let d' : CatalogTables := { d with taxDefinitions := d.taxDefinitions.erase definition_id }
          .clean d' [d']) := by
        unfold TaxCatalogSvc.deleteTaxDefinition
        rw [Work.bind_ok (rowOr_some (s := .ofDb d) hrow _), Work.read_bind]
        exact congrFun (if_neg fun h => hused (List.count_pos_iff.mp h)) _
      exact .ok (Work.bind_ok hrun) ((withRecord_some hrow _ _).trans (if_neg hused)) (h.erase definition_id)

/-! ### Broker fees -/

theorem realises_createBrokerFeeDefinition (h : d.SlugsUnique) (name : String) :
    (createBrokerFeeDefinition name).Realises d := by
  have hrun : TaxCatalogSvc.createBrokerFeeDefinition name (.ofDb d) = (.ok ⟨d.brokerFeeDefinitions.next, name⟩,
      let d' : CatalogTables := { d with brokerFeeDefinitions := d.brokerFeeDefinitions.insert name }
      .clean d' [d']) := by
    unfold TaxCatalogSvc.createBrokerFeeDefinition
    rw [Work.write_bind, Work.commit_bind]
    exact getBrokerFeeDefinition_some (Table.get?_insert_self _ _) _
  exact .ok (Work.bind_ok hrun) rfl h

theorem realises_getBrokerFeeDefinition (h : d.SlugsUnique) (definition_id : ℕ) :
    (getBrokerFeeDefinition definition_id).Realises d := by
  cases hrow : d.brokerFeeDefinitions.get? definition_id with
  | none =>
    exact .error (Work.bind_error (Work.bind_error (rowOr_none (s := .ofDb d) hrow _))) (withRecord_none hrow _ _) rfl
  | some name =>
    exact .ok (Work.bind_ok (getBrokerFeeDefinition_some (s := .ofDb d) hrow _)) (withRecord_some hrow _ _) h

theorem realises_updateBrokerFeeDefinition (h : d.SlugsUnique) (definition_id : ℕ) (name : String) :
    (updateBrokerFeeDefinition definition_id name).Realises d := by
  cases hrow : d.brokerFeeDefinitions.get? definition_id with
  | none =>
    exact .error (Work.bind_error (Work.bind_error (rowOr_none (s := .ofDb d) hrow _))) (withRecord_none hrow _ _) rfl
  | some old =>
    have hrun : TaxCatalogSvc.updateBrokerFeeDefinition definition_id name (.ofDb d) = (.ok ⟨definition_id, name⟩,
        let d' : CatalogTables :=
          { d with brokerFeeDefinitions := d.brokerFeeDefinitions.modify definition_id fun _ => name }
        .clean d' [d']) := by
      unfold TaxCatalogSvc.updateBrokerFeeDefinition
      rw [Work.bind_ok (rowOr_some (s := .ofDb d) hrow _), Work.write_bind, Work.commit_bind]
      refine getBrokerFeeDefinition_some
        ((Table.get?_eq_some_iff _).mpr (Table.mem_modify.mpr (.inr ⟨rfl, old, ?_, rfl⟩))) _
      exact (Table.get?_eq_some_iff _).mp hrow
    exact .ok (Work.bind_ok hrun) (withRecord_some hrow _ _) h

theorem realises_deleteBrokerFeeDefinition (h : d.SlugsUnique) (definition_id : ℕ) :
    (deleteBrokerFeeDefinition definition_id).Realises d := by
  cases hrow : d.brokerFeeDefinitions.get? definition_id with
  | none =>
    exact .error (Work.bind_error (Work.bind_error (rowOr_none (s := .ofDb d) hrow _))) (withRecord_none hrow _ _) rfl
  | some name =>
    by_cases hused : some definition_id ∈ d.transactionFees
    · have hrun : TaxCatalogSvc.deleteBrokerFeeDefinition definition_id (.ofDb d) =
          (.error (brokerFeeDefinitionInUse definition_id), .ofDb d) := by
        unfold TaxCatalogSvc.deleteBrokerFeeDefinition
        rw [Work.bind_ok (rowOr_some (s := .ofDb d) hrow _), Work.read_bind]
        exact congrFun (if_pos (List.count_pos_iff.mpr hused)) _
      exact .error (Work.bind_error hrun) ((withRecord_some hrow _ _).trans (if_pos hused)) rfl
    · have hrun : TaxCatalogSvc.deleteBrokerFeeDefinition definition_id (.ofDb d) = (.ok (),
          let d' : CatalogTables := { d with brokerFeeDefinitions := d.brokerFeeDefinitions.erase definition_id }
          .clean d' [d']) := by
        unfold TaxCatalogSvc.deleteBrokerFeeDefinition
        rw [Work.bind_ok (rowOr_some (s := .ofDb d) hrow _), Work.read_bind]
        exact congrFun (if_neg fun h => hused (List.count_pos_iff.mp h)) _
      exact .ok (Work.bind_ok hrun) ((withRecord_some hrow _ _).trans (if_neg hused)) h

/-- Each call does what it does on the records. -/
theorem realises (h : d.SlugsUnique) (call : CatalogCall) : call.Realises d := by
  cases call with
  | createTaxBase body => exact realises_createTaxBase h body
  | getTaxBase base_id => exact realises_getTaxBase h base_id
  | listTaxBases => exact realises_listTaxBases h
  | updateTaxBase base_id body => exact realises_updateTaxBase h base_id body
  | deleteTaxBase base_id => exact realises_deleteTaxBase h base_id
  | createTaxDefinition body => exact realises_createTaxDefinition h body
  | getTaxDefinition definition_id => exact realises_getTaxDefinition h definition_id
  | listTaxDefinitions => exact .ok (s := .ofDb d) rfl rfl h
  | updateTaxDefinition definition_id body => exact realises_updateTaxDefinition h definition_id body
  | deleteTaxDefinition definition_id => exact realises_deleteTaxDefinition h definition_id
  | createBrokerFeeDefinition name => exact realises_createBrokerFeeDefinition h name
  | getBrokerFeeDefinition definition_id => exact realises_getBrokerFeeDefinition h definition_id
  | listBrokerFeeDefinitions => exact .ok (s := .ofDb d) rfl rfl h
  | updateBrokerFeeDefinition definition_id name => exact realises_updateBrokerFeeDefinition h definition_id name
  | deleteBrokerFeeDefinition definition_id => exact realises_deleteBrokerFeeDefinition h definition_id

end CatalogCall

end FinHub
