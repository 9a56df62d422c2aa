import FinHub.Tax.Catalog

/-!
# FinHub.Tax.CatalogRuns

The tax catalog over sequences of calls, among which other services record taxes and fees of transactions.

* `CatalogTables.runs_refines`: the tables follow the records.
* `CatalogTables.engineReads`: what the tax engine reads of them.
* `catalogRuns_laws`: what holds after every sequence.
-/

namespace FinHub

open Db (Work Session)
open Tabular

/-! ## Sequences of calls -/

/-- A call, or a service that has written tax rows and fee rows of transactions. -/
inductive CatalogEvent where
  | call (call : CatalogCall)
  | recorded (taxes : List ℕ) (fees : List (Option ℕ))

namespace CatalogTables

def after (d : CatalogTables) : CatalogEvent → CatalogTables
  | .call call => call.work.saved d
  | .recorded taxes fees => { d with transactionTaxes := taxes, transactionFees := fees }

def runs (d : CatalogTables) (events : List CatalogEvent) : CatalogTables := events.foldl after d

/-- What a call answers on the tables. -/
def answers (d : CatalogTables) (call : CatalogCall) : Except TaxCatalogError CatalogAnswer :=
  (call.work (.ofDb d)).1

/-- The catalog as the tax engine reads it. -/
def engineView (d : CatalogTables) : TaxCatalog where
  bases := d.taxBases.rows.map fun r =>
    { rulesetKey := r.2.rulesetKey, computation := r.2.computation, flatRate := r.2.flatRate, id := r.1
      yearStart := r.2.yearStart }
  categories := d.getTaxBaseCategories
  rates := d.getTaxBaseRates
  definitions := d.taxDefinitions.rows.map fun r =>
    { id := r.1, slug := r.2.slug, name := r.2.name, rulesetKey := r.2.rulesetKey, rate := r.2.rate }

end CatalogTables

namespace Catalog

def after (c : Catalog) : CatalogEvent → Catalog
  | .call call =>
    match c.call call with
    | .ok (_, c') => c'
    | .error _ => c
  | .recorded taxes fees => { c with taxed := taxes, charged := fees }

def runs (c : Catalog) (events : List CatalogEvent) : Catalog := events.foldl after c

/-- The bases of a ruleset that are in force in a year. -/
def InForce (c : Catalog) (ruleset_key : String) (year : ℤ) (base_id : ℕ) (b : TaxBaseCreate) : Prop :=
  (base_id, b) ∈ c.bases.rows ∧ b.rulesetKey = ruleset_key ∧ ∀ y ∈ b.yearStart, y ≤ year

end Catalog

namespace CatalogTables

variable {d : CatalogTables}

theorem after_refines (h : d.SlugsUnique) (event : CatalogEvent) :
    (d.after event).catalog = d.catalog.after event ∧ (d.after event).SlugsUnique := by
  cases event with
  | recorded taxes fees => exact ⟨rfl, h⟩
  | call call =>
    have hcall := CatalogCall.realises h call
    unfold CatalogCall.Realises at hcall
    unfold after Catalog.after
    cases hrun : call.work (.ofDb d) with
    | mk r s =>
      have hsaved : call.work.saved d = s.committed := congrArg (fun p => p.2.committed) hrun
      rw [hrun] at hcall
      cases r with
      | ok answer =>
        obtain ⟨hanswer, hslugs⟩ := hcall
        dsimp only
        rw [hanswer, hsaved]
        exact ⟨rfl, hslugs⟩
      | error e =>
        obtain ⟨hraise, hsame⟩ := hcall
        dsimp only
        rw [hraise, hsaved, hsame]
        exact ⟨rfl, h⟩

theorem after_refused (h : d.SlugsUnique) {call : CatalogCall} {e : TaxCatalogError} (hraise : d.answers call = .error e) :
    d.after (.call call) = d := by
  have hcall := CatalogCall.realises h call
  unfold CatalogCall.Realises at hcall
  unfold answers at hraise
  cases hrun : call.work (.ofDb d) with
  | mk r s =>
    have hsaved : call.work.saved d = s.committed := congrArg (fun p => p.2.committed) hrun
    rw [hrun] at hcall hraise
    cases r with
    | ok answer => cases hraise
    | error e => exact hsaved.trans hcall.2

theorem answers_refines (h : d.SlugsUnique) (call : CatalogCall) :
    d.answers call = (d.catalog.call call).map Prod.fst := by
  have hcall := CatalogCall.realises h call
  unfold CatalogCall.Realises at hcall
  unfold answers
  cases hrun : call.work (.ofDb d) with
  | mk r s =>
    rw [hrun] at hcall
    cases r with
    | ok answer =>
      rw [hcall.1]
      rfl
    | error e =>
      rw [hcall.1]
      rfl

theorem runs_refines (h : d.SlugsUnique) (events : List CatalogEvent) :
    (d.runs events).catalog = d.catalog.runs events ∧ (d.runs events).SlugsUnique := by
  induction events generalizing d with
  | nil => exact ⟨rfl, h⟩
  | cons event events ih =>
    obtain ⟨hstep, hslugs⟩ := after_refines h event
    obtain ⟨hrest, hslugs⟩ := ih hslugs
    refine ⟨hrest.trans ?_, hslugs⟩
    rw [hstep]
    rfl

/-! ### The engine -/

/-- A year has no base, or the engine reads the latest of those in force, with its own categories and rates. -/
structure EngineReads (d : CatalogTables) (c : Catalog) (ruleset_key : String) (year : ℤ) : Prop where
  missing : d.engineView.resolveTaxBase ruleset_key year = none → ∀ base_id b, ¬ c.InForce ruleset_key year base_id b
  found : ∀ row, d.engineView.resolveTaxBase ruleset_key year = some row →
    ∃ b, c.InForce ruleset_key year row.id b ∧
      (row.computation = b.computation ∧ row.flatRate = b.flatRate) ∧
      (d.engineView.categoriesOf (some row) = b.categories ∧ d.engineView.ratesOf (some row) = b.rates) ∧
      ∀ base_id' b', c.InForce ruleset_key year base_id' b' → ∀ y' ∈ b'.yearStart, ∃ y ∈ b.yearStart, y' ≤ y

theorem mem_engineView {ruleset_key : String} {year : ℤ} {row : TaxBaseRow} :
    row ∈ d.engineView.bases.filter (fun b => decide (b.rulesetKey = ruleset_key) &&
        b.yearStart.all fun y => decide (y ≤ year)) ↔
      ∃ r ∈ d.taxBases.rows, (r.2.rulesetKey = ruleset_key ∧ ∀ y ∈ r.2.yearStart, y ≤ year) ∧
        row = { rulesetKey := r.2.rulesetKey, computation := r.2.computation, flatRate := r.2.flatRate, id := r.1
                yearStart := r.2.yearStart } := by
  have hall : ∀ y : Option ℤ, (y.all fun y => decide (y ≤ year)) = true ↔ ∀ z ∈ y, z ≤ year := by
    intro y
    cases y <;> simp
  rw [List.mem_filter, Bool.and_eq_true, decide_eq_true_iff, hall]
  constructor
  · rintro ⟨hrow, hforce⟩
    obtain ⟨r, hr, rfl⟩ := List.mem_map.mp hrow
    exact ⟨r, hr, hforce, rfl⟩
  · rintro ⟨r, hr, hforce, rfl⟩
    exact ⟨List.mem_map_of_mem hr, hforce⟩

theorem inForce_iff {ruleset_key : String} {year : ℤ} {base_id : ℕ} {b : TaxBaseCreate} :
    d.catalog.InForce ruleset_key year base_id b ↔
      ∃ row, (base_id, row) ∈ d.taxBases.rows ∧ d.record base_id row = b ∧
        row.rulesetKey = ruleset_key ∧ ∀ y ∈ row.yearStart, y ≤ year := by
  constructor
  · rintro ⟨hmem, hforce⟩
    obtain ⟨r, hr, heq⟩ := List.mem_map.mp hmem
    obtain ⟨rfl, rfl⟩ := Prod.mk.injEq .. |>.mp heq
    exact ⟨r.2, hr, rfl, hforce⟩
  · rintro ⟨row, hrow, rfl, hforce⟩
    exact ⟨List.mem_map_of_mem hrow, hforce⟩

theorem engineReads (d : CatalogTables) (ruleset_key : String) (year : ℤ) :
    d.EngineReads d.catalog ruleset_key year := by
  constructor
  · intro hnone base_id b hforce
    obtain ⟨row, hrow, -, hrule⟩ := inForce_iff.mp hforce
    have hmem := mem_engineView.mpr ⟨(base_id, row), hrow, hrule, rfl⟩
    rw [List.argmax_eq_none.mp hnone] at hmem
    cases hmem
  · intro row hrow
    obtain ⟨r, hr, hrule, rfl⟩ := mem_engineView.mp (List.argmax_mem hrow)
    refine ⟨d.record r.1 r.2, inForce_iff.mpr ⟨r.2, hr, rfl, hrule⟩, ⟨rfl, rfl⟩, ⟨rfl, rfl⟩, ?_⟩
    intro base_id' b' hforce' y' hy'
    obtain ⟨row', hrow', rfl, hrule'⟩ := inForce_iff.mp hforce'
    have hle := List.le_of_mem_argmax (mem_engineView.mpr ⟨(base_id', row'), hrow', hrule', rfl⟩) hrow
    change row'.yearStart = some y' at hy'
    change ∃ y ∈ r.2.yearStart, y' ≤ y
    unfold TaxCatalog.versionOrder at hle
    simp only [hy'] at hle
    cases hy : r.2.yearStart with
    | none =>
      rw [hy] at hle
      exact absurd hle (by simp [Prod.Lex.toLex_le_toLex])
    | some y =>
      rw [hy] at hle
      exact ⟨y, rfl, by simpa [Prod.Lex.toLex_le_toLex] using hle⟩

end CatalogTables

/-! ### What stays -/

namespace Catalog

variable {c c' : Catalog} {answer : CatalogAnswer}

theorem withRecord_eq_ok {α β : Type} {t : Table α} {k : ℕ} {missing : TaxCatalogError}
    {f : α → Except TaxCatalogError β} {b : β} (h : withRecord t k missing f = .ok b) :
    ∃ a, t.get? k = some a ∧ f a = .ok b := by
  unfold withRecord at h
  cases hk : t.get? k with
  | none =>
    rw [hk] at h
    cases h
  | some a =>
    rw [hk] at h
    exact ⟨a, rfl, h⟩

/-- Every row under a key with `p` has a row after it. -/
def Keeps {α : Type} (p : ℕ → Prop) (t t' : Table α) : Prop := ∀ k, p k → (t.get? k).isSome → (t'.get? k).isSome

namespace Keeps

variable {α : Type} {p : ℕ → Prop} {t : Table α} {k : ℕ}

theorem refl (t : Table α) : Keeps p t t := fun _ _ h => h

theorem insert (a : α) : Keeps p t (t.insert a) := by
  intro j _ hj
  rw [Table.isSome_get?] at hj ⊢
  obtain ⟨b, hb⟩ := hj
  exact ⟨b, Table.mem_insert.mpr (.inl hb)⟩

theorem modify (f : α → α) : Keeps p t (t.modify k f) := by
  intro j _ hj
  rw [Table.isSome_get?] at hj ⊢
  obtain ⟨b, hb⟩ := hj
  by_cases hjk : j = k
  · subst hjk
    exact ⟨f b, Table.mem_modify.mpr (.inr ⟨rfl, b, hb, rfl⟩)⟩
  · exact ⟨b, Table.mem_modify.mpr (.inl ⟨hjk, hb⟩)⟩

theorem erase (h : ¬ p k) : Keeps p t (t.erase k) := by
  intro j hp hj
  rw [Table.isSome_get?] at hj ⊢
  obtain ⟨b, hb⟩ := hj
  refine ⟨b, Table.mem_erase.mpr ⟨hb, ?_⟩⟩
  rintro rfl
  exact h hp

end Keeps

/-- The definitions and the fees that a transaction names are not deleted. -/
def KeepsNamed (c c' : Catalog) : Prop :=
  Keeps (· ∈ c.taxed) c.definitions c'.definitions ∧ Keeps (fun k => some k ∈ c.charged) c.fees c'.fees

theorem KeepsNamed.bases (c : Catalog) (t : Table TaxBaseCreate) : c.KeepsNamed { c with bases := t } :=
  ⟨.refl _, .refl _⟩

theorem KeepsNamed.definitions {t : Table TaxDefinitionCreate} (h : Keeps (· ∈ c.taxed) c.definitions t) :
    c.KeepsNamed { c with definitions := t } := ⟨h, .refl _⟩

theorem KeepsNamed.fees {t : Table String} (h : Keeps (fun k => some k ∈ c.charged) c.fees t) :
    c.KeepsNamed { c with fees := t } := ⟨.refl _, h⟩

theorem call_keepsNamed {call : CatalogCall} (h : c.call call = .ok (answer, c')) : c.KeepsNamed c' := by
  cases call with
  | createTaxBase body =>
    change (if _ then _ else _) = _ at h
    split_ifs at h with hnodup
    cases h
    exact .bases c _
  | getTaxBase base_id =>
    obtain ⟨b, -, h⟩ := withRecord_eq_ok h
    cases h
    exact .bases c _
  | listTaxBases =>
    cases h
    exact .bases c _
  | updateTaxBase base_id body =>
    obtain ⟨b, -, h⟩ := withRecord_eq_ok h
    split_ifs at h with hnodup
    cases h
    exact .bases c _
  | deleteTaxBase base_id =>
    obtain ⟨b, -, h⟩ := withRecord_eq_ok h
    cases h
    exact .bases c _
  | createTaxDefinition body =>
    change (if _ then _ else _) = _ at h
    split_ifs at h with hslug
    cases h
    exact .definitions (.insert body)
  | getTaxDefinition definition_id =>
    obtain ⟨r, -, h⟩ := withRecord_eq_ok h
    cases h
    exact .bases c _
  | listTaxDefinitions =>
    cases h
    exact .bases c _
  | updateTaxDefinition definition_id body =>
    obtain ⟨r, -, h⟩ := withRecord_eq_ok h
    split_ifs at h with hslug
    cases h
    exact .definitions (.modify _)
  | deleteTaxDefinition definition_id =>
    obtain ⟨r, -, h⟩ := withRecord_eq_ok h
    split_ifs at h with hused
    cases h
    exact .definitions (.erase hused)
  | createBrokerFeeDefinition name =>
    cases h
    exact .fees (.insert name)
  | getBrokerFeeDefinition definition_id =>
    obtain ⟨r, -, h⟩ := withRecord_eq_ok h
    cases h
    exact .bases c _
  | listBrokerFeeDefinitions =>
    cases h
    exact .bases c _
  | updateBrokerFeeDefinition definition_id name =>
    obtain ⟨r, -, h⟩ := withRecord_eq_ok h
    cases h
    exact .fees (.modify _)
  | deleteBrokerFeeDefinition definition_id =>
    obtain ⟨r, -, h⟩ := withRecord_eq_ok h
    split_ifs at h with hused
    cases h
    exact .fees (.erase hused)

theorem after_keepsNamed (c : Catalog) (event : CatalogEvent) : c.KeepsNamed (c.after event) := by
  cases event with
  | recorded taxes fees => exact ⟨.refl _, .refl _⟩
  | call call =>
    change c.KeepsNamed (match c.call call with
      | .ok (_, c') => c'
      | .error _ => c)
    cases h : c.call call with
    | error e => exact .bases c _
    | ok r => exact call_keepsNamed h

end Catalog

/-! ## The laws -/

/-- The tables after a sequence of calls, against the records. -/
structure CatalogLaws (d : CatalogTables) (events : List CatalogEvent) : Prop where
  catalog : (d.runs events).catalog = d.catalog.runs events
  answers : ∀ call, (d.runs events).answers call = ((d.catalog.runs events).call call).map Prod.fst
  refused : ∀ call e, (d.runs events).answers call = .error e → d.runs (events ++ [.call call]) = d.runs events
  slugs : (d.runs events).SlugsUnique
  named : ∀ event, (d.catalog.runs events).KeepsNamed (d.runs (events ++ [event])).catalog
  engine : ∀ ruleset_key year, (d.runs events).EngineReads (d.catalog.runs events) ruleset_key year

/-- However the catalog is edited, the tables answer as whole records do, a call that fails changes nothing, no two
definitions share a slug, what a transaction names is not deleted, and the tax engine computes with the latest base of
the year. -/
theorem catalogRuns_laws {d : CatalogTables} (h : d.SlugsUnique) (events : List CatalogEvent) : CatalogLaws d events := by
  obtain ⟨hcatalog, hslugs⟩ := CatalogTables.runs_refines h events
  refine ⟨hcatalog, fun call => ?_, fun call e hraise => ?_, hslugs, fun event => ?_, fun ruleset_key year => ?_⟩
  · rw [CatalogTables.answers_refines hslugs, hcatalog]
  · exact List.foldl_append.trans (CatalogTables.after_refused hslugs hraise)
  · have hlast : d.runs (events ++ [event]) = (d.runs events).after event := List.foldl_append
    rw [hlast, (CatalogTables.after_refines hslugs event).1, hcatalog]
    exact Catalog.after_keepsNamed _ event
  · rw [← hcatalog]
    exact CatalogTables.engineReads _ ruleset_key year

namespace Sample

def catalogBase : TaxBaseCreate where
  rulesetKey := "spain"
  name := "Savings"
  computation := .progressive
  yearStart := some 2025
  categories := [.interest, .capitalGains]
  rates := [⟨6000, none, 21 / 100⟩, ⟨0, some 6000, 19 / 100⟩]

/-- A base is written, deleted and written again, a definition is recorded on a transaction, and the calls that must
fail are made. -/
def catalogEvents : List CatalogEvent :=
  [.call (.createTaxBase catalogBase), .call (.deleteTaxBase 0), .call (.createTaxBase { catalogBase with rates := [] }),
    .call (.updateTaxBase 1 { catalogBase with categories := [.dividends, .dividends] }),
    .call (.createTaxDefinition { slug := "ftt", name := "Levy" }), .recorded [0] [], .call (.deleteTaxDefinition 0)]

theorem catalog_edited : CatalogLaws CatalogTables.empty catalogEvents :=
  catalogRuns_laws (fun _ hr => absurd hr List.not_mem_nil) catalogEvents

/-- The second base has none of the rates that the first one left behind. -/
example : ((CatalogTables.empty.runs catalogEvents).taxBaseRates.length,
    (CatalogTables.empty.runs catalogEvents).getTaxBaseRates 1) = (2, []) := by decide +kernel

end Sample

end FinHub
