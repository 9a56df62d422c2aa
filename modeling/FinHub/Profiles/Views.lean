import FinHub.Profiles.Store
import FinHub.Analytics.Holdings

/-!
# FinHub.Profiles.Views

The database as the statements of one profile read it.

A statement with `_profile_clause` on a table reads the rows of the profile there; a statement without it,
and a join on an id, reads every row. `Store.ledger` is the ledger that remains under given clauses.

* `SameFor`: two databases that differ in the rows of other profiles only.
* `SameFor.ledger_eq`: where the scopes read the same rows, the ledger is the same.
-/

namespace FinHub

open Tabular

/-! ## Rows in scope -/

section Scoped

variable {α : Type}

/-- The rows that a statement reads under a scope. -/
def scopedRows (t : Table (Owned α)) (scope : Option ℕ) : List (ℕ × α) :=
  (t.rows.filter fun r => r.2.inScope scope).map fun r => (r.1, r.2.row)

/-- A number above all keys. -/
def topKey (keys : List ℕ) : ℕ := keys.foldr (fun k top => max (k + 1) top) 0

theorem lt_topKey {keys : List ℕ} {k : ℕ} (h : k ∈ keys) : k < topKey keys := by
  induction keys with
  | nil => cases h
  | cons j keys ih =>
    rw [topKey, List.foldr_cons]
    rcases List.mem_cons.mp h with rfl | h
    · exact lt_of_lt_of_le (Nat.lt_succ_self _) (le_max_left _ _)
    · exact lt_of_lt_of_le (ih h) (le_max_right _ _)

/-- The rows in scope as a table, with room above the keys that other rows name. -/
def scopedTable (t : Table (Owned α)) (scope : Option ℕ) (named : List ℕ := []) : Table α where
  rows := scopedRows t scope
  next := topKey ((scopedRows t scope).map Prod.fst ++ named)
  sorted := by
    unfold scopedRows
    rw [List.pairwise_map]
    exact t.sorted.filter _
  bounded := by
    intro r hr
    exact lt_topKey (List.mem_append_left _ (List.mem_map_of_mem hr))

variable {t : Table (Owned α)} {scope : Option ℕ}

theorem mem_scopedRows {r : ℕ × α} : r ∈ scopedRows t scope ↔
    ∃ o : Owned α, (r.1, o) ∈ t.rows ∧ o.inScope scope = true ∧ o.row = r.2 := by
  unfold scopedRows
  rw [List.mem_map]
  constructor
  · rintro ⟨⟨id, o⟩, hmem, rfl⟩
    obtain ⟨hmem, hscope⟩ := List.mem_filter.mp hmem
    exact ⟨o, hmem, hscope, rfl⟩
  · rintro ⟨o, hmem, hscope, hrow⟩
    exact ⟨(r.1, o), List.mem_filter.mpr ⟨hmem, hscope⟩, Prod.ext rfl hrow⟩

/-- Without a clause every row is in scope. -/
theorem mem_scopedRows_none {r : ℕ × α} :
    r ∈ scopedRows t none ↔ ∃ o : Owned α, (r.1, o) ∈ t.rows ∧ o.row = r.2 := by
  simp [mem_scopedRows, Owned.inScope]

theorem mem_scopedRows_some {p : ℕ} {r : ℕ × α} :
    r ∈ scopedRows t (some p) ↔ (r.1, (⟨some p, r.2⟩ : Owned α)) ∈ t.rows := by
  rw [mem_scopedRows]
  constructor
  · rintro ⟨⟨owner, row⟩, hmem, hscope, hrow⟩
    have howner : owner = some p := by simpa [Owned.inScope] using hscope
    rwa [howner, show row = r.2 from hrow] at hmem
  · intro hmem
    exact ⟨_, hmem, by simp [Owned.inScope], rfl⟩

theorem scopedTable_get?_some {p id : ℕ} {a : α} {named : List ℕ} :
    (scopedTable t (some p) named).get? id = some a ↔ (id, (⟨some p, a⟩ : Owned α)) ∈ t.rows := by
  rw [Table.get?_eq_some_iff]
  exact mem_scopedRows_some

theorem scopedTable_get?_none {id : ℕ} {a : α} {named : List ℕ} :
    (scopedTable t none named).get? id = some a ↔ ∃ owner, (id, (⟨owner, a⟩ : Owned α)) ∈ t.rows := by
  rw [Table.get?_eq_some_iff]
  refine Iff.trans mem_scopedRows_none ⟨?_, ?_⟩
  · rintro ⟨⟨owner, row⟩, hmem, hrow⟩
    exact ⟨owner, by rwa [show row = a from hrow] at hmem⟩
  · rintro ⟨owner, hmem⟩
    exact ⟨_, hmem, rfl⟩

/-- The tables over the same rows are the same. -/
theorem scopedTable_congr {t' : Table (Owned α)} {scope' : Option ℕ} {named named' : List ℕ}
    (hrows : scopedRows t' scope' = scopedRows t scope) (hnamed : named' = named) :
    scopedTable t' scope' named' = scopedTable t scope named := by
  refine Table.ext_rows hrows ?_
  change topKey ((scopedRows t' scope').map Prod.fst ++ named') =
    topKey ((scopedRows t scope).map Prod.fst ++ named)
  rw [hrows, hnamed]

end Scoped

/-! ## Views -/

/-- The scope of each table that some statements read without a clause. -/
structure Clauses where
  transactions : Option ℕ
  portfolioAssets : Option ℕ
  entities : Option ℕ

namespace Store

variable (s : Store) (z : Zones) (profile_id : ℕ)

/-- The transactions that the fees and taxes of a profile name. -/
def chargedIds : List ℕ :=
  (scopedRows s.transactionFees (some profile_id)).map (fun f => f.2.transactionId) ++
    (scopedRows s.transactionTaxes (some profile_id)).map fun x => x.2.transactionId

theorem lt_transactions_next (scope : Option ℕ) :
    (∀ f ∈ (scopedTable s.transactionFees (some profile_id)).rows, f.2.transactionId <
      (scopedTable s.transactions scope (s.chargedIds profile_id)).next) ∧
    ∀ x ∈ (scopedTable s.transactionTaxes (some profile_id)).rows, x.2.transactionId <
      (scopedTable s.transactions scope (s.chargedIds profile_id)).next := by
  constructor
  · intro f hf
    refine lt_topKey (List.mem_append_right _ (List.mem_append_left _ ?_))
    exact List.mem_map.mpr ⟨f, hf, rfl⟩
  · intro x hx
    refine lt_topKey (List.mem_append_right _ (List.mem_append_right _ ?_))
    exact List.mem_map.mpr ⟨x, hx, rfl⟩

/-- The ledger of a profile as statements with these clauses read it. -/
def ledger (clauses : Clauses) : Ledger where
  entities := scopedTable s.entities clauses.entities
  portfolioAssets := scopedTable s.portfolioAssets clauses.portfolioAssets
  fiscalExemptions := scopedTable s.fiscalExemptions (some profile_id)
  fiscalPeriods := periodsOf s.fiscalPeriods profile_id
  defaultFiscalRule := (s.profiles.get? profile_id).bind ProfileRow.defaultFiscalRule
  timezone := z.profileTimezone s.profiles (some profile_id)
  currencies := s.currencies
  transactions := scopedTable s.transactions clauses.transactions (s.chargedIds profile_id)
  links := []
  fees := scopedTable s.transactionFees (some profile_id)
  taxes := scopedTable s.transactionTaxes (some profile_id)
  snapshots := scopedTable s.balanceSnapshots (some profile_id)
  schedules := .empty
  fees_lt := (s.lt_transactions_next profile_id clauses.transactions).1
  taxes_lt := (s.lt_transactions_next profile_id clauses.transactions).2
  links_lt := by simp

/-- Every table with the clause. -/
def own : Ledger := s.ledger z profile_id ⟨some profile_id, some profile_id, some profile_id⟩

/-- The transactions of the profile, joined with any asset and any entity. -/
def joined : Ledger := s.ledger z profile_id ⟨some profile_id, none, none⟩

/-- The rows of the profile, joined with any transaction. -/
def attached : Ledger := s.ledger z profile_id ⟨none, some profile_id, some profile_id⟩

/-- The market tables, which are shared, and the values that the profile recorded by hand. -/
def market : Market :=
  ⟨s.marketAssets, s.prices, (scopedRows s.manualValues (some profile_id)).map Prod.snd⟩

end Store

/-! ## Two databases of one profile -/

/-- The databases have the same rows of the profile and the same market tables. -/
structure SameFor (profile_id : ℕ) (s s' : Store) : Prop where
  profile : s'.profiles.get? profile_id = s.profiles.get? profile_id
  entities : scopedRows s'.entities (some profile_id) = scopedRows s.entities (some profile_id)
  transactions : scopedRows s'.transactions (some profile_id) = scopedRows s.transactions (some profile_id)
  transactionFees :
    scopedRows s'.transactionFees (some profile_id) = scopedRows s.transactionFees (some profile_id)
  transactionTaxes :
    scopedRows s'.transactionTaxes (some profile_id) = scopedRows s.transactionTaxes (some profile_id)
  portfolioAssets :
    scopedRows s'.portfolioAssets (some profile_id) = scopedRows s.portfolioAssets (some profile_id)
  balanceSnapshots :
    scopedRows s'.balanceSnapshots (some profile_id) = scopedRows s.balanceSnapshots (some profile_id)
  schedules : scopedRows s'.schedules (some profile_id) = scopedRows s.schedules (some profile_id)
  scheduleOccurrences :
    scopedRows s'.scheduleOccurrences (some profile_id) = scopedRows s.scheduleOccurrences (some profile_id)
  manualValues : scopedRows s'.manualValues (some profile_id) = scopedRows s.manualValues (some profile_id)
  fiscalExemptions :
    scopedRows s'.fiscalExemptions (some profile_id) = scopedRows s.fiscalExemptions (some profile_id)
  fiscalPeriods : FiscalPeriodSvc.getAllFiscalPeriods s'.fiscalPeriods profile_id =
    FiscalPeriodSvc.getAllFiscalPeriods s.fiscalPeriods profile_id
  currencies : s'.currencies = s.currencies
  marketAssets : s'.marketAssets = s.marketAssets
  prices : s'.prices = s.prices
  stockSplits : s'.stockSplits = s.stockSplits

namespace SameFor

variable {s s' : Store} {profile_id : ℕ}

theorem market_eq (h : SameFor profile_id s s') : s'.market profile_id = s.market profile_id := by
  unfold Store.market
  rw [h.marketAssets, h.prices, h.manualValues]

/-- A ledger over scopes that read the same rows. -/
theorem ledger_eq (h : SameFor profile_id s s') (z : Zones) (clauses : Clauses)
    (htransactions : scopedRows s'.transactions clauses.transactions = scopedRows s.transactions clauses.transactions)
    (hassets : scopedRows s'.portfolioAssets clauses.portfolioAssets =
      scopedRows s.portfolioAssets clauses.portfolioAssets)
    (hentities : scopedRows s'.entities clauses.entities = scopedRows s.entities clauses.entities) :
    s'.ledger z profile_id clauses = s.ledger z profile_id clauses := by
  have hcharged : s'.chargedIds profile_id = s.chargedIds profile_id := by
    unfold Store.chargedIds
    rw [h.transactionFees, h.transactionTaxes]
  have hperiods : periodsOf s'.fiscalPeriods profile_id = periodsOf s.fiscalPeriods profile_id := by
    unfold periodsOf
    rw [h.fiscalPeriods]
  have hzone : z.profileTimezone s'.profiles (some profile_id) = z.profileTimezone s.profiles (some profile_id) := by
    unfold Zones.profileTimezone
    rw [Option.bind_some, Option.bind_some, h.profile]
  unfold Store.ledger
  simp only [scopedTable_congr hentities rfl, scopedTable_congr hassets rfl,
    scopedTable_congr h.fiscalExemptions rfl, hperiods, h.profile, hzone, h.currencies,
    scopedTable_congr htransactions hcharged, scopedTable_congr h.transactionFees rfl,
    scopedTable_congr h.transactionTaxes rfl, scopedTable_congr h.balanceSnapshots rfl]

theorem own_eq (h : SameFor profile_id s s') (z : Zones) : s'.own z profile_id = s.own z profile_id :=
  h.ledger_eq z _ h.transactions h.portfolioAssets h.entities

end SameFor

end FinHub
