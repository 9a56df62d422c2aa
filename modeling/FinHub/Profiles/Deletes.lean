import FinHub.Profiles.Store

/-!
# FinHub.Profiles.Deletes

The guarded deletes of the shared codes and assets, and the delete of a profile.

A guarded delete counts the dependents in tables its query lists, and in the tables of the profiles only
the rows of the active profile. It leaves nothing dangling exactly where no other row names what it
removes (`DeleteCall.clean_iff`). The delete of a profile empties ten tables; `fiscal_periods` and
`balance_adjustment_links` are not among them (`ProfileSvc.delete_iff`).
-/

namespace FinHub

open Tabular

/-! ## Guarded deletes -/

inductive DeleteError where
  | currencyError (code : Currency)
  | currencyCodeHasDependents (code : Currency)
  | marketAssetNotFound (market_code : String)
  | marketAssetHasDependents (market_code : String)
  | portfolioAssetNotFound (id : ℕ)
  | portfolioAssetHasDependents (id : ℕ)
  deriving DecidableEq

def DeleteError.message : DeleteError → String
  | currencyError code => s!"Currency code '{code}' not found"
  | currencyCodeHasDependents code =>
    s!"Currency code '{code}' has market assets, transactions, fees, taxes, or snapshots referencing it"
  | marketAssetNotFound market_code => s!"Market asset '{market_code}' not found"
  | marketAssetHasDependents market_code =>
    s!"Market asset '{market_code}' has portfolio assets or prices referencing it"
  | portfolioAssetNotFound id => s!"Portfolio asset {id} not found"
  | portfolioAssetHasDependents id => s!"Portfolio asset {id} has transactions referencing it"

namespace Store

variable (s : Store) (profile_id : Option ℕ)

def currencyCodeHasDependents (code : Currency) : Bool :=
  (s.marketAssets.any fun a => decide (a.currencyCode = code)) ||
  (s.transactions.rows.any fun r => decide (code ∈ r.2.row.currencies) && r.2.inScope profile_id) ||
  (s.transactionFees.rows.any fun r => decide (r.2.row.currency = code) && r.2.inScope profile_id) ||
  (s.transactionTaxes.rows.any fun r => decide (r.2.row.currency = code) && r.2.inScope profile_id) ||
  (s.balanceSnapshots.rows.any fun r => decide (r.2.row.currency = code) && r.2.inScope profile_id)

def marketAssetHasDependents (market_code : String) : Bool :=
  (s.portfolioAssets.rows.any fun r => r.2.row.marketCode == market_code && r.2.inScope profile_id) ||
  (s.prices.any fun p => p.marketCode == market_code)

def portfolioAssetHasDependents (asset_id : ℕ) : Bool :=
  s.transactions.rows.any fun r => r.2.row.portfolioAssetId == some asset_id && r.2.inScope profile_id

def getPortfolioAsset (asset_id : ℕ) : Option PortfolioAsset :=
  ((s.portfolioAssets.get? asset_id).filter fun o => o.inScope profile_id).map Owned.row

end Store

/-- The form of the three deletes: refuse what is not there, refuse what is in use, delete. -/
def guardedDelete (found hasDependents : Bool) (notFound inUse : DeleteError) (deleted s : Store) :
    Except DeleteError Unit × Store :=
  if found then if hasDependents then (.error inUse, s) else (.ok (), deleted) else (.error notFound, s)

namespace CurrencySvc

def deleteCode (profile_id : Option ℕ) (code : Currency) (s : Store) : Except DeleteError Unit × Store :=
  guardedDelete (s.codeExists code) (s.currencyCodeHasDependents profile_id code)
    (.currencyError code) (.currencyCodeHasDependents code)
    { s with currencies := s.currencies.filter fun c => !(c.code == code || c.baseCode == code) } s

end CurrencySvc

namespace MarketAssetSvc

def delete (profile_id : Option ℕ) (market_code : String) (s : Store) : Except DeleteError Unit × Store :=
  guardedDelete (s.getMarketAsset market_code).isSome (s.marketAssetHasDependents profile_id market_code)
    (.marketAssetNotFound market_code) (.marketAssetHasDependents market_code)
    { s with marketAssets := s.marketAssets.filter fun a => !(a.marketCode == market_code) } s

end MarketAssetSvc

namespace PortfolioAssetSvc

def delete (profile_id : Option ℕ) (asset_id : ℕ) (s : Store) : Except DeleteError Unit × Store :=
  guardedDelete (s.getPortfolioAsset profile_id asset_id).isSome
    (s.portfolioAssetHasDependents profile_id asset_id)
    (.portfolioAssetNotFound asset_id) (.portfolioAssetHasDependents asset_id)
    { s with
      portfolioAssets := s.portfolioAssets.removeWhere fun r =>
        r.1 == asset_id && r.2.inScope profile_id } s

end PortfolioAssetSvc

/-- A call, by what it deletes. -/
inductive DeleteCall where
  | code (code : Currency)
  | marketAsset (market_code : String)
  | portfolioAsset (asset_id : ℕ)

/-- The tables a check looks at, in the first list every row, in the second the rows in scope. -/
structure DependentsCheck where
  everyRow : List TableName
  inScope : List TableName

/-- The check looks at the row of a reference. -/
def DependentsCheck.Sees (c : DependentsCheck) (profile_id : Option ℕ) (r : Reference) : Prop :=
  r.table ∈ c.everyRow ∨ r.table ∈ c.inScope ∧ ∀ p ∈ profile_id, r.owner = some p

namespace DeleteCall

def run (profile_id : Option ℕ) (s : Store) : DeleteCall → Except DeleteError Unit × Store
  | code c => CurrencySvc.deleteCode profile_id c s
  | marketAsset market_code => MarketAssetSvc.delete profile_id market_code s
  | portfolioAsset asset_id => PortfolioAssetSvc.delete profile_id asset_id s

def target : DeleteCall → Target
  | code c => .currency c
  | marketAsset market_code => .marketAsset market_code
  | portfolioAsset asset_id => .portfolioAsset asset_id

/-- The tables of the query of each call. -/
def check : DeleteCall → DependentsCheck
  | code _ =>
    ⟨[.marketAssets], [.transactions, .transactionFees, .transactionTaxes, .balanceSnapshots]⟩
  | marketAsset _ => ⟨[.prices], [.portfolioAssets]⟩
  | portfolioAsset _ => ⟨[], [.transactions]⟩

/-- The database after a delete that is not refused. -/
def deleted (profile_id : Option ℕ) (s : Store) : DeleteCall → Store
  | code c => { s with currencies := s.currencies.filter fun r => !(r.code == c || r.baseCode == c) }
  | marketAsset market_code =>
    { s with marketAssets := s.marketAssets.filter fun a => !(a.marketCode == market_code) }
  | portfolioAsset asset_id =>
    { s with
      portfolioAssets := s.portfolioAssets.removeWhere fun r =>
        r.1 == asset_id && r.2.inScope profile_id }

def found (profile_id : Option ℕ) (s : Store) : DeleteCall → Bool
  | code c => s.codeExists c
  | marketAsset market_code => (s.getMarketAsset market_code).isSome
  | portfolioAsset asset_id => (s.getPortfolioAsset profile_id asset_id).isSome

def hasDependents (profile_id : Option ℕ) (s : Store) : DeleteCall → Bool
  | code c => s.currencyCodeHasDependents profile_id c
  | marketAsset market_code => s.marketAssetHasDependents profile_id market_code
  | portfolioAsset asset_id => s.portfolioAssetHasDependents profile_id asset_id

end DeleteCall

theorem Owned.inScope_iff {α : Type} {o : Owned α} {profile_id : Option ℕ} :
    o.inScope profile_id = true ↔ ∀ p ∈ profile_id, o.profileId = some p := by
  cases profile_id <;> simp [inScope]

section

variable {α : Type} {table : TableName} {targets : α → List Target} {x : Target} {c : DependentsCheck}
  {profile_id : Option ℕ}

theorem exists_seen_period (hx : ∀ p, x ≠ .profile p) {t : Table FiscalPeriodRow} :
    ¬ ∃ r ∈ periodReferences t, r.target = x ∧ c.Sees profile_id r := by
  intro ⟨r, hr, htarget, _⟩
  obtain ⟨-, row, -, -, hprofile⟩ := mem_periodReferences.mp hr
  exact hx _ (htarget.symm.trans hprofile)

theorem exists_seen_owned (hx : ∀ p, x ≠ .profile p) {t : Table (Owned α)} :
    (∃ r ∈ ownedReferences table targets t, r.target = x ∧ c.Sees profile_id r) ↔
      ∃ row ∈ t.rows, x ∈ targets row.2.row ∧
        (table ∈ c.everyRow ∨ table ∈ c.inScope ∧ row.2.inScope profile_id = true) := by
  constructor
  · intro ⟨r, hr, htarget, hsees⟩
    obtain ⟨rfl, row, hrow, howner, hnames⟩ := mem_ownedReferences.mp hr
    refine ⟨row, hrow, ?_, ?_⟩
    · rcases hnames with hprofile | hnames
      · obtain ⟨p, -, hp⟩ := Option.map_eq_some_iff.mp hprofile
        exact absurd (htarget.symm.trans hp.symm) (hx p)
      · rwa [← htarget]
    · rwa [Owned.inScope_iff, ← howner]
  · intro ⟨row, hrow, hnames, hsees⟩
    refine ⟨⟨table, row.2.profileId, x⟩, mem_ownedReferences.mpr ⟨rfl, row, hrow, rfl, .inr hnames⟩,
      rfl, ?_⟩
    rwa [Owned.inScope_iff] at hsees

theorem exists_seen_shared {rows : List α} :
    (∃ r ∈ sharedReferences table targets rows, r.target = x ∧ c.Sees profile_id r) ↔
      ∃ a ∈ rows, x ∈ targets a ∧
        (table ∈ c.everyRow ∨ table ∈ c.inScope ∧ profile_id = none) := by
  have hscope : (∀ p ∈ profile_id, none = some p) ↔ profile_id = none := by
    cases profile_id <;> simp
  constructor
  · intro ⟨r, hr, htarget, hsees⟩
    obtain ⟨rfl, howner, a, ha, hnames⟩ := mem_sharedReferences.mp hr
    refine ⟨a, ha, by rwa [← htarget], ?_⟩
    rwa [DependentsCheck.Sees, howner, hscope] at hsees
  · intro ⟨a, ha, hnames, hsees⟩
    refine ⟨⟨table, none, x⟩, mem_sharedReferences.mpr ⟨rfl, rfl, a, ha, hnames⟩, rfl, ?_⟩
    rwa [DependentsCheck.Sees, hscope]

end

namespace DeleteCall

variable {call : DeleteCall} {profile_id : Option ℕ} {s : Store}

theorem target_ne_profile (call : DeleteCall) (p : ℕ) : call.target ≠ .profile p := by
  cases call <;> simp [target]

/-- A check finds the references its tables hold in its scope, and no other. -/
theorem hasDependents_iff : call.hasDependents profile_id s = true ↔
    ∃ r ∈ s.references, r.target = call.target ∧ call.check.Sees profile_id r := by
  simp only [Store.references, List.mem_append, or_and_right, exists_or,
    exists_seen_owned call.target_ne_profile, exists_seen_shared,
    exists_seen_period call.target_ne_profile]
  cases call with
  | code code =>
    simp [hasDependents, target, check, Store.currencyCodeHasDependents, @eq_comm _ code]
  | marketAsset market_code =>
    simp [hasDependents, target, check, Store.marketAssetHasDependents, @eq_comm _ market_code]
  | portfolioAsset asset_id =>
    simp [hasDependents, target, check, Store.portfolioAssetHasDependents]

theorem run_of_refused (h : call.found profile_id s = false ∨ call.hasDependents profile_id s = true) :
    ∃ e, call.run profile_id s = (.error e, s) := by
  cases call <;> simp only [run, CurrencySvc.deleteCode, MarketAssetSvc.delete,
    PortfolioAssetSvc.delete, guardedDelete] <;> split_ifs <;> simp_all [found, hasDependents]

theorem run_of_accepted (hfound : call.found profile_id s = true)
    (hfree : call.hasDependents profile_id s = false) :
    call.run profile_id s = (.ok (), call.deleted profile_id s) := by
  cases call <;> simp_all [run, CurrencySvc.deleteCode, MarketAssetSvc.delete, PortfolioAssetSvc.delete,
    guardedDelete, found, hasDependents, deleted]

/-- The row that goes does not name itself, so the references to it are those there were. -/
theorem refersTo_deleted :
    (call.deleted profile_id s).RefersTo call.target ↔ s.RefersTo call.target := by
  cases call with
  | code c => rfl
  | marketAsset market_code =>
    have hself : ∀ rows : List MarketAsset, ¬ ∃ r ∈ sharedReferences .marketAssets MarketAsset.targets
        rows, r.target = .marketAsset market_code := by
      intro rows ⟨r, hr, htarget⟩
      obtain ⟨-, -, a, -, hnames⟩ := mem_sharedReferences.mp hr
      simp [htarget] at hnames
    simp only [Store.RefersTo, Store.references, deleted, target, List.mem_append, or_and_right,
      exists_or, hself]
  | portfolioAsset asset_id =>
    have hself : ∀ t : Table (Owned PortfolioAsset), ¬ ∃ r ∈ ownedReferences .portfolioAssets
        PortfolioAsset.targets t, r.target = .portfolioAsset asset_id := by
      intro t ⟨r, hr, htarget⟩
      obtain ⟨-, row, -, -, hnames⟩ := mem_ownedReferences.mp hr
      simp [htarget] at hnames
    simp only [Store.RefersTo, Store.references, deleted, target, List.mem_append, or_and_right,
      exists_or, hself]

/-- What a call should leave: nothing that names what is gone, or the database as it was. -/
def Clean (call : DeleteCall) (profile_id : Option ℕ) (s : Store) : Prop :=
  match call.run profile_id s with
  | (.ok _, s') => ¬ s'.RefersTo call.target
  | (.error _, s') => s' = s

/-- A call is clean exactly if it is refused, or its check looks at every row that names what it
deletes. -/
theorem clean_iff : call.Clean profile_id s ↔
    (call.found profile_id s = false ∨ call.hasDependents profile_id s = true) ∨
      ∀ r ∈ s.references, r.target = call.target → call.check.Sees profile_id r := by
  by_cases hrefused : call.found profile_id s = false ∨ call.hasDependents profile_id s = true
  · obtain ⟨e, he⟩ := run_of_refused hrefused
    simp [Clean, he, hrefused]
  obtain ⟨hfound, hfree⟩ : call.found profile_id s = true ∧ call.hasDependents profile_id s = false := by
    simpa using hrefused
  have hunseen : ∀ r ∈ s.references, r.target = call.target → ¬ call.check.Sees profile_id r := by
    intro r hr htarget hsees
    rw [hasDependents_iff.mpr ⟨r, hr, htarget, hsees⟩] at hfree
    cases hfree
  simp only [Clean, run_of_accepted hfound hfree, refersTo_deleted, hrefused, false_or]
  constructor
  · intro hnone r hr htarget
    exact absurd ⟨r, hr, htarget⟩ hnone
  · intro hall ⟨r, hr, htarget⟩
    exact hunseen r hr htarget (hall r hr htarget)

end DeleteCall

namespace Sample

/-- Two profiles. The second has an account in euro and a salary on it. -/
def household : Store :=
  { Store.empty with
    currencies := [⟨eur, eur, 1, ⟨0, none⟩⟩]
    profiles := (Table.empty.insert { name := "Ana" }).insert { name := "Luz" }
    entities := Table.empty.insert ⟨some 1, { name := "bank", mainCurrency := some eur }⟩
    transactions := Table.empty.insert
      ⟨some 1, { timestamp := 0, type := .income, entityId := 0, currency := eur }⟩ }

/-- The first profile deletes the euro, and the rows of the second keep naming it. -/
theorem euro_deleted : household.Resolves ∧ ¬ (DeleteCall.code eur).Clean (some 0) household := by
  refine ⟨by decide +kernel, ?_⟩
  have hrun := DeleteCall.run_of_accepted (by decide +kernel :
    (DeleteCall.code eur).found (some 0) household = true) (by decide +kernel)
  have hleft : ((DeleteCall.code eur).deleted (some 0) household).RefersTo
      (DeleteCall.code eur).target := by decide +kernel
  simpa [DeleteCall.Clean, hrun] using hleft

end Sample

/-! ## The delete of a profile -/

inductive ProfileError where
  | profileNotFound (id : ℕ)
  | lastProfile
  deriving DecidableEq

def ProfileError.message : ProfileError → String
  | profileNotFound id => s!"Profile {id} not found"
  | lastProfile => "Cannot delete the last remaining profile"

/-- Drop the rows of a profile. -/
def dropOwned {α : Type} (profile_id : ℕ) (t : Table (Owned α)) : Table (Owned α) :=
  t.removeWhere fun r => r.2.profileId == some profile_id

namespace ProfileSvc

/-- The tables `_PROFILE_DELETE_ORDER` names. -/
inductive PurgedTable where
  | scheduleOccurrences | transactionFees | transactionTaxes | manualValues | balanceSnapshots
  | schedules | transactions | portfolioAssets | entities | fiscalExemptions

/-- `_PROFILE_DELETE_ORDER`. -/
def profileDeleteOrder : List PurgedTable :=
  [.scheduleOccurrences, .transactionFees, .transactionTaxes, .manualValues, .balanceSnapshots,
    .schedules, .transactions, .portfolioAssets, .entities, .fiscalExemptions]

/-- `DELETE FROM {table} WHERE profile_id = ?`. -/
def deleteFrom (profile_id : ℕ) (s : Store) : PurgedTable → Store
  | .scheduleOccurrences =>
    { s with scheduleOccurrences := dropOwned profile_id s.scheduleOccurrences }
  | .transactionFees => { s with transactionFees := dropOwned profile_id s.transactionFees }
  | .transactionTaxes => { s with transactionTaxes := dropOwned profile_id s.transactionTaxes }
  | .manualValues => { s with manualValues := dropOwned profile_id s.manualValues }
  | .balanceSnapshots => { s with balanceSnapshots := dropOwned profile_id s.balanceSnapshots }
  | .schedules => { s with schedules := dropOwned profile_id s.schedules }
  | .transactions => { s with transactions := dropOwned profile_id s.transactions }
  | .portfolioAssets => { s with portfolioAssets := dropOwned profile_id s.portfolioAssets }
  | .entities => { s with entities := dropOwned profile_id s.entities }
  | .fiscalExemptions => { s with fiscalExemptions := dropOwned profile_id s.fiscalExemptions }

/-- The deletes of `profile_svc.delete`, the row of the profile last. -/
def purge (profile_id : ℕ) (s : Store) : Store :=
  let s := profileDeleteOrder.foldl (deleteFrom profile_id) s
  { s with profiles := s.profiles.erase profile_id }

def delete (profile_id : ℕ) (s : Store) : Except ProfileError Unit × Store :=
  match s.profiles.get? profile_id with
  | none => (.error (.profileNotFound profile_id), s)
  | some _ =>
    if s.profiles.rows.length ≤ 1 then (.error .lastProfile, s) else (.ok (), purge profile_id s)

end ProfileSvc

/-- The row a reference names belongs to the profile, or is the profile. -/
def Store.OfProfile (s : Store) (profile_id : ℕ) : Target → Prop
  | .profile id => id = profile_id
  | .entity id => ∃ o, s.entities.get? id = some o ∧ o.profileId = some profile_id
  | .fiscalExemption id => ∃ o, s.fiscalExemptions.get? id = some o ∧ o.profileId = some profile_id
  | .portfolioAsset id => ∃ o, s.portfolioAssets.get? id = some o ∧ o.profileId = some profile_id
  | .transaction id => ∃ o, s.transactions.get? id = some o ∧ o.profileId = some profile_id
  | .balanceSnapshot id => ∃ o, s.balanceSnapshots.get? id = some o ∧ o.profileId = some profile_id
  | .schedule id => ∃ o, s.schedules.get? id = some o ∧ o.profileId = some profile_id
  | .currency _ | .marketAsset _ | .taxDefinition _ | .brokerFeeDefinition _ => False

/-- The rows of other profiles are the same in two tables. -/
def SameOthers {α : Type} (profile_id : ℕ) (t t' : Table (Owned α)) : Prop :=
  ∀ r : ℕ × Owned α, r.2.profileId ≠ some profile_id → (r ∈ t'.rows ↔ r ∈ t.rows)

/-- Every row of another profile and every shared row of `s` is a row of `s'`, and they have no others
besides. A link is a row of the profile when one of its ends is. -/
structure Local (profile_id : ℕ) (s s' : Store) : Prop where
  profiles : ∀ r : ℕ × ProfileRow, r.1 ≠ profile_id → (r ∈ s'.profiles.rows ↔ r ∈ s.profiles.rows)
  entities : SameOthers profile_id s.entities s'.entities
  fiscalExemptions : SameOthers profile_id s.fiscalExemptions s'.fiscalExemptions
  portfolioAssets : SameOthers profile_id s.portfolioAssets s'.portfolioAssets
  transactions : SameOthers profile_id s.transactions s'.transactions
  links : ∀ l : Link, (∀ x ∈ l.targets, ¬ s.OfProfile profile_id x) →
    (l ∈ s'.balanceAdjustmentLinks ↔ l ∈ s.balanceAdjustmentLinks)
  transactionFees : SameOthers profile_id s.transactionFees s'.transactionFees
  transactionTaxes : SameOthers profile_id s.transactionTaxes s'.transactionTaxes
  balanceSnapshots : SameOthers profile_id s.balanceSnapshots s'.balanceSnapshots
  schedules : SameOthers profile_id s.schedules s'.schedules
  scheduleOccurrences : SameOthers profile_id s.scheduleOccurrences s'.scheduleOccurrences
  manualValues : SameOthers profile_id s.manualValues s'.manualValues
  fiscalPeriods : ∀ r : ℕ × FiscalPeriodRow, r.2.profileId ≠ profile_id →
    (r ∈ s'.fiscalPeriods.rows ↔ r ∈ s.fiscalPeriods.rows)
  currencies : s'.currencies = s.currencies
  marketAssets : s'.marketAssets = s.marketAssets
  prices : s'.prices = s.prices
  stockSplits : s'.stockSplits = s.stockSplits
  taxDefinitions : s'.taxDefinitions = s.taxDefinitions
  brokerFeeDefinitions : s'.brokerFeeDefinitions = s.brokerFeeDefinitions

/-- No row of `s'` names the profile or a row that was its own in `s`. -/
def Complete (profile_id : ℕ) (s s' : Store) : Prop :=
  ∀ r ∈ s'.references, ¬ s.OfProfile profile_id r.target

/-- Before the delete: the profile has no fiscal period, no link has an end among its transactions, and
no row of another profile names a row of it. -/
structure Detached (profile_id : ℕ) (s : Store) : Prop where
  noPeriods : ∀ r ∈ s.fiscalPeriods.rows, r.2.profileId ≠ profile_id
  noLinks : ∀ l ∈ s.balanceAdjustmentLinks, ∀ x ∈ l.targets, ¬ s.OfProfile profile_id x
  noForeign : ∀ r ∈ s.references, r.table ≠ .balanceAdjustmentLinks → r.owner ≠ some profile_id →
    ¬ s.OfProfile profile_id r.target

section

variable {profile_id : ℕ} {s : Store} {r : Reference}

theorem mem_dropOwned {α : Type} {t : Table (Owned α)} {row : ℕ × Owned α} :
    row ∈ (dropOwned profile_id t).rows ↔ row ∈ t.rows ∧ row.2.profileId ≠ some profile_id := by
  simp [dropOwned]

theorem sameOthers_dropOwned {α : Type} (t : Table (Owned α)) :
    SameOthers profile_id t (dropOwned profile_id t) := by
  intro row hrow
  simp [mem_dropOwned, hrow]

theorem mem_ownedReferences_dropOwned {α : Type} {table : TableName} {targets : α → List Target}
    {t : Table (Owned α)} : r ∈ ownedReferences table targets (dropOwned profile_id t) ↔
      r ∈ ownedReferences table targets t ∧ r.owner ≠ some profile_id := by
  simp only [mem_ownedReferences, mem_dropOwned]
  constructor
  · intro ⟨htable, row, ⟨hrow, hother⟩, howner, hnames⟩
    exact ⟨⟨htable, row, hrow, howner, hnames⟩, by rwa [howner]⟩
  · intro ⟨⟨htable, row, hrow, howner, hnames⟩, hother⟩
    exact ⟨htable, row, ⟨hrow, by rwa [← howner]⟩, howner, hnames⟩

theorem purge_eq (profile_id : ℕ) (s : Store) : ProfileSvc.purge profile_id s =
    { s with
      profiles := s.profiles.erase profile_id
      entities := dropOwned profile_id s.entities
      fiscalExemptions := dropOwned profile_id s.fiscalExemptions
      portfolioAssets := dropOwned profile_id s.portfolioAssets
      transactions := dropOwned profile_id s.transactions
      transactionFees := dropOwned profile_id s.transactionFees
      transactionTaxes := dropOwned profile_id s.transactionTaxes
      balanceSnapshots := dropOwned profile_id s.balanceSnapshots
      schedules := dropOwned profile_id s.schedules
      scheduleOccurrences := dropOwned profile_id s.scheduleOccurrences
      manualValues := dropOwned profile_id s.manualValues } := by
  simp only [ProfileSvc.purge, ProfileSvc.profileDeleteOrder, List.foldl, ProfileSvc.deleteFrom]

/-- What is left names what it named before: the rows of others, and all fiscal periods. -/
theorem mem_references_purge : r ∈ (ProfileSvc.purge profile_id s).references ↔
    r ∈ s.references ∧ (r.owner ≠ some profile_id ∨ r.table = .fiscalPeriods) := by
  simp only [Store.references, purge_eq, List.mem_append, mem_ownedReferences_dropOwned, or_and_right]
  have howned : ∀ {α : Type} {table : TableName} {targets : α → List Target} {t : Table (Owned α)},
      table ≠ .fiscalPeriods → (r ∈ ownedReferences table targets t ∧
        (r.owner ≠ some profile_id ∨ r.table = .fiscalPeriods) ↔
      r ∈ ownedReferences table targets t ∧ r.owner ≠ some profile_id) := by
    intro α table targets t htable
    refine and_congr_right fun hr => or_iff_left ?_
    rwa [(mem_ownedReferences.mp hr).1]
  have hshared : ∀ {α : Type} {table : TableName} {targets : α → List Target} {rows : List α},
      (r ∈ sharedReferences table targets rows ∧
        (r.owner ≠ some profile_id ∨ r.table = .fiscalPeriods) ↔
      r ∈ sharedReferences table targets rows) := by
    intro α table targets rows
    refine and_iff_left_of_imp fun hr => .inl ?_
    rw [(mem_sharedReferences.mp hr).2.1]
    exact Option.some_ne_none _ |>.symm
  have hperiod : (r ∈ periodReferences s.fiscalPeriods ∧
      (r.owner ≠ some profile_id ∨ r.table = .fiscalPeriods) ↔ r ∈ periodReferences s.fiscalPeriods) :=
    and_iff_left_of_imp fun hr => .inr (mem_periodReferences.mp hr).1
  rw [howned (by decide), howned (by decide), howned (by decide), howned (by decide), howned (by decide),
    howned (by decide), howned (by decide), howned (by decide), howned (by decide), howned (by decide),
    hperiod]
  simp only [hshared]

theorem exists_link_of_mem_references (hr : r ∈ s.references) (htable : r.table = .balanceAdjustmentLinks) :
    r.owner = none ∧ ∃ l ∈ s.balanceAdjustmentLinks, r.target ∈ l.targets := by
  simpa [Store.references, mem_ownedReferences, mem_sharedReferences, mem_periodReferences, htable]
    using hr

theorem exists_period_of_mem_references (hr : r ∈ s.references) (htable : r.table = .fiscalPeriods) :
    ∃ row ∈ s.fiscalPeriods.rows, r.owner = some row.2.profileId ∧ r.target = .profile row.2.profileId := by
  simpa [Store.references, mem_ownedReferences, mem_sharedReferences, mem_periodReferences, htable]
    using hr

theorem local_purge (profile_id : ℕ) (s : Store) : Local profile_id s (ProfileSvc.purge profile_id s) := by
  rw [purge_eq]
  constructor <;> first | exact sameOthers_dropOwned _ | rfl | skip
  · intro row hrow
    simp [hrow]
  · intro _ _
    rfl
  · intro _ _
    rfl

theorem complete_purge_iff :
    Complete profile_id s (ProfileSvc.purge profile_id s) ↔ Detached profile_id s := by
  constructor
  · intro h
    refine ⟨?_, ?_, ?_⟩
    · intro row hrow hprofile
      refine h ⟨.fiscalPeriods, some row.2.profileId, .profile row.2.profileId⟩ ?_ hprofile
      refine mem_references_purge.mpr ⟨?_, .inr rfl⟩
      exact List.mem_append_right _ (mem_periodReferences.mpr ⟨rfl, row, hrow, rfl, rfl⟩)
    · intro l hl x hx
      refine h ⟨.balanceAdjustmentLinks, none, x⟩ ?_
      refine mem_references_purge.mpr ⟨?_, .inl (by simp)⟩
      have hmem : ⟨.balanceAdjustmentLinks, none, x⟩ ∈ sharedReferences .balanceAdjustmentLinks
          Link.targets s.balanceAdjustmentLinks := mem_sharedReferences.mpr ⟨rfl, rfl, l, hl, hx⟩
      simp only [Store.references, List.mem_append, hmem, true_or, or_true]
    · intro r hr _ howner
      exact h r (mem_references_purge.mpr ⟨hr, .inl howner⟩)
  · intro h r hr
    obtain ⟨hr, hkept⟩ := mem_references_purge.mp hr
    by_cases hperiod : r.table = .fiscalPeriods
    · obtain ⟨row, hrow, -, htarget⟩ := exists_period_of_mem_references hr hperiod
      rw [htarget]
      exact h.noPeriods row hrow
    · by_cases hlink : r.table = .balanceAdjustmentLinks
      · obtain ⟨-, l, hl, hnames⟩ := exists_link_of_mem_references hr hlink
        exact h.noLinks l hl _ hnames
      · exact h.noForeign r hr hlink (hkept.resolve_right hperiod)

end

namespace ProfileSvc

/-- A delete that succeeds is complete and local. -/
def DeletesAll (profile_id : ℕ) (s : Store) : Prop :=
  (delete profile_id s).1 = .ok () →
    Complete profile_id s (delete profile_id s).2 ∧ Local profile_id s (delete profile_id s).2

/-- A delete always leaves the rest alone, and it is complete exactly if it is refused or the profile is
detached. -/
theorem deletesAll_iff (profile_id : ℕ) (s : Store) : DeletesAll profile_id s ↔
    (s.profiles.get? profile_id = none ∨ s.profiles.rows.length ≤ 1) ∨ Detached profile_id s := by
  unfold DeletesAll delete
  cases hprofile : s.profiles.get? profile_id with
  | none => simp
  | some profile =>
    by_cases hlast : s.profiles.rows.length ≤ 1
    · simp [hlast]
    · simp [hlast, complete_purge_iff, local_purge]

end ProfileSvc

namespace Sample

/-- The second profile pays its taxes in Spain. -/
def householdWithPeriod : Store :=
  { household with
    fiscalPeriods := Table.empty.insert ⟨1, "spain", ⟨0, by decide⟩, none⟩ }

/-- A spending of the second profile has injected cash. -/
def householdWithLink : Store :=
  { household with
    transactions := (household.transactions.insert
      ⟨some 1, { timestamp := 1, type := .moneyOut, entityId := 0, currency := eur }⟩).insert
      ⟨some 1, { timestamp := 1, type := .balanceAdjustment, entityId := 0, currency := eur }⟩
    balanceAdjustmentLinks := [⟨2, 1⟩] }

/-- The period and the link outlive the second profile. -/
theorem remains_of_deleted :
    ¬ ProfileSvc.DeletesAll 1 householdWithPeriod ∧ ¬ ProfileSvc.DeletesAll 1 householdWithLink := by
  constructor
  · intro h
    exact (h (by decide +kernel)).1 ⟨.fiscalPeriods, some 1, .profile 1⟩ (by decide +kernel) rfl
  · intro h
    refine (h (by decide +kernel)).1 ⟨.balanceAdjustmentLinks, none, .transaction 2⟩
      (by decide +kernel) ⟨_, rfl, rfl⟩

end Sample

end FinHub
