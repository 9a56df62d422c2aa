import FinHub.Recording.References

/-!
# FinHub.Recording.BookRuns

The books of a profile over sequences of calls.

* `Named.edit`: an edit of what rows name, which leaves what they name.
* `BooksNamed.call`: each call keeps every reference of the books good.
* `references_kept`: what holds after every sequence.
-/

namespace FinHub

open Tabular

/-! ## Edits of what rows name -/

/-- An edit after which every reference is to something that is there, and which leaves the assets. -/
structure NamedEdit (s s' : Ledger) : Prop where
  named : Named s'
  portfolioAssets : s'.portfolioAssets = s.portfolioAssets

namespace Named

variable {s s' : Ledger}

theorem getEntity_isSome {s : Ledger} {k : ℕ} :
    (s.getEntity k).isSome = true ↔ ∃ e, (k, e) ∈ s.entities.rows ∧ e.deletedAt = none := by
  unfold Ledger.getEntity
  rw [Option.isSome_iff_exists]
  refine exists_congr fun e => ?_
  rw [Option.filter_eq_some_iff, Table.get?_eq_some_iff, Option.isNone_iff_eq_none]

/-- An edit that leaves the rows, and what they name. -/
theorem edit (h : Named s) (ht : s'.transactions = s.transactions) (hs : s'.snapshots = s.snapshots)
    (hentity : ∀ k, s.entityHasDependents k = true → (s.getEntity k).isSome → (s'.getEntity k).isSome)
    (hasset : ∀ a, s.portfolioAssetHasDependents a = true → (s.getPortfolioAsset a).isSome →
      (s'.getPortfolioAsset a).isSome)
    (hexemption : ∀ e, s.fiscalExemptionHasDependents e = true → (s.getFiscalExemption e).isSome →
      (s'.getFiscalExemption e).isSome) : Named s' where
  entities := rfl
  portfolioAssets := rfl
  fiscalExemptions := rfl
  transactions r hr := by
    rw [ht] at hr
    have hknown := NamedIn.transactions h r hr
    refine ⟨hentity _ ?_ hknown.entity, fun a ha => hasset a ?_ (hknown.asset a ha), fun e he =>
      hexemption e ?_ (hknown.exemption e he)⟩
    · exact Bool.or_eq_true_iff.mpr (.inl (List.any_eq_true.mpr ⟨r, hr, beq_self_eq_true _⟩))
    · exact List.any_eq_true.mpr ⟨r, hr, beq_iff_eq.mpr ha⟩
    · exact List.any_eq_true.mpr ⟨r, hr, beq_iff_eq.mpr he⟩
  snapshots r hr := by
    rw [hs] at hr
    refine hentity _ ?_ (NamedIn.snapshots h r hr)
    exact Bool.or_eq_true_iff.mpr (.inr (List.any_eq_true.mpr ⟨r, hr, beq_self_eq_true _⟩))

theorem setEntities (h : Named s) {entities : Table Entity}
    (hentity : ∀ k, s.entityHasDependents k = true → (∃ e, (k, e) ∈ s.entities.rows ∧ e.deletedAt = none) →
      ∃ e, (k, e) ∈ entities.rows ∧ e.deletedAt = none) : NamedEdit s (s.setEntities entities) where
  named := h.edit rfl rfl (fun k hk hold => getEntity_isSome.mpr (hentity k hk (getEntity_isSome.mp hold)))
    (fun _ _ hold => hold) fun _ _ hold => hold
  portfolioAssets := rfl

theorem setPortfolioAssets (h : Named s) {assets : Table PortfolioAsset}
    (hasset : ∀ a, s.portfolioAssetHasDependents a = true → (∃ row, (a, row) ∈ s.portfolioAssets.rows) →
      ∃ row, (a, row) ∈ assets.rows) : Named (s.setPortfolioAssets assets) :=
  h.edit rfl rfl (fun _ _ hold => hold)
    (fun a ha hold => Table.isSome_get?.mpr (hasset a ha (Table.isSome_get?.mp hold))) fun _ _ hold => hold

theorem setFiscalExemptions (h : Named s) {exemptions : Table FiscalExemption}
    (hexemption : ∀ e, s.fiscalExemptionHasDependents e = true → (∃ row, (e, row) ∈ s.fiscalExemptions.rows) →
      ∃ row, (e, row) ∈ exemptions.rows) : NamedEdit s (s.setFiscalExemptions exemptions) where
  named := h.edit rfl rfl (fun _ _ hold => hold) (fun _ _ hold => hold) fun e he hold =>
    Table.isSome_get?.mpr (hexemption e he (Table.isSome_get?.mp hold))
  portfolioAssets := rfl

/-- A table that is written in one row, or to which one is added, has all the keys it had. -/
theorem insert_keys {α : Type} {t : Table α} (a : α) {k : ℕ} (h : ∃ b, (k, b) ∈ t.rows) :
    ∃ b, (k, b) ∈ (t.insert a).rows := h.imp fun _ hb => Table.mem_insert.mpr (.inl hb)

theorem modify_keys {α : Type} {t : Table α} {j : ℕ} {f : α → α} {k : ℕ} (h : ∃ b, (k, b) ∈ t.rows) :
    ∃ b, (k, b) ∈ (t.modify j f).rows := by
  obtain ⟨b, hb⟩ := h
  by_cases hk : k = j
  · subst hk
    exact ⟨f b, Table.mem_modify.mpr (.inr ⟨rfl, b, hb, rfl⟩)⟩
  · exact ⟨b, Table.mem_modify.mpr (.inl ⟨hk, hb⟩)⟩

theorem erase_keys {α : Type} {t : Table α} {j k : ℕ} (hk : k ≠ j) (h : ∃ b, (k, b) ∈ t.rows) :
    ∃ b, (k, b) ∈ (t.erase j).rows := h.imp fun _ hb => Table.mem_erase.mpr ⟨hb, hk⟩

theorem createEntity (h : Named s) {body : EntityCreate} (hok : s.createEntity body = .ok s') : NamedEdit s s' := by
  unfold Ledger.createEntity at hok
  split_ifs at hok
  rw [← Except.ok.inj hok]
  exact h.setEntities fun k _ hold => hold.imp fun e he => ⟨Table.mem_insert.mpr (.inl he.1), he.2⟩

theorem updateEntity (h : Named s) {entity_id : ℕ} {body : EntityCreate}
    (hok : s.updateEntity entity_id body = .ok s') : NamedEdit s s' := by
  unfold Ledger.updateEntity at hok
  cases hget : s.getEntity entity_id with
  | none =>
    rw [hget] at hok
    cases hok
  | some existing =>
    simp only [hget] at hok
    split_ifs at hok
    rw [← Except.ok.inj hok]
    refine h.setEntities fun k _ ⟨e, he, hlive⟩ => ?_
    by_cases hk : k = entity_id
    · subst hk
      exact ⟨_, Table.mem_modify.mpr (.inr ⟨rfl, e, he, rfl⟩), hlive⟩
    · exact ⟨e, Table.mem_modify.mpr (.inl ⟨hk, he⟩), hlive⟩

/-- An entity that rows name is not deleted. -/
theorem deleteEntity (h : Named s) {entity_id : ℕ} {now : Timestamp} (hok : s.deleteEntity entity_id now = .ok s') :
    NamedEdit s s' := by
  unfold Ledger.deleteEntity at hok
  cases hget : s.getEntity entity_id with
  | none =>
    rw [hget] at hok
    cases hok
  | some existing =>
    simp only [hget] at hok
    split_ifs at hok with hdependents
    rw [← Except.ok.inj hok]
    refine h.setEntities fun k hk ⟨e, he, hlive⟩ => ⟨e, Table.mem_modify.mpr (.inl ⟨?_, he⟩), hlive⟩
    rintro rfl
    exact hdependents hk

theorem updateFiscalExemption (h : Named s) {exemption_id : ℕ} {body : FiscalExemption}
    (hok : s.updateFiscalExemption exemption_id body = .ok s') : NamedEdit s s' := by
  unfold Ledger.updateFiscalExemption at hok
  cases hget : s.getFiscalExemption exemption_id with
  | none =>
    rw [hget] at hok
    cases hok
  | some existing =>
    rw [hget] at hok
    rw [← Except.ok.inj hok]
    exact h.setFiscalExemptions fun e _ => modify_keys

theorem deleteFiscalExemption (h : Named s) {exemption_id : ℕ} (hok : s.deleteFiscalExemption exemption_id = .ok s') :
    NamedEdit s s' := by
  unfold Ledger.deleteFiscalExemption at hok
  cases hget : s.getFiscalExemption exemption_id with
  | none =>
    rw [hget] at hok
    cases hok
  | some existing =>
    simp only [hget] at hok
    split_ifs at hok with hdependents
    rw [← Except.ok.inj hok]
    refine h.setFiscalExemptions fun e he => erase_keys ?_
    rintro rfl
    exact hdependents he

/-- Rates are not looked at. -/
theorem setCurrencies (h : Named s) (rates : List CurrencyRate) : NamedEdit s (s.setCurrencies rates) where
  named := (show NamedIn s (s.setCurrencies rates) from NamedIn.congr h rfl rfl rfl rfl rfl).named
  portfolioAssets := rfl

theorem upserts (h : Named s) (rows : List CurrencyRate) : NamedEdit s (rows.foldl Ledger.upsertRate s) := by
  induction rows generalizing s with
  | nil => exact ⟨h, rfl⟩
  | cons row rows ih =>
    have hrest := ih (s := s.upsertRate row) (h.setCurrencies _).named
    exact ⟨hrest.named, hrest.portfolioAssets⟩

theorem rateCall (h : Named s) {c : RateCall} (hok : s.rateCall c = .ok s') : NamedEdit s s' := by
  cases c with
  | createRate code base_code rate timestamp =>
    simp only [Ledger.rateCall, Ledger.createRate, Ledger.insertRate] at hok
    split_ifs at hok
    cases hok
    exact h.setCurrencies _
  | updateRates code base_code timestamps rates =>
    simp only [Ledger.rateCall, Ledger.updateRates] at hok
    split_ifs at hok
    cases hok
    rw [Ledger.upsertRates_eq_foldl]
    exact h.upserts _
  | syncRates api =>
    simp only [Ledger.rateCall, Ledger.syncRates] at hok
    split_ifs at hok
    · cases hok
      rw [Ledger.sync_eq_foldl]
      exact h.upserts _
    · cases hok
      exact ⟨h, rfl⟩

theorem referenceCall (h : Named s) {c : ReferenceCall} (hok : s.referenceCall c = .ok s') : NamedEdit s s' := by
  cases c with
  | updateEntity entity_id body => exact h.updateEntity hok
  | rates call =>
    simp only [Ledger.referenceCall] at hok
    cases hcall : s.rateCall call with
    | error e =>
      rw [hcall] at hok
      cases hok
    | ok s₁ =>
      rw [hcall] at hok
      cases hok
      exact h.rateCall hcall
  | deletePair code base_code =>
    simp only [Ledger.referenceCall, Ledger.deletePair] at hok
    split at hok
    · cases hok
    · cases hok
      exact h.setCurrencies _

end Named

/-! ## The books -/

/-- Every reference of the rows is to something that is there, and manual values are of assets that were created. -/
structure BooksNamed (b : ProfileBooks) : Prop where
  named : Named b.ledger
  manual : ∀ v ∈ b.manualValues.rows, v.2.portfolioAssetId < b.ledger.portfolioAssets.next

namespace BooksNamed

variable {b b' : ProfileBooks} {m : Market}

theorem onLedger (h : BooksNamed b) {r : Except BookError Ledger} (hr : ∀ s', r = .ok s' → NamedEdit b.ledger s')
    (hok : b.onLedger r = .ok b') : BooksNamed b' := by
  obtain ⟨s', hs', rfl⟩ := Runs.map_eq_ok.mp hok
  obtain ⟨hnamed, hassets⟩ := hr s' hs'
  refine ⟨hnamed, ?_⟩
  change ∀ v ∈ b.manualValues.rows, v.2.portfolioAssetId < s'.portfolioAssets.next
  rw [hassets]
  exact h.manual

theorem mapError_eq_ok {ε : Type} {r : Except ε Ledger} {f : ε → BookError} {s' : Ledger}
    (h : r.mapError f = .ok s') : r = .ok s' := by
  cases r with
  | error e => cases h
  | ok s =>
    rw [← Except.ok.inj h]

theorem setPortfolioAssets (h : BooksNamed b) {assets : Table PortfolioAsset}
    (hnamed : Named (b.ledger.setPortfolioAssets assets)) (hnext : b.ledger.portfolioAssets.next ≤ assets.next) :
    BooksNamed (b.setPortfolioAssets assets) :=
  ⟨hnamed, fun v hv => (h.manual v hv).trans_le hnext⟩

theorem upsertManualValue (h : BooksNamed b) {asset_id : ℕ} (hasset : asset_id < b.ledger.portfolioAssets.next)
    (value : ℚ) (effective_date : ℤ) : BooksNamed (b.upsertManualValue asset_id value effective_date) := by
  refine ⟨h.named, ?_⟩
  unfold ProfileBooks.upsertManualValue
  dsimp only
  split
  · intro v hv
    obtain ⟨j, v⟩ := v
    rcases Table.mem_modify.mp hv with ⟨-, hv⟩ | ⟨rfl, old, hold, rfl⟩
    · exact h.manual _ hv
    · have hasset := h.manual _ hold
      exact hasset
  · intro v hv
    rcases Table.mem_insert.mp hv with hv | rfl
    · exact h.manual v hv
    · exact hasset

theorem syncManualValueLedger (h : BooksNamed b) {asset_id : ℕ} (hasset : asset_id < b.ledger.portfolioAssets.next)
    (body : PortfolioAssetCreate) (today : ℤ) : BooksNamed (b.syncManualValueLedger body asset_id today) := by
  unfold ProfileBooks.syncManualValueLedger
  split_ifs
  · exact h
  · split
    · exact h
    · exact h.upsertManualValue hasset _ _

theorem lt_next {s : Ledger} {asset_id : ℕ} {row : PortfolioAsset} (h : s.getPortfolioAsset asset_id = some row) :
    asset_id < s.portfolioAssets.next := s.portfolioAssets.bounded _ (s.portfolioAssets.get?_eq_some_iff.mp h)

theorem createPortfolioAsset (h : BooksNamed b) {body : PortfolioAssetCreate} {today : ℤ}
    (hok : b.createPortfolioAsset m body today = .ok b') : BooksNamed b' := by
  unfold ProfileBooks.createPortfolioAsset at hok
  split_ifs at hok
  rw [← Except.ok.inj hok]
  have hnamed : Named (b.ledger.setPortfolioAssets (b.ledger.portfolioAssets.insert body.toPortfolioAsset)) :=
    h.named.setPortfolioAssets fun _ _ => Named.insert_keys _
  exact (h.setPortfolioAssets hnamed (Nat.le_succ _)).syncManualValueLedger (Nat.lt_succ_self _) body today

theorem updatePortfolioAsset (h : BooksNamed b) {asset_id : ℕ} {body : PortfolioAssetCreate} {today : ℤ}
    (hok : b.updatePortfolioAsset m asset_id body today = .ok b') : BooksNamed b' := by
  unfold ProfileBooks.updatePortfolioAsset at hok
  cases hget : b.ledger.getPortfolioAsset asset_id with
  | none =>
    rw [hget] at hok
    cases hok
  | some row =>
    simp only [hget] at hok
    split_ifs at hok
    have hlt := lt_next hget
    rw [← Except.ok.inj hok]
    have hnamed : Named (b.ledger.setPortfolioAssets
        (b.ledger.portfolioAssets.modify asset_id fun _ => body.toPortfolioAsset)) :=
      h.named.setPortfolioAssets fun _ _ => Named.modify_keys
    exact (h.setPortfolioAssets hnamed le_rfl).syncManualValueLedger hlt body today

/-- An asset that transactions name is not deleted. -/
theorem deletePortfolioAsset (h : BooksNamed b) {asset_id : ℕ} (hok : b.deletePortfolioAsset asset_id = .ok b') :
    BooksNamed b' := by
  unfold ProfileBooks.deletePortfolioAsset at hok
  cases hget : b.ledger.getPortfolioAsset asset_id with
  | none =>
    rw [hget] at hok
    cases hok
  | some row =>
    simp only [hget] at hok
    split_ifs at hok with hdependents
    rw [← Except.ok.inj hok]
    refine h.setPortfolioAssets (h.named.setPortfolioAssets fun a ha => Named.erase_keys ?_) le_rfl
    rintro rfl
    exact hdependents ha

theorem createManualValue (h : BooksNamed b) {asset_id : ℕ} {value : ℚ} {effective_date : ℤ}
    (hok : b.createManualValue asset_id value effective_date = .ok b') : BooksNamed b' := by
  unfold ProfileBooks.createManualValue at hok
  cases hget : b.ledger.getPortfolioAsset asset_id with
  | none =>
    rw [hget] at hok
    cases hok
  | some row =>
    rw [hget] at hok
    rw [← Except.ok.inj hok]
    exact h.upsertManualValue (lt_next hget) value effective_date

theorem deleteManualValue (h : BooksNamed b) {asset_id value_id : ℕ}
    (hok : b.deleteManualValue asset_id value_id = .ok b') : BooksNamed b' := by
  unfold ProfileBooks.deleteManualValue at hok
  split_ifs at hok
  rw [← Except.ok.inj hok]
  exact ⟨h.named, fun v hv => h.manual v (Table.mem_erase.mp hv).1⟩

theorem call (h : BooksNamed b) {c : BookCall} (hok : b.call m c = .ok b') : BooksNamed b' := by
  cases c with
  | ledger call =>
    refine h.onLedger (fun s' hs' => ?_) hok
    have hnamed := NamedIn.ledgerCall h.named (mapError_eq_ok hs')
    exact ⟨hnamed.named, hnamed.portfolioAssets⟩
  | reference call => exact h.onLedger (fun s' hs' => h.named.referenceCall (mapError_eq_ok hs')) hok
  | createEntity body => exact h.onLedger (fun s' hs' => h.named.createEntity hs') hok
  | deleteEntity entity_id now => exact h.onLedger (fun s' hs' => h.named.deleteEntity hs') hok
  | createPortfolioAsset body today => exact h.createPortfolioAsset hok
  | updatePortfolioAsset asset_id body today => exact h.updatePortfolioAsset hok
  | deletePortfolioAsset asset_id => exact h.deletePortfolioAsset hok
  | createManualValue asset_id value effective_date => exact h.createManualValue hok
  | deleteManualValue asset_id value_id => exact h.deleteManualValue hok
  | createFiscalExemption body =>
    refine h.onLedger (fun s' hs' => ?_) hok
    rw [← Except.ok.inj hs']
    exact h.named.setFiscalExemptions fun _ _ => Named.insert_keys _
  | updateFiscalExemption exemption_id body => exact h.onLedger (fun s' hs' => h.named.updateFiscalExemption hs') hok
  | deleteFiscalExemption exemption_id => exact h.onLedger (fun s' hs' => h.named.deleteFiscalExemption hs') hok

end BooksNamed

/-! ## Sequences of calls -/

section

variable (m : Market)

theorem booksNamed_runs {b : ProfileBooks} (h : BooksNamed b) (calls : List BookCall) : BooksNamed (b.runs m calls) := by
  induction calls generalizing b with
  | nil => exact h
  | cons c calls ih =>
    refine ih ?_
    unfold ProfileBooks.after
    cases hcall : b.call m c with
    | error e => exact h
    | ok b' => exact h.call hcall

/-- The books of a profile, after any sequence of calls. -/
structure ReferenceLaws (b : ProfileBooks) : Prop where
  entity : ∀ r ∈ b.ledger.transactions.rows, (b.ledger.getEntity r.2.entityId).isSome
  asset : ∀ r ∈ b.ledger.transactions.rows, ∀ a ∈ r.2.portfolioAssetId, (b.ledger.getPortfolioAsset a).isSome
  exemption : ∀ r ∈ b.ledger.transactions.rows, ∀ e ∈ r.2.fiscalExemptionId, (b.ledger.getFiscalExemption e).isSome
  snapshot : ∀ r ∈ b.ledger.snapshots.rows, (b.ledger.getEntity r.2.entityId).isSome
  /-- The values that a deleted asset leaves are not those of an asset that is created after it. -/
  manual : ∀ v ∈ b.manualValues.rows, v.2.portfolioAssetId < b.ledger.portfolioAssets.next

/-- From an empty profile no sequence of calls reaches books with a reference to something that is not there. -/
theorem references_kept (tz : TimeZone) (calls : List BookCall) :
    ReferenceLaws ((ProfileBooks.empty tz).runs m calls) := by
  have hempty : BooksNamed (.empty tz) := by
    refine ⟨⟨rfl, rfl, rfl, ?_, ?_⟩, ?_⟩ <;> intro r hr <;> exact absurd hr List.not_mem_nil
  have hbooks := booksNamed_runs m hempty calls
  exact ⟨fun r hr => (NamedIn.transactions hbooks.named r hr).entity,
    fun r hr => (NamedIn.transactions hbooks.named r hr).asset,
    fun r hr => (NamedIn.transactions hbooks.named r hr).exemption, NamedIn.snapshots hbooks.named, hbooks.manual⟩

end

end FinHub
