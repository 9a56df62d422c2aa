import FinHub.Reconcile.Recording

/-!
# FinHub.Reconcile.FeeChanges

Fee and tax changes over reconciled snapshots. A fee row drains one pocket: the main currency of its
entity, or its own currency when there is none. The pass after the change refreshes the pocket of
the parent and, when the parent is in another currency, the main pocket.

* `FeePassPlaces`: the places the pass refreshes.
* `FeeChangeInPlace`: the written row drains only what these places reach.
* `feeChange_reconciled`: then every snapshot of every pair is settled again.
-/

namespace FinHub

open Tabular

variable {s s' s₀ : Ledger} {A : ℕ × BalanceSnapshot → Prop}

/-! ## The injection of the pass -/

/-- The pass leaves the main pocket alone, or the pocket has no snapshot and the injection found
there carries no fee. -/
def FeeInjectionInPlace (s : Ledger) (tx : Transaction) (main : Currency) : Prop :=
  s.anchoredAt tx.entityId main tx.timestamp = true ∨
  (s.getInjectedAdjustmentAt tx.entityId main (Time.injectionTs tx.timestamp) = none ∧
    ∀ balance, s.getBalanceAtDate tx.entityId main tx.timestamp = some balance → 0 ≤ balance) ∨
  (s.pairSnapshots tx.entityId main = [] ∧
    ∀ r, s.getInjectedAdjustmentAt tx.entityId main (Time.injectionTs tx.timestamp) = some r →
      InjectionPlace s tx.entityId main (Time.injectionTs tx.timestamp) r.1)

theorem not_counts_of_no_snapshots {entity_id : ℕ} {currency : Currency} {u : Timestamp}
    (h : s.pairSnapshots entity_id currency = []) {r : ℕ × BalanceSnapshot}
    (hr : r ∈ s.snapshots.rows) : ¬ Counts s entity_id currency u r := by
  rintro ⟨he, hc, -⟩
  have hmem := mem_pairSnapshots.mpr ⟨hr, he, hc⟩
  rw [h] at hmem; cases hmem

/-- Links are no part of a balance. -/
theorem SettledBut.linkAll (h : SettledBut A s) (a : ℕ) (spends : List (ℕ × Transaction)) :
    PassFrame s (spends.foldl (fun s sp => s.linkAdjustmentToTransaction a sp.1) s) ∧
      SettledBut A (spends.foldl (fun s sp => s.linkAdjustmentToTransaction a sp.1) s) := by
  induction spends generalizing s with
  | nil => exact ⟨.refl s, h⟩
  | cons sp spends ih =>
    have hf : PassFrame s (s.linkAdjustmentToTransaction a sp.1) := by
      refine .of_same_rows (.link s _ _) ?_ ?_ (s.linkAdjustmentToTransaction_transactions _ _)
      all_goals unfold Ledger.linkAdjustmentToTransaction; split_ifs <;> rfl
    obtain ⟨hf', hset⟩ := ih (h.of_same_rows hf.charges hf.snapshots
      (s.linkAdjustmentToTransaction_transactions _ _))
    exact ⟨hf.trans hf', hset⟩

theorem SettledBut.reconcileFeeInjection (h : SettledBut A s) {tx : Transaction} {main : Currency}
    (hplace : FeeInjectionInPlace s tx main) (hok : s.reconcileFeeInjection tx main = .ok s') :
    PassFrame s s' ∧ SettledBut A s' := by
  unfold Ledger.reconcileFeeInjection at hok
  split_ifs at hok with hanch
  · cases hok; exact ⟨.refl s, h⟩
  rw [Runs.bind_eq_ok] at hok
  obtain ⟨balance, hb, hok⟩ := hok
  rw [Ledger.orTypeError_eq_ok] at hb
  rcases hplace with hanch' | ⟨hnone, hpos⟩ | ⟨hempty, hfound⟩
  · exact absurd hanch' hanch
  · simp only [hnone, if_pos (hpos balance hb)] at hok
    cases hok; exact ⟨.refl s, h⟩
  -- Nothing counts what is written in a pocket without snapshots.
  have hdrop : ∀ {s₁ : Ledger}, s₁.snapshots = s.snapshots →
      SettledBut (fun r => A r ∨ Counts s tx.entityId main (Time.injectionTs tx.timestamp) r) s₁ →
        SettledBut A s₁ := fun hs hset => hset.mono fun r hr hcase =>
    hcase.resolve_right (not_counts_of_no_snapshots hempty (hs ▸ hr))
  cases hr : s.getInjectedAdjustmentAt tx.entityId main (Time.injectionTs tx.timestamp) with
  | some r =>
    have hm := (Ledger.getInjectedAdjustmentAt_eq_some hr).1
    obtain ⟨hi, he, hc, hp, hu, hch⟩ := hfound r hr r.2 hm
    simp only [hr] at hok
    split_ifs at hok
    · cases hok
      have hdc : Ledger.SameCharges s (s.deleteTransaction r.1) := by
        refine .remove fun x _ hx hch' => hch ?_
        rw [show x.1 = r.1 by simpa using hx] at hch'
        exact hch'
      refine ⟨.delete hm (.of_isInjection hi) hdc, hdrop rfl ((h.delete hm hdc).mono ?_)⟩
      rintro x - (ha | hcount)
      · exact .inl ha
      · rw [he, hu, cashPocket_of_none hp, hc] at hcount
        exact .inr hcount
    · cases hok
      obtain ⟨hf, hset⟩ := h.setInjection hm (hfound r hr) (-balance)
      exact ⟨hf, hdrop hf.snapshots hset⟩
  | none =>
    simp only [hr] at hok
    split_ifs at hok
    · cases hok; exact ⟨.refl s, h⟩
    · cases hok
      have hset : SettledBut A (s.createAdjustmentTransaction tx.entityId main (-balance)
          (Time.injectionTs tx.timestamp) none Ledger.injectionNotes) := hdrop rfl (h.insert _)
      obtain ⟨hf, hset'⟩ := hset.linkAll s.transactions.next _
      exact ⟨(PassFrame.insert s fun _ => rfl).trans hf, hset'⟩

/-! ## The pass -/

/-- The places where the pass of a parent refreshes the next snapshot. -/
def FeePassPlaces (s : Ledger) (parent : ℕ) (entity_id : ℕ) (currency : Currency) (t : Timestamp) :
    Prop :=
  ∃ tx, s.getTransaction parent = some tx ∧ tx.type ≠ .balanceAdjustment ∧ entity_id = tx.entityId ∧
    t = tx.timestamp ∧ (currency = tx.cashPocket ∨
      ((s.getEntity tx.entityId).bind Entity.mainCurrency = some currency ∧ currency ≠ tx.currency))

/-- What a change of a fee or tax row has to keep to: a new fee has an amount, the rates of the
entities it charges are steady, it drains only what the pass reaches, and the pass finds the
adjustments of the next snapshots in place. -/
structure FeeChangeInPlace (s s₀ : Ledger) (old new : Option Ledger.ChargeRow) (parent : ℕ) :
    Prop where
  amount : ∀ row ∈ new, ∀ t, s.getTransaction row.1 = some t → (∃ f, row = Ledger.feeRow f) →
    (row.2 t).isSome
  rates : ∀ row, row ∈ old ∨ row ∈ new → ∀ t, s.getTransaction row.1 = some t →
    s.SteadyRates t.entityId ∧ s₀.SteadyRates t.entityId
  drained : ∀ row, row ∈ old ∨ row ∈ new → ∀ e c u, s.Drains row e c u →
    FeeReached s (FeePassPlaces s parent) e c u
  own : ∀ e c t, FeePassPlaces s parent e c t → ∀ n, s.getNextSnapshot e c t = some n →
    OwnAdjustment s n
  plain : ∀ row ∈ new, ∀ t, s.getTransaction row.1 = some t → NotOwn t
  injection : ∀ tx main s₁ s₂, s.getTransaction parent = some tx → tx.type ≠ .balanceAdjustment →
    s₀.recalculateAdjustments tx.entityId tx.cashPocket tx.timestamp = .ok s₁ →
    (s.getEntity tx.entityId).bind Entity.mainCurrency = some main → main ≠ tx.currency →
    s₁.recalculateAdjustments tx.entityId main tx.timestamp = .ok s₂ →
    FeeInjectionInPlace s₂ tx main

theorem KeepsOwn.of_chargeWrite {old new : Option Ledger.ChargeRow}
    (hw : Ledger.ChargeWrite s s₀ old new)
    (hplain : ∀ row ∈ new, ∀ t, s.getTransaction row.1 = some t → NotOwn t) : KeepsOwn s s₀ := by
  refine .of_own hw.snapshots hw.timezone ?_ fun id x => by rw [Own, Own, hw.transactions]
  rintro id ⟨k, x⟩ hx hch
  have hnew : ∀ row ∈ new, row.1 ≠ k := by
    rintro row hrow rfl
    exact (hplain row hrow x (Ledger.getTransaction_of_mem hx.1)).not_own hx
  rcases hw.rows with ⟨f, g, hf, ht, -, rfl⟩ | ⟨y, z, hy, hf, -, rfl⟩
  · rcases hch with ⟨a, ha, hk⟩ | ⟨a, ha, hk⟩
    · rcases hf.mem ha with ha | ha
      · exact .inl ⟨a, ha, hk⟩
      · exact absurd hk (hnew _ (Option.mem_map_of_mem Ledger.feeRow ha))
    · exact .inr ⟨a, ht ▸ ha, hk⟩
  · rcases hch with ⟨a, ha, hk⟩ | ⟨a, ha, hk⟩
    · exact .inl ⟨a, hf ▸ ha, hk⟩
    · rcases hy.mem ha with ha | ha
      · exact .inr ⟨a, ha, hk⟩
      · exact absurd hk (hnew _ (Option.mem_map_of_mem Ledger.taxRow ha))

theorem reconcileAfterFeeChange_settled (h : Reconciled s) {old new : Option Ledger.ChargeRow}
    {parent : ℕ} (hw : Ledger.ChargeWrite s s₀ old new) (hc : FeeChangeInPlace s s₀ old new parent)
    (hok : s₀.reconcileAfterFeeChange parent = .ok s') : KeepsOwn s s' ∧ Reconciled s' := by
  have hk := KeepsOwn.of_chargeWrite hw hc.plain
  -- The change unsettles only snapshots after the places of the pass.
  have hset : SettledBut (fun r => ∃ e c t, FeePassPlaces s parent e c t ∧ Group s e c t r) s₀ := by
    refine ((h.settledBut fun _ => False).chargesMoved (hw.moved hc.amount hc.rates) hw.snapshots
      hw.transactions).mono ?_
    rintro r hr (hfalse | ⟨u, ⟨row, hrow, hdrain⟩, hcount⟩)
    · exact hfalse.elim
    · rw [hw.snapshots] at hr
      obtain ⟨t, hplace, hgroup⟩ := (hc.drained row hrow _ _ _ hdrain).group hr hcount
      exact ⟨_, _, t, hplace, hgroup⟩
  rcases Ledger.reconcileAfterFeeChange_cases hok with ⟨rfl, hadj⟩ | ⟨tx, s₁, hg, htype, h1, hrest⟩
  · refine ⟨hk, hset.reconciled fun r _ hbad => ?_⟩
    obtain ⟨_, _, _, ⟨tx, hg, htype, -⟩, -⟩ := hbad
    exact htype (hadj tx (by rw [hw.getTransaction]; exact hg))
  rw [hw.getTransaction] at hg
  have hplace : ∀ c, (c = tx.cashPocket ∨ ((s.getEntity tx.entityId).bind Entity.mainCurrency = some c ∧
      c ≠ tx.currency)) → FeePassPlaces s parent tx.entityId c tx.timestamp := fun c hcur =>
    ⟨tx, hg, htype, rfl, rfl, hcur⟩
  have hown : ∀ {s₂ : Ledger}, KeepsOwn s s₂ → ∀ c, FeePassPlaces s parent tx.entityId c tx.timestamp →
      ∀ n, s₂.getNextSnapshot tx.entityId c tx.timestamp = some n → OwnAdjustment s₂ n := by
    intro s₂ hk₂ c hp n hn
    rw [Ledger.getNextSnapshot_congr (pairSnapshots_congr hk₂.snapshots _ _)] at hn
    exact hk₂.own n (getNextSnapshot_mem hn).1 (hc.own _ _ _ hp n hn)
  obtain ⟨hf₁, hset₁⟩ := hset.recalculateAdjustments (h.tiesAgree.congr hk.snapshots) h1
    (hown hk _ (hplace _ (.inl rfl)))
  have hk₁ := hk.trans hf₁.toKeepsOwn
  have hent : s₁.getEntity tx.entityId = s.getEntity tx.entityId := by
    rw [Ledger.getEntity, Ledger.getEntity, hf₁.charges.entities, hw.entities]
  rw [hent] at hrest
  have hgroup₁ : ∀ {e c t r}, Group s e c t r → Group s₀ e c t r := fun hg =>
    (Group.congr hk.snapshots).mpr hg
  -- Without a second refresh, the place of the parent is the only one.
  have hsingle : ((s.getEntity tx.entityId).bind Entity.mainCurrency = none ∨
      (s.getEntity tx.entityId).bind Entity.mainCurrency = some tx.currency) → Reconciled s₁ := by
    intro hmain
    refine hset₁.reconciled fun r _ hbad => ?_
    obtain ⟨⟨e, c, t, ⟨tx', hg', -, rfl, rfl, hcur⟩, hgroup⟩, hnot⟩ := hbad
    rw [hg] at hg'
    obtain rfl := Option.some_inj.mp hg'
    rcases hcur with rfl | ⟨hm, hne⟩
    · exact hnot (hgroup₁ hgroup)
    · rcases hmain with hmain | hmain <;> rw [hmain] at hm
      · cases hm
      · exact hne (Option.some_inj.mp hm).symm
  rcases hrest with ⟨hmain, rfl⟩ | ⟨hmain, rfl⟩ | ⟨main, s₂, hmain, hne, h2, h3⟩
  · exact ⟨hk₁, hsingle (.inl hmain)⟩
  · exact ⟨hk₁, hsingle (.inr hmain)⟩
  obtain ⟨hf₂, hset₂⟩ := hset₁.recalculateAdjustments (h.tiesAgree.congr hk₁.snapshots) h2
    (hown hk₁ _ (hplace _ (.inr ⟨hmain, hne⟩)))
  obtain ⟨hf₃, hset₃⟩ := hset₂.reconcileFeeInjection
    (hc.injection tx main s₁ s₂ hg htype h1 hmain hne h2) h3
  refine ⟨(hk₁.trans hf₂.toKeepsOwn).trans hf₃.toKeepsOwn, hset₃.reconciled fun r _ hbad => ?_⟩
  obtain ⟨⟨⟨e, c, t, ⟨tx', hg', -, rfl, rfl, hcur⟩, hgroup⟩, hnot⟩, hnot'⟩ := hbad
  rw [hg] at hg'
  obtain rfl := Option.some_inj.mp hg'
  rcases hcur with rfl | ⟨hm, -⟩
  · exact hnot (hgroup₁ hgroup)
  · rw [hmain] at hm
    rw [← Option.some_inj.mp hm] at hgroup
    exact hnot' ((Group.congr hk₁.snapshots).mpr hgroup)

/-! ## The calls -/

namespace Ledger

/-- Where a fee or tax call keeps to what its pass reaches. -/
def FeeInPlace (s : Ledger) : LedgerCall → Prop
  | .createFee body => ∀ hlt, FeeChangeInPlace s (s.insertFee body hlt) none (some (feeRow body))
      body.transactionId
  | .updateFee fee_id body => ∀ existing hlt, s.getFee fee_id = some existing →
      FeeChangeInPlace s (s.modifyFee fee_id body hlt) (some (feeRow existing)) (some (feeRow body))
        body.transactionId
  | .deleteFee fee_id => ∀ existing, s.getFee fee_id = some existing →
      FeeChangeInPlace s (s.eraseFee fee_id) (some (feeRow existing)) none existing.transactionId
  | .createTax body => ∀ hlt, FeeChangeInPlace s (s.insertTax body hlt) none (some (taxRow body))
      body.transactionId
  | .updateTax tax_id body => ∀ existing hlt, s.getTax tax_id = some existing →
      FeeChangeInPlace s (s.modifyTax tax_id body hlt) (some (taxRow existing)) (some (taxRow body))
        body.transactionId
  | .deleteTax tax_id => ∀ existing, s.getTax tax_id = some existing →
      FeeChangeInPlace s (s.eraseTax tax_id) (some (taxRow existing)) none existing.transactionId
  | _ => False

end Ledger

theorem feeChange_settled (h : Reconciled s) {c : LedgerCall} (hc : s.FeeInPlace c)
    (hok : s.call c = .ok s') : KeepsOwn s s' ∧ Reconciled s' := by
  cases c with
  | createFee body =>
    obtain ⟨⟨fee_id, s''⟩, hcall, rfl⟩ := Runs.map_eq_ok.mp hok
    obtain ⟨hlt, -, hpass⟩ := Ledger.createFee_cases hcall
    have hw : Ledger.ChargeWrite s (s.insertFee body hlt) none (some (Ledger.feeRow body)) :=
      ⟨rfl, rfl, rfl, rfl, rfl, .inl ⟨none, some body, .insert body, rfl, rfl, rfl⟩⟩
    exact reconcileAfterFeeChange_settled h hw (hc hlt) hpass
  | updateFee fee_id body =>
    obtain ⟨existing, hlt, hg, hpass⟩ := Ledger.updateFee_cases hok
    have hw : Ledger.ChargeWrite s (s.modifyFee fee_id body hlt) (some (Ledger.feeRow existing))
        (some (Ledger.feeRow body)) :=
      ⟨rfl, rfl, rfl, rfl, rfl, .inl ⟨some existing, some body,
        .modify (s.fees.get?_eq_some_iff.mp hg) body, rfl, rfl, rfl⟩⟩
    exact reconcileAfterFeeChange_settled h hw (hc existing hlt hg) hpass
  | deleteFee fee_id =>
    obtain ⟨existing, hg, hpass⟩ := Ledger.deleteFee_cases hok
    have hw : Ledger.ChargeWrite s (s.eraseFee fee_id) (some (Ledger.feeRow existing)) none :=
      ⟨rfl, rfl, rfl, rfl, rfl, .inl ⟨some existing, none,
        .erase (s.fees.get?_eq_some_iff.mp hg), rfl, rfl, rfl⟩⟩
    exact reconcileAfterFeeChange_settled h hw (hc existing hg) hpass
  | createTax body =>
    obtain ⟨⟨tax_id, s''⟩, hcall, rfl⟩ := Runs.map_eq_ok.mp hok
    obtain ⟨hlt, -, hpass⟩ := Ledger.createTax_cases hcall
    have hw : Ledger.ChargeWrite s (s.insertTax body hlt) none (some (Ledger.taxRow body)) :=
      ⟨rfl, rfl, rfl, rfl, rfl, .inr ⟨none, some body, .insert body, rfl, rfl, rfl⟩⟩
    exact reconcileAfterFeeChange_settled h hw (hc hlt) hpass
  | updateTax tax_id body =>
    obtain ⟨existing, hlt, hg, hpass⟩ := Ledger.updateTax_cases hok
    have hw : Ledger.ChargeWrite s (s.modifyTax tax_id body hlt) (some (Ledger.taxRow existing))
        (some (Ledger.taxRow body)) :=
      ⟨rfl, rfl, rfl, rfl, rfl, .inr ⟨some existing, some body,
        .modify (s.taxes.get?_eq_some_iff.mp hg) body, rfl, rfl, rfl⟩⟩
    exact reconcileAfterFeeChange_settled h hw (hc existing hlt hg) hpass
  | deleteTax tax_id =>
    obtain ⟨existing, hg, hpass⟩ := Ledger.deleteTax_cases hok
    have hw : Ledger.ChargeWrite s (s.eraseTax tax_id) (some (Ledger.taxRow existing)) none :=
      ⟨rfl, rfl, rfl, rfl, rfl, .inr ⟨some existing, none,
        .erase (s.taxes.get?_eq_some_iff.mp hg), rfl, rfl, rfl⟩⟩
    exact reconcileAfterFeeChange_settled h hw (hc existing hg) hpass
  | _ => exact hc.elim

/-- Fee and tax changes in place keep every snapshot settled. -/
theorem feeChange_reconciled (h : Reconciled s) {c : LedgerCall} (hc : s.FeeInPlace c)
    (hok : s.call c = .ok s') : Reconciled s' :=
  (feeChange_settled h hc hok).2

namespace Sample

/-- A fee of 5 euros. -/
def euroFee (transaction_id : ℕ) : TransactionFee :=
  { transactionId := transaction_id, nature := .fixed, currency := eur, fixedAmount := 5 }

/-- The user's own adjustment of 50 is the parent of a fee; a snapshot of 80 follows it. -/
def feeOnAdjustment : List LedgerCall :=
  [ownAdjustmentEntry,
   .createSnapshot { entityId := 0, currency := eur, amount := 80, timestamp := at_ 10 12 }]

/-- The pass returns at an adjustment, and the fee leaves the snapshot 5 off. -/
theorem feeOnAdjustment_unsettles : Reconciled (after feeOnAdjustment) ∧
    (after feeOnAdjustment).call (.createFee (euroFee 0)) =
      .ok (after (feeOnAdjustment ++ [.createFee (euroFee 0)])) ∧
    ¬ Reconciled (after (feeOnAdjustment ++ [.createFee (euroFee 0)])) :=
  ⟨by decide +kernel, call_after (by decide +kernel), by decide +kernel⟩

/-- What the sample income is, for the conditions of a fee on it. -/
theorem euroCalls_parent {t : Transaction} (ht : (after euroCalls).getTransaction 0 = some t) :
    t.entityId = 0 ∧ t.cashPocket = eur ∧ t.timestamp = at_ 1 9 ∧ t.type = .income := by
  have hall : ((after euroCalls).getTransaction 0).all (fun t => decide (t.entityId = 0 ∧
      t.cashPocket = eur ∧ t.timestamp = at_ 1 9 ∧ t.type = .income)) = true := by decide +kernel
  rw [ht] at hall
  simpa using hall

theorem euroCalls_noMain (e : ℕ) (c : Currency) (he : e = 0) :
    ((after euroCalls).getEntity e).bind Entity.mainCurrency ≠ some c := by
  subst he
  rw [show ((after euroCalls).getEntity 0).bind Entity.mainCurrency = none by decide +kernel]
  exact fun h => by cases h

/-- A fee on the income is taken up by the adjustment of the snapshot. -/
theorem euroFee_reconciled : (after (euroCalls ++ [.createFee (euroFee 0)])).getBalanceAtDate 0 eur
      (at_ 10 12) = some 80 ∧ Reconciled (after (euroCalls ++ [.createFee (euroFee 0)])) := by
  refine ⟨by decide +kernel, feeChange_reconciled (s := after euroCalls)
    (c := .createFee (euroFee 0)) (by decide +kernel) (fun hlt => ⟨?_, ?_, ?_, ?_, ?_, ?_⟩)
    (call_after (by decide +kernel))⟩
  · intro row hrow t _ _
    obtain rfl := Option.some_inj.mp hrow
    rfl
  · intro row hrow t ht
    obtain rfl := Option.some_inj.mp (hrow.resolve_left fun h => by cases h)
    rw [(euroCalls_parent ht).1]
    revert hlt
    decide +kernel
  · rintro row hrow e c u ⟨t, ch, entity, ht, rfl, rfl, hch, hent, hc⟩
    obtain rfl := Option.some_inj.mp (hrow.resolve_left fun h => by cases h)
    obtain ⟨he, hp, hts, htype⟩ := euroCalls_parent ht
    have hpocket : c = eur := by
      have hmain := euroCalls_noMain t.entityId
      cases hm : entity.mainCurrency with
      | some main => exact absurd (by rw [hent]; exact hm) (hmain main he)
      | none =>
        rw [← hc, hm]
        obtain rfl : (⟨eur, 5, t.timestamp⟩ : Ledger.Charge) = ch := Option.some_inj.mp hch
        rfl
    rw [he, hts, hpocket]
    refine ⟨by decide +kernel, .inr ⟨at_ 1 9, ⟨t, ht, ?_, he.symm, hts.symm, .inl hp.symm⟩, rfl⟩⟩
    rw [htype]; exact fun h => TransactionType.noConfusion h
  · rintro e c u ⟨t, ht, -, rfl, rfl, rfl | ⟨hm, -⟩⟩ n hn
    · obtain ⟨he, hp, hts, -⟩ := euroCalls_parent ht
      rw [he, hp, hts] at hn
      revert n
      decide +kernel
    · exact absurd hm (euroCalls_noMain _ _ (euroCalls_parent ht).1)
  · intro row hrow t ht hadj
    obtain rfl := Option.some_inj.mp hrow
    rw [(euroCalls_parent ht).2.2.2] at hadj
    cases hadj
  · intro t main s₁ s₂ ht _ _ hm
    exact absurd hm (euroCalls_noMain _ _ (euroCalls_parent ht).1)

end Sample

end FinHub
