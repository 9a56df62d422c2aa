import FinHub.Model.LedgerSvc
import FinHub.Recording.Passes

/-!
# FinHub.Recording.CashPolicy

The cash-handling policy that `transaction_svc` reports for a stored spend, and the one that its check applies.

Both let a stored policy win. Without one, the report looks for an anchor in the currency of the row and the
check in the pocket that the row is paid from.

* `WritesInjection`: the check of a row raises the injection of its day or opens it.
* `policyApplied_iff`: the two agree where a policy is stored or both currencies are anchored alike.
-/

namespace FinHub

open Tabular

namespace Ledger

/-- `_resolve_effective_cash_handling`. -/
def resolveEffectiveCashHandling (s : Ledger) (row : Transaction) : Option BalanceMode :=
  if row.type.isSpend then
    match row.cashHandling with
    | some stored => some stored
    | none => if s.anchoredAt row.entityId row.currency row.timestamp then some .debit else some .inject
  else none

/-- `_ensure_cash_for_spend`, run for a stored row, writes an injection. -/
def WritesInjection (s : Ledger) (row : Transaction) (amount : ℚ) (exclude : Option ℕ) : Prop :=
  ∃ needed, 0 < needed ∧ s.ensureCashForSpend row.entityId row.cashPocket row.timestamp amount
    row.cashHandling exclude = .ok (s.inject row.entityId row.cashPocket row.timestamp needed)

variable {s : Ledger} {entity_id : ℕ} {currency : Currency} {row : Transaction} {amount balance : ℚ}
  {exclude : Option ℕ}

/-- A positive injection is seen in the ledger. -/
theorem inject_ne (s : Ledger) (entity_id : ℕ) (currency : Currency) (timestamp : Timestamp) {needed : ℚ}
    (h : 0 < needed) : s.inject entity_id currency timestamp needed ≠ s := by
  intro heq
  rcases inject_cases s entity_id currency timestamp needed with ⟨r, hr, he⟩ | ⟨-, he⟩
  · obtain ⟨hm, -⟩ := getInjectedAdjustmentAt_eq_some hr
    have hraised : (r.1, withAmount (r.2.totalValue.getD 0 + needed) injectionNotes r.2) ∈
        (s.inject entity_id currency timestamp needed).transactions.rows := by
      rw [he]
      exact Table.mem_modify.mpr (.inr ⟨rfl, r.2, hm, rfl⟩)
    rw [heq] at hraised
    have hrow := s.transactions.unique hraised hm
    have htotal : some (r.2.totalValue.getD 0 + needed) = r.2.totalValue :=
      congrArg Transaction.totalValue hrow
    rw [← htotal, Option.getD_some] at htotal
    have hsum := Option.some_inj.mp htotal
    linarith
  · have hnext := congrArg (fun s : Ledger => s.transactions.next) (he.symm.trans heq)
    exact absurd hnext (Nat.succ_ne_self _)

theorem ensureCashForSpend_of_none {timestamp : Timestamp} {mode : Option BalanceMode}
    (h : s.cashNeeded entity_id currency timestamp amount mode exclude = .ok none) :
    s.ensureCashForSpend entity_id currency timestamp amount mode exclude = .ok s := by
  unfold ensureCashForSpend
  rw [h]
  rfl

theorem ensureCashForSpend_of_some {timestamp : Timestamp} {mode : Option BalanceMode} {needed : ℚ}
    (h : s.cashNeeded entity_id currency timestamp amount mode exclude = .ok (some needed)) :
    s.ensureCashForSpend entity_id currency timestamp amount mode exclude =
      .ok (s.inject entity_id currency timestamp needed) := by
  unfold ensureCashForSpend
  rw [h]
  rfl

/-- A spend that exceeds the balance is topped up unless it is to be debited: by its policy, or by default
where its pocket is anchored. -/
theorem writesInjection_iff (hbalance : s.getBalanceAtDate row.entityId row.cashPocket row.timestamp
      { transactionId := exclude } = some balance) (hshort : balance < amount) :
    s.WritesInjection row amount exclude ↔ row.cashHandling = some .inject ∨
      row.cashHandling = none ∧ s.anchoredAt row.entityId row.cashPocket row.timestamp = false := by
  constructor
  · intro h
    obtain ⟨needed, hpos, hrun⟩ := h
    cases hneeded : s.cashNeeded row.entityId row.cashPocket row.timestamp amount row.cashHandling exclude with
    | error e =>
      have herror : s.ensureCashForSpend row.entityId row.cashPocket row.timestamp amount row.cashHandling
          exclude = .error e := by
        unfold ensureCashForSpend
        rw [hneeded]
        rfl
      cases herror.symm.trans hrun
    | ok n =>
      cases n with
      | none =>
        rw [ensureCashForSpend_of_none hneeded] at hrun
        exact absurd (Except.ok.inj hrun).symm (inject_ne s _ _ _ hpos)
      | some n =>
        obtain ⟨hdebit, hanchored, -⟩ := cashNeeded_eq_some hneeded
        cases hmode : row.cashHandling with
        | none =>
          refine .inr ⟨rfl, Bool.eq_false_iff.mpr fun ha => ?_⟩
          cases hmode.symm.trans (hanchored ha)
        | some mode =>
          cases mode with
          | inject => exact .inl rfl
          | debit => exact absurd hmode hdebit
  · intro h
    have hdebit : row.cashHandling ≠ some .debit := by
      rcases h with h | ⟨h, -⟩ <;> rw [h] <;> decide
    have hfree : ¬ (s.anchoredAt row.entityId row.cashPocket row.timestamp = true ∧
        row.cashHandling ≠ some .inject) := by
      rintro ⟨ha, hmode⟩
      rcases h with h | ⟨-, h⟩
      · exact hmode h
      · exact absurd (ha.symm.trans h) (by decide)
    have hneeded : s.cashNeeded row.entityId row.cashPocket row.timestamp amount row.cashHandling exclude =
        .ok (some (amount - balance)) := by
      unfold cashNeeded
      rw [if_neg hdebit, if_neg hfree, hbalance]
      exact if_neg (not_le.mpr hshort)
    exact ⟨amount - balance, sub_pos.mpr hshort, ensureCashForSpend_of_some hneeded⟩

/-- What is reported of a spend. -/
theorem resolveEffectiveCashHandling_eq_inject_iff (hspend : row.type.isSpend = true) :
    s.resolveEffectiveCashHandling row = some .inject ↔ row.cashHandling = some .inject ∨
      row.cashHandling = none ∧ s.anchoredAt row.entityId row.currency row.timestamp = false := by
  unfold resolveEffectiveCashHandling
  rw [if_pos hspend]
  cases row.cashHandling with
  | some stored => simp
  | none =>
    cases s.anchoredAt row.entityId row.currency row.timestamp with
    | true => simp
    | false => simp

/-- The policy of a spend is the one applied exactly where it is stored, or where the currency of the row and
the pocket that it is paid from are anchored alike. -/
theorem policyApplied_iff (hspend : row.type.isSpend = true)
    (hbalance : s.getBalanceAtDate row.entityId row.cashPocket row.timestamp
      { transactionId := exclude } = some balance) :
    (∀ amount, balance < amount →
      (s.resolveEffectiveCashHandling row = some .inject ↔ s.WritesInjection row amount exclude)) ↔
    (row.cashHandling.isSome ∨ s.anchoredAt row.entityId row.currency row.timestamp =
      s.anchoredAt row.entityId row.cashPocket row.timestamp) := by
  constructor
  · intro hall
    have hagree := hall (balance + 1) (lt_add_one balance)
    rw [resolveEffectiveCashHandling_eq_inject_iff hspend,
      writesInjection_iff hbalance (lt_add_one balance)] at hagree
    cases hmode : row.cashHandling with
    | some stored => exact .inl rfl
    | none =>
      simp only [hmode, true_and, false_or, reduceCtorEq] at hagree
      exact .inr (Bool.eq_iff_iff.mpr (by simpa using not_congr hagree))
  · intro h amount hshort
    rw [resolveEffectiveCashHandling_eq_inject_iff hspend, writesInjection_iff hbalance hshort]
    rcases h with hstored | hanchor
    · obtain ⟨stored, hstored⟩ := Option.isSome_iff_exists.mp hstored
      simp [hstored]
    · rw [hanchor]

end Ledger

namespace Sample

/-- A dollar purchase that is paid from the euros of the bank. -/
def euroPurchase : TransactionCreate :=
  { timestamp := at_ 10 12, type := .investmentBuy, entityId := 0, currency := usd, totalValue := some 100
    grossAmount := some 90, paymentCurrency := some eur }

def euroPurchaseRow : Transaction := euroPurchase.toRow none none

/-- The purchase with a dollar balance known before it. -/
def anchoredDollars : List LedgerCall :=
  [.createSnapshot { entityId := 0, currency := usd, amount := 500, timestamp := at_ 5 8 },
   .createTransaction euroPurchase]

/-- The purchase is reported as debited, and its euros are injected. -/
theorem euroPurchase_misreported : ¬ ∀ (s : Ledger) (cs : List LedgerCall), profile.calls cs = .ok s →
    ∀ (id : ℕ) (row : Transaction), (id, row) ∈ s.transactions.rows → row.type.isSpend = true →
      ∀ (exclude : Option ℕ) (balance amount : ℚ), s.getBalanceAtDate row.entityId row.cashPocket
        row.timestamp { transactionId := exclude } = some balance → balance < amount →
      (s.resolveEffectiveCashHandling row = some .inject ↔ s.WritesInjection row amount exclude) := by
  intro hall
  have hcalls : profile.calls anchoredDollars = .ok (after anchoredDollars) :=
    calls_eq_after (by decide +kernel)
  obtain ⟨r, hr, hspend, hpolicy, hbalance, hmode, hfree⟩ :
      ∃ r ∈ (after anchoredDollars).transactions.rows, r.2.type.isSpend = true ∧
        (after anchoredDollars).resolveEffectiveCashHandling r.2 = some .debit ∧
        (after anchoredDollars).getBalanceAtDate r.2.entityId r.2.cashPocket r.2.timestamp
          { transactionId := none } = some 0 ∧ r.2.cashHandling = none ∧
        (after anchoredDollars).anchoredAt r.2.entityId r.2.cashPocket r.2.timestamp = false := by
    decide +kernel
  have hwrites := (Ledger.writesInjection_iff hbalance (show (0 : ℚ) < 1 by norm_num)).mpr
    (.inr ⟨hmode, hfree⟩)
  have hinject := (hall _ _ hcalls r.1 r.2 hr hspend none 0 1 hbalance (by norm_num)).mpr hwrites
  cases hpolicy.symm.trans hinject

/-- Without any known balance the purchase is reported as it is checked. -/
theorem euroPurchase_reported : profile.resolveEffectiveCashHandling euroPurchaseRow = some .inject ∧
    profile.WritesInjection euroPurchaseRow 90 none := by
  have hbalance : profile.getBalanceAtDate euroPurchaseRow.entityId euroPurchaseRow.cashPocket
      euroPurchaseRow.timestamp { transactionId := none } = some 0 := by
    decide +kernel
  have hpolicy : profile.resolveEffectiveCashHandling euroPurchaseRow = some .inject := by decide +kernel
  exact ⟨hpolicy, ((Ledger.policyApplied_iff rfl hbalance).mpr (.inr (by decide +kernel)) 90
    (by norm_num)).mp hpolicy⟩

end Sample

end FinHub
