import FinHub.Lib.Runs
import FinHub.Model.TransactionSvc

/-!
# FinHub.Model.LedgerSvc

The other services that write the cash ledger: `transaction_fee_svc`, `transaction_tax_svc` and
`balance_snapshot_svc`. `LedgerCall` is the interface of the ledger as a whole and `Ledger.call` its
transition function: one call of one service, or the error it raises.
-/

namespace FinHub

open Tabular

structure BalanceSnapshotCreate where
  entityId : ℕ
  currency : Currency
  amount : ℚ
  timestamp : Timestamp
  notes : Option String := none
  deriving DecidableEq

namespace Ledger

/-! ## Fees -/

def createFee (s : Ledger) (body : TransactionFee) : Except SvcError (ℕ × Ledger) :=
  match h : s.getTransaction body.transactionId with
  | none => .error (.transactionNotFound body.transactionId)
  | some _ => do
    let s₁ := s.insertFee body (s.getTransaction_lt h)
    let s₂ ← s₁.reconcileAfterFeeChange body.transactionId
    .ok (s.fees.next, s₂)

def updateFee (s : Ledger) (fee_id : ℕ) (body : TransactionFee) : Except SvcError Ledger :=
  match s.getFee fee_id with
  | none => .error (.feeNotFound fee_id)
  | some _ =>
    match h : s.getTransaction body.transactionId with
    | none => .error (.transactionNotFound body.transactionId)
    | some _ =>
      (s.modifyFee fee_id body (s.getTransaction_lt h)).reconcileAfterFeeChange body.transactionId

def deleteFee (s : Ledger) (fee_id : ℕ) : Except SvcError Ledger :=
  match s.getFee fee_id with
  | none => .error (.feeNotFound fee_id)
  | some existing => (s.eraseFee fee_id).reconcileAfterFeeChange existing.transactionId

/-! ## Taxes -/

def createTax (s : Ledger) (body : TransactionTax) : Except SvcError (ℕ × Ledger) :=
  match h : s.getTransaction body.transactionId with
  | none => .error (.transactionNotFound body.transactionId)
  | some _ => do
    let s₁ := s.insertTax body (s.getTransaction_lt h)
    let s₂ ← s₁.reconcileAfterFeeChange body.transactionId
    .ok (s.taxes.next, s₂)

def updateTax (s : Ledger) (tax_id : ℕ) (body : TransactionTax) : Except SvcError Ledger :=
  match s.getTax tax_id with
  | none => .error (.taxNotFound tax_id)
  | some _ =>
    match h : s.getTransaction body.transactionId with
    | none => .error (.transactionNotFound body.transactionId)
    | some _ =>
      (s.modifyTax tax_id body (s.getTransaction_lt h)).reconcileAfterFeeChange body.transactionId

def deleteTax (s : Ledger) (tax_id : ℕ) : Except SvcError Ledger :=
  match s.getTax tax_id with
  | none => .error (.taxNotFound tax_id)
  | some existing => (s.eraseTax tax_id).reconcileAfterFeeChange existing.transactionId

/-! ## Balance snapshots -/

def resolveSnapshotFk (s : Ledger) (body : BalanceSnapshotCreate) : Except SvcError Unit := do
  unless (s.getEntity body.entityId).isSome do throw (.entityNotFound body.entityId)
  unless s.codeExists body.currency do throw (.currencyNotFound body.currency)

def snapshotRow (body : BalanceSnapshotCreate) : BalanceSnapshot where
  entityId := body.entityId
  currency := body.currency
  amount := body.amount
  timestamp := body.timestamp
  notes := body.notes

/-- `_create_or_update_adjustment`: aim the adjustment of a snapshot at `target_amount`. -/
def createOrUpdateAdjustment (s : Ledger) (entity_id : ℕ) (currency : Currency) (snapshot_id : ℕ)
    (timestamp : Timestamp) (target_amount : ℚ) : Except SvcError Ledger := do
  let balance_expected ← orTypeError <| s.getBalanceAtDate entity_id currency timestamp
    { adjustmentSnapshotId := some snapshot_id }
  .ok (s.setSnapshotAdjustment entity_id currency snapshot_id timestamp
    (target_amount - balance_expected))

def deleteAdjustmentTransaction (s : Ledger) (entity_id : ℕ) (currency : Currency)
    (snapshot_id : ℕ) : Ledger :=
  s.removeTransactions fun r => decide (r.2.entityId = entity_id) && decide (r.2.currency = currency)
    && r.2.isAdjustment && decide (r.2.balanceSnapshotId = some snapshot_id)

def createSnapshot (s : Ledger) (body : BalanceSnapshotCreate) : Except SvcError (ℕ × Ledger) := do
  s.resolveSnapshotFk body
  if s.hasTransactionsOnOrAfter body.entityId body.currency body.timestamp then
    throw (.snapshotConflict body.timestamp body.entityId body.currency)
  let snapshot_id := s.snapshots.next
  let s₁ := s.setSnapshots (s.snapshots.insert (snapshotRow body))
  let s₂ ← s₁.createOrUpdateAdjustment body.entityId body.currency snapshot_id body.timestamp
    body.amount
  .ok (snapshot_id, s₂)

/-- The adjustment is measured before the snapshot row is rewritten. -/
def updateSnapshot (s : Ledger) (snapshot_id : ℕ) (body : BalanceSnapshotCreate) :
    Except SvcError Ledger :=
  match s.getBalanceSnapshot snapshot_id with
  | none => .error (.snapshotNotFound snapshot_id)
  | some existing => do
    s.resolveSnapshotFk body
    let s₁ ←
      if existing.timestamp ≠ body.timestamp ∨ existing.amount ≠ body.amount then
        (s.deleteAdjustmentTransaction existing.entityId existing.currency snapshot_id).createOrUpdateAdjustment
          body.entityId body.currency snapshot_id body.timestamp body.amount
      else .ok s
    .ok (s₁.setSnapshots (s₁.snapshots.modify snapshot_id fun _ => snapshotRow body))

def deleteSnapshot (s : Ledger) (snapshot_id : ℕ) : Except SvcError Ledger :=
  match s.getBalanceSnapshot snapshot_id with
  | none => .error (.snapshotNotFound snapshot_id)
  | some existing =>
    let s₁ := s.deleteAdjustmentTransaction existing.entityId existing.currency snapshot_id
    .ok (s₁.setSnapshots (s₁.snapshots.erase snapshot_id))

end Ledger

/-! ## The ledger as a transition system -/

/-- A call of one of the ledger services. -/
inductive LedgerCall where
  | createTransaction (body : TransactionCreate)
  | updateTransaction (tx_id : ℕ) (body : TransactionCreate)
  | deleteTransaction (tx_id : ℕ)
  | createFee (body : TransactionFee)
  | updateFee (fee_id : ℕ) (body : TransactionFee)
  | deleteFee (fee_id : ℕ)
  | createTax (body : TransactionTax)
  | updateTax (tax_id : ℕ) (body : TransactionTax)
  | deleteTax (tax_id : ℕ)
  | createSnapshot (body : BalanceSnapshotCreate)
  | updateSnapshot (snapshot_id : ℕ) (body : BalanceSnapshotCreate)
  | deleteSnapshot (snapshot_id : ℕ)

namespace Ledger

def call (s : Ledger) : LedgerCall → Except SvcError Ledger
  | .createTransaction body => (s.createTransaction body).map Prod.snd
  | .updateTransaction tx_id body => (s.updateTransaction tx_id body).map Prod.snd
  | .deleteTransaction tx_id => s.deleteTransactionSvc tx_id
  | .createFee body => (s.createFee body).map Prod.snd
  | .updateFee fee_id body => s.updateFee fee_id body
  | .deleteFee fee_id => s.deleteFee fee_id
  | .createTax body => (s.createTax body).map Prod.snd
  | .updateTax tax_id body => s.updateTax tax_id body
  | .deleteTax tax_id => s.deleteTax tax_id
  | .createSnapshot body => (s.createSnapshot body).map Prod.snd
  | .updateSnapshot snapshot_id body => s.updateSnapshot snapshot_id body
  | .deleteSnapshot snapshot_id => s.deleteSnapshot snapshot_id

/-- A list of calls, one after another; the first error ends it. -/
def calls (s : Ledger) (cs : List LedgerCall) : Except SvcError Ledger := cs.foldlM call s

end Ledger

/-! ## A sample profile -/

namespace Sample

/-- Clock times of numbered days. -/
def at_ (day hour : ℤ) : Timestamp := Time.startOfDay day + hour * 3600 * Time.ticksPerSecond

/-- A bank without a main currency (0), one that settles fees in dollars (1), no rows yet. -/
def profile : Ledger where
  __ := Ledger.empty .utc
  entities := (Table.empty.insert { name := "Bank" }).insert { name := "Broker", mainCurrency := some usd }
  currencies := [⟨usd, usd, 1, ⟨0, none⟩⟩, ⟨eur, eur, 1, ⟨0, none⟩⟩]

/-- The state after some calls on the sample profile, or the profile itself when one of them
raises. -/
def after (cs : List LedgerCall) : Ledger :=
  match profile.calls cs with
  | .ok s => s
  | .error _ => profile

/-- Whether none of the calls raises. -/
def succeeds (cs : List LedgerCall) : Bool :=
  match profile.calls cs with
  | .ok _ => true
  | .error _ => false

theorem calls_eq_after {cs : List LedgerCall} (h : succeeds cs = true) :
    profile.calls cs = .ok (after cs) := by
  unfold succeeds at h
  unfold after
  cases hc : profile.calls cs with
  | ok s => rfl
  | error e => rw [hc] at h; cases h

/-- The last of some calls that succeed. -/
theorem call_after {cs : List LedgerCall} {c : LedgerCall} (h : succeeds (cs ++ [c]) = true) :
    (after cs).call c = .ok (after (cs ++ [c])) := by
  have hall := calls_eq_after h
  rw [Ledger.calls, List.foldlM_append, Runs.bind_eq_ok] at hall
  obtain ⟨s, hs, hc⟩ := hall
  have hafter : after cs = s := by
    have hcalls : profile.calls cs = .ok s := hs
    rw [after, hcalls]
  rw [hafter, ← hc]
  exact (bind_pure _).symm

/-- A run of sample calls is let through call by call. -/
theorem allAllowed_cons {allowed : Ledger → LedgerCall → Prop} (cs : List LedgerCall)
    {rest : List LedgerCall} {c : LedgerCall} (h : succeeds (cs ++ [c]) = true) (hc : allowed (after cs) c)
    (hrest : Runs.AllAllowed Ledger.call allowed (after (cs ++ [c])) rest) :
    Runs.AllAllowed Ledger.call allowed (after cs) (c :: rest) := by
  refine ⟨hc, fun s' hs' => ?_⟩
  rw [call_after h] at hs'
  rw [← Except.ok.inj hs']
  exact hrest

end Sample

end FinHub
