import FinHub.Balance.OwnRates
import FinHub.Rates.History
import FinHub.Reconcile.Settled

/-!
# FinHub.Reconcile.ReferenceData

Edits of entities and of exchange rates, under snapshots.

Neither writes a transaction, and both change what fees charged in the past: a new main currency moves
the fees of an entity to another pocket, a new rate converts them anew.

* `updateEntity`, `deletePair`: the edits that are not among the rate writers.
* `pocketTotal`: the fees of a pair up to an instant, from the charges, the main currency and the rates.
* `reconciled_referenceCall_iff`: an edit keeps the snapshots reconciled exactly where the fees charged
  between a snapshot and the one before it can be read and come to what they were.
-/

namespace FinHub

open Tabular

/-! ## The edits -/

structure EntityCreate where
  name : String
  entityType : EntityType
  mainCurrency : Option Currency := none
  country : Option String := none
  description : Option String := none

namespace EntityType

def value : EntityType → String
  | broker => "BROKER"
  | bank => "BANK"
  | employer => "EMPLOYER"
  | exchange => "EXCHANGE"
  | other => "OTHER"

end EntityType

/-- What an edit of reference data raises. -/
inductive ReferenceError where
  | entityNotFound (entity_id : ℕ)
  | entityAlreadyExists (name : String) (entity_type : EntityType)
  | rate (e : RateError)
  | pairNotFound (code base_code : Currency)
  deriving DecidableEq

namespace ReferenceError

def message : ReferenceError → String
  | entityNotFound entity_id => s!"Entity {entity_id} not found"
  | entityAlreadyExists name entity_type =>
    s!"Entity '{name}' of type '{entity_type.value}' already exists"
  | rate e => e.message
  | pairNotFound code base_code => s!"Pair ({code.1}, {base_code.1}) not found"

end ReferenceError

inductive ReferenceCall where
  | updateEntity (entity_id : ℕ) (body : EntityCreate)
  | rates (call : RateCall)
  | deletePair (code base_code : Currency)

namespace Ledger

@[simps] def setEntities (s : Ledger) (entities : Table Entity) : Ledger where
  __ := s
  entities := entities

def entityExists (s : Ledger) (name : String) (entity_type : EntityType) : Bool :=
  s.entities.rows.any fun r => decide (r.2.name = name) && decide (r.2.entityType = entity_type) &&
    r.2.deletedAt.isNone

/-- `entity_svc.update`. -/
def updateEntity (s : Ledger) (entity_id : ℕ) (body : EntityCreate) : Except ReferenceError Ledger :=
  match s.getEntity entity_id with
  | none => .error (.entityNotFound entity_id)
  | some existing =>
    if (decide (body.name ≠ existing.name) || decide (body.entityType ≠ existing.entityType)) &&
        s.entityExists body.name body.entityType then
      .error (.entityAlreadyExists body.name body.entityType)
    else .ok <| s.setEntities <| s.entities.modify entity_id fun e =>
      { e with
        name := body.name
        entityType := body.entityType
        mainCurrency := body.mainCurrency
        country := body.country
        description := body.description }

/-- `currency_svc.delete_pair`. -/
def deletePair (s : Ledger) (code base_code : Currency) : Except ReferenceError Ledger :=
  match s.resolveDirection code base_code with
  | none => .error (.pairNotFound code base_code)
  | some (stored_code, stored_base_code, _) => .ok <| s.setCurrencies <| s.currencies.filter fun r =>
    !(decide (r.code = stored_code) && decide (r.baseCode = stored_base_code))

def referenceCall (s : Ledger) : ReferenceCall → Except ReferenceError Ledger
  | .updateEntity entity_id body => s.updateEntity entity_id body
  | .rates call => (s.rateCall call).mapError .rate
  | .deletePair code base_code => s.deletePair code base_code

/-! ## What they leave alone -/

/-- The tables that no edit of reference data writes. -/
structure SameRecords (s s' : Ledger) : Prop where
  transactions : s'.transactions = s.transactions
  fees : s'.fees = s.fees
  taxes : s'.taxes = s.taxes
  snapshots : s'.snapshots = s.snapshots

variable {s s' : Ledger}

theorem SameRecords.setCurrencies (s : Ledger) (rates : List CurrencyRate) :
    SameRecords s (s.setCurrencies rates) := ⟨rfl, rfl, rfl, rfl⟩

theorem SameRecords.upserts (rows : List CurrencyRate) (s : Ledger) :
    SameRecords s (rows.foldl Ledger.upsertRate s) := by
  induction rows generalizing s with
  | nil => exact ⟨rfl, rfl, rfl, rfl⟩
  | cons row rows ih =>
    have hrest := ih (s.upsertRate row)
    exact ⟨hrest.transactions, hrest.fees, hrest.taxes, hrest.snapshots⟩

theorem SameRecords.rateCall {c : RateCall} (hok : s.rateCall c = .ok s') : SameRecords s s' := by
  cases c with
  | createRate code base_code rate timestamp =>
    simp only [Ledger.rateCall, createRate, insertRate] at hok
    split_ifs at hok
    cases hok
    exact .setCurrencies _ _
  | updateRates code base_code timestamps rates =>
    simp only [Ledger.rateCall, updateRates] at hok
    split_ifs at hok
    cases hok
    rw [upsertRates_eq_foldl]
    exact .upserts _ _
  | syncRates api =>
    simp only [Ledger.rateCall, syncRates] at hok
    split_ifs at hok
    · cases hok
      rw [sync_eq_foldl]
      exact .upserts _ _
    · cases hok
      exact ⟨rfl, rfl, rfl, rfl⟩

theorem SameRecords.referenceCall {c : ReferenceCall} (hok : s.referenceCall c = .ok s') :
    SameRecords s s' := by
  cases c with
  | updateEntity entity_id body =>
    simp only [Ledger.referenceCall, updateEntity] at hok
    split at hok
    · cases hok
    · split_ifs at hok
      cases hok
      exact ⟨rfl, rfl, rfl, rfl⟩
  | rates call =>
    simp only [Ledger.referenceCall] at hok
    cases hcall : s.rateCall call with
    | error e => rw [hcall] at hok; cases hok
    | ok s₁ =>
      rw [hcall] at hok
      cases hok
      exact .rateCall hcall
  | deletePair code base_code =>
    simp only [Ledger.referenceCall, deletePair] at hok
    split at hok
    · cases hok
    · cases hok
      exact .setCurrencies _ _

/-! ## The fees of a pair, from the reference data -/

/-- What a charge of a list takes from the pocket of a pair. -/
def pocketValue (s : Ledger) (entity_id : ℕ) (currency : Currency) (l : List Charge) (ch : Charge) : ℚ :=
  match s.getEntity entity_id with
  | none => 0
  | some entity =>
    match entity.mainCurrency with
    | none => if ch.currency = currency then ch.amount else 0
    | some main => if main = currency then s.loopValue main l ch else 0

def pocketTotal (s : Ledger) (entity_id : ℕ) (currency : Currency) (timestamp : Timestamp) : ℚ :=
  ((s.chargesUpTo entity_id timestamp).map
    (s.pocketValue entity_id currency (s.chargesUpTo entity_id timestamp))).sum

/-- The fees of a snapshot's pair since the snapshot before it, or from the origin. -/
def chargedSince (s : Ledger) (r : ℕ × BalanceSnapshot) : ℚ :=
  s.pocketTotal r.2.entityId r.2.currency r.2.timestamp -
    match s.getPreviousSnapshot r.2.entityId r.2.currency r.2.timestamp with
    | some p => s.pocketTotal r.2.entityId r.2.currency p.2.timestamp
    | none => 0

/-- No fee that the pocket of a pair pays up to an instant is a percentage of a missing total. -/
def PocketReadable (s : Ledger) (entity_id : ℕ) (currency : Currency) (timestamp : Timestamp) : Prop :=
  ∀ entity, s.getEntity entity_id = some entity →
    entity.mainCurrency = none ∨ entity.mainCurrency = some currency →
    ∀ f ∈ s.fees.rows, ∀ t, s.parentOf entity_id timestamp none f.2.transactionId = some t →
      (feeAmount f.2 t.totalValue).isSome

variable {entity_id : ℕ} {currency : Currency} {timestamp : Timestamp}

theorem feesReadable_iff_pocket :
    s.FeesReadable entity_id currency none timestamp ↔
      s.PocketReadable entity_id currency timestamp := by
  rw [feesReadable_iff]
  unfold PocketReadable
  refine forall_congr' fun entity => imp_congr_right fun _ => ?_
  have hmain : entity.mainCurrency.any (fun main => decide (main ≠ currency)) = false ↔
      entity.mainCurrency = none ∨ entity.mainCurrency = some currency := by
    cases entity.mainCurrency <;> simp
  rw [hmain]
  simp only [feeCharge, Option.isSome_map]

/-- Without a main currency the loop takes what is charged in the pair's own. -/
theorem sum_chargeStep_none (l : List Charge) (acc : ℚ × List (Currency × Option ℚ)) :
    (l.foldl (s.chargeStep none currency) acc).1 =
      acc.1 + (l.map fun ch => if ch.currency = currency then ch.amount else 0).sum := by
  induction l generalizing acc with
  | nil => simp
  | cons ch l ih =>
    rw [List.foldl_cons, ih, List.map_cons, List.sum_cons]
    unfold chargeStep
    split_ifs
    · ring
    · ring

theorem feesUpTo_eq_pocketTotal (hread : s.FeesReadable entity_id currency none timestamp) :
    s.feesUpTo entity_id currency none timestamp = s.pocketTotal entity_id currency timestamp := by
  unfold pocketTotal
  cases he : s.getEntity entity_id with
  | none =>
    have hzero : s.pocketValue entity_id currency (s.chargesUpTo entity_id timestamp) = fun _ => 0 := by
      funext ch
      simp only [pocketValue, he]
    rw [hzero, feesUpTo, computeFeeCashOutAt, he]
    simp
  | some entity =>
    cases hmain : entity.mainCurrency with
    | none =>
      have hvalue : s.pocketValue entity_id currency (s.chargesUpTo entity_id timestamp) =
          fun ch => if ch.currency = currency then ch.amount else 0 := by
        funext ch
        simp only [pocketValue, he, hmain]
      have hsome := hread.eq_some
      simp only [computeFeeCashOutAt, he, hmain, Option.any_none, Bool.false_eq_true, if_false,
        Option.getD_none] at hsome
      obtain ⟨l, hl, hsum⟩ := Option.bind_eq_some_iff.mp hsome
      rw [← Option.some_inj.mp hsum, sum_chargeStep_none, mapM_feeCharge hl, ← chargesUpTo_eq, hvalue,
        zero_add]
    | some main =>
      by_cases hpocket : main = currency
      · subst hpocket
        have hvalue : s.pocketValue entity_id main (s.chargesUpTo entity_id timestamp) =
            s.loopValue main (s.chargesUpTo entity_id timestamp) := by
          funext ch
          simp only [pocketValue, he, hmain, if_true]
        rw [hvalue, ((computeFeeCashOutAt_eq he hmain).mp hread.eq_some).2]
      · have hzero : s.pocketValue entity_id currency (s.chargesUpTo entity_id timestamp) =
            fun _ => 0 := by
          funext ch
          simp only [pocketValue, he, hmain, hpocket, if_false]
        rw [hzero, feesUpTo, computeFeeCashOutAt, he]
        simp [hmain, hpocket]

/-! ## The snapshots -/

/-- The fees behind a snapshot can be read after an edit, and come to what they were. -/
structure ChargesKept (s s' : Ledger) (r : ℕ × BalanceSnapshot) : Prop where
  readable : s'.PocketReadable r.2.entityId r.2.currency r.2.timestamp
  total : s'.chargedSince r = s.chargedSince r

theorem SameRecords.getPreviousSnapshot (h : SameRecords s s') (entity_id : ℕ) (currency : Currency)
    (t : Timestamp) :
    s'.getPreviousSnapshot entity_id currency t = s.getPreviousSnapshot entity_id currency t := by
  refine getPreviousSnapshot_congr ?_ t
  rw [pairSnapshots, h.snapshots]
  rfl

/-- A balance at a snapshot is its rows and its anchor less the fees behind it. -/
theorem balance_eq_chargedSince {r : ℕ × BalanceSnapshot}
    (hread : s.FeesReadable r.2.entityId r.2.currency none r.2.timestamp) :
    s.balance r.2.entityId r.2.currency r.2.timestamp {} true =
      ((s.getPreviousSnapshot r.2.entityId r.2.currency r.2.timestamp).map fun p =>
          p.2.amount).getD 0 +
        s.cashOver r.2.entityId r.2.currency {}
          (s.window r.2.entityId r.2.currency true r.2.timestamp) - s.chargedSince r := by
  rw [balance_eq_window]
  unfold anchor chargedSince
  cases hp : s.getPreviousSnapshot r.2.entityId r.2.currency r.2.timestamp with
  | none =>
    simp only [Option.map_none, Option.getD_none]
    rw [feesUpTo_eq_pocketTotal hread]
    ring
  | some p =>
    simp only [Option.map_some, Option.getD_some]
    rw [feesUpTo_eq_pocketTotal hread,
      feesUpTo_eq_pocketTotal (hread.mono (getPreviousSnapshot_lt hp).le)]
    ring

theorem SameRecords.loopReadable (h : SameRecords s s') (entity_id : ℕ) (currency : Currency)
    (t : Timestamp) (ex : Exclude) :
    s'.LoopReadable entity_id currency t ex ↔ s.LoopReadable entity_id currency t ex := by
  unfold LoopReadable
  rw [h.getPreviousSnapshot, h.transactions]

/-- Over the same books, a settled snapshot stays settled exactly if its fees are kept. -/
theorem SameRecords.settled_iff (h : SameRecords s s') {r : ℕ × BalanceSnapshot} (hr : Settled s r) :
    Settled s' r ↔ ChargesKept s s' r := by
  obtain ⟨hread, hval⟩ := getBalanceAtDate_eq_some_iff.mp hr
  have hsnap : s'.pairSnapshots r.2.entityId r.2.currency =
      s.pairSnapshots r.2.entityId r.2.currency := by
    rw [pairSnapshots, h.snapshots]
    rfl
  have hmove : s'.FeesReadable r.2.entityId r.2.currency none r.2.timestamp →
      (s'.balance r.2.entityId r.2.currency r.2.timestamp {} true = r.2.amount ↔
        s'.chargedSince r = s.chargedSince r) := by
    intro hread'
    rw [balance_eq_chargedSince hread.fees] at hval
    rw [balance_eq_chargedSince hread', h.getPreviousSnapshot, window_congr hsnap,
      cashOver_congr h.transactions, ← hval]
    exact sub_right_inj
  unfold Settled
  rw [getBalanceAtDate_eq_some_iff]
  constructor
  · intro hsettled
    obtain ⟨hread', hval'⟩ := hsettled
    exact ⟨feesReadable_iff_pocket.mp hread'.fees, (hmove hread'.fees).mp hval'⟩
  · intro hkept
    have hfees := feesReadable_iff_pocket.mpr hkept.readable
    exact ⟨⟨hfees, (h.loopReadable _ _ _ _).mpr hread.loop⟩, (hmove hfees).mpr hkept.total⟩

theorem SameRecords.getTransaction (h : SameRecords s s') : s'.getTransaction = s.getTransaction := by
  funext id
  rw [Ledger.getTransaction, h.transactions]
  rfl

theorem SameRecords.chargesUpTo (h : SameRecords s s') (entity_id : ℕ) (t : Timestamp) :
    s'.chargesUpTo entity_id t = s.chargesUpTo entity_id t := by
  rw [Ledger.chargesUpTo, chargesIn, chargesOf, h.getTransaction, h.fees, h.taxes]
  rfl

theorem reconciled_referenceCall_iff {c : ReferenceCall} (h : Reconciled s)
    (hok : s.referenceCall c = .ok s') :
    Reconciled s' ↔ ∀ r ∈ s.snapshots.rows, ChargesKept s s' r := by
  have hrecords := SameRecords.referenceCall hok
  unfold Reconciled
  rw [hrecords.snapshots]
  exact forall₂_congr fun r hr => hrecords.settled_iff (h r hr)

end Ledger

namespace Sample

/-- A fee of ten dollars on an income of the bank, and a dollar snapshot after it. -/
def snapshotAfterFee : Ledger := after [
  .createTransaction
    { timestamp := at_ 10 9, type := .income, entityId := 0, currency := usd, totalValue := some 100 },
  .createFee { transactionId := 0, nature := .fixed, currency := usd, fixedAmount := 10 },
  .createSnapshot { entityId := 0, currency := usd, amount := 90, timestamp := at_ 20 9 }]

/-- Settling in euros takes the fee off the dollars. -/
theorem setMainCurrency_unsettles : ¬ ∀ (s s' : Ledger) (c : ReferenceCall), Reconciled s →
    s.referenceCall c = .ok s' → Reconciled s' := by
  intro hall
  have hedit : ∃ s', snapshotAfterFee.referenceCall
      (.updateEntity 0 { name := "Bank", entityType := .other, mainCurrency := some eur }) = .ok s' ∧
      ¬ Reconciled s' := ⟨_, rfl, by decide +kernel⟩
  obtain ⟨s', hok, hno⟩ := hedit
  exact hno (hall _ s' _ (by decide +kernel) hok)

theorem renamed_reconciled : Reconciled snapshotAfterFee ∧ ∃ s', snapshotAfterFee.referenceCall
      (.updateEntity 0 { name := "Savings", entityType := .bank }) = .ok s' ∧
    (Reconciled s' ↔
      ∀ r ∈ snapshotAfterFee.snapshots.rows, Ledger.ChargesKept snapshotAfterFee s' r) := by
  have hrec : Reconciled snapshotAfterFee := by decide +kernel
  have hedit : ∃ s', snapshotAfterFee.referenceCall
      (.updateEntity 0 { name := "Savings", entityType := .bank }) = .ok s' := ⟨_, rfl⟩
  obtain ⟨s', hok⟩ := hedit
  exact ⟨hrec, s', hok, Ledger.reconciled_referenceCall_iff hrec hok⟩

end Sample

end FinHub
