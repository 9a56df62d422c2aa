import FinHub.Lib.Runs
import FinHub.Model.LedgerSvc

/-!
# FinHub.Balance.Value

What a balance query computes, split into a value and the question whether it raises.

* `cashOver`: the moves of a pair over a set of instants, a sum over the transaction table.
* `balance`: the value, an instance of `Checkpoint.read` with the fees as the drain.
* `Readable`: no amount the query needs is missing.
* `getBalanceAtDate_eq_some_iff`: the query answers `balance` exactly when it is readable.
-/

namespace FinHub

open Tabular

/-- What a row adds to the pocket of a pair. -/
def cashMove (entity_id : ℕ) (currency : Currency) (ex : Exclude) (r : ℕ × Transaction) : ℚ :=
  if Ledger.inPair entity_id currency r && ex.keeps r then r.2.sqlImpact else 0

namespace Ledger

variable (s : Ledger) (entity_id : ℕ) (currency : Currency)

/-- The kept moves of a pair over the instants in `p`. -/
def cashOver (ex : Exclude) (p : Timestamp → Bool) : ℚ :=
  s.transactions.sum fun r => if p r.2.timestamp then cashMove entity_id currency ex r else 0

/-- The moves of a pair, each under its instant. -/
def cashMoves (ex : Exclude) : List (Timestamp × ℚ) :=
  s.transactions.rows.map fun r => (r.2.timestamp, cashMove entity_id currency ex r)

/-- The fees of a pair up to an instant, as a number. -/
def feesUpTo (exclude_transaction_id : Option ℕ) (timestamp : Timestamp) : ℚ :=
  (s.computeFeeCashOutAt entity_id currency timestamp exclude_transaction_id).getD 0

def balance (timestamp : Timestamp) (ex : Exclude) (inclusive_end : Bool) : ℚ :=
  Checkpoint.read (fun r => r.2.timestamp) (fun r => r.2.amount)
    (s.pairSnapshots entity_id currency) (s.cashMoves entity_id currency ex)
    (s.feesUpTo entity_id currency ex.transactionId) inclusive_end timestamp

/-- The fees of the pair can be read up to an instant. -/
def FeesReadable (exclude_transaction_id : Option ℕ) (timestamp : Timestamp) : Prop :=
  (s.computeFeeCashOutAt entity_id currency timestamp exclude_transaction_id).isSome

/-- The loop of the fast path meets no missing amount. -/
def LoopReadable (timestamp : Timestamp) (ex : Exclude) : Prop :=
  ∀ snapshot, s.getPreviousSnapshot entity_id currency timestamp = some snapshot →
    ∀ r ∈ s.transactions.rows, inPair entity_id currency r = true → ex.keeps r = true →
      snapshot.2.timestamp ≤ r.2.timestamp → r.2.timestamp < timestamp → r.2.loopImpact.isSome

/-- No amount that the query reads is missing. -/
structure Readable (timestamp : Timestamp) (ex : Exclude) : Prop where
  fees : s.FeesReadable entity_id currency ex.transactionId timestamp
  loop : s.LoopReadable entity_id currency timestamp ex

variable {s entity_id currency}

/-! ## Sums of moves -/

@[simp] theorem sumOn_cashMoves (ex : Exclude) (p : Timestamp → Bool) :
    Checkpoint.sumOn (s.cashMoves entity_id currency ex) p = s.cashOver entity_id currency ex p := by
  simp only [Checkpoint.sumOn, cashMoves, cashOver, Table.sum, List.map_map, Function.comp_def]

theorem sum_filter_map {α : Type} (l : List α) (p : α → Bool) (f : α → ℚ) :
    ((l.filter p).map f).sum = (l.map fun a => if p a then f a else 0).sum := by
  induction l with
  | nil => rfl
  | cons a l ih => cases hp : p a <;> simp [hp, ih]

theorem cashOver_eq_filter (ex : Exclude) (p : Timestamp → Bool) :
    s.cashOver entity_id currency ex p =
      ((s.transactions.rows.filter fun r => inPair entity_id currency r && ex.keeps r &&
        p r.2.timestamp).map fun r => r.2.sqlImpact).sum := by
  rw [sum_filter_map]
  refine congrArg List.sum (List.map_congr_left fun r _ => ?_)
  simp only [cashMove]
  cases inPair entity_id currency r <;> cases ex.keeps r <;> cases p r.2.timestamp <;> rfl

/-! ## The two paths -/

theorem balance_of_some {timestamp : Timestamp} {ex : Exclude} {inclusive_end : Bool}
    {p : ℕ × BalanceSnapshot} (hp : s.getPreviousSnapshot entity_id currency timestamp = some p) :
    s.balance entity_id currency timestamp ex inclusive_end =
      p.2.amount + s.cashOver entity_id currency ex
        (fun u => decide (p.2.timestamp ≤ u) && decide (u < timestamp)) -
      (s.feesUpTo entity_id currency ex.transactionId timestamp -
        s.feesUpTo entity_id currency ex.transactionId p.2.timestamp) := by
  unfold getPreviousSnapshot at hp
  simp only [balance, Checkpoint.read, hp, Checkpoint.spans_of_some hp, sumOn_cashMoves]

theorem balance_of_none {timestamp : Timestamp} {ex : Exclude} {inclusive_end : Bool}
    (hp : s.getPreviousSnapshot entity_id currency timestamp = none) :
    s.balance entity_id currency timestamp ex inclusive_end =
      s.cashOver entity_id currency ex
        (fun u => if inclusive_end then decide (u ≤ timestamp) else decide (u < timestamp)) -
      s.feesUpTo entity_id currency ex.transactionId timestamp := by
  unfold getPreviousSnapshot at hp
  simp only [balance, Checkpoint.read, Checkpoint.spans_of_none hp, hp, sumOn_cashMoves]

theorem sum_loopImpact {l : List (ℕ × Transaction)} {ys : List ℚ}
    (h : l.map (fun r => r.2.loopImpact) = ys.map some) :
    ys.sum = (l.map fun r => r.2.sqlImpact).sum := by
  induction l generalizing ys with
  | nil => cases ys with
    | nil => rfl
    | cons y ys => simp at h
  | cons r l ih =>
    cases ys with
    | nil => simp at h
    | cons y ys =>
      simp only [List.map_cons, List.cons.injEq] at h
      rw [List.sum_cons, List.map_cons, List.sum_cons, ih h.2, Transaction.sqlImpact_of_loopImpact h.1]

theorem mem_getTransactionsBetween {start end_ : Timestamp} {ex : Exclude} {r : ℕ × Transaction} :
    r ∈ s.getTransactionsBetween entity_id currency start end_ ex ↔ r ∈ s.transactions.rows ∧
      inPair entity_id currency r = true ∧ ex.keeps r = true ∧
      start ≤ r.2.timestamp ∧ r.2.timestamp < end_ := by
  simp only [getTransactionsBetween, List.mem_insertionSort, List.mem_filter, Bool.and_eq_true,
    decide_eq_true_eq]
  tauto

/-- The rows of a window add up to the moves of the pair over it, in whatever order they come. -/
theorem sum_getTransactionsBetween (start end_ : Timestamp) (ex : Exclude) :
    ((s.getTransactionsBetween entity_id currency start end_ ex).map fun r => r.2.sqlImpact).sum =
      s.cashOver entity_id currency ex fun u => decide (start ≤ u) && decide (u < end_) := by
  have hperm := (List.perm_insertionSort (fun a b : ℕ × Transaction => a.2.timestamp ≤ b.2.timestamp)
    (s.transactions.rows.filter fun r => inPair entity_id currency r && decide (start ≤ r.2.timestamp)
      && decide (r.2.timestamp < end_) && ex.keeps r)).map fun r => r.2.sqlImpact
  rw [getTransactionsBetween, hperm.sum_eq, cashOver_eq_filter]
  congr 2
  refine List.filter_congr fun r _ => ?_
  cases inPair entity_id currency r <;> cases ex.keeps r <;>
    cases decide (start ≤ r.2.timestamp) <;> cases decide (r.2.timestamp < end_) <;> rfl

/-! ## Fees that can be read -/

theorem mem_feeRows {exclude_transaction_id : Option ℕ} {timestamp : Timestamp}
    {x : TransactionFee × Transaction} :
    x ∈ s.feeRows entity_id timestamp exclude_transaction_id ↔ ∃ id, (id, x.1) ∈ s.fees.rows ∧
      s.getTransaction x.1.transactionId = some x.2 ∧
      chargesParent entity_id timestamp exclude_transaction_id (x.1.transactionId, x.2) = true := by
  obtain ⟨f, t⟩ := x
  simp only [feeRows, parentOf, List.mem_filterMap, Option.map_eq_some_iff, Option.filter_eq_some_iff,
    Prod.exists, Prod.mk.injEq]
  constructor
  · rintro ⟨id, f', hf, t', ⟨hget, hp⟩, rfl, rfl⟩
    exact ⟨id, hf, hget, hp⟩
  · rintro ⟨id, hf, hget, hp⟩
    exact ⟨id, f, hf, t, ⟨hget, hp⟩, rfl, rfl⟩

/-- Fees readable up to an instant are readable up to every earlier one. -/
theorem FeesReadable.mono {exclude_transaction_id : Option ℕ} {t u : Timestamp}
    (h : s.FeesReadable entity_id currency exclude_transaction_id t) (hle : u ≤ t) :
    s.FeesReadable entity_id currency exclude_transaction_id u := by
  unfold FeesReadable computeFeeCashOutAt at *
  split at h
  · rfl
  · split_ifs at h ⊢
    · rfl
    · simp only [Option.bind_eq_bind, Option.isSome_bind, Option.isSome_some, Option.any_true] at h ⊢
      rw [Runs.isSome_mapM] at h ⊢
      intro x hx
      obtain ⟨id, hf, hget, hp⟩ := mem_feeRows.mp hx
      refine h x (mem_feeRows.mpr ⟨id, hf, hget, ?_⟩)
      simp only [chargesParent, Bool.and_eq_true, decide_eq_true_eq] at hp ⊢
      exact ⟨⟨hp.1.1, hp.1.2.trans hle⟩, hp.2⟩

theorem FeesReadable.eq_some {exclude_transaction_id : Option ℕ} {t : Timestamp}
    (h : s.FeesReadable entity_id currency exclude_transaction_id t) :
    s.computeFeeCashOutAt entity_id currency t exclude_transaction_id =
      some (s.feesUpTo entity_id currency exclude_transaction_id t) := by
  obtain ⟨x, hx⟩ := Option.isSome_iff_exists.mp h
  rw [feesUpTo, hx]; rfl

/-! ## The query -/

theorem getPreviousSnapshot_lt {t : Timestamp} {p : ℕ × BalanceSnapshot}
    (hp : s.getPreviousSnapshot entity_id currency t = some p) : p.2.timestamp < t :=
  (Checkpoint.latestBefore_eq_some hp).2.1

theorem Readable.getBalanceAtDate {t : Timestamp} {ex : Exclude} (inclusive_end : Bool)
    (h : s.Readable entity_id currency t ex) :
    s.getBalanceAtDate entity_id currency t ex inclusive_end =
      some (s.balance entity_id currency t ex inclusive_end) := by
  unfold Ledger.getBalanceAtDate
  cases hp : s.getPreviousSnapshot entity_id currency t with
  | none =>
    simp only [h.fees.eq_some, Option.bind_eq_bind, Option.bind_some, balance_of_none hp,
      cashOver_eq_filter]
  | some p =>
    have hfee := h.fees.mono (getPreviousSnapshot_lt hp).le
    have hloop : ((s.getTransactionsBetween entity_id currency p.2.timestamp t ex).mapM
        fun r : ℕ × Transaction => r.2.loopImpact).isSome := by
      rw [Runs.isSome_mapM]
      intro r hr
      obtain ⟨hm, hpair, hkeep, h1, h2⟩ := mem_getTransactionsBetween.mp hr
      exact h.loop p hp r hm hpair hkeep h1 h2
    obtain ⟨ys, hys⟩ := Option.isSome_iff_exists.mp hloop
    have hsum := sum_loopImpact (Runs.mapM_eq_some.mp hys)
    rw [sum_getTransactionsBetween] at hsum
    simp only [hys, h.fees.eq_some, hfee.eq_some, Option.bind_eq_bind, Option.bind_some,
      balance_of_some hp, hsum]

theorem readable_of_getBalanceAtDate {t : Timestamp} {ex : Exclude} {inclusive_end : Bool} {x : ℚ}
    (h : s.getBalanceAtDate entity_id currency t ex inclusive_end = some x) :
    s.Readable entity_id currency t ex := by
  unfold Ledger.getBalanceAtDate at h
  cases hp : s.getPreviousSnapshot entity_id currency t with
  | none =>
    simp only [hp, Option.bind_eq_bind, Option.bind_eq_some_iff] at h
    obtain ⟨y, hy, -⟩ := h
    exact ⟨by rw [FeesReadable, hy]; rfl, fun p hp' => by rw [hp] at hp'; cases hp'⟩
  | some p =>
    simp only [hp, Option.bind_eq_bind, Option.bind_eq_some_iff] at h
    obtain ⟨ys, hys, y, hy, -⟩ := h
    refine ⟨by rw [FeesReadable, hy]; rfl, fun p' hp' r hm hpair hkeep h1 h2 => ?_⟩
    obtain rfl : p = p' := by rw [hp] at hp'; exact Option.some_inj.mp hp'
    have hall := Runs.isSome_mapM.mp (Option.isSome_iff_exists.mpr ⟨ys, hys⟩)
    exact hall r (mem_getTransactionsBetween.mpr ⟨hm, hpair, hkeep, h1, h2⟩)

theorem getBalanceAtDate_eq_some_iff {t : Timestamp} {ex : Exclude} {inclusive_end : Bool} {x : ℚ} :
    s.getBalanceAtDate entity_id currency t ex inclusive_end = some x ↔
      s.Readable entity_id currency t ex ∧ s.balance entity_id currency t ex inclusive_end = x := by
  constructor
  · intro h
    have hr := readable_of_getBalanceAtDate h
    rw [hr.getBalanceAtDate] at h
    exact ⟨hr, Option.some_inj.mp h⟩
  · rintro ⟨hr, rfl⟩
    exact hr.getBalanceAtDate _

end Ledger

end FinHub
