import FinHub.Balance.Value

/-!
# FinHub.Balance.FastPath

The balance from the latest snapshot against the balance from the origin.

`getBalanceAtDate` starts at the latest snapshot before `t` and counts the rows in `[S, t)`; without
such a snapshot it counts the rows up to `t`, those stamped `t` included. When the snapshots of the
pair are reconciled, `Checkpoint.read_eq_total` collapses the chain of snapshots, and the two
conventions leave one difference: a row stamped at the first snapshot is counted twice, a row
stamped at `t` not at all.
-/

namespace FinHub

namespace Ledger

variable (s : Ledger) (entity_id : ℕ) (currency : Currency)

/-- Every snapshot of one pair holds the balance at its own instant. -/
def PairReconciled : Prop :=
  ∀ r ∈ s.pairSnapshots entity_id currency,
    s.getBalanceAtDate entity_id currency r.2.timestamp = some r.2.amount

instance : Decidable (s.PairReconciled entity_id currency) :=
  inferInstanceAs (Decidable (∀ r ∈ s.pairSnapshots entity_id currency, _))

/-- All rows of the pair up to `timestamp`, less all fees up to it: what the fast path stands for. -/
def originBalance (timestamp : Timestamp) : Option ℚ := do
  let fees ← s.computeFeeCashOutAt entity_id currency timestamp
  some (s.cashOver entity_id currency {} (fun u => decide (u ≤ timestamp)) - fees)

/-- The rows of the pair stamped at one instant, added up. -/
def cashAt (timestamp : Timestamp) : ℚ :=
  s.cashOver entity_id currency {} fun u => decide (u = timestamp)

variable {s entity_id currency}

theorem PairReconciled.checkpoint (h : s.PairReconciled entity_id currency) :
    Checkpoint.Reconciled (fun r => r.2.timestamp) (fun r => r.2.amount)
      (s.pairSnapshots entity_id currency) (s.cashMoves entity_id currency {})
      (s.feesUpTo entity_id currency none) :=
  fun r hr => (getBalanceAtDate_eq_some_iff.mp (h r hr)).2

theorem cashOver_le_eq (ex : Exclude) (t : Timestamp) :
    s.cashOver entity_id currency ex (fun u => decide (u ≤ t)) =
      s.cashOver entity_id currency ex (fun u => decide (u < t)) +
        s.cashOver entity_id currency ex (fun u => decide (u = t)) := by
  simp only [← sumOn_cashMoves]
  exact Checkpoint.sumOn_le _ _

/-- The first snapshot of a pair that has one before `t`. -/
theorem exists_isFirst {t : Timestamp} {p : ℕ × BalanceSnapshot}
    (hp : s.getPreviousSnapshot entity_id currency t = some p) :
    ∃ f ∈ s.pairSnapshots entity_id currency,
      Checkpoint.IsFirst (fun r => r.2.timestamp) (s.pairSnapshots entity_id currency) f := by
  have hm := (Checkpoint.latestBefore_eq_some hp).1
  cases hf : (s.pairSnapshots entity_id currency).argmin fun r => r.2.timestamp with
  | none => rw [List.argmin_eq_none.mp hf] at hm; cases hm
  | some f => exact ⟨f, List.argmin_mem hf, fun d hd =>
      List.le_of_mem_argmin (f := fun r : ℕ × BalanceSnapshot => r.2.timestamp) hd hf⟩

/-- The value of the fast path in terms of the origin. -/
theorem balance_eq_origin (hrec : s.PairReconciled entity_id currency) {t : Timestamp}
    {p f : ℕ × BalanceSnapshot} (hp : s.getPreviousSnapshot entity_id currency t = some p)
    (hf : f ∈ s.pairSnapshots entity_id currency)
    (hfirst : Checkpoint.IsFirst (fun r => r.2.timestamp) (s.pairSnapshots entity_id currency) f) :
    s.balance entity_id currency t {} true =
      s.cashOver entity_id currency {} (fun u => decide (u ≤ t)) -
        s.feesUpTo entity_id currency none t +
        (s.cashAt entity_id currency f.2.timestamp - s.cashAt entity_id currency t) := by
  have hread := Checkpoint.read_eq_total hrec.checkpoint hp hf hfirst
  simp only [sumOn_cashMoves] at hread
  rw [balance, hread, cashOver_le_eq]
  simp only [cashAt]
  abel

/-- The fast path agrees with the origin when no snapshot precedes `t`, and otherwise exactly when
the rows stamped at the first snapshot and the rows stamped at `t` add up to the same. (Where the
fees of the pair cannot be read neither side is a number.) -/
theorem getBalanceAtDate_eq_originBalance_iff (hrec : s.PairReconciled entity_id currency)
    (t : Timestamp) :
    s.getBalanceAtDate entity_id currency t = s.originBalance entity_id currency t ↔
      s.getPreviousSnapshot entity_id currency t = none ∨
      ¬ s.FeesReadable entity_id currency none t ∨
      (s.LoopReadable entity_id currency t {} ∧
        ∀ f ∈ s.pairSnapshots entity_id currency,
          Checkpoint.IsFirst (fun r => r.2.timestamp) (s.pairSnapshots entity_id currency) f →
          s.cashAt entity_id currency f.2.timestamp = s.cashAt entity_id currency t) := by
  by_cases hfees : s.FeesReadable entity_id currency none t
  swap
  · have hnone := Option.not_isSome_iff_eq_none.mp hfees
    refine iff_of_true ?_ (.inr (.inl hfees))
    rw [originBalance, hnone]
    refine Option.eq_none_iff_forall_ne_some.mpr fun x hx => ?_
    exact hfees (readable_of_getBalanceAtDate hx).fees
  have horigin : s.originBalance entity_id currency t = some
      (s.cashOver entity_id currency {} (fun u => decide (u ≤ t)) -
        s.feesUpTo entity_id currency none t) := by
    simp only [originBalance, hfees.eq_some, Option.bind_eq_bind, Option.bind_some]
  rw [horigin, getBalanceAtDate_eq_some_iff]
  cases hp : s.getPreviousSnapshot entity_id currency t with
  | none =>
    refine iff_of_true ⟨⟨hfees, fun p h => by rw [hp] at h; cases h⟩, ?_⟩ (.inl rfl)
    rw [balance_of_none hp]; simp only [if_true]
  | some p =>
    obtain ⟨f, hf, hfirst⟩ := exists_isFirst hp
    have hval := balance_eq_origin hrec hp hf hfirst
    constructor
    · rintro ⟨hr, hb⟩
      refine .inr (.inr ⟨hr.loop, fun g hg hgf => ?_⟩)
      rw [show g.2.timestamp = f.2.timestamp from le_antisymm (hgf f hf) (hfirst g hg)]
      rw [hval] at hb
      exact sub_eq_zero.mp (by simpa using hb)
    · rintro (h | h | ⟨hloop, hcash⟩)
      · cases h
      · exact absurd hfees h
      · refine ⟨⟨hfees, hloop⟩, ?_⟩
        rw [hval, hcash f hf hfirst, sub_self, add_zero]

end Ledger

namespace Sample

/-- A dollar snapshot of 100 at noon of day 10, a spend of 30 on day 12. -/
def spendAfterSnapshot : Ledger := after
  [.createSnapshot { entityId := 0, currency := usd, amount := 100, timestamp := at_ 10 12 },
   .createTransaction
    { timestamp := at_ 12 9, type := .moneyOut, entityId := 0, currency := usd, totalValue := some 30 }]

theorem spendAfterSnapshot_reconciled : spendAfterSnapshot.PairReconciled 0 usd := by decide +kernel

/-- At the spend's own instant the fast path still says 100, the origin 70. -/
theorem fastPath_ne_origin : spendAfterSnapshot.PairReconciled 0 usd ∧
    spendAfterSnapshot.getBalanceAtDate 0 usd (at_ 12 9) = some 100 ∧
    spendAfterSnapshot.originBalance 0 usd (at_ 12 9) = some 70 := by
  refine ⟨spendAfterSnapshot_reconciled, ?_, ?_⟩ <;> decide +kernel

/-- An hour later nothing is stamped at the query and both say 70. -/
theorem fastPath_eq_origin_later :
    spendAfterSnapshot.getBalanceAtDate 0 usd (at_ 12 10) = some 70 ∧
    (spendAfterSnapshot.getBalanceAtDate 0 usd (at_ 12 10) =
        spendAfterSnapshot.originBalance 0 usd (at_ 12 10) ↔
      spendAfterSnapshot.getPreviousSnapshot 0 usd (at_ 12 10) = none ∨
      ¬ spendAfterSnapshot.FeesReadable 0 usd none (at_ 12 10) ∨
      (spendAfterSnapshot.LoopReadable 0 usd (at_ 12 10) {} ∧
        ∀ f ∈ spendAfterSnapshot.pairSnapshots 0 usd,
          Checkpoint.IsFirst (fun r => r.2.timestamp) (spendAfterSnapshot.pairSnapshots 0 usd) f →
          spendAfterSnapshot.cashAt 0 usd f.2.timestamp = spendAfterSnapshot.cashAt 0 usd (at_ 12 10))) :=
  ⟨by decide +kernel, Ledger.getBalanceAtDate_eq_originBalance_iff spendAfterSnapshot_reconciled _⟩

end Sample

end FinHub
