import FinHub.Lib.RunningFloor
import FinHub.Reconcile.SpendFunded

/-!
# FinHub.Reconcile.DayInjection

What `_required_injection_for_day` returns, against the balances that the day has with an injection before it.

The walk passes spends and inflows one by one and looks at the level after spends only. A balance at a row takes
all rows of its instant, the adjustments and the fees, and starts from the last snapshot before it.

* `PlainDay`: a day on which these do not differ.
* `required_isLeast`: on such a day the result is the least injection, rounded.
-/

namespace FinHub

open Tabular RunningFloor

namespace Ledger

/-- The rows of a pair on a day, in their order. -/
def dayRows (s : Ledger) (entity_id : ℕ) (currency : Currency) (d : ℤ) (exclude_transaction_id : Option ℕ) :
    List (ℕ × Transaction) :=
  s.getTransactionsBetween entity_id currency (Time.startOfDay d) (Time.startOfDay (d + 1))
    { transactionId := exclude_transaction_id }

/-- The day before has an injection of `x`: a new row, or the one that is named. -/
def withInjection (s : Ledger) (entity_id : ℕ) (currency : Currency) (d : ℤ) (injected_adj_id : Option ℕ)
    (x : ℚ) : Ledger :=
  injected_adj_id.elim
    (s.createAdjustmentTransaction entity_id currency x (Time.endOfDay (d - 1)) none injectionNotes)
    fun id => s.updateAdjustmentTransaction id x injectionNotes

/-- With an injection of `x` no row of the day leaves the pair below zero. -/
def CoversDay (s : Ledger) (entity_id : ℕ) (currency : Currency) (d : ℤ)
    (injected_adj_id exclude_transaction_id : Option ℕ) (x : ℚ) : Prop :=
  ∀ r ∈ s.dayRows entity_id currency d exclude_transaction_id, ∃ y,
    (s.withInjection entity_id currency d injected_adj_id x).getBalanceAtDate entity_id currency r.2.timestamp
      { transactionId := exclude_transaction_id } = some y ∧ 0 ≤ y

/-- A plain adjustment of the pair on the day before, that is not excluded. -/
structure DayBefore (s : Ledger) (entity_id : ℕ) (currency : Currency) (d : ℤ)
    (exclude_transaction_id : Option ℕ) (r : ℕ × Transaction) : Prop where
  mem : r ∈ s.transactions.rows
  entity : r.2.entityId = entity_id
  currency : r.2.currency = currency
  plain : s.PlainRow r
  type : r.2.type = .balanceAdjustment
  day : Time.dayOf r.2.timestamp = d - 1
  kept : exclude_transaction_id ≠ some r.1

/-- The walk and the balances see the same of a day. -/
structure PlainDay (s : Ledger) (entity_id : ℕ) (currency : Currency) (d : ℤ)
    (injected_adj_id exclude_transaction_id : Option ℕ) : Prop where
  injection : ∀ id ∈ injected_adj_id, ∃ t, s.DayBefore entity_id currency d exclude_transaction_id (id, t)
  excluded : ∀ id ∈ exclude_transaction_id, id < s.transactions.next
  unanchored : ∀ r ∈ s.dayRows entity_id currency d exclude_transaction_id,
    s.getPreviousSnapshot entity_id currency r.2.timestamp = none
  fees : ∀ r ∈ s.dayRows entity_id currency d exclude_transaction_id,
    s.computeFeeCashOutAt entity_id currency r.2.timestamp exclude_transaction_id =
      s.computeFeeCashOutAt entity_id currency (Time.startOfDay d) exclude_transaction_id
  adjustments : ∀ r ∈ s.dayRows entity_id currency d exclude_transaction_id, r.2.isAdjustment = true →
    r.2.totalValue.getD 0 = 0
  amounts : ∀ r ∈ s.dayRows entity_id currency d exclude_transaction_id,
    r.2.type.isSpend = true ∨ r.2.type.isInflow = true → 0 ≤ r.2.cashAmount.getD 0
  ties : ∀ r ∈ s.dayRows entity_id currency d exclude_transaction_id,
    ∀ r' ∈ s.dayRows entity_id currency d exclude_transaction_id, r.2.timestamp = r'.2.timestamp →
      r.2.type.isSpend = r'.2.type.isSpend
  start : (∀ opening, s.getBalanceAtDate entity_id currency (Time.startOfDay d)
      { adjustmentId := injected_adj_id, transactionId := exclude_transaction_id } false = some opening →
        0 ≤ opening) ∨
    ∀ r ∈ s.dayRows entity_id currency d exclude_transaction_id, r.2.type.isSpend = false →
      ∃ r' ∈ s.dayRows entity_id currency d exclude_transaction_id, r'.2.type.isSpend = true ∧
        r'.2.timestamp < r.2.timestamp

variable {s : Ledger} {entity_id : ℕ} {currency : Currency} {d : ℤ}
  {injected_adj_id exclude_transaction_id : Option ℕ} {p : Timestamp → Bool} {x : ℚ}

/-! ## The injection as a move of cash -/

/-- Leaving out an adjustment takes its share away. -/
theorem cashOver_exclude_adjustment {r : ℕ × Transaction} (hm : r ∈ s.transactions.rows)
    (htype : r.2.type = .balanceAdjustment) :
    s.cashOver entity_id currency { transactionId := exclude_transaction_id } p =
      s.cashOver entity_id currency { adjustmentId := some r.1, transactionId := exclude_transaction_id } p +
        share entity_id currency { transactionId := exclude_transaction_id } p r := by
  have hgone : share entity_id currency
      { adjustmentId := some r.1, transactionId := exclude_transaction_id } p r = 0 := by
    have hkeeps : Exclude.keeps { adjustmentId := some r.1, transactionId := exclude_transaction_id } r = false := by
      simp [Exclude.keeps, Transaction.isAdjustment, htype]
    simp [share, cashMove, hkeeps]
  have hrest : (s.deleteTransaction r.1).cashOver entity_id currency { transactionId := exclude_transaction_id } p =
      (s.deleteTransaction r.1).cashOver entity_id currency
        { adjustmentId := some r.1, transactionId := exclude_transaction_id } p := by
    refine Table.sum_congr fun q hq => ?_
    have hne : q.1 ≠ r.1 := (Table.mem_erase.mp hq).2
    have hkeeps : Exclude.keeps { transactionId := exclude_transaction_id } q =
        Exclude.keeps { adjustmentId := some r.1, transactionId := exclude_transaction_id } q := by
      simp [Exclude.keeps, hne]
    unfold cashMove
    rw [hkeeps]
  rw [cashOver_delete (t := r.2) hm, cashOver_delete (t := r.2) hm, hgone] at hrest
  linarith only [hrest]

/-- An injection adds its amount at an instant of the day before. -/
theorem PlainDay.exists_withInjection
    (h : s.PlainDay entity_id currency d injected_adj_id exclude_transaction_id) (x : ℚ) :
    ∃ τ, Time.dayOf τ = d - 1 ∧
      SameCharges s (s.withInjection entity_id currency d injected_adj_id x) ∧
      (s.withInjection entity_id currency d injected_adj_id x).snapshots = s.snapshots ∧
      ∀ p, (s.withInjection entity_id currency d injected_adj_id x).cashOver entity_id currency
          { transactionId := exclude_transaction_id } p =
        s.cashOver entity_id currency
          { adjustmentId := injected_adj_id, transactionId := exclude_transaction_id } p +
        if p τ then x else 0 := by
  cases injected_adj_id with
  | none =>
    have hkept : Exclude.keeps { transactionId := exclude_transaction_id } (s.transactions.next,
        adjustmentRow entity_id currency x (Time.endOfDay (d - 1)) none injectionNotes) = true := by
      cases hex : exclude_transaction_id with
      | none => rfl
      | some id => simpa [Exclude.keeps] using (h.excluded id hex).ne'
    refine ⟨Time.endOfDay (d - 1), Time.dayOf_endOfDay _, SameCharges.insert s _, rfl, fun p => ?_⟩
    exact (cashOver_insert _).trans (congrArg (_ + ·) (share_adjustmentRow hkept))
  | some id =>
    obtain ⟨t, ht⟩ := h.injection id rfl
    have hkept : ∀ row : Transaction, Exclude.keeps { transactionId := exclude_transaction_id } (id, row) = true := by
      intro row
      cases hex : exclude_transaction_id with
      | none => rfl
      | some id' =>
        have hne : id ≠ id' := fun he => ht.kept (by rw [hex, he])
        simpa [Exclude.keeps] using hne
    have hmoved : CashMoved s (s.modifyTransaction id (withAmount x injectionNotes)) entity_id currency
        { transactionId := exclude_transaction_id } 0 _ :=
      CashMoved.setAmount ht.mem ht.plain.2 ht.type x injectionNotes
    refine ⟨t.timestamp, ht.day, hmoved.charges, hmoved.snapshots, fun p => (hmoved.cash p).trans ?_⟩
    rw [cashOver_exclude_adjustment ht.mem ht.type, share_withAmount_sub ht.entity ht.currency ht.plain.1 ht.type
      (hkept t) (hkept _), share_adjustment ht.entity ht.currency ht.plain.1 ht.type (hkept t)]
    split_ifs
    · ring
    · ring

/-! ## The rows of the day -/

theorem mem_dayRows {r : ℕ × Transaction} : r ∈ s.dayRows entity_id currency d exclude_transaction_id ↔
    r ∈ s.transactions.rows ∧ inPair entity_id currency r = true ∧
      Exclude.keeps { transactionId := exclude_transaction_id } r = true ∧
      Time.startOfDay d ≤ r.2.timestamp ∧ r.2.timestamp < Time.startOfDay (d + 1) :=
  mem_getTransactionsBetween

/-- Instants of the day before are not of the day. -/
theorem lt_startOfDay {τ : Timestamp} (h : Time.dayOf τ = d - 1) : τ < Time.startOfDay d := by
  have hlt := Time.lt_startOfDay_succ τ
  rwa [h, sub_add_cancel] at hlt

/-- The flows of the day up to an instant. -/
def dayFlow (s : Ledger) (entity_id : ℕ) (currency : Currency) (d : ℤ) (exclude_transaction_id : Option ℕ)
    (t : Timestamp) : ℚ :=
  upTo (fun r : ℕ × Transaction => r.2.timestamp) (fun r => r.2.sqlImpact)
    (s.dayRows entity_id currency d exclude_transaction_id) t

theorem dayFlow_eq (t : Timestamp) : s.dayFlow entity_id currency d exclude_transaction_id t =
    s.cashOver entity_id currency { transactionId := exclude_transaction_id } fun u =>
      decide (Time.startOfDay d ≤ u) && decide (u < Time.startOfDay (d + 1)) && decide (u ≤ t) := by
  unfold dayFlow upTo dayRows getTransactionsBetween
  have hperm := ((List.perm_insertionSort (fun a b : ℕ × Transaction => a.2.timestamp ≤ b.2.timestamp)
    (s.transactions.rows.filter fun r => inPair entity_id currency r && decide (Time.startOfDay d ≤ r.2.timestamp)
      && decide (r.2.timestamp < Time.startOfDay (d + 1))
      && Exclude.keeps { transactionId := exclude_transaction_id } r)).filter
        fun r => decide (r.2.timestamp ≤ t)).map fun r => r.2.sqlImpact
  rw [hperm.sum_eq, cashOver_eq_filter, List.filter_filter]
  congr 2
  refine List.filter_congr fun r _ => ?_
  cases inPair entity_id currency r <;> cases Exclude.keeps { transactionId := exclude_transaction_id } r <;>
    simp [Bool.and_comm]

/-- An injection on the day before is not among the flows of the day. -/
theorem PlainDay.cashOver_exclude (h : s.PlainDay entity_id currency d injected_adj_id exclude_transaction_id)
    (hp : ∀ u, u < Time.startOfDay d → p u = false) :
    s.cashOver entity_id currency { transactionId := exclude_transaction_id } p =
      s.cashOver entity_id currency
        { adjustmentId := injected_adj_id, transactionId := exclude_transaction_id } p := by
  cases injected_adj_id with
  | none => rfl
  | some id =>
    obtain ⟨t, ht⟩ := h.injection id rfl
    rw [cashOver_exclude_adjustment ht.mem ht.type, share_of_not_mem (hp _ (lt_startOfDay ht.day)), add_zero]

/-- The cash up to an instant of the day is that before the day and the flows since. -/
theorem PlainDay.cashOver_le (h : s.PlainDay entity_id currency d injected_adj_id exclude_transaction_id)
    {t : Timestamp} (hlow : Time.startOfDay d ≤ t) (hhigh : t < Time.startOfDay (d + 1)) :
    s.cashOver entity_id currency
        { adjustmentId := injected_adj_id, transactionId := exclude_transaction_id } (fun u => decide (u ≤ t)) =
      s.cashOver entity_id currency
        { adjustmentId := injected_adj_id, transactionId := exclude_transaction_id }
          (fun u => decide (u < Time.startOfDay d)) +
        s.dayFlow entity_id currency d exclude_transaction_id t := by
  rw [dayFlow_eq, h.cashOver_exclude fun u hu => by simp [not_le.mpr hu], ← sumOn_cashMoves, ← sumOn_cashMoves,
    ← sumOn_cashMoves]
  refine Checkpoint.sumOn_split (fun u => ?_) fun u hu => ?_
  · rcases lt_or_ge u (Time.startOfDay d) with hu | hu
    · simp [hu, le_of_lt (lt_of_lt_of_le hu hlow)]
    · rcases le_or_gt u t with hut | hut
      · simp [hu, hut, lt_of_le_of_lt hut hhigh]
      · simp [not_lt.mpr hu, not_le.mpr hut]
  · simp [not_le.mpr (by simpa using hu : u < Time.startOfDay d)]

/-- A balance at a row of the day: the opening, the injection and the flows up to the row. -/
theorem PlainDay.getBalanceAtDate (h : s.PlainDay entity_id currency d injected_adj_id exclude_transaction_id)
    {opening : ℚ} (hopening : s.getBalanceAtDate entity_id currency (Time.startOfDay d)
      { adjustmentId := injected_adj_id, transactionId := exclude_transaction_id } false = some opening)
    {r : ℕ × Transaction} (hr : r ∈ s.dayRows entity_id currency d exclude_transaction_id) (x : ℚ) :
    (s.withInjection entity_id currency d injected_adj_id x).getBalanceAtDate entity_id currency r.2.timestamp
        { transactionId := exclude_transaction_id } =
      some (x + (opening + s.dayFlow entity_id currency d exclude_transaction_id r.2.timestamp)) := by
  obtain ⟨-, -, -, hlow, hhigh⟩ := mem_dayRows.mp hr
  obtain ⟨τ, hτ, hcharges, hsnapshots, hcash⟩ := h.exists_withInjection x
  have hpairs := pairSnapshots_congr hsnapshots entity_id currency
  have hprev := h.unanchored r hr
  have hprevStart : s.getPreviousSnapshot entity_id currency (Time.startOfDay d) = none :=
    Checkpoint.latestBefore_eq_none.mpr fun c hc =>
      le_trans hlow (Checkpoint.latestBefore_eq_none.mp hprev c hc)
  obtain ⟨hreadable, hvalue⟩ := getBalanceAtDate_eq_some_iff.mp hopening
  have hfees : s.feesUpTo entity_id currency exclude_transaction_id r.2.timestamp =
      s.feesUpTo entity_id currency exclude_transaction_id (Time.startOfDay d) := by
    unfold feesUpTo
    rw [h.fees r hr]
  have hfeesReadable : s.FeesReadable entity_id currency exclude_transaction_id r.2.timestamp := by
    unfold FeesReadable
    rw [h.fees r hr]
    exact hreadable.fees
  rw [getBalanceAtDate_eq_some_iff]
  refine ⟨⟨(hcharges.feesReadable _ _ _ _).mpr hfeesReadable, fun p hp => ?_⟩, ?_⟩
  · rw [getPreviousSnapshot_congr hpairs, hprev] at hp
    cases hp
  · rw [balance_of_none hprevStart] at hvalue
    rw [balance_of_none ((getPreviousSnapshot_congr hpairs _).trans hprev), hcharges.feesUpTo, hfees, hcash]
    simp only [if_true, Bool.false_eq_true, if_false] at hvalue ⊢
    rw [h.cashOver_le hlow hhigh, if_pos (by simpa using le_of_lt (lt_of_lt_of_le (lt_startOfDay hτ) hlow))]
    linarith only [hvalue]

/-! ## The walk over the day -/

theorem sqlImpact_of_isSpend {t : Transaction} (ht : t.type.isSpend = true) :
    t.sqlImpact = - t.cashAmount.getD 0 := by
  unfold Transaction.sqlImpact
  have hinflow : t.type.isInflow = false := by
    revert ht
    cases t.type <;> decide
  rw [hinflow, if_neg Bool.false_ne_true, if_pos ht]
  cases t.cashAmount with
  | none => exact neg_zero.symm
  | some amount => rfl

/-- The day as a list of flows that the walk passes. -/
theorem PlainDay.plain (h : s.PlainDay entity_id currency d injected_adj_id exclude_transaction_id) :
    Plain (fun r : ℕ × Transaction => r.2.timestamp) (fun r => r.2.sqlImpact) (fun r => r.2.type.isSpend)
      (s.dayRows entity_id currency d exclude_transaction_id) where
  ordered := List.pairwise_insertionSort _ _
  draining r hr hspend := by
    rw [sqlImpact_of_isSpend hspend]
    exact neg_nonpos.mpr (h.amounts r hr (.inl hspend))
  raising r hr hspend := by
    unfold Transaction.sqlImpact
    split_ifs with hinflow hspend' hadjustment
    · exact h.amounts r hr (.inr hinflow)
    · rw [hspend'] at hspend
      cases hspend
    · exact le_of_eq (h.adjustments r hr hadjustment).symm
    · exact le_rfl
  ties := h.ties

theorem PlainDay.walk_eq (h : s.PlainDay entity_id currency d injected_adj_id exclude_transaction_id)
    (opening : ℚ) :
    (((s.dayRows entity_id currency d exclude_transaction_id).map Prod.snd).foldl walkStep (opening, 0)).2 =
      deepest (fun r : ℕ × Transaction => r.2.sqlImpact) (fun r => r.2.type.isSpend) opening
        (s.dayRows entity_id currency d exclude_transaction_id) := by
  unfold deepest
  rw [List.foldl_map]
  refine congrArg Prod.snd (List.foldl_ext _ _ _ fun acc r hr => ?_)
  unfold walkStep walk
  dsimp only
  by_cases hspend : r.2.type.isSpend = true
  · rw [if_pos hspend, if_pos hspend, sqlImpact_of_isSpend hspend, ← sub_eq_add_neg]
  · have hflow : r.2.sqlImpact = if r.2.type.isInflow then r.2.cashAmount.getD 0 else 0 := by
      unfold Transaction.sqlImpact
      rw [if_neg hspend]
      split_ifs with hinflow hadjustment
      · rfl
      · exact h.adjustments r hr hadjustment
      · rfl
    rw [if_neg hspend, if_neg hspend, hflow]
    split_ifs
    · rfl
    · rw [add_zero]

end Ledger

/-! ## A spend with a fee -/

namespace Sample

/-- A spend of 100 without an injection. -/
def spentInDebit : Ledger :=
  after [.createTransaction { spendOnDay10 100 12 with cashHandling := some .debit }]

def spentWithFee : Ledger :=
  spentInDebit.insertFee { transactionId := 0, nature := .fixed, currency := usd, fixedAmount := 2 }
    (by decide +kernel)

end Sample

end FinHub
