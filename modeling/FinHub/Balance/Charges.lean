import FinHub.Balance.Value

/-!
# FinHub.Balance.Charges

The fees of a pair as a sum over the fee and tax rows. The conversion loop keeps one rate for each
fee currency, the one of the first row it meets, so the sum is only one where the rates of a
currency are the same for all of its rows (`SteadyRates`).

* `foldl_chargeStep`: the loop adds up what each charge drains, by the invariant of its cache.
* `drainUpTo`: a fee or tax row as a step at the instant of its parent.
* `feesUpTo_eq_sum`: the fees of a pair are the sum of these steps.
-/

namespace FinHub

open Tabular

namespace Ledger

variable (s : Ledger) (entity_id : ℕ) (currency : Currency)

/-- The rate a charge is converted at when no earlier row has fixed one. -/
def rateOf (main : Currency) (ch : Charge) : Option ℚ :=
  (s.getRateAt ch.currency main ch.txTs).map CurrencyRate.rate

/-- What a charge takes from a pocket that pays it. -/
def chargeValue (main_currency : Option Currency) (pocket : Currency) (ch : Charge) : ℚ :=
  if ch.currency = pocket then ch.amount
  else match main_currency with
    | none => 0
    | some main => ((s.rateOf main ch).map (ch.amount * ·)).getD 0

/-- What a charge takes from the pocket of a pair. -/
def drainOf (ch : Charge) : ℚ :=
  match s.getEntity entity_id with
  | none => 0
  | some entity =>
    if entity.mainCurrency.any (fun main => decide (main ≠ currency)) then 0
    else s.chargeValue entity.mainCurrency currency ch

/-- A fee or tax row: the id of its parent, and its charge as a function of the parent. -/
abbrev ChargeRow := ℕ × (Transaction → Option Charge)

def feeRow (f : TransactionFee) : ChargeRow := (f.transactionId, fun t => feeCharge (f, t))

def taxRow (x : TransactionTax) : ChargeRow :=
  (x.transactionId, fun t => x.taxAmount.map fun amt => ⟨x.currency, amt, t.timestamp⟩)

/-- What a row takes from the pocket of a pair up to an instant. -/
def drainUpTo (timestamp : Timestamp) (row : ChargeRow) : ℚ :=
  (((s.parentOf entity_id timestamp none row.1).bind row.2).map (s.drainOf entity_id currency)).getD 0

/-- The charges of an entity, at any time. -/
def chargesOf : List Charge :=
  (s.fees.rows.map fun f => feeRow f.2).filterMap (fun row =>
    ((s.getTransaction row.1).filter fun t => decide (t.entityId = entity_id)).bind row.2) ++
  (s.taxes.rows.map fun x => taxRow x.2).filterMap fun row =>
    ((s.getTransaction row.1).filter fun t => decide (t.entityId = entity_id)).bind row.2

/-- Rows of one currency convert at one rate. -/
def SteadyRates : Prop :=
  ∀ main ∈ (s.getEntity entity_id).bind Entity.mainCurrency,
    ∀ a ∈ s.chargesOf entity_id, ∀ b ∈ s.chargesOf entity_id, a.currency = b.currency →
      a.currency ≠ main → s.rateOf main a = s.rateOf main b

instance : Decidable (s.SteadyRates entity_id) :=
  decidable_of_iff (∀ a ∈ s.chargesOf entity_id, ∀ b ∈ s.chargesOf entity_id,
    ∀ main ∈ (s.getEntity entity_id).bind Entity.mainCurrency, a.currency = b.currency →
      a.currency ≠ main → s.rateOf main a = s.rateOf main b)
    ⟨fun h m hm a ha b hb => h a ha b hb m hm, fun h a ha b hb m hm => h m hm a ha b hb⟩

variable {s entity_id currency}

/-! ## The conversion loop -/

/-- The cache invariant: what the cache holds is the rate of every later row. -/
theorem foldl_chargeStep {main_currency : Option Currency} {pocket : Currency} {l : List Charge}
    {acc : ℚ × List (Currency × Option ℚ)}
    (hsteady : ∀ main ∈ main_currency, ∀ a ∈ l, ∀ b ∈ l, a.currency = b.currency →
      a.currency ≠ pocket → s.rateOf main a = s.rateOf main b)
    (hcache : ∀ main ∈ main_currency, ∀ a ∈ l, a.currency ≠ pocket → ∀ rate,
      acc.2.lookup a.currency = some rate → rate = s.rateOf main a) :
    (l.foldl (s.chargeStep main_currency pocket) acc).1 =
      acc.1 + (l.map (s.chargeValue main_currency pocket)).sum := by
  induction l generalizing acc with
  | nil => simp
  | cons ch l ih =>
    have hsteady' : ∀ main ∈ main_currency, ∀ a ∈ l, ∀ b ∈ l, a.currency = b.currency →
        a.currency ≠ pocket → s.rateOf main a = s.rateOf main b := fun m hm a ha b hb =>
      hsteady m hm a (List.mem_cons_of_mem _ ha) b (List.mem_cons_of_mem _ hb)
    have hkeep : ∀ main ∈ main_currency, ∀ a ∈ l, a.currency ≠ pocket → ∀ rate,
        acc.2.lookup a.currency = some rate → rate = s.rateOf main a := fun m hm a ha =>
      hcache m hm a (List.mem_cons_of_mem _ ha)
    -- One step adds the value of the charge and keeps the invariant.
    have hstep : (s.chargeStep main_currency pocket acc ch).1 =
          acc.1 + s.chargeValue main_currency pocket ch ∧
        ∀ main ∈ main_currency, ∀ a ∈ l, a.currency ≠ pocket → ∀ rate,
          (s.chargeStep main_currency pocket acc ch).2.lookup a.currency = some rate →
            rate = s.rateOf main a := by
      unfold chargeStep chargeValue
      split_ifs with hp
      · exact ⟨rfl, hkeep⟩
      cases main_currency with
      | none => exact ⟨by simp, hkeep⟩
      | some main =>
        simp only
        cases hl : acc.2.lookup ch.currency with
        | some rate =>
          rw [hcache main rfl ch List.mem_cons_self hp rate hl]
          exact ⟨rfl, hkeep⟩
        | none =>
          refine ⟨rfl, fun m hm a ha hap rate hrate => ?_⟩
          obtain rfl : main = m := Option.some_inj.mp hm
          by_cases hc : a.currency = ch.currency
          · rw [hc, List.lookup_cons_self] at hrate
            rw [← Option.some_inj.mp hrate]
            exact hsteady main rfl ch List.mem_cons_self a (List.mem_cons_of_mem _ ha) hc.symm hp
          · rw [List.lookup_cons, beq_false_of_ne hc] at hrate
            exact hkeep main rfl a ha hap rate hrate
    rw [List.foldl_cons, ih hsteady' hstep.2, hstep.1, List.map_cons, List.sum_cons]
    ring

/-! ## Steps -/

theorem drainOf_of_none (h : s.getEntity entity_id = none) (ch : Charge) :
    s.drainOf entity_id currency ch = 0 := by
  rw [drainOf, h]

theorem drainOf_of_some {entity : Entity} (h : s.getEntity entity_id = some entity) (ch : Charge) :
    s.drainOf entity_id currency ch =
      if entity.mainCurrency.any (fun main => decide (main ≠ currency)) then 0
      else s.chargeValue entity.mainCurrency currency ch := by
  rw [drainOf, h]

/-- A row takes nothing from a pocket that its charges do not drain. -/
theorem drainUpTo_eq_zero {timestamp : Timestamp} {row : ChargeRow}
    (h : ∀ t ch, s.parentOf entity_id timestamp none row.1 = some t → row.2 t = some ch →
      s.drainOf entity_id currency ch = 0) :
    s.drainUpTo entity_id currency timestamp row = 0 := by
  unfold drainUpTo
  cases ht : s.parentOf entity_id timestamp none row.1 with
  | none => rfl
  | some t =>
    cases hch : row.2 t with
    | none => simp [hch]
    | some ch => simp [hch, h t ch ht hch]

theorem parentOf_eq_some {timestamp : Timestamp} {ex : Option ℕ} {id : ℕ} {t : Transaction}
    (h : s.parentOf entity_id timestamp ex id = some t) :
    s.getTransaction id = some t ∧ t.entityId = entity_id ∧ t.timestamp ≤ timestamp := by
  obtain ⟨hg, hp⟩ := Option.filter_eq_some_iff.mp h
  simp only [chargesParent, Bool.and_eq_true, decide_eq_true_eq] at hp
  exact ⟨hg, hp.1.1, hp.1.2⟩

theorem parentOf_of_le {timestamp : Timestamp} {id : ℕ} {t : Transaction}
    (hg : s.getTransaction id = some t) (he : t.entityId = entity_id)
    (ht : t.timestamp ≤ timestamp) : s.parentOf entity_id timestamp none id = some t := by
  simp [parentOf, hg, Option.filter_some, chargesParent, he, ht]

theorem mem_chargesOf {row : ChargeRow} {ch : Charge} {t : Transaction}
    (hrow : row ∈ (s.fees.rows.map fun f => feeRow f.2) ++ (s.taxes.rows.map fun x => taxRow x.2))
    (hg : s.getTransaction row.1 = some t) (he : t.entityId = entity_id) (hch : row.2 t = some ch) :
    ch ∈ s.chargesOf entity_id := by
  have hval : ((s.getTransaction row.1).filter fun t => decide (t.entityId = entity_id)).bind row.2 =
      some ch := by
    rw [hg, Option.filter_some, if_pos (decide_eq_true he)]
    exact hch
  rcases List.mem_append.mp hrow with hrow | hrow
  · exact List.mem_append.mpr (.inl (List.mem_filterMap.mpr ⟨row, hrow, hval⟩))
  · exact List.mem_append.mpr (.inr (List.mem_filterMap.mpr ⟨row, hrow, hval⟩))

theorem sum_filterMap_eq {R : Type} (l : List R) (g : R → Option Charge) (v : Charge → ℚ) :
    ((l.filterMap g).map v).sum = (l.map fun r => ((g r).map v).getD 0).sum := by
  induction l with
  | nil => rfl
  | cons r l ih =>
    rw [List.filterMap_cons, List.map_cons, List.sum_cons, ← ih]
    cases g r <;> simp

/-- The charges that the loop meets, when no fee amount is missing. -/
theorem mapM_feeCharge {timestamp : Timestamp} {l : List Charge}
    (h : (s.feeRows entity_id timestamp none).mapM feeCharge = some l) :
    l = s.fees.rows.filterMap fun f =>
      (s.parentOf entity_id timestamp none (feeRow f.2).1).bind (feeRow f.2).2 := by
  have hl := Runs.mapM_eq_some.mp h
  have hjoin : l = (s.feeRows entity_id timestamp none).filterMap feeCharge := by
    have := congrArg (List.filterMap id) hl
    simpa [List.filterMap_map] using this.symm
  rw [hjoin, feeRows, List.filterMap_filterMap]
  refine List.filterMap_congr fun f _ => ?_
  simp only [feeRow]
  cases s.parentOf entity_id timestamp none f.2.transactionId <;> rfl

/-- The fees of a pair are the sum of the steps of the fee and tax rows. -/
theorem feesUpTo_eq_sum {timestamp : Timestamp} (hsteady : s.SteadyRates entity_id)
    (hread : s.FeesReadable entity_id currency none timestamp) :
    s.feesUpTo entity_id currency none timestamp =
      s.fees.sum (fun f => s.drainUpTo entity_id currency timestamp (feeRow f.2)) +
      s.taxes.sum (fun x => s.drainUpTo entity_id currency timestamp (taxRow x.2)) := by
  unfold FeesReadable at hread
  unfold feesUpTo
  unfold computeFeeCashOutAt at hread ⊢
  cases he : s.getEntity entity_id with
  | none =>
    have hzero : ∀ row, s.drainUpTo entity_id currency timestamp row = 0 := fun row =>
      drainUpTo_eq_zero fun _ ch _ _ => drainOf_of_none he ch
    rw [Table.sum_eq_zero fun _ _ => hzero _, Table.sum_eq_zero fun _ _ => hzero _, add_zero]
    rfl
  | some entity =>
    simp only [he] at hread ⊢
    split_ifs at hread ⊢ with hmain
    · have hzero : ∀ row, s.drainUpTo entity_id currency timestamp row = 0 := fun row =>
        drainUpTo_eq_zero fun _ ch _ _ => by rw [drainOf_of_some he, if_pos hmain]
      rw [Table.sum_eq_zero fun _ _ => hzero _, Table.sum_eq_zero fun _ _ => hzero _, add_zero]
      rfl
    simp only [Option.bind_eq_bind, Option.isSome_bind] at hread
    obtain ⟨l, hl⟩ : ∃ l, (s.feeRows entity_id timestamp none).mapM feeCharge = some l := by
      cases h : (s.feeRows entity_id timestamp none).mapM feeCharge with
      | none => rw [h] at hread; cases hread
      | some l => exact ⟨l, rfl⟩
    have hpocket : entity.mainCurrency.getD currency = currency := by
      cases hm : entity.mainCurrency with
      | none => rfl
      | some main => simpa [hm] using hmain
    -- Every charge that the loop meets is one of the entity.
    have hmem : ∀ ch ∈ l ++ s.taxCharges entity_id timestamp none, ch ∈ s.chargesOf entity_id := by
      intro ch hch
      have hone : ∃ row ∈ (s.fees.rows.map fun f => feeRow f.2) ++
          (s.taxes.rows.map fun x => taxRow x.2),
          (s.parentOf entity_id timestamp none row.1).bind row.2 = some ch := by
        rcases List.mem_append.mp hch with hch | hch
        · rw [mapM_feeCharge hl] at hch
          obtain ⟨f, hf, hv⟩ := List.mem_filterMap.mp hch
          exact ⟨feeRow f.2, List.mem_append.mpr (.inl (List.mem_map_of_mem hf)), hv⟩
        · obtain ⟨x, hx, hv⟩ := List.mem_filterMap.mp hch
          exact ⟨taxRow x.2, List.mem_append.mpr (.inr (List.mem_map_of_mem hx)), hv⟩
      obtain ⟨row, hrow, hv⟩ := hone
      obtain ⟨t, ht, hch⟩ := Option.bind_eq_some_iff.mp hv
      obtain ⟨hg, hent, -⟩ := parentOf_eq_some ht
      exact mem_chargesOf hrow hg hent hch
    simp only [hl, Option.bind_eq_bind, Option.bind_some, Option.getD_some, hpocket]
    rw [foldl_chargeStep (fun main hm a ha b hb hab hne => ?_) (fun _ _ _ _ _ _ h => by cases h),
      List.map_append, List.sum_append, zero_add, mapM_feeCharge hl, taxCharges, sum_filterMap_eq,
      sum_filterMap_eq]
    · have hdrain : s.drainOf entity_id currency = s.chargeValue entity.mainCurrency currency := by
        funext ch
        rw [drainOf_of_some he, if_neg hmain]
      rw [Table.sum, Table.sum, ← hdrain]
      rfl
    · have hmc : main = currency := by simpa [Option.mem_def.mp hm] using hpocket
      refine hsteady main (by rw [he]; exact hm) a (hmem a ha) b (hmem b hb) hab ?_
      rw [hmc]; exact hne

end Ledger

end FinHub
