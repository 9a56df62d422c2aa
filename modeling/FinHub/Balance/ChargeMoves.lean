import FinHub.Balance.Charges

/-!
# FinHub.Balance.ChargeMoves

How a write moves the fees of the pairs.

* `Drains`: the pair and the instant a fee or tax row charges.
* `ChargesMoved D`: the fees of a pair step only at the instants of `D`, and stay readable.
* `ChargeWrite`: one fee or tax row is written. It moves the fees at the places the row drains
  before and after (`ChargeWrite.moved`).
* `ChargesMoved.modify`: so does the edit of a row with fees.
-/

namespace FinHub

open Tabular

namespace Ledger

variable {s s' : Ledger} {entity_id : ℕ} {currency : Currency}

/-! ## The steps of one row -/

/-- The row charges the pair at an instant: the pocket is the main currency of the entity, or the
row's own currency when there is none. -/
def Drains (s : Ledger) (row : ChargeRow) (entity_id : ℕ) (currency : Currency) (u : Timestamp) :
    Prop :=
  ∃ t ch entity, s.getTransaction row.1 = some t ∧ t.entityId = entity_id ∧ t.timestamp = u ∧
    row.2 t = some ch ∧ s.getEntity entity_id = some entity ∧
    entity.mainCurrency.getD ch.currency = currency

theorem drainOf_eq_zero {ch : Charge}
    (h : ∀ entity, s.getEntity entity_id = some entity →
      entity.mainCurrency.getD ch.currency ≠ currency) : s.drainOf entity_id currency ch = 0 := by
  cases he : s.getEntity entity_id with
  | none => exact drainOf_of_none he ch
  | some entity =>
    have hne := h entity he
    rw [drainOf_of_some he]
    cases hm : entity.mainCurrency with
    | some main =>
      rw [hm] at hne
      rw [if_pos (by simpa using hne)]
    | none =>
      rw [hm] at hne
      rw [if_neg (by simp), chargeValue, if_neg (by simpa using hne)]

/-- The steps of a row stand at the instants it drains. -/
theorem drainUpTo_of_gap {row : ChargeRow} {a b : Timestamp} (hab : a ≤ b)
    (h : ∀ u, s.Drains row entity_id currency u → a < u → ¬ u ≤ b) :
    s.drainUpTo entity_id currency b row = s.drainUpTo entity_id currency a row := by
  by_cases hmid : ∃ t, s.getTransaction row.1 = some t ∧ t.entityId = entity_id ∧
      a < t.timestamp ∧ t.timestamp ≤ b
  · obtain ⟨t, hg, he, hat, htb⟩ := hmid
    have hzero : ∀ c, s.drainUpTo entity_id currency c row = 0 := fun c => by
      refine drainUpTo_eq_zero fun t' ch ht' hch => drainOf_eq_zero fun entity hent hc => ?_
      obtain rfl : t = t' := Option.some_inj.mp (hg.symm.trans (parentOf_eq_some ht').1)
      exact h t.timestamp ⟨t, ch, entity, hg, he, rfl, hch, hent, hc⟩ hat htb
    rw [hzero, hzero]
  · have hparent : s.parentOf entity_id b none row.1 = s.parentOf entity_id a none row.1 := by
      refine Option.ext fun t => ⟨fun ht => ?_, fun ht => ?_⟩
      · obtain ⟨hg, he, htb⟩ := parentOf_eq_some ht
        refine parentOf_of_le hg he ?_
        by_contra hat
        exact hmid ⟨t, hg, he, not_le.mp hat, htb⟩
      · obtain ⟨hg, he, hta⟩ := parentOf_eq_some ht
        exact parentOf_of_le hg he (hta.trans hab)
    rw [drainUpTo, drainUpTo, hparent]

theorem drainUpTo_of_later {row : ChargeRow} {b : Timestamp}
    (h : ∀ u, s.Drains row entity_id currency u → ¬ u ≤ b) :
    s.drainUpTo entity_id currency b row = 0 := by
  refine drainUpTo_eq_zero fun t ch ht hch => drainOf_eq_zero fun entity hent hc => ?_
  obtain ⟨hg, he, htb⟩ := parentOf_eq_some ht
  exact h t.timestamp ⟨t, ch, entity, hg, he, rfl, hch, hent, hc⟩ htb

/-! ## Moves -/

/-- The fees of the pairs step only at the places in `D`, and stay readable. -/
structure ChargesMoved (s s' : Ledger) (D : ℕ → Currency → Timestamp → Prop) : Prop where
  step : ∀ entity_id currency a b, a ≤ b → s.FeesReadable entity_id currency none b →
    (∀ u, D entity_id currency u → a < u → ¬ u ≤ b) →
    s'.feesUpTo entity_id currency none b - s'.feesUpTo entity_id currency none a =
      s.feesUpTo entity_id currency none b - s.feesUpTo entity_id currency none a
  start : ∀ entity_id currency b, s.FeesReadable entity_id currency none b →
    (∀ u, D entity_id currency u → ¬ u ≤ b) →
    s'.feesUpTo entity_id currency none b = s.feesUpTo entity_id currency none b
  readable : ∀ entity_id currency b, s.FeesReadable entity_id currency none b →
    s'.FeesReadable entity_id currency none b

/-- Fees are readable when every fee row of the entity has an amount. -/
theorem feesReadable_iff {timestamp : Timestamp} :
    s.FeesReadable entity_id currency none timestamp ↔
      ∀ entity, s.getEntity entity_id = some entity →
        entity.mainCurrency.any (fun main => decide (main ≠ currency)) = false →
        ∀ f ∈ s.fees.rows, ∀ t, s.parentOf entity_id timestamp none f.2.transactionId = some t →
          (feeCharge (f.2, t)).isSome := by
  unfold FeesReadable computeFeeCashOutAt
  cases he : s.getEntity entity_id with
  | none => simp
  | some entity =>
    simp only
    split_ifs with hmain
    · refine ⟨fun _ entity' he' hno => ?_, fun _ => rfl⟩
      rw [← Option.some_inj.mp he', hmain] at hno
      cases hno
    · have hisSome : ∀ (o : Option (List Charge)) (g : List Charge → ℚ),
          (o.bind fun l => some (g l)).isSome = o.isSome := by
        intro o g; cases o <;> rfl
      simp only [Option.bind_eq_bind, hisSome, Runs.isSome_mapM]
      constructor
      · rintro h entity' he' - f hf t ht
        refine h (f.2, t) (mem_feeRows.mpr ⟨f.1, hf, (parentOf_eq_some ht).1, ?_⟩)
        exact (Option.filter_eq_some_iff.mp ht).2
      · intro h x hx
        obtain ⟨id, hf, hg, hp⟩ := mem_feeRows.mp hx
        refine h entity rfl (Bool.eq_false_iff.mpr hmain) (id, x.1) hf x.2 ?_
        exact Option.filter_eq_some_iff.mpr ⟨hg, hp⟩

/-! ## Writing a fee or a tax -/

/-- One fee or tax row is written, and nothing else. -/
structure ChargeWrite (s s' : Ledger) (old new : Option ChargeRow) : Prop where
  transactions : s'.transactions = s.transactions
  entities : s'.entities = s.entities
  currencies : s'.currencies = s.currencies
  snapshots : s'.snapshots = s.snapshots
  timezone : s'.timezone = s.timezone
  rows : (∃ f g, s.fees.Write s'.fees f g ∧ s'.taxes = s.taxes ∧ old = f.map feeRow ∧
      new = g.map feeRow) ∨
    ∃ x y, s.taxes.Write s'.taxes x y ∧ s'.fees = s.fees ∧ old = x.map taxRow ∧ new = y.map taxRow

namespace ChargeWrite

variable {old new : Option ChargeRow}

theorem getTransaction (h : ChargeWrite s s' old new) (id : ℕ) :
    s'.getTransaction id = s.getTransaction id := by
  rw [Ledger.getTransaction, h.transactions]; rfl

theorem getEntity (h : ChargeWrite s s' old new) (id : ℕ) : s'.getEntity id = s.getEntity id := by
  rw [Ledger.getEntity, h.entities]; rfl

theorem parentOf (h : ChargeWrite s s' old new) (entity_id : ℕ) (timestamp : Timestamp)
    (ex : Option ℕ) (id : ℕ) : s'.parentOf entity_id timestamp ex id =
      s.parentOf entity_id timestamp ex id := by
  rw [Ledger.parentOf, Ledger.parentOf, h.getTransaction]

theorem rateOf (h : ChargeWrite s s' old new) (main : Currency) (ch : Charge) :
    s'.rateOf main ch = s.rateOf main ch := by
  rw [Ledger.rateOf, Ledger.rateOf, getRateAt, getRateAt, h.currencies]

theorem drainUpTo (h : ChargeWrite s s' old new) (entity_id : ℕ) (currency : Currency)
    (timestamp : Timestamp) (row : ChargeRow) : s'.drainUpTo entity_id currency timestamp row =
      s.drainUpTo entity_id currency timestamp row := by
  have hdrain : s'.drainOf entity_id currency = s.drainOf entity_id currency := by
    funext ch
    simp only [drainOf, chargeValue, h.getEntity, h.rateOf]
  rw [Ledger.drainUpTo, Ledger.drainUpTo, h.parentOf, hdrain]

/-- The steps of all rows move by those of the written one. -/
theorem sum_drainUpTo (h : ChargeWrite s s' old new) (entity_id : ℕ) (currency : Currency)
    (timestamp : Timestamp) :
    s'.fees.sum (fun f => s'.drainUpTo entity_id currency timestamp (feeRow f.2)) +
        s'.taxes.sum (fun x => s'.drainUpTo entity_id currency timestamp (taxRow x.2)) =
      s.fees.sum (fun f => s.drainUpTo entity_id currency timestamp (feeRow f.2)) +
        s.taxes.sum (fun x => s.drainUpTo entity_id currency timestamp (taxRow x.2)) +
      ((new.map (s.drainUpTo entity_id currency timestamp)).getD 0 -
        (old.map (s.drainUpTo entity_id currency timestamp)).getD 0) := by
  simp only [h.drainUpTo]
  rcases h.rows with ⟨f, g, hw, htaxes, rfl, rfl⟩ | ⟨x, y, hw, hfees, rfl, rfl⟩
  · rw [htaxes, hw.sum_eq fun f => s.drainUpTo entity_id currency timestamp (feeRow f),
      Option.map_map, Option.map_map]
    simp only [Function.comp_def]
    ring
  · rw [hfees, hw.sum_eq fun x => s.drainUpTo entity_id currency timestamp (taxRow x),
      Option.map_map, Option.map_map]
    simp only [Function.comp_def]
    ring

/-- A row of another entity is not seen by the loop. -/
theorem computeFeeCashOutAt_of_other (h : ChargeWrite s s' old new)
    (hother : ∀ row, row ∈ old ∨ row ∈ new → ∀ t, s.getTransaction row.1 = some t →
      t.entityId ≠ entity_id) (timestamp : Timestamp) :
    s'.computeFeeCashOutAt entity_id currency timestamp =
      s.computeFeeCashOutAt entity_id currency timestamp := by
  have hnone : ∀ row, row ∈ old ∨ row ∈ new →
      s.parentOf entity_id timestamp none row.1 = none := by
    intro row hrow
    cases ht : s.parentOf entity_id timestamp none row.1 with
    | none => rfl
    | some t =>
      obtain ⟨hg, he, -⟩ := parentOf_eq_some ht
      exact absurd he (hother row hrow t hg)
  have hstep : s'.chargeStep = s.chargeStep := by
    funext main pocket acc ch
    simp only [Ledger.chargeStep, getRateAt, h.currencies]
  have hbind : ∀ {R B : Type} (o : Option R) (rowOf : R → ChargeRow) (g : R → Option B),
      (∀ r ∈ o, rowOf r ∈ old ∨ rowOf r ∈ new) →
      (∀ r, s.parentOf entity_id timestamp none (rowOf r).1 = none → g r = none) →
      o.bind g = none := by
    rintro R B (_ | r) rowOf g hr hg
    · rfl
    · exact hg r (hnone _ (hr r rfl))
  have hrows : s'.feeRows entity_id timestamp none = s.feeRows entity_id timestamp none ∧
      s'.taxCharges entity_id timestamp none = s.taxCharges entity_id timestamp none := by
    simp only [feeRows, taxCharges, h.parentOf]
    rcases h.rows with ⟨f, g, hw, htaxes, rfl, rfl⟩ | ⟨x, y, hw, hfees, rfl, rfl⟩
    · rw [htaxes]
      refine ⟨hw.filterMap_eq (fun f => (s.parentOf entity_id timestamp none f.transactionId).map
        fun t => (f, t)) ?_, rfl⟩
      rw [hbind g feeRow _ (fun r hr => .inr (Option.mem_map_of_mem feeRow hr)) fun r hr => ?_,
        hbind f feeRow _ (fun r hr => .inl (Option.mem_map_of_mem feeRow hr)) fun r hr => ?_]
      all_goals exact congrArg (Option.map _) hr
    · rw [hfees]
      refine ⟨rfl, hw.filterMap_eq (fun x => (s.parentOf entity_id timestamp none
        x.transactionId).bind fun t => x.taxAmount.map fun amt =>
          (⟨x.currency, amt, t.timestamp⟩ : Charge)) ?_⟩
      rw [hbind y taxRow _ (fun r hr => .inr (Option.mem_map_of_mem taxRow hr)) fun r hr => ?_,
        hbind x taxRow _ (fun r hr => .inl (Option.mem_map_of_mem taxRow hr)) fun r hr => ?_]
      all_goals exact congrArg (Option.bind · _) hr
  unfold computeFeeCashOutAt
  simp only [h.getEntity, hrows.1, hrows.2, hstep]

/-- Writing a row moves the fees where it drains, before and after. The rates of its entities have
to be steady, and a new fee has to have an amount. -/
theorem moved (h : ChargeWrite s s' old new)
    (hread : ∀ row ∈ new, ∀ t, s.getTransaction row.1 = some t → (∃ f, row = feeRow f) →
      (row.2 t).isSome)
    (hsteady : ∀ row, row ∈ old ∨ row ∈ new → ∀ t, s.getTransaction row.1 = some t →
      s.SteadyRates t.entityId ∧ s'.SteadyRates t.entityId) :
    ChargesMoved s s' fun entity_id currency u =>
      ∃ row, (row ∈ old ∨ row ∈ new) ∧ s.Drains row entity_id currency u := by
  have hreadable : ∀ entity_id currency b, s.FeesReadable entity_id currency none b →
      s'.FeesReadable entity_id currency none b := by
    intro e c b hr
    rw [feesReadable_iff] at hr ⊢
    intro entity hent hmain f hf t ht
    rw [h.getEntity] at hent
    rw [h.parentOf] at ht
    rcases h.rows with ⟨f', g, hw, -, -, rfl⟩ | ⟨x, y, -, hfees, -, -⟩
    · rcases hw.mem hf with hf | hf
      · exact hr entity hent hmain f hf t ht
      · exact hread (feeRow f.2) (Option.mem_map_of_mem feeRow hf) t (parentOf_eq_some ht).1
          ⟨f.2, rfl⟩
    · exact hr entity hent hmain f (hfees ▸ hf) t ht
  -- Either no written row is of the entity, or its rates are steady and the fees are sums.
  have hval : ∀ entity_id currency b, s.FeesReadable entity_id currency none b →
      (∀ a ≤ b, s'.feesUpTo entity_id currency none a = s.feesUpTo entity_id currency none a) ∨
      ∀ a ≤ b, s'.feesUpTo entity_id currency none a = s.feesUpTo entity_id currency none a +
        ((new.map (s.drainUpTo entity_id currency a)).getD 0 -
          (old.map (s.drainUpTo entity_id currency a)).getD 0) := by
    intro e c b hr
    by_cases hother : ∀ row, row ∈ old ∨ row ∈ new → ∀ t, s.getTransaction row.1 = some t →
        t.entityId ≠ e
    · left
      intro a _
      rw [feesUpTo, feesUpTo, h.computeFeeCashOutAt_of_other hother]
    · right
      push Not at hother
      obtain ⟨row, hrow, t, hg, rfl⟩ := hother
      obtain ⟨hs, hs'⟩ := hsteady row hrow t hg
      intro a ha
      rw [feesUpTo_eq_sum hs' (hreadable _ _ _ (hr.mono ha)), feesUpTo_eq_sum hs (hr.mono ha),
        h.sum_drainUpTo]
  refine ⟨fun e c a b hab hr hgap => ?_, fun e c b hr hgap => ?_, hreadable⟩
  · rcases hval e c b hr with hsame | hmove
    · rw [hsame b le_rfl, hsame a hab]
    · have hrow : ∀ o : Option ChargeRow, (∀ row ∈ o, row ∈ old ∨ row ∈ new) →
          (o.map (s.drainUpTo e c b)).getD 0 = (o.map (s.drainUpTo e c a)).getD 0 := by
        rintro (_ | row) ho
        · rfl
        · simp only [Option.map_some, Option.getD_some]
          exact drainUpTo_of_gap hab fun u hu => hgap u ⟨row, ho row rfl, hu⟩
      rw [hmove b le_rfl, hmove a hab, hrow new fun _ => .inr, hrow old fun _ => .inl]
      ring
  · rcases hval e c b hr with hsame | hmove
    · exact hsame b le_rfl
    · have hrow : ∀ o : Option ChargeRow, (∀ row ∈ o, row ∈ old ∨ row ∈ new) →
          (o.map (s.drainUpTo e c b)).getD 0 = 0 := by
        rintro (_ | row) ho
        · rfl
        · simp only [Option.map_some, Option.getD_some]
          exact drainUpTo_of_later fun u hu => hgap u ⟨row, ho row rfl, hu⟩
      rw [hmove b le_rfl, hrow new fun _ => .inr, hrow old fun _ => .inl]
      ring

end ChargeWrite

/-! ## Editing a row with fees -/

section Edit

variable {k : ℕ} {t : Transaction} {g : Transaction → Transaction}

theorem getTransaction_modify_self (hm : (k, t) ∈ s.transactions.rows) :
    (s.modifyTransaction k g).getTransaction k = some (g t) :=
  (s.transactions.modify k g).get?_eq_some_iff.mpr (Table.mem_modify.mpr (.inr ⟨rfl, t, hm, rfl⟩))

theorem getTransaction_modify_of_ne {id : ℕ} (hid : id ≠ k) :
    (s.modifyTransaction k g).getTransaction id = s.getTransaction id := by
  refine Option.ext fun a => ?_
  rw [getTransaction, getTransaction, Table.get?_eq_some_iff, Table.get?_eq_some_iff,
    modifyTransaction_transactions, Table.mem_modify]
  constructor
  · rintro (⟨-, hm⟩ | ⟨he, -⟩)
    · exact hm
    · exact absurd he hid
  · exact fun hm => .inl ⟨hid, hm⟩

theorem parentOf_modify_of_ne {id : ℕ} (hid : id ≠ k) (timestamp : Timestamp) (ex : Option ℕ) :
    (s.modifyTransaction k g).parentOf entity_id timestamp ex id =
      s.parentOf entity_id timestamp ex id := by
  rw [parentOf, parentOf, getTransaction_modify_of_ne hid]

theorem drainUpTo_modify_of_ne {row : ChargeRow} (hid : row.1 ≠ k) (timestamp : Timestamp) :
    (s.modifyTransaction k g).drainUpTo entity_id currency timestamp row =
      s.drainUpTo entity_id currency timestamp row := by
  rw [drainUpTo, drainUpTo, parentOf_modify_of_ne hid]
  rfl

/-- The row is not a parent in an entity that it is in neither before nor after. -/
theorem parentOf_modify_of_other (hm : (k, t) ∈ s.transactions.rows) (h : t.entityId ≠ entity_id)
    (h' : (g t).entityId ≠ entity_id) (timestamp : Timestamp) (ex : Option ℕ) (id : ℕ) :
    (s.modifyTransaction k g).parentOf entity_id timestamp ex id =
      s.parentOf entity_id timestamp ex id := by
  by_cases hid : id = k
  · subst hid
    rw [parentOf, parentOf, getTransaction_modify_self hm,
      show s.getTransaction id = some t from s.transactions.get?_eq_some_iff.mpr hm,
      Option.filter_some, Option.filter_some, if_neg (by simp [chargesParent, h']),
      if_neg (by simp [chargesParent, h])]
  · exact parentOf_modify_of_ne hid timestamp ex

theorem computeFeeCashOutAt_modify_of_other (hm : (k, t) ∈ s.transactions.rows)
    (h : t.entityId ≠ entity_id) (h' : (g t).entityId ≠ entity_id) (timestamp : Timestamp) :
    (s.modifyTransaction k g).computeFeeCashOutAt entity_id currency timestamp =
      s.computeFeeCashOutAt entity_id currency timestamp := by
  unfold computeFeeCashOutAt feeRows taxCharges
  simp only [parentOf_modify_of_other hm h h']
  rfl

/-- A fee or tax row hangs on `k` and drains the pair. -/
def RowDrains (s : Ledger) (k : ℕ) (entity_id : ℕ) (currency : Currency) (u : Timestamp) : Prop :=
  ∃ row, ((∃ f ∈ s.fees.rows, row = feeRow f.2) ∨ ∃ x ∈ s.taxes.rows, row = taxRow x.2) ∧
    row.1 = k ∧ s.Drains row entity_id currency u

/-- Editing a row moves the fees where its fee and tax rows drain, before and after. -/
theorem ChargesMoved.modify (hm : (k, t) ∈ s.transactions.rows)
    (hread : ∀ f ∈ s.fees.rows, f.2.transactionId = k → (feeCharge (f.2, g t)).isSome)
    (hsteady : ∀ e, e = t.entityId ∨ e = (g t).entityId →
      s.SteadyRates e ∧ (s.modifyTransaction k g).SteadyRates e) :
    ChargesMoved s (s.modifyTransaction k g) fun entity_id currency u =>
      s.RowDrains k entity_id currency u ∨
        (s.modifyTransaction k g).RowDrains k entity_id currency u := by
  have hreadable : ∀ entity_id currency b, s.FeesReadable entity_id currency none b →
      (s.modifyTransaction k g).FeesReadable entity_id currency none b := by
    intro e c b hr
    rw [feesReadable_iff] at hr ⊢
    intro entity hent hmain f hf t' ht'
    by_cases hid : f.2.transactionId = k
    · obtain ⟨hg, -, -⟩ := parentOf_eq_some ht'
      rw [hid, getTransaction_modify_self hm] at hg
      rw [← Option.some_inj.mp hg]
      exact hread f hf hid
    · rw [parentOf_modify_of_ne hid] at ht'
      exact hr entity hent hmain f hf t' ht'
  -- Either the row is of other entities, or the rates are steady and the fees are sums.
  have hval : ∀ entity_id currency b, s.FeesReadable entity_id currency none b →
      (∀ a ≤ b, (s.modifyTransaction k g).feesUpTo entity_id currency none a =
        s.feesUpTo entity_id currency none a) ∨
      ∀ a ≤ b, s.feesUpTo entity_id currency none a =
          s.fees.sum (fun f => s.drainUpTo entity_id currency a (feeRow f.2)) +
            s.taxes.sum (fun x => s.drainUpTo entity_id currency a (taxRow x.2)) ∧
        (s.modifyTransaction k g).feesUpTo entity_id currency none a =
          s.fees.sum (fun f => (s.modifyTransaction k g).drainUpTo entity_id currency a (feeRow f.2)) +
            s.taxes.sum fun x =>
              (s.modifyTransaction k g).drainUpTo entity_id currency a (taxRow x.2) := by
    intro e c b hr
    by_cases hother : t.entityId ≠ e ∧ (g t).entityId ≠ e
    · left
      intro a _
      rw [feesUpTo, feesUpTo, computeFeeCashOutAt_modify_of_other hm hother.1 hother.2]
    · right
      obtain ⟨hs, hs'⟩ := hsteady e (by
        by_contra hne
        exact hother ⟨fun he => hne (.inl he.symm), fun he => hne (.inr he.symm)⟩)
      intro a ha
      exact ⟨feesUpTo_eq_sum hs (hr.mono ha), feesUpTo_eq_sum hs' (hreadable _ _ _ (hr.mono ha))⟩
  -- Over a gap, no row steps in either state.
  have hstep : ∀ (row : ChargeRow), ((∃ f ∈ s.fees.rows, row = feeRow f.2) ∨
        ∃ x ∈ s.taxes.rows, row = taxRow x.2) → ∀ e c a b, a ≤ b →
      (∀ u, s.RowDrains k e c u ∨ (s.modifyTransaction k g).RowDrains k e c u → a < u → ¬ u ≤ b) →
      (s.modifyTransaction k g).drainUpTo e c b row - s.drainUpTo e c b row =
        (s.modifyTransaction k g).drainUpTo e c a row - s.drainUpTo e c a row := by
    intro row hrow e c a b hab hgap
    by_cases hid : row.1 = k
    · rw [drainUpTo_of_gap hab fun u hu => hgap u (.inl ⟨row, hrow, hid, hu⟩),
        drainUpTo_of_gap hab fun u hu => hgap u (.inr ⟨row, hrow, hid, hu⟩)]
    · rw [drainUpTo_modify_of_ne hid, drainUpTo_modify_of_ne hid, sub_self, sub_self]
  have hstart : ∀ (row : ChargeRow), ((∃ f ∈ s.fees.rows, row = feeRow f.2) ∨
        ∃ x ∈ s.taxes.rows, row = taxRow x.2) → ∀ e c b,
      (∀ u, s.RowDrains k e c u ∨ (s.modifyTransaction k g).RowDrains k e c u → ¬ u ≤ b) →
      (s.modifyTransaction k g).drainUpTo e c b row = s.drainUpTo e c b row := by
    intro row hrow e c b hgap
    by_cases hid : row.1 = k
    · rw [drainUpTo_of_later fun u hu => hgap u (.inl ⟨row, hrow, hid, hu⟩),
        drainUpTo_of_later fun u hu => hgap u (.inr ⟨row, hrow, hid, hu⟩)]
    · rw [drainUpTo_modify_of_ne hid]
  refine ⟨fun e c a b hab hr hgap => ?_, fun e c b hr hgap => ?_, hreadable⟩
  · rcases hval e c b hr with hsame | hsum
    · rw [hsame b le_rfl, hsame a hab]
    · obtain ⟨hb, hb'⟩ := hsum b le_rfl
      obtain ⟨ha, ha'⟩ := hsum a hab
      have hfees := Table.sum_congr (t := s.fees) fun f hf =>
        sub_eq_iff_eq_add.mp (hstep (feeRow f.2) (.inl ⟨f, hf, rfl⟩) e c a b hab hgap)
      have htaxes := Table.sum_congr (t := s.taxes) fun x hx =>
        sub_eq_iff_eq_add.mp (hstep (taxRow x.2) (.inr ⟨x, hx, rfl⟩) e c a b hab hgap)
      rw [Table.sum_add, Table.sum_sub] at hfees htaxes
      rw [hb, hb', ha, ha', hfees, htaxes]
      ring
  · rcases hval e c b hr with hsame | hsum
    · exact hsame b le_rfl
    · obtain ⟨hb, hb'⟩ := hsum b le_rfl
      rw [hb, hb', Table.sum_congr fun f hf => hstart (feeRow f.2) (.inl ⟨f, hf, rfl⟩) e c b hgap,
        Table.sum_congr fun x hx => hstart (taxRow x.2) (.inr ⟨x, hx, rfl⟩) e c b hgap]

end Edit

end Ledger

end FinHub
