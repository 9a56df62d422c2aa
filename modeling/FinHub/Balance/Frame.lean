import FinHub.Balance.ChargeMoves
import FinHub.Recording.Passes

/-!
# FinHub.Balance.Frame

What a write can change in a balance.

* `SameCharges`: writes that leave the fees of every pair alone. They keep the fee and tax rows, the
  rates and the entities, and of every row that carries a fee or tax the entity, the instant and what
  its fees amount to.
* `cashOver_insert`, `cashOver_modify`, `cashOver_remove`: the moves over a set of instants change
  by the share of the row written.
* `balance_eq_window`: a balance is its anchor plus the moves in its window, so between two states
  with the same charges and snapshots it moves as the window does (`balance_sub`).
-/

namespace FinHub

open Tabular

namespace Ledger

variable {s s' s'' : Ledger} {entity_id : ℕ} {currency : Currency}

/-! ## Fees -/

/-- A fee or a tax row hangs on the id. -/
def Charged (s : Ledger) (id : ℕ) : Prop :=
  (∃ f ∈ s.fees.rows, f.2.transactionId = id) ∨ ∃ x ∈ s.taxes.rows, x.2.transactionId = id

instance (s : Ledger) (id : ℕ) : Decidable (s.Charged id) :=
  inferInstanceAs (Decidable (_ ∨ _))

theorem Charged.lt {id : ℕ} (h : s.Charged id) : id < s.transactions.next := by
  rcases h with ⟨f, hf, rfl⟩ | ⟨x, hx, rfl⟩
  · exact s.fees_lt f hf
  · exact s.taxes_lt x hx

/-- Two versions of a row charge the same fees and taxes. -/
def ChargesAlike (s : Ledger) (id : ℕ) (t t' : Transaction) : Prop :=
  t'.entityId = t.entityId ∧ t'.timestamp = t.timestamp ∧
    ∀ f ∈ s.fees.rows, f.2.transactionId = id →
      feeAmount f.2 t'.totalValue = feeAmount f.2 t.totalValue

theorem ChargesAlike.refl (s : Ledger) (id : ℕ) (t : Transaction) : s.ChargesAlike id t t :=
  ⟨rfl, rfl, fun _ _ _ => rfl⟩

/-- The fees of every pair are the same in both states. -/
structure SameCharges (s s' : Ledger) : Prop where
  fees : s'.fees = s.fees
  taxes : s'.taxes = s.taxes
  entities : s'.entities = s.entities
  currencies : s'.currencies = s.currencies
  parents : ∀ id, s.Charged id →
    Option.Rel (s.ChargesAlike id) (s.getTransaction id) (s'.getTransaction id)

namespace SameCharges

theorem charged_iff (h : SameCharges s s') (id : ℕ) : s'.Charged id ↔ s.Charged id := by
  rw [Charged, Charged, h.fees, h.taxes]

theorem rel_refl (s : Ledger) (id : ℕ) (o : Option Transaction) :
    Option.Rel (s.ChargesAlike id) o o := by
  cases o with
  | none => exact .none
  | some t => exact .some (.refl s id t)

theorem refl (s : Ledger) : SameCharges s s := ⟨rfl, rfl, rfl, rfl, fun _ _ => rel_refl _ _ _⟩

theorem trans (h : SameCharges s s') (h' : SameCharges s' s'') : SameCharges s s'' where
  fees := h'.fees.trans h.fees
  taxes := h'.taxes.trans h.taxes
  entities := h'.entities.trans h.entities
  currencies := h'.currencies.trans h.currencies
  parents id hid := by
    have h1 := h.parents id hid
    have h2 := h'.parents id ((h.charged_iff id).mpr hid)
    revert h1 h2
    generalize s.getTransaction id = o
    generalize s'.getTransaction id = o'
    generalize s''.getTransaction id = o''
    rintro h1 h2
    cases h1 with
    | none => cases h2; exact .none
    | some h1 =>
      cases h2 with
      | some h2 =>
        refine .some ⟨h2.1.trans h1.1, h2.2.1.trans h1.2.1, fun f hf hid => ?_⟩
        exact (h2.2.2 f (h.fees ▸ hf) hid).trans (h1.2.2 f hf hid)

theorem rel_parentOf (h : SameCharges s s') {id : ℕ} (hid : s.Charged id) (entity_id : ℕ)
    (timestamp : Timestamp) (ex : Option ℕ) : Option.Rel (s.ChargesAlike id) (s.parentOf entity_id timestamp ex id)
      (s'.parentOf entity_id timestamp ex id) := by
  have hp := h.parents id hid
  unfold parentOf
  revert hp
  generalize s.getTransaction id = o
  generalize s'.getTransaction id = o'
  rintro (⟨he, ht, hf⟩ | _)
  · rename_i t t'
    have hc : chargesParent entity_id timestamp ex (id, t') =
        chargesParent entity_id timestamp ex (id, t) := by
      simp only [chargesParent, he, ht]
    simp only [Option.filter_some, hc]
    split_ifs
    · exact .some ⟨he, ht, hf⟩
    · exact .none
  · exact .none

/-- Reading a fee or tax of an entity only needs what versions of its parent share. -/
theorem filterMap_parentOf {R β : Type} {rows : List (ℕ × R)} {idOf : R → ℕ}
    (h : SameCharges s s') (hrows : ∀ r ∈ rows, s.Charged (idOf r.2)) (timestamp : Timestamp)
    (ex : Option ℕ) {g : R → Transaction → Option β}
    (hg : ∀ r ∈ rows, ∀ t t', s.ChargesAlike (idOf r.2) t t' → g r.2 t' = g r.2 t) :
    (rows.filterMap fun r => (s'.parentOf entity_id timestamp ex (idOf r.2)).bind (g r.2)) =
    rows.filterMap fun r => (s.parentOf entity_id timestamp ex (idOf r.2)).bind (g r.2) := by
  refine List.filterMap_congr fun r hr => ?_
  have hrel := h.rel_parentOf (hrows r hr) entity_id timestamp ex
  revert hrel
  generalize s.parentOf entity_id timestamp ex (idOf r.2) = o
  generalize s'.parentOf entity_id timestamp ex (idOf r.2) = o'
  rintro (halike | _)
  · exact hg r hr _ _ halike
  · rfl

theorem mapM_feeRows (s : Ledger) (entity_id : ℕ) (timestamp : Timestamp) (ex : Option ℕ) :
    (s.feeRows entity_id timestamp ex).mapM feeCharge =
      (s.fees.rows.filterMap fun f =>
        (s.parentOf entity_id timestamp ex f.2.transactionId).bind fun t =>
          some (feeCharge (f.2, t))).mapM id := by
  rw [show feeCharge = id ∘ feeCharge from rfl, ← List.mapM_map, feeRows, List.map_filterMap]
  refine congrArg (List.mapM id) (List.filterMap_congr fun f _ => ?_)
  cases s.parentOf entity_id timestamp ex f.2.transactionId <;> rfl

theorem chargeStep (h : SameCharges s s') : s'.chargeStep = s.chargeStep := by
  funext main pocket acc ch
  simp only [Ledger.chargeStep, getRateAt, h.currencies]

theorem computeFeeCashOutAt (h : SameCharges s s') (entity_id : ℕ) (currency : Currency)
    (timestamp : Timestamp) (ex : Option ℕ) :
    s'.computeFeeCashOutAt entity_id currency timestamp ex =
      s.computeFeeCashOutAt entity_id currency timestamp ex := by
  have hfees : (s'.feeRows entity_id timestamp ex).mapM feeCharge =
      (s.feeRows entity_id timestamp ex).mapM feeCharge := by
    rw [mapM_feeRows, mapM_feeRows, h.fees]
    congr 1
    refine h.filterMap_parentOf (fun f hf => .inl ⟨f, hf, rfl⟩) timestamp ex
      (g := fun f t => some (feeCharge (f, t))) ?_
    rintro f hf t t' ⟨-, ht, hamount⟩
    simp only [feeCharge, ht, hamount f hf rfl]
  have htaxes : s'.taxCharges entity_id timestamp ex = s.taxCharges entity_id timestamp ex := by
    rw [taxCharges, taxCharges, h.taxes]
    refine h.filterMap_parentOf (fun x hx => .inr ⟨x, hx, rfl⟩) timestamp ex
      (g := fun x t => x.taxAmount.map fun amt => (⟨x.currency, amt, t.timestamp⟩ : Charge)) ?_
    rintro x hx t t' ⟨-, ht, -⟩
    simp only [ht]
  unfold Ledger.computeFeeCashOutAt
  rw [hfees, htaxes, h.chargeStep]
  simp only [getEntity, h.entities]

theorem feesUpTo (h : SameCharges s s') (entity_id : ℕ) (currency : Currency) (ex : Option ℕ)
    (timestamp : Timestamp) :
    s'.feesUpTo entity_id currency ex timestamp = s.feesUpTo entity_id currency ex timestamp := by
  rw [Ledger.feesUpTo, Ledger.feesUpTo, h.computeFeeCashOutAt]

theorem feesReadable (h : SameCharges s s') (entity_id : ℕ) (currency : Currency) (ex : Option ℕ)
    (timestamp : Timestamp) : s'.FeesReadable entity_id currency ex timestamp ↔
      s.FeesReadable entity_id currency ex timestamp := by
  rw [FeesReadable, FeesReadable, h.computeFeeCashOutAt]

/-- Rows and links may change as long as the parents of fees and taxes do not. -/
theorem of_rows (hfees : s'.fees = s.fees) (htaxes : s'.taxes = s.taxes)
    (hent : s'.entities = s.entities) (hcur : s'.currencies = s.currencies)
    (h : ∀ id, s.Charged id → s'.getTransaction id = s.getTransaction id) : SameCharges s s' :=
  ⟨hfees, htaxes, hent, hcur, fun id hid => by rw [h id hid]; exact rel_refl _ _ _⟩

theorem insert (s : Ledger) (t : Transaction) : SameCharges s (s.insertTransaction t) := by
  refine of_rows rfl rfl rfl rfl fun id hid => Option.ext fun a => ?_
  rw [getTransaction, getTransaction, Table.get?_eq_some_iff, Table.get?_eq_some_iff,
    insertTransaction_transactions, Table.mem_insert, Prod.mk.injEq]
  constructor
  · rintro (hm | ⟨rfl, -⟩)
    · exact hm
    · exact absurd hid.lt (lt_irrefl _)
  · exact .inl

/-- A row may be rewritten when it carries no fee or tax, or keeps what these read. -/
theorem modify {k : ℕ} {f : Transaction → Transaction} (h : s.Charged k →
    ∀ t, (k, t) ∈ s.transactions.rows → s.ChargesAlike k t (f t)) :
    SameCharges s (s.modifyTransaction k f) := by
  refine ⟨rfl, rfl, rfl, rfl, fun id hid => ?_⟩
  cases hg : s.getTransaction id with
  | none =>
    have hg' : (s.modifyTransaction k f).getTransaction id = none := by
      rw [getTransaction, Table.get?_eq_none_iff] at hg ⊢
      intro a ha
      rcases Table.mem_modify.mp ha with ⟨-, hm⟩ | ⟨rfl, a', hm, -⟩
      · exact hg a hm
      · exact hg a' hm
    rw [hg']
    exact .none
  | some t =>
    have hm := mem_of_getTransaction hg
    by_cases hk : id = k
    · subst hk
      have hg' : (s.modifyTransaction id f).getTransaction id = some (f t) :=
        getTransaction_of_mem (Table.mem_modify.mpr (.inr ⟨rfl, t, hm, rfl⟩))
      rw [hg']
      exact .some (h hid t hm)
    · have hg' : (s.modifyTransaction k f).getTransaction id = some t :=
        getTransaction_of_mem (Table.mem_modify.mpr (.inl ⟨hk, hm⟩))
      rw [hg']
      exact .some (.refl s id t)

/-- Rows without fees and taxes may go. -/
theorem remove {p : ℕ × Transaction → Bool}
    (h : ∀ r ∈ s.transactions.rows, p r = true → ¬ s.Charged r.1) :
    SameCharges s (s.removeTransactions p) := by
  refine of_rows rfl rfl rfl rfl fun id hid => Option.ext fun a => ?_
  rw [getTransaction, getTransaction, Table.get?_eq_some_iff, Table.get?_eq_some_iff,
    removeTransactions_transactions, Table.mem_removeWhere]
  exact ⟨fun hm => hm.1, fun hm => ⟨hm, Bool.eq_false_iff.mpr fun hp => h _ hm hp hid⟩⟩

theorem removeLinks (s : Ledger) (p : Link → Bool) : SameCharges s (s.removeLinks p) :=
  of_rows rfl rfl rfl rfl fun _ _ => rfl

theorem link (s : Ledger) (a t : ℕ) : SameCharges s (s.linkAdjustmentToTransaction a t) := by
  unfold linkAdjustmentToTransaction
  split_ifs <;> exact of_rows rfl rfl rfl rfl fun _ _ => rfl

theorem setSnapshots (s : Ledger) (b : Table BalanceSnapshot) : SameCharges s (s.setSnapshots b) :=
  of_rows rfl rfl rfl rfl fun _ _ => rfl

end SameCharges

/-! ## Moves -/

/-- The share of one row in the moves over `p`. -/
def share (entity_id : ℕ) (currency : Currency) (ex : Exclude) (p : Timestamp → Bool)
    (r : ℕ × Transaction) : ℚ :=
  if p r.2.timestamp then cashMove entity_id currency ex r else 0

variable {ex : Exclude} {p : Timestamp → Bool} {t : Timestamp}

theorem cashOver_congr (h : s'.transactions = s.transactions) :
    s'.cashOver entity_id currency ex p = s.cashOver entity_id currency ex p := by
  rw [cashOver, cashOver, h]

theorem cashOver_insert (t : Transaction) :
    (s.insertTransaction t).cashOver entity_id currency ex p =
      s.cashOver entity_id currency ex p + share entity_id currency ex p (s.transactions.next, t) :=
  Table.sum_insert _ _ _

theorem cashOver_modify {k : ℕ} {t : Transaction} (f : Transaction → Transaction)
    (hm : (k, t) ∈ s.transactions.rows) :
    (s.modifyTransaction k f).cashOver entity_id currency ex p =
      s.cashOver entity_id currency ex p +
        (share entity_id currency ex p (k, f t) - share entity_id currency ex p (k, t)) :=
  Table.sum_modify _ f _ hm

theorem cashOver_delete {k : ℕ} {t : Transaction} (hm : (k, t) ∈ s.transactions.rows) :
    (s.deleteTransaction k).cashOver entity_id currency ex p =
      s.cashOver entity_id currency ex p - share entity_id currency ex p (k, t) :=
  s.transactions.sum_erase (share entity_id currency ex p) hm

theorem share_of_not_inPair {r : ℕ × Transaction} (h : inPair entity_id currency r = false) :
    share entity_id currency ex p r = 0 := by
  simp [share, cashMove, h]

theorem share_of_not_mem {r : ℕ × Transaction} (h : p r.2.timestamp = false) :
    share entity_id currency ex p r = 0 := by
  simp [share, h]

theorem share_of_keeps {r : ℕ × Transaction} (hp : inPair entity_id currency r = true)
    (hk : ex.keeps r = true) :
    share entity_id currency ex p r = if p r.2.timestamp then r.2.sqlImpact else 0 := by
  simp [share, cashMove, hp, hk]

theorem keeps_default (r : ℕ × Transaction) : ({} : Exclude).keeps r = true := rfl

theorem inPair_iff {r : ℕ × Transaction} : inPair entity_id currency r = true ↔
    r.2.entityId = entity_id ∧ r.2.cashPocket = currency := by
  simp [inPair]

/-! ## Balances -/

/-- The instants that a balance at `timestamp` counts. -/
def window (s : Ledger) (entity_id : ℕ) (currency : Currency) (inclusive_end : Bool)
    (timestamp : Timestamp) : Timestamp → Bool :=
  Checkpoint.spans (fun r => r.2.timestamp) (s.pairSnapshots entity_id currency) inclusive_end timestamp

/-- The part of a balance that is not a sum of rows. -/
def anchor (s : Ledger) (entity_id : ℕ) (currency : Currency) (ex : Option ℕ)
    (timestamp : Timestamp) : ℚ :=
  match s.getPreviousSnapshot entity_id currency timestamp with
  | some p => p.2.amount - (s.feesUpTo entity_id currency ex timestamp -
      s.feesUpTo entity_id currency ex p.2.timestamp)
  | none => - s.feesUpTo entity_id currency ex timestamp

theorem balance_eq_window (timestamp : Timestamp) (ex : Exclude) (inclusive_end : Bool) :
    s.balance entity_id currency timestamp ex inclusive_end =
      s.anchor entity_id currency ex.transactionId timestamp +
        s.cashOver entity_id currency ex (s.window entity_id currency inclusive_end timestamp) := by
  unfold anchor window
  cases hp : s.getPreviousSnapshot entity_id currency timestamp with
  | none =>
    rw [balance_of_none hp, Checkpoint.spans_of_none hp]
    ring
  | some p =>
    rw [balance_of_some hp, Checkpoint.spans_of_some hp]
    ring

theorem window_congr (h : s'.pairSnapshots entity_id currency = s.pairSnapshots entity_id currency) :
    s'.window entity_id currency = s.window entity_id currency := by
  funext incl t; rw [window, window, h]

theorem getPreviousSnapshot_congr
    (h : s'.pairSnapshots entity_id currency = s.pairSnapshots entity_id currency) (t : Timestamp) :
    s'.getPreviousSnapshot entity_id currency t = s.getPreviousSnapshot entity_id currency t := by
  rw [getPreviousSnapshot, getPreviousSnapshot, h]

theorem getNextSnapshot_congr
    (h : s'.pairSnapshots entity_id currency = s.pairSnapshots entity_id currency) (t : Timestamp) :
    s'.getNextSnapshot entity_id currency t = s.getNextSnapshot entity_id currency t := by
  rw [getNextSnapshot, getNextSnapshot, h]

/-- A balance whose fees move as one moves as its window does. -/
theorem balance_sub_of_anchor (ex : Exclude)
    (hanchor : s'.anchor entity_id currency ex.transactionId t =
      s.anchor entity_id currency ex.transactionId t)
    (h : s'.pairSnapshots entity_id currency = s.pairSnapshots entity_id currency)
    (inclusive_end : Bool) :
    s'.balance entity_id currency t ex inclusive_end =
      s.balance entity_id currency t ex inclusive_end +
      (s'.cashOver entity_id currency ex (s.window entity_id currency inclusive_end t) -
        s.cashOver entity_id currency ex (s.window entity_id currency inclusive_end t)) := by
  rw [balance_eq_window, balance_eq_window, hanchor, window_congr h]
  ring

/-- Between states with the same charges and snapshots, a balance moves as its window does. -/
theorem balance_sub (hc : SameCharges s s')
    (h : s'.pairSnapshots entity_id currency = s.pairSnapshots entity_id currency)
    (timestamp : Timestamp) (ex : Exclude) (inclusive_end : Bool) :
    s'.balance entity_id currency timestamp ex inclusive_end =
      s.balance entity_id currency timestamp ex inclusive_end +
      (s'.cashOver entity_id currency ex (s.window entity_id currency inclusive_end timestamp) -
        s.cashOver entity_id currency ex (s.window entity_id currency inclusive_end timestamp)) := by
  refine balance_sub_of_anchor ex ?_ h inclusive_end
  unfold anchor
  rw [getPreviousSnapshot_congr h]
  simp only [hc.feesUpTo]

/-- The fees that a balance reads are those after the latest snapshot. -/
theorem anchor_of_moved {D : ℕ → Currency → Timestamp → Prop} (hm : ChargesMoved s s' D)
    (h : s'.pairSnapshots entity_id currency = s.pairSnapshots entity_id currency)
    (hread : s.FeesReadable entity_id currency none t)
    (hno : ∀ u, D entity_id currency u →
      (∀ p, s.getPreviousSnapshot entity_id currency t = some p → p.2.timestamp < u) → ¬ u ≤ t) :
    s'.anchor entity_id currency none t = s.anchor entity_id currency none t := by
  unfold anchor
  rw [getPreviousSnapshot_congr h]
  cases hp : s.getPreviousSnapshot entity_id currency t with
  | none =>
    simp only
    rw [hm.start _ _ _ hread fun u hu => hno u hu fun p hp' => by rw [hp] at hp'; cases hp']
  | some p =>
    simp only
    rw [hm.step _ _ _ _ (getPreviousSnapshot_lt hp).le hread fun u hu hpu => hno u hu
      fun p' hp' => by rw [hp] at hp'; rw [← Option.some_inj.mp hp']; exact hpu]

/-! ## What a balance reads of the rows -/

/-- What a balance reads of a row. -/
def cashKey (entity_id : ℕ) (currency : Currency) (ex : Exclude) (r : ℕ × Transaction) :
    Option (Timestamp × Option ℚ) :=
  if inPair entity_id currency r && ex.keeps r then some (r.2.timestamp, r.2.loopImpact) else none

/-- The instants and amounts a balance reads, in row order. -/
def cashView (s : Ledger) (entity_id : ℕ) (currency : Currency) (ex : Exclude) :
    List (Timestamp × Option ℚ) :=
  s.transactions.rows.filterMap (cashKey entity_id currency ex)

theorem cashOver_eq_view : s.cashOver entity_id currency ex p =
    ((s.cashView entity_id currency ex).map fun v => if p v.1 then v.2.getD 0 else 0).sum := by
  unfold cashOver cashView Table.sum
  induction s.transactions.rows with
  | nil => rfl
  | cons r rows ih =>
    rw [List.map_cons, List.sum_cons, ih, List.filterMap_cons]
    unfold cashKey cashMove
    split_ifs <;> simp [*, Transaction.loopImpact_getD]

theorem loopReadable_iff_view : s.LoopReadable entity_id currency t ex ↔
    ∀ snapshot, s.getPreviousSnapshot entity_id currency t = some snapshot →
      ∀ v ∈ s.cashView entity_id currency ex, snapshot.2.timestamp ≤ v.1 → v.1 < t → v.2.isSome := by
  refine forall_congr' fun snapshot => imp_congr_right fun _ => ?_
  constructor
  · intro h v hv h1 h2
    obtain ⟨r, hr, hkey⟩ := List.mem_filterMap.mp hv
    unfold cashKey at hkey
    split_ifs at hkey with hcond
    obtain rfl := Option.some_inj.mp hkey
    rw [Bool.and_eq_true] at hcond
    exact h r hr hcond.1 hcond.2 h1 h2
  · intro h r hr hpair hkeep h1 h2
    refine h (r.2.timestamp, r.2.loopImpact) (List.mem_filterMap.mpr ⟨r, hr, ?_⟩) h1 h2
    simp [cashKey, hpair, hkeep]

/-- A balance is a function of its charges, its snapshots and its view of the rows. -/
theorem getBalanceAtDate_congr (hc : SameCharges s s')
    (h : s'.pairSnapshots entity_id currency = s.pairSnapshots entity_id currency)
    (hview : s'.cashView entity_id currency ex = s.cashView entity_id currency ex)
    (inclusive_end : Bool) : s'.getBalanceAtDate entity_id currency t ex inclusive_end =
      s.getBalanceAtDate entity_id currency t ex inclusive_end := by
  have hread : s'.Readable entity_id currency t ex ↔ s.Readable entity_id currency t ex := by
    have hfees := hc.feesReadable entity_id currency ex.transactionId t
    have hloop : s'.LoopReadable entity_id currency t ex ↔ s.LoopReadable entity_id currency t ex := by
      rw [loopReadable_iff_view, loopReadable_iff_view, hview, getPreviousSnapshot_congr h]
    exact ⟨fun hr => ⟨hfees.mp hr.fees, hloop.mp hr.loop⟩,
      fun hr => ⟨hfees.mpr hr.fees, hloop.mpr hr.loop⟩⟩
  have hval : s'.balance entity_id currency t ex inclusive_end =
      s.balance entity_id currency t ex inclusive_end := by
    rw [balance_sub hc h, cashOver_eq_view, cashOver_eq_view, hview]
    ring
  ext x
  rw [getBalanceAtDate_eq_some_iff, getBalanceAtDate_eq_some_iff, hread, hval]

theorem SameCharges.moved (hc : SameCharges s s') : ChargesMoved s s' fun _ _ _ => False where
  step e c a b _ _ _ := by rw [hc.feesUpTo, hc.feesUpTo]
  start e c b _ _ := by rw [hc.feesUpTo]
  readable e c b h := (hc.feesReadable _ _ _ _).mpr h

end Ledger

end FinHub
