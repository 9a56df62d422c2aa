import FinHub.Reconcile.SnapshotRuns

/-!
# FinHub.Reconcile.Undo

A transaction recorded and deleted again.

* `SameTables`: states that differ at most in the next transaction id.
* `SameBooks`: what a user sees of the cash ledger: every balance, the injections, the links and the
  amounts of the snapshot adjustments.
* `Recorded`: the tables after a recording, as the tables before it with new rows at the end. Deleting
  the recorded row drops the new rows and the new link (`Recorded.delete`).
* `deletion_undoes_creation`: deleting gives back the books, but for a top-up: an injection that was
  there already and was raised by the recording keeps its amount.
-/

namespace FinHub

open Tabular

namespace Ledger

variable {s s' s'' : Ledger}

/-! ## States that read alike -/

/-- Only the id of the next transaction may differ. -/
structure SameTables (s s' : Ledger) : Prop where
  rows : s'.transactions.rows = s.transactions.rows
  links : s'.links = s.links
  fees : s'.fees = s.fees
  taxes : s'.taxes = s.taxes
  snapshots : s'.snapshots = s.snapshots
  entities : s'.entities = s.entities
  currencies : s'.currencies = s.currencies

/-- The inferred-cash adjustments. -/
def injections (s : Ledger) : List (ℕ × Transaction) := s.transactions.rows.filter fun r => isInjection r.2

/-- The adjustments of snapshots: id, snapshot and amount. -/
def snapshotAdjustments (s : Ledger) : List (ℕ × ℕ × Option ℚ) :=
  s.transactions.rows.filterMap fun r =>
    if r.2.isAdjustment then r.2.balanceSnapshotId.map fun sid => (r.1, sid, r.2.totalValue) else none

/-- The books of two states say the same. -/
structure SameBooks (s s' : Ledger) : Prop where
  balance : ∀ entity_id currency timestamp, s'.getBalanceAtDate entity_id currency timestamp =
    s.getBalanceAtDate entity_id currency timestamp
  injections : s'.injections = s.injections
  links : s'.links = s.links
  adjustments : s'.snapshotAdjustments = s.snapshotAdjustments

namespace SameTables

theorem refl (s : Ledger) : SameTables s s := ⟨rfl, rfl, rfl, rfl, rfl, rfl, rfl⟩

theorem trans (h : SameTables s s') (h' : SameTables s' s'') : SameTables s s'' :=
  ⟨h'.rows.trans h.rows, h'.links.trans h.links, h'.fees.trans h.fees, h'.taxes.trans h.taxes,
    h'.snapshots.trans h.snapshots, h'.entities.trans h.entities, h'.currencies.trans h.currencies⟩

theorem charges (h : SameTables s s') : SameCharges s s' :=
  .of_rows h.fees h.taxes h.entities h.currencies fun _ _ => by
    rw [getTransaction, getTransaction, Table.get?, Table.get?, h.rows]

theorem getBalanceAtDate (h : SameTables s s') (entity_id : ℕ) (currency : Currency)
    (timestamp : Timestamp) (ex : Exclude) : s'.getBalanceAtDate entity_id currency timestamp ex =
      s.getBalanceAtDate entity_id currency timestamp ex :=
  getBalanceAtDate_congr h.charges (pairSnapshots_congr h.snapshots _ _)
    (by rw [cashView, cashView, h.rows]) true

theorem getNextSnapshot (h : SameTables s s') (entity_id : ℕ) (currency : Currency)
    (timestamp : Timestamp) : s'.getNextSnapshot entity_id currency timestamp =
      s.getNextSnapshot entity_id currency timestamp :=
  getNextSnapshot_congr (pairSnapshots_congr h.snapshots _ _) _

theorem getAdjustmentTransaction (h : SameTables s s') (entity_id : ℕ) (currency : Currency)
    (snapshot_id : ℕ) : s'.getAdjustmentTransaction entity_id currency snapshot_id =
      s.getAdjustmentTransaction entity_id currency snapshot_id := by
  rw [Ledger.getAdjustmentTransaction, Ledger.getAdjustmentTransaction, h.rows]

theorem sameBooks (h : SameTables s s') : SameBooks s s' where
  balance e c t := h.getBalanceAtDate e c t {}
  injections := by rw [Ledger.injections, Ledger.injections, h.rows]
  links := h.links
  adjustments := by rw [snapshotAdjustments, snapshotAdjustments, h.rows]

/-- The same rewrite of one row in both states. -/
theorem modify (h : SameTables s s') (k : ℕ) (f : Transaction → Transaction) :
    SameTables (s.modifyTransaction k f) (s'.modifyTransaction k f) where
  rows := by simp only [modifyTransaction_transactions, Table.modify, h.rows]
  links := h.links
  fees := h.fees
  taxes := h.taxes
  snapshots := h.snapshots
  entities := h.entities
  currencies := h.currencies

end SameTables

theorem SameBooks.trans (h : SameBooks s s') (h' : SameBooks s' s'') : SameBooks s s'' :=
  ⟨fun e c t => (h'.balance e c t).trans (h.balance e c t), h'.injections.trans h.injections,
    h'.links.trans h.links, h'.adjustments.trans h.adjustments⟩

/-! ## A refresh that has an adjustment to write -/

/-- The snapshot after an instant, if there is one, has its adjustment, free of fees and taxes. -/
def AdjustmentThere (s : Ledger) (entity_id : ℕ) (currency : Currency) (timestamp : Timestamp) : Prop :=
  ∀ n, s.getNextSnapshot entity_id currency timestamp = some n →
    ∃ r, s.getAdjustmentTransaction entity_id currency n.1 = some r ∧ ¬ s.Charged r.1

/-- And it holds what a refresh would write. -/
def AdjustmentCurrent (s : Ledger) (entity_id : ℕ) (currency : Currency) (timestamp : Timestamp) :
    Prop :=
  ∀ n, s.getNextSnapshot entity_id currency timestamp = some n →
    ∃ r, s.getAdjustmentTransaction entity_id currency n.1 = some r ∧ ¬ s.Charged r.1 ∧
      ∃ expected, s.getBalanceAtDate entity_id currency n.2.timestamp
          { adjustmentSnapshotId := some n.1 } = some expected ∧
        r.2.totalValue = some (n.2.amount - expected)

instance (s : Ledger) (entity_id : ℕ) (currency : Currency) (timestamp : Timestamp) :
    Decidable (s.AdjustmentCurrent entity_id currency timestamp) :=
  decidable_of_iff (∀ n ∈ (s.getNextSnapshot entity_id currency timestamp).toList,
    ∃ r ∈ (s.getAdjustmentTransaction entity_id currency n.1).toList, ¬ s.Charged r.1 ∧
      ∃ expected ∈ (s.getBalanceAtDate entity_id currency n.2.timestamp
          { adjustmentSnapshotId := some n.1 }).toList,
        r.2.totalValue = some (n.2.amount - expected))
    (by simp only [AdjustmentCurrent, Option.mem_toList])

theorem AdjustmentCurrent.there {entity_id : ℕ} {currency : Currency} {timestamp : Timestamp}
    (h : s.AdjustmentCurrent entity_id currency timestamp) :
    s.AdjustmentThere entity_id currency timestamp := fun n hn =>
  let ⟨r, hr, hc, _⟩ := h n hn
  ⟨r, hr, hc⟩

/-- Rewriting a row that a balance reads the same leaves the balance as it is. -/
theorem getBalanceAtDate_modify {k : ℕ} {f : Transaction → Transaction} {entity_id : ℕ}
    {currency : Currency} {timestamp : Timestamp} {ex : Exclude} (hc : ¬ s.Charged k)
    (hkey : ∀ t, (k, t) ∈ s.transactions.rows →
      cashKey entity_id currency ex (k, f t) = cashKey entity_id currency ex (k, t)) :
    (s.modifyTransaction k f).getBalanceAtDate entity_id currency timestamp ex =
      s.getBalanceAtDate entity_id currency timestamp ex :=
  getBalanceAtDate_congr (.modify fun hch => absurd hch hc) rfl
    (s.transactions.filterMap_modify _ hkey) true

theorem recalculateAdjustments_of_adjustment {entity_id : ℕ} {currency : Currency}
    {timestamp : Timestamp} {n : ℕ × BalanceSnapshot} {r : ℕ × Transaction}
    (hn : s.getNextSnapshot entity_id currency timestamp = some n)
    (hr : s.getAdjustmentTransaction entity_id currency n.1 = some r) :
    s.recalculateAdjustments entity_id currency timestamp =
      (orTypeError (s.getBalanceAtDate entity_id currency n.2.timestamp
        { adjustmentSnapshotId := some n.1 })).map fun expected =>
          s.modifyTransaction r.1
            (withAmount (n.2.amount - expected) (snapshotNotes n.2.timestamp)) := by
  simp only [recalculateAdjustments, setSnapshotAdjustment, hn, hr]
  rfl

/-- The measured balance leaves the own adjustment out, so writing it does not move it. -/
theorem getBalanceAtDate_setOwn {entity_id : ℕ} {currency : Currency} {timestamp : Timestamp}
    {snapshot_id : ℕ} {r : ℕ × Transaction} (amount : ℚ) (notes : String)
    (hr : s.getAdjustmentTransaction entity_id currency snapshot_id = some r) (hc : ¬ s.Charged r.1) :
    (s.modifyTransaction r.1 (withAmount amount notes)).getBalanceAtDate entity_id currency timestamp
        { adjustmentSnapshotId := some snapshot_id } =
      s.getBalanceAtDate entity_id currency timestamp { adjustmentSnapshotId := some snapshot_id } := by
  obtain ⟨hm, -, -, htype, hsid⟩ := getAdjustmentTransaction_eq_some hr
  refine getBalanceAtDate_modify hc fun t ht => ?_
  obtain rfl := s.transactions.unique hm ht
  simp [cashKey, Exclude.keeps, Transaction.isAdjustment, withAmount, htype, hsid]

theorem find?_congr {α : Type} {l : List α} {p q : α → Bool} (h : ∀ a ∈ l, p a = q a) :
    l.find? p = l.find? q := by
  induction l with
  | nil => rfl
  | cons a l ih =>
    rw [List.find?_cons, List.find?_cons, h a List.mem_cons_self,
      ih fun b hb => h b (List.mem_cons_of_mem _ hb)]

/-- A lookup that reads the same from the rewritten row finds the same place. -/
theorem find?_modify {t : Table Transaction} {k : ℕ} {f : Transaction → Transaction}
    {p : ℕ × Transaction → Bool} (hp : ∀ a, (k, a) ∈ t.rows → p (k, f a) = p (k, a)) :
    (t.modify k f).rows.find? p =
      (t.rows.find? p).map fun r => if r.1 = k then (r.1, f r.2) else r := by
  rw [Table.modify, List.find?_map]
  refine congrArg (Option.map _) (find?_congr fun x hx => ?_)
  obtain ⟨j, a⟩ := x
  by_cases hj : j = k
  · subst hj; simp [hp a hx]
  · simp [hj]

theorem getAdjustmentTransaction_modify {entity_id : ℕ} {currency : Currency} {snapshot_id : ℕ}
    {k : ℕ} {r : ℕ × Transaction} (amount : ℚ) (notes : String)
    (hr : s.getAdjustmentTransaction entity_id currency snapshot_id = some r) :
    (s.modifyTransaction k (withAmount amount notes)).getAdjustmentTransaction entity_id currency
      snapshot_id = some (if r.1 = k then (r.1, withAmount amount notes r.2) else r) := by
  refine (find?_modify (f := withAmount amount notes) ?_).trans (congrArg (Option.map _) hr)
  exact fun _ _ => rfl

/-- Writing the amount that is there only touches the notes. -/
theorem sameBooks_setOwn {entity_id : ℕ} {currency : Currency} {snapshot_id : ℕ}
    {r : ℕ × Transaction} {amount : ℚ} (notes : String)
    (hr : s.getAdjustmentTransaction entity_id currency snapshot_id = some r) (hc : ¬ s.Charged r.1)
    (htotal : r.2.totalValue = some amount) :
    SameBooks s (s.modifyTransaction r.1 (withAmount amount notes)) := by
  obtain ⟨hm, -, -, htype, hsid⟩ := getAdjustmentTransaction_eq_some hr
  refine ⟨fun e c t => getBalanceAtDate_modify hc fun t ht => ?_, ?_, rfl, ?_⟩
  · obtain rfl := s.transactions.unique hm ht
    have himpact : (withAmount amount notes r.2).loopImpact = r.2.loopImpact := by
      rw [Transaction.loopImpact_of_isAdjustment htype,
        Transaction.loopImpact_of_isAdjustment (t := withAmount amount notes r.2) htype, htotal]
      rfl
    unfold cashKey
    rw [himpact]
    rfl
  · rw [injections, injections, ← List.filterMap_eq_filter]
    refine s.transactions.filterMap_modify _ fun t ht => ?_
    obtain rfl := s.transactions.unique hm ht
    simp [Option.guard, isInjection, withAmount, hsid]
  · refine s.transactions.filterMap_modify _ fun t ht => ?_
    obtain rfl := s.transactions.unique hm ht
    simp [Transaction.isAdjustment, withAmount, htype, hsid, htotal]

/-! ## The tables after a recording -/

/-- The state `c` is the state `b` with the row of a recording, perhaps after an injection opened
for it, and perhaps a link from an injection to the row. -/
structure Recorded (b c : Ledger) (opened : Option (ℕ × Transaction)) (attached : Option ℕ) (tx_id : ℕ)
    (row : Transaction) : Prop where
  rows : c.transactions.rows = b.transactions.rows ++ opened.toList ++ [(tx_id, row)]
  links : c.links = b.links ++ (attached.map fun a => ⟨a, tx_id⟩).toList
  fees : c.fees = b.fees
  taxes : c.taxes = b.taxes
  snapshots : c.snapshots = b.snapshots
  entities : c.entities = b.entities
  currencies : c.currencies = b.currencies
  schedules : c.schedules = b.schedules
  fresh : b.transactions.next ≤ tx_id
  freshOpened : ∀ r ∈ opened, b.transactions.next ≤ r.1 ∧ r.1 ≠ tx_id

namespace Recorded

variable {b c : Ledger} {opened : Option (ℕ × Transaction)} {attached : Option ℕ} {tx_id : ℕ}
  {row : Transaction}

theorem lt_of_mem {r : ℕ × Transaction} (h : Recorded b c opened attached tx_id row)
    (hr : r ∈ b.transactions.rows) : r.1 < tx_id :=
  lt_of_lt_of_le (b.transactions.bounded r hr) h.fresh

theorem getTransaction (h : Recorded b c opened attached tx_id row) :
    c.getTransaction tx_id = some row :=
  getTransaction_of_mem (by rw [h.rows]; simp)

/-- An older row is rewritten on both sides. -/
theorem modify (h : Recorded b c opened attached tx_id row) {k : ℕ} (hk : k < b.transactions.next)
    (f : Transaction → Transaction) :
    Recorded (b.modifyTransaction k f) (c.modifyTransaction k f) opened attached tx_id row where
  rows := by
    have hopened : (opened.toList.map fun r => if r.1 = k then (r.1, f r.2) else r) =
        opened.toList := by
      refine (List.map_congr_left fun r hr => if_neg ?_).trans (List.map_id _)
      have := (h.freshOpened r (Option.mem_toList.mp hr)).1
      omega
    have hrow : tx_id ≠ k := by have := h.fresh; omega
    simp only [modifyTransaction_transactions, Table.modify, h.rows, List.map_append, hopened,
      List.map_cons, List.map_nil, if_neg hrow]
  links := h.links
  fees := h.fees
  taxes := h.taxes
  snapshots := h.snapshots
  entities := h.entities
  currencies := h.currencies
  schedules := h.schedules
  fresh := h.fresh
  freshOpened := h.freshOpened

/-- No fee, tax or schedule hangs on the fresh row. -/
theorem no_dependents (h : Recorded b c opened attached tx_id row)
    (hsched : ∀ sc ∈ b.schedules.rows, ∀ id ∈ sc.2.linkedTransactionId, id < b.transactions.next) :
    c.transactionHasDependents tx_id = false := by
  have hfresh := h.fresh
  simp only [transactionHasDependents, h.fees, h.taxes, h.schedules, Bool.or_eq_false_iff,
    List.any_eq_false, decide_eq_true_eq]
  refine ⟨⟨fun f hf he => ?_, fun x hx he => ?_⟩, fun sc hsc he => ?_⟩
  · have := b.fees_lt f hf; omega
  · have := b.taxes_lt x hx; omega
  · have := hsched sc hsc tx_id he; omega

/-- Without the row and its link only the opened injection is new. -/
theorem dropRow (h : Recorded b c opened attached tx_id row) :
    ((c.removeLinksForTransaction tx_id).deleteTransaction tx_id).transactions.rows =
      b.transactions.rows ++ opened.toList ∧
    ((c.removeLinksForTransaction tx_id).deleteTransaction tx_id).links = b.links := by
  constructor
  · change c.transactions.rows.filter _ = _
    rw [h.rows, List.filter_append, List.filter_append]
    have hold : b.transactions.rows.filter (fun r => !(r.1 == tx_id)) = b.transactions.rows :=
      List.filter_eq_self.mpr fun r hr => by simpa using ne_of_lt (h.lt_of_mem hr)
    have hopened : opened.toList.filter (fun r => !(r.1 == tx_id)) = opened.toList :=
      List.filter_eq_self.mpr fun r hr => by
        simpa using (h.freshOpened r (Option.mem_toList.mp hr)).2
    rw [hold, hopened]
    simp
  · change c.links.filter _ = _
    rw [h.links, List.filter_append]
    have hold : b.links.filter (fun l => !(decide (l.balanceAdjustmentId = tx_id) ||
        decide (l.linkedTransactionId = tx_id))) = b.links :=
      List.filter_eq_self.mpr fun l hl => by
        obtain ⟨h1, h2⟩ := b.links_lt l hl
        have := h.fresh
        simp only [Bool.not_eq_true', Bool.or_eq_false_iff, decide_eq_false_iff_not]
        omega
    rw [hold]
    cases attached <;> simp

theorem sameTables_of_dropRow {d : Ledger} (h : Recorded b c opened attached tx_id row)
    (hd : d.transactions.rows = b.transactions.rows) (hl : d.links = b.links)
    (hrest : d.fees = c.fees ∧ d.taxes = c.taxes ∧ d.snapshots = c.snapshots ∧
      d.entities = c.entities ∧ d.currencies = c.currencies) : SameTables b d where
  rows := hd
  links := hl
  fees := hrest.1.trans h.fees
  taxes := hrest.2.1.trans h.taxes
  snapshots := hrest.2.2.1.trans h.snapshots
  entities := hrest.2.2.2.1.trans h.entities
  currencies := hrest.2.2.2.2.trans h.currencies

/-- The injection a recorded row hangs on is the only one. -/
theorem mem_attachedInjections (h : Recorded b c opened attached tx_id row) {a : ℕ}
    (ha : a ∈ c.attachedInjections row tx_id) : a ∈ attached := by
  unfold attachedInjections at ha
  split_ifs at ha with hspend
  · obtain ⟨r, hr, rfl⟩ := List.mem_map.mp ha
    have hlink : (⟨r.1, tx_id⟩ : Link) ∈ c.links := by simpa using (List.mem_filter.mp hr).2
    rw [h.links] at hlink
    rcases List.mem_append.mp hlink with hlink | hlink
    · have := (b.links_lt _ hlink).2
      have := h.fresh
      simp only at *
      omega
    · obtain ⟨a', ha', he⟩ := Option.map_eq_some_iff.mp (Option.mem_toList.mp hlink)
      rw [ha', (Link.mk.inj he).1]
      rfl
  · cases ha

/-- Injections that stay linked are not deleted. -/
theorem foldl_deleteInjection_linked {d : Ledger} {adjs : List ℕ}
    (h : ∀ a ∈ adjs, ∃ l ∈ d.links, l.balanceAdjustmentId = a) :
    adjs.foldl deleteInjectionIfUnlinked d = d := by
  induction adjs with
  | nil => rfl
  | cons a adjs ih =>
    have hone : d.deleteInjectionIfUnlinked a = d := by
      rcases d.deleteInjectionIfUnlinked_cases a with he | ⟨-, -, -, hno, -⟩
      · exact he
      · obtain ⟨l, hl, he⟩ := h a List.mem_cons_self
        exact absurd he (hno l hl)
    rw [List.foldl_cons, hone]
    exact ih fun a ha => h a (List.mem_cons_of_mem _ ha)

/-- A deletion takes the recording back: an injection opened for the row goes with it, one that
other rows hold stays. -/
theorem delete (h : Recorded b c opened attached tx_id row)
    (hcase : (opened = none ∧ ∀ a ∈ attached, ∃ l ∈ b.links, l.balanceAdjustmentId = a) ∨
      ∃ j inj, opened = some (j, inj) ∧ isInjection inj = true ∧ attached = some j ∧
        row.type.isSpend = true) :
    SameTables b ((c.attachedInjections row tx_id).foldl deleteInjectionIfUnlinked
      ((c.removeLinksForTransaction tx_id).deleteTransaction tx_id)) := by
  obtain ⟨hrows, hlinks⟩ := h.dropRow
  rcases hcase with ⟨rfl, hheld⟩ | ⟨j, inj, rfl, hi, rfl, hspend⟩
  · rw [foldl_deleteInjection_linked fun a ha => by
      rw [hlinks]; exact hheld a (h.mem_attachedInjections ha)]
    exact h.sameTables_of_dropRow (by simpa using hrows) hlinks ⟨rfl, rfl, rfl, rfl, rfl⟩
  · obtain ⟨hj, hjt⟩ := h.freshOpened (j, inj) rfl
    simp only at hj hjt
    -- The row hangs on the opened injection and on nothing else.
    have hattached : c.attachedInjections row tx_id = [j] := by
      have hlink : ∀ i, (⟨i, tx_id⟩ : Link) ∈ c.links ↔ i = j := by
        intro i
        rw [h.links, List.mem_append]
        constructor
        · rintro (hl | hl)
          · have := (b.links_lt _ hl).2
            have := h.fresh
            simp only at *
            omega
          · simpa using hl
        · rintro rfl
          exact .inr (by simp)
      have hold : b.transactions.rows.filter (fun r => decide (r.1 = j)) = [] :=
        List.filter_eq_nil_iff.mpr fun r hr => by
          have := b.transactions.bounded r hr
          simp only [decide_eq_true_eq]
          omega
      simp only [attachedInjections, hspend, if_true, getAdjustmentsLinkedToTransaction, hlink, h.rows,
        List.filter_append, hold]
      simp [hjt.symm]
    have hmem : (j, inj) ∈ ((c.removeLinksForTransaction tx_id).deleteTransaction tx_id).transactions.rows := by
      rw [hrows]; simp
    have hno : ∀ l ∈ ((c.removeLinksForTransaction tx_id).deleteTransaction tx_id).links,
        l.balanceAdjustmentId ≠ j := by
      intro l hl he
      rw [hlinks] at hl
      have := (b.links_lt l hl).1
      omega
    rw [hattached, List.foldl_cons, List.foldl_nil,
      deleteInjectionIfUnlinked_of_unlinked (getTransaction_of_mem hmem) hi hno]
    refine h.sameTables_of_dropRow ?_ hlinks ⟨rfl, rfl, rfl, rfl, rfl⟩
    change List.filter _ ((c.removeLinksForTransaction tx_id).deleteTransaction tx_id).transactions.rows = _
    rw [hrows, List.filter_append, List.filter_eq_self.mpr fun r hr => ?_]
    · simp
    · have := b.transactions.bounded r hr
      simp only [Bool.not_eq_true', beq_eq_false_iff_ne]
      omega

end Recorded

/-! ## Recording -/

/-- The injection that a spend is attached to, as it stands before the call. -/
def dayInjection (s : Ledger) (body : TransactionCreate) : Option (ℕ × Transaction) :=
  if body.type.isSpend then
    s.getInjectedAdjustmentAt body.entityId body.cashPocket (Time.injectionTs body.timestamp)
  else none

/-- The state with nothing of a recording but what it adds to an injection that was there. -/
def withTopUp (s : Ledger) (body : TransactionCreate) : Ledger :=
  if (s.dayInjection body).isSome then
    match s.ensureCash body body.cashHandling none with
    | .ok s₁ => s₁
    | .error _ => s
  else s

theorem getInjectedAdjustmentAt_insert (t : Transaction) (entity_id : ℕ) (currency : Currency)
    (timestamp : Timestamp) : (s.insertTransaction t).getInjectedAdjustmentAt entity_id currency timestamp =
      (s.getInjectedAdjustmentAt entity_id currency timestamp).or
        (if t.entityId = entity_id ∧ t.currency = currency ∧ isInjection t = true ∧
          t.timestamp = timestamp then some (s.transactions.next, t) else none) := by
  simp only [getInjectedAdjustmentAt, insertTransaction_transactions, Table.insert,
    List.find?_append, List.find?_singleton, Bool.and_eq_true, decide_eq_true_eq, and_assoc]

theorem getInjectedAdjustmentAt_insert_spend {t : Transaction} (h : t.type.isSpend = true)
    (entity_id : ℕ) (currency : Currency) (timestamp : Timestamp) :
    (s.insertTransaction t).getInjectedAdjustmentAt entity_id currency timestamp =
      s.getInjectedAdjustmentAt entity_id currency timestamp := by
  rw [getInjectedAdjustmentAt_insert, if_neg, Option.or_none]
  rintro ⟨-, -, hi, -⟩
  rw [(isInjection_iff.mp hi).1] at h
  cases h

/-- Raising an injection does not change which one is found. -/
theorem getInjectedAdjustmentAt_raise {entity_id : ℕ} {currency : Currency} {timestamp : Timestamp}
    {r : ℕ × Transaction} (amount : ℚ)
    (h : s.getInjectedAdjustmentAt entity_id currency timestamp = some r) :
    (s.modifyTransaction r.1 (withAmount amount injectionNotes)).getInjectedAdjustmentAt entity_id
      currency timestamp = some (r.1, withAmount amount injectionNotes r.2) := by
  obtain ⟨hm, -, -, hi, -⟩ := getInjectedAdjustmentAt_eq_some h
  have hfind : s.transactions.rows.find? (fun r => decide (r.2.entityId = entity_id) &&
      decide (r.2.currency = currency) && isInjection r.2 && decide (r.2.timestamp = timestamp)) =
      some r := h
  refine (find?_modify fun t ht => ?_).trans (by rw [hfind, Option.map_some, if_pos rfl])
  rw [s.transactions.unique ht hm, isInjection_withAmount hi, hi]
  rfl

theorem link_frame (s : Ledger) (a t : ℕ) : (s.linkAdjustmentToTransaction a t).fees = s.fees ∧
    (s.linkAdjustmentToTransaction a t).taxes = s.taxes ∧
    (s.linkAdjustmentToTransaction a t).snapshots = s.snapshots ∧
    (s.linkAdjustmentToTransaction a t).entities = s.entities ∧
    (s.linkAdjustmentToTransaction a t).currencies = s.currencies ∧
    (s.linkAdjustmentToTransaction a t).schedules = s.schedules := by
  unfold linkAdjustmentToTransaction
  split_ifs <;> exact ⟨rfl, rfl, rfl, rfl, rfl, rfl⟩

/-- A link to a row that has none. -/
theorem linkAdjustmentToTransaction_links {a t : ℕ} (ha : a < s.transactions.next)
    (ht : t < s.transactions.next) (hno : ∀ l ∈ s.links, l.linkedTransactionId ≠ t) :
    (s.linkAdjustmentToTransaction a t).links = s.links ++ [⟨a, t⟩] := by
  unfold linkAdjustmentToTransaction
  rw [dif_pos ⟨ha, ht⟩, if_neg fun hm => hno _ hm rfl]

/-- What the insertion of a row and its attachment leave behind. -/
theorem recorded_insert {b s₁ : Ledger} {body : TransactionCreate} {row : Transaction}
    {opened : Option (ℕ × Transaction)} (htype : row.type = body.type)
    (hrows : s₁.transactions.rows = b.transactions.rows ++ opened.toList)
    (hnext : b.transactions.next ≤ s₁.transactions.next) (hlinks : s₁.links = b.links)
    (hopened : ∀ r ∈ opened, b.transactions.next ≤ r.1)
    (hrest : s₁.fees = b.fees ∧ s₁.taxes = b.taxes ∧ s₁.snapshots = b.snapshots ∧
      s₁.entities = b.entities ∧ s₁.currencies = b.currencies ∧ s₁.schedules = b.schedules) :
    Recorded b ((s₁.insertTransaction row).attach body s₁.transactions.next) opened
      ((s₁.dayInjection body).map Prod.fst) s₁.transactions.next row := by
  obtain ⟨h1, h2, h3, h4, h5, h6⟩ := hrest
  have hmem : ∀ r ∈ opened, r ∈ s₁.transactions.rows := fun r hr => by
    rw [hrows]; exact List.mem_append.mpr (.inr (Option.mem_toList.mpr hr))
  have hopened' : ∀ r ∈ opened, b.transactions.next ≤ r.1 ∧ r.1 ≠ s₁.transactions.next :=
    fun r hr => ⟨hopened r hr, ne_of_lt (s₁.transactions.bounded r (hmem r hr))⟩
  have hins : (s₁.insertTransaction row).transactions.rows = b.transactions.rows ++ opened.toList ++
      [(s₁.transactions.next, row)] := by
    rw [← hrows]; rfl
  unfold attach dayInjection
  by_cases hspend : body.type.isSpend = true
  swap
  · rw [if_neg hspend, if_neg hspend]
    exact ⟨hins, by simp [hlinks], h1, h2, h3, h4, h5, h6, hnext, hopened'⟩
  rw [if_pos hspend, if_pos hspend]
  unfold linkInjection
  rw [getInjectedAdjustmentAt_insert_spend (by rw [htype]; exact hspend)]
  cases hinj : s₁.getInjectedAdjustmentAt body.entityId body.cashPocket
      (Time.injectionTs body.timestamp) with
  | none => exact ⟨hins, by simp [hlinks], h1, h2, h3, h4, h5, h6, hnext, hopened'⟩
  | some r =>
    obtain ⟨g1, g2, g3, g4, g5, g6⟩ := (s₁.insertTransaction row).link_frame r.1 s₁.transactions.next
    have hlt := s₁.transactions.bounded r (getInjectedAdjustmentAt_eq_some hinj).1
    have hlink : ((s₁.insertTransaction row).linkAdjustmentToTransaction r.1
        s₁.transactions.next).links = s₁.links ++ [⟨r.1, s₁.transactions.next⟩] := by
      refine linkAdjustmentToTransaction_links (Nat.lt_succ_of_lt hlt) (Nat.lt_succ_self _) ?_
      intro l hl
      exact ne_of_lt (s₁.links_lt l hl).2
    refine ⟨?_, ?_, g1.trans h1, g2.trans h2, g3.trans h3, g4.trans h4, g5.trans h5, g6.trans h6,
      hnext, hopened'⟩
    · rw [linkAdjustmentToTransaction_transactions]
      exact hins
    · rw [hlink, hlinks]
      rfl

/-- A recording, over the state that keeps only its top-up. -/
theorem recorded_of_ensureCash {s₁ : Ledger} {body : TransactionCreate} {row : Transaction}
    (htype : row.type = body.type) (h : s.ensureCash body body.cashHandling none = .ok s₁)
    (hheld : ∀ inj, s.dayInjection body = some inj → ∃ l ∈ s.links, l.balanceAdjustmentId = inj.1) :
    ∃ opened attached, Recorded (s.withTopUp body)
        ((s₁.insertTransaction row).attach body s₁.transactions.next) opened attached
        s₁.transactions.next row ∧
      ((opened = none ∧ ∀ a ∈ attached, ∃ l ∈ (s.withTopUp body).links, l.balanceAdjustmentId = a) ∨
        ∃ j inj, opened = some (j, inj) ∧ isInjection inj = true ∧ attached = some j ∧
          row.type.isSpend = true) := by
  rcases ensureCash_cases h with rfl | ⟨-, needed, -, hspend, -, rfl⟩
  · have hb : s₁.withTopUp body = s₁ := by
      unfold withTopUp; rw [h]; split_ifs <;> rfl
    rw [hb]
    refine ⟨none, _, recorded_insert htype (by simp) le_rfl rfl (by simp) ⟨rfl, rfl, rfl, rfl, rfl, rfl⟩,
      .inl ⟨rfl, fun a ha => ?_⟩⟩
    obtain ⟨inj, hinj, rfl⟩ := Option.map_eq_some_iff.mp ha
    exact hheld inj hinj
  have hday : s.dayInjection body =
      s.getInjectedAdjustmentAt body.entityId body.cashPocket (Time.injectionTs body.timestamp) :=
    if_pos hspend
  rcases s.inject_cases body.entityId body.cashPocket body.timestamp needed with
    ⟨r, hr, he⟩ | ⟨hr, he⟩
  · have hb : s.withTopUp body = s.inject body.entityId body.cashPocket body.timestamp needed := by
      unfold withTopUp; rw [h, hday, hr]; rfl
    rw [hb]
    refine ⟨none, _, recorded_insert htype (by simp) le_rfl rfl (by simp) ⟨rfl, rfl, rfl, rfl, rfl, rfl⟩,
      .inl ⟨rfl, fun a ha => ?_⟩⟩
    obtain ⟨inj, hinj, rfl⟩ := Option.map_eq_some_iff.mp ha
    rw [he, dayInjection, if_pos hspend, getInjectedAdjustmentAt_raise _ hr] at hinj
    rw [he, ← Option.some_inj.mp hinj]
    exact hheld r (hday.trans hr)
  · have hb : s.withTopUp body = s := by
      unfold withTopUp; rw [hday, hr]; rfl
    have hi : isInjection (adjustmentRow body.entityId body.cashPocket needed
        (Time.injectionTs body.timestamp) none injectionNotes) = true :=
      isInjection_iff.mpr ⟨rfl, rfl, likeInferredCash_injectionNotes⟩
    rw [hb, he]
    refine ⟨some (s.transactions.next, _), _, recorded_insert htype rfl (Nat.le_succ _) rfl ?_
      ⟨rfl, rfl, rfl, rfl, rfl, rfl⟩, .inr ⟨_, _, rfl, hi, ?_, by rw [htype]; exact hspend⟩⟩
    · intro r hr'
      rw [← Option.some_inj.mp hr']
    · rw [dayInjection, if_pos hspend, getInjectedAdjustmentAt_insert, hr, if_pos ⟨rfl, rfl, hi, rfl⟩]
      rfl

/-! ## The refreshes of the two calls -/

/-- Where a deletion can take a recording back: its refresh, in the pair of the asset currency, is
the one the recording made, and the injection of the day, if there is one, is held by another row. -/
structure UndoInPlace (s : Ledger) (body : TransactionCreate) : Prop where
  reached : body.type ≠ .balanceAdjustment → body.cashPocket = body.currency ∨
    s.getNextSnapshot body.entityId body.cashPocket body.timestamp = none
  current : body.type ≠ .balanceAdjustment →
    s.AdjustmentCurrent body.entityId body.currency body.timestamp
  held : ∀ inj, s.dayInjection body = some inj → ∃ l ∈ s.links, l.balanceAdjustmentId = inj.1

theorem undoInPlace_iff {body : TransactionCreate} : s.UndoInPlace body ↔
    (body.type ≠ .balanceAdjustment → (body.cashPocket = body.currency ∨
      s.getNextSnapshot body.entityId body.cashPocket body.timestamp = none) ∧
      s.AdjustmentCurrent body.entityId body.currency body.timestamp) ∧
    ∀ inj ∈ (s.dayInjection body).toList, ∃ l ∈ s.links, l.balanceAdjustmentId = inj.1 := by
  simp only [Option.mem_toList]
  exact ⟨fun h => ⟨fun ht => ⟨h.reached ht, h.current ht⟩, h.held⟩,
    fun h => ⟨fun ht => (h.1 ht).1, fun ht => (h.1 ht).2, h.2⟩⟩

instance (s : Ledger) (body : TransactionCreate) : Decidable (s.UndoInPlace body) :=
  decidable_of_iff' _ undoInPlace_iff

/-- The recording adds nothing to an injection that was there. -/
def NoTopUp (s : Ledger) (body : TransactionCreate) : Prop :=
  s.dayInjection body = none ∨ s.ensureCash body body.cashHandling none = .ok s

theorem NoTopUp.withTopUp {body : TransactionCreate} (h : s.NoTopUp body) : s.withTopUp body = s := by
  unfold Ledger.withTopUp
  rcases h with h | h
  · rw [h]; rfl
  · rw [h]; split_ifs <;> rfl

/-- A top-up writes on an injection, which no snapshot owns. -/
theorem withTopUp_cases (s : Ledger) (body : TransactionCreate) : s.withTopUp body = s ∨
    ∃ r amount, r ∈ s.transactions.rows ∧ isInjection r.2 = true ∧
      s.withTopUp body = s.modifyTransaction r.1 (withAmount amount injectionNotes) := by
  unfold withTopUp
  split_ifs with hday
  swap
  · exact .inl rfl
  cases h : s.ensureCash body body.cashHandling none with
  | error e => exact .inl rfl
  | ok s₁ =>
    rcases ensureCash_cases h with rfl | ⟨-, needed, -, hspend, -, rfl⟩
    · exact .inl rfl
    rw [dayInjection, if_pos hspend] at hday
    rcases s.inject_cases body.entityId body.cashPocket body.timestamp needed with
      ⟨r, hr, he⟩ | ⟨hr, -⟩
    · obtain ⟨hm, -, -, hi, -⟩ := getInjectedAdjustmentAt_eq_some hr
      exact .inr ⟨r, _, hm, hi, he⟩
    · rw [hr] at hday; cases hday

theorem AdjustmentThere.withTopUp {body : TransactionCreate} {entity_id : ℕ} {currency : Currency}
    {timestamp : Timestamp} (h : s.AdjustmentThere entity_id currency timestamp) :
    (s.withTopUp body).AdjustmentThere entity_id currency timestamp := by
  rcases s.withTopUp_cases body with he | ⟨r, amount, hm, hi, he⟩ <;> rw [he]
  · exact h
  intro n hn
  obtain ⟨x, hx, hc⟩ := h n hn
  refine ⟨x, ?_, hc⟩
  rw [getAdjustmentTransaction_modify _ _ hx, if_neg]
  intro hk
  obtain ⟨hxm, -, -, -, hsid⟩ := getAdjustmentTransaction_eq_some hx
  obtain ⟨i, x⟩ := x
  rw [show i = r.1 from hk] at hxm
  rw [s.transactions.unique hxm hm, (isInjection_iff.mp hi).2.1] at hsid
  cases hsid

/-- What the refresh of a recording leaves: the row still stands on a state that differs from `b` at
most in the adjustment of the snapshot after it. -/
theorem Recorded.recalculateFor {b c s₁ : Ledger} {body : TransactionCreate}
    {opened : Option (ℕ × Transaction)} {attached : Option ℕ} {tx_id : ℕ} {row : Transaction}
    (h : Recorded b c opened attached tx_id row) (hok : c.recalculateFor body = .ok s₁)
    (hreached : body.type ≠ .balanceAdjustment → body.cashPocket = body.currency ∨
      b.getNextSnapshot body.entityId body.cashPocket body.timestamp = none)
    (hthere : body.type ≠ .balanceAdjustment →
      b.AdjustmentThere body.entityId body.currency body.timestamp) :
    ∃ b₁, Recorded b₁ s₁ opened attached tx_id row ∧ (b₁ = b ∨ (body.type ≠ .balanceAdjustment ∧
      ∃ n r amount, b.getNextSnapshot body.entityId body.currency body.timestamp = some n ∧
        b.getAdjustmentTransaction body.entityId body.currency n.1 = some r ∧ ¬ b.Charged r.1 ∧
        b₁ = b.modifyTransaction r.1 (withAmount amount (snapshotNotes n.2.timestamp)))) := by
  unfold Ledger.recalculateFor at hok
  split_ifs at hok with htype
  · cases hok
    exact ⟨b, h, .inl rfl⟩
  have hnext : c.getNextSnapshot body.entityId body.cashPocket body.timestamp =
      b.getNextSnapshot body.entityId body.cashPocket body.timestamp :=
    getNextSnapshot_congr (pairSnapshots_congr h.snapshots _ _) _
  rcases recalculateAdjustments_cases hok with ⟨-, rfl⟩ | ⟨n, expected, hn, -, rfl⟩
  · exact ⟨b, h, .inl rfl⟩
  rw [hnext] at hn
  have hpocket := (hreached htype).resolve_right (by rw [hn]; exact Option.some_ne_none n)
  rw [hpocket] at hn ⊢
  obtain ⟨r, hr, hc⟩ := hthere htype n hn
  -- The lookup stops at the adjustment before it comes to the new rows.
  have hr' : c.getAdjustmentTransaction body.entityId body.currency n.1 = some r := by
    have hfind := hr
    unfold getAdjustmentTransaction at hfind ⊢
    rw [h.rows, List.append_assoc, List.find?_append, hfind]
    rfl
  refine ⟨_, ?_, .inr ⟨htype, n, r, n.2.amount - expected, hn, hr, hc, rfl⟩⟩
  unfold setSnapshotAdjustment
  rw [hr']
  exact h.modify (b.transactions.bounded r (getAdjustmentTransaction_eq_some hr).1) _

/-- The refresh of the deletion does to `d` what it would do to `b`. -/
theorem refresh_alike {b b₁ d : Ledger} {entity_id : ℕ} {currency : Currency} {timestamp : Timestamp}
    (hthere : b.AdjustmentThere entity_id currency timestamp) (hd : SameTables b₁ d)
    (hb₁ : b₁ = b ∨ ∃ n r amount, b.getNextSnapshot entity_id currency timestamp = some n ∧
      b.getAdjustmentTransaction entity_id currency n.1 = some r ∧ ¬ b.Charged r.1 ∧
      b₁ = b.modifyTransaction r.1 (withAmount amount (snapshotNotes n.2.timestamp))) :
    Except.map (fun _ => ()) (d.recalculateAdjustments entity_id currency timestamp) =
        Except.map (fun _ => ()) (b.recalculateAdjustments entity_id currency timestamp) ∧
      ∀ t s₂, b.recalculateAdjustments entity_id currency timestamp = .ok t →
        d.recalculateAdjustments entity_id currency timestamp = .ok s₂ → SameTables t s₂ := by
  cases hn : b.getNextSnapshot entity_id currency timestamp with
  | none =>
    obtain rfl : b₁ = b := hb₁.resolve_right fun ⟨n, _, _, hn', _⟩ => by rw [hn] at hn'; cases hn'
    have hdn := (hd.getNextSnapshot entity_id currency timestamp).trans hn
    simp only [recalculateAdjustments, hn, hdn]
    refine ⟨rfl, fun t s₂ ht hs => ?_⟩
    cases ht
    cases hs
    exact hd
  | some n =>
    obtain ⟨r, hr, hc⟩ := hthere n hn
    -- The states measure the same balance and write the same row.
    have hboth : ∃ r', d.getNextSnapshot entity_id currency timestamp = some n ∧
        d.getAdjustmentTransaction entity_id currency n.1 = some r' ∧ r'.1 = r.1 ∧
        d.getBalanceAtDate entity_id currency n.2.timestamp { adjustmentSnapshotId := some n.1 } =
          b.getBalanceAtDate entity_id currency n.2.timestamp { adjustmentSnapshotId := some n.1 } ∧
        ∀ v, SameTables (b.modifyTransaction r.1 (withAmount v (snapshotNotes n.2.timestamp)))
          (d.modifyTransaction r.1 (withAmount v (snapshotNotes n.2.timestamp))) := by
      rw [hd.getNextSnapshot, hd.getAdjustmentTransaction, hd.getBalanceAtDate]
      rcases hb₁ with rfl | ⟨n', x, amount, hn', hx, -, rfl⟩
      · exact ⟨r, hn, hr, rfl, rfl, fun v => hd.modify _ _⟩
      obtain rfl : n = n' := by rw [hn] at hn'; exact Option.some_inj.mp hn'
      obtain rfl : r = x := by rw [hr] at hx; exact Option.some_inj.mp hx
      refine ⟨_, hn, getAdjustmentTransaction_modify _ _ hr, by rw [if_pos rfl],
        getBalanceAtDate_setOwn _ _ hr hc, fun v => ?_⟩
      have hover : SameTables (b.modifyTransaction r.1 (withAmount v (snapshotNotes n.2.timestamp)))
          ((b.modifyTransaction r.1 (withAmount amount (snapshotNotes n.2.timestamp))).modifyTransaction
            r.1 (withAmount v (snapshotNotes n.2.timestamp))) := by
        refine ⟨?_, rfl, rfl, rfl, rfl, rfl, rfl⟩
        rw [modifyTransaction_transactions, modifyTransaction_transactions,
          modifyTransaction_transactions, Table.modify_modify]
        rfl
      exact hover.trans (hd.modify _ _)
    obtain ⟨r', hdn, hdr, hid, hbal, hwrite⟩ := hboth
    rw [recalculateAdjustments_of_adjustment hn hr, recalculateAdjustments_of_adjustment hdn hdr,
      hbal, hid]
    cases b.getBalanceAtDate entity_id currency n.2.timestamp { adjustmentSnapshotId := some n.1 } with
    | none => exact ⟨rfl, fun t s₂ ht => by cases ht⟩
    | some expected =>
      refine ⟨rfl, fun t s₂ ht hs => ?_⟩
      cases ht
      cases hs
      exact hwrite _

/-- A refresh of a current adjustment keeps the books. -/
theorem AdjustmentCurrent.refresh {entity_id : ℕ} {currency : Currency} {timestamp : Timestamp}
    (h : s.AdjustmentCurrent entity_id currency timestamp) :
    ∃ t, s.recalculateAdjustments entity_id currency timestamp = .ok t ∧ SameBooks s t := by
  cases hn : s.getNextSnapshot entity_id currency timestamp with
  | none =>
    refine ⟨s, ?_, (SameTables.refl s).sameBooks⟩
    unfold recalculateAdjustments
    rw [hn]
  | some n =>
    obtain ⟨r, hr, hc, expected, hexp, htotal⟩ := h n hn
    refine ⟨_, ?_, sameBooks_setOwn (snapshotNotes n.2.timestamp) hr hc htotal⟩
    rw [recalculateAdjustments_of_adjustment hn hr, hexp]
    rfl

/-- The refresh of a deletion, at the place of the body. -/
def refreshAfterDelete (s : Ledger) (body : TransactionCreate) : Except SvcError Ledger :=
  if body.type = .balanceAdjustment then .ok s
  else s.recalculateAdjustments body.entityId body.currency body.timestamp

/-- A deletion of the recorded row is a refresh of the state under it. -/
theorem Recorded.deleteTransactionSvc {b₁ s₁ : Ledger} {opened : Option (ℕ × Transaction)}
    {attached : Option ℕ} {tx_id : ℕ} {row : Transaction} {body : TransactionCreate}
    (h : Recorded b₁ s₁ opened attached tx_id row)
    (hsched : ∀ sc ∈ b₁.schedules.rows, ∀ id ∈ sc.2.linkedTransactionId, id < b₁.transactions.next)
    (hrow : row.type = body.type ∧ row.entityId = body.entityId ∧ row.currency = body.currency ∧
      row.timestamp = body.timestamp)
    (hcase : (opened = none ∧ ∀ a ∈ attached, ∃ l ∈ b₁.links, l.balanceAdjustmentId = a) ∨
      ∃ j inj, opened = some (j, inj) ∧ isInjection inj = true ∧ attached = some j ∧
        row.type.isSpend = true) :
    ∃ d, SameTables b₁ d ∧ s₁.deleteTransactionSvc tx_id = d.refreshAfterDelete body := by
  obtain ⟨htype, he, hc, ht⟩ := hrow
  refine ⟨_, h.delete hcase, ?_⟩
  unfold Ledger.deleteTransactionSvc refreshAfterDelete
  simp only [h.getTransaction, h.no_dependents hsched, htype, he, hc, ht, attachedInjections]
  rfl

/-- Recording a transaction and deleting it gives back the books, when the recording raised no
injection; a raised one keeps the raise, and the books are those of the state with that raise alone. -/
theorem deletion_undoes_creation {s s₁ : Ledger} {body : TransactionCreate}
    {resp : TransactionResponse}
    (hsched : ∀ sc ∈ s.schedules.rows, ∀ id ∈ sc.2.linkedTransactionId, id < s.transactions.next)
    (hok : s.createTransaction body = .ok (resp, s₁)) (h : s.UndoInPlace (body.resolved s)) :
    (s.NoTopUp (body.resolved s) → ∃ s₂, s₁.deleteTransactionSvc resp.id = .ok s₂ ∧ SameBooks s s₂) ∧
    ∀ s₂, s₁.deleteTransactionSvc resp.id = .ok s₂ → s₂.links = s.links ∧
      ∃ t, (s.withTopUp (body.resolved s)).refreshAfterDelete (body.resolved s) = .ok t ∧
        SameBooks t s₂ := by
  obtain ⟨s₀, hensure, hid, hrow, hrec⟩ := createTransaction_cases hok
  set body := body.resolved s with hbody
  have hmeta : resp.row.type = body.type ∧ resp.row.entityId = body.entityId ∧
      resp.row.currency = body.currency ∧ resp.row.timestamp = body.timestamp := by
    rw [hrow]; exact ⟨rfl, rfl, rfl, rfl⟩
  obtain ⟨opened, attached, hrecorded, hcase⟩ := recorded_of_ensureCash hmeta.1 hensure h.held
  rw [hid] at hrec
  -- The state under the row, before the refresh of the recording.
  set b := s.withTopUp body with hb
  have hframe : b.snapshots = s.snapshots ∧ b.links = s.links ∧ b.schedules = s.schedules ∧
      b.transactions.next = s.transactions.next := by
    rcases s.withTopUp_cases body with he | ⟨r, amount, -, -, he⟩ <;> rw [hb, he]
    · exact ⟨rfl, rfl, rfl, rfl⟩
    · exact ⟨rfl, rfl, rfl, rfl⟩
  have hthere : body.type ≠ .balanceAdjustment →
      b.AdjustmentThere body.entityId body.currency body.timestamp :=
    fun ht => (h.current ht).there.withTopUp
  obtain ⟨b₁, hrecorded₁, hb₁⟩ := hrecorded.recalculateFor hrec (fun ht => by
    rw [getNextSnapshot_congr (pairSnapshots_congr hframe.1 _ _)]; exact h.reached ht) hthere
  have hframe₁ : b₁.links = b.links ∧ b₁.schedules = b.schedules ∧
      b₁.transactions.next = b.transactions.next := by
    rcases hb₁ with rfl | ⟨-, n, r, amount, -, -, -, rfl⟩ <;> exact ⟨rfl, rfl, rfl⟩
  have hcase₁ : (opened = none ∧ ∀ a ∈ attached, ∃ l ∈ b₁.links, l.balanceAdjustmentId = a) ∨
      ∃ j inj, opened = some (j, inj) ∧ isInjection inj = true ∧ attached = some j ∧
        resp.row.type.isSpend = true := by
    rw [hframe₁.1]; exact hcase
  have hsched₁ : ∀ sc ∈ b₁.schedules.rows, ∀ id ∈ sc.2.linkedTransactionId,
      id < b₁.transactions.next := by
    rw [hframe₁.2.1, hframe₁.2.2, hframe.2.2.1, hframe.2.2.2]; exact hsched
  obtain ⟨d, hd, hdel⟩ := hrecorded₁.deleteTransactionSvc hsched₁ hmeta hcase₁
  rw [← hid] at hdel
  rw [hdel]
  unfold refreshAfterDelete
  by_cases htype : body.type = .balanceAdjustment
  · rw [if_pos htype, if_pos htype]
    obtain rfl : b₁ = b := hb₁.resolve_right fun hne => hne.1 htype
    refine ⟨fun hno => ⟨d, rfl, ?_⟩, fun s₂ hs => ⟨?_, b, rfl, ?_⟩⟩
    · rw [hb, hno.withTopUp] at hd
      exact hd.sameBooks
    · rw [← Except.ok.inj hs, hd.links, hframe.2.1]
    · rw [← Except.ok.inj hs]
      exact hd.sameBooks
  rw [if_neg htype, if_neg htype]
  obtain ⟨hsame, htables⟩ := refresh_alike (hthere htype) hd (hb₁.imp_right fun hne => hne.2)
  have hlinks : ∀ t, b.recalculateAdjustments body.entityId body.currency body.timestamp = .ok t →
      t.links = b.links := by
    intro t ht
    rcases recalculateAdjustments_cases ht with ⟨-, rfl⟩ | ⟨n, expected, hn, -, rfl⟩
    · rfl
    · obtain ⟨r, hr, -⟩ := hthere htype n hn
      unfold setSnapshotAdjustment
      rw [hr]
      rfl
  constructor
  · intro hno
    obtain ⟨t, ht, hbooks⟩ := (h.current htype).refresh
    have hbs : b = s := hno.withTopUp
    rw [hbs] at hsame htables
    rw [ht] at hsame
    cases hs : d.recalculateAdjustments body.entityId body.currency body.timestamp with
    | error e => rw [hs] at hsame; cases hsame
    | ok s₂ => exact ⟨s₂, rfl, hbooks.trans (htables t s₂ ht hs).sameBooks⟩
  · intro s₂ hs
    rw [hs] at hsame
    cases ht : b.recalculateAdjustments body.entityId body.currency body.timestamp with
    | error e => rw [ht] at hsame; cases hsame
    | ok t =>
      have hst := htables t s₂ ht hs
      exact ⟨by rw [hst.links, hlinks t ht, hframe.2.1], t, rfl, hst.sameBooks⟩

end Ledger

namespace Sample

/-- A spend of a bank pocket, on day 10. -/
def spendOnDay10 (amount : ℚ) (hour : ℤ) : TransactionCreate :=
  { timestamp := at_ 10 hour, type := .moneyOut, entityId := 0, currency := usd
    totalValue := some amount }

/-- A second spend of a day is recorded and deleted: the injection keeps what it was raised by, and
the pocket ends with 50 where it held nothing. -/
theorem secondSpend_not_undone :
    let before := [LedgerCall.createTransaction (spendOnDay10 100 10)]
    let create := LedgerCall.createTransaction (spendOnDay10 50 12)
    (after before).call create = .ok (after (before ++ [create])) ∧
    (after (before ++ [create])).call (.deleteTransaction 2) =
      .ok (after (before ++ [create] ++ [.deleteTransaction 2])) ∧
    (after before).getBalanceAtDate 0 usd (at_ 11 0) = some 0 ∧
    (after (before ++ [create] ++ [.deleteTransaction 2])).getBalanceAtDate 0 usd (at_ 11 0) = some 50 ∧
    ¬ Ledger.SameBooks (after before) (after (before ++ [create] ++ [.deleteTransaction 2])) := by
  refine ⟨call_after (by decide +kernel), call_after (by decide +kernel), by decide +kernel,
    by decide +kernel, fun h => ?_⟩
  exact absurd (h.balance 0 usd (at_ 11 0)) (by decide +kernel)

/-- A spend between income and a snapshot. -/
def spendOnDay5 : TransactionCreate :=
  { timestamp := at_ 5 9, type := .moneyOut, entityId := 0, currency := eur, totalValue := some 30 }

theorem spendOnDay5_undone : ∃ resp s₁ s₂, (after euroCalls).createTransaction spendOnDay5 = .ok (resp, s₁) ∧
    s₁.deleteTransactionSvc resp.id = .ok s₂ ∧ Ledger.SameBooks (after euroCalls) s₂ := by
  have hcall : (after euroCalls).call (.createTransaction spendOnDay5) =
      .ok (after (euroCalls ++ [.createTransaction spendOnDay5])) := call_after (by decide +kernel)
  obtain ⟨⟨resp, s₁⟩, hok, -⟩ := Runs.map_eq_ok.mp hcall
  obtain ⟨s₂, hdel, hbooks⟩ := (Ledger.deletion_undoes_creation (by decide +kernel) hok
    (by decide +kernel)).1 (.inl (by decide +kernel))
  exact ⟨resp, s₁, s₂, hok, hdel, hbooks⟩

end Sample

end FinHub
