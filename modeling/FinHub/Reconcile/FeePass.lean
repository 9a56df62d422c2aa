import FinHub.Reconcile.Undo

/-!
# FinHub.Reconcile.FeePass

The pass after a fee change, run twice.

The pass measures the main pocket with the day's injection already in it, and writes what it measures
over that injection, or deletes the injection when the pocket is not negative.

* `Refreshed`: a refresh of the next snapshot changes nothing, which is so after every refresh.
* `reconcileFeeInjection_cases`: the last part of the pass, on the balance it measures.
* `feeReconciled_iff`: the pass is settled after one run exactly where the pocket needs no injection.
-/

namespace FinHub

open Tabular

namespace Ledger

variable {s s' : Ledger} {entity_id : ℕ} {currency : Currency} {timestamp : Timestamp}

/-! ## Refreshed adjustments -/

/-- No adjustment carries a fee, a tax or a payment currency. -/
def PlainAdjustments (s : Ledger) : Prop :=
  ∀ r ∈ s.transactions.rows, r.2.type = .balanceAdjustment →
    r.2.paymentCurrency = none ∧ ¬ s.Charged r.1

instance (s : Ledger) : Decidable s.PlainAdjustments :=
  inferInstanceAs (Decidable (∀ r ∈ s.transactions.rows, _))

/-- The adjustment of the snapshot after an instant is the one a refresh would write. -/
def Refreshed (s : Ledger) (entity_id : ℕ) (currency : Currency) (timestamp : Timestamp) : Prop :=
  ∀ n, s.getNextSnapshot entity_id currency timestamp = some n →
    ∃ r expected, s.getAdjustmentTransaction entity_id currency n.1 = some r ∧
      s.getBalanceAtDate entity_id currency n.2.timestamp { adjustmentSnapshotId := some n.1 } =
        some expected ∧
      withAmount (n.2.amount - expected) (snapshotNotes n.2.timestamp) r.2 = r.2

theorem modifyTransaction_eq_self {k : ℕ} {f : Transaction → Transaction}
    (h : ∀ t, (k, t) ∈ s.transactions.rows → f t = t) : s.modifyTransaction k f = s := by
  have ht : (s.modifyTransaction k f).transactions = s.transactions :=
    s.transactions.modify_eq_self h
  unfold modifyTransaction at ht ⊢
  cases s
  simp only at ht
  simp only [ht]

theorem recalculateAdjustments_eq_self_iff :
    s.recalculateAdjustments entity_id currency timestamp = .ok s ↔
      s.Refreshed entity_id currency timestamp := by
  constructor
  · intro hok n hn
    rcases recalculateAdjustments_cases hok with ⟨hnone, -⟩ | ⟨n', expected, hn', hexp, he⟩
    · rw [hn] at hnone
      cases hnone
    obtain rfl : n = n' := Option.some_inj.mp (hn.symm.trans hn')
    rcases setSnapshotAdjustment_cases s entity_id currency n.1 n.2.timestamp
      (n.2.amount - expected) with ⟨r, hr, hset⟩ | ⟨-, hset⟩
    · refine ⟨r, expected, hr, hexp, ?_⟩
      -- The row is in the table as it is and as it is written.
      have hm := (getAdjustmentTransaction_eq_some hr).1
      have hm' : (r.1, withAmount (n.2.amount - expected) (snapshotNotes n.2.timestamp) r.2) ∈
          (s.modifyTransaction r.1
            (withAmount (n.2.amount - expected) (snapshotNotes n.2.timestamp))).transactions.rows :=
        Table.mem_modify.mpr (.inr ⟨rfl, r.2, hm, rfl⟩)
      rw [← hset, ← he] at hm'
      exact s.transactions.unique hm' hm
    · have hnext := congrArg (fun s : Ledger => s.transactions.next) (he.trans hset)
      simp only [insertTransaction_transactions, Table.insert_next] at hnext
      omega
  · intro h
    cases hn : s.getNextSnapshot entity_id currency timestamp with
    | none => simp only [recalculateAdjustments, hn]
    | some n =>
      obtain ⟨r, expected, hr, hexp, hrow⟩ := h n hn
      rw [recalculateAdjustments_of_adjustment hn hr, hexp]
      refine congrArg Except.ok (modifyTransaction_eq_self fun t ht => ?_)
      obtain rfl : t = r.2 := s.transactions.unique ht (getAdjustmentTransaction_eq_some hr).1
      exact hrow

/-- A refresh is settled by what the lookups of the pair answer. -/
theorem Refreshed.congr (h : s.Refreshed entity_id currency timestamp)
    (hsnap : s'.snapshots = s.snapshots)
    (hadj : ∀ id, s'.getAdjustmentTransaction entity_id currency id =
      s.getAdjustmentTransaction entity_id currency id)
    (hbal : ∀ t id, s'.getBalanceAtDate entity_id currency t { adjustmentSnapshotId := some id } =
      s.getBalanceAtDate entity_id currency t { adjustmentSnapshotId := some id }) :
    s'.Refreshed entity_id currency timestamp := by
  intro n hn
  rw [getNextSnapshot_congr (pairSnapshots_congr hsnap _ _)] at hn
  obtain ⟨r, expected, hr, hexp, hrow⟩ := h n hn
  exact ⟨r, expected, (hadj n.1).trans hr, (hbal _ _).trans hexp, hrow⟩

/-- A balance does not read an opened row that is left out or of another pair. -/
theorem getBalanceAtDate_insert {row : Transaction} {ex : Exclude}
    (hkey : cashKey entity_id currency ex (s.transactions.next, row) = none) :
    (s.insertTransaction row).getBalanceAtDate entity_id currency timestamp ex =
      s.getBalanceAtDate entity_id currency timestamp ex := by
  refine getBalanceAtDate_congr (.insert s row) rfl ?_ true
  change (s.transactions.rows ++ [(s.transactions.next, row)]).filterMap _ = _
  rw [List.filterMap_append, List.filterMap_cons, hkey]
  simp [cashView]

theorem getAdjustmentTransaction_insert {row : Transaction} {snapshot_id : ℕ}
    (hr : s.getAdjustmentTransaction entity_id currency snapshot_id = none) :
    (s.insertTransaction row).getAdjustmentTransaction entity_id currency snapshot_id =
      [(s.transactions.next, row)].find? fun r => decide (r.2.entityId = entity_id) &&
        decide (r.2.currency = currency) && r.2.isAdjustment &&
        decide (r.2.balanceSnapshotId = some snapshot_id) := by
  change (s.transactions.rows ++ [(s.transactions.next, row)]).find? _ = _
  rw [List.find?_append]
  unfold getAdjustmentTransaction at hr
  rw [hr]
  rfl

theorem refreshed_of_recalculate (hplain : s.PlainAdjustments)
    (hok : s.recalculateAdjustments entity_id currency timestamp = .ok s') :
    s'.Refreshed entity_id currency timestamp := by
  rcases recalculateAdjustments_cases hok with ⟨hnone, rfl⟩ | ⟨n, expected, hn, hexp, rfl⟩
  · intro n hn
    rw [hnone] at hn
    cases hn
  intro n' hn'
  rcases setSnapshotAdjustment_cases s entity_id currency n.1 n.2.timestamp
    (n.2.amount - expected) with ⟨r, hr, hset⟩ | ⟨hr, hset⟩
  · rw [hset] at hn' ⊢
    obtain rfl : n = n' := Option.some_inj.mp (hn.symm.trans hn')
    obtain ⟨hm, -, -, htype, -⟩ := getAdjustmentTransaction_eq_some hr
    refine ⟨_, expected, getAdjustmentTransaction_modify _ _ hr, ?_, ?_⟩
    · rw [getBalanceAtDate_setOwn _ _ hr (hplain r hm htype).2]
      exact hexp
    · rw [if_pos rfl]
      rfl
  · rw [hset] at hn' ⊢
    obtain rfl : n = n' := Option.some_inj.mp (hn.symm.trans hn')
    refine ⟨(s.transactions.next, adjustmentRow entity_id currency (n.2.amount - expected)
      (s.timezone.adjustmentTimestamp n.2.timestamp) (some n.1) (snapshotNotes n.2.timestamp)),
      expected, (getAdjustmentTransaction_insert hr).trans ?_, ?_, rfl⟩
    · simp [adjustmentRow, Transaction.isAdjustment]
    · rw [getBalanceAtDate_insert (by
        simp [cashKey, Exclude.keeps, adjustmentRow, Transaction.isAdjustment])]
      exact hexp

/-! ## What a refresh leaves alone -/

/-- The injections of a pair at an instant. -/
def injectionsAt (s : Ledger) (entity_id : ℕ) (currency : Currency) (timestamp : Timestamp) :
    List (ℕ × Transaction) :=
  s.transactions.rows.filter fun r => decide (r.2.entityId = entity_id) &&
    decide (r.2.currency = currency) && isInjection r.2 && decide (r.2.timestamp = timestamp)

theorem getInjectedAdjustmentAt_eq_head? : s.getInjectedAdjustmentAt entity_id currency timestamp =
    (s.injectionsAt entity_id currency timestamp).head? :=
  (List.head?_filter ..).symm

/-- What a refresh of one pair keeps. -/
structure RefreshFrame (s s' : Ledger) (entity_id : ℕ) (currency : Currency) : Prop where
  snapshots : s'.snapshots = s.snapshots
  entities : s'.entities = s.entities
  injections : ∀ e c t, s'.injectionsAt e c t = s.injectionsAt e c t
  rows : RowsKept s s'
  plain : s.PlainAdjustments → s'.PlainAdjustments
  adjustment : ∀ e c id, c ≠ currency → s'.getAdjustmentTransaction e c id =
    s.getAdjustmentTransaction e c id
  balance : s.PlainAdjustments → ∀ e c t ex, c ≠ currency →
    s'.getBalanceAtDate e c t ex = s.getBalanceAtDate e c t ex

theorem RefreshFrame.refl (s : Ledger) (entity_id : ℕ) (currency : Currency) :
    RefreshFrame s s entity_id currency :=
  ⟨rfl, rfl, fun _ _ _ => rfl, .refl s, id, fun _ _ _ _ => rfl, fun _ _ _ _ _ _ => rfl⟩

/-- Rewriting the amount of a row keeps a lookup that does not read it. -/
theorem filter_modify_eq {k : ℕ} {t : Transaction} {f : Transaction → Transaction}
    (hm : (k, t) ∈ s.transactions.rows) {p : ℕ × Transaction → Bool} (hp : p (k, t) = false)
    (hp' : p (k, f t) = false) :
    (s.transactions.modify k f).rows.filter p = s.transactions.rows.filter p := by
  rw [← List.filterMap_eq_filter]
  refine s.transactions.filterMap_modify _ fun a ha => ?_
  obtain rfl := s.transactions.unique hm ha
  simp [Option.guard, hp, hp']

/-- And so does a search that passes over it. -/
theorem find?_modify_eq {k : ℕ} {t : Transaction} {f : Transaction → Transaction}
    (hm : (k, t) ∈ s.transactions.rows) {p : ℕ × Transaction → Bool} (hp : p (k, t) = false)
    (hp' : p (k, f t) = false) :
    (s.transactions.modify k f).rows.find? p = s.transactions.rows.find? p := by
  rw [← List.head?_filter, ← List.head?_filter, filter_modify_eq hm hp hp']

theorem RefreshFrame.modify {r : ℕ × Transaction} (hm : r ∈ s.transactions.rows)
    (hcur : r.2.currency = currency) (htype : r.2.type = .balanceAdjustment)
    (hsid : r.2.balanceSnapshotId.isSome) (amount : ℚ) (notes : String) :
    RefreshFrame s (s.modifyTransaction r.1 (withAmount amount notes)) entity_id currency where
  snapshots := rfl
  entities := rfl
  injections e c t := by
    obtain ⟨sid, hsid⟩ := Option.isSome_iff_exists.mp hsid
    refine filter_modify_eq hm ?_ ?_
    · simp [isInjection, hsid]
    · simp [isInjection, withAmount, hsid]
  rows := .modify fun t ht => by
    obtain rfl := s.transactions.unique hm ht
    exact htype
  plain hplain := by
    rintro ⟨j, a⟩ ha hat
    rcases Table.mem_modify.mp ha with ⟨-, ha⟩ | ⟨rfl, b, hb, rfl⟩
    · exact hplain (j, a) ha hat
    · exact hplain (r.1, b) hb hat
  adjustment e c id hc := by
    refine find?_modify_eq hm ?_ ?_
    · simp [hcur, Ne.symm hc]
    · simp [withAmount, hcur, Ne.symm hc]
  balance hplain e c t ex hc := by
    obtain ⟨hpay, hch⟩ := hplain r hm htype
    refine getBalanceAtDate_modify hch fun a ha => ?_
    obtain rfl := s.transactions.unique hm ha
    simp [cashKey, inPair, Transaction.cashPocket, withAmount, hpay, hcur, Ne.symm hc]

theorem RefreshFrame.insert {row : Transaction} (hcur : row.currency = currency)
    (hpay : row.paymentCurrency = none) (hsid : row.balanceSnapshotId.isSome) :
    RefreshFrame s (s.insertTransaction row) entity_id currency where
  snapshots := rfl
  entities := rfl
  injections e c t := by
    obtain ⟨sid, hsid⟩ := Option.isSome_iff_exists.mp hsid
    change (s.transactions.rows ++ [(s.transactions.next, row)]).filter _ = _
    rw [List.filter_append]
    simp [injectionsAt, isInjection, hsid]
  rows r hr _ := Table.mem_insert.mpr (.inl hr)
  plain hplain r hr hat := by
    rcases Table.mem_insert.mp hr with hr | rfl
    · exact hplain r hr hat
    · exact ⟨hpay, fun hch => lt_irrefl _ (Charged.lt (s := s) hch)⟩
  adjustment e c id hc := by
    change (s.transactions.rows ++ [(s.transactions.next, row)]).find? _ = _
    rw [List.find?_append]
    simp [getAdjustmentTransaction, hcur, Ne.symm hc]
  balance _ e c t ex hc := getBalanceAtDate_insert (by
    simp [cashKey, inPair, Transaction.cashPocket, hpay, hcur, Ne.symm hc])

theorem refreshFrame_of_recalculate
    (hok : s.recalculateAdjustments entity_id currency timestamp = .ok s') :
    RefreshFrame s s' entity_id currency := by
  rcases recalculateAdjustments_cases hok with ⟨-, rfl⟩ | ⟨n, expected, -, -, rfl⟩
  · exact .refl _ _ _
  rcases setSnapshotAdjustment_cases s entity_id currency n.1 n.2.timestamp
    (n.2.amount - expected) with ⟨r, hr, hset⟩ | ⟨-, hset⟩
  · obtain ⟨hm, -, hcur, htype, hsid⟩ := getAdjustmentTransaction_eq_some hr
    rw [hset]
    exact .modify hm hcur htype (by rw [hsid]; rfl) _ _
  · rw [hset]
    exact .insert rfl rfl rfl

/-! ## The injection of the pass -/

variable {tx : Transaction} {main : Currency}

/-- The last part of the pass, where no snapshot anchors the pocket. -/
theorem reconcileFeeInjection_cases
    (hanchor : s.anchoredAt tx.entityId main tx.timestamp = false)
    (hok : s.reconcileFeeInjection tx main = .ok s') :
    ∃ balance, s.getBalanceAtDate tx.entityId main tx.timestamp = some balance ∧
      ((0 ≤ balance ∧ s.injectionsAt tx.entityId main (Time.injectionTs tx.timestamp) = [] ∧ s' = s) ∨
        (0 ≤ balance ∧ ∃ r rest, s.injectionsAt tx.entityId main (Time.injectionTs tx.timestamp) =
          r :: rest ∧ s' = s.deleteTransaction r.1) ∨
        (balance < 0 ∧ ∃ r rest, s.injectionsAt tx.entityId main (Time.injectionTs tx.timestamp) =
          r :: rest ∧ s' = s.modifyTransaction r.1 (withAmount (-balance) injectionNotes)) ∨
        (balance < 0 ∧ s.injectionsAt tx.entityId main (Time.injectionTs tx.timestamp) = [] ∧
          s' = s.insertTransaction (adjustmentRow tx.entityId main (-balance)
            (Time.injectionTs tx.timestamp) none injectionNotes))) := by
  unfold reconcileFeeInjection at hok
  rw [if_neg (by rw [hanchor]; exact Bool.false_ne_true), Runs.bind_eq_ok] at hok
  obtain ⟨balance, hb, hok⟩ := hok
  refine ⟨balance, orTypeError_eq_ok.mp hb, ?_⟩
  cases hinj : s.injectionsAt tx.entityId main (Time.injectionTs tx.timestamp) with
  | cons r rest =>
    simp only [getInjectedAdjustmentAt_eq_head?, hinj, List.head?_cons] at hok
    split_ifs at hok with hpos
    · exact .inr (.inl ⟨hpos, r, rest, rfl, (Except.ok.inj hok).symm⟩)
    · exact .inr (.inr (.inl ⟨not_le.mp hpos, r, rest, rfl, (Except.ok.inj hok).symm⟩))
  | nil =>
    simp only [getInjectedAdjustmentAt_eq_head?, hinj, List.head?_nil] at hok
    split_ifs at hok with hpos
    · exact .inl ⟨hpos, rfl, (Except.ok.inj hok).symm⟩
    · refine .inr (.inr (.inr ⟨not_le.mp hpos, rfl, (Except.ok.inj hok).symm.trans ?_⟩))
      -- Both bounds of the query for spends are one day, so it finds none.
      have hnone : ∀ (rows : List (ℕ × Transaction)) (day : Timestamp), rows.filter (fun r =>
          decide (r.2.entityId = tx.entityId) && decide (r.2.currency = main) && r.2.type.isSpend &&
            decide (day ≤ r.2.timestamp) && decide (r.2.timestamp < day)) = [] := by
        intro rows day
        refine List.filter_eq_nil_iff.mpr fun r _ h => ?_
        simp only [Bool.and_eq_true, decide_eq_true_eq] at h
        exact absurd h.1.2 (not_le.mpr h.2)
      rw [hnone]
      rfl

theorem mem_injectionsAt {r : ℕ × Transaction} : r ∈ s.injectionsAt entity_id currency timestamp ↔
    r ∈ s.transactions.rows ∧ r.2.entityId = entity_id ∧ r.2.currency = currency ∧
      isInjection r.2 = true ∧ r.2.timestamp = timestamp := by
  simp only [injectionsAt, List.mem_filter, Bool.and_eq_true, decide_eq_true_eq, and_assoc]

theorem mem_injectionsAt_insert (s : Ledger) (entity_id : ℕ) (currency : Currency)
    (timestamp : Timestamp) (amount : ℚ) : (s.transactions.next,
      adjustmentRow entity_id currency amount timestamp none injectionNotes) ∈
        (s.insertTransaction (adjustmentRow entity_id currency amount timestamp none
          injectionNotes)).injectionsAt entity_id currency timestamp :=
  mem_injectionsAt.mpr ⟨Table.mem_insert.mpr (.inr rfl), rfl, rfl,
    isInjection_iff.mpr ⟨rfl, rfl, likeInferredCash_injectionNotes⟩, rfl⟩

/-- A run that leaves the injections of the day as they are changes nothing. -/
theorem reconcileFeeInjection_eq_self
    (hanchor : s.anchoredAt tx.entityId main tx.timestamp = false)
    (hok : s.reconcileFeeInjection tx main = .ok s')
    (hinj : s'.injectionsAt tx.entityId main (Time.injectionTs tx.timestamp) =
      s.injectionsAt tx.entityId main (Time.injectionTs tx.timestamp)) : s' = s := by
  obtain ⟨balance, -, hcase⟩ := reconcileFeeInjection_cases hanchor hok
  rcases hcase with ⟨-, -, rfl⟩ | ⟨-, r, rest, hr, rfl⟩ | ⟨-, r, rest, hr, rfl⟩ | ⟨-, hnil, rfl⟩
  · rfl
  · have hm : r ∈ s.injectionsAt tx.entityId main (Time.injectionTs tx.timestamp) := by
      rw [hr]
      exact List.mem_cons_self
    rw [← hinj] at hm
    exact absurd rfl (Table.mem_erase.mp (mem_injectionsAt.mp hm).1).2
  · have hm : r ∈ s.injectionsAt tx.entityId main (Time.injectionTs tx.timestamp) := by
      rw [hr]
      exact List.mem_cons_self
    have hold := (mem_injectionsAt.mp hm).1
    rw [← hinj] at hm
    have hnew := (mem_injectionsAt.mp hm).1
    refine modifyTransaction_eq_self fun t ht => ?_
    obtain rfl := s.transactions.unique ht hold
    exact (s.modifyTransaction r.1 _).transactions.unique
      (Table.mem_modify.mpr (.inr ⟨rfl, r.2, hold, rfl⟩)) hnew
  · have hm := mem_injectionsAt_insert s tx.entityId main (Time.injectionTs tx.timestamp) (-balance)
    rw [hinj, hnil] at hm
    cases hm

/-! ## Deleting an injection -/

theorem sameCharges_delete {k : ℕ} (hch : ¬ s.Charged k) : SameCharges s (s.deleteTransaction k) := by
  refine .remove fun x _ hx hch' => hch ?_
  rw [show x.1 = k by simpa using hx] at hch'
  exact hch'

theorem getBalanceAtDate_delete {r : ℕ × Transaction} {ex : Exclude} {b : ℚ}
    (hm : r ∈ s.transactions.rows) (hch : ¬ s.Charged r.1)
    (hb : s.getBalanceAtDate entity_id currency timestamp ex = some b) :
    (s.deleteTransaction r.1).getBalanceAtDate entity_id currency timestamp ex =
      some (b - share entity_id currency ex (s.window entity_id currency true timestamp) r) := by
  obtain ⟨⟨hfees, hloop⟩, hval⟩ := getBalanceAtDate_eq_some_iff.mp hb
  have hc := sameCharges_delete hch
  refine getBalanceAtDate_eq_some_iff.mpr ⟨⟨(hc.feesReadable _ _ _ _).mpr hfees, ?_⟩, ?_⟩
  · intro p hp x hx hpair hkeep h1 h2
    exact hloop p hp x (Table.mem_erase.mp hx).1 hpair hkeep h1 h2
  · rw [balance_sub hc rfl, cashOver_delete (t := r.2) hm, hval]
    ring

theorem PlainAdjustments.delete (hplain : s.PlainAdjustments) (k : ℕ) :
    (s.deleteTransaction k).PlainAdjustments :=
  fun r hr hat => hplain r (Table.mem_erase.mp hr).1 hat

/-- An injection is no adjustment of a snapshot. -/
theorem getAdjustmentTransaction_delete {r : ℕ × Transaction} (hm : r ∈ s.transactions.rows)
    (hinj : isInjection r.2 = true) (snapshot_id : ℕ) :
    (s.deleteTransaction r.1).getAdjustmentTransaction entity_id currency snapshot_id =
      s.getAdjustmentTransaction entity_id currency snapshot_id := by
  change (s.transactions.rows.filter _).find? _ = _
  rw [List.find?_filter]
  refine find?_congr fun x hx => ?_
  by_cases hk : x.1 = r.1
  · obtain rfl : x = r := Prod.ext hk (s.transactions.unique hx (hk ▸ hm))
    simp [(isInjection_iff.mp hinj).2.1]
  · simp [hk]

theorem keeps_injection {r : ℕ × Transaction} (hinj : isInjection r.2 = true) (snapshot_id : ℕ) :
    Exclude.keeps { adjustmentSnapshotId := some snapshot_id } r = true := by
  simp [Exclude.keeps, (isInjection_iff.mp hinj).2.1]

/-- Without an injection a refreshed adjustment stays refreshed exactly if the snapshot did not count
the injection. -/
theorem Refreshed.delete_iff (hplain : s.PlainAdjustments) {r : ℕ × Transaction}
    (hm : r ∈ s.transactions.rows) (hinj : isInjection r.2 = true)
    (h : s.Refreshed entity_id currency timestamp) :
    (s.deleteTransaction r.1).Refreshed entity_id currency timestamp ↔
      ∀ n, s.getNextSnapshot entity_id currency timestamp = some n →
        share entity_id currency {} (s.window entity_id currency true n.2.timestamp) r = 0 := by
  have hch := (hplain r hm (isInjection_iff.mp hinj).1).2
  have hshare : ∀ id p, share entity_id currency { adjustmentSnapshotId := some id } p r =
      share entity_id currency {} p r := by
    intro id p
    unfold share cashMove
    rw [keeps_injection hinj, keeps_default]
  unfold Refreshed
  refine forall₂_congr fun n hn => ?_
  obtain ⟨a, expected, ha, hexp, hrow⟩ := h n hn
  have hexp' := getBalanceAtDate_delete hm hch hexp
  rw [hshare] at hexp'
  constructor
  · rintro ⟨a', expected', ha', hexp'', hrow'⟩
    rw [getAdjustmentTransaction_delete hm hinj, ha] at ha'
    obtain rfl := Option.some_inj.mp ha'
    rw [hexp'] at hexp''
    -- The adjustment holds both amounts.
    have htotal := congrArg Transaction.totalValue (hrow'.trans hrow.symm)
    simp only [withAmount, Option.some_inj] at htotal
    linarith [Option.some_inj.mp hexp'']
  · intro hzero
    rw [hzero, sub_zero] at hexp'
    exact ⟨a, expected, (getAdjustmentTransaction_delete hm hinj n.1).trans ha, hexp', hrow⟩

/-! ## The pass -/

/-- The state in which the pass measures the main pocket. -/
def refreshedFor (s : Ledger) (tx : Transaction) (main : Currency) : Except SvcError Ledger := do
  let s ← s.recalculateAdjustments tx.entityId tx.cashPocket tx.timestamp
  s.recalculateAdjustments tx.entityId main tx.timestamp

/-- The main pocket is not negative at the parent's instant, and no injection of the day is larger than
what the pocket lacks without it. -/
def PocketFunded (s : Ledger) (tx : Transaction) (main : Currency) : Prop :=
  ∃ balance, s.getBalanceAtDate tx.entityId main tx.timestamp = some balance ∧ 0 ≤ balance ∧
    ∀ r ∈ s.injectionsAt tx.entityId main (Time.injectionTs tx.timestamp),
      r.2.totalValue.getD 0 ≤ max 0 (share tx.entityId main {}
        (s.window tx.entityId main true tx.timestamp) r - balance)

/-- A run of the pass after which another changes nothing and the main pocket is funded. -/
structure FeeReconciled (s s' : Ledger) (transaction_id : ℕ) : Prop where
  again : s'.reconcileAfterFeeChange transaction_id = .ok s'
  funded : ∀ tx main, s.getTransaction transaction_id = some tx →
    (s.getEntity tx.entityId).bind Entity.mainCurrency = some main → main ≠ tx.currency →
    s.anchoredAt tx.entityId main tx.timestamp = false → s'.PocketFunded tx main

/-- The main pocket is not negative, with the injection of the day and without it; there is at most one,
and the next snapshot does not count it. -/
structure NeedsNoInjection (s : Ledger) (tx : Transaction) (main : Currency) : Prop where
  balance : ∃ balance, s.getBalanceAtDate tx.entityId main tx.timestamp = some balance ∧ 0 ≤ balance ∧
    ∀ r ∈ s.injectionsAt tx.entityId main (Time.injectionTs tx.timestamp),
      share tx.entityId main {} (s.window tx.entityId main true tx.timestamp) r ≤ balance
  single : (s.injectionsAt tx.entityId main (Time.injectionTs tx.timestamp)).length ≤ 1
  later : ∀ n, s.getNextSnapshot tx.entityId main tx.timestamp = some n →
    ∀ r ∈ s.injectionsAt tx.entityId main (Time.injectionTs tx.timestamp),
      share tx.entityId main {} (s.window tx.entityId main true n.2.timestamp) r = 0

/-- Where the pass runs on an unanchored main pocket, the pocket needs no injection; a parent that is an
adjustment is passed over, its pocket has to be funded already. -/
def FeePassFits (s : Ledger) (transaction_id : ℕ) : Prop :=
  ∀ tx main, s.getTransaction transaction_id = some tx →
    (s.getEntity tx.entityId).bind Entity.mainCurrency = some main → main ≠ tx.currency →
    s.anchoredAt tx.entityId main tx.timestamp = false →
    (tx.type = .balanceAdjustment → s.PocketFunded tx main) ∧
    (tx.type ≠ .balanceAdjustment →
      ∀ s₂, s.refreshedFor tx main = .ok s₂ → s₂.NeedsNoInjection tx main)

/-- What both refreshes keep. -/
structure PassKept (s s' : Ledger) : Prop where
  snapshots : s'.snapshots = s.snapshots
  entities : s'.entities = s.entities
  injections : ∀ e c t, s'.injectionsAt e c t = s.injectionsAt e c t
  rows : RowsKept s s'
  plain : s.PlainAdjustments → s'.PlainAdjustments

theorem passKept_of_refreshedFor (hok : s.refreshedFor tx main = .ok s') : PassKept s s' := by
  obtain ⟨s₁, h₁, h₂⟩ := Runs.bind_eq_ok.mp hok
  have hf₁ := refreshFrame_of_recalculate h₁
  have hf₂ := refreshFrame_of_recalculate h₂
  exact ⟨hf₂.snapshots.trans hf₁.snapshots, hf₂.entities.trans hf₁.entities,
    fun e c t => (hf₂.injections e c t).trans (hf₁.injections e c t), hf₁.rows.trans hf₂.rows,
    fun h => hf₂.plain (hf₁.plain h)⟩

theorem refreshed_of_refreshedFor (hplain : s.PlainAdjustments)
    (hok : s.refreshedFor tx main = .ok s') :
    s'.Refreshed tx.entityId tx.cashPocket tx.timestamp ∧
      s'.Refreshed tx.entityId main tx.timestamp := by
  obtain ⟨s₁, h₁, h₂⟩ := Runs.bind_eq_ok.mp hok
  have hfirst := refreshed_of_recalculate hplain h₁
  have hplain₁ := (refreshFrame_of_recalculate h₁).plain hplain
  have hsecond := refreshed_of_recalculate hplain₁ h₂
  refine ⟨?_, hsecond⟩
  by_cases hpocket : tx.cashPocket = main
  · rw [hpocket]
    exact hsecond
  · have hf := refreshFrame_of_recalculate h₂
    exact hfirst.congr hf.snapshots (fun id => hf.adjustment _ _ id hpocket)
      fun t id => hf.balance hplain₁ _ _ t _ hpocket

theorem refreshedFor_eq_self (h₁ : s.Refreshed tx.entityId tx.cashPocket tx.timestamp)
    (h₂ : s.Refreshed tx.entityId main tx.timestamp) : s.refreshedFor tx main = .ok s :=
  Runs.bind_eq_ok.mpr ⟨s, recalculateAdjustments_eq_self_iff.mpr h₁,
    recalculateAdjustments_eq_self_iff.mpr h₂⟩

/-- The pass of a parent whose entity has another main currency. -/
theorem reconcileAfterFeeChange_of_main {transaction_id : ℕ}
    (hg : s.getTransaction transaction_id = some tx) (htype : tx.type ≠ .balanceAdjustment)
    (hmain : (s.getEntity tx.entityId).bind Entity.mainCurrency = some main)
    (hne : main ≠ tx.currency) : s.reconcileAfterFeeChange transaction_id =
      (s.refreshedFor tx main).bind fun s => s.reconcileFeeInjection tx main := by
  unfold reconcileAfterFeeChange refreshedFor
  simp only [hg, htype, if_false]
  cases h₁ : s.recalculateAdjustments tx.entityId tx.cashPocket tx.timestamp with
  | error e => rfl
  | ok s₁ =>
    have hent : (s₁.getEntity tx.entityId).bind Entity.mainCurrency = some main := by
      rw [getEntity, (refreshFrame_of_recalculate h₁).entities]
      exact hmain
    simp only [bind, Except.bind, hent, hne, if_false]

/-- The pass of a parent whose fees charge its own currency or each their own. -/
theorem reconcileAfterFeeChange_of_no_main {transaction_id : ℕ}
    (hg : s.getTransaction transaction_id = some tx) (htype : tx.type ≠ .balanceAdjustment)
    (hmain : ∀ main, (s.getEntity tx.entityId).bind Entity.mainCurrency = some main →
      main = tx.currency) : s.reconcileAfterFeeChange transaction_id =
      s.recalculateAdjustments tx.entityId tx.cashPocket tx.timestamp := by
  unfold reconcileAfterFeeChange
  simp only [hg, htype, if_false]
  cases h₁ : s.recalculateAdjustments tx.entityId tx.cashPocket tx.timestamp with
  | error e => rfl
  | ok s₁ =>
    have hent : (s₁.getEntity tx.entityId).bind Entity.mainCurrency =
        (s.getEntity tx.entityId).bind Entity.mainCurrency := by
      rw [getEntity, (refreshFrame_of_recalculate h₁).entities]
      rfl
    simp only [bind, Except.bind, hent]
    cases hm : (s.getEntity tx.entityId).bind Entity.mainCurrency with
    | none => rfl
    | some main => simp only [hmain main hm, if_true]

theorem getTransaction_of_rowsKept {transaction_id : ℕ} (h : RowsKept s s')
    (hg : s.getTransaction transaction_id = some tx) (htype : tx.type ≠ .balanceAdjustment) :
    s'.getTransaction transaction_id = some tx :=
  getTransaction_of_mem (h _ (mem_of_getTransaction hg) htype)

theorem anchoredAt_congr (h : s'.snapshots = s.snapshots) :
    s'.anchoredAt entity_id currency timestamp = s.anchoredAt entity_id currency timestamp := by
  rw [anchoredAt, getPreviousSnapshot_congr (pairSnapshots_congr h _ _)]
  rfl

/-- A run of the pass that changes nothing is one of both its parts. -/
theorem again_iff (hanchor : s.anchoredAt tx.entityId main tx.timestamp = false) :
    ((s.refreshedFor tx main).bind fun s => s.reconcileFeeInjection tx main) = .ok s ↔
      s.refreshedFor tx main = .ok s ∧ s.reconcileFeeInjection tx main = .ok s := by
  constructor
  · intro h
    obtain ⟨s₂, h₂, h₃⟩ := Runs.bind_eq_ok.mp h
    have hkept := passKept_of_refreshedFor h₂
    have hanchor₂ : s₂.anchoredAt tx.entityId main tx.timestamp = false :=
      (anchoredAt_congr hkept.snapshots).trans hanchor
    obtain rfl := reconcileFeeInjection_eq_self hanchor₂ h₃ (hkept.injections _ _ _).symm
    exact ⟨h₂, h₃⟩
  · intro ⟨h₂, h₃⟩
    rw [h₂]
    exact h₃

/-- A deleted injection is not among the injections of the day. -/
theorem notMem_injectionsAt_delete {r : ℕ × Transaction} :
    r ∉ (s.deleteTransaction r.1).injectionsAt entity_id currency timestamp := by
  intro hm
  exact (Table.mem_erase.mp (mem_injectionsAt.mp hm).1).2 rfl

theorem injectionsAt_delete {r : ℕ × Transaction} {rest : List (ℕ × Transaction)}
    (hr : s.injectionsAt entity_id currency timestamp = r :: rest) :
    (s.deleteTransaction r.1).injectionsAt entity_id currency timestamp = [] ↔ rest = [] := by
  constructor
  · intro hnil
    rw [List.eq_nil_iff_forall_not_mem]
    intro x hx
    -- The rows stand in the order of their keys, so another injection has another key.
    have hsorted : (s.injectionsAt entity_id currency timestamp).Pairwise fun a b => a.1 < b.1 :=
      s.transactions.sorted.filter _
    rw [hr] at hsorted
    have hlt := (List.pairwise_cons.mp hsorted).1 x hx
    have hm := mem_injectionsAt.mp (hr ▸ List.mem_cons_of_mem r hx :
      x ∈ s.injectionsAt entity_id currency timestamp)
    have hkept : x ∈ (s.deleteTransaction r.1).injectionsAt entity_id currency timestamp :=
      mem_injectionsAt.mpr ⟨Table.mem_erase.mpr ⟨hm.1, hlt.ne'⟩, hm.2⟩
    rw [hnil] at hkept
    cases hkept
  · intro hnil
    rw [List.eq_nil_iff_forall_not_mem]
    intro x hx
    have hm := mem_injectionsAt.mp hx
    have hold : x ∈ s.injectionsAt entity_id currency timestamp :=
      mem_injectionsAt.mpr ⟨(Table.mem_erase.mp hm.1).1, hm.2⟩
    rw [hr, hnil, List.mem_singleton] at hold
    exact notMem_injectionsAt_delete (hold ▸ hx)

/-- A funded pocket that the injection of the pass leaves as it is has none. -/
theorem reconcileFeeInjection_self_iff
    (hanchor : s.anchoredAt tx.entityId main tx.timestamp = false) {balance : ℚ}
    (hb : s.getBalanceAtDate tx.entityId main tx.timestamp = some balance) (hpos : 0 ≤ balance) :
    s.reconcileFeeInjection tx main = .ok s ↔
      s.injectionsAt tx.entityId main (Time.injectionTs tx.timestamp) = [] := by
  constructor
  · intro hok
    obtain ⟨balance', hb', hcase⟩ := reconcileFeeInjection_cases hanchor hok
    obtain rfl : balance = balance' := Option.some_inj.mp (hb.symm.trans hb')
    rcases hcase with ⟨-, hnil, -⟩ | ⟨-, r, rest, hr, he⟩ | ⟨hneg, -⟩ | ⟨hneg, -⟩
    · exact hnil
    · have hm : r ∈ s.injectionsAt tx.entityId main (Time.injectionTs tx.timestamp) := by
        rw [hr]
        exact List.mem_cons_self
      rw [he] at hm
      exact absurd hm notMem_injectionsAt_delete
    · exact absurd hpos (not_le.mpr hneg)
    · exact absurd hpos (not_le.mpr hneg)
  · intro hnil
    have hnone : s.getInjectedAdjustmentAt tx.entityId main (Time.injectionTs tx.timestamp) = none := by
      rw [getInjectedAdjustmentAt_eq_head?, hnil]
      rfl
    unfold reconcileFeeInjection
    rw [if_neg (by rw [hanchor]; exact Bool.false_ne_true), Runs.bind_eq_ok]
    refine ⟨balance, orTypeError_eq_ok.mpr hb, ?_⟩
    simp only [hnone, hpos, if_true]

/-- The last part of the pass leaves a pocket as it is, and funded, exactly if the pocket is not negative
and has no injection of the day. -/
theorem pocketFunded_iff (hanchor : s.anchoredAt tx.entityId main tx.timestamp = false) :
    (s.reconcileFeeInjection tx main = .ok s ∧ s.PocketFunded tx main) ↔
      (∃ balance, s.getBalanceAtDate tx.entityId main tx.timestamp = some balance ∧ 0 ≤ balance) ∧
        s.injectionsAt tx.entityId main (Time.injectionTs tx.timestamp) = [] := by
  constructor
  · intro ⟨hok, balance, hb, hpos, _⟩
    exact ⟨⟨balance, hb, hpos⟩, (reconcileFeeInjection_self_iff hanchor hb hpos).mp hok⟩
  · intro ⟨⟨balance, hb, hpos⟩, hnil⟩
    refine ⟨(reconcileFeeInjection_self_iff hanchor hb hpos).mpr hnil, balance, hb, hpos, ?_⟩
    intro r hr
    rw [hnil] at hr
    cases hr

/-- One injection of the day, deleted from a pocket that is not negative. -/
theorem needsNoInjection_iff_of_cons {r : ℕ × Transaction} {rest : List (ℕ × Transaction)}
    (hplain : s.PlainAdjustments) (hpocket : s.Refreshed tx.entityId tx.cashPocket tx.timestamp)
    (hrefreshed : s.Refreshed tx.entityId main tx.timestamp) {balance : ℚ}
    (hb : s.getBalanceAtDate tx.entityId main tx.timestamp = some balance) (hpos : 0 ≤ balance)
    (hr : s.injectionsAt tx.entityId main (Time.injectionTs tx.timestamp) = r :: rest) :
    ((s.deleteTransaction r.1).refreshedFor tx main = .ok (s.deleteTransaction r.1) ∧
      (∃ balance, (s.deleteTransaction r.1).getBalanceAtDate tx.entityId main tx.timestamp =
        some balance ∧ 0 ≤ balance) ∧
      (s.deleteTransaction r.1).injectionsAt tx.entityId main (Time.injectionTs tx.timestamp) = []) ↔
      s.NeedsNoInjection tx main := by
  have hmem : r ∈ s.injectionsAt tx.entityId main (Time.injectionTs tx.timestamp) := by
    rw [hr]
    exact List.mem_cons_self
  obtain ⟨hm, -, hcur, hinj, -⟩ := mem_injectionsAt.mp hmem
  obtain ⟨hpay, hch⟩ := hplain r hm (isInjection_iff.mp hinj).1
  have hb' := getBalanceAtDate_delete hm hch hb
  -- Only the main pocket counts the injection.
  have hpocket' : tx.cashPocket ≠ main →
      (s.deleteTransaction r.1).Refreshed tx.entityId tx.cashPocket tx.timestamp := by
    intro hne
    refine (hpocket.delete_iff hplain hm hinj).mpr fun n _ => ?_
    have hcash : r.2.cashPocket = main := by simp [Transaction.cashPocket, hpay, hcur]
    simp [share, cashMove, inPair, hcash, Ne.symm hne]
  constructor
  · intro hdeleted
    obtain ⟨hagain, ⟨b, hb₂, hpos₂⟩, hnil⟩ := hdeleted
    obtain rfl := (injectionsAt_delete hr).mp hnil
    have hlater := (hrefreshed.delete_iff hplain hm hinj).mp
      (refreshed_of_refreshedFor (hplain.delete r.1) hagain).2
    rw [hb', Option.some_inj] at hb₂
    refine ⟨⟨balance, hb, hpos, ?_⟩, by rw [hr]; rfl, ?_⟩
    · intro x hx
      rw [hr, List.mem_singleton] at hx
      rw [hx]
      linarith
    · intro n hn x hx
      rw [hr, List.mem_singleton] at hx
      rw [hx]
      exact hlater n hn
  · intro hneeds
    obtain ⟨b, hb₂, -, hle⟩ := hneeds.balance
    obtain rfl : balance = b := Option.some_inj.mp (hb.symm.trans hb₂)
    have hrest : rest = [] := by
      have hlen := hneeds.single
      rw [hr, List.length_cons] at hlen
      exact List.eq_nil_of_length_eq_zero (by omega)
    have hmain := (hrefreshed.delete_iff hplain hm hinj).mpr fun n hn => hneeds.later n hn r hmem
    refine ⟨refreshedFor_eq_self ?_ hmain, ⟨_, hb', by linarith [hle r hmem]⟩,
      (injectionsAt_delete hr).mpr hrest⟩
    by_cases hne : tx.cashPocket = main
    · rw [hne]
      exact hmain
    · exact hpocket' hne

/-- Where the last part of the pass injects, or keeps an injection, another run does not leave the pocket
as it is and funded. -/
theorem not_settled_of_mem (hanchor : s.anchoredAt tx.entityId main tx.timestamp = false)
    {r : ℕ × Transaction}
    (hr : r ∈ s.injectionsAt tx.entityId main (Time.injectionTs tx.timestamp)) :
    ¬ (s.reconcileFeeInjection tx main = .ok s ∧ s.PocketFunded tx main) := by
  intro h
  have hnil := ((pocketFunded_iff hanchor).mp h).2
  rw [hnil] at hr
  cases hr

/-- The last part of the pass, from a state where both refreshes are settled. -/
theorem feeInjection_iff (hplain : s.PlainAdjustments)
    (hpocket : s.Refreshed tx.entityId tx.cashPocket tx.timestamp)
    (hrefreshed : s.Refreshed tx.entityId main tx.timestamp)
    (hanchor : s.anchoredAt tx.entityId main tx.timestamp = false)
    (hok : s.reconcileFeeInjection tx main = .ok s') :
    (s'.refreshedFor tx main = .ok s' ∧ s'.reconcileFeeInjection tx main = .ok s' ∧
      s'.PocketFunded tx main) ↔ s.NeedsNoInjection tx main := by
  obtain ⟨balance, hb, hcase⟩ := reconcileFeeInjection_cases hanchor hok
  rcases hcase with ⟨hpos, hnil, rfl⟩ | ⟨hpos, r, rest, hr, rfl⟩ | ⟨hneg, r, rest, hr, rfl⟩ |
    ⟨hneg, hnil, rfl⟩
  · refine iff_of_true ⟨refreshedFor_eq_self hpocket hrefreshed,
      (pocketFunded_iff hanchor).mpr ⟨⟨balance, hb, hpos⟩, hnil⟩⟩ ⟨⟨balance, hb, hpos, ?_⟩, ?_, ?_⟩
    · simp [hnil]
    · simp [hnil]
    · simp [hnil]
  · rw [pocketFunded_iff (s := s.deleteTransaction r.1) hanchor]
    exact needsNoInjection_iff_of_cons hplain hpocket hrefreshed hb hpos hr
  · -- The injection that is refreshed is still there.
    have hmem : r ∈ s.injectionsAt tx.entityId main (Time.injectionTs tx.timestamp) := by
      rw [hr]
      exact List.mem_cons_self
    obtain ⟨hm, hent, hcur, hinj, hts⟩ := mem_injectionsAt.mp hmem
    refine iff_of_false (fun h => not_settled_of_mem (s := s.modifyTransaction r.1 _) hanchor
      (mem_injectionsAt.mpr ⟨Table.mem_modify.mpr (.inr ⟨rfl, r.2, hm, rfl⟩), hent, hcur, ?_, hts⟩)
      h.2) fun hneeds => ?_
    · rw [isInjection_iff] at hinj ⊢
      exact ⟨hinj.1, hinj.2.1, likeInferredCash_injectionNotes⟩
    · obtain ⟨b, hb₂, hpos, -⟩ := hneeds.balance
      rw [hb, Option.some_inj] at hb₂
      linarith
  · refine iff_of_false (fun h => not_settled_of_mem (s := s.insertTransaction _) hanchor
      (mem_injectionsAt_insert s tx.entityId main (Time.injectionTs tx.timestamp) (-balance)) h.2)
      fun hneeds => ?_
    · obtain ⟨b, hb₂, hpos, -⟩ := hneeds.balance
      rw [hb, Option.some_inj] at hb₂
      linarith

/-- The last part of the pass writes injections only. -/
theorem rowsKept_of_feeInjection (hanchor : s.anchoredAt tx.entityId main tx.timestamp = false)
    (hok : s.reconcileFeeInjection tx main = .ok s') : RowsKept s s' ∧
      s'.snapshots = s.snapshots ∧ s'.entities = s.entities := by
  obtain ⟨balance, -, hcase⟩ := reconcileFeeInjection_cases hanchor hok
  have htype : ∀ r ∈ s.injectionsAt tx.entityId main (Time.injectionTs tx.timestamp),
      r ∈ s.transactions.rows ∧ r.2.type = .balanceAdjustment := by
    intro r hr
    have hm := mem_injectionsAt.mp hr
    exact ⟨hm.1, (isInjection_iff.mp hm.2.2.2.1).1⟩
  rcases hcase with ⟨-, -, rfl⟩ | ⟨-, r, rest, hr, rfl⟩ | ⟨-, r, rest, hr, rfl⟩ | ⟨-, -, rfl⟩
  · exact ⟨.refl _, rfl, rfl⟩
  · obtain ⟨hm, hat⟩ := htype r (by rw [hr]; exact List.mem_cons_self)
    refine ⟨fun x hx hxt => Table.mem_erase.mpr ⟨hx, fun hk => hxt ?_⟩, rfl, rfl⟩
    obtain ⟨k, t⟩ := x
    obtain rfl : k = r.1 := hk
    rw [s.transactions.unique hx hm]
    exact hat
  · obtain ⟨hm, hat⟩ := htype r (by rw [hr]; exact List.mem_cons_self)
    refine ⟨.modify fun t ht => ?_, rfl, rfl⟩
    rw [s.transactions.unique ht hm]
    exact hat
  · exact ⟨fun x hx _ => Table.mem_insert.mpr (.inl hx), rfl, rfl⟩

/-- A pass over a parent whose fees charge its own pocket, or each their own currency, is settled. -/
theorem again_of_no_main {transaction_id : ℕ} (hplain : s.PlainAdjustments)
    (hg : s.getTransaction transaction_id = some tx) (htype : tx.type ≠ .balanceAdjustment)
    (hmain : ∀ main, (s.getEntity tx.entityId).bind Entity.mainCurrency = some main →
      main = tx.currency) (hok : s.reconcileAfterFeeChange transaction_id = .ok s') :
    s'.reconcileAfterFeeChange transaction_id = .ok s' := by
  rw [reconcileAfterFeeChange_of_no_main hg htype hmain] at hok
  have hf := refreshFrame_of_recalculate hok
  rw [reconcileAfterFeeChange_of_no_main (getTransaction_of_rowsKept hf.rows hg htype) htype
    (by rw [getEntity, hf.entities]; exact hmain)]
  exact recalculateAdjustments_eq_self_iff.mpr (refreshed_of_recalculate hplain hok)

end Ledger

namespace Sample

def feeInDollars (transactionId : ℕ) : TransactionFee :=
  { transactionId, nature := .fixed, currency := usd, fixedAmount := 10 }

/-- The state after a run of the pass that does not raise. -/
def passed (s : Ledger) (transaction_id : ℕ) : Ledger :=
  match s.reconcileAfterFeeChange transaction_id with
  | .ok s => s
  | .error _ => s

theorem pass_eq {s : Ledger} {transaction_id : ℕ}
    (h : (s.reconcileAfterFeeChange transaction_id).isOk = true) :
    s.reconcileAfterFeeChange transaction_id = .ok (passed s transaction_id) := by
  cases hrun : s.reconcileAfterFeeChange transaction_id with
  | ok s' => rw [passed, hrun]
  | error e =>
    rw [hrun] at h
    cases h

/-- A fee in dollars on an income in euros, at a broker that holds no dollars: the injection of the fee
is there. -/
def unfundedFee : List LedgerCall := [income 1 eur 100 (at_ 5 9), .createFee (feeInDollars 0)]

/-- The balance of the main pocket after one run. -/
example : (passed (after unfundedFee) 0).getBalanceAtDate 1 usd (at_ 5 9) = some (-10) := by
  decide +kernel

/-- The same fee at a broker that has received dollars before. -/
def fundedFee : List LedgerCall :=
  [income 1 usd 100 (at_ 1 9), income 1 eur 100 (at_ 5 9), .createFee (feeInDollars 1)]

def fundedParent : Transaction where
  timestamp := at_ 5 9
  type := .income
  entityId := 1
  currency := eur
  totalValue := some 100

end Sample

end FinHub
