import FinHub.Reconcile.SpendFunded

/-!
# FinHub.Reconcile.Resave

A transaction that is saved again as it is stored.

The edit detaches a spend from its injection, recomputes the injection from the other spends of the
day and tops it up by what the spend then lacks.

* `ReadsAlike`: states whose rows differ in nothing that a balance or a fee reads.
* `NextCurrent`: the adjustment of the next snapshot holds what a refresh writes.
* `InjectionKept`: the detour of a spend ends where it began.
* `resave_iff`: saving leaves the books unchanged exactly under these two.
-/

namespace FinHub

open Tabular

/-- What balances and fees read of a row; its cash amount in place of the gross one. -/
def Transaction.core (t : Transaction) : Transaction :=
  { t with
    quantity := none
    unitPrice := none
    grossAmount := t.cashAmount
    netAmount := none
    fxRate := none
    fiscalRule := none
    notes := none }

/-- A body equal to the row, `cash_handling` omitted. -/
def Transaction.toBody (t : Transaction) : TransactionCreate where
  timestamp := t.timestamp
  type := t.type
  entityId := t.entityId
  currency := t.currency
  investmentTransactionCategory := t.investmentTransactionCategory
  incomeCategory := t.incomeCategory
  portfolioAssetId := t.portfolioAssetId
  quantity := t.quantity
  unitPrice := t.unitPrice
  totalValue := t.totalValue
  grossAmount := t.grossAmount
  netAmount := t.netAmount
  paymentCurrency := t.paymentCurrency
  fxRate := t.fxRate
  settlementDate := t.settlementDate
  fiscalExemptionId := t.fiscalExemptionId
  dividendType := t.dividendType
  recordDate := t.recordDate
  paymentDate := t.paymentDate
  dividendCurrency := t.dividendCurrency
  dividendPaymentCurrency := t.dividendPaymentCurrency
  dividendFxRate := t.dividendFxRate
  notes := t.notes

namespace Transaction

theorem core_cashAmount (t : Transaction) : t.core.cashAmount = t.cashAmount := by
  change (t.grossAmount.or t.totalValue).or t.totalValue = t.grossAmount.or t.totalValue
  cases t.grossAmount with
  | some gross => rfl
  | none => cases t.totalValue <;> rfl

theorem core_loopImpact (t : Transaction) : t.core.loopImpact = t.loopImpact := by
  unfold loopImpact
  rw [core_cashAmount]
  rfl

/-- Writing the amount that is there only touches the note. -/
theorem core_withAmount_self {t : Transaction} {amount : ℚ} (h : t.totalValue = some amount)
    (notes : String) : (withAmount amount notes t).core = t.core := by
  unfold core cashAmount withAmount
  rw [h]

/-- Rows with one core agree in every field that a core keeps. -/
theorem eq_of_core {α : Type} {t t' : Transaction} (h : t'.core = t.core) (f : Transaction → α)
    (hf : ∀ t, f t.core = f t) : f t' = f t := by
  rw [← hf t', h, hf t]

end Transaction

namespace Ledger

variable {s s' s'' : Ledger} {entity_id : ℕ} {currency : Currency} {timestamp : Timestamp}

/-! ## States that read alike -/

def coreRow (r : ℕ × Transaction) : ℕ × Transaction := (r.1, r.2.core)

/-- The rows of two states agree in all that balances and fees read. -/
structure ReadsAlike (s s' : Ledger) : Prop where
  rows : s'.transactions.rows.map coreRow = s.transactions.rows.map coreRow
  fees : s'.fees = s.fees
  taxes : s'.taxes = s.taxes
  snapshots : s'.snapshots = s.snapshots
  entities : s'.entities = s.entities
  currencies : s'.currencies = s.currencies

theorem cashKey_coreRow {ex : Exclude} (r : ℕ × Transaction) :
    cashKey entity_id currency ex (coreRow r) = cashKey entity_id currency ex r := by
  unfold cashKey coreRow
  rw [Transaction.core_loopImpact]
  rfl

namespace ReadsAlike

theorem refl (s : Ledger) : ReadsAlike s s := ⟨rfl, rfl, rfl, rfl, rfl, rfl⟩

theorem symm (h : ReadsAlike s s') : ReadsAlike s' s :=
  ⟨h.rows.symm, h.fees.symm, h.taxes.symm, h.snapshots.symm, h.entities.symm, h.currencies.symm⟩

theorem trans (h : ReadsAlike s s') (h' : ReadsAlike s' s'') : ReadsAlike s s'' :=
  ⟨h'.rows.trans h.rows, h'.fees.trans h.fees, h'.taxes.trans h.taxes, h'.snapshots.trans h.snapshots,
    h'.entities.trans h.entities, h'.currencies.trans h.currencies⟩

/-- A reading of the rows that only needs their cores. -/
theorem filterMap_rows {α : Type} (h : ReadsAlike s s') (g : ℕ × Transaction → Option α)
    (hg : ∀ r, g (coreRow r) = g r) :
    s'.transactions.rows.filterMap g = s.transactions.rows.filterMap g := by
  have hcore : ∀ rows : List (ℕ × Transaction), rows.filterMap g = (rows.map coreRow).filterMap g := by
    intro rows
    rw [List.filterMap_map]
    exact List.filterMap_congr fun r _ => (hg r).symm
  rw [hcore, h.rows, ← hcore]

theorem find?_rows (h : ReadsAlike s s') (p : ℕ × Transaction → Bool) (hp : ∀ r, p (coreRow r) = p r) :
    (s'.transactions.rows.find? p).map coreRow = (s.transactions.rows.find? p).map coreRow := by
  have hcore : ∀ rows : List (ℕ × Transaction), (rows.find? p).map coreRow =
      (rows.map coreRow).find? p := by
    intro rows
    rw [List.find?_map]
    exact congrArg (Option.map coreRow) (find?_congr fun r _ => (hp r).symm)
  rw [hcore, h.rows, ← hcore]

theorem charges (h : ReadsAlike s s') : SameCharges s s' := by
  refine ⟨h.fees, h.taxes, h.entities, h.currencies, fun id _ => ?_⟩
  have hrow := h.find?_rows (fun r => r.1 == id) fun _ => rfl
  unfold getTransaction Table.get?
  revert hrow
  generalize s.transactions.rows.find? (fun r => r.1 == id) = o
  generalize s'.transactions.rows.find? (fun r => r.1 == id) = o'
  intro hrow
  cases o with
  | none =>
    cases o' with
    | none => exact .none
    | some r' => cases hrow
  | some r =>
    cases o' with
    | none => cases hrow
    | some r' =>
      have hcore : r'.2.core = r.2.core := congrArg Prod.snd (Option.some_inj.mp hrow)
      refine .some ⟨Transaction.eq_of_core hcore Transaction.entityId fun _ => rfl,
        Transaction.eq_of_core hcore Transaction.timestamp fun _ => rfl, fun f _ _ => ?_⟩
      rw [Transaction.eq_of_core hcore Transaction.totalValue fun _ => rfl]

theorem getBalanceAtDate (h : ReadsAlike s s') (entity_id : ℕ) (currency : Currency)
    (timestamp : Timestamp) (ex : Exclude) (inclusive_end : Bool) :
    s'.getBalanceAtDate entity_id currency timestamp ex inclusive_end =
      s.getBalanceAtDate entity_id currency timestamp ex inclusive_end :=
  getBalanceAtDate_congr h.charges (pairSnapshots_congr h.snapshots _ _)
    (h.filterMap_rows _ cashKey_coreRow) inclusive_end

theorem cashNeeded (h : ReadsAlike s s') (entity_id : ℕ) (currency : Currency) (timestamp : Timestamp)
    (total_value : ℚ) (mode : Option BalanceMode) (ex : Option ℕ) :
    s'.cashNeeded entity_id currency timestamp total_value mode ex =
      s.cashNeeded entity_id currency timestamp total_value mode ex := by
  unfold Ledger.cashNeeded anchoredAt
  rw [h.getBalanceAtDate, getPreviousSnapshot_congr (pairSnapshots_congr h.snapshots _ _)]

theorem snapshotAdjustments (h : ReadsAlike s s') : s'.snapshotAdjustments = s.snapshotAdjustments :=
  h.filterMap_rows _ fun _ => rfl

/-- A row may change outside of its core. -/
theorem modify {k : ℕ} {f : Transaction → Transaction}
    (hf : ∀ t, (k, t) ∈ s.transactions.rows → (f t).core = t.core) :
    ReadsAlike s (s.modifyTransaction k f) := by
  refine ⟨?_, rfl, rfl, rfl, rfl, rfl⟩
  rw [← List.filterMap_eq_map]
  refine s.transactions.filterMap_modify _ fun t ht => ?_
  exact congrArg (fun t => some (k, t)) (hf t ht)

theorem of_rows (h : s'.transactions = s.transactions) (hfees : s'.fees = s.fees)
    (htaxes : s'.taxes = s.taxes) (hsnap : s'.snapshots = s.snapshots)
    (hent : s'.entities = s.entities) (hcur : s'.currencies = s.currencies) : ReadsAlike s s' :=
  ⟨by rw [h], hfees, htaxes, hsnap, hent, hcur⟩

theorem link (s : Ledger) (a t : ℕ) : ReadsAlike s (s.linkAdjustmentToTransaction a t) := by
  obtain ⟨h1, h2, h3, h4, h5, -⟩ := s.link_frame a t
  exact .of_rows (s.linkAdjustmentToTransaction_transactions a t) h1 h2 h3 h4 h5

end ReadsAlike

/-! ## The next adjustment -/

/-- The adjustment of the next snapshot, if there is one, is there and holds what a refresh writes. -/
def NextCurrent (s : Ledger) (entity_id : ℕ) (currency : Currency) (timestamp : Timestamp) : Prop :=
  ∀ n, s.getNextSnapshot entity_id currency timestamp = some n →
    ∃ r expected, s.getAdjustmentTransaction entity_id currency n.1 = some r ∧
      s.getBalanceAtDate entity_id currency n.2.timestamp { adjustmentSnapshotId := some n.1 } =
        some expected ∧
      r.2.totalValue = some (n.2.amount - expected)

theorem NextCurrent.congr (h : s.NextCurrent entity_id currency timestamp) (hs : ReadsAlike s s') :
    s'.NextCurrent entity_id currency timestamp := by
  intro n hn
  rw [getNextSnapshot_congr (pairSnapshots_congr hs.snapshots _ _)] at hn
  obtain ⟨r, expected, hr, hexp, htotal⟩ := h n hn
  have hfind := hs.find?_rows (fun r => decide (r.2.entityId = entity_id) &&
    decide (r.2.currency = currency) && r.2.isAdjustment &&
    decide (r.2.balanceSnapshotId = some n.1)) fun _ => rfl
  unfold getAdjustmentTransaction at hr ⊢
  rw [hr] at hfind
  obtain ⟨r', hr', hcore⟩ := Option.map_eq_some_iff.mp hfind
  refine ⟨r', expected, hr', (hs.getBalanceAtDate _ _ _ _ _).trans hexp, ?_⟩
  rw [← htotal]
  exact Transaction.eq_of_core (congrArg Prod.snd hcore) Transaction.totalValue fun _ => rfl

/-- The inferred-cash adjustments and their amounts. -/
def injectionAmounts (s : Ledger) : List (ℕ × Option ℚ) :=
  s.transactions.rows.filterMap fun r => if isInjection r.2 then some (r.1, r.2.totalValue) else none

/-- A refresh of a current adjustment changes nothing but its note. -/
theorem NextCurrent.refresh (h : s.NextCurrent entity_id currency timestamp)
    (hok : s.recalculateAdjustments entity_id currency timestamp = .ok s') : ReadsAlike s s' := by
  rcases recalculateAdjustments_cases hok with ⟨-, rfl⟩ | ⟨n, expected, hn, hexp, rfl⟩
  · exact .refl s'
  obtain ⟨r, expected', hr, hexp', htotal⟩ := h n hn
  obtain rfl := Option.some_inj.mp (hexp.symm.trans hexp')
  unfold setSnapshotAdjustment
  rw [hr]
  refine .modify fun t ht => ?_
  obtain rfl := s.transactions.unique ht (getAdjustmentTransaction_eq_some hr).1
  exact Transaction.core_withAmount_self htotal _

/-- A refresh that leaves the amounts of the snapshot adjustments found them current. -/
theorem nextCurrent_of_refresh (hok : s.recalculateAdjustments entity_id currency timestamp = .ok s')
    (hsame : s'.snapshotAdjustments = s.snapshotAdjustments) :
    s.NextCurrent entity_id currency timestamp := by
  intro n' hn'
  rcases recalculateAdjustments_cases hok with ⟨hnone, -⟩ | ⟨n, expected, hn, hexp, rfl⟩
  · cases hnone.symm.trans hn'
  obtain rfl := Option.some_inj.mp (hn.symm.trans hn')
  rcases setSnapshotAdjustment_cases s entity_id currency n.1 n.2.timestamp
    (n.2.amount - expected) with ⟨r, hr, he⟩ | ⟨-, he⟩
  · obtain ⟨hm, -, -, htype, hsid⟩ := getAdjustmentTransaction_eq_some hr
    refine ⟨r, expected, hr, hexp, ?_⟩
    -- The row is listed with the amount that was written, so it held that amount before.
    have hlisted : (r.1, n.1, some (n.2.amount - expected)) ∈ s.snapshotAdjustments := by
      rw [← hsame, he]
      refine List.mem_filterMap.mpr ⟨_, Table.mem_modify.mpr (.inr ⟨rfl, r.2, hm, rfl⟩), ?_⟩
      simp [Transaction.isAdjustment, withAmount, htype, hsid]
    obtain ⟨x, hx, hval⟩ := List.mem_filterMap.mp hlisted
    split_ifs at hval
    obtain ⟨sid, -, hval⟩ := Option.map_eq_some_iff.mp hval
    simp only [Prod.mk.injEq] at hval
    obtain ⟨i, x⟩ := x
    obtain ⟨rfl, -, hval⟩ := hval
    rw [s.transactions.unique hm hx]
    exact hval
  · have hlen := congrArg List.length hsame
    rw [he] at hlen
    simp [snapshotAdjustments, Table.insert, List.filterMap_append, adjustmentRow,
      Transaction.isAdjustment] at hlen

/-- A refresh writes no injection. -/
theorem injectionAmounts_refresh (hok : s.recalculateAdjustments entity_id currency timestamp = .ok s') :
    s'.injectionAmounts = s.injectionAmounts := by
  rcases recalculateAdjustments_cases hok with ⟨-, rfl⟩ | ⟨n, expected, -, -, rfl⟩
  · rfl
  rcases setSnapshotAdjustment_cases s entity_id currency n.1 n.2.timestamp
    (n.2.amount - expected) with ⟨r, hr, he⟩ | ⟨-, he⟩
  · obtain ⟨hm, -, -, -, hsid⟩ := getAdjustmentTransaction_eq_some hr
    rw [he]
    refine s.transactions.filterMap_modify _ fun t ht => ?_
    obtain rfl := s.transactions.unique ht hm
    simp [isInjection, withAmount, hsid]
  · rw [he]
    simp [injectionAmounts, Table.insert, List.filterMap_append, adjustmentRow, isInjection]

theorem links_refresh (hok : s.recalculateAdjustments entity_id currency timestamp = .ok s') :
    s'.links = s.links := by
  rcases recalculateAdjustments_cases hok with ⟨-, rfl⟩ | ⟨n, expected, -, -, rfl⟩
  · rfl
  rcases setSnapshotAdjustment_cases s entity_id currency n.1 n.2.timestamp
    (n.2.amount - expected) with ⟨r, -, he⟩ | ⟨-, he⟩
  · rw [he]
    rfl
  · rw [he]
    rfl

/-! ## A spend without its links -/

/-- Today's resolution of the stored row keeps its total and its cash amount. -/
def AmountsKept (s : Ledger) (t : Transaction) : Prop :=
  (t.toBody.resolved s).totalValue = t.totalValue ∧
    (t.toBody.resolved s).grossAmount.or (t.toBody.resolved s).totalValue = t.cashAmount

instance (s : Ledger) (t : Transaction) : Decidable (s.AmountsKept t) :=
  inferInstanceAs (Decidable (_ ∧ _))

/-- The row a resaving writes reads as the stored one. -/
theorem core_editedRow {t : Transaction} (h : s.AmountsKept t) :
    (s.editedRow (t.toBody.resolved s) t).core = t.core := by
  obtain ⟨htotal, hcash⟩ := h
  have hbody := t.toBody.resolved_eq s
  generalize t.toBody.resolved s = body at htotal hcash hbody ⊢
  obtain ⟨quantity, unitPrice, totalValue, fxRate, grossAmount, netAmount, rfl⟩ := hbody
  change totalValue = t.totalValue at htotal
  change grossAmount.or totalValue = t.cashAmount at hcash
  unfold Transaction.core
  rw [← hcash]
  subst htotal
  rfl

/-- The edited spend, detached from its injection. -/
def detached (s : Ledger) (tx_id : ℕ) (row : Transaction) : Ledger :=
  (s.modifyTransaction tx_id fun _ => row).removeLinksForTransaction tx_id

section Detached

variable {tx_id : ℕ} {t row : Transaction}

theorem isInjection_of_core (h : row.core = t.core) (hspend : t.type.isSpend = true) :
    isInjection t = false ∧ isInjection row = false := by
  have htype : row.type = t.type := Transaction.eq_of_core h Transaction.type fun _ => rfl
  have hnot : ∀ t : Transaction, t.type.isSpend = true → isInjection t = false := by
    intro t hspend
    rw [Bool.eq_false_iff]
    intro hinj
    rw [(isInjection_iff.mp hinj).1] at hspend
    cases hspend
  exact ⟨hnot t hspend, hnot row (htype ▸ hspend)⟩

theorem ReadsAlike.detached (hm : (tx_id, t) ∈ s.transactions.rows) (hcore : row.core = t.core) :
    ReadsAlike s (s.detached tx_id row) :=
  (ReadsAlike.modify (f := fun _ => row) fun a ha => by rw [s.transactions.unique ha hm, hcore]).trans
    (.of_rows rfl rfl rfl rfl rfl rfl)

theorem injectionAmounts_detached (hm : (tx_id, t) ∈ s.transactions.rows) (hcore : row.core = t.core)
    (hspend : t.type.isSpend = true) : (s.detached tx_id row).injectionAmounts = s.injectionAmounts := by
  obtain ⟨hold, hnew⟩ := isInjection_of_core hcore hspend
  refine s.transactions.filterMap_modify _ fun a ha => ?_
  rw [s.transactions.unique ha hm]
  simp [hold, hnew]

theorem getInjectedAdjustmentAt_detached (hm : (tx_id, t) ∈ s.transactions.rows)
    (hcore : row.core = t.core) (hspend : t.type.isSpend = true) :
    (s.detached tx_id row).getInjectedAdjustmentAt entity_id currency timestamp =
      s.getInjectedAdjustmentAt entity_id currency timestamp := by
  obtain ⟨hold, hnew⟩ := isInjection_of_core hcore hspend
  refine find?_modify_eq hm ?_ ?_
  · simp [hold]
  · simp [hnew]

/-- The walk of a day leaves the edited row out. -/
theorem requiredInjectionForDay_detached (hm : (tx_id, t) ∈ s.transactions.rows)
    (hcore : row.core = t.core) (spend_day : ℤ) (adj_id : Option ℕ) :
    (s.detached tx_id row).requiredInjectionForDay entity_id currency spend_day adj_id (some tx_id) =
      s.requiredInjectionForDay entity_id currency spend_day adj_id (some tx_id) := by
  unfold requiredInjectionForDay
  rw [(ReadsAlike.detached hm hcore).getBalanceAtDate]
  have hrows : ∀ start end_, (s.detached tx_id row).getTransactionsBetween entity_id currency start end_
      { transactionId := some tx_id } =
        s.getTransactionsBetween entity_id currency start end_ { transactionId := some tx_id } := by
    intro start end_
    refine congrArg (List.insertionSort _) (filter_modify_eq hm ?_ ?_)
    · simp [Exclude.keeps]
    · simp [Exclude.keeps]
  rw [hrows]

theorem getTransaction_detached {a : ℕ} (ha : a ≠ tx_id) :
    (s.detached tx_id row).getTransaction a = s.getTransaction a := by
  refine Option.ext fun x => ?_
  rw [getTransaction, getTransaction, Table.get?_eq_some_iff, Table.get?_eq_some_iff]
  change (a, x) ∈ (s.transactions.modify tx_id fun _ => row).rows ↔ _
  rw [Table.mem_modify]
  constructor
  · rintro (⟨-, hx⟩ | ⟨rfl, -⟩)
    · exact hx
    · exact absurd rfl ha
  · exact fun hx => .inl ⟨ha, hx⟩

theorem mem_links_detached {l : Link} : l ∈ (s.detached tx_id row).links ↔
    l ∈ s.links ∧ l.balanceAdjustmentId ≠ tx_id ∧ l.linkedTransactionId ≠ tx_id := by
  change l ∈ s.links.filter _ ↔ _
  simp

end Detached

/-! ## The injection of a spend -/

/-- A spend that is on no injection finds none on its day and needs none. -/
def Unattached (s : Ledger) (tx_id : ℕ) (t : Transaction) : Prop :=
  (∀ l ∈ s.links, l.linkedTransactionId ≠ tx_id) ∧
    ∀ cash_amount, t.toBody.spendAmount = some cash_amount →
      s.getInjectedAdjustmentAt t.entityId t.cashPocket (Time.injectionTs t.timestamp) = none ∧
      s.cashNeeded t.entityId t.cashPocket t.timestamp cash_amount t.cashHandling (some tx_id) = .ok none

/-- A spend that shares the injection `j` of its day: the other spends of the day require `required`, and
that and what the spend then needs is what `j` holds. -/
structure Attached (s : Ledger) (tx_id : ℕ) (t : Transaction) (j : ℕ × Transaction)
    (cash_amount required : ℚ) (needed : Option ℚ) : Prop where
  amount : t.toBody.spendAmount = some cash_amount
  found : s.getInjectedAdjustmentAt t.entityId t.cashPocket (Time.injectionTs t.timestamp) = some j
  linked : ⟨j.1, tx_id⟩ ∈ s.links
  only : ∀ l ∈ s.links, l.linkedTransactionId = tx_id → l.balanceAdjustmentId = j.1
  shared : ∃ l ∈ s.links, l.balanceAdjustmentId = j.1 ∧ l.linkedTransactionId ≠ tx_id
  requires : s.requiredInjectionForDay j.2.entityId j.2.currency (Time.dayOf j.2.timestamp + 1) (some j.1)
    (some tx_id) = .ok required
  positive : 0 < required
  needs : (s.modifyTransaction j.1 (withAmount required injectionNotes)).cashNeeded t.entityId
    t.cashPocket t.timestamp cash_amount t.cashHandling (some tx_id) = .ok needed
  holds : j.2.totalValue = some (required + needed.getD 0)

/-- The detour of a spend ends where it began. -/
def InjectionKept (s : Ledger) (tx_id : ℕ) (t : Transaction) : Prop :=
  (∀ l ∈ s.links, l.balanceAdjustmentId ≠ tx_id) ∧
    (s.Unattached tx_id t ∨ ∃ j cash_amount required needed,
      s.Attached tx_id t j cash_amount required needed)

/-- A refresh of an injection deletes it, or writes what the day requires. -/
theorem refreshInjection_injection {a : ℕ} {x : Transaction} {ex : Option ℕ}
    (hg : s.getTransaction a = some x) (hinj : isInjection x = true)
    (hok : s.refreshInjection a ex = .ok s') :
    s' = (s.removeLinksForTransaction a).deleteTransaction a ∨
      s.getAttachedTransactionIds a ≠ [] ∧ ∃ required, s.requiredInjectionForDay x.entityId x.currency
        (Time.dayOf x.timestamp + 1) (some a) ex = .ok required ∧ 0 < required ∧
        s' = s.modifyTransaction a (withAmount required injectionNotes) := by
  have hdrop : (s.removeLinksForTransaction a).deleteInjectionIfUnlinked a =
      (s.removeLinksForTransaction a).deleteTransaction a := by
    refine deleteInjectionIfUnlinked_of_unlinked hg hinj fun l hl => ?_
    have hkept := (List.mem_filter.mp hl).2
    simp only [Bool.not_or, Bool.and_eq_true, Bool.not_eq_true', decide_eq_false_iff_not] at hkept
    exact hkept.1
  obtain ⟨htype, hsid, -⟩ := isInjection_iff.mp hinj
  simp only [refreshInjection, hg, htype, hsid, ne_eq, not_true_eq_false, Option.isSome_none,
    Bool.false_eq_true, or_self, if_false, hdrop] at hok
  split_ifs at hok with hattached
  · exact .inl (Except.ok.inj hok).symm
  obtain ⟨required, hrequired, hok⟩ := Runs.bind_eq_ok.mp hok
  split_ifs at hok with hpos
  · exact .inl (Except.ok.inj hok).symm
  · exact .inr ⟨hattached, required, hrequired, not_le.mp hpos, (Except.ok.inj hok).symm⟩

theorem refreshInjection_eq_modify {a : ℕ} {x : Transaction} {ex : Option ℕ} {required : ℚ}
    (hg : s.getTransaction a = some x) (hinj : isInjection x = true)
    (hattached : s.getAttachedTransactionIds a ≠ [])
    (hrequired : s.requiredInjectionForDay x.entityId x.currency (Time.dayOf x.timestamp + 1) (some a)
      ex = .ok required) (hpos : 0 < required) :
    s.refreshInjection a ex = .ok (s.modifyTransaction a (withAmount required injectionNotes)) := by
  obtain ⟨htype, hsid, -⟩ := isInjection_iff.mp hinj
  simp only [refreshInjection, hg, htype, hsid, ne_eq, not_true_eq_false, Option.isSome_none,
    Bool.false_eq_true, or_self, if_false, if_neg hattached, hrequired]
  exact if_neg (not_le.mpr hpos)

theorem ensureCash_of_none {body : TransactionCreate} {mode : Option BalanceMode} {ex : Option ℕ}
    (hamount : body.spendAmount = none) : s.ensureCash body mode ex = .ok s := by
  unfold ensureCash
  rw [hamount]

theorem ensureCash_of_some {body : TransactionCreate} {mode : Option BalanceMode} {ex : Option ℕ}
    {cash_amount : ℚ} (hamount : body.spendAmount = some cash_amount) (hspend : body.type.isSpend = true) :
    s.ensureCash body mode ex = (s.cashNeeded body.entityId body.cashPocket body.timestamp cash_amount mode
      ex).map fun needed => needed.elim s (s.inject body.entityId body.cashPocket body.timestamp) := by
  simp only [ensureCash, hamount, hspend, if_true, ensureCashForSpend]
  cases s.cashNeeded body.entityId body.cashPocket body.timestamp cash_amount mode ex with
  | error e => rfl
  | ok needed =>
    cases needed with
    | none => rfl
    | some needed => rfl

/-- Refreshes make no link. -/
theorem refreshInjection_links {a : ℕ} {ex : Option ℕ} (hok : s.refreshInjection a ex = .ok s') {l : Link}
    (hl : l ∈ s'.links) : l ∈ s.links := by
  rcases refreshInjection_cases hok with ⟨rfl, -⟩ | rfl | ⟨-, adj, required, -, -, rfl⟩
  · exact hl
  · rcases (s.removeLinksForTransaction a).deleteInjectionIfUnlinked_cases a with he | ⟨-, -, -, -, he⟩
    · rw [he] at hl
      exact List.mem_of_mem_filter hl
    · rw [he] at hl
      exact List.mem_of_mem_filter hl
  · exact hl

theorem refreshInjections_links {adjs : List ℕ} {ex : Option ℕ}
    (hok : s.refreshInjections adjs ex = .ok s') {l : Link} (hl : l ∈ s'.links) : l ∈ s.links := by
  induction adjs generalizing s with
  | nil =>
    rw [← Except.ok.inj hok] at hl
    exact hl
  | cons a adjs ih =>
    simp only [refreshInjections, List.foldlM_cons, Runs.bind_eq_ok] at hok
    obtain ⟨s₁, h₁, hok⟩ := hok
    exact refreshInjection_links h₁ (ih hok)

/-- A check opens at most one row. -/
theorem ensureCash_rows {body : TransactionCreate} {mode : Option BalanceMode} {ex : Option ℕ}
    (hok : s.ensureCash body mode ex = .ok s') {a : ℕ} {y : Transaction}
    (hy : (a, y) ∈ s'.transactions.rows) :
    (∃ x, (a, x) ∈ s.transactions.rows) ∨ a = s.transactions.next := by
  rcases ensureCash_cases hok with rfl | ⟨-, needed, -, -, -, rfl⟩
  · exact .inl ⟨y, hy⟩
  rcases inject_cases s body.entityId body.cashPocket body.timestamp needed with ⟨r, -, he⟩ | ⟨-, he⟩
  · rw [he] at hy
    rcases Table.mem_modify.mp hy with ⟨-, hy⟩ | ⟨rfl, x, hx, -⟩
    · exact .inl ⟨y, hy⟩
    · exact .inl ⟨x, hx⟩
  · rw [he] at hy
    rcases Table.mem_insert.mp hy with hy | hy
    · exact .inl ⟨y, hy⟩
    · exact .inr (congrArg Prod.fst hy)

theorem refreshInjections_next {adjs : List ℕ} {ex : Option ℕ}
    (hok : s.refreshInjections adjs ex = .ok s') : s'.transactions.next = s.transactions.next := by
  induction adjs generalizing s with
  | nil => rw [← Except.ok.inj hok]
  | cons a adjs ih =>
    simp only [refreshInjections, List.foldlM_cons, Runs.bind_eq_ok] at hok
    obtain ⟨s₁, h₁, hok⟩ := hok
    rw [ih hok]
    rcases refreshInjection_cases h₁ with ⟨rfl, -⟩ | rfl | ⟨-, adj, required, -, -, rfl⟩
    · rfl
    · rcases (s.removeLinksForTransaction a).deleteInjectionIfUnlinked_cases a with he | ⟨-, -, -, -, he⟩
      · rw [he]
        rfl
      · rw [he]
        rfl
    · rfl

/-- An injection that is listed is a row. -/
theorem mem_injectionAmounts {a : ℕ} {amount : Option ℚ} : (a, amount) ∈ s.injectionAmounts ↔
    ∃ x, (a, x) ∈ s.transactions.rows ∧ isInjection x = true ∧ x.totalValue = amount := by
  unfold injectionAmounts
  rw [List.mem_filterMap]
  constructor
  · rintro ⟨⟨b, x⟩, hx, hval⟩
    split_ifs at hval with hinj
    simp only [Option.some_inj, Prod.mk.injEq] at hval
    obtain ⟨rfl, hamount⟩ := hval
    exact ⟨x, hx, hinj, hamount⟩
  · rintro ⟨x, hx, hinj, rfl⟩
    exact ⟨(a, x), hx, if_pos hinj⟩

theorem ensureCash_frame {body : TransactionCreate} {mode : Option BalanceMode} {ex : Option ℕ}
    (hok : s.ensureCash body mode ex = .ok s') :
    s'.links = s.links ∧ s.transactions.next ≤ s'.transactions.next := by
  rcases ensureCash_cases hok with rfl | ⟨-, needed, -, -, -, rfl⟩
  · exact ⟨rfl, le_rfl⟩
  rcases inject_cases s body.entityId body.cashPocket body.timestamp needed with ⟨r, -, he⟩ | ⟨-, he⟩
  · rw [he]
    exact ⟨rfl, le_rfl⟩
  · rw [he]
    exact ⟨rfl, Nat.le_succ _⟩

/-- The link that an attachment makes. -/
theorem mem_links_attach {body : TransactionCreate} {tx_id : ℕ} (hspend : body.type.isSpend = true)
    (hlt : tx_id < s.transactions.next) {l : Link} : l ∈ (s.attach body tx_id).links ↔ l ∈ s.links ∨
      ∃ f, s.getInjectedAdjustmentAt body.entityId body.cashPocket (Time.injectionTs body.timestamp) =
        some f ∧ l = ⟨f.1, tx_id⟩ := by
  unfold attach
  rw [if_pos hspend]
  rcases linkInjection_cases s body.entityId body.cashPocket body.timestamp tx_id with
    ⟨f, hf, he⟩ | ⟨hf, he⟩
  · have hlt' := s.transactions.bounded f (getInjectedAdjustmentAt_eq_some hf).1
    rw [he, mem_linkAdjustmentToTransaction hlt' hlt, hf]
    simp
  · rw [he, hf]
    simp

section Detour

variable {s₁ s₂ : Ledger} {tx_id : ℕ} {t row : Transaction}

/-- A spend after its detour. -/
def resaved (s₂ : Ledger) (tx_id : ℕ) (t : Transaction) : Ledger :=
  if t.toBody.spendAmount.isSome then s₂.attach t.toBody tx_id else s₂

theorem resaved_transactions (s₂ : Ledger) (tx_id : ℕ) (t : Transaction) :
    (s₂.resaved tx_id t).transactions = s₂.transactions := by
  unfold resaved
  split_ifs
  · exact attach_transactions _ _ _
  · rfl

theorem mem_links_resaved (hspend : t.type.isSpend = true) (hlt : tx_id < s₂.transactions.next)
    {l : Link} : l ∈ (s₂.resaved tx_id t).links ↔ l ∈ s₂.links ∨ t.toBody.spendAmount.isSome = true ∧
      ∃ f, s₂.getInjectedAdjustmentAt t.entityId t.cashPocket (Time.injectionTs t.timestamp) = some f ∧
        l = ⟨f.1, tx_id⟩ := by
  unfold resaved
  split_ifs with hamount
  · have hspend' : t.toBody.type.isSpend = true := hspend
    rw [mem_links_attach hspend' hlt]
    simp only [hamount, true_and]
    rfl
  · simp [hamount]

theorem ReadsAlike.resaved (s₂ : Ledger) (tx_id : ℕ) (t : Transaction) :
    ReadsAlike s₂ (s₂.resaved tx_id t) := by
  unfold Ledger.resaved attach linkInjection
  split_ifs
  · split
    · exact .link _ _ _
    · exact .refl s₂
  · exact .refl s₂
  · exact .refl s₂

theorem injectionAmounts_resaved (s₂ : Ledger) (tx_id : ℕ) (t : Transaction) :
    (s₂.resaved tx_id t).injectionAmounts = s₂.injectionAmounts := by
  unfold injectionAmounts
  rw [resaved_transactions]

/-- A rewritten injection stays where it is looked up. -/
theorem getInjectedAdjustmentAt_modify {a : ℕ} {x : Transaction} (hm : (a, x) ∈ s.transactions.rows)
    (hinj : isInjection x = true) (amount : ℚ) :
    (s.modifyTransaction a (withAmount amount injectionNotes)).getInjectedAdjustmentAt entity_id currency
      timestamp = (s.getInjectedAdjustmentAt entity_id currency timestamp).map
        fun r => if r.1 = a then (r.1, withAmount amount injectionNotes r.2) else r := by
  refine find?_modify fun t ht => ?_
  rw [s.transactions.unique ht hm, isInjection_withAmount hinj, hinj]
  rfl

/-- The adjustments that a spend is linked to, where its links name one row. -/
theorem linked_eq_singleton {a : ℕ} {x : Transaction} (hm : (a, x) ∈ s.transactions.rows)
    (hlinked : ⟨a, tx_id⟩ ∈ s.links)
    (honly : ∀ l ∈ s.links, l.linkedTransactionId = tx_id → l.balanceAdjustmentId = a) :
    (s.getAdjustmentsLinkedToTransaction tx_id).map Prod.fst = [a] := by
  unfold getAdjustmentsLinkedToTransaction
  rw [s.transactions.filter_eq_singleton hm fun r _ => ?_]
  · rfl
  · refine decide_eq_decide.mpr ⟨fun hl => honly _ hl rfl, fun hr => ?_⟩
    rw [hr]
    exact hlinked

theorem linked_eq_nil (hno : ∀ l ∈ s.links, l.linkedTransactionId ≠ tx_id) :
    (s.getAdjustmentsLinkedToTransaction tx_id).map Prod.fst = [] := by
  unfold getAdjustmentsLinkedToTransaction
  rw [List.map_eq_nil_iff, List.filter_eq_nil_iff]
  intro r _ hl
  exact hno _ (of_decide_eq_true hl) rfl

/-- Where the other spends of the day hold the injection. -/
theorem ReadsAlike.lowered {a : ℕ} (ha : a ≠ tx_id) (hm : (tx_id, t) ∈ s.transactions.rows)
    (hcore : row.core = t.core) (amount : ℚ) (notes : String) :
    ReadsAlike (s.modifyTransaction a (withAmount amount notes))
      ((s.detached tx_id row).modifyTransaction a (withAmount amount notes)) := by
  have hm' : (tx_id, t) ∈ (s.modifyTransaction a (withAmount amount notes)).transactions.rows :=
    Table.mem_modify.mpr (.inl ⟨Ne.symm ha, hm⟩)
  refine (ReadsAlike.detached hm' hcore).trans (.of_rows ?_ rfl rfl rfl rfl rfl)
  exact s.transactions.modify_comm (Ne.symm ha) _ _

theorem modifyTransaction_modifyTransaction (s : Ledger) (a : ℕ) (f g : Transaction → Transaction) :
    (s.modifyTransaction a f).modifyTransaction a g = s.modifyTransaction a (g ∘ f) := by
  unfold modifyTransaction
  simp only [Table.modify_modify]

theorem getAttachedTransactionIds_ne_nil {a : ℕ} :
    s.getAttachedTransactionIds a ≠ [] ↔ ∃ l ∈ s.links, l.balanceAdjustmentId = a := by
  unfold getAttachedTransactionIds
  rw [Ne, List.map_eq_nil_iff, List.filter_eq_nil_iff]
  push Not
  simp only [decide_eq_true_eq]

/-- After an injection there is one. -/
theorem exists_injected_of_inject (s : Ledger) (entity_id : ℕ) (currency : Currency)
    (timestamp : Timestamp) (needed : ℚ) : ∃ f, (s.inject entity_id currency timestamp
      needed).getInjectedAdjustmentAt entity_id currency (Time.injectionTs timestamp) = some f := by
  rcases inject_cases s entity_id currency timestamp needed with ⟨r, hr, he⟩ | ⟨hr, he⟩
  · rw [he]
    exact ⟨_, getInjectedAdjustmentAt_raise _ hr⟩
  · have hinj : isInjection (adjustmentRow entity_id currency needed (Time.injectionTs timestamp) none
        injectionNotes) = true := isInjection_iff.mpr ⟨rfl, rfl, likeInferredCash_injectionNotes⟩
    rw [he, getInjectedAdjustmentAt_insert, hr, if_pos ⟨rfl, rfl, hinj, rfl⟩]
    exact ⟨_, rfl⟩

/-- An injection that was just written is topped up in place. -/
theorem inject_lowered {a : ℕ} {x : Transaction} (hm : (a, x) ∈ s.transactions.rows)
    (hinj : isInjection x = true) (hfound : s.getInjectedAdjustmentAt entity_id currency
      (Time.injectionTs timestamp) = some (a, x)) (required : ℚ) (needed : Option ℚ) :
    needed.elim (s.modifyTransaction a (withAmount required injectionNotes))
        ((s.modifyTransaction a (withAmount required injectionNotes)).inject entity_id currency timestamp) =
      s.modifyTransaction a (withAmount (required + needed.getD 0) injectionNotes) := by
  cases needed with
  | none =>
    rw [Option.getD_none, add_zero]
    rfl
  | some needed =>
    change (s.modifyTransaction a _).inject entity_id currency timestamp needed = _
    unfold inject
    rw [getInjectedAdjustmentAt_modify hm hinj, hfound, Option.map_some, if_pos rfl]
    exact modifyTransaction_modifyTransaction s a _ _

/-- A detour that keeps the injections and the links. -/
theorem InjectionKept.resaved (h : s.InjectionKept tx_id t) (hm : (tx_id, t) ∈ s.transactions.rows)
    (hcore : row.core = t.core) (hspend : t.type.isSpend = true)
    (hdetach : (s.detached tx_id row).refreshInjections
      ((s.getAdjustmentsLinkedToTransaction tx_id).map Prod.fst) (some tx_id) = .ok s₁)
    (hensure : s₁.ensureCash t.toBody t.cashHandling (some tx_id) = .ok s₂) :
    ReadsAlike s (s₂.resaved tx_id t) ∧ (s₂.resaved tx_id t).injectionAmounts = s.injectionAmounts ∧
      ∀ l, l ∈ (s₂.resaved tx_id t).links ↔ l ∈ s.links := by
  obtain ⟨hheads, ⟨hunlinked, hnone⟩ | ⟨j, cash_amount, required, needed, hatt⟩⟩ := h
  · rw [linked_eq_nil hunlinked] at hdetach
    obtain rfl := Except.ok.inj hdetach
    have halike := ReadsAlike.detached hm hcore
    have hlinks : ∀ l, l ∈ (s.detached tx_id row).links ↔ l ∈ s.links := fun l =>
      mem_links_detached.trans ⟨fun h => h.1, fun h => ⟨h, hheads l h, hunlinked l h⟩⟩
    cases hamount : t.toBody.spendAmount with
    | none =>
      rw [ensureCash_of_none hamount] at hensure
      obtain rfl := Except.ok.inj hensure
      unfold Ledger.resaved
      rw [hamount]
      exact ⟨halike, injectionAmounts_detached hm hcore hspend, hlinks⟩
    | some cash_amount =>
      obtain ⟨hfound, hneeded⟩ := hnone cash_amount hamount
      rw [ensureCash_of_some hamount hspend] at hensure
      change (((s.detached tx_id row).cashNeeded t.entityId t.cashPocket t.timestamp cash_amount _ _).map
        _) = _ at hensure
      rw [halike.cashNeeded, hneeded] at hensure
      obtain rfl := Except.ok.inj hensure
      refine ⟨halike.trans (.resaved _ _ _), ?_, fun l => ?_⟩
      · rw [injectionAmounts_resaved]
        exact injectionAmounts_detached hm hcore hspend
      · have hlt : tx_id < (s.detached tx_id row).transactions.next := s.transactions.bounded _ hm
        change l ∈ ((s.detached tx_id row).resaved tx_id t).links ↔ _
        rw [mem_links_resaved hspend hlt, getInjectedAdjustmentAt_detached hm hcore hspend, hfound, hlinks]
        simp
  · obtain ⟨hj, hent, hcur, hinj, hts⟩ := getInjectedAdjustmentAt_eq_some hatt.found
    obtain ⟨a, x⟩ := j
    have ha : a ≠ tx_id := by
      intro ha
      subst ha
      obtain rfl := s.transactions.unique hj hm
      rw [(isInjection_of_core hcore hspend).1] at hinj
      cases hinj
    obtain ⟨l₀, hl₀, hl₀a, hl₀k⟩ := hatt.shared
    have hattached : (s.detached tx_id row).getAttachedTransactionIds a ≠ [] :=
      getAttachedTransactionIds_ne_nil.mpr ⟨l₀, mem_links_detached.mpr ⟨hl₀, hheads l₀ hl₀, hl₀k⟩, hl₀a⟩
    have hget : (s.detached tx_id row).getTransaction a = some x :=
      (getTransaction_detached ha).trans (getTransaction_of_mem hj)
    -- The refresh writes what the other spends require.
    rw [linked_eq_singleton hj hatt.linked hatt.only] at hdetach
    simp only [refreshInjections, List.foldlM_cons, List.foldlM_nil, bind_pure] at hdetach
    rw [refreshInjection_eq_modify hget hinj hattached
      ((requiredInjectionForDay_detached hm hcore _ _).trans hatt.requires) hatt.positive] at hdetach
    obtain rfl := Except.ok.inj hdetach
    -- The check tops it up to what it held.
    have hj' : (a, x) ∈ (s.detached tx_id row).transactions.rows :=
      Table.mem_modify.mpr (.inl ⟨ha, hj⟩)
    have hfound := (getInjectedAdjustmentAt_detached hm hcore hspend).trans hatt.found
    have hs₂ : s₂ = (s.detached tx_id row).modifyTransaction a
        (withAmount (required + needed.getD 0) injectionNotes) := by
      rw [ensureCash_of_some hatt.amount hspend] at hensure
      obtain ⟨needed', hneeded, hs₂⟩ := Runs.map_eq_ok.mp hensure
      have hneeds := ((ReadsAlike.lowered ha hm hcore required injectionNotes).cashNeeded _ _ _ _ _ _).trans
        hatt.needs
      obtain rfl : needed' = needed := Except.ok.inj (hneeded.symm.trans hneeds)
      exact hs₂.symm.trans (inject_lowered hj' hinj hfound required needed')
    subst hs₂
    have halike : ReadsAlike (s.detached tx_id row) ((s.detached tx_id row).modifyTransaction a
        (withAmount (required + needed.getD 0) injectionNotes)) := .modify fun y hy => by
      rw [(s.detached tx_id row).transactions.unique hy hj']
      exact Transaction.core_withAmount_self hatt.holds _
    refine ⟨((ReadsAlike.detached hm hcore).trans halike).trans (.resaved _ _ _), ?_, fun l => ?_⟩
    · rw [injectionAmounts_resaved, ← injectionAmounts_detached hm hcore hspend]
      refine (s.detached tx_id row).transactions.filterMap_modify _ fun y hy => ?_
      rw [(s.detached tx_id row).transactions.unique hy hj', if_pos hinj,
        if_pos (isInjection_withAmount hinj _), hatt.holds]
      rfl
    · have hlt : tx_id < ((s.detached tx_id row).modifyTransaction a
          (withAmount (required + needed.getD 0) injectionNotes)).transactions.next :=
        s.transactions.bounded _ hm
      rw [mem_links_resaved hspend hlt, getInjectedAdjustmentAt_modify hj' hinj, hfound, Option.map_some,
        if_pos rfl, hatt.amount]
      change l ∈ (s.detached tx_id row).links ∨ _ ↔ _
      rw [mem_links_detached]
      constructor
      · intro h
        rcases h with ⟨hl, -⟩ | ⟨-, f, hf, hl⟩
        · exact hl
        · rw [hl, ← Option.some_inj.mp hf]
          exact hatt.linked
      · intro hl
        by_cases hk : l.linkedTransactionId = tx_id
        · refine .inr ⟨rfl, _, rfl, ?_⟩
          obtain ⟨b, k⟩ := l
          obtain rfl : k = tx_id := hk
          exact congrArg (Link.mk · k) (hatt.only _ hl rfl)
        · exact .inl ⟨hl, hheads l hl, hk⟩

/-- A detour that kept them found its injection as it leaves it. -/
theorem injectionKept_of_resaved (hm : (tx_id, t) ∈ s.transactions.rows) (hcore : row.core = t.core)
    (hspend : t.type.isSpend = true)
    (hdetach : (s.detached tx_id row).refreshInjections
      ((s.getAdjustmentsLinkedToTransaction tx_id).map Prod.fst) (some tx_id) = .ok s₁)
    (hensure : s₁.ensureCash t.toBody t.cashHandling (some tx_id) = .ok s₂)
    (hinjections : (s₂.resaved tx_id t).injectionAmounts = s.injectionAmounts)
    (hlinks : ∀ l, l ∈ (s₂.resaved tx_id t).links ↔ l ∈ s.links) : s.InjectionKept tx_id t := by
  have hnext : (s.detached tx_id row).transactions.next = s.transactions.next := rfl
  rw [injectionAmounts_resaved] at hinjections
  by_cases hlinked : ∃ l ∈ s.links, l.linkedTransactionId = tx_id
  · have hlt : tx_id < s₂.transactions.next := by
      refine lt_of_lt_of_le (s.transactions.bounded _ hm) (le_trans ?_ (ensureCash_frame hensure).2)
      rw [refreshInjections_next hdetach, hnext]
    -- The links that are left are none of the spend's.
    have hleft : ∀ l ∈ s₂.links, l.balanceAdjustmentId ≠ tx_id ∧ l.linkedTransactionId ≠ tx_id := by
      intro l hl
      rw [(ensureCash_frame hensure).1] at hl
      exact (mem_links_detached.mp (refreshInjections_links hdetach hl)).2
    obtain ⟨⟨a, k⟩, hl, hk⟩ := hlinked
    obtain rfl : k = tx_id := hk
    obtain ⟨hamount, f, hf, hlf⟩ := ((mem_links_resaved hspend hlt).mp ((hlinks _).mpr hl)).resolve_left
      fun h => (hleft _ h).2 rfl
    obtain rfl : a = f.1 := congrArg Link.balanceAdjustmentId hlf
    have hown : ∀ l ∈ s.links, l ∉ s₂.links → l = ⟨f.1, k⟩ := by
      intro l hl hnot
      obtain ⟨-, f', hf', hlf'⟩ := ((mem_links_resaved hspend hlt).mp ((hlinks l).mpr hl)).resolve_left hnot
      rw [hlf', Option.some_inj.mp (hf.symm.trans hf')]
    have honly : ∀ l ∈ s.links, l.linkedTransactionId = k → l.balanceAdjustmentId = f.1 := fun l hl hk =>
      congrArg Link.balanceAdjustmentId (hown l hl fun h => (hleft l h).2 hk)
    obtain ⟨hfm, -, -, hfinj, -⟩ := getInjectedAdjustmentAt_eq_some hf
    obtain ⟨a, y⟩ := f
    -- The injection that is found in the end was one in the beginning.
    obtain ⟨x, hx, hinj, -⟩ : ∃ x, (a, x) ∈ s.transactions.rows ∧ isInjection x = true ∧
        x.totalValue = y.totalValue := by
      refine mem_injectionAmounts.mp ?_
      rw [← hinjections]
      exact mem_injectionAmounts.mpr ⟨y, hfm, hfinj, rfl⟩
    have ha : a ≠ k := by
      intro ha
      subst ha
      obtain rfl := s.transactions.unique hx hm
      rw [(isInjection_of_core hcore hspend).1] at hinj
      cases hinj
    have hheads : ∀ l ∈ s.links, l.balanceAdjustmentId ≠ k := fun l hl hhead =>
      ha ((congrArg Link.balanceAdjustmentId (hown l hl fun h => (hleft l h).1 hhead)).symm.trans hhead)
    refine ⟨hheads, .inr ?_⟩
    rw [linked_eq_singleton hx hl honly] at hdetach
    simp only [refreshInjections, List.foldlM_cons, List.foldlM_nil, bind_pure] at hdetach
    rcases refreshInjection_injection ((getTransaction_detached ha).trans (getTransaction_of_mem hx)) hinj
      hdetach with rfl | ⟨hattached, required, hrequired, hpos, rfl⟩
    · -- A deleted injection is not found again.
      rcases ensureCash_rows hensure hfm with ⟨z, hz⟩ | hz
      · exact absurd rfl (Table.mem_erase.mp hz).2
      · exact absurd hz (ne_of_lt (s.transactions.bounded _ hx))
    obtain ⟨cash_amount, hcash⟩ := Option.isSome_iff_exists.mp hamount
    rw [ensureCash_of_some hcash hspend] at hensure
    obtain ⟨needed, hneeded, hs₂⟩ := Runs.map_eq_ok.mp hensure
    have hx' : (a, x) ∈ (s.detached k row).transactions.rows := Table.mem_modify.mpr (.inl ⟨ha, hx⟩)
    -- The check tops up the injection that is there.
    have hfound₁ : ∃ r, ((s.detached k row).modifyTransaction a (withAmount required
        injectionNotes)).getInjectedAdjustmentAt t.entityId t.cashPocket (Time.injectionTs t.timestamp) =
          some r ∧ r.1 = a := by
      cases needed with
      | none =>
        obtain rfl : (s.detached k row).modifyTransaction a (withAmount required injectionNotes) = s₂ := hs₂
        exact ⟨(a, y), hf, rfl⟩
      | some needed =>
        obtain rfl : ((s.detached k row).modifyTransaction a (withAmount required injectionNotes)).inject
          t.entityId t.cashPocket t.timestamp needed = s₂ := hs₂
        rcases inject_cases ((s.detached k row).modifyTransaction a (withAmount required injectionNotes))
          t.entityId t.cashPocket t.timestamp needed with ⟨r, hr, he⟩ | ⟨hr, he⟩
        · rw [he, getInjectedAdjustmentAt_raise _ hr] at hf
          exact ⟨r, hr, congrArg Prod.fst (Option.some_inj.mp hf)⟩
        · rw [he, getInjectedAdjustmentAt_insert, hr, Option.none_or] at hf
          split_ifs at hf
          exact absurd (congrArg Prod.fst (Option.some_inj.mp hf)).symm
            (ne_of_lt (s.transactions.bounded (a, x) hx))
    have hfound : s.getInjectedAdjustmentAt t.entityId t.cashPocket (Time.injectionTs t.timestamp) =
        some (a, x) := by
      obtain ⟨r, hr, hra⟩ := hfound₁
      rw [getInjectedAdjustmentAt_modify hx' hinj, getInjectedAdjustmentAt_detached hm hcore hspend] at hr
      obtain ⟨⟨b, z⟩, hz, hzr⟩ := Option.map_eq_some_iff.mp hr
      have hb : b = a := by
        rw [← hra, ← hzr]
        split_ifs <;> rfl
      subst hb
      rw [hz, s.transactions.unique (getInjectedAdjustmentAt_eq_some hz).1 hx]
    have hs₂' : s₂ = (s.detached k row).modifyTransaction a
        (withAmount (required + needed.getD 0) injectionNotes) :=
      hs₂.symm.trans (inject_lowered hx' hinj
        ((getInjectedAdjustmentAt_detached hm hcore hspend).trans hfound) required needed)
    refine ⟨(a, x), cash_amount, required, needed, hcash, hfound, hl, honly, ?_, ?_, hpos, ?_, ?_⟩
    · obtain ⟨l, hl, hla⟩ := getAttachedTransactionIds_ne_nil.mp hattached
      obtain ⟨hl, -, hlk⟩ := mem_links_detached.mp hl
      exact ⟨l, hl, hla, hlk⟩
    · exact (requiredInjectionForDay_detached hm hcore _ _).symm.trans hrequired
    · exact ((ReadsAlike.lowered ha hm hcore required injectionNotes).cashNeeded _ _ _ _ _ _).symm.trans
        hneeded
    · have hlisted : (a, some (required + needed.getD 0)) ∈ s.injectionAmounts := by
        rw [← hinjections, hs₂']
        exact mem_injectionAmounts.mpr ⟨_, Table.mem_modify.mpr (.inr ⟨rfl, x, hx', rfl⟩),
          isInjection_withAmount hinj _, rfl⟩
      obtain ⟨z, hz, -, htotal⟩ := mem_injectionAmounts.mp hlisted
      rw [s.transactions.unique hx hz]
      exact htotal
  · have hunlinked : ∀ l ∈ s.links, l.linkedTransactionId ≠ tx_id := fun l hl hk => hlinked ⟨l, hl, hk⟩
    rw [linked_eq_nil hunlinked] at hdetach
    obtain rfl := Except.ok.inj hdetach
    have hlt : tx_id < s₂.transactions.next :=
      lt_of_lt_of_le (s.transactions.bounded _ hm) (ensureCash_frame hensure).2
    simp only [mem_links_resaved hspend hlt, (ensureCash_frame hensure).1, mem_links_detached] at hlinks
    -- A link that the edit makes would be one of the spend's.
    have hnew : ∀ f, s₂.getInjectedAdjustmentAt t.entityId t.cashPocket (Time.injectionTs t.timestamp) =
        some f → t.toBody.spendAmount.isSome = true → False := fun f hf hamount =>
      hunlinked _ ((hlinks ⟨f.1, tx_id⟩).mp (.inr ⟨hamount, f, hf, rfl⟩)) rfl
    refine ⟨fun l hl hhead => ?_, .inl ⟨hunlinked, fun cash_amount hamount => ?_⟩⟩
    · rcases (hlinks l).mpr hl with h | ⟨hamount, f, hf, -⟩
      · exact h.2.1 hhead
      · exact hnew f hf hamount
    · rw [ensureCash_of_some hamount hspend] at hensure
      obtain ⟨needed, hneeded, hs₂⟩ := Runs.map_eq_ok.mp hensure
      rw [(ReadsAlike.detached hm hcore).cashNeeded] at hneeded
      cases needed with
      | none =>
        obtain rfl : s.detached tx_id row = s₂ := hs₂
        rw [getInjectedAdjustmentAt_detached hm hcore hspend] at hnew
        refine ⟨?_, hneeded⟩
        cases hf : s.getInjectedAdjustmentAt t.entityId t.cashPocket (Time.injectionTs t.timestamp) with
        | none => rfl
        | some f => exact (hnew f hf (by rw [hamount]; rfl)).elim
      | some needed =>
        obtain ⟨f, hf⟩ := exists_injected_of_inject (s.detached tx_id row) t.entityId t.cashPocket
          t.timestamp needed
        exact (hnew f (hs₂ ▸ hf) (by rw [hamount]; rfl)).elim

end Detour

/-! ## Saving as it is stored -/

/-- No balance, no injection, no link and no adjustment of a snapshot is another. -/
structure BooksUnchanged (s s' : Ledger) : Prop where
  balance : ∀ entity_id currency timestamp ex inclusive_end,
    s'.getBalanceAtDate entity_id currency timestamp ex inclusive_end =
      s.getBalanceAtDate entity_id currency timestamp ex inclusive_end
  injections : s'.injectionAmounts = s.injectionAmounts
  links : ∀ l, l ∈ s'.links ↔ l ∈ s.links
  adjustments : s'.snapshotAdjustments = s.snapshotAdjustments

/-- Nothing that an edit recomputes for the row comes to something else. -/
def ResaveSettled (s : Ledger) (tx_id : ℕ) (t : Transaction) : Prop :=
  t.type ≠ .balanceAdjustment →
    s.NextCurrent t.entityId t.cashPocket t.timestamp ∧
      (t.type.isSpend = true → s.InjectionKept tx_id t)

theorem ReadsAlike.booksUnchanged (h : ReadsAlike s s')
    (hinjections : s'.injectionAmounts = s.injectionAmounts) (hlinks : ∀ l, l ∈ s'.links ↔ l ∈ s.links) :
    BooksUnchanged s s' :=
  ⟨h.getBalanceAtDate, hinjections, hlinks, h.snapshotAdjustments⟩

/-- The refresh after writes that read alike. -/
theorem booksUnchanged_refresh_iff {s₃ : Ledger} (h : ReadsAlike s s₃)
    (hinjections : s₃.injectionAmounts = s.injectionAmounts) (hlinks : ∀ l, l ∈ s₃.links ↔ l ∈ s.links)
    (hok : s₃.recalculateAdjustments entity_id currency timestamp = .ok s') :
    BooksUnchanged s s' ↔ s.NextCurrent entity_id currency timestamp := by
  constructor
  · intro hsame
    exact (nextCurrent_of_refresh hok (hsame.adjustments.trans h.snapshotAdjustments.symm)).congr h.symm
  · intro hcurrent
    refine (h.trans ((hcurrent.congr h).refresh hok)).booksUnchanged
      ((injectionAmounts_refresh hok).trans hinjections) fun l => ?_
    rw [links_refresh hok]
    exact hlinks l

section Resave

variable {tx_id : ℕ} {t : Transaction}

theorem spendAmount_resolved (h : s.AmountsKept t) :
    (t.toBody.resolved s).spendAmount = t.toBody.spendAmount := by
  obtain ⟨htotal, hcash⟩ := h
  unfold TransactionCreate.spendAmount
  rw [htotal] at hcash ⊢
  change Option.map _ t.totalValue = Option.map _ t.totalValue
  cases hv : t.totalValue with
  | none => rfl
  | some total =>
    unfold Transaction.cashAmount at hcash
    rw [hv] at hcash
    have hgetD : ∀ o : Option ℚ, o.or (some total) = some (o.getD total) := fun o => by cases o <;> rfl
    rw [hgetD, hgetD] at hcash
    exact hcash

theorem ensureCash_resolved {s₁ : Ledger} (h : s.AmountsKept t) (mode : Option BalanceMode)
    (ex : Option ℕ) :
    s₁.ensureCash (t.toBody.resolved s) mode ex = s₁.ensureCash t.toBody mode ex := by
  unfold ensureCash
  rw [spendAmount_resolved h]
  simp only [TransactionCreate.resolved_type, TransactionCreate.resolved_entityId,
    TransactionCreate.resolved_cashPocket, TransactionCreate.resolved_timestamp]

theorem attach_resolved {s₂ : Ledger} :
    s₂.attach (t.toBody.resolved s) tx_id = s₂.attach t.toBody tx_id := by
  unfold attach
  simp only [TransactionCreate.resolved_type, TransactionCreate.resolved_entityId,
    TransactionCreate.resolved_cashPocket, TransactionCreate.resolved_timestamp]

/-- A row that reads as the stored one and keeps its note is listed as the stored one. -/
theorem isInjection_of_notes {row : Transaction} (hcore : row.core = t.core) (hnotes : row.notes = t.notes) :
    (if isInjection row then some (tx_id, row.totalValue) else none) =
      if isInjection t then some (tx_id, t.totalValue) else none := by
  have htype : row.type = t.type := Transaction.eq_of_core hcore Transaction.type fun _ => rfl
  have hsid : row.balanceSnapshotId = t.balanceSnapshotId :=
    Transaction.eq_of_core hcore Transaction.balanceSnapshotId fun _ => rfl
  have htotal : row.totalValue = t.totalValue :=
    Transaction.eq_of_core hcore Transaction.totalValue fun _ => rfl
  unfold isInjection Transaction.isAdjustment
  rw [htype, hsid, hnotes, htotal]

/-- What an edit with the stored body does. -/
theorem resave_cases {resp : TransactionResponse} (hg : s.getTransaction tx_id = some t)
    (hamounts : s.AmountsKept t) (hok : s.updateTransaction tx_id t.toBody = .ok (resp, s')) :
    ∃ row s₁ s₂, row.core = t.core ∧ row.notes = t.notes ∧
      (s.modifyTransaction tx_id fun _ => row).detach t tx_id
        ((s.getAdjustmentsLinkedToTransaction tx_id).map Prod.fst) = .ok s₁ ∧
      s₁.ensureCash t.toBody t.cashHandling (some tx_id) = .ok s₂ ∧
      (if t.type = .balanceAdjustment then .ok (s₂.resaved tx_id t)
        else (s₂.resaved tx_id t).recalculateAdjustments t.entityId t.cashPocket t.timestamp) = .ok s' := by
  obtain ⟨existing, s₁, s₂, s₄, hexisting, -, hrow, hdetach, hensure, hrefresh, hold⟩ :=
    updateTransaction_cases hok
  obtain rfl := Option.some_inj.mp (hg.symm.trans hexisting)
  have hcore := core_editedRow hamounts
  have hmode : (s.editedRow (t.toBody.resolved s) t).cashHandling = t.cashHandling := by
    obtain ⟨_, _, _, _, _, _, hbody⟩ := t.toBody.resolved_eq s
    rw [hbody]
    rfl
  have hnotes : (s.editedRow (t.toBody.resolved s) t).notes = t.notes := t.toBody.resolved_notes s
  rw [hrow] at hdetach hensure
  rw [hmode, ensureCash_resolved hamounts] at hensure
  rw [spendAmount_resolved hamounts, attach_resolved] at hrefresh
  have hsame : s₄ = s' := by
    unfold recalculateOld at hold
    simp only [TransactionCreate.resolved_type, TransactionCreate.resolved_entityId,
      TransactionCreate.resolved_cashPocket, TransactionCreate.resolved_timestamp] at hold
    split_ifs at hold with htype hmoved
    · exact Except.ok.inj hold
    · rcases hmoved with hmoved | hmoved | hmoved
      · exact absurd rfl hmoved
      · exact absurd rfl hmoved
      · exact absurd rfl hmoved
    · exact Except.ok.inj hold
  refine ⟨_, s₁, s₂, hcore, hnotes, hdetach, hensure, ?_⟩
  unfold recalculateFor at hrefresh
  simp only [TransactionCreate.resolved_type, TransactionCreate.resolved_entityId,
    TransactionCreate.resolved_cashPocket, TransactionCreate.resolved_timestamp] at hrefresh
  rw [← hsame]
  exact hrefresh

/-- Saving a row as it is stored leaves the books unchanged exactly where what the edit recomputes is
settled. -/
theorem resave_iff {resp : TransactionResponse} (hg : s.getTransaction tx_id = some t)
    (hamounts : s.AmountsKept t) (hok : s.updateTransaction tx_id t.toBody = .ok (resp, s')) :
    BooksUnchanged s s' ↔ s.ResaveSettled tx_id t := by
  obtain ⟨row, s₁, s₂, hcore, hnotes, hdetach, hensure, hrefresh⟩ := resave_cases hg hamounts hok
  have hm := mem_of_getTransaction hg
  unfold detach at hdetach
  by_cases hspend : t.type.isSpend = true
  · have htype : t.type ≠ .balanceAdjustment := fun htype => by
      rw [htype] at hspend
      cases hspend
    rw [if_pos hspend] at hdetach
    rw [if_neg htype] at hrefresh
    constructor
    · intro hsame _
      have hkept := injectionKept_of_resaved hm hcore hspend hdetach hensure
        ((injectionAmounts_refresh hrefresh).symm.trans hsame.injections) fun l => by
          rw [← links_refresh hrefresh]
          exact hsame.links l
      obtain ⟨halike, hinjections, hlinks⟩ := hkept.resaved hm hcore hspend hdetach hensure
      exact ⟨(booksUnchanged_refresh_iff halike hinjections hlinks hrefresh).mp hsame, fun _ => hkept⟩
    · intro hsettled
      obtain ⟨hcurrent, hkept⟩ := hsettled htype
      obtain ⟨halike, hinjections, hlinks⟩ := (hkept hspend).resaved hm hcore hspend hdetach hensure
      exact (booksUnchanged_refresh_iff halike hinjections hlinks hrefresh).mpr hcurrent
  · rw [if_neg hspend] at hdetach
    obtain rfl := Except.ok.inj hdetach
    -- No spend, no detour: the row alone is written.
    obtain rfl : s.modifyTransaction tx_id (fun _ => row) = s₂ := by
      unfold ensureCash at hensure
      split at hensure
      · rw [if_neg (show ¬ t.toBody.type.isSpend = true from hspend)] at hensure
        exact Except.ok.inj hensure
      · exact Except.ok.inj hensure
    have hstay : (s.modifyTransaction tx_id fun _ => row).resaved tx_id t =
        s.modifyTransaction tx_id fun _ => row := by
      unfold resaved attach
      rw [if_neg (show ¬ t.toBody.type.isSpend = true from hspend), ite_self]
    rw [hstay] at hrefresh
    have halike : ReadsAlike s (s.modifyTransaction tx_id fun _ => row) :=
      .modify fun a ha => by rw [s.transactions.unique ha hm, hcore]
    have hinjections : (s.modifyTransaction tx_id fun _ => row).injectionAmounts = s.injectionAmounts := by
      refine s.transactions.filterMap_modify _ fun a ha => ?_
      obtain rfl := s.transactions.unique ha hm
      exact isInjection_of_notes hcore hnotes
    by_cases htype : t.type = .balanceAdjustment
    · rw [if_pos htype] at hrefresh
      obtain rfl := Except.ok.inj hrefresh
      exact iff_of_true (halike.booksUnchanged hinjections fun _ => Iff.rfl) fun h => absurd htype h
    · rw [if_neg htype] at hrefresh
      refine (booksUnchanged_refresh_iff halike hinjections (fun _ => Iff.rfl) hrefresh).trans ?_
      exact ⟨fun hcurrent _ => ⟨hcurrent, fun h => absurd h hspend⟩, fun hsettled => (hsettled htype).1⟩

end Resave

end Ledger

namespace Sample

/-- Two spends of a day, both on one injection. -/
def twoSpends : List LedgerCall :=
  [.createTransaction (spendOnDay10 100 10), .createTransaction (spendOnDay10 50 12)]

/-- The row of the spend at an hour. -/
def storedSpend (amount : ℚ) (hour : ℤ) : Transaction :=
  (spendOnDay10 amount hour).toRow none none

/-- Saving the first one again takes the injection down to its own amount, and the pocket is at -50 after
the second one. -/
theorem firstSpend_resaved : ¬ ∀ (cs : List LedgerCall) (tx_id : ℕ) (t : Transaction)
    (resp : TransactionResponse) (s' : Ledger), succeeds cs = true →
      (after cs).getTransaction tx_id = some t →
      (after cs).updateTransaction tx_id t.toBody = .ok (resp, s') →
      Ledger.BooksUnchanged (after cs) s' := by
  intro hall
  have hcall : (after twoSpends).call (.updateTransaction 1 (storedSpend 100 10).toBody) =
      .ok (after (twoSpends ++ [.updateTransaction 1 (storedSpend 100 10).toBody])) :=
    call_after (by decide +kernel)
  obtain ⟨⟨resp, s'⟩, hok, hs'⟩ := Runs.map_eq_ok.mp hcall
  obtain rfl : s' = after (twoSpends ++ [.updateTransaction 1 (storedSpend 100 10).toBody]) := hs'
  have hsame := (hall twoSpends 1 (storedSpend 100 10) resp _ (by decide +kernel) (by decide +kernel)
    hok).balance 0 usd (at_ 10 13) {} true
  exact absurd hsame (by decide +kernel)

example : (after (twoSpends ++ [.updateTransaction 1 (storedSpend 100 10).toBody])).getBalanceAtDate 0 usd
    (at_ 10 13) = some (-50) := by
  decide +kernel

/-- Saving the second one again leaves everything as it is. -/
theorem secondSpend_resaved : ∃ resp s', (after twoSpends).updateTransaction 2 (storedSpend 50 12).toBody =
    .ok (resp, s') ∧ Ledger.BooksUnchanged (after twoSpends) s' := by
  have hcall : (after twoSpends).call (.updateTransaction 2 (storedSpend 50 12).toBody) =
      .ok (after (twoSpends ++ [.updateTransaction 2 (storedSpend 50 12).toBody])) :=
    call_after (by decide +kernel)
  obtain ⟨⟨resp, s'⟩, hok, -⟩ := Runs.map_eq_ok.mp hcall
  refine ⟨resp, s', hok, (Ledger.resave_iff (by decide +kernel) (by decide +kernel) hok).mpr fun _ => ?_⟩
  constructor
  · intro n hn
    have hnone : (after twoSpends).getNextSnapshot 0 usd (at_ 10 12) = none := by decide +kernel
    cases hnone.symm.trans hn
  · intro _
    refine ⟨by decide +kernel, .inr ⟨(0, adjustmentRow 0 usd 150 (Time.injectionTs (at_ 10 12)) none
      Ledger.injectionNotes), 50, 100, some 50, ?_⟩⟩
    exact
      { amount := by decide +kernel
        found := by decide +kernel
        linked := by decide +kernel
        only := by decide +kernel
        shared := by decide +kernel
        requires := by decide +kernel
        positive := by norm_num
        needs := by decide +kernel
        holds := by decide +kernel }

end Sample

end FinHub
