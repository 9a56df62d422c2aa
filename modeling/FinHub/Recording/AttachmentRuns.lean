import FinHub.Recording.Attachment

/-!
# FinHub.Recording.AttachmentRuns

Runs of ledger calls under the attachment invariant.

* `ensureCash` and `linkInjection`: what a spend opens it also links.
* `refreshInjections`, `deleteInjectionIfUnlinked`: what an edit or a deletion unlinks is settled.
* `AttachmentAllowed`: the calls that keep the invariant. Left out are bodies and edits that make or
  unmake an inferred-cash row by hand, and the fee passes that open an injection (they find no spend
  to link it to) or drop one (they leave its links behind).
-/

namespace FinHub

open Tabular

/-- The row under `id` is the injection that funds the pair on the day of `timestamp`. -/
def InjectionAt (s : Ledger) (entity_id : ℕ) (currency : Currency) (timestamp : Timestamp)
    (id : ℕ) : Prop :=
  ∃ t, (id, t) ∈ s.transactions.rows ∧ Ledger.isInjection t = true ∧ t.entityId = entity_id ∧
    t.currency = currency ∧ t.timestamp = Time.injectionTs timestamp

/-- Whatever row stands under `id` is an injection. -/
def OnlyInjection (s : Ledger) (id : ℕ) : Prop :=
  ∀ t, (id, t) ∈ s.transactions.rows → Ledger.isInjection t = true

namespace AttachedExcept

variable {s s' : Ledger} {pending : ℕ → Prop}

/-! ## Opening and linking -/

theorem inject (h : Attached s) (entity_id : ℕ) (currency : Currency) (timestamp : Timestamp)
    (needed : ℚ) :
    AttachedExcept (InjectionAt (s.inject entity_id currency timestamp needed) entity_id currency
      timestamp) (s.inject entity_id currency timestamp needed) := by
  rcases Ledger.inject_cases s entity_id currency timestamp needed with ⟨r, hr, he⟩ | ⟨hr, he⟩
  · obtain ⟨hm, -, -, hi, -⟩ := Ledger.getInjectedAdjustmentAt_eq_some hr
    rw [he]
    refine (h.modify fun t ht => ?_).mono fun _ _ _ _ hf => hf.elim
    obtain rfl : t = r.2 := s.transactions.unique ht hm
    exact .withAmount hi _
  · rw [he]
    refine (h.insertInjection rfl ?_ hr).mono ?_
    · show Time.injectionTs timestamp = Time.endOfDay (Time.dayOf (Time.injectionTs timestamp))
      rw [Time.dayOf_injectionTs]; rfl
    · rintro id t - - (hf | rfl)
      · exact hf.elim
      · refine ⟨_, Table.mem_insert.mpr (.inr rfl), ?_, rfl, rfl, rfl⟩
        exact Ledger.isInjection_iff.mpr ⟨rfl, rfl, likeInferredCash_injectionNotes⟩

/-- After the ensure step at most the injection of the body's own day is pending, and only when the
body is a spend with an amount. -/
theorem ensureCash (h : Attached s) {body : TransactionCreate} {mode : Option BalanceMode}
    {ex : Option ℕ} (hok : s.ensureCash body mode ex = .ok s') :
    AttachedExcept (InjectionAt s' body.entityId body.cashPocket body.timestamp) s' ∧
      (s' = s ∨ (body.spendAmount.isSome ∧ body.type.isSpend = true)) := by
  rcases Ledger.ensureCash_cases hok with rfl | ⟨cash_amount, needed, ha, hspend, -, rfl⟩
  · exact ⟨h.mono fun _ _ _ _ hf => hf.elim, .inl rfl⟩
  · exact ⟨h.inject _ _ _ _, .inr ⟨by rw [ha]; rfl, hspend⟩⟩

/-- Linking a spend settles the injection of its day. -/
theorem linkInjection {entity_id : ℕ} {currency : Currency} {timestamp : Timestamp} {k : ℕ}
    (spend : Transaction) (h : AttachedExcept (InjectionAt s entity_id currency timestamp) s)
    (hk : (k, spend) ∈ s.transactions.rows) (hspend : spend.type.isSpend = true)
    (he : spend.entityId = entity_id) (hc : spend.cashPocket = currency)
    (ht : spend.timestamp = timestamp) :
    Attached (s.linkInjection entity_id currency timestamp k) := by
  rcases Ledger.linkInjection_cases s entity_id currency timestamp k with ⟨r, hr, heq⟩ | ⟨hr, heq⟩
  · obtain ⟨hm, hre, hrc, hri, hrt⟩ := Ledger.getInjectedAdjustmentAt_eq_some hr
    have hj : Joins r.2 spend := by
      refine ⟨hri, hspend, by rw [he, hre], by rw [hc, hrc], ?_⟩
      rw [hrt, ht, Time.dayOf_injectionTs, sub_add_cancel]
    rw [heq]
    refine (h.link hm hk hj).mono ?_
    rintro id t - - ⟨⟨t', hm', hi', he', hc', ht'⟩, hne⟩
    exact hne (h.unique id r.1 t' r.2 hm' hm hi' hri (he'.trans hre.symm) (hc'.trans hrc.symm)
      (ht'.trans hrt.symm))
  · rw [heq]
    refine h.mono ?_
    rintro id t - - ⟨t', hm', hi', he', hc', ht'⟩
    exact Ledger.getInjectedAdjustmentAt_eq_none hr _ hm' he' hc' hi' ht'

/-! ## Settling -/

/-- An injection with a link is not pending. -/
theorem settle (h : AttachedExcept pending s) {a : ℕ}
    (hl : ∃ l ∈ s.links, l.balanceAdjustmentId = a) :
    AttachedExcept (fun id => pending id ∧ id ≠ a) s where
  linked id t hm hi hn := by
    by_cases hid : id = a
    · rw [hid]; exact hl
    · exact h.linked id t hm hi fun hp => hn ⟨hp, hid⟩
  joins := h.joins
  shape := h.shape
  unique := h.unique

theorem deleteInjectionIfUnlinked (h : AttachedExcept pending s) {a : ℕ} (ha : OnlyInjection s a) :
    AttachedExcept (fun id => pending id ∧ id ≠ a) (s.deleteInjectionIfUnlinked a) := by
  by_cases hl : ∃ l ∈ s.links, l.balanceAdjustmentId = a
  · rcases s.deleteInjectionIfUnlinked_cases a with he | ⟨row, -, -, hno, -⟩
    · rw [he]; exact h.settle hl
    · obtain ⟨l, hm, hla⟩ := hl
      exact absurd hla (hno l hm)
  have hno : ∀ l ∈ s.links, l.balanceAdjustmentId ≠ a := fun l hm he => hl ⟨l, hm, he⟩
  cases hg : s.getTransaction a with
  | none =>
    have he : s.deleteInjectionIfUnlinked a = s := by
      simp only [Ledger.deleteInjectionIfUnlinked, hg]
    rw [he]
    refine h.mono fun id t hm _ hp => ⟨hp, ?_⟩
    rintro rfl
    rw [Ledger.getTransaction_of_mem hm] at hg; cases hg
  | some row =>
    have hi := ha row (Ledger.mem_of_getTransaction hg)
    rw [Ledger.deleteInjectionIfUnlinked_of_unlinked hg hi hno]
    refine (h.remove ?_).mono ?_
    · intro l hm r hr hra
      have hra' : r.1 = a := by simpa using hra
      rw [hra']
      refine ⟨fun he => hno l hm he.symm, fun he => ?_⟩
      have hs := h.linked_isSpend hm (t := row) (by
        rw [← he]; exact Ledger.mem_of_getTransaction hg)
      rw [isSpend_of_isInjection hi] at hs; cases hs
    · intro id t hm _ hp
      refine ⟨hp, ?_⟩
      rintro rfl
      have := (Table.mem_removeWhere.mp hm).2
      simp at this

theorem dropInjection (h : AttachedExcept pending s) {a : ℕ} (ha : OnlyInjection s a) :
    AttachedExcept (fun id => pending id ∧ id ≠ a)
      ((s.removeLinksForTransaction a).deleteInjectionIfUnlinked a) := by
  have hlinks := h.removeLinks fun l =>
    decide (l.balanceAdjustmentId = a) || decide (l.linkedTransactionId = a)
  refine (hlinks.deleteInjectionIfUnlinked (a := a) ha).mono ?_
  rintro id t hm hi ⟨hp | ⟨l, hl, hid, htouch⟩, hne⟩
  · exact ⟨hp, hne⟩
  · refine absurd ?_ hne
    rcases Bool.or_eq_true _ _ ▸ htouch with h1 | h1
    · rw [← hid]; simpa using h1
    · -- An injection is not on the right of a link.
      have hla : l.linkedTransactionId = a := by simpa using h1
      obtain ⟨adj, spend, -, hs, hj⟩ := h.joins l hl
      rw [hla] at hs
      have := isSpend_of_isInjection (ha spend hs)
      rw [hj.isSpend] at this; cases this

theorem refreshInjection (h : AttachedExcept pending s) {a : ℕ} (ha : OnlyInjection s a)
    {ex : Option ℕ} (hok : s.refreshInjection a ex = .ok s') :
    AttachedExcept (fun id => pending id ∧ id ≠ a) s' := by
  rcases Ledger.refreshInjection_cases hok with ⟨rfl, hno⟩ | rfl | ⟨hatt, adj, req, hg, -, rfl⟩
  · refine h.mono fun id t hm hi hp => ⟨hp, ?_⟩
    rintro rfl
    rw [hno t (Ledger.getTransaction_of_mem hm)] at hi; cases hi
  · exact h.dropInjection ha
  · have hm := Ledger.mem_of_getTransaction hg
    refine (h.modify fun t ht => ?_).settle ?_
    · exact .withAmount (ha t ht) _
    · obtain ⟨x, hx⟩ := List.exists_mem_of_ne_nil _ hatt
      obtain ⟨l, hl, -⟩ := List.mem_map.mp hx
      obtain ⟨hl, hla⟩ := List.mem_filter.mp hl
      exact ⟨l, hl, by simpa using hla⟩

theorem onlyInjection_deleteInjectionIfUnlinked {a b : ℕ} (hb : OnlyInjection s b) :
    OnlyInjection (s.deleteInjectionIfUnlinked a) b := by
  rcases s.deleteInjectionIfUnlinked_cases a with he | ⟨_, -, -, -, he⟩ <;> rw [he]
  · exact hb
  · exact fun t ht => hb t (Table.mem_removeWhere.mp ht).1

theorem onlyInjection_refreshInjection {a b : ℕ} {ex : Option ℕ} (hb : OnlyInjection s b)
    (hok : s.refreshInjection a ex = .ok s') : OnlyInjection s' b := by
  rcases Ledger.refreshInjection_cases hok with ⟨rfl, -⟩ | rfl | ⟨-, adj, req, -, -, rfl⟩
  · exact hb
  · exact onlyInjection_deleteInjectionIfUnlinked (s := s.removeLinksForTransaction a) hb
  · intro t ht
    rcases Table.mem_modify.mp ht with ⟨-, hm⟩ | ⟨rfl, t', hm, rfl⟩
    · exact hb t hm
    · exact isInjection_withAmount (hb t' hm) _

/-- Refreshing every pending injection settles them all. -/
theorem refreshInjections {adjs : List ℕ} {ex : Option ℕ} (h : AttachedExcept (· ∈ adjs) s)
    (hall : ∀ a ∈ adjs, OnlyInjection s a) (hok : s.refreshInjections adjs ex = .ok s') :
    Attached s' := by
  induction adjs generalizing s with
  | nil =>
    cases hok
    exact h.mono fun _ _ _ _ hf => by cases hf
  | cons a adjs ih =>
    rw [Ledger.refreshInjections, List.foldlM_cons, Runs.bind_eq_ok] at hok
    obtain ⟨s₁, h1, hok⟩ := hok
    refine ih (s := s₁) ?_ ?_ hok
    · refine (h.refreshInjection (hall a List.mem_cons_self) h1).mono ?_
      rintro id t - - ⟨hid, hne⟩
      exact (List.mem_cons.mp hid).resolve_left hne
    · exact fun b hb => onlyInjection_refreshInjection (hall b (List.mem_cons_of_mem _ hb)) h1

theorem foldl_deleteInjectionIfUnlinked {adjs : List ℕ} (h : AttachedExcept (· ∈ adjs) s)
    (hall : ∀ a ∈ adjs, OnlyInjection s a) :
    Attached (adjs.foldl Ledger.deleteInjectionIfUnlinked s) := by
  induction adjs generalizing s with
  | nil => exact h.mono fun _ _ _ _ hf => by cases hf
  | cons a adjs ih =>
    refine ih (s := s.deleteInjectionIfUnlinked a) ?_ ?_
    · refine (h.deleteInjectionIfUnlinked (hall a List.mem_cons_self)).mono ?_
      rintro id t - - ⟨hid, hne⟩
      exact (List.mem_cons.mp hid).resolve_left hne
    · exact fun b hb => onlyInjection_deleteInjectionIfUnlinked (hall b (List.mem_cons_of_mem _ hb))

end AttachedExcept

/-! ## Rows that the passes leave alone -/

/-- Rows that are no adjustment stay as they are. -/
def RowsKept (s s' : Ledger) : Prop :=
  ∀ r ∈ s.transactions.rows, r.2.type ≠ .balanceAdjustment → r ∈ s'.transactions.rows

namespace RowsKept

variable {s s' s'' : Ledger}

theorem refl (s : Ledger) : RowsKept s s := fun _ hr _ => hr

theorem trans (h : RowsKept s s') (h' : RowsKept s' s'') : RowsKept s s'' :=
  fun r hr ht => h' r (h r hr ht) ht

theorem modify {k : ℕ} {f : Transaction → Transaction}
    (hk : ∀ t, (k, t) ∈ s.transactions.rows → t.type = .balanceAdjustment) :
    RowsKept s (s.modifyTransaction k f) := by
  rintro ⟨j, t⟩ hr ht
  refine Table.mem_modify.mpr (.inl ⟨?_, hr⟩)
  rintro rfl
  exact ht (hk t hr)

theorem inject (s : Ledger) (entity_id : ℕ) (currency : Currency) (timestamp : Timestamp)
    (needed : ℚ) : RowsKept s (s.inject entity_id currency timestamp needed) := by
  rcases Ledger.inject_cases s entity_id currency timestamp needed with ⟨r, hr, he⟩ | ⟨-, he⟩ <;>
    rw [he]
  · obtain ⟨hm, -, -, hi, -⟩ := Ledger.getInjectedAdjustmentAt_eq_some hr
    refine modify fun t ht => ?_
    obtain rfl : t = r.2 := s.transactions.unique ht hm
    exact (Ledger.isInjection_iff.mp hi).1
  · exact fun r hr _ => Table.mem_insert.mpr (.inl hr)

theorem ensureCash {body : TransactionCreate} {mode : Option BalanceMode} {ex : Option ℕ}
    (hok : s.ensureCash body mode ex = .ok s') : RowsKept s s' := by
  rcases Ledger.ensureCash_cases hok with rfl | ⟨_, _, -, -, -, rfl⟩
  · exact refl _
  · exact inject _ _ _ _ _

theorem deleteInjectionIfUnlinked (s : Ledger) (a : ℕ) :
    RowsKept s (s.deleteInjectionIfUnlinked a) := by
  rcases s.deleteInjectionIfUnlinked_cases a with he | ⟨row, hg, hi, -, he⟩ <;> rw [he]
  · exact refl _
  · intro r hr ht
    refine Table.mem_removeWhere.mpr ⟨hr, ?_⟩
    rw [beq_eq_false_iff_ne]
    rintro rfl
    rw [s.transactions.unique hr (Ledger.mem_of_getTransaction hg)] at ht
    exact ht (Ledger.isInjection_iff.mp hi).1

theorem refreshInjection {a : ℕ} {ex : Option ℕ} (ha : OnlyInjection s a)
    (hok : s.refreshInjection a ex = .ok s') : RowsKept s s' := by
  rcases Ledger.refreshInjection_cases hok with ⟨rfl, -⟩ | rfl | ⟨-, _, _, -, -, rfl⟩
  · exact refl _
  · exact deleteInjectionIfUnlinked (s.removeLinksForTransaction a) a
  · exact modify fun t ht => (Ledger.isInjection_iff.mp (ha t ht)).1

theorem refreshInjections {adjs : List ℕ} {ex : Option ℕ} (hall : ∀ a ∈ adjs, OnlyInjection s a)
    (hok : s.refreshInjections adjs ex = .ok s') : RowsKept s s' := by
  induction adjs generalizing s with
  | nil => cases hok; exact refl _
  | cons a adjs ih =>
    rw [Ledger.refreshInjections, List.foldlM_cons, Runs.bind_eq_ok] at hok
    obtain ⟨s₁, h1, hok⟩ := hok
    exact (refreshInjection (hall a List.mem_cons_self) h1).trans (ih (fun b hb =>
      AttachedExcept.onlyInjection_refreshInjection (hall b (List.mem_cons_of_mem _ hb)) h1) hok)

end RowsKept

/-! ## Calls -/

namespace Ledger

/-- The fee pass of a state, where it runs, finds an injection exactly when the pocket is short. -/
def FeePassNeutral (s : Ledger) (transaction_id : ℕ) : Prop :=
  ∀ tx main s₁ s₂ balance, s.getTransaction transaction_id = some tx →
    tx.type ≠ .balanceAdjustment →
    s.recalculateAdjustments tx.entityId tx.cashPocket tx.timestamp = .ok s₁ →
    (s₁.getEntity tx.entityId).bind Entity.mainCurrency = some main → main ≠ tx.currency →
    s₁.recalculateAdjustments tx.entityId main tx.timestamp = .ok s₂ →
    s₂.anchoredAt tx.entityId main tx.timestamp = false →
    s₂.getBalanceAtDate tx.entityId main tx.timestamp = some balance →
    ((s₂.getInjectedAdjustmentAt tx.entityId main (Time.injectionTs tx.timestamp)).isSome ↔
      balance < 0)

/-- An edit does not make or unmake an inferred-cash row, nor move one. -/
def EditKeepsInjection (existing row : Transaction) : Prop :=
  isInjection row = isInjection existing ∧ (isInjection existing = true →
    row.entityId = existing.entityId ∧ row.currency = existing.currency ∧
    row.paymentCurrency = existing.paymentCurrency ∧ row.timestamp = existing.timestamp)

/-- The calls that keep inferred cash attached. -/
def AttachmentAllowed (s : Ledger) : LedgerCall → Prop
  | .createTransaction body =>
    ¬ (body.type = .balanceAdjustment ∧ likeInferredCash body.notes = true)
  | .updateTransaction tx_id body => ∀ existing, s.getTransaction tx_id = some existing →
    EditKeepsInjection existing (s.editedRow (body.resolved s) existing)
  | .createFee body => ∀ h, (s.insertFee body h).FeePassNeutral body.transactionId
  | .updateFee fee_id body => ∀ h, (s.modifyFee fee_id body h).FeePassNeutral body.transactionId
  | .deleteFee fee_id => ∀ fee, s.getFee fee_id = some fee →
    (s.eraseFee fee_id).FeePassNeutral fee.transactionId
  | .createTax body => ∀ h, (s.insertTax body h).FeePassNeutral body.transactionId
  | .updateTax tax_id body => ∀ h, (s.modifyTax tax_id body h).FeePassNeutral body.transactionId
  | .deleteTax tax_id => ∀ tax, s.getTax tax_id = some tax →
    (s.eraseTax tax_id).FeePassNeutral tax.transactionId
  | .deleteTransaction _ | .createSnapshot _ | .updateSnapshot _ _ | .deleteSnapshot _ => True

end Ledger

namespace AttachedExcept

variable {s s' : Ledger}

theorem createTransaction (h : Attached s) {body : TransactionCreate} {resp : TransactionResponse}
    (hbody : ¬ (body.type = .balanceAdjustment ∧ likeInferredCash body.notes = true))
    (hok : s.createTransaction body = .ok (resp, s')) : Attached s' := by
  obtain ⟨s₁, h1, hid, hrow, hrec⟩ := Ledger.createTransaction_cases hok
  obtain ⟨hs₁, hcase⟩ := h.ensureCash h1
  have hno : Ledger.isInjection resp.row = false := by
    rw [Bool.eq_false_iff, hrow]
    intro hi
    obtain ⟨ht, -, hn⟩ := Ledger.isInjection_iff.mp hi
    exact hbody ⟨by simpa [TransactionCreate.toRow] using ht, by simpa [TransactionCreate.toRow] using hn⟩
  refine AttachedExcept.recalculateFor ?_ hrec
  unfold Ledger.attach
  split_ifs with hspend
  · refine linkInjection resp.row ((hs₁.insert hno).mono ?_)
      (Table.mem_insert.mpr (.inr (by rw [hid]))) ?_ ?_ ?_ ?_
    · rintro id t - - ⟨t', hm, hrest⟩
      exact ⟨t', Table.mem_insert.mpr (.inl hm), hrest⟩
    all_goals rw [hrow]
    · exact hspend
    · rfl
    · rfl
    · rfl
  · rcases hcase with rfl | ⟨-, hs⟩
    · exact h.insert hno
    · exact absurd hs hspend

theorem detach (h : Attached s) {existing : Transaction} {tx_id : ℕ} {row : Transaction}
    (hg : s.getTransaction tx_id = some existing) (hedit : Ledger.EditKeepsInjection existing row)
    (hok : (s.modifyTransaction tx_id fun _ => row).detach existing tx_id
      ((s.getAdjustmentsLinkedToTransaction tx_id).map Prod.fst) = .ok s') :
    Attached s' ∧ (row.type.isSpend = true → (tx_id, row) ∈ s'.transactions.rows) := by
  have hm := Ledger.mem_of_getTransaction hg
  have hnew : (tx_id, row) ∈ (s.transactions.modify tx_id fun _ => row).rows :=
    Table.mem_modify.mpr (.inr ⟨rfl, existing, hm, rfl⟩)
  unfold Ledger.detach at hok
  split_ifs at hok with hspend
  swap
  · -- The old row was no spend, so no link names it on the right.
    cases hok
    refine ⟨h.modify fun t ht => ?_, fun _ => hnew⟩
    obtain rfl : t = existing := s.transactions.unique ht hm
    exact ⟨hedit.1, hedit.2, fun _ hs => absurd hs hspend⟩
  have hno : Ledger.isInjection existing = false := by
    rw [Bool.eq_false_iff]
    intro hi
    rw [isSpend_of_isInjection hi] at hspend; cases hspend
  -- First drop the links of the row, then rewrite it: the two writes commute.
  have hlinks := h.removeLinks fun l =>
    decide (l.balanceAdjustmentId = tx_id) || decide (l.linkedTransactionId = tx_id)
  have hmod : AttachedExcept (· ∈ (s.getAdjustmentsLinkedToTransaction tx_id).map Prod.fst)
      ((s.modifyTransaction tx_id fun _ => row).removeLinksForTransaction tx_id) := by
    refine (hlinks.modify (k := tx_id) (f := fun _ => row) fun t ht => ?_).mono ?_
    · obtain rfl : t = existing := s.transactions.unique ht hm
      refine ⟨hedit.1, hedit.2, ?_⟩
      rintro ⟨l, hl, hlt⟩
      have := (List.mem_filter.mp hl).2
      simp [hlt] at this
    · rintro id t - - (hf | ⟨l, hl, hid, htouch⟩)
      · exact hf.elim
      obtain ⟨adj, spend, ha, hs, hj⟩ := h.joins l hl
      rcases Bool.or_eq_true _ _ ▸ htouch with h1 | h1
      · have hla : l.balanceAdjustmentId = tx_id := by simpa using h1
        rw [hla] at ha
        rw [s.transactions.unique hm ha, hj.injection] at hno; cases hno
      · have hlt : l.linkedTransactionId = tx_id := by simpa using h1
        refine List.mem_map.mpr ⟨(l.balanceAdjustmentId, adj), List.mem_filter.mpr ⟨ha, ?_⟩, hid⟩
        rw [← hlt]
        exact decide_eq_true hl
  have hall : ∀ a ∈ (s.getAdjustmentsLinkedToTransaction tx_id).map Prod.fst,
      OnlyInjection ((s.modifyTransaction tx_id fun _ => row).removeLinksForTransaction tx_id) a := by
    intro a ha t ht
    obtain ⟨r, hr, rfl⟩ := List.mem_map.mp ha
    obtain ⟨hr, hl⟩ := List.mem_filter.mp hr
    have hl : ⟨r.1, tx_id⟩ ∈ s.links := by simpa using hl
    rcases Table.mem_modify.mp ht with ⟨-, ht⟩ | ⟨hra, t', ht', rfl⟩
    · exact h.adjustment_isInjection hl ht
    · rw [hra] at hl
      rw [h.adjustment_isInjection hl hm] at hno; cases hno
  refine ⟨hmod.refreshInjections hall hok, fun hs => ?_⟩
  exact RowsKept.refreshInjections hall hok _ hnew fun ht => by rw [ht] at hs; cases hs

theorem updateTransaction (h : Attached s) {tx_id : ℕ} {body : TransactionCreate}
    {resp : TransactionResponse}
    (hbody : ∀ existing, s.getTransaction tx_id = some existing →
      Ledger.EditKeepsInjection existing (s.editedRow (body.resolved s) existing))
    (hok : s.updateTransaction tx_id body = .ok (resp, s')) : Attached s' := by
  obtain ⟨existing, s₁, s₂, s₄, hg, -, hrow, h1, h2, h4, h5⟩ := Ledger.updateTransaction_cases hok
  obtain ⟨hs₁, hkept⟩ := h.detach hg (by rw [hrow]; exact hbody existing hg) h1
  obtain ⟨hs₂, hcase⟩ := hs₁.ensureCash h2
  refine AttachedExcept.recalculateOld (AttachedExcept.recalculateFor ?_ h4) h5
  unfold Ledger.attach
  split_ifs with hamount hspend
  · have hrowspend : resp.row.type.isSpend = true := by rw [hrow]; exact hspend
    refine linkInjection resp.row hs₂ ?_ hrowspend ?_ ?_ ?_
    · refine RowsKept.ensureCash h2 _ (hkept hrowspend) fun ht => ?_
      rw [ht] at hrowspend; cases hrowspend
    all_goals rw [hrow]; rfl
  · rcases hcase with rfl | ⟨-, hs⟩
    · exact hs₁
    · exact absurd hs hspend
  · rcases hcase with rfl | ⟨ha, -⟩
    · exact hs₁
    · exact absurd ha hamount

theorem deleteTransactionSvc (h : Attached s) {tx_id : ℕ}
    (hok : s.deleteTransactionSvc tx_id = .ok s') : Attached s' := by
  obtain ⟨existing, s₂, hg, -, hs₂, hrest⟩ := Ledger.deleteTransactionSvc_cases hok
  have hm := Ledger.mem_of_getTransaction hg
  have hattached : ∀ a ∈ s.attachedInjections existing tx_id, ∃ t, (a, t) ∈ s.transactions.rows ∧
      ⟨a, tx_id⟩ ∈ s.links ∧ Ledger.isInjection t = true := by
    intro a ha
    unfold Ledger.attachedInjections at ha
    split_ifs at ha
    · obtain ⟨r, hr, rfl⟩ := List.mem_map.mp ha
      obtain ⟨hr, hl⟩ := List.mem_filter.mp hr
      have hl : ⟨r.1, tx_id⟩ ∈ s.links := by simpa using hl
      exact ⟨r.2, hr, hl, h.adjustment_isInjection hl hr⟩
    · cases ha
  have hlinks := h.removeLinks fun l =>
    decide (l.balanceAdjustmentId = tx_id) || decide (l.linkedTransactionId = tx_id)
  have hdel : AttachedExcept (· ∈ s.attachedInjections existing tx_id)
      ((s.removeLinksForTransaction tx_id).deleteTransaction tx_id) := by
    refine (hlinks.remove (p := fun r => r.1 == tx_id) ?_).mono ?_
    · intro l hl r _ hr
      have hr : r.1 = tx_id := by simpa using hr
      have htouch := (List.mem_filter.mp hl).2
      rw [hr]
      constructor <;> rintro he <;> simp [← he] at htouch
    · rintro id t hid - (hf | ⟨l, hl, hla, htouch⟩)
      · exact hf.elim
      rcases Bool.or_eq_true _ _ ▸ htouch with h1 | h1
      · -- The deleted row itself.
        have hid' := (Table.mem_removeWhere.mp hid).2
        have : id = tx_id := by rw [← hla]; simpa using h1
        simp [this] at hid'
      · have hlt : l.linkedTransactionId = tx_id := by simpa using h1
        have hspend := h.linked_isSpend hl (t := existing) (by rw [hlt]; exact hm)
        obtain ⟨adj, spend, ha, -, -⟩ := h.joins l hl
        rw [Ledger.attachedInjections, if_pos hspend]
        refine List.mem_map.mpr ⟨(l.balanceAdjustmentId, adj), List.mem_filter.mpr ⟨ha, ?_⟩, hla⟩
        rw [← hlt]
        exact decide_eq_true hl
  have hfold : Attached s₂ := by
    rw [hs₂]
    refine hdel.foldl_deleteInjectionIfUnlinked fun a ha t ht => ?_
    obtain ⟨t', ht', -, hi⟩ := hattached a ha
    rw [s.transactions.unique (Table.mem_removeWhere.mp ht).1 ht']
    exact hi
  rcases hrest with ⟨-, rfl⟩ | ⟨-, hrec⟩
  · exact hfold
  · exact hfold.recalculateAdjustments hrec

theorem reconcileFeeInjection (h : Attached s) {tx : Transaction} {main : Currency}
    (hneutral : s.anchoredAt tx.entityId main tx.timestamp = false → ∀ balance,
      s.getBalanceAtDate tx.entityId main tx.timestamp = some balance →
      ((s.getInjectedAdjustmentAt tx.entityId main (Time.injectionTs tx.timestamp)).isSome ↔
        balance < 0))
    (hok : s.reconcileFeeInjection tx main = .ok s') : Attached s' := by
  unfold Ledger.reconcileFeeInjection at hok
  split_ifs at hok with hanch
  · cases hok; exact h
  rw [Runs.bind_eq_ok] at hok
  obtain ⟨balance, hb, hok⟩ := hok
  have hiff := hneutral (Bool.eq_false_iff.mpr hanch) balance (Ledger.orTypeError_eq_ok.mp hb)
  cases hr : s.getInjectedAdjustmentAt tx.entityId main (Time.injectionTs tx.timestamp) with
  | some r =>
    have hneg : balance < 0 := hiff.mp (by rw [hr]; rfl)
    simp only [hr, if_neg (not_le.mpr hneg)] at hok
    cases hok
    obtain ⟨hm, -, -, hi, -⟩ := Ledger.getInjectedAdjustmentAt_eq_some hr
    refine h.modify fun t ht => ?_
    obtain rfl : t = r.2 := s.transactions.unique ht hm
    exact .withAmount hi _
  | none =>
    have hpos : 0 ≤ balance := not_lt.mp fun hneg => by
      have := hiff.mpr hneg
      rw [hr] at this; cases this
    simp only [hr, if_pos hpos] at hok
    cases hok; exact h

theorem reconcileAfterFeeChange (h : Attached s) {transaction_id : ℕ}
    (hneutral : s.FeePassNeutral transaction_id)
    (hok : s.reconcileAfterFeeChange transaction_id = .ok s') : Attached s' := by
  rcases Ledger.reconcileAfterFeeChange_cases hok with ⟨rfl, -⟩ | ⟨tx, s₁, hg, htype, h1, hrest⟩
  · exact h
  have hs₁ := h.recalculateAdjustments h1
  rcases hrest with ⟨-, rfl⟩ | ⟨-, rfl⟩ | ⟨main, s₂, hmain, hne, h2, h3⟩
  · exact hs₁
  · exact hs₁
  · refine (hs₁.recalculateAdjustments h2).reconcileFeeInjection ?_ h3
    exact fun ha balance hb => hneutral tx main s₁ s₂ balance hg htype h1 hmain hne h2 ha hb

theorem createOrUpdateAdjustment (h : Attached s) {entity_id : ℕ} {currency : Currency}
    {snapshot_id : ℕ} {timestamp : Timestamp} {target_amount : ℚ}
    (hok : s.createOrUpdateAdjustment entity_id currency snapshot_id timestamp target_amount =
      .ok s') : Attached s' := by
  obtain ⟨expected, -, rfl⟩ := Ledger.createOrUpdateAdjustment_cases hok
  exact h.setSnapshotAdjustment _ _ _ _ _

theorem deleteAdjustmentTransaction (h : Attached s) (entity_id : ℕ) (currency : Currency)
    (snapshot_id : ℕ) :
    Attached (s.deleteAdjustmentTransaction entity_id currency snapshot_id) := by
  refine h.remove fun l hl r hr hp => ?_
  simp only [Bool.and_eq_true, decide_eq_true_eq, Transaction.isAdjustment] at hp
  constructor <;> intro he
  · have := h.adjustment_isInjection hl (t := r.2) (by rw [← he]; exact hr)
    rw [isInjection_of_snapshot hp.2] at this; cases this
  · have := h.linked_isSpend hl (t := r.2) (by rw [← he]; exact hr)
    rw [hp.1.2] at this; cases this

theorem setSnapshots (h : Attached s) (b : Table BalanceSnapshot) : Attached (s.setSnapshots b) :=
  h.congr rfl rfl

/-- One allowed call keeps inferred cash attached. -/
theorem call (h : Attached s) {c : LedgerCall} (hc : s.AttachmentAllowed c)
    (hok : s.call c = .ok s') : Attached s' := by
  cases c with
  | createTransaction body =>
    obtain ⟨⟨resp, s₁⟩, h1, rfl⟩ := Runs.map_eq_ok.mp hok
    exact h.createTransaction hc h1
  | updateTransaction tx_id body =>
    obtain ⟨⟨resp, s₁⟩, h1, rfl⟩ := Runs.map_eq_ok.mp hok
    exact h.updateTransaction hc h1
  | deleteTransaction tx_id => exact h.deleteTransactionSvc hok
  | createFee body =>
    obtain ⟨⟨fee_id, s₁⟩, h1, rfl⟩ := Runs.map_eq_ok.mp hok
    obtain ⟨hlt, -, h2⟩ := Ledger.createFee_cases h1
    exact (h.congr rfl rfl : Attached (s.insertFee body hlt)).reconcileAfterFeeChange (hc hlt) h2
  | updateFee fee_id body =>
    obtain ⟨existing, hlt, -, h2⟩ := Ledger.updateFee_cases hok
    exact (h.congr rfl rfl : Attached (s.modifyFee fee_id body hlt)).reconcileAfterFeeChange (hc hlt) h2
  | deleteFee fee_id =>
    obtain ⟨existing, hf, h2⟩ := Ledger.deleteFee_cases hok
    exact (h.congr rfl rfl : Attached (s.eraseFee fee_id)).reconcileAfterFeeChange (hc existing hf) h2
  | createTax body =>
    obtain ⟨⟨tax_id, s₁⟩, h1, rfl⟩ := Runs.map_eq_ok.mp hok
    obtain ⟨hlt, -, h2⟩ := Ledger.createTax_cases h1
    exact (h.congr rfl rfl : Attached (s.insertTax body hlt)).reconcileAfterFeeChange (hc hlt) h2
  | updateTax tax_id body =>
    obtain ⟨existing, hlt, -, h2⟩ := Ledger.updateTax_cases hok
    exact (h.congr rfl rfl : Attached (s.modifyTax tax_id body hlt)).reconcileAfterFeeChange (hc hlt) h2
  | deleteTax tax_id =>
    obtain ⟨existing, hf, h2⟩ := Ledger.deleteTax_cases hok
    exact (h.congr rfl rfl : Attached (s.eraseTax tax_id)).reconcileAfterFeeChange (hc existing hf) h2
  | createSnapshot body =>
    obtain ⟨⟨id, s₁⟩, h1, rfl⟩ := Runs.map_eq_ok.mp hok
    obtain ⟨-, -, h2⟩ := Ledger.createSnapshot_cases h1
    exact (h.setSnapshots _).createOrUpdateAdjustment h2
  | updateSnapshot snapshot_id body =>
    obtain ⟨existing, s₁, -, hcase, rfl⟩ := Ledger.updateSnapshot_cases hok
    refine setSnapshots ?_ _
    rcases hcase with ⟨-, -, rfl⟩ | ⟨-, h1⟩
    · exact h
    · exact (h.deleteAdjustmentTransaction _ _ _).createOrUpdateAdjustment h1
  | deleteSnapshot snapshot_id =>
    obtain ⟨existing, -, rfl⟩ := Ledger.deleteSnapshot_cases hok
    exact (h.deleteAdjustmentTransaction _ _ _).setSnapshots _

end AttachedExcept

/-! ## Runs -/

/-- What inferred cash owes the spends it funds. -/
structure AttachmentLaws (s : Ledger) : Prop where
  attached : ∀ id t, (id, t) ∈ s.transactions.rows → Ledger.isInjection t = true →
    ∃ l ∈ s.links, l.balanceAdjustmentId = id
  joins : ∀ l ∈ s.links, ∃ adj spend, (l.balanceAdjustmentId, adj) ∈ s.transactions.rows ∧
    (l.linkedTransactionId, spend) ∈ s.transactions.rows ∧ Joins adj spend
  snapshotFree : ∀ id t, (id, t) ∈ s.transactions.rows → t.type = .balanceAdjustment →
    t.balanceSnapshotId.isSome → ∀ l ∈ s.links, l.balanceAdjustmentId ≠ id ∧ l.linkedTransactionId ≠ id
  onePerDay : ∀ i j a b, (i, a) ∈ s.transactions.rows → (j, b) ∈ s.transactions.rows →
    Ledger.isInjection a = true → Ledger.isInjection b = true → a.entityId = b.entityId →
    a.cashPocket = b.cashPocket → Time.dayOf a.timestamp = Time.dayOf b.timestamp → i = j

theorem AttachedExcept.laws {s : Ledger} (h : Attached s) : AttachmentLaws s where
  attached id t hm hi := h.linked id t hm hi not_false
  joins := h.joins
  snapshotFree id t hm htype hsid l hl := by
    obtain ⟨sid, hsid⟩ := Option.isSome_iff_exists.mp hsid
    constructor <;> rintro rfl
    · have := h.adjustment_isInjection hl hm
      rw [isInjection_of_snapshot hsid] at this; cases this
    · have := h.linked_isSpend hl hm
      rw [htype] at this; cases this
  onePerDay i j a b ha hb hia hib he hc hd := by
    obtain ⟨hpa, hta⟩ := h.shape i a ha hia
    obtain ⟨hpb, htb⟩ := h.shape j b hb hib
    refine h.unique i j a b ha hb hia hib he ?_ (by rw [hta, htb, hd])
    simpa [Transaction.cashPocket, hpa, hpb] using hc

/-- A profile before its first transaction is attached. -/
theorem attached_of_nil {s : Ledger} (ht : s.transactions.rows = []) (hl : s.links = []) :
    Attached s := by
  constructor <;> simp [ht, hl]

theorem attachment_of_reaches (s₀ : Ledger) {s : Ledger} (ht : s₀.transactions.rows = []) (hl : s₀.links = [])
    (h : Runs.Reaches Ledger.call Ledger.AttachmentAllowed s₀ s) : AttachmentLaws s :=
  (h.invariant (attached_of_nil ht hl) fun _ _ _ hs hc hok => hs.call hc hok).laws

namespace Sample

def spend (entity_id : ℕ) (currency : Currency) (amount : ℚ) (timestamp : Timestamp) : LedgerCall :=
  .createTransaction
    { timestamp, type := .moneyOut, entityId := entity_id, currency, totalValue := some amount }

/-- Euros come in at the broker, and a dollar fee is booked on them. -/
def feeOnIncome : List LedgerCall :=
  [.createTransaction
    { timestamp := at_ 10 9, type := .income, entityId := 1, currency := eur, totalValue := some 10 },
   .createFee { transactionId := 0, nature := .fixed, currency := usd, fixedAmount := 5 }]

/-- The fee opens an injection in dollars that is linked to nothing. -/
theorem feeOnIncome_unattached :
    profile.calls feeOnIncome = .ok (after feeOnIncome) ∧ ¬ AttachmentLaws (after feeOnIncome) := by
  refine ⟨calls_eq_after (by decide +kernel), fun h => ?_⟩
  have hlinks : (after feeOnIncome).links = [] := by decide +kernel
  have hrow : ∃ r ∈ (after feeOnIncome).transactions.rows, Ledger.isInjection r.2 = true := by
    decide +kernel
  obtain ⟨r, hr, hi⟩ := hrow
  obtain ⟨l, hl, -⟩ := h.attached r.1 r.2 hr hi
  rw [hlinks] at hl
  cases hl

/-- Two spends of one day share an injection; the first of them is deleted again. -/
def sharedInjection : List LedgerCall :=
  [spend 0 usd 30 (at_ 12 9), spend 0 usd 20 (at_ 12 10), .deleteTransaction 1]

theorem sharedInjection_attached : (after sharedInjection).links = [⟨0, 2⟩] ∧
    AttachmentLaws (after sharedInjection) := by
  refine ⟨by decide +kernel, attachment_of_reaches profile rfl rfl
    (Runs.reaches_of_foldlM (calls_eq_after (by decide +kernel)) ?_)⟩
  have hspend : ∀ (s : Ledger) (amount : ℚ) (ts : Timestamp),
      s.AttachmentAllowed (spend 0 usd amount ts) := fun _ _ _ h => TransactionType.noConfusion h.1
  exact ⟨hspend _ _ _, fun _ _ => ⟨hspend _ _ _, fun _ _ => ⟨trivial, fun _ _ => trivial⟩⟩⟩

end Sample

end FinHub
