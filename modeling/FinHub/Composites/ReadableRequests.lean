import FinHub.Balance.Readable
import FinHub.Composites.Atomicity

/-!
# FinHub.Composites.ReadableRequests

Requests after which every balance can still be read.

The writers store a transaction without an amount, and a fee that is a percentage of a missing total.

* `Ledger.CallFits`: the ledger call writes none that a query would meet, so the books stay readable
  (`Ledger.BooksReadable.call`).
* `CompositeRequest.FullFits`: the same for a transaction with its fees. A transfer always fits.
-/

namespace FinHub

open Calendar Tabular Db Scheduler

/-! ## What a request stores -/

namespace Ledger

variable {s s' : Ledger}

/-- The row of a body moves nothing, has an amount, or lies before every snapshot of its pair. -/
def TransactionFits (s : Ledger) (body : TransactionCreate) : Prop :=
  s.Fits (body.resolveInvestmentFields.toRow none none)

/-- The row of an edit fits, and so do the fees of the row with the edited total. -/
def EditFits (s : Ledger) (tx_id : ℕ) (body : TransactionCreate) : Prop :=
  s.TransactionFits body ∧ ∀ f ∈ s.fees.rows, f.2.transactionId = tx_id →
    (feeAmount f.2 body.resolveInvestmentFields.totalValue).isSome

/-- No row without an amount lies at or after the snapshot. -/
def SnapshotFits (s : Ledger) (body : BalanceSnapshotCreate) : Prop :=
  ∀ r ∈ s.transactions.rows, r.2.loopImpact = none → r.2.entityId = body.entityId →
    r.2.cashPocket = body.currency → r.2.timestamp < body.timestamp

instance (s : Ledger) (body : BalanceSnapshotCreate) : Decidable (s.SnapshotFits body) :=
  inferInstanceAs (Decidable (∀ r ∈ s.transactions.rows, _))

/-- The call stores nothing that a query could not read. -/
def CallFits (s : Ledger) : LedgerCall → Prop
  | .createTransaction body => s.TransactionFits body
  | .updateTransaction tx_id body => s.EditFits tx_id body
  | .createFee body | .updateFee _ body => s.FeeFits body
  | .createSnapshot body =>
    s.hasTransactionsOnOrAfter body.entityId body.currency body.timestamp = false → s.SnapshotFits body
  | .updateSnapshot _ body => s.SnapshotFits body
  | .deleteTransaction _ | .deleteFee _ | .createTax _ | .updateTax _ _ | .deleteTax _
  | .deleteSnapshot _ => True

/-- The rate of a cross-currency body fills in an amount only beside a total. -/
theorem resolveFxFields_cases (s : Ledger) (body : TransactionCreate) :
    body.resolveFxFields s = body ∨ ∃ total fx gross net, body.totalValue = some total ∧
      body.resolveFxFields s =
        { body with fxRate := some fx, grossAmount := some gross, netAmount := some net } := by
  unfold TransactionCreate.resolveFxFields
  cases body.paymentCurrency with
  | none => exact .inl rfl
  | some payment =>
    simp only
    split_ifs
    · exact .inl rfl
    · split
      · exact .inl rfl
      · exact .inl rfl
      · rename_i total fx htotal _
        exact .inr ⟨total, fx, _, _, htotal, rfl⟩

theorem totalValue_resolved (s : Ledger) (body : TransactionCreate) :
    (body.resolved s).totalValue = body.resolveInvestmentFields.totalValue := by
  unfold TransactionCreate.resolved
  rcases resolveFxFields_cases s body.resolveInvestmentFields with he | ⟨_, _, _, _, -, he⟩
  · rw [he]
  · rw [he]

/-- The stored row fits with whatever rule and mode it is stored. -/
theorem TransactionFits.row {body : TransactionCreate} (h : s.TransactionFits body) (l : Ledger)
    (hs : s'.snapshots = s.snapshots) (rule : Option String) (mode : Option BalanceMode) :
    s'.Fits ((body.resolved l).toRow rule mode) := by
  refine Fits.congr (s := s) ?_ hs
  unfold TransactionFits TransactionCreate.resolved at *
  rcases resolveFxFields_cases l body.resolveInvestmentFields with he | ⟨total, fx, gross, net, ht, he⟩
  · rw [he]
    exact h
  · rw [he]
    exact .of_isSome (isSome_loopImpact rfl)

/-! ## Ledger calls -/

/-- The call keeps a stored row's entity, its amount and what its fees are computed from. -/
theorem createTransaction_keeps {body : TransactionCreate} {resp : TransactionResponse}
    (hok : s.createTransaction body = .ok (resp, s')) : ∃ s₁, KeepsReadable s s₁ ∧
      resp.id = s₁.transactions.next ∧ (∃ rule mode, resp.row = (body.resolved s).toRow rule mode) ∧
      KeepsReadable (s₁.insertTransaction resp.row) s' := by
  obtain ⟨s₁, hcash, hid, hrow, hrec⟩ := createTransaction_cases hok
  exact ⟨s₁, .ensureCash hcash, hid, ⟨_, _, hrow⟩, (KeepsReadable.attach _ _ _).trans (.recalculateFor hrec)⟩

theorem updateTransaction_keeps {tx_id : ℕ} {body : TransactionCreate} {resp : TransactionResponse}
    (hok : s.updateTransaction tx_id body = .ok (resp, s')) :
    (∃ existing rule mode, resp.row = { (body.resolved s).toRow rule mode with
      balanceSnapshotId := existing }) ∧
    KeepsReadable (s.modifyTransaction tx_id fun _ => resp.row) s' := by
  obtain ⟨existing, s₁, s₂, s₄, -, -, hrow, h₁, h₂, h₄, h₅⟩ := updateTransaction_cases hok
  refine ⟨⟨_, _, _, hrow⟩, (KeepsReadable.detach h₁).trans ((KeepsReadable.ensureCash h₂).trans ?_)⟩
  refine KeepsReadable.trans ?_ (.trans (.recalculateFor h₄) (.recalculateOld h₅))
  split_ifs
  · exact .attach _ _ _
  · exact .refl _

/-- A new row is no fee's parent. -/
theorem FeeFits.insert {f : TransactionFee} (h : s.FeeFits f)
    (hlt : f.transactionId < s.transactions.next) (t : Transaction) :
    (s.insertTransaction t).FeeFits f := by
  refine h.mono rfl fun t' hg' => ?_
  rcases Table.mem_insert.mp (mem_of_getTransaction hg') with hm | he
  · exact ⟨t', getTransaction_of_mem hm, rfl, id⟩
  · have hk : f.transactionId = s.transactions.next := (Prod.ext_iff.mp he).1
    exact absurd hlt (not_lt.mpr hk.ge)

/-- A new row that fits. -/
theorem BooksReadable.insert (h : s.BooksReadable) {t : Transaction} (ht : s.Fits t) :
    (s.insertTransaction t).BooksReadable where
  rows r hr := by
    rcases Table.mem_insert.mp hr with hr | rfl
    · exact h.rows r hr
    · exact ht
  fees f hf := (h.fees f hf).insert (s.fees_lt f hf) t

/-- An edited row that fits, and the fees of the others. -/
theorem BooksReadable.edit_others (h : s.BooksReadable) (tx_id : ℕ) {t : Transaction} (ht : s.Fits t) :
    (∀ r ∈ (s.modifyTransaction tx_id fun _ => t).transactions.rows, s.Fits r.2) ∧
      ∀ f ∈ s.fees.rows, f.2.transactionId ≠ tx_id →
        (s.modifyTransaction tx_id fun _ => t).FeeFits f.2 := by
  constructor
  · intro ⟨j, a⟩ hr
    rcases Table.mem_modify.mp hr with ⟨-, hr⟩ | ⟨rfl, b, hb, rfl⟩
    · exact h.rows _ hr
    · exact ht
  · intro f hf hne
    refine (h.fees f hf).mono rfl fun t' hg' => ⟨t', getTransaction_of_mem ?_, rfl, id⟩
    rcases Table.mem_modify.mp (mem_of_getTransaction hg') with ⟨-, hm⟩ | ⟨hk, -⟩
    · exact hm
    · exact absurd hk hne

/-- A fee whose amount does not need more than the total of the edited row. -/
theorem feeFits_of_row {k : ℕ} {t : Transaction} {f : TransactionFee}
    (hrow : s.getTransaction k = some t) (hid : f.transactionId = k)
    (h : (feeAmount f t.totalValue).isSome) : s.FeeFits f := by
  intro t' hg' _
  rw [hid, hrow] at hg'
  cases hg'
  exact h

theorem BooksReadable.insertFee (h : s.BooksReadable) {f : TransactionFee} (hf : s.FeeFits f)
    (hlt : f.transactionId < s.transactions.next) : (s.insertFee f hlt).BooksReadable where
  rows := h.rows
  fees g hg := by
    rcases Table.mem_insert.mp hg with hg | rfl
    · exact h.fees g hg
    · exact hf

theorem BooksReadable.modifyFee (h : s.BooksReadable) {f : TransactionFee} (hf : s.FeeFits f)
    (k : ℕ) (hlt : f.transactionId < s.transactions.next) : (s.modifyFee k f hlt).BooksReadable where
  rows := h.rows
  fees := by
    intro ⟨j, g⟩ hg
    rcases Table.mem_modify.mp hg with ⟨-, hg⟩ | ⟨-, -, -, rfl⟩
    · exact h.fees _ hg
    · exact hf

/-- Rows and fees may go, and other tables may change. -/
theorem BooksReadable.shrink (h : s.BooksReadable) (hent : s'.entities = s.entities)
    (hsnap : ∀ b ∈ s'.snapshots.rows, b ∈ s.snapshots.rows)
    (hfees : ∀ f ∈ s'.fees.rows, f ∈ s.fees.rows)
    (hrows : ∀ r ∈ s'.transactions.rows, r ∈ s.transactions.rows) : s'.BooksReadable where
  rows r hr hnone b hb := h.rows r (hrows r hr) hnone b (hsnap b hb)
  fees f hf := by
    refine (h.fees f (hfees f hf)).mono hent fun t' hg' => ⟨t', getTransaction_of_mem ?_, rfl, id⟩
    exact hrows _ (mem_of_getTransaction hg')

/-- A snapshot that fits, written over another or new. -/
theorem BooksReadable.setSnapshots (h : s.BooksReadable) {body : BalanceSnapshotCreate}
    (hbody : s.SnapshotFits body) {T : Table BalanceSnapshot}
    (hT : ∀ b ∈ T.rows, b ∈ s.snapshots.rows ∨ b.2 = snapshotRow body) :
    (s.setSnapshots T).BooksReadable where
  rows r hr hnone b hb he hc := by
    rcases hT b hb with hb | hnew
    · exact h.rows r hr hnone b hb he hc
    · rw [hnew] at he hc ⊢
      exact hbody r hr hnone he.symm hc.symm
  fees := h.fees

/-- Rows without an amount are never opened by a pass. -/
theorem KeepsReadable.snapshotFits (h : KeepsReadable s s') {body : BalanceSnapshotCreate}
    (hbody : s.SnapshotFits body) : s'.SnapshotFits body := by
  intro r hr hnone
  rcases h.rows r hr with ⟨t, ht, -, -, he | himpact⟩ | ⟨-, himpact⟩
  · rw [he] at hnone ⊢
    exact hbody _ ht hnone
  · rw [hnone] at himpact
    cases himpact
  · rw [hnone] at himpact
    cases himpact

/-- The rows of an edit that fits. -/
theorem fits_editedRow {body : TransactionCreate} (h : s.TransactionFits body) (rule : Option String)
    (mode : Option BalanceMode) (snapshot_id : Option ℕ) :
    s.Fits { (body.resolved s).toRow rule mode with balanceSnapshotId := snapshot_id } :=
  h.row s rfl rule mode

theorem BooksReadable.updateTransaction (h : s.BooksReadable) {tx_id : ℕ} {body : TransactionCreate}
    {resp : TransactionResponse} (hfits : s.EditFits tx_id body)
    (hok : s.updateTransaction tx_id body = .ok (resp, s')) : s'.BooksReadable := by
  obtain ⟨existing, -, -, -, hg, -⟩ := updateTransaction_cases hok
  obtain ⟨⟨old, rule, mode, hrow⟩, hkeeps⟩ := updateTransaction_keeps hok
  have hrowFits : s.Fits resp.row := hrow ▸ fits_editedRow hfits.1 rule mode old
  obtain ⟨hrows, hothers⟩ := h.edit_others tx_id hrowFits
  refine hkeeps.booksReadable ⟨fun r hr => (hrows r hr).congr rfl, fun f hf => ?_⟩
  by_cases hid : f.2.transactionId = tx_id
  · refine feeFits_of_row (t := resp.row) ?_ hid ?_
    · exact getTransaction_of_mem (Table.mem_modify.mpr (.inr ⟨rfl, existing, mem_of_getTransaction hg, rfl⟩))
    · rw [hrow]
      change (feeAmount f.2 (body.resolved s).totalValue).isSome
      rw [totalValue_resolved]
      exact hfits.2 f hf hid
  · exact hothers f hf hid

theorem BooksReadable.call (h : s.BooksReadable) {c : LedgerCall} (hfits : s.CallFits c)
    (hok : s.call c = .ok s') : s'.BooksReadable := by
  cases c with
  | createTransaction body =>
    obtain ⟨⟨resp, l⟩, hrun, rfl⟩ := Runs.map_eq_ok.mp hok
    obtain ⟨s₁, hcash, -, ⟨rule, mode, hrow⟩, hrest⟩ := createTransaction_keeps hrun
    refine hrest.booksReadable ((hcash.booksReadable h).insert ?_)
    rw [hrow]
    exact TransactionFits.row hfits s hcash.snapshots rule mode
  | updateTransaction tx_id body =>
    obtain ⟨⟨resp, l⟩, hrun, rfl⟩ := Runs.map_eq_ok.mp hok
    exact h.updateTransaction hfits hrun
  | deleteTransaction tx_id =>
    obtain ⟨existing, s₂, -, -, rfl, hcase⟩ := deleteTransactionSvc_cases hok
    have hkeeps := ((KeepsReadable.removeLinks s tx_id).trans (.delete _ tx_id)).trans
      (.foldl_deleteInjectionIfUnlinked _ (s.attachedInjections existing tx_id))
    rcases hcase with ⟨-, rfl⟩ | ⟨-, hrec⟩
    · exact hkeeps.booksReadable h
    · exact (hkeeps.trans (.recalculateAdjustments hrec)).booksReadable h
  | createFee body =>
    obtain ⟨⟨fee_id, l⟩, hrun, rfl⟩ := Runs.map_eq_ok.mp hok
    obtain ⟨hlt, -, hrec⟩ := createFee_cases hrun
    exact (KeepsReadable.reconcileAfterFeeChange hrec).booksReadable (h.insertFee hfits hlt)
  | updateFee fee_id body =>
    obtain ⟨existing, hlt, -, hrec⟩ := updateFee_cases hok
    exact (KeepsReadable.reconcileAfterFeeChange hrec).booksReadable (h.modifyFee hfits fee_id hlt)
  | deleteFee fee_id =>
    obtain ⟨existing, -, hrec⟩ := deleteFee_cases hok
    refine (KeepsReadable.reconcileAfterFeeChange hrec).booksReadable (h.shrink rfl (fun _ hb => hb)
      (fun f hf => (Table.mem_erase.mp hf).1) fun _ hr => hr)
  | createTax body =>
    obtain ⟨⟨tax_id, l⟩, hrun, rfl⟩ := Runs.map_eq_ok.mp hok
    obtain ⟨hlt, -, hrec⟩ := createTax_cases hrun
    exact (KeepsReadable.reconcileAfterFeeChange hrec).booksReadable (h.shrink rfl (fun _ hb => hb)
      (fun _ hf => hf) fun _ hr => hr)
  | updateTax tax_id body =>
    obtain ⟨existing, hlt, -, hrec⟩ := updateTax_cases hok
    exact (KeepsReadable.reconcileAfterFeeChange hrec).booksReadable (h.shrink rfl (fun _ hb => hb)
      (fun _ hf => hf) fun _ hr => hr)
  | deleteTax tax_id =>
    obtain ⟨existing, -, hrec⟩ := deleteTax_cases hok
    exact (KeepsReadable.reconcileAfterFeeChange hrec).booksReadable (h.shrink rfl (fun _ hb => hb)
      (fun _ hf => hf) fun _ hr => hr)
  | createSnapshot body =>
    obtain ⟨⟨snapshot_id, l⟩, hrun, rfl⟩ := Runs.map_eq_ok.mp hok
    obtain ⟨hfree, -, hadj⟩ := createSnapshot_cases hrun
    obtain ⟨expected, -, hl⟩ := createOrUpdateAdjustment_cases hadj
    change BooksReadable l
    rw [hl]
    refine (KeepsReadable.setSnapshotAdjustment _ _ _ _ _ _).booksReadable
      (h.setSnapshots (hfits hfree) ?_)
    intro b hb
    rcases Table.mem_insert.mp hb with hb | rfl
    · exact .inl hb
    · exact .inr rfl
  | updateSnapshot snapshot_id body =>
    obtain ⟨existing, s₁, -, hcase, rfl⟩ := updateSnapshot_cases hok
    have hfirst : s₁.BooksReadable ∧ s₁.SnapshotFits body := by
      rcases hcase with ⟨-, -, rfl⟩ | ⟨-, hadj⟩
      · exact ⟨h, hfits⟩
      · obtain ⟨expected, -, rfl⟩ := createOrUpdateAdjustment_cases hadj
        have hkeeps : KeepsReadable s ((s.deleteAdjustmentTransaction existing.entityId
            existing.currency snapshot_id).setSnapshotAdjustment body.entityId body.currency
            snapshot_id body.timestamp (body.amount - expected)) := by
          have hdelete : KeepsReadable s (s.deleteAdjustmentTransaction existing.entityId
              existing.currency snapshot_id) :=
            ⟨rfl, rfl, rfl, le_rfl,
              fun r hr => .inl ⟨r.2, (Table.mem_removeWhere.mp hr).1, .refl r.2⟩⟩
          exact hdelete.trans (.setSnapshotAdjustment _ _ _ _ _ _)
        exact ⟨hkeeps.booksReadable h, hkeeps.snapshotFits hfits⟩
    refine hfirst.1.setSnapshots hfirst.2 ?_
    intro ⟨j, b⟩ hb
    rcases Table.mem_modify.mp hb with ⟨-, hb⟩ | ⟨-, -, -, rfl⟩
    · exact .inl hb
    · exact .inr rfl
  | deleteSnapshot snapshot_id =>
    obtain ⟨existing, -, rfl⟩ := deleteSnapshot_cases hok
    exact h.shrink rfl (fun b hb => (Table.mem_erase.mp hb).1) (fun _ hf => hf)
      fun r hr => (Table.mem_removeWhere.mp hr).1

end Ledger

/-! ## Composite requests -/

namespace Ledger

variable {s s' : Ledger} {body : TransactionCreate} {resp : TransactionResponse}

/-- A created row can be read, and the fees that get their amount from its total. -/
theorem createTransaction_readable (h : s.BooksReadable) (hfits : s.TransactionFits body)
    (hok : s.createTransaction body = .ok (resp, s')) :
    s'.BooksReadable ∧ resp.id < s'.transactions.next ∧ s'.snapshots = s.snapshots ∧
      (∀ f, s.FeeFits f → f.transactionId < s.transactions.next → s'.FeeFits f) ∧
      ∀ f : TransactionFee, f.transactionId = resp.id →
        (feeAmount f body.resolveInvestmentFields.totalValue).isSome → s'.FeeFits f := by
  obtain ⟨s₁, hcash, hid, ⟨rule, mode, hrow⟩, hrest⟩ := createTransaction_keeps hok
  have hlt : resp.id < (s₁.insertTransaction resp.row).transactions.next := hid ▸ Nat.lt_succ_self _
  refine ⟨hrest.booksReadable ((hcash.booksReadable h).insert ?_), hlt.trans_le hrest.next,
    hrest.snapshots.trans hcash.snapshots, fun f hf hflt => ?_, fun f hfid hf => ?_⟩
  · rw [hrow]
    exact hfits.row s hcash.snapshots rule mode
  · have hflt₁ := hflt.trans_le hcash.next
    exact hrest.feeFits ((hcash.feeFits hf hflt).insert hflt₁ _) (Nat.lt_succ_of_lt hflt₁)
  · refine hrest.feeFits (feeFits_of_row (getTransaction_of_mem
      (Table.mem_insert.mpr (.inr (congrArg (·, resp.row) hid)))) hfid ?_) (hfid ▸ hlt)
    rw [hrow]
    change (feeAmount f (body.resolved s).totalValue).isSome
    rw [totalValue_resolved]
    exact hf

/-- An edited row can be read, and the fees that get their amount from its new total; the old fees of
the row may not be. -/
theorem updateTransaction_readable {tx_id : ℕ} (h : s.BooksReadable) (hfits : s.TransactionFits body)
    (hok : s.updateTransaction tx_id body = .ok (resp, s')) :
    (s'.deleteFeesByTransaction tx_id).BooksReadable ∧ resp.id = tx_id ∧
      tx_id < s'.transactions.next ∧ ∀ f : TransactionFee, f.transactionId = tx_id →
        (feeAmount f body.resolveInvestmentFields.totalValue).isSome → s'.FeeFits f := by
  obtain ⟨existing, -, -, -, hg, hid, -⟩ := updateTransaction_cases hok
  obtain ⟨⟨old, rule, mode, hrow⟩, hkeeps⟩ := updateTransaction_keeps hok
  have hrowFits : s.Fits resp.row := hrow ▸ fits_editedRow hfits rule mode old
  obtain ⟨hrows, hothers⟩ := h.edit_others tx_id hrowFits
  have hlt : tx_id < s.transactions.next := s.getTransaction_lt hg
  refine ⟨⟨hkeeps.rowsFit fun r hr => (hrows r hr).congr rfl, fun f hf => ?_⟩, hid,
    hlt.trans_le hkeeps.next, fun f hfid hf => ?_⟩
  · obtain ⟨hf, hne⟩ := Table.mem_removeWhere.mp hf
    have hold : f ∈ s.fees.rows := by
      rw [hkeeps.fees] at hf
      exact hf
    have hkept := hkeeps.feeFits (hothers f hold (by simpa using hne)) (s.fees_lt f hold)
    exact hkept
  · refine hkeeps.feeFits (feeFits_of_row (t := resp.row) (getTransaction_of_mem
      (Table.mem_modify.mpr (.inr ⟨rfl, existing, mem_of_getTransaction hg, rfl⟩))) hfid ?_)
      (hfid ▸ hlt)
    rw [hrow]
    change (feeAmount f (body.resolved s).totalValue).isSome
    rw [totalValue_resolved]
    exact hf

end Ledger

/-- A request on a database `d` that has not committed yet. -/
def During (d : Database) (P : Ledger → Prop) (s : Session Database) : Prop :=
  s.committed = d ∧ P s.working.ledger

variable {d : Database} {torn : Database → Database} {P : Ledger → Prop}

theorem onLedger_during {α : Type} {f : Ledger → Except SvcError (α × Ledger)}
    {Q : α → Ledger → Prop} (h : ∀ l a l', P l → f l = .ok (a, l') → Q a l') :
    Work.Triple (During d P) (Database.onLedger torn f) (fun a => During d (Q a))
      fun _ s => s.committed = d := by
  refine .stmt (fun s a d' hs hok => ?_) fun s e hs _ => hs.1
  obtain ⟨r, hr, he⟩ : ∃ r, f s.working.ledger = .ok r ∧ (r.1, { s.working with ledger := r.2 }) =
      (a, d') := by
    cases hf : f s.working.ledger with
    | error e =>
      rw [hf] at hok
      cases hok
    | ok r =>
      rw [hf] at hok
      exact ⟨r, rfl, Except.ok.inj hok⟩
  cases he
  exact ⟨hs.1, h _ _ _ hs.2 hr⟩

/-- The commit of a request, or its rollback. -/
theorem saved_commit_last {α : Type} {w : Work Database CallError α} (hd : d.ledger.BooksReadable)
    (hw : Work.Triple (During d (· = d.ledger)) w (fun _ => During d Ledger.BooksReadable)
      fun _ s => s.committed = d) :
    ((Work.orRollback (w >>= fun a => Work.commit >>= fun _ => pure a)).saved d).ledger.BooksReadable := by
  refine Work.Triple.saved (P := fun d : Database => d.ledger.BooksReadable) ?_
  have hbody : Work.Triple (fun s => s = .ofDb d)
      (w >>= fun a => Work.commit >>= fun _ => pure a)
      (fun _ s => s.committed.ledger.BooksReadable) fun _ s => s.committed = d := by
    refine .bind (hw.consequence (fun s hs => hs ▸ ⟨rfl, rfl⟩) (fun _ _ h => h) fun _ _ h => h)
      fun a => ?_
    exact .bind (Q := fun _ s => s.committed.ledger.BooksReadable) (.commit fun s hs => hs.2)
      fun _ => .pure fun s hs => hs
  exact hbody.orRollback fun e s hs => hs ▸ hd

/-- The fees of a request, each with an amount on its parent. -/
def FeesFit (fees : List TransactionFeeInner) (tx_id : ℕ) (l : Ledger) : Prop :=
  l.BooksReadable ∧ tx_id < l.transactions.next ∧ ∀ f ∈ fees, l.FeeFits (f.toFee tx_id)

theorem createFeesOn_during (tx_id : ℕ) (fees : List TransactionFeeInner) :
    Work.Triple (During d (FeesFit fees tx_id)) (createFeesOn torn tx_id fees)
      (fun _ => During d (FeesFit fees tx_id)) fun _ s => s.committed = d := by
  refine .mapM fun f hf => onLedger_during fun l fee_id l' hl hok => ?_
  obtain ⟨hread, hlt, hfees⟩ := hl
  obtain ⟨hparent, -, hrec⟩ := Ledger.createFee_cases hok
  have hkeeps := Ledger.KeepsReadable.reconcileAfterFeeChange hrec
  refine ⟨hkeeps.booksReadable (hread.insertFee (hfees f hf) hparent), hlt.trans_le hkeeps.next, ?_⟩
  intro g hg
  have hgf := hfees g hg
  exact hkeeps.feeFits hgf hlt

theorem createTaxesOn_during (tx_id : ℕ) (taxes : List TransactionTaxInner) :
    Work.Triple (During d Ledger.BooksReadable) (createTaxesOn torn tx_id taxes)
      (fun _ => During d Ledger.BooksReadable) fun _ s => s.committed = d :=
  .mapM fun x _ => onLedger_during fun l tax_id l' hl hok =>
    hl.call (c := .createTax (x.toTax tx_id)) trivial (by
      simp only [Ledger.call, hok]
      rfl)

namespace CompositeRequest

/-- The transaction of a full request fits, and each of its fees has an amount on it. -/
def FullFits (l : Ledger) (body : FullTransactionCreate) : Prop :=
  l.TransactionFits body.transaction ∧ ∀ f ∈ body.fees,
    (Ledger.feeAmount (f.toFee 0) body.transaction.resolveInvestmentFields.totalValue).isSome

theorem fullCreate_readable {body : FullTransactionCreate} (hd : d.ledger.BooksReadable)
    (hfits : FullFits d.ledger body) :
    ((TransactionFullSvc.create torn body).saved d).ledger.BooksReadable := by
  refine saved_commit_last hd ?_
  refine .bind (Q := fun tx => During d (FeesFit body.fees tx.id)) (onLedger_during ?_) fun tx => ?_
  · rintro l resp l' rfl hok
    obtain ⟨hread, hlt, -, -, hfees⟩ := Ledger.createTransaction_readable hd hfits.1 hok
    exact ⟨hread, hlt, fun f hf => hfees _ rfl (hfits.2 f hf)⟩
  · refine .bind (Q := fun _ => During d Ledger.BooksReadable)
      ((createFeesOn_during tx.id body.fees).consequence (fun _ h => h)
      (fun _ s h => ⟨h.1, h.2.1⟩) fun _ _ h => h) fun _ => ?_
    exact .bind (createTaxesOn_during tx.id body.taxes) fun _ => .pure fun _ h => h

theorem fullUpdate_readable {tx_id : ℕ} {body : FullTransactionCreate}
    (hd : d.ledger.BooksReadable) (hfits : FullFits d.ledger body) :
    ((TransactionFullSvc.updateFull torn tx_id body).saved d).ledger.BooksReadable := by
  refine saved_commit_last hd ?_
  -- Until its fees are gone, the edited row may have some that cannot be read.
  refine .bind (Q := fun tx => During d fun l => tx.id = tx_id ∧ FeesFit body.fees tx_id
    (l.deleteFeesByTransaction tx_id)) (onLedger_during ?_) fun tx => ?_
  · rintro l resp l' rfl hok
    obtain ⟨hread, hid, hlt, hfees⟩ := Ledger.updateTransaction_readable hd hfits.1 hok
    refine ⟨hid, hread, hlt, fun f hf => ?_⟩
    have hfee := hfees (f.toFee tx_id) rfl (hfits.2 f hf)
    exact hfee
  refine .bind (Q := fun _ => During d fun l => tx.id = tx_id ∧ FeesFit body.fees tx_id l)
    (.write fun s hs => hs) fun _ => ?_
  refine .bind (Q := fun _ => During d fun l => tx.id = tx_id ∧ FeesFit body.fees tx_id l)
    (.write fun s hs => ⟨hs.1, hs.2.1, hs.2.2.1.shrink rfl (fun _ hb => hb) (fun _ hf => hf)
      fun _ hr => hr, hs.2.2.2⟩) fun _ => ?_
  intro s ⟨hs, hid, hfees⟩
  rw [hid]
  refine Work.Triple.bind (P := During d (FeesFit body.fees tx_id))
    (Q := fun _ => During d Ledger.BooksReadable) ((createFeesOn_during tx_id body.fees).consequence
      (fun _ h => h) (fun _ s h => ⟨h.1, h.2.1⟩) fun _ _ h => h) (fun _ => ?_) s ⟨hs, hfees⟩
  refine .bind (createTaxesOn_during tx_id body.taxes) fun _ => ?_
  refine .bind (Q := fun _ => During d Ledger.BooksReadable) (onLedger_during fun l _ l' hl hok => ?_)
    fun _ => .pure fun _ h => h
  obtain ⟨l'', hrec, he⟩ := Runs.map_eq_ok.mp hok
  cases he
  exact (Ledger.KeepsReadable.reconcileAfterFeeChange hrec).booksReadable hl

theorem batchCreate_readable {bodies : List TransactionCreate} (hd : d.ledger.BooksReadable)
    (hfits : ∀ b ∈ bodies, d.ledger.TransactionFits b) :
    ((TransactionBatchSvc.create torn bodies).saved d).ledger.BooksReadable := by
  refine saved_commit_last hd ?_
  refine Work.Triple.consequence (P := During d fun l => l.BooksReadable ∧
    l.snapshots = d.ledger.snapshots) (Q := fun _ => During d fun l => l.BooksReadable ∧
    l.snapshots = d.ledger.snapshots) (E := fun _ s => s.committed = d) (.mapM fun b hb => ?_)
    (fun s hs => ⟨hs.1, hs.2 ▸ hd, hs.2 ▸ rfl⟩) (fun _ s hs => ⟨hs.1, hs.2.1⟩) fun _ _ h => h
  refine onLedger_during fun l resp l' hl hok => ?_
  obtain ⟨hread, -, hsnap, -⟩ := Ledger.createTransaction_readable hl.1
    ((hfits b hb).congr hl.2) hok
  exact ⟨hread, hsnap.trans hl.2⟩

/-- Both rows of a transfer have an amount, and so have its fees. -/
theorem transferCreate_readable {body : TransferCreate} (hd : d.ledger.BooksReadable) :
    ((TransferSvc.create torn body).saved d).ledger.BooksReadable := by
  have hout : ∀ l : Ledger, l.TransactionFits (TransferSvc.outBody body) := fun l =>
    .of_isSome (Ledger.isSome_loopImpact rfl)
  have hin : ∀ l : Ledger, l.TransactionFits (TransferSvc.inBody body) := fun l =>
    .of_isSome (Ledger.isSome_loopImpact rfl)
  have hamount : ∀ f : TransactionFee, (Ledger.feeAmount f
      (TransferSvc.outBody body).resolveInvestmentFields.totalValue).isSome := by
    intro f
    change (Ledger.feeAmount f (some body.amount)).isSome
    unfold Ledger.feeAmount
    cases f.nature <;> rfl
  refine saved_commit_last hd ?_
  refine .bind (Q := fun _ => During d (· = d.ledger)) ?_ fun _ => ?_
  · refine .bind (Q := fun _ => During d (· = d.ledger)) (.read fun s hs => hs) fun e => ?_
    cases e with
    | none => exact .pure fun s hs => hs
    | some e => exact .raise fun s hs => hs.1
  refine .bind (Q := fun tx => During d (FeesFit
    (body.fees.map fun f => { f with brokerFeeDefinitionId := none }) tx.id)) (onLedger_during ?_)
    fun out_tx => ?_
  · rintro l resp l' rfl hok
    obtain ⟨hread, hlt, -, -, hfees⟩ := Ledger.createTransaction_readable hd (hout _) hok
    exact ⟨hread, hlt, fun f _ => hfees _ rfl (hamount _)⟩
  refine .bind (Q := fun _ => During d (FeesFit
    (body.fees.map fun f => { f with brokerFeeDefinitionId := none }) out_tx.id))
    (onLedger_during fun l resp l' hl hok => ?_) fun in_tx => ?_
  · obtain ⟨s₁, hcash, -, -, hrest⟩ := Ledger.createTransaction_keeps hok
    obtain ⟨hread, -, -, hold, -⟩ := Ledger.createTransaction_readable hl.1 (hin l) hok
    have hlt : out_tx.id < s₁.transactions.next + 1 :=
      Nat.lt_succ_of_lt (hl.2.1.trans_le hcash.next)
    exact ⟨hread, hlt.trans_le hrest.next, fun f hf => hold _ (hl.2.2 f hf) hl.2.1⟩
  · refine .bind (Q := fun _ => During d Ledger.BooksReadable) ((createFeesOn_during _ _).consequence
      (fun _ h => h) (fun _ s h => ⟨h.1, h.2.1⟩) fun _ _ h => h) fun _ => .pure fun _ h => h

end CompositeRequest

end FinHub
