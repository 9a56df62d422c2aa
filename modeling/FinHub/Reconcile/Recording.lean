import FinHub.Recording.AttachmentRuns
import FinHub.Reconcile.Settled

/-!
# FinHub.Reconcile.Recording

Recording and editing a transaction over reconciled snapshots.

A call writes up to three kinds of rows (the transaction, injections of the day before, one
adjustment) and each unsettles the snapshots that count its instant. `RecordingInPlace` says where
these instants have to lie for the refresh to reach all of them: off the pair's first snapshot, with
no snapshot between an injection and its spend, and with the refreshed adjustment in its interval.
`recording_reconciled` is the result, for every type but `BALANCE_ADJUSTMENT`, which the services
leave to the user.
-/

namespace FinHub

open Tabular

variable {s s' : Ledger} {A : ℕ × BalanceSnapshot → Prop}

/-! ## Frames -/

/-- The row is not the adjustment of a snapshot. -/
def NotOwn (t : Transaction) : Prop := t.type = .balanceAdjustment → t.balanceSnapshotId = none

theorem NotOwn.of_isInjection {t : Transaction} (h : Ledger.isInjection t = true) : NotOwn t :=
  fun _ => (Ledger.isInjection_iff.mp h).2.1

theorem NotOwn.not_own {t : Transaction} (h : NotOwn t) {k snapshot_id : ℕ} :
    ¬ Own s snapshot_id (k, t) := by
  rintro ⟨-, ht, hs⟩
  rw [h ht] at hs; cases hs

theorem KeepsOwn.modify {k : ℕ} {t : Transaction} {f : Transaction → Transaction}
    (hm : (k, t) ∈ s.transactions.rows) (ht : NotOwn t) (hf : NotOwn (f t)) :
    KeepsOwn s (s.modifyTransaction k f) := by
  refine .of_own rfl rfl (fun _ _ _ hch => hch) fun id x => ?_
  obtain ⟨j, x⟩ := x
  constructor
  · rintro ⟨hx, hxt, hxs⟩
    rcases Table.mem_modify.mp hx with ⟨-, hx⟩ | ⟨rfl, t', ht', rfl⟩
    · exact ⟨hx, hxt, hxs⟩
    · rw [s.transactions.unique ht' hm] at hxt hxs
      rw [hf hxt] at hxs; cases hxs
  · rintro ⟨hx, hxt, hxs⟩
    refine ⟨Table.mem_modify.mpr (.inl ⟨?_, hx⟩), hxt, hxs⟩
    rintro rfl
    rw [s.transactions.unique hx hm] at hxt hxs
    rw [ht hxt] at hxs; cases hxs

namespace PassFrame

theorem of_own (hc : Ledger.SameCharges s s') (hs : s'.snapshots = s.snapshots)
    (htz : s'.timezone = s.timezone) (hown : ∀ id x, Own s' id x ↔ Own s id x) : PassFrame s s' :=
  ⟨.of_own hs htz (fun _ x _ => (hc.charged_iff x.1).mp) hown, hc⟩

theorem insert (s : Ledger) {t : Transaction} (ht : NotOwn t) :
    PassFrame s (s.insertTransaction t) := by
  refine of_own (.insert s t) rfl rfl fun id x => ?_
  constructor
  · rintro ⟨hx, hxt, hxs⟩
    rcases Table.mem_insert.mp hx with hx | rfl
    · exact ⟨hx, hxt, hxs⟩
    · exact absurd ⟨hx, hxt, hxs⟩ ht.not_own
  · exact fun hx => ⟨Table.mem_insert.mpr (.inl hx.1), hx.2⟩

theorem modify {k : ℕ} {t : Transaction} {f : Transaction → Transaction}
    (hm : (k, t) ∈ s.transactions.rows) (ht : NotOwn t) (hf : NotOwn (f t))
    (hc : Ledger.SameCharges s (s.modifyTransaction k f)) : PassFrame s (s.modifyTransaction k f) :=
  ⟨.modify hm ht hf, hc⟩

theorem delete {k : ℕ} {t : Transaction} (hm : (k, t) ∈ s.transactions.rows) (ht : NotOwn t)
    (hc : Ledger.SameCharges s (s.deleteTransaction k)) : PassFrame s (s.deleteTransaction k) := by
  refine of_own hc rfl rfl fun id x => ?_
  constructor
  · exact fun hx => ⟨(Table.mem_erase.mp hx.1).1, hx.2⟩
  · rintro ⟨hx, hxt, hxs⟩
    refine ⟨Table.mem_erase.mpr ⟨hx, ?_⟩, hxt, hxs⟩
    intro hk
    obtain ⟨j, x⟩ := x
    simp only at hk
    subst hk
    rw [s.transactions.unique hx hm] at hxt hxs
    rw [ht hxt] at hxs; cases hxs

theorem of_same_rows (hc : Ledger.SameCharges s s') (hs : s'.snapshots = s.snapshots)
    (htz : s'.timezone = s.timezone) (ht : s'.transactions = s.transactions) : PassFrame s s' :=
  of_own hc hs htz fun id x => by rw [Own, Own, ht]

theorem linkInjection (s : Ledger) (entity_id : ℕ) (currency : Currency) (timestamp : Timestamp)
    (k : ℕ) : PassFrame s (s.linkInjection entity_id currency timestamp k) := by
  rcases s.linkInjection_cases entity_id currency timestamp k with ⟨r, -, he⟩ | ⟨-, he⟩ <;> rw [he]
  · refine of_same_rows (.link s _ _) ?_ ?_ (s.linkAdjustmentToTransaction_transactions _ _)
    all_goals unfold Ledger.linkAdjustmentToTransaction; split_ifs <;> rfl
  · exact refl s

end PassFrame

theorem linkInjection_transactions (s : Ledger) (entity_id : ℕ) (currency : Currency)
    (timestamp : Timestamp) (k : ℕ) :
    (s.linkInjection entity_id currency timestamp k).transactions = s.transactions := by
  rcases s.linkInjection_cases entity_id currency timestamp k with ⟨r, -, he⟩ | ⟨-, he⟩ <;> rw [he]
  exact s.linkAdjustmentToTransaction_transactions _ _

theorem SettledBut.attach (h : SettledBut A s) (body : TransactionCreate) (k : ℕ) :
    PassFrame s (s.attach body k) ∧ SettledBut A (s.attach body k) := by
  unfold Ledger.attach
  split_ifs
  · have hf := PassFrame.linkInjection s body.entityId body.cashPocket body.timestamp k
    exact ⟨hf, h.of_same_rows hf.charges hf.snapshots (linkInjection_transactions _ _ _ _ _)⟩
  · exact ⟨.refl s, h⟩

/-! ## Injections -/

/-- Whatever stands under `a` is an injection of the pair at `u` without fees. -/
def InjectionPlace (s : Ledger) (entity_id : ℕ) (currency : Currency) (u : Timestamp) (a : ℕ) : Prop :=
  ∀ t, (a, t) ∈ s.transactions.rows → Ledger.isInjection t = true ∧ t.entityId = entity_id ∧
    t.currency = currency ∧ t.paymentCurrency = none ∧ t.timestamp = u ∧ ¬ s.Charged a

/-- The step injects cash for the body. -/
def Injects (s : Ledger) (body : TransactionCreate) (mode : Option BalanceMode) (ex : Option ℕ) :
    Prop :=
  ∃ cash_amount needed, body.spendAmount = some cash_amount ∧ body.type.isSpend = true ∧
    s.cashNeeded body.entityId body.cashPocket body.timestamp cash_amount mode ex = .ok (some needed)

instance (s : Ledger) (body : TransactionCreate) (mode : Option BalanceMode) (ex : Option ℕ) :
    Decidable (Injects s body mode ex) :=
  decidable_of_iff (∃ cash_amount ∈ body.spendAmount.toList, body.type.isSpend = true ∧
      ((s.cashNeeded body.entityId body.cashPocket body.timestamp cash_amount mode
        ex).toOption.bind id).isSome) <| by
    constructor
    · rintro ⟨cash_amount, ha, hspend, hsome⟩
      obtain ⟨needed, hn⟩ := Option.isSome_iff_exists.mp hsome
      refine ⟨cash_amount, needed, by simpa using ha, hspend, ?_⟩
      revert hn
      cases s.cashNeeded body.entityId body.cashPocket body.timestamp cash_amount mode ex with
      | error => exact fun hn => by cases hn
      | ok x => exact fun hn => congrArg _ hn
    · rintro ⟨cash_amount, needed, ha, hspend, hneed⟩
      exact ⟨cash_amount, by simp [ha], hspend, by rw [hneed]; rfl⟩

theorem cashPocket_of_none {t : Transaction} (h : t.paymentCurrency = none) :
    t.cashPocket = t.currency := by
  simp [Transaction.cashPocket, h]

/-- New amount on an injection: only the snapshots that count it are unsettled. -/
theorem SettledBut.setInjection (h : SettledBut A s) {entity_id : ℕ} {currency : Currency}
    {u : Timestamp} {a : ℕ} {t : Transaction} (hm : (a, t) ∈ s.transactions.rows)
    (hplace : InjectionPlace s entity_id currency u a) (amount : ℚ) :
    PassFrame s (s.modifyTransaction a (withAmount amount Ledger.injectionNotes)) ∧
    SettledBut (fun r => A r ∨ Counts s entity_id currency u r)
      (s.modifyTransaction a (withAmount amount Ledger.injectionNotes)) := by
  obtain ⟨hi, he, hc, hp, hu, hch⟩ := hplace t hm
  have hcharges : Ledger.SameCharges s
      (s.modifyTransaction a (withAmount amount Ledger.injectionNotes)) :=
    .modify fun hch' => absurd hch' hch
  refine ⟨.modify hm (.of_isInjection hi) (.of_isInjection (isInjection_withAmount hi amount))
    hcharges, (h.modify _ hm hcharges).mono ?_⟩
  rintro r - (ha | hcount | hcount)
  · exact .inl ha
  · rw [he, hu, cashPocket_of_none hp, hc] at hcount
    exact .inr hcount
  · right
    have hcount' : Counts s t.entityId t.cashPocket t.timestamp r := hcount
    rw [he, hu, cashPocket_of_none hp, hc] at hcount'
    exact hcount'

theorem SettledBut.ensureCash (h : SettledBut A s) {body : TransactionCreate}
    {mode : Option BalanceMode} {ex : Option ℕ}
    (hplace : Injects s body mode ex → ∀ r, s.getInjectedAdjustmentAt body.entityId body.cashPocket
      (Time.injectionTs body.timestamp) = some r → InjectionPlace s body.entityId body.cashPocket
        (Time.injectionTs body.timestamp) r.1)
    (hok : s.ensureCash body mode ex = .ok s') :
    PassFrame s s' ∧ SettledBut (fun r => A r ∨ (Injects s body mode ex ∧
      Counts s body.entityId body.cashPocket (Time.injectionTs body.timestamp) r)) s' := by
  rcases Ledger.ensureCash_cases hok with rfl | ⟨cash_amount, needed, ha, hspend, hneed, rfl⟩
  · exact ⟨.refl _, h.mono fun _ _ ha => .inl ha⟩
  have hinj : Injects s body mode ex := ⟨cash_amount, needed, ha, hspend, hneed⟩
  rcases s.inject_cases body.entityId body.cashPocket body.timestamp needed with
    ⟨r, hr, he⟩ | ⟨-, he⟩ <;> rw [he]
  · obtain ⟨hf, hset⟩ := h.setInjection (Ledger.getInjectedAdjustmentAt_eq_some hr).1
      (hplace hinj r hr) (r.2.totalValue.getD 0 + needed)
    exact ⟨hf, hset.mono fun r _ hr => hr.imp_right fun hc => ⟨hinj, hc⟩⟩
  · refine ⟨.insert s fun _ => rfl, (h.insert _).mono fun r _ hr => hr.imp_right fun hc => ⟨hinj, hc⟩⟩

theorem InjectionPlace.congr {entity_id : ℕ} {currency : Currency} {u : Timestamp} {a : ℕ}
    (h : InjectionPlace s entity_id currency u a) (hc : Ledger.SameCharges s s')
    (hrows : ∀ t, (a, t) ∈ s'.transactions.rows → (a, t) ∈ s.transactions.rows) :
    InjectionPlace s' entity_id currency u a := by
  intro t ht
  obtain ⟨hi, he, hcur, hp, hu, hch⟩ := h t (hrows t ht)
  exact ⟨hi, he, hcur, hp, hu, fun hch' => hch ((hc.charged_iff _).mp hch')⟩

theorem InjectionPlace.setAmount {entity_id : ℕ} {currency : Currency} {u : Timestamp} {a b : ℕ}
    (h : InjectionPlace s entity_id currency u a) (amount : ℚ) :
    InjectionPlace (s.modifyTransaction b (withAmount amount Ledger.injectionNotes)) entity_id
      currency u a := by
  intro t ht
  rcases Table.mem_modify.mp ht with ⟨-, ht⟩ | ⟨rfl, t', ht', rfl⟩
  · exact h t ht
  · obtain ⟨hi, hrest⟩ := h t' ht'
    exact ⟨isInjection_withAmount hi amount, hrest⟩

/-- A refresh of an injection unsettles only the snapshots that count it, and moves no injection. -/
theorem SettledBut.refreshInjection (h : SettledBut A s) {entity_id : ℕ} {currency : Currency}
    {u : Timestamp} {a : ℕ} {ex : Option ℕ} (hplace : InjectionPlace s entity_id currency u a)
    (hok : s.refreshInjection a ex = .ok s') :
    PassFrame s s' ∧ SettledBut (fun r => A r ∨ Counts s entity_id currency u r) s' ∧
    ∀ e c v b, InjectionPlace s e c v b → InjectionPlace s' e c v b := by
  rcases Ledger.refreshInjection_cases hok with ⟨rfl, -⟩ | rfl | ⟨-, adj, req, hg, -, rfl⟩
  · exact ⟨.refl _, h.mono fun _ _ ha => .inl ha, fun _ _ _ _ hb => hb⟩
  · have hlf : PassFrame s (s.removeLinksForTransaction a) :=
      .of_same_rows (.removeLinks s _) rfl rfl rfl
    have hl : SettledBut A (s.removeLinksForTransaction a) := h.of_same_rows hlf.charges rfl rfl
    rcases (s.removeLinksForTransaction a).deleteInjectionIfUnlinked_cases a with
      he | ⟨row, hg, hi, -, he⟩ <;> rw [he]
    · exact ⟨hlf, hl.mono fun _ _ ha => .inl ha, fun _ _ _ _ hb =>
        hb.congr hlf.charges fun _ ht => ht⟩
    · have hm := Ledger.mem_of_getTransaction hg
      obtain ⟨-, hent, hcur, hp, hu, hch⟩ := hplace row hm
      have hdc : Ledger.SameCharges (s.removeLinksForTransaction a)
          ((s.removeLinksForTransaction a).deleteTransaction a) := by
        refine .remove fun x _ hx hch' => hch ?_
        rw [show x.1 = a by simpa using hx] at hch'
        exact hch'
      refine ⟨hlf.trans (.delete hm (.of_isInjection hi) hdc), (hl.delete hm hdc).mono ?_, ?_⟩
      · rintro r - (ha | hcount)
        · exact .inl ha
        · rw [hent, hu, cashPocket_of_none hp, hcur] at hcount
          exact .inr hcount
      · exact fun e c v b hb => hb.congr (hlf.charges.trans hdc) fun t ht => (Table.mem_erase.mp ht).1
  · obtain ⟨hf, hset⟩ := h.setInjection (Ledger.mem_of_getTransaction hg) hplace req
    exact ⟨hf, hset, fun e c v b hb => hb.setAmount req⟩

theorem SettledBut.refreshInjections {entity_id : ℕ} {currency : Currency} {u : Timestamp}
    {adjs : List ℕ} {ex : Option ℕ} (h : SettledBut A s)
    (hplace : ∀ a ∈ adjs, InjectionPlace s entity_id currency u a)
    (hok : s.refreshInjections adjs ex = .ok s') :
    PassFrame s s' ∧ SettledBut (fun r => A r ∨ Counts s entity_id currency u r) s' ∧
    ∀ e c v b, InjectionPlace s e c v b → InjectionPlace s' e c v b := by
  induction adjs generalizing s A with
  | nil =>
    cases hok
    exact ⟨.refl _, h.mono fun _ _ ha => .inl ha, fun _ _ _ _ hb => hb⟩
  | cons a adjs ih =>
    rw [Ledger.refreshInjections, List.foldlM_cons, Runs.bind_eq_ok] at hok
    obtain ⟨s₁, h1, hok⟩ := hok
    obtain ⟨hf, hset, hkeep⟩ := h.refreshInjection (hplace a List.mem_cons_self) h1
    obtain ⟨hf', hset', hkeep'⟩ := ih hset
      (fun b hb => hkeep _ _ _ _ (hplace b (List.mem_cons_of_mem _ hb))) hok
    refine ⟨hf.trans hf', hset'.mono ?_, fun e c v b hb => hkeep' _ _ _ _ (hkeep _ _ _ _ hb)⟩
    rintro r - ((ha | hc) | hc)
    · exact .inl ha
    · exact .inr hc
    · exact .inr ((Counts.congr hf.snapshots).mp hc)

/-! ## Where a call has to stand -/

/-- The snapshots that count the instant are those after it, and the refresh can settle them. -/
structure RefreshPlace (s : Ledger) (entity_id : ℕ) (currency : Currency) (t : Timestamp) : Prop where
  off : OffFirst s entity_id currency t
  own : ∀ n, s.getNextSnapshot entity_id currency t = some n → OwnAdjustment s n

instance (s : Ledger) (entity_id : ℕ) (currency : Currency) (t : Timestamp) :
    Decidable (RefreshPlace s entity_id currency t) :=
  decidable_of_iff (OffFirst s entity_id currency t ∧
    ∀ n ∈ (s.getNextSnapshot entity_id currency t).toList, OwnAdjustment s n)
    ⟨fun h => ⟨h.1, fun n hn => h.2 n (by simp [hn])⟩, fun h => ⟨h.1, fun n hn => h.2 n (by simpa using hn)⟩⟩

/-- No snapshot counts the injection of a spend without being refreshed for the spend. -/
def InjectionReached (s : Ledger) (entity_id : ℕ) (currency : Currency) (t : Timestamp) : Prop :=
  OffFirst s entity_id currency (Time.injectionTs t) ∧
    SameNext s entity_id currency (Time.injectionTs t) t

/-- Where the step injects cash, the refresh reaches the injection, and an injection found there
carries no fee. -/
def InjectsInPlace (s : Ledger) (body : TransactionCreate) (mode : Option BalanceMode)
    (ex : Option ℕ) : Prop :=
  Injects s body mode ex → InjectionReached s body.entityId body.cashPocket body.timestamp ∧
    ∀ r, s.getInjectedAdjustmentAt body.entityId body.cashPocket (Time.injectionTs body.timestamp) =
      some r → InjectionPlace s body.entityId body.cashPocket (Time.injectionTs body.timestamp) r.1

/-- A recorded transaction, its body resolved. -/
structure CreateInPlace (s : Ledger) (body : TransactionCreate) : Prop where
  type : body.type ≠ .balanceAdjustment
  place : RefreshPlace s body.entityId body.cashPocket body.timestamp
  cash : InjectsInPlace s body body.cashHandling none

/-- The fees on an edited row stay, or move only where one of the two refreshes reaches. -/
def EditFeesReached (s : Ledger) (tx_id : ℕ) (existing row : Transaction) : Prop :=
  s.ChargesAlike tx_id existing row ∨
    (∀ f ∈ s.fees.rows, f.2.transactionId = tx_id → (Ledger.feeCharge (f.2, row)).isSome) ∧
    (∀ e, e = existing.entityId ∨ e = row.entityId →
      s.SteadyRates e ∧ (s.modifyTransaction tx_id fun _ => row).SteadyRates e) ∧
    ∀ e c u, s.RowDrains tx_id e c u ∨ (s.modifyTransaction tx_id fun _ => row).RowDrains tx_id e c u →
      FeeReached s (fun e c t => (e = row.entityId ∧ c = row.cashPocket ∧ t = row.timestamp) ∨
        (e = existing.entityId ∧ c = existing.cashPocket ∧ t = existing.timestamp)) e c u

/-- An edited transaction, its body resolved. -/
structure EditInPlace (s : Ledger) (tx_id : ℕ) (existing : Transaction) (body : TransactionCreate) :
    Prop where
  type : body.type ≠ .balanceAdjustment
  plain : NotOwn existing
  place : RefreshPlace s body.entityId body.cashPocket body.timestamp
  oldPlace : RefreshPlace s existing.entityId existing.cashPocket existing.timestamp
  fees : s.Charged tx_id → EditFeesReached s tx_id existing (s.editedRow body existing)
  attached : existing.type.isSpend = true →
    ∀ a ∈ (s.getAdjustmentsLinkedToTransaction tx_id).map Prod.fst,
      InjectionReached s existing.entityId existing.cashPocket existing.timestamp ∧
      InjectionPlace s existing.entityId existing.cashPocket (Time.injectionTs existing.timestamp) a
  cash : ∀ s₁, (s.modifyTransaction tx_id fun _ => s.editedRow body existing).detach existing tx_id
      ((s.getAdjustmentsLinkedToTransaction tx_id).map Prod.fst) = .ok s₁ →
    InjectsInPlace s₁ body (s.editedRow body existing).cashHandling (some tx_id)

/-- Where the refresh of a recorded or edited transaction reaches every snapshot the call touches. -/
def Ledger.RecordingInPlace (s : Ledger) : LedgerCall → Prop
  | .createTransaction body => CreateInPlace s (body.resolved s)
  | .updateTransaction tx_id body => ∀ existing, s.getTransaction tx_id = some existing →
      EditInPlace s tx_id existing (body.resolved s)
  | _ => False

/-! ## The calls -/

theorem RefreshPlace.keeps {entity_id : ℕ} {currency : Currency} {t : Timestamp}
    (h : RefreshPlace s entity_id currency t) (hk : KeepsOwn s s') :
    RefreshPlace s' entity_id currency t where
  off := (OffFirst.congr hk.snapshots).mpr h.off
  own n hn := by
    rw [Ledger.getNextSnapshot_congr (pairSnapshots_congr hk.snapshots _ _)] at hn
    exact hk.own n (getNextSnapshot_mem hn).1 (h.own n hn)

theorem InjectionReached.keeps {entity_id : ℕ} {currency : Currency} {t : Timestamp}
    (h : InjectionReached s entity_id currency t) (hs : s'.snapshots = s.snapshots) :
    InjectionReached s' entity_id currency t := by
  refine ⟨(OffFirst.congr hs).mpr h.1, ?_⟩
  unfold SameNext
  rw [Ledger.getNextSnapshot_congr (pairSnapshots_congr hs _ _),
    Ledger.getNextSnapshot_congr (pairSnapshots_congr hs _ _)]
  exact h.2

theorem InjectionReached.group {entity_id : ℕ} {currency : Currency} {t : Timestamp}
    (h : InjectionReached s entity_id currency t) {r : ℕ × BalanceSnapshot}
    (hr : r ∈ s.snapshots.rows) (hc : Counts s entity_id currency (Time.injectionTs t) r) :
    Group s entity_id currency t r := h.2.group (counts_group h.1 hr hc)

theorem SettledBut.ensureCash_inPlace (h : SettledBut A s) {body : TransactionCreate}
    {mode : Option BalanceMode} {ex : Option ℕ} (hplace : InjectsInPlace s body mode ex)
    (hok : s.ensureCash body mode ex = .ok s') :
    PassFrame s s' ∧
      SettledBut (fun r => A r ∨ Group s body.entityId body.cashPocket body.timestamp r) s' := by
  obtain ⟨hf, hset⟩ := h.ensureCash (fun hinj => (hplace hinj).2) hok
  refine ⟨hf, hset.mono fun r hr hcase => hcase.imp_right fun ⟨hinj, hcount⟩ => ?_⟩
  exact (hplace hinj).1.group (hf.snapshots ▸ hr) hcount

theorem SettledBut.recalculateFor (h : SettledBut A s) {body : TransactionCreate}
    (hties : TiesAgree s) (htype : body.type ≠ .balanceAdjustment)
    (hplace : RefreshPlace s body.entityId body.cashPocket body.timestamp)
    (hok : s.recalculateFor body = .ok s') : PassFrame s s' ∧ SettledBut
      (fun r => A r ∧ ¬ Group s body.entityId body.cashPocket body.timestamp r) s' := by
  rw [Ledger.recalculateFor, if_neg htype] at hok
  exact h.recalculateAdjustments hties hok hplace.own

/-- The second refresh: when it is left out, the first one has reached the old place. -/
theorem SettledBut.recalculateOld (h : SettledBut A s) {body : TransactionCreate}
    {existing : Transaction} (hties : TiesAgree s) (htype : body.type ≠ .balanceAdjustment)
    (hplace : RefreshPlace s existing.entityId existing.cashPocket existing.timestamp)
    (hok : s.recalculateOld body existing = .ok s') : PassFrame s s' ∧ SettledBut (fun r => A r ∧
      (Group s existing.entityId existing.cashPocket existing.timestamp r →
        Group s body.entityId body.cashPocket body.timestamp r)) s' := by
  unfold Ledger.recalculateOld at hok
  rw [if_neg htype] at hok
  split_ifs at hok with hmove
  · obtain ⟨hf, hset⟩ := h.recalculateAdjustments hties hok hplace.own
    exact ⟨hf, hset.mono fun r _ hr => ⟨hr.1, fun hg => absurd hg hr.2⟩⟩
  · cases hok
    push Not at hmove
    obtain ⟨he, hc, ht⟩ := hmove
    refine ⟨.refl _, h.mono fun r _ ha => ⟨ha, fun hg => ?_⟩⟩
    rw [← he, ← hc, ← ht]
    exact hg

theorem createTransaction_settled (h : Reconciled s) {body : TransactionCreate}
    {resp : TransactionResponse} (hc : CreateInPlace s (body.resolved s))
    (hok : s.createTransaction body = .ok (resp, s')) : KeepsOwn s s' ∧ Reconciled s' := by
  obtain ⟨s₁, h1, hid, hrow, h3⟩ := Ledger.createTransaction_cases hok
  generalize body.resolved s = body at hc h1 hrow h3
  obtain ⟨hf₁, hset₁⟩ := (h.settledBut fun _ => False).ensureCash_inPlace hc.cash h1
  have hplain : NotOwn resp.row := fun ht => absurd (show body.type = _ by rw [hrow] at ht; exact ht)
    hc.type
  have hset₂ := hset₁.insert resp.row
  obtain ⟨hf₃, hset₃⟩ := hset₂.attach body resp.id
  have hf : PassFrame s ((s₁.insertTransaction resp.row).attach body resp.id) :=
    (hf₁.trans (.insert s₁ hplain)).trans hf₃
  obtain ⟨hf₄, hset₄⟩ := hset₃.recalculateFor (h.tiesAgree.congr hf.snapshots) hc.type
    (hc.place.keeps hf.toKeepsOwn) h3
  refine ⟨(hf.trans hf₄).toKeepsOwn, hset₄.reconciled fun r hr hbad => ?_⟩
  rw [hf₄.snapshots, hf.snapshots] at hr
  obtain ⟨(hfalse | hg) | hcount, hnot⟩ := hbad
  · exact hfalse
  · exact hnot ((Group.congr hf.snapshots).mpr hg)
  · rw [hrow] at hcount
    rw [Counts.congr hf₁.snapshots] at hcount
    exact hnot ((Group.congr hf.snapshots).mpr (counts_group hc.place.off hr hcount))

/-- The edit itself unsettles only what the two refreshes reach. -/
theorem SettledBut.edit (h : Reconciled s) {tx_id : ℕ} {existing : Transaction}
    {body : TransactionCreate} (hg : s.getTransaction tx_id = some existing)
    (hc : EditInPlace s tx_id existing body) :
    SettledBut (fun r => Group s body.entityId body.cashPocket body.timestamp r ∨
        Group s existing.entityId existing.cashPocket existing.timestamp r)
      (s.modifyTransaction tx_id fun _ => s.editedRow body existing) := by
  have hm := Ledger.mem_of_getTransaction hg
  -- Either way the fees move only where a refresh reaches.
  obtain ⟨D, hD, hreached⟩ : ∃ D : ℕ → Currency → Timestamp → Prop,
      Ledger.ChargesMoved s (s.modifyTransaction tx_id fun _ => s.editedRow body existing) D ∧
      ∀ e c u, D e c u → FeeReached s (fun e c t =>
        (e = body.entityId ∧ c = body.cashPocket ∧ t = body.timestamp) ∨
        (e = existing.entityId ∧ c = existing.cashPocket ∧ t = existing.timestamp)) e c u := by
    by_cases hcharged : s.Charged tx_id
    · rcases hc.fees hcharged with halike | ⟨hread, hsteady, hreached⟩
      · refine ⟨_, Ledger.SameCharges.moved (.modify fun _ t ht => ?_), fun _ _ _ hu => hu.elim⟩
        rw [s.transactions.unique ht hm]
        exact halike
      · exact ⟨_, .modify hm hread hsteady, hreached⟩
    · exact ⟨_, Ledger.SameCharges.moved (.modify fun hch => absurd hch hcharged),
        fun _ _ _ hu => hu.elim⟩
  refine ((h.settledBut fun _ => False).modify_moved _ hm hD).mono ?_
  rintro r hr (hfalse | hcount | hcount | ⟨u, hu, hcount⟩)
  · exact hfalse.elim
  · exact .inr (counts_group hc.oldPlace.off hr hcount)
  · exact .inl (counts_group hc.place.off hr hcount)
  · obtain ⟨t, ⟨he, hcur, rfl⟩ | ⟨he, hcur, rfl⟩, hgroup⟩ := (hreached _ _ u hu).group hr hcount
    · left; rw [← he, ← hcur]; exact hgroup
    · right; rw [← he, ← hcur]; exact hgroup

theorem SettledBut.detach (h : SettledBut A s) {existing : Transaction} {tx_id : ℕ} {adjs : List ℕ}
    (hattached : existing.type.isSpend = true → ∀ a ∈ adjs,
      InjectionReached s existing.entityId existing.cashPocket existing.timestamp ∧
      InjectionPlace s existing.entityId existing.cashPocket (Time.injectionTs existing.timestamp) a)
    (hok : s.detach existing tx_id adjs = .ok s') : PassFrame s s' ∧ SettledBut (fun r => A r ∨
      Group s existing.entityId existing.cashPocket existing.timestamp r) s' := by
  unfold Ledger.detach at hok
  split_ifs at hok with hspend
  swap
  · cases hok
    exact ⟨.refl _, h.mono fun _ _ ha => .inl ha⟩
  have hlf : PassFrame s (s.removeLinksForTransaction tx_id) :=
    .of_same_rows (.removeLinks s _) rfl rfl rfl
  have hl : SettledBut A (s.removeLinksForTransaction tx_id) := h.of_same_rows hlf.charges rfl rfl
  cases adjs with
  | nil =>
    cases hok
    exact ⟨hlf, hl.mono fun _ _ ha => .inl ha⟩
  | cons a adjs =>
    obtain ⟨hf, hset, -⟩ := hl.refreshInjections (fun b hb =>
      (hattached hspend b hb).2.congr hlf.charges fun _ ht => ht) hok
    refine ⟨hlf.trans hf, hset.mono fun r hr hcase => hcase.imp_right fun hcount => ?_⟩
    have hreached := (hattached hspend a List.mem_cons_self).1
    rw [hf.snapshots] at hr
    exact hreached.group hr ((Counts.congr rfl).mp hcount)

theorem updateTransaction_settled (h : Reconciled s) {tx_id : ℕ} {body : TransactionCreate}
    {resp : TransactionResponse} (hc : ∀ existing, s.getTransaction tx_id = some existing →
      EditInPlace s tx_id existing (body.resolved s))
    (hok : s.updateTransaction tx_id body = .ok (resp, s')) : KeepsOwn s s' ∧ Reconciled s' := by
  obtain ⟨existing, s₁, s₂, s₄, hg, -, hrow, h1, h2, h4, h5⟩ := Ledger.updateTransaction_cases hok
  have hc := hc existing hg
  generalize body.resolved s = body at hc hrow h1 h2 h4 h5
  rw [hrow] at h1 h2
  have hm := Ledger.mem_of_getTransaction hg
  have hk₀ : KeepsOwn s (s.modifyTransaction tx_id fun _ => s.editedRow body existing) :=
    .modify hm hc.plain fun ht => absurd ht hc.type
  -- The linked injections are other rows, so the edit leaves them alone.
  have hattached : existing.type.isSpend = true →
      ∀ a ∈ (s.getAdjustmentsLinkedToTransaction tx_id).map Prod.fst,
        InjectionReached (s.modifyTransaction tx_id fun _ => s.editedRow body existing)
          existing.entityId existing.cashPocket existing.timestamp ∧
        InjectionPlace (s.modifyTransaction tx_id fun _ => s.editedRow body existing)
          existing.entityId existing.cashPocket (Time.injectionTs existing.timestamp) a := by
    intro hspend a ha
    obtain ⟨hreached, hplace⟩ := hc.attached hspend a ha
    refine ⟨hreached.keeps rfl, fun t ht => ?_⟩
    rcases Table.mem_modify.mp ht with ⟨-, ht⟩ | ⟨rfl, -⟩
    · exact hplace t ht
    · have hi := (Ledger.isInjection_iff.mp (hplace existing hm).1).1
      rw [hi] at hspend; cases hspend
  obtain ⟨hf₁, hset₁⟩ := (SettledBut.edit h hg hc).detach hattached h1
  obtain ⟨hf₂, hset₂⟩ := hset₁.ensureCash_inPlace (hc.cash s₁ h1) h2
  obtain ⟨hf₃, hset₃⟩ : PassFrame s₂ (if body.spendAmount.isSome then s₂.attach body tx_id else s₂) ∧
      SettledBut _ (if body.spendAmount.isSome then s₂.attach body tx_id else s₂) := by
    split_ifs
    · exact hset₂.attach body tx_id
    · exact ⟨.refl _, hset₂⟩
  have hk₃ := ((hk₀.trans hf₁.toKeepsOwn).trans hf₂.toKeepsOwn).trans hf₃.toKeepsOwn
  obtain ⟨hf₄, hset₄⟩ := hset₃.recalculateFor (h.tiesAgree.congr hk₃.snapshots) hc.type
    (hc.place.keeps hk₃) h4
  have hk₄ := hk₃.trans hf₄.toKeepsOwn
  obtain ⟨hf₅, hset₅⟩ := hset₄.recalculateOld (h.tiesAgree.congr hk₄.snapshots) hc.type
    (hc.oldPlace.keeps hk₄) h5
  refine ⟨hk₄.trans hf₅.toKeepsOwn, hset₅.reconciled fun r hr hbad => ?_⟩
  obtain ⟨⟨hcase, hnew⟩, hold⟩ := hbad
  rw [Group.congr hk₃.snapshots] at hnew
  rw [Group.congr hk₄.snapshots, Group.congr hk₄.snapshots] at hold
  have hnot : ¬ Group s existing.entityId existing.cashPocket existing.timestamp r :=
    fun hg => hnew (hold hg)
  rcases hcase with ((hg | hg) | hg) | hg
  · exact hnew hg
  · exact hnot hg
  · exact hnot ((Group.congr hk₀.snapshots).mp hg)
  · exact hnew ((Group.congr (hk₀.trans hf₁.toKeepsOwn).snapshots).mp hg)

theorem recording_settled (h : Reconciled s) {c : LedgerCall} (hc : s.RecordingInPlace c)
    (hok : s.call c = .ok s') : KeepsOwn s s' ∧ Reconciled s' := by
  cases c with
  | createTransaction body =>
    obtain ⟨⟨resp, s''⟩, hcreate, rfl⟩ := Runs.map_eq_ok.mp hok
    exact createTransaction_settled h hc hcreate
  | updateTransaction tx_id body =>
    obtain ⟨⟨resp, s''⟩, hupdate, rfl⟩ := Runs.map_eq_ok.mp hok
    exact updateTransaction_settled h hc hupdate
  | _ => exact hc.elim

/-- Recording and editing in place keep every snapshot settled. -/
theorem recording_reconciled (h : Reconciled s) {c : LedgerCall} (hc : s.RecordingInPlace c)
    (hok : s.call c = .ok s') : Reconciled s' :=
  (recording_settled h hc hok).2

namespace Sample

def income (entity_id : ℕ) (currency : Currency) (amount : ℚ) (timestamp : Timestamp) : LedgerCall :=
  .createTransaction
    { timestamp, type := .income, entityId := entity_id, currency, totalValue := some amount }

/-- Euros come in on day 1; a snapshot of 80 on day 10 settles them with an adjustment of -20. -/
def euroCalls : List LedgerCall :=
  [income 0 eur 100 (at_ 1 9),
   .createSnapshot { entityId := 0, currency := eur, amount := 80, timestamp := at_ 10 12 }]

/-- An adjustment that the user enters before the snapshot. -/
def ownAdjustmentEntry : LedgerCall :=
  .createTransaction
    { timestamp := at_ 5 9, type := .balanceAdjustment, entityId := 0, currency := eur,
      totalValue := some 50 }

/-- The entry leaves the snapshot 50 off. -/
theorem ownAdjustmentEntry_unsettles : Reconciled (after euroCalls) ∧
    (after euroCalls).call ownAdjustmentEntry = .ok (after (euroCalls ++ [ownAdjustmentEntry])) ∧
    ¬ Reconciled (after (euroCalls ++ [ownAdjustmentEntry])) :=
  ⟨by decide +kernel, call_after (by decide +kernel), by decide +kernel⟩

/-- A spend before the snapshot is taken up by its adjustment. -/
theorem spendBeforeSnapshot_reconciled :
    (after (euroCalls ++ [spend 0 eur 30 (at_ 5 9)])).getBalanceAtDate 0 eur (at_ 10 12) = some 80 ∧
    Reconciled (after (euroCalls ++ [spend 0 eur 30 (at_ 5 9)])) := by
  refine ⟨by decide +kernel, recording_reconciled (s := after euroCalls)
    (c := spend 0 eur 30 (at_ 5 9)) (by decide +kernel) ⟨?_, ?_, ?_⟩ (call_after (by decide +kernel))⟩
  · exact fun ht => TransactionType.noConfusion ht
  · decide +kernel
  · exact fun hinj => absurd hinj (by decide +kernel)

end Sample

end FinHub
