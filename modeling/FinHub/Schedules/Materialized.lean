import FinHub.Reconcile.SnapshotRuns
import FinHub.Schedules.ExactlyOnce

/-!
# FinHub.Schedules.Materialized

What materializing a schedule does to the snapshots and to the pairing of transactions with
occurrences.

A live fire inserts its row and refreshes nothing, so it may only write where no snapshot counts the
row. A catch-up refreshes the snapshot after the bare midnight of the date while the row stands at
midnight in Tokyo: the snapshots that count the row have to come after both. An investment with a
total is committed before its occurrence exists. `SchedulerEvent.InPlace` puts the three together.
-/

namespace FinHub

open Calendar Tabular Db Scheduler

/-! ## Rows -/

theorem Table.modify_insert {α : Type} (t : Table α) (a : α) (f : α → α) :
    (t.insert a).modify t.next f = t.insert (f a) := by
  refine Table.ext_rows ?_ rfl
  have hold : t.rows.map (fun r => if r.1 = t.next then (r.1, f r.2) else r) = t.rows := by
    refine (List.map_congr_left fun r hr => ?_).trans (List.map_id _)
    exact if_neg (t.bounded r hr).ne
  simp [Table.modify, Table.insert, hold]

/-- The row of an investment with its quantity. -/
def completedRow (row : Transaction) : Transaction :=
  match investmentFields row with
  | some body => { row with
      quantity := body.quantity, unitPrice := body.unitPrice, totalValue := body.totalValue }
  | none => row

theorem completed_insert (d : Database) (row : Transaction) (l : Ledger)
    (hd : d.ledger = l.insertTransaction row) :
    (completed d l.transactions.next row).ledger = l.insertTransaction (completedRow row) := by
  unfold completed completedRow
  cases investmentFields row with
  | none => exact hd
  | some body =>
    simp only [Database.withInvestmentFields, hd, Ledger.modifyTransaction, Ledger.insertTransaction,
      Table.modify_insert]

/-- Completing a row without quantity and price keeps what it moves. -/
theorem completedRow_cash {row : Transaction} (hq : row.quantity = none) (hp : row.unitPrice = none) :
    (completedRow row).loopImpact = row.loopImpact ∧ (completedRow row).entityId = row.entityId ∧
      (completedRow row).cashPocket = row.cashPocket ∧
      (completedRow row).timestamp = row.timestamp := by
  unfold completedRow
  cases hb : investmentFields row with
  | none => exact ⟨rfl, rfl, rfl, rfl⟩
  | some body =>
    have htotal : body.totalValue = row.totalValue := by
      unfold investmentFields at hb
      dsimp only at hb
      split_ifs at hb with h1
      obtain rfl := Option.some_inj.mp hb
      have hkind : ¬ (row.type ≠ .investmentBuy ∧ row.type ≠ .investmentSell) := by tauto
      cases ht : row.totalValue with
      | none => simp [storedBody, TransactionCreate.resolveInvestmentFields, hkind, hq, hp, ht]
      | some total => simp [storedBody, TransactionCreate.resolveInvestmentFields, hkind, hq, hp, ht]
    refine ⟨?_, rfl, rfl, rfl⟩
    simp only [Transaction.loopImpact, Transaction.cashAmount, Transaction.isAdjustment, htotal]
    rfl

variable {l l' : Ledger}

/-- A row that moves nothing where it is counted. -/
theorem Settled.insert {r : ℕ × BalanceSnapshot} {t : Transaction} (h : Settled l r)
    (ht : Counts l t.entityId t.cashPocket t.timestamp r → t.loopImpact = some 0) :
    Settled (l.insertTransaction t) r := by
  refine h.congr (.insert l t) rfl ?_ ?_
  · rw [Ledger.cashOver_insert]
    have hshare : Ledger.share r.2.entityId r.2.currency {}
        (l.window r.2.entityId r.2.currency true r.2.timestamp) (l.transactions.next, t) = 0 := by
      by_cases hcount : Counts l t.entityId t.cashPocket t.timestamp r
      · have hzero : t.sqlImpact = 0 := Transaction.sqlImpact_of_loopImpact (ht hcount)
        simp [Ledger.share, cashMove, hzero]
      · exact SettledBut.share_eq_zero (x := (l.transactions.next, t)) hcount
    rw [hshare, add_zero]
  · intro x hx hpair hw
    rcases Table.mem_insert.mp hx with hx | rfl
    · exact .inl hx
    · obtain ⟨he, hc⟩ := Ledger.inPair_iff.mp hpair
      have hcount : Counts l t.entityId t.cashPocket t.timestamp r :=
        ⟨he.symm, hc.symm, by rw [← he, ← hc] at hw; exact hw⟩
      exact .inr (by rw [ht hcount]; rfl)

/-! ## The refresh of a catch-up -/

/-- The bare midnight a catch-up recalculates from. -/
def bareMidnight (fire_date : Date) : Timestamp := Time.startOfDay (dayNumber fire_date)

/-- The snapshots that count the row are the ones the refresh reaches, and they can be read with it. -/
structure Placed (l : Ledger) (row : Transaction) (fire_date : Date) : Prop where
  reached : ∀ r ∈ l.snapshots.rows, Counts l row.entityId row.cashPocket row.timestamp r →
    row.loopImpact.isSome = true ∧ Group l row.entityId row.cashPocket (bareMidnight fire_date) r
  own : ∀ n ∈ l.getNextSnapshot row.entityId row.cashPocket (bareMidnight fire_date),
    OwnAdjustment l n

instance placedDecidable (l : Ledger) (row : Transaction) (fire_date : Date) :
    Decidable (Placed l row fire_date) :=
  haveI : ∀ r, Decidable (Counts l row.entityId row.cashPocket row.timestamp r) :=
    fun _ => inferInstanceAs (Decidable (_ ∧ _ ∧ _))
  decidable_of_iff ((∀ r ∈ l.snapshots.rows, Counts l row.entityId row.cashPocket row.timestamp r →
      row.loopImpact.isSome = true ∧ Group l row.entityId row.cashPocket (bareMidnight fire_date) r) ∧
    ∀ n ∈ l.getNextSnapshot row.entityId row.cashPocket (bareMidnight fire_date), OwnAdjustment l n)
    ⟨fun h => ⟨h.1, h.2⟩, fun h => ⟨h.1, h.2⟩⟩

/-- A settled snapshot can still be read, without its own adjustment, when a row is added that can be
read where it counts. -/
theorem Settled.readable_insert {n : ℕ × BalanceSnapshot} {t : Transaction} (h : Settled l n)
    (ht : Counts l t.entityId t.cashPocket t.timestamp n → t.loopImpact.isSome = true) :
    (l.insertTransaction t).Readable n.2.entityId n.2.currency n.2.timestamp
      { adjustmentSnapshotId := some n.1 } := by
  obtain ⟨hread, -⟩ := Ledger.getBalanceAtDate_eq_some_iff.mp h
  have hpairs : (l.insertTransaction t).pairSnapshots n.2.entityId n.2.currency =
      l.pairSnapshots n.2.entityId n.2.currency := pairSnapshots_congr rfl _ _
  refine ⟨((Ledger.SameCharges.insert l t).feesReadable _ _ _ _).mpr hread.fees, ?_⟩
  intro p hp x hx hpair _ h1 h2
  rw [Ledger.getPreviousSnapshot_congr hpairs] at hp
  rcases Table.mem_insert.mp hx with hx | rfl
  · exact hread.loop p hp x hx hpair (Ledger.keeps_default x) h1 h2
  · obtain ⟨he, hc⟩ := Ledger.inPair_iff.mp hpair
    refine ht ⟨he.symm, hc.symm, ?_⟩
    rw [he, hc, Ledger.window, Checkpoint.spans_of_some hp]
    simp only [Bool.and_eq_true, decide_eq_true_eq]
    exact ⟨h1, h2⟩

theorem recalculateAdjustments_returns {entity_id : ℕ} {currency : Currency} {t : Timestamp}
    (h : ∀ n ∈ l.getNextSnapshot entity_id currency t, l.Readable entity_id currency n.2.timestamp
      { adjustmentSnapshotId := some n.1 }) :
    ∃ l', l.recalculateAdjustments entity_id currency t = .ok l' := by
  unfold Ledger.recalculateAdjustments
  cases hn : l.getNextSnapshot entity_id currency t with
  | none => exact ⟨l, rfl⟩
  | some n =>
    have hbal := (h n hn).getBalanceAtDate true
    simp only [hbal, orTypeError]
    exact ⟨_, rfl⟩

/-- A catch-up pass over reconciled snapshots leaves them reconciled. -/
theorem reconciled_recalculated {row : Transaction} {fire_date : Date} (hl : Reconciled l)
    (hrow : NotOwn row) (hplaced : Placed l row fire_date) :
    PassFrame l (recalculated (l.insertTransaction row) row.entityId row.cashPocket fire_date) ∧
      Reconciled (recalculated (l.insertTransaction row) row.entityId row.cashPocket fire_date) := by
  have hframe := PassFrame.insert l hrow
  have hnext : (l.insertTransaction row).getNextSnapshot row.entityId row.cashPocket
      (bareMidnight fire_date) = l.getNextSnapshot row.entityId row.cashPocket (bareMidnight fire_date) :=
    Ledger.getNextSnapshot_congr (pairSnapshots_congr rfl _ _) _
  have hset : SettledBut (Group (l.insertTransaction row) row.entityId row.cashPocket
      (bareMidnight fire_date)) (l.insertTransaction row) := by
    refine ((hl.settledBut fun _ => False).insert row).mono ?_
    rintro r hr (hno | hcount)
    · exact hno.elim
    · exact (Group.congr rfl).mpr (hplaced.reached r hr hcount).2
  obtain ⟨l', hok⟩ : ∃ l', (l.insertTransaction row).recalculateAdjustments row.entityId
      row.cashPocket (bareMidnight fire_date) = .ok l' := by
    refine recalculateAdjustments_returns fun n hn => ?_
    rw [hnext] at hn
    obtain ⟨hnm, he, hc⟩ := getNextSnapshot_mem hn
    have hread := (hl n hnm).readable_insert fun hcount => (hplaced.reached n hnm hcount).1
    rw [he, hc] at hread
    exact hread
  have hrec : recalculated (l.insertTransaction row) row.entityId row.cashPocket fire_date = l' := by
    unfold recalculated
    rw [bareMidnight] at hok
    rw [hok]
  obtain ⟨hpass, hfinal⟩ := hset.recalculateAdjustments (hl.tiesAgree.congr rfl) hok fun n hn => by
    rw [hnext] at hn
    exact hframe.own n (getNextSnapshot_mem hn).1 (hplaced.own n hn)
  rw [hrec]
  exact ⟨hframe.trans hpass, hfinal.reconciled fun r _ hr => hr.2 hr.1⟩

/-- A recalculation rewrites or adds one row. -/
theorem recalculated_cases (l : Ledger) (entity_id : ℕ) (currency : Currency) (fire_date : Date) :
    recalculated l entity_id currency fire_date = l ∨
    (∃ k f, recalculated l entity_id currency fire_date = l.modifyTransaction k f) ∨
    ∃ t, recalculated l entity_id currency fire_date = l.insertTransaction t := by
  unfold recalculated
  cases hr : l.recalculateAdjustments entity_id currency (Time.startOfDay (dayNumber fire_date)) with
  | error e => exact .inl rfl
  | ok l' =>
    rcases Ledger.recalculateAdjustments_cases hr with ⟨-, rfl⟩ | ⟨n, expected, -, -, rfl⟩
    · exact .inl rfl
    rcases Ledger.setSnapshotAdjustment_cases l entity_id currency n.1 n.2.timestamp
      (n.2.amount - expected) with ⟨r, -, he⟩ | ⟨-, he⟩
    · exact .inr (.inl ⟨_, _, he⟩)
    · exact .inr (.inr ⟨_, he⟩)

theorem recalculated_fiscalRuleFor (l : Ledger) (entity_id : ℕ) (currency : Currency)
    (fire_date : Date) :
    (recalculated l entity_id currency fire_date).fiscalRuleFor = l.fiscalRuleFor := by
  rcases recalculated_cases l entity_id currency fire_date with he | ⟨k, f, he⟩ | ⟨t, he⟩ <;> rw [he]
  all_goals rfl

/-! ## Pairing -/

/-- Rows stay when others are written or rewritten. -/
def KeepsRows (l l' : Ledger) : Prop :=
  ∀ id, (l.getTransaction id).isSome = true → (l'.getTransaction id).isSome = true

theorem isSome_getTransaction {id : ℕ} :
    (l.getTransaction id).isSome = true ↔ ∃ t, (id, t) ∈ l.transactions.rows := by
  rw [Ledger.getTransaction, Option.isSome_iff_exists]
  exact exists_congr fun t => Table.get?_eq_some_iff _

theorem isSome_getTransaction_insert (l : Ledger) (t : Transaction) :
    ((l.insertTransaction t).getTransaction l.transactions.next).isSome = true :=
  isSome_getTransaction.mpr ⟨t, Table.mem_insert.mpr (.inr rfl)⟩

theorem KeepsRows.insert (l : Ledger) (t : Transaction) : KeepsRows l (l.insertTransaction t) := by
  intro id h
  obtain ⟨x, hx⟩ := isSome_getTransaction.mp h
  exact isSome_getTransaction.mpr ⟨x, Table.mem_insert.mpr (.inl hx)⟩

theorem KeepsRows.modify (l : Ledger) (k : ℕ) (f : Transaction → Transaction) :
    KeepsRows l (l.modifyTransaction k f) := by
  intro id h
  obtain ⟨x, hx⟩ := isSome_getTransaction.mp h
  refine isSome_getTransaction.mpr ?_
  by_cases hk : id = k
  · exact ⟨f x, Table.mem_modify.mpr (.inr ⟨hk, x, hk ▸ hx, rfl⟩)⟩
  · exact ⟨x, Table.mem_modify.mpr (.inl ⟨hk, hx⟩)⟩

theorem KeepsRows.recalculated (l : Ledger) (entity_id : ℕ) (currency : Currency) (fire_date : Date) :
    KeepsRows l (Scheduler.recalculated l entity_id currency fire_date) := by
  rcases recalculated_cases l entity_id currency fire_date with he | ⟨k, f, he⟩ | ⟨t, he⟩ <;> rw [he]
  · exact fun _ h => h
  · exact .modify l k f
  · exact .insert l t

/-- Since `d₀`, a transaction the scheduler has made and its occurrence exist together. -/
structure PairedSince (d₀ d : Database) : Prop where
  recorded : ∀ m ∈ d.made,
    m ∈ d.occurrences ∧ (d.ledger.getTransaction m.transactionId).isSome = true
  made : ∀ o ∈ d.occurrences, o ∈ d₀.occurrences ∨ o ∈ d.made

instance pairedSinceDecidable (d₀ d : Database) : Decidable (PairedSince d₀ d) :=
  decidable_of_iff ((∀ m ∈ d.made,
      m ∈ d.occurrences ∧ (d.ledger.getTransaction m.transactionId).isSome = true) ∧
    ∀ o ∈ d.occurrences, o ∈ d₀.occurrences ∨ o ∈ d.made)
    ⟨fun h => ⟨h.1, h.2⟩, fun h => ⟨h.recorded, h.made⟩⟩

/-- A transaction written together with its occurrence. -/
theorem PairedSince.record {d₀ d d' : Database} (h : PairedSince d₀ d) {m : Occurrence}
    (ho : d'.occurrences = d.occurrences ++ [m]) (hm : d'.made = d.made ++ [m])
    (hrows : KeepsRows d.ledger d'.ledger)
    (hnew : (d'.ledger.getTransaction m.transactionId).isSome = true) : PairedSince d₀ d' where
  recorded := by
    intro x hx
    rw [hm] at hx
    rw [ho]
    rcases List.mem_append.mp hx with hx | hx
    · exact ⟨List.mem_append_left _ (h.recorded x hx).1, hrows _ (h.recorded x hx).2⟩
    · rw [List.mem_singleton.mp hx]
      exact ⟨List.mem_append_right _ (List.mem_singleton_self m), hnew⟩
  made := by
    intro o hmem
    rw [ho] at hmem
    rw [hm]
    rcases List.mem_append.mp hmem with hmem | hmem
    · exact (h.made o hmem).imp_right fun hmade => List.mem_append_left _ hmade
    · exact .inr (List.mem_append_right _ hmem)

/-! ## Catch-ups -/

theorem Placed.congr {row : Transaction} {fire_date : Date} (h : Placed l row fire_date)
    (hk : KeepsOwn l l') : Placed l' row fire_date where
  reached r hr hcount := by
    rw [hk.snapshots] at hr
    obtain ⟨hread, hgroup⟩ := h.reached r hr ((Counts.congr hk.snapshots).mp hcount)
    exact ⟨hread, (Group.congr hk.snapshots).mpr hgroup⟩
  own n hn := by
    rw [Ledger.getNextSnapshot_congr (pairSnapshots_congr hk.snapshots _ _)] at hn
    exact hk.own n (getNextSnapshot_mem hn).1 (h.own n hn)

theorem embeddedFields_congr {d d' : Database} (h : d'.ledger.entities = d.ledger.entities)
    (sch : ScheduleRow) : embeddedFields d' sch = embeddedFields d sch := by
  have hget : d'.ledger.getEntity = d.ledger.getEntity := by
    funext id
    rw [Ledger.getEntity, Ledger.getEntity, h]
  rw [embeddedFields, embeddedFields, hget]

theorem generatedRow_congr (server : Server) (h : l'.fiscalRuleFor = l.fiscalRuleFor)
    (schedule_id : ℕ) (sch : ScheduleRow) (type_ : TransactionType) (entity_id : ℕ)
    (currency : Currency) (day : ℤ) :
    generatedRow server l' schedule_id sch type_ entity_id currency day =
      generatedRow server l schedule_id sch type_ entity_id currency day := by
  rw [generatedRow, generatedRow, h]

/-- The date, if it is still to be made, is no investment with a total and is placed. -/
def DateInPlace (server : Server) (d : Database) (schedule_id : ℕ) (sch : ScheduleRow)
    (fire_date : Date) : Prop :=
  ∀ f ∈ embeddedFields d sch, (schedule_id, dayNumber fire_date) ∉ d.occurrences.map Occurrence.key →
    let row := generatedRow server d.ledger schedule_id sch f.1 f.2.1 f.2.2 (dayNumber fire_date)
    investmentFields row = none ∧ Placed d.ledger row fire_date

instance dateInPlaceDecidable (server : Server) (d : Database) (schedule_id : ℕ) (sch : ScheduleRow)
    (fire_date : Date) : Decidable (DateInPlace server d schedule_id sch fire_date) :=
  inferInstanceAs (Decidable (∀ f ∈ embeddedFields d sch, _ → _ ∧ Placed _ _ _))

/-- Between the passes of a catch-up that started on `d`: nothing is committed yet. -/
structure Materializing (d₀ d : Database) (s : Session Database) : Prop where
  reconciled : Reconciled s.working.ledger
  frame : PassFrame d.ledger s.working.ledger
  fiscal : s.working.ledger.fiscalRuleFor = d.ledger.fiscalRuleFor
  grown : ∀ o ∈ d.occurrences, o ∈ s.working.occurrences
  paired : PairedSince d₀ s.working
  committed : s.committed = d
  history : s.history = []

variable {d₀ d : Database} {server : Server}

theorem Materializing.start (hr : Reconciled d.ledger) (hp : PairedSince d₀ d) :
    Materializing d₀ d (.ofDb d) where
  reconciled := hr
  frame := .refl _
  fiscal := rfl
  grown _ h := h
  paired := hp
  committed := rfl
  history := rfl

theorem catchUpDate_materializing {schedule_id : ℕ} {sch : ScheduleRow} {fire_date : Date}
    (hplace : DateInPlace server d schedule_id sch fire_date) (total : ℕ) :
    Work.Triple (Materializing d₀ d) (catchUpDate server schedule_id sch total fire_date)
      (fun _ => Materializing d₀ d) fun _ _ => False := by
  intro s hs
  rcases catchUpDate_cases server schedule_id sch total fire_date s with
    ⟨-, hskip⟩ | ⟨type_, entity_id, currency, hfields, hfresh, hcall⟩
  · rw [hskip]
    exact hs
  rw [hcall]
  rw [completed_occurrences] at hfresh
  have hfresh' : (schedule_id, dayNumber fire_date) ∉ d.occurrences.map Occurrence.key := by
    intro hk
    obtain ⟨o, ho, hkey⟩ := List.mem_map.mp hk
    refine hfresh (List.mem_map.mpr ⟨o, hs.grown o ho, hkey⟩)
  rw [embeddedFields_congr hs.frame.charges.entities] at hfields
  obtain ⟨hplain, hplaced⟩ := hplace _ hfields hfresh'
  rw [← generatedRow_congr server hs.fiscal] at hplain hplaced
  obtain ⟨hpass, hreconciled⟩ :=
    reconciled_recalculated hs.reconciled (fun _ => rfl) (hplaced.congr hs.frame.toKeepsOwn)
  -- The row is no investment: it is not completed, and nothing is committed.
  simp only [completed, afterFill, hplain, Option.isSome_none, if_false, Bool.false_eq_true]
  exact
    { reconciled := hreconciled
      frame := hs.frame.trans hpass
      fiscal := (recalculated_fiscalRuleFor _ _ _ _).trans hs.fiscal
      grown := fun o ho => List.mem_append_left _ (hs.grown o ho)
      paired := by
        refine hs.paired.record rfl rfl (fun id h => ?_) ?_
        · exact KeepsRows.recalculated _ _ _ _ id (KeepsRows.insert _ _ id h)
        · exact KeepsRows.recalculated _ _ _ _ _ (isSome_getTransaction_insert _ _)
      committed := hs.committed
      history := hs.history }

/-- The dates of a catch-up from `since` are in place. -/
def CatchUpInPlace (server : Server) (d : Database) (schedule_id : ℕ) (sch : ScheduleRow)
    (since : Date) : Prop :=
  ∀ fd ∈ computeFireDates sch since server.utcToday, DateInPlace server d schedule_id sch fd

instance catchUpInPlaceDecidable (server : Server) (d : Database) (schedule_id : ℕ)
    (sch : ScheduleRow) (since : Date) : Decidable (CatchUpInPlace server d schedule_id sch since) :=
  inferInstanceAs (Decidable (∀ fd ∈ computeFireDates sch since server.utcToday, _))

theorem catchUpDates_materializing {schedule_id : ℕ} {sch : ScheduleRow} {since : Date}
    (hplace : CatchUpInPlace server d schedule_id sch since) (total : ℕ) :
    Work.Triple (Materializing d₀ d) (catchUpDates server schedule_id sch since total)
      (fun _ => Materializing d₀ d) fun _ _ => False :=
  Work.Triple.foldlM (I := fun _ => Materializing d₀ d)
    (fun total fd hfd => catchUpDate_materializing (hplace fd hfd) total) total

/-- What a call has left: the snapshots reconciled and every committed state paired. -/
structure Left (d₀ : Database) (s : Session Database) : Prop where
  reconciled : Reconciled s.committed.ledger
  paired : PairedSince d₀ s.committed
  history : ∀ c ∈ s.history, PairedSince d₀ c

theorem Left.ofDb (hr : Reconciled d.ledger) (hp : PairedSince d₀ d) : Left d₀ (.ofDb d) :=
  ⟨hr, hp, fun _ hc => absurd hc List.not_mem_nil⟩

theorem commitIfAny_left (hr : Reconciled d.ledger) (hp : PairedSince d₀ d) (total : ℕ) :
    Work.Triple (Materializing d₀ d) (commitIfAny total) (fun _ => Left d₀) fun _ _ => False := by
  unfold commitIfAny
  split_ifs
  · refine .commit fun s hs => ⟨hs.reconciled, hs.paired, fun c hc => ?_⟩
    rw [Session.clean, hs.history, List.mem_singleton] at hc
    exact hc ▸ hs.paired
  · refine .pure fun s hs => ⟨hs.committed ▸ hr, hs.committed ▸ hp, fun c hc => ?_⟩
    rw [hs.history] at hc
    cases hc

/-- A call leaves what its triple says. -/
theorem Left.of_triple {w : Work Database CallError Unit}
    (h : Work.Triple (fun s => s = .ofDb d) w (fun _ => Left d₀) fun _ => Left d₀) :
    Left d₀ (w (.ofDb d)).2 := by
  have := h (.ofDb d) rfl
  rcases hw : w (.ofDb d) with ⟨_ | _, s'⟩ <;> rw [hw] at this <;> exact this

theorem catchUpMissedFires_left (hr : Reconciled d.ledger) (hp : PairedSince d₀ d)
    (hplace : ∀ r ∈ d.schedules.rows,
      CatchUpInPlace server d r.1 r.2 (catchUpSince d.lastShutdown r.2)) :
    Left d₀ (catchUpMissedFires server (.ofDb d)).2 := by
  refine .of_triple (.tryExcept_of_total ?_)
  rintro _ rfl
  simp only [Work.read_bind]
  split_ifs
  · exact .ofDb hr hp
  · refine Work.Triple.bind (P := Materializing d₀ d) (Q := fun _ => Materializing d₀ d)
      (.foldlM (I := fun _ => Materializing d₀ d) ?_ 0) (commitIfAny_left hr hp) _ (.start hr hp)
    exact fun total r hmem => catchUpDates_materializing (hplace r hmem) total

theorem catchUpSingleSchedule_left {schedule_id : ℕ} (hr : Reconciled d.ledger)
    (hp : PairedSince d₀ d)
    (hplace : ∀ sch ∈ d.schedules.get? schedule_id,
      CatchUpInPlace server d schedule_id sch sch.startDate) :
    Left d₀ (catchUpSingleSchedule server schedule_id (.ofDb d)).2 := by
  refine .of_triple (.tryExcept_of_total ?_)
  rintro _ rfl
  simp only [Work.read_bind]
  cases hsch : d.schedules.get? schedule_id with
  | none => simp only [Session.ofDb, Session.clean, hsch]; exact .ofDb hr hp
  | some sch =>
    simp only [Session.ofDb, Session.clean, hsch]
    split_ifs
    · exact .ofDb hr hp
    · exact Work.Triple.bind (catchUpDates_materializing (hplace sch hsch) 0) (commitIfAny_left hr hp) _
        (.start hr hp)

/-! ## Live fires -/

/-- No snapshot counts what the fire writes, if it writes anything. -/
def FireInPlace (server : Server) (d : Database) (schedule_id : ℕ) : Prop :=
  ∀ sch ∈ d.schedules.get? schedule_id, pastEnd server sch = false →
    ∀ f ∈ embeddedFields d sch,
      (schedule_id, occurrenceDate server) ∉ d.occurrences.map Occurrence.key →
      let row := generatedRow server d.ledger schedule_id sch f.1 f.2.1 f.2.2 (occurrenceDate server)
      ∀ r ∈ d.ledger.snapshots.rows, Counts d.ledger row.entityId row.cashPocket row.timestamp r →
        row.loopImpact = some 0

instance fireInPlaceDecidable (server : Server) (d : Database) (schedule_id : ℕ) :
    Decidable (FireInPlace server d schedule_id) :=
  haveI : ∀ (row : Transaction) r,
      Decidable (Counts d.ledger row.entityId row.cashPocket row.timestamp r) :=
    fun _ _ => inferInstanceAs (Decidable (_ ∧ _ ∧ _))
  inferInstanceAs (Decidable (∀ sch ∈ d.schedules.get? schedule_id, _ →
    ∀ f ∈ embeddedFields d sch, _ → ∀ r ∈ d.ledger.snapshots.rows, _ → _))

/-- A row that no snapshot counts, with its occurrence. -/
theorem fired {schedule_id : ℕ} {day : ℤ} {row : Transaction} (hr : Reconciled d.ledger)
    (hp : PairedSince d₀ d) (hq : row.quantity = none) (hu : row.unitPrice = none)
    (hsilent : ∀ r ∈ d.ledger.snapshots.rows,
      Counts d.ledger row.entityId row.cashPocket row.timestamp r → row.loopImpact = some 0)
    (h : (⟨schedule_id, day, d.ledger.transactions.next⟩ : Occurrence).key ∉
      d.occurrences.map Occurrence.key) :
    let d' := completed ((d.withGenerated schedule_id day row).withOccurrence
      ⟨schedule_id, day, d.ledger.transactions.next⟩ h) d.ledger.transactions.next row
    Reconciled d'.ledger ∧ PairedSince d₀ d' := by
  intro d'
  obtain ⟨himpact, he, hc, ht⟩ := completedRow_cash hq hu
  have hledger : d'.ledger = d.ledger.insertTransaction (completedRow row) :=
    completed_insert _ row d.ledger rfl
  constructor
  · intro r hmem
    rw [hledger] at hmem ⊢
    refine (hr r hmem).insert fun hcount => ?_
    rw [he, hc, ht] at hcount
    rw [himpact]
    exact hsilent r hmem hcount
  · refine hp.record (completed_occurrences _ _ _) (completed_made _ _ _) ?_ ?_
    · rw [hledger]; exact KeepsRows.insert _ _
    · rw [hledger]; exact isSome_getTransaction_insert _ _

theorem executeSchedule_left {schedule_id : ℕ} (hr : Reconciled d.ledger) (hp : PairedSince d₀ d)
    (hplace : FireInPlace server d schedule_id) :
    Left d₀ (executeSchedule server schedule_id (.ofDb d)).2 := by
  rcases cloneTx_cases server schedule_id (.ofDb d) with hskip | hdup |
    ⟨sch, type_, entity_id, currency, hsch, hpast, hfields, hfresh, hmade⟩
  · rw [executeSchedule_ok hskip]
    exact .ofDb hr hp
  · rw [executeSchedule_error hdup]
    exact .ofDb hr hp
  · rw [executeSchedule_ok hmade]
    have hsilent := hplace sch hsch hpast _ hfields hfresh
    obtain ⟨hreconciled, hpaired⟩ := fired hr hp rfl rfl hsilent hfresh
    exact ⟨hreconciled, hpaired, fun c hc => List.mem_singleton.mp hc ▸ hpaired⟩

/-! ## Runs -/

namespace SchedulerEvent

/-- A call that materializes schedules, and what it leaves on its connection. -/
def session? (d : Database) : SchedulerEvent → Option (Session Database)
  | fire server schedule_id => some (executeSchedule server schedule_id (.ofDb d)).2
  | boot server => some (catchUpMissedFires server (.ofDb d)).2
  | catchUp server schedule_id => some (catchUpSingleSchedule server schedule_id (.ofDb d)).2
  | _ => none

/-- Every state that is committed while an event runs, the one before it included. -/
def committedStates (d : Database) (e : SchedulerEvent) : List Database :=
  d :: ((e.session? d).map Session.history).getD []

/-- A live fire writes where no snapshot counts it; a catch-up where its refresh reaches the
snapshots that do, and without investments that are committed halfway. -/
def InPlace (d : Database) : SchedulerEvent → Prop
  | fire server schedule_id => FireInPlace server d schedule_id
  | boot server => ∀ r ∈ d.schedules.rows,
    CatchUpInPlace server d r.1 r.2 (catchUpSince d.lastShutdown r.2)
  | catchUp server schedule_id => ∀ sch ∈ d.schedules.get? schedule_id,
    CatchUpInPlace server d schedule_id sch sch.startDate
  | scheduleCreate _ _ | scheduleFullCreate _ _ | shutdown _ | ledgerCall _ => False

theorem left_of_inPlace {e : SchedulerEvent} (hr : Reconciled d.ledger) (hp : PairedSince d₀ d)
    (he : e.InPlace d) : ∃ s, e.session? d = some s ∧ e.after d = s.committed ∧ Left d₀ s := by
  cases e with
  | fire server schedule_id => exact ⟨_, rfl, rfl, executeSchedule_left hr hp he⟩
  | boot server => exact ⟨_, rfl, rfl, catchUpMissedFires_left hr hp he⟩
  | catchUp server schedule_id => exact ⟨_, rfl, rfl, catchUpSingleSchedule_left hr hp he⟩
  | scheduleCreate _ _ | scheduleFullCreate _ _ | shutdown _ | ledgerCall _ => exact he.elim

theorem reaches_paired {d' : Database} (h : Runs.Reaches call InPlace d d')
    (hr : Reconciled d.ledger) (hp : PairedSince d₀ d) :
    Reconciled d'.ledger ∧ PairedSince d₀ d' := by
  refine h.invariant (P := fun d => Reconciled d.ledger ∧ PairedSince d₀ d) ⟨hr, hp⟩ ?_
  rintro d e d' ⟨hr, hp⟩ he hcall
  obtain ⟨s, -, hafter, hleft⟩ := left_of_inPlace hr hp he
  cases hcall
  rw [hafter]
  exact ⟨hleft.reconciled, hleft.paired⟩

end SchedulerEvent

/-- Live fires and catch-ups in place keep the snapshots reconciled, and every state they commit
pairs each transaction with its occurrence. -/
theorem materializing_of_reaches {d₀ d : Database}
    (h : Runs.Reaches SchedulerEvent.call SchedulerEvent.InPlace d₀ d)
    (hr : Reconciled d₀.ledger) (hmade : d₀.made = []) :
    Reconciled d.ledger ∧ ∀ e : SchedulerEvent, e.InPlace d →
      Reconciled (e.after d).ledger ∧ ∀ c ∈ e.committedStates d, PairedSince d₀ c := by
  have hstart : PairedSince d₀ d₀ :=
    ⟨fun m hm => absurd hm (hmade ▸ List.not_mem_nil), fun o ho => .inl ho⟩
  obtain ⟨hrd, hpd⟩ := SchedulerEvent.reaches_paired h hr hstart
  refine ⟨hrd, fun e he => ?_⟩
  obtain ⟨s, hs, hafter, hleft⟩ := SchedulerEvent.left_of_inPlace hrd hpd he
  refine ⟨hafter ▸ hleft.reconciled, fun c hc => ?_⟩
  rw [SchedulerEvent.committedStates, hs] at hc
  rcases List.mem_cons.mp hc with rfl | hc
  · exact hpd
  · exact hleft.history c hc

namespace Sample

open SchedulerEvent

/-- A schedule entered in advance, and then a snapshot of its pocket. -/
def beforeSnapshot (sch : ScheduleRow) (day : Date) (hour : ℤ) : Database :=
  run [.scheduleCreate (serverOn (date 2026 6 9 (by decide)) 12) sch,
    .ledgerCall (snapshot 0 usd 500 (at_ (dayNumber day) hour))]

/-- The server is started at noon. -/
def bootOn (day : Date) : SchedulerEvent := .boot (serverOn day 12)

/-- A monthly buy of an asset, for the amount of the salary. -/
def monthlyBuy : ScheduleRow :=
  { salary with type := some .investmentBuy, incomeCategory := none, portfolioAssetId := some 0 }

/-- Three salaries before a snapshot, caught up at once, and a live one after it. -/
theorem caughtUp_materialized :
    let d₀ := beforeSnapshot salary (date 2026 8 10 (by decide)) 12
    let d := (bootOn (date 2026 8 20 (by decide))).after d₀
    let e := fire (serverOn (date 2026 9 15 (by decide)) 0) 0
    d.made.length = 3 ∧ (e.after d).made.length = 4 ∧ Reconciled (e.after d).ledger ∧
      ∀ c ∈ e.committedStates d, PairedSince d₀ c := by
  intro d₀ d e
  have hboot : (bootOn (date 2026 8 20 (by decide))).InPlace d₀ := by
    show ∀ r ∈ d₀.schedules.rows, CatchUpInPlace _ _ _ _ _
    decide +kernel
  have hfire : e.InPlace d := by
    show FireInPlace _ _ _
    decide +kernel
  have h := materializing_of_reaches (.single ⟨_, hboot, rfl⟩) (by decide +kernel) (by decide +kernel)
  exact ⟨by decide +kernel, by decide +kernel, h.2 e hfire⟩

/-- A live fire below a snapshot, a catch-up below a snapshot that is taken between the midnights of
the two clocks, and an investment that is committed without its occurrence. -/
theorem materialized_astray :
    let after := fun d e => (SchedulerEvent.after d e).ledger
    let d₁ := beforeSnapshot salary salary.startDate 6
    let d₂ := beforeSnapshot salary salary.startDate (-4)
    let d₃ := beforeSnapshot monthlyBuy (date 2026 6 12 (by decide)) 12
    let nextDay := bootOn (date 2026 6 16 (by decide))
    (Reconciled d₁.ledger ∧ ¬ Reconciled (after d₁ (fire (serverOn salary.startDate 7) 0))) ∧
      (Reconciled d₂.ledger ∧ ¬ Reconciled (after d₂ nextDay)) ∧
      Reconciled d₃.ledger ∧ ∃ c ∈ nextDay.committedStates d₃, ¬ PairedSince d₃ c := by
  decide +kernel

end Sample

end FinHub
