import FinHub.Reconcile.FeeChanges

/-!
# FinHub.Reconcile.Snapshots

Creating, editing and deleting snapshots.

* `previousView`: of the snapshot table a balance reads the instant and amount of one row.
* `SnapshotsKept`: every snapshot is settled and has one adjustment, in place; no adjustment is left
  over. `KeptBut id` is the same while one snapshot has no adjustment.
* `KeptBut.removeOwn`, `.setSnapshots`, `.aim`: the three parts of a snapshot call.
-/

namespace FinHub

open Tabular

variable {s s' : Ledger}

/-! ## What a balance reads of the snapshot table -/

/-- Instant and amount of the snapshot that a balance starts from. -/
def previousView (s : Ledger) (entity_id : ℕ) (currency : Currency) (t : Timestamp) :
    Option (Timestamp × ℚ) :=
  (s.getPreviousSnapshot entity_id currency t).map fun p => (p.2.timestamp, p.2.amount)

/-- The part of a snapshot row that a balance at `t` can read. -/
def readBefore (entity_id : ℕ) (currency : Currency) (t : Timestamp) (b : BalanceSnapshot) :
    Option (Timestamp × ℚ) :=
  if b.entityId = entity_id ∧ b.currency = currency ∧ b.timestamp < t then some (b.timestamp, b.amount)
  else none

theorem previousView_eq (s : Ledger) (entity_id : ℕ) (currency : Currency) (t : Timestamp) :
    previousView s entity_id currency t =
      (s.snapshots.rows.filterMap fun r => readBefore entity_id currency t r.2).argmax Prod.fst := by
  have hlist : (s.snapshots.rows.filterMap fun r => readBefore entity_id currency t r.2) =
      ((s.pairSnapshots entity_id currency).filter fun r => decide (r.2.timestamp < t)).map
        fun r => (r.2.timestamp, r.2.amount) := by
    rw [Ledger.pairSnapshots, List.filter_filter, ← List.filterMap_eq_map,
      ← List.filterMap_eq_filter, List.filterMap_filterMap]
    refine List.filterMap_congr fun r _ => ?_
    simp only [readBefore, Option.guard, Bool.and_eq_true, decide_eq_true_eq]
    by_cases h : r.2.entityId = entity_id ∧ r.2.currency = currency ∧ r.2.timestamp < t
    · rw [if_pos h, if_pos ⟨h.2.2, h.1, h.2.1⟩]; rfl
    · rw [if_neg h, if_neg fun h' => h ⟨h'.2.1, h'.2.2, h'.1⟩]; rfl
  rw [hlist, Checkpoint.argmax_map]
  rfl

/-- Of the snapshot table, a balance only depends on what it starts from. -/
theorem getBalanceAtDate_setSnapshots {T : Table BalanceSnapshot} {entity_id : ℕ}
    {currency : Currency} {t : Timestamp}
    (hp : previousView (s.setSnapshots T) entity_id currency t = previousView s entity_id currency t)
    (ex : Exclude) : (s.setSnapshots T).getBalanceAtDate entity_id currency t ex =
      s.getBalanceAtDate entity_id currency t ex := by
  unfold previousView at hp
  unfold Ledger.getBalanceAtDate Ledger.getTransactionsBetween
  simp only [Ledger.setSnapshots_transactions,
    (Ledger.SameCharges.setSnapshots s T).computeFeeCashOutAt]
  cases h : s.getPreviousSnapshot entity_id currency t with
  | none =>
    rw [h, Option.map_none, Option.map_eq_none_iff] at hp
    rw [hp]
  | some p =>
    rw [h, Option.map_some, Option.map_eq_some_iff] at hp
    obtain ⟨p', hp', he⟩ := hp
    obtain ⟨hts, hamount⟩ := Prod.mk.inj he
    rw [hp']
    simp only [hts, hamount]

theorem previousView_of_write {T : Table BalanceSnapshot} {old new : Option BalanceSnapshot}
    {entity_id : ℕ} {currency : Currency} {t : Timestamp} (hw : s.snapshots.Write T old new)
    (h : new.bind (readBefore entity_id currency t) = old.bind (readBefore entity_id currency t)) :
    previousView (s.setSnapshots T) entity_id currency t = previousView s entity_id currency t := by
  rw [previousView_eq, previousView_eq, Ledger.setSnapshots_snapshots, hw.filterMap_eq _ h]

theorem group_iff {entity_id : ℕ} {currency : Currency} {u : Timestamp} {r : ℕ × BalanceSnapshot}
    (hr : r ∈ s.snapshots.rows) : Group s entity_id currency u r ↔
      r.2.entityId = entity_id ∧ r.2.currency = currency ∧ u < r.2.timestamp ∧
        ∀ d ∈ s.pairSnapshots entity_id currency, u < d.2.timestamp →
          r.2.timestamp ≤ d.2.timestamp := by
  by_cases hpair : r.2.entityId = entity_id ∧ r.2.currency = currency
  · obtain ⟨he, hc⟩ := hpair
    have hiff : (∃ n, s.getNextSnapshot entity_id currency u = some n ∧
        r.2.timestamp = n.2.timestamp) ↔ u < r.2.timestamp ∧
          ∀ d ∈ s.pairSnapshots entity_id currency, u < d.2.timestamp →
            r.2.timestamp ≤ d.2.timestamp :=
      Checkpoint.key_eq_firstAfter_iff (mem_pairSnapshots.mpr ⟨hr, he, hc⟩)
    constructor
    · rintro ⟨n, hn, -, -, ht⟩
      exact ⟨he, hc, hiff.mp ⟨n, hn, ht⟩⟩
    · rintro ⟨-, -, hfirst⟩
      obtain ⟨n, hn, ht⟩ := hiff.mpr hfirst
      exact ⟨n, hn, he, hc, ht⟩
  · exact ⟨fun ⟨_, _, he, hc, _⟩ => absurd ⟨he, hc⟩ hpair, fun h => absurd ⟨h.1, h.2.1⟩ hpair⟩

/-! ## The invariant -/

structure SnapshotsKept (s : Ledger) : Prop where
  settled : Reconciled s
  own : ∀ n ∈ s.snapshots.rows, OwnAdjustment s n
  owned : ∀ n ∈ s.snapshots.rows, ∃ x, Own s n.1 x
  origin : ∀ id x, Own s id x → ∃ n, (id, n) ∈ s.snapshots.rows

/-- The invariant while one snapshot has no adjustment. -/
structure KeptBut (id : ℕ) (s : Ledger) : Prop where
  settled : SettledBut (fun r => r.1 = id) s
  own : ∀ n ∈ s.snapshots.rows, n.1 ≠ id → OwnAdjustment s n
  owned : ∀ n ∈ s.snapshots.rows, n.1 ≠ id → ∃ x, Own s n.1 x
  origin : ∀ j x, Own s j x → j ≠ id ∧ ∃ n, (j, n) ∈ s.snapshots.rows

theorem SnapshotsKept.keeps (h : SnapshotsKept s) (hk : KeepsOwn s s') (hs : Reconciled s') :
    SnapshotsKept s' where
  settled := hs
  own n hn := hk.own n (hk.snapshots ▸ hn) (h.own n (hk.snapshots ▸ hn))
  owned n hn := hk.owned n.1 (h.owned n (hk.snapshots ▸ hn))
  origin id x hx := by
    rw [hk.snapshots]
    rcases hk.origin id x hx with ⟨y, hy⟩ | hn
    · exact h.origin id y hy
    · exact hn

/-- The other snapshots of the pair come before the row. -/
def LastOfPair (s : Ledger) (id : ℕ) (row : BalanceSnapshot) : Prop :=
  ∀ r ∈ s.snapshots.rows, r.1 ≠ id → r.2.entityId = row.entityId → r.2.currency = row.currency →
    r.2.timestamp < row.timestamp

instance (s : Ledger) (id : ℕ) (row : BalanceSnapshot) : Decidable (LastOfPair s id row) :=
  inferInstanceAs (Decidable (∀ r ∈ s.snapshots.rows, _ → _ → _ → _ < _))

theorem readBefore_of_last {id : ℕ} {row : BalanceSnapshot} (hlast : LastOfPair s id row)
    {r : ℕ × BalanceSnapshot} (hr : r ∈ s.snapshots.rows) (hid : r.1 ≠ id) :
    readBefore r.2.entityId r.2.currency r.2.timestamp row = none := by
  refine if_neg fun ⟨he, hc, ht⟩ => ?_
  exact lt_asymm ht (hlast r hr hid he.symm hc.symm)

/-- The rows differ in their notes at most. -/
def AlikeButNotes (r' r : ℕ × BalanceSnapshot) : Prop :=
  r'.1 = r.1 ∧ r'.2.entityId = r.2.entityId ∧ r'.2.currency = r.2.currency ∧
    r'.2.timestamp = r.2.timestamp ∧ r'.2.amount = r.2.amount

theorem AlikeButNotes.refl (r : ℕ × BalanceSnapshot) : AlikeButNotes r r := ⟨rfl, rfl, rfl, rfl, rfl⟩

/-- Adjustments stay in place over writes to the snapshot table that keep their intervals. -/
theorem OwnAdjustment.setSnapshots {T : Table BalanceSnapshot} {n' n : ℕ × BalanceSnapshot}
    (h : OwnAdjustment s n') (hn : AlikeButNotes n' n)
    (hlands : ∀ u, Lands s n' u → Lands (s.setSnapshots T) n u) :
    OwnAdjustment (s.setSnapshots T) n := by
  obtain ⟨hid, he, hc, ht, -⟩ := hn
  have hown : ∀ x, Own (s.setSnapshots T) n.1 x → Own s n'.1 x := fun x hx => by rw [hid]; exact hx
  refine ⟨fun x hx => ?_, fun x y hx hy => h.single x y (hown x hx) (hown y hy),
    fun x hx => hlands _ (h.lands x (hown x hx)), fun hno => ?_⟩
  · obtain ⟨hxe, hxc, hrest⟩ := h.home x (hown x hx)
    exact ⟨hxe.trans he, hxc.trans hc, hrest⟩
  · have hl := h.opens fun x hx => hno x (by rw [← hid]; exact hx)
    rw [ht] at hl
    exact hlands _ hl

/-! ## The parts of a call -/

theorem removeTransactions_congr {p q : ℕ × Transaction → Bool}
    (h : ∀ r ∈ s.transactions.rows, p r = q r) : s.removeTransactions p = s.removeTransactions q := by
  have htable : s.transactions.removeWhere p = s.transactions.removeWhere q :=
    Table.ext_rows (List.filter_congr fun r hr => by rw [h r hr]) rfl
  unfold Ledger.removeTransactions
  simp only [htable]

/-- The deletion by snapshot takes the own adjustment and no other row. -/
theorem deleteAdjustmentTransaction_eq {n : ℕ × BalanceSnapshot} (h : OwnAdjustment s n)
    {x : ℕ × Transaction} (hx : Own s n.1 x) :
    s.deleteAdjustmentTransaction n.2.entityId n.2.currency n.1 = s.deleteTransaction x.1 := by
  refine removeTransactions_congr fun y hy => ?_
  rw [Bool.eq_iff_iff, beq_iff_eq]
  simp only [Bool.and_eq_true, decide_eq_true_eq, Transaction.isAdjustment]
  constructor
  · rintro ⟨⟨⟨-, -⟩, ht⟩, hs⟩
    rw [h.single y x ⟨hy, ht, hs⟩ hx]
  · intro hk
    obtain ⟨i, y⟩ := y
    obtain ⟨j, x⟩ := x
    obtain rfl : i = j := hk
    obtain rfl := s.transactions.unique hy hx.1
    obtain ⟨he, hc, -⟩ := h.home _ hx
    exact ⟨⟨⟨he, hc⟩, hx.2.1⟩, hx.2.2⟩

/-- Taking away the adjustment of the last snapshot of a pair. -/
theorem KeptBut.removeOwn (h : SnapshotsKept s) {n : ℕ × BalanceSnapshot}
    (hn : n ∈ s.snapshots.rows) (hlast : LastOfPair s n.1 n.2) :
    KeptBut n.1 (s.deleteAdjustmentTransaction n.2.entityId n.2.currency n.1) := by
  obtain ⟨x, hx⟩ := h.owned n hn
  rw [deleteAdjustmentTransaction_eq (h.own n hn) hx]
  obtain ⟨hent, hcur, hp, hch⟩ := (h.own n hn).home x hx
  have hland := (h.own n hn).lands x hx
  have hdc : Ledger.SameCharges s (s.deleteTransaction x.1) := by
    refine .remove fun y _ hy hch' => hch ?_
    rw [show y.1 = x.1 by simpa using hy] at hch'
    exact hch'
  have hown : ∀ j y, Own (s.deleteTransaction x.1) j y ↔ Own s j y ∧ j ≠ n.1 := by
    intro j y
    constructor
    · rintro ⟨hy, ht, hs⟩
      obtain ⟨hy, hne⟩ := Table.mem_erase.mp hy
      refine ⟨⟨hy, ht, hs⟩, ?_⟩
      rintro rfl
      exact hne (by rw [(h.own n hn).single y x ⟨hy, ht, hs⟩ hx])
    · rintro ⟨⟨hy, ht, hs⟩, hne⟩
      refine ⟨Table.mem_erase.mpr ⟨hy, fun hk => ?_⟩, ht, hs⟩
      obtain ⟨i, y⟩ := y
      obtain ⟨k, x⟩ := x
      obtain rfl : i = k := hk
      rw [s.transactions.unique hy hx.1, hx.2.2] at hs
      exact hne (Option.some_inj.mp hs).symm
  refine ⟨?_, fun m hm hid => ?_, fun m hm hid => ?_, fun j y hy => ?_⟩
  · refine ((h.settled.settledBut fun _ => False).delete (k := x.1) (t := x.2) hx.1 hdc).mono ?_
    rintro r hr (hfalse | hcount)
    · exact hfalse.elim
    rw [hent, cashPocket_of_none hp, hcur] at hcount
    obtain ⟨hre, hrc, hrt⟩ := (hland.counts_iff hr).mp hcount
    by_contra hid
    exact lt_irrefl _ (hrt ▸ hlast r hr hid hre hrc)
  · exact (h.own m hm).congr rfl rfl (fun y _ => (hdc.charged_iff y.1).mp) fun y => by
      rw [hown]; exact ⟨fun hy => hy.1, fun hy => ⟨hy, hid⟩⟩
  · obtain ⟨y, hy⟩ := h.owned m hm
    exact ⟨y, (hown _ _).mpr ⟨hy, hid⟩⟩
  · obtain ⟨hy, hne⟩ := (hown j y).mp hy
    exact ⟨hne, h.origin j y hy⟩

/-- Writing the row of the snapshot without an adjustment: before and after, it is the last of its
pair, so no other snapshot starts from it. -/
theorem KeptBut.setSnapshots {id : ℕ} (h : KeptBut id s) {T : Table BalanceSnapshot}
    {old new : Option BalanceSnapshot} (hw : s.snapshots.Write T old new)
    (hrows : ∀ r, r.1 ≠ id → (r ∈ T.rows ↔ r ∈ s.snapshots.rows))
    (hold : ∀ b, (id, b) ∈ s.snapshots.rows → b ∈ old) (hnew : ∀ b, (id, b) ∈ T.rows → b ∈ new)
    (hlast : ∀ b, b ∈ old ∨ b ∈ new → LastOfPair s id b) : KeptBut id (s.setSnapshots T) := by
  have hlands : ∀ m ∈ s.snapshots.rows, m.1 ≠ id → ∀ u, Lands s m u → Lands (s.setSnapshots T) m u := by
    rintro m hm hid u ⟨hoff, hgroup⟩
    have hm' : m ∈ (s.setSnapshots T).snapshots.rows := (hrows m hid).mpr hm
    obtain ⟨-, -, hum, hmin⟩ := (group_iff hm).mp hgroup
    refine ⟨fun f hf hfirst => ?_, (group_iff hm').mpr ⟨rfl, rfl, hum, fun d hd hud => ?_⟩⟩
    · obtain ⟨hfm, hfe, hfc⟩ := mem_pairSnapshots.mp hf
      by_cases hfid : f.1 = id
      · obtain ⟨i, f⟩ := f
        obtain rfl : i = id := hfid
        have hlt := hlast f (.inr (hnew f hfm)) m hm hid hfe.symm hfc.symm
        exact absurd (hfirst m (mem_pairSnapshots.mpr ⟨hm', rfl, rfl⟩)) (not_le.mpr hlt)
      · refine hoff f (mem_pairSnapshots.mpr ⟨(hrows f hfid).mp hfm, hfe, hfc⟩) fun d hd => ?_
        obtain ⟨hdm, hde, hdc⟩ := mem_pairSnapshots.mp hd
        by_cases hdid : d.1 = id
        · obtain ⟨i, d⟩ := d
          obtain rfl : i = id := hdid
          exact (hlast d (.inl (hold d hdm)) f ((hrows f hfid).mp hfm) hfid (hfe.trans hde.symm)
            (hfc.trans hdc.symm)).le
        · exact hfirst d (mem_pairSnapshots.mpr ⟨(hrows d hdid).mpr hdm, hde, hdc⟩)
    · obtain ⟨hdm, hde, hdc⟩ := mem_pairSnapshots.mp hd
      by_cases hdid : d.1 = id
      · obtain ⟨i, d⟩ := d
        obtain rfl : i = id := hdid
        exact (hlast d (.inr (hnew d hdm)) m hm hid hde.symm hdc.symm).le
      · exact hmin d (mem_pairSnapshots.mpr ⟨(hrows d hdid).mp hdm, hde, hdc⟩) hud
  refine ⟨fun r hr => ?_, fun m hm hid => ?_, fun m hm hid => ?_, fun j x hx => ?_⟩
  · by_cases hid : r.1 = id
    · exact .inr hid
    have hr' := (hrows r hid).mp hr
    refine .inl ?_
    have hview : previousView (s.setSnapshots T) r.2.entityId r.2.currency r.2.timestamp =
        previousView s r.2.entityId r.2.currency r.2.timestamp := by
      refine previousView_of_write hw ?_
      have hnone : ∀ o : Option BalanceSnapshot, (∀ b ∈ o, b ∈ old ∨ b ∈ new) →
          o.bind (readBefore r.2.entityId r.2.currency r.2.timestamp) = none := by
        rintro (_ | b) ho
        · rfl
        · exact readBefore_of_last (hlast b (ho b rfl)) hr' hid
      rw [hnone new fun _ => .inr, hnone old fun _ => .inl]
    rw [Settled, getBalanceAtDate_setSnapshots hview]
    exact (h.settled r hr').resolve_right hid
  · have hm' := (hrows m hid).mp hm
    exact (h.own m hm' hid).setSnapshots (.refl m) (hlands m hm' hid)
  · exact h.owned m ((hrows m hid).mp hm) hid
  · obtain ⟨hne, n, hn⟩ := h.origin j x hx
    exact ⟨hne, n, (hrows (j, n) hne).mpr hn⟩

/-- Aiming a new adjustment at the amount of the snapshot that has none. -/
theorem KeptBut.aim {id : ℕ} (h : KeptBut id s) (row : BalanceSnapshot)
    (hn : (id, row) ∈ s.snapshots.rows) (hlast : LastOfPair s id row)
    (hland : Lands s (id, row) (s.timezone.adjustmentTimestamp row.timestamp)) {expected : ℚ}
    (hexp : s.getBalanceAtDate row.entityId row.currency row.timestamp
      { adjustmentSnapshotId := some id } = some expected) :
    SnapshotsKept (s.setSnapshotAdjustment row.entityId row.currency id row.timestamp
      (row.amount - expected)) := by
  have hno : ∀ x, ¬ Own s id x := fun x hx => (h.origin id x hx).1 rfl
  have hown : OwnAdjustment s (id, row) :=
    ⟨fun x hx => absurd hx (hno x), fun x _ hx => absurd hx (hno x), fun x hx => absurd hx (hno x),
      fun _ => hland⟩
  obtain ⟨k, b, hset⟩ := exists_adjustmentSet hown (row.amount - expected)
  have hf := hset.passFrame hn
  have hunique : ∀ r ∈ s.snapshots.rows, r.1 = id → r = (id, row) := by
    rintro ⟨i, r⟩ hr rfl
    rw [s.snapshots.unique hr hn]
  refine ⟨(hset.settledBut hn h.settled hexp ?_).reconciled ?_, fun m hm => ?_, fun m hm => ?_,
    fun j x hx => ?_⟩
  · intro r hr he hc ht
    by_cases hid : r.1 = id
    · rw [hunique r hr hid]; ring
    · exact absurd ht (hlast r hr hid he hc).ne
  · rintro r hr ⟨hid, hne⟩
    rw [hset.snapshots] at hr
    rw [hunique r hr hid] at hne
    exact hne ⟨rfl, rfl, rfl⟩
  · rw [hf.snapshots] at hm
    by_cases hid : m.1 = id
    · rw [hunique m hm hid]
      exact hf.own _ hn hown
    · exact hf.own m hm (h.own m hm hid)
  · rw [hf.snapshots] at hm
    by_cases hid : m.1 = id
    · rw [hid]
      exact ⟨_, (hset.own _).mpr rfl⟩
    · exact hf.owned m.1 (h.owned m hm hid)
  · rw [hf.snapshots]
    rcases hf.origin j x hx with ⟨y, hy⟩ | hn'
    · exact (h.origin j y hy).2
    · exact hn'

end FinHub
