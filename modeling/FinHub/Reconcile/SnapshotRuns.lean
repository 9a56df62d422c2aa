import FinHub.Reconcile.Snapshots

/-!
# FinHub.Reconcile.SnapshotRuns

Runs of the whole ledger that keep every snapshot settled.

* `SnapshotInPlace`: the snapshot calls that touch only the last snapshot of a pair, with an
  adjustment that falls in the interval of the snapshot.
* `DeleteInPlace`: the deletions whose refresh reaches what they touch.
* `snapshotLaws_of_reaches`: over any run of calls in place, each snapshot is settled and has one
  adjustment of its own pair, and no adjustment outlives its snapshot.
-/

namespace FinHub

open Tabular

variable {s s' : Ledger} {A : ℕ × BalanceSnapshot → Prop}

/-! ## Snapshot calls -/

/-- Writing row `row` under `id`: it is the last of its pair, and in the new table its adjustment
falls after the previous snapshot and before its own. -/
structure SnapshotPlace (s : Ledger) (T : Table BalanceSnapshot) (id : ℕ) (row : BalanceSnapshot) :
    Prop where
  last : LastOfPair s id row
  lands : Lands (s.setSnapshots T) (id, row) (s.timezone.adjustmentTimestamp row.timestamp)

/-- An edited snapshot changes its notes at most, or stays the last of its pairs and is not
measured from its own old row. -/
def EditedSnapshotInPlace (s : Ledger) (id : ℕ) (existing row : BalanceSnapshot) : Prop :=
  AlikeButNotes (id, existing) (id, row) ∨
  ((existing.timestamp ≠ row.timestamp ∨ existing.amount ≠ row.amount) ∧
    LastOfPair s id existing ∧
    ¬ (existing.entityId = row.entityId ∧ existing.currency = row.currency ∧
      existing.timestamp < row.timestamp) ∧
    SnapshotPlace s (s.snapshots.modify id fun _ => row) id row)

/-- Where a snapshot call touches no other snapshot. -/
def Ledger.SnapshotInPlace (s : Ledger) : LedgerCall → Prop
  | .createSnapshot body => SnapshotPlace s (s.snapshots.insert (Ledger.snapshotRow body))
      s.snapshots.next (Ledger.snapshotRow body)
  | .updateSnapshot id body => ∀ existing, s.getBalanceSnapshot id = some existing →
      EditedSnapshotInPlace s id existing (Ledger.snapshotRow body)
  | .deleteSnapshot id => ∀ existing, s.getBalanceSnapshot id = some existing →
      LastOfPair s id existing
  | _ => False

theorem SnapshotsKept.keptBut (h : SnapshotsKept s) {id : ℕ}
    (hid : ∀ n, (id, n) ∉ s.snapshots.rows) : KeptBut id s where
  settled := h.settled.settledBut _
  own n hn _ := h.own n hn
  owned n hn _ := h.owned n hn
  origin j x hx := by
    obtain ⟨n, hn⟩ := h.origin j x hx
    exact ⟨fun he => hid n (he ▸ hn), n, hn⟩

theorem KeptBut.snapshotsKept {id : ℕ} (h : KeptBut id s) (hid : ∀ n, (id, n) ∉ s.snapshots.rows) :
    SnapshotsKept s := by
  have hne : ∀ n ∈ s.snapshots.rows, n.1 ≠ id := by
    rintro ⟨i, n⟩ hn rfl
    exact hid n hn
  exact ⟨h.settled.reconciled hne, fun n hn => h.own n hn (hne n hn),
    fun n hn => h.owned n hn (hne n hn), fun j x hx => (h.origin j x hx).2⟩

theorem getBalanceSnapshot_mem {id : ℕ} {row : BalanceSnapshot}
    (h : s.getBalanceSnapshot id = some row) : (id, row) ∈ s.snapshots.rows :=
  s.snapshots.get?_eq_some_iff.mp h

theorem setSnapshotAdjustment_snapshots (s : Ledger) (entity_id : ℕ) (currency : Currency) (id : ℕ)
    (timestamp : Timestamp) (amount : ℚ) :
    (s.setSnapshotAdjustment entity_id currency id timestamp amount).snapshots = s.snapshots := by
  unfold Ledger.setSnapshotAdjustment
  split <;> rfl

theorem setSnapshotAdjustment_setSnapshots (s : Ledger) (T : Table BalanceSnapshot) (entity_id : ℕ)
    (currency : Currency) (id : ℕ) (timestamp : Timestamp) (amount : ℚ) :
    (s.setSnapshotAdjustment entity_id currency id timestamp amount).setSnapshots T =
      (s.setSnapshots T).setSnapshotAdjustment entity_id currency id timestamp amount := by
  unfold Ledger.setSnapshotAdjustment
  rw [show (s.setSnapshots T).getAdjustmentTransaction entity_id currency id =
    s.getAdjustmentTransaction entity_id currency id from rfl]
  split <;> rfl

namespace SnapshotsKept

theorem createSnapshot (h : SnapshotsKept s) {body : BalanceSnapshotCreate} {snapshot_id : ℕ}
    (hc : s.SnapshotInPlace (.createSnapshot body))
    (hok : s.createSnapshot body = .ok (snapshot_id, s')) : SnapshotsKept s' := by
  obtain ⟨-, rfl, hadj⟩ := Ledger.createSnapshot_cases hok
  obtain ⟨expected, hexp, rfl⟩ := Ledger.createOrUpdateAdjustment_cases hadj
  have hfresh : ∀ n, (s.snapshots.next, n) ∉ s.snapshots.rows := fun n hn =>
    lt_irrefl _ (s.snapshots.bounded _ hn)
  have hkept : KeptBut s.snapshots.next
      (s.setSnapshots (s.snapshots.insert (Ledger.snapshotRow body))) := by
    refine (h.keptBut hfresh).setSnapshots (.insert _) (fun r hr => ?_) (fun b hb => ?_)
      (fun b hb => ?_) fun b hb => ?_
    · rw [Table.mem_insert]
      exact ⟨fun hm => hm.resolve_right fun he => hr (by rw [he]), .inl⟩
    · exact absurd hb (hfresh b)
    · rcases Table.mem_insert.mp hb with hb | hb
      · exact absurd hb (hfresh b)
      · exact congrArg some (Prod.mk.inj hb).2.symm
    · obtain rfl := Option.some_inj.mp (hb.resolve_left fun hn => by cases hn)
      exact hc.last
  refine hkept.aim (Ledger.snapshotRow body) (Table.mem_insert.mpr (.inr rfl)) ?_ hc.lands hexp
  intro r hr hid he hcur
  rcases Table.mem_insert.mp hr with hr | rfl
  · exact hc.last r hr hid he hcur
  · exact absurd rfl hid

/-- Rewriting a snapshot row in the table: the other rows stay. -/
theorem modify_rows {id : ℕ} {old : BalanceSnapshot} (row : BalanceSnapshot)
    (hm : (id, old) ∈ s.snapshots.rows) :
    (∀ r, r.1 ≠ id → (r ∈ (s.snapshots.modify id fun _ => row).rows ↔ r ∈ s.snapshots.rows)) ∧
    ∀ b, (id, b) ∈ (s.snapshots.modify id fun _ => row).rows ↔ b = row := by
  refine ⟨fun r hr => ?_, fun b => ?_⟩
  · rw [Table.mem_modify]
    exact ⟨fun h => h.elim (·.2) fun h => absurd h.1 hr, fun h => .inl ⟨hr, h⟩⟩
  · rw [Table.mem_modify]
    constructor
    · rintro (⟨hne, -⟩ | ⟨-, _, -, rfl⟩)
      · exact absurd rfl hne
      · rfl
    · rintro rfl
      exact .inr ⟨rfl, old, hm, rfl⟩

/-- Notes are nothing that a balance or an adjustment depends on. -/
theorem setNotes (h : SnapshotsKept s) {id : ℕ} {old row : BalanceSnapshot}
    (hm : (id, old) ∈ s.snapshots.rows) (halike : AlikeButNotes (id, old) (id, row)) :
    SnapshotsKept (s.setSnapshots (s.snapshots.modify id fun _ => row)) := by
  obtain ⟨hother, hself⟩ := modify_rows row hm
  have hback : ∀ r ∈ (s.snapshots.modify id fun _ => row).rows, ∃ r' ∈ s.snapshots.rows,
      AlikeButNotes r' r := by
    rintro ⟨i, r⟩ hr
    by_cases hid : i = id
    · subst hid
      obtain rfl := (hself r).mp hr
      exact ⟨_, hm, halike⟩
    · exact ⟨_, (hother (i, r) hid).mp hr, .refl _⟩
  have hforth : ∀ r' ∈ s.snapshots.rows, ∃ r ∈ (s.snapshots.modify id fun _ => row).rows,
      AlikeButNotes r' r := by
    rintro ⟨i, r⟩ hr
    by_cases hid : i = id
    · subst hid
      obtain rfl := s.snapshots.unique hr hm
      exact ⟨(i, row), (hself row).mpr rfl, halike⟩
    · exact ⟨_, (hother (i, r) hid).mpr hr, .refl _⟩
  have hlands : ∀ r ∈ (s.snapshots.modify id fun _ => row).rows, ∀ r' ∈ s.snapshots.rows,
      AlikeButNotes r' r → ∀ u, Lands s r' u →
      Lands (s.setSnapshots (s.snapshots.modify id fun _ => row)) r u := by
    rintro r hr r' hr' ⟨-, hre, hrc, hrt, -⟩ u ⟨hoff, hgroup⟩
    obtain ⟨-, -, hlt, hmin⟩ := (group_iff hr').mp hgroup
    refine ⟨fun f hf hfirst => ?_, (group_iff hr).mpr ⟨rfl, rfl, hrt ▸ hlt, fun d hd hud => ?_⟩⟩
    · obtain ⟨hfm, hfe, hfc⟩ := mem_pairSnapshots.mp hf
      obtain ⟨f', hf', -, hfe', hfc', hft', -⟩ := hback f hfm
      rw [← hft']
      refine hoff f' (mem_pairSnapshots.mpr ⟨hf', hfe'.trans (hfe.trans hre.symm),
        hfc'.trans (hfc.trans hrc.symm)⟩) fun d' hd' => ?_
      obtain ⟨hdm, hde, hdc⟩ := mem_pairSnapshots.mp hd'
      obtain ⟨d, hd, -, hde', hdc', hdt', -⟩ := hforth d' hdm
      have hle := hfirst d (mem_pairSnapshots.mpr ⟨hd, hde'.symm.trans (hde.trans hre),
        hdc'.symm.trans (hdc.trans hrc)⟩)
      exact hft'.le.trans (hle.trans hdt'.ge)
    · obtain ⟨hdm, hde, hdc⟩ := mem_pairSnapshots.mp hd
      obtain ⟨d', hd', -, hde', hdc', hdt', -⟩ := hback d hdm
      rw [← hrt, ← hdt']
      exact hmin d' (mem_pairSnapshots.mpr ⟨hd', hde'.trans (hde.trans hre.symm),
        hdc'.trans (hdc.trans hrc.symm)⟩) (hdt' ▸ hud)
  refine ⟨fun r hr => ?_, fun n hn => ?_, fun n hn => ?_, fun j x hx => ?_⟩
  · obtain ⟨r', hr', -, hre, hrc, hrt, hra⟩ := hback r hr
    obtain ⟨-, he, hc, ht, ha⟩ := halike
    have hview : previousView (s.setSnapshots (s.snapshots.modify id fun _ => row)) r.2.entityId
        r.2.currency r.2.timestamp = previousView s r.2.entityId r.2.currency r.2.timestamp := by
      refine previousView_of_write (.modify hm row) ?_
      simp only at he hc ht ha
      simp [readBefore, he, hc, ht, ha]
    rw [Settled, getBalanceAtDate_setSnapshots hview, ← hre, ← hrc, ← hrt,
      ← hra]
    exact h.settled r' hr'
  · obtain ⟨n', hn', hnn⟩ := hback n hn
    exact (h.own n' hn').setSnapshots hnn (hlands n hn n' hn' hnn)
  · obtain ⟨n', hn', hid, -⟩ := hback n hn
    rw [← hid]
    exact h.owned n' hn'
  · obtain ⟨n, hn⟩ := h.origin j x hx
    obtain ⟨⟨i, r⟩, hr, hid, -⟩ := hforth _ hn
    exact ⟨r, by rw [show j = i from hid]; exact hr⟩

theorem updateSnapshot (h : SnapshotsKept s) {id : ℕ} {body : BalanceSnapshotCreate}
    (hc : s.SnapshotInPlace (.updateSnapshot id body))
    (hok : s.updateSnapshot id body = .ok s') : SnapshotsKept s' := by
  obtain ⟨existing, s₁, hg, hcase, rfl⟩ := Ledger.updateSnapshot_cases hok
  have hm := getBalanceSnapshot_mem hg
  rcases hc existing hg with halike | ⟨hchanged, hlast, hmeasured, hplace⟩
  · rcases hcase with ⟨-, -, rfl⟩ | ⟨hne, -⟩
    · exact h.setNotes hm halike
    · obtain ⟨-, -, -, ht, ha⟩ := halike
      exact absurd hne (not_or.mpr ⟨not_not.mpr ht, not_not.mpr ha⟩)
  rcases hcase with ⟨ht, ha, -⟩ | ⟨-, hadj⟩
  · exact absurd hchanged (not_or.mpr ⟨not_not.mpr ht, not_not.mpr ha⟩)
  obtain ⟨expected, hexp, rfl⟩ := Ledger.createOrUpdateAdjustment_cases hadj
  have hkept₀ := KeptBut.removeOwn h hm hlast
  set s₀ := s.deleteAdjustmentTransaction existing.entityId existing.currency id with hs₀
  have hm₀ : (id, existing) ∈ s₀.snapshots.rows := hm
  obtain ⟨hother, hself⟩ := modify_rows (Ledger.snapshotRow body) hm₀
  have hw : s₀.snapshots.Write (s₀.snapshots.modify id fun _ => Ledger.snapshotRow body)
      (some existing) (some (Ledger.snapshotRow body)) := .modify hm₀ _
  have hkept : KeptBut id (s₀.setSnapshots (s₀.snapshots.modify id fun _ => Ledger.snapshotRow body)) := by
    refine hkept₀.setSnapshots hw hother (fun b hb => congrArg some (s₀.snapshots.unique hm₀ hb))
      (fun b hb => congrArg some ((hself b).mp hb).symm) ?_
    rintro b (hb | hb)
    · rw [← Option.some_inj.mp hb]; exact hlast
    · rw [← Option.some_inj.mp hb]; exact hplace.last
  -- The balance measured in the old table is the one of the new table.
  have hview : previousView (s₀.setSnapshots (s₀.snapshots.modify id fun _ => Ledger.snapshotRow body))
      body.entityId body.currency body.timestamp =
      previousView s₀ body.entityId body.currency body.timestamp := by
    refine previousView_of_write hw ?_
    have hself : readBefore body.entityId body.currency body.timestamp (Ledger.snapshotRow body) =
        none := if_neg fun hlt => lt_irrefl _ hlt.2.2
    have hold : readBefore body.entityId body.currency body.timestamp existing = none :=
      if_neg hmeasured
    rw [Option.bind_some, Option.bind_some, hself, hold]
  rw [← getBalanceAtDate_setSnapshots hview] at hexp
  have hsnap₁ : (s₀.setSnapshotAdjustment body.entityId body.currency id body.timestamp
      (body.amount - expected)).snapshots = s₀.snapshots := setSnapshotAdjustment_snapshots _ _ _ _ _ _
  rw [hsnap₁, setSnapshotAdjustment_setSnapshots]
  refine hkept.aim (Ledger.snapshotRow body) ((hself _).mpr rfl) ?_ ?_ hexp
  · intro r hr hid he hcur
    exact hplace.last r ((hother r hid).mp hr) hid he hcur
  · exact (Lands.congr rfl).mp hplace.lands

theorem deleteSnapshot (h : SnapshotsKept s) {id : ℕ}
    (hc : s.SnapshotInPlace (.deleteSnapshot id)) (hok : s.deleteSnapshot id = .ok s') :
    SnapshotsKept s' := by
  obtain ⟨existing, hg, rfl⟩ := Ledger.deleteSnapshot_cases hok
  have hm := getBalanceSnapshot_mem hg
  have hlast := hc existing hg
  have hkept₀ := KeptBut.removeOwn h hm hlast
  have hnone : ∀ n, (id, n) ∉ (s.snapshots.erase id).rows := fun n hn =>
    (Table.mem_erase.mp hn).2 rfl
  suffices hkept : KeptBut id ((s.deleteAdjustmentTransaction existing.entityId existing.currency
      id).setSnapshots (s.snapshots.erase id)) from hkept.snapshotsKept hnone
  refine hkept₀.setSnapshots (.erase hm) (fun r hr => ?_) (fun b hb => ?_)
    (fun b hb => absurd hb (hnone b)) fun b hb => ?_
  · exact ⟨fun hr' => (Table.mem_erase.mp hr').1, fun hr' => Table.mem_erase.mpr ⟨hr', hr⟩⟩
  · exact congrArg some (s.snapshots.unique hm hb)
  · rw [← Option.some_inj.mp (hb.resolve_right fun hn => by cases hn)]
    exact hlast

end SnapshotsKept

theorem snapshotCall_kept (h : SnapshotsKept s) {c : LedgerCall} (hc : s.SnapshotInPlace c)
    (hok : s.call c = .ok s') : SnapshotsKept s' := by
  cases c with
  | createSnapshot body =>
    obtain ⟨⟨id, s₁⟩, h1, rfl⟩ := Runs.map_eq_ok.mp hok
    exact h.createSnapshot hc h1
  | updateSnapshot id body => exact h.updateSnapshot hc hok
  | deleteSnapshot id => exact h.deleteSnapshot hc hok
  | _ => exact hc.elim

/-! ## Deletion of a transaction -/

/-- A deletion whose refresh, in the pair of the asset currency, reaches what the row and its
injections move. -/
structure DeleteInPlace (s : Ledger) (tx_id : ℕ) (existing : Transaction) : Prop where
  plain : NotOwn existing
  off : OffFirst s existing.entityId existing.cashPocket existing.timestamp
  reached : s.getNextSnapshot existing.entityId existing.cashPocket existing.timestamp = none ∨
    (existing.type ≠ .balanceAdjustment ∧ existing.cashPocket = existing.currency)
  own : existing.type ≠ .balanceAdjustment →
    ∀ n, s.getNextSnapshot existing.entityId existing.currency existing.timestamp = some n →
      OwnAdjustment s n
  attached : ∀ a ∈ s.attachedInjections existing tx_id,
    InjectionReached s existing.entityId existing.cashPocket existing.timestamp ∧
    InjectionPlace s existing.entityId existing.cashPocket (Time.injectionTs existing.timestamp) a

/-- Where the refresh of a deletion reaches every snapshot the call touches. -/
def Ledger.DeletionInPlace (s : Ledger) : LedgerCall → Prop
  | .deleteTransaction tx_id => ∀ existing, s.getTransaction tx_id = some existing →
      DeleteInPlace s tx_id existing
  | _ => False

theorem not_charged_of_no_dependents {tx_id : ℕ} (h : s.transactionHasDependents tx_id = false) :
    ¬ s.Charged tx_id := by
  simp only [Ledger.transactionHasDependents, Bool.or_eq_false_iff, List.any_eq_false,
    decide_eq_true_eq] at h
  rintro (⟨f, hf, he⟩ | ⟨x, hx, he⟩)
  · exact h.1.1 f hf he
  · exact h.1.2 x hx he

theorem SettledBut.deleteInjectionIfUnlinked (h : SettledBut A s) {entity_id : ℕ}
    {currency : Currency} {u : Timestamp} {a : ℕ} (hplace : InjectionPlace s entity_id currency u a) :
    PassFrame s (s.deleteInjectionIfUnlinked a) ∧
    SettledBut (fun r => A r ∨ Counts s entity_id currency u r) (s.deleteInjectionIfUnlinked a) ∧
    ∀ b, InjectionPlace s entity_id currency u b →
      InjectionPlace (s.deleteInjectionIfUnlinked a) entity_id currency u b := by
  rcases s.deleteInjectionIfUnlinked_cases a with he | ⟨row, hg, hi, -, he⟩ <;> rw [he]
  · exact ⟨.refl s, h.mono fun _ _ ha => .inl ha, fun _ hb => hb⟩
  have hm := Ledger.mem_of_getTransaction hg
  obtain ⟨-, hent, hcur, hp, hu, hch⟩ := hplace row hm
  have hdc : Ledger.SameCharges s (s.deleteTransaction a) := by
    refine .remove fun x _ hx hch' => hch ?_
    rw [show x.1 = a by simpa using hx] at hch'
    exact hch'
  refine ⟨.delete hm (.of_isInjection hi) hdc, (h.delete hm hdc).mono ?_, fun b hb =>
    hb.congr hdc fun t ht => (Table.mem_erase.mp ht).1⟩
  rintro r - (ha | hcount)
  · exact .inl ha
  · rw [hent, hu, cashPocket_of_none hp, hcur] at hcount
    exact .inr hcount

theorem SettledBut.deleteInjections {entity_id : ℕ} {currency : Currency} {u : Timestamp}
    {adjs : List ℕ} (h : SettledBut A s)
    (hplace : ∀ a ∈ adjs, InjectionPlace s entity_id currency u a) :
    PassFrame s (adjs.foldl Ledger.deleteInjectionIfUnlinked s) ∧
    SettledBut (fun r => A r ∨ (adjs ≠ [] ∧ Counts s entity_id currency u r))
      (adjs.foldl Ledger.deleteInjectionIfUnlinked s) := by
  induction adjs generalizing s A with
  | nil => exact ⟨.refl s, h.mono fun _ _ ha => .inl ha⟩
  | cons a adjs ih =>
    obtain ⟨hf, hset, hkeep⟩ := h.deleteInjectionIfUnlinked (hplace a List.mem_cons_self)
    obtain ⟨hf', hset'⟩ := ih hset fun b hb => hkeep b (hplace b (List.mem_cons_of_mem _ hb))
    refine ⟨hf.trans hf', hset'.mono ?_⟩
    rintro r - ((ha | hc) | ⟨-, hc⟩)
    · exact .inl ha
    · exact .inr ⟨List.cons_ne_nil _ _, hc⟩
    · exact .inr ⟨List.cons_ne_nil _ _, (Counts.congr hf.snapshots).mp hc⟩

theorem deleteTransaction_settled (h : Reconciled s) {tx_id : ℕ}
    (hc : ∀ existing, s.getTransaction tx_id = some existing → DeleteInPlace s tx_id existing)
    (hok : s.deleteTransactionSvc tx_id = .ok s') : KeepsOwn s s' ∧ Reconciled s' := by
  obtain ⟨existing, s₂, hg, hdep, rfl, hrest⟩ := Ledger.deleteTransactionSvc_cases hok
  have hc := hc existing hg
  have hm := Ledger.mem_of_getTransaction hg
  have hcharged := not_charged_of_no_dependents hdep
  have hf₀ : PassFrame s (s.removeLinksForTransaction tx_id) :=
    .of_same_rows (.removeLinks s _) rfl rfl rfl
  have hset₀ : SettledBut (fun _ => False) (s.removeLinksForTransaction tx_id) :=
    (h.settledBut _).of_same_rows hf₀.charges rfl rfl
  have hdc : Ledger.SameCharges (s.removeLinksForTransaction tx_id)
      ((s.removeLinksForTransaction tx_id).deleteTransaction tx_id) := by
    refine .remove fun x _ hx hch => hcharged ?_
    rw [show x.1 = tx_id by simpa using hx] at hch
    exact hch
  have hf₁ : PassFrame s ((s.removeLinksForTransaction tx_id).deleteTransaction tx_id) :=
    hf₀.trans (.delete hm hc.plain hdc)
  obtain ⟨hf₂, hset₂⟩ := (hset₀.delete hm hdc).deleteInjections fun a ha =>
    (hc.attached a ha).2.congr hf₁.charges fun t ht => (Table.mem_erase.mp ht).1
  have hf := hf₁.trans hf₂
  -- What is touched lies in the group of the row.
  have hgroup : SettledBut (fun r => Group s existing.entityId existing.cashPocket
      existing.timestamp r) _ := hset₂.mono fun r hr hcase => by
    rw [hf.snapshots] at hr
    rcases hcase with (hfalse | hcount) | ⟨hne, hcount⟩
    · exact hfalse.elim
    · exact counts_group hc.off hr hcount
    · obtain ⟨a, ha⟩ := List.exists_mem_of_ne_nil _ hne
      exact (hc.attached a ha).1.group hr ((Counts.congr hf₁.snapshots).mp hcount)
  have hnone : s.getNextSnapshot existing.entityId existing.cashPocket existing.timestamp = none →
      ∀ r, ¬ Group s existing.entityId existing.cashPocket existing.timestamp r := by
    rintro hn r ⟨n, hn', -⟩
    rw [hn] at hn'; cases hn'
  rcases hrest with ⟨htype, rfl⟩ | ⟨htype, hrec⟩
  · refine ⟨hf.toKeepsOwn, hgroup.reconciled fun r _ => ?_⟩
    exact hnone (hc.reached.resolve_right fun hr => hr.1 htype) r
  · obtain ⟨hf₃, hset₃⟩ := hgroup.recalculateAdjustments (h.tiesAgree.congr hf.snapshots) hrec
      fun n hn => by
        rw [Ledger.getNextSnapshot_congr (pairSnapshots_congr hf.snapshots _ _)] at hn
        exact hf.own n (getNextSnapshot_mem hn).1 (hc.own htype n hn)
    refine ⟨(hf.trans hf₃).toKeepsOwn, hset₃.reconciled ?_⟩
    rintro r - ⟨hg, hnot⟩
    rcases hc.reached with hn | ⟨-, hpocket⟩
    · exact hnone hn r hg
    · rw [hpocket] at hg
      exact hnot ((Group.congr hf.snapshots).mpr hg)

/-! ## Runs -/

/-- The calls that keep to what they refresh. -/
def Ledger.CallInPlace (s : Ledger) (c : LedgerCall) : Prop :=
  s.RecordingInPlace c ∨ s.FeeInPlace c ∨ s.DeletionInPlace c ∨ s.SnapshotInPlace c

theorem deletion_settled (h : Reconciled s) {c : LedgerCall} (hc : s.DeletionInPlace c)
    (hok : s.call c = .ok s') : KeepsOwn s s' ∧ Reconciled s' := by
  cases c with
  | deleteTransaction tx_id => exact deleteTransaction_settled h hc hok
  | _ => exact hc.elim

/-- One call in place keeps the snapshots settled and owned. -/
theorem SnapshotsKept.call (h : SnapshotsKept s) {c : LedgerCall} (hc : s.CallInPlace c)
    (hok : s.call c = .ok s') : SnapshotsKept s' := by
  rcases hc with hc | hc | hc | hc
  · obtain ⟨hk, hs⟩ := recording_settled h.settled hc hok
    exact h.keeps hk hs
  · obtain ⟨hk, hs⟩ := feeChange_settled h.settled hc hok
    exact h.keeps hk hs
  · obtain ⟨hk, hs⟩ := deletion_settled h.settled hc hok
    exact h.keeps hk hs
  · exact snapshotCall_kept h hc hok

/-- What snapshots and their adjustments owe each other. -/
structure SnapshotLaws (s : Ledger) : Prop where
  settled : Reconciled s
  oneAdjustment : ∀ n ∈ s.snapshots.rows, ∃ x, Own s n.1 x ∧ x.2.entityId = n.2.entityId ∧
    x.2.currency = n.2.currency ∧ ∀ y, Own s n.1 y → y = x
  noneLeft : ∀ id x, Own s id x → ∃ n, (id, n) ∈ s.snapshots.rows

theorem SnapshotsKept.laws (h : SnapshotsKept s) : SnapshotLaws s where
  settled := h.settled
  oneAdjustment n hn := by
    obtain ⟨x, hx⟩ := h.owned n hn
    obtain ⟨he, hc, -⟩ := (h.own n hn).home x hx
    exact ⟨x, hx, he, hc, fun y hy => (h.own n hn).single y x hy hx⟩
  noneLeft := h.origin

/-- A profile without snapshots and without adjustments that name one. -/
theorem snapshotsKept_of_nil (hs : s.snapshots.rows = []) (ho : ∀ id x, ¬ Own s id x) :
    SnapshotsKept s where
  settled r hr := by rw [hs] at hr; cases hr
  own n hn := by rw [hs] at hn; cases hn
  owned n hn := by rw [hs] at hn; cases hn
  origin id x hx := absurd hx (ho id x)

theorem snapshotLaws_of_reaches (s₀ : Ledger) (hs : s₀.snapshots.rows = [])
    (ho : ∀ id x, ¬ Own s₀ id x) (h : Runs.Reaches Ledger.call Ledger.CallInPlace s₀ s) :
    SnapshotLaws s :=
  (h.invariant (snapshotsKept_of_nil hs ho) fun _ _ _ hs hc hok => hs.call hc hok).laws

namespace Sample

def snapshot (entity_id : ℕ) (currency : Currency) (amount : ℚ) (timestamp : Timestamp) :
    LedgerCall :=
  .createSnapshot { entityId := entity_id, currency, amount, timestamp }

def morning : LedgerCall := snapshot 0 usd 100 (at_ 10 10)

def afternoon : LedgerCall := snapshot 0 usd 150 (at_ 10 15)

/-- Two snapshots of one pocket on one day: the adjustment of the second falls before the first. -/
theorem afternoon_unsettled : profile.calls [morning] = .ok (after [morning]) ∧
    Reconciled (after [morning]) ∧
    (after [morning]).call afternoon = .ok (after ([morning] ++ [afternoon])) ∧
    ¬ Reconciled (after ([morning] ++ [afternoon])) :=
  ⟨calls_eq_after (by decide +kernel), by decide +kernel, call_after (by decide +kernel),
    by decide +kernel⟩

/-- Income, two snapshots of it, the second one corrected and the first one kept. -/
def correctedSnapshot : List LedgerCall :=
  [income 0 eur 100 (at_ 1 9), snapshot 0 eur 80 (at_ 10 12), snapshot 0 eur 90 (at_ 20 12),
   .updateSnapshot 1 { entityId := 0, currency := eur, amount := 95, timestamp := at_ 20 12 }]

theorem correctedSnapshot_laws : SnapshotLaws (after correctedSnapshot) := by
  refine snapshotLaws_of_reaches profile rfl ?_
    (Runs.reaches_of_foldlM (calls_eq_after (by decide +kernel)) ?_)
  · rintro id x ⟨hx, -⟩
    cases hx
  refine allAllowed_cons [] (by decide +kernel) (.inl ⟨?_, by decide +kernel, ?_⟩)
    (allAllowed_cons _ (by decide +kernel) (.inr (.inr (.inr ⟨by decide +kernel, by decide +kernel⟩)))
    (allAllowed_cons _ (by decide +kernel) (.inr (.inr (.inr ⟨by decide +kernel, by decide +kernel⟩)))
    (allAllowed_cons _ (by decide +kernel) (.inr (.inr (.inr ?_))) trivial)))
  · exact fun ht => TransactionType.noConfusion ht
  · exact fun hinj => absurd hinj (by decide +kernel)
  · intro existing hg
    obtain rfl : (⟨0, eur, 90, at_ 20 12, none⟩ : BalanceSnapshot) = existing := by
      rw [← Option.some_inj, ← hg]
      decide +kernel
    exact .inr ⟨by decide +kernel, by decide +kernel, by decide +kernel, by decide +kernel,
      by decide +kernel⟩

end Sample

end FinHub
