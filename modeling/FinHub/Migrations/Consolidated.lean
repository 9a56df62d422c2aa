import FinHub.Lib.Backfill
import FinHub.Lib.Groups
import FinHub.Lib.Runs
import FinHub.Migrations.Versions
import Mathlib.Data.List.TakeWhile
import Mathlib.Data.Prod.Lex
import Mathlib.Tactic.Linarith
import Mathlib.Tactic.NormNum
import Mathlib.Tactic.Ring

/-!
# FinHub.Migrations.Consolidated

What migration 016 leaves behind, for a pair without fees: does every snapshot that survives state the
balance that is read at it, and does every spend read a balance that is not negative?

* `getBalanceAtDate`: the reading of a pair without fees, from the snapshot before or from the origin.
* `timeline`: the manual snapshots and transactions of a pair in the order in which the migration walks
  them. The walk is a `Backfill` pass over it (`walk_follows`).
* `expectedAt`: what a reading finds, from the amounts of the snapshots and transactions alone
  (`read_reconcilePair`).
* `consolidated_iff`: when the migration leaves the ledger as it means to. It writes what is missing at a
  snapshot or spend to the day before, so a snapshot must already contain what its own day lacks.
-/

namespace FinHub

open Tabular Checkpoint

namespace Migrations

namespace ConsolidateAutoSnapshots

abbrev Key := ℤ ×ₗ ℤ ×ₗ ℤ

/-! ## The reading -/

/-- The pair whose cash a transaction moves. -/
def pocketOf (t : TransactionRow) : ℕ × Currency := (t.entityId, BackfillSnapshots.cashPocket t)

def snapshotsOf (d : Store) (p : ℕ × Currency) : List SnapshotRow :=
  (d.balanceSnapshots.rows.map Prod.snd).filter fun s => decide ((s.entityId, s.currency) = p)

def pocketRows (d : Store) (p : ℕ × Currency) : List TransactionRow :=
  (d.transactions.rows.map Prod.snd).filter fun t => decide (pocketOf t = p)

/-- What one pass of the loop in `get_balance_at_date` adds to the balance. -/
def impact (t : TransactionRow) : Option ℚ :=
  if t.type.isInflow || t.type.isSpend then (BackfillSnapshots.cashImpact t).map (signed t.type)
  else some (if t.type = .balanceAdjustment then t.totalValue.getD 0 else 0)

/-- `get_balance_at_date` of a pair without fees. The loop from the snapshot before raises on a row
without an amount (`none`), `SUM` skips it. -/
def getBalanceAtDate (d : Store) (p : ℕ × Currency) (timestamp : IsoStamp) : Option ℚ :=
  (latestBefore (fun s : SnapshotRow => s.timestamp.textKey) (snapshotsOf d p) timestamp.textKey).elim
    (some (((pocketRows d p).filter fun t => decide (t.timestamp.textKey ≤ timestamp.textKey)).map
      fun t => (impact t).getD 0).sum)
    fun snapshot =>
      (((pocketRows d p).filter fun t => decide (snapshot.timestamp.textKey ≤ t.timestamp.textKey) &&
        decide (t.timestamp.textKey < timestamp.textKey)).mapM impact).map fun xs => snapshot.amount + xs.sum

/-- What the migration means to leave: every snapshot states the balance read at it, and no spend reads a
negative one unless some snapshot states one. -/
structure Consolidated (d : Store) (p : ℕ × Currency) : Prop where
  snapshots : ∀ s ∈ snapshotsOf d p, getBalanceAtDate d p s.timestamp = some s.amount
  spends : (∀ s ∈ snapshotsOf d p, 0 ≤ s.amount) → ∀ t ∈ pocketRows d p, t.type.isSpend = true →
    ∃ y, getBalanceAtDate d p t.timestamp = some y ∧ 0 ≤ y

/-! ## The walk -/

open Backfill in
def snapshotEntry (s : SnapshotRow) : Entry Key ℚ :=
  .states s.timestamp.textKey (dayBefore235959 s.timestamp).textKey s.amount

open Backfill in
def transactionEntry (t : TransactionRow) : Entry Key ℚ :=
  .moves t.timestamp.textKey (dayBefore235959 t.timestamp).textKey (signed t.type (t.totalValue.getD 0)) t.type.isSpend

open Backfill in
/-- Snapshots and transactions in one order; of one instant the snapshots come first. -/
def merged : List (ℕ × SnapshotRow) → List (ℕ × TransactionRow) → List (Entry Key ℚ)
  | manual, [] => manual.map fun s => snapshotEntry s.2
  | manual, tx :: txns =>
    let due := fun s : ℕ × SnapshotRow => decide (s.2.timestamp.textKey ≤ tx.2.timestamp.textKey)
    (manual.takeWhile due).map (fun s => snapshotEntry s.2) ++
      transactionEntry tx.2 :: merged (manual.dropWhile due) txns

/-- What the migration walks over. -/
def timeline (d : Store) (p : ℕ × Currency) : List (Backfill.Entry Key ℚ) := merged (manualOf d p) (txnsOf d p)

/-- What the walk has collected, each amount at the instant it will be written to. -/
def Walk.log (w : Walk) : List (Key × ℚ) :=
  (w.injections.map fun entry => (entry.1.textKey, entry.2)) ++
    w.adjustments.map fun a => ((dayBefore235959 a.timestamp).textKey, a.amount)

open Backfill in
/-- A part of the walk is a pass over the entries. -/
structure Walk.Follows (w : Walk) (es : List (Entry Key ℚ)) (w' : Walk) : Prop where
  bal : w'.bal = levelAfter w.bal es
  log : ∀ q, sumOn w'.log q = sumOn w.log q + sumOn (written w.bal es) q

namespace Walk.Follows

open Backfill

variable {w w' w'' : Walk} {es es' : List (Entry Key ℚ)}

theorem refl (w : Walk) : w.Follows [] w where
  bal := rfl
  log _ := (add_zero _).symm

theorem trans (h : w.Follows es w') (h' : w'.Follows es' w'') : w.Follows (es ++ es') w'' where
  bal := by rw [h'.bal, h.bal, levelAfter_append]
  log q := by rw [h'.log, h.log, written_append, sumOn_append, h.bal, add_assoc]

theorem pass (w : Walk) (s : ℕ × SnapshotRow) : w.Follows [snapshotEntry s.2] (w.pass s) where
  bal := by
    simp only [Walk.pass, levelAfter, List.foldl_cons, List.foldl_nil, next, snapshotEntry, lack, Entry.flow]
    ring
  log q := by
    simp only [Walk.log, Walk.pass, List.map_append, ← List.append_assoc]
    rw [sumOn_append]
    rfl

theorem passAll (l : List (ℕ × SnapshotRow)) (w : Walk) :
    w.Follows (l.map fun s => snapshotEntry s.2) (l.foldl Walk.pass w) ∧
      (l.foldl Walk.pass w).manual = w.manual.drop l.length := by
  induction l generalizing w with
  | nil => exact ⟨refl w, rfl⟩
  | cons s l ih =>
    obtain ⟨hfollows, hmanual⟩ := ih (w.pass s)
    refine ⟨(pass w s).trans hfollows, ?_⟩
    rw [List.foldl_cons, hmanual, Walk.pass, List.drop_tail, List.length_cons]

theorem passUntil (due : ℕ × SnapshotRow → Bool) (w : Walk) :
    w.Follows ((w.manual.takeWhile due).map fun s => snapshotEntry s.2) (w.passUntil due) ∧
      (w.passUntil due).manual = w.manual.dropWhile due := by
  obtain ⟨hfollows, hmanual⟩ := passAll (w.manual.takeWhile due) w
  refine ⟨hfollows, hmanual.trans ?_⟩
  calc w.manual.drop (w.manual.takeWhile due).length
      = (w.manual.takeWhile due ++ w.manual.dropWhile due).drop (w.manual.takeWhile due).length := by
        rw [List.takeWhile_append_dropWhile]
    _ = w.manual.dropWhile due := List.drop_left

theorem sumOn_addInjection (key : IsoStamp) (amount : ℚ) (l : List (IsoStamp × ℚ)) (q : Key → Bool) :
    sumOn ((addInjection key amount l).map fun entry => (entry.1.textKey, entry.2)) q =
      sumOn (l.map fun entry => (entry.1.textKey, entry.2)) q + if q key.textKey then amount else 0 := by
  induction l with
  | nil => simp [addInjection, sumOn]
  | cons entry l ih =>
    rw [addInjection]
    by_cases hkey : entry.1 = key
    · subst hkey
      rw [if_pos rfl, List.map_cons, List.map_cons, sumOn_cons, sumOn_cons]
      dsimp only
      split_ifs <;> ring
    · rw [if_neg hkey, List.map_cons, List.map_cons, sumOn_cons, sumOn_cons, ih, add_assoc]

/-- The part of `Walk.spend` after the snapshots that are due. -/
theorem move (w : Walk) (tx : ℕ × TransactionRow) :
    let v := tx.2.totalValue.getD 0
    let short := tx.2.type.isSpend && decide (w.bal < v)
    w.Follows [transactionEntry tx.2]
      { bal := (if short then v else w.bal) + signed tx.2.type v
        injections := if short then addInjection (dayBefore235959 tx.2.timestamp) (v - w.bal) w.injections
          else w.injections
        adjustments := w.adjustments
        manual := w.manual } := by
  intro v short
  have hlack : lack w.bal (transactionEntry tx.2) = if short then v - w.bal else 0 := by
    rw [transactionEntry, lack_moves]
    simp only [short, Bool.and_eq_true, decide_eq_true_eq]
    by_cases hspend : tx.2.type.isSpend = true
    · have hout : signed tx.2.type v = -v := by
        revert hspend
        unfold signed
        cases tx.2.type <;> simp [TransactionType.isSpend, TransactionType.isInflow]
      rw [show tx.2.totalValue.getD 0 = v from rfl, hout, ← sub_eq_add_neg, neg_sub]
      simp only [sub_neg]
    · rw [if_neg (fun h => hspend h.1), if_neg (fun h => hspend h.1)]
  constructor
  · change _ = w.bal + lack w.bal (transactionEntry tx.2) + signed tx.2.type v
    rw [hlack]
    split_ifs <;> ring
  · intro q
    change _ = _ + ((if q (dayBefore235959 tx.2.timestamp).textKey then lack w.bal (transactionEntry tx.2) else 0) + 0)
    rw [hlack, add_zero]
    unfold Walk.log
    rw [sumOn_append, sumOn_append]
    cases short with
    | true =>
      simp only [if_true]
      rw [sumOn_addInjection, add_right_comm]
    | false => simp

theorem spend (w : Walk) (tx : ℕ × TransactionRow) :
    let due := fun s : ℕ × SnapshotRow => decide (s.2.timestamp.textKey ≤ tx.2.timestamp.textKey)
    w.Follows ((w.manual.takeWhile due).map (fun s => snapshotEntry s.2) ++ [transactionEntry tx.2]) (w.spend tx) ∧
      (w.spend tx).manual = w.manual.dropWhile due := by
  intro due
  obtain ⟨hfollows, hmanual⟩ := passUntil due w
  have hspend : w.spend tx =
      { bal := (if tx.2.type.isSpend && decide ((w.passUntil due).bal < tx.2.totalValue.getD 0) then
          tx.2.totalValue.getD 0 else (w.passUntil due).bal) + signed tx.2.type (tx.2.totalValue.getD 0)
        injections := if tx.2.type.isSpend && decide ((w.passUntil due).bal < tx.2.totalValue.getD 0) then
          addInjection (dayBefore235959 tx.2.timestamp) (tx.2.totalValue.getD 0 - (w.passUntil due).bal)
            (w.passUntil due).injections
          else (w.passUntil due).injections
        adjustments := (w.passUntil due).adjustments
        manual := (w.passUntil due).manual } := by
    unfold Walk.spend
    dsimp only
    split_ifs <;> rfl
  rw [hspend]
  exact ⟨hfollows.trans (move (w.passUntil due) tx), hmanual⟩

theorem spendAll (txns : List (ℕ × TransactionRow)) (w : Walk) :
    w.Follows (merged w.manual txns) ((txns.foldl Walk.spend w).passUntil fun _ => true) := by
  induction txns generalizing w with
  | nil =>
    have hall := (passUntil (fun _ => true) w).1
    rw [List.takeWhile_eq_self_iff.mpr fun _ _ => rfl] at hall
    exact hall
  | cons tx txns ih =>
    obtain ⟨hfollows, hmanual⟩ := spend w tx
    have hrest := ih (w.spend tx)
    rw [hmanual] at hrest
    have htrans := hfollows.trans hrest
    rw [List.append_assoc] at htrans
    exact htrans

end Walk.Follows

theorem walk_follows (manual : List (ℕ × SnapshotRow)) (txns : List (ℕ × TransactionRow)) :
    ({ manual := manual } : Walk).Follows (merged manual txns) (walk manual txns) :=
  Walk.Follows.spendAll txns { manual := manual }

/-! ## The order of the timeline -/

section Order

open Backfill

/-- Where the migration writes what is missing at an instant. -/
def placeKey (k : Key) : Key := toLex (Time.injectionTs (ofLex k).1, toLex (0, 0))

theorem placeKey_lt (k : Key) : placeKey k < k :=
  Prod.Lex.toLex_lt_toLex.mpr (.inl (Time.injectionTs_lt_self _))

theorem placeKey_mono {k k' : Key} (h : k ≤ k') : placeKey k ≤ placeKey k' := by
  have hwall : (ofLex k).1 ≤ (ofLex k').1 := by
    rcases Prod.Lex.le_iff.mp h with hlt | ⟨heq, -⟩
    · exact hlt.le
    · exact heq.le
  have hday : Time.injectionTs (ofLex k).1 ≤ Time.injectionTs (ofLex k').1 := by
    have := Time.dayOf_mono hwall
    simp only [Time.injectionTs, Time.endOfDay, Time.startOfDay, Time.ticksPerDay, Time.ticksPerSecond]
    omega
  exact Prod.Lex.toLex_le_toLex.mpr (hday.lt_or_eq.imp id fun he => ⟨he, le_rfl⟩)

variable {manual : List (ℕ × SnapshotRow)} {txns : List (ℕ × TransactionRow)}

theorem merged_perm (manual : List (ℕ × SnapshotRow)) (txns : List (ℕ × TransactionRow)) :
    (merged manual txns).Perm
      (manual.map (fun s => snapshotEntry s.2) ++ txns.map fun tx => transactionEntry tx.2) := by
  induction txns generalizing manual with
  | nil => rw [merged, List.map_nil, List.append_nil]
  | cons tx txns ih =>
    rw [merged]
    refine (((ih _).cons _).append_left _).trans ?_
    rw [List.map_cons]
    refine (List.perm_middle.symm.append_left _).trans ?_
    rw [← List.append_assoc, ← List.map_append, List.takeWhile_append_dropWhile]

theorem lt_of_mem_dropWhile {tx : ℕ × TransactionRow} {s : ℕ × SnapshotRow}
    (hmanual : manual.Pairwise fun s s' => s.2.timestamp.textKey ≤ s'.2.timestamp.textKey)
    (hs : s ∈ manual.dropWhile fun s => decide (s.2.timestamp.textKey ≤ tx.2.timestamp.textKey)) :
    tx.2.timestamp.textKey < s.2.timestamp.textKey := by
  induction manual with
  | nil => cases hs
  | cons s' manual ih =>
    obtain ⟨hhead, htail⟩ := List.pairwise_cons.mp hmanual
    rw [List.dropWhile_cons] at hs
    split_ifs at hs with hdue
    · exact ih htail hs
    · have hlt : tx.2.timestamp.textKey < s'.2.timestamp.textKey := by simpa using hdue
      rcases List.mem_cons.mp hs with rfl | hs
      · exact hlt
      · exact hlt.trans_le (hhead s hs)

theorem mem_merged {e : Entry Key ℚ} (he : e ∈ merged manual txns) :
    (∃ s ∈ manual, e = snapshotEntry s.2) ∨ ∃ tx ∈ txns, e = transactionEntry tx.2 := by
  rcases List.mem_append.mp ((merged_perm manual txns).mem_iff.mp he) with hs | htx
  · obtain ⟨s, hmem, rfl⟩ := List.mem_map.mp hs
    exact .inl ⟨s, hmem, rfl⟩
  · obtain ⟨tx, hmem, rfl⟩ := List.mem_map.mp htx
    exact .inr ⟨tx, hmem, rfl⟩

theorem merged_ordered
    (hmanual : manual.Pairwise fun s s' => s.2.timestamp.textKey ≤ s'.2.timestamp.textKey)
    (htxns : txns.Pairwise fun tx tx' => tx.2.timestamp.textKey ≤ tx'.2.timestamp.textKey) :
    (merged manual txns).Pairwise fun e e' => e.time ≤ e'.time := by
  induction txns generalizing manual with
  | nil => exact List.pairwise_map.mpr hmanual
  | cons tx txns ih =>
    obtain ⟨hhead, htail⟩ := List.pairwise_cons.mp htxns
    rw [merged]
    generalize hdue : (fun s : ℕ × SnapshotRow => decide (s.2.timestamp.textKey ≤ tx.2.timestamp.textKey)) = due
    have hsplit := hmanual
    rw [← List.takeWhile_append_dropWhile (p := due) (l := manual), List.pairwise_append] at hsplit
    obtain ⟨hpassed, hlater, -⟩ := hsplit
    -- everything after the transaction is at its instant or later
    have hafter : ∀ e ∈ merged (manual.dropWhile due) txns, (transactionEntry tx.2).time ≤ e.time := by
      intro e he
      rcases mem_merged he with ⟨s, hs, rfl⟩ | ⟨tx', htx', rfl⟩
      · rw [← hdue] at hs
        exact (lt_of_mem_dropWhile hmanual hs).le
      · exact hhead tx' htx'
    rw [List.pairwise_append, List.pairwise_cons]
    refine ⟨List.pairwise_map.mpr hpassed, ⟨hafter, ih hlater htail⟩, ?_⟩
    intro e he e' he'
    obtain ⟨s, hs, rfl⟩ := List.mem_map.mp he
    have hle : (snapshotEntry s.2).time ≤ (transactionEntry tx.2).time := by
      have := List.mem_takeWhile_imp hs
      rw [← hdue] at this
      exact of_decide_eq_true this
    rcases List.mem_cons.mp he' with rfl | he'
    · exact hle
    · exact hle.trans (hafter e' he')

theorem place_eq {e : Entry Key ℚ} (he : e ∈ merged manual txns) : e.place = placeKey e.time := by
  rcases mem_merged he with ⟨s, -, rfl⟩ | ⟨tx, -, rfl⟩
  · rfl
  · rfl

theorem manualOf_ordered (d : Store) (p : ℕ × Currency) :
    (manualOf d p).Pairwise fun s s' => s.2.timestamp.textKey ≤ s'.2.timestamp.textKey := by
  let byText : ℕ × SnapshotRow → ℕ × SnapshotRow → Prop := fun s s' => s.2.timestamp.textKey ≤ s'.2.timestamp.textKey
  have : Std.Total byText := ⟨fun _ _ => le_total _ _⟩
  have : IsTrans _ byText := ⟨fun _ _ _ => le_trans⟩
  exact List.pairwise_insertionSort byText _

theorem txnsOf_ordered (d : Store) (p : ℕ × Currency) :
    (txnsOf d p).Pairwise fun tx tx' => tx.2.timestamp.textKey ≤ tx'.2.timestamp.textKey := by
  let byText : ℕ × TransactionRow → ℕ × TransactionRow → Prop :=
    fun tx tx' => tx.2.timestamp.textKey ≤ tx'.2.timestamp.textKey
  have : Std.Total byText := ⟨fun _ _ => le_total _ _⟩
  have : IsTrans _ byText := ⟨fun _ _ _ => le_trans⟩
  exact List.pairwise_insertionSort byText _

theorem timeline_dated (d : Store) (p : ℕ × Currency) : Dated (timeline d p) where
  ordered := by
    refine (merged_ordered (manualOf_ordered d p) (txnsOf_ordered d p)).imp_of_mem ?_
    intro e e' he he' hle
    rw [place_eq he, place_eq he']
    exact placeKey_mono hle
  before e he := by
    rw [place_eq he]
    exact (placeKey_lt _).le

end Order

/-! ## The rows afterwards -/

section Rows

open Backfill

variable {d : Store} {p : ℕ × Currency} {q : Key → Bool}

/-- The cash moves of some rows, as `SUM` counts them. -/
def cashMoves (rows : List TransactionRow) : List (Key × ℚ) :=
  rows.map fun t => (t.timestamp.textKey, (impact t).getD 0)

/-- What the reading counts of a transaction beyond what the walk counted. -/
def gaps (rows : List TransactionRow) : List (Key × ℚ) :=
  rows.map fun t => (t.timestamp.textKey, (impact t).getD 0 - signed t.type (t.totalValue.getD 0))

/-- What a cut counts afterwards, from the amounts of the manual snapshots and transactions: the closing
level of the entries it has seen, less the moves it does not count yet. -/
def counted (d : Store) (p : ℕ × Currency) (q : Key → Bool) : ℚ :=
  let seen := (timeline d p).filter fun e => q e.place
  closing 0 seen - sumOn (flows seen) (fun t => !q t) + sumOn (gaps ((txnsOf d p).map Prod.snd)) q

theorem map_snd_foldl_insert {α : Type} (rows : List α) (t : Table α) :
    (rows.foldl Table.insert t).rows.map Prod.snd = t.rows.map Prod.snd ++ rows := by
  induction rows generalizing t with
  | nil => exact (List.append_nil _).symm
  | cons a rows ih =>
    rw [List.foldl_cons, ih]
    simp [Table.insert]

theorem pocketOf_derived {t : TransactionRow} (ht : t ∈ derivedRows d p) : pocketOf t = p := by
  rcases List.mem_append.mp ht with h | h
  · obtain ⟨entry, -, rfl⟩ := List.mem_map.mp h
    rfl
  · obtain ⟨a, -, rfl⟩ := List.mem_map.mp h
    rfl

theorem pocketOf_eq {t : TransactionRow} (ht : t.paymentCurrency = none) : pocketOf t = pairOf t := by
  unfold pocketOf BackfillSnapshots.cashPocket
  rw [ht]
  rfl

/-- Afterwards the pair has its transactions and what was derived. -/
theorem pocketRows_reconcilePair
    (hplain : ∀ r ∈ d.transactions.rows, r.2.entityId = p.1 → r.2.paymentCurrency = none) :
    (pocketRows (reconcilePair d p) p).Perm ((txnsOf d p).map Prod.snd ++ derivedRows d p) := by
  unfold pocketRows reconcilePair
  dsimp only
  rw [map_snd_foldl_insert, List.filter_append]
  refine List.Perm.append ?_ ?_
  · have hkept : ∀ r ∈ d.transactions.rows, (decide (pocketOf r.2 = p) && !isAdjustmentOf p r.2) =
        (decide (pairOf r.2 = p) && decide (r.2.type ≠ .balanceAdjustment)) := by
      intro r hr
      unfold isAdjustmentOf
      by_cases hentity : r.2.entityId = p.1
      · rw [pocketOf_eq (hplain r hr hentity)]
        by_cases hpair : pairOf r.2 = p <;> simp [hpair]
      · have hpocket : pocketOf r.2 ≠ p := fun h => hentity (by rw [← h]; rfl)
        have hpair : pairOf r.2 ≠ p := fun h => hentity (by rw [← h]; rfl)
        simp [hpocket, hpair]
    rw [Table.removeWhere, List.filter_map, List.filter_filter]
    refine List.Perm.map _ ?_
    refine (List.Perm.of_eq (List.filter_congr hkept)).trans ?_
    exact (List.perm_insertionSort _ _).symm
  · rw [List.filter_eq_self.mpr]
    intro t ht
    exact decide_eq_true (pocketOf_derived ht)

theorem cashMoves_derivedRows : cashMoves (derivedRows d p) = (walk (manualOf d p) (txnsOf d p)).log := by
  unfold cashMoves derivedRows Walk.log
  rw [List.map_append, List.map_map, List.map_map]
  rfl

/-- What the reading counts of the transactions: what the walk counted, and the gaps. -/
theorem sumOn_cashMoves_txns : sumOn (cashMoves ((txnsOf d p).map Prod.snd)) q =
    sumOn (flows (timeline d p)) q + sumOn (gaps ((txnsOf d p).map Prod.snd)) q := by
  have hflows : sumOn (flows (timeline d p)) q = sumOn ((txnsOf d p).map fun tx =>
      (tx.2.timestamp.textKey, signed tx.2.type (tx.2.totalValue.getD 0))) q := by
    unfold flows timeline
    rw [sumOn_perm ((merged_perm (manualOf d p) (txnsOf d p)).map _), List.map_append, sumOn_append]
    have hstates : sumOn (((manualOf d p).map fun s => snapshotEntry s.2).map fun e => (e.time, e.flow)) q = 0 := by
      unfold sumOn
      refine List.sum_eq_zero fun x hx => ?_
      simp only [List.map_map, List.mem_map, Function.comp] at hx
      obtain ⟨s, -, rfl⟩ := hx
      exact ite_self 0
    rw [hstates, zero_add, List.map_map]
    rfl
  rw [hflows]
  unfold cashMoves gaps sumOn
  simp only [List.map_map]
  rw [← List.sum_map_add]
  refine congrArg List.sum (List.map_congr_left fun tx _ => ?_)
  simp only [Function.comp]
  cases q tx.2.timestamp.textKey
  · simp
  · simp only [if_true]
    ring

/-- What a cut counts of the rows afterwards. -/
theorem sumOn_reconcilePair
    (hplain : ∀ r ∈ d.transactions.rows, r.2.entityId = p.1 → r.2.paymentCurrency = none) (hq : IsCut q) :
    sumOn (cashMoves (pocketRows (reconcilePair d p) p)) q = counted d p q := by
  have hrows : sumOn (cashMoves (pocketRows (reconcilePair d p) p)) q =
      sumOn (cashMoves ((txnsOf d p).map Prod.snd)) q + sumOn (cashMoves (derivedRows d p)) q := by
    unfold cashMoves
    rw [sumOn_perm ((pocketRows_reconcilePair hplain).map _), List.map_append, sumOn_append]
  have hwalk : sumOn (cashMoves (derivedRows d p)) q = sumOn (written 0 (timeline d p)) q := by
    rw [cashMoves_derivedRows, (walk_follows _ _).log]
    exact zero_add _
  rw [hrows, sumOn_cashMoves_txns, hwalk, add_right_comm, sumOn_rebuilt (timeline_dated d p) hq, sub_zero]
  rfl

end Rows

/-! ## The readings afterwards -/

section Readings

open Backfill

variable {d : Store} {p : ℕ × Currency} {ts : IsoStamp} {y : ℚ}

abbrev snapshotKey (s : SnapshotRow) : Key := s.timestamp.textKey

/-- The readings of a store as readings over checkpoints. -/
abbrev readAt (d : Store) (p : ℕ × Currency) (t : Key) : ℚ :=
  Checkpoint.read snapshotKey SnapshotRow.amount (snapshotsOf d p) (cashMoves (pocketRows d p)) (fun _ => 0) true t

/-- From the snapshot before, every row has an amount. -/
def Readable (d : Store) (p : ℕ × Currency) (ts : IsoStamp) : Prop :=
  ∀ s, latestBefore snapshotKey (snapshotsOf d p) ts.textKey = some s → ∀ t ∈ pocketRows d p,
    s.timestamp.textKey ≤ t.timestamp.textKey → t.timestamp.textKey < ts.textKey → (impact t).isSome

theorem mapM_impact {rows : List TransactionRow} {xs : List ℚ} : rows.mapM impact = some xs ↔
    (∀ t ∈ rows, (impact t).isSome) ∧ xs = rows.map fun t => (impact t).getD 0 := by
  rw [← Runs.isSome_mapM]
  constructor
  · intro h
    refine ⟨by rw [h]; rfl, ?_⟩
    have hmap := congrArg (List.map fun x => Option.getD x 0) (Runs.mapM_eq_some.mp h)
    rw [List.map_map, List.map_map] at hmap
    exact (List.map_id xs).symm.trans hmap.symm
  · rintro ⟨hsome, rfl⟩
    obtain ⟨xs, hxs⟩ := Option.isSome_iff_exists.mp hsome
    have hmap := congrArg (List.map fun x => Option.getD x 0) (Runs.mapM_eq_some.mp hxs)
    rw [List.map_map, List.map_map] at hmap
    rw [hxs]
    exact congrArg some ((List.map_id xs).symm.trans hmap.symm)

theorem sumOn_cashMoves (rows : List TransactionRow) (q : Key → Bool) :
    sumOn (cashMoves rows) q =
      ((rows.filter fun t => q t.timestamp.textKey).map fun t => (impact t).getD 0).sum := by
  rw [Groups.sum_filter]
  unfold sumOn cashMoves
  rw [List.map_map]
  rfl

theorem getBalanceAtDate_eq_some :
    getBalanceAtDate d p ts = some y ↔ Readable d p ts ∧ readAt d p ts.textKey = y := by
  unfold getBalanceAtDate Readable readAt Checkpoint.read
  cases hlast : latestBefore snapshotKey (snapshotsOf d p) ts.textKey with
  | none =>
    rw [Option.elim_none, Option.some_inj, spans_of_none hlast, sumOn_cashMoves, sub_zero]
    simp
  | some s =>
    rw [Option.elim_some, Option.map_eq_some_iff, spans_of_some hlast]
    simp only [mapM_impact, sumOn_cashMoves, sub_zero]
    constructor
    · rintro ⟨xs, ⟨hsome, rfl⟩, rfl⟩
      refine ⟨?_, rfl⟩
      intro s' hs' t ht hle hlt
      cases hs'
      exact hsome t (List.mem_filter.mpr ⟨ht, by simpa using ⟨hle, hlt⟩⟩)
    · rintro ⟨hsome, rfl⟩
      refine ⟨_, ⟨?_, rfl⟩, rfl⟩
      intro t ht
      obtain ⟨hmem, hspan⟩ := List.mem_filter.mp ht
      obtain ⟨hle, hlt⟩ : s.timestamp.textKey ≤ t.timestamp.textKey ∧ t.timestamp.textKey < ts.textKey := by
        simpa using hspan
      exact hsome s rfl t hmem hle hlt

theorem mem_snapshotsOf {s : SnapshotRow} :
    s ∈ snapshotsOf (reconcilePair d p) p ↔ ∃ r ∈ manualOf d p, r.2 = s := by
  simp only [snapshotsOf, reconcilePair, manualOf, List.mem_filter, List.mem_map, List.mem_insertionSort,
    Table.mem_removeWhere, decide_eq_true_eq, Bool.and_eq_true, Bool.not_eq_true', Prod.ext_iff]
  constructor
  · rintro ⟨⟨r, ⟨hmem, hkept⟩, rfl⟩, hpair⟩
    refine ⟨r, ⟨hmem, hpair, ?_⟩, rfl⟩
    simpa [hpair] using hkept
  · rintro ⟨r, ⟨hmem, hpair, hmanual⟩, rfl⟩
    exact ⟨⟨r, ⟨hmem, by simp [hmanual]⟩, rfl⟩, hpair⟩

theorem mem_pocketRows {t : TransactionRow}
    (hplain : ∀ r ∈ d.transactions.rows, r.2.entityId = p.1 → r.2.paymentCurrency = none) :
    t ∈ pocketRows (reconcilePair d p) p ↔ (∃ r ∈ txnsOf d p, r.2 = t) ∨ t ∈ derivedRows d p := by
  rw [(pocketRows_reconcilePair hplain).mem_iff, List.mem_append, List.mem_map]

/-- From the last manual snapshot before, every transaction has an amount. -/
def Priced (d : Store) (p : ℕ × Currency) (ts : IsoStamp) : Prop :=
  (∃ s ∈ manualOf d p, s.2.timestamp.textKey < ts.textKey) → ∀ tx ∈ txnsOf d p,
    tx.2.timestamp.textKey < ts.textKey →
    (∀ s ∈ manualOf d p, s.2.timestamp.textKey < ts.textKey → s.2.timestamp.textKey ≤ tx.2.timestamp.textKey) →
    (impact tx.2).isSome

theorem impact_derived {t : TransactionRow} (ht : t ∈ derivedRows d p) : (impact t).isSome := by
  rcases List.mem_append.mp ht with h | h
  · obtain ⟨entry, -, rfl⟩ := List.mem_map.mp h
    rfl
  · obtain ⟨a, -, rfl⟩ := List.mem_map.mp h
    rfl

theorem readable_iff
    (hplain : ∀ r ∈ d.transactions.rows, r.2.entityId = p.1 → r.2.paymentCurrency = none) :
    Readable (reconcilePair d p) p ts ↔ Priced d p ts := by
  constructor
  · rintro hread ⟨s, hs, hlt⟩ tx htx htxlt hlast
    cases hbefore : latestBefore snapshotKey (snapshotsOf (reconcilePair d p) p) ts.textKey with
    | none => exact absurd (latestBefore_eq_none.mp hbefore s.2 (mem_snapshotsOf.mpr ⟨s, hs, rfl⟩)) (not_le.mpr hlt)
    | some s' =>
      obtain ⟨hmem, hbefore', -⟩ := latestBefore_eq_some hbefore
      obtain ⟨r, hr, rfl⟩ := mem_snapshotsOf.mp hmem
      exact hread r.2 hbefore tx.2 ((mem_pocketRows hplain).mpr (.inl ⟨tx, htx, rfl⟩)) (hlast r hr hbefore') htxlt
  · intro hpriced s hbefore t ht hle hlt
    rcases (mem_pocketRows hplain).mp ht with ⟨tx, htx, rfl⟩ | hderived
    · obtain ⟨hmem, hslt, hmax⟩ := latestBefore_eq_some hbefore
      obtain ⟨r, hr, rfl⟩ := mem_snapshotsOf.mp hmem
      refine hpriced ⟨r, hr, hslt⟩ tx htx hlt fun s hs hslt' => ?_
      exact (hmax s.2 (mem_snapshotsOf.mpr ⟨s, hs, rfl⟩) hslt').trans hle
    · exact impact_derived hderived

/-- What a reading finds afterwards. Without a manual snapshot before it counts up to its instant; from
one it counts what is before, and once more what stands at the instant of the first of them. -/
def expectedAt (d : Store) (p : ℕ × Currency) (ts : IsoStamp) : ℚ :=
  let upTo := fun k : Key => counted d p fun u => decide (u ≤ k)
  let before := fun k : Key => counted d p fun u => decide (u < k)
  (manualOf d p).head?.elim (upTo ts.textKey) fun first =>
    if first.2.timestamp.textKey < ts.textKey then
      before ts.textKey + (upTo first.2.timestamp.textKey - before first.2.timestamp.textKey)
    else upTo ts.textKey

theorem isCut_le (k : Key) : IsCut fun u : Key => decide (u ≤ k) := by
  intro t u hle hu
  exact decide_eq_true (hle.trans (of_decide_eq_true hu))

theorem isCut_lt (k : Key) : IsCut fun u : Key => decide (u < k) := by
  intro t u hle hu
  exact decide_eq_true (hle.trans_lt (of_decide_eq_true hu))

variable {first : ℕ × SnapshotRow}

theorem first_manual (hfirst : (manualOf d p).head? = some first) :
    first ∈ manualOf d p ∧ ∀ s ∈ manualOf d p, first.2.timestamp.textKey ≤ s.2.timestamp.textKey := by
  have hordered := manualOf_ordered d p
  cases hmanual : manualOf d p with
  | nil =>
    rw [hmanual] at hfirst
    cases hfirst
  | cons s rest =>
    rw [hmanual] at hfirst hordered
    obtain rfl := Option.some_inj.mp hfirst
    refine ⟨List.mem_cons_self, fun s' hs' => ?_⟩
    rcases List.mem_cons.mp hs' with rfl | hs'
    · exact le_rfl
    · exact (List.pairwise_cons.mp hordered).1 s' hs'

theorem isFirst_manual (hfirst : (manualOf d p).head? = some first) :
    first.2 ∈ snapshotsOf (reconcilePair d p) p ∧
      IsFirst snapshotKey (snapshotsOf (reconcilePair d p) p) first.2 := by
  obtain ⟨hmem, hmin⟩ := first_manual hfirst
  refine ⟨mem_snapshotsOf.mpr ⟨first, hmem, rfl⟩, fun s hs => ?_⟩
  obtain ⟨r, hr, rfl⟩ := mem_snapshotsOf.mp hs
  exact hmin r hr

abbrev movesAfter (d : Store) (p : ℕ × Currency) : List (Key × ℚ) := cashMoves (pocketRows (reconcilePair d p) p)

/-- From the first manual snapshot on, a reading finds what is before and what stands at the instant of
the first. -/
theorem expectedAt_from
    (hplain : ∀ r ∈ d.transactions.rows, r.2.entityId = p.1 → r.2.paymentCurrency = none)
    (hfirst : (manualOf d p).head? = some first) (hle : first.2.timestamp.textKey ≤ ts.textKey) :
    expectedAt d p ts = sumOn (movesAfter d p) (fun u => decide (u < ts.textKey)) +
      sumOn (movesAfter d p) fun u => decide (u = first.2.timestamp.textKey) := by
  unfold expectedAt
  simp only [hfirst, Option.elim_some, ← sumOn_reconcilePair hplain (isCut_le _),
    ← sumOn_reconcilePair hplain (isCut_lt _), sumOn_le, add_sub_cancel_left]
  rcases hle.lt_or_eq with hlt | heq
  · rw [if_pos hlt]
  · rw [if_neg heq.not_lt, heq]

theorem expectedAt_before
    (hplain : ∀ r ∈ d.transactions.rows, r.2.entityId = p.1 → r.2.paymentCurrency = none)
    (hnone : ∀ s ∈ manualOf d p, ts.textKey ≤ s.2.timestamp.textKey) :
    expectedAt d p ts = sumOn (movesAfter d p) fun u => decide (u ≤ ts.textKey) := by
  unfold expectedAt
  cases hfirst : (manualOf d p).head? with
  | none => rw [Option.elim_none, sumOn_reconcilePair hplain (isCut_le _)]
  | some first =>
    have hlate := hnone first (first_manual hfirst).1
    rw [Option.elim_some, if_neg (not_lt.mpr hlate), sumOn_reconcilePair hplain (isCut_le _)]

abbrev ReconciledAfter (d : Store) (p : ℕ × Currency) : Prop :=
  Reconciled snapshotKey SnapshotRow.amount (snapshotsOf (reconcilePair d p) p) (movesAfter d p) fun _ => 0

theorem reconciledAfter_iff
    (hplain : ∀ r ∈ d.transactions.rows, r.2.entityId = p.1 → r.2.paymentCurrency = none) :
    ReconciledAfter d p ↔ ∀ s ∈ manualOf d p, expectedAt d p s.2.timestamp = s.2.amount := by
  cases hfirst : (manualOf d p).head? with
  | none =>
    have hempty := List.head?_eq_none_iff.mp hfirst
    constructor
    · intro _ s hs
      rw [hempty] at hs
      cases hs
    · intro _ s hs
      obtain ⟨r, hr, -⟩ := mem_snapshotsOf.mp hs
      rw [hempty] at hr
      cases hr
  | some first =>
    obtain ⟨hmem, hmin⟩ := isFirst_manual hfirst
    rw [ReconciledAfter, reconciled_iff hmem hmin]
    constructor
    · intro h s hs
      rw [expectedAt_from hplain hfirst ((first_manual hfirst).2 s hs), ← h s.2 (mem_snapshotsOf.mpr ⟨s, hs, rfl⟩),
        sub_zero]
    · intro h s hs
      obtain ⟨r, hr, rfl⟩ := mem_snapshotsOf.mp hs
      rw [← h r hr, expectedAt_from hplain hfirst ((first_manual hfirst).2 r hr), sub_zero]

/-- Once every snapshot states its reading, all readings are the expected ones. -/
theorem readAt_reconcilePair
    (hplain : ∀ r ∈ d.transactions.rows, r.2.entityId = p.1 → r.2.paymentCurrency = none)
    (hrec : ReconciledAfter d p) : readAt (reconcilePair d p) p ts.textKey = expectedAt d p ts := by
  cases hbefore : latestBefore snapshotKey (snapshotsOf (reconcilePair d p) p) ts.textKey with
  | none =>
    have hnone : ∀ s ∈ manualOf d p, ts.textKey ≤ s.2.timestamp.textKey := fun s hs =>
      latestBefore_eq_none.mp hbefore s.2 (mem_snapshotsOf.mpr ⟨s, hs, rfl⟩)
    rw [expectedAt_before hplain hnone]
    simp only [readAt, Checkpoint.read, hbefore, spans_of_none hbefore, if_true, sub_zero]
  | some s =>
    obtain ⟨hmem, hlt, -⟩ := latestBefore_eq_some hbefore
    obtain ⟨r, hr, rfl⟩ := mem_snapshotsOf.mp hmem
    cases hfirst : (manualOf d p).head? with
    | none =>
      rw [List.head?_eq_none_iff.mp hfirst] at hr
      cases hr
    | some first =>
      obtain ⟨hfmem, hfmin⟩ := isFirst_manual hfirst
      rw [expectedAt_from hplain hfirst (((first_manual hfirst).2 r hr).trans hlt.le), readAt,
        read_eq_total hrec hbefore hfmem hfmin, sub_zero]

end Readings

/-- What the amounts of a pair must say: what a snapshot has seen of its day is what it states, and what
a spend has seen of its day is not negative. -/
structure Foreseen (d : Store) (p : ℕ × Currency) : Prop where
  snapshots : ∀ s ∈ manualOf d p, Priced d p s.2.timestamp ∧ expectedAt d p s.2.timestamp = s.2.amount
  spends : (∀ s ∈ manualOf d p, 0 ≤ s.2.amount) → ∀ tx ∈ txnsOf d p, tx.2.type.isSpend = true →
    Priced d p tx.2.timestamp ∧ 0 ≤ expectedAt d p tx.2.timestamp

theorem not_isSpend_of_derived {d : Store} {p : ℕ × Currency} {t : TransactionRow} (ht : t ∈ derivedRows d p) :
    t.type.isSpend = false := by
  rcases List.mem_append.mp ht with h | h
  · obtain ⟨entry, -, rfl⟩ := List.mem_map.mp h
    rfl
  · obtain ⟨a, -, rfl⟩ := List.mem_map.mp h
    rfl

/-- When the migration leaves what it means to. -/
theorem consolidated_iff (d : Store) (p : ℕ × Currency)
    (hplain : ∀ r ∈ d.transactions.rows, r.2.entityId = p.1 → r.2.paymentCurrency = none) :
    Consolidated (reconcilePair d p) p ↔ Foreseen d p := by
  have hsnapshots : (∀ s ∈ snapshotsOf (reconcilePair d p) p,
      getBalanceAtDate (reconcilePair d p) p s.timestamp = some s.amount) ↔
      ∀ s ∈ manualOf d p, Priced d p s.2.timestamp ∧ expectedAt d p s.2.timestamp = s.2.amount := by
    simp only [getBalanceAtDate_eq_some, readable_iff hplain]
    constructor
    · intro h s hs
      have hall := (reconciledAfter_iff hplain).mp fun s hs => (h s hs).2
      exact ⟨(h s.2 (mem_snapshotsOf.mpr ⟨s, hs, rfl⟩)).1, hall s hs⟩
    · intro h s hs
      have hall := (reconciledAfter_iff hplain).mpr fun s hs => (h s hs).2
      obtain ⟨r, hr, rfl⟩ := mem_snapshotsOf.mp hs
      exact ⟨(h r hr).1, hall r.2 hs⟩
  have hamounts : (∀ s ∈ snapshotsOf (reconcilePair d p) p, 0 ≤ s.amount) ↔ ∀ s ∈ manualOf d p, 0 ≤ s.2.amount := by
    simp only [mem_snapshotsOf, forall_exists_index, and_imp, forall_apply_eq_imp_iff₂]
  have hspend : (∀ s ∈ manualOf d p, expectedAt d p s.2.timestamp = s.2.amount) → ∀ tx : TransactionRow,
      ((∃ y, getBalanceAtDate (reconcilePair d p) p tx.timestamp = some y ∧ 0 ≤ y) ↔
        Priced d p tx.timestamp ∧ 0 ≤ expectedAt d p tx.timestamp) := by
    intro hall tx
    have hread : readAt (reconcilePair d p) p tx.timestamp.textKey = expectedAt d p tx.timestamp :=
      readAt_reconcilePair hplain ((reconciledAfter_iff hplain).mpr hall)
    simp only [getBalanceAtDate_eq_some, readable_iff hplain, hread]
    constructor
    · rintro ⟨y, ⟨hpriced, rfl⟩, hpos⟩
      exact ⟨hpriced, hpos⟩
    · rintro ⟨hpriced, hpos⟩
      exact ⟨_, ⟨hpriced, rfl⟩, hpos⟩
  constructor
  · intro h
    have hstated := hsnapshots.mp h.snapshots
    refine ⟨hstated, fun hpos tx htx ht => ?_⟩
    refine (hspend (fun s hs => (hstated s hs).2) tx.2).mp ?_
    exact h.spends (hamounts.mpr hpos) tx.2 ((mem_pocketRows hplain).mpr (.inl ⟨tx, htx, rfl⟩)) ht
  · intro h
    refine ⟨hsnapshots.mpr h.snapshots, fun hpos t hmem ht => ?_⟩
    refine (hspend (fun s hs => (h.snapshots s hs).2) t).mpr ?_
    rcases (mem_pocketRows hplain).mp hmem with ⟨tx, htx, rfl⟩ | hderived
    · exact h.spends (hamounts.mp hpos) tx htx ht
    · rw [not_isSpend_of_derived hderived] at ht
      cases ht

namespace Sample

open FinHub.Sample (eur)

/-- An hour of a day. -/
def stamp (day hour : ℤ) : IsoStamp := { wall := day * Time.ticksPerDay + hour * 3600 * Time.ticksPerSecond }

def spent (day hour : ℤ) (v : ℚ) : TransactionRow where
  timestamp := stamp day hour
  type := .moneyOut
  entityId := 1
  currency := eur
  totalValue := some v

def stated (day hour : ℤ) (amount : ℚ) : SnapshotRow where
  entityId := 1
  currency := eur
  amount := amount
  timestamp := stamp day hour

def holding (snapshots : List SnapshotRow) (transactions : List TransactionRow) : Store where
  schema := ∅
  transactions := transactions.foldl Table.insert .empty
  balanceSnapshots := snapshots.foldl Table.insert .empty

/-- A snapshot in the evening of a spend, and a spend two days later that it does not cover. -/
def evening : Store := holding [stated 10 18 100] [spent 10 12 150, spent 12 12 130]

/-- A snapshot in the morning of a spend that it does not cover. -/
def morning : Store := holding [stated 10 8 100] [spent 10 12 150]

theorem evening_consolidated : Consolidated (reconcilePair evening (1, eur)) (1, eur) := by
  refine (consolidated_iff evening (1, eur) (by decide)).mpr ⟨?_, fun _ => ?_⟩
  · unfold Priced
    decide +kernel
  · unfold Priced
    decide +kernel

/-- The cash inferred for the spend stands before the snapshot, which already stated what was there. -/
theorem morning_not_consolidated :
    (∀ r ∈ morning.transactions.rows, r.2.entityId = 1 → r.2.paymentCurrency = none) ∧
      ¬ Consolidated (reconcilePair morning (1, eur)) (1, eur) := by
  refine ⟨by decide, fun h => ?_⟩
  have hread : getBalanceAtDate (reconcilePair morning (1, eur)) (1, eur) (stamp 10 8) = some 150 := by
    decide +kernel
  have hstated := h.snapshots (stated 10 8 100) (by decide +kernel)
  rw [show (stated 10 8 100).timestamp = stamp 10 8 from rfl, hread] at hstated
  exact absurd (Option.some_inj.mp hstated) (by decide +kernel)

end Sample

end ConsolidateAutoSnapshots

end Migrations

end FinHub
