import FinHub.Analytics.CashReports
import FinHub.Balance.Value

/-!
# FinHub.Analytics.CashAgreement

Where the cash views show what the balances of the entities come to.

A view adds up shares of pairs. The share of a pair with a snapshot is its balance, less its fees once more in
`get_cash_balance_by_currency`; the share of a pair without one is its transactions, less its fees where
`_apply_fee_corrections` takes them off. `shows_iff` turns the difference of a view into a condition, and there is one
spec lemma for what each view adds up.

* `feesTwice`: fees that are taken off twice.
* `feesLeft`, `openFees`: fees that are not taken off, with the corrections and without.
* `cashToday`: the cash that `timestamp <= datetime('now')` leaves out.
-/

namespace FinHub

open Calendar Groups Worth Tabular

namespace Ledger

/-! ## What the views miss -/

/-- The balances of all entities can be read, in every currency. -/
def BalancesReadable (s : Ledger) (timestamp : Timestamp) : Prop :=
  ∀ e ∈ s.entityIds, ∀ cur, s.Readable e cur timestamp {}

/-- Under every key of the rows one of them has an amount. -/
def SomeAmount {κ : Type} (key : ℕ × Transaction → κ) (rows : List (ℕ × Transaction)) : Prop :=
  ∀ r ∈ rows, ∃ r' ∈ rows, key r' = key r ∧ r'.2.caseImpact.isSome

def pairOf (r : ℕ × Transaction) : ℕ × Currency := (r.2.entityId, r.2.cashPocket)

/-- The rows before today whose pair has no snapshot. -/
def openBeforeToday (s : Ledger) (now : Timestamp) : List (ℕ × Transaction) :=
  (s.beforeToday now).filter fun r => !(s.snapshotPairs none).elem (r.2.entityId, r.2.cashPocket)

/-- Whether a pair has a snapshot. -/
def isAnchored (s : Ledger) (p : ℕ × Currency) : Bool := (s.snapshotPairs none).elem p

/-- Whether a pair without a snapshot has a transaction up to an instant. -/
def isOpen (s : Ledger) (timestamp : Timestamp) (p : ℕ × Currency) : Bool := (s.unanchoredPairs none timestamp).elem p

/-- The fees of main pockets with a snapshot. -/
def feesTwice (s : Ledger) (timestamp : Timestamp) (cur : Currency) : ℚ :=
  (s.entityIds.map fun e =>
    if s.isAnchored (e, cur) && s.isMainPocket (e, cur) then s.feesUpTo e cur none timestamp else 0).sum

/-- The fees of pairs without a snapshot that are not a main pocket with transactions. -/
def feesLeft (s : Ledger) (timestamp : Timestamp) (cur : Currency) : ℚ :=
  (s.entityIds.map fun e =>
    if s.isAnchored (e, cur) || s.isMainPocket (e, cur) && s.isOpen timestamp (e, cur) then 0
    else s.feesUpTo e cur none timestamp).sum

/-- The fees of pairs without a snapshot. -/
def openFees (s : Ledger) (timestamp : Timestamp) (cur : Currency) : ℚ :=
  (s.entityIds.map fun e => if s.isAnchored (e, cur) then 0 else s.feesUpTo e cur none timestamp).sum

/-- The rows of today whose pair has no snapshot. -/
def openToday (s : Ledger) (now : Timestamp) : List (ℕ × Transaction) :=
  (s.openRows now).filter fun r => decide (Time.dayOf now ≤ Time.dayOf r.2.timestamp)

/-- What they add to the pockets in a currency. -/
def cashToday (s : Ledger) (now : Timestamp) (cur : Currency) : ℚ :=
  (((s.openToday now).filter fun r => decide (r.2.cashPocket = cur)).map fun r => r.2.sqlImpact).sum

variable {s : Ledger} {timestamp : Timestamp} {cur : Currency}

theorem isAnchored_iff {p : ℕ × Currency} : s.isAnchored p = true ↔ p ∈ s.snapshotPairs none := List.elem_iff

theorem isOpen_iff {p : ℕ × Currency} : s.isOpen timestamp p = true ↔ p ∈ s.unanchoredPairs none timestamp :=
  List.elem_iff

/-! ## The balances -/

/-- The sum that every view is compared with. -/
def balances (s : Ledger) (timestamp : Timestamp) (cur : Currency) : ℚ :=
  (s.entityIds.map fun e => s.balance e cur timestamp {} true).sum

theorem cashTotal_eq_some {x : ℚ} : s.cashTotal timestamp cur = some x ↔
    (∀ e ∈ s.entityIds, s.Readable e cur timestamp {}) ∧ s.balances timestamp cur = x := by
  have hread : (∀ e ∈ s.entityIds, s.Readable e cur timestamp {}) →
      s.entityIds.mapM (fun e => s.getBalanceAtDate e cur timestamp) =
        some (s.entityIds.map fun e => s.balance e cur timestamp {} true) := by
    intro h
    rw [Runs.mapM_eq_some, List.map_map]
    exact List.map_congr_left fun e he => (h e he).getBalanceAtDate true
  unfold cashTotal balances
  constructor
  · intro h
    obtain ⟨xs, hxs, rfl⟩ := Option.map_eq_some_iff.mp h
    have hall : ∀ e ∈ s.entityIds, s.Readable e cur timestamp {} := by
      intro e he
      have hsome := Runs.isSome_mapM.mp (Option.isSome_iff_exists.mpr ⟨xs, hxs⟩) e he
      obtain ⟨x, hx⟩ := Option.isSome_iff_exists.mp hsome
      exact readable_of_getBalanceAtDate hx
    rw [hread hall] at hxs
    exact ⟨hall, congrArg List.sum (Option.some_inj.mp hxs)⟩
  · rintro ⟨hall, rfl⟩
    rw [hread hall]
    rfl

/-- A view shows the balances where it answers and its difference to them is zero. -/
theorem shows_iff {view : Option (List (Currency × ℚ))} (known : Prop) (gap : Currency → ℚ)
    (hview : s.BalancesReadable timestamp → ((∃ entries, view = some entries) ↔ known))
    (hgap : s.BalancesReadable timestamp → ∀ entries, view = some entries → ∀ cur,
      amountOf cur entries = s.balances timestamp cur + gap cur) :
    s.Shows timestamp view ↔ s.BalancesReadable timestamp ∧ known ∧ ∀ cur, gap cur = 0 := by
  constructor
  · rintro ⟨entries, hentries, hshows⟩
    have hread : s.BalancesReadable timestamp := fun e he cur => (cashTotal_eq_some.mp (hshows cur)).1 e he
    refine ⟨hread, (hview hread).mp ⟨entries, hentries⟩, fun cur => ?_⟩
    have htotal := (cashTotal_eq_some.mp (hshows cur)).2
    rw [hgap hread entries hentries cur] at htotal
    linarith
  · rintro ⟨hread, hknown, hzero⟩
    obtain ⟨entries, hentries⟩ := (hview hread).mpr hknown
    refine ⟨entries, hentries, fun cur => cashTotal_eq_some.mpr ⟨fun e he => hread e he cur, ?_⟩⟩
    rw [hgap hread entries hentries cur, hzero cur, add_zero]

theorem balance_of_not_mem {p : ℕ × Currency} (h : p ∉ s.snapshotPairs none) :
    s.balance p.1 p.2 timestamp {} true = s.pairCash timestamp p - s.feesUpTo p.1 p.2 none timestamp := by
  have hpairs : s.pairSnapshots p.1 p.2 = [] := by
    rw [pairSnapshots, List.filter_eq_nil_iff]
    intro r hr hpair
    rw [Bool.and_eq_true, decide_eq_true_eq, decide_eq_true_eq] at hpair
    refine h (List.mem_eraseDups.mpr (List.mem_map.mpr ⟨r, List.mem_filter.mpr ⟨hr, rfl⟩, ?_⟩))
    exact Prod.ext hpair.1 hpair.2
  have hprevious : s.getPreviousSnapshot p.1 p.2 timestamp = none := by
    rw [getPreviousSnapshot, hpairs]
    rfl
  rw [balance_of_none hprevious, cashOver_eq_filter, pairCash]
  congr 3
  refine List.filter_congr fun r _ => ?_
  rw [if_pos rfl, show ({} : Exclude).keeps r = true from rfl, Bool.and_true, Bool.and_comm]

/-! ## Pairs without a snapshot -/

theorem unanchoredPairs_none : s.unanchoredPairs none timestamp = ((s.openRows timestamp).map pairOf).eraseDups := by
  unfold unanchoredPairs openRows
  congr 2
  refine List.filter_congr fun r _ => ?_
  simp [ofEntity]

theorem inPair_eq (p : ℕ × Currency) (r : ℕ × Transaction) : inPair p.1 p.2 r = decide (pairOf r = p) := by
  rw [inPair, ← Bool.decide_and, decide_eq_decide, pairOf, Prod.ext_iff]

theorem filter_openRows {p : ℕ × Currency} (h : p ∉ s.snapshotPairs none) :
    (s.openRows timestamp).filter (fun r => inPair p.1 p.2 r) =
      s.transactions.rows.filter fun r => decide (r.2.timestamp ≤ timestamp) && inPair p.1 p.2 r := by
  rw [openRows, List.filter_filter]
  refine List.filter_congr fun r _ => ?_
  by_cases hpair : pairOf r = p
  · have hopen : (r.2.entityId, r.2.cashPocket) ∉ s.snapshotPairs none := by
      rw [show (r.2.entityId, r.2.cashPocket) = p from hpair]
      exact h
    simp [inPair_eq, hpair, hopen]
  · simp [inPair_eq, hpair]

/-- What a pair without a snapshot has up to an instant. -/
theorem sum_openRows {p : ℕ × Currency} (h : p ∉ s.snapshotPairs none) :
    (((s.openRows timestamp).filter fun r => decide (pairOf r = p)).map fun r => r.2.sqlImpact).sum =
      s.pairCash timestamp p := by
  rw [pairCash, ← filter_openRows h]
  simp only [inPair_eq]

theorem pairCash_of_not_mem {p : ℕ × Currency} (h : p ∉ s.snapshotPairs none)
    (hp : p ∉ s.unanchoredPairs none timestamp) : s.pairCash timestamp p = 0 := by
  rw [unanchoredPairs_none, List.mem_eraseDups] at hp
  rw [← sum_openRows h, sum_key_eq_zero hp]

theorem not_mem_openRows {p : ℕ × Currency} (h : p ∈ s.snapshotPairs none) :
    p ∉ (s.openRows timestamp).map pairOf := by
  intro hmem
  obtain ⟨r, hr, rfl⟩ := List.mem_map.mp hmem
  have hopen := (List.mem_filter.mp hr).2
  rw [Bool.and_eq_true, Bool.not_eq_true'] at hopen
  exact Bool.eq_false_iff.mp hopen.2 (List.elem_iff.mpr h)

theorem not_mem_snapshotPairs {p : ℕ × Currency} (h : p ∈ s.unanchoredPairs none timestamp) :
    p ∉ s.snapshotPairs none := by
  rw [unanchoredPairs_none, List.mem_eraseDups] at h
  exact fun hp => not_mem_openRows hp h

theorem caseImpact_getD (t : Transaction) : t.caseImpact.getD 0 = t.sqlImpact := by
  unfold Transaction.caseImpact Transaction.sqlImpact
  split_ifs <;> rfl

theorem sumOption_caseImpact (rows : List (ℕ × Transaction)) :
    (sumOption (rows.map fun r => r.2.caseImpact)).getD 0 = (rows.map fun r => r.2.sqlImpact).sum := by
  rw [sumOption_getD, List.map_map]
  exact congrArg List.sum (List.map_congr_left fun r _ => caseImpact_getD r.2)

/-- The sums of the keys are known where one amount of each is. -/
theorem forall_isSome_sumOption {κ : Type} [DecidableEq κ] [BEq κ] [LawfulBEq κ] {key : ℕ × Transaction → κ}
    {rows : List (ℕ × Transaction)} : (∀ k ∈ (rows.map key).eraseDups,
      (sumOption ((rows.filter fun r => decide (key r = k)).map fun r => r.2.caseImpact)).isSome) ↔
      SomeAmount key rows := by
  simp only [isSome_sumOption, List.mem_eraseDups]
  constructor
  · intro h r hr
    obtain ⟨_, hx, hsome⟩ := h (key r) (List.mem_map_of_mem hr)
    obtain ⟨r', hr', rfl⟩ := List.mem_map.mp hx
    rw [List.mem_filter, decide_eq_true_eq] at hr'
    exact ⟨r', hr'.1, hr'.2, hsome⟩
  · intro h k hk
    obtain ⟨r, hr, rfl⟩ := List.mem_map.mp hk
    obtain ⟨r', hr', hkey, hsome⟩ := h r hr
    exact ⟨_, List.mem_map_of_mem (List.mem_filter.mpr ⟨hr', decide_eq_true hkey⟩), hsome⟩

/-! ## Views by pairs -/

/-- The shares of the pairs with a snapshot and of some without. -/
def pairEntries (s : Ledger) (rest : List (ℕ × Currency)) (anchoredShare restShare : ℕ × Currency → Option ℚ) :
    Option (List (Currency × ℚ)) := do
  let xs ← (s.snapshotPairs none).mapM fun p => (anchoredShare p).map fun x => (p.2, x)
  let ys ← rest.mapM fun p => (restShare p).map fun x => (p.2, x)
  some (xs ++ ys)

variable {rest : List (ℕ × Currency)} {anchoredShare restShare : ℕ × Currency → Option ℚ}

theorem pairEntries_eq_some {entries : List (Currency × ℚ)} :
    s.pairEntries rest anchoredShare restShare = some entries ↔
      (∀ p ∈ s.snapshotPairs none, (anchoredShare p).isSome) ∧ (∀ p ∈ rest, (restShare p).isSome) ∧
      entries = (s.snapshotPairs none).map (fun p => (p.2, (anchoredShare p).getD 0)) ++
        rest.map fun p => (p.2, (restShare p).getD 0) := by
  constructor
  · intro h
    obtain ⟨xs, hxs, h⟩ := Option.bind_eq_some_iff.mp h
    obtain ⟨ys, hys, h⟩ := Option.bind_eq_some_iff.mp h
    cases h
    obtain ⟨hsome, rfl⟩ := mapM_amounts.mp hxs
    obtain ⟨hsome', rfl⟩ := mapM_amounts.mp hys
    exact ⟨hsome, hsome', rfl⟩
  · rintro ⟨hsome, hsome', rfl⟩
    refine Option.bind_eq_some_iff.mpr ⟨_, mapM_amounts.mpr ⟨hsome, rfl⟩, ?_⟩
    exact Option.bind_eq_some_iff.mpr ⟨_, mapM_amounts.mpr ⟨hsome', rfl⟩, rfl⟩

/-- What a view by pairs is off by, entity by entity: a share that is off by `twice p` on a pair with a snapshot, and by
`left p` on one without, where a pair that is not among the rest has the share zero. -/
theorem amountOf_pairEntries (hs : s.EntitiesKnown) (hrest : rest.Nodup)
    (hmem : ∀ p ∈ rest, p.1 ∈ s.entityIds ∧ p ∉ s.snapshotPairs none) (off : ℕ × Currency → ℚ)
    (hanchored : ∀ p ∈ s.snapshotPairs none, (anchoredShare p).getD 0 = s.balance p.1 p.2 timestamp {} true + off p)
    (hopen : ∀ p ∉ s.snapshotPairs none, (p ∈ rest → (restShare p).isSome) →
      (if p ∈ rest then (restShare p).getD 0 else 0) = s.balance p.1 p.2 timestamp {} true + off p)
    {entries : List (Currency × ℚ)} (h : s.pairEntries rest anchoredShare restShare = some entries) (cur : Currency) :
    amountOf cur entries = s.balances timestamp cur + (s.entityIds.map fun e => off (e, cur)).sum := by
  obtain ⟨-, hsome, rfl⟩ := pairEntries_eq_some.mp h
  have hpairs : (s.snapshotPairs none).Nodup := nodup_eraseDups _
  rw [amountOf_append,
    amountOf_pairs nodup_entityIds hpairs (fun p hp => mem_entityIds_of_snapshotPairs hs hp),
    amountOf_pairs nodup_entityIds hrest (fun p hp => (hmem p hp).1), ← List.sum_map_add, balances, ← List.sum_map_add]
  refine congrArg List.sum (List.map_congr_left fun e _ => ?_)
  by_cases hp : (e, cur) ∈ s.snapshotPairs none
  · have hnot : (e, cur) ∉ rest := fun hin => (hmem _ hin).2 hp
    rw [if_pos hp, if_neg hnot, add_zero]
    exact hanchored _ hp
  · rw [if_neg hp, zero_add]
    convert hopen (e, cur) hp (hsome _)

/-! ## As of an instant -/

/-- What the correction takes from a pair. -/
def corrected (s : Ledger) (timestamp : Timestamp) (p : ℕ × Currency) : ℚ :=
  if s.isMainPocket p then s.feesUpTo p.1 p.2 none timestamp else 0

theorem feeCorrected_eq {p : ℕ × Currency} (h : s.FeesReadable p.1 p.2 none timestamp) (x : ℚ) :
    s.feeCorrected (fun p => s.computeFeeCashOutAt p.1 p.2 timestamp) p x = some (x - s.corrected timestamp p) := by
  unfold feeCorrected corrected isMainPocket
  dsimp only
  split_ifs
  · rw [h.eq_some]
    rfl
  · rw [sub_zero]

/-- The fees of a pair that no correction finds. -/
def left (s : Ledger) (timestamp : Timestamp) (p : ℕ × Currency) : ℚ :=
  if s.isAnchored p || s.isMainPocket p && s.isOpen timestamp p then 0 else s.feesUpTo p.1 p.2 none timestamp

theorem left_of_mem {p : ℕ × Currency} (h : p ∈ s.snapshotPairs none) : s.left timestamp p = 0 := by
  rw [left, isAnchored_iff.mpr h, Bool.true_or, if_pos rfl]

theorem left_of_not_mem {p : ℕ × Currency} (h : p ∉ s.snapshotPairs none) :
    s.left timestamp p =
      if s.isMainPocket p && s.isOpen timestamp p then 0 else s.feesUpTo p.1 p.2 none timestamp := by
  rw [left, Bool.eq_false_iff.mpr (mt isAnchored_iff.mp h), Bool.false_or]

/-- The share of a pair without a snapshot, where the correction is made. -/
theorem corrected_share {p : ℕ × Currency} (h : p ∉ s.snapshotPairs none) {x : ℚ}
    (hx : p ∈ s.unanchoredPairs none timestamp → x = s.pairCash timestamp p - s.corrected timestamp p) :
    (if p ∈ s.unanchoredPairs none timestamp then x else 0) =
      s.balance p.1 p.2 timestamp {} true + s.left timestamp p := by
  rw [balance_of_not_mem h, left_of_not_mem h]
  by_cases hp : p ∈ s.unanchoredPairs none timestamp
  · rw [if_pos hp, hx hp, corrected]
    by_cases hmain : s.isMainPocket p = true
    · rw [if_pos hmain, hmain, isOpen_iff.mpr hp, Bool.and_true, if_pos rfl, add_zero]
    · rw [if_neg hmain, Bool.eq_false_iff.mpr hmain, Bool.false_and, if_neg Bool.false_ne_true]
      ring
  · rw [if_neg hp, Bool.eq_false_iff.mpr (mt isOpen_iff.mp hp), Bool.and_false, if_neg Bool.false_ne_true,
      pairCash_of_not_mem h hp]
    ring

theorem getTotalCashByCurrencyAsOf_eq : s.getTotalCashByCurrencyAsOf timestamp =
    (s.pairEntries (s.unanchoredPairs none timestamp) (s.anchoredAmount timestamp)
      (s.unanchoredAmount timestamp)).map collect := rfl

theorem mem_unanchoredPairs (hs : s.EntitiesKnown) : ∀ p ∈ s.unanchoredPairs none timestamp,
    p.1 ∈ s.entityIds ∧ p ∉ s.snapshotPairs none :=
  fun _ hp => ⟨mem_entityIds_of_unanchoredPairs hs hp, not_mem_snapshotPairs hp⟩

theorem anchoredAmount_eq (hs : s.EntitiesKnown) (hread : s.BalancesReadable timestamp) {p : ℕ × Currency}
    (hp : p ∈ s.snapshotPairs none) : s.anchoredAmount timestamp p = some (s.balance p.1 p.2 timestamp {} true) :=
  (hread p.1 (mem_entityIds_of_snapshotPairs hs hp) p.2).getBalanceAtDate true

theorem unanchoredAmount_eq (hs : s.EntitiesKnown) (hread : s.BalancesReadable timestamp) {p : ℕ × Currency}
    (hp : p ∈ s.unanchoredPairs none timestamp) :
    s.unanchoredAmount timestamp p = some (s.pairCash timestamp p - s.corrected timestamp p) :=
  feeCorrected_eq (hread p.1 (mem_entityIds_of_unanchoredPairs hs hp) p.2).fees _

theorem exists_totalCash (hs : s.EntitiesKnown) (hread : s.BalancesReadable timestamp) :
    ∃ cash, s.getTotalCashByCurrencyAsOf timestamp = some cash := by
  rw [getTotalCashByCurrencyAsOf_eq]
  refine ⟨_, Option.map_eq_some_iff.mpr ⟨_, pairEntries_eq_some.mpr ⟨?_, ?_, rfl⟩, rfl⟩⟩
  · intro p hp
    rw [anchoredAmount_eq hs hread hp]
    rfl
  · intro p hp
    rw [unanchoredAmount_eq hs hread hp]
    rfl

theorem amountOf_totalCash (hs : s.EntitiesKnown) (hread : s.BalancesReadable timestamp) {cash : Tally Currency}
    (h : s.getTotalCashByCurrencyAsOf timestamp = some cash) (cur : Currency) :
    amountOf cur cash = s.balances timestamp cur + s.feesLeft timestamp cur := by
  rw [getTotalCashByCurrencyAsOf_eq] at h
  obtain ⟨entries, hentries, rfl⟩ := Option.map_eq_some_iff.mp h
  rw [amountOf_collect]
  refine amountOf_pairEntries hs (nodup_eraseDups _) (mem_unanchoredPairs hs) (s.left timestamp) ?_ ?_ hentries cur
  · intro p hp
    rw [anchoredAmount_eq hs hread hp, left_of_mem hp, add_zero]
    rfl
  · intro p hp _
    refine corrected_share hp fun hin => ?_
    rw [unanchoredAmount_eq hs hread hin]
    rfl

/-- The view as of an instant shows the balances where the fees it leaves cancel. -/
theorem shows_total (hs : s.EntitiesKnown) (timestamp : Timestamp) :
    s.Shows timestamp (s.getTotalCashByCurrencyAsOf timestamp) ↔
    s.BalancesReadable timestamp ∧ ∀ cur, s.feesLeft timestamp cur = 0 := by
  rw [shows_iff True (s.feesLeft timestamp) (fun hread => iff_true_intro (exists_totalCash hs hread))
    fun hread cash h cur => amountOf_totalCash hs hread h cur]
  simp only [true_and]

/-- The views of the entities add up to the view without one. -/
theorem amountOf_entityEntries (hs : s.EntitiesKnown) {cash : Tally Currency}
    (hcash : s.getTotalCashByCurrencyAsOf timestamp = some cash) :
    ∃ entries, s.entityEntries timestamp = some entries ∧ ∀ cur, amountOf cur entries = amountOf cur cash := by
  choose cashOf hcashOf _ using fun e => exists_cashAsOf_some (s := s) hcash e
  refine ⟨(s.entityIds.map cashOf).flatten, ?_, fun cur => ?_⟩
  · refine Option.map_eq_some_iff.mpr ⟨s.entityIds.map cashOf, ?_, rfl⟩
    rw [Runs.mapM_eq_some, List.map_map]
    exact List.map_congr_left fun e _ => hcashOf e
  · have hsum := worth_cash_eq_sum hs hcash (fun e _ => hcashOf e) (fun k => if k = cur then 1 else 0)
      (fun _ k => if k = cur then 1 else 0) (fun _ _ _ _ => rfl)
    rw [amountOf_flatten, List.map_map, amountOf_eq_worth, ← hsum]
    exact congrArg List.sum (List.map_congr_left fun e _ => amountOf_eq_worth cur (cashOf e))

theorem shows_entities (hs : s.EntitiesKnown) (timestamp : Timestamp) :
    s.Shows timestamp (s.entityEntries timestamp) ↔
    s.BalancesReadable timestamp ∧ ∀ cur, s.feesLeft timestamp cur = 0 := by
  rw [shows_iff True (s.feesLeft timestamp) ?_ ?_]
  · simp only [true_and]
  · intro hread
    obtain ⟨cash, hcash⟩ := exists_totalCash hs hread
    obtain ⟨entries, hentries, _⟩ := amountOf_entityEntries hs hcash
    exact iff_true_intro ⟨entries, hentries⟩
  · intro hread entries hentries cur
    obtain ⟨cash, hcash⟩ := exists_totalCash hs hread
    obtain ⟨entries', hentries', hamount⟩ := amountOf_entityEntries hs hcash
    rw [hentries] at hentries'
    cases hentries'
    rw [hamount, amountOf_totalCash hs hread hcash]

/-! ## Today -/

/-- What a row of `get_cash_balance_by_currency` shows. -/
theorem entry_correctRow (p : ℕ × Currency) (balance : Option ℚ) :
    (s.correctRow timestamp ⟨p.1, p.2, balance⟩).bind (fun r => r.balance.map fun x => (r.currency, x)) =
      (balance.bind (s.feeCorrected (fun p => s.computeFeeCashOutAt p.1 p.2 timestamp) p)).map fun x => (p.2, x) := by
  unfold correctRow feeCorrected isMainPocket
  cases balance with
  | none => split_ifs <;> rfl
  | some x =>
    dsimp only [Option.bind_some]
    split_ifs
    · cases s.computeFeeCashOutAt p.1 p.2 timestamp <;> rfl
    · rfl

/-- The share of a pair with a snapshot: its fees are taken off once more. -/
def correctedBalance (s : Ledger) (timestamp : Timestamp) (p : ℕ × Currency) : Option ℚ :=
  (s.getBalanceAtDate p.1 p.2 timestamp).bind
    (s.feeCorrected (fun p => s.computeFeeCashOutAt p.1 p.2 timestamp) p)

def correctedSum (s : Ledger) (timestamp : Timestamp) (p : ℕ × Currency) : Option ℚ :=
  (s.openBalanceRow timestamp p).balance.bind (s.feeCorrected (fun p => s.computeFeeCashOutAt p.1 p.2 timestamp) p)

theorem balanceEntries_eq (now : Timestamp) : s.balanceEntries now =
    s.pairEntries (s.unanchoredPairs none (nowCutoff now)) (s.correctedBalance (nowCutoff now))
      (s.correctedSum (nowCutoff now)) := by
  set cutoff := nowCutoff now with hcutoff
  set entry : CashBalanceRow → Option (Currency × ℚ) := fun r =>
    (s.correctRow cutoff r).bind fun r => r.balance.map fun x => (r.currency, x) with hentry
  have hanchored : ∀ p, (s.anchoredBalanceRow cutoff p).bind entry =
      (s.correctedBalance cutoff p).map fun x => (p.2, x) := by
    intro p
    rw [anchoredBalanceRow, correctedBalance]
    cases s.getBalanceAtDate p.1 p.2 cutoff with
    | none => rfl
    | some x => exact entry_correctRow p (some x)
  have hopen : ∀ p, entry (s.openBalanceRow cutoff p) = (s.correctedSum cutoff p).map fun x => (p.2, x) :=
    fun p => entry_correctRow p _
  have hcorrect : ∀ rows : List CashBalanceRow, (rows.mapM (s.correctRow cutoff)).bind
      (rowEntries CashBalanceRow.currency CashBalanceRow.balance) = rows.mapM entry := fun rows => Runs.mapM_bind rows
  have hview : s.balanceEntries now = ((s.snapshotPairs none).mapM (s.anchoredBalanceRow cutoff)).bind fun results =>
      (results ++ (s.unanchoredPairs none cutoff).map (s.openBalanceRow cutoff)).mapM entry := by
    simp only [← hcorrect, unanchoredPairs_none]
    exact Option.bind_assoc _ _ _
  rw [hview, Runs.mapM_append_bind, List.mapM_map]
  simp only [hanchored, Function.comp_def, hopen]
  rfl

/-- The sum of the rows of a pair without a snapshot. -/
theorem openBalanceRow_balance {p : ℕ × Currency} (h : p ∉ s.snapshotPairs none)
    (hsome : (s.openBalanceRow timestamp p).balance.isSome) :
    (s.openBalanceRow timestamp p).balance = some (s.pairCash timestamp p) := by
  obtain ⟨x, hx⟩ := Option.isSome_iff_exists.mp hsome
  have hsum := sumOption_caseImpact ((s.openRows timestamp).filter fun r => inPair p.1 p.2 r)
  rw [show sumOption _ = some x from hx, Option.getD_some, filter_openRows h] at hsum
  rw [hx, hsum]
  rfl

theorem forall_openBalanceRow_isSome : (∀ p ∈ s.unanchoredPairs none timestamp,
    (s.openBalanceRow timestamp p).balance.isSome) ↔ SomeAmount pairOf (s.openRows timestamp) := by
  rw [← forall_isSome_sumOption, unanchoredPairs_none]
  simp only [openBalanceRow, inPair_eq]

/-- The fees of a main pocket with a snapshot, taken off once more. -/
def twice (s : Ledger) (timestamp : Timestamp) (p : ℕ × Currency) : ℚ :=
  if s.isAnchored p && s.isMainPocket p then s.feesUpTo p.1 p.2 none timestamp else 0

theorem correctedBalance_eq (hs : s.EntitiesKnown) (hread : s.BalancesReadable timestamp) {p : ℕ × Currency}
    (hp : p ∈ s.snapshotPairs none) :
    s.correctedBalance timestamp p = some (s.balance p.1 p.2 timestamp {} true - s.corrected timestamp p) := by
  have hpair := hread p.1 (mem_entityIds_of_snapshotPairs hs hp) p.2
  rw [correctedBalance, hpair.getBalanceAtDate]
  exact feeCorrected_eq hpair.fees _

theorem correctedSum_eq (hs : s.EntitiesKnown) (hread : s.BalancesReadable timestamp) {p : ℕ × Currency}
    (hp : p ∈ s.unanchoredPairs none timestamp) : s.correctedSum timestamp p =
      (s.openBalanceRow timestamp p).balance.map fun x => x - s.corrected timestamp p := by
  have hpair := hread p.1 (mem_entityIds_of_unanchoredPairs hs hp) p.2
  rw [correctedSum]
  cases (s.openBalanceRow timestamp p).balance with
  | none => rfl
  | some x => exact feeCorrected_eq hpair.fees x

/-- The view of today shows the balances where every sum of a pair is there and the fees that it takes off twice make
up for those that it leaves. -/
theorem shows_balance (hs : s.EntitiesKnown) (now : Timestamp) :
    s.Shows (nowCutoff now) (s.balanceEntries now) ↔ s.BalancesReadable (nowCutoff now) ∧
      SomeAmount pairOf (s.openRows (nowCutoff now)) ∧
      ∀ cur, s.feesLeft (nowCutoff now) cur = s.feesTwice (nowCutoff now) cur := by
  rw [balanceEntries_eq]
  set cutoff := nowCutoff now
  rw [shows_iff (SomeAmount pairOf (s.openRows cutoff)) (fun cur => s.feesLeft cutoff cur - s.feesTwice cutoff cur)]
  · simp only [sub_eq_zero]
  · intro hread
    rw [← forall_openBalanceRow_isSome]
    constructor
    · rintro ⟨entries, hentries⟩ p hp
      have hsome := (pairEntries_eq_some.mp hentries).2.1 p hp
      rw [correctedSum_eq hs hread hp, Option.isSome_map] at hsome
      exact hsome
    · intro hsome
      refine ⟨_, pairEntries_eq_some.mpr ⟨fun p hp => ?_, fun p hp => ?_, rfl⟩⟩
      · rw [correctedBalance_eq hs hread hp]
        rfl
      · rw [correctedSum_eq hs hread hp, Option.isSome_map]
        exact hsome p hp
  · intro hread entries hentries cur
    have hsplit : (s.entityIds.map fun e => s.left cutoff (e, cur) - s.twice cutoff (e, cur)).sum +
        s.feesTwice cutoff cur = s.feesLeft cutoff cur := by
      rw [feesTwice, ← List.sum_map_add, feesLeft]
      exact congrArg List.sum (List.map_congr_left fun e _ => sub_add_cancel _ _)
    rw [← hsplit, add_sub_cancel_right]
    refine amountOf_pairEntries hs (nodup_eraseDups _) (mem_unanchoredPairs hs)
      (fun p => s.left cutoff p - s.twice cutoff p) ?_ ?_ hentries cur
    · intro p hp
      rw [correctedBalance_eq hs hread hp, left_of_mem hp, twice, isAnchored_iff.mpr hp, Bool.true_and, corrected,
        Option.getD_some]
      ring
    · intro p hp hsome
      rw [twice, Bool.eq_false_iff.mpr (mt isAnchored_iff.mp hp), Bool.false_and, if_neg Bool.false_ne_true, sub_zero]
      refine corrected_share hp fun hin => ?_
      have hbalance := hsome hin
      rw [correctedSum_eq hs hread hin, Option.isSome_map] at hbalance
      rw [correctedSum_eq hs hread hin, openBalanceRow_balance hp hbalance]
      rfl

/-! ## By entity -/

theorem beforeToday_eq (now : Timestamp) : s.openBeforeToday now =
    (s.openRows now).filter fun r => decide (Time.dayOf r.2.timestamp < Time.dayOf now) := by
  rw [openBeforeToday, beforeToday, openRows, List.filter_filter, List.filter_filter]
  refine List.filter_congr fun r _ => ?_
  by_cases hday : Time.dayOf r.2.timestamp < Time.dayOf now
  · have hle : r.2.timestamp ≤ now := by
      by_contra hlt
      exact absurd (Time.dayOf_mono (not_le.mp hlt).le) (not_le.mpr hday)
    simp [hday, hle]
  · simp [hday]

/-- The sum of a pair without a snapshot up to the end of yesterday. -/
def openSum (s : Ledger) (now : Timestamp) (p : ℕ × Currency) : Option ℚ :=
  sumOption (((s.openBeforeToday now).filter fun r => inPair p.1 p.2 r).map fun r => r.2.caseImpact)

/-- The pairs of `non_snapshot_rows` in `get_cash_by_entity_raw`. -/
def pairsBeforeToday (s : Ledger) (now : Timestamp) : List (ℕ × Currency) :=
  ((s.openBeforeToday now).map pairOf).eraseDups

theorem mem_pairsBeforeToday (hs : s.EntitiesKnown) {now : Timestamp} : ∀ p ∈ s.pairsBeforeToday now,
    p.1 ∈ s.entityIds ∧ p ∉ s.snapshotPairs none := by
  intro p hp
  obtain ⟨r, hr, rfl⟩ := List.mem_map.mp (List.mem_eraseDups.mp hp)
  rw [beforeToday_eq] at hr
  have hmem : pairOf r ∈ s.unanchoredPairs none now := by
    rw [unanchoredPairs_none]
    exact List.mem_eraseDups.mpr (List.mem_map_of_mem (List.mem_filter.mp hr).1)
  exact mem_unanchoredPairs hs _ hmem

theorem rawEntries_eq (hs : s.EntitiesKnown) (now : Timestamp) : s.rawEntries now =
    s.pairEntries (s.pairsBeforeToday now) (s.anchoredAmount now) (s.openSum now) := by
  set entry : CashByEntityRow → Option (Currency × ℚ) := fun r => r.cashBalance.map fun x => (r.currency, x)
  have hrows : (s.getCashByEntityRaw now).toOption =
      ((s.snapshotPairs none).mapM fun p => (s.anchoredCashRow now p).toOption).map fun results =>
        results ++ s.openCashRows now := by
    rw [← Runs.toOption_mapM, getCashByEntityRaw]
    cases (s.snapshotPairs none).mapM (s.anchoredCashRow now) <;> rfl
  have hanchored : ∀ p, (s.anchoredCashRow now p).toOption.bind entry =
      (s.anchoredAmount now p).map fun x => (p.2, x) := by
    intro p
    rw [anchoredCashRow, anchoredAmount]
    cases s.getBalanceAtDate p.1 p.2 now <;> rfl
  have hopen : (s.openCashRows now).mapM entry =
      (s.pairsBeforeToday now).mapM fun p => (s.openSum now p).map fun x => (p.2, x) := by
    refine Runs.mapM_filterMap fun p hp => ?_
    obtain ⟨r, hr, hid⟩ := List.mem_map.mp (mem_pairsBeforeToday hs p hp).1
    have hentity : s.entities.get? p.1 = some r.2 := by
      rw [Table.get?_eq_some_iff, ← hid]
      exact hr
    exact ⟨_, by rw [hentity]; rfl, rfl⟩
  have hview : s.rawEntries now =
      ((s.snapshotPairs none).mapM fun p => (s.anchoredCashRow now p).toOption).bind fun results =>
        (results ++ s.openCashRows now).mapM entry := by
    rw [rawEntries, hrows, Option.bind_map]
    rfl
  rw [hview, Runs.mapM_append_bind, hopen]
  simp only [hanchored]
  rfl

/-- The transactions of today on a pair. -/
def todaysCash (s : Ledger) (now : Timestamp) (p : ℕ × Currency) : ℚ :=
  (((s.openToday now).filter fun r => decide (pairOf r = p)).map fun r => r.2.sqlImpact).sum

theorem sum_before_add_today {p : ℕ × Currency} (h : p ∉ s.snapshotPairs none) (now : Timestamp) :
    (((s.openBeforeToday now).filter fun r => inPair p.1 p.2 r).map fun r => r.2.sqlImpact).sum +
      s.todaysCash now p = s.pairCash now p := by
  rw [pairCash, ← filter_openRows h, beforeToday_eq, todaysCash, openToday, List.filter_filter, List.filter_filter,
    sum_filter, sum_filter, sum_filter, ← List.sum_map_add]
  refine congrArg List.sum (List.map_congr_left fun r _ => ?_)
  rw [inPair_eq]
  by_cases hpair : pairOf r = p <;> by_cases hday : Time.dayOf r.2.timestamp < Time.dayOf now
  · simp [hpair, hday, not_le.mpr hday]
  · simp [hpair, hday, not_lt.mp hday]
  · simp [hpair]
  · simp [hpair]

/-- Rows of a currency, by entities. -/
theorem sum_pocket {rows : List (ℕ × Transaction)} (hrows : ∀ r ∈ rows, r.2.entityId ∈ s.entityIds)
    (f : ℕ × Transaction → ℚ) (cur : Currency) :
    (s.entityIds.map fun e => ((rows.filter fun r => decide (pairOf r = (e, cur))).map f).sum).sum =
      ((rows.filter fun r => decide (r.2.cashPocket = cur)).map f).sum := by
  rw [← sum_parts (fun r : ℕ × Transaction => r.2.entityId) nodup_entityIds
    fun r hr => hrows r (List.mem_filter.mp hr).1]
  refine congrArg List.sum (List.map_congr_left fun e _ => ?_)
  rw [List.filter_filter]
  refine congrArg (fun l => (List.map f l).sum) (List.filter_congr fun r _ => ?_)
  rw [← Bool.decide_and, decide_eq_decide, pairOf, Prod.ext_iff]

theorem entity_of_mem_openRows (hs : s.EntitiesKnown) : ∀ r ∈ s.openRows timestamp, r.2.entityId ∈ s.entityIds :=
  fun r hr => hs.transactions r (List.mem_filter.mp hr).1

theorem sum_todaysCash (hs : s.EntitiesKnown) (now : Timestamp) (cur : Currency) :
    (s.entityIds.map fun e => s.todaysCash now (e, cur)).sum = s.cashToday now cur :=
  sum_pocket (fun r hr => entity_of_mem_openRows hs r (List.mem_filter.mp hr).1) _ cur

theorem todaysCash_of_mem {p : ℕ × Currency} (h : p ∈ s.snapshotPairs none) (now : Timestamp) :
    s.todaysCash now p = 0 := by
  refine sum_key_eq_zero (fun hmem => ?_) _
  have hopen : p ∈ (s.openRows now).map pairOf := List.map_subset _ (List.filter_subset_self _) hmem
  exact not_mem_openRows h hopen

/-- The fees of a pair without a snapshot. -/
def openFee (s : Ledger) (timestamp : Timestamp) (p : ℕ × Currency) : ℚ :=
  if s.isAnchored p then 0 else s.feesUpTo p.1 p.2 none timestamp

/-- The share of a pair is the sum of its rows, of which there may be none. -/
theorem openSum_share (now : Timestamp) (p : ℕ × Currency) :
    (if p ∈ s.pairsBeforeToday now then (s.openSum now p).getD 0 else 0) =
      (((s.openBeforeToday now).filter fun r => inPair p.1 p.2 r).map fun r => r.2.sqlImpact).sum := by
  split_ifs with hp
  · exact sumOption_caseImpact _
  · rw [pairsBeforeToday, List.mem_eraseDups] at hp
    simp only [inPair_eq]
    exact (sum_key_eq_zero hp _).symm

theorem forall_openSum_isSome (now : Timestamp) :
    (∀ p ∈ s.pairsBeforeToday now, (s.openSum now p).isSome) ↔ SomeAmount pairOf (s.openBeforeToday now) := by
  rw [← forall_isSome_sumOption, pairsBeforeToday]
  simp only [openSum, inPair_eq]

/-- The view by entity shows the balances where the pairs without a snapshot have as much cash of today as fees. -/
theorem shows_raw (hs : s.EntitiesKnown) (now : Timestamp) : s.Shows now (s.rawEntries now) ↔
    s.BalancesReadable now ∧ SomeAmount pairOf (s.openBeforeToday now) ∧
      ∀ cur, s.openFees now cur = s.cashToday now cur := by
  rw [rawEntries_eq hs]
  rw [shows_iff (SomeAmount pairOf (s.openBeforeToday now)) (fun cur => s.openFees now cur - s.cashToday now cur)]
  · simp only [sub_eq_zero]
  · intro hread
    rw [← forall_openSum_isSome]
    constructor
    · rintro ⟨entries, hentries⟩
      exact (pairEntries_eq_some.mp hentries).2.1
    · intro hsome
      refine ⟨_, pairEntries_eq_some.mpr ⟨fun p hp => ?_, hsome, rfl⟩⟩
      rw [anchoredAmount_eq hs hread hp]
      rfl
  · intro hread entries hentries cur
    have hsplit : (s.entityIds.map fun e => s.openFee now (e, cur) - s.todaysCash now (e, cur)).sum +
        s.cashToday now cur = s.openFees now cur := by
      rw [← sum_todaysCash hs, ← List.sum_map_add, openFees]
      exact congrArg List.sum (List.map_congr_left fun e _ => sub_add_cancel _ _)
    have hnodup : (s.pairsBeforeToday now).Nodup := nodup_eraseDups _
    rw [← hsplit, add_sub_cancel_right]
    refine amountOf_pairEntries hs hnodup (mem_pairsBeforeToday hs)
      (fun p => s.openFee now p - s.todaysCash now p) ?_ ?_ hentries cur
    · intro p hp
      rw [anchoredAmount_eq hs hread hp, openFee, if_pos (isAnchored_iff.mpr hp), todaysCash_of_mem hp]
      simp
    · intro p hp hsome
      rw [openFee, if_neg (mt isAnchored_iff.mp hp), balance_of_not_mem hp, ← sum_before_add_today hp, openSum_share]
      ring

/-! ## The history -/

/-- The pairs with a snapshot and the currencies without one can be read. -/
structure PointReadable (s : Ledger) (ts : Timestamp) : Prop where
  anchored : ∀ p ∈ s.snapshotPairs none, s.Readable p.1 p.2 ts {}
  currencies : SomeAmount (fun r => r.2.cashPocket) (s.openRows ts)

theorem isSome_anchoredAmount {p : ℕ × Currency} :
    (s.anchoredAmount timestamp p).isSome ↔ s.Readable p.1 p.2 timestamp {} := by
  constructor
  · intro h
    obtain ⟨x, hx⟩ := Option.isSome_iff_exists.mp h
    exact readable_of_getBalanceAtDate hx
  · intro h
    rw [anchoredAmount, h.getBalanceAtDate]
    rfl

/-- The sum of a currency over the pairs without a snapshot. -/
def openCurrencySum (s : Ledger) (ts : Timestamp) (cur : Currency) : Option ℚ :=
  sumOption (((s.openRows ts).filter fun r => decide (r.2.cashPocket = cur)).map fun r => r.2.caseImpact)

def openCurrencies (s : Ledger) (ts : Timestamp) : List Currency :=
  ((s.openRows ts).map fun r => r.2.cashPocket).eraseDups

theorem currencyTotals_eq_some {totals : Tally Currency} : s.currencyTotals timestamp = some totals ↔
    s.PointReadable timestamp ∧ totals = collect
      ((s.snapshotPairs none).map (fun p => (p.2, (s.anchoredAmount timestamp p).getD 0)) ++
        (s.openCurrencies timestamp).map fun cur => (cur, (s.openCurrencySum timestamp cur).getD 0)) := by
  have hpoint : s.PointReadable timestamp ↔ (∀ p ∈ s.snapshotPairs none, (s.anchoredAmount timestamp p).isSome) ∧
      ∀ cur ∈ s.openCurrencies timestamp, (s.openCurrencySum timestamp cur).isSome := by
    simp only [isSome_anchoredAmount]
    constructor
    · rintro ⟨hanchored, hcurrencies⟩
      exact ⟨hanchored, forall_isSome_sumOption.mpr hcurrencies⟩
    · rintro ⟨hanchored, hcurrencies⟩
      exact ⟨hanchored, forall_isSome_sumOption.mp hcurrencies⟩
  rw [hpoint]
  constructor
  · intro h
    obtain ⟨xs, hxs, h⟩ := Option.bind_eq_some_iff.mp h
    obtain ⟨ys, hys, h⟩ := Option.bind_eq_some_iff.mp h
    cases h
    obtain ⟨hsome, rfl⟩ := mapM_amounts.mp hxs
    obtain ⟨hsome', rfl⟩ := mapM_amounts.mp hys
    exact ⟨⟨hsome, hsome'⟩, rfl⟩
  · rintro ⟨⟨hsome, hsome'⟩, rfl⟩
    refine Option.bind_eq_some_iff.mpr ⟨_, mapM_amounts.mpr ⟨hsome, rfl⟩, ?_⟩
    exact Option.bind_eq_some_iff.mpr ⟨_, mapM_amounts.mpr ⟨hsome', rfl⟩, rfl⟩

/-- A point is off by the fees of the pairs without a snapshot. -/
theorem amountOf_currencyTotals (hs : s.EntitiesKnown) (hread : s.BalancesReadable timestamp) {totals : Tally Currency}
    (h : s.currencyTotals timestamp = some totals) (cur : Currency) :
    amountOf cur totals = s.balances timestamp cur + s.openFees timestamp cur := by
  obtain ⟨-, rfl⟩ := currencyTotals_eq_some.mp h
  have hpairs : (s.snapshotPairs none).Nodup := nodup_eraseDups _
  have hcurrencies : (s.openCurrencies timestamp).Nodup := nodup_eraseDups _
  have hopen : amountOf cur
      ((s.openCurrencies timestamp).map fun cur => (cur, (s.openCurrencySum timestamp cur).getD 0)) =
      (((s.openRows timestamp).filter fun r => decide (r.2.cashPocket = cur)).map fun r => r.2.sqlImpact).sum := by
    rw [amountOf_keys hcurrencies]
    split_ifs with hcur
    · exact sumOption_caseImpact _
    · rw [openCurrencies, List.mem_eraseDups] at hcur
      exact (sum_key_eq_zero hcur _).symm
  rw [amountOf_collect, amountOf_append, hopen,
    amountOf_pairs nodup_entityIds hpairs (fun p hp => mem_entityIds_of_snapshotPairs hs hp),
    ← sum_pocket (entity_of_mem_openRows hs), ← List.sum_map_add, balances, openFees, ← List.sum_map_add]
  refine congrArg List.sum (List.map_congr_left fun e _ => ?_)
  by_cases hp : (e, cur) ∈ s.snapshotPairs none
  · rw [if_pos hp, if_pos (isAnchored_iff.mpr hp), sum_key_eq_zero (not_mem_openRows hp), anchoredAmount_eq hs hread hp]
    rfl
  · rw [if_neg hp, if_neg (mt isAnchored_iff.mp hp), sum_openRows hp, balance_of_not_mem hp]
    ring

/-- Dates of one key are in one period. -/
theorem periodNumber_of_periodKey {interval : Interval} (hweek : interval ≠ .week) {d d' : Date}
    (h : periodKey interval.text d = periodKey interval.text d') :
    periodNumber interval d = periodNumber interval d' := by
  have hmonth : periodKey interval.text d = .month d.year d.month →
      periodKey interval.text d' = .month d'.year d'.month → d.year = d'.year ∧ d.month = d'.month := by
    intro hd hd'
    rw [hd, hd', PeriodKey.month.injEq] at h
    exact h
  cases interval with
  | day => rw [PeriodKey.day.inj h]
  | week => exact absurd rfl hweek
  | month =>
    obtain ⟨hy, hm⟩ := hmonth rfl rfl
    simp only [periodNumber, Date.index, hy, hm]
  | quarter =>
    obtain ⟨hy, hm⟩ := hmonth rfl rfl
    simp only [periodNumber, Date.index, hy, hm]
  | year => exact (hmonth rfl rfl).1

/-- The key of the last date is that of no other. -/
theorem periodKey_ne_last {c : CashHistoryCall} {fuel : ℕ} {before : List Date} {last : Date}
    (hdates : cashDates c.interval fuel c.start c.end_ = .ok (before ++ [last])) {d : Date} (hd : d ∈ before) :
    periodKey c.interval d ≠ periodKey c.interval last := by
  have hlists : CashLists c.interval c.end_ c.start (before ++ [last]) := ⟨fuel, hdates⟩
  have hle : c.start ≤ c.end_ := by
    by_contra hlt
    have hstop : notAfter c.end_ c.start = false := decide_eq_false hlt
    have hnil := (WhileLoop.returns_iff_of_not hstop).mp hlists
    simp at hnil
  obtain ⟨interval, hweek, htext⟩ : ∃ interval : Interval, interval ≠ .week ∧ c.interval = interval.text := by
    by_contra hother
    push Not at hother
    refine not_cashLists_other (fun hmem => ?_) hle _ hlists
    simp only [List.mem_cons, List.not_mem_nil, or_false] at hmem
    rcases hmem with h | h | h | h
    · exact hother .day (by decide) h
    · exact hother .month (by decide) h
    · exact hother .quarter (by decide) h
    · exact hother .year (by decide) h
  rw [htext] at hlists ⊢
  have hgrid := dateGrid_of_cashLists hweek hle hlists
  have hperiods : (before ++ [last]).Pairwise fun d d' => periodNumber interval d < periodNumber interval d' := by
    have hsteps := hgrid.consecutive.imp (S := fun d d' => periodNumber interval d < periodNumber interval d')
      fun d d' h => by omega
    rw [List.isChain_iff_pairwise] at hsteps
    exact hsteps
  intro hkey
  have hlt := (List.pairwise_append.mp hperiods).2.2 d hd last (List.mem_singleton_self last)
  rw [periodNumber_of_periodKey hweek hkey] at hlt
  exact lt_irrefl _ hlt

theorem pointEntries_pointRows (key : PeriodKey) (totals : Tally Currency) :
    pointEntries key (pointRows key totals) = totals := by
  have hall : (pointRows key totals).filter (fun r => decide (r.date = key)) = pointRows key totals := by
    rw [List.filter_eq_self]
    intro r hr
    obtain ⟨e, -, rfl⟩ := List.mem_map.mp hr
    exact decide_eq_true rfl
  rw [pointEntries, hall, pointRows, List.map_map]
  exact List.map_id _

theorem pointEntries_of_ne {key key' : PeriodKey} (h : key' ≠ key) (totals : Tally Currency) :
    pointEntries key (pointRows key' totals) = [] := by
  rw [pointEntries, List.map_eq_nil_iff, List.filter_eq_nil_iff]
  intro r hr hkey
  obtain ⟨e, -, rfl⟩ := List.mem_map.mp hr
  exact h (of_decide_eq_true hkey)

theorem pointEntries_append (key : PeriodKey) (rows rows' : List CashHistoryRow) :
    pointEntries key (rows ++ rows') = pointEntries key rows ++ pointEntries key rows' := by
  rw [pointEntries, List.filter_append, List.map_append]
  rfl

/-- Points of other dates have nothing under a key. -/
theorem pointEntries_flatten {interval : String} {key : PeriodKey} {before : List Date}
    (hkey : ∀ d ∈ before, periodKey interval d ≠ key) {points : List (List CashHistoryRow)}
    (h : before.mapM (s.cashHistoryPoint interval) = some points) : pointEntries key points.flatten = [] := by
  induction before generalizing points with
  | nil =>
    cases h
    rfl
  | cons d before ih =>
    rw [List.mapM_cons] at h
    obtain ⟨rows, hrows, h⟩ := Option.bind_eq_some_iff.mp h
    obtain ⟨rest, hrest, h⟩ := Option.bind_eq_some_iff.mp h
    cases h
    obtain ⟨totals, -, rfl⟩ := Option.map_eq_some_iff.mp hrows
    rw [List.flatten_cons, pointEntries_append, pointEntries_of_ne (hkey d List.mem_cons_self),
      ih (fun d' hd' => hkey d' (List.mem_cons_of_mem _ hd')) hrest, List.append_nil]

theorem exists_currencyTotals : (∃ totals, s.currencyTotals timestamp = some totals) ↔ s.PointReadable timestamp :=
  ⟨fun ⟨_, h⟩ => (currencyTotals_eq_some.mp h).1, fun h => ⟨_, currencyTotals_eq_some.mpr ⟨h, rfl⟩⟩⟩

variable {fuel : ℕ} {c : CashHistoryCall} {dates : List Date} {last : Date}

/-- The last point is what the totals of the last date are, where the call gets that far. -/
theorem historyEntries_eq_some (hdates : cashDates c.interval fuel c.start c.end_ = .ok dates)
    (hlast : dates.getLast? = some last) {entries : List (Currency × ℚ)} :
    s.historyEntries fuel c last = some entries ↔
      (∀ dt ∈ dates, s.PointReadable (historyTs dt)) ∧ s.currencyTotals (historyTs last) = some entries := by
  obtain ⟨before, rfl⟩ := List.getLast?_eq_some_iff.mp hlast
  have hkeys : ∀ d ∈ before, periodKey c.interval d ≠ periodKey c.interval last :=
    fun d hd => periodKey_ne_last hdates hd
  have hcall : s.historyEntries fuel c last = ((before ++ [last]).mapM (s.cashHistoryPoint c.interval)).map
      fun points => pointEntries (periodKey c.interval last) points.flatten := by
    rw [historyEntries, getCashByCurrencyHistory, hdates]
    cases hpoints : (before ++ [last]).mapM (s.cashHistoryPoint c.interval) <;>
      simp [bind, Except.bind, Except.mapError, Except.toOption, hpoints]
  have hbefore : (∃ points, before.mapM (s.cashHistoryPoint c.interval) = some points) ↔
      ∀ dt ∈ before, s.PointReadable (historyTs dt) := by
    rw [← Option.isSome_iff_exists, Runs.isSome_mapM]
    refine forall₂_congr fun dt _ => ?_
    rw [cashHistoryPoint, Option.isSome_map, Option.isSome_iff_exists, exists_currencyTotals]
  have hsplit : s.historyEntries fuel c last = (before.mapM (s.cashHistoryPoint c.interval)).bind fun _ =>
      s.currencyTotals (historyTs last) := by
    rw [hcall, List.mapM_append]
    cases hpoints : before.mapM (s.cashHistoryPoint c.interval) with
    | none => rfl
    | some points =>
      have hnone := pointEntries_flatten hkeys hpoints
      cases htotals : s.currencyTotals (historyTs last) with
      | none => simp [cashHistoryPoint, htotals]
      | some totals => simp [cashHistoryPoint, htotals, pointEntries_append, hnone, pointEntries_pointRows]
  rw [hsplit, Option.bind_eq_some_iff, List.forall_mem_append, ← hbefore, List.forall_mem_singleton]
  constructor
  · rintro ⟨points, hpoints, htotals⟩
    exact ⟨⟨⟨points, hpoints⟩, exists_currencyTotals.mp ⟨entries, htotals⟩⟩, htotals⟩
  · rintro ⟨⟨⟨points, hpoints⟩, -⟩, htotals⟩
    exact ⟨points, hpoints, htotals⟩

/-- The last point shows the balances where the fees of the pairs without a snapshot cancel. -/
theorem shows_history (hs : s.EntitiesKnown) (hdates : cashDates c.interval fuel c.start c.end_ = .ok dates)
    (hlast : dates.getLast? = some last) : s.Shows (historyTs last) (s.historyEntries fuel c last) ↔
      s.BalancesReadable (historyTs last) ∧ (∀ dt ∈ dates, s.PointReadable (historyTs dt)) ∧
      ∀ cur, s.openFees (historyTs last) cur = 0 := by
  refine shows_iff _ _ (fun hread => ?_) fun hread entries hentries cur =>
    amountOf_currencyTotals hs hread ((historyEntries_eq_some hdates hlast).mp hentries).2 cur
  simp only [historyEntries_eq_some hdates hlast, exists_and_left, exists_currencyTotals]
  exact and_iff_left_of_imp fun h => h last (List.mem_of_getLast? hlast)

/-! ## All views -/

/-- What the views need to agree. -/
structure ViewsComplete (s : Ledger) (now timestamp : Timestamp) (dates : List Date) (last : Date) : Prop where
  /-- No amount that a balance needs is missing. -/
  readable : ∀ ts ∈ [nowCutoff now, timestamp, now, historyTs last], s.BalancesReadable ts
  /-- Nor one that a view needs. -/
  balanceAmounts : SomeAmount pairOf (s.openRows (nowCutoff now))
  rawAmounts : SomeAmount pairOf (s.openBeforeToday now)
  points : ∀ dt ∈ dates, s.PointReadable (historyTs dt)
  /-- The fees taken off twice make up for those that are left. -/
  balance : ∀ cur, s.feesLeft (nowCutoff now) cur = s.feesTwice (nowCutoff now) cur
  total : ∀ cur, s.feesLeft timestamp cur = 0
  raw : ∀ cur, s.openFees now cur = s.cashToday now cur
  history : ∀ cur, s.openFees (historyTs last) cur = 0

/-- The views show the balances of the entities exactly where their fees and the cash of today cancel. -/
theorem cashViewsAgree_iff (hs : s.EntitiesKnown) {now : Timestamp}
    (hdates : cashDates c.interval fuel c.start c.end_ = .ok dates) (hlast : dates.getLast? = some last) :
    s.CashViewsAgree now timestamp fuel c last ↔ s.ViewsComplete now timestamp dates last := by
  have hbalance := shows_balance hs now
  have htotal := shows_total hs timestamp
  have hentities := shows_entities hs timestamp
  have hraw := shows_raw hs now
  have hhistory := shows_history hs hdates hlast
  constructor
  · intro h
    exact
      { readable := by
          simp only [List.forall_mem_cons, List.not_mem_nil, false_implies, implies_true, and_true]
          exact ⟨(hbalance.mp h.balance).1, (htotal.mp h.total).1, (hraw.mp h.raw).1, (hhistory.mp h.history).1⟩
        balanceAmounts := (hbalance.mp h.balance).2.1
        rawAmounts := (hraw.mp h.raw).2.1
        points := (hhistory.mp h.history).2.1
        balance := (hbalance.mp h.balance).2.2
        total := (htotal.mp h.total).2
        raw := (hraw.mp h.raw).2.2
        history := (hhistory.mp h.history).2.2 }
  · intro h
    have hread := h.readable
    simp only [List.forall_mem_cons, List.not_mem_nil, false_implies, implies_true, and_true] at hread
    obtain ⟨hcutoff, htimestamp, hnow, hlast⟩ := hread
    exact
      { balance := hbalance.mpr ⟨hcutoff, h.balanceAmounts, h.balance⟩
        total := htotal.mpr ⟨htimestamp, h.total⟩
        entities := hentities.mpr ⟨htimestamp, h.total⟩
        raw := hraw.mpr ⟨hnow, h.rawAmounts, h.raw⟩
        history := hhistory.mpr ⟨hlast, h.points, h.history⟩ }

end Ledger

namespace Sample

open Ledger

/-- An income with a fee at the broker, which settles fees in dollars, and a snapshot after it. -/
def snapshotWithFee : Ledger := after [
  .createTransaction
    { timestamp := at_ 10 9, type := .income, entityId := 1, currency := usd, totalValue := some 100 },
  .createFee { transactionId := 0, nature := .fixed, currency := usd, fixedAmount := 5 },
  .createSnapshot { entityId := 1, currency := usd, amount := 95, timestamp := at_ 15 9 }]

/-- The twenty-first of January 1970, the day of number 20. -/
def dayTwenty : CashHistoryCall := ⟨date 1970 1 21 (by decide), date 1970 1 21 (by decide), "day"⟩

theorem snapshotWithFee_known : snapshotWithFee.EntitiesKnown := ⟨by decide +kernel, by decide +kernel⟩

/-- The snapshot says 95, from which the view of today takes the fee of 5 again. -/
theorem fee_taken_twice : ¬ ∀ (s : Ledger) (t : Timestamp) (fuel : ℕ) (c : CashHistoryCall) (last : Date),
    s.EntitiesKnown → (∀ r ∈ s.transactions.rows, r.2.timestamp ≤ t) → (∀ r ∈ s.snapshots.rows, r.2.timestamp ≤ t) →
    nowCutoff t = t → historyTs last = t →
    (cashDates c.interval fuel c.start c.end_).toOption.bind List.getLast? = some last →
    s.CashViewsAgree t t fuel c last := by
  intro h
  obtain ⟨⟨entries, hentries, hshows⟩, -, -, -, -⟩ := h snapshotWithFee (Time.endOfDay 20) 2 dayTwenty dayTwenty.start
    snapshotWithFee_known (by decide +kernel) (by decide +kernel) (by decide) (by decide) (by decide)
  have hview : snapshotWithFee.balanceEntries (Time.endOfDay 20) = some [(usd, 90)] := by decide +kernel
  have htotal : snapshotWithFee.cashTotal (nowCutoff (Time.endOfDay 20)) usd = some 95 := by decide +kernel
  rw [hview] at hentries
  cases hentries
  have hsame := htotal.symm.trans (hshows usd)
  revert hsame
  decide +kernel

theorem snapshotWithFee_iff :
    snapshotWithFee.CashViewsAgree (at_ 20 9) (at_ 15 10) 2 dayTwenty dayTwenty.start ↔
      snapshotWithFee.ViewsComplete (at_ 20 9) (at_ 15 10) [dayTwenty.start] dayTwenty.start :=
  cashViewsAgree_iff snapshotWithFee_known (by decide) rfl

end Sample

end FinHub
