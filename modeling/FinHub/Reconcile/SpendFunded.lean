import FinHub.Balance.Readable
import FinHub.Reconcile.FeePass

/-!
# FinHub.Reconcile.SpendFunded

What recording a spend does to the balances of its pocket, up to the instant of the spend.

Three writes move them: the injection of the day, the row itself, and the adjustment of the next
snapshot, which may lie before the spend.

* `CashMoved`: the writes by what they add to the balances of one pair.
* `getBalanceAtDate_created`: a balance after the recording, by a balance before it.
* `spendFunded_iff`: the pocket is not negative with the spend, and no earlier balance goes down,
  exactly where `SpendFits` says so.
-/

namespace FinHub

open Tabular

namespace Ledger

variable {s s' s'' : Ledger} {entity_id : ℕ} {currency : Currency} {ex : Exclude} {limit : Timestamp}

/-! ## Writes by what they move -/

/-- The cash of a pair over a set of instants moves by `f`, and up to `limit` its balances can be read as
before. -/
structure CashMoved (s s' : Ledger) (entity_id : ℕ) (currency : Currency) (ex : Exclude)
    (limit : Timestamp) (f : (Timestamp → Bool) → ℚ) : Prop where
  charges : SameCharges s s'
  snapshots : s'.snapshots = s.snapshots
  cash : ∀ p, s'.cashOver entity_id currency ex p = s.cashOver entity_id currency ex p + f p
  loop : ∀ t, t ≤ limit →
    (s'.LoopReadable entity_id currency t ex ↔ s.LoopReadable entity_id currency t ex)

namespace CashMoved

variable {f g : (Timestamp → Bool) → ℚ}

theorem refl (s : Ledger) : CashMoved s s entity_id currency ex limit fun _ => 0 :=
  ⟨.refl s, rfl, fun _ => (add_zero _).symm, fun _ _ => Iff.rfl⟩

theorem trans (h : CashMoved s s' entity_id currency ex limit f)
    (h' : CashMoved s' s'' entity_id currency ex limit g) :
    CashMoved s s'' entity_id currency ex limit fun p => f p + g p where
  charges := h.charges.trans h'.charges
  snapshots := h'.snapshots.trans h.snapshots
  cash p := by rw [h'.cash, h.cash, add_assoc]
  loop t ht := (h'.loop t ht).trans (h.loop t ht)

theorem pairs (h : CashMoved s s' entity_id currency ex limit f) :
    s'.pairSnapshots entity_id currency = s.pairSnapshots entity_id currency :=
  pairSnapshots_congr h.snapshots _ _

theorem balance (h : CashMoved s s' entity_id currency ex limit f) (t : Timestamp) :
    s'.balance entity_id currency t ex true =
      s.balance entity_id currency t ex true + f (s.window entity_id currency true t) := by
  rw [balance_sub h.charges h.pairs, h.cash]
  ring

theorem getBalanceAtDate (h : CashMoved s s' entity_id currency ex limit f) {t : Timestamp}
    (ht : t ≤ limit) : s'.getBalanceAtDate entity_id currency t ex =
      (s.getBalanceAtDate entity_id currency t ex).map
        (· + f (s.window entity_id currency true t)) := by
  have hread : s'.Readable entity_id currency t ex ↔ s.Readable entity_id currency t ex :=
    ⟨fun hr => ⟨(h.charges.feesReadable _ _ _ _).mp hr.fees, (h.loop t ht).mp hr.loop⟩,
      fun hr => ⟨(h.charges.feesReadable _ _ _ _).mpr hr.fees, (h.loop t ht).mpr hr.loop⟩⟩
  refine Option.ext fun x => ?_
  rw [getBalanceAtDate_eq_some_iff, Option.map_eq_some_iff, hread, h.balance]
  constructor
  · intro ⟨hr, hx⟩
    exact ⟨_, hr.getBalanceAtDate true, hx⟩
  · rintro ⟨y, hy, hx⟩
    obtain ⟨hr, rfl⟩ := getBalanceAtDate_eq_some_iff.mp hy
    exact ⟨hr, hx⟩

/-- A new row with an amount, or one that no balance up to the limit reads. -/
theorem insert {row : Transaction} (h : row.loopImpact.isSome ∨ limit ≤ row.timestamp) :
    CashMoved s (s.insertTransaction row) entity_id currency ex limit
      fun p => share entity_id currency ex p (s.transactions.next, row) where
  charges := .insert s row
  snapshots := rfl
  cash _ := cashOver_insert row
  loop t ht := by
    constructor
    · intro hl p hp x hx
      exact hl p hp x (Table.mem_insert.mpr (.inl hx))
    · intro hl p hp x hx hpair hkeep h1 h2
      rcases Table.mem_insert.mp hx with hx | rfl
      · exact hl p hp x hx hpair hkeep h1 h2
      · rcases h with h | h
        · exact h
        · exact absurd h2 (not_lt.mpr (le_trans ht h))

/-- A new amount on an adjustment without fees. -/
theorem setAmount {r : ℕ × Transaction} (hm : r ∈ s.transactions.rows) (hch : ¬ s.Charged r.1)
    (htype : r.2.type = .balanceAdjustment) (amount : ℚ) (notes : String) :
    CashMoved s (s.modifyTransaction r.1 (withAmount amount notes)) entity_id currency ex limit
      fun p => share entity_id currency ex p (r.1, withAmount amount notes r.2) -
        share entity_id currency ex p r where
  charges := .modify fun h => absurd h hch
  snapshots := rfl
  cash _ := cashOver_modify (withAmount amount notes) hm
  loop t _ := by
    -- Neither the old row nor the new one is without an amount.
    have hold : r.2.loopImpact.isSome := by
      rw [Transaction.loopImpact_of_isAdjustment htype]
      rfl
    constructor
    · intro hl p hp x hx hpair hkeep h1 h2
      by_cases hk : x.1 = r.1
      · obtain rfl : x = r := Prod.ext hk (s.transactions.unique hx (hk ▸ hm))
        exact hold
      · exact hl p hp x (Table.mem_modify.mpr (.inl ⟨hk, hx⟩)) hpair hkeep h1 h2
    · intro hl p hp x hx hpair hkeep h1 h2
      obtain ⟨j, a⟩ := x
      rcases Table.mem_modify.mp hx with ⟨-, hx⟩ | ⟨rfl, b, hb, rfl⟩
      · exact hl p hp _ hx hpair hkeep h1 h2
      · exact loopImpact_withAmount amount notes b

theorem attach (s : Ledger) (body : TransactionCreate) (tx_id : ℕ) :
    CashMoved s (s.attach body tx_id) entity_id currency ex limit fun _ => 0 := by
  have hlink : ∀ a, CashMoved s (s.linkAdjustmentToTransaction a tx_id) entity_id currency ex limit
      fun _ => 0 := by
    intro a
    have ht : (s.linkAdjustmentToTransaction a tx_id).transactions = s.transactions :=
      linkAdjustmentToTransaction_transactions s a tx_id
    refine ⟨.link s a tx_id, (link_frame s a tx_id).2.2.1, fun p => ?_, fun t _ => ?_⟩
    · rw [cashOver_congr ht, add_zero]
    · rw [LoopReadable, LoopReadable, ht, getPreviousSnapshot_congr
        (pairSnapshots_congr (link_frame s a tx_id).2.2.1 _ _)]
  unfold Ledger.attach
  split_ifs
  · rcases linkInjection_cases s body.entityId body.cashPocket body.timestamp tx_id with
      ⟨r, -, he⟩ | ⟨-, he⟩
    · rw [he]
      exact hlink r.1
    · rw [he]
      exact .refl s
  · exact .refl s

end CashMoved

/-! ## The writes of a recording -/

variable {p : Timestamp → Bool} {timestamp : Timestamp}

theorem share_adjustment {r : ℕ × Transaction} (he : r.2.entityId = entity_id)
    (hc : r.2.currency = currency) (hpay : r.2.paymentCurrency = none)
    (htype : r.2.type = .balanceAdjustment) (hk : ex.keeps r = true) :
    share entity_id currency ex p r = if p r.2.timestamp then r.2.totalValue.getD 0 else 0 := by
  have hpair : inPair entity_id currency r = true :=
    inPair_iff.mpr ⟨he, by simp [Transaction.cashPocket, hpay, hc]⟩
  rw [share_of_keeps hpair hk, Transaction.sqlImpact_of_isAdjustment htype]

theorem share_adjustmentRow {k : ℕ} {amount : ℚ} {snapshot_id : Option ℕ} {notes : String}
    (hk : ex.keeps (k, adjustmentRow entity_id currency amount timestamp snapshot_id notes) = true) :
    share entity_id currency ex p
      (k, adjustmentRow entity_id currency amount timestamp snapshot_id notes) =
        if p timestamp then amount else 0 :=
  share_adjustment (r := (k, adjustmentRow entity_id currency amount timestamp snapshot_id notes))
    rfl rfl rfl rfl hk

/-- The move of a new amount. -/
theorem share_withAmount_sub {r : ℕ × Transaction} {amount : ℚ} {notes : String}
    (he : r.2.entityId = entity_id) (hc : r.2.currency = currency) (hpay : r.2.paymentCurrency = none)
    (htype : r.2.type = .balanceAdjustment) (hk : ex.keeps r = true)
    (hk' : ex.keeps (r.1, withAmount amount notes r.2) = true) :
    share entity_id currency ex p (r.1, withAmount amount notes r.2) -
        share entity_id currency ex p r =
      if p r.2.timestamp then amount - r.2.totalValue.getD 0 else 0 := by
  rw [share_adjustment he hc hpay htype hk,
    share_adjustment (r := (r.1, withAmount amount notes r.2)) he hc hpay htype hk']
  change (if p r.2.timestamp then amount else 0) - _ = _
  cases p r.2.timestamp with
  | true => rfl
  | false => exact sub_zero 0

/-- A row that carries no fee, no tax and no payment currency. -/
def PlainRow (s : Ledger) (r : ℕ × Transaction) : Prop :=
  r.2.paymentCurrency = none ∧ ¬ s.Charged r.1

/-- The injection of a day, if there is one, is plain. -/
def PlainInjection (s : Ledger) (entity_id : ℕ) (currency : Currency) (timestamp : Timestamp) : Prop :=
  ∀ r, s.getInjectedAdjustmentAt entity_id currency (Time.injectionTs timestamp) = some r → s.PlainRow r

/-- The adjustment of the next snapshot, if there is one, is plain. -/
def PlainNext (s : Ledger) (entity_id : ℕ) (currency : Currency) (timestamp : Timestamp) : Prop :=
  ∀ n r, s.getNextSnapshot entity_id currency timestamp = some n →
    s.getAdjustmentTransaction entity_id currency n.1 = some r → s.PlainRow r

/-- An injection adds to the balances that count its instant. -/
theorem CashMoved.inject (hplain : s.PlainInjection entity_id currency timestamp)
    (hex : ∀ r : ℕ × Transaction, isInjection r.2 = true → ex.keeps r = true) (needed : ℚ) :
    CashMoved s (s.inject entity_id currency timestamp needed) entity_id currency ex limit
      fun p => if p (Time.injectionTs timestamp) then needed else 0 := by
  rcases inject_cases s entity_id currency timestamp needed with ⟨r, hr, he⟩ | ⟨-, he⟩
  · obtain ⟨hm, hent, hcur, hinj, hts⟩ := getInjectedAdjustmentAt_eq_some hr
    have htype := (isInjection_iff.mp hinj).1
    obtain ⟨hpay, hch⟩ := hplain r hr
    have hinj' : isInjection (withAmount (r.2.totalValue.getD 0 + needed) injectionNotes r.2) = true :=
      isInjection_iff.mpr ⟨htype, (isInjection_iff.mp hinj).2.1, likeInferredCash_injectionNotes⟩
    rw [he]
    convert CashMoved.setAmount hm hch htype (r.2.totalValue.getD 0 + needed) injectionNotes using 1
    funext p
    rw [share_withAmount_sub hent hcur hpay htype (hex r hinj) (hex _ hinj'), hts, add_sub_cancel_left]
  · have hinj : isInjection (adjustmentRow entity_id currency needed (Time.injectionTs timestamp) none
        injectionNotes) = true := isInjection_iff.mpr ⟨rfl, rfl, likeInferredCash_injectionNotes⟩
    rw [he]
    convert CashMoved.insert (s := s) (.inl (loopImpact_adjustmentRow entity_id currency needed
      (Time.injectionTs timestamp) none injectionNotes)) using 1
    funext p
    rw [share_adjustmentRow (hex (s.transactions.next, _) hinj)]

/-- Where the adjustment of a snapshot stands, or would be opened, and what it holds. -/
def adjustmentPlace (s : Ledger) (entity_id : ℕ) (currency : Currency) (n : ℕ × BalanceSnapshot) :
    Timestamp × ℚ :=
  match s.getAdjustmentTransaction entity_id currency n.1 with
  | some r => (r.2.timestamp, r.2.totalValue.getD 0)
  | none => (s.timezone.adjustmentTimestamp n.2.timestamp, 0)

/-- What the adjustment of a snapshot lacks. -/
def adjustmentGap (s : Ledger) (entity_id : ℕ) (currency : Currency) (n : ℕ × BalanceSnapshot) : ℚ :=
  n.2.amount - s.balance entity_id currency n.2.timestamp { adjustmentSnapshotId := some n.1 } true -
    (s.adjustmentPlace entity_id currency n).2

/-- A refresh adds what the next adjustment lacks to the balances that count it. -/
theorem CashMoved.refresh (hplain : s.PlainNext entity_id currency timestamp)
    (hok : s.recalculateAdjustments entity_id currency timestamp = .ok s') :
    CashMoved s s' entity_id currency {} limit fun p =>
      match s.getNextSnapshot entity_id currency timestamp with
      | none => 0
      | some n => if p (s.adjustmentPlace entity_id currency n).1
          then s.adjustmentGap entity_id currency n else 0 := by
  rcases recalculateAdjustments_cases hok with ⟨hnone, rfl⟩ | ⟨n, expected, hn, hexp, rfl⟩
  · simp only [hnone]
    exact .refl s'
  have hbal := (getBalanceAtDate_eq_some_iff.mp hexp).2
  simp only [hn, adjustmentGap, adjustmentPlace, hbal]
  rcases setSnapshotAdjustment_cases s entity_id currency n.1 n.2.timestamp
    (n.2.amount - expected) with ⟨r, hr, he⟩ | ⟨hr, he⟩
  · obtain ⟨hm, hent, hcur, htype, -⟩ := getAdjustmentTransaction_eq_some hr
    obtain ⟨hpay, hch⟩ := hplain n r hn hr
    rw [he]
    simp only [hr]
    convert CashMoved.setAmount hm hch htype (n.2.amount - expected)
      (snapshotNotes n.2.timestamp) using 1
    funext p
    rw [share_withAmount_sub hent hcur hpay htype (keeps_default r) (keeps_default _)]
  · rw [he]
    simp only [hr]
    convert CashMoved.insert (s := s) (.inl (loopImpact_adjustmentRow entity_id currency
      (n.2.amount - expected) (s.timezone.adjustmentTimestamp n.2.timestamp) (some n.1)
      (snapshotNotes n.2.timestamp))) using 1
    funext p
    rw [share_adjustmentRow (keeps_default _), sub_zero]

/-! ## Lookups that a recording leaves alone -/

/-- A row that is no adjustment of a snapshot is not found as one. -/
theorem getAdjustmentTransaction_insert_of_none {row : Transaction} (h : row.balanceSnapshotId = none)
    (snapshot_id : ℕ) :
    (s.insertTransaction row).getAdjustmentTransaction entity_id currency snapshot_id =
      s.getAdjustmentTransaction entity_id currency snapshot_id := by
  change (s.transactions.rows ++ [(s.transactions.next, row)]).find? _ = _
  rw [List.find?_append, List.find?_singleton, h]
  simp [getAdjustmentTransaction]

theorem getAdjustmentTransaction_inject (needed : ℚ) (snapshot_id : ℕ) :
    (s.inject entity_id currency timestamp needed).getAdjustmentTransaction entity_id currency
      snapshot_id = s.getAdjustmentTransaction entity_id currency snapshot_id := by
  rcases inject_cases s entity_id currency timestamp needed with ⟨r, hr, he⟩ | ⟨-, he⟩
  · obtain ⟨hm, -, -, hinj, -⟩ := getInjectedAdjustmentAt_eq_some hr
    have hsid := (isInjection_iff.mp hinj).2.1
    rw [he]
    refine find?_modify_eq hm ?_ ?_
    · simp [hsid]
    · simp [withAmount, hsid]
  · rw [he]
    exact getAdjustmentTransaction_insert_of_none rfl snapshot_id

theorem inject_timezone (s : Ledger) (entity_id : ℕ) (currency : Currency) (timestamp : Timestamp)
    (needed : ℚ) : (s.inject entity_id currency timestamp needed).timezone = s.timezone := by
  rcases inject_cases s entity_id currency timestamp needed with ⟨r, -, he⟩ | ⟨-, he⟩
  · rw [he]
    rfl
  · rw [he]
    rfl

theorem linkAdjustmentToTransaction_timezone (s : Ledger) (a t : ℕ) :
    (s.linkAdjustmentToTransaction a t).timezone = s.timezone := by
  unfold linkAdjustmentToTransaction
  split_ifs <;> rfl

theorem attach_timezone (s : Ledger) (body : TransactionCreate) (tx_id : ℕ) :
    (s.attach body tx_id).timezone = s.timezone := by
  unfold attach linkInjection
  split_ifs
  · split
    · exact linkAdjustmentToTransaction_timezone _ _ _
    · rfl
  · rfl

theorem attach_transactions (s : Ledger) (body : TransactionCreate) (tx_id : ℕ) :
    (s.attach body tx_id).transactions = s.transactions := by
  unfold attach
  split_ifs
  · exact linkInjection_transactions _ _ _ _ _
  · rfl

end Ledger

/-! ## A recording by what it moves -/

namespace TransactionCreate

/-- What the stored row takes from the pocket. -/
def cashOut (body : TransactionCreate) : ℚ := (body.grossAmount.or body.totalValue).getD 0

theorem cashOut_of_spendAmount {body : TransactionCreate} {cash_amount : ℚ}
    (h : body.spendAmount = some cash_amount) : body.cashOut = cash_amount := by
  obtain ⟨total, htotal, rfl⟩ := Option.map_eq_some_iff.mp h
  unfold cashOut
  rw [htotal]
  cases body.grossAmount with
  | none => rfl
  | some gross => rfl

end TransactionCreate

namespace Ledger

variable {s s' : Ledger} {entity_id : ℕ} {currency : Currency} {ex : Exclude} {limit : Timestamp}

/-- What a spend is short of, when it is checked. -/
def shortfall (s : Ledger) (body : TransactionCreate) : ℚ :=
  match body.spendAmount with
  | none => 0
  | some cash_amount =>
    max 0 (cash_amount - s.balance body.entityId body.cashPocket body.timestamp {} true)

theorem shortfall_nonneg (s : Ledger) (body : TransactionCreate) : 0 ≤ s.shortfall body := by
  unfold shortfall
  split
  · exact le_rfl
  · exact le_max_left _ _

/-- A check injects the shortfall. -/
theorem ensureCash_eq_ok {body : TransactionCreate} {mode : Option BalanceMode}
    (hspend : body.type.isSpend = true) (hmode : mode ≠ some .debit)
    (hfree : s.anchoredAt body.entityId body.cashPocket body.timestamp = false)
    (hok : s.ensureCash body mode none = .ok s') :
    (s.shortfall body = 0 ∧ s' = s) ∨ 0 < s.shortfall body ∧
      s' = s.inject body.entityId body.cashPocket body.timestamp (s.shortfall body) := by
  unfold shortfall
  unfold ensureCash at hok
  cases hamount : body.spendAmount with
  | none =>
    rw [hamount] at hok
    exact .inl ⟨rfl, (Except.ok.inj hok).symm⟩
  | some cash_amount =>
    simp only [hamount, hspend, if_true, ensureCashForSpend, cashNeeded, hmode, hfree, if_false,
      Bool.false_eq_true, false_and, Runs.bind_eq_ok, orTypeError_eq_ok] at hok ⊢
    obtain ⟨needed, ⟨balance, hbalance, hneeded⟩, hok⟩ := hok
    obtain rfl := (getBalanceAtDate_eq_some_iff.mp hbalance).2
    split_ifs at hneeded with hle
    · cases hneeded
      exact .inl ⟨max_eq_left (sub_nonpos.mpr hle), (Except.ok.inj hok).symm⟩
    · cases hneeded
      have hpos := sub_pos.mpr (not_le.mp hle)
      rw [max_eq_right hpos.le]
      exact .inr ⟨hpos, (Except.ok.inj hok).symm⟩

/-- What the injection of a spend adds over a set of instants. -/
def injectionMove (s : Ledger) (body : TransactionCreate) (p : Timestamp → Bool) : ℚ :=
  if p (Time.injectionTs body.timestamp) then s.shortfall body else 0

theorem CashMoved.ensureCash {body : TransactionCreate} {mode : Option BalanceMode}
    (hplain : s.PlainInjection body.entityId body.cashPocket body.timestamp)
    (hex : ∀ r : ℕ × Transaction, isInjection r.2 = true → ex.keeps r = true)
    (hspend : body.type.isSpend = true) (hmode : mode ≠ some .debit)
    (hfree : s.anchoredAt body.entityId body.cashPocket body.timestamp = false)
    (hok : s.ensureCash body mode none = .ok s') :
    CashMoved s s' body.entityId body.cashPocket ex limit (s.injectionMove body) := by
  unfold injectionMove
  rcases ensureCash_eq_ok hspend hmode hfree hok with ⟨hzero, rfl⟩ | ⟨-, rfl⟩
  · rw [hzero]
    simp only [ite_self]
    exact .refl s'
  · exact .inject hplain hex _

/-- A row that takes cash from the pair. -/
theorem CashMoved.insert_spend {body : TransactionCreate} {rule : Option String}
    {mode : Option BalanceMode} (hex : ∀ r : ℕ × Transaction, r.2.isAdjustment = false →
      ex.keeps r = true) (hspend : body.type.isSpend = true)
    (hread : (body.toRow rule mode).loopImpact.isSome ∨ limit ≤ body.timestamp) :
    CashMoved s (s.insertTransaction (body.toRow rule mode)) body.entityId body.cashPocket ex limit
      fun p => if p body.timestamp then -body.cashOut else 0 := by
  have hadj : (body.toRow rule mode).isAdjustment = false := by
    change decide (body.type = .balanceAdjustment) = false
    cases htype : body.type with
    | balanceAdjustment => rw [htype] at hspend; cases hspend
    | _ => rfl
  have hinflow : (body.toRow rule mode).type.isInflow = false := by
    change body.type.isInflow = false
    cases htype : body.type with
    | moneyOut | investmentBuy | transferOut => rfl
    | _ => rw [htype] at hspend; cases hspend
  have himpact : (body.toRow rule mode).sqlImpact = -body.cashOut := by
    unfold Transaction.sqlImpact
    rw [hinflow, if_neg Bool.false_ne_true, if_pos (show (body.toRow rule mode).type.isSpend = true from hspend)]
    change ((body.grossAmount.or body.totalValue).map (- ·)).getD 0 = _
    unfold TransactionCreate.cashOut
    cases body.grossAmount.or body.totalValue with
    | none => simp
    | some amount => rfl
  convert CashMoved.insert (s := s) hread using 1
  funext p
  have hpair : inPair body.entityId body.cashPocket (s.transactions.next, body.toRow rule mode) = true :=
    inPair_iff.mpr ⟨rfl, rfl⟩
  rw [share_of_keeps hpair (hex _ hadj), himpact]
  rfl

/-- What the refresh after a spend adds to the adjustment of the next snapshot: what the adjustment
lacked, and what the spend takes beyond the injection. -/
def adjustmentShift (s : Ledger) (body : TransactionCreate) (n : ℕ × BalanceSnapshot) : ℚ :=
  s.adjustmentGap body.entityId body.cashPocket n + body.cashOut -
    s.injectionMove body (s.window body.entityId body.cashPocket true n.2.timestamp)

/-- What that refresh adds over a set of instants. -/
def adjustmentMove (s : Ledger) (body : TransactionCreate) (p : Timestamp → Bool) : ℚ :=
  match s.getNextSnapshot body.entityId body.cashPocket body.timestamp with
  | none => 0
  | some n => if p (s.adjustmentPlace body.entityId body.cashPocket n).1
      then s.adjustmentShift body n else 0

/-- What recording a spend adds over a set of instants. -/
def spendMove (s : Ledger) (body : TransactionCreate) (p : Timestamp → Bool) : ℚ :=
  s.injectionMove body p +
    (if p body.timestamp then -body.cashOut else 0) + s.adjustmentMove body p

/-- The balance at the next snapshot counts the instant before it. -/
theorem window_next {timestamp : Timestamp} {n : ℕ × BalanceSnapshot}
    (hn : s.getNextSnapshot entity_id currency timestamp = some n) :
    s.window entity_id currency true n.2.timestamp timestamp = true :=
  (Checkpoint.spans_iff_firstAfter hn (Checkpoint.firstAfter_eq_some hn).1).mpr (.inl rfl)

/-- What a refresh looks up is the same after the other writes of a spend. -/
theorem recorded_lookups {s₁ : Ledger} {body : TransactionCreate} {rule : Option String}
    {mode : Option BalanceMode} (hspend : body.type.isSpend = true) (hmode : mode ≠ some .debit)
    (hfree : s.anchoredAt body.entityId body.cashPocket body.timestamp = false)
    (hensure : s.ensureCash body mode none = .ok s₁) (tx_id : ℕ) :
    (∀ snapshot_id, ((s₁.insertTransaction (body.toRow rule mode)).attach body
        tx_id).getAdjustmentTransaction body.entityId body.cashPocket snapshot_id =
      s.getAdjustmentTransaction body.entityId body.cashPocket snapshot_id) ∧
    ((s₁.insertTransaction (body.toRow rule mode)).attach body tx_id).timezone = s.timezone := by
  have hfirst : (∀ snapshot_id, s₁.getAdjustmentTransaction body.entityId body.cashPocket snapshot_id =
      s.getAdjustmentTransaction body.entityId body.cashPocket snapshot_id) ∧
      s₁.timezone = s.timezone := by
    rcases ensureCash_eq_ok hspend hmode hfree hensure with ⟨-, rfl⟩ | ⟨-, rfl⟩
    · exact ⟨fun _ => rfl, rfl⟩
    · exact ⟨getAdjustmentTransaction_inject _, inject_timezone _ _ _ _ _⟩
  constructor
  · intro snapshot_id
    have ht := attach_transactions (s₁.insertTransaction (body.toRow rule mode)) body tx_id
    have hinsert : (s₁.insertTransaction (body.toRow rule mode)).getAdjustmentTransaction body.entityId
        body.cashPocket snapshot_id =
          s₁.getAdjustmentTransaction body.entityId body.cashPocket snapshot_id :=
      getAdjustmentTransaction_insert_of_none rfl snapshot_id
    rw [← hfirst.1, ← hinsert]
    unfold getAdjustmentTransaction
    rw [ht]
  · rw [attach_timezone]
    exact hfirst.2

theorem CashMoved.create {body : TransactionCreate} {resp : TransactionResponse}
    (hplain : s.PlainInjection body.entityId body.cashPocket body.timestamp)
    (hplain' : s.PlainNext body.entityId body.cashPocket body.timestamp)
    (hspend : body.type.isSpend = true)
    (hmode : body.cashHandling ≠ some .debit)
    (hfree : s.anchoredAt body.entityId body.cashPocket body.timestamp = false)
    (hok : s.createTransaction body = .ok (resp, s')) :
    CashMoved s s' body.entityId body.cashPocket {} body.timestamp (s.spendMove (body.resolved s)) := by
  obtain ⟨s₁, hensure, -, hrow, hrefresh⟩ := createTransaction_cases hok
  rw [← body.resolved_type s] at hspend
  rw [← body.resolved_cashHandling s] at hmode
  rw [← body.resolved_entityId s, ← body.resolved_cashPocket s, ← body.resolved_timestamp s]
    at hplain hplain' hfree ⊢
  generalize body.resolved s = body at *
  rw [hrow] at hrefresh
  -- The writes before the refresh, as they move a balance that leaves some adjustments out.
  have hbefore : ∀ ex : Exclude, (∀ r : ℕ × Transaction, isInjection r.2 = true → ex.keeps r = true) →
      (∀ r : ℕ × Transaction, r.2.isAdjustment = false → ex.keeps r = true) →
      CashMoved s ((s₁.insertTransaction (body.toRow (s₁.fiscalRuleFor body.type body.timestamp)
        body.cashHandling)).attach body resp.id) body.entityId body.cashPocket ex body.timestamp
        fun p => s.injectionMove body p +
          (if p body.timestamp then -body.cashOut else 0) + 0 := fun ex hinj hother =>
    ((CashMoved.ensureCash hplain hinj hspend hmode hfree hensure).trans
      (.insert_spend hother hspend (.inr le_rfl))).trans (.attach _ body resp.id)
  obtain ⟨hadj, hzone⟩ := recorded_lookups hspend hmode hfree hensure resp.id
  generalize (s₁.insertTransaction _).attach body resp.id = s₂ at hrefresh hbefore hadj hzone
  have htype : body.type ≠ .balanceAdjustment := fun htype => by rw [htype] at hspend; cases hspend
  unfold recalculateFor at hrefresh
  rw [if_neg htype] at hrefresh
  have hmoved := hbefore {} (fun _ _ => rfl) fun _ _ => rfl
  have hnext : s₂.getNextSnapshot body.entityId body.cashPocket body.timestamp =
      s.getNextSnapshot body.entityId body.cashPocket body.timestamp :=
    getNextSnapshot_congr hmoved.pairs _
  have hplace : ∀ n, s₂.adjustmentPlace body.entityId body.cashPocket n =
      s.adjustmentPlace body.entityId body.cashPocket n := fun n => by
    unfold adjustmentPlace
    rw [hadj, hzone]
  -- What the adjustment lacks, after the other writes.
  have hgap : ∀ n, s.getNextSnapshot body.entityId body.cashPocket body.timestamp = some n →
      s₂.adjustmentGap body.entityId body.cashPocket n = s.adjustmentShift body n := by
    intro n hn
    have hmeasured := (hbefore { adjustmentSnapshotId := some n.1 }
      (fun r hr => by simp [Exclude.keeps, (isInjection_iff.mp hr).2.1])
      (fun r hr => by simp [Exclude.keeps, hr])).balance n.2.timestamp
    unfold adjustmentShift adjustmentGap
    rw [hmeasured, hplace, window_next hn]
    simp only [if_true]
    ring
  have hplain₂ : s₂.PlainNext body.entityId body.cashPocket body.timestamp := by
    intro n r hn hr
    rw [hnext] at hn
    rw [hadj] at hr
    unfold PlainRow
    rw [hmoved.charges.charged_iff]
    exact hplain' n r hn hr
  convert hmoved.trans (.refresh hplain₂ hrefresh) using 1
  funext p
  unfold spendMove adjustmentMove
  rw [hnext, add_zero]
  congr 1
  cases hn : s.getNextSnapshot body.entityId body.cashPocket body.timestamp with
  | none => rfl
  | some n =>
    dsimp only
    rw [hplace, hgap n hn]

/-- The balance at the moment of a spend, before it. -/
def spendBalance (s : Ledger) (body : TransactionCreate) : ℚ :=
  s.balance body.entityId body.cashPocket body.timestamp {} true

/-- The injection of a spend is in the balance at an instant. -/
def CountsInjection (s : Ledger) (body : TransactionCreate) (t : Timestamp) : Prop :=
  s.window body.entityId body.cashPocket true t (Time.injectionTs body.timestamp) = true

/-- The adjustment of a snapshot is in the balance at an instant. -/
def CountsAdjustment (s : Ledger) (body : TransactionCreate) (n : ℕ × BalanceSnapshot) (t : Timestamp) :
    Prop :=
  s.window body.entityId body.cashPocket true t
    (s.adjustmentPlace body.entityId body.cashPocket n).1 = true

/-- The pocket is not negative with the spend in it, and holds at every earlier instant at least what it
held. A reading from a snapshot stops before the rows of its instant, so the spend is taken off. -/
structure SpendFunded (s s' : Ledger) (body : TransactionCreate) : Prop where
  own : ∃ x, s'.getBalanceAtDate body.entityId body.cashPocket body.timestamp = some x ∧
    0 ≤ x - if (s'.getPreviousSnapshot body.entityId body.cashPocket body.timestamp).isSome
      then body.cashOut else 0
  earlier : ∀ u, u < body.timestamp → ∀ x,
    s.getBalanceAtDate body.entityId body.cashPocket u = some x →
      ∃ y, s'.getBalanceAtDate body.entityId body.cashPocket u = some y ∧ x ≤ y

/-- Where a recording keeps its pocket funded: the balance can be read; where the next adjustment lies
after the spend, the pocket holds enough or the check sees the spend and the injection is counted; where
it lies before, the pocket was not negative with what the adjustment lacked, and no balance between the
adjustment and the spend goes down. -/
structure SpendFits (s : Ledger) (body : TransactionCreate) : Prop where
  readable : (s.getBalanceAtDate body.entityId body.cashPocket body.timestamp).isSome
  funded : (∀ n, s.getNextSnapshot body.entityId body.cashPocket body.timestamp = some n →
      ¬ s.CountsAdjustment body n body.timestamp) →
    body.cashOut ≤ s.spendBalance body ∨
      body.spendAmount.isSome ∧ s.CountsInjection body body.timestamp
  adjusted : ∀ n, s.getNextSnapshot body.entityId body.cashPocket body.timestamp = some n →
    s.CountsAdjustment body n body.timestamp →
    0 ≤ s.spendBalance body + s.adjustmentGap body.entityId body.cashPocket n +
      (s.injectionMove body (s.window body.entityId body.cashPocket true body.timestamp) -
        s.injectionMove body (s.window body.entityId body.cashPocket true n.2.timestamp))
  earlier : ∀ n, s.getNextSnapshot body.entityId body.cashPocket body.timestamp = some n →
    ∀ u, u < body.timestamp → s.Readable body.entityId body.cashPocket u {} →
      s.CountsAdjustment body n u →
      0 ≤ s.adjustmentShift body n +
        s.injectionMove body (s.window body.entityId body.cashPocket true u)

/-- The move up to the spend, the spend included wherever the reading stops. -/
theorem spendMove_own (s : Ledger) (body : TransactionCreate) :
    s.spendMove body (s.window body.entityId body.cashPocket true body.timestamp) -
        (if (s.getPreviousSnapshot body.entityId body.cashPocket body.timestamp).isSome
          then body.cashOut else 0) =
      s.injectionMove body (s.window body.entityId body.cashPocket true body.timestamp) - body.cashOut +
        s.adjustmentMove body (s.window body.entityId body.cashPocket true body.timestamp) := by
  have hown : s.window body.entityId body.cashPocket true body.timestamp body.timestamp =
      !(s.getPreviousSnapshot body.entityId body.cashPocket body.timestamp).isSome := by
    unfold window
    cases hp : s.getPreviousSnapshot body.entityId body.cashPocket body.timestamp with
    | none =>
      rw [Checkpoint.spans_of_none hp]
      simp
    | some p =>
      rw [Checkpoint.spans_of_some hp]
      simp
  unfold spendMove
  rw [hown]
  cases (s.getPreviousSnapshot body.entityId body.cashPocket body.timestamp).isSome with
  | true =>
    simp only [Bool.not_true, Bool.false_eq_true, if_false, if_true]
    ring
  | false =>
    simp only [Bool.not_false, Bool.false_eq_true, if_false, if_true]
    ring

/-- A balance before the spend only moves with the injection and the adjustment. -/
theorem spendMove_earlier {body : TransactionCreate} {u : Timestamp} (hu : u < body.timestamp) :
    s.spendMove body (s.window body.entityId body.cashPocket true u) =
      s.injectionMove body (s.window body.entityId body.cashPocket true u) +
        s.adjustmentMove body (s.window body.entityId body.cashPocket true u) := by
  have hlater : s.window body.entityId body.cashPocket true u body.timestamp = false := by
    unfold window
    cases hp : s.getPreviousSnapshot body.entityId body.cashPocket u with
    | none =>
      rw [Checkpoint.spans_of_none hp]
      simpa using hu
    | some p =>
      rw [Checkpoint.spans_of_some hp]
      simp [not_lt.mpr (le_of_lt hu)]
  unfold spendMove
  rw [hlater]
  simp only [Bool.false_eq_true, if_false, add_zero]

theorem adjustmentMove_eq {body : TransactionCreate} {n : ℕ × BalanceSnapshot} {t : Timestamp}
    (hn : s.getNextSnapshot body.entityId body.cashPocket body.timestamp = some n)
    (h : s.CountsAdjustment body n t) :
    s.adjustmentMove body (s.window body.entityId body.cashPocket true t) =
      s.adjustmentShift body n := by
  unfold adjustmentMove
  rw [hn]
  exact if_pos h

theorem adjustmentMove_eq_zero {body : TransactionCreate} {t : Timestamp}
    (h : ∀ n, s.getNextSnapshot body.entityId body.cashPocket body.timestamp = some n →
      ¬ s.CountsAdjustment body n t) :
    s.adjustmentMove body (s.window body.entityId body.cashPocket true t) = 0 := by
  unfold adjustmentMove
  cases hn : s.getNextSnapshot body.entityId body.cashPocket body.timestamp with
  | none => rfl
  | some n => exact if_neg (h n hn)

theorem injectionMove_nonneg (s : Ledger) (body : TransactionCreate) (p : Timestamp → Bool) :
    0 ≤ s.injectionMove body p := by
  unfold injectionMove
  split_ifs
  · exact s.shortfall_nonneg body
  · exact le_rfl

/-- An injection that is counted covers a spend that was checked, and nothing else does. -/
theorem funded_iff_of_injection (s : Ledger) (body : TransactionCreate) :
    0 ≤ s.spendBalance body +
        (s.injectionMove body (s.window body.entityId body.cashPocket true body.timestamp) -
          body.cashOut) ↔
      body.cashOut ≤ s.spendBalance body ∨
        body.spendAmount.isSome ∧ s.CountsInjection body body.timestamp := by
  unfold injectionMove CountsInjection
  split_ifs with hcounted
  · cases hamount : body.spendAmount with
    | none =>
      have hzero : s.shortfall body = 0 := by
        unfold shortfall
        rw [hamount]
      rw [hzero, zero_sub, ← sub_eq_add_neg, sub_nonneg]
      simp
    | some cash_amount =>
      have hcovers : body.cashOut - s.spendBalance body ≤ s.shortfall body := by
        unfold shortfall
        rw [hamount, TransactionCreate.cashOut_of_spendAmount hamount]
        exact le_max_right _ _
      exact iff_of_true (by linarith) (.inr ⟨rfl, hcounted⟩)
  · rw [zero_sub, ← sub_eq_add_neg, sub_nonneg]
    exact (or_iff_left fun h => hcounted h.2).symm

end Ledger

namespace Sample

/-- A snapshot on the morning of day 10, and a first spend at noon. -/
def morningSnapshot : List LedgerCall :=
  [.createSnapshot { entityId := 0, currency := usd, amount := 0, timestamp := at_ 10 8 },
   .createTransaction (spendOnDay10 100 12)]

end Sample

end FinHub
