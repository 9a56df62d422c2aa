import FinHub.Lib.TopUp
import FinHub.Reconcile.Resave
import FinHub.Reconcile.SpendFunded

/-!
# FinHub.Reconcile.DayOrder

The spends of one day, recorded in different orders.

A spend is checked when it is recorded, against the balance at its own instant: what is recorded later for
an earlier instant is not seen. `Lib.TopUp` is that bookkeeping by itself; here it is the cash of a pair.

* `DayState`: the ledger after some spends of the day, by what was topped up and which spends are linked.
* `dayState_recordAll`: a list of spends takes the ledger along the run of the library.
* `orderFree_iff`: when the order does not matter.
-/

namespace FinHub

open Tabular

namespace Ledger

/-- Record bodies one after the other. -/
def recordAll (s : Ledger) (bodies : List TransactionCreate) : Except SvcError Ledger :=
  bodies.foldlM (fun s body => (s.createTransaction body).map Prod.snd) s

/-- A spend of the pair on the day, with its cash handling left to the default. -/
structure DaySpend (entity_id : ℕ) (currency : Currency) (day : ℤ) (body : TransactionCreate) : Prop where
  spend : body.type.isSpend = true
  entity : body.entityId = entity_id
  pocket : body.cashPocket = currency
  day : Time.dayOf body.timestamp = day
  auto : body.cashHandling = none

/-- The pair has no snapshot, and for the day neither a spend nor an injection. -/
structure FreshDay (s : Ledger) (entity_id : ℕ) (currency : Currency) (day : ℤ) : Prop where
  unanchored : s.pairSnapshots entity_id currency = []
  spends : ∀ r ∈ s.transactions.rows, inPair entity_id currency r = true → r.2.type.isSpend = true →
    Time.dayOf r.2.timestamp ≠ day
  injection : s.getInjectedAdjustmentAt entity_id currency (Time.endOfDay (day - 1)) = none

/-- A spend as a demand on the pool of the pair. -/
def demand (s : Ledger) (body : TransactionCreate) : TopUp.Demand Timestamp ℚ where
  time := body.timestamp
  cost := (body.resolved s).cashOut
  checked := (body.resolved s).spendAmount.isSome

/-- What the pair holds at an instant. -/
def pool (s : Ledger) (entity_id : ℕ) (currency : Currency) (t : Timestamp) : ℚ :=
  s.balance entity_id currency t {} true

/-! ## What a spend does not write -/

/-- The charges, the snapshots and what a row refers to are the same in both states. -/
structure Steady (s s' : Ledger) : Prop where
  charges : SameCharges s s'
  snapshots : s'.snapshots = s.snapshots
  assets : s'.portfolioAssets = s.portfolioAssets
  exemptions : s'.fiscalExemptions = s.fiscalExemptions

namespace Steady

variable {s s' s'' : Ledger}

theorem refl (s : Ledger) : Steady s s := ⟨.refl s, rfl, rfl, rfl⟩

theorem trans (h : Steady s s') (h' : Steady s' s'') : Steady s s'' :=
  ⟨h.charges.trans h'.charges, h'.snapshots.trans h.snapshots, h'.assets.trans h.assets,
    h'.exemptions.trans h.exemptions⟩

theorem insert (s : Ledger) (row : Transaction) : Steady s (s.insertTransaction row) :=
  ⟨.insert s row, rfl, rfl, rfl⟩

theorem modify {k : ℕ} (hch : ¬ s.Charged k) (f : Transaction → Transaction) :
    Steady s (s.modifyTransaction k f) :=
  ⟨.modify fun h => absurd h hch, rfl, rfl, rfl⟩

theorem attach (s : Ledger) (body : TransactionCreate) (tx_id : ℕ) : Steady s (s.attach body tx_id) := by
  have hlink : ∀ a, Steady s (s.linkAdjustmentToTransaction a tx_id) := by
    intro a
    refine ⟨.link s a tx_id, (link_frame s a tx_id).2.2.1, ?_, ?_⟩
    · unfold linkAdjustmentToTransaction
      split_ifs <;> rfl
    · unfold linkAdjustmentToTransaction
      split_ifs <;> rfl
  unfold Ledger.attach
  split_ifs
  · rcases linkInjection_cases s body.entityId body.cashPocket body.timestamp tx_id with
      ⟨r, -, he⟩ | ⟨-, he⟩
    · rw [he]
      exact hlink r.1
    · rw [he]
      exact .refl s
  · exact .refl s

theorem pairs (h : Steady s s') (entity_id : ℕ) (currency : Currency) :
    s'.pairSnapshots entity_id currency = s.pairSnapshots entity_id currency :=
  pairSnapshots_congr h.snapshots _ _

theorem resolveFks (h : Steady s s') (body : TransactionCreate) : s'.resolveFks body = s.resolveFks body := by
  unfold Ledger.resolveFks getEntity codeExists getPortfolioAsset getFiscalExemption
  rw [h.charges.entities, h.charges.currencies, h.assets, h.exemptions]

theorem resolved (h : Steady s s') (body : TransactionCreate) : body.resolved s' = body.resolved s := by
  have hrate : s'.getRate = s.getRate := by
    unfold getRate resolveDirection pairExists getRateAt getLatestRate
    rw [h.charges.currencies]
  unfold TransactionCreate.resolved TransactionCreate.resolveFxFields
  rw [hrate]

end Steady

/-! ## One spend -/

section Unanchored

variable {s s' : Ledger} {entity_id : ℕ} {currency : Currency} {body : TransactionCreate}

theorem getPreviousSnapshot_eq_none (h : s.pairSnapshots entity_id currency = []) (t : Timestamp) :
    s.getPreviousSnapshot entity_id currency t = none := by
  unfold getPreviousSnapshot
  rw [h]
  rfl

theorem getNextSnapshot_eq_none (h : s.pairSnapshots entity_id currency = []) (t : Timestamp) :
    s.getNextSnapshot entity_id currency t = none := by
  unfold getNextSnapshot
  rw [h]
  rfl

theorem balance_unanchored (h : s.pairSnapshots entity_id currency = []) (t : Timestamp) :
    s.balance entity_id currency t {} true =
      s.cashOver entity_id currency {} (fun u => decide (u ≤ t)) - s.feesUpTo entity_id currency none t := by
  rw [balance_of_none (getPreviousSnapshot_eq_none h t)]
  rfl

/-- The state with the injection of a spend, if it is short. -/
def covered (s : Ledger) (body : TransactionCreate) : Ledger :=
  if 0 < s.shortfall body then s.inject body.entityId body.cashPocket body.timestamp (s.shortfall body)
  else s

/-- The state after a spend, where no snapshot is to be refreshed. -/
def spent (s : Ledger) (body : TransactionCreate) : Ledger :=
  ((s.covered body).insertTransaction (body.toRow
    ((s.covered body).fiscalRuleFor body.type body.timestamp) body.cashHandling)).attach body
      (s.covered body).transactions.next

/-- A spend of an unanchored pair is stored when its references resolve and a measured balance can be
read. -/
structure Recordable (s : Ledger) (body : TransactionCreate) : Prop where
  fks : s.resolveFks body = .ok ()
  fees : (body.resolved s).spendAmount.isSome →
    s.FeesReadable body.entityId body.cashPocket none body.timestamp

theorem Steady.recordable (h : Steady s s') (body : TransactionCreate) :
    s'.Recordable body ↔ s.Recordable body := by
  have hfks := h.resolveFks body
  have hresolved := h.resolved body
  constructor
  · rintro ⟨hfk, hfees⟩
    rw [hresolved, h.charges.feesReadable] at hfees
    exact ⟨hfks.symm.trans hfk, hfees⟩
  · rintro ⟨hfk, hfees⟩
    refine ⟨hfks.trans hfk, ?_⟩
    rw [hresolved, h.charges.feesReadable]
    exact hfees

theorem covered_snapshots (s : Ledger) (body : TransactionCreate) :
    (s.covered body).snapshots = s.snapshots := by
  unfold covered
  split_ifs
  · rcases inject_cases s body.entityId body.cashPocket body.timestamp (s.shortfall body) with
      ⟨r, -, he⟩ | ⟨-, he⟩ <;> rw [he] <;> rfl
  · rfl

theorem ensureCash_unanchored (hspend : body.type.isSpend = true)
    (h : s.pairSnapshots body.entityId body.cashPocket = []) :
    s.ensureCash body none none = .ok s' ↔ s' = s.covered body ∧
      (body.spendAmount.isSome → s.FeesReadable body.entityId body.cashPocket none body.timestamp) := by
  have hfree : s.anchoredAt body.entityId body.cashPocket body.timestamp = false := by
    unfold anchoredAt
    rw [getPreviousSnapshot_eq_none h]
    rfl
  constructor
  · intro hok
    constructor
    · unfold covered
      have hmode : (none : Option BalanceMode) ≠ some .debit := nofun
      rcases ensureCash_eq_ok hspend hmode hfree hok with ⟨hzero, rfl⟩ | ⟨hpos, rfl⟩
      · rw [hzero, if_neg (lt_irrefl 0)]
      · rw [if_pos hpos]
    · intro hamount
      obtain ⟨cash_amount, hamount⟩ := Option.isSome_iff_exists.mp hamount
      rw [ensureCash_of_some hamount hspend, Runs.map_eq_ok] at hok
      obtain ⟨needed, hneeded, -⟩ := hok
      unfold cashNeeded at hneeded
      simp only [hfree, reduceCtorEq, Bool.false_eq_true, false_and, if_false, Runs.bind_eq_ok,
        orTypeError_eq_ok] at hneeded
      obtain ⟨balance, hbalance, -⟩ := hneeded
      exact (readable_of_getBalanceAtDate hbalance).fees
  · rintro ⟨rfl, hfees⟩
    cases hamount : body.spendAmount with
    | none =>
      have hzero : s.shortfall body = 0 := by
        unfold shortfall
        rw [hamount]
      unfold covered
      rw [ensureCash_of_none hamount, hzero, if_neg (lt_irrefl 0)]
    | some cash_amount =>
      have hread : s.Readable body.entityId body.cashPocket body.timestamp {} := by
        refine ⟨hfees (hamount ▸ rfl), fun snapshot hsnapshot => ?_⟩
        rw [getPreviousSnapshot_eq_none h] at hsnapshot
        cases hsnapshot
      have hbalance := hread.getBalanceAtDate true
      unfold covered shortfall
      rw [ensureCash_of_some hamount hspend, hamount]
      unfold cashNeeded
      simp only [hfree, reduceCtorEq, Bool.false_eq_true, false_and, if_false, hbalance, orTypeError]
      change Except.map _ (if _ then _ else _) = _
      split_ifs with hle hpos hpos
      · exact absurd hpos (not_lt.mpr (max_le le_rfl (sub_nonpos.mpr hle)))
      · rfl
      · rw [max_eq_right (sub_pos.mpr (not_le.mp hle)).le]
        rfl
      · exact absurd (lt_max_of_lt_right (sub_pos.mpr (not_le.mp hle))) hpos

/-- What recording a spend of an unanchored pair does. -/
theorem createTransaction_unanchored (hspend : body.type.isSpend = true) (hauto : body.cashHandling = none)
    (h : s.pairSnapshots body.entityId body.cashPocket = []) :
    (s.createTransaction body).map Prod.snd = .ok s' ↔
      s.Recordable body ∧ s' = s.spent (body.resolved s) := by
  have hspend' : (body.resolved s).type.isSpend = true := by rw [TransactionCreate.resolved_type, hspend]
  have hmode : (body.resolved s).cashHandling = none := by rw [TransactionCreate.resolved_cashHandling, hauto]
  have h' : s.pairSnapshots (body.resolved s).entityId (body.resolved s).cashPocket = [] := by
    rw [TransactionCreate.resolved_entityId, TransactionCreate.resolved_cashPocket, h]
  have hensure : ∀ s₁, s.ensureCash (body.resolved s) none none = .ok s₁ ↔ _ := fun _ =>
    ensureCash_unanchored hspend' h'
  -- No snapshot is there to be refreshed.
  have hrefresh : (s.spent (body.resolved s)).recalculateFor (body.resolved s) =
      .ok (s.spent (body.resolved s)) := by
    have hsnapshots : (s.spent (body.resolved s)).snapshots = s.snapshots := by
      unfold spent
      rw [(Steady.attach _ _ _).snapshots]
      exact s.covered_snapshots _
    unfold recalculateFor recalculateAdjustments
    rw [getNextSnapshot_eq_none ((pairSnapshots_congr hsnapshots _ _).trans h'), ite_self]
  unfold createTransaction
  simp only [Runs.map_eq_ok, Runs.bind_eq_ok, hmode, hensure]
  constructor
  · rintro ⟨⟨resp, s₃⟩, ⟨⟨⟩, hfks, s₁, ⟨rfl, hfees⟩, s₃', hs₃, heq⟩, rfl⟩
    rw [TransactionCreate.resolved_entityId, TransactionCreate.resolved_cashPocket,
      TransactionCreate.resolved_timestamp] at hfees
    cases heq
    unfold spent at hrefresh ⊢
    rw [hmode] at hrefresh ⊢
    exact ⟨⟨hfks, hfees⟩, Except.ok.inj (hs₃.symm.trans hrefresh)⟩
  · rintro ⟨⟨hfks, hfees⟩, rfl⟩
    have hfees' : (body.resolved s).spendAmount.isSome → s.FeesReadable (body.resolved s).entityId
        (body.resolved s).cashPocket none (body.resolved s).timestamp := by
      rw [TransactionCreate.resolved_entityId, TransactionCreate.resolved_cashPocket,
        TransactionCreate.resolved_timestamp]
      exact hfees
    unfold spent at hrefresh ⊢
    rw [hmode] at hrefresh ⊢
    exact ⟨_, ⟨(), hfks, _, ⟨rfl, hfees'⟩, _, hrefresh, rfl⟩, rfl⟩

end Unanchored

/-! ## The ledger after some spends of the day -/

/-- The spends of the pair on the day. -/
def daySpends (s : Ledger) (entity_id : ℕ) (currency : Currency) (day : ℤ) : List (ℕ × Transaction) :=
  s.transactions.rows.filter fun r => inPair entity_id currency r && r.2.type.isSpend &&
    decide (Time.dayOf r.2.timestamp = day)

/-- The injection for the day. -/
def injectionFor (s : Ledger) (entity_id : ℕ) (currency : Currency) (day : ℤ) : Option (ℕ × Transaction) :=
  s.getInjectedAdjustmentAt entity_id currency (Time.endOfDay (day - 1))

/-- The total of the injection for the day. -/
def injectedFor (s : Ledger) (entity_id : ℕ) (currency : Currency) (day : ℤ) : ℚ :=
  (s.injectionFor entity_id currency day).elim 0 fun r => r.2.totalValue.getD 0

/-- The spend of the day at an instant is linked to an adjustment that reads as `row`. -/
def LinkedTo (s : Ledger) (entity_id : ℕ) (currency : Currency) (day : ℤ) (timestamp : Timestamp)
    (row : Transaction) : Prop :=
  ∃ r ∈ s.daySpends entity_id currency day, r.2.timestamp = timestamp ∧
    ∃ a, (a, row) ∈ s.transactions.rows ∧ ⟨a, r.1⟩ ∈ s.links

/-- A row of one pair is not read for another. -/
theorem cashKey_eq_none {entity_id e : ℕ} {currency c : Currency} {r : ℕ × Transaction}
    (hpair : inPair entity_id currency r = true) (hne : e ≠ entity_id ∨ c ≠ currency) (ex : Exclude) :
    cashKey e c ex r = none := by
  obtain ⟨rfl, rfl⟩ := inPair_iff.mp hpair
  have hother : inPair e c r = false := by
    rw [Bool.eq_false_iff, Ne, inPair_iff]
    rintro ⟨rfl, rfl⟩
    exact hne.elim (absurd rfl) (absurd rfl)
  unfold cashKey
  rw [hother, Bool.false_and, if_neg Bool.false_ne_true]

/-- An injection writes one adjustment of the pair. -/
theorem inject_frame {s : Ledger} {entity_id : ℕ} {currency : Currency} {timestamp : Timestamp}
    (hplain : s.PlainInjection entity_id currency timestamp) (needed : ℚ) :
    Steady s (s.inject entity_id currency timestamp needed) ∧
    s.transactions.next ≤ (s.inject entity_id currency timestamp needed).transactions.next ∧
    (s.inject entity_id currency timestamp needed).links = s.links ∧
    (∀ e c day, (s.inject entity_id currency timestamp needed).daySpends e c day = s.daySpends e c day) ∧
    ∀ e c ex, e ≠ entity_id ∨ c ≠ currency →
      (s.inject entity_id currency timestamp needed).cashView e c ex = s.cashView e c ex := by
  have hpair : ∀ r : ℕ × Transaction, r.2.entityId = entity_id → r.2.currency = currency →
      r.2.paymentCurrency = none → inPair entity_id currency r = true := by
    intro r he hc hpay
    rw [inPair_iff, Transaction.cashPocket, hpay, Option.getD_none]
    exact ⟨he, hc⟩
  rcases s.inject_cases entity_id currency timestamp needed with ⟨r, hr, he⟩ | ⟨-, he⟩
  · obtain ⟨hm, hent, hcur, hinj, -⟩ := getInjectedAdjustmentAt_eq_some hr
    obtain ⟨hpay, hch⟩ := hplain r hr
    have htype := (isInjection_iff.mp hinj).1
    rw [he]
    refine ⟨.modify hch _, le_rfl, rfl, fun e c day => ?_, fun e c ex hne => ?_⟩
    · refine filter_modify_eq hm ?_ ?_
      · simp [htype, TransactionType.isSpend]
      · simp [withAmount, htype, TransactionType.isSpend]
    · refine s.transactions.filterMap_modify _ fun a ha => ?_
      obtain rfl := s.transactions.unique ha hm
      rw [cashKey_eq_none (hpair _ hent hcur hpay) hne]
      exact cashKey_eq_none (hpair (r.1, withAmount _ _ r.2) hent hcur hpay) hne ex
  · rw [he]
    refine ⟨.insert s _, Nat.le_succ _, rfl, fun e c day => ?_, fun e c ex hne => ?_⟩
    · unfold daySpends
      rw [insertTransaction_transactions]
      change List.filter _ (_ ++ [_]) = _
      rw [List.filter_append, List.filter_cons_of_neg, List.filter_nil, List.append_nil]
      simp [adjustmentRow, TransactionType.isSpend]
    · unfold cashView
      rw [insertTransaction_transactions]
      change List.filterMap _ (_ ++ [_]) = _
      rw [List.filterMap_append, List.filterMap_cons_none, List.filterMap_nil, List.append_nil]
      exact cashKey_eq_none (hpair _ rfl rfl rfl) hne ex

/-- The ledger after the spends of a day that are in `st`. -/
structure DayState (s₀ s : Ledger) (entity_id : ℕ) (currency : Currency) (day : ℤ)
    (st : TopUp.State Timestamp ℚ) : Prop where
  steady : Steady s₀ s
  next : s₀.transactions.next ≤ s.transactions.next
  cash : ∀ p, s.cashOver entity_id currency {} p = s₀.cashOver entity_id currency {} p +
    (if p (Time.endOfDay (day - 1)) then st.total else 0) -
      (st.recorded.map fun d => if p d.time then d.cost else 0).sum
  others : ∀ e c, e ≠ entity_id ∨ c ≠ currency → s.cashView e c {} = s₀.cashView e c {}
  injection : s.injectionFor entity_id currency day = none ∧ st.total = 0 ∧ st.linked = [] ∨
    0 < st.total ∧ ∃ k, s₀.transactions.next ≤ k ∧ s.injectionFor entity_id currency day =
      some (k, adjustmentRow entity_id currency st.total (Time.endOfDay (day - 1)) none injectionNotes)
  newer : ∀ r ∈ s.daySpends entity_id currency day, s₀.transactions.next ≤ r.1
  times : (s.daySpends entity_id currency day).map (fun r => r.2.timestamp) =
    st.recorded.reverse.map TopUp.Demand.time
  links : ∀ l, l ∈ s.links ↔ l ∈ s₀.links ∨ ∃ j r, s.injectionFor entity_id currency day = some j ∧
    r ∈ s.daySpends entity_id currency day ∧ r.2.timestamp ∈ st.linked.map TopUp.Demand.time ∧ l = ⟨j.1, r.1⟩

section Day

variable {s₀ s s' : Ledger} {entity_id : ℕ} {currency : Currency} {day : ℤ} {timestamp : Timestamp}
  {body : TransactionCreate} {st : TopUp.State Timestamp ℚ}

theorem DayState.start (h : s₀.FreshDay entity_id currency day) :
    DayState s₀ s₀ entity_id currency day TopUp.start := by
  have hnone : s₀.daySpends entity_id currency day = [] := by
    refine List.filter_eq_nil_iff.mpr fun r hr hspend => ?_
    simp only [Bool.and_eq_true, decide_eq_true_eq] at hspend
    exact h.spends r hr hspend.1.1 hspend.1.2 hspend.2
  constructor
  · exact .refl s₀
  · exact le_rfl
  · intro p
    simp [TopUp.start]
  · exact fun _ _ _ => rfl
  · exact .inl ⟨h.injection, rfl, rfl⟩
  · rw [hnone]
    exact fun r hr => absurd hr List.not_mem_nil
  · rw [hnone]
    rfl
  · intro l
    rw [hnone]
    simp

theorem DaySpend.injectionTs (h : DaySpend entity_id currency day body) :
    Time.injectionTs body.timestamp = Time.endOfDay (day - 1) := by
  unfold Time.injectionTs
  rw [h.day]

theorem DaySpend.after (h : DaySpend entity_id currency day body) :
    Time.endOfDay (day - 1) < body.timestamp := by
  rw [← h.injectionTs]
  exact Time.injectionTs_lt_self _

namespace DayState

theorem pairs (h : DayState s₀ s entity_id currency day st)
    (hfree : s₀.pairSnapshots entity_id currency = []) : s.pairSnapshots entity_id currency = [] := (h.steady.pairs _ _).trans hfree

/-- The balance at an instant of the day, as the bookkeeping of the pool has it. -/
theorem balance (h : DayState s₀ s entity_id currency day st)
    (hfree : s₀.pairSnapshots entity_id currency = []) {t : Timestamp} (ht : Time.endOfDay (day - 1) ≤ t) :
    s.pool entity_id currency t = s₀.pool entity_id currency t + st.total - TopUp.drawn st.recorded t := by
  unfold pool
  rw [balance_unanchored (h.pairs hfree), balance_unanchored hfree, h.cash, h.steady.charges.feesUpTo,
    if_pos (decide_eq_true ht)]
  simp only [decide_eq_true_eq]
  unfold TopUp.drawn
  ring

/-- A spend is short of what the demand lacks. -/
theorem shortfall (h : DayState s₀ s entity_id currency day st)
    (hfree : s₀.pairSnapshots entity_id currency = []) (hbody : DaySpend entity_id currency day body) :
    s.shortfall (body.resolved s₀) = TopUp.lack (s₀.pool entity_id currency) st (s₀.demand body) := by
  have hbalance := h.balance hfree hbody.after.le
  unfold pool at hbalance
  unfold Ledger.shortfall TopUp.lack demand
  rw [TransactionCreate.resolved_entityId, TransactionCreate.resolved_cashPocket,
    TransactionCreate.resolved_timestamp, hbody.entity, hbody.pocket, hbalance]
  cases hamount : (body.resolved s₀).spendAmount with
  | none => rfl
  | some cash_amount =>
    rw [TransactionCreate.cashOut_of_spendAmount hamount]
    rfl

theorem plainInjection (h : DayState s₀ s entity_id currency day st) :
    ∀ j, s.injectionFor entity_id currency day = some j → s.PlainRow j := by
  intro j hj
  rcases h.injection with ⟨hnone, -⟩ | ⟨-, k, hk, hsome⟩
  · cases hnone.symm.trans hj
  · obtain rfl := Option.some_inj.mp (hsome.symm.trans hj)
    refine ⟨rfl, fun hcharged => ?_⟩
    rw [h.steady.charges.charged_iff] at hcharged
    exact absurd hcharged.lt (not_lt.mpr hk)

/-- The injection that a short spend raises or opens. -/
theorem injectionFor_inject (h : DayState s₀ s entity_id currency day st) (hday : Time.dayOf timestamp = day)
    (needed : ℚ) : ∃ k, s₀.transactions.next ≤ k ∧
      (∀ j, s.injectionFor entity_id currency day = some j → j.1 = k) ∧
      (s.inject entity_id currency timestamp needed).injectionFor entity_id currency day =
        some (k, adjustmentRow entity_id currency (st.total + needed) (Time.endOfDay (day - 1)) none
          injectionNotes) := by
  have hts : Time.injectionTs timestamp = Time.endOfDay (day - 1) := by
    unfold Time.injectionTs
    rw [hday]
  have hcases := s.inject_cases entity_id currency timestamp needed
  rw [hts] at hcases
  rcases h.injection with ⟨hnone, htotal, -⟩ | ⟨-, k, hk, hsome⟩
  · rcases hcases with ⟨r, hr, -⟩ | ⟨-, he⟩
    · cases hnone.symm.trans hr
    · refine ⟨s.transactions.next, h.next, fun j hj => ?_, ?_⟩
      · cases hnone.symm.trans hj
      · unfold injectionFor at hnone ⊢
        rw [he, getInjectedAdjustmentAt_insert, hnone, htotal, zero_add]
        exact if_pos ⟨rfl, rfl, isInjection_iff.mpr ⟨rfl, rfl, likeInferredCash_injectionNotes⟩, rfl⟩
  · rcases hcases with ⟨r, hr, he⟩ | ⟨hr, -⟩
    · obtain rfl := Option.some_inj.mp (hsome.symm.trans hr)
      refine ⟨k, hk, fun j hj => ?_, ?_⟩
      · obtain rfl := Option.some_inj.mp (hsome.symm.trans hj)
        rfl
      · unfold injectionFor
        rw [he, getInjectedAdjustmentAt_raise _ hsome]
        rfl
    · cases hsome.symm.trans hr

/-- The check of a spend tops up the injection by what the demand lacks. -/
theorem cover (h : DayState s₀ s entity_id currency day st) (hfree : s₀.pairSnapshots entity_id currency = [])
    (hbody : DaySpend entity_id currency day body) :
    DayState s₀ (s.covered (body.resolved s₀)) entity_id currency day
      { st with total := st.total + TopUp.lack (s₀.pool entity_id currency) st (s₀.demand body) } := by
  have hshort := h.shortfall hfree hbody
  unfold covered
  rw [TransactionCreate.resolved_entityId, TransactionCreate.resolved_cashPocket,
    TransactionCreate.resolved_timestamp, hbody.entity, hbody.pocket, hshort]
  have hnonneg := TopUp.lack_nonneg (s₀.pool entity_id currency) st (s₀.demand body)
  generalize TopUp.lack (s₀.pool entity_id currency) st (s₀.demand body) = needed at hnonneg ⊢
  split_ifs with hpos
  swap
  · obtain rfl : needed = 0 := le_antisymm (not_lt.mp hpos) hnonneg
    rw [add_zero]
    exact h
  have hplain : s.PlainInjection entity_id currency body.timestamp := by
    intro r hr
    rw [hbody.injectionTs] at hr
    exact h.plainInjection r hr
  obtain ⟨hsteady, hnext, hlinks, hspends, hothers⟩ := inject_frame hplain needed
  have hmoved : CashMoved s _ entity_id currency {} body.timestamp _ := .inject hplain (fun _ _ => rfl) needed
  obtain ⟨k, hk, hkey, hinjection⟩ := h.injectionFor_inject hbody.day needed
  have htotal : 0 ≤ st.total := by
    rcases h.injection with ⟨-, htotal, -⟩ | ⟨htotal, -⟩
    · exact htotal.ge
    · exact htotal.le
  constructor
  · exact h.steady.trans hsteady
  · exact h.next.trans hnext
  · intro p
    rw [hmoved.cash, h.cash, hbody.injectionTs]
    dsimp only
    split_ifs <;> ring
  · exact fun e c hne => (hothers e c {} hne).trans (h.others e c hne)
  · exact .inr ⟨add_pos_of_nonneg_of_pos htotal hpos, k, hk, hinjection⟩
  · rw [hspends]
    exact h.newer
  · rw [hspends]
    exact h.times
  · intro l
    rw [hlinks, hspends, hinjection, h.links]
    refine or_congr_right ?_
    constructor
    · rintro ⟨j, r, hj, hr, ht, rfl⟩
      exact ⟨_, r, rfl, hr, ht, by rw [hkey j hj]⟩
    · rintro ⟨j, r, hj, hr, ht, rfl⟩
      obtain rfl := Option.some_inj.mp hj
      rcases h.injection with ⟨-, -, hlinked⟩ | ⟨-, k', -, hsome⟩
      · dsimp only at ht
        rw [hlinked] at ht
        exact absurd ht List.not_mem_nil
      · exact ⟨_, r, hsome, hr, ht, by rw [hkey _ hsome]⟩

/-- The row of a spend is stored and linked to the injection, if there is one. -/
theorem store (h : DayState s₀ s entity_id currency day st) (hbody : DaySpend entity_id currency day body)
    (hnew : body.timestamp ∉ st.recorded.map TopUp.Demand.time)
    (rule : Option String) (mode : Option BalanceMode) :
    DayState s₀ ((s.insertTransaction ((body.resolved s₀).toRow rule mode)).attach (body.resolved s₀)
      s.transactions.next) entity_id currency day
      ⟨s₀.demand body :: st.recorded, st.total,
        if 0 < st.total then s₀.demand body :: st.linked else st.linked⟩ := by
  have hspend : (body.resolved s₀).type.isSpend = true := by rw [TransactionCreate.resolved_type, hbody.spend]
  have hts : (body.resolved s₀).timestamp = body.timestamp := TransactionCreate.resolved_timestamp _ _
  have hent : (body.resolved s₀).entityId = entity_id := by
    rw [TransactionCreate.resolved_entityId, hbody.entity]
  have hpocket : (body.resolved s₀).cashPocket = currency := by
    rw [TransactionCreate.resolved_cashPocket, hbody.pocket]
  have hinsert : CashMoved s (s.insertTransaction ((body.resolved s₀).toRow rule mode)) _ _ {}
      (body.resolved s₀).timestamp _ := .insert_spend (fun _ _ => rfl) hspend (.inr le_rfl)
  have hmoved := hinsert.trans (.attach _ (body.resolved s₀) s.transactions.next)
  rw [hent, hpocket, hts] at hmoved
  -- The row by what is looked up in it.
  have hrow : inPair entity_id currency (s.transactions.next, (body.resolved s₀).toRow rule mode) = true :=
    inPair_iff.mpr ⟨hent, hpocket⟩
  have hrowSpend : ((body.resolved s₀).toRow rule mode).type.isSpend = true := hspend
  have hrowTs : ((body.resolved s₀).toRow rule mode).timestamp = body.timestamp := hts
  have htx := attach_transactions (s.insertTransaction ((body.resolved s₀).toRow rule mode))
    (body.resolved s₀) s.transactions.next
  have hattach := Steady.attach (s.insertTransaction ((body.resolved s₀).toRow rule mode))
    (body.resolved s₀) s.transactions.next
  have hlinks := fun l => mem_links_attach (s := s.insertTransaction ((body.resolved s₀).toRow rule mode))
    hspend (Nat.lt_succ_self s.transactions.next) (l := l)
  rw [hent, hpocket, hts, hbody.injectionTs] at hlinks
  generalize (body.resolved s₀).toRow rule mode = row at hmoved hrow hrowSpend hrowTs htx hattach hlinks ⊢
  generalize (s.insertTransaction row).attach (body.resolved s₀) s.transactions.next = s'
    at hmoved htx hattach hlinks ⊢
  have hspends : s'.daySpends entity_id currency day =
      s.daySpends entity_id currency day ++ [(s.transactions.next, row)] := by
    unfold daySpends
    rw [htx]
    change List.filter _ (_ ++ [_]) = _
    rw [List.filter_append, List.filter_cons_of_pos, List.filter_nil]
    simp [hrow, hrowSpend, hrowTs, hbody.day]
  have hinjection : ∀ t, (s.insertTransaction row).getInjectedAdjustmentAt entity_id currency t =
      s.getInjectedAdjustmentAt entity_id currency t := getInjectedAdjustmentAt_insert_spend hrowSpend _ _
  have hfor : s'.injectionFor entity_id currency day = s.injectionFor entity_id currency day := by
    unfold injectionFor
    rw [← hinjection]
    unfold getInjectedAdjustmentAt
    rw [htx]
  constructor
  · exact h.steady.trans ((Steady.insert s row).trans hattach)
  · rw [htx]
    exact h.next.trans (Nat.le_succ _)
  · intro p
    rw [hmoved.cash, h.cash, List.map_cons, List.sum_cons]
    change _ + ((if p body.timestamp then -(body.resolved s₀).cashOut else 0) + 0) =
      _ - ((if p body.timestamp then (body.resolved s₀).cashOut else 0) + _)
    split_ifs <;> ring
  · intro e c hne
    rw [← h.others e c hne]
    unfold cashView
    rw [htx]
    change List.filterMap _ (_ ++ [_]) = _
    rw [List.filterMap_append, List.filterMap_cons_none (cashKey_eq_none hrow hne {}), List.filterMap_nil,
      List.append_nil]
  · rw [hfor]
    rcases h.injection with ⟨hnone, hzero, hlinked⟩ | hsome
    · exact .inl ⟨hnone, hzero, by rw [hzero, if_neg (lt_irrefl _), hlinked]⟩
    · exact .inr hsome
  · rw [hspends]
    intro r hr
    rcases List.mem_append.mp hr with hr | hr
    · exact h.newer r hr
    · rw [List.mem_singleton.mp hr]
      exact h.next
  · rw [hspends, List.map_append, h.times, List.reverse_cons, List.map_append]
    exact congrArg _ (congrArg (fun t => [t]) hrowTs)
  · intro l
    have hold : ∀ r ∈ s.daySpends entity_id currency day, r.2.timestamp ≠ body.timestamp := by
      intro r hr heq
      have hmem := List.mem_map_of_mem (f := fun r => r.2.timestamp) hr
      rw [h.times, List.map_reverse, List.mem_reverse, heq] at hmem
      exact hnew hmem
    rw [hlinks, hfor, hspends, hinjection]
    change (l ∈ s.links ∨ ∃ f, s.injectionFor entity_id currency day = some f ∧ _) ↔ _
    rw [h.links]
    rcases h.injection with ⟨hnone, -, -⟩ | ⟨hpos, k, -, hsome⟩
    · simp [hnone]
    · rw [hsome, if_pos hpos, List.map_cons, or_assoc]
      refine or_congr_right ?_
      constructor
      · rintro (⟨j, r, hj, hr, ht, rfl⟩ | ⟨j, hj, rfl⟩)
        · exact ⟨j, r, hj, List.mem_append.mpr (.inl hr), List.mem_cons_of_mem _ ht, rfl⟩
        · refine ⟨j, _, hj, List.mem_append.mpr (.inr List.mem_cons_self), ?_, rfl⟩
          rw [hrowTs]
          exact List.mem_cons_self
      · rintro ⟨j, r, hj, hr, ht, rfl⟩
        rcases List.mem_append.mp hr with hr | hr
        · exact .inl ⟨j, r, hj, hr, (List.mem_cons.mp ht).resolve_left (hold r hr), rfl⟩
        · rw [List.mem_singleton.mp hr]
          exact .inr ⟨j, hj, rfl⟩

/-- Whether a spend is recorded does not depend on those recorded before. -/
theorem create_iff (h : DayState s₀ s entity_id currency day st)
    (hfree : s₀.pairSnapshots entity_id currency = []) (hbody : DaySpend entity_id currency day body) :
    (s.createTransaction body).map Prod.snd = .ok s' ↔
      s₀.Recordable body ∧ s' = s.spent (body.resolved s₀) := by
  have hpair : s.pairSnapshots body.entityId body.cashPocket = [] := by
    rw [hbody.entity, hbody.pocket]
    exact h.pairs hfree
  rw [createTransaction_unanchored hbody.spend hbody.auto hpair, h.steady.resolved, h.steady.recordable]

/-- A recorded spend takes the ledger one step along. -/
theorem spent (h : DayState s₀ s entity_id currency day st) (hfree : s₀.pairSnapshots entity_id currency = [])
    (hbody : DaySpend entity_id currency day body)
    (hnew : body.timestamp ∉ st.recorded.map TopUp.Demand.time) :
    DayState s₀ (s.spent (body.resolved s₀)) entity_id currency day
      (TopUp.record (s₀.pool entity_id currency) st (s₀.demand body)) :=
  (h.cover hfree hbody).store hbody hnew _ _

/-- A list of spends takes the ledger along the run of their demands. -/
theorem recordAll {bodies : List TransactionCreate} (h : DayState s₀ s entity_id currency day st)
    (hfree : s₀.pairSnapshots entity_id currency = [])
    (hbodies : ∀ body ∈ bodies, DaySpend entity_id currency day body)
    (hdistinct : (bodies.map TransactionCreate.timestamp).Nodup)
    (hnew : ∀ body ∈ bodies, body.timestamp ∉ st.recorded.map TopUp.Demand.time) :
    ((∃ s', s.recordAll bodies = .ok s') ↔ ∀ body ∈ bodies, s₀.Recordable body) ∧
    ∀ s', s.recordAll bodies = .ok s' → DayState s₀ s' entity_id currency day
      ((bodies.map s₀.demand).foldl (TopUp.record (s₀.pool entity_id currency)) st) := by
  induction bodies generalizing s st with
  | nil =>
    refine ⟨iff_of_true ⟨s, rfl⟩ (List.forall_mem_nil _), fun s' hs' => ?_⟩
    obtain rfl := Except.ok.inj hs'
    exact h
  | cons body bodies ih =>
    obtain ⟨hbody, hbodies⟩ := List.forall_mem_cons.mp hbodies
    obtain ⟨hfirst, hnew⟩ := List.forall_mem_cons.mp hnew
    rw [List.map_cons, List.nodup_cons] at hdistinct
    obtain ⟨hout, hdistinct⟩ := hdistinct
    have hrest : ∀ b ∈ bodies, b.timestamp ∉ (s₀.demand body :: st.recorded).map TopUp.Demand.time := by
      intro b hb hmem
      rcases List.mem_cons.mp hmem with heq | hmem
      · exact hout (List.mem_map.mpr ⟨b, hb, heq⟩)
      · exact hnew b hb hmem
    obtain ⟨hex, hstate⟩ := ih (h.spent hfree hbody hfirst) hbodies hdistinct hrest
    have hcons : ∀ s', s.recordAll (body :: bodies) = .ok s' ↔
        s₀.Recordable body ∧ (s.spent (body.resolved s₀)).recordAll bodies = .ok s' := by
      intro s'
      unfold Ledger.recordAll
      rw [List.foldlM_cons, Runs.bind_eq_ok]
      constructor
      · rintro ⟨s₁, h₁, h₂⟩
        obtain ⟨hrecordable, rfl⟩ := (h.create_iff hfree hbody).mp h₁
        exact ⟨hrecordable, h₂⟩
      · rintro ⟨hrecordable, h₂⟩
        exact ⟨_, (h.create_iff hfree hbody).mpr ⟨hrecordable, rfl⟩, h₂⟩
    constructor
    · rw [List.forall_mem_cons, ← hex]
      simp only [hcons, exists_and_left]
    · intro s' hs'
      exact hstate s' ((hcons s').mp hs').2

/-! ## What is seen of the day -/

theorem injectedFor (h : DayState s₀ s entity_id currency day st) :
    s.injectedFor entity_id currency day = st.total := by
  unfold Ledger.injectedFor
  rcases h.injection with ⟨hnone, hzero, -⟩ | ⟨-, k, -, hsome⟩
  · rw [hnone, hzero]
    rfl
  · rw [hsome]
    rfl

/-- The spends that are linked are linked to the injection. -/
theorem linkedTo_iff (h : DayState s₀ s entity_id currency day st)
    (hsub : ∀ d ∈ st.linked, d ∈ st.recorded) {row : Transaction} :
    s.LinkedTo entity_id currency day timestamp row ↔ timestamp ∈ st.linked.map TopUp.Demand.time ∧
      row = adjustmentRow entity_id currency st.total (Time.endOfDay (day - 1)) none injectionNotes := by
  constructor
  · rintro ⟨r, hr, rfl, a, ha, hlink⟩
    rcases (h.links _).mp hlink with hold | ⟨j, r', hj, hr', ht, heq⟩
    · exact absurd (s₀.links_lt _ hold).2 (not_lt.mpr (h.newer r hr))
    · obtain ⟨rfl, hid⟩ := Link.mk.inj heq
      have hrow := (List.mem_filter.mp hr).1
      have hrow' := (List.mem_filter.mp hr').1
      have hsame : r.2 = r'.2 := s.transactions.unique (hid ▸ hrow) hrow'
      rw [hsame]
      refine ⟨ht, ?_⟩
      rcases h.injection with ⟨hnone, -⟩ | ⟨-, k, -, hsome⟩
      · cases hnone.symm.trans hj
      · obtain rfl := Option.some_inj.mp (hsome.symm.trans hj)
        exact s.transactions.unique ha (getInjectedAdjustmentAt_eq_some hsome).1
  · rintro ⟨ht, rfl⟩
    rcases h.injection with ⟨-, -, hlinked⟩ | ⟨-, k, -, hsome⟩
    · rw [hlinked] at ht
      exact absurd ht List.not_mem_nil
    · have hrecorded : timestamp ∈ (s.daySpends entity_id currency day).map fun r => r.2.timestamp := by
        obtain ⟨d, hd, rfl⟩ := List.mem_map.mp ht
        rw [h.times]
        exact List.mem_map_of_mem (List.mem_reverse.mpr (hsub d hd))
      obtain ⟨r, hr, rfl⟩ := List.mem_map.mp hrecorded
      exact ⟨r, hr, rfl, k, (getInjectedAdjustmentAt_eq_some hsome).1,
        (h.links _).mpr (.inr ⟨_, r, hsome, hr, ht, rfl⟩)⟩

/-- The links of other rows are those of before. -/
theorem otherLinks_iff (h : DayState s₀ s entity_id currency day st) (l : Link) :
    l ∈ s.links ∧ (∀ r ∈ s.daySpends entity_id currency day, r.1 ≠ l.linkedTransactionId) ↔ l ∈ s₀.links := by
  rw [h.links]
  constructor
  · rintro ⟨hold | ⟨j, r, -, hr, -, rfl⟩, hother⟩
    · exact hold
    · exact absurd rfl (hother r hr)
  · intro hold
    refine ⟨.inl hold, fun r hr heq => ?_⟩
    exact absurd (s₀.links_lt _ hold).2 (not_lt.mpr (heq ▸ h.newer r hr))

/-- Two orders with one total leave the same balances. -/
theorem getBalanceAtDate {st' : TopUp.State Timestamp ℚ} (h : DayState s₀ s entity_id currency day st)
    (h' : DayState s₀ s' entity_id currency day st') (hfree : s₀.pairSnapshots entity_id currency = [])
    (htotal : st'.total = st.total) (hrecorded : st'.recorded.Perm st.recorded) (e : ℕ) (c : Currency)
    (t : Timestamp) : s'.getBalanceAtDate e c t = s.getBalanceAtDate e c t := by
  by_cases hpair : e = entity_id ∧ c = currency
  · obtain ⟨rfl, rfl⟩ := hpair
    have hcash : ∀ p, s'.cashOver e c {} p = s.cashOver e c {} p := by
      intro p
      rw [h'.cash, h.cash, htotal]
      exact congrArg _ (List.Perm.sum_eq (hrecorded.map _))
    have hread : ∀ s : Ledger, s.pairSnapshots e c = [] →
        (s.Readable e c t {} ↔ s.FeesReadable e c none t) := by
      intro s hs
      refine ⟨fun hr => hr.fees, fun hfees => ⟨hfees, fun snapshot hsnapshot => ?_⟩⟩
      rw [getPreviousSnapshot_eq_none hs] at hsnapshot
      cases hsnapshot
    refine Option.ext fun x => ?_
    rw [getBalanceAtDate_eq_some_iff, getBalanceAtDate_eq_some_iff, hread _ (h'.pairs hfree),
      hread _ (h.pairs hfree), h'.steady.charges.feesReadable, h.steady.charges.feesReadable,
      balance_unanchored (h'.pairs hfree), balance_unanchored (h.pairs hfree), hcash,
      h'.steady.charges.feesUpTo, h.steady.charges.feesUpTo]
  · have hne : e ≠ entity_id ∨ c ≠ currency := not_and_or.mp hpair
    have hbefore : ∀ s st, DayState s₀ s entity_id currency day st →
        s.getBalanceAtDate e c t = s₀.getBalanceAtDate e c t := fun s st hs =>
      getBalanceAtDate_congr hs.steady.charges (hs.steady.pairs e c) (hs.others e c hne) true
    rw [hbefore s' st' h', hbefore s st h]

end DayState

end Day

/-! ## Orders of a day -/

/-- Two ledgers after the same day: one total, the same links and the same balances. The ids of the day's
rows are those of their order. -/
structure SameDay (s₁ s₂ : Ledger) (entity_id : ℕ) (currency : Currency) (day : ℤ) : Prop where
  injected : s₁.injectedFor entity_id currency day = s₂.injectedFor entity_id currency day
  linked : ∀ t row, s₁.LinkedTo entity_id currency day t row ↔ s₂.LinkedTo entity_id currency day t row
  links : ∀ l, l ∈ s₁.links ∧ (∀ r ∈ s₁.daySpends entity_id currency day, r.1 ≠ l.linkedTransactionId) ↔
    l ∈ s₂.links ∧ ∀ r ∈ s₂.daySpends entity_id currency day, r.1 ≠ l.linkedTransactionId
  balances : ∀ e c t, s₁.getBalanceAtDate e c t = s₂.getBalanceAtDate e c t

/-- What the injection has to hold so that the balance after no spend of the day is negative. -/
def funding (s : Ledger) (entity_id : ℕ) (currency : Currency) (day : ℤ) : Set ℚ :=
  {x | 0 ≤ x ∧ ∀ r ∈ s.daySpends entity_id currency day,
    0 ≤ s.pool entity_id currency r.2.timestamp - s.injectedFor entity_id currency day + x}

/-- Every order of the spends is recorded, to the same day, with the least injection that funds it. -/
structure OrderFree (s : Ledger) (entity_id : ℕ) (currency : Currency) (day : ℤ)
    (bodies : List TransactionCreate) : Prop where
  recorded : ∀ l : List TransactionCreate, l.Perm bodies → ∃ s', s.recordAll l = .ok s'
  least : ∀ l : List TransactionCreate, l.Perm bodies → ∀ s', s.recordAll l = .ok s' →
    IsLeast (s'.funding entity_id currency day) (s'.injectedFor entity_id currency day)
  same : ∀ l₁ : List TransactionCreate, l₁.Perm bodies → ∀ l₂ : List TransactionCreate, l₂.Perm bodies →
    ∀ s₁ s₂, s.recordAll l₁ = .ok s₁ → s.recordAll l₂ = .ok s₂ → SameDay s₁ s₂ entity_id currency day

section Order

variable {s s' : Ledger} {entity_id : ℕ} {currency : Currency} {day : ℤ} {bodies : List TransactionCreate}

/-- The ledger after one order of the spends. -/
theorem FreshDay.recordAll (h : s.FreshDay entity_id currency day)
    (hbodies : ∀ body ∈ bodies, DaySpend entity_id currency day body)
    (hdistinct : (bodies.map TransactionCreate.timestamp).Nodup) {l : List TransactionCreate}
    (hl : l.Perm bodies) : ((∃ s', s.recordAll l = .ok s') ↔ ∀ body ∈ bodies, s.Recordable body) ∧
      ∀ s', s.recordAll l = .ok s' → DayState s s' entity_id currency day
        (TopUp.run (s.pool entity_id currency) (l.map s.demand)) := by
  have hrun := (DayState.start h).recordAll h.unanchored (fun body hb => hbodies body (hl.mem_iff.mp hb))
    ((hl.map _).nodup_iff.mpr hdistinct) fun _ _ => List.not_mem_nil
  refine ⟨hrun.1.trans ?_, hrun.2⟩
  exact forall_congr' fun body => imp_congr_left hl.mem_iff

/-- An injection funds the day when it covers all deficits. -/
theorem mem_funding_iff {l : List TransactionCreate} (hl : l.Perm bodies)
    (h : DayState s s' entity_id currency day (TopUp.run (s.pool entity_id currency) (l.map s.demand)))
    (hfree : s.pairSnapshots entity_id currency = [])
    (hbodies : ∀ body ∈ bodies, DaySpend entity_id currency day body)
    (hdistinct : (bodies.map TransactionCreate.timestamp).Nodup) {x : ℚ} :
    x ∈ s'.funding entity_id currency day ↔ 0 ≤ x ∧ ∀ d ∈ bodies.map s.demand,
      TopUp.deficit (s.pool entity_id currency) d (TopUp.before id (bodies.map s.demand) d.time) ≤ x := by
  have hperm : (TopUp.run (s.pool entity_id currency) (l.map s.demand)).recorded.Perm
      (bodies.map s.demand) := by
    rw [TopUp.run_recorded]
    exact (List.reverse_perm _).trans (hl.map _)
  have htimes : (s'.daySpends entity_id currency day).map (fun r => r.2.timestamp) =
      (l.map s.demand).map TopUp.Demand.time := by
    rw [h.times, TopUp.run_recorded, List.reverse_reverse]
  have hdemands : ((bodies.map s.demand).map TopUp.Demand.time).Nodup := by
    rw [List.map_map]
    exact hdistinct
  -- What the balance after a spend lacks of `x` is the deficit of its demand.
  have hdeficit : ∀ d ∈ bodies.map s.demand,
      (0 ≤ s'.pool entity_id currency d.time - s'.injectedFor entity_id currency day + x ↔
        TopUp.deficit (s.pool entity_id currency) d (TopUp.before id (bodies.map s.demand) d.time) ≤ x) := by
    intro d hd
    obtain ⟨body, hbody, rfl⟩ := List.mem_map.mp hd
    have hafter : Time.endOfDay (day - 1) ≤ (s.demand body).time := (hbodies body hbody).after.le
    rw [h.balance hfree hafter, h.injectedFor, TopUp.drawn_perm hperm, TopUp.drawn_of_mem hdemands hd]
    unfold TopUp.deficit
    constructor
    · intro hle
      linarith
    · intro hle
      linarith
  have hall : (∀ r ∈ s'.daySpends entity_id currency day,
      0 ≤ s'.pool entity_id currency r.2.timestamp - s'.injectedFor entity_id currency day + x) ↔
      ∀ t ∈ (s'.daySpends entity_id currency day).map (fun r => r.2.timestamp),
        0 ≤ s'.pool entity_id currency t - s'.injectedFor entity_id currency day + x := by
    rw [List.forall_mem_map]
  refine and_congr_right fun _ => hall.trans ?_
  rw [htimes, List.forall_mem_map]
  exact forall_congr' fun d => (imp_congr_left (hl.map s.demand).mem_iff).trans (imp_congr_right (hdeficit d))

/-- An order of the demands is one of the spends. -/
theorem exists_order {f : TransactionCreate → TopUp.Demand Timestamp ℚ} {l : List (TopUp.Demand Timestamp ℚ)}
    (h : l.Perm (bodies.map f)) : ∃ l' : List TransactionCreate, l'.Perm bodies ∧ l = l'.map f := by
  have hforall : List.Forall₂ (fun d body => d = f body) (bodies.map f) bodies := by
    rw [List.forall₂_map_left_iff]
    exact List.forall₂_same.mpr fun _ _ => rfl
  obtain ⟨l', hl', hperm⟩ := List.perm_comp_forall₂ h hforall
  refine ⟨l', hperm, ?_⟩
  clear h hforall hperm
  induction hl' with
  | nil => rfl
  | cons hd _ ih => rw [hd, ih, List.map_cons]

end Order

end Ledger

namespace Sample

theorem spendOnDay10_daySpend (amount : ℚ) {hour : ℤ} (h : 0 ≤ hour) (h' : hour < 24) :
    Ledger.DaySpend 0 usd 10 (spendOnDay10 amount hour) where
  spend := rfl
  entity := rfl
  pocket := rfl
  day := by
    simp only [spendOnDay10, at_, Time.dayOf, Time.startOfDay, Time.ticksPerDay, Time.ticksPerSecond]
    omega
  auto := rfl

theorem profile_freshDay : profile.FreshDay 0 usd 10 := ⟨rfl, fun _ hr => absurd hr List.not_mem_nil, rfl⟩

end Sample

end FinHub
