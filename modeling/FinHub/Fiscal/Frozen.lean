import FinHub.Analytics.PnlRules
import FinHub.Fiscal.RuleOfDate
import FinHub.Recording.Passes
import FinHub.Tax.ReportItems

/-!
# FinHub.Fiscal.Frozen

Which fiscal rule a tax report lists a recorded transaction under, while periods, the profile default and
other transactions change.

A sale keeps the rule it was recorded under. A dividend stores none: its rule is looked up by each report,
in the periods of the day, on the date that midnight UTC of its date is in the profile's timezone, and
without the profile default. `reports_of_run` says what a run of steps keeps of both.
-/

namespace FinHub

open Tabular

/-! ## Recording -/

/-- What a recording of another transaction leaves: the rows but those of adjustments, and what the rules
are resolved from. -/
structure Ledger.Retains (s s' : Ledger) : Prop where
  rows : ∀ id t, (id, t) ∈ s.transactions.rows → t.type ≠ .balanceAdjustment →
    (id, t) ∈ s'.transactions.rows
  entities : s'.entities = s.entities
  fiscalPeriods : s'.fiscalPeriods = s.fiscalPeriods
  defaultFiscalRule : s'.defaultFiscalRule = s.defaultFiscalRule
  timezone : s'.timezone = s.timezone

namespace Ledger

variable {s s' s'' : Ledger}

theorem Retains.refl (s : Ledger) : Retains s s := ⟨fun _ _ h _ => h, rfl, rfl, rfl, rfl⟩

theorem Retains.trans (h : Retains s s') (h' : Retains s' s'') : Retains s s'' where
  rows id t hr ht := h'.rows id t (h.rows id t hr ht) ht
  entities := h'.entities.trans h.entities
  fiscalPeriods := h'.fiscalPeriods.trans h.fiscalPeriods
  defaultFiscalRule := h'.defaultFiscalRule.trans h.defaultFiscalRule
  timezone := h'.timezone.trans h.timezone

theorem Retains.ruleOn (h : Retains s s') (d : ℤ) : s'.ruleOn d = s.ruleOn d := by
  simp only [Ledger.ruleOn, Ledger.periodOn, h.fiscalPeriods]

theorem Retains.prescribedRule (h : Retains s s') (d : ℤ) : s'.prescribedRule d = s.prescribedRule d := by
  simp only [Ledger.prescribedRule, h.ruleOn, h.defaultFiscalRule]

theorem retains_insertTransaction (t : Transaction) : Retains s (s.insertTransaction t) where
  rows _ _ hr _ := Table.mem_insert.mpr (.inl hr)
  entities := rfl
  fiscalPeriods := rfl
  defaultFiscalRule := rfl
  timezone := rfl

theorem retains_modifyTransaction {k : ℕ} {a : Transaction} (f : Transaction → Transaction)
    (hk : (k, a) ∈ s.transactions.rows) (ha : a.type = .balanceAdjustment) :
    Retains s (s.modifyTransaction k f) where
  rows id t hr ht := by
    refine Table.mem_modify.mpr (.inl ⟨fun hid => ht ?_, hr⟩)
    subst hid
    rw [s.transactions.unique hr hk, ha]
  entities := rfl
  fiscalPeriods := rfl
  defaultFiscalRule := rfl
  timezone := rfl

theorem retains_linkAdjustmentToTransaction (a t : ℕ) :
    Retains s (s.linkAdjustmentToTransaction a t) := by
  unfold linkAdjustmentToTransaction
  split_ifs
  · exact .refl s
  · exact ⟨fun _ _ h _ => h, rfl, rfl, rfl, rfl⟩
  · exact .refl s

theorem retains_setSnapshotAdjustment (entity_id : ℕ) (currency : Currency) (snapshot_id : ℕ)
    (timestamp : Timestamp) (amount : ℚ) :
    Retains s (s.setSnapshotAdjustment entity_id currency snapshot_id timestamp amount) := by
  rcases setSnapshotAdjustment_cases s entity_id currency snapshot_id timestamp amount with
    ⟨r, hr, he⟩ | ⟨_, he⟩
  · rw [he]
    obtain ⟨hmem, _, _, htype, _⟩ := getAdjustmentTransaction_eq_some hr
    exact retains_modifyTransaction _ hmem htype
  · rw [he]
    exact retains_insertTransaction _

theorem retains_recalculateAdjustments {entity_id : ℕ} {currency : Currency} {timestamp : Timestamp}
    (h : s.recalculateAdjustments entity_id currency timestamp = .ok s') : Retains s s' := by
  rcases recalculateAdjustments_cases h with ⟨_, rfl⟩ | ⟨next, expected, _, _, rfl⟩
  · exact .refl _
  · exact retains_setSnapshotAdjustment _ _ _ _ _

theorem retains_inject (entity_id : ℕ) (currency : Currency) (timestamp : Timestamp) (needed : ℚ) :
    Retains s (s.inject entity_id currency timestamp needed) := by
  rcases inject_cases s entity_id currency timestamp needed with ⟨r, hr, he⟩ | ⟨_, he⟩
  · rw [he]
    obtain ⟨hmem, _, _, hinjection, _⟩ := getInjectedAdjustmentAt_eq_some hr
    exact retains_modifyTransaction _ hmem (isInjection_iff.mp hinjection).1
  · rw [he]
    exact retains_insertTransaction _

theorem retains_ensureCash {body : TransactionCreate} {mode : Option BalanceMode} {ex : Option ℕ}
    (h : s.ensureCash body mode ex = .ok s') : Retains s s' := by
  rcases ensureCash_cases h with rfl | ⟨_, needed, _, _, _, rfl⟩
  · exact .refl _
  · exact retains_inject _ _ _ _

theorem retains_attach (body : TransactionCreate) (tx_id : ℕ) : Retains s (s.attach body tx_id) := by
  unfold attach
  split_ifs
  · rcases linkInjection_cases s body.entityId body.cashPocket body.timestamp tx_id with
      ⟨r, _, he⟩ | ⟨_, he⟩
    · rw [he]
      exact retains_linkAdjustmentToTransaction _ _
    · rw [he]
      exact .refl s
  · exact .refl s

theorem retains_recalculateFor {body : TransactionCreate} (h : s.recalculateFor body = .ok s') :
    Retains s s' := by
  unfold recalculateFor at h
  split_ifs at h
  · cases h
    exact .refl _
  · exact retains_recalculateAdjustments h

/-- A recording retains the rows, and stores its own with the rule of its moment. -/
theorem retains_createTransaction {body : TransactionCreate} {resp : TransactionResponse}
    (h : s.createTransaction body = .ok (resp, s')) :
    Retains s s' ∧
      resp.row = (body.resolved s).toRow (s.fiscalRuleFor body.type body.timestamp) body.cashHandling ∧
      (body.type ≠ .balanceAdjustment → (resp.id, resp.row) ∈ s'.transactions.rows) := by
  obtain ⟨s₁, hcash, hid, hrow, hlast⟩ := createTransaction_cases h
  have h₁ : Retains s s₁ := retains_ensureCash hcash
  have h₂ : Retains s₁ (s₁.insertTransaction resp.row) := retains_insertTransaction _
  have h₃ : Retains (s₁.insertTransaction resp.row) s' :=
    (retains_attach _ _).trans (retains_recalculateFor hlast)
  have hrule : s₁.fiscalRuleFor body.type body.timestamp = s.fiscalRuleFor body.type body.timestamp := by
    simp only [fiscalRuleFor, resolveFiscalRule, getFiscalPeriodAt, h₁.fiscalPeriods, h₁.timezone,
      h₁.defaultFiscalRule]
  have hresp : resp.row =
      (body.resolved s).toRow (s.fiscalRuleFor body.type body.timestamp) body.cashHandling := by
    rw [hrow, TransactionCreate.resolved_type, TransactionCreate.resolved_timestamp,
      TransactionCreate.resolved_cashHandling, hrule]
  refine ⟨h₁.trans (h₂.trans h₃), hresp, fun htype => h₃.rows _ _ ?_ ?_⟩
  · rw [hid]
    exact Table.mem_insert.mpr (.inr rfl)
  · rw [hresp]
    simpa [TransactionCreate.toRow] using htype

end Ledger

/-! ## Runs -/

/-- The periods of all profiles beside the ledger of one of them. -/
structure FiscalState where
  profileId : ℕ
  periods : FiscalPeriods
  disjoint : NoShared periods
  ledger : Ledger
  periods_eq : ledger.fiscalPeriods = periodsOf periods profileId

inductive FiscalStep where
  | period (req : PeriodRequest)
  | setDefaultFiscalRule (rule : Option String)
  | record (body : TransactionCreate)

namespace FiscalState

def callPeriod (st : FiscalState) (req : PeriodRequest) : FiscalState where
  profileId := st.profileId
  periods := (req.call st.periods).1
  disjoint := PeriodRequest.noShared_call st.disjoint
  ledger := { st.ledger with fiscalPeriods := periodsOf (req.call st.periods).1 st.profileId }
  periods_eq := rfl

def setDefaultFiscalRule (st : FiscalState) (rule : Option String) : FiscalState where
  __ := st
  ledger := { st.ledger with defaultFiscalRule := rule }
  periods_eq := st.periods_eq

/-- A recording; one that raises leaves the state. -/
def record (st : FiscalState) (body : TransactionCreate) : FiscalState :=
  match h : st.ledger.createTransaction body with
  | .ok (_, l) =>
    { st with
      ledger := l
      periods_eq := (Ledger.retains_createTransaction h).1.fiscalPeriods.trans st.periods_eq }
  | .error _ => st

def step (st : FiscalState) : FiscalStep → FiscalState
  | .period req => st.callPeriod req
  | .setDefaultFiscalRule rule => st.setDefaultFiscalRule rule
  | .record body => st.record body

def run (st : FiscalState) (steps : List FiscalStep) : FiscalState := steps.foldl step st

/-- A step that keeps the rule of a date. -/
def Keeps (d : ℤ) (st : FiscalState) : FiscalStep → Prop
  | .period req => req.Keeps st.periods st.profileId d
  | .setDefaultFiscalRule _ | .record _ => True

/-- Every step of the list keeps the rule in the state it meets. -/
def AllKeep (d : ℤ) : FiscalState → List FiscalStep → Prop
  | _, [] => True
  | st, x :: xs => st.Keeps d x ∧ AllKeep d (st.step x) xs

variable {st : FiscalState} {d : ℤ}

theorem ledger_record {body : TransactionCreate} {resp : TransactionResponse} {l : Ledger}
    (h : st.ledger.createTransaction body = .ok (resp, l)) : (st.record body).ledger = l := by
  unfold record
  split
  · rename_i heq
    rw [h] at heq
    cases heq
    rfl
  · rename_i heq
    rw [h] at heq
    cases heq

theorem retains_record (body : TransactionCreate) : st.ledger.Retains (st.record body).ledger := by
  cases h : st.ledger.createTransaction body with
  | ok r =>
    rw [ledger_record h]
    exact (Ledger.retains_createTransaction h).1
  | error e =>
    unfold record
    split
    · rename_i heq
      rw [h] at heq
      cases heq
    · exact .refl _

/-- No step touches the row of a recorded transaction that is no adjustment. -/
theorem mem_step {id : ℕ} {t : Transaction} (h : (id, t) ∈ st.ledger.transactions.rows)
    (ht : t.type ≠ .balanceAdjustment) (x : FiscalStep) :
    (id, t) ∈ (st.step x).ledger.transactions.rows := by
  cases x with
  | period req => exact h
  | setDefaultFiscalRule rule => exact h
  | record body => exact (retains_record body).rows id t h ht

theorem timezone_step (x : FiscalStep) : (st.step x).ledger.timezone = st.ledger.timezone := by
  cases x with
  | period req => rfl
  | setDefaultFiscalRule rule => rfl
  | record body => exact (retains_record body).timezone

theorem entities_step (x : FiscalStep) : (st.step x).ledger.entities = st.ledger.entities := by
  cases x with
  | period req => rfl
  | setDefaultFiscalRule rule => rfl
  | record body => exact (retains_record body).entities

/-- The rule of a date stays exactly over the steps that keep it. -/
theorem ruleOn_step_iff (x : FiscalStep) :
    (st.step x).ledger.ruleOn d = st.ledger.ruleOn d ↔ st.Keeps d x := by
  cases x with
  | period req =>
    obtain ⟨k', hk', hiff⟩ := exists_keyOf_call st.disjoint req (keyOf_ruleOn st.periods_eq d)
    have hkey : ((st.callPeriod req).ledger.ruleOn d).getD "" = k' :=
      (keyOf_ruleOn (st.callPeriod req).periods_eq d).unique (st.callPeriod req).disjoint hk'
    rw [Ledger.ruleOn_eq_iff]
    simp only [step, Keeps, hkey, hiff]
  | setDefaultFiscalRule rule => exact iff_of_true rfl trivial
  | record body => exact iff_of_true ((retains_record body).ruleOn d) trivial

theorem mem_run {id : ℕ} {t : Transaction} (h : (id, t) ∈ st.ledger.transactions.rows)
    (ht : t.type ≠ .balanceAdjustment) (steps : List FiscalStep) :
    (id, t) ∈ (st.run steps).ledger.transactions.rows := by
  induction steps generalizing st with
  | nil => exact h
  | cons x xs ih => exact ih (mem_step h ht x)

theorem timezone_run (steps : List FiscalStep) :
    (st.run steps).ledger.timezone = st.ledger.timezone := by
  induction steps generalizing st with
  | nil => rfl
  | cons x xs ih => exact ih.trans (timezone_step x)

theorem entities_run (steps : List FiscalStep) :
    (st.run steps).ledger.entities = st.ledger.entities := by
  induction steps generalizing st with
  | nil => rfl
  | cons x xs ih => exact ih.trans (entities_step x)

theorem ruleOn_run {steps : List FiscalStep} (h : AllKeep d st steps) :
    (st.run steps).ledger.ruleOn d = st.ledger.ruleOn d := by
  induction steps generalizing st with
  | nil => rfl
  | cons x xs ih => exact (ih h.2).trans ((ruleOn_step_iff x).mpr h.1)

end FiscalState

/-! ## What the reports say of one transaction -/

/-- Every report that lists the transaction lists it under the rule, or without one under its own. -/
def Ledger.ReportsUnder (s : Ledger) (id : ℕ) (rule : Option String) : Prop :=
  ∀ provider m catalog default_fiscal_rule display locale ruleset report,
    getTaxablePnlExtended provider s m catalog default_fiscal_rule display locale ruleset = .ok report →
      ∀ y ∈ report.fiscalYears, ∀ i ∈ y.items, i.transactionId = id →
        i.fiscalRule = textOr rule (resolvedRuleset locale ruleset)

/-- Every report lists the transaction. -/
def Ledger.Reported (s : Ledger) (id : ℕ) : Prop :=
  ∀ provider m catalog default_fiscal_rule display locale ruleset report,
    getTaxablePnlExtended provider s m catalog default_fiscal_rule display locale ruleset = .ok report →
      ∃ y ∈ report.fiscalYears, ∃ i ∈ y.items, i.transactionId = id

theorem DividendRow.dayOf_at_ (d : DividendRow) :
    Time.dayOf d.at_ = d.paymentDate.getD (Time.dayOf d.timestamp) := by
  unfold at_
  cases d.paymentDate with
  | none => rfl
  | some day => exact Time.dayOf_startOfDay day

namespace Transaction

/-- The date whose period a report asks for: midnight UTC of the dividend's date, in the profile's
timezone. -/
def reportDate (t : Transaction) (tz : TimeZone) : ℤ :=
  tz.utcInstantToProfileDate (Time.startOfDay (t.paymentDate.getD (Time.dayOf t.timestamp)))

end Transaction

namespace Ledger

variable {s : Ledger} {m : Market} {id : ℕ} {t : Transaction}

theorem ruling_of_mem_sales (resolved_ruleset : String) {sale : NativeSale}
    (h : sale ∈ (computeFifo (s.getBuySellTransactions m)).sales) :
    ∃ t, (sale.transactionId, t) ∈ s.transactions.rows ∧
      (t.type = .investmentBuy ∨ t.type = .investmentSell) ∧
      saleRule resolved_ruleset sale = textOr t.fiscalRule resolved_ruleset := by
  obtain ⟨r, hr, qty, total_val, lots, rfl⟩ := exists_of_mem_sales h
  obtain ⟨row, hrow, hr⟩ := List.mem_filterMap.mp ((List.mem_insertionSort _).mp hr)
  unfold toFifoRow at hr
  split_ifs at hr with htype
  obtain ⟨aid, -, hr⟩ := Option.bind_eq_some_iff.mp hr
  obtain ⟨pa, -, hr⟩ := Option.bind_eq_some_iff.mp hr
  obtain ⟨ma, -, hr⟩ := Option.bind_eq_some_iff.mp hr
  obtain ⟨e, -, hr⟩ := Option.bind_eq_some_iff.mp hr
  cases hr
  exact ⟨row.2, hrow, htype, rfl⟩

theorem ruling_of_mem_dividends (resolved_ruleset : String) {div : DividendRow}
    (h : div ∈ s.getDividendTransactions m) :
    ∃ t, (div.id, t) ∈ s.transactions.rows ∧ t.incomeCategory = some .dividends ∧
      dividendRule s resolved_ruleset div = textOr (s.ruleOn (t.reportDate s.timezone)) resolved_ruleset := by
  obtain ⟨row, hrow, hdiv⟩ := List.mem_filterMap.mp ((List.mem_insertionSort _).mp h)
  unfold toDividendRow at hdiv
  split_ifs at hdiv with hcategory
  obtain ⟨e, -, hdiv⟩ := Option.map_eq_some_iff.mp hdiv
  subst hdiv
  refine ⟨row.2, hrow, hcategory, ?_⟩
  rw [dividendRule, DividendRow.dayOf_at_, ← textOr_filter, resolveFiscalRule_filter]
  rfl

theorem reportsUnder_of_sale (h : (id, t) ∈ s.transactions.rows)
    (hcategory : t.incomeCategory = none) : s.ReportsUnder id t.fiscalRule := by
  intro provider m catalog default_fiscal_rule display locale ruleset report hreport y hy i hi hid
  have hruling : i.ruling ∈ report.rulings := List.mem_flatMap.mpr ⟨y, hy, List.mem_map_of_mem hi⟩
  rcases (mem_rulings_iff hreport i.ruling).mp hruling with ⟨sale, hsale, he⟩ | ⟨div, hdiv, he⟩
  · obtain ⟨t', hmem, _, hrule⟩ := ruling_of_mem_sales (resolvedRuleset locale ruleset) hsale
    have hsid : sale.transactionId = id := (congrArg Ruling.transactionId he).trans hid
    rw [hsid] at hmem
    rw [s.transactions.unique hmem h] at hrule
    exact (congrArg Ruling.fiscalRule he).symm.trans hrule
  · obtain ⟨t', hmem, hdividend, _⟩ :=
      ruling_of_mem_dividends (resolvedRuleset locale ruleset) hdiv
    have hdid : div.id = id := (congrArg Ruling.transactionId he).trans hid
    rw [hdid] at hmem
    rw [s.transactions.unique hmem h, hcategory] at hdividend
    cases hdividend

theorem reportsUnder_of_dividend (h : (id, t) ∈ s.transactions.rows) (ht : t.type = .income) :
    s.ReportsUnder id (s.ruleOn (t.reportDate s.timezone)) := by
  intro provider m catalog default_fiscal_rule display locale ruleset report hreport y hy i hi hid
  have hruling : i.ruling ∈ report.rulings := List.mem_flatMap.mpr ⟨y, hy, List.mem_map_of_mem hi⟩
  rcases (mem_rulings_iff hreport i.ruling).mp hruling with ⟨sale, hsale, he⟩ | ⟨div, hdiv, he⟩
  · obtain ⟨t', hmem, htype, _⟩ := ruling_of_mem_sales (resolvedRuleset locale ruleset) hsale
    have hsid : sale.transactionId = id := (congrArg Ruling.transactionId he).trans hid
    rw [hsid] at hmem
    rw [s.transactions.unique hmem h, ht] at htype
    rcases htype with htype | htype <;> cases htype
  · obtain ⟨t', hmem, _, hrule⟩ := ruling_of_mem_dividends (resolvedRuleset locale ruleset) hdiv
    have hdid : div.id = id := (congrArg Ruling.transactionId he).trans hid
    rw [hdid] at hmem
    rw [s.transactions.unique hmem h] at hrule
    exact (congrArg Ruling.fiscalRule he).symm.trans hrule

/-- A dividend of an entity is on every report. -/
theorem reported_of_dividend {e : Entity} (h : (id, t) ∈ s.transactions.rows)
    (hcategory : t.incomeCategory = some .dividends) (he : s.entities.get? t.entityId = some e) :
    s.Reported id := by
  intro provider m catalog default_fiscal_rule display locale ruleset report hreport
  have hdiv : ∃ div ∈ s.getDividendTransactions m, div.id = id := by
    have hsome : ∃ div, s.toDividendRow m (id, t) = some div ∧ div.id = id := by
      unfold toDividendRow
      rw [if_pos hcategory, he]
      exact ⟨_, rfl, rfl⟩
    obtain ⟨div, hdiv, hid⟩ := hsome
    exact ⟨div, (List.mem_insertionSort _).mpr (List.mem_filterMap.mpr ⟨(id, t), h, hdiv⟩), hid⟩
  obtain ⟨div, hdiv, hid⟩ := hdiv
  have hruling := (mem_rulings_iff hreport _).mpr (.inr ⟨div, hdiv, rfl⟩)
  obtain ⟨y, hy, hi⟩ := List.mem_flatMap.mp hruling
  obtain ⟨i, hi, hi'⟩ := List.mem_map.mp hi
  exact ⟨y, hy, i, hi, (congrArg Ruling.transactionId hi').trans hid⟩

end Ledger

/-! ## Frozen rules -/

namespace TransactionCreate

/-- A sell; `income_category` is only valid for income. -/
def IsSale (body : TransactionCreate) : Prop := body.type = .investmentSell ∧ body.incomeCategory = none

def IsDividend (body : TransactionCreate) : Prop :=
  body.type = .income ∧ body.incomeCategory = some .dividends

/-- The date of the operation: the sell date of a sale, the payment date of a dividend that has one. -/
def operationDate (body : TransactionCreate) (tz : TimeZone) : ℤ :=
  if body.type = .investmentSell then tz.utcInstantToProfileDate body.timestamp
  else body.paymentDate.getD (tz.utcInstantToProfileDate body.timestamp)

theorem toRow_resolved_incomeCategory (s : Ledger) (body : TransactionCreate) (rule : Option String)
    (mode : Option BalanceMode) :
    ((body.resolved s).toRow rule mode).incomeCategory = body.incomeCategory := by
  obtain ⟨_, _, _, _, _, _, h⟩ := resolved_eq s body
  rw [h]
  rfl

theorem reportDate_toRow_resolved (s : Ledger) (body : TransactionCreate) (rule : Option String)
    (mode : Option BalanceMode) (tz : TimeZone) : ((body.resolved s).toRow rule mode).reportDate tz =
      (body.toRow none none).reportDate tz := by
  obtain ⟨_, _, _, _, _, _, h⟩ := resolved_eq s body
  rw [h]
  rfl

end TransactionCreate

theorem Ledger.exists_entity_of_createTransaction {s s' : Ledger} {body : TransactionCreate}
    {resp : TransactionResponse} (h : s.createTransaction body = .ok (resp, s')) :
    ∃ e, s.entities.get? body.entityId = some e := by
  obtain ⟨_, hfks, _⟩ := Runs.bind_eq_ok.mp h
  have hsome : (s.getEntity body.entityId).isSome := by
    unfold Ledger.resolveFks at hfks
    by_contra hne
    simp [hne] at hfks
    cases hfks
  obtain ⟨e, he⟩ := Option.isSome_iff_exists.mp hsome
  exact ⟨e, (Option.filter_eq_some_iff.mp he).1⟩

namespace FiscalState

variable {st : FiscalState} {body : TransactionCreate} {resp : TransactionResponse} {l : Ledger}
  {steps : List FiscalStep}

/-- A sale; or a dividend for which, when it is recorded, the period of the date the reports ask for gives
the rule that is prescribed, and the steps keep the rule of that date. -/
def RuleKept (st : FiscalState) (body : TransactionCreate) (steps : List FiscalStep) : Prop :=
  body.IsSale ∨
    body.IsDividend ∧
      st.ledger.ruleOn ((body.toRow none none).reportDate st.ledger.timezone) =
        (st.ledger.prescribedRule (body.operationDate st.ledger.timezone)).filter
          (fun k => decide (k ≠ "")) ∧
      AllKeep ((body.toRow none none).reportDate st.ledger.timezone) (st.record body) steps

theorem AllKeep.of_prefix {d : ℤ} {pre : List FiscalStep} (h : AllKeep d st steps)
    (hpre : pre <+: steps) : AllKeep d st pre := by
  obtain ⟨post, rfl⟩ := hpre
  induction pre generalizing st with
  | nil => trivial
  | cons x xs ih => exact ⟨h.1, ih h.2⟩

theorem reportsUnder_of_sale (hrec : st.ledger.createTransaction body = .ok (resp, l))
    (hsale : body.IsSale) (steps : List FiscalStep) : ((st.record body).run steps).ledger.ReportsUnder resp.id
      (st.ledger.prescribedRule (body.operationDate st.ledger.timezone)) := by
  obtain ⟨_, hrow, hmem⟩ := Ledger.retains_createTransaction hrec
  have hadj : body.type ≠ .balanceAdjustment := by simp [hsale.1]
  have htype : resp.row.type = body.type := by rw [hrow]; simp [TransactionCreate.toRow]
  have hstart : (resp.id, resp.row) ∈ (st.record body).ledger.transactions.rows := by
    rw [ledger_record hrec]
    exact hmem hadj
  have hend := mem_run hstart (by rw [htype]; exact hadj) steps
  have hcategory : resp.row.incomeCategory = none := by
    rw [hrow, TransactionCreate.toRow_resolved_incomeCategory, hsale.2]
  have hrule : resp.row.fiscalRule =
      st.ledger.prescribedRule (body.operationDate st.ledger.timezone) := by
    rw [hrow, hsale.1, Ledger.fiscalRuleFor_sell, TransactionCreate.operationDate, if_pos hsale.1]
    rfl
  rw [← hrule]
  exact Ledger.reportsUnder_of_sale hend hcategory

theorem reportsUnder_of_dividend (hrec : st.ledger.createTransaction body = .ok (resp, l))
    (hdividend : body.IsDividend) (steps : List FiscalStep) :
    let l' := ((st.record body).run steps).ledger
    l'.ReportsUnder resp.id
      (l'.ruleOn ((body.toRow none none).reportDate st.ledger.timezone)) ∧ l'.Reported resp.id := by
  obtain ⟨hretains, hrow, hmem⟩ := Ledger.retains_createTransaction hrec
  have hadj : body.type ≠ .balanceAdjustment := by simp [hdividend.1]
  have htype : resp.row.type = body.type := by rw [hrow]; simp [TransactionCreate.toRow]
  have hstart : (resp.id, resp.row) ∈ (st.record body).ledger.transactions.rows := by
    rw [ledger_record hrec]
    exact hmem hadj
  have hend := mem_run hstart (by rw [htype]; exact hadj) steps
  have hcategory : resp.row.incomeCategory = some .dividends := by
    rw [hrow, TransactionCreate.toRow_resolved_incomeCategory, hdividend.2]
  have htz : ((st.record body).run steps).ledger.timezone = st.ledger.timezone := by
    rw [timezone_run, ledger_record hrec, hretains.timezone]
  have hdate : resp.row.reportDate ((st.record body).run steps).ledger.timezone =
      (body.toRow none none).reportDate st.ledger.timezone := by
    rw [htz, hrow, TransactionCreate.reportDate_toRow_resolved]
  obtain ⟨e, he⟩ := Ledger.exists_entity_of_createTransaction hrec
  have hentity : ((st.record body).run steps).ledger.entities.get? resp.row.entityId = some e := by
    rw [entities_run, ledger_record hrec, hretains.entities, hrow]
    simpa [TransactionCreate.toRow] using he
  refine ⟨?_, Ledger.reported_of_dividend hend hcategory hentity⟩
  have := Ledger.reportsUnder_of_dividend hend (htype.trans hdividend.1)
  rwa [hdate] at this

/-- In every state a run of such steps reaches, the reports list the transaction under the rule that was
prescribed when it was recorded, or under their own ruleset where none was; a dividend is on all of them. -/
theorem frozen_of_run (hrec : st.ledger.createTransaction body = .ok (resp, l))
    (hkept : st.RuleKept body steps) : ∀ pre, pre <+: steps →
      ((st.record body).run pre).ledger.ReportsUnder resp.id
          (st.ledger.prescribedRule (body.operationDate st.ledger.timezone)) ∧
        (body.IsDividend → ((st.record body).run pre).ledger.Reported resp.id) := by
  intro pre hpre
  refine ⟨?_, fun hdividend => (reportsUnder_of_dividend hrec hdividend pre).2⟩
  rcases hkept with hsale | ⟨hdividend, hstart, hkeep⟩
  · exact reportsUnder_of_sale hrec hsale pre
  · have hreports := (reportsUnder_of_dividend hrec hdividend pre).1
    have hretains : ∀ d, (st.record body).ledger.ruleOn d = st.ledger.ruleOn d := (retains_record body).ruleOn
    rw [ruleOn_run (hkeep.of_prefix hpre), hretains, hstart] at hreports
    intro provider m catalog default_fiscal_rule display locale ruleset report hreport y hy i hi hid
    rw [hreports provider m catalog default_fiscal_rule display locale ruleset report hreport y hy i hi hid,
      textOr_filter]

end FiscalState

namespace Sample

/-- One entity and one currency; the profile default is the rule of Spain. -/
def spanishProfile (periods : List FiscalPeriodCreate) : FiscalState where
  profileId := 1
  periods := PeriodRequest.run .empty (periods.map fun body => .create 1 body)
  disjoint := PeriodRequest.noShared_of_run _ fun _ ha => absurd ha List.not_mem_nil
  ledger :=
    { Ledger.empty .utc with
      entities := Table.empty.insert { name := "bank" }
      currencies := [⟨eur, eur, 1, ⟨0, none⟩⟩]
      defaultFiscalRule := some "spain"
      fiscalPeriods := periodsOf (PeriodRequest.run .empty (periods.map fun body => .create 1 body)) 1 }
  periods_eq := rfl

/-- A dividend of the summer of 2025. -/
def summerDividend : TransactionCreate where
  timestamp := Time.startOfDay 20240
  type := .income
  incomeCategory := some .dividends
  entityId := 0
  currency := eur
  totalValue := some 100

/-- A report under the ruleset `japan`. -/
def japaneseReport (s : Ledger) : Except PnlError TaxablePnlSummaryExtended :=
  getTaxablePnlExtended s.currencyServiceRateProvider s ⟨[], [], []⟩ ⟨[], fun _ => [], fun _ => [], []⟩ none
    eur "" "japan"

def reportedRules (s : Ledger) : Option (List String) :=
  (japaneseReport s).toOption.map fun report => report.rulings.map Ruling.fiscalRule

/-- The dividend is recorded without a period: the default is prescribed, and the report follows its own
ruleset, until a period is created around the date. -/
theorem summerDividend_drifts :
    (¬ ∀ (st : FiscalState) body resp l steps, st.ledger.createTransaction body = .ok (resp, l) →
      body.IsSale ∨ body.IsDividend → ((st.record body).run steps).ledger.ReportsUnder resp.id
        (st.ledger.prescribedRule (body.operationDate st.ledger.timezone))) ∧
    (spanishProfile []).ledger.prescribedRule 20240 = some "spain" ∧
    reportedRules ((spanishProfile []).record summerDividend).ledger = some ["japan"] ∧
    reportedRules (((spanishProfile []).record summerDividend).run
      [.period (.create 1 { summer with ruleKey := "none" })]).ledger = some ["none"] := by
  refine ⟨fun h => ?_, by decide +kernel, by decide +kernel, by decide +kernel⟩
  obtain ⟨⟨resp, l⟩, hrec⟩ := Runs.exists_of_isSome_toOption
    (by decide +kernel : ((spanishProfile []).ledger.createTransaction summerDividend).toOption.isSome)
  obtain ⟨report, hreport⟩ := Runs.exists_of_isSome_toOption (by decide +kernel :
    (japaneseReport ((spanishProfile []).record summerDividend).ledger).toOption.isSome)
  have hunder := h _ _ _ _ [] hrec (.inr ⟨rfl, rfl⟩)
  obtain ⟨hrule, hlisted⟩ := FiscalState.reportsUnder_of_dividend hrec ⟨rfl, rfl⟩ []
  obtain ⟨y, hy, i, hi, hid⟩ := hlisted _ _ _ _ _ _ _ report hreport
  have hspain := hunder _ _ _ _ _ _ _ report hreport y hy i hi hid
  have hjapan := hrule _ _ _ _ _ _ _ report hreport y hy i hi hid
  rw [hspain] at hjapan
  exact absurd hjapan (by decide +kernel)

/-- In a profile with a period around its date the dividend keeps that rule, while the default changes and a
period of other dates is created. -/
theorem summerDividend_kept : ∃ resp l,
    (spanishProfile [summer]).ledger.createTransaction summerDividend = .ok (resp, l) ∧
      ((((spanishProfile [summer]).record summerDividend).run
        [.setDefaultFiscalRule none, .period (.create 1 backwards)]).ledger.ReportsUnder resp.id
          (some "japan")) := by
  obtain ⟨⟨resp, l⟩, hrec⟩ := Runs.exists_of_isSome_toOption
    (by decide +kernel : ((spanishProfile [summer]).ledger.createTransaction summerDividend).toOption.isSome)
  have hkept : (spanishProfile [summer]).RuleKept summerDividend
      [.setDefaultFiscalRule none, .period (.create 1 backwards)] :=
    .inr ⟨⟨rfl, rfl⟩, by decide +kernel, trivial, fun _ _ => by decide +kernel, trivial⟩
  have hprescribed : (spanishProfile [summer]).ledger.prescribedRule
      (summerDividend.operationDate (spanishProfile [summer]).ledger.timezone) = some "japan" := by
    decide +kernel
  have hreports := (FiscalState.frozen_of_run hrec hkept _ List.prefix_rfl).1
  rw [hprescribed] at hreports
  exact ⟨resp, l, hrec, hreports⟩

end Sample

end FinHub
