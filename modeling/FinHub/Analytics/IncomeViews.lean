import FinHub.Analytics.CashFlowLines

/-!
# FinHub.Analytics.IncomeViews

Income by source beside the income lines of the cash flow.

One view converts the sums of its groups at the latest rates, the other every transaction at the rate of its day.
`income_views_agree_iff` says for which transactions and rates both come to the same in every period, whatever the
amounts are.
-/

namespace FinHub.CashFlow

open Decimal Groups Worth

/-- The income lines of a period. -/
def linesOfPeriod (view : IncomeView) (period : Period) : List IncomeLine :=
  view.data.filter fun line => decide (line.period = period)

/-- The `INCOME` lines of a period. -/
def flowLinesOfPeriod (cash : CashFlowSummary) (period : Period) : List CashFlowLine :=
  cash.lines.filter fun line => decide (line.period = period ∧ line.type = .income)

/-- The two views, where both answer, come to the same in every period, up to the rounding of the lines. -/
def IncomeViewsAgree (l : Ledger) (call : ViewCall) (employer : ℕ → Bool) : Prop :=
  ∀ view cash, getIncomeBySource l call employer = .ok view → getCashFlow l call = .ok cash → ∀ period,
    |((linesOfPeriod view period).map IncomeLine.totalValue).sum -
        ((flowLinesOfPeriod cash period).map CashFlowLine.totalValue).sum| ≤
      ((linesOfPeriod view period).length + (flowLinesOfPeriod cash period).length) * (1 / 2 / 10 ^ 4) ∧
    ((linesOfPeriod view period).map IncomeLine.count).sum = ((flowLinesOfPeriod cash period).map CashFlowLine.count).sum

section

variable {l : Ledger} {call : ViewCall} {employer : ℕ → Bool} {x : ℕ → ℚ}

def periodOf (l : Ledger) (call : ViewCall) (r : ℕ × Transaction) : Period :=
  periodExpr l.timezone call.now call.groupBy r.2.timestamp

/-- The income of a period. -/
def incomeOfPeriod (l : Ledger) (call : ViewCall) (period : Period) : List (ℕ × Transaction) :=
  (l.rowsInRange (rangeOf l call)).filter fun r => decide (periodOf l call r = period ∧ r.2.type = .income)

def hasEntity (l : Ledger) (r : ℕ × Transaction) : Bool := (l.entities.get? r.2.entityId).isSome

def sourceLines (l : Ledger) (call : ViewCall) (employer : ℕ → Bool) (x : ℕ → ℚ) (period : Period) : List IncomeLine :=
  ((incomeKeys l call employer).filter fun k => decide (k.period = period)).map (sourceLine l call employer x)

def flowLines (l : Ledger) (call : ViewCall) (x : ℕ → ℚ) (period : Period) : List CashFlowLine :=
  ((flowKeys l call).filter fun k => decide (k.period = period ∧ k.type = .income)).map (flowLine l call x)

theorem linesOfPeriod_eq {view : IncomeView} (h : getIncomeBySource (l.priced x) call employer = .ok view)
    (period : Period) : linesOfPeriod view period = sourceLines l call employer x period := by
  unfold linesOfPeriod sourceLines
  rw [getIncomeBySource_data h, List.filter_map]
  rfl

theorem flowLinesOfPeriod_eq {cash : CashFlowSummary} (h : getCashFlow (l.priced x) call = .ok cash)
    (period : Period) : flowLinesOfPeriod cash period = flowLines l call x period := by
  unfold flowLinesOfPeriod flowLines
  rw [getCashFlow_lines h, List.filter_map]
  rfl

/-- The rows behind the lines of income by source. -/
theorem incomeRows_of_period (period : Period) :
    ((incomeRows l call).filter fun r => decide ((incomeKeyOf l call employer r).period = period)) =
      (incomeOfPeriod l call period).filter (hasEntity l) := by
  unfold incomeRows incomeOfPeriod
  rw [List.filter_filter, List.filter_filter]
  refine List.filter_congr fun r _ => ?_
  have hperiod : (incomeKeyOf l call employer r).period = periodOf l call r := rfl
  rw [hperiod, hasEntity]
  by_cases hp : periodOf l call r = period <;> by_cases ht : r.2.type = .income <;> simp [hp, ht]

/-- The rows behind the lines of the cash flow. -/
theorem flowRows_of_period (period : Period) :
    ((flowRows l call).filter fun r =>
      decide ((flowKey l call r).period = period ∧ (flowKey l call r).type = .income)).Perm
        (incomeOfPeriod l call period) :=
  flowRows_perm.filter _

/-- The income of a period at the latest rates where the view has it, less the same at the rates of the days. -/
def rateGaps (l : Ledger) (call : ViewCall) (period : Period) : List (ℕ × ℚ) :=
  (incomeOfPeriod l call period).map fun r => (r.1, present r *
    ((if hasEntity l r then l.conversionRate call.displayCurrency r.2.currency none else 0) - flowRate l call r))

theorem worth_rateGaps (x : ℕ → ℚ) (period : Period) :
    worth x (rateGaps l call period) =
      (((incomeOfPeriod l call period).filter (hasEntity l)).map fun r =>
        x r.1 * (present r * l.conversionRate call.displayCurrency r.2.currency none)).sum -
      ((incomeOfPeriod l call period).map fun r => x r.1 * (present r * flowRate l call r)).sum := by
  unfold rateGaps
  induction incomeOfPeriod l call period with
  | nil => simp
  | cons r rows ih =>
    simp only [List.map_cons, worth_cons, List.sum_cons, ih, List.filter_cons]
    split_ifs
    · simp only [List.map_cons, List.sum_cons]
      ring
    · ring

variable (l call employer) in
theorem sum_sourceLines (x : ℕ → ℚ) (period : Period) :
    |((sourceLines l call employer x period).map IncomeLine.totalValue).sum -
        (((incomeOfPeriod l call period).filter (hasEntity l)).map fun r =>
          x r.1 * (present r * l.conversionRate call.displayCurrency r.2.currency none)).sum| ≤
      (sourceLines l call employer x period).length * (1 / 2 / 10 ^ 4) := by
  have hgroups := sum_groups_where (incomeKeyOf l call employer) (fun k => decide (k.period = period)) (incomeRows l call)
    fun r => x r.1 * (present r * l.conversionRate call.displayCurrency r.2.currency none)
  rw [incomeRows_of_period] at hgroups
  unfold sourceLines
  rw [List.map_map, List.length_map, ← hgroups]
  exact abs_sum_roundTo_sub_le 4 _ _

variable (l call) in
theorem sum_flowLines (x : ℕ → ℚ) (period : Period) :
    |((flowLines l call x period).map CashFlowLine.totalValue).sum -
        ((incomeOfPeriod l call period).map fun r => x r.1 * (present r * flowRate l call r)).sum| ≤
      (flowLines l call x period).length * (1 / 2 / 10 ^ 4) := by
  have hgroups := sum_groups_where (flowKey l call) (fun k => decide (k.period = period ∧ k.type = .income))
    (flowRows l call) fun r => x r.1 * (present r * flowRate l call r)
  rw [((flowRows_of_period period).map _).sum_eq] at hgroups
  unfold flowLines
  rw [List.map_map, List.length_map, ← hgroups]
  exact abs_sum_roundTo_sub_le 4 _ _

/-- The totals agree for all amounts exactly when the gaps of every transaction cancel. -/
theorem sums_agree_iff (period : Period) :
    (∀ x, |((sourceLines l call employer x period).map IncomeLine.totalValue).sum -
          ((flowLines l call x period).map CashFlowLine.totalValue).sum| ≤
        ((sourceLines l call employer x period).length + (flowLines l call x period).length) * (1 / 2 / 10 ^ 4)) ↔
      ∀ id, amountOf id (rateGaps l call period) = 0 := by
  have hlength : ∀ x, (sourceLines l call employer x period).length = (sourceLines l call employer 0 period).length := by
    intro x
    unfold sourceLines
    rw [List.length_map, List.length_map]
  have hlength' : ∀ x, (flowLines l call x period).length = (flowLines l call 0 period).length := by
    intro x
    unfold flowLines
    rw [List.length_map, List.length_map]
  simp only [hlength, hlength']
  refine forall_abs_le_iff (fun x => ?_) le_rfl
  have hsource := sum_sourceLines l call employer x period
  have hflow := sum_flowLines l call x period
  rw [hlength] at hsource
  rw [hlength'] at hflow
  rw [worth_rateGaps]
  rw [abs_le] at hsource hflow ⊢
  constructor <;> linarith

theorem counts_agree_iff (x : ℕ → ℚ) (period : Period) :
    ((sourceLines l call employer x period).map IncomeLine.count).sum =
        ((flowLines l call x period).map CashFlowLine.count).sum ↔
      ∀ r ∈ incomeOfPeriod l call period, hasEntity l r = true := by
  have hincome := sum_length_groups_where (incomeKeyOf l call employer) (fun k => decide (k.period = period))
    (incomeRows l call)
  have hflow := sum_length_groups_where (flowKey l call) (fun k => decide (k.period = period ∧ k.type = .income))
    (flowRows l call)
  rw [incomeRows_of_period] at hincome
  rw [(flowRows_of_period period).length_eq] at hflow
  unfold sourceLines flowLines
  rw [List.map_map, List.map_map]
  exact (Eq.congr hincome hflow).trans List.length_filter_eq_length_iff

theorem nodup_incomeOfPeriod (period : Period) : ((incomeOfPeriod l call period).map Prod.fst).Nodup :=
  l.transactions.nodup_keys.sublist (((List.filter_sublist).trans List.filter_sublist).map _)

/-- Both views answer, and the income of every period is in both at one rate. -/
theorem rateGaps_cancel_iff (period : Period) :
    ((∀ id, amountOf id (rateGaps l call period) = 0) ∧ ∀ r ∈ incomeOfPeriod l call period, hasEntity l r = true) ↔
      ∀ r ∈ incomeOfPeriod l call period, hasEntity l r = true ∧
        (r.2.totalValue.isSome → l.conversionRate call.displayCurrency r.2.currency none = flowRate l call r) := by
  unfold rateGaps
  rw [forall_amountOf_map_eq_zero (nodup_incomeOfPeriod period), ← forall₂_and]
  refine forall₂_congr fun r _ => ?_
  rw [and_comm]
  refine and_congr_right fun hentity => ?_
  rw [if_pos hentity, present]
  split_ifs with hsome
  · rw [one_mul, sub_eq_zero]
    exact ⟨fun h _ => h, fun h => h hsome⟩
  · exact iff_of_true (zero_mul _) fun h => absurd h hsome

end

theorem income_views_agree_iff (l : Ledger) (call : ViewCall) (employer : ℕ → Bool) :
    (∀ x, IncomeViewsAgree (l.priced x) call employer) ↔
      ∀ view cash, getIncomeBySource l call employer = .ok view → getCashFlow l call = .ok cash →
        ∀ r ∈ l.rowsInRange (rangeOf l call), r.2.type = .income → (l.entities.get? r.2.entityId).isSome ∧
          (r.2.totalValue.isSome → l.conversionRate call.displayCurrency r.2.currency none = flowRate l call r) := by
  constructor
  · intro h view cash hview hcash r hr htype
    have hagree : ∀ x period, |((sourceLines l call employer x period).map IncomeLine.totalValue).sum -
          ((flowLines l call x period).map CashFlowLine.totalValue).sum| ≤
        ((sourceLines l call employer x period).length + (flowLines l call x period).length) * (1 / 2 / 10 ^ 4) ∧
        ((sourceLines l call employer x period).map IncomeLine.count).sum =
          ((flowLines l call x period).map CashFlowLine.count).sum := by
      intro x period
      obtain ⟨view', hview'⟩ := exists_getIncomeBySource_priced.mpr ⟨view, hview⟩
      obtain ⟨cash', hcash'⟩ := exists_getCashFlow_priced.mpr ⟨cash, hcash⟩
      rw [← linesOfPeriod_eq hview', ← flowLinesOfPeriod_eq hcash']
      exact h x view' cash' hview' hcash' period
    have hgaps := (rateGaps_cancel_iff (periodOf l call r)).mp
      ⟨(sums_agree_iff _).mp fun x => (hagree x _).1, (counts_agree_iff 0 _).mp (hagree 0 _).2⟩
    exact hgaps r (List.mem_filter.mpr ⟨hr, decide_eq_true ⟨rfl, htype⟩⟩)
  · intro h x view cash hview hcash period
    obtain ⟨view', hview'⟩ := exists_getIncomeBySource_priced.mp ⟨view, hview⟩
    obtain ⟨cash', hcash'⟩ := exists_getCashFlow_priced.mp ⟨cash, hcash⟩
    obtain ⟨hcancel, hentities⟩ := (rateGaps_cancel_iff period).mpr fun r hr => by
      obtain ⟨hmem, hof⟩ := List.mem_filter.mp hr
      exact h view' cash' hview' hcash' r hmem (of_decide_eq_true hof).2
    rw [linesOfPeriod_eq hview, flowLinesOfPeriod_eq hcash]
    exact ⟨(sums_agree_iff period).mpr hcancel x, (counts_agree_iff x period).mpr hentities⟩

end FinHub.CashFlow

namespace FinHub.Sample

open CashFlow

def dollarSalary : Transaction where
  timestamp := Time.startOfDay 20463
  type := .income
  entityId := 0
  currency := usd
  totalValue := some 1000

/-- 1000 dollars on 10 January 2026, when a dollar was half a euro; from 20 January on it is more. -/
def paidInDollars : Ledger :=
  { (Ledger.empty .utc).insertTransaction dollarSalary with
    entities := Tabular.Table.empty.insert { name := "ACME" }
    currencies := [⟨usd, eur, 1 / 2, ⟨Time.startOfDay 20454, none⟩⟩, ⟨usd, eur, 3 / 5, ⟨Time.startOfDay 20473, none⟩⟩] }

def inEuros : ViewCall where
  groupBy := .month
  displayCurrency := some eur
  now := Time.startOfDay 20474

/-- 600 euros by source, 500 in the cash flow. -/
theorem salary_seen_twice : ¬ IncomeViewsAgree paidInDollars inEuros fun _ => true := by
  intro h
  have hview : getIncomeBySource paidInDollars inEuros (fun _ => true) =
      .ok ⟨[⟨.month 2026 1, 0, "ACME", .salary, usd, 600, 1⟩],
        some ⟨[(usd, 3 / 5)], ⟨Time.startOfDay 20473, none⟩, false⟩⟩ := by
    decide +kernel
  have hcash : getCashFlow paidInDollars inEuros =
      .ok ⟨[⟨.month 2026 1, .income, 500, 1, usd, none⟩], 500, 0, 500,
        some ⟨[(usd, 3 / 5)], ⟨Time.startOfDay 20473, none⟩, false⟩⟩ := by
    decide +kernel
  have hbad := (h _ _ hview hcash (.month 2026 1)).1
  revert hbad
  decide +kernel

end FinHub.Sample
