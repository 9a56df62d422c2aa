import FinHub.Analytics.CashFlowLines

/-!
# FinHub.Analytics.DrillDown

The lines of a cash flow beside the rows that are listed for them.

A line is found again by its period, type, category and currency. `drills_down_iff` says when the rows listed for
every line are those added up in it, in the currency they are in and to the same sum, whatever the amounts are.
-/

namespace FinHub.CashFlow

open Decimal Groups Worth

def keyOfLine (line : CashFlowLine) : CashFlowKey := ⟨line.period, line.type, line.currency, line.category⟩

/-- The transactions added up in a line. -/
def aggregated (l : Ledger) (call : ViewCall) (key : CashFlowKey) : List (ℕ × Transaction) :=
  (flowRows l call).filter fun r => decide (flowKey l call r = key)

/-- The amount a row is listed with: the converted one, else the native one. -/
def shownAmount (t : CashFlowTransactionLine) : ℚ := t.displayAmount.getD t.amount

/-- The drill-down of a line. -/
structure DrillsDown (l : Ledger) (call : ViewCall) (line : CashFlowLine) : Prop where
  /-- It selects the transactions that the line adds up. -/
  selects : ∀ r, r ∈ lineRows l call (keyOfLine line) ↔ r ∈ aggregated l call (keyOfLine line)
  /-- Their amounts are in the currency that they are converted from. -/
  denominated : ∀ r ∈ aggregated l call (keyOfLine line), r.2.currency = line.currency
  /-- It answers with their number and, where they fit on a page, with amounts that make up the total. -/
  lists : ∃ page, getCashFlowTxns l call (keyOfLine line) = .ok page ∧ page.totalCount = line.count ∧
    (page.totalCount ≤ 50 → |(page.transactions.map shownAmount).sum - line.totalValue| ≤
      (line.count + 1) * (1 / 2 / 10 ^ 4))

def EveryLineDrillsDown (l : Ledger) (call : ViewCall) : Prop :=
  ∀ cash, getCashFlow l call = .ok cash → ∀ line ∈ cash.lines, DrillsDown l call line

/-- What a listed amount is multiplied by. -/
def listedFactor (l : Ledger) (call : ViewCall) (r : ℕ × Transaction) : ℚ :=
  match listedRate l call (r.2.paymentCurrency.getD r.2.currency) r.2.timestamp with
  | .ok (some rate) => rate
  | .ok none | .error _ => 1

/-- When every line of a cash flow finds its transactions again. -/
structure DrillDownAgrees (l : Ledger) (call : ViewCall) : Prop where
  /-- Nothing in the range is paid in another currency than its own. -/
  nominal : ∀ r ∈ l.rowsInRange (rangeOf l call), r.2.paymentCurrency.getD r.2.currency = r.2.currency
  /-- No row that is listed lacks an amount, and none has a rate that raises. -/
  listed : ∀ key ∈ flowKeys l call, ∀ r ∈ (lineRows l call key).take 50, r.2.totalValue.isSome ∧
    ∃ rate, listedRate l call (r.2.paymentCurrency.getD r.2.currency) r.2.timestamp = .ok rate
  /-- Where a line fits on a page, the rate of every row at its own instant is the one of its day. -/
  rates : ∀ key ∈ flowKeys l call, (lineRows l call key).length ≤ 50 → ∀ r ∈ lineRows l call key,
    listedFactor l call r = flowRate l call r

section

variable {l : Ledger} {call : ViewCall} {x : ℕ → ℚ} {key : CashFlowKey} {r : ℕ × Transaction}

theorem lineRows_priced : lineRows (l.priced x) call key = (lineRows l call key).map (pricedRow x) := by
  unfold lineRows
  rw [show rangeOf (l.priced x) call = rangeOf l call from rfl, rowsInRange_priced, List.filter_map]
  exact (List.map_insertionSort _ _ (pricedRow x) _ fun _ _ _ _ => Iff.rfl).symm

theorem lineRows_perm : (lineRows l call key).Perm
    ((l.rowsInRange (rangeOf l call)).filter (matchesLine l call key)) :=
  List.perm_insertionSort _ _

theorem aggregated_perm : (aggregated l call key).Perm
    ((l.rowsInRange (rangeOf l call)).filter fun r => decide (flowKey l call r = key)) :=
  flowRows_perm.filter _

theorem aggregated_priced : aggregated (l.priced x) call key = (aggregated l call key).map (pricedRow x) := by
  unfold aggregated
  rw [flowRows_priced, List.filter_map]
  rfl

theorem mem_flowKeys : key ∈ flowKeys l call ↔ ∃ r ∈ l.rowsInRange (rangeOf l call), flowKey l call r = key := by
  unfold flowKeys
  rw [List.mem_eraseDups, List.mem_map]
  exact exists_congr fun r => and_congr_left fun _ => flowRows_perm.mem_iff

/-- Where nothing is paid in another currency, the two conditions of a row are one. -/
theorem matchesLine_iff (h : r.2.paymentCurrency.getD r.2.currency = r.2.currency) :
    matchesLine l call key r = true ↔ flowKey l call r = key := by
  have hcur : lineCurrency call r.2 = r.2.currency := by
    unfold lineCurrency
    cases call.displayCurrency with
    | none => rfl
    | some display => exact h
  unfold matchesLine flowKey
  rw [hcur, h]
  cases key
  simp only [Bool.and_eq_true, decide_eq_true_eq, CashFlowKey.mk.injEq]
  tauto

theorem lineRows_perm_aggregated
    (h : ∀ r ∈ l.rowsInRange (rangeOf l call), r.2.paymentCurrency.getD r.2.currency = r.2.currency) :
    (lineRows l call key).Perm (aggregated l call key) := by
  refine lineRows_perm.trans (.trans (.of_eq ?_) aggregated_perm.symm)
  refine List.filter_congr fun r hr => ?_
  rw [Bool.eq_iff_iff, decide_eq_true_eq]
  exact matchesLine_iff (h r hr)

/-- One row of a page. -/
theorem transactionLine_eq_ok {t : CashFlowTransactionLine} (h : transactionLine l call r = .ok t) :
    shownAmount t = roundTo 4 (r.2.totalValue.getD 0 * listedFactor l call r) := by
  obtain ⟨rate, hrate, h⟩ := Runs.bind_eq_ok.mp h
  unfold listedFactor
  rw [hrate]
  cases htotal : r.2.totalValue with
  | none =>
    rw [htotal] at h
    cases h
  | some amount =>
    rw [htotal] at h
    cases h
    unfold shownAmount
    cases rate with
    | none => simp
    | some rate => rfl

theorem exists_transactionLine : (∃ t, transactionLine l call r = .ok t) ↔ r.2.totalValue.isSome ∧
    ∃ rate, listedRate l call (r.2.paymentCurrency.getD r.2.currency) r.2.timestamp = .ok rate := by
  constructor
  · rintro ⟨t, h⟩
    obtain ⟨rate, hrate, h⟩ := Runs.bind_eq_ok.mp h
    refine ⟨?_, rate, hrate⟩
    cases htotal : r.2.totalValue with
    | none =>
      rw [htotal] at h
      cases h
    | some amount => rfl
  · rintro ⟨hsome, rate, hrate⟩
    obtain ⟨amount, hamount⟩ := Option.isSome_iff_exists.mp hsome
    unfold transactionLine
    simp only [hrate, hamount]
    exact ⟨_, rfl⟩

/-! ## The page of a line -/

theorem transactionLine_priced_eq_ok {t : CashFlowTransactionLine}
    (h : transactionLine (l.priced x) call (pricedRow x r) = .ok t) :
    shownAmount t = roundTo 4 (x r.1 * (present r * listedFactor l call r)) := by
  rw [transactionLine_eq_ok h, totalValue_pricedRow, mul_assoc]
  rfl

/-- A page can be listed exactly when each of its rows can, whatever the amounts are. -/
theorem exists_page : (∃ page, getCashFlowTxns (l.priced x) call key = .ok page) ↔
    ∀ r ∈ (lineRows l call key).take 50, r.2.totalValue.isSome ∧
      ∃ rate, listedRate l call (r.2.paymentCurrency.getD r.2.currency) r.2.timestamp = .ok rate := by
  have hrows : (∃ transactions, ((lineRows (l.priced x) call key).take 50).mapM (transactionLine (l.priced x) call) =
      .ok transactions) ↔ ∀ r ∈ (lineRows l call key).take 50, r.2.totalValue.isSome ∧
        ∃ rate, listedRate l call (r.2.paymentCurrency.getD r.2.currency) r.2.timestamp = .ok rate := by
    rw [Runs.exists_mapM_iff, lineRows_priced, ← List.map_take, List.forall_mem_map]
    refine forall₂_congr fun r _ => exists_transactionLine.trans ?_
    have hsome : (pricedRow x r).2.totalValue.isSome = r.2.totalValue.isSome := Option.isSome_map
    rw [hsome]
    exact Iff.rfl
  rw [← hrows]
  constructor
  · rintro ⟨page, h⟩
    obtain ⟨transactions, ht, _⟩ := Runs.bind_eq_ok.mp h
    exact ⟨transactions, ht⟩
  · rintro ⟨transactions, ht⟩
    exact ⟨_, Runs.bind_eq_ok.mpr ⟨transactions, ht, rfl⟩⟩

theorem page_eq {page : CashFlowTransactions} (h : getCashFlowTxns (l.priced x) call key = .ok page) :
    page.totalCount = (lineRows l call key).length ∧
      page.transactions.map shownAmount = ((lineRows l call key).take 50).map fun r =>
        roundTo 4 (x r.1 * (present r * listedFactor l call r)) := by
  obtain ⟨transactions, ht, h⟩ := Runs.bind_eq_ok.mp h
  cases h
  rw [lineRows_priced, ← List.map_take, List.mapM_map] at ht
  refine ⟨by rw [lineRows_priced, List.length_map], ?_⟩
  exact Runs.map_eq_of_mapM (p := shownAmount) (fun r t hr => transactionLine_priced_eq_ok hr) ht

/-- What the rows of a line are listed with, less what they count with in it. -/
def listingGaps (l : Ledger) (call : ViewCall) (key : CashFlowKey) : List (ℕ × ℚ) :=
  (lineRows l call key).map fun r => (r.1, present r * (listedFactor l call r - flowRate l call r))

theorem nodup_lineRows : ((lineRows l call key).map Prod.fst).Nodup := by
  rw [(lineRows_perm.map Prod.fst).nodup_iff]
  exact l.transactions.nodup_keys.sublist ((List.filter_sublist.trans List.filter_sublist).map _)

variable (l call key) in
theorem worth_listingGaps (x : ℕ → ℚ) :
    worth x (listingGaps l call key) =
      ((lineRows l call key).map fun r => x r.1 * (present r * listedFactor l call r)).sum -
        ((lineRows l call key).map fun r => x r.1 * (present r * flowRate l call r)).sum := by
  unfold listingGaps
  induction lineRows l call key with
  | nil => simp
  | cons r rows ih =>
    simp only [List.map_cons, worth_cons, List.sum_cons, ih]
    ring

/-- The rows of a page make up the total of the line for all amounts exactly when no row has a gap. -/
theorem listing_agrees_iff
    (hnominal : ∀ r ∈ l.rowsInRange (rangeOf l call), r.2.paymentCurrency.getD r.2.currency = r.2.currency) :
    (∀ x, |((lineRows l call key).map fun r => roundTo 4 (x r.1 * (present r * listedFactor l call r))).sum -
        (flowLine l call x key).totalValue| ≤ ((lineRows l call key).length + 1) * (1 / 2 / 10 ^ 4)) ↔
      ∀ r ∈ lineRows l call key, present r * (listedFactor l call r - flowRate l call r) = 0 := by
  rw [← forall_amountOf_map_eq_zero (f := Prod.fst) nodup_lineRows]
  refine forall_abs_le_iff (fun x => ?_) le_rfl
  have hlisted := abs_sum_roundTo_sub_le 4 (lineRows l call key) fun r => x r.1 * (present r * listedFactor l call r)
  have hline := abs_roundTo_sub_le 4 ((aggregated l call key).map fun r => x r.1 * (present r * flowRate l call r)).sum
  have hperm : (lineRows l call key).Perm (aggregated l call key) := lineRows_perm_aggregated hnominal
  have hsame := (hperm.map fun r => x r.1 * (present r * flowRate l call r)).sum_eq
  have htotal : (flowLine l call x key).totalValue =
      roundTo 4 ((aggregated l call key).map fun r => x r.1 * (present r * flowRate l call r)).sum := rfl
  change |_ - _ - worth x (listingGaps l call key)| ≤ _
  rw [worth_listingGaps, htotal, hsame]
  rw [abs_le] at hlisted hline ⊢
  constructor <;> linarith

end

section

variable {l : Ledger} {call : ViewCall} {x : ℕ → ℚ}

theorem everyLineDrillsDown_priced {cash : CashFlowSummary} (hcash : getCashFlow l call = .ok cash) :
    EveryLineDrillsDown (l.priced x) call ↔
      ∀ key ∈ flowKeys l call, DrillsDown (l.priced x) call (flowLine l call x key) := by
  obtain ⟨cash', hcash'⟩ := exists_getCashFlow_priced.mpr ⟨cash, hcash⟩
  constructor
  · intro h key hkey
    refine h cash' hcash' _ ?_
    rw [getCashFlow_lines hcash']
    exact List.mem_map_of_mem hkey
  · intro h cash'' hcash'' line hline
    rw [getCashFlow_lines hcash''] at hline
    obtain ⟨key, hkey, rfl⟩ := List.mem_map.mp hline
    exact h key hkey

theorem mem_lineRows_priced {key : CashFlowKey} {r : ℕ × Transaction} (hr : r ∈ l.rowsInRange (rangeOf l call)) :
    pricedRow x r ∈ lineRows (l.priced x) call key ↔ matchesLine l call key r = true := by
  have hmem : pricedRow x r ∈ (l.priced x).rowsInRange (rangeOf (l.priced x) call) := by
    rw [show rangeOf (l.priced x) call = rangeOf l call from rfl, rowsInRange_priced]
    exact List.mem_map_of_mem hr
  rw [lineRows_perm.mem_iff, List.mem_filter]
  exact and_iff_right hmem

theorem mem_aggregated_priced {r : ℕ × Transaction} (hr : r ∈ l.rowsInRange (rangeOf l call)) :
    pricedRow x r ∈ aggregated (l.priced x) call (flowKey l call r) := by
  rw [aggregated_priced]
  refine List.mem_map_of_mem ?_
  rw [aggregated_perm.mem_iff, List.mem_filter]
  exact ⟨hr, decide_eq_true rfl⟩

theorem nominal_of_drillsDown (h : ∀ key ∈ flowKeys l call, DrillsDown (l.priced x) call (flowLine l call x key))
    {r : ℕ × Transaction} (hr : r ∈ l.rowsInRange (rangeOf l call)) :
    r.2.paymentCurrency.getD r.2.currency = r.2.currency := by
  have hline := h (flowKey l call r) (mem_flowKeys.mpr ⟨r, hr, rfl⟩)
  have hagg : pricedRow x r ∈ aggregated (l.priced x) call (flowKey l call r) := mem_aggregated_priced hr
  have hmatch := (mem_lineRows_priced hr).mp ((hline.selects (pricedRow x r)).mpr hagg)
  have hcur : r.2.currency = (flowKey l call r).currency := hline.denominated (pricedRow x r) hagg
  simp only [matchesLine, Bool.and_eq_true, decide_eq_true_eq] at hmatch
  exact hmatch.2.trans hcur.symm

theorem count_flowLine (hnominal : ∀ r ∈ l.rowsInRange (rangeOf l call), r.2.paymentCurrency.getD r.2.currency = r.2.currency)
    (key : CashFlowKey) : (flowLine l call x key).count = (lineRows l call key).length :=
  (lineRows_perm_aggregated hnominal).length_eq.symm

end

/-- Every line of a cash flow, where there is one, drills down to its transactions for all amounts exactly when
these are in their own currency, can be listed, and are listed at the rates they count with. -/
theorem drills_down_iff (l : Ledger) (call : ViewCall) :
    (∀ x, EveryLineDrillsDown (l.priced x) call) ↔ ∀ cash, getCashFlow l call = .ok cash → DrillDownAgrees l call := by
  constructor
  · intro h cash hcash
    have hlines : ∀ x, ∀ key ∈ flowKeys l call, DrillsDown (l.priced x) call (flowLine l call x key) :=
      fun x => (everyLineDrillsDown_priced hcash).mp (h x)
    have hnominal : ∀ r ∈ l.rowsInRange (rangeOf l call), r.2.paymentCurrency.getD r.2.currency = r.2.currency :=
      fun r hr => nominal_of_drillsDown (hlines 0) hr
    have hlisted : ∀ key ∈ flowKeys l call, ∀ r ∈ (lineRows l call key).take 50, r.2.totalValue.isSome ∧
        ∃ rate, listedRate l call (r.2.paymentCurrency.getD r.2.currency) r.2.timestamp = .ok rate := by
      intro key hkey
      obtain ⟨page, hpage, _⟩ := (hlines 0 key hkey).lists
      exact exists_page.mp ⟨page, hpage⟩
    refine ⟨hnominal, hlisted, fun key hkey hfits r hr => ?_⟩
    have hsums : ∀ x, |((lineRows l call key).map fun r => roundTo 4 (x r.1 * (present r * listedFactor l call r))).sum -
        (flowLine l call x key).totalValue| ≤ ((lineRows l call key).length + 1) * (1 / 2 / 10 ^ 4) := by
      intro x
      obtain ⟨page, hpage, _, hsum⟩ := (hlines x key hkey).lists
      have hpage' : getCashFlowTxns (l.priced x) call key = .ok page := hpage
      obtain ⟨htotal, hshown⟩ := page_eq hpage'
      have hx := hsum (htotal.trans_le hfits)
      rwa [hshown, List.take_of_length_le hfits, count_flowLine hnominal] at hx
    have hgap := (listing_agrees_iff hnominal).mp hsums r hr
    have hsome := (hlisted key hkey r (by rwa [List.take_of_length_le hfits])).1
    rw [present, if_pos hsome, one_mul, sub_eq_zero] at hgap
    exact hgap
  · intro h x cash' hcash'
    obtain ⟨cash, hcash⟩ := exists_getCashFlow_priced.mp ⟨cash', hcash'⟩
    have hagrees := h cash hcash
    refine (everyLineDrillsDown_priced hcash).mpr (fun key hkey => ?_) cash' hcash'
    have hperm : (lineRows (l.priced x) call key).Perm (aggregated (l.priced x) call key) := by
      rw [lineRows_priced, aggregated_priced]
      exact (lineRows_perm_aggregated hagrees.nominal).map _
    refine ⟨fun r => hperm.mem_iff, fun r hr => ?_, ?_⟩
    · rw [aggregated_priced] at hr
      obtain ⟨r₀, hr₀, rfl⟩ := List.mem_map.mp hr
      obtain ⟨hmem, hkeyOf⟩ := List.mem_filter.mp (aggregated_perm.mem_iff.mp hr₀)
      have hmatch := (matchesLine_iff (hagrees.nominal r₀ hmem)).mpr (of_decide_eq_true hkeyOf)
      simp only [matchesLine, Bool.and_eq_true, decide_eq_true_eq] at hmatch
      exact (hagrees.nominal r₀ hmem).symm.trans hmatch.2
    · obtain ⟨page, hpage⟩ : ∃ page, getCashFlowTxns (l.priced x) call key = .ok page :=
        exists_page.mpr (hagrees.listed key hkey)
      obtain ⟨htotal, hshown⟩ := page_eq hpage
      have hcount := count_flowLine (x := x) hagrees.nominal key
      refine ⟨page, hpage, htotal.trans hcount.symm, fun hfits => ?_⟩
      have hfits' : (lineRows l call key).length ≤ 50 := htotal.symm.trans_le hfits
      rw [hshown, List.take_of_length_le hfits', hcount]
      refine (listing_agrees_iff hagrees.nominal).mpr (fun r hr => ?_) x
      rw [hagrees.rates key hkey hfits' r hr, sub_self, mul_zero]

end FinHub.CashFlow

namespace FinHub.Sample

open CashFlow

/-- 100 dollars spent from a pocket in euros, on 10 January 2026. -/
def paidFromEuros : Ledger :=
  (Ledger.empty .utc).insertTransaction
    { timestamp := Time.startOfDay 20463
      type := .moneyOut
      entityId := 0
      currency := usd
      paymentCurrency := some eur
      totalValue := some 100 }

def monthly (display_currency : Option Currency) : ViewCall where
  groupBy := .month
  displayCurrency := display_currency
  now := Time.startOfDay 20474

/-- Natively the line of 100 dollars lists nothing; in euros the 100 dollars are taken for euros. -/
theorem dollars_not_listed :
    ¬ EveryLineDrillsDown paidFromEuros (monthly none) ∧ ¬ EveryLineDrillsDown paidFromEuros (monthly (some eur)) := by
  constructor
  · intro h
    have hcash : getCashFlow paidFromEuros (monthly none) =
        .ok ⟨[⟨.month 2026 1, .moneyOut, 100, 1, usd, none⟩], 0, 100, -100, none⟩ := by
      decide +kernel
    obtain ⟨page, hpage, hcount, _⟩ := (h _ hcash _ (List.mem_singleton.mpr rfl)).lists
    have hempty : getCashFlowTxns paidFromEuros (monthly none) ⟨.month 2026 1, .moneyOut, usd, none⟩ = .ok ⟨[], 0⟩ := by
      decide +kernel
    obtain rfl := Except.ok.inj (hempty.symm.trans hpage)
    cases hcount
  · intro h
    have hcash : getCashFlow paidFromEuros (monthly (some eur)) =
        .ok ⟨[⟨.month 2026 1, .moneyOut, 100, 1, eur, none⟩], 0, 100, -100, none⟩ := by
      decide +kernel
    have hdollars := (h _ hcash _ (List.mem_singleton.mpr rfl)).denominated
    revert hdollars
    decide +kernel

end FinHub.Sample
