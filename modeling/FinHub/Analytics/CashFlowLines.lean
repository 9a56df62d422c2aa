import FinHub.Analytics.CashFlow
import FinHub.Lib.Groups

/-!
# FinHub.Analytics.CashFlowLines

The lines of the cash-flow views as sums over transactions.

Whether a view answers, and at which rates, does not depend on the amounts. `Ledger.priced` replaces them;
`getCashFlow_lines` gives the lines for all amounts at once.
-/

namespace FinHub

open Decimal Groups Worth

/-! ## Other amounts -/

/-- A transaction with another amount, where it has one. -/
def pricedRow (x : ℕ → ℚ) (r : ℕ × Transaction) : ℕ × Transaction :=
  (r.1, { r.2 with totalValue := r.2.totalValue.map fun _ => x r.1 })

def Ledger.priced (x : ℕ → ℚ) (l : Ledger) : Ledger :=
  { l with transactions := l.transactions.mapRows fun id t => (pricedRow x (id, t)).2 }

/-- 1 where a transaction has an amount. -/
def present (r : ℕ × Transaction) : ℚ := if r.2.totalValue.isSome then 1 else 0

theorem totalValue_pricedRow (x : ℕ → ℚ) (r : ℕ × Transaction) :
    (pricedRow x r).2.totalValue.getD 0 = x r.1 * present r := by
  unfold pricedRow present
  cases r.2.totalValue <;> simp

theorem rowsInRange_priced (l : Ledger) (x : ℕ → ℚ) (range : Option Timestamp × Option Timestamp) :
    (l.priced x).rowsInRange range = (l.rowsInRange range).map (pricedRow x) := by
  unfold Ledger.rowsInRange Ledger.priced Tabular.Table.mapRows
  rw [List.filter_map]
  rfl

/-! ## Groups of a query -/

section

variable {κ : Type}

theorem QueryGroup.totalValue_eq_some {g : QueryGroup κ} {v : ℚ} (h : g.totalValue = some v) :
    v = (g.rows.map fun r => r.2.totalValue.getD 0).sum := by
  simp only [QueryGroup.totalValue] at h
  split_ifs at h
  obtain rfl := Option.some.inj h
  clear h
  induction g.rows with
  | nil => rfl
  | cons r rows ih => cases hr : r.2.totalValue <;> simp [hr, ih]

/-- The sum of a group is missing where all of its amounts are. -/
theorem QueryGroup.totalValue_eq_none {g : QueryGroup κ} :
    g.totalValue = none ↔ ∀ r ∈ g.rows, r.2.totalValue = none := by
  simp only [QueryGroup.totalValue]
  split_ifs with h
  · exact iff_of_true rfl (List.filterMap_eq_nil_iff.mp h)
  · exact iff_of_false (by simp) fun hall => h (List.filterMap_eq_nil_iff.mpr hall)

/-- A group with other amounts. -/
def QueryGroup.priced (x : ℕ → ℚ) (g : QueryGroup κ) : QueryGroup κ := ⟨g.key, g.rows.map (pricedRow x)⟩

theorem QueryGroup.totalValue_priced_eq_none {x : ℕ → ℚ} {g : QueryGroup κ} :
    (g.priced x).totalValue = none ↔ g.totalValue = none := by
  rw [QueryGroup.totalValue_eq_none, QueryGroup.totalValue_eq_none]
  unfold QueryGroup.priced
  rw [List.forall_mem_map]
  refine forall₂_congr fun r _ => ?_
  exact Option.map_eq_none_iff

variable [DecidableEq κ]

theorem groupRows_priced {key : ℕ × Transaction → κ} {x : ℕ → ℚ} (hkey : ∀ r, key (pricedRow x r) = key r)
    (rows : List (ℕ × Transaction)) :
    groupRows key (rows.map (pricedRow x)) = (groupRows key rows).map (QueryGroup.priced x) := by
  have hkeys : (rows.map (pricedRow x)).map key = rows.map key := by
    rw [List.map_map]
    exact List.map_congr_left fun r _ => hkey r
  unfold groupRows
  rw [hkeys, List.map_map]
  refine List.map_congr_left fun k _ => ?_
  simp only [Function.comp_apply, QueryGroup.priced, List.filter_map, Function.comp_def, hkey]

end

/-! ## Converted rows -/

namespace CashFlow

section

variable (l : Ledger) (disp : Currency)

/-- The rate of a currency as of an instant, if one is found. -/
def rateOption (cur : Currency) (at_ : Timestamp) : Option ℚ :=
  (l.rateResponse cur disp (some at_)).toOption.map Prod.fst

/-- The first of the rows in a currency on a day. -/
def firstOfDay (rows : List CashFlowTaggedRow) (cur : Currency) (day : ℤ) : Option CashFlowTaggedRow :=
  rows.find? fun row => decide (row.effCurrency = cur ∧ Time.dayOf row.timestamp = day)

/-- The rate that a row is converted at: the one of the first row of its currency and day. -/
def dayRate (rows : List CashFlowTaggedRow) (row : CashFlowTaggedRow) : Option ℚ :=
  if row.effCurrency = disp then none
  else
    (firstOfDay rows row.effCurrency (Time.dayOf row.timestamp)).bind fun first =>
      rateOption l disp row.effCurrency first.timestamp

/-- What the cache holds after some rows. -/
def Caches (rows : List CashFlowTaggedRow) (cache : RateCache) : Prop :=
  ∀ cur day, cur ≠ disp → cache.lookup (cur, day) =
    (firstOfDay rows cur day).map fun first => rateOption l disp cur first.timestamp

variable {l disp}

theorem firstOfDay_append_of_ne {rows : List CashFlowTaggedRow} {row : CashFlowTaggedRow} {cur : Currency} {day : ℤ}
    (h : ¬ (row.effCurrency = cur ∧ Time.dayOf row.timestamp = day)) :
    firstOfDay (rows ++ [row]) cur day = firstOfDay rows cur day := by
  unfold firstOfDay
  rw [List.find?_append, List.find?_singleton, decide_eq_false h]
  simp

theorem rateFor_eq_ok {rows : List CashFlowTaggedRow} {row : CashFlowTaggedRow} {cache : RateCache}
    (hcache : Caches l disp rows cache) (hne : row.effCurrency ≠ disp) {r : Option ℚ × RateCache}
    (h : rateFor l disp cache row.effCurrency row.timestamp = .ok r) (rest : List CashFlowTaggedRow) :
    r.1 = dayRate l disp (rows ++ row :: rest) row ∧ Caches l disp (rows ++ [row]) r.2 := by
  have hlookup := hcache row.effCurrency (Time.dayOf row.timestamp) hne
  unfold rateFor at h
  unfold dayRate
  rw [if_neg hne]
  simp only at h
  cases hfirst : firstOfDay rows row.effCurrency (Time.dayOf row.timestamp) with
  | some first =>
    -- The day is in the cache.
    rw [hfirst, Option.map_some] at hlookup
    rw [hlookup] at h
    cases h
    have hwhole : firstOfDay (rows ++ row :: rest) row.effCurrency (Time.dayOf row.timestamp) = some first := by
      unfold firstOfDay at hfirst ⊢
      rw [List.find?_append, hfirst]
      rfl
    refine ⟨by rw [hwhole]; rfl, fun cur day hcur => ?_⟩
    rw [hcache cur day hcur]
    by_cases hrow : row.effCurrency = cur ∧ Time.dayOf row.timestamp = day
    · obtain ⟨rfl, rfl⟩ := hrow
      unfold firstOfDay at hfirst ⊢
      rw [List.find?_append, hfirst]
      rfl
    · rw [firstOfDay_append_of_ne hrow]
  | none =>
    -- The row is the first of its day.
    rw [hfirst, Option.map_none] at hlookup
    rw [hlookup] at h
    have hwhole : ∀ tail, firstOfDay (rows ++ row :: tail) row.effCurrency (Time.dayOf row.timestamp) = some row := by
      intro tail
      unfold firstOfDay at hfirst ⊢
      rw [List.find?_append, hfirst, Option.none_or, List.find?_cons_of_pos (by simp)]
    have hr : r = (rateOption l disp row.effCurrency row.timestamp,
        ((row.effCurrency, Time.dayOf row.timestamp), rateOption l disp row.effCurrency row.timestamp) :: cache) := by
      unfold rateOption
      cases hrate : l.rateResponse row.effCurrency disp (some row.timestamp) with
      | ok q =>
        rw [hrate] at h
        cases h
        rfl
      | error e =>
        rw [hrate] at h
        cases e <;> cases h
        rfl
    subst hr
    refine ⟨by rw [hwhole]; rfl, fun cur day hcur => ?_⟩
    by_cases hrow : row.effCurrency = cur ∧ Time.dayOf row.timestamp = day
    · obtain ⟨rfl, rfl⟩ := hrow
      rw [hwhole, List.lookup_cons, beq_self_eq_true]
      rfl
    · have hkey : ((cur, day) == (row.effCurrency, Time.dayOf row.timestamp)) = false := by
        rw [beq_eq_false_iff_ne]
        intro heq
        cases heq
        exact hrow ⟨rfl, rfl⟩
      rw [List.lookup_cons, hkey, firstOfDay_append_of_ne hrow]
      exact hcache cur day hcur

theorem convertTagged_eq_ok {rows rest : List CashFlowTaggedRow} {cache : RateCache}
    (hcache : Caches l disp rows cache) {converted : List (CashFlowTaggedRow × ℚ)}
    (h : convertTagged l disp cache rest = .ok converted) :
    converted = rest.map fun row =>
      (row, row.totalValue.getD 0 * factorOf (dayRate l disp (rows ++ rest) row)) := by
  induction rest generalizing rows cache converted with
  | nil =>
    cases h
    rfl
  | cons row rest ih =>
    unfold convertTagged at h
    obtain ⟨r, hr, h⟩ := Runs.bind_eq_ok.mp h
    have hstep : r.1 = dayRate l disp (rows ++ row :: rest) row ∧ Caches l disp (rows ++ [row]) r.2 := by
      unfold taggedRate at hr
      by_cases hdisp : row.effCurrency = disp
      · rw [if_pos hdisp] at hr
        cases hr
        refine ⟨(if_pos hdisp).symm, fun cur day hcur => ?_⟩
        rw [firstOfDay_append_of_ne fun hrow => hcur (hrow.1.symm.trans hdisp)]
        exact hcache cur day hcur
      · rw [if_neg hdisp] at hr
        exact rateFor_eq_ok hcache hdisp hr rest
    cases htotal : row.totalValue with
    | none =>
      rw [htotal] at h
      cases h
    | some total_value =>
      rw [htotal] at h
      obtain ⟨others, hothers, h⟩ := Runs.bind_eq_ok.mp h
      cases h
      have hrest := ih hstep.2 hothers
      rw [List.append_assoc, List.singleton_append] at hrest
      rw [hrest, hstep.1, List.map_cons, htotal]
      rfl

/-- Whether the rows are converted does not depend on their amounts. -/
theorem exists_convertTagged {g : CashFlowTaggedRow → CashFlowTaggedRow} (hcur : ∀ row, (g row).effCurrency = row.effCurrency)
    (htime : ∀ row, (g row).timestamp = row.timestamp)
    (htotal : ∀ row, (g row).totalValue.isSome = row.totalValue.isSome) {rows : List CashFlowTaggedRow} {cache : RateCache} :
    (∃ converted, convertTagged l disp cache (rows.map g) = .ok converted) ↔
      ∃ converted, convertTagged l disp cache rows = .ok converted := by
  induction rows generalizing cache with
  | nil => exact Iff.rfl
  | cons row rows ih =>
    rw [List.map_cons]
    unfold convertTagged
    have hrate : taggedRate l disp cache (g row) = taggedRate l disp cache row := by
      unfold taggedRate
      rw [hcur, htime]
    simp only [Runs.bind_eq_ok, hrate]
    rw [exists_comm, exists_comm (α := List (CashFlowTaggedRow × ℚ))]
    refine exists_congr fun r => ?_
    simp only [exists_and_left]
    refine and_congr_right fun _ => ?_
    have hsome := htotal row
    cases hrow : row.totalValue with
    | none =>
      rw [hrow, Option.isSome_none, Option.isSome_eq_false_iff, Option.isNone_iff_eq_none] at hsome
      rw [hsome]
    | some total_value =>
      rw [hrow, Option.isSome_some] at hsome
      obtain ⟨v, hv⟩ := Option.isSome_iff_exists.mp hsome
      rw [hv]
      constructor
      · rintro ⟨_, hconverted⟩
        obtain ⟨others, hothers, _⟩ := Runs.bind_eq_ok.mp hconverted
        obtain ⟨rest, hrest⟩ := ih.mp ⟨others, hothers⟩
        exact ⟨_, Runs.bind_eq_ok.mpr ⟨rest, hrest, rfl⟩⟩
      · rintro ⟨_, hconverted⟩
        obtain ⟨others, hothers, _⟩ := Runs.bind_eq_ok.mp hconverted
        obtain ⟨rest, hrest⟩ := ih.mpr ⟨others, hothers⟩
        exact ⟨_, Runs.bind_eq_ok.mpr ⟨rest, hrest, rfl⟩⟩

end

/-! ## The lines of a cash flow -/

section

variable (l : Ledger) (call : ViewCall)

/-- The currency of the line of a transaction. -/
def lineCurrency (t : Transaction) : Currency :=
  match call.displayCurrency with
  | none => t.currency
  | some _ => t.paymentCurrency.getD t.currency

def flowKey (r : ℕ × Transaction) : CashFlowKey :=
  ⟨periodExpr l.timezone call.now call.groupBy r.2.timestamp, r.2.type, lineCurrency call r.2, flowCategory r.2⟩

/-- The transactions in the order a cash flow takes them in. -/
def flowRows : List (ℕ × Transaction) :=
  match call.displayCurrency with
  | none => l.rowsInRange (rangeOf l call)
  | some _ => (l.rowsInRange (rangeOf l call)).insertionSort fun r r' => r.2.timestamp ≤ r'.2.timestamp

def taggedRows : List CashFlowTaggedRow := l.getCashFlowTagged call.now call.groupBy (rangeOf l call)

/-- The rate that a transaction is converted at. -/
def flowRate (r : ℕ × Transaction) : ℚ :=
  match call.displayCurrency with
  | none => 1
  | some disp => factorOf (dayRate l disp (taggedRows l call) (l.cashFlowTaggedRow call.now call.groupBy r))

variable {l call} {x : ℕ → ℚ}

theorem flowRows_perm : (flowRows l call).Perm (l.rowsInRange (rangeOf l call)) := by
  unfold flowRows
  cases call.displayCurrency with
  | none => exact .refl _
  | some disp => exact List.perm_insertionSort _ _

/-- A row of the tagged query with another amount. -/
def pricedTagged (x : ℕ → ℚ) (row : CashFlowTaggedRow) : CashFlowTaggedRow :=
  { row with totalValue := row.totalValue.map fun _ => x row.id }

theorem insertionSort_priced (rows : List (ℕ × Transaction)) :
    ((rows.map (pricedRow x)).insertionSort fun r r' => r.2.timestamp ≤ r'.2.timestamp) =
      (rows.insertionSort fun r r' => r.2.timestamp ≤ r'.2.timestamp).map (pricedRow x) :=
  (List.map_insertionSort _ _ (pricedRow x) rows fun _ _ _ _ => Iff.rfl).symm

theorem flowRows_priced : flowRows (l.priced x) call = (flowRows l call).map (pricedRow x) := by
  unfold flowRows
  rw [show rangeOf (l.priced x) call = rangeOf l call from rfl, rowsInRange_priced]
  cases call.displayCurrency with
  | none => rfl
  | some disp => exact insertionSort_priced _

theorem taggedRows_priced : taggedRows (l.priced x) call = (taggedRows l call).map (pricedTagged x) := by
  unfold taggedRows Ledger.getCashFlowTagged
  rw [show rangeOf (l.priced x) call = rangeOf l call from rfl, rowsInRange_priced, insertionSort_priced,
    List.map_map, List.map_map]
  rfl

theorem dayRate_map {disp : Currency} {g : CashFlowTaggedRow → CashFlowTaggedRow}
    (hcur : ∀ row, (g row).effCurrency = row.effCurrency) (htime : ∀ row, (g row).timestamp = row.timestamp)
    (rows : List CashFlowTaggedRow) (row : CashFlowTaggedRow) :
    dayRate l disp (rows.map g) (g row) = dayRate l disp rows row := by
  unfold dayRate firstOfDay
  rw [hcur, htime, List.find?_map, Option.bind_map]
  simp only [Function.comp_def, hcur, htime]

theorem flowRate_priced (r : ℕ × Transaction) :
    flowRate (l.priced x) call (pricedRow x r) = flowRate l call r := by
  unfold flowRate
  rw [taggedRows_priced]
  cases call.displayCurrency with
  | none => rfl
  | some disp =>
    have hrow : (l.priced x).cashFlowTaggedRow call.now call.groupBy (pricedRow x r) =
        pricedTagged x (l.cashFlowTaggedRow call.now call.groupBy r) := rfl
    simp only [hrow]
    exact congrArg factorOf (dayRate_map (l := l.priced x) (g := pricedTagged x) (fun _ => rfl) (fun _ => rfl) _ _)

/-- The line of a key. -/
def flowLine (l : Ledger) (call : ViewCall) (x : ℕ → ℚ) (key : CashFlowKey) : CashFlowLine :=
  let ofKey := (flowRows l call).filter fun r => decide (flowKey l call r = key)
  lineOf key (ofKey.map fun r => x r.1 * (present r * flowRate l call r)).sum ofKey.length

/-- The keys of the lines, each once. -/
def flowKeys (l : Ledger) (call : ViewCall) : List CashFlowKey := ((flowRows l call).map (flowKey l call)).eraseDups

theorem taggedLines_map {key : ℕ × Transaction → CashFlowKey} {f : ℕ × Transaction → CashFlowTaggedRow × ℚ}
    (hkey : ∀ r, taggedKey (f r).1 = key r) (rows : List (ℕ × Transaction)) :
    taggedLines (rows.map f) = (rows.map key).eraseDups.map fun k =>
      lineOf k ((rows.filter fun r => decide (key r = k)).map fun r => (f r).2).sum
        (rows.filter fun r => decide (key r = k)).length := by
  unfold taggedLines
  simp only [List.map_map, List.filter_map, List.length_map, Function.comp_def, hkey]

/-- The rows of the tagged query as they are converted. -/
theorem converted_eq {disp : Currency} (hdisp : call.displayCurrency = some disp)
    {converted : List (CashFlowTaggedRow × ℚ)}
    (h : convertTagged (l.priced x) disp [] (taggedRows (l.priced x) call) = .ok converted) :
    converted = (flowRows l call).map fun r =>
      (pricedTagged x (l.cashFlowTaggedRow call.now call.groupBy r), x r.1 * (present r * flowRate l call r)) := by
  have hempty : Caches (l.priced x) disp [] [] := fun _ _ _ => rfl
  have htagged : taggedRows (l.priced x) call =
      (flowRows l call).map fun r => pricedTagged x (l.cashFlowTaggedRow call.now call.groupBy r) := by
    rw [taggedRows_priced]
    unfold flowRows
    rw [hdisp]
    exact List.map_map
  rw [convertTagged_eq_ok hempty h, List.nil_append, htagged, List.map_map]
  refine List.map_congr_left fun r _ => ?_
  rw [Function.comp_apply, ← htagged]
  have hrate : flowRate (l.priced x) call (pricedRow x r) = flowRate l call r := flowRate_priced r
  unfold flowRate at hrate
  unfold flowRate
  rw [hdisp] at hrate ⊢
  simp only at hrate ⊢
  have hvalue : (pricedTagged x (l.cashFlowTaggedRow call.now call.groupBy r)).totalValue.getD 0 = x r.1 * present r :=
    totalValue_pricedRow x r
  rw [hvalue, ← hrate, mul_assoc]
  rfl

theorem getCashFlow_lines {cash : CashFlowSummary} (h : getCashFlow (l.priced x) call = .ok cash) :
    cash.lines = (flowKeys l call).map (flowLine l call x) := by
  unfold getCashFlow at h
  cases hdisp : call.displayCurrency with
  | none =>
    rw [hdisp] at h
    obtain ⟨pairs, hpairs, h⟩ := Runs.bind_eq_ok.mp h
    cases h
    have hlines := Runs.map_eq_of_mapM (p := Prod.fst)
      (q := fun g : QueryGroup CashFlowKey => lineOf g.key (g.rows.map fun r => r.2.totalValue.getD 0).sum g.count)
      (fun g y hy => by
        unfold nativeLine at hy
        cases htotal : g.totalValue with
        | none =>
          rw [htotal] at hy
          cases hy
        | some v =>
          rw [htotal] at hy
          cases hy
          rw [QueryGroup.totalValue_eq_some htotal]) hpairs
    have hkey : ∀ r, flowKey l call r = ⟨periodExpr l.timezone call.now call.groupBy r.2.timestamp, r.2.type,
        r.2.currency, flowCategory r.2⟩ := by
      intro r
      unfold flowKey lineCurrency
      rw [hdisp]
    have hgroups : (l.priced x).getCashFlowRaw call.now call.groupBy (rangeOf (l.priced x) call) =
        (groupRows (flowKey l call) (flowRows l call)).map (QueryGroup.priced x) := by
      unfold Ledger.getCashFlowRaw flowRows
      rw [show rangeOf (l.priced x) call = rangeOf l call from rfl, rowsInRange_priced, hdisp,
        show (l.priced x).timezone = l.timezone from rfl, ← groupRows_priced fun r => rfl]
      exact congrArg (fun key => groupRows key _) (funext fun r => (hkey r).symm)
    have hrate : ∀ r, flowRate l call r = 1 := by
      intro r
      unfold flowRate
      rw [hdisp]
    rw [hgroups] at hlines
    refine hlines.trans ?_
    unfold groupRows flowKeys
    rw [List.map_map, List.map_map]
    refine List.map_congr_left fun k _ => ?_
    simp only [Function.comp_apply, flowLine, QueryGroup.priced, QueryGroup.count, List.map_map, Function.comp_def,
      totalValue_pricedRow, hrate, mul_one, List.length_map]
  | some disp =>
    rw [hdisp] at h
    obtain ⟨converted, hconverted, h⟩ := Runs.bind_eq_ok.mp h
    obtain ⟨info, _, h⟩ := Runs.bind_eq_ok.mp h
    cases h
    simp only [summary, List.map_map, Function.comp_def, List.map_id']
    rw [converted_eq hdisp hconverted, taggedLines_map fun r => ?_]
    · rfl
    · unfold flowKey lineCurrency
      rw [hdisp]
      rfl

theorem convertTagged_priced (disp : Currency) (cache : RateCache) (rows : List CashFlowTaggedRow) :
    convertTagged (l.priced x) disp cache rows = convertTagged l disp cache rows := by
  induction rows generalizing cache with
  | nil => rfl
  | cons row rows ih =>
    unfold convertTagged
    rw [show taggedRate (l.priced x) disp cache row = taggedRate l disp cache row from rfl]
    simp only [ih]

theorem exists_nativeLine {g : QueryGroup CashFlowKey} : (∃ y, nativeLine g = .ok y) ↔ g.totalValue ≠ none := by
  unfold nativeLine
  cases g.totalValue with
  | none => exact iff_of_false (by rintro ⟨y, hy⟩; cases hy) fun h => h rfl
  | some v => exact iff_of_true ⟨_, rfl⟩ (by simp)

/-- Whether there is an answer does not depend on the amounts. -/
theorem exists_getCashFlow_priced :
    (∃ cash, getCashFlow (l.priced x) call = .ok cash) ↔ ∃ cash, getCashFlow l call = .ok cash := by
  unfold getCashFlow
  cases hdisp : call.displayCurrency with
  | none =>
    have hreturns : ∀ groups : List (QueryGroup CashFlowKey),
        (∃ cash, (groups.mapM nativeLine >>= fun lines => .ok (summary lines none)) = .ok cash) ↔
          ∀ g ∈ groups, g.totalValue ≠ none := by
      intro groups
      rw [← forall₂_congr fun g _ => exists_nativeLine, ← Runs.exists_mapM_iff]
      constructor
      · rintro ⟨cash, h⟩
        obtain ⟨lines, hlines, _⟩ := Runs.bind_eq_ok.mp h
        exact ⟨lines, hlines⟩
      · rintro ⟨lines, hlines⟩
        exact ⟨_, Runs.bind_eq_ok.mpr ⟨lines, hlines, rfl⟩⟩
    have hgroups : (l.priced x).getCashFlowRaw call.now call.groupBy (rangeOf (l.priced x) call) =
        (l.getCashFlowRaw call.now call.groupBy (rangeOf l call)).map (QueryGroup.priced x) := by
      unfold Ledger.getCashFlowRaw
      rw [show rangeOf (l.priced x) call = rangeOf l call from rfl, rowsInRange_priced]
      exact groupRows_priced (fun _ => rfl) _
    rw [hreturns, hreturns, hgroups, List.forall_mem_map]
    exact forall₂_congr fun g _ => not_congr QueryGroup.totalValue_priced_eq_none
  | some disp =>
    have hreturns : ∀ (rows : List CashFlowTaggedRow) (ledger : Ledger),
        (∃ cash, (convertTagged ledger disp [] rows >>= fun converted =>
          ledger.getRateMetadata disp call.now (rows.map CashFlowTaggedRow.effCurrency) >>= fun rate_info =>
            .ok (summary ((taggedLines converted).map fun line => (line, line.totalValue)) rate_info)) = .ok cash) ↔
          (∃ converted, convertTagged ledger disp [] rows = .ok converted) ∧
            ∃ info, ledger.getRateMetadata disp call.now (rows.map CashFlowTaggedRow.effCurrency) = .ok info := by
      intro rows ledger
      constructor
      · rintro ⟨cash, h⟩
        obtain ⟨converted, hconverted, h⟩ := Runs.bind_eq_ok.mp h
        obtain ⟨info, hinfo, _⟩ := Runs.bind_eq_ok.mp h
        exact ⟨⟨converted, hconverted⟩, info, hinfo⟩
      · rintro ⟨⟨converted, hconverted⟩, info, hinfo⟩
        exact ⟨_, Runs.bind_eq_ok.mpr ⟨converted, hconverted, Runs.bind_eq_ok.mpr ⟨info, hinfo, rfl⟩⟩⟩
    have htagged : (l.priced x).getCashFlowTagged call.now call.groupBy (rangeOf (l.priced x) call) =
        (taggedRows l call).map (pricedTagged x) := taggedRows_priced
    unfold taggedRows at htagged
    rw [hreturns, hreturns, htagged, convertTagged_priced,
      exists_convertTagged (g := pricedTagged x) (fun _ => rfl) (fun _ => rfl) (fun row => Option.isSome_map),
      List.map_map]
    exact Iff.rfl

end

/-! ## The lines of income by source -/

section

variable (l : Ledger) (call : ViewCall) (employer : ℕ → Bool)

/-- The transactions of the income view. -/
def incomeRows : List (ℕ × Transaction) :=
  (l.rowsInRange (rangeOf l call)).filter fun r =>
    decide (r.2.type = .income) && (l.entities.get? r.2.entityId).isSome

def incomeKeyOf (r : ℕ × Transaction) : IncomeKey := l.incomeKey call.now call.groupBy employer r

def incomeKeys : List IncomeKey := ((incomeRows l call).map (incomeKeyOf l call employer)).eraseDups

/-- The line of a key. -/
def sourceLine (x : ℕ → ℚ) (key : IncomeKey) : IncomeLine :=
  let ofKey := (incomeRows l call).filter fun r => decide (incomeKeyOf l call employer r = key)
  incomeLineOf key (ofKey.map fun r =>
    x r.1 * (present r * l.conversionRate call.displayCurrency r.2.currency none)).sum ofKey.length

variable {l call employer} {x : ℕ → ℚ}

theorem convertAt_of_foundOf {currencies : List Currency} {found : List FoundRate}
    (h : foundOf l call currencies = .ok found) {cur : Currency} (hcur : cur ∈ currencies) (value : ℚ) :
    convertAt found call.displayCurrency value cur = value * l.conversionRate call.displayCurrency cur none := by
  unfold foundOf at h
  cases hdisp : call.displayCurrency with
  | none => simp [convertAt, Ledger.conversionRate]
  | some display =>
    rw [hdisp] at h
    rw [convertAt_of_foundRates h, if_pos hcur]

theorem getIncomeBySourceRaw_priced :
    (l.priced x).getIncomeBySourceRaw call.now call.groupBy (rangeOf (l.priced x) call) employer =
      (l.getIncomeBySourceRaw call.now call.groupBy (rangeOf l call) employer).map (QueryGroup.priced x) := by
  unfold Ledger.getIncomeBySourceRaw
  rw [show rangeOf (l.priced x) call = rangeOf l call from rfl, rowsInRange_priced, List.filter_map]
  exact groupRows_priced (fun _ => rfl) _

theorem getIncomeBySource_data {view : IncomeView} (h : getIncomeBySource (l.priced x) call employer = .ok view) :
    view.data = (incomeKeys l call employer).map (sourceLine l call employer x) := by
  unfold getIncomeBySource at h
  rw [getIncomeBySourceRaw_priced] at h
  obtain ⟨found, hfound, h⟩ := Runs.bind_eq_ok.mp h
  obtain ⟨data, hdata, h⟩ := Runs.bind_eq_ok.mp h
  obtain ⟨info, _, h⟩ := Runs.bind_eq_ok.mp h
  cases h
  rw [show foundOf (l.priced x) call = foundOf l call from rfl] at hfound
  have hlines := Runs.map_eq_of_mapM (p := id)
    (q := fun g : QueryGroup IncomeKey => incomeLineOf g.key
      (convertAt found call.displayCurrency (g.rows.map fun r => r.2.totalValue.getD 0).sum g.key.currency) g.count)
    (fun g y hy => by
      unfold incomeLine at hy
      cases htotal : g.totalValue with
      | none =>
        rw [htotal] at hy
        cases hy
      | some v =>
        rw [htotal] at hy
        cases hy
        rw [QueryGroup.totalValue_eq_some htotal]
        rfl) hdata
  rw [List.map_id] at hlines
  refine hlines.trans ?_
  have hgroups : l.getIncomeBySourceRaw call.now call.groupBy (rangeOf l call) employer =
      (incomeKeys l call employer).map fun k =>
        ⟨k, (incomeRows l call).filter fun r => decide (incomeKeyOf l call employer r = k)⟩ := rfl
  rw [hgroups] at hfound ⊢
  rw [List.map_map, List.map_map]
  refine List.map_congr_left fun k hk => ?_
  have hcur : k.currency ∈ (((incomeKeys l call employer).map fun k => (⟨k, (incomeRows l call).filter fun r =>
      decide (incomeKeyOf l call employer r = k)⟩ : QueryGroup IncomeKey)).map (QueryGroup.priced x)).map
        fun g => g.key.currency := by
    rw [List.map_map, List.map_map]
    exact List.mem_map_of_mem (f := fun k : IncomeKey => k.currency) hk
  simp only [Function.comp_apply, QueryGroup.priced, QueryGroup.count, List.map_map, Function.comp_def,
    List.length_map]
  rw [convertAt_of_foundOf hfound hcur]
  unfold sourceLine
  simp only [totalValue_pricedRow, ← List.sum_map_mul_right]
  congr 2
  refine List.map_congr_left fun r hr => ?_
  have hkey : incomeKeyOf l call employer r = k := of_decide_eq_true (List.mem_filter.mp hr).2
  rw [← hkey, mul_assoc]
  rfl

theorem exists_incomeLine {found : List FoundRate} {g : QueryGroup IncomeKey} :
    (∃ y, incomeLine call found g = .ok y) ↔ g.totalValue ≠ none := by
  unfold incomeLine
  cases g.totalValue with
  | none => exact iff_of_false (by rintro ⟨y, hy⟩; cases hy) fun h => h rfl
  | some v => exact iff_of_true ⟨_, rfl⟩ (by simp)

theorem exists_getIncomeBySource_priced :
    (∃ view, getIncomeBySource (l.priced x) call employer = .ok view) ↔
      ∃ view, getIncomeBySource l call employer = .ok view := by
  have hreturns : ∀ ledger : Ledger, (∃ view, getIncomeBySource ledger call employer = .ok view) ↔
      ∃ found, foundOf ledger call ((ledger.getIncomeBySourceRaw call.now call.groupBy (rangeOf ledger call)
          employer).map fun g => g.key.currency) = .ok found ∧
        (∀ g ∈ ledger.getIncomeBySourceRaw call.now call.groupBy (rangeOf ledger call) employer,
          g.totalValue ≠ none) ∧
        ∃ info, rateInfoOf ledger call ((ledger.getIncomeBySourceRaw call.now call.groupBy (rangeOf ledger call)
          employer).map fun g => g.key.currency) = .ok info := by
    intro ledger
    constructor
    · rintro ⟨view, h⟩
      obtain ⟨found, hfound, h⟩ := Runs.bind_eq_ok.mp h
      obtain ⟨data, hdata, h⟩ := Runs.bind_eq_ok.mp h
      obtain ⟨info, hinfo, _⟩ := Runs.bind_eq_ok.mp h
      refine ⟨found, hfound, fun g hg => ?_, info, hinfo⟩
      exact exists_incomeLine.mp (Runs.exists_mapM_iff.mp ⟨data, hdata⟩ g hg)
    · rintro ⟨found, hfound, hall, info, hinfo⟩
      obtain ⟨data, hdata⟩ := Runs.exists_mapM_iff.mpr fun g hg => exists_incomeLine.mpr (hall g hg)
      exact ⟨_, Runs.bind_eq_ok.mpr ⟨found, hfound, Runs.bind_eq_ok.mpr ⟨data, hdata,
        Runs.bind_eq_ok.mpr ⟨info, hinfo, rfl⟩⟩⟩⟩
  rw [hreturns, hreturns, getIncomeBySourceRaw_priced, List.map_map, List.forall_mem_map]
  simp only [ne_eq, QueryGroup.totalValue_priced_eq_none]
  exact Iff.rfl

end

end CashFlow

end FinHub
