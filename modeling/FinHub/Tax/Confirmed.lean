import FinHub.Tax.FiscalYear

/-!
# FinHub.Tax.Confirmed

What becomes of the confirmed rows of a fiscal year.

* `lostRows`: the rows that never reach the result, since a later row has their transaction and
  definition, or since their definition is not in the catalog.
* `sum_last_add_lost`: the last rows of an item, definition by definition, and its lost rows are all
  its rows.
* `totalConfirmed_conserved`: `total_confirmed` is the sum of all rows without the lost ones, up to
  the rounding of each addition, and the year owes between nothing and its total.
-/

namespace FinHub.TaxEngine

open Decimal

/-! ## Rows and their items -/

/-- The row's amount in the display currency at the item's instant. -/
def converted (convert : Convert) (item : TaxItem) (row : TransactionTax) : ℚ :=
  match row.taxAmount with
  | some amount => convert amount row.currency item.timestamp
  | none => 0

/-- The row's amount at the instant of its own item, nothing for a transaction of no item. -/
def rowAmount (convert : Convert) (items : List TaxItem) (row : TransactionTax) : ℚ :=
  ((items.find? fun i => i.transactionId = row.transactionId).map
    fun item => converted convert item row).getD 0

/-- The converted amounts of the year's rows, each row once. -/
def rowsTotal (convert : Convert) (items : List TaxItem) (rows : List TransactionTax) : ℚ :=
  (rows.map (rowAmount convert items)).sum

/-- The rows that a later row of their key shadows, and those of a definition that is gone. -/
def lostRows (definitions : List TaxDefinition) : List TransactionTax → List TransactionTax
  | [] => []
  | row :: rows =>
    if rows.any (ofKey (row.transactionId, row.taxDefinitionId)) ∨
        row.taxDefinitionId ∉ definitions.map TaxDefinition.id then
      row :: lostRows definitions rows
    else lostRows definitions rows

/-- Of keys that do not repeat, one can meet a given key. -/
theorem sum_ite_key {α : Type} (key : α → ℕ) (f : α → ℚ) (k : ℕ) {l : List α}
    (h : (l.map key).Nodup) :
    (l.map fun a => if key a = k then f a else 0).sum =
      ((l.find? fun a => key a = k).map f).getD 0 := by
  induction l with
  | nil => rfl
  | cons a l ih =>
    rw [List.map_cons, List.nodup_cons] at h
    rw [List.map_cons, List.sum_cons]
    by_cases ha : key a = k
    · have hrest : (l.map fun b => if key b = k then f b else 0).sum = 0 := by
        refine List.sum_eq_zero fun x hx => ?_
        obtain ⟨b, hb, rfl⟩ := List.mem_map.mp hx
        exact if_neg fun hk : key b = k => h.1 (hk.trans ha.symm ▸ List.mem_map_of_mem hb)
      rw [if_pos ha, hrest, add_zero, List.find?_cons_of_pos (by simpa using ha)]
      rfl
    · rw [if_neg ha, zero_add, ih h.2, List.find?_cons_of_neg (by simpa using ha)]

/-- One more row in front is the answer of its key unless a later row is. -/
theorem getConfirmedTaxMap_cons (row : TransactionTax) (rows : List TransactionTax) (key : ℕ × ℕ) :
    getConfirmedTaxMap (row :: rows) key =
      (getConfirmedTaxMap rows key).or (if ofKey key row then some row else none) := by
  unfold getConfirmedTaxMap
  by_cases hk : ofKey key row = true
  · rw [List.filter_cons_of_pos hk, List.getLast?_cons, if_pos hk]
    cases (rows.filter (ofKey key)).getLast? <;> rfl
  · rw [List.filter_cons_of_neg hk, if_neg hk, Option.or_none]

theorem mem_of_getConfirmedTaxMap {rows : List TransactionTax} {key : ℕ × ℕ} {row : TransactionTax}
    (h : getConfirmedTaxMap rows key = some row) : row ∈ rows :=
  List.mem_of_mem_filter (List.mem_of_getLast? h)

/-- What the map answers of a key, weighed. -/
def lastWeight (w : TransactionTax → ℚ) (rows : List TransactionTax) (key : ℕ × ℕ) : ℚ :=
  match getConfirmedTaxMap rows key with
  | some row => w row
  | none => 0

theorem any_ofKey_iff (rows : List TransactionTax) (key : ℕ × ℕ) :
    rows.any (ofKey key) = true ↔ getConfirmedTaxMap rows key ≠ none := by
  rw [getConfirmedTaxMap, ne_eq, List.getLast?_eq_none_iff, List.filter_eq_nil_iff, List.any_eq_true]
  push Not
  rfl

theorem lastWeight_cons (w : TransactionTax → ℚ) (row : TransactionTax) (rows : List TransactionTax)
    (tid did : ℕ) : lastWeight w (row :: rows) (tid, did) = lastWeight w rows (tid, did) +
      if row.transactionId = tid ∧ row.taxDefinitionId = did ∧
        getConfirmedTaxMap rows (tid, did) = none then w row else 0 := by
  simp only [lastWeight, getConfirmedTaxMap_cons, ofKey, Bool.and_eq_true, decide_eq_true_eq]
  cases getConfirmedTaxMap rows (tid, did) with
  | some last => simp
  | none =>
    by_cases hk : row.transactionId = tid ∧ row.taxDefinitionId = did
    · simp [hk]
    · simp [hk]

/-- The last rows of a transaction, definition by definition, and its lost rows are all its rows. -/
theorem sum_last_add_lost {definitions : List TaxDefinition}
    (hdefs : (definitions.map TaxDefinition.id).Nodup) (w : TransactionTax → ℚ) (tid : ℕ)
    (rows : List TransactionTax) :
    (definitions.map fun d => lastWeight w rows (tid, d.id)).sum +
        (((lostRows definitions rows).filter fun r => r.transactionId = tid).map w).sum =
      ((rows.filter fun r => r.transactionId = tid).map w).sum := by
  induction rows with
  | nil => simp [lastWeight, getConfirmedTaxMap, lostRows]
  | cons row rows ih =>
    simp only [lastWeight_cons, List.sum_map_add]
    by_cases htid : row.transactionId = tid
    · subst htid
      -- The row is what the map answers of its definition, unless a later row is.
      set c := if getConfirmedTaxMap rows (row.transactionId, row.taxDefinitionId) = none
        then w row else 0 with hc
      have hnew : (definitions.map fun d => if row.transactionId = row.transactionId ∧
          row.taxDefinitionId = d.id ∧ getConfirmedTaxMap rows (row.transactionId, d.id) = none
          then w row else 0).sum =
          if row.taxDefinitionId ∈ definitions.map TaxDefinition.id then c else 0 := by
        have hkey := sum_ite_key TaxDefinition.id (fun _ => c) row.taxDefinitionId hdefs
        have hterm : ∀ d : TaxDefinition, (if row.transactionId = row.transactionId ∧
            row.taxDefinitionId = d.id ∧ getConfirmedTaxMap rows (row.transactionId, d.id) = none
            then w row else 0) = if d.id = row.taxDefinitionId then c else 0 := by
          intro d
          by_cases hd : d.id = row.taxDefinitionId
          · simp [hc, hd]
          · rw [if_neg hd, if_neg fun h => hd h.2.1.symm]
        rw [List.map_congr_left fun d _ => hterm d, hkey]
        cases hfind : definitions.find? fun d => d.id = row.taxDefinitionId with
        | some d =>
          have hd : d.id = row.taxDefinitionId := by simpa using List.find?_some hfind
          rw [if_pos (hd ▸ List.mem_map_of_mem (List.mem_of_find?_eq_some hfind))]
          rfl
        | none =>
          refine (if_neg fun hmem => ?_).symm
          obtain ⟨d, hd, he⟩ := List.mem_map.mp hmem
          exact absurd he (by simpa using List.find?_eq_none.mp hfind d hd)
      rw [hnew, List.filter_cons_of_pos (by simp), List.map_cons, List.sum_cons, lostRows, ← ih]
      by_cases hlost : rows.any (ofKey (row.transactionId, row.taxDefinitionId)) = true ∨
          row.taxDefinitionId ∉ definitions.map TaxDefinition.id
      · have hzero : (if row.taxDefinitionId ∈ definitions.map TaxDefinition.id then c else 0) = 0 := by
          rcases hlost with hany | hgone
          · rw [hc, if_neg ((any_ofKey_iff rows _).mp hany), ite_self]
          · rw [if_neg hgone]
        rw [if_pos hlost, List.filter_cons_of_pos (by simp), List.map_cons, List.sum_cons, hzero]
        ring
      · have hkept : c = w row := by
          rw [hc, if_pos]
          by_contra hsome
          exact hlost (.inl ((any_ofKey_iff rows _).mpr hsome))
        rw [if_neg hlost, if_pos (not_not.mp fun h => hlost (.inr h)), hkept]
        ring
    · have hnew : (definitions.map fun d => if row.transactionId = tid ∧
          row.taxDefinitionId = d.id ∧ getConfirmedTaxMap rows (tid, d.id) = none
          then w row else 0).sum = 0 := by
        refine List.sum_eq_zero fun x hx => ?_
        obtain ⟨d, -, rfl⟩ := List.mem_map.mp hx
        exact if_neg fun h => htid h.1
      rw [hnew, add_zero, List.filter_cons_of_neg (by simpa using htid), ← ih, lostRows]
      split_ifs
      · rw [List.filter_cons_of_neg (by simpa using htid)]
      · rfl

/-! ## The sum over the year -/

/-- Sums over the rows of each item are sums over rows, where ids do not repeat. -/
theorem sum_rows_of_items {items : List TaxItem} (hids : (items.map TaxItem.transactionId).Nodup)
    (convert : Convert) (rows : List TransactionTax) :
    (items.map fun i => ((rows.filter fun r => r.transactionId = i.transactionId).map
      (converted convert i)).sum).sum = rowsTotal convert items rows := by
  induction rows with
  | nil => simp [rowsTotal]
  | cons row rows ih =>
    have hcons : ∀ i : TaxItem, (((row :: rows).filter fun r =>
        r.transactionId = i.transactionId).map (converted convert i)).sum =
        (if i.transactionId = row.transactionId then converted convert i row else 0) +
          ((rows.filter fun r => r.transactionId = i.transactionId).map (converted convert i)).sum := by
      intro i
      by_cases h : i.transactionId = row.transactionId
      · rw [List.filter_cons_of_pos (by simpa using h.symm), List.map_cons, List.sum_cons, if_pos h]
      · rw [List.filter_cons_of_neg (by simpa using Ne.symm h), if_neg h, zero_add]
    rw [List.map_congr_left fun i _ => hcons i, List.sum_map_add, ih,
      sum_ite_key TaxItem.transactionId (fun i => converted convert i row) _ hids, rowsTotal,
      rowsTotal, List.map_cons, List.sum_cons, rowAmount]

/-- A definition gives an item at most the amount of its confirmed row. -/
theorem confirmedEntries_eq (definitions : List TaxDefinition) (confirmed : ConfirmedMap)
    (convert : Convert) (item : TaxItem) :
    confirmedEntries confirmed convert item (resolveItemTaxes definitions confirmed item) =
      definitions.filterMap fun d => (confirmed (item.transactionId, d.id)).bind fun row =>
        row.taxAmount.map fun amount =>
          (item.category, convert amount row.currency item.timestamp) := by
  rw [resolveItemTaxes, confirmedEntries, List.filterMap_filterMap]
  refine List.filterMap_congr fun d _ => ?_
  cases hrow : confirmed (item.transactionId, d.id) with
  | none => cases hd : applies d item <;> simp [resolveDefinition, hrow, hd]
  | some row =>
    cases hamount : row.taxAmount with
    | none => cases hd : applies d item <;> simp [resolveDefinition, hrow, hd, hamount]
    | some amount => simp [resolveDefinition, hrow, hamount]

/-- The converted confirmed amounts of an item: the last row of each definition. -/
theorem sum_confirmedEntries (definitions : List TaxDefinition) (rows : List TransactionTax)
    (convert : Convert) (item : TaxItem) :
    ((confirmedEntries (getConfirmedTaxMap rows) convert item
      (resolveItemTaxes definitions (getConfirmedTaxMap rows) item)).map Prod.snd).sum =
      (definitions.map fun d =>
        lastWeight (converted convert item) rows (item.transactionId, d.id)).sum := by
  rw [confirmedEntries_eq]
  induction definitions with
  | nil => rfl
  | cons d definitions ih =>
    rw [List.map_cons, List.sum_cons, ← ih, lastWeight, List.filterMap_cons]
    cases getConfirmedTaxMap rows (item.transactionId, d.id) with
    | none => simp
    | some row => cases hamount : row.taxAmount <;> simp [converted, hamount]

theorem length_confirmedEntries_le (definitions : List TaxDefinition) (confirmed : ConfirmedMap)
    (convert : Convert) (item : TaxItem) :
    (confirmedEntries confirmed convert item
      (resolveItemTaxes definitions confirmed item)).length ≤ definitions.length :=
  confirmedEntries_eq definitions confirmed convert item ▸ List.length_filterMap_le _ _

variable (items : List TaxItem) (categories : List TaxCategory) (bands : List TaxBand)
  (definitions : List TaxDefinition) (rows : List TransactionTax) (convert : Convert)

/-- The entries of the year's tally of confirmed amounts. -/
def yearEntries : List (TaxCategory × ℚ) :=
  items.flatMap fun item => confirmedEntries (getConfirmedTaxMap rows) convert item
    (resolveItemTaxes definitions (getConfirmedTaxMap rows) item)

theorem length_yearEntries_le :
    (yearEntries items definitions rows convert).length ≤ items.length * definitions.length := by
  rw [yearEntries, List.length_flatMap]
  refine (List.sum_le_card_nsmul _ definitions.length ?_).trans_eq (by simp)
  intro n hn
  obtain ⟨item, -, rfl⟩ := List.mem_map.mp hn
  exact length_confirmedEntries_le definitions _ convert item

/-- What is counted of the year's rows: all but the lost ones. -/
theorem sum_yearEntries (hids : (items.map TaxItem.transactionId).Nodup)
    (hdefs : (definitions.map TaxDefinition.id).Nodup) :
    ((yearEntries items definitions rows convert).map Prod.snd).sum =
      rowsTotal convert items rows - rowsTotal convert items (lostRows definitions rows) := by
  have hitem : ∀ item : TaxItem, ((confirmedEntries (getConfirmedTaxMap rows) convert item
      (resolveItemTaxes definitions (getConfirmedTaxMap rows) item)).map Prod.snd).sum +
      (((lostRows definitions rows).filter fun r => r.transactionId = item.transactionId).map
        (converted convert item)).sum =
      ((rows.filter fun r => r.transactionId = item.transactionId).map (converted convert item)).sum :=
    fun item => by
      rw [sum_confirmedEntries]
      exact sum_last_add_lost hdefs (converted convert item) item.transactionId rows
  rw [← sum_rows_of_items hids convert rows, ← sum_rows_of_items hids convert (lostRows _ _),
    List.map_congr_left fun i _ => (hitem i).symm, List.sum_map_add, add_sub_cancel_right,
    yearEntries, List.map_flatMap, List.flatMap, List.sum_flatten, List.map_map]
  rfl

/-- The sum over the categories has no more decimals to lose. -/
theorem total_confirmedByCat_isDecimal (confirmed : ConfirmedMap) :
    IsDecimal 4 (confirmedByCat items definitions confirmed convert).total :=
  (Tally.IsDecimal.tally (fun e he => by cases he) _).total

theorem totalConfirmed_of_computeFiscalYear {confirmed : ConfirmedMap} {base : Option TaxBase}
    {r : FiscalYearTaxResult}
    (hr : computeFiscalYear items categories bands definitions confirmed convert base = some r) :
    r.totalConfirmed = (confirmedByCat items definitions confirmed convert).total := by
  rw [← roundTo_of_isDecimal (total_confirmedByCat_isDecimal items definitions convert confirmed)]
  unfold computeFiscalYear at hr
  split at hr
  · cases hr; rfl
  · split at hr
    · obtain ⟨sum, -, rfl⟩ := Option.map_eq_some_iff.mp hr
      rfl
    · cases hr; rfl

/-! ## What is owed -/

theorem genericConfirmed_nonneg {generic : List (TaxItem × TransactionTax)} {sum : ℚ}
    (h : ∀ r ∈ generic, 0 ≤ converted convert r.1 r.2)
    (hsum : genericConfirmed convert generic = some sum) : 0 ≤ sum := by
  have hfold : ∀ acc : ℚ, 0 ≤ acc → generic.foldlM (fun sum r => r.2.taxAmount.map fun amount =>
      sum + convert amount r.2.currency r.1.timestamp) acc = some sum → 0 ≤ sum := by
    clear hsum
    induction generic with
    | nil =>
      intro acc hacc hok
      cases hok
      exact hacc
    | cons r generic ih =>
      intro acc hacc hok
      have hr := h r List.mem_cons_self
      rw [List.foldlM_cons, Option.bind_eq_bind, Option.bind_eq_some_iff] at hok
      obtain ⟨next, hnext, hok⟩ := hok
      obtain ⟨amount, ha, rfl⟩ := Option.map_eq_some_iff.mp hnext
      rw [converted, ha] at hr
      exact ih (fun r' hr' => h r' (List.mem_cons_of_mem _ hr')) _ (add_nonneg hacc hr) hok
  exact hfold 0 le_rfl hsum

theorem total_taxOwedByCategory_nonneg {p : PerItem}
    (h : ∀ e ∈ itemsOut items p, 0 ≤ e.taxOwed) :
    0 ≤ (taxOwedByCategory (inBase items categories) p).total := by
  refine List.sum_nonneg fun x hx => ?_
  obtain ⟨e, he, rfl⟩ := List.mem_map.mp hx
  refine Tally.nonneg_tally 4 (fun e he => by cases he) (fun e he => ?_) e he
  obtain ⟨i, hi, hp⟩ := List.mem_filterMap.mp he
  obtain ⟨entry, hentry, rfl⟩ := Option.map_eq_some_iff.mp hp
  refine h entry (List.mem_map.mpr ⟨i, List.mem_of_mem_filter hi, ?_⟩)
  rw [hentry]
  rfl

theorem totalTaxOwed_between {confirmed : ConfirmedMap} {base : Option TaxBase}
    {r : FiscalYearTaxResult}
    (hr : computeFiscalYear items categories bands definitions confirmed convert base = some r)
    (htax : ∀ e ∈ r.perItem, 0 ≤ e.taxOwed)
    (hconf : ∀ key row, confirmed key = some row → ∀ item ∈ items, 0 ≤ converted convert item row) :
    0 ≤ r.totalTaxOwed ∧ r.totalTaxOwed ≤ r.totalTax := by
  unfold computeFiscalYear at hr
  split at hr
  · cases hr
    exact ⟨le_rfl, le_rfl⟩
  · split at hr
    · obtain ⟨sum, hsum, rfl⟩ := Option.map_eq_some_iff.mp hr
      have hgeneric : 0 ≤ sum := by
        refine genericConfirmed_nonneg convert (fun g hg => ?_) hsum
        obtain ⟨hitem, key, hkey⟩ := mem_genericRows hg
        exact hconf key g.2 hkey g.1 (List.mem_of_mem_filter hitem)
      have htotal := roundTo_nonneg 4 (total_taxOwedByCategory_nonneg items categories htax)
      have hwithheld := roundTo_nonneg 4 (le_min hgeneric htotal)
      refine ⟨roundTo_nonneg 4 (le_max_left _ _), ?_⟩
      -- Withholding only takes away, and the total has no more decimals to round.
      refine (roundTo_mono 4 ?_).trans_eq (roundTo_of_isDecimal (.roundTo 4 _))
      exact max_le htotal (sub_le_self _ hwithheld)
    · cases hr
      exact ⟨roundTo_nonneg 4 (total_taxOwedByCategory_nonneg items categories htax), le_rfl⟩

theorem totalConfirmed_conserved (base : Option TaxBase)
    (hids : (items.map TaxItem.transactionId).Nodup)
    (hdefs : (definitions.map TaxDefinition.id).Nodup)
    (hamount : ∀ row ∈ rows, row.taxAmount.isSome) :
    ∃ r, computeFiscalYear items categories bands definitions (getConfirmedTaxMap rows) convert base =
        some r ∧
      |r.totalConfirmed - (rowsTotal convert items rows -
          rowsTotal convert items (lostRows definitions rows))| ≤
        items.length * definitions.length * halfUnit ∧
      ((∀ row ∈ rows, ∀ item ∈ items, IsDecimal 4 (converted convert item row)) →
        (r.totalConfirmed = rowsTotal convert items rows ↔
          rowsTotal convert items (lostRows definitions rows) = 0)) ∧
      ((∀ e ∈ r.perItem, 0 ≤ e.taxOwed) →
        (∀ row ∈ rows, ∀ item ∈ items, 0 ≤ converted convert item row) →
        0 ≤ r.totalTaxOwed ∧ r.totalTaxOwed ≤ r.totalTax) := by
  have hret : ∃ r, computeFiscalYear items categories bands definitions (getConfirmedTaxMap rows)
      convert base = some r := by
    unfold computeFiscalYear
    split
    · exact ⟨_, rfl⟩
    · split
      · obtain ⟨sum, hsum⟩ := genericConfirmed_isSome convert (genericRows _ definitions
          (getConfirmedTaxMap rows) (inBase items categories)) fun g hg => by
            obtain ⟨-, key, hkey⟩ := mem_genericRows hg
            exact hamount g.2 (mem_of_getConfirmedTaxMap hkey)
        exact ⟨_, by rw [hsum]; rfl⟩
      · exact ⟨_, rfl⟩
  obtain ⟨r, hr⟩ := hret
  have htotal := totalConfirmed_of_computeFiscalYear items categories bands definitions convert hr
  have hsum := sum_yearEntries items definitions rows convert hids hdefs
  refine ⟨r, hr, ?_, fun hdec => ?_, fun htax hconf => ?_⟩
  · rw [htotal, ← hsum]
    have hround := Tally.abs_total_tally_sub_le 4 [] (yearEntries items definitions rows convert)
    rw [Tally.total_nil, zero_add] at hround
    refine hround.trans (mul_le_mul_of_nonneg_right ?_ (by norm_num))
    exact_mod_cast length_yearEntries_le items definitions rows convert
  · have hexact : r.totalConfirmed =
        ((yearEntries items definitions rows convert).map Prod.snd).sum := by
      rw [htotal, confirmedByCat,
        Tally.total_tally_of_isDecimal (fun e he => by cases he), Tally.total_nil, zero_add]
      · rfl
      · intro e he
        obtain ⟨item, hitem, he⟩ := List.mem_flatMap.mp he
        rw [confirmedEntries_eq] at he
        obtain ⟨d, -, hd⟩ := List.mem_filterMap.mp he
        obtain ⟨row, hrow, hamt⟩ := Option.bind_eq_some_iff.mp hd
        obtain ⟨amount, ha, rfl⟩ := Option.map_eq_some_iff.mp hamt
        have hrow := hdec row (mem_of_getConfirmedTaxMap hrow) item hitem
        rwa [converted, ha] at hrow
    rw [hexact, hsum, sub_eq_self]
  · exact totalTaxOwed_between items categories bands definitions convert hr htax
      fun key row hrow item hitem => hconf row (mem_of_getConfirmedTaxMap hrow) item hitem

end FinHub.TaxEngine

namespace FinHub.Sample

open TaxEngine

def tobin : TaxDefinition := ⟨1, "tasa_tobin", "Tasa Tobin", some "spain", some (1 / 500)⟩

def foreignWithholding : TaxDefinition := ⟨2, "foreign_withholding", "Foreign Withholding", none, none⟩

def confirmedTax (transaction_id definition_id : ℕ) (amount : ℚ) : TransactionTax :=
  ⟨transaction_id, definition_id, some amount, eur, none⟩

/-- One sale of 80, with some confirmed rows. -/
def confirmedYear (rows : List TransactionTax) : Option FiscalYearTaxResult :=
  computeFiscalYear [sale 1 10 80] [.capitalGains, .dividends] savingsBands
    [tobin, foreignWithholding] (getConfirmedTaxMap rows) (fun amount _ _ => amount)
    (some savingsBase)

theorem confirmedYear_conserved : ∃ r,
    confirmedYear [confirmedTax 1 1 (2 / 5), confirmedTax 1 2 (1111 / 100)] = some r ∧
    r.totalConfirmed = 1151 / 100 := by
  obtain ⟨r, hr, -, hexact, -⟩ := totalConfirmed_conserved [sale 1 10 80]
    [.capitalGains, .dividends] savingsBands [tobin, foreignWithholding]
    [confirmedTax 1 1 (2 / 5), confirmedTax 1 2 (1111 / 100)] (fun amount _ _ => amount)
    (some savingsBase) (by decide) (by decide) (by decide +kernel)
  have hdec : ∀ row ∈ [confirmedTax 1 1 (2 / 5), confirmedTax 1 2 (1111 / 100)],
      ∀ item ∈ [sale 1 10 80],
        Decimal.IsDecimal 4 (converted (fun amount _ _ => amount) item row) := by
    intro row hrow item hitem
    rcases List.mem_pair.mp hrow with rfl | rfl
    · exact ⟨4000, by norm_num [converted, confirmedTax]⟩
    · exact ⟨111100, by norm_num [converted, confirmedTax]⟩
  exact ⟨r, hr, ((hexact hdec).mpr (by decide +kernel)).trans (by decide +kernel)⟩

/-- Two withholdings of one definition on one sale, 5 and 7: the year reports the second. -/
theorem secondRow_shadows :
    (confirmedYear [confirmedTax 1 2 5, confirmedTax 1 2 7]).map
      FiscalYearTaxResult.totalConfirmed = some 7 ∧
    rowsTotal (fun amount _ _ => amount) [sale 1 10 80]
      [confirmedTax 1 2 5, confirmedTax 1 2 7] = 12 := by
  decide +kernel

end FinHub.Sample
