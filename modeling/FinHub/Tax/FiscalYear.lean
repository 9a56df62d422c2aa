import FinHub.Tax.Brackets

/-!
# FinHub.Tax.FiscalYear

The core tax of a fiscal year under a progressive base.

* `attributeBrackets_get`: the dictionary of item results after the loop holds, for every item, the
  tax of its step.
* `totalTax_progressive`: the year's total is the sum of these, in chronological order.
* `totalTax_of_brackets`: what that is of the whole base, and which orders of the items agree.
-/

namespace FinHub.TaxEngine

open Decimal

/-! ## The dictionary -/

namespace PerItem

@[simp] theorem taxes_setTax (p : PerItem) (item : TaxItem) (tax_owed : ℚ) :
    (p.setTax item tax_owed).taxes = p.taxes := by
  funext tid
  by_cases h : tid = item.transactionId
  · subst h
    simp [taxes, setTax, set]
  · simp only [taxes, setTax, set, Function.update_of_ne h]

theorem setTax_self (p : PerItem) (item : TaxItem) (tax_owed : ℚ) :
    p.setTax item tax_owed item.transactionId =
      some ⟨item.transactionId, item.category, tax_owed, p.taxes item.transactionId⟩ :=
  Function.update_self ..

theorem setTax_of_ne (p : PerItem) (item : TaxItem) (tax_owed : ℚ) {tid : ℕ}
    (h : tid ≠ item.transactionId) : p.setTax item tax_owed tid = p tid :=
  Function.update_of_ne h ..

end PerItem

/-- Items in the order the loop takes them. -/
def chronological (items : List TaxItem) : List TaxItem :=
  items.insertionSort fun a b => a.timestamp ≤ b.timestamp

theorem attributeBrackets_of_notMem (bands : List TaxBand) (r : ℚ) {items : List TaxItem}
    (p : PerItem) {tid : ℕ} (h : tid ∉ items.map TaxItem.transactionId) :
    attributeBrackets bands r items p tid = p tid := by
  induction items generalizing r p with
  | nil => rfl
  | cons item items ih =>
    rw [List.map_cons, List.mem_cons, not_or] at h
    rw [attributeBrackets, ih _ _ h.2, PerItem.setTax_of_ne _ _ _ h.1]

/-- What an item owes by the dictionary. -/
def PerItem.owed (p : PerItem) (item : TaxItem) : ℚ :=
  match p item.transactionId with
  | some entry => entry.taxOwed
  | none => 0

theorem PerItem.owed_of_eq {p : PerItem} {item : TaxItem} {entry : ItemTaxResult}
    (h : p item.transactionId = some entry) : p.owed item = entry.taxOwed := by
  simp only [owed, h]

/-- After the loop the dictionary holds, for every item, the tax of its step. -/
theorem map_owed_attributeBrackets (bands : List TaxBand) (r : ℚ) {items : List TaxItem}
    (p : PerItem) (hids : (items.map TaxItem.transactionId).Nodup) :
    items.map (attributeBrackets bands r items p).owed =
      itemTaxes bands r (items.map TaxItem.taxableAmount) := by
  induction items generalizing r p with
  | nil => rfl
  | cons item items ih =>
    rw [List.map_cons, List.nodup_cons] at hids
    have hentry : attributeBrackets bands r (item :: items) p item.transactionId =
        some ⟨item.transactionId, item.category,
          applyProgressive r (r + item.taxableAmount) bands, p.taxes item.transactionId⟩ := by
      rw [attributeBrackets, attributeBrackets_of_notMem _ _ _ hids.1, PerItem.setTax_self]
    rw [List.map_cons, PerItem.owed_of_eq hentry]
    exact congrArg _ (ih (r + item.taxableAmount) _ hids.2)

theorem total_taxOwedByCategory {in_base : List TaxItem} {p : PerItem}
    (h : ∀ i ∈ in_base, IsDecimal 4 (p.owed i)) :
    (taxOwedByCategory in_base p).total = (in_base.map p.owed).sum := by
  rw [taxOwedByCategory, Tally.total_tally_of_isDecimal (fun e he => by cases he)]
  · rw [Tally.total_nil, zero_add]
    induction in_base with
    | nil => rfl
    | cons i in_base ih =>
      have hrest := ih fun j hj => h j (List.mem_cons_of_mem _ hj)
      cases hp : p i.transactionId with
      | none =>
        rw [List.filterMap_cons_none (by rw [hp]; rfl), hrest, List.map_cons, List.sum_cons,
          show p.owed i = 0 by simp only [PerItem.owed, hp], zero_add]
      | some entry =>
        rw [List.filterMap_cons_some (by rw [hp]; rfl), List.map_cons, List.sum_cons, hrest,
          List.map_cons, List.sum_cons, PerItem.owed_of_eq hp]
  · intro e he
    obtain ⟨i, hi, hp⟩ := List.mem_filterMap.mp he
    obtain ⟨entry, hentry, rfl⟩ := Option.map_eq_some_iff.mp hp
    exact PerItem.owed_of_eq hentry ▸ h i hi

/-! ## The year -/

/-- The taxable amounts in the order the loop takes them. -/
def chronologicalAmounts (items : List TaxItem) (categories : List TaxCategory) : List ℚ :=
  (chronological (inBase items categories)).map TaxItem.taxableAmount

theorem perm_chronologicalAmounts (items : List TaxItem) (categories : List TaxCategory) :
    (chronologicalAmounts items categories).Perm
      ((inBase items categories).map TaxItem.taxableAmount) :=
  (List.perm_insertionSort _ _).map _

theorem length_chronologicalAmounts (items : List TaxItem) (categories : List TaxCategory) :
    (chronologicalAmounts items categories).length = (inBase items categories).length := by
  rw [(perm_chronologicalAmounts items categories).length_eq, List.length_map]

theorem genericConfirmed_isSome (convert : Convert) (rows : List (TaxItem × TransactionTax))
    (h : ∀ r ∈ rows, r.2.taxAmount.isSome) : ∃ sum, genericConfirmed convert rows = some sum := by
  have hfold : ∀ acc : ℚ, ∃ sum, rows.foldlM (fun sum r => r.2.taxAmount.map fun amount =>
      sum + convert amount r.2.currency r.1.timestamp) acc = some sum := by
    induction rows with
    | nil => exact fun acc => ⟨acc, rfl⟩
    | cons r rows ih =>
      intro acc
      obtain ⟨amount, ha⟩ := Option.isSome_iff_exists.mp (h r List.mem_cons_self)
      simp only [List.foldlM_cons, ha, Option.map_some, Option.bind_eq_bind, Option.bind_some]
      exact ih (fun r' hr' => h r' (List.mem_cons_of_mem _ hr')) _
  exact hfold 0

/-- The generic rows stand on items of the base and in the map. -/
theorem mem_genericRows {base : TaxBase} {definitions : List TaxDefinition}
    {confirmed : ConfirmedMap} {in_base : List TaxItem} {r : TaxItem × TransactionTax} (h : r ∈ genericRows base definitions confirmed in_base) :
    r.1 ∈ in_base ∧ ∃ key, confirmed key = some r.2 := by
  obtain ⟨item, hitem, hr⟩ := List.mem_flatMap.mp h
  split_ifs at hr
  · obtain ⟨d, -, hd⟩ := List.mem_filterMap.mp hr
    split_ifs at hd
    obtain ⟨crate, hcrate, rfl⟩ := Option.map_eq_some_iff.mp hd
    exact ⟨hitem, _, hcrate⟩
  · cases hr

variable (items : List TaxItem) (base : TaxBase) (categories : List TaxCategory)
  (bands : List TaxBand) (definitions : List TaxDefinition) (confirmed : ConfirmedMap)
  (convert : Convert)

/-- Under a progressive base the year's total is the sum of the steps' taxes. -/
theorem totalTax_progressive (hprog : base.computation = .progressive)
    (hids : (items.map TaxItem.transactionId).Nodup)
    (hconf : ∀ key row, confirmed key = some row → row.taxAmount.isSome) :
    ∃ r, computeFiscalYear items categories bands definitions confirmed convert (some base) = some r ∧
      r.totalTax = (itemTaxes bands 0 (chronologicalAmounts items categories)).sum := by
  obtain ⟨sum, hsum⟩ := genericConfirmed_isSome convert
    (genericRows base definitions confirmed (inBase items categories)) fun g hg => by
      obtain ⟨-, key, hkey⟩ := mem_genericRows hg
      exact hconf key g.2 hkey
  refine ⟨progressiveYear items categories bands definitions confirmed convert sum, ?_, ?_⟩
  · simp only [computeFiscalYear, hprog, hsum, Option.map_some]
  have hperm : (chronological (inBase items categories)).Perm (inBase items categories) :=
    List.perm_insertionSort _ _
  have hnd : ((chronological (inBase items categories)).map TaxItem.transactionId).Nodup :=
    (hperm.map _).nodup_iff.mpr (hids.sublist (List.filter_sublist.map _))
  have hmap := map_owed_attributeBrackets bands 0 (firstPass definitions confirmed items) hnd
  set p := attributeBrackets bands 0 (chronological (inBase items categories))
    (firstPass definitions confirmed items) with hp
  have hdec : ∀ i ∈ inBase items categories, IsDecimal 4 (p.owed i) := by
    intro i hi
    have hmem : p.owed i ∈ itemTaxes bands 0 (chronologicalAmounts items categories) :=
      hmap ▸ List.mem_map_of_mem (hperm.mem_iff.mpr hi)
    obtain ⟨q, -, hq⟩ := List.mem_map.mp hmem
    exact hq ▸ isDecimal_applyProgressive q.1 q.2 bands
  have htotal : (taxOwedByCategory (inBase items categories) p).total =
      (itemTaxes bands 0 (chronologicalAmounts items categories)).sum := by
    rw [total_taxOwedByCategory hdec, ← (hperm.map p.owed).sum_eq, hmap]
    rfl
  show roundTo 4 (taxOwedByCategory (inBase items categories) p).total = _
  rw [htotal]
  refine roundTo_of_isDecimal (.sum fun x hx => ?_)
  obtain ⟨q, -, rfl⟩ := List.mem_map.mp hx
  exact isDecimal_applyProgressive q.1 q.2 bands

/-! ## The order of the items -/

/-- Items of distinct instants have one chronological order. -/
theorem chronological_congr {items items' : List TaxItem} (h : items'.Perm items)
    (hts : (items.map TaxItem.timestamp).Nodup) : chronological items' = chronological items := by
  have hsorted : ∀ l : List TaxItem,
      (chronological l).Pairwise fun a b => a.timestamp ≤ b.timestamp :=
    fun l => List.pairwise_insertionSort _ _
  refine List.Perm.eq_of_pairwise (fun a b ha hb hab hba => ?_) (hsorted items') (hsorted items)
    (((List.perm_insertionSort _ _).trans h).trans (List.perm_insertionSort _ _).symm)
  have ha' : a ∈ items := h.mem_iff.mp ((List.perm_insertionSort _ _).mem_iff.mp ha)
  have hb' : b ∈ items := (List.perm_insertionSort _ _).mem_iff.mp hb
  exact List.inj_on_of_nodup_map hts ha' hb' (le_antisymm hab hba)

theorem totalTax_of_brackets (hprog : base.computation = .progressive)
    (hids : (items.map TaxItem.transactionId).Nodup)
    (hconf : ∀ key row, confirmed key = some row → row.taxAmount.isSome) :
    ∃ r, computeFiscalYear items categories bands definitions confirmed convert (some base) = some r ∧
      (let amounts := chronologicalAmounts items categories
       |r.totalTax - (applyProgressive 0 amounts.sum bands - applyProgressive amounts.sum 0 bands +
          (lossTaxes bands 0 amounts).sum)| ≤ (amounts.length + 1) * halfUnit) ∧
      ((∀ b ∈ bands, 0 ≤ b.fromAmount) → ∀ x, applyProgressive x 0 bands = 0) ∧
      ((∀ i ∈ inBase items categories, 0 ≤ i.taxableAmount) →
        |r.totalTax - applyProgressive 0 ((inBase items categories).map TaxItem.taxableAmount).sum bands| ≤
          ((inBase items categories).length + 1) * halfUnit) ∧
      ∀ items', items'.Perm items →
        ∃ r', computeFiscalYear items' categories bands definitions confirmed convert (some base) = some r' ∧
          (((inBase items categories).map TaxItem.timestamp).Nodup → r'.totalTax = r.totalTax) ∧
          ((∀ i ∈ inBase items categories, 0 ≤ i.taxableAmount) →
            |r'.totalTax - r.totalTax| ≤ 2 * (((inBase items categories).length + 1) * halfUnit)) := by
  -- Where no item is a loss the tax is that of the whole base.
  have hwhole : ∀ {l : List TaxItem} {total : ℚ},
      total = (itemTaxes bands 0 (chronologicalAmounts l categories)).sum →
      (∀ i ∈ inBase l categories, 0 ≤ i.taxableAmount) →
      |total - applyProgressive 0 ((inBase l categories).map TaxItem.taxableAmount).sum bands| ≤
        ((inBase l categories).length + 1) * halfUnit := by
    intro l total htotal hpos
    have hperm := perm_chronologicalAmounts l categories
    have hamounts : ∀ x ∈ chronologicalAmounts l categories, 0 ≤ x := by
      intro x hx
      obtain ⟨i, hi, rfl⟩ := List.mem_map.mp (hperm.mem_iff.mp hx)
      exact hpos i hi
    have hzero : applyProgressive (chronologicalAmounts l categories).sum 0 bands = 0 :=
      if_pos (.inl (List.sum_nonneg hamounts))
    have hsum := sum_itemTaxes bands (chronologicalAmounts l categories)
    rwa [sum_lossTaxes_of_nonneg bands 0 hamounts, hzero, sub_zero, add_zero,
      length_chronologicalAmounts, hperm.sum_eq, ← htotal] at hsum
  obtain ⟨r, hr, htotal⟩ := totalTax_progressive items base categories bands definitions confirmed convert
    hprog hids hconf
  refine ⟨r, hr, ?_, applyProgressive_below_zero, hwhole htotal, fun items' hperm => ?_⟩
  · rw [htotal]
    exact sum_itemTaxes bands _
  · obtain ⟨r', hr', htotal'⟩ := totalTax_progressive items' base categories bands definitions confirmed
      convert hprog ((hperm.map TaxItem.transactionId).nodup_iff.mpr hids) hconf
    have hbase : (inBase items' categories).Perm (inBase items categories) := hperm.filter _
    refine ⟨r', hr', fun hts => ?_, fun hpos => ?_⟩
    · rw [htotal', htotal, chronologicalAmounts, chronologicalAmounts, chronological_congr hbase hts]
    · have h := hwhole htotal hpos
      have h' := hwhole htotal' fun i hi => hpos i (hbase.mem_iff.mp hi)
      rw [(hbase.map _).sum_eq, hbase.length_eq] at h'
      rw [abs_le] at h h' ⊢
      constructor <;> linarith [h.1, h.2, h'.1, h'.2]

end FinHub.TaxEngine

namespace FinHub.Sample

open TaxEngine

/-- The year of some sales, without confirmed taxes. -/
def savingsYear (items : List TaxItem) : Option FiscalYearTaxResult :=
  computeFiscalYear items [.capitalGains, .dividends] savingsBands [] (fun _ => none)
    (fun amount _ _ => amount) (some savingsBase)

theorem savingsYear_of_brackets : ∃ r, savingsYear [sale 1 10 5800, sale 2 20 400] = some r ∧
    |r.totalTax - applyProgressive 0 6200 savingsBands| ≤ 3 * halfUnit := by
  obtain ⟨r, hr, -, -, hwhole, -⟩ := totalTax_of_brackets [sale 1 10 5800, sale 2 20 400]
    savingsBase [.capitalGains, .dividends] savingsBands [] (fun _ => none) (fun amount _ _ => amount)
    rfl (by decide) (fun _ _ h => by cases h)
  refine ⟨r, hr, ?_⟩
  have h := hwhole (by decide +kernel)
  norm_num [inBase, sale] at h ⊢
  exact h

/-- A gain of 100 and a loss of 100 make a base of nothing, and 19 are owed on the gain. Where both
carry one instant, the order of the list decides whether they are. -/
theorem gainThenLoss_taxed :
    (savingsYear [sale 1 10 100, sale 2 20 (-100)]).map FiscalYearTaxResult.totalTax = some 19 ∧
    applyProgressive 0 ([sale 1 10 100, sale 2 20 (-100)].map TaxItem.taxableAmount).sum
      savingsBands = 0 ∧
    (savingsYear [sale 1 10 100, sale 2 10 (-100)]).map FiscalYearTaxResult.totalTax = some 19 ∧
    (savingsYear [sale 2 10 (-100), sale 1 10 100]).map FiscalYearTaxResult.totalTax = some 0 := by
  decide +kernel

end FinHub.Sample
