import FinHub.Lib.Runs
import FinHub.Tax.TaxablePnl

/-!
# FinHub.Tax.ReportItems

What the second tax report lists: one item for each sale of the lot engine and one for each dividend, each
under its rule (`mem_rulings_iff`). The engine fills in taxes and leaves the rules alone.
-/

namespace FinHub

open Tabular

/-- Which transaction an item is about, and the rule it is under. -/
structure Ruling where
  transactionId : ℕ
  category : TaxCategory
  fiscalRule : String
  deriving DecidableEq

def TaxablePnlItem.ruling (i : TaxablePnlItem) : Ruling := ⟨i.transactionId, i.category, i.fiscalRule⟩

def saleRuling (resolved_ruleset : String) (sale : NativeSale) : Ruling :=
  ⟨sale.transactionId, .capitalGains, saleRule resolved_ruleset sale⟩

def dividendRuling (s : Ledger) (resolved_ruleset : String) (div : DividendRow) : Ruling :=
  ⟨div.id, .dividends, dividendRule s resolved_ruleset div⟩

/-- The rulings of the years while the loops run. -/
def bucketRulings (buckets : List YearBucket) : List Ruling :=
  buckets.flatMap fun b => b.items.map TaxablePnlItem.ruling

/-- The rulings of a report. -/
def TaxablePnlSummaryExtended.rulings (report : TaxablePnlSummaryExtended) : List Ruling :=
  report.fiscalYears.flatMap fun y => y.items.map TaxablePnlItem.ruling

theorem mem_bucketRulings_updateBucket {fy : FiscalYear} {f : YearBucket → YearBucket}
    {item : TaxablePnlItem} (hitems : ∀ b, (f b).items = b.items ++ [item]) (bs : List YearBucket)
    (x : Ruling) : x ∈ bucketRulings (updateBucket fy f bs) ↔ x ∈ bucketRulings bs ∨ x = item.ruling := by
  induction bs with
  | nil => simp [bucketRulings, updateBucket, hitems]
  | cons b bs ih =>
    simp only [bucketRulings, updateBucket] at ih ⊢
    split_ifs with hb
    · simp only [List.flatMap_cons, List.mem_append, hitems, List.map_append, List.map_cons,
        List.map_nil, List.mem_singleton]
      tauto
    · simp only [List.flatMap_cons, List.mem_append, ih]
      tauto

/-- The years list exactly these rulings. -/
def Lists (rulings : List Ruling) (st : ReportState) : Prop := ∀ x, x ∈ bucketRulings st.1 ↔ x ∈ rulings

section Loops

variable {provider : RateProvider} {display : Currency} {s : Ledger} {resolved_ruleset : String}
  {rulings : List Ruling} {st st' : ReportState}

theorem Lists.update (h : Lists rulings st) {fy : FiscalYear} {f : YearBucket → YearBucket}
    (item : TaxablePnlItem) (hitems : ∀ b, (f b).items = b.items ++ [item])
    (notes : List RateFallbackInfo) : Lists (rulings ++ [item.ruling]) (updateBucket fy f st.1, notes) := by
  intro x
  rw [mem_bucketRulings_updateBucket hitems, h x, List.mem_append, List.mem_singleton]

theorem lists_addSaleItem (h : Lists rulings st) {sale : NativeSale}
    (hstep : addSaleItem provider display s resolved_ruleset st sale = .ok st') :
    Lists (rulings ++ [saleRuling resolved_ruleset sale]) st' := by
  obtain ⟨taxable, -, hstep⟩ := Runs.bind_eq_ok.mp hstep
  obtain ⟨fy, -, hstep⟩ := Runs.bind_eq_ok.mp hstep
  obtain ⟨rate, -, hstep⟩ := Runs.bind_eq_ok.mp hstep
  cases hstep
  exact h.update (saleItem resolved_ruleset sale taxable.1 rate.1) (fun _ => rfl) _

theorem lists_addDividendItem (h : Lists rulings st) {div : DividendRow}
    (hstep : addDividendItem provider display s resolved_ruleset st div = .ok st') :
    Lists (rulings ++ [dividendRuling s resolved_ruleset div]) st' := by
  obtain ⟨taxable, -, hstep⟩ := Runs.bind_eq_ok.mp hstep
  obtain ⟨fy, -, hstep⟩ := Runs.bind_eq_ok.mp hstep
  obtain ⟨amount, -, hstep⟩ := Runs.bind_eq_ok.mp hstep
  cases hstep
  exact h.update (dividendItem s resolved_ruleset div taxable.1 amount.1) (fun _ => rfl) _

/-- The loops list the sales, then the dividends. -/
theorem lists_of_loops {sales : List NativeSale} {divs : List DividendRow} {st₁ st₂ : ReportState}
    (hsales : sales.foldlM (addSaleItem provider display s resolved_ruleset) ([], []) = .ok st₁)
    (hdivs : divs.foldlM (addDividendItem provider display s resolved_ruleset) st₁ = .ok st₂) :
    Lists (sales.map (saleRuling resolved_ruleset) ++ divs.map (dividendRuling s resolved_ruleset)) st₂ := by
  have hnil : Lists (([] : List NativeSale).map (saleRuling resolved_ruleset)) ([], []) := by
    intro x
    simp [bucketRulings]
  have h₁ : Lists (sales.map (saleRuling resolved_ruleset)) st₁ := by
    refine Runs.foldlM_keeps (R := fun pre => Lists (pre.map (saleRuling resolved_ruleset))) ?_ sales []
      hnil hsales
    intro pre st sale st' h hstep
    rw [List.map_append]
    exact lists_addSaleItem h hstep
  have h₁' : Lists (sales.map (saleRuling resolved_ruleset) ++
      ([] : List DividendRow).map (dividendRuling s resolved_ruleset)) st₁ := by
    rwa [List.map_nil, List.append_nil]
  refine Runs.foldlM_keeps (R := fun pre => Lists (sales.map (saleRuling resolved_ruleset) ++
    pre.map (dividendRuling s resolved_ruleset))) ?_ divs [] h₁' hdivs
  intro pre st div st' h hstep
  rw [List.map_append, ← List.append_assoc]
  exact lists_addDividendItem h hstep

variable {catalog : TaxCatalog} {confirmed : ConfirmedMap}

/-- Filling in the taxes keeps the rulings of a year. -/
theorem mem_ruling_of_closeYear {b : YearBucket} {c : Noted ClosedYear}
    (h : closeYear provider display resolved_ruleset catalog confirmed b = .ok c) (x : Ruling) :
    x ∈ c.1.year.items.map TaxablePnlItem.ruling ↔ x ∈ b.items.map TaxablePnlItem.ruling := by
  obtain ⟨notes, -, h⟩ := Runs.bind_eq_ok.mp h
  split at h
  · cases h
  · rename_i result _
    cases h
    have hruling : ∀ has_base, TaxablePnlItem.ruling ∘ TaxablePnlItem.withTaxes result has_base =
        TaxablePnlItem.ruling := fun _ => rfl
    rw [((List.perm_insertionSort _ _).map _).mem_iff, List.map_map, hruling]

end Loops

variable {provider : RateProvider} {s : Ledger} {m : Market} {catalog : TaxCatalog}
  {default_fiscal_rule : Option String} {display : Currency} {locale ruleset : String}
  {report : TaxablePnlSummaryExtended}

theorem mem_rulings_iff
    (h : getTaxablePnlExtended provider s m catalog default_fiscal_rule display locale ruleset = .ok report)
    (x : Ruling) : x ∈ report.rulings ↔
      (∃ sale ∈ (computeFifo (s.getBuySellTransactions m)).sales,
        saleRuling (resolvedRuleset locale ruleset) sale = x) ∨
      ∃ div ∈ s.getDividendTransactions m, dividendRuling s (resolvedRuleset locale ruleset) div = x := by
  obtain ⟨st₁, hsales, h⟩ := Runs.bind_eq_ok.mp h
  obtain ⟨st₂, hdivs, h⟩ := Runs.bind_eq_ok.mp h
  obtain ⟨closed, hclosed, h⟩ := Runs.bind_eq_ok.mp h
  obtain ⟨fallbacks, -, h⟩ := Runs.bind_eq_ok.mp h
  cases h
  have hlists := lists_of_loops hsales hdivs x
  rw [List.mem_append, List.mem_map, List.mem_map] at hlists
  rw [← hlists]
  obtain ⟨hforth, hback⟩ := Runs.exists_mem_of_mapM hclosed
  simp only [TaxablePnlSummaryExtended.rulings, bucketRulings, List.mem_flatMap]
  constructor
  · intro ⟨y, hy, hx⟩
    obtain ⟨c, hc, rfl⟩ := List.mem_map.mp hy
    obtain ⟨b, hb, hbc⟩ := hback c hc
    exact ⟨b, (List.mem_insertionSort _).mp hb, (mem_ruling_of_closeYear hbc x).mp hx⟩
  · intro ⟨b, hb, hx⟩
    obtain ⟨c, hc, hbc⟩ := hforth b ((List.mem_insertionSort _).mpr hb)
    exact ⟨c.1.year, List.mem_map.mpr ⟨c, hc, rfl⟩, (mem_ruling_of_closeYear hbc x).mpr hx⟩

end FinHub
