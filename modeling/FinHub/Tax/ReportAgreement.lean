import FinHub.Lib.Runs
import FinHub.Tax.Confirmed
import FinHub.Tax.TaxablePnl

/-!
# FinHub.Tax.ReportAgreement

When the second tax report answers where the first one does.

The loops agree on every sum. The second report looks up more: the rate of each sale at its date, and
the rate of each confirmed tax. The fallbacks of the latter carry a scope the response does not know, so
one missing or stale rate of a confirmed tax fails the report (`extended_agrees_iff`).
-/

namespace FinHub

open Tabular

/-! ## Lookups -/

section Lookups

variable (provider : RateProvider) (display : Currency)

/-- A lookup of the currency answers: it does not raise anything that is not handled. -/
def Answers (currency : Currency) (at_ : Timestamp) : Prop :=
  currency = display ∨ ∀ e, provider.historical currency display at_ ≠ .error (.raised e)

/-- A lookup of the currency finds a rate that is not a fallback. -/
def Fresh (currency : Currency) (at_ : Timestamp) : Prop :=
  currency = display ∨
    ∃ lookup, provider.historical currency display at_ = .ok lookup ∧ lookup.fallback = false

variable {provider display} {currency : Currency} {at_ : Timestamp} {scope : String}

theorem exists_lookupRate_iff :
    (∃ rate, lookupRate provider display currency at_ scope = .ok rate) ↔
      Answers provider display currency at_ := by
  unfold lookupRate Answers
  by_cases hsame : currency = display
  · simp [hsame]
  · cases h : provider.historical currency display at_ with
    | ok lookup => simp [hsame]
    | error e => cases e <;> simp [hsame]

theorem exists_lookupRate_nil_iff :
    (∃ rate, lookupRate provider display currency at_ scope = .ok (rate, [])) ↔
      Fresh provider display currency at_ := by
  unfold lookupRate Fresh
  by_cases hsame : currency = display
  · simp [hsame]
  · cases h : provider.historical currency display at_ with
    | ok lookup =>
      cases hf : lookup.fallback <;> simp [hsame, closestInTime, hf]
    | error e => cases e <;> simp [hsame]

/-- What a lookup notes carries its scope. -/
theorem scope_of_lookupRate {rate : Noted ℚ}
    (h : lookupRate provider display currency at_ scope = .ok rate) : ∀ n ∈ rate.2, n.scope = scope := by
  unfold lookupRate at h
  by_cases hsame : currency = display
  · rw [if_pos hsame] at h
    cases h
    simp
  · rw [if_neg hsame] at h
    cases hr : provider.historical currency display at_ with
    | ok lookup =>
      rw [hr] at h
      cases h
      cases hf : lookup.fallback <;> simp [closestInTime, hf]
    | error e =>
      rw [hr] at h
      cases e <;> cases h
      simp

end Lookups

/-! ## Notes of the loops -/

/-- The response knows the scope of every entry. -/
def Known (notes : List RateFallbackInfo) : Prop := ∀ n ∈ notes, n.scope ∈ fallbackScopes

theorem known_append {notes notes' : List RateFallbackInfo} :
    Known (notes ++ notes') ↔ Known notes ∧ Known notes' := List.forall_mem_append

theorem known_of_scope {notes : List RateFallbackInfo} {scope : String} (hscope : scope ∈ fallbackScopes)
    (h : ∀ n ∈ notes, n.scope = scope) : Known notes := by
  intro n hn
  rwa [h n hn]

/-- Only an unknown scope fails the response. -/
theorem exists_aggregateRateFallbacks_iff (entries : List RateFallbackInfo) :
    (∃ r, aggregateRateFallbacks entries = .ok r) ↔ Known entries := by
  have hone : ∀ e, (∃ y, toPerformanceRateFallback entries e = .ok y) ↔ e.scope ∈ fallbackScopes := by
    intro e
    unfold toPerformanceRateFallback
    by_cases h : e.scope ∈ fallbackScopes <;> simp [h]
  unfold aggregateRateFallbacks
  rw [Runs.exists_mapM_iff]
  simp only [hone, List.mem_eraseDups]
  rfl

section Scopes

variable {provider : RateProvider} {display : Currency}

theorem known_lookup_realized {currency : Currency} {at_ : Timestamp} {rate : Noted ℚ}
    (h : lookupRate provider display currency at_ "realized_pl" = .ok rate) : Known rate.2 :=
  known_of_scope (by decide) (scope_of_lookupRate h)

theorem known_proceeds {sale : NativeSale} {at_ : Timestamp} {p : Noted ℚ}
    (h : proceedsInDisplay provider display sale at_ = .ok p) : Known p.2 := by
  rw [proceedsInDisplay_eq] at h
  obtain ⟨rate, hrate, rfl⟩ := Runs.map_eq_ok.mp h
  have hknown := known_lookup_realized hrate
  exact hknown

theorem known_latestRate {currency : Currency} {p : Noted ℚ}
    (h : latestRate provider display currency = .ok p) : Known p.2 := by
  unfold latestRate at h
  by_cases hsame : currency = display
  · rw [if_pos hsame] at h
    cases h
    simp [Known]
  · rw [if_neg hsame] at h
    cases hr : provider.latest currency display with
    | ok lookup =>
      rw [hr] at h
      cases h
      simp [Known]
    | error e =>
      rw [hr] at h
      cases e <;> cases h
      simp [Known, fallbackScopes]

theorem known_lots {sale : NativeSale} {lots : List PnlLot} {cost : ℚ} {notes : List RateFallbackInfo}
    {cost' : Noted ℚ} (hnotes : Known notes)
    (h : lots.foldlM (addLotCost provider display sale) (cost, notes) = .ok cost') : Known cost'.2 := by
  induction lots generalizing cost notes with
  | nil =>
    cases h
    exact hnotes
  | cons lot lots ih =>
    rw [List.foldlM_cons, Runs.bind_eq_ok] at h
    obtain ⟨next, hnext, h⟩ := h
    obtain ⟨rate, hrate, hnext⟩ := Runs.bind_eq_ok.mp hnext
    cases hnext
    exact ih (known_append.mpr ⟨hnotes, known_lookup_realized hrate⟩) h

theorem known_convertSale {sale : NativeSale} {rule_key : String} {c : ConvertedSale}
    (h : convertSale provider display sale rule_key = .ok c) : Known c.fallbacks := by
  unfold convertSale at h
  split_ifs at h
  · obtain ⟨proceeds, hproceeds, h⟩ := Runs.bind_eq_ok.mp h
    obtain ⟨cost, hcost, h⟩ := Runs.bind_eq_ok.mp h
    cases h
    have hstart := known_proceeds hproceeds
    exact known_lots hstart hcost
  · obtain ⟨rate, hrate, h⟩ := Runs.bind_eq_ok.mp h
    obtain ⟨cost_rate, hcost, h⟩ := Runs.bind_eq_ok.mp h
    cases h
    exact known_append.mpr ⟨known_latestRate hrate, known_latestRate hcost⟩
  · obtain ⟨proceeds, hproceeds, h⟩ := Runs.bind_eq_ok.mp h
    obtain ⟨rate, hrate, h⟩ := Runs.bind_eq_ok.mp h
    cases h
    exact known_append.mpr ⟨known_proceeds hproceeds, known_lookup_realized hrate⟩

theorem known_exempted {exemption : Option FiscalExemption} {taxable reduced : Noted ℚ}
    {currency : Currency} {at_ : Timestamp} {scope : String} (hscope : scope ∈ fallbackScopes)
    (htaxable : Known taxable.2)
    (h : exempted provider display exemption taxable currency at_ scope = .ok reduced) :
    Known reduced.2 := by
  cases exemption with
  | none =>
    cases h
    exact htaxable
  | some exemption =>
    obtain ⟨part, hpart, h⟩ := Runs.bind_eq_ok.mp h
    cases h
    refine known_append.mpr ⟨htaxable, ?_⟩
    unfold applyExemption at hpart
    split_ifs at hpart with hgross hamount
    · cases hpart
      simp [Known]
    · obtain ⟨fixed, hfixed, hpart⟩ := Runs.bind_eq_ok.mp hpart
      obtain ⟨rate, hrate, rfl⟩ := Runs.map_eq_ok.mp hfixed
      have hknown := known_of_scope hscope (scope_of_lookupRate hrate)
      cases hpart
      exact hknown
    · obtain ⟨fixed, hfixed, hpart⟩ := Runs.bind_eq_ok.mp hpart
      cases hfixed
      cases hpart
      simp [Known]

variable {s : Ledger} {resolved_ruleset : String}

theorem known_saleTaxable {sale : NativeSale} {taxable : Noted ℚ}
    (h : saleTaxable provider display s resolved_ruleset sale = .ok taxable) : Known taxable.2 := by
  obtain ⟨converted, hconverted, h⟩ := Runs.bind_eq_ok.mp h
  exact known_exempted (by decide) (known_convertSale hconverted) h

theorem known_convertDividend {amount : ℚ} {currency : Currency} {at_ : Timestamp} {value : Noted ℚ}
    (h : convertDividend provider display amount currency at_ = .ok value) : Known value.2 := by
  obtain ⟨rate, hrate, h⟩ := Runs.bind_eq_ok.mp h
  have hknown : Known rate.2 := known_of_scope (by decide) (scope_of_lookupRate hrate)
  cases h
  exact hknown

theorem known_dividendTaxable {div : DividendRow} {taxable : Noted ℚ}
    (h : dividendTaxable provider display s div = .ok taxable) : Known taxable.2 := by
  obtain ⟨converted, hconverted, h⟩ := Runs.bind_eq_ok.mp h
  exact known_exempted (by decide) (known_convertDividend hconverted) h

end Scopes

/-! ## The loops -/

/-- What the tax of an item hangs on, besides amounts. -/
structure TaxedRow where
  transactionId : ℕ
  category : TaxCategory
  at_ : Timestamp
  fiscalRule : String
  deriving DecidableEq

theorem textOr_some (v default_ : String) :
    textOr (some v) default_ = if v = "" then default_ else v := by
  by_cases hv : v = "" <;> simp [textOr, hv, Option.filter]

theorem textOr_textOr (value : Option String) (default_ : String) :
    textOr (some (textOr value default_)) default_ = textOr value default_ := by
  cases value with
  | none =>
    rw [textOr_some]
    exact ite_self _
  | some v => by_cases hv : v = "" <;> simp [textOr_some, hv]

def TaxItem.row (item : TaxItem) : TaxedRow :=
  ⟨item.transactionId, item.category, item.timestamp, item.fiscalRule⟩

def saleRow (resolved_ruleset : String) (sale : NativeSale) : TaxedRow :=
  ⟨sale.transactionId, .capitalGains, sale.sellDate, saleRule resolved_ruleset sale⟩

def dividendRow (s : Ledger) (resolved_ruleset : String) (div : DividendRow) : TaxedRow :=
  ⟨div.id, .dividends, div.at_, dividendRule s resolved_ruleset div⟩

/-- A year without its items. -/
def YearBucket.core (b : YearBucket) : YearBucket := { b with items := [] }

@[simp] theorem YearBucket.summary_core (b : YearBucket) : b.core.summary = b.summary := rfl

/-- The items of all years as the engine gets them, each with its year. -/
def filed (resolved_ruleset : String) (buckets : List YearBucket) : List (ℤ × TaxedRow) :=
  buckets.flatMap fun b => b.items.map fun i => (b.fiscalYear, (i.toEngine resolved_ruleset).row)

/-- Taking the items away commutes with filling a bucket. -/
theorem map_core_updateBucket {fy : FiscalYear} {f g : YearBucket → YearBucket}
    (hfg : ∀ b, (f b).core = g b.core) (bs : List YearBucket) :
    (updateBucket fy f bs).map YearBucket.core = updateBucket fy g (bs.map YearBucket.core) := by
  induction bs with
  | nil => simp only [updateBucket, List.map_cons, List.map_nil, hfg]; rfl
  | cons b bs ih =>
    have hyear : b.core.fiscalYear = b.fiscalYear := rfl
    simp only [updateBucket, List.map_cons, hyear]
    split_ifs
    · rw [List.map_cons, hfg]
    · rw [List.map_cons, ih]

/-- An item that is added to a bucket is filed under its year. -/
theorem mem_filed_updateBucket (resolved_ruleset : String) {fy : FiscalYear} {f : YearBucket → YearBucket} {item : TaxablePnlItem}
    (hyear : ∀ b, (f b).fiscalYear = b.fiscalYear) (hitems : ∀ b, (f b).items = b.items ++ [item])
    (bs : List YearBucket) (x : ℤ × TaxedRow) :
    x ∈ filed resolved_ruleset (updateBucket fy f bs) ↔
      x ∈ filed resolved_ruleset bs ∨ x = (fy.label, (item.toEngine resolved_ruleset).row) := by
  induction bs with
  | nil => simp [filed, updateBucket, hyear, hitems]
  | cons b bs ih =>
    simp only [filed, updateBucket] at ih ⊢
    split_ifs with hb
    · simp only [List.flatMap_cons, List.mem_append, hyear, hitems, List.map_append, List.map_cons,
        List.map_nil, List.mem_singleton, hb]
      tauto
    · simp only [List.flatMap_cons, List.mem_append, ih]
      tauto

/-- The year of a row. -/
def FiledUnder (resolved_ruleset : String) (y : ℤ) (r : TaxedRow) : Prop :=
  ∃ fy, fiscalYearBounds r.at_ (fiscalYearStart resolved_ruleset) = .ok fy ∧ fy.label = y

/-- The state of the second loop beside the first one's, after the rows. -/
structure Mirrors (resolved_ruleset : String) (rows : List TaxedRow) (st st' : ReportState) : Prop where
  core : st'.1.map YearBucket.core = st.1
  known : Known st.2
  known' : Known st'.2
  filed : ∀ x, x ∈ filed resolved_ruleset st'.1 ↔ x.2 ∈ rows ∧ FiledUnder resolved_ruleset x.1 x.2

section Loops

variable {provider : RateProvider} {display : Currency} {s : Ledger} {resolved_ruleset : String}

theorem Mirrors.update {rows : List TaxedRow} {st st' : ReportState}
    (h : Mirrors resolved_ruleset rows st st') {fy : FiscalYear} {row : TaxedRow}
    {f g : YearBucket → YearBucket} {item : TaxablePnlItem} {notes notes' : List RateFallbackInfo}
    (hfg : ∀ b, (g b).core = f b.core) (hyear : ∀ b, (g b).fiscalYear = b.fiscalYear)
    (hitems : ∀ b, (g b).items = b.items ++ [item]) 
    (hrow : (item.toEngine resolved_ruleset).row = row)
    (hfy : fiscalYearBounds row.at_ (fiscalYearStart resolved_ruleset) = .ok fy)
    (hnotes : Known notes) (hnotes' : Known notes') :
    Mirrors resolved_ruleset (rows ++ [row]) (updateBucket fy f st.1, st.2 ++ notes)
      (updateBucket fy g st'.1, st'.2 ++ notes') where
  core := by rw [← h.core]; exact map_core_updateBucket hfg _
  known := known_append.mpr ⟨h.known, hnotes⟩
  known' := known_append.mpr ⟨h.known', hnotes'⟩
  filed x := by
    rw [mem_filed_updateBucket resolved_ruleset hyear hitems, h.filed, hrow, List.mem_append, List.mem_singleton]
    constructor
    · intro hx
      rcases hx with ⟨hrows, hunder⟩ | rfl
      · exact ⟨.inl hrows, hunder⟩
      · exact ⟨.inr rfl, fy, hfy, rfl⟩
    · intro ⟨hx, hunder⟩
      rcases hx with hrows | hx
      · exact .inl ⟨hrows, hunder⟩
      · obtain ⟨fy', hfy', hlabel⟩ := hunder
        rw [hx, hfy] at hfy'
        cases hfy'
        exact .inr (Prod.ext hlabel.symm hx)

theorem addSaleItem_mirrors (pre : List NativeSale) (st st' : ReportState) (sale : NativeSale)
    (next : ReportState) (h : Mirrors resolved_ruleset (pre.map (saleRow resolved_ruleset)) st st')
    (hstep : addSale provider display s resolved_ruleset st sale = .ok next)
    (hrate : Answers provider display sale.currency sale.sellDate) :
    ∃ next', addSaleItem provider display s resolved_ruleset st' sale = .ok next' ∧
      Mirrors resolved_ruleset ((pre ++ [sale]).map (saleRow resolved_ruleset)) next next' := by
  obtain ⟨taxable, htaxable, hstep⟩ := Runs.bind_eq_ok.mp hstep
  obtain ⟨fy, hfy, hstep⟩ := Runs.bind_eq_ok.mp hstep
  obtain ⟨rate, hrate⟩ := exists_lookupRate_iff.mpr hrate
  cases hstep
  refine ⟨_, Runs.bind_eq_ok.mpr ⟨taxable, htaxable, Runs.bind_eq_ok.mpr ⟨fy, hfy,
    Runs.bind_eq_ok.mpr ⟨rate, hrate, rfl⟩⟩⟩, ?_⟩
  rw [List.map_append, List.append_assoc]
  have hrow : ((saleItem resolved_ruleset sale taxable.1 rate.1).toEngine resolved_ruleset).row =
      saleRow resolved_ruleset sale := by
    simp [TaxItem.row, TaxablePnlItem.toEngine, saleItem, saleRow, saleRule, textOr_textOr]
  exact h.update (fun _ => rfl) (fun _ => rfl) (fun _ => rfl) hrow hfy (known_saleTaxable htaxable)
    (known_append.mpr ⟨known_saleTaxable htaxable, known_lookup_realized hrate⟩)

theorem answers_of_addSaleItem (st : ReportState) (sale : NativeSale) (next : ReportState)
    (h : addSaleItem provider display s resolved_ruleset st sale = .ok next) :
    Answers provider display sale.currency sale.sellDate := by
  obtain ⟨taxable, -, h⟩ := Runs.bind_eq_ok.mp h
  obtain ⟨fy, -, h⟩ := Runs.bind_eq_ok.mp h
  obtain ⟨rate, hrate, -⟩ := Runs.bind_eq_ok.mp h
  exact exists_lookupRate_iff.mp ⟨rate, hrate⟩

theorem addDividendItem_mirrors {rows : List TaxedRow} (pre : List DividendRow) (st st' : ReportState)
    (div : DividendRow) (next : ReportState)
    (h : Mirrors resolved_ruleset (rows ++ pre.map (dividendRow s resolved_ruleset)) st st')
    (hstep : addDividend provider display s resolved_ruleset st div = .ok next) :
    ∃ next', addDividendItem provider display s resolved_ruleset st' div = .ok next' ∧
      Mirrors resolved_ruleset (rows ++ (pre ++ [div]).map (dividendRow s resolved_ruleset)) next
        next' := by
  obtain ⟨taxable, htaxable, hstep⟩ := Runs.bind_eq_ok.mp hstep
  obtain ⟨fy, hfy, hstep⟩ := Runs.bind_eq_ok.mp hstep
  have hagain := htaxable
  obtain ⟨value, hvalue, -⟩ := Runs.bind_eq_ok.mp hagain
  cases hstep
  refine ⟨_, Runs.bind_eq_ok.mpr ⟨taxable, htaxable, Runs.bind_eq_ok.mpr ⟨fy, hfy,
    Runs.bind_eq_ok.mpr ⟨value, hvalue, rfl⟩⟩⟩, ?_⟩
  rw [List.map_append, ← List.append_assoc, List.append_assoc st'.2]
  have hrow : ((dividendItem s resolved_ruleset div taxable.1 value.1).toEngine resolved_ruleset).row =
      dividendRow s resolved_ruleset div := by
    simp [TaxItem.row, TaxablePnlItem.toEngine, dividendItem, dividendRow, dividendRule, textOr_textOr]
  exact h.update (fun _ => rfl) (fun _ => rfl) (fun _ => rfl) hrow hfy (known_dividendTaxable htaxable)
    (known_append.mpr ⟨known_dividendTaxable htaxable, known_convertDividend hvalue⟩)

end Loops

/-! ## Closing a year -/

section Closing

variable (provider : RateProvider) (display : Currency) (resolved_ruleset : String) (catalog : TaxCatalog)
  (confirmed : ConfirmedMap)

/-- A conversion of the engine that has an amount and a rate of its time. -/
def TaxConversion.Good (c : TaxConversion) : Prop :=
  c.amount.isSome ∧ Fresh provider display c.currency c.at_

/-- What the engine needs of a row of year `y`: the confirmed amounts on it convert at rates of the day,
and where its withholding is counted no confirmed row lacks its amount. -/
structure RowSupported (y : ℤ) (r : TaxedRow) : Prop where
  fresh : ∀ d ∈ catalog.definitions, ∀ crate ∈ confirmed (r.transactionId, d.id),
    crate.taxAmount.isSome → Fresh provider display crate.currency r.at_
  amounts : ∀ base ∈ catalog.resolveTaxBase resolved_ruleset y, base.computation = .progressive →
    r.category ∈ catalog.categories base.id → r.fiscalRule = base.rulesetKey →
    ∀ d ∈ catalog.definitions, d.rulesetKey = none → ∀ crate ∈ confirmed (r.transactionId, d.id),
      crate.taxAmount.isSome

variable {provider display resolved_ruleset catalog confirmed}

/-! ### The conversions -/

theorem foldlM_convertTax_of_good {convs : List TaxConversion} (notes : List RateFallbackInfo)
    (h : ∀ c ∈ convs, c.Good provider display) :
    convs.foldlM (convertTax provider display) notes = .ok notes := by
  induction convs generalizing notes with
  | nil => rfl
  | cons c convs ih =>
    obtain ⟨hgood, hrest⟩ := List.forall_mem_cons.mp h
    obtain ⟨amount, hamount⟩ := Option.isSome_iff_exists.mp hgood.1
    obtain ⟨rate, hrate⟩ := exists_lookupRate_nil_iff.mpr hgood.2
    have hstep : convertTax provider display notes c = .ok notes := by
      rw [convertTax, hrate, hamount]
      exact congrArg Except.ok (List.append_nil notes)
    rw [List.foldlM_cons, hstep]
    exact ih notes hrest

/-- A conversion that goes through adds what its lookup notes. -/
theorem convertTax_eq_ok {notes notes' : List RateFallbackInfo} {c : TaxConversion}
    (h : convertTax provider display notes c = .ok notes') :
    c.amount.isSome ∧ ∃ rate, lookupRate provider display c.currency c.at_ "tax_withholding" = .ok rate ∧
      notes' = notes ++ rate.2 := by
  obtain ⟨rate, hrate, h⟩ := Runs.bind_eq_ok.mp h
  cases hamount : c.amount with
  | none =>
    rw [hamount] at h
    cases h
  | some amount =>
    rw [hamount] at h
    cases h
    exact ⟨rfl, rate, hrate, rfl⟩

theorem good_of_foldlM_convertTax {convs : List TaxConversion} {notes notes' : List RateFallbackInfo}
    (h : convs.foldlM (convertTax provider display) notes = .ok notes') (hknown : Known notes') :
    Known notes ∧ ∀ c ∈ convs, c.Good provider display := by
  induction convs generalizing notes with
  | nil =>
    cases h
    exact ⟨hknown, fun c hc => by cases hc⟩
  | cons c convs ih =>
    rw [List.foldlM_cons, Runs.bind_eq_ok] at h
    obtain ⟨next, hnext, h⟩ := h
    obtain ⟨hamount, rate, hrate, rfl⟩ := convertTax_eq_ok hnext
    obtain ⟨hknown, hrest⟩ := ih h
    obtain ⟨hnotes, hnew⟩ := known_append.mp hknown
    -- a note of this scope is never known, so there is none
    have hnil : rate.2 = [] := by
      rw [List.eq_nil_iff_forall_not_mem]
      intro n hn
      have hscope := hnew n hn
      rw [scope_of_lookupRate hrate n hn] at hscope
      exact absurd hscope (by decide)
    refine ⟨hnotes, List.forall_mem_cons.mpr ⟨⟨hamount, ?_⟩, hrest⟩⟩
    exact exists_lookupRate_nil_iff.mp ⟨rate.1, by rw [hrate, ← hnil]⟩

theorem confirmedConversions_eq (items : List TaxItem) : confirmedConversions catalog confirmed items =
    items.flatMap fun item => catalog.definitions.filterMap fun d =>
      (confirmed (item.transactionId, d.id)).bind fun crate =>
        crate.taxAmount.map fun amount => ⟨some amount, crate.currency, item.timestamp⟩ := by
  unfold confirmedConversions TaxEngine.resolveItemTaxes
  congr 1
  funext item
  rw [List.filterMap_filterMap]
  refine List.filterMap_congr fun d _ => ?_
  cases hrow : confirmed (item.transactionId, d.id) with
  | none => cases hd : TaxEngine.applies d item <;> simp [TaxEngine.resolveDefinition, hrow, hd]
  | some crate =>
    cases hamount : crate.taxAmount with
    | none =>
      cases hd : TaxEngine.applies d item <;> simp [TaxEngine.resolveDefinition, hrow, hd, hamount]
    | some amount => simp [TaxEngine.resolveDefinition, hrow, hamount]

theorem mem_genericRows {base : TaxBase} {in_base : List TaxItem} {r : TaxItem × TransactionTax} :
    r ∈ TaxEngine.genericRows base catalog.definitions confirmed in_base ↔
      r.1 ∈ in_base ∧ r.1.fiscalRule = base.rulesetKey ∧ ∃ d ∈ catalog.definitions,
        d.rulesetKey = none ∧ confirmed (r.1.transactionId, d.id) = some r.2 := by
  obtain ⟨item, crate⟩ := r
  simp only [TaxEngine.genericRows, List.mem_flatMap]
  constructor
  · intro ⟨i, hi, hmem⟩
    split_ifs at hmem with hrule
    · obtain ⟨d, hd, hrow⟩ := List.mem_filterMap.mp hmem
      split_ifs at hrow with hgeneric
      obtain ⟨c, hc, he⟩ := Option.map_eq_some_iff.mp hrow
      cases he
      exact ⟨hi, hrule, d, hd, hgeneric, hc⟩
    · cases hmem
  · intro ⟨hi, hrule, d, hd, hgeneric, hc⟩
    refine ⟨item, hi, ?_⟩
    rw [if_pos hrule]
    exact List.mem_filterMap.mpr ⟨d, hd, by rw [if_pos hgeneric, hc]; rfl⟩

theorem mem_confirmedConversions {items : List TaxItem} {c : TaxConversion} :
    c ∈ confirmedConversions catalog confirmed items ↔ ∃ i ∈ items, ∃ d ∈ catalog.definitions,
      ∃ crate ∈ confirmed (i.transactionId, d.id), ∃ amount ∈ crate.taxAmount,
        c = ⟨some amount, crate.currency, i.timestamp⟩ := by
  simp only [confirmedConversions_eq, List.mem_flatMap, List.mem_filterMap, Option.bind_eq_some_iff,
    Option.map_eq_some_iff, Option.mem_def, @eq_comm _ c]

theorem mem_withholdingConversions {base : Option TaxBaseRow} {items : List TaxItem} {c : TaxConversion} :
    c ∈ withholdingConversions catalog confirmed base items ↔ ∃ b ∈ base, b.computation = .progressive ∧
      ∃ i ∈ items, i.category ∈ catalog.categories b.id ∧ i.fiscalRule = b.rulesetKey ∧
        ∃ d ∈ catalog.definitions, d.rulesetKey = none ∧ ∃ crate ∈ confirmed (i.transactionId, d.id),
          c = ⟨crate.taxAmount, crate.currency, i.timestamp⟩ := by
  cases base with
  | none => simp [withholdingConversions]
  | some b =>
    cases hcomputation : b.computation with
    | flat => simp [withholdingConversions, hcomputation]
    | progressive =>
      simp only [withholdingConversions, hcomputation, List.mem_map, Prod.exists, mem_genericRows,
        TaxEngine.inBase, List.mem_filter, decide_eq_true_eq, Option.mem_def, Option.some.injEq,
        exists_eq_left', true_and]
      constructor
      · rintro ⟨i, crate, ⟨⟨hi, hcat⟩, hrule, d, hd, hgeneric, hcrate⟩, hc⟩
        exact ⟨i, hi, hcat, hrule, d, hd, hgeneric, crate, hcrate, hc.symm⟩
      · rintro ⟨i, hi, hcat, hrule, d, hd, hgeneric, crate, hcrate, hc⟩
        exact ⟨i, crate, ⟨⟨hi, hcat⟩, hrule, d, hd, hgeneric, hcrate⟩, hc.symm⟩

/-- The conversions of a year are good exactly if its rows are supported. -/
theorem good_iff_rowSupported {y : ℤ} {items : List TaxItem} :
    (∀ c ∈ taxConversions catalog confirmed (catalog.resolveTaxBase resolved_ruleset y) items,
      c.Good provider display) ↔
    ∀ i ∈ items, RowSupported provider display resolved_ruleset catalog confirmed y i.row := by
  constructor
  · intro h i hi
    constructor
    · intro d hd crate hcrate hsome
      obtain ⟨amount, hamount⟩ := Option.isSome_iff_exists.mp hsome
      exact (h _ (List.mem_append_left _ (mem_confirmedConversions.mpr
        ⟨i, hi, d, hd, crate, hcrate, amount, hamount, rfl⟩))).2
    · intro base hbase hprogressive hcategory hrule d hd hgeneric crate hcrate
      exact (h _ (List.mem_append_right _ (mem_withholdingConversions.mpr
        ⟨base, hbase, hprogressive, i, hi, hcategory, hrule, d, hd, hgeneric, crate, hcrate, rfl⟩))).1
  · intro h c hc
    rcases List.mem_append.mp hc with hc | hc
    · obtain ⟨i, hi, d, hd, crate, hcrate, amount, hamount, rfl⟩ := mem_confirmedConversions.mp hc
      exact ⟨rfl, (h i hi).fresh d hd crate hcrate (Option.isSome_of_mem hamount)⟩
    · obtain ⟨base, hbase, hprogressive, i, hi, hcategory, hrule, d, hd, hgeneric, crate, hcrate, rfl⟩ :=
        mem_withholdingConversions.mp hc
      have hamount := (h i hi).amounts base hbase hprogressive hcategory hrule d hd hgeneric crate hcrate
      exact ⟨hamount, (h i hi).fresh d hd crate hcrate hamount⟩

/-! ### The years -/

/-- The engine finishes a year whose conversions are good. -/
theorem exists_computeFiscalYear {base : Option TaxBaseRow} {items : List TaxItem}
    (h : ∀ c ∈ taxConversions catalog confirmed base items, c.Good provider display) :
    ∃ result, TaxEngine.computeFiscalYear items (catalog.categoriesOf base) (catalog.ratesOf base)
      catalog.definitions confirmed (taxConvert provider display) (base.map TaxBaseRow.toTaxBase) =
        some result := by
  cases base with
  | none => exact ⟨_, rfl⟩
  | some b =>
    unfold TaxEngine.computeFiscalYear
    cases hcomputation : b.computation with
    | flat => simp [hcomputation]
    | progressive =>
      have hamounts : ∀ r ∈ TaxEngine.genericRows b.toTaxBase catalog.definitions confirmed
          (TaxEngine.inBase items (catalog.categories b.id)), r.2.taxAmount.isSome := by
        intro r hr
        refine (h ⟨r.2.taxAmount, r.2.currency, r.1.timestamp⟩ (List.mem_append_right _ ?_)).1
        simp only [withholdingConversions, hcomputation]
        exact List.mem_map_of_mem hr
      obtain ⟨sum, hsum⟩ :=
        TaxEngine.genericConfirmed_isSome (taxConvert provider display) _ hamounts
      simp [hcomputation, TaxCatalog.categoriesOf, hsum]

theorem closeYear_of_supported {b : YearBucket}
    (h : ∀ i ∈ b.items, RowSupported provider display resolved_ruleset catalog confirmed b.fiscalYear
      (i.toEngine resolved_ruleset).row) :
    ∃ c, closeYear provider display resolved_ruleset catalog confirmed b = .ok (c, []) := by
  have hgood := good_iff_rowSupported.mpr (List.forall_mem_map.mpr h)
  obtain ⟨result, hresult⟩ := exists_computeFiscalYear hgood
  unfold closeYear
  dsimp only
  rw [foldlM_convertTax_of_good [] hgood]
  simp only [hresult]
  exact ⟨_, rfl⟩

theorem year_of_closeYear {b : YearBucket} {c : Noted ClosedYear}
    (h : closeYear provider display resolved_ruleset catalog confirmed b = .ok c) :
    c.1.year.toTaxablePnlFiscalYear = b.summary := by
  obtain ⟨notes, -, h⟩ := Runs.bind_eq_ok.mp h
  split at h
  · cases h
  · cases h
    rfl

theorem supported_of_closeYear {b : YearBucket} {c : Noted ClosedYear}
    (h : closeYear provider display resolved_ruleset catalog confirmed b = .ok c) (hknown : Known c.2) :
    ∀ i ∈ b.items, RowSupported provider display resolved_ruleset catalog confirmed b.fiscalYear
      (i.toEngine resolved_ruleset).row := by
  obtain ⟨notes, hnotes, h⟩ := Runs.bind_eq_ok.mp h
  have hc : notes = c.2 := by
    split at h
    · cases h
    · cases h
      rfl
  subst hc
  intro i hi
  exact good_iff_rowSupported.mp (good_of_foldlM_convertTax hnotes hknown).2 _ (List.mem_map_of_mem hi)

end Closing

/-! ## Agreement -/

section Agreement

variable (provider : RateProvider) (s : Ledger) (m : Market) (catalog : TaxCatalog) (display : Currency)
  (locale ruleset : String)

/-- The confirmed taxes of a ledger. -/
def Ledger.confirmedTaxMap (s : Ledger) : ConfirmedMap :=
  TaxEngine.getConfirmedTaxMap (s.taxes.rows.map Prod.snd)

/-- The sales and the dividends of the reports, without their amounts. -/
def taxedRows : List TaxedRow :=
  (computeFifo (s.getBuySellTransactions m)).sales.map (saleRow (resolvedRuleset locale ruleset)) ++
    (s.getDividendTransactions m).map (dividendRow s (resolvedRuleset locale ruleset))

/-- What the second report looks up besides the first: each sale's rate at its date answers, and every
row is supported in the year it falls in. -/
structure ExtendedSupported : Prop where
  answers : ∀ sale ∈ (computeFifo (s.getBuySellTransactions m)).sales,
    Answers provider display sale.currency sale.sellDate
  supported : ∀ r ∈ taxedRows s m locale ruleset, ∀ y, FiledUnder (resolvedRuleset locale ruleset) y r →
    RowSupported provider display (resolvedRuleset locale ruleset) catalog s.confirmedTaxMap y r

/-- One report beside the other: the same years with the same figures, and the same total. -/
structure ReportsAgree (basic : TaxablePnlSummary) (extended : TaxablePnlSummaryExtended) : Prop where
  fiscalYears : extended.fiscalYears.map TaxablePnlFiscalYearExtended.toTaxablePnlFiscalYear =
    basic.fiscalYears
  totalTaxable : extended.totalTaxable = basic.totalTaxable

end Agreement

theorem map_core_sortedYears (bs : List YearBucket) :
    (sortedYears bs).map YearBucket.core = sortedYears (bs.map YearBucket.core) :=
  List.map_insertionSort _ _ _ _ fun _ _ _ _ => Iff.rfl

/-- The items of every year are supported exactly if the rows are. -/
theorem Mirrors.supported_iff {resolved_ruleset : String} {rows : List TaxedRow} {st st' : ReportState}
    (h : Mirrors resolved_ruleset rows st st') (P : ℤ → TaxedRow → Prop) :
    (∀ b ∈ sortedYears st'.1, ∀ i ∈ b.items, P b.fiscalYear (i.toEngine resolved_ruleset).row) ↔
      ∀ r ∈ rows, ∀ y, FiledUnder resolved_ruleset y r → P y r := by
  have hfiled : (∀ b ∈ sortedYears st'.1, ∀ i ∈ b.items,
      P b.fiscalYear (i.toEngine resolved_ruleset).row) ↔
        ∀ x ∈ FinHub.filed resolved_ruleset st'.1, P x.1 x.2 := by
    simp only [FinHub.filed, List.forall_mem_flatMap, List.forall_mem_map, sortedYears,
      List.mem_insertionSort]
  rw [hfiled]
  constructor
  · intro hall r hr y hy
    exact hall (y, r) ((h.filed _).mpr ⟨hr, hy⟩)
  · intro hall x hx
    obtain ⟨hr, hy⟩ := (h.filed x).mp hx
    exact hall x.2 hr x.1 hy

theorem mirrors_nil (resolved_ruleset : String) : Mirrors resolved_ruleset [] ([], []) ([], []) where
  core := rfl
  known n hn := by cases hn
  known' n hn := by cases hn
  filed x := by simp [filed]

section Loops

variable {provider : RateProvider} {display : Currency} {s : Ledger} {resolved_ruleset : String}
  {sales : List NativeSale} {divs : List DividendRow} {st₁ st₂ : ReportState}

/-- The loops of the second report run through exactly if the rate of each sale answers, and then mirror
the loops of the first. -/
theorem loops_mirror
    (hsales : sales.foldlM (addSale provider display s resolved_ruleset) ([], []) = .ok st₁)
    (hdivs : divs.foldlM (addDividend provider display s resolved_ruleset) st₁ = .ok st₂) :
    ((∃ st₁' st₂', sales.foldlM (addSaleItem provider display s resolved_ruleset) ([], []) = .ok st₁' ∧
        divs.foldlM (addDividendItem provider display s resolved_ruleset) st₁' = .ok st₂') ↔
      ∀ sale ∈ sales, Answers provider display sale.currency sale.sellDate) ∧
    ∀ st₁' st₂', sales.foldlM (addSaleItem provider display s resolved_ruleset) ([], []) = .ok st₁' →
      divs.foldlM (addDividendItem provider display s resolved_ruleset) st₁' = .ok st₂' →
      Mirrors resolved_ruleset
        (sales.map (saleRow resolved_ruleset) ++ divs.map (dividendRow s resolved_ruleset)) st₂ st₂' := by
  obtain ⟨hok, hmirror⟩ := Runs.foldlM_mirror
    (R := fun pre => Mirrors resolved_ruleset (pre.map (saleRow resolved_ruleset)))
    addSaleItem_mirrors answers_of_addSaleItem sales [] (mirrors_nil resolved_ruleset) hsales
  have hdividends : ∀ st₁', Mirrors resolved_ruleset (sales.map (saleRow resolved_ruleset)) st₁ st₁' →
      (∃ st₂', divs.foldlM (addDividendItem provider display s resolved_ruleset) st₁' = .ok st₂') ∧
      ∀ st₂', divs.foldlM (addDividendItem provider display s resolved_ruleset) st₁' = .ok st₂' →
        Mirrors resolved_ruleset
          (sales.map (saleRow resolved_ruleset) ++ divs.map (dividendRow s resolved_ruleset)) st₂ st₂' := by
    intro st₁' h₁
    obtain ⟨hrun, hrel⟩ := Runs.foldlM_mirror (C := fun _ => True)
      (R := fun pre => Mirrors resolved_ruleset
        (sales.map (saleRow resolved_ruleset) ++ pre.map (dividendRow s resolved_ruleset)))
      (fun pre st st' div next h hstep _ => addDividendItem_mirrors pre st st' div next h hstep)
      (fun _ _ _ _ => trivial) divs [] (by simpa using h₁) hdivs
    exact ⟨hrun.mpr fun _ _ => trivial, hrel⟩
  refine ⟨⟨fun ⟨st₁', _, h₁, _⟩ => hok.mp ⟨st₁', h₁⟩, fun h => ?_⟩, fun st₁' st₂' h₁ h₂ => ?_⟩
  · obtain ⟨st₁', h₁⟩ := hok.mpr h
    obtain ⟨st₂', h₂⟩ := (hdividends st₁' (hmirror st₁' h₁)).1
    exact ⟨st₁', st₂', h₁, h₂⟩
  · exact (hdividends st₁' (hmirror st₁' h₁)).2 st₂' h₂

variable {catalog : TaxCatalog} {confirmed : ConfirmedMap} {rows : List TaxedRow}

/-- The years close and the response is valid exactly if the rows are supported. -/
theorem closing_iff (h : Mirrors resolved_ruleset rows st₁ st₂) :
    (∃ closed, (sortedYears st₂.1).mapM (closeYear provider display resolved_ruleset catalog confirmed) =
        .ok closed ∧ ∃ r, aggregateRateFallbacks (st₂.2 ++ closed.flatMap Prod.snd) = .ok r) ↔
      ∀ r ∈ rows, ∀ y, FiledUnder resolved_ruleset y r →
        RowSupported provider display resolved_ruleset catalog confirmed y r := by
  rw [← h.supported_iff]
  constructor
  · intro ⟨closed, hclosed, hvalid⟩ b hb
    obtain ⟨c, hc, hb⟩ := (Runs.exists_mem_of_mapM hclosed).1 b hb
    have hknown := (known_append.mp ((exists_aggregateRateFallbacks_iff _).mp hvalid)).2
    exact supported_of_closeYear hb fun n hn => hknown n (List.mem_flatMap_of_mem hc hn)
  · intro hall
    obtain ⟨closed, hclosed⟩ := Runs.exists_mapM_iff.mpr fun b hb =>
      ⟨_, (closeYear_of_supported (hall b hb)).choose_spec⟩
    refine ⟨closed, hclosed, (exists_aggregateRateFallbacks_iff _).mpr (known_append.mpr ⟨h.known', ?_⟩)⟩
    intro n hn
    obtain ⟨c, hc, hn⟩ := List.mem_flatMap.mp hn
    obtain ⟨b, hb, hbc⟩ := (Runs.exists_mem_of_mapM hclosed).2 c hc
    obtain ⟨c', hc'⟩ := closeYear_of_supported (hall b hb)
    rw [hc'] at hbc
    cases hbc
    cases hn

end Loops

/-- Where the first report returns, the second one returns and agrees with it exactly if what it looks up
besides is supported. -/
theorem extended_agrees_iff {provider : RateProvider} {s : Ledger} {m : Market} {display : Currency}
    {locale ruleset : String} {basic : TaxablePnlSummary}
    (h : getTaxablePnl provider s m display locale ruleset = .ok basic) (catalog : TaxCatalog)
    (default_fiscal_rule : Option String) :
    (∃ extended, getTaxablePnlExtended provider s m catalog default_fiscal_rule display locale ruleset =
        .ok extended ∧ ReportsAgree basic extended) ↔
      ExtendedSupported provider s m catalog display locale ruleset := by
  obtain ⟨st₁, hsales, h⟩ := Runs.bind_eq_ok.mp h
  obtain ⟨st₂, hdivs, h⟩ := Runs.bind_eq_ok.mp h
  obtain ⟨fallbacks, -, h⟩ := Runs.bind_eq_ok.mp h
  cases h
  obtain ⟨hok, hmirror⟩ := loops_mirror hsales hdivs
  constructor
  · intro ⟨extended, hextended, _⟩
    obtain ⟨st₁', h₁, hextended⟩ := Runs.bind_eq_ok.mp hextended
    obtain ⟨st₂', h₂, hextended⟩ := Runs.bind_eq_ok.mp hextended
    obtain ⟨closed, hclosed, hextended⟩ := Runs.bind_eq_ok.mp hextended
    obtain ⟨valid, hvalid, -⟩ := Runs.bind_eq_ok.mp hextended
    exact ⟨hok.mp ⟨st₁', st₂', h₁, h₂⟩,
      (closing_iff (hmirror st₁' st₂' h₁ h₂)).mp ⟨closed, hclosed, valid, hvalid⟩⟩
  · intro ⟨hanswers, hsupported⟩
    obtain ⟨st₁', st₂', h₁, h₂⟩ := hok.mpr hanswers
    have hmirrors := hmirror st₁' st₂' h₁ h₂
    obtain ⟨closed, hclosed, valid, hvalid⟩ := (closing_iff hmirrors).mpr hsupported
    have hyears : closed.map (fun c => c.1.year.toTaxablePnlFiscalYear) =
        (sortedYears st₂.1).map YearBucket.summary := by
      rw [Runs.map_eq_of_mapM (q := YearBucket.summary) (fun b c hc => year_of_closeYear hc) hclosed,
        ← hmirrors.core, ← map_core_sortedYears, List.map_map]
      rfl
    refine ⟨_, Runs.bind_eq_ok.mpr ⟨st₁', h₁, Runs.bind_eq_ok.mpr ⟨st₂', h₂, Runs.bind_eq_ok.mpr
      ⟨closed, hclosed, Runs.bind_eq_ok.mpr ⟨valid, hvalid, rfl⟩⟩⟩⟩, ?_, ?_⟩
    · rw [List.map_map]
      exact hyears
    · have htotals := congrArg (fun l => (l.map TaxablePnlFiscalYear.totalTaxable).sum) hyears
      simp only [List.map_map] at htotals
      simp only [List.map_map]
      exact congrArg (Decimal.roundTo 4) htotals

namespace Sample

/-- A foreign withholding is known to the catalog, and no tax base. -/
def withholdingCatalog : TaxCatalog := ⟨[], fun _ => [], fun _ => [], [foreignWithholding]⟩

/-- A dividend of 100 euro with a confirmed withholding of 15 in `currency`. -/
def withheldDividend (currency : Currency) : Ledger :=
  ({ Ledger.empty .utc with entities := Table.empty.insert { name := "bank" } }.insertTransaction
    { timestamp := Time.startOfDay 20600, type := .income, incomeCategory := some .dividends, entityId := 0
      currency := eur, totalValue := some 100 }).insertTax ⟨0, 2, some 15, currency, none⟩ Nat.zero_lt_one

def noMarket : Market := ⟨[], [], []⟩

def withheldReport (currency : Currency) : Except PnlError TaxablePnlSummary :=
  getTaxablePnl (withheldDividend currency).currencyServiceRateProvider (withheldDividend currency) noMarket
    eur "" "spain"

def withheldExtended (currency : Currency) : Except PnlError TaxablePnlSummaryExtended :=
  getTaxablePnlExtended (withheldDividend currency).currencyServiceRateProvider
    (withheldDividend currency) noMarket withholdingCatalog none eur "" "spain"

/-- No rate of the dollar is stored: the first report stands, the second one fails its own response. -/
theorem dollarWithholding_fails :
    (∃ basic, withheldReport usd = .ok basic) ∧
      withheldExtended usd = .error (.validationError "tax_withholding") :=
  ⟨Runs.exists_of_isSome_toOption (by decide +kernel), by decide +kernel⟩

/-- Withheld in the display currency, the second report agrees. -/
theorem euroWithholding_agrees : ∃ basic extended, withheldReport eur = .ok basic ∧
    withheldExtended eur = .ok extended ∧ ReportsAgree basic extended := by
  obtain ⟨basic, hbasic⟩ := Runs.exists_of_isSome_toOption
    (by decide +kernel : (withheldReport eur).toOption.isSome)
  have hsales : (computeFifo ((withheldDividend eur).getBuySellTransactions noMarket)).sales = [] := by
    decide +kernel
  have hcurrency : ∀ crate ∈ (withheldDividend eur).taxes.rows.map Prod.snd, crate.currency = eur := by
    decide +kernel
  obtain ⟨extended, hextended, hagree⟩ := (extended_agrees_iff hbasic withholdingCatalog none).mpr
    { answers := by rw [hsales]; simp
      supported := fun r _ y _ => {
        fresh := fun d _ crate hcrate _ => .inl (hcurrency crate (TaxEngine.mem_of_getConfirmedTaxMap hcrate))
        amounts := fun base hbase => by cases hbase } }
  exact ⟨basic, extended, hbasic, hextended, hagree⟩

end Sample

end FinHub
