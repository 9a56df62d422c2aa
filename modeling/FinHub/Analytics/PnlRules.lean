import FinHub.Analytics.Fifo
import FinHub.Lib.Runs

/-!
# FinHub.Analytics.PnlRules

`services/pnl_rules.py` above the lot engine: how a native sale is converted to the display currency
under a fiscal rule, and what is recorded where a rate is missing or stale.

Under a rate provider whose rates do not move the rules agree (`convertSale_of_constant`): `spain`,
`default`, `none` and `latest` exactly, and `japan`, which sums the lots itself, up to the rounding of
the cost basis.
-/

namespace FinHub

/-! ## Rates -/

structure RateLookup where
  rate : ℚ
  timestamp : IsoStamp
  fallback : Bool
  deriving DecidableEq

/-- What leaves a computation: Python's own errors, and a response that does not validate. -/
inductive PnlError where
  | zeroDivisionError
  | typeError
  | valueError
  | validationError (scope : String)
  deriving DecidableEq

/-- What a provider raises: `NoRateError`, which its callers handle, or something else. -/
inductive RateFailure where
  | noRate
  | raised (e : PnlError)
  deriving DecidableEq

structure RateProvider where
  historical : Currency → Currency → Timestamp → Except RateFailure RateLookup
  latest : Currency → Currency → Except RateFailure RateLookup

/-- One fallback. `requested_date` is a day number. -/
structure RateFallbackInfo where
  currency : Currency
  scope : String
  reason : String
  requestedDate : Option ℤ
  usedTimestamp : Option IsoStamp
  deriving DecidableEq

/-- A value with the fallbacks that were recorded on the way. -/
abbrev Noted (α : Type) : Type := α × List RateFallbackInfo

section

variable (provider : RateProvider) (display_currency : Currency)

/-- The entry of a lookup that fell back. -/
def closestInTime (source : Currency) (scope : String) (at_ : Timestamp) (lookup : RateLookup) :
    List RateFallbackInfo :=
  if lookup.fallback then
    [⟨source, scope, "closest-in-time", some (Time.dayOf at_), some lookup.timestamp⟩]
  else []

/-- `_lookup_rate`. -/
def lookupRate (source : Currency) (at_ : Timestamp) (scope : String) : Except PnlError (Noted ℚ) :=
  if source = display_currency then .ok (1, [])
  else
    match provider.historical source display_currency at_ with
    | .ok lookup => .ok (lookup.rate, closestInTime source scope at_ lookup)
    | .error .noRate => .ok (1, [⟨source, scope, "no-rate", some (Time.dayOf at_), none⟩])
    | .error (.raised e) => .error e

/-- The currency the proceeds of a sale stand in, and their amount: a recorded `payment_currency` and
`fx_rate` realize them there. -/
def NativeSale.proceeds (sale : NativeSale) : Currency × ℚ :=
  match sale.paymentCurrency, sale.fxRate with
  | some payment_currency, some fx_rate =>
    if payment_currency ≠ sale.currency then (payment_currency, sale.sellTotal * fx_rate)
    else (sale.currency, sale.sellTotal)
  | _, _ => (sale.currency, sale.sellTotal)

/-- `_proceeds_in_display`. -/
def proceedsInDisplay (sale : NativeSale) (at_ : Timestamp) : Except PnlError (Noted ℚ) :=
  let (source, proceeds) := sale.proceeds
  if source = display_currency then .ok (proceeds, [])
  else
    match provider.historical source display_currency at_ with
    | .ok lookup => .ok (proceeds * lookup.rate, closestInTime source "realized_pl" at_ lookup)
    | .error .noRate =>
      .ok (proceeds, [⟨source, "realized_pl", "no-rate", some (Time.dayOf at_), none⟩])
    | .error (.raised e) => .error e

/-- The latest rate of a currency, where the legacy rule needs one. -/
def latestRate (source : Currency) : Except PnlError (Noted ℚ) :=
  if source = display_currency then .ok (1, [])
  else
    match provider.latest source display_currency with
    | .ok lookup => .ok (lookup.rate, [])
    | .error .noRate => .ok (1, [⟨source, "realized_pl", "no-rate", none, none⟩])
    | .error (.raised e) => .error e

structure ConvertedSale where
  value : ℚ
  fallbacks : List RateFallbackInfo
  costBasisDisplay : ℚ
  deriving DecidableEq

/-- A lot at the rate of its purchase. -/
def addLotCost (sale : NativeSale) (cost : Noted ℚ) (lot : PnlLot) : Except PnlError (Noted ℚ) := do
  let rate ← lookupRate provider display_currency sale.currency lot.buyDate "realized_pl"
  .ok (cost.1 + lot.quantity * lot.unitCost * rate.1, cost.2 ++ rate.2)

/-- The `japan` branch of `convert_sale`. -/
def convertByLots (sale : NativeSale) : Except PnlError ConvertedSale := do
  let proceeds ← proceedsInDisplay provider display_currency sale sale.sellDate
  let cost ← sale.lots.foldlM (addLotCost provider display_currency sale) (0, proceeds.2)
  .ok ⟨proceeds.1 - cost.1, cost.2, Decimal.roundTo 4 cost.1⟩

/-- The `latest` branch. -/
def convertAtLatest (sale : NativeSale) : Except PnlError ConvertedSale := do
  let rate ← latestRate provider display_currency sale.proceeds.1
  let cost_rate ← latestRate provider display_currency sale.currency
  let cost_display := sale.costBasis * cost_rate.1
  .ok ⟨sale.proceeds.2 * rate.1 - cost_display, rate.2 ++ cost_rate.2, Decimal.roundTo 4 cost_display⟩

/-- The branch of all other rules. -/
def convertAtSale (sale : NativeSale) : Except PnlError ConvertedSale := do
  let proceeds ← proceedsInDisplay provider display_currency sale sale.sellDate
  let rate ← lookupRate provider display_currency sale.currency sale.sellDate "realized_pl"
  let cost_display := sale.costBasis * rate.1
  .ok ⟨proceeds.1 - cost_display, proceeds.2 ++ rate.2, Decimal.roundTo 4 cost_display⟩

def convertSale (sale : NativeSale) (rule_key : String) : Except PnlError ConvertedSale :=
  if rule_key = "japan" then convertByLots provider display_currency sale
  else if rule_key = "latest" then convertAtLatest provider display_currency sale
  else convertAtSale provider display_currency sale

/-- `convert_dividend`. -/
def convertDividend (amount : ℚ) (currency : Currency) (at_ : Timestamp) : Except PnlError (Noted ℚ) := do
  let rate ← lookupRate provider display_currency currency at_ "dividends"
  .ok (amount * rate.1, rate.2)

end

/-- `rule_for_locale`. -/
def ruleForLocale (locale : String) : String :=
  let language := (locale.takeWhile fun c => decide (c ≠ '-')).toString.toLower
  if language = "es" then "spain" else if language = "ja" then "japan" else "default"

/-! ## Sales of the lot engine -/

/-- A sale of `computeFifo` is the record of a row of the ledger and the lots it took. -/
theorem exists_of_mem_sales {rows : List FifoRow} {sale : NativeSale}
    (h : sale ∈ (computeFifo rows).sales) :
    ∃ r ∈ rows, ∃ qty total_val lots, sale = nativeSale r qty total_val lots := by
  have hrun : ∀ (rows : List FifoRow) (st : FifoResult), sale ∈ (rows.foldl fifoStep st).sales →
      sale ∈ st.sales ∨ ∃ r ∈ rows, ∃ qty total_val lots, sale = nativeSale r qty total_val lots := by
    intro rows
    induction rows with
    | nil => exact fun st hst => .inl hst
    | cons r rows ih =>
      intro st hst
      rcases ih _ hst with hst | ⟨r', hr', hsale⟩
      · rw [(fifoStep_spec st r).1] at hst
        rcases List.mem_append.mp hst with hst | hst
        · exact .inl hst
        · refine .inr ⟨r, List.mem_cons_self, ?_⟩
          unfold FifoRow.saleOf at hst
          split_ifs at hst
          · cases hst
          · obtain ⟨a, -, ha⟩ := Option.map_eq_some_iff.mp (Option.mem_toList.mp hst)
            exact ⟨a.1, a.2, _, ha.symm⟩
      · exact .inr ⟨r', List.mem_cons_of_mem _ hr', hsale⟩
  rcases hrun rows .empty h with hnil | hsale
  · cases hnil
  · exact hsale

/-! ## Rates that do not move -/

/-- Each pair has one rate at all times, or none; a pair without one raises `NoRateError`. -/
def RateProvider.Constant (provider : RateProvider) (rate : Currency → Currency → Option ℚ) : Prop :=
  ∀ source display,
    (∀ at_, (provider.historical source display at_).map RateLookup.rate =
      match rate source display with
      | some r => .ok r
      | none => .error .noRate) ∧
    (provider.latest source display).map RateLookup.rate =
      match rate source display with
      | some r => .ok r
      | none => .error .noRate

/-- The rate that is used: a currency needs none to itself, and a missing one counts as one. -/
def usedRate (rate : Currency → Currency → Option ℚ) (source display : Currency) : ℚ :=
  if source = display then 1 else (rate source display).getD 1

section Constant

variable {provider : RateProvider} {rate : Currency → Currency → Option ℚ} (display : Currency)

theorem ok_or_noRate {x : Except RateFailure RateLookup} {r : Option ℚ}
    (h : x.map RateLookup.rate = match r with
      | some r => .ok r
      | none => .error .noRate) :
    (∃ lookup, x = .ok lookup ∧ r = some lookup.rate) ∨ x = .error .noRate ∧ r = none := by
  cases x with
  | ok lookup =>
    cases r with
    | none => cases h
    | some r => exact .inl ⟨lookup, rfl, congrArg some (Except.ok.inj h).symm⟩
  | error e =>
    cases r with
    | none => exact .inr ⟨congrArg Except.error (Except.error.inj h), rfl⟩
    | some r => cases h

theorem lookupRate_of_constant (h : provider.Constant rate) (source : Currency) (at_ : Timestamp)
    (scope : String) :
    ∃ notes, lookupRate provider display source at_ scope = .ok (usedRate rate source display, notes) := by
  unfold lookupRate usedRate
  by_cases hsame : source = display
  · exact ⟨[], by rw [if_pos hsame, if_pos hsame]⟩
  rw [if_neg hsame, if_neg hsame]
  rcases ok_or_noRate ((h source display).1 at_) with ⟨lookup, hlookup, hr⟩ | ⟨hlookup, hr⟩ <;>
    rw [hlookup, hr] <;> exact ⟨_, rfl⟩

theorem latestRate_of_constant (h : provider.Constant rate) (source : Currency) :
    ∃ notes, latestRate provider display source = .ok (usedRate rate source display, notes) := by
  unfold latestRate usedRate
  by_cases hsame : source = display
  · exact ⟨[], by rw [if_pos hsame, if_pos hsame]⟩
  rw [if_neg hsame, if_neg hsame]
  rcases ok_or_noRate (h source display).2 with ⟨lookup, hlookup, hr⟩ | ⟨hlookup, hr⟩ <;>
    rw [hlookup, hr] <;> exact ⟨_, rfl⟩

/-- The proceeds are converted as a lookup of their currency would. -/
theorem proceedsInDisplay_eq (sale : NativeSale) (at_ : Timestamp) :
    proceedsInDisplay provider display sale at_ =
      (lookupRate provider display sale.proceeds.1 at_ "realized_pl").map fun rate =>
        (sale.proceeds.2 * rate.1, rate.2) := by
  unfold proceedsInDisplay lookupRate
  dsimp only
  split_ifs
  · simp [Except.map]
  · cases provider.historical sale.proceeds.1 display at_ with
    | ok lookup => rfl
    | error e => cases e <;> simp [Except.map]

theorem proceedsInDisplay_of_constant (h : provider.Constant rate) (sale : NativeSale) (at_ : Timestamp) :
    ∃ notes, proceedsInDisplay provider display sale at_ =
      .ok (sale.proceeds.2 * usedRate rate sale.proceeds.1 display, notes) := by
  obtain ⟨notes, hrate⟩ := lookupRate_of_constant display h sale.proceeds.1 at_ "realized_pl"
  exact ⟨notes, by rw [proceedsInDisplay_eq, hrate]; rfl⟩

theorem foldlM_addLotCost (h : provider.Constant rate) (sale : NativeSale) (lots : List PnlLot)
    (cost : Noted ℚ) : ∃ notes, lots.foldlM (addLotCost provider display sale) cost =
      .ok (cost.1 + lotCost lots * usedRate rate sale.currency display, notes) := by
  induction lots generalizing cost with
  | nil => exact ⟨cost.2, by simp [lotCost]; rfl⟩
  | cons lot lots ih =>
    obtain ⟨notes, hrate⟩ := lookupRate_of_constant display h sale.currency lot.buyDate "realized_pl"
    have hstep : addLotCost provider display sale cost lot =
        .ok (cost.1 + lot.quantity * lot.unitCost * usedRate rate sale.currency display,
          cost.2 ++ notes) := by
      rw [addLotCost, hrate]
      rfl
    obtain ⟨notes', hrest⟩ := ih (cost.1 + lot.quantity * lot.unitCost *
      usedRate rate sale.currency display, cost.2 ++ notes)
    refine ⟨notes', ?_⟩
    rw [List.foldlM_cons, hstep]
    refine hrest.trans ?_
    rw [lotCost, lotCost, List.map_cons, List.sum_cons]
    congr 2
    ring

theorem convertByLots_of_constant (h : provider.Constant rate) (sale : NativeSale) :
    ∃ c, convertByLots provider display sale = .ok c ∧
      c.value = sale.proceeds.2 * usedRate rate sale.proceeds.1 display -
        lotCost sale.lots * usedRate rate sale.currency display := by
  obtain ⟨notes, hproceeds⟩ := proceedsInDisplay_of_constant display h sale sale.sellDate
  obtain ⟨notes', hcost⟩ := foldlM_addLotCost display h sale sale.lots (0, notes)
  refine ⟨_, Runs.bind_eq_ok.mpr ⟨_, hproceeds, Runs.bind_eq_ok.mpr ⟨_, hcost, rfl⟩⟩, ?_⟩
  dsimp only
  rw [zero_add]

theorem convertAtLatest_of_constant (h : provider.Constant rate) (sale : NativeSale) :
    ∃ c, convertAtLatest provider display sale = .ok c ∧
      c.value = sale.proceeds.2 * usedRate rate sale.proceeds.1 display -
        sale.costBasis * usedRate rate sale.currency display := by
  obtain ⟨notes, hproceeds⟩ := latestRate_of_constant display h sale.proceeds.1
  obtain ⟨notes', hcost⟩ := latestRate_of_constant display h sale.currency
  exact ⟨_, by rw [convertAtLatest, hproceeds, hcost]; rfl, rfl⟩

theorem convertAtSale_of_constant (h : provider.Constant rate) (sale : NativeSale) :
    ∃ c, convertAtSale provider display sale = .ok c ∧
      c.value = sale.proceeds.2 * usedRate rate sale.proceeds.1 display -
        sale.costBasis * usedRate rate sale.currency display := by
  obtain ⟨notes, hproceeds⟩ := proceedsInDisplay_of_constant display h sale sale.sellDate
  obtain ⟨notes', hcost⟩ := lookupRate_of_constant display h sale.currency sale.sellDate "realized_pl"
  exact ⟨_, by rw [convertAtSale, hproceeds, hcost]; rfl, rfl⟩

end Constant

/-! ### Splitting a lot -/

section Split

variable (provider : RateProvider) (display : Currency)

/-- A lot in two pieces of one price and one date. -/
structure SplitsInto (lot first second : PnlLot) : Prop where
  quantity : first.quantity + second.quantity = lot.quantity
  unitCost : first.unitCost = lot.unitCost ∧ second.unitCost = lot.unitCost
  buyDate : first.buyDate = lot.buyDate ∧ second.buyDate = lot.buyDate

variable {lot first second : PnlLot} {before after : List PnlLot}

theorem lotCost_append (lots lots' : List PnlLot) : lotCost (lots ++ lots') = lotCost lots + lotCost lots' := by
  simp [lotCost]

theorem lotCost_cons (lot : PnlLot) (lots : List PnlLot) :
    lotCost (lot :: lots) = lot.quantity * lot.unitCost + lotCost lots := by
  simp [lotCost]

theorem SplitsInto.lotCost_eq (h : SplitsInto lot first second) :
    lotCost (before ++ first :: second :: after) = lotCost (before ++ lot :: after) := by
  simp only [lotCost_append, lotCost_cons, h.unitCost.1, h.unitCost.2, ← h.quantity]
  ring

/-- What a fold over the lots adds up, whatever is noted on the way. -/
theorem addLotCost_congr (sale sale' : NativeSale) (hcur : sale'.currency = sale.currency)
    {cost cost' : Noted ℚ} (hcost : cost.1 = cost'.1) (lot : PnlLot) :
    (addLotCost provider display sale cost lot).map Prod.fst =
      (addLotCost provider display sale' cost' lot).map Prod.fst := by
  unfold addLotCost
  rw [hcur, hcost]
  cases lookupRate provider display sale.currency lot.buyDate "realized_pl" <;> rfl

theorem foldlM_addLotCost_congr (sale sale' : NativeSale) (hcur : sale'.currency = sale.currency)
    (lots : List PnlLot) {cost cost' : Noted ℚ} (hcost : cost.1 = cost'.1) :
    (lots.foldlM (addLotCost provider display sale) cost).map Prod.fst =
      (lots.foldlM (addLotCost provider display sale') cost').map Prod.fst := by
  induction lots generalizing cost cost' with
  | nil => exact congrArg Except.ok hcost
  | cons lot lots ih =>
    rw [List.foldlM_cons, List.foldlM_cons]
    exact Runs.map_bind_congr (addLotCost_congr provider display sale sale' hcur hcost lot)
      fun c c' hc => ih hc

/-- Two pieces of a lot cost what the lot costs. -/
theorem SplitsInto.addLotCost_eq (h : SplitsInto lot first second) (sale : NativeSale) (cost : Noted ℚ) :
    (addLotCost provider display sale cost first >>= fun cost =>
        addLotCost provider display sale cost second).map Prod.fst =
      (addLotCost provider display sale cost lot).map Prod.fst := by
  unfold addLotCost
  rw [h.buyDate.1, h.buyDate.2, h.unitCost.1, h.unitCost.2]
  cases lookupRate provider display sale.currency lot.buyDate "realized_pl" with
  | error e => rfl
  | ok rate =>
    refine congrArg Except.ok ?_
    show cost.1 + first.quantity * lot.unitCost * rate.1 + second.quantity * lot.unitCost * rate.1 =
      cost.1 + lot.quantity * lot.unitCost * rate.1
    rw [← h.quantity]
    ring

/-- The sale with one of its lots cut in two, its figures computed again. -/
def recut (sale : NativeSale) (before : List PnlLot) (first second : PnlLot) (after : List PnlLot) :
    NativeSale :=
  let lots := before ++ first :: second :: after
  { sale with
    lots := lots
    costBasis := Decimal.roundTo 4 (lotCost lots)
    realizedPl := Decimal.roundTo 4 (sale.sellTotal - lotCost lots) }

variable {sale : NativeSale}

theorem foldlM_recut (h : SplitsInto lot first second) (hlots : sale.lots = before ++ lot :: after)
    (cost : Noted ℚ) :
    ((recut sale before first second after).lots.foldlM
        (addLotCost provider display (recut sale before first second after)) cost).map Prod.fst =
      (sale.lots.foldlM (addLotCost provider display sale) cost).map Prod.fst := by
  refine (foldlM_addLotCost_congr provider display _ sale (by rfl) _ (by rfl)).trans ?_
  rw [hlots, show (recut sale before first second after).lots = before ++ first :: second :: after
    from rfl, List.foldlM_append, List.foldlM_append]
  refine Runs.map_bind_congr (p := id) rfl fun c c' hc => ?_
  obtain rfl : c = c' := hc
  rw [List.foldlM_cons, List.foldlM_cons]
  simp only [List.foldlM_cons]
  rw [← bind_assoc]
  exact Runs.map_bind_congr (h.addLotCost_eq provider display sale c) fun d d' hd =>
    foldlM_addLotCost_congr provider display sale sale rfl after hd

/-- Cutting a lot leaves the value of the sale under every rule. -/
theorem convertSale_recut (h : SplitsInto lot first second) (hlots : sale.lots = before ++ lot :: after)
    (hcost : sale.costBasis = Decimal.roundTo 4 (lotCost sale.lots)) (rule_key : String) :
    (convertSale provider display (recut sale before first second after) rule_key).map
        ConvertedSale.value =
      (convertSale provider display sale rule_key).map ConvertedSale.value := by
  have hbasis : (recut sale before first second after).costBasis = sale.costBasis := by
    rw [hcost, hlots, ← h.lotCost_eq]
    rfl
  have hproceeds : proceedsInDisplay provider display (recut sale before first second after)
      (recut sale before first second after).sellDate =
        proceedsInDisplay provider display sale sale.sellDate := rfl
  unfold convertSale
  split_ifs
  · unfold convertByLots
    rw [hproceeds]
    refine Runs.map_bind_congr (p := id) rfl fun proceeds proceeds' hp => ?_
    obtain rfl : proceeds = proceeds' := hp
    refine Runs.map_bind_congr (foldlM_recut provider display h hlots _) fun c c' hc => ?_
    refine congrArg Except.ok ?_
    show proceeds.1 - c.1 = proceeds.1 - c'.1
    rw [hc]
  · unfold convertAtLatest
    rw [hbasis]
    rfl
  · unfold convertAtSale
    rw [hbasis, hproceeds]
    rfl

end Split

/-! ### Agreement -/

/-- The sale was paid in its own currency: no other payment currency is recorded, or no rate for it. -/
def NativeSale.PaidAtHome (sale : NativeSale) : Prop :=
  (∀ p ∈ sale.paymentCurrency, p = sale.currency) ∨ sale.fxRate = none

theorem NativeSale.PaidAtHome.proceeds_eq {sale : NativeSale} (h : sale.PaidAtHome) :
    sale.proceeds = (sale.currency, sale.sellTotal) := by
  unfold NativeSale.proceeds
  rcases h with h | h
  · cases hp : sale.paymentCurrency with
    | none => rfl
    | some p =>
      rw [hp] at h
      cases sale.fxRate with
      | none => rfl
      | some fx => exact if_neg (not_not.mpr (h p rfl))
  · rw [h]
    cases sale.paymentCurrency <;> rfl

theorem abs_mul_sub_mul_le {x y r e : ℚ} (h : |x - y| ≤ e) : |x * r - y * r| ≤ |r| * e := by
  rw [← sub_mul, abs_mul, mul_comm]
  exact mul_le_mul_of_nonneg_left h (abs_nonneg r)

/-- Where rates do not move, the rules give one value, up to the rounding of the cost basis under
`japan`. Without a payment in another currency it is the native gain at the rate of the asset, and
cutting a lot in two leaves it. -/
theorem convertSale_of_constant {provider : RateProvider} {rate : Currency → Currency → Option ℚ}
    (h : provider.Constant rate) (display : Currency) {rows : List FifoRow} {sale : NativeSale}
    (hsale : sale ∈ (computeFifo rows).sales) :
    let r := usedRate rate sale.currency display
    ∃ v w,
      (∀ rule_key, rule_key ≠ "japan" →
        (convertSale provider display sale rule_key).map ConvertedSale.value = .ok v) ∧
      (convertSale provider display sale "japan").map ConvertedSale.value = .ok w ∧
      |w - v| ≤ |r| * (1 / 20000) ∧
      (sale.PaidAtHome → v = (sale.sellTotal - sale.costBasis) * r ∧
        w = (sale.sellTotal - lotCost sale.lots) * r ∧
        (sale.currency = display → |v - sale.realizedPl| ≤ 1 / 10000 ∧
          |w - sale.realizedPl| ≤ 1 / 20000)) ∧
      ∀ before lot after first second, sale.lots = before ++ lot :: after →
        SplitsInto lot first second → ∀ rule_key,
        (convertSale provider display (recut sale before first second after) rule_key).map
            ConvertedSale.value =
          (convertSale provider display sale rule_key).map ConvertedSale.value := by
  intro r
  obtain ⟨row, -, qty, total_val, lots, hrow⟩ := exists_of_mem_sales hsale
  have hcost : sale.costBasis = Decimal.roundTo 4 (lotCost sale.lots) := by rw [hrow]; rfl
  have hgain : sale.realizedPl = Decimal.roundTo 4 (sale.sellTotal - lotCost sale.lots) := by
    rw [hrow]; rfl
  have hround : |sale.costBasis - lotCost sale.lots| ≤ 1 / 20000 := by
    rw [hcost]
    exact (Decimal.abs_roundTo_sub_le 4 _).trans (by norm_num)
  have hnative : |sale.sellTotal - lotCost sale.lots - sale.realizedPl| ≤ 1 / 20000 := by
    rw [hgain, abs_sub_comm]
    exact (Decimal.abs_roundTo_sub_le 4 _).trans (by norm_num)
  obtain ⟨japan, hjapan, hjv⟩ := convertByLots_of_constant display h sale
  obtain ⟨latest, hlatest, hlv⟩ := convertAtLatest_of_constant display h sale
  obtain ⟨other, hother, hov⟩ := convertAtSale_of_constant display h sale
  refine ⟨other.value, japan.value, fun rule_key hrule => ?_, ?_, ?_, fun hhome => ?_,
    fun before lot after first second hlots hsplit rule_key =>
      convertSale_recut provider display hsplit hlots hcost rule_key⟩
  · unfold convertSale
    rw [if_neg hrule]
    split_ifs
    · rw [hlatest]
      exact congrArg Except.ok (hlv.trans hov.symm)
    · rw [hother]
      rfl
  · rw [convertSale, if_pos rfl, hjapan]
    rfl
  · rw [hjv, hov, sub_sub_sub_cancel_left]
    exact abs_mul_sub_mul_le hround
  · rw [hov, hjv, hhome.proceeds_eq]
    refine ⟨(sub_mul _ _ _).symm, (sub_mul _ _ _).symm, fun hsame => ?_⟩
    have hr : usedRate rate sale.currency display = 1 := if_pos hsame
    simp only [hr, mul_one]
    refine ⟨?_, hnative⟩
    have hsum := abs_sub_le (sale.sellTotal - sale.costBasis) (sale.sellTotal - lotCost sale.lots)
      sale.realizedPl
    rw [sub_sub_sub_cancel_left, abs_sub_comm (lotCost sale.lots)] at hsum
    linarith

namespace Sample

/-- Every currency is worth three halves of any other. -/
def steadyRates : RateProvider where
  historical _ _ at_ := .ok ⟨3 / 2, { wall := at_ }, false⟩
  latest _ _ := .ok ⟨3 / 2, { wall := 0 }, false⟩

theorem steadyRates_constant : steadyRates.Constant fun _ _ => some (3 / 2) :=
  fun _ _ => ⟨fun _ => rfl, rfl⟩

/-- Ten bought for 100, four sold for 60. -/
def tradeRows : List FifoRow :=
  [fifoRow 1 .investmentBuy 10 100, fifoRow 2 .investmentSell 4 60]

/-- The gain of 20 is 30 in the display currency under every rule. -/
theorem trade_converted :
    ∃ sale ∈ (computeFifo tradeRows).sales,
      ∃ v w, (convertSale steadyRates eur sale "spain").map ConvertedSale.value = .ok v ∧
        (convertSale steadyRates eur sale "japan").map ConvertedSale.value = .ok w ∧
        v = 30 ∧ w = 30 := by
  obtain ⟨sale, hsales⟩ : ∃ sale, (computeFifo tradeRows).sales = [sale] := ⟨_, rfl⟩
  have hmem : sale ∈ (computeFifo tradeRows).sales := by rw [hsales]; exact List.mem_singleton_self _
  obtain ⟨v, w, hrules, hjapan, -, hhome, -⟩ :=
    convertSale_of_constant steadyRates_constant eur hmem
  have hsale : (computeFifo tradeRows).sales = [nativeSale (fifoRow 2 .investmentSell 4 60) 4 60
      [⟨4, 10, 1, none⟩]] := by decide +kernel
  obtain rfl : sale = _ := List.singleton_inj.mp (hsales.symm.trans hsale)
  obtain ⟨hv, hw, -⟩ := hhome (.inr rfl)
  exact ⟨_, hmem, v, w, hrules "spain" (by decide), hjapan, hv.trans (by decide +kernel),
    hw.trans (by decide +kernel)⟩

end Sample

end FinHub
