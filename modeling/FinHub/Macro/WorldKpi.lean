import FinHub.Macro.MacroSync
import FinHub.MarketCycle.Derivation
import Mathlib.Algebra.BigOperators.Group.List.Basic
import Mathlib.Data.List.Induction
import Mathlib.Tactic.FieldSimp

/-!
# FinHub.Macro.WorldKpi

The world KPIs of `services/world_kpi_svc.py` and their normalizations, `services/world_kpi_calc.py`.

A KPI reads the stored observations of its source in the order of their dates, and either takes them as they
are or turns levels into growth over a year, month by month.

* `ascending_readMacroSeries`: every stored series is strictly ascending by date.
* `yoyFromLevel_laws`: what the growth says of the levels, and the levels from the growth.
-/

namespace FinHub

open StepSeries

/-! ## Normalizations -/

/-- The same month a year before. -/
def MonthKey.yearBefore (m : MonthKey) : MonthKey where
  year := m.year - 1
  month := m.month
  month_mem := m.month_mem

theorem MonthKey.index_yearBefore (m : MonthKey) : m.yearBefore.index = m.index - 12 := by
  unfold yearBefore index
  ring

inductive Normalization where
  | none | yoyFromLevel
  deriving DecidableEq

/-- `yoy_from_level`: a prior level that is missing, or zero, drops the point. -/
def yoyFromLevel (series : List (DatedValue ℚ)) : List (DatedValue ℚ) :=
  (sortedByDate series).filterMap fun point =>
    match valueIn series (monthKey point.obsDate).yearBefore with
    | some prior => if prior = 0 then none else some ⟨point.obsDate, (point.value / prior - 1) * 100⟩
    | none => none

/-- `apply`. -/
def Normalization.apply : Normalization → List (DatedValue ℚ) → List (DatedValue ℚ)
  | none, series => series
  | yoyFromLevel, series => FinHub.yoyFromLevel series

/-! ## The registry -/

inductive WorldKpi where
  | policyRate | yield10y | inflationRate | m2Growth
  deriving DecidableEq

def WorldKpi.name : WorldKpi → String
  | policyRate => "policy_rate"
  | yield10y => "yield_10y"
  | inflationRate => "inflation_rate"
  | m2Growth => "m2_growth"

/-- The canonical market keys, in the order of their texts. -/
inductive MarketKey where
  | japan | spainEurozone | usa
  deriving DecidableEq

def MarketKey.text : MarketKey → String
  | japan => "japan"
  | spainEurozone => "spain-eurozone"
  | usa => "usa"

structure KpiSource where
  ref : String
  normalization : Normalization := .none
  resolution : Resolution := .monthly
  deriving DecidableEq

/-- `REGISTRY` of the world KPIs. -/
def worldRegistry : WorldKpi → List (MarketKey × KpiSource)
  | .policyRate =>
    [(.usa, { ref := "usa-13w-bill-rate", resolution := .daily }),
      (.japan, { ref := "boj-policy-rate", resolution := .event }),
      (.spainEurozone, { ref := "ecb-deposit-rate", resolution := .event })]
  | .yield10y => [(.usa, { ref := "usa-10y-treasury-yield", resolution := .daily })]
  | .inflationRate =>
    [(.usa, { ref := "usa-cpi-yoy", normalization := .yoyFromLevel }),
      (.spainEurozone, { ref := "eurozone-cpi-yoy" })]
  | .m2Growth =>
    [(.usa, { ref := "usa-m2-money-supply", normalization := .yoyFromLevel }),
      (.japan, { ref := "japan-m2-yoy", normalization := .yoyFromLevel }),
      (.spainEurozone, { ref := "eurozone-m2-yoy" })]

/-- The errors of the two registries, and a direction where a level is computed with. -/
inductive KpiError where
  | noSource (kpi : WorldKpi) (market : MarketKey)
  | noInputs (kpi : String) (market : MarketKey)
  | typeError
  deriving DecidableEq

def KpiError.message : KpiError → Option String
  | noSource kpi market => some s!"no source for world KPI '{kpi.name}' in market '{market.text}'"
  | noInputs kpi market => some s!"no inputs for derived KPI '{kpi}' in market '{market.text}'"
  | typeError => none

/-- `sorted` of a set of markets. -/
def sortMarkets (markets : List MarketKey) : List MarketKey :=
  [MarketKey.japan, .spainEurozone, .usa].filter fun m => markets.elem m

namespace WorldKpi

/-- `market_keys`. -/
def marketKeys (kpi : WorldKpi) : List MarketKey := sortMarkets ((worldRegistry kpi).map Prod.fst)

/-- `get_source`. -/
def getSource (kpi : WorldKpi) (market : MarketKey) : Except KpiError KpiSource :=
  match (worldRegistry kpi).lookup market with
  | some source => .ok source
  | none => .error (.noSource kpi market)

end WorldKpi

/-- `_read_macro_series`: the observations of a series by date. -/
def readMacroSeries (s : MacroStore) (slug : String) : List (DatedValue ℚ) :=
  sortedByDate ((s.observations.filter fun o => o.slug == slug).map fun o => ⟨o.obsDate, o.value⟩)

/-- `world_kpi`. -/
def worldKpi (s : MacroStore) (kpi : WorldKpi) (market : MarketKey) : Except KpiError (List (DatedValue ℚ)) := do
  let source ← kpi.getSource market
  .ok (source.normalization.apply (readMacroSeries s source.ref))

/-! ## Series by month -/

/-- The points stand in the strict order of their dates. -/
def Ascending {α : Type} (points : List (DatedValue α)) : Prop := points.Pairwise fun p q => p.obsDate < q.obsDate

theorem Ascending.ordered {α : Type} {points : List (DatedValue α)} (h : Ascending points) :
    Ordered DatedValue.obsDate points := h.imp le_of_lt

/-- In a store every series is strictly ascending: the table has one row for a date. -/
theorem ascending_readMacroSeries (s : MacroStore) (slug : String) : Ascending (readMacroSeries s slug) := by
  have hdates : (((s.observations.filter fun o => o.slug == slug).map fun o =>
      (⟨o.obsDate, o.value⟩ : DatedValue ℚ)).map DatedValue.obsDate).Nodup := by
    rw [List.map_map]
    refine List.Nodup.map_on ?_ ((List.Nodup.of_map _ s.unique).filter _)
    intro o ho o' ho' hdate
    obtain ⟨ho, hslug⟩ := List.mem_filter.mp ho
    obtain ⟨ho', hslug'⟩ := List.mem_filter.mp ho'
    refine List.inj_on_of_nodup_map s.unique ho ho' ?_
    exact Prod.ext ((eq_of_beq hslug).trans (eq_of_beq hslug').symm) hdate
  have hne : (readMacroSeries s slug).Pairwise fun p q => p.obsDate ≠ q.obsDate :=
    List.pairwise_map.mp (((List.perm_insertionSort _ _).map DatedValue.obsDate).nodup_iff.mpr hdates)
  exact ((ordered_sortedByDate _).and hne).imp fun h => lt_of_le_of_ne h.1 h.2

/-- A series whose points are changed by a rule of their months. -/
theorem valueIn_filterMap (rule : MonthKey → Option (ℚ → ℚ)) (points : List (DatedValue ℚ)) (month : MonthKey) :
    valueIn (points.filterMap fun p => (rule (monthKey p.obsDate)).map fun f => ⟨p.obsDate, f p.value⟩) month =
      (rule month).bind fun f => (valueIn points month).map f := by
  induction points using List.reverseRecOn with
  | nil => cases rule month <;> rfl
  | append_singleton points p ih =>
    unfold valueIn at ih ⊢
    rw [List.filterMap_append, List.reverse_append, List.reverse_append, List.find?_append, List.find?_append,
      Option.map_or, Option.map_or, ih]
    by_cases hmonth : monthKey p.obsDate = month
    · subst hmonth
      cases hrule : rule (monthKey p.obsDate) <;> simp [hrule]
    · cases hrule : rule (monthKey p.obsDate) <;> cases rule month <;> simp [hmonth, hrule]

/-- The change of a level over a year, where the level a year before is one. -/
def growthRule (series : List (DatedValue ℚ)) (month : MonthKey) : Option (ℚ → ℚ) :=
  (valueIn series month.yearBefore).bind fun prior =>
    if prior = 0 then none else some fun value => (value / prior - 1) * 100

theorem yoyFromLevel_eq (series : List (DatedValue ℚ)) : yoyFromLevel series =
    (sortedByDate series).filterMap fun p =>
      (growthRule series (monthKey p.obsDate)).map fun f => ⟨p.obsDate, f p.value⟩ := by
  unfold yoyFromLevel growthRule
  refine List.filterMap_congr fun p _ => ?_
  cases valueIn series (monthKey p.obsDate).yearBefore with
  | none => rfl
  | some prior =>
    by_cases hzero : prior = 0
    · simp [hzero]
    · simp [hzero]

variable {series : List (DatedValue ℚ)}

theorem sortedByDate_eq_self (h : Ordered DatedValue.obsDate series) : sortedByDate series = series :=
  List.Pairwise.insertionSort_eq h

theorem valueIn_yoyFromLevel (h : Ordered DatedValue.obsDate series) (month : MonthKey) :
    valueIn (yoyFromLevel series) month =
      (growthRule series month).bind fun f => (valueIn series month).map f := by
  rw [yoyFromLevel_eq, sortedByDate_eq_self h, valueIn_filterMap]

/-- The same month some years before. -/
def MonthKey.yearsBefore (m : MonthKey) (n : ℕ) : MonthKey := MonthKey.yearBefore^[n] m

/-- What a growth in percent makes of a level. -/
def growthFactor (growth : ℚ) : ℚ := 1 + growth / 100

/-- The growth of a series of levels. -/
structure YoyLaws (series : List (DatedValue ℚ)) : Prop where
  ascending : Ascending (yoyFromLevel series)
  defined : ∀ month, (valueIn (yoyFromLevel series) month).isSome ↔
    (valueIn series month).isSome ∧ ∃ prior, valueIn series month.yearBefore = some prior ∧ prior ≠ 0
  rebuilt : ∀ (n : ℕ) (month : MonthKey) (growths : ℕ → ℚ),
    (∀ k < n, valueIn (yoyFromLevel series) (month.yearsBefore k) = some (growths k)) →
    valueIn series month = (valueIn series (month.yearsBefore n)).map fun level =>
      level * ((List.range n).map fun k => growthFactor (growths k)).prod

theorem yoy_step (h : Ordered DatedValue.obsDate series) {month : MonthKey} {growth : ℚ}
    (hgrowth : valueIn (yoyFromLevel series) month = some growth) :
    valueIn series month = (valueIn series month.yearBefore).map fun level => level * growthFactor growth := by
  rw [valueIn_yoyFromLevel h] at hgrowth
  unfold growthRule at hgrowth
  cases hprior : valueIn series month.yearBefore with
  | none =>
    rw [hprior] at hgrowth
    cases hgrowth
  | some prior =>
    rw [hprior, Option.bind_some] at hgrowth
    split_ifs at hgrowth with hzero
    · cases hgrowth
    · obtain ⟨value, hvalue, rfl⟩ := Option.map_eq_some_iff.mp hgrowth
      rw [hvalue, Option.map_some]
      unfold growthFactor
      congr 1
      field_simp
      ring

/-- Growth over a year loses nothing but the first year: every later level is the one some years before it
times the growth of the years between. -/
theorem yoyFromLevel_laws (s : MacroStore) (slug : String) : YoyLaws (readMacroSeries s slug) where
  ascending := by
    rw [yoyFromLevel_eq, sortedByDate_eq_self (ascending_readMacroSeries s slug).ordered]
    refine List.Pairwise.filterMap _ ?_ (ascending_readMacroSeries s slug)
    intro p q hpq p' hp' q' hq'
    obtain ⟨f, -, rfl⟩ := Option.map_eq_some_iff.mp hp'
    obtain ⟨g, -, rfl⟩ := Option.map_eq_some_iff.mp hq'
    exact hpq
  defined month := by
    rw [valueIn_yoyFromLevel (ascending_readMacroSeries s slug).ordered]
    unfold growthRule
    cases valueIn (readMacroSeries s slug) month.yearBefore with
    | none => simp
    | some prior => by_cases hzero : prior = 0 <;> simp [hzero]
  rebuilt n month growths hgrowths := by
    have hordered := (ascending_readMacroSeries s slug).ordered
    induction n generalizing month growths with
    | zero => simp [MonthKey.yearsBefore]
    | succ n ih =>
      have hfirst := yoy_step hordered (hgrowths 0 (Nat.succ_pos n))
      have hrest := ih month.yearBefore (fun k => growths (k + 1)) fun k hk => hgrowths (k + 1) (Nat.succ_lt_succ hk)
      change valueIn _ month = _ at hfirst
      rw [hfirst]
      change (valueIn _ month.yearBefore).map _ = _
      rw [hrest, Option.map_map, List.range_succ_eq_map, List.map_cons, List.map_map, List.prod_cons]
      change _ = Option.map _ (valueIn _ (month.yearBefore.yearsBefore n))
      congr 1
      funext level
      simp only [Function.comp_apply]
      exact (mul_assoc ..).trans (congrArg (level * ·) (mul_comm ..))

end FinHub
