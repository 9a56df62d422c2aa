import FinHub.Rates.Provider
import Mathlib.Data.List.ReduceOption

/-!
# FinHub.Rates.Metadata

The latest rates that an answer in a display currency is converted at, and what it tells about them.

`foundRates` is the loop over the currencies that both make: the answers keep its rates in a cache and
`_get_rate_metadata` reports them.
-/

namespace FinHub

/-- A rate that was found, with the instant it is of. -/
structure FoundRate where
  currency : Currency
  rate : ℚ
  timestamp : IsoStamp
  deriving DecidableEq

structure RateMetadata where
  rates : List (Currency × ℚ)
  latestTimestamp : IsoStamp
  stale : Bool
  deriving DecidableEq

/-- The greater of two instants; Python does not compare one with an offset and one without. -/
def laterStamp (a b : IsoStamp) : Except PnlError IsoStamp :=
  if a.offset.isSome ≠ b.offset.isSome then .error .typeError
  else .ok (if a.instant < b.instant then b else a)

def laterFound (latest : Option IsoStamp) (r : FoundRate) : Except PnlError (Option IsoStamp) :=
  match latest with
  | none => .ok (some r.timestamp)
  | some latest => (laterStamp latest r.timestamp).map some

namespace Ledger

variable (l : Ledger) (display_currency : Currency)

/-- One currency: a pair that is not found is passed over, any other failure leaves the loop. -/
def findRate (cur : Currency) : Except PnlError (Option FoundRate) :=
  match l.rateResponse cur display_currency none with
  | .ok r => .ok (some ⟨cur, r.1, r.2⟩)
  | .error .noRate => .ok none
  | .error (.raised e) => .error e

/-- The rates of a set of currencies. -/
def foundRates (currencies : List Currency) : Except PnlError (List FoundRate) :=
  ((currencies.eraseDups.filter fun cur => decide (cur ≠ display_currency)).mapM
    (l.findRate display_currency)).map List.reduceOption

/-- What a value is multiplied by to be converted, 1 where there is no rate. -/
def conversionRate (display_currency : Option Currency) (cur : Currency) (at_ : Option Timestamp) : ℚ :=
  match display_currency with
  | none => 1
  | some display =>
    if cur = display then 1
    else
      match l.rateResponse cur display at_ with
      | .ok r => r.1
      | .error _ => 1

/-- `_get_rate_metadata`. -/
def getRateMetadata (now : Timestamp) (currencies : List Currency) : Except PnlError (Option RateMetadata) := do
  let found ← l.foundRates display_currency currencies
  let latest ← found.foldlM laterFound none
  .ok (latest.map fun latest =>
    { rates := found.map fun r => (r.currency, r.rate)
      latestTimestamp := latest
      stale := isStaleRate (Time.dayOf latest.wall) (Time.dayOf now) })

end Ledger

/-- `convert` of the answers: a value without a rate stays as it is. -/
def convertAt (found : List FoundRate) (display_currency : Option Currency) (value : ℚ) (cur : Currency) : ℚ :=
  match display_currency with
  | none => value
  | some display =>
    if cur = display then value
    else
      match found.find? fun r => decide (r.currency = cur) with
      | some r => value * r.rate
      | none => value

theorem Ledger.findRate_currency {l : Ledger} {display cur : Currency} {r : FoundRate}
    (h : l.findRate display cur = .ok (some r)) : r.currency = cur := by
  unfold Ledger.findRate at h
  cases hr : l.rateResponse cur display none with
  | ok q =>
    rw [hr] at h
    cases h
    rfl
  | error e =>
    rw [hr] at h
    cases e <;> cases h

/-- What the loop found is the latest rate of every currency it looked for. -/
theorem convertAt_of_foundRates {l : Ledger} {display : Currency} {currencies : List Currency} {found : List FoundRate}
    (h : l.foundRates display currencies = .ok found) (value : ℚ) (cur : Currency) :
    convertAt found (some display) value cur =
      value * if cur ∈ currencies then l.conversionRate (some display) cur none else 1 := by
  obtain ⟨results, hresults, rfl⟩ := Runs.map_eq_ok.mp h
  obtain ⟨hof, hfrom⟩ := Runs.exists_mem_of_mapM hresults
  simp only [convertAt, Ledger.conversionRate]
  by_cases hdisp : cur = display
  · simp [hdisp]
  · rw [if_neg hdisp, if_neg hdisp]
    cases hfind : results.reduceOption.find? fun r => decide (r.currency = cur) with
    | some r =>
      have hcur : r.currency = cur := by simpa using List.find?_some hfind
      obtain ⟨cur', hcur', hr⟩ := hfrom (some r) (List.reduceOption_mem_iff.mp (List.mem_of_find?_eq_some hfind))
      obtain rfl : cur = cur' := hcur.symm.trans (l.findRate_currency hr)
      have hmem : cur ∈ currencies := List.mem_eraseDups.mp (List.mem_of_mem_filter hcur')
      rw [if_pos hmem]
      unfold Ledger.findRate at hr
      cases hq : l.rateResponse cur display none with
      | ok q =>
        rw [hq] at hr
        cases hr
        rfl
      | error e =>
        rw [hq] at hr
        cases e <;> cases hr
    | none =>
      simp only
      split_ifs with hmem
      · obtain ⟨y, hy, hr⟩ := hof cur (List.mem_filter.mpr ⟨List.mem_eraseDups.mpr hmem, by simpa using hdisp⟩)
        unfold Ledger.findRate at hr
        cases hq : l.rateResponse cur display none with
        | ok q =>
          rw [hq] at hr
          cases hr
          have hnot := List.find?_eq_none.mp hfind _ (List.reduceOption_mem_iff.mpr hy)
          simp at hnot
        | error e => rw [mul_one]
      · rw [mul_one]

end FinHub
