import FinHub.Analytics.PnlRules
import FinHub.Model.Queries

/-!
# FinHub.Rates.Provider

`CurrencyServiceRateProvider`: the rates of the reports, from the stored ones.

A rate that is two business days old or older is reported as a fallback; one that has to be inverted
and is zero raises.
-/

namespace FinHub

/-- `date.weekday()` of a day number, Monday being 0. -/
def weekdayOf (d : ℤ) : ℤ := (d + 3) % 7

def businessDaysBetween (start end_ : ℤ) : ℕ :=
  ((List.range (end_ - start).toNat).filter fun i => decide (weekdayOf (start + i + 1) < 5)).length

def isStaleRate (rate_date reference_date : ℤ) : Bool :=
  decide (2 ≤ businessDaysBetween rate_date reference_date)

namespace Ledger

variable (s : Ledger)

/-- `get_rate` with the instant of the row; `PairNotFound` becomes `NoRateError`. -/
def rateResponse (code base_code : Currency) (at_ : Option Timestamp) :
    Except RateFailure (ℚ × IsoStamp) :=
  match s.resolveDirection code base_code with
  | none => .error .noRate
  | some (stored_code, stored_base_code, invert) =>
    let row := match at_ with
      | some at_ => s.getRateAt stored_code stored_base_code at_
      | none => s.getLatestRate stored_code stored_base_code
    match row with
    | none => .error .noRate
    | some row =>
      if invert then
        if row.rate = 0 then .error (.raised .zeroDivisionError) else .ok (1 / row.rate, row.timestamp)
      else .ok (row.rate, row.timestamp)

/-- The rate of a response is the one of `get_rate`. -/
theorem rateResponse_toOption (code base_code : Currency) (at_ : Option Timestamp) :
    (s.rateResponse code base_code at_).toOption.map Prod.fst = s.getRate code base_code at_ := by
  unfold rateResponse getRate
  cases s.resolveDirection code base_code with
  | none => rfl
  | some dir =>
    obtain ⟨stored_code, stored_base_code, invert⟩ := dir
    cases at_ with
    | none =>
      simp only [Option.bind_eq_bind, Option.bind_some]
      cases s.getLatestRate stored_code stored_base_code with
      | none => rfl
      | some row => simp only [Option.bind_some]; split_ifs <;> rfl
    | some at_ =>
      simp only [Option.bind_eq_bind, Option.bind_some]
      cases s.getRateAt stored_code stored_base_code at_ with
      | none => rfl
      | some row => simp only [Option.bind_some]; split_ifs <;> rfl

def currencyServiceRateProvider : RateProvider where
  historical code base_code at_ :=
    (s.rateResponse code base_code (some at_)).map fun r =>
      { rate := r.1
        timestamp := r.2
        fallback := decide (r.2.wall < at_) && isStaleRate (Time.dayOf r.2.wall) (Time.dayOf at_) }
  latest code base_code :=
    (s.rateResponse code base_code none).map fun r =>
      { rate := r.1, timestamp := r.2, fallback := false }

end Ledger

end FinHub
