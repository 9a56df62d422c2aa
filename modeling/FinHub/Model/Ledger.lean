import FinHub.Lib.Table
import FinHub.Model.Time
import Mathlib.Algebra.Order.Ring.Rat
import Mathlib.Data.Prod.Lex
import Mathlib.Tactic.Simps.Basic

/-!
# FinHub.Model.Ledger

The tables of one profile, as the profile clause of the queries leaves them visible, and the writes
the queries make to them. A column that no modelled function reads or writes is left out. `REAL`
columns are exact rationals and `NULL` is `none`.

A `Ledger` carries what SQLite and the callers keep between the tables: a fee, a tax and a link row
name transaction ids that have been handed out (`fees_lt`, `taxes_lt`, `links_lt`), so an id that
`AUTOINCREMENT` gives out next has no row hanging on it. It says nothing about the ids being alive:
the foreign keys are declared and never enforced.
-/

namespace FinHub

open Tabular

/-! ## Enumerations -/

inductive TransactionType where
  | income | moneyOut | investmentBuy | investmentSell | transfer | transferIn | transferOut
  | balanceAdjustment
  deriving DecidableEq, Repr

namespace TransactionType

/-- `INCOME`, `INVESTMENT_SELL`, `TRANSFER_IN`. -/
def isInflow : TransactionType → Bool
  | income | investmentSell | transferIn => true
  | _ => false

/-- `SPEND_TYPES`; also the types every balance subtracts. -/
def isSpend : TransactionType → Bool
  | moneyOut | investmentBuy | transferOut => true
  | _ => false

end TransactionType

inductive InvestmentTransactionCategory where
  | normal | dca | rebalance
  deriving DecidableEq, Repr

inductive IncomeCategory where
  | salary | other | dividends | interest | cashback
  deriving DecidableEq, Repr

inductive DividendType where
  | regular | special | qualified
  deriving DecidableEq, Repr

inductive BalanceMode where
  | inject | debit
  deriving DecidableEq, Repr

inductive FeeType where
  | broker | fx | platform | other
  deriving DecidableEq, Repr

inductive FeeNature where
  | fixed | percentage | both | min
  deriving DecidableEq, Repr

inductive TrackingMode where
  | auto | manual
  deriving DecidableEq, Repr

inductive Layer where
  | core | reserve | satellite
  deriving DecidableEq, Repr

inductive EntityType where
  | broker | bank | employer | exchange | other
  deriving DecidableEq, Repr

/-! ## Rows -/

/-- A currency code. Python's `a or b` on codes and SQL's `COALESCE(a, b)` agree because no code is
the empty text. -/
abbrev Currency := { code : String // code ≠ "" }

structure Entity where
  name : String
  entityType : EntityType := .other
  mainCurrency : Option Currency := none
  country : Option String := none
  description : Option String := none
  deletedAt : Option Timestamp := none
  deriving DecidableEq

structure PortfolioAsset where
  marketCode : String
  layer : Option Layer := none
  trackingMode : TrackingMode := .auto
  currentValueManual : Option ℚ := none
  isActive : Bool := true
  deriving DecidableEq

structure FiscalExemption where
  exemptionType : String
  exemptionAmount : ℚ := 0
  exemptionRate : ℚ := 100
  exemptionRateLimit : Option ℚ := none
  deriving DecidableEq

/-- Dates are day numbers; `endDate = none` is an open-ended period. -/
structure FiscalPeriod where
  ruleKey : String
  startDate : ℤ
  endDate : Option ℤ := none
  deriving DecidableEq

/-- The text of a stored rate's instant: its wall-clock part and the UTC offset it carries. -/
structure IsoStamp where
  wall : Timestamp
  offset : Option ℤ := none
  deriving DecidableEq

namespace IsoStamp

/-- `julianday(timestamp)`. -/
def instant (s : IsoStamp) : Timestamp := s.wall - s.offset.getD 0

/-- The order of the texts. Of two texts with one wall clock the bare one comes first, then the
`+` suffixes, then the `-` suffixes, each by magnitude. -/
def textKey (s : IsoStamp) : ℤ ×ₗ ℤ ×ₗ ℤ :=
  toLex (s.wall, match s.offset with
    | none => toLex (0, 0)
    | some o => if 0 ≤ o then toLex (1, o) else toLex (2, -o))

end IsoStamp

/-- A row of `currencies`. -/
structure CurrencyRate where
  code : Currency
  baseCode : Currency
  rate : ℚ
  timestamp : IsoStamp
  deriving DecidableEq

structure Transaction where
  timestamp : Timestamp
  type : TransactionType
  entityId : ℕ
  currency : Currency
  investmentTransactionCategory : Option InvestmentTransactionCategory := none
  incomeCategory : Option IncomeCategory := none
  portfolioAssetId : Option ℕ := none
  quantity : Option ℚ := none
  unitPrice : Option ℚ := none
  totalValue : Option ℚ := none
  grossAmount : Option ℚ := none
  netAmount : Option ℚ := none
  paymentCurrency : Option Currency := none
  fxRate : Option ℚ := none
  settlementDate : Option ℤ := none
  fiscalExemptionId : Option ℕ := none
  fiscalRule : Option String := none
  dividendType : Option DividendType := none
  recordDate : Option ℤ := none
  paymentDate : Option ℤ := none
  dividendCurrency : Option Currency := none
  dividendPaymentCurrency : Option Currency := none
  dividendFxRate : Option ℚ := none
  notes : Option String := none
  balanceSnapshotId : Option ℕ := none
  cashHandling : Option BalanceMode := none
  deriving DecidableEq

/-- A row of `balance_adjustment_links`. -/
structure Link where
  balanceAdjustmentId : ℕ
  linkedTransactionId : ℕ
  deriving DecidableEq

structure TransactionFee where
  transactionId : ℕ
  feeType : FeeType := .broker
  nature : FeeNature
  currency : Currency
  fixedAmount : ℚ := 0
  percentage : ℚ := 0
  brokerFeeDefinitionId : Option ℕ := none
  deriving DecidableEq

structure TransactionTax where
  transactionId : ℕ
  taxDefinitionId : ℕ
  taxAmount : Option ℚ
  currency : Currency
  taxRate : Option ℚ := none
  deriving DecidableEq

structure BalanceSnapshot where
  entityId : ℕ
  currency : Currency
  amount : ℚ
  timestamp : Timestamp
  notes : Option String := none
  deriving DecidableEq

structure Schedule where
  linkedTransactionId : Option ℕ := none
  deriving DecidableEq

/-! ## The database -/

structure Ledger where
  entities : Table Entity
  portfolioAssets : Table PortfolioAsset
  fiscalExemptions : Table FiscalExemption
  fiscalPeriods : List FiscalPeriod
  defaultFiscalRule : Option String
  timezone : TimeZone
  currencies : List CurrencyRate
  transactions : Table Transaction
  links : List Link
  fees : Table TransactionFee
  taxes : Table TransactionTax
  snapshots : Table BalanceSnapshot
  schedules : Table Schedule
  fees_lt : ∀ f ∈ fees.rows, f.2.transactionId < transactions.next
  taxes_lt : ∀ t ∈ taxes.rows, t.2.transactionId < transactions.next
  links_lt : ∀ l ∈ links,
    l.balanceAdjustmentId < transactions.next ∧ l.linkedTransactionId < transactions.next

namespace Ledger

/-- A profile without rows, in timezone `tz`. -/
def empty (tz : TimeZone) : Ledger where
  entities := .empty
  portfolioAssets := .empty
  fiscalExemptions := .empty
  fiscalPeriods := []
  defaultFiscalRule := none
  timezone := tz
  currencies := []
  transactions := .empty
  links := []
  fees := .empty
  taxes := .empty
  snapshots := .empty
  schedules := .empty
  fees_lt := by simp [Table.empty]
  taxes_lt := by simp [Table.empty]
  links_lt := by simp

/-! ## Writes -/

/-- `INSERT INTO transactions`. -/
@[simps] def insertTransaction (s : Ledger) (t : Transaction) : Ledger where
  __ := s
  transactions := s.transactions.insert t
  fees_lt f hf := Nat.lt_succ_of_lt (s.fees_lt f hf)
  taxes_lt f hf := Nat.lt_succ_of_lt (s.taxes_lt f hf)
  links_lt l hl := ⟨Nat.lt_succ_of_lt (s.links_lt l hl).1, Nat.lt_succ_of_lt (s.links_lt l hl).2⟩

/-- `UPDATE transactions SET .. WHERE id = ?`. -/
@[simps] def modifyTransaction (s : Ledger) (id : ℕ) (f : Transaction → Transaction) : Ledger where
  __ := s
  transactions := s.transactions.modify id f
  fees_lt := s.fees_lt
  taxes_lt := s.taxes_lt
  links_lt := s.links_lt

/-- `DELETE FROM transactions WHERE ..`. -/
@[simps] def removeTransactions (s : Ledger) (p : ℕ × Transaction → Bool) : Ledger where
  __ := s
  transactions := s.transactions.removeWhere p
  fees_lt := s.fees_lt
  taxes_lt := s.taxes_lt
  links_lt := s.links_lt

/-- `INSERT OR IGNORE INTO balance_adjustment_links`. The guard is `links_lt`: a link between ids
that were never handed out cannot be stored. -/
def linkAdjustmentToTransaction (s : Ledger) (adjustment_id transaction_id : ℕ) : Ledger :=
  if h : adjustment_id < s.transactions.next ∧ transaction_id < s.transactions.next then
    if ⟨adjustment_id, transaction_id⟩ ∈ s.links then s
    else
      { s with
        links := s.links ++ [⟨adjustment_id, transaction_id⟩]
        links_lt := by
          intro l hl
          rcases List.mem_append.mp hl with hl | hl
          · exact s.links_lt l hl
          · rw [List.mem_singleton.mp hl]; exact h }
  else s

@[simps] def removeLinks (s : Ledger) (p : Link → Bool) : Ledger where
  __ := s
  links := s.links.filter fun l => !p l
  links_lt l hl := s.links_lt l (List.mem_of_mem_filter hl)

@[simps] def insertFee (s : Ledger) (f : TransactionFee)
    (h : f.transactionId < s.transactions.next) : Ledger where
  __ := s
  fees := s.fees.insert f
  fees_lt g hg := by
    rcases Table.mem_insert.mp hg with hg | rfl
    · exact s.fees_lt g hg
    · exact h

@[simps] def modifyFee (s : Ledger) (id : ℕ) (f : TransactionFee)
    (h : f.transactionId < s.transactions.next) : Ledger where
  __ := s
  fees := s.fees.modify id fun _ => f
  fees_lt g hg := by
    obtain ⟨j, g⟩ := g
    rcases Table.mem_modify.mp hg with ⟨-, hg⟩ | ⟨-, -, -, rfl⟩
    · exact s.fees_lt _ hg
    · exact h

@[simps] def eraseFee (s : Ledger) (id : ℕ) : Ledger where
  __ := s
  fees := s.fees.erase id
  fees_lt g hg := s.fees_lt g (Table.mem_erase.mp hg).1

@[simps] def insertTax (s : Ledger) (t : TransactionTax)
    (h : t.transactionId < s.transactions.next) : Ledger where
  __ := s
  taxes := s.taxes.insert t
  taxes_lt g hg := by
    rcases Table.mem_insert.mp hg with hg | rfl
    · exact s.taxes_lt g hg
    · exact h

@[simps] def modifyTax (s : Ledger) (id : ℕ) (t : TransactionTax)
    (h : t.transactionId < s.transactions.next) : Ledger where
  __ := s
  taxes := s.taxes.modify id fun _ => t
  taxes_lt g hg := by
    obtain ⟨j, g⟩ := g
    rcases Table.mem_modify.mp hg with ⟨-, hg⟩ | ⟨-, -, -, rfl⟩
    · exact s.taxes_lt _ hg
    · exact h

@[simps] def eraseTax (s : Ledger) (id : ℕ) : Ledger where
  __ := s
  taxes := s.taxes.erase id
  taxes_lt g hg := s.taxes_lt g (Table.mem_erase.mp hg).1

/-- Any write to `balance_snapshots`. -/
@[simps] def setSnapshots (s : Ledger) (b : Table BalanceSnapshot) : Ledger where
  __ := s
  snapshots := b

@[simp] theorem linkAdjustmentToTransaction_transactions (s : Ledger) (a t : ℕ) :
    (s.linkAdjustmentToTransaction a t).transactions = s.transactions := by
  unfold linkAdjustmentToTransaction; split_ifs <;> rfl

end Ledger

namespace Sample

def usd : Currency := ⟨"USD", by decide⟩

def eur : Currency := ⟨"EUR", by decide⟩

end Sample

end FinHub
