import FinHub.Schedules.ScheduleSvc

/-!
# FinHub.Composites.CompositeSvc

The services that run several others as one request: `transaction_full_svc`,
`transaction_batch_svc` and `transfer_svc`. They hand their connection down, so that the services
they call leave the commit to them. `CompositeRequest` lists them beside the schedule services.
-/

namespace FinHub

open Calendar Tabular Db

/-! ## Bodies -/

structure TransactionFeeInner where
  brokerFeeDefinitionId : Option ℕ := none
  feeType : FeeType
  nature : FeeNature
  fixedAmount : ℚ := 0
  percentage : ℚ := 0
  currency : Currency

structure TransactionTaxInner where
  taxDefinitionId : ℕ
  taxRate : Option ℚ := none
  taxAmount : ℚ
  currency : Currency

structure FullTransactionCreate where
  transaction : TransactionCreate
  fees : List TransactionFeeInner := []
  taxes : List TransactionTaxInner := []

structure TransferCreate where
  fromEntityId : ℕ
  toEntityId : ℕ
  amount : ℚ
  currency : Currency
  timestamp : Timestamp
  notes : Option String := none
  fees : List TransactionFeeInner := []
  cashHandling : Option BalanceMode := none
  amount_pos : 0 < amount
  entities_ne : fromEntityId ≠ toEntityId

def TransactionFeeInner.toFee (f : TransactionFeeInner) (transaction_id : ℕ) : TransactionFee where
  transactionId := transaction_id
  feeType := f.feeType
  nature := f.nature
  currency := f.currency
  fixedAmount := f.fixedAmount
  percentage := f.percentage
  brokerFeeDefinitionId := f.brokerFeeDefinitionId

def TransactionTaxInner.toTax (t : TransactionTaxInner) (transaction_id : ℕ) : TransactionTax where
  transactionId := transaction_id
  taxDefinitionId := t.taxDefinitionId
  taxAmount := some t.taxAmount
  currency := t.currency
  taxRate := t.taxRate

structure FullTransactionResponse where
  transaction : TransactionResponse
  fees : List ℕ
  taxes : List ℕ

structure TransferResponse where
  fromTransaction : TransactionResponse
  toTransaction : TransactionResponse
  fees : List ℕ

namespace Ledger

/-- `queries.delete_fees_by_transaction`. -/
@[simps] def deleteFeesByTransaction (s : Ledger) (transaction_id : ℕ) : Ledger where
  __ := s
  fees := s.fees.removeWhere fun r => decide (r.2.transactionId = transaction_id)
  fees_lt f hf := s.fees_lt f (Table.mem_removeWhere.mp hf).1

/-- `queries.delete_taxes_by_transaction`. -/
@[simps] def deleteTaxesByTransaction (s : Ledger) (transaction_id : ℕ) : Ledger where
  __ := s
  taxes := s.taxes.removeWhere fun r => decide (r.2.transactionId = transaction_id)
  taxes_lt t ht := s.taxes_lt t (Table.mem_removeWhere.mp ht).1

end Ledger

/-! ## The services -/

section

variable (torn : Database → Database)

def createTransactionOn (body : TransactionCreate) : Work Database CallError TransactionResponse :=
  Database.onLedger torn fun l => l.createTransaction body

def createFeesOn (transaction_id : ℕ) (fees : List TransactionFeeInner) :
    Work Database CallError (List ℕ) :=
  fees.mapM fun f => Database.onLedger torn fun l => l.createFee (f.toFee transaction_id)

def createTaxesOn (transaction_id : ℕ) (taxes : List TransactionTaxInner) :
    Work Database CallError (List ℕ) :=
  taxes.mapM fun t => Database.onLedger torn fun l => l.createTax (t.toTax transaction_id)

namespace TransactionFullSvc

/-- `create` up to its commit. -/
def createBody (body : FullTransactionCreate) : Work Database CallError FullTransactionResponse := do
  let tx ← createTransactionOn torn body.transaction
  let fees ← createFeesOn torn tx.id body.fees
  let taxes ← createTaxesOn torn tx.id body.taxes
  pure ⟨tx, fees, taxes⟩

def create (body : FullTransactionCreate) : Work Database CallError FullTransactionResponse :=
  .orRollback do
    let r ← createBody torn body
    Work.commit
    pure r

/-- `update_full` up to its commit. -/
def updateBody (tx_id : ℕ) (body : FullTransactionCreate) :
    Work Database CallError FullTransactionResponse := do
  let tx ← Database.onLedger torn fun l => l.updateTransaction tx_id body.transaction
  Work.write fun d => ((), { d with ledger := d.ledger.deleteFeesByTransaction tx_id })
  Work.write fun d => ((), { d with ledger := d.ledger.deleteTaxesByTransaction tx_id })
  let fees ← createFeesOn torn tx.id body.fees
  let taxes ← createTaxesOn torn tx.id body.taxes
  Database.onLedger torn fun l => (l.reconcileAfterFeeChange tx.id).map fun l => ((), l)
  pure ⟨tx, fees, taxes⟩

def updateFull (tx_id : ℕ) (body : FullTransactionCreate) :
    Work Database CallError FullTransactionResponse :=
  .orRollback do
    let r ← updateBody torn tx_id body
    Work.commit
    pure r

end TransactionFullSvc

namespace TransactionBatchSvc

def create (bodies : List TransactionCreate) : Work Database CallError (List TransactionResponse) :=
  .orRollback do
    let transactions ← bodies.mapM (createTransactionOn torn)
    Work.commit
    pure transactions

end TransactionBatchSvc

namespace TransferSvc

/-- The first of the checks of a transfer that fails. -/
def fkError (l : Ledger) (body : TransferCreate) : Option CallError :=
  if (l.getEntity body.fromEntityId).isNone then some (.svc (.entityNotFound body.fromEntityId))
  else if (l.getEntity body.toEntityId).isNone then some (.svc (.entityNotFound body.toEntityId))
  else if !l.codeExists body.currency then some (.svc (.currencyNotFound body.currency))
  else none

def checkFks (body : TransferCreate) : Work Database CallError Unit := do
  match ← Work.read fun d => fkError d.ledger body with
  | some e => Work.raise e
  | none => pure ()

def outBody (body : TransferCreate) : TransactionCreate where
  timestamp := body.timestamp
  type := .transferOut
  entityId := body.fromEntityId
  currency := body.currency
  totalValue := some body.amount
  notes := body.notes
  cashHandling := body.cashHandling
  cashHandlingSent := true

def inBody (body : TransferCreate) : TransactionCreate where
  timestamp := body.timestamp
  type := .transferIn
  entityId := body.toEntityId
  currency := body.currency
  totalValue := some body.amount
  notes := body.notes

/-- `create` up to its commit. A fee of a transfer names no broker definition. -/
def createBody (body : TransferCreate) : Work Database CallError TransferResponse := do
  checkFks body
  let out_tx ← createTransactionOn torn (outBody body)
  let in_tx ← createTransactionOn torn (inBody body)
  let fees ← createFeesOn torn out_tx.id
    (body.fees.map fun f => { f with brokerFeeDefinitionId := none })
  pure ⟨out_tx, in_tx, fees⟩

def create (body : TransferCreate) : Work Database CallError TransferResponse :=
  .orRollback do
    let r ← createBody torn body
    Work.commit
    pure r

end TransferSvc

end

/-! ## The composite requests -/

inductive CompositeRequest where
  | fullCreate (body : FullTransactionCreate)
  | fullUpdate (tx_id : ℕ) (body : FullTransactionCreate)
  | batchCreate (bodies : List TransactionCreate)
  | transferCreate (body : TransferCreate)
  | scheduleCreate (body : ScheduleRow)
  | scheduleUpdate (schedule_id : ℕ) (body : ScheduleRow)
  | scheduleFullCreate (body : ScheduleRow)

namespace CompositeRequest

/-- The answer of a request. -/
def Response : CompositeRequest → Type
  | fullCreate _ | fullUpdate _ _ => FullTransactionResponse
  | batchCreate _ => List TransactionResponse
  | transferCreate _ => TransferResponse
  | scheduleCreate _ | scheduleUpdate _ _ => ScheduleResponse
  | scheduleFullCreate _ => ScheduleResponse × Option TransactionResponse

def call (server : Server) : (req : CompositeRequest) → Work Database CallError req.Response
  | fullCreate body => TransactionFullSvc.create server.torn body
  | fullUpdate tx_id body => TransactionFullSvc.updateFull server.torn tx_id body
  | batchCreate bodies => TransactionBatchSvc.create server.torn bodies
  | transferCreate body => TransferSvc.create server.torn body
  | scheduleCreate body => ScheduleSvc.create server body
  | scheduleUpdate schedule_id body => ScheduleSvc.update server schedule_id body
  | scheduleFullCreate body => ScheduleFullSvc.create server body

end CompositeRequest

end FinHub
