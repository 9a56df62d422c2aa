import FinHub.Analytics.Holdings
import FinHub.Reconcile.ReferenceData

/-!
# FinHub.Recording.BookCalls

The calls that write the books of a profile, and those that create, edit and delete what its rows name: entities, assets
and exemptions.

The database does not enforce the references of the rows. What is deleted is looked for among the rows first.
-/

namespace FinHub

open Tabular

/-! ## The calls -/

structure PortfolioAssetCreate extends PortfolioAsset where
  effectiveDate : Option ℤ := none
  deriving DecidableEq

inductive BookError where
  | ledger (e : SvcError)
  | reference (e : ReferenceError)
  | entityHasDependents (entity_id : ℕ)
  | marketAssetNotFound (market_code : String)
  | portfolioAssetNotFound (asset_id : ℕ)
  | portfolioAssetHasDependents (asset_id : ℕ)
  | fiscalExemptionNotFound (exemption_id : ℕ)
  | fiscalExemptionHasDependents (exemption_id : ℕ)
  | manualValueNotFound
  deriving DecidableEq

def BookError.message : BookError → String
  | ledger e => e.message
  | reference e => e.message
  | entityHasDependents entity_id => s!"Entity {entity_id} has transactions or balance snapshots referencing it"
  | marketAssetNotFound market_code =>
    s!"Market asset '{market_code}' not found. Register it first via POST /market-assets"
  | portfolioAssetNotFound asset_id => s!"Portfolio asset {asset_id} not found"
  | portfolioAssetHasDependents asset_id => s!"Portfolio asset {asset_id} has transactions referencing it"
  | fiscalExemptionNotFound exemption_id => s!"Fiscal exemption {exemption_id} not found"
  | fiscalExemptionHasDependents exemption_id => s!"Fiscal exemption {exemption_id} has transactions referencing it"
  | manualValueNotFound => "Manual value not found"

/-- The ledger of a profile with its rows of `manual_values`. -/
structure ProfileBooks where
  ledger : Ledger
  manualValues : Table ManualValue

namespace Ledger

variable (s : Ledger)

@[simps] def setPortfolioAssets (assets : Table PortfolioAsset) : Ledger where
  __ := s
  portfolioAssets := assets

@[simps] def setFiscalExemptions (exemptions : Table FiscalExemption) : Ledger where
  __ := s
  fiscalExemptions := exemptions

def entityHasDependents (entity_id : ℕ) : Bool :=
  s.transactions.rows.any (fun r => r.2.entityId == entity_id) ||
    s.snapshots.rows.any fun r => r.2.entityId == entity_id

def portfolioAssetHasDependents (asset_id : ℕ) : Bool :=
  s.transactions.rows.any fun r => r.2.portfolioAssetId == some asset_id

def fiscalExemptionHasDependents (exemption_id : ℕ) : Bool :=
  s.transactions.rows.any fun r => r.2.fiscalExemptionId == some exemption_id

/-- `entity_svc.create`. -/
def createEntity (body : EntityCreate) : Except BookError Ledger :=
  if s.entityExists body.name body.entityType then
    .error (.reference (.entityAlreadyExists body.name body.entityType))
  else .ok <| s.setEntities <| s.entities.insert
    { name := body.name
      entityType := body.entityType
      mainCurrency := body.mainCurrency
      country := body.country
      description := body.description }

/-- `entity_svc.delete`. The row stays, with the time of its deletion. -/
def deleteEntity (entity_id : ℕ) (now : Timestamp) : Except BookError Ledger :=
  match s.getEntity entity_id with
  | none => .error (.reference (.entityNotFound entity_id))
  | some _ =>
    if s.entityHasDependents entity_id then .error (.entityHasDependents entity_id)
    else .ok <| s.setEntities <| s.entities.modify entity_id fun e => { e with deletedAt := some now }

/-- `fiscal_exemption_svc.create`. -/
def createFiscalExemption (body : FiscalExemption) : Ledger :=
  s.setFiscalExemptions (s.fiscalExemptions.insert body)

/-- `fiscal_exemption_svc.update`. -/
def updateFiscalExemption (exemption_id : ℕ) (body : FiscalExemption) : Except BookError Ledger :=
  match s.getFiscalExemption exemption_id with
  | none => .error (.fiscalExemptionNotFound exemption_id)
  | some _ => .ok <| s.setFiscalExemptions <| s.fiscalExemptions.modify exemption_id fun _ => body

/-- `fiscal_exemption_svc.delete`. -/
def deleteFiscalExemption (exemption_id : ℕ) : Except BookError Ledger :=
  match s.getFiscalExemption exemption_id with
  | none => .error (.fiscalExemptionNotFound exemption_id)
  | some _ =>
    if s.fiscalExemptionHasDependents exemption_id then .error (.fiscalExemptionHasDependents exemption_id)
    else .ok <| s.setFiscalExemptions <| s.fiscalExemptions.erase exemption_id

end Ledger

namespace ProfileBooks

variable (m : Market) (b : ProfileBooks)

def empty (tz : TimeZone) : ProfileBooks := ⟨.empty tz, .empty⟩

/-- `upsert_manual_value`. -/
def upsertManualValue (asset_id : ℕ) (value : ℚ) (effective_date : ℤ) : ProfileBooks where
  ledger := b.ledger
  manualValues :=
    match b.manualValues.rows.find? fun r =>
        decide (r.2.portfolioAssetId = asset_id) && decide (r.2.effectiveDate = effective_date) with
    | some r => b.manualValues.modify r.1 fun v => { v with value := value }
    | none => b.manualValues.insert ⟨asset_id, value, effective_date⟩

/-- `_sync_manual_value_ledger`. -/
def syncManualValueLedger (body : PortfolioAssetCreate) (asset_id : ℕ) (today : ℤ) : ProfileBooks :=
  if body.trackingMode ≠ .manual then b
  else
    match body.currentValueManual with
    | none => b
    | some value => b.upsertManualValue asset_id value (body.effectiveDate.getD today)

def setPortfolioAssets (assets : Table PortfolioAsset) : ProfileBooks :=
  { b with ledger := b.ledger.setPortfolioAssets assets }

/-- `portfolio_asset_svc.create`. -/
def createPortfolioAsset (body : PortfolioAssetCreate) (today : ℤ) : Except BookError ProfileBooks :=
  if (m.getAsset body.marketCode).isNone then .error (.marketAssetNotFound body.marketCode)
  else
    let b' := b.setPortfolioAssets (b.ledger.portfolioAssets.insert body.toPortfolioAsset)
    .ok (b'.syncManualValueLedger body b.ledger.portfolioAssets.next today)

/-- `portfolio_asset_svc.update`. -/
def updatePortfolioAsset (asset_id : ℕ) (body : PortfolioAssetCreate) (today : ℤ) : Except BookError ProfileBooks :=
  match b.ledger.getPortfolioAsset asset_id with
  | none => .error (.portfolioAssetNotFound asset_id)
  | some _ =>
    if (m.getAsset body.marketCode).isNone then .error (.marketAssetNotFound body.marketCode)
    else
      let b' := b.setPortfolioAssets (b.ledger.portfolioAssets.modify asset_id fun _ => body.toPortfolioAsset)
      .ok (b'.syncManualValueLedger body asset_id today)

/-- `portfolio_asset_svc.delete`. The manual values of the asset stay. -/
def deletePortfolioAsset (asset_id : ℕ) : Except BookError ProfileBooks :=
  match b.ledger.getPortfolioAsset asset_id with
  | none => .error (.portfolioAssetNotFound asset_id)
  | some _ =>
    if b.ledger.portfolioAssetHasDependents asset_id then .error (.portfolioAssetHasDependents asset_id)
    else .ok (b.setPortfolioAssets (b.ledger.portfolioAssets.erase asset_id))

def createManualValue (asset_id : ℕ) (value : ℚ) (effective_date : ℤ) : Except BookError ProfileBooks :=
  match b.ledger.getPortfolioAsset asset_id with
  | none => .error (.portfolioAssetNotFound asset_id)
  | some _ => .ok (b.upsertManualValue asset_id value effective_date)

def deleteManualValue (asset_id value_id : ℕ) : Except BookError ProfileBooks :=
  if b.manualValues.rows.any fun r => decide (r.1 = value_id) && decide (r.2.portfolioAssetId = asset_id) then
    .ok { b with manualValues := b.manualValues.erase value_id }
  else .error .manualValueNotFound

end ProfileBooks

/-- A call that writes rows of a profile or what they name. -/
inductive BookCall where
  | ledger (call : LedgerCall)
  | reference (call : ReferenceCall)
  | createEntity (body : EntityCreate)
  | deleteEntity (entity_id : ℕ) (now : Timestamp)
  | createPortfolioAsset (body : PortfolioAssetCreate) (today : ℤ)
  | updatePortfolioAsset (asset_id : ℕ) (body : PortfolioAssetCreate) (today : ℤ)
  | deletePortfolioAsset (asset_id : ℕ)
  | createManualValue (asset_id : ℕ) (value : ℚ) (effective_date : ℤ)
  | deleteManualValue (asset_id value_id : ℕ)
  | createFiscalExemption (body : FiscalExemption)
  | updateFiscalExemption (exemption_id : ℕ) (body : FiscalExemption)
  | deleteFiscalExemption (exemption_id : ℕ)

namespace ProfileBooks

/-- A call on the ledger alone. -/
def onLedger (b : ProfileBooks) (r : Except BookError Ledger) : Except BookError ProfileBooks :=
  r.map fun s => { b with ledger := s }

def call (m : Market) (b : ProfileBooks) : BookCall → Except BookError ProfileBooks
  | .ledger call => b.onLedger ((b.ledger.call call).mapError .ledger)
  | .reference call => b.onLedger ((b.ledger.referenceCall call).mapError .reference)
  | .createEntity body => b.onLedger (b.ledger.createEntity body)
  | .deleteEntity entity_id now => b.onLedger (b.ledger.deleteEntity entity_id now)
  | .createPortfolioAsset body today => b.createPortfolioAsset m body today
  | .updatePortfolioAsset asset_id body today => b.updatePortfolioAsset m asset_id body today
  | .deletePortfolioAsset asset_id => b.deletePortfolioAsset asset_id
  | .createManualValue asset_id value effective_date => b.createManualValue asset_id value effective_date
  | .deleteManualValue asset_id value_id => b.deleteManualValue asset_id value_id
  | .createFiscalExemption body => b.onLedger (.ok (b.ledger.createFiscalExemption body))
  | .updateFiscalExemption exemption_id body => b.onLedger (b.ledger.updateFiscalExemption exemption_id body)
  | .deleteFiscalExemption exemption_id => b.onLedger (b.ledger.deleteFiscalExemption exemption_id)

/-- The books after a call. One that raises leaves them. -/
def after (m : Market) (b : ProfileBooks) (c : BookCall) : ProfileBooks :=
  match b.call m c with
  | .ok b' => b'
  | .error _ => b

def runs (m : Market) (b : ProfileBooks) (calls : List BookCall) : ProfileBooks := calls.foldl (after m) b

end ProfileBooks

end FinHub
