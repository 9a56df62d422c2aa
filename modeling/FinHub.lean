import FinHub.Lib.Table
import FinHub.Lib.Checkpoint
import FinHub.Lib.Decimal
import FinHub.Model.Time
import FinHub.Model.Ledger
import FinHub.Model.Queries
import FinHub.Model.TransactionSvc
import FinHub.Model.LedgerSvc
import FinHub.Lib.Runs
import FinHub.Balance.Value
import FinHub.Balance.FastPath
import FinHub.Balance.Charges
import FinHub.Balance.ChargeMoves
import FinHub.Lib.LotLine
import FinHub.Analytics.Fifo
import FinHub.Analytics.Holdings
import FinHub.Analytics.OpenLots
import FinHub.Recording.Passes
import FinHub.Recording.Attachment
import FinHub.Recording.AttachmentRuns
import FinHub.Balance.Frame
import FinHub.Reconcile.Settled
import FinHub.Reconcile.Recording
import FinHub.Reconcile.FeeChanges
import FinHub.Reconcile.Snapshots
import FinHub.Reconcile.SnapshotRuns
import FinHub.Reconcile.Undo
import FinHub.Rates.CurrencySvc
import FinHub.Lib.Tally
import FinHub.Lib.Walk
import FinHub.Tax.Engine
import FinHub.Tax.Brackets
import FinHub.Tax.FiscalYear
import FinHub.Tax.Confirmed
import FinHub.Lib.Calendar
import FinHub.Schedules.FireDates
import FinHub.Schedules.Calendars
import FinHub.Schedules.Materialize
import FinHub.Schedules.ScheduleSvc
import FinHub.Composites.CompositeSvc
import FinHub.Composites.Atomicity
import FinHub.Schedules.ExactlyOnce
import FinHub.Schedules.Materialized
import FinHub.Schedules.Startup
import FinHub.Schedules.InitScheduler
import FinHub.Lib.Folder
import FinHub.Lib.Session
import FinHub.Backups.BackupSvc
import FinHub.Backups.PreMigration
import FinHub.Lib.Upgrade
import FinHub.Migrations.Store
import FinHub.Migrations.Versions
import FinHub.Migrations.Effects
import FinHub.Migrations.Lawful
import FinHub.Migrations.Boot
import FinHub.Lib.Ranges
import FinHub.Fiscal.Periods
import FinHub.Zones.DateRange
import FinHub.Zones.Occurrences
import FinHub.Analytics.PnlRules
import FinHub.Profiles.Store
import FinHub.Rates.Provider
import FinHub.Profiles.Deletes
import FinHub.Tax.TaxablePnl
import FinHub.Tax.ReportAgreement
import FinHub.Tax.ReportItems
import FinHub.Fiscal.RuleOfDate
import FinHub.Fiscal.Frozen
import FinHub.Lib.Worth
import FinHub.Analytics.CashViews
import FinHub.Analytics.HistoricalValues
import FinHub.Analytics.Additions
import FinHub.Analytics.Lookahead
import FinHub.Profiles.Views
import FinHub.Profiles.Reads
import FinHub.Analytics.Performance
import FinHub.Analytics.ValueChart
import FinHub.Profiles.Interference
import FinHub.Lib.Trace
import FinHub.MarketApi.CircuitBreaker
import FinHub.MarketApi.Requests
import FinHub.Lib.Streak
import FinHub.MarketCycle.Engine
import FinHub.MarketCycle.Replay
import FinHub.MarketCycle.StateSignals
import FinHub.Lib.WhileLoop
import FinHub.Balance.OwnRates
import FinHub.Balance.Readable
import FinHub.Composites.ReadableRequests
import FinHub.Composites.ReadableRuns
import FinHub.Rates.History
import FinHub.Reconcile.ReferenceData
import FinHub.Reconcile.FeePass
import FinHub.Reconcile.SpendFunded
import FinHub.Reconcile.Resave
import FinHub.Rates.Metadata
import FinHub.Rates.BusinessDays
import FinHub.Rates.HistoryWindows
import FinHub.Analytics.DateGrids
import FinHub.Analytics.ProjectedIncome
import FinHub.Analytics.Stepping
import FinHub.Analytics.ProjectedDates
import FinHub.Lib.Groups
import FinHub.Analytics.ProjectedAmounts
import FinHub.Analytics.CashFlow
import FinHub.Analytics.CashFlowLines
import FinHub.Analytics.IncomeViews
import FinHub.Analytics.DrillDown
import FinHub.Analytics.EntityShares
import FinHub.Analytics.EntityValues
import FinHub.Analytics.EntityHoldings
import FinHub.Analytics.HoldingsAgree
import FinHub.Recording.CashPolicy
import FinHub.Analytics.CausalSales
import FinHub.Tax.Exemption
import FinHub.Lib.StepSeries
import FinHub.MarketCycle.MonthlySeries
import FinHub.MarketCycle.Derivation
import FinHub.Profiles.ChartPoints
import FinHub.Lib.KeepFirst
import FinHub.Profiles.ChartTwice
import FinHub.Lib.RunningFloor
import FinHub.Reconcile.DayInjection
import FinHub.Lib.Backfill
import FinHub.Migrations.Consolidated
import FinHub.Migrations.Resume
import FinHub.Lib.Renumber
import FinHub.Migrations.Crash
import FinHub.Migrations.Renumbered
import FinHub.Migrations.Restart
import FinHub.MarketApi.PriceSync
import FinHub.Lib.TopUp
import FinHub.Reconcile.DayOrder
import FinHub.Analytics.CashReports
import FinHub.Analytics.CashAgreement
import FinHub.Macro.MacroSync
import FinHub.Lib.Registry
import FinHub.Macro.WorldKpi
import FinHub.Macro.DerivedKpi
import FinHub.Lib.Past
import FinHub.MarketCycle.Scopes
import FinHub.MarketCycle.Causal
import FinHub.MarketCycle.History
import FinHub.Analytics.Allocation
import FinHub.Analytics.Dashboard
import FinHub.Analytics.OpenBuys
import FinHub.Macro.ChangePoints
import FinHub.Lib.Base64
import FinHub.Lib.Texts
import FinHub.Profiles.Passwords
import FinHub.Profiles.ProfileSvc
import FinHub.Lib.Children
import FinHub.Tax.CatalogSvc
import FinHub.Tax.Catalog
import FinHub.Tax.CatalogRuns
import FinHub.Recording.BookCalls
import FinHub.Recording.References
import FinHub.Recording.BookRuns
import FinHub.Lib.Spans
import FinHub.Lib.AsOf
import FinHub.Lib.AverageCost
import FinHub.Profiles.SplitPeriods
import FinHub.Profiles.PriceChart
import FinHub.Lib.TimedCache
import FinHub.Updates.UpdateSvc
