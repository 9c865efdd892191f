import LlamaTrade.PythonText
import LlamaTrade.DecimalNumber
import LlamaTrade.DecimalText
import LlamaTrade.Arithmetic
import LlamaTrade.JsonValue
import LlamaTrade.LedgerPostings
import LlamaTrade.LedgerProjection
import LlamaTrade.LotSelection
import LlamaTrade.CheckpointCodec
import LlamaTrade.RestartEquivalence
import LlamaTrade.SafetyWindow
import LlamaTrade.SettledCheckpoints
import LlamaTrade.LedgerPlanners
import LlamaTrade.ExactPositions
import LlamaTrade.LotsAgree
import LlamaTrade.AdmissibleStreams
import LlamaTrade.LedgerStore
import LlamaTrade.FillMessages
import LlamaTrade.FillIngestion
import LlamaTrade.WriterSpec
import LlamaTrade.RedeliveredMessages
import LlamaTrade.OrdinaryErrors
import LlamaTrade.PoisonMessages
import LlamaTrade.Conservation
import LlamaTrade.EnrichedSells
import LlamaTrade.DecimalQuantize
import LlamaTrade.FundPlanners
import LlamaTrade.AccountServices
import LlamaTrade.DriftPolicy
import LlamaTrade.AccountRuns
import LlamaTrade.ClosedSleeves
import LlamaTrade.UntouchedSleeves
import LlamaTrade.EmptiedSleeves
import LlamaTrade.EmptyClosedSleeves
import LlamaTrade.CashMoves
import LlamaTrade.CapitalTransactions
import LlamaTrade.ConcurrentCapital
import LlamaTrade.CapitalRaces
import LlamaTrade.RepeatedActions
import LlamaTrade.KeptSleeves
import LlamaTrade.RetriedFunds
import LlamaTrade.SkippedEvents
import LlamaTrade.PoisonLots
import LlamaTrade.ReservationLifecycle
import LlamaTrade.FillPublishing
import LlamaTrade.FillAttribution
import LlamaTrade.OrderExecutor
import LlamaTrade.ExecutorSteps
import LlamaTrade.SubmittedOnce
import LlamaTrade.ExecutorFacts
import LlamaTrade.RejectedOrders
import LlamaTrade.BarFeeds
import LlamaTrade.LiveLoops
import LlamaTrade.LiveHistory
import LlamaTrade.IndicatorLibrary
import LlamaTrade.CompiledStrategy
import LlamaTrade.FullAllocations
import LlamaTrade.ValidatedStrategies
import LlamaTrade.WindowedIndicators
import LlamaTrade.HistoryWindows
import LlamaTrade.WindowedAllocations
import LlamaTrade.LiveSessions
import LlamaTrade.SleeveSessions
import LlamaTrade.SessionLeases
import LlamaTrade.RunningSessions
import LlamaTrade.RestartedRunners
import LlamaTrade.FilledParents
import LlamaTrade.StoppedExecutions
import LlamaTrade.ExecutionSleeves
import LlamaTrade.FundedExecutions
import LlamaTrade.StrandedSleeves
import LlamaTrade.EntityTails
import LlamaTrade.DeadLetterReplay
import LlamaTrade.BarReads
import LlamaTrade.StrategyTokens
import LlamaTrade.StrategyParser
import LlamaTrade.StrategyGrammar
import LlamaTrade.AcceptedStrategies
import LlamaTrade.StrategyPrinter
import LlamaTrade.PrintedNumbers
import LlamaTrade.StrategyLeaves
import LlamaTrade.PrintedStrategies
import LlamaTrade.RereadStrategies
import LlamaTrade.PrintedNesting
import LlamaTrade.ReadLeaves
import LlamaTrade.RoundTrips
import LlamaTrade.ArchivedStrategies
import LlamaTrade.AuthSessions
import LlamaTrade.RefreshRotation
import LlamaTrade.PasswordChanges
import LlamaTrade.BacktestRuns
import LlamaTrade.AccountOnboarding
import LlamaTrade.SeededAccounts
import LlamaTrade.OrderedReplay
import LlamaTrade.Subscriptions
import LlamaTrade.WebhookOrder
import LlamaTrade.LiveSubscriptions
import LlamaTrade.NotificationDeliveries
import LlamaTrade.DatasetSnapshots
import LlamaTrade.PreparedDatasets
import LlamaTrade.BacktestBook
import LlamaTrade.CalendarDates
import LlamaTrade.RebalanceClock
import LlamaTrade.OrderSizing
import LlamaTrade.DeliveredFills
import LlamaTrade.RealizedPnl
import LlamaTrade.MissingOperands
import LlamaTrade.IndicatorKeys
import LlamaTrade.StrategyJson
import LlamaTrade.DefinedSeries
import LlamaTrade.WarmUp
import LlamaTrade.HeldShares
import LlamaTrade.BarIngestion
import LlamaTrade.RateLimits
import LlamaTrade.SleeveSignals
import LlamaTrade.MarketCalendar
import LlamaTrade.WarmupWindows
import LlamaTrade.TradingHours
import LlamaTrade.EventAlerts
import LlamaTrade.PaymentMethods
import LlamaTrade.StreamSubscriptions
import LlamaTrade.TradingBreaker
import LlamaTrade.ProgressStreams
import LlamaTrade.ToolApprovals
import LlamaTrade.ScaledHoldings
import LlamaTrade.AccountSummary
import LlamaTrade.FifoLots
import LlamaTrade.TimeIntervals
import LlamaTrade.ThinkingText
import LlamaTrade.TokenKinds
import LlamaTrade.AlertCooldowns
import LlamaTrade.BuilderTrees
import LlamaTrade.BuilderEdits
import LlamaTrade.ReconciledTrees
import LlamaTrade.ParsedTrees
import LlamaTrade.BuilderStore
import LlamaTrade.BuilderHistories
import LlamaTrade.ClosedHoldings
import LlamaTrade.AccountStatements
import LlamaTrade.AdjoiningStatements
import LlamaTrade.AffordablePlans
import LlamaTrade.DividendShares
import LlamaTrade.EquitySnapshots
import LlamaTrade.RaisedCash
import LlamaTrade.LastOfRuns
import LlamaTrade.OnboardedBooks
import LlamaTrade.RunMetrics
import LlamaTrade.NettedOrders
import LlamaTrade.ValidatedBars
import LlamaTrade.CleanEditors
import LlamaTrade.EscapingErrors
