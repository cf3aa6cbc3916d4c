import Cocos.Acceptance
import Cocos.AllOrNothing
import Cocos.AppendOnly
import Cocos.Cancels
import Cocos.Idempotency
import Cocos.Lib.Double
import Cocos.MoneyCodec
import Cocos.Overspend
import Cocos.PortfolioLedger
import Cocos.PositionRange
import Cocos.Separation
import Cocos.Tools.Anomalies
import Cocos.Tools.AttemptsLog
import Cocos.Tools.Chaos
import Cocos.Tools.ChaosTags
import Cocos.Tools.Conservation
import Cocos.Tools.Drift
import Cocos.Tools.Firing
import Cocos.Tools.Folds
import Cocos.Tools.LedgerBooks
import Cocos.Tools.LoopTimer
import Cocos.Tools.LostOrders
import Cocos.Tools.Overdrafts
import Cocos.Tools.Oversells
import Cocos.Tools.OwnLedger
import Cocos.Tools.Plans
import Cocos.Tools.Predictions
import Cocos.Tools.Profiles
import Cocos.Tools.QuietMark
import Cocos.Tools.Reseeding
import Cocos.Tools.Resting
import Cocos.Tools.RunCounters
import Cocos.Tools.RunFiles
import Cocos.Tools.RunWindow
import Cocos.Tools.Sweeps
import Cocos.Tools.Traces
import Cocos.Tools.Waves
import Cocos.Lib.Counts
import Cocos.Lib.Quantile
import Cocos.Tools.Stats
import Cocos.Lib.Bounded
import Cocos.Progress
import Cocos.Tools.Sends
import Cocos.Tools.GatewayBooks
import Cocos.Tools.Restraint
import Cocos.Tools.LoadChecks
import Cocos.Tools.LoadService
import Cocos.Tools.LoadRuns
import Cocos.Tools.LoadEnds
import Cocos.Lib.Fanout
import Cocos.Tools.FailingDisk
import Cocos.Tools.Polling
import Cocos.Lib.Records
import Cocos.Tools.Instants
import Cocos.Tools.RunIds
import Cocos.Tools.OwnAnswers
import Cocos.Tools.OwnVerdicts
import Cocos.Lib.Draws
import Cocos.Tools.Composed
import Cocos.Conserved
import Cocos.Tools.ApiTarget
