import Endure.Library.Dict
import Endure.Library.Levelling
import Endure.Library.Memo
import Endure.Scoring.Weights
import Endure.Library.Checked
import Endure.Library.Fading
import Endure.Library.Interference
import Endure.Library.Rounding
import Endure.Library.Transitions
import Endure.Protocol.Acknowledgements
import Endure.Protocol.MinerRuns
import Endure.Scoring.Copying
import Endure.Scoring.EmissionEncoding
import Endure.Scoring.EmissionRecheck
import Endure.Scoring.SkippedReveals
import Endure.Emission.LedgerRuns
import Endure.Emission.SingleFlight
import Endure.Emission.RevealScanRuns
import Endure.Emission.Deadlines
import Endure.Scoring.MarketSampling
import Endure.Scoring.MarketSeriesRuns
import Endure.Scoring.ScoreShape
import Endure.Scoring.Observables
import Endure.Scoring.GroupedRounding
import Endure.Scoring.PoolShares
import Endure.Scoring.PoolVotes
import Endure.Scoring.PoolWindows
import Endure.Aggregation.AssessmentConsensus
import Endure.Emission.ChainSteps
import Endure.Base.MessageLimiter
import Endure.Base.RateGate
import Endure.Protocol.RoundLifecycle
import Endure.Protocol.RoundSchedule
import Endure.Scoring.Eligibility
import Endure.Scoring.WeightCap
import Endure.Scoring.BlockMeans
import Endure.Scoring.RetiredMemory
import Endure.Protocol.Timestamps
import Endure.Publication.EmbargoRuns
import Endure.Publication.TierSelection
import Endure.Protocol.ScoredBundles
