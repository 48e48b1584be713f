import Pulseon.AdmissionSound
import Pulseon.Aggregates
import Pulseon.AggregatesSound
import Pulseon.AlignedWindow
import Pulseon.Alignment
import Pulseon.AlignmentSound
import Pulseon.Brush
import Pulseon.BrushClamps
import Pulseon.BrushHeld
import Pulseon.BrushSound
import Pulseon.BudgetSound
import Pulseon.ChannelSound
import Pulseon.Charting
import Pulseon.ChartingSound
import Pulseon.ClientSteps
import Pulseon.Comparison
import Pulseon.ComparisonSound
import Pulseon.Config
import Pulseon.ConfigSound
import Pulseon.ConnectionSound
import Pulseon.CoverageSound
import Pulseon.CreationSound
import Pulseon.Curves
import Pulseon.CurvesSound
import Pulseon.Desktop
import Pulseon.DesktopMoves
import Pulseon.DesktopSound
import Pulseon.DoubleArith
import Pulseon.DoubleRatios
import Pulseon.Doubles
import Pulseon.DrainSound
import Pulseon.Durations
import Pulseon.EffectiveSound
import Pulseon.EncodingSound
import Pulseon.EventChannel
import Pulseon.Evidence
import Pulseon.EvidenceSound
import Pulseon.FinalizeSound
import Pulseon.FloatGrid
import Pulseon.FramesSound
import Pulseon.HistorySound
import Pulseon.HitTestSound
import Pulseon.InertSound
import Pulseon.Interrupt
import Pulseon.InterruptSound
import Pulseon.LatchSound
import Pulseon.LockSound
import Pulseon.LttbSound
import Pulseon.Model
import Pulseon.PanicSound
import Pulseon.Paths
import Pulseon.PendingSound
import Pulseon.Percent
import Pulseon.Points
import Pulseon.ProjectSound
import Pulseon.ProjectionSound
import Pulseon.Queries
import Pulseon.QuerySound
import Pulseon.RangeSound
import Pulseon.RankRunsSound
import Pulseon.Ranking
import Pulseon.RankingSound
import Pulseon.ReadWorker
import Pulseon.ReadWorkerSound
import Pulseon.RecoverySound
import Pulseon.ReductionSound
import Pulseon.RegistrySound
import Pulseon.Renderer
import Pulseon.Reporter
import Pulseon.ReporterSound
import Pulseon.ResumeSound
import Pulseon.RetrySound
import Pulseon.Rounding
import Pulseon.RunListSound
import Pulseon.RunProtocol
import Pulseon.RunReports
import Pulseon.Scales
import Pulseon.ScalesSound
import Pulseon.Schema
import Pulseon.SchemaSound
import Pulseon.ScreenSound
import Pulseon.Searching
import Pulseon.Selection
import Pulseon.SequenceSound
import Pulseon.Sessions
import Pulseon.ShutdownSound
import Pulseon.Singles
import Pulseon.SinglesSound
import Pulseon.Source
import Pulseon.SourceSound
import Pulseon.SqlLexer
import Pulseon.Statements
import Pulseon.StatementsSound
import Pulseon.StatusSound
import Pulseon.Steps
import Pulseon.Teardown
import Pulseon.TeardownSound
import Pulseon.Timeouts
import Pulseon.Viewer
import Pulseon.ViewerSound
import Pulseon.Window
import Pulseon.World
import Pulseon.WorldSound
