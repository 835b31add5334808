import MiniNb.Workflow
import MiniNb.RunBalance
import MiniNb.StorageErrors
import MiniNb.StoredMap
import MiniNb.LeveldbBalance
import MiniNb.PutTraffic
import MiniNb.ReportSafety
import MiniNb.ReaderSafety
import MiniNb.ShuffleSafety
import MiniNb.ShuffleOrders
import MiniNb.SampleSummary
import MiniNb.PercentileAccuracy
import MiniNb.PercentileSafety
import MiniNb.PercentileRanks
import MiniNb.PrintedTable
import MiniNb.BarChart
import MiniNb.Campaigns
import MiniNb.DriverLives
import MiniNb.ValueBuffers
import MiniNb.ProgressReports
import MiniNb.CommandLine
import MiniNb.ShuffleOutcomes
import MiniNb.ExitStatus
import MiniNb.PercentileError
import MiniNb.RunReport
import MiniNb.ShuffleBias
import MiniNb.RunAgreement
import MiniNb.ReportReading
