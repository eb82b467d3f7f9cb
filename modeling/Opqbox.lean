import Opqbox.Runs
import Opqbox.FairRuns
import Opqbox.Windows
import Opqbox.SortedMap
import Opqbox.Stages
import Opqbox.Threads
import Opqbox.SyncQueue
import Opqbox.Driver
import Opqbox.DriverRing
import Opqbox.DriverErrors
import Opqbox.KernelModule
import Opqbox.Messages
import Opqbox.Scraper
import Opqbox.RangeQuery
import Opqbox.Text
import Opqbox.PySettings
import Opqbox.Settings
import Opqbox.SettingsFile
import Opqbox.SharedSettings
import Opqbox.SettingsHistory
import Opqbox.Observers
import Opqbox.Handles
import Opqbox.ReaderLifetime
import Opqbox.Listener
import Opqbox.Fir
import Opqbox.Crossings
import Opqbox.Filters
import Opqbox.FilterIndex
import Opqbox.Layout
import Opqbox.OpqData
import Opqbox.Analysis
import Opqbox.Frequency
import Opqbox.FilterMemory
import Opqbox.Warmup
import Opqbox.RedisWriter
import Opqbox.Retrieval
import Opqbox.Expiry
import Opqbox.Retention
import Opqbox.RoundTrip
import Opqbox.ConcurrentRange
import Opqbox.Pipeline
import Opqbox.Shutdown
import Opqbox.Delivery
import Opqbox.Measurements
import Opqbox.ShutdownCompletes
import Opqbox.QueuedDaemon
import Opqbox.DataMessages
import Opqbox.EndToEnd
import Opqbox.TriggerMessages
import Opqbox.Firmware
import Opqbox.FrameRing
import Opqbox.GpsMarks
import Opqbox.Handshake
import Opqbox.HandshakeStuck
import Opqbox.HandshakeStream
import Opqbox.FrameFormat
import Opqbox.SampleStream
import Opqbox.ConverterToClient
