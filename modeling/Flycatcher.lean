import Flycatcher.Library.Runs
import Flycatcher.CsvRow
import Flycatcher.CsvIterator
import Flycatcher.CsvRoundTrip
import Flycatcher.TransformerChain
import Flycatcher.RowIsolation
import Flycatcher.Datums
import Flycatcher.Publish
import Flycatcher.PublishFrames
import Flycatcher.PublishAtomicity
import Flycatcher.Library.Directories
import Flycatcher.FileNames
import Flycatcher.Polling
import Flycatcher.Arrivals
import Flycatcher.Handle
import Flycatcher.HandleRenames
import Flycatcher.HandleOnce
import Flycatcher.HandleRecovery
import Flycatcher.HandOver
import Flycatcher.CsvBounds
import Flycatcher.PublishDelivery
import Flycatcher.SchemaAssembly
import Flycatcher.SchemaIds
import Flycatcher.Library.StopFlags
import Flycatcher.Workers
import Flycatcher.RejectedConfig
import Flycatcher.LogProcessor
import Flycatcher.LogDelivery
import Flycatcher.ProcessorBuilder
import Flycatcher.PollersAgree
import Flycatcher.AgeFilter
import Flycatcher.WorkerPool
import Flycatcher.CsvGrammar
import Flycatcher.IntegerCells
import Flycatcher.PolledEntries
import Flycatcher.Serialization
import Flycatcher.EventBuffer
import Flycatcher.Library.Reorderings
import Flycatcher.TransformOrder
import Flycatcher.HandleCall
import Flycatcher.ActiveProcessors
import Flycatcher.HandleRows
import Flycatcher.CallsHandled
import Flycatcher.Library.Monitors
import Flycatcher.QueueMonitor
import Flycatcher.LogWait
import Flycatcher.Shutdown
import Flycatcher.Pipeline
import Flycatcher.FileStream
import Flycatcher.Consumer
import Flycatcher.Configuration
import Flycatcher.Startup
import Flycatcher.ComesToRest
import Flycatcher.CrashDelivery
import Flycatcher.EndToEnd
import Flycatcher.Library.Interleavings
import Flycatcher.Literals
import Flycatcher.Delivery
