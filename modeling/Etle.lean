import Etle.Config.QuotedValues
import Etle.Discovery.Peers
import Etle.File.PackageChunks
import Etle.Gui.DaemonSession
import Etle.Gui.DeleteConfirmation
import Etle.Gui.FailureAttribution
import Etle.Gui.SeedQueue
import Etle.Gui.Selection
import Etle.Ipc.DownloadJobs
import Etle.Ipc.JobRegistry
import Etle.Ipc.ListenerRuns
import Etle.Ipc.ListableFiles
import Etle.Ipc.SafeOutput
import Etle.Ipc.Subscription
import Etle.Protocol.CodecFiles
import Etle.State.ProgressSet
import Etle.State.RecordFiles
import Etle.State.ShareIdentity
import Etle.Transfer.CompletedDownload
import Etle.Transfer.ConcurrentDownloads
import Etle.Transfer.DeletedShare
import Etle.Transfer.DownloadEffects
import Etle.Transfer.EncryptedFile
import Etle.Transfer.ExchangeRuns
import Etle.Transfer.FailedDownload
import Etle.Transfer.FreshDownload
import Etle.Transfer.OutputPaths
import Etle.Transfer.ParallelAvailability
import Etle.Transfer.ProgressReports
import Etle.Transfer.PskAgreement
import Etle.Transfer.ReconstructEquivalence
import Etle.Transfer.RequestedShare
import Etle.Transfer.Resume
import Etle.Transfer.ResumeStops
import Etle.Transfer.ReusedChunks
import Etle.Transfer.SeedAdd
import Etle.Transfer.SeedRoundTrip
import Etle.Transfer.SeedStops
import Etle.Transfer.SeededDownload
import Etle.Transfer.ServableShare
import Etle.Transfer.ServeTurns
import Etle.Transfer.TempFiles
import Etle.Transfer.VerifiedRuns
import Etle.Transfer.WindowBounds
import Etle.Transfer.CompletingDownload
import Etle.Ipc.ListableFiles
