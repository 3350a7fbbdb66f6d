import JobControllerClient.Foundation.StepMachine
import JobControllerClient.Foundation.LittleEndian
import JobControllerClient.Foundation.CheckedSlice
import JobControllerClient.Foundation.Interleaving
import JobControllerClient.Foundation.Notify
import JobControllerClient.Foundation.Program
import JobControllerClient.Foundation.BufferedWriter
import JobControllerClient.Foundation.FileSystem
import JobControllerClient.Foundation.DirectoryCreation
import JobControllerClient.Foundation.FileWriting
import JobControllerClient.Foundation.TreeWalk
import JobControllerClient.Values
import JobControllerClient.Messaging
import JobControllerClient.WireRoundTrip
import JobControllerClient.MessageDecoding
import JobControllerClient.TransferLoop
import JobControllerClient.TransferStream
import JobControllerClient.TransferPause
import JobControllerClient.TransferInvariant
import JobControllerClient.JobTable
import JobControllerClient.DbRecords
import JobControllerClient.JobSubmit
import JobControllerClient.JobSubmission
import JobControllerClient.JobResubmission
import JobControllerClient.StatusTable
import JobControllerClient.JobHandlers
import JobControllerClient.JobSystem
import JobControllerClient.DeleteOnce
import JobControllerClient.DeletedRow
import JobControllerClient.StatusCheck
import JobControllerClient.FalseSuccess
import JobControllerClient.CancelOnce
import JobControllerClient.StatusRows
import JobControllerClient.StatusRepeat
import JobControllerClient.BundleLocks
import JobControllerClient.BundleDeadlock
import JobControllerClient.UploadPath
import JobControllerClient.FileUpload
import JobControllerClient.FileListing
import JobControllerClient.WebsocketClient
import JobControllerClient.WebsocketTasks
import JobControllerClient.ConnectionTasks
import JobControllerClient.DbFraming
import JobControllerClient.QueueLocks
import JobControllerClient.RequestPromises
import JobControllerClient.PromiseHygiene
import JobControllerClient.DisconnectRequests
import JobControllerClient.ResponseCorrelation
import JobControllerClient.SchedulerWakeup
import JobControllerClient.DisconnectMarks
import JobControllerClient.QueueHandoff
import JobControllerClient.QueueOrder
import JobControllerClient.SupervisorWakeup
import JobControllerClient.SchedulerDrain
import JobControllerClient.BundleLogging
import JobControllerClient.SelfUpdate
import JobControllerClient.ArchiveWalk
import JobControllerClient.ArchiveLimit
import JobControllerClient.PythonApi
import JobControllerClient.PythonCallbacks
import JobControllerClient.BundleInterface
import JobControllerClient.BundleManager
import JobControllerClient.BundleDb
import JobControllerClient.BundleCalls
import JobControllerClient.DbBridge
import JobControllerClient.BundleCache
import JobControllerClient.DownloadFrames
import JobControllerClient.DownloadSession
import JobControllerClient.UploadSession
import JobControllerClient.ServerReady
import JobControllerClient.HealthCheck
import JobControllerClient.ConnectionSupervision
import JobControllerClient.Daemon
import JobControllerClient.Configuration
