import LinuxCat.TaskQueueRefinement
import LinuxCat.WorkerAccounting
import LinuxCat.WorkerWakeups
import LinuxCat.ThreadSlots
import LinuxCat.VerifiedSessions
import LinuxCat.OnlineSessions
import LinuxCat.PrivateMessages
import LinuxCat.Registrations
import LinuxCat.UniqueNames
import LinuxCat.MessageHistory
import LinuxCat.TransferDeadlock
import LinuxCat.ServerFraming
import LinuxCat.BlockData
import LinuxCat.TransferPreparation
import LinuxCat.TransferSeparation
import LinuxCat.RendezvousTable
import LinuxCat.FileTransfers
import LinuxCat.FileAnswers
import LinuxCat.BlockMappings
import LinuxCat.ProducerWakeups
import LinuxCat.PoolDestruction
import LinuxCat.GroupMessages
import LinuxCat.Muting
import LinuxCat.ActingNames
import LinuxCat.TransferIds
import LinuxCat.BlockPartition
import LinuxCat.RelayEndings
import LinuxCat.UserLists
import LinuxCat.BlockReceipts
import LinuxCat.IncompleteWrites
import LinuxCat.Credentials
import LinuxCat.SqlTexts
import LinuxCat.ListTraversals
import LinuxCat.NoticeHandoffs
import LinuxCat.HistoryBlocks
import LinuxCat.HistoryLines
import LinuxCat.LogRotation
import LinuxCat.StringComparisons
import LinuxCat.ClientProtocol
import LinuxCat.ChatScreens
import LinuxCat.ChatSafety
import LinuxCat.OpenSessions
import LinuxCat.ChatDelivery
import LinuxCat.TypedSessions
import LinuxCat.MissedInputs
import LinuxCat.LogRecords
import LinuxCat.TypedConversations
import LinuxCat.ServerEndings
