import SableDb.Storage.Bytes
import SableDb.Storage.Engine
import SableDb.Replication.StorageUpdates
import SableDb.Replication.Paging
import SableDb.Storage.StorageRocksDb
import SableDb.Replication.Replay
import SableDb.Server.BlockedClients
import SableDb.Server.Registry
import SableDb.Server.ChannelCapacity
import SableDb.Server.SenderOccurrences
import SableDb.Server.LostWakeup
import SableDb.Server.Role
import SableDb.Server.Sequential
import SableDb.Server.Serial
import SableDb.Server.Broadcast
import SableDb.Storage.GenericDb
import SableDb.Commands.GenericCommands
import SableDb.Commands.Resp
import SableDb.Commands.Commander
import SableDb.Commands.GenericRuns
