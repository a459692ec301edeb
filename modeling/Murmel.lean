import Murmel.Objects.Message
import Murmel.Objects.Store
import Murmel.Objects.DownloadQueue
import Murmel.Objects.Peer
import Murmel.Objects.MemStore
import Murmel.Dispatcher.Basic
import Murmel.Dispatcher.Headers
import Murmel.Dispatcher.Fold
import Murmel.Dispatcher.Calls
import Murmel.Dispatcher.Process
import Murmel.Dispatcher.Inv
import Murmel.Dispatcher.Run
import Murmel.Dispatcher.Ledger
import Murmel.Dispatcher.Notify
import Murmel.Node.Basic
import Murmel.Node.Headers
import Murmel.Node.Queue
import Murmel.Node.Commit
import Murmel.Node.Reorg
import Murmel.Node.Download
import Murmel.Node.Answers
import Murmel.Node.Replies
import Murmel.Node.Inv
import Murmel.Broadcast
import Murmel.AddressBook
import Murmel.Constructor.KeepConnected
import Murmel.Constructor.Poll
import Murmel.Constructor.Termination
import Murmel.Constructor.Keeper
