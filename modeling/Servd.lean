import Servd.Lib.Transition
import Servd.Lib.Coroutine
import Servd.Lib.Bytes
import Servd.Lib.Reader
import Servd.Lib.Text
import Servd.Protocol
import Servd.Session
import Servd.Crypto
import Servd.Context
import Servd.CommandRoute
import Servd.Engine
import Servd.EngineStep
import Servd.Writes
import Servd.Requests
import Servd.SessionRegistry
import Servd.Reachability
import Servd.Cleanup
import Servd.ClientLimit
import Servd.DiscoverySetting
import Servd.Discovery
import Servd.OutputFormat
import Servd.Broadcast
import Servd.BroadcastWrites
import Servd.BroadcastRuns
import Servd.FrameIO
import Servd.TextFraming
import Servd.StreamInput
import Servd.ReadExact
import Servd.TextAdapter
import Servd.TextHeader
import Servd.StreamOutput
import Servd.Workers
import Servd.Refinement
import Servd.Isolation
import Servd.QuietBroadcast
import Servd.TaskFrames
import Servd.TaskThreads
import Servd.TaskReaders
import Servd.TaskReads
import Servd.EngineCode
import Servd.EngineThreads
import Servd.Failures
import Servd.Serialisation
import Servd.Acknowledgement
import Servd.EncryptedSession
import Servd.Gate
import Servd.Decryption
import Servd.AssociatedData
import Servd.Contexts
import Servd.ClientHandlers
import Servd.StepEffects
import Servd.LifeCycle
import Servd.Datagrams
import Servd.Scheduling
import Servd.Confidentiality
import Servd.Ledger
import Servd.Grants
import Servd.Application
import Servd.Client
import Servd.Conversation
import Servd.Replies
import Servd.WhenAll
import Servd.ThreadPool
import Servd.EngineCore
import Servd.PoolPosts
import Servd.PoolProgress
import Servd.Logger
import Servd.ServerConfigFile
import Servd.ConfigLoading
import Servd.ConfigFormat
import Servd.Startup
import Servd.EventLoop
