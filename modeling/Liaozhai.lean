import Liaozhai.Library.Transducer
import Liaozhai.Library.Framed
import Liaozhai.Library.Table
import Liaozhai.Library.Utf8Lossy
import Liaozhai.Library.RustString
import Liaozhai.Library.Machine
import Liaozhai.Library.Interleaved
import Liaozhai.Library.Calls
import Liaozhai.Library.Lagging
import Liaozhai.Library.Pull
import Liaozhai.Library.Turns
import Liaozhai.Library.Loop
import Liaozhai.Library.ExpiringQueue
import Liaozhai.Core.Constants
import Liaozhai.Auth.Store
import Liaozhai.Auth.Hashing
import Liaozhai.Auth.AccountMap
import Liaozhai.Auth.Refinement
import Liaozhai.Auth.RateLimiter
import Liaozhai.Auth.SlidingWindow
import Liaozhai.Auth.Eviction
import Liaozhai.Auth.LongerWindow
import Liaozhai.Auth.Earned
import Liaozhai.Worlds.Registry
import Liaozhai.Worlds.Validation
import Liaozhai.Net.Codec
import Liaozhai.Net.Telnet
import Liaozhai.Net.StripIac
import Liaozhai.Net.InPlace
import Liaozhai.Net.Lines
import Liaozhai.Net.Decode
import Liaozhai.Net.Reads
import Liaozhai.Net.Streams
import Liaozhai.Net.Transparency
import Liaozhai.Net.LineLength
import Liaozhai.Net.Overlong
import Liaozhai.Net.Terminators
import Liaozhai.Net.Escaped
import Liaozhai.Net.Subnegotiation
import Liaozhai.Net.Blocks
import Liaozhai.Net.Session
import Liaozhai.Net.Selection
import Liaozhai.Net.WorldList
import Liaozhai.Net.Columns
import Liaozhai.Net.Connection
import Liaozhai.Net.Logs
import Liaozhai.Net.Redaction
import Liaozhai.Net.Prompts
import Liaozhai.Net.Authentication
import Liaozhai.Net.Echo
import Liaozhai.Net.Conversation
import Liaozhai.Net.Wire
import Liaozhai.Net.Socket
import Liaozhai.Net.Pacing
import Liaozhai.Net.Dialogue
import Liaozhai.Net.TypedLines
import Liaozhai.Net.Attempts
import Liaozhai.Net.Farewell
import Liaozhai.Net.Accounting
import Liaozhai.Net.Audit
import Liaozhai.Server.Accounts
import Liaozhai.Server.Listener
import Liaozhai.Server.Guesses
import Liaozhai.Server.Slots
import Liaozhai.Server.Admission
import Liaozhai.Server.TurnedAway
import Liaozhai.Server.Service
import Liaozhai.Server.Replies
import Liaozhai.Server.Logins
import Liaozhai.Server.Audit
import Liaozhai.Server.Unseen
import Liaozhai.Server.Progress
import Liaozhai.Server.Shutdown
import Liaozhai.Server.Settling
import Liaozhai.Net.Recovery
import Liaozhai.Net.Rejection
import Liaozhai.Net.EndOfInput
import Liaozhai.Net.BufferLimit
import Liaozhai.Net.Backpressure
