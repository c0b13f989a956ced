import Lightsocks.Lib.Table
import Lightsocks.Lib.Bits
import Lightsocks.Lib.Run
import Lightsocks.Lib.Loop
import Lightsocks.Lib.Ledger
import Lightsocks.Lib.Pool
import Lightsocks.Ctype
import Lightsocks.Address
import Lightsocks.Password
import Lightsocks.Base64
import Lightsocks.Key
import Lightsocks.SecureSocket
import Lightsocks.Copy
import Lightsocks.Bufferevent
import Lightsocks.Socks5
import Lightsocks.Server
import Lightsocks.Server.Callbacks
import Lightsocks.Server.Invariant
import Lightsocks.Server.Handshake
import Lightsocks.Server.Bounds
import Lightsocks.Server.Requests
import Lightsocks.Server.Pipelined
import Lightsocks.Server.Handles
import Lightsocks.Server.Relay
import Lightsocks.Server.Connected
import Lightsocks.Client
import Lightsocks.Parson
import Lightsocks.Client.Startup
import Lightsocks.Client.Lifecycle
import Lightsocks.Client.Upload
import Lightsocks.HangUp
import Lightsocks.Tunnel
import Lightsocks.Lib.Shuffle
import Lightsocks.RandPassword
import Lightsocks.Key.Allocation
import Lightsocks.Listener
import Lightsocks.Lib.Utf8
import Lightsocks.Parson.Accepted
import Lightsocks.Parson.Serializer
import Lightsocks.Client.ConfigFile
import Lightsocks.Parson.Language
import Lightsocks.Lib.Segments
import Lightsocks.Lib.Purge
import Lightsocks.Client.Directions
import Lightsocks.Upstream
import Lightsocks.Exit
import Lightsocks.Base64.Canonical
import Lightsocks.Progress
import Lightsocks.Lib.Merge
import Lightsocks.Downstream
