import Levent.Queue
import Levent.Event
import Levent.Waiter
import Levent.Tasks
import Levent.Semaphore
import Levent.Unwind
import Levent.Async
import Levent.Callbacks
import Levent.Dns.Glue
import Levent.Stream
import Levent.WebSocket.RoundTrip
import Levent.WebSocket.Handshake
import Levent.WebSocket.Send
import Levent.Dns.Servers
import Levent.Close
import Levent.Join
import Levent.Coroutines
import Levent.Http.Parser
import Levent.Http.Query
import Levent.Http.Reconnect
import Levent.Bson.RoundTrip
import Levent.Mongo.Reply
import Levent.Dns.Records
import Levent.Dns.Question
import Levent.Dns.Expiry
import Levent.Dns.Lookup
import Levent.Watch
import Levent.WebSocket.Closing
import Levent.Mongo.Client
import Levent.Class
import Levent.Sendall
import Levent.Dns.Order
import Levent.Dns.Tcp
import Levent.Http.Pairs
import Levent.Http.Length
import Levent.Http.Heads
import Levent.Bson.Index
import Levent.Bson.Replace
import Levent.Http.Broken
import Levent.Http.Canonical
import Levent.WebSocket.Payload
import Levent.Bson.Tables
import Levent.Bson.Normal
import Levent.Bson.Ordered
import Levent.Bson.Special
import Levent.Http.Server
import Levent.Lib.Framing
import Levent.Mongo.Cursor
import Levent.Spawning
import Levent.WebSocket.Delivery
import Levent.Runtime.TimerInv
import Levent.Timers
import Levent.Http.ParseUrl
import Levent.Lib.Scan
import Levent.Http.Authority
import Levent.Http.Routing
