import QjsLws.Misc.Run
import QjsLws.Misc.Outcome
import QjsLws.Misc.Assoc
import QjsLws.Misc.Text
import QjsLws.Misc.ChunkedCoding
import QjsLws.Misc.Utf8
import QjsLws.Misc.Forest
import QjsLws.Socket.WriteQueue
import QjsLws.Socket.Proofs.WriteQueue
import QjsLws.Protocol.Reason
import QjsLws.Protocol.RequestCache
import QjsLws.Protocol.Proofs.RequestCache
import QjsLws.Protocol.Dispatch
import QjsLws.Protocol.Proofs.Dispatch
import QjsLws.Poll.Backends
import QjsLws.Poll.Proofs.Backends
import QjsLws.Context.Timers
import QjsLws.Context.Proofs.Timers
import QjsLws.Context.RefCounter
import QjsLws.Context.Proofs.RefCounter
import QjsLws.Http.Headers
import QjsLws.Http.ServerResponse
import QjsLws.Http.Proofs.ServerResponse
import QjsLws.Http.Proofs.Framing
import QjsLws.Serve.Upgrade
import QjsLws.Serve.Proofs.HandleRequest
import QjsLws.Serve.Proofs.Upgrade
import QjsLws.Client.HttpClient
import QjsLws.Client.Proofs.HttpClient
import QjsLws.Client.Fetch
import QjsLws.Client.Proofs.Fetch
import QjsLws.Stream.Adapter
import QjsLws.Stream.Proofs.Adapter
import QjsLws.Session.MemoryStore
import QjsLws.Session.Middleware
import QjsLws.Session.Overlap
import QjsLws.Session.Sequential
import QjsLws.Session.Proofs.Overlap
import QjsLws.Session.Proofs.Sequential
import QjsLws.App.Path
import QjsLws.App.Layers
import QjsLws.App.Mount
import QjsLws.App.Dispatch
import QjsLws.App.Proofs.Path
import QjsLws.App.Proofs.Mount
import QjsLws.App.Proofs.Compose
import QjsLws.App.Proofs.Dispatch
import QjsLws.Url.PercentEncoding
import QjsLws.Url.Host
import QjsLws.Url.Parser
import QjsLws.Url.SearchParams
import QjsLws.Url.Setters
import QjsLws.Url.Proofs.PercentEncoding
import QjsLws.Url.Proofs.Host
import QjsLws.Url.Proofs.Run
import QjsLws.Url.Proofs.WellFormed
import QjsLws.Url.Proofs.Parse
import QjsLws.Url.Proofs.ReadBack
import QjsLws.Url.Proofs.RoundTrip
import QjsLws.Url.Proofs.Numeric
import QjsLws.Url.Proofs.SearchParams
import QjsLws.Url.Proofs.Overrides
import QjsLws.Url.Proofs.Setters
import QjsLws.Url.Proofs.RecordSafe
import QjsLws.Url.Proofs.Sync
import QjsLws.Url.Proofs.Reparse
import QjsLws.Url.Parts
import QjsLws.Url.Proofs.HostGrammar
import QjsLws.Url.Proofs.HostText
import QjsLws.Url.Proofs.QueryText
import QjsLws.Url.Proofs.Failure
import QjsLws.Misc.Number
import QjsLws.Protocol.HttpProtocol
import QjsLws.Protocol.Proofs.HttpProtocol
import QjsLws.Socket.WantWrite
import QjsLws.Socket.Proofs.WantWrite
import QjsLws.Misc.OrderedSet
import QjsLws.WebSocket.TopicRegistry
import QjsLws.WebSocket.Proofs.TopicRegistry
import QjsLws.WebSocket.Cork
import QjsLws.WebSocket.Proofs.Cork
import QjsLws.Events.EventTarget
import QjsLws.Events.Proofs.EventTarget
import QjsLws.Http.Proofs.Injection
import QjsLws.App.Language
import QjsLws.App.Proofs.Language
import QjsLws.Form.Decoders
import QjsLws.Form.Proofs.Decoders
import QjsLws.Body.Content
import QjsLws.Body.Proofs.Content
import QjsLws.Body.Clone
import QjsLws.Body.Proofs.Clone
import QjsLws.App.Errors
import QjsLws.App.Proofs.Errors
import QjsLws.App.Totality
import QjsLws.App.Proofs.Totality
import QjsLws.Events.Abort
import QjsLws.Events.Proofs.AbortCascade
import QjsLws.Events.Proofs.AbortDispatch
import QjsLws.Events.Proofs.AbortAny
import QjsLws.Events.Proofs.Abort
import QjsLws.WebSocket.CloseTracker
import QjsLws.WebSocket.Proofs.CloseTracker
import QjsLws.Native.Buffer
import QjsLws.Native.Proofs.Buffer
import QjsLws.Misc.Utf8Replace
import QjsLws.Native.LossyUtf8
import QjsLws.Native.Proofs.LossyUtf8
import QjsLws.Session.Expiry
import QjsLws.Session.Proofs.Expiry
import QjsLws.Form.BodyParser
import QjsLws.Form.Proofs.BodyParser
import QjsLws.Http.Cors
import QjsLws.Http.Proofs.Cors
import QjsLws.Http.Cookies
import QjsLws.Http.Proofs.Cookies
import QjsLws.Client.CookieJar
import QjsLws.Client.Proofs.CookieJar
import QjsLws.Misc.Cut
import QjsLws.Form.Multipart
import QjsLws.Form.Proofs.Multipart
import QjsLws.Client.RequestBody
import QjsLws.Client.Proofs.RequestBody
import QjsLws.Misc.Access
import QjsLws.Native.CaseNames
import QjsLws.Native.Proofs.CaseNames
import QjsLws.Native.OptionLookup
import QjsLws.Native.Proofs.OptionLookup
import QjsLws.Native.CustomHeaders
import QjsLws.Native.Proofs.CustomHeaders
import QjsLws.Stream.ByteQueue
import QjsLws.Stream.Proofs.ByteQueue
import QjsLws.Serve.AsyncQueue
import QjsLws.Serve.Proofs.AsyncQueue
import QjsLws.Misc.MergePasses
import QjsLws.Linked.Heap
import QjsLws.Linked.LinkedList
import QjsLws.Linked.Proofs.Ring
import QjsLws.Linked.Proofs.Sort
import QjsLws.Linked.Proofs.LinkedList
import QjsLws.Linked.Proofs.Programs
import QjsLws.Linked.Pool
import QjsLws.Linked.Proofs.Pool
import QjsLws.Streams.Writable
import QjsLws.Streams.Proofs.Writable
import QjsLws.Streams.Readable
import QjsLws.Streams.Proofs.Readable
import QjsLws.Misc.Packed
import QjsLws.Streams.SimpleQueue
import QjsLws.Streams.Proofs.SimpleQueue
