import PBTransfor.Library.BigEndian
import PBTransfor.Library.Buffer
import PBTransfor.Library.Cut
import PBTransfor.Library.Framing
import PBTransfor.Library.Fuel
import PBTransfor.Library.Keyed
import PBTransfor.Library.LengthPrefixed
import PBTransfor.Library.LittleEndian
import PBTransfor.Library.Memory
import PBTransfor.Library.Program
import PBTransfor.Library.Runs
import PBTransfor.Library.Transducer
import PBTransfor.Library.Utf8
import PBTransfor.Head.Lua
import PBTransfor.Head.Codec
import PBTransfor.Head.Frames
import PBTransfor.Head.Unpack
import PBTransfor.Tcp.Client
import PBTransfor.Tcp.Methods
import PBTransfor.Tcp.Runs
import PBTransfor.Tcp.Quiet
import PBTransfor.Tcp.Moves
import PBTransfor.Tcp.Recv
import PBTransfor.Tcp.Reassembly
import PBTransfor.Tcp.Sessions
import PBTransfor.Tcp.Loop
import PBTransfor.Tcp.Carry
import PBTransfor.Tcp.Space
import PBTransfor.Tcp.Coherent
import PBTransfor.Tcp.Callbacks
import PBTransfor.Tcp.Dials
import PBTransfor.Tcp.Descriptors
import PBTransfor.Tcp.Leaks
import PBTransfor.Tcp.Shutdown
import PBTransfor.Tcp.Target
import PBTransfor.Tcp.Lookup
import PBTransfor.Tcp.Sending
import PBTransfor.Tcp.Stream
import PBTransfor.Uws.Mask
import PBTransfor.Uws.Utf8
import PBTransfor.Uws.Consume
import PBTransfor.Uws.Receiver
import PBTransfor.Uws.Chunks
import PBTransfor.Uws.Refines
import PBTransfor.Uws.Format
import PBTransfor.Uws.WebSocket
import PBTransfor.Uws.Messages
import PBTransfor.Uws.Safety
import PBTransfor.Uws.Lawful
import PBTransfor.Uws.Socket
import PBTransfor.Uws.Delivery
import PBTransfor.Uws.Link
import PBTransfor.Uws.Headers
import PBTransfor.Uws.Handshake
import PBTransfor.Uws.Uri
import PBTransfor.Uws.Connect
import PBTransfor.Ws.Client
import PBTransfor.Ws.Lifetime
import PBTransfor.Ws.Transport
import PBTransfor.Ws.Reports
import PBTransfor.Ws.Stack
import PBTransfor.Proto.Lua
import PBTransfor.Proto.For
import PBTransfor.Proto.Schema
import PBTransfor.Proto.Enums
import PBTransfor.Proto.Build
import PBTransfor.Proto.Handlers
import PBTransfor.Proto.Accepting
import PBTransfor.Proto.Recursion
import PBTransfor.Proto.Raising
import PBTransfor.Proto.Shape
import PBTransfor.Driver.Script
import PBTransfor.Driver.Main
