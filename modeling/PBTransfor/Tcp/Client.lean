import Mathlib.Algebra.Ring.Int.Defs
import Mathlib.Algebra.Ring.Nat
import PBTransfor.Library.Buffer

/-!
# Tcp — the client's state and the system calls

`TcpClient` of `src/tcpclient.h`, field for field, and the system calls its methods make.  What
the kernel, the resolver and the peer answer is an argument of each call; what the client does
to them, and the callbacks it fires, is recorded in a trace.

A method runs in `EStateM Halt World`: it returns, or it halts (`Halt`), and either way it
leaves a world.  An access outside `recv_buf` halts with `Halt.undefined`, so that a theorem
saying a method returns says its accesses are in bounds.

Left out: `host_index`, which nothing reads, `is_init` and `WSAStartup` (Windows only), the
sleeps, and the log lines.
-/

namespace PBTransfor.Tcp

open Library

/-- A `char` of a message or of `recv_buf`. -/
abbrev Byte := UInt8

/-- `s_addr`. -/
abbrev InAddr := UInt32

/-- `MAX_RECV_BUF`. -/
def maxRecvBuf : Nat := 2048

/-- The conversion to `uint32_t`. -/
def uint32 (z : Int) : Nat := (z % 2 ^ 32).toNat

/-- The conversion to `size_t`. -/
def sizeT (z : Int) : Nat := (z % 2 ^ 64).toNat

/-- The thread a method is called from: one of the owner's, or `m_recv_thread`. -/
inductive Thread where
  | owner
  | receiver
  deriving DecidableEq, Repr

/-- The fields of `class TcpClient`.  `mRecvThread` says whether `m_recv_thread` is joinable. -/
structure TcpClient where
  isRunning : Bool := false
  isConnected : Bool := false
  mRecvThread : Bool := false
  fd : Int := -1
  recvBuf : Buffer Byte maxRecvBuf
  recvBufPos : Nat := 0
  mHost : String := ""
  mPort : UInt16
  mHosts : List InAddr := []
  isReconnect : Bool := false

/-! ### What the system answers -/

/-- What `select` finds: an error, nothing in five seconds, or some watched descriptor readable
or in an exceptional condition. -/
inductive SelectAnswer where
  | error
  | timeout
  | ready (readable exceptional : Bool)
  deriving DecidableEq, Repr

/-- What `::recv` meets: bytes in the socket, the peer's end of the connection, or an error. -/
inductive RecvAnswer where
  | data (bytes : List Byte)
  | closed
  | error
  deriving DecidableEq, Repr

/-- What the kernel answers `do_connect`: the descriptor of `socket`, and whether `::connect`
succeeded. -/
structure DialAnswer where
  socket : Option Nat
  connect : Bool
  deriving DecidableEq, Repr

/-- What the kernel answers one round of `run`. -/
structure RoundAnswer where
  select : SelectAnswer
  recv : RecvAnswer
  dial : DialAnswer
  deriving DecidableEq, Repr

/-! ### Events -/

/-- The fields a call of `disconnect` depends on, as they are when it is made. -/
structure Before where
  fd : Int
  isRunning : Bool
  joinable : Bool
  isConnected : Bool
  isReconnect : Bool
  deriving DecidableEq, Repr

/-- What a client does, as seen from outside, in the order it does it. -/
inductive Event where
  /-- The owner calls `connect`. -/
  | connect (pHost : String) (port : UInt16) (reconnect : Bool)
  /-- `disconnect` is called, from the thread `self`, on a client in the state `before`; `underWay`
  is what the round of the receive thread meets that is under way, if one is. -/
  | disconnect (self : Thread) (before : Before) (underWay : Option RoundAnswer)
  /-- That call of `disconnect` returns, and leaves these fields. -/
  | disconnected (fd : Int) (isRunning isConnected joinable : Bool)
  /-- `m_recv_thread` is assigned a new thread; whether it was joinable. -/
  | spawn (joinable : Bool)
  | gethostbyname (host : String) (answer : Option (List InAddr))
  /-- `socket()` returned `fd`, `-1` for a failure. -/
  | socket (fd : Int)
  /-- `::connect` on `fd` to `addr:port`, and whether it succeeded. -/
  | dial (fd : Int) (addr : InAddr) (port : UInt16) (ok : Bool)
  | close (fd : Int)
  /-- `::recv` on `fd`, offered `space` bytes: the bytes it stored, `none` for `-1`. -/
  | recv (fd : Int) (space : Nat) (bytes : Option (List Byte))
  /-- `::send` on `fd`: how many of the bytes were accepted, `none` for `-1`. -/
  | send (fd : Int) (pData : List Byte) (accepted : Option Nat)
  | onConnected
  | onDisconnect
  | onRecv (pData : List Byte)
  deriving DecidableEq, Repr

/-- How a method ends without returning. -/
inductive Halt where
  /-- `std::thread::join` raises `std::system_error`. -/
  | raised
  /-- `std::thread::join` waits for a thread whose loop condition still holds. -/
  | blocked
  /-- `std::terminate`. -/
  | terminated
  /-- A loop was still going when the fuel ran out. -/
  | diverged
  /-- An access the language leaves undefined. -/
  | undefined
  deriving DecidableEq, Repr

/-- Who can take a further step: everybody, only the receive thread because the owner waits in
`join`, or nobody because the program is over or stuck. -/
inductive Control where
  | free
  | ownerBlocked
  | ended
  deriving DecidableEq, Repr

/-- A client, what it has done so far (oldest first), and who can go on. -/
structure World extends TcpClient where
  trace : List Event := []
  control : Control := .free

/-- A method of the client, or a call it makes. -/
abbrev Method := EStateM Halt World

/-- A client just constructed.  `recv_buf` and `m_port` have no initialiser. -/
def World.new (recvBuf : Buffer Byte maxRecvBuf) (mPort : UInt16) : World :=
  { recvBuf := recvBuf, mPort := mPort }

/-- The bytes received and not yet delivered, `recv_buf[0..recv_buf_pos)`. -/
def World.pending (w : World) : List Byte := w.recvBuf.slice 0 w.recvBufPos

def World.before (w : World) : Before :=
  ⟨w.fd, w.isRunning, w.mRecvThread, w.isConnected, w.isReconnect⟩

/-- The descriptors a round of `run` lets `select` watch. -/
def Before.watched (b : Before) : List Int := if b.fd ≠ -1 ∧ b.isConnected then [b.fd] else []

/-- The room `recv` is offered, `sizeof(recv_buf) - recv_buf_pos`. -/
def World.space (w : World) : Nat := sizeT (maxRecvBuf - w.recvBufPos)

/-! ### The system calls -/

def emit (e : Event) : Method Unit := modify fun w => { w with trace := w.trace ++ [e] }

/-- `gethostbyname(host)`: the addresses of `h_addr_list` up to the null that ends it, `none`
for `NULL`. -/
def gethostbyname (host : String) (answer : Option (List InAddr)) :
    Method (Option (List InAddr)) := do
  emit (.gethostbyname host answer)
  return answer

/-- `socket(AF_INET, SOCK_STREAM, 0)`: the kernel's descriptor, `-1` for a failure. -/
def socket (answer : Option Nat) : Method Int := do
  let fd : Int := match answer with
    | some n => n
    | none => -1
  emit (.socket fd)
  return fd

/-- `::connect(fd, addr:port)`: whether the peer was reached. -/
def dial (fd : Int) (addr : InAddr) (port : UInt16) (ok : Bool) : Method Bool := do
  emit (.dial fd addr port ok)
  return ok

/-- `CLOSE(fd)`. -/
def close (fd : Int) : Method Unit := emit (.close fd)

/-- `recv_buf[i..i+xs.length) = xs`. -/
def storeAt (i : Nat) (xs : List Byte) : Method Unit := do
  if i + xs.length ≤ maxRecvBuf then
    modify fun w => { w with recvBuf := w.recvBuf.write i xs }
  else throw .undefined

/-- `recv_buf[i..i+len)`. -/
def loadAt (i len : Nat) : Method (List Byte) := do
  if i + len ≤ maxRecvBuf then return (← get).recvBuf.slice i len
  else throw .undefined

/-- `::recv(fd, recv_buf + recv_buf_pos, space, 0)`: stores as many of the waiting bytes as
fit and returns their number; `0` at the end of the connection, and whenever no room was
offered; `-1` for an error. -/
def recv (fd : Int) (space : Nat) : RecvAnswer → Method Int
  | .data bytes => do
      storeAt (← get).recvBufPos (bytes.take space)
      emit (.recv fd space (some (bytes.take space)))
      return (bytes.take space).length
  | .closed => do
      emit (.recv fd space (some []))
      return 0
  | .error => do
      emit (.recv fd space none)
      return -1

/-- `::send(fd, pData, len, 0)`, its `ssize_t` result converted to `int`. -/
def osSend (fd : Int) (pData : List Byte) (accepted : Option Nat) : Method Int := do
  emit (.send fd pData accepted)
  return match accepted with
    | some n => (n : Int).bmod (2 ^ 32)
    | none => -1

/-- What a thread ends the program with that ends itself in `h`: an exception that nobody catches
there is `std::terminate`. -/
def Halt.uncaught : Halt → Halt
  | .raised => .terminated
  | h => h

/-- `m_recv_thread.join()`, called from the thread `self`.  What the receive thread has left to do
of the round it is in is `round`; then it tests `is_running`, and ends when that is false. -/
def join (self : Thread) (round : Method Unit) : Method Unit := do
  let w ← get
  if w.mRecvThread = false ∨ self = .receiver then throw .raised
  else if w.isRunning then throw .blocked
  else
    tryCatch round fun h => throw h.uncaught
    if (← get).isRunning then throw .blocked
    else modify fun w => { w with mRecvThread := false }

/-- `m_recv_thread = std::thread(&TcpClient::run)`. -/
def startThread : Method Unit := do
  emit (.spawn (← get).mRecvThread)
  if (← get).mRecvThread then throw .terminated
  else modify fun w => { w with mRecvThread := true }

/-- `select(fd + 1, &read_fds, NULL, &except_fds, &tv)` with the descriptors `watched` in both
sets: its result, and the two sets as it leaves them. -/
def select (watched : List Int) : SelectAnswer → Int × List Int × List Int
  | .error => (-1, watched, watched)
  | .timeout => (0, [], [])
  | .ready readable exceptional =>
      let readFds := if readable then watched else []
      let exceptFds := if exceptional then watched else []
      (readFds.length + exceptFds.length, readFds, exceptFds)

/-- `FD_ISSET(fd, &fds)`, which `-1` must not be asked of. -/
def fdIsSet (fd : Int) (fds : List Int) : Method Bool := do
  if fd = -1 then throw .undefined
  else return fds.contains fd

end PBTransfor.Tcp
