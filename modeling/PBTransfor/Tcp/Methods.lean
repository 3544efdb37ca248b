import PBTransfor.Tcp.Client

/-!
# Tcp — the methods of the client

`src/tcpclient.cpp`, method for method.  The virtual members are a parameter (`Virtuals`): a
subclass may run any code in its callbacks, and frames messages by its own `read_packet`, which
looks at the bytes it is shown and at nothing else.

`packetLoop` is the `while` of `do_recv`, one unit of fuel an iteration; `runIteration` is the
body of the `while` of `run`.
-/

namespace PBTransfor.Tcp

/-- The virtual members of `TcpClient`.  The result of `on_recv` is ignored by its caller. -/
structure Virtuals where
  readPacket : List Byte → Int32
  onConnected : Method Unit
  onDisconnect : Method Unit
  onRecv : List Byte → Method Unit

/-- Callbacks that return at once, and the framing function `f`. -/
def Virtuals.quiet (f : List Byte → Int32) : Virtuals where
  readPacket := f
  onConnected := pure ()
  onDisconnect := pure ()
  onRecv _ := pure ()

section
variable (v : Virtuals)

/-- `this->on_connected()`. -/
def fireConnected : Method Unit := do
  emit .onConnected
  v.onConnected

/-- `this->on_disconnect()`. -/
def fireDisconnect : Method Unit := do
  emit .onDisconnect
  v.onDisconnect

/-- `on_recv(pData, len)`. -/
def fireRecv (pData : List Byte) : Method Unit := do
  emit (.onRecv pData)
  v.onRecv pData

/-! ### Connecting -/

/-- `TcpClient::do_connect`. -/
def doConnect (k : DialAnswer) : Method Int := do
  if (← get).fd ≠ -1 then
    close (← get).fd
    modify fun w => { w with fd := -1 }
  let fd ← socket k.socket
  modify fun w => { w with fd := fd }
  if fd = -1 then
    return -1
  else
    match (← get).mHosts with
    | [] => throw .undefined -- `m_hosts[0]` of an empty vector
    | addr :: _ =>
        if ← dial (← get).fd addr (← get).mPort k.connect then
          modify fun w => { w with isConnected := true }
          fireConnected v
          return 0
        else
          close (← get).fd -- the number stays in `fd`
          return -1

/-- The `while` over `h_addr_list`: every round pushes `h_addr_list[0]`. -/
def pushHosts (hAddrList : List InAddr) : Method Unit :=
  forM hAddrList fun _ =>
    modify fun w => { w with mHosts := w.mHosts ++ hAddrList.take 1 }

/-- `TcpClient::connect`. -/
def connect (pHost : String) (port : UInt16) (reconnect : Bool)
    (lookup : Option (List InAddr)) (k : DialAnswer) : Method Int := do
  emit (.connect pHost port reconnect)
  modify fun w => { w with mPort := port, mHost := pHost, isReconnect := reconnect }
  match ← gethostbyname (← get).mHost lookup with
  | none => return -1
  | some hAddrList =>
      pushHosts hAddrList
      if !(← get).isRunning then
        modify fun w => { w with isRunning := true }
        let ret ← doConnect v k
        startThread -- also when `ret` is `-1`
        return ret
      else
        return 0

/-! ### Receiving -/

/-- `read_packet(recv_buf + readPos, recv_buf_pos - readPos)`. -/
def readPacketAt (readPos : Nat) : Method Int := do
  let pData ← loadAt readPos ((← get).recvBufPos - readPos)
  return (v.readPacket pData).toInt

/-- The first `if` of the loop: a packet that has arrived whole is passed to `on_recv`. -/
def deliver (readPos : Nat) (pkgLen : Int) : Method Nat := do
  if uint32 (readPos + pkgLen) ≤ (← get).recvBufPos then
    let pData ← loadAt readPos pkgLen.toNat
    fireRecv v pData
    return uint32 (readPos + pkgLen)
  else
    return readPos

/-- The leftover moved to the front of `recv_buf`, and a zero behind it. -/
def compact (readPos : Nat) : Method Unit := do
  let rest ← loadAt readPos ((← get).recvBufPos - readPos)
  storeAt 0 rest
  modify fun w => { w with recvBufPos := w.recvBufPos - readPos }
  storeAt (← get).recvBufPos [0]

/-- `while (pkgLen > 0)`. -/
def packetLoop : Nat → Nat → Int → Method Unit
  | 0, _, _ => throw .diverged
  | fuel + 1, readPos, pkgLen => do
      if 0 < pkgLen then
        let readPos ← deliver v readPos pkgLen
        if readPos < (← get).recvBufPos then
          let pkgLen ← readPacketAt v readPos
          if pkgLen ≤ 0 then
            compact readPos
          else
            packetLoop fuel readPos pkgLen
        else
          modify fun w => { w with recvBufPos := 0 }
      else
        return ()

/-- `TcpClient::do_recv`. -/
def doRecv (fuel : Nat) (k : RecvAnswer) : Method Int := do
  let recvLen ← recv (← get).fd (← get).space k
  if recvLen ≤ 0 then
    -- `fd` stays open and `recv_buf_pos` as it is
    modify fun w => { w with isConnected := false }
    fireDisconnect v
    return -1
  else
    modify fun w => { w with recvBufPos := uint32 (w.recvBufPos + recvLen) }
    let pkgLen ← readPacketAt v 0
    packetLoop v fuel 0 pkgLen
    return 0

/-! ### The receive thread -/

/-- The round of `run` from where `select` returns, which has been given the descriptors
`watched`. -/
def afterSelect (fuel : Nat) (k : RoundAnswer) (watched : List Int) : Method Unit := do
  let (ret, readFds, exceptFds) := select watched k.select
  if ret = -1 then
    return ()
  else if ret ≠ 0 then
    if ← fdIsSet (← get).fd readFds then
      let _ ← doRecv v fuel k.recv
    if ← fdIsSet (← get).fd exceptFds then
      fireDisconnect v -- `is_connected` and `fd` stay as they are
  else if !(← get).isConnected && (← get).isReconnect then
    let _ ← doConnect v k.dial

/-- The body of the `while` of `TcpClient::run`. -/
def runIteration (fuel : Nat) (k : RoundAnswer) : Method Unit := do
  let w ← get
  afterSelect v fuel k w.before.watched

/-! ### Sending and disconnecting -/

/-- What is left of the round that is under way while the client is used by another thread: it
waits in `select`. -/
def leftOver (fuel : Nat) (watched : List Int) : Option RoundAnswer → Method Unit
  | none => pure ()
  | some k => afterSelect v fuel k watched

/-- `TcpClient::disconnect`, called from the thread `self`.  The callbacks are those of the round
that is under way. -/
def disconnect (fuel : Nat) (self : Thread) (underWay : Option RoundAnswer) : Method Unit := do
  let w ← get
  emit (.disconnect self w.before underWay)
  if (← get).fd ≠ -1 then
    modify fun w => { w with isRunning := false }
    close (← get).fd
    modify fun w => { w with fd := -1 }
  -- whether or not there was a socket, and whether or not there is a thread
  join self (leftOver v fuel w.before.watched underWay)
  modify fun w => { w with isConnected := false }
  let w ← get
  emit (.disconnected w.fd w.isRunning w.isConnected w.mRecvThread)

/-- `TcpClient::send`, called from the thread `self` with `len` of the bytes `pData`.  The
callbacks are `v` in that thread and `v'` in the receive thread. -/
def send (v' : Virtuals) (fuel : Nat) (self : Thread) (pData : List Byte) (len : UInt32)
    (accepted : Option Nat) (underWay : Option RoundAnswer) : Method Int := do
  if (← get).isConnected then
    let ret ← osSend (← get).fd (pData.take len.toNat) accepted
    if ret ≤ 0 then
      fireDisconnect v
      disconnect v' fuel self underWay
      return -1
    else
      return ret
  else
    return -1

end

end PBTransfor.Tcp
