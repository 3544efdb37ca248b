import PBTransfor.Uws.Format
import PBTransfor.Uws.Refines

/-!
# Uws — a WebSocket

`WebSocket<isServer>`: what it makes of the payloads `consume` hands it, and what it calls and
sends.  Frames are sent by `Socket`; here they are events, as the calls of the handlers of its
`Group` are.

The handlers are the program that uses the library.  What they do to the WebSocket they are called
for may depend on all that has happened to it; `send` and `terminate` do nothing to one that is
closed (the checks of `UWS_THREADSAFE`).

* `WebSocket.steady`: a WebSocket without compression is what `consume` relies on.
* `WebSocket.handleFragment_message`, `WebSocket.handleFragment_control`: the last piece of a frame
  goes, with what was put by, to `Channel.message` or `Channel.control`.
-/

namespace PBTransfor.Uws

open Library

inductive OpCode where
  | TEXT
  | BINARY
  | CLOSE
  | PING
  | PONG
  deriving DecidableEq, Repr

def OpCode.byte : OpCode → Byte
  | .TEXT => 1
  | .BINARY => 2
  | .CLOSE => 8
  | .PING => 9
  | .PONG => 10

/-! ### What is seen of it -/

/-- What a WebSocket does.  `sent` is a frame given to `Socket`; the others are calls of handlers,
and the end of the connection. -/
inductive Event where
  | message (data : List Byte) (opCode : Byte)
  | ping (data : List Byte)
  | pong (data : List Byte)
  | disconnection (code : Nat) (message : List Byte)
  | sent (message : List Byte) (opCode : OpCode)
  | closed
  deriving DecidableEq, Repr

/-- What a handler does to the WebSocket it is called for. -/
inductive Call where
  | send (message : List Byte) (opCode : OpCode)
  | close (code : Nat) (message : List Byte)
  | terminate
  deriving DecidableEq, Repr

/-- `Group<isServer>`, and what its `Hub` makes of compressed data; `handler` is given all that
has happened, the event it is called for last. -/
structure Group where
  maxPayload : UInt32
  inflate : List Byte → Option (List Byte)
  handler : List Event → List Call

/-- What can be seen of a WebSocket. -/
structure Channel where
  shuttingDown : Bool := false
  closed : Bool := false
  trace : List Event := []

namespace Channel

def ended (ch : Channel) : Bool := ch.closed || ch.shuttingDown

def record (ch : Channel) (e : Event) : Channel := { ch with trace := ch.trace ++ [e] }

/-- `WebSocket::send`. -/
def send (message : List Byte) (opCode : OpCode) (ch : Channel) : Channel :=
  if ch.closed then ch else ch.record (.sent message opCode)

/-- `WebSocket::onEnd`. -/
def onEnd (ch : Channel) : Channel :=
  let ch := if ch.shuttingDown then ch else ch.record (.disconnection 1006 [])
  { ch.record .closed with closed := true }

/-- `WebSocket::terminate`. -/
def terminate (ch : Channel) : Channel := if ch.closed then ch else ch.onEnd

/-- `WebSocket::close`. -/
def close (code : Nat) (message : List Byte) (ch : Channel) : Channel :=
  let message := message.take 123
  let ch := { ch.record (.disconnection code message) with shuttingDown := true }
  ch.send (formatClosePayload code message) .CLOSE

def call (ch : Channel) : Call → Channel
  | .send message opCode => ch.send message opCode
  | .close code message => ch.close code message
  | .terminate => ch.terminate

variable (G : Group)

/-- A handler is called. -/
def handle (e : Event) (ch : Channel) : Channel :=
  (G.handler (ch.trace ++ [e])).foldl call (ch.record e)

/-- `data` is a message that is complete, and not compressed. -/
def message (data : List Byte) (opCode : Byte) (ch : Channel) : Bool × Channel :=
  if opCode = OpCode.TEXT.byte ∧ isValidUtf8 data = false then (true, ch.terminate)
  else
    let ch := ch.handle G (.message data opCode)
    (ch.ended, ch)

/-- `data` is the payload of a control frame. -/
def control (data : List Byte) (opCode : Byte) (ch : Channel) : Bool × Channel :=
  if opCode = OpCode.CLOSE.byte then
    let closeFrame := parseClosePayload data
    (true, ch.close closeFrame.code closeFrame.message)
  else if opCode = OpCode.PING.byte then
    let ch := (ch.send data .PONG).handle G (.ping data)
    (ch.ended, ch)
  else if opCode = OpCode.PONG.byte then
    let ch := ch.handle G (.pong data)
    (ch.ended, ch)
  else (false, ch)

/-- The one or the other. -/
def arrive (data : List Byte) (opCode : Byte) (ch : Channel) : Bool × Channel :=
  if opCode < 3 then ch.message G data opCode else ch.control G data opCode

end Channel

/-! ### The fragments -/

inductive CompressionStatus where
  | DISABLED
  | ENABLED
  | COMPRESSED_FRAME
  deriving DecidableEq, Repr

/-- `controlTipLength` has eight bits. -/
structure WebSocket where
  channel : Channel := {}
  fragmentBuffer : List Byte := []
  compressionStatus : CompressionStatus := .DISABLED
  controlTipLength : Nat := 0

namespace WebSocket

/-- What has been answered, and what became of the channel. -/
def answer (w : WebSocket) (r : Bool × Channel) : Bool × WebSocket :=
  (r.1, { w with channel := r.2 })

def forceClose (w : WebSocket) : WebSocket := { w with channel := w.channel.terminate }

def setCompressed (w : WebSocket) : Bool × WebSocket :=
  if w.compressionStatus = .ENABLED then (true, { w with compressionStatus := .COMPRESSED_FRAME })
  else (false, w)

variable (G : Group)

def refusePayloadLength (length : Nat) : Bool := length > G.maxPayload.toNat

/-- `data` is a message that is complete; it may be compressed. -/
def message (data : List Byte) (opCode : Byte) (w : WebSocket) : Bool × WebSocket :=
  if w.compressionStatus = .COMPRESSED_FRAME then
    let w := { w with compressionStatus := .ENABLED }
    match G.inflate data with
    | none => (true, w.forceClose)
    | some data => w.answer (w.channel.message G data opCode)
  else w.answer (w.channel.message G data opCode)

def handleFragment (data : List Byte) (remainingBytes : Nat) (opCode : Byte) (fin : Bool)
    (w : WebSocket) : Bool × WebSocket :=
  if opCode < 3 then
    if remainingBytes = 0 ∧ fin ∧ w.fragmentBuffer = [] then w.message G data opCode
    else
      let w := { w with fragmentBuffer := w.fragmentBuffer ++ data }
      if remainingBytes = 0 ∧ fin then
        match w.message G w.fragmentBuffer opCode with
        | (true, w) => (true, w)
        | (false, w) => (false, { w with fragmentBuffer := [] })
      else (false, w)
  else if remainingBytes = 0 ∧ fin ∧ w.controlTipLength = 0 then
    w.answer (w.channel.control G data opCode)
  else
    let w := { w with
      fragmentBuffer := w.fragmentBuffer ++ data
      controlTipLength := (w.controlTipLength + data.length) % 256 }
    if remainingBytes = 0 ∧ fin then
      -- the payload is at the end of the buffer, behind what there is of a message
      let tip := w.fragmentBuffer.length - w.controlTipLength
      match w.answer (w.channel.control G (w.fragmentBuffer.drop tip) opCode) with
      | (true, w) => (true, w)
      | (false, w) => (false, { w with
          fragmentBuffer := w.fragmentBuffer.take tip
          controlTipLength := 0 })
    else (false, w)

def impl : Impl WebSocket where
  setCompressed := setCompressed
  refusePayloadLength n _ := refusePayloadLength G n
  forceClose := forceClose
  handleFragment := handleFragment G
  ended w := w.channel.ended

/-- A WebSocket that has just been made. -/
def new (perMessageDeflate : Bool) : WebSocketState × WebSocket :=
  ({}, { compressionStatus := if perMessageDeflate then .ENABLED else .DISABLED })

end WebSocket

/-! ### When it is over -/

namespace Channel

variable {ch : Channel} {G : Group} {data : List Byte} {opCode : Byte}

@[simp] theorem record_ended (ch : Channel) (e : Event) : (ch.record e).ended = ch.ended := rfl

@[simp] theorem record_closed (ch : Channel) (e : Event) : (ch.record e).closed = ch.closed := rfl

@[simp] theorem record_trace (ch : Channel) (e : Event) : (ch.record e).trace = ch.trace ++ [e] :=
  rfl

@[simp] theorem send_ended (op : OpCode) (ch : Channel) :
    (ch.send data op).ended = ch.ended := by
  rw [send]
  split <;> rfl

@[simp] theorem terminate_ended (ch : Channel) : ch.terminate.ended = true := by
  rw [terminate]
  split
  · next h => rw [ended, h, Bool.true_or]
  · rfl

@[simp] theorem close_ended (code : Nat) (message : List Byte) (ch : Channel) :
    (ch.close code message).ended = true := by
  rw [close, send_ended, ended, Bool.or_true]

/-- What is over stays so. -/
theorem call_ended (h : ch.ended = true) (c : Call) : (ch.call c).ended = true := by
  cases c with
  | send message opCode => exact (send_ended opCode ch).trans h
  | close code message => exact close_ended code message ch
  | terminate => exact terminate_ended ch

theorem message_fst (G : Group) (data : List Byte) (opCode : Byte) (ch : Channel) :
    (ch.message G data opCode).1 = (ch.message G data opCode).2.ended := by
  rw [message]
  split
  · exact (terminate_ended ch).symm
  · rfl

theorem arrive_of_lt (hop : opCode < 3) : ch.arrive G data opCode = ch.message G data opCode :=
  if_pos hop

theorem arrive_of_ge (hop : ¬ opCode < 3) : ch.arrive G data opCode = ch.control G data opCode :=
  if_neg hop

theorem control_fst (G : Group) (data : List Byte) (opCode : Byte) (h : ch.ended = false) :
    (ch.control G data opCode).1 = (ch.control G data opCode).2.ended := by
  rw [control]
  split
  · exact (close_ended _ _ ch).symm
  split
  · rfl
  split
  · rfl
  · exact h.symm

/-- The answer says whether it is over. -/
theorem arrive_fst (G : Group) (data : List Byte) (opCode : Byte) (h : ch.ended = false) :
    (ch.arrive G data opCode).1 = (ch.arrive G data opCode).2.ended := by
  rw [arrive]
  split
  · exact message_fst G data opCode ch
  · exact control_fst G data opCode h

end Channel

/-! ### Payloads in pieces -/

namespace WebSocket

/-- Between two frames; a message may have begun. -/
structure Ready (w : WebSocket) : Prop where
  ended : w.channel.ended = false
  disabled : w.compressionStatus = .DISABLED
  noTip : w.controlTipLength = 0

/-- In a frame of which `n` bytes are missing. -/
structure Within (op : Byte) (fin : Bool) (n : Nat) (w : WebSocket) : Prop where
  ended : w.channel.ended = false
  disabled : w.compressionStatus = .DISABLED
  noTip : op < 3 → w.controlTipLength = 0
  control : ¬ op < 3 → fin = true ∧ w.controlTipLength + n ≤ 125 ∧
    w.controlTipLength ≤ w.fragmentBuffer.length

variable {G : Group} {op : Byte} {fin : Bool} {n : Nat} {w : WebSocket} {d e : List Byte}

theorem message_disabled (h : w.compressionStatus = .DISABLED) :
    w.message G d op = w.answer (w.channel.message G d op) := by
  rw [message, if_neg (by rw [h]; decide)]

/-- A piece that is not the last of its frame is put by. -/
theorem handleFragment_more (hn : 0 < n) :
    w.handleFragment G d n op fin = (false, { w with
      fragmentBuffer := w.fragmentBuffer ++ d
      controlTipLength := if op < 3 then w.controlTipLength
        else (w.controlTipLength + d.length) % 256 }) := by
  have hn' : n ≠ 0 := by omega
  rw [handleFragment]
  simp only [hn', false_and, if_false]
  split <;> rfl

/-- The last piece of a frame that does not complete its message. -/
theorem handleFragment_part (hop : op < 3) :
    w.handleFragment G d 0 op false =
      (false, { w with fragmentBuffer := w.fragmentBuffer ++ d }) := by
  simp [handleFragment, hop]

/-- The last piece of a message. -/
theorem handleFragment_message (hop : op < 3) (hd : w.compressionStatus = .DISABLED) :
    Agree channel (w.handleFragment G d 0 op true)
      ({ w with fragmentBuffer := [] }.answer
        (w.channel.message G (w.fragmentBuffer ++ d) op)) := by
  rw [handleFragment, if_pos hop]
  by_cases hb : w.fragmentBuffer = []
  · rw [if_pos ⟨rfl, rfl, hb⟩, message_disabled hd, hb, List.nil_append]
    exact ⟨rfl, rfl, fun _ => by rw [answer, answer, ← hb]⟩
  · rw [if_neg (fun h => hb h.2.2)]
    simp only [true_and, if_true]
    rw [message_disabled (by exact hd)]
    rcases w.channel.message G (w.fragmentBuffer ++ d) op with ⟨_ | _, ch⟩
    · exact ⟨rfl, rfl, fun _ => rfl⟩
    · exact ⟨rfl, rfl, nofun⟩

/-- The last piece of a control frame; what has been put by of it is `tip`. -/
theorem handleFragment_control {buffer tip : List Byte} (hop : ¬ op < 3)
    (hb : w.fragmentBuffer = buffer ++ tip) (ht : w.controlTipLength = tip.length)
    (hl : tip.length + d.length < 256) :
    Agree channel (w.handleFragment G d 0 op true)
      ({ w with fragmentBuffer := buffer, controlTipLength := 0 }.answer
        (w.channel.control G (tip ++ d) op)) := by
  rw [handleFragment, if_neg hop]
  by_cases h0 : w.controlTipLength = 0
  · obtain rfl : tip = [] := List.eq_nil_of_length_eq_zero (ht ▸ h0)
    rw [if_pos ⟨rfl, rfl, h0⟩, List.nil_append]
    rw [List.append_nil] at hb
    exact ⟨rfl, rfl, fun _ => by rw [answer, answer, ← hb, ← h0]⟩
  · rw [if_neg (fun h => h0 h.2.2)]
    have hcut : (w.fragmentBuffer ++ d).length - (w.controlTipLength + d.length) % 256 =
        buffer.length := by
      rw [ht, Nat.mod_eq_of_lt hl, hb]
      simp only [List.length_append]
      omega
    simp only [true_and, if_true, hcut]
    rw [hb, List.append_assoc, List.drop_left]
    simp only [answer]
    rcases w.channel.control G (tip ++ d) op with ⟨_ | _, ch⟩
    · exact ⟨rfl, rfl, fun _ => by simp only [List.take_left]⟩
    · exact ⟨rfl, rfl, nofun⟩

/-- In a data frame it makes no difference where its payload was cut. -/
theorem split_data (hop : op < 3) (hd : w.compressionStatus = .DISABLED)
    (he : 0 < e.length + n) :
    Agree channel
      ((w.handleFragment G d (e.length + n) op fin).2.handleFragment G e n op fin)
      (w.handleFragment G (d ++ e) n op fin) := by
  rw [handleFragment_more he]
  rcases Nat.eq_zero_or_pos n with rfl | hn
  · cases fin with
    | false =>
        rw [handleFragment_part hop, handleFragment_part hop, List.append_assoc, if_pos hop]
        exact ⟨rfl, rfl, fun _ => rfl⟩
    | true =>
        have hpieces := handleFragment_message (G := G) (d := e)
          (w := { w with fragmentBuffer := w.fragmentBuffer ++ d }) hop hd
        have hwhole := handleFragment_message (G := G) (d := d ++ e) hop hd
        simp only [if_pos hop]
        rw [List.append_assoc] at hpieces
        exact hpieces.trans hwhole.symm
  · rw [handleFragment_more hn, handleFragment_more hn, List.append_assoc]
    simp only [if_pos hop]
    exact ⟨rfl, rfl, fun _ => rfl⟩

/-- Nor in a control frame; what has been put by of it before is `tip`. -/
theorem split_control {buffer tip : List Byte} (hop : ¬ op < 3)
    (hb : w.fragmentBuffer = buffer ++ tip) (ht : w.controlTipLength = tip.length)
    (hl : tip.length + (d.length + (e.length + n)) < 256) (he : 0 < e.length + n) :
    Agree channel
      ((w.handleFragment G d (e.length + n) op true).2.handleFragment G e n op true)
      (w.handleFragment G (d ++ e) n op true) := by
  rw [handleFragment_more he]
  have hlen : (w.controlTipLength + d.length) % 256 = (tip ++ d).length := by
    rw [ht, List.length_append]
    exact Nat.mod_eq_of_lt (by omega)
  rcases Nat.eq_zero_or_pos n with rfl | hn
  · have hbuffer : w.fragmentBuffer ++ d = buffer ++ (tip ++ d) := by rw [hb, List.append_assoc]
    refine (handleFragment_control hop hbuffer ?_ ?_).trans ?_
    · rw [if_neg hop, hlen]
    · rw [List.length_append]
      omega
    · rw [List.append_assoc]
      refine (handleFragment_control hop hb ht ?_).symm
      rw [List.length_append]
      omega
  · rw [handleFragment_more hn, handleFragment_more hn, List.append_assoc]
    simp only [if_neg hop, List.length_append, Nat.mod_add_mod, Nat.add_assoc]
    exact ⟨rfl, rfl, fun _ => rfl⟩

theorem not_lt_three (h : ¬ op < 3) : 2 < op := by
  rw [UInt8.lt_iff_toNat_lt] at h ⊢
  exact Nat.lt_of_not_le fun h' => h (Nat.lt_succ_of_le h')

/-- What is at the end of the buffer of a control frame. -/
theorem Within.tip (h : w.Within op fin n) (hop : ¬ op < 3) : ∃ buffer tip,
    w.fragmentBuffer = buffer ++ tip ∧ w.controlTipLength = tip.length ∧
      tip.length + n ≤ 125 := by
  obtain ⟨-, hle, hbuf⟩ := h.control hop
  refine ⟨w.fragmentBuffer.take (w.fragmentBuffer.length - w.controlTipLength),
    w.fragmentBuffer.drop (w.fragmentBuffer.length - w.controlTipLength),
    (List.take_append_drop _ _).symm, ?_, ?_⟩
  · rw [List.length_drop]
    omega
  · rw [List.length_drop]
    omega

theorem Ready.within (h : w.Ready) (hop : ¬ op < 3 → fin = true ∧ n ≤ 125) :
    w.Within op fin n where
  ended := h.ended
  disabled := h.disabled
  noTip := fun _ => h.noTip
  control := fun hop' => by
    rw [h.noTip, Nat.zero_add]
    exact ⟨(hop hop').1, (hop hop').2, Nat.zero_le _⟩

theorem Within.more (h : w.Within op fin (d.length + n)) (hn : 0 < n) :
    (w.handleFragment G d n op fin).2.Within op fin n := by
  rw [handleFragment_more hn]
  refine ⟨h.ended, h.disabled, fun hop => ?_, fun hop => ?_⟩
  · rw [if_pos hop]
    exact h.noTip hop
  · obtain ⟨hfin, hle, hbuf⟩ := h.control hop
    dsimp only
    rw [if_neg hop, Nat.mod_eq_of_lt (by omega), List.length_append]
    exact ⟨hfin, by omega, by omega⟩

/-- A frame of which everything is there: whether it is over, and where it leaves the buffers. -/
theorem Within.last (h : w.Within op fin d.length) :
    ((w.handleFragment G d 0 op fin).1 = false → (w.handleFragment G d 0 op fin).2.Ready) ∧
      ((w.handleFragment G d 0 op fin).1 = true →
        (w.handleFragment G d 0 op fin).2.channel.ended = true) := by
  by_cases hop : op < 3
  · cases fin with
    | false =>
        rw [handleFragment_part hop]
        exact ⟨fun _ => ⟨h.ended, h.disabled, h.noTip hop⟩, nofun⟩
    | true =>
        obtain ⟨hstop, hobs, hgo⟩ := handleFragment_message (G := G) (d := d) hop h.disabled
        have hend := Channel.message_fst G (w.fragmentBuffer ++ d) op w.channel
        refine ⟨fun hr => ?_, fun hr => ?_⟩
        · rw [hgo hr]
          exact ⟨hend.symm.trans (hstop.symm.trans hr), h.disabled, h.noTip hop⟩
        · rw [hobs]
          exact hend.symm.trans (hstop.symm.trans hr)
  · obtain ⟨buffer, tip, hb, ht, hle⟩ := h.tip hop
    obtain ⟨rfl, -, -⟩ := h.control hop
    obtain ⟨hstop, hobs, hgo⟩ := handleFragment_control (G := G) (d := d) hop hb ht (by omega)
    have hend := Channel.control_fst G (tip ++ d) op h.ended
    refine ⟨fun hr => ?_, fun hr => ?_⟩
    · rw [hgo hr]
      exact ⟨hend.symm.trans (hstop.symm.trans hr), h.disabled, rfl⟩
    · rw [hobs]
      exact hend.symm.trans (hstop.symm.trans hr)

theorem refusePayloadLength_bounded (h : refusePayloadLength G n = false) : n < 2 ^ 32 := by
  have hle : n ≤ G.maxPayload.toNat := by simpa [refusePayloadLength] using h
  exact Nat.lt_of_le_of_lt hle G.maxPayload.toNat_lt

/-- **A WebSocket without compression**: payloads given in pieces come to the same as payloads
given whole. -/
def steady (G : Group) : (impl G).Steady channel where
  Ready := Ready
  Within := fun op fin n w => w.Within op fin n
  ready_ended h := h.ended
  within_ended h := h.ended
  setCompressed h := if_neg (by rw [h.disabled]; decide)
  bounded h := refusePayloadLength_bounded h
  ended_forceClose _ := Channel.terminate_ended _
  enter h hop := h.within fun hop' => hop (not_lt_three hop')
  more d h hn := ⟨congrArg Prod.fst (handleFragment_more hn), h.more hn,
    congrArg (fun r => r.2.channel) (handleFragment_more hn)⟩
  ready d h hr := h.last.1 hr
  ended d h hr := h.last.2 hr
  split {op fin n w} d e h he := by
    by_cases hop : op < 3
    · exact split_data hop h.disabled he
    · obtain ⟨buffer, tip, hb, ht, hle⟩ := h.tip hop
      obtain ⟨rfl, -, -⟩ := h.control hop
      exact split_control hop hb ht (by omega) he

end WebSocket

end PBTransfor.Uws
