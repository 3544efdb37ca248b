import PBTransfor.Uws.Delivery
import PBTransfor.Uws.Socket

/-!
# Uws — two sides of a connection

A client and a server, each a WebSocket on a socket, and between them what the kernel carries: of
the bytes one side's kernel has taken, the other side receives the next ones, in chunks.  Chunks
arrive, programs call, sockets become writable and connections end in any order.

* `Link.Reaches.in_order`: at any time, what one side has been delivered are the first of the
  messages the socket of the other has accepted.
* `Link.Reaches.caught_up`: once everything is sent and has arrived, they are all of them.
-/

namespace PBTransfor.Uws

open Library

/-! ### Calls in the middle of a stream -/

section
variable {G : Group} {isServer : Bool} {q : Receiver WebSocket} {b : List Byte}

/-- The reader, when something is done to the channel. -/
def Receiver.withChannel (q : Receiver WebSocket) (ch : Channel) : Receiver WebSocket :=
  { q with finished := ch.ended, impl := { q.impl with channel := ch } }

/-- While a header is not complete, the state does not matter. -/
theorem step_header {q' : Receiver WebSocket} (hq : q.finished = false)
    (hn : q.step (WebSocket.impl G) isServer b = none) (hh : b.length < headerLength isServer b)
    : q'.step (WebSocket.impl G) isServer b = none := by
  rw [Receiver.step] at hn ⊢
  by_cases hshort : b.length < SHORT_MESSAGE_HEADER isServer
  · rw [if_pos (Or.inr hshort)]
  · by_cases hq' : q'.finished = true
    · rw [if_pos (Or.inl hq')]
    rw [if_neg (by rw [hq, not_or]; exact ⟨Bool.false_ne_true, hshort⟩)] at hn
    rw [if_neg (by rw [not_or]; exact ⟨hq', hshort⟩)]
    by_cases hmal : frameMalformed b = true
    · rw [if_pos hmal] at hn
      cases hn
    · rw [if_neg hmal, if_pos hh]

/-- What is put by of a payload does not depend on the channel. -/
theorem hand_withChannel {n : Nat} (hn : 0 < n) (ch : Channel) (data : List Byte) :
    ((q.withChannel ch).hand (WebSocket.impl G) b data n).2 =
      { (q.hand (WebSocket.impl G) b data n).2 with channel := ch } := by
  show (WebSocket.handleFragment G data n _ _ _).2 =
    { (WebSocket.handleFragment G data n _ _ _).2 with channel := ch }
  rw [WebSocket.handleFragment_more hn, WebSocket.handleFragment_more hn]
  rfl

/-- The reader is over when the connection is. -/
theorem reads_over_iff {k : WebSocketState × WebSocket}
    (h : Reads (WebSocket.steady G) isServer k (q, b)) :
    q.finished = true ↔ k.2.channel.ended = true := by
  cases h with
  | finished hq he _ => exact iff_of_true hq he
  | head hb => exact iff_of_false (by rw [hb.notOver]; decide) (by rw [hb.ready.ended]; decide)
  | body hin =>
      have hpart := (hin.entered.hand_missing (WebSocket.steady G) hin.ready hin.data
        hin.length_framePayload hin.missing).2.1
      exact iff_of_false (by rw [hin.notOver]; decide) (by rw [hpart.ended]; decide)

/-- **Something is done to the channel of a WebSocket**, between two chunks. -/
theorem reads_withChannel {k : WebSocketState × WebSocket}
    (h : Reads (WebSocket.steady G) isServer k (q, b)) {ch : Channel}
    (hlive : ch.ended = false → k.2.channel.ended = false) :
    Reads (WebSocket.steady G) isServer (k.1, { k.2 with channel := ch })
      (q.withChannel ch, b) := by
  by_cases hend : ch.ended = true
  · exact .finished hend hend rfl
  rw [Bool.not_eq_true] at hend
  cases h with
  | finished _ he _ => exact absurd ((hlive hend).symm.trans he) (by decide)
  | head hb hw hl hs hn hh =>
      have hb' : Between (WebSocket.steady G) _ (q.withChannel ch) :=
        { notOver := hend, ready := ⟨hend, hb.ready.disabled, hb.ready.noTip⟩,
          stack := hb.stack, lastFin := hb.lastFin, data := hb.data }
      exact .head hb' hw hl hs (step_header hb.notOver hn hh) hh
  | @body s _ _ hin =>
      have hin' : Inside (WebSocket.steady G) isServer s (q.withChannel ch) b :=
        { notOver := hend, ready := ⟨hend, hin.ready.disabled, hin.ready.noTip⟩,
          data := hin.data, entered := ⟨hin.entered.header, hin.entered.malformed,
            hin.entered.refuses⟩, wantsHead := hin.wantsHead, spillLength := hin.spillLength,
          stack := hin.stack, lastFin := hin.lastFin, remainingBytes := hin.remainingBytes,
          missing := hin.missing, mask := hin.mask }
      have hbody := Reads.body hin'
      rw [hand_withChannel hin.missing] at hbody
      exact hbody

end

/-! ### One side -/

/-- One side of a connection: a WebSocket, and its socket, whose callbacks shut it down.  `sent`
are the messages the socket has accepted, `got` how many bytes have arrived. -/
structure Endpoint where
  wState : WebSocketState := {}
  ws : WebSocket := {}
  socket : Socket Unit := {}
  sent : List Sent := []
  got : Nat := 0

namespace Endpoint

/-- What an event of the WebSocket does to the socket; the kernel's answer is to `::send`. -/
def perform (isServer : Bool) (event : Event) (mask : Mask) (answer : Answer) (e : Endpoint) :
    Endpoint :=
  match event with
  | .sent message opCode =>
      let x : Sent := ⟨mask, message, opCode⟩
      let callback := if opCode = .CLOSE then some () else none
      { e with
        socket := e.socket.step (.send ⟨x.bytes isServer, callback⟩ answer)
        sent := if e.socket.takes answer then e.sent ++ [x] else e.sent }
  | .closed => { e with socket := e.socket.step .onEnd }
  | _ => e

def performAll (isServer : Bool) : List Event → (Nat → Mask × Answer) → Endpoint → Endpoint
  | [], _, e => e
  | event :: events, oracle, e =>
      performAll isServer events (fun i => oracle (i + 1))
        (e.perform isServer event (oracle 0).1 (oracle 0).2)

/-- The WebSocket has become another; what it has done meanwhile is done. -/
def become (isServer : Bool) (oracle : Nat → Mask × Answer) (k : WebSocketState × WebSocket)
    (e : Endpoint) : Endpoint :=
  performAll isServer (k.2.channel.trace.drop e.ws.channel.trace.length) oracle
    { e with wState := k.1, ws := k.2 }

/-- What happens to one side: bytes arrive, its program calls, its socket becomes writable, or
the connection ends (also because the time of a close is over). -/
inductive Act where
  | receive (recv : Memory Byte × Nat)
  | call (c : Call)
  | writable (answers : Nat → Answer)
  | onEnd

/-- The masks and the kernel's answers of what is sent meanwhile are those of `oracle`. -/
def act (G : Group) (isServer : Bool) (recvBuffer : Nat) (oracle : Nat → Mask × Answer)
    (e : Endpoint) : Act → Endpoint
  | .receive recv =>
      { e with got := e.got + recv.2 }.become isServer oracle
        ((WebSocket.impl G).onData isServer recvBuffer (e.wState, e.ws) recv)
  | .call c => e.become isServer oracle (e.wState, { e.ws with channel := e.ws.channel.call c })
  | .writable answers =>
      let socket := e.socket.step (.writable answers)
      if socket.closed then
        { e with socket := socket }.become isServer oracle
          (e.wState, { e.ws with channel := e.ws.channel.terminate })
      else { e with socket := socket }
  | .onEnd =>
      e.become isServer oracle (e.wState, { e.ws with channel := e.ws.channel.terminate })

end Endpoint

/-- The two sides. -/
structure Link where
  client : Endpoint := {}
  server : Endpoint := {}

/-- What can happen to `e`: of what the kernel of the other side has taken, the next bytes
arrive. -/
def Endpoint.Allows (recvBuffer : Nat) (e other : Endpoint) : Endpoint.Act → Prop
  | .receive recv => received recvBuffer recv <+: other.socket.wire.drop e.got
  | .call c => c.Fits
  | _ => True

inductive Link.Step (Gc Gs : Group) (recvBuffer : Nat) : Link → Link → Prop where
  | client {l : Link} {a : Endpoint.Act} (oracle : Nat → Mask × Answer)
      (h : l.client.Allows recvBuffer l.server a) :
      Step Gc Gs recvBuffer l { l with client := l.client.act Gc false recvBuffer oracle a }
  | server {l : Link} {a : Endpoint.Act} (oracle : Nat → Mask × Answer)
      (h : l.server.Allows recvBuffer l.client a) :
      Step Gc Gs recvBuffer l { l with server := l.server.act Gs true recvBuffer oracle a }

/-- The states of a connection. -/
def Link.Reaches (Gc Gs : Group) (recvBuffer : Nat) (l : Link) : Prop :=
  Relation.ReflTransGen (Link.Step Gc Gs recvBuffer) {} l

/-! ### What one side keeps -/

/-- The messages a WebSocket has given to its socket. -/
def Event.sending : Event → List (List Byte × OpCode)
  | .sent m opCode => [(m, opCode)]
  | _ => []

def sending (trace : List Event) : List (List Byte × OpCode) := trace.flatMap Event.sending

namespace Endpoint

/-- What one side owes the other: the bytes its kernel has taken are the first of the messages its
socket has accepted, and these are, in order, messages the WebSocket has sent; `trace` is what the
WebSocket has done so far. -/
structure Sound (isServer : Bool) (e : Endpoint) (trace : List Event) : Prop where
  socket : e.socket.Orderly
  accepted : e.socket.accepted.map Message.data = e.sent.map (Sent.bytes isServer)
  fits : ∀ x ∈ e.sent, x.message.length < 2 ^ 64
  sent : (e.sent.map fun x => (x.message, x.opCode)).Sublist (sending trace)
  wState : e.wState.Sound isServer

/-- What has been sent, and taken, stays so. -/
structure Grows (e e' : Endpoint) : Prop where
  wire : e.socket.wire <+: e'.socket.wire
  sent : e.sent <+: e'.sent

theorem Grows.refl (e : Endpoint) : Grows e e := ⟨List.prefix_rfl, List.prefix_rfl⟩

theorem Grows.trans {e e' e'' : Endpoint} (h : Grows e e') (h' : Grows e' e'') : Grows e e'' :=
  ⟨h.wire.trans h'.wire, h.sent.trans h'.sent⟩

/-- The WebSocket, and what has arrived for it. -/
structure Same (e e' : Endpoint) : Prop where
  wState : e'.wState = e.wState
  ws : e'.ws = e.ws
  got : e'.got = e.got

section
variable {isServer : Bool} {e e' : Endpoint} {trace : List Event} {event : Event}

theorem Sound.wire (h : e.Sound isServer trace) : e.socket.wire <+: sentBytes isServer e.sent := by
  have hpre := h.socket.wire_le
  rwa [Socket.bytesOf, List.flatMap_def, h.accepted, ← List.flatMap_def] at hpre

/-- With nothing in the queue the kernel has taken everything. -/
theorem Sound.wire_eq (h : e.Sound isServer trace) (hopen : e.socket.closed = false)
    (hqueue : e.socket.messageQueue = []) : e.socket.wire = sentBytes isServer e.sent := by
  have hall := h.socket.wire_append_queue hopen
  rwa [hqueue, Socket.bytesOf, List.flatMap_nil, List.append_nil, Socket.bytesOf, List.flatMap_def,
    h.accepted, ← List.flatMap_def] at hall

theorem perform_spec (h : e.Sound isServer trace) (hfit : event.Fits) (mask : Mask)
    (answer : Answer) : (e.perform isServer event mask answer).Sound isServer (trace ++ [event]) ∧
      Grows e (e.perform isServer event mask answer) ∧
      Same e (e.perform isServer event mask answer) := by
  have hmore : ∀ xs : List (List Byte × OpCode),
      (e.sent.map fun x => (x.message, x.opCode)).Sublist (sending trace ++ xs) :=
    fun xs => h.sent.trans (List.sublist_append_left _ _)
  have hquiet : event.sending = [] → e.Sound isServer (trace ++ [event]) := by
    intro hno
    refine ⟨h.socket, h.accepted, h.fits, ?_, h.wState⟩
    rw [sending, List.flatMap_append, List.flatMap_singleton, hno, List.append_nil]
    exact h.sent
  cases event with
  | sent m opCode =>
      let x : Sent := ⟨mask, m, opCode⟩
      let y : Message Unit := ⟨x.bytes isServer, if opCode = .CLOSE then some () else none⟩
      obtain ⟨hwire, hacc⟩ := Socket.wire_step (s := e.socket) (.send y answer)
      have hsock := h.socket.step (.send y answer)
      show Sound isServer { e with
          socket := e.socket.step (.send y answer)
          sent := if e.socket.takes answer then e.sent ++ [x] else e.sent } _ ∧
        Grows e { e with
          socket := e.socket.step (.send y answer)
          sent := if e.socket.takes answer then e.sent ++ [x] else e.sent } ∧ _
      dsimp only at hacc
      have hsend : sending (trace ++ [.sent m opCode]) = sending trace ++ [(m, opCode)] := by
        rw [sending, List.flatMap_append, List.flatMap_singleton]
        rfl
      -- a message the kernel refuses is not accepted, and nothing of it is on the wire
      cases ht : e.socket.takes answer with
      | true =>
          simp only [ht, if_true] at hacc ⊢
          refine ⟨⟨hsock, ?_, ?_, ?_, h.wState⟩, ⟨hwire, List.prefix_append _ _⟩,
            ⟨rfl, rfl, rfl⟩⟩
          · rw [hacc, List.map_append, List.map_append, h.accepted]
            rfl
          · intro x' hx
            rw [List.mem_append, List.mem_singleton] at hx
            rcases hx with hx | rfl
            · exact h.fits x' hx
            · exact hfit
          · rw [List.map_append, hsend]
            exact h.sent.append (List.Sublist.refl _)
      | false =>
          simp only [ht, Bool.false_eq_true, if_false] at hacc ⊢
          refine ⟨⟨hsock, ?_, h.fits, ?_, h.wState⟩, ⟨hwire, List.prefix_rfl⟩, ⟨rfl, rfl, rfl⟩⟩
          · exact (congrArg (List.map Message.data) hacc).trans h.accepted
          · rw [hsend]
            exact hmore _
  | closed =>
      obtain ⟨hwire, hacc⟩ := Socket.wire_step (s := e.socket) .onEnd
      have hs := hquiet rfl
      exact ⟨⟨h.socket.step .onEnd, (congrArg (List.map Message.data) hacc).trans h.accepted,
        h.fits, hs.sent, h.wState⟩, ⟨hwire, List.prefix_rfl⟩, ⟨rfl, rfl, rfl⟩⟩
  | message data opCode => exact ⟨hquiet rfl, .refl e, ⟨rfl, rfl, rfl⟩⟩
  | ping data => exact ⟨hquiet rfl, .refl e, ⟨rfl, rfl, rfl⟩⟩
  | pong data => exact ⟨hquiet rfl, .refl e, ⟨rfl, rfl, rfl⟩⟩
  | disconnection code m => exact ⟨hquiet rfl, .refl e, ⟨rfl, rfl, rfl⟩⟩

theorem performAll_spec {events : List Event} (h : e.Sound isServer trace)
    (hfits : ∀ event ∈ events, event.Fits) (oracle : Nat → Mask × Answer) :
    (performAll isServer events oracle e).Sound isServer (trace ++ events) ∧
      Grows e (performAll isServer events oracle e) ∧
      Same e (performAll isServer events oracle e) := by
  induction events generalizing e trace oracle with
  | nil =>
      rw [List.append_nil]
      exact ⟨h, .refl e, ⟨rfl, rfl, rfl⟩⟩
  | cons event events ih =>
      rw [List.forall_mem_cons] at hfits
      obtain ⟨hs, hg, hsame⟩ := perform_spec h hfits.1 (oracle 0).1 (oracle 0).2
      obtain ⟨hs', hg', hsame'⟩ := ih hs hfits.2 fun i => oracle (i + 1)
      rw [List.append_assoc, List.singleton_append] at hs'
      exact ⟨hs', hg.trans hg', ⟨hsame'.wState.trans hsame.wState, hsame'.ws.trans hsame.ws,
        hsame'.got.trans hsame.got⟩⟩

theorem perform_ws (isServer : Bool) (event : Event) (mask : Mask) (answer : Answer)
    (e : Endpoint) : (e.perform isServer event mask answer).ws = e.ws := by
  cases event <;> rfl

theorem performAll_ws (isServer : Bool) (events : List Event) (oracle : Nat → Mask × Answer)
    (e : Endpoint) : (performAll isServer events oracle e).ws = e.ws := by
  induction events generalizing oracle e with
  | nil => rfl
  | cons event events ih => exact (ih _ _).trans (perform_ws isServer event _ _ e)

theorem become_ws (isServer : Bool) (oracle : Nat → Mask × Answer) (k : WebSocketState × WebSocket)
    (e : Endpoint) : (e.become isServer oracle k).ws = k.2 := performAll_ws isServer _ oracle _

/-- **A WebSocket becomes another**, and its socket follows. -/
theorem become_spec {k : WebSocketState × WebSocket} (h : e.Sound isServer e.ws.channel.trace)
    (hk : k.1.Sound isServer) (htr : e.ws.channel.trace <+: k.2.channel.trace)
    (hfits : k.2.channel.Fits) (oracle : Nat → Mask × Answer) :
    (e.become isServer oracle k).Sound isServer (e.become isServer oracle k).ws.channel.trace ∧
      Grows e (e.become isServer oracle k) ∧ (e.become isServer oracle k).wState = k.1 ∧
      (e.become isServer oracle k).ws = k.2 ∧ (e.become isServer oracle k).got = e.got := by
  obtain ⟨events, hevents⟩ := htr
  have hdrop : k.2.channel.trace.drop e.ws.channel.trace.length = events := by
    rw [← hevents, List.drop_left]
  have hk' : Sound isServer { e with wState := k.1, ws := k.2 } e.ws.channel.trace :=
    ⟨h.socket, h.accepted, h.fits, h.sent, hk⟩
  have hfits' : ∀ event ∈ events, event.Fits :=
    fun event hevent => hfits event (hevents ▸ List.mem_append_right _ hevent)
  obtain ⟨hs, hg, hsame⟩ := performAll_spec hk' hfits' oracle
  rw [hevents] at hs
  rw [become, hdrop]
  refine ⟨?_, ⟨hg.wire, hg.sent⟩, hsame.wState, hsame.ws, hsame.got⟩
  rw [hsame.ws]
  exact hs

end

/-! ### What one side reads of the other -/

/-- Of the messages the other side has sent, `e` has read the first, and it has the beginning of
the next. -/
structure Follows (G : Group) (isServer : Bool) (e other : Endpoint) : Prop where
  got : e.got ≤ other.socket.wire.length
  reads : ∃ q b n, Reads (WebSocket.steady G) isServer (e.wState, e.ws) (q, b) ∧
    Has isServer q b ((sentBytes (!isServer) other.sent).drop e.got) other.sent [] n

section
variable {G : Group} {isServer : Bool} {e e' other other' : Endpoint}

theorem Follows.congr (h : Follows G isServer e other) (hsame : Same e e') :
    Follows G isServer e' other where
  got := hsame.got ▸ h.got
  reads := by
    rw [hsame.wState, hsame.ws, hsame.got]
    exact h.reads

/-- The other side sends more. -/
theorem Follows.grows (h : Follows G isServer e other)
    (hwire : other.socket.wire <+: sentBytes (!isServer) other.sent) (hg : Grows other other') :
    Follows G isServer e other' where
  got := Nat.le_trans h.got hg.wire.length_le
  reads := by
    obtain ⟨q, b, n, hreads, hhas⟩ := h.reads
    obtain ⟨more, hmore⟩ := hg.sent
    have hle : e.got ≤ (sentBytes (!isServer) other.sent).length :=
      Nat.le_trans h.got hwire.length_le
    refine ⟨q, b, n, hreads, ?_⟩
    rw [← hmore]
    refine ⟨hhas.fits, ?_, ?_, ?_⟩
    · rw [List.length_append]
      exact Nat.le_add_right_of_le hhas.count
    · rw [List.take_append_of_le_length hhas.count]
      exact hhas.delivered
    · refine hhas.rest.imp_right fun hrest => ⟨hrest.1, ?_⟩
      rw [List.drop_append_of_le_length hhas.count, sentBytes_append, sentBytes_append,
        List.drop_append_of_le_length hle, ← List.append_assoc, hrest.2]

/-- **A chunk arrives.** -/
theorem Follows.receive {recvBuffer : Nat} (hG : G.Fits)
    (hpad : CONSUME_PRE_PADDING isServer ≤ recvBuffer) (h : Follows G isServer e other)
    (hwire : other.socket.wire <+: sentBytes (!isServer) other.sent)
    (hfits : ∀ x ∈ other.sent, x.message.length < 2 ^ 64) {recv : Memory Byte × Nat}
    (hrecv : received recvBuffer recv <+: other.socket.wire.drop e.got) :
    Follows G isServer { e with
      got := e.got + recv.2
      wState := ((WebSocket.impl G).onData isServer recvBuffer (e.wState, e.ws) recv).1
      ws := ((WebSocket.impl G).onData isServer recvBuffer (e.wState, e.ws) recv).2 } other where
  got := by
    have hle := hrecv.length_le
    have hgot := h.got
    rw [received, length_read, List.length_drop] at hle
    dsimp only
    omega
  reads := by
    obtain ⟨q, b, n, hreads, hhas⟩ := h.reads
    have hreads' := onData_refines (WebSocket.steady G) hpad (e.wState, e.ws) (q, b) recv hreads
    -- what has not arrived begins with the chunk
    have hchunk : (sentBytes (!isServer) other.sent).drop e.got =
        received recvBuffer recv ++ (sentBytes (!isServer) other.sent).drop (e.got + recv.2) := by
      obtain ⟨u, hu⟩ := hwire
      obtain ⟨v, hv⟩ := hrecv
      have hlen : (received recvBuffer recv).length = recv.2 := length_read _ _ _
      rw [← List.drop_drop, ← hu, List.drop_append_of_le_length h.got, ← hv, List.append_assoc,
        List.drop_left' hlen]
    rcases hhas.rest with hover | ⟨hamid, hrest⟩
    · rw [feed, drain_over hover] at hreads'
      exact ⟨q, _, n, hreads', hhas.fits, hhas.count, hhas.delivered, Or.inl hover⟩
    · rw [hchunk, ← List.append_assoc] at hrest
      obtain ⟨n', hn'⟩ := drain_sent hG hamid hhas.fits
        (fun x hx => hfits x (List.mem_of_mem_drop hx)) hrest
      have hrest' := hn'.rest
      rw [List.drop_drop] at hrest'
      refine ⟨(drain (Receiver.step (WebSocket.impl G) isServer) q
        (b ++ received recvBuffer recv)).1, _, n + n', hreads', hn'.fits, ?_, ?_, hrest'⟩
      · have hcount := hn'.count
        have hle := hhas.count
        rw [List.length_drop] at hcount
        omega
      · rw [hn'.delivered, hhas.delivered, List.nil_append, List.take_add, List.map_append]
        rfl

/-- **Something is done to the channel.** -/
theorem Follows.withChannel (h : Follows G isServer e other) {ch : Channel}
    (hq : Channel.Quiet e.ws.channel ch) (hlive : ch.ended = false → e.ws.channel.ended = false) :
    Follows G isServer { e with ws := { e.ws with channel := ch } } other where
  got := h.got
  reads := by
    obtain ⟨q, b, n, hreads, hhas⟩ := h.reads
    have hch : e.ws.channel = q.impl.channel := WebSocket.reads_channel hreads
    rw [hch] at hq
    refine ⟨_, b, n, reads_withChannel hreads hlive, hq.fits hhas.fits, hhas.count,
      hq.delivered.trans hhas.delivered, ?_⟩
    rcases hhas.rest with hover | ⟨hamid, hrest⟩
    · refine Or.inl (Bool.eq_true_of_not_eq_false fun hend => ?_)
      exact absurd ((hlive hend).symm.trans ((reads_over_iff hreads).mp hover)) (by decide)
    · cases hend : ch.ended with
      | true => exact Or.inl hend
      | false =>
          have hamid' : WebSocket.Amid none (q.withChannel ch) :=
            { notOver := hend
              ready := ⟨hend, hamid.ready.disabled, hamid.ready.noTip⟩
              opCodes := hamid.opCodes
              buffer := hamid.buffer
              lastFin := hamid.lastFin
              data := hamid.data }
          exact Or.inr ⟨hamid', hrest⟩

theorem follows_new (other : Endpoint) (ho : other.sent = []) :
    Follows G isServer {} other where
  got := Nat.zero_le _
  reads := by
    refine ⟨WebSocket.reader, [], 0, WebSocket.reads_new, nofun, Nat.zero_le _, rfl,
      Or.inr ⟨?_, ?_⟩⟩
    · exact { notOver := rfl, ready := ⟨rfl, rfl, rfl⟩, opCodes := rfl, buffer := rfl,
              lastFin := fun _ => rfl, data := nofun }
    · rw [ho]
      rfl

/-- **What happens to one side** keeps what it owes, and what it has read of the other. -/
theorem act_spec {recvBuffer : Nat} (hG : G.Fits) (hpad : CONSUME_PRE_PADDING isServer ≤ recvBuffer)
    (hs : e.Sound isServer e.ws.channel.trace) (hf : Follows G isServer e other)
    (hother : other.Sound (!isServer) other.ws.channel.trace) {a : Act}
    (ha : e.Allows recvBuffer other a) (oracle : Nat → Mask × Answer) :
    (e.act G isServer recvBuffer oracle a).Sound isServer
        (e.act G isServer recvBuffer oracle a).ws.channel.trace ∧
      Grows e (e.act G isServer recvBuffer oracle a) ∧
      Follows G isServer (e.act G isServer recvBuffer oracle a) other := by
  -- it is enough to know what the WebSocket becomes
  have hbecome : ∀ (e₁ : Endpoint) (k : WebSocketState × WebSocket),
      e₁.Sound isServer e₁.ws.channel.trace → Grows e e₁ → k.1.Sound isServer →
      e₁.ws.channel.trace <+: k.2.channel.trace →
      Follows G isServer { e₁ with wState := k.1, ws := k.2 } other →
      (e₁.become isServer oracle k).Sound isServer (e₁.become isServer oracle k).ws.channel.trace ∧
        Grows e (e₁.become isServer oracle k) ∧
        Follows G isServer (e₁.become isServer oracle k) other := by
    intro e₁ k hs₁ hg₁ hk htr hf₁
    obtain ⟨q, b, n, hreads, hhas⟩ := hf₁.reads
    have hch : k.2.channel = q.impl.channel := WebSocket.reads_channel hreads
    obtain ⟨hs', hg', hw, hws, hgot⟩ := become_spec hs₁ hk htr (hch ▸ hhas.fits) oracle
    exact ⟨hs', hg₁.trans hg', hf₁.congr ⟨hw, hws, hgot⟩⟩
  have hcall : ∀ (e₁ : Endpoint) (ch : Channel), e₁.Sound isServer e₁.ws.channel.trace →
      Grows e e₁ → Same e e₁ → Channel.Quiet e.ws.channel ch →
      e.ws.channel.trace <+: ch.trace → (ch.ended = false → e.ws.channel.ended = false) →
      (e₁.become isServer oracle (e₁.wState, { e₁.ws with channel := ch })).Sound isServer
          (e₁.become isServer oracle (e₁.wState, { e₁.ws with channel := ch })).ws.channel.trace ∧
        Grows e (e₁.become isServer oracle (e₁.wState, { e₁.ws with channel := ch })) ∧
        Follows G isServer
          (e₁.become isServer oracle (e₁.wState, { e₁.ws with channel := ch })) other := by
    intro e₁ ch hs₁ hg₁ hsame hq htr hlive
    have hf₁ := hf.congr hsame
    rw [← hsame.ws] at hq htr hlive
    exact hbecome e₁ _ hs₁ hg₁ hs₁.wState htr (hf₁.withChannel hq hlive)
  cases a with
  | receive recv =>
      have hkeeps : (WebSocket.impl G).Keeps fun w => e.ws.channel.trace <+: w.channel.trace :=
        WebSocket.keeps (Q := fun ch => e.ws.channel.trace <+: ch.trace)
          (fun h _ => h.trans (Channel.trace_terminate _))
          (fun data op h _ => h.trans (Channel.trace_arrive G op _))
      have hk := WebSocket.onData_keeps hkeeps hpad (k := (e.wState, e.ws)) hs.wState
        List.prefix_rfl recv
      exact hbecome { e with got := e.got + recv.2 } _
        ⟨hs.socket, hs.accepted, hs.fits, hs.sent, hs.wState⟩ ⟨List.prefix_rfl, List.prefix_rfl⟩
        hk.1 hk.2 (hf.receive hG hpad hother.wire hother.fits ha)
  | call c =>
      refine hcall e _ hs (.refl e) ⟨rfl, rfl, rfl⟩ (Channel.quiet_call ha _)
        (Channel.trace_call c _) fun hend => ?_
      by_contra hno
      exact absurd (Channel.call_ended (Bool.eq_true_of_not_eq_false hno) c) (by rw [hend]; decide)
  | writable answers =>
      obtain ⟨hwire, hacc⟩ := Socket.wire_step (s := e.socket) (.writable answers)
      have hs₁ : ({ e with socket := e.socket.step (.writable answers) } : Endpoint).Sound isServer
          e.ws.channel.trace :=
        ⟨hs.socket.step (.writable answers),
          (congrArg (List.map Message.data) hacc).trans hs.accepted, hs.fits, hs.sent, hs.wState⟩
      have hg₁ : Grows e { e with socket := e.socket.step (.writable answers) } :=
        ⟨hwire, List.prefix_rfl⟩
      simp only [act]
      split
      · exact hcall { e with socket := e.socket.step (.writable answers) } _ hs₁ hg₁
          ⟨rfl, rfl, rfl⟩ (Channel.quiet_terminate _) (Channel.trace_terminate _) fun hend =>
            absurd ((Channel.terminate_ended _).symm.trans hend) (by decide)
      · exact ⟨hs₁, hg₁, hf.congr ⟨rfl, rfl, rfl⟩⟩
  | onEnd =>
      exact hcall e _ hs (.refl e) ⟨rfl, rfl, rfl⟩ (Channel.quiet_terminate _)
        (Channel.trace_terminate _) fun hend =>
          absurd ((Channel.terminate_ended _).symm.trans hend) (by decide)

/-- What happens to an endpoint happens to its channel: something arrives, or is called, or it
ends. -/
theorem act_keeps {recvBuffer : Nat} {Q : Channel → Prop}
    (hpad : CONSUME_PRE_PADDING isServer ≤ recvBuffer) (hs : e.wState.Sound isServer)
    (h : Q e.ws.channel) (hterminate : ∀ {ch}, Q ch → Q ch.terminate)
    (harrive : ∀ {ch} (data op), Q ch → ch.ended = false → Q (ch.arrive G data op).2) {a : Act}
    (hcall : ∀ c, a = .call c → Q (e.ws.channel.call c)) (oracle : Nat → Mask × Answer) :
    Q (e.act G isServer recvBuffer oracle a).ws.channel := by
  cases a with
  | receive recv =>
      rw [act, become_ws]
      exact (WebSocket.onData_keeps (WebSocket.keeps (fun h _ => hterminate h) harrive) hpad
        (k := (e.wState, e.ws)) hs h recv).2
  | call c =>
      rw [act, become_ws]
      exact hcall c rfl
  | writable answers =>
      simp only [act]
      split
      · rw [become_ws]
        exact hterminate h
      · exact h
  | onEnd =>
      rw [act, become_ws]
      exact hterminate h

theorem lawful_act {recvBuffer : Nat} (hpad : CONSUME_PRE_PADDING isServer ≤ recvBuffer)
    (hs : e.wState.Sound isServer) (h : e.ws.channel.Lawful) (a : Act)
    (oracle : Nat → Mask × Answer) : (e.act G isServer recvBuffer oracle a).ws.channel.Lawful :=
  act_keeps hpad hs h (fun h => h.terminate) (fun _ _ h hl => h.arrive hl) (fun c _ => h.call c)
    oracle

/-- What `e` has been delivered are the first messages the other side has sent. -/
theorem Follows.delivered_le (h : Follows G isServer e other) :
    Uws.delivered e.ws.channel.trace <+: other.sent.map Sent.delivery := by
  obtain ⟨q, b, n, hreads, hhas⟩ := h.reads
  have hch : e.ws.channel = q.impl.channel := WebSocket.reads_channel hreads
  rw [hch, hhas.delivered, List.nil_append]
  exact (List.take_prefix n _).map _

/-- Nothing is on its way, so that nothing is missing. -/
theorem Follows.delivered_eq (hG : G.Fits) (h : Follows G isServer e other)
    (hfits : ∀ x ∈ other.sent, x.message.length < 2 ^ 64)
    (hall : (sentBytes (!isServer) other.sent).length ≤ e.got)
    (hlive : e.ws.channel.ended = false) :
    Uws.delivered e.ws.channel.trace = other.sent.map Sent.delivery := by
  obtain ⟨q, b, n, hreads, hhas⟩ := h.reads
  have hch : e.ws.channel = q.impl.channel := WebSocket.reads_channel hreads
  rcases hhas.rest with hover | ⟨hamid, hrest⟩
  · exact absurd (((reads_over_iff hreads).mp hover).symm.trans hlive) (by decide)
  rw [List.drop_eq_nil_of_le hall, List.append_nil] at hrest
  have hdone : other.sent.drop n = [] := by
    -- a message that is left would be there as a whole
    cases hleft : other.sent.drop n with
    | nil => rfl
    | cons x xs =>
        have hx : x.message.length < 2 ^ 64 :=
          hfits x (List.mem_of_mem_drop (hleft ▸ List.mem_cons_self))
        obtain ⟨q', rest', hstep, -⟩ :=
          step_sent isServer hG hamid hx (sentBytes (!isServer) xs)
        rw [hleft, sentBytes, List.flatMap_cons, ← sentBytes] at hrest
        rw [← hrest, hreads.step_eq_none] at hstep
        cases hstep
  have hn : other.sent.take n = other.sent := by
    have htake := List.take_append_drop n other.sent
    rwa [hdone, List.append_nil] at htake
  rw [hch, hhas.delivered, hn, List.nil_append]

/-- What `e` has sent has arrived at `other`, which has not ended. -/
structure Settled (e other : Endpoint) : Prop where
  isOpen : e.socket.closed = false
  queue : e.socket.messageQueue = []
  got : other.got = e.socket.wire.length
  live : other.ws.channel.ended = false

theorem Settled.delivered_eq (hG : G.Fits) (h : Settled other e) (hf : Follows G isServer e other)
    (hother : other.Sound (!isServer) other.ws.channel.trace) :
    Uws.delivered e.ws.channel.trace = other.sent.map Sent.delivery := by
  refine hf.delivered_eq hG hother.fits ?_ h.live
  rw [h.got, hother.wire_eq h.isOpen h.queue]

end

end Endpoint

/-! ### Both sides -/

namespace Link

/-- What both sides owe, and what each has read of the other. -/
structure Sound (Gc Gs : Group) (l : Link) : Prop where
  client : l.client.Sound false l.client.ws.channel.trace
  server : l.server.Sound true l.server.ws.channel.trace
  toServer : Endpoint.Follows Gs true l.server l.client
  toClient : Endpoint.Follows Gc false l.client l.server

section
variable {Gc Gs : Group} {recvBuffer : Nat} {l l' : Link}

theorem sound_new (Gc Gs : Group) : Sound Gc Gs {} where
  client := ⟨.new, rfl, nofun, List.Sublist.refl _, WebSocket.sound_new false false⟩
  server := ⟨.new, rfl, nofun, List.Sublist.refl _, WebSocket.sound_new true false⟩
  toServer := Endpoint.follows_new _ rfl
  toClient := Endpoint.follows_new _ rfl

theorem Sound.step (hc : Gc.Fits) (hs : Gs.Fits) (hpad : CONSUME_PRE_PADDING true ≤ recvBuffer)
    (h : l.Sound Gc Gs) (hstep : Step Gc Gs recvBuffer l l') : l'.Sound Gc Gs := by
  have hpad' : CONSUME_PRE_PADDING false ≤ recvBuffer := Nat.le_trans (by decide) hpad
  cases hstep with
  | client oracle ha =>
      obtain ⟨hclient, hgrows, hfollows⟩ :=
        Endpoint.act_spec hc hpad' h.client h.toClient h.server ha oracle
      exact ⟨hclient, h.server, h.toServer.grows h.client.wire hgrows, hfollows⟩
  | server oracle ha =>
      obtain ⟨hserver, hgrows, hfollows⟩ :=
        Endpoint.act_spec hs hpad h.server h.toServer h.client ha oracle
      exact ⟨h.client, hserver, hfollows, h.toClient.grows h.server.wire hgrows⟩

/-- **Every state of a connection is sound.** -/
theorem Reaches.sound (hc : Gc.Fits) (hs : Gs.Fits) (hpad : CONSUME_PRE_PADDING true ≤ recvBuffer)
    (h : l.Reaches Gc Gs recvBuffer) : l.Sound Gc Gs := by
  induction h with
  | refl => exact sound_new Gc Gs
  | tail _ hstep ih => exact ih.step hc hs hpad hstep

end

/-! A greeting the client has sent, and of which the server has received the bytes. -/

def greeting : Link :=
  let client := Endpoint.act WebSocket.plainGroup false 13 (fun _ => (fun i => ⟨i⟩, .taken 100)) {}
    (.call (.send [104, 105] .TEXT))
  { client := client
    server := Endpoint.act WebSocket.plainGroup true 13 (fun _ => (fun _ => 0, .failed)) {}
      (.receive (WebSocket.chunkAt 13 client.socket.wire)) }

theorem reaches_greeting : greeting.Reaches WebSocket.plainGroup WebSocket.plainGroup 13 := by
  have hcall : Step WebSocket.plainGroup WebSocket.plainGroup 13 {}
      { greeting with server := {} } :=
    .client (a := .call (.send [104, 105] .TEXT)) (fun _ => (fun i => ⟨i⟩, .taken 100)) (by
      show 2 < 2 ^ 64
      decide)
  have hreceive : Step WebSocket.plainGroup WebSocket.plainGroup 13
      { greeting with server := {} } greeting :=
    .server (a := .receive (WebSocket.chunkAt 13 greeting.client.socket.wire))
      (fun _ => (fun _ => 0, .failed)) (by
        show received 13 _ <+: _
        decide)
  exact .tail (.tail .refl hcall) hreceive

theorem fits_plainGroup : WebSocket.plainGroup.Fits := nofun

end Link

end PBTransfor.Uws
