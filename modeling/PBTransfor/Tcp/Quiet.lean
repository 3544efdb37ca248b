import PBTransfor.Library.Program
import PBTransfor.Tcp.Runs

/-!
# Tcp — what each method comes to

With callbacks that return at once (`Virtuals.quiet`), each method is a finite case analysis:
`Dialed` for `do_connect`, `HungUp` for `disconnect`, `Received` for `do_recv`.  The packet loop
is described by its frame only: it changes the buffer, and delivers (`Delivers`).
-/

namespace PBTransfor.Tcp

open Library Library.Program

/-- The world with further events recorded. -/
def World.record (w : World) (es : List Event) : World := { w with trace := w.trace ++ es }

/-- The `CLOSE` with which `do_connect` and `disconnect` begin. -/
def World.closing (w : World) : List Event := if w.fd ≠ -1 then [.close w.fd] else []

section
variable (w : World) (es : List Event)

@[simp] theorem World.record_toTcpClient : (w.record es).toTcpClient = w.toTcpClient := rfl
@[simp] theorem World.record_trace : (w.record es).trace = w.trace ++ es := rfl

end

section
variable {f : List Byte → Int32} {fuel : Nat} {w : World}

/-- What holds of a `CLOSE` and of the events that follow. -/
theorem forall_mem_closing_append {P : Event → Prop} {es : List Event} (hc : P (.close w.fd))
    (hes : ∀ e ∈ es, P e) : ∀ e ∈ w.closing ++ es, P e := by
  simp only [World.closing]
  split
  · simpa using ⟨hc, hes⟩
  · exact hes

theorem emit_run (e : Event) : (emit e).run w = .ok () (w.record [e]) := rfl

/-! ### do_connect -/

/-- What `do_connect` comes to: no socket; no address to dial; the dial refused, the socket
closed and its number kept; the dial accepted. -/
inductive Dialed (w : World) (k : DialAnswer) : EStateM.Result Halt World Int → Prop where
  | noSocket (hs : k.socket = none) :
      Dialed w k (.ok (-1) ({ w with fd := -1 }.record (w.closing ++ [Event.socket (-1)])))
  | noHost (n : Nat) (hs : k.socket = some n) (hm : w.mHosts = []) :
      Dialed w k (.error .undefined ({ w with fd := n }.record (w.closing ++ [Event.socket n])))
  | refused (n : Nat) (addr : InAddr) (hosts : List InAddr) (hs : k.socket = some n)
      (hm : w.mHosts = addr :: hosts) (hc : k.connect = false) :
      Dialed w k (.ok (-1) ({ w with fd := n }.record
        (w.closing ++ [Event.socket n, .dial n addr w.mPort false, .close n])))
  | accepted (n : Nat) (addr : InAddr) (hosts : List InAddr) (hs : k.socket = some n)
      (hm : w.mHosts = addr :: hosts) (hc : k.connect = true) :
      Dialed w k (.ok 0 ({ w with fd := n, isConnected := true }.record
        (w.closing ++ [Event.socket n, .dial n addr w.mPort true, .onConnected])))

theorem natCast_ne_neg_one (n : Nat) : (n : Int) ≠ -1 := by omega

theorem doConnect_dialed (k : DialAnswer) :
    Dialed w k ((doConnect (.quiet f) k).run w) := by
  obtain ⟨s, c⟩ := k
  have run : ∀ r, (doConnect (.quiet f) ⟨s, c⟩).run w = r → Dialed w ⟨s, c⟩ r →
      Dialed w ⟨s, c⟩ ((doConnect (.quiet f) ⟨s, c⟩).run w) := fun r h hr => h ▸ hr
  cases s with
  | none =>
      refine run _ ?_ (.noSocket rfl)
      by_cases hfd : w.fd = -1 <;>
        simp [doConnect, World.closing, World.record, hfd, close, socket, emit]
  | some n =>
      cases hm : w.mHosts with
      | nil =>
          refine run _ ?_ (.noHost n rfl hm)
          by_cases hfd : w.fd = -1 <;>
            simp [doConnect, World.closing, World.record, hfd, hm, natCast_ne_neg_one, close,
              socket, emit]
      | cons addr hosts =>
          cases c with
          | false =>
              refine run _ ?_ (.refused n addr hosts rfl hm rfl)
              by_cases hfd : w.fd = -1 <;>
                simp [doConnect, World.closing, World.record, hfd, hm, natCast_ne_neg_one, close,
                  socket, dial, emit]
          | true =>
              refine run _ ?_ (.accepted n addr hosts rfl hm rfl)
              by_cases hfd : w.fd = -1 <;>
                simp [doConnect, World.closing, World.record, hfd, hm, natCast_ne_neg_one, close,
                  socket, dial, emit, fireConnected, Virtuals.quiet]

/-- What holds of all that `do_connect` records.  It dials the first of `m_hosts`. -/
theorem Dialed.recorded {P : Event → Prop} {k : DialAnswer} {r : EStateM.Result Halt World Int}
    (h : Dialed w k r) (hclose : ∀ fd, P (.close fd)) (hsocket : ∀ fd, P (.socket fd))
    (hdial : ∀ fd addr ok, w.mHosts.head? = some addr → P (.dial fd addr w.mPort ok))
    (hconn : P .onConnected) : ∃ es, (leaves r).trace = w.trace ++ es ∧ ∀ e ∈ es, P e := by
  have closing : ∀ es : List Event, (∀ e ∈ es, P e) → ∀ e ∈ w.closing ++ es, P e := fun _ =>
    forall_mem_closing_append (hclose _)
  cases h with
  | noSocket => exact ⟨_, rfl, closing _ (by simp [hsocket])⟩
  | noHost => exact ⟨_, rfl, closing _ (by simp [hsocket])⟩
  | refused _ _ _ _ hm => exact ⟨_, rfl, closing _ (by simp [hsocket, hclose, hdial, hm])⟩
  | accepted _ _ _ _ hm => exact ⟨_, rfl, closing _ (by simp [hsocket, hconn, hdial, hm])⟩

/-! ### connect -/

/-- The world once `connect` has its answer from the resolver, before it looks at the list. -/
def World.retarget (w : World) (pHost : String) (port : UInt16) (reconnect : Bool)
    (lookup : Option (List InAddr)) : World :=
  { w with mPort := port, mHost := pHost, isReconnect := reconnect }.record
    [.connect pHost port reconnect, .gethostbyname pHost lookup]

/-- What the loop over `h_addr_list` pushes: its first entry, once for each entry. -/
def pushed (hAddrList : List InAddr) : List InAddr :=
  (List.replicate hAddrList.length (hAddrList.take 1)).flatten

/-- The world once `connect` has filled `m_hosts`. -/
def World.aim (w : World) (pHost : String) (port : UInt16) (reconnect : Bool)
    (hAddrList : List InAddr) : World :=
  { w.retarget pHost port reconnect (some hAddrList) with mHosts := w.mHosts ++ pushed hAddrList }

theorem forM_push (xs : List InAddr) (l : List InAddr) : ∀ w : World,
    (forM l fun _ => (modify fun w => { w with mHosts := w.mHosts ++ xs } : Method Unit)).run w =
      .ok () { w with mHosts := w.mHosts ++ (List.replicate l.length xs).flatten } := by
  induction l with
  | nil => intro w; simp
  | cons a l ih =>
      intro w
      rw [List.forM_cons, EStateM.run_bind, EStateM.run_modify]
      simp only [ih, List.append_assoc, List.length_cons, List.replicate_succ, List.flatten_cons]

theorem pushHosts_run (l : List InAddr) :
    (pushHosts l).run w = .ok () { w with mHosts := w.mHosts ++ pushed l } :=
  forM_push (l.take 1) l w

theorem connect_failed (pHost : String) (port : UInt16) (reconnect : Bool) (k : DialAnswer) :
    (connect (.quiet f) pHost port reconnect none k).run w =
      .ok (-1) (w.retarget pHost port reconnect none) := by
  simp [connect, gethostbyname, emit, World.retarget, World.record]

theorem connect_running (pHost : String) (port : UInt16) (reconnect : Bool) (l : List InAddr)
    (k : DialAnswer) (hr : w.isRunning = true) :
    (connect (.quiet f) pHost port reconnect (some l) k).run w =
      .ok 0 (w.aim pHost port reconnect l) := by
  simp [connect, gethostbyname, emit, World.aim, World.retarget, World.record, pushHosts_run, hr]

theorem startThread_run :
    startThread.run w = if w.mRecvThread then .error .terminated (w.record [.spawn true])
      else .ok () ({ w with mRecvThread := true }.record [.spawn false]) := by
  cases h : w.mRecvThread <;> simp [startThread, emit, World.record, h]

/-- `connect` on a client that is not running: `do_connect`, then the receive thread. -/
theorem connect_starting (pHost : String) (port : UInt16) (reconnect : Bool) (l : List InAddr)
    (k : DialAnswer) (hr : w.isRunning = false) :
    (connect (.quiet f) pHost port reconnect (some l) k).run w =
      match (doConnect (.quiet f) k).run
          { w.aim pHost port reconnect l with isRunning := true } with
      | .ok ret w₁ =>
          if w₁.mRecvThread then .error .terminated (w₁.record [.spawn true])
          else .ok ret ({ w₁ with mRecvThread := true }.record [.spawn false])
      | .error h w₁ => .error h w₁ := by
  simp only [connect, gethostbyname, emit, World.aim, World.retarget, World.record, pushHosts_run,
    EStateM.run_bind, EStateM.run_modify, EStateM.run_get, EStateM.run_pure, hr, startThread_run,
    Bool.not_false, if_true, List.append_assoc, List.cons_append, List.nil_append]
  cases (doConnect (.quiet f) k).run _ with
  | error h w₁ => rfl
  | ok ret w₁ => cases hj : w₁.mRecvThread <;> simp [hj]

/-! ### disconnect and send -/

/-- The client once `disconnect` has closed its socket, if it had one. -/
def World.unplug (w : World) : World :=
  if w.fd = -1 then w else { w with fd := -1, isRunning := false }

theorem World.unplug_eq (w : World) :
    w.unplug = { w with fd := -1, isRunning := w.isRunning && decide (w.fd = -1) } := by
  rw [unplug]
  split
  case isTrue hfd => rw [decide_eq_true hfd, Bool.and_true, ← hfd]
  case isFalse hfd => rw [decide_eq_false hfd, Bool.and_false]

/-- The client after a `disconnect` that returned. -/
def World.shutDown (w : World) : World :=
  { w with fd := -1, isRunning := false, mRecvThread := false, isConnected := false }

/-- What a call of `disconnect` leaves in the trace before it joins. -/
def World.hangingUp (w : World) (self : Thread) (underWay : Option RoundAnswer) : List Event :=
  .disconnect self w.before underWay :: w.closing

/-- What a call of `disconnect` leaves in the trace when it returns. -/
def Event.hungUp : Event := .disconnected (-1) false false false

/-- What `disconnect` does once it has closed the socket. -/
def hangUp (self : Thread) (round : Method Unit) : Method Unit := do
  join self round
  modify fun w => { w with isConnected := false }
  let w ← get
  emit (.disconnected w.fd w.isRunning w.isConnected w.mRecvThread)

theorem hangUp_run (self : Thread) (round : Method Unit) :
    (hangUp self round).run w = match (join self round).run w with
      | .ok _ w₁ => .ok () ({ w₁ with isConnected := false }.record
          [.disconnected w₁.fd w₁.isRunning false w₁.mRecvThread])
      | .error h w₁ => .error h w₁ := by
  rw [hangUp, EStateM.run_bind]
  cases (join self round).run w <;> rfl

/-- The socket is closed. -/
theorem closing_run (rest : Method Unit) :
    (do
      modify fun w => { w with isRunning := false }
      close (← get).fd
      modify fun w => { w with fd := -1 }
      rest : Method Unit).run w =
    rest.run ({ w with fd := -1, isRunning := false }.record [.close w.fd]) := rfl

/-- `disconnect` closes the socket, joins, and then clears `is_connected`. -/
theorem disconnect_run (v : Virtuals) (fuel : Nat) (self : Thread)
    (underWay : Option RoundAnswer) :
    (disconnect v fuel self underWay).run w =
      (hangUp self (leftOver v fuel w.before.watched underWay)).run
        (w.unplug.record (w.hangingUp self underWay)) := by
  simp only [disconnect, EStateM.run_bind, EStateM.run_get, emit_run]
  by_cases hfd : w.fd = -1
  · have hkeep : ¬ (w.record [.disconnect self w.before underWay]).fd ≠ -1 := not_not_intro hfd
    have hplug : w.unplug.record (w.hangingUp self underWay) =
        w.record [.disconnect self w.before underWay] := by
      simp [World.unplug, World.hangingUp, World.closing, hfd]
    rw [hplug, if_neg hkeep]
    rfl
  · have hclose : (w.record [.disconnect self w.before underWay]).fd ≠ -1 := hfd
    have hplug : w.unplug.record (w.hangingUp self underWay) =
        { w with fd := -1, isRunning := false }.record
          [.disconnect self w.before underWay, .close w.fd] := by
      simp [World.unplug, World.hangingUp, World.closing, hfd]
    rw [hplug, if_pos hclose]
    refine (closing_run (hangUp self (leftOver v fuel w.before.watched underWay))).trans ?_
    simp only [World.record, List.append_assoc, List.cons_append, List.nil_append]

/-- What the owner's `disconnect` comes to: `join` raises; `join` waits for ever; the client is
shut down. -/
inductive HungUp (w : World) : EStateM.Result Halt World Unit → Prop where
  | raised (hj : w.mRecvThread = false) :
      HungUp w (.error .raised (w.unplug.record (w.hangingUp .owner none)))
  | blocked (hj : w.mRecvThread = true) (hfd : w.fd = -1) (hr : w.isRunning = true) :
      HungUp w (.error .blocked (w.record (w.hangingUp .owner none)))
  | done (hj : w.mRecvThread = true) (h : w.fd ≠ -1 ∨ w.isRunning = false) :
      HungUp w (.ok () (w.shutDown.record (w.hangingUp .owner none ++ [.hungUp])))

/-- What holds of all that a call of `disconnect` may record. -/
theorem forall_mem_hangingUp_append {P : Event → Prop} {self : Thread} {es : List Event}
    (hes : es = [] ∨ es = [.hungUp]) (hd : P (.disconnect self w.before none))
    (hc : P (.close w.fd)) (hh : P .hungUp) : ∀ e ∈ w.hangingUp self none ++ es, P e := by
  rw [World.hangingUp, List.cons_append, List.forall_mem_cons]
  refine ⟨hd, forall_mem_closing_append hc ?_⟩
  rcases hes with rfl | rfl
  · simp
  · simpa using hh

/-- However it ends, a call of `disconnect` is recorded, and its return if it returns. -/
theorem HungUp.trace {r : EStateM.Result Halt World Unit} (h : HungUp w r) :
    ∃ es, (leaves r).trace = w.trace ++ (w.hangingUp .owner none ++ es) ∧
      (es = [] ∨ es = [.hungUp]) := by
  cases h with
  | raised =>
      refine ⟨[], ?_, .inl rfl⟩
      rw [leaves_error, World.unplug_eq, List.append_nil]
      rfl
  | blocked => exact ⟨[], by simp, .inl rfl⟩
  | done => exact ⟨_, rfl, .inr rfl⟩

/-- `join`, of a thread that is in no round. -/
theorem join_run (self : Thread) :
    (join self (pure ())).run w =
      if w.mRecvThread = false ∨ self = .receiver then .error .raised w
      else if w.isRunning then .error .blocked w
      else .ok () { w with mRecvThread := false } := by
  simp only [join, EStateM.run_bind, EStateM.run_get]
  split
  · rfl
  · split
    · rfl
    · next hr => simp only [run_tryCatch, EStateM.run_pure, EStateM.run_bind, EStateM.run_get,
        if_neg hr, EStateM.run_modify]

theorem disconnect_hungUp (v : Virtuals) (fuel : Nat) :
    HungUp w ((disconnect v fuel .owner none).run w) := by
  rw [disconnect_run, hangUp_run, leftOver, join_run]
  cases hj : w.mRecvThread with
  | false =>
      have h := HungUp.raised hj
      by_cases hfd : w.fd = -1 <;> simpa [World.unplug, hfd, hj] using h
  | true =>
      by_cases hfd : w.fd = -1
      · cases hr : w.isRunning with
        | true => simpa [World.unplug, hfd, hj, hr] using HungUp.blocked hj hfd hr
        | false =>
            have h := HungUp.done hj (.inr hr)
            simpa [World.unplug, World.shutDown, World.record, Event.hungUp, hfd, hj, hr] using h
      · have h := HungUp.done hj (.inl hfd)
        simpa [World.unplug, World.shutDown, World.record, Event.hungUp, hfd, hj] using h

/-- The `int` that `::send` leaves in `ret`. -/
def sendRet (accepted : Option Nat) : Int :=
  match accepted with
  | some n => (n : Int).bmod (2 ^ 32)
  | none => -1

theorem send_idle (pData : List Byte) (accepted : Option Nat) (hc : w.isConnected = false) :
    (sendString (.quiet f) fuel pData accepted).run w = .ok (-1) w := by
  simp [sendString, send, hc]

theorem osSend_run (fd : Int) (pData : List Byte) (accepted : Option Nat) :
    (osSend fd pData accepted).run w =
      .ok (sendRet accepted) (w.record [.send fd pData accepted]) := rfl

theorem send_accepted (pData : List Byte) (accepted : Option Nat)
    (hc : w.isConnected = true) (hret : 0 < sendRet accepted) :
    (sendString (.quiet f) fuel pData accepted).run w =
      .ok (sendRet accepted) (w.record [.send w.fd (passed pData) accepted]) := by
  rw [passed]
  simp [sendString, send, hc, osSend_run, Int.not_le.mpr hret]

/-- A `::send` that did not take a byte: `on_disconnect`, then `disconnect`. -/
theorem send_failed (pData : List Byte) (accepted : Option Nat)
    (hc : w.isConnected = true) (hret : ¬ 0 < sendRet accepted) :
    (sendString (.quiet f) fuel pData accepted).run w =
      match (disconnect (.quiet f) fuel .owner none).run
          (w.record [.send w.fd (passed pData) accepted, .onDisconnect]) with
      | .ok _ w₁ => .ok (-1) w₁
      | .error h w₁ => .error h w₁ := by
  have h : ∀ pData, (fireDisconnect (.quiet f)).run (w.record [.send w.fd pData accepted]) =
      .ok () (w.record [.send w.fd pData accepted, .onDisconnect]) := by
    intro pData
    simp [fireDisconnect, Virtuals.quiet, emit, World.record]
  rw [passed]
  simp [sendString, send, hc, osSend_run, h, Int.not_lt.mp hret]
  cases (disconnect _ fuel .owner none).run _ <;> rfl

/-! ### do_recv -/

/-- The client with other contents of `recv_buf`. -/
def World.refill (w : World) (recvBuf : Buffer Byte maxRecvBuf) (recvBufPos : Nat) : World :=
  { w with recvBuf := recvBuf, recvBufPos := recvBufPos }

/-- `w'` differs from `w` in its buffer and in packets delivered. -/
def Delivers (w w' : World) : Prop :=
  ∃ recvBuf recvBufPos, ∃ pkts : List (List Byte),
    w' = (w.refill recvBuf recvBufPos).record (pkts.map .onRecv)

instance : IsPreorder World Delivers where
  refl w := ⟨w.recvBuf, w.recvBufPos, [], by simp [World.refill, World.record]⟩
  trans := by
    rintro w _ _ ⟨b, p, ps, rfl⟩ ⟨b', p', ps', rfl⟩
    exact ⟨b', p', ps ++ ps', by simp [World.refill, World.record]⟩

theorem delivers_refill (w : World) (b : Buffer Byte maxRecvBuf) (p : Nat) :
    Delivers w (w.refill b p) :=
  ⟨b, p, [], by simp [World.refill, World.record]⟩

end

/-! The packet loop changes the buffer and delivers packets: it keeps what these two keep. -/

section
variable {R : World → World → Prop} [IsPreorder World R] {v : Virtuals}
  (hrefill : ∀ (w : World) (recvBuf : Buffer Byte maxRecvBuf) (recvBufPos : Nat),
    R w (w.refill recvBuf recvBufPos))
  (hfire : ∀ pData, Within R (fireRecv v pData))

theorem within_loadAt (i len : Nat) : Within R (loadAt i len) :=
  .ite (.bind .get fun _ => .pure _) (.halt _)

include hrefill in
theorem within_storeAt (i : Nat) (xs : List Byte) : Within R (storeAt i xs) :=
  .ite (.modify fun w => hrefill w (w.recvBuf.write i xs) w.recvBufPos) (.halt _)

theorem within_readPacketAt (readPos : Nat) : Within R (readPacketAt v readPos) :=
  .bind .get fun _ => .bind (within_loadAt _ _) fun _ => .pure _

include hfire in
theorem within_deliver (readPos : Nat) (pkgLen : Int) : Within R (deliver v readPos pkgLen) :=
  .bind .get fun _ => .ite
    (.bind (within_loadAt _ _) fun _ => .bind (hfire _) fun _ => .pure _) (.pure _)

include hrefill in
theorem within_compact (readPos : Nat) : Within R (compact readPos) :=
  .bind .get fun _ => .bind (within_loadAt _ _) fun _ => .bind (within_storeAt hrefill _ _)
    fun _ => .bind (.modify fun w => hrefill w w.recvBuf (w.recvBufPos - readPos)) fun _ =>
      .bind .get fun _ => within_storeAt hrefill _ _

include hrefill hfire in
theorem within_packetLoop : ∀ (fuel readPos : Nat) (pkgLen : Int),
    Within R (packetLoop v fuel readPos pkgLen)
  | 0, _, _ => .halt _
  | fuel + 1, readPos, pkgLen => by
      simp only [packetLoop]
      refine .ite (.bind (within_deliver hfire _ _) fun readPos => .bind .get fun w => .ite ?_ ?_)
        (.pure _)
      · exact .bind (within_readPacketAt _) fun pkgLen =>
          .ite (within_compact hrefill _) (within_packetLoop fuel _ _)
      · exact .modify fun w => hrefill w w.recvBuf 0

end

section
variable {f : List Byte → Int32} {fuel : Nat} {w : World}

/-- Delivering to a callback that returns at once records the packet and nothing else. -/
theorem delivers_fireRecv (pData : List Byte) : Within Delivers (fireRecv (.quiet f) pData) :=
  .bind (.modify fun w => ⟨w.recvBuf, w.recvBufPos, [pData], rfl⟩) fun _ => .pure _

/-- What `recv` hands over: `none` for an error. -/
def RecvAnswer.bytes (k : RecvAnswer) (space : Nat) : Option (List Byte) :=
  match k with
  | .data bytes => some (bytes.take space)
  | .closed => some []
  | .error => none

/-- What `do_recv` comes to: the connection is lost; the bytes are taken in and the packets that
are complete delivered; or the call does not return. -/
inductive Received (w : World) (k : RecvAnswer) : EStateM.Result Halt World Int → Prop where
  | lost (hb : k.bytes w.space = none ∨ k.bytes w.space = some []) :
      Received w k (.ok (-1) ({ w with isConnected := false }.record
        [.recv w.fd w.space (k.bytes w.space), .onDisconnect]))
  | data (bytes : List Byte) (pkts : List (List Byte)) (recvBuf : Buffer Byte maxRecvBuf)
      (recvBufPos : Nat) (hb : k.bytes w.space = some bytes) (hne : bytes ≠ []) :
      Received w k (.ok 0 ((w.refill recvBuf recvBufPos).record
        (.recv w.fd w.space (some bytes) :: pkts.map .onRecv)))
  | halted (h : Halt) (bytes : List Byte) (pkts : List (List Byte))
      (recvBuf : Buffer Byte maxRecvBuf) (recvBufPos : Nat) (hb : k.bytes w.space = some bytes) :
      Received w k (.error h ((w.refill recvBuf recvBufPos).record
        (.recv w.fd w.space (some bytes) :: pkts.map .onRecv)))
  | overrun (hb : maxRecvBuf < w.recvBufPos + w.space) : Received w k (.error .undefined w)

theorem fireDisconnect_run :
    (fireDisconnect (.quiet f)).run w = .ok () (w.record [.onDisconnect]) := by
  simp [fireDisconnect, Virtuals.quiet, emit, World.record]

/-- `do_recv` once `recv` has returned. -/
def afterRecv (v : Virtuals) (fuel : Nat) (recvLen : Int) : Method Int := do
  if recvLen ≤ 0 then
    modify fun w => { w with isConnected := false }
    fireDisconnect v
    return -1
  else
    modify fun w => { w with recvBufPos := uint32 (w.recvBufPos + recvLen) }
    let pkgLen ← readPacketAt v 0
    packetLoop v fuel 0 pkgLen
    return 0

theorem doRecv_eq (v : Virtuals) (k : RecvAnswer) : (doRecv v fuel k).run w =
    match (recv w.fd w.space k).run w with
    | .ok recvLen w₁ => (afterRecv v fuel recvLen).run w₁
    | .error h w₁ => .error h w₁ := by
  simp only [doRecv, EStateM.run_bind, EStateM.run_get]
  cases (recv w.fd w.space k).run w <;> rfl

theorem afterRecv_lost {recvLen : Int} (h : recvLen ≤ 0) :
    (afterRecv (.quiet f) fuel recvLen).run w =
      .ok (-1) ({ w with isConnected := false }.record [.onDisconnect]) := by
  simp [afterRecv, h, fireDisconnect_run]

/-- Once bytes have come in, `do_recv` touches nothing but the buffer, and returns `0`. -/
theorem afterRecv_delivers (f : List Byte → Int32) (fuel : Nat) {recvLen : Int}
    (h : 0 < recvLen) :
    ∃ x : Method Unit, Within Delivers x ∧
      afterRecv (.quiet f) fuel recvLen = (do x; return 0) := by
  refine ⟨do
    modify fun w => { w with recvBufPos := uint32 (w.recvBufPos + recvLen) }
    let pkgLen ← readPacketAt (.quiet f) 0
    packetLoop (.quiet f) fuel 0 pkgLen, ?_, ?_⟩
  · exact .bind (.modify fun w => delivers_refill w w.recvBuf _) fun _ =>
      .bind (within_readPacketAt 0) fun _ =>
        within_packetLoop delivers_refill delivers_fireRecv _ _ _
  · simp only [afterRecv, if_neg (Int.not_le.mpr h), bind_assoc]

theorem recv_data (bytes : List Byte)
    (h : w.recvBufPos + (bytes.take w.space).length ≤ maxRecvBuf) :
    (recv w.fd w.space (.data bytes)).run w = .ok (bytes.take w.space).length
      ((w.refill (w.recvBuf.write w.recvBufPos (bytes.take w.space)) w.recvBufPos).record
        [.recv w.fd w.space (some (bytes.take w.space))]) := by
  simp only [recv, storeAt, emit, World.refill, World.record, EStateM.run_bind, EStateM.run_get,
    EStateM.run_modify, EStateM.run_pure, if_pos h]

theorem recv_overrun (bytes : List Byte)
    (h : ¬ w.recvBufPos + (bytes.take w.space).length ≤ maxRecvBuf) :
    (recv w.fd w.space (.data bytes)).run w = .error .undefined w := by
  simp only [recv, storeAt, EStateM.run_bind, EStateM.run_get, if_neg h, run_halt]

theorem doRecv_received (fuel : Nat) (k : RecvAnswer) :
    Received w k ((doRecv (.quiet f) fuel k).run w) := by
  rw [doRecv_eq]
  cases k with
  | closed =>
      have h := Received.lost (w := w) (k := .closed) (.inr rfl)
      simpa [recv, emit, afterRecv_lost, World.record, RecvAnswer.bytes] using h
  | error =>
      have h := Received.lost (w := w) (k := .error) (.inl rfl)
      simpa [recv, emit, afterRecv_lost, World.record, RecvAnswer.bytes] using h
  | data bytes =>
      by_cases hfit : w.recvBufPos + (bytes.take w.space).length ≤ maxRecvBuf
      · rw [recv_data bytes hfit]
        generalize hc : bytes.take w.space = c
        have hb : (RecvAnswer.data bytes).bytes w.space = some c := by rw [← hc]; rfl
        cases c with
        -- a packet of no bytes is how `recv` says that the peer is gone
        | nil =>
            have h := Received.lost (w := w) (k := .data bytes) (.inr hb)
            simpa [afterRecv_lost, hb, World.refill, World.record] using h
        | cons a t =>
            have hlen : 0 < ((a :: t).length : Int) := by simp only [List.length_cons]; omega
            obtain ⟨x, hx, heq⟩ := afterRecv_delivers f fuel hlen
            obtain ⟨b, p, pkts, hleaves⟩ := hx ((w.refill (w.recvBuf.write w.recvBufPos (a :: t))
              w.recvBufPos).record [.recv w.fd w.space (some (a :: t))])
            dsimp only
            rw [heq, EStateM.run_bind]
            cases hr : x.run _ with
            | ok _ w₁ =>
                rw [hr, leaves_ok] at hleaves
                have h := Received.data (w := w) (a :: t) pkts b p hb (by simp)
                simpa [hleaves, World.refill, World.record] using h
            | error e w₁ =>
                rw [hr, leaves_error] at hleaves
                have h := Received.halted (w := w) e (a :: t) pkts b p hb
                simpa [hleaves, World.refill, World.record] using h
      · rw [recv_overrun bytes hfit]
        refine .overrun ?_
        have := List.length_take_le w.space bytes
        omega

/-- What holds of all that `do_recv` records. -/
theorem Received.recorded {P : Event → Prop} {k : RecvAnswer} {r : EStateM.Result Halt World Int}
    (h : Received w k r) (hrecv : ∀ space bytes, P (.recv w.fd space bytes))
    (hlost : P .onDisconnect) (hpkt : ∀ pData, P (.onRecv pData)) :
    ∃ es, (leaves r).trace = w.trace ++ es ∧ ∀ e ∈ es, P e := by
  cases h with
  | lost => exact ⟨_, rfl, by simp [hrecv, hlost]⟩
  | data => exact ⟨_, rfl, by simp [hrecv, hpkt]⟩
  | halted => exact ⟨_, rfl, by simp [hrecv, hpkt]⟩
  | overrun => exact ⟨[], (List.append_nil _).symm, by simp⟩

theorem received_of_run {k : RecvAnswer} {r : EStateM.Result Halt World Int}
    (h : (doRecv (.quiet f) fuel k).run w = r) : Received w k r := h ▸ doRecv_received fuel k

theorem Dialed.mRecvThread {k : DialAnswer} {r : EStateM.Result Halt World Int}
    (h : Dialed w k r) : (leaves r).mRecvThread = w.mRecvThread := by
  cases h <;> rfl

theorem Received.fd {k : RecvAnswer} {r : EStateM.Result Halt World Int} (h : Received w k r) :
    (leaves r).fd = w.fd := by
  cases h <;> rfl

end

end PBTransfor.Tcp
