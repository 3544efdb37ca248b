import PBTransfor.Tcp.Carry
import PBTransfor.Tcp.Dials

/-!
# Tcp — a lookup that fails

`connect` sets `m_port`, `m_host` and `is_reconnect` before it asks the resolver, and when that
fails it returns `-1` and leaves them set: a client that is running goes on dialing the address
it had, at the port of the call that failed.

* `run_prepend`: what a client does does not depend on what it has done, only on its fields.
* `connect_kept_iff`: a call whose lookup fails leaves the client as it was exactly when it asks
  for the host, the port and the reconnection that are set already.
-/

namespace PBTransfor.Tcp

open Library Library.Program

/-- The world with `es` done before everything else. -/
def World.prepend (es : List Event) (w : World) : World := { w with trace := es ++ w.trace }

/-- The world with `es` done, and nothing else. -/
def World.having (w : World) (es : List Event) : World := { w with trace := es }

/-- From `w'` a client does what it does from `w`: every run adds the same to the trace, and leaves
everything else the same. -/
def SameRuns (v : Virtuals) (fuel : Nat) (w w' : World) : Prop :=
  ∀ l, ∃ es, run (next v fuel) w l = (run (next v fuel) w l).having (w.trace ++ es) ∧
    run (next v fuel) w' l = (run (next v fuel) w l).having (w'.trace ++ es)

/-- The client is in `w'` as it was in `w`: its fields are, and so is what it does afterwards. -/
structure Kept (v : Virtuals) (fuel : Nat) (w w' : World) : Prop where
  mHost : w'.mHost = w.mHost
  mPort : w'.mPort = w.mPort
  mHosts : w'.mHosts = w.mHosts
  isReconnect : w'.isReconnect = w.isReconnect
  isRunning : w'.isRunning = w.isRunning
  isConnected : w'.isConnected = w.isConnected
  fd : w'.fd = w.fd
  sameRuns : SameRuns v fuel w w'

/-! ### What a client does depends on its fields only -/

section
variable {es : List Event}

theorem commutes_emit (e : Event) : Commutes (World.prepend es) (emit e) :=
  .modify fun w => by simp [World.prepend]

theorem commutes_storeAt (i : Nat) (xs : List Byte) :
    Commutes (World.prepend es) (storeAt i xs) :=
  .ite (.modify fun _ => rfl) (.halt _)

theorem commutes_loadAt (i len : Nat) : Commutes (World.prepend es) (loadAt i len) :=
  .ite (.get_bind (fun _ => rfl) fun _ => .pure _) (.halt _)

theorem commutes_recv (fd : Int) (space : Nat) (k : RecvAnswer) :
    Commutes (World.prepend es) (recv fd space k) := by
  cases k with
  | data bytes =>
      exact .get_bind (fun _ => rfl) fun _ => .bind (commutes_storeAt _ _) fun _ =>
        .bind (commutes_emit _) fun _ => .pure _
  | closed => exact .bind (commutes_emit _) fun _ => .pure _
  | error => exact .bind (commutes_emit _) fun _ => .pure _

theorem commutes_join (self : Thread) {round : Method Unit}
    (h : Commutes (World.prepend es) round) : Commutes (World.prepend es) (join self round) :=
  .get_bind (fun _ => rfl) fun _ => .ite (.halt _) <| .ite (.halt _) <|
    .bind (.tryCatch h fun _ => .halt _) fun _ =>
      .get_bind (fun _ => rfl) fun _ => .ite (.halt _) (.modify fun _ => rfl)

theorem commutes_startThread : Commutes (World.prepend es) startThread :=
  .get_bind (fun _ => rfl) fun _ => .bind (commutes_emit _) fun _ =>
    .get_bind (fun _ => rfl) fun _ => .ite (.halt _) (.modify fun _ => rfl)

theorem commutes_fdIsSet (fd : Int) (fds : List Int) :
    Commutes (World.prepend es) (fdIsSet fd fds) := .ite (.halt _) (.pure _)

variable {v : Virtuals}

theorem commutes_doConnect (h : Commutes (World.prepend es) v.onConnected) (k : DialAnswer) :
    Commutes (World.prepend es) (doConnect v k) := by
  have hset : ∀ fd : Int, Commutes (World.prepend es)
      (modify fun w => { w with fd := fd } : Method Unit) := fun _ => .modify fun _ => rfl
  have hsocket : Commutes (World.prepend es) (socket k.socket) :=
    .bind (commutes_emit _) fun _ => .pure _
  refine .get_bind (fun _ => rfl) fun w => ?_
  extract_lets rest
  have hrest : ∀ r, Commutes (World.prepend es) (rest r) := by
    refine fun _ => .bind hsocket fun fd => .bind (hset fd) fun _ => .ite (.pure _)
      (.get_bind (fun _ => rfl) fun w => ?_)
    cases w.mHosts with
    | nil => exact .halt _
    | cons addr hosts =>
        have hdial : ∀ fd port, Commutes (World.prepend es) (dial fd addr port k.connect) :=
          fun _ _ => .bind (commutes_emit _) fun _ => .pure _
        refine .get_bind (fun _ => rfl) fun w => .get_bind (fun _ => rfl) fun w =>
          .bind (hdial _ _) fun ok => .ite ?_ ?_
        · exact .bind (.modify fun _ => rfl) fun _ =>
            .bind (.bind (commutes_emit _) fun _ => h) fun _ => .pure _
        · exact .get_bind (fun _ => rfl) fun w => .bind (commutes_emit _) fun _ => .pure _
  exact .ite (.get_bind (fun _ => rfl) fun w => .bind (commutes_emit _) fun _ =>
    .bind (hset _) hrest) (hrest ())

theorem commutes_connect (h : Commutes (World.prepend es) v.onConnected) (pHost : String)
    (port : UInt16) (reconnect : Bool) (lookup : Option (List InAddr)) (k : DialAnswer) :
    Commutes (World.prepend es) (connect v pHost port reconnect lookup k) := by
  refine .bind (commutes_emit _) fun _ => .bind (.modify fun _ => rfl) fun _ =>
    .get_bind (fun _ => rfl) fun w => .bind (.bind (commutes_emit _) fun _ => .pure _) fun l => ?_
  cases l with
  | none => exact .pure _
  | some l =>
      have hpush : Commutes (World.prepend es) (pushHosts l) := fun w => by
        rw [pushHosts_run, pushHosts_run]
        rfl
      exact .bind hpush fun _ => .get_bind (fun _ => rfl) fun w => .ite
        (.bind (.modify fun _ => rfl) fun _ => .bind (commutes_doConnect h k) fun _ =>
          .bind commutes_startThread fun _ => .pure _) (.pure _)

theorem commutes_fireDisconnect (h : Commutes (World.prepend es) v.onDisconnect) :
    Commutes (World.prepend es) (fireDisconnect v) := .bind (commutes_emit _) fun _ => h

theorem commutes_readPacketAt (readPos : Nat) :
    Commutes (World.prepend es) (readPacketAt v readPos) :=
  .get_bind (fun _ => rfl) fun _ => .bind (commutes_loadAt _ _) fun _ => .pure _

theorem commutes_packetLoop (h : ∀ pData, Commutes (World.prepend es) (v.onRecv pData)) :
    ∀ (fuel readPos : Nat) (pkgLen : Int),
      Commutes (World.prepend es) (packetLoop v fuel readPos pkgLen)
  | 0, _, _ => .halt _
  | fuel + 1, readPos, pkgLen => by
      have hdeliver : Commutes (World.prepend es) (deliver v readPos pkgLen) :=
        .get_bind (fun _ => rfl) fun w => .ite
          (.bind (commutes_loadAt _ _) fun pData =>
            .bind (.bind (commutes_emit _) fun _ => h pData) fun _ => .pure _) (.pure _)
      have hcompact : ∀ readPos, Commutes (World.prepend es) (compact readPos) := fun readPos =>
        .get_bind (fun _ => rfl) fun w => .bind (commutes_loadAt _ _) fun rest =>
          .bind (commutes_storeAt _ _) fun _ => .bind (.modify fun _ => rfl) fun _ =>
            .get_bind (fun _ => rfl) fun w => commutes_storeAt _ _
      refine .ite (.bind hdeliver fun readPos => .get_bind (fun _ => rfl) fun w => .ite ?_ ?_)
        (.pure _)
      · exact .bind (commutes_readPacketAt _) fun pkgLen =>
          .ite (hcompact _) (commutes_packetLoop h fuel _ _)
      · exact .modify fun _ => rfl

/-- The callbacks do not look at the trace. -/
structure Virtuals.Blind (v : Virtuals) (es : List Event) : Prop where
  onConnected : Commutes (World.prepend es) v.onConnected
  onDisconnect : Commutes (World.prepend es) v.onDisconnect
  onRecv : ∀ pData, Commutes (World.prepend es) (v.onRecv pData)

theorem blind_quiet (f : List Byte → Int32) : (Virtuals.quiet f).Blind es :=
  ⟨.pure _, .pure _, fun _ => .pure _⟩

theorem commutes_doRecv (hv : v.Blind es) (fuel : Nat) (k : RecvAnswer) :
    Commutes (World.prepend es) (doRecv v fuel k) := by
  refine .get_bind (fun _ => rfl) fun w => .get_bind (fun _ => rfl) fun w =>
    .bind (commutes_recv _ _ _) fun recvLen => .ite ?_ ?_
  · exact .bind (.modify fun _ => rfl) fun _ =>
      .bind (commutes_fireDisconnect hv.onDisconnect) fun _ => .pure _
  · exact .bind (.modify fun _ => rfl) fun _ => .bind (commutes_readPacketAt 0) fun pkgLen =>
      .bind (commutes_packetLoop hv.onRecv fuel 0 pkgLen) fun _ => .pure _

theorem commutes_afterSelect (hv : v.Blind es) (fuel : Nat) (k : RoundAnswer)
    (watched : List Int) : Commutes (World.prepend es) (afterSelect v fuel k watched) := by
  have hready : ∀ readFds exceptFds,
      Commutes (World.prepend es) (onReady v fuel k readFds exceptFds) := by
    intro readFds exceptFds
    refine .get_bind (fun _ => rfl) fun w => .bind (commutes_fdIsSet _ _) fun readable => ?_
    extract_lets rest
    have hrest : ∀ r, Commutes (World.prepend es) (rest r) := fun _ =>
      .get_bind (fun _ => rfl) fun w => .bind (commutes_fdIsSet _ _) fun exceptional =>
        .ite (commutes_fireDisconnect hv.onDisconnect) (.pure _)
    exact .ite (.bind (commutes_doRecv hv fuel k.recv) fun _ => hrest ()) (hrest ())
  have htimeout : Commutes (World.prepend es) (onTimeout v k) :=
    .get_bind (fun _ => rfl) fun w => .get_bind (fun _ => rfl) fun w =>
      .ite (.bind (commutes_doConnect hv.onConnected k.dial) fun _ => .pure _) (.pure _)
  intro w
  rcases hs : select watched k.select with ⟨ret, readFds, exceptFds⟩
  rw [afterSelect_eq v k hs, afterSelect_eq v k hs]
  split
  · rfl
  · split
    · exact hready readFds exceptFds w
    · exact htimeout w

theorem commutes_runIteration (hv : v.Blind es) (fuel : Nat) (k : RoundAnswer) :
    Commutes (World.prepend es) (runIteration v fuel k) :=
  .get_bind (fun _ => rfl) fun _ => commutes_afterSelect hv fuel k _

theorem commutes_leftOver (hv : v.Blind es) (fuel : Nat) (watched : List Int)
    (underWay : Option RoundAnswer) :
    Commutes (World.prepend es) (leftOver v fuel watched underWay) := by
  cases underWay with
  | none => exact .pure _
  | some k => exact commutes_afterSelect hv fuel k watched

theorem commutes_disconnect (hv : v.Blind es) (fuel : Nat) (self : Thread)
    (underWay : Option RoundAnswer) :
    Commutes (World.prepend es) (disconnect v fuel self underWay) := by
  refine .get_bind (fun _ => rfl) fun w => .bind (commutes_emit _) fun _ =>
    .get_bind (fun _ => rfl) fun w' => ?_
  extract_lets rest
  have hrest : ∀ r, Commutes (World.prepend es) (rest r) := fun _ =>
    .bind (commutes_join self (commutes_leftOver hv fuel _ underWay)) fun _ =>
      .bind (.modify fun _ => rfl) fun _ => .get_bind (fun _ => rfl) fun _ => commutes_emit _
  exact .ite (.bind (.modify fun _ => rfl) fun _ => .get_bind (fun _ => rfl) fun _ =>
    .bind (commutes_emit _) fun _ => .bind (.modify fun _ => rfl) hrest) (hrest ())

theorem commutes_send (hv : v.Blind es) (fuel : Nat) (self : Thread) (pData : List Byte)
    (len : UInt32) (accepted : Option Nat) (underWay : Option RoundAnswer) :
    Commutes (World.prepend es) (send v v fuel self pData len accepted underWay) :=
  .get_bind (fun _ => rfl) fun _ => .ite
    (.get_bind (fun _ => rfl) fun _ => .bind (.bind (commutes_emit _) fun _ => .pure _) fun _ =>
      .ite (.bind (commutes_fireDisconnect hv.onDisconnect) fun _ =>
        .bind (commutes_disconnect hv fuel self underWay) fun _ => .pure _) (.pure _)) (.pure _)

theorem commutes_method (hv : v.Blind es) (fuel : Nat) (s : Step) :
    Commutes (World.prepend es) (s.method v fuel) := by
  cases s with
  | connect => exact .bind (commutes_connect hv.onConnected _ _ _ _ _) fun _ => .pure _
  | send => exact .bind (commutes_send hv fuel .owner _ _ _ none) fun _ => .pure _
  | disconnect => exact commutes_disconnect hv fuel .owner none
  | iterate k =>
      exact .get_bind (fun _ => rfl) fun w => .get_bind (fun _ => rfl) fun w =>
        .ite (commutes_runIteration hv fuel k) (.pure _)

theorem next_prepend (hv : v.Blind es) (fuel : Nat) (w : World) (s : Step) :
    next v fuel (w.prepend es) s = (next v fuel w s).prepend es := by
  have hrun := commutes_method hv fuel s w
  have hctl : (w.prepend es).control = w.control := rfl
  simp only [next, hctl, hrun]
  split
  · cases (s.method v fuel).run w <;> rfl
  · rfl

/-- **What a client does depends on its fields**, not on what it has done. -/
theorem run_prepend (hv : v.Blind es) (fuel : Nat) (w : World) (l : List Step) :
    run (next v fuel) (w.prepend es) l = (run (next v fuel) w l).prepend es := by
  induction l generalizing w with
  | nil => rfl
  | cons s l ih => rw [run_cons, run_cons, next_prepend hv, ih]

theorem prepend_having_nil (w : World) (es : List Event) :
    (w.having []).prepend es = w.having es := by
  simp [World.prepend, World.having]

/-- Worlds that differ in what was done only. -/
theorem sameRuns_having (hv : ∀ es, v.Blind es) (fuel : Nat) (w : World) (es : List Event) :
    SameRuns v fuel w (w.having es) := by
  intro l
  have hrun : ∀ es', run (next v fuel) (w.having es') l =
      (run (next v fuel) (w.having []) l).prepend es' := fun es' => by
    rw [← prepend_having_nil, run_prepend (hv es')]
  have hw : run (next v fuel) w l = (run (next v fuel) (w.having []) l).prepend w.trace :=
    hrun w.trace
  refine ⟨(run (next v fuel) (w.having []) l).trace, ?_, ?_⟩
  · rw [hw]
    rfl
  · rw [hw, hrun es]
    rfl

end

/-- **When a `connect` whose lookup fails leaves the client as it was**: when it asks for what is
set already. -/
theorem connect_kept_iff (f : List Byte → Int32) (fuel : Nat) (w : World) (pHost : String)
    (port : UInt16) (reconnect : Bool) (k : DialAnswer) :
    ∃ w', (connect (.quiet f) pHost port reconnect none k).run w = .ok (-1) w' ∧
      (Kept (.quiet f) fuel w w' ↔
        pHost = w.mHost ∧ port = w.mPort ∧ reconnect = w.isReconnect) := by
  refine ⟨_, connect_failed pHost port reconnect k, ?_⟩
  constructor
  · intro h
    exact ⟨h.mHost, h.mPort, h.isReconnect⟩
  · rintro ⟨rfl, rfl, rfl⟩
    have hruns := sameRuns_having (v := .quiet f) (fun _ => blind_quiet f) fuel w
      (w.trace ++ [.connect w.mHost w.mPort w.isReconnect, .gethostbyname w.mHost none])
    exact ⟨rfl, rfl, rfl, rfl, rfl, rfl, rfl, hruns⟩

/-- A client connected to `first`, port 80. -/
def connectedOnce : World :=
  run (next (.quiet fun _ => 0) maxRecvBuf) (World.new (.replicate _ 0) 0)
    [.connect "first" 80 true (some [1]) ⟨some 3, true⟩]

/-- After a failed lookup of `second`, port 81, the connection is lost: the client dials the address
of `first` at port 81. -/
theorem failed_lookup_redirects :
    ∃ w', (connect (.quiet fun _ => 0) "second" 81 true none ⟨none, false⟩).run connectedOnce =
        .ok (-1) w' ∧ ¬ Kept (.quiet fun _ => 0) maxRecvBuf connectedOnce w' ∧
      lastDial (run (next (.quiet fun _ => 0) maxRecvBuf) w'
        [.iterate (.reading .closed), .iterate (.dialing 4)]).trace = some ⟨4, 1, 81, true⟩ ∧
      lastDial (run (next (.quiet fun _ => 0) maxRecvBuf) connectedOnce
        [.iterate (.reading .closed), .iterate (.dialing 4)]).trace = some ⟨4, 1, 80, true⟩ := by
  refine ⟨_, connect_failed "second" 81 true _, fun h => ?_, by decide, by decide⟩
  exact absurd h.mPort (by decide)

end PBTransfor.Tcp
