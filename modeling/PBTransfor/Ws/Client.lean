import PBTransfor.Library.Program
import PBTransfor.Library.Runs
import PBTransfor.Tcp.Client

/-!
# Ws — the client over WebSockets

`WSClient` of `src/wsclient.hpp`, and what it uses of uWebSockets: a hub, which lives as long as
its loop runs, and WebSockets, which uWS makes when a connection is up and deletes when it has
ended.  A WebSocket is named by its address.

A method runs in `EStateM Halt World`.  To use a WebSocket that is not there any more is
`Halt.undefined`.

Left out: the log lines, the mask and the header of a frame, and everything of uWS by which it
decides when the events it reports happen.
-/

namespace PBTransfor.Ws

open Library Library.Program
open Tcp (Byte Halt)

/-- A `WebSocket<CLIENT> *` that is not null. -/
abbrev Address := Nat

/-- `uWS::OpCode`, of a message. -/
inductive OpCode where
  | text
  | binary
  deriving DecidableEq, Repr

/-- The fields of `class WSClient`; `ws` is `none` when it is null.  `mRecvThread` says whether
`m_recv_thread` is joinable. -/
structure WSClient where
  isConnected : Bool := false
  ws : Option Address
  mRecvThread : Bool := false

/-- The hub of `run`: a local variable. -/
inductive Hub where
  | none
  | running
  | destroyed
  deriving DecidableEq, Repr

/-- What a client does, as seen from outside. -/
inductive Event where
  /-- A message is handed to uWS. -/
  | message (ws : Address) (payload : List Byte) (opCode : OpCode)
  | onRecv (pData : List Byte)
  deriving DecidableEq, Repr

/-- A client, its hub, the WebSockets that exist, and what it has done; `halted` once a method has
not returned. -/
structure World extends WSClient where
  hub : Hub := .none
  live : List Address := []
  trace : List Event := []
  halted : Option Halt := .none

/-- A method of the client, or a call it makes. -/
abbrev Method := EStateM Halt World

/-- A client just constructed.  `ws` has no initialiser. -/
def World.new (ws : Option Address) : World := { ws := ws }

/-! ### uWebSockets -/

def emit (e : Event) : Method Unit := modify fun w => { w with trace := w.trace ++ [e] }

/-- `strlen(s)`, of the bytes that can be read from `s` on. -/
def strlen (s : List Byte) : Nat := (s.takeWhile (· ≠ 0)).length

/-- `ws->send(message, length, opCode)`. -/
def sendLength (ws : Address) (message : List Byte) (length : Nat) (opCode : OpCode) :
    Method Unit := do
  if ws ∈ (← get).live ∧ (← get).hub = .running then
    emit (.message ws (message.take length) opCode)
  else throw .undefined

/-- `ws->send(message, opCode)`. -/
def sendTerminated (ws : Address) (message : List Byte) (opCode : OpCode := .text) : Method Unit :=
  sendLength ws message (strlen message) opCode

/-! ### The methods -/

/-- `WSClient::send`, with the `len` bytes `pData` of a Lua string, which a zero follows. -/
def send (pData : List Byte) : Method Int := do
  match (← get).ws with
  | some ws =>
      if (← get).isConnected then
        sendTerminated ws (pData ++ [0]) .binary -- `len` is not passed on
  | none => pure ()
  return 0

/-- `WSClient::isConnected`. -/
def isConnected : Method Bool := return (← get).isConnected

/-- `WSClient::connect`: `m_recv_thread` is assigned a new thread, which enters `run`. -/
def connect : Method Int := do
  if (← get).mRecvThread then throw .terminated
  else
    modify fun w => { w with mRecvThread := true, hub := .running }
    return 0

/-- The handler `run` gives to `onConnection`. -/
def onConnection (ws : Address) : Method Unit :=
  modify fun w => { w with ws := some ws, isConnected := true }

/-- The handler `run` gives to `onMessage`. -/
def onMessage (message : List Byte) : Method Unit := emit (.onRecv message)

/-- The handler of `onDisconnection` is the one a group has by default: `run` gives none. -/
def onDisconnection (_ws : Address) : Method Unit := pure ()

/-! ### Runs -/

/-- What can happen next: a call the owner makes, or something the hub reports. -/
inductive Step where
  | connect
  | isConnected
  | send (pData : List Byte)
  /-- A connection is up, and its WebSocket is made. -/
  | connection (ws : Address)
  | message (ws : Address) (data : List Byte)
  /-- A connection has ended, and its WebSocket is deleted. -/
  | disconnection (ws : Address)
  /-- The loop of the hub returns, and `run` with it. -/
  | hubReturn
  deriving DecidableEq, Repr

/-- What uWS can report. -/
def World.Admits (w : World) : Step → Prop
  | .connect | .isConnected | .send _ => True
  | .connection ws => w.hub = .running ∧ ws ∉ w.live
  | .message ws _ | .disconnection ws => w.hub = .running ∧ ws ∈ w.live
  | .hubReturn => w.hub = .running

instance (w : World) : DecidablePred w.Admits
  | .connect | .isConnected | .send _ => isTrue trivial
  | .connection _ => inferInstanceAs (Decidable (_ = _ ∧ ¬ _))
  | .message .. | .disconnection _ => inferInstanceAs (Decidable (_ = _ ∧ _ ∈ _))
  | .hubReturn => inferInstanceAs (Decidable (_ = _))

/-- The step as a method. -/
def Step.method : Step → Method Unit
  | .connect => do
      let _ ← Ws.connect
  | .isConnected => do
      let _ ← Ws.isConnected
  | .send pData => do
      let _ ← Ws.send pData
  | .connection ws => do
      modify fun w => { w with live := ws :: w.live }
      onConnection ws
  | .message _ data => onMessage data
  | .disconnection ws => do
      onDisconnection ws
      modify fun w => { w with live := w.live.filter (· ≠ ws) }
  | .hubReturn => modify fun w => { w with hub := .destroyed }

/-- The world after a step; a step that cannot be taken leaves it as it is. -/
def next (w : World) (s : Step) : World :=
  if w.halted = none ∧ w.Admits s then
    match s.method.run w with
    | .ok _ w' => w'
    | .error h w' => { w' with halted := some h }
  else w

/-- A client whose connection is up. -/
def connectedTo (ws : Address) : World := run next (World.new none) [.connect, .connection ws]

/-! ### What a step comes to -/

/-- The world with further events recorded. -/
def World.record (w : World) (es : List Event) : World := { w with trace := w.trace ++ es }

/-- The WebSocket stored in `ws` is there, and so is its hub. -/
def World.Live (w : World) : Prop := ∃ ws ∈ w.live, w.ws = some ws ∧ w.hub = .running

instance (w : World) : Decidable w.Live := inferInstanceAs (Decidable (∃ ws ∈ _, _))

/-- What is read of the bytes of a Lua string as a C string: those before the first zero. -/
theorem take_strlen (s : List Byte) : (s ++ [0]).take (strlen (s ++ [0])) =
    s.takeWhile (· ≠ 0) := by
  have htake : (s ++ [0]).takeWhile (· ≠ 0) = s.takeWhile (· ≠ 0) := by
    induction s with
    | nil => rfl
    | cons b s ih =>
        rw [List.cons_append, List.takeWhile_cons, List.takeWhile_cons, ih]
  rw [strlen, ← htake]
  exact (List.prefix_iff_eq_take.mp (List.takeWhile_prefix _)).symm

/-- **Everything a step can do.** -/
inductive Move (w : World) : Step → World → Prop where
  | connected (h : w.mRecvThread = false) :
      Move w .connect { w with mRecvThread := true, hub := .running }
  | terminated (h : w.mRecvThread = true) : Move w .connect { w with halted := some .terminated }
  | isConnected : Move w .isConnected w
  | sendIdle (pData) (h : w.isConnected = false ∨ w.ws = none) : Move w (.send pData) w
  | sent (pData ws) (hc : w.isConnected = true) (hws : w.ws = some ws) (hl : w.Live) :
      Move w (.send pData) (w.record [.message ws (pData.takeWhile (· ≠ 0)) .binary])
  | dangling (pData) (hc : w.isConnected = true) (hl : ¬ w.Live) :
      Move w (.send pData) { w with halted := some .undefined }
  | connection (ws) (hh : w.hub = .running) (hl : ws ∉ w.live) : Move w (.connection ws)
      { w with live := ws :: w.live, ws := some ws, isConnected := true }
  | message (ws data) (hl : ws ∈ w.live) : Move w (.message ws data) (w.record [.onRecv data])
  | disconnection (ws) (hh : w.hub = .running) (hl : ws ∈ w.live) : Move w (.disconnection ws)
      { w with live := w.live.filter (· ≠ ws) }
  | hubReturn (hh : w.hub = .running) : Move w .hubReturn { w with hub := .destroyed }

section
variable {w : World}

/-- **What send hands to uWS.** -/
theorem send_live {ws : Address} (hc : w.isConnected = true) (hws : w.ws = some ws) (hl : w.Live)
    (pData : List Byte) : (send pData).run w =
      .ok 0 (w.record [.message ws (pData.takeWhile (· ≠ 0)) .binary]) := by
  obtain ⟨ws', hmem, hws', hh⟩ := hl
  cases hws.symm.trans hws'
  have hok : ws ∈ w.live ∧ w.hub = .running := ⟨hmem, hh⟩
  simp [send, hws, hc, sendTerminated, sendLength, if_pos hok, take_strlen, emit, World.record]

/-- A pointer to a WebSocket that was deleted is used. -/
theorem send_dangling {ws : Address} (hc : w.isConnected = true) (hws : w.ws = some ws)
    (hl : ¬ w.Live) (pData : List Byte) : (send pData).run w = .error .undefined w := by
  have hno : ¬ (ws ∈ w.live ∧ w.hub = .running) := fun h => hl ⟨ws, h.1, hws, h.2⟩
  simp [send, hws, hc, sendTerminated, sendLength, if_neg hno]

theorem send_idle (h : w.isConnected = false ∨ w.ws = none) (pData : List Byte) :
    (send pData).run w = .ok 0 w := by
  rcases h with h | h
  · cases hws : w.ws <;> simp [send, hws, h]
  · simp [send, h]

theorem next_of_ok {s : Step} (ha : w.halted = none ∧ w.Admits s) (w' : World)
    (h : s.method.run w = .ok () w') : next w s = w' := by
  simp only [next, if_pos ha, h]

theorem next_of_error {s : Step} (ha : w.halted = none ∧ w.Admits s) (e : Halt) (w' : World)
    (h : s.method.run w = .error e w') : next w s = { w' with halted := some e } := by
  simp only [next, if_pos ha, h]

theorem next_move (s : Step) (ha : w.halted = none ∧ w.Admits s) : Move w s (next w s) := by
  cases s with
  | connect =>
      cases hj : w.mRecvThread with
      | false =>
          rw [next_of_ok ha { w with mRecvThread := true, hub := .running } (by
            simp [Step.method, connect, hj])]
          exact .connected hj
      | true =>
          rw [next_of_error ha .terminated w (by simp [Step.method, connect, hj])]
          exact .terminated hj
  | isConnected =>
      rw [next_of_ok ha w (by simp [Step.method, isConnected])]
      exact .isConnected
  | send pData =>
      have hrun : (Step.method (.send pData)).run w = match (send pData).run w with
        | .ok _ w' => .ok () w'
        | .error e w' => .error e w' := by
        simp only [Step.method, EStateM.run_bind]
        cases (send pData).run w <;> rfl
      by_cases hidle : w.isConnected = false ∨ w.ws = none
      · rw [next_of_ok ha w (by rw [hrun, send_idle hidle])]
        exact .sendIdle pData hidle
      · rw [not_or, Bool.not_eq_false] at hidle
        obtain ⟨hc, hws⟩ := hidle
        obtain ⟨ws, hws⟩ := Option.ne_none_iff_exists'.mp hws
        by_cases hl : w.Live
        · rw [next_of_ok ha (w.record [.message ws (pData.takeWhile (· ≠ 0)) .binary])
            (by rw [hrun, send_live hc hws hl])]
          exact .sent pData ws hc hws hl
        · rw [next_of_error ha .undefined w
            (by rw [hrun, send_dangling hc hws hl])]
          exact .dangling pData hc hl
  | connection ws =>
      rw [next_of_ok ha { w with live := ws :: w.live, ws := some ws, isConnected := true }
        (by simp [Step.method, onConnection])]
      exact .connection ws ha.2.1 ha.2.2
  | message ws data =>
      rw [next_of_ok ha (w.record [.onRecv data])
        (by simp [Step.method, onMessage, emit, World.record])]
      exact .message ws data ha.2.2
  | disconnection ws =>
      rw [next_of_ok ha { w with live := w.live.filter (· ≠ ws) }
        (by simp [Step.method, onDisconnection])]
      exact .disconnection ws ha.2.1 ha.2.2
  | hubReturn =>
      rw [next_of_ok ha { w with hub := .destroyed } (by simp [Step.method])]
      exact .hubReturn ha.2

/-- A step is a move, or it cannot be taken. -/
theorem next_cases {P : World → Prop} (s : Step) (hstay : ¬ (w.halted = none ∧ w.Admits s) → P w)
    (hmove : ∀ w', w.halted = none ∧ w.Admits s → Move w s w' → P w') : P (next w s) := by
  by_cases ha : w.halted = none ∧ w.Admits s
  · exact hmove _ ha (next_move s ha)
  · rw [next, if_neg ha]
    exact hstay ha

end

end PBTransfor.Ws
