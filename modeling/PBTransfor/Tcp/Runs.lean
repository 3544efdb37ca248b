import PBTransfor.Library.Runs
import PBTransfor.Tcp.Methods

/-!
# Tcp — runs of one client

A run takes one step at a time: a call the owner makes, or one round of the receive thread's
loop; no round is under way when a call is made.  A call that raises returns to its owner, who
may go on; a `disconnect` that waits for ever leaves only the receive thread; after anything else
that does not return (`Halt`) no step is taken any more.
-/

namespace PBTransfor.Tcp

open Library

/-- A step of the program around one client, with what the system answers it. -/
inductive Step where
  | connect (pHost : String) (port : UInt16) (reconnect : Bool)
      (lookup : Option (List InAddr)) (dial : DialAnswer)
  | send (pData : List Byte) (accepted : Option Nat)
  | disconnect
  /-- One round of the loop of `run`. -/
  | iterate (k : RoundAnswer)
  deriving DecidableEq, Repr

/-- Whether the step is the receive thread's. -/
def Step.isIterate : Step → Bool
  | .iterate _ => true
  | _ => false

/-- What of `pData` is sent by `send(data, #data)`, whose `len` is a `uint32_t`. -/
def passed (pData : List Byte) : List Byte := pData.take (UInt32.ofNat pData.length).toNat

theorem passed_eq {pData : List Byte} (h : pData.length < 2 ^ 32) : passed pData = pData := by
  rw [passed, UInt32.toNat_ofNat', Nat.mod_eq_of_lt h, List.take_length]

section
variable (v : Virtuals) (fuel : Nat)

/-- `send(data, #data)`. -/
def sendString (pData : List Byte) (accepted : Option Nat) : Method Int :=
  send v v fuel .owner pData (UInt32.ofNat pData.length) accepted none

/-- The step as a method.  The receive thread exists while `m_recv_thread` is joinable, and goes
round while `is_running`. -/
def Step.method : Step → Method Unit
  | .connect pHost port reconnect lookup dial => do
      let _ ← Tcp.connect v pHost port reconnect lookup dial
  | .send pData accepted => do
      let _ ← sendString v fuel pData accepted
  | .disconnect => Tcp.disconnect v fuel .owner none
  | .iterate k => do
      if (← get).isRunning && (← get).mRecvThread then
        runIteration v fuel k

/-- Who can go on after a step has ended in `h`. -/
def Halt.control (h : Halt) (s : Step) : Control :=
  match h, s.isIterate with
  | .raised, false => .free
  | .blocked, false => .ownerBlocked
  | _, _ => .ended

/-- Whether the step can be taken. -/
def Control.admits : Control → Step → Bool
  | .free, _ => true
  | .ownerBlocked, s => s.isIterate
  | .ended, _ => false

/-- The world after a step; a step that cannot be taken leaves it as it is. -/
def next (w : World) (s : Step) : World :=
  if w.control.admits s then
    match (s.method v fuel).run w with
    | .ok _ w' => w'
    | .error h w' => { w' with control := h.control s }
  else w

end

end PBTransfor.Tcp
