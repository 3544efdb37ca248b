import Mathlib.Data.List.TakeWhile
import PBTransfor.Head.Frames
import PBTransfor.Tcp.Sending
import PBTransfor.Ws.Client

/-!
# Ws — the bytes of the two transports

`loop.lua` sends through either client by `send(data, #data)`.  `TcpClient` passes on as many
bytes as it is told, by a `uint32_t`; `WSClient` lets uWS measure them with `strlen`, and a zero
byte ends the message.

`transports_agree_iff`: both send the same bytes exactly when there is no zero among them, and
they are not too many for their number.  In a frame there always is a zero: its flags.
-/

namespace PBTransfor.Ws

open Library Library.Program
open Tcp (Byte Sent SentOver messages passed passed_eq)

/-- What `TcpClient::send` puts on the stream of `w`, when the kernel accepts all that it is
passed: it is passed something on no other descriptor. -/
def Streams (f : List Byte → Int32) (fuel : Nat) (w : Tcp.World) (pData bytes : List Byte) : Prop :=
  ∃ es, (leaves ((Tcp.sendString (.quiet f) fuel pData (some (passed pData).length)).run w)).trace =
    w.trace ++ es ∧ SentOver w.fd es ∧ (messages es).flatMap Sent.taken = bytes

/-- `WSClient::send` hands uWS one binary message, of these bytes. -/
def Hands (w : World) (pData bytes : List Byte) : Prop :=
  ∃ w₁ ws, (send pData).run w = .ok 0 w₁ ∧ w.ws = some ws ∧
    w₁.trace = w.trace ++ [.message ws bytes .binary]

/-- Both clients send the bytes they are given. -/
def SameBytes (f : List Byte → Int32) (fuel : Nat) (w : World) (w' : Tcp.World)
    (pData : List Byte) : Prop :=
  Hands w pData pData ∧ Streams f fuel w' pData pData

section
variable {f : List Byte → Int32} {fuel : Nat} {w : World} {w' : Tcp.World}

/-- A call of `disconnect` sends nothing. -/
theorem messages_hangingUp (w : Tcp.World) {es : List Tcp.Event}
    (hes : es = [] ∨ es = [.hungUp]) : messages (w.hangingUp .owner none ++ es) = [] :=
  Tcp.messages_sendless (Tcp.forall_mem_hangingUp_append hes trivial trivial trivial)

/-- A connected `TcpClient` passes on `len` bytes, once and on its own descriptor. -/
theorem send_passes (f : List Byte → Int32) (fuel : Nat) (hc : w'.isConnected = true)
    (pData : List Byte) (accepted : Option Nat) :
    ∃ es, (leaves ((Tcp.sendString (.quiet f) fuel pData accepted).run w')).trace =
      w'.trace ++ es ∧ messages es = [⟨w'.fd, passed pData, accepted⟩] := by
  by_cases hret : 0 < Tcp.sendRet accepted
  · rw [Tcp.send_accepted pData _ hc hret]
    exact ⟨_, rfl, rfl⟩
  · -- an empty message counts as a failure, and so does a very long one
    rw [Tcp.send_failed pData _ hc hret]
    let w₁ := w'.record [.send w'.fd (passed pData) accepted, .onDisconnect]
    have hh : Tcp.HungUp w₁ ((Tcp.disconnect (.quiet f) fuel .owner none).run w₁) :=
      Tcp.disconnect_hungUp _ _
    obtain ⟨es, htr, hes⟩ := hh.trace
    refine ⟨[.send w'.fd (passed pData) accepted, .onDisconnect] ++
      (w₁.hangingUp .owner none ++ es), ?_, ?_⟩
    · rw [Tcp.World.record_trace, List.append_assoc] at htr
      rw [← htr]
      cases (Tcp.disconnect (.quiet f) fuel .owner none).run w₁ <;> rfl
    · rw [Tcp.messages_append, messages_hangingUp w₁ hes, List.append_nil]
      rfl

/-- The number of the bytes is a `uint32_t`. -/
theorem passed_eq_self_iff (pData : List Byte) :
    passed pData = pData ↔ pData.length < 2 ^ 32 := by
  refine ⟨fun h => ?_, passed_eq⟩
  have hlen := congrArg List.length h
  rw [passed, List.length_take, UInt32.toNat_ofNat'] at hlen
  have hmod : pData.length % 2 ^ 32 < 2 ^ 32 := Nat.mod_lt _ (by decide)
  omega

/-- **TcpClient sends what it is given**, if `len` can say how much that is. -/
theorem streams_self_iff (hc : w'.isConnected = true) (pData : List Byte) :
    Streams f fuel w' pData pData ↔ pData.length < 2 ^ 32 := by
  obtain ⟨es, htr, hmsg⟩ := send_passes f fuel hc pData (some (passed pData).length)
  have htaken : (messages es).flatMap Sent.taken = passed pData := by
    simp [hmsg, Sent.taken]
  rw [← passed_eq_self_iff]
  constructor
  · rintro ⟨es', htr', -, hbytes⟩
    obtain rfl := List.append_cancel_left (htr.symm.trans htr')
    exact htaken.symm.trans hbytes
  · intro h
    refine ⟨es, htr, fun x hx => ?_, htaken.trans h⟩
    rw [hmsg, List.mem_singleton] at hx
    rw [hx]

/-- **WSClient sends what stands before the first zero.** -/
theorem hands_iff (hc : w.isConnected = true) (hl : w.Live) (pData bytes : List Byte) :
    Hands w pData bytes ↔ bytes = pData.takeWhile (· ≠ 0) := by
  obtain ⟨ws, -, hws, -⟩ := id hl
  have hrun := send_live hc hws hl pData
  constructor
  · rintro ⟨w₁, ws', hrun', hws', htr⟩
    cases hrun.symm.trans hrun'
    cases hws.symm.trans hws'
    simpa [World.record, eq_comm] using htr
  · rintro rfl
    exact ⟨_, ws, hrun, hws, rfl⟩

theorem takeWhile_eq_self_iff (l : List Byte) : l = l.takeWhile (· ≠ 0) ↔ 0 ∉ l := by
  rw [eq_comm, List.takeWhile_eq_self_iff]
  constructor
  · intro h hmem
    exact absurd (h 0 hmem) (by decide)
  · intro h b hb
    exact decide_eq_true fun h0 => h (h0 ▸ hb)

/-- **When the two transports send the same bytes**: when there is no zero among them, and less
than `2 ^ 32` of them.  A frame, of any payload, is never sent by both. -/
theorem transports_agree_iff (hc : w.isConnected = true) (hl : w.Live)
    (hc' : w'.isConnected = true) :
    (∀ pData, SameBytes f fuel w w' pData ↔ 0 ∉ pData ∧ pData.length < 2 ^ 32) ∧
    ∀ p : Head.LuaString, p.bytes.length < 2 ^ 24 →
      ∃ s, Head.frame p = .ok s ∧ ¬ SameBytes f fuel w w' s.bytes := by
  have hiff : ∀ pData, SameBytes f fuel w w' pData ↔ 0 ∉ pData ∧ pData.length < 2 ^ 32 := by
    intro pData
    rw [SameBytes, streams_self_iff hc', hands_iff hc hl, takeWhile_eq_self_iff]
  refine ⟨hiff, fun p hp => ?_⟩
  obtain ⟨s, hs, hb⟩ := Head.frame_ok hp
  refine ⟨s, hs, fun h => ((hiff _).mp h).1 ?_⟩
  rw [hb, Head.frameBytes]
  simp

end

/-- A `TcpClient` whose connection is up. -/
def tcpConnected : Tcp.World :=
  run (Tcp.next (.quiet fun _ => 0) Tcp.maxRecvBuf) (Tcp.World.new (.replicate _ 0) 0)
    [.connect "host" 80 true (some [1]) ⟨some 3, true⟩]

/-- `transports_agree_iff` at two bytes that are not zero. -/
theorem transports_agree_iff_text :
    SameBytes (fun _ => 0) 1 (connectedTo 7) tcpConnected [104, 105] :=
  ((transports_agree_iff (by decide) (by decide) (by decide)).1 _).mpr (by decide)

/-- The frame of a payload of two bytes: one byte of it is sent. -/
theorem frame_cut : Hands (connectedTo 7) [2, 0, 0, 0, 104, 105] [2] ∧
    ¬ SameBytes (fun _ => 0) 1 (connectedTo 7) tcpConnected [2, 0, 0, 0, 104, 105] := by
  have hl : (connectedTo 7).Live := by decide
  refine ⟨(hands_iff (by decide) hl _ _).mpr (by decide), fun h => ?_⟩
  exact absurd ((hands_iff (by decide) hl _ _).mp h.1) (by decide)

end PBTransfor.Ws
