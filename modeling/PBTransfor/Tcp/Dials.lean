import PBTransfor.Tcp.Coherent

/-!
# Tcp — the last dial

A client that goes on and holds a descriptor holds the one it dialed last, and while it is
connected that dial succeeded (`World.Peered`, `Move.peered`).
-/

namespace PBTransfor.Tcp

open Library Library.Program

/-- A call of `::connect`. -/
structure Dial where
  fd : Int
  addr : InAddr
  port : UInt16
  ok : Bool
  deriving DecidableEq, Repr

/-- The last dial after one more event. -/
def redial (d : Option Dial) : Event → Option Dial
  | .dial fd addr port ok => some ⟨fd, addr, port, ok⟩
  | _ => d

/-- The last dial of a trace. -/
def lastDial (trace : List Event) : Option Dial := trace.foldl redial none

/-- An event that is not a dial. -/
def Event.Dialless : Event → Prop
  | .dial .. => False
  | _ => True

/-- The descriptor is the one dialed last. -/
structure World.Peered (w : World) : Prop where
  connected : w.isConnected = true →
    w.fd ≠ -1 ∧ ∃ d, lastDial w.trace = some d ∧ d.fd = w.fd ∧ d.ok = true
  dialed : w.control ≠ .ended → w.fd ≠ -1 → ∃ d, lastDial w.trace = some d ∧ d.fd = w.fd

section
variable {f : List Byte → Int32} {fuel : Nat} {w w' : World} {s : Step} {t es : List Event}

theorem lastDial_append : lastDial (t ++ es) = es.foldl redial (lastDial t) := List.foldl_append

theorem redial_dialless (h : ∀ e ∈ es, e.Dialless) (d : Option Dial) : es.foldl redial d = d := by
  refine run_eq_self fun e he => ?_
  have := h e he
  cases e <;> first | rfl | exact this.elim

theorem lastDial_dialless (h : ∀ e ∈ es, e.Dialless) : lastDial (t ++ es) = lastDial t := by
  rw [lastDial_append, redial_dialless h]

/-- What `do_connect` dials, when it has a socket and an address. -/
theorem lastDial_dialed (es : List Event) (n : Int) (addr : InAddr) (port : UInt16) (ok : Bool)
    (hes : ∀ e ∈ es, e.Dialless) :
    lastDial (t ++ (w.closing ++ [Event.socket n, .dial n addr port ok] ++ es)) =
      some ⟨n, addr, port, ok⟩ := by
  rw [lastDial_append, List.foldl_append, redial_dialless hes,
    show w.closing ++ [Event.socket n, .dial n addr port ok] =
      (w.closing ++ [.socket n]) ++ [.dial n addr port ok] by simp, List.foldl_append]
  rfl

theorem World.Peered.of_eq (hw : w.Peered) (ht : lastDial w'.trace = lastDial w.trace)
    (hfd : w'.fd = w.fd) (hc : w'.isConnected = true → w.isConnected = true)
    (hctl : w'.control ≠ .ended → w.control ≠ .ended) : w'.Peered where
  connected h := by
    rw [ht, hfd]
    exact hw.connected (hc h)
  dialed h := by
    rw [ht, hfd]
    exact hw.dialed (hctl h)

/-- A client that holds no descriptor and is not connected. -/
theorem peered_of_unplugged (hfd : w.fd = -1) (hc : w.isConnected = false) : w.Peered where
  connected h := (Bool.false_ne_true (hc.symm.trans h)).elim
  dialed _ h := absurd hfd h

theorem Dialed.peered {k : DialAnswer} {r : EStateM.Result Halt World Int} (h : Dialed w k r)
    (hc : w.isConnected = false) :
    ((leaves r).isConnected = true → (leaves r).fd ≠ -1 ∧
      ∃ d, lastDial (leaves r).trace = some d ∧ d.fd = (leaves r).fd ∧ d.ok = true) ∧
    ∀ ret w₁, r = .ok ret w₁ → w₁.fd ≠ -1 → ∃ d, lastDial w₁.trace = some d ∧ d.fd = w₁.fd := by
  have off : ∀ {P : Prop}, w.isConnected = true → P := fun h =>
    (Bool.false_ne_true (hc.symm.trans h)).elim
  cases h with
  | noSocket => exact ⟨off, fun _ _ h hfd => by cases h; exact absurd rfl hfd⟩
  | noHost => exact ⟨off, nofun⟩
  | refused n addr =>
      refine ⟨off, fun _ _ h _ => ?_⟩
      cases h
      refine ⟨⟨n, addr, w.mPort, false⟩, ?_, rfl⟩
      have := lastDial_dialed (w := w) (t := w.trace) [.close n] n addr w.mPort false
        (by simp [Event.Dialless])
      simpa [World.record] using this
  | accepted n addr =>
      have hd : lastDial (w.trace ++ (w.closing ++
          [Event.socket n, .dial n addr w.mPort true, .onConnected])) =
            some ⟨n, addr, w.mPort, true⟩ := by
        have := lastDial_dialed (w := w) (t := w.trace) [.onConnected] n addr w.mPort true
          (by simp [Event.Dialless])
        simpa using this
      refine ⟨fun _ => ⟨natCast_ne_neg_one n, _, hd, rfl, rfl⟩, fun _ _ h _ => ?_⟩
      cases h
      exact ⟨_, hd, rfl⟩

theorem Received.dialless {k : RecvAnswer} {r : EStateM.Result Halt World Int}
    (h : Received w k r) : lastDial (leaves r).trace = lastDial w.trace := by
  obtain ⟨es, ht, hes⟩ := h.recorded (P := Event.Dialless) (fun _ _ => trivial) trivial
    fun _ => trivial
  rw [ht, lastDial_dialless hes]

theorem Received.isConnected {k : RecvAnswer} {r : EStateM.Result Halt World Int}
    (h : Received w k r) (hc : (leaves r).isConnected = true) : w.isConnected = true := by
  cases h with
  | lost => cases hc
  | data => exact hc
  | halted => exact hc
  | overrun => exact hc

theorem peered_new (buf : Buffer Byte maxRecvBuf) (port : UInt16) :
    (World.new buf port).Peered := peered_of_unplugged rfl rfl

/-- **A client holds the descriptor it dialed last.** -/
theorem Move.peered (h : Move f fuel w s w') (ha : w.control ≠ .ended) (hcoh : w.Coherent)
    (hw : w.Peered) : w'.Peered := by
  cases h with
  | lookupFailed =>
      exact hw.of_eq (lastDial_dialless (by simp [Event.Dialless])) rfl id fun _ => ha
  | aimed => exact hw.of_eq (lastDial_dialless (by simp [Event.Dialless])) rfl id fun _ => ha
  | @started _ _ _ _ _ hr hj ret w₁ hd =>
      obtain ⟨hconn, hheld⟩ := hd.peered (hcoh.unplugged hr).2
      have hfd := hheld _ _ rfl
      have hw₁ : { w₁ with mRecvThread := true }.Peered := ⟨hconn, fun _ => hfd⟩
      exact hw₁.of_eq (lastDial_dialless (by simp [Event.Dialless])) rfl id id
  -- a run that has ended is not asked what it holds
  | startHalted _ _ _ _ _ hr hd =>
      exact ⟨(hd.peered (hcoh.unplugged hr).2).1, fun h => absurd rfl h⟩
  | @startTerminated _ _ _ _ _ hr hj ret w₁ hd =>
      have hw₁ : { w₁ with control := .ended }.Peered :=
        ⟨(hd.peered (hcoh.unplugged hr).2).1, fun h => absurd rfl h⟩
      exact hw₁.of_eq (lastDial_dialless (by simp [Event.Dialless])) rfl id id
  | sendIdle => exact hw
  | sent => exact hw.of_eq (lastDial_dialless (by simp [Event.Dialless])) rfl id fun _ => ha
  | sendFailed _ _ hc _ hh =>
      rw [hh.done_of_connected hcoh hc]
      exact peered_of_unplugged rfl rfl
  | @hungUp r hh =>
      obtain ⟨hfd, hc⟩ := hh.unplugged hcoh
      cases r <;> exact peered_of_unplugged hfd hc
  | idle => exact hw
  | received k exceptional hwatch hsel hrun =>
      have hrec := received_of_run hrun
      cases exceptional with
      | false => exact hw.of_eq hrec.dialless hrec.fd hrec.isConnected fun _ => ha
      | true =>
          refine hw.of_eq ?_ hrec.fd hrec.isConnected fun _ => ha
          exact (lastDial_dialless (by simp [Event.Dialless])).trans hrec.dialless
  | receiveHalted k exceptional hwatch hsel hrun =>
      have hrec := received_of_run hrun
      exact hw.of_eq hrec.dialless hrec.fd hrec.isConnected fun _ => ha
  | excepted => exact hw.of_eq (lastDial_dialless (by simp [Event.Dialless])) rfl id fun _ => ha
  | redialed k hr hsel hd =>
      obtain ⟨hconn, hheld⟩ := hd.peered hr.isConnected
      exact ⟨hconn, fun _ => hheld _ _ rfl⟩
  | redialHalted k hr hsel hd =>
      exact ⟨(hd.peered hr.isConnected).1, fun h => absurd rfl h⟩

end

end PBTransfor.Tcp
