import PBTransfor.Tcp.Moves

/-!
# Tcp — the states a run reaches

The fields of a client hang together: a receive thread exists exactly while the client is
running, a client that is not running has neither a descriptor nor a connection, and a
connection has a descriptor (`World.Coherent`).  Every step of a run keeps this, until one does
not return (`next_live`).
-/

namespace PBTransfor.Tcp

open Library Library.Program

/-- How the fields of a client hang together. -/
structure World.Coherent (w : World) : Prop where
  joinable : w.mRecvThread = w.isRunning
  unplugged : w.isRunning = false → w.fd = -1 ∧ w.isConnected = false
  connected : w.isConnected = true → w.fd ≠ -1

/-- A state of a run that goes on is coherent. -/
def World.Live (w : World) : Prop := w.control ≠ .ended → w.Coherent

section
variable {f : List Byte → Int32} {fuel : Nat} {w w' : World} {s : Step}

theorem live_new (buf : Buffer Byte maxRecvBuf) (port : UInt16) : (World.new buf port).Live :=
  fun _ => ⟨rfl, fun _ => ⟨rfl, rfl⟩, nofun⟩

theorem ne_ended_of_admits (ha : w.control.admits s = true) : w.control ≠ .ended := by
  intro h
  rw [h] at ha
  cases ha

theorem World.Coherent.isRunning (hw : w.Coherent) (hc : w.isConnected = true) :
    w.isRunning = true := by
  by_contra h
  have := (hw.unplugged (Bool.eq_false_iff.mpr h)).2
  rw [hc] at this
  cases this

/-- A client that was connected hangs up and returns. -/
theorem HungUp.done_of_connected (hw : w.Coherent) (hc : w.isConnected = true) {es : List Event}
    {r : EStateM.Result Halt World Unit} (hh : HungUp (w.record es) r) :
    r = .ok () ((w.record es).shutDown.record
      ((w.record es).hangingUp .owner none ++ [.hungUp])) := by
  have hj : w.mRecvThread = true := hw.joinable.trans (hw.isRunning hc)
  cases hh with
  | raised hj' => cases hj.symm.trans hj'
  | blocked _ hfd => exact absurd hfd (hw.connected hc)
  | done => rfl

/-- However the owner's `disconnect` ends, the client holds no descriptor and no connection. -/
theorem HungUp.unplugged (hw : w.Coherent) {r : EStateM.Result Halt World Unit}
    (hh : HungUp w r) : (leaves r).fd = -1 ∧ (leaves r).isConnected = false := by
  cases hh with
  | raised hj =>
      have hu := hw.unplugged (hw.joinable.symm.trans hj)
      have hplug : w.unplug = w := by simp [World.unplug, hu.1]
      rw [leaves_error, hplug]
      exact hu
  | blocked _ hfd => exact ⟨hfd, Bool.eq_false_iff.mpr fun h => hw.connected h hfd⟩
  | done => exact ⟨rfl, rfl⟩

/-- What the owner's `disconnect` leaves of a coherent client is coherent. -/
theorem HungUp.coherent (hw : w.Coherent) {r : EStateM.Result Halt World Unit}
    (hh : HungUp w r) : (leaves r).Coherent := by
  have hu := hh.unplugged hw
  refine ⟨?_, fun _ => hu, fun h => (Bool.false_ne_true (hu.2.symm.trans h)).elim⟩
  cases hh with
  | raised hj =>
      simp only [leaves_error, World.record_toTcpClient, World.unplug]
      split
      · exact hw.joinable
      · exact hj
  | blocked => exact hw.joinable
  | done => rfl

/-- What `do_connect` leaves of a client that is running and not connected is coherent. -/
theorem Dialed.coherent {k : DialAnswer} {r : EStateM.Result Halt World Int} (h : Dialed w k r)
    (hr : w.isRunning = true) (hc : w.isConnected = false) :
    ((leaves r).isConnected = true → (leaves r).fd ≠ -1) ∧ (leaves r).isRunning = true := by
  cases h with
  | noSocket => exact ⟨fun h' => (Bool.false_ne_true (hc.symm.trans h')).elim, hr⟩
  | noHost => exact ⟨fun _ => natCast_ne_neg_one _, hr⟩
  | refused => exact ⟨fun _ => natCast_ne_neg_one _, hr⟩
  | accepted => exact ⟨fun _ => natCast_ne_neg_one _, hr⟩

theorem Received.coherent {k : RecvAnswer} {r : EStateM.Result Halt World Int}
    (h : Received w k r) (hw : w.Coherent) : (leaves r).Coherent := by
  cases h with
  | lost => exact ⟨hw.joinable, fun h' => ⟨(hw.unplugged h').1, rfl⟩, nofun⟩
  | data => exact ⟨hw.joinable, hw.unplugged, hw.connected⟩
  | halted => exact ⟨hw.joinable, hw.unplugged, hw.connected⟩
  | overrun => exact hw

/-- **Every step keeps a client coherent.** -/
theorem Move.live (h : Move f fuel w s w') (hw : w.Coherent) : w'.Live := by
  have ended : ∀ w₁ : World, ({ w₁ with control := .ended } : World).Live :=
    fun _ h => absurd rfl h
  cases h with
  | lookupFailed => exact fun _ => ⟨hw.joinable, hw.unplugged, hw.connected⟩
  | aimed => exact fun _ => ⟨hw.joinable, hw.unplugged, hw.connected⟩
  | started _ _ _ _ _ hr hj hd =>
      obtain ⟨hconn, hrun⟩ := hd.coherent rfl (hw.unplugged hr).2
      exact fun _ => ⟨hrun.symm, fun h => (Bool.false_ne_true (h.symm.trans hrun)).elim, hconn⟩
  | startHalted => exact ended _
  | startTerminated => exact fun h => absurd rfl h
  | sendIdle => exact fun _ => hw
  | sent => exact fun _ => ⟨hw.joinable, hw.unplugged, hw.connected⟩
  -- connected, so that there is a thread to join: `disconnect` returns
  | sendFailed _ _ hc _ hh =>
      rw [hh.done_of_connected hw hc]
      exact fun _ => ⟨rfl, fun _ => ⟨rfl, rfl⟩, nofun⟩
  | @hungUp r hh =>
      intro _
      have hcoh := hh.coherent hw
      cases r with
      | ok _ w₁ => exact hcoh
      | error e w₁ => exact ⟨hcoh.joinable, hcoh.unplugged, hcoh.connected⟩
  | idle => exact fun _ => hw
  | received k exceptional hwatch hs hrun =>
      have hrec := received_of_run hrun
      have hcoh := hrec.coherent hw
      split
      · exact fun _ => ⟨hcoh.joinable, hcoh.unplugged, hcoh.connected⟩
      · exact fun _ => hcoh
  | receiveHalted => exact ended _
  | excepted => exact fun _ => ⟨hw.joinable, hw.unplugged, hw.connected⟩
  | redialed k hr hs hd =>
      obtain ⟨hconn, hrun⟩ := hd.coherent hr.isRunning hr.isConnected
      have hj := hd.mRecvThread
      exact fun _ => ⟨(hj.trans hr.joinable).trans hrun.symm,
        fun h => (Bool.false_ne_true (h.symm.trans hrun)).elim, hconn⟩
  | redialHalted => exact ended _

/-- Every run keeps a client coherent, while it goes on. -/
theorem next_live (s : Step) (hw : w.Live) : (next (.quiet f) fuel w s).Live :=
  next_cases s (fun _ => hw) fun _ ha h => h.live (hw (ne_ended_of_admits ha))

end

end PBTransfor.Tcp
