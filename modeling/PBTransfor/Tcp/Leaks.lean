import Mathlib.Data.Set.Insert
import PBTransfor.Tcp.Descriptors

/-!
# Tcp — the descriptors of one client

`do_connect` and `disconnect` close the socket in some of their exits and leave it open in others,
and `fd` may keep the number of a socket that is closed.  Of the descriptors a client has opened,
none but the one in `fd` is ever open, and none when it is not running; while it is connected
that one is open, and is the socket it connected (`run_tight`).

The client is alone with its descriptors here: nobody else opens or closes them.  `Sole` says, for
any table, that the client has no other descriptor than the one in `fd`.
-/

namespace PBTransfor.Tcp

open Library Library.Program

/-- The descriptor table when nobody but the client has opened or closed anything. -/
def World.table (w : World) : Table Unit := run (enter ()) (fun _ => none) w.trace

/-- The descriptors the client has opened and not closed since. -/
def World.openFds (w : World) : Set Int := {fd | w.table fd = some (some ())}

instance (w : World) (fd : Int) : Decidable (fd ∈ w.openFds) :=
  inferInstanceAs (Decidable (w.table fd = some (some ())))

/-- The descriptor of a `::connect` that succeeded. -/
def Event.reached : Event → Option Int
  | .dial fd _ _ true => some fd
  | _ => none

/-- The descriptor of the last `::connect` that succeeded. -/
def World.lastReached (w : World) : Option Int := (w.trace.filterMap Event.reached).getLast?

/-- Nothing leaks. -/
structure World.Tight (w : World) : Prop where
  within : w.openFds ⊆ {w.fd}
  connected : w.isConnected = true → w.fd ∈ w.openFds ∧ w.lastReached = some w.fd
  stopped : w.isRunning = false → w.openFds = ∅ ∧ w.isConnected = false

/-- The client has opened no descriptor that is still open, but the one in `fd`. -/
def Sole {ι : Type} (t : Table ι) (i : ι) (w : World) : Prop :=
  ∀ fd, t fd = some (some i) → fd = w.fd ∧ fd ≠ -1

section
variable {ι : Type} {f : List Byte → Int32} {fuel : Nat} {w w' : World} {s : Step} {i : ι}
  {t : Table ι}

/-! ### What a step does to the only descriptor -/

/-- Once `fd` is closed, the client has none. -/
theorem Sole.closing (hs : Sole t i w) (fd : Int) :
    run (enter i) t w.closing fd ≠ some (some i) := by
  intro h
  rw [World.closing] at h
  split at h
  · by_cases heq : fd = w.fd
    · simp [enter, heq] at h
    · simp only [run_cons, run_nil, enter, Function.update_of_ne heq] at h
      exact heq (hs fd h).1
  · next hfd => exact (hs fd h).2 ((hs fd h).1.trans (not_not.mp hfd))

/-- An event that opens no descriptor leaves the client none that it had not. -/
theorem owned_of_enter {e : Event} (he : ∀ fd, e ≠ .socket fd) {fd : Int}
    (h : enter i t e fd = some (some i)) : t fd = some (some i) := by
  cases e with
  | socket fd' => exact absurd rfl (he fd')
  | close fd' =>
      by_cases heq : fd = fd'
      · simp [enter, heq] at h
      · rwa [enter, Function.update_of_ne heq] at h
  | _ => exact h

theorem owned_of_run {es : List Event} (hes : ∀ e ∈ es, ∀ fd, e ≠ .socket fd) {fd : Int}
    (h : run (enter i) t es fd = some (some i)) : t fd = some (some i) := by
  induction es generalizing t with
  | nil => exact h
  | cons e es ih =>
      exact owned_of_enter (hes e (by simp)) (ih (fun e' he' => hes e' (by simp [he'])) h)

/-- A client that has no descriptor and opens `n` has no other. -/
theorem sole_opened {es : List Event} (ht : ∀ fd, t fd ≠ some (some i)) (n : Nat)
    (hes : ∀ e ∈ es, ∀ fd, e ≠ .socket fd) {fd : Int}
    (h : run (enter i) t (.socket n :: es) fd = some (some i)) : fd = n ∧ fd ≠ -1 := by
  have hopen : enter i t (.socket n) fd = some (some i) := owned_of_run hes h
  rw [enter, if_neg (natCast_ne_neg_one n)] at hopen
  by_cases heq : fd = n
  · exact ⟨heq, heq ▸ natCast_ne_neg_one n⟩
  · rw [Function.update_of_ne heq] at hopen
    exact absurd hopen (ht fd)

/-- `do_connect` closes the descriptor in `fd` before it opens another. -/
theorem Dialed.sole {k : DialAnswer} {r : EStateM.Result Halt World Int} (h : Dialed w k r)
    (hs : Sole t i w) :
    ∃ es, (leaves r).trace = w.trace ++ es ∧ Sole (run (enter i) t es) i (leaves r) := by
  -- the exits that have a socket keep its number in `fd`, closed or not
  have opened : ∀ {n : Nat} {es : List Event} {w' : World}, w'.fd = n →
      (∀ e ∈ es, ∀ fd, e ≠ .socket fd) →
      Sole (run (enter i) t (w.closing ++ .socket n :: es)) i w' := by
    intro n es w' hfd hes fd h
    rw [run_append] at h
    rw [hfd]
    exact sole_opened hs.closing n hes h
  cases h with
  | noSocket =>
      refine ⟨_, rfl, fun fd h => ?_⟩
      rw [run_append] at h
      exact absurd h (hs.closing fd)
  | noHost n => exact ⟨_, rfl, opened rfl (by simp)⟩
  | refused n addr => exact ⟨_, rfl, opened rfl (by simp)⟩
  | accepted n addr => exact ⟨_, rfl, opened rfl (by simp)⟩

/-- Only the descriptors of a world matter. -/
theorem Sole.of_fd (hs : Sole t i w) (hfd : w'.fd = w.fd) : Sole t i w' :=
  fun fd h => hfd ▸ hs fd h

/-- **Every step leaves the client no descriptor but the one in `fd`.** -/
theorem Touches.sole (h : Touches w s w') (hs : Sole t i w) :
    ∃ es, w'.trace = w.trace ++ es ∧ Sole (run (enter i) t es) i w' := by
  cases h with
  | kept es ht hes _ hfd =>
      refine ⟨es, ht, ?_⟩
      rw [run_enter_local hes]
      exact hs.of_fd hfd
  | dialed es w₀ hd ht₀ hes hfd₀ _ es' ht hes' _ hfd =>
      obtain ⟨tail, htail, hsole⟩ := hd.sole (hs.of_fd hfd₀)
      refine ⟨es ++ tail ++ es', by rw [ht, htail, ht₀, List.append_assoc, List.append_assoc,
        List.append_assoc], ?_⟩
      rw [run_append, run_append, run_enter_local hes, run_enter_local hes']
      exact hsole.of_fd hfd
  | hungUp es es' ht hes hes' =>
      refine ⟨_, ht, fun fd h => ?_⟩
      rw [run_append, run_append, run_enter_local hes, run_enter_local hes'] at h
      exact absurd h (hs.closing fd)

/-! ### The client alone -/

theorem Received.isRunning {k : RecvAnswer} {r : EStateM.Result Halt World Int}
    (h : Received w k r) : (leaves r).isRunning = w.isRunning := by
  cases h <;> rfl

/-- The program ends in a dial or in a round of the loop, and the client is running then. -/
theorem Move.running (h : Move f fuel w s w') (hw : w.control ≠ .ended) (hcoh : w.Coherent)
    (hend : w'.control = .ended) : w'.isRunning = true := by
  cases h with
  | lookupFailed => exact absurd hend hw
  | aimed => exact absurd hend hw
  | started _ _ _ _ _ hr hj hd => exact (hd.coherent rfl (hcoh.unplugged hr).2).2
  | startHalted _ _ _ _ _ hr hd => exact (hd.coherent rfl (hcoh.unplugged hr).2).2
  | startTerminated _ _ _ _ _ hr hj hd => exact (hd.coherent rfl (hcoh.unplugged hr).2).2
  | sendIdle => exact absurd hend hw
  | sent => exact absurd hend hw
  | sendFailed _ _ hc _ hh =>
      rw [hh.done_of_connected hcoh hc] at hend
      exact absurd hend hw
  -- `disconnect` raises and blocks without ending the program
  | @hungUp r hh =>
      cases hh with
      | raised => cases hend
      | blocked => cases hend
      | done => exact absurd hend hw
  | idle => exact absurd hend hw
  | received k exceptional hwatch hs hrun =>
      have hr := (received_of_run hrun).isRunning.trans hwatch.isRunning
      cases exceptional <;> exact hr
  | receiveHalted k exceptional hwatch hs hrun =>
      exact (received_of_run hrun).isRunning.trans hwatch.isRunning
  | excepted => exact absurd hend hw
  | redialed k hr hs hd => exact (hd.coherent hr.isRunning hr.isConnected).2
  | redialHalted k hr hs hd => exact (hd.coherent hr.isRunning hr.isConnected).2

/-- What holds of a client alone, whatever it has done. -/
structure World.Alone (w : World) : Prop where
  holds : Holds w.table () w
  sole : Sole w.table () w
  running : w.control = .ended → w.isRunning = true

theorem table_eq {es : List Event} (h : w'.trace = w.trace ++ es) :
    w'.table = run (enter ()) w.table es := by
  rw [World.table, h, run_append, World.table]

/-- **Every step leaves a client alone with its descriptor.** -/
theorem Move.alone (h : Move f fuel w s w') (ha : w.control.admits s = true) (hw : w.Alone) :
    w'.Alone := by
  have hctl := ne_ended_of_admits ha
  have hcoh := hw.holds.live hctl
  obtain ⟨es, ht, hsole⟩ := (h.touches ha hcoh).sole hw.sole
  have hholds := h.holds ha hw.holds
  rw [since_eq ht] at hholds
  rw [← table_eq ht] at hsole hholds
  exact ⟨hholds, hsole, h.running hctl hcoh⟩

theorem run_alone (f : List Byte → Int32) (fuel : Nat) (buf : Buffer Byte maxRecvBuf)
    (port : UInt16) (l : List Step) :
    (run (next (.quiet f) fuel) (World.new buf port) l).Alone := by
  refine run_invariant_of_forall (fun w s hw => next_cases s (fun _ => hw) fun _ ha h =>
    h.alone ha hw) ?_ l
  exact ⟨⟨live_new _ _, peered_new _ _, fun _ hfd => absurd rfl hfd⟩, nofun, nofun⟩

/-- The last dial, when it succeeded, is the last one that did. -/
theorem getLast?_reached {trace : List Event} {d : Dial} (hd : lastDial trace = some d)
    (hok : d.ok = true) : (trace.filterMap Event.reached).getLast? = some d.fd := by
  induction trace using List.reverseRecOn with
  | nil => cases hd
  | append_singleton trace e ih =>
      rw [lastDial_append] at hd
      rw [List.filterMap_append]
      cases e with
      | dial fd addr port ok =>
          obtain rfl : ⟨fd, addr, port, ok⟩ = d := Option.some.inj hd
          cases hok
          exact List.getLast?_concat
      | _ => rw [← ih hd]; exact congrArg List.getLast? (List.append_nil _)

end

/-- **One client leaks no descriptor.**  After any run, whichever steps returned: none is open but
the one in `fd`; while the client is connected that one is open, and is the one of the last
`::connect` that succeeded; and when it is not running, none is open and it is not connected. -/
theorem run_tight (f : List Byte → Int32) (fuel : Nat) (buf : Buffer Byte maxRecvBuf)
    (port : UInt16) (l : List Step) :
    (run (next (.quiet f) fuel) (World.new buf port) l).Tight := by
  have hw := run_alone f fuel buf port l
  refine ⟨fun fd h => (hw.sole fd h).1, fun hc => ?_, fun hr => ?_⟩
  · -- connected, the last dial was on `fd` and succeeded, and so `fd` is still owned
    obtain ⟨hfd, d, hd, hdfd, hok⟩ := hw.holds.peered.connected hc
    refine ⟨(hw.holds.owns (.inr hc) hfd d hd hdfd).mpr hok, ?_⟩
    rw [World.lastReached, getLast?_reached hd hok, hdfd]
  · -- not running, somebody goes on, and the client has no descriptor in `fd`
    have hctl := fun hend => Bool.false_ne_true (hr.symm.trans (hw.running hend))
    obtain ⟨hfd, hc⟩ := (hw.holds.live hctl).unplugged hr
    refine ⟨Set.eq_empty_iff_forall_notMem.mpr fun fd h => ?_, hc⟩
    exact (hw.sole fd h).2 ((hw.sole fd h).1.trans hfd)

/-- The number of a dial that was refused stays in `fd`, and is not open. -/
example :
    let w : World := next (.quiet fun _ => 0) maxRecvBuf (.new (.replicate _ 0) 0)
      (.connect "host" 80 true (some [1]) ⟨some 3, false⟩)
    w.fd = 3 ∧ 3 ∉ w.openFds := by decide

end PBTransfor.Tcp
