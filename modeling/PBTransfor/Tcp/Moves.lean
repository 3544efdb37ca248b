import PBTransfor.Tcp.Quiet

/-!
# Tcp — everything a step can do

`Move` lists what a step of a run comes to when the callbacks return at once, each case with the
world it leaves, and `next_move` says that every step taken is one of them.  What a run
preserves is proved by cases on `Move`, never by unfolding a method.
-/

namespace PBTransfor.Tcp

open Library Library.Program

section
variable {f : List Byte → Int32} {fuel : Nat} {w : World}

/-- The world a step leaves once its end is taken into account. -/
def settle (s : Step) : EStateM.Result Halt World Unit → World
  | .ok _ w => w
  | .error h w => { w with control := h.control s }

theorem settle_toTcpClient (s : Step) (r : EStateM.Result Halt World Unit) :
    (settle s r).toTcpClient = (leaves r).toTcpClient := by
  cases r <;> rfl

theorem settle_trace (s : Step) (r : EStateM.Result Halt World Unit) :
    (settle s r).trace = (leaves r).trace := by
  cases r <;> rfl

/-- A round of the receive thread on a connection `select` watches. -/
structure World.Watched (w : World) : Prop where
  isRunning : w.isRunning = true
  joinable : w.mRecvThread = true
  fd : w.fd ≠ -1
  isConnected : w.isConnected = true

/-- A round of the receive thread in which it dials. -/
structure World.Redialing (w : World) : Prop where
  isRunning : w.isRunning = true
  joinable : w.mRecvThread = true
  isConnected : w.isConnected = false
  isReconnect : w.isReconnect = true

/-- A round of the receive thread in which it does something. -/
def World.Wakes (w : World) (k : RoundAnswer) : Prop :=
  (w.Watched ∧ ∃ readable exceptional, k.select = .ready readable exceptional ∧
    (readable || exceptional) = true) ∨
  (w.Redialing ∧ k.select ≠ .error)

instance (w : World) : Decidable w.Watched :=
  decidable_of_iff (w.isRunning = true ∧ w.mRecvThread = true ∧ w.fd ≠ -1 ∧
    w.isConnected = true) ⟨fun ⟨a, b, c, d⟩ => ⟨a, b, c, d⟩, fun ⟨a, b, c, d⟩ => ⟨a, b, c, d⟩⟩

instance (w : World) : Decidable w.Redialing :=
  decidable_of_iff (w.isRunning = true ∧ w.mRecvThread = true ∧ w.isConnected = false ∧
    w.isReconnect = true) ⟨fun ⟨a, b, c, d⟩ => ⟨a, b, c, d⟩, fun ⟨a, b, c, d⟩ => ⟨a, b, c, d⟩⟩

/-- **Everything a step can do.** -/
inductive Move (f : List Byte → Int32) (fuel : Nat) (w : World) : Step → World → Prop where
  | lookupFailed (pHost port reconnect k) :
      Move f fuel w (.connect pHost port reconnect none k) (w.retarget pHost port reconnect none)
  | aimed (pHost port reconnect l k) (hr : w.isRunning = true) :
      Move f fuel w (.connect pHost port reconnect (some l) k) (w.aim pHost port reconnect l)
  | started (pHost port reconnect l k) (hr : w.isRunning = false) (hj : w.mRecvThread = false)
      {ret : Int} {w₁ : World}
      (hd : Dialed { w.aim pHost port reconnect l with isRunning := true } k (.ok ret w₁)) :
      Move f fuel w (.connect pHost port reconnect (some l) k)
        ({ w₁ with mRecvThread := true }.record [.spawn false])
  | startHalted (pHost port reconnect l k) (hr : w.isRunning = false) {h : Halt} {w₁ : World}
      (hd : Dialed { w.aim pHost port reconnect l with isRunning := true } k (.error h w₁)) :
      Move f fuel w (.connect pHost port reconnect (some l) k) { w₁ with control := .ended }
  | startTerminated (pHost port reconnect l k) (hr : w.isRunning = false)
      (hj : w.mRecvThread = true) {ret : Int} {w₁ : World}
      (hd : Dialed { w.aim pHost port reconnect l with isRunning := true } k (.ok ret w₁)) :
      Move f fuel w (.connect pHost port reconnect (some l) k)
        ({ w₁ with control := .ended }.record [.spawn true])
  | sendIdle (pData accepted) (hc : w.isConnected = false) :
      Move f fuel w (.send pData accepted) w
  | sent (pData accepted) (hc : w.isConnected = true) (hret : 0 < sendRet accepted) :
      Move f fuel w (.send pData accepted) (w.record [.send w.fd (passed pData) accepted])
  | sendFailed (pData accepted) (hc : w.isConnected = true) (hret : ¬ 0 < sendRet accepted)
      {r : EStateM.Result Halt World Unit}
      (hh : HungUp (w.record [.send w.fd (passed pData) accepted, .onDisconnect]) r) :
      Move f fuel w (.send pData accepted) (settle (.send pData accepted) r)
  | hungUp {r : EStateM.Result Halt World Unit} (hh : HungUp w r) :
      Move f fuel w .disconnect (settle .disconnect r)
  | idle (k) (hi : ¬ w.Wakes k) : Move f fuel w (.iterate k) w
  | received (k exceptional) (hw : w.Watched) (hs : k.select = .ready true exceptional)
      {ret : Int} {w₁ : World} (hrun : (doRecv (.quiet f) fuel k.recv).run w = .ok ret w₁) :
      Move f fuel w (.iterate k) (if exceptional then w₁.record [.onDisconnect] else w₁)
  | receiveHalted (k exceptional) (hw : w.Watched) (hs : k.select = .ready true exceptional)
      {h : Halt} {w₁ : World} (hrun : (doRecv (.quiet f) fuel k.recv).run w = .error h w₁) :
      Move f fuel w (.iterate k) { w₁ with control := .ended }
  | excepted (k) (hw : w.Watched) (hs : k.select = .ready false true) :
      Move f fuel w (.iterate k) (w.record [.onDisconnect])
  | redialed (k) (hw : w.Redialing) (hs : k.select ≠ .error) {ret : Int} {w₁ : World}
      (hd : Dialed w k.dial (.ok ret w₁)) : Move f fuel w (.iterate k) w₁
  | redialHalted (k) (hw : w.Redialing) (hs : k.select ≠ .error) {h : Halt} {w₁ : World}
      (hd : Dialed w k.dial (.error h w₁)) :
      Move f fuel w (.iterate k) { w₁ with control := .ended }

theorem next_eq (s : Step) (ha : w.control.admits s = true) :
    next (.quiet f) fuel w s = settle s ((s.method (.quiet f) fuel).run w) := by
  simp only [next, if_pos ha]
  cases (s.method (.quiet f) fuel).run w <;> rfl

theorem move_connect (pHost : String) (port : UInt16) (reconnect : Bool)
    (lookup : Option (List InAddr)) (k : DialAnswer) :
    Move f fuel w (.connect pHost port reconnect lookup k)
      (settle (.connect pHost port reconnect lookup k)
        ((Step.method (.quiet f) fuel (.connect pHost port reconnect lookup k)).run w)) := by
  simp only [Step.method, EStateM.run_bind]
  cases lookup with
  | none => rw [connect_failed]; exact .lookupFailed ..
  | some l =>
      cases hr : w.isRunning with
      | true => rw [connect_running _ _ _ _ _ hr]; exact .aimed _ _ _ _ _ hr
      | false =>
          rw [connect_starting _ _ _ _ _ hr]
          have hd := doConnect_dialed (f := f)
            (w := { w.aim pHost port reconnect l with isRunning := true }) k
          cases hrun : (doConnect (.quiet f) k).run
              { w.aim pHost port reconnect l with isRunning := true } with
          | error h w₁ =>
              rw [hrun] at hd
              have hend : h.control (.connect pHost port reconnect (some l) k) = .ended := by
                cases hd; rfl
              simpa only [settle, hend] using Move.startHalted _ _ _ _ _ hr hd
          | ok ret w₁ =>
              rw [hrun] at hd
              have hj : w₁.mRecvThread = w.mRecvThread := hd.mRecvThread
              -- a thread that is assigned while it is joinable ends the program
              cases hj' : w.mRecvThread with
              | false => simpa [settle, hj, hj'] using Move.started _ _ _ _ _ hr hj' hd
              | true =>
                  simpa [settle, hj, hj', Halt.control, Step.isIterate, World.record] using
                    Move.startTerminated _ _ _ _ _ hr hj' hd

theorem move_send (pData : List Byte) (accepted : Option Nat) :
    Move f fuel w (.send pData accepted) (settle (.send pData accepted)
      ((Step.method (.quiet f) fuel (.send pData accepted)).run w)) := by
  simp only [Step.method, EStateM.run_bind]
  cases hc : w.isConnected with
  | false => rw [send_idle _ _ hc]; exact .sendIdle _ _ hc
  | true =>
      by_cases hret : 0 < sendRet accepted
      · rw [send_accepted _ _ hc hret]; exact .sent _ _ hc hret
      · rw [send_failed _ _ hc hret]
        have hh := disconnect_hungUp (w := w.record [.send w.fd (passed pData) accepted,
          .onDisconnect]) (.quiet f) fuel
        cases hrun : (disconnect (.quiet f) fuel .owner none).run
            (w.record [.send w.fd (passed pData) accepted, .onDisconnect]) with
        | ok _ w₁ => rw [hrun] at hh; exact .sendFailed _ _ hc hret hh
        | error h w₁ => rw [hrun] at hh; exact .sendFailed _ _ hc hret hh

/-! ### A round of the receive thread -/

/-- The last branch of the round, taken when `select` found nothing. -/
def onTimeout (v : Virtuals) (k : RoundAnswer) : Method Unit := do
  if !(← get).isConnected && (← get).isReconnect then
    let _ ← doConnect v k.dial

@[simp] theorem Halt.control_iterate (h : Halt) (k : RoundAnswer) :
    h.control (.iterate k) = .ended := by
  cases h <;> rfl

theorem move_onTimeout (k : RoundAnswer) (hr : w.isRunning = true) (hj : w.mRecvThread = true)
    (hs : k.select ≠ .error) (hn : w.Watched → ∀ readable exceptional,
      k.select = .ready readable exceptional → readable = false ∧ exceptional = false) :
    Move f fuel w (.iterate k)
      (settle (.iterate k) ((onTimeout (.quiet f) k).run w)) := by
  by_cases h : w.isConnected = false ∧ w.isReconnect = true
  · have hw : w.Redialing := ⟨hr, hj, h.1, h.2⟩
    have hd := doConnect_dialed (f := f) (w := w) k.dial
    cases hrun : (doConnect (.quiet f) k.dial).run w with
    | ok ret w₁ =>
        rw [hrun] at hd
        have hm : Move f fuel w (.iterate k) w₁ := .redialed k hw hs hd
        simpa [onTimeout, h.1, h.2, hrun, settle] using hm
    | error e w₁ =>
        rw [hrun] at hd
        have hm : Move f fuel w (.iterate k) { w₁ with control := .ended } :=
          .redialHalted k hw hs hd
        simpa [onTimeout, h.1, h.2, hrun, settle] using hm
  · have hi : ¬ w.Wakes k := by
      rintro (⟨hw, r, e, hre, hany⟩ | ⟨hw, -⟩)
      · obtain ⟨rfl, rfl⟩ := hn hw r e hre
        cases hany
      · exact h ⟨hw.isConnected, hw.isReconnect⟩
    have hm : Move f fuel w (.iterate k) w := .idle k hi
    simpa [onTimeout, h, settle] using hm

/-- The branch of the round taken when `select` found something. -/
def onReady (v : Virtuals) (fuel : Nat) (k : RoundAnswer) (readFds exceptFds : List Int) :
    Method Unit := do
  if ← fdIsSet (← get).fd readFds then
    let _ ← doRecv v fuel k.recv
  if ← fdIsSet (← get).fd exceptFds then
    fireDisconnect v

theorem fdIsSet_run {fd : Int} (h : fd ≠ -1) (fds : List Int) :
    (fdIsSet fd fds).run w = .ok (fds.contains fd) w := by
  simp [fdIsSet, h]

theorem move_onReady (k : RoundAnswer) (hw : w.Watched) (readable exceptional : Bool)
    (hs : k.select = .ready readable exceptional) (hany : (readable || exceptional) = true) :
    Move f fuel w (.iterate k) (settle (.iterate k) ((onReady (.quiet f) fuel k
      (if readable then [w.fd] else []) (if exceptional then [w.fd] else [])).run w)) := by
  cases readable with
  | false =>
      cases exceptional with
      | false => cases hany
      | true =>
          have hm : Move f fuel w (.iterate k) (w.record [.onDisconnect]) := .excepted k hw hs
          simpa [onReady, fdIsSet_run hw.fd, settle, fireDisconnect_run] using hm
  | true =>
      have hrec := doRecv_received (f := f) (w := w) fuel k.recv
      cases hrun : (doRecv (.quiet f) fuel k.recv).run w with
      | ok ret w₁ =>
          rw [hrun] at hrec
          have hfd : w₁.fd = w.fd := hrec.fd
          have hm := Move.received k exceptional hw hs hrun
          cases exceptional <;>
            simpa [onReady, fdIsSet_run hw.fd, hrun, hfd, settle, fireDisconnect_run] using hm
      | error e w₁ =>
          have hm := Move.receiveHalted k exceptional hw hs hrun
          simpa [onReady, fdIsSet_run hw.fd, hrun, settle] using hm

theorem afterSelect_eq (v : Virtuals) (k : RoundAnswer) {watched : List Int} {ret : Int}
    {readFds exceptFds : List Int} (hs : select watched k.select = (ret, readFds, exceptFds)) :
    (afterSelect v fuel k watched).run w =
      if ret = -1 then .ok () w
      else if ret ≠ 0 then (onReady v fuel k readFds exceptFds).run w
      else (onTimeout v k).run w := by
  simp only [afterSelect, hs]
  split
  · rfl
  · split <;> rfl

theorem runIteration_eq (v : Virtuals) (k : RoundAnswer) {ret : Int} {readFds exceptFds : List Int}
    (hs : select (if w.fd ≠ -1 ∧ w.isConnected = true then [w.fd] else []) k.select =
      (ret, readFds, exceptFds)) :
    (runIteration v fuel k).run w =
      if ret = -1 then .ok () w
      else if ret ≠ 0 then (onReady v fuel k readFds exceptFds).run w
      else (onTimeout v k).run w := by
  rw [runIteration, EStateM.run_bind, EStateM.run_get]
  exact afterSelect_eq v k hs

theorem move_iterate (k : RoundAnswer) :
    Move f fuel w (.iterate k) (settle (.iterate k)
      ((Step.method (.quiet f) fuel (.iterate k)).run w)) := by
  by_cases hlive : w.isRunning = true ∧ w.mRecvThread = true
  · obtain ⟨hr, hj⟩ := hlive
    have hrun : (Step.method (.quiet f) fuel (.iterate k)).run w =
        (runIteration (.quiet f) fuel k).run w := by
      simp [Step.method, hr, hj]
    rw [hrun]
    cases hs : k.select with
    | error =>
        rw [runIteration_eq _ _ (by rw [hs])]
        refine .idle k ?_
        rintro (⟨-, r, e, hre, -⟩ | ⟨-, hne⟩)
        · cases hs.symm.trans hre
        · exact hne hs
    | timeout =>
        rw [runIteration_eq _ _ (by rw [hs])]
        exact move_onTimeout k hr hj (by simp [hs]) fun _ r e hre => nomatch hs.symm.trans hre
    | ready readable exceptional =>
        have hne : k.select ≠ .error := by simp [hs]
        by_cases hwatch : w.fd ≠ -1 ∧ w.isConnected = true
        · have hw : w.Watched := ⟨hr, hj, hwatch.1, hwatch.2⟩
          have hre : (readable || exceptional) = true → Move f fuel w (.iterate k) _ :=
            move_onReady k hw readable exceptional hs
          rw [runIteration_eq _ _ (by rw [hs, if_pos hwatch])]
          cases readable with
          | true => cases exceptional <;> exact hre rfl
          | false =>
              cases exceptional with
              | true => exact hre rfl
              | false =>
                  refine move_onTimeout k hr hj hne fun _ r e hre' => ?_
                  cases hs.symm.trans hre'
                  exact ⟨rfl, rfl⟩
        · -- nothing is watched, so `select` finds nothing
          rw [runIteration_eq _ _ (by rw [hs, if_neg hwatch])]
          have hto : Move f fuel w (.iterate k) _ := move_onTimeout k hr hj hne fun hw =>
            absurd ⟨hw.fd, hw.isConnected⟩ hwatch
          cases readable <;> cases exceptional <;> exact hto
  · have hi : ¬ w.Wakes k := by
      rintro (⟨hw, -⟩ | ⟨hw, -⟩)
      · exact hlive ⟨hw.isRunning, hw.joinable⟩
      · exact hlive ⟨hw.isRunning, hw.joinable⟩
    have hm : Move f fuel w (.iterate k) w := .idle k hi
    simpa [Step.method, hlive, settle] using hm

/-- Every step that can be taken is one of the moves. -/
theorem next_move (s : Step) (ha : w.control.admits s = true) :
    Move f fuel w s (next (.quiet f) fuel w s) := by
  rw [next_eq s ha]
  cases s with
  | connect pHost port reconnect lookup dial => exact move_connect ..
  | send pData accepted => exact move_send ..
  | disconnect => exact .hungUp (disconnect_hungUp _ _)
  | iterate k => exact move_iterate k

/-- A step that cannot be taken changes nothing. -/
theorem next_refused (s : Step) (ha : w.control.admits s = false) :
    next (.quiet f) fuel w s = w := by
  simp [next, ha]

/-- What a step comes to: nothing when it cannot be taken, and otherwise one of the moves. -/
theorem next_cases {P : World → Prop} (s : Step) (hstay : w.control.admits s = false → P w)
    (hmove : ∀ w', w.control.admits s = true → Move f fuel w s w' → P w') :
    P (next (.quiet f) fuel w s) := by
  cases ha : w.control.admits s with
  | true => exact hmove _ ha (next_move s ha)
  | false => rw [next_refused s ha]; exact hstay ha

/-! ### What a step records -/

/-- The events a step may record. -/
def Step.Records : Step → Event → Prop
  | .connect .., .connect .. | .connect .., .gethostbyname .. | .connect .., .spawn _
  | .connect .., .close _ | .connect .., .socket _ | .connect .., .dial ..
  | .connect .., .onConnected => True
  | .send .., .send .. | .send .., .onDisconnect => True
  | .send .., .disconnect .. | .send .., .close _ | .send .., .disconnected .. => True
  | .disconnect, .disconnect .. | .disconnect, .close _ | .disconnect, .disconnected .. => True
  | .iterate _, .recv .. | .iterate _, .onRecv _ | .iterate _, .onDisconnect => True
  | .iterate _, .close _ | .iterate _, .socket _ | .iterate _, .dial ..
  | .iterate _, .onConnected => True
  | _, _ => False

/-- `w'` comes from `w` by events that `s` may record. -/
def Recorded (s : Step) (w w' : World) : Prop :=
  ∃ es, w'.trace = w.trace ++ es ∧ ∀ e ∈ es, s.Records e

theorem recorded_record {s : Step} {es : List Event} (h : ∀ e ∈ es, s.Records e) :
    Recorded s w (w.record es) := ⟨es, rfl, h⟩

theorem Recorded.trans {s : Step} {w₁ w₂ : World} (h : Recorded s w w₁)
    (h' : Recorded s w₁ w₂) : Recorded s w w₂ := by
  obtain ⟨es, ht, hes⟩ := h
  obtain ⟨es', ht', hes'⟩ := h'
  exact ⟨es ++ es', by rw [ht', ht, List.append_assoc],
    List.forall_mem_append.mpr ⟨hes, hes'⟩⟩

/-- `do_connect` is called by `connect` and by `run`. -/
def Step.MayDial : Step → Prop
  | .connect .. | .iterate _ => True
  | _ => False

theorem Dialed.recorded_step {s : Step} {k : DialAnswer} {r : EStateM.Result Halt World Int}
    (h : Dialed w k r) (hs : s.MayDial) : Recorded s w (leaves r) := by
  cases s with
  | connect | iterate =>
      exact h.recorded (fun _ => trivial) (fun _ => trivial) (fun _ _ _ _ => trivial) trivial
  | send | disconnect => exact hs.elim

theorem Received.recorded_step {k : RecvAnswer} {r : EStateM.Result Halt World Int}
    (h : Received w k r) (k' : RoundAnswer) : Recorded (.iterate k') w (leaves r) :=
  h.recorded (fun _ _ => trivial) trivial fun _ => trivial

theorem HungUp.recorded_step {s : Step} {r : EStateM.Result Halt World Unit} (h : HungUp w r)
    (hs : ¬ s.MayDial) : Recorded s w (settle s r) := by
  obtain ⟨es, ht, hes⟩ := h.trace
  cases s with
  | send | disconnect =>
      exact ⟨_, (settle_trace _ r).trans ht,
        forall_mem_hangingUp_append hes trivial trivial trivial⟩
  | connect | iterate => exact (hs trivial).elim

/-- Every step records only what such a step may. -/
theorem Move.recorded {s : Step} {w' : World} (h : Move f fuel w s w') : Recorded s w w' := by
  have called : ∀ {pHost port reconnect lookup k} {w₁ w' : World}, w₁.trace = w.trace ++
      [.connect pHost port reconnect, .gethostbyname pHost lookup] →
      Recorded (.connect pHost port reconnect lookup k) w₁ w' →
      Recorded (.connect pHost port reconnect lookup k) w w' := fun ht h =>
    Recorded.trans ⟨_, ht, by simp [Step.Records]⟩ h
  cases h with
  | lookupFailed => exact ⟨_, rfl, by simp [Step.Records]⟩
  | aimed => exact ⟨_, rfl, by simp [Step.Records]⟩
  | started _ _ _ _ _ hr hj hd =>
      exact called rfl (.trans (hd.recorded_step (by trivial))
        (recorded_record (by simp [Step.Records])))
  | startHalted _ _ _ _ _ hr hd => exact called rfl (hd.recorded_step (by trivial))
  | startTerminated _ _ _ _ _ hr hj hd =>
      exact called rfl (.trans (hd.recorded_step (by trivial))
        (recorded_record (by simp [Step.Records])))
  | sendIdle => exact ⟨[], (List.append_nil _).symm, by simp⟩
  | sent => exact recorded_record (by simp [Step.Records])
  | sendFailed _ _ hc _ hh =>
      exact (recorded_record (by simp [Step.Records])).trans (hh.recorded_step id)
  | hungUp hh => exact hh.recorded_step id
  | idle => exact ⟨[], (List.append_nil _).symm, by simp⟩
  | received k exceptional hwatch hsel hrun =>
      have hrec := received_of_run hrun
      cases exceptional with
      | false => exact hrec.recorded_step k
      | true => exact (hrec.recorded_step k).trans (recorded_record (by simp [Step.Records]))
  | receiveHalted k exceptional hwatch hsel hrun =>
      have hrec := received_of_run hrun
      exact hrec.recorded_step k
  | excepted => exact recorded_record (by simp [Step.Records])
  | redialed k hr hsel hd => exact hd.recorded_step trivial
  | redialHalted k hr hsel hd => exact hd.recorded_step trivial

end

end PBTransfor.Tcp
