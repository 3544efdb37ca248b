import PBTransfor.Tcp.Reassembly

/-!
# Tcp — what each connection delivers

A trace is cut at its `on_connected`s: what lies between one and the next is the *session* of
one connection.  Nothing empties `recv_buf` when a connection is lost, so what it left pending
stands in front of the next connection's bytes.
-/

namespace PBTransfor.Tcp

open Library

/-! ### Sessions -/

/-- The sessions of a trace one event longer. -/
def addEvent (ss : List (List Event)) (e : Event) : List (List Event) :=
  match e, ss with
  | .onConnected, ss => [] :: ss
  | _, [] => []
  | e, s :: ss => (s ++ [e]) :: ss

/-- The sessions of a trace, the latest first. -/
def sessions (trace : List Event) : List (List Event) := trace.foldl addEvent []

/-- The bytes a trace takes in. -/
def received (trace : List Event) : List Byte :=
  trace.flatMap fun
    | .recv _ _ (some bytes) => bytes
    | _ => []

/-- An event that is neither a connection made, nor bytes taken in, nor a packet delivered. -/
def Event.Silent : Event → Prop
  | .onConnected | .onRecv _ => False
  | .recv _ _ bytes => bytes.getD [] = []
  | _ => True

@[simp] theorem received_append (t t' : List Event) :
    received (t ++ t') = received t ++ received t' := List.flatMap_append

theorem sessions_append (t t' : List Event) :
    sessions (t ++ t') = t'.foldl addEvent (sessions t) := List.foldl_append

/-- Events that make no connection belong to the latest session. -/
theorem foldl_addEvent {es : List Event} (h : ∀ e ∈ es, e ≠ .onConnected) :
    ∀ s ss, es.foldl addEvent (s :: ss) = (s ++ es) :: ss := by
  induction es with
  | nil => intro s ss; simp
  | cons e es ih =>
      intro s ss
      have he : addEvent (s :: ss) e = (s ++ [e]) :: ss := by
        have := h e (by simp)
        cases e <;> first | rfl | exact absurd rfl this
      rw [List.foldl_cons, he, ih (fun e' h' => h e' (by simp [h'])), List.append_assoc]
      rfl

theorem foldl_addEvent_nil {es : List Event} (h : ∀ e ∈ es, e ≠ .onConnected) :
    es.foldl addEvent [] = [] := by
  induction es with
  | nil => rfl
  | cons e es ih =>
      have he : addEvent [] e = [] := by
        have := h e (by simp)
        cases e <;> first | rfl | exact absurd rfl this
      rw [List.foldl_cons, he, ih fun e' h' => h e' (by simp [h'])]

theorem Event.Silent.ne_onConnected {e : Event} (h : e.Silent) : e ≠ .onConnected := by
  rintro rfl; exact h

theorem received_silent {es : List Event} (h : ∀ e ∈ es, e.Silent) : received es = [] := by
  simp only [received, List.flatMap_eq_nil_iff]
  intro e he
  have := h e he
  cases e with
  | recv fd space bytes =>
      cases bytes with
      | none => rfl
      | some b => exact this
  | _ => rfl

theorem delivered_silent {es : List Event} (h : ∀ e ∈ es, e.Silent) : delivered es = [] := by
  simp only [delivered, List.filterMap_eq_nil_iff]
  intro e he
  have := h e he
  cases e <;> first | rfl | exact this.elim

/-! ### What a step does to the receive buffer -/

/-- The step makes a connection. -/
def Connects (w : World) (s : Step) : Prop :=
  w.control.admits s = true ∧ match s with
    | .connect _ _ _ lookup k =>
        lookup.isSome ∧ w.isRunning = false ∧ k.socket.isSome ∧ k.connect = true
    | .iterate k =>
        w.Redialing ∧ k.select ≠ .error ∧ k.dial.socket.isSome ∧ k.dial.connect = true
    | _ => False

instance (w : World) : ∀ s, Decidable (Connects w s)
  | .connect .. | .iterate _ | .send .. | .disconnect => inferInstanceAs (Decidable (_ ∧ _))

/-- `w'` has `w`'s receive buffer, and `es` has been recorded. -/
structure Untouched (w w' : World) (es : List Event) : Prop where
  trace : w'.trace = w.trace ++ es
  recvBuf : w'.recvBuf = w.recvBuf
  recvBufPos : w'.recvBufPos = w.recvBufPos

section
variable {f : List Byte → Int32} {fuel : Nat} {w w' : World}

/-- What `do_connect` does to the receive buffer: nothing. -/
theorem Dialed.untouched {k : DialAnswer} {r : EStateM.Result Halt World Int} (h : Dialed w k r) :
    (∃ es, Untouched w (Program.leaves r) es ∧ (∀ e ∈ es, e.Silent) ∧
      (Program.leaves r).isConnected = w.isConnected) ∨
    ∃ es, Untouched w (Program.leaves r) (es ++ [.onConnected]) ∧ (∀ e ∈ es, e.Silent) ∧
      k.socket.isSome ∧ k.connect = true := by
  have hs : ∀ es : List Event, (∀ e ∈ es, e.Silent) → ∀ e ∈ w.closing ++ es, e.Silent :=
    fun _ => forall_mem_closing_append trivial
  cases h with
  | noSocket => exact .inl ⟨_, ⟨rfl, rfl, rfl⟩, hs _ (by simp [Event.Silent]), rfl⟩
  | noHost => exact .inl ⟨_, ⟨rfl, rfl, rfl⟩, hs _ (by simp [Event.Silent]), rfl⟩
  | refused => exact .inl ⟨_, ⟨rfl, rfl, rfl⟩, hs _ (by simp [Event.Silent]), rfl⟩
  | accepted n addr hosts hsock hm hc =>
      refine .inr ⟨w.closing ++ [Event.socket n, .dial n addr w.mPort true], ⟨?_, rfl, rfl⟩,
        hs _ (by simp [Event.Silent]), by simp [hsock], hc⟩
      simp [World.record]

/-- What `disconnect` does to the receive buffer: nothing. -/
theorem HungUp.untouched {r : EStateM.Result Halt World Unit} (h : HungUp w r) :
    ∃ es, Untouched w (Program.leaves r) es ∧ (∀ e ∈ es, e.Silent) ∧
      ((Program.leaves r).isConnected = true → w.isConnected = true) := by
  obtain ⟨es, ht, hes⟩ := h.trace
  refine ⟨w.hangingUp .owner none ++ es, ⟨ht, ?_, ?_⟩,
    forall_mem_hangingUp_append hes trivial trivial trivial, ?_⟩
  · cases h with
    | raised => rw [Program.leaves_error, World.unplug_eq]; rfl
    | blocked => rfl
    | done => rfl
  · cases h with
    | raised => rw [Program.leaves_error, World.unplug_eq]; rfl
    | blocked => rfl
    | done => rfl
  · cases h with
    | raised => rw [Program.leaves_error, World.unplug_eq]; exact id
    | blocked => exact id
    | done => exact fun h => (Bool.false_ne_true h).elim

/-- The four things a step can do to the receive buffer. -/
inductive Receiving (f : List Byte → Int32) (fuel : Nat) (w : World) : Step → World → Prop where
  | untouched {s w'} (es) (hu : Untouched w w' es) (hes : ∀ e ∈ es, e.Silent)
      (hc : w'.isConnected = true → w.isConnected = true) : Receiving f fuel w s w'
  | connected {s w'} (es es') (hu : Untouched w w' (es ++ .onConnected :: es'))
      (hes : ∀ e ∈ es, e.Silent) (hes' : ∀ e ∈ es', e.Silent) (hs : Connects w s) :
      Receiving f fuel w s w'
  | received {k exceptional ret w₁} (hw : w.Watched) (hs : k.select = .ready true exceptional)
      (hrun : (doRecv (.quiet f) fuel k.recv).run w = .ok ret w₁) :
      Receiving f fuel w (.iterate k) (if exceptional then w₁.record [.onDisconnect] else w₁)
  | halted {k h w₁ exceptional} (hw : w.Watched) (hs : k.select = .ready true exceptional)
      (hrun : (doRecv (.quiet f) fuel k.recv).run w = .error h w₁) :
      Receiving f fuel w (.iterate k) { w₁ with control := .ended }

/-- `connect` on a client that is not running dials from a world that differs from `w` in what
`do_connect` reads. -/
theorem Receiving.of_start {pHost port reconnect l k} {r : EStateM.Result Halt World Int}
    {w' : World} (ha : w.control.admits (.connect pHost port reconnect (some l) k) = true)
    (hr : w.isRunning = false)
    (hd : Dialed { w.aim pHost port reconnect l with isRunning := true } k r)
    {es' : List Event} (htrace : w'.trace = (Program.leaves r).trace ++ es')
    (hes' : ∀ e ∈ es', e.Silent)
    (hbuf : w'.recvBuf = (Program.leaves r).recvBuf)
    (hpos : w'.recvBufPos = (Program.leaves r).recvBufPos)
    (hconn : w'.isConnected = (Program.leaves r).isConnected) :
    Receiving f fuel w (.connect pHost port reconnect (some l) k) w' := by
  have hpre : ∀ es : List Event, (∀ e ∈ es, e.Silent) → ∀ e ∈
      [.connect pHost port reconnect, .gethostbyname pHost (some l)] ++ es, e.Silent := by
    intro es hes
    have hcall : ∀ e ∈ [Event.connect pHost port reconnect, .gethostbyname pHost (some l)],
        e.Silent := by simp [Event.Silent]
    exact List.forall_mem_append.mpr ⟨hcall, hes⟩
  rcases hd.untouched with ⟨es, hu, hes, hc⟩ | ⟨es, hu, hes, hs, hc⟩
  · refine .untouched
      ([.connect pHost port reconnect, .gethostbyname pHost (some l)] ++ (es ++ es'))
      ⟨?_, hbuf.trans hu.recvBuf, hpos.trans hu.recvBufPos⟩
      (hpre _ (List.forall_mem_append.mpr ⟨hes, hes'⟩))
      (fun h => by rw [hconn, hc] at h; exact h)
    rw [htrace, hu.trace]
    simp [World.aim, World.retarget]
  · refine .connected ([.connect pHost port reconnect, .gethostbyname pHost (some l)] ++ es) es'
      ⟨?_, hbuf.trans hu.recvBuf, hpos.trans hu.recvBufPos⟩ (hpre es hes) hes'
      ⟨ha, rfl, hr, hs, hc⟩
    rw [htrace, hu.trace]
    simp [World.aim, World.retarget]

theorem Move.receiving {s : Step} (ha : w.control.admits s = true) (h : Move f fuel w s w') :
    Receiving f fuel w s w' := by
  have same : ∀ {s : Step} {w' : World} {es : List Event}, w'.toTcpClient = w.toTcpClient →
      w'.trace = w.trace ++ es → (∀ e ∈ es, e.Silent) → Receiving f fuel w s w' :=
    fun hc ht hes => .untouched _ ⟨ht, by rw [hc], by rw [hc]⟩ hes (fun h => by rwa [hc] at h)
  cases h with
  | lookupFailed =>
      exact .untouched _ ⟨rfl, rfl, rfl⟩ (by simp [Event.Silent]) id
  | aimed => exact .untouched _ ⟨rfl, rfl, rfl⟩ (by simp [Event.Silent]) id
  | started pHost port reconnect l k hr hj hd =>
      exact .of_start ha hr hd rfl (by simp [Event.Silent]) rfl rfl rfl
  | startHalted pHost port reconnect l k hr hd =>
      exact .of_start ha hr hd (List.append_nil _).symm (by simp) rfl rfl rfl
  | startTerminated pHost port reconnect l k hr hj hd =>
      exact .of_start ha hr hd rfl (by simp [Event.Silent]) rfl rfl rfl
  | sendIdle => exact same rfl (List.append_nil _).symm (by simp)
  | sent => exact same rfl rfl (by simp [Event.Silent])
  -- `disconnect` inside `send` leaves the buffer as it is
  | sendFailed pData accepted hc hret hh =>
      obtain ⟨es, hu, hes, hconn⟩ := hh.untouched
      refine .untouched ([.send w.fd (passed pData) accepted, .onDisconnect] ++ es)
        ⟨?_, ?_, ?_⟩ ?_ (fun h => ?_)
      · rw [settle_trace, hu.trace]
        exact List.append_assoc ..
      · rw [settle_toTcpClient, hu.recvBuf]; rfl
      · rw [settle_toTcpClient, hu.recvBufPos]; rfl
      · have hsend : ∀ e ∈ [Event.send w.fd (passed pData) accepted, .onDisconnect], e.Silent := by
          simp [Event.Silent]
        exact List.forall_mem_append.mpr ⟨hsend, hes⟩
      · rw [settle_toTcpClient] at h; exact hconn h
  | hungUp hh =>
      obtain ⟨es, hu, hes, hconn⟩ := hh.untouched
      refine .untouched es ⟨?_, ?_, ?_⟩ hes (fun h => ?_)
      · rw [settle_trace, hu.trace]
      · rw [settle_toTcpClient, hu.recvBuf]
      · rw [settle_toTcpClient, hu.recvBufPos]
      · rw [settle_toTcpClient] at h; exact hconn h
  | idle => exact same rfl (List.append_nil _).symm (by simp)
  | received k exceptional hw hs hrun => exact .received hw hs hrun
  | receiveHalted k exceptional hw hs hrun => exact .halted hw hs hrun
  | excepted => exact same rfl rfl (by simp [Event.Silent])
  -- `do_connect` either gets as far as a new connection, or it does not
  | redialed k hw hsel hd =>
      rcases hd.untouched with ⟨es, hu, hes, hc⟩ | ⟨es, hu, hes, hs, hc⟩
      · exact .untouched _ hu hes (fun h => hc ▸ h)
      · exact .connected es [] hu hes (by simp) ⟨ha, hw, hsel, hs, hc⟩
  | redialHalted k hw hsel hd =>
      rcases hd.untouched with ⟨es, hu, hes, hc⟩ | ⟨es, hu, hes, hs, hc⟩
      · exact .untouched _ ⟨hu.trace, hu.recvBuf, hu.recvBufPos⟩ hes (fun h => hc ▸ h)
      · exact .connected es [] ⟨hu.trace, hu.recvBuf, hu.recvBufPos⟩ hes (by simp)
          ⟨ha, hw, hsel, hs, hc⟩

end

end PBTransfor.Tcp
