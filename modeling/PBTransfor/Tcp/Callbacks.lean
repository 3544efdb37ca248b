import PBTransfor.Tcp.Coherent

/-!
# Tcp — the order of the callbacks

`reports` follows a run and lists what it reports: `on_connected`, and the losses of a connection.
The owner's own `disconnect` ends a connection without a callback, so that `on_connected` can
follow `on_connected` (`reconnecting_repeats`).  Counted as the loss it is, `on_connected` and the
losses alternate in every run in which `select` finds no exceptional condition, and
`is_connected` says which of them came last (`run_link`).
-/

namespace PBTransfor.Tcp

open Library Library.Program

/-- The callbacks of a trace, `true` for `on_connected` and `false` for `on_disconnect`. -/
def callbacks (trace : List Event) : List Bool :=
  trace.filterMap fun
    | .onConnected => some true
    | .onDisconnect => some false
    | _ => none

/-- Reports that alternate, beginning with `on_connected`. -/
def Alternating (bs : List Bool) : Prop :=
  bs = (List.range bs.length).map fun i => decide (i % 2 = 0)

instance (bs : List Bool) : Decidable (Alternating bs) := inferInstanceAs (Decidable (bs = _))

/-- The loss that the owner makes: its own `disconnect`, called while the last report is
`on_connected`. -/
def ownLoss (bs : List Bool) (w : World) (s : Step) : List Bool :=
  if s = .disconnect ∧ w.control.admits s = true ∧ bs.getLast? = some true then [false] else []

/-- What is reported once the steps `l` have been taken from `w`, where `bs` had been reported:
`true` for `on_connected`, `false` for `on_disconnect` and for a loss that the owner makes. -/
def reports (v : Virtuals) (fuel : Nat) : List Bool → World → List Step → List Bool
  | bs, _, [] => bs
  | bs, w, s :: l =>
      let w' := next v fuel w s
      reports v fuel (bs ++ (callbacks (w'.trace.drop w.trace.length) ++ ownLoss bs w s)) w' l

/-- Whether `select` finds an exceptional condition in the step. -/
def Step.exceptional : Step → Bool
  | .iterate k => match k.select with
    | .ready _ exceptional => exceptional
    | _ => false
  | _ => false

/-! ### What one step reports -/

/-- A step that takes `is_connected` from `c` to `c'` reports `bs`: nothing when it leaves it as
it is, and otherwise its new value. -/
inductive Turns (c : Bool) : Bool → List Bool → Prop where
  | stay : Turns c c []
  | turn : Turns c (!c) [!c]

/-- `w'` comes from `w` by callbacks that report what has changed. -/
def Told (w w' : World) : Prop :=
  ∃ es, w'.trace = w.trace ++ es ∧ Turns w.isConnected w'.isConnected (callbacks es)

/-- An event that is not a callback about the connection. -/
def Event.Plain : Event → Prop
  | .onConnected | .onDisconnect => False
  | _ => True

theorem callbacks_append (es es' : List Event) :
    callbacks (es ++ es') = callbacks es ++ callbacks es' := List.filterMap_append

theorem callbacks_plain {es : List Event} (h : ∀ e ∈ es, e.Plain) : callbacks es = [] := by
  refine List.filterMap_eq_nil_iff.mpr fun e he => ?_
  have hplain := h e he
  cases e <;> first | rfl | exact hplain.elim

section
variable {f : List Byte → Int32} {fuel : Nat} {w w₁ w' : World} {s : Step} {es : List Event}

/-- Nothing is reported, and nothing has changed. -/
theorem Told.quiet (ht : w'.trace = w.trace ++ es) (hes : ∀ e ∈ es, e.Plain)
    (hc : w'.isConnected = w.isConnected) : Told w w' :=
  ⟨es, ht, by rw [callbacks_plain hes, hc]; exact .stay⟩

theorem Told.refl (w : World) : Told w w :=
  .quiet (List.append_nil _).symm (fun _ h => absurd h List.not_mem_nil) rfl

theorem Told.after (h : Told w₁ w') (ht : w₁.trace = w.trace ++ es) (hes : ∀ e ∈ es, e.Plain)
    (hc : w₁.isConnected = w.isConnected) : Told w w' := by
  obtain ⟨es', ht', htold⟩ := h
  refine ⟨es ++ es', by rw [ht', ht, List.append_assoc], ?_⟩
  rwa [callbacks_append, callbacks_plain hes, List.nil_append, ← hc]

theorem Told.before (h : Told w w₁) (ht : w'.trace = w₁.trace ++ es) (hes : ∀ e ∈ es, e.Plain)
    (hc : w'.isConnected = w₁.isConnected) : Told w w' := by
  obtain ⟨es', ht', htold⟩ := h
  refine ⟨es' ++ es, by rw [ht, ht', List.append_assoc], ?_⟩
  rwa [callbacks_append, callbacks_plain hes, List.append_nil, hc]

/-- A dial from a client that is not connected. -/
theorem Dialed.told {k : DialAnswer} {r : EStateM.Result Halt World Int} (h : Dialed w k r)
    (hc : w.isConnected = false) : Told w (leaves r) := by
  have plain : ∀ es : List Event, (∀ e ∈ es, e.Plain) → ∀ e ∈ w.closing ++ es, e.Plain :=
    fun _ hes => forall_mem_closing_append trivial hes
  cases h with
  | noSocket => exact .quiet rfl (plain _ (by simp [Event.Plain])) rfl
  | noHost => exact .quiet rfl (plain _ (by simp [Event.Plain])) rfl
  | refused => exact .quiet rfl (plain _ (by simp [Event.Plain])) rfl
  | accepted n addr =>
      refine ⟨w.closing ++ [Event.socket n, .dial n addr w.mPort true] ++ [.onConnected],
        by simp, ?_⟩
      rw [callbacks_append, callbacks_plain (plain _ (by simp [Event.Plain])), hc]
      exact .turn

/-- A call of `disconnect` fires no callback. -/
theorem hangingUp_plain (hes : es = [] ∨ es = [.hungUp]) :
    ∀ e ∈ w.hangingUp .owner none ++ es, e.Plain :=
  forall_mem_hangingUp_append hes trivial trivial trivial

theorem Received.told {k : RecvAnswer} {r : EStateM.Result Halt World Int}
    (h : Received w k r) (hc : w.isConnected = true) : Told w (leaves r) := by
  have packets : ∀ (bytes : List Byte) (pkts : List (List Byte)),
      ∀ e ∈ Event.recv w.fd w.space (some bytes) :: pkts.map .onRecv, e.Plain := by
    simp [Event.Plain]
  cases h with
  | lost => exact ⟨_, rfl, by rw [hc]; exact .turn⟩
  | data bytes pkts => exact .quiet rfl (packets bytes pkts) rfl
  | halted _ bytes pkts => exact .quiet rfl (packets bytes pkts) rfl
  | overrun => exact .refl _

/-- The owner's `disconnect` fires no callback, and leaves the client down. -/
theorem HungUp.untold {r : EStateM.Result Halt World Unit} (hh : HungUp w r) (s : Step)
    (hcoh : w.Coherent) : ∃ es, (settle s r).trace = w.trace ++ es ∧ (∀ e ∈ es, e.Plain) ∧
      (settle s r).isConnected = false := by
  obtain ⟨es, ht, hes⟩ := hh.trace
  refine ⟨_, (settle_trace s r).trans ht, hangingUp_plain hes, ?_⟩
  rw [settle_toTcpClient]
  exact (hh.unplugged hcoh).2

/-- **Every step but `disconnect` reports what it changes**, if `select` finds no exceptional
condition. -/
theorem Move.told (h : Move f fuel w s w') (hcoh : w.Coherent) (hs : s.exceptional = false)
    (hown : s ≠ .disconnect) : Told w w' := by
  have called : ∀ {pHost port reconnect l k} {r : EStateM.Result Halt World Int},
      w.isRunning = false →
      Dialed { w.aim pHost port reconnect l with isRunning := true } k r → Told w (leaves r) := by
    intro pHost port reconnect l k r hr hd
    have plain : ∀ e ∈ [Event.connect pHost port reconnect, .gethostbyname pHost (some l)],
        e.Plain := by simp [Event.Plain]
    exact (hd.told (hcoh.unplugged hr).2).after rfl plain rfl
  have spawned : ∀ b, ∀ e ∈ [Event.spawn b], e.Plain := by simp [Event.Plain]
  cases h with
  | lookupFailed => exact .quiet rfl (by simp [Event.Plain]) rfl
  | aimed => exact .quiet rfl (by simp [Event.Plain]) rfl
  | started _ _ _ _ _ hr _ hd => exact (called hr hd).before rfl (spawned _) rfl
  | startHalted _ _ _ _ _ hr hd => exact called hr hd
  | startTerminated _ _ _ _ _ hr _ hd => exact (called hr hd).before rfl (spawned _) rfl
  | sendIdle => exact .refl w
  | sent => exact .quiet rfl (by simp [Event.Plain]) rfl
  -- `on_disconnect` is called before `disconnect`, which finds nothing to report
  | sendFailed pData accepted hc _ hh =>
      rw [hh.done_of_connected hcoh hc]
      have lost : Told w (w.record [.send w.fd (passed pData) accepted, .onDisconnect]).shutDown :=
        ⟨_, rfl, by rw [hc]; exact .turn⟩
      exact lost.before rfl (hangingUp_plain (.inr rfl)) rfl
  | hungUp => exact absurd rfl hown
  | idle => exact .refl w
  | received k exceptional hwatch hsel hrun =>
      have hrec := received_of_run hrun
      have he : exceptional = false := by simpa [Step.exceptional, hsel] using hs
      rw [he]
      exact hrec.told hwatch.isConnected
  | receiveHalted k exceptional hwatch hsel hrun =>
      have hrec := received_of_run hrun
      exact hrec.told hwatch.isConnected
  -- `on_disconnect` without a loss: the rounds left out
  | excepted k hwatch hsel => simp [Step.exceptional, hsel] at hs
  | redialed k hr hsel hd => exact hd.told hr.isConnected
  | redialHalted k hr hsel hd => exact hd.told hr.isConnected

/-! ### What a run reports -/

/-- `bs` alternates, and its last report says whether the client is connected. -/
structure Linked (bs : List Bool) (w : World) : Prop where
  alternating : Alternating bs
  connected : w.isConnected = true ↔ bs.getLast? = some true

variable {bs : List Bool}

theorem Alternating.append {b : Bool} (h : Alternating bs) (hb : b = decide (bs.length % 2 = 0)) :
    Alternating (bs ++ [b]) := by
  rw [Alternating, List.length_append, List.length_singleton, List.range_succ, List.map_append,
    ← h, hb]
  rfl

/-- The last report of an alternating list is `on_connected` when their number is odd. -/
theorem Alternating.getLast?_eq (h : Alternating bs) :
    bs.getLast? = some true ↔ bs.length % 2 = 1 := by
  rw [List.getLast?_eq_getElem?]
  by_cases hlen : bs.length = 0
  · rw [List.length_eq_zero_iff.mp hlen]
    simp
  · have hlt : bs.length - 1 < (List.range bs.length).length := by
      rw [List.length_range]; omega
    conv_lhs => rw [h]
    rw [List.length_map, List.length_range, List.getElem?_map, List.getElem?_eq_getElem hlt,
      List.getElem_range]
    simp only [Option.map_some, Option.some.injEq, decide_eq_true_eq]
    omega

theorem Linked.turn (h : Linked bs w) {bs' : List Bool}
    (hturn : Turns w.isConnected w'.isConnected bs') : Linked (bs ++ bs') w' := by
  generalize hc' : w'.isConnected = c' at hturn
  cases hturn with
  | stay => exact ⟨by rw [List.append_nil]; exact h.alternating,
      by rw [List.append_nil, hc']; exact h.connected⟩
  | turn =>
      have hlast := h.connected.trans h.alternating.getLast?_eq
      refine ⟨h.alternating.append ?_, by rw [hc', List.getLast?_append]; simp⟩
      cases hc : w.isConnected with
      | true => simp [hlast.mp hc]
      | false =>
          have heven : bs.length % 2 ≠ 1 := fun h =>
            Bool.false_ne_true (hc.symm.trans (hlast.mpr h))
          simp only [Bool.not_false, eq_comm (a := true), decide_eq_true_eq]
          omega

/-- The owner's `disconnect` is a loss when the last report is `on_connected`. -/
theorem Linked.disconnect (h : Linked bs w) (hc' : w'.isConnected = false) :
    Linked (bs ++ if bs.getLast? = some true then [false] else []) w' := by
  refine h.turn ?_
  rw [hc']
  split
  case isTrue hup => rw [h.connected.mpr hup]; exact .turn
  case isFalse hup => rw [Bool.eq_false_iff.mpr fun hc => hup (h.connected.mp hc)]; exact .stay

/-- **Every step keeps the reports in turn**, if `select` finds no exceptional condition. -/
theorem Linked.step (h : Linked bs w) (hlive : w.Live) (hs : s.exceptional = false) :
    Linked (bs ++ (callbacks ((next (.quiet f) fuel w s).trace.drop w.trace.length) ++
      ownLoss bs w s)) (next (.quiet f) fuel w s) := by
  cases ha : w.control.admits s with
  | false =>
      rw [next_refused s ha, List.drop_length, ownLoss, if_neg (by simp [ha])]
      exact h.turn .stay
  | true =>
      have hcoh := hlive (ne_ended_of_admits ha)
      have hmove : Move f fuel w s (next (.quiet f) fuel w s) := next_move s ha
      by_cases hd : s = .disconnect
      · subst hd
        generalize next (.quiet f) fuel w .disconnect = w' at hmove
        cases hmove with
        | hungUp hh =>
            obtain ⟨es, ht, hplain, hc'⟩ := hh.untold .disconnect hcoh
            rw [ht, List.drop_left, callbacks_plain hplain, List.nil_append]
            simpa [ownLoss, ha] using h.disconnect hc'
      · obtain ⟨es, ht, hturn⟩ := hmove.told hcoh hs hd
        rw [ht, List.drop_left, ownLoss, if_neg fun h => hd h.1, List.append_nil]
        exact h.turn hturn

theorem linked_reports {l : List Step} (hl : ∀ s ∈ l, s.exceptional = false) :
    ∀ {bs : List Bool} {w : World}, Linked bs w → w.Live →
      Linked (reports (.quiet f) fuel bs w l) (run (next (.quiet f) fuel) w l) := by
  induction l with
  | nil => intro bs w h _; exact h
  | cons s l ih =>
      intro bs w h hlive
      have hs : s.exceptional = false := hl s List.mem_cons_self
      exact ih (fun i hi => hl i (List.mem_cons_of_mem s hi)) (h.step hlive hs)
        (next_live s hlive)

end

/-- **The callbacks come in turn.**  In a run in which `select` finds no exceptional condition,
`on_connected` and the losses, reported or made by the owner's `disconnect`, alternate beginning
with `on_connected`; and `is_connected` is true exactly when `on_connected` came last. -/
theorem run_link (f : List Byte → Int32) (fuel : Nat) (buf : Buffer Byte maxRecvBuf)
    (port : UInt16) (l : List Step) (hl : ∀ s ∈ l, s.exceptional = false) :
    Alternating (reports (.quiet f) fuel [] (World.new buf port) l) ∧
      ((run (next (.quiet f) fuel) (World.new buf port) l).isConnected = true ↔
        (reports (.quiet f) fuel [] (World.new buf port) l).getLast? = some true) := by
  have hnew : Linked [] (World.new buf port) := ⟨rfl, by simp [World.new]⟩
  have h : Linked (reports (.quiet f) fuel [] (World.new buf port) l) _ :=
    linked_reports hl hnew (live_new buf port)
  exact ⟨h.alternating, h.connected⟩

/-- A connection that the peer closes, the one the receive thread dials then, on which a message
is not sent, and a third, which the owner closes, asking twice. -/
def losing : List Step :=
  [.connect "host" 80 true (some [1]) ⟨some 3, true⟩,
    .iterate ⟨.ready true false, .closed, ⟨none, false⟩⟩,
    .iterate ⟨.timeout, .closed, ⟨some 4, true⟩⟩, .send [7] none,
    .connect "host" 80 true (some [1]) ⟨some 3, true⟩, .disconnect, .disconnect]

/-- `run_link` at three connections, lost in three ways. -/
theorem run_link_losing :
    Alternating (reports (.quiet fun _ => 0) maxRecvBuf [] (World.new (.replicate _ 0) 0) losing) ∧
      ((run (next (.quiet fun _ => 0) maxRecvBuf) (World.new (.replicate _ 0) 0)
        losing).isConnected = true ↔ (reports (.quiet fun _ => 0) maxRecvBuf []
          (World.new (.replicate _ 0) 0) losing).getLast? = some true) :=
  run_link _ _ _ _ _ (by decide)

example : reports (.quiet fun _ => 0) maxRecvBuf [] (World.new (.replicate _ 0) 0) losing =
    [true, false, true, false, true, false] := by
  decide

/-- A connection, closed by the owner, and another one. -/
def reconnecting : List Step :=
  [.connect "host" 80 true (some [1]) ⟨some 3, true⟩, .disconnect,
    .connect "host" 80 true (some [1]) ⟨some 3, true⟩]

/-- No callback reports the connection that the owner closed. -/
theorem reconnecting_repeats :
    ¬ Alternating (callbacks (run (next (.quiet fun _ => 0) maxRecvBuf)
      (World.new (.replicate _ 0) 0) reconnecting).trace) := by
  decide

end PBTransfor.Tcp
