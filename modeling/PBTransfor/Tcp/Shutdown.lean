import PBTransfor.Tcp.Moves

/-!
# Tcp — which calls of disconnect return

`disconnect` joins the receive thread whatever state it finds, and waits for the round that
thread is in.  The call returns with the client shut down exactly when it is safe (`SafeCall`,
`disconnect_returns_iff`): not made by the receive thread, while `m_recv_thread` is joinable,
either with a socket to close, which ends the loop of `run`, or after the loop has ended, and with
a round under way that comes to nothing (`Harmless`): `select` keeps it from a socket, and it dials
no other.  After it there is no thread to join, so that a second `disconnect` is not safe.

The callbacks are user code here: they may call `connect`, `send` and `disconnect` in the thread
they run in, whose callbacks are user code again, and catch what these raise (`UserCode`).  In
every run, every call of `disconnect` returns with the client shut down, and no thread is
assigned over a joinable one, exactly when every call is safe (`run_returned_iff`).  Without
rounds under way the runs are those of `next` (`run_nextIn_none`).
-/

namespace PBTransfor.Tcp

open Library Library.Program

/-! ### A call of disconnect -/

/-- The round `k`, under way while `disconnect` is called in the state `b`, comes to nothing:
`select` fails, or it finds nothing and `run` does not dial, or dials and gets no socket. -/
def Harmless (b : Before) (k : RoundAnswer) : Prop :=
  let (ret, _, _) := select b.watched k.select
  ret = -1 ∨ ret = 0 ∧ (b.isConnected = true ∨ b.isReconnect = false ∨ k.dial.socket = none)

/-- A call of `disconnect` from the thread `self`, on a client in the state `b`, that joins a
thread other than its own which is sure to end, and which is left nothing to do. -/
def SafeCall (self : Thread) (b : Before) (underWay : Option RoundAnswer) : Prop :=
  self = .owner ∧ b.joinable = true ∧ (b.fd ≠ -1 ∨ b.isRunning = false) ∧
    ∀ k ∈ underWay, Harmless b k

instance (b : Before) (k : RoundAnswer) : Decidable (Harmless b k) :=
  inferInstanceAs (Decidable (_ ∨ _ ∧ (_ ∨ _ ∨ _)))

instance (self : Thread) (b : Before) (underWay : Option RoundAnswer) :
    Decidable (SafeCall self b underWay) :=
  inferInstanceAs (Decidable (_ ∧ _ ∧ (_ ∨ _) ∧ _))

/-- If the event is a call of `disconnect`, it is a safe one, in the state before it. -/
def Event.Safe : Event → Prop
  | .disconnect self before underWay => SafeCall self before underWay
  | _ => True

/-- Whether a call of `disconnect` has not returned, after the event; `none` if another one is
made before it has, or if it returns and does not leave the client shut down. -/
def await (called : Bool) : Event → Option Bool
  | .disconnect .. => if called then none else some true
  | .disconnected fd isRunning isConnected joinable =>
      if called ∧ (fd, isRunning, isConnected, joinable) = (-1, false, false, false) then
        some false
      else none
  | _ => some called

/-- Every call of `disconnect` in the trace returns before the next, and leaves the client shut
down. -/
def Returned (trace : List Event) : Prop := trace.foldlM await false = some false

instance : DecidablePred Event.Safe
  | .disconnect self before underWay =>
      inferInstanceAs (Decidable (SafeCall self before underWay))
  | .connect .. | .disconnected .. | .spawn _ | .gethostbyname .. | .socket _ | .dial ..
  | .close _ | .recv .. | .send .. | .onConnected | .onDisconnect | .onRecv _ => isTrue trivial

instance (trace : List Event) : Decidable (Returned trace) := inferInstanceAs (Decidable (_ = _))

section
variable {w w' : World} {self : Thread} {v : Virtuals} {fuel : Nat}
  {underWay : Option RoundAnswer} {round : Method Unit}

/-! ### Joining -/

theorem join_raises (h : w.mRecvThread = false ∨ self = .receiver) :
    (join self round).run w = .error .raised w := by
  simp only [join, EStateM.run_bind, EStateM.run_get, if_pos h, run_halt]

theorem join_blocks (hj : w.mRecvThread = true) (hr : w.isRunning = true) :
    (join .owner round).run w = .error .blocked w := by
  simp [join, hj, hr]

/-- The owner waits for the round under way, and for the loop of `run` to end. -/
theorem join_waits (round : Method Unit) (hj : w.mRecvThread = true)
    (hr : w.isRunning = false) : (join .owner round).run w = match round.run w with
      | .ok _ w₁ => if w₁.isRunning then .error .blocked w₁
          else .ok () { w₁ with mRecvThread := false }
      | .error h w₁ => .error h.uncaught w₁ := by
  have hjoins : ¬ (w.mRecvThread = false ∨ Thread.owner = .receiver) := by simp [hj]
  have hends : ¬ w.isRunning = true := by simp [hr]
  simp only [join, EStateM.run_bind, EStateM.run_get, if_neg hjoins, if_neg hends, run_tryCatch]
  cases round.run w with
  | error h w₁ => rfl
  | ok _ w₁ =>
      dsimp only
      split <;> rfl

/-- The client that `disconnect` joins from: its socket is closed, and the loop of `run` is told to
end if there was one. -/
structure World.Unplugged (w : World) (b : Before) : Prop where
  fd : w.fd = -1
  isConnected : w.isConnected = b.isConnected
  isReconnect : w.isReconnect = b.isReconnect

theorem unplug_trace (es : List Event) : (w.unplug.record es).trace = w.trace ++ es := by
  rw [World.record_trace, World.unplug_eq]

/-! ### The round under way -/

/-- `FD_ISSET` is asked of `fd`, which `disconnect` has set to `-1`. -/
theorem onReady_unplugged (hfd : w.fd = -1) (k : RoundAnswer) (readFds exceptFds : List Int) :
    (onReady v fuel k readFds exceptFds).run w = .error .undefined w := by
  simp [onReady, fdIsSet, hfd]

theorem onTimeout_still (h : w.isConnected = true ∨ w.isReconnect = false) (k : RoundAnswer) :
    (onTimeout v k).run w = .ok () w := by
  rcases h with h | h <;> simp [onTimeout, h]

theorem onTimeout_redial (hc : w.isConnected = false) (hr : w.isReconnect = true)
    (k : RoundAnswer) : (onTimeout v k).run w = match (doConnect v k.dial).run w with
      | .ok _ w₁ => .ok () w₁
      | .error h w₁ => .error h w₁ := by
  cases hrun : (doConnect v k.dial).run w <;> simp [onTimeout, hc, hr, hrun]

theorem doConnect_socketless (hfd : w.fd = -1) {k : DialAnswer} (hs : k.socket = none) :
    (doConnect v k).run w = .ok (-1) (w.record [.socket (-1)]) := by
  have hset : { w.toTcpClient with fd := -1 } = w.toTcpClient := by rw [← hfd]
  simpa [doConnect, socket, emit, World.record, hfd, hs] using hset

variable (v fuel) in
/-- A harmless round leaves the client as it is. -/
theorem leftOver_harmless {b : Before} (hw : w.Unplugged b) (h : ∀ k ∈ underWay, Harmless b k) :
    ∃ es, (leftOver v fuel b.watched underWay).run w = .ok () (w.record es) ∧
      (es = [] ∨ es = [.socket (-1)]) := by
  have still : w.record [] = w := by simp [World.record]
  cases underWay with
  | none => exact ⟨[], by rw [still]; rfl, .inl rfl⟩
  | some k =>
      have hk := h k rfl
      rcases hs : select b.watched k.select with ⟨ret, readFds, exceptFds⟩
      simp only [Harmless, hs] at hk
      rw [leftOver, afterSelect_eq v k hs]
      rcases hk with hret | ⟨hret, hk⟩
      · exact ⟨[], by rw [if_pos hret, still], .inl rfl⟩
      · rw [if_neg (by omega), if_neg (not_not_intro hret)]
        by_cases hstill : w.isConnected = true ∨ w.isReconnect = false
        · exact ⟨[], by rw [onTimeout_still hstill, still], .inl rfl⟩
        · obtain ⟨hc, hr⟩ := not_or.mp hstill
          have hsock : k.dial.socket = none := by
            rcases hk with hk | hk | hk
            · exact absurd (hw.isConnected.trans hk) hc
            · exact absurd (hw.isReconnect.trans hk) hr
            · exact hk
          refine ⟨[.socket (-1)], ?_, .inr rfl⟩
          rw [onTimeout_redial (Bool.eq_false_iff.mpr hc) (by simpa using hr),
            doConnect_socketless hw.fd hsock]

variable (v fuel) in
/-- A round that is not harmless asks `FD_ISSET` of `-1`, or dials on a socket of its own. -/
theorem leftOver_harmful {b : Before} {k : RoundAnswer} (hw : w.Unplugged b)
    (h : ¬ Harmless b k) :
    (leftOver v fuel b.watched (some k)).run w = .error .undefined w ∨
      ∃ n, k.dial.socket = some n ∧ (leftOver v fuel b.watched (some k)).run w =
        match (doConnect v k.dial).run w with
        | .ok _ w₁ => .ok () w₁
        | .error h w₁ => .error h w₁ := by
  rcases hs : select b.watched k.select with ⟨ret, readFds, exceptFds⟩
  simp only [Harmless, hs, not_or, not_and] at h
  obtain ⟨herr, h⟩ := h
  rw [leftOver, afterSelect_eq v k hs, if_neg herr]
  by_cases hret : ret = 0
  · obtain ⟨hc, hr, hsock⟩ := h hret
    rw [← hw.isConnected] at hc
    rw [← hw.isReconnect] at hr
    refine .inr ?_
    cases hn : k.dial.socket with
    | none => exact absurd hn hsock
    | some n =>
        refine ⟨n, rfl, ?_⟩
        rw [if_neg (not_not_intro hret), onTimeout_redial (Bool.eq_false_iff.mpr hc)
          (by simpa using hr)]
  · exact .inl (by rw [if_pos hret, onReady_unplugged hw.fd])

end

/-! ### The shape of a trace -/

/-- An event that is neither a call of `disconnect` nor its return. -/
def Event.Outside : Event → Prop
  | .disconnect .. | .disconnected .. => False
  | _ => True

/-- An event that is neither a call of `disconnect` nor a thread assigned over a joinable one. -/
def Event.Uncalled : Event → Prop
  | .disconnect .. | .spawn true => False
  | _ => True

/-- The trace of a program that calls `disconnect` now and then.  A safe call returns with the
client shut down, and nothing is called before; an unsafe one does not return, or returns to a
client that is not shut down, unless the round under way has called `disconnect` itself or
started a second thread. -/
inductive Calls : List Event → Prop where
  | nil : Calls []
  | event {e : Event} {es : List Event} (he : e.Outside) (h : Calls es) : Calls (e :: es)
  | returned {self : Thread} {before : Before} {underWay : Option RoundAnswer}
      {es₀ es : List Event} (hs : SafeCall self before underWay) (h₀ : ∀ e ∈ es₀, e.Outside)
      (h : Calls es) : Calls (.disconnect self before underWay :: (es₀ ++ .hungUp :: es))
  | stuck {self : Thread} {before : Before} {underWay : Option RoundAnswer} {es : List Event}
      (hs : ¬ SafeCall self before underWay) (h : Calls es) :
      Calls (.disconnect self before underWay :: es)
  | amiss {self : Thread} {before : Before} {underWay : Option RoundAnswer} {fd : Int}
      {es₀ es : List Event} (hs : ¬ SafeCall self before underWay) (h₀ : Calls es₀)
      (hne : (∃ e ∈ es₀, ¬ e.Uncalled) ∨ fd ≠ -1) (h : Calls es) :
      Calls (.disconnect self before underWay ::
        (es₀ ++ .disconnected fd false false false :: es))

section
variable {es es' : List Event}

theorem calls_of_outside (h : ∀ e ∈ es, e.Outside) : Calls es := by
  induction es with
  | nil => exact .nil
  | cons e es ih =>
      exact .event (h e List.mem_cons_self) (ih fun e' he' => h e' (List.mem_cons_of_mem e he'))

theorem Calls.append (h : Calls es) (h' : Calls es') : Calls (es ++ es') := by
  induction h with
  | nil => exact h'
  | event he _ ih => exact .event he ih
  | returned hs h₀ _ ih => simpa using Calls.returned hs h₀ ih
  | stuck hs _ ih => exact .stuck hs ih
  | amiss hs h₀ hne _ _ ih => simpa using Calls.amiss hs h₀ hne ih

theorem await_outside {e : Event} (h : e.Outside) (called : Bool) :
    await called e = some called := by
  cases e <;> first | rfl | exact h.elim

theorem foldlM_await_outside (h : ∀ e ∈ es, e.Outside) (called : Bool) :
    es.foldlM await called = some called :=
  foldlM_eq_self fun e he => await_outside (h e he) called

/-- What comes while a call is under way: no other, or one too many. -/
theorem Calls.foldlM_await (h : Calls es) :
    es.foldlM await true = none ∨ es.foldlM await true = some true ∧ ∀ e ∈ es, e.Outside := by
  induction h with
  | nil => exact .inr ⟨rfl, fun e he => absurd he List.not_mem_nil⟩
  | event he _ ih =>
      rw [List.foldlM_cons, await_outside he]
      exact ih.imp id fun h => ⟨h.1, List.forall_mem_cons.mpr ⟨he, h.2⟩⟩
  | returned => exact .inl rfl
  | stuck => exact .inl rfl
  | amiss => exact .inl rfl

/-- **Every call returns, and no second thread is started, only if every call is safe.** -/
theorem Calls.safe (h : Calls es) (hr : Returned es) (hspawn : Event.spawn true ∉ es) :
    ∀ e ∈ es, e.Safe := by
  induction h with
  | nil => exact fun e he => absurd he List.not_mem_nil
  | @event e es he _ ih =>
      rw [Returned, List.foldlM_cons, await_outside he] at hr
      have hsafe : e.Safe := by cases e <;> trivial
      exact List.forall_mem_cons.mpr ⟨hsafe, ih hr fun h => hspawn (.tail _ h)⟩
  | @returned self before underWay es₀ es hs h₀ _ ih =>
      have hround : ∀ e ∈ es₀, e.Safe := by
        intro e he
        have := h₀ e he
        cases e <;> trivial
      have hrest : Returned es := by
        rw [Returned, List.foldlM_cons] at hr
        change (es₀ ++ .hungUp :: es).foldlM await true = some false at hr
        rwa [List.foldlM_append, foldlM_await_outside h₀] at hr
      refine List.forall_mem_cons.mpr ⟨hs, List.forall_mem_append.mpr ⟨hround,
        List.forall_mem_cons.mpr ⟨trivial, ih hrest fun h => hspawn ?_⟩⟩⟩
      exact List.mem_cons_of_mem _ (List.mem_append_right _ (.tail _ h))
  | @stuck self before underWay es _ h _ =>
      -- what follows the call is not its return
      have hr' : es.foldlM await true = some false := hr
      rcases h.foldlM_await with hn | ⟨ht, -⟩
      · cases hn.symm.trans hr'
      · cases ht.symm.trans hr'
  | @amiss self before underWay fd es₀ es _ h₀ hne _ _ _ =>
      have hr' : (es₀ ++ .disconnected fd false false false :: es).foldlM await true =
          some false := hr
      rw [List.foldlM_append] at hr'
      rcases h₀.foldlM_await with hn | ⟨ht, hout⟩
      · rw [hn] at hr'
        cases hr'
      · rcases hne with ⟨e, he, hcall⟩ | hfd
        · -- the round under way has called nothing, so it has started a second thread
          have := hout e he
          cases e with
          | spawn joinable =>
              cases joinable with
              | false => exact absurd trivial hcall
              | true => exact absurd (List.mem_cons_of_mem _ (List.mem_append_left _ he)) hspawn
          | disconnect => exact this.elim
          | _ => exact absurd trivial hcall
        · rw [ht] at hr'
          have hback : await true (.disconnected fd false false false) = none := by
            simp [await, hfd]
          change (await true (.disconnected fd false false false)).bind _ = _ at hr'
          rw [hback] at hr'
          cases hr'

/-- **Every call returns, if every call is safe.** -/
theorem Calls.returns (h : Calls es) (hs : ∀ e ∈ es, e.Safe) : Returned es := by
  induction h with
  | nil => rfl
  | @event e es he _ ih =>
      rw [Returned, List.foldlM_cons, await_outside he]
      exact ih fun e' he' => hs e' (.tail _ he')
  | @returned self before underWay es₀ es _ h₀ _ ih =>
      have hrest : Returned es := ih fun e he =>
        hs e (List.mem_cons_of_mem _ (List.mem_append_right _ (.tail _ he)))
      change (es₀ ++ .hungUp :: es).foldlM await true = some false
      rw [List.foldlM_append, foldlM_await_outside h₀]
      exact hrest
  | stuck hn => exact absurd (hs _ List.mem_cons_self) hn
  | amiss hn => exact absurd (hs _ List.mem_cons_self) hn

end

/-! ### Dialling, whatever is kept -/

section
variable {R : World → World → Prop} [IsPreorder World R] {v : Virtuals}

/-- `do_connect` keeps what its system calls, its assignments and `on_connected` keep. -/
theorem within_doConnect (hemit : ∀ e : Event, e.Outside → e.Uncalled → Within R (emit e))
    (hfd : ∀ fd, Within R (modify fun w => { w with fd := fd } : Method Unit))
    (hup : Within R (modify fun w => { w with isConnected := true } : Method Unit))
    (hfire : Within R (fireConnected v)) (k : DialAnswer) : Within R (doConnect v k) := by
  have hclose : ∀ fd, Within R (close fd) := fun fd => hemit _ trivial trivial
  have hsocket : Within R (socket k.socket) :=
    .bind (hemit _ trivial trivial) fun _ => .pure _
  refine .bind .get fun w => ?_
  extract_lets rest
  have hrest : ∀ r, Within R (rest r) := by
    refine fun _ => .bind hsocket fun fd => .bind (hfd fd) fun _ => .ite (.pure _)
      (.bind .get fun w => ?_)
    cases w.mHosts with
    | nil => exact .halt _
    | cons addr hosts =>
        have hdial : ∀ fd port, Within R (dial fd addr port k.connect) := fun fd port =>
          .bind (hemit _ trivial trivial) fun _ => .pure _
        refine .bind .get fun w => .bind .get fun w => .bind (hdial _ _) fun ok => .ite ?_ ?_
        · exact .bind hup fun _ => .bind hfire fun _ => .pure _
        · exact .bind .get fun w => .bind (hclose _) fun _ => .pure _
  exact .ite (.bind .get fun w => .bind (hclose _) fun _ => .bind (hfd _) hrest) (hrest ())

end

/-- What `connect` does on a client that is not running. -/
def startUp (v : Virtuals) (k : DialAnswer) : Method Int := do
  modify fun w => { w with isRunning := true }
  let ret ← doConnect v k
  startThread
  return ret

section
variable {R : World → World → Prop} [IsPreorder World R] {v : Virtuals}

/-- `connect` keeps what it keeps up to its test of `is_running`, and after that. -/
theorem within_connect (hemit : ∀ e : Event, e.Outside → e.Uncalled → Within R (emit e))
    (hset : ∀ w pHost port reconnect,
      R w { w with mPort := port, mHost := pHost, isReconnect := reconnect })
    (hpush : ∀ (w : World) l, R w { w with mHosts := w.mHosts ++ l }) (k : DialAnswer)
    (hstart : ∀ w : World, w.isRunning = false → R w (leaves ((startUp v k).run w)))
    (pHost : String) (port : UInt16) (reconnect : Bool) (lookup : Option (List InAddr)) :
    Within R (connect v pHost port reconnect lookup k) := by
  refine .bind (hemit _ trivial trivial) fun _ => .bind (.modify fun w => hset w _ _ _) fun _ =>
    .bind .get fun w => .bind (.bind (hemit _ trivial trivial) fun _ => .pure _) fun l => ?_
  cases l with
  | none => exact .pure _
  | some l =>
      have hpushed : Within R (pushHosts l) := fun w => by
        rw [pushHosts_run]
        exact hpush w _
      refine .bind hpushed fun _ w => ?_
      change R w (leaves ((if !w.isRunning then startUp v k else pure 0).run w))
      cases hr : w.isRunning with
      | false => exact hstart w hr
      | true => exact refl w

end

/-! ### What the receive thread keeps while it is joined -/

/-- A thread that is running, and makes no call of `disconnect` and starts no second thread, is
still running. -/
def Runs (w w' : World) : Prop :=
  ∃ es, w'.trace = w.trace ++ es ∧ ((∀ e ∈ es, e.Uncalled) → w.mRecvThread = true →
    w'.mRecvThread = true ∧ (w.isRunning = true → w'.isRunning = true))

/-- A thread that is not running, and makes no call of `disconnect` and starts no second thread,
leaves the descriptor as it is, unless it has begun to run. -/
def Bides (w w' : World) : Prop :=
  ∃ es, w'.trace = w.trace ++ es ∧ ((∀ e ∈ es, e.Uncalled) → w.mRecvThread = true →
    w'.mRecvThread = true ∧ (w'.isRunning = true ∨ w.isRunning = false ∧ w'.fd = w.fd))

instance : IsPreorder World Runs where
  refl w := ⟨[], by simp, fun _ hj => ⟨hj, id⟩⟩
  trans := by
    rintro w w₁ w₂ ⟨es, ht, h⟩ ⟨es', ht', h'⟩
    refine ⟨es ++ es', by rw [ht', ht, List.append_assoc], fun hes hj => ?_⟩
    rw [List.forall_mem_append] at hes
    obtain ⟨hj₁, hr₁⟩ := h hes.1 hj
    obtain ⟨hj₂, hr₂⟩ := h' hes.2 hj₁
    exact ⟨hj₂, hr₂ ∘ hr₁⟩

instance : IsPreorder World Bides where
  refl w := ⟨[], by simp, fun _ hj => ⟨hj, by cases w.isRunning <;> simp⟩⟩
  trans := by
    rintro w w₁ w₂ ⟨es, ht, h⟩ ⟨es', ht', h'⟩
    refine ⟨es ++ es', by rw [ht', ht, List.append_assoc], fun hes hj => ?_⟩
    rw [List.forall_mem_append] at hes
    obtain ⟨hj₁, h₁⟩ := h hes.1 hj
    obtain ⟨hj₂, h₂⟩ := h' hes.2 hj₁
    refine ⟨hj₂, ?_⟩
    rcases h₂ with hr₂ | ⟨hr₁, hfd₂⟩
    · exact .inl hr₂
    · rcases h₁ with hr | ⟨hr, hfd₁⟩
      · exact absurd (hr.symm.trans hr₁) (by simp)
      · exact .inr ⟨hr, hfd₂.trans hfd₁⟩

section
variable {w w' : World} {v : Virtuals} {x : Method Unit}

theorem Bides.runs (h : Bides w w') : Runs w w' := by
  obtain ⟨es, ht, h⟩ := h
  refine ⟨es, ht, fun hes hj => ⟨(h hes hj).1, fun hr => ?_⟩⟩
  rcases (h hes hj).2 with hr' | ⟨hr', -⟩
  · exact hr'
  · exact absurd (hr.symm.trans hr') (by simp)

/-- A change of other fields. -/
theorem bides_fields (hr : w'.isRunning = w.isRunning) (hj : w'.mRecvThread = w.mRecvThread)
    (hfd : w'.fd = w.fd) (ht : w'.trace = w.trace) : Bides w w' := by
  refine ⟨[], by simp [ht], fun _ hjoin => ⟨hj.trans hjoin, ?_⟩⟩
  cases h : w.isRunning with
  | true => exact .inl (hr.trans h)
  | false => exact .inr ⟨rfl, hfd⟩

theorem bides_emit (e : Event) : Within Bides (emit e) := by
  intro w
  refine ⟨[e], rfl, fun _ hj => ⟨hj, ?_⟩⟩
  cases h : w.isRunning with
  | true => exact .inl h
  | false => exact .inr ⟨rfl, rfl⟩

/-- `do_connect`, of a client that is running. -/
theorem runs_doConnect (h : Within Bides v.onConnected) (k : DialAnswer) :
    Within Runs (doConnect v k) := by
  have hset : ∀ u : World → World, (∀ w, (u w).isRunning = w.isRunning ∧
      (u w).mRecvThread = w.mRecvThread ∧ (u w).trace = w.trace) →
      Within Runs (modify u : Method Unit) := by
    intro u hu w
    obtain ⟨hr, hj, ht⟩ := hu w
    exact ⟨[], by simp [ht], fun _ hjoin => ⟨hj.trans hjoin, fun h => hr.trans h⟩⟩
  have hfire : Within Runs (fireConnected v) :=
    .bind (fun w => (bides_emit _ w).runs) fun _ w => (h w).runs
  exact within_doConnect (fun e _ _ w => (bides_emit e w).runs)
    (fun fd => hset _ fun w => ⟨rfl, rfl, rfl⟩) (hset _ fun w => ⟨rfl, rfl, rfl⟩) hfire k

/-- A client that `connect` starts is running, or has a second thread. -/
theorem bides_startUp (h : Within Bides v.onConnected) (k : DialAnswer) :
    Bides w (leaves ((startUp v k).run w)) := by
  have hd := runs_doConnect h k { w with isRunning := true }
  simp only [startUp, EStateM.run_bind, EStateM.run_modify]
  cases hrun : (doConnect v k).run { w with isRunning := true } with
  | error e w₁ =>
      rw [hrun] at hd
      obtain ⟨es, ht, h⟩ := hd
      exact ⟨es, ht, fun hes hj => ⟨(h hes hj).1, .inl ((h hes hj).2 rfl)⟩⟩
  | ok ret w₁ =>
      rw [hrun] at hd
      obtain ⟨es, ht, h⟩ := hd
      have hlast : (leaves ((do startThread; return ret : Method Int).run w₁)).trace =
          w.trace ++ (es ++ [.spawn w₁.mRecvThread]) := by
        rw [EStateM.run_bind, startThread_run]
        cases w₁.mRecvThread <;> simp [World.record, show w₁.trace = w.trace ++ es from ht]
      refine ⟨_, hlast, fun hes hj => ?_⟩
      rw [List.forall_mem_append] at hes
      have hj₁ : w₁.mRecvThread = true := (h hes.1 hj).1
      rw [hj₁] at hes
      exact (hes.2 _ (.head _)).elim

theorem bides_connect (h : Within Bides v.onConnected) (pHost : String) (port : UInt16)
    (reconnect : Bool) (lookup : Option (List InAddr)) (k : DialAnswer) :
    Within Bides (connect v pHost port reconnect lookup k) :=
  within_connect (fun e _ _ => bides_emit e) (fun _ _ _ _ => bides_fields rfl rfl rfl rfl)
    (fun _ _ => bides_fields rfl rfl rfl rfl) k (fun _ _ => bides_startUp h k) _ _ _ _

/-- The receive thread's own call of `disconnect` is one. -/
theorem bides_disconnect (v : Virtuals) (fuel : Nat) (underWay : Option RoundAnswer) :
    Within Bides (disconnect v fuel .receiver underWay) := by
  intro w
  rw [disconnect_run, hangUp_run, join_raises (.inr rfl)]
  refine ⟨_, unplug_trace _, fun hes => ?_⟩
  exact (hes _ (.head _)).elim

theorem bides_send (h : Within Bides v.onDisconnect) (v' : Virtuals) (fuel : Nat)
    (pData : List Byte) (len : UInt32) (accepted : Option Nat)
    (underWay : Option RoundAnswer) :
    Within Bides (send v v' fuel .receiver pData len accepted underWay) := by
  refine .bind .get fun w => .ite ?_ (.pure _)
  refine .bind .get fun w => .bind (.bind (bides_emit _) fun _ => .pure _) fun ret => .ite ?_
    (.pure _)
  exact .bind (.bind (bides_emit _) fun _ => h) fun _ =>
    .bind (bides_disconnect v' fuel underWay) fun _ => .pure _

end

/-! ### What the client keeps, whatever its callbacks do -/

/-- Between calls, a client whose loop has ended has no thread left to join. -/
def World.Tidy (w : World) : Prop := w.isRunning = false → w.mRecvThread = false

/-- `connect` has set `is_running` and has not started the thread yet. -/
def World.Starting (w : World) : Prop := w.isRunning = true ∧ w.mRecvThread = false

/-- `w'` comes from `w` by calls of `disconnect` and events between them; and if all these calls
are safe, no thread is assigned over a joinable one. -/
def Keeps (w w' : World) : Prop :=
  ∃ es, w'.trace = w.trace ++ es ∧ Calls es ∧ ((∀ e ∈ es, e.Safe) → w.Tidy →
    Event.spawn true ∉ es ∧ w'.Tidy ∧ (w.Starting → w'.Starting))

instance : IsPreorder World Keeps where
  refl w := ⟨[], by simp, .nil, fun _ ht => ⟨by simp, ht, id⟩⟩
  trans := by
    rintro w w₁ w₂ ⟨es, htr, hc, h⟩ ⟨es', htr', hc', h'⟩
    refine ⟨es ++ es', by rw [htr', htr, List.append_assoc], hc.append hc', fun hsafe ht => ?_⟩
    rw [List.forall_mem_append] at hsafe
    obtain ⟨hs, ht₁, hst⟩ := h hsafe.1 ht
    obtain ⟨hs', ht₂, hst'⟩ := h' hsafe.2 ht₁
    exact ⟨by simp [hs, hs'], ht₂, hst' ∘ hst⟩

/-- The callbacks do to the client only what `Keeps` allows. -/
structure Virtuals.Keep (v : Virtuals) : Prop where
  onConnected : Within Keeps v.onConnected
  onDisconnect : Within Keeps v.onDisconnect
  onRecv : ∀ pData, Within Keeps (v.onRecv pData)

section
variable {w w' : World} {self : Thread} {v v' : Virtuals} {fuel : Nat} {es : List Event}
  {underWay : Option RoundAnswer} {α : Type}

/-- A change of fields that `disconnect` does not depend on. -/
theorem keeps_fields (hr : w'.isRunning = w.isRunning) (hj : w'.mRecvThread = w.mRecvThread)
    (ht : w'.trace = w.trace) : Keeps w w' := by
  refine ⟨[], by simp [ht], .nil, fun _ htidy => ⟨by simp, ?_, ?_⟩⟩
  · rwa [World.Tidy, hr, hj]
  · intro hs; rwa [World.Starting, hr, hj]

theorem keeps_emit {e : Event} (he : e.Outside) (hs : e.Uncalled) : Within Keeps (emit e) := by
  intro w
  refine ⟨[e], rfl, .event he .nil, fun _ ht => ⟨fun h => ?_, ht, id⟩⟩
  rw [← List.mem_singleton.mp h] at hs
  exact hs

theorem keeps_fireConnected (h : Within Keeps v.onConnected) : Within Keeps (fireConnected v) :=
  .bind (keeps_emit trivial trivial) fun _ => h

theorem keeps_fireDisconnect (h : Within Keeps v.onDisconnect) :
    Within Keeps (fireDisconnect v) :=
  .bind (keeps_emit trivial trivial) fun _ => h

theorem keeps_fireRecv (h : ∀ pData, Within Keeps (v.onRecv pData)) (pData : List Byte) :
    Within Keeps (fireRecv v pData) :=
  .bind (keeps_emit trivial trivial) fun _ => h pData

theorem keeps_doConnect (h : Within Keeps v.onConnected) (k : DialAnswer) :
    Within Keeps (doConnect v k) :=
  within_doConnect (fun _ => keeps_emit) (fun _ => .modify fun _ => keeps_fields rfl rfl rfl)
    (.modify fun _ => keeps_fields rfl rfl rfl) (keeps_fireConnected h) k

/-- The thread is not joinable when `connect` assigns it: nothing that ran in between has started
one, as the client was running all the while. -/
theorem keeps_startUp (h : Within Keeps v.onConnected) (k : DialAnswer)
    (hr : w.isRunning = false) : Keeps w (leaves ((startUp v k).run w)) := by
  have hd := keeps_doConnect h k { w with isRunning := true }
  simp only [startUp, EStateM.run_bind, EStateM.run_modify]
  cases hrun : (doConnect v k).run { w with isRunning := true } with
  | error e w₁ =>
      -- a callback of `do_connect` did not return, and no thread is started
      rw [hrun] at hd
      obtain ⟨es, htr, hc, hk⟩ := hd
      refine ⟨es, htr, hc, fun hsafe ht => ?_⟩
      obtain ⟨hs, ht₁, -⟩ := hk hsafe nofun
      exact ⟨hs, ht₁, fun hst => absurd (hr.symm.trans hst.1) (by simp)⟩
  | ok ret w₁ =>
      rw [hrun] at hd
      obtain ⟨es, htr, hc, hk⟩ := hd
      have hlast : (leaves ((do startThread; return ret : Method Int).run w₁)).trace =
          w.trace ++ (es ++ [.spawn w₁.mRecvThread]) := by
        rw [EStateM.run_bind, startThread_run]
        cases w₁.mRecvThread <;> simp [World.record, show w₁.trace = w.trace ++ es from htr]
      refine ⟨_, hlast, hc.append (.event trivial .nil), fun hsafe ht => ?_⟩
      rw [List.forall_mem_append] at hsafe
      -- `Starting` has held since `is_running` was set
      obtain ⟨hs, -, hst⟩ := hk hsafe.1 nofun
      obtain ⟨hr₁, hj₁⟩ := hst ⟨rfl, ht hr⟩
      rw [leaves_ok] at hr₁ hj₁
      refine ⟨by simp [hs, hj₁], ?_, fun hst => absurd (hr.symm.trans hst.1) (by simp)⟩
      simp only [startThread_run, hj₁]
      exact fun hn => absurd (hr₁.symm.trans hn) (by simp)

theorem keeps_connect (h : Within Keeps v.onConnected) (pHost : String) (port : UInt16)
    (reconnect : Bool) (lookup : Option (List InAddr)) (k : DialAnswer) :
    Within Keeps (connect v pHost port reconnect lookup k) :=
  within_connect (fun _ => keeps_emit) (fun _ _ _ _ => keeps_fields rfl rfl rfl)
    (fun _ _ => keeps_fields rfl rfl rfl) k (fun _ hr => keeps_startUp h k hr) _ _ _ _

/-! ### The receive thread -/

theorem keeps_recv (fd : Int) (space : Nat) (k : RecvAnswer) : Within Keeps (recv fd space k) := by
  have hemit : ∀ bytes, Within Keeps (emit (.recv fd space bytes)) := fun bytes =>
    keeps_emit trivial trivial
  cases k with
  | data bytes =>
      exact .bind .get fun w => .bind (within_storeAt (fun w b p => keeps_fields rfl rfl rfl) _ _)
        fun _ => .bind (hemit _) fun _ => .pure _
  | closed => exact .bind (hemit _) fun _ => .pure _
  | error => exact .bind (hemit _) fun _ => .pure _

theorem keeps_doRecv (hv : v.Keep) (fuel : Nat) (k : RecvAnswer) :
    Within Keeps (doRecv v fuel k) := by
  have hloop : ∀ readPos pkgLen, Within Keeps (packetLoop v fuel readPos pkgLen) :=
    within_packetLoop (fun w b p => keeps_fields rfl rfl rfl) (keeps_fireRecv hv.onRecv) fuel
  refine .bind .get fun w => .bind .get fun w => .bind (keeps_recv _ _ _) fun recvLen => .ite ?_ ?_
  · exact .bind (.modify fun w => keeps_fields rfl rfl rfl) fun _ =>
      .bind (keeps_fireDisconnect hv.onDisconnect) fun _ => .pure _
  · exact .bind (.modify fun w => keeps_fields rfl rfl rfl) fun _ =>
      .bind (within_readPacketAt 0) fun pkgLen => .bind (hloop 0 pkgLen) fun _ => .pure _

theorem keeps_fdIsSet (fd : Int) (fds : List Int) : Within Keeps (fdIsSet fd fds) :=
  .ite (.halt _) (.pure _)

theorem keeps_afterSelect (hv : v.Keep) (fuel : Nat) (k : RoundAnswer) (watched : List Int) :
    Within Keeps (afterSelect v fuel k watched) := by
  have hready : ∀ readFds exceptFds, Within Keeps (onReady v fuel k readFds exceptFds) := by
    intro readFds exceptFds
    refine .bind .get fun w => .bind (keeps_fdIsSet _ _) fun readable => ?_
    extract_lets rest
    have hrest : ∀ r, Within Keeps (rest r) := fun _ =>
      .bind .get fun w => .bind (keeps_fdIsSet _ _) fun exceptional =>
        .ite (keeps_fireDisconnect hv.onDisconnect) (.pure _)
    exact .ite (.bind (keeps_doRecv hv fuel k.recv) fun _ => hrest ()) (hrest ())
  have htimeout : Within Keeps (onTimeout v k) :=
    .bind .get fun w => .bind .get fun w =>
      .ite (.bind (keeps_doConnect hv.onConnected k.dial) fun _ => .pure _) (.pure _)
  intro w
  rcases hs : select watched k.select with ⟨ret, readFds, exceptFds⟩
  rw [afterSelect_eq v k hs]
  split
  · exact refl w
  · split
    · exact hready readFds exceptFds w
    · exact htimeout w

theorem keeps_runIteration (hv : v.Keep) (fuel : Nat) (k : RoundAnswer) :
    Within Keeps (runIteration v fuel k) := .bind .get fun _ => keeps_afterSelect hv fuel k _

/-! ### disconnect -/

theorem closing_outside : ∀ e ∈ w.closing, e.Outside := by
  have h := forall_mem_closing_append (w := w) (P := Event.Outside) trivial
    fun e he => absurd he List.not_mem_nil
  rwa [List.append_nil] at h

theorem uncalled_closing : ∀ e ∈ w.closing, e.Uncalled := by
  have h := forall_mem_closing_append (w := w) (P := Event.Uncalled) trivial
    fun e he => absurd he List.not_mem_nil
  rwa [List.append_nil] at h

/-- A redial that succeeds, or that is refused, leaves a descriptor, unless a callback has made a
call of its own, started a second thread, or made the client run. -/
theorem doConnect_redials (h : Within Bides v.onConnected) (hfd : w.fd = -1)
    (hj : w.mRecvThread = true) {k : DialAnswer} {n : Nat} (hs : k.socket = some n)
    {ret : Int} {w₁ : World} (hrun : (doConnect v k).run w = .ok ret w₁) :
    ∃ es, w₁.trace = w.trace ++ es ∧ ((∀ e ∈ es, e.Uncalled) → w₁.isRunning = false →
      w₁.fd ≠ -1) := by
  cases hm : w.mHosts with
  | nil => simp [doConnect, socket, emit, hfd, hs, hm, natCast_ne_neg_one] at hrun
  | cons addr hosts =>
      cases hc : k.connect with
      | false =>
          simp [doConnect, socket, dial, close, emit, hfd, hs, hm, hc,
            natCast_ne_neg_one] at hrun
          obtain ⟨-, rfl⟩ := hrun
          exact ⟨_, rfl, fun _ _ => natCast_ne_neg_one n⟩
      | true =>
          simp only [doConnect, ne_eq, socket, emit, hs, bind_pure_comp, dial, hc, fireConnected,
            map_bind, bind_map_left, ↓reduceIte, natCast_ne_neg_one, ite_not, EStateM.run_bind,
            EStateM.run_get, hfd, EStateM.run_modify, hm, List.append_assoc, List.cons_append,
            List.nil_append, run_map] at hrun
          have hb := h { w with
            fd := n, isConnected := true, mHosts := addr :: hosts
            trace := w.trace ++ [.socket n, .dial n addr w.mPort true, .onConnected] }
          split at hrun
          case h_2 => cases hrun
          case h_1 a w₂ heq =>
            rw [heq] at hb
            cases hrun
            obtain ⟨es, ht, hb⟩ := hb
            refine ⟨_, ht.trans (List.append_assoc ..), fun hes hr => ?_⟩
            rw [List.forall_mem_append] at hes
            rcases (hb hes.2 hj).2 with hr' | ⟨-, hfd'⟩
            · exact absurd (hr'.symm.trans hr) (by simp)
            · rw [leaves_ok] at hfd'
              rw [hfd']
              exact natCast_ne_neg_one n

/-- The client that `disconnect` joins from, when the loop of `run` is sure to end. -/
def World.joining (w : World) (underWay : Option RoundAnswer) : World :=
  { w with fd := -1, isRunning := false }.record (w.hangingUp .owner underWay)

theorem unplugged_joining (w : World) (underWay : Option RoundAnswer) :
    (w.joining underWay).Unplugged w.before := ⟨rfl, rfl, rfl⟩

/-- `disconnect` called outside the receive thread, whose loop is sure to end: what the round
under way does, and whether the loop does end after it. -/
theorem disconnect_joins (hj : w.mRecvThread = true) (hend : w.fd ≠ -1 ∨ w.isRunning = false) :
    (disconnect v fuel .owner underWay).run w =
      match (leftOver v fuel w.before.watched underWay).run (w.joining underWay) with
      | .ok _ w₁ =>
          if w₁.isRunning then .error .blocked w₁
          else .ok () ({ w₁ with mRecvThread := false, isConnected := false }.record
            [.disconnected w₁.fd false false false])
      | .error h w₁ => .error h.uncaught w₁ := by
  have hr : (w.isRunning && decide (w.fd = -1)) = false := by
    rcases hend with hfd | hr
    · rw [decide_eq_false hfd, Bool.and_false]
    · rw [hr, Bool.false_and]
  have hplug : w.unplug.record (w.hangingUp .owner underWay) = w.joining underWay := by
    rw [World.unplug_eq, hr]
    rfl
  have hjoin : (w.joining underWay).mRecvThread = true := hj
  rw [disconnect_run, hangUp_run, hplug, join_waits _ hjoin rfl]
  cases (leftOver v fuel w.before.watched underWay).run (w.joining underWay) with
  | error h w₁ => rfl
  | ok _ w₁ => cases hr₁ : w₁.isRunning <;> simp [hr₁]

variable (v fuel) in
/-- A safe call returns, and the client is shut down. -/
theorem disconnect_safe (h : SafeCall self w.before underWay) :
    ∃ es, (∀ e ∈ es, e.Outside ∧ e.Uncalled) ∧ (disconnect v fuel self underWay).run w =
      .ok () (w.shutDown.record (.disconnect self w.before underWay :: (es ++ [.hungUp]))) := by
  obtain ⟨rfl, hj, hend, hround⟩ := h
  obtain ⟨es, hrun, hes⟩ := leftOver_harmless v fuel (unplugged_joining w underWay) hround
  refine ⟨w.closing ++ es, ?_, ?_⟩
  · rw [List.forall_mem_append]
    refine ⟨fun e he => ⟨closing_outside e he, uncalled_closing e he⟩, ?_⟩
    rcases hes with rfl | rfl
    · simp
    · simp [Event.Outside, Event.Uncalled]
  · rw [disconnect_joins hj hend, hrun]
    simp [World.joining, World.record, World.shutDown, World.hangingUp, Event.hungUp]

/-- What a call of `disconnect` from `w` comes to when it does not return with the client shut
down: it halts, or the round under way has dialled, and left a descriptor unless it made a call of
its own or started a second thread. -/
inductive Strays (w : World) (call : Event) : EStateM.Result Halt World Unit → Prop where
  | halts {h : Halt} {w' : World} {es : List Event} (ht : w'.trace = w.trace ++ call :: es)
      (hc : Calls es) : Strays w call (.error h w')
  | returns {w' : World} {es : List Event}
      (ht : w'.trace = w.trace ++ call :: (es ++ [.disconnected w'.fd false false false]))
      (hc : Calls es) (hne : (∃ e ∈ es, ¬ e.Uncalled) ∨ w'.fd ≠ -1) : Strays w call (.ok () w')

theorem leftOver_keeps (hv : v.Keep) (fuel : Nat) (watched : List Int)
    (underWay : Option RoundAnswer) : Within Keeps (leftOver v fuel watched underWay) := by
  cases underWay with
  | none => exact .pure _
  | some k => exact keeps_afterSelect hv fuel k watched

/-- A round that is not harmless, when it returns. -/
theorem leftOver_redials (hb : Within Bides v.onConnected) (hj : w.mRecvThread = true)
    {k : RoundAnswer} (hk : ¬ Harmless w.before k) {w₁ : World} {es : List Event}
    (hrun : (leftOver v fuel w.before.watched (some k)).run (w.joining (some k)) = .ok () w₁)
    (ht : w₁.trace = (w.joining (some k)).trace ++ es) (hr : w₁.isRunning = false) :
    (∃ e ∈ es, ¬ e.Uncalled) ∨ w₁.fd ≠ -1 := by
  rcases leftOver_harmful v fuel (unplugged_joining w (some k)) hk with
    hundef | ⟨n, hsock, hdial⟩
  · cases hundef.symm.trans hrun
  · rw [hrun] at hdial
    cases hd : (doConnect v k.dial).run (w.joining (some k)) with
    | error h w₂ => rw [hd] at hdial; cases hdial
    | ok ret w₂ =>
        rw [hd] at hdial
        cases hdial
        have hj' : (w.joining (some k)).mRecvThread = true := hj
        obtain ⟨es', ht', hfd⟩ := doConnect_redials hb rfl hj' hsock hd
        obtain rfl : es = es' := List.append_cancel_left (ht.symm.trans ht')
        by_cases hes : ∀ e ∈ es, e.Uncalled
        · exact .inr (hfd hes hr)
        · exact .inl (by simpa using hes)

/-- An unsafe call does not return with the client shut down. -/
theorem disconnect_strays (hv : v.Keep) (hb : Within Bides v.onConnected) (fuel : Nat)
    (h : ¬ SafeCall self w.before underWay) :
    Strays w (.disconnect self w.before underWay) ((disconnect v fuel self underWay).run w) := by
  have hclosing : Calls w.closing := calls_of_outside closing_outside
  by_cases hraise : w.mRecvThread = false ∨ self = .receiver
  · have hraise' : (w.unplug.record (w.hangingUp self underWay)).mRecvThread = false ∨
        self = .receiver := by rwa [World.unplug_eq]
    rw [disconnect_run, hangUp_run, join_raises hraise']
    exact .halts (unplug_trace _) hclosing
  obtain ⟨hj, hself⟩ := not_or.mp hraise
  rw [Bool.not_eq_false] at hj
  obtain rfl : self = .owner := by cases self <;> first | rfl | exact absurd rfl hself
  -- `is_running` is cleared where there is a socket to close; without one it may stay set
  by_cases hend : w.fd ≠ -1 ∨ w.isRunning = false
  · cases underWay with
    | none => exact absurd ⟨rfl, hj, hend, nofun⟩ h
    | some k =>
        have hk : ¬ Harmless w.before k := fun hk =>
          h ⟨rfl, hj, hend, fun k' hk' => Option.some.inj hk' ▸ hk⟩
        have hkeep := leftOver_keeps hv fuel w.before.watched (some k) (w.joining (some k))
        rw [disconnect_joins hj hend]
        cases hrun : (leftOver v fuel w.before.watched (some k)).run (w.joining (some k)) with
        | error e w₁ =>
            rw [hrun] at hkeep
            obtain ⟨es, ht, hc, -⟩ := hkeep
            exact .halts (ht.trans (List.append_assoc ..)) (hclosing.append hc)
        | ok _ w₁ =>
            rw [hrun] at hkeep
            obtain ⟨es, ht, hc, -⟩ := hkeep
            cases hr₁ : w₁.isRunning with
            | true =>
                simp only [hr₁, if_true]
                exact .halts (ht.trans (List.append_assoc ..)) (hclosing.append hc)
            -- the round has dialed again: `join` returns, and leaves the new socket open
            | false =>
                have hne := leftOver_redials hb hj hk hrun ht hr₁
                simp only [hr₁, Bool.false_eq_true, if_false]
                refine .returns ?_ (hclosing.append hc)
                  (hne.imp (fun ⟨e, he, hcall⟩ => ⟨e, List.mem_append_right _ he, hcall⟩) id)
                rw [leaves_ok] at ht
                simp [World.record, ht, World.joining, World.hangingUp]
  · obtain ⟨hfd, hr⟩ := not_or.mp hend
    rw [not_not] at hfd
    rw [Bool.not_eq_false] at hr
    have hw₀ : w.unplug = w := by rw [World.unplug, if_pos hfd]
    have hj₀ : (w.record (w.hangingUp .owner underWay)).mRecvThread = true := hj
    rw [disconnect_run, hangUp_run, hw₀, join_blocks hj₀ hr]
    exact .halts rfl hclosing

theorem keeps_disconnect (hv : v.Keep) (hb : Within Bides v.onConnected) :
    Within Keeps (disconnect v fuel self underWay) := by
  intro w
  by_cases h : SafeCall self w.before underWay
  · obtain ⟨es, hes, hrun⟩ := disconnect_safe v fuel h
    rw [hrun]
    refine ⟨_, rfl, .returned h (fun e he => (hes e he).1) .nil, fun _ _ => ⟨fun hspawn => ?_,
      fun _ => rfl, fun hs => ?_⟩⟩
    · simp only [List.mem_cons, List.mem_append, Event.hungUp, reduceCtorEq, false_or,
        List.not_mem_nil, or_false] at hspawn
      exact (hes _ hspawn).2
    · exact absurd (h.2.1.symm.trans hs.2) (by simp)
  · have hstray := disconnect_strays hv hb fuel h
    cases hrun : (disconnect v fuel self underWay).run w with
    | error e w₁ =>
        rw [hrun] at hstray
        cases hstray with
        | halts ht hc =>
            exact ⟨_, ht, .stuck h hc, fun hsafe => absurd (hsafe _ List.mem_cons_self) h⟩
    | ok _ w₁ =>
        rw [hrun] at hstray
        cases hstray with
        | returns ht hc hne =>
            exact ⟨_, ht, .amiss h hc hne .nil,
              fun hsafe => absurd (hsafe _ List.mem_cons_self) h⟩

theorem keeps_send (h : Within Keeps v.onDisconnect) (hv : v'.Keep)
    (hb : Within Bides v'.onConnected) (pData : List Byte) (len : UInt32)
    (accepted : Option Nat) : Within Keeps (send v v' fuel self pData len accepted underWay) := by
  refine .bind .get fun w => .ite ?_ (.pure _)
  refine .bind .get fun w => .bind (.bind (keeps_emit trivial trivial) fun _ => .pure _)
    fun ret => ?_
  exact .ite (.bind (keeps_fireDisconnect h) fun _ => .bind (keeps_disconnect hv hb) fun _ =>
    .pure _) (.pure _)

end

/-! ### Callbacks -/

/-- The code a callback may be, run in the thread `self`: calls of the client's public methods,
whose own callbacks are such code too, put together as the code likes.  It may look at
everything, raise, and catch what a call raises. -/
inductive UserCode : Thread → Method Unit → Prop where
  | skip {self : Thread} : UserCode self (pure ())
  | raise {self : Thread} : UserCode self (throw .raised)
  | seq {self : Thread} {x y : Method Unit} (hx : UserCode self x) (hy : UserCode self y) :
      UserCode self (do x; y)
  | look {self : Thread} {g : World → Method Unit} (hg : ∀ w, UserCode self (g w)) :
      UserCode self (get >>= g)
  | rescue {self : Thread} {x y : Method Unit} (hx : UserCode self x) (hy : UserCode self y) :
      UserCode self (tryCatch x fun h => if h = .raised then y else throw h)
  | connect {self : Thread} {v : Virtuals} (hc : UserCode self v.onConnected) (pHost : String)
      (port : UInt16) (reconnect : Bool) (lookup : Option (List InAddr)) (k : DialAnswer)
      {g : Int → Method Unit} (hg : ∀ ret, UserCode self (g ret)) :
      UserCode self (Tcp.connect v pHost port reconnect lookup k >>= g)
  | send {self : Thread} {v v' : Virtuals} (hd : UserCode self v.onDisconnect)
      (hc' : UserCode .receiver v'.onConnected) (hd' : UserCode .receiver v'.onDisconnect)
      (hr' : ∀ pData, UserCode .receiver (v'.onRecv pData)) (fuel : Nat) (pData : List Byte)
      (len : UInt32) (accepted : Option Nat) (underWay : Option RoundAnswer)
      {g : Int → Method Unit} (hg : ∀ ret, UserCode self (g ret)) :
      UserCode self (Tcp.send v v' fuel self pData len accepted underWay >>= g)
  | disconnect {self : Thread} {v' : Virtuals} (hc' : UserCode .receiver v'.onConnected)
      (hd' : UserCode .receiver v'.onDisconnect)
      (hr' : ∀ pData, UserCode .receiver (v'.onRecv pData)) (fuel : Nat)
      (underWay : Option RoundAnswer) : UserCode self (Tcp.disconnect v' fuel self underWay)

/-- Callbacks that are user code when they run in the thread `t`. -/
structure Virtuals.User (v : Virtuals) (t : Thread) : Prop where
  onConnected : UserCode t v.onConnected
  onDisconnect : UserCode t v.onDisconnect
  onRecv : ∀ pData, UserCode t (v.onRecv pData)

/-- What a callback does in the receive thread while that is joined. -/
theorem UserCode.bides {t : Thread} {x : Method Unit} (h : UserCode t x) (ht : t = .receiver) :
    Within Bides x := by
  induction h with
  | skip => exact .pure _
  | raise => exact .halt _
  | seq _ _ ihx ihy => exact .bind (ihx ht) fun _ => ihy ht
  | look _ ihg => exact .bind .get fun w => ihg w ht
  | rescue _ _ ihx ihy => exact .tryCatch (ihx ht) fun h => .ite (ihy ht) (.halt _)
  | connect _ pHost port reconnect lookup k _ ihc ihg =>
      exact .bind (bides_connect (ihc ht) pHost port reconnect lookup k) fun ret => ihg ret ht
  | @send self v v' _ _ _ _ fuel pData len accepted underWay g _ ihd _ _ _ ihg =>
      subst ht
      exact .bind (bides_send (ihd rfl) v' fuel pData len accepted underWay) fun ret =>
        ihg ret rfl
  | @disconnect self v' _ _ _ fuel underWay _ _ _ =>
      subst ht
      exact bides_disconnect v' fuel underWay

theorem UserCode.keeps {t : Thread} {x : Method Unit} (h : UserCode t x) : Within Keeps x := by
  induction h with
  | skip => exact .pure _
  | raise => exact .halt _
  | seq _ _ ihx ihy => exact .bind ihx fun _ => ihy
  | look _ ihg => exact .bind .get ihg
  | rescue _ _ ihx ihy => exact .tryCatch ihx fun h => .ite ihy (.halt _)
  | connect _ pHost port reconnect lookup k _ ihc ihg =>
      exact .bind (keeps_connect ihc pHost port reconnect lookup k) ihg
  | send _ hc' _ _ fuel pData len accepted underWay _ ihd ihc' ihd' ihr' ihg =>
      exact .bind (keeps_send ihd ⟨ihc', ihd', ihr'⟩ (hc'.bides rfl) pData len accepted) ihg
  | disconnect hc' _ _ fuel underWay ihc' ihd' ihr' =>
      exact keeps_disconnect ⟨ihc', ihd', ihr'⟩ (hc'.bides rfl)

theorem Virtuals.User.keep {v : Virtuals} {t : Thread} (hv : v.User t) : v.Keep :=
  ⟨hv.onConnected.keeps, hv.onDisconnect.keeps, fun pData => (hv.onRecv pData).keeps⟩

/-- **A call of `disconnect` returns with the client shut down exactly when it is safe**: without
another call, or a second thread, in the round under way. -/
theorem disconnect_returns_iff {v : Virtuals} (hv : v.User .receiver) (fuel : Nat)
    (self : Thread) (underWay : Option RoundAnswer) (w : World) :
    (∃ es w', (disconnect v fuel self underWay).run w = .ok () w' ∧
      w'.trace = w.trace ++ .disconnect self w.before underWay :: es ∧ (∀ e ∈ es, e.Uncalled) ∧
      w'.fd = -1 ∧ w'.isRunning = false ∧ w'.isConnected = false ∧ w'.mRecvThread = false) ↔
    SafeCall self w.before underWay := by
  constructor
  · rintro ⟨es, w', hrun, ht, hes, hfd, -⟩
    by_contra hn
    have hstray := disconnect_strays hv.keep (hv.onConnected.bides rfl) fuel hn
    rw [hrun] at hstray
    cases hstray with
    | returns ht' _ hne =>
        rcases hne with ⟨e, he, hcall⟩ | hne
        · obtain rfl := (List.cons.inj (List.append_cancel_left (ht.symm.trans ht'))).2
          exact hcall (hes e (List.mem_append_left _ he))
        · exact hne hfd
  · intro h
    obtain ⟨es, hes, hrun⟩ := disconnect_safe v fuel h
    refine ⟨_, _, hrun, rfl, ?_, rfl, rfl, rfl, rfl⟩
    rw [List.forall_mem_append]
    exact ⟨fun e he => (hes e he).2, by simp [Event.Uncalled, Event.hungUp]⟩

/-! ### Runs -/

/-- The thread that takes the step. -/
def Step.thread (s : Step) : Thread := if s.isIterate then .receiver else .owner

/-- The step as a method, when callbacks are told the thread they run in, and a round of the receive
thread may be under way when the owner calls the client. -/
def Step.methodIn (v : Thread → Virtuals) (fuel : Nat) (underWay : Option RoundAnswer) :
    Step → Method Unit
  | .send pData accepted => do
      let _ ← Tcp.send (v .owner) (v .receiver) fuel .owner pData (UInt32.ofNat pData.length)
        accepted underWay
  | .disconnect => Tcp.disconnect (v .receiver) fuel .owner underWay
  | s => s.method (v s.thread) fuel

/-- With no round under way, and callbacks that do not care for their thread, it is the step of
`Step.method`. -/
theorem Step.methodIn_none (v : Virtuals) (fuel : Nat) (s : Step) :
    s.methodIn (fun _ => v) fuel none = s.method v fuel := by
  cases s <;> rfl

/-- The world after a step, and after the round of the receive thread that was under way and that
the step waited for. -/
def nextIn (v : Thread → Virtuals) (fuel : Nat) (w : World) : Step × Option RoundAnswer → World
  | (s, underWay) =>
      if w.control.admits s then
        match (s.methodIn v fuel underWay).run w with
        | .ok _ w' => w'
        | .error h w' => { w' with control := h.control s }
      else w

/-- So are the runs those of `next`. -/
theorem run_nextIn_none (v : Virtuals) (fuel : Nat) (w : World) (l : List Step) :
    run (nextIn (fun _ => v) fuel) w (l.map (·, none)) = run (next v fuel) w l := by
  have hnext : ∀ w s, nextIn (fun _ => v) fuel w (s, none) = next v fuel w s := by
    intro w s
    rw [nextIn, Step.methodIn_none]
    rfl
  rw [run, List.foldl_map, run]
  exact congrArg (List.foldl · w l) (funext₂ hnext)

section
variable {v : Thread → Virtuals} {fuel : Nat} {w : World}

theorem keeps_methodIn (hv : ∀ self, (v self).User self) (s : Step)
    (underWay : Option RoundAnswer) : Within Keeps (s.methodIn v fuel underWay) := by
  have hk : ∀ self, (v self).Keep := fun self => (hv self).keep
  have hb : Within Bides (v .receiver).onConnected := (hv .receiver).onConnected.bides rfl
  cases s with
  | connect pHost port reconnect lookup dial =>
      exact .bind (keeps_connect (hk .owner).onConnected _ _ _ _ _) fun _ => .pure _
  | send pData accepted =>
      exact .bind (keeps_send (hk .owner).onDisconnect (hk .receiver) hb _ _ _) fun _ => .pure _
  | disconnect => exact keeps_disconnect (hk .receiver) hb
  | iterate k =>
      exact .bind .get fun w => .bind .get fun w =>
        .ite (keeps_runIteration (hk .receiver) fuel k) (.pure _)

/-- **Every step keeps the shape of the trace**, and no safe step starts a second thread. -/
theorem keeps_nextIn (hv : ∀ self, (v self).User self) (s : Step × Option RoundAnswer) :
    Keeps w (nextIn v fuel w s) := by
  obtain ⟨s, underWay⟩ := s
  simp only [nextIn]
  split
  · have hk : Keeps w (leaves ((s.methodIn v fuel underWay).run w)) :=
      keeps_methodIn hv s underWay w
    cases hrun : (s.methodIn v fuel underWay).run w with
    | ok _ w' => rwa [hrun] at hk
    | error h w' =>
        rw [hrun] at hk
        exact IsTrans.trans _ _ _ hk (keeps_fields rfl rfl rfl)
  · exact refl w

end

/-- **When `disconnect` is safe.**  In every run from a new client, with any callbacks: every
call of `disconnect` returns and leaves the client shut down before another is made, and
`m_recv_thread` is never assigned while it is joinable, if and only if every call is made outside
the receive thread, on a client whose `m_recv_thread` is joinable and that has a socket to close
or is not running, while the round under way, if there is one, comes to nothing. -/
theorem run_returned_iff (v : Thread → Virtuals) (hv : ∀ self, (v self).User self) (fuel : Nat)
    (buf : Buffer Byte maxRecvBuf) (port : UInt16) (l : List (Step × Option RoundAnswer)) :
    (Returned (run (nextIn v fuel) (World.new buf port) l).trace ∧
      Event.spawn true ∉ (run (nextIn v fuel) (World.new buf port) l).trace) ↔
    ∀ e ∈ (run (nextIn v fuel) (World.new buf port) l).trace, e.Safe := by
  -- `Keeps` is a preorder, so what each step keeps the run keeps
  have hrun : Keeps (World.new buf port) (run (nextIn v fuel) (World.new buf port) l) :=
    run_invariant_of_forall
      (fun w s hw => IsTrans.trans (r := Keeps) _ _ _ hw (keeps_nextIn hv s)) (refl _) l
  obtain ⟨es, htr, hc, hk⟩ := hrun
  have hes : (run (nextIn v fuel) (World.new buf port) l).trace = es := htr.trans rfl
  rw [hes]
  exact ⟨fun h => hc.safe h.1 h.2, fun hsafe => ⟨hc.returns hsafe, (hk hsafe fun _ => rfl).1⟩⟩

/-- Callbacks that greet the peer, and ask for another connection when one is lost. -/
def greeting (t : Thread) : Virtuals where
  readPacket _ := 0
  onConnected := do
    let _ ← send (.quiet fun _ => 0) (.quiet fun _ => 0) 1 t [1] 1 (some 1) none
  onDisconnect := do
    let _ ← connect (.quiet fun _ => 0) "host" 80 true (some [1]) ⟨some 4, true⟩
  onRecv _ := pure ()

theorem greeting_user (t : Thread) : (greeting t).User t where
  onConnected := .send .skip .skip .skip (fun _ => .skip) 1 _ _ _ _ fun _ => .skip
  onDisconnect := .connect .skip _ _ _ _ _ fun _ => .skip
  onRecv _ := .skip

/-- Closed by the owner while the receive thread waits in `select`, which times out. -/
theorem disconnect_returns_iff_timeout :
    let w := run (nextIn greeting 1) (World.new (.replicate _ 0) 0)
      [(.connect "host" 80 true (some [1]) ⟨some 3, true⟩, none)]
    let underWay := some ⟨.timeout, .closed, ⟨none, false⟩⟩
    ∃ es w', (disconnect (greeting .receiver) 1 .owner underWay).run w = .ok () w' ∧
      w'.trace = w.trace ++ .disconnect .owner w.before underWay :: es ∧
      (∀ e ∈ es, e.Uncalled) ∧
      w'.fd = -1 ∧ w'.isRunning = false ∧ w'.isConnected = false ∧ w'.mRecvThread = false :=
  (disconnect_returns_iff (greeting_user .receiver) 1 .owner _ _).mpr (by decide)

/-- A connection, lost and asked for again by the callback, and closed by the owner while the
receive thread waits in `select`; then `select` times out, and the redial gets no socket. -/
def closingOnce : List (Step × Option RoundAnswer) :=
  [(.connect "host" 80 true (some [1]) ⟨some 3, true⟩, none),
    (.iterate ⟨.ready true false, .closed, ⟨none, false⟩⟩, none),
    (.disconnect, some ⟨.timeout, .closed, ⟨none, false⟩⟩)]

/-- `run_returned_iff` at a run in which the callbacks call the client. -/
theorem run_returned_iff_greeting :
    Returned (run (nextIn greeting 1) (World.new (.replicate _ 0) 0) closingOnce).trace ∧
      Event.spawn true ∉ (run (nextIn greeting 1) (World.new (.replicate _ 0) 0)
        closingOnce).trace :=
  (run_returned_iff greeting greeting_user 1 _ _ closingOnce).mpr (by decide)

/-- The same owner, when the redial succeeds: `disconnect` returns, and a socket is open. -/
example : (run (nextIn greeting 1) (World.new (.replicate _ 0) 0)
    [(.connect "host" 80 true (some [1]) ⟨some 3, true⟩, none),
      (.iterate ⟨.ready true false, .closed, ⟨none, false⟩⟩, none),
      (.disconnect, some ⟨.timeout, .closed, ⟨some 4, true⟩⟩)]).trace.getLast? =
    some (.disconnected 4 false false false) := by
  decide

/-- A client closed once more does not return: the thread has been joined already. -/
theorem second_disconnect_raises :
    ¬ Returned (run (nextIn (fun _ => .quiet fun _ => 0) 1) (World.new (.replicate _ 0) 0)
      [(.connect "host" 80 true (some [1]) ⟨some 3, true⟩, none), (.disconnect, none),
        (.disconnect, none)]).trace := by
  decide

end PBTransfor.Tcp
