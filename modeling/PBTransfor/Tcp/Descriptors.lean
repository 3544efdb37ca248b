import PBTransfor.Tcp.Dials

/-!
# Tcp — one descriptor table, many clients

Any number of clients and other code share the descriptor table of the process.  `do_connect`
closes the socket of a dial that was refused and keeps its number in `fd`, so the next step that
closes `fd` closes a descriptor the client no longer has.  These steps are the only ones
(`closes_owned_iff`).
-/

namespace PBTransfor.Tcp

open Library Library.Program

variable {ι : Type}

/-- Who has opened each descriptor that is open: a client, or other code. -/
abbrev Table (ι : Type) := Int → Option (Option ι)

/-- The table after the client `i` has done `e`. -/
def enter (i : ι) (t : Table ι) : Event → Table ι
  | .socket fd => if fd = -1 then t else Function.update t fd (some (some i))
  | .close fd => Function.update t fd none
  | _ => t

/-- If `e` closes a descriptor, `i` has opened it and not closed it since. -/
def OwnsClose (i : ι) (t : Table ι) : Event → Prop
  | .close fd => t fd = some (some i)
  | _ => True

/-- If `e` opens a descriptor, it was not open. -/
def FreshSocket (t : Table ι) : Event → Prop
  | .socket fd => fd ≠ -1 → t fd = none
  | _ => True

/-! ### The process -/

/-- The clients, and the descriptor table they share with other code. -/
structure Process (ι : Type) where
  client : ι → World
  table : Table ι

/-- A step of the process: of a client, or of other code that opens a descriptor or closes one of
its own. -/
inductive ProcessStep (ι : Type) where
  | client (i : ι) (s : Step)
  | opens (n : Nat)
  | closes (n : Nat)

/-- What a client has done between `w` and `w'`. -/
def since (w w' : World) : List Event := w'.trace.drop w.trace.length

section
variable [DecidableEq ι] (f : ι → List Byte → Int32) (fuel : Nat)

/-- What a client does in a step of its own. -/
def Process.does (p : Process ι) (i : ι) (s : Step) : List Event :=
  since (p.client i) (next (.quiet (f i)) fuel (p.client i) s)

def processNext (p : Process ι) : ProcessStep ι → Process ι
  | .client i s =>
      { client := Function.update p.client i (next (.quiet (f i)) fuel (p.client i) s)
        table := run (enter i) p.table (p.does f fuel i s) }
  | .opens n =>
      if p.table n = none then { p with table := Function.update p.table n (some none) } else p
  | .closes n =>
      if p.table n = some none then { p with table := Function.update p.table n none } else p

/-- `socket` returns numbers that are not open. -/
def KernelFresh (p : Process ι) : ProcessStep ι → Prop
  | .client i s => Along (enter i) FreshSocket p.table (p.does f fuel i s)
  | _ => True

/-- Every `CLOSE` of the step is of a descriptor its client owns. -/
def ClosesOwned (p : Process ι) : ProcessStep ι → Prop
  | .client i s => Along (enter i) (OwnsClose i) p.table (p.does f fuel i s)
  | _ => True

end

/-- The last dial was refused, on the number still in `fd`. -/
def World.Stale (w : World) : Prop := ∃ d ∈ lastDial w.trace, d.fd = w.fd ∧ d.ok = false

/-- The owner hangs up, or the receive thread redials, with a number in `fd`. -/
def World.Drops (w : World) (s : Step) : Prop :=
  w.control.admits s = true ∧ w.fd ≠ -1 ∧ match s with
    | .disconnect => True
    | .iterate k => w.Redialing ∧ k.select ≠ .error
    | _ => False

/-- The step closes a number its client has kept from a dial that was refused. -/
def DropsStale (p : Process ι) : ProcessStep ι → Prop
  | .client i s => (p.client i).Drops s ∧ (p.client i).Stale
  | _ => False

/-- A connected client's `fd` is open, its own, and the socket it connected. -/
def ConnectedOwn (p : Process ι) : Prop := ∀ i, (p.client i).isConnected = true →
  p.table (p.client i).fd = some (some i) ∧
    ∃ addr port, lastDial (p.client i).trace = some ⟨(p.client i).fd, addr, port, true⟩

section
variable [DecidableEq ι]

instance (i : ι) (t : Table ι) : ∀ e, Decidable (OwnsClose i t e)
  | .close fd => inferInstanceAs (Decidable (t fd = some (some i)))
  | .connect .. | .disconnect .. | .disconnected .. | .spawn _ | .gethostbyname .. | .socket _
  | .dial .. | .recv .. | .send .. | .onConnected | .onDisconnect | .onRecv _ => .isTrue trivial

instance (t : Table ι) : ∀ e, Decidable (FreshSocket t e)
  | .socket fd => inferInstanceAs (Decidable (fd ≠ -1 → t fd = none))
  | .connect .. | .disconnect .. | .disconnected .. | .spawn _ | .gethostbyname .. | .close _
  | .dial .. | .recv .. | .send .. | .onConnected | .onDisconnect | .onRecv _ => .isTrue trivial

instance (w : World) : Decidable w.Stale :=
  inferInstanceAs (Decidable (∃ d ∈ lastDial w.trace, _))

instance (w : World) : ∀ s, Decidable (w.Drops s)
  | .connect .. | .iterate _ | .send .. | .disconnect => inferInstanceAs (Decidable (_ ∧ _ ∧ _))

variable (f : ι → List Byte → Int32) (fuel : Nat) (p : Process ι)

instance : ∀ s, Decidable (KernelFresh f fuel p s)
  | .client .. => inferInstanceAs (Decidable (Along _ _ _ _))
  | .opens _ | .closes _ => .isTrue trivial

instance : ∀ s, Decidable (ClosesOwned f fuel p s)
  | .client .. => inferInstanceAs (Decidable (Along _ _ _ _))
  | .opens _ | .closes _ => .isTrue trivial

instance : ∀ s, Decidable (DropsStale p s)
  | .client .. => inferInstanceAs (Decidable (_ ∧ _))
  | .opens _ | .closes _ => .isFalse id

end

/-! ### What one client does to the table -/

/-- The number in `fd` is the client's own, unless its last dial was refused. -/
structure Holds (t : Table ι) (i : ι) (w : World) : Prop where
  live : w.Live
  peered : w.Peered
  owns : w.control ≠ .ended ∨ w.isConnected = true → w.fd ≠ -1 →
    ∀ d ∈ lastDial w.trace, d.fd = w.fd → (t w.fd = some (some i) ↔ d.ok = true)

/-- An event that neither opens nor closes a descriptor. -/
def Event.Local : Event → Prop
  | .socket _ | .close _ => False
  | _ => True

section
variable {f : List Byte → Int32} {fuel : Nat} {w w' : World} {s : Step} {i j : ι} {t t' : Table ι}
  {es : List Event}

theorem since_eq (h : w'.trace = w.trace ++ es) : since w w' = es := by
  rw [since, h, List.drop_left]

theorem run_enter_local (h : ∀ e ∈ es, e.Local) : run (enter i) t es = t := by
  refine run_eq_self fun e he => ?_
  have := h e he
  cases e <;> first | rfl | exact this.elim

theorem ownsClose_local (h : ∀ e ∈ es, e.Local) : Along (enter i) (OwnsClose i) t es := by
  refine along_of_forall fun e he t => ?_
  have he := h e he
  cases e with
  | close fd => exact he.elim
  | _ => trivial

/-- A client that closes what it owns and opens what is not open leaves the others alone. -/
theorem enter_other (hij : j ≠ i) (ho : Along (enter i) (OwnsClose i) t es)
    (hf : Along (enter i) FreshSocket t es) (fd : Int) :
    run (enter i) t es fd = some (some j) ↔ t fd = some (some j) := by
  refine run_invariant (I := fun t' : Table ι => t' fd = some (some j) ↔ t fd = some (some j))
    (C := fun t e => OwnsClose i t e ∧ FreshSocket t e) ?_ Iff.rfl (along_and.mpr ⟨ho, hf⟩)
  rintro t' e ht ⟨ho, hf⟩
  rw [← ht]
  cases e with
  | socket fd' =>
      simp only [enter]
      split
      · exact Iff.rfl
      · next hne =>
          by_cases heq : fd = fd'
          · subst heq
            simp [hf hne, hij.symm]
          · rw [Function.update_of_ne heq]
  | close fd' =>
      by_cases heq : fd = fd'
      · subst heq
        simp only [OwnsClose] at ho
        simp [enter, ho, hij.symm]
      · simp [enter, Function.update_of_ne heq]
  | _ => exact Iff.rfl

/-- The `CLOSE` at the beginning of `do_connect` and in `disconnect`. -/
theorem ownsClose_closing :
    Along (enter i) (OwnsClose i) t w.closing ↔ (w.fd ≠ -1 → t w.fd = some (some i)) := by
  unfold World.closing
  split
  · next h => simp [Along, OwnsClose, h]
  · next h => simp [Along, h]

/-- `disconnect` closes the number in `fd`, and nothing else. -/
theorem ownsClose_hangingUp (self : Thread) :
    Along (enter i) (OwnsClose i) t (w.hangingUp self none) ↔
      (w.fd ≠ -1 → t w.fd = some (some i)) := by
  rw [← ownsClose_closing]
  exact ⟨fun h => h.2, fun h => ⟨trivial, h⟩⟩

/-- The sockets `do_connect` closes itself are its own, and what it leaves in `fd` is open when
the dial succeeded, and closed when it was refused. -/
theorem Dialed.owns {k : DialAnswer} {r : EStateM.Result Halt World Int} (h : Dialed w k r)
    (i : ι) (t : Table ι) :
    ∃ es, (leaves r).trace = w.trace ++ (w.closing ++ es) ∧
      (∀ t' : Table ι, Along (enter i) (OwnsClose i) t' es) ∧
      ((∃ ret w₁, r = .ok ret w₁) ∨ (leaves r).isConnected = true ∧ w.isConnected = false →
        (leaves r).fd ≠ -1 → ∀ d ∈ lastDial (leaves r).trace,
          (run (enter i) t (w.closing ++ es) (leaves r).fd = some (some i) ↔ d.ok = true)) := by
  cases h with
  | noSocket =>
      exact ⟨_, rfl, fun _ => ⟨trivial, trivial⟩, fun _ hfd => absurd rfl hfd⟩
  | noHost =>
      refine ⟨_, rfl, fun _ => ⟨trivial, trivial⟩, ?_⟩
      rintro (⟨_, _, h⟩ | ⟨h, h'⟩)
      · cases h
      · exact (Bool.false_ne_true (h'.symm.trans h)).elim
  | refused n addr =>
      refine ⟨_, rfl, fun t' => ?_, fun _ _ d hd => ?_⟩
      · simp [Along, OwnsClose, enter, natCast_ne_neg_one]
      · have hlast := lastDial_dialed (w := w) (t := w.trace) [.close n] n addr w.mPort false
          (by simp [Event.Dialless])
        have hd' : lastDial (w.trace ++ (w.closing ++ [Event.socket n, .dial n addr w.mPort false,
          .close n])) = some d := hd
        rw [List.append_assoc] at hlast
        obtain rfl := Option.some.inj (hlast.symm.trans hd')
        simp [run_append, enter]
  | accepted n addr =>
      refine ⟨_, rfl, fun t' => ⟨trivial, trivial, trivial, trivial⟩, fun _ _ d hd => ?_⟩
      have hlast := lastDial_dialed (w := w) (t := w.trace) [.onConnected] n addr w.mPort true
        (by simp [Event.Dialless])
      have hd' : lastDial (w.trace ++ (w.closing ++ [Event.socket n, .dial n addr w.mPort true,
        .onConnected])) = some d := hd
      rw [List.append_assoc] at hlast
      obtain rfl := Option.some.inj (hlast.symm.trans hd')
      simp [run_append, enter, natCast_ne_neg_one]

/-- The three things a step can do to the descriptors: nothing, a dial, or a `disconnect`. -/
inductive Touches (w : World) : Step → World → Prop where
  | kept {s : Step} {w' : World} (es : List Event) (ht : w'.trace = w.trace ++ es)
      (hes : ∀ e ∈ es, e.Local)
      (hd : ¬ w.Drops s) (hfd : w'.fd = w.fd) (hlast : lastDial w'.trace = lastDial w.trace) :
      Touches w s w'
  | dialed {s : Step} {w' : World} {k : DialAnswer} {r : EStateM.Result Halt World Int}
      (es : List Event) (w₀ : World) (hd : Dialed w₀ k r) (ht₀ : w₀.trace = w.trace ++ es)
      (hes : ∀ e ∈ es, e.Local) (hfd₀ : w₀.fd = w.fd) (hc₀ : w₀.isConnected = false)
      (es' : List Event) (ht : w'.trace = (leaves r).trace ++ es') (hes' : ∀ e ∈ es', e.Local)
      (hlast : lastDial w'.trace = lastDial (leaves r).trace) (hfd : w'.fd = (leaves r).fd)
      (hc : w'.isConnected = (leaves r).isConnected)
      (hok : w'.control ≠ .ended → ∃ ret w₁, r = .ok ret w₁) (hdrops : w.fd ≠ -1 → w.Drops s) :
      Touches w s w'
  | hungUp {s : Step} {w' : World} (es : List Event)
      (es' : List Event) (ht : w'.trace = w.trace ++ (es ++ w.hangingUp .owner none ++ es'))
      (hes : ∀ e ∈ es, e.Local) (hes' : ∀ e ∈ es', e.Local) (hfd : w'.fd = -1)
      (hdrops : w.fd ≠ -1 → w.Drops s ∨ w.isConnected = true) : Touches w s w'

theorem Received.local {k : RecvAnswer} {r : EStateM.Result Halt World Int} (h : Received w k r) :
    ∃ es, (leaves r).trace = w.trace ++ es ∧ ∀ e ∈ es, e.Local := by
  cases h with
  | lost => exact ⟨_, rfl, by simp [Event.Local]⟩
  | data => exact ⟨_, rfl, by simp [Event.Local]⟩
  | halted => exact ⟨_, rfl, by simp [Event.Local]⟩
  | overrun => exact ⟨[], (List.append_nil _).symm, by simp⟩

/-- A round that finds its connection watched drops nothing. -/
theorem not_drops_of_watched {k : RoundAnswer} (hw : w.Watched) : ¬ w.Drops (.iterate k) := by
  rintro ⟨-, -, hr, -⟩
  cases hw.isConnected.symm.trans hr.isConnected

theorem Move.touches (h : Move f fuel w s w') (ha : w.control.admits s = true)
    (hcoh : w.Coherent) : Touches w s w' := by
  have still : ∀ {s : Step} {w' : World} (es : List Event), w'.fd = w.fd →
      w'.trace = w.trace ++ es → (∀ e ∈ es, e.Local) → (∀ e ∈ es, e.Dialless) → ¬ w.Drops s →
      Touches w s w' := fun es hfd ht hl hdl hd =>
    .kept es ht hl hd hfd (ht ▸ lastDial_dialless hdl)
  have start : ∀ {pHost port reconnect l k r w'}, w.isRunning = false →
      Dialed { w.aim pHost port reconnect l with isRunning := true } k r →
      (es' : List Event) → w'.trace = (leaves r).trace ++ es' → (∀ e ∈ es', e.Local) →
      (∀ e ∈ es', e.Dialless) → w'.fd = (leaves r).fd →
      w'.isConnected = (leaves r).isConnected →
      (w'.control ≠ .ended → ∃ ret w₁, r = .ok ret w₁) →
      Touches w (.connect pHost port reconnect (some l) k) w' := by
    intro pHost port reconnect l k r w' hr hd es' ht hes' hdl hfd hc hok
    have hu := hcoh.unplugged hr
    exact .dialed _ _ hd rfl (by simp [Event.Local]) rfl hu.2 es' ht hes'
      (ht ▸ lastDial_dialless hdl) hfd hc hok fun h => absurd hu.1 h
  -- one case for each thing a step can do; the calls of `connect` share `start`
  cases h with
  | lookupFailed =>
      exact still _ rfl rfl (by simp [Event.Local]) (by simp [Event.Dialless]) (·.2.2)
  | aimed => exact still _ rfl rfl (by simp [Event.Local]) (by simp [Event.Dialless]) (·.2.2)
  | started _ _ _ _ _ hr hj hd =>
      exact start hr hd [.spawn false] rfl (by simp [Event.Local]) (by simp [Event.Dialless]) rfl
        rfl fun _ => ⟨_, _, rfl⟩
  | startHalted _ _ _ _ _ hr hd =>
      exact start hr hd [] (List.append_nil _).symm (by simp) (by simp) rfl rfl fun h =>
        absurd rfl h
  | startTerminated _ _ _ _ _ hr hj hd =>
      exact start hr hd [.spawn true] rfl (by simp [Event.Local]) (by simp [Event.Dialless]) rfl
        rfl fun h => absurd rfl h
  | sendIdle => exact still [] rfl (List.append_nil _).symm (by simp) (by simp) (·.2.2)
  | sent => exact still _ rfl rfl (by simp [Event.Local]) (by simp [Event.Dialless]) (·.2.2)
  | sendFailed pData accepted hc hret hh =>
      rw [hh.done_of_connected hcoh hc]
      refine .hungUp [.send w.fd (passed pData) accepted, .onDisconnect] [.hungUp] ?_
        (by simp [Event.Local]) (by simp [Event.Local, Event.hungUp]) rfl fun _ => .inr hc
      exact List.append_assoc ..
  | @hungUp r hh =>
      obtain ⟨es, ht, hes⟩ := hh.trace
      refine .hungUp [] es ?_ (by simp) ?_ ?_ fun hfd => .inl ⟨ha, hfd, trivial⟩
      · rw [settle_trace, ht]
        rfl
      · rcases hes with rfl | rfl <;> simp [Event.Local, Event.hungUp]
      · rw [settle_toTcpClient]
        exact (hh.unplugged hcoh).1
  -- a round of `run` that is not running tests nothing
  | idle k hi =>
      refine still [] rfl (List.append_nil _).symm (by simp) (by simp) ?_
      rintro ⟨-, -, hr⟩
      exact hi (.inr hr)
  | received k exceptional hw hs hrun =>
      have hrec := received_of_run hrun
      obtain ⟨es, ht, hes⟩ := hrec.local
      cases exceptional with
      | false => exact .kept es ht hes (not_drops_of_watched hw) hrec.fd hrec.dialless
      | true =>
          refine .kept (es ++ [.onDisconnect]) ?_ ?_ (not_drops_of_watched hw) hrec.fd
            ((lastDial_dialless (by simp [Event.Dialless])).trans hrec.dialless)
          · rw [← List.append_assoc]
            exact congrArg (· ++ [Event.onDisconnect]) ht
          · exact List.forall_mem_append.mpr ⟨hes, List.forall_mem_singleton.mpr trivial⟩
  | receiveHalted k exceptional hw hs hrun =>
      have hrec := received_of_run hrun
      obtain ⟨es, ht, hes⟩ := hrec.local
      exact .kept es ht hes (not_drops_of_watched hw) hrec.fd hrec.dialless
  | excepted k hw hs =>
      exact still _ rfl rfl (by simp [Event.Local]) (by simp [Event.Dialless])
        (not_drops_of_watched hw)
  | redialed k hw hs hd =>
      exact .dialed [] w hd (List.append_nil _).symm (by simp) rfl hw.isConnected []
        (List.append_nil _).symm (by simp) rfl rfl rfl (fun _ => ⟨_, _, rfl⟩)
        fun hfd => ⟨ha, hfd, hw, hs⟩
  | redialHalted k hw hs hd =>
      exact .dialed [] w hd (List.append_nil _).symm (by simp) rfl hw.isConnected []
        (List.append_nil _).symm (by simp) rfl rfl rfl (fun h => absurd rfl h)
        fun hfd => ⟨ha, hfd, hw, hs⟩

/-- A number in `fd` is owned unless it is stale. -/
theorem Holds.owned_iff (hw : Holds t i w) (ha : w.control ≠ .ended) (hfd : w.fd ≠ -1) :
    t w.fd = some (some i) ↔ ¬ w.Stale := by
  obtain ⟨d, hd, hdfd⟩ := hw.peered.dialed ha hfd
  rw [hw.owns (.inl ha) hfd d hd hdfd]
  constructor
  · rintro hok ⟨d', hd', -, hno⟩
    obtain rfl := Option.some.inj (hd.symm.trans hd')
    cases hok.symm.trans hno
  · intro h
    by_contra hok
    exact h ⟨d, hd, hdfd, Bool.eq_false_iff.mpr hok⟩

theorem Holds.not_stale (hw : Holds t i w) (hc : w.isConnected = true) : ¬ w.Stale := by
  obtain ⟨-, d, hd, -, hok⟩ := hw.peered.connected hc
  rintro ⟨d', hd', -, hno⟩
  obtain rfl := Option.some.inj (hd.symm.trans hd')
  cases hok.symm.trans hno

/-- **When a step closes only what its client owns.** -/
theorem Touches.owned_iff (h : Touches w s w') (ha : w.control ≠ .ended) (hw : Holds t i w) :
    Along (enter i) (OwnsClose i) t (since w w') ↔ ¬ (w.Drops s ∧ w.Stale) := by
  -- a step that closes `fd` owns it unless it is stale
  have closing : (w.fd ≠ -1 → w.Drops s ∨ w.isConnected = true) →
      ((w.fd ≠ -1 → t w.fd = some (some i)) ↔ ¬ (w.Drops s ∧ w.Stale)) := by
    intro hdrops
    constructor
    · rintro ho ⟨hd, hst⟩
      exact (hw.owned_iff ha hd.2.1).mp (ho hd.2.1) hst
    · intro h hfd
      rw [hw.owned_iff ha hfd]
      rcases hdrops hfd with hd | hc
      · exact fun hst => h ⟨hd, hst⟩
      · exact hw.not_stale hc
  cases h with
  | kept es ht hes hd =>
      rw [since_eq ht]
      exact iff_of_true (ownsClose_local hes) fun h => hd h.1
  | dialed es w₀ hd ht₀ hes hfd₀ hc₀ es' ht hes' hlast hfd hc hok hdrops =>
      obtain ⟨tail, ht', ho, -⟩ := hd.owns i t
      rw [ht', ht₀, List.append_assoc, List.append_assoc] at ht
      rw [since_eq ht, along_append, along_append, along_append, run_enter_local hes,
        ownsClose_closing, hfd₀, ← closing fun h => .inl (hdrops h)]
      exact ⟨fun h => h.2.1.1, fun h =>
        ⟨ownsClose_local hes, ⟨h, ho _⟩, ownsClose_local hes'⟩⟩
  | hungUp es es' ht hes hes' hfd hdrops =>
      rw [since_eq ht, along_append, along_append, run_enter_local hes, ownsClose_hangingUp,
        ← closing hdrops]
      exact ⟨fun h => h.1.2, fun h => ⟨⟨ownsClose_local hes, h⟩, ownsClose_local hes'⟩⟩

/-- What a step leaves in `fd` is held as before. -/
theorem Move.holds (h : Move f fuel w s w') (ha : w.control.admits s = true) (hw : Holds t i w) :
    Holds (run (enter i) t (since w w')) i w' := by
  have hctl := ne_ended_of_admits ha
  have hcoh := hw.live hctl
  refine ⟨h.live hcoh, h.peered hctl hcoh hw.peered, ?_⟩
  cases h.touches ha hcoh with
  | kept es ht hes hd hfd hlast =>
      rw [since_eq ht, run_enter_local hes, hfd, hlast]
      exact fun _ => hw.owns (.inl hctl)
  | @dialed k r es w₀ hd ht₀ hes hfd₀ hc₀ es' ht hes' hlast hfd hc hok hdrops =>
      obtain ⟨tail, ht', -, hown⟩ := hd.owns i t
      rw [ht', ht₀, List.append_assoc, List.append_assoc] at ht
      rw [since_eq ht, run_append, run_append, run_enter_local hes, run_enter_local hes', hlast,
        hfd, hc]
      intro hor hne d hlast _
      refine hown ?_ hne d hlast
      rcases hor with h | h
      · exact .inl (hok h)
      · exact .inr ⟨h, hc₀⟩
  | hungUp es es' ht hes hes' hfd hdrops =>
      exact fun _ h => absurd hfd h

/-- A table that says the same of `i` is as good. -/
theorem Holds.congr (hw : Holds t i w) (h : ∀ fd, t' fd = some (some i) ↔ t fd = some (some i)) :
    Holds t' i w :=
  ⟨hw.live, hw.peered, fun hor hfd d hd hdfd => (h _).trans (hw.owns hor hfd d hd hdfd)⟩

end

/-! ### The process -/

section
variable {f : ι → List Byte → Int32} {fuel : Nat} {p : Process ι}

/-- Every client holds its descriptor. -/
def Process.Ok (p : Process ι) : Prop := ∀ i, Holds p.table i (p.client i)

theorem closesOwned_iff (hp : p.Ok) (s : ProcessStep ι) :
    ClosesOwned f fuel p s ↔ ¬ DropsStale p s := by
  cases s with
  | client i s =>
      refine next_cases (P := fun w' => Along (enter i) (OwnsClose i) p.table
        (since (p.client i) w') ↔ ¬ ((p.client i).Drops s ∧ (p.client i).Stale)) s ?_ ?_
      · intro ha
        rw [since_eq (List.append_nil _).symm]
        refine iff_of_true trivial ?_
        rintro ⟨⟨ha', -⟩, -⟩
        cases ha.symm.trans ha'
      · intro w' ha h
        have hctl := ne_ended_of_admits ha
        exact (h.touches ha ((hp i).live hctl)).owned_iff hctl (hp i)
  | opens n => exact iff_of_true trivial id
  | closes n => exact iff_of_true trivial id

/-- **A process whose clients close only what they own stays in order.** -/
theorem processNext_ok [DecidableEq ι] (hp : p.Ok) (s : ProcessStep ι) (hk : KernelFresh f fuel p s)
    (ho : ClosesOwned f fuel p s) : (processNext f fuel p s).Ok := by
  intro j
  cases s with
  | client i s =>
      by_cases hij : j = i
      · subst hij
        have : Holds (run (enter j) p.table (p.does f fuel j s)) j
            (next (.quiet (f j)) fuel (p.client j) s) := by
          refine next_cases (P := fun w' => Holds (run (enter j) p.table
            (since (p.client j) w')) j w') s ?_ fun w' ha h => h.holds ha (hp j)
          intro _
          rw [since_eq (List.append_nil _).symm]
          exact hp j
        simpa [processNext] using this
      -- another client's descriptors stay as they are, for none is closed that is not owned
      · have hj := (hp j).congr (enter_other hij ho hk)
        simpa [processNext, Function.update_of_ne hij] using hj
  | opens n =>
      simp only [processNext]
      split
      · next hn =>
          refine (hp j).congr fun fd => ?_
          by_cases heq : fd = n
          · subst heq; simp [hn]
          · simp [Function.update_of_ne heq]
      · exact hp j
  | closes n =>
      simp only [processNext]
      split
      · next hn =>
          refine (hp j).congr fun fd => ?_
          by_cases heq : fd = n
          · subst heq; simp [hn]
          · simp [Function.update_of_ne heq]
      · exact hp j

/-- The process before its clients have done anything: they are new, and other code holds the
descriptors `held`. -/
def Process.new (held : Int → Bool) (buf : ι → Buffer Byte maxRecvBuf) (port : ι → UInt16) :
    Process ι where
  client i := .new (buf i) (port i)
  table fd := if held fd then some none else none

theorem ok_new (held : Int → Bool) (buf : ι → Buffer Byte maxRecvBuf) (port : ι → UInt16) :
    (Process.new held buf port).Ok :=
  fun _ => ⟨live_new _ _, peered_new _ _, fun _ hfd => absurd rfl hfd⟩

/-- **When clients close only what they own.**  In every interleaving in which `socket` returns
numbers that are not open, every `CLOSE` is of a descriptor its client has opened and not closed
since, exactly when no client closes the number it has kept from a dial that was refused.  Then a
connected client's `fd` is open, its own, and the socket it connected. -/
theorem closes_owned_iff [DecidableEq ι] (f : ι → List Byte → Int32) (fuel : Nat)
    (held : Int → Bool) (buf : ι → Buffer Byte maxRecvBuf) (port : ι → UInt16)
    (l : List (ProcessStep ι))
    (hk : Along (processNext f fuel) (KernelFresh f fuel) (.new held buf port) l) :
    (Along (processNext f fuel) (ClosesOwned f fuel) (.new held buf port) l ↔
      Along (processNext f fuel) (fun p s => ¬ DropsStale p s) (.new held buf port) l) ∧
    (Along (processNext f fuel) (fun p s => ¬ DropsStale p s) (.new held buf port) l →
      ConnectedOwn (run (processNext f fuel) (.new held buf port) l)) := by
  have hiff : Along (processNext f fuel) (ClosesOwned f fuel) (.new held buf port) l ↔
      Along (processNext f fuel) (fun p s => ¬ DropsStale p s) (.new held buf port) l := by
    refine along_iff_along (I := Process.Ok) ?_ ?_ (ok_new held buf port) hk
    · exact fun p s hp hk ho => processNext_ok hp s hk ho
    · exact fun p s hp _ => closesOwned_iff hp s
  refine ⟨hiff, ?_⟩
  intro hl i hc
  have hok := run_invariant (I := Process.Ok)
    (C := fun p s => KernelFresh f fuel p s ∧ ClosesOwned f fuel p s)
    (fun p s hp h => processNext_ok hp s h.1 h.2) (ok_new held buf port)
    (along_and.mpr ⟨hk, hiff.mpr hl⟩)
  obtain ⟨hne, ⟨fd, addr, port, ok⟩, hd, hfd, hdok⟩ := (hok i).peered.connected hc
  refine ⟨((hok i).owns (.inr hc) hne _ hd hfd).mpr hdok, addr, port, ?_⟩
  obtain rfl : fd = _ := hfd
  obtain rfl : ok = true := hdok
  exact hd

end

/-! ### Two clients -/

/-- A process of two clients, in which other code holds the descriptors 0, 1 and 2. -/
def Process.pair : Process Bool :=
  .new (fun fd => decide (0 ≤ fd ∧ fd ≤ 2)) (fun _ => .replicate _ 0) (fun _ => 0)

/-- A step in which `i` calls `connect` and gets the socket 3. -/
def connecting (i ok : Bool) : ProcessStep Bool :=
  .client i (.connect "host" 80 false (some [1]) ⟨some 3, ok⟩)

/-- `closes_owned_iff` at a client that connects and disconnects, and another that connects. -/
theorem closes_owned_iff_pair :
    Along (processNext (fun _ _ => 0) maxRecvBuf) (ClosesOwned (fun _ _ => 0) maxRecvBuf)
      Process.pair [connecting false true, .client false .disconnect, connecting true true] :=
  (closes_owned_iff _ _ _ _ _ _ (by decide)).1.mpr (by decide)

/-- A dial is refused on the socket 3, another client connects on 3, and the owner of the first
hangs up: the socket of the second is closed. -/
theorem refused_closes_other :
    Along (processNext (fun _ _ => 0) maxRecvBuf) (KernelFresh (fun _ _ => 0) maxRecvBuf)
      Process.pair [connecting false false, connecting true true, .client false .disconnect] ∧
    ¬ Along (processNext (fun _ _ => 0) maxRecvBuf) (ClosesOwned (fun _ _ => 0) maxRecvBuf)
      Process.pair [connecting false false, connecting true true, .client false .disconnect] := by
  decide

end PBTransfor.Tcp
