import PBTransfor.Tcp.Dials

/-!
# Tcp — where the client dials

`connect` adds to `m_hosts` and never clears it, and adds the first address of the answer once
for each address; `do_connect` dials the first entry.

* `run_dials_first`: a client dials what its first successful lookup gave first, for ever.
* `throughout_aimed_iff`: the client dials where it was last told to exactly when its lookups
  succeed at most once, with one address.
* `connect_meant_iff`: what a `connect` that returns `0` leaves.  On a client that is running it
  returns `0` whatever has become of the connection.
-/

namespace PBTransfor.Tcp

open Library Library.Program

/-! ### What a step does to the target -/

/-- What the last `connect` asked for: its port, and what the resolver answered. -/
structure Target where
  port : UInt16
  answer : Option (List InAddr)
  deriving DecidableEq, Repr

/-- The target after the event, `none` when the event is a dial elsewhere. -/
def follow (t : Target) : Event → Option Target
  | .connect _ port _ => some ⟨port, none⟩
  | .gethostbyname _ answer => some { t with answer := answer }
  | .dial _ addr port _ => if ∀ l ∈ t.answer, addr ∈ l ∧ port = t.port then some t else none
  | _ => some t

/-- The target of a client that has not been told one. -/
def Target.start : Target := ⟨0, none⟩

/-- Every dial so far went where the last `connect` before it said, and `m_hosts` is what the
last lookup answered. -/
def World.Aimed (w : World) : Prop :=
  ∃ t ∈ w.trace.foldlM follow .start, ∀ l ∈ t.answer, w.mHosts = l

instance (w : World) : Decidable w.Aimed := inferInstanceAs (Decidable (∃ t ∈ _, _))

/-- Every address of the list is its first. -/
def OneAddress (l : List InAddr) : Prop := ∀ addr ∈ l, l.head? = some addr

instance (l : List InAddr) : Decidable (OneAddress l) :=
  inferInstanceAs (Decidable (∀ addr ∈ l, _))

/-- What the step asks the resolver, and its answer. -/
def Step.lookup : Step → Option (List InAddr)
  | .connect _ _ _ lookup _ => lookup
  | _ => none

/-- A lookup of this step that succeeds is the client's first, and gives one address. -/
def AimsOnce (w : World) (s : Step) : Prop :=
  w.control.admits s = true → ∀ l ∈ s.lookup, w.mHosts = [] ∧ OneAddress l

/-- An event of `do_connect` and of what follows it: a dial goes to the first of `m_hosts`. -/
def Event.AimedBy (w : World) : Event → Prop
  | .connect .. | .gethostbyname .. => False
  | .dial _ addr port _ => w.mHosts.head? = some addr ∧ port = w.mPort
  | _ => True

/-- What the step adds to `m_hosts`. -/
def Step.pushes (s : Step) : List InAddr := (s.lookup.map pushed).getD []

/-- What a `connect` records before it dials, and the port it sets. -/
inductive Call (w w' : World) : Step → List Event → Prop where
  | none {s : Step} (hs : s.lookup = none) (hp : w'.mPort = w.mPort) : Call w w' s []
  | connect (pHost : String) (reconnect : Bool) (lookup : Option (List InAddr)) (k : DialAnswer) :
      Call w w' (.connect pHost w'.mPort reconnect lookup k)
        [.connect pHost w'.mPort reconnect, .gethostbyname pHost lookup]

section
variable {f : List Byte → Int32} {fuel : Nat} {w w' : World} {s : Step} {t t' : Target}
  {es : List Event}

/-- `w'` keeps the target of `w`, and dials there. -/
def Steady (w w' : World) : Prop :=
  w'.mHosts = w.mHosts ∧ w'.mPort = w.mPort ∧
    ∃ es, w'.trace = w.trace ++ es ∧ ∀ e ∈ es, e.AimedBy w'

theorem steady_refl : Steady w w := ⟨rfl, rfl, [], by simp, by simp⟩

theorem Steady.settle {r : EStateM.Result Halt World Unit} (h : Steady w (leaves r)) (s : Step) :
    Steady w (settle s r) := by
  cases r <;> exact h

theorem Steady.trans {w₁ : World} (h : Steady w w₁) (h' : Steady w₁ w') : Steady w w' := by
  obtain ⟨hm, hp, es, htr, hes⟩ := h
  obtain ⟨hm', hp', es', htr', hes'⟩ := h'
  refine ⟨hm'.trans hm, hp'.trans hp, es ++ es', by simp [htr', htr], fun e he => ?_⟩
  rcases List.mem_append.mp he with he | he
  · have := hes e he
    cases e <;> simp_all [Event.AimedBy]
  · exact hes' e he

theorem steady_record (hes : ∀ e ∈ es, e.AimedBy w) : Steady w (w.record es) :=
  ⟨rfl, rfl, es, rfl, hes⟩

theorem Dialed.steady {k : DialAnswer} {r : EStateM.Result Halt World Int} (h : Dialed w k r) :
    Steady w (leaves r) := by
  have htarget : (leaves r).mHosts = w.mHosts ∧ (leaves r).mPort = w.mPort := by
    cases h <;> exact ⟨rfl, rfl⟩
  exact ⟨htarget.1, htarget.2, h.recorded (fun _ => trivial) (fun _ => trivial)
    (fun _ _ _ hm => ⟨htarget.1 ▸ hm, htarget.2.symm⟩) trivial⟩

theorem Received.steady {k : RecvAnswer} {r : EStateM.Result Halt World Int}
    (h : Received w k r) : Steady w (leaves r) := by
  have htarget : (leaves r).mHosts = w.mHosts ∧ (leaves r).mPort = w.mPort := by
    cases h <;> exact ⟨rfl, rfl⟩
  exact ⟨htarget.1, htarget.2, h.recorded (fun _ _ => trivial) trivial fun _ => trivial⟩

theorem HungUp.steady {r : EStateM.Result Halt World Unit} (h : HungUp w r) :
    Steady w (leaves r) := by
  have htarget : (leaves r).mHosts = w.mHosts ∧ (leaves r).mPort = w.mPort := by
    cases h with
    | raised => rw [leaves_error, World.unplug_eq]; exact ⟨rfl, rfl⟩
    | blocked => exact ⟨rfl, rfl⟩
    | done => exact ⟨rfl, rfl⟩
  obtain ⟨es, htr, hes⟩ := h.trace
  exact ⟨htarget.1, htarget.2, _, htr, forall_mem_hangingUp_append hes trivial trivial trivial⟩

/-- **A step dials the first of `m_hosts`**, to which only a `connect` adds. -/
theorem Move.aims (h : Move f fuel w s w') : w'.mHosts = w.mHosts ++ s.pushes ∧
    ∃ es es', w'.trace = w.trace ++ (es ++ es') ∧ Call w w' s es ∧ ∀ e ∈ es', e.AimedBy w' := by
  have steady : ∀ {s : Step} {w' : World}, s.lookup = none → Steady w w' →
      w'.mHosts = w.mHosts ++ s.pushes ∧ ∃ es es', w'.trace = w.trace ++ (es ++ es') ∧
        Call w w' s es ∧ ∀ e ∈ es', e.AimedBy w' := by
    rintro s w' hs ⟨hm, hp, es, htr, hes⟩
    exact ⟨by simp [hm, Step.pushes, hs], [], es, htr, .none hs hp, hes⟩
  -- a call that finds the host sets the port, and then dials, if it does, at that port
  have called : ∀ {pHost port reconnect l k} {w₁ w' : World}, w₁.trace = (w.aim pHost port
      reconnect l).trace → w₁.mHosts = w.mHosts ++ pushed l → w₁.mPort = port → Steady w₁ w' →
      w'.mHosts = w.mHosts ++ Step.pushes (.connect pHost port reconnect (some l) k) ∧
      ∃ es es', w'.trace = w.trace ++ (es ++ es') ∧
        Call w w' (.connect pHost port reconnect (some l) k) es ∧ ∀ e ∈ es', e.AimedBy w' := by
    rintro pHost port reconnect l k w₁ w' htr₁ hm₁ hp₁ ⟨hm, hp, es, htr, hes⟩
    obtain rfl : w'.mPort = port := hp.trans hp₁
    refine ⟨hm.trans hm₁, _, es, ?_, .connect pHost reconnect (some l) k, hes⟩
    rw [htr, htr₁]
    simp [World.aim, World.retarget]
  cases h with
  | lookupFailed pHost port reconnect k =>
      exact ⟨by simp [World.retarget, Step.pushes, Step.lookup], _, [], by simp [World.retarget],
        .connect pHost reconnect none k, by simp⟩
  | aimed => exact called rfl rfl rfl steady_refl
  | started _ _ _ _ _ hr hj hd =>
      exact called rfl rfl rfl (hd.steady.trans (steady_record (by simp [Event.AimedBy])))
  | startHalted _ _ _ _ _ hr hd => exact called rfl rfl rfl hd.steady
  | startTerminated _ _ _ _ _ hr hj hd =>
      exact called rfl rfl rfl (hd.steady.trans (steady_record (by simp [Event.AimedBy])))
  | sendIdle => exact steady rfl steady_refl
  | sent => exact steady rfl (steady_record (by simp [Event.AimedBy]))
  | sendFailed _ _ hc _ hh =>
      exact steady rfl ((steady_record (by simp [Event.AimedBy])).trans (hh.steady.settle _))
  | hungUp hh => exact steady rfl (hh.steady.settle _)
  | idle => exact steady rfl steady_refl
  | received k exceptional hwatch hsel hrun =>
      have hrec := received_of_run hrun
      cases exceptional with
      | false => exact steady rfl hrec.steady
      | true => exact steady rfl (hrec.steady.trans (steady_record (by simp [Event.AimedBy])))
  | receiveHalted k exceptional hwatch hsel hrun =>
      have hrec := received_of_run hrun
      exact steady rfl hrec.steady
  | excepted => exact steady rfl (steady_record (by simp [Event.AimedBy]))
  | redialed k hr hsel hd => exact steady rfl hd.steady
  | redialHalted k hr hsel hd => exact steady rfl hd.steady

/-- `w'` comes from `w` by events of which the dials are to `addr`, the first of `m_hosts`. -/
def DialsOnly (addr : InAddr) (w w' : World) : Prop :=
  w'.mHosts.head? = some addr ∧ ∃ es, w'.trace = w.trace ++ es ∧
    ∀ fd addr' port ok, Event.dial fd addr' port ok ∈ es → addr' = addr

theorem Move.dialsOnly {addr : InAddr} (h : Move f fuel w s w')
    (hw : w.mHosts.head? = some addr) : DialsOnly addr w w' := by
  obtain ⟨hm, es, es', htr, hcall, hes'⟩ := h.aims
  have hhead : w'.mHosts.head? = some addr := by
    rw [hm, List.head?_append, hw]
    rfl
  refine ⟨hhead, es ++ es', htr, fun fd addr' port ok he => ?_⟩
  rcases List.mem_append.mp he with he | he
  · cases hcall with
    | none => cases he
    | connect => simp at he
  · exact Option.some.inj ((hes' _ he).1.symm.trans hhead)

/-- A client that has been told of a host, and is told of another one. -/
def toldOfFirst : World := run (next (.quiet fun _ => 0) maxRecvBuf) (World.new (.replicate _ 0) 0)
  [.connect "first" 80 true (some [1]) ⟨some 3, true⟩, .disconnect]

/-- Dials where the target says leave the target. -/
theorem follow_aimedBy (hes : ∀ e ∈ es, e.AimedBy w)
    (ht : ∀ l ∈ t.answer, w.mHosts = l ∧ w.mPort = t.port) : es.foldlM follow t = some t := by
  refine foldlM_eq_self fun e he => ?_
  have he := hes e he
  cases e with
  | connect => exact he.elim
  | gethostbyname => exact he.elim
  | dial fd addr port ok =>
      refine if_pos fun l hl => ?_
      obtain ⟨rfl, hp⟩ := ht l hl
      exact ⟨List.mem_of_mem_head? he.1, he.2.trans hp⟩
  | _ => rfl

/-- Only a `connect` changes the target. -/
theorem follow_keeps (hes : ∀ e ∈ es, e.AimedBy w) (h : es.foldlM follow t = some t') : t' = t := by
  induction es with
  | nil => exact (Option.some.inj h).symm
  | cons e es ih =>
      have he := hes e (by simp)
      have hf : ∀ u, follow t e = some u → u = t := by
        intro u hu
        cases e with
        | connect => exact he.elim
        | gethostbyname => exact he.elim
        | dial fd addr port ok =>
            simp only [follow, Option.ite_none_right_eq_some, Option.some.injEq] at hu
            exact hu.2.symm
        | _ => exact (Option.some.inj hu).symm
      rw [List.foldlM_cons, Option.bind_eq_bind, Option.bind_eq_some_iff] at h
      obtain ⟨u, hu, hrest⟩ := h
      rw [hf u hu] at hrest
      exact ih (fun e' h' => hes e' (by simp [h'])) hrest

/-- `m_port` is the port the last `connect` asked for. -/
def World.Ported (w : World) : Prop :=
  ∀ t ∈ w.trace.foldlM follow .start, ∀ l ∈ t.answer, w.mPort = t.port

theorem length_pushed (l : List InAddr) : (pushed l).length = l.length := by
  cases l <;> simp [pushed]

theorem pushed_eq_iff (l : List InAddr) : pushed l = l ↔ OneAddress l := by
  cases l with
  | nil => simp [pushed, OneAddress]
  | cons a l =>
      have h : pushed (a :: l) = List.replicate (l.length + 1) a := by simp [pushed]
      rw [h, eq_comm, List.eq_replicate_iff]
      simp [OneAddress, eq_comm]

/-- The answer is all there is in `m_hosts` exactly when it came first and is one address. -/
theorem append_pushed_eq_iff (hosts l : List InAddr) :
    hosts ++ pushed l = l ↔ hosts = [] ∧ OneAddress l := by
  rw [← pushed_eq_iff]
  constructor
  · intro h
    have hlen := congrArg List.length h
    rw [List.length_append, length_pushed] at hlen
    obtain rfl : hosts = [] := List.length_eq_zero_iff.mp (by omega)
    exact ⟨rfl, h⟩
  · rintro ⟨rfl, h⟩
    exact h

theorem Move.ported (h : Move f fuel w s w') (hw : w.Ported) : w'.Ported := by
  obtain ⟨-, es, es', htr, hcall, hes'⟩ := h.aims
  intro t ht l hl
  rw [htr, List.foldlM_append, Option.mem_def, Option.bind_eq_bind, Option.bind_eq_some_iff] at ht
  obtain ⟨t₀, ht₀, ht⟩ := ht
  rw [List.foldlM_append, Option.bind_eq_bind, Option.bind_eq_some_iff] at ht
  obtain ⟨t₁, ht₁, ht⟩ := ht
  obtain rfl := follow_keeps hes' ht
  cases hcall with
  | none _ hp =>
      obtain rfl := Option.some.inj ht₁
      exact hp.trans (hw t₀ ht₀ l hl)
  | connect =>
      obtain rfl := Option.some.inj ht₁
      rfl

/-- **When one step keeps to the target.** -/
theorem Move.aimed_iff (h : Move f fuel w s w') (hw : w.Aimed) (hp : w.Ported) :
    w'.Aimed ↔ ∀ l ∈ s.lookup, w.mHosts = [] ∧ OneAddress l := by
  obtain ⟨hm, es, es', htr, hcall, hes'⟩ := h.aims
  obtain ⟨t, ht, hhosts⟩ := hw
  have htrace : ∀ t₁, es.foldlM follow t = some t₁ →
      w'.trace.foldlM follow .start = es'.foldlM follow t₁ := by
    intro t₁ ht₁
    rw [htr, List.foldlM_append, Option.mem_def.mp ht]
    exact (List.foldlM_append ..).trans (by rw [ht₁]; rfl)
  cases hcall with
  | none hs hp' =>
      -- the target is the one of before, and so are `m_hosts` and `m_port`
      have hmHosts : w'.mHosts = w.mHosts := by simpa [Step.pushes, hs] using hm
      refine iff_of_true ⟨t, ?_, fun l hl => hmHosts.trans (hhosts l hl)⟩ (by simp [hs])
      rw [Option.mem_def, htrace t rfl]
      exact follow_aimedBy hes' fun l hl =>
        ⟨hmHosts.trans (hhosts l hl), hp'.trans (hp t ht l hl)⟩
  | connect pHost reconnect lookup k =>
      -- the call sets the target; the dials that follow it are at the first of `m_hosts`
      have hfold := htrace ⟨w'.mPort, lookup⟩ rfl
      have hl : (∀ l ∈ lookup, w'.mHosts = l) ↔ ∀ l ∈ lookup, w.mHosts = [] ∧ OneAddress l := by
        cases lookup with
        | none => simp
        | some l =>
            have hpush : w'.mHosts = w.mHosts ++ pushed l := hm
            simp [hpush, append_pushed_eq_iff]
      refine Iff.trans ⟨?_, fun hlook => ⟨⟨w'.mPort, lookup⟩, ?_, hlook⟩⟩ hl
      · rintro ⟨t', ht', hlook⟩
        rw [Option.mem_def, hfold] at ht'
        obtain rfl := follow_keeps hes' ht'
        exact hlook
      · rw [Option.mem_def, hfold]
        exact follow_aimedBy hes' fun l hl => ⟨hlook l hl, rfl⟩

end

/-- **The exact condition for dialing where the client was last told to**: of the lookups of the
run one at most succeeds, and it gives one address. -/
theorem throughout_aimed_iff (f : List Byte → Int32) (fuel : Nat) (buf : Buffer Byte maxRecvBuf)
    (port : UInt16) (l : List Step) :
    Throughout (next (.quiet f) fuel) World.Aimed (World.new buf port) l ↔
      Along (next (.quiet f) fuel) AimsOnce (World.new buf port) l := by
  refine throughout_iff_along (I := World.Ported) ?_ ?_ ?_ ?_
  · exact fun w s hw => next_cases s (fun _ => hw) fun w' _ h => h.ported hw
  · intro w s hp hw
    refine next_cases (P := fun w₁ => w₁.Aimed ↔ AimsOnce w s) s (fun ha => ?_) fun w₁ ha h => ?_
    · exact iff_of_true hw fun h => absurd h (by simp [ha])
    · rw [h.aimed_iff hw hp]
      exact ⟨fun h _ => h, fun h => h ha⟩
  · intro t ht l hl
    cases Option.some.inj ht
    cases hl
  · exact ⟨.start, rfl, nofun⟩

/-- The client is told of another host, and dials the first one again. -/
theorem retargeted_dials_first :
    ¬ Throughout (next (.quiet fun _ => 0) maxRecvBuf) World.Aimed
      (World.new (.replicate _ 0) 0)
      [.connect "first" 80 true (some [1]) ⟨some 3, true⟩, .disconnect,
        .connect "second" 81 true (some [2]) ⟨some 3, true⟩] := by
  intro h
  exact absurd (h _ (List.prefix_refl _)) (by decide)

/-! ### What a return of 0 means -/

/-- The address is one the resolver gave. -/
def Resolved (lookup : Option (List InAddr)) (addr : InAddr) : Prop := ∃ l ∈ lookup, addr ∈ l

instance (lookup : Option (List InAddr)) (addr : InAddr) : Decidable (Resolved lookup addr) :=
  inferInstanceAs (Decidable (∃ l ∈ lookup, _))

/-- `fd` is a connection to one of the addresses, on the port. -/
def World.Reached (w : World) (lookup : Option (List InAddr)) (port : UInt16) : Prop :=
  ∃ d ∈ lastDial w.trace, d.fd = w.fd ∧ d.ok = true ∧ d.port = port ∧ Resolved lookup d.addr

instance (w : World) (lookup : Option (List InAddr)) (port : UInt16) :
    Decidable (w.Reached lookup port) := inferInstanceAs (Decidable (∃ d ∈ _, _))

/-- The receive thread will dial one of the addresses, on the port. -/
def World.Expected (w : World) (lookup : Option (List InAddr)) (port : UInt16) : Prop :=
  w.isReconnect = true ∧ w.isRunning = true ∧ w.mRecvThread = true ∧ w.mPort = port ∧
    ∃ addr ∈ w.mHosts.head?, Resolved lookup addr

instance (w : World) (lookup : Option (List InAddr)) (port : UInt16) :
    Decidable (w.Expected lookup port) :=
  inferInstanceAs (Decidable (_ ∧ _ ∧ _ ∧ _ ∧ ∃ addr ∈ _, _))

/-- What a `connect` that returned `0` promises: the client is connected there, or will be. -/
def World.Meant (w : World) (lookup : Option (List InAddr)) (port : UInt16) : Prop :=
  (w.isConnected = true ∧ w.Reached lookup port) ∨
    (w.isConnected = false ∧ w.Expected lookup port)

instance (w : World) (lookup : Option (List InAddr)) (port : UInt16) :
    Decidable (w.Meant lookup port) := inferInstanceAs (Decidable (_ ∧ _ ∨ _ ∧ _))

/-- The address that `do_connect` will dial, `m_hosts` or else the answer in front, is one the
resolver has just given. -/
def World.Fresh (w : World) (lookup : Option (List InAddr)) : Prop :=
  ∃ addr ∈ (w.mHosts ++ lookup.getD []).head?, Resolved lookup addr

/-- What makes a `connect` from `w` mean something if it returns `0`.  On a client that is running
it is for nothing: either the connection there is happens to be the one asked for, or the
receive thread dials, if told to reconnect. -/
def World.Honours (w : World) (reconnect : Bool) (lookup : Option (List InAddr))
    (port : UInt16) : Prop :=
  if w.isRunning then
    if w.isConnected then w.Reached lookup port else reconnect = true ∧ w.Fresh lookup
  else w.Fresh lookup

instance (w : World) (lookup : Option (List InAddr)) : Decidable (w.Fresh lookup) :=
  inferInstanceAs (Decidable (∃ addr ∈ _, _))

instance (w : World) (reconnect : Bool) (lookup : Option (List InAddr)) (port : UInt16) :
    Decidable (w.Honours reconnect lookup port) :=
  inferInstanceAs (Decidable (if w.isRunning = true then
    if w.isConnected = true then w.Reached lookup port else reconnect = true ∧ w.Fresh lookup
    else w.Fresh lookup))

section
variable {f : List Byte → Int32} {fuel : Nat} {w w' : World}

theorem head?_pushed (hosts l : List InAddr) :
    (hosts ++ pushed l).head? = (hosts ++ l).head? := by
  cases hosts with
  | nil => cases l <;> simp [pushed, List.replicate_succ]
  | cons a hosts => rfl

theorem aim_meant_iff (hc : w.Coherent) (hr : w.isRunning = true) (pHost : String)
    (port : UInt16) (reconnect : Bool) (l : List InAddr) :
    (w.aim pHost port reconnect l).Meant (some l) port ↔ w.Honours reconnect (some l) port := by
  have hdial : lastDial (w.aim pHost port reconnect l).trace = lastDial w.trace :=
    lastDial_dialless (by simp [Event.Dialless])
  have hj : w.mRecvThread = true := hc.joinable.trans hr
  have hhead : (w.aim pHost port reconnect l).mHosts.head? = (w.mHosts ++ l).head? :=
    head?_pushed _ _
  simp only [World.Honours, if_pos hr]
  cases hconn : w.isConnected with
  | true =>
      have hconn' : (w.aim pHost port reconnect l).isConnected = true := hconn
      have hreach : (w.aim pHost port reconnect l).Reached (some l) port ↔
          w.Reached (some l) port := by
        rw [World.Reached, hdial]
        exact Iff.rfl
      simp [World.Meant, hconn', hreach]
  | false =>
      have hconn' : (w.aim pHost port reconnect l).isConnected = false := hconn
      have hexp : (w.aim pHost port reconnect l).Expected (some l) port ↔
          reconnect = true ∧ w.Fresh (some l) := by
        rw [World.Expected, hhead]
        constructor
        · rintro ⟨hrec, -, -, -, hfresh⟩
          exact ⟨hrec, hfresh⟩
        · rintro ⟨hrec, hfresh⟩
          exact ⟨hrec, hr, hj, rfl, hfresh⟩
      simp [World.Meant, hconn', hexp]

/-- A dial that is accepted means something when the address in front was resolved. -/
theorem Dialed.meant_iff {k : DialAnswer} {w₁ : World} (h : Dialed w k (.ok 0 w₁))
    (lookup : Option (List InAddr)) :
    ({ w₁ with mRecvThread := true }.record [.spawn false]).Meant lookup w.mPort ↔
      ∃ addr ∈ w.mHosts.head?, Resolved lookup addr := by
  generalize hret : (0 : Int) = ret at h
  generalize hr : EStateM.Result.ok ret w₁ = r at h
  cases h with
  | noSocket => cases hr; cases hret
  | noHost => cases hr
  | refused => cases hr; cases hret
  | accepted n addr hosts hs hm =>
      cases hr
      have hd : lastDial (w.trace ++ (w.closing ++ ([Event.socket n, .dial n addr w.mPort true] ++
          [.onConnected, .spawn false]))) = some ⟨n, addr, w.mPort, true⟩ := by
        rw [← List.append_assoc w.closing]
        exact lastDial_dialed _ n addr w.mPort true (by simp [Event.Dialless])
      simp only [List.cons_append, List.nil_append] at hd
      simp [World.Meant, World.Reached, World.record, hd, hm]

/-- **What a `connect` that returns 0 means**, in every state a run reaches. -/
theorem connect_meant_iff (f : List Byte → Int32) (fuel : Nat) (buf : Buffer Byte maxRecvBuf)
    (mPort : UInt16) (steps : List Step)
    (hw : run (next (.quiet f) fuel) (World.new buf mPort) steps = w)
    (hctl : w.control ≠ .ended) (pHost : String) (port : UInt16) (reconnect : Bool)
    (lookup : Option (List InAddr)) (k : DialAnswer)
    (h : (connect (.quiet f) pHost port reconnect lookup k).run w = .ok 0 w') :
    w'.Meant lookup port ↔ w.Honours reconnect lookup port := by
  have hlive : w.Live :=
    hw ▸ run_invariant_of_forall (fun w s => next_live s) (live_new buf mPort) _
  have hc := hlive hctl
  cases lookup with
  | none =>
      rw [connect_failed] at h
      simp at h
  | some l =>
      cases hr : w.isRunning with
      | true =>
          rw [connect_running _ _ _ _ _ hr] at h
          obtain rfl : w.aim pHost port reconnect l = w' := by simpa using h
          exact aim_meant_iff hc hr ..
      -- `do_connect` dials the first host, which an earlier call may have left there
      | false =>
          rw [connect_starting _ _ _ _ _ hr] at h
          have hj : w.mRecvThread = false := hc.joinable.trans hr
          have hd := doConnect_dialed (f := f)
            (w := { w.aim pHost port reconnect l with isRunning := true }) k
          cases hrun : (doConnect (.quiet f) k).run
              { w.aim pHost port reconnect l with isRunning := true } with
          | error e w₁ => rw [hrun] at h; cases h
          | ok ret w₁ =>
              rw [hrun] at hd h
              have hj₁ : w₁.mRecvThread = false := hd.mRecvThread.trans hj
              simp only [hj₁] at h
              cases h
              have hfresh : w.Fresh (some l) ↔
                  ∃ addr ∈ (w.mHosts ++ pushed l).head?, Resolved (some l) addr := by
                rw [head?_pushed]
                exact Iff.rfl
              simp only [World.Honours, hr]
              exact (hd.meant_iff (some l)).trans hfresh.symm

end

/-- A client whose first dial was refused. -/
def refusedOnce (reconnect : Bool) : World :=
  run (next (.quiet fun _ => 0) maxRecvBuf) (World.new (.replicate _ 0) 0)
    [.connect "host" 80 reconnect (some [1]) ⟨some 3, false⟩]

/-- `connect_meant_iff` at a client whose first dial was refused, asked again to reconnect. -/
theorem connect_meant_iff_again :
    ((refusedOnce true).aim "host" 80 true [1]).Meant (some [1]) 80 :=
  (connect_meant_iff (fun _ => 0) maxRecvBuf (.replicate _ 0) 0
    [.connect "host" 80 true (some [1]) ⟨some 3, false⟩] rfl (by decide) "host" 80 true (some [1])
    ⟨none, false⟩ (connect_running "host" 80 true [1] _ (by decide))).mpr (by decide)

/-- The second attempt after one that was refused succeeds, without a dial and without a thread
that would. -/
theorem second_connect_idle : ∃ w', (connect (.quiet fun _ => 0) "host" 80 false (some [1])
      ⟨some 3, false⟩).run (refusedOnce false) = .ok 0 w' ∧ ¬ w'.Meant (some [1]) 80 :=
  ⟨_, connect_running "host" 80 false [1] _ (by decide), by decide⟩

end PBTransfor.Tcp
