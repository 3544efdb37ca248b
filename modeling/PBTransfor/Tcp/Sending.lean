import PBTransfor.Tcp.Coherent
import PBTransfor.Tcp.Sessions

/-!
# Tcp — what each connection is sent

`send` passes its bytes to `::send` once.  What the kernel does not take is not sent again, and a
result that is not positive as an `int` counts as a failure, which the result of an empty message
and of a very long one are too.

`run_whole_iff`: in every run, every connection is sent whole messages on its own descriptor, with
at most one cut short at its end, and no `send` ends a connection that the kernel has not failed,
exactly when every message sent on a connection is non-empty, is taken for less than `2 ^ 31`
bytes, and follows no message that was cut short.
-/

namespace PBTransfor.Tcp

open Library Library.Program

/-- A message passed to `::send` on `fd`, and how much of it was accepted. -/
structure Sent where
  fd : Int
  data : List Byte
  accepted : Option Nat
  deriving DecidableEq, Repr

/-- The bytes of the message that were accepted. -/
def Sent.taken (x : Sent) : List Byte := x.data.take (x.accepted.getD 0)

/-- The message was accepted whole. -/
def Sent.Complete (x : Sent) : Prop := x.taken = x.data

instance (x : Sent) : Decidable x.Complete := inferInstanceAs (Decidable (_ = _))

/-- The messages of a session. -/
def messages (session : List Event) : List Sent :=
  session.filterMap fun
    | .send fd pData accepted => some ⟨fd, pData, accepted⟩
    | _ => none

/-- The descriptors of the connections a trace has made, the latest first: `ls` and those made in
the event. -/
def addLine (ls : List Int) : Event → List Int
  | .dial fd _ _ true => fd :: ls
  | _ => ls

/-- The descriptors of the connections made, in the order of `sessions`. -/
def lines (trace : List Event) : List Int := trace.foldl addLine []

/-- Complete messages, then at most one that is not, after which nothing is sent. -/
def Untorn (xs : List Sent) : Prop :=
  ∃ full rest, xs = full ++ rest ∧ (∀ x ∈ full, x.Complete) ∧ ∀ x ∈ rest.tail, x.taken = []

/-- Every connection was sent complete messages, but for the end of the last one. -/
def World.Whole (w : World) : Prop := ∀ session ∈ sessions w.trace, Untorn (messages session)

/-- The messages of the session were sent on `fd`. -/
def SentOver (fd : Int) (session : List Event) : Prop := ∀ x ∈ messages session, x.fd = fd

/-- Every message was sent on the descriptor of its session's connection. -/
def World.Tied (w : World) : Prop := List.Forall₂ SentOver (lines w.trace) (sessions w.trace)

/-- The session of the connection made last. -/
def World.session (w : World) : List Event := (sessions w.trace).headD []

/-- A `send` on a connection that is up reports no error, and leaves the connection up, unless the
kernel reports an error. -/
def Spares (f : List Byte → Int32) (fuel : Nat) (w : World) : Step → Prop
  | .send pData (some n) =>
      w.control.admits (.send pData (some n)) = true → w.isConnected = true →
        ∃ ret w', (sendString (.quiet f) fuel pData (some n)).run w = .ok ret w' ∧ ret ≠ -1 ∧
          w'.isConnected = true ∧ w'.fd = w.fd
  | _ => True

/-- `len` is a `uint32_t`, and the kernel accepts some of a message that is not empty, or
fails. -/
def Step.Posix : Step → Prop
  | .send pData accepted =>
      pData.length < 2 ^ 32 ∧ ∀ n ∈ accepted, n ≤ pData.length ∧ (n = 0 → pData = [])
  | _ => True

/-- A message accepted on a connection that is up is not empty, is accepted for less than `2 ^ 31`
bytes, and follows no message that was not accepted whole. -/
def Careful (w : World) : Step → Prop
  | .send pData (some n) =>
      w.control.admits (.send pData (some n)) = true → w.isConnected = true →
        pData ≠ [] ∧ n < 2 ^ 31 ∧ ∀ x ∈ messages w.session, x.Complete
  | _ => True

instance (w : World) : DecidablePred (Careful w)
  | .send _ (some _) => inferInstanceAs (Decidable (_ → _ → _))
  | .send _ none | .connect .. | .disconnect | .iterate _ => isTrue trivial

/-- The step breaks neither a message nor a connection. -/
def Unbroken (f : List Byte → Int32) (fuel : Nat) (w : World) (s : Step) : Prop :=
  Spares f fuel w s ∧ (next (.quiet f) fuel w s).Whole ∧ (next (.quiet f) fuel w s).Tied

/-! ### Messages -/

theorem Untorn.nil : Untorn [] := ⟨[], [], rfl, by simp, by simp⟩

/-- The bytes a connection accepted. -/
theorem Untorn.bytes {xs : List Sent} (h : Untorn xs) : ∃ full rest, xs = full ++ rest ∧
    xs.flatMap Sent.taken = full.flatMap Sent.data ++ (rest.head?.map Sent.taken).getD [] := by
  obtain ⟨full, rest, rfl, hfull, hrest⟩ := h
  refine ⟨full, rest, rfl, ?_⟩
  have hf : full.flatMap Sent.taken = full.flatMap Sent.data := List.flatMap_congr hfull
  have hr : rest.flatMap Sent.taken = (rest.head?.map Sent.taken).getD [] := by
    cases rest with
    | nil => rfl
    | cons x rest =>
        have := List.flatMap_eq_nil_iff.mpr hrest
        simpa using this
  rw [List.flatMap_append, hf, hr]

/-- A message after others: they were all complete, or it is not sent. -/
theorem untorn_append {xs : List Sent} (h : Untorn xs) (x : Sent) :
    Untorn (xs ++ [x]) ↔ (∀ y ∈ xs, y.Complete) ∨ x.taken = [] := by
  constructor
  · rintro ⟨full, rest, heq, hfull, hrest⟩
    rcases List.eq_nil_or_concat rest with rfl | ⟨rest, y, rfl⟩
    · -- nothing incomplete, so `x` too is complete
      rw [List.append_nil] at heq
      exact .inl fun y hy => hfull y (heq ▸ List.mem_append_left _ hy)
    · rw [List.concat_eq_append, ← List.append_assoc] at heq
      obtain ⟨rfl, hxy⟩ := List.append_inj' heq rfl
      obtain rfl := List.singleton_inj.mp hxy
      cases rest with
      | nil => exact .inl (by simpa using hfull)
      | cons z rest => exact .inr (hrest x (by simp))
  · rintro (hxs | hx)
    · exact ⟨xs, [x], rfl, hxs, by simp⟩
    · obtain ⟨full, rest, rfl, hfull, hrest⟩ := h
      refine ⟨full, rest ++ [x], List.append_assoc .., hfull, fun y hy => ?_⟩
      cases rest with
      | nil => cases hy
      | cons z rest =>
          rcases List.mem_append.mp hy with hy | hy
          · exact hrest y hy
          · rwa [List.mem_singleton.mp hy]

theorem bmod_pos_iff {z : Int} {m : Nat} (h₀ : 0 ≤ z) (h : z < m) :
    0 < z.bmod m ↔ 0 < z ∧ z < (m + 1) / 2 := by
  rw [Int.bmod_def, Int.emod_eq_of_lt h₀ h]
  split <;> omega

/-- The `int` a `::send` leaves in `ret` is positive when it accepted less than `2 ^ 31` bytes. -/
theorem sendRet_pos_iff {n : Nat} (h : n < 2 ^ 32) :
    0 < sendRet (some n) ↔ 0 < n ∧ n < 2 ^ 31 := by
  have hz : (n : Int) < (2 ^ 32 : Nat) := Int.ofNat_lt.mpr h
  refine (bmod_pos_iff (Int.natCast_nonneg n) hz).trans ?_
  omega

/-! ### Traces -/

/-- An event that is not a message sent. -/
def Event.Sendless : Event → Prop
  | .send .. => False
  | _ => True

section
variable {f : List Byte → Int32} {fuel : Nat} {w w' : World} {s : Step} {es : List Event}

theorem messages_append (t t' : List Event) : messages (t ++ t') = messages t ++ messages t' :=
  List.filterMap_append

theorem messages_sendless (h : ∀ e ∈ es, e.Sendless) : messages es = [] := by
  simp only [messages, List.filterMap_eq_nil_iff]
  intro e he
  have := h e he
  cases e <;> first | rfl | exact this.elim

/-- Events that send nothing leave what each connection was sent. -/
theorem foldl_sendless (h : ∀ e ∈ es, e.Sendless) : ∀ ss : List (List Event),
    (∀ session ∈ ss, Untorn (messages session)) →
    ∀ session ∈ es.foldl addEvent ss, Untorn (messages session) := by
  induction es with
  | nil => exact fun ss hss => hss
  | cons e es ih =>
      intro ss hss
      refine ih (fun e' he' => h e' (by simp [he'])) _ ?_
      by_cases hconn : e = .onConnected
      · subst hconn
        intro session hsession
        rcases List.mem_cons.mp hsession with rfl | hsession
        · exact .nil
        · exact hss session hsession
      · have hno : ∀ e' ∈ [e], e' ≠ .onConnected := by simpa using hconn
        have hsent : messages [e] = [] := messages_sendless (by simpa using h e (by simp))
        change ∀ session ∈ [e].foldl addEvent ss, Untorn (messages session)
        cases ss with
        | nil => simp [foldl_addEvent_nil hno]
        | cons session ss =>
            rw [foldl_addEvent hno]
            intro session' hsession'
            rcases List.mem_cons.mp hsession' with rfl | hsession'
            · rw [messages_append, hsent, List.append_nil]
              exact hss session (by simp)
            · exact hss session' (by simp [hsession'])

theorem World.Whole.append (hw : w.Whole) (ht : w'.trace = w.trace ++ es)
    (hes : ∀ e ∈ es, e.Sendless) : w'.Whole := by
  rw [World.Whole, ht, sessions_append]
  exact foldl_sendless hes _ hw

/-- A message sent goes to the connection made last. -/
theorem whole_send_iff (hw : w.Whole) {fd : Int} {pData : List Byte} {accepted : Option Nat}
    (ht : w'.trace = w.trace ++ .send fd pData accepted :: es)
    (hes : ∀ e ∈ es, e.Sendless ∧ e ≠ .onConnected) : w'.Whole ↔
      (∀ x ∈ messages w.session, x.Complete) ∨ (Sent.mk fd pData accepted).taken = [] := by
  have hno : ∀ e ∈ .send fd pData accepted :: es, e ≠ .onConnected := by
    intro e he
    rcases List.mem_cons.mp he with rfl | he
    · exact nofun
    · exact (hes e he).2
  have hsent : messages (.send fd pData accepted :: es) = [⟨fd, pData, accepted⟩] :=
    congrArg (_ :: ·) (messages_sendless fun e he => (hes e he).1)
  rw [World.Whole, ht, sessions_append, World.session]
  cases hss : sessions w.trace with
  | nil => simp [foldl_addEvent_nil hno, messages]
  | cons session ss =>
      have hold : ∀ session' ∈ session :: ss, Untorn (messages session') := hss ▸ hw
      rw [foldl_addEvent hno, List.forall_mem_cons, messages_append, hsent, List.headD_cons,
        untorn_append (hold session (by simp))]
      exact and_iff_left fun session' h => hold session' (by simp [h])

/-! ### Steps -/

theorem Step.Records.sendless {e : Event} (h : s.Records e)
    (hs : ∀ pData accepted, s ≠ .send pData accepted) : e.Sendless := by
  cases s with
  | send => exact absurd rfl (hs _ _)
  | connect => cases e <;> trivial
  | disconnect => cases e <;> trivial
  | iterate => cases e <;> trivial

/-- What a call of `send` that fails leaves behind the message in the trace. -/
theorem HungUp.sendless {es₀ : List Event} {r : EStateM.Result Halt World Unit}
    (hh : HungUp (w.record es₀) r) : ∃ es, (settle s r).trace = w.trace ++ (es₀ ++ es) ∧
      ∀ e ∈ es, e.Sendless ∧ e ≠ .onConnected := by
  obtain ⟨es, ht, hes⟩ := hh.recorded_step (s := .disconnect) id
  refine ⟨es, ?_, fun e he => ?_⟩
  · rw [settle_trace, ← settle_trace .disconnect, ht]
    exact List.append_assoc ..
  · have := hes e he
    cases e <;> first | trivial | exact ⟨trivial, nofun⟩

/-- A call of `send` that does not find `ret` positive reports an error. -/
theorem eq_of_send_failed {pData : List Byte} {accepted : Option Nat} {ret : Int}
    (hc : w.isConnected = true) (hret : ¬ 0 < sendRet accepted)
    (h : (sendString (.quiet f) fuel pData accepted).run w = .ok ret w') : ret = -1 := by
  rw [send_failed _ _ hc hret] at h
  cases hd : (disconnect (.quiet f) fuel .owner none).run
      (w.record [.send w.fd (passed pData) accepted, .onDisconnect]) with
  | ok _ w₁ => rw [hd] at h; cases h; rfl
  | error e w₁ => rw [hd] at h; cases h

theorem Move.whole_iff_of_accepted {pData : List Byte} {n : Nat}
    (h : Move f fuel w (.send pData (some n)) w')
    (ha : w.control.admits (.send pData (some n)) = true) (hw : w.Whole)
    (hs : (Step.send pData (some n)).Posix) (hc : w.isConnected = true) :
    Spares f fuel w (.send pData (some n)) ∧ w'.Whole ↔ Careful w (.send pData (some n)) := by
  obtain ⟨hlen, hn⟩ := hs
  obtain ⟨hle, hzero⟩ := hn n rfl
  have hpos := sendRet_pos_iff (n := n) (by omega)
  cases h with
  | sendIdle _ _ hc' => cases hc.symm.trans hc'
  | sent _ _ _ hret =>
      obtain ⟨h₀, h₃₁⟩ := hpos.mp hret
      have hne : pData ≠ [] := by
        rintro rfl
        exact absurd hle (by simpa using h₀.ne')
      have htaken : (Sent.mk w.fd pData (some n)).taken ≠ [] := by
        simpa [Sent.taken, hne] using h₀.ne'
      have hspares : Spares f fuel w (.send pData (some n)) := fun _ _ =>
        ⟨_, _, send_accepted _ _ hc hret, by omega, hc, rfl⟩
      have hwhole : (w.record [.send w.fd (passed pData) (some n)]).Whole ↔
          (∀ x ∈ messages w.session, x.Complete) ∨ (Sent.mk w.fd pData (some n)).taken = [] := by
        rw [passed_eq hlen]
        exact whole_send_iff hw rfl (by simp)
      rw [and_iff_right hspares, hwhole, or_iff_left htaken]
      exact ⟨fun h _ _ => ⟨hne, h₃₁, h⟩, fun h => (h ha hc).2.2⟩
  | sendFailed _ _ _ hret hh =>
      -- the kernel has taken the message, but for an empty one or a count that is negative as an
      -- `int`, which are neither spared nor careful
      refine iff_of_false (fun hsp => ?_) fun hcare => ?_
      · obtain ⟨ret, w₁, hrun, hne, -⟩ := hsp.1 ha hc
        exact hne (eq_of_send_failed hc hret hrun)
      · obtain ⟨hne, h₃₁, -⟩ := hcare ha hc
        exact hret (hpos.mpr ⟨Nat.pos_of_ne_zero fun h₀ => hne (hzero h₀), h₃₁⟩)

/-- Nothing is accepted in any other step. -/
theorem Move.whole (h : Move f fuel w s w') (hw : w.Whole)
    (hs : ∀ pData n, s = .send pData (some n) → w.isConnected = false) : w'.Whole := by
  cases s with
  | send pData accepted =>
      cases h with
      | sendIdle => exact hw
      | sent _ _ hc hret =>
          cases accepted with
          | none => exact absurd hret (by decide)
          | some n => exact absurd (hs pData n rfl) (by simp [hc])
      | sendFailed _ _ hc hret hh =>
          cases accepted with
          | some n => exact absurd (hs pData n rfl) (by simp [hc])
          | none =>
              obtain ⟨es, ht, hes⟩ := hh.sendless (s := .send pData none)
              refine (whole_send_iff hw (ht.trans rfl) fun e he => ?_).mpr (.inr rfl)
              rcases List.mem_cons.mp he with rfl | he
              · exact ⟨trivial, nofun⟩
              · exact hes e he
  | connect | disconnect | iterate =>
      obtain ⟨es, ht, hes⟩ := h.recorded
      exact hw.append ht fun e he => (hes e he).sendless nofun

/-- **When one step breaks neither a message nor a connection.** -/
theorem Move.whole_iff (h : Move f fuel w s w') (ha : w.control.admits s = true) (hw : w.Whole)
    (hs : s.Posix) : Spares f fuel w s ∧ w'.Whole ↔ Careful w s := by
  cases s with
  | send pData accepted =>
      cases accepted with
      | none => exact iff_of_true ⟨trivial, h.whole hw nofun⟩ trivial
      | some n =>
          cases hc : w.isConnected with
          | true => exact h.whole_iff_of_accepted ha hw hs hc
          | false =>
              have off : ∀ {P : Prop}, w.isConnected = true → P := fun h =>
                (Bool.false_ne_true (hc.symm.trans h)).elim
              exact iff_of_true ⟨fun _ => off, h.whole hw fun _ _ _ => hc⟩ fun _ => off
  | connect | disconnect | iterate => exact iff_of_true ⟨trivial, h.whole hw nofun⟩ trivial

/-! ### Descriptors -/

/-- An event that makes no connection and sends nothing. -/
def Event.Idle : Event → Prop
  | .onConnected | .send .. | .dial _ _ _ true => False
  | _ => True

theorem Event.Idle.ne_onConnected {e : Event} (h : e.Idle) : e ≠ .onConnected := by
  rintro rfl; exact h

theorem Event.Idle.sendless {e : Event} (h : e.Idle) : e.Sendless := by
  cases e <;> trivial

/-- No connection is made in the event. -/
def Event.Lineless (e : Event) : Prop := e ≠ .onConnected ∧ ∀ ls, addLine ls e = ls

theorem Event.Idle.lineless {e : Event} (h : e.Idle) : e.Lineless := by
  refine ⟨h.ne_onConnected, fun ls => ?_⟩
  cases e with
  | dial fd addr port ok =>
      cases ok with
      | false => rfl
      | true => exact h.elim
  | _ => rfl

theorem lines_append (t t' : List Event) : lines (t ++ t') = t'.foldl addLine (lines t) :=
  List.foldl_append

theorem foldl_addLine (h : ∀ e ∈ es, e.Lineless) (ls : List Int) : es.foldl addLine ls = ls := by
  induction es with
  | nil => rfl
  | cons e es ih =>
      rw [List.foldl_cons, (h e List.mem_cons_self).2]
      exact ih fun e' he' => h e' (List.mem_cons_of_mem e he')

/-- What is sent while no connection is made goes to the session of the latest. -/
theorem sentOver_foldl {ls : List Int} {ss : List (List Event)} (h : List.Forall₂ SentOver ls ss)
    (hno : ∀ e ∈ es, e ≠ .onConnected) (hsent : ∀ x ∈ messages es, ls.head? = some x.fd) :
    List.Forall₂ SentOver ls (es.foldl addEvent ss) := by
  cases h with
  | nil => rw [foldl_addEvent_nil hno]; exact .nil
  | cons hsession hss =>
      rw [foldl_addEvent hno]
      refine .cons (fun x hx => ?_) hss
      rw [messages_append] at hx
      rcases List.mem_append.mp hx with hx | hx
      · exact hsession x hx
      · exact (Option.some.inj (hsent x hx)).symm

theorem World.Tied.append (hw : w.Tied) (ht : w'.trace = w.trace ++ es)
    (hes : ∀ e ∈ es, e.Lineless)
    (hsent : ∀ x ∈ messages es, (lines w.trace).head? = some x.fd) : w'.Tied := by
  have hlines : lines w'.trace = lines w.trace := by
    rw [ht, lines_append]
    exact foldl_addLine hes _
  rw [World.Tied, hlines, ht, sessions_append]
  exact sentOver_foldl hw (fun e he => (hes e he).1) hsent

/-- A connection made. -/
theorem World.Tied.dial (hw : w.Tied) {fd : Int} {addr : InAddr} {port : UInt16}
    (ht : w'.trace = w.trace ++ [.dial fd addr port true, .onConnected]) : w'.Tied := by
  have hold : List.Forall₂ SentOver (lines w.trace)
      ([Event.dial fd addr port true].foldl addEvent (sessions w.trace)) :=
    sentOver_foldl hw (by simp) (by simp [messages])
  rw [World.Tied, ht, sessions_append, lines_append]
  exact .cons (fun x hx => absurd hx List.not_mem_nil) hold

/-- Everything was sent on the descriptor of its connection, and the client holds the one of the
latest while it is connected. -/
structure World.OnLine (w : World) : Prop where
  tied : w.Tied
  joined : w.isConnected = true → (lines w.trace).head? = some w.fd

theorem World.OnLine.idle (hw : w.OnLine) (ht : w'.trace = w.trace ++ es)
    (hes : ∀ e ∈ es, e.Idle)
    (hc : w'.isConnected = true → w.isConnected = true ∧ w'.fd = w.fd) : w'.OnLine := by
  refine ⟨hw.tied.append ht (fun e he => (hes e he).lineless) ?_, fun h => ?_⟩
  · rw [messages_sendless fun e he => (hes e he).sendless]
    simp
  · rw [ht, lines_append, foldl_addLine fun e he => (hes e he).lineless, (hc h).2]
    exact hw.joined (hc h).1

/-- A dial from a client that is not connected. -/
theorem Dialed.onLine {k : DialAnswer} {r : EStateM.Result Halt World Int} (h : Dialed w k r)
    (hc : w.isConnected = false) (hw : w.OnLine) : (leaves r).OnLine := by
  have idle : ∀ es : List Event, (∀ e ∈ es, e.Idle) → ∀ e ∈ w.closing ++ es, e.Idle :=
    fun _ hes => forall_mem_closing_append trivial hes
  have off : ∀ {P : Prop}, w.isConnected = true → P := fun h =>
    (Bool.false_ne_true (hc.symm.trans h)).elim
  cases h with
  | noSocket => exact hw.idle rfl (idle _ (by simp [Event.Idle])) off
  | noHost => exact hw.idle rfl (idle _ (by simp [Event.Idle])) off
  | refused => exact hw.idle rfl (idle _ (by simp [Event.Idle])) off
  | accepted n addr =>
      have hopen : (w.record (w.closing ++ [.socket n])).OnLine :=
        hw.idle rfl (idle _ (by simp [Event.Idle])) off
      have ht : w.trace ++ (w.closing ++ [Event.socket n, .dial n addr w.mPort true,
          .onConnected]) = (w.record (w.closing ++ [.socket n])).trace ++
            [.dial n addr w.mPort true, .onConnected] := by simp
      refine ⟨hopen.tied.dial ht, fun _ => ?_⟩
      rw [leaves_ok, World.record_trace, ht, lines_append]
      rfl

/-- The owner's `disconnect` leaves no connection. -/
theorem HungUp.onLine {r : EStateM.Result Halt World Unit} (hh : HungUp w r) (s : Step)
    (hcoh : w.Coherent) (hw : w.OnLine) : (settle s r).OnLine := by
  obtain ⟨es, ht, hes⟩ := hh.trace
  have hidle : ∀ e ∈ w.hangingUp .owner none ++ es, e.Idle :=
    forall_mem_hangingUp_append hes trivial trivial trivial
  refine hw.idle ((settle_trace s r).trans ht) hidle fun h => ?_
  rw [settle_toTcpClient, (hh.unplugged hcoh).2] at h
  cases h

theorem Received.onLine {k : RecvAnswer} {r : EStateM.Result Halt World Int}
    (h : Received w k r) (hw : w.OnLine) : (leaves r).OnLine := by
  obtain ⟨es, ht, hes⟩ := h.recorded (P := Event.Idle) (fun _ _ => trivial) trivial
    fun _ => trivial
  refine hw.idle ht hes fun hc => ⟨?_, h.fd⟩
  cases h with
  | lost => cases hc
  | data => exact hc
  | halted => exact hc
  | overrun => exact hc

/-- **Every step sends on the descriptor of the connection that is up.** -/
theorem Move.onLine (h : Move f fuel w s w') (hcoh : w.Coherent) (hw : w.OnLine) :
    w'.OnLine := by
  have called : ∀ {pHost port reconnect l k} {r : EStateM.Result Halt World Int},
      w.isRunning = false →
      Dialed { w.aim pHost port reconnect l with isRunning := true } k r → (leaves r).OnLine := by
    intro pHost port reconnect l k r hr hd
    have hidle : ∀ e ∈ [Event.connect pHost port reconnect, .gethostbyname pHost (some l)],
        e.Idle := by simp [Event.Idle]
    exact hd.onLine (hcoh.unplugged hr).2 (hw.idle rfl hidle fun h => ⟨h, rfl⟩)
  have spawned : ∀ b, ∀ e ∈ [Event.spawn b], e.Idle := by simp [Event.Idle]
  have ended : ∀ {w₁ : World}, w₁.OnLine → ({ w₁ with control := .ended } : World).OnLine :=
    fun h => ⟨h.tied, h.joined⟩
  -- what is sent goes to the line opened last, also when the connection is hung up after it
  have send : ∀ {pData accepted es}, w.isConnected = true → (∀ e ∈ es, e.Idle) →
      (w.record (.send w.fd pData accepted :: es)).OnLine := by
    intro pData accepted es hc hes
    have hline : ∀ e ∈ .send w.fd pData accepted :: es, e.Lineless :=
      List.forall_mem_cons.mpr ⟨⟨nofun, fun _ => rfl⟩, fun e he => (hes e he).lineless⟩
    have hmsg : messages (.send w.fd pData accepted :: es) = [⟨w.fd, pData, accepted⟩] :=
      congrArg (_ :: ·) (messages_sendless fun e he => (hes e he).sendless)
    refine ⟨hw.tied.append rfl hline ?_, fun _ => ?_⟩
    · simpa [hmsg] using hw.joined hc
    · rw [World.record_trace, lines_append, foldl_addLine hline]
      exact hw.joined hc
  cases h with
  | lookupFailed => exact hw.idle rfl (by simp [Event.Idle]) fun h => ⟨h, rfl⟩
  | aimed => exact hw.idle rfl (by simp [Event.Idle]) fun h => ⟨h, rfl⟩
  | started _ _ _ _ _ hr _ hd => exact (called hr hd).idle rfl (spawned _) fun h => ⟨h, rfl⟩
  | startHalted _ _ _ _ _ hr hd => exact ended (called hr hd)
  | startTerminated _ _ _ _ _ hr _ hd =>
      exact (called hr hd).idle rfl (spawned _) fun h => ⟨h, rfl⟩
  | sendIdle => exact hw
  | sent _ _ hc => exact send hc (by simp)
  | sendFailed _ _ hc _ hh =>
      exact hh.onLine _ ⟨hcoh.joinable, hcoh.unplugged, hcoh.connected⟩
        (send hc (by simp [Event.Idle]))
  | hungUp hh => exact hh.onLine _ hcoh hw
  | idle => exact hw
  | received k exceptional hwatch hsel hrun =>
      have hrec := (received_of_run hrun).onLine hw
      cases exceptional with
      | false => exact hrec
      | true => exact hrec.idle rfl (by simp [Event.Idle]) fun h => ⟨h, rfl⟩
  | receiveHalted k exceptional hwatch hsel hrun => exact ended ((received_of_run hrun).onLine hw)
  | excepted => exact hw.idle rfl (by simp [Event.Idle]) fun h => ⟨h, rfl⟩
  | redialed k hr hsel hd => exact hd.onLine hr.isConnected hw
  | redialHalted k hr hsel hd => exact ended (hd.onLine hr.isConnected hw)

theorem next_onLine (hlive : w.Live) (hw : w.OnLine) : (next (.quiet f) fuel w s).OnLine :=
  next_cases s (fun _ => hw) fun _ ha h => h.onLine (hlive (ne_ended_of_admits ha)) hw

end

end PBTransfor.Tcp
