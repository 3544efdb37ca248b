import PBTransfor.Tcp.Sessions

/-!
# Tcp — what one connection leaves to the next

`recv_buf_pos` outlives its connection.  `leftover` is what a list of sessions leaves pending,
and along every run each session delivers the greedy parse of what the earlier ones left
followed by its own bytes (`Carried`).  So connections do not contaminate each other as long as
each is made on an empty buffer (`run_isolated`); a connection cut inside a packet puts its
bytes in front of the next one's (`sessions_contaminated`).
-/

namespace PBTransfor.Tcp

open Library Library.Program

/-- What the sessions `ss`, latest first, leave pending. -/
def leftover (f : List Byte → Int32) : List (List Event) → List Byte
  | [] => []
  | s :: ss => (greedy (frameLen f) (leftover f ss ++ received s)).2

/-- Each session delivers the parse of what the earlier ones left followed by its own bytes. -/
def Parsed (f : List Byte → Int32) : List (List Event) → Prop
  | [] => True
  | s :: ss =>
      delivered s = (greedy (frameLen f) (leftover f ss ++ received s)).1 ∧ Parsed f ss

/-- Each session begins with nothing left over. -/
def Unmixed (f : List Byte → Int32) : List (List Event) → Prop
  | [] => True
  | _ :: ss => leftover f ss = [] ∧ Unmixed f ss

/-- The invariant of the receive buffer across connections. -/
structure Carried (f : List Byte → Int32) (w : World) : Prop where
  pos_le : w.recvBufPos ≤ maxRecvBuf
  pending : w.pending = leftover f (sessions w.trace)
  parsed : Parsed f (sessions w.trace)
  connected : w.isConnected = true → sessions w.trace ≠ []

section
variable {f : List Byte → Int32} {fuel : Nat} {w w' : World}

/-- What is left over shows no packet. -/
theorem leftover_rest (hf : Framing.Contract (frameLen f)) :
    ∀ ss, ¬ 0 < frameLen f (leftover f ss)
  | [] => hf.not_pos_nil
  | _ :: _ => hf.greedy_rest _

/-- Silent events change neither what is left over nor what has been parsed. -/
theorem leftover_silent {es : List Event} (hes : ∀ e ∈ es, e.Silent) (ss : List (List Event)) :
    leftover f (es.foldl addEvent ss) = leftover f ss := by
  cases ss with
  | nil => rw [foldl_addEvent_nil fun e he => (hes e he).ne_onConnected]
  | cons s ss =>
      rw [foldl_addEvent fun e he => (hes e he).ne_onConnected]
      simp only [leftover, received_append, received_silent hes, List.append_nil]

theorem Parsed.silent {es : List Event} (hes : ∀ e ∈ es, e.Silent) {ss : List (List Event)}
    (h : Parsed f ss) : Parsed f (es.foldl addEvent ss) := by
  cases ss with
  | nil => rwa [foldl_addEvent_nil fun e he => (hes e he).ne_onConnected]
  | cons s ss =>
      rw [foldl_addEvent fun e he => (hes e he).ne_onConnected]
      simpa only [Parsed, received_append, received_silent hes, delivered_append,
        delivered_silent hes, List.append_nil] using h

theorem Unmixed.extend {es : List Event} (hes : ∀ e ∈ es, e ≠ .onConnected)
    {ss : List (List Event)} (h : Unmixed f ss) : Unmixed f (es.foldl addEvent ss) := by
  cases ss with
  | nil => rwa [foldl_addEvent_nil hes]
  | cons s ss =>
      rw [foldl_addEvent hes]
      exact h

/-- A session that takes in `c` and delivers what that completes. -/
theorem Parsed.receive (hf : Framing.Contract (frameLen f)) {s : List Event}
    {ss : List (List Event)} (h : Parsed f (s :: ss)) {c : List Byte} {es : List Event}
    (hr : received es = c)
    (hd : delivered es = (greedy (frameLen f) (leftover f (s :: ss) ++ c)).1) :
    Parsed f ((s ++ es) :: ss) ∧
      leftover f ((s ++ es) :: ss) = (greedy (frameLen f) (leftover f (s :: ss) ++ c)).2 := by
  have happ := hf.greedy_append (leftover f ss ++ received s) c
  simp only [leftover, Parsed, received_append, delivered_append, hr, hd, h.1,
    ← List.append_assoc, happ]
  exact ⟨⟨trivial, h.2⟩, trivial⟩

/-- Sessions that begin with nothing left over deliver their own bytes. -/
theorem Parsed.own {ss : List (List Event)} (h : Parsed f ss) (hu : Unmixed f ss) :
    ∀ s ∈ ss, delivered s = (greedy (frameLen f) (received s)).1 := by
  induction ss with
  | nil => simp
  | cons s ss ih =>
      intro t ht
      rcases List.mem_cons.mp ht with rfl | ht
      · rw [h.1, hu.1, List.nil_append]
      · exact ih h.2 hu.2 t ht

/-! ### Along a run -/

theorem Untouched.pending {es : List Event} (h : Untouched w w' es) : w'.pending = w.pending := by
  rw [World.pending, h.recvBuf, h.recvBufPos, World.pending]

theorem Carried.untouched {es : List Event} (hw : Carried f w) (h : Untouched w w' es)
    (hes : ∀ e ∈ es, e.Silent) (hc : w'.isConnected = true → w.isConnected = true) :
    Carried f w' where
  pos_le := h.recvBufPos ▸ hw.pos_le
  pending := by rw [h.pending, hw.pending, h.trace, sessions_append, leftover_silent hes]
  parsed := by
    rw [h.trace, sessions_append]
    exact hw.parsed.silent hes
  connected hconn := by
    have hne := hw.connected (hc hconn)
    rw [h.trace, sessions_append]
    cases hs : sessions w.trace with
    | nil => exact absurd hs hne
    | cons s ss =>
        rw [foldl_addEvent fun e he => (hes e he).ne_onConnected]
        exact List.cons_ne_nil _ _

/-- A connection made begins a session with what is left over, which shows no packet. -/
theorem Carried.connect (hf : Framing.Contract (frameLen f)) {es es' : List Event}
    (hw : Carried f w) (h : Untouched w w' (es ++ .onConnected :: es')) (hes : ∀ e ∈ es, e.Silent)
    (hes' : ∀ e ∈ es', e.Silent) : Carried f w' := by
  have hss : sessions w'.trace = es' :: es.foldl addEvent (sessions w.trace) := by
    rw [h.trace, sessions_append, List.foldl_append, List.foldl_cons]
    exact foldl_addEvent (fun e he => (hes' e he).ne_onConnected) [] _
  have hgreedy : greedy (frameLen f)
      (leftover f (es.foldl addEvent (sessions w.trace)) ++ received es') =
        ([], leftover f (es.foldl addEvent (sessions w.trace))) := by
    rw [received_silent hes', List.append_nil, greedy_of_nonpos (leftover_rest hf _)]
  refine ⟨h.recvBufPos ▸ hw.pos_le, ?_, ?_, ?_⟩
  · rw [hss, leftover, hgreedy, leftover_silent hes, h.pending, hw.pending]
  · rw [hss]
    exact ⟨by rw [hgreedy, delivered_silent hes'], hw.parsed.silent hes⟩
  · rw [hss]
    exact fun _ => List.cons_ne_nil _ _

/-- Bytes taken in belong to the latest session. -/
theorem Carried.receive (hf : Framing.Contract (frameLen f)) (hw : Carried f w)
    (hconn : w.isConnected = true) {c : List Byte} {b : Buffer Byte maxRecvBuf} {p : Nat}
    (hb : b.slice 0 p = (greedy (frameLen f) (w.pending ++ c)).2) (hp : p ≤ maxRecvBuf) :
    Carried f ((w.refill b p).record (.recv w.fd w.space (some c) ::
      (greedy (frameLen f) (w.pending ++ c)).1.map .onRecv)) := by
  obtain ⟨s, ss, hs⟩ := List.exists_cons_of_ne_nil (hw.connected hconn)
  have hpend := hw.pending
  have hparsed := hw.parsed
  rw [hs] at hpend hparsed
  generalize hes : (Event.recv w.fd w.space (some c) ::
    (greedy (frameLen f) (w.pending ++ c)).1.map .onRecv) = es
  have hr : received es = c := by
    rw [← hes]
    simp [received]
  have hd : delivered es = (greedy (frameLen f) (leftover f (s :: ss) ++ c)).1 := by
    rw [← hes, ← hpend]
    exact delivered_onRecv _
  have hno : ∀ e ∈ es, e ≠ .onConnected := by
    rw [← hes]
    simp
  have hss : sessions ((w.refill b p).record es).trace = (s ++ es) :: ss := by
    rw [World.record_trace, sessions_append]
    exact hs ▸ foldl_addEvent hno s ss
  obtain ⟨hparsed', hleft⟩ := hparsed.receive hf hr hd
  refine ⟨hp, ?_, hss ▸ hparsed', fun _ => hss ▸ List.cons_ne_nil _ _⟩
  rw [hss, hleft, ← hpend]
  exact hb

/-- **Every step carries what is pending along.** -/
theorem Receiving.carried (hf : Framing.Contract (frameLen f)) (hfuel : maxRecvBuf ≤ fuel)
    {s : Step} (h : Receiving f fuel w s w') (hw : Carried f w) : Carried f w' := by
  cases h with
  | untouched es hu hes hc => exact hw.untouched hu hes hc
  | connected es es' hu hes hes' => exact hw.connect hf hu hes hes'
  | @received k exceptional ret w₁ hwatch hs hrun =>
      have hw₁ : Carried f w₁ := by
        rcases doRecv_parsed hf hfuel hw.pos_le k.recv with ⟨hlost, hb⟩ | ⟨c, b, p, -, -, hok, hbp⟩
        · obtain ⟨-, rfl⟩ := EStateM.Result.ok.inj (hrun.symm.trans hlost)
          refine hw.untouched ⟨rfl, rfl, rfl⟩ ?_ nofun
          rcases hb with hb | hb <;> simp [hb, Event.Silent]
        · obtain ⟨-, rfl⟩ := EStateM.Result.ok.inj (hrun.symm.trans hok)
          exact hw.receive hf hwatch.isConnected hbp.1 hbp.2
      split
      · exact hw₁.untouched ⟨rfl, rfl, rfl⟩ (by simp [Event.Silent]) id
      · exact hw₁
  | halted hwatch hs hrun =>
      rcases doRecv_parsed hf hfuel hw.pos_le _ with ⟨hlost, -⟩ | ⟨c, b, p, -, -, hok, -⟩
      · cases hrun.symm.trans hlost
      · cases hrun.symm.trans hok

/-- A step begins a session, if it does, with what is pending before it. -/
theorem Receiving.unmixed {s : Step} (h : Receiving f fuel w s w') (hw : Carried f w)
    (hs : Connects w s → w.recvBufPos = 0) (hu : Unmixed f (sessions w.trace)) :
    Unmixed f (sessions w'.trace) := by
  have extend : ∀ {w' : World} (es : List Event), w'.trace = w.trace ++ es →
      (∀ e ∈ es, e ≠ .onConnected) → Unmixed f (sessions w'.trace) := by
    intro w' es ht hes
    rw [ht, sessions_append]
    exact hu.extend hes
  cases h with
  | untouched es hu' hes => exact extend es hu'.trace fun e he => (hes e he).ne_onConnected
  -- a new session begins with nothing left over, for there is nothing in the buffer
  | connected es es' hu' hes hes' hc =>
      have hnil : leftover f (sessions w.trace) = [] := by
        rw [← hw.pending, World.pending, hs hc, Buffer.slice_zero]
      rw [hu'.trace, sessions_append, List.foldl_append, List.foldl_cons]
      refine Unmixed.extend (fun e he => (hes' e he).ne_onConnected) ?_
      exact ⟨by rw [leftover_silent hes, hnil], hu.extend fun e he => (hes e he).ne_onConnected⟩
  | @received k exceptional ret w₁ hwatch hsel hrun =>
      obtain ⟨es, ht, hes⟩ := (received_of_run hrun).recorded (P := (· ≠ .onConnected))
        (by simp) (by simp) (by simp)
      split
      · refine extend (es ++ [.onDisconnect]) ?_ ?_
        · rw [World.record_trace, ← List.append_assoc]
          exact congrArg (· ++ [Event.onDisconnect]) ht
        · exact List.forall_mem_append.mpr ⟨hes, List.forall_mem_singleton.mpr (by simp)⟩
      · exact extend es ht hes
  | @halted k h w₁ exceptional hwatch hsel hrun =>
      obtain ⟨es, ht, hes⟩ := (received_of_run hrun).recorded (P := (· ≠ .onConnected))
        (by simp) (by simp) (by simp)
      exact extend es ht hes

theorem carried_new (buf : Buffer Byte maxRecvBuf) (port : UInt16) :
    Carried f (World.new buf port) where
  pos_le := Nat.zero_le _
  pending := Buffer.slice_zero _ _
  parsed := trivial
  connected := nofun

/-- Each session of the trace delivers the parse of its own bytes. -/
def Isolated (f : List Byte → Int32) (trace : List Event) : Prop :=
  ∀ s ∈ sessions trace, delivered s = (greedy (frameLen f) (received s)).1

instance (f : List Byte → Int32) (trace : List Event) : Decidable (Isolated f trace) :=
  inferInstanceAs (Decidable (∀ s ∈ sessions trace, _))

/-- **Connections made on an empty buffer do not contaminate each other.** -/
theorem run_isolated (hf : Framing.Contract (frameLen f)) (hfuel : maxRecvBuf ≤ fuel)
    (buf : Buffer Byte maxRecvBuf) (port : UInt16) (l : List Step)
    (hl : Along (next (.quiet f) fuel) (fun w s => Connects w s → w.recvBufPos = 0)
      (World.new buf port) l) :
    Isolated f (run (next (.quiet f) fuel) (World.new buf port) l).trace := by
  have hinv : ∀ w s, Carried f w ∧ Unmixed f (sessions w.trace) →
      (Connects w s → w.recvBufPos = 0) →
      Carried f (next (.quiet f) fuel w s) ∧
        Unmixed f (sessions (next (.quiet f) fuel w s).trace) := by
    rintro w s ⟨hw, hu⟩ hs
    refine next_cases (P := fun w' => Carried f w' ∧ Unmixed f (sessions w'.trace)) s
      (fun _ => ⟨hw, hu⟩) ?_
    intro w' ha hmove
    have hrec := hmove.receiving ha
    exact ⟨hrec.carried hf hfuel hw, hrec.unmixed hw hs hu⟩
  obtain ⟨hw, hu⟩ := run_invariant hinv ⟨carried_new buf port, trivial⟩ hl
  exact hw.parsed.own hu

end

/-! ### A record cut in two -/

/-- The kernel's answers in a round in which `recv` meets `k`. -/
def RoundAnswer.reading (k : RecvAnswer) : RoundAnswer := ⟨.ready true false, k, ⟨none, false⟩⟩

/-- The kernel's answers in a round in which a dial succeeds, on the descriptor `n`. -/
def RoundAnswer.dialing (n : Nat) : RoundAnswer := ⟨.timeout, .closed, ⟨some n, true⟩⟩

/-- A connection, lost after the bytes `c`; the next one brings `c'`. -/
def cutAfter (c c' : List Byte) : List Step :=
  [.connect "host" 80 true (some [1]) ⟨some 3, true⟩, .iterate (.reading (.data c)),
    .iterate (.reading .closed), .iterate (.dialing 3), .iterate (.reading (.data c'))]

/-- `run_isolated` at a connection lost between two records. -/
theorem run_isolated_between :
    Isolated recordLen (run (next (.quiet recordLen) maxRecvBuf)
      (World.new (.replicate _ 0) 0) (cutAfter [1, 2] [3, 4])).trace := by
  refine run_isolated recordLen_contract (Nat.le_refl _) _ _ _ ?_
  decide

/-- A connection lost inside a record: the next one delivers a packet neither peer sent. -/
theorem sessions_contaminated :
    ¬ Isolated recordLen (run (next (.quiet recordLen) maxRecvBuf)
      (World.new (.replicate _ 0) 0) (cutAfter [1] [2, 3])).trace := by
  decide

end PBTransfor.Tcp
