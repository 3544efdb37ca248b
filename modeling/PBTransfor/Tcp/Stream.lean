import PBTransfor.Head.Frames
import PBTransfor.Tcp.Sending

/-!
# Tcp — what the connections are sent, in order

`sent` is what the connections of a trace are sent, the first connection first.  A message sent
while the client is connected comes last (`next_sent`), and nothing else is sent.

`Untorn.greedy_taken`: where the messages of a connection are frames that a header announces, and
follow no message that was cut short, a peer that frames by the header gets those that were taken
whole, and keeps the beginning of the one that was not.
-/

namespace PBTransfor.Tcp

open Library

/-- The messages sent on each of the sessions `ss`, the earliest session first. -/
def sentOn (ss : List (List Event)) : List Sent := ss.reverse.flatMap messages

/-- The messages sent, in the order they were. -/
def sent (trace : List Event) : List Sent := sentOn (sessions trace)

/-- A client that is connected has made a connection. -/
def World.Opened (w : World) : Prop := w.isConnected = true → sessions w.trace ≠ []

theorem World.opened_new (buf : Buffer Byte maxRecvBuf) (port : UInt16) :
    (World.new buf port).Opened := nofun

section
variable {f : List Byte → Int32} {fuel : Nat} {w w' : World} {es : List Event}
  {ss : List (List Event)}

/-! ### Sessions -/

theorem addEvent_ne_nil (e : Event) (h : ss ≠ []) : addEvent ss e ≠ [] := by
  cases ss with
  | nil => exact absurd rfl h
  | cons s ss => cases e <;> exact List.cons_ne_nil _ _

theorem foldl_addEvent_ne_nil (h : ss ≠ []) : es.foldl addEvent ss ≠ [] := by
  induction es generalizing ss with
  | nil => exact h
  | cons e es ih => exact ih (addEvent_ne_nil e h)

theorem sessions_ne_nil (h : sessions w.trace ≠ []) (ht : w'.trace = w.trace ++ es) :
    sessions w'.trace ≠ [] := by
  rw [ht, sessions_append]
  exact foldl_addEvent_ne_nil h

theorem sentOn_addEvent (e : Event) (h : ss ≠ []) :
    sentOn (addEvent ss e) = sentOn ss ++ messages [e] := by
  cases ss with
  | nil => exact absurd rfl h
  | cons s ss =>
      by_cases hconn : e = .onConnected
      · rw [hconn]
        simp only [addEvent, sentOn, List.reverse_cons, List.flatMap_append, List.flatMap_singleton]
        rfl
      · have hno : ∀ e' ∈ [e], e' ≠ .onConnected := by
          intro e' he'
          rwa [List.mem_singleton.mp he']
        have hadd : addEvent (s :: ss) e = (s ++ [e]) :: ss := foldl_addEvent hno s ss
        rw [hadd]
        simp only [sentOn, List.reverse_cons, List.flatMap_append, List.flatMap_singleton,
          messages_append, List.append_assoc]

theorem sentOn_foldl (h : ss ≠ []) : sentOn (es.foldl addEvent ss) = sentOn ss ++ messages es := by
  induction es generalizing ss with
  | nil => exact (List.append_nil _).symm
  | cons e es ih =>
      rw [List.foldl_cons, ih (addEvent_ne_nil e h), sentOn_addEvent e h, List.append_assoc,
        ← messages_append]
      rfl

/-- Before there is a connection, nothing is sent on one. -/
theorem sentOn_foldl_nil (h : ∀ e ∈ es, e.Sendless) : sentOn (es.foldl addEvent []) = [] := by
  induction es with
  | nil => rfl
  | cons e es ih =>
      have hes : ∀ e' ∈ es, e'.Sendless := fun e' he' => h e' (List.mem_cons_of_mem _ he')
      by_cases hconn : e = .onConnected
      · rw [List.foldl_cons, hconn]
        exact (sentOn_foldl (List.cons_ne_nil _ _)).trans (messages_sendless hes)
      · have hno : ∀ e' ∈ [e], e' ≠ .onConnected := by
          intro e' he'
          rwa [List.mem_singleton.mp he']
        have hadd : addEvent [] e = [] := foldl_addEvent_nil hno
        rw [List.foldl_cons, hadd]
        exact ih hes

theorem sent_append_sendless (ht : w'.trace = w.trace ++ es) (h : ∀ e ∈ es, e.Sendless) :
    sent w'.trace = sent w.trace := by
  rw [sent, ht, sessions_append]
  by_cases hss : sessions w.trace = []
  · rw [sent, hss]
    exact sentOn_foldl_nil h
  · rw [sentOn_foldl hss, messages_sendless h, List.append_nil, sent]

theorem sent_append_send (hw : sessions w.trace ≠ []) {fd : Int} {pData : List Byte}
    {accepted : Option Nat} (ht : w'.trace = w.trace ++ .send fd pData accepted :: es)
    (h : ∀ e ∈ es, e.Sendless) : sent w'.trace = sent w.trace ++ [⟨fd, pData, accepted⟩] := by
  have hsent : messages (.send fd pData accepted :: es) = [⟨fd, pData, accepted⟩] :=
    congrArg (_ :: ·) (messages_sendless h)
  rw [sent, ht, sessions_append, sentOn_foldl hw, hsent, sent]

/-! ### Steps -/

theorem Move.opened {s : Step} (h : Move f fuel w s w') (ha : w.control.admits s = true)
    (hw : w.Opened) : w'.Opened := by
  obtain ⟨es, ht, -⟩ := h.recorded
  by_cases hss : sessions w.trace = []
  · -- it was not connected: if it is now, a connection has been made
    have off : w.isConnected = true → False := fun hc => hw hc hss
    cases h.receiving ha with
    | untouched es₁ hu hes hc => exact fun h => (off (hc h)).elim
    | connected es₁ es₂ hu hes hes' hs =>
        intro _
        rw [hu.trace, sessions_append, List.foldl_append, List.foldl_cons]
        exact foldl_addEvent_ne_nil (List.cons_ne_nil [] _)
    | received hwatch => exact (off hwatch.isConnected).elim
    | halted hwatch => exact (off hwatch.isConnected).elim
  · exact fun _ => sessions_ne_nil hss ht

theorem next_opened (s : Step) (hw : w.Opened) : (next (.quiet f) fuel w s).Opened :=
  next_cases (P := World.Opened) s (fun _ => hw) fun _ ha h => h.opened ha hw

/-- What is not a `send` sends nothing. -/
theorem next_unsent {s : Step} (hs : ∀ pData accepted, s ≠ .send pData accepted) :
    sent (next (.quiet f) fuel w s).trace = sent w.trace := by
  refine next_cases (P := fun w' => sent w'.trace = sent w.trace) s (fun _ => rfl) ?_
  intro w' _ h
  obtain ⟨es, ht, hes⟩ := h.recorded
  exact sent_append_sendless ht fun e he => (hes e he).sendless hs

/-- **What a `send` sends**: its message, last of all, when the client is connected. -/
theorem next_sent {pData : List Byte} {accepted : Option Nat} (hw : w.Opened)
    (ha : w.control.admits (.send pData accepted) = true) (hc : w.isConnected = true) :
    sent (next (.quiet f) fuel w (.send pData accepted)).trace =
      sent w.trace ++ [⟨w.fd, passed pData, accepted⟩] := by
  refine next_cases (P := fun w' => sent w'.trace = _) _ (fun hno => ?_) fun w' _ h => ?_
  · exact (Bool.false_ne_true (hno.symm.trans ha)).elim
  cases h with
  | sendIdle _ _ hno => exact (Bool.false_ne_true (hno.symm.trans hc)).elim
  | sent =>
      have hno : ∀ e ∈ ([] : List Event), e.Sendless := fun e he => absurd he List.not_mem_nil
      exact sent_append_send (hw hc) rfl hno
  | sendFailed _ _ _ _ hh =>
      obtain ⟨es, ht, hes⟩ := hh.sendless (s := .send pData accepted)
      refine sent_append_send (hw hc) ht ?_
      intro e he
      rcases List.mem_cons.mp he with rfl | he
      · trivial
      · exact (hes e he).1

/-- A session's messages stand together among all that was sent. -/
theorem messages_infix {session : List Event} (h : session ∈ ss) :
    messages session <:+: sentOn ss := by
  obtain ⟨l, r, hlr⟩ := List.append_of_mem (List.mem_reverse.mpr h)
  rw [sentOn, hlr, List.flatMap_append, List.flatMap_cons, ← List.append_assoc]
  exact List.infix_append ..

/-! ### The peer -/

theorem untorn_cons_iff {x : Sent} {xs : List Sent} :
    Untorn (x :: xs) ↔ (x.Complete ∧ Untorn xs) ∨ ∀ y ∈ xs, y.taken = [] := by
  constructor
  · rintro ⟨full, rest, heq, hfull, hrest⟩
    cases full with
    | nil =>
        rw [List.nil_append] at heq
        rw [← heq] at hrest
        exact Or.inr hrest
    | cons y full =>
        rw [List.cons_append] at heq
        obtain ⟨rfl, rfl⟩ := List.cons.inj heq
        exact Or.inl ⟨hfull x (List.mem_cons_self ..), full, rest, rfl,
          fun y hy => hfull y (List.mem_cons_of_mem _ hy), hrest⟩
  · rintro (⟨hx, full, rest, rfl, hfull, hrest⟩ | h)
    · refine ⟨x :: full, rest, rfl, ?_, hrest⟩
      intro y hy
      rcases List.mem_cons.mp hy with rfl | hy
      · exact hx
      · exact hfull y hy
    · exact ⟨[], x :: xs, rfl, nofun, h⟩

/-- What a peer is left with: the beginning of the first message that was not taken whole. -/
def cutShort (xs : List Sent) : List Byte :=
  ((xs.find? fun x => ¬ x.Complete).map Sent.taken).getD []

/-- **What a peer that frames by the header makes of a connection.** -/
theorem Untorn.greedy_taken {read : List Byte → Int} (hr : Head.HeaderFramed read) {xs : List Sent}
    (hxs : ∀ x ∈ xs, IsFrame 4 Head.declared x.data) (h : Untorn xs) :
    greedy read (xs.flatMap Sent.taken) =
      ((xs.filter fun x => x.Complete).map Sent.data, cutShort xs) := by
  have hnil : greedy read [] = ([], []) :=
    greedy_of_nonpos (LengthPrefixed.contract hr).not_pos_nil
  induction xs with
  | nil => exact hnil
  | cons x xs ih =>
      have hx : IsFrame 4 Head.declared x.data := hxs x (List.mem_cons_self ..)
      have hrest : ∀ y ∈ xs, IsFrame 4 Head.declared y.data := fun y hy =>
        hxs y (List.mem_cons_of_mem _ hy)
      by_cases hc : x.Complete
      · have hun : Untorn xs := by
          rcases untorn_cons_iff.mp h with ⟨-, hun⟩ | hempty
          · exact hun
          · exact ⟨[], xs, rfl, nofun, fun y hy => hempty y (List.mem_of_mem_tail hy)⟩
        have hframe : ∀ w ∈ [x.data], IsFrame 4 Head.declared w := List.forall_mem_singleton.mpr hx
        have hone := LengthPrefixed.greedy_frames hr hframe (xs.flatMap Sent.taken)
        rw [List.flatten_singleton, ih hrest hun] at hone
        rw [List.flatMap_cons, hc, hone]
        simp only [cutShort, List.filter_cons, List.find?_cons, hc, decide_true, not_true_eq_false,
          decide_false, if_true, List.map_cons, List.singleton_append]
      · -- no frame is empty, so the messages behind it have not been taken whole either
        have hempty : ∀ y ∈ xs, y.taken = [] := by
          rcases untorn_cons_iff.mp h with ⟨hno, -⟩ | hempty
          · exact absurd hno hc
          · exact hempty
        have hlost : ∀ y ∈ xs, ¬ y.Complete := by
          intro y hy hcomplete
          have hlen := hrest y hy
          rw [IsFrame, ← hcomplete, hempty y hy, List.length_nil] at hlen
          omega
        have hfilter : (xs.filter fun y => y.Complete) = [] :=
          List.filter_eq_nil_iff.mpr fun y hy => by simpa using hlost y hy
        have hpart := LengthPrefixed.not_pos_of_starts hr hx (List.take_prefix ..) hc
        rw [List.flatMap_cons, List.flatMap_eq_nil_iff.mpr hempty, List.append_nil]
        simp only [cutShort, List.filter_cons, List.find?_cons, hc, decide_false, not_false_eq_true,
          decide_true, hfilter, Option.map_some, Option.getD_some, Bool.false_eq_true, if_false,
          List.map_nil]
        exact greedy_of_nonpos hpart

end

end PBTransfor.Tcp
