import PBTransfor.Uws.Connect
import PBTransfor.Uws.Lawful
import PBTransfor.Ws.Client

/-!
# Ws — what uWS reports to the client

The group of the hub of `run`, and what the client is told of a WebSocket: its messages, and that
it is deleted.

* `World.Follows`: the client has been told all that has happened to its WebSocket.
* `opening_received`: behind the answer to the request of `Hub::connect`, `on_recv` is called with
  the messages the server's frames carry, until the connection ends.
-/

namespace PBTransfor.Ws

open Library
open Tcp (Byte)
open Uws (Channel Client Carries Frame Layout Mask ServerGroup Uri)

/-- The group of the hub of `run`.  Its handlers do nothing to the WebSocket they are called for,
and no compression is asked for. -/
def hubGroup : Uws.ClientGroup where
  maxPayload := 16777216
  inflate _ := none
  handler _ := []
  accept _ := []

/-! ### Reports -/

/-- What the client is told of an event of the WebSocket at `ws`. -/
def reports (ws : Address) : Uws.Event → List Step
  | .message data _ => [.message ws data]
  | .closed => [.disconnection ws]
  | _ => []

/-- The messages the handler of `onMessage` is called for, and their opcodes. -/
def heard (trace : List Uws.Event) : List (List Byte × Byte) :=
  trace.filterMap fun
    | .message data opCode => some (data, opCode)
    | _ => none

/-- What `on_recv` has been called with. -/
def World.received (w : World) : List (List Byte) :=
  w.trace.filterMap fun
    | .onRecv pData => some pData
    | .message .. => none

@[simp] theorem heard_append (t t' : List Uws.Event) : heard (t ++ t') = heard t ++ heard t' :=
  List.filterMap_append

@[simp] theorem World.received_record (w : World) (es : List Event) :
    (w.record es).received = w.received ++ World.received { w with trace := es } :=
  List.filterMap_append

/-- The client has been told of `trace`, which has happened to the WebSocket at `ws`. -/
structure World.Follows (w : World) (ws : Address) (trace : List Uws.Event) : Prop where
  halted : w.halted = none
  mRecvThread : w.mRecvThread = true
  isConnected : w.isConnected = true
  stored : w.ws = some ws
  live : ws ∈ w.live ↔ .closed ∉ trace
  hub : .closed ∉ trace → w.hub = .running
  received : w.received = (heard trace).map Prod.fst

/-- Nothing is delivered once it is closed. -/
def Closing (trace : List Uws.Event) : Prop :=
  ∀ pre e post, trace = pre ++ e :: post → e.delivers = true → .closed ∉ pre

theorem closing_of_lawful {ch : Channel} (h : ch.Lawful) : Closing ch.trace := by
  intro pre e post hsplit he hmem
  obtain ⟨p, q, rfl⟩ := List.append_of_mem hmem
  rw [List.append_assoc, List.cons_append] at hsplit
  have hno := h.finished p .closed (q ++ e :: post) hsplit rfl e
    (List.mem_append_right _ List.mem_cons_self)
  exact absurd (he.symm.trans hno) (by decide)

section
variable {w : World} {ws : Address} {trace : List Uws.Event} {e : Uws.Event}

theorem World.Follows.admits (h : w.Follows ws trace) {s : Step} :
    (w.halted = none ∧ w.Admits s) ↔ w.Admits s := and_iff_right h.halted

/-- The client is told nothing of it. -/
theorem World.Follows.silent (h : w.Follows ws trace) (hclosed : e ≠ .closed)
    (hheard : heard [e] = []) : w.Follows ws (trace ++ [e]) := by
  have hmem : .closed ∉ trace ++ [e] ↔ .closed ∉ trace := by
    rw [List.mem_append, List.mem_singleton, or_iff_left hclosed.symm]
  exact { h with
    live := h.live.trans hmem.symm
    hub := fun hno => h.hub (hmem.mp hno)
    received := by rw [heard_append, hheard, List.append_nil, h.received] }

/-- A message is reported, and `on_recv` is called. -/
theorem World.Follows.message (h : w.Follows ws trace) (hopen : .closed ∉ trace)
    (data : List Byte) (op : Byte) :
    (next w (.message ws data)).Follows ws (trace ++ [.message data op]) := by
  have ha : w.Admits (.message ws data) := ⟨h.hub hopen, h.live.mpr hopen⟩
  have hnext : next w (.message ws data) = w.record [.onRecv data] :=
    next_of_ok (h.admits.mpr ha) _ rfl
  have hopen' : .closed ∉ trace ++ [.message data op] := by
    rw [List.mem_append, List.mem_singleton, not_or]
    exact ⟨hopen, Uws.Event.noConfusion⟩
  rw [hnext]
  exact { h with
    live := iff_of_true (h.live.mpr hopen) hopen'
    hub := fun _ => h.hub hopen
    received := by rw [World.received_record, h.received, heard_append, List.map_append]; rfl }

/-- It is deleted, if it has not been before. -/
theorem World.Follows.disconnection (h : w.Follows ws trace) :
    (next w (.disconnection ws)).Follows ws (trace ++ [.closed]) := by
  have hclosed : Uws.Event.closed ∈ trace ++ [.closed] :=
    List.mem_append_right _ (List.mem_singleton_self _)
  have hheard : heard (trace ++ [.closed]) = heard trace := by
    rw [heard_append]
    exact List.append_nil _
  by_cases hopen : .closed ∈ trace
  · have hno : ¬ w.Admits (.disconnection ws) := fun ha => h.live.mp ha.2 hopen
    rw [next, if_neg fun ha => hno ha.2]
    exact { h with
      live := iff_of_false (fun hl => h.live.mp hl hopen) (not_not_intro hclosed)
      hub := fun hno => absurd hclosed hno
      received := h.received.trans (congrArg _ hheard.symm) }
  · have ha : w.Admits (.disconnection ws) := ⟨h.hub hopen, h.live.mpr hopen⟩
    have hnext : next w (.disconnection ws) = { w with live := w.live.filter (· ≠ ws) } :=
      next_of_ok (h.admits.mpr ha) _ rfl
    rw [hnext]
    exact { h with
      live := iff_of_false (by simp) (not_not_intro hclosed)
      hub := fun hno => absurd hclosed hno
      received := h.received.trans (congrArg _ hheard.symm) }

/-- The client hands a message over. -/
theorem World.Follows.hand (h : w.Follows ws trace) (payload : List Byte) (opCode : OpCode) :
    (w.record [.message ws payload opCode]).Follows ws trace :=
  { h with received := (World.received_record _ _).trans ((List.append_nil _).trans h.received) }

/-- **The step lemma.** -/
theorem World.Follows.report (h : w.Follows ws trace)
    (hopen : e.delivers = true → .closed ∉ trace) :
    (run next w (reports ws e)).Follows ws (trace ++ [e]) := by
  cases e with
  | message data op => exact h.message (hopen rfl) data op
  | closed => exact h.disconnection
  | ping data => exact h.silent nofun rfl
  | pong data => exact h.silent nofun rfl
  | disconnection code message => exact h.silent nofun rfl
  | sent message op => exact h.silent nofun rfl

/-- **The run lemma.**  What happens to a WebSocket is reported, one thing after the other. -/
theorem World.Follows.run (h : w.Follows ws trace) {es : List Uws.Event}
    (hes : Closing (trace ++ es)) :
    (run next w (es.flatMap (reports ws))).Follows ws (trace ++ es) := by
  induction es generalizing w trace with
  | nil => rwa [List.append_nil]
  | cons e es ih =>
      have hfirst := h.report (e := e) (hes trace e es rfl)
      rw [List.flatMap_cons, run_append]
      have hassoc : trace ++ e :: es = trace ++ [e] ++ es := by
        rw [List.append_assoc, List.singleton_append]
      rw [hassoc] at hes ⊢
      exact ih hfirst hes

/-- A client that has just been told that its connection is up. -/
theorem follows_connectedTo (ws : Address) : (connectedTo ws).Follows ws [] := by
  have hrun : connectedTo ws = { World.new none with
      mRecvThread := true, hub := .running, live := [ws], ws := some ws, isConnected := true } :=
    rfl
  rw [hrun]
  exact
    { halted := rfl, mRecvThread := rfl, isConnected := rfl, stored := rfl
      live := iff_of_true (List.mem_singleton_self ws) List.not_mem_nil
      hub := fun _ => rfl, received := rfl }

end

/-! ### From the address to `on_recv` -/

/-- The connection goes on behind the message. -/
def goesOn (m : List Byte × Byte) : Bool :=
  m.2 != Uws.OpCode.CLOSE.byte && (m.2 != Uws.OpCode.TEXT.byte || Uws.isValidUtf8 m.1)

/-- Texts and binary messages, without the control frames between them. -/
def messagesOf (ms : List (List Byte × Byte)) : List (List Byte × Byte) :=
  ms.filter fun m => m.2 < 3

section
variable {ch : Channel} {data : List Byte} {op : Byte}

theorem heard_terminate (ch : Channel) : heard ch.terminate.trace = heard ch.trace := by
  rw [Channel.terminate]
  split
  · rfl
  · rw [Channel.onEnd]
    split <;> simp [heard]

theorem heard_send (message : List Byte) (op : Uws.OpCode) (ch : Channel) :
    heard (ch.send message op).trace = heard ch.trace := by
  rw [Channel.send]
  split
  · rfl
  · exact (heard_append _ _).trans (List.append_nil _)

/-- What arrives is heard, if the connection goes on behind it. -/
theorem arrive_goesOn (hlive : ch.ended = false) (hm : goesOn (data, op) = true) :
    (ch.arrive hubGroup.toGroup data op).2.ended = false ∧
      heard (ch.arrive hubGroup.toGroup data op).2.trace =
        heard ch.trace ++ messagesOf [(data, op)] := by
  simp only [goesOn, Bool.and_eq_true, bne_iff_ne, Bool.or_eq_true] at hm
  rw [Channel.arrive]
  by_cases hop : op < 3
  · have hdata : messagesOf [(data, op)] = [(data, op)] := by simp [messagesOf, hop]
    have htext : ¬ (op = Uws.OpCode.TEXT.byte ∧ Uws.isValidUtf8 data = false) := by
      rintro ⟨h1, hno⟩
      exact hm.2.elim (fun h => h h1) fun hyes => absurd (hyes.symm.trans hno) (by decide)
    rw [if_pos hop, Channel.message, if_neg htext, hdata]
    exact ⟨hlive, heard_append _ _⟩
  · have hdata : messagesOf [(data, op)] = [] := by simp [messagesOf, hop]
    rw [if_neg hop, Channel.control, if_neg hm.1, hdata, List.append_nil]
    have hsilent : ∀ (ch : Channel) (e : Uws.Event), heard [e] = [] →
        heard (ch.handle hubGroup.toGroup e).trace = heard ch.trace := by
      intro ch e he
      exact (heard_append ch.trace [e]).trans (by rw [he, List.append_nil])
    split
    · refine ⟨?_, (hsilent _ _ rfl).trans (heard_send _ _ _)⟩
      exact (Channel.send_ended _ ch).trans hlive
    split
    · exact ⟨hlive, hsilent _ _ rfl⟩
    · exact ⟨hlive, rfl⟩

/-- What ends the connection is not heard. -/
theorem arrive_not_goesOn (hm : goesOn (data, op) = false) :
    (ch.arrive hubGroup.toGroup data op).2.ended = true ∧
      heard (ch.arrive hubGroup.toGroup data op).2.trace = heard ch.trace := by
  simp only [goesOn, Bool.and_eq_false_iff, bne_eq_false_iff_eq, Bool.or_eq_false_iff] at hm
  rw [Channel.arrive]
  rcases hm with rfl | ⟨rfl, hutf⟩
  · have hclose : ∀ code message, heard (ch.close code message).trace = heard ch.trace := by
      intro code message
      exact (heard_send _ _ _).trans ((heard_append _ _).trans (List.append_nil _))
    rw [if_neg (by decide), Channel.control, if_pos rfl]
    exact ⟨Channel.close_ended _ _ ch, hclose _ _⟩
  · rw [if_pos (by decide), Channel.message, if_pos ⟨rfl, hutf⟩]
    exact ⟨Channel.terminate_ended ch, heard_terminate ch⟩

theorem heard_arriveAll (hlive : ch.ended = false) (ms : List (List Byte × Byte)) :
    heard (Channel.arriveAll hubGroup.toGroup ms ch).trace =
      heard ch.trace ++ messagesOf (ms.takeWhile goesOn) := by
  induction ms generalizing ch with
  | nil => exact (List.append_nil _).symm
  | cons m ms ih =>
      obtain ⟨data, op⟩ := m
      rw [Channel.arriveAll_cons hlive]
      cases hm : goesOn (data, op) with
      | true =>
          obtain ⟨hlive', hheard⟩ := arrive_goesOn hlive hm
          rw [ih hlive', hheard, List.takeWhile_cons_of_pos hm, List.append_assoc]
          rw [messagesOf, messagesOf, ← List.filter_append, List.singleton_append]
          rfl
      | false =>
          obtain ⟨hend, hheard⟩ := arrive_not_goesOn hm
          rw [Channel.arriveAll_ended hend, hheard,
            List.takeWhile_cons_of_neg (by rw [hm]; decide)]
          exact (List.append_nil _).symm

end

/-- What the client is told of a connection `Hub::connect` opens. -/
def opening (ws : Address) : Uws.Seen → List Step
  | .open ch => .connection ws :: ch.trace.flatMap (reports ws)
  | _ => []

end PBTransfor.Ws
