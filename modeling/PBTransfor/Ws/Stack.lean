import PBTransfor.Uws.Link
import PBTransfor.Ws.Reports

/-!
# Ws — the client and the connection under it

A client whose connection is up, the WebSocket uWS has made of it, and a server: the owner calls
the client, what happens to the WebSocket is reported, and all of it in any order.  A step is
atomic: `send` is called by the owner's thread and the rest by the hub's, without a lock.

* `Stack.run_sound`: in every run, what the client has been told is what has happened to its
  WebSocket, and what it has handed over is what has been sent.
* `run_in_order`: `on_recv` is called with the first messages the server has sent; and the server
  is called with the first messages the client's socket has accepted, each of them what stands
  before the first zero of a string that `send` was called with.
* `run_settled`: once everything has arrived, they are all of them.
-/

namespace PBTransfor.Ws

open Library
open Tcp (Byte Halt)
open Uws (Channel Endpoint Group Link Mask Sent)

/-! ### The machine -/

def OpCode.uws : OpCode → Uws.OpCode
  | .text => .TEXT
  | .binary => .BINARY

/-- What is called when the client hands a message over. -/
def Event.calls : Event → List Uws.Call
  | .message _ payload opCode => [.send payload opCode.uws]
  | .onRecv _ => []

/-- What the owner may call.  Memory holds the bytes of a string. -/
def Step.ByOwner : Step → Prop
  | .connect | .isConnected => True
  | .send pData => pData.length < 2 ^ 64
  | _ => False

/-- A client, and the connection of its WebSocket. -/
structure Stack where
  client : World
  link : Link := {}

namespace Stack

/-- What happens: the owner calls, something happens to one of the two WebSockets, or the loop of
the hub returns. -/
inductive Input where
  | owner (step : Step) (oracle : Nat → Mask × Uws.Answer)
  | client (act : Endpoint.Act) (oracle : Nat → Mask × Uws.Answer)
  | server (act : Endpoint.Act) (oracle : Nat → Mask × Uws.Answer)
  | hubReturn

section
variable (Gs : Group) (recvBuffer : Nat) (ws : Address)

/-- The calls of the client's WebSocket. -/
def callAll (oracle : Nat → Mask × Uws.Answer) (calls : List Uws.Call) (e : Endpoint) : Endpoint :=
  calls.foldl (fun e c => e.act hubGroup.toGroup false recvBuffer oracle (.call c)) e

/-- The WebSocket of the client lies at `ws`. -/
def next (s : Stack) : Input → Stack
  | .owner step oracle =>
      let client := Ws.next s.client step
      let events := client.trace.drop s.client.trace.length
      { client := client
        link := { s.link with
          client := callAll recvBuffer oracle (events.flatMap Event.calls) s.link.client } }
  | .client act oracle =>
      let e := s.link.client.act hubGroup.toGroup false recvBuffer oracle act
      let events := e.ws.channel.trace.drop s.link.client.ws.channel.trace.length
      { client := run Ws.next s.client (events.flatMap (reports ws))
        link := { s.link with client := e } }
  | .server act oracle =>
      { s with link := { s.link with server := s.link.server.act Gs true recvBuffer oracle act } }
  | .hubReturn => { s with client := Ws.next s.client .hubReturn }

/-- What can happen.  The client's handlers call nothing, and the loop goes on as long as the
connection is there. -/
def Allows (s : Stack) : Input → Prop
  | .owner step _ => step.ByOwner
  | .client act _ =>
      (∀ c, act ≠ .call c) ∧ s.link.client.Allows recvBuffer s.link.server act
  | .server act _ => s.link.server.Allows recvBuffer s.link.client act
  | .hubReturn => s.link.client.ws.channel.closed = true

/-- The connection is up. -/
def opened : Stack := ⟨connectedTo ws, {}⟩

end

/-- The strings `send` is called with. -/
def Input.asks : Input → List (List Byte)
  | .owner (.send pData) _ => [pData]
  | _ => []

def asked (l : List Input) : List (List Byte) := l.flatMap Input.asks

end Stack

/-! ### What is sent -/

/-- Texts and binary messages a WebSocket has been called to send. -/
def posted (trace : List Uws.Event) : List (List Byte × Uws.OpCode) :=
  (Uws.sending trace).filter fun m => m.2.byte < 3

/-- What is sent of a Lua string. -/
def cut (pData : List Byte) : List Byte × Uws.OpCode := (pData.takeWhile (· ≠ 0), .BINARY)

@[simp] theorem posted_append (t t' : List Uws.Event) :
    posted (t ++ t') = posted t ++ posted t' := by
  rw [posted, Uws.sending, List.flatMap_append, List.filter_append]
  rfl

section
variable {ch : Channel}

theorem posted_send (message : List Byte) {op : Uws.OpCode} (hop : ¬ op.byte < 3) (ch : Channel) :
    posted (ch.send message op).trace = posted ch.trace := by
  rw [Channel.send]
  split
  · rfl
  · have hnone : posted [.sent message op] = [] := by
      simp [posted, Uws.sending, Uws.Event.sending, hop]
    exact (posted_append _ _).trans (by rw [hnone, List.append_nil])

theorem posted_terminate (ch : Channel) : posted ch.terminate.trace = posted ch.trace := by
  rw [Channel.terminate]
  split
  · rfl
  · rw [Channel.onEnd]
    split
    · exact (posted_append _ _).trans (List.append_nil _)
    · exact (posted_append _ _).trans ((List.append_nil _).trans
        ((posted_append _ _).trans (List.append_nil _)))

/-- uWS itself sends control frames alone. -/
theorem posted_arrive (data : List Byte) (op : Byte) (ch : Channel) :
    posted (ch.arrive hubGroup.toGroup data op).2.trace = posted ch.trace := by
  have hhandle : ∀ (ch : Channel) (e : Uws.Event), e.sending = [] →
      posted (ch.handle hubGroup.toGroup e).trace = posted ch.trace := by
    intro ch e he
    refine (posted_append ch.trace [e]).trans ?_
    rw [posted, posted, Uws.sending, Uws.sending, List.flatMap_singleton, he]
    exact List.append_nil _
  rw [Channel.arrive]
  split
  · rw [Channel.message]
    split
    · exact posted_terminate ch
    · exact hhandle ch _ rfl
  · rw [Channel.control]
    split
    · exact (posted_send _ (by decide) _).trans
        ((posted_append _ _).trans (List.append_nil _))
    split
    · exact (hhandle _ _ rfl).trans (posted_send _ (by decide) ch)
    split
    · exact hhandle ch _ rfl
    · rfl

/-- What is heard is what is delivered and is no control frame. -/
theorem heard_eq (h : ch.Lawful) : heard ch.trace = messagesOf (Uws.delivered ch.trace) := by
  have hgen : ∀ trace : List Uws.Event, (∀ d op, .message d op ∈ trace → op < 3) →
      heard trace = messagesOf (Uws.delivered trace) := by
    intro trace
    induction trace with
    | nil => exact fun _ => rfl
    | cons e trace ih =>
        intro hop
        have hrest := ih fun d op hd => hop d op (List.mem_cons_of_mem _ hd)
        have hsplit : messagesOf (Uws.delivered (e :: trace)) =
            messagesOf e.delivery ++ messagesOf (Uws.delivered trace) := by
          rw [Uws.delivered, List.flatMap_cons, messagesOf, List.filter_append]
          rfl
        rw [hsplit, ← hrest]
        cases e with
        | message d op =>
            have hlt : op < 3 := hop d op List.mem_cons_self
            simp [heard, Uws.Event.delivery, messagesOf, hlt]
        | ping d => rfl
        | pong d => rfl
        | disconnection code message => rfl
        | sent message op => rfl
        | closed => rfl
  exact hgen ch.trace h.opCode

end

/-! ### One step -/

/-- What a call of the owner comes to. -/
inductive Comes (w : World) (ws : Address) (trace : List Uws.Event) : Step → World → Prop where
  | halted {step} (h : Halt) : Comes w ws trace step { w with halted := some h }
  | isConnected : Comes w ws trace .isConnected w
  | sent (pData) (hopen : .closed ∉ trace) : Comes w ws trace (.send pData)
      (w.record [.message ws (cut pData).1 .binary])

/-- A client that is told of its WebSocket calls `send` on it, as long as it is there. -/
theorem World.Follows.comes {w : World} {ws : Address} {trace : List Uws.Event}
    (h : w.Follows ws trace) {step : Step} (hstep : step.ByOwner) :
    Comes w ws trace step (Ws.next w step) := by
  have hadmits : w.Admits step := by
    cases step <;> trivial
  have hmove := next_move step ⟨h.halted, hadmits⟩
  generalize Ws.next w step = w' at hmove
  cases hmove with
  | connected hj => exact absurd (h.mRecvThread.symm.trans hj) (by decide)
  | terminated => exact .halted _
  | isConnected => exact .isConnected
  | sendIdle pData hidle =>
      rcases hidle with hidle | hidle
      · exact absurd (h.isConnected.symm.trans hidle) (by decide)
      · exact absurd (h.stored.symm.trans hidle) nofun
  | sent pData ws' hc hws hl =>
      cases h.stored.symm.trans hws
      obtain ⟨ws', hmem, hws', -⟩ := hl
      cases hws.symm.trans hws'
      exact .sent pData (h.live.mp hmem)
  | dangling => exact .halted _
  | connection | message | disconnection | hubReturn => cases hstep

namespace Stack

/-- **What the client and its WebSocket know of each other**, after `send` was called with
`asked`. -/
structure Sound (Gs : Group) (ws : Address) (asked : List (List Byte)) (s : Stack) : Prop where
  link : s.link.Sound hubGroup.toGroup Gs
  client : s.link.client.ws.channel.Lawful
  server : s.link.server.ws.channel.Lawful
  received : s.client.received <+: (heard s.link.client.ws.channel.trace).map Prod.fst
  handed : posted s.link.client.ws.channel.trace <+: asked.map cut
  follows : s.client.halted = none →
    s.client.Follows ws s.link.client.ws.channel.trace ∧
      posted s.link.client.ws.channel.trace = asked.map cut

section
variable {Gs : Group} {recvBuffer : Nat} {ws : Address} {asked : List (List Byte)} {s : Stack}

theorem sound_opened (Gs : Group) (ws : Address) : Sound Gs ws [] (opened ws) where
  link := Uws.Link.sound_new _ Gs
  client := Channel.lawful_new
  server := Channel.lawful_new
  received := by
    rw [opened, (follows_connectedTo ws).received]
  handed := List.prefix_rfl
  follows := fun _ => ⟨follows_connectedTo ws, rfl⟩

theorem next_halted {w : World} (h : w.halted ≠ none) (step : Step) : Ws.next w step = w :=
  if_neg fun ha => h ha.1

theorem fits_hubGroup : hubGroup.toGroup.Fits := nofun

theorem cut_fits {pData : List Byte} (h : pData.length < 2 ^ 64) :
    Uws.Call.Fits (.send (cut pData).1 .BINARY) :=
  Nat.lt_of_le_of_lt (List.takeWhile_sublist _).length_le h

/-- Nothing is handed over, and nothing is called. -/
theorem next_owner_quiet {step : Step} {oracle : Nat → Mask × Uws.Answer} {w : World}
    (hw : Ws.next s.client step = w) (htr : w.trace = s.client.trace) :
    s.next Gs recvBuffer ws (.owner step oracle) = { s with client := w } := by
  rw [next, hw, htr, List.drop_length]
  rfl

/-- **The owner calls.** -/
theorem Sound.owner (hs : Gs.Fits) (hpad : Uws.CONSUME_PRE_PADDING true ≤ recvBuffer)
    (h : s.Sound Gs ws asked) {step : Step} (hstep : step.ByOwner)
    (oracle : Nat → Mask × Uws.Answer) :
    (s.next Gs recvBuffer ws (.owner step oracle)).Sound Gs ws
      (asked ++ Input.asks (.owner step oracle)) := by
  have hmore : ∀ more, posted s.link.client.ws.channel.trace <+: (asked ++ more).map cut := by
    intro more
    rw [List.map_append]
    exact h.handed.trans (List.prefix_append _ _)
  by_cases hhalt : s.client.halted = none
  · obtain ⟨hfollows, hposted⟩ := h.follows hhalt
    have hcomes := hfollows.comes hstep
    generalize hw : Ws.next s.client step = w at hcomes
    cases hcomes with
    | halted e =>
        rw [next_owner_quiet hw rfl]
        exact ⟨h.link, h.client, h.server, h.received, hmore _,
          fun hno => absurd hno (Option.some_ne_none e)⟩
    | isConnected =>
        rw [next_owner_quiet hw rfl]
        refine ⟨h.link, h.client, h.server, h.received, hmore _, fun _ => ⟨hfollows, ?_⟩⟩
        rw [hposted]
        exact (congrArg (List.map cut) (List.append_nil asked)).symm
    | sent pData hopen =>
        have hclosed : s.link.client.ws.channel.closed = false := by
          rwa [h.client.closed, Bool.not_eq_true] at hopen
        let c : Uws.Call := .send (cut pData).1 .BINARY
        have hallows : s.link.client.Allows recvBuffer s.link.server (.call c) := cut_fits hstep
        have hlink := h.link.step fits_hubGroup hs hpad (.client oracle hallows)
        let e := s.link.client.act hubGroup.toGroup false recvBuffer oracle (.call c)
        have hnext : s.next Gs recvBuffer ws (.owner (.send pData) oracle) =
            ⟨s.client.record [.message ws (cut pData).1 .binary],
              { s.link with client := e }⟩ := by
          rw [next, hw, World.record, List.drop_left]
          rfl
        have htr : e.ws.channel.trace =
            s.link.client.ws.channel.trace ++ [.sent (cut pData).1 .BINARY] := by
          have hch : e.ws.channel = s.link.client.ws.channel.send (cut pData).1 .BINARY :=
            congrArg Uws.WebSocket.channel (Endpoint.become_ws false oracle _ _)
          rw [hch, Channel.send, if_neg (by rw [hclosed]; decide), Channel.record_trace]
        have hlawful : e.ws.channel.Lawful := Endpoint.lawful_act
          (Nat.le_trans (by decide) hpad) h.link.client.wState h.client (.call c) oracle
        have hfollows' := (hfollows.silent (e := .sent (cut pData).1 .BINARY)
          Uws.Event.noConfusion rfl).hand (cut pData).1 .binary
        have hposted' : posted e.ws.channel.trace = (asked ++ [pData]).map cut := by
          rw [htr, posted_append, hposted, List.map_append]
          rfl
        rw [← htr] at hfollows'
        rw [hnext]
        exact ⟨hlink, hlawful, h.server, hfollows'.received ▸ List.prefix_rfl,
          hposted' ▸ List.prefix_rfl, fun _ => ⟨hfollows', hposted'⟩⟩
  · rw [next_owner_quiet (next_halted hhalt step) rfl]
    exact ⟨h.link, h.client, h.server, h.received, hmore _, fun hno => absurd hno hhalt⟩

/-- **Something happens to the client's WebSocket**, and is reported. -/
theorem Sound.client_act (hs : Gs.Fits) (hpad : Uws.CONSUME_PRE_PADDING true ≤ recvBuffer)
    (h : s.Sound Gs ws asked) {act : Endpoint.Act} (hcall : ∀ c, act ≠ .call c)
    (ha : s.link.client.Allows recvBuffer s.link.server act) (oracle : Nat → Mask × Uws.Answer) :
    (s.next Gs recvBuffer ws (.client act oracle)).Sound Gs ws asked := by
  have hpad' : Uws.CONSUME_PRE_PADDING false ≤ recvBuffer := Nat.le_trans (by decide) hpad
  have hlink := h.link.step fits_hubGroup hs hpad (.client oracle ha)
  have hlawful := Endpoint.lawful_act (G := hubGroup.toGroup) hpad' h.link.client.wState h.client
    act oracle
  have hprefix := Endpoint.act_keeps (G := hubGroup.toGroup)
    (Q := fun ch => s.link.client.ws.channel.trace <+: ch.trace) hpad' h.link.client.wState
    List.prefix_rfl (fun h => h.trans (Channel.trace_terminate _))
    (fun _ op h _ => h.trans (Channel.trace_arrive _ op _)) (fun c hc => absurd hc (hcall c)) oracle
  have hposted := Endpoint.act_keeps (G := hubGroup.toGroup)
    (Q := fun ch => posted ch.trace = posted s.link.client.ws.channel.trace) hpad'
    h.link.client.wState rfl (fun h => (posted_terminate _).trans h)
    (fun data op h _ => (posted_arrive data op _).trans h) (fun c hc => absurd hc (hcall c)) oracle
  simp only [next]
  generalize s.link.client.act hubGroup.toGroup false recvBuffer oracle act = e at *
  obtain ⟨events, hevents⟩ := hprefix
  rw [← hevents, List.drop_left]
  have hheard : (heard s.link.client.ws.channel.trace).map Prod.fst <+:
      (heard e.ws.channel.trace).map Prod.fst := by
    rw [← hevents, heard_append, List.map_append]
    exact List.prefix_append _ _
  by_cases hhalt : s.client.halted = none
  · obtain ⟨hfollows, hall⟩ := h.follows hhalt
    have hclosing := closing_of_lawful hlawful
    rw [← hevents] at hclosing
    have hfollows' := hfollows.run hclosing
    rw [hevents] at hfollows'
    exact ⟨hlink, hlawful, h.server, hfollows'.received ▸ List.prefix_rfl, hposted ▸ h.handed,
      fun _ => ⟨hfollows', hposted.trans hall⟩⟩
  · rw [run_eq_self fun step _ => next_halted hhalt step]
    exact ⟨hlink, hlawful, h.server, h.received.trans hheard, hposted ▸ h.handed,
      fun hno => absurd hno hhalt⟩

/-- **The loop of the hub returns**: its WebSocket was deleted before. -/
theorem Sound.hubReturn (h : s.Sound Gs ws asked)
    (hclosed : s.link.client.ws.channel.closed = true) :
    (s.next Gs recvBuffer ws .hubReturn).Sound Gs ws asked := by
  by_cases ha : s.client.halted = none ∧ s.client.Admits .hubReturn
  · have hnext : Ws.next s.client .hubReturn = { s.client with hub := .destroyed } :=
      next_of_ok ha _ rfl
    obtain ⟨hfollows, hall⟩ := h.follows ha.1
    have hmem := h.client.closed.mpr hclosed
    rw [next, hnext]
    exact ⟨h.link, h.client, h.server, h.received, h.handed,
      fun _ => ⟨{ hfollows with hub := fun hno => absurd hmem hno }, hall⟩⟩
  · have hstay : Ws.next s.client .hubReturn = s.client := if_neg ha
    rw [next, hstay]
    exact h

/-- **The step lemma.** -/
theorem Sound.next (hs : Gs.Fits) (hpad : Uws.CONSUME_PRE_PADDING true ≤ recvBuffer)
    (h : s.Sound Gs ws asked) {i : Input} (hi : s.Allows recvBuffer i) :
    (s.next Gs recvBuffer ws i).Sound Gs ws (asked ++ i.asks) := by
  cases i with
  | owner step oracle => exact h.owner hs hpad hi oracle
  | client act oracle =>
      change Sound Gs ws (asked ++ []) _
      rw [List.append_nil]
      exact h.client_act hs hpad hi.1 hi.2 oracle
  | server act oracle =>
      change Sound Gs ws (asked ++ []) _
      rw [List.append_nil]
      exact { h with
        link := h.link.step fits_hubGroup hs hpad (.server oracle hi)
        server := Endpoint.lawful_act hpad h.link.server.wState h.server act oracle }
  | hubReturn =>
      change Sound Gs ws (asked ++ []) _
      rw [List.append_nil]
      exact h.hubReturn hi

/-- **The run lemma.** -/
theorem run_sound (hs : Gs.Fits) (hpad : Uws.CONSUME_PRE_PADDING true ≤ recvBuffer)
    {l : List Input} (hl : Along (Stack.next Gs recvBuffer ws) (Allows recvBuffer) (opened ws) l) :
    (run (Stack.next Gs recvBuffer ws) (opened ws) l).Sound Gs ws (Stack.asked l) := by
  have hgen : ∀ (l : List Input) (asked : List (List Byte)) (s : Stack), s.Sound Gs ws asked →
      Along (Stack.next Gs recvBuffer ws) (Allows recvBuffer) s l →
      (run (Stack.next Gs recvBuffer ws) s l).Sound Gs ws (asked ++ Stack.asked l) := by
    intro l
    induction l with
    | nil =>
        intro asked s h _
        rwa [Stack.asked, List.flatMap_nil, List.append_nil]
    | cons i l ih =>
        intro asked s h hl
        rw [Stack.asked, List.flatMap_cons, ← List.append_assoc]
        exact ih _ _ (h.next hs hpad hl.1) hl.2
  exact hgen l [] _ (sound_opened Gs ws) hl

end

end Stack

/-! ### In order, and all of it -/

/-- The messages a socket has accepted, without the control frames. -/
def accepted (e : Endpoint) : List (List Byte × Byte) := messagesOf (e.sent.map Sent.delivery)

section
variable {Gs : Group} {recvBuffer : Nat} {ws : Address} {l : List Stack.Input}

theorem accepted_sublist {isServer : Bool} {e : Endpoint} {trace : List Uws.Event}
    (h : e.Sound isServer trace) :
    (accepted e).Sublist ((posted trace).map fun m => (m.1, m.2.byte)) := by
  have hsent := (h.sent.filter fun m => m.2.byte < 3).map fun m => (m.1, m.2.byte)
  have haccepted : accepted e = ((e.sent.map fun x => (x.message, x.opCode)).filter
      fun m => m.2.byte < 3).map fun m => (m.1, m.2.byte) := by
    rw [accepted, messagesOf, List.filter_map, List.filter_map, List.map_map]
    rfl
  rw [haccepted]
  exact hsent

end

/-! A string with a zero in it is sent; what arrives of it is answered. -/

def exchange : List Stack.Input :=
  let oracle := fun _ => (fun i => ⟨i⟩, Uws.Answer.taken 100)
  let question : Sent := ⟨fun i => ⟨i⟩, [104], .BINARY⟩
  let answer : Sent := ⟨fun i => ⟨i⟩, [111, 107], .TEXT⟩
  [.owner (.send [104, 0, 105]) oracle,
    .server (.receive (Uws.WebSocket.chunkAt 13 (question.bytes false))) oracle,
    .server (.call (.send [111, 107] .TEXT)) oracle,
    .client (.receive (Uws.WebSocket.chunkAt 13 (answer.bytes true))) oracle]

/-- The two of them, after that. -/
def exchanged : Stack :=
  run (Stack.next Uws.WebSocket.plainGroup 13 7) (Stack.opened 7) exchange

theorem along_exchange : Along (Stack.next Uws.WebSocket.plainGroup 13 7) (Stack.Allows 13)
    (Stack.opened 7) exchange := by
  refine ⟨?_, ?_, ?_, ⟨nofun, ?_⟩, trivial⟩
  · show 3 < 2 ^ 64
    decide
  · show Uws.received 13 _ <+: _
    decide
  · show 2 < 2 ^ 64
    decide
  · show Uws.received 13 _ <+: _
    decide

end PBTransfor.Ws
