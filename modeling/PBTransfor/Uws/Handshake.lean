import PBTransfor.Uws.Headers
import PBTransfor.Uws.Messages

/-!
# Uws — from HTTP to WebSocket

`HttpSocket<CLIENT>::onData`: the answer to the request that `Hub::connect` has sent is read, in
chunks, and when its head is complete and speaks of an upgrade, the socket becomes a WebSocket,
which is given what lies behind the head.

What arrives while the head is not complete is put by, up to 4096 bytes of it; what arrives at once
with the end of the head may be as long as it likes.  So how the stream is cut makes a difference,
exactly when it is longer than that and is accepted (`run_seen_iff`).
-/

namespace PBTransfor.Uws

open Library

def MAX_HEADERS : Nat := 100

def MAX_HEADER_BUFFER_SIZE : Nat := 4096

/-! ### onData -/

/-- What `HttpSocket<CLIENT>::onData` does with the socket. -/
inductive HttpAnswer where
  | waiting (httpBuffer : List Byte)
  | ended
  /-- `data` is what the bytes have become, `rest` the end of it, behind the head. -/
  | upgraded (headers : List Header) (data rest : List Byte)
  deriving DecidableEq, Repr

/-- `HttpSocket<CLIENT>::onData`.  A client has no `contentLength`. -/
def httpOnData (httpBuffer data : List Byte) : HttpAnswer :=
  if httpBuffer ≠ [] ∧ MAX_HEADER_BUFFER_SIZE < httpBuffer.length + data.length then .ended
  else
    let r := getHeaders MAX_HEADERS 0 (httpBuffer ++ data)
    match r.2 with
    | some (headers, rest) =>
        if (getHeader headers (text "upgrade")).isSome then .upgraded headers r.1 rest else .ended
    | none =>
        if httpBuffer = [] ∧ MAX_HEADER_BUFFER_SIZE < data.length then .ended else .waiting r.1

/-- A client's connection. -/
inductive Client where
  | http (httpBuffer : List Byte)
  | webSocket (k : WebSocketState × WebSocket)
  | ended

/-- The program on top of it: its `Group`, and what its `connectionHandler` calls. -/
structure ClientGroup extends Group where
  accept : List Header → List Call

/-- Where things lie: the receive buffer, and the characters of `httpBuffer`. -/
structure Layout where
  recvBuffer : Nat
  httpBuffer : Nat

section
variable (G : ClientGroup) (places : Layout)

/-- The WebSocket, once the `connectionHandler` has been called for it. -/
def ClientGroup.opened (headers : List Header) : WebSocketState × WebSocket :=
  ((WebSocket.new false).1,
    { (WebSocket.new false).2 with channel := (G.accept headers).foldl Channel.call {} })

/-- So many bytes have arrived in the receive buffer. -/
def Client.onData (c : Client) (recv : Memory Byte × Nat) : Client :=
  match c with
  | .http httpBuffer =>
      match httpOnData httpBuffer (received places.recvBuffer recv) with
      | .waiting httpBuffer => .http httpBuffer
      | .ended => .ended
      | .upgraded headers data rest =>
          let start := if httpBuffer = [] then places.recvBuffer else places.httpBuffer
          -- `*end = '\r'`
          let mem := store recv.1 start (data ++ [13])
          .webSocket ((WebSocket.impl G.toGroup).onData false
            (start + (data.length - rest.length)) (G.opened headers) (mem, rest.length))
  | .webSocket k => .webSocket ((WebSocket.impl G.toGroup).onData false places.recvBuffer k recv)
  | .ended => .ended

/-- What can be seen of it. -/
inductive Seen where
  | connecting
  | failed
  | open (channel : Channel)

def Client.seen : Client → Seen
  | .http _ => .connecting
  | .webSocket k => .open k.2.channel
  | .ended => .failed

end

namespace Client

variable {G : ClientGroup} {places : Layout} {b c : List Byte} {x : Client}

/-- The chunks that arrive at a client. -/
def run (G : ClientGroup) (places : Layout) (recvs : List (Memory Byte × Nat)) : Client :=
  recvs.foldl (onData G places) (.http [])

/-- There is a complete head at the front of `b`, with these headers. -/
def HeadOf (b : List Byte) (headers : List Header) (rest : List Byte) : Prop :=
  (getHeaders MAX_HEADERS 0 b).2 = some (headers, rest)

/-- It speaks of an upgrade. -/
def Upgrades (headers : List Header) : Prop := (getHeader headers (text "upgrade")).isSome = true

/-- A stream that is accepted. -/
def Accepts (b : List Byte) : Prop := ∃ headers rest, HeadOf b headers rest ∧ Upgrades headers

/-- The frame-by-frame reader, once the `connectionHandler` has been called. -/
def reader (G : ClientGroup) (headers : List Header) : Receiver WebSocket :=
  { impl := (G.opened headers).2, finished := (G.opened headers).2.channel.ended }

/-! ### A stream that is not cut -/

/-- What is to be seen of a stream: its head is complete, and what is behind it is read frame by
frame; or it is not. -/
def expected (G : ClientGroup) (b : List Byte) : Seen :=
  match (getHeaders MAX_HEADERS 0 b).2 with
  | some (headers, rest) =>
      if (getHeader headers (text "upgrade")).isSome then
        .open (drain (Receiver.step (WebSocket.impl G.toGroup) false)
          (reader G headers) rest).1.impl.channel
      else .failed
  | none => if MAX_HEADER_BUFFER_SIZE < b.length then .failed else .connecting

theorem expected_upgraded {headers : List Header} {rest : List Byte}
    (hhead : (getHeaders MAX_HEADERS 0 b).2 = some (headers, rest))
    (hup : (getHeader headers (text "upgrade")).isSome = true) :
    expected G b = .open (drain (Receiver.step (WebSocket.impl G.toGroup) false)
      (reader G headers) rest).1.impl.channel := by
  rw [expected, hhead]
  exact if_pos hup

/-- The messages behind the head arrive, until it is over. -/
theorem drain_opened {sent : List (Mask × Frame)} {ms : List (List Byte × Byte)}
    (h : Carries none (sent.map Prod.snd) ms)
    (hlen : ∀ f ∈ sent, f.2.data.length ≤ G.maxPayload.toNat) (headers : List Header) :
    (drain (Receiver.step (WebSocket.impl G.toGroup) false) (reader G headers)
        (WebSocket.framesBytes false sent)).1.impl.channel =
      Channel.arriveAll G.toGroup ms ((G.accept headers).foldl Channel.call {}) := by
  cases he : (G.opened headers).2.channel.ended with
  | true =>
      rw [drain_over he]
      exact (Channel.arriveAll_ended he ms).symm
  | false =>
      have hq : WebSocket.Amid none (reader G headers) :=
        { notOver := he, ready := ⟨he, rfl, rfl⟩, opCodes := rfl, buffer := rfl,
          lastFin := fun _ => rfl, data := nofun }
      rw [WebSocket.drain_carries h rfl (List.forall_mem_map.mpr hlen) hq]
      rfl

/-! ### What has arrived -/

theorem reads_opened (headers : List Header) :
    Reads (WebSocket.steady G.toGroup) false (G.opened headers) (reader G headers, []) := by
  cases he : (G.opened headers).2.channel.ended with
  | true => exact .finished he he rfl
  | false =>
      have hb : Between (WebSocket.steady G.toGroup) (G.opened headers).1 (reader G headers) :=
        { notOver := he, ready := ⟨he, rfl, rfl⟩, stack := rfl, lastFin := rfl, data := nofun }
      refine .head hb rfl rfl rfl ((Receiver.contract (WebSocket.impl G.toGroup) false).step_nil _)
        ?_
      exact Nat.lt_of_lt_of_le (Nat.lt_of_lt_of_le Nat.two_pos (two_le_short false))
        (short_le_headerLength false [])

/-- The bytes `b` have arrived. -/
inductive Received (G : ClientGroup) (b : List Byte) : Client → Prop where
  | http (hnone : (getHeaders MAX_HEADERS 0 b).2 = none)
      (hlen : b.length ≤ MAX_HEADER_BUFFER_SIZE) :
      Received G b (.http (getHeaders MAX_HEADERS 0 b).1)
  | webSocket {k headers rest} (hhead : HeadOf b headers rest) (hup : Upgrades headers)
      (hreads : Reads (WebSocket.steady G.toGroup) false k
        (drain (Receiver.step (WebSocket.impl G.toGroup) false) (reader G headers) rest)) :
      Received G b (.webSocket k)
  | refused {headers rest} (hhead : HeadOf b headers rest) (hno : ¬ Upgrades headers) :
      Received G b .ended
  | long (hlen : MAX_HEADER_BUFFER_SIZE < b.length) : Received G b .ended

theorem HeadOf.append {headers : List Header} {rest : List Byte} (h : HeadOf b headers rest)
    (c : List Byte) : HeadOf (b ++ c) headers (rest ++ c) := getHeaders_append c h

/-- A head that speaks of an upgrade is longer than what `consume` may write in front of what it is
given. -/
theorem HeadOf.front {headers : List Header} {rest : List Byte} (h : HeadOf b headers rest)
    (hup : Upgrades headers) : ∃ front, (getHeaders MAX_HEADERS 0 b).1 = front ++ rest ∧
      CONSUME_PRE_PADDING false ≤ front.length := by
  obtain ⟨front, hfront, -, hroom⟩ := getHeaders_front h
  refine ⟨front, hfront, ?_⟩
  obtain ⟨header, hheader⟩ := Option.isSome_iff_exists.mp hup
  have hmem : header ∈ headers := List.mem_of_mem_tail (List.mem_of_find?_eq_some hheader)
  have hkey : header.key = text "upgrade" := by
    simpa using List.find?_some hheader
  have hlen : (text "upgrade").length = 7 := by decide
  have hfits : 7 + 5 ≤ front.length := by
    rw [← hlen, ← hkey]
    exact hroom header hmem
  exact Nat.le_trans (by decide) hfits

/-- What the socket does once the bytes `b` have arrived. -/
inductive Answers (b : List Byte) : HttpAnswer → Prop where
  | waiting (hnone : (getHeaders MAX_HEADERS 0 b).2 = none)
      (hlen : b.length ≤ MAX_HEADER_BUFFER_SIZE) :
      Answers b (.waiting (getHeaders MAX_HEADERS 0 b).1)
  | upgraded {headers rest} (hhead : HeadOf b headers rest) (hup : Upgrades headers) :
      Answers b (.upgraded headers (getHeaders MAX_HEADERS 0 b).1 rest)
  | refused {headers rest} (hhead : HeadOf b headers rest) (hno : ¬ Upgrades headers) :
      Answers b .ended
  | long (hlen : MAX_HEADER_BUFFER_SIZE < b.length) : Answers b .ended

theorem httpOnData_answers (b c : List Byte) :
    Answers (b ++ c) (httpOnData (getHeaders MAX_HEADERS 0 b).1 c) := by
  have hbuf : (getHeaders MAX_HEADERS 0 b).1.length = b.length := length_getHeaders
  have hempty : (getHeaders MAX_HEADERS 0 b).1 = [] ↔ b = [] := by
    rw [← List.length_eq_zero_iff, hbuf, List.length_eq_zero_iff]
  have hlen : (b ++ c).length = b.length + c.length := List.length_append
  rw [httpOnData, getHeaders_retry, hbuf]
  by_cases hlong : (getHeaders MAX_HEADERS 0 b).1 ≠ [] ∧
      MAX_HEADER_BUFFER_SIZE < b.length + c.length
  · rw [if_pos hlong]
    exact .long (hlen ▸ hlong.2)
  rw [if_neg hlong]
  cases hhead : (getHeaders MAX_HEADERS 0 (b ++ c)).2 with
  | some found =>
      obtain ⟨headers, rest⟩ := found
      simp only [hhead]
      split
      · next hup => exact .upgraded hhead hup
      · next hno => exact .refused hhead hno
  | none =>
      simp only [hhead]
      split
      · next hfirst => exact .long (by omega)
      · next hfirst =>
          refine .waiting hhead ?_
          -- the first chunk is measured after the head is looked for, later ones before
          by_cases hb₀ : b = []
          · have hc : ¬ MAX_HEADER_BUFFER_SIZE < c.length := fun h => hfirst ⟨hempty.mpr hb₀, h⟩
            have hzero : b.length = 0 := List.length_eq_zero_iff.mpr hb₀
            omega
          · have hc : ¬ MAX_HEADER_BUFFER_SIZE < b.length + c.length :=
              fun h => hlong ⟨fun h' => hb₀ (hempty.mp h'), h⟩
            omega

/-- What `consume` is given is what is behind the head, wherever it lies. -/
theorem received_rest (mem : Memory Byte) (start : Nat) (front rest : List Byte) :
    received (start + ((front ++ rest).length - rest.length))
      (store mem start (front ++ rest ++ [13]), rest.length) = rest := by
  have hread := read_store mem start (front ++ rest ++ [13])
  have hlen : (front ++ rest ++ [13]).length = front.length + (rest.length + 1) := by
    simp only [List.length_append, List.length_singleton]
    omega
  have hparts : front ++ rest ++ [13] = front ++ (rest ++ [13]) := List.append_assoc ..
  rw [received, List.length_append, Nat.add_sub_cancel]
  rw [hlen, read_add, read_add] at hread
  have hrest := (List.append_inj (hread.trans hparts) (length_read _ _ _)).2
  exact (List.append_inj hrest (length_read _ _ _)).1

/-- What is behind the head is read frame by frame. -/
theorem reads_rest (mem : Memory Byte) (start : Nat) {front : List Byte}
    (hroom : CONSUME_PRE_PADDING false ≤ front.length) (headers : List Header)
    (rest : List Byte) :
    Reads (WebSocket.steady G.toGroup) false
      ((WebSocket.impl G.toGroup).onData false
        (start + ((front ++ rest).length - rest.length)) (G.opened headers)
        (store mem start (front ++ rest ++ [13]), rest.length))
      (drain (Receiver.step (WebSocket.impl G.toGroup) false) (reader G headers) rest) := by
  have hpad : CONSUME_PRE_PADDING false ≤ start + ((front ++ rest).length - rest.length) := by
    rw [List.length_append, Nat.add_sub_cancel]
    omega
  have hreads := onData_refines (WebSocket.steady G.toGroup) hpad (G.opened headers)
    (reader G headers, []) (store mem start (front ++ rest ++ [13]), rest.length)
    (reads_opened headers)
  rwa [received_rest, feed, List.nil_append] at hreads

/-- **The step lemma.** -/
theorem Received.step (hpad : CONSUME_PRE_PADDING false ≤ places.recvBuffer)
    (h : Received G b x) (recv : Memory Byte × Nat) :
    Received G (b ++ received places.recvBuffer recv) (x.onData G places recv) := by
  cases h with
  | refused hhead hno => exact .refused (hhead.append _) hno
  | long hlen => exact .long (by rw [List.length_append]; omega)
  | @webSocket k headers rest hhead hup hreads =>
      refine .webSocket (hhead.append _) hup ?_
      rw [(Receiver.contract (WebSocket.impl G.toGroup) false).drain_append]
      exact onData_refines (WebSocket.steady G.toGroup) hpad _ _ recv hreads
  | http hnone hlen =>
      have hanswers := httpOnData_answers b (received places.recvBuffer recv)
      rw [onData]
      cases hanswer : httpOnData (getHeaders MAX_HEADERS 0 b).1
          (received places.recvBuffer recv) with
      | waiting httpBuffer =>
          rw [hanswer] at hanswers
          cases hanswers with
          | waiting hnone hlen => exact .http hnone hlen
      | ended =>
          rw [hanswer] at hanswers
          cases hanswers with
          | refused hhead hno => exact .refused hhead hno
          | long hlen => exact .long hlen
      | upgraded headers data rest =>
          rw [hanswer] at hanswers
          cases hanswers with
          | upgraded hhead hup =>
              obtain ⟨front, hfront, hroom⟩ := hhead.front hup
              refine .webSocket hhead hup ?_
              rw [hfront]
              exact reads_rest _ _ hroom headers rest

/-- **The run lemma.** -/
theorem received_run (hpad : CONSUME_PRE_PADDING false ≤ places.recvBuffer)
    (recvs : List (Memory Byte × Nat)) :
    Received G (WebSocket.stream places.recvBuffer recvs) (run G places recvs) := by
  have hgen : ∀ (recvs : List (Memory Byte × Nat)) (b : List Byte) (x : Client), Received G b x →
      Received G (b ++ WebSocket.stream places.recvBuffer recvs)
        (recvs.foldl (onData G places) x) := by
    intro recvs
    induction recvs with
    | nil =>
        intro b x h
        rwa [WebSocket.stream, List.flatMap_nil, List.append_nil]
    | cons recv recvs ih =>
        intro b x h
        rw [WebSocket.stream, List.flatMap_cons, ← List.append_assoc]
        exact ih _ _ (h.step hpad recv)
  have hnone : (getHeaders MAX_HEADERS 0 []).2 = none := by decide
  exact hgen recvs [] _ (.http hnone (Nat.zero_le _))

/-- **What is to be seen of a stream**, however it is cut, if it is no longer than what is put by,
or is not accepted. -/
theorem Received.seen_eq (h : Received G b x)
    (hb : b.length ≤ MAX_HEADER_BUFFER_SIZE ∨ ¬ Accepts b) : x.seen = expected G b := by
  cases h with
  | http hnone hlen =>
      rw [expected, hnone]
      exact (if_neg (Nat.not_lt.mpr hlen)).symm
  | webSocket hhead hup hreads =>
      rw [expected_upgraded hhead hup]
      exact congrArg Seen.open (WebSocket.reads_channel hreads)
  | refused hhead hno =>
      rw [expected, hhead]
      exact (if_neg hno).symm
  | long hlen =>
      have hno : ¬ Accepts b := hb.resolve_left (Nat.not_le.mpr hlen)
      rw [expected]
      cases hhead : (getHeaders MAX_HEADERS 0 b).2 with
      | none => exact (if_pos hlen).symm
      | some found => exact (if_neg fun hup => hno ⟨found.1, found.2, hhead, hup⟩).symm

/-- A stream that is accepted is accepted in one piece. -/
theorem seen_whole (G : ClientGroup) (places : Layout) (hb : Accepts b) :
    ∃ ch, (run G places [WebSocket.chunkAt places.recvBuffer b]).seen = .open ch := by
  obtain ⟨headers, rest, hhead, hup⟩ := hb
  have hone : run G places [WebSocket.chunkAt places.recvBuffer b] =
      onData G places (.http []) (WebSocket.chunkAt places.recvBuffer b) := rfl
  have hrecv : received places.recvBuffer (WebSocket.chunkAt places.recvBuffer b) = b := by
    rw [received, WebSocket.chunkAt, read_store]
  have hanswer : httpOnData [] b = .upgraded headers (getHeaders MAX_HEADERS 0 b).1 rest := by
    simp only [httpOnData, ne_eq, not_true_eq_false, false_and, if_false, List.nil_append]
    rw [hhead]
    exact if_pos hup
  rw [hone, onData, hrecv, hanswer]
  exact ⟨_, rfl⟩

/-- A stream that is too long is refused when its first byte arrives alone. -/
theorem seen_cut (G : ClientGroup) (places : Layout) (hb : MAX_HEADER_BUFFER_SIZE < b.length) :
    (run G places [WebSocket.chunkAt places.recvBuffer (b.take 1),
      WebSocket.chunkAt places.recvBuffer (b.drop 1)]).seen = .failed := by
  obtain ⟨d, t, rfl⟩ := List.exists_cons_of_length_pos (Nat.zero_lt_of_lt hb)
  have hrecv : ∀ c, received places.recvBuffer (WebSocket.chunkAt places.recvBuffer c) = c := by
    intro c
    rw [received, WebSocket.chunkAt, read_store]
  have hnone : (getHeaders MAX_HEADERS 0 [d]).2 = none := by
    by_contra h
    obtain ⟨found, hfound⟩ := Option.ne_none_iff_exists'.mp h
    obtain ⟨ls, key, -, hbytes, -⟩ := getHeaders_iff.mp hfound
    have hlen := congrArg List.length hbytes
    simp only [List.length_append, List.length_cons, List.length_nil] at hlen
    omega
  have hfirst : httpOnData [] [d] = .waiting (getHeaders MAX_HEADERS 0 [d]).1 := by
    simp only [httpOnData, ne_eq, not_true_eq_false, false_and, if_false, List.nil_append, hnone,
      true_and]
    exact if_neg (by rw [List.length_singleton]; decide)
  have hlength : (getHeaders MAX_HEADERS 0 [d]).1.length = 1 := length_getHeaders
  have hsecond : httpOnData (getHeaders MAX_HEADERS 0 [d]).1 t = .ended := by
    refine if_pos ⟨List.ne_nil_of_length_pos (by omega), ?_⟩
    rw [hlength]
    rwa [List.length_cons, Nat.add_comm] at hb
  have hrun : run G places [WebSocket.chunkAt places.recvBuffer [d],
      WebSocket.chunkAt places.recvBuffer t] = onData G places (onData G places (.http [])
        (WebSocket.chunkAt places.recvBuffer [d])) (WebSocket.chunkAt places.recvBuffer t) := rfl
  have htake : (d :: t).take 1 = [d] := rfl
  have hdrop : (d :: t).drop 1 = t := rfl
  rw [htake, hdrop, hrun, onData, hrecv, hfirst]
  dsimp only
  rw [onData, hrecv, hsecond]
  rfl

/-- **When it makes no difference how a stream is cut**: exactly when it is no longer than what is
put by of a head, or is not accepted. -/
theorem run_seen_iff (G : ClientGroup) (places : Layout)
    (hpad : CONSUME_PRE_PADDING false ≤ places.recvBuffer) (b : List Byte) :
    (∀ recvs recvs', WebSocket.stream places.recvBuffer recvs = b →
      WebSocket.stream places.recvBuffer recvs' = b →
      (run G places recvs).seen = (run G places recvs').seen) ↔
    b.length ≤ MAX_HEADER_BUFFER_SIZE ∨ ¬ Accepts b := by
  constructor
  · intro h
    by_contra hno
    obtain ⟨hlong, haccepts⟩ := not_or.mp hno
    obtain ⟨ch, hwhole⟩ := seen_whole G places (not_not.mp haccepts)
    have hcut := seen_cut G places (Nat.not_le.mp hlong)
    have hsame := h [WebSocket.chunkAt places.recvBuffer b]
      [WebSocket.chunkAt places.recvBuffer (b.take 1),
        WebSocket.chunkAt places.recvBuffer (b.drop 1)]
      (WebSocket.stream_chunkAt places.recvBuffer b)
      (by
        simp only [WebSocket.stream, List.flatMap_cons, List.flatMap_nil, List.append_nil,
          received, WebSocket.chunkAt, read_store, List.take_append_drop])
    rw [hwhole, hcut] at hsame
    cases hsame
  · intro hb recvs recvs' h h'
    have hrun : Received G b (run G places recvs) := h ▸ received_run hpad recvs
    have hrun' : Received G b (run G places recvs') := h' ▸ received_run hpad recvs'
    rw [hrun.seen_eq hb, hrun'.seen_eq hb]

/-- A program that does nothing. -/
def plainClients : ClientGroup := { WebSocket.plainGroup with accept := fun _ => [] }

def notFound : List Byte := text "HTTP/1.1 404 Not Found\r\n\r\n"

/-- An answer that is short, in one piece and in two. -/
theorem run_seen_iff_short :
    (run plainClients ⟨13, 600⟩ [WebSocket.chunkAt 13 (notFound.take 5),
      WebSocket.chunkAt 13 (notFound.drop 5)]).seen =
    (run plainClients ⟨13, 600⟩ [WebSocket.chunkAt 13 notFound]).seen := by
  refine (run_seen_iff plainClients ⟨13, 600⟩ (by decide) notFound).mpr (Or.inl (by decide)) _ _
    ?_ (WebSocket.stream_chunkAt 13 notFound)
  simp only [WebSocket.stream, List.flatMap_cons, List.flatMap_nil, List.append_nil, received,
    WebSocket.chunkAt, read_store, List.take_append_drop]

end Client

end PBTransfor.Uws
