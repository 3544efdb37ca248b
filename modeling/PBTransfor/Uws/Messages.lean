import PBTransfor.Uws.WebSocket

/-!
# Uws — messages

What a WebSocket does with a stream is decided by the bytes of the stream.

* `run_cut`: two ways to cut a stream come to the same; with compression they need not
  (`run_cut_iff`).
* `Carries`: the messages a sequence of frames carries, in one frame each or in several, and the
  control frames between them.
* `run_carries`: these arrive, in order, and each once.
-/

namespace PBTransfor.Uws

open Library

namespace WebSocket

/-! ### The bytes of a stream decide -/

/-- The chunks that arrive at a WebSocket. -/
def run (G : Group) (isServer : Bool) (recvBuffer : Nat) (k : WebSocketState × WebSocket)
    (recvs : List (Memory Byte × Nat)) : WebSocketState × WebSocket :=
  recvs.foldl ((impl G).onData isServer recvBuffer) k

/-- The bytes of the chunks. -/
def stream (recvBuffer : Nat) (recvs : List (Memory Byte × Nat)) : List Byte :=
  recvs.flatMap (received recvBuffer)

/-- The frame-by-frame reader of a WebSocket that has just been made. -/
def reader : Receiver WebSocket := { impl := (new false).2 }

section
variable {G : Group} {isServer : Bool} {recvBuffer : Nat}

theorem reads_new : Reads (steady G) isServer (new false) (reader, []) := by
  have hb : Between (steady G) (new false).1 reader :=
    { notOver := rfl, ready := ⟨rfl, rfl, rfl⟩, stack := rfl, lastFin := rfl, data := nofun }
  refine .head hb rfl rfl rfl ((Receiver.contract (impl G) isServer).step_nil reader) ?_
  exact Nat.lt_of_lt_of_le (Nat.lt_of_lt_of_le Nat.two_pos (two_le_short isServer))
    (short_le_headerLength isServer [])

/-- What can be seen is what the frame-by-frame reader sees. -/
theorem reads_channel {k : WebSocketState × WebSocket} {q : Receiver WebSocket × List Byte}
    (h : Reads (steady G) isServer k q) : k.2.channel = q.1.impl.channel := by
  cases h with
  | finished _ _ ho => exact ho
  | head => rfl
  | body hin =>
      exact (hin.entered.hand_missing (steady G) hin.ready hin.data hin.length_framePayload
        hin.missing).2.2

/-- **What can be seen of a WebSocket depends on the bytes that have arrived alone.** -/
theorem run_channel (hpad : CONSUME_PRE_PADDING isServer ≤ recvBuffer)
    (recvs : List (Memory Byte × Nat)) :
    (run G isServer recvBuffer (new false) recvs).2.channel =
      (drain (Receiver.step (impl G) isServer) reader (stream recvBuffer recvs)).1.impl.channel :=
  reads_channel ((onData_refines (steady G) hpad).foldl_feed
    (Receiver.contract (impl G) isServer) reads_new recvs)

/-- **It makes no difference how a stream is cut**, nor where the receive buffer lies. -/
theorem run_cut {recvBuffer' : Nat} (hpad : CONSUME_PRE_PADDING isServer ≤ recvBuffer)
    (hpad' : CONSUME_PRE_PADDING isServer ≤ recvBuffer') {recvs recvs' : List (Memory Byte × Nat)}
    (h : stream recvBuffer recvs = stream recvBuffer' recvs') :
    (run G isServer recvBuffer (new false) recvs).2.channel =
      (run G isServer recvBuffer' (new false) recvs').2.channel := by
  rw [run_channel hpad, run_channel hpad', h]

end

/-! A compressed frame is marked as such where its header begins, and that it is marked already is
what refuses the frame.  A header of four bytes, or eight, is begun anew when it arrives in two
chunks. -/

/-- A header that announces 126 bytes, compressed. -/
def compressedHeader (isServer : Bool) : List Byte :=
  if isServer then [0xC1, 0xFE, 0, 126, 1, 2, 3, 4] else [0xC1, 126, 0, 126]

/-- A chunk, as it lies in the buffer. -/
def chunkAt (recvBuffer : Nat) (bytes : List Byte) : Memory Byte × Nat :=
  (store (fun _ => 0) recvBuffer bytes, bytes.length)

def plainGroup : Group := ⟨16777216, fun _ => none, fun _ => []⟩

/-- The header in one piece, and in two. -/
theorem compressedHeader_cut (isServer : Bool) :
    let k := new true
    let b := compressedHeader isServer
    (run plainGroup isServer 13 k [chunkAt 13 b]).2.channel.closed = false ∧
      (run plainGroup isServer 13 k [chunkAt 13 (b.take (b.length - 2)),
        chunkAt 13 (b.drop (b.length - 2))]).2.channel.closed = true := by
  cases isServer <;> decide

theorem stream_chunkAt (recvBuffer : Nat) (b : List Byte) :
    stream recvBuffer [chunkAt recvBuffer b] = b := by
  rw [stream, List.flatMap_singleton, received, chunkAt, read_store]

end WebSocket

/-! ### The messages of a sequence of frames -/

/-- `Carries m fs ms`: behind `m`, the front of a message if one has begun, the frames `fs` carry
the messages and the payloads of control frames `ms`, in the order in which they are complete. -/
inductive Carries : Option (Byte × List Byte) → List Frame → List (List Byte × Byte) → Prop where
  | nil {m} : Carries m [] []
  | whole {op data fs ms} (hop : op = 1 ∨ op = 2) (t : Carries none fs ms) :
      Carries none (⟨true, op, data⟩ :: fs) ((data, op) :: ms)
  | first {op data fs ms} (hop : op = 1 ∨ op = 2) (t : Carries (some (op, data)) fs ms) :
      Carries none (⟨false, op, data⟩ :: fs) ms
  | more {op buffer data fs ms} (t : Carries (some (op, buffer ++ data)) fs ms) :
      Carries (some (op, buffer)) (⟨false, 0, data⟩ :: fs) ms
  | last {op buffer data fs ms} (t : Carries none fs ms) :
      Carries (some (op, buffer)) (⟨true, 0, data⟩ :: fs) ((buffer ++ data, op) :: ms)
  | control {m op data fs ms} (hop : op = 8 ∨ op = 9 ∨ op = 10) (hlen : data.length ≤ 125)
      (t : Carries m fs ms) : Carries m (⟨true, op, data⟩ :: fs) ((data, op) :: ms)

namespace Channel

/-- The messages arrive, until it is over. -/
def arriveAll (G : Group) (ms : List (List Byte × Byte)) (ch : Channel) : Channel :=
  ms.foldl (fun ch m => if ch.ended then ch else (ch.arrive G m.1 m.2).2) ch

theorem arriveAll_ended {G : Group} {ch : Channel} (h : ch.ended = true)
    (ms : List (List Byte × Byte)) : arriveAll G ms ch = ch := by
  induction ms with
  | nil => rfl
  | cons m ms ih =>
      rw [arriveAll, List.foldl_cons, if_pos h]
      exact ih

theorem arriveAll_cons {G : Group} {ch : Channel} (h : ch.ended = false) (data : List Byte)
    (op : Byte) (ms : List (List Byte × Byte)) :
    arriveAll G ((data, op) :: ms) ch = arriveAll G ms (ch.arrive G data op).2 := by
  rw [arriveAll, List.foldl_cons, if_neg (by rw [h]; decide)]
  rfl

end Channel

namespace WebSocket

variable {G : Group} {isServer : Bool}

/-- What the reader of a WebSocket keeps of the message that has begun. -/
structure Amid (m : Option (Byte × List Byte)) (q : Receiver WebSocket) : Prop where
  notOver : q.finished = false
  ready : q.impl.Ready
  opCodes : q.opCodes = (m.map Prod.fst).toList
  buffer : q.impl.fragmentBuffer = (m.map Prod.snd).getD []
  lastFin : m = none → q.lastFin = true
  data : ∀ op ∈ q.opCodes, op < 3

/-- The frame at the front is read, if it is not refused. -/
theorem step_frame (isServer : Bool) {q : Receiver WebSocket} (hq : q.finished = false)
    (random : Mask) {f : Frame} (hf : f.WellFormed) (hlen : f.data.length ≤ G.maxPayload.toNat)
    (hbegin : f.opCode ≠ 0 → q.opCodes.length ≠ 2 ∧ (q.lastFin = false → ¬ f.opCode < 2))
    (hmore : f.opCode = 0 → q.opCodes ≠ []) (rest : List Byte) :
    let opCodes := if f.opCode ≠ 0 then f.opCode :: q.opCodes else q.opCodes
    Receiver.step (impl G) isServer q (f.bytes (!isServer) random ++ rest) = some
      (match q.impl.handleFragment G f.data 0 (opCodes.headD 0) f.fin with
        | (true, impl) => { q with finished := true, impl := impl }
        | (false, impl) => ⟨if f.fin then opCodes.tail else opCodes, f.fin, false, impl⟩,
        rest) := by
  intro opCodes
  obtain ⟨hop, hfin, hmal, hN, hpay, hfit, hdrop⟩ :=
    Frame.front (!isServer) random hf.opCode hf.length rest
  have hmal : frameMalformed (f.bytes (!isServer) random ++ rest) = false := by
    rw [← Bool.not_eq_true, hmal]
    rintro ⟨hctl, hno⟩
    obtain ⟨hyes, hle⟩ := hf.control hctl
    rcases hno with hno | hgt
    · exact absurd (hyes.symm.trans hno) (by decide)
    · omega
  generalize f.bytes (!isServer) random ++ rest = b at hop hfin hmal hN hpay hfit hdrop ⊢
  rw [Bool.not_not] at hpay hfit hdrop
  have hshort := short_le_headerLength isServer b
  have hrefuse : ¬ q.Refuses (impl G) b := by
    rw [Receiver.Refuses, hop, hN]
    rintro (⟨h0, h2 | h2⟩ | ⟨h0, h2⟩ | h)
    · exact (hbegin h0).1 h2
    · exact (hbegin h0).2 h2.1 h2.2
    · exact hmore h0 h2
    · exact absurd hlen (Nat.not_le.mpr (by simpa [impl, refusePayloadLength] using h))
  have hbegun : q.begun b = opCodes := by rw [Receiver.begun, hop]
  rw [Receiver.step, if_neg (by rw [hq]; simp; omega), if_neg (by rw [hmal]; decide),
    if_neg (by omega), if_neg hrefuse, if_neg (by omega), hN, hdrop, hpay, Receiver.hand, hbegun,
    hfin]
  congr 2
  show Receiver.finish q b (q.impl.handleFragment G f.data 0 (opCodes.headD 0) f.fin) = _
  rcases q.impl.handleFragment G f.data 0 (opCodes.headD 0) f.fin with ⟨_ | _, impl⟩
  · rw [Receiver.finish, hfin, hbegun]
  · rfl

/-- A frame of a message. -/
theorem wellFormed_data (fin : Bool) {op : Byte} {data : List Byte} (hop : op = 0 ∨ op = 1 ∨ op = 2)
    (hlen : data.length < 2 ^ 64) : (Frame.mk fin op data).WellFormed where
  opCode := by rcases hop with rfl | rfl | rfl <;> simp
  control := by
    show 2 < op → _
    intro h
    rcases hop with rfl | rfl | rfl <;> exact absurd h (by decide)
  length := hlen

theorem wellFormed_control {op : Byte} {data : List Byte} (hop : op = 8 ∨ op = 9 ∨ op = 10)
    (hlen : data.length ≤ 125) : (Frame.mk true op data).WellFormed where
  opCode := by rcases hop with rfl | rfl | rfl <;> simp
  control := fun _ => ⟨rfl, hlen⟩
  length := Nat.lt_of_le_of_lt hlen (by decide)

theorem payload_lt {n : Nat} (h : n ≤ G.maxPayload.toNat) : n < 2 ^ 64 :=
  Nat.lt_of_le_of_lt h (Nat.lt_trans G.maxPayload.toNat_lt (by decide))

/-- The frame at the front of `b` completes `data`: it arrives, and if it is not over with that,
`m` is what has begun of a message. -/
def Completes (G : Group) (isServer : Bool) (q : Receiver WebSocket) (b rest data : List Byte)
    (op : Byte) (m : Option (Byte × List Byte)) : Prop :=
  ∃ q', Receiver.step (impl G) isServer q b = some (q', rest) ∧
    q'.impl.channel = (q.impl.channel.arrive G data op).2 ∧
    if (q.impl.channel.arrive G data op).1 then q'.finished = true else Amid m q'

/-- The frame is a part of a message that goes on. -/
def Continues (G : Group) (isServer : Bool) (q : Receiver WebSocket) (b rest : List Byte)
    (m : Option (Byte × List Byte)) : Prop :=
  ∃ q', Receiver.step (impl G) isServer q b = some (q', rest) ∧
    q'.impl.channel = q.impl.channel ∧ Amid m q'

section
variable {m : Option (Byte × List Byte)} {q : Receiver WebSocket} {b rest data buffer : List Byte}
  {op : Byte} {random : Mask}

theorem completes_of_agree {r : Bool × WebSocket} {w : WebSocket} {opCodes : List Byte}
    (hstep : Receiver.step (impl G) isServer q b = some
      (match r with
        | (true, impl) => { q with finished := true, impl := impl }
        | (false, impl) => ⟨opCodes, true, false, impl⟩, rest))
    (hag : Agree channel r (w.answer (q.impl.channel.arrive G data op)))
    (hready : r.1 = false → r.2.Ready) (hops : opCodes = (m.map Prod.fst).toList)
    (hbuf : w.fragmentBuffer = (m.map Prod.snd).getD []) (hdata : ∀ op ∈ opCodes, op < 3) :
    Completes G isServer q b rest data op m := by
  obtain ⟨hstop, hobs, hgo⟩ := hag
  have hr : r.1 = (q.impl.channel.arrive G data op).1 := hstop
  rcases r with ⟨_ | _, impl⟩
  · refine ⟨⟨opCodes, true, false, impl⟩, hstep, hobs, ?_⟩
    rw [if_neg (by rw [← hr]; exact Bool.false_ne_true)]
    have himpl : impl = (w.answer (q.impl.channel.arrive G data op)).2 := hgo rfl
    exact { notOver := rfl, ready := hready rfl, opCodes := hops, lastFin := fun _ => rfl,
            data := hdata, buffer := by rw [himpl]; exact hbuf }
  · exact ⟨_, hstep, hobs, by rw [if_pos hr.symm]⟩

/-- A message in one frame. -/
theorem completes_whole (hq : Amid none q) (hop : op = 1 ∨ op = 2)
    (hlen : data.length ≤ G.maxPayload.toNat) : Completes G isServer q
      ((Frame.mk true op data).bytes (!isServer) random ++ rest) rest data op none := by
  have hop3 : op < 3 := by rcases hop with rfl | rfl <;> decide
  have h0 : op ≠ 0 := by rcases hop with rfl | rfl <;> decide
  have hnil : q.opCodes = [] := hq.opCodes
  have hmsg := handleFragment_message (G := G) (d := data) hop3 hq.ready.disabled
  rw [show q.impl.fragmentBuffer = [] from hq.buffer, List.nil_append,
    ← Channel.arrive_of_lt hop3] at hmsg
  have hstep := step_frame isServer hq.notOver random
    (wellFormed_data true (Or.inr hop) (payload_lt hlen)) hlen
    (fun _ => ⟨by rw [hnil]; decide, fun h => absurd ((hq.lastFin rfl).symm.trans h) (by decide)⟩)
    (fun h => absurd h h0) rest
  simp only [if_pos h0, if_true, List.headD_cons, List.tail_cons] at hstep
  exact completes_of_agree hstep hmsg (hq.ready.within (fun h => absurd hop3 h)).last.1 hnil rfl
    hq.data

/-- The last frame of a message. -/
theorem completes_last (hq : Amid (some (op, buffer)) q)
    (hlen : data.length ≤ G.maxPayload.toNat) : Completes G isServer q
      ((Frame.mk true 0 data).bytes (!isServer) random ++ rest) rest (buffer ++ data) op none := by
  have hops : q.opCodes = [op] := hq.opCodes
  have hop3 : op < 3 := hq.data op (by rw [hops]; exact List.mem_singleton_self op)
  have hmsg := handleFragment_message (G := G) (d := data) hop3 hq.ready.disabled
  rw [show q.impl.fragmentBuffer = buffer from hq.buffer, ← Channel.arrive_of_lt hop3] at hmsg
  have hstep := step_frame isServer hq.notOver random
    (wellFormed_data true (Or.inl rfl) (payload_lt hlen)) hlen
    (fun h => absurd rfl h) (fun _ => by rw [hops]; exact List.cons_ne_nil _ _) rest
  have hhead : q.opCodes.headD 0 = op := by rw [hops, List.headD_cons]
  have htail : q.opCodes.tail = [] := by rw [hops, List.tail_cons]
  simp only [ne_eq, not_true_eq_false, if_false, if_true, hhead] at hstep
  exact completes_of_agree hstep hmsg (hq.ready.within (fun h => absurd hop3 h)).last.1 htail rfl
    (by rw [htail]; nofun)

/-- A control frame, also in the middle of a message. -/
theorem completes_control (hq : Amid m q) (hop : op = 8 ∨ op = 9 ∨ op = 10)
    (hlen : data.length ≤ 125) (hmax : data.length ≤ G.maxPayload.toNat) : Completes G isServer q
      ((Frame.mk true op data).bytes (!isServer) random ++ rest) rest data op m := by
  have hop3 : ¬ op < 3 := by rcases hop with rfl | rfl | rfl <;> decide
  have h0 : op ≠ 0 := by rcases hop with rfl | rfl | rfl <;> decide
  have h2 : ¬ op < 2 := by rcases hop with rfl | rfl | rfl <;> decide
  have hbuffer : q.impl.fragmentBuffer = q.impl.fragmentBuffer ++ [] := (List.append_nil _).symm
  have hctl := handleFragment_control (G := G) (d := data) hop3 hbuffer hq.ready.noTip
    (by rw [List.length_nil]; omega)
  rw [List.nil_append, ← Channel.arrive_of_ge hop3] at hctl
  have hstep := step_frame isServer hq.notOver random (wellFormed_control hop hlen) hmax
    (fun _ => ⟨by rw [hq.opCodes]; cases m <;> simp, fun _ => h2⟩) (fun h => absurd h h0) rest
  simp only [if_pos h0, if_true, List.headD_cons, List.tail_cons] at hstep
  exact completes_of_agree hstep hctl (hq.ready.within fun _ => ⟨rfl, hlen⟩).last.1 hq.opCodes
    hq.buffer hq.data

/-- The first frame of a message that goes on. -/
theorem continues_first (hq : Amid none q) (hop : op = 1 ∨ op = 2)
    (hlen : data.length ≤ G.maxPayload.toNat) : Continues G isServer q
      ((Frame.mk false op data).bytes (!isServer) random ++ rest) rest (some (op, data)) := by
  have hop3 : op < 3 := by rcases hop with rfl | rfl <;> decide
  have h0 : op ≠ 0 := by rcases hop with rfl | rfl <;> decide
  have hnil : q.opCodes = [] := hq.opCodes
  have hbuf : q.impl.fragmentBuffer = [] := hq.buffer
  have hstep := step_frame isServer hq.notOver random
    (wellFormed_data false (Or.inr hop) (payload_lt hlen)) hlen
    (fun _ => ⟨by rw [hnil]; decide, fun h => absurd ((hq.lastFin rfl).symm.trans h) (by decide)⟩)
    (fun h => absurd h h0) rest
  simp only [if_pos h0, List.headD_cons, hnil, handleFragment_part hop3, hbuf,
    List.nil_append] at hstep
  refine ⟨_, hstep, rfl, ?_⟩
  exact { notOver := rfl, ready := ⟨hq.ready.ended, hq.ready.disabled, hq.ready.noTip⟩,
          opCodes := rfl, buffer := rfl, lastFin := nofun,
          data := fun o ho => by rw [List.mem_singleton.mp ho]; exact hop3 }

/-- A frame in the middle of a message. -/
theorem continues_more (hq : Amid (some (op, buffer)) q)
    (hlen : data.length ≤ G.maxPayload.toNat) : Continues G isServer q
      ((Frame.mk false 0 data).bytes (!isServer) random ++ rest) rest
      (some (op, buffer ++ data)) := by
  have hops : q.opCodes = [op] := hq.opCodes
  have hbuf : q.impl.fragmentBuffer = buffer := hq.buffer
  have hop3 : op < 3 := hq.data op (by rw [hops]; exact List.mem_singleton_self op)
  have hstep := step_frame isServer hq.notOver random
    (wellFormed_data false (Or.inl rfl) (payload_lt hlen)) hlen
    (fun h => absurd rfl h) (fun _ => by rw [hops]; exact List.cons_ne_nil _ _) rest
  simp only [ne_eq, not_true_eq_false, if_false, hops, List.headD_cons,
    handleFragment_part hop3, hbuf] at hstep
  refine ⟨_, hstep, rfl, ?_⟩
  exact { notOver := rfl, ready := ⟨hq.ready.ended, hq.ready.disabled, hq.ready.noTip⟩,
          opCodes := rfl, buffer := rfl, lastFin := nofun,
          data := fun o ho => by rw [List.mem_singleton.mp ho]; exact hop3 }

/-- What is complete arrives, and the reader goes on behind it. -/
theorem Completes.drain_eq {ms : List (List Byte × Byte)}
    (h : Completes G isServer q b rest data op m) (hlive : q.impl.channel.ended = false)
    (hgo : ∀ q', Amid m q' →
      (drain (Receiver.step (impl G) isServer) q' rest).1.impl.channel =
        Channel.arriveAll G ms q'.impl.channel) :
    (drain (Receiver.step (impl G) isServer) q b).1.impl.channel =
      Channel.arriveAll G ((data, op) :: ms) q.impl.channel := by
  obtain ⟨q', hstep, hobs, hthen⟩ := h
  have hend := Channel.arrive_fst G data op hlive
  rw [(Receiver.contract (impl G) isServer).drain_of_some hstep, Channel.arriveAll_cons hlive]
  split at hthen
  · next hstop =>
      rw [drain_over hthen, Channel.arriveAll_ended (hend.symm.trans hstop)]
      exact hobs
  · exact (hgo q' hthen).trans (congrArg _ hobs)

theorem Continues.drain_eq {ms : List (List Byte × Byte)}
    (h : Continues G isServer q b rest m)
    (hgo : ∀ q', Amid m q' →
      (drain (Receiver.step (impl G) isServer) q' rest).1.impl.channel =
        Channel.arriveAll G ms q'.impl.channel) :
    (drain (Receiver.step (impl G) isServer) q b).1.impl.channel =
      Channel.arriveAll G ms q.impl.channel := by
  obtain ⟨q', hstep, hobs, hthen⟩ := h
  rw [(Receiver.contract (impl G) isServer).drain_of_some hstep]
  exact (hgo q' hthen).trans (congrArg _ hobs)

end

/-- The frames, as the other side sends them. -/
def framesBytes (isServer : Bool) (sent : List (Mask × Frame)) : List Byte :=
  sent.flatMap fun f => f.2.bytes (!isServer) f.1

/-- **The messages well-formed frames carry arrive**, in order, each once, and nothing else. -/
theorem drain_carries {m : Option (Byte × List Byte)} {fs : List Frame}
    {ms : List (List Byte × Byte)} (h : Carries m fs ms) {sent : List (Mask × Frame)}
    (hsent : sent.map Prod.snd = fs) (hlen : ∀ f ∈ fs, f.data.length ≤ G.maxPayload.toNat)
    {q : Receiver WebSocket} (hq : Amid m q) :
    (drain (Receiver.step (impl G) isServer) q (framesBytes isServer sent)).1.impl.channel =
      Channel.arriveAll G ms q.impl.channel := by
  induction h generalizing sent q with
  | nil =>
      rw [List.map_eq_nil_iff.mp hsent, framesBytes, List.flatMap_nil,
        drain_of_none ((Receiver.contract (impl G) isServer).step_nil q)]
      rfl
  | whole hop t ih =>
      obtain ⟨⟨random, f⟩, sent, rfl, rfl, ht⟩ := List.map_eq_cons_iff.mp hsent
      rw [List.forall_mem_cons] at hlen
      exact (completes_whole hq hop hlen.1).drain_eq hq.ready.ended fun q' => ih ht hlen.2
  | first hop t ih =>
      obtain ⟨⟨random, f⟩, sent, rfl, rfl, ht⟩ := List.map_eq_cons_iff.mp hsent
      rw [List.forall_mem_cons] at hlen
      exact (continues_first hq hop hlen.1).drain_eq fun q' => ih ht hlen.2
  | more t ih =>
      obtain ⟨⟨random, f⟩, sent, rfl, rfl, ht⟩ := List.map_eq_cons_iff.mp hsent
      rw [List.forall_mem_cons] at hlen
      exact (continues_more hq hlen.1).drain_eq fun q' => ih ht hlen.2
  | last t ih =>
      obtain ⟨⟨random, f⟩, sent, rfl, rfl, ht⟩ := List.map_eq_cons_iff.mp hsent
      rw [List.forall_mem_cons] at hlen
      exact (completes_last hq hlen.1).drain_eq hq.ready.ended fun q' => ih ht hlen.2
  | control hop hl t ih =>
      obtain ⟨⟨random, f⟩, sent, rfl, rfl, ht⟩ := List.map_eq_cons_iff.mp hsent
      rw [List.forall_mem_cons] at hlen
      exact (completes_control hq hop hl hlen.1).drain_eq hq.ready.ended fun q' => ih ht hlen.2

/-- **What the other side sends arrives**, wherever its frames, split or not, and the chunks of
the stream begin and end. -/
theorem run_carries {recvBuffer : Nat} (hpad : CONSUME_PRE_PADDING isServer ≤ recvBuffer)
    {sent : List (Mask × Frame)} {ms : List (List Byte × Byte)}
    (h : Carries none (sent.map Prod.snd) ms)
    (hlen : ∀ f ∈ sent, f.2.data.length ≤ G.maxPayload.toNat) {recvs : List (Memory Byte × Nat)}
    (hrecv : stream recvBuffer recvs = framesBytes isServer sent) :
    (run G isServer recvBuffer (new false) recvs).2.channel = Channel.arriveAll G ms {} := by
  have hq : Amid none reader :=
    { notOver := rfl, ready := ⟨rfl, rfl, rfl⟩, opCodes := rfl, buffer := rfl,
      lastFin := fun _ => rfl, data := nofun }
  rw [run_channel hpad, hrecv, drain_carries h rfl (List.forall_mem_map.mpr hlen) hq]
  rfl

/-- A text in two frames, with a ping between them. -/
def interrupted : List (Mask × Frame) :=
  [(fun i => ⟨i⟩, ⟨false, 1, [104]⟩), (fun _ => 7, ⟨true, 9, [33]⟩), (fun _ => 0, ⟨true, 0, [105]⟩)]

theorem run_carries_interrupted :
    (run plainGroup true 13 (new false) [chunkAt 13 ((framesBytes true interrupted).take 3),
      chunkAt 13 ((framesBytes true interrupted).drop 3)]).2.channel.trace =
      [.sent [33] .PONG, .ping [33], .message [104, 105] 1] := by
  have hcarries : Carries none (interrupted.map Prod.snd) [([33], 9), ([104, 105], 1)] :=
    .first (Or.inl rfl) (.control (Or.inr (Or.inl rfl)) (by decide) (.last .nil))
  have hrecv : stream 13 [chunkAt 13 ((framesBytes true interrupted).take 3),
      chunkAt 13 ((framesBytes true interrupted).drop 3)] = framesBytes true interrupted := by
    decide
  rw [run_carries (by decide) hcarries (by decide) hrecv]
  decide

end WebSocket

end PBTransfor.Uws
