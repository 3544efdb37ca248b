import PBTransfor.Uws.Lawful

/-!
# Uws — what one side has sent, as the other reads it

A stream of frames one side has sent, of which a first part has arrived: what has been delivered
of it are its first messages (`drain_sent`).  A message that is refused, or is no text, ends the
connection; nothing is left out.
-/

namespace PBTransfor.Uws

open Library

/-! ### Deliveries -/

/-- The payload and the opcode of what has been delivered. -/
def Event.delivery : Event → List (List Byte × Byte)
  | .message data opCode => [(data, opCode)]
  | .ping data => [(data, 9)]
  | .pong data => [(data, 10)]
  | _ => []

/-- What has been delivered. -/
def delivered (trace : List Event) : List (List Byte × Byte) := trace.flatMap Event.delivery

@[simp] theorem delivered_append (t t' : List Event) :
    delivered (t ++ t') = delivered t ++ delivered t' := List.flatMap_append

/-! ### A trace only grows -/

namespace Channel

section
variable {data : List Byte}

theorem trace_record (ch : Channel) (e : Event) : ch.trace <+: (ch.record e).trace :=
  List.prefix_append _ _

theorem trace_send (op : OpCode) (ch : Channel) : ch.trace <+: (ch.send data op).trace := by
  rw [send]
  split
  · exact List.prefix_rfl
  · exact trace_record ch _

theorem trace_terminate (ch : Channel) : ch.trace <+: ch.terminate.trace := by
  rw [terminate]
  split
  · exact List.prefix_rfl
  · rw [onEnd]
    refine List.IsPrefix.trans ?_ (trace_record _ .closed)
    split
    · exact List.prefix_rfl
    · exact trace_record ch _

theorem trace_close (code : Nat) (message : List Byte) (ch : Channel) :
    ch.trace <+: (ch.close code message).trace :=
  (trace_record ch (.disconnection code (message.take 123))).trans (trace_send .CLOSE
    { ch.record (.disconnection code (message.take 123)) with shuttingDown := true })

theorem trace_call (c : Call) (ch : Channel) : ch.trace <+: (ch.call c).trace := by
  cases c with
  | send message op => exact trace_send op ch
  | close code message => exact trace_close code message ch
  | terminate => exact trace_terminate ch

theorem trace_handle (G : Group) (e : Event) (ch : Channel) :
    ch.trace <+: (ch.handle G e).trace := by
  have hgen : ∀ (cs : List Call) (ch : Channel), ch.trace <+: (cs.foldl call ch).trace := by
    intro cs
    induction cs with
    | nil => exact fun ch => List.prefix_rfl
    | cons c cs ih => exact fun ch => (trace_call c ch).trans (ih _)
  exact (trace_record ch e).trans (hgen _ _)

theorem trace_arrive (G : Group) (op : Byte) (ch : Channel) :
    ch.trace <+: (ch.arrive G data op).2.trace := by
  rw [arrive]
  split
  · rw [message]
    split
    · exact trace_terminate ch
    · exact trace_handle G _ ch
  · rw [control]
    split
    · exact trace_close _ _ ch
    split
    · exact (trace_send .PONG ch).trans (trace_handle G _ _)
    split
    · exact trace_handle G _ ch
    · exact List.prefix_rfl

end

end Channel

/-! ### What fits -/

/-- The lengths of the messages that are sent are those of memory. -/
def Event.Fits : Event → Prop
  | .sent m _ => m.length < 2 ^ 64
  | _ => True

def Call.Fits : Call → Prop
  | .send message _ => message.length < 2 ^ 64
  | _ => True

/-- The handlers send nothing that is too long for memory. -/
def Group.Fits (G : Group) : Prop := ∀ trace, ∀ c ∈ G.handler trace, c.Fits

namespace Channel

def Fits (ch : Channel) : Prop := ∀ e ∈ ch.trace, e.Fits

variable {ch : Channel} {G : Group} {data : List Byte} {op : Byte} {e : Event}

theorem Fits.record (h : ch.Fits) (he : e.Fits) : (ch.record e).Fits := by
  intro e' he'
  rw [record_trace, List.mem_append, List.mem_singleton] at he'
  rcases he' with he' | rfl
  · exact h e' he'
  · exact he

/-- What is done to a channel: nothing is delivered by it, and what is sent fits. -/
structure Quiet (ch ch' : Channel) : Prop where
  delivered : delivered ch'.trace = delivered ch.trace
  fits : ch.Fits → ch'.Fits

theorem Quiet.refl (ch : Channel) : Quiet ch ch := ⟨rfl, id⟩

theorem Quiet.trans {ch' ch'' : Channel} (h : Quiet ch ch') (h' : Quiet ch' ch'') :
    Quiet ch ch'' := ⟨h'.delivered.trans h.delivered, h'.fits ∘ h.fits⟩

/-- An event that is no delivery. -/
theorem Quiet.record (he : e.delivery = []) (hf : e.Fits) : Quiet ch (ch.record e) where
  delivered := by
    rw [record_trace, delivered_append, Uws.delivered, Uws.delivered, List.flatMap_singleton, he,
      List.append_nil]
  fits := fun h => h.record hf

theorem quiet_send (op : OpCode) (h : data.length < 2 ^ 64) : Quiet ch (ch.send data op) := by
  rw [send]
  split
  · exact .refl ch
  · exact .record rfl h

theorem quiet_onEnd (ch : Channel) : Quiet ch ch.onEnd := by
  rw [onEnd]
  have hfirst : Quiet ch (if ch.shuttingDown then ch else ch.record (.disconnection 1006 [])) := by
    split
    · exact .refl ch
    · exact .record rfl trivial
  exact hfirst.trans (Quiet.trans (Quiet.record (e := .closed) rfl trivial) ⟨rfl, id⟩)

theorem quiet_terminate (ch : Channel) : Quiet ch ch.terminate := by
  rw [terminate]
  split
  · exact .refl ch
  · exact quiet_onEnd ch

/-- A close frame has at most 125 bytes. -/
theorem formatClosePayload_length (code : Nat) (message : List Byte) :
    (formatClosePayload code (message.take 123)).length ≤ 125 := by
  rw [formatClosePayload]
  split
  · rw [List.length_append, length_bytesBE]
    have h := List.length_take_le 123 message
    omega
  · exact Nat.zero_le _

theorem quiet_close (code : Nat) (message : List Byte) (ch : Channel) :
    Quiet ch (ch.close code message) := by
  have hshut : Quiet ch { ch.record (.disconnection code (message.take 123)) with
      shuttingDown := true } :=
    Quiet.trans (Quiet.record (e := .disconnection code (message.take 123)) rfl trivial) ⟨rfl, id⟩
  exact hshut.trans (quiet_send .CLOSE
    (Nat.lt_of_le_of_lt (formatClosePayload_length code message) (by decide)))

theorem quiet_call {c : Call} (hc : c.Fits) (ch : Channel) : Quiet ch (ch.call c) := by
  cases c with
  | send message op => exact quiet_send op hc
  | close code message => exact quiet_close code message ch
  | terminate => exact quiet_terminate ch

theorem quiet_foldl_call {cs : List Call} (hcs : ∀ c ∈ cs, c.Fits) (ch : Channel) :
    Quiet ch (cs.foldl call ch) := by
  induction cs generalizing ch with
  | nil => exact .refl ch
  | cons c cs ih =>
      rw [List.forall_mem_cons] at hcs
      exact (quiet_call hcs.1 ch).trans (ih hcs.2 _)

/-- A handler is called for what is delivered. -/
theorem handle_delivered (hG : G.Fits) (he : e.Fits) (ch : Channel) :
    delivered (ch.handle G e).trace = delivered ch.trace ++ e.delivery ∧
      (ch.Fits → (ch.handle G e).Fits) := by
  obtain ⟨hdel, hfits⟩ := quiet_foldl_call (hG (ch.trace ++ [e])) (ch.record e)
  refine ⟨hdel.trans ?_, fun h => hfits (h.record he)⟩
  rw [record_trace, delivered_append, Uws.delivered, Uws.delivered, List.flatMap_singleton]

/-- **What arrives is delivered**, or it ends the connection. -/
theorem arrive_delivered (hG : G.Fits) (hop : op ∈ ([1, 2, 8, 9, 10] : List Byte))
    (hdata : data.length < 2 ^ 64) (ch : Channel) :
    (ch.Fits → (ch.arrive G data op).2.Fits) ∧
      (delivered (ch.arrive G data op).2.trace = delivered ch.trace ++ [(data, op)] ∨
        (ch.arrive G data op).1 = true ∧
          delivered (ch.arrive G data op).2.trace = delivered ch.trace) := by
  rw [arrive]
  split
  · rw [message]
    split
    · have h := quiet_terminate ch
      exact ⟨h.fits, Or.inr ⟨rfl, h.delivered⟩⟩
    · obtain ⟨hdel, hfits⟩ := handle_delivered (G := G) (e := .message data op) hG trivial ch
      exact ⟨hfits, Or.inl hdel⟩
  next hop3 =>
  rw [control]
  split
  · have h := quiet_close (parseClosePayload data).code (parseClosePayload data).message ch
    exact ⟨h.fits, Or.inr ⟨rfl, h.delivered⟩⟩
  next h8 =>
  split
  · next h9 =>
      have hsend : Quiet ch (ch.send data .PONG) := quiet_send .PONG hdata
      obtain ⟨hdel, hfits⟩ :=
        handle_delivered (G := G) (e := .ping data) hG trivial (ch.send data .PONG)
      refine ⟨fun h => hfits (hsend.fits h), Or.inl ?_⟩
      rw [h9]
      exact hdel.trans (congrArg (· ++ [(data, 9)]) hsend.delivered)
  next h9 =>
  have h10 : op = OpCode.PONG.byte := by
    simp only [List.mem_cons, List.not_mem_nil, or_false] at hop
    rcases hop with rfl | rfl | rfl | rfl | rfl
    · exact absurd (by decide) hop3
    · exact absurd (by decide) hop3
    · exact absurd rfl h8
    · exact absurd rfl h9
    · rfl
  rw [if_pos h10]
  obtain ⟨hdel, hfits⟩ := handle_delivered (G := G) (e := .pong data) hG trivial ch
  refine ⟨hfits, Or.inl ?_⟩
  rw [h10]
  exact hdel

end Channel

/-! ### Frames that are sent -/

/-- A message `WebSocket::send` has been called with, and the mask it was given. -/
structure Sent where
  mask : Mask
  message : List Byte
  opCode : OpCode

namespace Sent

/-- What `send` gives to the socket. -/
def bytes (isServer : Bool) (x : Sent) : List Byte :=
  formatMessage isServer x.mask x.message x.opCode.byte x.message.length false

def delivery (x : Sent) : List Byte × Byte := (x.message, x.opCode.byte)

def frame (x : Sent) : Frame := ⟨true, x.opCode.byte, x.message⟩

theorem bytes_eq (isServer : Bool) (x : Sent) : x.bytes isServer = x.frame.bytes isServer x.mask :=
  formatMessage_eq isServer x.mask x.message x.opCode.byte

end Sent

def sentBytes (isServer : Bool) (xs : List Sent) : List Byte := xs.flatMap (Sent.bytes isServer)

@[simp] theorem sentBytes_append (isServer : Bool) (xs ys : List Sent) :
    sentBytes isServer (xs ++ ys) = sentBytes isServer xs ++ sentBytes isServer ys :=
  List.flatMap_append

/-- What becomes of the message at the front: it is delivered, or it ends the connection. -/
structure Takes (q q' : Receiver WebSocket) (x : Sent) (goes : Prop) : Prop where
  fits : q.impl.channel.Fits → q'.impl.channel.Fits
  outcome : delivered q'.impl.channel.trace = delivered q.impl.channel.trace ++ [x.delivery] ∧
      (q'.finished = true ∨ WebSocket.Amid none q' ∧ goes) ∨
    q'.finished = true ∧ delivered q'.impl.channel.trace = delivered q.impl.channel.trace

section
variable {G : Group} {isServer : Bool} {q : Receiver WebSocket} {x : Sent}

theorem Sent.opCode_mem (x : Sent) : x.opCode.byte ∈ ([1, 2, 8, 9, 10] : List Byte) := by
  cases x.opCode <;> decide

theorem takes_close (x : Sent) (goes : Prop) :
    Takes q (q.close (WebSocket.impl G)) x goes where
  fits := (Channel.quiet_terminate q.impl.channel).fits
  outcome := Or.inr ⟨rfl, (Channel.quiet_terminate q.impl.channel).delivered⟩

theorem takes_completes {b rest : List Byte} (hG : G.Fits) (hfit : x.message.length < 2 ^ 64)
    (h : WebSocket.Completes G isServer q b rest x.message x.opCode.byte none) :
    ∃ q', Receiver.step (WebSocket.impl G) isServer q b = some (q', rest) ∧ Takes q q' x True := by
  obtain ⟨q', hstep, hobs, hthen⟩ := h
  obtain ⟨hfits, hdel⟩ := Channel.arrive_delivered hG x.opCode_mem hfit q.impl.channel
  refine ⟨q', hstep, hobs ▸ hfits, ?_⟩
  rw [hobs]
  rcases hdel with hdel | ⟨hstop, hdel⟩
  · refine Or.inl ⟨hdel, ?_⟩
    split at hthen
    · exact Or.inl hthen
    · exact Or.inr ⟨hthen, trivial⟩
  · rw [if_pos hstop] at hthen
    exact Or.inr ⟨hthen, hdel⟩

/-- **The message at the front of a stream.** -/
theorem step_sent (isServer : Bool) (hG : G.Fits) (hq : WebSocket.Amid none q)
    (hfit : x.message.length < 2 ^ 64) (rest : List Byte) : ∃ q' rest',
      Receiver.step (WebSocket.impl G) isServer q (x.bytes (!isServer) ++ rest) =
        some (q', rest') ∧ Takes q q' x (rest' = rest) := by
  have hop : x.frame.opCode ∈ ([0, 1, 2, 8, 9, 10] : List Byte) :=
    List.mem_cons_of_mem _ x.opCode_mem
  obtain ⟨hopc, -, hmal, hN, -, hfront, -⟩ := Frame.front (!isServer) x.mask hop hfit rest
  rw [Bool.not_not] at hfront
  rw [x.bytes_eq]
  have hshort := short_le_headerLength isServer (x.frame.bytes (!isServer) x.mask ++ rest)
  have hlive : ¬ (q.finished = true ∨
      (x.frame.bytes (!isServer) x.mask ++ rest).length < SHORT_MESSAGE_HEADER isServer) := by
    rw [hq.notOver, not_or]
    exact ⟨Bool.false_ne_true, by omega⟩
  by_cases hlong : frameMalformed (x.frame.bytes (!isServer) x.mask ++ rest) = true
  · have hstep : Receiver.step (WebSocket.impl G) isServer q
        (x.frame.bytes (!isServer) x.mask ++ rest) = some (q.close (WebSocket.impl G),
          (x.frame.bytes (!isServer) x.mask ++ rest).drop (SHORT_MESSAGE_HEADER isServer)) := by
      rw [Receiver.step, if_neg hlive, if_pos hlong]
    exact ⟨_, _, hstep, takes_close x _⟩
  have hctl : 2 < x.opCode.byte → x.message.length ≤ 125 := fun h2 =>
    Nat.le_of_not_lt fun hgt => hlong (hmal.mpr ⟨h2, Or.inr hgt⟩)
  by_cases hmax : x.message.length ≤ G.maxPayload.toNat
  · have hcompletes : WebSocket.Completes G isServer q
        (x.frame.bytes (!isServer) x.mask ++ rest) rest x.message x.opCode.byte none := by
      have hmem := x.opCode_mem
      by_cases h2 : 2 < x.opCode.byte
      · refine WebSocket.completes_control hq ?_ (hctl h2) hmax
        revert h2
        cases x.opCode <;> simp [OpCode.byte]
      · refine WebSocket.completes_whole hq ?_ hmax
        revert h2
        cases x.opCode <;> simp [OpCode.byte]
    obtain ⟨q', hstep, htakes⟩ := takes_completes hG hfit hcompletes
    exact ⟨q', rest, hstep, htakes.fits, htakes.outcome.imp_left fun h =>
      ⟨h.1, h.2.imp_right fun h => ⟨h.1, rfl⟩⟩⟩
  · have hrefuse : q.Refuses (WebSocket.impl G) (x.frame.bytes (!isServer) x.mask ++ rest) := by
      refine Or.inr (Or.inr ?_)
      rw [hN]
      exact decide_eq_true (Nat.lt_of_not_le hmax)
    have hstep : Receiver.step (WebSocket.impl G) isServer q
        (x.frame.bytes (!isServer) x.mask ++ rest) = some (q.close (WebSocket.impl G),
          (x.frame.bytes (!isServer) x.mask ++ rest).drop
            (headerLength isServer (x.frame.bytes (!isServer) x.mask ++ rest))) := by
      rw [Receiver.step, if_neg hlive, if_neg hlong,
        if_neg (by omega), if_pos hrefuse]
    exact ⟨_, _, hstep, takes_close x _⟩

/-- What has been read of a stream of which `c` has not arrived yet: the first `n` messages, and
`b` is the beginning of the others. -/
structure Has (isServer : Bool) (q : Receiver WebSocket) (b c : List Byte) (xs : List Sent)
    (old : List (List Byte × Byte)) (n : Nat) : Prop where
  fits : q.impl.channel.Fits
  count : n ≤ xs.length
  delivered : delivered q.impl.channel.trace = old ++ (xs.take n).map Sent.delivery
  rest : q.finished = true ∨ WebSocket.Amid none q ∧ b ++ c = sentBytes (!isServer) (xs.drop n)

/-- **The messages that are there are read.** -/
theorem drain_sent (hG : G.Fits) (hq : WebSocket.Amid none q) (hfits : q.impl.channel.Fits)
    {xs : List Sent} (hxs : ∀ x ∈ xs, x.message.length < 2 ^ 64) {b c : List Byte}
    (hb : b ++ c = sentBytes (!isServer) xs) :
    let r := drain (Receiver.step (WebSocket.impl G) isServer) q b
    ∃ n, Has isServer r.1 r.2 c xs (delivered q.impl.channel.trace) n := by
  have hcontract := Receiver.contract (WebSocket.impl G) isServer
  intro r
  induction xs generalizing q b with
  | nil =>
      obtain rfl : b = [] := (List.append_eq_nil_iff.mp hb).1
      refine ⟨0, ?_⟩
      rw [show r = (q, []) from drain_of_none (hcontract.step_nil q)]
      exact ⟨hfits, Nat.zero_le _, by simp, Or.inr ⟨hq, hb⟩⟩
  | cons x xs ih =>
      rw [List.forall_mem_cons] at hxs
      rcases hstep : Receiver.step (WebSocket.impl G) isServer q b with _ | ⟨q₁, r₁⟩
      · refine ⟨0, ?_⟩
        rw [show r = (q, b) from drain_of_none hstep]
        exact ⟨hfits, Nat.zero_le _, by simp, Or.inr ⟨hq, hb⟩⟩
      have hmore := hcontract.stable c hstep
      rw [hb, sentBytes, List.flatMap_cons] at hmore
      obtain ⟨q', rest', hfront, htakes⟩ := step_sent isServer hG hq hxs.1
        (sentBytes (!isServer) xs)
      rw [sentBytes, hmore] at hfront
      cases hfront
      have hr : r = drain (Receiver.step (WebSocket.impl G) isServer) q₁ r₁ :=
        hcontract.drain_of_some hstep
      rcases htakes.outcome with ⟨hdel, hover | ⟨hon, hrest⟩⟩ | ⟨hover, hdel⟩
      · refine ⟨1, ?_⟩
        rw [hr, drain_over hover]
        exact ⟨htakes.fits hfits, Nat.succ_le_succ (Nat.zero_le _), by simpa using hdel,
          Or.inl hover⟩
      · obtain ⟨n, hn⟩ := ih hon (htakes.fits hfits) hxs.2 hrest
        refine ⟨n + 1, ?_⟩
        rw [hr]
        refine ⟨hn.fits, Nat.succ_le_succ hn.count, ?_, hn.rest⟩
        rw [hn.delivered, hdel, List.take_succ_cons, List.map_cons, List.append_assoc]
        rfl
      · refine ⟨0, ?_⟩
        rw [hr, drain_over hover]
        exact ⟨htakes.fits hfits, Nat.zero_le _, by simpa using hdel, Or.inl hover⟩

end

end PBTransfor.Uws
