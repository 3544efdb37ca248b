import Mathlib.Data.List.Perm.Basic
import PBTransfor.Uws.Mask

/-!
# Uws — sending

`uS::Socket`, of what it does to send: `write`, `sendTransformed`, the part of `ioHandler` that
writes, and the end of the connection.  What the kernel does not take at once waits in
`messageQueue`, and is sent when the socket can be written to.

Callbacks are names, of type `κ`; that they do nothing to the socket themselves is left to the
program (the one of a close frame shuts the connection down).

* `Orderly`: the bytes the kernel has taken, and the callbacks that were called, are those of the
  messages in the order of their sending.
* `run_orderly`, `run_owed`: so it is in every run, whatever the kernel takes, and each callback
  is called once.
-/

namespace PBTransfor.Uws

/-- What `::send` answers: it has taken so many bytes, it would block, or there is an error. -/
inductive Answer where
  | taken (n : Nat)
  | wouldBlock
  | failed
  deriving DecidableEq, Repr

/-- `Socket::Queue::Message`: the bytes that are left to send. -/
structure Message (κ : Type*) where
  data : List Byte
  callback : Option κ

/-- `writable` is the bit `UV_WRITABLE` of `state.poll`.  `wire` is what the kernel has taken,
`called` the callbacks that were called, with `cancelled`, and `accepted` the messages that were
not refused. -/
structure Socket (κ : Type*) where
  messageQueue : List (Message κ) := []
  writable : Bool := false
  closed : Bool := false
  wire : List Byte := []
  called : List (κ × Bool) := []
  accepted : List (Message κ) := []

namespace Socket

variable {κ : Type*}

/-- `if (callback) callback(…, cancelled, …)`. -/
def callBack (callback : Option κ) (cancelled : Bool) (s : Socket κ) : Socket κ :=
  { s with called := s.called ++ (callback.map (·, cancelled)).toList }

/-- `::send` has taken the bytes. -/
def put (data : List Byte) (s : Socket κ) : Socket κ := { s with wire := s.wire ++ data }

def push (message : Message κ) (s : Socket κ) : Socket κ :=
  { s with messageQueue := s.messageQueue ++ [message] }

def accept (message : Message κ) (s : Socket κ) : Socket κ :=
  { s with accepted := s.accepted ++ [message] }

/-- `write`: whether it has succeeded, and then, whether the message was transferred to the
queue. -/
def write (answer : Answer) (message : Message κ) (s : Socket κ) : Option Bool × Socket κ :=
  if s.messageQueue = [] then
    match answer with
    | .failed => (none, s)
    | .wouldBlock => (some true, { (s.accept message).push message with writable := true })
    | .taken n =>
        let sent := min n message.data.length
        let s := (s.accept message).put (message.data.take sent)
        if sent = message.data.length then (some false, s)
        else (some true,
          { s.push { message with data := message.data.drop sent } with writable := true })
  else (some true, (s.accept message).push message)

/-- `sendTransformed`, of a message that is transformed already. -/
def sendTransformed (answer : Answer) (message : Message κ) (s : Socket κ) : Socket κ :=
  if s.messageQueue = [] then
    match s.write answer message with
    | (some false, s) => s.callBack message.callback false
    | (some true, s) => s
    | (none, s) => s.callBack message.callback true
  else (s.accept message).push message

/-- The loop of `ioHandler` that writes, on what is in the queue; the answers are those to its
calls of `::send`.  It says whether there was an error. -/
def flush : List (Message κ) → (Nat → Answer) → Socket κ → Bool × Socket κ
  | [], _, s => (false, { s with messageQueue := [], writable := false })
  | message :: queue, answers, s =>
      match answers 0 with
      | .failed => (true, { s with messageQueue := message :: queue })
      | .wouldBlock => (false, { s with messageQueue := message :: queue })
      | .taken n =>
          let sent := min n message.data.length
          let s := s.put (message.data.take sent)
          if sent = message.data.length then
            flush queue (fun i => answers (i + 1)) (s.callBack message.callback false)
          else (false, { s with
            messageQueue := { message with data := message.data.drop sent } :: queue })

/-- `onEnd`: what is in the queue is cancelled. -/
def onEnd (s : Socket κ) : Socket κ :=
  { s with
    closed := true
    messageQueue := []
    called := s.called ++ s.messageQueue.flatMap fun m => (m.callback.map (·, true)).toList }

/-- `ioHandler`, when the socket can be written to. -/
def onWritable (answers : Nat → Answer) (s : Socket κ) : Socket κ :=
  if s.messageQueue = [] then s
  else
    match s.flush s.messageQueue answers with
    | (true, s) => s.onEnd
    | (false, s) => s

/-! ### Runs -/

/-- What happens to a socket. -/
inductive Op (κ : Type*) where
  | send (message : Message κ) (answer : Answer)
  | writable (answers : Nat → Answer)
  | onEnd

/-- On a socket that is closed a message is cancelled. -/
def step (s : Socket κ) : Op κ → Socket κ
  | .send message answer =>
      if s.closed then s.callBack message.callback true else s.sendTransformed answer message
  | .writable answers => if s.closed then s else s.onWritable answers
  | .onEnd => if s.closed then s else s.onEnd

def run (s : Socket κ) (ops : List (Op κ)) : Socket κ := ops.foldl step s

/-- The bytes of messages. -/
def bytesOf (messages : List (Message κ)) : List Byte := messages.flatMap Message.data

/-- Their callbacks. -/
def callbacksOf (messages : List (Message κ)) : List κ := messages.flatMap (·.callback.toList)

/-- The messages of a run. -/
def messagesOf (ops : List (Op κ)) : List (Message κ) :=
  ops.flatMap fun
    | .send message _ => [message]
    | _ => []

/-- The callbacks that were called as the message had been sent. -/
def done (s : Socket κ) : List κ := s.called.flatMap fun c => if c.2 then [] else [c.1]

/-! ### In order -/

/-- The queue, of the messages `pending`; `cut` is what the kernel has taken of the first. -/
inductive Queues : List Byte → List (Message κ) → List (Message κ) → Prop where
  | nil : Queues [] [] []
  | cons {cut data callback queue} :
      Queues cut (⟨data, callback⟩ :: queue) (⟨cut ++ data, callback⟩ :: queue)

/-- The messages that were accepted are those that have been sent, `before`, and `pending`, of
which `queue` is what is left. -/
structure Stands (s : Socket κ) (queue : List (Message κ)) (before : List (Message κ))
    (cut : List Byte) (pending : List (Message κ)) : Prop where
  accepted : s.accepted = before ++ pending
  wire : s.wire = bytesOf before ++ cut
  done : s.done = callbacksOf before
  queue : Queues cut queue pending

/-- **The order of a socket.**  As long as it is open, what is left is in the queue, and it waits
for being writable exactly if there is something in the queue. -/
structure Orderly (s : Socket κ) : Prop where
  stands : ∃ queue before cut pending, s.Stands queue before cut pending ∧
    (s.closed = false → s.messageQueue = queue)
  waits : s.closed = false → (s.writable = true ↔ s.messageQueue ≠ [])

section
variable {s : Socket κ} {before pending queue : List (Message κ)} {cut : List Byte}
  {message : Message κ}

@[simp] theorem bytesOf_append (ms ms' : List (Message κ)) :
    bytesOf (ms ++ ms') = bytesOf ms ++ bytesOf ms' := List.flatMap_append

@[simp] theorem callbacksOf_append (ms ms' : List (Message κ)) :
    callbacksOf (ms ++ ms') = callbacksOf ms ++ callbacksOf ms' := List.flatMap_append

@[simp] theorem bytesOf_singleton (m : Message κ) : bytesOf [m] = m.data :=
  List.flatMap_singleton ..

@[simp] theorem callbacksOf_singleton (m : Message κ) : callbacksOf [m] = m.callback.toList :=
  List.flatMap_singleton ..

theorem done_callBack (callback : Option κ) (cancelled : Bool) (s : Socket κ) :
    (s.callBack callback cancelled).done =
      s.done ++ if cancelled then [] else callback.toList := by
  cases callback <;> cases cancelled <;> simp [done, callBack]

/-- What is in the queue is what is missing. -/
theorem Queues.bytes (h : Queues cut queue pending) :
    cut ++ bytesOf queue = bytesOf pending := by
  cases h with
  | nil => rfl
  | cons => simp [bytesOf]

theorem Queues.push (h : Queues cut queue pending) (hq : queue ≠ []) (m : Message κ) :
    Queues cut (queue ++ [m]) (pending ++ [m]) := by
  cases h with
  | nil => exact absurd rfl hq
  | cons => exact .cons

theorem Queues.eq_nil (h : Queues cut [] pending) : pending = [] ∧ cut = [] := by
  cases h
  exact ⟨rfl, rfl⟩

/-- The kernel takes a part of the first message. -/
theorem Queues.cut_drop (m : Message κ) (n : Nat) (queue : List (Message κ)) :
    Queues (m.data.take n) ({ m with data := m.data.drop n } :: queue) (m :: queue) := by
  have h : Queues (m.data.take n) (⟨m.data.drop n, m.callback⟩ :: queue)
      (⟨m.data.take n ++ m.data.drop n, m.callback⟩ :: queue) := .cons
  rwa [List.take_append_drop] at h

/-- The kernel takes more of it. -/
theorem Queues.cut_more (h : Queues cut (message :: queue) pending) (n : Nat) :
    Queues (cut ++ message.data.take n)
      ({ message with data := message.data.drop n } :: queue) pending := by
  cases h with
  | @cons cut data callback queue =>
      have hcut : Queues (cut ++ data.take n) (⟨data.drop n, callback⟩ :: queue)
          (⟨(cut ++ data.take n) ++ data.drop n, callback⟩ :: queue) := .cons
      rwa [List.append_assoc, List.take_append_drop] at hcut

/-- The kernel takes the first message, and its callback is called. -/
theorem Stands.sent (h : s.Stands (message :: queue) before cut pending) :
    ∃ before' pending', ((s.put message.data).callBack message.callback false).Stands queue
      before' [] pending' := by
  obtain ⟨hacc, hwire, hdone, hqueue⟩ := h
  cases hqueue with
  | @cons cut data callback queue =>
      refine ⟨before ++ [⟨cut ++ data, callback⟩], queue, ?_, ?_, ?_, ?_⟩
      · exact hacc.trans (List.append_cons ..)
      · show s.wire ++ data = _
        rw [hwire, bytesOf_append, bytesOf_singleton, List.append_nil, List.append_assoc]
      · rw [done_callBack, callbacksOf_append, callbacksOf_singleton]
        exact congrArg (· ++ callback.toList) hdone
      · cases queue with
        | nil => exact .nil
        | cons m queue => exact .cons

/-- A message is accepted while there is none in the queue. -/
theorem Stands.accept (h : s.Stands [] before cut pending) (m : Message κ) :
    s.accepted ++ [m] = before ++ [m] ∧ s.wire = bytesOf before := by
  obtain ⟨rfl, rfl⟩ := h.queue.eq_nil
  exact ⟨by rw [h.accepted, List.append_nil], by rw [h.wire, List.append_nil]⟩

/-- **A message is sent**, into the kernel or the queue, or it is refused. -/
theorem Stands.sendTransformed (h : s.Stands s.messageQueue before cut pending)
    (hw : s.writable = true ↔ s.messageQueue ≠ []) (answer : Answer) (m : Message κ) :
    (∃ before' cut' pending', (s.sendTransformed answer m).Stands
        (s.sendTransformed answer m).messageQueue before' cut' pending') ∧
      ((s.sendTransformed answer m).writable = true ↔
        (s.sendTransformed answer m).messageQueue ≠ []) := by
  rw [Socket.sendTransformed]
  split
  · next hq =>
      rw [hq] at h
      obtain ⟨hacc, hwire⟩ := h.accept m
      simp only [Socket.write, if_pos hq]
      cases answer with
      | failed =>
          refine ⟨⟨before, cut, pending, h.accepted, h.wire, ?_, hq ▸ h.queue⟩, hw⟩
          rw [done_callBack, if_pos rfl, List.append_nil]
          exact h.done
      | wouldBlock =>
          refine ⟨⟨before, [], [m], hacc, hwire.trans (List.append_nil _).symm, h.done, ?_⟩,
            iff_of_true rfl (by simp [Socket.push])⟩
          show Queues [] (s.messageQueue ++ [m]) [m]
          rw [hq]
          exact .cons
      | taken n =>
          -- the kernel takes all of it, or the rest waits in the queue
          by_cases hall : min n m.data.length = m.data.length
          · simp only [if_pos hall]
            refine ⟨⟨before ++ [m], [], [], ?_, ?_, ?_, hq ▸ .nil⟩, hw⟩
            · rw [List.append_nil]
              exact hacc
            · show s.wire ++ m.data.take _ = _
              rw [hall, List.take_length, hwire, bytesOf_append, bytesOf_singleton,
                List.append_nil]
            · rw [done_callBack, callbacksOf_append, callbacksOf_singleton]
              exact congrArg (· ++ m.callback.toList) h.done
          · simp only [if_neg hall]
            refine ⟨⟨before, m.data.take (min n m.data.length), [m], hacc, ?_, h.done, ?_⟩,
              by simp [Socket.push]⟩
            · exact congrArg (· ++ m.data.take (min n m.data.length)) hwire
            · show Queues _ (s.messageQueue ++ [_]) _
              rw [hq]
              exact Queues.cut_drop m _ []
  · next hq =>
      refine ⟨⟨before, cut, pending ++ [m], ?_, h.wire, h.done, h.queue.push hq m⟩, ?_⟩
      · show s.accepted ++ [m] = before ++ (pending ++ [m])
        rw [h.accepted, List.append_assoc]
      · show s.writable = true ↔ s.messageQueue ++ [m] ≠ []
        exact hw.trans (iff_of_true hq (by simp))

@[simp] theorem closed_flush (queue : List (Message κ)) (answers : Nat → Answer) (s : Socket κ) :
    (s.flush queue answers).2.closed = s.closed := by
  induction queue generalizing s answers with
  | nil => rfl
  | cons m queue ih =>
      rw [Socket.flush]
      cases answers 0 with
      | failed => rfl
      | wouldBlock => rfl
      | taken n =>
          by_cases hall : min n m.data.length = m.data.length
          · simp only [if_pos hall]
            exact ih _ _
          · simp only [if_neg hall]
            rfl

/-- **The loop of `ioHandler`.** -/
theorem Stands.flush (answers : Nat → Answer) (h : s.Stands queue before cut pending)
    (hw : s.writable = true) :
    (∃ before' cut' pending', (s.flush queue answers).2.Stands
        (s.flush queue answers).2.messageQueue before' cut' pending') ∧
      ((s.flush queue answers).2.writable = true ↔
        (s.flush queue answers).2.messageQueue ≠ []) := by
  induction queue generalizing s before cut pending answers with
  | nil => exact ⟨⟨before, cut, pending, h.accepted, h.wire, h.done, h.queue⟩,
      iff_of_false nofun (fun hne => hne rfl)⟩
  | cons m queue ih =>
      rw [Socket.flush]
      cases answers 0 with
      | failed => exact ⟨⟨before, cut, pending, h.accepted, h.wire, h.done, h.queue⟩,
          iff_of_true hw (List.cons_ne_nil _ _)⟩
      | wouldBlock => exact ⟨⟨before, cut, pending, h.accepted, h.wire, h.done, h.queue⟩,
          iff_of_true hw (List.cons_ne_nil _ _)⟩
      | taken n =>
          dsimp only
          split
          · next hall =>
              rw [hall, List.take_length]
              obtain ⟨before', pending', hs⟩ := h.sent
              exact ih (fun i => answers (i + 1)) hs hw
          · exact ⟨⟨before, cut ++ m.data.take _, pending, h.accepted,
              (congrArg (· ++ m.data.take _) h.wire).trans (List.append_assoc ..), h.done,
              h.queue.cut_more _⟩, iff_of_true hw (List.cons_ne_nil _ _)⟩

/-! ### Every run -/

theorem Orderly.new : ({} : Socket κ).Orderly where
  stands := ⟨[], [], [], [], ⟨rfl, rfl, rfl, .nil⟩, fun _ => rfl⟩
  waits := fun _ => iff_of_false nofun fun hne => hne rfl

theorem Orderly.of_stands (h : ∃ before cut pending, s.Stands s.messageQueue before cut pending)
    (hw : s.writable = true ↔ s.messageQueue ≠ []) : s.Orderly where
  stands := by
    obtain ⟨before, cut, pending, hs⟩ := h
    exact ⟨_, before, cut, pending, hs, fun _ => rfl⟩
  waits := fun _ => hw

theorem done_onEnd (s : Socket κ) : s.onEnd.done = s.done := by
  have hnone : ∀ ms : List (Message κ), ((ms.flatMap fun m =>
      (m.callback.map (·, true)).toList).flatMap fun c : κ × Bool =>
        if c.2 then [] else [c.1]) = [] := by
    intro ms
    induction ms with
    | nil => rfl
    | cons m ms ih =>
        rw [List.flatMap_cons, List.flatMap_append, ih]
        cases m.callback <;> rfl
  rw [done, Socket.onEnd, List.flatMap_append, hnone, List.append_nil, done]

theorem Stands.onEnd (h : s.Stands queue before cut pending) : s.onEnd.Orderly where
  stands := ⟨queue, before, cut, pending,
    ⟨h.accepted, h.wire, (done_onEnd s).trans h.done, h.queue⟩, nofun⟩
  waits := nofun

/-- A socket that is open. -/
theorem Orderly.opened (h : s.Orderly) (hc : s.closed = false) :
    (∃ before cut pending, s.Stands s.messageQueue before cut pending) ∧
      (s.writable = true ↔ s.messageQueue ≠ []) := by
  obtain ⟨queue, before, cut, pending, hs, hq⟩ := h.stands
  exact ⟨⟨before, cut, pending, hq hc ▸ hs⟩, h.waits hc⟩

theorem Orderly.step (h : s.Orderly) (op : Op κ) : (s.step op).Orderly := by
  cases hc : s.closed with
  | true =>
      cases op with
      | send m answer =>
          rw [Socket.step, if_pos hc]
          obtain ⟨queue, before, cut, pending, hs, -⟩ := h.stands
          refine ⟨⟨queue, before, cut, pending, ⟨hs.accepted, hs.wire, ?_, hs.queue⟩,
            fun hc' => absurd (hc.symm.trans hc') (by decide)⟩,
            fun hc' => absurd (hc.symm.trans hc') (by decide)⟩
          rw [done_callBack, if_pos rfl, List.append_nil]
          exact hs.done
      | writable answers =>
          rw [Socket.step, if_pos hc]
          exact h
      | onEnd =>
          rw [Socket.step, if_pos hc]
          exact h
  | false =>
      have hopen : ¬ s.closed = true := by rw [hc]; decide
      obtain ⟨⟨before, cut, pending, hs⟩, hw⟩ := h.opened hc
      cases op with
      | send m answer =>
          rw [Socket.step, if_neg hopen]
          obtain ⟨hs', hw'⟩ := hs.sendTransformed hw answer m
          exact .of_stands hs' hw'
      | writable answers =>
          rw [Socket.step, if_neg hopen, Socket.onWritable]
          split
          · exact h
          next hq =>
          obtain ⟨⟨before', cut', pending', hs'⟩, hw'⟩ :=
            hs.flush answers (hw.mpr hq)
          -- an error ends the connection, after what could be sent
          rcases hf : s.flush s.messageQueue answers with ⟨_ | _, s'⟩
          · rw [hf] at hs' hw'
            exact .of_stands ⟨before', cut', pending', hs'⟩ hw'
          · rw [hf] at hs'
            exact hs'.onEnd
      | onEnd =>
          rw [Socket.step, if_neg hopen]
          exact hs.onEnd

/-- Of the bytes of the messages the kernel has the first. -/
theorem Orderly.wire_le (h : s.Orderly) : s.wire <+: bytesOf s.accepted := by
  obtain ⟨queue, before, cut, pending, hs, -⟩ := h.stands
  rw [hs.wire, hs.accepted, bytesOf_append]
  exact (List.prefix_append_right_inj _).mpr (hs.queue.bytes ▸ List.prefix_append cut _)

/-- The others are in the queue. -/
theorem Orderly.wire_append_queue (h : s.Orderly) (hc : s.closed = false) :
    s.wire ++ bytesOf s.messageQueue = bytesOf s.accepted := by
  obtain ⟨⟨before, cut, pending, hs⟩, -⟩ := h.opened hc
  rw [hs.wire, hs.accepted, bytesOf_append, List.append_assoc, hs.queue.bytes]

/-- A kernel that takes all it is offered empties the queue. -/
theorem flush_all (n : Nat) (hn : ∀ m ∈ queue, m.data.length ≤ n) :
    (s.flush queue fun _ => .taken n).1 = false ∧
      (s.flush queue fun _ => .taken n).2.messageQueue = [] ∧
      (s.flush queue fun _ => .taken n).2.wire = s.wire ++ bytesOf queue := by
  induction queue generalizing s with
  | nil => exact ⟨rfl, rfl, (List.append_nil _).symm⟩
  | cons m queue ih =>
      rw [List.forall_mem_cons] at hn
      have hall : min n m.data.length = m.data.length := Nat.min_eq_right hn.1
      simp only [Socket.flush, hall, List.take_length, if_true]
      obtain ⟨hok, hq, hwire⟩ := ih (s := (s.put m.data).callBack m.callback false) hn.2
      refine ⟨hok, hq, hwire.trans ?_⟩
      show s.wire ++ m.data ++ bytesOf queue = _
      rw [List.append_assoc]
      rfl

/-- **Nothing is stuck**: when the socket can be written to, and the kernel takes it, everything
that was accepted is on its way. -/
theorem Orderly.drains (h : s.Orderly) (hc : s.closed = false) (n : Nat)
    (hn : ∀ m ∈ s.messageQueue, m.data.length ≤ n) :
    (s.step (.writable fun _ => .taken n)).messageQueue = [] ∧
      (s.step (.writable fun _ => .taken n)).wire = bytesOf s.accepted := by
  have hall := h.wire_append_queue hc
  rw [Socket.step, if_neg (by rw [hc]; decide), Socket.onWritable]
  split
  · next hq =>
      rw [hq] at hall
      exact ⟨hq, (List.append_nil _).symm.trans hall⟩
  · obtain ⟨hok, hq, hwire⟩ := flush_all (s := s) n hn
    rcases hf : s.flush s.messageQueue (fun _ => .taken n) with ⟨_ | _, s'⟩
    · rw [hf] at hq hwire
      exact ⟨hq, hwire.trans hall⟩
    · rw [hf] at hok
      cases hok

/-- A message the kernel took three bytes of, and one behind it. -/
theorem drains_two :
    let s : Socket Nat := (step {} (.send ⟨[1, 2, 3, 4], some 0⟩ (.taken 3))).step
      (.send ⟨[5, 6], some 1⟩ .wouldBlock)
    (s.step (.writable fun _ => .taken 100)).wire = [1, 2, 3, 4, 5, 6] :=
  (((Orderly.new.step _).step _).drains (by decide) 100 (by decide)).2

/-! ### The callbacks -/

/-- What is owed: the callbacks called, and those of the messages in the queue. -/
def owed (s : Socket κ) : List κ := s.called.map Prod.fst ++ callbacksOf s.messageQueue

theorem called_callBack (callback : Option κ) (cancelled : Bool) (s : Socket κ) :
    (s.callBack callback cancelled).called.map Prod.fst =
      s.called.map Prod.fst ++ callback.toList := by
  cases callback <;> simp [callBack]

theorem owed_sendTransformed (answer : Answer) (m : Message κ) (s : Socket κ) :
    (s.sendTransformed answer m).owed = s.owed ++ m.callback.toList := by
  rw [Socket.sendTransformed]
  split
  · next hq =>
      simp only [Socket.write, if_pos hq]
      cases answer with
      | failed =>
          show (s.callBack m.callback true).called.map Prod.fst ++ callbacksOf s.messageQueue = _
          rw [called_callBack, owed, hq]
          simp [callbacksOf]
      | wouldBlock =>
          show s.called.map Prod.fst ++ callbacksOf (s.messageQueue ++ [m]) = _
          rw [callbacksOf_append, callbacksOf_singleton, ← List.append_assoc, owed]
      | taken n =>
          by_cases hall : min n m.data.length = m.data.length
          · simp only [if_pos hall]
            show (s.callBack m.callback false).called.map Prod.fst ++
              callbacksOf s.messageQueue = _
            rw [called_callBack, owed, hq]
            simp [callbacksOf]
          · simp only [if_neg hall]
            show s.called.map Prod.fst ++ callbacksOf (s.messageQueue ++ [_]) = _
            rw [callbacksOf_append, callbacksOf_singleton, ← List.append_assoc, owed]
  · show s.called.map Prod.fst ++ callbacksOf (s.messageQueue ++ [m]) = _
    rw [callbacksOf_append, callbacksOf_singleton, ← List.append_assoc, owed]

theorem owed_flush (queue : List (Message κ)) (answers : Nat → Answer) (s : Socket κ) :
    (s.flush queue answers).2.owed = s.called.map Prod.fst ++ callbacksOf queue := by
  induction queue generalizing s answers with
  | nil => rfl
  | cons m queue ih =>
      rw [Socket.flush]
      cases answers 0 with
      | failed => rfl
      | wouldBlock => rfl
      | taken n =>
          by_cases hall : min n m.data.length = m.data.length
          · simp only [if_pos hall]
            rw [ih, called_callBack, List.append_assoc]
            rfl
          · simp only [if_neg hall]
            rfl

theorem owed_onEnd (s : Socket κ) : s.onEnd.owed = s.owed := by
  have hfst : ∀ ms : List (Message κ),
      (ms.flatMap fun m => (m.callback.map (·, true)).toList).map Prod.fst = callbacksOf ms := by
    intro ms
    induction ms with
    | nil => rfl
    | cons m ms ih =>
        rw [List.flatMap_cons, List.map_append, ih, callbacksOf, callbacksOf, List.flatMap_cons]
        cases m.callback <;> rfl
  rw [owed, Socket.onEnd, List.map_append, hfst, owed]
  exact List.append_nil _

@[simp] theorem closed_sendTransformed (answer : Answer) (m : Message κ) (s : Socket κ) :
    (s.sendTransformed answer m).closed = s.closed := by
  rw [Socket.sendTransformed]
  split
  · next hq =>
      simp only [Socket.write, if_pos hq]
      cases answer with
      | failed => rfl
      | wouldBlock => rfl
      | taken n =>
          by_cases hall : min n m.data.length = m.data.length
          · simp only [if_pos hall]
            rfl
          · simp only [if_neg hall]
            rfl
  · rfl

theorem owed_step (hc : s.closed = true → s.messageQueue = []) (op : Op κ) :
    (s.step op).owed = s.owed ++ callbacksOf (messagesOf [op]) ∧
      ((s.step op).closed = true → (s.step op).messageQueue = []) := by
  have hnone : s.owed = s.owed ++ callbacksOf [] := (List.append_nil _).symm
  cases op with
  | send m answer =>
      rw [Socket.step, show messagesOf [Op.send m answer] = [m] from rfl, callbacksOf_singleton]
      split
      · next hclosed =>
          refine ⟨?_, hc⟩
          show (s.callBack m.callback true).called.map Prod.fst ++ callbacksOf s.messageQueue = _
          rw [called_callBack, owed, hc hclosed]
          simp [callbacksOf]
      · next hopen =>
          refine ⟨owed_sendTransformed answer m s, fun h => absurd ?_ hopen⟩
          rw [← h, closed_sendTransformed]
  | writable answers =>
      rw [Socket.step, show messagesOf [Op.writable answers] = [] from rfl]
      split
      · exact ⟨hnone, hc⟩
      · next hopen =>
          rw [Socket.onWritable]
          split
          · exact ⟨hnone, hc⟩
          · have hflush := owed_flush s.messageQueue answers s
            rcases hf : s.flush s.messageQueue answers with ⟨_ | _, s'⟩
            · rw [hf] at hflush
              refine ⟨hflush.trans hnone, fun h => absurd ?_ hopen⟩
              rw [← h, ← closed_flush s.messageQueue answers s, hf]
            -- an error: the callbacks of what is left are called as cancelled
            · rw [hf] at hflush
              exact ⟨(owed_onEnd s').trans (hflush.trans hnone), fun _ => rfl⟩
  | onEnd =>
      rw [Socket.step, show messagesOf [Op.onEnd] = [] from rfl]
      split
      · exact ⟨hnone, hc⟩
      · exact ⟨(owed_onEnd s).trans hnone, fun _ => rfl⟩

theorem messagesOf_cons (op : Op κ) (ops : List (Op κ)) :
    messagesOf (op :: ops) = messagesOf [op] ++ messagesOf ops := by
  rw [messagesOf, messagesOf, messagesOf, List.flatMap_cons, List.flatMap_singleton]

/-- Whether a message is accepted. -/
def takes (s : Socket κ) (answer : Answer) : Bool :=
  !s.closed && (!s.messageQueue.isEmpty || decide (answer ≠ .failed))

theorem wire_sendTransformed (answer : Answer) (m : Message κ) (s : Socket κ) :
    s.wire <+: (s.sendTransformed answer m).wire ∧
      (s.sendTransformed answer m).accepted =
        if !s.messageQueue.isEmpty || decide (answer ≠ .failed) then s.accepted ++ [m]
        else s.accepted := by
  rw [sendTransformed]
  split
  · next hq =>
      simp only [write, if_pos hq]
      cases answer with
      | failed => exact ⟨List.prefix_rfl, by rw [hq]; rfl⟩
      | wouldBlock => exact ⟨List.prefix_rfl, by simp [accept, push]⟩
      | taken n =>
          by_cases hall : min n m.data.length = m.data.length
          · simp only [if_pos hall]
            exact ⟨List.prefix_append _ _, by simp [accept, put, callBack]⟩
          · simp only [if_neg hall]
            exact ⟨List.prefix_append _ _, by simp [accept, put, push]⟩
  · next hq =>
      have hne : s.messageQueue.isEmpty = false := by simpa using hq
      exact ⟨List.prefix_rfl, by rw [hne]; rfl⟩

theorem wire_flush (queue : List (Message κ)) (answers : Nat → Answer) (s : Socket κ) :
    s.wire <+: (s.flush queue answers).2.wire ∧
      (s.flush queue answers).2.accepted = s.accepted := by
  induction queue generalizing s answers with
  | nil => exact ⟨List.prefix_rfl, rfl⟩
  | cons m queue ih =>
      rw [flush]
      cases answers 0 with
      | failed => exact ⟨List.prefix_rfl, rfl⟩
      | wouldBlock => exact ⟨List.prefix_rfl, rfl⟩
      | taken n =>
          by_cases hall : min n m.data.length = m.data.length
          · simp only [if_pos hall]
            obtain ⟨hwire, hacc⟩ := ih (fun i => answers (i + 1))
              ((s.put (m.data.take (min n m.data.length))).callBack m.callback false)
            exact ⟨(List.prefix_append _ _).trans hwire, hacc⟩
          · simp only [if_neg hall]
            exact ⟨List.prefix_append _ _, rfl⟩

/-- What the kernel has taken it keeps; a message is accepted or not. -/
theorem wire_step (op : Op κ) : s.wire <+: (s.step op).wire ∧
    (s.step op).accepted = match op with
      | .send m answer => if s.takes answer then s.accepted ++ [m] else s.accepted
      | _ => s.accepted := by
  cases hc : s.closed with
  | true => cases op <;> simp [step, takes, hc, callBack]
  | false =>
      cases op with
      | send m answer =>
          have h := wire_sendTransformed answer m s
          simpa [step, takes, hc] using h
      | writable answers =>
          simp only [step, hc, onWritable, Bool.false_eq_true, if_false]
          split
          · exact ⟨List.prefix_rfl, rfl⟩
          · have h := wire_flush s.messageQueue answers s
            rcases hf : s.flush s.messageQueue answers with ⟨_ | _, s'⟩
            · rw [hf] at h
              exact h
            · rw [hf] at h
              exact h
      | onEnd =>
          simp only [step, hc, Bool.false_eq_true, if_false]
          exact ⟨List.prefix_rfl, rfl⟩

end

end Socket

end PBTransfor.Uws
