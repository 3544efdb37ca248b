import PBTransfor.Uws.Safety

/-!
# Uws — what a WebSocket does in the course of its life

In every run, with compression or without, and whatever its handlers do to it (`run_lawful`): a
text that is delivered is text; a ping is answered before its handler is called; before the
disconnection handler is called nothing has ended, and after it nothing is delivered; it is told to
be closed exactly when it is.
-/

namespace PBTransfor.Uws

open Library

namespace Event

/-- The other side has sent something. -/
def delivers : Event → Bool
  | .message _ _ | .ping _ | .pong _ => true
  | _ => false

/-- It is over. -/
def ends : Event → Bool
  | .disconnection _ _ | .closed => true
  | _ => false

end Event

namespace Channel

structure Lawful (ch : Channel) : Prop where
  text : ∀ d, .message d OpCode.TEXT.byte ∈ ch.trace → Utf8 d
  ping : ∀ pre d post, ch.trace = pre ++ .ping d :: post →
    ∃ pre', pre = pre' ++ [.sent d OpCode.PONG]
  live : ch.ended = false → ∀ e ∈ ch.trace, e.ends = false
  finished : ∀ pre e post, ch.trace = pre ++ e :: post → e.ends = true →
    ∀ e' ∈ post, e'.delivers = false
  closed : .closed ∈ ch.trace ↔ ch.closed = true
  opCode : ∀ d op, .message d op ∈ ch.trace → op < 3

section
variable {ch ch' : Channel} {e : Event} {G : Group} {data : List Byte} {opCode : Byte}

theorem lawful_new : Lawful {} where
  text := nofun
  ping := fun _ _ _ h => by simp at h
  live := fun _ => nofun
  finished := fun _ _ _ h => by simp at h
  closed := iff_of_false List.not_mem_nil (by decide)
  opCode := nofun

/-- A list with one more element at its end, split somewhere. -/
theorem concat_eq_append_cons {α : Type*} {l pre post : List α} {a b : α}
    (h : l ++ [a] = pre ++ b :: post) :
    (post = [] ∧ l = pre ∧ a = b) ∨ ∃ post', post = post' ++ [a] ∧ l = pre ++ b :: post' := by
  rcases List.eq_nil_or_concat post with rfl | ⟨post', c, hc⟩
  · obtain ⟨rfl, h1⟩ := List.append_inj' h rfl
    exact Or.inl ⟨rfl, rfl, List.singleton_inj.mp h1⟩
  · rw [hc, List.concat_eq_append, ← List.cons_append, ← List.append_assoc] at h
    obtain ⟨rfl, h1⟩ := List.append_inj' h rfl
    rw [hc, List.concat_eq_append, List.singleton_inj.mp h1]
    exact Or.inr ⟨post', rfl, rfl⟩

/-- What happens is no delivery. -/
theorem Lawful.quiet (h : ch.Lawful) (htr : ch'.trace = ch.trace ++ [e])
    (he : e.delivers = false)
    (hlive : ch'.ended = false → ch.ended = false ∧ e.ends = false)
    (hclosed : ch'.closed = true ↔ e = .closed ∨ ch.closed = true) : ch'.Lawful where
  text := fun d hd => by
    rw [htr, List.mem_append, List.mem_singleton] at hd
    rcases hd with hd | rfl
    · exact h.text d hd
    · cases he
  ping := fun pre d post hsplit => by
    rw [htr] at hsplit
    rcases concat_eq_append_cons hsplit with ⟨-, -, rfl⟩ | ⟨post', -, hpre⟩
    · cases he
    · exact h.ping pre d post' hpre
  live := fun hend e' he' => by
    rw [htr, List.mem_append, List.mem_singleton] at he'
    obtain ⟨hch, hno⟩ := hlive hend
    rcases he' with he' | rfl
    · exact h.live hch e' he'
    · exact hno
  finished := fun pre e₁ post hsplit hends => by
    rw [htr] at hsplit
    rcases concat_eq_append_cons hsplit with ⟨rfl, -, -⟩ | ⟨post', rfl, hpre⟩
    · nofun
    · intro e' he'
      rw [List.mem_append, List.mem_singleton] at he'
      rcases he' with he' | rfl
      · exact h.finished pre e₁ post' hpre hends e' he'
      · exact he
  closed := by
    rw [htr, List.mem_append, List.mem_singleton, or_comm, eq_comm, h.closed, hclosed]
  opCode := fun d op hd => by
    rw [htr, List.mem_append, List.mem_singleton] at hd
    rcases hd with hd | rfl
    · exact h.opCode d op hd
    · cases he

/-- Something is delivered, while nothing has ended. -/
theorem Lawful.deliver (h : ch.Lawful) (hlive : ch.ended = false) (he : e.ends = false)
    (htext : ∀ d, e = .message d OpCode.TEXT.byte → Utf8 d)
    (hop : ∀ d op, e = .message d op → op < 3)
    (hping : ∀ d, e = .ping d → ∃ pre, ch.trace = pre ++ [.sent d OpCode.PONG]) :
    (ch.record e).Lawful where
  text := fun d hd => by
    rw [record_trace, List.mem_append, List.mem_singleton] at hd
    rcases hd with hd | hd
    · exact h.text d hd
    · exact htext d hd.symm
  ping := fun pre d post hsplit => by
    rw [record_trace] at hsplit
    rcases concat_eq_append_cons hsplit with ⟨-, rfl, hd⟩ | ⟨post', -, hpre⟩
    · exact hping d hd
    · exact h.ping pre d post' hpre
  live := fun _ e' he' => by
    rw [record_trace, List.mem_append, List.mem_singleton] at he'
    rcases he' with he' | rfl
    · exact h.live hlive e' he'
    · exact he
  finished := fun pre e₁ post hsplit hends => by
    rw [record_trace] at hsplit
    have hno : e₁.ends = false := by
      rcases concat_eq_append_cons hsplit with ⟨-, -, rfl⟩ | ⟨post', -, hpre⟩
      · exact he
      · exact h.live hlive e₁ (by rw [hpre]; exact List.mem_append_right _ List.mem_cons_self)
    exact absurd (hends.symm.trans hno) (by decide)
  closed := by
    rw [record_trace, List.mem_append, List.mem_singleton, h.closed]
    refine or_iff_left ?_
    rintro rfl
    cases he
  opCode := fun d op hd => by
    rw [record_trace, List.mem_append, List.mem_singleton] at hd
    rcases hd with hd | hd
    · exact h.opCode d op hd
    · exact hop d op hd.symm

theorem Lawful.send (h : ch.Lawful) (message : List Byte) (opCode : OpCode) :
    (ch.send message opCode).Lawful := by
  rw [Channel.send]
  split
  · exact h
  · refine h.quiet rfl rfl (fun hend => ⟨hend, rfl⟩) ?_
    exact (or_iff_right Event.noConfusion).symm

theorem Lawful.onEnd (h : ch.Lawful) : ch.onEnd.Lawful := by
  have hclose : ∀ ch₁ : Channel, ch₁.Lawful →
      ({ ch₁.record .closed with closed := true } : Channel).Lawful :=
    fun ch₁ h₁ => h₁.quiet rfl rfl (fun hend => by simp [Channel.ended] at hend)
      (iff_of_true rfl (Or.inl rfl))
  rw [Channel.onEnd]
  split
  · exact hclose ch h
  · -- between the two events the channel is as good as over
    have hdis : ({ ch.record (.disconnection 1006 []) with shuttingDown := true } :
        Channel).Lawful :=
      h.quiet rfl rfl (fun hend => by simp [Channel.ended] at hend)
        (or_iff_right Event.noConfusion).symm
    exact hdis.quiet rfl rfl (fun hend => by simp [Channel.ended] at hend)
      (iff_of_true rfl (Or.inl rfl))

theorem Lawful.terminate (h : ch.Lawful) : ch.terminate.Lawful := by
  rw [Channel.terminate]
  split
  · exact h
  · exact h.onEnd

theorem Lawful.close (h : ch.Lawful) (code : Nat) (message : List Byte) :
    (ch.close code message).Lawful := by
  have hdis : ({ ch.record (.disconnection code (message.take 123)) with
      shuttingDown := true } : Channel).Lawful :=
    h.quiet rfl rfl (fun hend => by simp [Channel.ended] at hend)
      (or_iff_right Event.noConfusion).symm
  exact hdis.send _ _

theorem Lawful.call (h : ch.Lawful) (c : Call) : (ch.call c).Lawful := by
  cases c with
  | send message opCode => exact h.send message opCode
  | close code message => exact h.close code message
  | terminate => exact h.terminate

theorem Lawful.foldl_call (h : ch.Lawful) (cs : List Call) : (cs.foldl Channel.call ch).Lawful := by
  induction cs generalizing ch with
  | nil => exact h
  | cons c cs ih => exact ih (h.call c)

/-- **What the other side sends is treated lawfully.** -/
theorem Lawful.arrive (h : ch.Lawful) (hlive : ch.ended = false) :
    (ch.arrive G data opCode).2.Lawful := by
  rw [Channel.arrive]
  split
  · next hop =>
      rw [Channel.message]
      split
      · exact h.terminate
      next hutf =>
        refine (h.deliver hlive rfl (fun d hd => ?_) (fun d op hd => ?_)
          (fun _ hd => Event.noConfusion hd)).foldl_call _
        · cases hd
          rw [← isValidUtf8_iff]
          exact Bool.eq_true_of_not_eq_false fun hno => hutf ⟨rfl, hno⟩
        · cases hd
          exact hop
  · rw [Channel.control]
    split
    · exact h.close _ _
    split
    · have hopen : ch.closed = false := by
        rw [ended, Bool.or_eq_false_iff] at hlive
        exact hlive.1
      have hsent : ch.send data OpCode.PONG = ch.record (.sent data OpCode.PONG) :=
        if_neg (by rw [hopen]; decide)
      refine ((h.send data OpCode.PONG).deliver ((send_ended _ ch).trans hlive) rfl
        (fun _ hd => Event.noConfusion hd) (fun _ _ hd => Event.noConfusion hd)
        (fun d hd => ?_)).foldl_call _
      cases hd
      exact ⟨ch.trace, by rw [hsent, record_trace]⟩
    split
    · exact (h.deliver hlive rfl (fun _ hd => Event.noConfusion hd)
        (fun _ _ hd => Event.noConfusion hd) (fun _ hd => Event.noConfusion hd)).foldl_call _
    · exact h

theorem Lawful.arriveAll (h : ch.Lawful) (ms : List (List Byte × Byte)) :
    (Channel.arriveAll G ms ch).Lawful := by
  induction ms generalizing ch with
  | nil => exact h
  | cons m ms ih =>
      cases hend : ch.ended with
      | true => rwa [arriveAll_ended hend]
      | false =>
          rw [arriveAll_cons hend]
          exact ih (h.arrive hend)

end

end Channel

/-! ### Runs -/

namespace WebSocket

variable {G : Group} {isServer : Bool} {recvBuffer : Nat}

/-- What can come of a fragment: nothing yet, an end, or that something has arrived. -/
def Comes (G : Group) (op : Byte) (ch : Channel) (r : Bool × WebSocket) : Prop :=
  r.1 = false ∧ r.2.channel = ch ∨ r.1 = true ∧ r.2.channel = ch.terminate ∨
    ∃ data, r.1 = (ch.arrive G data op).1 ∧ r.2.channel = (ch.arrive G data op).2

section
variable {op : Byte} {ch : Channel} {r : Bool × WebSocket}

/-- Whatever is done to the buffers when it goes on. -/
theorem comes_clear {f : WebSocket → WebSocket} (hf : ∀ w, (f w).channel = w.channel) :
    Comes G op ch r →
      Comes G op ch (match r with
        | (true, w) => (true, w)
        | (false, w) => (false, f w)) := by
  intro h
  rcases r with ⟨_ | _, w⟩
  · rcases h with ⟨hr, hch⟩ | ⟨hr, -⟩ | ⟨data, hr, hch⟩
    · exact Or.inl ⟨rfl, (hf w).trans hch⟩
    · cases hr
    · exact Or.inr (Or.inr ⟨data, hr, (hf w).trans hch⟩)
  · exact h

theorem comes_message (hop : op < 3) (data : List Byte) (w : WebSocket) :
    Comes G op w.channel (w.message G data op) := by
  rw [message]
  split
  · dsimp only
    split
    · exact Or.inr (Or.inl ⟨rfl, rfl⟩)
    · next data' _ =>
        refine Or.inr (Or.inr ⟨data', ?_⟩)
        rw [Channel.arrive_of_lt hop]
        exact ⟨rfl, rfl⟩
  · refine Or.inr (Or.inr ⟨data, ?_⟩)
    rw [Channel.arrive_of_lt hop]
    exact ⟨rfl, rfl⟩

theorem comes_control (hop : ¬ op < 3) (data : List Byte) (w : WebSocket) :
    Comes G op w.channel (w.answer (w.channel.control G data op)) := by
  refine Or.inr (Or.inr ⟨data, ?_⟩)
  rw [Channel.arrive_of_ge hop]
  exact ⟨rfl, rfl⟩

theorem comes_handleFragment (d : List Byte) (n : Nat) (op : Byte) (fin : Bool) (w : WebSocket) :
    Comes G op w.channel (w.handleFragment G d n op fin) := by
  rw [handleFragment]
  split
  · next hop =>
      split
      · exact comes_message hop d w
      dsimp only
      split
      · exact comes_clear (fun _ => rfl) (comes_message hop (w.fragmentBuffer ++ d)
          { w with fragmentBuffer := w.fragmentBuffer ++ d })
      · exact Or.inl ⟨rfl, rfl⟩
  · next hop =>
      split
      · exact comes_control hop d w
      dsimp only
      split
      · exact comes_clear (fun _ => rfl) (comes_control hop _ { w with
          fragmentBuffer := w.fragmentBuffer ++ d
          controlTipLength := (w.controlTipLength + d.length) % 256 })
      · exact Or.inl ⟨rfl, rfl⟩

end

/-- What is kept of a channel by an end, and when something arrives. -/
theorem keeps {Q : Channel → Prop}
    (hterminate : ∀ {ch}, Q ch → ch.ended = false → Q ch.terminate)
    (harrive : ∀ {ch} (data op), Q ch → ch.ended = false → Q (ch.arrive G data op).2) :
    (impl G).Keeps fun w => Q w.channel where
  setCompressed := fun {w} h hl => by
    show Q (setCompressed w).2.channel ∧ (setCompressed w).2.channel.ended = false
    rw [setCompressed]
    split <;> exact ⟨h, hl⟩
  forceClose := fun h hl => hterminate h hl
  handleFragment := fun {w} d n op fin h hl => by
    show Q (w.handleFragment G d n op fin).2.channel ∧ ((w.handleFragment G d n op fin).1 = false →
      (w.handleFragment G d n op fin).2.channel.ended = false)
    rcases comes_handleFragment (G := G) d n op fin w with ⟨-, hch⟩ | ⟨hr, hch⟩ | ⟨data, hr, hch⟩
    · exact ⟨hch ▸ h, fun _ => hch ▸ hl⟩
    · exact ⟨hch ▸ hterminate h hl, fun hr' => absurd (hr.symm.trans hr') (by decide)⟩
    · refine ⟨hch ▸ harrive data op h hl, fun hr' => ?_⟩
      rw [hch, ← Channel.arrive_fst G data op hl, ← hr]
      exact hr'

/-- **`consume` stays in the receive buffer**, in every state that is reached, whatever arrives
next. -/
theorem run_confined (hpad : CONSUME_PRE_PADDING isServer ≤ recvBuffer) (perMessageDeflate : Bool)
    (recvs : List (Memory Byte × Nat)) (mem : Memory Byte) (length : Nat)
    (hlive : (run G isServer recvBuffer (new perMessageDeflate) recvs).2.channel.ended = false) :
    let k := run G isServer recvBuffer (new perMessageDeflate) recvs
    let c := consume (impl G) isServer ⟨mem, recvBuffer, length, k.1, k.2⟩
    k.1.Sound isServer ∧ c.wState.Sound isServer ∧
      ∀ a, a + CONSUME_PRE_PADDING isServer < recvBuffer ∨
        recvBuffer + length + CONSUME_POST_PADDING ≤ a → c.mem a = mem a := by
  have hkeeps : (impl G).Keeps fun _ => True :=
    keeps (Q := fun _ => True) (fun _ _ => trivial) (fun _ _ _ _ => trivial)
  have hrun := run_keeps hkeeps hpad (sound_new isServer perMessageDeflate) trivial recvs
  obtain ⟨-, hs, hmem⟩ := consume_confined
    (c := ⟨mem, recvBuffer, length, (run G isServer recvBuffer (new perMessageDeflate) recvs).1,
      (run G isServer recvBuffer (new perMessageDeflate) recvs).2⟩) hkeeps
    (fun h => refusePayloadLength_bounded h) trivial hlive hrun.1 hpad
  exact ⟨hrun.1, hs, hmem⟩

/-- Behind a chunk that ends in a header. -/
theorem run_confined_interrupted :
    let k := run plainGroup true 13 (new false) [chunkAt 13 ((framesBytes true interrupted).take 3)]
    let c := consume (impl plainGroup) true
      ⟨fun _ => 170, 13, (framesBytes true interrupted).length, k.1, k.2⟩
    k.1.Sound true ∧ c.wState.Sound true ∧
      ∀ a, a + CONSUME_PRE_PADDING true < 13 ∨
        13 + (framesBytes true interrupted).length + CONSUME_POST_PADDING ≤ a → c.mem a = 170 :=
  run_confined (by decide) false _ _ _ (by decide)

end WebSocket

end PBTransfor.Uws
