import PBTransfor.Uws.Receiver

/-!
# Uws — chunk by chunk is frame by frame

`consume` hands `Impl` what it has of a payload, leaves the front of a header in `spill`, and
unmasks in the buffer it reads from.  `Impl.Steady` is what it relies on in `Impl`: that payloads
given in pieces come to the same as payloads given whole.  Then, after any chunks, `Impl` has been
told what the frame-by-frame reader of the whole stream tells it (`onData_refines`).
-/

namespace PBTransfor.Uws

open Library

/-! ### The stack of opcodes -/

/-- `opCode` and `opStack` hold `l`, the innermost first. -/
def WebSocketState.Stacks (s : WebSocketState) : List Byte → Prop
  | [] => s.opStack = -1
  | [a] => s.opStack = 0 ∧ s.opCode 0 = a
  | [b, a] => s.opStack = 1 ∧ s.opCode 1 = b ∧ s.opCode 0 = a
  | _ => False

section
variable {s : WebSocketState} {l : List Byte} {op : Byte}

theorem WebSocketState.popIf_wantsHead (s : WebSocketState) (fin : Bool) :
    (s.popIf fin).wantsHead = s.wantsHead := by cases fin <;> rfl

theorem WebSocketState.popIf_lastFin (s : WebSocketState) (fin : Bool) :
    (s.popIf fin).lastFin = s.lastFin := by cases fin <;> rfl

theorem WebSocketState.popIf_spillLength (s : WebSocketState) (fin : Bool) :
    (s.popIf fin).spillLength = s.spillLength := by cases fin <;> rfl

theorem WebSocketState.Stacks.length_le (h : s.Stacks l) : l.length ≤ 2 := by
  rcases l with _ | ⟨a, _ | ⟨b, _ | ⟨c, l⟩⟩⟩
  · simp
  · simp
  · simp
  · exact h.elim

theorem WebSocketState.Stacks.nil_iff (h : s.Stacks l) : s.opStack = -1 ↔ l = [] := by
  rcases l with _ | ⟨a, _ | ⟨b, _ | ⟨c, l⟩⟩⟩
  · exact iff_of_true h rfl
  · exact iff_of_false (by rw [h.1]; decide) (by simp)
  · exact iff_of_false (by rw [h.1]; decide) (by simp)
  · exact h.elim

theorem WebSocketState.Stacks.full_iff (h : s.Stacks l) : s.opStack = 1 ↔ l.length = 2 := by
  rcases l with _ | ⟨a, _ | ⟨b, _ | ⟨c, l⟩⟩⟩
  · exact iff_of_false (by rw [show s.opStack = -1 from h]; decide) (by simp)
  · exact iff_of_false (by rw [h.1]; decide) (by simp)
  · exact iff_of_true h.1 rfl
  · exact h.elim

theorem WebSocketState.Stacks.push (h : s.Stacks l) (hl : l.length ≠ 2) :
    (s.push op).Stacks (op :: l) := by
  rcases l with _ | ⟨a, _ | ⟨b, l⟩⟩
  · have hs : s.opStack = -1 := h
    simp [WebSocketState.Stacks, WebSocketState.push, hs]
  · simp [WebSocketState.Stacks, WebSocketState.push, h.1, h.2]
  · have := h.length_le
    simp only [List.length_cons] at this hl
    omega

theorem WebSocketState.Stacks.top (h : s.Stacks (op :: l)) : s.topOpCode = op := by
  rcases l with _ | ⟨a, _ | ⟨b, l⟩⟩
  · rw [WebSocketState.topOpCode, h.1, h.2]
  · rw [WebSocketState.topOpCode, h.1, h.2.1]
  · exact h.elim

theorem WebSocketState.Stacks.pop (h : s.Stacks (op :: l)) : (s.popIf true).Stacks l := by
  rcases l with _ | ⟨a, _ | ⟨b, l⟩⟩
  · simp [WebSocketState.Stacks, WebSocketState.popIf, h.1]
  · simp [WebSocketState.Stacks, WebSocketState.popIf, h.1, h.2.2]
  · exact h.elim

end

/-! ### What is asked of `Impl` -/

section
variable {σ ω : Type*}

/-- Two answers of `handleFragment` are as good as each other: `obs` does not tell them apart,
and if the connection goes on, nothing does. -/
def Agree (obs : σ → ω) (r r' : Bool × σ) : Prop :=
  r.1 = r'.1 ∧ obs r.2 = obs r'.2 ∧ (r.1 = false → r.2 = r'.2)

theorem Agree.symm {obs : σ → ω} {r r' : Bool × σ} (h : Agree obs r r') : Agree obs r' r :=
  ⟨h.1.symm, h.2.1.symm, fun hr => (h.2.2 (h.1.trans hr)).symm⟩

theorem Agree.trans {obs : σ → ω} {r₁ r₂ r₃ : Bool × σ} (h : Agree obs r₁ r₂)
    (h' : Agree obs r₂ r₃) : Agree obs r₁ r₃ :=
  ⟨h.1.trans h'.1, h.2.1.trans h'.2.1,
    fun hr => (h.2.2 hr).trans (h'.2.2 (h.1.symm.trans hr))⟩

/-- `Ready` holds between two frames, and `Within op fin n` when `n` bytes are missing of the
payload of a frame. -/
structure Impl.Steady (I : Impl σ) (obs : σ → ω) where
  Ready : σ → Prop
  Within : Byte → Bool → Nat → σ → Prop
  ready_ended : ∀ {s}, Ready s → I.ended s = false
  within_ended : ∀ {op fin n s}, Within op fin n s → I.ended s = false
  setCompressed : ∀ {s}, Ready s → I.setCompressed s = (false, s)
  bounded : ∀ {n s}, I.refusePayloadLength n s = false → n < 2 ^ 32
  ended_forceClose : ∀ {s}, Ready s → I.ended (I.forceClose s) = true
  enter : ∀ {op fin n s}, Ready s → (2 < op → fin = true ∧ n ≤ 125) → Within op fin n s
  more : ∀ {op fin n s} (d), Within op fin (d.length + n) s → 0 < n →
    (I.handleFragment d n op fin s).1 = false ∧
      Within op fin n (I.handleFragment d n op fin s).2 ∧
      obs (I.handleFragment d n op fin s).2 = obs s
  ready : ∀ {op fin s} (d), Within op fin d.length s →
    (I.handleFragment d 0 op fin s).1 = false → Ready (I.handleFragment d 0 op fin s).2
  ended : ∀ {op fin s} (d), Within op fin d.length s →
    (I.handleFragment d 0 op fin s).1 = true → I.ended (I.handleFragment d 0 op fin s).2 = true
  split : ∀ {op fin n s} (d e), Within op fin (d.length + (e.length + n)) s → 0 < e.length + n →
    Agree obs (I.handleFragment e n op fin (I.handleFragment d (e.length + n) op fin s).2)
      (I.handleFragment (d ++ e) n op fin s)

variable {I : Impl σ} {obs : σ → ω}

/-- Between two frames, what `consume` keeps is what the reader keeps. -/
structure Between (S : I.Steady obs) (s : WebSocketState) (q : Receiver σ) : Prop where
  notOver : q.finished = false
  ready : S.Ready q.impl
  stack : s.Stacks q.opCodes
  lastFin : s.lastFin = q.lastFin
  /-- A message that has begun is no control frame. -/
  data : ∀ op ∈ q.opCodes, op ≤ 2

/-- The header at the front of `b` is there, and the frame is not refused for it. -/
structure Entered (I : Impl σ) (isServer : Bool) (q : Receiver σ) (b : List Byte) : Prop where
  header : headerLength isServer b ≤ b.length
  malformed : frameMalformed b = false
  refuses : ¬ q.Refuses I b

/-- In the middle of a payload: `b` is what has arrived of its frame. -/
structure Inside (S : I.Steady obs) (isServer : Bool) (s : WebSocketState) (q : Receiver σ)
    (b : List Byte) : Prop where
  notOver : q.finished = false
  ready : S.Ready q.impl
  data : ∀ op ∈ q.opCodes, op ≤ 2
  entered : Entered I isServer q b
  wantsHead : s.wantsHead = false
  spillLength : s.spillLength = 0
  stack : s.Stacks (q.begun b)
  lastFin : s.lastFin = frameFin b
  remainingBytes : s.remainingBytes + b.length = headerLength isServer b + frameLength b
  missing : 0 < s.remainingBytes
  mask : isServer = true → s.mask =
    rotateMask (4 - (b.length - headerLength isServer b) % 4) (frameMask isServer b)

/-- The states of a connection, and what the frame-by-frame reader has: its state, and the bytes
it could not use yet. -/
inductive Reads (S : I.Steady obs) (isServer : Bool) :
    WebSocketState × σ → Receiver σ × List Byte → Prop where
  | finished {s impl q b} (hq : q.finished = true) (he : I.ended impl = true)
      (ho : obs impl = obs q.impl) : Reads S isServer (s, impl) (q, b)
  | head {s q b} (hb : Between S s q) (hw : s.wantsHead = true)
      (hl : s.spillLength = b.length) (hs : s.spill.take s.spillLength = b)
      (hn : q.step I isServer b = none) (hh : b.length < headerLength isServer b) :
      Reads S isServer (s, q.impl) (q, b)
  | body {s q b} (hi : Inside S isServer s q b) :
      Reads S isServer
        (s, (q.hand I b (framePayload isServer b) s.remainingBytes).2) (q, b)

end

/-! ### One round of the loop -/

/-- How wide the sum is that says where a frame ends. -/
def frameBits (b : List Byte) : Nat := if payloadLength (b.getD 1 0) ≤ 126 then 32 else 64

section
variable {σ ω : Type*} {I : Impl σ} {obs : σ → ω} {isServer : Bool} {c : Consumer σ}

/-- What has arrived. -/
def Consumer.bytes (c : Consumer σ) : List Byte := read c.mem c.src c.length

@[simp] theorem Consumer.length_bytes : c.bytes.length = c.length := length_read _ _ _

theorem Consumer.getD_bytes {i : Nat} (h : i < c.length) :
    c.bytes.getD i 0 = c.mem (c.src + i) := getD_read _ _ h _

theorem Consumer.drop_bytes {i : Nat} (h : i ≤ c.length) :
    c.bytes.drop i = read c.mem (c.src + i) (c.length - i) := drop_read _ _ h

/-- A field of a header. -/
theorem Consumer.take_drop_bytes {i n : Nat} (h : i + n ≤ c.length) :
    (c.bytes.drop i).take n = read c.mem (c.src + i) n := by
  rw [Consumer.drop_bytes (by omega), take_read _ _ (by omega)]

theorem Consumer.refusesCompressed_eq (hset : I.setCompressed c.impl = (false, c.impl)) :
    c.refusesCompressed I = (rsv1 (c.mem c.src), c) := by
  rw [Consumer.refusesCompressed, hset]
  cases rsv1 (c.mem c.src) <;> rfl

theorem parseNext_short (fuel : Nat) (h : c.length < SHORT_MESSAGE_HEADER isServer) :
    parseNext I isServer (fuel + 1) c = c.spill := by
  rw [parseNext, if_pos h]

/-- A round of the loop, in terms of the frame at the front of what has arrived. -/
theorem parseNext_succ (fuel : Nat) (h : SHORT_MESSAGE_HEADER isServer ≤ c.length)
    (hset : I.setCompressed c.impl = (false, c.impl)) :
    parseNext I isServer (fuel + 1) c =
      if frameMalformed c.bytes then c.forceClose I
      else if c.length < headerLength isServer c.bytes then c.spill
      else .proceed (parseNext I isServer fuel) (consumeMessage I isServer
        (headerLength isServer c.bytes) (frameBits c.bytes) (frameLength c.bytes) c) := by
  have h2 := two_le_short isServer
  have h₀ : c.bytes.getD 0 0 = c.mem c.src := Consumer.getD_bytes (by omega)
  have h₁ : c.bytes.getD 1 0 = c.mem (c.src + 1) := Consumer.getD_bytes (by omega)
  rw [parseNext, if_neg (by omega), Consumer.refusesCompressed_eq hset]
  simp only [frameMalformed, headerLength, frameLength, frameBits, h₀, h₁]
  split
  · rfl
  by_cases hl : payloadLength (c.mem (c.src + 1)) < 126
  · have hle : payloadLength (c.mem (c.src + 1)) ≤ 126 := by omega
    simp only [if_pos hl, if_neg (Nat.not_lt.mpr h), if_pos hle]
  by_cases hm : payloadLength (c.mem (c.src + 1)) = 126
  · simp only [if_neg hl, if_pos hm, if_pos (Nat.le_of_eq hm)]
    split
    · rfl
    · next hlen =>
        have h4 : 2 + 2 ≤ c.length :=
          Nat.le_trans (by cases isServer <;> decide) (Nat.le_of_not_lt hlen)
        rw [Consumer.take_drop_bytes h4]
  · have hgt : ¬ payloadLength (c.mem (c.src + 1)) ≤ 126 := by omega
    simp only [if_neg hl, if_neg hm, if_neg hgt]
    split
    · rfl
    · next hlen =>
        have h10 : 2 + 8 ≤ c.length :=
          Nat.le_trans (by cases isServer <;> decide) (Nat.le_of_not_lt hlen)
        rw [Consumer.take_drop_bytes h10]

end

/-! ### A frame whose header is there -/

/-- A control frame is one final frame, of at most 125 bytes. -/
theorem control_of_not_malformed {b₀ b₁ : Byte} (h : malformed b₀ b₁ = false)
    (hop : 2 < getOpCode b₀) : isFin b₀ = true ∧ payloadLength b₁ ≤ 125 := by
  simp only [malformed, Bool.or_eq_false_iff, Bool.and_eq_false_imp, decide_eq_true_eq,
    decide_eq_false_iff_not, Bool.not_eq_false', not_lt] at h
  exact h.2 hop

section
variable {σ ω : Type*} {I : Impl σ} {obs : σ → ω} {isServer : Bool} {q : Receiver σ}
  {b : List Byte}

theorem Entered.not_refusePayloadLength (he : Entered I isServer q b) :
    I.refusePayloadLength (frameLength b) q.impl = false := by
  have h := he.refuses
  rw [Receiver.Refuses, not_or, not_or] at h
  exact Bool.not_eq_true _ ▸ h.2.2

/-- The frame has begun a message, or continues one. -/
theorem Entered.begun_cons (he : Entered I isServer q b) : ∃ op l, q.begun b = op :: l := by
  rw [Receiver.begun]
  split
  · exact ⟨_, _, rfl⟩
  · next hop =>
      have h := he.refuses
      rw [Receiver.Refuses, not_or, not_or] at h
      exact List.exists_cons_of_ne_nil fun hnil => h.2.1 ⟨not_not.mp hop, hnil⟩

theorem frameLength_of_control (hm : frameMalformed b = false) (hop : 2 < frameOpCode b) :
    frameFin b = true ∧ frameLength b ≤ 125 := by
  rw [frameMalformed, Bool.or_eq_false_iff] at hm
  obtain ⟨hfin, hlen⟩ := control_of_not_malformed hm.2 hop
  rw [frameLength, if_pos (by omega)]
  exact ⟨hfin, hlen⟩

theorem Entered.top (he : Entered I isServer q b) (hd : ∀ op ∈ q.opCodes, op ≤ 2)
    (h : 2 < (q.begun b).headD 0) : frameFin b = true ∧ frameLength b ≤ 125 := by
  rw [Receiver.begun] at h
  split at h
  · exact frameLength_of_control he.malformed h
  · rcases hq : q.opCodes with _ | ⟨op, l⟩
    · rw [hq] at h
      exact absurd h (by decide)
    · rw [hq] at h
      exact absurd (hd op (by rw [hq]; exact List.mem_cons_self)) (UInt8.not_le.mpr h)

/-- `Impl` can be given the payload. -/
theorem Entered.within (S : I.Steady obs) (he : Entered I isServer q b) (hr : S.Ready q.impl)
    (hd : ∀ op ∈ q.opCodes, op ≤ 2) :
    S.Within ((q.begun b).headD 0) (frameFin b) (frameLength b) q.impl :=
  S.enter hr (he.top hd)

/-- The messages that have begun and not ended are no control frames. -/
theorem Entered.data_finish (he : Entered I isServer q b) (hd : ∀ op ∈ q.opCodes, op ≤ 2) :
    ∀ op ∈ (if frameFin b then (q.begun b).tail else q.begun b), op ≤ 2 := by
  have htail : ∀ op ∈ (q.begun b).tail, op ≤ 2 := by
    intro op hop
    rw [Receiver.begun] at hop
    split at hop
    · exact hd op hop
    · exact hd op (List.mem_of_mem_tail hop)
  split
  · exact htail
  · next hfin =>
      obtain ⟨t, l, hbegun⟩ := he.begun_cons
      have htop := he.top hd
      rw [hbegun] at htop htail ⊢
      intro op hop
      rcases List.mem_cons.mp hop with rfl | hop
      · exact UInt8.not_lt.mp fun hlt => hfin (htop hlt).1
      · exact htail op hop

end

/-! ### `consumeMessage` -/

section
variable {σ ω : Type*} {I : Impl σ} {obs : σ → ω} {S : I.Steady obs} {isServer : Bool}
  {q : Receiver σ} {c : Consumer σ}

/-- The state once the opcode of the frame has been dealt with. -/
def WebSocketState.enter (s : WebSocketState) (b : List Byte) : WebSocketState :=
  { (if frameOpCode b ≠ 0 then s.push (frameOpCode b) else s) with lastFin := frameFin b }

theorem WebSocketState.enter_wantsHead (s : WebSocketState) (b : List Byte) :
    (s.enter b).wantsHead = s.wantsHead := by
  rw [WebSocketState.enter]
  split <;> rfl

theorem stacks_enter {s : WebSocketState} {b : List Byte} (hs : s.Stacks q.opCodes)
    (he : Entered I isServer q b) : (s.enter b).Stacks (q.begun b) := by
  have h := he.refuses
  rw [Receiver.Refuses, not_or, not_and_or, not_or] at h
  rw [WebSocketState.enter, Receiver.begun]
  split
  · next hop => exact hs.push (h.1.resolve_left (not_not.mpr hop)).1
  · exact hs

theorem topOpCode_enter {s : WebSocketState} {b : List Byte} (hs : s.Stacks q.opCodes)
    (he : Entered I isServer q b) : (s.enter b).topOpCode = (q.begun b).headD 0 := by
  have hst := stacks_enter hs he
  obtain ⟨op, l, hbegun⟩ := he.begun_cons
  rw [hbegun] at hst ⊢
  exact hst.top

theorem consumeMessage_refused (hb : Between S c.wState q) (hi : c.impl = q.impl)
    (h2 : 2 ≤ c.length) (H bits : Nat) (hr : q.Refuses I c.bytes) :
    ∃ c', consumeMessage I isServer H bits (frameLength c.bytes) c = (true, c') ∧
      c'.impl = I.forceClose q.impl := by
  have h₀ : c.bytes.getD 0 0 = c.mem c.src := Consumer.getD_bytes (by omega)
  have hlast := hb.lastFin
  have hfull := hb.stack.full_iff
  have hnil := hb.stack.nil_iff
  simp only [consumeMessage, ← h₀]
  split
  · exact ⟨_, rfl, by rw [Consumer.forceClose, hi]⟩
  next hpush =>
  split
  · exact ⟨_, rfl, by rw [Consumer.forceClose, hi]⟩
  next hnone =>
  rw [hfull, hlast] at hpush
  rw [hnil] at hnone
  have hlen : I.refusePayloadLength (frameLength c.bytes) c.impl = true := by
    rw [hi]
    exact (hr.resolve_left hpush).resolve_left hnone
  rw [if_pos hlen]
  exact ⟨_, rfl, by rw [hi]⟩

/-- The two checks of the opcode are passed. -/
theorem consumeMessage_entered (hb : Between S c.wState q) (hi : c.impl = q.impl)
    (h2 : 2 ≤ c.length) (H bits : Nat) (he : Entered I isServer q c.bytes) :
    consumeMessage I isServer H bits (frameLength c.bytes) c =
      if (frameLength c.bytes + H) % 2 ^ bits ≤ c.length then
        let mem := if isServer then
            unmaskImpreciseCopyMask c.mem (c.src + H - 4) (c.src + H) (c.src + H - 4)
              (frameLength c.bytes)
          else c.mem
        let data := if isServer then c.src + H - 4 else c.src + H
        let wState := c.wState.enter c.bytes
        match I.handleFragment (read mem data (frameLength c.bytes)) 0 wState.topOpCode
            (isFin (mem c.src)) q.impl with
        | (true, impl) => (true, { c with mem := mem, wState := wState, impl := impl })
        | (false, impl) => (false,
            { mem := mem
              src := c.src + (frameLength c.bytes + H)
              length := c.length - (frameLength c.bytes + H)
              wState := { wState.popIf (isFin (mem c.src)) with spillLength := 0 }
              impl := impl })
      else
        let wState := { c.wState.enter c.bytes with
          spillLength := 0
          wantsHead := false
          remainingBytes := (frameLength c.bytes + H - c.length) % 2 ^ 32 }
        let length := c.length - H
        let mask := if isServer then maskFrom c.mem (c.src + H - 4) else wState.mask
        let mem := if isServer then unmaskImprecise c.mem c.src (c.src + H) mask length else c.mem
        let mask := if isServer then rotateMask (4 - length % 4) mask else mask
        let src := if isServer then c.src else c.src + H
        let wState := { wState with mask := mask }
        let impl := (I.handleFragment (read mem src length) wState.remainingBytes
          wState.topOpCode (frameFin c.bytes) q.impl).2
        (true, { c with mem := mem, src := src, wState := wState, impl := impl }) := by
  have h₀ : c.bytes.getD 0 0 = c.mem c.src := Consumer.getD_bytes (by omega)
  have h := he.refuses
  rw [Receiver.Refuses, not_or, not_or, ← hb.stack.full_iff, ← hb.lastFin, ← hb.stack.nil_iff] at h
  have hop : frameOpCode c.bytes = getOpCode (c.mem c.src) := by rw [frameOpCode, h₀]
  have hfin : frameFin c.bytes = isFin (c.mem c.src) := by rw [frameFin, h₀]
  rw [← hi, hop] at h
  simp only [WebSocketState.enter, hop, hfin, ← hi]
  exact (if_neg h.1).trans ((if_neg h.2.1).trans (if_neg h.2.2))

/-- The sum that says where the frame ends does not wrap. -/
theorem frameLength_add_mod (S : I.Steady obs) {b : List Byte} (he : Entered I isServer q b) :
    (frameLength b + headerLength isServer b) % 2 ^ frameBits b =
      frameLength b + headerLength isServer b := by
  have hlt := S.bounded he.not_refusePayloadLength
  have hh : headerLength isServer b ≤ 14 := by
    rw [headerLength]
    split
    · cases isServer <;> decide
    · split <;> cases isServer <;> decide
  apply Nat.mod_eq_of_lt
  rw [frameBits]
  split
  · next hle =>
      have hn : frameLength b ≤ 65535 := by
        rw [frameLength]
        split
        · omega
        · have h := valueBE_lt ((b.drop 2).take 2)
          have hpow : 256 ^ ((b.drop 2).take 2).length ≤ 256 ^ 2 :=
            Nat.pow_le_pow_right (by decide) (List.length_take_le _ _)
          rw [if_pos (by omega)]
          omega
      omega
  · omega

theorem maskFrom_eq (hs : isServer = true) (hh : headerLength isServer c.bytes ≤ c.length) :
    maskFrom c.mem (c.src + headerLength isServer c.bytes - 4) = frameMask isServer c.bytes := by
  have hshort := short_le_headerLength isServer c.bytes
  have h6 : SHORT_MESSAGE_HEADER isServer = 6 := by rw [hs]; rfl
  funext i
  have hi := i.isLt
  rw [maskFrom, frameMask, Consumer.getD_bytes (by omega)]
  congr 1
  omega

/-- What a frame that is there leaves in the buffer: its payload, its first byte, and the bytes
behind it. -/
theorem unmask_whole (isServer : Bool)
    (hfit : headerLength isServer c.bytes + frameLength c.bytes ≤ c.length) :
    let H := headerLength isServer c.bytes
    let n := frameLength c.bytes
    let mem := if isServer then
        unmaskImpreciseCopyMask c.mem (c.src + H - 4) (c.src + H) (c.src + H - 4) n
      else c.mem
    let data := if isServer then c.src + H - 4 else c.src + H
    read mem data n = framePayload isServer c.bytes ∧ mem c.src = c.mem c.src ∧
      read mem (c.src + (n + H)) (c.length - (n + H)) = c.bytes.drop (H + n) := by
  intro H n mem data
  have hshort : SHORT_MESSAGE_HEADER isServer ≤ H := short_le_headerLength isServer c.bytes
  have hdata : (c.bytes.drop H).take n = read c.mem (c.src + H) n :=
    Consumer.take_drop_bytes hfit
  have hrest : c.bytes.drop (H + n) = read c.mem (c.src + (n + H)) (c.length - (n + H)) := by
    rw [Consumer.drop_bytes hfit, Nat.add_comm H n]
  rw [framePayload, hdata, hrest]
  cases hs : isServer with
  | false => simp [mem, data, hs]
  | true =>
      have h6 : SHORT_MESSAGE_HEADER isServer = 6 := by rw [hs]; rfl
      have hmask : maskFrom c.mem (c.src + H - 4) = frameMask true c.bytes := by
        rw [← hs]
        exact maskFrom_eq hs (Nat.le_of_add_right_le hfit)
      simp only [mem, data, hs, if_true, unmaskImpreciseCopyMask, hmask]
      refine ⟨read_unmaskImprecise _ _ _ (by omega), unmaskImprecise_of_lt _ _ (by omega), ?_⟩
      exact read_congr fun i _ => unmaskImprecise_of_ge _ _ (by omega)

/-- A frame that is there is handed over as the frame-by-frame reader hands it over. -/
theorem consumeMessage_whole (hb : Between S c.wState q) (hi : c.impl = q.impl)
    (he : Entered I isServer q c.bytes)
    (hfit : headerLength isServer c.bytes + frameLength c.bytes ≤ c.length) :
    ∃ c', consumeMessage I isServer (headerLength isServer c.bytes) (frameBits c.bytes)
        (frameLength c.bytes) c =
          ((q.hand I c.bytes (framePayload isServer c.bytes) 0).1, c') ∧
      c'.impl = (q.hand I c.bytes (framePayload isServer c.bytes) 0).2 ∧
      ((q.hand I c.bytes (framePayload isServer c.bytes) 0).1 = false →
        c'.bytes = c.bytes.drop (headerLength isServer c.bytes + frameLength c.bytes) ∧
        c'.wState.wantsHead = c.wState.wantsHead ∧ c'.wState.spillLength = 0 ∧
        c'.wState.lastFin = frameFin c.bytes ∧
        c'.wState.Stacks (if frameFin c.bytes then (q.begun c.bytes).tail
          else q.begun c.bytes)) := by
  have h2 := Nat.le_trans (two_le_short isServer) (short_le_headerLength isServer c.bytes)
  have h₀ : c.bytes.getD 0 0 = c.mem c.src := Consumer.getD_bytes (by omega)
  obtain ⟨hdata, hfirst, hrest⟩ := unmask_whole isServer hfit
  have hstack := stacks_enter hb.stack he
  have hfin : isFin (c.mem c.src) = frameFin c.bytes := by rw [frameFin, h₀]
  rw [consumeMessage_entered hb hi (by omega) _ _ he, frameLength_add_mod S he,
    if_pos (by omega)]
  simp only [hdata, hfirst, hfin, topOpCode_enter hb.stack he, Receiver.hand]
  rcases I.handleFragment (framePayload isServer c.bytes) 0 ((q.begun c.bytes).headD 0)
    (frameFin c.bytes) q.impl with ⟨_ | _, impl⟩
  · refine ⟨_, rfl, rfl, fun _ => ⟨hrest, ?_, rfl, ?_, ?_⟩⟩
    · exact (WebSocketState.popIf_wantsHead _ _).trans (WebSocketState.enter_wantsHead _ _)
    · exact WebSocketState.popIf_lastFin _ _
    · cases hf : frameFin c.bytes with
      | false => exact hstack
      | true =>
          obtain ⟨op, l, hbegun⟩ := he.begun_cons
          rw [hbegun] at hstack ⊢
          exact hstack.pop
  · exact ⟨_, rfl, rfl, fun h => Bool.noConfusion h⟩

/-- What has arrived of a payload that is not there yet. -/
theorem framePayload_missing (isServer : Bool)
    (hh : headerLength isServer c.bytes ≤ c.length)
    (hlong : c.length ≤ headerLength isServer c.bytes + frameLength c.bytes) :
    framePayload isServer c.bytes =
      let data := read c.mem (c.src + headerLength isServer c.bytes)
        (c.length - headerLength isServer c.bytes)
      if isServer then unmask (frameMask isServer c.bytes) data else data := by
  have hdata : (c.bytes.drop (headerLength isServer c.bytes)).take (frameLength c.bytes) =
      read c.mem (c.src + headerLength isServer c.bytes)
        (c.length - headerLength isServer c.bytes) := by
    rw [Consumer.drop_bytes hh, List.take_of_length_le]
    rw [length_read]
    omega
  rw [framePayload, hdata]

/-- A frame that is not there yet is handed over as far as it is. -/
theorem consumeMessage_missing (hb : Between S c.wState q) (hi : c.impl = q.impl)
    (he : Entered I isServer q c.bytes)
    (hlong : c.length < headerLength isServer c.bytes + frameLength c.bytes) :
    ∃ c', consumeMessage I isServer (headerLength isServer c.bytes) (frameBits c.bytes)
        (frameLength c.bytes) c = (true, c') ∧
      Reads S isServer (c'.wState, c'.impl) (q, c.bytes) := by
  have h2 := Nat.le_trans (two_le_short isServer) (short_le_headerLength isServer c.bytes)
  have hh : headerLength isServer c.bytes ≤ c.length := Consumer.length_bytes ▸ he.header
  have hlt := S.bounded he.not_refusePayloadLength
  have hrem : (frameLength c.bytes + headerLength isServer c.bytes - c.length) % 2 ^ 32 =
      frameLength c.bytes + headerLength isServer c.bytes - c.length :=
    Nat.mod_eq_of_lt (by omega)
  have hpart := framePayload_missing isServer hh (Nat.le_of_lt hlong)
  rw [consumeMessage_entered hb hi (by omega) _ _ he, frameLength_add_mod S he,
    if_neg (by omega)]
  -- what is missing of the payload, and the mask where the next chunk goes on with it
  let s : WebSocketState := { c.wState.enter c.bytes with
    spillLength := 0
    wantsHead := false
    remainingBytes := frameLength c.bytes + headerLength isServer c.bytes - c.length
    mask := if isServer then
        rotateMask (4 - (c.length - headerLength isServer c.bytes) % 4)
          (frameMask isServer c.bytes)
      else (c.wState.enter c.bytes).mask }
  have hbody : Reads S isServer
      (s, (q.hand I c.bytes (framePayload isServer c.bytes) s.remainingBytes).2) (q, c.bytes) := by
    refine .body ⟨hb.notOver, hb.ready, hb.data, he, rfl, rfl, stacks_enter hb.stack he, rfl, ?_,
      ?_, ?_⟩
    · rw [Consumer.length_bytes]
      dsimp only [s]
      omega
    · dsimp only [s]
      omega
    · intro hs
      rw [Consumer.length_bytes]
      exact if_pos hs
  have htop : s.topOpCode = (q.begun c.bytes).headD 0 := topOpCode_enter hb.stack he
  rw [Receiver.hand, ← htop, hpart] at hbody
  refine ⟨_, rfl, ?_⟩
  simp only [hrem]
  cases hs : isServer with
  | false =>
      simp only [s, hs, Bool.false_eq_true, if_false] at hbody ⊢
      exact hbody
  | true =>
      subst hs
      simp only [s, if_true] at hbody ⊢
      rw [maskFrom_eq rfl hh, read_unmaskImprecise _ _ _ (by omega)]
      exact hbody

end

end PBTransfor.Uws
