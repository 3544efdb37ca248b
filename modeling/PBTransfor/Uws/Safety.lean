import PBTransfor.Uws.Messages

/-!
# Uws — what `consume` keeps

Whatever `Impl` answers, and whatever arrives: `consume` writes to the receive buffer and its
padding alone, its own fields stay within the bits they have, and what `Impl` keeps of itself,
`consume` keeps.

* `consume_confined`: of one chunk.
* `WebSocket.run_sound`: of all.
-/

namespace PBTransfor.Uws

open Library

/-- What `Impl` keeps, whatever it is called with, as long as the connection goes on. -/
structure Impl.Keeps {σ : Type*} (I : Impl σ) (P : σ → Prop) : Prop where
  setCompressed : ∀ {s}, P s → I.ended s = false →
    P (I.setCompressed s).2 ∧ I.ended (I.setCompressed s).2 = false
  forceClose : ∀ {s}, P s → I.ended s = false → P (I.forceClose s)
  handleFragment : ∀ {s} (d n op fin), P s → I.ended s = false →
    P (I.handleFragment d n op fin s).2 ∧
      ((I.handleFragment d n op fin s).1 = false →
        I.ended (I.handleFragment d n op fin s).2 = false)

/-- The fields have two bits, four bits, and an array of `LONG_MESSAGE_HEADER - 1` bytes; in the
middle of a payload there is an opcode, and some of the payload is missing. -/
structure WebSocketState.Sound (isServer : Bool) (s : WebSocketState) : Prop where
  opStack : -1 ≤ s.opStack ∧ s.opStack ≤ 1
  spillLength : s.spillLength < LONG_MESSAGE_HEADER isServer
  body : s.wantsHead = false → s.spillLength = 0 ∧ 0 ≤ s.opStack ∧ 0 < s.remainingBytes

/-- What has been done is confined to the chunk and the padding behind it. -/
structure Confined {σ : Type*} (isServer : Bool) (P : σ → Prop) (c c' : Consumer σ) : Prop where
  impl : P c'.impl
  mem : ∀ a, a < c.src ∨ c.src + c.length + 4 ≤ a → c'.mem a = c.mem a
  state : c'.wState.Sound isServer

/-- `c'` is in the same chunk, further on, and a header comes next. -/
structure Onward {σ : Type*} (I : Impl σ) (c c' : Consumer σ) : Prop where
  live : I.ended c'.impl = false
  src : c.src ≤ c'.src
  stop : c'.src + c'.length = c.src + c.length
  wantsHead : c'.wState.wantsHead = true

section
variable {σ : Type*} {I : Impl σ} {isServer : Bool} {P : σ → Prop} {c c' c'' : Consumer σ}

theorem Confined.trans (h : Confined isServer P c c') (hon : Onward I c c')
    (h' : Confined isServer P c' c'') : Confined isServer P c c'' where
  impl := h'.impl
  mem := fun a ha => by
    have hsrc := hon.src
    have hstop := hon.stop
    rw [h'.mem a (by omega), h.mem a ha]
  state := h'.state

theorem sixteen_lt (isServer : Bool) : LONG_MESSAGE_HEADER isServer < 16 := by
  cases isServer <;> decide

/-- Nothing but the state of `Impl` and the opcodes has changed. -/
theorem Confined.of_mem (hP : P c'.impl) (hm : c'.mem = c.mem)
    (hs : c'.wState.Sound isServer) : Confined isServer P c c' :=
  ⟨hP, fun _ _ => by rw [hm], hs⟩

theorem WebSocketState.Sound.of_head {s s' : WebSocketState} (hs : s.Sound isServer)
    (hop : -1 ≤ s'.opStack ∧ s'.opStack ≤ 1) (hspill : s'.spillLength = s.spillLength)
    (hw : s'.wantsHead = true) : s'.Sound isServer :=
  ⟨hop, hspill ▸ hs.spillLength, fun h => absurd (hw.symm.trans h) (by decide)⟩

/-- The checks of the opcode leave one in the stack. -/
theorem opStack_entered {s : WebSocketState} {op : Byte} (hs : s.Sound isServer)
    (h1 : ¬ (op ≠ 0 ∧ (s.opStack = 1 ∨ s.lastFin = false ∧ op < 2)))
    (h2 : ¬ (op = 0 ∧ s.opStack = -1)) :
    0 ≤ (if op ≠ 0 then s.push op else s).opStack ∧
      (if op ≠ 0 then s.push op else s).opStack ≤ 1 := by
  have hop := hs.opStack
  split
  · next h =>
      have hne : s.opStack ≠ 1 := fun h' => h1 ⟨h, Or.inl h'⟩
      rw [WebSocketState.push]
      dsimp only
      omega
  · next h =>
      rw [not_not] at h
      have hne : s.opStack ≠ -1 := fun h' => h2 ⟨h, h'⟩
      omega

theorem WebSocketState.popIf_opStack (s : WebSocketState) (fin : Bool) (h : 0 ≤ s.opStack)
    (h1 : s.opStack ≤ 1) : -1 ≤ (s.popIf fin).opStack ∧ (s.popIf fin).opStack ≤ 1 := by
  cases fin <;> simp only [WebSocketState.popIf, if_true, Bool.false_eq_true, if_false] <;> omega

/-- **One frame.** -/
theorem consumeMessage_confined (hI : I.Keeps P)
    (hb : ∀ {n s}, I.refusePayloadLength n s = false → n < 2 ^ 32) {H bits n : Nat}
    (hH : H ≤ c.length) (h4 : isServer = true → 4 ≤ H) (hfit : n < 2 ^ 32 → n + H < 2 ^ bits)
    (hP : P c.impl) (hl : I.ended c.impl = false) (hs : c.wState.Sound isServer)
    (hw : c.wState.wantsHead = true) :
    Confined isServer P c (consumeMessage I isServer H bits n c).2 ∧
      ((consumeMessage I isServer H bits n c).1 = false →
        Onward I c (consumeMessage I isServer H bits n c).2) := by
  rw [consumeMessage]
  dsimp only
  split
  · exact ⟨.of_mem (hI.forceClose hP hl) rfl hs, fun h => Bool.noConfusion h⟩
  next h1 =>
  split
  · exact ⟨.of_mem (hI.forceClose hP hl) rfl hs, fun h => Bool.noConfusion h⟩
  next h2 =>
  obtain ⟨hlow, hhigh⟩ := opStack_entered hs h1 h2
  have hwants : (if getOpCode (c.mem c.src) ≠ 0 then c.wState.push (getOpCode (c.mem c.src))
      else c.wState).wantsHead = true := by
    split
    · exact hw
    · exact hw
  have hspill : (if getOpCode (c.mem c.src) ≠ 0 then c.wState.push (getOpCode (c.mem c.src))
      else c.wState).spillLength = c.wState.spillLength := by
    split <;> rfl
  -- whether or not there is an opcode to put on the stack
  generalize (if getOpCode (c.mem c.src) ≠ 0 then c.wState.push (getOpCode (c.mem c.src))
    else c.wState) = s at hlow hhigh hwants hspill ⊢
  split
  · exact ⟨.of_mem (hI.forceClose hP hl) rfl
      (hs.of_head ⟨by simp only; omega, hhigh⟩ hspill hwants), fun h => Bool.noConfusion h⟩
  next hrefuse =>
  have hn := hb (Bool.not_eq_true _ ▸ hrefuse)
  rw [Nat.mod_eq_of_lt (hfit hn)]
  split
  · next hle =>
      -- unmasking writes up to three bytes behind the payload, which is the padding
      have hmem : ∀ a, a < c.src ∨ c.src + c.length + 4 ≤ a →
          (if isServer then unmaskImpreciseCopyMask c.mem (c.src + H - 4) (c.src + H)
            (c.src + H - 4) n else c.mem) a = c.mem a := by
        intro a ha
        split
        · next his =>
            have h4 := h4 his
            rcases ha with ha | ha
            · exact unmaskImprecise_of_lt _ _ (by omega)
            · exact unmaskImprecise_of_ge _ _ (by omega)
        · rfl
      generalize (if isServer then unmaskImpreciseCopyMask c.mem (c.src + H - 4) (c.src + H)
        (c.src + H - 4) n else c.mem) = mem at hmem ⊢
      have hP' := hI.handleFragment
        (read mem (if isServer then c.src + H - 4 else c.src + H) n) 0
        ({ s with lastFin := isFin (c.mem c.src) } : WebSocketState).topOpCode
        (isFin (mem c.src)) hP hl
      rcases hr : I.handleFragment
        (read mem (if isServer then c.src + H - 4 else c.src + H) n) 0
        ({ s with lastFin := isFin (c.mem c.src) } : WebSocketState).topOpCode
        (isFin (mem c.src)) c.impl with ⟨_ | _, impl⟩
      · rw [hr] at hP'
        have hlen := Nat.lt_of_le_of_lt (Nat.zero_le _) hs.spillLength
        have hpop : (({ s with lastFin := isFin (c.mem c.src) } : WebSocketState).popIf
            (isFin (mem c.src))).wantsHead = true :=
          (WebSocketState.popIf_wantsHead _ _).trans hwants
        refine ⟨⟨hP'.1, hmem, ?_, hlen, fun h => ?_⟩,
          fun _ => ⟨hP'.2 rfl, Nat.le_add_right _ _, ?_, hpop⟩⟩
        · exact WebSocketState.popIf_opStack _ _ hlow hhigh
        · exact absurd (hpop.symm.trans h) (by decide)
        · dsimp only
          omega
      · rw [hr] at hP'
        exact ⟨⟨hP'.1, hmem, hs.of_head ⟨by simp only; omega, hhigh⟩ hspill hwants⟩,
          fun h => Bool.noConfusion h⟩
  -- the payload goes on in the next chunk
  · next hgt =>
      refine ⟨⟨(hI.handleFragment _ _ _ _ hP hl).1, ?_, ?_⟩, fun h => Bool.noConfusion h⟩
      · intro a ha
        dsimp only
        split
        · rcases ha with ha | ha
          · exact unmaskImprecise_of_lt _ _ ha
          · exact unmaskImprecise_of_ge _ _ (by omega)
        · rfl
      · refine ⟨⟨by dsimp only; omega, hhigh⟩, ?_, fun _ => ⟨rfl, hlow, ?_⟩⟩
        · exact Nat.lt_of_le_of_lt (Nat.zero_le _) hs.spillLength
        · dsimp only
          rw [Nat.mod_eq_of_lt (by omega)]
          omega

/-- The front of a header fits where it is put. -/
theorem spill_confined (hP : P c.impl) (hs : c.wState.Sound isServer)
    (hw : c.wState.wantsHead = true) (hlen : c.length < LONG_MESSAGE_HEADER isServer) :
    Confined isServer P c c.spill := by
  have h16 := sixteen_lt isServer
  rw [Consumer.spill]
  split
  · exact .of_mem hP rfl hs
  · refine .of_mem hP rfl ⟨hs.opStack, ?_, fun h => absurd (hw.symm.trans h) (by decide)⟩
    dsimp only
    rw [Nat.mod_eq_of_lt (by omega)]
    exact hlen

theorem headers_le (isServer : Bool) :
    SHORT_MESSAGE_HEADER isServer ≤ MEDIUM_MESSAGE_HEADER isServer ∧
      MEDIUM_MESSAGE_HEADER isServer ≤ LONG_MESSAGE_HEADER isServer ∧
      (isServer = true → 4 ≤ SHORT_MESSAGE_HEADER isServer) := by
  cases isServer <;> decide

/-- **The loop.** -/
theorem parseNext_confined (hI : I.Keeps P)
    (hb : ∀ {n s}, I.refusePayloadLength n s = false → n < 2 ^ 32) (fuel : Nat)
    (hP : P c.impl) (hl : I.ended c.impl = false) (hs : c.wState.Sound isServer)
    (hw : c.wState.wantsHead = true) :
    Confined isServer P c (parseNext I isServer fuel c) := by
  have h16 := sixteen_lt isServer
  obtain ⟨hmedium, hlong, h4⟩ := headers_le isServer
  induction fuel generalizing c with
  | zero => exact .of_mem hP rfl hs
  | succ fuel ih =>
      rw [parseNext]
      split
      · next hshort => exact spill_confined hP hs hw (by omega)
      next hshort =>
      have hset : ∃ refused impl, c.refusesCompressed I = (refused, { c with impl := impl }) ∧
          P impl ∧ I.ended impl = false := by
        rw [Consumer.refusesCompressed]
        split
        · exact ⟨_, _, rfl, hI.setCompressed hP hl⟩
        · exact ⟨_, _, rfl, hP, hl⟩
      obtain ⟨refused, impl, hc, hP₁, hl₁⟩ := hset
      rw [hc]
      have hspill : c.length < LONG_MESSAGE_HEADER isServer →
          Confined isServer P c ({ c with impl := impl } : Consumer σ).spill := by
        intro hlt
        have h := spill_confined (c := { c with impl := impl }) hP₁ hs hw hlt
        exact ⟨h.impl, h.mem, h.state⟩
      have hround : ∀ {H bits n : Nat}, H ≤ c.length → (isServer = true → 4 ≤ H) →
          (n < 2 ^ 32 → n + H < 2 ^ bits) →
          Confined isServer P c
            (.proceed (parseNext I isServer fuel)
              (consumeMessage I isServer H bits n { c with impl := impl })) := by
        intro H bits n hH hmask hfit
        obtain ⟨hone, hgo⟩ := consumeMessage_confined (c := { c with impl := impl }) hI hb hH
          hmask hfit hP₁ hl₁ hs hw
        rcases hm : consumeMessage I isServer H bits n { c with impl := impl } with ⟨_ | _, c₂⟩
        · rw [hm] at hone hgo
          obtain ⟨hlive, hsrc, hstop, hwants⟩ := hgo rfl
          exact Confined.trans ⟨hone.impl, hone.mem, hone.state⟩ ⟨hlive, hsrc, hstop, hwants⟩
            (ih hone.impl hlive hone.state hwants)
        · rw [hm] at hone
          exact ⟨hone.impl, hone.mem, hone.state⟩
      dsimp only
      split
      · exact .of_mem (hI.forceClose hP₁ hl₁) rfl hs
      split
      · exact hround (by omega) h4 (by omega)
      split
      · split
        · exact hspill (by omega)
        · have hlt := valueBE_lt (read c.mem (c.src + 2) 2)
          rw [length_read] at hlt
          exact hround (by omega) (fun his => Nat.le_trans (h4 his) hmedium) (by omega)
      · split
        · exact hspill (by omega)
        · exact hround (by omega) (fun his => Nat.le_trans (h4 his) (Nat.le_trans hmedium hlong))
            (by omega)

/-- **The rest of a payload.** -/
theorem consumeContinuation_confined (hI : I.Keeps P) (hP : P c.impl)
    (hl : I.ended c.impl = false) (hs : c.wState.Sound isServer) (hw : c.wState.wantsHead = false) :
    Confined isServer P c (consumeContinuation I isServer c).2 ∧
      ((consumeContinuation I isServer c).1 = true →
        Onward I c (consumeContinuation I isServer c).2) := by
  obtain ⟨hspill, hlow, hrem⟩ := hs.body hw
  rw [consumeContinuation]
  dsimp only
  split
  -- the rest of the payload is here: four bytes at a time, and the last ones singly
  · next hle =>
      have hmem : ∀ a, a < c.src ∨ c.src + c.length + 4 ≤ a →
          (if isServer then
            unmaskRest c.wState.mask (c.src + (c.wState.remainingBytes >>> 2) * 4)
              (c.wState.remainingBytes % 4)
              (unmaskInplace c.mem c.src (c.src + (c.wState.remainingBytes >>> 2) * 4)
                c.wState.mask)
            else c.mem) a = c.mem a := by
        intro a ha
        split
        · rcases ha with ha | ha
          · exact unmaskRest_of_lt _ _ ha
          · exact unmaskRest_of_ge _ _ (by omega)
        · rfl
      generalize (if isServer then
        unmaskRest c.wState.mask (c.src + (c.wState.remainingBytes >>> 2) * 4)
          (c.wState.remainingBytes % 4)
          (unmaskInplace c.mem c.src (c.src + (c.wState.remainingBytes >>> 2) * 4) c.wState.mask)
        else c.mem) = mem at hmem ⊢
      have hP' := hI.handleFragment (read mem c.src c.wState.remainingBytes) 0 c.wState.topOpCode
        c.wState.lastFin hP hl
      rcases hr : I.handleFragment (read mem c.src c.wState.remainingBytes) 0 c.wState.topOpCode
        c.wState.lastFin c.impl with ⟨_ | _, impl⟩
      · rw [hr] at hP'
        refine ⟨⟨hP'.1, hmem, ?_, ?_, fun h => Bool.noConfusion h⟩,
          fun _ => ⟨hP'.2 rfl, Nat.le_add_right _ _, ?_, rfl⟩⟩
        · exact WebSocketState.popIf_opStack _ _ hlow hs.opStack.2
        · exact (WebSocketState.popIf_spillLength _ _).symm ▸ hs.spillLength
        · dsimp only
          omega
      · rw [hr] at hP'
        exact ⟨⟨hP'.1, hmem, hs⟩, fun h => Bool.noConfusion h⟩
  -- the chunk belongs to the payload as a whole
  · next hgt =>
      have hmem : ∀ a, a < c.src ∨ c.src + c.length + 4 ≤ a →
          (if isServer then
            unmaskInplace c.mem c.src (c.src + ((c.length >>> 2) + 1) * 4) c.wState.mask
            else c.mem) a = c.mem a := by
        intro a ha
        split
        · rcases ha with ha | ha
          · exact unmaskInplace_of_lt _ _ ha
          · exact unmaskInplace_of_ge _ _ ha
        · rfl
      generalize (if isServer then
        unmaskInplace c.mem c.src (c.src + ((c.length >>> 2) + 1) * 4) c.wState.mask
        else c.mem) = mem at hmem ⊢
      have hP' := hI.handleFragment (read mem c.src c.length) (c.wState.remainingBytes - c.length)
        c.wState.topOpCode c.wState.lastFin hP hl
      have hbody : ∀ mask : Mask, ({ c.wState with
          remainingBytes := c.wState.remainingBytes - c.length
          mask := mask } : WebSocketState).Sound isServer := fun mask =>
        ⟨hs.opStack, hs.spillLength, fun _ => ⟨hspill, hlow, by dsimp only; omega⟩⟩
      rcases hr : I.handleFragment (read mem c.src c.length) (c.wState.remainingBytes - c.length)
        c.wState.topOpCode c.wState.lastFin c.impl with ⟨_ | _, impl⟩
      · rw [hr] at hP'
        simp only [WebSocketState.topOpCode] at hr ⊢
        rw [hr]
        exact ⟨⟨hP'.1, hmem, hbody _⟩, fun h => Bool.noConfusion h⟩
      · rw [hr] at hP'
        simp only [WebSocketState.topOpCode] at hr ⊢
        rw [hr]
        exact ⟨⟨hP'.1, hmem, hbody _⟩, fun h => Bool.noConfusion h⟩

/-- What was spilled goes in front of the chunk. -/
theorem unspill_confined (hs : c.wState.Sound isServer)
    (hsrc : CONSUME_PRE_PADDING isServer ≤ c.src) :
    c.src ≤ c.unspill.src + CONSUME_PRE_PADDING isServer ∧
      c.unspill.src + c.unspill.length = c.src + c.length ∧
      ∀ a, a + CONSUME_PRE_PADDING isServer < c.src ∨ c.src ≤ a → c.unspill.mem a = c.mem a := by
  have hlt := hs.spillLength
  have hpad : LONG_MESSAGE_HEADER isServer = CONSUME_PRE_PADDING isServer + 1 := by
    cases isServer <;> rfl
  rw [Consumer.unspill]
  split
  · refine ⟨by dsimp only; omega, by dsimp only; omega, fun a ha => ?_⟩
    rcases ha with ha | ha
    · exact store_of_lt _ _ (by omega)
    · refine store_of_ge _ _ ?_
      have hle := List.length_take_le c.wState.spillLength c.wState.spill
      omega
  · exact ⟨by omega, rfl, fun _ _ => rfl⟩

/-- **One chunk.**  `consume` writes to the chunk, the padding in front of it and the padding
behind it; the fields it keeps do not overflow, and what `Impl` keeps is kept. -/
theorem consume_confined (hI : I.Keeps P)
    (hb : ∀ {n s}, I.refusePayloadLength n s = false → n < 2 ^ 32) (hP : P c.impl)
    (hl : I.ended c.impl = false) (hs : c.wState.Sound isServer)
    (hsrc : CONSUME_PRE_PADDING isServer ≤ c.src) :
    P (consume I isServer c).impl ∧ (consume I isServer c).wState.Sound isServer ∧
      ∀ a, a + CONSUME_PRE_PADDING isServer < c.src ∨ c.src + c.length + CONSUME_POST_PADDING ≤ a →
        (consume I isServer c).mem a = c.mem a := by
  obtain ⟨hback, hstop, hmem⟩ := unspill_confined hs hsrc
  have hstate := unspill_wState c
  have himpl := unspill_impl c
  have hall : ∀ c', Confined isServer P c.unspill c' → P c'.impl ∧ c'.wState.Sound isServer ∧
      ∀ a, a + CONSUME_PRE_PADDING isServer < c.src ∨ c.src + c.length + CONSUME_POST_PADDING ≤ a →
        c'.mem a = c.mem a := by
    refine fun c' h => ⟨h.impl, h.state, fun a ha => ?_⟩
    rw [CONSUME_POST_PADDING] at ha
    rw [h.mem a (by omega), hmem a (by omega)]
  rw [← himpl] at hP hl
  rw [← hstate] at hs
  rw [consume]
  split
  · next hw => exact hall _ (parseNext_confined hI hb _ hP hl hs hw)
  · next hw =>
      obtain ⟨hone, hgo⟩ := consumeContinuation_confined hI hP hl hs (Bool.not_eq_true _ ▸ hw)
      rcases hc : consumeContinuation I isServer c.unspill with ⟨_ | _, c'⟩
      · rw [hc] at hone
        exact hall _ hone
      · rw [hc] at hone hgo
        have hon := hgo rfl
        exact hall _ (hone.trans hon
          (parseNext_confined hI hb _ hone.impl hon.live hone.state hon.wantsHead))

end

/-! ### A WebSocket -/

namespace WebSocket

variable {G : Group} {isServer : Bool} {recvBuffer : Nat} {P : WebSocket → Prop}

theorem sound_new (isServer perMessageDeflate : Bool) :
    (new perMessageDeflate).1.Sound isServer :=
  ⟨⟨Int.le_refl _, (by decide : (-1 : Int) ≤ 1)⟩,
    show 0 < LONG_MESSAGE_HEADER isServer by cases isServer <;> decide, nofun⟩

/-- A chunk, also of a compressed message. -/
theorem onData_keeps (hI : (impl G).Keeps P) (hpad : CONSUME_PRE_PADDING isServer ≤ recvBuffer)
    {k : WebSocketState × WebSocket} (hs : k.1.Sound isServer) (hP : P k.2)
    (recv : Memory Byte × Nat) : ((impl G).onData isServer recvBuffer k recv).1.Sound isServer ∧
      P ((impl G).onData isServer recvBuffer k recv).2 := by
  rw [Impl.onData]
  split
  · exact ⟨hs, hP⟩
  · next hl =>
      obtain ⟨hP', hs', -⟩ := consume_confined (c := ⟨recv.1, recvBuffer, recv.2, k.1, k.2⟩) hI
        (fun h => refusePayloadLength_bounded h) hP (Bool.not_eq_true _ ▸ hl) hs hpad
      exact ⟨hs', hP'⟩

/-- **All chunks.** -/
theorem run_keeps (hI : (impl G).Keeps P) (hpad : CONSUME_PRE_PADDING isServer ≤ recvBuffer)
    {k : WebSocketState × WebSocket} (hs : k.1.Sound isServer) (hP : P k.2)
    (recvs : List (Memory Byte × Nat)) :
    (run G isServer recvBuffer k recvs).1.Sound isServer ∧
      P (run G isServer recvBuffer k recvs).2 := by
  induction recvs generalizing k with
  | nil => exact ⟨hs, hP⟩
  | cons recv recvs ih =>
      obtain ⟨hs', hP'⟩ := onData_keeps hI hpad hs hP recv
      exact ih hs' hP'

end WebSocket

end PBTransfor.Uws
