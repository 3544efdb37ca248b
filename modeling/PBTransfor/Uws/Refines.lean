import PBTransfor.Uws.Chunks

/-!
# Uws — what chunks come to

The rest of a payload is taken up by `consumeContinuation`, the rest of a header by `spill`: one
call of `consume` keeps `Reads` (`consume_reads`), and so does any number of them, whatever else
lies in the buffer each time (`onData_refines`).
-/

namespace PBTransfor.Uws

open Library

/-! ### `consumeContinuation` -/

theorem length_framePayload (isServer : Bool) (b : List Byte) :
    (framePayload isServer b).length =
      min (frameLength b) (b.length - headerLength isServer b) := by
  rw [framePayload]
  split <;> simp [List.length_take, List.length_drop]

/-- A payload is unmasked piece by piece. -/
theorem framePayload_extend (isServer : Bool) {b : List Byte} (e : List Byte)
    (hh : headerLength isServer b ≤ b.length)
    (hle : b.length ≤ headerLength isServer b + frameLength b) :
    framePayload isServer (b ++ e) = framePayload isServer b ++
      (let e := e.take (headerLength isServer b + frameLength b - b.length)
      if isServer then
        unmask (rotateMask (4 - (b.length - headerLength isServer b) % 4) (frameMask isServer b)) e
      else e) := by
  have h2 := Nat.le_trans (two_le_short isServer) (short_le_headerLength isServer b)
  have hdrop : (b.drop (headerLength isServer b)).length = b.length - headerLength isServer b :=
    List.length_drop
  have hdata : ((b ++ e).drop (headerLength isServer b)).take (frameLength b) =
      (b.drop (headerLength isServer b)).take (frameLength b) ++
        e.take (headerLength isServer b + frameLength b - b.length) := by
    rw [List.drop_append_of_le_length hh, List.take_append, hdrop,
      show frameLength b - (b.length - headerLength isServer b) =
        headerLength isServer b + frameLength b - b.length by omega]
  have hpart : ((b.drop (headerLength isServer b)).take (frameLength b)).length =
      b.length - headerLength isServer b := by
    rw [List.length_take, hdrop]
    omega
  rw [framePayload, headerLength_append e (by omega), frameLength_append e hh, hdata,
    framePayload]
  cases hs : isServer with
  | false => rfl
  | true =>
      subst hs
      simp only [if_true]
      rw [frameMask_append e rfl hh, unmask_append, hpart]

section
variable {σ ω : Type*} {I : Impl σ} {obs : σ → ω} {S : I.Steady obs} {isServer : Bool}
  {q : Receiver σ} {b : List Byte}

theorem Entered.append (he : Entered I isServer q b) (e : List Byte) :
    Entered I isServer q (b ++ e) := by
  have hh := he.header
  have h2 := Nat.le_trans (two_le_short isServer) (short_le_headerLength isServer b)
  refine ⟨?_, ?_, ?_⟩
  · rw [headerLength_append e (by omega), List.length_append]
    omega
  · rw [frameMalformed_append e (by omega)]
    exact he.malformed
  · rw [Receiver.refuses_append e hh]
    exact he.refuses

/-- **A payload in two pieces.** -/
theorem Entered.agree (S : I.Steady obs) (he : Entered I isServer q b) (hr : S.Ready q.impl)
    (hd : ∀ op ∈ q.opCodes, op ≤ 2) {e : List Byte} {n : Nat}
    (hn : e.length + n + b.length = headerLength isServer b + frameLength b)
    (hpos : 0 < e.length + n) :
    Agree obs (I.handleFragment e n ((q.begun b).headD 0) (frameFin b)
        (q.hand I b (framePayload isServer b) (e.length + n)).2)
      (q.hand I b (framePayload isServer b ++ e) n) := by
  have hh := he.header
  have hw := he.within S hr hd
  have hlen := length_framePayload isServer b
  apply S.split _ _ _ hpos
  rwa [hlen, show min (frameLength b) (b.length - headerLength isServer b) + (e.length + n) =
    frameLength b by omega]

/-- A payload that is not there yet ends nothing. -/
theorem Entered.hand_missing (S : I.Steady obs) (he : Entered I isServer q b)
    (hr : S.Ready q.impl) (hd : ∀ op ∈ q.opCodes, op ≤ 2) {data : List Byte} {n : Nat}
    (hn : data.length + n = frameLength b) (hpos : 0 < n) :
    (q.hand I b data n).1 = false ∧
      S.Within ((q.begun b).headD 0) (frameFin b) n (q.hand I b data n).2 ∧
        obs (q.hand I b data n).2 = obs q.impl := by
  have hw := he.within S hr hd
  rw [← hn] at hw
  exact S.more data hw hpos

/-- What a chunk in the middle of a payload is, unmasked where it lies. -/
theorem Inside.read_unmask {s : WebSocketState} (hi : Inside S isServer s q b) {e : List Byte}
    {mem : Memory Byte} {src length : Nat}
    (he : e.take s.remainingBytes = read mem src length) :
    framePayload isServer (b ++ e) = framePayload isServer b ++
      (if isServer then unmask s.mask (read mem src length) else read mem src length) := by
  have hrem := hi.remainingBytes
  have hb := hi.entered.header
  rw [framePayload_extend isServer e hb (by omega),
    show headerLength isServer b + frameLength b - b.length = s.remainingBytes by omega, he]
  cases hs : isServer with
  | false => rfl
  | true =>
      subst hs
      rw [hi.mask rfl]

theorem Inside.topOpCode {s : WebSocketState} (hi : Inside S isServer s q b) :
    s.opCode s.opStack = (q.begun b).headD 0 := by
  obtain ⟨op, l, hbegun⟩ := hi.entered.begun_cons
  have hst := hi.stack
  rw [hbegun] at hst ⊢
  exact hst.top

theorem Inside.length_framePayload {s : WebSocketState} (hi : Inside S isServer s q b) :
    (framePayload isServer b).length + s.remainingBytes = frameLength b := by
  have hrem := hi.remainingBytes
  have hh := hi.entered.header
  rw [Uws.length_framePayload]
  omega

/-- More of a payload, and still not all of it. -/
theorem consumeContinuation_missing {c : Consumer σ} (hi : Inside S isServer c.wState q b)
    (himpl : c.impl = (q.hand I b (framePayload isServer b) c.wState.remainingBytes).2)
    (hlt : c.length < c.wState.remainingBytes) :
    ∃ c', consumeContinuation I isServer c = (false, c') ∧
      Reads S isServer (c'.wState, c'.impl) (q, b ++ c.bytes) := by
  have hrem := hi.remainingBytes
  have hh := hi.entered.header
  have h2 := Nat.le_trans (two_le_short isServer) (short_le_headerLength isServer b)
  -- the chunk, unmasked
  let e := if isServer then unmask c.wState.mask c.bytes else c.bytes
  let n := c.wState.remainingBytes - c.length
  have hlen : e.length = c.length := by
    dsimp only [e]
    split <;> simp
  have hread : read (if isServer then
        unmaskInplace c.mem c.src (c.src + ((c.length >>> 2) + 1) * 4) c.wState.mask
      else c.mem) c.src c.length = e := by
    cases hs : isServer with
    | false => simp [e, hs, Consumer.bytes]
    | true => simp [e, hs, Consumer.bytes, read_unmaskInplace]
  have hpay : framePayload isServer (b ++ c.bytes) = framePayload isServer b ++ e :=
    hi.read_unmask (List.take_of_length_le (by rw [Consumer.length_bytes]; omega))
  -- `Impl` is told so much of the payload as if at once
  have hn : e.length + n = c.wState.remainingBytes := by
    dsimp only [n]
    omega
  have hagree := hi.entered.agree S hi.ready hi.data (e := e) (n := n) (by omega) (by omega)
  rw [hn, ← himpl, ← hpay] at hagree
  have hdata : (framePayload isServer (b ++ c.bytes)).length + n = frameLength b := by
    have hpart := hi.length_framePayload
    rw [hpay, List.length_append]
    omega
  have hhand := hi.entered.hand_missing S hi.ready hi.data hdata (by omega)
  have hfirst := hagree.1.trans hhand.1
  have hcall : I.handleFragment e n ((q.begun b).headD 0) (frameFin b) c.impl =
      (false, (q.hand I (b ++ c.bytes) (framePayload isServer (b ++ c.bytes)) n).2) := by
    rw [Receiver.hand_append _ _ _ (by omega)]
    exact Prod.ext hfirst (hagree.2.2 hfirst)
  rw [consumeContinuation, if_neg (by omega)]
  simp only [WebSocketState.topOpCode, hread, hi.topOpCode, hi.lastFin]
  rw [show c.wState.remainingBytes - c.length = n from rfl, hcall]
  refine ⟨_, rfl, .body ?_⟩
  exact {
    notOver := hi.notOver
    ready := hi.ready
    data := hi.data
    entered := hi.entered.append c.bytes
    wantsHead := hi.wantsHead
    spillLength := hi.spillLength
    stack := by
      rw [Receiver.begun_append _ (by omega)]
      exact hi.stack
    lastFin := (frameFin_append c.bytes (by omega)).symm
    remainingBytes := by
      rw [headerLength_append _ (by omega), frameLength_append _ hh, List.length_append,
        Consumer.length_bytes]
      dsimp only [n]
      omega
    missing := by
      dsimp only [n]
      omega
    mask := by
      intro hs
      have hrot : (if isServer = true ∧ c.length % 4 ≠ 0 then
            rotateMask (4 - c.length % 4) c.wState.mask else c.wState.mask) =
          rotateMask (4 - c.length % 4) c.wState.mask := by
        split
        · rfl
        · next h =>
            have h0 : c.length % 4 = 0 := not_not.mp fun h0 => h ⟨hs, h0⟩
            rw [h0, Nat.sub_zero, rotateMask_four]
      dsimp only
      rw [hrot, hi.mask hs, rotateMask_rotateMask, frameMask_append _ hs hh,
        headerLength_append _ (by omega), List.length_append, Consumer.length_bytes,
        Nat.sub_add_comm hh] }

/-- The rest of a payload. -/
theorem consumeContinuation_whole {c : Consumer σ} (hi : Inside S isServer c.wState q b)
    (himpl : c.impl = (q.hand I b (framePayload isServer b) c.wState.remainingBytes).2)
    (hle : c.wState.remainingBytes ≤ c.length) {r : Bool × σ}
    (hr : q.hand I (b ++ c.bytes) (framePayload isServer (b ++ c.bytes)) 0 = r) :
    ∃ c', consumeContinuation I isServer c = (!r.1, c') ∧ obs c'.impl = obs r.2 ∧
      (r.1 = true → I.ended c'.impl = true) ∧
      (r.1 = false → c'.impl = r.2 ∧
        c'.bytes = (b ++ c.bytes).drop (headerLength isServer b + frameLength b) ∧
        c'.wState.wantsHead = true ∧ c'.wState.spillLength = 0 ∧
        c'.wState.lastFin = frameFin b ∧
        c'.wState.Stacks (if frameFin b then (q.begun b).tail else q.begun b)) := by
  have hrem := hi.remainingBytes
  have hpos := hi.missing
  have hh := hi.entered.header
  have h2 := Nat.le_trans (two_le_short isServer) (short_le_headerLength isServer b)
  let n := c.wState.remainingBytes
  let mem := if isServer then
      unmaskRest c.wState.mask (c.src + (n >>> 2) * 4) (n % 4)
        (unmaskInplace c.mem c.src (c.src + (n >>> 2) * 4) c.wState.mask)
    else c.mem
  -- what there was missing, unmasked
  let e := if isServer then unmask c.wState.mask (read c.mem c.src n) else read c.mem c.src n
  have hlen : e.length = n := by
    dsimp only [e]
    split <;> simp
  have hread : read mem c.src n = e := by
    cases hs : isServer with
    | false => simp [mem, e, hs]
    | true => simp [mem, e, hs, read_unmaskRest]
  have hrest : read mem (c.src + n) (c.length - n) =
      (b ++ c.bytes).drop (headerLength isServer b + frameLength b) := by
    rw [List.drop_append, List.drop_of_length_le (by omega), List.nil_append,
      show headerLength isServer b + frameLength b - b.length = n by omega,
      Consumer.drop_bytes hle]
    cases hs : isServer with
    | false => simp [mem, hs, n]
    | true =>
        refine read_congr fun i _ => ?_
        simp only [mem, hs, if_true]
        exact unmaskRest_of_ge _ _ (by omega)
  have hpay : framePayload isServer (b ++ c.bytes) = framePayload isServer b ++ e :=
    hi.read_unmask (take_read c.mem c.src hle)
  have hagree := hi.entered.agree S hi.ready hi.data (e := e) (n := 0) (by omega) (by omega)
  rw [hlen, Nat.add_zero, ← himpl, ← hpay, ← Receiver.hand_append c.bytes _ _ (by omega),
    hr] at hagree
  have hwithin : S.Within ((q.begun b).headD 0) (frameFin b) e.length c.impl := by
    rw [himpl, hlen]
    exact (hi.entered.hand_missing S hi.ready hi.data hi.length_framePayload hpos).2.1
  have hended := S.ended e hwithin
  rw [consumeContinuation, if_pos hle]
  simp only [WebSocketState.topOpCode, hi.topOpCode, hi.lastFin]
  rw [show c.wState.remainingBytes = n from rfl, hread]
  rcases hcall : I.handleFragment e 0 ((q.begun b).headD 0) (frameFin b) c.impl with
    ⟨_ | _, impl⟩
  · rw [hcall] at hagree
    rw [← hagree.1]
    refine ⟨_, rfl, hagree.2.1, fun h => Bool.noConfusion h,
      fun _ => ⟨hagree.2.2 rfl, hrest, rfl, ?_, ?_, ?_⟩⟩
    · exact (WebSocketState.popIf_spillLength _ _).trans hi.spillLength
    · exact (WebSocketState.popIf_lastFin _ _).trans hi.lastFin
    · have hst := hi.stack
      cases hf : frameFin b with
      | false => exact hst
      | true =>
          obtain ⟨op, l, hbegun⟩ := hi.entered.begun_cons
          rw [hbegun] at hst ⊢
          exact hst.pop
  · rw [hcall] at hagree hended
    rw [← hagree.1]
    exact ⟨_, rfl, hagree.2.1, fun _ => hended rfl, fun h => Bool.noConfusion h⟩

end

/-! ### The loop -/

section
variable {σ ω : Type*} {I : Impl σ} {obs : σ → ω} {S : I.Steady obs} {isServer : Bool}
  {q : Receiver σ}

theorem drain_over (hq : q.finished = true) (b : List Byte) :
    drain (Receiver.step I isServer) q b = (q, b) :=
  drain_of_none (by rw [Receiver.step, if_pos (Or.inl hq)])

/-- A frame that is there. -/
theorem step_whole {b : List Byte} (hq : q.finished = false) (he : Entered I isServer q b)
    (hfit : headerLength isServer b + frameLength b ≤ b.length) :
    q.step I isServer b = some (q.finish b (q.hand I b (framePayload isServer b) 0),
      b.drop (headerLength isServer b + frameLength b)) := by
  have hh := he.header
  have hshort := short_le_headerLength isServer b
  have hm : ¬ frameMalformed b = true := by rw [he.malformed]; decide
  rw [Receiver.step, if_neg, if_neg hm, if_neg (by omega), if_neg he.refuses, if_neg (by omega)]
  rw [hq, not_or]
  exact ⟨by decide, by omega⟩

/-- A frame whose header is there, and its payload not. -/
theorem step_missing {b : List Byte} (he : Entered I isServer q b)
    (hlong : b.length < headerLength isServer b + frameLength b) :
    q.step I isServer b = none := by
  have hh := he.header
  have hm : ¬ frameMalformed b = true := by rw [he.malformed]; decide
  rw [Receiver.step]
  split
  · rfl
  · rw [if_neg (by omega), if_neg he.refuses]

/-- What has been read leaves nothing that could be read. -/
theorem Reads.step_eq_none {k : WebSocketState × σ} {b : List Byte}
    (h : Reads S isServer k (q, b)) : q.step I isServer b = none := by
  cases h with
  | finished hq => exact if_pos (Or.inl hq)
  | head _ _ _ _ hn => exact hn
  | body hin =>
      have hrem := hin.remainingBytes
      have hmissing := hin.missing
      exact step_missing hin.entered (by omega)

/-- After a frame that did not end the connection. -/
theorem Between.finish {s : WebSocketState} {b : List Byte} (he : Entered I isServer q b)
    (hr : S.Ready q.impl) (hd : ∀ op ∈ q.opCodes, op ≤ 2)
    (hfit : headerLength isServer b + frameLength b ≤ b.length)
    (hgo : (q.hand I b (framePayload isServer b) 0).1 = false) (hl : s.lastFin = frameFin b)
    (hs : s.Stacks (if frameFin b then (q.begun b).tail else q.begun b)) :
    Between S s (q.finish b (q.hand I b (framePayload isServer b) 0)) ∧
      (q.finish b (q.hand I b (framePayload isServer b) 0)).impl =
        (q.hand I b (framePayload isServer b) 0).2 := by
  have hw := he.within S hr hd
  rw [show frameLength b = (framePayload isServer b).length by rw [length_framePayload]; omega]
    at hw
  have hready := S.ready _ hw hgo
  rw [← Receiver.hand] at hready
  rcases hhand : q.hand I b (framePayload isServer b) 0 with ⟨_ | _, impl⟩
  · rw [hhand] at hready
    exact ⟨⟨rfl, hready, hs, hl, he.data_finish hd⟩, rfl⟩
  · rw [hhand] at hgo
    cases hgo

/-- The front of a header goes to `spill`. -/
theorem spill_reads {c : Consumer σ} (hb : Between S c.wState q) (hi : c.impl = q.impl)
    (hw : c.wState.wantsHead = true) (hs : c.length = 0 → c.wState.spillLength = 0)
    (hn : q.step I isServer c.bytes = none) (hh : c.length < headerLength isServer c.bytes) :
    Reads S isServer (c.spill.wState, c.spill.impl) (q, c.bytes) := by
  have hbytes : c.bytes.length = c.length := Consumer.length_bytes
  rw [Consumer.spill]
  split
  · next h0 =>
      have hnil : c.bytes = [] := List.eq_nil_of_length_eq_zero (hbytes.trans h0)
      rw [hi]
      refine .head hb hw ?_ ?_ hn (hbytes ▸ hh)
      · rw [hs h0, hbytes, h0]
      · rw [hs h0, hnil, List.take_zero]
  · have h14 : headerLength isServer c.bytes ≤ 14 := by
      rw [headerLength]
      split
      · cases isServer <;> decide
      · split <;> cases isServer <;> decide
    have hmod : c.length % 16 = c.length := Nat.mod_eq_of_lt (by omega)
    rw [hi]
    refine .head ⟨hb.notOver, hb.ready, hb.stack, hb.lastFin, hb.data⟩ hw ?_ ?_ hn (hbytes ▸ hh)
    · exact hmod.trans hbytes.symm
    · exact List.take_of_length_le (by rw [length_read, hmod])

/-- **The loop takes the frames off one by one.** -/
theorem parseNext_reads : ∀ (fuel : Nat) (c : Consumer σ) (q : Receiver σ), c.length < fuel →
    Between S c.wState q → c.impl = q.impl → c.wState.wantsHead = true →
    (c.length = 0 → c.wState.spillLength = 0) →
    Reads S isServer ((parseNext I isServer fuel c).wState, (parseNext I isServer fuel c).impl)
      (drain (Receiver.step I isServer) q c.bytes)
  | 0, _, _, hfuel, _, _, _, _ => absurd hfuel (Nat.not_lt_zero _)
  | fuel + 1, c, q, hfuel, hb, hi, hw, hs => by
      have hbytes : c.bytes.length = c.length := Consumer.length_bytes
      have h2 := two_le_short isServer
      have hshort := short_le_headerLength isServer c.bytes
      have hc := Receiver.contract I isServer
      -- the cases of the reader's step, which are those of the loop, in its order
      by_cases hlen : c.length < SHORT_MESSAGE_HEADER isServer
      · have hn : q.step I isServer c.bytes = none := by
          rw [Receiver.step, if_pos (Or.inr (by omega))]
        rw [drain_of_none hn, parseNext_short fuel hlen]
        exact spill_reads hb hi hw hs hn (by omega)
      have hpass : ¬ (q.finished = true ∨ c.bytes.length < SHORT_MESSAGE_HEADER isServer) := by
        rw [hb.notOver, not_or]
        exact ⟨by decide, by omega⟩
      rw [parseNext_succ fuel (by omega) (by rw [hi]; exact S.setCompressed hb.ready)]
      by_cases hm : frameMalformed c.bytes = true
      · have hstep : q.step I isServer c.bytes =
            some (q.close I, c.bytes.drop (SHORT_MESSAGE_HEADER isServer)) := by
          rw [Receiver.step, if_neg hpass, if_pos hm]
        rw [if_pos hm, hc.drain_of_some hstep, drain_over rfl, Consumer.forceClose, hi]
        exact .finished rfl (S.ended_forceClose hb.ready) rfl
      rw [if_neg hm]
      by_cases hh : c.length < headerLength isServer c.bytes
      · have hn : q.step I isServer c.bytes = none := by
          rw [Receiver.step, if_neg hpass, if_neg hm, if_pos (by omega)]
        rw [if_pos hh, drain_of_none hn]
        exact spill_reads hb hi hw hs hn hh
      rw [if_neg hh]
      by_cases hr : q.Refuses I c.bytes
      · have hstep : q.step I isServer c.bytes =
            some (q.close I, c.bytes.drop (headerLength isServer c.bytes)) := by
          rw [Receiver.step, if_neg hpass, if_neg hm, if_neg (by omega), if_pos hr]
        obtain ⟨c', hcall, himpl⟩ := consumeMessage_refused hb hi (by omega)
          (headerLength isServer c.bytes) (frameBits c.bytes) hr
        rw [hcall, hc.drain_of_some hstep, drain_over rfl]
        simp only [Consumer.proceed_true, himpl]
        exact .finished rfl (S.ended_forceClose hb.ready) rfl
      have he : Entered I isServer q c.bytes := ⟨by omega, Bool.not_eq_true _ ▸ hm, hr⟩
      by_cases hfit : headerLength isServer c.bytes + frameLength c.bytes ≤ c.length
      · obtain ⟨c', hcall, himpl, hgo⟩ := consumeMessage_whole hb hi he hfit
        rw [hcall, hc.drain_of_some (step_whole hb.notOver he (by omega))]
        cases hstop : (q.hand I c.bytes (framePayload isServer c.bytes) 0).1 with
        | false =>
            obtain ⟨hrest, hw', hs', hl', hst'⟩ := hgo hstop
            obtain ⟨hb', hi'⟩ := Between.finish he hb.ready hb.data (by omega) hstop hl' hst'
            -- the loop goes on with less, so that there is fuel for it
            have hlt : c'.length < c.length := by
              have := congrArg List.length hrest
              rw [Consumer.length_bytes, List.length_drop, hbytes] at this
              omega
            rw [← hrest]
            exact parseNext_reads fuel c' _ (by omega) hb' (himpl.trans hi'.symm) (hw'.trans hw)
              (fun _ => hs')
        | true =>
            have hw' := he.within S hb.ready hb.data
            rw [show frameLength c.bytes = (framePayload isServer c.bytes).length by
              rw [length_framePayload]; omega] at hw'
            have hended := S.ended _ hw' hstop
            rw [← Receiver.hand] at hended
            rcases hhand : q.hand I c.bytes (framePayload isServer c.bytes) 0 with ⟨stop, impl⟩
            rw [hhand] at hstop himpl hended
            cases hstop
            rw [drain_over rfl]
            simp only [Consumer.proceed_true, himpl]
            exact .finished rfl hended rfl
      · obtain ⟨c', hcall, hreads⟩ := consumeMessage_missing hb hi he (by omega)
        rw [hcall, drain_of_none (step_missing he (by omega))]
        exact hreads

end

/-! ### Chunks -/

/-- How many bytes there are to be in front of the receive buffer. -/
def CONSUME_PRE_PADDING (isServer : Bool) : Nat := LONG_MESSAGE_HEADER isServer - 1

/-- How many bytes `consume` may write over behind what has arrived. -/
def CONSUME_POST_PADDING : Nat := 4

section
variable {σ ω : Type*} {I : Impl σ} {obs : σ → ω} {S : I.Steady obs} {isServer : Bool}
  {q : Receiver σ} {b : List Byte}

theorem headerLength_le (isServer : Bool) (b : List Byte) :
    headerLength isServer b ≤ CONSUME_PRE_PADDING isServer + 1 := by
  rw [headerLength]
  split
  · cases isServer <;> decide
  · split <;> cases isServer <;> decide

/-- What was spilled is read again, in front of what has arrived. -/
theorem bytes_unspill {c : Consumer σ} (hl : c.wState.spillLength = b.length)
    (hs : c.wState.spill.take c.wState.spillLength = b) (hsrc : b.length ≤ c.src) :
    c.unspill.bytes = b ++ c.bytes := by
  rw [Consumer.unspill]
  split
  · next hn =>
      rw [hs]
      simp only [Consumer.bytes, hl]
      rw [Nat.add_comm c.length, read_add, read_store, Nat.sub_add_cancel hsrc]
      congr 1
      exact read_congr fun i _ => store_of_ge _ _ (by omega)
  · next hn =>
      rw [hl, not_not] at hn
      rw [List.eq_nil_of_length_eq_zero hn, List.nil_append]

theorem unspill_wState (c : Consumer σ) : c.unspill.wState = c.wState := by
  rw [Consumer.unspill]
  split <;> rfl

theorem unspill_impl (c : Consumer σ) : c.unspill.impl = c.impl := by
  rw [Consumer.unspill]
  split <;> rfl

/-- **One chunk**, wherever the connection stands. -/
theorem consume_reads {c : Consumer σ} (hsrc : CONSUME_PRE_PADDING isServer ≤ c.src)
    (h : Reads S isServer (c.wState, c.impl) (q, b)) (hq : q.finished = false) :
    Reads S isServer ((consume I isServer c).wState, (consume I isServer c).impl)
      (feed (Receiver.step I isServer) (q, b) c.bytes) := by
  have hpad := headerLength_le isServer b
  have hw := unspill_wState c
  have hi := unspill_impl c
  rw [consume]
  generalize hs : c.wState = s at h
  generalize himpl : c.impl = impl at h
  cases h with
  | finished hover => exact absurd (hover.symm.trans hq) (by decide)
  -- a header has begun: what was put by of it is written in front of the chunk again
  | head hb hwants hl hspill hn hh =>
      subst hs
      have hbytes := bytes_unspill hl hspill (by omega)
      have hlen := congrArg List.length hbytes
      rw [Consumer.length_bytes, List.length_append] at hlen
      simp only [hw, hwants, if_true]
      rw [feed, ← hbytes]
      refine parseNext_reads _ _ _ (by omega) (by rw [hw]; exact hb) (hi.trans himpl)
        (by rw [hw]; exact hwants) ?_
      rw [hw, hl]
      omega
  -- a payload has begun: the chunk goes on with it, and may hold all that is missing
  | body hin =>
      subst hs
      have hrem := hin.remainingBytes
      have hh := hin.entered.header
      have h2 := Nat.le_trans (two_le_short isServer) (short_le_headerLength isServer b)
      have hspill : c.unspill = c := by
        rw [Consumer.unspill]
        exact if_neg (by rw [hin.spillLength]; decide)
      have hstop : ¬ c.wState.wantsHead = true := by rw [hin.wantsHead]; decide
      simp only [hspill, if_neg hstop]
      by_cases hle : c.wState.remainingBytes ≤ c.length
      · have happ := hin.entered.append c.bytes
        have hH : headerLength isServer (b ++ c.bytes) = headerLength isServer b :=
          headerLength_append c.bytes (by omega)
        have hN := frameLength_append c.bytes hh
        have hfit : headerLength isServer (b ++ c.bytes) + frameLength (b ++ c.bytes) ≤
            (b ++ c.bytes).length := by
          rw [hH, hN, List.length_append, Consumer.length_bytes]
          omega
        obtain ⟨c', hcall, hobs, hend, hgo⟩ := consumeContinuation_whole hin himpl hle rfl
        have hstep := step_whole hin.notOver happ hfit
        rw [hcall, feed, (Receiver.contract I isServer).drain_of_some hstep]
        cases hr : (q.hand I (b ++ c.bytes) (framePayload isServer (b ++ c.bytes)) 0).1 with
        | false =>
            obtain ⟨hi', hrest, hw', hs', hl', hst'⟩ := hgo hr
            rw [← hH, ← hN] at hrest
            rw [← frameFin_append c.bytes (b := b) (by omega)] at hl' hst'
            rw [← Receiver.begun_append c.bytes (b := b) (by omega)] at hst'
            obtain ⟨hb', hi''⟩ :=
              Between.finish happ hin.ready hin.data hfit hr hl' hst'
            rw [← hrest]
            exact parseNext_reads _ _ _ (Nat.lt_succ_self _) hb' (hi'.trans hi''.symm) hw'
              fun _ => hs'
        | true =>
            have hended := hend hr
            rcases hhand : q.hand I (b ++ c.bytes) (framePayload isServer (b ++ c.bytes)) 0 with
              ⟨stop, impl'⟩
            rw [hhand] at hr hobs
            cases hr
            rw [drain_over rfl]
            exact .finished rfl hended hobs
      · obtain ⟨c', hcall, hreads⟩ := consumeContinuation_missing hin himpl (by omega)
        have hlong : (b ++ c.bytes).length <
            headerLength isServer (b ++ c.bytes) + frameLength (b ++ c.bytes) := by
          rw [headerLength_append _ (by omega), frameLength_append _ hh, List.length_append,
            Consumer.length_bytes]
          omega
        rw [hcall, feed, drain_of_none (step_missing (hin.entered.append c.bytes) hlong)]
        exact hreads

end

/-- `onData`: so many bytes have arrived in the receive buffer, which lies at `recvBuffer`; what
else there is in the memory does not matter. -/
def Impl.onData {σ : Type*} (I : Impl σ) (isServer : Bool) (recvBuffer : Nat)
    (k : WebSocketState × σ) (recv : Memory Byte × Nat) : WebSocketState × σ :=
  if I.ended k.2 then k
  else
    let c := consume I isServer ⟨recv.1, recvBuffer, recv.2, k.1, k.2⟩
    (c.wState, c.impl)

/-- What has been received. -/
def received (recvBuffer : Nat) (recv : Memory Byte × Nat) : List Byte :=
  read recv.1 recvBuffer recv.2

/-- **Chunk by chunk is frame by frame.** -/
theorem onData_refines {σ ω : Type*} {I : Impl σ} {obs : σ → ω} (S : I.Steady obs)
    {isServer : Bool} {recvBuffer : Nat} (hpad : CONSUME_PRE_PADDING isServer ≤ recvBuffer) :
    Refines (Receiver.step I isServer) (I.onData isServer recvBuffer) (received recvBuffer)
      (Reads S isServer) := by
  rintro ⟨s, impl⟩ ⟨q, b⟩ ⟨mem, length⟩ h
  rw [Impl.onData]
  by_cases hq : q.finished = true
  · cases h with
    | finished _ he ho =>
        rw [if_pos he, feed, drain_over hq]
        exact .finished hq he ho
    | head hb => exact absurd (hb.notOver.symm.trans hq) (by decide)
    | body hin => exact absurd (hin.notOver.symm.trans hq) (by decide)
  · have hlive : ¬ I.ended impl = true := by
      cases h with
      | finished hover => exact absurd hover hq
      | head hb => rw [S.ready_ended hb.ready]; decide
      | body hin =>
          have hpart := (hin.entered.hand_missing S hin.ready hin.data hin.length_framePayload
            hin.missing).2.1
          rw [S.within_ended hpart]
          decide
    rw [if_neg hlive]
    exact consume_reads (c := ⟨mem, recvBuffer, length, s, impl⟩) hpad h
      (Bool.not_eq_true _ ▸ hq)

end PBTransfor.Uws
