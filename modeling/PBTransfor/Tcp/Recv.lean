import PBTransfor.Library.Framing
import PBTransfor.Tcp.Moves

/-!
# Tcp — do_recv is the parse

One `do_recv` delivers the packets that what was pending followed by what came in parses into,
and leaves the remainder pending (`doRecv_parses`); under the framing contract the parse is the
greedy one (`doRecv_greedy`).  It returns: the fuel it needs is the size of `recv_buf`.

The invariant of the packet loop is that the bytes from `readPos` on are the part of the stream
not yet parsed, and that `pkgLen` is what the framing function says of them.
-/

namespace PBTransfor.Tcp

open Library Library.Program

/-- `read_packet` as a framing function. -/
def frameLen (f : List Byte → Int32) (b : List Byte) : Int := (f b).toInt

section
variable {f : List Byte → Int32} {fuel : Nat} {w : World}

/-! ### The arithmetic of the buffer positions -/

theorem uint32_of_lt {z : Int} (h₀ : 0 ≤ z) (h : z ≤ maxRecvBuf) : (uint32 z : Int) = z := by
  simp only [maxRecvBuf] at h
  unfold uint32
  omega

theorem space_eq (h : w.recvBufPos ≤ maxRecvBuf) : w.space = maxRecvBuf - w.recvBufPos := by
  simp only [maxRecvBuf] at h
  simp only [World.space, sizeT, maxRecvBuf]
  omega

/-! ### The pieces of the loop -/

theorem loadAt_run (i : Nat) {l : Nat} (h : i + l ≤ maxRecvBuf) :
    (loadAt i l).run w = .ok (w.recvBuf.slice i l) w := by
  simp [loadAt, h]

theorem storeAt_run (i : Nat) {xs : List Byte} (h : i + xs.length ≤ maxRecvBuf) :
    (storeAt i xs).run w = .ok () (w.refill (w.recvBuf.write i xs) w.recvBufPos) := by
  simp [storeAt, h, World.refill]

theorem readPacketAt_run {readPos : Nat} (h : readPos ≤ w.recvBufPos)
    (hp : w.recvBufPos ≤ maxRecvBuf) :
    (readPacketAt (.quiet f) readPos).run w =
      .ok (frameLen f (w.recvBuf.slice readPos (w.recvBufPos - readPos))) w := by
  have hl := loadAt_run (w := w) readPos (l := w.recvBufPos - readPos) (by omega)
  simp [readPacketAt, hl, frameLen, Virtuals.quiet]

/-- A packet that has arrived whole is delivered. -/
theorem deliver_run (readPos : Nat) {pkgLen : Int} (h₀ : 0 < pkgLen)
    (h : readPos + pkgLen ≤ w.recvBufPos) (hp : w.recvBufPos ≤ maxRecvBuf) :
    (deliver (.quiet f) readPos pkgLen).run w = .ok (readPos + pkgLen.toNat)
      (w.record [.onRecv (w.recvBuf.slice readPos pkgLen.toNat)]) := by
  have hu : (uint32 (readPos + pkgLen) : Int) = readPos + pkgLen :=
    uint32_of_lt (by omega) (by omega)
  have hle : readPos + pkgLen.toNat ≤ w.recvBufPos := by omega
  have hl := loadAt_run (w := w) readPos (l := pkgLen.toNat) (by omega)
  have hr : uint32 (readPos + pkgLen) = readPos + pkgLen.toNat := by omega
  simp [deliver, hle, hl, hr, fireRecv, emit, Virtuals.quiet, World.record]

/-- The leftover is moved to the front. -/
theorem compact_run (readPos : Nat) (h₀ : 0 < readPos) (h : readPos < w.recvBufPos)
    (hp : w.recvBufPos ≤ maxRecvBuf) :
    ∃ b, (compact readPos).run w = .ok () (w.refill b (w.recvBufPos - readPos)) ∧
      b.slice 0 (w.recvBufPos - readPos) =
        w.recvBuf.slice readPos (w.recvBufPos - readPos) := by
  have hlen : (w.recvBuf.slice readPos (w.recvBufPos - readPos)).length = w.recvBufPos - readPos :=
    Buffer.length_slice _ (by omega)
  generalize hrest : w.recvBuf.slice readPos (w.recvBufPos - readPos) = rest at hlen
  refine ⟨(w.recvBuf.write 0 rest).write (w.recvBufPos - readPos) [0], ?_, ?_⟩
  · have hl := loadAt_run (w := w) readPos (l := w.recvBufPos - readPos) (by omega)
    have hs := storeAt_run (w := w) 0 (show 0 + rest.length ≤ maxRecvBuf by omega)
    have hz : w.recvBufPos - readPos + [(0 : Byte)].length ≤ maxRecvBuf := by
      simp only [List.length_singleton]; omega
    simp only [compact, EStateM.run_bind, EStateM.run_get, EStateM.run_modify, hl, hrest, hs]
    exact storeAt_run _ hz
  · rw [Buffer.slice_write_below _ (by omega) (by omega), ← hlen]
    exact Buffer.slice_write_self _ (by omega)

/-! ### The loop -/

theorem length_rest {rest : List Byte} {readPos : Nat}
    (hrest : rest = w.recvBuf.slice readPos (w.recvBufPos - readPos)) (hlt : readPos < w.recvBufPos)
    (hp : w.recvBufPos ≤ maxRecvBuf) : rest.length = w.recvBufPos - readPos := by
  rw [hrest]
  exact Buffer.length_slice _ (by omega)

/-- What is left behind the first `n` bytes. -/
theorem slice_rest {rest : List Byte} {readPos : Nat}
    (hrest : rest = w.recvBuf.slice readPos (w.recvBufPos - readPos)) (n : Nat) :
    w.recvBuf.slice (readPos + n) (w.recvBufPos - (readPos + n)) = rest.drop n := by
  rw [hrest, Buffer.drop_slice, Nat.sub_sub]

/-- The second half of an iteration, from the new `readPos` on. -/
def afterPacket (v : Virtuals) (fuel readPos : Nat) : Method Unit := do
  if readPos < (← get).recvBufPos then
    let pkgLen ← readPacketAt v readPos
    if pkgLen ≤ 0 then
      compact readPos
    else
      packetLoop v fuel readPos pkgLen
  else
    modify fun w => { w with recvBufPos := 0 }

/-- An iteration that finds a packet whole. -/
theorem packetLoop_whole (readPos : Nat) {pkgLen : Int} (h₀ : 0 < pkgLen)
    (h : readPos + pkgLen ≤ w.recvBufPos) (hp : w.recvBufPos ≤ maxRecvBuf) :
    (packetLoop (.quiet f) (fuel + 1) readPos pkgLen).run w =
      (afterPacket (.quiet f) fuel (readPos + pkgLen.toNat)).run
        (w.record [.onRecv (w.recvBuf.slice readPos pkgLen.toNat)]) := by
  have hd := deliver_run (f := f) (w := w) readPos h₀ h hp
  simp only [packetLoop, if_pos h₀, EStateM.run_bind, hd, afterPacket]

/-- The buffer is used up. -/
theorem afterPacket_spent {readPos : Nat} (h : ¬ readPos < w.recvBufPos) :
    (afterPacket (.quiet f) fuel readPos).run w = .ok () (w.refill w.recvBuf 0) := by
  simp only [afterPacket, EStateM.run_bind, EStateM.run_get, if_neg h, EStateM.run_modify,
    World.refill]

/-- The rest shows no packet, and waits at the front of the buffer. -/
theorem afterPacket_waits {readPos : Nat} (h : readPos < w.recvBufPos)
    (hp : w.recvBufPos ≤ maxRecvBuf)
    (hno : ¬ 0 < frameLen f (w.recvBuf.slice readPos (w.recvBufPos - readPos))) :
    (afterPacket (.quiet f) fuel readPos).run w = (compact readPos).run w := by
  have hread := readPacketAt_run (f := f) (Nat.le_of_lt h) hp
  simp only [afterPacket, EStateM.run_bind, EStateM.run_get, if_pos h, hread,
    if_pos (Int.not_lt.mp hno)]

/-- The rest shows a packet. -/
theorem afterPacket_goes_on {readPos : Nat} (h : readPos < w.recvBufPos)
    (hp : w.recvBufPos ≤ maxRecvBuf)
    (hpos : 0 < frameLen f (w.recvBuf.slice readPos (w.recvBufPos - readPos))) :
    (afterPacket (.quiet f) fuel readPos).run w = (packetLoop (.quiet f) fuel readPos
      (frameLen f (w.recvBuf.slice readPos (w.recvBufPos - readPos)))).run w := by
  have hread := readPacketAt_run (f := f) (Nat.le_of_lt h) hp
  simp only [afterPacket, EStateM.run_bind, EStateM.run_get, if_pos h, hread,
    if_neg (Int.not_le.mpr hpos)]

/-- **The packet loop parses.**  From a packet at `readPos` on, it delivers the packets that the
bytes from `readPos` on parse into, and leaves the remainder pending. -/
theorem packetLoop_parses {rest r : List Byte} {ps : List (List Byte)}
    (h : Parses (frameLen f) rest ps r) : ∀ {fuel readPos : Nat} {w : World},
    rest = w.recvBuf.slice readPos (w.recvBufPos - readPos) → readPos < w.recvBufPos →
    w.recvBufPos ≤ maxRecvBuf → w.recvBufPos - readPos ≤ fuel → 0 < frameLen f rest →
    ∃ b p, (packetLoop (.quiet f) fuel readPos (frameLen f rest)).run w =
        .ok () ((w.refill b p).record (ps.map .onRecv)) ∧ b.slice 0 p = r ∧ p < maxRecvBuf := by
  induction h with
  | wait hno => intro _ _ _ _ _ _ _ hpos; exact absurd hpos hno
  | @last rest h₀ heq =>
      intro fuel readPos w hrest hlt hp hfuel _
      have hlen := length_rest hrest hlt hp
      obtain ⟨fuel', rfl⟩ : ∃ m, fuel = m + 1 := ⟨fuel - 1, by omega⟩
      have hn : (frameLen f rest).toNat = w.recvBufPos - readPos := by omega
      refine ⟨w.recvBuf, 0, ?_, Buffer.slice_zero _ _, by decide⟩
      rw [packetLoop_whole readPos h₀ (by omega) hp, hn, afterPacket_spent, ← hrest]
      · rfl
      · rw [World.record_toTcpClient]; omega
  | @more rest r ps h₀ hshort t ih =>
      intro fuel readPos w hrest hlt hp hfuel _
      have hlen := length_rest hrest hlt hp
      obtain ⟨fuel', rfl⟩ : ∃ m, fuel = m + 1 := ⟨fuel - 1, by omega⟩
      obtain ⟨n, hn⟩ : ∃ n, n = (frameLen f rest).toNat := ⟨_, rfl⟩
      -- the packet that is delivered, and what is left behind it
      have hpkt : w.recvBuf.slice readPos n = rest.take n := by
        rw [hrest, Buffer.take_slice _ _ (by omega)]
      have hdrop := slice_rest hrest n
      rw [packetLoop_whole readPos h₀ (by omega) hp, ← hn, hpkt]
      rw [← hn] at t ih
      obtain ⟨w₁, hw₁⟩ : ∃ w₁, w₁ = w.record [.onRecv (rest.take n)] := ⟨_, rfl⟩
      have hb₁ : w₁.recvBuf = w.recvBuf := by rw [hw₁]; rfl
      have hp₁ : w₁.recvBufPos = w.recvBufPos := by rw [hw₁]; rfl
      have hdrop₁ : w₁.recvBuf.slice (readPos + n) (w₁.recvBufPos - (readPos + n)) =
          rest.drop n := by rw [hb₁, hp₁, hdrop]
      have hmore : readPos + n < w₁.recvBufPos := by omega
      rw [← hw₁]
      by_cases hnext : 0 < frameLen f (rest.drop n)
      · -- another packet follows
        obtain ⟨b, p, hrun, hslice, hlt'⟩ := @ih fuel' (readPos + n) w₁ hdrop₁.symm hmore
          (by omega) (by omega) hnext
        refine ⟨b, p, ?_, hslice, hlt'⟩
        rw [afterPacket_goes_on hmore (by omega) (by rwa [hdrop₁]), hdrop₁, hrun, hw₁]
        simp [World.refill, World.record]
      · -- the rest waits for more bytes
        obtain ⟨b, hrun, hslice⟩ := compact_run (w := w₁) (readPos + n) (by omega)
          hmore (by omega)
        cases t with
        | wait _ =>
            refine ⟨b, w₁.recvBufPos - (readPos + n), ?_, by rw [hslice, hdrop₁], by omega⟩
            rw [afterPacket_waits hmore (by omega) (by rwa [hdrop₁]), hrun, hw₁]
            simp [World.refill, World.record]
        | last h => exact absurd h hnext
        | more h => exact absurd h hnext

/-! ### do_recv -/

/-- An answer that hands over bytes is data, cut to the room there is. -/
theorem bytes_eq_data {k : RecvAnswer} {space : Nat} {c : List Byte}
    (hb : k.bytes space = some c) (hc : c ≠ []) :
    ∃ bytes, k = .data bytes ∧ bytes.take space = c := by
  cases k with
  | data bytes => exact ⟨bytes, rfl, Option.some.inj hb⟩
  | closed => exact absurd (Option.some.inj hb).symm hc
  | error => cases hb

/-- Without bytes, `do_recv` loses the connection. -/
theorem doRecv_lost (hp : w.recvBufPos ≤ maxRecvBuf) {k : RecvAnswer}
    (hb : k.bytes w.space = none ∨ k.bytes w.space = some []) :
    (doRecv (.quiet f) fuel k).run w = .ok (-1) ({ w with isConnected := false }.record
      [.recv w.fd w.space (k.bytes w.space), .onDisconnect]) := by
  rw [doRecv_eq]
  cases k with
  | closed => simp [recv, emit, afterRecv_lost, World.record, RecvAnswer.bytes]
  | error => simp [recv, emit, afterRecv_lost, World.record, RecvAnswer.bytes]
  | data bytes =>
      have hnil : bytes.take w.space = [] := by simpa [RecvAnswer.bytes] using hb
      have hrecv := recv_data bytes (by rw [hnil]; exact hp)
      rw [hnil] at hrecv
      simp [hrecv, afterRecv_lost, World.refill, World.record, RecvAnswer.bytes, hnil]

/-- The world once `recv` has stored `c`. -/
def World.filled (w : World) (c : List Byte) : World :=
  (w.refill (w.recvBuf.write w.recvBufPos c) (w.recvBufPos + c.length)).record
    [.recv w.fd w.space (some c)]

/-- What came in fits behind what was pending. -/
theorem room_of_bytes (hp : w.recvBufPos ≤ maxRecvBuf) {k : RecvAnswer} {c : List Byte}
    (hb : k.bytes w.space = some c) : w.recvBufPos + c.length ≤ maxRecvBuf := by
  have hspace := space_eq hp
  have hfit : c.length ≤ w.space := by
    cases k with
    | data bytes => exact Option.some.inj hb ▸ List.length_take_le ..
    | closed => exact Option.some.inj hb ▸ Nat.zero_le _
    | error => cases hb
  omega

/-- The bytes the loop starts with are what was pending, and behind it what came in. -/
theorem filled_slice {c : List Byte} (hroom : w.recvBufPos + c.length ≤ maxRecvBuf) :
    (w.filled c).recvBuf.slice 0 ((w.filled c).recvBufPos - 0) = w.pending ++ c :=
  Buffer.slice_write_append w.recvBuf (Nat.zero_le _) hroom

theorem filled_pos {c : List Byte} (hc : c ≠ []) : 0 < (w.filled c).recvBufPos := by
  have hlen := List.length_pos_iff.mpr hc
  exact Nat.lt_of_lt_of_le hlen (Nat.le_add_left ..)

/-- `doRecv`, with its loop as an argument. -/
def doRecvWith (v : Virtuals) (loop : Nat → Int → Method Unit) (k : RecvAnswer) : Method Int := do
  let recvLen ← recv (← get).fd (← get).space k
  if recvLen ≤ 0 then
    modify fun w => { w with isConnected := false }
    fireDisconnect v
    return -1
  else
    modify fun w => { w with recvBufPos := uint32 (w.recvBufPos + recvLen) }
    let pkgLen ← readPacketAt v 0
    loop 0 pkgLen
    return 0

theorem doRecv_eq_with (v : Virtuals) (fuel : Nat) (k : RecvAnswer) :
    doRecv v fuel k = doRecvWith v (packetLoop v fuel) k := rfl

/-- With bytes coming in, `do_recv` stores them, looks at the front of the buffer and loops. -/
theorem doRecvWith_filled (loop : Nat → Int → Method Unit) (hp : w.recvBufPos ≤ maxRecvBuf)
    {k : RecvAnswer} {c : List Byte} (hb : k.bytes w.space = some c) (hc : c ≠ []) :
    (doRecvWith (.quiet f) loop k).run w = (do
      loop 0 (frameLen f (w.pending ++ c))
      return 0 : Method Int).run (w.filled c) := by
  have hroom := room_of_bytes hp hb
  obtain ⟨bytes, rfl, hbytes⟩ := bytes_eq_data hb hc
  have hlen : 0 < (c.length : Int) := by
    have := List.length_pos_iff.mpr hc
    omega
  have hrecv := recv_data bytes (by rw [hbytes]; exact hroom)
  rw [hbytes] at hrecv
  have hu : (uint32 (w.recvBufPos + c.length) : Int) = w.recvBufPos + c.length :=
    uint32_of_lt (by omega) (by omega)
  have hu' : uint32 (w.recvBufPos + c.length) = w.recvBufPos + c.length := by omega
  have hmod : (modify fun w => { w with recvBufPos := uint32 (w.recvBufPos + c.length) } :
      Method Unit).run ((w.refill (w.recvBuf.write w.recvBufPos c) w.recvBufPos).record
        [.recv w.fd w.space (some c)]) = .ok () (w.filled c) := by
    rw [EStateM.run_modify]
    simp only [World.filled, World.refill, World.record, hu']
  have hread := readPacketAt_run (f := f) (Nat.zero_le (w.filled c).recvBufPos) hroom
  rw [filled_slice hroom] at hread
  simp only [doRecvWith, EStateM.run_bind, EStateM.run_get, hrecv, if_neg (Int.not_le.mpr hlen),
    hmod, hread]

/-- **do_recv parses.**  With bytes `c` coming in, it delivers the packets that what was pending
followed by `c` parses into, and leaves the remainder pending. -/
theorem doRecv_parses (hfuel : maxRecvBuf ≤ fuel) (hp : w.recvBufPos ≤ maxRecvBuf)
    {k : RecvAnswer} {c r : List Byte} {ps : List (List Byte)} (hb : k.bytes w.space = some c)
    (hc : c ≠ []) (h : Parses (frameLen f) (w.pending ++ c) ps r) :
    ∃ b p, (doRecv (.quiet f) fuel k).run w =
        .ok 0 ((w.refill b p).record (.recv w.fd w.space (some c) :: ps.map .onRecv)) ∧
      b.slice 0 p = r ∧ p ≤ maxRecvBuf := by
  have hroom := room_of_bytes hp hb
  have hpos := filled_pos (w := w) hc
  rw [doRecv_eq_with, doRecvWith_filled _ hp hb hc, EStateM.run_bind]
  by_cases hpkt : 0 < frameLen f (w.pending ++ c)
  · obtain ⟨b, p, hrun, hslice, hlt⟩ := @packetLoop_parses f _ _ _ h fuel 0 _
      (filled_slice hroom).symm hpos hroom (Nat.le_trans hroom hfuel) hpkt
    refine ⟨b, p, ?_, hslice, Nat.le_of_lt hlt⟩
    rw [hrun]
    simp [World.filled, World.refill, World.record]
  · obtain ⟨fuel', rfl⟩ : ∃ m, fuel = m + 1 := ⟨fuel - 1, by simp only [maxRecvBuf] at hfuel; omega⟩
    cases h with
    | wait _ =>
        refine ⟨(w.filled c).recvBuf, (w.filled c).recvBufPos, ?_, filled_slice hroom, hroom⟩
        rw [packetLoop, if_neg hpkt, EStateM.run_pure]
        simp [World.filled, World.refill, World.record]
    | last h => exact absurd h hpkt
    | more h => exact absurd h hpkt

/-- **do_recv parses greedily**, where the framing contract holds. -/
theorem doRecv_greedy (hf : Framing.Contract (frameLen f)) (hfuel : maxRecvBuf ≤ fuel)
    (hp : w.recvBufPos ≤ maxRecvBuf) {k : RecvAnswer} {c : List Byte}
    (hb : k.bytes w.space = some c) (hc : c ≠ []) :
    ∃ b p, (doRecv (.quiet f) fuel k).run w =
        .ok 0 ((w.refill b p).record (.recv w.fd w.space (some c) ::
          (greedy (frameLen f) (w.pending ++ c)).1.map .onRecv)) ∧
      b.slice 0 p = (greedy (frameLen f) (w.pending ++ c)).2 ∧ p ≤ maxRecvBuf :=
  doRecv_parses hfuel hp hb hc (hf.parses _)

/-- `do_recv` loses the connection, or takes bytes in and parses greedily. -/
theorem doRecv_parsed (hf : Framing.Contract (frameLen f)) (hfuel : maxRecvBuf ≤ fuel)
    (hp : w.recvBufPos ≤ maxRecvBuf) (k : RecvAnswer) :
    ((doRecv (.quiet f) fuel k).run w = .ok (-1) ({ w with isConnected := false }.record
        [.recv w.fd w.space (k.bytes w.space), .onDisconnect]) ∧
      (k.bytes w.space = none ∨ k.bytes w.space = some [])) ∨
    ∃ c b p, c ≠ [] ∧ k.bytes w.space = some c ∧
      (doRecv (.quiet f) fuel k).run w = .ok 0 ((w.refill b p).record
        (.recv w.fd w.space (some c) :: (greedy (frameLen f) (w.pending ++ c)).1.map .onRecv)) ∧
      b.slice 0 p = (greedy (frameLen f) (w.pending ++ c)).2 ∧ p ≤ maxRecvBuf := by
  rcases hb : k.bytes w.space with _ | c
  · exact .inl ⟨doRecv_lost hp (.inl hb) ▸ by rw [hb], .inl rfl⟩
  · by_cases hc : c = []
    · subst hc
      exact .inl ⟨doRecv_lost hp (.inr hb) ▸ by rw [hb], .inr rfl⟩
    · obtain ⟨b, p, h⟩ := doRecv_greedy hf hfuel hp hb hc
      exact .inr ⟨c, b, p, hc, rfl, h⟩

end

end PBTransfor.Tcp
