import PBTransfor.Head.Frames
import PBTransfor.Tcp.Carry

/-!
# Tcp — the room offered to recv

A header declares up to `2 ^ 24 - 1` bytes; `recv_buf` holds 2048.  When a read fills it with a
message that is longer, `recv` is offered no room from then on, and its result `0` is taken for
the end of the connection: of this one and of every later one (`run_clogged`).  No other step
uses the room up (`throughout_space_iff`).
-/

namespace PBTransfor.Tcp

open Library Library.Program Head

def SelectAnswer.readable : SelectAnswer → Bool
  | .ready readable _ => readable
  | _ => false

/-- The bytes the step reads, when it calls `recv` and that does not fail. -/
def reads (w : World) : Step → Option (List Byte)
  | .iterate k =>
      if w.control.admits (.iterate k) ∧ w.Watched ∧ k.select.readable then
        k.recv.bytes w.space
      else none
  | _ => none

/-- The step fills `recv_buf` with the beginning of a message that does not fit. -/
def Clogs (w : World) (s : Step) : Prop :=
  ∃ c ∈ reads w s, (w.pending ++ c).length = maxRecvBuf ∧
    maxRecvBuf < 4 + declared (w.pending ++ c)

instance (w : World) (s : Step) : Decidable (Clogs w s) :=
  inferInstanceAs (Decidable (∃ c ∈ reads w s, _))

section
variable {f : List Byte → Int32} {fuel : Nat} {w w' : World} {s : Step} {c c' : List Byte}

theorem mem_reads_iff : c ∈ reads w s ↔ ∃ k exceptional, s = .iterate k ∧
    w.control.admits s = true ∧ w.Watched ∧ k.select = .ready true exceptional ∧
      k.recv.bytes w.space = some c := by
  constructor
  · intro h
    cases s with
    | iterate k =>
        simp only [reads] at h
        split at h
        · next hr =>
            obtain ⟨ha, hw, hs⟩ := hr
            cases hsel : k.select with
            | ready readable exceptional =>
                rw [hsel] at hs
                obtain rfl : readable = true := hs
                exact ⟨k, exceptional, rfl, ha, hw, hsel, h⟩
            | _ => rw [hsel] at hs; cases hs
        · cases h
    | _ => cases h
  · rintro ⟨k, e, rfl, ha, hw, hs, hb⟩
    exact (if_pos ⟨ha, hw, by rw [hs]; rfl⟩).trans hb

/-- What is read fits. -/
theorem length_reads_le (h : c ∈ reads w s) (hp : w.recvBufPos ≤ maxRecvBuf) :
    (w.pending ++ c).length ≤ maxRecvBuf := by
  obtain ⟨k, e, rfl, -, -, -, hb⟩ := mem_reads_iff.mp h
  rw [List.length_append, length_pending hp]
  exact room_of_bytes hp hb

/-- A round on a connection `select` found readable is a call of `do_recv`. -/
theorem Move.doRecv_of_readable {k : RoundAnswer} {exceptional : Bool}
    (h : Move f fuel w (.iterate k) w') (hw : w.Watched)
    (hs : k.select = .ready true exceptional) :
    ∃ r, (doRecv (.quiet f) fuel k.recv).run w = r ∧
      w'.recvBufPos = (leaves r).recvBufPos := by
  cases h with
  | idle _ hi => exact absurd (.inl ⟨hw, true, exceptional, hs, rfl⟩) hi
  | received _ e _ _ hrun => exact ⟨_, hrun, by cases e <;> rfl⟩
  | receiveHalted _ _ _ _ hrun => exact ⟨_, hrun, rfl⟩
  | excepted _ _ hs' => cases hs.symm.trans hs'
  | redialed _ hr => cases hw.isConnected.symm.trans hr.isConnected
  | redialHalted _ hr => cases hw.isConnected.symm.trans hr.isConnected

/-- **What a step does to recv_buf_pos.**  It reads bytes and leaves what the parse leaves, or
the position stays. -/
theorem Move.recvBufPos (hf : Framing.Contract (frameLen f)) (hfuel : maxRecvBuf ≤ fuel)
    (hp : w.recvBufPos ≤ maxRecvBuf) (ha : w.control.admits s = true) (h : Move f fuel w s w') :
    (∃ c ∈ reads w s, c ≠ [] ∧
      w'.recvBufPos = (greedy (frameLen f) (w.pending ++ c)).2.length) ∨
    ((∀ c ∈ reads w s, c = []) ∧ w'.recvBufPos = w.recvBufPos) := by
  by_cases hread : ∃ k e, s = .iterate k ∧ w.Watched ∧ k.select = .ready true e
  · obtain ⟨k, e, rfl, hw, hs⟩ := hread
    obtain ⟨r, hrun, hpos⟩ := h.doRecv_of_readable hw hs
    -- the peer is gone, or bytes have come and the packets that are whole are taken out
    rcases doRecv_parsed hf hfuel hp k.recv with ⟨hlost, hb⟩ | ⟨c, b, p, hne, hb, hok, hbp, hple⟩
    · refine .inr ⟨?_, ?_⟩
      · intro c hc
        obtain ⟨k', e', hk, -, -, -, hb'⟩ := mem_reads_iff.mp hc
        cases hk
        rcases hb with hb | hb
        · cases hb.symm.trans hb'
        · exact (Option.some.inj (hb.symm.trans hb')).symm
      · rw [hpos, ← hrun, hlost]
        rfl
    · refine .inl ⟨c, mem_reads_iff.mpr ⟨k, e, rfl, ha, hw, hs, hb⟩, hne, ?_⟩
      have hlen : (b.slice 0 p).length = p := Buffer.length_slice _ (by omega)
      rw [hpos, ← hrun, hok, ← hbp, hlen]
      rfl
  · refine .inr ⟨?_, ?_⟩
    · intro c hc
      obtain ⟨k, e, hk, -, hw, hs, -⟩ := mem_reads_iff.mp hc
      exact absurd ⟨k, e, hk, hw, hs⟩ hread
    · cases h.receiving ha with
      | untouched es hu => exact hu.recvBufPos
      | connected es es' hu => exact hu.recvBufPos
      | received hw hs => exact absurd ⟨_, _, rfl, hw, hs⟩ hread
      | halted hw hs => exact absurd ⟨_, _, rfl, hw, hs⟩ hread

theorem next_recvBufPos_le (hf : Framing.Contract (frameLen f)) (hfuel : maxRecvBuf ≤ fuel)
    (hp : w.recvBufPos ≤ maxRecvBuf) (s : Step) :
    (next (.quiet f) fuel w s).recvBufPos ≤ maxRecvBuf := by
  refine next_cases (P := fun w' => w'.recvBufPos ≤ maxRecvBuf) s (fun _ => hp) fun w' ha h => ?_
  rcases h.recvBufPos hf hfuel hp ha with ⟨c, hr, -, hpos⟩ | ⟨-, hpos⟩
  · have hfit := length_reads_le hr hp
    have hrest := congrArg List.length (hf.greedy_flatten (w.pending ++ c))
    rw [List.length_append] at hrest
    omega
  · omega

theorem space_pos_iff (hp : w.recvBufPos ≤ maxRecvBuf) :
    0 < w.space ↔ w.recvBufPos < maxRecvBuf := by
  rw [space_eq hp]
  omega

/-- **When a step uses up the room.** -/
theorem next_space_iff (hf : HeaderFramed (frameLen f)) (hfuel : maxRecvBuf ≤ fuel)
    (hp : w.recvBufPos ≤ maxRecvBuf) (hroom : 0 < w.space) (s : Step) :
    0 < (next (.quiet f) fuel w s).space ↔ ¬ Clogs w s := by
  have hc := LengthPrefixed.contract hf
  have hlt := (space_pos_iff hp).mp hroom
  rw [space_pos_iff (next_recvBufPos_le hc hfuel hp s)]
  refine next_cases (P := fun w' => w'.recvBufPos < maxRecvBuf ↔ ¬ Clogs w s) s ?_ ?_
  · rintro ha
    refine iff_of_true hlt ?_
    rintro ⟨c, hc, -⟩
    obtain ⟨k, e, rfl, ha', -⟩ := mem_reads_iff.mp hc
    cases ha.symm.trans ha'
  · intro w' ha h
    rcases h.recvBufPos hc hfuel hp ha with ⟨c, hr, -, hpos⟩ | ⟨hno, hpos⟩
    · have hfit := length_reads_le hr hp
      -- nothing is taken out of a full buffer exactly when its first packet does not fit
      have hkept := LengthPrefixed.length_rest_eq_iff hf (w.pending ++ c)
      have hrest := congrArg List.length (hc.greedy_flatten (w.pending ++ c))
      rw [declared_take] at hkept
      rw [List.length_append] at hrest
      have hclogs : Clogs w s ↔ (w.pending ++ c).length = maxRecvBuf ∧
          maxRecvBuf < 4 + declared (w.pending ++ c) := by
        constructor
        · rintro ⟨c', hr', h'⟩
          rwa [Option.some.inj (hr.symm.trans hr')]
        · exact fun h' => ⟨c, hr, h'⟩
      rw [hclogs]
      omega
    · refine iff_of_true (by omega) ?_
      rintro ⟨c, hr, hfull, -⟩
      rw [hno c hr, List.append_nil, length_pending hp] at hfull
      omega

/-- A step that clogs the buffer leaves no room. -/
theorem Clogs.not_throughout (hf : HeaderFramed (frameLen f)) (hfuel : maxRecvBuf ≤ fuel)
    (hp : w.recvBufPos ≤ maxRecvBuf) (h : Clogs w s) (l : List Step) :
    ¬ Throughout (next (.quiet f) fuel) (fun w => 0 < w.space) w (s :: l) := by
  intro ht
  obtain ⟨hroom, ht⟩ := throughout_cons.mp ht
  exact (next_space_iff hf hfuel hp hroom s).mp (ht [] List.nil_prefix) h

/-- A full buffer stays full: whatever the steps, `recv` is offered no room. -/
theorem run_clogged (hf : HeaderFramed (frameLen f)) (hfuel : maxRecvBuf ≤ fuel)
    (hp : w.recvBufPos = maxRecvBuf) (l : List Step) :
    (run (next (.quiet f) fuel) w l).recvBufPos = maxRecvBuf := by
  refine run_invariant_of_forall (I := fun w : World => w.recvBufPos = maxRecvBuf) ?_ hp l
  intro w s hp
  refine next_cases (P := fun w' => w'.recvBufPos = maxRecvBuf) s (fun _ => hp) fun w' ha h => ?_
  rcases h.recvBufPos (LengthPrefixed.contract hf) hfuel (Nat.le_of_eq hp) ha with
    ⟨c, hr, hne, -⟩ | ⟨-, hpos⟩
  · have hfit := length_reads_le hr (Nat.le_of_eq hp)
    rw [List.length_append, length_pending (Nat.le_of_eq hp)] at hfit
    exact absurd (List.eq_nil_of_length_eq_zero (by omega)) hne
  · rw [hpos, hp]

/-- Where there is room, `recv` returns `0` only when no byte was waiting. -/
theorem eq_closed_of_bytes_nil {k : RecvAnswer} (hroom : 0 < w.space)
    (hb : k.bytes w.space = some []) : k = .closed ∨ k = .data [] := by
  cases k with
  | data bytes =>
      have htake : bytes.take w.space = [] := Option.some.inj hb
      rcases List.take_eq_nil_iff.mp htake with h | h
      · omega
      · exact .inr (by rw [h])
  | closed => exact .inl rfl
  | error => cases hb

/-- **When a result 0 of recv means the end of the connection.**  `recv` is offered room in every
state of a run exactly when no step of it clogs the buffer; then every `recv` that returns `0`
met the end of the connection. -/
theorem throughout_space_iff (hf : HeaderFramed (frameLen f)) (hfuel : maxRecvBuf ≤ fuel)
    (buf : Buffer Byte maxRecvBuf) (port : UInt16) (l : List Step) :
    (Throughout (next (.quiet f) fuel) (fun w => 0 < w.space) (World.new buf port) l ↔
      Along (next (.quiet f) fuel) (fun w s => ¬ Clogs w s) (World.new buf port) l) ∧
    (Along (next (.quiet f) fuel) (fun w s => ¬ Clogs w s) (World.new buf port) l →
      Along (next (.quiet f) fuel) (fun w s => ∀ k, s = .iterate k →
        k.recv.bytes w.space = some [] → k.recv = .closed ∨ k.recv = .data [])
        (World.new buf port) l) := by
  have hp : (World.new buf port).recvBufPos ≤ maxRecvBuf := Nat.zero_le _
  have hroom : 0 < (World.new buf port).space :=
    (space_pos_iff hp).mpr (show 0 < maxRecvBuf by decide)
  have hiff : Throughout (next (.quiet f) fuel) (fun w => 0 < w.space) (World.new buf port) l ↔
      Along (next (.quiet f) fuel) (fun w s => ¬ Clogs w s) (World.new buf port) l := by
    refine throughout_iff_along (I := fun w => w.recvBufPos ≤ maxRecvBuf) ?_ ?_ hp hroom
    · intro w s hp
      exact next_recvBufPos_le (LengthPrefixed.contract hf) hfuel hp s
    · intro w s hp hroom
      exact next_space_iff hf hfuel hp hroom s
  refine ⟨hiff, fun hl => ?_⟩
  refine (hiff.mpr hl).along.mono ?_
  rintro w s hroom k rfl hb
  exact eq_closed_of_bytes_nil hroom hb

end

/-! ### The framing of the header -/

/-- A `read_packet` for the header. -/
def headerLen (b : List Byte) : Int32 :=
  if 4 + declared b ≤ b.length then Int32.ofNat (4 + declared b) else 0

theorem headerLen_framed : HeaderFramed (frameLen headerLen) where
  header_pos := by decide
  whole b h := by
    rw [declared_take] at h ⊢
    have hlt := declared_lt b
    rw [frameLen, headerLen, if_pos h, Int32.toInt_ofNat_of_lt (by omega)]
    push_cast
    rfl
  part b h := by
    rw [declared_take] at h
    rw [frameLen, headerLen, if_neg (by omega)]
    decide

/-- A full buffer, which a new connection finds as the old one has left it. -/
theorem run_clogged_redial :
    (run (next (.quiet headerLen) maxRecvBuf)
      { World.new (.replicate _ 0) 0 with recvBufPos := maxRecvBuf }
      [.connect "host" 80 true (some [1]) ⟨some 3, true⟩, .disconnect,
        .connect "host" 80 true (some [1]) ⟨some 3, true⟩]).recvBufPos = maxRecvBuf :=
  run_clogged headerLen_framed (Nat.le_refl _) rfl _

/-- A message of three bytes arriving in two parts: `throughout_space_iff` where nothing clogs. -/
theorem throughout_space_iff_short :
    Throughout (next (.quiet headerLen) maxRecvBuf) (fun w => 0 < w.space)
      (World.new (.replicate _ 0) 0) (cutAfter [3, 0, 0, 0, 7] [8, 9]) := by
  exact (throughout_space_iff headerLen_framed (Nat.le_refl _) _ _ _).1.mpr (by decide)

/-- A header that declares 2045 bytes, and 2044 of them. -/
def overlong : List Byte := [0xfd, 7, 0, 0] ++ List.replicate 2044 0

/-- The buffer fills up while the message goes on. -/
theorem overlong_clogs : ¬ Throughout (next (.quiet headerLen) maxRecvBuf)
    (fun w => 0 < w.space) (World.new (.replicate _ 0) 0)
    [.connect "host" 80 true (some [1]) ⟨some 3, true⟩,
      .iterate (.reading (.data overlong))] := by
  have hclogs : Clogs (next (.quiet headerLen) maxRecvBuf (World.new (.replicate _ 0) 0)
      (.connect "host" 80 true (some [1]) ⟨some 3, true⟩))
      (.iterate (.reading (.data overlong))) := by
    decide +kernel
  intro ht
  refine hclogs.not_throughout headerLen_framed (Nat.le_refl _) ?_ [] (throughout_cons.mp ht).2
  exact next_recvBufPos_le (LengthPrefixed.contract headerLen_framed) (Nat.le_refl _)
    (Nat.zero_le _) _

end PBTransfor.Tcp
