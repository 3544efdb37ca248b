import PBTransfor.Tcp.Recv

/-!
# Tcp — reassembly does not depend on the chunks

The kernel cuts a stream into chunks as it likes.  Where the framing contract holds and a full
buffer always shows a packet, the packets `do_recv` delivers over any number of calls are those
of the greedy parse of the whole stream (`recvAll_greedy`), and the buffer never fills up.
-/

namespace PBTransfor.Tcp

open Library

/-- The packets a trace passes to `on_recv`. -/
def delivered (trace : List Event) : List (List Byte) :=
  trace.filterMap fun
    | .onRecv pData => some pData
    | _ => none

/-- Successive calls of `do_recv`, one for each chunk. -/
def recvAll (v : Virtuals) (fuel : Nat) (chunks : List (List Byte)) : Method Unit :=
  forM chunks fun c => do
    let _ ← doRecv v fuel (.data c)

/-- Every chunk is a non-empty result of `recv` that fits the room offered. -/
def Fits (v : Virtuals) (fuel : Nat) : World → List (List Byte) → Prop
  | _, [] => True
  | w, c :: cs => c ≠ [] ∧ c.length ≤ w.space ∧
      match (doRecv v fuel (.data c)).run w with
      | .ok _ w' => Fits v fuel w' cs
      | .error _ _ => True

section
variable {f : List Byte → Int32} {fuel : Nat} {w : World}

@[simp] theorem delivered_append (t t' : List Event) :
    delivered (t ++ t') = delivered t ++ delivered t' := List.filterMap_append ..

@[simp] theorem delivered_onRecv (pkts : List (List Byte)) :
    delivered (pkts.map .onRecv) = pkts := by
  induction pkts with
  | nil => rfl
  | cons p ps ih => simp [delivered, List.filterMap_map]

theorem recvAll_cons (v : Virtuals) (c : List Byte) (cs : List (List Byte)) :
    (recvAll v fuel (c :: cs)).run w = match (doRecv v fuel (.data c)).run w with
      | .ok _ w' => (recvAll v fuel cs).run w'
      | .error h w' => .error h w' := by
  simp only [recvAll, List.forM_cons, EStateM.run_bind]
  cases (doRecv v fuel (.data c)).run w <;> rfl

/-- What is pending determines its length. -/
theorem length_pending (h : w.recvBufPos ≤ maxRecvBuf) : w.pending.length = w.recvBufPos :=
  Buffer.length_slice _ (by omega)

/-- One chunk: the packets it completes are delivered, and the buffer does not fill up. -/
theorem doRecv_chunk (hf : Framing.Contract (frameLen f))
    (hfull : ∀ b : List Byte, b.length = maxRecvBuf → 0 < frameLen f b)
    (hfuel : maxRecvBuf ≤ fuel) (hp : w.recvBufPos ≤ maxRecvBuf) {c : List Byte} (hc : c ≠ [])
    (hfit : c.length ≤ w.space) :
    ∃ w', (doRecv (.quiet f) fuel (.data c)).run w = .ok 0 w' ∧
      delivered w'.trace = delivered w.trace ++ (greedy (frameLen f) (w.pending ++ c)).1 ∧
      w'.pending = (greedy (frameLen f) (w.pending ++ c)).2 ∧ w'.recvBufPos < maxRecvBuf := by
  have hb : (RecvAnswer.data c).bytes w.space = some c :=
    congrArg some (List.take_of_length_le hfit)
  obtain ⟨b, p, hrun, hslice, hle⟩ := doRecv_greedy hf hfuel hp hb hc
  refine ⟨_, hrun, ?_, hslice, ?_⟩
  · simp [World.refill, delivered, List.filterMap_map]
  · -- a remainder that fills the buffer would show a packet
    have hlen : (b.slice 0 p).length = p := Buffer.length_slice _ (by omega)
    have hrest := hf.greedy_rest (w.pending ++ c)
    rw [← hslice] at hrest
    have hne : p ≠ maxRecvBuf := fun h => hrest (hfull _ (hlen.trans h))
    exact Nat.lt_of_le_of_ne hle hne

/-- Any number of chunks, from a buffer that shows no packet. -/
theorem recvAll_chunks (hf : Framing.Contract (frameLen f))
    (hfull : ∀ b : List Byte, b.length = maxRecvBuf → 0 < frameLen f b)
    (hfuel : maxRecvBuf ≤ fuel) (chunks : List (List Byte)) : ∀ {w : World},
    w.recvBufPos < maxRecvBuf → ¬ 0 < frameLen f w.pending → Fits (.quiet f) fuel w chunks →
    ∃ w', (recvAll (.quiet f) fuel chunks).run w = .ok () w' ∧
      delivered w'.trace =
        delivered w.trace ++ (greedy (frameLen f) (w.pending ++ chunks.flatten)).1 ∧
      w'.pending = (greedy (frameLen f) (w.pending ++ chunks.flatten)).2 ∧
      w'.recvBufPos < maxRecvBuf := by
  induction chunks with
  | nil =>
      intro w hp hno _
      refine ⟨w, rfl, ?_, ?_, hp⟩ <;> simp [greedy_of_nonpos hno]
  | cons c cs ih =>
      rintro w hp - ⟨hc, hfit, hrest⟩
      obtain ⟨w₁, hrun, hdel, hpend, hp₁⟩ := doRecv_chunk hf hfull hfuel (Nat.le_of_lt hp) hc hfit
      rw [hrun] at hrest
      have hno : ¬ 0 < frameLen f w₁.pending := by rw [hpend]; exact hf.greedy_rest _
      obtain ⟨w', hrun', hdel', hpend', hp'⟩ := ih hp₁ hno hrest
      refine ⟨w', ?_, ?_, ?_, hp'⟩
      · rw [recvAll_cons, hrun]
        exact hrun'
      -- packets of the parts, and then of what the first part left: `greedy_append`
      · rw [hdel', hdel, hpend, List.flatten_cons, ← List.append_assoc w.pending,
          hf.greedy_append (w.pending ++ c), List.append_assoc]
      · rw [hpend', hpend, List.flatten_cons, ← List.append_assoc w.pending,
          hf.greedy_append (w.pending ++ c)]

/-- Chunks that fit, fit as far as they go. -/
theorem Fits.of_prefix {v : Virtuals} {cs : List (List Byte)} : ∀ {w : World}
    {chunks : List (List Byte)}, cs <+: chunks → Fits v fuel w chunks → Fits v fuel w cs := by
  induction cs with
  | nil => intro _ _ _ _; trivial
  | cons c cs ih =>
      rintro w chunks ⟨t, rfl⟩ ⟨hc, hfit, hrest⟩
      refine ⟨hc, hfit, ?_⟩
      split at hrest
      · exact ih (List.prefix_append cs t) hrest
      · trivial

/-- **Reassembly does not depend on the chunks.**  A connection begins with an empty buffer, and
its stream arrives in chunks that fit.  After each of them, `on_recv` has been passed the packets
of the greedy parse of what has arrived, the remainder is pending, and `recv` will be offered
room.  Two ways to cut a stream deliver the same packets. -/
theorem recvAll_greedy (hf : Framing.Contract (frameLen f))
    (hfull : ∀ b : List Byte, b.length = maxRecvBuf → 0 < frameLen f b)
    (hfuel : maxRecvBuf ≤ fuel) (hw : w.recvBufPos = 0) (chunks : List (List Byte))
    (hfits : Fits (.quiet f) fuel w chunks) :
    (∀ cs, cs <+: chunks → ∃ w', (recvAll (.quiet f) fuel cs).run w = .ok () w' ∧
      delivered w'.trace = delivered w.trace ++ (greedy (frameLen f) cs.flatten).1 ∧
      w'.pending = (greedy (frameLen f) cs.flatten).2 ∧
      w'.recvBufPos < maxRecvBuf ∧ 0 < w'.space) ∧
    ∀ chunks', Fits (.quiet f) fuel w chunks' → chunks'.flatten = chunks.flatten →
      ∃ w₁ w₂, (recvAll (.quiet f) fuel chunks).run w = .ok () w₁ ∧
        (recvAll (.quiet f) fuel chunks').run w = .ok () w₂ ∧
        delivered w₁.trace = delivered w₂.trace ∧ w₁.pending = w₂.pending := by
  have hnil : w.pending = [] := by simp [World.pending, hw]
  have hno : ¬ 0 < frameLen f w.pending := by rw [hnil]; exact hf.not_pos_nil
  have hp : w.recvBufPos < maxRecvBuf := by rw [hw]; decide
  constructor
  · intro cs hcs
    obtain ⟨w', hrun, hdel, hpend, hlt⟩ :=
      recvAll_chunks hf hfull hfuel cs hp hno (hfits.of_prefix hcs)
    rw [hnil, List.nil_append] at hdel hpend
    refine ⟨w', hrun, hdel, hpend, hlt, ?_⟩
    rw [space_eq (Nat.le_of_lt hlt)]
    omega
  · intro chunks' hfits' heq
    obtain ⟨w₁, hrun₁, hdel₁, hpend₁, -⟩ := recvAll_chunks hf hfull hfuel chunks hp hno hfits
    obtain ⟨w₂, hrun₂, hdel₂, hpend₂, -⟩ := recvAll_chunks hf hfull hfuel chunks' hp hno hfits'
    refine ⟨w₁, w₂, hrun₁, hrun₂, ?_, ?_⟩
    · rw [hdel₁, hdel₂, heq]
    · rw [hpend₁, hpend₂, heq]

end

/-! ### Records of two bytes -/

/-- A `read_packet` for records of two bytes. -/
def recordLen (b : List Byte) : Int32 := if 2 ≤ b.length then 2 else 0

theorem frameLen_recordLen (b : List Byte) :
    frameLen recordLen b = if 2 ≤ b.length then 2 else 0 := by
  unfold frameLen recordLen
  split <;> rfl

theorem recordLen_contract : Framing.Contract (frameLen recordLen) where
  le_length b := by
    rw [frameLen_recordLen]
    split <;> omega
  stable b c := by
    simp only [frameLen_recordLen, List.length_append]
    split
    · rw [if_pos (by omega)]
      exact fun _ => rfl
    · exact fun h => absurd h (by decide)

/-- A record cut in two: `recvAll_greedy` at a stream of three bytes. -/
theorem recvAll_greedy_records :
    ∃ w', (recvAll (.quiet recordLen) maxRecvBuf [[1], [2, 3]]).run
        (World.new (.replicate _ 0) 0) = .ok () w' ∧
      delivered w'.trace = [[1, 2]] ∧ w'.pending = [3] ∧
      w'.recvBufPos < maxRecvBuf ∧ 0 < w'.space := by
  have hfull : ∀ b : List Byte, b.length = maxRecvBuf → 0 < frameLen recordLen b := by
    intro b hb
    rw [frameLen_recordLen, hb]
    decide
  have hfits : Fits (.quiet recordLen) maxRecvBuf (World.new (.replicate _ 0) 0)
      [[1], [2, 3]] := ⟨by decide, by decide, by decide, by decide, trivial⟩
  exact (recvAll_greedy recordLen_contract hfull (Nat.le_refl _) rfl _ hfits).1 _
    (List.prefix_refl _)

end PBTransfor.Tcp
