import PBTransfor.Head.Codec
import PBTransfor.Library.LengthPrefixed

/-!
# Head — the frames loop.lua sends

`loop.lua` sends a header that declares the length of the payload, an empty extension, and the
payload.  Such frames are length-prefixed, so that a stream of them is read in one way only
(`frames_unambiguous`), and a reader that frames by the header gets them back (`greedy_wire`).
-/

namespace PBTransfor.Head

open Library

/-! ### The sender -/

/-- `pack_flag`. -/
def packFlag (_flagTable : Table) : LuaString := .empty

/-- What `loop.lua` sends for the payload `bytes`. -/
def frame (bytes : LuaString) : Except LuaError LuaString := do
  let headStr ← pack (.ofLength bytes.len)
  let flag := packFlag fun
    | .typeFlag => some 1
    | _ => none
  -- `..` associates to the right
  headStr.concat (← flag.concat bytes)

/-- The bytes of several frames, one after the other. -/
def wire (payloads : List LuaString) : Except LuaError (List UInt8) := do
  return ((← payloads.mapM frame).map LuaString.bytes).flatten

/-! ### The reader -/

/-- The length a header declares. -/
def declared (b : List UInt8) : Nat := valueLE (b.take 3)

/-- `f` waits for the four bytes of a header, and for the body it declares. -/
def HeaderFramed (f : List UInt8 → Int) : Prop := LengthPrefixed f 4 declared

@[simp] theorem declared_take (b : List UInt8) : declared (b.take 4) = declared b := by
  simp [declared, List.take_take]

theorem declared_lt (b : List UInt8) : declared b < 2 ^ 24 := by
  have h := valueLE_lt (b.take 3)
  have hpow : 256 ^ (b.take 3).length ≤ 256 ^ 3 :=
    Nat.pow_le_pow_right (by decide) (List.length_take_le ..)
  unfold declared
  omega

/-! ### What a frame is -/

/-- The bytes of the frame of `p`. -/
def frameBytes (p : LuaString) : List UInt8 := bytesLE 3 p.bytes.length ++ [0] ++ p.bytes

section
variable {p q : LuaString}

theorem flagsOf_ofLength (n : LuaInteger) : flagsOf (.ofLength n) = 0 := by
  simp [flagsOf, Table.value, Table.ofLength]

/-- A payload shorter than `2 ^ 24` bytes is framed. -/
theorem frame_ok (h : p.bytes.length < 2 ^ 24) : ∃ w, frame p = .ok w ∧ w.bytes = frameBytes p := by
  have hlen : ((Table.ofLength p.len).value .length).toNat = p.bytes.length := p.toNat_len
  obtain ⟨s, hs, hb⟩ := pack_ok (t := .ofLength p.len) (by rw [hlen]; exact h)
    (by rw [flagsOf_ofLength]; decide)
  rw [hlen, flagsOf_ofLength] at hb
  obtain ⟨r, hr, hrb⟩ := LuaString.concat_ok (s := .empty) (t := p) (by
    simpa [LuaString.empty] using p.length_lt)
  have hlt : (s.bytes ++ r.bytes).length < maxSize := by
    simp [hb, hrb, LuaString.empty, maxSize]
    omega
  obtain ⟨w, hw, hwb⟩ := LuaString.concat_ok hlt
  refine ⟨w, ?_, ?_⟩
  · rw [frame, hs]
    show (LuaString.empty.concat p).bind s.concat = _
    rw [hr]
    exact hw
  · rw [hwb, hb, hrb, frameBytes]
    rfl

/-- A longer payload is not: `proto:pack` raises. -/
theorem frame_error (h : 2 ^ 24 ≤ p.bytes.length) :
    frame p = .error (.argument 2 "unsigned overflow") := by
  have hlen : ((Table.ofLength p.len).value .length).toNat = p.bytes.length := p.toNat_len
  rw [frame, pack_error (by rw [hlen]; exact h)]
  rfl

theorem isFrame_frameBytes (h : p.bytes.length < 2 ^ 24) : IsFrame 4 declared (frameBytes p) := by
  have hd : declared (frameBytes p) = p.bytes.length := by
    rw [declared, frameBytes, List.append_assoc, List.take_left' (length_bytesLE 3 _)]
    exact valueLE_bytesLE h
  rw [IsFrame, declared_take, hd, frameBytes]
  simp only [List.length_append, length_bytesLE, List.length_singleton]

theorem isFrame_map {ps : List LuaString} (h : ∀ p ∈ ps, p.bytes.length < 2 ^ 24) :
    ∀ w ∈ ps.map frameBytes, IsFrame 4 declared w := by
  intro w hw
  obtain ⟨p, hp, rfl⟩ := List.mem_map.mp hw
  exact isFrame_frameBytes (h p hp)

theorem frameBytes_injective (h : frameBytes p = frameBytes q) : p = q := by
  have hp : ∀ r, (frameBytes r).drop 4 = r.bytes := fun r =>
    List.drop_left' (by simp [length_bytesLE])
  exact LuaString.ext (by rw [← hp p, ← hp q, h])

/-- A stream of short payloads is sent whole. -/
theorem wire_ok {ps : List LuaString} (h : ∀ p ∈ ps, p.bytes.length < 2 ^ 24) :
    wire ps = .ok (ps.map frameBytes).flatten := by
  have hmap : ∃ ws, ps.mapM frame = .ok ws ∧ ws.map LuaString.bytes = ps.map frameBytes := by
    induction ps with
    | nil => exact ⟨[], rfl, rfl⟩
    | cons p ps ih =>
        obtain ⟨w, hw, hwb⟩ := frame_ok (h p (by simp))
        obtain ⟨ws, hws, hwsb⟩ := ih fun q hq => h q (by simp [hq])
        refine ⟨w :: ws, ?_, by simp [hwb, hwsb]⟩
        rw [List.mapM_cons, hw, hws]
        rfl
  obtain ⟨ws, hws, hb⟩ := hmap
  rw [wire, hws, ← hb]
  rfl

/-- **A reader that frames by the header gets the frames back.** -/
theorem greedy_wire {f : List UInt8 → Int} (hf : HeaderFramed f) {ps : List LuaString}
    (h : ∀ p ∈ ps, p.bytes.length < 2 ^ 24) :
    greedy f (ps.map frameBytes).flatten = (ps.map frameBytes, []) := by
  have hg := LengthPrefixed.greedy_frames hf (isFrame_map h) []
  rw [greedy_of_nonpos (LengthPrefixed.contract hf).not_pos_nil, List.append_nil] at hg
  simpa using hg

/-- Two frames, read by their headers. -/
theorem greedy_wire_two : greedy (frameSize 4 declared)
    ([⟨[104, 105], by decide⟩, .empty].map frameBytes).flatten =
      ([[2, 0, 0, 0, 104, 105], [0, 0, 0, 0]], []) :=
  (greedy_wire (frameSize_lengthPrefixed (by decide)) (by decide)).trans (by decide)

/-- **The wire format is unambiguous.**  Streams of short payloads with the same bytes are
streams of the same payloads; no frame is the beginning of another; and longer payloads are not
framed. -/
theorem frames_unambiguous :
    (∀ ps qs : List LuaString, (∀ p ∈ ps, p.bytes.length < 2 ^ 24) →
      (∀ q ∈ qs, q.bytes.length < 2 ^ 24) →
      ∃ s t, wire ps = .ok s ∧ wire qs = .ok t ∧ (s = t → ps = qs)) ∧
    (∀ p q u v, frame p = .ok u → frame q = .ok v → u.bytes <+: v.bytes → u = v) ∧
    ∀ p : LuaString, 2 ^ 24 ≤ p.bytes.length →
      frame p = .error (.argument 2 "unsigned overflow") := by
  refine ⟨?_, ?_, fun p => frame_error⟩
  · intro ps qs hps hqs
    refine ⟨_, _, wire_ok hps, wire_ok hqs, fun heq => ?_⟩
    have hmap := uniquelyDecodable_frames (by decide) _ _ (isFrame_map hps) (isFrame_map hqs) heq
    exact List.map_injective_iff.mpr (fun _ _ => frameBytes_injective) hmap
  · intro p q u v hu hv hpre
    have short : ∀ {r w : LuaString}, frame r = .ok w →
        r.bytes.length < 2 ^ 24 ∧ w.bytes = frameBytes r := by
      intro r w hw
      by_cases h : r.bytes.length < 2 ^ 24
      · obtain ⟨w', hw', hb⟩ := frame_ok h
        exact ⟨h, Except.ok.inj (hw'.symm.trans hw) ▸ hb⟩
      · rw [frame_error (by omega)] at hw
        cases hw
    obtain ⟨hp, hub⟩ := short hu
    obtain ⟨hq, hvb⟩ := short hv
    rw [hub, hvb] at hpre
    -- no frame is the beginning of another
    have heq := (isFrame_frameBytes hp).eq_of_starts (by decide) (isFrame_frameBytes hq) hpre
    exact LuaString.ext (by rw [hub, hvb, heq])

end

/-- `frames_unambiguous` at a payload that looks like a header, and at an empty one. -/
theorem frames_unambiguous_header : ∃ s t,
    wire [⟨[0, 0, 0, 0], by decide⟩] = .ok s ∧ wire [.empty, .empty] = .ok t ∧
      (s = t → [(⟨[0, 0, 0, 0], by decide⟩ : LuaString)] = [.empty, .empty]) :=
  frames_unambiguous.1 _ _ (by decide) (by decide)

end PBTransfor.Head
