import PBTransfor.Uws.Receiver
import PBTransfor.Uws.Utf8

/-!
# Uws — writing frames

`WebSocketProtocol::formatMessage` and the payloads of close frames.

* `Frame.front`: the other side finds at the front of a stream the frame that was written there,
  whatever follows.  `formatMessage` writes frames that are messages (`formatMessage_eq`).
* `parseClosePayload_format`: what a close frame carries comes back, exactly when its code may be
  sent and its message is text.
-/

namespace PBTransfor.Uws

open Library

/-- `formatMessage`, with `flags` zero.  `random` is the mask it takes from `rand()`; only a client
does. -/
def formatMessage (isServer : Bool) (random : Mask) (src : List Byte) (opCode : Byte)
    (reportedLength : Nat) (compressed : Bool) : List Byte :=
  let dst₀ : Byte := 128 ||| (if compressed then 64 else 0) ||| opCode
  let dst₁ : Byte :=
    if reportedLength < 126 then UInt8.ofNat reportedLength
    else if reportedLength ≤ 65535 then 126
    else 127
  let extended :=
    if reportedLength < 126 then []
    else if reportedLength ≤ 65535 then bytesBE 2 reportedLength
    else bytesBE 8 reportedLength
  if isServer then dst₀ :: dst₁ :: (extended ++ src)
  else dst₀ :: (dst₁ ||| 0x80) :: (extended ++ List.ofFn random ++ unmask random src)

/-- `CloseFrame`. -/
structure CloseFrame where
  code : Nat := 0
  message : List Byte := []
  deriving DecidableEq, Repr

/-- The codes that are not accepted. -/
def badCode (code : Nat) : Bool :=
  code < 1000 || code > 4999 || (code > 1011 && code < 4000) || (code ≥ 1004 && code ≤ 1006)

def parseClosePayload (src : List Byte) : CloseFrame :=
  if src.length ≥ 2 then
    let cf : CloseFrame := { code := valueBE (src.take 2), message := src.drop 2 }
    if badCode cf.code || !isValidUtf8 cf.message then {} else cf
  else {}

/-- `formatClosePayload`; `code` has 16 bits. -/
def formatClosePayload (code : Nat) (message : List Byte) : List Byte :=
  if code % 2 ^ 16 ≠ 0 then bytesBE 2 (code % 2 ^ 16) ++ message else []

/-! ### Close frames -/

/-- **What a close frame carries comes back**, exactly when its code may be sent and its message
is text; otherwise nothing does. -/
theorem parseClosePayload_format (code : Nat) (message : List Byte) (hcode : code < 2 ^ 16) :
    parseClosePayload (formatClosePayload code message) =
      if badCode code = false ∧ Utf8 message then ⟨code, message⟩ else {} := by
  rw [formatClosePayload, Nat.mod_eq_of_lt hcode]
  split
  · have hl : (bytesBE 2 code).length = 2 := length_bytesBE 2 code
    rw [parseClosePayload, if_pos (by rw [List.length_append, hl]; omega), List.take_left' hl,
      List.drop_left' hl, valueBE_bytesBE (by omega)]
    simp only [← isValidUtf8_iff]
    cases badCode code <;> cases isValidUtf8 message <;> rfl
  · next h =>
      rw [not_not] at h
      subst h
      rfl

theorem parseClosePayload_format_bye :
    parseClosePayload (formatClosePayload 1000 [98, 121, 101]) = ⟨1000, [98, 121, 101]⟩ := by
  rw [parseClosePayload_format 1000 [98, 121, 101] (by decide)]
  decide

/-! ### Frames -/

/-- A frame; its opcode is zero if it continues a message. -/
structure Frame where
  fin : Bool
  opCode : Byte
  data : List Byte
  deriving DecidableEq, Repr

/-- One of the opcodes there are; a control frame is not split, and has at most 125 bytes. -/
structure Frame.WellFormed (f : Frame) : Prop where
  opCode : f.opCode ∈ ([0, 1, 2, 8, 9, 10] : List Byte)
  control : 2 < f.opCode → f.fin = true ∧ f.data.length ≤ 125
  length : f.data.length < 2 ^ 64

/-- The bytes of a header that give the length, and those of a mask, are where they are looked
for. -/
theorem front_fields (isServer : Bool) (d₀ d₁ : Byte) (extended key body : List Byte)
    (hext : extended.length = if payloadLength d₁ < 126 then 0
      else if payloadLength d₁ = 126 then 2 else 8)
    (hkey : key.length = if isServer then 4 else 0) :
    let b := d₀ :: d₁ :: (extended ++ (key ++ body))
    headerLength isServer b = 2 + extended.length + key.length ∧
      frameLength b =
        (if payloadLength d₁ < 126 then payloadLength d₁ else valueBE extended) ∧
      (isServer = true → frameMask isServer b = fun i : Fin 4 => key.getD i 0) ∧
      b.drop (headerLength isServer b) = body := by
  intro b
  have hb : b = (d₀ :: d₁ :: extended ++ key) ++ body := by simp [b]
  have hlen : (d₀ :: d₁ :: extended ++ key).length = 2 + extended.length + key.length := by
    simp only [List.length_append, List.length_cons]
    omega
  have hH : headerLength isServer b = 2 + extended.length + key.length := by
    rw [hext, hkey, headerLength]
    simp only [b, List.getD_cons_succ, List.getD_cons_zero]
    split
    · cases isServer <;> rfl
    · split <;> cases isServer <;> rfl
  refine ⟨hH, ?_, ?_, ?_⟩
  · rw [frameLength]
    simp only [b, List.getD_cons_succ, List.getD_cons_zero, List.drop_succ_cons, List.drop_zero]
    split
    · rfl
    · next h =>
        rw [if_neg h] at hext
        split
        · next h' => rw [List.take_left' (by rw [hext, if_pos h'])]
        · next h' => rw [List.take_left' (by rw [hext, if_neg h'])]
  · intro hs
    rw [hs, if_pos rfl] at hkey
    funext i
    have hi := i.isLt
    rw [frameMask, hH, hkey, show 2 + extended.length + 4 - 4 + (i : Nat) =
      (d₀ :: d₁ :: extended).length + i by simp only [List.length_cons]; omega]
    rw [hb, List.getD_eq_getElem?_getD, List.getD_eq_getElem?_getD,
      List.getElem?_append_left (by rw [List.length_append]; omega),
      List.getElem?_append_right (by omega), Nat.add_sub_cancel_left]
  · rw [hH, ← hlen, hb, List.drop_left]

/-- The first byte of a frame. -/
def Frame.firstByte (f : Frame) : Byte := (if f.fin then 128 else 0) ||| 0 ||| f.opCode

/-- The two bytes every header has, as they are read. -/
theorem Frame.read_firstByte {f : Frame} (hop : f.opCode ∈ ([0, 1, 2, 8, 9, 10] : List Byte)) :
    getOpCode f.firstByte = f.opCode ∧ isFin f.firstByte = f.fin ∧
      rsv1 f.firstByte = false ∧ rsv23 f.firstByte = false := by
  simp only [List.mem_cons, List.not_mem_nil, or_false] at hop
  rw [Frame.firstByte]
  rcases hop with hop | hop | hop | hop | hop | hop <;> rw [hop] <;> cases f.fin <;> decide

theorem second_byte {n : Nat} (h : n < 128) :
    payloadLength (UInt8.ofNat n) = n ∧ payloadLength (UInt8.ofNat n ||| 0x80) = n := by
  revert n
  decide +kernel

/-- The second byte, and those that give the length where it does not. -/
def lengthBytes (length : Nat) : Byte × List Byte :=
  if length < 126 then (UInt8.ofNat length, [])
  else if length ≤ 65535 then (126, bytesBE 2 length)
  else (127, bytesBE 8 length)

/-- The mask of a frame, as it is written. -/
def keyBytes (isServer : Bool) (random : Mask) : List Byte :=
  if isServer then [] else List.ofFn random

/-- The payload of a frame, as it is written. -/
def bodyBytes (isServer : Bool) (random : Mask) (src : List Byte) : List Byte :=
  if isServer then src else unmask random src

/-- The frame, as one side of a connection sends it; a client masks it. -/
def Frame.bytes (isServer : Bool) (random : Mask) (f : Frame) : List Byte :=
  f.firstByte ::
    (if isServer then (lengthBytes f.data.length).1 else (lengthBytes f.data.length).1 ||| 0x80) ::
      ((lengthBytes f.data.length).2 ++
        (keyBytes isServer random ++ bodyBytes isServer random f.data))

/-- **What is sent is a frame**, one that is a whole message. -/
theorem formatMessage_eq (isServer : Bool) (random : Mask) (src : List Byte) (opCode : Byte) :
    formatMessage isServer random src opCode src.length false =
      (Frame.mk true opCode src).bytes isServer random := by
  by_cases h : src.length < 126
  · cases isServer <;>
      simp [formatMessage, Frame.bytes, Frame.firstByte, lengthBytes, keyBytes, bodyBytes, h]
  · by_cases h' : src.length ≤ 65535 <;> cases isServer <;>
      simp [formatMessage, Frame.bytes, Frame.firstByte, lengthBytes, keyBytes, bodyBytes, h, h']

/-- The length is read as it was written. -/
theorem lengthBytes_read (isServer : Bool) {n : Nat} (hn : n < 2 ^ 64) :
    let d₁ := if isServer then (lengthBytes n).1 else (lengthBytes n).1 ||| 0x80
    (lengthBytes n).2.length = (if payloadLength d₁ < 126 then 0
      else if payloadLength d₁ = 126 then 2 else 8) ∧
    (if payloadLength d₁ < 126 then payloadLength d₁ else valueBE (lengthBytes n).2) = n ∧
    (payloadLength d₁ ≤ 125 ↔ n ≤ 125) := by
  intro d₁
  have hd : payloadLength d₁ = if n < 126 then n else if n ≤ 65535 then 126 else 127 := by
    dsimp only [d₁]
    rw [lengthBytes]
    split
    · split
      · exact (second_byte (by omega)).1
      · split
        · exact (by decide : payloadLength 126 = 126)
        · exact (by decide : payloadLength 127 = 127)
    · split
      · exact (second_byte (by omega)).2
      · split
        · exact (by decide : payloadLength (126 ||| 0x80) = 126)
        · exact (by decide : payloadLength (127 ||| 0x80) = 127)
  rw [hd, lengthBytes]
  by_cases h : n < 126
  · simp only [if_pos h]
    exact ⟨rfl, trivial, trivial⟩
  by_cases h' : n ≤ 65535
  · simp only [if_neg h, if_pos h']
    exact ⟨length_bytesBE 2 n, valueBE_bytesBE (by omega), by omega⟩
  · simp only [if_neg h, if_neg h']
    exact ⟨length_bytesBE 8 n, valueBE_bytesBE (by omega), by omega⟩

theorem ofFn_getD (mask : Mask) : (fun i : Fin 4 => (List.ofFn mask).getD i 0) = mask := by
  funext i
  rw [List.getD_eq_getElem?_getD, List.getElem?_ofFn]
  simp

/-- **The other side finds the frame that was sent**, whatever follows it, unless it is a control
frame that is split or long. -/
theorem Frame.front (isServer : Bool) (random : Mask) {f : Frame}
    (hopCode : f.opCode ∈ ([0, 1, 2, 8, 9, 10] : List Byte)) (hlen : f.data.length < 2 ^ 64)
    (rest : List Byte) :
    let b := f.bytes isServer random ++ rest
    frameOpCode b = f.opCode ∧ frameFin b = f.fin ∧
      (frameMalformed b = true ↔ 2 < f.opCode ∧ (f.fin = false ∨ 125 < f.data.length)) ∧
      frameLength b = f.data.length ∧ framePayload (!isServer) b = f.data ∧
      headerLength (!isServer) b + f.data.length ≤ b.length ∧
      b.drop (headerLength (!isServer) b + f.data.length) = rest := by
  intro b
  obtain ⟨hop, hfin, hr1, hr23⟩ := Frame.read_firstByte hopCode
  obtain ⟨hext, hval, hshort⟩ := lengthBytes_read isServer hlen
  set d₁ : Byte := if isServer then (lengthBytes f.data.length).1
    else (lengthBytes f.data.length).1 ||| 0x80 with hd₁
  have hb : b = f.firstByte :: d₁ :: ((lengthBytes f.data.length).2 ++
      (keyBytes isServer random ++ (bodyBytes isServer random f.data ++ rest))) := by
    simp [b, Frame.bytes, hd₁]
  have hkey : (keyBytes isServer random).length = if (!isServer) = true then 4 else 0 := by
    rw [keyBytes]
    cases isServer <;> simp
  obtain ⟨hH, hN, hmask, hdrop⟩ := front_fields (!isServer) f.firstByte d₁
    (lengthBytes f.data.length).2 (keyBytes isServer random)
    (bodyBytes isServer random f.data ++ rest) hext hkey
  rw [← hb] at hH hN hmask hdrop
  rw [hval] at hN
  have h₀ : b.getD 0 0 = f.firstByte := by rw [hb, List.getD_cons_zero]
  have h₁ : b.getD 1 0 = d₁ := by rw [hb, List.getD_cons_succ, List.getD_cons_zero]
  have hbody : (bodyBytes isServer random f.data).length = f.data.length := by
    rw [bodyBytes]
    split <;> simp
  have hall : b.length = headerLength (!isServer) b + (f.data.length + rest.length) := by
    rw [hH, hb]
    simp only [List.length_cons, List.length_append, hbody]
    omega
  refine ⟨?_, ?_, ?_, hN, ?_, by omega, ?_⟩
  · rw [frameOpCode, h₀, hop]
  · rw [frameFin, h₀, hfin]
  · rw [frameMalformed, h₀, h₁, hr1, malformed, hr23, hop, hfin]
    rw [← Nat.not_le, ← hshort, Nat.not_le]
    simp only [List.mem_cons, List.not_mem_nil, or_false] at hopCode
    rcases hopCode with hm | hm | hm | hm | hm | hm <;> rw [hm] <;> simp
  -- masked twice with the same key it is what it was
  · rw [framePayload, hdrop, hN, List.take_left' hbody, bodyBytes]
    cases isServer with
    | true => simp
    | false =>
        rw [hmask rfl, keyBytes]
        simp only [Bool.not_false, Bool.false_eq_true, if_true, if_false]
        rw [ofFn_getD, unmask_unmask]
  · rw [← List.drop_drop, hdrop, List.drop_left' hbody]

end PBTransfor.Uws
