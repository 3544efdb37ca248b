import PBTransfor.Library.Transducer
import PBTransfor.Uws.Consume

/-!
# Uws — frame by frame

What `consume` is for: a stream of bytes is a sequence of frames, and each frame, once all of it
is there, is handed to `Impl::handleFragment` in one piece.  A `Receiver` is what is known between
two frames: the opcodes of the messages that have begun, innermost first, whether the last frame
was a final one, and the state of `Impl`.

This is a reader in the sense of `Library.Transducer` (`contract`): of how the stream is cut
nothing can be seen.
-/

namespace PBTransfor.Uws

open Library

/-! ### The frame at the front of a stream -/

section
variable (isServer : Bool) (b : List Byte)

/-- The opcode of the frame; zero if it continues a message. -/
def frameOpCode : Byte := getOpCode (b.getD 0 0)

def frameFin : Bool := isFin (b.getD 0 0)

/-- The frame cannot be read, or is compressed. -/
def frameMalformed : Bool := rsv1 (b.getD 0 0) || malformed (b.getD 0 0) (b.getD 1 0)

def headerLength : Nat :=
  if payloadLength (b.getD 1 0) < 126 then SHORT_MESSAGE_HEADER isServer
  else if payloadLength (b.getD 1 0) = 126 then MEDIUM_MESSAGE_HEADER isServer
  else LONG_MESSAGE_HEADER isServer

/-- The length of the payload, as the header gives it. -/
def frameLength : Nat :=
  if payloadLength (b.getD 1 0) < 126 then payloadLength (b.getD 1 0)
  else if payloadLength (b.getD 1 0) = 126 then valueBE ((b.drop 2).take 2)
  else valueBE ((b.drop 2).take 8)

/-- The last four bytes of the header of a frame that a client has sent. -/
def frameMask : Mask := fun i => b.getD (headerLength isServer b - 4 + i) 0

/-- What has arrived of the payload, unmasked if a client has sent it. -/
def framePayload : List Byte :=
  let data := (b.drop (headerLength isServer b)).take (frameLength b)
  if isServer then unmask (frameMask isServer b) data else data

end

/-! ### The reader -/

structure Receiver (σ : Type*) where
  opCodes : List Byte := []
  lastFin : Bool := true
  finished : Bool := false
  impl : σ

section
variable {σ : Type*} (I : Impl σ) (isServer : Bool)

namespace Receiver

def close (q : Receiver σ) : Receiver σ := { q with finished := true, impl := I.forceClose q.impl }

/-- The frame begins a message where none can begin, continues one where there is none, or is
refused for its length. -/
def Refuses (q : Receiver σ) (b : List Byte) : Prop :=
  frameOpCode b ≠ 0 ∧ (q.opCodes.length = 2 ∨ q.lastFin = false ∧ frameOpCode b < 2) ∨
    frameOpCode b = 0 ∧ q.opCodes = [] ∨ I.refusePayloadLength (frameLength b) q.impl = true

instance (q : Receiver σ) (b : List Byte) : Decidable (q.Refuses I b) :=
  inferInstanceAs (Decidable (_ ∧ _ ∨ _ ∧ _ ∨ _))

/-- The messages that have begun, with the one the frame begins. -/
def begun (q : Receiver σ) (b : List Byte) : List Byte :=
  if frameOpCode b ≠ 0 then frameOpCode b :: q.opCodes else q.opCodes

/-- The frame, of which `data` is the payload, has been read. -/
def finish (q : Receiver σ) (b : List Byte) : Bool × σ → Receiver σ
  | (true, impl) => { q with finished := true, impl := impl }
  | (false, impl) =>
      { opCodes := if frameFin b then (q.begun b).tail else q.begun b
        lastFin := frameFin b
        finished := false
        impl := impl }

/-- `Impl` is given so much of the payload of the frame, and told how much of it is missing. -/
def hand (q : Receiver σ) (b data : List Byte) (remaining : Nat) : Bool × σ :=
  I.handleFragment data remaining ((q.begun b).headD 0) (frameFin b) q.impl

/-- The frame at the front of `b` is read, once it is there. -/
def step (q : Receiver σ) (b : List Byte) : Option (Receiver σ × List Byte) :=
  if q.finished ∨ b.length < SHORT_MESSAGE_HEADER isServer then none
  else if frameMalformed b then some (q.close I, b.drop (SHORT_MESSAGE_HEADER isServer))
  else if b.length < headerLength isServer b then none
  else if q.Refuses I b then some (q.close I, b.drop (headerLength isServer b))
  else if b.length < headerLength isServer b + frameLength b then none
  else some (q.finish b (q.hand I b (framePayload isServer b) 0),
    b.drop (headerLength isServer b + frameLength b))

end Receiver

end

/-! ### What has arrived stays what it is -/

theorem two_le_short (isServer : Bool) : 2 ≤ SHORT_MESSAGE_HEADER isServer := by
  cases isServer <;> decide

theorem short_le_headerLength (isServer : Bool) (b : List Byte) :
    SHORT_MESSAGE_HEADER isServer ≤ headerLength isServer b := by
  rw [headerLength]
  split
  · exact Nat.le_refl _
  · split <;> cases isServer <;> decide

section
variable {isServer : Bool} {b : List Byte}

theorem getD_append_of_lt {i : Nat} (c : List Byte) (h : i < b.length) :
    (b ++ c).getD i 0 = b.getD i 0 := by
  rw [List.getD_eq_getElem?_getD, List.getD_eq_getElem?_getD, List.getElem?_append_left h]

theorem frameOpCode_append (c : List Byte) (h : 2 ≤ b.length) :
    frameOpCode (b ++ c) = frameOpCode b := by
  rw [frameOpCode, getD_append_of_lt c (by omega), frameOpCode]

theorem frameFin_append (c : List Byte) (h : 2 ≤ b.length) :
    frameFin (b ++ c) = frameFin b := by
  rw [frameFin, getD_append_of_lt c (by omega), frameFin]

theorem frameMalformed_append (c : List Byte) (h : 2 ≤ b.length) :
    frameMalformed (b ++ c) = frameMalformed b := by
  rw [frameMalformed, getD_append_of_lt c (by omega), getD_append_of_lt c (by omega),
    frameMalformed]

theorem headerLength_append (c : List Byte) (h : 2 ≤ b.length) :
    headerLength isServer (b ++ c) = headerLength isServer b := by
  rw [headerLength, getD_append_of_lt c (by omega), headerLength]

/-- The length stands in the header. -/
theorem frameLength_append (c : List Byte) (h : headerLength isServer b ≤ b.length) :
    frameLength (b ++ c) = frameLength b := by
  have h2 : 2 ≤ b.length :=
    Nat.le_trans (Nat.le_trans (two_le_short isServer) (short_le_headerLength isServer b)) h
  rw [headerLength] at h
  rw [frameLength, getD_append_of_lt c (by omega), frameLength]
  split
  · rfl
  · next h1 =>
      rw [if_neg h1] at h
      split
      · next h3 =>
          rw [if_pos h3] at h
          have h4 : 4 ≤ b.length := Nat.le_trans (by cases isServer <;> decide) h
          rw [List.drop_append_of_le_length h2, List.take_append_of_le_length]
          rw [List.length_drop]
          omega
      · next h3 =>
          rw [if_neg h3] at h
          have h10 : 10 ≤ b.length := Nat.le_trans (by cases isServer <;> decide) h
          rw [List.drop_append_of_le_length h2, List.take_append_of_le_length]
          rw [List.length_drop]
          omega

theorem frameMask_append (c : List Byte) (hs : isServer = true)
    (h : headerLength isServer b ≤ b.length) :
    frameMask isServer (b ++ c) = frameMask isServer b := by
  have hshort := short_le_headerLength isServer b
  have h6 : SHORT_MESSAGE_HEADER isServer = 6 := by rw [hs]; rfl
  funext i
  have hi := i.isLt
  rw [frameMask, headerLength_append c (by omega), getD_append_of_lt c (by omega), frameMask]

theorem framePayload_append (c : List Byte)
    (h : headerLength isServer b + frameLength b ≤ b.length) :
    framePayload isServer (b ++ c) = framePayload isServer b := by
  have h2 := Nat.le_trans (two_le_short isServer) (short_le_headerLength isServer b)
  have hdata : ((b ++ c).drop (headerLength isServer b)).take (frameLength b) =
      (b.drop (headerLength isServer b)).take (frameLength b) := by
    rw [List.drop_append_of_le_length (by omega), List.take_append_of_le_length]
    rw [List.length_drop]
    omega
  rw [framePayload, headerLength_append c (by omega),
    frameLength_append c (Nat.le_of_add_right_le h), hdata, framePayload]
  cases hs : isServer with
  | false => rfl
  | true => rw [← hs, frameMask_append c hs (by omega)]

end

namespace Receiver

section
variable {σ : Type*} {I : Impl σ} {isServer : Bool} {q : Receiver σ} {b : List Byte}

theorem refuses_append (c : List Byte) (h : headerLength isServer b ≤ b.length) :
    q.Refuses I (b ++ c) ↔ q.Refuses I b := by
  have h2 := Nat.le_trans (two_le_short isServer) (short_le_headerLength isServer b)
  rw [Refuses, frameOpCode_append c (by omega), frameLength_append c h, Refuses]

theorem begun_append (c : List Byte) (h : 2 ≤ b.length) : q.begun (b ++ c) = q.begun b := by
  rw [begun, frameOpCode_append c h, begun]

theorem hand_append (c data : List Byte) (n : Nat) (h : 2 ≤ b.length) :
    q.hand I (b ++ c) data n = q.hand I b data n := by
  rw [hand, begun_append c h, frameFin_append c h, hand]

theorem finish_append (c : List Byte) (h : 2 ≤ b.length) (r : Bool × σ) :
    q.finish (b ++ c) r = q.finish b r := by
  rcases r with ⟨_ | _, impl⟩
  · rw [finish, begun_append c h, frameFin_append c h, finish]
  · rfl

end

/-- **The frame-by-frame reader**: whatever arrives behind a frame, it is read as it was. -/
theorem contract {σ : Type*} (I : Impl σ) (isServer : Bool) :
    Transducer.Contract (step I isServer) where
  shrinks := by
    intro q b q' r h
    have h2 := two_le_short isServer
    have hle := short_le_headerLength isServer b
    rw [step] at h
    split at h
    · cases h
    next hshort =>
    rw [not_or] at hshort
    split at h
    · cases h
      rw [List.length_drop]
      omega
    split at h
    · cases h
    split at h
    · cases h
      rw [List.length_drop]
      omega
    split at h
    · cases h
    cases h
    rw [List.length_drop]
    omega
  -- each test of `step` has the same outcome when more bytes follow
  stable := by
    intro q b q' r c h
    have h2 := two_le_short isServer
    have hle := short_le_headerLength isServer b
    have hlen : (b ++ c).length = b.length + c.length := List.length_append
    rw [step] at h
    split at h
    · cases h
    next hshort =>
    rw [not_or] at hshort
    have h2b : 2 ≤ b.length := by omega
    rw [step, if_neg (by rw [not_or]; exact ⟨hshort.1, by omega⟩), frameMalformed_append c h2b]
    split at h
    · next hm =>
        cases h
        rw [if_pos hm, List.drop_append_of_le_length (by omega)]
    next hm =>
    rw [if_neg hm, headerLength_append c h2b]
    split at h
    · cases h
    next hh =>
    rw [if_neg (by omega)]
    split at h
    · next hr =>
        cases h
        rw [if_pos ((refuses_append c (Nat.le_of_not_lt hh)).mpr hr),
          List.drop_append_of_le_length (by omega)]
    next hr =>
    rw [if_neg (mt (refuses_append c (Nat.le_of_not_lt hh)).mp hr),
      frameLength_append c (Nat.le_of_not_lt hh)]
    split at h
    · cases h
    next hp =>
    cases h
    rw [if_neg (by omega), framePayload_append c (by omega), hand_append c _ _ h2b,
      finish_append c h2b, List.drop_append_of_le_length (by omega)]

end Receiver

end PBTransfor.Uws
