import PBTransfor.Library.BigEndian
import PBTransfor.Uws.Mask

/-!
# Uws — reading frames

`WebSocketProtocol<isServer, Impl>::consume`, with the state it keeps from one chunk of a stream
to the next.  `consume` is called with a pointer into the receive buffer and the number of bytes
that have arrived there.  It hands payloads, or as much of them as it has, to
`Impl::handleFragment`, and what it cannot use yet (the front of a header) goes to `spill`.

`Impl` is a parameter, as it is in the source.  A function that changes its arguments or the
states returns what they became, in a `Consumer`.
-/

namespace PBTransfor.Uws

open Library

/-! ### A frame -/

def SHORT_MESSAGE_HEADER (isServer : Bool) : Nat := if isServer then 6 else 2

def MEDIUM_MESSAGE_HEADER (isServer : Bool) : Nat := if isServer then 8 else 4

def LONG_MESSAGE_HEADER (isServer : Bool) : Nat := if isServer then 14 else 10

/-! The accessors take the byte of the frame they look at: the first, or the second. -/

def isFin (b : Byte) : Bool := b &&& 128 ≠ 0

/-- An `OpCode` is a byte; 1 is text, 2 binary, 8 close, 9 ping, 10 pong. -/
def getOpCode (b : Byte) : Byte := b &&& 15

def payloadLength (b : Byte) : Nat := (b &&& 127).toNat

def rsv23 (b : Byte) : Bool := b &&& 48 ≠ 0

def rsv1 (b : Byte) : Bool := b &&& 64 ≠ 0

/-! ### The states -/

/-- `WebSocketState<isServer>`.  `spill` is what was last stored there. -/
structure WebSocketState where
  wantsHead : Bool := true
  spillLength : Nat := 0
  opStack : Int := -1
  lastFin : Bool := true
  spill : List Byte := []
  opCode : Int → Byte := fun _ => 0
  remainingBytes : Nat := 0
  mask : Mask := fun _ => 0

/-- `Impl`, of what `consume` uses; `σ` is the state of the object that is not `WebSocketState`.
`ended` says that the connection is closed or shutting down. -/
structure Impl (σ : Type*) where
  setCompressed : σ → Bool × σ
  refusePayloadLength : Nat → σ → Bool
  forceClose : σ → σ
  handleFragment : List Byte → Nat → Byte → Bool → σ → Bool × σ
  ended : σ → Bool

/-- The arguments of the functions below, and what they refer to. -/
structure Consumer (σ : Type*) where
  mem : Memory Byte
  src : Nat
  length : Nat
  wState : WebSocketState
  impl : σ

section
variable {σ : Type*} (I : Impl σ) (isServer : Bool)

/-- `opCode[opStack]`. -/
def WebSocketState.topOpCode (s : WebSocketState) : Byte := s.opCode s.opStack

/-- `opCode[++opStack] = op`. -/
def WebSocketState.push (s : WebSocketState) (op : Byte) : WebSocketState :=
  { s with opStack := s.opStack + 1, opCode := Function.update s.opCode (s.opStack + 1) op }

/-- `if (fin) opStack--`. -/
def WebSocketState.popIf (s : WebSocketState) (fin : Bool) : WebSocketState :=
  if fin then { s with opStack := s.opStack - 1 } else s

def Consumer.forceClose (c : Consumer σ) : Consumer σ := { c with impl := I.forceClose c.impl }

/-! ### The functions -/

/-- `consumeMessage<MESSAGE_HEADER, T>`.  The sum of `payLength`, of type `T`, and `MESSAGE_HEADER`
is one of `bits` bits. -/
def consumeMessage (MESSAGE_HEADER bits payLength : Nat) (c : Consumer σ) : Bool × Consumer σ :=
  let op := getOpCode (c.mem c.src)
  let fin := isFin (c.mem c.src)
  if op ≠ 0 ∧ (c.wState.opStack = 1 ∨ c.wState.lastFin = false ∧ op < 2) then
    (true, c.forceClose I)
  else if op = 0 ∧ c.wState.opStack = -1 then
    (true, c.forceClose I)
  else
    let wState := if op ≠ 0 then c.wState.push op else c.wState
    let wState := { wState with lastFin := fin }
    if I.refusePayloadLength payLength c.impl then
      (true, { c with wState := wState, impl := I.forceClose c.impl })
    else if (payLength + MESSAGE_HEADER) % 2 ^ bits ≤ c.length then
      let mem := if isServer then unmaskImpreciseCopyMask c.mem (c.src + MESSAGE_HEADER - 4)
          (c.src + MESSAGE_HEADER) (c.src + MESSAGE_HEADER - 4) payLength
        else c.mem
      let data := if isServer then c.src + MESSAGE_HEADER - 4 else c.src + MESSAGE_HEADER
      match I.handleFragment (read mem data payLength) 0 wState.topOpCode (isFin (mem c.src))
          c.impl with
      | (true, impl) => (true, { c with mem := mem, wState := wState, impl := impl })
      | (false, impl) => (false,
          { mem := mem
            src := c.src + (payLength + MESSAGE_HEADER)
            length := c.length - (payLength + MESSAGE_HEADER)
            wState := { wState.popIf (isFin (mem c.src)) with spillLength := 0 }
            impl := impl })
    else
      let wState := { wState with
        spillLength := 0
        wantsHead := false
        remainingBytes := (payLength + MESSAGE_HEADER - c.length) % 2 ^ 32 }
      let length := c.length - MESSAGE_HEADER
      let mask := if isServer then maskFrom c.mem (c.src + MESSAGE_HEADER - 4) else wState.mask
      let mem := if isServer then unmaskImprecise c.mem c.src (c.src + MESSAGE_HEADER) mask length
        else c.mem
      let mask := if isServer then rotateMask (4 - length % 4) mask else mask
      let src := if isServer then c.src else c.src + MESSAGE_HEADER
      let wState := { wState with mask := mask }
      -- what it answers is not looked at
      let impl := (I.handleFragment (read mem src length) wState.remainingBytes wState.topOpCode fin
        c.impl).2
      (true, { c with mem := mem, src := src, wState := wState, impl := impl })

def consumeContinuation (c : Consumer σ) : Bool × Consumer σ :=
  let s := c.wState
  if s.remainingBytes ≤ c.length then
    let n := s.remainingBytes >>> 2
    let mem := if isServer then
        unmaskRest s.mask (c.src + n * 4) (s.remainingBytes % 4)
          (unmaskInplace c.mem c.src (c.src + n * 4) s.mask)
      else c.mem
    match I.handleFragment (read mem c.src s.remainingBytes) 0 s.topOpCode s.lastFin c.impl with
    | (true, impl) => (false, { c with mem := mem, impl := impl })
    | (false, impl) => (true,
        { mem := mem
          src := c.src + s.remainingBytes
          length := c.length - s.remainingBytes
          wState := { s.popIf s.lastFin with wantsHead := true }
          impl := impl })
  else
    let mem := if isServer then
        unmaskInplace c.mem c.src (c.src + ((c.length >>> 2) + 1) * 4) s.mask
      else c.mem
    let s := { s with remainingBytes := s.remainingBytes - c.length }
    match I.handleFragment (read mem c.src c.length) s.remainingBytes s.topOpCode s.lastFin
        c.impl with
    | (true, impl) => (false, { c with mem := mem, wState := s, impl := impl })
    | (false, impl) =>
        let mask := if isServer ∧ c.length % 4 ≠ 0 then rotateMask (4 - c.length % 4) s.mask
          else s.mask
        (false, { c with mem := mem, wState := { s with mask := mask }, impl := impl })

/-- The bytes that are left go to `spill`; `spillLength` has four bits. -/
def Consumer.spill (c : Consumer σ) : Consumer σ :=
  if c.length = 0 then c
  else { c with wState := { c.wState with
    spill := read c.mem c.src c.length, spillLength := c.length % 16 } }

/-- The reserved bit 1 is set, and this is refused. -/
def Consumer.refusesCompressed (c : Consumer σ) : Bool × Consumer σ :=
  if rsv1 (c.mem c.src) then
    let (set, impl) := I.setCompressed c.impl
    (!set, { c with impl := impl })
  else (false, c)

/-- Reserved bits, opcodes there are not, and control frames that are split or long. -/
def malformed (b₀ b₁ : Byte) : Bool :=
  rsv23 b₀ || (getOpCode b₀ > 2 && getOpCode b₀ < 8) || getOpCode b₀ > 10 ||
    (getOpCode b₀ > 2 && (!isFin b₀ || payloadLength b₁ > 125))

/-- `if (…) return;`, and otherwise the loop goes on. -/
def Consumer.proceed (go : Consumer σ → Consumer σ) (r : Bool × Consumer σ) : Consumer σ :=
  if r.1 then r.2 else go r.2

@[simp] theorem Consumer.proceed_true (go : Consumer σ → Consumer σ) (c : Consumer σ) :
    Consumer.proceed go (true, c) = c := rfl

@[simp] theorem Consumer.proceed_false (go : Consumer σ → Consumer σ) (c : Consumer σ) :
    Consumer.proceed go (false, c) = go c := rfl

/-- The loop of `consume`, from `parseNext` on, to its end.  A frame has at least two bytes, and
so there are no more rounds than there are bytes. -/
def parseNext : Nat → Consumer σ → Consumer σ
  | 0, c => c
  | fuel + 1, c =>
      if c.length < SHORT_MESSAGE_HEADER isServer then c.spill
      else
        let (refused, c) := c.refusesCompressed I
        if refused || malformed (c.mem c.src) (c.mem (c.src + 1)) then c.forceClose I
        else if payloadLength (c.mem (c.src + 1)) < 126 then
          .proceed (parseNext fuel) (consumeMessage I isServer (SHORT_MESSAGE_HEADER isServer) 32
            (payloadLength (c.mem (c.src + 1))) c)
        else if payloadLength (c.mem (c.src + 1)) = 126 then
          if c.length < MEDIUM_MESSAGE_HEADER isServer then c.spill
          else
            .proceed (parseNext fuel) (consumeMessage I isServer (MEDIUM_MESSAGE_HEADER isServer) 32
              (valueBE (read c.mem (c.src + 2) 2)) c)
        else if c.length < LONG_MESSAGE_HEADER isServer then c.spill
        else
          .proceed (parseNext fuel) (consumeMessage I isServer (LONG_MESSAGE_HEADER isServer) 64
            (valueBE (read c.mem (c.src + 2) 8)) c)

/-- What was spilled is put in front of what has arrived. -/
def Consumer.unspill (c : Consumer σ) : Consumer σ :=
  let n := c.wState.spillLength
  if n ≠ 0 then
    { c with
      mem := store c.mem (c.src - n) (c.wState.spill.take n)
      src := c.src - n
      length := c.length + n }
  else c

def consume (c : Consumer σ) : Consumer σ :=
  let c := c.unspill
  if c.wState.wantsHead then parseNext I isServer (c.length + 1) c
  else
    match consumeContinuation I isServer c with
    | (true, c) => parseNext I isServer (c.length + 1) c
    | (false, c) => c

end

end PBTransfor.Uws
