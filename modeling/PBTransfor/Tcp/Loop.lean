import PBTransfor.Head.Frames
import PBTransfor.Tcp.Sessions

/-!
# Tcp — do_recv for any framing function

`read_packet` may answer anything.  When it claims a packet longer than what is buffered the loop
neither delivers nor waits: it asks again, is answered the same, and goes round for ever
(`doRecv_ends_iff`).  Where it returns, every byte is delivered or kept, and every access is
inside the valid part of `recv_buf` (`doRecv_intact`).

`doRecvChecked` is `do_recv` with its accesses guarded: it halts before a sum that would wrap,
before a slice that is not valid, and before a terminator that would be written outside
`recv_buf`.
-/

namespace PBTransfor.Tcp

open Library Library.Program

/-! ### The loop with its accesses guarded -/

/-- Halts unless `p` holds. -/
def require (p : Prop) [Decidable p] : Method Unit := if p then pure () else throw .undefined

section
variable (v : Virtuals)

/-- `deliver`, guarded: the sum does not wrap, and the slice passed to `on_recv` is valid. -/
def deliverChecked (readPos : Nat) (pkgLen : Int) : Method Nat := do
  require (readPos + pkgLen < 2 ^ 32)
  if uint32 (readPos + pkgLen) ≤ (← get).recvBufPos then
    require (readPos + pkgLen ≤ (← get).recvBufPos)
  deliver v readPos pkgLen

/-- `compact`, guarded: the terminator goes inside `recv_buf`, and no retained byte changes. -/
def compactChecked (readPos : Nat) : Method Unit := do
  let retained ← loadAt readPos ((← get).recvBufPos - readPos)
  require (retained.length < maxRecvBuf) -- where the terminator goes
  compact readPos
  require ((← get).pending = retained)

/-- `packetLoop`, with `deliver` and `compact` as arguments. -/
def packetLoopWith (deliver : Nat → Int → Method Nat) (compact : Nat → Method Unit) :
    Nat → Nat → Int → Method Unit
  | 0, _, _ => throw .diverged
  | fuel + 1, readPos, pkgLen => do
      if 0 < pkgLen then
        let readPos ← deliver readPos pkgLen
        if readPos < (← get).recvBufPos then
          let pkgLen ← readPacketAt v readPos
          if pkgLen ≤ 0 then
            compact readPos
          else
            packetLoopWith deliver compact fuel readPos pkgLen
        else
          modify fun w => { w with recvBufPos := 0 }
      else
        return ()

/-- `do_recv` with its accesses guarded. -/
def doRecvChecked (fuel : Nat) : RecvAnswer → Method Int :=
  doRecvWith v (packetLoopWith v (deliverChecked v) compactChecked fuel)

theorem packetLoop_eq_with : ∀ fuel readPos pkgLen,
    packetLoop v fuel readPos pkgLen = packetLoopWith v (deliver v) compact fuel readPos pkgLen
  | 0, _, _ => rfl
  | fuel + 1, readPos, pkgLen => by
      simp only [packetLoop, packetLoopWith, packetLoop_eq_with fuel]

end

section
variable {f : List Byte → Int32} {fuel : Nat} {w w' : World}

/-! ### The loop that does not end -/

theorem frameLen_lt (f : List Byte → Int32) (b : List Byte) : frameLen f b < 2 ^ 31 :=
  (f b).toInt_lt

theorem uint32_add (readPos : Nat) {pkgLen : Int} (h₀ : 0 < pkgLen) (h : pkgLen < 2 ^ 31)
    (hr : readPos ≤ maxRecvBuf) : (uint32 (readPos + pkgLen) : Int) = readPos + pkgLen := by
  simp only [maxRecvBuf] at hr
  unfold uint32
  omega

/-- A packet that has not arrived whole is not delivered. -/
theorem deliver_short (readPos : Nat) {pkgLen : Int} (h₀ : 0 < pkgLen) (h : pkgLen < 2 ^ 31)
    (hr : readPos ≤ maxRecvBuf) (hs : w.recvBufPos < readPos + pkgLen) :
    (deliver (.quiet f) readPos pkgLen).run w = .ok readPos w := by
  have hu := uint32_add readPos h₀ h hr
  have hno : ¬ uint32 (readPos + pkgLen) ≤ w.recvBufPos := by omega
  simp only [deliver, EStateM.run_bind, EStateM.run_get, if_neg hno, EStateM.run_pure]

/-- An iteration that finds a packet incomplete asks again about the same bytes. -/
theorem packetLoop_short {readPos : Nat} {rest : List Byte}
    (hrest : rest = w.recvBuf.slice readPos (w.recvBufPos - readPos))
    (hlt : readPos < w.recvBufPos) (hp : w.recvBufPos ≤ maxRecvBuf)
    (hs : rest.length < frameLen f rest) :
    (packetLoop (.quiet f) (fuel + 1) readPos (frameLen f rest)).run w =
      (packetLoop (.quiet f) fuel readPos (frameLen f rest)).run w := by
  have hlen := length_rest hrest hlt hp
  have hpos : 0 < frameLen f rest := by omega
  have hd := deliver_short (f := f) readPos hpos (frameLen_lt f rest)
    (by omega) (show (w.recvBufPos : Int) < _ by omega)
  have hback := @afterPacket_goes_on f fuel w readPos hlt hp (by rwa [← hrest])
  rw [← hrest] at hback
  simp only [packetLoop, if_pos hpos, EStateM.run_bind, hd]
  exact hback

/-- A loop that comes to a packet longer than what is left does not end. -/
theorem packetLoop_overlong {rest : List Byte} (h : Overlong (frameLen f) rest) :
    ∀ {fuel readPos : Nat} {w : World}, rest = w.recvBuf.slice readPos (w.recvBufPos - readPos) →
    readPos < w.recvBufPos → w.recvBufPos ≤ maxRecvBuf →
    ∃ w', (packetLoop (.quiet f) fuel readPos (frameLen f rest)).run w = .error .diverged w' := by
  induction h with
  | here hs =>
      intro fuel
      -- the round leaves everything as it was, so that the next one is the same
      induction fuel with
      | zero => intro _ w _ _ _; exact ⟨w, rfl⟩
      | succ fuel ih =>
          intro readPos w hrest hlt hp
          rw [packetLoop_short hrest hlt hp hs]
          exact ih hrest hlt hp
  | @behind rest h₀ hshort t ih =>
      intro fuel readPos w hrest hlt hp
      have hlen := length_rest hrest hlt hp
      cases fuel with
      | zero => exact ⟨w, rfl⟩
      | succ fuel =>
          obtain ⟨n, hn⟩ : ∃ n, n = (frameLen f rest).toNat := ⟨_, rfl⟩
          rw [packetLoop_whole readPos h₀ (by omega) hp, ← hn]
          rw [← hn] at t ih
          have hdrop := slice_rest hrest n
          obtain ⟨w₁, hw₁⟩ : ∃ w₁, w₁ = w.record [.onRecv (w.recvBuf.slice readPos n)] := ⟨_, rfl⟩
          have hp₁ : w₁.recvBufPos = w.recvBufPos := by rw [hw₁]; rfl
          have hdrop₁ : w₁.recvBuf.slice (readPos + n) (w₁.recvBufPos - (readPos + n)) =
              rest.drop n := by rw [hp₁, ← hdrop, hw₁]; rfl
          have hpos : 0 < frameLen f (rest.drop n) := by
            cases t with
            | here h => omega
            | behind h => exact h
          rw [← hw₁, afterPacket_goes_on (by omega) (by omega) (by rwa [hdrop₁]), hdrop₁]
          exact ih hdrop₁.symm (by omega) (by omega)

/-- What the loop is given to parse, when it is entered at all: what was pending, and behind it
what came in. -/
def World.received (w : World) (k : RecvAnswer) : Option (List Byte) :=
  (k.bytes w.space).bind fun c => if c = [] then none else some (w.pending ++ c)

/-- `do_recv` ends: with enough rounds of its loop it returns. -/
def Ends (v : Virtuals) (k : RecvAnswer) (w : World) : Prop :=
  ∃ fuel ret w', (doRecv v fuel k).run w = .ok ret w'

theorem doRecv_overlong (hp : w.recvBufPos ≤ maxRecvBuf) {k : RecvAnswer} {c : List Byte}
    (hb : k.bytes w.space = some c) (hc : c ≠ []) (h : Overlong (frameLen f) (w.pending ++ c)) :
    ∃ w', (doRecv (.quiet f) fuel k).run w = .error .diverged w' := by
  have hroom := room_of_bytes hp hb
  have hpos := filled_pos (w := w) hc
  obtain ⟨w', hrun⟩ := @packetLoop_overlong f _ h fuel 0 _ (filled_slice hroom).symm hpos hroom
  exact ⟨w', by rw [doRecv_eq_with, doRecvWith_filled _ hp hb hc, EStateM.run_bind, hrun]⟩

/-- **When do_recv ends**: unless the packets it splits off come to one that `read_packet` claims
to be longer than what is left. -/
theorem doRecv_ends_iff (f : List Byte → Int32) (k : RecvAnswer) (hp : w.recvBufPos ≤ maxRecvBuf) :
    Ends (.quiet f) k w ↔ ∀ b ∈ w.received k, ¬ Overlong (frameLen f) b := by
  by_cases hlost : k.bytes w.space = none ∨ k.bytes w.space = some []
  · refine iff_of_true ⟨0, _, _, doRecv_lost hp hlost⟩ fun b hb => ?_
    rcases hlost with h | h <;> simp [World.received, h] at hb
  · obtain ⟨c, hb⟩ : ∃ c, k.bytes w.space = some c :=
      Option.ne_none_iff_exists'.mp fun h => hlost (.inl h)
    have hc : c ≠ [] := fun h => hlost (.inr (h ▸ hb))
    have hrec : w.received k = some (w.pending ++ c) := by simp [World.received, hb, hc]
    rw [hrec]
    constructor
    · rintro ⟨fuel, ret, w', hrun⟩ b hmem hover
      cases Option.mem_some.mp hmem
      obtain ⟨w₁, hrun₁⟩ := @doRecv_overlong f fuel w hp k c hb hc hover
      cases hrun.symm.trans hrun₁
    · intro h
      obtain ⟨ps, r, hps⟩ := not_overlong_iff.mp (h _ rfl)
      obtain ⟨b, p, hrun, -⟩ := doRecv_parses (Nat.le_refl _) hp hb hc hps
      exact ⟨_, _, _, hrun⟩

/-- A `read_packet` that answers with the length a header declares, as soon as it is there. -/
def declaredLen (b : List Byte) : Int32 :=
  if 4 ≤ b.length then Int32.ofNat (4 + Head.declared b) else 0

/-- A client that has just connected. -/
def justConnected : World :=
  run (next (.quiet fun _ => 0) maxRecvBuf) (World.new (.replicate _ 0) 0)
    [.connect "host" 80 true (some [1]) ⟨some 3, true⟩]

/-- A header arrives, and none of the ten bytes it declares. -/
theorem header_alone_spins : ¬ Ends (.quiet declaredLen) (.data [10, 0, 0, 0]) justConnected := by
  rintro ⟨fuel, ret, w', hrun⟩
  have hover : Overlong (frameLen declaredLen) (justConnected.pending ++ [10, 0, 0, 0]) :=
    .here (by decide)
  obtain ⟨w₁, hrun₁⟩ := @doRecv_overlong declaredLen fuel justConnected (by decide)
    (.data [10, 0, 0, 0]) [10, 0, 0, 0] (by decide) (by simp) hover
  cases hrun.symm.trans hrun₁

/-- `doRecv_ends_iff` at a record of two bytes and the beginning of another. -/
theorem doRecv_ends_iff_records : Ends (.quiet recordLen) (.data [1, 2, 3]) justConnected :=
  (doRecv_ends_iff recordLen _ (by decide)).mpr
    fun b _ => (recordLen_contract.parses b).not_overlong

/-! ### The loop that ends -/

/-- More rounds change nothing once the loop has returned. -/
theorem packetLoop_succ (v : Virtuals) : ∀ {fuel readPos : Nat} {pkgLen : Int} {w w' : World},
    (packetLoop v fuel readPos pkgLen).run w = .ok () w' →
      (packetLoop v (fuel + 1) readPos pkgLen).run w = .ok () w'
  | 0, _, _, _, _, h => by cases h
  | fuel + 1, readPos, pkgLen, w, w', h => by
      rw [packetLoop] at h ⊢
      by_cases hpos : 0 < pkgLen
      · simp only [if_pos hpos, EStateM.run_bind] at h ⊢
        cases hd : (deliver v readPos pkgLen).run w with
        | error e w₁ => rw [hd] at h; cases h
        | ok readPos' w₁ =>
            simp only [hd, EStateM.run_get] at h ⊢
            by_cases hmore : readPos' < w₁.recvBufPos
            · simp only [if_pos hmore, EStateM.run_bind] at h ⊢
              cases hr : (readPacketAt v readPos').run w₁ with
              | error e w₂ => rw [hr] at h; cases h
              | ok pkgLen' w₂ =>
                  simp only [hr] at h ⊢
                  split at h
                  · next hle => rwa [if_pos hle]
                  · next hle => rw [if_neg hle]; exact packetLoop_succ v h
            · simpa only [if_neg hmore] using h
      · simpa only [if_neg hpos] using h

theorem packetLoop_mono (v : Virtuals) {fuel fuel' readPos : Nat} {pkgLen : Int}
    (hle : fuel ≤ fuel') (h : (packetLoop v fuel readPos pkgLen).run w = .ok () w') :
    (packetLoop v fuel' readPos pkgLen).run w = .ok () w' := by
  induction hle with
  | refl => exact h
  | step _ ih => exact packetLoop_succ v ih

/-- More rounds change nothing once `do_recv` has returned. -/
theorem doRecv_mono {fuel' : Nat} {k : RecvAnswer} {c : List Byte} {ret : Int} (hle : fuel ≤ fuel')
    (hp : w.recvBufPos ≤ maxRecvBuf) (hb : k.bytes w.space = some c) (hc : c ≠ [])
    (h : (doRecv (.quiet f) fuel k).run w = .ok ret w') :
    (doRecv (.quiet f) fuel' k).run w = .ok ret w' := by
  rw [doRecv_eq_with, doRecvWith_filled _ hp hb hc, EStateM.run_bind] at h ⊢
  cases hl : (packetLoop (.quiet f) fuel 0 (frameLen f (w.pending ++ c))).run (w.filled c) with
  | error e w₁ => rw [hl] at h; cases h
  | ok u w₁ =>
      rw [hl] at h
      rw [packetLoop_mono _ hle hl]
      exact h

/-! ### The guards -/

theorem require_run {p : Prop} [Decidable p] (h : p) : (require p).run w = .ok () w := by
  rw [require, if_pos h, EStateM.run_pure]

theorem deliverChecked_run (readPos : Nat) {pkgLen : Int} (h₀ : 0 < pkgLen) (h : pkgLen < 2 ^ 31)
    (hr : readPos ≤ maxRecvBuf) : (deliverChecked (.quiet f) readPos pkgLen).run w =
      (deliver (.quiet f) readPos pkgLen).run w := by
  have hu := uint32_add readPos h₀ h hr
  have hsum : readPos + pkgLen < 2 ^ 32 := by
    simp only [maxRecvBuf] at hr
    omega
  simp only [deliverChecked, EStateM.run_bind, require_run hsum, EStateM.run_get]
  split
  · next hle =>
      have hvalid : readPos + pkgLen ≤ w.recvBufPos := by omega
      simp only [EStateM.run_bind, EStateM.run_get, require_run hvalid]
  · rfl

theorem compactChecked_run {readPos : Nat} (h₀ : 0 < readPos) (h : readPos < w.recvBufPos)
    (hp : w.recvBufPos ≤ maxRecvBuf) :
    (compactChecked readPos).run w = (compact readPos).run w := by
  obtain ⟨b, hrun, hslice⟩ := compact_run readPos h₀ h hp
  have hload := loadAt_run (w := w) readPos (l := w.recvBufPos - readPos) (by omega)
  have hlen : (w.recvBuf.slice readPos (w.recvBufPos - readPos)).length < maxRecvBuf := by
    rw [Buffer.length_slice _ (by omega)]
    omega
  have hkept : (w.refill b (w.recvBufPos - readPos)).pending =
      w.recvBuf.slice readPos (w.recvBufPos - readPos) := hslice
  simp only [compactChecked, EStateM.run_bind, EStateM.run_get, hload, require_run hlen, hrun,
    require_run hkept]

/-- **No guard of the loop fails.**  The terminator is written only behind a packet that was
delivered: before that the loop has no reason to wait. -/
theorem packetLoop_checked : ∀ {fuel readPos : Nat} {w : World} {rest : List Byte},
    rest = w.recvBuf.slice readPos (w.recvBufPos - readPos) → readPos < w.recvBufPos →
    w.recvBufPos ≤ maxRecvBuf → 0 < frameLen f rest →
    (packetLoopWith (.quiet f) (deliverChecked (.quiet f)) compactChecked fuel readPos
      (frameLen f rest)).run w =
    (packetLoopWith (.quiet f) (deliver (.quiet f)) compact fuel readPos (frameLen f rest)).run w
  | 0, _, _, _, _, _, _, _ => rfl
  | fuel + 1, readPos, w, rest, hrest, hlt, hp, hpos => by
      have hlen := length_rest hrest hlt hp
      have hdc := deliverChecked_run (f := f) (w := w) readPos hpos (frameLen_lt f rest) (by omega)
      simp only [packetLoopWith, if_pos hpos, EStateM.run_bind, hdc]
      rcases Int.lt_or_le rest.length (frameLen f rest) with hshort | hwhole
      · -- nothing is delivered, and the same question is asked again
        have hread := readPacketAt_run (f := f) (Nat.le_of_lt hlt) hp
        rw [← hrest] at hread
        simp only [deliver_short (f := f) readPos hpos (frameLen_lt f rest) (by omega)
          (show (w.recvBufPos : Int) < _ by omega), EStateM.run_get, if_pos hlt, EStateM.run_bind,
          hread, if_neg (Int.not_le.mpr hpos)]
        exact packetLoop_checked hrest hlt hp hpos
      · have hd := deliver_run (f := f) (w := w) readPos hpos (by omega) hp
        obtain ⟨w₁, hw₁⟩ : ∃ w₁, w₁ = w.record [.onRecv (w.recvBuf.slice readPos
          (frameLen f rest).toNat)] := ⟨_, rfl⟩
        have hp₁ : w₁.recvBufPos = w.recvBufPos := by rw [hw₁]; rfl
        rw [← hw₁] at hd
        simp only [hd, EStateM.run_get]
        by_cases hmore : readPos + (frameLen f rest).toNat < w₁.recvBufPos
        · have hread := readPacketAt_run (f := f) (Nat.le_of_lt hmore) (by omega)
          simp only [if_pos hmore, EStateM.run_bind, hread]
          by_cases hnext : 0 < frameLen f (w₁.recvBuf.slice (readPos + (frameLen f rest).toNat)
              (w₁.recvBufPos - (readPos + (frameLen f rest).toNat)))
          · rw [if_neg (Int.not_le.mpr hnext), if_neg (Int.not_le.mpr hnext)]
            exact packetLoop_checked rfl hmore (by omega) hnext
          · rw [if_pos (Int.not_lt.mp hnext), if_pos (Int.not_lt.mp hnext)]
            exact compactChecked_run (by omega) hmore (by omega)
        · rw [if_neg hmore, if_neg hmore]

theorem doRecv_checked (hp : w.recvBufPos ≤ maxRecvBuf) {k : RecvAnswer} {c : List Byte}
    (hb : k.bytes w.space = some c) (hc : c ≠ []) :
    (doRecvChecked (.quiet f) fuel k).run w = (doRecv (.quiet f) fuel k).run w := by
  have hroom := room_of_bytes hp hb
  rw [doRecvChecked, doRecv_eq_with, doRecvWith_filled _ hp hb hc, doRecvWith_filled _ hp hb hc,
    EStateM.run_bind, EStateM.run_bind, packetLoop_eq_with]
  by_cases hpos : 0 < frameLen f (w.pending ++ c)
  · rw [packetLoop_checked (filled_slice hroom).symm (filled_pos hc) hroom hpos]
  · cases fuel with
    | zero => rfl
    | succ fuel => simp only [packetLoopWith, if_neg hpos]

/-- Where `do_recv` returns, every byte was delivered or is pending, and the position is inside
`recv_buf`. -/
theorem doRecv_kept (hp : w.recvBufPos ≤ maxRecvBuf) {k : RecvAnswer} {c : List Byte} {ret : Int}
    (hb : k.bytes w.space = some c) (hc : c ≠ [])
    (hrun : (doRecv (.quiet f) fuel k).run w = .ok ret w') :
    (∃ slices : List (List Byte), w'.trace =
        w.trace ++ .recv w.fd w.space (some c) :: slices.map .onRecv ∧
      slices.flatten ++ w'.pending = w.pending ++ c) ∧ w'.recvBufPos ≤ maxRecvBuf := by
  obtain ⟨ps, r, hps⟩ : ∃ ps r, Parses (frameLen f) (w.pending ++ c) ps r := by
    refine not_overlong_iff.mp fun hover => ?_
    obtain ⟨w₁, hrun₁⟩ := @doRecv_overlong f fuel w hp k c hb hc hover
    cases hrun.symm.trans hrun₁
  obtain ⟨b, p, hok, hslice, hple⟩ :=
    @doRecv_parses f (max fuel maxRecvBuf) w (Nat.le_max_right ..) hp k c r ps hb hc hps
  cases hok.symm.trans (doRecv_mono (Nat.le_max_left ..) hp hb hc hrun)
  refine ⟨⟨ps, rfl, ?_⟩, hple⟩
  rw [← hps.flatten, ← hslice]
  rfl

/-- **do_recv keeps every byte**, whatever `read_packet` answers.  Where it returns, the slices
passed to `on_recv` and what is left pending are what was pending and what came in; the position
stays inside `recv_buf`; and no guard of `doRecvChecked` fails on the way. -/
theorem doRecv_intact (hp : w.recvBufPos ≤ maxRecvBuf) {k : RecvAnswer} {c : List Byte} {ret : Int}
    (hb : k.bytes w.space = some c) (hc : c ≠ [])
    (hrun : (doRecv (.quiet f) fuel k).run w = .ok ret w') :
    (∃ slices : List (List Byte), w'.trace =
        w.trace ++ .recv w.fd w.space (some c) :: slices.map .onRecv ∧
      slices.flatten ++ w'.pending = w.pending ++ c) ∧
    w'.recvBufPos ≤ maxRecvBuf ∧ (doRecvChecked (.quiet f) fuel k).run w = .ok ret w' := by
  obtain ⟨hslices, hle⟩ := doRecv_kept hp hb hc hrun
  exact ⟨hslices, hle, by rw [doRecv_checked hp hb hc, hrun]⟩

end

/-- A `read_packet` that takes a byte for a packet, and then waits for good. -/
def fickleLen (b : List Byte) : Int32 := if b.length = 3 then 1 else -7

/-- `doRecv_intact` at three bytes. -/
theorem doRecv_intact_fickle :
    ∃ w', (doRecv (.quiet fickleLen) 3 (.data [1, 2, 3])).run justConnected = .ok 0 w' ∧
      w'.recvBufPos = 2 ∧
      ∃ slices : List (List Byte), slices.flatten ++ w'.pending = [1, 2, 3] := by
  obtain ⟨w', hrun, hpos⟩ : ∃ w', (doRecv (.quiet fickleLen) 3 (.data [1, 2, 3])).run
      justConnected = .ok 0 w' ∧ w'.recvBufPos = 2 := ⟨_, rfl, rfl⟩
  obtain ⟨⟨slices, -, hbytes⟩, -⟩ :=
    doRecv_intact (c := [1, 2, 3]) (by decide) (by decide) (by simp) hrun
  exact ⟨w', hrun, hpos, slices, hbytes⟩

/-! ### Every state -/

section
variable {f : List Byte → Int32} {fuel : Nat} {w : World}

theorem next_bounded (hw : w.control ≠ .ended → w.recvBufPos ≤ maxRecvBuf) (s : Step) :
    (next (.quiet f) fuel w s).control ≠ .ended →
      (next (.quiet f) fuel w s).recvBufPos ≤ maxRecvBuf := by
  refine next_cases (P := fun w' => w'.control ≠ .ended → w'.recvBufPos ≤ maxRecvBuf) s
    (fun _ => hw) fun w' ha h hctl => ?_
  have hp : w.recvBufPos ≤ maxRecvBuf := hw fun hend => by simp [hend, Control.admits] at ha
  cases h.receiving ha with
  | untouched es hu => rw [hu.recvBufPos]; exact hp
  | connected es es' hu => rw [hu.recvBufPos]; exact hp
  | @received k exceptional ret w₁ _ _ hrun =>
      have hle : w₁.recvBufPos ≤ maxRecvBuf := by
        by_cases hlost : k.recv.bytes w.space = none ∨ k.recv.bytes w.space = some []
        · cases (doRecv_lost hp hlost).symm.trans hrun
          exact hp
        · obtain ⟨c, hb⟩ : ∃ c, k.recv.bytes w.space = some c :=
            Option.ne_none_iff_exists'.mp fun h => hlost (.inl h)
          exact (doRecv_kept hp hb (fun h => hlost (.inr (h ▸ hb))) hrun).2
      cases exceptional <;> exact hle
  | halted => exact absurd rfl hctl

/-- **recv_buf_pos stays inside recv_buf**: in every state from which somebody goes on. -/
theorem run_bounded (f : List Byte → Int32) (fuel : Nat) (buf : Buffer Byte maxRecvBuf)
    (port : UInt16) (l : List Step)
    (hctl : (run (next (.quiet f) fuel) (World.new buf port) l).control ≠ .ended) :
    (run (next (.quiet f) fuel) (World.new buf port) l).recvBufPos ≤ maxRecvBuf := by
  refine run_invariant_of_forall (I := fun w : World => w.control ≠ .ended →
    w.recvBufPos ≤ maxRecvBuf) (fun w s hw => next_bounded hw s) (fun _ => Nat.zero_le _) l hctl

/-- A packet of two bytes. -/
theorem run_bounded_two : (run (next (.quiet fun _ => 2) 2) (World.new (.replicate _ 0) 0)
    [.connect "host" 80 true (some [1]) ⟨some 3, true⟩,
      .iterate ⟨.ready true false, .data [1, 2], ⟨none, false⟩⟩]).recvBufPos ≤ maxRecvBuf :=
  run_bounded _ _ _ _ _ (by decide)

end

end PBTransfor.Tcp
