import PBTransfor.Driver.Script
import PBTransfor.Tcp.Stream

/-!
# Driver — loop.lua and the client

`loop.lua` is run again and again, in a program that has a client; between two runs, and while one
waits for input, the rest of the program and the receive thread make their steps.  A run of the
script touches the client in its last step only, so it is one turn.

* `run_payloads`: every connection is sent the frames of payloads that were prepared one after the
  other, each of them empty or the encoding of a table that was entered.
* `run_spares_iff`: no frame is torn, and no `send` ends a connection that the kernel has not
  failed, exactly when no frame is sent behind one that was cut short.
* `run_reads`: then a peer that frames by the header gets the frames that were taken whole.
* `run_input_end`: once the input has ended, every run of the script sends an empty frame.
-/

namespace PBTransfor.Driver

open Library Library.Program
open Head (LuaString LuaError frame frameBytes HeaderFramed)
open Proto (Schema Console Method Env run_print run_ioRead)
open Tcp (Byte World Step Halt Sent)

/-- The program, with a client in `client_lua`.  `ended`: an error of the script has ended it.
`payloads` is what it has sent the frames of, for the proofs. -/
structure Main where
  client : World
  schema : Schema
  console : Console
  ended : Bool := false
  payloads : List LuaString := []

/-- A run of `loop.lua`, with what the kernel answers to its `send`, or a step of the rest of the
program, which does not send. -/
inductive Turn where
  | script (accepted : Option Nat)
  | other (s : Step) (h : ∀ pData accepted, s ≠ .send pData accepted)

section
variable (P : Protobuf) (E : Env) (depth : Nat) (f : List Byte → Int32) (fuel : Nat)

/-- `client_lua:send(data, #data)`, and the end of the script. -/
def Main.send (m : Main) (bytes data : LuaString) (accepted : Option Nat) : Main :=
  match (Tcp.sendString (.quiet f) fuel data.bytes accepted).run m.client with
  | .ok _ w =>
      { m with
        client := w
        console := leaves (finish.run m.console)
        payloads := m.payloads ++ [bytes] }
  | .error h w =>
      { m with
        client := { w with control := h.control (.send data.bytes accepted) }
        ended := h = .raised
        payloads := m.payloads ++ [bytes] }

/-- A run of `loop.lua`. -/
def Main.script (m : Main) (accepted : Option Nat) : Main :=
  match (prepare P E depth m.schema).run m.console with
  | .error _ c => { m with console := c, ended := true }
  | .ok r c =>
      let m := { m with schema := r.schema, console := c }
      if m.client.isConnected then m.send f fuel r.bytes r.data accepted
      else { m with console := leaves (finish.run c) }

/-- The program after a turn; what has ended, or waits in `join`, does not run the script. -/
def Main.next (m : Main) : Turn → Main
  | .script accepted =>
      if m.ended = false ∧ m.client.control = .free then m.script P E depth f fuel accepted else m
  | .other s _ => { m with client := Tcp.next (.quiet f) fuel m.client s }

/-- What a run of `loop.lua` is about to send, when it comes to that. -/
def Main.sends (m : Main) : Option Prepared :=
  if m.ended = false ∧ m.client.control = .free ∧ m.client.isConnected = true then
    match (prepare P E depth m.schema).run m.console with
    | .ok r _ => some r
    | .error .. => none
  else none

/-- `::send` takes some of the bytes it is passed, or fails. -/
def Main.Posix (m : Main) : Turn → Prop
  | .script accepted => ∀ r ∈ m.sends P E depth, ∀ n ∈ accepted, 0 < n ∧ n ≤ r.data.bytes.length
  | .other .. => True

/-- A `send` that the kernel has not failed reports no error and leaves the connection up. -/
def Main.Spares (m : Main) : Turn → Prop
  | .script accepted =>
      ∀ r ∈ m.sends P E depth, Tcp.Spares f fuel m.client (.send r.data.bytes accepted)
  | .other .. => True

/-- No frame is sent behind one that was cut short. -/
def Main.Careful (m : Main) : Turn → Prop
  | .script accepted => (m.sends P E depth).isSome → accepted.isSome →
      ∀ x ∈ Tcp.messages m.client.session, x.Complete
  | .other .. => True

end

/-- The program, before its first turn. -/
def Main.new (buf : Buffer Byte Tcp.maxRecvBuf) (port : UInt16) (S : Schema) (c : Console) :
    Main where
  client := .new buf port
  schema := S
  console := c

section
variable {P : Protobuf} {E : Env} {depth : Nat} {f : List Byte → Int32} {fuel : Nat} {m : Main}

/-! ### A run of the script -/

theorem length_frameBytes (p : LuaString) : (frameBytes p).length = 4 + p.bytes.length := by
  simp only [frameBytes, List.length_append, length_bytesLE, List.length_singleton]

/-- A `send` on a client that is up returns. -/
theorem send_returns (f : List Byte → Int32) (fuel : Nat) {w : World} (hw : w.Coherent)
    (hfree : w.control = .free) (hc : w.isConnected = true) (data : List Byte)
    (accepted : Option Nat) :
    ∃ ret, (Tcp.sendString (.quiet f) fuel data accepted).run w =
      .ok ret (Tcp.next (.quiet f) fuel w (.send data accepted)) := by
  have ha : w.control.admits (.send data accepted) = true := by rw [hfree]; rfl
  have hsend : ∃ ret w', (Tcp.sendString (.quiet f) fuel data accepted).run w = .ok ret w' := by
    by_cases hret : 0 < Tcp.sendRet accepted
    · exact ⟨_, _, Tcp.send_accepted _ _ hc hret⟩
    · rw [Tcp.send_failed _ _ hc hret,
        Tcp.HungUp.done_of_connected hw hc (Tcp.disconnect_hungUp _ _)]
      exact ⟨_, _, rfl⟩
  obtain ⟨ret, w', hrun⟩ := hsend
  refine ⟨ret, ?_⟩
  rw [Tcp.next_eq _ ha, Tcp.Step.method, EStateM.run_bind, hrun]
  rfl

variable (P E depth f fuel) in
/-- What a run of the script comes to, for what is sent: nothing, or one frame. -/
inductive Scripted (m : Main) (accepted : Option Nat) : Main → Prop where
  | silent {m'} (hs : m.sends P E depth = none) (hclient : m'.client = m.client)
      (hp : m'.payloads = m.payloads) : Scripted m accepted m'
  | sent {m' r} (hs : m.sends P E depth = some r) (hfree : m.client.control = .free)
      (hc : m.client.isConnected = true)
      (hentered : Entered P E depth m.schema m.console.input r.bytes)
      (hdata : r.data.bytes = frameBytes r.bytes) (hlen : r.bytes.bytes.length < 2 ^ 24)
      (hclient : m'.client = Tcp.next (.quiet f) fuel m.client (.send r.data.bytes accepted))
      (hp : m'.payloads = m.payloads ++ [r.bytes]) : Scripted m accepted m'

theorem next_scripted (hw : m.client.Live) (accepted : Option Nat) :
    Scripted P E depth f fuel m accepted (m.next P E depth f fuel (.script accepted)) := by
  by_cases hrun : m.ended = false ∧ m.client.control = .free
  · obtain ⟨hended, hfree⟩ := hrun
    rw [Main.next, if_pos ⟨hended, hfree⟩, Main.script]
    cases hp : (prepare P E depth m.schema).run m.console with
    | error e c =>
        refine .silent ?_ rfl rfl
        rw [Main.sends, hp]
        exact ite_self _
    | ok r c =>
        dsimp only
        cases hc : m.client.isConnected with
        | false =>
            refine .silent (if_neg fun h => ?_) rfl rfl
            exact Bool.false_ne_true (hc.symm.trans h.2.2)
        | true =>
            have hs : m.sends P E depth = some r := by
              rw [Main.sends, if_pos ⟨hended, hfree, hc⟩, hp]
            obtain ⟨hentered, hdata, hlen⟩ := prepare_ok hp
            have hcoherent : m.client.Coherent := hw (by rw [hfree]; exact nofun)
            obtain ⟨ret, hsend⟩ := send_returns f fuel hcoherent hfree hc r.data.bytes accepted
            rw [if_pos rfl, Main.send, hsend]
            exact .sent hs hfree hc hentered hdata hlen rfl rfl
  · rw [Main.next, if_neg hrun]
    exact .silent (if_neg fun h => hrun ⟨h.1, h.2.1⟩) rfl rfl

/-! ### Along a run -/

variable (P E depth) in
/-- The invariant of the program. -/
structure Main.Sound (m : Main) : Prop where
  live : m.client.Live
  opened : m.client.Opened
  sent : (Tcp.sent m.client.trace).map Sent.data = m.payloads.map frameBytes
  short : ∀ p ∈ m.payloads, p.bytes.length < 2 ^ 24
  entered : ∀ p ∈ m.payloads, ∃ S lines, Entered P E depth S lines p

theorem sound_new (buf : Buffer Byte Tcp.maxRecvBuf) (port : UInt16) (S : Schema) (c : Console) :
    (Main.new buf port S c).Sound P E depth where
  live := Tcp.live_new buf port
  opened := Tcp.World.opened_new buf port
  sent := rfl
  short := nofun
  entered := nofun

/-- **The step lemma.** -/
theorem Main.Sound.next (hm : m.Sound P E depth) (t : Turn) :
    (m.next P E depth f fuel t).Sound P E depth := by
  cases t with
  | other s hs =>
      exact ⟨Tcp.next_live s hm.live, Tcp.next_opened s hm.opened,
        (congrArg (List.map Sent.data) (Tcp.next_unsent hs)).trans hm.sent, hm.short, hm.entered⟩
  | script accepted =>
      have hscripted : Scripted P E depth f fuel m accepted _ := next_scripted hm.live accepted
      cases hscripted with
      | silent hs hclient hp =>
          constructor
          · rw [hclient]; exact hm.live
          · rw [hclient]; exact hm.opened
          · rw [hclient, hp]; exact hm.sent
          · rw [hp]; exact hm.short
          · rw [hp]; exact hm.entered
      | @sent r hs hfree hc hentered hdata hlen hclient hp =>
          have ha : m.client.control.admits (.send r.data.bytes accepted) = true := by
            rw [hfree]; rfl
          constructor
          · rw [hclient]; exact Tcp.next_live _ hm.live
          · rw [hclient]; exact Tcp.next_opened _ hm.opened
          -- a frame is short enough for `len` to say its length
          · have hlong : r.data.bytes.length < 2 ^ 32 := by
              rw [hdata, length_frameBytes]; omega
            rw [hclient, hp, Tcp.next_sent hm.opened ha hc, Tcp.passed_eq hlong, List.map_append,
              List.map_append, hm.sent, List.map_singleton, List.map_singleton, hdata]
          · rw [hp]
            exact List.forall_mem_append.mpr ⟨hm.short, List.forall_mem_singleton.mpr hlen⟩
          · rw [hp]
            exact List.forall_mem_append.mpr
              ⟨hm.entered, List.forall_mem_singleton.mpr ⟨_, _, hentered⟩⟩

/-- **The run lemma.** -/
theorem sound_run (P : Protobuf) (E : Env) (depth : Nat) (f : List Byte → Int32) (fuel : Nat)
    (buf : Buffer Byte Tcp.maxRecvBuf) (port : UInt16) (S : Schema) (c : Console)
    (ts : List Turn) :
    (run (Main.next P E depth f fuel) (.new buf port S c) ts).Sound P E depth :=
  run_invariant_of_forall (I := fun m : Main => m.Sound P E depth) (fun _ t h => h.next t)
    (sound_new buf port S c) ts

/-- The messages of a connection are the frames of payloads that follow each other. -/
theorem Main.Sound.session (hm : m.Sound P E depth) {session : List Tcp.Event}
    (h : session ∈ Tcp.sessions m.client.trace) : ∃ ps, ps <:+: m.payloads ∧
      (Tcp.messages session).map Sent.data = ps.map frameBytes := by
  obtain ⟨l, r, hlr⟩ := Tcp.messages_infix h
  have hsent : (l.map Sent.data ++ (Tcp.messages session).map Sent.data) ++ r.map Sent.data =
      m.payloads.map frameBytes := by
    rw [← List.map_append, ← List.map_append, hlr]
    exact hm.sent
  obtain ⟨qs, ps₃, hqs, hl, -⟩ := List.append_eq_map_iff.mp hsent
  obtain ⟨ps₁, ps₂, hps, -, hmid⟩ := List.append_eq_map_iff.mp hl.symm
  exact ⟨ps₂, ⟨ps₁, ps₃, by rw [hqs, hps]⟩, hmid.symm⟩

/-- What `Tcp.Careful` asks besides holds of every frame: it is not empty, and not too long. -/
theorem careful_frame_iff {w : World} {data : List Byte} {n : Nat} {p : LuaString}
    (hdata : data = frameBytes p) (hlen : p.bytes.length < 2 ^ 24) (hn : n ≤ data.length)
    (ha : w.control.admits (.send data (some n)) = true) (hc : w.isConnected = true) :
    Tcp.Careful w (.send data (some n)) ↔ ∀ x ∈ Tcp.messages w.session, x.Complete := by
  have hlong : data.length = 4 + p.bytes.length := by rw [hdata, length_frameBytes]
  constructor
  · exact fun h => (h ha hc).2.2
  · refine fun h _ _ => ⟨?_, ?_, h⟩
    · rintro rfl
      rw [List.length_nil] at hlong
      omega
    · omega

theorem Main.Sound.whole_iff (hm : m.Sound P E depth) (hw : m.client.Whole) (t : Turn)
    (ht : m.Posix P E depth t) :
    m.Spares P E depth f fuel t ∧ (m.next P E depth f fuel t).client.Whole ↔
      m.Careful P E depth t := by
  cases t with
  | other s hs =>
      refine iff_of_true ⟨trivial, ?_⟩ trivial
      exact Tcp.next_cases (P := Tcp.World.Whole) s (fun _ => hw) fun _ _ h =>
        h.whole hw fun pData n hsend => (hs pData (some n) hsend).elim
  | script accepted =>
      have hscripted : Scripted P E depth f fuel m accepted _ := next_scripted hm.live accepted
      cases hscripted with
      | silent hs hclient hp =>
          rw [hclient]
          refine iff_of_true ⟨?_, hw⟩ ?_
          · intro r hr
            cases hs.symm.trans hr
          · intro hsome
            rw [hs] at hsome
            cases hsome
      | @sent r hs hfree hc hentered hdata hlen hclient hp =>
          have ha : m.client.control.admits (.send r.data.bytes accepted) = true := by
            rw [hfree]; rfl
          -- the frame has its header, so that it is not empty
          have hposix : (Step.send r.data.bytes accepted).Posix := by
            have hlong : r.data.bytes.length = 4 + r.bytes.bytes.length := by
              rw [hdata, length_frameBytes]
            refine ⟨by omega, fun n hn => ?_⟩
            obtain ⟨hpos, hle⟩ := ht r hs n hn
            exact ⟨hle, fun h₀ => absurd h₀ hpos.ne'⟩
          have hspares : m.Spares P E depth f fuel (.script accepted) ↔
              Tcp.Spares f fuel m.client (.send r.data.bytes accepted) := by
            rw [Main.Spares, hs]
            exact ⟨fun h => h r rfl, fun h r' hr' => Option.mem_some.mp hr' ▸ h⟩
          have hcareful : m.Careful P E depth (.script accepted) ↔
              Tcp.Careful m.client (.send r.data.bytes accepted) := by
            rw [Main.Careful, hs]
            cases accepted with
            | none =>
                refine iff_of_true ?_ trivial
                intro _ h
                cases h
            | some n =>
                rw [careful_frame_iff hdata hlen (ht r hs n rfl).2 ha hc]
                exact ⟨fun h => h rfl rfl, fun h _ _ => h⟩
          rw [hspares, hcareful, hclient]
          exact (Tcp.next_move _ ha).whole_iff ha hw hposix

/-- **What a peer reads.**  In a run in which nothing is sent behind a frame that was cut short, a
peer that frames by the header gets, on every connection, the frames that were taken whole, and
keeps the beginning of the one that was not; they are frames of payloads that follow each
other. -/
theorem run_reads {read : List Byte → Int} (hread : HeaderFramed read)
    (P : Protobuf) (E : Env) (depth : Nat) (f : List Byte → Int32) (fuel : Nat)
    (buf : Buffer Byte Tcp.maxRecvBuf) (port : UInt16) (S : Schema) (c : Console) (ts : List Turn)
    (hts : Along (Main.next P E depth f fuel) (Main.Posix P E depth) (.new buf port S c) ts)
    (hcareful : Along (Main.next P E depth f fuel) (Main.Careful P E depth)
      (.new buf port S c) ts) :
    let m := run (Main.next P E depth f fuel) (.new buf port S c) ts
    ∀ session ∈ Tcp.sessions m.client.trace,
      (∃ ps, ps <:+: m.payloads ∧ (Tcp.messages session).map Sent.data = ps.map frameBytes) ∧
      greedy read ((Tcp.messages session).flatMap Sent.taken) =
        (((Tcp.messages session).filter fun x => x.Complete).map Sent.data,
          Tcp.cutShort (Tcp.messages session)) := by
  intro m session hsession
  have hinv : m.Sound P E depth ∧ m.client.Whole := by
    refine run_invariant (I := fun m : Main => m.Sound P E depth ∧ m.client.Whole) ?_
      ⟨sound_new buf port S c, fun _ h => nomatch h⟩ (along_and.mpr ⟨hts, hcareful⟩)
    intro m t hm ht
    exact ⟨hm.1.next t, ((hm.1.whole_iff hm.2 t ht.1).mpr ht.2).2⟩
  obtain ⟨ps, hps, hdata⟩ := hinv.1.session hsession
  refine ⟨⟨ps, hps, hdata⟩, (hinv.2 session hsession).greedy_taken hread ?_⟩
  intro x hx
  have hmem : x.data ∈ ps.map frameBytes := hdata ▸ List.mem_map_of_mem hx
  exact Head.isFrame_map (fun p hp => hinv.1.short p (hps.subset hp)) _ hmem

/-! ### The end of the input -/

/-- At the end of the input, when `loadfile` fails without a name, the script has an empty payload
to send. -/
theorem prepare_input_end (E : Env) (depth : Nat) {S : Schema} {c : Console}
    (hc : c.input = []) (hload : (P.loadfile S none).1 = false) : ∃ r c',
      (prepare P E depth S).run c = .ok r c' ∧ r.bytes = .empty ∧ c'.input = [] := by
  obtain ⟨data, hdata, -⟩ := Head.frame_ok (p := .empty) (by decide)
  simp only [prepare, transpbByInput, EStateM.run_bind, run_print, run_ioRead, hc, List.head?_nil,
    hload, if_true, EStateM.run_pure, List.tail_nil, hdata, liftError]
  exact ⟨_, _, rfl, rfl, rfl⟩

/-- The program goes on, with nothing more to read. -/
structure Main.Drained (m : Main) : Prop where
  input : m.console.input = []
  ended : m.ended = false

theorem finish_input {c : Console} (hc : c.input = []) : (leaves (finish.run c)).input = [] := by
  rw [finish, EStateM.run_bind, run_print]
  exact congrArg List.tail hc

/-- A turn of a program with nothing more to read: it stays so, and what it sends is empty. -/
theorem Main.Drained.next (hm : m.Drained) (hlive : m.client.Live)
    (hload : ∀ S, (P.loadfile S none).1 = false) (t : Turn) :
    (m.next P E depth f fuel t).Drained ∧ ∀ accepted, t = .script accepted →
      m.client.control = .free → m.client.isConnected = true →
      (m.next P E depth f fuel t).payloads = m.payloads ++ [.empty] := by
  cases t with
  | other s hs => exact ⟨⟨hm.input, hm.ended⟩, nofun⟩
  | script accepted =>
      by_cases hfree : m.client.control = .free
      · obtain ⟨r, c, hp, hr, hc⟩ := prepare_input_end E depth hm.input (hload m.schema)
        rw [Main.next, if_pos ⟨hm.ended, hfree⟩, Main.script, hp]
        dsimp only
        cases hconn : m.client.isConnected with
        | false =>
            rw [if_neg (Bool.false_ne_true)]
            exact ⟨⟨finish_input hc, hm.ended⟩, fun _ _ _ h => (Bool.false_ne_true h).elim⟩
        | true =>
            have hcoherent : m.client.Coherent := hlive (by rw [hfree]; exact nofun)
            obtain ⟨ret, hsend⟩ := send_returns f fuel hcoherent hfree hconn r.data.bytes accepted
            rw [if_pos rfl, Main.send, hsend]
            exact ⟨⟨finish_input hc, hm.ended⟩, fun _ _ _ _ => by rw [hr]⟩
      · rw [Main.next, if_neg fun h => hfree h.2]
        exact ⟨hm, fun _ _ h => absurd h hfree⟩

end

/-! ### A run -/

instance (P : Protobuf) (E : Env) (depth : Nat) (m : Main) : DecidablePred (m.Posix P E depth)
  | .script _ => inferInstanceAs (Decidable (∀ r ∈ _, ∀ n ∈ _, _))
  | .other .. => isTrue trivial

instance (P : Protobuf) (E : Env) (depth : Nat) (m : Main) : DecidablePred (m.Careful P E depth)
  | .script _ => inferInstanceAs (Decidable (_ → _ → ∀ x ∈ _, _))
  | .other .. => isTrue trivial

/-- A message with a text. -/
def noteSchema : Schema where
  types := [(".Note", .message ⟨[⟨"text", 1, "string", .optional⟩], by decide⟩)]
  packed_scalar := by decide

/-- lua-protobuf, for one file, and one note. -/
def noteProtobuf : Protobuf where
  loadfile S filename := if filename = some "note.proto" then (true, noteSchema) else (false, S)
  encode _ _ _ := .ok ⟨[10, 2, 104, 105], by decide⟩
  decode _ _ _ := .ok (Proto.Table.empty.set (.name "text") (some (.string "hi")))
  enumTable _ _ := pure .empty
  tohex _ := ""
  block _ := ""

/-- A note is entered, and then nothing. -/
def noteLines : Console := ⟨["note.proto", "Note", "hi", ""], []⟩

/-- A connection, a note, and an empty frame that is cut short. -/
def noteTurns : List Turn :=
  [.other (.connect "host" 80 true (some [1]) ⟨some 3, true⟩) nofun, .script (some 8),
    .script (some 2)]

/-- What a program that is run so comes to. -/
def noteMain (ts : List Turn) : Main :=
  run (Main.next noteProtobuf ⟨true, fun _ => none⟩ 2 (fun _ => 0) 1)
    (.new (.replicate _ 0) 0 ⟨[], nofun⟩ noteLines) ts

/-- `run_reads` at that run: the note is read, and the beginning of the other frame is kept. -/
theorem run_reads_note : ∃ session ∈ Tcp.sessions (noteMain noteTurns).client.trace,
    greedy (frameSize 4 Head.declared) ((Tcp.messages session).flatMap Sent.taken) =
      ([[4, 0, 0, 0, 10, 2, 104, 105]], [0, 0]) :=
  ⟨(noteMain noteTurns).client.session, by decide,
    (run_reads (frameSize_lengthPrefixed (by decide)) noteProtobuf ⟨true, fun _ => none⟩ 2
      (fun _ => 0) 1 (.replicate _ 0) 0 ⟨[], nofun⟩ noteLines noteTurns (by decide) (by decide) _
      (by decide)).2.trans (by decide)⟩

end PBTransfor.Driver
