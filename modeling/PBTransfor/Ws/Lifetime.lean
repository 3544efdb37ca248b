import PBTransfor.Ws.Client

/-!
# Ws — the WebSocket the client sends through

`run` tells the client of a connection that is up, and of nothing that ends one: `is_connected`
stays set and `ws` stays where it pointed.

`throughout_sound_iff`: in a run, `isConnected()` says whether the WebSocket in `ws` is there, and
no `send` uses one that is not, exactly when the connection reported last never ends, and the hub
does not return once a connection was reported.
-/

namespace PBTransfor.Ws

open Library

/-- `is_connected` says whether the stored WebSocket and its hub are there, and none that was
deleted has been used. -/
def World.Sound (w : World) : Prop := (w.isConnected = true ↔ w.Live) ∧ w.halted ≠ some .undefined

/-- The step ends the connection the client has stored, or destroys the hub under it. -/
def Drops (w : World) (s : Step) : Prop :=
  (w.halted = none ∧ w.Admits s) ∧ match s with
    | .disconnection ws => w.ws = some ws
    | .hubReturn => w.isConnected = true
    | _ => False

/-- As long as `connect` has not been called there is no hub, and no WebSocket. -/
def World.Started (w : World) : Prop := w.mRecvThread = false → w.hub = .none ∧ w.live = []

section
variable {w w' : World} {s : Step}

theorem Move.started (h : Move w s w') (hw : w.Started) : w'.Started := by
  cases h with
  | connected => exact fun h => absurd h (by simp)
  | terminated | isConnected | sendIdle | sent | dangling | message => exact hw
  | connection ws hh _ => exact fun h => absurd (hh.symm.trans (hw h).1) (by simp)
  | disconnection ws hh _ => exact fun h => absurd (hh.symm.trans (hw h).1) (by simp)
  | hubReturn hh => exact fun h => absurd (hh.symm.trans (hw h).1) (by simp)

/-- **When one step keeps the client sound.** -/
theorem Move.sound_iff (h : Move w s w') (ha : w.halted = none ∧ w.Admits s) (hi : w.Started)
    (hw : w.Sound) : w'.Sound ↔ ¬ Drops w s := by
  obtain ⟨hconn, hhalt⟩ := hw
  have still : ∀ {s : Step}, w'.Sound → ¬ Drops w s → (w'.Sound ↔ ¬ Drops w s) :=
    fun h h' => iff_of_true h h'
  cases h with
  | connected hj =>
      -- nothing was there before, and nothing is there yet
      refine still ⟨?_, hhalt⟩ fun h => h.2
      have hno : ¬ ({ w with mRecvThread := true, hub := .running } : World).Live := by
        rintro ⟨ws, hws, -⟩
        rw [show ({ w with mRecvThread := true, hub := .running } : World).live = [] from (hi hj).2]
          at hws
        cases hws
      have hold : ¬ w.Live := by
        rintro ⟨ws, hws, -⟩
        rw [(hi hj).2] at hws
        cases hws
      exact iff_of_false (mt hconn.mp hold) hno
  | terminated => exact still ⟨hconn, by simp⟩ fun h => h.2
  | isConnected => exact still ⟨hconn, hhalt⟩ fun h => h.2
  | sendIdle => exact still ⟨hconn, hhalt⟩ fun h => h.2
  | sent => exact still ⟨hconn, hhalt⟩ fun h => h.2
  | dangling _ hc hl => exact absurd (hconn.mp hc) hl
  | connection ws hh hl =>
      exact still ⟨iff_of_true rfl ⟨ws, by simp, rfl, hh⟩, hhalt⟩ fun h => h.2
  | message => exact still ⟨hconn, hhalt⟩ fun h => h.2
  | disconnection ws hh hl =>
      have hdrops : Drops w (.disconnection ws) ↔ w.ws = some ws := and_iff_right ha
      rw [hdrops]
      constructor
      · rintro ⟨hconn', -⟩ hws
        -- `is_connected` stays set
        obtain ⟨ws', hmem, hws', -⟩ := hconn'.mp (hconn.mpr ⟨ws, hl, hws, hh⟩)
        cases hws.symm.trans hws'
        simp at hmem
      · intro hne
        refine ⟨hconn.trans ?_, hhalt⟩
        have hmem : ∀ ws', w.ws = some ws' → (ws' ∈ w.live.filter (· ≠ ws) ↔ ws' ∈ w.live) := by
          intro ws' hws'
          have : ws' ≠ ws := fun h => hne (h ▸ hws')
          simp [this]
        constructor
        · rintro ⟨ws', hm, hws', hh'⟩
          exact ⟨ws', (hmem ws' hws').mpr hm, hws', hh'⟩
        · rintro ⟨ws', hm, hws', hh'⟩
          exact ⟨ws', (hmem ws' hws').mp hm, hws', hh'⟩
  | hubReturn hh =>
      have hdrops : Drops w .hubReturn ↔ w.isConnected = true := and_iff_right ha
      have hno : ¬ ({ w with hub := .destroyed } : World).Live := by
        rintro ⟨-, -, -, h⟩
        cases h
      rw [hdrops]
      constructor
      · rintro ⟨hconn', -⟩ hc
        exact hno (hconn'.mp hc)
      · exact fun hc => ⟨iff_of_false hc hno, hhalt⟩

end

/-- **The exact condition for never sending through a dead WebSocket**: the connection reported last
does not end, and the hub does not return once there is one. -/
theorem throughout_sound_iff (ws : Option Address) (l : List Step) :
    Throughout next World.Sound (World.new ws) l ↔
      Along next (fun w s => ¬ Drops w s) (World.new ws) l := by
  refine throughout_iff_along (I := World.Started) ?_ ?_ (fun _ => ⟨rfl, rfl⟩) ?_
  · exact fun w s hi => next_cases s (fun _ => hi) fun w' _ h => h.started hi
  · intro w s hi hw
    refine next_cases (P := fun w' => w'.Sound ↔ ¬ Drops w s) s (fun ha => ?_) fun w' ha h => ?_
    · exact iff_of_true hw fun h => ha h.1
    · exact h.sound_iff ha hi hw
  · refine ⟨iff_of_false (by simp [World.new]) ?_, by simp [World.new]⟩
    rintro ⟨_, h, -⟩
    cases h

/-- The peer ends the connection, and the client sends: it uses a WebSocket that was deleted. -/
theorem send_after_disconnection :
    (run next (World.new none) [.connect, .connection 7, .disconnection 7, .send [1]]).halted =
        some .undefined ∧
      ¬ Throughout next World.Sound (World.new none)
        [.connect, .connection 7, .disconnection 7, .send [1]] := by
  refine ⟨by decide, fun h => ?_⟩
  exact (h _ (List.prefix_refl _)).2 (by decide)

end PBTransfor.Ws
