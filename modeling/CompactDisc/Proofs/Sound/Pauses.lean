import CompactDisc.Drive.Basic
import CompactDisc.Proofs.Sound.Ending
import CompactDisc.Proofs.Sound.Rest

/-!
# CompactDisc.Proofs.Sound.Pauses

**A pause is not heard.** A pause sets the flag of the player and switches the output off, and going on
undoes both. In between nobody gets any sound: a pump is refused at the output, and a pull that comes
past it is stopped by the flag. So whatever is asked during a pause leaves the deck as the pause has left
it (`Deck.Suspended.ask`), and going on brings back the very deck that was paused
(`Deck.Sounding.pause_resume`). Sounds and pauses in turn are then compared by an induction that drops
the pauses (`Deck.Unheld.turns_filter`).

This is so while the player plays. Once playback has ended, going on would switch the output on with
nothing to play; so pauses are only looked at where there is something to pause (`Deck.Timely`).
-/

namespace CompactDisc

/-- What can be asked of a player without telling it what to do. -/
inductive Ask where
  | pump (frames : Nat)
  /-- The producer is asked directly, past the output. -/
  | pull (frames : Nat)
  | status
  | position (id : Nat)
  | subchannel (drive : Drive)

/-- What is answered. -/
inductive Answer where
  | pump (taken : Bool)
  | pull
  | status (playing paused : Bool)
  | position (sector : Option Nat)
  | subchannel (report : Subchannel)
  deriving DecidableEq

/-- Something is asked, or the player is paused, things are asked, and it goes on. -/
inductive Turn where
  | ask (a : Ask)
  | rest (during : List Ask)

/-- Whether a turn is no pause. -/
def Turn.isAsk : Turn → Bool
  | ask _ => true
  | rest _ => false

namespace Deck

/-- The answer to what is asked, and the deck behind it. -/
def ask (d : Deck) : Ask → Answer × Deck
  | .pump frames => (.pump (d.pump frames).1, (d.pump frames).2)
  | .pull frames => (.pull, d.pull frames)
  | .status => (.status d.player.playing d.player.paused, d)
  | .position id => (.position (d.position id), d)
  | .subchannel drive => (.subchannel (drive.subchannel d), d)

/-- Things asked in order: each answer with the deck behind it. -/
def asks (d : Deck) : List Ask → List (Answer × Deck)
  | [] => []
  | a :: as => d.ask a :: (d.ask a).2.asks as

/-- The deck when things have been asked. -/
def asked (d : Deck) (as : List Ask) : Deck := as.foldl (fun d a => (d.ask a).2) d

/-- The deck when the player has been paused, things have been asked, and it has gone on. -/
def rested (d : Deck) (during : List Ask) : Deck := ((d.pause false).asked during).pause true

/-- Turns in order: the answers outside of pauses, each with the deck behind it, and the deck at the
end. -/
def turns (d : Deck) : List Turn → List (Answer × Deck) × Deck
  | [] => ([], d)
  | .ask a :: ts => (d.ask a :: ((d.ask a).2.turns ts).1, ((d.ask a).2.turns ts).2)
  | .rest during :: ts => (d.rested during).turns ts

/-- Every pause comes while the player plays, by the turns that are no pauses. -/
def Timely (d : Deck) : List Turn → Prop
  | [] => True
  | .ask a :: ts => (d.ask a).2.Timely ts
  | .rest _ :: ts => d.player.playing = true ∧ d.Timely ts

/-- Pauses can be looked at one after another. -/
instance decidableTimely : (d : Deck) → (ts : List Turn) → Decidable (d.Timely ts)
  | _, [] => inferInstanceAs (Decidable True)
  | d, .ask a :: ts => decidableTimely (d.ask a).2 ts
  | d, .rest _ :: ts =>
    have := decidableTimely d ts
    inferInstanceAs (Decidable (d.player.playing = true ∧ _))

/-- A player that plays but is paused, with its output off. -/
structure Suspended (d : Deck) : Prop where
  playing : d.player.playing = true
  paused : d.player.paused = true
  off : d.isOn = false

/-- What is answered during a pause of a deck: no sound is given, and all else is as it was. -/
def answerAtRest (d : Deck) : Ask → Answer
  | .pump _ => .pump false
  | .pull _ => .pull
  | .status => .status true true
  | .position id => .position (d.position id)
  | .subchannel drive => .subchannel (drive.subchannel d)

variable {d : Deck}

/-! ### During a pause -/

/-- During a pause nothing that is asked changes the deck. -/
theorem Suspended.ask (h : d.Suspended) (a : Ask) : d.ask a = (d.answerAtRest a, d) := by
  cases a with
  | pump frames => simp only [Deck.ask, answerAtRest, pump_of_off h.off]
  | pull frames => simp only [Deck.ask, answerAtRest, pull_of_paused frames h.paused]
  | status => simp only [Deck.ask, answerAtRest, h.playing, h.paused]
  | position id => rfl
  | subchannel drive => rfl

theorem Suspended.asks (h : d.Suspended) (as : List Ask) :
    d.asks as = as.map fun a => (d.answerAtRest a, d) := by
  induction as with
  | nil => rfl
  | cons a as ih =>
      rw [Deck.asks, h.ask a, List.map_cons]
      exact congrArg _ ih

theorem Suspended.asked (h : d.Suspended) (as : List Ask) : d.asked as = d := by
  induction as with
  | nil => rfl
  | cons a as ih =>
      rw [Deck.asked, List.foldl_cons, h.ask a]
      exact ih

/-- A pause does not look at how far the player has got. -/
theorem position_pause (d : Deck) (resume : Bool) (id : Nat) :
    (d.pause resume).position id = d.position id := by
  unfold position
  rw [player_pause]

theorem samples_pause (d : Deck) (resume : Bool) : (d.pause resume).samples = d.samples :=
  samples_eq_of_channel? (channel?_pause d resume) fun _ => rfl

theorem answerAtRest_pause (d : Deck) (resume : Bool) (a : Ask) :
    (d.pause resume).answerAtRest a = d.answerAtRest a := by
  cases a with
  | pump | pull | status => rfl
  | position id => exact congrArg Answer.position (position_pause d resume id)
  | subchannel drive =>
      refine congrArg Answer.subchannel ?_
      unfold Drive.subchannel Drive.position
      rw [position_pause]

/-! ### Pausing and going on -/

/-- Of two pauses or resumptions the last counts. -/
theorem pause_pause (d : Deck) (first last : Bool) : (d.pause first).pause last = d.pause last := by
  unfold pause enable onChannel
  cases hid : d.player.channel with
  | none => simp [hid]
  | some id => simp [hid, Mixer.modify, List.modify_modify_eq, Function.comp_def]

/-- Switching an output on that is on changes nothing. -/
theorem enable_of_on (h : d.isOn = true) : d.enable true = d := by
  unfold enable onChannel
  cases hid : d.player.channel with
  | none => rfl
  | some id =>
      have hon : (d.mixer.get? id).any (·.enabled) = true := by
        simpa [isOn, channel?, hid] using h
      have hmixer : (d.mixer.modify id fun c => { c with enabled := true }) = d.mixer := by
        refine congrArg (Mixer.mk · d.mixer.connected) (List.ext_getElem? fun i => ?_)
        rw [List.getElem?_modify]
        cases hc : d.mixer.channels[i]? with
        | none => rfl
        | some c =>
            by_cases hi : id = i
            · subst hi
              have henabled : c.enabled = true := by simpa [Mixer.get?, hc] using hon
              simp [← henabled]
            · simp [hi]
      simp [hmixer]

namespace Sounding

/-- A pause of a player that plays. -/
theorem suspended (h : d.Sounding) : (d.pause false).Suspended := by
  obtain ⟨c, hc⟩ := h.attached
  refine ⟨?_, ?_, isOn_pause hc false⟩
  · rw [player_pause]
    exact h.playing
  · rw [player_pause]
    rfl

/-- **Going on undoes a pause**: the flag was not set, and the output was on. -/
theorem pause_resume (h : d.Sounding) : (d.pause false).pause true = d := by
  have hplayer : { d.player with paused := false } = d.player := by rw [← h.unpaused]
  rw [pause_pause, pause]
  simp only [Bool.not_true, hplayer]
  exact enable_of_on h.isOn_eq

/-- A pause with whatever is asked in it leaves the deck as it was. -/
theorem rested (h : d.Sounding) (during : List Ask) : d.rested during = d := by
  rw [Deck.rested, h.suspended.asked, h.pause_resume]

end Sounding

/-! ### Turn by turn -/

/-- The player sounds, or nothing is played. -/
def Unheld (d : Deck) : Prop := d.Sounding ∨ d.player.playing = false

/-- Nothing that is asked pauses the player. -/
theorem Unheld.ask (h : d.Unheld) (a : Ask) : (d.ask a).2.Unheld := by
  have hpull (frames : Nat) : (d.pull frames).Unheld := by
    rcases h with hsounding | hrest
    · rcases Nat.eq_zero_or_pos frames with rfl | hframes
      · rw [pull_zero]
        exact Or.inl hsounding
      · have hnext := hsounding.pullBy (b := .actual) hframes
        rw [pullBy_actual] at hnext
        exact hnext.symm.imp And.left Stopped.playing
    · rw [pull_of_rest hrest]
      exact Or.inr hrest
  cases a with
  | pump frames =>
      show (d.pump frames).2.Unheld
      cases hon : d.isOn with
      | true =>
          rw [pump_of_on hon]
          exact hpull frames
      | false =>
          rw [pump_of_off hon]
          exact h
  | pull frames => exact hpull frames
  | status | position | subchannel => exact h

/-- **Pauses change nothing**: the answers, the decks behind them and the deck at the end are those of
the turns without the pauses. By induction on the turns. -/
theorem Unheld.turns_filter (h : d.Unheld) {ts : List Turn} (htimely : d.Timely ts) :
    d.turns ts = d.turns (ts.filter Turn.isAsk) := by
  induction ts generalizing d with
  | nil => rfl
  | cons t ts ih =>
      cases t with
      | ask a =>
          rw [List.filter_cons_of_pos rfl, turns, turns, ih (h.ask a) htimely]
      | rest during =>
          obtain ⟨hplaying, hrest⟩ := htimely
          have hsounding := h.resolve_right (by simp [hplaying])
          rw [List.filter_cons_of_neg (by simp [Turn.isAsk]), turns, hsounding.rested, ih h hrest]

/-- A pause finds a player that sounds. -/
theorem Unheld.sounding_turns (h : d.Unheld) {before after : List Turn} {during : List Ask}
    (htimely : d.Timely (before ++ .rest during :: after)) : (d.turns before).2.Sounding := by
  induction before generalizing d with
  | nil => exact h.resolve_right (by simp [htimely.1])
  | cons t before ih =>
      cases t with
      | ask a => exact ih (h.ask a) htimely
      | rest during' =>
          have hsounding := h.resolve_right (by simp [htimely.1])
          rw [turns, hsounding.rested]
          exact ih h htimely.2

end Deck

open Deck in
/-- **A pause is not heard.** Whatever was asked of a new player so far, it is wired. Let any wired player
play and not be paused. Sound, its state and its position are asked for then, in any order, and at any point
where it still plays it may be paused, asked for anything and told to go on. Every answer outside of the
pauses, the deck behind it and the deck at the end are as if there had been no pause. In a pause sound is
refused, the deck stays as the pause has left it, with the player marked as paused, and every other answer
is the one that would have been given before: nothing more is collected, no source is read and the position
stands still. -/
theorem Session.pauses_unheard :
    (∀ calls, (new.run calls).deck.Wired) ∧
    ∀ d : Deck, d.Wired → d.player.playing = true → d.player.paused = false →
      ∀ ts, d.Timely ts →
        d.turns ts = d.turns (ts.filter Turn.isAsk) ∧
        ∀ before during after, ts = before ++ .rest during :: after →
          let e := (d.turns before).2
          let held := e.pause false
          held.asks during = during.map (fun a => (e.answerAtRest a, held)) ∧
          held.asked during = held ∧
          held.player = { e.player with paused := true } ∧
          held.cursors = e.cursors ∧ held.samples = e.samples ∧
          (∀ id, held.position id = e.position id) ∧
          e.rested during = e := by
  refine ⟨wired_run, fun d hwired hplaying hunpaused ts htimely => ?_⟩
  have hd : d.Unheld := Or.inl ⟨hwired, hplaying, hunpaused⟩
  refine ⟨hd.turns_filter htimely, ?_⟩
  rintro before during after rfl e held
  have he : e.Sounding := hd.sounding_turns htimely
  have hheld : held.Suspended := he.suspended
  have hasks : held.asks during = during.map fun a => (e.answerAtRest a, held) := by
    rw [hheld.asks]
    exact List.map_congr_left fun a _ => by rw [answerAtRest_pause]
  exact ⟨hasks, hheld.asked during, player_pause e false, cursors_onChannel _ _,
    samples_pause e false, position_pause e false, he.rested during⟩

/-- Two files are to be played. -/
def Session.bothFiles : List Call := [.elsewhere ⟨[0, 0]⟩, .play ⟨0, .twoFiles⟩ 0 2]

/-- Pulls with a pause before each: at the beginning, where the first file has just been emptied, and
where the second is to be begun. -/
def Turn.betweenFiles : List Turn :=
  [.rest [.pump 3], .ask (.pump 5), .rest [.pump 3, .pull 3, .position 0], .ask (.pump 5),
    .rest [.pull 3, .status], .ask (.pump 5)]

/-- Sound is asked for where the first file is at its end, and none is lost. -/
theorem Session.pauses_unheard_twoFiles :
    let d := (new.run bothFiles).deck
    d.player.playing = true ∧ d.player.paused = false ∧ d.Timely Turn.betweenFiles ∧
    (d.turns Turn.betweenFiles).2.samples = [257, 257, 257, 257, 514, 514, 514, 514] ∧
    let e := (d.turns [.rest [.pump 3], .ask (.pump 5)]).2
    ((e.pause false).asked [.pump 3, .pull 3, .position 0]).samples = [257, 257, 257, 257] := by
  intro d
  have hplaying : d.player.playing = true := by decide +kernel
  have hunpaused : d.player.paused = false := by decide +kernel
  have htimely : d.Timely Turn.betweenFiles := by decide +kernel
  obtain ⟨hturns, hpauses⟩ :=
    pauses_unheard.2 d (pauses_unheard.1 bothFiles) hplaying hunpaused _ htimely
  refine ⟨hplaying, hunpaused, htimely, ?_, ?_⟩
  · rw [hturns]
    decide +kernel
  · obtain ⟨-, hasked, -, -, hsamples, -⟩ := hpauses [.rest [.pump 3], .ask (.pump 5)] _ _ rfl
    intro e
    rw [hasked, hsamples]
    decide +kernel

end CompactDisc
