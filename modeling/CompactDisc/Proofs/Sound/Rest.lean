import CompactDisc.Proofs.Sound.Behaviour
import Mathlib.Data.List.Infix

/-!
# CompactDisc.Proofs.Sound.Rest

**A player that does not play.** A player is meant to be in one of three states: it plays, it is
paused, or it is stopped, and a stopped player is not paused and its output is off. Whatever ends
playing does leave it stopped. A pause and a resumption, however, set the flag and the output without
asking whether anything is played. So there is a fourth kind of state, and `Session.state_cases` says
exactly when a player is in it: a pause or a resumption has found it at rest, and nothing has started
or stopped it since. After a resumption the output is then on with nothing to play, and asking it for
sound until it is off never ends.

Proof shape: a call that is neither a pause nor a resumption leaves a player at rest as it is, or
stopped (`Deck.rest_afterBy`); the last pause of a run that found the player at rest is then the one
that counts.
-/

namespace CompactDisc

/-- What a pause or a resumption asks for. -/
def Call.resume? : Call → Option Bool
  | .pause resume => some resume
  | _ => none

namespace Deck

/-- Nothing is played, and paused flag and output are as a pause or a resumption leaves them. -/
structure Resumed (d : Deck) (resume : Bool) : Prop where
  playing : d.player.playing = false
  paused : d.player.paused = !resume
  output : d.isOn = resume

variable {b : Behaviour} {d : Deck}

/-! ### One call -/

/-- Such a player is not stopped. -/
theorem Resumed.not_stopped {resume : Bool} (h : d.Resumed resume) : ¬ d.Stopped := by
  intro hstopped
  have hpaused := h.paused
  have houtput := h.output
  rw [hstopped.paused] at hpaused
  rw [hstopped.off] at houtput
  subst houtput
  cases hpaused

/-- Nothing is pulled while nothing is played. -/
theorem pull_of_rest (h : d.player.playing = false) (frames : Nat) : d.pull frames = d := by
  simp [pull, h]

/-- So asking for sound changes nothing. -/
theorem pump_of_rest (d : Deck) (h : d.player.playing = false) (frames : Nat) :
    d.pump frames = (d.isOn, d) := by
  cases hon : d.isOn with
  | false => exact pump_of_off hon frames
  | true => rw [pump_of_on hon, pull_of_rest h]

theorem rest_playBy (medium : Medium) (start length : Nat)
    (h : (d.playBy b medium start length).2.player.playing = false) :
    (d.playBy b medium start length).2.Stopped := by
  rcases playBy_cases b d medium start length with ⟨plan, cursors, -, hplay⟩ | ⟨e, cursors, hplay⟩
  · simp [hplay] at h
  · rw [hplay]
    exact stopped_stop _

theorem rest_proceedBy {s : Segment} {decoded : Nat} (hplaying : d.player.playing = true)
    (h : (d.proceedBy b s decoded).player.playing = false) :
    (d.proceedBy b s decoded).Stopped := by
  simp only [proceedBy] at h ⊢
  by_cases hdone : s.total ≤ s.played
  · rw [if_pos hdone]
    exact stopped_stop d
  · rw [if_neg hdone] at h ⊢
    by_cases hmore : 0 < decoded
    · -- more sound has come, so the player still plays
      rw [if_pos hmore, hplaying] at h
      cases h
    · rw [if_neg hmore] at h ⊢
      by_cases hnothing : s.completed = 0
      · rw [if_pos hnothing]
        exact stopped_stop d
      · rw [if_neg hnothing] at h ⊢
        exact rest_playBy _ _ _ h

theorem rest_pullBy (frames : Nat) (h : (d.pullBy b frames).player.playing = false) :
    (d.pullBy b frames).Stopped ∨ d.pullBy b frames = d := by
  rcases pullBy_cases b d frames with ⟨hidle, -⟩ | ⟨s, sound, cursors, -, hplaying, -, -, hpull⟩
  · exact Or.inr hidle
  · left
    rw [hpull] at h ⊢
    exact rest_proceedBy (by simp [hplaying]) h

theorem rest_release (d : Deck) (id : Nat) : (d.release id).Stopped ∨ d.release id = d := by
  unfold release
  cases hsegment : d.player.segment with
  | none => exact Or.inr rfl
  | some s =>
      dsimp only
      split
      · have hstopped := stopped_stop d
        exact Or.inl ⟨hstopped.playing, hstopped.paused, hstopped.off⟩
      · exact Or.inr rfl

/-- **What ends playing leaves the player stopped**: after any call but a pause or a resumption, a
player that does not play is stopped, or it is as it was before. -/
theorem rest_afterBy {call : Call} (hcall : call.resume? = none) (hwired : d.Wired)
    (h : (d.afterBy b call).player.playing = false) :
    (d.afterBy b call).Stopped ∨ d.player.playing = false ∧
      (d.afterBy b call).player.paused = d.player.paused ∧ (d.afterBy b call).isOn = d.isOn := by
  cases call with
  | play medium start length => exact Or.inl (rest_playBy medium _ _ h)
  | pause resume => cases hcall
  | stop => exact Or.inl (stopped_stop d)
  | release id =>
      refine (rest_release d id).imp_right fun hsame => ?_
      change (d.release id).player.playing = false at h
      rw [hsame] at h
      simp [afterBy, hsame, h]
  | control volume map =>
      obtain ⟨c, hc⟩ := hwired.attached
      refine Or.inr ⟨by simpa [afterBy] using h, by simp [afterBy], ?_⟩
      simp [afterBy, isOn, hc]
  | pull frames =>
      refine (rest_pullBy frames h).imp_right fun hsame => ?_
      change (d.pullBy b frames).player.playing = false at h
      rw [hsame] at h
      simp [afterBy, hsame, h]
  | elsewhere cursors => exact Or.inr ⟨h, rfl, rfl⟩

theorem resumed_pause (hwired : d.Wired) (h : d.player.playing = false) (resume : Bool) :
    (d.pause resume).Resumed resume := by
  obtain ⟨c, hc⟩ := hwired.attached
  exact ⟨by simpa using h, by simp, isOn_pause hc resume⟩

end Deck

namespace Session

/-! ### A run -/

theorem wired_run (calls : List Call) : (new.run calls).deck.Wired := by
  rw [deck_run]
  exact Deck.Wired.new.runBy _

theorem deck_run_concat (calls : List Call) (call : Call) :
    (new.run (calls ++ [call])).deck = (new.run calls).deck.afterBy .actual call := by
  rw [← deck_after, run, List.foldl_append]
  rfl

/-- A player at rest is stopped, or the last pause or resumption has found it at rest and counts
since then. By induction on the calls, the last one first. -/
theorem rest_run (calls : List Call) (h : (new.run calls).deck.player.playing = false) :
    (new.run calls).deck.Stopped ∨
    ∃ before resume after, calls = before ++ .pause resume :: after ∧
      (new.run before).deck.player.playing = false ∧
      (∀ call ∈ after, call.resume? = none) ∧
      ∀ part, part <+: after → (new.run (before ++ .pause resume :: part)).deck.Resumed resume := by
  induction calls using List.reverseRecOn with
  | nil => exact Or.inl ⟨rfl, rfl, rfl⟩
  | append_singleton calls call ih =>
      have hwired := wired_run calls
      rw [deck_run_concat] at h ⊢
      cases hcall : call.resume? with
      | none =>
          rcases Deck.rest_afterBy hcall hwired h with hstopped | ⟨hrest, hpaused, houtput⟩
          · exact Or.inl hstopped
          · rcases ih hrest with hstopped | ⟨before, resume, after, rfl, hfound, hafter, hresumed⟩
            · exact Or.inl ⟨h, hpaused.trans hstopped.paused, houtput.trans hstopped.off⟩
            · -- the call comes after the pause that counts, and changes nothing
              right
              have hlast := hresumed after List.prefix_rfl
              refine ⟨before, resume, after ++ [call], by simp, hfound, ?_, ?_⟩
              · simpa [or_imp, forall_and] using ⟨hafter, hcall⟩
              · intro part hpart
                rcases List.prefix_concat_iff.mp hpart with rfl | hpart
                · rw [← List.cons_append, ← List.append_assoc, deck_run_concat]
                  exact ⟨h, hpaused.trans hlast.paused, houtput.trans hlast.output⟩
                · exact hresumed part hpart
      | some resume =>
          right
          obtain rfl : call = .pause resume := by
            cases call with
            | pause r => exact congrArg Call.pause (Option.some.inj hcall)
            | play | stop | release | control | pull | elsewhere => cases hcall
          have hrest : (new.run calls).deck.player.playing = false := by
            simpa [Deck.afterBy] using h
          refine ⟨calls, resume, [], rfl, hrest, by simp, fun part hpart => ?_⟩
          obtain rfl := List.prefix_nil.mp hpart
          rw [deck_run_concat]
          exact Deck.resumed_pause hwired hrest resume

/-- **The states of a player.** Whatever was asked of a new player, in any order: it plays, with the
output on unless it is paused; or it is stopped, and asking for sound is refused; or a pause or a
resumption has come when nothing was played, and from then on nothing has been played and the flag
and the output are as that call set them. In this last state asking for sound is granted after every
resumption, for ever and without any effect. -/
theorem state_cases (calls : List Call) :
    let d := (new.run calls).deck
    (d.player.playing = true ∧ d.isOn = !d.player.paused) ∨
    (d.Stopped ∧ ∀ frames, d.pump frames = (false, d)) ∨
    ∃ before resume after, calls = before ++ .pause resume :: after ∧
      (new.run before).deck.player.playing = false ∧
      (∀ call ∈ after, call.resume? = none) ∧
      (∀ part, part <+: after →
        (new.run (before ++ .pause resume :: part)).deck.Resumed resume) ∧
      ¬ d.Stopped ∧ ∀ frames, d.pump frames = (resume, d) := by
  intro d
  cases hplaying : d.player.playing with
  | true => exact Or.inl ⟨rfl, (wired_run calls).output hplaying⟩
  | false =>
      right
      have hpump := d.pump_of_rest hplaying
      rcases rest_run calls hplaying with hstopped | ⟨before, resume, after, hcalls, hfound, hafter,
        hresumed⟩
      · left
        rw [hstopped.off] at hpump
        exact ⟨hstopped, hpump⟩
      · right
        have hlast : d.Resumed resume := by
          have h := hresumed after List.prefix_rfl
          rwa [← hcalls] at h
        rw [hlast.output] at hpump
        exact ⟨before, resume, after, hcalls, hfound, hafter, hresumed, hlast.not_stopped, hpump⟩

/-- A new player that is told to go on has its output on, and nothing to play. -/
example : (new.run [.pause true]).deck.isOn = true ∧
    (new.run [.pause true]).deck.player.playing = false := by decide

end Session

end CompactDisc
