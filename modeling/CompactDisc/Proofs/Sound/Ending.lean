import CompactDisc.Command.Sound
import CompactDisc.Proofs.Sound.Behaviour
import Mathlib.Data.Nat.Find
import Mathlib.Order.WellFounded

/-!
# CompactDisc.Proofs.Sound.Ending

**Playing always ends.** No single number gets smaller while a request is played: a source that runs
dry makes the next segment count its frames from zero again, and at another rate perhaps. But what is
left of the request does, by `Deck.Nearer`: a pull that brings frames leaves the sectors and takes
frames off them, and one that brings none leaves fewer sectors, since at least one of them counts as
played and a later start never reaches further. This needs nothing of the sources, so playing ends
whatever they do (`Deck.pumped_ends`), and so does the loop of a rip.
-/

namespace CompactDisc

namespace Deck

/-- What is left cannot get less for ever. -/
theorem nearer_wf : WellFounded Nearer :=
  InvImage.wf left (Prod.lex ⟨_, Nat.lt_wfRel.wf⟩ ⟨_, Nat.lt_wfRel.wf⟩).wf

instance : IsWellFounded Deck Nearer := ⟨nearer_wf⟩

/-- A player that plays and is not paused. -/
structure Sounding (d : Deck) : Prop extends d.Wired where
  playing : d.player.playing = true
  unpaused : d.player.paused = false

variable {b : Behaviour} {d : Deck} {frames : Nat}

theorem Sounding.isOn_eq (h : d.Sounding) : d.isOn = true := by
  rw [h.output h.playing, h.unpaused]
  rfl

/-! ### One pull -/

/-- More frames of the segment have been played. -/
theorem nearer_of_played {e : Deck} {s : Segment} {n : Nat} (hd : d.player.segment = some s)
    (he : e.player.segment = some { s with played := s.played + n }) (hn : 0 < n)
    (hunfinished : s.played + n < s.total) : e.Nearer d := by
  simp only [Nearer, left, hd, he, Option.elim_some]
  exact Prod.Lex.right _ (by omega)

/-- A plan that begins behind some sectors of a segment has fewer of them left. -/
theorem nearer_of_plan {e : Deck} {s : Segment} {plan : Plan} {hasOutput : Bool} {start skipped : Nat}
    (hd : d.player.segment = some s)
    (hfind : Plan.find s.medium.disc hasOutput start (s.length - skipped) = .ok plan)
    (he : e.player.segment = some (plan.segment s.medium)) (hskipped : 0 < skipped) :
    e.Nearer d := by
  obtain ⟨hlength, -, t, source, -, -, -, -, rfl⟩ := Plan.find_ok_iff.mp hfind
  simp only [Nearer, left, hd, he, Option.elim_some]
  refine Prod.Lex.left _ _ ?_
  change s.length - skipped - (t.start - start) < s.length
  omega

/-- **A pull brings the end nearer, or stops.** -/
theorem Sounding.pullBy (h : d.Sounding) (hframes : 0 < frames) :
    (d.pullBy b frames).Stopped ∨
      (d.pullBy b frames).Sounding ∧ (d.pullBy b frames).Nearer d := by
  have hwired := h.toWired.pullBy (b := b) frames
  rcases pullBy_cases b d frames with ⟨-, hidle⟩ | ⟨s, sound, cursors, -, -, -, hsegment, hpull⟩
  · obtain ⟨s, hs⟩ := h.segment h.playing
    obtain ⟨c, hc⟩ := h.attached
    have hchannel := channel_of_channel? hc
    rcases hidle with hzero | hrest | hpaused | hnone | hnone
    · omega
    · simp [h.playing] at hrest
    · simp [h.unpaused] at hpaused
    · simp [hs] at hnone
    · simp [hnone] at hchannel
  · rw [hpull] at hwired ⊢
    simp only [proceedBy] at hwired ⊢
    by_cases hdone : s.total ≤ s.played + sound.frames
    · rw [if_pos hdone]
      exact Or.inl (stopped_stop _)
    · rw [if_neg hdone] at hwired ⊢
      by_cases hmore : 0 < sound.frames
      · rw [if_pos hmore] at hwired ⊢
        refine Or.inr ⟨⟨hwired, by simp [h.playing], by simp [h.unpaused]⟩, ?_⟩
        exact nearer_of_played hsegment (by simp) hmore (Nat.lt_of_not_le hdone)
      · rw [if_neg hmore] at hwired ⊢
        split at hwired
        · rename_i hnothing
          rw [if_pos hnothing]
          exact Or.inl (stopped_stop _)
        · rename_i hsome
          rw [if_neg hsome]
          -- the source has run dry, and what is left begins the next segment or cannot be played
          rcases playBy_cases b (d.heard s sound cursors) s.medium _ _ with
            ⟨plan, cursors', hfind, hplay⟩ | ⟨e, cursors', hplay⟩
          · rw [hplay] at hwired ⊢
            refine Or.inr ⟨⟨hwired, by simp, by simp⟩, ?_⟩
            exact nearer_of_plan hsegment hfind (by simp) (Nat.pos_of_ne_zero hsome)
          · rw [hplay]
            exact Or.inl (stopped_stop _)

/-! ### Pump after pump -/

/-- The deck after so many pumps, each for a number of frames and with the behaviour of sources at
the time. -/
def pumped (b : Nat → Behaviour) (frames : Nat → Nat) (d : Deck) : Nat → Deck
  | 0 => d
  | n + 1 => ((d.pumped b frames n).pumpBy (b n) (frames n)).2

theorem Sounding.pumpBy (h : d.Sounding) (b : Behaviour) (frames : Nat) :
    d.pumpBy b frames = (true, d.pullBy b frames) := by
  rw [Deck.pumpBy, h.isOn_eq, if_pos rfl]

theorem Stopped.pumpBy (h : d.Stopped) (b : Behaviour) (frames : Nat) :
    d.pumpBy b frames = (false, d) := by
  simp [Deck.pumpBy, h.off]

section

variable {b : Nat → Behaviour} {frames : Nat → Nat}

/-- A pump that is answered leaves less to play, or stops; one that is not changes nothing. -/
theorem pumped_succ (hframes : ∀ n, 0 < frames n) {n : Nat} :
    ((d.pumped b frames n).Sounding →
      (d.pumped b frames (n + 1)).Stopped ∨ (d.pumped b frames (n + 1)).Sounding ∧
        (d.pumped b frames (n + 1)).Nearer (d.pumped b frames n)) ∧
    ((d.pumped b frames n).Stopped → (d.pumped b frames (n + 1)).Stopped) := by
  constructor
  · intro h
    rw [pumped, h.pumpBy]
    exact h.pullBy (hframes n)
  · intro h
    rw [pumped, h.pumpBy]
    exact h

theorem pumped_cases (h : d.Sounding) (hframes : ∀ n, 0 < frames n) (n : Nat) :
    (d.pumped b frames n).Sounding ∨ (d.pumped b frames n).Stopped := by
  induction n with
  | zero => exact Or.inl h
  | succ n ih =>
      rcases ih with hsounding | hstopped
      · exact ((pumped_succ hframes).1 hsounding).symm.imp_left And.left
      · exact Or.inr ((pumped_succ hframes).2 hstopped)

theorem pumped_stays (hframes : ∀ n, 0 < frames n) {n m : Nat} (hle : n ≤ m)
    (h : (d.pumped b frames n).Stopped) : (d.pumped b frames m).Stopped := by
  induction hle with
  | refl => exact h
  | step _ ih => exact (pumped_succ hframes).2 ih

/-- Some pump stops. -/
theorem exists_stopped (h : d.Sounding) (hframes : ∀ n, 0 < frames n) :
    ∃ n, (d.pumped b frames n).Stopped := by
  by_contra hnever
  rw [not_exists] at hnever
  obtain ⟨n, hn⟩ := WellFounded.not_rel_apply_succ (r := Nearer) (d.pumped b frames)
  have hsounding := (pumped_cases h hframes n).resolve_right (hnever n)
  exact hn (((pumped_succ hframes).1 hsounding).resolve_left (hnever (n + 1))).2

end

/-! ### The loop -/

theorem pumpTimes_of_off (h : d.isOn = false) (done times : Nat) :
    d.pumpTimes frames done times = (done, d) := by
  cases times with
  | zero => rfl
  | succ times => rw [pumpTimes, pump_of_off h]

theorem pumpTimes_of_on (h : d.isOn = true) (done times : Nat) :
    d.pumpTimes frames done (times + 1) = (d.pull frames).pumpTimes frames (done + 1) times := by
  rw [pumpTimes, pump_of_on h]

theorem playOut_of_on (h : d.isOn = true) :
    d.playOut frames =
      if (d.pull frames).Nearer d then (d.pull frames).playOut frames else d.pull frames := by
  rw [playOut, pump_of_on h]
  simp

/-- Playing out is pumping until a pump is refused, however many more were allowed. -/
theorem Sounding.playOut (h : d.Sounding) (hframes : 0 < frames) :
    ∃ n, (∀ done times, n ≤ times → d.pumpTimes frames done times = (done + n, d.playOut frames)) ∧
      (d.playOut frames).Stopped := by
  induction d using nearer_wf.induction with
  | _ d ih =>
      -- either the first pump stops, or there is less left behind it
      obtain ⟨n, hpumps, hstopped⟩ : ∃ n,
          (∀ done times, n ≤ times → (d.pull frames).pumpTimes frames done times =
            (done + n, d.playOut frames)) ∧
          (d.playOut frames).Stopped := by
        have hnext := h.pullBy (b := .actual) hframes
        rw [pullBy_actual] at hnext
        rcases hnext with hstopped | ⟨hsounding, hnearer⟩
        · have hlast := playOut_of_disabled frames hstopped.off
          have hout : d.playOut frames = d.pull frames := by
            rw [playOut_of_on h.isOn_eq, hlast, ite_self]
          rw [hout]
          exact ⟨0, fun done times _ => pumpTimes_of_off hstopped.off done times, hstopped⟩
        · have hout : d.playOut frames = (d.pull frames).playOut frames := by
            rw [playOut_of_on h.isOn_eq, if_pos hnearer]
          obtain ⟨n, hpumps, hstopped⟩ := ih _ hnearer hsounding
          rw [hout]
          exact ⟨n, hpumps, hstopped⟩
      refine ⟨n + 1, fun done times hle => ?_, hstopped⟩
      obtain ⟨times, rfl⟩ := Nat.exists_eq_add_of_le' (Nat.le_trans (Nat.le_add_left 1 n) hle)
      rw [pumpTimes_of_on h.isOn_eq, hpumps _ _ (Nat.le_of_succ_le_succ hle), Nat.add_assoc,
        Nat.add_comm 1]

/-- An accepted request plays. -/
theorem sounding_of_play {medium : Medium} {start length : Nat} (h : d.Wired)
    (hok : (d.play medium start length).1 = .ok ()) :
    (d.play medium start length).2.Sounding := by
  obtain ⟨plan, -, -, hbegan⟩ := play_ok_iff.mp hok
  rw [hbegan]
  exact ⟨h.began medium plan, by simp, by simp⟩

end Deck

/-- Putting an image into a new drive leaves the player wired. -/
theorem Command.wired_openImage {storage : Storage} {path : String} {drive : Drive} {d e : Deck}
    (h : d.Wired) (hopen : openImage storage path d = .ok (drive, e)) : e.Wired := by
  simp only [openImage, Drive.blank, Drive.insert] at hopen
  cases hload : Disc.load (.ofStorage storage) path d.cursors with
  | error failure =>
      rw [hload] at hopen
      cases hopen
  | ok loaded =>
      rw [hload] at hopen
      cases hopen
      have hreleased := ((Deck.Wired.mk h.attached h.segment h.output :
        ({ d with cursors := loaded.2, media := d.media + 1 } : Deck).Wired)).release d.media
      exact ⟨hreleased.attached, hreleased.segment, hreleased.output⟩

open Command in
/-- **Playing ends, whatever the sources do.** Whatever was asked of a new player so far: if it plays
and is not paused, then of pumps for one frame or more, each with any behaviour of the sources, every
one that does not stop playing leaves less to play, by sectors and then by sample frames; after
finitely many that are answered the player is stopped and all others are refused. So the loop of a
rip ends by itself: there is a number of pumps that it makes whatever greater number is allowed, and
it comes to what `Deck.playOut` gives. -/
theorem Deck.pumped_ends (calls : List (Behaviour × Call))
    (hplaying : (attached.runBy calls).player.playing = true)
    (hunpaused : (attached.runBy calls).player.paused = false)
    (b : Nat → Behaviour) (frames : Nat → Nat) (hframes : ∀ n, 1 ≤ frames n) :
    let d := attached.runBy calls
    (∀ n, (d.pumped b frames (n + 1)).player.playing = true →
      (d.pumped b frames (n + 1)).Nearer (d.pumped b frames n)) ∧
    (∃ n, (∀ m < n, ((d.pumped b frames m).pumpBy (b m) (frames m)).1 = true) ∧
      ∀ m, n ≤ m → (d.pumped b frames m).Stopped ∧
        ((d.pumped b frames m).pumpBy (b m) (frames m)).1 = false) ∧
    ∀ storage input drive start length e₁ e₂, openImage storage input attached = .ok (drive, e₁) →
      drive.play start length e₁ = (.ok (), e₂) → ∀ k, 1 ≤ k →
        ∃ n, (∀ times, n ≤ times → e₂.pumpTimes k 0 times = (n, e₂.playOut k)) ∧
          (e₂.playOut k).Stopped := by
  intro d
  have hd : d.Sounding := ⟨Wired.new.runBy calls, hplaying, hunpaused⟩
  refine ⟨fun n hn => ?_, ?_, ?_⟩
  · have hstep := pumped_succ (d := d) (b := b) hframes (n := n)
    rcases pumped_cases (b := b) hd hframes n with hsounding | hstopped
    · rcases hstep.1 hsounding with hstopped | ⟨-, hnearer⟩
      · rw [hstopped.playing] at hn
        cases hn
      · exact hnearer
    · rw [(hstep.2 hstopped).playing] at hn
      cases hn
  · classical
    have hexists := exists_stopped (b := b) hd hframes
    refine ⟨Nat.find hexists, fun m hm => ?_, fun m hm => ?_⟩
    · have hsounding := (pumped_cases hd hframes m).resolve_right (Nat.find_min hexists hm)
      rw [hsounding.pumpBy]
    · have hstopped := pumped_stays hframes hm (Nat.find_spec hexists)
      exact ⟨hstopped, by rw [hstopped.pumpBy]⟩
  · intro storage input drive start length e₁ e₂ hopen hplay k hk
    have hwired := wired_openImage Wired.new hopen
    simp only [Drive.play, Prod.mk.injEq] at hplay
    obtain ⟨hok, rfl⟩ := hplay
    have haccepted : (e₁.play drive.medium start length).1 = .ok () := by
      cases hresult : (e₁.play drive.medium start length).1 with
      | ok => rfl
      | error failure =>
          rw [hresult] at hok
          cases hok
    obtain ⟨n, htimes, hstopped⟩ := (sounding_of_play hwired haccepted).playOut hk
    exact ⟨n, fun times hlt => by simpa using htimes 0 times hlt, hstopped⟩

/-- Sources that can be positioned and never give sound. -/
def Behaviour.silent : Behaviour := ⟨fun c _ _ => (.ok (), c), fun c _ _ => (⟨0, []⟩, c)⟩

/-- Both of two files are asked for, and some frames of the first are played. -/
def Deck.intoFirstFile : List (Behaviour × Call) :=
  [(.actual, .elsewhere ⟨[0, 0]⟩), (.actual, .play ⟨0, .twoFiles⟩ 0 2), (.actual, .pull 1)]

/-- Playing ends with sources that fall silent at every other pump. -/
theorem Deck.pumped_ends_silent :
    (attached.runBy intoFirstFile).player.playing = true ∧
    (attached.runBy intoFirstFile).player.paused = false ∧ (∀ n : Nat, 1 ≤ n + 1) ∧
    ∃ n, ((attached.runBy intoFirstFile).pumped
      (fun n => if n % 2 = 0 then .silent else .actual) (· + 1) n).Stopped := by
  have hplaying : (attached.runBy intoFirstFile).player.playing = true := by decide +kernel
  have hunpaused : (attached.runBy intoFirstFile).player.paused = false := by decide +kernel
  obtain ⟨-, ⟨n, -, hstopped⟩, -⟩ := pumped_ends intoFirstFile hplaying hunpaused
    (fun n => if n % 2 = 0 then .silent else .actual) (· + 1) (fun n => Nat.le_add_left 1 n)
  exact ⟨hplaying, hunpaused, fun n => Nat.le_add_left 1 n, n, (hstopped n (Nat.le_refl n)).1⟩

end CompactDisc
