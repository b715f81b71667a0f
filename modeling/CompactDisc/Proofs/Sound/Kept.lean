import CompactDisc.Proofs.Drive.Undisturbed

/-!
# CompactDisc.Proofs.Sound.Kept

**What an operation of the player leaves alone.** No operation gives the player another channel,
connects or disconnects one, opens a source or makes a medium (`Deck.Keeps`). And whatever is held after
an operation is the disc that was held before or the one that was asked for: a pull that goes on with
another source stays on the same disc (`Deck.Holds`).
-/

namespace CompactDisc

/-- A segment that is played from a source of its disc. -/
def Segment.Sourced (s : Segment) : Prop := ∃ t ∈ s.medium.disc.tracks, t.source = some s.source

namespace Deck

/-- What stays the same: the number of the player's channel, the channels there are and those that are
connected, and how many sources were opened and media made. -/
structure Keeps (d e : Deck) : Prop where
  channel : e.player.channel = d.player.channel
  connected : e.mixer.connected = d.mixer.connected
  channels : e.mixer.channels.length = d.mixer.channels.length
  opened : e.cursors.positions.length = d.cursors.positions.length
  media : e.media = d.media

/-- The disc that the player holds. -/
def held? (d : Deck) : Option Nat := d.player.segment.map fun s => s.medium.id

/-- If anything is held, it is a disc of the given kind, and one of its sources. -/
def Holds (d : Deck) (P : Medium → Prop) : Prop :=
  ∀ s, d.player.segment = some s → P s.medium ∧ s.Sourced

variable {d e : Deck} {P Q : Medium → Prop} {id : Nat}

/-! ### Channels, sources and media -/

theorem Keeps.refl (d : Deck) : d.Keeps d := ⟨rfl, rfl, rfl, rfl, rfl⟩

theorem Keeps.trans {f : Deck} (h : d.Keeps e) (h' : e.Keeps f) : d.Keeps f where
  channel := h'.channel.trans h.channel
  connected := h'.connected.trans h.connected
  channels := h'.channels.trans h.channels
  opened := h'.opened.trans h.opened
  media := h'.media.trans h.media

theorem Keeps.onChannel (h : d.Keeps e) (f : Channel → Channel) : d.Keeps (e.onChannel f) := by
  unfold Deck.onChannel
  split
  · exact h
  · exact ⟨h.channel, h.connected, by simpa [Mixer.modify] using h.channels, h.opened, h.media⟩

theorem keeps_stop (d : Deck) : d.Keeps d.stop := by
  unfold stop enable
  refine Keeps.onChannel ?_ _
  exact ⟨rfl, rfl, rfl, rfl, rfl⟩

theorem keeps_pause (d : Deck) (resume : Bool) : d.Keeps (d.pause resume) := by
  unfold pause enable
  refine Keeps.onChannel ?_ _
  exact ⟨rfl, rfl, rfl, rfl, rfl⟩

theorem keeps_control (d : Deck) (volume map : Sides UInt8) : d.Keeps (d.control volume map) :=
  (Keeps.refl d).onChannel _

theorem keeps_release (d : Deck) (id : Nat) : d.Keeps (d.release id) := by
  unfold release
  split
  · exact .refl d
  · split
    · exact (keeps_stop d).trans ⟨rfl, rfl, rfl, rfl, rfl⟩
    · exact .refl d

theorem keeps_play (d : Deck) (medium : Medium) (start length : Nat) :
    d.Keeps (d.play medium start length).2 := by
  rcases play_cases d medium start length with hok | ⟨-, hstop⟩
  · obtain ⟨plan, -, -, hbegan⟩ := play_ok_iff.mp hok
    rw [hbegan]
    unfold began
    refine Keeps.onChannel ?_ _
    exact ⟨rfl, rfl, rfl, Cursors.length_set _ _ _, rfl⟩
  · rw [hstop]
    exact keeps_stop d

theorem keeps_proceed (d : Deck) (s : Segment) (n : Nat) : d.Keeps (d.proceed s n) := by
  unfold proceed
  split
  · exact keeps_stop d
  · split
    · exact .refl d
    · split
      · exact keeps_stop d
      · exact keeps_play d _ _ _

theorem keeps_pull (d : Deck) (frames : Nat) : d.Keeps (d.pull frames) := by
  rcases pull_cases d frames with hidle | ⟨s, hframes, hplaying, hpaused, hsegment, hchannel⟩
  · rw [hidle]
    exact .refl d
  · rw [pull_of_active hframes hplaying hpaused hsegment hchannel]
    have hsounded : d.Keeps (d.sounded s frames) := by
      unfold sounded
      refine Keeps.onChannel ?_ _
      exact ⟨rfl, rfl, rfl, Cursors.length_set _ _ _, rfl⟩
    exact hsounded.trans (keeps_proceed _ _ _)

theorem keeps_pump (d : Deck) (frames : Nat) : d.Keeps (d.pump frames).2 := by
  unfold pump
  split
  · exact keeps_pull d frames
  · exact .refl d

theorem keeps_drain (d : Deck) : d.Keeps d.drain.2 := by
  unfold drain
  split
  · exact .refl d
  · exact ⟨rfl, rfl, by simp [Mixer.drain, Mixer.modify], rfl, rfl⟩

theorem keeps_readSector (d : Deck) (drive : Drive) (buffer : List UInt8) (raw : Bool)
    (sector : Nat) :
    d.Keeps { d with cursors := (drive.readSector buffer raw sector d.cursors).2.2 } := by
  refine ⟨rfl, rfl, rfl, ?_, rfl⟩
  show (drive.readSector buffer raw sector d.cursors).2.2.positions.length = _
  rw [Drive.cursors_readSector]
  split
  · rfl
  · exact Drive.length_sector drive raw sector d.cursors

theorem keeps_readSectors (d : Deck) (drive : Drive) (buffer : List UInt8) (raw : Bool)
    (sector count : Nat) :
    d.Keeps { d with cursors := (drive.readSectors buffer raw sector count d.cursors).2.2 } := by
  refine ⟨rfl, rfl, rfl, ?_, rfl⟩
  show (drive.readSectors buffer raw sector count d.cursors).2.2.positions.length = _
  unfold Drive.readSectors
  dsimp only
  split
  · rfl
  · exact Drive.length_readSlots d.cursors

/-! ### The disc that is held -/

/-- A disc that is held is stopped and forgotten when it is released. -/
theorem release_of_held (h : d.held? = some id) :
    d.release id = { d.stop with player := { d.stop.player with segment := none } } := by
  obtain ⟨s, hsegment, hid⟩ := Option.map_eq_some_iff.mp h
  rw [release, hsegment]
  exact if_pos hid

theorem release_of_other (h : d.held? ≠ some id) : d.release id = d := by
  unfold release
  cases hsegment : d.player.segment with
  | none => rfl
  | some s =>
      refine if_neg fun hid => h ?_
      rw [held?, hsegment, ← hid]
      rfl

/-- Nothing is reported of a disc that is not held. -/
theorem position_of_other (h : d.held? ≠ some id) : d.position id = none := by
  unfold position
  cases hsegment : d.player.segment with
  | none => rfl
  | some s =>
      refine if_neg fun hid => h ?_
      rw [held?, hsegment, ← hid.1]
      rfl

theorem Holds.mono (h : d.Holds P) (hPQ : ∀ m, P m → Q m) : d.Holds Q :=
  fun s hs => ⟨hPQ _ (h s hs).1, (h s hs).2⟩

theorem Holds.congr (h : d.Holds P) (hsegment : e.player.segment = d.player.segment) : e.Holds P :=
  fun s hs => h s (hsegment.symm.trans hs)

theorem Holds.stop (h : d.Holds P) : d.stop.Holds P := h.congr (segment_stop d)

theorem Holds.pause (h : d.Holds P) (resume : Bool) : (d.pause resume).Holds P := by
  refine h.congr ?_
  rw [player_pause]

theorem Holds.control (h : d.Holds P) (volume map : Sides UInt8) :
    (d.control volume map).Holds P := by
  refine h.congr ?_
  rw [player_control]

theorem Holds.held?_ne (h : d.Holds P) (hid : ∀ m, P m → m.id ≠ id) : d.held? ≠ some id := by
  intro hheld
  obtain ⟨s, hsegment, rfl⟩ := Option.map_eq_some_iff.mp hheld
  exact hid _ (h s hsegment).1 rfl

/-- A disc that is released is not held any more. -/
theorem Holds.release (h : d.Holds P) (id : Nat) :
    (d.release id).Holds fun m => P m ∧ m.id ≠ id := by
  by_cases hheld : d.held? = some id
  · rw [release_of_held hheld]
    exact nofun
  · rw [release_of_other hheld]
    intro s hsegment
    refine ⟨⟨(h s hsegment).1, fun hid => hheld ?_⟩, (h s hsegment).2⟩
    rw [held?, hsegment, ← hid]
    rfl

/-- Nothing happens when a disc is released that is not held. -/
theorem Holds.release_eq (h : d.Holds P) (hid : ∀ m, P m → m.id ≠ id) : d.release id = d :=
  release_of_other (h.held?_ne hid)

theorem Holds.play (h : d.Holds P) {medium : Medium} (hmedium : P medium) (start length : Nat) :
    (d.play medium start length).2.Holds P := by
  rcases play_cases d medium start length with hok | ⟨-, hstop⟩
  · obtain ⟨plan, hfind, -, hbegan⟩ := play_ok_iff.mp hok
    obtain ⟨-, -, t, s, ht, -, hs, -, rfl⟩ := Plan.find_ok_iff.mp hfind
    intro segment hsegment
    rw [hbegan, player_began] at hsegment
    cases hsegment
    exact ⟨hmedium, t, Disc.mem_of_track? ht, hs⟩
  · rw [hstop]
    exact h.congr (segment_stop d)

theorem Holds.proceed (h : d.Holds P) {s : Segment} (hs : P s.medium) (n : Nat) :
    (d.proceed s n).Holds P := by
  unfold Deck.proceed
  split
  · exact h.stop
  · split
    · exact h
    · split
      · exact h.stop
      · exact h.play hs _ _

theorem Holds.pull (h : d.Holds P) (frames : Nat) : (d.pull frames).Holds P := by
  rcases pull_cases d frames with hidle | ⟨s, hframes, hplaying, hpaused, hsegment, hchannel⟩
  · rw [hidle]
    exact h
  · rw [pull_of_active hframes hplaying hpaused hsegment hchannel]
    have hsounded : (d.sounded s frames).Holds P := by
      intro s' hs'
      rw [player_sounded] at hs'
      cases hs'
      exact h s hsegment
    refine hsounded.proceed ?_ _
    exact (h s hsegment).1

theorem Holds.pump (h : d.Holds P) (frames : Nat) : (d.pump frames).2.Holds P := by
  unfold Deck.pump
  split
  · exact h.pull frames
  · exact h

theorem Holds.drain (h : d.Holds P) : d.drain.2.Holds P := by
  refine h.congr ?_
  unfold Deck.drain
  split
  · rfl
  · rfl

end Deck

end CompactDisc
