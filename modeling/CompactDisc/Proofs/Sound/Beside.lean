import CompactDisc.Proofs.Disc.Openings
import CompactDisc.Proofs.Sound.Kept

/-!
# CompactDisc.Proofs.Sound.Beside

**Working beside other sources.** A deck on which more sources were opened and more media made, by
others, does the same as without them (`Deck.beside`): whatever it does, it does to the sources that it
knows, and those that were opened later keep their cursors.

Proof shape: each operation commutes with `Deck.beside`. Where a source is used this is
`Cursors.use_append`, and all else is carried along.
-/

namespace CompactDisc

namespace Deck

/-- A deck beside sources that were opened after its own, with media that were made since. -/
def beside (d : Deck) (more : List Nat) (media : Nat) : Deck :=
  { d with cursors := d.cursors.append more, media }

variable {d : Deck} (more : List Nat) (media : Nat)

/-! ### The player -/

theorem onChannel_beside (d : Deck) (f : Channel → Channel) :
    (d.beside more media).onChannel f = (d.onChannel f).beside more media := by
  unfold onChannel beside
  dsimp only
  cases d.player.channel with
  | none => rfl
  | some id => rfl

theorem stop_beside (d : Deck) : (d.beside more media).stop = d.stop.beside more media := by
  unfold stop enable
  exact onChannel_beside more media { d with player := _ } _

theorem pause_beside (d : Deck) (resume : Bool) :
    (d.beside more media).pause resume = (d.pause resume).beside more media := by
  unfold pause enable
  exact onChannel_beside more media { d with player := _ } _

theorem control_beside (d : Deck) (volume map : Sides UInt8) :
    (d.beside more media).control volume map = (d.control volume map).beside more media :=
  onChannel_beside more media d _

/-- A request is for sources that are open. -/
theorem play_beside {medium : Medium} (hopen : medium.disc.OpenIn d.cursors) (start length : Nat) :
    (d.beside more media).play medium start length =
      ((d.play medium start length).1, (d.play medium start length).2.beside more media) := by
  unfold play beginSegment
  rw [show (d.beside more media).player = d.player from rfl]
  cases hfind : Plan.find medium.disc d.player.channel.isSome start length with
  | error e => exact congrArg (Prod.mk _) (stop_beside more media d)
  | ok plan =>
      obtain ⟨-, -, t, s, ht, -, hs, -, hplan⟩ := Plan.find_ok_iff.mp hfind
      have hid : plan.source.id < d.cursors.positions.length := by
        rw [hplan]
        exact hopen t (Disc.mem_of_track? ht) s hs
      have hseek : (d.beside more media).cursors.seek plan.source plan.offset =
          ((d.cursors.seek plan.source plan.offset).1,
            (d.cursors.seek plan.source plan.offset).2.append more) :=
        Cursors.use_append hid more _
      dsimp only
      rw [hseek]
      rcases d.cursors.seek plan.source plan.offset with ⟨e | ⟨⟩, cursors⟩
      · exact congrArg (Prod.mk _) (stop_beside more media { d with cursors })
      · exact congrArg (Prod.mk _) (onChannel_beside more media { d with cursors, player := _ } _)

theorem proceed_beside {s : Segment} (hopen : s.medium.disc.OpenIn d.cursors) (n : Nat) :
    (d.beside more media).proceed s n = (d.proceed s n).beside more media := by
  unfold proceed
  split
  · exact stop_beside more media d
  · split
    · rfl
    · split
      · exact stop_beside more media d
      · rw [play_beside more media hopen]

/-- A pull that is answered uses a source of the disc that is held. -/
theorem pull_active_beside {s : Segment} {frames : Nat} (hopen : s.medium.disc.OpenIn d.cursors)
    (hsourced : s.Sourced) (hframes : 0 < frames) (hplaying : d.player.playing = true)
    (hpaused : d.player.paused = false) (hsegment : d.player.segment = some s)
    (hchannel : d.player.channel.isSome = true) :
    (d.beside more media).pull frames = (d.pull frames).beside more media := by
  obtain ⟨t, ht, hs⟩ := hsourced
  have hdecode : (d.beside more media).cursors.decode s.source frames =
      ((d.cursors.decode s.source frames).1, (d.cursors.decode s.source frames).2.append more) :=
    Cursors.use_append (hopen t ht s.source hs) more _
  have hsounded : (d.beside more media).sounded s frames =
      (d.sounded s frames).beside more media := by
    unfold sounded
    rw [hdecode]
    exact onChannel_beside more media { d with cursors := _, player := _ } _
  have hopen' : s.medium.disc.OpenIn (d.sounded s frames).cursors := by
    rw [cursors_sounded]
    exact openIn_use hopen
  rw [pull_of_active hframes hplaying hpaused hsegment hchannel,
    pull_of_active (d := d.beside more media) hframes hplaying hpaused hsegment hchannel, hsounded,
    hdecode]
  refine proceed_beside more media ?_ _
  exact hopen'

theorem pull_beside (h : d.Holds fun m => m.disc.OpenIn d.cursors) (frames : Nat) :
    (d.beside more media).pull frames = (d.pull frames).beside more media := by
  rcases pull_cases d frames with hidle | ⟨s, hframes, hplaying, hpaused, hsegment, hchannel⟩
  · rcases pull_cases (d.beside more media) frames with
      hidle' | ⟨s, hframes, hplaying, hpaused, hsegment, hchannel⟩
    · rw [hidle, hidle']
    · exact pull_active_beside more media (h s hsegment).1 (h s hsegment).2 hframes hplaying hpaused
        hsegment hchannel
  · exact pull_active_beside more media (h s hsegment).1 (h s hsegment).2 hframes hplaying hpaused
      hsegment hchannel

theorem pump_beside (h : d.Holds fun m => m.disc.OpenIn d.cursors) (frames : Nat) :
    (d.beside more media).pump frames =
      ((d.pump frames).1, (d.pump frames).2.beside more media) := by
  unfold pump
  rw [show (d.beside more media).channel? = d.channel? from rfl]
  split
  · rw [pull_beside more media h]
  · rfl

theorem drain_beside (d : Deck) :
    (d.beside more media).drain = (d.drain.1, d.drain.2.beside more media) := by
  unfold drain
  rw [show (d.beside more media).player = d.player from rfl]
  cases d.player.channel with
  | none => rfl
  | some id => rfl

end Deck

/-! ### Sectors -/

namespace Drive

variable {drive : Drive} {cursors : Cursors}

theorem sector_append (hopen : drive.disc.OpenIn cursors) (raw : Bool) (sector : Nat)
    (more : List Nat) :
    drive.sector raw sector (cursors.append more) =
      ((drive.sector raw sector cursors).1, (drive.sector raw sector cursors).2.append more) := by
  unfold Drive.sector
  dsimp only
  cases ht : drive.disc.track? sector with
  | none => rfl
  | some t =>
      dsimp only
      cases hs : t.source with
      | none => rfl
      | some s =>
          dsimp only
          split
          · rfl
          · split
            · rfl
            · unfold Cursors.read
              rw [Cursors.use_append (hopen t (Disc.mem_of_track? ht) s hs) more]

theorem readSector_append (hopen : drive.disc.OpenIn cursors) (buffer : List UInt8) (raw : Bool)
    (sector : Nat) (more : List Nat) :
    drive.readSector buffer raw sector (cursors.append more) =
      ((drive.readSector buffer raw sector cursors).1,
        (drive.readSector buffer raw sector cursors).2.1,
        (drive.readSector buffer raw sector cursors).2.2.append more) := by
  unfold readSector
  dsimp only
  split
  · rfl
  · rw [sector_append hopen raw sector more]
    rcases drive.sector raw sector cursors with ⟨e | bytes, cursors'⟩
    · rfl
    · rfl

theorem readSlots_append (hopen : drive.disc.OpenIn cursors) (raw : Bool) (buffer : List UInt8)
    (sector count : Nat) (more : List Nat) :
    drive.readSlots raw buffer sector (cursors.append more) count =
      ((drive.readSlots raw buffer sector cursors count).1,
        (drive.readSlots raw buffer sector cursors count).2.1,
        (drive.readSlots raw buffer sector cursors count).2.2.append more) := by
  induction count generalizing buffer sector cursors with
  | zero => rfl
  | succ count ih =>
      unfold readSlots
      split
      · rfl
      · dsimp only
        rw [sector_append hopen raw sector more]
        have hlength := length_sector drive raw sector cursors
        rcases hsector : drive.sector raw sector cursors with ⟨e | bytes, cursors'⟩
        · rfl
        · rw [hsector] at hlength
          have hopen' : drive.disc.OpenIn cursors' := hopen.of_le (Nat.le_of_eq hlength.symm)
          dsimp only
          rw [ih hopen']

theorem readSectors_append (hopen : drive.disc.OpenIn cursors) (buffer : List UInt8) (raw : Bool)
    (sector count : Nat) (more : List Nat) :
    drive.readSectors buffer raw sector count (cursors.append more) =
      ((drive.readSectors buffer raw sector count cursors).1,
        (drive.readSectors buffer raw sector count cursors).2.1,
        (drive.readSectors buffer raw sector count cursors).2.2.append more) := by
  unfold readSectors
  dsimp only
  split
  · rfl
  · exact readSlots_append hopen raw buffer sector count more

end Drive

end CompactDisc
