import CompactDisc.Proofs.Drive.Sectors
import CompactDisc.Proofs.Source.Decode

/-!
# CompactDisc.Proofs.Drive.Undisturbed

**Reading sectors while a disc plays.** Sectors and sound are taken from the same sources, and a
source has one cursor. A request moves the cursor of its source once, and from then on every pull
goes on where the cursor stands. So a read of another source is never heard (`Drive.Spared`), and
after a read of the source that is playing the sound goes on behind the bytes that were read.

Proof shape: two decks are `Alike` if they differ in nothing but the cursors of sources that are not
played. A request positions its source, so whatever the cursors were, what comes after it is alike
(`Alike.play`), and so is what comes after a pump (`Alike.pump`). A read that spares the source that
is played leads to a deck that is like the one before (`alike_moment`).
-/

namespace CompactDisc

/-- What happens to a drive while it plays. -/
inductive Moment where
  | pump (frames : Nat)
  | readSector (buffer : List UInt8) (raw : Bool) (sector : Nat)
  | readSectors (buffer : List UInt8) (raw : Bool) (sector count : Nat)

namespace Moment

def isPump : Moment → Bool
  | pump _ => true
  | _ => false

/-- The sectors that may be looked at, each with whether it is read raw. -/
def sectors : Moment → List (Bool × Nat)
  | pump _ => []
  | readSector buffer raw sector =>
    if buffer.length < Sector.readSize raw then [] else [(raw, sector)]
  | readSectors buffer raw sector count =>
    if buffer.length < Sector.readSize raw * count then []
    else (List.range' sector count).map fun n => (raw, n)

end Moment

/-- The source that is being played, paused or not. -/
def Deck.sounding? (d : Deck) : Option Nat :=
  if d.player.playing then d.player.segment.map (·.source.id) else none

/-- Decks that differ in nothing but the cursors of sources that are not played. -/
structure Deck.Alike (d e : Deck) : Prop where
  player : d.player = e.player
  mixer : d.mixer = e.mixer
  known : d.cursors.positions.length = e.cursors.positions.length
  cursor : ∀ id ∈ d.sounding?, d.cursors.get id = e.cursors.get id

namespace Drive

/-- The source in which the bytes of a sector are looked for, and where, if reading it gets that
far. -/
def reached? (drive : Drive) (raw : Bool) (sector : Nat) : Option (Source × Nat) :=
  (drive.disc.track? sector).bind fun t =>
    if (raw = true ∧ t.sectorSize ≠ 2352) ∨ sector < t.start then none
    else t.source.map fun s => (s, t.byteOf raw sector)

/-- The sources in which bytes may be looked for. -/
def touched (drive : Drive) (m : Moment) : List Nat :=
  m.sectors.filterMap fun p => (drive.reached? p.1 p.2).map (·.1.id)

/-- What a moment makes of a deck, and the answer if it is a pump. -/
def moment (drive : Drive) (d : Deck) : Moment → Option Bool × Deck
  | .pump frames => ((d.pump frames).1, (d.pump frames).2)
  | .readSector buffer raw sector =>
    (none, { d with cursors := (drive.readSector buffer raw sector d.cursors).2.2 })
  | .readSectors buffer raw sector count =>
    (none, { d with cursors := (drive.readSectors buffer raw sector count d.cursors).2.2 })

/-- Moments one after another, with the answers of the pumps. -/
def happen (drive : Drive) (d : Deck) : List Moment → List Bool × Deck
  | [] => ([], d)
  | m :: ms =>
    ((drive.moment d m).1.toList ++ (drive.happen (drive.moment d m).2 ms).1,
      (drive.happen (drive.moment d m).2 ms).2)

/-- Nothing is ever read of the source that is played at the time. -/
def Spared (drive : Drive) (d : Deck) : List Moment → Prop
  | [] => True
  | m :: ms =>
    (∀ id ∈ d.sounding?, id ∉ drive.touched m) ∧ drive.Spared (drive.moment d m).2 ms

instance decidableSpared (drive : Drive) :
    (d : Deck) → (ms : List Moment) → Decidable (drive.Spared d ms)
  | _, [] => inferInstanceAs (Decidable True)
  | d, m :: ms =>
    have := decidableSpared drive (drive.moment d m).2 ms
    inferInstanceAs (Decidable ((∀ id ∈ d.sounding?, id ∉ drive.touched m) ∧ _))

end Drive

/-! ### Alike decks -/

/-- Where a source is moved to does not depend on where the others are. -/
theorem Cursors.get_set_congr {c c' : Cursors} (h : c.positions.length = c'.positions.length)
    (id position : Nat) : (c.set id position).get id = (c'.set id position).get id := by
  rcases Nat.lt_or_ge id c.positions.length with hid | hid
  · rw [get_set_self _ hid, get_set_self _ (h ▸ hid)]
  · have hout : ∀ c : Cursors, c.positions.length ≤ id → (c.set id position).get id = 0 := by
      intro c hc
      simp [get, set, hc]
    rw [hout c hid, hout c' (h ▸ hid)]

namespace Deck.Alike

variable {d e : Deck}

theorem refl (d : Deck) : d.Alike d := ⟨rfl, rfl, rfl, fun _ _ => rfl⟩

theorem sounding?_eq (h : d.Alike e) : d.sounding? = e.sounding? := by
  unfold sounding?
  rw [h.player]

theorem symm (h : d.Alike e) : e.Alike d :=
  ⟨h.player.symm, h.mixer.symm, h.known.symm,
    fun id hid => (h.cursor id (h.sounding?_eq ▸ hid)).symm⟩

theorem trans {f : Deck} (h : d.Alike e) (h' : e.Alike f) : d.Alike f :=
  ⟨h.player.trans h'.player, h.mixer.trans h'.mixer, h.known.trans h'.known,
    fun id hid => (h.cursor id hid).trans (h'.cursor id (h.sounding?_eq ▸ hid))⟩

theorem channel?_eq (h : d.Alike e) : d.channel? = e.channel? := by
  unfold channel?
  rw [h.player, h.mixer]

theorem stop (h : d.Alike e) : d.stop.Alike e.stop where
  player := by rw [player_stop, player_stop, h.player]
  mixer := by
    refine mixer_onChannel_congr ?_ ?_ _
    · rw [h.player]
    · exact h.mixer
  known := by rw [cursors_stop, cursors_stop, h.known]
  cursor id hid := by
    -- nothing is played any more
    unfold sounding? at hid
    rw [playing_stop] at hid
    cases hid

/-- Where a plan begins does not depend on where its source was before. -/
theorem began (h : d.Alike e) (medium : Medium) {plan : Plan}
    (hseek : (d.cursors.seek plan.source plan.offset).1 = .ok ()) :
    (e.cursors.seek plan.source plan.offset).1 = .ok () ∧
      (d.began medium plan).Alike (e.began medium plan) := by
  have hsame : plan.source.seek plan.offset (e.cursors.get plan.source.id) =
      plan.source.seek plan.offset (d.cursors.get plan.source.id) := Source.seek_ok hseek
  refine ⟨(congrArg Prod.fst hsame).trans hseek, ⟨?_, ?_, ?_, fun id hid => ?_⟩⟩
  · rw [player_began, player_began, h.player]
  · refine mixer_onChannel_congr ?_ ?_ _
    · rw [h.player]
    · exact h.mixer
  · rw [cursors_began, cursors_began]
    unfold Cursors.seek Cursors.use
    rw [Cursors.length_set, Cursors.length_set, h.known]
  · obtain rfl : plan.source.id = id := by
      unfold sounding? at hid
      rw [player_began] at hid
      exact Option.some.inj hid
    rw [cursors_began, cursors_began]
    unfold Cursors.seek Cursors.use
    rw [hsame]
    exact Cursors.get_set_congr h.known _ _

theorem play_ok (h : d.Alike e) {medium : Medium} {start length : Nat}
    (hok : (d.play medium start length).1 = .ok ()) :
    (e.play medium start length).1 = .ok () ∧
      (d.play medium start length).2.Alike (e.play medium start length).2 := by
  obtain ⟨plan, hfind, hseek, hbegan⟩ := play_ok_iff.mp hok
  obtain ⟨hseek', halike⟩ := h.began medium hseek
  rw [h.player] at hfind
  rw [play_of_plan hfind hseek', hbegan]
  exact ⟨rfl, halike⟩

theorem play (h : d.Alike e) (medium : Medium) (start length : Nat) :
    (d.play medium start length).2.Alike (e.play medium start length).2 := by
  rcases play_cases d medium start length with hok | ⟨-, hstop⟩
  · exact (h.play_ok hok).2
  · rcases play_cases e medium start length with hok | ⟨-, hstop'⟩
    · exact (h.symm.play_ok hok).2.symm
    · rw [hstop, hstop']
      exact h.stop

theorem proceed (h : d.Alike e) (s : Segment) (n : Nat) : (d.proceed s n).Alike (e.proceed s n) := by
  unfold Deck.proceed
  split
  · exact h.stop
  · split
    · exact h
    · split
      · exact h.stop
      · exact h.play _ _ _

/-- A pull that one of two alike decks answers. -/
theorem pull_active (h : d.Alike e) {s : Segment} {frames : Nat} (hframes : 0 < frames)
    (hplaying : d.player.playing = true) (hpaused : d.player.paused = false)
    (hsegment : d.player.segment = some s) (hchannel : d.player.channel.isSome = true) :
    (d.pull frames).Alike (e.pull frames) := by
  have hcursor : d.cursors.get s.source.id = e.cursors.get s.source.id := by
    refine h.cursor _ ?_
    unfold sounding?
    rw [hplaying, hsegment]
    rfl
  have hsound : (d.cursors.decode s.source frames).1 = (e.cursors.decode s.source frames).1 := by
    unfold Cursors.decode Cursors.use
    rw [hcursor]
  have hsounded : (d.sounded s frames).Alike (e.sounded s frames) := by
    refine ⟨?_, ?_, ?_, fun id hid => ?_⟩
    · rw [player_sounded, player_sounded, h.player, hsound]
    · unfold sounded
      rw [hsound]
      refine mixer_onChannel_congr ?_ ?_ _
      · rw [h.player]
      · exact h.mixer
    · rw [cursors_sounded, cursors_sounded]
      unfold Cursors.decode Cursors.use
      rw [Cursors.length_set, Cursors.length_set, h.known]
    · obtain rfl : s.source.id = id := by
        unfold sounding? at hid
        rw [player_sounded, if_pos hplaying] at hid
        exact Option.some.inj hid
      rw [cursors_sounded, cursors_sounded]
      unfold Cursors.decode Cursors.use
      rw [hcursor]
      exact Cursors.get_set_congr h.known _ _
  rw [pull_of_active hframes hplaying hpaused hsegment hchannel]
  rw [h.player] at hplaying hpaused hsegment hchannel
  rw [pull_of_active hframes hplaying hpaused hsegment hchannel, hsound]
  exact hsounded.proceed _ _

theorem pull (h : d.Alike e) (frames : Nat) : (d.pull frames).Alike (e.pull frames) := by
  rcases pull_cases d frames with hidle | ⟨s, hframes, hplaying, hpaused, hsegment, hchannel⟩
  · rcases pull_cases e frames with hidle' | ⟨s, hframes, hplaying, hpaused, hsegment, hchannel⟩
    · rw [hidle, hidle']
      exact h
    · exact (h.symm.pull_active hframes hplaying hpaused hsegment hchannel).symm
  · exact h.pull_active hframes hplaying hpaused hsegment hchannel

theorem pump (h : d.Alike e) (frames : Nat) :
    (d.pump frames).1 = (e.pump frames).1 ∧ (d.pump frames).2.Alike (e.pump frames).2 := by
  unfold Deck.pump
  rw [h.channel?_eq]
  split
  · exact ⟨rfl, h.pull frames⟩
  · exact ⟨rfl, h⟩

end Deck.Alike

/-! ### Reads -/

namespace Drive

variable {drive : Drive} {raw : Bool} {id : Nat}

theorem cursors_sector (drive : Drive) (raw : Bool) (sector : Nat) (cursors : Cursors) :
    (drive.sector raw sector cursors).2 = (drive.reached? raw sector).elim cursors
      fun p => (cursors.read p.1 p.2 (Sector.readSize raw)).2 := by
  unfold Drive.sector reached?
  cases drive.disc.track? sector with
  | none => rfl
  | some t =>
      rw [Option.bind_some]
      dsimp only
      cases t.source with
      | none =>
          rw [Option.map_none, ite_self]
          rfl
      | some s =>
          dsimp only
          rw [show RedBook.rawSectorSize = 2352 from rfl]
          by_cases hraw : raw = true ∧ t.sectorSize ≠ 2352
          · rw [if_pos hraw, if_pos (Or.inl hraw)]
            rfl
          · rw [if_neg hraw]
            by_cases hgap : sector < t.start
            · rw [if_pos hgap, if_pos (Or.inr hgap)]
              rfl
            · have hreach : ¬ ((raw = true ∧ t.sectorSize ≠ 2352) ∨ sector < t.start) :=
                not_or.mpr ⟨hraw, hgap⟩
              rw [if_neg hgap, if_neg hreach]
              rfl

/-- Reading a sector leaves the cursors of all sources but the one that it reaches. -/
theorem get_sector {sector : Nat} (cursors : Cursors)
    (h : ∀ p ∈ drive.reached? raw sector, p.1.id ≠ id) :
    (drive.sector raw sector cursors).2.get id = cursors.get id := by
  rw [cursors_sector]
  cases hreached : drive.reached? raw sector with
  | none => rfl
  | some p => exact Cursors.get_use_ne _ (h p hreached)

theorem length_sector (drive : Drive) (raw : Bool) (sector : Nat) (cursors : Cursors) :
    (drive.sector raw sector cursors).2.positions.length = cursors.positions.length := by
  rw [cursors_sector]
  cases drive.reached? raw sector with
  | none => rfl
  | some p => exact Cursors.length_set _ _ _

theorem cursors_readSector {buffer : List UInt8} {sector : Nat} {cursors : Cursors} :
    (drive.readSector buffer raw sector cursors).2.2 =
      if buffer.length < Sector.readSize raw then cursors
      else (drive.sector raw sector cursors).2 := by
  unfold readSector
  dsimp only
  split
  · rfl
  · rcases drive.sector raw sector cursors with ⟨e | bytes, cursors'⟩
    · rfl
    · rfl

theorem get_readSlots {buffer : List UInt8} {sector count : Nat} (cursors : Cursors)
    (h : ∀ n ∈ List.range' sector count, ∀ p ∈ drive.reached? raw n, p.1.id ≠ id) :
    (drive.readSlots raw buffer sector cursors count).2.2.get id = cursors.get id := by
  induction count generalizing buffer sector cursors with
  | zero => rfl
  | succ count ih =>
      rw [List.range'_succ, List.forall_mem_cons] at h
      unfold readSlots
      split
      · rfl
      · have hfirst := get_sector cursors h.1
        rcases hsector : drive.sector raw sector cursors with ⟨e | bytes, cursors'⟩
        · rw [hsector] at hfirst
          exact hfirst
        · rw [hsector] at hfirst
          exact (ih cursors' h.2).trans hfirst

theorem length_readSlots {buffer : List UInt8} {sector count : Nat} (cursors : Cursors) :
    (drive.readSlots raw buffer sector cursors count).2.2.positions.length =
      cursors.positions.length := by
  induction count generalizing buffer sector cursors with
  | zero => rfl
  | succ count ih =>
      unfold readSlots
      split
      · rfl
      · have hfirst := length_sector drive raw sector cursors
        rcases hsector : drive.sector raw sector cursors with ⟨e | bytes, cursors'⟩
        · rw [hsector] at hfirst
          exact hfirst
        · rw [hsector] at hfirst
          exact (ih cursors').trans hfirst

/-- A read makes no difference if it spares the source that is played. -/
theorem alike_moment {d : Deck} {m : Moment} (hread : m.isPump = false)
    (h : ∀ id ∈ d.sounding?, id ∉ drive.touched m) :
    (drive.moment d m).1 = none ∧ (drive.moment d m).2.Alike d := by
  have hspared : ∀ id ∈ d.sounding?, ∀ p ∈ m.sectors, ∀ q ∈ drive.reached? p.1 p.2,
      q.1.id ≠ id := by
    intro id hid p hp q hq hsame
    refine h id hid (List.mem_filterMap.mpr ⟨p, hp, ?_⟩)
    rw [hq, Option.map_some, hsame]
  cases m with
  | pump frames => cases hread
  | readSector buffer raw sector =>
      refine ⟨rfl, rfl, rfl, ?_, fun id hid => ?_⟩
      · show (drive.readSector buffer raw sector d.cursors).2.2.positions.length = _
        rw [cursors_readSector]
        split
        · rfl
        · exact length_sector _ _ _ _
      · show (drive.readSector buffer raw sector d.cursors).2.2.get id = _
        rw [cursors_readSector]
        split
        · rfl
        · rename_i hroom
          refine get_sector _ (hspared id hid (raw, sector) ?_)
          rw [Moment.sectors, if_neg hroom]
          exact List.mem_singleton_self _
  | readSectors buffer raw sector count =>
      refine ⟨rfl, rfl, rfl, ?_, fun id hid => ?_⟩
      · show (drive.readSectors buffer raw sector count d.cursors).2.2.positions.length = _
        unfold readSectors
        dsimp only
        split
        · rfl
        · exact length_readSlots _
      · show (drive.readSectors buffer raw sector count d.cursors).2.2.get id = _
        unfold readSectors
        dsimp only
        split
        · rfl
        · rename_i hroom
          refine get_readSlots _ fun n hn => hspared id hid (raw, n) ?_
          rw [Moment.sectors, if_neg hroom]
          exact List.mem_map_of_mem hn

/-! ### Playing -/

/-- Moments that spare what is played are as their pumps alone. -/
theorem happen_spared {d e : Deck} {ms : List Moment} (halike : d.Alike e)
    (h : drive.Spared d ms) :
    (drive.happen d ms).1 = (drive.happen e (ms.filter Moment.isPump)).1 ∧
      (drive.happen d ms).2.Alike (drive.happen e (ms.filter Moment.isPump)).2 := by
  induction ms generalizing d e with
  | nil => exact ⟨rfl, halike⟩
  | cons m ms ih =>
      obtain ⟨hfirst, hrest⟩ := h
      cases m with
      | pump frames =>
          obtain ⟨hanswer, hafter⟩ := halike.pump frames
          obtain ⟨hanswers, hend⟩ := ih hafter hrest
          refine ⟨?_, hend⟩
          show _ :: _ = _ :: _
          rw [hanswer]
          exact congrArg _ hanswers
      | readSector buffer raw sector =>
          obtain ⟨-, hsame⟩ := alike_moment rfl hfirst
          exact ih (hsame.trans halike) hrest
      | readSectors buffer raw sector count =>
          obtain ⟨-, hsame⟩ := alike_moment rfl hfirst
          exact ih (hsame.trans halike) hrest

/-- A read inside a file leaves the cursor behind what was read. -/
theorem cursor_read_inside {s : Source} {contents : Contents} {size offset length : Nat}
    (hformat : s.format = .binary size) (hcontents : s.contents = some contents)
    (h : offset + length ≤ contents.size) (cursor : Nat) :
    (s.read offset length cursor).2 = offset + length := by
  have hposition : offset ≤ s.lastPosition := by
    unfold Source.lastPosition
    rw [hcontents]
    exact Nat.le_trans (by omega) (Nat.le_max_right _ _)
  have hlength : (contents.read offset length).length = length := by
    rw [Contents.length_read]
    omega
  unfold Source.read Source.seek Source.bytesAt
  rw [hformat]
  dsimp only
  rw [if_pos hposition]
  dsimp only
  rw [if_neg (by simp [hcontents]), hcontents, Option.getD_some, if_neg (by omega), hlength]

/-- **Which reads are heard.** Reads between pumps make no difference to what the pumps answer, to
the player or to what its channel collects, as long as none looks for bytes in the source that is
played at the time. One that does moves its cursor: when it has found its bytes in the file, the next
pull collects the frames behind them, wherever the player was. -/
theorem happen_undisturbed (drive : Drive) :
    (∀ (d : Deck) (ms : List Moment), drive.Spared d ms →
      let alone := drive.happen d (ms.filter Moment.isPump)
      (drive.happen d ms).1 = alone.1 ∧ (drive.happen d ms).2.player = alone.2.player ∧
        (drive.happen d ms).2.mixer = alone.2.mixer) ∧
    ∀ (d : Deck) (segment : Segment) (contents : Contents) (buffer : List UInt8) (raw : Bool)
      (sector byte frames : Nat), d.PlaysFile segment contents →
      drive.reached? raw sector = some (segment.source, byte) →
      Sector.readSize raw ≤ buffer.length → byte + Sector.readSize raw ≤ contents.size →
      0 < frames →
        let behind := byte + Sector.readSize raw
        ((drive.moment d (.readSector buffer raw sector)).2.pull frames).samples = d.samples ++
          (List.range (min frames (contents.framesFrom behind))).flatMap
            fun j => contents.soundAt (behind + 4 * j) := by
  refine ⟨fun d ms hspared => ?_, ?_⟩
  · obtain ⟨hanswers, halike⟩ := happen_spared (.refl d) hspared
    exact ⟨hanswers, halike.player, halike.mixer⟩
  · intro d segment contents buffer raw sector byte frames hplays hreached hroom hinside hframes
    obtain ⟨size, hformat⟩ := hplays.format
    have hcursors : (drive.readSector buffer raw sector d.cursors).2.2 =
        d.cursors.set segment.source.id (byte + Sector.readSize raw) := by
      rw [cursors_readSector, if_neg (Nat.not_lt.mpr hroom), cursors_sector, hreached]
      exact congrArg (d.cursors.set segment.source.id)
        (cursor_read_inside hformat hplays.bytes hinside _)
    have hafter : (drive.moment d (.readSector buffer raw sector)).2.PlaysFile segment contents :=
      { hplays with
        known := by
          show segment.source.id < (drive.readSector buffer raw sector d.cursors).2.2.positions.length
          rw [hcursors, Cursors.length_set]
          exact hplays.known }
    have hcursor : (drive.moment d (.readSector buffer raw sector)).2.cursors.get
        segment.source.id = byte + Sector.readSize raw := by
      show (drive.readSector buffer raw sector d.cursors).2.2.get segment.source.id = _
      rw [hcursors, Cursors.get_set_self _ hplays.known]
    have hpull := hafter.samples_pull hframes
    rw [hcursor] at hpull
    exact hpull

/-- A sector of zeros and a sector of ones. -/
def stripes : Contents := ⟨4704, fun i => if i < 2352 then 0 else 1⟩

/-- A disc of two files, the first of which has stripes. -/
def striped : Disc where
  tracks := [
    { number := 1, length := 2, sectorSize := 2352
      source := some ⟨0, "a", some stripes, .binary 4704⟩ },
    { number := 2, start := 2, length := 1, sectorSize := 2352
      source := some ⟨1, "b", some (.filled 2352 2), .binary 2352⟩ },
    { number := 3, start := 3, sectorSize := 2352 }]

/-- The disc is played from its start, and two frames have been heard. -/
def stripedDeck : Deck :=
  (({ Deck.attached with cursors := ⟨[0, 0]⟩ }.play ⟨0, striped⟩ 0 3).2.pull 2)

/-- The first file is being played. -/
def stripedSegment : Segment where
  medium := ⟨0, striped⟩
  source := ⟨0, "a", some stripes, .binary 4704⟩
  start := 0
  length := 3
  total := 1764
  played := 2

theorem plays_striped : stripedDeck.PlaysFile stripedSegment stripes where
  playing := by decide +kernel
  unpaused := by decide +kernel
  segment := rfl
  output := by decide +kernel
  format := ⟨4704, rfl⟩
  bytes := rfl
  known := by decide +kernel

/-- Reading the second file is not heard while the first one plays. Reading the first sector of the
first file is: the second sector follows. -/
theorem happen_undisturbed_striped :
    let drive : Drive := { medium := ⟨0, striped⟩ }
    let buffer : List UInt8 := List.replicate 2352 0
    drive.Spared stripedDeck [.readSector buffer true 2, .pump 1] ∧
    (drive.happen stripedDeck [.readSector buffer true 2, .pump 1]).2.mixer =
      (drive.happen stripedDeck [.pump 1]).2.mixer ∧
    (stripedDeck.pull 1).samples = [0, 0, 0, 0, 0, 0] ∧
    ((drive.moment stripedDeck (.readSector buffer true 0)).2.pull 1).samples =
      [0, 0, 0, 0, 0x0101, 0x0101] := by
  intro drive buffer
  have hspared : drive.Spared stripedDeck [.readSector buffer true 2, .pump 1] := by
    decide +kernel
  have hreached : drive.reached? true 0 = some (stripedSegment.source, 0) := rfl
  have hheard := (happen_undisturbed drive).2 stripedDeck stripedSegment stripes buffer true 0 0 1
    plays_striped hreached (by decide +kernel) (by decide +kernel) (by decide)
  have hbefore : stripedDeck.samples = [0, 0, 0, 0] := by decide +kernel
  have hsound : (List.range (min 1 (stripes.framesFrom 2352))).flatMap
      (fun j => stripes.soundAt (2352 + 4 * j)) = [0x0101, 0x0101] := by decide +kernel
  refine ⟨hspared, ((happen_undisturbed drive).1 stripedDeck _ hspared).2.2, by decide +kernel,
    ?_⟩
  rw [hbefore] at hheard
  exact hheard.trans (congrArg ([0, 0, 0, 0] ++ ·) hsound)

end Drive

end CompactDisc
