import CompactDisc.Proofs.Sound.Along
import CompactDisc.Proofs.Sound.Reached

/-!
# CompactDisc.Proofs.Sound.Continued

**Where a request goes on when a source runs dry.** The sectors that were played are counted in two ways:
by the time of the frames that were decoded, for the position that is reported, and as their share of all
frames of the segment, for the sector to go on with. Both are rounded up, but the number of all frames was
already rounded up once, so the share can come out smaller (`Segment.Ongoing.completed_le_elapsed`). It
never does where a sector lasts a whole number of frames (`Segment.Ongoing.completed_eq_elapsed`). At other
rates the next segment may begin with a sector that was reported before, and the position goes back
(`position_goes_back`). All this is about requests whose sectors can be numbered up to their end
(`Deck.EndsInRange`).

Proof shape: inequalities between products, each with one factor more than is wanted, which is cancelled.
A step lemma says what a pump does to the sector that has been reached (`Deck.reached_pump`),
and a run of pumps is an induction.
-/

namespace CompactDisc

/-- A sector lasts a whole number of frames in each source of the disc. -/
def Disc.WholeSectors (d : Disc) : Prop := ∀ t ∈ d.tracks, ∀ s ∈ t.source, 75 ∣ s.rate

namespace Segment

/-- The sector that has been reached. -/
def reached (s : Segment) : Nat := s.start + s.elapsed

namespace Ongoing

variable {s : Segment} {stop : Nat}

/-- **The share is not ahead of the time.** -/
theorem completed_le_elapsed (h : s.Ongoing stop) : s.completed ≤ s.elapsed := by
  have hplayed : s.played * 75 ≤ s.elapsed * s.source.rate := by
    rw [elapsed_eq]
    exact le_divUp_mul s.source.rate_pos _
  rw [completed, h.total]
  exact divUp_share_le s.source.rate_pos h.length_pos hplayed

/-- The share is behind the time by less than the frame that was added to all of them. -/
theorem played_le (h : s.Ongoing stop) : s.played * 75 ≤ s.completed * s.source.rate + 74 := by
  have htotal : s.total * 75 ≤ s.source.rate * s.length + 74 := by
    have hlt := divUp_mul_lt (d := 75) (by decide) (s.source.rate * s.length)
    rw [← h.total] at hlt
    omega
  have hshare : s.played * s.length ≤ s.completed * s.total :=
    le_divUp_mul (Nat.zero_lt_of_lt h.unfinished) _
  refine Nat.le_of_mul_le_mul_right ?_ h.length_pos
  calc s.played * 75 * s.length
      = s.played * s.length * 75 := Nat.mul_right_comm _ _ _
    _ ≤ s.completed * s.total * 75 := Nat.mul_le_mul_right _ hshare
    _ = s.completed * (s.total * 75) := Nat.mul_assoc _ _ _
    _ ≤ s.completed * (s.source.rate * s.length + 74) := Nat.mul_le_mul_left _ htotal
    _ = s.completed * s.source.rate * s.length + s.completed * 74 := by
        rw [Nat.mul_add, Nat.mul_assoc]
    _ ≤ s.completed * s.source.rate * s.length + s.length * 74 :=
        Nat.add_le_add_left (Nat.mul_le_mul_right _ (completed_le h.unfinished)) _
    _ = (s.completed * s.source.rate + 74) * s.length := by rw [Nat.add_mul, Nat.mul_comm 74]

/-- How far the two can be apart: less than a sector and a frame. -/
theorem elapsed_sub_completed (h : s.Ongoing stop) :
    (s.elapsed - s.completed) * s.source.rate < s.source.rate + 74 := by
  have htime := divUp_mul_lt s.source.rate_pos (s.played * 75)
  rw [← elapsed_eq] at htime
  have hshare := h.played_le
  rw [Nat.sub_mul]
  omega

/-- The two agree exactly if all that was played fits into the share. -/
theorem completed_eq_elapsed_iff (h : s.Ongoing stop) :
    s.completed = s.elapsed ↔ s.played * 75 ≤ s.completed * s.source.rate := by
  rw [← divUp_le_iff s.source.rate_pos, ← elapsed_eq]
  have hle := h.completed_le_elapsed
  omega

/-- **The two agree** where a sector lasts a whole number of frames. -/
theorem completed_eq_elapsed (h : s.Ongoing stop) (hwhole : 75 ∣ s.source.rate) :
    s.completed = s.elapsed := by
  obtain ⟨frames, hframes⟩ := hwhole
  have hpos : 0 < frames := by
    have hrate := s.source.rate_pos
    omega
  -- nothing was rounded when the frames were counted
  have htotal : s.total = frames * s.length := by
    rw [h.total, hframes, Nat.mul_assoc]
    exact divUp_mul_left (by decide) _
  rw [completed, elapsed_eq, htotal, hframes, Nat.mul_comm 75,
    divUp_mul_right h.length_pos hpos, divUp_mul_right (by decide) hpos]

end Ongoing

end Segment

namespace Deck

variable {d : Deck} {stop? : Option Nat} {s : Segment}

/-- What is reported of the segment that was played last. -/
theorem position_of_segment (hsegment : d.player.segment = some s) (id : Nat) :
    d.position id =
      if s.medium.id = id ∧ s.reached ≤ RedBook.maxSector then some s.reached else none := by
  rw [position, hsegment]
  rfl

/-- A position is the sector that the segment of its disc has reached. -/
theorem position_eq_some {id sector : Nat} (h : d.position id = some sector) :
    ∃ s, d.player.segment = some s ∧ s.medium.id = id ∧ s.reached = sector := by
  cases hsegment : d.player.segment with
  | none =>
      rw [position, hsegment] at h
      cases h
  | some s =>
      rw [position_of_segment hsegment] at h
      split at h
      · rename_i hid
        exact ⟨s, rfl, hid.1, Option.some.inj h⟩
      · cases h

/-- What is played, if anything, ends at the last number of a sector or before it. -/
def EndsInRange (d : Deck) : Prop :=
  d.player.playing = true → ∀ s ∈ d.player.segment, s.start + s.length ≤ RedBook.sectorNumbers

theorem Consistent.endsInRange (h : d.Consistent stop?)
    (hstop : ∀ stop ∈ stop?, stop ≤ RedBook.sectorNumbers) : d.EndsInRange := by
  intro hplaying s hs
  obtain ⟨s', -, stop, hsegment, -, hlast, hongoing, -⟩ := h.playing hplaying
  cases hsegment.symm.trans hs
  rw [hongoing.remains.exact hongoing.length_pos (hstop stop hlast)]
  exact hstop stop hlast

/-- A request for nothing is refused wherever it starts. -/
theorem play_zero (d : Deck) (medium : Medium) (start : Nat) :
    d.play medium start 0 = (.error .emptyRequest, d.stop) := rfl

/-- Up to the last number, going on behind the share is what its sum says. -/
theorem play_next (d : Deck) (hroom : s.start + s.length ≤ RedBook.sectorNumbers)
    (hle : s.completed ≤ s.length) :
    d.play s.medium s.next (s.length - s.completed) =
      d.play s.medium (s.start + s.completed) (s.length - s.completed) := by
  rcases Nat.lt_or_ge (s.start + s.completed) RedBook.sectorNumbers with hlt | hge
  · rw [Segment.next_of_lt hlt]
  · -- then there is nothing left
    rw [show s.length - s.completed = 0 by omega, play_zero, play_zero]

/-- Going on keeps the segment, or begins another behind the share of the sectors that was played. -/
theorem segment_proceed (d : Deck) (hroom : s.start + s.length ≤ RedBook.sectorNumbers) (n : Nat) :
    (d.proceed s n).player.segment = d.player.segment ∨
    n = 0 ∧ ∃ next, (d.proceed s n).player.segment = some next ∧ next.medium = s.medium ∧
      s.start + s.completed ≤ next.reached := by
  unfold proceed
  split
  · exact Or.inl (segment_stop d)
  rename_i hunfinished
  split
  · exact Or.inl rfl
  rename_i hdry
  split
  · exact Or.inl (segment_stop d)
  rw [play_next d hroom (Segment.completed_le (Nat.lt_of_not_le hunfinished))]
  rcases play_cases d s.medium (s.start + s.completed) (s.length - s.completed) with
    hok | ⟨-, hstop⟩
  · obtain ⟨plan, hfind, -, hbegan⟩ := play_ok_iff.mp hok
    obtain ⟨-, -, t, source, -, -, -, -, rfl⟩ := Plan.find_ok_iff.mp hfind
    rw [hbegan, player_began]
    refine Or.inr ⟨Nat.eq_zero_of_not_pos hdry, _, rfl, rfl, ?_⟩
    exact Nat.le_trans (Nat.le_max_left _ _) (Nat.le_add_right _ _)
  · rw [hstop]
    exact Or.inl (segment_stop d)

/-- While it plays and is not paused, the output is on. -/
theorem Consistent.isOn (h : d.Consistent stop?) (hplaying : d.player.playing = true)
    (hpaused : d.player.paused = false) : d.isOn = true := by
  obtain ⟨s, c, stop, -, hc, -, -, -, henabled⟩ := h.playing hplaying
  rw [Deck.isOn, hc]
  exact henabled.mpr hpaused

theorem Consistent.pump (h : d.Consistent stop?) (n : Nat) : (d.pump n).2.Consistent stop? := by
  cases hon : d.isOn with
  | true =>
      rw [pump_of_on hon]
      exact h.pull n
  | false =>
      rw [pump_of_off hon]
      exact h

/-- **What a pump does to the sector that has been reached**: it does not go back, unless the source has
run dry, and then not behind the share. -/
theorem reached_pump (hroom : d.EndsInRange) (hsegment : d.player.segment = some s) (n : Nat) :
    ∃ next, (d.pump n).2.player.segment = some next ∧ next.medium = s.medium ∧
      (s.reached ≤ next.reached ∨
        d.player.playing = true ∧ (d.cursors.decode s.source n).1.frames = 0 ∧
        s.start + s.completed ≤ next.reached) := by
  cases hon : d.isOn with
  | false =>
      rw [pump_of_off hon]
      exact ⟨s, hsegment, rfl, Or.inl (Nat.le_refl _)⟩
  | true =>
      rw [pump_of_on hon]
      rcases pull_cases d n with hidle | ⟨s', hn, hplaying, hpaused, hsegment', hchannel⟩
      · rw [hidle]
        exact ⟨s, hsegment, rfl, Or.inl (Nat.le_refl _)⟩
      obtain rfl : s = s' := Option.some.inj (hsegment.symm.trans hsegment')
      rw [pull_of_active hn hplaying hpaused hsegment hchannel]
      rcases segment_proceed (s := { s with
        played := s.played + (d.cursors.decode s.source n).1.frames }) (d.sounded s n)
        (hroom hplaying s hsegment) (d.cursors.decode s.source n).1.frames with hkept | ⟨hdry, next, hnext, hmedium, hreached⟩
      · rw [player_sounded] at hkept
        refine ⟨_, hkept, rfl, Or.inl (Nat.add_le_add_left (divUp_mono ?_ _) _)⟩
        exact Nat.mul_le_mul_right _ (Nat.le_add_right _ _)
      · rw [hdry] at hreached
        exact ⟨next, hnext, hmedium, Or.inr ⟨hplaying, hdry, hreached⟩⟩

/-- On a disc with whole sectors, no run of pumps goes back. -/
theorem Consistent.reached_pumps (h : d.Consistent stop?)
    (hstop : ∀ stop ∈ stop?, stop ≤ RedBook.sectorNumbers) (hsegment : d.player.segment = some s)
    (hwhole : s.medium.disc.WholeSectors) (ns : List Nat) :
    ∃ next, (d.pumps ns).player.segment = some next ∧ next.medium = s.medium ∧
      s.reached ≤ next.reached := by
  induction ns generalizing d s with
  | nil => exact ⟨s, hsegment, rfl, Nat.le_refl _⟩
  | cons n ns ih =>
      obtain ⟨next, hnext, hmedium, hstep⟩ := reached_pump (h.endsInRange hstop) hsegment n
      have hforward : s.reached ≤ next.reached := by
        rcases hstep with hforward | ⟨hplaying, -, hshare⟩
        · exact hforward
        · -- where the source has run dry, the share is all that was played
          obtain ⟨s', -, stop, hsegment', -, -, hongoing, -⟩ := h.playing hplaying
          obtain rfl : s = s' := Option.some.inj (hsegment.symm.trans hsegment')
          obtain ⟨t, ht, hs, -⟩ := hongoing.owned
          rw [hongoing.completed_eq_elapsed (hwhole t ht s.source hs)] at hshare
          exact hshare
      rw [← hmedium] at hwhole
      obtain ⟨last, hlast, hsame, hrest⟩ := ih (h.pump n) hnext hwhole
      exact ⟨last, hlast, hsame.trans hmedium, Nat.le_trans hforward hrest⟩

/-- What comes of a pull that brings nothing, before the segment is done. -/
theorem pull_of_dry {n : Nat} (hroom : d.EndsInRange) (hn : 0 < n)
    (hplaying : d.player.playing = true)
    (hpaused : d.player.paused = false) (hsegment : d.player.segment = some s)
    (hchannel : d.player.channel.isSome = true) (hunfinished : s.played < s.total)
    (hdry : (d.cursors.decode s.source n).1.frames = 0) :
    d.pull n = if s.completed = 0 then (d.sounded s n).stop
      else ((d.sounded s n).play s.medium (s.start + s.completed) (s.length - s.completed)).2 := by
  rw [pull_of_active hn hplaying hpaused hsegment hchannel, hdry]
  show (d.sounded s n).proceed s 0 = _
  rw [proceed, if_neg (Nat.not_le.mpr hunfinished), if_neg (Nat.lt_irrefl 0),
    play_next _ (hroom hplaying s hsegment) (Segment.completed_le hunfinished)]

/-- From one pump to the next, a position goes back only when a source has run dry. -/
theorem position_pump {n id before after : Nat} (hroom : d.EndsInRange) (hbefore : d.position id = some before)
    (hafter : (d.pump n).2.position id = some after) :
    before ≤ after ∨ ∃ s, d.player.segment = some s ∧ d.player.playing = true ∧
      (d.cursors.decode s.source n).1.frames = 0 ∧ s.start + s.completed ≤ after := by
  obtain ⟨s, hsegment, -, rfl⟩ := position_eq_some hbefore
  obtain ⟨next, hnext, -, hstep⟩ := reached_pump hroom hsegment n
  obtain ⟨next', hnext', -, rfl⟩ := position_eq_some hafter
  obtain rfl : next = next' := Option.some.inj (hnext.symm.trans hnext')
  refine hstep.imp_right fun ⟨hplaying, hdry, hshare⟩ => ?_
  exact ⟨s, hsegment, hplaying, hdry, hshare⟩

/-- On a disc with whole sectors, a position never goes back. -/
theorem Consistent.position_pumps (h : d.Consistent stop?)
    (hstop : ∀ stop ∈ stop?, stop ≤ RedBook.sectorNumbers) (hsegment : d.player.segment = some s)
    (hwhole : s.medium.disc.WholeSectors) {ns : List Nat} {before after : Nat}
    (hbefore : d.position s.medium.id = some before)
    (hafter : (d.pumps ns).position s.medium.id = some after) : before ≤ after := by
  obtain ⟨s', hsegment', -, rfl⟩ := position_eq_some hbefore
  obtain rfl : s = s' := Option.some.inj (hsegment.symm.trans hsegment')
  obtain ⟨last, hlast, -, hforward⟩ := h.reached_pumps hstop hsegment hwhole ns
  obtain ⟨last', hlast', -, rfl⟩ := position_eq_some hafter
  obtain rfl : last = last' := Option.some.inj (hlast.symm.trans hlast')
  exact hforward

end Deck

namespace Session

/-- **Where a request goes on.** Whatever was asked of a new player, let the last request that was accepted
end at the last number of a sector or before it. When a pump brings no frames before the segment is done,
the request goes on with the sector of the share, which is not behind the position that is reported. It is
before it by less than a sector and 74 frames, is the same exactly if all that was played fits into the
share, and is always the same where a sector lasts a whole number of frames. A position goes back at such a
pump only, and not behind the share; on a disc with whole sectors it never does, however often it is
pumped. -/
theorem continuation_of_run (calls : List Call)
    (hlast : ∀ stop ∈ (new.run calls).stop?, stop ≤ 2 ^ 32) :
    let d := (new.run calls).deck
    (∀ s n, d.player.playing = true → d.player.paused = false → d.player.segment = some s →
      0 < n → (d.cursors.decode s.source n).1.frames = 0 →
      let rate := s.source.rate
      let p := s.start + divUp (s.played * 75) rate
      let c := s.start + divUp (s.played * s.length) s.total
      0 < rate ∧ s.total = divUp (rate * s.length) 75 ∧ s.played < s.total ∧
      d.position s.medium.id = (if p ≤ RedBook.maxSector then some p else none) ∧
      (d.pump n).2 = (if c = s.start then (d.sounded s n).stop
        else ((d.sounded s n).play s.medium c (s.start + s.length - c)).2) ∧
      c ≤ p ∧ (p - c) * rate < rate + 74 ∧ (c = p ↔ s.played * 75 ≤ (c - s.start) * rate) ∧
      (75 ∣ rate → c = p)) ∧
    (∀ n id before after, d.position id = some before → (d.pump n).2.position id = some after →
      before ≤ after ∨ ∃ s, d.player.segment = some s ∧ d.player.playing = true ∧
        (d.cursors.decode s.source n).1.frames = 0 ∧
        s.start + divUp (s.played * s.length) s.total ≤ after) ∧
    ∀ s ns before after, d.player.segment = some s → s.medium.disc.WholeSectors →
      d.position s.medium.id = some before → (d.pumps ns).position s.medium.id = some after →
      before ≤ after := by
  intro d
  have hd : d.Consistent (new.run calls).stop? := consistent_run Deck.Consistent.new calls
  have hroom : d.EndsInRange := hd.endsInRange hlast
  refine ⟨?_, fun _ _ _ _ => Deck.position_pump hroom,
    fun _ _ _ _ hsegment hwhole => hd.position_pumps hlast hsegment hwhole⟩
  intro s n hplaying hpaused hsegment hn hdry rate p c
  obtain ⟨s', channel, stop, hsegment', hchannel, -, hongoing, -⟩ := hd.playing hplaying
  obtain rfl : s = s' := Option.some.inj (hsegment.symm.trans hsegment')
  have hp : p = s.reached := congrArg (s.start + ·) s.elapsed_eq.symm
  have hc : c = s.start + s.completed := rfl
  have hapart : p - c = s.elapsed - s.completed := by
    rw [hp, hc, Segment.reached, Nat.add_sub_add_left]
  have hshare : c - s.start = s.completed := by
    rw [hc, Nat.add_sub_cancel_left]
  have hrest : s.start + s.length - c = s.length - s.completed := by
    rw [hc, Nat.add_sub_add_left]
  have hsame : c = p ↔ s.completed = s.elapsed := by
    rw [hp, hc, Segment.reached, Nat.add_left_cancel_iff]
  refine ⟨s.source.rate_pos, hongoing.total, hongoing.unfinished, ?_, ?_, ?_, ?_, ?_, ?_⟩
  · rw [hp, Deck.position_of_segment hsegment]
    simp
  · have hnone : c = s.start ↔ s.completed = 0 := by omega
    rw [Deck.pump_of_on (hd.isOn hplaying hpaused),
      Deck.pull_of_dry hroom hn hplaying hpaused hsegment (Deck.channel_of_channel? hchannel)
        hongoing.unfinished hdry, hrest, if_congr hnone rfl rfl]
    rfl
  · rw [hp, hc]
    exact Nat.add_le_add_left hongoing.completed_le_elapsed _
  · rw [hapart]
    exact hongoing.elapsed_sub_completed
  · rw [hsame, hshare]
    exact hongoing.completed_eq_elapsed_iff
  · intro hwhole
    exact hsame.mpr (hongoing.completed_eq_elapsed hwhole)

/-- A request for both of two tracks, and all frames of the first file. -/
def throughFirstFile : List Call := [.elsewhere ⟨[0, 0]⟩, .play ⟨0, .twoFiles⟩ 0 2, .pull 2]

/-- The request goes on with the sector that is reported. -/
theorem continuation_of_run_twoFiles :
    (∀ stop ∈ (new.run throughFirstFile).stop?, stop ≤ 2 ^ 32) ∧
    let d := (new.run throughFirstFile).deck
    d.position 0 = some 1 ∧ ∃ s, d.player.segment = some s ∧
      (d.pump 1).2 = ((d.sounded s 1).play s.medium 1 1).2 := by
  have hlast : ∀ stop ∈ (new.run throughFirstFile).stop?, stop ≤ 2 ^ 32 := by
    have hstop : (new.run throughFirstFile).stop? = some 2 := by decide +kernel
    rw [hstop]
    rintro _ ⟨⟩
    decide
  refine ⟨hlast, ?_⟩
  intro d
  have hplaying : d.player.playing = true ∧ d.player.paused = false := by decide +kernel
  have hseen : d.player.segment.map (fun s => (s.medium.id, s.source.rate, s.start, s.length, s.played,
      (d.cursors.decode s.source 1).1.frames)) = some (0, 44100, 0, 2, 2, 0) := by
    decide +kernel
  obtain ⟨s, hsegment, hs⟩ := Option.map_eq_some_iff.mp hseen
  simp only [Prod.mk.injEq] at hs
  obtain ⟨hid, hrate, hstart, hlength, hplayed, hdry⟩ := hs
  obtain ⟨-, htotal, -, hposition, hpump, -⟩ := (continuation_of_run throughFirstFile hlast).1 s 1
    hplaying.1 hplaying.2 hsegment Nat.one_pos hdry
  rw [hid, hrate, hstart, hplayed] at hposition
  rw [hrate, hlength] at htotal
  rw [hstart, hlength, hplayed, htotal] at hpump
  exact ⟨hposition, s, hsegment, hpump⟩

/-- What is seen when one more frame is asked for: whether something is played that brings no frame and
is not done, the rate of its source and the sector of the share, and the positions before and after. -/
def seenNext (d : Deck) : Bool × Option (Nat × Nat) × Option Nat × Option Nat :=
  (d.player.playing && !d.player.paused && d.player.segment.any fun s =>
      (d.cursors.decode s.source 1).1.frames = 0 ∧ s.played < s.total,
    d.player.segment.map fun s => (s.source.rate, s.start + divUp (s.played * s.length) s.total),
    d.position 0, (d.pump 1).2.position 0)

end Session

namespace Sheet

/-- Sound of 107 frames, at 8000 of them a second. -/
def speechFile : Contents :=
  let header := (Pcm.Header.pcm16 1 8000 214).bytes.toArray
  ⟨header.size + 214, fun i => header.getD i 0⟩

/-- A sheet of two such files. -/
def speechStorage : Storage where
  entries := [(⟨false, ["s"]⟩, .file (.ofArray
      (Text.ascii "FILE a WAVE\nTRACK 1 AUDIO\nFILE b WAVE\nTRACK 2 AUDIO").toArray)),
    (⟨false, ["a"]⟩, .file speechFile), (⟨false, ["b"]⟩, .file speechFile)]

end Sheet

/-- **A position that goes back.** The last of 107 frames, at 8000 a second, reaches into the second of two
sectors. It is half of the 214 frames of both, so the request goes on with that sector. -/
theorem Session.position_goes_back : ∃ loaded,
    Sheet.load Sheet.speechStorage (.search Sheet.speechStorage) "s" .none = .ok loaded ∧
    seenNext (new.run (onLoaded loaded 0 2 107)).deck = (true, some (8000, 1), some 2, some 1) := by
  have hseen : (Sheet.load Sheet.speechStorage (.search Sheet.speechStorage) "s" .none).toOption.map
      (fun loaded => seenNext (new.run (onLoaded loaded 0 2 107)).deck) =
      some (true, some (8000, 1), some 2, some 1) := by
    decide +kernel
  obtain ⟨loaded, hload, hnext⟩ := Option.map_eq_some_iff.mp hseen
  exact ⟨loaded, toOption_eq_some_iff.mp hload, hnext⟩

end CompactDisc
