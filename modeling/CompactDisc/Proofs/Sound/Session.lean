import CompactDisc.Proofs.Sound.Effect
import Mathlib.Algebra.Group.Nat.Defs

/-!
# CompactDisc.Proofs.Sound.Session

**Everything that can be asked of a player**, in any order, from a new player on, and what holds
whenever it plays. A request may begin a segment far from the one before, a pull may end it early and
go on with the next, and a pause changes the output behind the player's back; but the segment that
is being played always agrees with the last request that was accepted (`Segment.Ongoing`): they end
at the same sector, and there is something left to play. A request that goes on behind the last number of
a sector is the exception, since it is then played from sector zero on and its end moves along
(`Remains`). A request that ends at or before that number is not concerned (`Remains.exact`).

Proof shape: a step lemma for each operation, in two sorts. Most operations stop the player or do
not touch the segment. The others are a request and the request that a pull makes when a source has
run dry (`Deck.Consistent.proceed`); both begin with a plan, and a plan keeps the end of what it is
made for (`Plan.ongoing`).
-/

namespace CompactDisc

/-- What can be asked of a player, and what can happen to the sources that it plays from. -/
inductive Call where
  | play (medium : Medium) (start length : UInt32)
  | pause (resume : Bool)
  | stop
  | release (id : Nat)
  | control (volume map : Sides UInt8)
  | pull (frames : Nat)
  /-- Sources are opened, read or positioned by others. -/
  | elsewhere (cursors : Cursors)

/-- A deck, and the end of the last request that was accepted on it. -/
structure Session where
  deck : Deck
  stop? : Option Nat := none

namespace Session

/-- A new player with an output. -/
def new : Session := { deck := .attached }

/-- Carries out a call. -/
def after (s : Session) : Call → Session
  | .play medium start length =>
    match s.deck.play medium start.toNat length.toNat with
    | (.ok (), deck) => ⟨deck, some (start.toNat + length.toNat)⟩
    | (.error _, deck) => ⟨deck, s.stop?⟩
  | .pause resume => { s with deck := s.deck.pause resume }
  | .stop => { s with deck := s.deck.stop }
  | .release id => { s with deck := s.deck.release id }
  | .control volume map => { s with deck := s.deck.control volume map }
  | .pull frames => { s with deck := s.deck.pull frames }
  | .elsewhere cursors => { s with deck := { s.deck with cursors } }

/-- Carries out calls in order. -/
def run (s : Session) (calls : List Call) : Session := calls.foldl after s

/-- A request that is accepted is the last one from then on. -/
theorem after_play_ok {s : Session} {medium : Medium} {start length : UInt32}
    (h : (s.deck.play medium start.toNat length.toNat).1 = .ok ()) :
    s.after (.play medium start length) =
      ⟨(s.deck.play medium start.toNat length.toNat).2, some (start.toNat + length.toNat)⟩ := by
  unfold after
  dsimp only
  rcases hplay : s.deck.play medium start.toNat length.toNat with ⟨e | ⟨⟩, deck⟩
  · rw [hplay] at h
    cases h
  · rfl

theorem after_play_error {s : Session} {medium : Medium} {start length : UInt32} {e : PlayerError}
    (h : (s.deck.play medium start.toNat length.toNat).1 = .error e) :
    s.after (.play medium start length) =
      ⟨(s.deck.play medium start.toNat length.toNat).2, s.stop?⟩ := by
  unfold after
  dsimp only
  rcases hplay : s.deck.play medium start.toNat length.toNat with ⟨e' | ⟨⟩, deck⟩
  · rfl
  · rw [hplay] at h
    cases h

end Session

/-! ### The end of a request -/

/-- The last sectors of a request up to `stop`, `length` of them from `start` on. Behind the last number
they are counted from zero again, which happens once at most. -/
structure Remains (start length stop : Nat) : Prop where
  bounded : stop < 2 * RedBook.sectorNumbers
  counted : start + length = stop ∨ start + length + RedBook.sectorNumbers = stop

/-- A request that has sectors left and ends at the last number or before ends where it says. -/
theorem Remains.exact {start length stop : Nat} (h : Remains start length stop) (hpos : 0 < length)
    (hstop : stop ≤ RedBook.sectorNumbers) : start + length = stop := by
  rcases h.counted with hsame | hagain
  · exact hsame
  · omega

/-- Two 32-bit numbers are a request. -/
theorem remains_of_words (start length : UInt32) :
    Remains start.toNat length.toNat (start.toNat + length.toNat) where
  bounded := by
    have hstart := start.toNat_lt
    have hlength := length.toNat_lt
    unfold RedBook.sectorNumbers
    omega
  counted := Or.inl rfl

/-- What is left behind the sectors that have been played. -/
theorem Remains.next {s : Segment} {stop : Nat} (h : Remains s.start s.length stop)
    (hle : s.completed ≤ s.length) : Remains s.next (s.length - s.completed) stop where
  bounded := h.bounded
  counted := by
    obtain ⟨hbounded, hcounted⟩ := h
    unfold Segment.next
    unfold RedBook.sectorNumbers at *
    omega

/-- A plan keeps the end of its request. -/
theorem Remains.plan {disc : Disc} {plan : Plan} {hasOutput : Bool} {start length stop : Nat}
    (h : Remains start length stop)
    (hfind : Plan.find disc hasOutput start length = .ok plan) :
    Remains plan.start plan.length stop where
  bounded := h.bounded
  counted := by
    rw [Plan.stop_of_find hfind]
    exact h.counted

/-! ### The segment that is played -/

/-- A segment that is part of a request up to a sector, and not done. -/
structure Segment.Ongoing (s : Segment) (stop : Nat) : Prop where
  owned : ∃ t ∈ s.medium.disc.tracks, t.source = some s.source ∧ t.isData = false ∧
    t.start ≤ s.start
  length_pos : 1 ≤ s.length
  length_le : s.length ≤ RedBook.maxSector
  remains : Remains s.start s.length stop
  total : s.total = divUp (s.source.rate * s.length) 75
  unfinished : s.played < s.total

/-- No more sectors are counted as done than there are. -/
theorem Segment.completed_le {s : Segment} (h : s.played < s.total) : s.completed ≤ s.length := by
  unfold completed
  rw [divUp_le_iff (by omega), Nat.mul_comm s.length]
  exact Nat.mul_le_mul_right _ (Nat.le_of_lt h)

/-- The clock of a source runs. -/
theorem Segment.elapsed_eq (s : Segment) : s.elapsed = divUp (s.played * 75) s.source.rate := by
  rw [elapsed, Nat.max_eq_left s.source.rate_pos]
  rfl

/-- A plan is part of its request. -/
theorem Plan.ongoing {medium : Medium} {plan : Plan} {hasOutput : Bool} {start length stop : Nat}
    (h : Plan.find medium.disc hasOutput start length = .ok plan)
    (hlength : length ≤ RedBook.maxSector) (hremains : Remains start length stop) :
    (plan.segment medium).Ongoing stop := by
  have hplan := hremains.plan h
  obtain ⟨hpos, -, t, s, ht, hsound, hs, hreach, rfl⟩ := find_ok_iff.mp h
  have hrest : 0 < length - (t.start - start) := by omega
  refine ⟨⟨t, Disc.mem_of_track? ht, hs, hsound, Nat.le_max_right _ _⟩, hrest, ?_, hplan, rfl, ?_⟩
  · exact Nat.le_trans (Nat.sub_le _ _) hlength
  · exact (divUp_pos_iff (by decide)).mpr (Nat.mul_pos s.rate_pos hrest)

/-! ### The deck -/

/-- What holds of a deck whose last accepted request ends at a sector. -/
structure Deck.Consistent (d : Deck) (stop? : Option Nat) : Prop where
  attached : ∃ c, d.channel? = some c
  playing : d.player.playing = true → ∃ s c stop, d.player.segment = some s ∧
    d.channel? = some c ∧ stop? = some stop ∧ s.Ongoing stop ∧ c.rate = s.source.rate ∧
    (c.enabled = true ↔ d.player.paused = false)

namespace Deck.Consistent

variable {d : Deck} {stop? : Option Nat}

theorem new : Deck.attached.Consistent none where
  attached := ⟨_, rfl⟩
  playing h := nomatch h

/-- A player that does not play is consistent with any request. -/
theorem of_stopped {e : Deck} (h : ∃ c, e.channel? = some c) (he : e.player.playing = false) :
    e.Consistent stop? where
  attached := h
  playing hplaying := absurd (he.symm.trans hplaying) Bool.false_ne_true

theorem stop (h : d.Consistent stop?) : d.stop.Consistent stop? := by
  obtain ⟨c, hc⟩ := h.attached
  exact of_stopped ⟨_, by rw [channel?_stop, hc]; rfl⟩ (playing_stop d)

theorem pause (h : d.Consistent stop?) (resume : Bool) : (d.pause resume).Consistent stop? := by
  obtain ⟨c, hc⟩ := h.attached
  refine ⟨⟨_, by rw [channel?_pause, hc]; rfl⟩, fun hplaying => ?_⟩
  rw [player_pause] at hplaying
  obtain ⟨s, c', stop, hsegment, hc', hstop, hongoing, hrate, -⟩ := h.playing hplaying
  have hchannel : (d.pause resume).channel? = some { c' with enabled := resume } := by
    rw [channel?_pause, hc']
    rfl
  rw [player_pause]
  exact ⟨s, _, stop, hsegment, hchannel, hstop, hongoing, hrate, by simp⟩

theorem control (h : d.Consistent stop?) (volume map : Sides UInt8) :
    (d.control volume map).Consistent stop? := by
  obtain ⟨c, hc⟩ := h.attached
  refine ⟨⟨_, by rw [channel?_control, hc]; rfl⟩, fun hplaying => ?_⟩
  rw [player_control] at hplaying ⊢
  obtain ⟨s, c', stop, hsegment, hc', hrest⟩ := h.playing hplaying
  have hchannel : (d.control volume map).channel? = some { c' with volume, map } := by
    rw [channel?_control, hc']
    rfl
  exact ⟨s, _, stop, hsegment, hchannel, hrest⟩

theorem release (h : d.Consistent stop?) (id : Nat) : (d.release id).Consistent stop? := by
  unfold Deck.release
  cases hsegment : d.player.segment with
  | none => exact h
  | some s =>
      dsimp only
      split
      · obtain ⟨c, hc⟩ := h.stop.attached
        exact of_stopped ⟨c, hc⟩ (playing_stop d)
      · exact h

/-- Where the cursors stand is no matter. -/
theorem elsewhere (h : d.Consistent stop?) (cursors : Cursors) :
    ({ d with cursors } : Deck).Consistent stop? := ⟨h.attached, h.playing⟩

theorem began (h : d.Consistent stop?) {medium : Medium} {plan : Plan} {stop : Nat}
    (hongoing : (plan.segment medium).Ongoing stop) :
    (d.began medium plan).Consistent (some stop) := by
  obtain ⟨c, hc⟩ := h.attached
  have hchannel : (d.began medium plan).channel? =
      some { c with rate := plan.source.rate, enabled := true } := by
    rw [channel?_began, hc]
    rfl
  refine ⟨⟨_, hchannel⟩, fun _ => ?_⟩
  rw [player_began]
  exact ⟨plan.segment medium, _, stop, rfl, hchannel, rfl, hongoing, rfl, by simp⟩

/-- A request that is accepted decides the end from then on. -/
theorem play_ok (h : d.Consistent stop?) {medium : Medium} {start length stop : Nat}
    (hlength : length ≤ RedBook.maxSector) (hremains : Remains start length stop)
    (hok : (d.play medium start length).1 = .ok ()) :
    (d.play medium start length).2.Consistent (some stop) := by
  obtain ⟨plan, hfind, -, hbegan⟩ := play_ok_iff.mp hok
  rw [hbegan]
  exact h.began (Plan.ongoing hfind hlength hremains)

theorem play_error (h : d.Consistent stop?) {medium : Medium} {start length : Nat}
    {e : PlayerError} (he : (d.play medium start length).1 = .error e) :
    (d.play medium start length).2.Consistent stop? := by
  rw [play_of_error he]
  exact h.stop

theorem sounded (h : d.Consistent stop?) {s : Segment} {frames stop : Nat}
    (hsegment : d.player.segment = some s) (hplaying : d.player.playing = true)
    (hstop : stop? = some stop)
    (hongoing : ({ s with played := s.played + (d.cursors.decode s.source frames).1.frames } :
      Segment).Ongoing stop) : (d.sounded s frames).Consistent stop? := by
  obtain ⟨s', c, stop', hsegment', hc, hstop', -, hrate, henabled⟩ := h.playing hplaying
  obtain rfl : s = s' := Option.some.inj (hsegment.symm.trans hsegment')
  have hchannel : ∃ c', (d.sounded s frames).channel? = some c' ∧ c'.rate = c.rate ∧
      c'.enabled = c.enabled := by
    rw [channel?_sounded, hc]
    refine ⟨_, rfl, ?_, ?_⟩ <;> (unfold Channel.forward; split <;> rfl)
  obtain ⟨c', hc', hrate', henabled'⟩ := hchannel
  refine ⟨⟨c', hc'⟩, fun _ => ?_⟩
  rw [player_sounded]
  exact ⟨_, c', stop, rfl, hc', hstop, hongoing, hrate'.trans hrate, by rw [henabled']; exact henabled⟩

/-- Going on keeps the end of the request, since no more of it is done than there was. -/
theorem proceed {s : Segment} (hattached : ∃ c, d.channel? = some c)
    (h : s.played < s.total →
      ∃ stop, stop? = some stop ∧ s.Ongoing stop ∧ d.Consistent stop?) (n : Nat) :
    (d.proceed s n).Consistent stop? := by
  have hstopped : d.stop.Consistent stop? := by
    obtain ⟨c, hc⟩ := hattached
    exact of_stopped ⟨_, by rw [channel?_stop, hc]; rfl⟩ (playing_stop d)
  unfold Deck.proceed
  split
  · exact hstopped
  · rename_i hunfinished
    obtain ⟨stop, hstop, hongoing, hd⟩ := h (Nat.lt_of_not_le hunfinished)
    split
    · exact hd
    · split
      · exact hstopped
      · rcases play_cases d s.medium s.next (s.length - s.completed) with hok | ⟨⟨e, he⟩, -⟩
        · have hlength : s.length - s.completed ≤ RedBook.maxSector :=
            Nat.le_trans (Nat.sub_le _ _) hongoing.length_le
          rw [hstop]
          exact hd.play_ok hlength (hongoing.remains.next (s.completed_le hongoing.unfinished)) hok
        · exact hd.play_error he

theorem pull (h : d.Consistent stop?) (frames : Nat) : (d.pull frames).Consistent stop? := by
  rcases pull_cases d frames with hidle | ⟨s, hframes, hplaying, hpaused, hsegment, hchannel⟩
  · rw [hidle]
    exact h
  · obtain ⟨s', c, stop, hsegment', hc, hstop, hongoing, -⟩ := h.playing hplaying
    obtain rfl : s = s' := Option.some.inj (hsegment.symm.trans hsegment')
    rw [pull_of_active hframes hplaying hpaused hsegment hchannel]
    refine proceed ⟨_, by rw [channel?_sounded, hc]; rfl⟩ (fun hunfinished => ?_) _
    have hcounted : Segment.Ongoing { s with
        played := s.played + (d.cursors.decode s.source frames).1.frames } stop :=
      { hongoing with unfinished := hunfinished }
    exact ⟨stop, hstop, hcounted, h.sounded hsegment hplaying hstop hcounted⟩

end Deck.Consistent

namespace Session

/-- Every call keeps the deck consistent with the last request. -/
theorem consistent_after {s : Session} (h : s.deck.Consistent s.stop?) (call : Call) :
    (s.after call).deck.Consistent (s.after call).stop? := by
  cases call with
  | play medium start length =>
      have hlength : length.toNat ≤ RedBook.maxSector := Nat.lt_succ_iff.mp length.toNat_lt
      rcases s.deck.play_cases medium start.toNat length.toNat with hok | ⟨⟨e, he⟩, -⟩
      · rw [after_play_ok hok]
        exact h.play_ok hlength (remains_of_words start length) hok
      · rw [after_play_error he]
        exact h.play_error he
  | pause resume => exact h.pause resume
  | stop => exact h.stop
  | release id => exact h.release id
  | control volume map => exact h.control volume map
  | pull frames => exact h.pull frames
  | elsewhere cursors => exact h.elsewhere cursors

/-- Every session is consistent. -/
theorem consistent_run {s : Session} (h : s.deck.Consistent s.stop?) (calls : List Call) :
    (s.run calls).deck.Consistent (s.run calls).stop? := by
  induction calls generalizing s with
  | nil => exact h
  | cons call calls ih => exact ih (consistent_after h call)

/-- **What is played agrees with what was asked.** Whatever was asked of a new player, in any order:
while it plays, the segment is of a track with sound and does not begin before it; its sample frames are
those that its sectors last at the rate of the source, and some are left; the output has that rate, and is
on unless the player is paused. However many frames are counted without finishing the segment, the sectors
done are no more than there are, and these fit into 32 bits.

The segment ends where the last accepted request did, unless this request goes on behind the last number
of a sector: when it gets there it is played from sector zero on, and its end moves back by all numbers. -/
theorem playing_segment (calls : List Call) :
    let s := new.run calls
    s.deck.player.playing = true →
      ∃ segment channel t stop, s.deck.player.segment = some segment ∧
        s.deck.channel? = some channel ∧
        t ∈ segment.medium.disc.tracks ∧ t.source = some segment.source ∧ t.isData = false ∧
        t.start ≤ segment.start ∧
        1 ≤ segment.length ∧
        segment.total = divUp (segment.source.rate * segment.length) 75 ∧
        segment.played < segment.total ∧
        s.stop? = some stop ∧
        (segment.start + segment.length = stop ∨
          segment.start + segment.length + 2 ^ 32 = stop) ∧
        (stop ≤ 2 ^ 32 → segment.start + segment.length = stop) ∧
        channel.rate = segment.source.rate ∧
        (channel.enabled = true ↔ s.deck.player.paused = false) ∧
        (∀ n, segment.played + n < segment.total →
          { segment with played := segment.played + n : Segment }.completed ≤ segment.length) ∧
        segment.length < 2 ^ 32 := by
  intro s hplaying
  obtain ⟨segment, channel, stop, hsegment, hchannel, hstop, hongoing, hrate, henabled⟩ :=
    (consistent_run Deck.Consistent.new calls).playing hplaying
  obtain ⟨t, hmem, hs, hsound, hstart⟩ := hongoing.owned
  refine ⟨segment, channel, t, stop, hsegment, hchannel, hmem, hs, hsound, hstart,
    hongoing.length_pos, hongoing.total, hongoing.unfinished, hstop, hongoing.remains.counted,
    hongoing.remains.exact hongoing.length_pos, hrate, henabled, fun n hn => ?_, ?_⟩
  · exact Segment.completed_le hn
  · exact Nat.lt_succ_iff.mpr hongoing.length_le

end Session

/-- Two tracks of one sector, each in a file of its own with two sample frames. -/
def Disc.twoFiles : Disc where
  tracks := [
    { number := 1, length := 1, sectorSize := 2352
      source := some ⟨0, "a", some (.filled 8 1), .binary 8⟩ },
    { number := 2, start := 1, length := 1, sectorSize := 2352
      source := some ⟨1, "b", some (.filled 8 2), .binary 8⟩ },
    { number := 3, start := 2, sectorSize := 2352 }]

/-- Both tracks are asked for, and the second is reached and paused. -/
def Session.intoSecondFile : List Call :=
  [.elsewhere ⟨[0, 0]⟩, .play ⟨0, .twoFiles⟩ 0 2, .pull 5, .pull 5, .pull 1, .pause false]

/-- In the second file, the end is still that of the request. -/
theorem Session.playing_segment_twoFiles :
    (new.run intoSecondFile).deck.player.playing = true ∧
    ∃ segment, (new.run intoSecondFile).deck.player.segment = some segment ∧
      segment.source.id = 1 ∧ segment.start + segment.length = 2 ∧
      segment.played < segment.total := by
  have hplaying : (new.run intoSecondFile).deck.player.playing = true := by decide +kernel
  obtain ⟨segment, channel, t, stop, hsegment, -, -, -, -, -, -, -, hunfinished, hstop, -, hends, -⟩ :=
    playing_segment intoSecondFile hplaying
  have hsource : (new.run intoSecondFile).deck.player.segment.map (·.source.id) = some 1 := by
    decide +kernel
  have hrequest : (new.run intoSecondFile).stop? = some 2 := by decide +kernel
  rw [hsegment] at hsource
  obtain rfl : 2 = stop := Option.some.inj (hrequest.symm.trans hstop)
  exact ⟨hplaying, segment, hsegment, Option.some.inj hsource, hends (by decide), hunfinished⟩

/-- A file of six sectors that is a track in front of the last numbers, and one of a sector at the start
of the disc. -/
def Disc.farFiles : Disc where
  tracks := [
    { number := 1, length := 9, sectorSize := 2352
      source := some ⟨0, "a", some (.filled 2352 1), .binary 2352⟩ },
    { number := 2, start := 4294967290, length := 5, sectorSize := 2352
      source := some ⟨1, "b", some (.filled 14112 2), .binary 14112⟩ },
    { number := 3, start := 4294967295, sectorSize := 2352 }]

/-- Fifteen sectors are asked for from the second track on, and its file is heard to its end. -/
def Session.behindLastNumber : List Call :=
  [.elsewhere ⟨[0, 0]⟩, .play ⟨0, .farFiles⟩ 10 4294967295, .pull 3528, .pull 588]

/-- Six sectors have been played, and the next number is zero: the nine that are left are played from
there, and end long before the request does. -/
theorem Session.end_moves : let s := new.run behindLastNumber
    s.deck.player.playing = true ∧
    s.deck.player.segment.map (fun g => (g.start, g.length, g.played)) = some (0, 9, 0) ∧
    s.stop? = some 4294967305 := by
  decide +kernel

end CompactDisc
