import CompactDisc.Pcm.Header
import CompactDisc.Proofs.Disc.Reported
import CompactDisc.Proofs.Sound.Separate
import CompactDisc.Proofs.Sound.Session

/-!
# CompactDisc.Proofs.Sound.Reached

**The sector that has been reached** while something is played. It is counted from the start of the
segment by the time of the frames that were decoded, rounded up, so it is the end of the request as soon
as a frame reaches into its last sector (`Segment.Underway.elapsed_eq_iff`), and never behind it
(`Segment.Underway.elapsed_le`). The last sector is then still being heard, but the sector that is
reported need not belong to the disc any more.

Proof shape: a run is followed together with the last request that was accepted. One invariant says
how the segment lies in that request (`Segment.Underway`); a request establishes it, a pull keeps it, and
so does the request that a pull makes where a source runs dry, because a plan for the last sectors of a
request is part of it (`Plan.underway`).
-/

namespace CompactDisc

/-- Sectors of a medium that are to be played. -/
structure Request where
  medium : Medium
  start : Nat
  length : Nat

/-- The first sector behind a request. -/
def Request.stop (r : Request) : Nat := r.start + r.length

namespace Session

/-- The request that a call makes, if it is accepted. -/
def accepts (s : Session) : Call → Option Request
  | .play medium start length =>
    match (s.deck.play medium start.toNat length.toNat).1 with
    | .ok () => some ⟨medium, start.toNat, length.toNat⟩
    | .error _ => none
  | _ => none

/-- The last request that is accepted in a run, or the one before it. -/
def requested (s : Session) (request? : Option Request) : List Call → Option Request
  | [] => request?
  | call :: calls => (s.after call).requested ((s.accepts call).or request?) calls

end Session

/-! ### A segment and its request -/

/-- A segment that is the rest of a request, begins on the disc, and is not done. -/
structure Segment.Underway (s : Segment) (r : Request) : Prop where
  medium : s.medium = r.medium
  remains : Remains s.start s.length r.stop
  /-- Unless the sectors were counted from zero again, it begins in the request. -/
  start_le : s.start + s.length = r.stop → r.start ≤ s.start
  length_pos : 0 < s.length
  /-- It does not begin before the sectors of the disc. -/
  owned : ∃ sector t, r.medium.disc.track? sector = some t ∧ sector ≤ s.start
  total : s.total = framesOf s.source.rate s.length
  unfinished : s.played < s.total

namespace Segment.Underway

variable {s : Segment} {r : Request}

/-- The time that was played is less than that of all sectors. -/
theorem played_lt (h : s.Underway r) : s.played * 75 < s.length * s.source.rate := by
  have hlt := h.unfinished
  rw [h.total, ← Nat.not_le, framesOf, divUp_le_iff (by decide), Nat.not_le,
    Nat.mul_comm s.source.rate] at hlt
  exact hlt

/-- The sector that has been reached is not behind the end. -/
theorem elapsed_le (h : s.Underway r) : s.elapsed ≤ s.length := by
  rw [elapsed_eq, divUp_le_iff s.source.rate_pos]
  exact Nat.le_of_lt h.played_lt

/-- No more sectors are counted as done than there are. -/
theorem completed_le (h : s.Underway r) : s.completed ≤ s.length :=
  Segment.completed_le h.unfinished

/-- It goes on in the request, unless the sectors were counted from zero again. -/
theorem start_le_next (h : s.Underway r) (hnext : s.next + (s.length - s.completed) = r.stop) :
    r.start ≤ s.next := by
  have hle := h.completed_le
  have hstart := h.start_le
  obtain ⟨-, hcounted⟩ := h.remains
  unfold next RedBook.sectorNumbers at *
  omega

/-- **When the end is reached**: as soon as a frame was decoded that reaches into the last sector. -/
theorem elapsed_eq_iff (h : s.Underway r) :
    s.elapsed = s.length ↔ (s.length - 1) * s.source.rate < s.played * 75 := by
  have hpos := h.length_pos
  have hnot : s.elapsed = s.length ↔ ¬ s.elapsed ≤ s.length - 1 := by
    have hle := h.elapsed_le
    omega
  rw [hnot, elapsed_eq, divUp_le_iff s.source.rate_pos, Nat.not_le]

end Segment.Underway

/-- A plan for the last sectors of a request is part of it. -/
theorem Plan.underway {r : Request} {plan : Plan} {hasOutput : Bool} {start length : Nat}
    (h : Plan.find r.medium.disc hasOutput start length = .ok plan)
    (hremains : Remains start length r.stop) (hstart : start + length = r.stop → r.start ≤ start) :
    (plan.segment r.medium).Underway r := by
  have hplan := hremains.plan h
  have hstop := stop_of_find h
  have hpos := length_pos_of_find h
  obtain ⟨-, -, t, s, ht, -, -, -, rfl⟩ := find_ok_iff.mp h
  refine ⟨rfl, hplan, fun hends => ?_, hpos, ⟨start, t, ht, Nat.le_max_left _ _⟩, rfl, ?_⟩
  · exact Nat.le_trans (hstart (hstop.symm.trans hends)) (Nat.le_max_left _ _)
  · exact (divUp_pos_iff (by decide)).mpr (Nat.mul_pos s.rate_pos hpos)

/-! ### The deck -/

/-- A deck that plays what is left of a request, if it plays. -/
def Deck.Underway (d : Deck) (request? : Option Request) : Prop :=
  d.player.playing = true → ∃ s r, d.player.segment = some s ∧ request? = some r ∧ s.Underway r

namespace Deck.Underway

variable {d : Deck} {request? : Option Request}

/-- A player that does not play is no matter. -/
theorem of_stopped (h : d.player.playing = false) : d.Underway request? :=
  fun hplaying => absurd (h.symm.trans hplaying) Bool.false_ne_true

theorem stop (d : Deck) : d.stop.Underway request? := of_stopped (playing_stop d)

/-- Whether it is paused, and where its sound goes, is no matter. -/
theorem congr {e : Deck} (h : d.Underway request?) (hplaying : e.player.playing = d.player.playing)
    (hsegment : e.player.segment = d.player.segment) : e.Underway request? := by
  unfold Underway
  rw [hplaying, hsegment]
  exact h

theorem release (h : d.Underway request?) (id : Nat) : (d.release id).Underway request? := by
  unfold Deck.release
  split
  · exact h
  · split
    · exact of_stopped (playing_stop d)
    · exact h

theorem play_ok {r : Request} {start length : Nat} (h : (d.play r.medium start length).1 = .ok ())
    (hremains : Remains start length r.stop) (hstart : start + length = r.stop → r.start ≤ start) :
    (d.play r.medium start length).2.Underway (some r) := by
  obtain ⟨plan, hfind, -, hbegan⟩ := play_ok_iff.mp h
  rw [hbegan]
  intro _
  rw [player_began]
  exact ⟨plan.segment r.medium, r, rfl, rfl, Plan.underway hfind hremains hstart⟩

/-- Going on plays what is left of the same request. -/
theorem proceed {s : Segment} {r : Request}
    (h : s.played < s.total → d.player.segment = some s ∧ s.Underway r) (n : Nat) :
    (d.proceed s n).Underway (some r) := by
  unfold Deck.proceed
  split
  · exact stop d
  · rename_i hunfinished
    obtain ⟨hsegment, hs⟩ := h (Nat.lt_of_not_le hunfinished)
    split
    · exact fun _ => ⟨s, r, hsegment, rfl, hs⟩
    · split
      · exact stop d
      · have hremains := hs.remains.next hs.completed_le
        rw [hs.medium]
        rcases play_cases d r.medium s.next (s.length - s.completed) with hok | ⟨-, hstopped⟩
        · exact play_ok hok hremains hs.start_le_next
        · rw [hstopped]
          exact stop d

theorem pull (h : d.Underway request?) (frames : Nat) : (d.pull frames).Underway request? := by
  rcases pull_cases d frames with hidle | ⟨s, hframes, hplaying, hpaused, hsegment, hchannel⟩
  · rw [hidle]
    exact h
  · obtain ⟨s', r, hsegment', rfl, hs⟩ := h hplaying
    obtain rfl : s = s' := Option.some.inj (hsegment.symm.trans hsegment')
    rw [pull_of_active hframes hplaying hpaused hsegment hchannel]
    refine proceed (fun hunfinished => ⟨?_, ?_⟩) _
    · rw [player_sounded]
    · exact { hs with unfinished := hunfinished }

end Deck.Underway

namespace Session

/-- Every call keeps what is played part of the last request. -/
theorem underway_after {s : Session} {request? : Option Request} (h : s.deck.Underway request?)
    (call : Call) : (s.after call).deck.Underway ((s.accepts call).or request?) := by
  cases call with
  | play medium start length =>
      rcases s.deck.play_cases medium start.toNat length.toNat with hok | ⟨⟨e, he⟩, -⟩
      · rw [after_play_ok hok, accepts, hok]
        exact Deck.Underway.play_ok (r := ⟨medium, start.toNat, length.toNat⟩) hok
          (remains_of_words start length) fun _ => Nat.le_refl _
      · rw [after_play_error he, accepts, he]
        exact Deck.Underway.of_stopped (Deck.playing_of_play_error he)
  | pause resume =>
      exact h.congr (by simp [after]) (by simp [after])
  | stop => exact Deck.Underway.stop s.deck
  | release id => exact h.release id
  | control volume map =>
      exact h.congr (by simp [after]) (by simp [after])
  | pull frames => exact h.pull frames
  | elsewhere cursors => exact h

/-- Whatever a session plays is part of the last request. -/
theorem underway_run {s : Session} {request? : Option Request} (h : s.deck.Underway request?)
    (calls : List Call) : (s.run calls).deck.Underway (s.requested request? calls) := by
  induction calls generalizing s request? with
  | nil => exact h
  | cons call calls ih => exact ih (underway_after h call)

end Session

/-! ### What is reported -/

/-- A report that names the track that owns a sector, and this sector. -/
def Disc.NamesOwner (d : Disc) (report : Subchannel) (sector : Nat) : Prop :=
  ∃ t ∈ d.tracks.dropLast, d.track? sector = some t ∧ report.Names t sector

/-- A report that names the start of the first track. -/
def Disc.NamesFirst (d : Disc) (report : Subchannel) : Prop :=
  ∃ first ∈ d.tracks.head?, report.Names first first.start

namespace Disc

variable {d : Disc} {p : Nat}

/-- A sector with an owner is reported with it. -/
theorem Closed.namesOwner (h : d.Closed) (hinside : ¬ d.Outside p) :
    d.NamesOwner (d.subchannel (some p)) p := by
  obtain ⟨-, t, -, -, -, -, -, ht⟩ := track?_of_inside h hinside
  obtain ⟨-, -, first, hfirst⟩ := h.answers
  have hnames := names_subchannel hfirst (some p)
  rw [reported_of_owned ht] at hnames
  exact ⟨t, h.mem_dropLast_of_track? ht, ht, hnames⟩

/-- A sector without an owner is reported as the first track. -/
theorem Closed.namesFirst (h : d.Closed) (houtside : d.Outside p) :
    d.NamesFirst (d.subchannel (some p)) := by
  obtain ⟨-, -, first, hfirst⟩ := h.answers
  have hnames := names_subchannel hfirst (some p)
  simp only [reported, track?_of_outside h.sequential houtside] at hnames
  exact ⟨first, hfirst, hnames⟩

end Disc

namespace Segment.Underway

variable {s : Segment} {r : Request}

/-- A sector that a request has reached is not before the first track. -/
theorem inside (h : s.Underway r) (hclosed : r.medium.disc.Closed) {p : Nat} (hreached : s.start ≤ p)
    {out : Track} (hout : r.medium.disc.leadOut? = some out) (hbefore : p < out.start)
    (haddress : p ≤ RedBook.lastSector) : ¬ r.medium.disc.Outside p := by
  obtain ⟨sector, owner, howner, hsector⟩ := h.owned
  have hfrom := Disc.inside_of_track? hclosed.sequential howner
  simp only [Disc.Outside, not_or, not_forall, Nat.not_lt, Nat.not_le] at hfrom ⊢
  obtain ⟨-, ⟨first, hfirst, hstart⟩, -⟩ := hfrom
  exact ⟨haddress, ⟨first, hfirst, by omega⟩, out, hout, hbefore⟩

/-- **What is reported** of a request up to the lead-out on sectors that have an address. -/
theorem reports (h : s.Underway r) (hclosed : r.medium.disc.Closed)
    (hleadOut : ∀ out ∈ r.medium.disc.leadOut?, r.stop ≤ out.start)
    (haddress : r.stop ≤ RedBook.lastSector + 1) {p : Nat} (hfrom : s.start ≤ p) :
    let report := r.medium.disc.subchannel (some p)
    (p < r.stop → r.medium.disc.NamesOwner report p) ∧
    (p = r.stop → ∃ out, r.medium.disc.leadOut? = some out ∧
      (p < out.start ∧ p ≤ RedBook.lastSector → r.medium.disc.NamesOwner report p) ∧
      (p = out.start ∨ p = RedBook.lastSector + 1 → r.medium.disc.NamesFirst report)) := by
  intro report
  obtain ⟨⟨-, out, -, hout⟩, -⟩ := hclosed.answers
  have hend := hleadOut out hout
  have howner : p < out.start → p ≤ RedBook.lastSector → r.medium.disc.NamesOwner report p :=
    fun hbefore hnumber => hclosed.namesOwner (h.inside hclosed hfrom hout hbefore hnumber)
  refine ⟨fun hp => howner (by omega) (by omega), fun hp => ⟨out, hout, ?_, fun hover => ?_⟩⟩
  · exact fun ⟨hbefore, hnumber⟩ => howner hbefore hnumber
  · refine hclosed.namesFirst ?_
    rcases hover with hover | hover
    · refine Or.inr (Or.inr fun out' hout' => ?_)
      cases hout.symm.trans hout'
      exact Nat.le_of_eq hover.symm
    · exact Or.inl (hover ▸ Nat.lt_succ_self _)

end Segment.Underway

namespace Session

/-- **The position while playing.** Whatever was asked of a new player: while it plays, the segment is of
the last request that was accepted, and of a request that ends at the last number of a sector or before
it is the rest. The sector that has been reached is counted from the start of the segment. It is not behind
the end of the segment, and it is this end exactly if a decoded frame reaches into the last sector. It is
reported if it has 32 bits.

In a request up to the lead-out on sectors that have an address, the position report names the track that
owns the sector, as long as it is before the end. It does so at the end too, if this is before the lead-out
and has an address, and otherwise it names the first track. -/
theorem position_playing (calls : List Call) :
    let d := (new.run calls).deck
    d.player.playing = true →
      ∃ segment r, d.player.segment = some segment ∧ new.requested none calls = some r ∧
        segment.medium = r.medium ∧
        (r.stop ≤ 2 ^ 32 → r.start ≤ segment.start ∧ segment.start + segment.length = r.stop) ∧
        let p := segment.start + divUp (segment.played * 75) (max segment.source.rate 1)
        segment.start ≤ p ∧ p ≤ segment.start + segment.length ∧
        (p = segment.start + segment.length ↔
          (segment.length - 1) * segment.source.rate < segment.played * 75) ∧
        d.position r.medium.id = (if p ≤ RedBook.maxSector then some p else none) ∧
        (r.medium.disc.Loaded → (∀ out ∈ r.medium.disc.leadOut?, r.stop ≤ out.start) →
          r.stop ≤ RedBook.lastSector + 1 → ∀ drive : Drive, drive.medium = r.medium →
            let report := drive.subchannel d
            (p < r.stop → r.medium.disc.NamesOwner report p) ∧
            (p = r.stop → ∃ out, r.medium.disc.leadOut? = some out ∧
              (p < out.start ∧ p ≤ RedBook.lastSector → r.medium.disc.NamesOwner report p) ∧
              (p = out.start ∨ p = RedBook.lastSector + 1 → r.medium.disc.NamesFirst report))) := by
  intro d hplaying
  have hnew : new.deck.Underway none := Deck.Underway.of_stopped rfl
  obtain ⟨segment, r, hsegment, hr, hs⟩ := underway_run hnew calls hplaying
  have hexact : r.stop ≤ RedBook.sectorNumbers → segment.start + segment.length = r.stop :=
    hs.remains.exact hs.length_pos
  have hle := hs.elapsed_le
  have hposition : d.position r.medium.id =
      if segment.start + segment.elapsed ≤ RedBook.maxSector then
        some (segment.start + segment.elapsed) else none := by
    unfold Deck.position
    rw [hsegment]
    simp [hs.medium]
  refine ⟨segment, r, hsegment, hr, hs.medium,
    fun hstop => ⟨hs.start_le (hexact hstop), hexact hstop⟩, Nat.le_add_right _ _,
    Nat.add_le_add_left hle _, ?_, hposition, ?_⟩
  · rw [← hs.elapsed_eq_iff]
    exact Nat.add_left_cancel_iff
  · intro hloaded hleadOut haddress drive hdrive
    have hends : segment.start + segment.length = r.stop :=
      hexact (Nat.le_trans haddress (by decide))
    have hsmall : segment.start + segment.elapsed ≤ RedBook.maxSector :=
      Nat.le_trans (hends ▸ Nat.add_le_add_left hle _) (Nat.le_trans haddress (by decide))
    have hreport : drive.subchannel d =
        r.medium.disc.subchannel (some (segment.start + segment.elapsed)) := by
      rw [Drive.subchannel, Drive.disc, Drive.position, hdrive, hposition, if_pos hsmall]
    rw [hreport]
    exact hs.reports hloaded.closed hleadOut haddress (Nat.le_add_right _ _)

/-! ### Requests up to the end of a disc -/

/-- A request on a disc that has just been loaded, and a pull. -/
def onLoaded (loaded : Disc × Cursors) (start length : UInt32) (frames : Nat) : List Call :=
  [.elsewhere loaded.2, .play ⟨0, loaded.1⟩ start length, .pull frames]

/-- What is seen then: whether something is played, where the request ends, the position, and the number
of the track that is reported. -/
def seen (loaded : Disc × Cursors) (start length : UInt32) (frames : Nat) :
    Bool × Option Nat × Option Nat × Nat :=
  let calls := onLoaded loaded start length frames
  let d := (new.run calls).deck
  (d.player.playing, (new.requested none calls).map Request.stop, d.position 0,
    (loaded.1.subchannel (d.position 0)).track)

end Session

namespace Sheet

/-- The two files with as many sectors that the second goes on behind the last address. -/
def farStorage : Storage where
  entries := [(⟨false, ["s"]⟩, .file twoFiles), (⟨false, ["a"]⟩, .file (.filled 2352 0)),
    (⟨false, ["b"]⟩, .file (.filled 940804704 0))]

/-- A file of silence with one frame a second. -/
def slowFile (frames : Nat) : Contents :=
  let header := (Pcm.Header.pcm16 1 1 (2 * frames)).bytes.toArray
  ⟨header.size + 2 * frames, fun i => header.getD i 0⟩

/-- A sheet of such a file, which lasts for more than a year. -/
def slowStorage : Storage where
  entries := [(⟨false, ["s"]⟩,
      .file (.ofArray (Text.ascii "FILE a WAVE\nTRACK 1 AUDIO").toArray)),
    (⟨false, ["a"]⟩, .file (slowFile 57266230))]

/-- The disc of the sheet in a storage, and where its tracks begin. -/
theorem load_of_starts {storage : Storage} {starts : List Nat} {α : Type} {x : α}
    {f : Disc × Cursors → α}
    (h : (load storage (.search storage) "s" .none).toOption.map
      (fun loaded => (loaded.1.tracks.map Track.start, f loaded)) = some (starts, x)) :
    ∃ loaded, load storage (.search storage) "s" .none = .ok loaded ∧
      loaded.1.tracks.map Track.start = starts ∧ f loaded = x := by
  obtain ⟨loaded, hload, hseen⟩ := Option.map_eq_some_iff.mp h
  obtain ⟨hstarts, hx⟩ := Prod.mk.inj hseen
  exact ⟨loaded, toOption_eq_some_iff.mp hload, hstarts, hx⟩

end Sheet

namespace Session

/-- One frame of the first of two tracks has been heard, and the second is reported. -/
theorem position_playing_twoFiles : ∃ loaded,
    Sheet.load Sheet.twoFilesStorage (.search Sheet.twoFilesStorage) "s" .none = .ok loaded ∧
    seen loaded 0 2 1 = (true, some 2, some 1, 2) ∧
    loaded.1.NamesOwner
      (({ medium := ⟨0, loaded.1⟩ } : Drive).subchannel (new.run (onLoaded loaded 0 2 1)).deck) 1 := by
  have hseen : (Sheet.load Sheet.twoFilesStorage (.search Sheet.twoFilesStorage) "s"
      .none).toOption.map (fun loaded => (loaded.1.tracks.map Track.start, seen loaded 0 2 1)) =
      some ([0, 1, 2], true, some 2, some 1, 2) := by
    decide +kernel
  obtain ⟨loaded, hload, hstarts, hseen⟩ := Sheet.load_of_starts hseen
  refine ⟨loaded, hload, hseen, ?_⟩
  simp only [seen, Prod.mk.injEq] at hseen
  obtain ⟨hplaying, hstop, hposition, -⟩ := hseen
  obtain ⟨segment, r, -, hr, -, -, -, -, -, hreported, hnames⟩ :=
    position_playing (onLoaded loaded 0 2 1) hplaying
  have hmedium : r.medium = ⟨0, loaded.1⟩ := by
    simp only [onLoaded, requested, accepts, Option.none_or, Option.or_none] at hr
    split at hr
    · cases hr
      rfl
    · cases hr
  have hend : r.stop = 2 := by
    rw [hr] at hstop
    exact Option.some.inj hstop
  generalize segment.start + divUp (segment.played * 75) (max segment.source.rate 1) = p
    at hreported hnames
  rw [hmedium] at hreported hnames
  obtain rfl : p = 1 := by
    rw [hposition] at hreported
    split at hreported
    · exact (Option.some.inj hreported).symm
    · cases hreported
  have hloaded : loaded.1.Loaded := ⟨.ofStorage Sheet.twoFilesStorage, "s", .none, loaded.2,
    Disc.load_ok_iff.mpr (Or.inl hload)⟩
  have hleadOut : ∀ out ∈ loaded.1.leadOut?, r.stop ≤ out.start := by
    intro out hout
    have hstart : (loaded.1.tracks.map Track.start).getLast? = some out.start := by
      rw [List.getLast?_map]
      exact congrArg (Option.map Track.start) hout
    rw [hstarts] at hstart
    rw [hend]
    exact Nat.le_of_eq (Option.some.inj hstart)
  obtain ⟨howner, -⟩ := hnames hloaded hleadOut (by rw [hend]; decide) { medium := ⟨0, loaded.1⟩ } rfl
  exact howner (by omega)

/-- **At the end.** While the last sector of a request is heard, the position may be its end: on two
tracks of one sector, a frame of the second brings the position to the lead-out, and the first track is
reported. The same happens before the end of a request that goes on behind the last address. A position
that has more than 32 bits is not reported at all. -/
theorem position_playing_at_end :
    (∃ loaded,
      Sheet.load Sheet.twoFilesStorage (.search Sheet.twoFilesStorage) "s" .none = .ok loaded ∧
      loaded.1.tracks.map Track.start = [0, 1, 2] ∧
      seen loaded 1 1 1 = (true, some 2, some 2, 1)) ∧
    (∃ loaded, Sheet.load Sheet.farStorage (.search Sheet.farStorage) "s" .none = .ok loaded ∧
      loaded.1.tracks.map Track.start = [0, 1, 400003] ∧
      seen loaded 399999 2 1 = (true, some 400001, some 400000, 1)) ∧
    ∃ loaded, Sheet.load Sheet.slowStorage (.search Sheet.slowStorage) "s" .none = .ok loaded ∧
      loaded.1.tracks.map Track.start = [0, 4294967250] ∧
      seen loaded 74 4294967295 57266230 = (true, some 4294967369, none, 1) := by
  refine ⟨Sheet.load_of_starts ?_, Sheet.load_of_starts ?_, Sheet.load_of_starts ?_⟩
  · decide +kernel
  · decide +kernel
  · decide +kernel

end Session

end CompactDisc
