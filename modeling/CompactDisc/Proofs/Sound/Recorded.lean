import CompactDisc.Proofs.Pcm.Clock
import CompactDisc.Proofs.Sound.Within

/-!
# CompactDisc.Proofs.Sound.Recorded

**Tracks that are files of sound.** A track that is all of a file of sound runs dry before the end of any
request that goes on behind it. Where playing goes on then is a sum of two roundings: the track ends
where its time in milliseconds does, and the sectors that are counted as played are those of its frames
(`Track.Records.done_eq`).

The next track is begun with its first frame exactly where the two agree
(`Disc.Recordings.behind_eq_cons_iff`). At the rate of the disc they agree for most numbers of frames. But
for a few the frames are counted as one sector less than the track has: then its last sector is gone to,
which begins behind the end of the sound, and playing stops. And for a few they are counted as one more,
and a sector is left out.
-/

namespace CompactDisc

/-! ### Files of sound -/

namespace Source

/-- All frames of a source. -/
def frames (s : Source) : List (List UInt8) := s.framesBehind 0

/-- A file of sound that holds all it declares, and at least one frame. -/
structure Recording (s : Source) (stream : Pcm.Stream) : Prop where
  format : s.format = .stream stream
  plain : stream.Plain
  rate_pos : 0 < stream.rate
  stored : ∃ c, s.contents = some c ∧ stream.start + stream.size ≤ c.size
  filled : 0 < stream.size / stream.block

namespace Recording

variable {s : Source} {stream : Pcm.Stream} {offset : Nat}

theorem rate_eq (h : s.Recording stream) : s.rate = stream.rate := by
  unfold rate
  rw [h.format]

theorem block_pos (h : s.Recording stream) : 0 < stream.block :=
  h.plain.block_eq ▸ h.plain.frameSize_pos

theorem length_frames (h : s.Recording stream) : s.frames.length = stream.size / stream.block := by
  obtain ⟨c, hc, hstored⟩ := h.stored
  unfold frames framesBehind
  rw [h.format, hc, Option.getD_some]
  dsimp only
  rw [List.length_map, List.length_range, h.plain.playable_of_le hstored, Nat.zero_div, Nat.sub_zero]

theorem frames?_eq (h : s.Recording stream) : stream.frames? = some s.frames.length := by
  rw [Pcm.Stream.frames?, if_neg (Nat.ne_of_gt h.block_pos), h.length_frames]

/-- No place has more frames behind it than the first one. -/
theorem length_framesBehind_le (h : s.Recording stream) (cursor : Nat) :
    (s.framesBehind cursor).length ≤ s.frames.length := by
  unfold frames framesBehind
  rw [h.format]
  dsimp only
  rw [List.length_map, List.length_range, List.length_map, List.length_range, Nat.zero_div]
  exact Nat.sub_le_sub_left (Nat.zero_le _) _

theorem length_pos (h : s.Recording stream) : 0 < s.frames.length := by
  rw [h.length_frames]
  exact h.filled

/-- The first frame can be gone to. -/
theorem seek_zero (h : s.Recording stream) (cursor : Nat) : s.seek 0 cursor = (.ok (), 0) := by
  unfold seek
  rw [h.format]
  dsimp only
  rw [if_neg (Nat.ne_of_gt h.block_pos), Pcm.Stream.frameAt_zero, if_pos (Nat.zero_le _),
    h.plain.sampleAt_eq, Nat.zero_mul]

/-- A frame behind the end cannot be gone to. -/
theorem seek_behind (h : s.Recording stream) (cursor : Nat)
    (hbehind : s.frames.length < stream.frameAt (Pcm.Stream.millisecond offset)) :
    s.seek offset cursor = (.error .outOfRange, cursor) := by
  rw [h.length_frames] at hbehind
  unfold seek
  rw [h.format]
  dsimp only
  rw [if_neg (Nat.ne_of_gt h.block_pos), if_neg (Nat.not_le.mpr hbehind)]

end Recording

end Source

/-! ### Tracks of sound -/

/-- A track that is all of a file of sound. -/
structure Track.Records (t : Track) (s : Source) (stream : Pcm.Stream) : Prop where
  source : t.source = some s
  recording : s.Recording stream
  sound : t.isData = false
  skip : t.skip = 0
  sectorSize : t.sectorSize = RedBook.rawSectorSize
  /-- The track has the sectors of its time. -/
  length : ∃ bytes, stream.length? = some bytes ∧ bytes < 2 ^ 32 ∧
    t.length = divUp bytes RedBook.rawSectorSize

/-- What is played of a track from its start on. -/
def Track.passage (t : Track) (s : Source) (length : Nat) : Passage where
  plan := { track := t, source := s, start := t.start, length, offset := 0 }
  frames := s.frames

/-- A track as it is played from its start on in a request that ends at `stop`. -/
def Track.passage? (stop : Nat) (t : Track) : Option Passage :=
  t.source.map fun s => t.passage s (stop - t.start)

/-- For a track, as many sectors are counted as it has. -/
def Track.Agrees (stop : Nat) (t : Track) : Prop := ∀ p ∈ t.passage? stop, p.done = t.length

/-- All frames of a track. -/
def Track.decoded (t : Track) : List Decoded :=
  t.source.elim [] fun s => s.frames.map fun bytes => ⟨s, bytes⟩

/-- Tracks that are played from their starts on are heard with all their frames. -/
theorem Track.decoded_run (run : List Track) (stop : Nat) :
    (run.filterMap (Track.passage? stop)).flatMap (fun q => q.decoded q.frames) =
      run.flatMap Track.decoded := by
  induction run with
  | nil => rfl
  | cons t run ih =>
      rw [List.flatMap_cons, ← ih, List.filterMap_cons]
      cases hs : t.source <;> simp [Track.passage?, Track.decoded, Track.passage, Passage.decoded, hs]

namespace Track.Records

variable {t : Track} {s : Source} {stream : Pcm.Stream} {length : Nat}

/-- A request that goes on behind the track is longer than the sound. -/
theorem lt_total (h : t.Records s stream) (hlength : t.length < length) :
    s.frames.length < (t.passage s length).total := by
  obtain ⟨bytes, hbytes, hshort, hsectors⟩ := h.length
  have hfit := (divUp_le_iff (k := t.length) (by decide)).mp (Nat.le_of_eq hsectors.symm)
  rw [Nat.mul_comm] at hfit
  have hlt := Pcm.Stream.lt_framesOf h.recording.rate_pos h.recording.frames?_eq hbytes hshort hfit
    hlength
  rw [← h.recording.rate_eq] at hlt
  exact hlt

/-- So the source runs dry, and sectors have been played by then. -/
theorem runsDry (h : t.Records s stream) (hlength : t.length < length) :
    (t.passage s length).RunsDry := by
  have htotal := h.lt_total hlength
  refine ⟨?_, htotal⟩
  rw [Passage.done, divUp_pos_iff (by omega)]
  exact Nat.mul_pos h.recording.length_pos (by
    show 0 < length
    omega)

/-- No passage of the track is counted as more than one sector above what the track has. -/
theorem done_le (h : t.Records s stream) {p : Passage} (hp : p.plan.passage? = some p)
    (hsource : p.plan.source = s) (hlength : 0 < p.plan.length) : p.done ≤ t.length + 1 := by
  have hframes : p.frames.length ≤ s.frames.length := by
    obtain ⟨cursor, -, hp⟩ := Plan.passage?_eq_some_iff.mp hp
    rw [congrArg Passage.frames hp, hsource]
    exact h.recording.length_framesBehind_le cursor
  have hfew : s.frames.length < divUp (s.rate * (t.length + 1)) 75 :=
    h.lt_total (Nat.lt_succ_self t.length)
  rw [← Nat.not_le, divUp_le_iff (by decide), Nat.not_le, Nat.mul_comm s.rate] at hfew
  refine divUp_share_le p.plan.source.rate_pos hlength ?_
  rw [hsource]
  omega

theorem total_disc (h : t.Records s stream) (hrate : stream.rate = RedBook.sampleRate)
    (length : Nat) : (t.passage s length).total = Pcm.Stream.sectorFrames * length := by
  have hsectors : RedBook.sampleRate * length = 75 * (Pcm.Stream.sectorFrames * length) := by
    rw [← Nat.mul_assoc]
    rfl
  show divUp (s.rate * length) 75 = _
  rw [h.recording.rate_eq, hrate, hsectors, divUp_mul_left (by decide)]

/-- At the rate of the disc, as many sectors are counted as the frames reach. -/
theorem done_disc (h : t.Records s stream) (hrate : stream.rate = RedBook.sampleRate)
    (hlength : 0 < length) :
    (t.passage s length).done = divUp s.frames.length Pcm.Stream.sectorFrames := by
  rw [Passage.done, h.total_disc hrate]
  exact divUp_mul_right hlength (by decide) _

/-- At the rate of the disc, the track is as long as its frames, unless their time is rounded out of their
last sector or into a further one. -/
theorem length_disc (h : t.Records s stream) (hrate : stream.rate = RedBook.sampleRate) :
    t.length =
      if Pcm.Stream.RoundedUp s.frames.length then
        divUp s.frames.length Pcm.Stream.sectorFrames + 1
      else if Pcm.Stream.RoundedDown s.frames.length then
        divUp s.frames.length Pcm.Stream.sectorFrames - 1
      else divUp s.frames.length Pcm.Stream.sectorFrames := by
  obtain ⟨bytes, hbytes, hshort, hsectors⟩ := h.length
  have hframes := h.recording.frames?_eq
  have hlast := h.lt_total (Nat.lt_succ_self t.length)
  rw [h.total_disc hrate] at hlast
  have hlong : t.length < 2 ^ 21 := by
    rw [hsectors]
    unfold divUp RedBook.rawSectorSize
    omega
  have hfew : s.frames.length < 2 ^ 40 := by
    unfold Pcm.Stream.sectorFrames at hlast
    omega
  rw [hsectors, Pcm.Stream.length?_eq hframes hbytes hshort, hrate,
    Pcm.Stream.duration_disc hfew, Pcm.Stream.sectors_frames]

/-- **The sectors that are counted**, against those that the track has. -/
theorem done_eq (h : t.Records s stream) (hrate : stream.rate = RedBook.sampleRate)
    (hlength : 0 < length) : (t.passage s length).done =
      if Pcm.Stream.RoundedUp s.frames.length then t.length - 1
      else if Pcm.Stream.RoundedDown s.frames.length then t.length + 1
      else t.length := by
  have hsectors := h.length_disc hrate
  have hsome := (divUp_pos_iff (d := Pcm.Stream.sectorFrames) (by decide)).mpr
    h.recording.length_pos
  rw [h.done_disc hrate hlength]
  by_cases hup : Pcm.Stream.RoundedUp s.frames.length
  · rw [if_pos hup] at hsectors ⊢
    omega
  · rw [if_neg hup] at hsectors ⊢
    by_cases hdown : Pcm.Stream.RoundedDown s.frames.length
    · rw [if_pos hdown] at hsectors ⊢
      omega
    · rw [if_neg hdown] at hsectors ⊢
      exact hsectors.symm

/-- At the rate of the disc, the last sector of a track that is rounded up cannot be gone to. -/
theorem seek_last (h : t.Records s stream) (hrate : stream.rate = RedBook.sampleRate)
    (hshort : t.length ≤ 400000) (hup : Pcm.Stream.RoundedUp s.frames.length) (cursor : Nat) :
    s.seek ((t.length - 1) * RedBook.rawSectorSize) cursor = (.error .outOfRange, cursor) := by
  have hlength := h.length_disc hrate
  rw [if_pos hup] at hlength
  have hlast := h.lt_total (Nat.lt_succ_self t.length)
  rw [h.total_disc hrate] at hlast
  have hfew : s.frames.length < 2 ^ 28 := by
    unfold Pcm.Stream.sectorFrames at hlast
    omega
  refine h.recording.seek_behind cursor ?_
  rw [hlength, Nat.add_sub_cancel]
  exact Pcm.Stream.lt_frameAt_of_roundedUp hrate hfew hup

end Track.Records

/-! ### Discs of such tracks -/

/-- Every track is all of a file of sound of its own, they stand one behind the other without gaps, and
the lead-out begins inside the address space. -/
structure Disc.Recorded (d : Disc) : Prop where
  sound : ∀ t ∈ d.tracks.dropLast, t.isData = false ∧ t.skip = 0 ∧
    ∃ s stream, t.source = some s ∧ s.Recording stream
  own : d.tracks.dropLast.Pairwise fun t u => t.sharesSource u = false
  gapless : d.tracks.IsChain fun t u => t.endSector = u.start
  short : ∀ out ∈ d.tracks.getLast?, out.start ≤ 400000

/-- What can be relied on in such a disc once it is loaded. -/
structure Disc.Recordings (d : Disc) : Prop where
  closed : d.Closed
  records : ∀ t ∈ d.tracks.dropLast, ∃ s stream, t.Records s stream
  gapless : d.tracks.IsChain fun t u => t.endSector = u.start
  short : ∀ out ∈ d.tracks.getLast?, out.start ≤ 400000

namespace Disc.Recordings

variable {disc : Disc} {before after : List Track} {t u : Track} {start length : Nat} {p : Passage}
  {s : Source} {stream : Pcm.Stream}

theorem endSector_le (h : disc.Recordings) (ht : t ∈ disc.tracks.dropLast) :
    t.endSector ≤ 400000 := by
  obtain ⟨init, last, out, htracks, -⟩ := h.closed.eq_append
  have hlast : disc.tracks.getLast? = some out := by
    rw [htracks, List.append_cons, List.getLast?_concat]
  exact Nat.le_trans (h.closed.endSector_le hlast ht) (h.short out hlast)

/-- The next track starts where a track ends. -/
theorem endSector_eq (h : disc.Recordings) (heq : disc.tracks = before ++ t :: u :: after) :
    t.endSector = u.start := by
  have hgapless := h.gapless
  rw [heq, List.isChain_append, List.isChain_cons_cons] at hgapless
  exact hgapless.2.1.1

/-- Without gaps, a sector is owned by a track that it is inside of. -/
theorem start_le (h : disc.Recordings) {sector : Nat} (howner : disc.track? sector = some t) :
    t.start ≤ sector := by
  have hinside := inside_of_track? h.closed.sequential howner
  obtain ⟨before, after, heq, -, hbefore, -⟩ := h.closed.split_of_track? howner
  rcases List.eq_nil_or_concat before with rfl | ⟨init, last, rfl⟩
  · by_contra hlate
    refine hinside (Or.inr (Or.inl fun first hfirst => ?_))
    rw [heq] at hfirst
    cases hfirst
    exact Nat.lt_of_not_le hlate
  · rw [List.concat_eq_append] at heq hbefore
    rw [List.append_assoc, List.singleton_append] at heq
    rw [← h.endSector_eq heq]
    exact hbefore last (by simp)

/-- Whatever is counted for a passage, it goes on inside the numbers of the sectors. -/
theorem numbered (h : disc.Recordings) (start length : Nat) :
    Disc.Numbered (disc.passages start length) := by
  intro p hmem _
  obtain ⟨front, rest, hpassages⟩ := List.append_of_mem hmem
  obtain ⟨-, start', length', -, hp⟩ := passages_split hpassages
  obtain ⟨hfind, hplays⟩ := passage?_eq_some_iff.mp hp
  obtain ⟨-, -, t, w, howner, -, hw, -, hplan⟩ := Plan.find_ok_iff.mp hfind
  have hmem' := h.closed.mem_dropLast_of_track? howner
  obtain ⟨s, stream, ht⟩ := h.records t hmem'
  obtain rfl := Option.some.inj (hw.symm.trans ht.source)
  have hdone := ht.done_le hplays (by rw [hplan]) (Plan.length_pos_of_find hfind)
  have hstart : p.plan.start < t.endSector := by
    have hfrom := h.start_le howner
    have hend := h.closed.lt_endSector howner
    rw [hplan]
    exact Nat.max_lt.mpr ⟨hend, Nat.lt_of_le_of_lt hfrom hend⟩
  have hend := h.endSector_le hmem'
  unfold Track.endSector at hstart hend
  unfold RedBook.sectorNumbers
  omega

/-- A passage that begins where a track does is that of the track. -/
theorem passage_eq (hp : disc.passage? start length = some p) (ht : t.Records s stream)
    (htrack : p.plan.track = t) (hstart : p.plan.start = t.start) :
    p = t.passage s (start + length - t.start) := by
  obtain ⟨hfind, hplays⟩ := passage?_eq_some_iff.mp hp
  obtain ⟨-, -, t', s', -, -, hs, hreach, hplan⟩ := Plan.find_ok_iff.mp hfind
  obtain rfl : t' = t := by
    rw [hplan] at htrack
    exact htrack
  obtain rfl := Option.some.inj (hs.symm.trans ht.source)
  have hfrom : start ≤ t'.start := by
    rw [hplan] at hstart
    change max start t'.start = t'.start at hstart
    omega
  have hplan : p.plan = (t'.passage s' (start + length - t'.start)).plan := by
    rw [hplan, Track.passage, ht.skip, Nat.sub_eq_zero_of_le hfrom, Nat.max_eq_right hfrom,
      Nat.zero_min, Nat.zero_mul, Nat.add_zero]
    congr 1
    omega
  obtain ⟨plan, frames⟩ := p
  obtain rfl := hplan
  obtain ⟨cursor, hseek, hp⟩ := Plan.passage?_eq_some_iff.mp hplays
  have hzero : cursor = 0 := congrArg Prod.snd (hseek.symm.trans (ht.recording.seek_zero 0))
  rw [hp, hzero]
  rfl

/-- A track that has sectors is played from its start on. -/
theorem passage?_start (h : disc.Recordings) (hmem : t ∈ disc.tracks.dropLast)
    (ht : t.Records s stream) (hfilled : 0 < t.length) (hlength : 0 < length) :
    disc.passage? t.start length = some (t.passage s length) := by
  have hend := h.endSector_le hmem
  unfold Track.endSector at hend
  have howner := h.closed.track?_of_mem (List.mem_of_mem_dropLast hmem) (Nat.le_refl _)
    (by unfold Track.endSector; omega) (by unfold RedBook.lastSector; omega)
  refine passage?_eq_some_iff.mpr ⟨Plan.find_ok_iff.mpr
    ⟨hlength, rfl, t, s, howner, ht.sound, ht.source, by omega, ?_⟩, ?_⟩
  · rw [Track.passage, ht.skip]
    simp
  · exact Plan.passage?_eq_some_iff.mpr ⟨0, ht.recording.seek_zero 0, rfl⟩

/-- **Where playing goes on behind a track**, as far as it does. -/
theorem behind_passage (ht : t.Records s stream) (hlength : t.length < length) :
    disc.behind (t.passage s length) =
      disc.passages (t.start + (t.passage s length).done)
        (length - (t.passage s length).done) :=
  if_pos (ht.runsDry hlength)

section

variable {s' : Source} {stream' : Pcm.Stream}

/-- **The next track is begun with its first frame** exactly if as many sectors are counted as the track
has, and the next track has sectors. -/
theorem behind_eq_cons_iff (h : disc.Recordings) (heq : disc.tracks = before ++ t :: u :: after)
    (hafter : after ≠ []) (ht : t.Records s stream) (hu : u.Records s' stream')
    (hfilled : 0 < t.length) (hlength : t.length < length) :
    (∃ more, disc.behind (t.passage s length) = u.passage s' (length - t.length) :: more) ↔
      (t.passage s length).done = t.length ∧ 0 < u.length := by
  have hmem : t ∈ disc.tracks := by simp [heq]
  have hnext := h.endSector_eq heq
  have hmem' : u ∈ disc.tracks.dropLast := by
    obtain ⟨v, rest, rfl⟩ := List.exists_cons_of_ne_nil hafter
    rw [List.append_cons] at heq
    exact Pieces.mem_dropLast heq
  rw [behind_passage ht hlength]
  generalize (t.passage s length).done = done
  unfold Track.endSector at hnext
  constructor
  · intro ⟨more, hbehind⟩
    obtain ⟨q, hq⟩ : ∃ q, disc.passage? (t.start + done) (length - done) = some q := by
      cases hfirst : disc.passage? (t.start + done) (length - done) with
      | none =>
          rw [passages_of_none hfirst] at hbehind
          cases hbehind
      | some q => exact ⟨q, rfl⟩
    rw [passages_of_some hq, List.cons.injEq] at hbehind
    obtain ⟨-, -, u', _, howner, -, -, -, hplan⟩ :=
      Plan.find_ok_iff.mp (passage?_eq_some_iff.mp hq).1
    rw [hbehind.1, Track.passage, Plan.mk.injEq] at hplan
    obtain ⟨rfl, -, hstart, -⟩ := hplan
    have hend := h.closed.lt_endSector howner
    unfold Track.endSector at hend
    -- before the end of the track, its own sectors would be found again
    have hdone : ¬ done < t.length := by
      intro hless
      have hsame := h.closed.eq_of_track? hmem (Nat.le_add_right _ _)
        (by unfold Track.endSector; omega) howner
      rw [hsame] at hnext
      omega
    omega
  · intro ⟨hdone, hfilled'⟩
    rw [hdone, hnext]
    exact ⟨_, passages_of_some (h.passage?_start hmem' hu hfilled' (by omega))⟩

end

/-- **A run of tracks** for which as many sectors are counted as they have is played from its first track
up to the track behind it, which is then begun with its first frame. -/
theorem passages_run (h : disc.Recordings) {stop : Nat} {run : List Track} {v : Track}
    (heq : disc.tracks = before ++ run ++ v :: after) (hreach : v.start < stop)
    (hrun : ∀ u ∈ run, 0 < u.length ∧ u.Agrees stop) :
    ∀ first ∈ (run ++ [v]).head?, disc.passages first.start (stop - first.start) =
      run.filterMap (Track.passage? stop) ++ disc.passages v.start (stop - v.start) := by
  induction run generalizing before with
  | nil =>
      intro first hfirst
      cases hfirst
      rfl
  | cons t run ih =>
      intro first hfirst
      cases hfirst
      obtain ⟨hfilled, hagrees⟩ := hrun t List.mem_cons_self
      obtain ⟨next, rest, hnext⟩ : ∃ next rest, run ++ v :: after = next :: rest :=
        List.exists_cons_of_ne_nil (by simp)
      have hsplit : disc.tracks = before ++ t :: next :: rest := by
        rw [heq, List.append_assoc, List.cons_append, hnext]
      have hmem := Pieces.mem_dropLast hsplit
      have hend := h.endSector_eq hsplit
      have hhead : next ∈ (run ++ [v]).head? := by
        cases run with
        | nil =>
            cases hnext
            rfl
        | cons w run =>
            cases hnext
            rfl
      -- the request reaches all of the run, since it reaches the track behind it
      have hlate : t.endSector ≤ v.start := by
        have hordered := h.closed.ordered
        rw [hsplit, List.isChain_append] at hordered
        exact endSector_le_start hordered.2.1 v (by rw [← hnext]; simp)
      unfold Track.endSector at hend hlate
      obtain ⟨s, stream, ht⟩ := h.records t hmem
      have hmoved : disc.tracks = (before ++ [t]) ++ run ++ v :: after := by
        rw [heq]
        simp
      have hthis : t.passage? stop = some (t.passage s (stop - t.start)) := by
        rw [Track.passage?, ht.source]
        rfl
      rw [passages_of_some (h.passage?_start hmem ht hfilled (by omega)),
        behind_passage ht (by omega), hagrees _ hthis, hend, Nat.sub_sub, hend,
        ih hmoved (fun u hu => hrun u (List.mem_cons_of_mem _ hu)) next hhead,
        List.filterMap_cons_some hthis, List.cons_append]

/-- **Playing stops behind a track** of the rate of the disc whose time is rounded up. -/
theorem behind_roundedUp (h : disc.Recordings) (hmem : t ∈ disc.tracks.dropLast)
    (ht : t.Records s stream) (hlength : t.length < length)
    (hrate : stream.rate = RedBook.sampleRate) (hup : Pcm.Stream.RoundedUp s.frames.length) :
    disc.behind (t.passage s length) = [] := by
  have hsectors := ht.length_disc hrate
  rw [if_pos hup, ← ht.done_disc hrate (by omega : 0 < length)] at hsectors
  rw [behind_passage ht hlength]
  generalize (t.passage s length).done = done at hsectors ⊢
  have hend := h.endSector_le hmem
  unfold Track.endSector at hend
  refine passages_of_none (Option.eq_none_iff_forall_ne_some.mpr fun q hq => ?_)
  obtain ⟨hfind, hplays⟩ := passage?_eq_some_iff.mp hq
  obtain ⟨-, -, t', s', howner, -, hs, -, hplan⟩ := Plan.find_ok_iff.mp hfind
  obtain rfl := h.closed.eq_of_track? (List.mem_of_mem_dropLast hmem) (Nat.le_add_right _ _)
    (by unfold Track.endSector; omega) howner
  obtain rfl := Option.some.inj (hs.symm.trans ht.source)
  have hoffset : q.plan.offset = (t'.length - 1) * RedBook.rawSectorSize := by
    rw [hplan, ht.skip, ht.sectorSize, Nat.zero_add, Nat.add_sub_cancel_left,
      Nat.min_eq_right (by omega)]
  obtain ⟨cursor, hseek, -⟩ := Plan.passage?_eq_some_iff.mp hplays
  rw [hoffset, hplan] at hseek
  cases hseek.symm.trans (ht.seek_last hrate (by omega) hup 0)

end Disc.Recordings

end CompactDisc
