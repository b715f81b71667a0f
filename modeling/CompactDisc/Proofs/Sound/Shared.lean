import CompactDisc.Proofs.Sound.Seamless

/-!
# CompactDisc.Proofs.Sound.Shared

**Playing tracks that share a file.** Within a file a passage goes on across the ends of tracks, and
no sector is resolved again before the file runs dry. If a request is `Disc.Seamless`, then what it
plays is what the sector map says: nothing of a data track, nothing of a track that starts at its end
or later, and no byte twice (`Disc.InRow.route_seamless`). Otherwise it plays whatever is stored behind
its first track (`Disc.InRow.plays_on`), and a file that is shorter than its sectors is played again
from where the sector map has the next sector (`Disc.InRow.replays`).

Proof shape: a passage begins in step with the owner of its first sector (`Plan.Begins`). The passages
of a seamless route are in different files, one behind the other (`source_lt_of_dry`), and the route
is an induction on its passages.
-/

namespace CompactDisc

/-! ### Passages -/

/-- A request is played as the sector map says, whatever files it plays across. -/
def Disc.Seamless (d : Disc) (start stop : Nat) : Prop :=
  d.tracks.IsChain (Track.Seamless start stop)

/-- Frames that go through each file from the front, so no byte is among them twice. -/
def Once (frames : List Frame) : Prop :=
  frames.Pairwise fun f g => f.source.id = g.source.id → f.byte + 4 ≤ g.byte

/-- No frame that is played for a sector before the end has bytes of a data track, or of a track that
starts at the end or later. -/
def Disc.Respects (d : Disc) (stop : Nat) (frames : List Frame) : Prop :=
  ∀ f ∈ frames, f.sector < stop → ∀ u ∈ d.tracks, u.source = some f.source →
    u.isData = true ∨ stop ≤ u.start → f.byte + 4 ≤ u.skip ∨ u.skip + u.length * u.sectorSize ≤ f.byte

/-- A disc whose tracks are stored in files, one behind the other. -/
structure Disc.InRow (d : Disc) : Prop where
  closed : d.Closed
  row : Track.Row d.tracks
  inside : ∀ t ∈ d.tracks, ∀ s ∈ t.source, ∃ contents, s.contents = some contents ∧
    s.format = .binary contents.size ∧ t.skip ≤ contents.size ∧
    ∀ k < t.length, t.skip + k * t.sectorSize < contents.size

/-- Where a passage begins: with the owner of its first sector, and in step with it. -/
structure Plan.Begins (plan : Plan) (disc : Disc) (first : Nat) (before after : List Track) :
    Prop where
  owner : disc.track? first = some plan.track
  split : disc.tracks = before ++ plan.track :: after
  passed : ∀ u ∈ before, u.endSector ≤ first
  inside : first < plan.track.endSector
  source : plan.track.source = some plan.source
  sound : plan.track.isData = false
  reached : plan.track.start < plan.start + plan.length
  start : plan.start = max first plan.track.start
  step : plan.track.InStep plan.offset plan.start
  skip : plan.track.skip ≤ plan.offset

namespace Plan.Begins

variable {plan : Plan} {disc : Disc} {first : Nat} {before after : List Track}

theorem first_le (h : plan.Begins disc first before after) : first ≤ plan.start := by
  rw [h.start]
  exact Nat.le_max_left _ _

theorem start_le (h : plan.Begins disc first before after) :
    plan.start ≤ plan.track.endSector := by
  rw [h.start]
  exact Nat.max_le.mpr ⟨Nat.le_of_lt h.inside, Nat.le_add_right _ _⟩

theorem offset_eq (h : plan.Begins disc first before after) :
    plan.offset = plan.track.byteFrom first := by
  have hstart := h.start
  have hstep := h.step
  unfold Track.InStep at hstep
  unfold Track.byteFrom
  omega

end Plan.Begins

namespace Disc.InRow

variable {disc : Disc} {start stop first length : Nat} {plan : Plan}

theorem begins_of_find (h : disc.InRow) (hfind : Plan.find disc true first length = .ok plan) :
    ∃ before after, plan.Begins disc first before after := by
  have hkept := Plan.stop_of_find hfind
  obtain ⟨-, -, t, s, ht, hsound, hs, hreach, rfl⟩ := Plan.find_ok_iff.mp hfind
  obtain ⟨before, after, heq, -, hbefore, hend⟩ := h.closed.split_of_track? ht
  have hsize := h.row.sized t (mem_of_track? ht) (by rw [hs]; rfl) hsound
  refine ⟨before, after, ht, heq, hbefore, hend, hs, hsound, hkept ▸ hreach, rfl, ?_,
    Nat.le_add_right _ _⟩
  show t.skip + max first t.start * 2352 =
    t.skip + min (first - t.start) (t.length - 1) * t.sectorSize + t.start * 2352
  -- the owner has the first sector, so the offset is not cut to its last one
  have hwithin : min (first - t.start) (t.length - 1) = first - t.start := by
    unfold Track.endSector at hend
    omega
  rw [hwithin, hsize]
  rcases Nat.le_total first t.start with hgap | hgap
  · rw [Nat.max_eq_right hgap]
    omega
  · rw [Nat.max_eq_left hgap]
    omega

/-- A seamless passage keeps clear of the tracks of its file that are not to be heard. -/
theorem respects_of_find (h : disc.InRow) (hseamless : disc.Seamless start stop)
    (hfind : Plan.find disc true first length = .ok plan) (hstart : start ≤ first)
    (hstop : first + length = stop) : disc.Respects stop plan.frames := by
  intro f hf hdue u hu hus hsilent
  rw [Plan.source_of_mem_frames hf] at hus
  obtain ⟨before, after, hbegins⟩ := h.begins_of_find hfind
  obtain ⟨j, rfl⟩ := Plan.mem_frames hf
  have hend := hbegins.inside
  have hrow := h.row
  unfold Seamless at hseamless
  rw [hbegins.split] at hu hrow hseamless
  rcases List.mem_append.mp hu with hu | hu
  · -- a track before the owner ends before the passage begins
    right
    obtain ⟨front, back, rfl⟩ := List.append_of_mem hu
    rw [List.append_assoc] at hrow
    have hbytes := hrow.suffix.bytes_le_skip hus (List.mem_append_right _ List.mem_cons_self)
      hbegins.source
    have hskip := hbegins.skip
    show _ ≤ plan.offset + 4 * j
    omega
  · left
    rcases List.mem_cons.mp hu with rfl | hu
    · -- the owner itself is heard
      rcases hsilent with hsilent | hsilent
      · rw [hbegins.sound] at hsilent
        cases hsilent
      · have hreached := hbegins.reached
        rw [Plan.stop_of_find hfind] at hreached
        omega
    · have hclear := hrow.suffix.clear (List.isChain_append.mp hseamless).2.1 hbegins.source
        hbegins.sound (Nat.lt_of_le_of_lt hstart hend) hbegins.step hu hus hsilent
      have hsector : plan.start + j / 588 < stop := hdue
      show plan.offset + 4 * j + 4 ≤ u.skip
      omega

/-- A passage begins before the bytes of the later tracks of its file. -/
theorem offset_le_skip (h : disc.InRow) {before after before' after' : List Track} {u : Track}
    (hbegins : plan.Begins disc first before' after')
    (heq : disc.tracks = before ++ plan.track :: after) (hu : u ∈ after)
    (hus : u.source = some plan.source) : plan.offset ≤ u.skip := by
  have hrow := h.row
  rw [heq] at hrow
  have hbytes := hrow.suffix.bytes_le_skip hbegins.source hu hus
  rw [hrow.suffix.sized _ List.mem_cons_self (by rw [hbegins.source]; rfl) hbegins.sound] at hbytes
  have hstep := hbegins.step
  have hwithin := hbegins.start_le
  unfold Track.InStep at hstep
  unfold Track.endSector at hwithin
  omega

/-- A passage plays on by the bytes: whatever is stored behind its owner before the request is done
is played for a sector of the request. -/
theorem plays_on (h : disc.InRow) (hfind : Plan.find disc true first length = .ok plan)
    {before after : List Track} {t u : Track} (heq : disc.tracks = before ++ t :: after)
    (howner : disc.track? first = some t) (hu : u ∈ after) (hshare : u.source = t.source)
    (hfilled : 0 < u.length) (hreach : u.skip + t.start * 2352 < t.skip + (first + length) * 2352) :
    ∃ f ∈ plan.frames, u.source = some f.source ∧ f.sector < first + length ∧ f.byte ≤ u.skip ∧
      u.skip < f.byte + 4 := by
  obtain ⟨_, _, hbegins⟩ := h.begins_of_find hfind
  obtain rfl : plan.track = t := Option.some.inj (hbegins.owner.symm.trans howner)
  have hus := hshare.trans hbegins.source
  have hmem : u ∈ disc.tracks := heq ▸ List.mem_append_right _ (List.mem_cons_of_mem _ hu)
  obtain ⟨contents, hcontents, -, -, hsectors⟩ := h.inside u hmem plan.source hus
  have hinside := hsectors 0 hfilled
  rw [Nat.zero_mul, Nat.add_zero] at hinside
  have hfrom := h.offset_le_skip hbegins heq hu hus
  obtain ⟨f, hf, hsector, hbyte⟩ := Plan.frame_at hcontents hfrom hinside
  refine ⟨f, hf, (Plan.source_of_mem_frames hf).symm ▸ hus, ?_, hbyte⟩
  have hstep := hbegins.step
  unfold Track.InStep at hstep
  omega

/-- The next passage, if it is in the same file, does not begin before the one that has run dry. -/
theorem offset_le_of_next (h : disc.InRow) {next : Plan}
    (hfind : Plan.find disc true first length = .ok plan)
    (hnext : Plan.find disc true (plan.start + plan.done) (plan.length - plan.done) = .ok next)
    (hsource : next.source = plan.source) : plan.offset ≤ next.offset := by
  obtain ⟨before, after, hbegins⟩ := h.begins_of_find hfind
  obtain ⟨_, _, hagain⟩ := h.begins_of_find hnext
  have hfirst := hbegins.first_le
  have hlater := hagain.first_le
  have hmem := mem_of_track? hagain.owner
  rw [hbegins.split] at hmem
  rcases List.mem_append.mp hmem with hmem | hmem
  · have hpassed := hbegins.passed _ hmem
    have hinside := hagain.inside
    omega
  · rcases List.mem_cons.mp hmem with hsame | hmem
    · -- in one track, later sectors are stored behind earlier ones
      have hstep := hbegins.step
      have hstep' := hagain.step
      rw [hsame] at hstep'
      unfold Track.InStep at hstep hstep'
      omega
    · exact Nat.le_trans
        (h.offset_le_skip hbegins hbegins.split hmem (hsource ▸ hagain.source)) hagain.skip

/-- A file that runs dry while one of its own tracks has the next sector is played again. -/
theorem replays (h : disc.InRow) (hfind : Plan.find disc true first length = .ok plan)
    (hleft : plan.start + plan.done < first + length) {u : Track}
    (howner : disc.track? (plan.start + plan.done) = some u) (hus : u.source = some plan.source)
    (hsound : u.isData = false) (hfilled : 0 < u.length) (hreach : u.start < first + length) :
    ∃ f g, [f, g].Sublist (disc.route first length) ∧ f.source = g.source ∧
      f.sector < first + length ∧ g.sector < first + length ∧ f.byte ≤ g.byte ∧
      g.byte < f.byte + 4 := by
  have hkept := Plan.stop_of_find hfind
  obtain ⟨next, hnext, rfl, hsource, hoffset⟩ :
      ∃ next, Plan.find disc true (plan.start + plan.done) (plan.length - plan.done) = .ok next ∧
        next.track = u ∧ next.source = plan.source ∧ next.offset = u.skip +
          min (plan.start + plan.done - u.start) (u.length - 1) * u.sectorSize :=
    ⟨_, Plan.find_ok_iff.mpr
      ⟨by omega, rfl, u, plan.source, howner, hsound, hus, by omega, rfl⟩, rfl, rfl, rfl⟩
  have hmem := mem_of_track? howner
  obtain ⟨contents, hcontents, -, -, hsectors⟩ := h.inside next.track hmem plan.source hus
  have hinside : next.offset < contents.size := by
    rw [hoffset]
    exact hsectors _ (by omega)
  have hfrom := h.offset_le_of_next hfind hnext hsource
  -- both passages have a frame with the byte where the second one begins
  obtain ⟨f, hf, -, hfle, hflt⟩ := Plan.frame_at hcontents hfrom hinside
  obtain ⟨g, hg, hgsector, hgle, -⟩ := Plan.frame_at (hsource ▸ hcontents) (Nat.le_refl _) hinside
  rw [Nat.sub_self, Nat.zero_div, Nat.add_zero] at hgsector
  have hgbyte : g.byte = next.offset := by
    obtain ⟨j, rfl⟩ := Plan.mem_frames hg
    have hle : next.offset + 4 * j ≤ next.offset := hgle
    show next.offset + 4 * j = next.offset
    omega
  rw [← hgbyte] at hfle hflt
  have hdry : plan.RunsDry := by
    have hsome := List.length_pos_of_mem hf
    unfold Plan.RunsDry
    unfold Plan.done divUp at hleft ⊢
    omega
  refine ⟨f, g, ?_, ?_, ?_, ?_, hfle, hflt⟩
  · rw [route_of_plan hfind]
    unfold Plan.after
    rw [if_pos hdry, route_of_plan hnext]
    exact (List.singleton_sublist.mpr hf).append
      (List.singleton_sublist.mpr (List.mem_append_left _ hg))
  · rw [Plan.source_of_mem_frames hf, Plan.source_of_mem_frames hg, hsource]
  · rw [← hkept]
    refine Plan.sector_lt_of_mem (Nat.le_of_lt hdry.2) ?_
    rw [List.take_length]
    exact hf
  · have hnextKept := Plan.stop_of_find hnext
    have hnextPos := Plan.length_pos_of_find hnext
    omega

/-- What comes after a file that has run dry is in a later file. -/
theorem source_lt_of_dry (h : disc.InRow) (hseamless : disc.Seamless start stop)
    (hfind : Plan.find disc true first length = .ok plan) (hstart : start ≤ first)
    (hstop : first + length = stop) (hdry : plan.RunsDry) {w : Track} (hw : w ∈ disc.tracks)
    {s : Source} (hws : w.source = some s) (hlater : plan.start + plan.done < w.endSector) :
    plan.source.id < s.id := by
  obtain ⟨before, after, hbegins⟩ := h.begins_of_find hfind
  have hfirst := hbegins.first_le
  have hmem : plan.track ∈ disc.tracks := by
    rw [hbegins.split]
    simp
  obtain ⟨contents, hcontents, hformat, -⟩ := h.inside plan.track hmem plan.source hbegins.source
  have hlength : plan.source.length = some contents.size := by
    unfold Source.length
    rw [hformat]
  have hframes : plan.frames.length = divUp (contents.size - plan.offset) 4 := by
    rw [plan.length_frames]
    unfold Plan.contents
    rw [hcontents]
    rfl
  have hkept := Plan.stop_of_find hfind
  have hshort := hdry.2
  have hsome := hdry.1
  have hdone := Plan.done_of_contents hcontents
  rw [hframes] at hshort
  have hbyte : plan.offset ≤ contents.size := by
    rw [hdone] at hsome
    unfold divUp at hsome
    omega
  have hends : contents.size + plan.start * 2352 < plan.offset + stop * 2352 := by
    unfold divUp at hshort
    omega
  have hrow := h.row
  unfold Seamless at hseamless
  rw [hbegins.split] at hw hrow hseamless
  have hby := hrow.suffix.ends_by (List.isChain_append.mp hseamless).2.1 hbegins.source
    hbegins.sound (Nat.lt_of_le_of_lt hstart hbegins.inside) hbegins.step hlength ?_ hbyte hends
  · rw [← hdone] at hby
    have hbehind : w ∈ after := by
      rcases List.mem_append.mp hw with hw | hw
      · have hle := hbegins.passed w hw
        omega
      · rcases List.mem_cons.mp hw with rfl | hw
        · have hle := hby plan.track List.mem_cons_self hbegins.source
          omega
        · exact hw
    rcases List.rel_of_pairwise_cons hrow.suffix.ids hbehind plan.source hbegins.source s hws
      with rfl | hlt
    · have hle := hby w (List.mem_cons_of_mem _ hbehind) hws
      omega
    · exact hlt
  · intro u hu hus
    obtain ⟨contents', hcontents', -, hskip, -⟩ :=
      h.inside u (hbegins.split ▸ List.mem_append_right _ hu) _ hus
    rw [hcontents] at hcontents'
    cases hcontents'
    exact hskip

/-- What is played of a passage belongs to the source of its owner. -/
theorem track_of_plan (h : disc.InRow) (hfind : Plan.find disc true first length = .ok plan)
    {f : Frame} (hf : f ∈ plan.frames) :
    ∃ w ∈ disc.tracks, w.source = some f.source ∧ first < w.endSector := by
  obtain ⟨before, after, hbegins⟩ := h.begins_of_find hfind
  rw [Plan.source_of_mem_frames hf]
  refine ⟨plan.track, ?_, hbegins.source, hbegins.inside⟩
  rw [hbegins.split]
  simp

/-- What is on a route belongs to tracks that end after its first sector. -/
theorem track_of_route (h : disc.InRow) (first length : Nat) :
    ∀ f ∈ disc.route first length,
      ∃ w ∈ disc.tracks, w.source = some f.source ∧ first < w.endSector := by
  refine route_induction (motive := fun first _ frames => ∀ f ∈ frames,
    ∃ w ∈ disc.tracks, w.source = some f.source ∧ first < w.endSector) ?_ ?_ ?_ first length
  · intro first length hrefused f hf
    cases hf
  · intro first length plan hfind hlast f hf
    exact h.track_of_plan hfind hf
  · intro first length plan hfind hdry ih f hf
    rcases List.mem_append.mp hf with hf | hf
    · exact h.track_of_plan hfind hf
    · obtain ⟨w, hw, hws, hlater⟩ := ih f hf
      obtain ⟨_, _, hbegins⟩ := h.begins_of_find hfind
      have hfirst := hbegins.first_le
      exact ⟨w, hw, hws, by omega⟩

/-- A passage goes through its file once. -/
theorem once_frames (plan : Plan) : Once plan.frames := by
  unfold Once Plan.frames Source.framesFrom
  rw [List.pairwise_map]
  refine List.pairwise_lt_range.imp fun hlt _ => ?_
  dsimp only
  omega

/-- **A seamless route.** Nothing is played twice, and what is played for sectors of the request keeps
clear of data and of tracks that start at its end or later. -/
theorem route_seamless (h : disc.InRow) (hseamless : disc.Seamless start stop) (first length : Nat)
    (hstart : start ≤ first) (hstop : first + length = stop) :
    Once (disc.route first length) ∧ disc.Respects stop (disc.route first length) := by
  revert hstart hstop
  refine route_induction (motive := fun first length frames => start ≤ first →
    first + length = stop → Once frames ∧ disc.Respects stop frames) ?_ ?_ ?_ first length
  · intro first length hrefused hstart hstop
    exact ⟨List.Pairwise.nil, nofun⟩
  · intro first length plan hfind hlast hstart hstop
    exact ⟨once_frames plan, h.respects_of_find hseamless hfind hstart hstop⟩
  · intro first length plan hfind hdry ih hstart hstop
    obtain ⟨_, _, hbegins⟩ := h.begins_of_find hfind
    have hfirst := hbegins.first_le
    have hkept := Plan.stop_of_find hfind
    have hdone := Plan.done_le hdry
    obtain ⟨honce, hrespects⟩ := ih (by omega) (by omega)
    constructor
    · refine List.pairwise_append.mpr ⟨once_frames plan, honce, fun f hf g hg hsame => ?_⟩
      -- the next passages are in later files
      obtain ⟨w, hw, hws, hlater⟩ := h.track_of_route _ _ g hg
      have hlt := h.source_lt_of_dry hseamless hfind hstart hstop hdry hw hws hlater
      rw [Plan.source_of_mem_frames hf] at hsame
      omega
    · intro f hf
      rcases List.mem_append.mp hf with hf | hf
      · exact h.respects_of_find hseamless hfind hstart hstop f hf
      · exact hrespects f hf

end Disc.InRow

namespace Sheet

variable {storage : Storage} {resolver : Resolver} {path : String} {cursors opened : Cursors}
  {disc : Disc}

theorem inRow_of_load (h : load storage resolver path cursors = .ok (disc, opened))
    (hfiles : disc.InFiles) : disc.InRow := by
  have hclosed := closed_of_load h
  obtain ⟨-, -, -, -, hchain, -, -, -, -, hids, -⟩ := load_cases h
  refine ⟨hclosed, ⟨hchain, hids, fun t ht => ?_, fun t ht => (hclosed.leadOut t ht).2.1,
    fun t ht hs hsound => ?_⟩, fun t ht s hs => ?_⟩
  · obtain ⟨s, hs⟩ := hclosed.sourced t ht
    rw [hs]
    rfl
  · obtain ⟨s, hs⟩ := Option.isSome_iff_exists.mp hs
    obtain ⟨mode, hmode⟩ := hasMode_of_load h ht hs
    exact hmode.sectorSize_of_sound hsound
  · exact stored_sectors h hfiles ht hs

/-- **Playback inside shared files.** On a disc of a sheet whose files hold sectors, let a request be
accepted, and let the channel be pumped until it is off. What it has collected is, from the front,
the route of the request: every frame that is played for a sector before its end, and fewer frames
behind it than one of the pumps asked for. If the request is seamless, no byte of a file is on the
route twice, and no frame that is played for a sector before the end comes from the bytes of a data
track or of a track that starts at the end or later.

But nothing except the bytes decides where a passage ends. Of whatever is stored behind the owner of
the first sector in its file, near enough for the sectors of the request, the first byte is played for
one of them. And if the file is at its end when the next sector still belongs to one of its tracks,
then what is stored for that sector is played again. -/
theorem collects_shared (h : load storage resolver path cursors = .ok (disc, opened))
    (hfiles : disc.InFiles) {d : Deck} (houtput : d.channel?.isSome = true)
    (hopened : opened.positions.length ≤ d.cursors.positions.length) {id start length : Nat}
    (hok : (d.play ⟨id, disc⟩ start length).1 = .ok ()) {ns : List Nat} (hns : ∀ n ∈ ns, 0 < n) :
    let begun := (d.play ⟨id, disc⟩ start length).2
    let frames := disc.route start length
    let stop := start + length
    ((begun.pumps ns).isOn = false →
      ∃ samples, (begun.pumps ns).samples = d.samples ++ samples ∧
        Collected frames stop ns samples) ∧
    (frames.length + length ≤ ns.length → (begun.pumps ns).isOn = false) ∧
    (disc.Seamless start stop → Once frames ∧ disc.Respects stop frames) ∧
    ∀ t, disc.track? start = some t →
      (∀ before after, disc.tracks = before ++ t :: after →
        ∀ u ∈ after, u.source = t.source → 0 < u.length →
          u.skip + t.start * 2352 < t.skip + stop * 2352 →
          ∃ f ∈ frames, u.source = some f.source ∧ f.sector < stop ∧ f.byte ≤ u.skip ∧
            u.skip < f.byte + 4) ∧
      ∀ contents ∈ t.source.bind Source.contents,
        let dry := max start t.start + divUp (contents.size - t.byteFrom start) 2352
        dry < stop → ∀ u, disc.track? dry = some u → u.source = t.source → u.isData = false →
          u.start < stop → 0 < u.length →
          ∃ f g, [f, g].Sublist frames ∧ f.source = g.source ∧ f.sector < stop ∧ g.sector < stop ∧
            f.byte ≤ g.byte ∧ g.byte < f.byte + 4 := by
  intro begun frames stop
  have hrow := inRow_of_load h hfiles
  obtain ⟨hcollects, hends⟩ :=
    Deck.collects_of_play houtput (stored_of_load h hfiles) hopened hok hns
  refine ⟨hcollects, hends, fun hseamless =>
    hrow.route_seamless hseamless start length (Nat.le_refl _) rfl, fun t howner => ?_⟩
  obtain ⟨plan, hfind, -⟩ := Deck.play_ok_iff.mp hok
  have hfind : Plan.find disc true start length = .ok plan := by
    have hattached := (Plan.find_ok_iff.mp hfind).2.1
    rwa [hattached] at hfind
  obtain ⟨_, _, hbegins⟩ := hrow.begins_of_find hfind
  obtain rfl : plan.track = t := Option.some.inj (hbegins.owner.symm.trans howner)
  constructor
  · intro before after heq u hu hsame hfilled hreach
    obtain ⟨f, hf, hplayed⟩ := hrow.plays_on hfind heq howner hu hsame hfilled hreach
    refine ⟨f, ?_, hplayed⟩
    show f ∈ disc.route start length
    rw [Disc.route_of_plan hfind]
    exact List.mem_append_left _ hf
  · intro contents hcontents dry hleft u hnext hsame hsound hreach hfilled
    rw [hbegins.source, Option.bind_some] at hcontents
    have hdry : plan.start + plan.done = dry := by
      rw [Plan.done_of_contents hcontents, hbegins.offset_eq, hbegins.start]
    rw [hbegins.source] at hsame
    rw [← hdry] at hleft hnext
    exact hrow.replays hfind hleft hnext hsame hsound hfilled hreach

/-! ### A sheet of one file -/

/-- A sheet of one file with three tracks, the last of them behind a pregap. -/
def oneFile : Contents :=
  .ofArray (Text.ascii
    "FILE a BINARY\nTRACK 1 AUDIO\nTRACK 2 AUDIO\nINDEX 1 0:0:1\nTRACK 3 AUDIO\nPREGAP 0:0:1\nINDEX 1 0:0:2").toArray

/-- The sheet and its file, which has a single byte of the last track. -/
def oneFileStorage : Storage where
  entries := [(⟨false, ["s"]⟩, .file oneFile), (⟨false, ["a"]⟩, .file (.filled 4705 1))]

/-- What the sheet says. -/
def oneFileCommands : List Command :=
  [.file "a" .binary, .track 1 .audio, .track 2 .audio, .index 1 1, .track 3 .audio, .pregap 1,
    .index 1 2]

theorem sheetCommands?_oneFile : sheetCommands? oneFileStorage "s" = some oneFileCommands :=
  sheetCommands?_eq_some_iff.mpr ⟨oneFile, rfl, by decide +kernel⟩

/-- Where the tracks of the sheet are, and that the first and the third are in the same file. -/
theorem load_oneFile : ∃ t u v out opened s contents,
    searched? oneFileStorage "s" oneFileCommands = some ([t, u, v, out], opened) ∧
    load oneFileStorage (.search oneFileStorage) "s" .none =
      .ok ({ tracks := [t, u, v, out] }, opened) ∧
    Disc.InFiles { tracks := [t, u, v, out] } ∧
    (t.start = 0 ∧ t.length = 1 ∧ t.skip = 0) ∧ (u.start = 1 ∧ u.length = 1 ∧ u.skip = 2352) ∧
    (v.start = 3 ∧ v.length = 1 ∧ v.skip = 4704) ∧ out.start = 4 ∧ u.isData = false ∧
    v.isData = false ∧ t.source = some s ∧ s.contents = some contents ∧ contents.size = 4705 ∧
    v.source = t.source := by
  have hplaces : (searched? oneFileStorage "s" oneFileCommands).map (fun r =>
      r.1.map fun t => (t.start, t.length, t.skip, t.isData)) =
      some [(0, 1, 0, false), (1, 1, 2352, false), (3, 1, 4704, false), (4, 0, 0, false)] := by
    decide +kernel
  have hsources : (searched? oneFileStorage "s" oneFileCommands).map (fun r =>
      r.1.map fun t => t.source.map fun s => (s.id, s.contents.map (·.size))) =
      some [some (0, some 4705), some (0, some 4705), some (0, some 4705), none] := by
    decide +kernel
  obtain ⟨⟨tracks, opened⟩, htracks, hplaces⟩ := Option.map_eq_some_iff.mp hplaces
  rw [htracks, Option.map_some] at hsources
  have hbinary : ∀ name kind, Command.file name kind ∈ oneFileCommands → kind = .binary := by
    intro name kind hmem
    simp only [oneFileCommands, List.mem_cons, Command.file.injEq, reduceCtorEq, List.not_mem_nil,
      or_false] at hmem
    exact hmem.2
  obtain ⟨hload, hfiles⟩ := load_of_searched? sheetCommands?_oneFile rfl hbinary htracks
  simp only [List.map_eq_cons_iff, List.map_eq_nil_iff, Prod.mk.injEq] at hplaces
  obtain ⟨t, _, rfl, ⟨ht, htl, hts, -⟩, u, _, rfl, ⟨hu, hul, hus, hud⟩, v, _, rfl,
    ⟨hv, hvl, hvs, hvd⟩, out, _, rfl, ⟨hout, -⟩, rfl⟩ := hplaces
  simp only [List.map_cons, List.map_nil, Option.some.injEq, List.cons.injEq, and_true,
    Option.map_eq_some_iff, Prod.mk.injEq] at hsources
  obtain ⟨⟨s, hs, hid, contents, hcontents, hsize⟩, -, ⟨s', hs', hid', -⟩, -⟩ := hsources
  refine ⟨t, u, v, out, opened, s, contents, htracks, hload, hfiles, ⟨ht, htl, hts⟩,
    ⟨hu, hul, hus⟩, ⟨hv, hvl, hvs⟩, hout, hud, hvd, hs, hcontents, hsize, ?_⟩
  have hrow : Track.Row [t, u, v, out] := (inRow_of_load hload hfiles).row
  rw [hs]
  refine hrow.source_of_shares hs (by simp) ?_
  rw [Track.sharesSource, hs, hs', Option.map_some, Option.map_some, hid, hid']
  rfl

/-- The first two tracks are played without a byte of the third. A request that ends where the third
starts plays it too, and one that ends behind it plays it twice. -/
theorem collects_shared_oneFile : ∃ tracks opened,
    load oneFileStorage (.search oneFileStorage) "s" .none = .ok ({ tracks }, opened) ∧
    Disc.InFiles { tracks } ∧ Disc.Seamless { tracks } 0 2 ∧
    ((playLoaded (tracks, opened) 0 2).2.pumps [588, 588]).isOn = false ∧
    (∃ samples, Collected (Disc.route { tracks } 0 2) 2 [588, 588] samples) ∧
    Once (Disc.route { tracks } 0 2) ∧ Disc.Respects { tracks } 2 (Disc.route { tracks } 0 2) ∧
    (∃ u ∈ tracks, u.start = 3 ∧ ∃ f ∈ Disc.route { tracks } 0 3,
      u.source = some f.source ∧ f.sector < 3 ∧ f.byte ≤ u.skip ∧ u.skip < f.byte + 4) ∧
    ∃ f g, [f, g].Sublist (Disc.route { tracks } 0 4) ∧ f.source = g.source ∧ f.sector < 4 ∧
      g.sector < 4 ∧ f.byte ≤ g.byte ∧ g.byte < f.byte + 4 := by
  obtain ⟨t, u, v, out, opened, s, contents, htracks, hload, hfiles, ⟨ht, htl, hts⟩,
    ⟨hu, hul, hus⟩, ⟨hv, hvl, hvs⟩, hout, hud, hvd, hs, hcontents, hsize, hsame⟩ := load_oneFile
  have hplayed : (searched? oneFileStorage "s" oneFileCommands).map (fun r =>
      ((playLoaded r 0 2).1.toOption, (playLoaded r 0 3).1.toOption, (playLoaded r 0 4).1.toOption,
        ((playLoaded r 0 2).2.pumps [588, 588]).isOn)) =
      some (some (), some (), some (), false) := by
    decide +kernel
  rw [htracks, Option.map_some] at hplayed
  simp only [Option.some.injEq, Prod.mk.injEq, toOption_eq_some_iff] at hplayed
  obtain ⟨htwo, hthree, hfour, hoff⟩ := hplayed
  have hseamless : Disc.Seamless { tracks := [t, u, v, out] } 0 2 := by
    refine List.isChain_cons_cons.mpr ⟨fun _ _ _ _ => ⟨by omega, fun hdata => ?_⟩,
      List.isChain_cons_cons.mpr ⟨fun _ _ _ hends => ?_,
        List.isChain_cons_cons.mpr ⟨fun _ _ _ hends => ?_, List.isChain_singleton _⟩⟩⟩
    · rw [hud] at hdata
      cases hdata
    · unfold Track.endSector at hends
      omega
    · unfold Track.endSector at hends
      omega
  have hinside : ∀ sector < 4, ¬ Disc.Outside { tracks := [t, u, v, out] } sector := by
    intro sector hsector houtside
    rcases houtside with hlast | hbefore | hbehind
    · unfold RedBook.lastSector at hlast
      omega
    · have hlt := hbefore t rfl
      omega
    · have hle := hbehind out rfl
      omega
  have hfirst : Disc.track? { tracks := [t, u, v, out] } 0 = some t := by
    refine Disc.track?_of_split (closed_of_load hload) (List.nil_append _).symm
      (hinside 0 (by omega)) nofun ?_
    unfold Track.endSector
    omega
  have hlast : Disc.track? { tracks := [t, u, v, out] } 3 = some v := by
    refine Disc.track?_of_split (closed_of_load hload)
      (show [t, u, v, out] = [t, u] ++ v :: [out] from rfl) (hinside 3 (by omega)) (fun w hw => ?_) ?_
    · have hw : w = t ∨ w = u := by simpa using hw
      unfold Track.endSector
      rcases hw with rfl | rfl
      · omega
      · omega
    · unfold Track.endSector
      omega
  have hdry : max 0 t.start + divUp (contents.size - t.byteFrom 0) 2352 = 3 := by
    unfold Track.byteFrom divUp
    omega
  have hattached : ({ Deck.attached with cursors := opened } : Deck).channel?.isSome = true := rfl
  have hns : ∀ n ∈ [588, 588], 0 < n := by decide
  obtain ⟨hcollects, -, hclean, -⟩ := collects_shared hload hfiles
    (d := { Deck.attached with cursors := opened }) hattached (Nat.le_refl _) htwo hns
  obtain ⟨-, -, -, hreached⟩ := collects_shared hload hfiles
    (d := { Deck.attached with cursors := opened }) hattached (Nat.le_refl _) hthree hns
  obtain ⟨-, -, -, hagain⟩ := collects_shared hload hfiles
    (d := { Deck.attached with cursors := opened }) hattached (Nat.le_refl _) hfour hns
  obtain ⟨samples, -, hcollected⟩ := hcollects hoff
  obtain ⟨honce, hrespects⟩ := hclean hseamless
  refine ⟨_, opened, hload, hfiles, hseamless, hoff, ⟨samples, hcollected⟩, honce, hrespects,
    ⟨v, by simp, hv, ?_⟩, ?_⟩
  · exact (hreached t hfirst).1 [] [u, v, out] rfl v (by simp) hsame (by omega) (by omega)
  · have hplays := (hagain t hfirst).2 contents (by rw [hs, Option.bind_some, hcontents]; rfl)
    dsimp only at hplays
    rw [hdry] at hplays
    exact hplays (by omega) v hlast hsame hvd (by omega) (by omega)

end Sheet

end CompactDisc
