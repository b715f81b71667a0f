import CompactDisc.Proofs.Disc.Files

/-!
# CompactDisc.Proofs.Sound.Separate

**Playing tracks that have a file each.** The length of such a track is that of its file, a last
sector that is not whole included. So when its file runs dry, as many sectors have been counted as
played as the track has left, and the next passage begins in the next track: no sector is lost or
played twice, whatever the sizes of the files are (`Disc.Pieces.route_eq`).

Proof shape: the route is followed from track to track, by induction on the tracks behind the owner of
the first sector. A passage that begins in step with its track ends where the track does
(`Track.passage_end`).
-/

namespace CompactDisc

/-- Every track is a file of sectors of its own and not empty, and the lead-out begins inside the
address space. -/
structure Disc.Separate (d : Disc) : Prop where
  files : d.InFiles
  filled : ∀ t ∈ d.tracks.dropLast, 0 < t.length
  own : d.tracks.dropLast.Pairwise fun t u => t.sharesSource u = false
  short : ∀ out ∈ d.tracks.getLast?, out.start ≤ 400000

namespace Track

/-- Whether a track is heard when a request that reaches it ends at a sector. -/
def heard (stop : Nat) (t : Track) : Bool := !t.isData && t.source.isSome && t.start < stop

/-- The byte with which a track is heard when it is played from a sector on. -/
def byteFrom (t : Track) (start : Nat) : Nat := t.skip + (start - t.start) * 2352

/-- The frames of a track from a sector to the end of its file. -/
def framesFrom (t : Track) (start : Nat) : List Frame :=
  t.source.elim [] fun s => s.framesFrom (t.byteFrom start) (max start t.start)

/-- The bytes of a track from a sector to the end of its file, filled up to a whole number of
frames. -/
def bytesFrom (t : Track) (start : Nat) : List UInt8 :=
  t.source.elim [] fun s => Contents.padded ((s.contents.getD .empty).rest (t.byteFrom start))

/-- A track that has all that is left of its file. -/
structure Whole (t : Track) : Prop where
  stored : ∃ s contents, t.source = some s ∧ s.contents = some contents ∧ t.skip ≤ contents.size ∧
    t.length = t.sectorsOf (contents.size - t.skip)
  sectorSize : t.isData = false → t.sectorSize = 2352

/-- **Where a passage ends**: with its track, if bytes and sectors are in step there. -/
theorem passage_end {t : Track} {total byte sector : Nat} (hsize : t.sectorSize = 2352)
    (hskip : t.skip ≤ total) (hlength : t.length = t.sectorsOf (total - t.skip))
    (hbyte : byte ≤ total) (hstep : t.skip + sector * 2352 = byte + t.start * 2352) :
    sector + divUp (total - byte) 2352 = t.endSector := by
  unfold endSector
  unfold sectorsOf at hlength
  rw [hlength, hsize]
  unfold divUp
  omega

theorem heard_iff {t : Track} {stop : Nat} :
    t.heard stop = true ↔ t.isData = false ∧ t.source.isSome = true ∧ t.start < stop := by
  simp [heard, and_assoc]

theorem framesFrom_of_source {t : Track} {s : Source} (hs : t.source = some s) (start : Nat) :
    t.framesFrom start = s.framesFrom (t.byteFrom start) (max start t.start) := by
  unfold framesFrom
  rw [hs]
  rfl

/-- A sector before a track makes no difference to what is heard of it. -/
theorem framesFrom_of_le {t : Track} {start : Nat} (h : start ≤ t.start) :
    t.framesFrom start = t.framesFrom t.start := by
  unfold framesFrom byteFrom
  rw [Nat.sub_eq_zero_of_le h, Nat.sub_self, Nat.max_eq_right h, Nat.max_self]

/-- When a track that has all of its file has been heard, its sectors are done. -/
theorem Whole.ends {t : Track} (h : t.Whole) (hsound : t.isData = false) {start : Nat}
    (hend : start < t.endSector) (hfilled : 0 < t.length) :
    max start t.start + divUp (t.framesFrom start).length 588 = t.endSector := by
  obtain ⟨⟨s, contents, hs, hcontents, hskip, hlength⟩, hsize⟩ := h
  have hbyte : t.byteFrom start ≤ contents.size := by
    have hlt : start - t.start < t.sectorsOf (contents.size - t.skip) := by
      unfold endSector at hend
      omega
    have hmul := mul_lt_of_lt_sectorsOf (by rw [hsize hsound]; decide) hlt
    rw [hsize hsound] at hmul
    unfold byteFrom
    omega
  rw [framesFrom_of_source hs, Source.length_framesFrom, hcontents, Option.getD_some]
  unfold Contents.framesFrom
  rw [divUp_divUp (by decide) (by decide)]
  refine passage_end (hsize hsound) hskip hlength hbyte ?_
  unfold byteFrom
  rcases Nat.le_total start t.start with hgap | hgap
  · rw [Nat.max_eq_right hgap]
    omega
  · rw [Nat.max_eq_left hgap]
    omega

/-- The sound of a track is that of its bytes. -/
theorem sound_framesFrom (t : Track) (start : Nat) :
    (t.framesFrom start).flatMap Frame.sound = Sample.read .little (t.bytesFrom start) := by
  unfold framesFrom bytesFrom
  cases t.source with
  | none => rfl
  | some s =>
      show (s.framesFrom _ _).flatMap Frame.sound = Sample.read .little (Contents.padded _)
      rw [Contents.padded_rest, Sample.read_flatMap _ _ fun j _ => ⟨2, Contents.length_frameAt _ _⟩]
      unfold Source.framesFrom
      rw [List.flatMap_map]
      rfl

theorem even_length_bytesFrom (t : Track) (start : Nat) : ∃ n, (t.bytesFrom start).length = 2 * n := by
  unfold bytesFrom
  cases t.source with
  | none => exact ⟨0, rfl⟩
  | some s =>
      show ∃ n, (Contents.padded _).length = 2 * n
      rw [Contents.padded_rest, length_flatMap_of_const fun j _ => Contents.length_frameAt _ _]
      exact ⟨_, Nat.mul_left_comm _ 2 2⟩

end Track

namespace Disc

/-- The owner of a sector, if one knows where it stands. -/
theorem track?_of_split {d : Disc} (h : d.Closed) {before after : List Track} {t : Track}
    (heq : d.tracks = before ++ t :: after) {sector : Nat} (hi : ¬ d.Outside sector)
    (hbefore : ∀ u ∈ before, u.endSector ≤ sector) (hend : sector < t.endSector) :
    d.track? sector = some t := by
  have hfirst : ∀ {before after : List Track} {t : Track}, d.tracks = before ++ t :: after →
      (∀ u ∈ before, u.endSector ≤ sector) → sector < t.endSector →
      d.tracks.find? (fun u => sector < u.endSector) = some t := by
    intro before after t heq hbefore hend
    have hnone : before.find? (fun u => decide (sector < u.endSector)) = none := by
      rw [List.find?_eq_none]
      intro u hu
      simpa using hbefore u hu
    rw [heq, List.find?_append, hnone, Option.none_or, List.find?_cons, decide_eq_true hend]
  obtain ⟨before', t', after', heq', -, hbefore', hend', howner⟩ := track?_of_inside h hi
  have hsame := (hfirst heq hbefore hend).symm.trans (hfirst heq' hbefore' hend')
  cases hsame
  exact howner

/-- A track that has all of its file is planned to its end. -/
theorem find_whole {disc : Disc} {start length : Nat} {t : Track}
    (howner : disc.track? start = some t) (hwhole : t.Whole) (hfilled : 0 < t.length)
    (hend : start < t.endSector) (hpos : 0 < length)
    (hheard : t.heard (start + length) = true) :
    ∃ plan, Plan.find disc true start length = .ok plan ∧ plan.frames = t.framesFrom start ∧
      plan.start + plan.done = t.endSector ∧ 0 < plan.done := by
  obtain ⟨hsound, hsource, hreach⟩ := Track.heard_iff.mp hheard
  obtain ⟨s, hs⟩ := Option.isSome_iff_exists.mp hsource
  have hends := hwhole.ends hsound hend hfilled
  have hwithin : min (start - t.start) (t.length - 1) = start - t.start := by
    unfold Track.endSector at hend
    omega
  have hfind := Plan.find_ok_iff.mpr
    ⟨hpos, rfl, t, s, howner, hsound, hs, hreach, rfl⟩
  rw [hwithin, hwhole.sectorSize hsound] at hfind
  refine ⟨_, hfind, (Track.framesFrom_of_source hs start).symm, ?_, ?_⟩
  · rw [← hends, Track.framesFrom_of_source hs]
    rfl
  · rw [Track.framesFrom_of_source hs] at hends
    refine Nat.pos_of_ne_zero fun hzero => ?_
    have hnone : divUp (s.framesFrom (t.byteFrom start) (max start t.start)).length 588 = 0 := hzero
    rw [hnone, Nat.add_zero, Nat.max_def] at hends
    unfold Track.endSector at hends hend
    split at hends
    · omega
    · omega

/-- A disc of tracks that have sectors and all of their files. -/
structure Pieces (d : Disc) : Prop where
  closed : d.Closed
  whole : ∀ t ∈ d.tracks.dropLast, t.Whole
  filled : ∀ t ∈ d.tracks.dropLast, 0 < t.length
  short : ∀ out ∈ d.tracks.getLast?, out.start ≤ 400000

namespace Pieces

variable {disc : Disc} {before after rest : List Track} {t u : Track} {start length : Nat}

theorem mem_dropLast (heq : disc.tracks = before ++ t :: u :: rest) : t ∈ disc.tracks.dropLast := by
  rw [heq, List.dropLast_append_of_ne_nil (List.cons_ne_nil _ _),
    List.dropLast_cons_of_ne_nil (List.cons_ne_nil _ _)]
  simp

theorem later (h : disc.Pieces) (heq : disc.tracks = before ++ t :: after) :
    ∀ u ∈ after, t.endSector ≤ u.start := by
  have hordered := h.closed.ordered
  rw [heq, List.isChain_append] at hordered
  exact endSector_le_start hordered.2.1

theorem owner (h : disc.Pieces) (heq : disc.tracks = before ++ t :: u :: rest)
    (hbefore : ∀ w ∈ before, w.endSector ≤ start) (hend : start < t.endSector)
    (hfirst : ∀ first ∈ disc.tracks.head?, first.start ≤ start) :
    disc.track? start = some t := by
  obtain ⟨out, hout⟩ : ∃ out, (u :: rest).getLast? = some out :=
    ⟨_, List.getLast?_eq_some_getLast (List.cons_ne_nil _ _)⟩
  have hlast : disc.tracks.getLast? = some out := by
    rw [heq, List.getLast?_append, List.getLast?_cons_cons, hout]
    rfl
  have hstart := h.later heq out (List.mem_of_getLast? hout)
  have haddress := h.short out hlast
  refine track?_of_split h.closed heq ?_ hbefore hend
  intro houtside
  rcases houtside with hl | hl | hl
  · unfold RedBook.lastSector at hl
    omega
  · obtain ⟨first, hhead⟩ : ∃ first, disc.tracks.head? = some first := by
      rw [heq]
      cases before with
      | nil => exact ⟨t, rfl⟩
      | cons first before => exact ⟨first, rfl⟩
    have hlt := hl first hhead
    have hle := hfirst first hhead
    omega
  · have hle := hl out hlast
    omega

/-- Nothing is asked of the lead-out. -/
theorem route_leadOut (h : disc.Pieces) (heq : disc.tracks = before ++ [t, u]) (length : Nat) :
    u.source = none ∧ disc.route t.endSector length = [] := by
  have hlast : disc.tracks.getLast? = some u := by
    rw [heq, List.append_cons, List.getLast?_concat]
  obtain ⟨-, hnone, -, hstart⟩ := h.closed.leadOut u hlast
  rw [heq, List.append_cons, List.dropLast_concat, endOf_concat] at hstart
  refine ⟨hnone, route_eq_nil fun next hnext => ?_⟩
  have houtside : disc.Outside t.endSector := by
    right
    right
    intro out hout
    rw [hlast] at hout
    cases hout
    exact Nat.le_of_eq hstart
  obtain ⟨-, -, w, -, hw, -⟩ := Plan.find_ok_iff.mp hnext
  rw [track?_of_outside h.closed.sequential houtside] at hw
  cases hw

/-- A track that starts at the end of the request or later ends what is heard. -/
theorem takeWhile_of_late {stop : Nat} (hu : stop ≤ u.start) :
    (u :: rest).takeWhile (Track.heard stop) = [] := by
  rw [List.takeWhile_cons, if_neg]
  intro hheard
  have hreach := (Track.heard_iff.mp hheard).2.2
  omega

/-- **The route over tracks with a file each**, from the owner of its first sector on: one track after
another, from the sector to the end of the file, up to the first that is not heard. -/
theorem route_eq (h : disc.Pieces) (heq : disc.tracks = before ++ t :: after) (hafter : after ≠ [])
    (hbefore : ∀ w ∈ before, w.endSector ≤ start) (hend : start < t.endSector)
    (hfirst : ∀ first ∈ disc.tracks.head?, first.start ≤ start) (hpos : 0 < length) :
    disc.route start length =
      ((t :: after).takeWhile (Track.heard (start + length))).flatMap
        (Track.framesFrom · start) := by
  -- from one owner to the next: the request that is left starts where the track ends
  induction after generalizing before t start length with
  | nil => exact absurd rfl hafter
  | cons u rest ih =>
      have hmem := mem_dropLast heq
      have hlater := h.later heq
      have hnext := hlater u List.mem_cons_self
      have howner := h.owner heq hbefore hend hfirst
      by_cases hheard : t.heard (start + length) = true
      · obtain ⟨plan, hfind, hframes, hends, hsome⟩ :=
          find_whole howner (h.whole t hmem) (h.filled t hmem) hend hpos hheard
        have hstop := Plan.stop_of_find hfind
        rw [List.takeWhile_cons, if_pos hheard, List.flatMap_cons, route_of_plan hfind, hframes]
        congr 1
        by_cases hdry : plan.RunsDry
        · -- the file is at its end and the track is done, so the next track is the owner
          have hdone := Plan.done_le hdry
          unfold Plan.after
          rw [if_pos hdry, hends]
          rcases Nat.eq_zero_or_pos (plan.length - plan.done) with hnone | hmore
          · rw [hnone, takeWhile_of_late (by omega)]
            exact route_eq_nil fun next hfound =>
              absurd (Plan.find_ok_iff.mp hfound).1 (Nat.lt_irrefl 0)
          · cases rest with
            | nil =>
                obtain ⟨hsource, hroute⟩ := h.route_leadOut heq (plan.length - plan.done)
                rw [hroute, List.takeWhile_cons, if_neg (by simp [Track.heard, hsource])]
                rfl
            | cons v rest =>
                rw [List.append_cons] at heq
                have hu := h.filled u (mem_dropLast heq)
                have hends' : t.endSector < u.endSector := by
                  show _ < u.start + u.length
                  omega
                have hbehind : ∀ w ∈ before ++ [t], w.endSector ≤ t.endSector := by
                  intro w hw
                  rcases List.mem_append.mp hw with hw | hw
                  · exact Nat.le_trans (hbefore w hw) (Nat.le_of_lt hend)
                  · rw [List.mem_singleton.mp hw]
                have hroute := ih heq (List.cons_ne_nil _ _) hbehind hends'
                  (fun first hhead => Nat.le_trans (hfirst first hhead) (Nat.le_of_lt hend)) hmore
                rw [hroute, show t.endSector + (plan.length - plan.done) = start + length by omega,
                  List.flatMap_def, List.flatMap_def]
                refine congrArg List.flatten (List.map_congr_left fun w hw => ?_)
                have hstart := hlater w ((List.takeWhile_sublist _).subset hw)
                exact (Track.framesFrom_of_le hstart).trans
                  (Track.framesFrom_of_le (Nat.le_trans (Nat.le_of_lt hend) hstart)).symm
        · -- the request is done before the file is
          have henough : 588 * plan.length ≤ plan.frames.length := by
            by_contra hless
            exact hdry ⟨hsome, by omega⟩
          have hall : plan.length ≤ plan.done := by
            unfold Plan.done divUp
            omega
          rw [takeWhile_of_late (by omega), plan.after_of_enough _ henough]
          rfl
      · rw [List.takeWhile_cons, if_neg hheard]
        obtain ⟨s, contents, hs, -⟩ := (h.whole t hmem).stored
        refine route_eq_nil fun plan hplan => hheard ?_
        obtain ⟨-, -, t', s', ht', hsound, -, hreach, -⟩ := Plan.find_ok_iff.mp hplan
        rw [howner] at ht'
        cases ht'
        exact Track.heard_iff.mpr ⟨hsound, by rw [hs]; rfl, hreach⟩

end Pieces

end Disc

namespace Sheet

variable {storage : Storage} {resolver : Resolver} {path : String} {cursors opened : Cursors}
  {disc : Disc}

theorem pieces_of_load (h : load storage resolver path cursors = .ok (disc, opened))
    (hdisc : disc.Separate) : disc.Pieces := by
  have hclosed := closed_of_load h
  refine ⟨hclosed, fun t ht => ?_, hdisc.filled, hdisc.short⟩
  obtain ⟨s, hs⟩ := hclosed.sourced t ht
  obtain ⟨before, after, heq⟩ := List.append_of_mem (List.mem_of_mem_dropLast ht)
  obtain ⟨contents, mode, u, rest, hcontents, -, hmode, rfl, hskip, -, hwhole⟩ :=
    stored_track h hdisc.files heq hs
  refine ⟨⟨s, contents, hs, hcontents, hskip, hwhole ?_⟩, hmode.sectorSize_of_sound⟩
  cases rest with
  | nil =>
      have hnone : u.source = none := by
        refine (hclosed.leadOut u ?_).2.1
        rw [heq, List.append_cons, List.getLast?_concat]
        rfl
      rw [Track.sharesSource, hs, hnone]
      rfl
  | cons v rest =>
      have hown := hdisc.own
      rw [heq, List.dropLast_append_of_ne_nil (List.cons_ne_nil _ _),
        List.dropLast_cons_of_ne_nil (List.cons_ne_nil _ _),
        List.dropLast_cons_of_ne_nil (List.cons_ne_nil _ _), List.pairwise_append] at hown
      exact List.rel_of_pairwise_cons hown.2.1 List.mem_cons_self

/-- **Exact playback across files.** On a disc of a sheet whose tracks are not empty and have a file
of sectors each, let a request be accepted, and let the channel be pumped until it is off. What it
has collected is, from the front, the sound of the tracks that are heard, from the owner of the first
sector on: of each its bytes up to the end of its file, filled up to a whole number of frames. It has
every frame of a sector before the end of the request, and fewer frames behind it than one of the
pumps asked for. And the channel does go off, after no more pumps than there are frames and
sectors. -/
theorem collects_separate (h : load storage resolver path cursors = .ok (disc, opened))
    (hdisc : disc.Separate) {d : Deck} (houtput : d.channel?.isSome = true)
    (hopened : opened.positions.length ≤ d.cursors.positions.length) {id start length : Nat}
    (hok : (d.play ⟨id, disc⟩ start length).1 = .ok ()) {ns : List Nat} (hns : ∀ n ∈ ns, 0 < n) :
    let begun := (d.play ⟨id, disc⟩ start length).2
    ∃ before t after, disc.tracks = before ++ t :: after ∧ disc.track? start = some t ∧
      let heard := (t :: after).takeWhile (Track.heard (start + length))
      let frames := heard.flatMap (Track.framesFrom · start)
      frames.flatMap Frame.sound =
        Sample.read .little (heard.flatMap (Track.bytesFrom · start)) ∧
      ((begun.pumps ns).isOn = false →
        ∃ samples, (begun.pumps ns).samples = d.samples ++ samples ∧
          Collected frames (start + length) ns samples) ∧
      (frames.length + length ≤ ns.length → (begun.pumps ns).isOn = false) := by
  intro begun
  have hpieces := pieces_of_load h hdisc
  obtain ⟨plan, hfind, -⟩ := Deck.play_ok_iff.mp hok
  obtain ⟨hpos, -, owner, -, howner, -⟩ := Plan.find_ok_iff.mp hfind
  have hinside : ¬ disc.Outside start := by
    intro houtside
    have hnone := Disc.track?_of_outside hpieces.closed.sequential houtside
    cases hnone.symm.trans howner
  obtain ⟨before, t, after, heq, hafter, hbefore, hend, howner⟩ :=
    Disc.track?_of_inside hpieces.closed hinside
  have hfirst : ∀ first ∈ disc.tracks.head?, first.start ≤ start := by
    intro first hhead
    by_contra hlt
    -- an accepted request does not start before the disc
    refine hinside (Or.inr (Or.inl fun first' hhead' => ?_))
    cases hhead.symm.trans hhead'
    exact Nat.lt_of_not_le hlt
  have hroute := hpieces.route_eq heq hafter hbefore hend hfirst hpos
  obtain ⟨hcollects, hends⟩ :=
    Deck.collects_of_play houtput (stored_of_load h hdisc.files) hopened hok hns
  rw [hroute] at hcollects hends
  refine ⟨before, t, after, heq, howner, ?_, hcollects, hends⟩
  rw [List.flatMap_assoc, Sample.read_flatMap _ _ fun u _ => u.even_length_bytesFrom start,
    List.flatMap_def, List.flatMap_def]
  exact congrArg List.flatten (List.map_congr_left fun u _ => u.sound_framesFrom start)

/-! ### A sheet of two files -/

/-- A sheet of two files with a track each. -/
def twoFiles : Contents :=
  .ofArray (Text.ascii "FILE a BINARY\nTRACK 1 AUDIO\nFILE b BINARY\nTRACK 2 AUDIO").toArray

/-- The sheet and its files, neither of which is a whole number of frames long. -/
def twoFilesStorage : Storage where
  entries := [(⟨false, ["s"]⟩, .file twoFiles),
    (⟨false, ["a"]⟩, .file (.ofArray #[1, 2, 3, 4, 5])),
    (⟨false, ["b"]⟩, .file (.ofArray #[6, 7, 8, 9, 10, 11]))]

/-- What the sheet says. -/
def twoFilesCommands : List Command :=
  [.file "a" .binary, .track 1 .audio, .file "b" .binary, .track 2 .audio]

theorem commands?_twoFiles : commands? twoFiles = some twoFilesCommands := by
  decide +kernel

theorem sheetCommands?_twoFiles : sheetCommands? twoFilesStorage "s" = some twoFilesCommands :=
  sheetCommands?_eq_some_iff.mpr ⟨twoFiles, rfl, commands?_twoFiles⟩

/-- A request on a disc that has just been loaded. -/
def playLoaded (r : List Track × Cursors) (start length : Nat) : Except PlayerError Unit × Deck :=
  { Deck.attached with cursors := r.2 }.play ⟨0, { tracks := r.1 }⟩ start length

/-- Both files are played, each with its last frame filled up. -/
theorem collects_separate_twoFiles : ∃ tracks opened,
    load twoFilesStorage (.search twoFilesStorage) "s" .none = .ok ({ tracks }, opened) ∧
    Disc.Separate { tracks } ∧ ((playLoaded (tracks, opened) 0 2).2.pumps [8, 8, 8, 8]).isOn = false ∧
    ∃ frames, Collected frames 2 [8, 8, 8, 8]
      [0x0201, 0x0403, 0x0005, 0, 0x0706, 0x0908, 0x0B0A, 0] := by
  have hplaces : (searched? twoFilesStorage "s" twoFilesCommands).map (fun r => r.1.map fun t =>
      (t.start, t.length, t.source.map (·.id))) =
      some [(0, 1, some 0), (1, 1, some 1), (2, 0, none)] := by
    decide +kernel
  have hplayed : (searched? twoFilesStorage "s" twoFilesCommands).map (fun r => ((playLoaded r 0 2).1.toOption, r.2.positions.length,
      ((playLoaded r 0 2).2.pumps [8, 8, 8, 8]).isOn, ((playLoaded r 0 2).2.pumps [8, 8, 8, 8]).samples)) =
      some (some (), 2, false,
        [0x0201, 0x0403, 0x0005, 0, 0x0706, 0x0908, 0x0B0A, 0]) := by
    decide +kernel
  obtain ⟨⟨tracks, opened⟩, htracks, hplaces⟩ := Option.map_eq_some_iff.mp hplaces
  rw [htracks, Option.map_some] at hplayed
  simp only [Option.some.injEq, Prod.mk.injEq, toOption_eq_some_iff] at hplayed
  obtain ⟨hok, hopened, hoff, hsamples⟩ := hplayed
  have hbinary : ∀ name kind, Command.file name kind ∈ twoFilesCommands → kind = .binary := by
    intro name kind hmem
    simp only [twoFilesCommands, List.mem_cons, Command.file.injEq, reduceCtorEq, List.not_mem_nil,
      or_false, false_or] at hmem
    rcases hmem with ⟨-, rfl⟩ | ⟨-, rfl⟩
    · rfl
    · rfl
  obtain ⟨hload, hfiles⟩ := load_of_searched? sheetCommands?_twoFiles rfl hbinary htracks
  have hseparate : Disc.Separate { tracks } := by
    simp only [List.map_eq_cons_iff, List.map_eq_nil_iff, Prod.mk.injEq] at hplaces
    obtain ⟨t, _, rfl, ⟨-, ht, hts⟩, u, _, rfl, ⟨-, hu, hus⟩, out, _, rfl, ⟨hout, -⟩, rfl⟩ := hplaces
    refine ⟨hfiles, ?_, ?_, ?_⟩
    · intro w hw
      have hw : w = t ∨ w = u := by simpa using hw
      rcases hw with rfl | rfl <;> omega
    · refine List.pairwise_pair.mpr ?_
      rw [Track.sharesSource, hts, hus]
      rfl
    · intro w hw
      obtain rfl : out = w := Option.some.inj hw
      omega
  obtain ⟨before, t, after, -, -, -, hcollects, -⟩ :=
    collects_separate (d := { Deck.attached with cursors := opened }) hload hseparate rfl
      (Nat.le_refl _) hok (by decide : ∀ n ∈ [8, 8, 8, 8], 0 < n)
  obtain ⟨samples, hall, hcollected⟩ := hcollects hoff
  obtain rfl : samples = [0x0201, 0x0403, 0x0005, 0, 0x0706, 0x0908, 0x0B0A, 0] :=
    hall.symm.trans hsamples
  exact ⟨tracks, opened, hload, hseparate, hoff, _, hcollected⟩

end Sheet

end CompactDisc
