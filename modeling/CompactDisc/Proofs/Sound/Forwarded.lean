import CompactDisc.Proofs.Pcm.Written
import CompactDisc.Proofs.Source.File
import CompactDisc.Proofs.Source.Frames

/-!
# CompactDisc.Proofs.Sound.Forwarded

**What a channel collects of each frame.** A pull hands its channel the frames that the source has
given, in one block, and the channel collects as many stereo frames (`Deck.pull_collects`). With two
channels they are the frames of the block, and with one channel each is the sample of its frame, on both
sides: what is collected of a frame is computed from this frame alone.

With more channels the block is taken for sound with one channel. The stereo frames then are single
samples in the order in which they stand in the block, so the first few frames are heard sample by
sample and the others not at all. Frames that are equal are collected as different ones
(`Source.frameByFrame_iff`).
-/

namespace CompactDisc

/-- The samples of a stereo frame, in the order in which they are collected. -/
def Sides.samples (x : Sides Int16) : List Int16 := [x.left, x.right]

/-- A place in lists of one length that stand one behind the other. -/
theorem getElem?_flatten_of_const {α : Type} {xs : List (List α)} {n : Nat}
    (h : ∀ x ∈ xs, x.length = n) (hn : 0 < n) (i : Nat) :
    xs.flatten[i]? = xs[i / n]?.bind (·[i % n]?) := by
  induction xs generalizing i with
  | nil => simp
  | cons x xs ih =>
      rw [List.forall_mem_cons] at h
      obtain ⟨hx, hxs⟩ := h
      rw [List.flatten_cons]
      by_cases hfirst : i < n
      · rw [List.getElem?_append_left (hx ▸ hfirst), Nat.div_eq_of_lt hfirst,
          Nat.mod_eq_of_lt hfirst]
        rfl
      · have hle : n ≤ i := Nat.le_of_not_lt hfirst
        rw [List.getElem?_append_right (hx ▸ hle), hx, ih hxs, Nat.div_eq_sub_div hn hle,
          Nat.mod_eq_sub_mod hle]
        rfl

/-- The parts of one length that a list begins with, one behind the other. -/
theorem flatten_parts {α : Type} (xs : List α) (size count : Nat) :
    ((List.range count).map fun i => (xs.drop (i * size)).take size).flatten =
      xs.take (count * size) := by
  induction count with
  | zero => simp
  | succ count ih =>
      rw [List.range_succ, List.map_append, List.flatten_append, ih, Nat.succ_mul, List.take_add]
      simp

namespace Source

/-! ### The frames that are handed on -/

/-- The bytes of each frame that was decoded. -/
def parts (s : Source) (sound : Sound) : List (List UInt8) :=
  (List.range sound.frames).map fun i =>
    (sound.bytes.drop (i * s.bytesPerFrame)).take s.bytesPerFrame

/-- The samples of each frame that was decoded. -/
def decodedFrames (s : Source) (sound : Sound) : List (List Int16) :=
  (s.parts sound).map (Sample.read s.byteOrder)

variable {s : Source} {frames : List (List UInt8)} {sound : Sound}

@[simp] theorem length_parts (s : Source) (sound : Sound) :
    (s.parts sound).length = sound.frames := by
  simp [parts]

/-- Decoding gives the bytes of all frames that it counts. -/
theorem le_length_decode (s : Source) (n cursor : Nat) :
    (s.decode n (n * s.bytesPerFrame) cursor).1.frames * s.bytesPerFrame ≤
      (s.decode n (n * s.bytesPerFrame) cursor).1.bytes.length := by
  cases hformat : s.format with
  | binary size =>
      have hsize : s.bytesPerFrame = 4 := by simp [bytesPerFrame, channels, hformat, RedBook.channels]
      simp only [decode, hsize, hformat, List.length_append, List.length_replicate,
        RedBook.bytesPerSampleFrame]
      omega
  | stream stream =>
      simp only [decode, bytesPerFrame, channels, hformat]
      generalize hcount : min _ (_ - cursor) = count
      rcases Nat.eq_zero_or_pos count with rfl | hpos
      · simp
      · rw [Pcm.Stream.length_samplesAt (by omega), Pcm.Stream.sampleSize]
        rcases Nat.eq_zero_or_pos stream.channels with hnone | hsome
        · simp [hnone]
        · have hwhole := Nat.div_mul_le_self count stream.channels
          rw [Nat.max_eq_left hsome, ← Nat.mul_assoc, Nat.mul_comm 2]
          exact Nat.mul_le_mul_right 2 hwhole

theorem length_of_mem_parts (h : sound.frames * s.bytesPerFrame ≤ sound.bytes.length)
    {frame : List UInt8} (hmem : frame ∈ s.parts sound) : frame.length = s.bytesPerFrame := by
  simp only [parts, List.mem_map, List.mem_range] at hmem
  obtain ⟨i, hi, rfl⟩ := hmem
  have hnext := Nat.mul_le_mul_right s.bytesPerFrame (Nat.succ_le_of_lt hi)
  rw [Nat.succ_mul] at hnext
  rw [List.length_take, List.length_drop]
  omega

theorem length_read_frame {frame : List UInt8} (h : frame.length = s.bytesPerFrame)
    (hchannels : 0 < s.channels) : (Sample.read s.byteOrder frame).length = s.channels := by
  refine Sample.length_read _ ?_
  rw [h, bytesPerFrame, Nat.max_eq_left hchannels, Nat.mul_comm]

/-! ### What is collected of them -/

/-- The samples of whole frames, frame by frame. -/
theorem read_frames (h : ∀ frame ∈ frames, frame.length = s.bytesPerFrame) :
    Sample.read .little frames.flatten = (frames.map (Sample.read s.byteOrder)).flatten := by
  have heven : ∀ frame ∈ frames, ∃ n, frame.length = 2 * n := fun frame hmem =>
    ⟨max s.channels 1, by rw [h frame hmem, bytesPerFrame, Nat.mul_comm]⟩
  rw [byteOrder_eq, ← List.flatMap_id', Sample.read_flatMap _ _ heven, List.flatMap_def]

/-- Frames with two samples are collected as they are. -/
theorem heard_stereo (hstereo : s.channels = 2)
    (h : ∀ frame ∈ frames, frame.length = s.bytesPerFrame) :
    ∃ stereo : List (Sides Int16), s.heard frames = stereo.flatMap Sides.samples ∧
      stereo.length = frames.length ∧
      frames.map (Sample.read s.byteOrder) = stereo.map Sides.samples := by
  have hpair : ∀ frame ∈ frames, ∃ x : Sides Int16, Sample.read s.byteOrder frame = x.samples := by
    intro frame hmem
    have htwo := length_read_frame (h frame hmem) (by omega)
    rw [hstereo] at htwo
    generalize Sample.read s.byteOrder frame = samples at htwo
    match samples, htwo with
    | [left, right], _ => exact ⟨⟨left, right⟩, rfl⟩
  have hframes : ∃ stereo : List (Sides Int16),
      frames.map (Sample.read s.byteOrder) = stereo.map Sides.samples := by
    clear h
    induction frames with
    | nil => exact ⟨[], rfl⟩
    | cons frame frames ih =>
        rw [List.forall_mem_cons] at hpair
        obtain ⟨x, hx⟩ := hpair.1
        obtain ⟨stereo, hstereo⟩ := ih hpair.2
        exact ⟨x :: stereo, by rw [List.map_cons, List.map_cons, hx, hstereo]⟩
  obtain ⟨stereo, heq⟩ := hframes
  refine ⟨stereo, ?_, ?_, heq⟩
  · rw [heard, if_pos hstereo, read_frames h, heq, List.flatMap_def]
  · rw [← List.length_map (Sample.read s.byteOrder), heq, List.length_map]

/-- Of any other frames, as many samples are collected as there are frames, one by one. -/
theorem heard_single (hsingle : s.channels ≠ 2) (hchannels : 0 < s.channels)
    (h : ∀ frame ∈ frames, frame.length = s.bytesPerFrame) :
    ∃ stereo : List (Sides Int16), s.heard frames = stereo.flatMap Sides.samples ∧
      stereo.length = frames.length ∧
      ∀ i < frames.length, ∃ x, stereo[i]? = some ⟨x, x⟩ ∧
        (frames.map (Sample.read s.byteOrder))[i / s.channels]?.bind (·[i % s.channels]?) =
          some x := by
  have hmany : (Sample.read .little frames.flatten).length = frames.length * s.channels := by
    rw [length_read_flatten h, Nat.max_eq_left hchannels]
  have henough : frames.length ≤ frames.length * s.channels :=
    Nat.le_mul_of_pos_right _ hchannels
  have hlengths : ∀ samples ∈ frames.map (Sample.read s.byteOrder),
      samples.length = s.channels := by
    simp only [List.forall_mem_map]
    exact fun frame hmem => length_read_frame (h frame hmem) hchannels
  refine ⟨((Sample.read .little frames.flatten).take frames.length).map fun x => ⟨x, x⟩, ?_, ?_, ?_⟩
  · rw [heard, if_neg hsingle, List.flatMap_map]
    rfl
  · rw [List.length_map, List.length_take, hmany, Nat.min_eq_left henough]
  · intro i hi
    rw [← getElem?_flatten_of_const hlengths hchannels, ← read_frames h]
    have hplace : i < (Sample.read .little frames.flatten).length := by omega
    refine ⟨(Sample.read .little frames.flatten)[i], ?_, List.getElem?_eq_getElem hplace⟩
    rw [List.getElem?_map, List.getElem?_take_of_lt hi, List.getElem?_eq_getElem hplace]
    rfl

/-- Frames with one sample are collected with it on both sides. -/
theorem heard_mono (hmono : s.channels = 1)
    (h : ∀ frame ∈ frames, frame.length = s.bytesPerFrame) :
    ∃ stereo : List (Sides Int16), s.heard frames = stereo.flatMap Sides.samples ∧
      stereo.length = frames.length ∧
      ∀ i < frames.length, ∃ x, stereo[i]? = some ⟨x, x⟩ ∧
        (frames.map (Sample.read s.byteOrder))[i]? = some [x] := by
  obtain ⟨stereo, hheard, hlength, hplaces⟩ := heard_single (by omega) (by omega) h
  refine ⟨stereo, hheard, hlength, fun i hi => ?_⟩
  obtain ⟨x, hx, hplace⟩ := hplaces i hi
  refine ⟨x, hx, ?_⟩
  rw [hmono, Nat.div_one, Nat.mod_one] at hplace
  obtain ⟨samples, hsamples, hfirst⟩ := Option.bind_eq_some_iff.mp hplace
  obtain ⟨frame, hmem, rfl⟩ := List.mem_map.mp (List.mem_of_getElem? hsamples)
  have hone := length_read_frame (h frame hmem) (by omega)
  rw [hsamples]
  generalize Sample.read s.byteOrder frame = samples at hone hfirst ⊢
  match samples, hone.trans hmono with
  | [y], _ =>
      cases hfirst
      rfl

/-! ### Frame by frame -/

/-- What is collected of so many frames is computed from each of them alone. -/
def FrameByFrame (s : Source) (count : Nat) : Prop :=
  ∃ f : List Int16 → Sides Int16, ∀ (c : Channel) (frames : List (List UInt8)),
    frames.length = count → (∀ frame ∈ frames, frame.length = s.bytesPerFrame) →
    (c.forward s.channels s.byteOrder count frames.flatten).samples.toList =
      c.samples.toList ++ frames.flatMap fun frame => (f (Sample.read s.byteOrder frame)).samples

theorem frameByFrame_iff_heard (s : Source) (count : Nat) :
    s.FrameByFrame count ↔ ∃ f : List Int16 → Sides Int16, ∀ frames : List (List UInt8),
      frames.length = count → (∀ frame ∈ frames, frame.length = s.bytesPerFrame) →
      s.heard frames = frames.flatMap fun frame => (f (Sample.read s.byteOrder frame)).samples := by
  unfold FrameByFrame
  constructor
  · intro ⟨f, hf⟩
    refine ⟨f, fun frames hcount hwhole => ?_⟩
    have hforward := hf { name := "", rate := 0 } frames hcount hwhole
    rw [← hcount, samples_forward _ hwhole] at hforward
    exact List.append_cancel_left hforward
  · intro ⟨f, hf⟩
    refine ⟨f, fun c frames hcount hwhole => ?_⟩
    rw [← hf frames hcount hwhole, ← hcount, samples_forward c hwhole]

theorem frameByFrame_of_few (hchannels : 0 < s.channels) (hfew : s.channels ≤ 2) (count : Nat) :
    s.FrameByFrame count := by
  rw [frameByFrame_iff_heard]
  refine ⟨fun samples => ⟨samples.headD 0, samples.getLastD 0⟩, fun frames _ h => ?_⟩
  rw [heard_eq_flatMap hfew h, List.flatMap_def, List.flatMap_def]
  refine congrArg List.flatten (List.map_congr_left fun frame hmem => ?_)
  have hlength := length_read_frame (h frame hmem) hchannels
  rw [byteOrder_eq] at hlength ⊢
  unfold Source.sound heard
  rw [List.flatten_singleton, List.length_singleton]
  generalize Sample.read .little frame = samples at hlength ⊢
  by_cases hstereo : s.channels = 2
  · rw [if_pos hstereo]
    match samples, hlength.trans hstereo with
    | [left, right], _ => rfl
  · rw [if_neg hstereo]
    match samples, hlength.trans (show s.channels = 1 by omega) with
    | [x], _ => rfl

theorem frameByFrame_of_short (hsingle : s.channels ≠ 2) (hchannels : 0 < s.channels) {count : Nat}
    (hshort : count ≤ 1) : s.FrameByFrame count := by
  rw [frameByFrame_iff_heard]
  refine ⟨fun samples => ⟨samples.headD 0, samples.headD 0⟩, fun frames hcount h => ?_⟩
  match frames, hcount with
  | [], _ => exact heard_nil s
  | [frame], _ =>
      have hlength := length_read_frame (h frame List.mem_cons_self) hchannels
      rw [byteOrder_eq] at hlength ⊢
      rw [heard, if_neg hsingle, List.flatten_singleton, List.length_singleton,
        List.flatMap_singleton]
      generalize Sample.read .little frame = samples at hlength ⊢
      match samples, hlength with
      | [], hlength => exact absurd hlength (Nat.ne_of_lt hchannels)
      | x :: rest, _ => rfl
  | _ :: _ :: _, hcount =>
      rw [← hcount] at hshort
      simp at hshort

/-- Frames that are equal are collected as different ones, where they have many samples. -/
theorem not_frameByFrame (hmany : 3 ≤ s.channels) {count : Nat} (hlong : 2 ≤ count) :
    ¬ s.FrameByFrame count := by
  rw [frameByFrame_iff_heard]
  intro ⟨f, hf⟩
  obtain ⟨channels, hchannels⟩ := Nat.exists_eq_add_of_le hmany
  obtain ⟨more, rfl⟩ := Nat.exists_eq_add_of_le hlong
  let samples : List Int16 := 0 :: 1 :: List.replicate (channels + 1) 0
  let frame := Sample.write samples
  have hread : Sample.read s.byteOrder frame = samples := by
    rw [byteOrder_eq]
    exact Sample.read_write samples
  have hwhole : ∀ x ∈ List.replicate (2 + more) frame, x.length = s.bytesPerFrame := by
    intro x hmem
    rw [List.eq_of_mem_replicate hmem, Sample.length_write, bytesPerFrame]
    simp only [samples, List.length_cons, List.length_replicate]
    omega
  have hheard := hf _ List.length_replicate hwhole
  rw [heard, if_neg (by omega), read_frames hwhole, List.map_replicate, List.length_replicate,
    List.flatMap_replicate, hread, Nat.add_comm 2 more] at hheard
  simp only [samples, List.replicate_succ, List.flatten_cons, List.cons_append,
    List.take_succ_cons, List.flatMap_cons, Sides.samples, List.nil_append,
    List.cons.injEq] at hheard
  -- the two frames are equal, but the left sides of what is collected of them are not
  obtain ⟨hfirst, -, hsecond, -⟩ := hheard
  exact absurd (hfirst.trans hsecond.symm) (by decide)

/-- **When each frame is collected on its own**: with one or two channels, or if it is the only one. -/
theorem frameByFrame_iff (hchannels : 0 < s.channels) (count : Nat) :
    s.FrameByFrame count ↔ s.channels ≤ 2 ∨ count ≤ 1 := by
  constructor
  · intro hframes
    by_cases hmany : s.channels ≤ 2 ∨ count ≤ 1
    · exact hmany
    · exact absurd hframes (not_frameByFrame (by omega) (by omega))
  · intro hcase
    by_cases hfew : s.channels ≤ 2
    · exact frameByFrame_of_few hchannels hfew count
    · exact frameByFrame_of_short (by omega) hchannels (by omega)

end Source

/-! ### A pull -/

namespace Deck

variable {d : Deck} {s : Segment} {k : Nat}

/-- What is collected of a source, wherever its cursor is. -/
theorem samples_sounded_parts (houtput : d.channel?.isSome = true) (k : Nat) :
    (d.sounded s k).samples = d.samples ++
      s.source.heard (s.source.parts (d.cursors.decode s.source k).1) := by
  obtain ⟨c, hc⟩ := Option.isSome_iff_exists.mp houtput
  have hwhole : ∀ frame ∈ s.source.parts (d.cursors.decode s.source k).1,
      frame.length = s.source.bytesPerFrame :=
    fun frame hmem => Source.length_of_mem_parts (s.source.le_length_decode k _) hmem
  have hforward := s.source.samples_forward c hwhole
  rw [Source.length_parts, Source.parts, flatten_parts] at hforward
  unfold samples
  rw [channel?_sounded, hc]
  exact hforward

/-- **Forwarding**. A pull that is answered collects as many stereo frames as were decoded. With two
channels they are the decoded frames, and with one each is the sample of its frame on both sides. With
more channels they are the samples of the decoded frames one by one; then what is collected of a
frame is not computed from this frame, unless there is only one. -/
theorem pull_collects (hk : 0 < k) (hplaying : d.player.playing = true)
    (hunpaused : d.player.paused = false) (hsegment : d.player.segment = some s)
    (houtput : d.channel?.isSome = true) (hchannels : 0 < s.source.channels) :
    let sound := (d.cursors.decode s.source k).1
    let decoded := s.source.decodedFrames sound
    let channels := s.source.channels
    decoded.length = sound.frames ∧ (∀ frame ∈ decoded, frame.length = channels) ∧
    (∃ stereo : List (Sides Int16),
      (d.pull k).samples = d.samples ++ stereo.flatMap Sides.samples ∧
      stereo.length = sound.frames ∧
      (channels = 1 → ∀ i < sound.frames, ∃ x,
        stereo[i]? = some ⟨x, x⟩ ∧ decoded[i]? = some [x]) ∧
      (channels = 2 → decoded = stereo.map Sides.samples) ∧
      (3 ≤ channels → ∀ i < sound.frames, ∃ x,
        stereo[i]? = some ⟨x, x⟩ ∧ decoded[i / channels]?.bind (·[i % channels]?) = some x)) ∧
    (s.source.FrameByFrame sound.frames ↔ channels ≤ 2 ∨ sound.frames ≤ 1) := by
  intro sound decoded channels
  have hwhole : ∀ frame ∈ s.source.parts sound, frame.length = s.source.bytesPerFrame :=
    fun frame hmem => Source.length_of_mem_parts (s.source.le_length_decode k _) hmem
  have hsamples : (d.pull k).samples = d.samples ++ s.source.heard (s.source.parts sound) := by
    obtain ⟨c, hc⟩ := Option.isSome_iff_exists.mp houtput
    rw [pull_of_active hk hplaying hunpaused hsegment (channel_of_channel? hc), samples_proceed,
      samples_sounded_parts houtput]
  refine ⟨by simp [decoded, Source.decodedFrames], ?_, ?_,
    s.source.frameByFrame_iff hchannels sound.frames⟩
  · simp only [decoded, Source.decodedFrames, List.forall_mem_map]
    exact fun frame hmem => Source.length_read_frame (hwhole frame hmem) hchannels
  · have hcases : channels = 1 ∨ channels = 2 ∨ 3 ≤ channels := by omega
    rw [hsamples, ← s.source.length_parts sound]
    rcases hcases with hmono | hstereo | hmany
    · obtain ⟨stereo, hheard, hlength, hframes⟩ := Source.heard_mono hmono hwhole
      exact ⟨stereo, by rw [hheard], hlength, fun _ => hframes, fun h => by omega,
        fun h => by omega⟩
    · obtain ⟨stereo, hheard, hlength, hframes⟩ := Source.heard_stereo hstereo hwhole
      exact ⟨stereo, by rw [hheard], hlength, fun h => by omega, fun _ => hframes,
        fun h => by omega⟩
    · obtain ⟨stereo, hheard, hlength, hframes⟩ :=
        Source.heard_single (show channels ≠ 2 by omega) hchannels hwhole
      exact ⟨stereo, by rw [hheard], hlength, fun h => by omega, fun h => by omega,
        fun _ => hframes⟩

/-! ### Two equal frames -/

/-- A file of two frames with the same three samples. -/
def alikeFile : Contents :=
  .ofArray ((Pcm.Header.pcm16 3 RedBook.sampleRate 12).bytes ++
    Sample.write [0, 1, 1, 0, 1, 1]).toArray

def alikeStorage : Storage where
  entries := [(⟨false, ["a"]⟩, .file alikeFile)]

def alikeSource : Source where
  id := 0
  path := "a"
  contents := some alikeFile
  format := .stream (Pcm.Stream.written 3 RedBook.sampleRate 6 RedBook.sampleRate_pos)

theorem openAs_alike : Source.openAs alikeStorage "a" .audio 0 = .ok alikeSource := by
  have hholds : Pcm.Holds alikeFile (Pcm.Header.pcm16 3 RedBook.sampleRate (2 * 6))
      (Sample.write [0, 1, 1, 0, 1, 1]) := by
    rw [Pcm.Holds, alikeFile, Contents.toList_ofArray]
  exact Source.openAs_sound rfl
    (Pcm.Stream.find_written hholds (by decide) (by decide) (by decide) (by decide) (by decide)) 0

/-- The file is played. -/
def alikeDeck : Deck :=
  let disc : Disc := { tracks := [
    { number := 1, length := 1, sectorSize := 2352, source := some alikeSource },
    { number := 2, start := 1, sectorSize := 2352 }] }
  ({ Deck.attached with cursors := ⟨[0]⟩ }.play ⟨0, disc⟩ 0 1).2

/-- Of two equal frames, the first two samples of the first one are collected. -/
theorem pull_collects_alike : Source.openAs alikeStorage "a" .audio 0 = .ok alikeSource ∧
    (∃ segment : Segment, alikeDeck.player.segment = some segment ∧
      segment.source = alikeSource) ∧
    alikeSource.decodedFrames (alikeDeck.cursors.decode alikeSource 2).1 =
      [[0, 1, 1], [0, 1, 1]] ∧
    (alikeDeck.pull 2).samples = [0, 0, 1, 1] ∧ ¬ alikeSource.FrameByFrame 2 := by
  obtain ⟨segment, hsegment, hsource⟩ : ∃ segment : Segment,
      alikeDeck.player.segment = some segment ∧ segment.source = alikeSource := ⟨_, rfl, rfl⟩
  have hdecoded : alikeSource.decodedFrames (alikeDeck.cursors.decode alikeSource 2).1 =
      [[0, 1, 1], [0, 1, 1]] := by decide +kernel
  have hbefore : alikeDeck.samples = [] := by decide +kernel
  obtain ⟨hcount, -, ⟨stereo, hsamples, hlength, -, -, hplaces⟩, hframes⟩ :=
    pull_collects (k := 2) Nat.two_pos (by decide +kernel) (by decide +kernel) hsegment
      (by decide +kernel) (by rw [hsource]; decide)
  rw [hsource] at hcount hlength hplaces hframes
  rw [hdecoded] at hcount hplaces
  rw [← hcount] at hlength hplaces hframes
  refine ⟨openAs_alike, ⟨segment, hsegment, hsource⟩, hdecoded, ?_, ?_⟩
  · obtain ⟨x, hx, hfirst⟩ := hplaces (by decide) 0 (by decide)
    obtain ⟨y, hy, hsecond⟩ := hplaces (by decide) 1 (by decide)
    match stereo, hlength with
    | [a, b], _ =>
        cases hx
        cases hy
        cases hfirst
        cases hsecond
        rw [hsamples, hbefore]
        rfl
  · rw [show [[(0 : Int16), 1, 1], [0, 1, 1]].length = 2 from rfl] at hframes
    rw [hframes]
    decide

end Deck

end CompactDisc
