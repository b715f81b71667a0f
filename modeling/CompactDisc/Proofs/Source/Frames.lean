import CompactDisc.Proofs.Source.Decode

/-!
# CompactDisc.Proofs.Source.Frames

**The sound of any source, frame by frame.** Behind a cursor there are some frames
(`Source.framesBehind`), each of as many bytes as a frame of the source has. Asked for some of them, the
source gives the next ones and moves on by them, whether it holds sectors or a stream
(`Source.decode_tuned`); so a cursor that a source has been positioned at stays between two frames.

What a channel makes of frames that it is handed at once is `Source.heard`. Up to two channels, it does
not matter how many frames are handed on at a time (`Source.heard_append`). With more, each time the
first samples are taken and the others are dropped, so there only the number of samples does not depend
on it (`Source.length_heard`).
-/

namespace CompactDisc

namespace Pcm.Stream

variable {s : Stream} {c : Contents}

/-! ### Samples are in the file -/

theorem framesIn_mono {m n : Nat} (h : m ≤ n) : s.framesIn m ≤ s.framesIn n := by
  have hquotient := Nat.div_le_div_right (c := s.frameSize) h
  simp only [framesIn]
  omega

theorem framesIn_mul_le (size : Nat) : s.framesIn size * s.frameSize ≤ size :=
  Nat.le_trans (Nat.mul_le_mul_right _ (Nat.min_le_right _ _)) (Nat.div_mul_le_self _ _)

/-- What is left of a last packet gives no more frames than a whole one. -/
theorem framesIn_last_le (s : Stream) (c : Contents) :
    s.framesIn (s.present c % s.packetSize) ≤ s.framesIn s.packetSize := by
  refine framesIn_mono ?_
  rcases Nat.eq_zero_or_pos s.packetSize with hzero | hpos
  · -- blocks without a size hold nothing
    have hblock : s.block = 0 := by
      rw [packetSize, packetBlocks] at hzero
      omega
    have hnone : s.present c = 0 := by simp [present, hblock]
    rw [hnone, Nat.zero_mod]
    exact Nat.zero_le _
  · exact Nat.le_of_lt (Nat.mod_lt _ hpos)

/-- Samples of a packet take no more bytes than it has. -/
theorem sample_add_le {place size : Nat} (h : place < s.framesIn size * s.channels) :
    sampleSize * place + sampleSize ≤ size := by
  have hfit := s.framesIn_mul_le size
  rw [frameSize, Nat.mul_left_comm] at hfit
  rw [← Nat.mul_succ]
  exact Nat.le_trans (Nat.mul_le_mul_left sampleSize h) hfit

/-- Samples that can be heard are in the file. -/
theorem position_add_le {sample : Nat} (h : sample < s.playable c * s.channels) :
    s.position sample + sampleSize ≤ c.size := by
  have hlast := Nat.mul_le_mul_right s.channels (s.framesIn_last_le c)
  have hpresent : s.present c ≤ c.size - s.start := Nat.min_le_right _ _
  have hparts := Nat.div_add_mod' (s.present c) s.packetSize
  simp only [playable, Nat.add_mul, Nat.mul_assoc] at h
  change sample < s.present c / s.packetSize * s.packetSamples + _ at h
  change _ ≤ s.packetSamples at hlast
  -- the packet of the sample, and its place in it
  have hwhole : 0 < s.packetSamples := by
    rcases Nat.eq_zero_or_pos s.packetSamples with hnone | hpos
    · rw [hnone, Nat.mul_zero, Nat.zero_add] at h
      omega
    · exact hpos
  have hsample := Nat.div_add_mod' sample s.packetSamples
  have hplace := Nat.mod_lt sample hwhole
  simp only [position]
  generalize sample / s.packetSamples = packet at hsample ⊢
  generalize sample % s.packetSamples = place at hsample hplace ⊢
  generalize s.present c / s.packetSize = packets at h hparts
  rcases Nat.lt_or_ge packet packets with hearlier | hreached
  · have hfit := sample_add_le hplace
    have hpackets := Nat.mul_le_mul_right s.packetSize (Nat.succ_le_of_lt hearlier)
    rw [Nat.succ_mul] at hpackets
    simp only [sampleSize] at hfit ⊢
    omega
  · rcases Nat.eq_or_lt_of_le hreached with rfl | hlater
    · have hinside : place < s.framesIn (s.present c % s.packetSize) * s.channels := by omega
      have hfit := sample_add_le hinside
      simp only [sampleSize] at hfit ⊢
      omega
    · have hsamples := Nat.mul_le_mul_right s.packetSamples (Nat.succ_le_of_lt hlater)
      rw [Nat.succ_mul] at hsamples
      omega

/-! ### Runs of samples -/

theorem samplesAt_add (s : Stream) (c : Contents) (sample m n : Nat) :
    s.samplesAt c sample (m + n) = s.samplesAt c sample m ++ s.samplesAt c (sample + m) n := by
  simp only [samplesAt, ← List.flatMap_append, List.range'_append_1]

theorem samplesAt_mul (s : Stream) (c : Contents) (sample count frames : Nat) :
    s.samplesAt c sample (count * frames) =
      (List.range frames).flatMap fun j => s.samplesAt c (sample + count * j) count := by
  induction frames with
  | zero => rfl
  | succ frames ih =>
      rw [Nat.mul_succ, samplesAt_add, ih, List.range_succ, List.flatMap_append,
        List.flatMap_singleton]

theorem length_samplesAt {sample count : Nat} (h : sample + count ≤ s.playable c * s.channels) :
    (s.samplesAt c sample count).length = sampleSize * count := by
  rw [samplesAt, length_flatMap_of_const (n := sampleSize) fun i hi => ?_, List.length_range',
    Nat.mul_comm]
  have hbefore := (List.mem_range'_1.mp hi).2
  have hplace : s.position i + sampleSize ≤ c.size := position_add_le (by omega)
  rw [Contents.length_read]
  omega

end Pcm.Stream

/-! ### Frames behind a cursor -/

namespace Source

variable {s : Source} {cursor : Nat}

/-- The bytes of each frame from a cursor to the end. -/
def framesBehind (s : Source) (cursor : Nat) : List (List UInt8) :=
  let c := s.contents.getD .empty
  match s.format with
  | .binary _ => (List.range (c.framesFrom cursor)).map fun j => c.frameAt (cursor + 4 * j)
  | .stream stream =>
    (List.range (stream.playable c - cursor / stream.channels)).map fun j =>
      stream.samplesAt c (cursor + stream.channels * j) stream.channels

/-- The cursor is between two frames. -/
def Tuned (s : Source) (cursor : Nat) : Prop :=
  match s.format with
  | .binary _ => True
  | .stream stream => stream.channels ∣ cursor

/-- A source is positioned between two frames. -/
theorem tuned_seek {offset : Nat} (h : (s.seek offset cursor).1 = .ok ()) :
    s.Tuned (s.seek offset cursor).2 := by
  cases hformat : s.format with
  | binary size => simp [Tuned, hformat]
  | stream stream =>
      simp only [seek, Tuned, hformat] at h ⊢
      split at h
      · cases h
      · split at h
        · rename_i hunblocked hinside
          rw [if_neg hunblocked, if_pos hinside, Pcm.Stream.sampleAt, Pcm.Stream.packetSamples,
            ← Nat.mul_assoc]
          exact Nat.dvd_add (Nat.dvd_mul_left _ _) (Nat.dvd_mul_left _ _)
        · cases h

/-- Every frame has the bytes of a frame. -/
theorem length_of_mem_framesBehind (h : s.Tuned cursor) {frame : List UInt8}
    (hmem : frame ∈ s.framesBehind cursor) : frame.length = s.bytesPerFrame := by
  cases hformat : s.format with
  | binary size =>
      simp only [framesBehind, hformat, List.mem_map] at hmem
      obtain ⟨j, -, rfl⟩ := hmem
      rw [Contents.length_frameAt]
      simp [bytesPerFrame, channels, hformat, RedBook.channels]
  | stream stream =>
      simp only [framesBehind, hformat, List.mem_map, List.mem_range] at hmem
      simp only [Tuned, hformat] at h
      obtain ⟨j, hj, rfl⟩ := hmem
      obtain ⟨first, rfl⟩ := h
      rcases Nat.eq_zero_or_pos stream.channels with hnone | hpos
      · simp [Pcm.Stream.playable, Pcm.Stream.framesIn, Pcm.Stream.frameSize, hnone] at hj
      · rw [Nat.mul_div_cancel_left _ hpos] at hj
        rw [Pcm.Stream.length_samplesAt]
        · simp only [bytesPerFrame, channels, hformat, Pcm.Stream.sampleSize]
          omega
        · have hmul := Nat.mul_le_mul_left stream.channels (Nat.add_lt_of_lt_sub' hj)
          rw [Nat.mul_succ, Nat.mul_add] at hmul
          rw [Nat.mul_comm (stream.playable _)]
          exact hmul

/-! ### Decoding -/

theorem length_flatten_of_const {α : Type} {xs : List (List α)} {n : Nat}
    (h : ∀ x ∈ xs, x.length = n) : xs.flatten.length = xs.length * n := by
  rw [← length_flatMap_of_const (f := fun x => x) h, List.flatMap_id']

/-- The next frames of a list that is counted up. -/
theorem flatten_take_range {α : Type} (f : Nat → List α) (n count : Nat) :
    (((List.range count).map f).take n).flatten = (List.range (min n count)).flatMap f := by
  rw [← List.map_take, List.take_range, List.flatMap_def]

theorem drop_range_map {α : Type} (f : Nat → α) (n count : Nat) :
    ((List.range count).map f).drop n = (List.range (count - n)).map fun j => f (n + j) := by
  apply List.ext_getElem
  · simp
  · intro i _ _
    simp

/-- Sound without channels cannot be heard. -/
theorem playable_of_silent {stream : Pcm.Stream} (h : stream.channels = 0) (c : Contents) :
    stream.playable c = 0 := by
  simp [Pcm.Stream.playable, Pcm.Stream.framesIn, Pcm.Stream.frameSize, h]

/-- What decoding gives of a stream, from one of its frames on. -/
theorem decode_stream {stream : Pcm.Stream} (hformat : s.format = .stream stream)
    (first n : Nat) :
    let count := min n (stream.playable (s.contents.getD .empty) - first)
    s.decode n (n * s.bytesPerFrame) (stream.channels * first) =
      ({ frames := stream.channels * count / stream.channels
         bytes := stream.samplesAt (s.contents.getD .empty) (stream.channels * first)
           (stream.channels * count) },
        stream.channels * (first + count)) := by
  intro count
  have hroom : n * stream.channels ≤ n * s.bytesPerFrame / 2 := by
    simp only [bytesPerFrame, channels, hformat]
    rw [← Nat.mul_assoc, Nat.mul_div_cancel _ (by decide)]
    exact Nat.mul_le_mul_left n (Nat.le_max_left _ _)
  have hcount : min (min (n * stream.channels) (n * s.bytesPerFrame / 2))
      (stream.playable (s.contents.getD .empty) * stream.channels - stream.channels * first) =
      stream.channels * count := by
    rw [Nat.min_eq_left hroom, Nat.mul_comm n, Nat.mul_comm (stream.playable _), ← Nat.mul_sub,
      ← Nat.mul_min_mul_left]
  simp only [decode, hformat]
  rw [hcount, ← Nat.mul_add]

/-- **What decoding gives**: the next frames, as many as were asked for or are left, and the cursor
moves on by them. -/
theorem decode_tuned (h : s.Tuned cursor) (n : Nat) :
    let result := s.decode n (n * s.bytesPerFrame) cursor
    result.1.frames = min n (s.framesBehind cursor).length ∧
      result.1.bytes.take (result.1.frames * s.bytesPerFrame) =
        ((s.framesBehind cursor).take n).flatten ∧
      s.Tuned result.2 ∧ s.framesBehind result.2 = (s.framesBehind cursor).drop n := by
  intro result
  have hwhole : ∀ frame ∈ (s.framesBehind cursor).take n, frame.length = s.bytesPerFrame :=
    fun frame hmem => length_of_mem_framesBehind h (List.mem_of_mem_take hmem)
  have hlength : ((s.framesBehind cursor).take n).flatten.length =
      min n (s.framesBehind cursor).length * s.bytesPerFrame := by
    rw [length_flatten_of_const hwhole, List.length_take]
  cases hformat : s.format with
  | binary size =>
      -- a source without bytes decodes as an empty file does
      have hresult : result = _ := decode_binary (s := { s with
        contents := some (s.contents.getD .empty) }) hformat rfl n cursor
      simp only [framesBehind, hformat] at hlength ⊢
      generalize s.contents.getD .empty = c at hresult hlength ⊢
      simp only [Tuned, hformat, hresult, List.length_map, List.length_range, true_and]
      refine ⟨?_, ?_⟩
      · rw [flatten_take_range] at hlength ⊢
        rw [List.length_map, List.length_range] at hlength
        rw [List.take_of_length_le (Nat.le_of_eq hlength)]
      · have hleft : c.framesFrom cursor - min n (c.framesFrom cursor) = c.framesFrom cursor - n := by
          omega
        rw [drop_range_map, Contents.framesFrom_add, hleft]
        refine List.map_congr_left fun j hj => ?_
        rw [List.mem_range] at hj
        -- there is a frame behind those that were given, so they were whole
        have hgiven : n * 4 ≤ c.size - cursor := by
          simp only [Contents.framesFrom, divUp] at hj
          omega
        rw [Nat.min_eq_left hgiven, Nat.mul_add, Nat.add_assoc, Nat.mul_comm n]
  | stream stream =>
      simp only [Tuned, hformat] at h
      obtain ⟨first, rfl⟩ := h
      have hresult : result = _ := decode_stream hformat first n
      simp only [framesBehind, hformat] at hlength ⊢
      rcases Nat.eq_zero_or_pos stream.channels with hnone | hpos
      · simp [Tuned, hformat, hresult, playable_of_silent hnone, hnone]
      · rw [Nat.mul_div_cancel_left _ hpos] at hresult hlength ⊢
        simp only [Tuned, hformat, hresult, List.length_map, List.length_range, true_and,
          Nat.mul_div_cancel_left _ hpos, Nat.dvd_mul_right]
        generalize stream.playable (s.contents.getD .empty) = playable at hlength ⊢
        refine ⟨?_, ?_⟩
        · rw [flatten_take_range, ← Pcm.Stream.samplesAt_mul] at hlength ⊢
          rw [List.length_map, List.length_range] at hlength
          rw [List.take_of_length_le (Nat.le_of_eq hlength)]
        · have hleft : playable - (first + min n (playable - first)) = playable - first - n := by
            omega
          rw [drop_range_map, hleft]
          refine List.map_congr_left fun j hj => ?_
          rw [List.mem_range] at hj
          have hgiven : n ≤ playable - first := by omega
          rw [Nat.min_eq_left hgiven, Nat.mul_add, Nat.mul_add, Nat.add_assoc]

end Source

/-! ### What is heard -/

theorem Sample.length_read (order : ByteOrder) {bytes : List UInt8} {n : Nat}
    (h : bytes.length = 2 * n) : (read order bytes).length = n := by
  induction n generalizing bytes with
  | zero => rw [List.eq_nil_of_length_eq_zero h, read_nil, List.length_nil]
  | succ n ih =>
      match bytes, h with
      | first :: second :: rest, h =>
          have hrest : rest.length = 2 * n := by
            simp only [List.length_cons] at h
            omega
          rw [read_cons_cons, List.length_cons, ih hrest]

namespace Source

/-- What a channel collects of frames that it is handed at once. -/
def heard (s : Source) (frames : List (List UInt8)) : List Int16 :=
  if s.channels = 2 then Sample.read .little frames.flatten
  else ((Sample.read .little frames.flatten).take frames.length).flatMap fun x => [x, x]

/-- The samples of a frame. -/
def sound (s : Source) (frame : List UInt8) : List Int16 := s.heard [frame]

@[simp] theorem byteOrder_eq (s : Source) : s.byteOrder = .little := by
  unfold byteOrder
  split <;> rfl

@[simp] theorem heard_nil (s : Source) : s.heard [] = [] := by
  unfold heard
  split <;> rfl

variable {s : Source} {frames rest : List (List UInt8)}

/-- The samples of whole frames. -/
theorem length_read_flatten (h : ∀ frame ∈ frames, frame.length = s.bytesPerFrame) :
    (Sample.read .little frames.flatten).length = frames.length * max s.channels 1 := by
  refine Sample.length_read _ ?_
  rw [length_flatten_of_const h, bytesPerFrame, ← Nat.mul_assoc, Nat.mul_comm]

/-- **Two samples for each frame** are collected, whatever the number of channels is. -/
theorem length_heard (h : ∀ frame ∈ frames, frame.length = s.bytesPerFrame) :
    (s.heard frames).length = 2 * frames.length := by
  have hread := length_read_flatten h
  unfold heard
  by_cases hstereo : s.channels = 2
  · rw [if_pos hstereo, hread, hstereo, Nat.mul_comm]
    rfl
  · have hmany : frames.length ≤ frames.length * max s.channels 1 :=
      Nat.le_mul_of_pos_right _ (Nat.lt_of_lt_of_le Nat.one_pos (Nat.le_max_right _ _))
    rw [if_neg hstereo, length_flatMap_of_const (n := 2) fun _ _ => rfl, List.length_take, hread,
      Nat.min_eq_left hmany, Nat.mul_comm]

/-- With one or two channels, frames can be handed on in parts. -/
theorem heard_append (hfew : s.channels ≤ 2)
    (h : ∀ frame ∈ frames, frame.length = s.bytesPerFrame)
    (hrest : ∀ frame ∈ rest, frame.length = s.bytesPerFrame) :
    s.heard (frames ++ rest) = s.heard frames ++ s.heard rest := by
  have hbytes : frames.flatten.length = 2 * (frames.length * max s.channels 1) := by
    rw [length_flatten_of_const h, bytesPerFrame, ← Nat.mul_assoc, Nat.mul_comm]
  have hsplit : Sample.read .little (frames ++ rest).flatten =
      Sample.read .little frames.flatten ++ Sample.read .little rest.flatten := by
    rw [List.flatten_append, Sample.read_append _ _ hbytes]
  unfold heard
  by_cases hstereo : s.channels = 2
  · rw [if_pos hstereo, if_pos hstereo, if_pos hstereo, hsplit]
  · -- a frame is one sample, so all of them are taken
    have hmono : max s.channels 1 = 1 := by omega
    have hread := length_read_flatten h
    have hread' := length_read_flatten hrest
    rw [hmono, Nat.mul_one] at hread hread'
    rw [if_neg hstereo, if_neg hstereo, if_neg hstereo, hsplit, ← List.flatMap_append,
      List.take_of_length_le (Nat.le_of_eq hread), List.take_of_length_le (Nat.le_of_eq hread'),
      List.take_of_length_le (by simp [hread, hread'])]

theorem heard_eq_flatMap (hfew : s.channels ≤ 2)
    (h : ∀ frame ∈ frames, frame.length = s.bytesPerFrame) :
    s.heard frames = frames.flatMap s.sound := by
  induction frames with
  | nil => exact heard_nil s
  | cons frame rest ih =>
      have hfirst : ∀ f ∈ [frame], f.length = s.bytesPerFrame := by
        intro f hf
        rw [List.mem_singleton.mp hf]
        exact h frame List.mem_cons_self
      have hrest : ∀ f ∈ rest, f.length = s.bytesPerFrame :=
        fun f hf => h f (List.mem_cons_of_mem _ hf)
      rw [List.flatMap_cons, ← ih hrest, ← List.singleton_append, heard_append hfew hfirst hrest]
      rfl

/-- Handing on frames collects what is heard of them. -/
theorem samples_forward (c : Channel) (h : ∀ frame ∈ frames, frame.length = s.bytesPerFrame) :
    (c.forward s.channels s.byteOrder frames.length frames.flatten).samples.toList =
      c.samples.toList ++ s.heard frames := by
  have hlength := length_heard h
  rw [Channel.forward, byteOrder_eq]
  unfold heard at hlength ⊢
  by_cases hstereo : s.channels = 2
  · rw [if_pos hstereo] at hlength ⊢
    have hall := Nat.le_of_eq (hlength.trans (Nat.mul_comm _ _))
    rw [if_pos hstereo, Channel.toList_samples_addStereo, List.take_of_length_le hall]
  · rw [if_neg hstereo, if_neg hstereo, Channel.toList_samples_addMono]

end Source

/-! ### A pull -/

namespace Deck

variable {d : Deck} {s : Segment}

/-- **What is collected** of a source between two frames: what is heard of the next ones. -/
theorem samples_sounded_tuned (houtput : d.channel?.isSome = true)
    (htuned : s.source.Tuned (d.cursors.get s.source.id)) (n : Nat) :
    (d.sounded s n).samples = d.samples ++
      s.source.heard ((s.source.framesBehind (d.cursors.get s.source.id)).take n) := by
  obtain ⟨c, hc⟩ := Option.isSome_iff_exists.mp houtput
  obtain ⟨hframes, hbytes, -, -⟩ := Source.decode_tuned htuned n
  have hwhole : ∀ f ∈ (s.source.framesBehind (d.cursors.get s.source.id)).take n,
      f.length = s.source.bytesPerFrame :=
    fun f hf => Source.length_of_mem_framesBehind htuned (List.mem_of_mem_take hf)
  have hforward := s.source.samples_forward c hwhole
  have hsounded : (d.sounded s n).channel? = some (c.forward s.source.channels s.source.byteOrder
      ((s.source.framesBehind (d.cursors.get s.source.id)).take n).length
      ((s.source.framesBehind (d.cursors.get s.source.id)).take n).flatten) := by
    rw [channel?_sounded, hc, Option.map_some, ← hbytes, List.length_take, ← hframes]
    rfl
  unfold samples
  rw [hsounded, hc]
  exact hforward

end Deck

end CompactDisc
