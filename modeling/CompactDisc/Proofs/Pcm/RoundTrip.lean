import CompactDisc.Proofs.Pcm.Written
import CompactDisc.Proofs.Source.Calls
import CompactDisc.Proofs.Source.File

/-!
# CompactDisc.Proofs.Pcm.RoundTrip

**From samples to a file and back.** A header whose fields fit in their bytes is read back as it was
written (`Header.parse_bytes`). A stream hands out the samples that it has behind its cursor, as many as
a call asks for (`Source.decode_eq`), so that calls cut them into portions; in a file that was written
these are the samples that it was made of (`Stream.soundBehind_written`). Together: a file of whole frames
holds its header and its samples and nothing else, and gives both back (`file_round_trip`).
-/

namespace CompactDisc

/-! ### Portions -/

/-- What is handed out of a list when so many elements are asked for, time after time. -/
def portions {α : Type} (l : List α) : List Nat → List (List α)
  | [] => []
  | n :: counts => l.take n :: portions (l.drop n) counts

@[simp] theorem length_portions {α : Type} (l : List α) (counts : List Nat) :
    (portions l counts).length = counts.length := by
  induction counts generalizing l with
  | nil => rfl
  | cons n counts ih => rw [portions, List.length_cons, List.length_cons, ih]

theorem flatten_portions {α : Type} (l : List α) (counts : List Nat) :
    (portions l counts).flatten = l.take counts.sum := by
  induction counts generalizing l with
  | nil => simp [portions]
  | cons n counts ih => rw [portions, List.flatten_cons, ih, List.sum_cons, List.take_add]

/-- Each portion is what comes behind those before it. -/
theorem getElem?_portions {α : Type} {l : List α} {counts : List Nat} {i n : Nat}
    (h : counts[i]? = some n) :
    (portions l counts)[i]? = some ((l.drop (counts.take i).sum).take n) := by
  induction counts generalizing l i with
  | nil => simp at h
  | cons m counts ih =>
    cases i with
    | zero =>
      obtain rfl : m = n := by simpa using h
      simp [portions]
    | succ i =>
      rw [List.getElem?_cons_succ] at h
      rw [portions, List.getElem?_cons_succ, ih h, List.drop_drop, List.take_succ_cons, List.sum_cons]

namespace Pcm

/-! ### Headers -/

namespace Header

/-- Every field fits in the bytes that a header has for it. -/
structure Fits (h : Header) : Prop where
  riffSize : h.riffSize < 2 ^ 32
  formatSize : h.formatSize < 2 ^ 32
  formatTag : h.formatTag < 2 ^ 16
  channels : h.channels < 2 ^ 16
  sampleRate : h.sampleRate < 2 ^ 32
  byteRate : h.byteRate < 2 ^ 32
  blockAlign : h.blockAlign < 2 ^ 16
  bitsPerSample : h.bitsPerSample < 2 ^ 16
  dataSize : h.dataSize < 2 ^ 32

theorem field_eq {input : List UInt8} {position width n : Nat}
    (h : (input.drop position).take width = Word.bytes width n) (hn : n < Nat.pow 256 width) :
    field input position width = .ok n := by
  unfold field Word.at?
  rw [h]
  dsimp only
  rw [Word.length_bytes, if_pos rfl, Word.value_bytes, Nat.mod_eq_of_lt hn]
  rfl

theorem expect_eq {input : List UInt8} {position : Nat} {text : String}
    (h : (input.drop position).take (Text.ascii text).length = Text.ascii text) :
    expect input position text = .ok () := by
  unfold expect
  dsimp only
  rw [h, if_neg (Nat.lt_irrefl _), if_pos rfl]

/-- **A header is read back** if its fields fit, whatever is behind it. -/
theorem parse_bytes {h : Header} (hfits : h.Fits) (data : List UInt8) :
    parse (h.bytes ++ data) = .ok h := by
  rw [Holds.spelt_eq]
  have hriff : expect (Holds.spelt h data) 0 "RIFF" = .ok () := expect_eq rfl
  have hform : expect (Holds.spelt h data) 8 "WAVEfmt " = .ok () := expect_eq rfl
  have hdata : expect (Holds.spelt h data) 36 "data" = .ok () := expect_eq rfl
  have hriffSize : field (Holds.spelt h data) 4 4 = .ok h.riffSize := field_eq rfl hfits.riffSize
  have hformatSize : field (Holds.spelt h data) 16 4 = .ok h.formatSize :=
    field_eq rfl hfits.formatSize
  have hformatTag : field (Holds.spelt h data) 20 2 = .ok h.formatTag := field_eq rfl hfits.formatTag
  have hchannels : field (Holds.spelt h data) 22 2 = .ok h.channels := field_eq rfl hfits.channels
  have hsampleRate : field (Holds.spelt h data) 24 4 = .ok h.sampleRate :=
    field_eq rfl hfits.sampleRate
  have hbyteRate : field (Holds.spelt h data) 28 4 = .ok h.byteRate := field_eq rfl hfits.byteRate
  have hblockAlign : field (Holds.spelt h data) 32 2 = .ok h.blockAlign :=
    field_eq rfl hfits.blockAlign
  have hbits : field (Holds.spelt h data) 34 2 = .ok h.bitsPerSample :=
    field_eq rfl hfits.bitsPerSample
  have hdataSize : field (Holds.spelt h data) 40 4 = .ok h.dataSize := field_eq rfl hfits.dataSize
  unfold parse
  rw [hriff, hform, hdata, hriffSize, hformatSize, hformatTag, hchannels, hsampleRate, hbyteRate,
    hblockAlign, hbits, hdataSize]
  rfl

/-- The header of a file that is not too long has fields that fit. -/
theorem fits_pcm16 {channels rate samples : Nat} (hsome : 0 < channels) (hfew : channels ≤ 26)
    (hbytes : rate * 2 * channels < 2 ^ 32) (hlong : 2 * samples + 36 < 2 ^ 32) :
    (pcm16 channels rate (2 * samples)).Fits where
  riffSize := by
    change 36 + 2 * samples < 2 ^ 32
    omega
  formatSize := (by decide : 16 < 2 ^ 32)
  formatTag := (by decide : 1 < 2 ^ 16)
  channels := by
    change channels < 2 ^ 16
    omega
  sampleRate := by
    have hrate : rate ≤ rate * (2 * channels) := Nat.le_mul_of_pos_right rate (by omega)
    rw [← Nat.mul_assoc] at hrate
    exact Nat.lt_of_le_of_lt hrate hbytes
  byteRate := by
    change rate * (channels * 2) < 2 ^ 32
    rwa [Nat.mul_comm channels, ← Nat.mul_assoc]
  blockAlign := by
    change channels * 2 < 2 ^ 16
    omega
  bitsPerSample := (by decide : 16 < 2 ^ 16)
  dataSize := by
    change 2 * samples < 2 ^ 32
    omega

end Header

/-! ### The samples of a written file -/

namespace Stream

theorem plain_written {channels rate : Nat} (hsome : 0 < channels) (hrate : 0 < rate) (samples : Nat) :
    (written channels rate samples hrate).Plain where
  channels_pos := hsome
  block_eq := Nat.mul_comm channels 2

/-- **What can be heard of a written file** are the samples that it was made of. -/
theorem soundBehind_written {c : Contents} {channels rate : Nat} {samples : List Int16}
    (hc : Holds c (Header.pcm16 channels rate (2 * samples.length)) (Sample.write samples))
    (hsome : 0 < channels) (hrate : 0 < rate) (hwhole : channels ∣ samples.length) :
    (written channels rate samples.length hrate).soundBehind c 0 = samples := by
  have hplain := plain_written hsome hrate samples.length
  have hlength := Sample.length_write samples
  have hsize : (written channels rate samples.length hrate).start +
      (written channels rate samples.length hrate).size ≤ c.size := by
    rw [hc.size_eq, hlength]
    exact Nat.le_refl _
  have hframes : (written channels rate samples.length hrate).playable c =
      samples.length / channels := by
    rw [hplain.playable_of_le hsize]
    change 2 * samples.length / (channels * 2) = _
    rw [Nat.mul_comm channels, Nat.mul_div_mul_left _ _ Nat.two_pos]
  have hcount : (written channels rate samples.length hrate).playable c *
      (written channels rate samples.length hrate).channels - 0 = samples.length := by
    rw [hframes, Nat.sub_zero]
    exact Nat.div_mul_cancel hwhole
  have hread : c.read Header.size (2 * samples.length) = Sample.write samples := by
    rw [Contents.read_eq_take_drop, hc, List.drop_left' (Header.length_bytes _),
      List.take_of_length_le (Nat.le_of_eq hlength)]
  rw [soundBehind, hcount, hplain.samplesAt_eq]
  change Sample.read .little (c.read Header.size (2 * samples.length)) = samples
  rw [hread, Sample.read_write]

end Stream

end Pcm

/-! ### Decoding a stream -/

namespace Source

/-- A call that decodes: the frames that are asked for, and the bytes that there is room for. -/
def decoding (request : Nat × Nat) : Call := .decode request.1 request.2

/-- The samples that a call asks for, as far as there is room for them. -/
def asked (channels : Nat) (request : Nat × Nat) : Nat := min (request.1 * channels) (request.2 / 2)

/-- Samples as they are handed out. -/
def soundOf (channels : Nat) (samples : List Int16) : Sound where
  frames := samples.length / channels
  bytes := Sample.write samples

variable {s : Source} {stream : Pcm.Stream}

/-- **A call takes the samples behind the cursor**, as many as it asks for. -/
theorem decode_eq (hformat : s.format = .stream stream) (request : Nat × Nat) (cursor : Nat) :
    let part := (stream.soundBehind (s.contents.getD .empty) cursor).take
      (asked stream.channels request)
    s.decode request.1 request.2 cursor =
      (soundOf stream.channels part, cursor + part.length) := by
  intro part
  have hlength : part.length = min (asked stream.channels request)
      (stream.playable (s.contents.getD .empty) * stream.channels - cursor) := by
    rw [List.length_take, Pcm.Stream.length_soundBehind]
  have hbytes := stream.write_take_soundBehind (s.contents.getD .empty) cursor
    (asked stream.channels request)
  change Sample.write part = _ at hbytes
  simp only [decode, hformat, soundOf, hlength, hbytes]
  rfl

/-- Calls that decode cut what is behind the cursor into portions. -/
theorem answers_decoding (hformat : s.format = .stream stream) (requests : List (Nat × Nat))
    (cursor : Nat) :
    s.answers cursor (requests.map decoding) =
      (portions (stream.soundBehind (s.contents.getD .empty) cursor)
        (requests.map (asked stream.channels))).map fun part => .sound (soundOf stream.channels part) := by
  induction requests generalizing cursor with
  | nil => rfl
  | cons request requests ih =>
    have hdecode := decode_eq hformat request cursor
    have hrest := ih (s.decode request.1 request.2 cursor).2
    have hbehind : stream.soundBehind (s.contents.getD .empty) (s.decode request.1 request.2 cursor).2 =
        (stream.soundBehind (s.contents.getD .empty) cursor).drop (asked stream.channels request) := by
      rw [hdecode, Pcm.Stream.soundBehind_drop, List.length_take, List.drop_eq_drop_iff, Nat.min_assoc,
        Nat.min_self]
    rw [hbehind] at hrest
    rw [List.map_cons, List.map_cons, portions, List.map_cons, answers, perform_cons]
    refine congrArg₂ List.cons ?_ hrest
    change Answer.sound (s.decode request.1 request.2 cursor).1 = _
    rw [hdecode]

/-- Parts that requests cut samples into: together the first samples, as many as are asked for, each
part behind those before it, and no frame behind the last sample. -/
structure Cuts (channels : Nat) (samples : List Int16) (requests : List (Nat × Nat))
    (parts : List (List Int16)) : Prop where
  together : parts.flatten = samples.take (requests.map (asked channels)).sum
  part : ∀ i n, (requests.map (asked channels))[i]? = some n →
    parts[i]? = some ((samples.drop ((requests.map (asked channels)).take i).sum).take n)
  rest : ∀ i, samples.length ≤ ((requests.map (asked channels)).take i).sum →
    ∀ part ∈ parts[i]?, soundOf channels part = ⟨0, []⟩

/-- A source that plays samples from the front, to whatever calls: those that take in packets, and
those that only move the cursor. -/
structure Plays (s : Source) (rate channels : Nat) (samples : List Int16) : Prop where
  rate_eq : s.rate = rate
  channels_eq : s.channels = channels
  decodes : ∀ requests : List (Nat × Nat), ∃ parts, Cuts channels samples requests parts ∧
    s.opened.answers s (requests.map decoding) = parts.map (fun part => .sound (soundOf channels part)) ∧
    s.answers 0 (requests.map decoding) = parts.map fun part => .sound (soundOf channels part)

theorem cuts_portions (channels : Nat) (samples : List Int16) (requests : List (Nat × Nat)) :
    Cuts channels samples requests (portions samples (requests.map (asked channels))) where
  together := flatten_portions _ _
  part _ _ hn := getElem?_portions hn
  rest i hend part hpart := by
    have hi : i < (requests.map (asked channels)).length := by
      rw [← length_portions samples]
      exact (List.getElem?_eq_some_iff.mp hpart).1
    rw [getElem?_portions (List.getElem?_eq_getElem hi), List.drop_of_length_le hend,
      List.take_nil] at hpart
    cases hpart
    exact congrArg₂ Sound.mk (Nat.zero_div channels) rfl

end Source

namespace Pcm

/-- Bytes that begin with a header, are as many as it says, and give it back. -/
structure Header.Heads (h : Header) (bytes : List UInt8) : Prop where
  /-- No field wraps. -/
  fits : h.Fits
  length : bytes.length = h.riffSize + 8
  parse : Header.parse bytes = .ok h
  bytes : h.bytes = bytes.take 44

/-- **A written file gives back what it was written from.** A file of whole frames is written exactly if
its size fields can express it. Then no field wraps, the file is as long as its header says, and the
header that is read from it is the one it was given, in the same bytes. Opened as sound it has the rate
and the channels that it was written with, and however calls ask for frames and make room for them, they
cut the samples into portions: together the first samples that were written, as many as were asked for,
each portion behind those before it, and no frame behind the last sample. The packets that are taken in
do not show. -/
theorem file_round_trip {channels rate : Nat} {samples : List Int16} (hsome : 1 ≤ channels)
    (hfew : channels ≤ 26) (hbytes : rate * 2 * channels < 2 ^ 32)
    (hwhole : channels ∣ samples.length) :
    ((file? channels rate samples).isSome ↔ (Header.dataSize? samples.length).isSome) ∧
    ((Header.dataSize? samples.length).isSome ↔ 2 * samples.length + 36 < 2 ^ 32) ∧
    ∀ bytes, file? channels rate samples = some bytes →
      (Header.pcm16 channels rate (2 * samples.length)).Heads bytes ∧
      (1 ≤ rate → ∀ storage path contents id, Storage.get storage path = .ok (.file contents) →
        contents.toList = bytes →
        ∃ s, Source.openAs storage path .audio id = .ok s ∧ s.Plays rate channels samples) := by
  have hsize : (Header.dataSize? samples.length).isSome ↔ 2 * samples.length + 36 < 2 ^ 32 := by
    rw [Option.isSome_iff_exists]
    simp only [Header.dataSize?_eq_some_iff, exists_and_left, exists_eq, and_true]
    exact Nat.lt_succ_iff.symm
  refine ⟨by rw [file?, Option.isSome_map], hsize, fun bytes hfile => ?_⟩
  have hlong : 2 * samples.length + 36 < 2 ^ 32 := hsize.mp (by
    rw [← Option.isSome_map, ← file?, hfile]
    rfl)
  obtain ⟨dataSize, hdataSize, rfl⟩ := Option.map_eq_some_iff.mp hfile
  obtain ⟨-, rfl⟩ := (Header.dataSize?_eq_some_iff _ _).mp hdataSize
  have hfits := Header.fits_pcm16 hsome hfew hbytes hlong
  refine ⟨⟨hfits, ?_, Header.parse_bytes hfits _, (List.take_left' (Header.length_bytes _)).symm⟩, ?_⟩
  · rw [List.length_append, Header.length_bytes, Sample.length_write]
    change 44 + 2 * samples.length = 36 + 2 * samples.length + 8
    omega
  · intro hrate storage path contents id hget hcontents
    have hfind := Stream.find_written hcontents hlong hsome hfew hrate hfits.sampleRate
    have hsound := Stream.soundBehind_written hcontents hsome hrate hwhole
    refine ⟨_, Source.openAs_sound hget hfind id, rfl, rfl, fun requests =>
      ⟨_, Source.cuts_portions channels samples requests, ?_, ?_⟩⟩
    · rw [(Source.State.perform_shows (Source.State.shows_opened _) _).1,
        Source.answers_decoding rfl]
      exact congrArg (fun l => (portions l _).map _) hsound
    · rw [Source.answers_decoding rfl]
      exact congrArg (fun l => (portions l _).map _) hsound

/-- Three frames of two channels. -/
def threeFrames : List Int16 := [1, -2, 3, -4, 5, -6]

/-- A file that three frames were written to. -/
def threeFramesFile : Contents := .ofArray ((file? 2 44100 threeFrames).getD []).toArray

/-- A directory with that file. -/
def threeFramesStorage : Storage := Storage.empty.place "t" (.file threeFramesFile)

/-- Two frames are asked for, then more than are left, then one more. -/
theorem file_round_trip_threeFrames :
    file? 2 44100 threeFrames = some threeFramesFile.toList ∧
    (Header.pcm16 2 44100 12).Heads threeFramesFile.toList ∧ threeFramesFile.toList.length = 56 ∧
    ∃ s, Source.openAs threeFramesStorage "t" .audio 0 = .ok s ∧ s.Plays 44100 2 threeFrames ∧
      s.opened.answers s ([(2, 8), (5, 20), (1, 4)].map Source.decoding) =
        [.sound ⟨2, Sample.write [1, -2, 3, -4]⟩, .sound ⟨1, Sample.write [5, -6]⟩,
          .sound ⟨0, []⟩] := by
  have hfile : file? 2 44100 threeFrames = some threeFramesFile.toList := by
    rw [threeFramesFile, Contents.toList_ofArray]
    rfl
  have hget : threeFramesStorage.get "t" = .ok (.file threeFramesFile) := rfl
  obtain ⟨-, -, hwritten⟩ := @file_round_trip 2 44100 threeFrames (by decide) (by decide) (by decide)
    (by decide)
  obtain ⟨hheads, hopen⟩ := hwritten _ hfile
  obtain ⟨s, hs, hplays⟩ := hopen (by decide) _ _ _ 0 hget rfl
  obtain ⟨parts, hcuts, hparts, -⟩ := hplays.decodes [(2, 8), (5, 20), (1, 4)]
  refine ⟨hfile, hheads, hheads.length, s, hs, hplays, ?_⟩
  have hcount : parts.length = 3 := by
    rw [← List.length_map, ← hparts]
    rfl
  have hfirst : parts[0]? = some ([1, -2, 3, -4] : List Int16) := hcuts.part 0 4 rfl
  have hsecond : parts[1]? = some ([5, -6] : List Int16) := hcuts.part 1 10 rfl
  have hthird : parts[2]? = some ([] : List Int16) := hcuts.part 2 2 rfl
  have hall : parts = [[1, -2, 3, -4], [5, -6], []] := by
    refine List.ext_getElem? fun i => ?_
    match i with
    | 0 => exact hfirst
    | 1 => exact hsecond
    | 2 => exact hthird
    | i + 3 =>
      rw [List.getElem?_eq_none (hcount ▸ Nat.le_add_left 3 i)]
      rfl
  rw [hparts, hall]
  rfl

end Pcm

end CompactDisc
