import CompactDisc.Proofs.Sound.Effect

/-!
# CompactDisc.Proofs.Source.Decode

**The sound of a file of sectors**, one sample frame at a time. Behind a position there are so many
frames (`Contents.framesFrom`), and the last one is filled up with zeros where the file breaks off in
it (`Contents.frameAt`). Asked for some frames, the source gives the next ones, and moves on by what
it gave (`Source.decode_binary`). So what a channel collects does not depend on how many frames are
asked for at a time (`Deck.samples_sounded`).
-/

namespace CompactDisc

/-! ### Frames of a file -/

namespace Contents

/-- The four bytes of the sample frame at a position; zeros stand for bytes past the end. -/
def frameAt (c : Contents) (position : Nat) : List UInt8 :=
  c.read position 4 ++ List.replicate (4 - (c.read position 4).length) 0

/-- Sample frames from a position to the end, one that is not whole included. -/
def framesFrom (c : Contents) (position : Nat) : Nat := divUp (c.size - position) 4

/-- The samples of the frame at a position, left and right. -/
def soundAt (c : Contents) (position : Nat) : List Int16 :=
  Sample.read .little (c.frameAt position)

/-- The bytes from a position to the end. -/
def rest (c : Contents) (position : Nat) : List UInt8 := c.read position (c.size - position)

/-- Bytes up to a whole number of frames. -/
def padded (bytes : List UInt8) : List UInt8 :=
  bytes ++ List.replicate (divUp bytes.length 4 * 4 - bytes.length) 0

variable {c : Contents} {position : Nat}

theorem length_frameAt (c : Contents) (position : Nat) : (c.frameAt position).length = 4 := by
  unfold frameAt
  rw [List.length_append, List.length_replicate, length_read]
  omega

theorem framesFrom_of_size_le (h : c.size ≤ position) : c.framesFrom position = 0 := by
  unfold framesFrom divUp
  omega

theorem framesFrom_add_four (h : position < c.size) :
    c.framesFrom position = c.framesFrom (position + 4) + 1 := by
  unfold framesFrom divUp
  omega

/-- What is left of a file after some frames. -/
theorem framesFrom_add (c : Contents) (position frames : Nat) :
    c.framesFrom (position + min (frames * 4) (c.size - position)) =
      c.framesFrom position - min frames (c.framesFrom position) := by
  unfold framesFrom divUp
  omega

/-- **Bytes that are read are frames**, as many as were asked for or are left. -/
theorem padded_read (c : Contents) (position frames : Nat) :
    padded (c.read position (frames * 4)) =
      (List.range (min frames (c.framesFrom position))).flatMap
        fun j => c.frameAt (position + 4 * j) := by
  induction frames generalizing position with
  | zero => simp [padded, divUp]
  | succ frames ih =>
      rcases Nat.lt_or_ge position c.size with hinside | hend
      · have hcount : min (frames + 1) (c.framesFrom position) =
            min frames (c.framesFrom (position + 4)) + 1 := by
          rw [framesFrom_add_four hinside]
          omega
        have hrest : ∀ j, position + 4 * (j + 1) = position + 4 + 4 * j := by
          intro j
          omega
        rw [hcount, List.range_succ_eq_map, List.flatMap_cons, List.flatMap_map]
        simp only [hrest, Nat.mul_zero, Nat.add_zero]
        rw [← ih, show (frames + 1) * 4 = 4 + frames * 4 by omega, read_add]
        rcases Nat.lt_or_ge (position + 4) c.size with hmore | hlast
        · -- the first frame is whole
          have hfirst : (c.read position 4).length = 4 := by
            rw [length_read]
            omega
          have hpad : ∀ n, divUp (4 + n) 4 * 4 - (4 + n) = divUp n 4 * 4 - n := by
            intro n
            unfold divUp
            omega
          unfold padded frameAt
          rw [List.length_append, hfirst, hpad, Nat.sub_self, List.replicate_zero, List.append_nil,
            List.append_assoc]
        · -- nothing is behind the first frame, which may have to be filled up
          rw [read_of_size_le c _ hlast]
          have hfill : divUp (c.read position 4).length 4 * 4 = 4 := by
            rw [length_read]
            unfold divUp
            omega
          have hnothing : padded [] = [] := rfl
          rw [hnothing, List.append_nil, List.append_nil]
          unfold padded frameAt
          rw [hfill]
      · rw [framesFrom_of_size_le hend, read_of_size_le c _ hend]
        simp [padded, divUp]

/-- The bytes up to the end are frames. -/
theorem padded_rest (c : Contents) (position : Nat) :
    padded (c.rest position) =
      (List.range (c.framesFrom position)).flatMap fun j => c.frameAt (position + 4 * j) := by
  have hread : c.rest position = c.read position (c.framesFrom position * 4) := by
    unfold rest read
    rw [Nat.min_self, Nat.min_eq_right]
    unfold framesFrom divUp
    omega
  rw [hread, padded_read, Nat.min_self]

end Contents

/-! ### Samples -/

/-- Samples do not go across a place with an even number of bytes ahead of it. -/
theorem Sample.read_append (order : ByteOrder) {front : List UInt8} (rest : List UInt8) {n : Nat}
    (h : front.length = 2 * n) : read order (front ++ rest) = read order front ++ read order rest := by
  induction n generalizing front with
  | zero =>
      rw [List.eq_nil_of_length_eq_zero h]
      rfl
  | succ n ih =>
      match front, h with
      | first :: second :: front, h =>
          have hfront : front.length = 2 * n := by
            simp only [List.length_cons] at h
            omega
          rw [List.cons_append, List.cons_append, read_cons_cons, read_cons_cons, ih hfront]
          rfl

theorem Contents.length_soundAt (c : Contents) (position : Nat) :
    (c.soundAt position).length = 2 := by
  have hlength := c.length_frameAt position
  unfold soundAt
  match c.frameAt position, hlength with
  | [b0, b1, b2, b3], _ => rfl

theorem length_flatMap_of_const {α β : Type} {f : α → List β} {n : Nat} {xs : List α}
    (h : ∀ x ∈ xs, (f x).length = n) : (xs.flatMap f).length = xs.length * n := by
  induction xs with
  | nil => simp
  | cons x xs ih =>
      rw [List.flatMap_cons, List.length_append, h x List.mem_cons_self,
        ih fun y hy => h y (List.mem_cons_of_mem _ hy), List.length_cons, Nat.succ_mul,
        Nat.add_comm]

/-- Parts with an even number of bytes are read one by one. -/
theorem Sample.read_flatMap {α : Type} (f : α → List UInt8) (xs : List α)
    (h : ∀ x ∈ xs, ∃ n, (f x).length = 2 * n) :
    read .little (xs.flatMap f) = xs.flatMap fun x => read .little (f x) := by
  induction xs with
  | nil => rfl
  | cons x xs ih =>
      obtain ⟨n, hn⟩ := h x List.mem_cons_self
      rw [List.flatMap_cons, List.flatMap_cons, read_append _ _ hn,
        ih fun y hy => h y (List.mem_cons_of_mem _ hy)]

/-! ### Decoding -/

namespace Source

variable {s : Source} {size : Nat} {contents : Contents}

/-- **What decoding gives**: the next frames, and the position behind them. -/
theorem decode_binary (hformat : s.format = .binary size) (hcontents : s.contents = some contents)
    (frames cursor : Nat) :
    s.decode frames (frames * s.bytesPerFrame) cursor =
      ({ frames := min frames (contents.framesFrom cursor)
         bytes := (List.range (min frames (contents.framesFrom cursor))).flatMap
           fun j => contents.frameAt (cursor + 4 * j) },
        cursor + min (frames * 4) (contents.size - cursor)) := by
  have hframe : s.bytesPerFrame = 4 := by
    unfold bytesPerFrame channels
    rw [hformat]
    rfl
  have hroom : min (frames * 4) (frames * 4 - frames * 4 % 4) = frames * 4 := by omega
  have hwhole : divUp (min (frames * 4) (contents.size - cursor)) 4 =
      min frames (contents.framesFrom cursor) := by
    unfold Contents.framesFrom divUp
    omega
  unfold decode bytesAt
  rw [hformat, hframe, hcontents]
  dsimp only [Option.getD_some, RedBook.bytesPerSampleFrame]
  rw [hroom, ← Contents.padded_read, ← hwhole]
  unfold Contents.padded divUp
  rw [Contents.length_read]

end Source

namespace Deck

variable {d : Deck} {s : Segment} {size frames : Nat} {contents : Contents}

/-- A segment of a file of sectors is being played. -/
structure PlaysFile (d : Deck) (s : Segment) (contents : Contents) : Prop where
  playing : d.player.playing = true
  unpaused : d.player.paused = false
  segment : d.player.segment = some s
  output : d.channel?.isSome = true
  format : ∃ size, s.source.format = .binary size
  bytes : s.source.contents = some contents
  known : s.source.id < d.cursors.positions.length

theorem frames_decode (d : Deck) (frames : Nat) (hformat : s.source.format = .binary size)
    (hcontents : s.source.contents = some contents) :
    (d.cursors.decode s.source frames).1.frames =
      min frames (contents.framesFrom (d.cursors.get s.source.id)) :=
  congrArg (·.1.frames)
    (Source.decode_binary hformat hcontents frames (d.cursors.get s.source.id))

theorem get_decode (d : Deck) (frames : Nat) (hformat : s.source.format = .binary size)
    (hcontents : s.source.contents = some contents)
    (hknown : s.source.id < d.cursors.positions.length) :
    (d.cursors.decode s.source frames).2.get s.source.id = d.cursors.get s.source.id +
      min (frames * 4) (contents.size - d.cursors.get s.source.id) := by
  unfold Cursors.decode Cursors.use
  dsimp only
  rw [Cursors.get_set_self _ hknown, Source.decode_binary hformat hcontents]

/-- **What is collected** of a source: the frames that it gives, in order. -/
theorem samples_sounded (hformat : s.source.format = .binary size)
    (hcontents : s.source.contents = some contents) (hchannel : d.channel?.isSome = true) :
    (d.sounded s frames).samples = d.samples ++
      (List.range (min frames (contents.framesFrom (d.cursors.get s.source.id)))).flatMap
        fun j => contents.soundAt (d.cursors.get s.source.id + 4 * j) := by
  obtain ⟨c, hc⟩ := Option.isSome_iff_exists.mp hchannel
  have hframe : s.source.bytesPerFrame = 4 := by
    unfold Source.bytesPerFrame Source.channels
    rw [hformat]
    rfl
  have hchannels : s.source.channels = 2 := by
    unfold Source.channels
    rw [hformat]
    rfl
  have horder : s.source.byteOrder = .little := by
    unfold Source.byteOrder
    rw [hformat]
  have hbytes : (d.cursors.decode s.source frames).1.bytes = _ :=
    congrArg (·.1.bytes) (Source.decode_binary hformat hcontents frames (d.cursors.get s.source.id))
  generalize hk : min frames (contents.framesFrom (d.cursors.get s.source.id)) = k at hbytes ⊢
  generalize d.cursors.get s.source.id = cursor at hbytes ⊢
  have hlength : ((List.range k).flatMap fun j => contents.frameAt (cursor + 4 * j)).length =
      k * 4 := by
    rw [length_flatMap_of_const fun j _ => contents.length_frameAt _, List.length_range]
  have hread : Sample.read .little
        ((List.range k).flatMap fun j => contents.frameAt (cursor + 4 * j)) =
      (List.range k).flatMap fun j => contents.soundAt (cursor + 4 * j) :=
    Sample.read_flatMap _ _ fun j _ => ⟨2, contents.length_frameAt _⟩
  have hcount : ((List.range k).flatMap fun j => contents.soundAt (cursor + 4 * j)).length =
      k * 2 := by
    rw [length_flatMap_of_const fun j _ => contents.length_soundAt _, List.length_range]
  have hsounded : (d.sounded s frames).channel? = some (c.addStereo k
      ((List.range k).flatMap fun j => contents.soundAt (cursor + 4 * j))) := by
    rw [channel?_sounded, hc, hchannels, horder, hframe, frames_decode d frames hformat hcontents,
      hk, hbytes, List.take_of_length_le (Nat.le_of_eq hlength), ← hread]
    rfl
  unfold samples
  rw [hsounded, hc]
  show (c.addStereo k _).samples.toList = c.samples.toList ++ _
  rw [Channel.toList_samples_addStereo, List.take_of_length_le (Nat.le_of_eq hcount)]

/-- A pull collects the frames behind the cursor, whatever has to be done then. -/
theorem PlaysFile.samples_pull (h : d.PlaysFile s contents) (hframes : 0 < frames) :
    (d.pull frames).samples = d.samples ++
      (List.range (min frames (contents.framesFrom (d.cursors.get s.source.id)))).flatMap
        fun j => contents.soundAt (d.cursors.get s.source.id + 4 * j) := by
  obtain ⟨size, hformat⟩ := h.format
  obtain ⟨c, hc⟩ := Option.isSome_iff_exists.mp h.output
  rw [pull_of_active hframes h.playing h.unpaused h.segment (channel_of_channel? hc),
    samples_proceed, samples_sounded hformat h.bytes h.output]

end Deck

end CompactDisc
