import CompactDisc.Pcm.Decoder
import CompactDisc.Proofs.Source.Frames

/-!
# CompactDisc.Proofs.Pcm.Packets

**A decoder hands out the samples of a stream in order**, each once, however few are asked for at a
time. All that a decoder still has to give is `Decoder.ahead`: what is left of its packet, and behind
it the packets that follow, without the frames that are still to be dropped. Taking in a packet does
not change it (`Decoder.ahead_takeIn`), so what is handed out is its front, and the rest stays ahead
(`Decoder.fill_eq`).

From a place that was gone to, what is ahead are the samples of the stream from there on
(`Decoder.ahead_goneTo`): packets begin at multiples of their size, and the samples of whole packets
are counted by them (`Stream.soundFrom_packet`).
-/

namespace CompactDisc

/-- The front of what is read is what is read of the front. -/
theorem Contents.take_read (c : Contents) (offset : Nat) {m n : Nat} (h : m ≤ n) :
    (c.read offset n).take m = c.read offset m := by
  apply List.ext_getElem
  · simp only [List.length_take, length_read]
    omega
  · intro i _ _
    simp [read]

/-- Writing what was read gives the same bytes, if they are whole samples. -/
theorem Sample.write_read {bytes : List UInt8} {n : Nat} (h : bytes.length = 2 * n) :
    write (read .little bytes) = bytes := by
  induction n generalizing bytes with
  | zero => rw [List.eq_nil_of_length_eq_zero h, read_nil, write, List.flatMap_nil]
  | succ n ih =>
      rcases bytes with _ | ⟨first, _ | ⟨second, rest⟩⟩
      · rw [List.length_nil] at h
        omega
      · rw [List.length_singleton] at h
        omega
      · have hrest : rest.length = 2 * n := by simpa [Nat.mul_succ] using h
        have hfirst := first.toNat_lt
        have hsecond := second.toNat_lt
        have hsmall : first.toNat + 256 * second.toNat < UInt16.size := by
          simp only [UInt16.size]
          omega
        have hlow : (first.toNat + 256 * second.toNat) % 256 = first.toNat := by omega
        have hhigh : (first.toNat + 256 * second.toNat) / 256 % 256 = second.toNat := by omega
        have hbytes : toBytes (ofBytes .little first second) = [first, second] := by
          simp only [toBytes, ofBytes, Word.bytes, UInt16.toUInt16_toInt16,
            UInt16.toNat_ofNat_of_lt' hsmall, hlow, hhigh, UInt8.ofNat_toNat]
        rw [read_cons_cons, write, List.flatMap_cons, hbytes]
        exact congrArg (first :: second :: ·) (ih hrest)

namespace Pcm

namespace Stream

variable {s : Stream} {c : Contents}

/-! ### Packets -/

/-- All samples from the packet at a place on. -/
def soundFrom (s : Stream) (c : Contents) (next : Nat) : List Int16 :=
  if _atEnd : s.packetAt c next = [] then []
  else s.unpack (s.packetAt c next) ++ s.soundFrom c (next + (s.packetAt c next).length)
  termination_by s.present c - next
  decreasing_by
    have hbefore := lt_present_of_packetAt _atEnd
    have hpos := List.length_pos_iff.mpr _atEnd
    omega

theorem soundFrom_end {next : Nat} (h : s.packetAt c next = []) : s.soundFrom c next = [] := by
  rw [soundFrom, dif_pos h]

theorem soundFrom_more {next : Nat} (h : s.packetAt c next ≠ []) :
    s.soundFrom c next =
      s.unpack (s.packetAt c next) ++ s.soundFrom c (next + (s.packetAt c next).length) := by
  rw [soundFrom, dif_neg h]

theorem length_unpack (s : Stream) (packet : List UInt8) :
    (s.unpack packet).length = s.framesIn packet.length * s.channels := by
  refine Sample.length_read _ ?_
  rw [List.length_take, Nat.min_eq_left (s.framesIn_mul_le _), frameSize, Nat.mul_left_comm]
  rfl

/-- The samples of a packet stand one behind the other. -/
theorem samplesAt_packet (s : Stream) (c : Contents) (packet : Nat) {count : Nat}
    (h : count ≤ s.packetSamples) :
    s.samplesAt c (packet * s.packetSamples) count =
      c.read (s.start + packet * s.packetSize) (sampleSize * count) := by
  induction count with
  | zero => simp [samplesAt]
  | succ count ih =>
      have hplace : s.position (packet * s.packetSamples + count) =
          s.start + packet * s.packetSize + sampleSize * count := by
        have hpos : 0 < s.packetSamples := by omega
        rw [position, Nat.add_comm (packet * _), Nat.add_mul_div_right _ _ hpos,
          Nat.add_mul_mod_self_right, Nat.div_eq_of_lt h, Nat.mod_eq_of_lt h, Nat.zero_add]
      rw [samplesAt_add, ih (by omega), Nat.mul_succ, Contents.read_add]
      simp [samplesAt, hplace]

/-! ### Sound behind a sample -/

/-- The samples from one on that can be heard. -/
def soundBehind (s : Stream) (c : Contents) (sample : Nat) : List Int16 :=
  Sample.read .little (s.samplesAt c sample (s.playable c * s.channels - sample))

theorem length_soundBehind (s : Stream) (c : Contents) (sample : Nat) :
    (s.soundBehind c sample).length = s.playable c * s.channels - sample := by
  rcases Nat.le_total sample (s.playable c * s.channels) with h | h
  · exact Sample.length_read _ (length_samplesAt (by omega))
  · simp [soundBehind, Nat.sub_eq_zero_of_le h, samplesAt]

/-- What can be heard comes in two parts. -/
theorem soundBehind_add {sample count : Nat} (h : sample + count ≤ s.playable c * s.channels) :
    s.soundBehind c sample =
      Sample.read .little (s.samplesAt c sample count) ++ s.soundBehind c (sample + count) := by
  have hsplit : s.playable c * s.channels - sample =
      count + (s.playable c * s.channels - (sample + count)) := by omega
  rw [soundBehind, hsplit, samplesAt_add, Sample.read_append _ _ (length_samplesAt h), soundBehind]

theorem soundBehind_drop (s : Stream) (c : Contents) (sample count : Nat) :
    s.soundBehind c (sample + count) = (s.soundBehind c sample).drop count := by
  rcases Nat.le_total (sample + count) (s.playable c * s.channels) with h | h
  · have hfront := Sample.length_read .little (length_samplesAt h)
    rw [soundBehind_add h, List.drop_left' hfront]
  · have hnone := s.length_soundBehind c (sample + count)
    rw [Nat.sub_eq_zero_of_le h] at hnone
    rw [List.eq_nil_of_length_eq_zero hnone, eq_comm, List.drop_eq_nil_iff, length_soundBehind]
    omega

/-- The bytes of samples that can be heard. -/
theorem write_take_soundBehind (s : Stream) (c : Contents) (sample count : Nat) :
    Sample.write ((s.soundBehind c sample).take count) =
      s.samplesAt c sample (min count (s.playable c * s.channels - sample)) := by
  have htake : (s.soundBehind c sample).take count =
      (s.soundBehind c sample).take (min count (s.playable c * s.channels - sample)) := by
    rw [← s.length_soundBehind c sample, ← List.take_eq_take_min]
  rcases Nat.le_total sample (s.playable c * s.channels) with h | h
  · have hinside : sample + min count (s.playable c * s.channels - sample) ≤
        s.playable c * s.channels := by omega
    have hfront := length_samplesAt hinside
    rw [htake, soundBehind_add hinside, List.take_left' (Sample.length_read _ hfront),
      Sample.write_read hfront]
  · simp [htake, Nat.sub_eq_zero_of_le h, samplesAt, Sample.write]

/-! ### Sound from a packet -/

/-- The frames that are decoded from so many bytes of samples, packet by packet. -/
def framesWithin (s : Stream) (size : Nat) : Nat :=
  size / s.packetSize * s.framesIn s.packetSize + s.framesIn (size % s.packetSize)

theorem playable_eq_framesWithin (s : Stream) (c : Contents) :
    s.playable c = s.framesWithin (s.present c) := rfl

theorem framesIn_zero (s : Stream) : s.framesIn 0 = 0 := by simp [framesIn]

theorem framesWithin_packet (packet : Nat) {size : Nat} (hpos : 0 < s.packetSize)
    (h : size ≤ s.packetSize) :
    s.framesWithin (packet * s.packetSize + size) =
      packet * s.framesIn s.packetSize + s.framesIn size := by
  rw [framesWithin, Nat.add_comm (packet * _), Nat.add_mul_div_right _ _ hpos,
    Nat.add_mul_mod_self_right]
  rcases Nat.eq_or_lt_of_le h with rfl | hlt
  · rw [Nat.div_self hpos, Nat.mod_self, framesIn_zero, Nat.add_mul, Nat.one_mul]
    omega
  · rw [Nat.div_eq_of_lt hlt, Nat.mod_eq_of_lt hlt, Nat.zero_add]

theorem framesWithin_mono (hpos : 0 < s.packetSize) {m n : Nat} (h : m ≤ n) :
    s.framesWithin m ≤ s.framesWithin n := by
  have hpackets := Nat.div_le_div_right (c := s.packetSize) h
  rcases Nat.eq_or_lt_of_le hpackets with hsame | hmore
  · have hrest : m % s.packetSize ≤ n % s.packetSize := by
      have hm := Nat.div_add_mod' m s.packetSize
      have hn := Nat.div_add_mod' n s.packetSize
      rw [hsame] at hm
      omega
    rw [framesWithin, framesWithin, hsame]
    exact Nat.add_le_add_left (framesIn_mono hrest) _
  · -- the packets of `n` make up for what is left of `m`
    have hlast := framesIn_mono (s := s) (Nat.le_of_lt (Nat.mod_lt m hpos))
    have hwhole := Nat.mul_le_mul_right (s.framesIn s.packetSize) (Nat.succ_le_of_lt hmore)
    rw [Nat.succ_mul] at hwhole
    rw [framesWithin, framesWithin]
    omega

/-- Blocks without a size hold no samples. -/
theorem playable_of_packetSize (h : s.packetSize = 0) (c : Contents) : s.playable c = 0 := by
  have hblock : s.block = 0 := by
    rw [packetSize, packetBlocks] at h
    omega
  have hpresent : s.present c = 0 := by simp [present, hblock]
  simp [playable_eq_framesWithin, framesWithin, hpresent, framesIn_zero]

/-- Where there is no packet, all frames have been heard. -/
theorem playable_le_of_end {packet : Nat} (h : s.packetAt c (packet * s.packetSize) = []) :
    s.playable c ≤ packet * s.framesIn s.packetSize := by
  have hbytes := congrArg List.length h
  rw [length_packetAt, List.length_nil] at hbytes
  rcases Nat.eq_zero_or_pos s.packetSize with hzero | hpos
  · rw [playable_of_packetSize hzero]
    exact Nat.zero_le _
  · have hreached : s.present c ≤ packet * s.packetSize + 0 := by omega
    have hframes := framesWithin_mono hpos hreached
    rw [framesWithin_packet _ hpos (Nat.zero_le _), framesIn_zero] at hframes
    exact hframes

/-- The samples that are handed out of a packet are those of the stream at its place. -/
theorem unpack_packetAt (s : Stream) (c : Contents) (packet : Nat) :
    s.unpack (s.packetAt c (packet * s.packetSize)) =
      Sample.read .little (s.samplesAt c (packet * s.packetSamples)
        (s.framesIn (s.packetAt c (packet * s.packetSize)).length * s.channels)) := by
  have hsize := s.length_packetAt c (packet * s.packetSize)
  generalize hlength : (s.packetAt c (packet * s.packetSize)).length = size at hsize
  have hcount : s.framesIn size * s.channels ≤ s.packetSamples :=
    Nat.mul_le_mul_right _ (framesIn_mono (by omega))
  have hbytes : s.framesIn size * s.frameSize = sampleSize * (s.framesIn size * s.channels) := by
    rw [frameSize, Nat.mul_left_comm]
  have hwithin : s.framesIn size * s.frameSize ≤
      min s.packetSize (s.present c - packet * s.packetSize) :=
    hsize ▸ s.framesIn_mul_le size
  rw [unpack, hlength, packetAt, Contents.take_read _ _ hwithin, hbytes,
    samplesAt_packet _ _ _ hcount]

/-- **What comes from a packet on** are the samples from its first one on. -/
theorem soundFrom_packet (s : Stream) (c : Contents) (packet : Nat) :
    s.soundFrom c (packet * s.packetSize) = s.soundBehind c (packet * s.packetSamples) := by
  generalize hnext : packet * s.packetSize = next
  fun_induction soundFrom s c next generalizing packet with
  | case1 next hend =>
      rw [← hnext] at hend
      have hsamples := Nat.mul_le_mul_right s.channels (playable_le_of_end hend)
      rw [Nat.mul_assoc] at hsamples
      change _ ≤ packet * s.packetSamples at hsamples
      rw [eq_comm, ← List.length_eq_zero_iff, length_soundBehind, Nat.sub_eq_zero_of_le hsamples]
  | case2 next hmore ih =>
      have hunpack := s.unpack_packetAt c packet
      have hbytes := s.length_packetAt c next
      have hpositive := List.length_pos_iff.mpr hmore
      rw [hnext] at hunpack
      generalize (s.packetAt c next).length = size at hunpack hbytes hpositive ih ⊢
      have hpos : 0 < s.packetSize := by omega
      have hfit : size ≤ s.packetSize := by omega
      have hpresent : packet * s.packetSize + size ≤ s.present c := by omega
      have hframes := framesWithin_packet packet hpos hfit
      have hinside : packet * s.packetSamples + s.framesIn size * s.channels ≤
          s.playable c * s.channels := by
        have hmono := Nat.mul_le_mul_right s.channels (framesWithin_mono hpos hpresent)
        rw [hframes, Nat.add_mul, Nat.mul_assoc] at hmono
        exact hmono
      rw [hunpack, soundBehind_add hinside]
      refine congrArg (Sample.read .little _ ++ ·) ?_
      rcases Nat.eq_or_lt_of_le hfit with rfl | hshort
      · -- a whole packet, and the next one begins behind it
        have hsamples : packet * s.packetSamples + s.framesIn s.packetSize * s.channels =
            (packet + 1) * s.packetSamples := by
          rw [Nat.succ_mul]
          rfl
        rw [hsamples]
        exact ih (packet + 1) (by rw [Nat.succ_mul, hnext])
      · -- the last packet
        have hlast : next + size = s.present c := by omega
        have hnothing : s.packetAt c (next + size) = [] := by
          rw [← List.length_eq_zero_iff, length_packetAt, hlast, Nat.sub_self, Nat.min_zero]
        rw [soundFrom_end hnothing, eq_comm, ← List.length_eq_zero_iff, length_soundBehind,
          playable_eq_framesWithin, ← hlast, ← hnext, hframes, Nat.add_mul, Nat.mul_assoc]
        exact Nat.sub_self _

end Stream

namespace Decoder

variable {s : Stream} {c : Contents} {d : Decoder}

/-! ### What a decoder has ahead -/

/-- All samples that a decoder still has to give. -/
def ahead (s : Stream) (c : Contents) (d : Decoder) : List Int16 :=
  d.left ++ (s.soundFrom c d.next).drop (d.preRoll * s.channels)

theorem ahead_new (s : Stream) (c : Contents) : ahead s c {} = s.soundBehind c 0 := by
  have hstart := s.soundFrom_packet c 0
  simp only [Nat.zero_mul] at hstart
  simp [ahead, left, hstart]

/-- **A place that was gone to**: the samples from there on are ahead. -/
theorem ahead_goneTo (s : Stream) (c : Contents) (frame : Nat) :
    (goneTo s frame).ahead s c = s.soundBehind c (s.sampleAt frame) := by
  simp [ahead, left, goneTo, Stream.sampleAt, Stream.soundFrom_packet, Stream.soundBehind_drop]

/-- Whole frames are dropped. -/
theorem preRoll_takeIn (frames preRoll channels : Nat) :
    (preRoll - min (preRoll * channels) (frames * channels) / channels) * channels =
      preRoll * channels - frames * channels := by
  rcases Nat.eq_zero_or_pos channels with rfl | hpos
  · simp
  · rw [Nat.mul_min_mul_right, Nat.mul_div_cancel _ hpos, ← Nat.sub_mul]
    congr 1
    omega

/-- Taking in a packet changes nothing of what is ahead. -/
theorem ahead_takeIn (hleft : d.left = []) (hmore : s.packetAt c d.next ≠ []) :
    (d.takeIn s (s.packetAt c d.next)).ahead s c = d.ahead s c := by
  have hdropped : (s.unpack (s.packetAt c d.next)).drop
        (min (d.preRoll * s.channels) (s.unpack (s.packetAt c d.next)).length) =
      (s.unpack (s.packetAt c d.next)).drop (d.preRoll * s.channels) := by
    simp [List.drop_eq_drop_iff]
  rw [ahead, ahead, hleft, List.nil_append, Stream.soundFrom_more hmore, List.drop_append]
  simp only [takeIn, left, List.drop_zero, hdropped]
  rw [Stream.length_unpack, preRoll_takeIn]

/-- Taking in packets gives samples to hand out, if there are any ahead. -/
theorem refill_spec (hleft : d.left = []) :
    (d.refill s c).2.ahead s c = d.ahead s c ∧
      ((d.refill s c).1 = false → d.ahead s c = []) := by
  fun_induction refill s c d with
  | case1 d hend => simp [ahead, hleft, Stream.soundFrom_end hend]
  | case2 d hmore next hnone ih =>
      have hsame : next.ahead s c = d.ahead s c := ahead_takeIn hleft hmore
      rw [← hsame]
      exact ih hnone
  | case3 d hmore next hsome =>
      refine ⟨ahead_takeIn hleft hmore, fun hnone => ?_⟩
      cases hnone

theorem ready_spec (s : Stream) (c : Contents) (d : Decoder) :
    (d.ready s c).2.ahead s c = d.ahead s c ∧
      ((d.ready s c).1 = false → d.ahead s c = []) := by
  rw [ready]
  split
  · exact ⟨rfl, nofun⟩
  · refine refill_spec ?_
    rw [left, List.drop_eq_nil_iff]
    omega

/-- Handing out samples leaves the rest ahead. -/
theorem ahead_use (count : Nat) (h : count ≤ d.left.length) :
    ({ d with used := d.used + count } : Decoder).ahead s c = (d.ahead s c).drop count := by
  rw [ahead, ahead, List.drop_append_of_le_length h]
  simp [left]

/-- **What is handed out** is the front of what is ahead, and the rest stays ahead. -/
theorem fill_eq (s : Stream) (c : Contents) (wanted : Nat) (d : Decoder) :
    (d.fill s c wanted).1 = (d.ahead s c).take wanted ∧
      (d.fill s c wanted).2.ahead s c = (d.ahead s c).drop wanted := by
  fun_induction fill s c wanted d with
  | case1 d => simp
  | case2 wanted d hwanted d' hready =>
      obtain ⟨hahead, hend⟩ := ready_spec s c d
      rw [hready] at hahead hend
      simp [hahead, hend rfl]
  | case3 wanted d hwanted d' hready part samples d'' hfill ih =>
      obtain ⟨hahead, -⟩ := ready_spec s c d
      rw [hready] at hahead
      have hcount : part.length = min wanted d'.left.length := List.length_take
      have hpart : part.length ≤ d'.left.length := by omega
      have hsplit : part.length + (wanted - part.length) = wanted := by omega
      have hfront : (d.ahead s c).take part.length = part := by
        rw [← hahead, ahead, List.take_append_of_le_length hpart, hcount, ← List.take_eq_take_min]
      rw [ahead_use _ hpart, hahead, hfill] at ih
      obtain ⟨hsamples, hrest⟩ := ih
      constructor
      · calc part ++ samples
            = (d.ahead s c).take part.length ++
                ((d.ahead s c).drop part.length).take (wanted - part.length) := by
              rw [hfront, ← hsamples]
          _ = (d.ahead s c).take wanted := by rw [← List.take_add, hsplit]
      · rw [hrest, List.drop_drop, hsplit]

end Decoder

end Pcm

end CompactDisc
