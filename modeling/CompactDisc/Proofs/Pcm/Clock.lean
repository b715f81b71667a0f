import CompactDisc.Proofs.Pcm.Duration
import CompactDisc.Proofs.Sound.Effect

/-!
# CompactDisc.Proofs.Pcm.Clock

**The clock of sound that need not be whole sectors.** The milliseconds of some frames are the nearest to
the time that they last but for the last bits (`Stream.duration_eq_floor`). Three conversions go by them:
the length of the sound in disc bytes, the frames of so many sectors, and the frame at a disc byte.

Two things follow. The sectors that are counted for a sound are too few by less than a twentieth of one,
so one sector more lasts longer than the sound (`Stream.lt_framesOf`). And at the rate of the disc all of
it repeats after three sectors: which of `divUp frames 588` and the sectors that are counted is greater
is told by the frames modulo 1764 (`Stream.sectors_frames`).
-/

namespace CompactDisc.Pcm.Stream

open Fraction (value nearest)

/-! ### Durations -/

section

variable {rate frames : Nat}

/-- A duration is a time rounded to the nearest millisecond, and this time is the true one but for a few
parts in two to the 53rd. -/
theorem duration_eq_floor (frames : Nat) (hrate : 0 < rate) : ∃ time : ℚ, 0 ≤ time ∧
    duration rate frames = ⌊time + 1 / 2⌋₊ ∧
    |time - 1000 * (frames / rate)| ≤ 1000 * (1 + frames / rate) / 2 ^ 53 := by
  have hseconds : |(nearest precision ⟨frames, rate⟩).value - frames / rate| ≤
      frames / rate / 2 ^ 53 := Fraction.abs_nearest_sub_le (by decide) hrate
  have hden := Fraction.den_nearest_pos precision ⟨frames, rate⟩
  have hfract := Fraction.value_fract hden
  have hbelow : (nearest precision ⟨frames, rate⟩).fract.value < 1 := by
    rw [hfract, Fraction.floor_eq]
    linarith [Nat.lt_floor_add_one (nearest precision ⟨frames, rate⟩).value]
  have hrest : 0 < ((nearest precision ⟨frames, rate⟩).fract.mul (.ofNat 1000)).den := by
    rw [Fraction.mul, Fraction.fract, Fraction.ofNat, Nat.mul_one]
    exact hden
  have hprecision : 0 < precision := by decide
  have hmillis := Fraction.abs_nearest_sub_le hprecision hrest
  rw [Fraction.value_mul, Fraction.value_ofNat] at hmillis
  have hpart := Fraction.den_nearest_pos precision
    ((nearest precision ⟨frames, rate⟩).fract.mul (.ofNat 1000))
  have hnonneg := Fraction.value_nonneg
    (nearest precision ((nearest precision ⟨frames, rate⟩).fract.mul (.ofNat 1000)))
  unfold duration
  dsimp only
  rw [Fraction.round_eq hpart]
  generalize nearest precision ((nearest precision ⟨frames, rate⟩).fract.mul (.ofNat 1000)) =
    part at hmillis hnonneg ⊢
  generalize nearest precision ⟨frames, rate⟩ = seconds at hseconds hfract hbelow hmillis ⊢
  have hwhole : (0 : ℚ) ≤ (seconds.floor : ℚ) := Nat.cast_nonneg _
  refine ⟨(seconds.floor : ℚ) * 1000 + part.value, by linarith, ?_, ?_⟩
  · have hsum : (seconds.floor : ℚ) * 1000 + part.value + 1 / 2 =
        part.value + 1 / 2 + (seconds.floor * 1000 : Nat) := by
      push_cast
      ring
    rw [hsum, Nat.floor_add_natCast (by linarith), Nat.add_comm]
  · rw [precision, abs_le] at hmillis
    rw [abs_le] at hseconds ⊢
    push_cast at hmillis
    constructor
    · linarith [hmillis.1, hseconds.1]
    · linarith [hmillis.2, hseconds.2]

/-- A duration is not much shorter than the frames last. -/
theorem le_duration (hrate : 0 < rate) (hshort : duration rate frames < 2 ^ 32) :
    1000 * (frames / rate : ℚ) ≤ duration rate frames + 1 / 2 + 1 / 1000 := by
  obtain ⟨time, hnonneg, hduration, herror⟩ := duration_eq_floor frames hrate
  have hfloor := Nat.lt_floor_add_one (time + 1 / 2)
  rw [← hduration] at hfloor
  have hshort' : (duration rate frames : ℚ) ≤ 2 ^ 32 := by exact_mod_cast Nat.le_of_lt hshort
  have herror := (abs_le.mp herror).1
  -- so short a time is known to less than a thousandth of a millisecond
  have hlast : (frames / rate : ℚ) ≤ 2 ^ 32 := by linarith
  linarith

/-- At the rate of the disc, a duration is the time rounded to the nearest millisecond. -/
theorem duration_disc (hshort : frames < 2 ^ 40) :
    duration RedBook.sampleRate frames = (20 * frames + 441) / 882 := by
  obtain ⟨time, hnonneg, hduration, herror⟩ := duration_eq_floor frames RedBook.sampleRate_pos
  have hshort' : (frames : ℚ) ≤ 2 ^ 40 := by exact_mod_cast Nat.le_of_lt hshort
  have hrate : (RedBook.sampleRate : ℚ) = 44100 := by norm_num [RedBook.sampleRate]
  rw [hrate, abs_le] at herror
  -- no time is half way between two milliseconds
  have hnear : 882 * ((20 * frames + 441) / 882) ≤ 20 * frames + 440 ∧
      20 * frames ≤ 882 * ((20 * frames + 441) / 882) + 440 := by omega
  generalize (20 * frames + 441) / 882 = ms at hnear ⊢
  have hlow : (882 * ms : ℚ) ≤ 20 * frames + 440 := by exact_mod_cast hnear.1
  have hhigh : (20 * frames : ℚ) ≤ 882 * ms + 440 := by exact_mod_cast hnear.2
  rw [hduration, Nat.floor_eq_iff (by linarith)]
  constructor
  · linarith [herror.1]
  · linarith [herror.2]

end

/-! ### Sectors -/

section

variable {s : Stream} {frames bytes sectors length : Nat}

/-- A length that is not too great is that of a time that is not. -/
theorem duration_lt_of_length? (hframes : s.frames? = some frames) (hbytes : s.length? = some bytes)
    (hshort : bytes < 2 ^ 32) : duration s.rate frames < 2 ^ 32 := by
  unfold length? at hbytes
  rw [hframes, Option.map_some, Option.some.injEq] at hbytes
  by_contra hlong
  have hlong : ((2 ^ 32 : Nat) : ℚ) ≤ duration s.rate frames := by
    exact_mod_cast Nat.not_lt.mp hlong
  have hfactor := value_bytesPerMillisecond.1
  have hreached : ((2 ^ 32 : Nat) : ℚ) ≤
      (nearest precision ((Fraction.ofNat (duration s.rate frames)).mul bytesPerMillisecond)).value := by
    apply Fraction.le_nearest (by decide)
    · rw [Fraction.mul]
      exact Nat.mul_pos Nat.one_pos (Fraction.den_nearest_pos _ _)
    · decide
    · rw [Fraction.value_mul, Fraction.value_ofNat]
      refine le_trans hlong ?_
      exact le_mul_of_one_le_right (Nat.cast_nonneg _) (by linarith)
  have hfloor := Nat.le_floor hreached
  rw [← Fraction.floor_eq, hbytes] at hfloor
  omega

/-- The length is that of the time. -/
theorem length?_eq (hframes : s.frames? = some frames) (hbytes : s.length? = some bytes)
    (hshort : bytes < 2 ^ 32) : bytes = bytesOfTime (duration s.rate frames) := by
  have htime := duration_lt_of_length? hframes hbytes hshort
  unfold length? at hbytes
  rw [hframes, Option.map_some, Option.some.injEq] at hbytes
  rw [← hbytes]
  exact floor_nearest_bytes htime

/-- **One sector more than are counted lasts longer than the sound.** -/
theorem lt_framesOf (hrate : 0 < s.rate) (hframes : s.frames? = some frames)
    (hbytes : s.length? = some bytes) (hshort : bytes < 2 ^ 32)
    (hsectors : bytes ≤ RedBook.rawSectorSize * sectors) (hlength : sectors < length) :
    frames < Segment.framesOf s.rate length := by
  have htime := le_duration hrate (duration_lt_of_length? hframes hbytes hshort)
  rw [length?_eq hframes hbytes hshort] at hsectors
  have htenths : 1764 * duration s.rate frames ≤ 10 * 2352 * sectors + 8 := by
    unfold bytesOfTime RedBook.rawSectorSize at hsectors
    omega
  have hcounted : (1764 * duration s.rate frames : ℚ) ≤ 10 * 2352 * sectors + 8 := by
    exact_mod_cast htenths
  have hmore : ((sectors + 1 : Nat) : ℚ) ≤ length := by exact_mod_cast hlength
  push_cast at hmore
  have hrate' : (0 : ℚ) < s.rate := by exact_mod_cast hrate
  have hlast : (frames / s.rate : ℚ) * 75 < length := by linarith
  rw [div_mul_eq_mul_div, div_lt_iff₀ hrate'] at hlast
  have hframes' : frames * 75 < length * s.rate := by exact_mod_cast hlast
  rw [← Nat.not_le, Segment.framesOf, divUp_le_iff (by decide), Nat.mul_comm s.rate]
  exact Nat.not_le.mpr hframes'

end

/-! ### The rate of the disc -/

/-- Frames whose time is rounded up into a further sector. -/
def RoundedUp (frames : Nat) : Prop := 1169 ≤ frames % 1764 ∧ frames % 1764 ≤ 1176

/-- Frames whose time is rounded down, out of the last sector that they reach. -/
def RoundedDown (frames : Nat) : Prop :=
  (1 ≤ frames % 1764 ∧ frames % 1764 ≤ 22) ∨ (589 ≤ frames % 1764 ∧ frames % 1764 ≤ 595)

instance (frames : Nat) : Decidable (RoundedUp frames) := inferInstanceAs (Decidable (_ ∧ _))

instance (frames : Nat) : Decidable (RoundedDown frames) := inferInstanceAs (Decidable (_ ∨ _))

/-- Three sectors last forty milliseconds. -/
theorem sectors_time (q : Nat) {ms : Nat} (hms : ms ≤ 40) :
    ∃ k, divUp (bytesOfTime (40 * q + ms)) RedBook.rawSectorSize = 3 * q + k ∧
      (ms = 0 ∧ k = 0 ∨ 1 ≤ ms ∧ ms ≤ 13 ∧ k = 1 ∨ 14 ≤ ms ∧ ms ≤ 26 ∧ k = 2 ∨ 27 ≤ ms ∧ k = 3) := by
  have hbytes : bytesOfTime (40 * q + ms) = 7056 * q + 1764 * ms / 10 := by
    unfold bytesOfTime
    omega
  refine ⟨divUp (1764 * ms / 10) RedBook.rawSectorSize, ?_, ?_⟩
  · rw [hbytes]
    unfold divUp RedBook.rawSectorSize
    omega
  · clear hbytes
    revert ms
    decide

/-- Three sectors have 1764 frames. -/
theorem sectors_of_frames (q : Nat) {m : Nat} (hm : m < 1764) :
    ∃ k, divUp (1764 * q + m) sectorFrames = 3 * q + k ∧
      (m = 0 ∧ k = 0 ∨ 1 ≤ m ∧ m ≤ 588 ∧ k = 1 ∨ 589 ≤ m ∧ m ≤ 1176 ∧ k = 2 ∨ 1177 ≤ m ∧ k = 3) := by
  refine ⟨divUp m sectorFrames, ?_, ?_⟩
  · unfold divUp sectorFrames
    omega
  · unfold divUp sectorFrames
    omega

/-- **Sectors by time and sectors by frames.** They are the same, unless the rounded time ends in another
sector than the frames. -/
theorem sectors_frames (frames : Nat) :
    divUp (bytesOfTime ((20 * frames + 441) / 882)) RedBook.rawSectorSize =
      if RoundedUp frames then divUp frames sectorFrames + 1
      else if RoundedDown frames then divUp frames sectorFrames - 1
      else divUp frames sectorFrames := by
  obtain ⟨q, m, hm, rfl⟩ : ∃ q m, m < 1764 ∧ frames = 1764 * q + m :=
    ⟨frames / 1764, frames % 1764, Nat.mod_lt _ (by decide), (Nat.div_add_mod _ _).symm⟩
  have hmod : (1764 * q + m) % 1764 = m := by omega
  have htime : (20 * (1764 * q + m) + 441) / 882 = 40 * q + (20 * m + 441) / 882 := by omega
  have hnear : 882 * ((20 * m + 441) / 882) ≤ 20 * m + 441 ∧
      20 * m + 441 < 882 * ((20 * m + 441) / 882) + 882 := by omega
  rw [htime]
  generalize (20 * m + 441) / 882 = ms at hnear ⊢
  have hms : ms ≤ 40 := by omega
  obtain ⟨k, hk, htimes⟩ := sectors_time q hms
  obtain ⟨l, hl, hframes⟩ := sectors_of_frames q hm
  rw [hk, hl]
  by_cases hup : RoundedUp (1764 * q + m)
  · rw [if_pos hup]
    rw [RoundedUp, hmod] at hup
    omega
  · rw [if_neg hup]
    rw [RoundedUp, hmod] at hup
    by_cases hdown : RoundedDown (1764 * q + m)
    · rw [if_pos hdown]
      rw [RoundedDown, hmod] at hdown
      omega
    · rw [if_neg hdown]
      rw [RoundedDown, hmod] at hdown
      omega

/-! ### Positions -/

/-- The millisecond of a disc byte is the nearest to its time, where this is not half way between two. -/
theorem millisecond_eq {offset ms : Nat} (hshort : offset < 2 ^ 32)
    (hnear : |(offset / (1764 / 10) : ℚ) - ms| ≤ 1 / 2 - 1 / 2 ^ 5) : millisecond offset = ms := by
  obtain ⟨hlow, hhigh⟩ := value_bytesPerMillisecond
  have hpos : 0 < bytesPerMillisecond.value := by linarith
  have hshort' : (offset : ℚ) ≤ 2 ^ 32 := by exact_mod_cast Nat.le_of_lt hshort
  have hoffset : (0 : ℚ) ≤ offset := Nat.cast_nonneg _
  have hbytes : |(nearest precision (.ofNat offset)).value - (Fraction.ofNat offset).value| ≤ _ :=
    Fraction.abs_nearest_sub_le (by decide) Nat.one_pos
  rw [Fraction.value_ofNat] at hbytes
  have hden : 0 < ((nearest precision (.ofNat offset)).div bytesPerMillisecond).den := by
    rw [Fraction.div]
    refine Nat.mul_pos (Fraction.den_nearest_pos _ _) (Nat.pos_of_ne_zero fun hzero => ?_)
    rw [value, hzero, Nat.cast_zero, zero_div] at hpos
    exact lt_irrefl _ hpos
  unfold millisecond
  apply Fraction.round_nearest (by decide) hden
  rw [Fraction.value_div]
  generalize (nearest precision (Fraction.ofNat offset)).value = bytes at hbytes ⊢
  rw [precision, abs_le] at hbytes
  -- so far the time is the true one but for a few parts in two to the 39th
  have hfrom : offset * (10 / 1764 - 1 / 2 ^ 39) ≤ bytes / bytesPerMillisecond.value := by
    rw [le_div_iff₀ hpos]
    calc offset * (10 / 1764 - 1 / 2 ^ 39) * bytesPerMillisecond.value
        ≤ offset * (10 / 1764 - 1 / 2 ^ 39) * (1764 / 10 + 1 / 2 ^ 40) :=
          mul_le_mul_of_nonneg_left hhigh (mul_nonneg hoffset (by norm_num))
      _ ≤ bytes := by linarith [hbytes.1]
  have hto : bytes / bytesPerMillisecond.value ≤ offset * (10 / 1764 + 1 / 2 ^ 39) := by
    rw [div_le_iff₀ hpos]
    calc bytes ≤ offset * (10 / 1764 + 1 / 2 ^ 39) * (1764 / 10) := by linarith [hbytes.2]
      _ ≤ offset * (10 / 1764 + 1 / 2 ^ 39) * bytesPerMillisecond.value :=
          mul_le_mul_of_nonneg_left hlow (mul_nonneg hoffset (by norm_num))
  generalize bytes / bytesPerMillisecond.value = time at hfrom hto ⊢
  rw [abs_le] at hnear
  rw [precision, ← lt_sub_iff_add_lt, abs_lt]
  constructor
  · linarith [hnear.1]
  · linarith [hnear.2]

/-- At the rate of the disc, the frame at a time is the last one that begins before it. -/
theorem frameAt_disc {s : Stream} {ms : Nat} (hrate : s.rate = RedBook.sampleRate)
    (hshort : ms < 2 ^ 32) (hpart : ms % 10 ≠ 0) : s.frameAt ms = 441 * ms / 10 := by
  have hfraction : |(nearest precision ⟨ms % 1000, 1000⟩).value -
      Fraction.value ⟨ms % 1000, 1000⟩| ≤ Fraction.value ⟨ms % 1000, 1000⟩ / 2 ^ 53 :=
    Fraction.abs_nearest_sub_le (by decide) (by decide : 0 < 1000)
  have hden : 0 < ((Fraction.ofNat s.rate).mul (nearest precision ⟨ms % 1000, 1000⟩)).den := by
    rw [Fraction.mul]
    exact Nat.mul_pos Nat.one_pos (Fraction.den_nearest_pos _ _)
  have hvalue : Fraction.value ⟨ms % 1000, 1000⟩ = (ms % 1000 : Nat) / 1000 := by
    simp [value]
  rw [hvalue, abs_le] at hfraction
  -- the frame has begun at least a tenth before, and goes on for at least as long
  have htenths : 10 * (441 * (ms % 1000) / 10) + 1 ≤ 441 * (ms % 1000) ∧
      441 * (ms % 1000) ≤ 10 * (441 * (ms % 1000) / 10) + 9 := by omega
  have hbelow : ms % 1000 < 1000 := Nat.mod_lt _ (by decide)
  have hfrom : (10 * (441 * (ms % 1000) / 10 : Nat) + 1 : ℚ) ≤ 441 * (ms % 1000 : Nat) := by
    exact_mod_cast htenths.1
  have hto : (441 * (ms % 1000 : Nat) : ℚ) ≤ 10 * (441 * (ms % 1000) / 10 : Nat) + 9 := by
    exact_mod_cast htenths.2
  have hsmall : ((ms % 1000 : Nat) : ℚ) ≤ 1000 := by exact_mod_cast Nat.le_of_lt hbelow
  have hframe : (nearest precision ((Fraction.ofNat s.rate).mul
      (nearest precision ⟨ms % 1000, 1000⟩))).floor = 441 * (ms % 1000) / 10 := by
    have hdisc : (RedBook.sampleRate : ℚ) = 44100 := by norm_num [RedBook.sampleRate]
    apply Fraction.floor_nearest (by decide) hden
    · unfold precision
      omega
    · rw [Fraction.value_mul, Fraction.value_ofNat, hrate, hdisc]
      linarith [hfraction.1]
    · rw [Fraction.value_mul, Fraction.value_ofNat, hrate, hdisc]
      generalize (nearest precision ⟨ms % 1000, 1000⟩).value = fraction at hfraction ⊢
      rw [precision]
      linarith [hfraction.2]
  have hparts : ms / 1000 * 44100 + 441 * (ms % 1000) / 10 = 441 * ms / 10 := by
    have hms := Nat.div_add_mod ms 1000
    generalize ms / 1000 = whole at hms ⊢
    generalize ms % 1000 = part at hms ⊢
    omega
  unfold frameAt
  dsimp only
  rw [hframe, hrate, RedBook.sampleRate, hparts]
  refine Nat.mod_eq_of_lt ?_
  unfold frameNumbers
  omega

/-- **The last sector that is counted of a sound that is rounded up** begins behind the sound. -/
theorem lt_frameAt_of_roundedUp {s : Stream} {frames : Nat} (hrate : s.rate = RedBook.sampleRate)
    (hshort : frames < 2 ^ 28) (hup : RoundedUp frames) :
    frames < s.frameAt (millisecond (divUp frames sectorFrames * RedBook.rawSectorSize)) := by
  obtain ⟨q, m, hm, rfl⟩ : ∃ q m, m < 1764 ∧ frames = 1764 * q + m :=
    ⟨frames / 1764, frames % 1764, Nat.mod_lt _ (by decide), (Nat.div_add_mod _ _).symm⟩
  have hmod : (1764 * q + m) % 1764 = m := by omega
  rw [RoundedUp, hmod] at hup
  obtain ⟨k, hk, hsectors⟩ := sectors_of_frames q hm
  obtain rfl : k = 2 := by omega
  -- the sector begins a third of a millisecond before the time that it is taken for
  have htime : millisecond ((3 * q + 2) * RedBook.rawSectorSize) = 40 * q + 27 := by
    apply millisecond_eq
    · unfold RedBook.rawSectorSize
      omega
    · unfold RedBook.rawSectorSize
      push_cast
      rw [abs_le]
      constructor
      · linarith
      · linarith
  rw [hk, htime, frameAt_disc hrate (by omega) (by omega)]
  omega

/-- A stream begins with its first frame. -/
theorem frameAt_zero (s : Stream) : s.frameAt (millisecond 0) = 0 := by
  have htime : millisecond 0 = 0 := by decide +kernel
  rw [htime]
  unfold frameAt
  have hfraction : (nearest precision ⟨0 % 1000, 1000⟩).num = 0 := Fraction.nearest_zero _ _
  have hproduct : (Fraction.ofNat s.rate).mul (nearest precision ⟨0 % 1000, 1000⟩) =
      ⟨0, 1 * (nearest precision ⟨0 % 1000, 1000⟩).den⟩ := by
    rw [Fraction.mul, hfraction, Nat.mul_zero]
    rfl
  dsimp only
  rw [hproduct, Fraction.floor, Fraction.nearest_zero]
  simp

end CompactDisc.Pcm.Stream
