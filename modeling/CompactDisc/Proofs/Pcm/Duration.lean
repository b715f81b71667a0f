import CompactDisc.Pcm.Stream
import CompactDisc.Proofs.Pcm.Rounding

/-!
# CompactDisc.Proofs.Pcm.Duration

**How long sound of the disc's own rate is taken to be.** A duration is kept in whole milliseconds, and a
sector lasts forty thirds of one. So of three sectors in a row only the last ends at a millisecond, and a
length that is worked out from the duration is the true one only for every third number of sectors. For
one sector more it is 59 bytes short, and for two sectors more it is 58 bytes too long
(`Stream.length?_sectors`).

Proof shape: the binary fractions on the way are off by too little to matter (`Fraction.floor_nearest`,
`Fraction.round_nearest`), so what is left are the two roundings that are meant.
-/

namespace CompactDisc.Pcm.Stream

/-- Sample frames in one sector. -/
def sectorFrames : Nat := 588

/-- The milliseconds nearest to the time that sectors last. -/
def sectorsTime (sectors : Nat) : Nat := (80 * sectors + 3) / 6

/-- The disc bytes of a time in milliseconds, without those that are not whole. -/
def bytesOfTime (ms : Nat) : Nat := 1764 * ms / 10

/-- The factor is a little more than 176.4. -/
theorem value_bytesPerMillisecond : (1764 / 10 : ℚ) ≤ bytesPerMillisecond.value ∧
    bytesPerMillisecond.value ≤ 1764 / 10 + 1 / 2 ^ 40 := by
  have h : bytesPerMillisecond = ⟨6206523236469965, 2 ^ 45⟩ := by decide +kernel
  rw [h]
  norm_num [Fraction.value]

/-- Working with binary fractions gives the disc bytes of a time. -/
theorem floor_nearest_bytes {ms : Nat} (hms : ms < 2 ^ 32) :
    (Fraction.nearest precision ((Fraction.ofNat ms).mul bytesPerMillisecond)).floor =
      bytesOfTime ms := by
  obtain ⟨hlow, hhigh⟩ := value_bytesPerMillisecond
  have hms' : (ms : ℚ) < 2 ^ 32 := by exact_mod_cast hms
  -- the tenths of a byte that are dropped are an even number of them
  have htenths : 10 * bytesOfTime ms ≤ 1764 * ms ∧ 1764 * ms ≤ 10 * bytesOfTime ms + 8 := by
    unfold bytesOfTime
    omega
  have hdown : (10 * bytesOfTime ms : ℚ) ≤ 1764 * ms := by exact_mod_cast htenths.1
  have hup : (1764 * ms : ℚ) ≤ 10 * bytesOfTime ms + 8 := by exact_mod_cast htenths.2
  have hfrom : (ms : ℚ) * (1764 / 10) ≤ ms * bytesPerMillisecond.value :=
    mul_le_mul_of_nonneg_left hlow ms.cast_nonneg
  have hto : (ms : ℚ) * bytesPerMillisecond.value ≤ ms * (1764 / 10 + 1 / 2 ^ 40) :=
    mul_le_mul_of_nonneg_left hhigh ms.cast_nonneg
  apply Fraction.floor_nearest (by decide)
  · rw [Fraction.mul]
    exact Nat.mul_pos Nat.one_pos (Fraction.den_nearest_pos _ _)
  · unfold bytesOfTime precision
    omega
  · rw [Fraction.value_mul, Fraction.value_ofNat]
    linarith
  · rw [Fraction.value_mul, Fraction.value_ofNat]
    unfold precision
    linarith

section

variable {sectors : Nat}

/-- The time of sectors in seconds, as a binary fraction. -/
def seconds (sectors : Nat) : Fraction :=
  Fraction.nearest precision ⟨sectorFrames * sectors, RedBook.sampleRate⟩

theorem den_seconds_pos (sectors : Nat) : 0 < (seconds sectors).den := Fraction.den_nearest_pos _ _

theorem value_exactSeconds :
    Fraction.value ⟨sectorFrames * sectors, RedBook.sampleRate⟩ = sectors / 75 := by
  unfold Fraction.value sectorFrames RedBook.sampleRate
  push_cast
  ring

theorem floor_seconds (h : sectors < 2 ^ 32) : (seconds sectors).floor = sectors / 75 := by
  have hsectors : (sectors : ℚ) < 2 ^ 32 := by exact_mod_cast h
  have hparts : 75 * (sectors / 75) ≤ sectors ∧ sectors ≤ 75 * (sectors / 75) + 74 := by omega
  have hlow : (75 * (sectors / 75 : Nat) : ℚ) ≤ sectors := by exact_mod_cast hparts.1
  have hhigh : (sectors : ℚ) ≤ 75 * (sectors / 75 : Nat) + 74 := by exact_mod_cast hparts.2
  apply Fraction.floor_nearest (by decide) RedBook.sampleRate_pos
  · unfold precision
    omega
  · rw [value_exactSeconds]
    linarith
  · rw [value_exactSeconds]
    unfold precision
    linarith

/-- What is left of a second is known to far less than a millisecond. -/
theorem abs_fract_seconds (h : sectors < 2 ^ 32) :
    |(seconds sectors).fract.value - (sectors % 75 : Nat) / 75| ≤ 1 / 2 ^ 20 := by
  have hsectors : (sectors : ℚ) < 2 ^ 32 := by exact_mod_cast h
  have hparts : (sectors : ℚ) = 75 * (sectors / 75 : Nat) + (sectors % 75 : Nat) := by
    exact_mod_cast (Nat.div_add_mod sectors 75).symm
  have herror : |(seconds sectors).value - Fraction.value ⟨sectorFrames * sectors, RedBook.sampleRate⟩| ≤
      _ := Fraction.abs_nearest_sub_le (by decide) RedBook.sampleRate_pos
  rw [value_exactSeconds, abs_le, precision] at herror
  rw [Fraction.value_fract (den_seconds_pos sectors), floor_seconds h, abs_le]
  constructor
  · linarith [herror.1]
  · linarith [herror.2]

/-- Working with binary fractions gives the nearest milliseconds. -/
theorem duration_sectors (h : sectors < 2 ^ 32) :
    duration RedBook.sampleRate (sectorFrames * sectors) = sectorsTime sectors := by
  have hfract := abs_le.mp (abs_fract_seconds h)
  have hlt : ((sectors % 75 : Nat) : ℚ) ≤ 74 := by
    exact_mod_cast Nat.le_of_lt_succ (Nat.mod_lt sectors (by decide))
  -- the third of a millisecond that is rounded away
  have hthird : 80 * (sectors % 75) ≤ 6 * sectorsTime (sectors % 75) + 2 ∧
      6 * sectorsTime (sectors % 75) ≤ 80 * (sectors % 75) + 2 := by
    unfold sectorsTime
    omega
  have hlow : (80 * (sectors % 75 : Nat) : ℚ) ≤ 6 * sectorsTime (sectors % 75) + 2 := by
    exact_mod_cast hthird.1
  have hhigh : (6 * sectorsTime (sectors % 75) : ℚ) ≤ 80 * (sectors % 75 : Nat) + 2 := by
    exact_mod_cast hthird.2
  have hround : (Fraction.nearest precision
      ((seconds sectors).fract.mul (.ofNat 1000))).round = sectorsTime (sectors % 75) := by
    have hden : 0 < ((seconds sectors).fract.mul (.ofNat 1000)).den := by
      rw [Fraction.mul, Fraction.fract, Fraction.ofNat, Nat.mul_one]
      exact den_seconds_pos sectors
    apply Fraction.round_nearest (by decide) hden
    rw [Fraction.value_mul, Fraction.value_ofNat, ← lt_sub_iff_add_lt, abs_lt, precision]
    push_cast
    constructor
    · linarith [hfract.1, hfract.2]
    · linarith [hfract.1, hfract.2]
  calc duration RedBook.sampleRate (sectorFrames * sectors)
      = sectors / 75 * 1000 + sectorsTime (sectors % 75) := by
        rw [← floor_seconds h, ← hround]
        rfl
    _ = sectorsTime sectors := by
        unfold sectorsTime
        omega

end

/-- **The length of whole sectors** at the rate of the disc. -/
theorem length?_sectors {s : Stream} {sectors : Nat} (hrate : s.rate = RedBook.sampleRate)
    (hframes : s.frames? = some (sectorFrames * sectors)) (h : sectors < 2 ^ 24) :
    s.length? = some (bytesOfTime (sectorsTime sectors)) := by
  have htime : sectorsTime sectors < 2 ^ 32 := by
    unfold sectorsTime
    omega
  unfold length?
  rw [hframes, hrate, Option.map_some, duration_sectors (by omega)]
  dsimp only
  rw [floor_nearest_bytes htime]

/-- Three sectors last a whole number of milliseconds. One more is measured 59 bytes too short, and two
more 58 bytes too long. -/
theorem bytesOfTime_sectorsTime (sectors : Nat) :
    bytesOfTime (sectorsTime sectors) =
      if sectors % 3 = 0 then RedBook.rawSectorSize * sectors
      else if sectors % 3 = 1 then RedBook.rawSectorSize * sectors - 59
      else RedBook.rawSectorSize * sectors + 58 := by
  unfold bytesOfTime sectorsTime RedBook.rawSectorSize
  split
  · omega
  · split
    · omega
    · omega

end CompactDisc.Pcm.Stream
