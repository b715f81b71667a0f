import Mathlib.Algebra.Group.Int.Defs
import CompactDisc.Proofs.Layout.Refused

/-!
# CompactDisc.Proofs.Layout.Words

**Laying out tracks in machine words.** The sums of a layout are kept in signed words of 64 bits, and the
byte at which a track is stored in an unsigned one. `Layout.addWords` adds a track in such words: every
sum, difference, product and conversion gives nothing where its value does not fit. It comes to the same as
`Layout.add`, which counts without limit (`Layout.Bounded.addWords`), for as long as the layout is within
bounds that an addition keeps (`Layout.Bounded.place`).

Design points:

* Nothing checks the sums themselves. What bounds them is that the number of a track is a byte and goes up
  by one: each track adds at most two 32-bit sectors to the one sum, one 32-bit gap to the other, and less
  than `2 ^ 45` bytes to where the next track is stored. So the bounds are by the number of the last track.
* The length of a source is the one value from outside that is not 32 bits wide.
-/

namespace CompactDisc

/-! ### Words -/

namespace Words

/-- A value in a signed word of 64 bits, if it fits. -/
def signed (x : Int) : Option Int := if -2 ^ 63 ≤ x ∧ x < 2 ^ 63 then some x else none

/-- A value in an unsigned word of so many bits, if it fits. -/
def unsigned (bits : Nat) (x : Int) : Option Nat :=
  if 0 ≤ x ∧ x < 2 ^ bits then some x.toNat else none

theorem signed_eq {x : Int} (h : -2 ^ 63 ≤ x ∧ x < 2 ^ 63) : signed x = some x := if_pos h

theorem unsigned_eq {bits n : Nat} (h : n < 2 ^ bits) : unsigned bits n = some n := by
  have hfits : 0 ≤ (n : Int) ∧ (n : Int) < 2 ^ bits := ⟨Int.natCast_nonneg n, by exact_mod_cast h⟩
  rw [unsigned, if_pos hfits, Int.toNat_natCast]

/-- Computing in words: there may be a failure, and there is nothing at all where a value does not fit. -/
abbrev Checked (α : Type) := ExceptT LayoutError Option α

variable {α : Type}

/-- A value that fits is gone on with. -/
theorem bind_signed {x : Int} (f : Int → Checked α) (h : -2 ^ 63 ≤ x ∧ x < 2 ^ 63) :
    (do let y ← signed x; f y : Checked α) = f x := by
  rw [signed_eq h]
  rfl

theorem bind_unsigned {bits n : Nat} (f : Nat → Checked α) (h : n < 2 ^ bits) :
    (do let m ← unsigned bits n; f m : Checked α) = f n := by
  rw [unsigned_eq h]
  rfl

theorem run_ofExcept (r : Except LayoutError α) : (ofExcept r : Checked α).run = some r := by
  cases r with
  | error e => rfl
  | ok a => rfl

/-- Steps in words come to what the steps without limit come to. -/
theorem run_bind_eq {β : Type} {x : Checked α} {r : Except LayoutError α} {f : α → Checked β}
    {g : α → Except LayoutError β} (hx : x.run = some r)
    (hf : ∀ a, r = .ok a → (f a).run = some (g a)) : (x >>= f).run = some (r >>= g) := by
  rw [ExceptT.run_bind, hx]
  cases r with
  | error e => rfl
  | ok a => exact hf a rfl

end Words

open Words

namespace Layout

/-- The sectors that bytes fill, by quotient and remainder: the quotient rounded up as words have it,
without a sum that exceeds the bytes. -/
def sectorsWords (prev : Track) (bytes : Nat) : Checked Int := do
  let whole := bytes / prev.sectorSize
  let sectors := if 0 < bytes % prev.sectorSize then whole + 1 else whole
  signed (← unsigned 64 sectors)

/-- The sectors up to where the next track is stored in the same source. -/
def lengthWords (l : Layout) (prev : Track) (gap : Nat) (start : Int) : Checked Nat :=
  if prev.length = 0 then do
    let behind ← signed (start + l.inserted)
    let stored ← signed (behind - prev.start)
    let length ← signed (stored - gap)
    ofExcept (lengthOf prev.number length)
  else pure prev.length

/-- A track placed in the same source once the length of the previous one is known. -/
def placedWords (l : Layout) (prev t : Track) (gap pregap : Nat) (start : Int) (length : Nat) :
    Checked Placement := do
  let skip ← signed prev.skip
  let stored ← signed (length * prev.sectorSize)
  let behind ← signed (skip + stored)
  let passed ← signed (gap * t.sectorSize)
  let skip ← signed (behind + passed)
  let inserted ← signed (l.inserted + pregap)
  let start ← signed (start + inserted)
  let previousEnd ← signed (prev.start + length)
  let skip ← unsigned 64 skip
  return {
    layout := { l.setLast { prev with length } with inserted := inserted.toNat }
    start := start.toNat
    skip
    previousEnd := previousEnd.toNat }

/-- `Layout.placeInSource` in words. -/
def placeInSourceWords (l : Layout) (prev t : Track) (gap pregap : Nat) : Checked Placement := do
  let start ← signed (t.start + l.shift)
  let length ← l.lengthWords prev gap start
  l.placedWords prev t gap pregap start length

/-- The sectors of all that is left of a source of `total` bytes. -/
def remainingWords (prev : Track) (total : Nat) : Checked Nat := do
  let total ← signed total
  let skip ← signed prev.skip
  let remaining ← signed (total - skip)
  if remaining < 0 then throw (.negativeLength prev.number remaining)
  else do
    let remaining ← unsigned 64 remaining
    let sectors ← sectorsWords prev remaining
    ofExcept (lengthOf prev.number sectors)

/-- A track placed in another source once the length of the previous one is known. -/
def placedAnewWords (l : Layout) (prev t : Track) (gap pregap length : Nat) : Checked Placement := do
  let previousEnd ← signed (prev.start + length)
  let behind ← signed (previousEnd + pregap)
  let start ← signed (t.start + behind)
  let shift ← signed (l.shift + previousEnd)
  let skip ← signed (gap * t.sectorSize)
  let skip ← unsigned 64 skip
  return {
    layout := { l.setLast { prev with length } with shift := shift.toNat, inserted := pregap }
    start := start.toNat
    skip
    previousEnd := previousEnd.toNat }

/-- `Layout.placeInNewSource` in words. -/
def placeInNewSourceWords (l : Layout) (prev t : Track) (gap pregap : Nat) : Checked Placement :=
  match prev.source.bind Source.length with
  | none => throw (.unknownLength prev.number)
  | some total => do
    let length ← remainingWords prev total
    l.placedAnewWords prev t gap pregap length

/-- `Layout.placeAfter` in words. -/
def placeAfterWords (l : Layout) (prev t : Track) (gap pregap : Nat) : Checked Placement :=
  if prev.sharesSource t then l.placeInSourceWords prev t gap pregap
  else l.placeInNewSourceWords prev t gap pregap

/-- The sector and the byte at which a first track starts. -/
def firstWords (t : Track) (gap pregap : Nat) : Option (Nat × Nat) := do
  let skip ← signed (gap * t.sectorSize)
  let skip ← unsigned 64 skip
  let start ← signed (t.start + pregap)
  return (start.toNat, skip)

/-- The layout with its first track, if there is a sector for it to start at. -/
def begun (l : Layout) (t : Track) (skip pregap : Nat) :
    Except LayoutError Nat → Except LayoutError Unit × Layout
  | .error e => (.error e, l)
  | .ok start => (.ok (), { l with tracks := [{ t with start, skip }], inserted := pregap })

/-- The layout with another track, if it can be placed and passes the check. -/
def settled (l : Layout) (prev t : Track) :
    Except LayoutError Placement → Except LayoutError Unit × Layout
  | .error e => (.error e, l)
  | .ok p =>
    match check prev t p with
    | .error e => (.error e, p.layout)
    | .ok start =>
      (.ok (), { p.layout with tracks := p.layout.tracks ++ [{ t with start, skip := p.skip }] })

/-- `Layout.add` in words. -/
def addWords (l : Layout) (t : Track) (prestart : Option Nat) (pregap : Nat) :
    Option (Except LayoutError Unit × Layout) :=
  let gapStart := prestart.getD t.start
  if t.start < gapStart then some (.error (.gapAfterStart t.number gapStart t.start), l)
  else do
    let gap ← unsigned 32 (t.start - gapStart)
    match l.tracks.getLast? with
    | none => (firstWords t gap pregap).map fun (start, skip) =>
        l.begun t skip pregap (sector t.number start)
    | some prev => (l.placeAfterWords prev t gap pregap).run.map (l.settled prev t)

/-- `Layout.close` in words. -/
def closeWords (l : Layout) : Option (Except LayoutError Unit × Layout) :=
  match l.tracks.getLast? with
  | none => some (.error .empty, l)
  | some last =>
    if last.number = 255 then some (.error (.numberOverflow last.number), l)
    else l.addWords (leadOut last) none 0

end Layout

/-! ### Bounds -/

/-- The numbers of a track that is being laid out. -/
structure Track.Bounded (t : Track) : Prop where
  number : t.number ≤ 255
  start : t.start < 2 ^ 32
  length : t.length < 2 ^ 32
  size_pos : 0 < t.sectorSize
  size_le : t.sectorSize ≤ 2352

/-- The numbers of an entry. -/
structure Entry.Bounded (e : Entry) : Prop where
  track : e.track.Bounded
  pregap : e.pregap < 2 ^ 32

/-- The numbers of a layout, by the number of its last track. -/
structure Layout.Bounded (l : Layout) : Prop where
  empty : l.tracks = [] → l.shift = 0
  sums : ∀ last ∈ l.tracks.getLast?,
    l.shift ≤ last.number * 2 ^ 33 ∧ l.inserted ≤ (last.number + 1) * 2 ^ 32
  tracks : ∀ t ∈ l.tracks, t.Bounded ∧ t.skip ≤ (t.number + 1) * 2 ^ 45

/-- A track whose source has a length that fits into a signed word, if it has any. -/
def Track.Measured (t : Track) : Prop := ∀ n ∈ t.source.bind Source.length, n < 2 ^ 63

theorem Track.Bounded.mul_le {t : Track} (h : t.Bounded) {n : Nat} (hn : n < 2 ^ 32) :
    n * t.sectorSize ≤ 0x93000000000 := Nat.mul_le_mul (Nat.le_of_lt hn) h.size_le

theorem Entry.Bounded.gap_lt {e : Entry} (h : e.Bounded) : e.gap < 2 ^ 32 :=
  Nat.lt_of_le_of_lt (Nat.sub_le _ _) h.track.start

namespace Layout

variable {l m : Layout} {e : Entry} {prev : Track}

/-- The number that a last track leaves for the lead-out. -/
theorem bounded_closing (h : prev.Bounded) (hnumber : prev.number ≠ 255) :
    (closing prev).Bounded where
  track := {
    number := by
      have hle := h.number
      show prev.number + 1 ≤ 255
      omega
    start := Nat.two_pow_pos 32
    length := Nat.two_pow_pos 32
    size_pos := h.size_pos
    size_le := h.size_le }
  pregap := Nat.two_pow_pos 32

/-- The numbers that an addition behind the last track begins with, now that a number is a byte. -/
structure Ready (l : Layout) (prev : Track) : Prop where
  last : prev.Bounded
  skip : prev.skip ≤ 2 ^ 53
  shift : l.shift ≤ 2 ^ 41
  inserted : l.inserted ≤ 2 ^ 40

theorem Bounded.ready (h : l.Bounded) (hl : l.tracks.getLast? = some prev) : l.Ready prev := by
  obtain ⟨hprev, hskip⟩ := h.tracks prev (List.mem_of_getLast? hl)
  obtain ⟨hshift, hinserted⟩ := h.sums prev hl
  have hnumber := hprev.number
  exact ⟨hprev, by omega, by omega, by omega⟩

/-! ### Behind a track of the same source -/

/-- The length of the last track when one of its source is placed behind it. -/
def lengthUpTo (l : Layout) (prev t : Track) (gap : Nat) : Except LayoutError Nat :=
  if prev.length = 0 then
    lengthOf prev.number ((t.start + l.shift + l.inserted : Nat) - (prev.start : Int) - gap)
  else .ok prev.length

theorem lengthWords_eq (h : l.Ready prev) (he : e.Bounded) :
    (l.lengthWords prev e.gap (e.track.start + l.shift)).run = some (l.lengthUpTo prev e.track e.gap) := by
  have hstart := he.track.start
  have hgap := he.gap_lt
  have hprev := h.last.start
  have hshift := h.shift
  have hinserted := h.inserted
  unfold lengthWords lengthUpTo
  split
  · rw [bind_signed _ (by omega), bind_signed _ (by omega), bind_signed _ (by omega)]
    push_cast
    exact run_ofExcept _
  · rfl

theorem placedWords_eq (h : l.Ready prev) (he : e.Bounded) {length : Nat} (hlength : length < 2 ^ 32) :
    l.placedWords prev e.track e.gap e.pregap (e.track.start + l.shift) length = pure {
      layout := { l.setLast { prev with length } with inserted := l.inserted + e.pregap }
      start := e.track.start + l.shift + (l.inserted + e.pregap)
      skip := prev.skip + length * prev.sectorSize + e.gap * e.track.sectorSize
      previousEnd := prev.start + length } := by
  have hstart := he.track.start
  have hpregap := he.pregap
  have hprev := h.last.start
  have hskip := h.skip
  have hshift := h.shift
  have hinserted := h.inserted
  have hstored := h.last.mul_le hlength
  have hpassed := he.track.mul_le he.gap_lt
  unfold placedWords
  rw [bind_signed _ (by omega), bind_signed _ (by omega), bind_signed _ (by omega),
    bind_signed _ (by omega), bind_signed _ (by omega), bind_signed _ (by omega),
    bind_signed _ (by omega), bind_signed _ (by omega)]
  simp only [← Int.natCast_add, ← Int.natCast_mul, Int.toNat_natCast]
  rw [bind_unsigned _ (by omega)]

theorem placeInSource_eq (l : Layout) (prev t : Track) (gap pregap : Nat) :
    l.placeInSource prev t gap pregap =
      l.lengthUpTo prev t gap >>= fun length => .ok {
        layout := { l.setLast { prev with length } with inserted := l.inserted + pregap }
        start := t.start + l.shift + (l.inserted + pregap)
        skip := prev.skip + length * prev.sectorSize + gap * t.sectorSize
        previousEnd := prev.start + length } := by
  unfold placeInSource lengthUpTo
  split
  · rfl
  · rfl

theorem placeInSourceWords_eq (h : l.Ready prev) (he : e.Bounded) :
    (l.placeInSourceWords prev e.track e.gap e.pregap).run =
      some (l.placeInSource prev e.track e.gap e.pregap) := by
  have hstart := he.track.start
  have hshift := h.shift
  have hlengths : ∀ length, l.lengthUpTo prev e.track e.gap = .ok length → length < 2 ^ 32 := by
    intro length hok
    unfold lengthUpTo at hok
    split at hok
    · exact (lengthOf_ok_iff.mp hok).2
    · cases hok
      exact h.last.length
  unfold placeInSourceWords
  rw [bind_signed _ (by omega), placeInSource_eq]
  exact run_bind_eq (lengthWords_eq h he) fun length hok => by
    rw [placedWords_eq h he (hlengths length hok)]
    rfl

/-! ### Behind a track of another source -/

theorem sectorsOf_eq {bytes : Nat} (hsize : 0 < prev.sectorSize) :
    (if 0 < bytes % prev.sectorSize then bytes / prev.sectorSize + 1 else bytes / prev.sectorSize) =
      prev.sectorsOf bytes := by
  have hbytes := Nat.div_add_mod bytes prev.sectorSize
  have hrest := Nat.mod_lt bytes hsize
  unfold Track.sectorsOf
  symm
  split
  · rw [Nat.div_eq_iff hsize, Nat.add_mul, Nat.mul_comm]
    omega
  · rw [Nat.div_eq_iff hsize, Nat.mul_comm]
    omega

theorem sectorsOf_le {bytes : Nat} (hsize : 0 < prev.sectorSize) : prev.sectorsOf bytes ≤ bytes := by
  unfold Track.sectorsOf
  rcases Nat.eq_zero_or_pos bytes with rfl | hbytes
  · exact Nat.le_of_eq (Nat.div_eq_of_lt (by omega))
  · refine Nat.div_le_of_le_mul ?_
    obtain ⟨n, rfl⟩ := Nat.exists_eq_add_of_le' hbytes
    rw [Nat.mul_add]
    have hle := Nat.le_mul_of_pos_left n hsize
    omega

theorem sectorsWords_eq {bytes : Nat} (hsize : 0 < prev.sectorSize) (hbytes : bytes < 2 ^ 63) :
    sectorsWords prev bytes = pure (prev.sectorsOf bytes : Int) := by
  have hle : prev.sectorsOf bytes ≤ bytes := sectorsOf_le hsize
  unfold sectorsWords
  dsimp only
  rw [sectorsOf_eq hsize, bind_unsigned _ (by omega), signed_eq (by omega)]
  rfl

theorem lengthOf_natCast (track value : Nat) : lengthOf track value = sector track value := by
  rw [lengthOf, if_neg (by omega), Int.toNat_natCast]

/-- The length of the last track when one of another source is placed behind it. -/
def lengthLeft (prev : Track) (total : Nat) : Except LayoutError Nat :=
  if total < prev.skip then .error (.negativeLength prev.number ((total : Int) - prev.skip))
  else sector prev.number (prev.sectorsOf (total - prev.skip))

theorem remainingWords_eq (h : l.Ready prev) {total : Nat} (htotal : total < 2 ^ 63) :
    (remainingWords prev total).run = some (lengthLeft prev total) := by
  have hskip := h.skip
  unfold remainingWords lengthLeft
  rw [bind_signed _ (by omega), bind_signed _ (by omega), bind_signed _ (by omega)]
  by_cases hless : total < prev.skip
  · rw [if_pos (by omega), if_pos hless]
    rfl
  · rw [if_neg (by omega), if_neg hless, ← Int.natCast_sub (Nat.le_of_not_lt hless),
      bind_unsigned _ (by omega), sectorsWords_eq h.last.size_pos (by omega), pure_bind, lengthOf_natCast]
    exact run_ofExcept _

theorem placedAnewWords_eq (h : l.Ready prev) (he : e.Bounded) {length : Nat} (hlength : length < 2 ^ 32) :
    l.placedAnewWords prev e.track e.gap e.pregap length = pure {
      layout := { l.setLast { prev with length } with
        shift := l.shift + (prev.start + length)
        inserted := e.pregap }
      start := e.track.start + (prev.start + length) + e.pregap
      skip := e.gap * e.track.sectorSize
      previousEnd := prev.start + length } := by
  have hstart := he.track.start
  have hpregap := he.pregap
  have hprev := h.last.start
  have hshift := h.shift
  have hpassed := he.track.mul_le he.gap_lt
  unfold placedAnewWords
  rw [bind_signed _ (by omega), bind_signed _ (by omega), bind_signed _ (by omega),
    bind_signed _ (by omega), bind_signed _ (by omega)]
  simp only [← Int.natCast_add, ← Int.natCast_mul, Int.toNat_natCast, Nat.add_assoc]
  rw [bind_unsigned _ (by omega)]

theorem placeInNewSource_eq (l : Layout) (prev t : Track) (gap pregap : Nat) {total : Nat}
    (htotal : prev.source.bind Source.length = some total) :
    l.placeInNewSource prev t gap pregap = lengthLeft prev total >>= fun length => .ok {
      layout := { l.setLast { prev with length } with
        shift := l.shift + (prev.start + length)
        inserted := pregap }
      start := t.start + (prev.start + length) + pregap
      skip := gap * t.sectorSize
      previousEnd := prev.start + length } := by
  unfold placeInNewSource lengthLeft
  rw [htotal]
  dsimp only
  split
  · rfl
  · rfl

theorem placeInNewSourceWords_eq (h : l.Ready prev) (he : e.Bounded) (hlength : prev.Measured) :
    (l.placeInNewSourceWords prev e.track e.gap e.pregap).run =
      some (l.placeInNewSource prev e.track e.gap e.pregap) := by
  unfold placeInNewSourceWords
  cases htotal : prev.source.bind Source.length with
  | none =>
      unfold placeInNewSource
      rw [htotal]
      rfl
  | some total =>
      have hrest : ∀ length, lengthLeft prev total = .ok length → length < 2 ^ 32 := by
        intro length hok
        unfold lengthLeft at hok
        split at hok
        · cases hok
        · obtain ⟨hlt, rfl⟩ := sector_eq_ok_iff.mp hok
          exact hlt
      refine (run_bind_eq (remainingWords_eq h (hlength total htotal)) fun length hok => ?_).trans
        (congrArg some (placeInNewSource_eq l prev e.track e.gap e.pregap htotal).symm)
      rw [placedAnewWords_eq h he (hrest length hok)]
      rfl

/-! ### An addition -/

theorem placeAfterWords_eq (h : l.Ready prev) (he : e.Bounded) (hlength : prev.Measured) :
    (l.placeAfterWords prev e.track e.gap e.pregap).run =
      some (l.placeAfter prev e.track e.gap e.pregap) := by
  unfold placeAfterWords placeAfter
  split
  · exact placeInSourceWords_eq h he
  · exact placeInNewSourceWords_eq h he hlength

theorem add_eq (l : Layout) (e : Entry) :
    l.add e.track e.prestart e.pregap =
      if e.track.start < e.gapStart then
        (.error (.gapAfterStart e.track.number e.gapStart e.track.start), l)
      else match l.tracks.getLast? with
        | none => l.begun e.track (e.gap * e.track.sectorSize) e.pregap
            (sector e.track.number (e.track.start + e.pregap))
        | some prev => l.settled prev e.track (l.placeAfter prev e.track e.gap e.pregap) := by
  unfold add begun settled
  rfl

theorem firstWords_eq (he : e.Bounded) :
    firstWords e.track e.gap e.pregap =
      some (e.track.start + e.pregap, e.gap * e.track.sectorSize) := by
  have hpassed := he.track.mul_le he.gap_lt
  have hstart := he.track.start
  have hpregap := he.pregap
  have hskip : signed ((e.gap : Int) * e.track.sectorSize) = some ↑(e.gap * e.track.sectorSize) := by
    rw [← Int.natCast_mul]
    exact signed_eq (by omega)
  have hbegin : signed ((e.track.start : Int) + e.pregap) = some ↑(e.track.start + e.pregap) := by
    rw [← Int.natCast_add]
    exact signed_eq (by omega)
  have hstored : unsigned 64 ↑(e.gap * e.track.sectorSize) = some (e.gap * e.track.sectorSize) :=
    unsigned_eq (by omega)
  rw [firstWords, hskip, Option.bind_eq_bind, Option.bind_some, hstored, Option.bind_eq_bind,
    Option.bind_some, hbegin]
  exact congrArg (fun start => some (start, e.gap * e.track.sectorSize)) (Int.toNat_natCast _)

/-- **An addition in words** comes to the same as one without limit, whether it succeeds or fails. -/
theorem Bounded.addWords (h : l.Bounded) (he : e.Bounded)
    (hlength : ∀ last ∈ l.tracks.getLast?, last.Measured) :
    l.addWords e.track e.prestart e.pregap = some (l.add e.track e.prestart e.pregap) := by
  rw [add_eq, Layout.addWords]
  change (if e.track.start < e.gapStart then _ else _) = _
  split
  · rfl
  · rename_i hgap
    have hcast : (e.track.start : Int) - (e.prestart.getD e.track.start : Nat) = e.gap :=
      (Int.natCast_sub (Nat.le_of_not_lt hgap)).symm
    rw [hcast, unsigned_eq he.gap_lt]
    change (match l.tracks.getLast? with | none => _ | some prev => _ : Option _) = _
    cases hl : l.tracks.getLast? with
    | none =>
        dsimp only
        rw [firstWords_eq he, Option.map_some]
    | some prev =>
        dsimp only
        rw [placeAfterWords_eq (h.ready hl) he (hlength prev hl), Option.map_some]

/-- Closing a layout in words comes to the same as closing it without limit. -/
theorem Bounded.closeWords (h : l.Bounded) (hlength : ∀ last ∈ l.tracks.getLast?, last.Measured) :
    l.closeWords = some l.close := by
  unfold Layout.closeWords close
  cases hl : l.tracks.getLast? with
  | none => rfl
  | some last =>
      dsimp only
      split
      · rfl
      · rename_i hnumber
        exact h.addWords (e := closing last) (bounded_closing (h.ready hl).last hnumber) hlength

/-! ### What an addition keeps -/

theorem bounded_of_concat {init : List Track} {last : Track} (htracks : m.tracks = init ++ [last])
    (hinit : ∀ t ∈ init, t.Bounded ∧ t.skip ≤ (t.number + 1) * 2 ^ 45) (hlast : last.Bounded)
    (hskip : last.skip ≤ (last.number + 1) * 2 ^ 45) (hshift : m.shift ≤ last.number * 2 ^ 33)
    (hinserted : m.inserted ≤ (last.number + 1) * 2 ^ 32) : m.Bounded where
  empty h := by simp [htracks] at h
  sums t ht := by
    rw [htracks, List.getLast?_concat] at ht
    cases ht
    exact ⟨hshift, hinserted⟩
  tracks t ht := by
    rw [htracks, List.mem_append, List.mem_singleton] at ht
    rcases ht with ht | rfl
    · exact hinit t ht
    · exact ⟨hlast, hskip⟩

/-- A length that the last track is given can be counted. -/
theorem Reaches.lengthFor_lt (h : l.Reaches prev e) (hprev : prev.Bounded) :
    l.lengthFor prev e < 2 ^ 32 := by
  by_cases same : prev.sharesSource e.track = true
  · by_cases fresh : prev.length = 0
    · exact (h.same same fresh).2
    · rw [lengthFor, if_pos same, if_neg fresh]
      exact hprev.length
  · obtain ⟨-, -, -, hlt⟩ := h.other (Bool.eq_false_iff.mpr same)
    exact hlt

/-- **An addition keeps the bounds.** -/
theorem Bounded.place (h : l.Bounded) (he : e.Bounded) (hplace : l.place e = .ok m) : m.Bounded := by
  have hpassed := he.track.mul_le he.gap_lt
  have hpregap := he.pregap
  cases hl : l.tracks.getLast? with
  | none =>
      have hempty : l.tracks = [] := List.getLast?_eq_none_iff.mp hl
      obtain ⟨-, hrange, rfl⟩ := (place_first_ok_iff hempty).mp hplace
      refine bounded_of_concat (List.nil_append _).symm nofun { he.track with start := hrange } ?_ ?_ ?_
      · dsimp only
        omega
      · dsimp only
        rw [h.empty hempty]
        exact Nat.zero_le _
      · dsimp only
        omega
  | some prev =>
      obtain ⟨init, htracks⟩ := List.getLast?_eq_some_iff.mp hl
      obtain ⟨hprev, hskip⟩ := h.tracks prev (List.mem_of_getLast? hl)
      obtain ⟨hshift, hinserted⟩ := h.sums prev hl
      obtain ⟨hreaches, hpasses, rfl⟩ := (place_behind_ok_iff hl).mp hplace
      have hlength := hreaches.lengthFor_lt hprev
      have hstored := hprev.mul_le hlength
      have hnumber := hpasses.number
      have hstart := hprev.start
      -- the number goes up by one, which leaves room in each bound for what is added
      refine bounded_of_concat rfl ?_ { he.track with start := hpasses.range } ?_ ?_ ?_
      · intro t ht
        rw [closedFor, htracks, List.dropLast_concat, List.mem_append, List.mem_singleton] at ht
        rcases ht with ht | rfl
        · exact h.tracks t (by rw [htracks]; exact List.mem_append_left _ ht)
        · exact ⟨{ hprev with length := hlength }, hskip⟩
      · dsimp only
        unfold skipFor
        split
        · omega
        · omega
      · dsimp only
        unfold closedFor
        dsimp only
        split
        · exact Nat.le_trans hshift (Nat.mul_le_mul_right _ (by omega))
        · omega
      · dsimp only
        unfold closedFor
        dsimp only
        split
        · omega
        · omega

/-- The last track is the one that was added. -/
theorem getLast?_place (hplace : l.place e = .ok m) :
    ∃ start skip, m.tracks.getLast? = some { e.track with start, skip } := by
  obtain ⟨start, skip, ⟨-, h⟩ | ⟨init, prev, length, -, h, -⟩⟩ := place_cases hplace
  · exact ⟨start, skip, by rw [h]; rfl⟩
  · exact ⟨start, skip, by rw [h]; simp⟩

end Layout

end CompactDisc
