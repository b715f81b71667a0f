import CompactDisc.Pcm.Stream
import CompactDisc.Pcm.Word

/-!
# CompactDisc.Pcm.Decoder

**Decoding a stream packet by packet.**

Design points:

* A decoder takes in one packet at a time and hands out its samples as they are asked for, so between
  two calls a part of a packet may be left over. It knows the place of the next packet, the samples of
  the last one, how many of them are used up, and how many frames are still to be dropped, because a
  place that is gone to lies inside a packet.
* Packets begin at multiples of their size, whether the stream is read from its start or from a place
  that was gone to. The last one is shorter, and where the file breaks off it is what is there.
* `Source.decode` has one number in place of all this, the sample that comes next. The two give the
  same answers (`Source.State.call_shows`).
-/

namespace CompactDisc.Pcm

namespace Stream

/-- The bytes of the packet that begins so many bytes behind the first sample; none at the end. -/
def packetAt (s : Stream) (c : Contents) (next : Nat) : List UInt8 :=
  c.read (s.start + next) (min s.packetSize (s.present c - next))

/-- The samples of a packet: those of its whole frames. -/
def unpack (s : Stream) (packet : List UInt8) : List Int16 :=
  Sample.read .little (packet.take (s.framesIn packet.length * s.frameSize))

@[simp] theorem length_packetAt (s : Stream) (c : Contents) (next : Nat) :
    (s.packetAt c next).length = min s.packetSize (s.present c - next) := by
  have hpresent : s.present c ≤ c.size - s.start := Nat.min_le_right _ _
  rw [packetAt, Contents.length_read]
  omega

/-- Where there is a packet, there are bytes that were not taken in. -/
theorem lt_present_of_packetAt {s : Stream} {c : Contents} {next : Nat}
    (h : s.packetAt c next ≠ []) : next < s.present c := by
  have hpos := List.length_pos_iff.mpr h
  rw [length_packetAt] at hpos
  omega

end Stream

/-- What a decoder keeps between two calls. -/
structure Decoder where
  /-- Bytes of samples ahead of the next packet. -/
  next : Nat := 0
  /-- The samples of the packet that was taken in last, without those that were dropped. -/
  pending : List Int16 := []
  /-- How many of them are used up. -/
  used : Nat := 0
  /-- Frames still to be dropped. -/
  preRoll : Nat := 0
  deriving DecidableEq, Repr

namespace Decoder

/-- A decoder that has gone to a frame: to the packet of its block, with the frames ahead of it to be
dropped. -/
def goneTo (s : Stream) (frame : Nat) : Decoder where
  next := frame / Stream.packetBlocks * s.packetSize
  preRoll := frame % Stream.packetBlocks

/-- The samples that are left of the last packet. -/
def left (d : Decoder) : List Int16 := d.pending.drop d.used

/-- Takes in a packet, and drops of it what is to be dropped. -/
def takeIn (d : Decoder) (s : Stream) (packet : List UInt8) : Decoder :=
  let samples := s.unpack packet
  let dropped := min (d.preRoll * s.channels) samples.length
  { next := d.next + packet.length
    pending := samples.drop dropped
    used := 0
    preRoll := d.preRoll - dropped / s.channels }

/-- Takes in packets up to one that leaves samples, and says whether there was one. -/
def refill (s : Stream) (c : Contents) (d : Decoder) : Bool × Decoder :=
  if _atEnd : s.packetAt c d.next = [] then (false, d)
  else
    let d' := d.takeIn s (s.packetAt c d.next)
    if d'.pending = [] then d'.refill s c else (true, d')
  termination_by s.present c - d.next
  decreasing_by
    have hbefore := Stream.lt_present_of_packetAt _atEnd
    have hpos := List.length_pos_iff.mpr _atEnd
    simp only [takeIn]
    omega

/-- Makes sure that there are samples to hand out, and says whether there are. -/
def ready (s : Stream) (c : Contents) (d : Decoder) : Bool × Decoder :=
  if d.used < d.pending.length then (true, d) else d.refill s c

/-- A packet that is taken in is not used up. -/
theorem left_ne_nil_of_refill {s : Stream} {c : Contents} {d d' : Decoder}
    (h : d.refill s c = (true, d')) : d'.left ≠ [] := by
  fun_induction refill s c d with
  | case1 d hend => cases h
  | case2 d hend next hnone ih => exact ih h
  | case3 d hend next hsome =>
      rw [← (Prod.mk.inj h).2]
      exact hsome

theorem left_ne_nil_of_ready {s : Stream} {c : Contents} {d d' : Decoder}
    (h : d.ready s c = (true, d')) : d'.left ≠ [] := by
  unfold ready at h
  split at h
  · rename_i hunused
    cases h
    rw [left, Ne, List.drop_eq_nil_iff]
    omega
  · exact left_ne_nil_of_refill h

/-- Hands out `wanted` samples, fewer at the end. -/
def fill (s : Stream) (c : Contents) (wanted : Nat) (d : Decoder) : List Int16 × Decoder :=
  if _done : wanted = 0 then ([], d)
  else
    match _ready : d.ready s c with
    | (false, d) => ([], d)
    | (true, d) =>
      let part := d.left.take wanted
      let (samples, d) := fill s c (wanted - part.length) { d with used := d.used + part.length }
      (part ++ samples, d)
  termination_by wanted
  decreasing_by
    have hpos := List.length_pos_iff.mpr (left_ne_nil_of_ready _ready)
    rw [List.length_take]
    omega

end Decoder

end CompactDisc.Pcm
