import CompactDisc.Proofs.Pcm.Packets
import CompactDisc.Source.State

/-!
# CompactDisc.Proofs.Source.Calls

**What a source keeps between calls.** The state of an opened file and the cursor of its source answer
every call alike (`Source.State.call_shows`), whatever was called before (`Source.State.perform_shows`):
a cursor shows a decoder if the decoder has ahead of it what the stream has behind the cursor.

A place that can be gone to wipes out what came before, since nothing is kept of the decoder but what
the place says. So the outcome of a positioned call depends on the place alone, and one that is refused
leaves no trace (`Source.positioned_forgets`).
-/

namespace CompactDisc.Source

variable {s : Source} {stream : Pcm.Stream} {contents : Contents} {d : Pcm.Decoder} {cursor : Nat}

/-! ### Sound -/

/-- Going to a place is answered alike, and leads to decoders that show the same. -/
theorem seekSound_shows (hformat : s.format = .stream stream)
    (h : d.ahead stream contents = stream.soundBehind contents cursor) (offset : Nat) :
    (seekSound stream offset d).1 = (s.seek offset cursor).1 ∧
      (seekSound stream offset d).2.ahead stream contents =
        stream.soundBehind contents (s.seek offset cursor).2 := by
  simp only [seekSound, seek, hformat]
  split
  · exact ⟨rfl, h⟩
  · split
    · exact ⟨rfl, Pcm.Decoder.ahead_goneTo _ _ _⟩
    · exact ⟨rfl, h⟩

/-- Decoding hands out the samples behind the cursor. -/
theorem decodeSound_shows (hformat : s.format = .stream stream)
    (h : d.ahead stream (s.contents.getD .empty) =
      stream.soundBehind (s.contents.getD .empty) cursor) (frames room : Nat) :
    (decodeSound stream (s.contents.getD .empty) frames room d).1 =
        (s.decode frames room cursor).1 ∧
      (decodeSound stream (s.contents.getD .empty) frames room d).2.ahead stream
          (s.contents.getD .empty) =
        stream.soundBehind (s.contents.getD .empty) (s.decode frames room cursor).2 := by
  simp only [decodeSound, decode, hformat]
  generalize s.contents.getD .empty = contents at h ⊢
  generalize min (frames * stream.channels) (room / 2) = wanted
  obtain ⟨hsamples, hahead⟩ := Pcm.Decoder.fill_eq stream contents wanted d
  rw [h] at hsamples hahead
  have hlength := stream.length_soundBehind contents cursor
  refine ⟨?_, ?_⟩
  · rw [hsamples, List.length_take, hlength, Pcm.Stream.write_take_soundBehind]
  · rw [hahead, Pcm.Stream.soundBehind_drop, List.drop_eq_drop_iff, hlength, Nat.min_assoc,
      Nat.min_self]

theorem readSound_shows (hformat : s.format = .stream stream)
    (h : d.ahead stream (s.contents.getD .empty) =
      stream.soundBehind (s.contents.getD .empty) cursor) (offset length : Nat) :
    (readSound stream (s.contents.getD .empty) offset length d).1 =
        (s.read offset length cursor).1 ∧
      (readSound stream (s.contents.getD .empty) offset length d).2.ahead stream
          (s.contents.getD .empty) =
        stream.soundBehind (s.contents.getD .empty) (s.read offset length cursor).2 := by
  obtain ⟨hresult, hahead⟩ := seekSound_shows hformat h offset
  simp only [readSound, read, hformat]
  rcases hmoved : seekSound stream offset d with ⟨result, d'⟩
  rcases hseek : s.seek offset cursor with ⟨result', cursor'⟩
  rw [hmoved, hseek] at hresult hahead
  obtain rfl : result = result' := hresult
  cases result with
  | error e => exact ⟨rfl, hahead⟩
  | ok =>
      have hframe : max stream.channels 1 * 2 = s.bytesPerFrame := by
        simp [bytesPerFrame, channels, hformat]
      obtain ⟨hsound, hbehind⟩ := decodeSound_shows hformat hahead (length / s.bytesPerFrame) length
      simp only [hframe, hsound]
      split
      · exact ⟨rfl, hbehind⟩
      · exact ⟨rfl, hbehind⟩

/-! ### States and cursors -/

/-- A cursor shows a state: it is the position in a file of sectors, or the sample behind which the
stream has what the decoder has ahead. -/
inductive State.Shows (s : Source) : State → Nat → Prop where
  | sectors {length : Nat} (format : s.format = .binary length) (position : Nat) :
      Shows s (.sectors position) position
  | sound {stream : Pcm.Stream} {d : Pcm.Decoder} {cursor : Nat} (format : s.format = .stream stream)
      (ahead : d.ahead stream (s.contents.getD .empty) =
        stream.soundBehind (s.contents.getD .empty) cursor) :
      Shows s (.sound stream d) cursor

namespace State

variable {state state' : State} {cursor' : Nat}

theorem shows_opened (s : Source) : Shows s s.opened 0 := by
  rw [opened]
  split
  · rename_i hformat
    exact .sectors hformat 0
  · rename_i hformat
    exact .sound hformat (Pcm.Decoder.ahead_new _ _)

/-- **A call is answered alike** in a state and at the cursor that shows it, and leads to a state and a
cursor of which this is true again. -/
theorem call_shows (h : Shows s state cursor) (call : Call) :
    (state.call s call).1 = (s.call cursor call).1 ∧
      Shows s (state.call s call).2 (s.call cursor call).2 := by
  cases h with
  | sectors hformat position => exact ⟨rfl, .sectors hformat _⟩
  | sound hformat hahead =>
      cases call with
      | read offset length =>
          obtain ⟨hresult, hbehind⟩ := readSound_shows hformat hahead offset length
          exact ⟨congrArg Answer.bytes hresult, .sound hformat hbehind⟩
      | readAvailable offset length =>
          have hrefused : s.call cursor (.readAvailable offset length) = (.refused, cursor) := by
            simp only [Source.call, hformat]
          rw [hrefused]
          exact ⟨rfl, .sound hformat hahead⟩
      | seek offset =>
          obtain ⟨hresult, hbehind⟩ := seekSound_shows hformat hahead offset
          exact ⟨congrArg Answer.moved hresult, .sound hformat hbehind⟩
      | decode frames room =>
          obtain ⟨hresult, hbehind⟩ := decodeSound_shows hformat hahead frames room
          exact ⟨congrArg Answer.sound hresult, .sound hformat hbehind⟩

theorem perform_shows (h : Shows s state cursor) (calls : List Call) :
    state.answers s calls = s.answers cursor calls ∧
      Shows s (perform (State.call s) state calls).2 (perform s.call cursor calls).2 := by
  induction calls generalizing state cursor with
  | nil => exact ⟨rfl, h⟩
  | cons call calls ih =>
      obtain ⟨hanswer, hnext⟩ := call_shows h call
      obtain ⟨hanswers, hrest⟩ := ih hnext
      simp only [answers, Source.answers] at hanswers
      simp only [answers, Source.answers, perform_cons, hanswer, hanswers]
      exact ⟨trivial, hrest⟩

/-- Whatever was called, the cursor shows the state. -/
theorem shows_after (s : Source) (past : List Call) : Shows s (s.after past) (s.cursorAfter past) :=
  (perform_shows (shows_opened s) past).2

end State

/-! ### Positioned calls -/

/-- Whether a place can be gone to does not depend on where the source is. -/
theorem seek_forgets (s : Source) (offset cursor cursor' : Nat) :
    (s.seek offset cursor).1 = (s.seek offset cursor').1 := by
  cases hformat : s.format with
  | binary length =>
      simp only [seek, hformat]
      split <;> rfl
  | stream stream =>
      simp only [seek, hformat]
      split
      · rfl
      · split <;> rfl

/-- What is done at a place depends on the place alone. -/
theorem placed_forgets {α : Type} (s : Source) (offset cursor cursor' : Nat)
    (f : Nat → Except SourceError α × Nat) :
    (match s.seek offset cursor with
      | (Except.error e, cursor) => (Except.error e, cursor)
      | (.ok (), cursor) => f cursor).1 =
    (match s.seek offset cursor' with
      | (Except.error e, cursor) => (Except.error e, cursor)
      | (.ok (), cursor) => f cursor).1 := by
  have hresult := s.seek_forgets offset cursor cursor'
  cases hseek : (s.seek offset cursor).1 with
  | ok =>
      have hsame : s.seek offset cursor' = s.seek offset cursor := seek_ok hseek
      rw [hsame]
  | error e =>
      rcases hmoved : s.seek offset cursor with ⟨result, k⟩
      rcases hmoved' : s.seek offset cursor' with ⟨result', k'⟩
      rw [hmoved, hmoved'] at hresult
      rw [hmoved] at hseek
      obtain rfl : result = .error e := hseek
      obtain rfl : .error e = result' := hresult
      rfl

/-- **What is read** depends on the place alone. -/
theorem read_forgets (s : Source) (offset length cursor cursor' : Nat) :
    (s.read offset length cursor).1 = (s.read offset length cursor').1 :=
  s.placed_forgets offset cursor cursor' _

theorem readAvailable_forgets (s : Source) (offset length cursor cursor' : Nat) :
    (s.readAvailable offset length cursor).1 = (s.readAvailable offset length cursor').1 :=
  s.placed_forgets offset cursor cursor' _

/-- A place can be gone to from everywhere, and leads to one cursor, or from nowhere, and leaves every
cursor where it is. -/
theorem call_seek_cases (s : Source) (offset cursor cursor' : Nat) :
    (s.call cursor (.seek offset)).1 = .moved (.ok ()) ∧
        s.call cursor' (.seek offset) = s.call cursor (.seek offset) ∨
      ∃ e, s.call cursor (.seek offset) = (.moved (.error e), cursor) ∧
        s.call cursor' (.seek offset) = (.moved (.error e), cursor') := by
  have hforgets := s.seek_forgets offset cursor cursor'
  cases hresult : (s.seek offset cursor).1 with
  | ok =>
      refine Or.inl ⟨congrArg Answer.moved hresult, ?_⟩
      rw [call, call, seek_ok hresult]
  | error e =>
      have hresult' : (s.seek offset cursor').1 = .error e := hforgets.symm.trans hresult
      refine Or.inr ⟨e, ?_, ?_⟩
      · exact Prod.ext (congrArg Answer.moved hresult) (seek_error hresult)
      · exact Prod.ext (congrArg Answer.moved hresult') (seek_error hresult')

/-- **A positioned call forgets the past.** After any two histories of calls, failed ones included,
reading at a place has the same outcome. A place can be gone to after both or after neither: where it
can, everything that is called then is answered alike after both, and where it cannot, everything is
answered as if nobody had tried. The cursor gives the same answers as the state that it shows. -/
theorem positioned_forgets (s : Source) (one other : List Call) (offset : Nat) :
    let a := s.after one
    let b := s.after other
    (∀ length, (a.call s (.read offset length)).1 = (b.call s (.read offset length)).1) ∧
    (∀ length, (a.call s (.readAvailable offset length)).1 =
      (b.call s (.readAvailable offset length)).1) ∧
    ((a.call s (.seek offset)).1 = .moved (.ok ()) ∧
        (b.call s (.seek offset)).1 = .moved (.ok ()) ∧
        (∀ calls, (a.call s (.seek offset)).2.answers s calls =
          (b.call s (.seek offset)).2.answers s calls) ∨
      ∃ e, (a.call s (.seek offset)).1 = .moved (.error e) ∧
        (b.call s (.seek offset)).1 = .moved (.error e) ∧
        ∀ calls, (a.call s (.seek offset)).2.answers s calls = a.answers s calls ∧
          (b.call s (.seek offset)).2.answers s calls = b.answers s calls) ∧
    ∀ calls, s.opened.answers s calls = s.answers 0 calls := by
  intro a b
  have ha : State.Shows s a _ := State.shows_after s one
  have hb : State.Shows s b _ := State.shows_after s other
  generalize s.cursorAfter one = cursor at ha
  generalize s.cursorAfter other = cursor' at hb
  obtain ⟨hseek, hmoved⟩ := State.call_shows ha (.seek offset)
  obtain ⟨hseek', hmoved'⟩ := State.call_shows hb (.seek offset)
  refine ⟨fun length => ?_, fun length => ?_, ?_, fun calls => ?_⟩
  · rw [(State.call_shows ha _).1, (State.call_shows hb _).1]
    exact congrArg Answer.bytes (s.read_forgets offset length cursor cursor')
  · rw [(State.call_shows ha _).1, (State.call_shows hb _).1]
    cases hformat : s.format with
    | binary _ =>
        simp only [call, hformat]
        exact congrArg Answer.bytes (s.readAvailable_forgets offset length cursor cursor')
    | stream _ => simp only [call, hformat]
  · rcases s.call_seek_cases offset cursor cursor' with ⟨hok, hplace⟩ | ⟨e, hkept, hkept'⟩
    · -- both states are shown by the cursor of the place
      rw [hplace] at hseek' hmoved'
      refine Or.inl ⟨hseek.trans hok, hseek'.trans hok, fun calls => ?_⟩
      rw [(State.perform_shows hmoved calls).1, (State.perform_shows hmoved' calls).1]
    · rw [hkept] at hseek hmoved
      rw [hkept'] at hseek' hmoved'
      refine Or.inr ⟨e, hseek, hseek', fun calls => ⟨?_, ?_⟩⟩
      · rw [(State.perform_shows hmoved calls).1, (State.perform_shows ha calls).1]
      · rw [(State.perform_shows hmoved' calls).1, (State.perform_shows hb calls).1]
  · exact (State.perform_shows (State.shows_opened s) calls).1

end CompactDisc.Source
