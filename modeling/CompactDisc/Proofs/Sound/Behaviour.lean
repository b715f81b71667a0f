import CompactDisc.Proofs.Sound.Session

/-!
# CompactDisc.Proofs.Sound.Behaviour

**A player on sources of which nothing is assumed.** The player meets a source in two places only:
it positions the source when a segment begins, and asks it for sound when it is pulled. A `Behaviour`
is any answer to both, so that positioning may fail and any number of frames may come. The operations
here take their answers from a behaviour; with that of real sources they are the operations of the
player (`Deck.pullBy_actual`, `Session.deck_run`), so what holds for every behaviour holds for files
that are cut off, written to or taken away while they play.

What an operation does to playing, pausing and the output is then independent of every source. The
invariant is `Deck.Wired`: the player has its channel, and while it plays there is a segment and the
output is on unless it is paused.
-/

namespace CompactDisc

/-- What comes of positioning a source, and what comes of asking it for sound. -/
structure Behaviour where
  seek : Cursors → Source → Nat → Except SourceError Unit × Cursors
  decode : Cursors → Source → Nat → Source.Sound × Cursors

/-- Sources that read what is in their files. -/
def Behaviour.actual : Behaviour := ⟨Cursors.seek, Cursors.decode⟩

namespace Deck

/-! ### The operations -/

/-- Begins a segment. -/
def beginSegmentBy (b : Behaviour) (d : Deck) (medium : Medium) (start length : Nat) :
    Except PlayerError Unit × Deck :=
  match Plan.find medium.disc d.player.channel.isSome start length with
  | .error e => (.error e, d)
  | .ok plan =>
    match b.seek d.cursors plan.source plan.offset with
    | (.error e, cursors) =>
      (.error (.seek plan.track.number plan.offset e), { d with cursors })
    | (.ok (), cursors) => (.ok (), { d.began medium plan with cursors })

/-- Plays sectors of a disc. -/
def playBy (b : Behaviour) (d : Deck) (medium : Medium) (start length : Nat) :
    Except PlayerError Unit × Deck :=
  match d.beginSegmentBy b medium start length with
  | (.ok (), d) => (.ok (), d)
  | (.error e, d) => (.error e, d.stop)

/-- The deck after a source has given sound, before it is decided how to go on. -/
def heard (d : Deck) (s : Segment) (sound : Source.Sound) (cursors : Cursors) : Deck :=
  { d with
    cursors
    player := { d.player with
      segment := some { s with played := s.played + sound.frames } } }.onChannel
    fun c => c.forward s.source.channels s.source.byteOrder sound.frames
      (sound.bytes.take (sound.frames * s.source.bytesPerFrame))

/-- Goes on after a pull that has brought `decoded` frames. -/
def proceedBy (b : Behaviour) (d : Deck) (s : Segment) (decoded : Nat) : Deck :=
  if s.total ≤ s.played then d.stop
  else if 0 < decoded then d
  else if s.completed = 0 then d.stop
  else (d.playBy b s.medium s.next (s.length - s.completed)).2

/-- Asks for `frames` frames and hands them to the channel. -/
def pullBy (b : Behaviour) (d : Deck) (frames : Nat) : Deck :=
  if frames = 0 ∨ d.player.playing = false ∨ d.player.paused = true then d
  else
    match d.player.segment, d.player.channel with
    | some s, some _ =>
      let (sound, cursors) := b.decode d.cursors s.source frames
      (d.heard s sound cursors).proceedBy b { s with played := s.played + sound.frames }
        sound.frames
    | _, _ => d

/-- Pulls if the output is enabled, and says whether it was. -/
def pumpBy (b : Behaviour) (d : Deck) (frames : Nat) : Bool × Deck :=
  if d.isOn then (true, d.pullBy b frames) else (false, d)

/-- Carries out a call. -/
def afterBy (b : Behaviour) (d : Deck) : Call → Deck
  | .play medium start length => (d.playBy b medium start.toNat length.toNat).2
  | .pause resume => d.pause resume
  | .stop => d.stop
  | .release id => d.release id
  | .control volume map => d.control volume map
  | .pull frames => d.pullBy b frames
  | .elsewhere cursors => { d with cursors }

/-- Carries out calls in order, each with the behaviour of sources at the time. -/
def runBy (d : Deck) (calls : List (Behaviour × Call)) : Deck :=
  calls.foldl (fun d call => d.afterBy call.1 call.2) d

/-! ### Real sources -/

theorem playBy_actual (d : Deck) (medium : Medium) (start length : Nat) :
    d.playBy .actual medium start length = d.play medium start length := by
  simp only [playBy, beginSegmentBy, Behaviour.actual]
  cases hfind : Plan.find medium.disc d.player.channel.isSome start length with
  | error e => simp only [play, beginSegment, hfind]
  | ok plan =>
      rcases hseek : d.cursors.seek plan.source plan.offset with ⟨e | ⟨⟩, cursors⟩
      · simp only [play, beginSegment, hfind, hseek]
      · have hcursors : cursors = (d.began medium plan).cursors := by
          rw [cursors_began, hseek]
        rw [play_of_plan hfind (by rw [hseek])]
        simp only [hseek, hcursors]

theorem proceedBy_actual (d : Deck) (s : Segment) (decoded : Nat) :
    d.proceedBy .actual s decoded = d.proceed s decoded := by
  simp only [proceedBy, proceed, playBy_actual]

/-- With real sources, a pull is the pull of the player. -/
theorem pullBy_actual (d : Deck) (frames : Nat) : d.pullBy .actual frames = d.pull frames := by
  simp only [pullBy, pull, proceedBy_actual]
  rfl

/-- With real sources, a pump is the pump of the channel. -/
theorem pumpBy_actual (d : Deck) (frames : Nat) : d.pumpBy .actual frames = d.pump frames := by
  simp only [pumpBy, pullBy_actual]
  rfl

end Deck

/-- With real sources, what comes of a call is what comes of it in a session. -/
theorem Session.deck_after (s : Session) (call : Call) :
    (s.after call).deck = s.deck.afterBy .actual call := by
  cases call with
  | play medium start length =>
      rw [Deck.afterBy, Deck.playBy_actual]
      rcases s.deck.play_cases medium start.toNat length.toNat with hok | ⟨⟨e, he⟩, -⟩
      · rw [after_play_ok hok]
      · rw [after_play_error he]
  | pull frames => exact (s.deck.pullBy_actual frames).symm
  | pause | stop | release | control | elsewhere => rfl

/-- A session is a run with real sources. -/
theorem Session.deck_run (s : Session) (calls : List Call) :
    (s.run calls).deck = s.deck.runBy (calls.map fun call => (.actual, call)) := by
  induction calls generalizing s with
  | nil => rfl
  | cons call calls ih =>
      have h := ih (s.after call)
      rw [s.deck_after call] at h
      exact h

namespace Deck

/-! ### What an operation does -/

@[simp] theorem isOn_withCursors (d : Deck) (cursors : Cursors) :
    ({ d with cursors } : Deck).isOn = d.isOn := rfl

@[simp] theorem player_heard (d : Deck) (s : Segment) (sound : Source.Sound) (cursors : Cursors) :
    (d.heard s sound cursors).player = { d.player with
      segment := some { s with played := s.played + sound.frames } } := player_onChannel _ _

/-- Sound changes neither whether there is a channel nor whether it is on. -/
theorem channel?_heard (d : Deck) (s : Segment) (sound : Source.Sound) (cursors : Cursors) :
    ∃ f : Channel → Channel, (d.heard s sound cursors).channel? = d.channel?.map f ∧
      ∀ c, (f c).enabled = c.enabled := by
  refine ⟨_, channel?_onChannel _ _, fun c => ?_⟩
  simp only [Channel.forward]
  split <;> rfl

@[simp] theorem isOn_heard (d : Deck) (s : Segment) (sound : Source.Sound) (cursors : Cursors) :
    (d.heard s sound cursors).isOn = d.isOn := by
  obtain ⟨f, hf, henabled⟩ := channel?_heard d s sound cursors
  simp only [isOn, hf]
  cases d.channel? <;> simp [henabled]

variable {b : Behaviour} {d : Deck}

/-- A request begins the segment of its plan, or it leaves a stopped player. -/
theorem playBy_cases (b : Behaviour) (d : Deck) (medium : Medium) (start length : Nat) :
    (∃ plan cursors, Plan.find medium.disc d.player.channel.isSome start length = .ok plan ∧
      d.playBy b medium start length = (.ok (), { d.began medium plan with cursors })) ∨
    ∃ e cursors, d.playBy b medium start length = (.error e, ({ d with cursors } : Deck).stop) := by
  unfold playBy beginSegmentBy
  cases hfind : Plan.find medium.disc d.player.channel.isSome start length with
  | error e => exact Or.inr ⟨e, d.cursors, rfl⟩
  | ok plan =>
      dsimp only
      rcases b.seek d.cursors plan.source plan.offset with ⟨e | ⟨⟩, cursors⟩
      · exact Or.inr ⟨_, cursors, rfl⟩
      · exact Or.inl ⟨plan, cursors, rfl, rfl⟩

/-- A pull does nothing, or it goes on from the sound that has come. -/
theorem pullBy_cases (b : Behaviour) (d : Deck) (frames : Nat) :
    d.pullBy b frames = d ∧ (frames = 0 ∨ d.player.playing = false ∨ d.player.paused = true ∨
      d.player.segment = none ∨ d.player.channel = none) ∨
    ∃ s sound cursors, 0 < frames ∧ d.player.playing = true ∧ d.player.paused = false ∧
      d.player.segment = some s ∧
      d.pullBy b frames = (d.heard s sound cursors).proceedBy b
        { s with played := s.played + sound.frames } sound.frames := by
  by_cases hidle : frames = 0 ∨ d.player.playing = false ∨ d.player.paused = true
  · left
    rw [pullBy, if_pos hidle]
    exact ⟨rfl, hidle.imp_right (Or.imp_right Or.inl)⟩
  · rw [pullBy, if_neg hidle]
    simp only [not_or, Bool.not_eq_false, Bool.not_eq_true] at hidle
    cases hsegment : d.player.segment with
    | none => exact Or.inl ⟨rfl, by simp⟩
    | some s =>
        cases hchannel : d.player.channel with
        | none => exact Or.inl ⟨rfl, by simp⟩
        | some id =>
            exact Or.inr ⟨s, _, _, Nat.pos_of_ne_zero hidle.1, hidle.2.1, hidle.2.2, rfl, rfl⟩

/-! ### The invariant -/

/-- Nothing is played or paused, and the output is off. -/
structure Stopped (d : Deck) : Prop where
  playing : d.player.playing = false
  paused : d.player.paused = false
  off : d.isOn = false

theorem stopped_stop (d : Deck) : d.stop.Stopped := ⟨playing_stop d, by simp, isOn_stop d⟩

/-- The player has an output, and while it plays there is a segment, and sound unless it is
paused. -/
structure Wired (d : Deck) : Prop where
  attached : ∃ c, d.channel? = some c
  segment : d.player.playing = true → ∃ s, d.player.segment = some s
  output : d.player.playing = true → d.isOn = !d.player.paused

theorem isOn_pause {c : Channel} (h : d.channel? = some c) (resume : Bool) :
    (d.pause resume).isOn = resume := by
  simp [isOn, h]

namespace Wired

theorem new : Deck.attached.Wired := ⟨⟨_, rfl⟩, nofun, nofun⟩

theorem stop (h : d.Wired) : d.stop.Wired := by
  obtain ⟨c, hc⟩ := h.attached
  refine ⟨⟨_, by rw [channel?_stop, hc]; rfl⟩, ?_, ?_⟩ <;> simp

theorem withCursors (h : d.Wired) (cursors : Cursors) : ({ d with cursors } : Deck).Wired :=
  ⟨h.attached, h.segment, h.output⟩

theorem pause (h : d.Wired) (resume : Bool) : (d.pause resume).Wired := by
  obtain ⟨c, hc⟩ := h.attached
  refine ⟨⟨_, by rw [channel?_pause, hc]; rfl⟩, ?_, ?_⟩
  · simpa using h.segment
  · simp [isOn_pause hc]

theorem control (h : d.Wired) (volume map : Sides UInt8) : (d.control volume map).Wired := by
  obtain ⟨c, hc⟩ := h.attached
  have hon : (d.control volume map).isOn = d.isOn := by simp [isOn, hc]
  refine ⟨⟨_, by rw [channel?_control, hc]; rfl⟩, ?_, ?_⟩
  · simpa using h.segment
  · simpa [hon] using h.output

theorem release (h : d.Wired) (id : Nat) : (d.release id).Wired := by
  unfold Deck.release
  cases hsegment : d.player.segment with
  | none => exact h
  | some s =>
      dsimp only
      split
      · exact ⟨h.stop.attached, by simp, by simp⟩
      · exact h

theorem began (h : d.Wired) (medium : Medium) (plan : Plan) : (d.began medium plan).Wired := by
  obtain ⟨c, hc⟩ := h.attached
  refine ⟨⟨_, by rw [channel?_began, hc]; rfl⟩, ?_, ?_⟩
  · simp
  · simp [isOn_began, hc]

theorem playBy (h : d.Wired) (medium : Medium) (start length : Nat) :
    (d.playBy b medium start length).2.Wired := by
  rcases playBy_cases b d medium start length with ⟨plan, cursors, -, hplay⟩ | ⟨e, cursors, hplay⟩
  · rw [hplay]
    exact (h.began medium plan).withCursors cursors
  · rw [hplay]
    exact (h.withCursors cursors).stop

theorem heard (h : d.Wired) (s : Segment) (sound : Source.Sound) (cursors : Cursors) :
    (d.heard s sound cursors).Wired := by
  obtain ⟨c, hc⟩ := h.attached
  obtain ⟨f, hf, -⟩ := channel?_heard d s sound cursors
  refine ⟨⟨f c, by rw [hf, hc]; rfl⟩, ?_, ?_⟩
  · simp
  · simpa using h.output

theorem proceedBy (h : d.Wired) (s : Segment) (decoded : Nat) :
    (d.proceedBy b s decoded).Wired := by
  unfold Deck.proceedBy
  split
  · exact h.stop
  · split
    · exact h
    · split
      · exact h.stop
      · exact h.playBy _ _ _

theorem pullBy (h : d.Wired) (frames : Nat) : (d.pullBy b frames).Wired := by
  rcases pullBy_cases b d frames with ⟨hidle, -⟩ | ⟨s, sound, cursors, -, -, -, -, hpull⟩
  · rw [hidle]
    exact h
  · rw [hpull]
    exact (h.heard s sound cursors).proceedBy _ _

theorem afterBy (h : d.Wired) (call : Call) : (d.afterBy b call).Wired := by
  cases call with
  | play medium start length => exact h.playBy _ _ _
  | pause resume => exact h.pause resume
  | stop => exact h.stop
  | release id => exact h.release id
  | control volume map => exact h.control volume map
  | pull frames => exact h.pullBy frames
  | elsewhere cursors => exact h.withCursors cursors

/-- Every run keeps the player wired. -/
theorem runBy (h : d.Wired) (calls : List (Behaviour × Call)) : (d.runBy calls).Wired := by
  induction calls generalizing d with
  | nil => exact h
  | cons call calls ih => exact ih (h.afterBy call.2)

end Wired

end Deck

end CompactDisc
