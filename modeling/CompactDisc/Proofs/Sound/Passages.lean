import CompactDisc.Proofs.Layout.Entry
import CompactDisc.Proofs.Sound.Along
import CompactDisc.Proofs.Source.Frames

/-!
# CompactDisc.Proofs.Sound.Passages

**Where a request leads, whatever its sources are.** `Disc.route` is about files of sectors, where every
frame has a place of four bytes. A stream is reached through its time and has a rate of its own, so here
a passage is a plan with the frames behind the place that its source is positioned at, and the end of the
request is told by the clock of the source (`Passage.total`).

What a channel collects is the passages from the front, all of each and of the last one so many frames
that the request is done (`Deck.heard_of_play`). How many that is follows from the pumps: the first sum
of them that reaches the end, so a multiple of whatever divides all of them.

Proof shape: `Deck.On` says where a deck is on a passage, `On.pull_cases` what one pull does to it, and
the pumps are then an induction (`On.collects`, `On.ends`).
-/

namespace CompactDisc

/-! ### Frames and chunks -/

/-- A frame, and the source it was decoded from. -/
structure Decoded where
  source : Source
  bytes : List UInt8

/-- The samples of a frame. -/
def Decoded.sound (f : Decoded) : List Int16 := f.source.sound f.bytes

/-- Frames that are handed to the channel at once. -/
structure Chunk where
  source : Source
  frames : List (List UInt8)
  whole : ∀ frame ∈ frames, frame.length = source.bytesPerFrame

namespace Chunk

/-- What the channel collects of them. -/
def samples (c : Chunk) : List Int16 := c.source.heard c.frames

def decoded (c : Chunk) : List Decoded := c.frames.map fun bytes => ⟨c.source, bytes⟩

end Chunk

/-! ### Passages -/

/-- A plan whose source can be positioned, with the frames from there to the end of the source. -/
structure Passage where
  plan : Plan
  frames : List (List UInt8)

/-- What a plan plays, if its source can be positioned. -/
def Plan.passage? (plan : Plan) : Option Passage :=
  match plan.source.seek plan.offset 0 with
  | (.ok (), cursor) => some ⟨plan, plan.source.framesBehind cursor⟩
  | (.error _, _) => none

theorem Plan.passage?_eq_some_iff {plan : Plan} {p : Passage} : plan.passage? = some p ↔
    ∃ cursor, plan.source.seek plan.offset 0 = (.ok (), cursor) ∧
      p = ⟨plan, plan.source.framesBehind cursor⟩ := by
  unfold Plan.passage?
  rcases plan.source.seek plan.offset 0 with ⟨e | ⟨⟩, cursor⟩
  · exact ⟨nofun, fun ⟨_, h, _⟩ => nomatch h⟩
  · constructor
    · intro h
      exact ⟨cursor, rfl, (Option.some.inj h).symm⟩
    · rintro ⟨_, ⟨⟩, rfl⟩
      rfl

namespace Passage

/-- Sample frames to the end of the request, by the clock of the source. -/
def total (p : Passage) : Nat := Segment.framesOf p.plan.source.rate p.plan.length

/-- Sectors that are counted as played when the source has run dry. -/
def done (p : Passage) : Nat := divUp (p.frames.length * p.plan.length) p.total

/-- Whether the source runs dry before the request is done. -/
def RunsDry (p : Passage) : Prop := 0 < p.done ∧ p.frames.length < p.total

instance (p : Passage) : Decidable p.RunsDry := inferInstanceAs (Decidable (_ ∧ _))

/-- Frames of a passage. -/
def decoded (p : Passage) (frames : List (List UInt8)) : List Decoded :=
  frames.map fun bytes => ⟨p.plan.source, bytes⟩

theorem done_le {p : Passage} (h : p.frames.length < p.total) : p.done ≤ p.plan.length := by
  rw [done, divUp_le_iff (by omega), Nat.mul_comm]
  exact Nat.mul_le_mul_left _ (Nat.le_of_lt h)

end Passage

namespace Disc

/-- The first passage of a request. -/
def passage? (disc : Disc) (start length : Nat) : Option Passage :=
  (Plan.find disc true start length).toOption.bind Plan.passage?

variable {disc : Disc} {start length : Nat} {p : Passage}

theorem passage?_eq_some_iff : disc.passage? start length = some p ↔
    Plan.find disc true start length = .ok p.plan ∧ p.plan.passage? = some p := by
  rw [passage?, Option.bind_eq_some_iff]
  constructor
  · intro ⟨plan, hfind, hpassage⟩
    obtain ⟨cursor, -, rfl⟩ := Plan.passage?_eq_some_iff.mp hpassage
    exact ⟨toOption_eq_some_iff.mp hfind, hpassage⟩
  · intro ⟨hfind, hpassage⟩
    exact ⟨p.plan, toOption_eq_some_iff.mpr hfind, hpassage⟩

/-- A passage that runs dry leaves less of its request. -/
theorem left_lt (h : disc.passage? start length = some p) (hdry : p.RunsDry) :
    p.plan.length - p.done < length := by
  have hlength := Plan.length_le_of_find (passage?_eq_some_iff.mp h).1
  have hdone := Passage.done_le hdry.2
  have hpos := hdry.1
  omega

/-- The passages of a request, in order. -/
def passages (disc : Disc) (start length : Nat) : List Passage :=
  match _first : disc.passage? start length with
  | none => []
  | some p =>
    if _dry : p.RunsDry then
      p :: disc.passages (p.plan.start + p.done) (p.plan.length - p.done)
    else [p]
  termination_by length
  decreasing_by exact left_lt _first _dry

/-- The passages behind one. -/
def behind (disc : Disc) (p : Passage) : List Passage :=
  if p.RunsDry then disc.passages (p.plan.start + p.done) (p.plan.length - p.done) else []

/-- The sectors of some passages can be numbered, up to the one that each goes on with. -/
def Numbered (passages : List Passage) : Prop :=
  ∀ p ∈ passages, p.RunsDry → p.plan.start + p.done < RedBook.sectorNumbers

theorem passages_of_none (h : disc.passage? start length = none) :
    disc.passages start length = [] := by
  rw [passages]
  split
  · rfl
  · rename_i hsome
    rw [h] at hsome
    cases hsome

theorem passages_of_some (h : disc.passage? start length = some p) :
    disc.passages start length = p :: disc.behind p := by
  rw [passages]
  split
  · rename_i hnone
    rw [h] at hnone
    cases hnone
  · rename_i q hsome
    rw [h] at hsome
    cases hsome
    unfold behind
    split <;> rfl

theorem behind_of_enough (h : p.total ≤ p.frames.length) : disc.behind p = [] :=
  if_neg fun hdry => absurd hdry.2 (Nat.not_lt.mpr h)

/-- Passages are followed one after another. -/
theorem passages_induction (disc : Disc) {motive : Nat → Nat → List Passage → Prop}
    (refused : ∀ start length, disc.passage? start length = none → motive start length [])
    (last : ∀ start length p, disc.passage? start length = some p → ¬ p.RunsDry →
      motive start length [p])
    (next : ∀ start length p, disc.passage? start length = some p → p.RunsDry →
      motive (p.plan.start + p.done) (p.plan.length - p.done)
        (disc.passages (p.plan.start + p.done) (p.plan.length - p.done)) →
      motive start length
        (p :: disc.passages (p.plan.start + p.done) (p.plan.length - p.done)))
    (start length : Nat) : motive start length (disc.passages start length) := by
  induction length using Nat.strongRecOn generalizing start with
  | ind length ih =>
      cases hfirst : disc.passage? start length with
      | none =>
          rw [passages_of_none hfirst]
          exact refused start length hfirst
      | some p =>
          rw [passages_of_some hfirst, behind]
          by_cases hdry : p.RunsDry
          · rw [if_pos hdry]
            exact next start length p hfirst hdry (ih _ (left_lt hfirst hdry) _)
          · rw [if_neg hdry]
            exact last start length p hfirst hdry

/-- Every passage is the first one of some sectors up to the end of the request, and what follows it is
what is behind it. -/
theorem passages_split {front rest : List Passage}
    (h : disc.passages start length = front ++ p :: rest) :
    rest = disc.behind p ∧
      ∃ start' length', start' + length' = start + length ∧ disc.passage? start' length' = some p := by
  revert front
  induction start, length using passages_induction disc with
  | refused start length hnone =>
      intro front heq
      simp at heq
  | last start length q hq hlast =>
      intro front heq
      cases front with
      | nil =>
          obtain ⟨rfl, rfl⟩ := List.cons.inj heq
          exact ⟨(if_neg hlast).symm, start, length, rfl, hq⟩
      | cons _ front => simp at heq
  | next start length q hq hdry ih =>
      intro front heq
      cases front with
      | nil =>
          obtain ⟨rfl, rfl⟩ := List.cons.inj heq
          exact ⟨(if_pos hdry).symm, start, length, rfl, hq⟩
      | cons _ front =>
          obtain ⟨hrest, start', length', hstop, hp⟩ := ih (List.cons.inj heq).2
          have hplan := Plan.stop_of_find (passage?_eq_some_iff.mp hq).1
          have hdone := Passage.done_le hdry.2
          exact ⟨hrest, start', length', by omega, hp⟩

/-- The sources of a disc are open. -/
def OpenIn (disc : Disc) (cursors : Cursors) : Prop :=
  ∀ t ∈ disc.tracks, ∀ s ∈ t.source, s.id < cursors.positions.length

theorem id_lt_of_passage? {cursors : Cursors} (hopen : disc.OpenIn cursors)
    (h : disc.passage? start length = some p) : p.plan.source.id < cursors.positions.length := by
  obtain ⟨-, -, t, s, ht, -, hs, -, hplan⟩ := Plan.find_ok_iff.mp (passage?_eq_some_iff.mp h).1
  rw [hplan]
  exact hopen t (mem_of_track? ht) s hs

end Disc

/-! ### Where a deck is -/

namespace Deck

/-- The rate of the channel. -/
def rate? (d : Deck) : Option Nat := d.channel?.map (·.rate)

/-- A deck has played so many frames of a passage, and goes on with it. -/
structure On (d : Deck) (medium : Medium) (p : Passage) (k : Nat) : Prop where
  playing : d.player.playing = true
  unpaused : d.player.paused = false
  segment : d.player.segment = some (p.plan.segmentAt medium k)
  enabled : d.isOn = true
  rate : d.rate? = some p.plan.source.rate
  sources : medium.disc.OpenIn d.cursors
  known : p.plan.source.id < d.cursors.positions.length
  tuned : p.plan.source.Tuned (d.cursors.get p.plan.source.id)
  behind : p.plan.source.framesBehind (d.cursors.get p.plan.source.id) = p.frames.drop k
  heard : k ≤ p.frames.length
  due : k < max p.total 1
  length_pos : 0 < p.plan.length
  numbered : Disc.Numbered (p :: medium.disc.behind p)

variable {d : Deck} {medium : Medium} {p : Passage} {k n : Nat}

theorem isSome_of_isOn (h : d.isOn = true) : d.channel?.isSome = true := by
  unfold isOn at h
  cases hc : d.channel? with
  | none => simp [hc] at h
  | some c => rfl

@[simp] theorem rate?_stop (d : Deck) : d.stop.rate? = d.rate? := by
  simp [rate?, Function.comp_def]

@[simp] theorem rate?_sounded (d : Deck) (s : Segment) (n : Nat) :
    (d.sounded s n).rate? = d.rate? := by
  have hforward : ∀ (c : Channel) channels order frames bytes,
      (c.forward channels order frames bytes).rate = c.rate := by
    intro c channels order frames bytes
    unfold Channel.forward
    split <;> rfl
  simp [rate?, Function.comp_def, hforward]

theorem rate?_began (medium : Medium) (plan : Plan) (h : d.channel?.isSome = true) :
    (d.began medium plan).rate? = some plan.source.rate := by
  obtain ⟨c, hc⟩ := Option.isSome_iff_exists.mp h
  simp [rate?, hc]

/-- Using a source opens and closes none. -/
theorem openIn_use {α : Type} {disc : Disc} {c : Cursors} {s : Source} {f : Nat → α × Nat}
    (h : disc.OpenIn c) : disc.OpenIn (c.use s f).2 := by
  intro t ht s' hs'
  rw [Cursors.use, Cursors.length_set]
  exact h t ht s' hs'

/-! ### Going on -/

theorem proceed_of_done {s : Segment} (h : s.total ≤ s.played) (n : Nat) :
    d.proceed s n = d.stop := by
  rw [proceed, if_pos h]

theorem proceed_of_more {s : Segment} (h : s.played < s.total) (hn : 0 < n) :
    d.proceed s n = d := by
  rw [proceed, if_neg (Nat.not_le.mpr h), if_pos hn]

theorem proceed_of_dry {s : Segment} (h : s.played < s.total) :
    d.proceed s 0 = if s.completed = 0 then d.stop
      else (d.play s.medium s.next (s.length - s.completed)).2 := by
  rw [proceed, if_neg (Nat.not_le.mpr h), if_neg (Nat.lt_irrefl 0)]

/-! ### Requests -/

/-- The first passage of a request, begun. -/
theorem began_on (houtput : d.channel?.isSome = true) (hopen : medium.disc.OpenIn d.cursors)
    {start length : Nat} (hpassage : medium.disc.passage? start length = some p)
    (hnumbered : Disc.Numbered (medium.disc.passages start length)) :
    (d.cursors.seek p.plan.source p.plan.offset).1 = .ok () ∧
      (d.began medium p.plan).On medium p 0 := by
  obtain ⟨hfind, hplays⟩ := Disc.passage?_eq_some_iff.mp hpassage
  obtain ⟨cursor, hseek, hp⟩ := Plan.passage?_eq_some_iff.mp hplays
  have hid := Disc.id_lt_of_passage? hopen hpassage
  -- the source is positioned alike wherever its cursor is
  have hsame : p.plan.source.seek p.plan.offset (d.cursors.get p.plan.source.id) = (.ok (), cursor) := by
    rw [← hseek]
    exact Source.seek_ok (by rw [hseek])
  have htuned : p.plan.source.Tuned (p.plan.source.seek p.plan.offset 0).2 :=
    Source.tuned_seek (by rw [hseek])
  have hcursors : (d.began medium p.plan).cursors = d.cursors.set p.plan.source.id cursor := by
    rw [cursors_began]
    exact congrArg (fun r => d.cursors.set p.plan.source.id r.2) hsame
  have hat : (d.began medium p.plan).cursors.get p.plan.source.id = cursor := by
    rw [hcursors, Cursors.get_set_self _ hid]
  refine ⟨congrArg Prod.fst hsame, ?_⟩
  exact {
    playing := by simp
    unpaused := by simp
    segment := by simp [Plan.segmentAt, Plan.segment]
    enabled := by rw [isOn_began, houtput]
    rate := rate?_began medium p.plan houtput
    sources := by
      rw [cursors_began]
      exact openIn_use hopen
    known := by rw [hcursors, Cursors.length_set]; exact hid
    tuned := by rw [hat]; rwa [hseek] at htuned
    behind := by
      rw [hat, List.drop_zero]
      exact (congrArg Passage.frames hp).symm
    heard := Nat.zero_le _
    due := by omega
    length_pos := Plan.length_pos_of_find hfind
    numbered := by rwa [← Disc.passages_of_some hpassage] }

/-- A request begins its first passage, or it has none and is refused. -/
theorem play_passage (houtput : d.channel?.isSome = true) (hopen : medium.disc.OpenIn d.cursors)
    {start length : Nat} (hnumbered : Disc.Numbered (medium.disc.passages start length)) :
    (medium.disc.passage? start length = none ∧
      (∃ e, (d.play medium start length).1 = .error e) ∧
      (d.play medium start length).2 = d.stop) ∨
    ∃ p, medium.disc.passage? start length = some p ∧
      (d.play medium start length).1 = .ok () ∧ (d.play medium start length).2.On medium p 0 := by
  obtain ⟨c, hc⟩ := Option.isSome_iff_exists.mp houtput
  have hchannel := channel_of_channel? hc
  cases hpassage : medium.disc.passage? start length with
  | none =>
      refine Or.inl ⟨rfl, ?_⟩
      rcases play_cases d medium start length with hok | hstop
      · obtain ⟨plan, hfind, hseek, -⟩ := play_ok_iff.mp hok
        rw [hchannel] at hfind
        -- what can be positioned where the cursor is has a passage
        have hseek : (plan.source.seek plan.offset (d.cursors.get plan.source.id)).1 = .ok () :=
          hseek
        have hsome : plan.passage? = some _ :=
          Plan.passage?_eq_some_iff.mpr ⟨_, (Source.seek_ok hseek).trans (Prod.ext hseek rfl), rfl⟩
        rw [Disc.passage?, hfind] at hpassage
        cases hpassage.symm.trans hsome
      · exact hstop
  | some p =>
      obtain ⟨hseek, hon⟩ := began_on houtput hopen hpassage hnumbered
      have hfind := (Disc.passage?_eq_some_iff.mp hpassage).1
      rw [← hchannel] at hfind
      have hplayed : d.play medium start length = (.ok (), d.began medium p.plan) :=
        play_of_plan hfind hseek
      refine Or.inr ⟨p, rfl, by rw [hplayed], ?_⟩
      rw [hplayed]
      exact hon

namespace On

/-! ### One pull -/

/-- The chunk that a pull hands on. -/
def chunk (h : d.On medium p k) (n : Nat) : Chunk where
  source := p.plan.source
  frames := (p.frames.drop k).take n
  whole frame hmem := by
    rw [← h.behind] at hmem
    exact Source.length_of_mem_framesBehind h.tuned (List.mem_of_mem_take hmem)

theorem taken (h : d.On medium p k) (n : Nat) :
    (d.cursors.decode p.plan.source n).1.frames = min n (p.frames.length - k) := by
  have hframes := (Source.decode_tuned h.tuned n).1
  rw [h.behind, List.length_drop] at hframes
  exact hframes

/-- A pull is answered with what is left of the passage, and goes on from there. -/
theorem pull_eq (h : d.On medium p k) (hn : 0 < n) :
    d.pull n = (d.sounded (p.plan.segmentAt medium k) n).proceed
      (p.plan.segmentAt medium (k + min n (p.frames.length - k)))
      (min n (p.frames.length - k)) := by
  obtain ⟨c, hc⟩ := Option.isSome_iff_exists.mp (isSome_of_isOn h.enabled)
  rw [pull_of_active hn h.playing h.unpaused h.segment (channel_of_channel? hc), ← h.taken n]
  rfl

theorem samples_pull (h : d.On medium p k) (hn : 0 < n) :
    (d.pull n).samples = d.samples ++ (h.chunk n).samples := by
  have hsounded := samples_sounded_tuned (s := p.plan.segmentAt medium k)
    (isSome_of_isOn h.enabled) h.tuned n
  rw [h.pull_eq hn, samples_proceed, hsounded]
  show d.samples ++ p.plan.source.heard
    ((p.plan.source.framesBehind (d.cursors.get p.plan.source.id)).take n) = _
  rw [h.behind]
  rfl

/-- The deck between the sound of a pull and the decision how to go on. -/
theorem sounded_on (h : d.On medium p k)
    (hdue : k + min n (p.frames.length - k) < max p.total 1) :
    (d.sounded (p.plan.segmentAt medium k) n).On medium p (k + min n (p.frames.length - k)) := by
  obtain ⟨-, -, htuned, hbehind⟩ := Source.decode_tuned h.tuned n
  have hlength := h.heard
  have hcursor : (d.sounded (p.plan.segmentAt medium k) n).cursors.get p.plan.source.id =
      (p.plan.source.decode n (n * p.plan.source.bytesPerFrame)
        (d.cursors.get p.plan.source.id)).2 := by
    rw [cursors_sounded]
    exact Cursors.get_set_self _ h.known
  have hplayed : p.plan.segmentAt medium (k + min n (p.frames.length - k)) =
      { p.plan.segmentAt medium k with
        played := k + (d.cursors.decode p.plan.source n).1.frames } := by
    rw [h.taken]
    rfl
  exact {
    playing := by simp [h.playing]
    unpaused := by simp [h.unpaused]
    segment := by rw [player_sounded, hplayed]; rfl
    enabled := by rw [isOn_sounded, h.enabled]
    rate := by rw [rate?_sounded, h.rate]
    sources := by
      rw [cursors_sounded]
      exact openIn_use h.sources
    known := by
      rw [cursors_sounded, Cursors.decode, Cursors.use, Cursors.length_set]
      exact h.known
    tuned := by rw [hcursor]; exact htuned
    behind := by
      rw [hcursor, hbehind, h.behind, List.drop_drop]
      rcases Nat.le_total n (p.frames.length - k) with hmore | hlast
      · rw [Nat.min_eq_left hmore]
      · rw [Nat.min_eq_right hlast, List.drop_of_length_le (by omega),
          List.drop_of_length_le (by omega)]
    heard := by omega
    due := hdue
    length_pos := h.length_pos
    numbered := h.numbered }

/-- A pull that brings nothing: the request ends with its passages, or the next one begins. -/
theorem proceed_dry (h : d.On medium p k) (hk : p.frames.length = k) (hdry : k < p.total) :
    let next := d.proceed (p.plan.segmentAt medium k) 0
    (next.isOn = false ∧ next.rate? = some p.plan.source.rate ∧ medium.disc.behind p = []) ∨
    ∃ q, medium.disc.behind p = q :: medium.disc.behind q ∧ p.RunsDry ∧
      q.plan.start + q.plan.length = p.plan.start + p.plan.length ∧
      q.plan.length < p.plan.length ∧ next.On medium q 0 := by
  intro next
  have hcompleted : (p.plan.segmentAt medium k).completed = p.done := by
    rw [← hk]
    rfl
  have hnext : next = _ := proceed_of_dry (s := p.plan.segmentAt medium k) hdry
  rw [hcompleted] at hnext
  rw [← hk] at hdry
  by_cases hnone : p.done = 0
  · left
    rw [hnext, if_pos hnone, isOn_stop, rate?_stop]
    exact ⟨rfl, h.rate, if_neg fun hruns => absurd hnone (Nat.ne_of_gt hruns.1)⟩
  · have hruns : p.RunsDry := ⟨Nat.pos_of_ne_zero hnone, hdry⟩
    have hsector : (p.plan.segmentAt medium k).next = p.plan.start + p.done := by
      have hnumbered := h.numbered p List.mem_cons_self hruns
      rw [← hcompleted] at hnumbered ⊢
      exact Segment.next_of_lt hnumbered
    have hbehind : Disc.Numbered
        (medium.disc.passages (p.plan.start + p.done) (p.plan.length - p.done)) := by
      have hbehind := fun q hq => h.numbered q (List.mem_cons_of_mem _ hq)
      rwa [Disc.behind, if_pos hruns] at hbehind
    rw [if_neg hnone, hsector] at hnext
    rw [hnext, Disc.behind, if_pos hruns]
    rcases play_passage (isSome_of_isOn h.enabled) h.sources hbehind with
      ⟨hrefused, -, hstop⟩ | ⟨q, hq, -, hbegun⟩
    · left
      refine ⟨?_, ?_, Disc.passages_of_none hrefused⟩
      · exact (congrArg isOn hstop).trans (isOn_stop _)
      · exact (congrArg rate? hstop).trans ((rate?_stop _).trans h.rate)
    · right
      have hfind := (Disc.passage?_eq_some_iff.mp hq).1
      have hstop := Plan.stop_of_find hfind
      have hshorter := Plan.length_le_of_find hfind
      have hdone := Passage.done_le hdry
      have hpos := hruns.1
      exact ⟨q, Disc.passages_of_some hq, hruns, by omega, by omega, hbegun⟩

/-- **What a pull does** to a deck on a passage: it ends the request, goes on along the passage, or
finds the source at its end. -/
theorem pull_cases (h : d.On medium p k) (hn : 0 < n) :
    ((d.pull n).isOn = false ∧ (d.pull n).rate? = some p.plan.source.rate ∧
      p.total ≤ k + min n (p.frames.length - k)) ∨
    (0 < min n (p.frames.length - k) ∧ k + min n (p.frames.length - k) < p.total ∧
      (d.pull n).On medium p (k + min n (p.frames.length - k))) ∨
    p.frames.length = k ∧ k < p.total ∧
      (((d.pull n).isOn = false ∧ (d.pull n).rate? = some p.plan.source.rate ∧
        medium.disc.behind p = []) ∨
      ∃ q, medium.disc.behind p = q :: medium.disc.behind q ∧ p.RunsDry ∧
        q.plan.start + q.plan.length = p.plan.start + p.plan.length ∧
        q.plan.length < p.plan.length ∧ (d.pull n).On medium q 0) := by
  have hheard := h.heard
  have hon := h.sounded_on (n := n)
  rw [h.pull_eq hn]
  generalize hm : min n (p.frames.length - k) = m at hon ⊢
  rcases Nat.lt_or_ge (k + m) p.total with hleft | hend
  · right
    have hon := hon (by omega)
    rcases Nat.eq_zero_or_pos m with rfl | hmore
    · right
      have hk : p.frames.length = k := by omega
      exact ⟨hk, hleft, hon.proceed_dry hk hleft⟩
    · left
      rw [proceed_of_more (s := p.plan.segmentAt medium (k + m)) hleft hmore]
      exact ⟨hmore, hleft, hon⟩
  · left
    rw [proceed_of_done (s := p.plan.segmentAt medium (k + m)) hend, isOn_stop, rate?_stop,
      rate?_sounded]
    exact ⟨rfl, h.rate, hend⟩

end On

end Deck

end CompactDisc
