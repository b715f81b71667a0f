import CompactDisc.Proofs.Layout.Blocks
import CompactDisc.Sheet.Load

/-!
# CompactDisc.Proofs.Sheet.Entries

**What a sheet says, all at once.** The loader goes through a sheet line by line and keeps what it
has learnt in a `Progress`. Read as a whole, a sheet is a list of commands, and each `TRACK` command
is described by its *window*: the commands up to the next `TRACK` or `FILE`. `entries?` is this
reading; `load_ok_iff` says that the loader accepts a sheet exactly if its lines can be read, its
files opened and its entries laid out, and that the disc is then theirs.

Proof shape: the commands that are still to come decide what the open track will be
(`Progress.pending`). A command within a window moves from one side to the other
(`Progress.apply_within`), and one that ends a window lays the track out
(`Progress.closeTrack_ok_iff`).
-/

namespace CompactDisc.Sheet

/-! ### Reading commands -/

/-- Whether the command ends the description of the track before it. -/
def Command.endsTrack : Command → Bool
  | .track .. | .file .. => true
  | _ => false

/-- The command on a line, if it can be read. -/
def RawLine.command? : RawLine → Option Command
  | .overlong => none
  | .line bytes =>
    let (word, rest) := (Line.ofChars (Text.Utf8.decode bytes)).keyword
    (Verb.ofWord? word).bind fun verb => (verb.command rest).toOption

/-- The commands of a sheet, if all its lines can be read. -/
def commands? (contents : Contents) : Option (List Command) :=
  (Lines.read contents).mapM RawLine.command?

/-- The commands that describe a track, of those behind it. -/
def window (cs : List Command) : List Command := cs.takeWhile fun c => !c.endsTrack

/-- The position of an INDEX line with a number. -/
def Command.index? (n : Nat) : Command → Option Nat
  | .index k frame => if k = n then some frame else none
  | _ => none

def Command.pregap? : Command → Option Nat
  | .pregap frames => some frames
  | _ => none

def Command.catalog? : Command → Option String
  | .catalog text => some text
  | _ => none

/-- What the last command says that says anything of the kind. -/
def last? {α : Type} (f : Command → Option α) (cs : List Command) : Option α :=
  (cs.filterMap f).getLast?

/-- What a sheet says about a track, given the commands of its window. -/
def describe (number : Nat) (mode : TrackMode) (source : Source) (cs : List Command) : Entry where
  track := ({
      number
      start := (last? (Command.index? 1) cs).getD 0
      source := some source } : Track).withMode mode
  prestart := last? (Command.index? 0) cs
  pregap := (last? Command.pregap? cs).getD 0

/-- The entries of a sheet, behind the last `FILE` with its source: one for each `TRACK`. -/
def entries? (env : Surroundings) :
    Cursors → Option Source → List Command → Option (List Entry × Cursors)
  | cursors, _, [] => some ([], cursors)
  | cursors, _, .file name kind :: cs =>
    (env.resolver.resolve name env.dir).bind fun path =>
      (cursors.openSource env.storage path kind).toOption.bind fun opened =>
        entries? env opened.2 (some opened.1) cs
  | cursors, source, .track number mode :: cs =>
    source.bind fun s => (entries? env cursors source cs).map fun (es, cursors) =>
      (describe number mode s (window cs) :: es, cursors)
  | cursors, source, _ :: cs => entries? env cursors source cs

@[simp] theorem last?_nil {α : Type} (f : Command → Option α) : last? f [] = none := rfl

/-- What comes later counts. -/
theorem last?_cons {α : Type} (f : Command → Option α) (c : Command) (cs : List Command) :
    last? f (c :: cs) = (last? f cs).or (f c) := by
  unfold last?
  cases hc : f c with
  | none => simp [hc]
  | some a =>
      rw [List.filterMap_cons_some hc, List.getLast?_cons]
      cases (cs.filterMap f).getLast? <;> rfl

section

variable {env : Surroundings} {cursors cursors' : Cursors} {source : Option Source}
  {es : List Entry} {cs : List Command}

theorem entries?_file_iff {name : String} {kind : Source.Kind} :
    entries? env cursors source (.file name kind :: cs) = some (es, cursors') ↔
      ∃ path, env.resolver.resolve name env.dir = some path ∧
        ∃ opened, cursors.openSource env.storage path kind = .ok opened ∧
          entries? env opened.2 (some opened.1) cs = some (es, cursors') := by
  simp only [entries?, Option.bind_eq_some_iff, toOption_eq_some_iff]

theorem entries?_track_iff {number : Nat} {mode : TrackMode} :
    entries? env cursors source (.track number mode :: cs) = some (es, cursors') ↔
      ∃ s, source = some s ∧ ∃ rest, entries? env cursors source cs = some (rest, cursors') ∧
        es = describe number mode s (window cs) :: rest := by
  simp only [entries?, Option.bind_eq_some_iff, Option.map_eq_some_iff, Prod.exists, Prod.mk.injEq]
  refine exists_congr fun s => and_congr_right fun _ => ⟨?_, ?_⟩
  · rintro ⟨rest, _, h, rfl, rfl⟩
    exact ⟨rest, h, rfl⟩
  · rintro ⟨rest, h, rfl⟩
    exact ⟨rest, _, h, rfl, rfl⟩

/-- Within a window, nothing is opened and no entry begins. -/
theorem entries?_within {c : Command} (h : c.endsTrack = false) :
    entries? env cursors source (c :: cs) = entries? env cursors source cs := by
  cases c with
  | track | file => cases h
  | index | pregap | catalog | remark => rfl

theorem window_within {c : Command} (h : c.endsTrack = false) :
    window (c :: cs) = c :: window cs := List.takeWhile_cons_of_pos (by simp [h])

theorem window_ending {c : Command} (h : c.endsTrack = true) : window (c :: cs) = [] :=
  List.takeWhile_cons_of_neg (by simp [h])

/-- The catalog number is not a matter of the commands that end a track. -/
theorem catalog_ending {c : Command} (h : c.endsTrack = true) :
    last? Command.catalog? (c :: cs) = last? Command.catalog? cs := by
  rw [last?_cons]
  cases c with
  | track | file => exact Option.or_none
  | index | pregap | catalog | remark => cases h

end

/-! ### One line -/

/-- A command ends a track exactly if its verb does. -/
theorem endsTrack_of_command {verb : Verb} {line : Line} {c : Command}
    (h : verb.command line = .ok c) : c.endsTrack = verb.endsTrack := by
  cases verb with
  | track =>
      obtain ⟨number, -, h⟩ := bind_eq_ok_iff.mp h
      dsimp only at h
      split at h <;> cases h
      rfl
  | index =>
      obtain ⟨number, -, h⟩ := bind_eq_ok_iff.mp h
      obtain ⟨frame, -, h⟩ := bind_eq_ok_iff.mp h
      cases h
      rfl
  | file =>
      obtain ⟨name, -, h⟩ := bind_eq_ok_iff.mp h
      cases h
      rfl
  | pregap =>
      obtain ⟨frames, -, h⟩ := bind_eq_ok_iff.mp h
      cases h
      rfl
  | catalog =>
      obtain ⟨text, -, h⟩ := bind_eq_ok_iff.mp h
      cases h
      rfl
  | remark =>
      cases h
      rfl

theorem command?_eq_some_iff {bytes : List UInt8} {c : Command} :
    (RawLine.line bytes).command? = some c ↔
      ∃ verb, Verb.ofWord? (Line.ofChars (Text.Utf8.decode bytes)).keyword.1 = some verb ∧
        verb.command (Line.ofChars (Text.Utf8.decode bytes)).keyword.2 = .ok c := by
  simp only [RawLine.command?, Option.bind_eq_some_iff, toOption_eq_some_iff]

namespace Progress

variable {env : Surroundings}

/-- Lays out the open track where it ends. -/
def closeIf (p : Progress) (ends : Bool) : Except SheetError Progress :=
  if ends then p.closeTrack else .ok p

/-- Carries out a command, once the track that it ends is laid out. -/
def step (env : Surroundings) (p : Progress) (c : Command) : Except SheetError Progress :=
  p.closeIf c.endsTrack >>= fun p => p.apply env c

/-- Carries out commands up to the first failure, and lays out the last track. -/
def complete (env : Surroundings) (p : Progress) (cs : List Command) : Except SheetError Progress :=
  cs.foldlM (step env) p >>= closeTrack

theorem line_ok_iff {p p' : Progress} {text : List Char} :
    p.line env text = .ok p' ↔
      ∃ verb c, Verb.ofWord? (Line.ofChars text).keyword.1 = some verb ∧
        verb.command (Line.ofChars text).keyword.2 = .ok c ∧ p.step env c = .ok p' := by
  unfold line
  dsimp only
  cases Verb.ofWord? (Line.ofChars text).keyword.1 with
  | none => exact ⟨nofun, fun ⟨_, _, h, _⟩ => nomatch h⟩
  | some verb =>
      have hline : (do
          let p ← if verb.endsTrack then p.closeTrack else pure p
          p.apply env (← verb.command (Line.ofChars text).keyword.2)) =
          p.closeIf verb.endsTrack >>= fun p =>
            verb.command (Line.ofChars text).keyword.2 >>= fun c => p.apply env c := by
        unfold closeIf
        cases verb.endsTrack <;> rfl
      dsimp only
      rw [hline]
      simp only [bind_eq_ok_iff, step]
      constructor
      · -- the track is laid out before the rest of the line is read, so going by the verb
        rintro ⟨q, hq, c, hc, h⟩
        rw [← endsTrack_of_command hc] at hq
        exact ⟨verb, c, rfl, hc, q, hq, h⟩
      · rintro ⟨_, c, ⟨⟩, hc, q, hq, h⟩
        rw [endsTrack_of_command hc] at hq
        exact ⟨q, hq, c, hc, h⟩

theorem numberedLine_ok_iff {p : Progress} {n : Nat} {raw : RawLine} {q : Progress × Nat} :
    numberedLine env (p, n) raw = .ok q ↔
      ∃ c p', raw.command? = some c ∧ p.step env c = .ok p' ∧ q = (p', n + 1) := by
  cases raw with
  | overlong => exact ⟨nofun, fun ⟨_, _, h, _⟩ => nomatch h⟩
  | line bytes =>
      rw [numberedLine]
      constructor
      · intro h
        cases hp : p.line env (Text.Utf8.decode bytes) with
        | error e =>
            rw [hp] at h
            cases h
        | ok p' =>
            rw [hp] at h
            cases h
            obtain ⟨verb, c, hverb, hc, hstep⟩ := line_ok_iff.mp hp
            exact ⟨c, p', command?_eq_some_iff.mpr ⟨verb, hverb, hc⟩, hstep, rfl⟩
      · rintro ⟨c, p', hcommand, hstep, rfl⟩
        obtain ⟨verb, hverb, hc⟩ := command?_eq_some_iff.mp hcommand
        rw [line_ok_iff.mpr ⟨verb, c, hverb, hc, hstep⟩]
        rfl

/-- Going through lines is reading all of them and carrying out the commands. -/
theorem lines_ok_iff {p q : Progress} {n : Nat} {raws : List RawLine} :
    (∃ m, raws.foldlM (numberedLine env) (p, n) = .ok (q, m)) ↔
      ∃ cs, raws.mapM RawLine.command? = some cs ∧ cs.foldlM (step env) p = .ok q := by
  induction raws generalizing p n with
  | nil =>
      constructor
      · rintro ⟨m, h⟩
        cases h
        exact ⟨[], rfl, rfl⟩
      · rintro ⟨cs, hcs, h⟩
        cases hcs
        cases h
        exact ⟨n, rfl⟩
  | cons raw raws ih =>
      simp only [List.foldlM_cons, bind_eq_ok_iff, List.mapM_cons, Option.bind_eq_bind,
        Option.bind_eq_some_iff]
      constructor
      · rintro ⟨m, ⟨p', n'⟩, hraw, h⟩
        obtain ⟨c, p', hc, hstep, ⟨⟩⟩ := numberedLine_ok_iff.mp hraw
        obtain ⟨cs, hcs, h⟩ := ih.mp ⟨m, h⟩
        exact ⟨c :: cs, ⟨c, hc, cs, hcs, rfl⟩, bind_eq_ok_iff.mpr ⟨p', hstep, h⟩⟩
      · rintro ⟨_, ⟨c, hc, cs, hcs, ⟨⟩⟩, h⟩
        rw [List.foldlM_cons, bind_eq_ok_iff] at h
        obtain ⟨p', hstep, h⟩ := h
        obtain ⟨m, h⟩ := ih.mpr ⟨cs, hcs, h⟩
        exact ⟨m, _, numberedLine_ok_iff.mpr ⟨c, p', hc, hstep, rfl⟩, h⟩

/-! ### One track -/

/-- The entry of the open track, if there is one, when the commands in `w` are still to come. -/
def pending (p : Progress) (w : List Command) : List Entry :=
  (p.track.map fun t =>
    { track := { t with start := (last? (Command.index? 1) w).getD t.start }
      prestart := (last? (Command.index? 0) w).or p.prestart
      pregap := (last? Command.pregap? w).getD p.pregap : Entry }).toList

@[simp] theorem pending_of_none {p : Progress} (w : List Command) (h : p.track = none) :
    p.pending w = [] := by
  simp [pending, h]

/-- A track is described by what follows its `TRACK` line. -/
theorem pending_opened {p : Progress} {number : Nat} {mode : TrackMode} {source : Source}
    (w : List Command)
    (h : p.track = some (({ number, source := some source } : Track).withMode mode))
    (hprestart : p.prestart = none) (hpregap : p.pregap = 0) :
    p.pending w = [describe number mode source w] := by
  simp [pending, describe, Track.withMode, h, hprestart, hpregap]

/-- Laying out the open track adds its entry. -/
theorem closeTrack_ok_iff {p q : Progress} :
    p.closeTrack = .ok q ↔
      ∃ l, p.layout.extend (p.pending []) = .ok l ∧ q = { p with layout := l, track := none } := by
  unfold closeTrack
  cases ht : p.track with
  | none =>
      have hp : p = { p with layout := p.layout, track := none } := by
        cases p
        cases ht
        rfl
      rw [pending_of_none _ ht]
      constructor
      · intro h
        cases h
        exact ⟨p.layout, rfl, hp⟩
      · rintro ⟨l, hl, rfl⟩
        cases hl
        exact congrArg Except.ok hp
  | some t =>
      have hpending : p.pending [] = [⟨t, p.prestart, p.pregap⟩] := by
        simp [pending, ht]
      rw [hpending, Layout.extend_singleton]
      simp only [Layout.place_ok_iff]
      rcases p.layout.add t p.prestart p.pregap with ⟨error | ⟨⟩, l⟩
      · exact ⟨nofun, fun ⟨_, h, _⟩ => nomatch h⟩
      · constructor
        · intro h
          cases h
          exact ⟨l, rfl, rfl⟩
        · rintro ⟨_, h, rfl⟩
          cases h
          rfl

/-- A command within a window is carried out without failure. It is taken from those that are still
to come and changes nothing but the description of the open track and the catalog number. -/
theorem step_within (env : Surroundings) (p : Progress) {c : Command} (h : c.endsTrack = false) :
    ∃ q, p.step env c = .ok q ∧ q.layout = p.layout ∧ q.source = p.source ∧
      q.cursors = p.cursors ∧ (∀ w, q.pending w = p.pending (c :: w)) ∧
      ∀ cs, (last? Command.catalog? cs).getD q.catalog =
        (last? Command.catalog? (c :: cs)).getD p.catalog := by
  have hstep : p.step env c = p.apply env c := by
    rw [step, h]
    rfl
  rw [hstep]
  cases c with
  | track => cases h
  | file => cases h
  | index n frame =>
      by_cases h1 : n = 1
      · subst h1
        refine ⟨_, rfl, rfl, rfl, rfl, fun w => ?_, fun cs => ?_⟩
        · simp [pending, last?_cons, Command.index?, Command.pregap?, Option.map_map,
            Function.comp_def]
        · simp [last?_cons, Command.catalog?]
      · by_cases h0 : n = 0
        · subst h0
          refine ⟨_, rfl, rfl, rfl, rfl, fun w => ?_, fun cs => ?_⟩
          · simp [pending, last?_cons, Command.index?, Command.pregap?]
          · simp [last?_cons, Command.catalog?]
        · -- other positions within the track are of no interest
          refine ⟨p, by simp [apply, h0, h1], rfl, rfl, rfl, fun w => ?_, fun cs => ?_⟩
          · simp [pending, last?_cons, Command.index?, Command.pregap?, h0, h1]
          · simp [last?_cons, Command.catalog?]
  | pregap | catalog | remark =>
      refine ⟨_, rfl, rfl, rfl, rfl, fun w => ?_, fun cs => ?_⟩
      · simp [pending, last?_cons, Command.index?, Command.pregap?]
      · simp [last?_cons, Command.catalog?]

/-! ### All tracks -/

theorem complete_cons_ok_iff {p q : Progress} {c : Command} {cs : List Command} :
    p.complete env (c :: cs) = .ok q ↔
      ∃ p', p.step env c = .ok p' ∧ p'.complete env cs = .ok q := by
  unfold complete
  simp only [List.foldlM_cons, bind_assoc, bind_eq_ok_iff]

/-- A command that ends a track lays it out first. -/
theorem step_ending_ok_iff {p q : Progress} {c : Command} (h : c.endsTrack = true) :
    p.step env c = .ok q ↔ ∃ l, p.layout.extend (p.pending []) = .ok l ∧
      apply env { p with layout := l, track := none } c = .ok q := by
  rw [step, h, bind_eq_ok_iff]
  simp only [closeIf, if_pos, closeTrack_ok_iff]
  constructor
  · rintro ⟨_, ⟨l, hl, rfl⟩, hq⟩
    exact ⟨l, hl, hq⟩
  · rintro ⟨l, hl, hq⟩
    exact ⟨_, ⟨l, hl, rfl⟩, hq⟩

theorem step_track_ok_iff {p q : Progress} {number : Nat} {mode : TrackMode} :
    p.step env (.track number mode) = .ok q ↔ ∃ source, p.source = some source ∧
      ∃ l, p.layout.extend (p.pending []) = .ok l ∧ q = { p with
        layout := l
        track := some (({ number, source := some source } : Track).withMode mode)
        prestart := none
        pregap := 0 } := by
  rw [step_ending_ok_iff rfl]
  cases hsource : p.source with
  | none => simp [apply]
  | some source =>
      simp only [apply, Except.ok.injEq, Option.some.injEq, exists_eq_left']
      exact exists_congr fun l => and_congr_right fun _ => eq_comm

theorem step_file_ok_iff {p q : Progress} {name : String} {kind : Source.Kind} :
    p.step env (.file name kind) = .ok q ↔
      ∃ path, env.resolver.resolve name env.dir = some path ∧
        ∃ opened, p.cursors.openSource env.storage path kind = .ok opened ∧
          ∃ l, p.layout.extend (p.pending []) = .ok l ∧ q = { p with
            layout := l, track := none, source := some opened.1, cursors := opened.2 } := by
  rw [step_ending_ok_iff rfl]
  simp only [apply]
  cases env.resolver.resolve name env.dir with
  | none => simp
  | some path =>
      simp only [Option.some.injEq, exists_eq_left']
      cases p.cursors.openSource env.storage path kind with
      | error e => simp
      | ok opened =>
          simp only [Except.ok.injEq, exists_eq_left']
          exact exists_congr fun l => and_congr_right fun _ => eq_comm

/-- **Commands to the end of a sheet** are carried out exactly if the files among them are opened
and their entries laid out behind the open track. -/
theorem complete_ok_iff (env : Surroundings) (p : Progress) (cs : List Command) (l : Layout)
    (cursors : Cursors) (catalog : String) :
    (∃ q, p.complete env cs = .ok q ∧ q.layout = l ∧ q.cursors = cursors ∧ q.catalog = catalog) ↔
      ∃ es, entries? env p.cursors p.source cs = some (es, cursors) ∧
        p.layout.extend (p.pending (window cs) ++ es) = .ok l ∧
        (last? Command.catalog? cs).getD p.catalog = catalog := by
  induction cs generalizing p with
  | nil =>
      have hcomplete : ∀ q, p.complete env [] = .ok q ↔ p.closeTrack = .ok q := fun _ => Iff.rfl
      simp only [hcomplete, closeTrack_ok_iff]
      constructor
      · rintro ⟨_, ⟨l, hl, rfl⟩, rfl, rfl, rfl⟩
        refine ⟨[], rfl, ?_, rfl⟩
        rw [List.append_nil]
        exact hl
      · rintro ⟨es, hes, hl, rfl⟩
        cases hes
        rw [List.append_nil] at hl
        exact ⟨_, ⟨l, hl, rfl⟩, rfl, rfl, rfl⟩
  | cons c cs ih =>
      simp only [complete_cons_ok_iff]
      cases hc : c.endsTrack with
      | false =>
          -- the command goes over from what is to come to what has been learnt
          obtain ⟨p', hstep, hlayout, hsource, hcursors, hpending, hcatalog⟩ :=
            p.step_within env hc
          rw [entries?_within hc, window_within hc, ← hpending, ← hlayout, ← hsource, ← hcursors]
          simp only [← hcatalog, hstep, Except.ok.injEq, exists_eq_left']
          exact ih p'
      | true =>
          -- nothing more is said about the open track, so it is laid out here on both sides
          rw [window_ending hc, catalog_ending hc]
          simp only [Layout.extend_append_ok_iff]
          cases c with
          | index | pregap | catalog | remark => cases hc
          | track number mode =>
              have ih' := fun s l₁ => ih { p with
                layout := l₁
                track := some (({ number, source := some s } : Track).withMode mode)
                prestart := none
                pregap := 0 }
              simp only [step_track_ok_iff, entries?_track_iff]
              constructor
              · rintro ⟨q, ⟨_, ⟨s, hs, l₁, hl₁, rfl⟩, hq⟩, hrest⟩
                obtain ⟨es, hes, hl, hcat⟩ := (ih' s l₁).mp ⟨q, hq, hrest⟩
                rw [pending_opened _ rfl rfl rfl] at hl
                exact ⟨_, ⟨s, hs, es, hes, rfl⟩, ⟨l₁, hl₁, hl⟩, hcat⟩
              · rintro ⟨_, ⟨s, hs, es, hes, rfl⟩, ⟨l₁, hl₁, hl⟩, hcat⟩
                obtain ⟨q, hq, hrest⟩ := (ih' s l₁).mpr
                  ⟨es, hes, by rw [pending_opened _ rfl rfl rfl]; exact hl, hcat⟩
                exact ⟨q, ⟨_, ⟨s, hs, l₁, hl₁, rfl⟩, hq⟩, hrest⟩
          | file name kind =>
              have ih' := fun (opened : Source × Cursors) l₁ => ih { p with
                layout := l₁, track := none, source := some opened.1, cursors := opened.2 }
              simp only [step_file_ok_iff, entries?_file_iff]
              constructor
              · rintro ⟨q, ⟨_, ⟨path, hpath, opened, hopened, l₁, hl₁, rfl⟩, hq⟩, hrest⟩
                obtain ⟨es, hes, hl, hcat⟩ := (ih' opened l₁).mp ⟨q, hq, hrest⟩
                exact ⟨es, ⟨path, hpath, opened, hopened, hes⟩, ⟨l₁, hl₁, hl⟩, hcat⟩
              · rintro ⟨es, ⟨path, hpath, opened, hopened, hes⟩, ⟨l₁, hl₁, hl⟩, hcat⟩
                obtain ⟨q, hq, hrest⟩ := (ih' opened l₁).mpr ⟨es, hes, hl, hcat⟩
                exact ⟨q, ⟨_, ⟨path, hpath, opened, hopened, l₁, hl₁, rfl⟩, hq⟩, hrest⟩

/-- What is left is laid out, and the lead-out behind it. -/
theorem finish_ok_iff {p : Progress} {disc : Disc} :
    p.finish = .ok disc ↔ ∃ q, p.closeTrack = .ok q ∧
      ∃ tracks, q.layout.finish = .ok tracks ∧ disc = { tracks, catalog := q.catalog } := by
  unfold finish
  rw [bind_eq_ok_iff]
  refine exists_congr fun q => and_congr_right fun _ => ?_
  cases htracks : q.layout.tracks with
  | nil =>
      rw [Layout.finish_of_empty htracks]
      exact ⟨nofun, fun ⟨_, h, _⟩ => nomatch h⟩
  | cons first rest =>
      unfold Layout.finish
      rcases q.layout.close with ⟨error | ⟨⟩, l⟩
      · exact ⟨nofun, fun ⟨_, h, _⟩ => nomatch h⟩
      · constructor
        · intro h
          cases h
          exact ⟨l.tracks, rfl, rfl⟩
        · rintro ⟨_, h, rfl⟩
          cases h
          rfl

end Progress

/-! ### A sheet -/

/-- **A sheet is loaded** exactly if its lines can be read, its files opened and its entries laid
out; its disc is then that of the entries. -/
theorem load_ok_iff {storage : Storage} {resolver : Resolver} {path : String}
    {cursors cursors' : Cursors} {disc : Disc} :
    load storage resolver path cursors = .ok (disc, cursors') ↔
      ∃ contents, storage.get path = .ok (.file contents) ∧
        ∃ cs, commands? contents = some cs ∧
          ∃ es, entries? ⟨storage, resolver, Path.parent path⟩ cursors none cs =
              some (es, cursors') ∧
            ∃ tracks, Layout.ofEntries es = .ok tracks ∧
              disc = { tracks, catalog := (last? Command.catalog? cs).getD "" } := by
  have hcomplete := Progress.complete_ok_iff ⟨storage, resolver, Path.parent path⟩ { cursors }
  unfold load
  cases storage.get path with
  | error fault => exact ⟨nofun, fun ⟨_, h, _⟩ => nomatch h⟩
  | ok node =>
      cases node with
      | directory => exact ⟨nofun, fun ⟨_, h, _⟩ => nomatch h⟩
      | file contents =>
          simp only [Except.ok.injEq, Node.file.injEq, exists_eq_left', Lines.foldM_eq]
          -- `finish` lays out the last track, which belongs to the run of commands in `complete`
          constructor
          · intro h
            obtain ⟨⟨p, m⟩, hlines, h⟩ := bind_eq_ok_iff.mp h
            obtain ⟨d, hfinish, h⟩ := bind_eq_ok_iff.mp h
            cases h
            obtain ⟨cs, hcs, hrun⟩ := Progress.lines_ok_iff.mp ⟨m, hlines⟩
            obtain ⟨q, hq, tracks, htracks, rfl⟩ := Progress.finish_ok_iff.mp hfinish
            have hkept : q.cursors = p.cursors := by
              obtain ⟨l, -, rfl⟩ := Progress.closeTrack_ok_iff.mp hq
              rfl
            obtain ⟨es, hes, hl, hcatalog⟩ := (hcomplete _ _ _ _).mp
              ⟨q, bind_eq_ok_iff.mpr ⟨p, hrun, hq⟩, rfl, hkept, rfl⟩
            refine ⟨cs, hcs, es, hes, tracks, ?_, ?_⟩
            · exact Layout.ofEntries_ok_iff.mpr ⟨q.layout, hl, htracks⟩
            · rw [← hcatalog]
          · rintro ⟨cs, hcs, es, hes, tracks, htracks, rfl⟩
            obtain ⟨l, hl, hfinish⟩ := Layout.ofEntries_ok_iff.mp htracks
            obtain ⟨q, hq, rfl, rfl, hcatalog⟩ := (hcomplete _ _ _ _).mpr ⟨es, hes, hl, rfl⟩
            obtain ⟨p, hrun, hq⟩ := bind_eq_ok_iff.mp hq
            obtain ⟨m, hlines⟩ := Progress.lines_ok_iff.mpr ⟨cs, hcs, hrun⟩
            have hdisc := Progress.finish_ok_iff.mpr ⟨q, hq, tracks, hfinish, rfl⟩
            have hkept : q.cursors = p.cursors := by
              obtain ⟨l, -, rfl⟩ := Progress.closeTrack_ok_iff.mp hq
              rfl
            refine bind_eq_ok_iff.mpr ⟨_, hlines, bind_eq_ok_iff.mpr ⟨_, hdisc, ?_⟩⟩
            rw [hkept, hcatalog]
            rfl

end CompactDisc.Sheet
