import CompactDisc.Proofs.Sheet.Described
import CompactDisc.Proofs.Sheet.Lines
import CompactDisc.Text.Ascii

/-!
# CompactDisc.Proofs.Sheet.Windows

**What a cue sheet means, line by line.** Every line says one command (`Says`), and each `TRACK` line
stands between the commands before it and those after it (`TrackLine`): the former decide its source,
and its window among the latter decides where it begins. `load_meaning` says when a sheet is accepted
and what its disc is in these terms alone, without a state that is carried from line to line.

Proof shape: `entries?` goes through the commands with the source that is open at the moment. That
source is always the one opened by the last `FILE` line of those gone through (`openedBy?_concat`), so
an entry depends only on where its `TRACK` line stands (`entries?_iff_from`). Taking out a command that
is idle changes no entry (`entries?_idle`).
-/

namespace CompactDisc.Sheet

/-! ### Lines -/

/-- The first word of a line names a command, in any case, and the fields behind it can be read. -/
def Says (line : List UInt8) (c : Command) : Prop :=
  ∃ verb, Verb.ofWord? (Line.ofChars (Text.Utf8.decode line)).keyword.1 = some verb ∧
    verb.command (Line.ofChars (Text.Utf8.decode line)).keyword.2 = .ok c

/-- A line says one thing. -/
theorem Says.eq {line : List UInt8} {c c' : Command} (h : Says line c) (h' : Says line c') :
    c = c' := by
  exact Option.some.inj ((command?_eq_some_iff.mpr h).symm.trans (command?_eq_some_iff.mpr h'))

/-- What the first lines say is known, so it is what is behind them that counts. -/
theorem says_append_iff {lines after : List (List UInt8)} {bs cs : List Command}
    (h : List.Forall₂ Says lines bs) :
    List.Forall₂ Says (lines ++ after) cs ↔
      ∃ as, cs = bs ++ as ∧ List.Forall₂ Says after as := by
  induction h generalizing cs with
  | nil => simp
  | cons hline _ ih =>
      constructor
      · intro h
        cases h with
        | cons hline' hrest =>
            obtain ⟨as, rfl, has⟩ := ih.mp hrest
            exact ⟨as, congrArg (· :: _) (hline'.eq hline), has⟩
      · rintro ⟨as, rfl, has⟩
        exact .cons hline (ih.mpr ⟨as, rfl, has⟩)

theorem mapM_eq_some_iff {α β : Type} {f : α → Option β} {l : List α} {l' : List β} :
    l.mapM f = some l' ↔ List.Forall₂ (fun a b => f a = some b) l l' := by
  induction l generalizing l' with
  | nil => simp [eq_comm]
  | cons a l ih =>
      simp only [List.mapM_cons, Option.bind_eq_bind, Option.bind_eq_some_iff, ih, Option.pure_def,
        Option.some.injEq]
      constructor
      · rintro ⟨b, ha, rest, hrest, rfl⟩
        exact .cons ha hrest
      · intro h
        cases h with
        | cons ha hrest => exact ⟨_, ha, _, hrest, rfl⟩

/-- **The commands of a file** are what its lines say, if none of them is too long. -/
theorem commands?_iff_forall₂ {contents : Contents} {cs : List Command} :
    commands? contents = some cs ↔
      (∀ line ∈ Lines.split contents.toList, line.length ≤ maxLine) ∧
        List.Forall₂ Says (Lines.split contents.toList) cs := by
  unfold commands?
  rw [Lines.read_eq, mapM_eq_some_iff]
  generalize Lines.split contents.toList = lines
  induction lines generalizing cs with
  | nil => simp [Lines.bounded]
  | cons line rest ih =>
      rw [List.forall_mem_cons]
      rcases Nat.lt_or_ge maxLine line.length with hlong | hshort
      · rw [Lines.bounded_of_lt hlong]
        constructor
        · intro h
          cases h with
          | cons hline _ => cases hline
        · intro h
          exact absurd h.1.1 (Nat.not_le.mpr hlong)
      · rw [Lines.bounded_of_le hshort]
        constructor
        · intro h
          cases h with
          | cons hline hrest =>
              obtain ⟨hall, hrest⟩ := ih.mp hrest
              exact ⟨⟨hshort, hall⟩, .cons (command?_eq_some_iff.mp hline) hrest⟩
        · rintro ⟨⟨-, hall⟩, h⟩
          cases h with
          | cons hline hrest =>
              exact .cons (command?_eq_some_iff.mpr hline) (ih.mpr ⟨hall, hrest⟩)

/-! ### `TRACK` lines -/

/-- A `TRACK` line, with the commands before and after it. -/
structure TrackLine where
  before : List Command
  number : Nat
  mode : TrackMode
  after : List Command

/-- The `TRACK` lines of what is left of a sheet, behind what has been gone through. -/
def trackLines (done : List Command) : List Command → List TrackLine
  | [] => []
  | .track number mode :: cs =>
    ⟨done, number, mode, cs⟩ :: trackLines (done ++ [.track number mode]) cs
  | c :: cs => trackLines (done ++ [c]) cs

theorem trackLines_file (done cs : List Command) (name : String) (kind : Source.Kind) :
    trackLines done (.file name kind :: cs) = trackLines (done ++ [.file name kind]) cs := rfl

theorem trackLines_within {c : Command} (h : c.endsTrack = false) (done cs : List Command) :
    trackLines done (c :: cs) = trackLines (done ++ [c]) cs := by
  cases c with
  | track | file => cases h
  | index | pregap | catalog | remark => rfl

/-- What a `FILE` line names. -/
def Command.file? : Command → Option (String × Source.Kind)
  | .file name kind => some (name, kind)
  | _ => none

/-- The number of `FILE` lines. -/
def fileCount (cs : List Command) : Nat := (cs.filterMap Command.file?).length

/-- A name is resolved, and what it stands for can be opened. -/
def Opens (env : Surroundings) (name : String) (kind : Source.Kind) : Prop :=
  ∃ path id s, env.resolver.resolve name env.dir = some path ∧
    Source.openAs env.storage path kind id = .ok s

/-- The source that the last `FILE` line opens, where `first` sources are open before all of them. -/
def openedBy? (env : Surroundings) (first : Nat) (cs : List Command) : Option Source :=
  (last? Command.file? cs).bind fun (name, kind) =>
    (env.resolver.resolve name env.dir).bind fun path =>
      (Source.openAs env.storage path kind (first + fileCount cs - 1)).toOption

/-- What a sheet says about a track: its number and type, the source of the last `FILE` line before
it, and the last positions and pregap that its window gives. -/
def TrackLine.entry (env : Surroundings) (first : Nat) (t : TrackLine) : Entry where
  track := ({
      number := t.number
      start := (last? (Command.index? 1) (window t.after)).getD 0
      source := openedBy? env first t.before } : Track).withMode t.mode
  prestart := last? (Command.index? 0) (window t.after)
  pregap := (last? Command.pregap? (window t.after)).getD 0

section

variable {env : Surroundings} {first : Nat} {done cs : List Command} {c : Command}

theorem last?_concat {α : Type} (f : Command → Option α) :
    last? f (cs ++ [c]) = (f c).or (last? f cs) := by
  unfold last?
  cases hc : f c with
  | none => simp [hc]
  | some a => simp [hc]

theorem fileCount_concat_file (name : String) (kind : Source.Kind) :
    fileCount (done ++ [.file name kind]) = fileCount done + 1 := by
  simp [fileCount, Command.file?]

theorem fileCount_concat (h : c.file? = none) : fileCount (done ++ [c]) = fileCount done := by
  simp [fileCount, h]

theorem fileCount_cons (h : c.file? = none) : fileCount (c :: cs) = fileCount cs := by
  simp [fileCount, h]

theorem fileCount_pos_iff : 0 < fileCount cs ↔ ∃ name kind, .file name kind ∈ cs := by
  unfold fileCount
  rw [List.length_pos_iff_exists_mem]
  constructor
  · rintro ⟨⟨name, kind⟩, h⟩
    obtain ⟨c, hc, hfile⟩ := List.mem_filterMap.mp h
    cases c with
    | file =>
        cases hfile
        exact ⟨name, kind, hc⟩
    | track | index | pregap | catalog | remark => cases hfile
  · rintro ⟨name, kind, h⟩
    exact ⟨(name, kind), List.mem_filterMap.mpr ⟨_, h, rfl⟩⟩

theorem fileCount_pos_of_openedBy? {s : Source} (h : openedBy? env first cs = some s) :
    0 < fileCount cs := by
  obtain ⟨file, hfile, -⟩ := Option.bind_eq_some_iff.mp h
  exact List.length_pos_of_mem (List.mem_of_getLast? hfile)

theorem openedBy?_concat_file (name : String) (kind : Source.Kind) :
    openedBy? env first (done ++ [.file name kind]) =
      (env.resolver.resolve name env.dir).bind fun path =>
        (Source.openAs env.storage path kind (first + fileCount done)).toOption := by
  unfold openedBy?
  rw [last?_concat, fileCount_concat_file]
  rfl

theorem openedBy?_concat (h : c.file? = none) :
    openedBy? env first (done ++ [c]) = openedBy? env first done := by
  unfold openedBy?
  rw [last?_concat, fileCount_concat h, h, Option.none_or]

theorem entry_eq_describe {t : TrackLine} {s : Source} (h : openedBy? env first t.before = some s) :
    t.entry env first = describe t.number t.mode s (window t.after) := by
  unfold TrackLine.entry describe
  rw [h]

/-- Behind a part of a sheet whose last file has been opened, the entries are those of the `TRACK`
lines, if each of these has a file before it and all names can be opened. By induction on what is left
of the sheet. -/
theorem entries?_iff_from {cursors cursors' : Cursors} {es : List Entry}
    (hcursors : cursors.positions.length = first + fileCount done)
    (hdone : openedBy? env first done = none → fileCount done = 0) :
    entries? env cursors (openedBy? env first done) cs = some (es, cursors') ↔
      (∀ t ∈ trackLines done cs, 0 < fileCount t.before) ∧
        (∀ name kind, .file name kind ∈ cs → Opens env name kind) ∧
        es = (trackLines done cs).map (TrackLine.entry env first) ∧
        cursors' = ⟨cursors.positions ++ List.replicate (fileCount cs) 0⟩ := by
  induction cs generalizing done cursors es with
  | nil => simp [entries?, trackLines, fileCount, eq_comm]
  | cons c cs ih =>
      -- where no file is opened, the source stays
      have kept : ∀ es, c.file? = none →
          (entries? env cursors (openedBy? env first done) cs = some (es, cursors') ↔
            (∀ t ∈ trackLines (done ++ [c]) cs, 0 < fileCount t.before) ∧
              (∀ name kind, .file name kind ∈ cs → Opens env name kind) ∧
              es = (trackLines (done ++ [c]) cs).map (TrackLine.entry env first) ∧
              cursors' = ⟨cursors.positions ++ List.replicate (fileCount cs) 0⟩) := by
        intro es hc
        rw [← openedBy?_concat hc]
        apply ih
        · rw [fileCount_concat hc]
          exact hcursors
        · rw [openedBy?_concat hc, fileCount_concat hc]
          exact hdone
      cases c with
      | track number mode =>
          rw [entries?_track_iff, trackLines, List.forall_mem_cons, fileCount_cons rfl]
          simp only [kept _ rfl, List.mem_cons, reduceCtorEq, false_or, List.map_cons]
          constructor
          · rintro ⟨s, hs, rest, ⟨hlines, hfiles, rfl, hend⟩, rfl⟩
            refine ⟨⟨fileCount_pos_of_openedBy? hs, hlines⟩, hfiles, ?_, hend⟩
            rw [entry_eq_describe hs]
          · rintro ⟨⟨hfile, hlines⟩, hfiles, rfl, hend⟩
            obtain ⟨s, hs⟩ := Option.ne_none_iff_exists'.mp fun h => Nat.ne_of_gt hfile (hdone h)
            refine ⟨s, hs, _, ⟨hlines, hfiles, rfl, hend⟩, ?_⟩
            rw [entry_eq_describe hs]
      | file name kind =>
          -- the source is now the one of this line, as the next one is to be numbered after it
          have opened : ∀ path s, env.resolver.resolve name env.dir = some path →
              Source.openAs env.storage path kind cursors.positions.length = .ok s →
              (entries? env ⟨cursors.positions ++ [0]⟩ (some s) cs = some (es, cursors') ↔
                (∀ t ∈ trackLines (done ++ [.file name kind]) cs, 0 < fileCount t.before) ∧
                  (∀ name kind, .file name kind ∈ cs → Opens env name kind) ∧
                  es = (trackLines (done ++ [.file name kind]) cs).map (TrackLine.entry env first) ∧
                  cursors' = ⟨cursors.positions ++
                    List.replicate (fileCount (.file name kind :: cs)) 0⟩) := by
            intro path s hpath hs
            rw [hcursors] at hs
            have hlast : openedBy? env first (done ++ [.file name kind]) = some s := by
              rw [openedBy?_concat_file, hpath, Option.bind_some, hs]
              rfl
            have hcount : (⟨cursors.positions ++ [0]⟩ : Cursors).positions.length =
                first + fileCount (done ++ [.file name kind]) := by
              rw [List.length_append, hcursors, fileCount_concat_file]
              rfl
            have h : entries? env _ (openedBy? env first (done ++ [.file name kind])) cs =
                some (es, cursors') ↔ _ := ih hcount (by simp [hlast])
            rw [hlast, List.append_assoc] at h
            exact h
          rw [entries?_file_iff, trackLines_file]
          constructor
          · rintro ⟨path, hpath, ⟨s, cursors₁⟩, hopened, hrest⟩
            obtain ⟨hopen, rfl⟩ := Cursors.openSource_ok_iff.mp hopened
            obtain ⟨hlines, hfiles, hes, hend⟩ := (opened path s hpath hopen).mp hrest
            refine ⟨hlines, ?_, hes, hend⟩
            intro name' kind' hmem
            rcases List.mem_cons.mp hmem with h | hmem
            · cases h
              exact ⟨path, _, s, hpath, hopen⟩
            · exact hfiles name' kind' hmem
          · rintro ⟨hlines, hfiles, hes, hend⟩
            obtain ⟨path, id, s, hpath, hopen⟩ := hfiles name kind List.mem_cons_self
            have hopen := Source.openAs_renumber hopen cursors.positions.length
            refine ⟨path, hpath, ⟨_, _⟩, Cursors.openSource_ok_iff.mpr ⟨hopen, rfl⟩, ?_⟩
            exact (opened path _ hpath hopen).mpr
              ⟨hlines, fun name' kind' h => hfiles name' kind' (List.mem_cons_of_mem _ h), hes,
                hend⟩
      | index | pregap | catalog | remark =>
          rw [entries?_within rfl, kept _ rfl, trackLines_within rfl, fileCount_cons rfl]
          simp only [List.mem_cons, reduceCtorEq, false_or]

end

/-! ### Commands without influence -/

/-- Whether the command describes the track whose window it is in. -/
def Command.describes : Command → Bool
  | .index .. | .pregap .. => true
  | _ => false

/-- A command without influence behind others: it says nothing about the layout, or it would describe a
track where every window has ended. -/
def Idle (before : List Command) (c : Command) : Prop :=
  c = .remark ∨ c.describes = true ∧ ∀ t ∈ trackLines [] before, window t.after ≠ t.after

section

variable {env : Surroundings} {before after : List Command} {c : Command}

theorem Idle.endsTrack (h : Idle before c) : c.endsTrack = false := by
  rcases h with rfl | ⟨h, -⟩
  · rfl
  · cases c with
    | index | pregap => rfl
    | track | file | catalog | remark => cases h

theorem Idle.catalog? (h : Idle before c) : c.catalog? = none := by
  rcases h with rfl | ⟨h, -⟩
  · rfl
  · cases c with
    | index | pregap => rfl
    | track | file | catalog | remark => cases h

/-- Nothing is added to a window that has ended. -/
theorem window_append_of_ended (h : window before ≠ before) (cs : List Command) :
    window (before ++ cs) = window before := by
  unfold window at h ⊢
  rw [List.takeWhile_append, if_neg]
  intro hlength
  exact h ((List.takeWhile_prefix _).eq_of_length hlength)

/-- A window that has not ended goes on. -/
theorem window_append_of_open (h : window before = before) (cs : List Command) :
    window (before ++ cs) = before ++ window cs := by
  unfold window at h ⊢
  rw [List.takeWhile_append, h, if_pos rfl]

/-- What says nothing is not looked at. -/
theorem last?_without {α : Type} {f : Command → Option α} (h : f c = none) :
    last? f (before ++ c :: after) = last? f (before ++ after) := by
  simp [last?, h]

/-- A command behind the window of a track, or one that says nothing, leaves its description. -/
theorem describe_without (number : Nat) (mode : TrackMode) (source : Source)
    (h : c = .remark ∨ window before ≠ before) :
    describe number mode source (window (before ++ c :: after)) =
      describe number mode source (window (before ++ after)) := by
  by_cases hopen : window before = before
  · obtain rfl := h.resolve_right (not_not_intro hopen)
    rw [window_append_of_open hopen, window_append_of_open hopen, window_within rfl]
    rw [describe, describe, last?_without rfl, last?_without rfl, last?_without rfl]
  · rw [window_append_of_ended hopen, window_append_of_ended hopen]

/-- An idle command leaves all entries. By induction on the commands before it, for any that are behind
those and have been gone through. -/
theorem entries?_without {done : List Command} (hends : c.endsTrack = false)
    (h : c = .remark ∨ ∀ t ∈ trackLines done before, window t.after ≠ t.after) (cursors : Cursors)
    (source : Option Source) :
    entries? env cursors source (before ++ c :: after) =
      entries? env cursors source (before ++ after) := by
  induction before generalizing done cursors source with
  | nil => exact entries?_within hends
  | cons b before ih =>
      rw [List.cons_append, List.cons_append]
      cases b with
      | track number mode =>
          rw [trackLines, List.forall_mem_cons] at h
          simp only [entries?, ih (h.imp_right And.right),
            describe_without _ _ _ (h.imp_right And.left)]
      | file name kind =>
          rw [trackLines_file] at h
          simp only [entries?, ih h]
      | index | pregap | catalog | remark =>
          rw [trackLines_within rfl] at h
          rw [entries?_within rfl, entries?_within rfl, ih h]

end

/-! ### A sheet -/

section

variable {storage : Storage} {resolver : Resolver} {path path' : String} {contents contents' : Contents}
  {before after : List (List UInt8)} {line : List UInt8} {bs : List Command} {c : Command}

/-- An idle line can be taken out. -/
theorem load_without (hparent : Path.parent path' = Path.parent path)
    (hget : storage.get path = .ok (.file contents))
    (hget' : storage.get path' = .ok (.file contents'))
    (hsplit : Lines.split contents.toList = before ++ line :: after)
    (hsplit' : Lines.split contents'.toList = before ++ after) (hshort : line.length ≤ maxLine)
    (hline : Says line c) (hbefore : List.Forall₂ Says before bs) (hidle : Idle bs c)
    (cursors : Cursors) (r : Disc × Cursors) :
    load storage resolver path cursors = .ok r ↔ load storage resolver path' cursors = .ok r := by
  have hentries : ∀ as, entries? ⟨storage, resolver, Path.parent path⟩ cursors none (bs ++ c :: as) =
      entries? ⟨storage, resolver, Path.parent path'⟩ cursors none (bs ++ as) := by
    intro as
    rw [hparent, entries?_without hidle.endsTrack (hidle.imp_right And.right)]
  have hread : ∀ cs, commands? contents = some cs ↔ (∀ l ∈ before ++ after, l.length ≤ maxLine) ∧
      ∃ as, cs = bs ++ c :: as ∧ List.Forall₂ Says after as := by
    intro cs
    have hfirst : List.Forall₂ Says (before ++ [line]) (bs ++ [c]) :=
      (says_append_iff hbefore).mpr ⟨[c], rfl, .cons hline .nil⟩
    have hsaid : List.Forall₂ Says ((before ++ [line]) ++ after) cs ↔ _ := says_append_iff hfirst
    rw [List.append_assoc, List.singleton_append] at hsaid
    simp only [List.append_assoc, List.singleton_append] at hsaid
    rw [commands?_iff_forall₂, hsplit, hsaid]
    simp [or_imp, forall_and, hshort]
  have hread' : ∀ cs, commands? contents' = some cs ↔
      (∀ l ∈ before ++ after, l.length ≤ maxLine) ∧
        ∃ as, cs = bs ++ as ∧ List.Forall₂ Says after as := by
    intro cs
    rw [commands?_iff_forall₂, hsplit', says_append_iff hbefore]
  obtain ⟨disc, cursors'⟩ := r
  simp only [load_ok_iff, hget, hget', Except.ok.injEq, Node.file.injEq, exists_eq_left', hread,
    hread']
  constructor
  · rintro ⟨_, ⟨hall, as, rfl, has⟩, es, hes, tracks, htracks, rfl⟩
    rw [hentries] at hes
    rw [last?_without hidle.catalog?]
    exact ⟨_, ⟨hall, as, rfl, has⟩, es, hes, tracks, htracks, rfl⟩
  · rintro ⟨_, ⟨hall, as, rfl, has⟩, es, hes, tracks, htracks, rfl⟩
    rw [← hentries] at hes
    rw [← last?_without hidle.catalog?]
    exact ⟨_, ⟨hall, as, rfl, has⟩, es, hes, tracks, htracks, rfl⟩

/-- **What a sheet means.** A sheet is accepted exactly if none of its lines is too long, each says a
command, every `TRACK` line has a `FILE` line before it, what the `FILE` lines name can be opened, there
is a `TRACK` line, and the entries of the `TRACK` lines, one for each in their order, can be laid out. The
disc is then what is laid out, under the last catalog number. A line that says nothing about the layout,
or an INDEX or PREGAP outside every window, can be taken out of a sheet and its disc stays the same. -/
theorem load_by_lines (storage : Storage) (resolver : Resolver) (path : String) (cursors : Cursors) :
    let env : Surroundings := ⟨storage, resolver, Path.parent path⟩
    (∀ disc cursors', load storage resolver path cursors = .ok (disc, cursors') ↔
      ∃ contents cs, storage.get path = .ok (.file contents) ∧
        (∀ line ∈ Lines.split contents.toList, line.length ≤ maxLine) ∧
        List.Forall₂ Says (Lines.split contents.toList) cs ∧
        (∀ t ∈ trackLines [] cs, ∃ name kind, .file name kind ∈ t.before) ∧
        (∀ name kind, .file name kind ∈ cs → Opens env name kind) ∧
        trackLines [] cs ≠ [] ∧
        ∃ tracks, Layout.ofEntries ((trackLines [] cs).map
            (TrackLine.entry env cursors.positions.length)) = .ok tracks ∧
          disc = { tracks, catalog := (last? Command.catalog? cs).getD "" } ∧
          cursors' = ⟨cursors.positions ++ List.replicate (fileCount cs) 0⟩) ∧
    ∀ path' contents contents' before line after bs c, Path.parent path' = Path.parent path →
      storage.get path = .ok (.file contents) → storage.get path' = .ok (.file contents') →
      Lines.split contents.toList = before ++ line :: after →
      Lines.split contents'.toList = before ++ after →
      line.length ≤ maxLine → Says line c → List.Forall₂ Says before bs → Idle bs c →
      ∀ r, load storage resolver path cursors = .ok r ↔
        load storage resolver path' cursors = .ok r := by
  intro env
  refine ⟨fun disc cursors' => ?_, ?_⟩
  · have hentries : ∀ cs es, entries? env cursors none cs = some (es, cursors') ↔
        (∀ t ∈ trackLines [] cs, 0 < fileCount t.before) ∧
          (∀ name kind, .file name kind ∈ cs → Opens env name kind) ∧
          es = (trackLines [] cs).map (TrackLine.entry env cursors.positions.length) ∧
          cursors' = ⟨cursors.positions ++ List.replicate (fileCount cs) 0⟩ := fun cs es =>
      show entries? env cursors (openedBy? env cursors.positions.length []) cs = _ ↔ _ from
        entries?_iff_from rfl fun _ => rfl
    simp only [← fileCount_pos_iff]
    rw [load_ok_iff]
    constructor
    · rintro ⟨contents, hget, cs, hcs, es, hes, tracks, htracks, rfl⟩
      obtain ⟨hshort, hsaid⟩ := commands?_iff_forall₂.mp hcs
      obtain ⟨hlines, hfiles, rfl, rfl⟩ := (hentries cs es).mp hes
      refine ⟨contents, cs, hget, hshort, hsaid, hlines, hfiles, ?_, tracks, htracks, rfl, rfl⟩
      intro hnone
      rw [hnone] at htracks
      cases htracks
    · rintro ⟨contents, cs, hget, hshort, hsaid, hlines, hfiles, -, tracks, htracks, rfl, rfl⟩
      exact ⟨contents, hget, cs, commands?_iff_forall₂.mpr ⟨hshort, hsaid⟩, _,
        (hentries cs _).mpr ⟨hlines, hfiles, rfl, rfl⟩, tracks, htracks, rfl⟩
  · intro path' contents contents' before line after bs c hparent hget hget' hsplit hsplit' hshort
      hline hbefore hidle r
    exact load_without hparent hget hget' hsplit hsplit' hshort hline hbefore hidle cursors r

end

/-! ### A sheet with a stray PREGAP -/

/-- The lines of a sheet with one track. -/
def singleLines : List String := ["FILE a BINARY", "TRACK 1 AUDIO", "INDEX 1 0:0:1"]

/-- The same with a PREGAP ahead of the track, where none is open. -/
def strayLines : List String := ["FILE a BINARY", "pregap 0:0:9", "TRACK 1 AUDIO", "INDEX 1 0:0:1"]

/-- The file of some lines. -/
def sheetOf (lines : List String) : Contents :=
  .ofArray (lines.flatMap fun line => Text.ascii line ++ [lineFeed]).toArray

/-- Both sheets next to their file, which holds two sectors. -/
def strayStorage : Storage where
  entries := [(⟨false, ["s"]⟩, .file (sheetOf strayLines)),
    (⟨false, ["t"]⟩, .file (sheetOf singleLines)), (⟨false, ["a"]⟩, .file (.filled 4704 0))]

/-- The stray line is read, and the disc is that of the sheet without it. -/
theorem load_by_lines_stray : ∃ disc cursors,
    load strayStorage (.search strayStorage) "s" .none = .ok (disc, cursors) ∧
      load strayStorage (.search strayStorage) "t" .none = .ok (disc, cursors) ∧
      disc.tracks.map (fun t => (t.start, t.length)) = [(1, 2), (3, 0)] := by
  have hsplit : Lines.split (sheetOf strayLines).toList = strayLines.map Text.ascii := by
    rw [sheetOf, Contents.toList_ofArray]
    decide +kernel
  have hsplit' : Lines.split (sheetOf singleLines).toList = singleLines.map Text.ascii := by
    rw [sheetOf, Contents.toList_ofArray]
    decide +kernel
  have hcommands : commands? (sheetOf strayLines) =
      some [.file "a" .binary, .pregap 9, .track 1 .audio, .index 1 1] := by
    decide +kernel
  obtain ⟨hshort, hsaid⟩ := commands?_iff_forall₂.mp hcommands
  have hbefore : List.Forall₂ Says (["FILE a BINARY"].map Text.ascii) [.file "a" .binary] := by
    rw [hsplit] at hsaid
    cases hsaid with
    | cons hline _ => exact .cons hline .nil
  have hline : Says (Text.ascii "pregap 0:0:9") (.pregap 9) := by
    rw [hsplit] at hsaid
    cases hsaid with
    | cons _ hrest =>
        cases hrest with
        | cons hline _ => exact hline
  have hopens : Opens ⟨strayStorage, .search strayStorage, Path.parent "s"⟩ "a" .binary :=
    ⟨"a", 0, _, by decide +kernel, rfl⟩
  have htracks : ((Layout.ofEntries ((trackLines [] [.file "a" .binary, .pregap 9, .track 1 .audio,
      .index 1 1]).map (TrackLine.entry ⟨strayStorage, .search strayStorage, Path.parent "s"⟩
        Cursors.none.positions.length))).toOption.map fun ts => ts.map fun t =>
          (t.start, t.length)) = some [(1, 2), (3, 0)] := by
    decide +kernel
  obtain ⟨tracks, htracks, hplaces⟩ := Option.map_eq_some_iff.mp htracks
  rw [toOption_eq_some_iff] at htracks
  obtain ⟨hload, hwithout⟩ := load_by_lines strayStorage (.search strayStorage) "s" .none
  have hstray := (hload { tracks } ⟨[0]⟩).mpr ⟨_, _, rfl, hshort, hsaid, ?_, ?_, nofun, tracks,
    htracks, rfl, rfl⟩
  · have hsingle := (hwithout "t" _ _ _ _ _ _ _ rfl rfl rfl hsplit hsplit' (by decide) hline
      hbefore (Or.inr ⟨rfl, nofun⟩) _).mp hstray
    exact ⟨_, _, hstray, hsingle, hplaces⟩
  · intro t ht
    obtain rfl := List.mem_singleton.mp ht
    exact ⟨"a", .binary, List.mem_cons_self⟩
  · intro name kind h
    rcases List.mem_cons.mp h with h | h
    · cases h
      exact hopens
    · simp at h

end CompactDisc.Sheet
