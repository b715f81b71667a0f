import CompactDisc.Proofs.Layout.Entry
import CompactDisc.Sheet.Command
import Mathlib.Data.List.TakeWhile

/-!
# CompactDisc.Proofs.Sheet.Fields

**The fields of a line, however they are asked for.** The words of a text are its runs between white
space (`Text.words`). Whatever is asked of a line, each call takes the next of its words, whether it likes
the word or not; only a text in double quotes is taken as a whole, and left alone if its closing quote is
missing (`Line.takes_fields`).

Proof shape: taking a word divides a line into white space, a word and the rest in the one possible way
(`Line.takes_iff`), and the words of the rest are those behind the first (`Line.Takes.words_eq`). So a
sequence of calls goes through the words one by one.
-/

namespace CompactDisc

namespace Text

/-- Only white space. -/
def Blank (text : List Char) : Prop := ∀ c ∈ text, isBlank c = true

/-- One or more characters that are no white space. -/
structure IsWord (text : List Char) : Prop where
  nonempty : text ≠ []
  solid : ∀ c ∈ text, isBlank c = false

/-- A text that does not go on with the word before it. -/
def Apart (text : List Char) : Prop := ∀ c ∈ text.head?, isBlank c = true

instance (text : List Char) : Decidable (Blank text) :=
  decidable_of_iff (text.all isBlank = true) List.all_eq_true

instance (text : List Char) : Decidable (IsWord text) :=
  decidable_of_iff (text.isEmpty = false ∧ text.all (!isBlank ·) = true) (by
    rw [List.isEmpty_eq_false_iff, List.all_eq_true]
    simp only [Bool.not_eq_true']
    exact ⟨fun h => ⟨h.1, h.2⟩, fun h => ⟨h.nonempty, h.solid⟩⟩)

instance (text : List Char) : Decidable (Apart text) :=
  decidable_of_iff (text.head?.all isBlank = true) (Option.all_eq_true _ _)

/-- The words of a text: its runs between white space, without the empty ones. -/
def words (text : List Char) : List (List Char) :=
  (text.splitOnP isBlank).filter fun run => !run.isEmpty

@[simp] theorem words_nil : words [] = [] := by simp [words]

/-- White space divides the words. -/
theorem words_append_cons {c : Char} (hc : isBlank c = true) (text rest : List Char) :
    words (text ++ c :: rest) = words text ++ words rest := by
  rw [words, List.splitOnP_append_cons _ _ hc, List.filter_append]
  rfl

theorem words_of_isWord {w : List Char} (h : IsWord w) : words w = [w] := by
  rw [words, List.splitOnP_eq_singleton h.solid]
  simp [h.nonempty]

theorem words_blank_append {blanks : List Char} (h : Blank blanks) (text : List Char) :
    words (blanks ++ text) = words text := by
  induction blanks with
  | nil => rfl
  | cons c blanks ih =>
    obtain ⟨hc, hblanks⟩ := List.forall_mem_cons.mp h
    rw [List.cons_append, ← List.nil_append (c :: _), words_append_cons hc, words_nil,
      List.nil_append, ih hblanks]

theorem words_append_blank {blanks : List Char} (h : Blank blanks) (text : List Char) :
    words (text ++ blanks) = words text := by
  cases blanks with
  | nil => rw [List.append_nil]
  | cons c blanks =>
    obtain ⟨hc, hblanks⟩ := List.forall_mem_cons.mp h
    have hnone : words blanks = [] := by simpa using words_blank_append hblanks []
    rw [words_append_cons hc, hnone, List.append_nil]

/-- A word is the first one if nothing but white space is before it. -/
theorem words_append {w rest : List Char} (hw : IsWord w) (hrest : Apart rest) :
    words (w ++ rest) = w :: words rest := by
  cases rest with
  | nil => simp [words_of_isWord hw]
  | cons c rest =>
    have hc : isBlank c = true := hrest c rfl
    have hblank : Blank [c] := fun d hd => List.mem_singleton.mp hd ▸ hc
    have hsame : words (c :: rest) = words rest := words_blank_append hblank rest
    rw [words_append_cons hc, words_of_isWord hw, hsame, List.singleton_append]

/-- White space in front is skipped. -/
theorem skipBlanks_append {blanks : List Char} (h : Blank blanks) (text : List Char) :
    skipBlanks (blanks ++ text) = skipBlanks text :=
  List.dropWhile_append_of_pos h

theorem skipBlanks_cons {c : Char} (hc : isBlank c = false) (rest : List Char) :
    skipBlanks (c :: rest) = c :: rest :=
  List.dropWhile_cons_of_neg (by simp [hc])

end Text

namespace Sheet

namespace Line

open Text (words Blank IsWord Apart)

/-! ### Taking a word -/

/-- What a word is taken from, and what is left: white space and the word are gone. Where no word is left
there is only white space, and it is gone too. -/
inductive Takes : Line → Option (List Char) → Line → Prop
  | word {blanks w rest : List Char} (blank : Blank blanks) (word : IsWord w) (apart : Apart rest) :
      Takes ⟨blanks ++ (w ++ rest)⟩ (some w) ⟨rest⟩
  | none {blanks : List Char} (blank : Blank blanks) : Takes ⟨blanks⟩ none ⟨[]⟩

theorem takes_word? (line : Line) : line.Takes line.word?.1 line.word?.2 := by
  obtain ⟨text⟩ := line
  have hblank : Blank (text.takeWhile Text.isBlank) := fun c => List.mem_takeWhile_imp
  have htext : text.takeWhile Text.isBlank ++ Text.skipBlanks text = text :=
    List.takeWhile_append_dropWhile
  unfold word?
  dsimp only
  split
  · rename_i hnil
    rw [hnil, List.append_nil] at htext
    rw [← htext]
    exact .none hblank
  · rename_i hcons
    obtain ⟨c, rest, hskip⟩ := List.exists_cons_of_ne_nil hcons
    have hc : Text.isBlank c = false := by
      have hhead := List.head?_dropWhile_not Text.isBlank text
      rwa [show text.dropWhile Text.isBlank = c :: rest from hskip] at hhead
    have hword : IsWord (Text.word (Text.skipBlanks text)) :=
      ⟨by simp [hskip, Text.word, hc], fun c => Text.not_isBlank_of_mem_word⟩
    have hapart : Apart (Text.afterWord (Text.skipBlanks text)) := fun c hc => by
      obtain ⟨rest, hafter⟩ := List.head?_eq_some_iff.mp hc
      exact Text.isBlank_of_afterWord hafter
    have htakes := Takes.word hblank hword hapart
    rwa [Text.word_append_afterWord, htext] at htakes

/-- **A line is divided in one way only.** -/
theorem takes_iff {line after : Line} {word : Option (List Char)} :
    line.Takes word after ↔ line.word? = (word, after) := by
  constructor
  · intro h
    cases h with
    | @word blanks w rest hblanks hw hrest =>
      obtain ⟨c, tail, rfl⟩ := List.exists_cons_of_ne_nil hw.nonempty
      have hc : Text.isBlank c = false := hw.solid c List.mem_cons_self
      have hskip : Text.skipBlanks (blanks ++ (c :: tail ++ rest)) = c :: (tail ++ rest) := by
        rw [Text.skipBlanks_append hblanks, List.cons_append, Text.skipBlanks_cons hc]
      have hsolid : ∀ d ∈ c :: tail, (!Text.isBlank d) = true := fun d hd => by
        simp [hw.solid d hd]
      have hstop : rest.takeWhile (!Text.isBlank ·) = [] ∧ rest.dropWhile (!Text.isBlank ·) = rest := by
        cases rest with
        | nil => exact ⟨rfl, rfl⟩
        | cons d rest =>
          have hd : Text.isBlank d = true := hrest d rfl
          simp [hd]
      unfold word?
      rw [hskip]
      dsimp only
      rw [← List.cons_append, Text.word, Text.afterWord, List.takeWhile_append_of_pos hsolid,
        List.dropWhile_append_of_pos hsolid, hstop.1, hstop.2, List.append_nil]
    | @none blanks hblanks =>
      have hskip : Text.skipBlanks blanks = [] := List.dropWhile_eq_nil_iff.mpr hblanks
      unfold word?
      rw [hskip]
  · intro h
    have htakes := line.takes_word?
    rwa [h] at htakes

/-- The word that is taken is the first, and the others are left. -/
theorem Takes.words_eq {line after : Line} {word : Option (List Char)} (h : line.Takes word after) :
    (words line.rest).head? = word ∧ (words line.rest).tail = words after.rest := by
  cases h with
  | word hblanks hw hrest =>
    rw [Text.words_blank_append hblanks, Text.words_append hw hrest]
    exact ⟨rfl, rfl⟩
  | @none blanks hblanks =>
    have hnone := Text.words_blank_append hblanks []
    rw [List.append_nil, Text.words_nil] at hnone
    rw [hnone]
    exact ⟨rfl, Text.words_nil.symm⟩

/-- What is left is the end of the line. -/
theorem Takes.suffix {line after : Line} {word : Option (List Char)} (h : line.Takes word after) :
    after.rest <:+ line.rest := by
  cases h with
  | word => exact (List.suffix_append _ _).trans (List.suffix_append _ _)
  | none => exact List.nil_suffix

/-! ### Whole lines -/

/-- A line lacks nothing but carriage returns at its end. -/
theorem ofChars_append (text : List Char) :
    ∃ returns, text = (ofChars text).rest ++ returns ∧ ∀ c ∈ returns, c = '\r' := by
  refine ⟨(text.reverse.takeWhile (· == '\r')).reverse, ?_, fun c hc => ?_⟩
  · rw [ofChars, ← List.reverse_append, List.takeWhile_append_dropWhile, List.reverse_reverse]
  · simpa using List.mem_takeWhile_imp (List.mem_reverse.mp hc)

/-- Carriage returns are no words. -/
theorem words_ofChars (text : List Char) : words (ofChars text).rest = words text := by
  obtain ⟨returns, htext, hreturns⟩ := ofChars_append text
  have hblank : Blank returns := fun c hc => hreturns c hc ▸ rfl
  have hwords := congrArg words htext
  rw [Text.words_append_blank hblank] at hwords
  exact hwords.symm

/-- What is ahead of any other character stays. -/
theorem ofChars_append_cons {c : Char} (hc : c ≠ '\r') (front rest : List Char) :
    ofChars (front ++ c :: rest) = ⟨front ++ c :: (ofChars rest).rest⟩ := by
  have hstop : (c :: front.reverse).dropWhile (· == '\r') = c :: front.reverse :=
    List.dropWhile_cons_of_neg (by simpa using hc)
  simp only [ofChars, mk.injEq, List.reverse_append, List.reverse_cons, List.append_assoc,
    List.singleton_append]
  rw [List.dropWhile_append]
  split
  · rename_i hnil
    rw [List.isEmpty_iff] at hnil
    rw [hstop, hnil]
    simp
  · simp

/-! ### Calls -/

/-- What can be asked of a line. -/
inductive Call where
  | keyword
  | string (command : String)
  | number (max : Nat) (command : String)
  | frames (command : String)
  deriving DecidableEq, Repr

/-- What a line answers. -/
inductive Answer where
  | keyword (word : String)
  | text (result : Except SheetError String)
  | count (result : Except SheetError Nat)

/-- Asks a line for a field. -/
def call (line : Line) : Call → Answer × Line
  | .keyword => (.keyword line.keyword.1, line.keyword.2)
  | .string command => (.text (line.string command).1, (line.string command).2)
  | .number max command => (.count (line.number max command).1, (line.number max command).2)
  | .frames command => (.count (line.frames command).1, (line.frames command).2)

/-- The answers to calls one after another, failed ones included. -/
def answers (line : Line) : List Call → List Answer
  | [] => []
  | k :: calls => (line.call k).1 :: (line.call k).2.answers calls

/-- What is left behind calls. -/
def after (line : Line) (calls : List Call) : Line := calls.foldl (fun line k => (line.call k).2) line

/-- A word in upper case; nothing for no word. -/
def upper (word : Option (List Char)) : String := String.ofList ((word.getD []).map Char.toUpper)

/-- What a call makes of the next word. -/
def Call.answer : Call → Option (List Char) → Answer
  | .keyword, word => .keyword (upper word)
  | .string command, word =>
    .text (word.elim (.error (.missingArgument command)) fun w => .ok (String.ofList w))
  | .number max command, word =>
    .count (word.elim (.error (.missingArgument command))
      fun w => (Text.Numeral.parse max w).mapError .number)
  | .frames command, word =>
    .count (word.elim (.error (.missingArgument command)) fun w => (position w).map Msf.toFrames)

/-- A call that takes a word from any line with these words: all but a string at a double quote. -/
def Call.TakesWord (k : Call) (text : List Char) : Prop :=
  ∀ command, k = .string command → '"' ∉ text

theorem reading_eq {α : Type} (line : Line) (command : String)
    (read : List Char → Except SheetError α) :
    line.reading command read =
      (line.word?.1.elim (.error (.missingArgument command)) read, line.word?.2) := by
  unfold reading
  rcases line.word? with ⟨_ | w, after⟩ <;> rfl

/-- **A call takes the next word**, and makes of it what it can. -/
theorem call_eq {line : Line} {k : Call} (h : k.TakesWord line.rest) :
    line.call k = (k.answer line.word?.1, line.word?.2) := by
  cases k with
  | keyword => rfl
  | number max command => simp only [call, number, reading_eq, Call.answer]
  | frames command => simp only [call, frames, reading_eq, Call.answer]
  | string command =>
    have hbare : ∀ quoted, Text.skipBlanks line.rest ≠ '"' :: quoted := by
      intro quoted hquote
      have hmem : '"' ∈ Text.skipBlanks line.rest := hquote ▸ List.mem_cons_self
      exact h command rfl ((List.dropWhile_suffix _).subset hmem)
    have hstring : line.string command = line.reading command fun word => .ok (String.ofList word) := by
      unfold string
      split
      · rename_i quoted hquote
        exact absurd hquote (hbare quoted)
      · rfl
    simp only [call, hstring, reading_eq, Call.answer]

/-- **Calls take the words one by one**, and leave those that were not asked for. By induction on the
calls, for any line. -/
theorem answers_eq {line : Line} {calls : List Call} (h : ∀ k ∈ calls, k.TakesWord line.rest) :
    line.answers calls = calls.mapIdx (fun i k => k.answer (words line.rest)[i]?) ∧
      words (line.after calls).rest = (words line.rest).drop calls.length := by
  induction calls generalizing line with
  | nil => exact ⟨rfl, rfl⟩
  | cons k calls ih =>
    rw [List.forall_mem_cons] at h
    have htakes := line.takes_word?
    obtain ⟨hfirst, hothers⟩ := htakes.words_eq
    have hlater : ∀ k ∈ calls, k.TakesWord line.word?.2.rest := fun k hk command hstring hquote =>
      h.2 k hk command hstring (htakes.suffix.subset hquote)
    obtain ⟨hanswers, hafter⟩ := ih hlater
    have hcall := call_eq h.1
    constructor
    · rw [answers, hcall, hanswers, List.mapIdx_cons, ← hfirst, ← hothers]
      simp [List.head?_eq_getElem?]
    · rw [after, List.foldl_cons, hcall]
      change words (line.word?.2.after calls).rest = _
      rw [hafter, ← hothers, List.drop_tail, List.length_cons]

/-! ### Texts in quotes -/

theorem skipBlanks_quote {blanks : List Char} (h : Blank blanks) (rest : List Char) :
    Text.skipBlanks (blanks ++ '"' :: rest) = '"' :: rest := by
  rw [Text.skipBlanks_append h, Text.skipBlanks_cons rfl]

/-- Behind a quote only the next one counts. -/
theorem string_of_quote {line : Line} {quoted : List Char}
    (h : Text.skipBlanks line.rest = '"' :: quoted) (command : String) :
    line.string command =
      match quoted.dropWhile (· != '"') with
      | [] => (.error (.quoted (String.ofList ('"' :: quoted))), line)
      | _ :: rest => (.ok (String.ofList (quoted.takeWhile (· != '"'))), ⟨rest⟩) := by
  unfold string
  rw [h]
  rfl

/-- **A text in quotes** is taken as it is, up to the first quote behind it. -/
theorem string_quoted {blanks name : List Char} (hblanks : Blank blanks) (hname : '"' ∉ name)
    (rest : List Char) (command : String) :
    string ⟨blanks ++ '"' :: (name ++ '"' :: rest)⟩ command = (.ok (String.ofList name), ⟨rest⟩) := by
  have hinside : ∀ c ∈ name, (c != '"') = true := fun c hc => by
    rw [bne_iff_ne]
    rintro rfl
    exact hname hc
  have hclosed : (name ++ '"' :: rest).dropWhile (· != '"') = '"' :: rest := by
    rw [List.dropWhile_append_of_pos hinside, List.dropWhile_cons_of_neg (by decide)]
  have htext : (name ++ '"' :: rest).takeWhile (· != '"') = name := by
    rw [List.takeWhile_append_of_pos hinside, List.takeWhile_cons_of_neg (by decide), List.append_nil]
  rw [string_of_quote (skipBlanks_quote hblanks _), hclosed, htext]

/-- A text whose closing quote is missing is refused, and nothing is taken. -/
theorem string_unclosed {line : Line} {blanks quoted : List Char}
    (hline : line.rest = blanks ++ '"' :: quoted) (hblanks : Blank blanks) (hquoted : '"' ∉ quoted)
    (command : String) :
    line.string command = (.error (.quoted (String.ofList ('"' :: quoted))), line) := by
  have hopen : quoted.dropWhile (· != '"') = [] := List.dropWhile_eq_nil_iff.mpr fun c hc => by
    rw [bne_iff_ne]
    rintro rfl
    exact hquoted hc
  have hskip : Text.skipBlanks line.rest = '"' :: quoted := hline ▸ skipBlanks_quote hblanks quoted
  rw [string_of_quote hskip, hopen]

/-! ### A line with a text in quotes -/

section

variable {lead first gap name gap' kind rest : List Char}

/-- A word, a text in quotes and another word, which may follow the closing quote at once. -/
theorem answers_quoted (hlead : Blank lead) (hfirst : IsWord first) (hgap : Blank gap)
    (hapart : gap ≠ []) (hname : '"' ∉ name) (hgap' : Blank gap') (hkind : IsWord kind)
    (hrest : Apart rest) (command : String) :
    (ofChars (lead ++ (first ++ (gap ++ '"' :: (name ++ '"' :: (gap' ++ (kind ++ rest))))))).answers
        [.keyword, .string command, .keyword] =
      [.keyword (upper (some first)), .text (.ok (String.ofList name)),
        .keyword (upper (some kind))] := by
  have hline : ofChars (lead ++ (first ++ (gap ++ '"' :: (name ++ '"' :: (gap' ++ (kind ++ rest)))))) =
      ⟨lead ++ (first ++ (gap ++ '"' :: (name ++ '"' :: (ofChars (gap' ++ (kind ++ rest))).rest)))⟩ := by
    have hkept := ofChars_append_cons (c := '"') (by decide) (lead ++ (first ++ (gap ++ '"' :: name)))
      (gap' ++ (kind ++ rest))
    simpa using hkept
  have hword : word? ⟨lead ++ (first ++ (gap ++
        '"' :: (name ++ '"' :: (ofChars (gap' ++ (kind ++ rest))).rest)))⟩ =
      (some first, ⟨gap ++ '"' :: (name ++ '"' :: (ofChars (gap' ++ (kind ++ rest))).rest)⟩) := by
    refine takes_iff.mp (.word hlead hfirst ?_)
    obtain ⟨c, tail, rfl⟩ := List.exists_cons_of_ne_nil hapart
    exact fun d hd => hgap d (by simp_all)
  have hlast : (ofChars (gap' ++ (kind ++ rest))).word?.1 = some kind := by
    rw [← (takes_word? _).words_eq.1, words_ofChars, Text.words_blank_append hgap',
      Text.words_append hkind hrest]
    rfl
  rw [hline]
  simp only [answers, call, keyword, hword, string_quoted hgap hname, hlast, upper]

end

/-- **What calls take.** Words in upper case are the words of the line in order, and then nothing for
ever. A text in quotes is given as it is, behind any white space, and what is behind its closing quote is
left as it is, so that a `FILE` line gives the name and the type; where the closing quote is missing the
line stays as it was. A call for a number or a position takes one word, or the white space that is left,
also where it fails. So in any sequence of calls, some of them failing, each takes the next word. -/
theorem takes_fields :
    (∀ text n, (ofChars text).answers (List.replicate n .keyword) =
      (List.range n).map fun i => .keyword (upper (words text)[i]?)) ∧
    (∀ blanks name rest command, Blank blanks → '"' ∉ name →
      string ⟨blanks ++ '"' :: (name ++ '"' :: rest)⟩ command = (.ok (String.ofList name), ⟨rest⟩) ∧
      (ofChars (blanks ++ '"' :: (name ++ '"' :: rest))).string command =
        (.ok (String.ofList name), ofChars rest)) ∧
    (∀ lead first gap name gap' kind rest command, Blank lead → IsWord first → Blank gap → gap ≠ [] →
      '"' ∉ name → Blank gap' → IsWord kind → Apart rest →
      (ofChars (lead ++ (first ++ (gap ++ '"' :: (name ++ '"' :: (gap' ++ (kind ++ rest))))))).answers
          [.keyword, .string command, .keyword] =
        [.keyword (upper (some first)), .text (.ok (String.ofList name)),
          .keyword (upper (some kind))]) ∧
    (∀ (line : Line) blanks quoted command, line.rest = blanks ++ '"' :: quoted → Blank blanks →
      '"' ∉ quoted → line.string command = (.error (.quoted (String.ofList ('"' :: quoted))), line)) ∧
    (∀ (line : Line) max command, ∃ word, line.Takes word (line.number max command).2 ∧
      (line.number max command).1 = word.elim (.error (.missingArgument command))
        fun w => (Text.Numeral.parse max w).mapError .number) ∧
    (∀ (line : Line) command, ∃ word, line.Takes word (line.frames command).2 ∧
      (line.frames command).1 = word.elim (.error (.missingArgument command))
        fun w => (position w).map Msf.toFrames) ∧
    ∀ (line : Line) (calls : List Call), (∀ k ∈ calls, k.TakesWord line.rest) →
      line.answers calls = calls.mapIdx (fun i k => k.answer (words line.rest)[i]?) ∧
      words (line.after calls).rest = (words line.rest).drop calls.length := by
  refine ⟨fun text n => ?_, fun blanks name rest command hblanks hname => ⟨?_, ?_⟩, ?_,
    fun line blanks quoted command hline hblanks hquoted => string_unclosed hline hblanks hquoted _,
    fun line max command => ⟨line.word?.1, ?_⟩, fun line command => ⟨line.word?.1, ?_⟩,
    fun line calls h => answers_eq h⟩
  · have hkeyword : ∀ k ∈ List.replicate n Call.keyword, k.TakesWord (ofChars text).rest := by
      intro k hk command hstring
      rw [List.eq_of_mem_replicate hk] at hstring
      cases hstring
    rw [(answers_eq hkeyword).1, words_ofChars]
    refine List.ext_getElem (by simp) fun i _ _ => ?_
    simp [Call.answer]
  · exact string_quoted hblanks hname rest command
  · have hkept := ofChars_append_cons (c := '"') (by decide) (blanks ++ '"' :: name) rest
    rw [List.append_assoc, List.cons_append] at hkept
    rw [hkept, List.append_assoc, List.cons_append]
    exact string_quoted hblanks hname _ command
  · intro lead first gap name gap' kind rest command hlead hfirst hgap hapart hname hgap' hkind hrest
    exact answers_quoted hlead hfirst hgap hapart hname hgap' hkind hrest command
  · rw [number, reading_eq]
    exact ⟨line.takes_word?, rfl⟩
  · rw [frames, reading_eq]
    exact ⟨line.takes_word?, rfl⟩

/-- A name with blanks in it, and a type that stands at the closing quote. -/
theorem takes_fields_file :
    Blank [] ∧ IsWord "file".toList ∧ Blank ['\t', ' '] ∧ '"' ∉ "a b\\".toList ∧ IsWord "wave".toList ∧
      (ofChars "file\t \"a b\\\"wave\r\r".toList).answers [.keyword, .string "FILE", .keyword] =
        [.keyword "FILE", .text (.ok "a b\\"), .keyword "WAVE"] := by
  have hnone : Blank [] := nofun
  have hfile : IsWord "file".toList := by decide
  have hgap : Blank ['\t', ' '] := by decide
  have hname : '"' ∉ "a b\\".toList := by decide
  have hwave : IsWord "wave".toList := by decide
  have hend : Apart ['\r', '\r'] := by decide
  exact ⟨hnone, hfile, hgap, hname, hwave,
    takes_fields.2.2.1 [] "file".toList ['\t', ' '] "a b\\".toList [] "wave".toList ['\r', '\r'] "FILE"
      hnone hfile hgap (by decide) hname hnone hwave hend⟩

end Line

end Sheet

end CompactDisc
