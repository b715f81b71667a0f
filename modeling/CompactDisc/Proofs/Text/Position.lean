import CompactDisc.Proofs.Disc.Positions
import CompactDisc.Proofs.Text.Numeral
import CompactDisc.Sheet.Line

/-!
# CompactDisc.Proofs.Text.Position

**Positions as text.** A word is read as a position exactly if it is three numbers between colons, none
of which exceeds a byte, and every other word is refused as it stands (`Sheet.Line.position_reads`). A
position is read back from its text, and a number of frames from the text of its position as long as the
minute fits in its byte.
-/

namespace CompactDisc

namespace Msf

/-- A text that stands for three numbers: their texts, with a colon between each two. -/
def Denotes (text : List Char) (minute second frame : Nat) : Prop :=
  ∃ m s f, text = m ++ ':' :: (s ++ ':' :: f) ∧ Text.Numeral.Denotes m minute ∧
    Text.Numeral.Denotes s second ∧ Text.Numeral.Denotes f frame

/-- No colon is in a number. -/
theorem colon_not_mem {text : List Char} {n : Nat} (h : Text.Numeral.Denotes text n) : ':' ∉ text := by
  intro hcolon
  cases h with
  | plain _ hdigits => exact absurd (hdigits ':' hcolon) (by decide)
  | plus _ hdigits =>
    rcases List.mem_cons.mp hcolon with heq | hcolon
    · exact absurd heq (by decide)
    · exact absurd (hdigits ':' hcolon) (by decide)

/-- Three texts without a colon are the pieces of what they are joined to. -/
theorem pieces_eq_iff {text m s f : List Char} :
    pieces ':' text = [m, s, f] ↔
      text = m ++ ':' :: (s ++ ':' :: f) ∧ ':' ∉ m ∧ ':' ∉ s ∧ ':' ∉ f := by
  have hjoin : List.intercalate [':'] [m, s, f] = m ++ ':' :: (s ++ ':' :: f) := by
    simp [List.intercalate, List.intersperse]
  constructor
  · intro h
    have htext := pieces.intercalate_eq ':' text
    have hpieces : ∀ piece ∈ [m, s, f], ':' ∉ piece := h ▸ fun piece => pieces.not_mem_of_mem ':'
    rw [h, hjoin] at htext
    exact ⟨htext.symm, by simpa using hpieces⟩
  · rintro ⟨rfl, hm, hs, hf⟩
    rw [← hjoin]
    exact pieces.of_intercalate ':' (by simp) (by simp [hm, hs, hf])

/-- A part is read exactly if it is the text of a byte. -/
theorem part?_eq_some_iff {text : List Char} {b : UInt8} :
    part? text = some b ↔ Text.Numeral.Denotes text b.toNat := by
  have hbyte : b.toNat ≤ Text.Numeral.max8 := Nat.le_of_lt_succ b.toNat_lt
  rw [part?, Option.map_eq_some_iff]
  constructor
  · rintro ⟨n, hn, rfl⟩
    obtain ⟨hdenotes, hle⟩ := Text.Numeral.parse_ok_iff.mp (toOption_eq_some_iff.mp hn)
    rwa [UInt8.toNat_ofNat_of_lt' (Nat.lt_succ_of_le hle)]
  · intro h
    exact ⟨b.toNat, toOption_eq_some_iff.mpr (Text.Numeral.parse_ok_iff.mpr ⟨h, hbyte⟩),
      UInt8.ofNat_toNat⟩

/-- **A text is read as a position** exactly if it denotes its three bytes. -/
theorem parse?_eq_some_iff {text : List Char} {p : Msf} :
    parse? text = some p ↔ Denotes text p.minute.toNat p.second.toNat p.frame.toNat := by
  constructor
  · intro h
    unfold parse? at h
    split at h
    · rename_i m s f hpieces
      simp only [bind, Option.bind_eq_some_iff, Option.some.injEq] at h
      obtain ⟨minute, hm, second, hs, frame, hf, rfl⟩ := h
      exact ⟨m, s, f, (pieces_eq_iff.mp hpieces).1, part?_eq_some_iff.mp hm,
        part?_eq_some_iff.mp hs, part?_eq_some_iff.mp hf⟩
    · cases h
  · rintro ⟨m, s, f, htext, hm, hs, hf⟩
    have hpieces := pieces_eq_iff.mpr ⟨htext, colon_not_mem hm, colon_not_mem hs, colon_not_mem hf⟩
    unfold parse?
    rw [hpieces]
    dsimp only
    rw [part?_eq_some_iff.mpr hm, part?_eq_some_iff.mpr hs, part?_eq_some_iff.mpr hf]
    rfl

/-! ### Writing -/

theorem denotes_twoDigits (b : UInt8) : Text.Numeral.Denotes (twoDigits b).toList b.toNat := by
  unfold twoDigits
  split
  · rw [String.toList_append]
    exact Text.Numeral.denotes_zeros 1 b.toNat
  · exact Text.Numeral.denotes_zeros 0 b.toNat

/-- The text of a position denotes it. -/
theorem denotes_text (p : Msf) :
    Denotes p.text.toList p.minute.toNat p.second.toNat p.frame.toNat := by
  refine ⟨_, _, _, ?_, denotes_twoDigits p.minute, denotes_twoDigits p.second,
    denotes_twoDigits p.frame⟩
  simp [text, String.toList_append]

/-- A number of frames comes back from its position as long as the minute fits in its byte. -/
theorem toFrames_ofFrames_iff {n : Nat} : (ofFrames n).toFrames = n ↔ n < period := by
  rw [toFrames_ofFrames]
  constructor
  · intro h
    rw [← h]
    exact Nat.mod_lt _ (by decide)
  · exact Nat.mod_eq_of_lt

end Msf

namespace Sheet.Line

/-- A position that is written is read. -/
theorem position_text (p : Msf) : position p.text.toList = .ok p := by
  rw [position, Msf.parse?_eq_some_iff.mpr p.denotes_text]

/-- **Positions are read exactly where they are written.** A word is a position if it is three texts of
numbers up to 255 with colons between them, and gives these numbers; every other word is refused and
named. Every position is read back from its text, and a number of frames, which is counted by
seconds of 75 and minutes of 60 seconds, comes back from its position and from the text of it exactly
below 1152000, where the minute no longer fits in its byte. -/
theorem position_reads :
    (∀ word p, position word = .ok p ↔
      Msf.Denotes word p.minute.toNat p.second.toNat p.frame.toNat) ∧
    (∀ word, position word = .error (.position (String.ofList word)) ↔
      ¬ ∃ m s f, m ≤ 255 ∧ s ≤ 255 ∧ f ≤ 255 ∧ Msf.Denotes word m s f) ∧
    (∀ p : Msf, p.toFrames = (p.minute.toNat * 60 + p.second.toNat) * 75 + p.frame.toNat) ∧
    (∀ p : Msf, position p.text.toList = .ok p) ∧
    ∀ n, ((Msf.ofFrames n).toFrames = n ↔ n < 1152000) ∧
      ((position (Msf.ofFrames n).text.toList).map Msf.toFrames = .ok n ↔ n < 1152000) := by
  have hreads : ∀ word p, position word = .ok p ↔
      Msf.Denotes word p.minute.toNat p.second.toNat p.frame.toNat := by
    intro word p
    rw [← Msf.parse?_eq_some_iff, position]
    cases Msf.parse? word <;> simp
  refine ⟨hreads, fun word => ?_, fun p => rfl, position_text, fun n => ?_⟩
  · have hbyte : ∀ n ≤ 255, (UInt8.ofNat n).toNat = n := fun n hn =>
      UInt8.toNat_ofNat_of_lt' (Nat.lt_succ_of_le hn)
    constructor
    · rintro hrefused ⟨m, s, f, hm, hs, hf, hdenotes⟩
      have hok := (hreads word ⟨.ofNat m, .ofNat s, .ofNat f⟩).mpr
        (by rwa [hbyte m hm, hbyte s hs, hbyte f hf])
      cases hrefused.symm.trans hok
    · intro hnone
      cases hparse : Msf.parse? word with
      | none => rw [position, hparse]
      | some p =>
        have hdenotes := Msf.parse?_eq_some_iff.mp hparse
        exact absurd ⟨_, _, _, Nat.le_of_lt_succ p.minute.toNat_lt, Nat.le_of_lt_succ p.second.toNat_lt,
          Nat.le_of_lt_succ p.frame.toNat_lt, hdenotes⟩ hnone
  · rw [position_text, Except.map, Except.ok.injEq]
    exact ⟨Msf.toFrames_ofFrames_iff, Msf.toFrames_ofFrames_iff⟩

end Sheet.Line

end CompactDisc
