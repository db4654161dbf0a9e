import SatSearch.Proofs.Cnf.DimacsLines
import SatSearch.Proofs.Text.Encoding
/-!
# Reading bytes and reading text

Bytes are decoded line by line, so a line that is no text is noticed when it is reached and not before.
What is read is the same as from the decoded text, for two reasons that meet: the lines of a
text are texts and the other way round, and no line end is part of a token. Main statement: `read_exact`.
-/

namespace SatSearch

namespace Dimacs

open Pieces (pieces ended joined)

variable {p q : Progress} {line cs : List Char} {bs : List UInt8} {rows : List (List UInt8)}

/-! ## Line ends -/

theorem takeLine_congr (p : Progress) {line line' : List Char}
    (h : Blank.tokens line = Blank.tokens line') : p.takeLine line = p.takeLine line' := by
  rw [takeLine_eq_takeTokens, h, takeLine_eq_takeTokens]

theorem takeLine_newline (p : Progress) (line : List Char) :
    p.takeLine (line ++ ['\n']) = p.takeLine line :=
  takeLine_congr p (Blank.tokens_append_blanks (by simp [Blank.isBlank_newline]) line)

theorem takeLine_dropLineEnd (p : Progress) (line : List Char) :
    p.takeLine (Blank.dropLineEnd line) = p.takeLine line :=
  takeLine_congr p (Blank.tokens_dropLineEnd line)

/-- Lines with their ends say the same as the pieces between the newlines. -/
theorem foldl_takeLine_ended (p : Progress) (cs : List Char) :
    (ended '\n' cs).foldl Progress.takeLine p = (pieces '\n' cs).foldl Progress.takeLine p := by
  obtain ⟨lines, last, hpieces, hended⟩ := Pieces.exists_pieces_ended '\n' cs
  have hnil : ∀ p : Progress, p.takeLine [] = p := fun _ => rfl
  rw [hpieces, hended, List.foldl_append, List.foldl_append, List.foldl_map]
  simp only [takeLine_newline]
  by_cases hlast : last = [] <;> simp [hlast, hnil]

theorem foldl_takeLine_dropLineEnd (p : Progress) (cs : List Char) :
    ((ended '\n' cs).map Blank.dropLineEnd).foldl Progress.takeLine p =
      (pieces '\n' cs).foldl Progress.takeLine p := by
  rw [List.foldl_map]
  simp only [takeLine_dropLineEnd]
  exact foldl_takeLine_ended p cs

/-! ## Decoding -/

theorem decodeLine_eq_ok_iff : decodeLine bs = .ok line ↔ bs = Encoding.bytes line := by
  unfold decodeLine
  constructor
  · intro h
    split at h
    · next text htext =>
      cases h
      exact Encoding.fromUTF8?_eq_some_iff.1 htext
    · cases h
  · intro h
    have htext : String.fromUTF8? ⟨bs.toArray⟩ = some (String.ofList line) :=
      Encoding.fromUTF8?_eq_some_iff.2 (by simp [h])
    simp [htext]

theorem decodeLine_eq_error {e : ReadError} (h : decodeLine bs = .error e) : e = .notText := by
  unfold decodeLine at h
  split at h
  · cases h
  · cases h
    rfl

/-- Reading rows of bytes succeeds on encoded lines and on nothing else. -/
theorem takeBytes_eq_ok_iff : p.takeBytes rows = .ok q ↔
    ∃ lines : List (List Char), rows = lines.map Encoding.bytes ∧ lines.foldl Progress.takeLine p = q := by
  induction rows generalizing p with
  | nil =>
    constructor
    · intro h
      cases h
      exact ⟨[], rfl, rfl⟩
    · rintro ⟨lines, hlines, rfl⟩
      rw [List.map_eq_nil_iff.1 hlines.symm]
      rfl
  | cons row rows ih =>
    rw [Progress.takeBytes]
    constructor
    · intro h
      split at h
      · next line hline =>
        obtain ⟨lines, rfl, hq⟩ := ih.1 h
        exact ⟨line :: lines, by simp [decodeLine_eq_ok_iff.1 hline], hq⟩
      · cases h
    · rintro ⟨_ | ⟨line, lines⟩, hlines, hq⟩
      · cases hlines
      · obtain ⟨hrow, hrows⟩ := List.cons.inj hlines
        rw [decodeLine_eq_ok_iff.2 hrow]
        exact ih.2 ⟨lines, hrows, hq⟩

theorem takeBytes_eq_error {e : ReadError} (h : p.takeBytes rows = .error e) : e = .notText := by
  induction rows generalizing p with
  | nil => cases h
  | cons row rows ih =>
    rw [Progress.takeBytes] at h
    split at h
    · exact ih h
    · next e' he =>
      cases h
      exact decodeLine_eq_error he

/-! ## Both readers -/

variable {bytes : ByteArray}

/-- Encoded text is read, whichever way its lines are cut. -/
theorem takeBytes_of_bytes (h : bytes.data.toList = Encoding.bytes cs) :
    p.takeBytes (pieces 10 bytes.data.toList) = .ok ((pieces '\n' cs).foldl Progress.takeLine p) ∧
    p.takeBytes (ended 10 bytes.data.toList) = .ok ((pieces '\n' cs).foldl Progress.takeLine p) := by
  rw [h, Encoding.pieces_bytes, Encoding.ended_bytes, ← foldl_takeLine_ended p cs]
  exact ⟨takeBytes_eq_ok_iff.2 ⟨_, rfl, (foldl_takeLine_ended p cs).symm⟩, takeBytes_eq_ok_iff.2 ⟨_, rfl, rfl⟩⟩

/-- What is no text has a line that is none, whichever way its lines are cut. -/
theorem takeBytes_of_not_isValidUTF8 (h : ¬ bytes.IsValidUTF8) :
    p.takeBytes (pieces 10 bytes.data.toList) = .error .notText ∧
    p.takeBytes (ended 10 bytes.data.toList) = .error .notText := by
  have hread : ∀ rows, (∀ lines : List (List Char), rows ≠ lines.map Encoding.bytes) →
      p.takeBytes rows = .error .notText := by
    intro rows hrows
    cases hq : p.takeBytes rows with
    | error e => rw [takeBytes_eq_error hq]
    | ok q =>
      obtain ⟨lines, hlines, -⟩ := takeBytes_eq_ok_iff.1 hq
      exact absurd hlines (hrows lines)
  constructor
  · refine hread _ fun lines hlines => h (Encoding.isValidUTF8_iff.2 ⟨joined '\n' lines, ?_⟩)
    rw [← Encoding.joined_bytes, ← hlines, Pieces.joined_pieces]
  · refine hread _ fun lines hlines => h (Encoding.isValidUTF8_iff.2 ⟨lines.flatten, ?_⟩)
    rw [Encoding.bytes_flatten, ← hlines, Pieces.flatten_ended]

theorem read_toUTF8 (text : String) : read text.toUTF8 = .ok (parse text) := by
  have h := (takeBytes_of_bytes (p := {}) (Encoding.bytes_toList text).symm).1
  rw [read, h]
  rfl

theorem eq_parse_of_read {text : String} {inst : Instance} (h : read text.toUTF8 = .ok inst) :
    inst = parse text := by
  rw [read_toUTF8] at h
  exact (Except.ok.inj h).symm

/-- **Bytes are read as the text that they encode.** Whatever the line ends and the white space are, what
is read from the encoding of a text is what is read from the text, with the declared sizes and the
formula; bytes that encode no text are refused. It makes no difference either that lines of bytes come with
their newlines and lines of text without their line ends. -/
theorem read_exact (bytes : ByteArray) :
    (∀ text : String, bytes = text.toUTF8 → read bytes = .ok (parse text)) ∧
    (¬ bytes.IsValidUTF8 → read bytes = .error .notText) ∧
    read bytes = Progress.finish <$> Progress.takeBytes {} (ended 10 bytes.data.toList) ∧
    ∀ text : String, parse text =
      (((ended '\n' text.toList).map Blank.dropLineEnd).foldl Progress.takeLine {}).finish := by
  refine ⟨?_, ?_, ?_, ?_⟩
  · rintro text rfl
    exact read_toUTF8 text
  · intro h
    rw [read, (takeBytes_of_not_isValidUTF8 h).1]
  · rw [read]
    by_cases h : bytes.IsValidUTF8
    · obtain ⟨cs, hcs⟩ := Encoding.isValidUTF8_iff.1 h
      obtain ⟨hpieces, hended⟩ := takeBytes_of_bytes (p := {}) hcs
      rw [hpieces, hended]
      rfl
    · obtain ⟨hpieces, hended⟩ := takeBytes_of_not_isValidUTF8 (p := {}) h
      rw [hpieces, hended]
      rfl
  · intro text
    rw [foldl_takeLine_dropLineEnd, parse]

/-- Line ends of both kinds, a carriage return and a wide blank within lines, and no last newline. -/
def mixedText : String := "p cnf 3 2\r\n\u2003-1\r2\r\n\n3"

theorem read_exact_mixed :
    read mixedText.toUTF8 =
      .ok ⟨some 3, some 2, .ofClauses #[⟨[⟨0, false⟩, ⟨1, true⟩]⟩, ⟨[⟨2, true⟩]⟩]⟩ ∧
    ¬ ByteArray.IsValidUTF8 ⟨#[49, 10, 255]⟩ ∧ read ⟨#[49, 10, 255]⟩ = .error .notText := by
  have hparse : parse mixedText =
      ⟨some 3, some 2, .ofClauses #[⟨[⟨0, false⟩, ⟨1, true⟩]⟩, ⟨[⟨2, true⟩]⟩]⟩ := by decide +kernel
  have hinvalid : ¬ ByteArray.IsValidUTF8 ⟨#[49, 10, 255]⟩ := by decide +kernel
  refine ⟨?_, hinvalid, (read_exact _).2.1 hinvalid⟩
  rw [(read_exact mixedText.toUTF8).1 mixedText rfl, hparse]

end Dimacs

end SatSearch
