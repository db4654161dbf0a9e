import SatSearch.Csv.Record
import SatSearch.Proofs.Csv.Rows
import SatSearch.Proofs.Text.Encoding
import SatSearch.Proofs.Text.Numerals
/-!
# Tables read back

The special symbols are ASCII characters, so it is all one whether a table is written in characters and then encoded
or written in bytes (`bytes_renderRows`). What is read from the bytes of a table are its columns and its rows
(`table?_renderRows`), and counts, seeds and truth values are read from their texts.
-/

namespace SatSearch.Csv

open Encoding (bytes)

/-! ## Bytes of rows -/

theorem any_isSpecial_utf8EncodeChar (c : Char) :
    (String.utf8EncodeChar c).any (isSpecial byteSymbols) = isSpecial charSymbols c := by
  by_cases hspecial : c = ',' ∨ c = '"' ∨ c = '\r' ∨ c = '\n'
  · rcases hspecial with rfl | rfl | rfl | rfl <;> decide
  obtain ⟨hcomma, hquote, hreturn, hfeed⟩ : c ≠ ',' ∧ c ≠ '"' ∧ c ≠ '\r' ∧ c ≠ '\n' := by simpa using hspecial
  have hplain : isSpecial charSymbols c = false :=
    Scan.isSpecial_eq_false_iff.2 ⟨hcomma, hquote, hreturn, hfeed⟩
  rw [hplain, List.any_eq_false]
  intro b hb
  rw [Bool.not_eq_true, Scan.isSpecial_eq_false_iff]
  -- no byte of another character is one of these four
  refine ⟨?_, ?_, ?_, ?_⟩ <;> rintro rfl
  · exact Encoding.not_mem_utf8EncodeChar (a := ',') (by decide) hcomma hb
  · exact Encoding.not_mem_utf8EncodeChar (a := '"') (by decide) hquote hb
  · exact Encoding.not_mem_utf8EncodeChar (a := '\r') (by decide) hreturn hb
  · exact Encoding.not_mem_utf8EncodeChar (a := '\n') (by decide) hfeed hb

theorem any_isSpecial_bytes (field : List Char) :
    (bytes field).any (isSpecial byteSymbols) = field.any (isSpecial charSymbols) := by
  simp [bytes, List.any_flatMap, any_isSpecial_utf8EncodeChar]

theorem bytes_quoted (field : List Char) : bytes (quoted charSymbols field) = quoted byteSymbols (bytes field) := by
  have hinner : bytes (field.flatMap fun c => if c = charSymbols.quote then [c, c] else [c]) =
      (bytes field).flatMap fun b => if b = byteSymbols.quote then [b, b] else [b] := by
    rw [bytes, bytes, List.flatMap_assoc, List.flatMap_assoc]
    refine List.flatMap_congr fun c _ => ?_
    by_cases hc : c = '"'
    · subst hc
      decide
    · have hplain : ∀ b ∈ String.utf8EncodeChar c, (if b = byteSymbols.quote then [b, b] else [b]) = [b] := by
        intro b hb
        rw [if_neg]
        rintro rfl
        exact Encoding.not_mem_utf8EncodeChar (a := '"') (by decide) hc hb
      have hc' : c ≠ charSymbols.quote := hc
      rw [List.flatMap_congr hplain, if_neg hc']
      simp
  have hquote : bytes [charSymbols.quote] = [byteSymbols.quote] := by decide
  rw [quoted, quoted, Encoding.bytes_append, Encoding.bytes_cons, hinner, hquote]
  rfl

theorem bytes_renderField (field : List Char) :
    bytes (renderField charSymbols field) = renderField byteSymbols (bytes field) := by
  unfold renderField
  rw [any_isSpecial_bytes]
  split
  · exact bytes_quoted field
  · rfl

theorem bytes_renderRow : ∀ fields : List (List Char),
    bytes (renderRow charSymbols fields) = renderRow byteSymbols (fields.map bytes)
  | [] => by decide
  | [field] => by
    have hfeed : bytes [charSymbols.lineFeed] = [byteSymbols.lineFeed] := by decide
    simp [renderRow, Encoding.bytes_append, bytes_renderField, hfeed]
  | field :: other :: fields => by
    have ih := bytes_renderRow (other :: fields)
    have hcomma : ∀ rest, bytes (charSymbols.comma :: rest) = byteSymbols.comma :: bytes rest := fun _ => rfl
    simp only [List.map_cons] at ih
    simp [renderRow, Encoding.bytes_append, bytes_renderField, hcomma, ih]

/-- A table may be written before or after its fields are encoded. -/
theorem bytes_renderRows (rows : List (List (List Char))) :
    bytes (renderRows charSymbols rows) = renderRows byteSymbols (rows.map (·.map bytes)) := by
  have happend : ∀ l : List (List (List Char)),
      bytes (l.flatMap (renderRow charSymbols)) = l.flatMap fun row => bytes (renderRow charSymbols row) := by
    intro l
    rw [bytes, List.flatMap_assoc]
    rfl
  rw [renderRows, renderRows, happend, List.flatMap_map]
  exact List.flatMap_congr fun row _ => bytes_renderRow row

/-! ## Tables -/

theorem decode?_bytes (field : List Char) : decode? (bytes field) = some (String.ofList field) :=
  Encoding.fromUTF8?_eq_some_iff.2 (by rw [String.toList_ofList])

theorem mapM_eq_some_map {α β : Type} {f : α → Option β} {g : α → β} : ∀ {xs : List α},
    (∀ x ∈ xs, f x = some (g x)) → xs.mapM f = some (xs.map g)
  | [], _ => rfl
  | x :: xs, h => by
    obtain ⟨hx, hxs⟩ := List.forall_mem_cons.1 h
    simp [hx, mapM_eq_some_map hxs]

theorem mapM_decode?_bytes (fields : List (List Char)) :
    (fields.map bytes).mapM decode? = some (fields.map String.ofList) := by
  rw [List.mapM_map]
  exact mapM_eq_some_map fun field _ => decode?_bytes field

theorem mapM_mapM_decode?_bytes (rows : List (List (List Char))) :
    ((rows.map (·.map bytes)).mapM fun row => row.mapM decode?) = some (rows.map (·.map String.ofList)) := by
  rw [List.mapM_map]
  exact mapM_eq_some_map fun row _ => mapM_decode?_bytes row

theorem dropMark_of_head? {bs : List UInt8} (h : bs.head? ≠ some 0xef) : dropMark bs = bs := by
  unfold dropMark
  split
  · exact absurd rfl h
  · rfl

/-- The columns and the rows of a written table. Nothing is lost if there are two columns at least and the first of
them does not start with a byte order mark. -/
theorem table?_renderRows {header : List (List Char)} {table : List (List (List Char))} {b : UInt8}
    (hcolumns : 2 ≤ header.length) (hfirst : (bytes (renderRow charSymbols header)).head? = some b) (hmark : b ≠ 0xef)
    (hrows : ∀ row ∈ table, row.length = header.length) :
    table? (bytes (renderRows charSymbols (header :: table))) =
      some ⟨.named (header.map String.ofList), table.map (·.map String.ofList)⟩ := by
  have hhead : (bytes (renderRows charSymbols (header :: table))).head? ≠ some 0xef := by
    rw [renderRows, List.flatMap_cons, Encoding.bytes_append, List.head?_append, hfirst]
    simpa using hmark
  have hne : ∀ row ∈ (header :: table).map (·.map bytes), row ≠ [] ∧ row ≠ [[]] := by
    intro row hrow
    obtain ⟨fields, hfields, rfl⟩ := List.mem_map.1 hrow
    have hlength : 2 ≤ (fields.map bytes).length := by
      rw [List.length_map]
      rcases List.mem_cons.1 hfields with rfl | hfields
      · exact hcolumns
      · rw [hrows fields hfields]
        exact hcolumns
    constructor <;> intro hshort <;> simp [hshort] at hlength
  have hwidths : (table.map (·.map bytes)).all (·.length = (header.map bytes).length) = true := by
    simpa using hrows
  rw [table?, dropMark_of_head? hhead, bytes_renderRows, rows_renderRows distinct_byteSymbols hne, List.map_cons]
  dsimp only
  rw [if_pos hwidths, mapM_mapM_decode?_bytes, Columns.ofFields, mapM_decode?_bytes]
  rfl

/-! ## Fields -/

/-- A count is read from its decimal text, which is never taken for a hexadecimal one. -/
theorem count?_toString {n : Nat} (h : n < Numeral.countLimit) : count? (toString n) = some n := by
  have hplain : count? (toString n) = Numeral.count? (toString n).toList := by
    have hdigits : ∀ c ∈ (toString n).toList, c.isDigit = true := by
      rw [Numeral.toList_toString]
      exact fun c hc => Numeral.isDigit_of_mem_toDigits hc
    unfold count?
    split
    · next hx => exact absurd (hdigits 'x' (by rw [hx]; simp)) (by decide)
    · next hx => exact absurd (hdigits 'x' (by rw [hx]; simp)) (by decide)
    · rfl
  rw [hplain, Numeral.count?_toString, if_pos h]

theorem word?_toString (word : UInt64) : word? (toString word.toNat) = some word := by
  rw [word?, count?_toString word.toNat_lt, Option.map_some, UInt64.ofNat_toNat]

end SatSearch.Csv
