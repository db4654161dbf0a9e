import SatSearch.Proofs.Text.Lines
/-!
# Lines of encoded text

In UTF-8 the byte 10 is a newline and nothing else: no character has the byte of an ASCII character other than
itself among its bytes (`not_mem_utf8EncodeChar`). So a text may be cut into lines before or after it is encoded
(`pieces_bytes`, `ended_bytes`), and bytes are a text just if each of their lines is one.
-/

namespace SatSearch

namespace Encoding

open Pieces

variable {c : Char} {cs : List Char} {bs : List UInt8}

/-- The bytes of characters in UTF-8. -/
def bytes (cs : List Char) : List UInt8 := cs.flatMap String.utf8EncodeChar

theorem bytes_cons (c : Char) (cs : List Char) : bytes (c :: cs) = String.utf8EncodeChar c ++ bytes cs :=
  List.flatMap_cons

theorem bytes_append (cs ds : List Char) : bytes (cs ++ ds) = bytes cs ++ bytes ds := by
  simp [bytes]

theorem bytes_flatten (lines : List (List Char)) : bytes lines.flatten = (lines.map bytes).flatten := by
  induction lines with
  | nil => rfl
  | cons line lines ih => simp [bytes_append, ih]

theorem length_le_length_bytes (cs : List Char) : cs.length ≤ (bytes cs).length := by
  induction cs with
  | nil => simp
  | cons c cs ih =>
    have hpos := c.utf8Size_pos
    simp [bytes_cons]
    omega

/-! ## Texts -/

theorem toList_loop (b : ByteArray) (i : Nat) (before : List UInt8) :
    ByteArray.toList.loop b i before = before.reverse ++ b.data.toList.drop i := by
  fun_induction ByteArray.toList.loop b i before with
  | case1 i before h ih =>
    have hi : i < b.data.toList.length := h
    have hget : b.get! i = b.data.toList[i] := by
      rw [Array.length_toList] at hi
      rw [Array.getElem_toList, ← getElem!_pos b.data i hi]
      rfl
    rw [ih, List.reverse_cons, List.append_assoc, List.singleton_append, hget, List.drop_eq_getElem_cons hi]
  | case2 i before h =>
    have hi : b.data.toList.length ≤ i := Nat.le_of_not_lt h
    rw [List.drop_eq_nil_of_le hi, List.append_nil]

theorem toList_byteArray (b : ByteArray) : b.toList = b.data.toList := toList_loop b 0 []

theorem bytes_toList (text : String) : bytes text.toList = text.toUTF8.data.toList := by
  have h := congrArg (fun b : ByteArray => b.data.toList) (String.utf8Encode_toList (b := text))
  simpa [List.utf8Encode, bytes] using h

theorem isValidUTF8_iff {b : ByteArray} : b.IsValidUTF8 ↔ ∃ cs, b.data.toList = bytes cs := by
  constructor
  · rintro ⟨cs, rfl⟩
    exact ⟨cs, by simp [List.utf8Encode, bytes]⟩
  · rintro ⟨cs, h⟩
    refine ⟨cs, ByteArray.ext (Array.toList_inj.1 ?_)⟩
    rw [h]
    simp [List.utf8Encode, bytes]

theorem exists_eq_toUTF8 {b : ByteArray} (h : b.IsValidUTF8) : ∃ text : String, b = text.toUTF8 :=
  ⟨.fromUTF8 b h, rfl⟩

theorem fromUTF8?_eq_some_iff {text : String} :
    String.fromUTF8? ⟨bs.toArray⟩ = some text ↔ bs = bytes text.toList := by
  rw [bytes_toList]
  unfold String.fromUTF8?
  constructor
  · intro h
    split at h
    · cases h
      rfl
    · cases h
  · rintro rfl
    have hvalid : ByteArray.IsValidUTF8 ⟨text.toUTF8.data.toList.toArray⟩ := text.isValidUTF8
    rw [dif_pos hvalid]
    rfl

/-! ## Newlines -/

theorem utf8EncodeChar_newline : String.utf8EncodeChar '\n' = [10] := by decide

theorem bytes_newline : bytes ['\n'] = [10] := by simp [bytes, utf8EncodeChar_newline]

/-- No other character has the byte of an ASCII character among its own. -/
theorem not_mem_utf8EncodeChar {a : Char} (ha : a.toNat < 128) (h : c ≠ a) :
    UInt8.ofNat a.toNat ∉ String.utf8EncodeChar c := by
  have hne : c.toNat ≠ a.toNat := fun hsame => h (Char.toNat_inj.1 hsame)
  have hval : c.val.toNat = c.toNat := rfl
  have hbyte : ∀ n : Nat, n % 256 ≠ a.toNat → UInt8.ofNat a.toNat ≠ UInt8.ofNat n := by
    intro n hn hsame
    have := congrArg UInt8.toNat hsame
    simp at this
    omega
  -- the bytes of a longer code are all at least 128
  fun_cases String.utf8EncodeChar c
  all_goals
    simp only [List.mem_cons, List.not_mem_nil, or_false, not_or]
    and_intros
  all_goals
    apply hbyte
    omega

theorem pieces_bytes (cs : List Char) : pieces 10 (bytes cs) = (pieces '\n' cs).map bytes := by
  induction cs with
  | nil => rfl
  | cons c cs ih =>
    by_cases hc : c = '\n'
    · subst hc
      rw [bytes_cons, utf8EncodeChar_newline, List.singleton_append, pieces_separator, pieces_separator, ih]
      rfl
    · have hnew : 10 ∉ String.utf8EncodeChar c := not_mem_utf8EncodeChar (by decide) hc
      rw [bytes_cons, pieces_append_of_not_mem hnew, pieces_cons hc, ih]
      cases pieces '\n' cs <;> simp [extendFirst, bytes]

/-- Lines of texts make up a text. -/
theorem joined_bytes : ∀ lines : List (List Char), joined 10 (lines.map bytes) = bytes (joined '\n' lines)
  | [] => rfl
  | [line] => rfl
  | line :: line' :: lines => by
    have ih := joined_bytes (line' :: lines)
    have hnewline : bytes ('\n' :: joined '\n' (line' :: lines)) =
        10 :: bytes (joined '\n' (line' :: lines)) := by
      rw [bytes_cons, utf8EncodeChar_newline]
      rfl
    rw [joined, bytes_append, hnewline, ← ih]
    · rfl
    · simp

theorem ended_bytes (cs : List Char) : ended 10 (bytes cs) = (ended '\n' cs).map bytes := by
  obtain ⟨ps, last, hpieces, hended⟩ := exists_pieces_ended '\n' cs
  obtain ⟨qs, end', hpieces', hended'⟩ := exists_pieces_ended 10 (bytes cs)
  have hcut : qs ++ [end'] = ps.map bytes ++ [bytes last] := by
    rw [← hpieces', pieces_bytes, hpieces]
    simp
  obtain ⟨rfl, hlast⟩ := List.append_inj' hcut rfl
  obtain rfl := List.singleton_inj.1 hlast
  have hnil : bytes last = [] ↔ last = [] := by
    have := length_le_length_bytes last
    constructor
    · intro h
      rw [h] at this
      exact List.length_eq_zero_iff.1 (by simpa using this)
    · rintro rfl
      rfl
  have hline : bytes ∘ (· ++ ['\n']) = (· ++ [10]) ∘ bytes := by
    funext line
    simp [bytes_append, bytes_newline]
  simp only [hended, hended', hnil, List.map_append, List.map_map, hline]
  by_cases h : last = [] <;> simp [h]

end Encoding

end SatSearch
