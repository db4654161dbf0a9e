import SatSearch.Proofs.Json.Scalars
/-!
# Texts of values

`Spells` says which texts stand for a value: counts and strings as they are printed, and blanks anywhere between
the parts of arrays and objects. The reader takes each of them for that value and stops right behind it
(`reads`), so whatever stands in a whole text is found (`parse?_of_spells`).
-/

namespace SatSearch.Json

variable {c : Char} {bs cs rest : List Char} {v : Value} {items : List Value}
  {members : List (Option String × Value)} {limit : Nat}

def Blank (cs : List Char) : Prop := ∀ c ∈ cs, isBlank c = true

mutual

/-- The characters stand for the value, with no blanks around them. -/
inductive Spells : List Char → Value → Prop
  | null : Spells ['n', 'u', 'l', 'l'] .null
  | yes : Spells ['t', 'r', 'u', 'e'] (.bool true)
  | no : Spells ['f', 'a', 'l', 's', 'e'] (.bool false)
  | count (n : Nat) : Spells (Nat.toDigits 10 n) (.ofNat n)
  | text (s : String) : Spells (quote s.toList) (.ofText s)
  | noItems {bs : List Char} : Blank bs → Spells ('[' :: (bs ++ [']'])) (.array [])
  | array {bs cs : List Char} {items : List Value} : Blank bs → SpellsItems cs items →
      Spells ('[' :: (bs ++ cs)) (.array items)
  | noMembers {bs : List Char} : Blank bs → Spells ('\x7b' :: (bs ++ ['\x7d'])) (.object [])
  | object {bs cs : List Char} {members : List (Option String × Value)} : Blank bs → SpellsMembers cs members →
      Spells ('\x7b' :: (bs ++ cs)) (.object members)

/-- The characters stand for one or more items and the closing bracket. -/
inductive SpellsItems : List Char → List Value → Prop
  | last {cs bs : List Char} {v : Value} : Spells cs v → Blank bs → SpellsItems (cs ++ (bs ++ [']'])) [v]
  | more {cs bs bs' ds : List Char} {v : Value} {items : List Value} : Spells cs v → Blank bs → Blank bs' →
      SpellsItems ds items → SpellsItems (cs ++ (bs ++ ',' :: (bs' ++ ds))) (v :: items)

/-- The characters stand for a key, a colon and a value. -/
inductive SpellsMember : List Char → Option String × Value → Prop
  | mk {bs bs' cs : List Char} {key : String} {v : Value} : Blank bs → Blank bs' → Spells cs v →
      SpellsMember (quote key.toList ++ (bs ++ ':' :: (bs' ++ cs))) (some key, v)

/-- The characters stand for one or more members and the closing brace. -/
inductive SpellsMembers : List Char → List (Option String × Value) → Prop
  | last {cs bs : List Char} {m : Option String × Value} : SpellsMember cs m → Blank bs →
      SpellsMembers (cs ++ (bs ++ ['\x7d'])) [m]
  | more {cs bs bs' ds : List Char} {m : Option String × Value} {members : List (Option String × Value)} :
      SpellsMember cs m → Blank bs → Blank bs' → SpellsMembers ds members →
      SpellsMembers (cs ++ (bs ++ ',' :: (bs' ++ ds))) (m :: members)

end

/-! ## Blanks -/

theorem isBlank_iff : isBlank c = true ↔ c = ' ' ∨ c = '\t' ∨ c = '\n' ∨ c = '\r' := by
  simp [isBlank, or_assoc]

theorem skipBlanks_append (hbs : Blank bs) (cs : List Char) : skipBlanks (bs ++ cs) = skipBlanks cs :=
  List.dropWhile_append_of_pos hbs

theorem skipBlanks_cons (hc : isBlank c = false) (cs : List Char) : skipBlanks (c :: cs) = c :: cs := by
  simp [skipBlanks, hc]

theorem skipBlanks_append_cons (hbs : Blank bs) (hc : isBlank c = false) (cs : List Char) :
    skipBlanks (bs ++ c :: cs) = c :: cs := by
  rw [skipBlanks_append hbs, skipBlanks_cons hc]

theorem numberEnds_append (hbs : Blank bs) (hrest : NumberEnds rest) : NumberEnds (bs ++ rest) := by
  cases bs with
  | nil => exact hrest
  | cons b bs =>
    intro c hc
    cases hc
    rcases isBlank_iff.1 (hbs b List.mem_cons_self) with rfl | rfl | rfl | rfl <;> decide

theorem numberEnds_cons (hdigit : c.isDigit = false) (hne : c ≠ '.' ∧ c ≠ 'e' ∧ c ≠ 'E') :
    NumberEnds (c :: cs) := by
  intro d hd
  cases hd
  exact ⟨hdigit, hne⟩

/-- A value begins with a character that neither a blank nor a closing bracket is. -/
theorem Spells.exists_cons (h : Spells cs v) : ∃ c ds, cs = c :: ds ∧ isBlank c = false ∧ c ≠ ']' := by
  cases h with
  | count n =>
    obtain ⟨c, ds, hcs, hc⟩ := Numeral.exists_toDigits n
    refine ⟨c, ds, hcs, ?_, ?_⟩
    · rw [← Bool.not_eq_true, isBlank_iff]
      rintro (rfl | rfl | rfl | rfl) <;> exact absurd hc (by decide)
    · rintro rfl
      exact absurd hc (by decide)
  | text s => exact ⟨'"', s.toList.flatMap escape ++ ['"'], rfl, by decide, by decide⟩
  | _ => exact ⟨_, _, rfl, by decide, by decide⟩

theorem SpellsItems.exists_cons (h : SpellsItems cs items) :
    ∃ c ds, cs = c :: ds ∧ isBlank c = false ∧ c ≠ ']' := by
  cases h with
  | last hv =>
    obtain ⟨c, ds, rfl, hc⟩ := hv.exists_cons
    exact ⟨c, _, rfl, hc⟩
  | more hv =>
    obtain ⟨c, ds, rfl, hc⟩ := hv.exists_cons
    exact ⟨c, _, rfl, hc⟩

theorem SpellsMembers.exists_cons (h : SpellsMembers cs members) : ∃ ds, cs = '"' :: ds := by
  cases h with
  | last hm =>
    cases hm with
    | mk => exact ⟨_, rfl⟩
  | more hm =>
    cases hm with
    | mk => exact ⟨_, rfl⟩

/-! ## Reading -/

/-- With this limit the reader takes every text of a value that is no longer. -/
def ReadsValues (limit : Nat) : Prop := ∀ ⦃cs v bs rest⦄, Spells cs v → cs.length ≤ limit → Blank bs →
  NumberEnds rest → value? limit (bs ++ (cs ++ rest)) = some (v, rest)

def ReadsItems (limit : Nat) : Prop := ∀ ⦃cs items bs rest⦄, SpellsItems cs items → cs.length ≤ limit →
  Blank bs → items? limit (bs ++ (cs ++ rest)) = some (items, rest)

def ReadsMembers (limit : Nat) : Prop := ∀ ⦃cs members bs rest⦄, SpellsMembers cs members →
  cs.length ≤ limit → Blank bs → members? limit (bs ++ (cs ++ rest)) = some (members, rest)

section

variable {d : Char} {ds es : List Char}

theorem value?_digit (h : skipBlanks cs = c :: ds) (hc : c.isDigit = true) :
    value? (limit + 1) cs = (number? (c :: ds)).map fun (spelling, rest) => (.number spelling, rest) := by
  rw [value?, h]
  split
  all_goals try (next heq => cases heq; exact absurd hc (by decide))
  rfl

theorem value?_quote (h : skipBlanks cs = '"' :: ds) :
    value? (limit + 1) cs = (string? ds).map fun (text, rest) => (.string text, rest) := by
  simp [value?, h]

theorem value?_noItems (h : skipBlanks cs = '[' :: ds) (hds : skipBlanks ds = ']' :: rest) :
    value? (limit + 1) cs = some (.array [], rest) := by
  simp [value?, h, hds]

theorem value?_items (h : skipBlanks cs = '[' :: ds) (hds : skipBlanks ds = d :: es) (hd : d ≠ ']') :
    value? (limit + 1) cs = (items? limit (d :: es)).map fun (items, rest) => (.array items, rest) := by
  simp [value?, h, hds, hd]

theorem value?_noMembers (h : skipBlanks cs = '\x7b' :: ds) (hds : skipBlanks ds = '\x7d' :: rest) :
    value? (limit + 1) cs = some (.object [], rest) := by
  simp [value?, h, hds]

theorem value?_members (h : skipBlanks cs = '\x7b' :: ds) (hds : skipBlanks ds = '"' :: es) :
    value? (limit + 1) cs = (members? limit ('"' :: es)).map fun (members, rest) => (.object members, rest) := by
  simp [value?, h, hds]

end

theorem readsValues_succ (hitems : ReadsItems limit) (hmembers : ReadsMembers limit) :
    ReadsValues (limit + 1) := by
  intro cs v bs rest h hlimit hbs hrest
  -- the kind of the value is told by its first character, with which the blanks in front come to an end
  obtain ⟨c, ds, hcs, hc, -⟩ := h.exists_cons
  have hskip : skipBlanks (bs ++ (cs ++ rest)) = cs ++ rest := by
    rw [hcs]
    exact skipBlanks_append_cons hbs hc _
  cases h with
  | null => rw [value?, hskip]; rfl
  | yes => rw [value?, hskip]; rfl
  | no => rw [value?, hskip]; rfl
  | count n =>
    have hdigit : c.isDigit = true := by
      apply Numeral.isDigit_of_mem_toDigits (n := n)
      rw [hcs]
      exact List.mem_cons_self
    rw [hcs, List.cons_append] at hskip
    rw [hcs, List.cons_append, value?_digit hskip hdigit, ← List.cons_append, ← hcs, number?_toDigits n hrest,
      Value.ofNat, Numeral.toList_toString]
    rfl
  | text s =>
    have hquote : quote s.toList ++ rest = '"' :: (s.toList.flatMap escape ++ '"' :: rest) := by simp [quote]
    rw [value?_quote (hskip.trans hquote), string?_quote]
    rfl
  | @noItems bs' hbs' =>
    have hinner : skipBlanks (bs' ++ [']'] ++ rest) = ']' :: rest := by
      rw [List.append_assoc]
      exact skipBlanks_append_cons hbs' (by decide) _
    exact value?_noItems hskip hinner
  | @array bs' cs' items hbs' hspells =>
    obtain ⟨d, ds', rfl, hd, hne⟩ := hspells.exists_cons
    have hinner : skipBlanks (bs' ++ (d :: ds') ++ rest) = d :: (ds' ++ rest) := by
      rw [List.append_assoc]
      exact skipBlanks_append_cons hbs' hd _
    have hread : items? limit (d :: (ds' ++ rest)) = some (items, rest) :=
      hitems hspells (by simp at hlimit ⊢; omega) (List.forall_mem_nil _)
    rw [value?_items hskip hinner hne, hread]
    rfl
  | @noMembers bs' hbs' =>
    have hinner : skipBlanks (bs' ++ ['\x7d'] ++ rest) = '\x7d' :: rest := by
      rw [List.append_assoc]
      exact skipBlanks_append_cons hbs' (by decide) _
    exact value?_noMembers hskip hinner
  | @object bs' cs' members hbs' hspells =>
    obtain ⟨ds', rfl⟩ := hspells.exists_cons
    have hinner : skipBlanks (bs' ++ ('"' :: ds') ++ rest) = '"' :: (ds' ++ rest) := by
      rw [List.append_assoc]
      exact skipBlanks_append_cons hbs' (by decide) _
    have hread : members? limit ('"' :: (ds' ++ rest)) = some (members, rest) :=
      hmembers hspells (by simp at hlimit ⊢; omega) (List.forall_mem_nil _)
    rw [value?_members hskip hinner, hread]
    rfl

section

variable {m : Option String × Value} {ds : List Char}

theorem items?_last (hvalues : ReadsValues limit) (h : Spells cs v) (hlimit : cs.length ≤ limit)
    (hbs : Blank bs) (hrest : NumberEnds rest) (hskip : skipBlanks rest = ']' :: ds) :
    items? (limit + 1) (bs ++ (cs ++ rest)) = some ([v], ds) := by
  simp [items?, hvalues h hlimit hbs hrest, hskip]

theorem items?_more (hvalues : ReadsValues limit) (h : Spells cs v) (hlimit : cs.length ≤ limit)
    (hbs : Blank bs) (hrest : NumberEnds rest) (hskip : skipBlanks rest = ',' :: ds) :
    items? (limit + 1) (bs ++ (cs ++ rest)) = (items? limit ds).map fun (vs, rest) => (v :: vs, rest) := by
  simp [items?, hvalues h hlimit hbs hrest, hskip]

theorem readsItems_succ (hvalues : ReadsValues limit) (hitems : ReadsItems limit) :
    ReadsItems (limit + 1) := by
  intro cs items bs rest h hlimit hbs
  cases h with
  | @last cs bs' v hv hbs' =>
    have hlength : cs.length ≤ limit := by
      simp at hlimit
      omega
    have hends : NumberEnds (bs' ++ ']' :: rest) :=
      numberEnds_append hbs' (numberEnds_cons (by decide) (by decide))
    have hread := items?_last hvalues hv hlength hbs hends (skipBlanks_append_cons hbs' (by decide) _)
    simpa using hread
  | @more cs bs' bs'' ds v items hv hbs' hbs'' hds =>
    have hlength : cs.length ≤ limit ∧ ds.length ≤ limit := by
      simp at hlimit
      omega
    have hends : NumberEnds (bs' ++ ',' :: (bs'' ++ (ds ++ rest))) :=
      numberEnds_append hbs' (numberEnds_cons (by decide) (by decide))
    have hread := items?_more hvalues hv hlength.1 hbs hends (skipBlanks_append_cons hbs' (by decide) _)
    simpa [hitems hds hlength.2 hbs''] using hread

/-- What the reader meets on its way through a member: the key, the colon and the value. -/
theorem SpellsMember.read (h : SpellsMember cs m) (hvalues : ReadsValues limit) (hlimit : cs.length ≤ limit)
    (hbs : Blank bs) (hrest : NumberEnds rest) :
    ∃ key v afterQuote afterKey afterColon, m = (some key, v) ∧
      skipBlanks (bs ++ (cs ++ rest)) = '"' :: afterQuote ∧ string? afterQuote = some (some key, afterKey) ∧
      skipBlanks afterKey = ':' :: afterColon ∧ value? limit afterColon = some (v, rest) := by
  cases h with
  | @mk bs' bs'' cs key v hbs' hbs'' hv =>
    have hlength : cs.length ≤ limit := by
      simp at hlimit
      omega
    refine ⟨key, v, _, _, _, rfl, ?_, string?_quote key (bs' ++ ':' :: (bs'' ++ (cs ++ rest))),
      skipBlanks_append_cons hbs' (by decide) _, hvalues hv hlength hbs'' hrest⟩
    rw [skipBlanks_append hbs]
    simp [quote, skipBlanks_cons (c := '"') (by decide)]

theorem members?_last (hvalues : ReadsValues limit) (h : SpellsMember cs m) (hlimit : cs.length ≤ limit)
    (hbs : Blank bs) (hrest : NumberEnds rest) (hskip : skipBlanks rest = '\x7d' :: ds) :
    members? (limit + 1) (bs ++ (cs ++ rest)) = some ([m], ds) := by
  obtain ⟨key, v, _, _, _, rfl, hquote, hkey, hcolon, hvalue⟩ := h.read hvalues hlimit hbs hrest
  simp [members?, hquote, hkey, hcolon, hvalue, hskip]

theorem members?_more (hvalues : ReadsValues limit) (h : SpellsMember cs m) (hlimit : cs.length ≤ limit)
    (hbs : Blank bs) (hrest : NumberEnds rest) (hskip : skipBlanks rest = ',' :: ds) :
    members? (limit + 1) (bs ++ (cs ++ rest)) = (members? limit ds).map fun (ms, rest) => (m :: ms, rest) := by
  obtain ⟨key, v, _, _, _, rfl, hquote, hkey, hcolon, hvalue⟩ := h.read hvalues hlimit hbs hrest
  simp [members?, hquote, hkey, hcolon, hvalue, hskip]

theorem readsMembers_succ (hvalues : ReadsValues limit) (hmembers : ReadsMembers limit) :
    ReadsMembers (limit + 1) := by
  intro cs members bs rest h hlimit hbs
  cases h with
  | @last cs bs' m hm hbs' =>
    have hlength : cs.length ≤ limit := by
      simp at hlimit
      omega
    have hends : NumberEnds (bs' ++ '\x7d' :: rest) :=
      numberEnds_append hbs' (numberEnds_cons (by decide) (by decide))
    have hread := members?_last hvalues hm hlength hbs hends (skipBlanks_append_cons hbs' (by decide) _)
    simpa using hread
  | @more cs bs' bs'' ds m members hm hbs' hbs'' hds =>
    have hlength : cs.length ≤ limit ∧ ds.length ≤ limit := by
      simp at hlimit
      omega
    have hends : NumberEnds (bs' ++ ',' :: (bs'' ++ (ds ++ rest))) :=
      numberEnds_append hbs' (numberEnds_cons (by decide) (by decide))
    have hread := members?_more hvalues hm hlength.1 hbs hends (skipBlanks_append_cons hbs' (by decide) _)
    simpa [hmembers hds hlength.2 hbs''] using hread

end

/-- **The reader takes every text of a value, if its limit is no less than the length.** -/
theorem reads : ∀ limit, ReadsValues limit ∧ ReadsItems limit ∧ ReadsMembers limit
  -- no text is empty, so nothing is asked of a limit of zero
  | 0 => by
    refine ⟨?_, ?_, ?_⟩
    · intro cs v bs rest h hlimit
      obtain ⟨c, ds, rfl, -⟩ := h.exists_cons
      cases hlimit
    · intro cs items bs rest h hlimit
      obtain ⟨c, ds, rfl, -⟩ := h.exists_cons
      cases hlimit
    · intro cs members bs rest h hlimit
      obtain ⟨ds, rfl⟩ := h.exists_cons
      cases hlimit
  | limit + 1 => by
    obtain ⟨hvalues, hitems, hmembers⟩ := reads limit
    exact ⟨readsValues_succ hitems hmembers, readsItems_succ hvalues hitems, readsMembers_succ hvalues hmembers⟩

/-- **A whole text of a value, with blanks around it or not, is read as that value.** -/
theorem parse?_of_spells {bs' : List Char} (h : Spells cs v) (hbs : Blank bs) (hbs' : Blank bs') :
    parse? (String.ofList (bs ++ (cs ++ bs'))) = some v := by
  have hends : NumberEnds bs' := by
    rw [← List.append_nil bs']
    exact numberEnds_append hbs' fun c hc => by cases hc
  have hlimit : cs.length ≤ (bs ++ (cs ++ bs')).length + 1 := by
    simp only [List.length_append]
    omega
  have hread := (reads _).1 h hlimit hbs hends
  have hskip : skipBlanks bs' = [] := List.dropWhile_eq_nil_iff.2 hbs'
  simp only [parse?, String.toList_ofList, hread, hskip]
  rfl

end SatSearch.Json
