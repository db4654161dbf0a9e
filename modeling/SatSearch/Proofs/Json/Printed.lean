import SatSearch.Proofs.Json.Grammar
/-!
# Printed values read back

What either form prints of a value is one of its texts (`spells_render`, `spells_renderIndented`), so it is read as
that value again (`parse?_text`, `parse?_indentedText`). This holds of values that say all in their text:
`Value.Faithful` leaves out numbers that are no counts and strings without characters.
-/

namespace SatSearch.Json

variable {v : Value}

/-- A value made of counts, texts and truth values. -/
inductive Value.Faithful : Value → Prop
  | null : Faithful .null
  | bool (b : Bool) : Faithful (.bool b)
  | count (n : Nat) : Faithful (.ofNat n)
  | text (s : String) : Faithful (.ofText s)
  | array {items : List Value} : (∀ v ∈ items, Faithful v) → Faithful (.array items)
  | object {members : List (String × Value)} : (∀ m ∈ members, Faithful m.2) → Faithful (.ofMembers members)

theorem blank_nil : Blank [] := List.forall_mem_nil _

theorem blank_space : Blank [' '] := List.forall_mem_singleton.2 rfl

theorem blank_lineAt (depth : Nat) : Blank (lineAt depth) := by
  intro c hc
  rcases List.mem_cons.1 hc with rfl | hc
  · rfl
  · rw [List.eq_of_mem_replicate hc]
    rfl

/-! ## The compact form -/

theorem spellsItems_render : ∀ {v : Value} {vs : List Value}, (∀ w ∈ v :: vs, Spells (render w) w) →
    SpellsItems (render v ++ renderMoreItems vs) (v :: vs)
  | v, [], h => .last (h v List.mem_cons_self) blank_nil
  | v, w :: vs, h => by
    obtain ⟨hv, hvs⟩ := List.forall_mem_cons.1 h
    have hmore := SpellsItems.more hv blank_nil blank_nil (spellsItems_render hvs)
    exact hmore

theorem spellsMember_render (key : String) (h : Spells (render v) v) :
    SpellsMember (quoteText (some key) ++ ':' :: render v) (some key, v) := .mk blank_nil blank_nil h

theorem spellsMembers_render : ∀ {m : String × Value} {ms : List (String × Value)},
    (∀ m' ∈ m :: ms, Spells (render m'.2) m'.2) →
    SpellsMembers (quoteText (some m.1) ++ ':' :: (render m.2 ++ renderMoreMembers (ms.map fun m => (some m.1, m.2))))
      ((some m.1, m.2) :: ms.map fun m => (some m.1, m.2))
  | m, [], h => by
    have hm := spellsMember_render m.1 (h m List.mem_cons_self)
    simpa [renderMoreMembers] using SpellsMembers.last hm blank_nil
  | m, m' :: ms, h => by
    obtain ⟨hm, hms⟩ := List.forall_mem_cons.1 h
    have hmember := spellsMember_render m.1 hm
    simpa [renderMoreMembers] using
      SpellsMembers.more hmember blank_nil blank_nil (spellsMembers_render hms)

/-- **The compact form of a value is a text of it.** -/
theorem spells_render (h : v.Faithful) : Spells (render v) v := by
  induction h with
  | null => exact .null
  | bool b =>
    cases b with
    | true => exact .yes
    | false => exact .no
  | count n =>
    have hcount := Spells.count n
    rwa [← Numeral.toList_toString] at hcount
  | text s => exact .text s
  | @array items _ ih =>
    cases items with
    | nil => exact .noItems blank_nil
    | cons v vs =>
      have harray := Spells.array blank_nil (spellsItems_render ih)
      exact harray
  | @object members _ ih =>
    cases members with
    | nil => exact .noMembers blank_nil
    | cons m ms =>
      have hobject := Spells.object blank_nil (spellsMembers_render ih)
      exact hobject

/-- **The compact form is read as the value that was printed.** -/
theorem parse?_text (h : v.Faithful) : parse? v.text = some v := by
  have hparse := parse?_of_spells (spells_render h) blank_nil blank_nil
  rwa [List.nil_append, List.append_nil] at hparse

/-! ## The indented form -/

/-- Items on lines of their own are items behind blanks. -/
theorem spellsItems_renderIndented (depth outer : Nat) : ∀ {v : Value} {vs : List Value},
    (∀ w ∈ v :: vs, Spells (renderIndented depth w) w) →
    ∃ cs, renderIndentedItems depth (v :: vs) ++ (lineAt outer ++ [']']) = lineAt depth ++ cs ∧
      SpellsItems cs (v :: vs)
  | v, [], h => by
    refine ⟨_, ?_, .last (h v List.mem_cons_self) (blank_lineAt outer)⟩
    rw [renderIndentedItems, List.append_assoc]
  | v, w :: vs, h => by
    obtain ⟨hv, hvs⟩ := List.forall_mem_cons.1 h
    obtain ⟨cs, hcs, hspells⟩ := spellsItems_renderIndented depth outer hvs
    refine ⟨_, ?_, .more hv blank_nil (blank_lineAt depth) hspells⟩
    rw [← hcs, renderIndentedItems]
    simp

theorem spellsMember_renderIndented {depth : Nat} (key : String) (h : Spells (renderIndented depth v) v) :
    SpellsMember (quoteText (some key) ++ ':' :: ' ' :: renderIndented depth v) (some key, v) :=
  .mk blank_nil blank_space h

theorem spellsMembers_renderIndented (depth outer : Nat) : ∀ {m : String × Value} {ms : List (String × Value)},
    (∀ m' ∈ m :: ms, Spells (renderIndented depth m'.2) m'.2) →
    ∃ cs, renderIndentedMembers depth ((m :: ms).map fun m => (some m.1, m.2)) ++ (lineAt outer ++ ['\x7d']) =
        lineAt depth ++ cs ∧
      SpellsMembers cs ((m :: ms).map fun m => (some m.1, m.2))
  | m, [], h => by
    have hm := spellsMember_renderIndented m.1 (h m List.mem_cons_self)
    refine ⟨_, ?_, .last hm (blank_lineAt outer)⟩
    simp [renderIndentedMembers]
  | m, m' :: ms, h => by
    obtain ⟨hm, hms⟩ := List.forall_mem_cons.1 h
    have hmember := spellsMember_renderIndented m.1 hm
    obtain ⟨cs, hcs, hspells⟩ := spellsMembers_renderIndented depth outer hms
    refine ⟨_, ?_, .more hmember blank_nil (blank_lineAt depth) hspells⟩
    rw [← hcs]
    simp [renderIndentedMembers]

/-- **The indented form of a value at any depth is a text of it.** -/
theorem spells_renderIndented (h : v.Faithful) : ∀ depth, Spells (renderIndented depth v) v := by
  induction h with
  | @array items _ ih =>
    intro depth
    cases items with
    | nil => exact .noItems blank_nil
    | cons v vs =>
      obtain ⟨cs, hcs, hspells⟩ := spellsItems_renderIndented (depth + 1) depth fun w hw => ih w hw (depth + 1)
      have harray := Spells.array (blank_lineAt (depth + 1)) hspells
      rw [← hcs] at harray
      simpa [renderIndented] using harray
  | @object members _ ih =>
    intro depth
    cases members with
    | nil => exact .noMembers blank_nil
    | cons m ms =>
      obtain ⟨cs, hcs, hspells⟩ := spellsMembers_renderIndented (depth + 1) depth fun w hw => ih w hw (depth + 1)
      have hobject := Spells.object (blank_lineAt (depth + 1)) hspells
      rw [← hcs] at hobject
      simpa [renderIndented, Value.ofMembers] using hobject
  | null => exact fun _ => spells_render .null
  | bool b => exact fun _ => spells_render (.bool b)
  | count n => exact fun _ => spells_render (.count n)
  | text s => exact fun _ => spells_render (.text s)

/-- **The indented form is read as the value that was printed.** -/
theorem parse?_indentedText (h : v.Faithful) : parse? v.indentedText = some v := by
  have hparse := parse?_of_spells (spells_renderIndented h 0) blank_nil blank_nil
  rwa [List.nil_append, List.append_nil] at hparse

end SatSearch.Json
