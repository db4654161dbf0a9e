import SatSearch.Command.FileTree
/-!
# Trees that change

A file that is written is found again by its path, and no other place of the tree has changed (`write_spec`). What
is added to it then makes the tree that comes of writing both at once (`append_of_write`).
-/

namespace SatSearch

namespace FileTree

variable {t t' : FileTree} {place other names : List String} {path : String} {bytes : ByteArray}

/-! ## Writing -/

theorem lookup_map_replace {α β : Type} [BEq α] [LawfulBEq α] (l : List (α × β)) (k other : α) (v : β) :
    (l.map fun e => if e.1 == k then (k, v) else e).lookup other =
      if other == k then (if l.any (·.1 == k) then some v else none) else l.lookup other := by
  induction l with
  | nil => simp
  | cons e l ih =>
    obtain ⟨key, value⟩ := e
    by_cases hkey : key = k
    · subst hkey
      by_cases hother : other = key
      · simp [hother]
      · simpa [List.lookup_cons, beq_false_of_ne hother, hother] using ih
    · have hleft : (key == k) = false := beq_false_of_ne hkey
      rw [List.map_cons, List.any_cons, hleft, Bool.false_or, List.lookup_cons]
      by_cases hthis : other = key
      · simp [hthis, hkey]
      · simpa [List.lookup_cons, beq_false_of_ne hthis] using ih

theorem lookup_eq_none_of_any {α β : Type} [BEq α] [LawfulBEq α] {l : List (α × β)} {k : α}
    (h : ¬ l.any (·.1 == k)) : l.lookup k = none := by
  rw [List.lookup_eq_none_iff]
  intro e he
  rw [bne_iff_ne]
  rintro rfl
  exact h (List.any_eq_true.2 ⟨e, he, by simp⟩)

theorem start_put (place : List String) (node : FileNode) : (t.put place node).start = t.start := by
  unfold put
  split <;> rfl

/-- What is put at a place is there, and everything else is where it was. -/
theorem node?_put (hplace : place ≠ []) (node : FileNode) (other : List String) :
    (t.put place node).node? other = if other = place then some node else t.node? other := by
  cases other with
  | nil => simp [node?, hplace.symm]
  | cons name other =>
    change (t.put place node).entries.lookup (name :: other) = _
    unfold put
    split
    · next hany =>
      dsimp only
      rw [lookup_map_replace, if_pos hany]
      simp [node?]
    · next hany =>
      by_cases hother : name :: other = place
      · subst hother
        simp [List.lookup_append, lookup_eq_none_of_any hany]
      · simp [node?, List.lookup_append, List.lookup_cons, beq_false_of_ne hother, hother]

/-- A way through directories stays one where directories stay. -/
theorem enter_of_directories (hkeeps : ∀ place, t.node? place = some .directory → t'.node? place = some .directory)
    (names : List String) : ∀ {place directory : List String}, t.enter place names = .ok directory →
      t'.enter place names = .ok directory := by
  induction names with
  | nil => exact id
  | cons name names ih =>
    intro place directory h
    unfold enter at h ⊢
    split at h
    · next hblank =>
      rw [if_pos hblank]
      exact ih h
    · next hblank =>
      rw [if_neg hblank]
      split at h
      · next hup =>
        rw [if_pos hup]
        exact ih h
      · next hup =>
        rw [if_neg hup]
        split at h
        · next hnode =>
          rw [hkeeps _ hnode]
          exact ih h
        · cases h
        · cases h

theorem target_of_directories (hkeeps : ∀ place, t.node? place = some .directory → t'.node? place = some .directory)
    (hstart : t'.start = t.start) {target : Target} (h : t.target path = .ok target) :
    t'.target path = .ok target := by
  have hmap : ∀ {place names : List String} {f : List String → Target}, (t.enter place names).map f = .ok target →
      (t'.enter place names).map f = .ok target := by
    intro place names f hf
    cases henter : t.enter place names with
    | error e =>
      rw [henter] at hf
      cases hf
    | ok directory =>
      rw [henter] at hf
      rw [enter_of_directories hkeeps names henter]
      exact hf
  unfold FileTree.target at h ⊢
  rw [hstart]
  split at h
  · cases h
  next hpath =>
  rw [if_neg hpath]
  dsimp only at h ⊢
  split at h
  · exact h
  · next last before hsome =>
    split at h
    · next hstep =>
      rw [if_pos hstep]
      exact hmap h
    · next hstep =>
      rw [if_neg hstep]
      exact hmap h

/-- A path that something is written to leads to one place, whatever is written. -/
theorem exists_place_of_write (h : t.write path bytes = .ok t') : ∃ place, place ≠ [] ∧
    t.node? place ≠ some .directory ∧ (∀ content, t.write path content = .ok (t.put place (.file content))) ∧
    ∀ content, (t.put place (.file content)).find path = .ok (place, .file content) := by
  unfold write at h
  cases htarget : t.target path with
  | error e =>
    rw [htarget] at h
    cases h
  | ok target =>
    rw [htarget] at h
    obtain ⟨directory, named, slashed⟩ := target
    dsimp only [bind, Except.bind] at h
    split at h
    · cases h
    next name =>
    split at h
    · cases h
    next hslashed =>
    split at h
    · cases h
    next hnode =>
    have hne : directory ++ [name] ≠ [] := by simp
    refine ⟨directory ++ [name], hne, hnode, fun content => ?_, fun content => ?_⟩
    · rw [write, htarget]
      dsimp only [bind, Except.bind]
      rw [if_neg hslashed]
      split
      · next hdirectory => exact absurd hdirectory hnode
      · rfl
    · have hkeeps : ∀ place, t.node? place = some .directory →
          (t.put (directory ++ [name]) (.file content)).node? place = some .directory := by
        intro place hplace
        rw [node?_put hne, if_neg, hplace]
        rintro rfl
        exact hnode hplace
      rw [find, target_of_directories hkeeps (start_put _ _) htarget]
      simp [bind, Except.bind, node?_put hne, hslashed]

/-- What is written to a path is found by it, in a place that was no directory. No other place has changed. -/
theorem write_spec (h : t.write path bytes = .ok t') : ∃ place, t'.find path = .ok (place, .file bytes) ∧
    t.node? place ≠ some .directory ∧ (∀ other, other ≠ place → t'.node? other = t.node? other) := by
  obtain ⟨place, hne, hnode, hwrite, hfind⟩ := exists_place_of_write h
  cases h.symm.trans (hwrite bytes)
  exact ⟨place, hfind bytes, hnode, fun other hother => by rw [node?_put hne, if_neg hother]⟩

theorem contents_of_write (h : t.write path bytes = .ok t') : t'.contents path = .ok bytes := by
  obtain ⟨place, hfind, -, -⟩ := write_spec h
  rw [contents, hfind]

/-- What is put at a place twice was put there once. -/
theorem put_put (place : List String) (first last : FileNode) :
    (t.put place first).put place last = t.put place last := by
  by_cases hany : t.entries.any (·.1 == place)
  · have hfirst : t.put place first =
        { t with entries := t.entries.map fun e => if e.1 == place then (place, first) else e } := if_pos hany
    have hthere : (t.put place first).entries.any (·.1 == place) := by
      obtain ⟨e, he, hplace⟩ := List.any_eq_true.1 hany
      rw [hfirst]
      exact List.any_eq_true.2 ⟨_, List.mem_map_of_mem he, by simp [hplace]⟩
    rw [put, if_pos hthere, hfirst, put, if_pos hany, List.map_map]
    congr 1
    refine List.map_congr_left fun e _ => ?_
    by_cases he : e.1 = place <;> simp [he]
  · have hfirst : t.put place first = { t with entries := t.entries ++ [(place, first)] } := if_neg hany
    have hthere : (t.put place first).entries.any (·.1 == place) := by simp [hfirst]
    have hothers : (t.entries.map fun e => if e.1 == place then (place, last) else e) = t.entries := by
      refine (List.map_congr_left fun e he => if_neg fun hplace => hany ?_).trans (List.map_id _)
      exact List.any_eq_true.2 ⟨e, he, hplace⟩
    rw [put, if_pos hthere, hfirst, put, if_neg hany, List.map_append, hothers]
    simp

/-- A file that was written is one whole with what is added to it at once. -/
theorem append_of_write (h : t.write path bytes = .ok t') (rest : ByteArray) :
    ∃ t'', t'.append path rest = .ok t'' ∧ t.write path (bytes ++ rest) = .ok t'' := by
  obtain ⟨place, -, -, hwrite, hfind⟩ := exists_place_of_write h
  cases h.symm.trans (hwrite bytes)
  refine ⟨t.put place (.file (bytes ++ rest)), ?_, hwrite _⟩
  rw [append, hfind bytes]
  exact congrArg Except.ok (put_put ..)

/-- A directory with one formula. -/
def oneFormula : FileTree where
  entries := [(["in"], .directory), (["in", "a.cnf"], .file "1 0\n".toUTF8)]

end FileTree

end SatSearch
