import Mathlib.Data.List.DropRight
import SatSearch.Command.FileTree
import SatSearch.Command.Tables
import SatSearch.Proofs.Text.Lines
/-!
# The files of a directory

A tree is looked at by places only, so the order of its entries shows in nothing but the listing of a directory
(`Relisted.find_eq`, `Relisted.listFiles_perm`). A path leads where the names on it lead (`enter_names`), and
hence every file that is listed in a directory is found again by the path that the directory and its name make up
(`contents_pathIn`).
-/

namespace SatSearch

namespace Pieces

variable {α : Type} [DecidableEq α]

/-- A separator divides the pieces of what stands before it from those of what stands behind it. -/
theorem pieces_append_separator (separator : α) (xs ys : List α) :
    pieces separator (xs ++ separator :: ys) = pieces separator xs ++ pieces separator ys := by
  induction xs with
  | nil => exact pieces_separator separator ys
  | cons x xs ih =>
    by_cases hx : x = separator
    · subst hx
      rw [List.cons_append, pieces_separator, pieces_separator, ih, List.cons_append]
    · rw [List.cons_append, pieces_cons hx, pieces_cons hx, ih]
      cases hp : pieces separator xs with
      | nil => exact absurd hp (pieces_ne_nil separator xs)
      | cons p ps => rfl

end Pieces

namespace FileTree

variable {t t' : FileTree} {place : List String} {path name : String} {bytes : ByteArray}

/-! ## Entries in another order -/

/-- Where no key is repeated, each entry is the one that is found. -/
theorem lookup_eq_some_iff_mem {α β : Type} [BEq α] [LawfulBEq α] {l : List (α × β)}
    (hnodup : (l.map Prod.fst).Nodup) {k : α} {v : β} : l.lookup k = some v ↔ (k, v) ∈ l := by
  induction l with
  | nil => simp
  | cons e l ih =>
    obtain ⟨a, b⟩ := e
    obtain ⟨hnew, hrest⟩ := List.nodup_cons.1 hnodup
    by_cases hk : k = a
    · subst hk
      have habsent : (k, v) ∉ l := fun hmem => hnew (List.mem_map.2 ⟨_, hmem, rfl⟩)
      simp [habsent, eq_comm]
    · rw [List.lookup_cons, beq_false_of_ne hk, ih hrest]
      simp [hk]

/-- The same entries in another order. -/
structure Relisted (t t' : FileTree) : Prop where
  start_eq : t'.start = t.start
  perm : t'.entries.Perm t.entries
  nodup : (t.entries.map Prod.fst).Nodup

theorem enter_congr (h : ∀ place, t'.node? place = t.node? place) (names : List String) :
    ∀ place, t'.enter place names = t.enter place names := by
  induction names with
  | nil => exact fun _ => rfl
  | cons name names ih =>
    intro place
    unfold enter
    rw [h, ih, ih, ih]

theorem node?_eq_some_iff (hnodup : (t.entries.map Prod.fst).Nodup) {node : FileNode} (hne : place ≠ []) :
    t.node? place = some node ↔ (place, node) ∈ t.entries := by
  rw [← lookup_eq_some_iff_mem hnodup]
  cases place with
  | nil => exact absurd rfl hne
  | cons name place => rfl

namespace Relisted

variable (h : Relisted t t')
include h

theorem nodup' : (t'.entries.map Prod.fst).Nodup := (h.perm.map Prod.fst).nodup_iff.2 h.nodup

theorem node?_eq (place : List String) : t'.node? place = t.node? place := by
  cases place with
  | nil => rfl
  | cons name place =>
    refine Option.ext fun node => ?_
    rw [node?_eq_some_iff h.nodup' (List.cons_ne_nil _ _), node?_eq_some_iff h.nodup (List.cons_ne_nil _ _),
      h.perm.mem_iff]

theorem target_eq (path : String) : t'.target path = t.target path := by
  unfold target
  simp only [enter_congr h.node?_eq, h.start_eq]

theorem find_eq (path : String) : t'.find path = t.find path := by
  unfold find
  simp only [h.target_eq, h.node?_eq]

theorem contents_eq (path : String) : t'.contents path = t.contents path := by
  rw [contents, h.find_eq, contents]

/-- Either something can be written to a path in both orders, or nothing can for one reason. -/
theorem write_cases (path : String) (bytes : ByteArray) :
    (∃ tree tree', t.write path bytes = .ok tree ∧ t'.write path bytes = .ok tree') ∨
    ∃ e, t.write path bytes = .error e ∧ t'.write path bytes = .error e := by
  unfold write
  rw [h.target_eq]
  cases t.target path with
  | error e => exact .inr ⟨e, rfl, rfl⟩
  | ok target =>
    obtain ⟨directory, named, slashed⟩ := target
    dsimp only [bind, Except.bind]
    cases named with
    | none => exact .inr ⟨_, rfl, rfl⟩
    | some name =>
      dsimp only
      rw [h.node?_eq]
      split
      · exact .inr ⟨_, rfl, rfl⟩
      · split
        · exact .inr ⟨_, rfl, rfl⟩
        · exact .inl ⟨_, _, rfl, rfl⟩

end Relisted

/-! ## The listing of a directory -/

/-- The names of the files directly in a place. -/
def filesIn (t : FileTree) (place : List String) : List String := t.entries.filterMap (nameIn place)

theorem nameIn_eq_some_iff {e : List String × FileNode} :
    nameIn place e = some name ↔ ∃ bytes, e = (place ++ [name], .file bytes) := by
  constructor
  · intro h
    unfold nameIn at h
    split at h
    · next before bytes =>
      split at h
      · next last hlast =>
        obtain ⟨start, rfl⟩ := List.getLast?_eq_some_iff.1 hlast
        rw [List.dropLast_concat] at h
        split at h
        · next hplace =>
          cases h
          exact ⟨bytes, by rw [hplace]⟩
        · cases h
      · cases h
    · cases h
  · rintro ⟨bytes, rfl⟩
    simp [nameIn]

theorem mem_filesIn : name ∈ t.filesIn place ↔ ∃ bytes, (place ++ [name], FileNode.file bytes) ∈ t.entries := by
  rw [filesIn, List.mem_filterMap]
  constructor
  · rintro ⟨e, he, hname⟩
    obtain ⟨bytes, rfl⟩ := nameIn_eq_some_iff.1 hname
    exact ⟨bytes, he⟩
  · rintro ⟨bytes, he⟩
    exact ⟨_, he, nameIn_eq_some_iff.2 ⟨bytes, rfl⟩⟩

theorem nodup_filesIn (hnodup : (t.entries.map Prod.fst).Nodup) (place : List String) :
    (t.filesIn place).Nodup := by
  have hpairs : t.entries.Pairwise fun e e' => e.1 ≠ e'.1 := List.pairwise_map.1 hnodup
  refine List.pairwise_filterMap.2 (hpairs.imp fun hne name hname name' hname' => ?_)
  obtain ⟨bytes, rfl⟩ := nameIn_eq_some_iff.1 hname
  obtain ⟨bytes', rfl⟩ := nameIn_eq_some_iff.1 hname'
  rintro rfl
  exact hne rfl

theorem listFiles_of_find (h : t.find path = .ok (place, .directory)) :
    t.listFiles path = .ok (t.filesIn place) := by
  rw [listFiles, h]
  rfl

theorem Relisted.filesIn_perm (h : Relisted t t') (place : List String) :
    (t'.filesIn place).Perm (t.filesIn place) := h.perm.filterMap _

/-! ## Paths -/

/-- Where a path starts. -/
def origin (t : FileTree) (path : String) : List String := if path.startsWith "/" then [] else t.start

theorem enter_append (names rest : List String) (place : List String) :
    t.enter place (names ++ rest) = (t.enter place names).bind (t.enter · rest) := by
  induction names generalizing place with
  | nil => rfl
  | cons name names ih =>
    rw [List.cons_append, enter, enter]
    split
    · exact ih place
    · split
      · exact ih place.dropLast
      · split
        · exact ih (place ++ [name])
        · rfl
        · rfl

/-- Slashes that follow one another do not lead on. -/
theorem enter_blanks {blanks : List String} (hblanks : ∀ name ∈ blanks, name = "") (place : List String) :
    t.enter place blanks = .ok place := by
  induction blanks with
  | nil => rfl
  | cons name blanks ih =>
    rw [enter, if_pos (.inl (hblanks name (by simp)))]
    exact ih fun other hother => hblanks other (by simp [hother])

theorem enter_append_blanks {blanks : List String} (hblanks : ∀ name ∈ blanks, name = "")
    (names place : List String) : t.enter place (names ++ blanks) = t.enter place names := by
  rw [enter_append]
  cases t.enter place names with
  | error e => rfl
  | ok place' => exact enter_blanks hblanks place'

/-- The names on a path up to the last that is not blank, and the blanks that slashes at its end make. -/
theorem exists_names_cut (path : String) : ∃ blanks : List String, (∀ name ∈ blanks, name = "") ∧
    names path = ((names path).reverse.dropWhile (· = "")).reverse ++ blanks := by
  refine ⟨(names path).rtakeWhile (· = ""), fun name hname => ?_, List.rdropWhile_append_rtakeWhile.symm⟩
  simpa using List.mem_rtakeWhile_imp hname

/-- A path of slashes only starts with one. -/
theorem startsWith_of_names_blank (hpath : path ≠ "") (hblank : ∀ name ∈ names path, name = "") :
    path.startsWith "/" = true := by
  rw [String.startsWith_string_iff]
  cases hcs : path.toList with
  | nil => exact absurd (String.toList_eq_nil_iff.1 hcs) hpath
  | cons c cs =>
    by_cases hc : c = '/'
    · subst hc
      exact ⟨cs, rfl⟩
    · obtain ⟨p, ps, hps⟩ := List.exists_cons_of_ne_nil (Pieces.pieces_ne_nil '/' cs)
      have hfirst : String.ofList (c :: p) ∈ names path := by
        rw [names, hcs, Pieces.pieces_cons hc, hps]
        exact List.mem_cons_self
      exact absurd (hblank _ hfirst) (by simp)

theorem exists_of_map_eq_ok {ε α β : Type} {x : Except ε α} {f : α → β} {b : β} (h : x.map f = .ok b) :
    ∃ a, x = .ok a ∧ f a = b := by
  cases x with
  | error e => cases h
  | ok a => exact ⟨a, rfl, Except.ok.inj h⟩

/-- A path leads to a directory by all its names, or to a name in the directory that the names before it lead to. -/
theorem target_cases {target : Target} (h : t.target path = .ok target) : path ≠ "" ∧
    (target.name = none ∧ t.enter (t.origin path) (names path) = .ok target.directory ∨
    ∃ before last blanks, target.name = some last ∧ names path = before ++ last :: blanks ∧
      (∀ name ∈ blanks, name = "") ∧ last ≠ "" ∧ isStep last = false ∧
      t.enter (t.origin path) before = .ok target.directory) := by
  obtain ⟨blanks, hblanks, hcut⟩ := exists_names_cut path
  unfold FileTree.target at h
  split at h
  · cases h
  next hpath =>
  have hpath : path ≠ "" := by simpa using hpath
  refine ⟨hpath, ?_⟩
  dsimp only at h
  split at h
  · next hnone =>
    cases h
    -- nothing but slashes, so the path starts with one and leads to the root
    have hall : ∀ name ∈ names path, name = "" := by simpa using hnone
    rw [origin, if_pos (startsWith_of_names_blank hpath hall)]
    exact .inl ⟨rfl, enter_blanks hall []⟩
  · next last before hsome =>
    have hlast : last ≠ "" := by
      have hhead := List.head?_dropWhile_not (· = "") (names path).reverse
      rw [hsome] at hhead
      exact of_decide_eq_false hhead
    rw [hsome] at h hcut
    split at h
    · next hstep =>
      obtain ⟨directory, hd, rfl⟩ := exists_of_map_eq_ok h
      rw [hcut, enter_append_blanks hblanks]
      exact .inl ⟨rfl, hd⟩
    · next hstep =>
      obtain ⟨directory, hd, rfl⟩ := exists_of_map_eq_ok h
      rw [List.reverse_cons, List.append_assoc] at hcut
      exact .inr ⟨before.reverse, last, blanks, rfl, hcut, hblanks, hlast, eq_false_of_ne_true hstep, hd⟩

/-- A path to a directory leads there by all its names. -/
theorem enter_names (h : t.find path = .ok (place, .directory)) :
    path ≠ "" ∧ t.enter (t.origin path) (names path) = .ok place := by
  unfold find at h
  cases htarget : t.target path with
  | error e =>
    rw [htarget] at h
    cases h
  | ok target =>
    rw [htarget] at h
    obtain ⟨directory, named, slashed⟩ := target
    obtain ⟨hpath, ⟨hnone, henter⟩ | ⟨before, last, blanks, hsome, hnames, hblanks, hlast, hstep, henter⟩⟩ :=
      target_cases htarget
    · cases hnone
      cases h
      exact ⟨hpath, henter⟩
    · cases hsome
      refine ⟨hpath, ?_⟩
      dsimp only [bind, Except.bind] at h
      obtain ⟨hdot, hdots⟩ : last ≠ "." ∧ last ≠ ".." := by simpa [isStep] using hstep
      split at h
      · cases h
      · split at h
        · cases h
        · cases h
      · next hnode =>
        cases h
        -- the last name is no step, so it is entered as the directory that it stands for
        rw [hnames, enter_append, henter, Except.bind, enter, if_neg (by simp [hlast, hdot]), if_neg hdots, hnode]
        exact enter_blanks hblanks _

/-! ## A file by its directory and its name -/

theorem toList_pathIn (directory name : String) : ∃ cs, (BatchArgs.pathIn directory name).toList =
    cs ++ '/' :: name.toList ∧ (directory.toList = cs ∨ directory.toList = cs ++ ['/']) := by
  unfold BatchArgs.pathIn
  split
  · next hslash =>
    rw [String.endsWith_eq_endsWith_toSlice, String.Slice.endsWith_string_iff] at hslash
    obtain ⟨cs, hcs⟩ := hslash
    have hcs : directory.toList = cs ++ ['/'] := by simpa using hcs.symm
    exact ⟨cs, by simp [hcs], .inr hcs⟩
  · exact ⟨directory.toList, by simp, .inl rfl⟩

/-- The names on the way to a file are those on the way to its directory without the blanks at their end, and its
own. -/
theorem names_pathIn (directory : String) (hname : '/' ∉ name.toList) : ∃ before blanks,
    names directory = before ++ blanks ∧ (∀ other ∈ blanks, other = "") ∧
    names (BatchArgs.pathIn directory name) = before ++ [name] := by
  obtain ⟨cs, hpath, hdirectory⟩ := toList_pathIn directory name
  refine ⟨(Pieces.pieces '/' cs).map String.ofList, ?_⟩
  have hnames : names (BatchArgs.pathIn directory name) = (Pieces.pieces '/' cs).map String.ofList ++ [name] := by
    rw [names, hpath, Pieces.pieces_append_separator, Pieces.pieces_of_not_mem hname]
    simp
  obtain hcs | hcs := hdirectory
  · exact ⟨[], by rw [names, hcs, List.append_nil], by simp, hnames⟩
  · refine ⟨[""], ?_, by simp, hnames⟩
    rw [names, hcs, Pieces.pieces_append_separator, Pieces.pieces_nil]
    simp

/-- The path of a file starts where that of its directory does. -/
theorem origin_pathIn {directory : String} (h : directory ≠ "") (name : String) :
    t.origin (BatchArgs.pathIn directory name) = t.origin directory := by
  have hstart : (BatchArgs.pathIn directory name).startsWith "/" = directory.startsWith "/" := by
    obtain ⟨cs, hpath, hdirectory⟩ := toList_pathIn directory name
    have hleads : directory.toList <+: (BatchArgs.pathIn directory name).toList := by
      rw [hpath]
      obtain hcs | hcs := hdirectory
      · exact ⟨'/' :: name.toList, by rw [hcs]⟩
      · exact ⟨name.toList, by rw [hcs, List.append_assoc, List.singleton_append]⟩
    have hlength : 0 < directory.toList.length := List.length_pos_of_ne_nil (by simpa using h)
    rw [Bool.eq_iff_iff, String.startsWith_string_iff, String.startsWith_string_iff]
    exact ⟨fun hs => List.prefix_of_prefix_length_le hs hleads hlength, fun hs => hs.trans hleads⟩
  rw [origin, hstart, origin]

theorem target_pathIn {directory : String} (h : t.find directory = .ok (place, .directory))
    (hname : '/' ∉ name.toList) (hblank : name ≠ "") (hstep : isStep name = false) :
    t.target (BatchArgs.pathIn directory name) = .ok ⟨place, some name, false⟩ := by
  obtain ⟨hdirectory, henter⟩ := enter_names h
  obtain ⟨before, blanks, hbefore, hblanks, hnames⟩ := names_pathIn directory hname
  rw [hbefore, enter_append_blanks hblanks, ← origin_pathIn hdirectory name] at henter
  have hne : (BatchArgs.pathIn directory name).isEmpty = false := by
    obtain ⟨cs, hpath, -⟩ := toList_pathIn directory name
    rw [Bool.eq_false_iff, Ne, String.isEmpty_iff]
    intro hempty
    simp [hempty] at hpath
  have hreversed : (before ++ [name]).reverse.dropWhile (· = "") = name :: before.reverse := by
    simp [hblank]
  have hlength : ¬ (name :: before.reverse).length < (before ++ [name]).length := by simp
  unfold target
  rw [hne, hnames]
  dsimp only
  rw [hreversed]
  dsimp only
  rw [hstep, decide_eq_false hlength, List.reverse_reverse]
  change (t.enter (t.origin (BatchArgs.pathIn directory name)) before).map _ = _
  rw [henter]
  rfl

theorem ne_of_isTaken (h : BatchArgs.isTaken name = true) : name ≠ "" ∧ isStep name = false := by
  refine ⟨?_, Bool.eq_false_iff.2 fun hstep => ?_⟩
  · rintro rfl
    exact absurd h (by decide)
  · obtain rfl | rfl : name = "." ∨ name = ".." := by simpa [isStep] using hstep
    · exact absurd h (by decide)
    · exact absurd h (by decide)

/-- A file that is listed in a directory is found by the path that the two names make up. -/
theorem contents_pathIn (hnodup : (t.entries.map Prod.fst).Nodup) {directory : String}
    (h : t.find directory = .ok (place, .directory)) (hname : '/' ∉ name.toList)
    (htaken : BatchArgs.isTaken name = true) (he : (place ++ [name], FileNode.file bytes) ∈ t.entries) :
    t.contents (BatchArgs.pathIn directory name) = .ok bytes := by
  have hnode : t.node? (place ++ [name]) = some (.file bytes) := (node?_eq_some_iff hnodup (by simp)).2 he
  obtain ⟨hblank, hstep⟩ := ne_of_isTaken htaken
  have hfind : t.find (BatchArgs.pathIn directory name) = .ok (place ++ [name], .file bytes) := by
    unfold find
    rw [target_pathIn h hname hblank hstep]
    dsimp only [bind, Except.bind]
    rw [hnode]
    rfl
  rw [contents, hfind]

end FileTree

end SatSearch
