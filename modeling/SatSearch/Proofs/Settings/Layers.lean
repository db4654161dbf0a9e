import SatSearch.Command.Arguments
import SatSearch.Proofs.Settings.Overrides
/-!
# Sources of settings

A source gives values to some keys: a list of overrides (`Setting.LastOf`), the flags, a settings file, the
defaults. `Setting.FirstOf` lays one source over another, and that is what the layers do (`Layer.gives_above`).
Settings put one after another come to the last text that names each key (`Layer.gives_ofSettings`).
-/

namespace SatSearch

namespace Setting

variable {upper middle lower : Setting → Prop} {s t : Setting} {text : String} {texts : List String}

/-! ## One source over another -/

/-- The settings of two sources, of which the lower one is asked only for keys that the upper one leaves open. -/
inductive FirstOf (upper lower : Setting → Prop) (s : Setting) : Prop
  | upper : upper s → FirstOf upper lower s
  | lower : (∀ t : Setting, t.key = s.key → ¬ upper t) → lower s → FirstOf upper lower s

theorem firstOf_iff_upper (ht : upper t) (hkey : t.key = s.key) : FirstOf upper lower s ↔ upper s := by
  constructor
  · rintro (h | ⟨hopen, -⟩)
    · exact h
    · exact absurd ht (hopen t hkey)
  · exact .upper

theorem firstOf_iff_lower (hopen : ∀ t : Setting, t.key = s.key → ¬ upper t) :
    FirstOf upper lower s ↔ lower s := by
  constructor
  · rintro (h | ⟨-, h⟩)
    · exact absurd h (hopen s rfl)
    · exact h
  · exact .lower hopen

theorem firstOf_nothing : FirstOf upper (fun _ => False) = upper := by
  funext s
  refine propext ⟨?_, .upper⟩
  rintro (h | ⟨-, h⟩)
  · exact h
  · exact h.elim

theorem firstOf_assoc : FirstOf (FirstOf upper middle) lower = FirstOf upper (FirstOf middle lower) := by
  funext s
  refine propext ⟨?_, ?_⟩
  · rintro ((h | ⟨hupper, h⟩) | ⟨hopen, h⟩)
    · exact .upper h
    · exact .lower hupper (.upper h)
    · have hupper : ∀ t : Setting, t.key = s.key → ¬ upper t := fun t ht hu => hopen t ht (.upper hu)
      refine .lower hupper (.lower (fun t ht hm => hopen t ht (.lower ?_ hm)) h)
      rwa [ht]
  · rintro (h | ⟨hupper, h | ⟨hmiddle, h⟩⟩)
    · exact .upper (.upper h)
    · exact .upper (.lower hupper h)
    · refine .lower ?_ h
      rintro t ht (hu | ⟨-, hm⟩)
      · exact hupper t ht hu
      · exact hmiddle t ht hm

/-! ## The last override of each key -/

/-- What a text names: all before its first equals sign. -/
def named (text : String) : List Char := text.toList.takeWhile (· != '=')

/-- The last text that names the key. -/
def lastNaming (texts : List String) (k : SettingKey) : Option String :=
  (texts.filter fun text => named text = k.name.toList).getLast?

/-- The settings that overrides come to: for each key the one of the last text that names it. -/
def LastOf (texts : List String) (s : Setting) : Prop :=
  ∃ text, lastNaming texts s.key = some text ∧ Gives text s

theorem named_of_gives (h : Gives text s) : named text = s.key.name.toList := by
  obtain ⟨value, rfl, -⟩ := h
  have hkey := forall_ne_of_not_mem (SettingKey.not_mem_name s.key)
  rw [named, toList_pair, List.takeWhile_append_of_pos hkey]
  simp

theorem lastNaming_cons {k : SettingKey} : lastNaming (text :: texts) k =
    (lastNaming texts k).or (if named text = k.name.toList then some text else none) := by
  unfold lastNaming
  by_cases h : named text = k.name.toList
  · rw [List.filter_cons_of_pos (by simpa using h), List.getLast?_cons, if_pos h]
    cases (texts.filter fun text => named text = k.name.toList).getLast? <;> rfl
  · rw [List.filter_cons_of_neg (by simpa using h), if_neg h, Option.or_none]

theorem mem_of_lastNaming {k : SettingKey} (h : lastNaming texts k = some text) :
    text ∈ texts ∧ named text = k.name.toList := by
  have hmem := List.mem_of_getLast? h
  simpa using hmem

theorem gives_unique (hs : Gives text s) (ht : Gives text t) : s = t := by
  have heq := (parse_of_gives hs).symm.trans (parse_of_gives ht)
  cases heq
  rfl

/-- Of overrides that follow one, it counts for the keys that they leave open. -/
theorem lastOf_cons (hall : ∀ t ∈ texts, ∃ s, Gives t s) (h : Gives text t) :
    LastOf (text :: texts) = FirstOf (LastOf texts) (· = t) := by
  funext s
  apply propext
  unfold LastOf
  rw [lastNaming_cons]
  -- the first text counts for a key only if no later one names it
  cases hlast : lastNaming texts s.key with
  | some later =>
    obtain ⟨hmem, hname⟩ := mem_of_lastNaming hlast
    obtain ⟨s', hs'⟩ := hall later hmem
    have hkey : s'.key = s.key := SettingKey.name_injective (String.toList_inj.1 (named_of_gives hs' ▸ hname))
    rw [firstOf_iff_upper ⟨later, hkey ▸ hlast, hs'⟩ hkey, hlast, Option.some_or]
  | none =>
    have hopen : ∀ t : Setting, t.key = s.key → ¬ ∃ text, lastNaming texts t.key = some text ∧ Gives text t := by
      rintro t ht ⟨later, hlater, -⟩
      rw [ht, hlast] at hlater
      cases hlater
    rw [firstOf_iff_lower hopen, Option.none_or]
    constructor
    · rintro ⟨text', htext, hs⟩
      split at htext
      · cases htext
        exact gives_unique hs h
      · cases htext
    · rintro rfl
      exact ⟨text, if_pos (named_of_gives h), h⟩

theorem lastOf_nil : LastOf [] = fun _ => False := by
  funext s
  simp [LastOf, lastNaming]

end Setting

/-! ## Layers -/

namespace Layer

open Setting (FirstOf LastOf)

variable {layer upper lower : Layer} {s t : Setting} {k : SettingKey}

def Gives (layer : Layer) : Setting → Prop
  | .maxIterations n => layer.maxIterations = some n
  | .localRate x => layer.localRate = some x
  | .seed w => layer.seed = some w
  | .recordTrace b => layer.recordTrace = some b
  | .clausesPerVar x => layer.clausesPerVar = some x

/-- The setting that a layer has for a key. -/
def value? (layer : Layer) : SettingKey → Option Setting
  | .maxIterations => layer.maxIterations.map .maxIterations
  | .localRate => layer.localRate.map .localRate
  | .seed => layer.seed.map .seed
  | .recordTrace => layer.recordTrace.map .recordTrace
  | .clausesPerVar => layer.clausesPerVar.map .clausesPerVar

theorem value?_eq_some_iff : layer.value? k = some s ↔ s.key = k ∧ layer.Gives s := by
  cases k <;> cases s <;> simp [value?, Gives, Setting.key]

theorem value?_eq_none_iff : layer.value? k = none ↔ ∀ t : Setting, t.key = k → ¬ layer.Gives t := by
  rw [Option.eq_none_iff_forall_ne_some]
  simp only [ne_eq, value?_eq_some_iff, not_and]

theorem value?_above : (upper.above lower).value? k = (upper.value? k).or (lower.value? k) := by
  cases k <;> simp only [above, value?, Option.map_or]

theorem value?_put : (layer.put t).value? k = if t.key = k then some t else layer.value? k := by
  cases t <;> cases k <;> rfl

/-- **A layer above another is asked first.** -/
theorem gives_above : (upper.above lower).Gives = FirstOf upper.Gives lower.Gives := by
  funext s
  apply propext
  have hgives : (upper.above lower).Gives s ↔ (upper.value? s.key).or (lower.value? s.key) = some s := by
    rw [← value?_above, value?_eq_some_iff]
    simp
  rw [hgives]
  cases h : upper.value? s.key with
  | some t =>
    obtain ⟨hkey, ht⟩ := value?_eq_some_iff.1 h
    rw [Setting.firstOf_iff_upper ht hkey, Option.some_or, ← h, value?_eq_some_iff]
    simp
  | none =>
    rw [Setting.firstOf_iff_lower (value?_eq_none_iff.1 h), Option.none_or, value?_eq_some_iff]
    simp

theorem gives_put : (layer.put t).Gives = FirstOf (· = t) layer.Gives := by
  funext s
  apply propext
  have hgives : (layer.put t).Gives s ↔ (if t.key = s.key then some t else layer.value? s.key) = some s := by
    rw [← value?_put, value?_eq_some_iff]
    simp
  rw [hgives]
  by_cases hkey : t.key = s.key
  · have hupper : FirstOf (· = t) layer.Gives s ↔ s = t := Setting.firstOf_iff_upper rfl hkey
    rw [hupper, if_pos hkey, Option.some.injEq, eq_comm]
  · have hopen : ∀ t' : Setting, t'.key = s.key → t' ≠ t := by
      rintro t' ht rfl
      exact hkey ht
    rw [Setting.firstOf_iff_lower hopen, if_neg hkey, value?_eq_some_iff]
    simp

theorem gives_foldl_put {texts : List String} {settings : List Setting}
    (h : List.Forall₂ Setting.Gives texts settings) (layer : Layer) :
    (settings.foldl put layer).Gives = FirstOf (LastOf texts) layer.Gives := by
  induction h generalizing layer with
  | nil =>
    funext s
    rw [List.foldl_nil, Setting.lastOf_nil]
    exact propext (Setting.firstOf_iff_lower fun _ _ h => h).symm
  | @cons text t texts settings ht hrest ih =>
    have hall := Setting.exists_forall₂_gives_iff.1 ⟨settings, hrest⟩
    -- the first setting lies above the layer, and all later ones above it
    rw [List.foldl_cons, ih, gives_put, Setting.lastOf_cons hall ht, Setting.firstOf_assoc]

/-- **Settings given one after another come to the last one of each key.** -/
theorem gives_ofSettings {texts : List String} {settings : List Setting}
    (h : List.Forall₂ Setting.Gives texts settings) : (ofSettings settings).Gives = LastOf texts := by
  have hnothing : Gives {} = fun _ => False := by
    funext s
    cases s <;> simp [Gives]
  rw [ofSettings, gives_foldl_put h, hnothing, Setting.firstOf_nothing]

end Layer

end SatSearch
