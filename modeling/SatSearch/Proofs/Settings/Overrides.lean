import Mathlib.Data.List.Forall2
import Mathlib.Data.List.TakeDrop
import Mathlib.Data.List.TakeWhile
import SatSearch.Proofs.Text.Numerals
import SatSearch.Settings.Override
/-!
# The grammar of overrides

An override is one of five keys, an equals sign and the spelling of a value (`Setting.Gives`); what else it can
be is told by `Setting.Malformed`, with the error for it. The first equals sign counts, since no key has one.
Every text is just one of the two (`parse_eq_ok_iff`, `parse_eq_error_iff`). Of several texts the first that is
malformed decides (`parseAll_eq_error`).
-/

namespace SatSearch

/-! ## Keys -/

/-- What there is to set. -/
inductive SettingKey where
  | maxIterations
  | localRate
  | seed
  | recordTrace
  | clausesPerVar
  deriving DecidableEq, Repr

namespace SettingKey

/-- A key as overrides spell it. -/
def name : SettingKey → String
  | maxIterations => "search.max-iterations"
  | localRate => "search.p-local"
  | seed => "search.seed"
  | recordTrace => "search.record-trace"
  | clausesPerVar => "generator.clauses-per-var"

def kind : SettingKey → ValueKind
  | maxIterations => .integer
  | localRate => .float
  | seed => .integer
  | recordTrace => .boolean
  | clausesPerVar => .float

theorem name_injective {k k' : SettingKey} (h : k.name = k'.name) : k = k' := by
  cases k <;> cases k' <;> simp [name] at h ⊢

theorem not_mem_name (k : SettingKey) : '=' ∉ k.name.toList := by
  cases k <;> decide

end SettingKey

namespace Setting

variable {text value : String} {s s' : Setting} {k : SettingKey} {e : OverrideError}

def key : Setting → SettingKey
  | maxIterations _ => .maxIterations
  | localRate _ => .localRate
  | seed _ => .seed
  | recordTrace _ => .recordTrace
  | clausesPerVar _ => .clausesPerVar

/-! ## Values -/

/-- The text spells the value of the setting. -/
inductive Spells : String → Setting → Prop
  | maxIterations {value : String} {n : Nat} : Numeral.IsCount value.toList n → Spells value (maxIterations n)
  | localRate {value : String} {x : Float} : Decimal.float? value.toList = some x → Spells value (localRate x)
  | seed {value : String} {w : UInt64} : Numeral.IsCount value.toList w.toNat → Spells value (seed w)
  | recordTrue : Spells "true" (recordTrace true)
  | recordFalse : Spells "false" (recordTrace false)
  | clausesPerVar {value : String} {x : Float} : Decimal.float? value.toList = some x →
      Spells value (clausesPerVar x)

/-- The value of a key's kind that a text spells. -/
def ofValue? (k : SettingKey) (value : String) : Option Setting :=
  match k with
  | .maxIterations => (Numeral.count? value.toList).map maxIterations
  | .localRate => (Decimal.float? value.toList).map localRate
  | .seed => ((Numeral.count? value.toList).map UInt64.ofNat).map seed
  | .recordTrace => (Numeral.bool? value).map recordTrace
  | .clausesPerVar => (Decimal.float? value.toList).map clausesPerVar

theorem word_eq_some_iff {w : UInt64} : (Numeral.count? value.toList).map UInt64.ofNat = some w ↔
    Numeral.IsCount value.toList w.toNat := by
  rw [Option.map_eq_some_iff]
  constructor
  · rintro ⟨n, hn, rfl⟩
    have hcount := Numeral.count?_eq_some_iff.1 hn
    have hlt : n < UInt64.size := hcount.lt
    rwa [UInt64.toNat_ofNat_of_lt' hlt]
  · intro h
    exact ⟨w.toNat, Numeral.count?_eq_some_iff.2 h, UInt64.ofNat_toNat⟩

theorem ofValue?_eq_some_iff : ofValue? k value = some s ↔ s.key = k ∧ Spells value s := by
  constructor
  · intro h
    cases k <;> obtain ⟨a, ha, rfl⟩ := Option.map_eq_some_iff.1 h
    · exact ⟨rfl, .maxIterations (Numeral.count?_eq_some_iff.1 ha)⟩
    · exact ⟨rfl, .localRate ha⟩
    · exact ⟨rfl, .seed (word_eq_some_iff.1 ha)⟩
    · obtain rfl := Numeral.bool?_eq_some_iff.1 ha
      cases a with
      | true => exact ⟨rfl, .recordTrue⟩
      | false => exact ⟨rfl, .recordFalse⟩
    · exact ⟨rfl, .clausesPerVar ha⟩
  · rintro ⟨rfl, h⟩
    cases h with
    | maxIterations h => simp [ofValue?, key, Numeral.count?_eq_some_iff.2 h]
    | localRate h => simp [ofValue?, key, h]
    | seed h => simp [ofValue?, key, word_eq_some_iff.2 h]
    | recordTrue => rfl
    | recordFalse => rfl
    | clausesPerVar h => simp [ofValue?, key, h]

/-! ## Texts -/

/-- The text is the setting's key, an equals sign and the spelling of its value. -/
def Gives (text : String) (s : Setting) : Prop := ∃ value, text = s.key.name ++ "=" ++ value ∧ Spells value s

/-- The text gives no setting, for the reason that is told. -/
inductive Malformed : String → OverrideError → Prop
  | noValue {text : String} : '=' ∉ text.toList → Malformed text (.noValue text)
  | unknownKey {key value : String} : '=' ∉ key.toList → (∀ k : SettingKey, key ≠ k.name) →
      Malformed (key ++ "=" ++ value) (.unknownKey key)
  | badValue {k : SettingKey} {value : String} : (∀ s, s.key = k → ¬ Spells value s) →
      Malformed (k.name ++ "=" ++ value) (.badValue k.kind k.name value)

theorem forall_ne_of_not_mem {cs : List Char} (h : '=' ∉ cs) : ∀ c ∈ cs, (c != '=') = true := by
  intro c hc
  rw [bne_iff_ne]
  rintro rfl
  exact h hc

theorem toList_pair (key value : String) : (key ++ "=" ++ value).toList = key.toList ++ '=' :: value.toList := by
  simp

theorem splitPair?_pair {key : String} (h : '=' ∉ key.toList) (value : String) :
    splitPair? (key ++ "=" ++ value) = some (key, value) := by
  have hkey := forall_ne_of_not_mem h
  unfold splitPair?
  rw [toList_pair, List.span_eq_takeWhile_dropWhile, List.takeWhile_append_of_pos hkey,
    List.dropWhile_append_of_pos hkey]
  simp

theorem splitPair?_eq_none (h : '=' ∉ text.toList) : splitPair? text = none := by
  unfold splitPair?
  rw [List.span_eq_takeWhile_dropWhile, List.dropWhile_eq_nil_iff.2 (forall_ne_of_not_mem h)]

/-- A text that has an equals sign is cut at the first one. -/
theorem exists_pair_of_mem (h : '=' ∈ text.toList) :
    ∃ key value : String, '=' ∉ key.toList ∧ text = key ++ "=" ++ value := by
  obtain ⟨before, after, hlist, hnot⟩ := List.eq_append_cons_of_mem h
  refine ⟨String.ofList before, String.ofList after, by simpa using hnot, ?_⟩
  apply String.toList_inj.1
  rw [toList_pair, hlist]
  simp

theorem ofPair_name : ofPair k.name value = match ofValue? k value with
    | some s => .ok s
    | none => .error (.badValue k.kind k.name value) := by
  cases k <;> simp only [SettingKey.name, SettingKey.kind, ofPair, ofValue?, reduceIte, String.reduceEq]
  · cases Numeral.count? value.toList <;> rfl
  · cases Decimal.float? value.toList <;> rfl
  · cases Numeral.count? value.toList <;> rfl
  · cases Numeral.bool? value <;> rfl
  · cases Decimal.float? value.toList <;> rfl

theorem ofPair_of_ne {key : String} (h : ∀ k : SettingKey, key ≠ k.name) :
    ofPair key value = .error (.unknownKey key) := by
  have h₁ := h .maxIterations
  have h₂ := h .localRate
  have h₃ := h .seed
  have h₄ := h .recordTrace
  have h₅ := h .clausesPerVar
  simp only [SettingKey.name] at h₁ h₂ h₃ h₄ h₅
  simp [ofPair, h₁, h₂, h₃, h₄, h₅]

theorem parse_pair {key : String} (h : '=' ∉ key.toList) (value : String) :
    parse (key ++ "=" ++ value) = ofPair key value := by
  rw [parse, splitPair?_pair h]

theorem parse_of_gives (h : Gives text s) : parse text = .ok s := by
  obtain ⟨value, rfl, hspell⟩ := h
  rw [parse_pair (SettingKey.not_mem_name s.key), ofPair_name, ofValue?_eq_some_iff.2 ⟨rfl, hspell⟩]

theorem parse_of_malformed (h : Malformed text e) : parse text = .error e := by
  cases h with
  | noValue h => rw [parse, splitPair?_eq_none h]
  | unknownKey hnot hne => rw [parse_pair hnot, ofPair_of_ne hne]
  | @badValue k value hbad =>
    have hnone : ofValue? k value = none := by
      refine Option.eq_none_iff_forall_ne_some.2 fun s hs => ?_
      obtain ⟨hkey, hspell⟩ := ofValue?_eq_some_iff.1 hs
      exact hbad s hkey hspell
    rw [parse_pair (SettingKey.not_mem_name k), ofPair_name, hnone]

theorem gives_or_malformed (text : String) : (∃ s, Gives text s) ∨ ∃ e, Malformed text e := by
  by_cases hmem : '=' ∈ text.toList
  · obtain ⟨key, value, hnot, rfl⟩ := exists_pair_of_mem hmem
    by_cases hkey : ∃ k : SettingKey, key = k.name
    · obtain ⟨k, rfl⟩ := hkey
      by_cases hspell : ∃ s : Setting, s.key = k ∧ Spells value s
      · obtain ⟨s, rfl, hs⟩ := hspell
        exact .inl ⟨s, value, rfl, hs⟩
      · exact .inr ⟨_, .badValue fun s hs hv => hspell ⟨s, hs, hv⟩⟩
    · exact .inr ⟨_, .unknownKey hnot fun k hk => hkey ⟨k, hk⟩⟩
  · exact .inr ⟨_, .noValue hmem⟩

/-- **A text is read as a setting exactly if it gives it.** -/
theorem parse_eq_ok_iff : parse text = .ok s ↔ Gives text s := by
  refine ⟨fun h => ?_, parse_of_gives⟩
  rcases gives_or_malformed text with ⟨s', hs⟩ | ⟨e, he⟩
  · have heq := h.symm.trans (parse_of_gives hs)
    cases heq
    exact hs
  · have heq := h.symm.trans (parse_of_malformed he)
    cases heq

/-- **A text is refused exactly if it is malformed, for that reason.** -/
theorem parse_eq_error_iff : parse text = .error e ↔ Malformed text e := by
  refine ⟨fun h => ?_, parse_of_malformed⟩
  rcases gives_or_malformed text with ⟨s, hs⟩ | ⟨e', he⟩
  · have heq := h.symm.trans (parse_of_gives hs)
    cases heq
  · have heq := h.symm.trans (parse_of_malformed he)
    cases heq
    exact he

/-! ## Lists of texts -/

theorem exists_forall₂_gives_iff {texts : List String} :
    (∃ settings, List.Forall₂ Gives texts settings) ↔ ∀ text ∈ texts, ∃ s, Gives text s := by
  induction texts with
  | nil => simp
  | cons text texts ih =>
    simp only [List.forall_mem_cons, ← ih, List.forall₂_cons_left_iff]
    constructor
    · rintro ⟨_, s, settings, hs, hrest, rfl⟩
      exact ⟨⟨s, hs⟩, settings, hrest⟩
    · rintro ⟨⟨s, hs⟩, settings, hrest⟩
      exact ⟨_, s, settings, hs, hrest, rfl⟩

/-- **All texts are read exactly if each gives a setting.** -/
theorem parseAll_eq_ok_iff {texts : List String} {settings : List Setting} :
    parseAll texts = .ok settings ↔ List.Forall₂ Gives texts settings := by
  induction texts generalizing settings with
  | nil => simp [parseAll, eq_comm]
  | cons text texts ih =>
    rw [parseAll, List.forall₂_cons_left_iff]
    constructor
    · intro h
      split at h
      · cases h
      · next s hs =>
        split at h
        · cases h
        · next ss hss =>
          cases h
          exact ⟨s, ss, parse_eq_ok_iff.1 hs, ih.1 hss, rfl⟩
    · rintro ⟨s, ss, hs, hss, rfl⟩
      rw [parse_of_gives hs, ih.2 hss]

/-- **The error of many texts is that of the first one that is malformed.** -/
theorem parseAll_eq_error {before after : List String} (hbefore : ∀ t ∈ before, ∃ s, Gives t s)
    (h : Malformed text e) : parseAll (before ++ text :: after) = .error e := by
  induction before with
  | nil => rw [List.nil_append, parseAll, parse_of_malformed h]
  | cons t ts ih =>
    obtain ⟨⟨s, hs⟩, hts⟩ := List.forall_mem_cons.1 hbefore
    rw [List.cons_append, parseAll, parse_of_gives hs, ih hts]

end Setting

end SatSearch
