import SatSearch.Proofs.Settings.Layers
/-!
# Resolved settings

What a run's settings are is said without the layers (`SearchArgs.Resolved`): for each key the last override that
names it, else the flag, else the file, else the default. Only these are judged (`AppConfig.Judged`), in a fixed
order, and only if all overrides are well-formed (`SearchArgs.resolve_exact`).
-/

namespace SatSearch

open Setting (FirstOf LastOf)

/-! ## The sources -/

/-- The settings of the flags; the one for the trace can only turn it off. -/
def SearchArgs.Gives (args : SearchArgs) (ratio : Option Float) : Setting → Prop
  | .maxIterations n => args.maxIterations = some n
  | .localRate x => args.localRate = some x
  | .seed w => args.seed = some w
  | .recordTrace b => args.noTrace = true ∧ b = false
  | .clausesPerVar x => ratio = some x

/-- The settings of a file, each in its section. -/
def SettingsFile.Gives (file : SettingsFile) : Setting → Prop
  | .maxIterations n => ∃ search, file.search = some search ∧ search.maxIterations = some n
  | .localRate x => ∃ search, file.search = some search ∧ search.localRate = some x
  | .seed w => ∃ search, file.search = some search ∧ search.seed = some w
  | .recordTrace b => ∃ search, file.search = some search ∧ search.recordTrace = some b
  | .clausesPerVar x => ∃ generator, file.generator = some generator ∧ generator.clausesPerVar = some x

/-- The built-in settings, which have no seed. -/
def Setting.IsDefault : Setting → Prop
  | .maxIterations n => n = 100000
  | .localRate x => x = 0.5
  | .seed _ => False
  | .recordTrace b => b = true
  | .clausesPerVar x => x = 4.3

/-- What the sources come to, if there is a file or not. -/
def SearchArgs.Resolved (args : SearchArgs) (ratio : Option Float) (file : Option SettingsFile) : Setting → Prop :=
  FirstOf (LastOf args.overrides) <| FirstOf (args.Gives ratio) <|
    FirstOf (fun s => ∃ f, file = some f ∧ f.Gives s) Setting.IsDefault

/-! ## Judging settings -/

namespace AppConfig

variable {c c' : AppConfig} {r r' : Except SettingsError AppConfig}

def Has (c : AppConfig) : Setting → Prop
  | .maxIterations n => c.search.maxIterations = n
  | .localRate x => c.search.localRate = x
  | .seed w => c.search.seed = some w
  | .recordTrace b => c.search.recordTrace = b
  | .clausesPerVar x => c.clausesPerVar = x

def RatioInRange (c : AppConfig) : Prop := c.clausesPerVar.isFinite = true ∧ 0.0 < c.clausesPerVar

def RateInRange (c : AppConfig) : Prop := 0.0 ≤ c.search.localRate ∧ c.search.localRate ≤ 1.0

/-- The ratio is finite and positive, the rate a probability and the budget positive. -/
structure InRange (c : AppConfig) : Prop where
  ratio : c.RatioInRange
  rate : c.RateInRange
  budget : 0 < c.search.maxIterations

/-- What becomes of settings: the ratio is checked first, then the rate, then the budget. -/
inductive Judged (c : AppConfig) : Except SettingsError AppConfig → Prop
  | badRatio : ¬ c.RatioInRange → Judged c (.error (.badRatio c.clausesPerVar))
  | badRate : c.RatioInRange → ¬ c.RateInRange →
      Judged c (.error (.badSearch (.invalidLocalRate c.search.localRate)))
  | noBudget : c.RatioInRange → c.RateInRange → c.search.maxIterations = 0 →
      Judged c (.error (.badSearch .zeroIterations))
  | accepted : c.InRange → Judged c (.ok c)

theorem Judged.eq_ok_iff (h : c.Judged r) : r = .ok c' ↔ c.InRange ∧ c = c' := by
  cases h with
  | badRatio hratio => simpa using fun hrange : c.InRange => absurd hrange.ratio hratio
  | badRate _ hrate => simpa using fun hrange : c.InRange => absurd hrange.rate hrate
  | noBudget _ _ hbudget => simpa using fun hrange : c.InRange => absurd hbudget hrange.budget.ne'
  | accepted hrange => simp [hrange]

/-- The checks leave no choice. -/
theorem Judged.unique (h : c.Judged r) (h' : c.Judged r') : r = r' := by
  cases h with
  | badRatio hratio =>
    cases h' with
    | badRatio => rfl
    | badRate hratio' => exact absurd hratio' hratio
    | noBudget hratio' => exact absurd hratio' hratio
    | accepted hrange => exact absurd hrange.ratio hratio
  | badRate hratio hrate =>
    cases h' with
    | badRatio hratio' => exact absurd hratio hratio'
    | badRate => rfl
    | noBudget _ hrate' => exact absurd hrate' hrate
    | accepted hrange => exact absurd hrange.rate hrate
  | noBudget hratio hrate hbudget =>
    cases h' with
    | badRatio hratio' => exact absurd hratio hratio'
    | badRate _ hrate' => exact absurd hrate hrate'
    | noBudget => rfl
    | accepted hrange => exact absurd hbudget hrange.budget.ne'
  | accepted hrange => exact ((Judged.eq_ok_iff h').2 ⟨hrange, rfl⟩).symm

theorem eq_of_has (h : ∀ s, c.Has s ↔ c'.Has s) : c = c' := by
  obtain ⟨⟨n, x, seed, b⟩, ratio⟩ := c
  obtain ⟨⟨n', x', seed', b'⟩, ratio'⟩ := c'
  have hn : n' = n := (h (.maxIterations n)).1 rfl
  have hx : x' = x := (h (.localRate x)).1 rfl
  have hb : b' = b := (h (.recordTrace b)).1 rfl
  have hratio : ratio' = ratio := (h (.clausesPerVar ratio)).1 rfl
  have hseed : seed = seed' := Option.ext fun w => h (.seed w)
  rw [hn, hx, hb, hratio, hseed]

theorem ratioIsValid_iff : ratioIsValid c.clausesPerVar = true ↔ c.RatioInRange := by
  simp [ratioIsValid, RatioInRange]

theorem rateIsValid_iff : SearchConfig.rateIsValid c.search.localRate = true ↔ c.RateInRange := by
  simp [SearchConfig.rateIsValid, RateInRange]

end AppConfig

/-! ## The layers -/

namespace Layer

variable {layer : Layer} {args : SearchArgs} {ratio : Option Float} {file : Option SettingsFile} {s : Setting}

theorem gives_flags : (args.layer ratio).Gives = args.Gives ratio := by
  funext s
  cases s with
  | recordTrace b => cases h : args.noTrace <;> simp [Gives, SearchArgs.Gives, SearchArgs.layer, h, eq_comm]
  | _ => rfl

theorem gives_ofFile : (ofFile (file.getD {})).Gives = fun s => ∃ f, file = some f ∧ f.Gives s := by
  funext s
  cases file with
  | none => cases s <;> simp [Gives, ofFile]
  | some f =>
    obtain ⟨search, generator⟩ := f
    cases s <;> cases search <;> cases generator <;> simp [Gives, ofFile, SettingsFile.Gives]

/-- The layer of the built-in settings. -/
def defaults : Layer :=
  { maxIterations := some 100000, localRate := some 0.5, recordTrace := some true, clausesPerVar := some 4.3 }

theorem gives_defaults : defaults.Gives = Setting.IsDefault := by
  funext s
  cases s <;> simp [Gives, defaults, Setting.IsDefault, eq_comm]

/-- The settings of a layer, with the defaults where it leaves them open. -/
def config (layer : Layer) : AppConfig :=
  { search :=
      { maxIterations := layer.maxIterations.getD 100000
        localRate := layer.localRate.getD 0.5
        seed := layer.seed
        recordTrace := layer.recordTrace.getD true }
    clausesPerVar := layer.clausesPerVar.getD 4.3 }

theorem has_config : layer.config.Has = FirstOf layer.Gives Setting.IsDefault := by
  rw [← gives_defaults, ← gives_above]
  funext s
  cases s <;> simp [AppConfig.Has, Gives, config, above, defaults]

/-- **The layers of arguments and a file come to the settings that are resolved.** -/
theorem has_config_eq_resolved {settings : List Setting}
    (h : List.Forall₂ Setting.Gives args.overrides settings) :
    ((ofSettings settings).above ((args.layer ratio).above (ofFile (file.getD {})))).config.Has =
      args.Resolved ratio file := by
  rw [has_config, gives_above, gives_above, gives_ofSettings h, gives_flags, gives_ofFile,
    Setting.firstOf_assoc, Setting.firstOf_assoc, SearchArgs.Resolved]

/-! ## What becomes of a layer -/

theorem build_eq : SearchConfig.build layer.maxIterations layer.localRate layer.seed layer.recordTrace =
    match layer.config.search.validate with
    | .ok _ => .ok layer.config.search
    | .error e => .error e := rfl

theorem ofLayer_eq : AppConfig.ofLayer layer =
    if AppConfig.ratioIsValid layer.config.clausesPerVar then
      match layer.config.search.validate with
      | .ok _ => .ok layer.config
      | .error e => .error (.badSearch e)
    else .error (.badRatio layer.config.clausesPerVar) := by
  rw [AppConfig.ofLayer, build_eq]
  cases layer.config.search.validate <;> rfl

theorem validate_of_ofLayer {c : AppConfig} (h : AppConfig.ofLayer layer = .ok c) : c.search.validate = .ok () := by
  rw [ofLayer_eq] at h
  split at h
  · split at h
    · next hvalid =>
      cases h
      exact hvalid
    · cases h
  · cases h

theorem judged_ofLayer : layer.config.Judged (AppConfig.ofLayer layer) := by
  rw [ofLayer_eq]
  by_cases hratio : AppConfig.ratioIsValid layer.config.clausesPerVar = true
  · rw [if_pos hratio, SearchConfig.validate]
    have hratio := AppConfig.ratioIsValid_iff.1 hratio
    by_cases hrate : SearchConfig.rateIsValid layer.config.search.localRate = true
    · rw [if_pos hrate]
      have hrate := AppConfig.rateIsValid_iff.1 hrate
      by_cases hbudget : layer.config.search.maxIterations = 0
      · rw [if_pos hbudget]
        exact .noBudget hratio hrate hbudget
      · rw [if_neg hbudget]
        exact .accepted ⟨hratio, hrate, Nat.pos_of_ne_zero hbudget⟩
    · rw [if_neg hrate]
      exact .badRate hratio fun h => hrate (AppConfig.rateIsValid_iff.2 h)
  · rw [if_neg hratio]
    exact .badRatio fun h => hratio (AppConfig.ratioIsValid_iff.2 h)

end Layer

/-! ## Resolving -/

/-- Settings that are resolved are valid for the search. -/
theorem AppConfig.validate_of_resolve {overrides : List String} {flags : Layer} {file : SettingsFile} {c : AppConfig}
    (h : AppConfig.resolve overrides flags file = .ok c) : c.search.validate = .ok () := by
  unfold AppConfig.resolve at h
  split at h
  · cases h
  · exact Layer.validate_of_ofLayer h

namespace SearchArgs

variable {args args' : SearchArgs} {ratio ratio' : Option Float} {file file' : Option SettingsFile} {c : AppConfig}

/-- **Well-formed overrides leave only the settings that are resolved to judge.** -/
theorem exists_judged (ratio : Option Float) (file : Option SettingsFile)
    (h : ∀ text ∈ args.overrides, ∃ s, Setting.Gives text s) :
    ∃ c : AppConfig, c.Has = args.Resolved ratio file ∧
      c.Judged (AppConfig.resolve args.overrides (args.layer ratio) (file.getD {})) := by
  obtain ⟨settings, hsettings⟩ := Setting.exists_forall₂_gives_iff.2 h
  refine ⟨_, Layer.has_config_eq_resolved hsettings, ?_⟩
  rw [AppConfig.resolve, Setting.parseAll_eq_ok_iff.2 hsettings]
  exact Layer.judged_ofLayer

theorem gives_of_resolve_eq_ok
    (h : AppConfig.resolve args.overrides (args.layer ratio) (file.getD {}) = .ok c) :
    ∀ text ∈ args.overrides, ∃ s, Setting.Gives text s := by
  rw [AppConfig.resolve] at h
  split at h
  · cases h
  · next settings hsettings =>
    exact Setting.exists_forall₂_gives_iff.1 ⟨settings, Setting.parseAll_eq_ok_iff.1 hsettings⟩

theorem resolve_eq_ok_iff (args : SearchArgs) (ratio : Option Float) (file : Option SettingsFile) (c : AppConfig) :
    AppConfig.resolve args.overrides (args.layer ratio) (file.getD {}) = .ok c ↔
      (∀ text ∈ args.overrides, ∃ s, Setting.Gives text s) ∧ c.Has = args.Resolved ratio file ∧ c.InRange := by
  constructor
  · intro h
    have hall := gives_of_resolve_eq_ok h
    obtain ⟨c', hhas, hjudged⟩ := exists_judged ratio file hall
    obtain ⟨hrange, rfl⟩ := hjudged.eq_ok_iff.1 h
    exact ⟨hall, hhas, hrange⟩
  · rintro ⟨hall, hhas, hrange⟩
    obtain ⟨c', hhas', hjudged⟩ := exists_judged ratio file hall
    have heq : c' = c := AppConfig.eq_of_has fun s => by rw [hhas, hhas']
    exact hjudged.eq_ok_iff.2 ⟨heq ▸ hrange, heq⟩

/-- What is not resolved has no say. -/
theorem resolve_congr (h : ∀ text ∈ args.overrides, ∃ s, Setting.Gives text s)
    (h' : ∀ text ∈ args'.overrides, ∃ s, Setting.Gives text s)
    (hresolved : args.Resolved ratio file = args'.Resolved ratio' file') :
    AppConfig.resolve args.overrides (args.layer ratio) (file.getD {}) =
      AppConfig.resolve args'.overrides (args'.layer ratio') (file'.getD {}) := by
  obtain ⟨c, hhas, hjudged⟩ := exists_judged ratio file h
  obtain ⟨c', hhas', hjudged'⟩ := exists_judged ratio' file' h'
  have heq : c' = c := AppConfig.eq_of_has fun s => by rw [hhas, hhas', hresolved]
  rw [heq] at hjudged'
  exact hjudged.unique hjudged'

theorem resolved_reorder {overrides : List String}
    (h : ∀ k : SettingKey, overrides.filter (Setting.named · = k.name.toList) =
      args.overrides.filter (Setting.named · = k.name.toList)) :
    { args with overrides }.Resolved ratio file = args.Resolved ratio file := by
  have hlast : LastOf overrides = LastOf args.overrides := by
    funext s
    rw [LastOf, LastOf, Setting.lastNaming, Setting.lastNaming, h]
  have hflags : { args with overrides }.Gives ratio = args.Gives ratio := by
    rw [← Layer.gives_flags, ← Layer.gives_flags, layer, layer]
  rw [Resolved, Resolved, hlast, hflags]

/-- **Settings are resolved layer by layer, and only what is resolved is checked.** -/
theorem resolve_exact (args : SearchArgs) (ratio : Option Float) (file : Option SettingsFile) :
    (∀ c, AppConfig.resolve args.overrides (args.layer ratio) (file.getD {}) = .ok c ↔
      (∀ text ∈ args.overrides, ∃ s, Setting.Gives text s) ∧
        (∀ s, c.Has s ↔ args.Resolved ratio file s) ∧ c.InRange) ∧
    ((∀ text ∈ args.overrides, ∃ s, Setting.Gives text s) →
      ∃ c : AppConfig, (∀ s, c.Has s ↔ args.Resolved ratio file s) ∧
        c.Judged (AppConfig.resolve args.overrides (args.layer ratio) (file.getD {}))) ∧
    (∀ before text after, args.overrides = before ++ text :: after →
      (∀ t ∈ before, ∃ s, Setting.Gives t s) → (¬ ∃ s, Setting.Gives text s) →
        ∃ e, (∀ e', Setting.Malformed text e' ↔ e' = e) ∧
          AppConfig.resolve args.overrides (args.layer ratio) (file.getD {}) = .error (.badOverride e)) ∧
    (∀ (args' : SearchArgs) (ratio' : Option Float) (file' : Option SettingsFile),
      (∀ text ∈ args.overrides ++ args'.overrides, ∃ s, Setting.Gives text s) →
        (∀ s, args.Resolved ratio file s ↔ args'.Resolved ratio' file' s) →
          AppConfig.resolve args.overrides (args.layer ratio) (file.getD {}) =
            AppConfig.resolve args'.overrides (args'.layer ratio') (file'.getD {})) ∧
    ∀ overrides, List.Perm overrides args.overrides →
      (∀ k : SettingKey, overrides.filter (Setting.named · = k.name.toList) =
        args.overrides.filter (Setting.named · = k.name.toList)) →
        ∀ c, AppConfig.resolve overrides (args.layer ratio) (file.getD {}) = .ok c ↔
          AppConfig.resolve args.overrides (args.layer ratio) (file.getD {}) = .ok c := by
  refine ⟨fun c => ?_, fun h => ?_, ?_, ?_, ?_⟩
  · rw [resolve_eq_ok_iff, funext_iff]
    simp only [eq_iff_iff]
  · obtain ⟨c, hhas, hjudged⟩ := exists_judged ratio file h
    exact ⟨c, fun s => by rw [hhas], hjudged⟩
  · intro before text after hoverrides hbefore hnone
    obtain ⟨e, he⟩ := (Setting.gives_or_malformed text).resolve_left hnone
    refine ⟨e, fun e' => ?_, ?_⟩
    · rw [← Setting.parse_eq_error_iff, Setting.parse_of_malformed he, Except.error.injEq, eq_comm]
    · rw [AppConfig.resolve, hoverrides, Setting.parseAll_eq_error hbefore he]
  · intro args' ratio' file' hall hresolved
    obtain ⟨h, h'⟩ := List.forall_mem_append.1 hall
    exact resolve_congr h h' (funext fun s => propext (hresolved s))
  · intro overrides hperm hfilter c
    have hall : (∀ text ∈ overrides, ∃ s, Setting.Gives text s) ↔
        ∀ text ∈ args.overrides, ∃ s, Setting.Gives text s := by
      simp only [hperm.mem_iff]
    have hreorder := resolve_eq_ok_iff { args with overrides } ratio file c
    rw [resolved_reorder hfilter] at hreorder
    exact hreorder.trans ((and_congr_left' hall).trans (resolve_eq_ok_iff args ratio file c).symm)

/-- Arguments with a budget of zero behind an override, and a rate that a later override replaces. -/
def layered : SearchArgs :=
  { maxIterations := some 0, noTrace := true
    overrides := ["search.p-local=7", "search.max-iterations=+9", "search.p-local=0.25"] }

/-- A file with a rate that is no probability. -/
def layeredFile : SettingsFile :=
  { search := some { localRate := some 5.0, seed := some 7, recordTrace := some true } }

theorem resolve_exact_layered :
    AppConfig.resolve layered.overrides (layered.layer none) layeredFile =
      .ok ⟨⟨9, 0.25, some 7, false⟩, 4.3⟩ ∧
    (∀ s, AppConfig.Has ⟨⟨9, 0.25, some 7, false⟩, 4.3⟩ s ↔ layered.Resolved none (some layeredFile) s) ∧
    AppConfig.resolve ["search.max-iterations=+9", "search.p-local=7", "search.p-local=0.25"]
      (layered.layer none) layeredFile = .ok ⟨⟨9, 0.25, some 7, false⟩, 4.3⟩ ∧
    ∃ e, Setting.Malformed "search.seed" e ∧
      AppConfig.resolve ["search.p-local=7", "search.seed", "x=1"] (layered.layer none) layeredFile =
        .error (.badOverride e) := by
  have hresolve : AppConfig.resolve layered.overrides (layered.layer none) layeredFile =
      .ok ⟨⟨9, 0.25, some 7, false⟩, 4.3⟩ := rfl
  obtain ⟨hok, -, -, -, hreorder⟩ := resolve_exact layered none (some layeredFile)
  refine ⟨hresolve, ((hok _).1 hresolve).2.1, ?_, ?_⟩
  · refine (hreorder _ (by decide) (fun k => ?_) _).2 hresolve
    cases k <;> decide
  · obtain ⟨-, -, hbad, -⟩ := resolve_exact
      { layered with overrides := ["search.p-local=7", "search.seed", "x=1"] } none (some layeredFile)
    have hbefore : Setting.Gives "search.p-local=7" (.localRate 7) :=
      ⟨"7", rfl, .localRate (by decide +kernel)⟩
    have hparse : Setting.parse "search.seed" = .error (.noValue "search.seed") := rfl
    obtain ⟨e, he, herror⟩ := hbad ["search.p-local=7"] "search.seed" ["x=1"] rfl
      (List.forall_mem_singleton.2 ⟨_, hbefore⟩)
      (fun ⟨s, hs⟩ => by
        have hok := Setting.parse_of_gives hs
        rw [hparse] at hok
        cases hok)
    exact ⟨e, (he e).2 rfl, herror⟩

end SearchArgs

end SatSearch
