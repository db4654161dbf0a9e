import SatSearch.Command.Machine
import SatSearch.Command.Solve
import SatSearch.Proofs.Settings.Resolution
/-!
# What work can return

Commands work in any host, so what they end with is told by the values that their work can return:
a chain returns what its last link returns for a value of the link before. Of the host only two
things are asked: that its monad is lawful, and that taking the time of a computation does not change
what it finds (`Host.Honest`). Where the host has a state, work may end in another state than it began
in, and a chain ends where a link is stopped or its last link ends (`mayEnd_bind`).
-/

namespace SatSearch

open MonadAttach (CanReturn)
open LawfulMonadAttach (canReturn_bind_imp' canReturn_map_imp' eq_of_canReturn_pure)

/-- What is found while the time is taken is what the computation gives. -/
class Host.Honest (m : Type → Type) [Monad m] [MonadAttach m] [Host m] : Prop where
  timed : ∀ {α : Type} {find : Unit → α} {found : α × Float},
    CanReturn (Host.timed find : m (α × Float)) found → found.1 = find ()

instance : Host.Honest (StateM Machine) where
  timed h := by
    obtain ⟨M, M', h⟩ := h
    cases h
    rfl

namespace Work

variable {m : Type → Type} [Monad m] [LawfulMonad m] [MonadAttach m] [LawfulMonadAttach m]
  {α β ε : Type} {a : α}

theorem canReturn_ofHost {ask : m α} (h : CanReturn (ofHost ask) a) : CanReturn ask a := by
  have h' : CanReturn (Except.ok <$> ask : m (Except Stop α)) (.ok a) := h
  obtain ⟨b, hb, he⟩ := canReturn_map_imp' h'
  cases he
  exact hb

theorem not_canReturn_throw {stop : Stop} : ¬ CanReturn (throw stop : Work m α) a := by
  intro h
  have h' : CanReturn (pure (Except.error stop) : m (Except Stop α)) (.ok a) := h
  cases eq_of_canReturn_pure h'

theorem canReturn_orFail {f : ε → CommandError} {x : Except ε α}
    (h : CanReturn (orFail f x : Work m α) a) : x = .ok a := by
  cases x with
  | ok b => rw [eq_of_canReturn_pure h]
  | error e => exact absurd h not_canReturn_throw

theorem canReturn_refuseIf {condition : Bool} {e : ArgumentError} {u : Unit}
    (h : CanReturn (refuseIf condition e : Work m Unit) u) : condition = false := by
  cases condition with
  | false => rfl
  | true => exact absurd h not_canReturn_throw

theorem canReturn_orFault {x : Except Fault α} (h : CanReturn (orFault x : Work m α) a) :
    x = .ok a := by
  cases x with
  | ok b => rw [eq_of_canReturn_pure h]
  | error e => exact absurd h not_canReturn_throw

theorem canReturn_draw {d : Draw α} {g : Generator} (h : CanReturn (draw d g : Work m α) a) :
    ∃ g', d g = .ok (a, g') := by
  obtain ⟨⟨b, g'⟩, hdraw, h⟩ := canReturn_bind_imp' h
  cases eq_of_canReturn_pure h
  exact ⟨g', canReturn_orFault hdraw⟩

variable [Host m]

theorem canReturn_timed [Host.Honest m] {find : Unit → Except Fault α} {found : α × Float}
    (h : CanReturn (timed find : Work m (α × Float)) found) : find () = .ok found.1 := by
  obtain ⟨⟨answer, seconds⟩, hanswer, h⟩ := canReturn_bind_imp' h
  obtain ⟨b, hb, h⟩ := canReturn_bind_imp' h
  cases eq_of_canReturn_pure h
  rw [← Host.Honest.timed (canReturn_ofHost hanswer)]
  exact canReturn_orFault hb

theorem validate_of_canReturn_configure {args : SearchArgs} {ratio : Option Float} {config : AppConfig}
    (h : MonadAttach.CanReturn (configure args ratio : Work m AppConfig) config) :
    config.search.validate = .ok () := by
  unfold configure at h
  cases hfile : args.config with
  | none =>
    rw [hfile] at h
    obtain ⟨file, -, h⟩ := LawfulMonadAttach.canReturn_bind_imp' h
    exact AppConfig.validate_of_resolve (canReturn_orFail h)
  | some path =>
    rw [hfile] at h
    obtain ⟨file, -, h⟩ := LawfulMonadAttach.canReturn_bind_imp' h
    exact AppConfig.validate_of_resolve (canReturn_orFail h)

end Work

/-! ## Hosts with a state -/

namespace Work

variable {m : Type → Type} [Monad m] [LawfulMonad m] [MonadAttach m] [LawfulMonadAttach m] {σ α β ε : Type}
  {work : Work (StateT σ m) α} {f : α → Work (StateT σ m) β} {s s' : σ} {a : α}

/-- Work that begins in one state may end in another with this answer. -/
def MayEnd (work : Work (StateT σ m) α) (s : σ) (answer : Except Stop α) (s' : σ) : Prop :=
  CanReturn (work.run.run s) (answer, s')

omit [LawfulMonad m] [LawfulMonadAttach m] in
theorem MayEnd.canReturn (h : work.MayEnd s (.ok a) s') : CanReturn work a := ⟨s, s', h⟩

theorem mayEnd_pure {answer : Except Stop α} (h : MayEnd (pure a : Work (StateT σ m) α) s answer s') :
    answer = .ok a ∧ s' = s := by
  have h' : CanReturn (pure (.ok a, s) : m (Except Stop α × σ)) (answer, s') := h
  cases eq_of_canReturn_pure h'
  exact ⟨rfl, rfl⟩

theorem mayEnd_throw {stop : Stop} {answer : Except Stop α}
    (h : MayEnd (throw stop : Work (StateT σ m) α) s answer s') : answer = .error stop ∧ s' = s := by
  have h' : CanReturn (pure (.error stop, s) : m (Except Stop α × σ)) (answer, s') := h
  cases eq_of_canReturn_pure h'
  exact ⟨rfl, rfl⟩

theorem mayEnd_ofHost {ask : StateT σ m α} {answer : Except Stop α} (h : (ofHost ask).MayEnd s answer s') :
    ∃ a, answer = .ok a ∧ CanReturn (ask.run s) (a, s') := by
  have h' : CanReturn (ask.run s >>= fun p => pure (.ok p.1, p.2) : m (Except Stop α × σ)) (answer, s') := h
  obtain ⟨⟨a, s₁⟩, ha, h'⟩ := canReturn_bind_imp' h'
  cases eq_of_canReturn_pure h'
  exact ⟨a, rfl, ha⟩

/-- A chain ends where its first link is stopped, or where the rest of it ends. -/
theorem mayEnd_bind {answer : Except Stop β} (h : (work >>= f).MayEnd s answer s') :
    (∃ stop, answer = .error stop ∧ work.MayEnd s (.error stop) s') ∨
    ∃ a s₁, work.MayEnd s (.ok a) s₁ ∧ (f a).MayEnd s₁ answer s' := by
  have h' : CanReturn (work.run.run s >>= fun p => (ExceptT.bindCont f p.1).run p.2 : m (Except Stop β × σ))
      (answer, s') := h
  obtain ⟨⟨first, s₁⟩, hfirst, h'⟩ := canReturn_bind_imp' h'
  cases first with
  | ok a => exact .inr ⟨a, s₁, hfirst, h'⟩
  | error stop =>
    have hpure : CanReturn (pure (.error stop, s₁) : m (Except Stop β × σ)) (answer, s') := h'
    cases eq_of_canReturn_pure hpure
    exact .inl ⟨stop, rfl, hfirst⟩

theorem mayEnd_orFail {g : ε → CommandError} {x : Except ε α} {answer : Except Stop α}
    (h : (orFail g x : Work (StateT σ m) α).MayEnd s answer s') :
    s' = s ∧ ((∃ a, x = .ok a ∧ answer = .ok a) ∨ ∃ e, x = .error e ∧ answer = .error (.error (g e))) := by
  cases x with
  | ok a =>
    obtain ⟨rfl, rfl⟩ := mayEnd_pure h
    exact ⟨rfl, .inl ⟨a, rfl, rfl⟩⟩
  | error e =>
    obtain ⟨rfl, rfl⟩ := mayEnd_throw h
    exact ⟨rfl, .inr ⟨e, rfl, rfl⟩⟩

end Work

/-- On a machine work may end with nothing but what it ends with. -/
theorem Machine.mayEnd_iff {M M' : Machine} {α : Type} {work : Work (StateM Machine) α} {answer : Except Stop α} :
    Work.MayEnd (m := Id) work M answer M' ↔ M.ends work = (answer, M') := Iff.rfl

end SatSearch
