import Mathlib.Data.List.Forall2
import Gateware.Fault

/-!
# Results that concur

Two computations concur if their results are related, or if both fail with faults of one kind.
Steps that concur one by one concur when they are put together.
-/

set_option autoImplicit false

namespace Gateware

variable {α β γ δ : Type}

/-- Two results that are related, or faults of one kind. -/
inductive Concur (related : α → β → Prop) : Except Fault α → Except Fault β → Prop
  | fault {left right : Fault} (same : left.kind = right.kind) :
      Concur related (.error left) (.error right)
  | ok {left : α} {right : β} (here : related left right) :
      Concur related (.ok left) (.ok right)

variable {related : α → β → Prop} {others : γ → δ → Prop}

theorem Concur.bind {left : Except Fault α} {right : Except Fault β} {onLeft : α → Except Fault γ}
    {onRight : β → Except Fault δ} (first : Concur related left right)
    (second : ∀ {item mirrored}, related item mirrored →
      Concur others (onLeft item) (onRight mirrored)) :
    Concur others (left >>= onLeft) (right >>= onRight) := by
  cases first with
  | fault same => exact .fault same
  | ok here => exact second here

theorem Concur.map {left : Except Fault α} {right : Except Fault β} {onLeft : α → γ}
    {onRight : β → δ} (first : Concur related left right)
    (second : ∀ {item mirrored}, related item mirrored → others (onLeft item) (onRight mirrored)) :
    Concur others (left.map onLeft) (right.map onRight) := by
  cases first with
  | fault same => exact .fault same
  | ok here => exact .ok (second here)

theorem Concur.unless {refused : Prop} [Decidable refused] {fault mirrored : Fault}
    {next : Unit → Except Fault α} {other : Unit → Except Fault β}
    (same : fault.kind = mirrored.kind) (later : Concur related (next ()) (other ())) :
    Concur related (if refused then throw fault >>= next else next ())
      (if refused then throw mirrored >>= other else other ()) := by
  by_cases holds : refused
  · rw [if_pos holds, if_pos holds]
    exact .fault same
  · rw [if_neg holds, if_neg holds]
    exact later

theorem Concur.mapM {left : List α} {right : List β} {onLeft : α → Except Fault γ}
    {onRight : β → Except Fault δ} (pairs : List.Forall₂ related left right)
    (step : ∀ {item mirrored}, related item mirrored →
      Concur others (onLeft item) (onRight mirrored)) :
    Concur (List.Forall₂ others) (left.mapM onLeft) (right.mapM onRight) := by
  induction pairs with
  | nil => exact .ok .nil
  | cons here _ ih =>
      rw [List.mapM_cons, List.mapM_cons]
      apply (step here).bind
      intro item mirrored first
      apply ih.bind
      intro rest mirroredRest tail
      exact .ok (.cons first tail)

theorem concur_eq_iff {left right : Except Fault α} :
    Concur Eq left right ↔ (∃ item, left = .ok item ∧ right = .ok item) ∨
      ∃ fault mirrored : Fault,
        left = .error fault ∧ right = .error mirrored ∧ fault.kind = mirrored.kind := by
  constructor
  · intro concur
    cases concur with
    | fault same => exact Or.inr ⟨_, _, rfl, rfl, same⟩
    | ok here => exact Or.inl ⟨_, rfl, here ▸ rfl⟩
  · intro alike
    obtain ⟨item, rfl, rfl⟩ | ⟨fault, mirrored, rfl, rfl, same⟩ := alike
    · exact .ok rfl
    · exact .fault same

theorem concur_refl {result : Except Fault α} : Concur Eq result result := by
  cases result with
  | error fault => exact .fault rfl
  | ok value => exact .ok rfl

end Gateware
