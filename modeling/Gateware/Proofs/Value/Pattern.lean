import Gateware.Proofs.Session
import Gateware.Proofs.Value.WellFormed
import Gateware.Value.Pattern

/-!
# Normalized patterns

A pattern that is brought to the width of a shape has a key of exactly that width, and a
constant keeps its number, which lies in the shape.
-/

set_option autoImplicit false

namespace Gateware

namespace Pattern

/-- What normalizing leaves of a pattern for a shape. -/
def Normal.Fits (shape : Shape) : Normal → Prop
  | .bits key =>
      key.length = shape.width ∧ ∀ symbol ∈ key, symbol = '0' ∨ symbol = '1' ∨ symbol = '-'
  | .const constant key =>
      shape.fit constant.value = constant.value ∧
        key = Binary.digits constant.value shape.width

variable {session after : Session} {shape : Shape}

theorem normalize_fits {pattern : Pattern} {result : Option Normal}
    (run : Build.Gives (normalize shape pattern) session result after) :
    ∀ normal ∈ result, normal.Fits shape := by
  cases pattern with
  | bits text =>
      unfold normalize at run
      dsimp only at run
      split at run
      · obtain ⟨_, _, fault, _⟩ := Build.gives_bind.mp run
        exact absurd fault Build.gives_throw
      · rename_i alphabet
        split at run
        · obtain ⟨_, _, fault, _⟩ := Build.gives_bind.mp run
          exact absurd fault Build.gives_throw
        · rename_i width
          obtain ⟨rfl, _⟩ := Build.gives_pure.mp run
          intro normal found
          cases found
          refine ⟨by simpa using width, ?_⟩
          intro symbol listed
          by_contra other
          apply alphabet
          rw [List.any_eq_true]
          refine ⟨symbol, listed, ?_⟩
          simp only [not_or] at other
          simp [other]
  | operand given =>
      unfold normalize at run
      dsimp only at run
      obtain ⟨design, between, _, run⟩ := Build.gives_bind.mp run
      split at run
      · obtain ⟨constant, _, bound, run⟩ := Build.gives_bind.mp run
        split at run
        · rename_i fitted
          obtain ⟨rfl, _⟩ := Build.gives_pure.mp run
          intro normal found
          cases found
          exact ⟨fitted, congrArg (Binary.digits · shape.width) fitted⟩
        · obtain ⟨_, _, _, run⟩ := Build.gives_bind.mp run
          obtain ⟨rfl, _⟩ := Build.gives_pure.mp run
          intro normal found
          cases found
      · obtain ⟨_, _, fault, _⟩ := Build.gives_bind.mp run
        exact absurd fault Build.gives_throw

theorem normalizeAll_fits {patterns : List Pattern} {normals : List Normal}
    (run : Build.Gives (normalizeAll patterns shape) session normals after) :
    ∀ normal ∈ normals, normal.Fits shape := by
  obtain ⟨results, between, runs, rest⟩ := Build.gives_bind.mp run
  obtain ⟨rfl, _⟩ := Build.gives_pure.mp rest
  intro normal listed
  obtain ⟨result, resultListed, found⟩ := List.mem_filterMap.mp listed
  have related := (Build.Gives.mapM (fun _ => True)
    (fun _ result => ∀ normal ∈ result, normal.Fits shape)
    (fun _ _ _ _ _ _ run => ⟨trivial, normalize_fits run⟩) trivial runs).2
  obtain ⟨_, _, fits⟩ := exists_related related resultListed
  exact fits normal found

theorem Normal.Fits.key {normal : Normal} (fits : normal.Fits shape) :
    normal.key.length = shape.width ∧
      ∀ symbol ∈ normal.key.toList, symbol = '0' ∨ symbol = '1' ∨ symbol = '-' := by
  cases normal with
  | bits key =>
      simp only [Normal.key, String.length_ofList, String.toList_ofList]
      exact fits
  | const constant key =>
      obtain ⟨_, rfl⟩ := fits
      simp only [Normal.key, String.length_ofList, String.toList_ofList, Binary.length_digits,
        true_and]
      intro symbol digit
      rcases Binary.mem_digits digit with zero | one
      · exact Or.inl zero
      · exact Or.inr (Or.inl one)

theorem caseKeys_fits {patterns : Option (List Pattern)} {keys : Keys}
    (run : Build.Gives (caseKeys patterns shape) session keys after) : keys.Fits shape.width := by
  cases patterns with
  | none =>
      obtain ⟨rfl, _⟩ := Build.gives_pure.mp run
      trivial
  | some patterns =>
      obtain ⟨texts, _, keysRun, rest⟩ := Build.gives_bind.mp run
      obtain ⟨rfl, _⟩ := Build.gives_pure.mp rest
      obtain ⟨normals, _, normalsRun, rest⟩ := Build.gives_bind.mp keysRun
      obtain ⟨rfl, _⟩ := Build.gives_pure.mp rest
      intro key listed
      obtain ⟨normal, normalListed, rfl⟩ := List.mem_map.mp listed
      exact (normalizeAll_fits normalsRun normal normalListed).key

end Pattern

end Gateware
