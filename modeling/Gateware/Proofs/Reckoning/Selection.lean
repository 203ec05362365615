import Gateware.Pins
import Gateware.Proofs.Reckoning.Basic
import Gateware.Proofs.Selected

/-!
# Reckoned selections

The rules of selection as reckonings: bounds, places, stepped ranges, clamped runs, shifts and
rotations, with every sum, difference and opposite of positions left open.  In words each of them
is the selection itself; a walk and a rotation to the left are so as long as they do not overflow.
-/

set_option autoImplicit false

namespace Gateware

open Reckoning

namespace Bound

def InWord : Bound → Prop
  | .unbounded => True
  | .included position | .excluded position => Position.Holds position

instance : (bound : Bound) → Decidable bound.InWord
  | .unbounded => .isTrue trivial
  | .included position | .excluded position => inferInstanceAs (Decidable (Position.Holds position))

/-- The sum is taken only if there is a next position. -/
def reckonStart : Bound → Reckoning (Option Int)
  | .unbounded => pure none
  | .included position => pure (some position)
  | .excluded position =>
      if position = Position.max then pure (some Position.max)
      else do return some (← sum (position + 1))

def reckonStop : Bound → Reckoning (Option Int)
  | .unbounded => pure none
  | .included position =>
      if position = -1 ∨ position = Position.max then pure none
      else do return some (← sum (position + 1))
  | .excluded position => pure (some position)

end Bound

namespace Picked

def reckonPlace (width position : Int) : Reckoning Int :=
  if position < 0 then sum (position + width) else pure position

def reckonBit (target : Fault.Target) (width : Nat) (position : Int) :
    Reckoning (Except Fault Nat) := do
  let n ← sum width
  let lowest ← sum (-n)
  if lowest ≤ position ∧ position < n then return .ok (Position.toWidth (← reckonPlace n position))
  else return .error (.bitIndex position n target)

def reckonBetween (target : Fault.Target) (width : Nat) (start stop : Int) :
    Reckoning (Except Fault (Nat × Nat)) := do
  let n ← sum width
  let lowest ← sum (-n)
  if ¬ (lowest ≤ start ∧ start ≤ n) then return .error (.sliceStart start n target)
  else if ¬ (lowest ≤ stop ∧ stop ≤ n) then return .error (.sliceStop stop n target)
  else
    let first ← reckonPlace n start
    let last ← reckonPlace n stop
    if last < first then return .error (.sliceOrder first last)
    else return .ok (Position.toWidth first, Position.toWidth last)

def reckonClamp (width lower upper bound : Int) : Reckoning Int :=
  if bound < 0 then do return max (← sum (bound + width)) lower else pure (min bound upper)

def reckonEnd (width lower upper missing : Int) : Option Int → Reckoning Int
  | none => pure missing
  | some bound => reckonClamp width lower upper bound

def reckonEnds (width : Int) (start stop : Option Int) (step : Int) : Reckoning (Int × Int) := do
  let lower := if step < 0 then -1 else 0
  let upper ← if step < 0 then sum (width - 1) else pure width
  let first ← reckonEnd width lower upper (if step < 0 then upper else lower) start
  let last ← reckonEnd width lower upper (if step < 0 then lower else upper) stop
  return (first, last)

/-- The next place is reckoned before a place is handed out. -/
def reckonWalk : Nat → Int → Int → Int → Reckoning (List Int)
  | 0, _, _, _ => pure []
  | count + 1, place, stop, step =>
      if Ahead stop step place then do
        let next ← sum (place + step)
        let later ← reckonWalk count next stop step
        return place :: later
      else pure []

def reckonSteps (start stop step : Int) : Reckoning (List Int) :=
  reckonWalk (stop - start).natAbs start stop step

def reckonStepped (target : Fault.Target) (width : Nat) (start stop : Option Int) (step : Int) :
    Reckoning (Except Fault Picked) :=
  if step = 0 then pure (.error .sliceStep)
  else do
    let n ← sum width
    let reached ← reckonEnds n start stop step
    if step = 1 then
      return (← reckonBetween target width reached.1 reached.2).map fun (start, stop) =>
        run start stop
    else return .ok (bits (← reckonSteps reached.1 reached.2 step))

end Picked

namespace Value

def reckonBetween (value : Value) (start stop : Int) : Reckoning (Except Fault Value) := do
  return (← Picked.reckonBetween .value value.width start stop).map fun (start, stop) =>
    .slice value start stop

def reckonIndex (value : Value) : Index → Reckoning (Except Fault Value)
  | .bit position => do
      return (← Picked.reckonBit .value value.width position).map fun start =>
        .slice value start (start + 1)
  | .range start stop step => do
      return (← Picked.reckonStepped .value value.width start stop step).map fun
        | .run start stop => .slice value start stop
        | .bits positions => .concat (positions.map value.bitAt)
  | .value _ => pure (.error (.valueAsIndex .value))

def reckonClamped (value : Value) (start stop : Option Int) : Reckoning Value := do
  let n ← sum value.width
  let first ← Picked.reckonEnd n 0 n 0 start
  let last ← Picked.reckonEnd n 0 n n stop
  return .slice value (Position.toWidth first) (Position.toWidth (max last first))

def reckonLowered (value : Value) (amount : Int) : Reckoning Value :=
  if value.shape.signed then do
    let n ← sum value.width
    let most ← sum (n - 1)
    return .unary .asSigned (← value.reckonClamped (some (min amount most)) none)
  else value.reckonClamped (some amount) none

/-- The opposite is taken only if it is a position. -/
def reckonOpposite (amount : Int) : Reckoning Int :=
  if amount = Position.min then pure Position.max else sum (-amount)

def reckonShiftLeft (value : Value) (amount : Int) : Reckoning Value :=
  if amount < 0 then do value.reckonLowered (← reckonOpposite amount)
  else pure (value.raised amount.toNat)

def reckonShiftRight (value : Value) (amount : Int) : Reckoning Value :=
  if amount < 0 then do return value.raised (← reckonOpposite amount).toNat
  else value.reckonLowered amount

def reckonTurn (value : Value) (amount : Int) : Reckoning Int := do
  let n ← sum value.width
  return if n = 0 then amount else amount % n

def reckonTurned (value : Value) (position : Int) : Reckoning Value := do
  let upper ← value.reckonClamped (some position) none
  let lower ← value.reckonClamped none (some position)
  return .concat [upper, lower]

def reckonRotateLeft (value : Value) (amount : Int) : Reckoning Value := do
  let turn ← value.reckonTurn amount
  value.reckonTurned (← sum (-turn))

def reckonRotateRight (value : Value) (amount : Int) : Reckoning Value := do
  value.reckonTurned (← value.reckonTurn amount)

end Value

namespace Pins

def reckonBetween (pins : Pins) (start stop : Int) : Reckoning (Except Fault Pins) := do
  return (← Picked.reckonBetween .pins pins.width start stop).map fun (start, stop) =>
    .slice pins start stop

def reckonPlace (pins : Pins) (place : Int) : Reckoning (Except Fault Pins) := do
  pins.reckonBetween place (← sum (place + 1))

/-- Single pins, up to the first place that is refused. -/
def reckonPlaces (pins : Pins) : List Int → Reckoning (Except Fault (List Pins))
  | [] => pure (.ok [])
  | place :: rest => do
      match ← pins.reckonPlace place with
      | .error fault => return .error fault
      | .ok part => return (← pins.reckonPlaces rest).map (part :: ·)

def reckonIndex (pins : Pins) : Index → Reckoning (Except Fault Pins)
  | .bit position => do
      match ← Picked.reckonBit .pins pins.width position with
      | .error fault => return .error fault
      | .ok start => pins.reckonPlace start
  | .range start stop step => do
      match ← Picked.reckonStepped .pins pins.width start stop step with
      | .error fault => return .error fault
      | .ok (.run start stop) => return .ok (.slice pins start stop)
      | .ok (.bits positions) => return (← pins.reckonPlaces positions).map Pins.concat
  | .value _ => pure (.error (.valueAsIndex .pins))

end Pins

/-! ## Runs in words -/

namespace Bound

theorem run_reckonStart {bound : Bound} (inWord : bound.InWord) :
    bound.reckonStart.run Position.wrap = bound.start? := by
  cases bound with
  | unbounded => rfl
  | included position => rfl
  | excluded position =>
      obtain ⟨lower, upper⟩ : Position.Holds position := inWord
      simp only [reckonStart, start?, run_ite, run_pure, run_bind, run_sum]
      split
      · rename_i greatest
        rw [greatest]
        rfl
      · rename_i notGreatest
        have inside : Position.Holds (position + 1) := by
          unfold Position.max at notGreatest
          exact ⟨by omega, by omega⟩
        rw [inside.wrap_eq, inside.saturate_eq]

theorem run_reckonStop {bound : Bound} (inWord : bound.InWord) :
    bound.reckonStop.run Position.wrap = bound.stop? := by
  cases bound with
  | unbounded => rfl
  | excluded position => rfl
  | included position =>
      obtain ⟨lower, upper⟩ : Position.Holds position := inWord
      simp only [reckonStop, stop?, run_ite, run_pure, run_bind, run_sum, Bool.or_eq_true,
        decide_eq_true_eq]
      split
      · rfl
      · rename_i notEnd
        unfold Position.max at notEnd
        rw [Position.Holds.wrap_eq ⟨by omega, by omega⟩]

end Bound

namespace Picked

variable {target : Fault.Target} {width : Nat} {n position start stop step lower upper missing : Int}

theorem run_reckonPlace : (reckonPlace n position).run Position.wrap = place n position := by
  simp only [reckonPlace, run_ite, run_sum, run_pure, place]

theorem run_reckonBit :
    (reckonBit target width position).run Position.wrap = bit target width position := by
  simp only [reckonBit, run_sum_bind, run_ite, run_pure]
  simp only [run_bind, run_pure, run_reckonPlace, bit, Bool.and_eq_true, decide_eq_true_eq]
  rfl

theorem run_reckonBetween :
    (reckonBetween target width start stop).run Position.wrap = between target width start stop := by
  simp only [reckonBetween, run_sum_bind, run_ite, run_pure]
  simp only [run_bind, run_ite, run_pure, run_reckonPlace, between, Bool.not_eq_true',
    ← Bool.not_eq_true, Bool.and_eq_true, decide_eq_true_eq]
  rfl

theorem run_reckonEnd {bound : Option Int} :
    (reckonEnd n lower upper missing bound).run Position.wrap =
      (bound.map (clamp n lower upper)).getD missing := by
  cases bound with
  | none => rfl
  | some bound => simp only [reckonEnd, reckonClamp, run_ite, run_bind, run_sum, run_pure,
      Option.map_some, Option.getD_some, clamp]

theorem run_reckonEnds {start stop : Option Int} :
    (reckonEnds n start stop step).run Position.wrap = ends n start stop step := by
  by_cases down : step < 0
  · simp only [reckonEnds, if_pos down, run_bind, run_sum, run_pure, run_reckonEnd, ends]
  · simp only [reckonEnds, if_neg down, run_bind, run_pure, run_reckonEnd, ends]

theorem exact_reckonWalk_succ {count : Nat} : (reckonWalk (count + 1) start stop step).Exact ↔
    (Ahead stop step start → Position.Holds (start + step) ∧
      (reckonWalk count (Position.wrap (start + step)) stop step).Exact) := by
  by_cases ahead : Ahead stop step start
  · rw [reckonWalk, if_pos ahead, exact_sum_bind, exact_bind, imp_iff_right ahead]
    exact and_congr_right fun _ => and_iff_left exact_pure
  · rw [reckonWalk, if_neg ahead]
    exact iff_of_true exact_pure fun before => absurd before ahead

theorem exact_reckonWalk {count : Nat} :
    (reckonWalk count start stop step).Exact ↔ Stays count start stop step := by
  induction count generalizing start with
  | zero => exact iff_of_true exact_pure nofun
  | succ count ih =>
      rw [exact_reckonWalk_succ, stays_succ]
      refine imp_congr_right fun _ => and_congr_right fun holds => ?_
      rw [holds.wrap_eq, ih]

theorem run_id_reckonWalk {count : Nat} :
    (reckonWalk count start stop step).run id = progression count start stop step := by
  induction count generalizing start with
  | zero => rfl
  | succ count ih =>
      rw [progression_succ]
      simp only [reckonWalk, run_ite, run_bind, run_sum, run_pure, id_eq, ih]

theorem steps_of_exact (exact : (reckonSteps start stop step).Exact) :
    steps start stop step = .ok ((reckonSteps start stop step).run Position.wrap) := by
  rw [exact.run_eq, reckonSteps, run_id_reckonWalk]
  exact walk_eq_ok (exact_reckonWalk.mp exact)

theorem run_reckonStepped {start stop : Option Int}
    (exact : (reckonStepped target width start stop step).Exact) :
    (reckonStepped target width start stop step).run Position.wrap =
      stepped target width start stop step := by
  by_cases zero : step = 0
  · rw [reckonStepped, stepped, if_pos zero, if_pos zero, run_pure]
  rw [reckonStepped, if_neg zero] at exact ⊢
  by_cases one : step = 1
  · subst one
    simp only [if_true, run_sum_bind]
    simp only [run_bind, run_pure, run_reckonEnds, run_reckonBetween]
    rfl
  · simp only [if_neg one] at exact ⊢
    rw [exact_sum_bind, exact_bind, exact_bind, run_reckonEnds] at exact
    rw [stepped_of_ne_one zero one, Position.ofWidth, steps_of_exact exact.2.2.1,
      run_sum_bind, run_bind, run_reckonEnds, run_bind, run_pure]
    rfl

end Picked

namespace Value

variable {value : Value} {amount position start stop : Int}

theorem run_reckonBetween :
    (value.reckonBetween start stop).run Position.wrap = value.between start stop := by
  simp only [reckonBetween, run_bind, run_pure, Picked.run_reckonBetween]
  rfl

theorem run_reckonIndex {index : Index} (exact : (value.reckonIndex index).Exact) :
    (value.reckonIndex index).run Position.wrap = value.index index := by
  cases index with
  | bit position =>
      simp only [reckonIndex, run_bind, run_pure, Picked.run_reckonBit]
      rfl
  | range start stop step =>
      rw [reckonIndex, run_bind, Picked.run_reckonStepped (exact_bind.mp exact).1, run_pure]
      rfl
  | value index => rfl

theorem run_reckonClamped {start stop : Option Int} :
    (value.reckonClamped start stop).run Position.wrap = value.clamped start stop := by
  simp only [reckonClamped, run_sum_bind]
  simp only [run_bind, run_pure, Picked.run_reckonEnd, clamped, Position.ofWidth]

theorem run_reckonLowered :
    (value.reckonLowered amount).run Position.wrap = value.lowered amount := by
  simp only [reckonLowered, run_ite, run_sum_bind]
  simp only [run_bind, run_pure, run_reckonClamped, lowered, Position.ofWidth]

theorem run_reckonOpposite (holds : Position.Holds amount) :
    (reckonOpposite amount).run Position.wrap = Position.saturate (-amount) := by
  obtain ⟨lower, upper⟩ := holds
  simp only [reckonOpposite, run_ite, run_pure, run_sum]
  split
  · rename_i least
    rw [least]
    rfl
  · rename_i notLeast
    have inside : Position.Holds (-amount) := by
      unfold Position.min at notLeast
      exact ⟨by omega, by omega⟩
    rw [inside.wrap_eq, inside.saturate_eq]

theorem run_reckonShiftLeft (holds : Position.Holds amount) :
    (value.reckonShiftLeft amount).run Position.wrap = value.shiftLeft amount := by
  simp only [reckonShiftLeft, run_ite, run_bind, run_pure, run_reckonOpposite holds,
    run_reckonLowered]
  rfl

theorem run_reckonShiftRight (holds : Position.Holds amount) :
    (value.reckonShiftRight amount).run Position.wrap = value.shiftRight amount := by
  simp only [reckonShiftRight, run_ite, run_bind, run_pure, run_reckonOpposite holds,
    run_reckonLowered]
  rfl

theorem run_reckonTurn : (value.reckonTurn amount).run Position.wrap = value.turn amount := by
  rw [reckonTurn, run_sum_bind, run_pure]
  rfl

theorem run_reckonTurned :
    (value.reckonTurned position).run Position.wrap = value.turned position := by
  simp only [reckonTurned, run_bind, run_pure, run_reckonClamped, turned]

theorem rotateLeft_of_exact (exact : (value.reckonRotateLeft amount).Exact) :
    value.rotateLeft amount = .ok ((value.reckonRotateLeft amount).run Position.wrap) := by
  rw [reckonRotateLeft, exact_bind, exact_sum_bind, run_reckonTurn] at exact
  rw [rotateLeft, Picked.held_of_holds exact.2.1, reckonRotateLeft, run_bind, run_sum_bind,
    run_reckonTurn, run_reckonTurned, exact.2.1.wrap_eq]
  rfl

theorem run_reckonRotateRight :
    (value.reckonRotateRight amount).run Position.wrap = value.rotateRight amount := by
  simp only [reckonRotateRight, run_bind, run_reckonTurn, run_reckonTurned, rotateRight]

end Value

namespace Pins

variable {pins : Pins} {place start stop : Int}

theorem run_reckonBetween :
    (pins.reckonBetween start stop).run Position.wrap = pins.between start stop := by
  simp only [reckonBetween, run_bind, run_pure, Picked.run_reckonBetween]
  rfl

theorem run_reckonPlace : (pins.reckonPlace place).run Position.wrap =
    pins.between place (Position.wrap (place + 1)) := by
  simp only [reckonPlace, run_bind, run_sum, run_reckonBetween]

theorem run_reckonPlaces {places : List Int} : (pins.reckonPlaces places).run Position.wrap =
    places.mapM fun place => pins.between place (Position.wrap (place + 1)) := by
  induction places with
  | nil => simp only [reckonPlaces, run_pure, List.mapM_nil]; rfl
  | cons place rest ih =>
      rw [List.mapM_cons, reckonPlaces, run_bind, run_reckonPlace]
      cases pins.between place (Position.wrap (place + 1)) with
      | error fault => rfl
      | ok part =>
          simp only [run_bind, run_pure, ih]
          cases rest.mapM fun place => pins.between place (Position.wrap (place + 1)) <;> rfl

theorem index_bit {position : Int} : pins.index (.bit position) =
    (Picked.bit .pins pins.width position).bind fun start =>
      pins.between start (Position.wrap (start + 1)) :=
  rfl

theorem run_reckonIndex {index : Index} (exact : (pins.reckonIndex index).Exact) :
    (pins.reckonIndex index).run Position.wrap = pins.index index := by
  cases index with
  | value index => rfl
  | bit position =>
      rw [reckonIndex, run_bind, Picked.run_reckonBit, index_bit]
      cases Picked.bit .pins pins.width position with
      | error fault => rfl
      | ok start =>
          rw [Except.bind, ← run_reckonPlace]
  | range start stop step =>
      rw [reckonIndex, run_bind, Picked.run_reckonStepped (exact_bind.mp exact).1, Pins.index]
      cases Picked.stepped .pins pins.width start stop step with
      | error fault => rfl
      | ok chosen =>
          cases chosen with
          | run start stop => rfl
          | bits positions =>
              simp only [run_bind, run_pure, run_reckonPlaces]
              rfl

end Pins

end Gateware
