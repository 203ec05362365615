import Mathlib.Data.Finset.Card
import Mathlib.Data.Nat.Find
import Gateware.Design.Cast

/-!
# Chains of custom objects

A custom object is cast by what it answers, which may be a custom object again.  The answers
from a start form a chain that comes back to an object, or stops: at an object that is not
custom, or at one without an answer.  A cast follows the chain with the objects met so far in
its hands, through a bounded number of them; it comes to exactly what the chain comes to.
-/

set_option autoImplicit false

namespace Gateware

/-- Objects of which some are custom, and what the custom ones answer.  The answer is that of
the identity, and only so many identities have one. -/
structure Chain (Object : Type) where
  custom? : Object → Option Custom
  answer : Custom → Except Fault Object
  count : Nat
  lt_count {custom : Custom} {object : Object} (answers : answer custom = .ok object) :
    custom.id < count
  answer_congr {custom other : Custom} {object : Object} (same : custom.id = other.id)
    (answers : answer custom = .ok object) : answer other = .ok object

/-- What a chain comes to: the first custom object that it comes back to, an object that is not
custom, or the fault of an object without an answer. -/
inductive Ending (Object : Type) where
  | revisited (custom : Custom)
  | rest (object : Object)
  | refused (fault : Fault)

def Ending.result {Object Result : Type} (cycle : Custom → Fault)
    (cast : Object → Except Fault Result) : Ending Object → Except Fault Result
  | .revisited custom => .error (cycle custom)
  | .rest object => cast object
  | .refused fault => .error fault

namespace Chain

variable {Object Result : Type} (chain : Chain Object)

/-! ## Places -/

def next? (object : Object) : Option Object :=
  (chain.custom? object).bind fun custom => (chain.answer custom).toOption

def halt? (object : Object) : Option (Ending Object) :=
  match chain.custom? object with
  | none => some (.rest object)
  | some custom =>
      match chain.answer custom with
      | .ok _ => none
      | .error fault => some (.refused fault)

/-- The object at a place of the chain, the start being at place zero. -/
def place (start : Object) : Nat → Option Object
  | 0 => some start
  | n + 1 => (place start n).bind chain.next?

def At (start : Object) (n : Nat) (custom : Custom) : Prop :=
  (chain.place start n).bind chain.custom? = some custom

/-- No custom object stands at two of the first places. -/
def Fresh (start : Object) (n : Nat) : Prop :=
  ∀ i j earlier later, i < j → j < n → chain.At start i earlier → chain.At start j later →
    earlier.id ≠ later.id

/-- Some custom object stands at two places. -/
def Revisits (start : Object) : Prop := ∃ n, ¬ chain.Fresh start n

inductive EndsIn (start : Object) : Ending Object → Prop
  | revisited {i j : Nat} {earlier custom : Custom} (before : i < j)
      (first : chain.At start i earlier) (again : chain.At start j custom)
      (same : earlier.id = custom.id) (fresh : chain.Fresh start j) :
      EndsIn start (.revisited custom)
  | stopped {n : Nat} {object : Object} {ending : Ending Object}
      (there : chain.place start n = some object) (last : chain.halt? object = some ending) :
      EndsIn start ending

variable {chain} {start object : Object} {custom other : Custom} {ending : Ending Object}
  {i j n m : Nat}

theorem next?_eq_some {next : Object} :
    chain.next? object = some next ↔
      ∃ custom, chain.custom? object = some custom ∧ chain.answer custom = .ok next := by
  rw [next?, Option.bind_eq_some_iff]
  apply exists_congr
  intro custom
  cases chain.answer custom <;> simp [Except.toOption]

theorem next?_eq_none : chain.next? object = none ↔ ∃ ending, chain.halt? object = some ending := by
  rw [next?, halt?]
  cases chain.custom? object with
  | none => simp
  | some custom => cases answers : chain.answer custom <;> simp [answers, Except.toOption]

theorem halt?_eq_some : chain.halt? object = some ending ↔
    (chain.custom? object = none ∧ ending = .rest object) ∨
      ∃ custom fault, chain.custom? object = some custom ∧ chain.answer custom = .error fault ∧
        ending = .refused fault := by
  rw [halt?]
  cases chain.custom? object with
  | none => simp [eq_comm]
  | some custom => cases answers : chain.answer custom <;> simp [answers, eq_comm]

theorem at_iff :
    chain.At start n custom ↔
      ∃ object, chain.place start n = some object ∧ chain.custom? object = some custom :=
  Option.bind_eq_some_iff

theorem At.unique (left : chain.At start n custom) (right : chain.At start n other) :
    custom = other :=
  Option.some.inj (left.symm.trans right)

theorem place_succ :
    chain.place start (n + 1) = some object ↔
      ∃ custom, chain.At start n custom ∧ chain.answer custom = .ok object := by
  rw [place, Option.bind_eq_some_iff]
  constructor
  · rintro ⟨before, there, next⟩
    obtain ⟨custom, known, answers⟩ := next?_eq_some.mp next
    exact ⟨custom, at_iff.mpr ⟨before, there, known⟩, answers⟩
  · rintro ⟨custom, there, answers⟩
    obtain ⟨before, placed, known⟩ := at_iff.mp there
    exact ⟨before, placed, next?_eq_some.mpr ⟨custom, known, answers⟩⟩

theorem place_eq_none (ended : chain.place start n = none) (later : n ≤ m) :
    chain.place start m = none := by
  induction m, later using Nat.le_induction with
  | base => exact ended
  | succ m _ ih => rw [place, ih, Option.bind_none]

theorem exists_place (earlier : n ≤ m) (there : chain.place start m = some object) :
    ∃ before, chain.place start n = some before := by
  apply Option.ne_none_iff_exists'.mp
  intro ended
  rw [place_eq_none ended earlier] at there
  cases there

theorem place_eq_none_of_halt (there : chain.place start n = some object)
    (last : chain.halt? object = some ending) : chain.place start (n + 1) = none := by
  rw [place, there, Option.bind_some]
  exact next?_eq_none.mpr ⟨ending, last⟩

/-! ## Coming back -/

theorem Fresh.mono (fresh : chain.Fresh start m) (earlier : n ≤ m) : chain.Fresh start n :=
  fun i j _ _ before inside => fresh i j _ _ before (Nat.lt_of_lt_of_le inside earlier)

theorem not_fresh :
    ¬ chain.Fresh start n ↔ ∃ i j earlier later, i < j ∧ j < n ∧
      chain.At start i earlier ∧ chain.At start j later ∧ earlier.id = later.id := by
  simp [Fresh]

/-- An object that is met again answers as before, so the chain goes round for good. -/
theorem Revisits.place_ne_none (revisits : chain.Revisits start) (n : Nat) :
    chain.place start n ≠ none := by
  obtain ⟨_, repeated⟩ := revisits
  obtain ⟨i, j, earlier, later, before, -, first, again, same⟩ := not_fresh.mp repeated
  obtain ⟨_, thereAgain, -⟩ := at_iff.mp again
  obtain ⟨object, next⟩ := exists_place (n := i + 1) before thereAgain
  obtain ⟨found, foundThere, answers⟩ := place_succ.mp next
  rw [foundThere.unique first] at answers
  have nextAgain : chain.place start (j + 1) = some object :=
    place_succ.mpr ⟨later, again, chain.answer_congr same answers⟩
  have around (k : Nat) : chain.place start (j + 1 + k) = chain.place start (i + 1 + k) := by
    induction k with
    | zero => exact nextAgain.trans next.symm
    | succ k ih =>
        change (chain.place start (j + 1 + k)).bind _ = (chain.place start (i + 1 + k)).bind _
        rw [ih]
  induction n using Nat.strong_induction_on with
  | _ n ih =>
      intro ended
      rcases Nat.lt_or_ge n (j + 1) with inside | beyond
      · rw [place_eq_none ended (Nat.le_of_lt inside)] at nextAgain
        cases nextAgain
      · obtain ⟨k, rfl⟩ := Nat.exists_eq_add_of_le beyond
        rw [around] at ended
        exact ih (i + 1 + k) (by omega) ended

theorem Revisits.exists_first (revisits : chain.Revisits start) :
    ∃ custom, chain.EndsIn start (.revisited custom) := by
  classical
  obtain ⟨i, j, earlier, later, before, inside, first, again, same⟩ :=
    not_fresh.mp (Nat.find_spec revisits)
  have fresh : chain.Fresh start j := not_not.mp (Nat.find_min revisits inside)
  exact ⟨later, .revisited before first again same fresh⟩

theorem revisits_of_at {earlier : Custom} (before : i < j) (first : chain.At start i earlier)
    (again : chain.At start j custom) (same : earlier.id = custom.id) : chain.Revisits start :=
  ⟨j + 1, not_fresh.mpr ⟨i, j, _, _, before, Nat.lt_succ_self j, first, again, same⟩⟩

theorem EndsIn.unique {another : Ending Object} (left : chain.EndsIn start ending)
    (right : chain.EndsIn start another) : ending = another := by
  have goesOn {n : Nat} {object : Object} {ending : Ending Object}
      (revisits : chain.Revisits start) (there : chain.place start n = some object) :
      chain.halt? object ≠ some ending :=
    fun last => revisits.place_ne_none (n + 1) (place_eq_none_of_halt there last)
  cases left with
  | @revisited i j _ _ before first again same fresh =>
      cases right with
      | @revisited i' j' _ _ before' first' again' same' fresh' =>
          have equal : j = j' := by
            rcases Nat.lt_trichotomy j j' with less | equal | more
            · exact absurd same (fresh' i j _ _ before less first again)
            · exact equal
            · exact absurd same' (fresh i' j' _ _ before' more first' again')
          subst equal
          rw [again.unique again']
      | stopped there last =>
          exact absurd last (goesOn (revisits_of_at before first again same) there)
  | @stopped n object _ there last =>
      cases right with
      | revisited before first again same _ =>
          exact absurd last (goesOn (revisits_of_at before first again same) there)
      | @stopped m other _ otherThere otherLast =>
          have equal : n = m := by
            rcases Nat.lt_trichotomy n m with less | equal | more
            · rw [place_eq_none (place_eq_none_of_halt there last) less] at otherThere
              cases otherThere
            · exact equal
            · rw [place_eq_none (place_eq_none_of_halt otherThere otherLast) more] at there
              cases there
          subst equal
          rw [Option.some.inj (there.symm.trans otherThere), otherLast] at last
          exact (Option.some.inj last).symm

/-! ## The objects met on the way -/

variable (chain) in
def met (start : Object) : Nat → List Nat
  | 0 => []
  | n + 1 =>
      match (chain.place start n).bind chain.custom? with
      | some custom => custom.id :: met start n
      | none => met start n

theorem met_succ (there : chain.At start n custom) :
    chain.met start (n + 1) = custom.id :: chain.met start n := by
  rw [met, there]

theorem mem_met {id : Nat} :
    id ∈ chain.met start n ↔ ∃ i custom, i < n ∧ chain.At start i custom ∧ custom.id = id := by
  induction n with
  | zero => simp [met]
  | succ n ih =>
      cases there : (chain.place start n).bind chain.custom? with
      | none =>
          rw [met, there, ih]
          constructor
          · rintro ⟨i, custom, less, found⟩
            exact ⟨i, custom, Nat.lt_succ_of_lt less, found⟩
          · rintro ⟨i, custom, less, found, same⟩
            rcases Nat.lt_succ_iff_lt_or_eq.mp less with inside | rfl
            · exact ⟨i, custom, inside, found, same⟩
            · rw [At, there] at found
              cases found
      | some last =>
          rw [met_succ there, List.mem_cons, ih]
          constructor
          · rintro (rfl | ⟨i, custom, less, found⟩)
            · exact ⟨n, last, Nat.lt_succ_self n, there, rfl⟩
            · exact ⟨i, custom, Nat.lt_succ_of_lt less, found⟩
          · rintro ⟨i, custom, less, found, same⟩
            rcases Nat.lt_succ_iff_lt_or_eq.mp less with inside | rfl
            · exact Or.inr ⟨i, custom, inside, found, same⟩
            · rw [← same, found.unique there]
              exact Or.inl rfl

/-- On the way to a place every object is custom, and as long as none is met again there are no
more of them than have an answer. -/
theorem Fresh.le_count (fresh : chain.Fresh start n) (there : chain.place start n = some object) :
    n ≤ chain.count := by
  have distinct {m : Nat} (earlier : m ≤ n) :
      (chain.met start m).Nodup ∧ (chain.met start m).length = m ∧
        ∀ id ∈ chain.met start m, id < chain.count := by
    induction m with
    | zero => simp [met]
    | succ m ih =>
        obtain ⟨nodup, length, below⟩ := ih (Nat.le_of_succ_le earlier)
        obtain ⟨_, next⟩ := exists_place earlier there
        obtain ⟨custom, here, answers⟩ := place_succ.mp next
        rw [met_succ here]
        refine ⟨List.nodup_cons.mpr ⟨?_, nodup⟩, by rw [List.length_cons, length], ?_⟩
        · intro listed
          obtain ⟨i, other, less, found, same⟩ := mem_met.mp listed
          exact fresh i m _ _ less earlier found here same
        · intro id listed
          rcases List.mem_cons.mp listed with rfl | later
          · exact chain.lt_count answers
          · exact below id later
  obtain ⟨nodup, length, below⟩ := distinct (Nat.le_refl n)
  calc n = (chain.met start n).toFinset.card := by rw [List.toFinset_card_of_nodup nodup, length]
    _ ≤ (Finset.range chain.count).card := Finset.card_le_card fun id listed =>
        Finset.mem_range.mpr (below id (List.mem_toFinset.mp listed))
    _ = chain.count := Finset.card_range _

theorem exists_stop (once : ¬ chain.Revisits start) :
    ∃ n object ending, chain.place start n = some object ∧ chain.halt? object = some ending := by
  have fresh (n : Nat) : chain.Fresh start n := not_not.mp (not_exists.mp once n)
  have ended : chain.place start (chain.count + 1) = none := by
    by_contra goesOn
    obtain ⟨object, there⟩ := Option.ne_none_iff_exists'.mp goesOn
    exact Nat.not_succ_le_self _ ((fresh _).le_count there)
  have stops : ∃ n, chain.place start n = none := ⟨_, ended⟩
  classical
  obtain ⟨last, lastPlace⟩ : ∃ last, Nat.find stops = last + 1 := by
    apply Nat.exists_eq_add_one_of_ne_zero
    intro zero
    have absent := Nat.find_spec stops
    rw [zero] at absent
    cases absent
  have absent : chain.place start (last + 1) = none := lastPlace ▸ Nat.find_spec stops
  obtain ⟨object, there⟩ := Option.ne_none_iff_exists'.mp
    (Nat.find_min stops (m := last) (by omega))
  rw [place, there, Option.bind_some] at absent
  obtain ⟨ending, halts⟩ := next?_eq_none.mp absent
  exact ⟨last, object, ending, there, halts⟩

theorem exists_ending (chain : Chain Object) (start : Object) :
    ∃ ending, chain.EndsIn start ending := by
  by_cases revisits : chain.Revisits start
  · obtain ⟨custom, ends⟩ := revisits.exists_first
    exact ⟨_, ends⟩
  · obtain ⟨_, _, ending, there, halts⟩ := exists_stop revisits
    exact ⟨ending, .stopped there halts⟩

/-! ## Casts that follow a chain -/

variable (chain) in
/-- A cast that asks custom objects for their answers, one after the other and so many at most,
and refuses one that it has met. -/
structure FollowedBy (cycle : Custom → Fault)
    (cast : Nat → List Nat → Object → Except Fault Result) : Prop where
  direct {more : Nat} {met : List Nat} {object : Object} (plain : chain.custom? object = none) :
    cast more met object = cast 0 [] object
  spent {met : List Nat} {object : Object} {custom : Custom}
    (known : chain.custom? object = some custom) : cast 0 met object = .error (cycle custom)
  step {more : Nat} {met : List Nat} {object : Object} {custom : Custom}
    (known : chain.custom? object = some custom) :
    cast (more + 1) met object =
      if met.contains custom.id then .error (cycle custom)
      else (chain.answer custom).bind (cast more (custom.id :: met))

namespace FollowedBy

variable {cycle : Custom → Fault} {cast : Nat → List Nat → Object → Except Fault Result}
  (follows : chain.FollowedBy cycle cast)
include follows

theorem cast_place (fresh : chain.Fresh start n) (there : chain.place start n = some object)
    (more : Nat) : cast (more + n) [] start = cast more (chain.met start n) object := by
  induction n generalizing object more with
  | zero =>
      cases there
      rfl
  | succ n ih =>
      obtain ⟨custom, here, answers⟩ := place_succ.mp there
      obtain ⟨before, placed, known⟩ := at_iff.mp here
      have new : ¬ (chain.met start n).contains custom.id := by
        rw [List.contains_iff_mem]
        intro listed
        obtain ⟨i, other, less, found, same⟩ := mem_met.mp listed
        exact fresh i n _ _ less (Nat.lt_succ_self n) found here same
      calc cast (more + (n + 1)) [] start
          = cast (more + 1 + n) [] start := by rw [Nat.add_right_comm, Nat.add_assoc]
        _ = cast (more + 1) (chain.met start n) before :=
            ih (fresh.mono (Nat.le_succ n)) placed (more + 1)
        _ = (chain.answer custom).bind (cast more (custom.id :: chain.met start n)) := by
            rw [follows.step known, if_neg new]
        _ = cast more (chain.met start (n + 1)) object := by
            rw [answers, met_succ here]
            rfl

/-- With one step more than there are answers, the cast comes to what the chain comes to. -/
theorem cast_eq (ends : chain.EndsIn start ending) :
    cast (chain.count + 1) [] start = ending.result cycle (cast (chain.count + 1) []) := by
  cases ends with
  | @revisited i n earlier custom before first again same fresh =>
      obtain ⟨object, there, known⟩ := at_iff.mp again
      obtain ⟨more, enough⟩ : ∃ more, chain.count + 1 = more + n :=
        Nat.exists_eq_add_of_le' (Nat.le_succ_of_le (fresh.le_count there))
      have listed : (chain.met start n).contains custom.id := by
        rw [List.contains_iff_mem]
        exact mem_met.mpr ⟨i, earlier, before, first, same⟩
      rw [enough, follows.cast_place fresh there, Ending.result]
      cases more with
      | zero => exact follows.spent known
      | succ more => rw [follows.step known, if_pos listed]
  | @stopped n object _ there last =>
      have fresh : chain.Fresh start n := by
        by_contra repeated
        exact Revisits.place_ne_none ⟨n, repeated⟩ (n + 1) (place_eq_none_of_halt there last)
      obtain ⟨more, enough⟩ := Nat.exists_eq_add_of_le' (fresh.le_count there)
      rw [enough, Nat.add_right_comm, follows.cast_place fresh there]
      obtain ⟨plain, rfl⟩ | ⟨custom, fault, known, answers, rfl⟩ := halt?_eq_some.mp last
      · rw [Ending.result, follows.direct plain]
        exact (follows.direct plain).symm
      · have new : ¬ (chain.met start n).contains custom.id := by
          rw [List.contains_iff_mem]
          intro listed
          obtain ⟨i, other, less, found, same⟩ := mem_met.mp listed
          exact Revisits.place_ne_none
            (revisits_of_at less found (at_iff.mpr ⟨object, there, known⟩) same) (n + 1)
            (place_eq_none_of_halt there last)
        rw [follows.step known, if_neg new, answers]
        rfl

end FollowedBy

end Chain

end Gateware
