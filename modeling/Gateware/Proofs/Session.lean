import Mathlib.Data.List.Forall2
import Gateware.Session

/-!
# Runs of building steps

A step of building that succeeds is taken apart into the runs of its parts.  Warnings
change what is recorded and never the design.
-/

set_option autoImplicit false

namespace Gateware

variable {α β : Type}

/-! ## Results that may be faults -/

theorem bind_eq_ok {given : Except Fault α} {next : α → Except Fault β} {result : β} :
    (given >>= next) = .ok result ↔ ∃ middle, given = .ok middle ∧ next middle = .ok result := by
  cases given with
  | error fault => simp [bind, Except.bind]
  | ok middle => simp [bind, Except.bind]

theorem unless_eq_ok {refused : Prop} [Decidable refused] {fault : Fault}
    {next : Unit → Except Fault β} {result : β} :
    (if refused then throw fault >>= next else next ()) = .ok result ↔
      ¬ refused ∧ next () = .ok result := by
  by_cases holds : refused
  · rw [if_pos holds]
    exact ⟨nofun, fun both => absurd holds both.1⟩
  · rw [if_neg holds, and_iff_right holds]

theorem map_eq_ok {given : Except Fault α} {change : α → β} {result : β} :
    given.map change = .ok result ↔ ∃ middle, given = .ok middle ∧ change middle = result := by
  cases given with
  | error fault => simp [Except.map]
  | ok middle => simp [Except.map]

theorem map_eq_error {given : Except Fault α} {change : α → β} {fault : Fault} :
    given.map change = .error fault ↔ given = .error fault := by
  cases given <;> simp [Except.map]

theorem mapM_eq_ok {step : α → Except Fault β} {given : List α} {results : List β} :
    given.mapM step = .ok results ↔
      List.Forall₂ (fun item result => step item = .ok result) given results := by
  induction given generalizing results with
  | nil => cases results <;> simp [pure, Except.pure]
  | cons first rest ih =>
      rw [List.mapM_cons, bind_eq_ok, List.forall₂_cons_left_iff]
      constructor
      · rintro ⟨result, firstRun, others⟩
        obtain ⟨tail, restRun, same⟩ := bind_eq_ok.mp others
        cases same
        exact ⟨result, tail, firstRun, ih.mp restRun, rfl⟩
      · rintro ⟨result, tail, firstRun, restRun, rfl⟩
        exact ⟨result, firstRun, bind_eq_ok.mpr ⟨tail, ih.mpr restRun, rfl⟩⟩

theorem mapM_eq_error {step : α → Except Fault β} {given : List α} {fault : Fault} :
    given.mapM step = .error fault ↔ ∃ before item after, given = before ++ item :: after ∧
      (∀ earlier ∈ before, ∃ result, step earlier = .ok result) ∧ step item = .error fault := by
  induction given with
  | nil => simp [pure, Except.pure]
  | cons first rest ih =>
      rw [List.mapM_cons]
      cases firstRun : step first with
      | error reported =>
          constructor
          · intro failed
            cases failed
            exact ⟨[], first, rest, rfl, by simp, firstRun⟩
          · rintro ⟨before, item, after, split, passed, failed⟩
            cases before with
            | nil =>
                cases split
                cases firstRun.symm.trans failed
                rfl
            | cons _ _ =>
                cases split
                obtain ⟨_, run⟩ := passed first List.mem_cons_self
                exact absurd (firstRun.symm.trans run) (by simp)
      | ok result =>
          have later : (do
              let result ← (Except.ok result : Except Fault β)
              let results ← rest.mapM step
              pure (result :: results)) = .error fault ↔ rest.mapM step = .error fault := by
            cases rest.mapM step <;> simp [bind, Except.bind, pure, Except.pure]
          rw [later, ih]
          constructor
          · rintro ⟨before, item, after, rfl, passed, failed⟩
            refine ⟨first :: before, item, after, rfl, ?_, failed⟩
            rintro earlier (_ | ⟨_, listed⟩)
            · exact ⟨result, firstRun⟩
            · exact passed earlier listed
          · rintro ⟨before, item, after, split, passed, failed⟩
            cases before with
            | nil =>
                cases split
                exact absurd (firstRun.symm.trans failed) (by simp)
            | cons _ before =>
                cases split
                exact ⟨before, item, after, rfl,
                  fun earlier listed => passed earlier (List.mem_cons_of_mem _ listed), failed⟩

theorem exists_related {related : α → β → Prop} {given : List α} {results : List β} {result : β}
    (pairs : List.Forall₂ related given results) (listed : result ∈ results) :
    ∃ item ∈ given, related item result := by
  induction pairs with
  | nil => cases listed
  | cons here _ ih =>
      rcases List.mem_cons.mp listed with rfl | later
      · exact ⟨_, List.mem_cons_self, here⟩
      · obtain ⟨item, itemListed, there⟩ := ih later
        exact ⟨item, List.mem_cons_of_mem _ itemListed, there⟩

namespace Build

variable {session after : Session} {step : Build α} {result : α}

/-! ## What a run comes to -/

@[simp]
theorem runIn_pure {value : α} : runIn session (pure value) = (.ok value, session) := rfl

@[simp]
theorem runIn_throw {fault : Fault} :
    runIn session (throw fault : Build α) = (.error fault, session) := rfl

@[simp]
theorem runIn_design : runIn session design = (.ok session.design, session) := rfl

@[simp]
theorem runIn_modifyDesign {change : Design → Design} :
    runIn session (modifyDesign change) =
      (.ok (), { session with design := change session.design }) := rfl

@[simp]
theorem runIn_ofExcept {given : Except Fault α} :
    runIn session (ofExcept given) = (given, session) := by
  cases given <;> rfl

theorem runIn_bind {next : α → Build β} :
    runIn session (step >>= next) =
      match runIn session step with
      | (.ok middle, between) => runIn between (next middle)
      | (.error fault, between) => (.error fault, between) := by
  simp only [runIn, bind, ExceptT.bind, ExceptT.run, ExceptT.mk, StateT.run, StateT.bind]
  cases step session with
  | mk outcome between => cases outcome <;> rfl

theorem runIn_bind_of_unchanged {next : α → Build β} {first : Except Fault α}
    {second : α → Except Fault β} (here : runIn session step = (first, session))
    (there : ∀ middle, runIn session (next middle) = (second middle, session)) :
    runIn session (step >>= next) = (first >>= second, session) := by
  rw [runIn_bind, here]
  cases first with
  | error fault => rfl
  | ok middle => exact there middle

@[simp]
theorem runIn_cast {operand : Operand} :
    runIn session (cast operand) = (session.design.cast operand, session) :=
  runIn_ofExcept

theorem runIn_bind_of_fault {next : α → Build β} {fault : Fault}
    (run : runIn session step = (.error fault, after)) :
    runIn session (step >>= next) = (.error fault, after) := by
  rw [runIn_bind, run]

theorem fst_runIn_bind_of_fault {next : α → Build β} {fault : Fault}
    (run : (runIn session step).1 = .error fault) :
    (runIn session (step >>= next)).1 = .error fault :=
  congrArg Prod.fst (runIn_bind_of_fault (Prod.ext run rfl))

theorem snd_runIn_bind_pure {next : α → β} :
    (runIn session (step >>= fun result => pure (next result))).2 = (runIn session step).2 := by
  rw [runIn_bind]
  cases runIn session step with
  | mk outcome between => cases outcome <;> rfl

/-- A step that starts in one session succeeds and ends in another. -/
def Gives (step : Build α) (session : Session) (result : α) (after : Session) : Prop :=
  runIn session step = (.ok result, after)

theorem fails_iff :
    (∃ fault, (runIn session step).1 = .error fault) ↔
      ∀ result after, ¬ Gives step session result after := by
  unfold Gives
  rcases runIn session step with ⟨_ | _, _⟩ <;> simp

theorem Gives.runIn_bind {next : α → Build β} (run : Gives step session result after) :
    runIn session (step >>= next) = runIn after (next result) := by
  rw [Gives] at run
  rw [Build.runIn_bind, run]

theorem gives_pure {value : α} :
    Gives (pure value) session result after ↔ value = result ∧ session = after := by
  have run : runIn session (pure value) = (.ok value, session) := rfl
  rw [Gives, run]
  simp

theorem gives_bind {next : α → Build β} {result : β} :
    Gives (step >>= next) session result after ↔
      ∃ middle between, Gives step session middle between ∧
        Gives (next middle) between result after := by
  unfold Gives
  rw [runIn_bind]
  cases runIn session step with
  | mk outcome between =>
      cases outcome with
      | error fault => simp
      | ok middle => simp

theorem gives_throw {fault : Fault} : ¬ Gives (throw fault : Build α) session result after := by
  intro run
  cases run

theorem gives_ofExcept {given : Except Fault α} :
    Gives (ofExcept given) session result after ↔ given = .ok result ∧ session = after := by
  cases given with
  | error fault =>
      constructor
      · intro run
        exact absurd run gives_throw
      · rintro ⟨same, _⟩
        cases same
  | ok value => simpa [ofExcept] using gives_pure

theorem gives_design {found : Design} :
    Gives design session found after ↔ session.design = found ∧ session = after := by
  constructor
  · intro run
    cases run
    exact ⟨rfl, rfl⟩
  · rintro ⟨rfl, rfl⟩
    rfl

theorem record_design (session : Session) (diagnostic : Diagnostic) :
    (session.record diagnostic).2.design = session.design := by
  unfold Session.record
  split
  · rfl
  · split <;> rfl

theorem Gives.warn {code : Diagnostic.Code} {message : String} {result : Unit}
    (run : Gives (warn code message) session result after) : after.design = session.design := by
  unfold Build.warn at run
  obtain ⟨found, between, got, rest⟩ := gives_bind.mp run
  cases got
  cases recorded : session.record (Diagnostic.warning code message) with
  | mk denied changed =>
      have design : changed.design = session.design := by
        rw [← record_design session (Diagnostic.warning code message), recorded]
      rw [recorded] at rest
      obtain ⟨_, stored, put, final⟩ := gives_bind.mp rest
      cases put
      cases denied with
      | none =>
          rw [← (gives_pure.mp final).2]
          exact design
      | some diagnostic => exact absurd final gives_throw

/-! ## Casts and lists -/

theorem gives_cast {operand : Operand} {value : Value} :
    Gives (cast operand) session value after ↔
      session.design.cast operand = .ok value ∧ session = after := by
  unfold cast
  rw [gives_bind]
  constructor
  · rintro ⟨found, between, got, rest⟩
    obtain ⟨rfl, rfl⟩ := gives_design.mp got
    exact gives_ofExcept.mp rest
  · intro given
    exact ⟨_, _, gives_design.mpr ⟨rfl, rfl⟩, gives_ofExcept.mpr given⟩

theorem gives_castShape {spec : ShapeSpec} {shape : Shape} :
    Gives (castShape spec) session shape after ↔
      session.design.castShape spec = .ok shape ∧ session = after := by
  unfold castShape
  rw [gives_bind]
  constructor
  · rintro ⟨found, between, got, rest⟩
    obtain ⟨rfl, rfl⟩ := gives_design.mp got
    exact gives_ofExcept.mp rest
  · intro given
    exact ⟨_, _, gives_design.mpr ⟨rfl, rfl⟩, gives_ofExcept.mpr given⟩

/-- What every step of a list preserves and gives, the whole list does. -/
theorem Gives.mapM {run : α → Build β} {given : List α} {results : List β}
    (keeps : Session → Prop) (related : α → β → Prop)
    (step : ∀ item ∈ given, ∀ {before middle : Session} {result : β}, keeps before →
      Gives (run item) before result middle → keeps middle ∧ related item result)
    (start : keeps session) (gives : Gives (given.mapM run) session results after) :
    keeps after ∧ List.Forall₂ related given results := by
  induction given generalizing session results with
  | nil =>
      rw [List.mapM_nil] at gives
      obtain ⟨rfl, rfl⟩ := gives_pure.mp gives
      exact ⟨start, List.Forall₂.nil⟩
  | cons first rest ih =>
      rw [List.mapM_cons] at gives
      obtain ⟨result, between, firstRun, others⟩ := gives_bind.mp gives
      obtain ⟨tail, last, restRun, final⟩ := gives_bind.mp others
      obtain ⟨rfl, rfl⟩ := gives_pure.mp final
      obtain ⟨kept, here⟩ := step first List.mem_cons_self start firstRun
      obtain ⟨done, below⟩ :=
        ih (fun item later => step item (List.mem_cons_of_mem _ later)) kept restRun
      exact ⟨done, List.Forall₂.cons here below⟩

theorem Gives.foldlM {run : β → α → Build β} {given : List α} {first result : β}
    (keeps : β → Prop) (start : keeps first)
    (step : ∀ item ∈ given, ∀ {state next : β} {before middle : Session}, keeps state →
      Gives (run state item) before next middle → keeps next)
    (gives : Gives (given.foldlM run first) session result after) : keeps result := by
  induction given generalizing first session with
  | nil =>
      rw [List.foldlM_nil] at gives
      rw [← (gives_pure.mp gives).1]
      exact start
  | cons item rest ih =>
      rw [List.foldlM_cons] at gives
      obtain ⟨next, between, itemRun, restRun⟩ := gives_bind.mp gives
      exact ih (step item List.mem_cons_self start itemRun)
        (fun later listed => step later (List.mem_cons_of_mem _ listed)) restRun

end Build

end Gateware
