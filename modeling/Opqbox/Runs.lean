import Mathlib.Logic.Relation
import Mathlib.Tactic.TypeStar

/-!
Runs of a system that is given by a step function. A run is a list of actions,
each possible where it is taken (`run`); `Along` says what holds at every step
of it. A property of runs comes from an invariant that one step preserves
(`run_invariant`), also where only the steps that meet a condition preserve it
(`along_of_along`, `along_iff`). What a condition says about the steps before is
kept in a note beside the state (`noting`).
-/
namespace Opqbox.Runs

variable {State Action : Type*}

/-- The state after the actions, if each of them is possible where it is taken. -/
def run (step : State → Action → Option State) : State → List Action → Option State
  | s, [] => some s
  | s, a :: as => (step s a).bind fun t => run step t as

/-- Every step of the run has the property, up to the first action that is not
    possible. -/
def Along (step : State → Action → Option State) (P : State → Action → State → Prop) :
    State → List Action → Prop
  | _, [] => True
  | s, a :: as => ∀ t, step s a = some t → P s a t ∧ Along step P t as

/-- Whether every step of a run has a property can be evaluated. -/
instance Along.decidable (step : State → Action → Option State) (P : State → Action → State → Prop)
    [∀ s a t, Decidable (P s a t)] : ∀ s as, Decidable (Along step P s as)
  | _, [] => .isTrue trivial
  | s, a :: as =>
    match taken : step s a with
    | none => .isTrue fun t same => by simp [taken] at same
    | some u =>
      have := Along.decidable step P u as
      decidable_of_iff (P s a u ∧ Along step P u as) ⟨fun holds t same => by cases taken.symm.trans same; exact holds,
        fun along => along u taken⟩

/-- Some run from `start` ends in the state. -/
def Reachable (step : State → Action → Option State) (start s : State) : Prop :=
  ∃ actions, run step start actions = some s

variable {step : State → Action → Option State} {P Q : State → Action → State → Prop} {Inv : State → Prop}

@[simp] theorem run_nil (s : State) : run step s [] = some s := rfl

theorem run_cons {s t : State} {a : Action} (taken : step s a = some t) (as : List Action) :
    run step s (a :: as) = run step t as := by
  simp [run, taken]

theorem run_cons_inv {s u : State} {a : Action} {as : List Action} (ran : run step s (a :: as) = some u) :
    ∃ t, step s a = some t ∧ run step t as = some u :=
  Option.bind_eq_some_iff.mp ran

theorem run_append {s t : State} {as : List Action} (ran : run step s as = some t) (bs : List Action) :
    run step s (as ++ bs) = run step t bs := by
  induction as generalizing s with
  | nil =>
    cases ran
    rfl
  | cons a as ih =>
    obtain ⟨v,first,rest⟩ := run_cons_inv ran
    exact (run_cons first _).trans (ih rest)

theorem run_concat {s t u : State} {as : List Action} {a : Action} (ran : run step s as = some t) (taken : step t a = some u) :
    run step s (as ++ [a]) = some u :=
  (run_append ran [a]).trans (run_cons taken [])

/-! ### Notes -/

section Notes

variable {Note : Type*} (note : State → Action → Note → Note)

/-- The system with a note beside its state. Each action changes the note, and no
    step depends on it. -/
def noting (step : State → Action → Option State) (p : State × Note) (a : Action) : Option (State × Note) :=
  (step p.1 a).map fun t => (t,note p.1 a p.2)

theorem noting_inv {p q : State × Note} {a : Action} (taken : noting note step p a = some q) :
    step p.1 a = some q.1 ∧ q.2 = note p.1 a p.2 := by
  obtain ⟨t,moved,rfl⟩ := Option.map_eq_some_iff.mp taken
  exact ⟨moved,rfl⟩

/-- Every run can be noted. -/
theorem run_noting {s t : State} {as : List Action} (ran : run step s as = some t) (n : Note) :
    ∃ m, run (noting note step) (s,n) as = some (t,m) := by
  induction as generalizing s n with
  | nil =>
    cases ran
    exact ⟨n,rfl⟩
  | cons a as ih =>
    obtain ⟨u,taken,rest⟩ := run_cons_inv ran
    obtain ⟨m,noted⟩ := ih rest (note s a n)
    exact ⟨m,(run_cons (Option.map_eq_some_iff.mpr ⟨u,taken,rfl⟩) as).trans noted⟩

end Notes

/-! ### Invariants of runs -/

/-- What every step preserves holds at the end of every run. -/
theorem run_invariant (preserved : ∀ s a t, Inv s → step s a = some t → Inv t) {s t : State}
    {as : List Action} (start : Inv s) (ran : run step s as = some t) : Inv t := by
  induction as generalizing s with
  | nil => cases ran; exact start
  | cons a as ih =>
    obtain ⟨u, taken, rest⟩ := run_cons_inv ran
    exact ih (preserved s a u start taken) rest

theorem Reachable.invariant (preserved : ∀ s a t, Inv s → step s a = some t → Inv t) {start s : State}
    (init : Inv start) (reach : Reachable step start s) : Inv s := by
  obtain ⟨as, ran⟩ := reach
  exact run_invariant preserved init ran

/-- Where each step leaves what is seen of the state alone or is one of another
    system, every run is one of that system. -/
theorem run_simulates {Seen : Type*} {R : Seen → Seen → Prop} (seen : State → Seen)
    (preserved : ∀ s a t, Inv s → step s a = some t → Inv t)
    (simulates : ∀ s a t, Inv s → step s a = some t → seen t = seen s ∨ R (seen s) (seen t)) {s t : State} {as : List Action}
    (start : Inv s) (ran : run step s as = some t) : Relation.ReflTransGen R (seen s) (seen t) := by
  induction as generalizing s with
  | nil => cases ran; exact .refl
  | cons a as ih =>
    obtain ⟨u, taken, rest⟩ := run_cons_inv ran
    have later := ih (preserved s a u start taken) rest
    rcases simulates s a u start taken with same | moves
    · rwa [same] at later
    · exact .head moves later

/-- An invariant that only the steps with property `P` preserve holds at the
    end of every run of such steps. -/
theorem run_invariant_along (Inv : State → Prop) (preserved : ∀ s a t, Inv s → step s a = some t → P s a t → Inv t) {s t : State}
    {as : List Action} (start : Inv s) (along : Along step P s as) (ran : run step s as = some t) : Inv t := by
  induction as generalizing s with
  | nil => cases ran; exact start
  | cons a as ih =>
    obtain ⟨u, taken, rest⟩ := run_cons_inv ran
    obtain ⟨now, later⟩ := along u taken
    exact ih (preserved s a u start taken now) later rest

/-- Where the steps with property `P` preserve an invariant, and `P` gives `Q`
    under it, a run of steps with `P` is one of steps with `Q`. -/
theorem along_of_along (Inv : State → Prop) (preserved : ∀ s a t, Inv s → step s a = some t → P s a t → Inv t)
    (gives : ∀ s a t, Inv s → step s a = some t → P s a t → Q s a t) {s : State} {as : List Action}
    (start : Inv s) (along : Along step P s as) : Along step Q s as := by
  induction as generalizing s with
  | nil => trivial
  | cons a as ih =>
    intro t taken
    obtain ⟨now, later⟩ := along t taken
    exact ⟨gives s a t start taken now, ih (preserved s a t start taken now) later⟩

/-- Two properties of a step that agree under an invariant, which the steps
    with either of them preserve, hold along the same runs. -/
theorem along_iff (Inv : State → Prop) (preserved : ∀ s a t, Inv s → step s a = some t → P s a t → Inv t)
    (agree : ∀ s a t, Inv s → step s a = some t → (P s a t ↔ Q s a t)) {s : State} {as : List Action}
    (start : Inv s) : Along step P s as ↔ Along step Q s as := by
  constructor
  · exact along_of_along Inv preserved (fun s a t inv taken => (agree s a t inv taken).mp) start
  · exact along_of_along Inv (fun s a t inv taken holds => preserved s a t inv taken ((agree s a t inv taken).mpr holds))
      (fun s a t inv taken => (agree s a t inv taken).mpr) start

/-- Where a step without `Q` leads to what steps with `P` cannot leave, a run of
    steps with `P` that ends elsewhere is one of steps with `Q`. -/
theorem along_of_escaped (Inv Doomed : State → Prop) (preserved : ∀ s a t, Inv s → step s a = some t → P s a t → Inv t)
    (dooms : ∀ s a t, Inv s → step s a = some t → P s a t → ¬ Q s a t → Doomed t)
    (stays : ∀ s a t, Inv s → step s a = some t → P s a t → Doomed s → Doomed t) {s u : State} {as : List Action}
    (start : Inv s) (along : Along step P s as) (ran : run step s as = some u) (escaped : ¬ Doomed u) : Along step Q s as := by
  induction as generalizing s with
  | nil => trivial
  | cons a as ih =>
    intro t taken
    obtain ⟨now,later⟩ := along t taken
    rw [run_cons taken] at ran
    have inv := preserved s a t start taken now
    refine ⟨Classical.byContradiction fun fails => ?_,ih inv later ran⟩
    have doomed := run_invariant_along (fun s => Inv s ∧ Doomed s)
      (fun s a t both taken holds => ⟨preserved s a t both.1 taken holds,stays s a t both.1 taken holds both.2⟩)
      ⟨inv,dooms s a t start taken now fails⟩ later ran
    exact escaped doomed.2

/-- What every step by one of the actions has holds along their runs. -/
theorem along_of_forall {as : List Action} (holds : ∀ a ∈ as, ∀ s t, P s a t) (s : State) : Along step P s as := by
  induction as generalizing s with
  | nil => trivial
  | cons a as ih =>
    exact fun t _ => ⟨holds a List.mem_cons_self s t,ih (fun b mem => holds b (List.mem_cons_of_mem a mem)) t⟩

theorem Along.front {s : State} {as bs : List Action} (along : Along step P s (as ++ bs)) : Along step P s as := by
  induction as generalizing s with
  | nil => trivial
  | cons a as ih => exact fun t taken => ⟨(along t taken).1,ih (along t taken).2⟩

theorem Along.append {s t : State} {as bs : List Action} (first : Along step P s as) (ran : run step s as = some t)
    (second : Along step P t bs) : Along step P s (as ++ bs) := by
  induction as generalizing s with
  | nil => cases ran; exact second
  | cons a as ih =>
    intro u taken
    obtain ⟨now,later⟩ := first u taken
    rw [run_cons taken] at ran
    exact ⟨now,ih later ran⟩

/-- Each single step of a run has what holds along the run. -/
theorem Along.at {s t u : State} {as : List Action} {a : Action} (bs : List Action) (along : Along step P s (as ++ a :: bs))
    (ran : run step s as = some t) (taken : step t a = some u) : P t a u := by
  induction as generalizing s with
  | nil => cases ran; exact (along u taken).1
  | cons b as ih =>
    obtain ⟨v, first, rest⟩ := run_cons_inv ran
    exact ih (along v first).2 rest

end Opqbox.Runs
