import Mathlib.Order.WellFounded
import Opqbox.Runs

/-!
Endless runs of a system whose actions belong to parties. A run is fair to a
party that does not stay able to act for ever without acting (`Fair`). A goal is
reached in every fair run where a rank falls: in each state one party helps, it
can act, its steps lower the rank, and the steps of the others lower it or leave
it and the party that helps (`eventually_of_rank`).
-/
namespace Opqbox.FairRuns
open Opqbox.Runs

variable {State Action Party : Type*} {step : State → Action → Option State}

/-- Each action leads from one state to the next. -/
def Endless (step : State → Action → Option State) (states : Nat → State) (actions : Nat → Action) : Prop :=
  ∀ n, step (states n) (actions n) = some (states (n + 1))

/-- Some action of the party is possible. -/
def Enabled (step : State → Action → Option State) (party : Action → Party) (p : Party) (s : State) : Prop :=
  ∃ a t, party a = p ∧ step s a = some t

theorem enabled_of_isSome {party : Action → Party} {s : State} {a : Action} (possible : (step s a).isSome) :
    Enabled step party (party a) s :=
  (Option.isSome_iff_exists.mp possible).elim fun t taken => ⟨a,t,rfl,taken⟩

/-- A party that can act from some time on acts after it. -/
def Fair (step : State → Action → Option State) (party : Action → Party) (p : Party) (states : Nat → State)
    (actions : Nat → Action) : Prop :=
  ∀ n, (∀ m, n ≤ m → Enabled step party p (states m)) → ∃ m, n ≤ m ∧ party (actions m) = p

variable {states : Nat → State} {actions : Nat → Action}

/-- The run up to a time. -/
theorem Endless.run (endless : Endless step states actions) (n : Nat) :
    run step (states 0) ((List.range n).map actions) = some (states n) := by
  induction n with
  | zero => rfl
  | succ n ih =>
    rw [List.range_succ,List.map_append]
    exact run_concat ih (endless n)

/-- What every step that is taken preserves holds from then on. -/
theorem Endless.invariant {Inv : State → Prop} (endless : Endless step states actions)
    (preserved : ∀ n, Inv (states n) → step (states n) (actions n) = some (states (n + 1)) → Inv (states (n + 1))) {n : Nat}
    (holds : Inv (states n)) {m : Nat} (later : n ≤ m) : Inv (states m) := by
  induction later with
  | refl => exact holds
  | step _ ih => exact preserved _ ih (endless _)

/-- A step lowers the rank, or it is one of another party than the one that helps and
    leaves both. -/
def Lowers {Rank : Type*} [LT Rank] (party : Action → Party) (rank : State → Rank) (helper : State → Party) (s : State)
    (a : Action) (t : State) : Prop :=
  rank t < rank s ∨ rank t = rank s ∧ helper t = helper s ∧ party a ≠ helper s

/-- In a run that is fair to the parties that help, the goal is reached. -/
theorem eventually_of_rank {Rank : Type*} [LT Rank] [WellFoundedLT Rank] {party : Action → Party} {Goal : State → Prop}
    (rank : State → Rank) (helper : State → Party) {n : Nat}
    (fair : ∀ m, n ≤ m → ¬ Goal (states m) → Fair step party (helper (states m)) states actions)
    (enabled : ∀ m, n ≤ m → ¬ Goal (states m) → Enabled step party (helper (states m)) (states m))
    (lowers : ∀ m, n ≤ m → ¬ Goal (states m) → Lowers party rank helper (states m) (actions m) (states (m + 1))) :
    ∃ m, n ≤ m ∧ Goal (states m) := by
  induction at_ : rank (states n) using WellFoundedLT.induction generalizing n with
  | ind r ih =>
    by_contra never
    have not_yet : ∀ m, n ≤ m → ¬ Goal (states m) := fun m later goal => never ⟨m,later,goal⟩
    have not_lower : ∀ m, n ≤ m → ¬ rank (states m) < r := by
      intro m later lower
      obtain ⟨k,after,goal⟩ := ih _ lower (fun k after => fair k (later.trans after)) (fun k after => enabled k (later.trans after))
        (fun k after => lowers k (later.trans after)) rfl
      exact never ⟨k,later.trans after,goal⟩
    have same : ∀ m, n ≤ m → rank (states m) = r ∧ helper (states m) = helper (states n) := by
      intro m later
      induction later with
      | refl => exact ⟨at_,rfl⟩
      | step later same =>
        rcases lowers _ later (not_yet _ later) with lower | ⟨level,helps,_⟩
        · exact absurd (same.1 ▸ lower) (not_lower _ (Nat.le_succ_of_le later))
        · exact ⟨level.trans same.1,helps.trans same.2⟩
    -- The same party helps for ever, so that it acts.
    obtain ⟨m,later,acts⟩ := fair n le_rfl (not_yet n le_rfl) n fun m later =>
      (same m later).2 ▸ enabled m later (not_yet m later)
    rcases lowers m later (not_yet m later) with lower | ⟨_,_,other⟩
    · exact not_lower (m + 1) (Nat.le_succ_of_le later) ((same m later).1 ▸ lower)
    · exact other (acts.trans (same m later).2.symm)

/-- A run that ends where an action changes nothing goes on for ever. -/
theorem endless_of_run {s t : State} {as : List Action} (ran : run step s as = some t) {idle : Action}
    (rests : step t idle = some t) : ∃ states actions, Endless step states actions ∧ states 0 = s ∧ actions = (fun n => as[n]?.getD idle) ∧
      ∀ n, as.length ≤ n → states n = t := by
  induction as generalizing s with
  | nil =>
    cases ran
    exact ⟨fun _ => t,_,fun _ => rests,rfl,rfl,fun _ _ => rfl⟩
  | cons a as ih =>
    obtain ⟨u,taken,rest⟩ := run_cons_inv ran
    obtain ⟨states,actions,endless,first,is,final⟩ := ih rest
    refine ⟨fun | 0 => s | n+1 => states n,_,?_,rfl,rfl,?_⟩
    · rintro (_ | n)
      · show step s a = some (states 0)
        rw [first,taken]
      · have next := endless n
        rw [is] at next
        exact next
    · rintro (_ | n) later
      · simp at later
      · exact final n (Nat.le_of_succ_le_succ later)

end Opqbox.FairRuns
