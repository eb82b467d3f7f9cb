import Mathlib.Data.List.Forall2
import Mathlib.Logic.Relation

/-!
A pipeline of three parties with a queue between each two of them. The first
pushes items; the stage in the middle takes them one by one, drops them until it
is active, and from then on makes a result of each, which it passes on before
it stores the item; the last sends the results. Whatever the parties' speeds,
nothing is lost, doubled or put in another order on the way (`delivered`).
-/
namespace Opqbox.Stages
universe u

/-- A stage with a state; once active it stays so. -/
structure Stage (State Item Result : Type u) where
  active : State → Bool
  consume : State → Item → State
  result : State → Item → Option Result
  stays : ∀ s x, active s = true → active (consume s x) = true

/-- What the stage is at. -/
inductive Work (Item Result : Type u) where
  | idle
  | held (x : Item)
  | made (x : Item) (r : Result)
  | storing (x : Item)

structure Flow (State Item Result : Type u) where
  input : List Item
  state : State
  work : Work Item Result
  output : List Result
  /-- The result that the last party has taken and not sent yet. -/
  taken : Option Result
  /-- What was pushed, popped in which state of the stage, sent and stored so far. -/
  pushed : List Item
  popped : List (State × Item)
  sent : List Result
  stored : List Item

variable {State Item Result : Type u}

def Flow.start (s : State) : Flow State Item Result := ⟨[],s,.idle,[],none,[],[],[],[]⟩

/-- The steps of the parties. -/
inductive Step (stage : Stage State Item Result) (f : Flow State Item Result) : Flow State Item Result → Prop where
  | push (x : Item) : Step stage f { f with input := f.input ++ [x], pushed := f.pushed ++ [x] }
  | pop {x : Item} {rest : List Item} (idle : f.work = .idle) (front : f.input = x :: rest) :
    Step stage f { f with input := rest, work := .held x, popped := f.popped ++ [(f.state,x)] }
  | drop {x : Item} (held : f.work = .held x) (inactive : stage.active f.state = false) :
    Step stage f { f with work := .idle, state := stage.consume f.state x }
  | make {x : Item} {r : Result} (held : f.work = .held x) (active : stage.active f.state = true)
      (result : stage.result f.state x = some r) :
    Step stage f { f with work := .made x r, state := stage.consume f.state x }
  | emit {x : Item} {r : Result} (made : f.work = .made x r) :
    Step stage f { f with work := .storing x, output := f.output ++ [r] }
  | store {x : Item} (storing : f.work = .storing x) :
    Step stage f { f with work := .idle, stored := f.stored ++ [x] }
  | take {r : Result} {rest : List Result} (free : f.taken = none) (front : f.output = r :: rest) :
    Step stage f { f with output := rest, taken := some r }
  | send {r : Result} (taken : f.taken = some r) :
    Step stage f { f with taken := none, sent := f.sent ++ [r] }

/-! ### The stage on a list of items -/

namespace Stage
variable (stage : Stage State Item Result)

/-- The state after the items. -/
def after (s : State) (xs : List Item) : State := xs.foldl stage.consume s

/-- The items with the state they meet. -/
def trace : State → List Item → List (State × Item)
  | _,[] => []
  | s,x :: xs => (s,x) :: trace (stage.consume s x) xs

/-- The items that meet an active state. -/
def kept (met : List (State × Item)) : List (State × Item) := met.filter fun e => stage.active e.1

/-- A result is that of an item. -/
def Makes (e : State × Item) (r : Result) : Prop := stage.result e.1 e.2 = some r

variable {stage}

theorem trace_append (s : State) (xs ys : List Item) :
    stage.trace s (xs ++ ys) = stage.trace s xs ++ stage.trace (stage.after s xs) ys := by
  induction xs generalizing s with
  | nil => rfl
  | cons x xs ih => rw [List.cons_append,trace,trace,ih]; rfl

theorem trace_concat (s : State) (xs : List Item) (x : Item) :
    stage.trace s (xs ++ [x]) = stage.trace s xs ++ [(stage.after s xs,x)] := trace_append s xs [x]

theorem trace_front (s : State) (xs ys : List Item) : stage.trace s xs <+: stage.trace s (xs ++ ys) := by
  rw [trace_append]
  exact List.prefix_append _ _

theorem trace_items (s : State) (xs : List Item) : (stage.trace s xs).map Prod.snd = xs := by
  induction xs generalizing s with
  | nil => rfl
  | cons x xs ih => rw [trace,List.map_cons,ih]

theorem after_concat (s : State) (xs : List Item) (x : Item) :
    stage.after s (xs ++ [x]) = stage.consume (stage.after s xs) x := by
  rw [after,List.foldl_append]
  rfl

theorem active_trace {s : State} (active : stage.active s = true) (xs : List Item) :
    ∀ e ∈ stage.trace s xs, stage.active e.1 = true := by
  induction xs generalizing s with
  | nil => simp [trace]
  | cons x xs ih =>
    rintro e (_ | ⟨_,later⟩)
    · exact active
    · exact ih (stage.stays s x active) e later

/-- The items that meet an active state are the last ones. -/
theorem trace_split (stage : Stage State Item Result) (s : State) (xs : List Item) :
    ∃ dropped, stage.trace s xs = dropped ++ stage.kept (stage.trace s xs) ∧
      ∀ e ∈ dropped, stage.active e.1 = false := by
  induction xs generalizing s with
  | nil => exact ⟨[],rfl,by simp⟩
  | cons x xs ih =>
    cases active : stage.active s with
    | true =>
      refine ⟨[],?_,by simp⟩
      exact (List.filter_eq_self.mpr (active_trace active (x :: xs))).symm
    | false =>
      obtain ⟨dropped,split,inactive⟩ := ih (stage.consume s x)
      refine ⟨(s,x) :: dropped,?_,?_⟩
      · rw [kept,trace,List.filter_cons_of_neg (by simp [active]),List.cons_append,← kept,← split]
      · rintro e (_ | ⟨_,later⟩)
        · exact active
        · exact inactive e later

end Stage

/-! ### Runs -/

/-- The item that is popped but not consumed. -/
def Work.waiting : Work Item Result → List Item
  | .held x => [x]
  | _ => []

/-- The item that is consumed but not stored. -/
def Work.owed : Work Item Result → List Item
  | .made x _ | .storing x => [x]
  | _ => []

/-- The result that is not passed on. -/
def Work.pending : Work Item Result → List Result
  | .made _ r => [r]
  | _ => []

/-- Every item and result is somewhere, where the stage has consumed the items `before`. -/
structure Accounted (stage : Stage State Item Result) (s : State) (f : Flow State Item Result) (before : List Item) :
    Prop where
  state : f.state = stage.after s before
  pushed : f.pushed = before ++ f.work.waiting ++ f.input
  popped : f.popped = stage.trace s (before ++ f.work.waiting)
  stored : (stage.kept (stage.trace s before)).map Prod.snd = f.stored ++ f.work.owed
  sent : List.Forall₂ stage.Makes (stage.kept (stage.trace s before)) (f.sent ++ f.taken.toList ++ f.output ++ f.work.pending)

variable {stage : Stage State Item Result} {s : State} {f g : Flow State Item Result} {before : List Item}

theorem accounted_start (stage : Stage State Item Result) (s : State) :
    Accounted stage s (.start s) [] := ⟨rfl,rfl,rfl,rfl,.nil⟩

theorem Accounted.step (accounted : Accounted stage s f before) (taken : Step stage f g) :
    ∃ before, Accounted stage s g before := by
  obtain ⟨state,pushed,popped,stored,sent⟩ := accounted
  cases taken with
  | push x => exact ⟨before,state,by rw [pushed,List.append_assoc],popped,stored,sent⟩
  | pop idle front =>
    refine ⟨before,state,?_,?_,?_,?_⟩
    · simp [pushed,idle,front,Work.waiting]
    · simp only [popped,idle,Work.waiting,List.append_nil,state]
      exact (Stage.trace_concat ..).symm
    · simpa [idle,Work.owed] using stored
    · simpa [idle,Work.pending] using sent
  | @drop x held inactive =>
    have skipped : stage.kept (stage.trace s (before ++ [x])) = stage.kept (stage.trace s before) := by
      rw [Stage.trace_concat,← state,Stage.kept,List.filter_append,List.filter_cons_of_neg (by simp [inactive])]
      exact List.append_nil _
    refine ⟨before ++ [x],?_,?_,?_,?_,?_⟩
    · rw [Stage.after_concat,← state]
    · simpa [held,Work.waiting] using pushed
    · simpa [held,Work.waiting] using popped
    · simpa [skipped,held,Work.owed] using stored
    · simpa [skipped,held,Work.pending] using sent
  | @make x r held active result =>
    have added : stage.kept (stage.trace s (before ++ [x])) = stage.kept (stage.trace s before) ++ [(f.state,x)] := by
      rw [Stage.trace_concat,← state,Stage.kept,List.filter_append,List.filter_cons_of_pos (by exact active)]
      rfl
    refine ⟨before ++ [x],?_,?_,?_,?_,?_⟩
    · rw [Stage.after_concat,← state]
    · simpa [held,Work.waiting] using pushed
    · simpa [held,Work.waiting] using popped
    · rw [added,List.map_append,stored,held]
      simp [Work.owed]
    · rw [added]
      refine List.rel_append ?_ (.cons result .nil)
      simpa [held,Work.pending] using sent
  | emit made =>
    refine ⟨before,state,?_,?_,?_,?_⟩
    · simpa [made,Work.waiting] using pushed
    · simpa [made,Work.waiting] using popped
    · simpa [made,Work.owed] using stored
    · simpa [made,Work.pending] using sent
  | store storing =>
    refine ⟨before,state,?_,?_,?_,?_⟩
    · simpa [storing,Work.waiting] using pushed
    · simpa [storing,Work.waiting] using popped
    · simpa [storing,Work.owed] using stored
    · simpa [storing,Work.pending] using sent
  | take free front =>
    refine ⟨before,state,pushed,popped,stored,?_⟩
    simpa [free,front] using sent
  | send held =>
    refine ⟨before,state,pushed,popped,stored,?_⟩
    simpa [held] using sent

theorem accounted (reached : Relation.ReflTransGen (Step stage) (.start s) f) :
    ∃ before, Accounted stage s f before := by
  induction reached with
  | refl => exact ⟨[],accounted_start stage s⟩
  | tail _ taken ih =>
    obtain ⟨before,accounted⟩ := ih
    exact accounted.step taken

/-- What is popped are the first items pushed, dropped until the stage is active;
    the items stored are the first of the others, and the results sent are
    those of the first of them. -/
theorem delivered (reached : Relation.ReflTransGen (Step stage) (.start s) f) :
    ∃ dropped kept, f.popped = dropped ++ kept ∧ (∀ e ∈ dropped, stage.active e.1 = false) ∧
      (∀ e ∈ kept, stage.active e.1 = true) ∧
      f.popped <+: stage.trace s f.pushed ∧ f.stored <+: kept.map Prod.snd ∧
      ∃ worked, worked <+: kept ∧ List.Forall₂ stage.Makes worked f.sent := by
  obtain ⟨before,_,pushed,popped,stored,sent⟩ := accounted reached
  obtain ⟨dropped,split,inactive⟩ := Stage.trace_split stage s (before ++ f.work.waiting)
  have consumed : stage.kept (stage.trace s before) <+: stage.kept (stage.trace s (before ++ f.work.waiting)) :=
    (Stage.trace_front s before _).filter _
  refine ⟨dropped,stage.kept f.popped,?_,inactive,?_,?_,?_,?_⟩
  · rw [popped]
    exact split
  · intro e member
    exact (List.mem_filter.mp member).2
  · rw [popped,pushed]
    exact Stage.trace_front s _ _
  · rw [popped]
    refine List.IsPrefix.trans ?_ (consumed.map Prod.snd)
    rw [stored]
    exact List.prefix_append _ _
  · rw [List.append_assoc,List.append_assoc] at sent
    rw [popped]
    exact ⟨_,(List.take_prefix _ _).trans consumed,List.forall₂_take_append _ _ _ sent⟩

end Opqbox.Stages
