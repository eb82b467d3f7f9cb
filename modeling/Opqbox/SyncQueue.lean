import Opqbox.Runs
import Opqbox.Threads

/-!
`SyncQueue`: a queue with a mutex and a condition, used by any number of threads.
A step of a thread goes from an operation on the mutex or on the condition up to
the next one. No item is lost, doubled or overtaken, and a thread sleeps beside a
filled queue only as long as another is about to notify or to take an item
(`monitor_correct`). What left it was taken by a `pop` or discarded by a `clear`
(`step_departs`).
-/
namespace Opqbox.SyncQueue
open Opqbox.Runs Opqbox.Threads Function

/-- The calls; both forms of `pop` and of `push` do the same. -/
inductive Call (T : Type) where
  | pop | push (item : T) | clear

/-- The operation that a thread comes to next. With the mutex: the wait of `pop`,
    and the unlock once an item was taken, an item was pushed or the queue was
    cleared. -/
inductive Position (T : Type) where
  | outside | wait | asleep | woken | taken (item : T) | pushed | cleared | notify

namespace Position
variable {T : Type}

/-- With the mutex. -/
def inside : Position T → Bool
  | .wait | .taken _ | .pushed | .cleared => true
  | _ => false

def isAsleep : Position T → Bool
  | .asleep => true
  | _ => false

/-- Woken up, without the mutex yet. -/
def isWoken : Position T → Bool
  | .woken => true
  | _ => false

/-- An item is in the queue and `notify_one` still to be called for it. -/
def notifies : Position T → Bool
  | .pushed | .notify => true
  | _ => false

end Position

/-- What became of an item that is no longer in the queue. -/
inductive Fate where
  | returned | discarded
  deriving DecidableEq

/-- A queue and its threads; `size_t` has `w` bits. -/
structure Monitor (Thread T : Type) (w : Nat) where
  queue : List T
  count : BitVec w
  mutex : Option Thread
  threads : Thread → Position T
  /-- The items pushed so far, in the order of the locks. -/
  pushed : List T
  /-- The items that `pop` returned, in the order of the locks. -/
  popped : List T
  /-- The items that left the queue, in their order there. -/
  departed : List (T × Fate)
  /-- Whether `_count` was decremented at 0. -/
  underflow : Bool

variable {Thread T : Type} {w : Nat}

/-- The constructor, before any call. -/
def start : Monitor Thread T w := ⟨[],0,none,fun _ => .outside,[],[],[],false⟩

inductive Action (Thread T : Type) where
  | lock (i : Thread) (call : Call T)
  | wait (i : Thread)
  /-- The thread wakes up on its own. -/
  | wake (i : Thread)
  /-- `wait` locks the mutex again. -/
  | relock (i : Thread)
  | unlock (i : Thread)
  /-- `notify_one` wakes the thread, if there is one that sleeps. -/
  | notify (i : Thread) (woken : Option Thread)

namespace Monitor
variable [DecidableEq Thread]

def move (s : Monitor Thread T w) (i : Thread) (p : Position T) : Monitor Thread T w :=
  { s with threads := update s.threads i p }

/-- `pop` with the mutex, from the test of its loop on. -/
def pop (s : Monitor Thread T w) (i : Thread) : Monitor Thread T w :=
  match s.queue with
  | [] => s.move i .wait
  | item :: rest =>
    { s with
      queue := rest
      count := s.count - 1
      popped := s.popped ++ [item]
      departed := s.departed ++ [(item,Fate.returned)]
      underflow := s.underflow || s.count = 0 }.move i (.taken item)

def push (s : Monitor Thread T w) (i : Thread) (item : T) : Monitor Thread T w :=
  { s with
    queue := s.queue ++ [item]
    count := s.count + 1
    pushed := s.pushed ++ [item] }.move i .pushed

def clear (s : Monitor Thread T w) (i : Thread) : Monitor Thread T w :=
  { s with
    queue := []
    count := 0
    departed := s.departed ++ s.queue.map fun item => (item,Fate.discarded) }.move i .cleared

/-- A call up to its unlock or wait. More items than `size_t` counts do not fit
    into memory. -/
def call (s : Monitor Thread T w) (i : Thread) : Call T → Option (Monitor Thread T w)
  | .pop => some (s.pop i)
  | .push item => if s.queue.length + 1 < 2 ^ w then some (s.push i item) else none
  | .clear => some (s.clear i)

end Monitor

variable [DecidableEq Thread] [Fintype Thread]

def step (s : Monitor Thread T w) : Action Thread T → Option (Monitor Thread T w)
  | .lock i call =>
    match s.mutex,s.threads i with
    | none,.outside => { s with mutex := some i }.call i call
    | _,_ => none
  | .wait i =>
    match s.threads i with
    | .wait => some ({ s with mutex := none }.move i .asleep)
    | _ => none
  | .wake i =>
    match s.threads i with
    | .asleep => some (s.move i .woken)
    | _ => none
  | .relock i =>
    match s.mutex,s.threads i with
    | none,.woken => some ({ s with mutex := some i }.pop i)
    | _,_ => none
  | .unlock i =>
    match s.threads i with
    | .taken _ => some ({ s with mutex := none }.move i .outside)
    | .pushed => some ({ s with mutex := none }.move i .notify)
    | .cleared => some ({ s with mutex := none }.move i .outside)
    | _ => none
  | .notify i woken =>
    match s.threads i,woken with
    | .notify,none => if number Position.isAsleep s.threads = 0 then some (s.move i .outside) else none
    | .notify,some j => if (s.threads j).isAsleep then some ((s.move i .outside).move j .woken) else none
    | _,_ => none

/-! ### What holds between the steps -/

/-- The items and their count. -/
structure Contents (s : Monitor Thread T w) : Prop where
  counted : s.count.toNat = s.queue.length
  accounted : s.pushed = s.departed.map Prod.fst ++ s.queue
  returned : s.popped = (s.departed.filter (·.2 = .returned)).map Prod.fst
  sound : s.underflow = false

/-- The mutex and the threads. Beside a sleeping thread every item has a thread
    that is about to notify for it or to lock for it. -/
structure Waiting (s : Monitor Thread T w) : Prop where
  guarded : Guarded Position.inside s.mutex s.threads
  empty : ∀ i, s.threads i = .wait → s.queue = []
  covered : number Position.isAsleep s.threads ≠ 0 →
    s.queue.length ≤ number Position.notifies s.threads + number Position.isWoken s.threads

variable {s t : Monitor Thread T w} {i : Thread}

omit [DecidableEq Thread] [Fintype Thread] in
theorem contents_start : Contents (start : Monitor Thread T w) := ⟨rfl,rfl,rfl,rfl⟩

omit [DecidableEq Thread] in
theorem waiting_start : Waiting (start : Monitor Thread T w) where
  guarded i := by simp [start,Position.inside]
  empty i at_wait := by cases at_wait
  covered asleep := absurd (number_eq_zero_iff.mpr fun _ => rfl) asleep

/-! ### The items -/

omit [Fintype Thread] in
theorem Contents.pop (contents : Contents s) : Contents (s.pop i) := by
  obtain ⟨counted,accounted,returned,sound⟩ := contents
  rw [Monitor.pop]
  split
  · exact ⟨counted,accounted,returned,sound⟩
  · next item rest front =>
    rw [front,List.length_cons] at counted
    have positive : s.count ≠ 0 := by
      intro zero
      simp [zero] at counted
    have one : (1 : BitVec w).toNat = 1 := Nat.mod_eq_of_lt (show 1 < 2 ^ w by have := s.count.isLt; omega)
    refine ⟨?_,?_,?_,?_⟩
    · show (s.count - 1).toNat = rest.length
      rw [BitVec.toNat_sub_of_le (by rw [BitVec.le_def]; omega),one,counted]
      rfl
    · simp [Monitor.move,accounted,front]
    · simp [Monitor.move,returned]
    · show (s.underflow || decide (s.count = 0)) = false
      rw [sound,decide_eq_false positive]
      rfl

omit [Fintype Thread] in
theorem Contents.push (contents : Contents s) {item : T} (room : s.queue.length + 1 < 2 ^ w) : Contents (s.push i item) := by
  obtain ⟨counted,accounted,returned,sound⟩ := contents
  refine ⟨?_,?_,returned,sound⟩
  · show (s.count + 1).toNat = (s.queue ++ [item]).length
    have one : (1 : BitVec w).toNat = 1 := Nat.mod_eq_of_lt (show 1 < 2 ^ w by omega)
    rw [BitVec.toNat_add,one,counted,Nat.mod_eq_of_lt room,List.length_append,List.length_singleton]
  · show s.pushed ++ [item] = s.departed.map Prod.fst ++ (s.queue ++ [item])
    rw [accounted,List.append_assoc]

omit [Fintype Thread] in
theorem Contents.clear (contents : Contents s) : Contents (s.clear i) := by
  obtain ⟨_,accounted,returned,sound⟩ := contents
  refine ⟨by simp [Monitor.clear,Monitor.move],?_,?_,sound⟩
  · simp [Monitor.clear,Monitor.move,accounted,Function.comp_def]
  · simp [Monitor.clear,Monitor.move,returned,List.filter_map,Function.comp_def]

/-! ### The threads -/

/-- A thread moves and leaves `later` items of `earlier` ones. -/
theorem covered_move {threads : Thread → Position T} {p : Position T} {earlier later : Nat}
    (covered : number Position.isAsleep threads ≠ 0 →
      earlier ≤ number Position.notifies threads + number Position.isWoken threads)
    (kept : later = 0 ∨ p.isAsleep = false ∧
      later + (threads i).notifies.toNat + (threads i).isWoken.toNat ≤ earlier + p.notifies.toNat + p.isWoken.toNat) :
    number Position.isAsleep (update threads i p) ≠ 0 →
      later ≤ number Position.notifies (update threads i p) + number Position.isWoken (update threads i p) := by
  intro asleep
  rcases kept with none | ⟨awake,kept⟩
  · omega
  · have asleeps := number_move Position.isAsleep threads i p
    have notifies := number_move Position.notifies threads i p
    have wokens := number_move Position.isWoken threads i p
    rw [awake,Bool.toNat_false] at asleeps
    have before := covered (by omega)
    omega

omit [Fintype Thread] in
/-- A thread moves, but not to a wait. -/
theorem empty_move {threads : Thread → Position T} {p : Position T} {queue : List T}
    (empty : ∀ j, threads j = .wait → queue = []) (goes : p ≠ .wait) :
    ∀ j, update threads i p j = .wait → queue = [] := by
  intro j at_wait
  by_cases is : j = i
  · rw [is,update_self] at at_wait
    exact absurd at_wait goes
  · rw [update_of_ne is] at at_wait
    exact empty j at_wait

/-- A thread moves that keeps the queue and the mutex, or the lack of it. -/
theorem Waiting.move (waiting : Waiting s) {p : Position T} (same : p.inside = (s.threads i).inside)
    (kept : p.isAsleep = false ∧
      (s.threads i).notifies.toNat + (s.threads i).isWoken.toNat ≤ p.notifies.toNat + p.isWoken.toNat)
    (goes : p ≠ .wait) : Waiting (s.move i p) where
  guarded := waiting.guarded.move same
  empty := empty_move waiting.empty goes
  covered := by
    obtain ⟨awake,kept⟩ := kept
    exact covered_move waiting.covered (.inr ⟨awake,show s.queue.length + _ + _ ≤ s.queue.length + _ + _ by omega⟩)

omit [DecidableEq Thread] in
/-- With the mutex free, nobody is about to wait. -/
theorem Waiting.nobody (waiting : Waiting s) (free : s.mutex = none) (j : Thread) : s.threads j ≠ .wait := by
  intro at_wait
  have has := (waiting.guarded j).mp (by rw [at_wait]; rfl)
  rw [free] at has
  cases has

/-- A thread locks the mutex and leaves a queue. -/
theorem Waiting.lock (waiting : Waiting s) (free : s.mutex = none) {p : Position T} (enters : p.inside = true)
    (same : t.threads = update s.threads i p) (locked : t.mutex = some i) (waits : p = .wait → t.queue = [])
    (kept : t.queue = [] ∨ t.queue.length + (s.threads i).isWoken.toNat ≤ s.queue.length + p.notifies.toNat)
    (was : (s.threads i).notifies = false) : Waiting t := by
  have guarded := waiting.guarded
  rw [free] at guarded
  refine ⟨?_,?_,?_⟩
  · rw [same,locked]
    exact guarded.lock enters
  · intro j at_wait
    rw [same] at at_wait
    by_cases is : j = i
    · rw [is,update_self] at at_wait
      exact waits at_wait
    · rw [update_of_ne is] at at_wait
      exact absurd at_wait (waiting.nobody free j)
  · rw [same]
    refine covered_move waiting.covered ?_
    rcases kept with none | less
    · exact .inl (by rw [none]; rfl)
    · refine .inr ⟨by cases p <;> simp_all [Position.inside,Position.isAsleep],?_⟩
      rw [was,Bool.toNat_false]
      omega

theorem Waiting.pop (waiting : Waiting s) (free : s.mutex = none) (was : s.threads i = .outside ∨ s.threads i = .woken) :
    Waiting ({ s with mutex := some i }.pop i) := by
  have unnotifying : (s.threads i).notifies = false := by rcases was with is | is <;> rw [is] <;> rfl
  have woken : (s.threads i).isWoken.toNat ≤ 1 := Bool.toNat_le _
  rw [Monitor.pop]
  split
  · next none => exact waiting.lock free (p := .wait) rfl rfl rfl (fun _ => none) (.inl none) unnotifying
  · next item rest front =>
    refine waiting.lock free (p := .taken item) rfl rfl rfl nofun (.inr ?_) unnotifying
    show rest.length + _ ≤ s.queue.length + 0
    rw [show s.queue = item :: rest from front,List.length_cons]
    omega

theorem Waiting.call (waiting : Waiting s) (free : s.mutex = none) (was : s.threads i = .outside) {call : Call T}
    (called : { s with mutex := some i }.call i call = some t) : Waiting t := by
  have unnotifying : (s.threads i).notifies = false := by rw [was]; rfl
  cases call with
  | pop =>
    cases called
    exact waiting.pop free (.inl was)
  | push item =>
    rw [Monitor.call] at called
    split_ifs at called
    cases called
    refine waiting.lock free (p := .pushed) rfl rfl rfl nofun (.inr ?_) unnotifying
    show (s.queue ++ [item]).length + _ ≤ s.queue.length + 1
    simp [was,Position.isWoken]
  | clear =>
    cases called
    exact waiting.lock free (p := .cleared) rfl rfl rfl nofun (.inl rfl) unnotifying

/-- A thread unlocks the mutex, in `wait` only where the queue is empty. -/
theorem Waiting.unlock (waiting : Waiting s) {p : Position T} (was : (s.threads i).inside = true) (out : p.inside = false)
    (kept : s.queue = [] ∨ p.isAsleep = false ∧ (s.threads i).notifies.toNat ≤ p.notifies.toNat) :
    Waiting ({ s with mutex := none }.move i p) where
  guarded := waiting.guarded.unlock was out
  empty := empty_move waiting.empty (by rintro rfl; cases out)
  covered := by
    refine covered_move waiting.covered ?_
    rcases kept with none | ⟨awake,kept⟩
    · exact .inl (congrArg List.length none)
    · have sleeps : (s.threads i).isWoken = false := by
        cases at_i : s.threads i <;> rw [at_i] at was <;> first | rfl | cases was
      refine .inr ⟨awake,?_⟩
      show s.queue.length + (s.threads i).notifies.toNat + (s.threads i).isWoken.toNat ≤
        s.queue.length + p.notifies.toNat + p.isWoken.toNat
      rw [sleeps,Bool.toNat_false]
      omega

/-- The sleeping thread takes the place of the one that notifies. -/
theorem Waiting.notify (waiting : Waiting s) {j : Thread} (notifying : s.threads i = .notify) (sleeping : s.threads j = .asleep) :
    Waiting ((s.move i .outside).move j .woken) := by
  have apart : j ≠ i := by
    rintro rfl
    rw [notifying] at sleeping
    cases sleeping
  have moved : ((s.move i .outside).move j .woken).threads = update (update s.threads j .woken) i .outside :=
    (update_comm apart ..).symm
  have guarded := waiting.guarded.move (i := j) (p := .woken) (by rw [sleeping]; rfl)
  have at_i : update s.threads j .woken i = .notify := (update_of_ne apart.symm ..).trans notifying
  refine ⟨?_,?_,?_⟩
  · rw [moved]
    exact guarded.move (by rw [at_i]; rfl)
  · rw [moved]
    exact empty_move (empty_move waiting.empty nofun) nofun
  · -- One more item is covered by the thread that wakes up, one less by the one that notified.
    rw [moved]
    have woken := covered_move (i := j) (p := .woken) waiting.covered (.inr ⟨rfl,(show s.queue.length + 1 + _ + _ ≤ _ by
      rw [sleeping]
      rfl)⟩)
    exact covered_move woken (.inr ⟨rfl,by rw [at_i]; exact Nat.le_refl _⟩)

theorem Waiting.step (waiting : Waiting s) {action : Action Thread T} (taken : step s action = some t) : Waiting t := by
  cases action with
  | lock i call =>
    simp only [SyncQueue.step] at taken
    split at taken
    · next free was => exact waiting.call free was taken
    · cases taken
  | wait i =>
    simp only [SyncQueue.step] at taken
    split at taken
    · next was =>
      cases taken
      exact waiting.unlock (by rw [was]; rfl) rfl (.inl (waiting.empty i was))
    · cases taken
  | wake i =>
    simp only [SyncQueue.step] at taken
    split at taken
    · next was =>
      cases taken
      exact waiting.move (by rw [was]; rfl) ⟨rfl,by rw [was]; exact Nat.zero_le _⟩ nofun
    · cases taken
  | relock i =>
    simp only [SyncQueue.step] at taken
    split at taken
    · next free was =>
      cases taken
      exact waiting.pop free (.inr was)
    · cases taken
  | unlock i =>
    simp only [SyncQueue.step] at taken
    split at taken
    · next item was =>
      cases taken
      exact waiting.unlock (by rw [was]; rfl) rfl (.inr ⟨rfl,by rw [was]; exact Nat.le_refl _⟩)
    · next was =>
      cases taken
      exact waiting.unlock (by rw [was]; rfl) rfl (.inr ⟨rfl,by rw [was]; exact Nat.le_refl _⟩)
    · next was =>
      cases taken
      exact waiting.unlock (by rw [was]; rfl) rfl (.inr ⟨rfl,by rw [was]; exact Nat.le_refl _⟩)
    · cases taken
  | notify i woken =>
    simp only [SyncQueue.step] at taken
    split at taken
    · next was =>
      split_ifs at taken with none_asleep
      cases taken
      refine ⟨waiting.guarded.move (by rw [was]; rfl),empty_move waiting.empty nofun,fun asleep => ?_⟩
      have still := number_move Position.isAsleep s.threads i .outside
      rw [none_asleep,was] at still
      exact absurd (Nat.add_right_cancel still) asleep
    · next j was =>
      split_ifs at taken with sleeps
      cases taken
      refine waiting.notify was ?_
      cases at_j : s.threads j <;> rw [at_j] at sleeps <;> first | rfl | cases sleeps
    · cases taken

theorem Contents.step (contents : Contents s) {action : Action Thread T} (taken : step s action = some t) : Contents t := by
  -- The contents do not depend on the mutex and the threads.
  have moves : ∀ (mutex : Option Thread) (threads : Thread → Position T),
      Contents { s with mutex := mutex, threads := threads } :=
    fun _ _ => ⟨contents.counted,contents.accounted,contents.returned,contents.sound⟩
  cases action with
  | lock i call =>
    simp only [SyncQueue.step] at taken
    split at taken
    · cases call with
      | pop =>
        cases taken
        exact (moves (some i) s.threads).pop
      | push item =>
        rw [Monitor.call] at taken
        split_ifs at taken with room
        cases taken
        exact (moves (some i) s.threads).push room
      | clear =>
        cases taken
        exact (moves (some i) s.threads).clear
    · cases taken
  | relock i =>
    simp only [SyncQueue.step] at taken
    split at taken
    · cases taken
      exact (moves (some i) s.threads).pop
    · cases taken
  | wait i =>
    simp only [SyncQueue.step] at taken
    split at taken <;> cases taken
    exact moves ..
  | wake i =>
    simp only [SyncQueue.step] at taken
    split at taken <;> cases taken
    exact moves ..
  | unlock i =>
    simp only [SyncQueue.step] at taken
    split at taken <;> cases taken <;> exact moves ..
  | notify i woken =>
    simp only [SyncQueue.step] at taken
    split at taken
    · split_ifs at taken
      cases taken
      exact moves ..
    · split_ifs at taken
      cases taken
      exact moves ..
    · cases taken

/-- What leaves the queue in a step: nothing, its front with the `pop` that goes on
    with it, or all of it in a `clear`. -/
inductive Departs (s t : Monitor Thread T w) (action : Action Thread T) : Prop where
  | none (departed : t.departed = s.departed) (popped : t.popped = s.popped)
      (taken : ∀ i item, t.threads i = .taken item → s.threads i = .taken item)
  | front {i : Thread} {item : T} (calls : action = .lock i .pop ∨ action = .relock i)
      (queue : s.queue = item :: t.queue) (taken : t.threads = update s.threads i (.taken item))
      (popped : t.popped = s.popped ++ [item]) (departed : t.departed = s.departed ++ [(item,.returned)])
  | all {i : Thread} (calls : action = .lock i .clear) (queue : t.queue = [])
      (cleared : t.threads = update s.threads i .cleared) (popped : t.popped = s.popped)
      (departed : t.departed = s.departed ++ s.queue.map fun item => (item,.discarded))

omit [Fintype Thread] in
/-- A thread that goes elsewhere takes nothing. -/
theorem taken_move {threads : Thread → Position T} {p : Position T} (goes : ∀ item, p ≠ .taken item) (j : Thread) (item : T)
    (taken : update threads i p j = .taken item) : threads j = .taken item := by
  by_cases same : j = i
  · rw [same,update_self] at taken
    exact absurd taken (goes item)
  · rwa [update_of_ne same] at taken

omit [Fintype Thread] in
theorem pop_departs {action : Action Thread T} (calls : action = .lock i .pop ∨ action = .relock i) :
    Departs s ({ s with mutex := some i }.pop i) action := by
  rw [Monitor.pop]
  split
  · exact .none rfl rfl (taken_move (by simp))
  · next item rest front => exact .front calls front rfl rfl rfl

/-- `pop` and `clear` alone take items from the queue, and only `pop` returns them. -/
theorem step_departs {action : Action Thread T} (taken : step s action = some t) : Departs s t action := by
  cases action with
  | lock i call =>
    simp only [SyncQueue.step] at taken
    split at taken
    · cases call with
      | pop =>
        cases taken
        exact pop_departs (.inl rfl)
      | push item =>
        rw [Monitor.call] at taken
        split_ifs at taken
        cases taken
        exact .none rfl rfl (taken_move (by simp))
      | clear =>
        cases taken
        exact .all rfl rfl rfl rfl rfl
    · cases taken
  | relock i =>
    simp only [SyncQueue.step] at taken
    split at taken
    · cases taken
      exact pop_departs (.inr rfl)
    · cases taken
  | wait i | wake i =>
    simp only [SyncQueue.step] at taken
    split at taken <;> cases taken
    exact .none rfl rfl (taken_move (by simp))
  | unlock i =>
    simp only [SyncQueue.step] at taken
    split at taken <;> cases taken <;> exact .none rfl rfl (taken_move (by simp))
  | notify i woken =>
    simp only [SyncQueue.step] at taken
    split at taken
    · split_ifs at taken
      cases taken
      exact .none rfl rfl (taken_move (by simp))
    · split_ifs at taken
      cases taken
      exact .none rfl rfl fun j item at_j => taken_move (by simp) j item (taken_move (by simp) j item at_j)
    · cases taken

/-- In every run: the pushed items are those that left the queue and then those in
    it, and `pop` returned the former except what `clear` discarded; the count is
    that of the items, and was never decremented at 0; and where a thread sleeps in
    `pop`, each item has a thread that is still to notify for it or to take the
    mutex after it was woken. -/
theorem monitor_correct (reach : Reachable step (start : Monitor Thread T w) s) :
    (s.pushed = s.departed.map Prod.fst ++ s.queue ∧
      s.popped = (s.departed.filter (·.2 = .returned)).map Prod.fst) ∧
    ((s.mutex = none → s.count.toNat = s.queue.length) ∧ s.underflow = false) ∧
    ((∃ i, s.threads i = .asleep) →
      s.queue.length ≤ number Position.notifies s.threads + number Position.isWoken s.threads) := by
  have contents : Contents s := reach.invariant (fun _ _ _ contents taken => contents.step taken) contents_start
  have waiting : Waiting s := reach.invariant (fun _ _ _ waiting taken => waiting.step taken) waiting_start
  refine ⟨⟨contents.accounted,contents.returned⟩,⟨fun _ => contents.counted,contents.sound⟩,?_⟩
  rintro ⟨i,sleeps⟩
  refine waiting.covered fun none => ?_
  have awake := number_eq_zero_iff.mp none i
  rw [sleeps] at awake
  cases awake

/-- Two threads sleep in `pop`. One of them is notified of the item 7 and takes it;
    the item 8 is cleared, and the item 9 pushed. -/
def twoSleepers : List (Action (Fin 3) Nat) :=
  [.lock 0 .pop,.wait 0,.lock 1 .pop,.wait 1,.lock 2 (.push 7),.unlock 2,.notify 2 (some 0),.relock 0,.unlock 0,
    .lock 2 (.push 8),.unlock 2,.lock 0 .clear,.unlock 0,.lock 0 (.push 9)]

theorem twoSleepers_run : ((run step (start : Monitor (Fin 3) Nat 32) twoSleepers).map fun s =>
    ((s.threads 1).isAsleep,s.queue,s.popped,s.departed)) =
      some (true,[9],[7],[(7,.returned),(8,.discarded)]) := by decide +kernel

theorem monitor_correct_two : ∃ s : Monitor (Fin 3) Nat 32, run step start twoSleepers = some s ∧
    s.threads 1 = .asleep ∧ s.queue = [9] ∧ s.popped = [7] ∧ s.departed = [(7,.returned),(8,.discarded)] ∧
    (s.pushed = s.departed.map Prod.fst ++ s.queue ∧
      s.popped = (s.departed.filter (·.2 = .returned)).map Prod.fst) ∧
    s.queue.length ≤ number Position.notifies s.threads + number Position.isWoken s.threads := by
  obtain ⟨s,ran,is⟩ := Option.map_eq_some_iff.mp twoSleepers_run
  simp only [Prod.mk.injEq] at is
  obtain ⟨sleeps,queue,popped,departed⟩ := is
  have asleep : s.threads 1 = .asleep := by
    cases at_1 : s.threads 1 <;> rw [at_1] at sleeps <;> first | rfl | cases sleeps
  obtain ⟨items,_,covered⟩ := monitor_correct ⟨twoSleepers,ran⟩
  exact ⟨s,ran,asleep,queue,popped,departed,items,covered ⟨1,asleep⟩⟩

end Opqbox.SyncQueue
