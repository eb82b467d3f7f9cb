import Opqbox.Shutdown
import Opqbox.SyncQueue

/-!
The triggering daemon with its queues as they are: each a `SyncQueue` with its mutex
and its condition, whose calls are made in several steps. The threads are those of
`Opqbox.Pipeline`, outside their calls. Every run is one where a push and a pop are
one step each, and no thread sleeps through what it waits for (`queues_refine`).
-/
namespace Opqbox.QueuedDaemon
open Opqbox.Analysis
open Opqbox.OpqData Opqbox.Pipeline Opqbox.RedisWriter Opqbox.Runs Opqbox.Shutdown
open Opqbox.SyncQueue (Call Contents Monitor Position Waiting)
open Opqbox.Threads Function

/-! ### The roles of the threads at a queue -/

section
variable {Thread T : Type} {w : Nat}

/-- In a call of `pop`. -/
def pops : Position T → Bool
  | .wait | .asleep | .woken | .taken _ => true
  | _ => false

/-- In a call of `pop`, without an item. -/
def waits : Position T → Bool
  | .wait | .asleep | .woken => true
  | _ => false

/-- In a call of `push`. -/
def pushes : Position T → Bool
  | .pushed | .notify => true
  | _ => false

/-- One thread pushes, one pops, and none clears the queue. -/
structure Roles (pusher popper : Thread) (threads : Thread → Position T) : Prop where
  pops : ∀ i, pops (threads i) = true → i = popper
  pushes : ∀ i, pushes (threads i) = true → i = pusher
  clears : ∀ i, threads i ≠ .cleared

variable [DecidableEq Thread] {pusher popper i : Thread} {threads : Thread → Position T} {p : Position T}

theorem Roles.move (roles : Roles pusher popper threads) (pop : QueuedDaemon.pops p = true → i = popper)
    (push : QueuedDaemon.pushes p = true → i = pusher) (clear : p ≠ .cleared) : Roles pusher popper (update threads i p) := by
  refine ⟨?_,?_,?_⟩ <;> intro j <;> by_cases is : j = i
  · subst is
    simpa using pop
  · simpa [is] using roles.pops j
  · subst is
    simpa using push
  · simpa [is] using roles.pushes j
  · subst is
    simpa using clear
  · simpa [is] using roles.clears j

theorem Roles.leave (roles : Roles pusher popper threads) (i : Thread) : Roles pusher popper (update threads i .outside) :=
  roles.move (fun is => by cases is) (fun is => by cases is) (fun is => by cases is)

/-- A thread that sleeps beside a filled queue is about to be notified. -/
def NoneMissed (pusher popper : Thread) (q : Monitor Thread T w) : Prop :=
  q.threads popper = .asleep → q.queue ≠ [] → (q.threads pusher).notifies = true

variable [Fintype Thread] {q r : Monitor Thread T w}

omit [DecidableEq Thread] in
/-- The one that pops is the one that sleeps, so that the one that pushes notifies. -/
theorem none_missed (roles : Roles pusher popper q.threads) (waiting : Waiting q) : NoneMissed pusher popper q := by
  intro sleeps filled
  have asleep : number Position.isAsleep q.threads ≠ 0 := fun none => by
    have awake := number_eq_zero_iff.mp none popper
    rw [sleeps] at awake
    cases awake
  have covered := waiting.covered asleep
  have nobody_woken : number Position.isWoken q.threads = 0 := number_eq_zero_iff.mpr fun i => by
    cases woken : (q.threads i).isWoken with
    | false => rfl
    | true =>
      have is := roles.pops i (by cases at_i : q.threads i <;> simp_all [Position.isWoken,QueuedDaemon.pops])
      rw [is,sleeps] at woken
      cases woken
  have some_notifies : number Position.notifies q.threads ≠ 0 := by
    have some := List.length_pos_of_ne_nil filled
    omega
  by_contra quiet
  refine some_notifies (number_eq_zero_iff.mpr fun i => ?_)
  cases notifies : (q.threads i).notifies with
  | false => rfl
  | true =>
    have is := roles.pushes i (by cases at_i : q.threads i <;> simp_all [Position.notifies,QueuedDaemon.pushes])
    rw [is] at notifies
    exact absurd notifies quiet

/-! ### What a step at a queue does -/

/-- The items are the same. -/
structure Keeps (q r : Monitor Thread T w) : Prop where
  queue : r.queue = q.queue
  pushed : r.pushed = q.pushed
  popped : r.popped = q.popped

/-- `pop` from the lock on: the queue is empty and the thread is about to wait, or it
    has taken the first item. -/
def Pops (i : Thread) (q r : Monitor Thread T w) : Prop :=
  (q.queue = [] ∧ Keeps q r ∧ r.threads = update q.threads i .wait) ∨
    ∃ item, q.queue = item :: r.queue ∧ r.pushed = q.pushed ∧ r.popped = q.popped ++ [item] ∧
      r.threads = update q.threads i (.taken item)

omit [Fintype Thread] in
theorem pop_pops (q : Monitor Thread T w) (i : Thread) : Pops i q ({ q with mutex := some i }.pop i) := by
  unfold Monitor.pop
  split
  · next none => exact .inl ⟨none,⟨rfl,rfl,rfl⟩,rfl⟩
  · next item rest front => exact .inr ⟨item,front,rfl,rfl,rfl⟩

omit [Fintype Thread] in
theorem Pops.roles (pops : Pops popper q r) (roles : Roles pusher popper q.threads) : Roles pusher popper r.threads := by
  rcases pops with ⟨_,_,threads⟩ | ⟨item,_,_,_,threads⟩
  · rw [threads]
    exact roles.move (fun _ => rfl) (fun is => by cases is) (fun is => by cases is)
  · rw [threads]
    exact roles.move (fun _ => rfl) (fun is => by cases is) (fun is => by cases is)

theorem lock_pop (taken : SyncQueue.step q (.lock i .pop) = some r) : q.threads i = .outside ∧ Pops i q r := by
  simp only [SyncQueue.step] at taken
  split at taken
  · next _ was =>
    cases taken
    exact ⟨was,pop_pops q i⟩
  · cases taken

theorem relock (taken : SyncQueue.step q (.relock i) = some r) : q.threads i = .woken ∧ Pops i q r := by
  simp only [SyncQueue.step] at taken
  split at taken
  · next _ was =>
    cases taken
    exact ⟨was,pop_pops q i⟩
  · cases taken

theorem lock_push {item : T} (taken : SyncQueue.step q (.lock i (.push item)) = some r) :
    q.threads i = .outside ∧ r.queue = q.queue ++ [item] ∧ r.pushed = q.pushed ++ [item] ∧ r.popped = q.popped ∧
      r.threads = update q.threads i .pushed := by
  simp only [SyncQueue.step] at taken
  split at taken
  · next _ was =>
    rw [Monitor.call] at taken
    split_ifs at taken
    cases taken
    exact ⟨was,rfl,rfl,rfl,rfl⟩
  · cases taken

theorem push_roles {item : T} (taken : SyncQueue.step q (.lock pusher (.push item)) = some r)
    (roles : Roles pusher popper q.threads) : Roles pusher popper r.threads := by
  obtain ⟨_,_,_,_,threads⟩ := lock_push taken
  rw [threads]
  exact roles.move (fun is => by cases is) (fun _ => rfl) (fun is => by cases is)

/-- A step within a call that takes no mutex. -/
def inner : SyncQueue.Action Thread T → Bool
  | .lock _ _ | .relock _ => false
  | _ => true

theorem inner_keeps {a : SyncQueue.Action Thread T} (within : inner a = true) (taken : SyncQueue.step q a = some r) :
    Keeps q r := by
  cases a with
  | lock | relock => cases within
  | wait | wake =>
    simp only [SyncQueue.step] at taken
    split at taken <;> cases taken
    exact ⟨rfl,rfl,rfl⟩
  | unlock =>
    simp only [SyncQueue.step] at taken
    split at taken <;> cases taken <;> exact ⟨rfl,rfl,rfl⟩
  | notify =>
    simp only [SyncQueue.step] at taken
    split at taken
    · split_ifs at taken
      cases taken
      exact ⟨rfl,rfl,rfl⟩
    · split_ifs at taken
      cases taken
      exact ⟨rfl,rfl,rfl⟩
    · cases taken

/-- Within a call nobody changes the role, and nobody gets an item. -/
theorem inner_roles {a : SyncQueue.Action Thread T} (within : inner a = true) (taken : SyncQueue.step q a = some r)
    (roles : Roles pusher popper q.threads) : Roles pusher popper r.threads := by
  cases a with
  | lock | relock => cases within
  | wait i | wake i =>
    simp only [SyncQueue.step] at taken
    split at taken
    · next was =>
      cases taken
      exact roles.move (fun _ => roles.pops i (by rw [was]; rfl)) (fun is => by cases is) (fun is => by cases is)
    · cases taken
  | unlock i =>
    simp only [SyncQueue.step] at taken
    split at taken
    · cases taken
      exact roles.leave i
    · next was =>
      cases taken
      exact roles.move (fun is => by cases is) (fun _ => roles.pushes i (by rw [was]; rfl)) (fun is => by cases is)
    · cases taken
      exact roles.leave i
    · cases taken
  | notify i woken =>
    simp only [SyncQueue.step] at taken
    split at taken
    · split_ifs at taken
      cases taken
      exact roles.leave i
    · next j _ =>
      split_ifs at taken with sleeps
      cases taken
      refine (roles.leave i).move (fun _ => roles.pops j ?_) (fun is => by cases is) (fun is => by cases is)
      cases at_j : q.threads j <;> simp_all [Position.isAsleep,QueuedDaemon.pops]
    · cases taken

theorem inner_waits {a : SyncQueue.Action Thread T} (within : inner a = true) (taken : SyncQueue.step q a = some r) {j : Thread}
    (after : waits (r.threads j) = true) : waits (q.threads j) = true := by
  have moved {threads : Thread → Position T} {i : Thread} {p : Position T} (same : waits p = true → waits (threads i) = true)
      (after : waits (update threads i p j) = true) : waits (threads j) = true := by
    by_cases is : j = i
    · subst is
      exact same (by simpa using after)
    · simpa [is] using after
  cases a with
  | lock | relock => cases within
  | wait i | wake i =>
    simp only [SyncQueue.step] at taken
    split at taken
    · next was =>
      cases taken
      exact moved (fun _ => by rw [was]; rfl) after
    · cases taken
  | unlock i =>
    simp only [SyncQueue.step] at taken
    split at taken <;> cases taken <;> exact moved (fun is => by cases is) after
  | notify i woken =>
    simp only [SyncQueue.step] at taken
    split at taken
    · split_ifs at taken
      cases taken
      exact moved (fun is => by cases is) after
    · next k was =>
      split_ifs at taken with sleeps
      cases taken
      have before := @moved (update q.threads i .outside) k .woken (fun _ => ?_) after
      · exact moved (fun is => by cases is) before
      · by_cases is : k = i
        · rw [is,was] at sleeps
          cases sleeps
        · rw [update_of_ne is]
          cases at_k : q.threads k <;> simp_all [Position.isAsleep,waits]
    · cases taken

end

/-! ### The daemon -/

/-- The threads that call the queues. -/
inductive Worker where
  | reader | analysis | trigger
  deriving DecidableEq

instance : Fintype Worker := ⟨{.reader,.analysis,.trigger},fun i => by cases i <;> decide⟩

/-- The threads outside their calls, and the queues. The queues in `threads` are not
    used. -/
structure Daemon (F Buffer : Type) (w : Nat) where
  threads : System F Buffer
  readerQueue : Monitor Worker OPQMeasurement w
  /-- The measurement that the reader is about to push. -/
  pushing : Option OPQMeasurement
  analysisQueue : Monitor Worker (OPQAnalysis F) w

/-- A step within a call that takes no mutex. -/
inductive Within where
  | wait (i : Worker) | wake (i : Worker) | unlock (i : Worker) | notify (i : Worker) (woken : Option Worker)

def Within.action {T : Type} : Within → SyncQueue.Action Worker T
  | wait i => .wait i
  | wake i => .wake i
  | unlock i => .unlock i
  | notify i woken => .notify i woken

inductive Action where
  /-- A step of a thread outside its calls, or one from outside. -/
  | own (action : Pipeline.Action)
  /-- The reader has read the frames of a measurement, and calls `push`. -/
  | full
  /-- The first lock of a call. -/
  | pushMeasurement | popMeasurement | pushAnalysis | popAnalysis
  /-- `wait` locks the mutex again, and the loop of `pop` goes on. -/
  | relockMeasurements | relockAnalyses
  | inReaderQueue (step : Within)
  | inAnalysisQueue (step : Within)

def isOutside {T : Type} : Position T → Bool
  | .outside => true
  | _ => false

/-- A thread is to call a queue. -/
def calls {F Buffer : Type} (s : System F Buffer) : Worker → Bool
  | .reader =>
    match s.readerSlab.t with
    | some (.fill m) => s.frames_per_measurement ≤ m.cycles.length
    | _ => false
  | .analysis =>
    match s.analysisSlab.t with
    | some .pop | some (.push _ _) => true
    | _ => false
  | .trigger =>
    match s.triggerSlab.t with
    | some .pop => true
    | _ => false

def worker : Pipeline.Action → Option Worker
  | .reader _ _ => some .reader
  | .analysis => some .analysis
  | .trigger => some .trigger
  | _ => none

variable {F Buffer : Type} {w : Nat}

namespace Daemon

def init (analysis : LocalAnalysis) (redis : RedisSerializer Buffer) (frames_per_measurement : Int) : Daemon F Buffer w :=
  ⟨.init analysis redis frames_per_measurement,SyncQueue.start,none,SyncQueue.start⟩

/-- The thread is in no call. -/
def outside (s : Daemon F Buffer w) (i : Worker) : Bool :=
  isOutside (s.readerQueue.threads i) && isOutside (s.analysisQueue.threads i) && (i != .reader || s.pushing.isNone)

/-- The analysis goes on with a measurement once it has taken one. -/
def took (s : Daemon F Buffer w) : Daemon F Buffer w :=
  match s.readerQueue.threads .analysis with
  | .taken m => { s with threads := { s.threads with analysisSlab := s.threads.analysisSlab.at (.popped m) } }
  | _ => s

/-- The trigger goes on with a message once it has taken one. -/
def tookMessage (s : Daemon F Buffer w) : Daemon F Buffer w :=
  match s.analysisQueue.threads .trigger with
  | .taken message => { s with threads := { s.threads with triggerSlab := s.threads.triggerSlab.at (.send message) } }
  | _ => s

end Daemon

/-- A thread goes on outside its calls only after it has left them. -/
def step (env : Env F Buffer) (s : Daemon F Buffer w) : Action → Option (Daemon F Buffer w)
  | .own action =>
    if (worker action).all fun i => s.outside i && !calls s.threads i then
      (Pipeline.step env s.threads action).map fun threads => { s with threads := threads }
    else none
  | .full =>
    match s.threads.readerSlab.t with
    | some (.fill measurement) =>
      if s.outside .reader && calls s.threads .reader then
        some { s with
          threads := { s.threads with readerSlab := s.threads.readerSlab.at .test }
          pushing := some measurement }
      else none
    | _ => none
  | .pushMeasurement =>
    match s.pushing with
    | some measurement =>
      (SyncQueue.step s.readerQueue (.lock .reader (.push measurement))).map fun queue =>
        { s with readerQueue := queue, pushing := none }
    | none => none
  | .popMeasurement =>
    match s.threads.analysisSlab.t with
    | some .pop =>
      if s.outside .analysis then
        (SyncQueue.step s.readerQueue (.lock .analysis .pop)).map fun queue => { s with readerQueue := queue }.took
      else none
    | _ => none
  | .relockMeasurements =>
    (SyncQueue.step s.readerQueue (.relock .analysis)).map fun queue => { s with readerQueue := queue }.took
  | .pushAnalysis =>
    match s.threads.analysisSlab.t with
    | some (.push measurement analysis) =>
      if s.outside .analysis then
        (SyncQueue.step s.analysisQueue (.lock .analysis (.push analysis))).map fun queue => { s with
          threads := { s.threads with analysisSlab := s.threads.analysisSlab.at (.store measurement) }
          analysisQueue := queue }
      else none
    | _ => none
  | .popAnalysis =>
    match s.threads.triggerSlab.t with
    | some .pop =>
      if s.outside .trigger then
        (SyncQueue.step s.analysisQueue (.lock .trigger .pop)).map fun queue => { s with analysisQueue := queue }.tookMessage
      else none
    | _ => none
  | .relockAnalyses =>
    (SyncQueue.step s.analysisQueue (.relock .trigger)).map fun queue => { s with analysisQueue := queue }.tookMessage
  | .inReaderQueue step =>
    (SyncQueue.step s.readerQueue step.action).map fun queue => { s with readerQueue := queue }
  | .inAnalysisQueue step =>
    (SyncQueue.step s.analysisQueue step.action).map fun queue => { s with analysisQueue := queue }

/-! ### The daemon with queues of one step a call -/

def withQueues (s : System F Buffer) (readerQueue pushed : List OPQMeasurement) (analysisQueue : List (OPQAnalysis F))
    (popped : List (LocalAnalysis × OPQMeasurement)) : System F Buffer :=
  { s with readerQueue := readerQueue, pushed := pushed, analysisQueue := analysisQueue, popped := popped }

/-- A measurement is in the queue from when the reader calls `push`. -/
def Daemon.seen (s : Daemon F Buffer w) (popped : List (LocalAnalysis × OPQMeasurement)) : System F Buffer :=
  withQueues s.threads (s.readerQueue.queue ++ s.pushing.toList) (s.readerQueue.pushed ++ s.pushing.toList)
    s.analysisQueue.queue popped

variable {env : Env F Buffer}

/-- Outside the calls the queues play no part. -/
theorem step_withQueues {s t : System F Buffer} {a : Pipeline.Action} (apart : (worker a).all (fun i => !calls s i) = true)
    (taken : Pipeline.step env s a = some t) (readerQueue pushed : List OPQMeasurement)
    (analysisQueue : List (OPQAnalysis F)) (popped : List (LocalAnalysis × OPQMeasurement)) :
    Pipeline.step env (withQueues s readerQueue pushed analysisQueue popped) a =
      some (withQueues t readerQueue pushed analysisQueue popped) := by
  cases a with
  | main =>
    by_cases asleep : s.main = .sleep
    · simp only [Pipeline.step,stepMain,asleep,Option.some.injEq] at taken
      simp only [Pipeline.step,stepMain,withQueues,asleep,← taken]
      split_ifs <;> simp [asleep]
    · cases stepMain_cases taken with
      | sleep position | wake position => exact absurd position asleep
      | joinTrigger position ended | joinAnalysis position ended | joinReader position ended =>
        simp [Pipeline.step,stepMain,withQueues,position,ended]
      | _ position => simp [Pipeline.step,stepMain,withQueues,position]
  | signal =>
    obtain ⟨handles,rfl⟩ := signal_cases taken
    exact if_pos handles
  | reader cycle now =>
    cases stepReader_cases taken with
    | test position =>
      simp only [Pipeline.step,stepReader,withQueues,position]
      rfl
    | fill position more => simp [Pipeline.step,stepReader,withQueues,position,more]
    | push position full => simp [worker,calls,position,not_lt.mp full] at apart
  | analysis =>
    cases stepAnalysis_cases taken with
    | connect position => simp only [Pipeline.step,stepAnalysis,withQueues,position]
    | test position =>
      simp only [Pipeline.step,stepAnalysis,withQueues,position]
      rfl
    | pop position | push position => simp [worker,calls,position] at apart
    | prime position state => simp [Pipeline.step,stepAnalysis,withQueues,position,state]
    | analyse position state made => simp [Pipeline.step,stepAnalysis,withQueues,position,state,made]
    | store position sent => simp [Pipeline.step,stepAnalysis,withQueues,position,sent]
  | trigger =>
    cases stepTrigger_cases taken with
    | connect position | send position => simp only [Pipeline.step,stepTrigger,withQueues,position]
    | test position =>
      simp only [Pipeline.step,stepTrigger,withQueues,position]
      rfl
    | pop position => simp [worker,calls,position] at apart
  | onFramesPerMeasurementChange frames =>
    cases taken
    rfl

variable {s t : Daemon F Buffer w}

/-! ### The calls -/

theorem pushMeasurement_cases (taken : step env s .pushMeasurement = some t) : ∃ m queue, s.pushing = some m ∧
    SyncQueue.step s.readerQueue (.lock .reader (.push m)) = some queue ∧
    t = { s with readerQueue := queue, pushing := none } := by
  simp only [step] at taken
  split at taken
  · next m pushing =>
    obtain ⟨queue,stepped,rfl⟩ := Option.map_eq_some_iff.mp taken
    exact ⟨m,queue,pushing,stepped,rfl⟩
  · cases taken

theorem popMeasurement_cases (taken : step env s .popMeasurement = some t) : ∃ queue,
    s.threads.analysisSlab.t = some .pop ∧ SyncQueue.step s.readerQueue (.lock .analysis .pop) = some queue ∧
    t = { s with readerQueue := queue }.took := by
  simp only [step] at taken
  split at taken
  · next position =>
    split_ifs at taken
    obtain ⟨queue,stepped,rfl⟩ := Option.map_eq_some_iff.mp taken
    exact ⟨queue,position,stepped,rfl⟩
  · cases taken

theorem pushAnalysis_cases (taken : step env s .pushAnalysis = some t) : ∃ m analysis queue,
    s.threads.analysisSlab.t = some (.push m analysis) ∧ s.outside .analysis = true ∧
    SyncQueue.step s.analysisQueue (.lock .analysis (.push analysis)) = some queue ∧
    t = { s with
      threads := { s.threads with analysisSlab := s.threads.analysisSlab.at (.store m) }
      analysisQueue := queue } := by
  simp only [step] at taken
  split at taken
  · next m analysis position =>
    split_ifs at taken with outside
    obtain ⟨queue,stepped,rfl⟩ := Option.map_eq_some_iff.mp taken
    exact ⟨m,analysis,queue,position,outside,stepped,rfl⟩
  · cases taken

theorem popAnalysis_cases (taken : step env s .popAnalysis = some t) : ∃ queue,
    s.threads.triggerSlab.t = some .pop ∧ SyncQueue.step s.analysisQueue (.lock .trigger .pop) = some queue ∧
    t = { s with analysisQueue := queue }.tookMessage := by
  simp only [step] at taken
  split at taken
  · next position =>
    split_ifs at taken
    obtain ⟨queue,stepped,rfl⟩ := Option.map_eq_some_iff.mp taken
    exact ⟨queue,position,stepped,rfl⟩
  · cases taken

/-! ### What is seen of a step -/

/-- A step is one of the daemon with queues of one step a call, or nothing is seen of it. -/
def Simulates (env : Env F Buffer) (s t : Daemon F Buffer w) : Prop :=
  ∀ popped, popped.map Prod.snd = s.readerQueue.popped → ∃ popped', popped'.map Prod.snd = t.readerQueue.popped ∧
    (t.seen popped' = s.seen popped ∨ ∃ a, Pipeline.step env (s.seen popped) a = some (t.seen popped'))

theorem simulates_of_seen (items : t.readerQueue.popped = s.readerQueue.popped)
    (same : ∀ popped, t.seen popped = s.seen popped) : Simulates env s t := fun popped before => ⟨popped,before.trans items.symm,.inl (same popped)⟩

theorem own_simulates {a : Pipeline.Action} (taken : step env s (.own a) = some t) : Simulates env s t := by
  intro popped before
  simp only [step] at taken
  split_ifs at taken with apart
  obtain ⟨threads,stepped,rfl⟩ := Option.map_eq_some_iff.mp taken
  refine ⟨popped,before,.inr ⟨a,step_withQueues ?_ stepped ..⟩⟩
  cases is : worker a with
  | none => rfl
  | some i =>
    rw [is] at apart
    exact (Bool.and_eq_true_iff.mp apart).2

/-- The call of `push` is where the measurement comes into the queue. -/
theorem full_simulates (taken : step env s .full = some t) : Simulates env s t := by
  intro popped before
  simp only [step] at taken
  split at taken
  · next m position =>
    split_ifs at taken with both
    cases taken
    obtain ⟨outside,full⟩ := Bool.and_eq_true_iff.mp both
    have nothing : s.pushing = none := by simpa using (Bool.and_eq_true_iff.mp outside).2
    have enough : ¬ (m.cycles.length : Int) < s.threads.frames_per_measurement := by simpa [calls,position] using full
    refine ⟨popped,before,.inr ⟨.reader ⟨.replicate _ 0,0,0,0⟩ 0,?_⟩⟩
    simp [Pipeline.step,stepReader,Daemon.seen,withQueues,position,enough,nothing]
  · cases taken

theorem pushMeasurement_simulates (taken : step env s .pushMeasurement = some t) : Simulates env s t := by
  obtain ⟨m,queue,pushing,stepped,rfl⟩ := pushMeasurement_cases taken
  obtain ⟨_,items,pushed,popped,_⟩ := lock_push stepped
  exact simulates_of_seen popped fun _ => by simp [Daemon.seen,withQueues,items,pushed,pushing]

/-- Where `pop` takes an item, the analysis goes on with it. -/
theorem took_simulates {queue : Monitor Worker OPQMeasurement w} (position : s.threads.analysisSlab.t = some .pop)
    (pops : Pops .analysis s.readerQueue queue) : Simulates env s { s with readerQueue := queue }.took := by
  rcases pops with ⟨_,⟨items,pushed,popped⟩,threads⟩ | ⟨m,items,pushed,popped,threads⟩
  · have same : { s with readerQueue := queue }.took = { s with readerQueue := queue } := by
      simp [Daemon.took,threads]
    rw [same]
    exact simulates_of_seen popped fun _ => by simp [Daemon.seen,withQueues,items,pushed]
  · intro before at_
    have same : { s with readerQueue := queue }.took = { s with
        readerQueue := queue
        threads := { s.threads with analysisSlab := s.threads.analysisSlab.at (.popped m) } } := by
      simp [Daemon.took,threads]
    refine ⟨before ++ [(s.threads.analysis,m)],?_,.inr ⟨.analysis,?_⟩⟩
    · rw [same]
      simp [at_,popped]
    · rw [same]
      simp [Pipeline.step,stepAnalysis,Daemon.seen,withQueues,position,items,pushed]

theorem tookMessage_simulates {queue : Monitor Worker (OPQAnalysis F) w} (position : s.threads.triggerSlab.t = some .pop)
    (pops : Pops .trigger s.analysisQueue queue) : Simulates env s { s with analysisQueue := queue }.tookMessage := by
  rcases pops with ⟨_,⟨items,_,_⟩,threads⟩ | ⟨message,items,_,_,threads⟩
  · have same : { s with analysisQueue := queue }.tookMessage = { s with analysisQueue := queue } := by
      simp [Daemon.tookMessage,threads]
    rw [same]
    exact simulates_of_seen rfl fun _ => by simp [Daemon.seen,withQueues,items]
  · intro before at_
    have same : { s with analysisQueue := queue }.tookMessage = { s with
        analysisQueue := queue
        threads := { s.threads with triggerSlab := s.threads.triggerSlab.at (.send message) } } := by
      simp [Daemon.tookMessage,threads]
    refine ⟨before,?_,.inr ⟨.trigger,?_⟩⟩
    · rw [same]
      exact at_
    · rw [same]
      simp [Pipeline.step,stepTrigger,Daemon.seen,withQueues,position,items]

theorem pushAnalysis_simulates (taken : step env s .pushAnalysis = some t) : Simulates env s t := by
  intro before at_
  obtain ⟨m,analysis,queue,position,_,stepped,rfl⟩ := pushAnalysis_cases taken
  obtain ⟨_,items,_,_,_⟩ := lock_push stepped
  refine ⟨before,at_,.inr ⟨.analysis,?_⟩⟩
  simp [Pipeline.step,stepAnalysis,Daemon.seen,withQueues,position,items]

/-! ### What holds between the steps -/

/-- A thread that waits in `pop` is at the call. -/
structure AtPop (s : Daemon F Buffer w) : Prop where
  analysis : waits (s.readerQueue.threads .analysis) = true → s.threads.analysisSlab.t = some .pop
  trigger : waits (s.analysisQueue.threads .trigger) = true → s.threads.triggerSlab.t = some .pop

structure Inv (s : Daemon F Buffer w) : Prop where
  cycle : Lifecycle s.threads
  atPop : AtPop s
  measurements : Roles .reader .analysis s.readerQueue.threads
  analyses : Roles .analysis .trigger s.analysisQueue.threads
  readerQueue : Waiting s.readerQueue
  analysisQueue : Waiting s.analysisQueue

theorem step_simulates (inv : Inv s) {a : Action} (taken : step env s a = some t) : Simulates env s t := by
  cases a with
  | own a => exact own_simulates taken
  | full => exact full_simulates taken
  | pushMeasurement => exact pushMeasurement_simulates taken
  | popMeasurement =>
    obtain ⟨queue,position,stepped,rfl⟩ := popMeasurement_cases taken
    exact took_simulates position (lock_pop stepped).2
  | relockMeasurements =>
    obtain ⟨queue,stepped,rfl⟩ := Option.map_eq_some_iff.mp taken
    obtain ⟨woken,pops⟩ := relock stepped
    exact took_simulates (inv.atPop.analysis (by rw [woken]; rfl)) pops
  | pushAnalysis => exact pushAnalysis_simulates taken
  | popAnalysis =>
    obtain ⟨queue,position,stepped,rfl⟩ := popAnalysis_cases taken
    exact tookMessage_simulates position (lock_pop stepped).2
  | relockAnalyses =>
    obtain ⟨queue,stepped,rfl⟩ := Option.map_eq_some_iff.mp taken
    obtain ⟨woken,pops⟩ := relock stepped
    exact tookMessage_simulates (inv.atPop.trigger (by rw [woken]; rfl)) pops
  | inReaderQueue within =>
    obtain ⟨queue,stepped,rfl⟩ := Option.map_eq_some_iff.mp taken
    obtain ⟨items,pushed,popped⟩ := inner_keeps (by cases within <;> rfl) stepped
    exact simulates_of_seen popped fun _ => by simp [Daemon.seen,withQueues,items,pushed]
  | inAnalysisQueue within =>
    obtain ⟨queue,stepped,rfl⟩ := Option.map_eq_some_iff.mp taken
    obtain ⟨items,_,_⟩ := inner_keeps (by cases within <;> rfl) stepped
    exact simulates_of_seen rfl fun _ => by simp [Daemon.seen,withQueues,items]

/-- The life of the threads is seen. -/
theorem Simulates.cycle (simulates : Simulates env s t) (cycle : Lifecycle s.threads) : Lifecycle t.threads := by
  have seen : Lifecycle (s.seen (s.readerQueue.popped.map fun m => (s.threads.analysis,m))) :=
    ⟨cycle.trigger,cycle.reader,cycle.analysis,cycle.signalled⟩
  obtain ⟨popped,_,same | ⟨a,taken⟩⟩ := simulates (s.readerQueue.popped.map fun m => (s.threads.analysis,m)) (by simp)
  · obtain ⟨trigger,reader,analysis,signalled⟩ := same ▸ seen
    exact ⟨trigger,reader,analysis,signalled⟩
  · obtain ⟨trigger,reader,analysis,signalled⟩ := seen.step taken
    exact ⟨trigger,reader,analysis,signalled⟩

/-- Only its own steps take the analysis from the call of `pop`. -/
theorem analysis_stays {s t : System F Buffer} {a : Pipeline.Action} (cycle : Lifecycle s) (other : worker a ≠ some .analysis)
    (taken : Pipeline.step env s a = some t) (position : s.analysisSlab.t = some .pop) : t.analysisSlab.t = some .pop := by
  cases a with
  | main =>
    cases stepMain_cases taken with
    | startAnalysis at_ =>
      have idle := cycle.analysis.idle (by rw [at_]; decide)
      rw [position] at idle
      cases idle
    | _ => exact position
  | signal =>
    obtain ⟨_,rfl⟩ := signal_cases taken
    exact position
  | reader cycle now => cases stepReader_cases taken <;> exact position
  | analysis => exact absurd rfl other
  | trigger => cases stepTrigger_cases taken <;> exact position
  | onFramesPerMeasurementChange frames =>
    cases taken
    exact position

theorem trigger_stays {s t : System F Buffer} {a : Pipeline.Action} (cycle : Lifecycle s) (other : worker a ≠ some .trigger)
    (taken : Pipeline.step env s a = some t) (position : s.triggerSlab.t = some .pop) : t.triggerSlab.t = some .pop := by
  cases a with
  | main =>
    cases stepMain_cases taken with
    | startTrigger at_ =>
      have idle := cycle.trigger.idle (by rw [at_]; decide)
      rw [position] at idle
      cases idle
    | _ => exact position
  | signal =>
    obtain ⟨_,rfl⟩ := signal_cases taken
    exact position
  | reader cycle now => cases stepReader_cases taken <;> exact position
  | analysis => cases stepAnalysis_cases taken <;> exact position
  | trigger => exact absurd rfl other
  | onFramesPerMeasurementChange frames =>
    cases taken
    exact position

theorem outside_waits {i : Worker} (outside : s.outside i = true) :
    waits (s.readerQueue.threads i) = false ∧ waits (s.analysisQueue.threads i) = false := by
  simp only [Daemon.outside,Bool.and_eq_true] at outside
  obtain ⟨⟨first,second⟩,_⟩ := outside
  constructor
  · cases at_i : s.readerQueue.threads i <;> rw [at_i] at first <;> first | rfl | cases first
  · cases at_i : s.analysisQueue.threads i <;> rw [at_i] at second <;> first | rfl | cases second

theorem own_atPop (inv : Inv s) {a : Pipeline.Action} (taken : step env s (.own a) = some t) : AtPop t := by
  simp only [step] at taken
  split_ifs at taken with apart
  obtain ⟨threads,stepped,rfl⟩ := Option.map_eq_some_iff.mp taken
  have outside {i : Worker} (is : worker a = some i) : s.outside i = true := by
    rw [is] at apart
    exact (Bool.and_eq_true_iff.mp apart).1
  refine ⟨fun waiting => ?_,fun waiting => ?_⟩
  · refine analysis_stays inv.cycle (fun is => ?_) stepped (inv.atPop.analysis waiting)
    exact absurd (waiting.symm.trans (outside_waits (outside is)).1) (by decide)
  · refine trigger_stays inv.cycle (fun is => ?_) stepped (inv.atPop.trigger waiting)
    exact absurd (waiting.symm.trans (outside_waits (outside is)).2) (by decide)

theorem took_atPop {queue : Monitor Worker OPQMeasurement w} (inv : Inv s) (position : s.threads.analysisSlab.t = some .pop)
    (pops : Pops .analysis s.readerQueue queue) : AtPop { s with readerQueue := queue }.took := by
  rcases pops with ⟨_,_,threads⟩ | ⟨m,_,_,_,threads⟩
  · simp only [Daemon.took,threads,update_self]
    exact ⟨fun _ => position,inv.atPop.trigger⟩
  · simp only [Daemon.took,threads,update_self]
    exact ⟨fun waiting => by simp [threads,waits] at waiting,inv.atPop.trigger⟩

theorem tookMessage_atPop {queue : Monitor Worker (OPQAnalysis F) w} (inv : Inv s)
    (position : s.threads.triggerSlab.t = some .pop) (pops : Pops .trigger s.analysisQueue queue) : AtPop { s with analysisQueue := queue }.tookMessage := by
  rcases pops with ⟨_,_,threads⟩ | ⟨message,_,_,_,threads⟩
  · simp only [Daemon.tookMessage,threads,update_self]
    exact ⟨inv.atPop.analysis,fun _ => position⟩
  · simp only [Daemon.tookMessage,threads,update_self]
    exact ⟨inv.atPop.analysis,fun waiting => by simp [threads,waits] at waiting⟩

/-- What a thread has taken changes nothing at the queues. -/
theorem took_queues (s : Daemon F Buffer w) :
    s.took.readerQueue = s.readerQueue ∧ s.took.analysisQueue = s.analysisQueue ∧
      s.tookMessage.readerQueue = s.readerQueue ∧ s.tookMessage.analysisQueue = s.analysisQueue := by
  unfold Daemon.took Daemon.tookMessage
  split <;> split <;> exact ⟨rfl,rfl,rfl,rfl⟩

theorem Inv.took {queue : Monitor Worker OPQMeasurement w} (inv : Inv s) (position : s.threads.analysisSlab.t = some .pop)
    (pops : Pops .analysis s.readerQueue queue) (waiting : Waiting queue)
    (cycle : Lifecycle { s with readerQueue := queue }.took.threads) : Inv { s with readerQueue := queue }.took := by
  obtain ⟨first,second,_,_⟩ := took_queues { s with readerQueue := queue }
  refine ⟨cycle,took_atPop inv position pops,?_,?_,?_,?_⟩
  · rw [first]
    exact pops.roles inv.measurements
  · rw [second]
    exact inv.analyses
  · rw [first]
    exact waiting
  · rw [second]
    exact inv.analysisQueue

theorem Inv.tookMessage {queue : Monitor Worker (OPQAnalysis F) w} (inv : Inv s)
    (position : s.threads.triggerSlab.t = some .pop) (pops : Pops .trigger s.analysisQueue queue) (waiting : Waiting queue)
    (cycle : Lifecycle { s with analysisQueue := queue }.tookMessage.threads) :
    Inv { s with analysisQueue := queue }.tookMessage := by
  obtain ⟨_,_,first,second⟩ := took_queues { s with analysisQueue := queue }
  refine ⟨cycle,tookMessage_atPop inv position pops,?_,?_,?_,?_⟩
  · rw [first]
    exact inv.measurements
  · rw [second]
    exact pops.roles inv.analyses
  · rw [first]
    exact inv.readerQueue
  · rw [second]
    exact waiting

theorem Inv.step (inv : Inv s) {a : Action} (taken : step env s a = some t) : Inv t := by
  have cycle := (step_simulates inv taken).cycle inv.cycle
  have ⟨_,atPop,measurements,analyses,readerQueue,analysisQueue⟩ := inv
  cases a with
  | own a =>
    have own := own_atPop inv taken
    simp only [QueuedDaemon.step] at taken
    split_ifs at taken
    obtain ⟨threads,_,rfl⟩ := Option.map_eq_some_iff.mp taken
    exact ⟨cycle,own,measurements,analyses,readerQueue,analysisQueue⟩
  | full =>
    simp only [QueuedDaemon.step] at taken
    split at taken
    · split_ifs at taken
      cases taken
      exact ⟨cycle,⟨atPop.analysis,atPop.trigger⟩,measurements,analyses,readerQueue,analysisQueue⟩
    · cases taken
  | pushMeasurement =>
    obtain ⟨m,queue,_,stepped,rfl⟩ := pushMeasurement_cases taken
    obtain ⟨_,_,_,_,threads⟩ := lock_push stepped
    refine ⟨cycle,⟨fun waiting => ?_,atPop.trigger⟩,push_roles stepped measurements,analyses,readerQueue.step stepped,
      analysisQueue⟩
    exact atPop.analysis (by simpa [threads] using waiting)
  | popMeasurement =>
    obtain ⟨queue,position,stepped,rfl⟩ := popMeasurement_cases taken
    exact inv.took position (lock_pop stepped).2 (readerQueue.step stepped) cycle
  | relockMeasurements =>
    obtain ⟨queue,stepped,rfl⟩ := Option.map_eq_some_iff.mp taken
    obtain ⟨woken,pops⟩ := relock stepped
    exact inv.took (atPop.analysis (by rw [woken]; rfl)) pops (readerQueue.step stepped) cycle
  | pushAnalysis =>
    obtain ⟨m,analysis,queue,_,outside,stepped,rfl⟩ := pushAnalysis_cases taken
    obtain ⟨_,_,_,_,threads⟩ := lock_push stepped
    refine ⟨cycle,⟨fun waiting => ?_,fun waiting => ?_⟩,measurements,push_roles stepped analyses,readerQueue,
      analysisQueue.step stepped⟩
    · exact absurd (waiting.symm.trans (outside_waits outside).1) (by decide)
    · exact atPop.trigger (by simpa [threads] using waiting)
  | popAnalysis =>
    obtain ⟨queue,position,stepped,rfl⟩ := popAnalysis_cases taken
    exact inv.tookMessage position (lock_pop stepped).2 (analysisQueue.step stepped) cycle
  | relockAnalyses =>
    obtain ⟨queue,stepped,rfl⟩ := Option.map_eq_some_iff.mp taken
    obtain ⟨woken,pops⟩ := relock stepped
    exact inv.tookMessage (atPop.trigger (by rw [woken]; rfl)) pops (analysisQueue.step stepped) cycle
  | inReaderQueue within =>
    obtain ⟨queue,stepped,rfl⟩ := Option.map_eq_some_iff.mp taken
    have inside : inner (T := OPQMeasurement) within.action = true := by cases within <;> rfl
    exact ⟨cycle,⟨fun waiting => atPop.analysis (inner_waits inside stepped waiting),atPop.trigger⟩,
      inner_roles inside stepped measurements,analyses,readerQueue.step stepped,analysisQueue⟩
  | inAnalysisQueue within =>
    obtain ⟨queue,stepped,rfl⟩ := Option.map_eq_some_iff.mp taken
    have inside : inner (T := OPQAnalysis F) within.action = true := by cases within <;> rfl
    exact ⟨cycle,⟨atPop.analysis,fun waiting => atPop.trigger (inner_waits inside stepped waiting)⟩,measurements,
      inner_roles inside stepped analyses,readerQueue,analysisQueue.step stepped⟩

theorem inv_init (analysis : LocalAnalysis) (redis : RedisSerializer Buffer) (frames_per_measurement : Int) :
    Inv (.init analysis redis frames_per_measurement : Daemon F Buffer w) where
  cycle := lifecycle_init ..
  atPop := ⟨nofun,nofun⟩
  measurements := ⟨nofun,nofun,nofun⟩
  analyses := ⟨nofun,nofun,nofun⟩
  readerQueue := SyncQueue.waiting_start
  analysisQueue := SyncQueue.waiting_start

/-! ### Runs -/

/-- Every run is seen as one where a push and a pop are one step each. -/
theorem run_seen {analysis : LocalAnalysis} {redis : RedisSerializer Buffer} {frames_per_measurement : Int}
    {actions : List Action} (ran : run (step env) (.init analysis redis frames_per_measurement : Daemon F Buffer w) actions = some s) :
    ∃ as popped, run (Pipeline.step env) (.init analysis redis frames_per_measurement) as = some (s.seen popped) ∧
      popped.map Prod.snd = s.readerQueue.popped := by
  have preserved : ∀ (s : Daemon F Buffer w) a t, (Inv s ∧ ∃ as popped,
        run (Pipeline.step env) (.init analysis redis frames_per_measurement) as = some (s.seen popped) ∧
          popped.map Prod.snd = s.readerQueue.popped) → step env s a = some t →
      (Inv t ∧ ∃ as popped, run (Pipeline.step env) (.init analysis redis frames_per_measurement) as = some (t.seen popped) ∧
          popped.map Prod.snd = t.readerQueue.popped) := by
    rintro s a t ⟨inv,as,popped,before,items⟩ taken
    refine ⟨inv.step taken,?_⟩
    obtain ⟨popped',items',same | ⟨b,next⟩⟩ := step_simulates inv taken popped items
    · exact ⟨as,popped',same ▸ before,items'⟩
    · exact ⟨as ++ [b],popped',run_concat before next,items'⟩
  exact (run_invariant preserved ⟨inv_init ..,[],[],rfl,rfl⟩ ran).2

/-- The daemon with its real queues. Every run is seen as one where a push and a pop are
    one step each; a thread that sleeps in `pop` beside a filled queue is about to be
    notified, and while a thread waits in `pop` its producer was not told to stop. -/
theorem queues_refine {analysis : LocalAnalysis} {redis : RedisSerializer Buffer} {frames_per_measurement : Int}
    {actions : List Action} (ran : run (step env) (.init analysis redis frames_per_measurement : Daemon F Buffer w) actions = some s) :
    (∃ as popped, run (Pipeline.step env) (.init analysis redis frames_per_measurement) as = some (s.seen popped) ∧
      popped.map Prod.snd = s.readerQueue.popped) ∧
    (NoneMissed .reader .analysis s.readerQueue ∧ NoneMissed .analysis .trigger s.analysisQueue) ∧
    (Started s.threads → (waits (s.readerQueue.threads .analysis) = true → s.threads.readerSlab.running = true) ∧
      (waits (s.analysisQueue.threads .trigger) = true → s.threads.analysisSlab.running = true)) := by
  have inv : Inv s := run_invariant (fun _ _ _ inv taken => inv.step taken) (inv_init ..) ran
  refine ⟨run_seen ran,⟨none_missed inv.measurements inv.readerQueue,none_missed inv.analyses inv.analysisQueue⟩,?_⟩
  intro started
  have cycle : Lifecycle (withQueues s.threads [] [] [] []) :=
    ⟨inv.cycle.trigger,inv.cycle.reader,inv.cycle.analysis,inv.cycle.signalled⟩
  obtain ⟨reads,analyses⟩ := cycle.fed started
  exact ⟨fun waiting => reads ⟨inv.atPop.analysis waiting,rfl⟩,fun waiting => analyses ⟨inv.atPop.trigger waiting,rfl⟩⟩

/-- A measurement is pushed while the analysis sleeps; it is notified, and takes it. -/
def sleepingAnalysis : List Action :=
  let cycle : OPQCycle := ⟨.replicate _ 0,0,0,0⟩
  [.own .main,.own .main,.own .main,.own .analysis,.own .analysis,.popMeasurement,.inReaderQueue (.wait .analysis),
    .own (.reader cycle 0),.own (.reader cycle 0),.full,.pushMeasurement,.inReaderQueue (.unlock .reader)]

theorem queues_refine_asleep : ∃ s : Daemon Unit _ 32, run (step plainEnv) (.init (.new 0) (.new 2 100 10) 1) sleepingAnalysis = some s ∧
    (∃ as popped, run (Pipeline.step plainEnv) (.init (.new 0) (.new 2 100 10) 1) as = some (s.seen popped) ∧
      popped.map Prod.snd = s.readerQueue.popped) ∧
    s.readerQueue.threads .analysis = .asleep ∧ (s.readerQueue.threads .reader).notifies = true ∧
    s.threads.readerSlab.running = true := by
  obtain ⟨s,ran,sleeps,filled,started⟩ : ∃ s : Daemon Unit _ 32,
      run (step plainEnv) (.init (.new 0) (.new 2 100 10) 1) sleepingAnalysis = some s ∧
        s.readerQueue.threads .analysis = .asleep ∧ s.readerQueue.queue ≠ [] ∧ Started s.threads :=
    ⟨_,rfl,rfl,by decide,by decide,by decide,by decide⟩
  obtain ⟨seen,⟨none_missed,_⟩,fed⟩ := queues_refine ran
  exact ⟨s,ran,seen,sleeps,none_missed sleeps filled,(fed started).1 (by rw [sleeps]; rfl)⟩

end Opqbox.QueuedDaemon
