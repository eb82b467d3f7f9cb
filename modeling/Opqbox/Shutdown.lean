import Opqbox.Pipeline

/-!
The shutdown of the triggering daemon. `main` stops and joins the threads one
after the other, each consumer before its producer. A thread is on its way as
long as `main` has not come to stop it (`Lives`), so one that waits on an empty
queue has a producer that goes on (`blocked_fed`).
-/
namespace Opqbox.Shutdown
open Opqbox.Analysis Opqbox.Messages Opqbox.RedisWriter Opqbox.Pipeline Opqbox.Runs

/-- The number of a statement of `main`. -/
def number : Main → Nat
  | .startTrigger => 0
  | .startReader => 1
  | .startAnalysis => 2
  | .postHandler => 3
  | .sleep => 4
  | .stopTrigger => 5
  | .joinTrigger => 6
  | .stopAnalysis => 7
  | .joinAnalysis => 8
  | .stopReader => 9
  | .joinReader => 10
  | .finished => 11

/-! ### The life of a thread -/

section
variable {Position : Type}

/-- A thread that statement `start` starts, `stop` stops and the next one joins,
    where `main` is at statement `n`. -/
structure Lives (finished : Position) (start stop n : Nat) (slab : Slab Position) : Prop where
  idle : n ≤ start → slab.t = none
  active : start < n → slab.t ≠ none
  running : start < n → n ≤ stop → slab.running = true
  stopped : slab.t = some finished → slab.running = false
  joined : stop + 1 < n → slab.t = some finished

variable {finished : Position} {start stop n : Nat} {slab : Slab Position}

theorem lives_idle (finished : Position) (start stop : Nat) : Lives finished start stop 0 .idle where
  idle _ := rfl
  active later := absurd later (by omega)
  running later := absurd later (by omega)
  stopped is := nomatch is
  joined later := absurd later (by omega)

/-- Another statement of `main`. -/
theorem Lives.pass (lives : Lives finished start stop n slab) (other : n ≠ start ∧ n ≠ stop ∧ n ≠ stop + 1) :
    Lives finished start stop (n + 1) slab where
  idle early := lives.idle (by omega)
  active later := lives.active (by omega)
  running later early := lives.running (by omega) (by omega)
  stopped := lives.stopped
  joined later := lives.joined (by omega)

theorem lives_start {func : Position} (unfinished : func ≠ finished) (ordered : start < stop) :
    Lives finished start stop (start + 1) (.start func) where
  idle early := absurd early (by omega)
  active _ := by simp [Slab.start]
  running _ _ := rfl
  stopped is := absurd (Option.some.inj is) unfinished
  joined later := absurd later (by omega)

theorem Lives.halt (lives : Lives finished start stop stop slab) (ordered : start < stop) :
    Lives finished start stop (stop + 1) slab.halt where
  idle early := absurd early (by omega)
  active _ := lives.active ordered
  running _ early := absurd early (by omega)
  stopped _ := rfl
  joined later := absurd later (by omega)

theorem Lives.join (lives : Lives finished start stop (stop + 1) slab) (ended : slab.t = some finished) :
    Lives finished start stop (stop + 1 + 1) slab where
  idle early := lives.idle (by omega)
  active later := by simp [ended]
  running later early := absurd early (by omega)
  stopped := lives.stopped
  joined _ := ended

/-- A step of the thread, which ends only where it is told to. -/
theorem Lives.move (lives : Lives finished start stop n slab) {p q : Position} (position : slab.t = some p)
    (unfinished : p ≠ finished)
    (told : q = finished → slab.running = false) : Lives finished start stop n (slab.at q) where
  idle early := by simp [lives.idle early] at position
  active _ := by simp [Slab.at]
  running later early := lives.running later early
  stopped is := told (Option.some.inj is)
  joined later := absurd (Option.some.inj (position.symm.trans (lives.joined later))) unfinished

end

/-! ### The threads of the daemon -/

variable {F Buffer : Type} {env : Env F Buffer} {s t : System F Buffer}

structure Lifecycle (s : System F Buffer) : Prop where
  trigger : Lives .finished 0 5 (number s.main) s.triggerSlab
  reader : Lives .finished 1 9 (number s.main) s.readerSlab
  analysis : Lives .finished 2 7 (number s.main) s.analysisSlab
  signalled : s.gSignalStatus = 0 → 3 < number s.main

theorem lifecycle_init (analysis : LocalAnalysis) (redis : RedisSerializer Buffer) (frames_per_measurement : Int) :
    Lifecycle (System.init (F := F) analysis redis frames_per_measurement) where
  trigger := lives_idle ..
  reader := lives_idle ..
  analysis := lives_idle ..
  signalled is := nomatch is

theorem Lifecycle.main (cycle : Lifecycle s) (taken : stepMain s = some t) : Lifecycle t := by
  obtain ⟨trigger,reader,analysis,signalled⟩ := cycle
  cases stepMain_cases taken with
  | startTrigger position =>
    rw [position] at reader analysis signalled
    exact ⟨lives_start (by simp) (by decide),reader.pass (by decide),analysis.pass (by decide),
      fun zero => absurd (signalled zero) (by decide)⟩
  | startReader position =>
    rw [position] at trigger analysis signalled
    exact ⟨trigger.pass (by decide),lives_start (by simp) (by decide),analysis.pass (by decide),
      fun zero => absurd (signalled zero) (by decide)⟩
  | startAnalysis position =>
    rw [position] at trigger reader signalled
    exact ⟨trigger.pass (by decide),reader.pass (by decide),lives_start (by simp) (by decide),
      fun zero => absurd (signalled zero) (by decide)⟩
  | postHandler position =>
    rw [position] at trigger reader analysis
    exact ⟨trigger.pass (by decide),reader.pass (by decide),analysis.pass (by decide),
      fun _ => (by decide : 3 < number .sleep)⟩
  | sleep position => exact ⟨trigger,reader,analysis,signalled⟩
  | wake position =>
    rw [position] at trigger reader analysis
    exact ⟨trigger.pass (by decide),reader.pass (by decide),analysis.pass (by decide),
      fun _ => (by decide : 3 < number .stopTrigger)⟩
  | stopTrigger position =>
    rw [position] at trigger reader analysis
    exact ⟨trigger.halt (by decide),reader.pass (by decide),analysis.pass (by decide),
      fun _ => (by decide : 3 < number .joinTrigger)⟩
  | joinTrigger position ended =>
    rw [position] at trigger reader analysis
    exact ⟨trigger.join ended,reader.pass (by decide),analysis.pass (by decide),
      fun _ => (by decide : 3 < number .stopAnalysis)⟩
  | stopAnalysis position =>
    rw [position] at trigger reader analysis
    exact ⟨trigger.pass (by decide),reader.pass (by decide),analysis.halt (by decide),
      fun _ => (by decide : 3 < number .joinAnalysis)⟩
  | joinAnalysis position ended =>
    rw [position] at trigger reader analysis
    exact ⟨trigger.pass (by decide),reader.pass (by decide),analysis.join ended,
      fun _ => (by decide : 3 < number .stopReader)⟩
  | stopReader position =>
    rw [position] at trigger reader analysis
    exact ⟨trigger.pass (by decide),reader.halt (by decide),analysis.pass (by decide),
      fun _ => (by decide : 3 < number .joinReader)⟩
  | joinReader position ended =>
    rw [position] at trigger reader analysis
    exact ⟨trigger.pass (by decide),reader.join ended,analysis.pass (by decide),
      fun _ => (by decide : 3 < number .finished)⟩

theorem Lifecycle.step (cycle : Lifecycle s) {action : Action} (taken : step env s action = some t) : Lifecycle t := by
  cases action with
  | main => exact cycle.main taken
  | signal =>
    obtain ⟨trigger,reader,analysis,_⟩ := cycle
    obtain ⟨handles,rfl⟩ := signal_cases taken
    refine ⟨trigger,reader,analysis,fun _ => ?_⟩
    show 3 < number s.main
    cases position : s.main <;> rw [position] at handles <;> first | exact absurd handles (by decide) | decide
  | reader cycle' now =>
    obtain ⟨trigger,reader,analysis,signalled⟩ := cycle
    cases stepReader_cases taken with
    | test position =>
      refine ⟨trigger,reader.move position (by simp) ?_,analysis,signalled⟩
      split_ifs <;> simp_all
    | fill position => exact ⟨trigger,reader.move position (by simp) (by simp),analysis,signalled⟩
    | push position => exact ⟨trigger,reader.move position (by simp) (by simp),analysis,signalled⟩
  | analysis =>
    obtain ⟨trigger,reader,analysis,signalled⟩ := cycle
    cases stepAnalysis_cases taken with
    | connect position => exact ⟨trigger,reader,analysis.move position (by simp) (by simp),signalled⟩
    | test position =>
      refine ⟨trigger,reader,analysis.move position (by simp) ?_,signalled⟩
      split_ifs <;> simp_all
    | pop position => exact ⟨trigger,reader,analysis.move position (by simp) (by simp),signalled⟩
    | prime position => exact ⟨trigger,reader,analysis.move position (by simp) (by simp),signalled⟩
    | analyse position => exact ⟨trigger,reader,analysis.move position (by simp) (by simp),signalled⟩
    | push position => exact ⟨trigger,reader,analysis.move position (by simp) (by simp),signalled⟩
    | store position => exact ⟨trigger,reader,analysis.move position (by simp) (by simp),signalled⟩
  | trigger =>
    obtain ⟨trigger,reader,analysis,signalled⟩ := cycle
    cases stepTrigger_cases taken with
    | connect position => exact ⟨trigger.move position (by simp) (by simp),reader,analysis,signalled⟩
    | test position =>
      refine ⟨trigger.move position (by simp) ?_,reader,analysis,signalled⟩
      split_ifs <;> simp_all
    | pop position => exact ⟨trigger.move position (by simp) (by simp),reader,analysis,signalled⟩
    | send position => exact ⟨trigger.move position (by simp) (by simp),reader,analysis,signalled⟩
  | onFramesPerMeasurementChange frames =>
    cases taken
    exact ⟨cycle.trigger,cycle.reader,cycle.analysis,cycle.signalled⟩

theorem lifecycle_run {analysis : LocalAnalysis} {redis : RedisSerializer Buffer} {frames_per_measurement : Int}
    {actions : List Action}
    (ran : run (step env) (.init analysis redis frames_per_measurement) actions = some s) : Lifecycle s :=
  run_invariant (fun _ _ _ cycle taken => cycle.step taken) (lifecycle_init ..) ran

/-! ### Waiting threads -/

/-- All three threads were started. -/
def Started (s : System F Buffer) : Prop := s.triggerSlab.t ≠ none ∧ s.readerSlab.t ≠ none ∧ s.analysisSlab.t ≠ none

/-- A thread waits in `pop` on an empty queue; the reader does not pop. -/
def AnalysisBlocked (s : System F Buffer) : Prop := s.analysisSlab.t = some .pop ∧ s.readerQueue = []

def TriggerBlocked (s : System F Buffer) : Prop := s.triggerSlab.t = some .pop ∧ s.analysisQueue = []

/-- `main` waits in a join for a thread that is not finished. -/
def Joining (s : System F Buffer) : Prop :=
  (s.main = .joinTrigger ∧ s.triggerSlab.t ≠ some .finished) ∨
    (s.main = .joinAnalysis ∧ s.analysisSlab.t ≠ some .finished) ∨
    (s.main = .joinReader ∧ s.readerSlab.t ≠ some .finished)

/-- `main` waits for a thread and no thread goes on. -/
def Stranded (s : System F Buffer) : Prop :=
  Joining s ∧ (s.triggerSlab.t = some .finished ∨ TriggerBlocked s) ∧
    (s.analysisSlab.t = some .finished ∨ AnalysisBlocked s) ∧ s.readerSlab.t = some .finished

/-- A thread that is not finished was not joined, so its producer is not stopped. -/
theorem Lifecycle.fed (cycle : Lifecycle s) (started : Started s) :
    (AnalysisBlocked s → s.readerSlab.running = true) ∧ (TriggerBlocked s → s.analysisSlab.running = true) := by
  obtain ⟨trigger,reader,analysis,_⟩ := cycle
  obtain ⟨_,reads,analyses⟩ := started
  constructor
  · rintro ⟨pops,_⟩
    refine reader.running (Nat.not_le.mp fun early => reads (reader.idle early)) (Nat.not_lt.mp fun late => ?_)
    have joined := analysis.joined (by omega)
    cases pops.symm.trans joined
  · rintro ⟨pops,_⟩
    refine analysis.running (Nat.not_le.mp fun early => analyses (analysis.idle early)) (Nat.not_lt.mp fun late => ?_)
    have joined := trigger.joined (by omega)
    cases pops.symm.trans joined

/-- The reader goes on until `main` waits for it alone. -/
theorem Lifecycle.not_stranded (cycle : Lifecycle s) : ¬ Stranded s := by
  rintro ⟨joining,_,_,ended⟩
  have stopped := cycle.reader.stopped ended
  rcases joining with ⟨position,_⟩ | ⟨position,_⟩ | ⟨_,unfinished⟩
  · have goes := cycle.reader.running (by rw [position]; decide) (by rw [position]; decide)
    exact absurd (goes.symm.trans stopped) (by decide)
  · have goes := cycle.reader.running (by rw [position]; decide) (by rw [position]; decide)
    exact absurd (goes.symm.trans stopped) (by decide)
  · exact unfinished ended

/-- In every run: all threads are started once the signal has come; from then on a
    thread that waits on an empty queue has a producer that was not told to stop, and
    at no time `main` waits for a thread while none goes on. -/
theorem blocked_fed {analysis : LocalAnalysis} {redis : RedisSerializer Buffer} {frames_per_measurement : Int}
    {actions : List Action} (ran : run (step env) (.init analysis redis frames_per_measurement) actions = some s) :
    (s.gSignalStatus = 0 → Started s) ∧
      (Started s → (AnalysisBlocked s → s.readerSlab.running = true) ∧
        (TriggerBlocked s → s.analysisSlab.running = true)) ∧
      ¬ Stranded s := by
  have cycle := lifecycle_run ran
  refine ⟨fun zero => ?_,cycle.fed,cycle.not_stranded⟩
  have later := cycle.signalled zero
  exact ⟨cycle.trigger.active (by omega),cycle.reader.active (by omega),cycle.analysis.active (by omega)⟩

/-- Results without numbers, and messages sent as they are. -/
def plainEnv : Env Unit (DataMessage ⊕ RequestDataMessage) := ⟨fun _ => (),fun _ => (),.plain,fun _ => true⟩

/-- The signal comes while the analysis waits for its first measurement. -/
def earlySignal : List Action :=
  [.main,.main,.main,.main,.analysis,.analysis,.signal,.main,.main,.trigger,.trigger,.main,.main]

/-- `main` waits for the analysis, which waits for the reader, and the reader goes on. -/
theorem blocked_fed_early : ∃ s, run (step plainEnv) (.init (.new 0) (.new 2 100 10) 1) earlySignal = some s ∧
    AnalysisBlocked s ∧ Joining s ∧ s.readerSlab.running = true ∧ ¬ Stranded s := by
  obtain ⟨s,ran,position,blocked,main⟩ : ∃ s, run (step plainEnv) (.init (.new 0) (.new 2 100 10) 1) earlySignal = some s ∧
      s.gSignalStatus = 0 ∧ AnalysisBlocked s ∧ s.main = .joinAnalysis := ⟨_,rfl,rfl,⟨rfl,rfl⟩,rfl⟩
  obtain ⟨signalled,fed,not_stranded⟩ := blocked_fed ran
  refine ⟨s,ran,blocked,.inr (.inl ⟨main,?_⟩),(fed (signalled position)).1 blocked,not_stranded⟩
  rw [blocked.1]
  simp

end Opqbox.Shutdown
