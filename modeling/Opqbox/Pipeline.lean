import Opqbox.Analysis
import Opqbox.RedisWriter

/-!
The triggering daemon: the reader, the analysis and the trigger as threads with
a queue between each two of them, and `main`, which starts and stops them. Each
step is one that a thread takes up to its next access to a queue, to the device
or to a flag. The queues hold a lock for a push or a pop, so each is one step; a
pop waits on an empty queue.
-/
namespace Opqbox.Pipeline
open Opqbox.Analysis Opqbox.Messages Opqbox.OpqData Opqbox.RedisWriter Opqbox.Runs

/-- The result of the analysis of a measurement. -/
structure OPQAnalysis (F : Type) where
  RMS : F
  frequency : F
  start : Nat
  last_gps_counter : BitVec 16
  current_counter : BitVec 16
  flags : BitVec 32

/-- A thread: whether it is to go on, and where it is once it was started. -/
structure Slab (Position : Type) where
  running : Bool
  t : Option Position

def Slab.idle {Position : Type} : Slab Position := ⟨false,none⟩

def Slab.start {Position : Type} (func : Position) : Slab Position := ⟨true,some func⟩

def Slab.at {Position : Type} (slab : Slab Position) (position : Position) : Slab Position :=
  { slab with t := some position }

/-- `stop` up to the join. -/
def Slab.halt {Position : Type} (slab : Slab Position) : Slab Position := { slab with running := false }

/-- Positions in `Reader::loop`; `fill` is the loop over the frames of a measurement. -/
inductive Reading where
  | test | fill (measurement : OPQMeasurement) | finished

/-- Positions in `LocalAnalysis::loop`. -/
inductive Analysing (F : Type) where
  | connect | test | pop | popped (measurement : OPQMeasurement)
  | push (measurement : OPQMeasurement) (analysis : OPQAnalysis F) | store (measurement : OPQMeasurement) | finished

/-- Positions in `ZMQTrigger::loop`. -/
inductive Triggering (F : Type) where
  | connect | test | pop | send (message : OPQAnalysis F) | finished

/-- Positions in `main`. -/
inductive Main where
  | startTrigger | startReader | startAnalysis | postHandler | sleep
  | stopTrigger | joinTrigger | stopAnalysis | joinAnalysis | stopReader | joinReader | finished
  deriving DecidableEq

/-- The handler for the interrupt signal is posted. -/
def Main.handles : Main → Bool
  | .startTrigger | .startReader | .startAnalysis | .postHandler => false
  | _ => true

/-- The computations in floating point, and what is known of the connection to Redis. -/
structure Env (F Buffer : Type) where
  RMS : OPQMeasurement → F
  frequency : List ℚ → F
  wire : Wire Buffer
  answers : Nat → Bool

structure System (F Buffer : Type) where
  main : Main
  gSignalStatus : Nat
  readerSlab : Slab Reading
  analysisSlab : Slab (Analysing F)
  triggerSlab : Slab (Triggering F)
  readerQueue : List OPQMeasurement
  analysisQueue : List (OPQAnalysis F)
  frames_per_measurement : Int
  analysis : LocalAnalysis
  redis : RedisSerializer Buffer
  /-- The measurements that the reader pushed so far. -/
  pushed : List OPQMeasurement
  /-- The measurements that the analysis popped, and its state at that time. -/
  popped : List (LocalAnalysis × OPQMeasurement)
  /-- The analyses that the trigger sent. -/
  sent : List (OPQAnalysis F)
  /-- The measurements that were passed to Redis. -/
  stored : List OPQMeasurement

/-- `main` where it starts the first thread. -/
def System.init {F Buffer : Type} (analysis : LocalAnalysis) (redis : RedisSerializer Buffer)
    (frames_per_measurement : Int) :
    System F Buffer where
  main := .startTrigger
  gSignalStatus := 1
  readerSlab := .idle
  analysisSlab := .idle
  triggerSlab := .idle
  readerQueue := []
  analysisQueue := []
  frames_per_measurement := frames_per_measurement
  analysis := analysis
  redis := redis
  pushed := []
  popped := []
  sent := []
  stored := []

/-- A step of a thread, an interrupt signal, or a call of the reader's callback.
    A step of the reader comes with what the device and the clock return. -/
inductive Action where
  | main | signal | reader (cycle : OPQCycle) (now : Nat) | analysis | trigger | onFramesPerMeasurementChange (frames : Int)

variable {F Buffer : Type}

/-- The analysis of a measurement, where it has a cycle and a timestamp. -/
def make_analysis (env : Env F Buffer) (downSampled : List ℚ) (measurement : OPQMeasurement) : Option (OPQAnalysis F) :=
  match measurement.timestamps.head?,measurement.cycles.getLast? with
  | some front,some last => some {
      RMS := env.RMS measurement
      frequency := env.frequency downSampled
      start := front
      last_gps_counter := last.last_gps_counter
      current_counter := last.current_counter
      flags := measurement.cycles.foldl (fun flags frame => flags ||| frame.flags) 0 }
  | _,_ => none

/-- `main`; the join of a thread waits until it is finished. -/
def stepMain (s : System F Buffer) : Option (System F Buffer) :=
  match s.main with
  | .startTrigger => some { s with main := .startReader, triggerSlab := .start .connect }
  | .startReader => some { s with main := .startAnalysis, readerSlab := .start .test }
  | .startAnalysis => some { s with main := .postHandler, analysisSlab := .start .connect }
  | .postHandler => some { s with main := .sleep }
  | .sleep => some (if s.gSignalStatus ≠ 0 then s else { s with main := .stopTrigger })
  | .stopTrigger => some { s with main := .joinTrigger, triggerSlab := s.triggerSlab.halt }
  | .joinTrigger =>
    match s.triggerSlab.t with
    | some .finished => some { s with main := .stopAnalysis }
    | _ => none
  | .stopAnalysis => some { s with main := .joinAnalysis, analysisSlab := s.analysisSlab.halt }
  | .joinAnalysis =>
    match s.analysisSlab.t with
    | some .finished => some { s with main := .stopReader }
    | _ => none
  | .stopReader => some { s with main := .joinReader, readerSlab := s.readerSlab.halt }
  | .joinReader =>
    match s.readerSlab.t with
    | some .finished => some { s with main := .finished }
    | _ => none
  | .finished => none

/-- `Reader::loop`. -/
def stepReader (cycle : OPQCycle) (now : Nat) (s : System F Buffer) : Option (System F Buffer) :=
  match s.readerSlab.t with
  | some .test => some { s with readerSlab := s.readerSlab.at (if s.readerSlab.running then .fill ⟨[],[]⟩ else .finished) }
  | some (.fill measurement) =>
    if (measurement.cycles.length : Int) < s.frames_per_measurement then
      some { s with readerSlab := s.readerSlab.at (.fill ⟨measurement.cycles ++ [cycle],measurement.timestamps ++ [now]⟩) }
    else
      some { s with
        readerSlab := s.readerSlab.at .test
        readerQueue := s.readerQueue ++ [measurement]
        pushed := s.pushed ++ [measurement] }
  | _ => none

/-- `LocalAnalysis::loop`. -/
def stepAnalysis (env : Env F Buffer) (s : System F Buffer) : Option (System F Buffer) :=
  match s.analysisSlab.t with
  | some .connect => some { s with analysisSlab := s.analysisSlab.at .test }
  | some .test => some { s with analysisSlab := s.analysisSlab.at (if s.analysisSlab.running then .pop else .finished) }
  | some .pop =>
    match s.readerQueue with
    | [] => none
    | measurement :: rest =>
      some { s with
        analysisSlab := s.analysisSlab.at (.popped measurement)
        readerQueue := rest
        popped := s.popped ++ [(s.analysis,measurement)] }
  | some (.popped measurement) =>
    if s.analysis.state ≠ .RUNNING then
      some { s with analysisSlab := s.analysisSlab.at .test, analysis := s.analysis.initFilter measurement }
    else
      -- Without a cycle the source is undefined here.
      match make_analysis env (s.analysis.consume measurement).downSampled measurement with
      | none => none
      | some analysis =>
        some { s with
          analysisSlab := s.analysisSlab.at (.push measurement analysis)
          analysis := s.analysis.consume measurement }
  | some (.push measurement analysis) =>
    some { s with analysisSlab := s.analysisSlab.at (.store measurement), analysisQueue := s.analysisQueue ++ [analysis] }
  | some (.store measurement) =>
    match sendToRedis env.wire env.answers s.redis measurement with
    | none => none
    | some redis =>
      some { s with analysisSlab := s.analysisSlab.at .test, redis := redis, stored := s.stored ++ [measurement] }
  | _ => none

/-- `ZMQTrigger::loop`. -/
def stepTrigger (s : System F Buffer) : Option (System F Buffer) :=
  match s.triggerSlab.t with
  | some .connect => some { s with triggerSlab := s.triggerSlab.at .test }
  | some .test => some { s with triggerSlab := s.triggerSlab.at (if s.triggerSlab.running then .pop else .finished) }
  | some .pop =>
    match s.analysisQueue with
    | [] => none
    | message :: rest => some { s with triggerSlab := s.triggerSlab.at (.send message), analysisQueue := rest }
  | some (.send message) => some { s with triggerSlab := s.triggerSlab.at .test, sent := s.sent ++ [message] }
  | _ => none

/-- Before its handler is posted, a signal ends the process. -/
def step (env : Env F Buffer) (s : System F Buffer) : Action → Option (System F Buffer)
  | .main => stepMain s
  | .signal => if s.main.handles then some { s with gSignalStatus := 0 } else none
  | .reader cycle now => stepReader cycle now s
  | .analysis => stepAnalysis env s
  | .trigger => stepTrigger s
  | .onFramesPerMeasurementChange frames => some { s with frames_per_measurement := frames }

/-! ### What a step does -/

inductive MainStep (s : System F Buffer) : System F Buffer → Prop where
  | startTrigger (position : s.main = .startTrigger) :
    MainStep s { s with main := .startReader, triggerSlab := .start .connect }
  | startReader (position : s.main = .startReader) :
    MainStep s { s with main := .startAnalysis, readerSlab := .start .test }
  | startAnalysis (position : s.main = .startAnalysis) :
    MainStep s { s with main := .postHandler, analysisSlab := .start .connect }
  | postHandler (position : s.main = .postHandler) : MainStep s { s with main := .sleep }
  | sleep (position : s.main = .sleep) : MainStep s s
  | wake (position : s.main = .sleep) : MainStep s { s with main := .stopTrigger }
  | stopTrigger (position : s.main = .stopTrigger) :
    MainStep s { s with main := .joinTrigger, triggerSlab := s.triggerSlab.halt }
  | joinTrigger (position : s.main = .joinTrigger) (ended : s.triggerSlab.t = some .finished) :
    MainStep s { s with main := .stopAnalysis }
  | stopAnalysis (position : s.main = .stopAnalysis) :
    MainStep s { s with main := .joinAnalysis, analysisSlab := s.analysisSlab.halt }
  | joinAnalysis (position : s.main = .joinAnalysis) (ended : s.analysisSlab.t = some .finished) :
    MainStep s { s with main := .stopReader }
  | stopReader (position : s.main = .stopReader) :
    MainStep s { s with main := .joinReader, readerSlab := s.readerSlab.halt }
  | joinReader (position : s.main = .joinReader) (ended : s.readerSlab.t = some .finished) :
    MainStep s { s with main := .finished }

inductive ReaderStep (cycle : OPQCycle) (now : Nat) (s : System F Buffer) : System F Buffer → Prop where
  | test (position : s.readerSlab.t = some .test) : ReaderStep cycle now s { s with
      readerSlab := s.readerSlab.at (if s.readerSlab.running then .fill ⟨[],[]⟩ else .finished) }
  | fill {m : OPQMeasurement} (position : s.readerSlab.t = some (.fill m))
      (more : (m.cycles.length : Int) < s.frames_per_measurement) :
    ReaderStep cycle now s { s with readerSlab := s.readerSlab.at (.fill ⟨m.cycles ++ [cycle],m.timestamps ++ [now]⟩) }
  | push {m : OPQMeasurement} (position : s.readerSlab.t = some (.fill m))
      (full : ¬ (m.cycles.length : Int) < s.frames_per_measurement) :
    ReaderStep cycle now s { s with
      readerSlab := s.readerSlab.at .test, readerQueue := s.readerQueue ++ [m], pushed := s.pushed ++ [m] }

inductive AnalysisStep (env : Env F Buffer) (s : System F Buffer) : System F Buffer → Prop where
  | connect (position : s.analysisSlab.t = some .connect) :
    AnalysisStep env s { s with analysisSlab := s.analysisSlab.at .test }
  | test (position : s.analysisSlab.t = some .test) : AnalysisStep env s { s with
      analysisSlab := s.analysisSlab.at (if s.analysisSlab.running then .pop else .finished) }
  | pop {m : OPQMeasurement} {rest : List OPQMeasurement} (position : s.analysisSlab.t = some .pop)
      (front : s.readerQueue = m :: rest) :
    AnalysisStep env s { s with
      analysisSlab := s.analysisSlab.at (.popped m), readerQueue := rest, popped := s.popped ++ [(s.analysis,m)] }
  | prime {m : OPQMeasurement} (position : s.analysisSlab.t = some (.popped m))
      (state : s.analysis.state ≠ .RUNNING) :
    AnalysisStep env s { s with analysisSlab := s.analysisSlab.at .test, analysis := s.analysis.initFilter m }
  | analyse {m : OPQMeasurement} {a : OPQAnalysis F} (position : s.analysisSlab.t = some (.popped m))
      (state : s.analysis.state = .RUNNING)
      (made : make_analysis env (s.analysis.consume m).downSampled m = some a) :
    AnalysisStep env s { s with analysisSlab := s.analysisSlab.at (.push m a), analysis := s.analysis.consume m }
  | push {m : OPQMeasurement} {a : OPQAnalysis F} (position : s.analysisSlab.t = some (.push m a)) :
    AnalysisStep env s { s with analysisSlab := s.analysisSlab.at (.store m), analysisQueue := s.analysisQueue ++ [a] }
  | store {m : OPQMeasurement} {redis : RedisSerializer Buffer} (position : s.analysisSlab.t = some (.store m))
      (sent : sendToRedis env.wire env.answers s.redis m = some redis) :
    AnalysisStep env s { s with analysisSlab := s.analysisSlab.at .test, redis := redis, stored := s.stored ++ [m] }

inductive TriggerStep (s : System F Buffer) : System F Buffer → Prop where
  | connect (position : s.triggerSlab.t = some .connect) :
    TriggerStep s { s with triggerSlab := s.triggerSlab.at .test }
  | test (position : s.triggerSlab.t = some .test) : TriggerStep s { s with
      triggerSlab := s.triggerSlab.at (if s.triggerSlab.running then .pop else .finished) }
  | pop {a : OPQAnalysis F} {rest : List (OPQAnalysis F)} (position : s.triggerSlab.t = some .pop)
      (front : s.analysisQueue = a :: rest) :
    TriggerStep s { s with triggerSlab := s.triggerSlab.at (.send a), analysisQueue := rest }
  | send {a : OPQAnalysis F} (position : s.triggerSlab.t = some (.send a)) :
    TriggerStep s { s with triggerSlab := s.triggerSlab.at .test, sent := s.sent ++ [a] }

variable {env : Env F Buffer} {s t : System F Buffer}

theorem stepMain_cases (taken : stepMain s = some t) : MainStep s t := by
  unfold stepMain at taken
  split at taken
  case h_1 position =>
    cases taken
    exact .startTrigger position
  case h_2 position =>
    cases taken
    exact .startReader position
  case h_3 position =>
    cases taken
    exact .startAnalysis position
  case h_4 position =>
    cases taken
    exact .postHandler position
  case h_5 position =>
    simp only [Option.some.injEq] at taken
    split_ifs at taken
    · subst taken
      exact .sleep position
    · subst taken
      exact .wake position
  case h_6 position =>
    cases taken
    exact .stopTrigger position
  case h_7 position =>
    split at taken
    · next ended =>
      cases taken
      exact .joinTrigger position ended
    · cases taken
  case h_8 position =>
    cases taken
    exact .stopAnalysis position
  case h_9 position =>
    split at taken
    · next ended =>
      cases taken
      exact .joinAnalysis position ended
    · cases taken
  case h_10 position =>
    cases taken
    exact .stopReader position
  case h_11 position =>
    split at taken
    · next ended =>
      cases taken
      exact .joinReader position ended
    · cases taken
  case h_12 => cases taken

theorem stepReader_cases {cycle : OPQCycle} {now : Nat} (taken : stepReader cycle now s = some t) :
    ReaderStep cycle now s t := by
  unfold stepReader at taken
  split at taken
  case h_1 position =>
    cases taken
    exact .test position
  case h_2 m position =>
    split_ifs at taken with more
    · cases taken
      exact .fill position more
    · cases taken
      exact .push position more
  case h_3 => cases taken

theorem stepAnalysis_cases (taken : stepAnalysis env s = some t) : AnalysisStep env s t := by
  unfold stepAnalysis at taken
  split at taken
  case h_1 position =>
    cases taken
    exact .connect position
  case h_2 position =>
    cases taken
    exact .test position
  case h_3 position =>
    split at taken
    · cases taken
    · next m rest front =>
      cases taken
      exact .pop position front
  case h_4 m position =>
    split_ifs at taken with state
    · cases taken
      exact .prime position state
    · split at taken
      · cases taken
      · next a made =>
        cases taken
        exact .analyse position (not_not.mp state) made
  case h_5 m a position =>
    cases taken
    exact .push position
  case h_6 m position =>
    split at taken
    · cases taken
    · next redis sent =>
      cases taken
      exact .store position sent
  case h_7 => cases taken

theorem stepTrigger_cases (taken : stepTrigger s = some t) : TriggerStep s t := by
  unfold stepTrigger at taken
  split at taken
  case h_1 position =>
    cases taken
    exact .connect position
  case h_2 position =>
    cases taken
    exact .test position
  case h_3 position =>
    split at taken
    · cases taken
    · next a rest front =>
      cases taken
      exact .pop position front
  case h_4 a position =>
    cases taken
    exact .send position
  case h_5 => cases taken

/-- A signal that is handled sets the status, and nothing else. -/
theorem signal_cases (taken : step env s .signal = some t) : s.main.handles = true ∧ t = { s with gSignalStatus := 0 } := by
  obtain ⟨handles,same⟩ := Option.ite_none_right_eq_some.mp taken
  exact ⟨handles,(Option.some.inj same).symm⟩

end Opqbox.Pipeline
