import Mathlib.Data.Prod.Lex
import Opqbox.FairRuns
import Opqbox.Measurements
import Opqbox.Warmup

/-!
The shutdown comes to its end. After the signal `main` waits for one thread after
the other, and a thread that it waits for may wait on a queue for another one
(`helper`). Each step of the thread that is waited for in the end lowers a rank, also
while the filters are not initialized yet, so that in a fair run `main` finishes
(`shutdown_completes`).
-/
namespace Opqbox.ShutdownCompletes
open Opqbox.Analysis hiding step
open Opqbox.FairRuns Opqbox.Messages Opqbox.OpqData Opqbox.Pipeline Opqbox.RedisWriter Opqbox.Runs Opqbox.Shutdown
open Opqbox.Measurements (Sound Usable)

variable {F Buffer : Type} {env : Env F Buffer} {s t : System F Buffer}

/-- Who takes a step. -/
inductive Party where
  | main | reader | analysis | trigger | outside
  deriving DecidableEq

def party : Action → Party
  | .main => .main
  | .reader _ _ => .reader
  | .analysis => .analysis
  | .trigger => .trigger
  | .signal | .onFramesPerMeasurementChange _ => .outside

/-! ### The initialization of the filters -/

/-- What is left until the filters are initialized: the states before, and in each of
    them the counter where it is below its bound. -/
def unready (a : LocalAnalysis) : Nat :=
  match a.state with
  | .INITIALIZING_DOWNSAMPLING_FILTER => 4 + min a.samplesProcessed.toNat 129
  | .INITIALIZING_LOWPASS_FILTER => 1 + min a.samplesProcessed.toNat 2
  | .RUNNING => 0

theorem unready_first {a : LocalAnalysis} (is : a.state = .INITIALIZING_DOWNSAMPLING_FILTER) :
    unready a = 4 + min a.samplesProcessed.toNat 129 := by rw [unready,is]

theorem unready_second {a : LocalAnalysis} (is : a.state = .INITIALIZING_LOWPASS_FILTER) :
    unready a = 1 + min a.samplesProcessed.toNat 2 := by rw [unready,is]

theorem unready_running {a : LocalAnalysis} (is : a.state = .RUNNING) : unready a = 0 := by rw [unready,is]

/-- The counter counts what goes into a filter, modulo the width of its type. -/
theorem counts {body : LocalAnalysis → Nat → ℚ → LocalAnalysis} (count : LocalAnalysis → Nat)
    (body_counts : ∀ a i x, ∃ n, (body a i x).samplesProcessed = a.samplesProcessed + BitVec.ofNat 32 n ∧
      count (body a i x) = count a + n) (a : LocalAnalysis) (m : OPQMeasurement) {n : Nat}
    (all : count (a.forSamples body m) = count a + n) :
    (a.forSamples body m).samplesProcessed.toNat = (a.samplesProcessed.toNat + n) % 2 ^ 32 := by
  have kept := LocalAnalysis.forSamples_keeps
    (P := fun b => b.samplesProcessed + BitVec.ofNat 32 (count a) = a.samplesProcessed + BitVec.ofNat 32 (count b))
    (fun b same i x => by
      obtain ⟨k,counter,more⟩ := body_counts b i x
      rw [counter,more,BitVec.ofNat_add,← BitVec.add_assoc,← same]
      ac_rfl) rfl m
  rw [all,BitVec.ofNat_add,← BitVec.add_assoc] at kept
  have sum : (a.forSamples body m).samplesProcessed = a.samplesProcessed + BitVec.ofNat 32 n := by
    have cancel := congrArg (fun v => v - BitVec.ofNat 32 (count a)) kept
    simp only [BitVec.add_sub_cancel] at cancel
    rw [cancel]
    bv_omega
  rw [sum,BitVec.toNat_add,BitVec.toNat_ofNat,Nat.add_mod_mod]

/-- Where a counter is not beyond its bound after something was counted, it has
    wrapped around, and is less than before. -/
theorem counter_falls {c d limit : Nat} (width : c < 2 ^ 32) (few : d < 2 ^ 32) (many : limit < d)
    (low : ¬ (c + d) % 2 ^ 32 > limit) : min ((c + d) % 2 ^ 32) (limit + 1) < min c (limit + 1) := by
  rcases Nat.lt_or_ge (c + d) (2 ^ 32) with below | above
  · rw [Nat.mod_eq_of_lt below] at low
    omega
  · rw [Nat.mod_eq_sub_mod above,Nat.mod_eq_of_lt (by omega)] at low ⊢
    omega

/-- A measurement brings the initialization on, where its samples do not make the
    counter run through all its values. -/
theorem unready_initFilter {a : LocalAnalysis} {m : OPQMeasurement} (state : a.state ≠ .RUNNING) (some : m.cycles ≠ [])
    (few : 200 * m.cycles.length < 2 ^ 32) : unready (a.initFilter m) < unready a := by
  have positive := List.length_pos_of_ne_nil some
  have bound := a.samplesProcessed.isLt
  cases is : a.state with
  | RUNNING => exact absurd is state
  | INITIALIZING_DOWNSAMPLING_FILTER =>
    have counter := counts (fun a => (samples a.events).length) (fun a i x => ⟨1,rfl,rfl⟩) a m (LocalAnalysis.samples_primeAdf a m)
    have same : (a.forSamples LocalAnalysis.primeAdf m).state = a.state :=
      LocalAnalysis.forSamples_state (fun a i x => show (a.primeAdf i x).state = a.state from rfl) a m
    rw [LocalAnalysis.initFilter,is]
    dsimp only
    split_ifs with enough
    · rw [unready_first is,unready_second rfl]
      exact Nat.lt_of_le_of_lt (Nat.add_le_add_left (Nat.min_le_right ..) _) (by omega)
    · rw [unready_first is,unready_first (same.trans is),counter]
      rw [counter] at enough
      exact Nat.add_lt_add_left (counter_falls bound (by omega) (by omega) enough) 4
  | INITIALIZING_LOWPASS_FILTER =>
    have counter := counts (fun a => (fed a.events).length) (fun a i x => by
      rw [LocalAnalysis.primeLpf]
      split_ifs
      · exact ⟨1,rfl,rfl⟩
      · exact ⟨0,(BitVec.add_zero _).symm,rfl⟩) a m (LocalAnalysis.fed_primeLpf a m)
    have same : (a.forSamples LocalAnalysis.primeLpf m).state = a.state := by
      refine LocalAnalysis.forSamples_state (fun a i x => ?_) a m
      rw [LocalAnalysis.primeLpf]
      split_ifs <;> rfl
    rw [LocalAnalysis.initFilter,is]
    dsimp only
    split_ifs with enough
    · rw [unready_second is,unready_running rfl]
      omega
    · rw [unready_second is,unready_second (same.trans is),counter]
      rw [counter,show LocalAnalysisState.INITIALIZING_LOWPASS_FILTER.value = 1 from rfl] at enough
      exact Nat.add_lt_add_left (counter_falls bound (by omega) (by omega) enough) 1

/-! ### What `main` waits for -/

/-- How far a position of the analysis is from a push, or from its end once it is told
    to stop. -/
def analysisWeight (running : Bool) : Option (Analysing F) → Nat
  | none | some .finished => 0
  | some .connect | some (.store _) => if running then 5 else 2
  | some .test => if running then 4 else 1
  | some .pop => if running then 3 else 5
  | some (.popped _) => if running then 2 else 4
  | some (.push _ _) => if running then 1 else 3

def triggerWeight : Option (Triggering F) → Nat
  | none | some .finished => 0
  | some .test => 1
  | some .connect | some (.send _) => 2
  | some .pop => 3

/-- How far the reader is from its next push, or from its end. -/
def readerWeight (frames : Int) (running : Bool) : Option Reading → Nat
  | none | some .finished => 0
  | some .test => if running then frames.toNat + 3 else 1
  | some (.fill m) => (frames - m.cycles.length).toNat + 2

/-- The analysis waits for the reader. -/
def analysisStarved (s : System F Buffer) : Bool :=
  match s.analysisSlab.t with
  | some .pop => s.readerQueue.isEmpty
  | _ => false

/-- The trigger waits for the analysis. -/
def triggerStarved (s : System F Buffer) : Bool :=
  match s.triggerSlab.t with
  | some .pop => s.analysisQueue.isEmpty
  | _ => false

def analysisFinished (s : System F Buffer) : Bool :=
  match s.analysisSlab.t with
  | some .finished => true
  | _ => false

def triggerFinished (s : System F Buffer) : Bool :=
  match s.triggerSlab.t with
  | some .finished => true
  | _ => false

def readerFinished (s : System F Buffer) : Bool :=
  match s.readerSlab.t with
  | some .finished => true
  | _ => false

theorem analysisFinished_iff : analysisFinished s = true ↔ s.analysisSlab.t = some .finished := by
  unfold analysisFinished
  split <;> simp_all

theorem triggerFinished_iff : triggerFinished s = true ↔ s.triggerSlab.t = some .finished := by
  unfold triggerFinished
  split <;> simp_all

theorem readerFinished_iff : readerFinished s = true ↔ s.readerSlab.t = some .finished := by
  unfold readerFinished
  split <;> simp_all

/-- Whose step brings the analysis on. -/
def analysisHelper (s : System F Buffer) : Party := if analysisStarved s then .reader else .analysis

/-- Whose step brings the shutdown on. -/
def helper (s : System F Buffer) : Party :=
  match s.main with
  | .joinTrigger => if triggerFinished s then .main else if triggerStarved s then analysisHelper s else .trigger
  | .joinAnalysis => if analysisFinished s then .main else analysisHelper s
  | .joinReader => if readerFinished s then .main else .reader
  | _ => .main

/-- The analysis is waited for. -/
def waitsAnalysis (s : System F Buffer) : Bool :=
  match s.main with
  | .joinTrigger => triggerStarved s
  | .joinAnalysis => true
  | _ => false

/-- The reader is waited for. -/
def waitsReader (s : System F Buffer) : Bool :=
  match s.main with
  | .joinReader => true
  | _ => waitsAnalysis s && analysisStarved s

def mainLeft (s : System F Buffer) : Nat := 11 - number s.main

def triggerLeft (s : System F Buffer) : Nat := if s.main = .joinTrigger then triggerWeight s.triggerSlab.t else 0

def unreadyLeft (s : System F Buffer) : Nat := if waitsAnalysis s then unready s.analysis else 0

def analysisLeft (s : System F Buffer) : Nat :=
  if waitsAnalysis s then analysisWeight s.analysisSlab.running s.analysisSlab.t else 0

def readerLeft (s : System F Buffer) : Nat :=
  if waitsReader s then readerWeight s.frames_per_measurement s.readerSlab.running s.readerSlab.t else 0

/-- What is left, in this order: of `main`, of the trigger, of the initialization of the
    filters, of the analysis and of the reader, each where it is waited for. -/
def rank (s : System F Buffer) : Nat ×ₗ Nat ×ₗ Nat ×ₗ Nat ×ₗ Nat :=
  toLex (mainLeft s,toLex (triggerLeft s,toLex (unreadyLeft s,toLex (analysisLeft s,readerLeft s))))

theorem rank_lt (lower : mainLeft t < mainLeft s ∨ mainLeft t = mainLeft s ∧
    (triggerLeft t < triggerLeft s ∨ triggerLeft t = triggerLeft s ∧
      (unreadyLeft t < unreadyLeft s ∨ unreadyLeft t = unreadyLeft s ∧
        (analysisLeft t < analysisLeft s ∨ analysisLeft t = analysisLeft s ∧ readerLeft t < readerLeft s)))) :
    rank t < rank s := by
  simpa only [rank,Prod.Lex.toLex_lt_toLex] using lower

/-! ### What a step leaves -/

/-- What is joined was told to stop. -/
structure Halted (s : System F Buffer) : Prop where
  trigger : s.main = .joinTrigger → s.triggerSlab.running = false
  analysis : s.main = .joinAnalysis → s.analysisSlab.running = false
  reader : s.main = .joinReader → s.readerSlab.running = false

theorem Halted.step (halted : Halted s) {a : Action} (taken : step env s a = some t) : Halted t := by
  obtain ⟨trigger,analysis,reader⟩ := halted
  cases a with
  | main => cases stepMain_cases taken <;> constructor <;> intro is <;> simp_all [Slab.halt]
  | signal =>
    obtain ⟨_,rfl⟩ := signal_cases taken
    exact ⟨trigger,analysis,reader⟩
  | reader cycle now => cases stepReader_cases taken <;> exact ⟨trigger,analysis,reader⟩
  | analysis => cases stepAnalysis_cases taken <;> exact ⟨trigger,analysis,reader⟩
  | trigger => cases stepTrigger_cases taken <;> exact ⟨trigger,analysis,reader⟩
  | onFramesPerMeasurementChange frames =>
    cases taken
    exact ⟨trigger,analysis,reader⟩

/-- A number of cycles whose samples do not make the counter of the analysis run
    through all its values. -/
def Small (frames : Int) : Prop := 200 * frames < 2 ^ 32

instance (frames : Int) : Decidable (Small frames) := Int.decLt _ _

/-- The measurements that are passed on are small, and what the analysis has analysed
    was pushed. -/
structure Bounded (s : System F Buffer) : Prop where
  positive : 0 < s.frames_per_measurement
  small : Small s.frames_per_measurement
  pushed : ∀ m ∈ s.pushed, Small m.cycles.length
  filling : ∀ m, s.readerSlab.t = some (.fill m) → Small m.cycles.length
  made : ∀ m a, s.analysisSlab.t = some (.push m a) → m ∈ s.pushed
  storing : ∀ m, s.analysisSlab.t = some (.store m) → m ∈ s.pushed

theorem bounded_init (analysis : LocalAnalysis) (redis : RedisSerializer Buffer) {frames : Int} (positive : 0 < frames)
    (small : Small frames) : Bounded (.init (F := F) analysis redis frames) where
  positive := positive
  small := small
  pushed := nofun
  filling := nofun
  made := nofun
  storing := nofun

/-- Each value of the setting is positive and small. -/
def Moderate : Action → Prop
  | .onFramesPerMeasurementChange frames => 0 < frames ∧ Small frames
  | _ => True

theorem Bounded.step (bounded : Bounded s) (sound : Sound s) {a : Action} (moderate : Moderate a)
    (taken : step env s a = some t) : Bounded t := by
  obtain ⟨positive,small,pushed,filling,made,storing⟩ := bounded
  cases a with
  | main =>
    cases stepMain_cases taken with
    | startReader => exact ⟨positive,small,pushed,fun _ is => (by cases is),made,storing⟩
    | startAnalysis => exact ⟨positive,small,pushed,filling,fun _ _ is => (by cases is),fun _ is => (by cases is)⟩
    | _ => exact ⟨positive,small,pushed,filling,made,storing⟩
  | signal =>
    obtain ⟨_,rfl⟩ := signal_cases taken
    exact ⟨positive,small,pushed,filling,made,storing⟩
  | reader cycle now =>
    cases stepReader_cases taken with
    | test position =>
      refine ⟨positive,small,pushed,?_,made,storing⟩
      intro m is
      simp only [Slab.at] at is
      split_ifs at is
      · cases is
        exact (by decide : Small 0)
      · cases is
    | fill position more =>
      refine ⟨positive,small,pushed,?_,made,storing⟩
      intro m is
      cases is
      simp only [Small,List.length_append,List.length_singleton] at small ⊢
      omega
    | @push m position full =>
      refine ⟨positive,small,?_,fun _ is => (by cases is),?_,?_⟩
      · intro m' member
        rcases List.mem_append.mp member with old | new
        · exact pushed m' old
        · exact List.mem_singleton.mp new ▸ filling m position
      · exact fun m' a is => List.mem_append_left _ (made m' a is)
      · exact fun m' is => List.mem_append_left _ (storing m' is)
  | analysis =>
    cases stepAnalysis_cases taken with
    | test position =>
      refine ⟨positive,small,pushed,filling,?_,?_⟩
      · intro m a is
        simp only [Slab.at] at is
        split_ifs at is <;> cases is
      · intro m is
        simp only [Slab.at] at is
        split_ifs at is <;> cases is
    | @analyse m _ position =>
      refine ⟨positive,small,pushed,filling,?_,fun _ is => (by cases is)⟩
      intro m' a is
      cases is
      exact sound.popped m position
    | @push m a position =>
      refine ⟨positive,small,pushed,filling,fun _ _ is => (by cases is),?_⟩
      intro m' is
      cases is
      exact made m a position
    | _ => exact ⟨positive,small,pushed,filling,fun _ _ is => (by cases is),fun _ is => (by cases is)⟩
  | trigger => cases stepTrigger_cases taken <;> exact ⟨positive,small,pushed,filling,made,storing⟩
  | onFramesPerMeasurementChange frames =>
    cases taken
    exact ⟨moderate.1,moderate.2,pushed,filling,made,storing⟩

/-- What holds in every state of a run. -/
structure Kept (s : System F Buffer) : Prop where
  cycle : Lifecycle s
  halted : Halted s
  sound : Sound s
  bounded : Bounded s

theorem kept_init (analysis : LocalAnalysis) (redis : RedisSerializer Buffer) {frames : Int} (positive : 0 < frames)
    (small : Small frames) : Kept (.init (F := F) analysis redis frames) where
  cycle := lifecycle_init ..
  halted := ⟨nofun,nofun,nofun⟩
  sound := Measurements.sound_init ..
  bounded := bounded_init analysis redis positive small

theorem Kept.step (kept : Kept s) {a : Action} (moderate : Moderate a) (taken : step env s a = some t) : Kept t where
  cycle := kept.cycle.step taken
  halted := kept.halted.step taken
  sound := by
    obtain ⟨filled,pushed,queued,popped⟩ := kept.sound
    cases a with
    | main => exact kept.sound.main taken
    | signal =>
      obtain ⟨_,rfl⟩ := signal_cases taken
      exact ⟨filled,pushed,queued,popped⟩
    | reader cycle now => exact kept.sound.reader taken fun _ => kept.bounded.positive
    | analysis => exact kept.sound.analysis taken
    | trigger => exact kept.sound.trigger taken
    | onFramesPerMeasurementChange frames =>
      cases taken
      exact ⟨filled,pushed,queued,popped⟩
  bounded := kept.bounded.step kept.sound moderate taken

/-- The status stays as the signal has set it. -/
theorem signal_stays (signalled : s.gSignalStatus = 0) {a : Action} (taken : step env s a = some t) : t.gSignalStatus = 0 := by
  cases a with
  | main => cases stepMain_cases taken <;> exact signalled
  | signal =>
    obtain ⟨_,rfl⟩ := signal_cases taken
    rfl
  | reader cycle now => cases stepReader_cases taken <;> exact signalled
  | analysis => cases stepAnalysis_cases taken <;> exact signalled
  | trigger => cases stepTrigger_cases taken <;> exact signalled
  | onFramesPerMeasurementChange frames =>
    cases taken
    exact signalled

/-! ### The rank falls -/

theorem number_le (m : Main) : number m ≤ 11 := by cases m <;> decide

/-- A statement of `main`. -/
theorem main_lowers (signalled : s.gSignalStatus = 0) (taken : stepMain s = some t) : rank t < rank s := by
  have further : number s.main < number t.main := by
    by_cases asleep : s.main = .sleep
    · have woken : t = { s with main := .stopTrigger } := by simpa [stepMain,asleep,signalled] using taken.symm
      rw [woken,asleep]
      exact (by decide : number .sleep < number .stopTrigger)
    · cases stepMain_cases taken with
      | sleep position | wake position => exact absurd position asleep
      | _ => simp_all [number]
  have last := number_le t.main
  exact rank_lt (.inl (by unfold mainLeft; omega))

/-- Where the trigger is not joined, its steps change nothing that is waited for. -/
theorem trigger_aside (other : s.main ≠ .joinTrigger) (slab : Slab (Triggering F)) (queue sent : List (OPQAnalysis F)) :
    rank { s with triggerSlab := slab, analysisQueue := queue, sent := sent } = rank s ∧
      helper { s with triggerSlab := slab, analysisQueue := queue, sent := sent } = helper s ∧ Party.trigger ≠ helper s := by
  cases position : s.main with
  | joinTrigger => exact absurd position other
  | joinAnalysis =>
    refine ⟨?_,?_,?_⟩
    · simp [rank,mainLeft,triggerLeft,unreadyLeft,analysisLeft,readerLeft,waitsAnalysis,waitsReader,analysisStarved,position]
    · simp only [helper,position]
      rfl
    · simp only [helper,position,analysisHelper]
      split_ifs <;> decide
  | joinReader =>
    refine ⟨?_,?_,?_⟩
    · simp [rank,mainLeft,triggerLeft,unreadyLeft,analysisLeft,readerLeft,waitsAnalysis,waitsReader,position]
    · simp only [helper,position]
      rfl
    · simp only [helper,position]
      split_ifs <;> decide
  | _ =>
    refine ⟨?_,?_,?_⟩
    · simp [rank,mainLeft,triggerLeft,unreadyLeft,analysisLeft,readerLeft,waitsAnalysis,waitsReader,position]
    · simp [helper,position]
    · simp [helper,position]

/-- Once it is told to stop, each step brings the trigger nearer to its end. -/
theorem triggerWeight_falls (told : s.triggerSlab.running = false) (taken : stepTrigger s = some t) :
    t.main = s.main ∧ triggerWeight t.triggerSlab.t < triggerWeight s.triggerSlab.t := by
  cases stepTrigger_cases taken <;> simp_all [triggerWeight,Slab.at]

theorem trigger_lowers (halted : Halted s) (taken : stepTrigger s = some t) : Lowers party rank helper s .trigger t := by
  by_cases joins : s.main = .joinTrigger
  · obtain ⟨main,falls⟩ := triggerWeight_falls (halted.trigger joins) taken
    exact .inl (rank_lt (.inr ⟨by rw [mainLeft,mainLeft,main],.inl (by simpa [triggerLeft,main,joins] using falls)⟩))
  · right
    cases stepTrigger_cases taken with
    | connect | test => exact trigger_aside joins _ s.analysisQueue s.sent
    | pop => exact trigger_aside joins _ _ s.sent
    | send => exact trigger_aside joins _ s.analysisQueue _

/-- A step of the reader leaves what the rank says of the others, and its queue does not
    get empty. -/
theorem reader_leaves {cycle : OPQCycle} {now : Nat} (taken : stepReader cycle now s = some t) :
    mainLeft t = mainLeft s ∧ triggerLeft t = triggerLeft s ∧ unreadyLeft t = unreadyLeft s ∧ analysisLeft t = analysisLeft s ∧
      t.main = s.main ∧ triggerStarved t = triggerStarved s ∧ triggerFinished t = triggerFinished s ∧
      analysisFinished t = analysisFinished s ∧ (analysisStarved t = true → analysisStarved s = true) := by
  cases stepReader_cases taken with
  | test | fill => exact ⟨rfl,rfl,rfl,rfl,rfl,rfl,rfl,rfl,id⟩
  | push =>
    refine ⟨rfl,rfl,rfl,rfl,rfl,rfl,rfl,rfl,?_⟩
    simp only [analysisStarved]
    split <;> simp

/-- The reader comes nearer to a push, or to its end, or it pushes. -/
theorem readerWeight_falls {cycle : OPQCycle} {now : Nat} (taken : stepReader cycle now s = some t) :
    readerWeight t.frames_per_measurement t.readerSlab.running t.readerSlab.t <
      readerWeight s.frames_per_measurement s.readerSlab.running s.readerSlab.t ∨
    s.readerSlab.running = true ∧ t.readerQueue ≠ [] := by
  cases stepReader_cases taken with
  | test position =>
    left
    by_cases goes : s.readerSlab.running = true
    · simp [readerWeight,Slab.at,position,goes]
    · simp [readerWeight,Slab.at,position,goes]
  | fill position more =>
    left
    simp only [readerWeight,Slab.at,position,List.length_append,List.length_singleton]
    omega
  | push position full =>
    by_cases goes : s.readerSlab.running = true
    · exact .inr ⟨goes,by simp⟩
    · left
      simp [readerWeight,Slab.at,position,goes]

theorem readerWeight_pos {cycle : OPQCycle} {now : Nat} (taken : stepReader cycle now s = some t) :
    0 < readerWeight s.frames_per_measurement s.readerSlab.running s.readerSlab.t := by
  cases stepReader_cases taken with
  | test position =>
    simp only [readerWeight,position]
    split_ifs <;> omega
  | fill position | push position => simp [readerWeight,position]

theorem analysisStarved_nil (starved : analysisStarved s = true) : s.readerQueue = [] := by
  unfold analysisStarved at starved
  split at starved
  · exact List.isEmpty_iff.mp starved
  · cases starved

/-- The reader helps where it is waited for. -/
theorem helper_ne_reader (alone : waitsReader s = false) : helper s ≠ .reader := by
  cases position : s.main with
  | joinTrigger =>
    simp only [waitsReader,waitsAnalysis,position] at alone
    simp only [helper,position,analysisHelper]
    split_ifs <;> simp_all
  | joinAnalysis =>
    simp only [waitsReader,waitsAnalysis,position,Bool.true_and] at alone
    simp only [helper,position,analysisHelper,alone]
    split_ifs <;> simp_all
  | joinReader => simp [waitsReader,position] at alone
  | _ => simp [helper,position]

theorem reader_lowers {cycle : OPQCycle} {now : Nat} (halted : Halted s) (taken : stepReader cycle now s = some t) :
    Lowers party rank helper s (.reader cycle now) t := by
  obtain ⟨main,trigger,unready,analysis,same,starved,ended,finished,fed⟩ := reader_leaves taken
  have waits : waitsAnalysis t = waitsAnalysis s := by simp only [waitsAnalysis,same,starved]
  by_cases joins : s.main = .joinReader
  · -- The reader is joined, and was told to stop.
    have falls := (readerWeight_falls taken).resolve_right fun pushes => by simp [halted.reader joins] at pushes
    have lower : readerLeft t < readerLeft s := by simpa [readerLeft,waitsReader,same,joins] using falls
    exact .inl (rank_lt (.inr ⟨main,.inr ⟨trigger,.inr ⟨unready,.inr ⟨analysis,lower⟩⟩⟩⟩))
  · have own : waitsReader s = (waitsAnalysis s && analysisStarved s) := by
      unfold waitsReader
      split
      · exact absurd ‹_› joins
      · rfl
    have own' : waitsReader t = (waitsAnalysis s && analysisStarved t) := by
      rw [← waits]
      unfold waitsReader
      split
      · exact absurd (same ▸ ‹_›) joins
      · rfl
    by_cases waited : waitsAnalysis s = true ∧ analysisStarved s = true
    · have lower : readerLeft t < readerLeft s := by
        have positive := readerWeight_pos taken
        rw [readerLeft,readerLeft,own,own',waited.1,waited.2]
        simp only [Bool.and_self,if_true,Bool.true_and]
        split_ifs with still
        · exact (readerWeight_falls taken).resolve_right fun pushes => pushes.2 (analysisStarved_nil still)
        · exact positive
      exact .inl (rank_lt (.inr ⟨main,.inr ⟨trigger,.inr ⟨unready,.inr ⟨analysis,lower⟩⟩⟩⟩))
    · right
      have alone : waitsReader s = false := by rw [own]; simpa using waited
      have alone' : waitsReader t = false := by
        rw [own']
        by_contra still
        simp only [Bool.not_eq_false,Bool.and_eq_true] at still
        exact waited ⟨still.1,fed still.2⟩
      have unstarved (waits : waitsAnalysis s = true) : analysisStarved s = false ∧ analysisStarved t = false := by
        rw [own,waits,Bool.true_and] at alone
        rw [own',waits,Bool.true_and] at alone'
        exact ⟨alone,alone'⟩
      refine ⟨by simp only [rank,main,trigger,unready,analysis,readerLeft,alone,alone',Bool.false_eq_true,if_false],?_,
        (helper_ne_reader alone).symm⟩
      cases position : s.main with
      | joinReader => exact absurd position joins
      | joinTrigger =>
        by_cases starving : triggerStarved s = true
        · obtain ⟨before,after⟩ := unstarved (by simpa [waitsAnalysis,position] using starving)
          simp only [helper,same,position,ended,starved,starving,analysisHelper,before,after]
        · simp only [helper,same,position,ended,starved,starving,Bool.false_eq_true,if_false]
      | joinAnalysis =>
        obtain ⟨before,after⟩ := unstarved (by simp [waitsAnalysis,position])
        simp only [helper,same,position,finished,analysisHelper,before,after]
      | _ => simp only [helper,same,position]

/-- A step of the analysis brings the initialization on, or itself nearer to a push or to
    its end, or it pushes. -/
theorem analysisWeight_falls (sound : Sound s) (bounded : Bounded s) (taken : stepAnalysis env s = some t) :
    unready t.analysis < unready s.analysis ∨ unready t.analysis = unready s.analysis ∧
      (analysisWeight t.analysisSlab.running t.analysisSlab.t < analysisWeight s.analysisSlab.running s.analysisSlab.t ∨
        s.analysisSlab.running = true ∧ t.analysisQueue ≠ [] ∧ 0 < analysisWeight s.analysisSlab.running s.analysisSlab.t) := by
  cases stepAnalysis_cases taken with
  | connect position | store position =>
    refine .inr ⟨rfl,.inl ?_⟩
    by_cases goes : s.analysisSlab.running = true <;> simp [Slab.at,position,analysisWeight,goes]
  | test position =>
    refine .inr ⟨rfl,.inl ?_⟩
    simp only [Slab.at,position]
    split_ifs with goes <;> simp [analysisWeight,goes]
  | pop position =>
    refine .inr ⟨rfl,.inl ?_⟩
    by_cases goes : s.analysisSlab.running = true <;> simp [Slab.at,position,analysisWeight,goes]
  | @prime m position state =>
    have listed := sound.popped m position
    have few : 200 * (m.cycles.length : Int) < 2 ^ 32 := bounded.pushed m listed
    exact .inl (unready_initFilter state (sound.pushed m listed).2 (by omega))
  | @analyse m a position state =>
    refine .inr ⟨?_,.inl ?_⟩
    · rw [unready_running (LocalAnalysis.consume_running state m),unready_running state]
    · by_cases goes : s.analysisSlab.running = true <;> simp [Slab.at,position,analysisWeight,goes]
  | push position =>
    refine .inr ⟨rfl,?_⟩
    by_cases goes : s.analysisSlab.running = true
    · exact .inr ⟨goes,by simp,by simp [position,analysisWeight,goes]⟩
    · left
      simp [Slab.at,position,analysisWeight,goes]

/-- A step of the analysis leaves what the rank says of `main` and the trigger, and the
    queue of the trigger does not get empty. -/
theorem analysis_leaves (taken : stepAnalysis env s = some t) :
    mainLeft t = mainLeft s ∧ triggerLeft t = triggerLeft s ∧ t.main = s.main ∧ t.readerSlab = s.readerSlab ∧
      t.frames_per_measurement = s.frames_per_measurement ∧ triggerFinished t = triggerFinished s ∧
      (triggerStarved t = true → triggerStarved s = true) := by
  cases stepAnalysis_cases taken with
  | push =>
    refine ⟨rfl,rfl,rfl,rfl,rfl,rfl,?_⟩
    simp only [triggerStarved]
    split <;> simp
  | _ => exact ⟨rfl,rfl,rfl,rfl,rfl,rfl,id⟩

theorem triggerStarved_nil (starved : triggerStarved s = true) : s.analysisQueue = [] := by
  unfold triggerStarved at starved
  split at starved
  · exact List.isEmpty_iff.mp starved
  · cases starved

theorem analysis_lowers (kept : Kept s) (taken : stepAnalysis env s = some t) : Lowers party rank helper s .analysis t := by
  obtain ⟨main,trigger,same,slab,setting,ended,fed⟩ := analysis_leaves taken
  have falls := analysisWeight_falls kept.sound kept.bounded taken
  by_cases waits : waitsAnalysis s = true
  · left
    have lower : unreadyLeft t < unreadyLeft s ∨ unreadyLeft t = unreadyLeft s ∧ analysisLeft t < analysisLeft s := by
      rw [unreadyLeft,unreadyLeft,analysisLeft,analysisLeft,waits]
      simp only [if_true]
      by_cases still : waitsAnalysis t = true
      · rw [still]
        simp only [if_true]
        refine falls.imp id fun both => ⟨both.1,both.2.resolve_right ?_⟩
        -- A push ends the wait of the trigger, and there is none after the analysis was told to stop.
        rintro ⟨goes,pushed,_⟩
        cases position : s.main with
        | joinTrigger => exact pushed (triggerStarved_nil (by simpa [waitsAnalysis,same,position] using still))
        | joinAnalysis => simp [kept.halted.analysis position] at goes
        | _ => simp [waitsAnalysis,position] at waits
      · have positive : unready t.analysis < unready s.analysis ∨
            0 < analysisWeight s.analysisSlab.running s.analysisSlab.t := by
          rcases falls with first | ⟨_,lower | ⟨_,_,positive⟩⟩
          · exact .inl first
          · exact .inr (Nat.zero_lt_of_lt lower)
          · exact .inr positive
        simp only [still,Bool.false_eq_true,if_false]
        omega
    exact rank_lt (.inr ⟨main,.inr ⟨trigger,lower.imp id fun both => ⟨both.1,.inl both.2⟩⟩⟩)
  · right
    have waits' : waitsAnalysis t = false := by
      by_contra still
      rw [Bool.not_eq_false] at still
      cases position : s.main with
      | joinTrigger =>
        simp only [waitsAnalysis,same,position] at still
        exact waits (by simpa [waitsAnalysis,position] using fed still)
      | joinAnalysis => exact waits (by simp [waitsAnalysis,position])
      | _ => simp [waitsAnalysis,same,position] at still
    have reader : readerLeft t = readerLeft s := by
      have both : waitsReader t = waitsReader s := by
        simp only [waitsReader,same,waits',Bool.not_eq_true _ ▸ waits,Bool.false_and]
      rw [readerLeft,readerLeft,both,slab,setting]
    have waits₀ : waitsAnalysis s = false := Bool.not_eq_true _ ▸ waits
    have unready : unreadyLeft t = unreadyLeft s := by simp only [unreadyLeft,waits',waits₀,Bool.false_eq_true,if_false]
    have analysis : analysisLeft t = analysisLeft s := by simp only [analysisLeft,waits',waits₀,Bool.false_eq_true,if_false]
    refine ⟨by simp only [rank,main,trigger,unready,analysis,reader],?_⟩
    cases position : s.main with
    | joinTrigger =>
      simp only [waitsAnalysis,same,position] at waits₀ waits'
      simp only [helper,same,position,ended,waits₀,waits',Bool.false_eq_true,if_false,party,true_and]
      split_ifs <;> decide
    | joinAnalysis => simp [waitsAnalysis,position] at waits
    | joinReader =>
      have finished : readerFinished t = readerFinished s := by rw [readerFinished,readerFinished,slab]
      simp only [helper,same,position,finished,party,true_and]
      split_ifs <;> decide
    | _ => simp [helper,same,position,party]

theorem helper_ne_outside (s : System F Buffer) : helper s ≠ .outside := by
  unfold helper analysisHelper
  split
  · split_ifs <;> decide
  · split_ifs <;> decide
  · split_ifs <;> decide
  · decide

/-- After the signal each step lowers the rank, or leaves it and who brings the shutdown on. -/
theorem step_lowers (kept : Kept s) (signalled : s.gSignalStatus = 0) {a : Action}
    (settled : ∀ frames, a ≠ .onFramesPerMeasurementChange frames) (taken : step env s a = some t) :
    Lowers party rank helper s a t := by
  cases a with
  | main => exact .inl (main_lowers signalled taken)
  | signal =>
    obtain ⟨_,rfl⟩ := signal_cases taken
    exact .inr ⟨rfl,rfl,(helper_ne_outside s).symm⟩
  | reader cycle now => exact reader_lowers kept.halted taken
  | analysis => exact analysis_lowers kept taken
  | trigger => exact trigger_lowers kept.halted taken
  | onFramesPerMeasurementChange frames => exact absurd rfl (settled frames)

/-! ### The party that helps can act -/

theorem reader_enabled (active : s.readerSlab.t ≠ none) (unfinished : s.readerSlab.t ≠ some .finished) :
    Enabled (step env) party .reader s := by
  refine enabled_of_isSome (a := Action.reader ⟨.replicate _ 0,0,0,0⟩ 0) ?_
  simp only [step,stepReader]
  split
  · rfl
  · split_ifs <;> rfl
  · next position =>
    cases at_ : s.readerSlab.t with
    | none => exact absurd at_ active
    | some position => cases position <;> simp_all

theorem analysis_enabled (kept : Kept s) (answered : ∀ n, env.answers n = true) (active : s.analysisSlab.t ≠ none)
    (unfinished : s.analysisSlab.t ≠ some .finished) (unstarved : analysisStarved s = false) :
    Enabled (step env) party .analysis s := by
  refine enabled_of_isSome (a := Action.analysis) ?_
  simp only [step,stepAnalysis]
  cases position : s.analysisSlab.t with
  | none => exact absurd position active
  | some at_ =>
    cases at_ with
    | finished => exact absurd position unfinished
    | connect | test | push m a => rfl
    | pop =>
      cases queue : s.readerQueue with
      | nil => simp [analysisStarved,position,queue] at unstarved
      | cons m rest => rfl
    | popped m =>
      obtain ⟨a,made⟩ := Option.isSome_iff_exists.mp
        ((kept.sound.pushed m (kept.sound.popped m position)).accesses env (s.analysis.consume m).downSampled).2.2.2
      simp only [made]
      split_ifs <;> rfl
    | store m =>
      obtain ⟨redis,sent⟩ := sendToRedis_answered env.wire answered s.redis
        (kept.sound.pushed m (kept.bounded.storing m position)).1.symm
      simp only [sent]
      rfl

theorem trigger_enabled (active : s.triggerSlab.t ≠ none) (unfinished : s.triggerSlab.t ≠ some .finished)
    (unstarved : triggerStarved s = false) : Enabled (step env) party .trigger s := by
  refine enabled_of_isSome (a := Action.trigger) ?_
  simp only [step,stepTrigger]
  cases position : s.triggerSlab.t with
  | none => exact absurd position active
  | some at_ =>
    cases at_ with
    | finished => exact absurd position unfinished
    | connect | test | send a => rfl
    | pop =>
      cases queue : s.analysisQueue with
      | nil => simp [triggerStarved,position,queue] at unstarved
      | cons a rest => rfl

theorem helper_enabled (kept : Kept s) (signalled : s.gSignalStatus = 0) (answered : ∀ n, env.answers n = true)
    (unfinished : s.main ≠ .finished) : Enabled (step env) party (helper s) s := by
  obtain ⟨trigger,reader,analysis,late⟩ := kept.cycle
  have started := late signalled
  -- The producer of a thread that is not joined was not told to stop.
  have reads (early : number s.main ≤ 9) : Enabled (step env) party .reader s := by
    refine reader_enabled (reader.active (by omega)) fun ended => ?_
    exact absurd ((reader.running (by omega) early).symm.trans (reader.stopped ended)) (by decide)
  have analyses (early : number s.main ≤ 8) (goes : s.analysisSlab.t ≠ some .finished) :
      Enabled (step env) party (analysisHelper s) s := by
    unfold analysisHelper
    split_ifs with starved
    · exact reads (by omega)
    · exact analysis_enabled kept answered (analysis.active (by omega)) goes (Bool.not_eq_true _ ▸ starved)
  have mains (possible : (stepMain s).isSome) : Enabled (step env) party .main s := enabled_of_isSome (a := Action.main) possible
  cases position : s.main with
  | finished => exact absurd position unfinished
  | joinTrigger =>
    rw [position] at trigger analysis analyses
    simp only [helper,position]
    split_ifs with ended starved
    · exact mains (by simp [stepMain,position,triggerFinished_iff.mp ended])
    · refine analyses (by decide) fun ended => ?_
      exact absurd ((analysis.running (by decide) (by decide)).symm.trans (analysis.stopped ended)) (by decide)
    · exact trigger_enabled (trigger.active (by decide)) (mt triggerFinished_iff.mpr ended) (Bool.not_eq_true _ ▸ starved)
  | joinAnalysis =>
    rw [position] at analyses
    simp only [helper,position]
    split_ifs with ended
    · exact mains (by simp [stepMain,position,analysisFinished_iff.mp ended])
    · exact analyses (by decide) (mt analysisFinished_iff.mpr ended)
  | joinReader =>
    rw [position] at reader
    simp only [helper,position]
    split_ifs with ended
    · exact mains (by simp [stepMain,position,readerFinished_iff.mp ended])
    · exact reader_enabled (reader.active (by decide)) (mt readerFinished_iff.mpr ended)
  | _ =>
    simp only [helper,position]
    exact mains (by simp [stepMain,position])

/-! ### The end -/

/-- `main` and all threads are finished. -/
structure Over (s : System F Buffer) : Prop where
  main : s.main = .finished
  trigger : s.triggerSlab.t = some .finished
  reader : s.readerSlab.t = some .finished
  analysis : s.analysisSlab.t = some .finished

/-- `main` finishes last. -/
theorem over_of_finished (cycle : Lifecycle s) (finished : s.main = .finished) : Over s where
  main := finished
  trigger := cycle.trigger.joined (by rw [finished]; decide)
  reader := cycle.reader.joined (by rw [finished]; decide)
  analysis := cycle.analysis.joined (by rw [finished]; decide)

theorem Over.not_enabled (ended : Over s) {p : Party} (own : p ≠ .outside) : ¬ Enabled (step env) party p s := by
  rintro ⟨a,t,rfl,taken⟩
  obtain ⟨main,trigger,reader,analysis⟩ := ended
  cases a with
  | main => simp [step,stepMain,main] at taken
  | reader cycle now => simp [step,stepReader,reader] at taken
  | analysis => simp [step,stepAnalysis,analysis] at taken
  | trigger => simp [step,stepTrigger,trigger] at taken
  | signal | onFramesPerMeasurementChange => exact own rfl

theorem kept_along {states : Nat → System F Buffer} {actions : Nat → Action} {analysis : LocalAnalysis}
    {redis : RedisSerializer Buffer} {frames_per_measurement : Int} (endless : Endless (step env) states actions)
    (starts : states 0 = .init analysis redis frames_per_measurement) (positive : 0 < frames_per_measurement)
    (small : Small frames_per_measurement) (moderate : ∀ n, Moderate (actions n)) (n : Nat) : Kept (states n) :=
  endless.invariant (fun m kept taken => kept.step (moderate m) taken) (starts ▸ kept_init analysis redis positive small)
    (Nat.zero_le n)

/-- In every run that is fair to `main` and the threads, where Redis answers, each value of
    the setting is positive and small and none comes any more: after the signal `main` and
    all threads finish. -/
theorem shutdown_completes {states : Nat → System F Buffer} {actions : Nat → Action} {analysis : LocalAnalysis}
    {redis : RedisSerializer Buffer} {frames_per_measurement : Int} (endless : Endless (step env) states actions)
    (starts : states 0 = .init analysis redis frames_per_measurement) (positive : 0 < frames_per_measurement)
    (small : Small frames_per_measurement) (moderate : ∀ n, Moderate (actions n)) (answered : ∀ n, env.answers n = true)
    (fair : ∀ p, p ≠ .outside → Fair (step env) party p states actions) {n : Nat}
    (signalled : (states n).gSignalStatus = 0)
    (settled : ∀ m, n ≤ m → ∀ frames, actions m ≠ .onFramesPerMeasurementChange frames) :
    ∃ m, n ≤ m ∧ Over (states m) := by
  have kept := kept_along endless starts positive small moderate
  have signalled_later (m : Nat) (later : n ≤ m) : (states m).gSignalStatus = 0 := by
    induction later with
    | refl => exact signalled
    | step _ zero => exact signal_stays zero (endless _)
  refine eventually_of_rank rank helper (fun m _ _ => fair _ (helper_ne_outside (states m))) ?_ ?_
  · intro m later unfinished
    exact helper_enabled (kept m) (signalled_later m later) answered (mt (over_of_finished (kept m).cycle) unfinished)
  · intro m later _
    exact step_lowers (kept m) (signalled_later m later) (settled m later) (endless m)

/-- Another signal changes nothing. -/
theorem signal_rests (signalled : s.gSignalStatus = 0) (handles : s.main.handles = true) : step env s .signal = some s := by
  obtain ⟨main,status⟩ := s
  cases signalled
  exact if_pos handles

/-- The signal comes before the first measurement, which the reader then still takes. -/
def lateMeasurement : List Action :=
  earlySignal ++ [.reader ⟨.replicate _ 0,0,0,0⟩ 0,.reader ⟨.replicate _ 0,0,0,0⟩ 0,.reader ⟨.replicate _ 0,0,0,0⟩ 0,
    .analysis,.analysis,.analysis,.main,.main,.reader ⟨.replicate _ 0,0,0,0⟩ 0,.main]

set_option maxRecDepth 3000 in
theorem shutdown_completes_early : ∃ states actions, Endless (step plainEnv) states actions ∧
    states 0 = .init (.new 0) (.new 2 100 10) 1 ∧ actions = (fun n => lateMeasurement[n]?.getD .signal) ∧
    ∃ m, 7 ≤ m ∧ Over (states m) := by
  obtain ⟨s,ran,signalled,ended⟩ : ∃ s, run (step plainEnv) (.init (.new 0) (.new 2 100 10) 1) lateMeasurement = some s ∧
      s.gSignalStatus = 0 ∧ Over s := ⟨_,rfl,rfl,rfl,rfl,rfl,rfl⟩
  obtain ⟨states,actions,endless,starts,is,ends⟩ := endless_of_run ran
    (signal_rests signalled (by rw [ended.main]; rfl))
  refine ⟨states,actions,endless,starts,is,?_⟩
  have settled (n : Nat) (frames : Int) : actions n ≠ .onFramesPerMeasurementChange frames := by
    intro changes
    simp only [is] at changes
    cases taken : lateMeasurement[n]? with
    | none => simp [taken] at changes
    | some a =>
      have member := List.mem_of_getElem? taken
      rw [taken,Option.getD_some] at changes
      simp [lateMeasurement,earlySignal,changes] at member
  have moderate (n : Nat) : Moderate (actions n) := by
    cases at_ : actions n with
    | onFramesPerMeasurementChange frames => exact absurd at_ (settled n frames)
    | _ => exact trivial
  have early : (states 7).gSignalStatus = 0 := by
    have ran := endless.run 7
    rw [starts,is] at ran
    exact (Option.some.inj ran) ▸ rfl
  refine shutdown_completes endless starts (by decide) (by decide) moderate (fun _ => rfl) ?_ early fun m _ => settled m
  -- No party but the signal can act any more at the end.
  intro p own n enabled
  exact absurd (ends _ (Nat.le_max_right n _) ▸ enabled _ (Nat.le_max_left n lateMeasurement.length)) (ended.not_enabled own)

end Opqbox.ShutdownCompletes
