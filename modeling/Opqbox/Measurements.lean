import Opqbox.Observers
import Opqbox.Shutdown

/-!
The daemon with the setting that `Reader` copies: another thread may set it at any
time. A measurement has as many cycles as the reader's copy allows while it is filled,
so it is usable exactly if the copy is positive when the first cycle is to be read
(`usable_iff_positive`).
-/
namespace Opqbox.Measurements
open Opqbox.Observers Opqbox.OpqData Opqbox.Pipeline Opqbox.RedisWriter Opqbox.Runs Opqbox.Settings

/-- The callback of the reader, the only one, raises `bad_get`. -/
def readerRaises (_ : Unit) (s : OPQSetting) : Bool := (s.get .int).isNone

structure Daemon (F Buffer : Type) where
  settings : Settings Unit
  /-- The callbacks that `setSetting`, which holds its lock, has still to call. -/
  calls : List (BitVec 32)
  pipeline : Pipeline.System F Buffer

variable {F Buffer : Type}

/-- The reader is constructed with the setting, and then `main` starts the threads. -/
def start (analysis : Analysis.LocalAnalysis) (redis : RedisSerializer Buffer) (frames : BitVec 32) :
    Option (Daemon F Buffer) :=
  let settings := ((Settings.new : Settings Unit).setSetting readerRaises frames_per_measurement (.int frames)).1
  let copy := settings.getInt frames_per_measurement
  (settings.onChangeCallback frames_per_measurement ()).map fun registered =>
    ⟨registered.1,[],.init analysis redis copy.toInt⟩

/-- A call of `setSetting` up to its callbacks, the next of these, or a step of a thread. -/
inductive Action where
  | setSetting (frames : BitVec 32) | callback | thread (action : Pipeline.Action)

def step (env : Env F Buffer) (s : Daemon F Buffer) : Action → Option (Daemon F Buffer)
  | .setSetting frames =>
    match s.calls with
    | [] =>
      let (settings,funcs) := s.settings.setSetting readerRaises frames_per_measurement (.int frames)
      some { s with settings := settings, calls := funcs.map fun _ => frames }
    | _ :: _ => none
  | .callback =>
    match s.calls with
    | [] => none
    | frames :: rest =>
      (Pipeline.step env s.pipeline (.onFramesPerMeasurementChange frames.toInt)).map fun pipeline =>
        { s with calls := rest, pipeline := pipeline }
  -- The callback is called by the settings only.
  | .thread (.onFramesPerMeasurementChange _) => none
  | .thread action => (Pipeline.step env s.pipeline action).map fun pipeline => { s with pipeline := pipeline }

/-- A cycle for each timestamp, and at least one. -/
def Usable (m : OPQMeasurement) : Prop := m.cycles.length = m.timestamps.length ∧ m.cycles ≠ []

/-- What was pushed is usable, and so is what the analysis is about to access. -/
def HandedOver (_ : Daemon F Buffer) (_ : Action) (t : Daemon F Buffer) : Prop :=
  (∀ m ∈ t.pipeline.pushed, Usable m) ∧ ∀ m, t.pipeline.analysisSlab.t = some (.popped m) → Usable m

/-- When the reader is to read the first cycle of a measurement, its copy of the setting is positive. -/
def Positive (s : Daemon F Buffer) : Action → Daemon F Buffer → Prop
  | .thread (.reader _ _),_ => s.pipeline.readerSlab.t = some (.fill ⟨[],[]⟩) → 0 < s.pipeline.frames_per_measurement
  | _,_ => True

/-- The accesses to a usable measurement are in range, and its cycles are not 0 in number. -/
theorem Usable.accesses {m : OPQMeasurement} (usable : Usable m) (env : Env F Buffer) (downSampled : List ℚ) :
    0 < m.timestamps.length ∧ m.cycles.length - 1 < m.cycles.length ∧ m.cycles.length ≠ 0 ∧
      (make_analysis env downSampled m).isSome := by
  obtain ⟨same,some⟩ := usable
  have cycles := List.length_pos_of_ne_nil some
  have timestamps : m.timestamps ≠ [] := List.length_pos_iff.mp (same ▸ cycles)
  refine ⟨same ▸ cycles,by omega,cycles.ne',?_⟩
  rw [make_analysis,List.head?_eq_some_head timestamps,List.getLast?_eq_some_getLast some]
  rfl

/-- The reader adds cycles and timestamps together; what it pushed is usable, and what
    the analysis has got was pushed. -/
structure Sound (s : Pipeline.System F Buffer) : Prop where
  filled : ∀ m, s.readerSlab.t = some (.fill m) → m.cycles.length = m.timestamps.length
  pushed : ∀ m ∈ s.pushed, Usable m
  queued : ∀ m ∈ s.readerQueue, m ∈ s.pushed
  popped : ∀ m, s.analysisSlab.t = some (.popped m) → m ∈ s.pushed

theorem sound_init (analysis : Analysis.LocalAnalysis) (redis : RedisSerializer Buffer) (frames : Int) :
    Sound (.init (F := F) analysis redis frames) where
  filled _ is := by cases is
  pushed _ member := absurd member List.not_mem_nil
  queued _ member := absurd member List.not_mem_nil
  popped _ is := by cases is

section Steps
variable {env : Env F Buffer} {s t : Pipeline.System F Buffer}

/-- Where a step pushes nothing, an invariant of the rest is enough. -/
theorem Sound.main (sound : Sound s) (taken : stepMain s = some t) : Sound t := by
  cases stepMain_cases taken with
  | startReader position => exact ⟨fun _ is => (by cases is),sound.pushed,sound.queued,sound.popped⟩
  | startAnalysis position => exact ⟨sound.filled,sound.pushed,sound.queued,fun _ is => (by cases is)⟩
  | _ => exact ⟨sound.filled,sound.pushed,sound.queued,sound.popped⟩

theorem Sound.reader (sound : Sound s) {cycle : OPQCycle} {now : Nat} (taken : stepReader cycle now s = some t)
    (positive : s.readerSlab.t = some (.fill ⟨[],[]⟩) → 0 < s.frames_per_measurement) : Sound t := by
  cases stepReader_cases taken with
  | test position =>
    refine ⟨fun m is => ?_,sound.pushed,sound.queued,sound.popped⟩
    simp only [Slab.at] at is
    split_ifs at is
    · cases is
      rfl
    · cases is
  | @fill m position more =>
    refine ⟨fun m' is => ?_,sound.pushed,sound.queued,sound.popped⟩
    cases is
    simp [sound.filled m position]
  | @push m position full =>
    have same := sound.filled m position
    have usable : Usable m := by
      refine ⟨same,fun none => full ?_⟩
      obtain ⟨cycles,timestamps⟩ := m
      cases none
      cases List.eq_nil_of_length_eq_zero same.symm
      exact positive position
    refine ⟨fun _ is => (by cases is),fun m' member => ?_,fun m' member => ?_,fun m' is => ?_⟩
    · rcases List.mem_append.mp member with before | new
      · exact sound.pushed m' before
      · cases List.mem_singleton.mp new
        exact usable
    · rcases List.mem_append.mp member with before | new
      · exact List.mem_append_left _ (sound.queued m' before)
      · exact List.mem_append_right _ new
    · exact List.mem_append_left _ (sound.popped m' is)

theorem Sound.analysis (sound : Sound s) (taken : stepAnalysis env s = some t) : Sound t := by
  cases stepAnalysis_cases taken with
  | test position =>
    refine ⟨sound.filled,sound.pushed,sound.queued,fun m is => ?_⟩
    simp only [Slab.at] at is
    split_ifs at is <;> cases is
  | @pop m rest position front =>
    refine ⟨sound.filled,sound.pushed,fun m' member => ?_,fun m' is => ?_⟩
    · exact sound.queued m' (by rw [front]; exact List.mem_cons_of_mem _ member)
    · cases is
      exact sound.queued m (by rw [front]; exact List.mem_cons_self)
  | _ => exact ⟨sound.filled,sound.pushed,sound.queued,fun _ is => (by cases is)⟩

theorem Sound.trigger (sound : Sound s) (taken : stepTrigger s = some t) : Sound t := by
  cases stepTrigger_cases taken <;> exact ⟨sound.filled,sound.pushed,sound.queued,sound.popped⟩

end Steps

variable {env : Env F Buffer} {s t : Daemon F Buffer}

theorem sound_step {a : Action} (sound : Sound s.pipeline) (taken : step env s a = some t) (positive : Positive s a t) :
    Sound t.pipeline := by
  cases a with
  | setSetting frames =>
    rw [step] at taken
    split at taken
    · cases taken
      exact sound
    · cases taken
  | callback =>
    rw [step] at taken
    split at taken
    · cases taken
    · cases taken
      exact ⟨sound.filled,sound.pushed,sound.queued,sound.popped⟩
  | thread action =>
    cases action with
    | main =>
      obtain ⟨pipeline,stepped,rfl⟩ := Option.map_eq_some_iff.mp taken
      exact sound.main stepped
    | signal =>
      obtain ⟨pipeline,stepped,rfl⟩ := Option.map_eq_some_iff.mp taken
      obtain ⟨_,rfl⟩ := signal_cases stepped
      exact ⟨sound.filled,sound.pushed,sound.queued,sound.popped⟩
    | reader cycle now =>
      obtain ⟨pipeline,stepped,rfl⟩ := Option.map_eq_some_iff.mp taken
      exact sound.reader stepped positive
    | analysis =>
      obtain ⟨pipeline,stepped,rfl⟩ := Option.map_eq_some_iff.mp taken
      exact sound.analysis stepped
    | trigger =>
      obtain ⟨pipeline,stepped,rfl⟩ := Option.map_eq_some_iff.mp taken
      exact sound.trigger stepped
    | onFramesPerMeasurementChange frames => cases taken

/-- A measurement that is given up without a cycle is pushed, and is not usable. -/
theorem positive_of_handedOver {a : Action} (taken : step env s a = some t) (handed : HandedOver s a t) : Positive s a t := by
  cases a with
  | thread action =>
    cases action with
    | reader cycle now =>
      intro empty
      obtain ⟨pipeline,stepped,rfl⟩ := Option.map_eq_some_iff.mp taken
      cases stepReader_cases stepped with
      | test position => cases position.symm.trans empty
      | fill position more =>
        cases position.symm.trans empty
        exact more
      | push position full =>
        cases position.symm.trans empty
        have usable := handed.1 ⟨[],[]⟩ (List.mem_append_right _ (List.mem_singleton_self _))
        exact absurd rfl usable.2
    | _ => trivial
  | _ => trivial

/-! ### The copy -/

/-- The reader's callback is registered once, and the value that it was called with
    last, or is to be called with, is the setting. -/
structure Copied (s : Daemon F Buffer) : Prop where
  registered : s.settings.callbacks frames_per_measurement = [()]
  current : s.calls = [] → ∃ frames : BitVec 32, s.settings.find frames_per_measurement = some (.int frames) ∧
    s.pipeline.frames_per_measurement = frames.toInt
  next : s.calls ≠ [] → ∃ frames, s.settings.find frames_per_measurement = some (.int frames) ∧ s.calls = [frames]

theorem frames_kept {s t : Pipeline.System F Buffer} {action : Pipeline.Action}
    (other : ∀ frames, action ≠ .onFramesPerMeasurementChange frames) (taken : Pipeline.step env s action = some t) :
    t.frames_per_measurement = s.frames_per_measurement := by
  cases action with
  | main => cases stepMain_cases taken <;> rfl
  | signal =>
    obtain ⟨_,rfl⟩ := signal_cases taken
    rfl
  | reader cycle now => cases stepReader_cases taken <;> rfl
  | analysis => cases stepAnalysis_cases taken <;> rfl
  | trigger => cases stepTrigger_cases taken <;> rfl
  | onFramesPerMeasurementChange frames => exact absurd rfl (other frames)

theorem Copied.step {a : Action} (copied : Copied s) (taken : step env s a = some t) : Copied t := by
  cases a with
  | setSetting frames =>
    rw [Measurements.step] at taken
    split at taken
    · cases taken
      have find := find_setSetting readerRaises s.settings frames_per_measurement frames_per_measurement (.int frames)
      rw [if_pos trim_frames_per_measurement.symm] at find
      have called := setSetting_called readerRaises s.settings frames_per_measurement (.int frames)
      rw [trim_frames_per_measurement,copied.registered] at called
      have calls : ((s.settings.setSetting readerRaises frames_per_measurement (.int frames)).2.map fun _ => frames) =
          [frames] := by
        rw [called]
        rfl
      refine ⟨?_,fun none => (by cases calls.symm.trans none),fun _ => ⟨frames,find,calls⟩⟩
      show callbacks (s.settings.setSetting readerRaises frames_per_measurement (.int frames)).1 _ = _
      rw [← copied.registered,callbacks,callbacks,get_setSetting,trim_frames_per_measurement,if_pos rfl]
      cases s.settings.settings.get frames_per_measurement <;> rfl
    · cases taken
  | callback =>
    rw [Measurements.step] at taken
    split at taken
    · cases taken
    · next frames rest calling =>
      cases taken
      obtain ⟨frames',find,only⟩ := copied.next fun none => (by cases calling.symm.trans none)
      cases calling.symm.trans only
      exact ⟨copied.registered,fun _ => ⟨frames,find,rfl⟩,fun some => absurd rfl some⟩
  | thread action =>
    have kept : t.settings = s.settings ∧ t.calls = s.calls ∧
        t.pipeline.frames_per_measurement = s.pipeline.frames_per_measurement := by
      cases action with
      | onFramesPerMeasurementChange frames => cases taken
      | _ =>
        obtain ⟨pipeline,stepped,rfl⟩ := Option.map_eq_some_iff.mp taken
        exact ⟨rfl,rfl,frames_kept (fun _ same => by cases same) stepped⟩
    obtain ⟨settings,calls,frames⟩ := kept
    refine ⟨?_,?_,?_⟩
    · rw [settings]
      exact copied.registered
    · rw [settings,calls,frames]
      exact copied.current
    · rw [settings,calls]
      exact copied.next

/-- While no call of `setSetting` is under way, the copy is the setting. -/
theorem copy_is_setting {analysis : Analysis.LocalAnalysis} {redis : RedisSerializer Buffer} {frames : BitVec 32}
    (started : start analysis redis frames = some s) {actions : List Action} (ran : run (step env) s actions = some t)
    (idle : t.calls = []) : t.pipeline.frames_per_measurement = (t.settings.getInt frames_per_measurement).toInt := by
  have copied : Copied t := by
    refine run_invariant (fun _ _ _ => Copied.step) ?_ ran
    cases started
    exact ⟨rfl,fun _ => ⟨frames,rfl,rfl⟩,fun some => absurd rfl some⟩
  obtain ⟨value,find,copy⟩ := copied.current idle
  rw [copy,getInt_frames find]

/-! ### The measurements -/

/-- Whatever the setting is at first and whenever it is set, all measurements are usable
    exactly if the reader's copy is positive whenever it starts to fill one. -/
theorem usable_iff_positive (env : Env F Buffer) (analysis : Analysis.LocalAnalysis) (redis : RedisSerializer Buffer)
    (frames : BitVec 32) : ∃ s : Daemon F Buffer, start analysis redis frames = some s ∧
      ∀ actions, Along (step env) HandedOver s actions ↔ Along (step env) Positive s actions := by
  refine ⟨_,rfl,fun actions => ?_⟩
  refine (along_iff (fun s => Sound s.pipeline) (fun _ _ _ => sound_step) ?_ (sound_init ..)).symm
  intro s a t sound taken
  constructor
  · intro positive
    have next := sound_step sound taken positive
    exact ⟨next.pushed,fun m is => next.pushed m (next.popped m is)⟩
  · exact positive_of_handedOver taken

/-- With the setting 0 the reader pushes a measurement without cycles. -/
theorem zero_unusable : ¬ ∀ s, start (F := Unit) (.new 0) (.new 2 100 10) 0 = some s →
    Along (step Shutdown.plainEnv) HandedOver s
      [.thread .main,.thread .main,.thread (.reader (Analysis.firstSample 0) 0),
        .thread (.reader (Analysis.firstSample 0) 0)] := by
  intro always
  have handed := ((((always _ rfl _ rfl).2 _ rfl).2 _ rfl).2 _ rfl).1.1
  exact (handed ⟨[],[]⟩ (List.mem_singleton_self _)).2 rfl

end Opqbox.Measurements
