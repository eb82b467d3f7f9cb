import Opqbox.Firmware

/-!
The marks of the GPS pulses: while a frame tests the flag between two pulses, and
no pulse comes from the copy of the counter into a frame up to the clearing of
the flag, the marked frames carry the captured counters, each once and in order.
-/
namespace Opqbox.Firmware
open Opqbox.Runs

/-- The counter of a frame, if it is marked with a pulse. -/
def OPQ_Frame.mark (f : OPQ_Frame) : List (BitVec 16) :=
  if f.flags = OPQ_GPS_THIS_FRAME then [f.last_gps_counter] else []

/-- The counters of the marked frames. -/
def marked (frames : List OPQ_Frame) : List (BitVec 16) := frames.flatMap OPQ_Frame.mark

/-- The counter of a pulse that no frame has taken yet. -/
def OPQ_Frame_Buffer.pending (b : OPQ_Frame_Buffer) : List (BitVec 16) :=
  if b.gps_pulse_flag = 0 then [] else [b.gps_last_counter]

namespace State

/-- The frame being filled. -/
def filling (s : State) : OPQ_Frame := s.frameBuffer.frames s.frameBuffer.head

/-- The counter of a pulse that the frame being filled has taken. -/
def opened (s : State) : List (BitVec 16) :=
  match s.sdadc with
  | .markFrame => [s.filling.last_gps_counter]
  | .resetSample | .advanceHead => s.filling.mark
  | _ => []

end State

/-- The counter is copied and the flag not yet cleared. -/
def Callback.copied : Callback → Bool
  | .copyCounter | .clearFlags | .testPulse | .clearPulse => true
  | _ => false

/-- Whether a capture has come since a frame last tested the flag. -/
def untested (s : State) (a : Action) (since : Bool) : Bool :=
  match a with
  | .capture _ => true
  | .callback _ => since && decide (s.sdadc ≠ .testPulse)
  | _ => since

/-- A frame has tested the flag since the capture before, and the counter is not
    copied with the flag still to be tested or cleared. -/
def Apart (p : State × Bool) (a : Action) (_ : State × Bool) : Prop :=
  match a with
  | .capture _ => p.2 = false ∧ p.1.sdadc.copied = false
  | _ => True

instance (p : State × Bool) (a : Action) (q : State × Bool) : Decidable (Apart p a q) :=
  match a with
  | .capture _ => inferInstanceAs (Decidable (_ ∧ _))
  | .sample _ => .isTrue trivial
  | .callback _ => .isTrue trivial
  | .main => .isTrue trivial
  | .spi => .isTrue trivial
  | .close => .isTrue trivial

/-- The flags of the frame are cleared and not yet set. -/
def Callback.unmarked : Callback → Bool
  | .testPulse | .clearPulse | .markFrame => true
  | _ => false

structure Attributes (s : State) : Prop where
  pulses : s.captured = marked s.completed ++ s.opened ++ s.frameBuffer.pending
  copied : s.sdadc.copied → s.filling.last_gps_counter = s.frameBuffer.gps_last_counter
  unmarked : s.sdadc.unmarked → s.filling.flags = 0
  pulse : s.sdadc = .clearPulse → s.frameBuffer.gps_pulse_flag ≠ 0

theorem marked_append (frames : List OPQ_Frame) (f : OPQ_Frame) : marked (frames ++ [f]) = marked frames ++ f.mark := by
  simp [marked]

theorem start_attributes {memory : OPQ_Frame_Buffer} (clear : memory.gps_pulse_flag = 0) : Attributes (start memory) := by
  constructor
  · show [] = marked [] ++ [] ++ (init_OPQ_RunTime memory).pending
    simp [OPQ_Frame_Buffer.pending,init_OPQ_RunTime,clear,marked]
  · exact nofun
  · exact nofun
  · exact nofun

theorem filling_atHead (b : OPQ_Frame_Buffer) (change : OPQ_Frame → OPQ_Frame) :
    (b.atHead change).frames (b.atHead change).head = change (b.frames b.head) := b.atHead_self change

/-- A statement of the sample interrupt. The frame carries the counter of the
    pulse from the copy on, as no pulse comes before the flag is tested. -/
theorem Attributes.callback {s t : State} {htim4 : BitVec 16} (attributes : Attributes s) (taken : s.callback htim4 = some t) :
    Attributes t := by
  obtain ⟨pulses,copied,unmarked,pulse⟩ := attributes
  rw [State.callback] at taken
  rw [State.opened] at pulses
  cases at_ : s.sdadc with
  | idle => simp [at_] at taken
  | store v | countSample =>
    simp only [at_,Option.some.injEq] at taken pulses
    subst taken
    exact ⟨pulses,by rintro ⟨⟩,by rintro ⟨⟩,by rintro ⟨⟩⟩
  | testSample =>
    simp only [at_,Option.some.injEq] at taken pulses
    subst taken
    split_ifs
    · exact ⟨pulses,by rintro ⟨⟩,by rintro ⟨⟩,by rintro ⟨⟩⟩
    · exact ⟨pulses,by rintro ⟨⟩,by rintro ⟨⟩,by rintro ⟨⟩⟩
  | copyGpsCounter =>
    simp only [at_,Option.some.injEq] at taken pulses
    subst taken
    exact ⟨pulses,fun _ => congrArg OPQ_Frame.last_gps_counter (filling_atHead ..),by rintro ⟨⟩,by rintro ⟨⟩⟩
  | copyCounter =>
    simp only [at_,Option.some.injEq] at taken pulses
    subst taken
    refine ⟨pulses,fun _ => ?_,by rintro ⟨⟩,by rintro ⟨⟩⟩
    exact (congrArg OPQ_Frame.last_gps_counter (filling_atHead ..)).trans (copied (by rw [at_]; rfl))
  | clearFlags =>
    simp only [at_,Option.some.injEq] at taken pulses
    subst taken
    refine ⟨pulses,fun _ => ?_,fun _ => congrArg OPQ_Frame.flags (filling_atHead ..),by rintro ⟨⟩⟩
    exact (congrArg OPQ_Frame.last_gps_counter (filling_atHead ..)).trans (copied (by rw [at_]; rfl))
  | testPulse =>
    have cleared : s.filling.flags = 0 := unmarked (by rw [at_]; rfl)
    simp only [at_,Option.some.injEq] at taken pulses
    subst taken
    by_cases flag : s.frameBuffer.gps_pulse_flag = 0
    · simp only [flag,ne_eq,not_true_eq_false,if_false]
      refine ⟨?_,by rintro ⟨⟩,by rintro ⟨⟩,by rintro ⟨⟩⟩
      show s.captured = marked s.completed ++ s.filling.mark ++ _
      rw [OPQ_Frame.mark,cleared,if_neg (by decide)]
      exact pulses
    · simp only [flag,ne_eq,not_false_eq_true,if_true]
      exact ⟨pulses,fun _ => copied (by rw [at_]; rfl),fun _ => cleared,fun _ => flag⟩
  | clearPulse =>
    have counter : s.filling.last_gps_counter = s.frameBuffer.gps_last_counter := copied (by rw [at_]; rfl)
    simp only [at_,Option.some.injEq] at taken pulses
    subst taken
    refine ⟨?_,by rintro ⟨⟩,fun _ => unmarked (by rw [at_]; rfl),by rintro ⟨⟩⟩
    show s.captured = marked s.completed ++ [s.filling.last_gps_counter] ++ []
    rw [pulses,counter,OPQ_Frame_Buffer.pending,if_neg (pulse at_),List.append_nil,List.append_nil]
  | markFrame =>
    simp only [at_,Option.some.injEq] at taken pulses
    subst taken
    refine ⟨?_,by rintro ⟨⟩,by rintro ⟨⟩,by rintro ⟨⟩⟩
    have filled := filling_atHead s.frameBuffer fun f => { f with flags := OPQ_GPS_THIS_FRAME }
    show s.captured = marked s.completed ++ OPQ_Frame.mark _ ++ _
    rw [State.filling,filled,OPQ_Frame.mark,if_pos rfl]
    exact pulses
  | resetSample =>
    simp only [at_,Option.some.injEq] at taken pulses
    subst taken
    exact ⟨pulses,by rintro ⟨⟩,by rintro ⟨⟩,by rintro ⟨⟩⟩
  | advanceHead =>
    simp only [at_,Option.some.injEq] at taken pulses
    subst taken
    refine ⟨?_,by rintro ⟨⟩,by rintro ⟨⟩,by rintro ⟨⟩⟩
    show s.captured = marked (s.completed ++ [s.filling]) ++ [] ++ _
    rw [marked_append,List.append_nil]
    exact pulses
  | wrapHead =>
    simp only [at_,Option.some.injEq] at taken pulses
    subst taken
    split_ifs
    · exact ⟨pulses,by rintro ⟨⟩,by rintro ⟨⟩,by rintro ⟨⟩⟩
    · exact ⟨pulses,by rintro ⟨⟩,by rintro ⟨⟩,by rintro ⟨⟩⟩

/-- A capture that finds the flag clear and comes before the copy of the counter
    or after the test of the flag. -/
theorem Attributes.capture {s : State} (attributes : Attributes s) (v : BitVec 16) (clear : s.frameBuffer.gps_pulse_flag = 0)
    (uncopied : s.sdadc.copied = false) : Attributes (s.HAL_TIM_IC_CaptureCallback v) := by
  obtain ⟨pulses,copied,unmarked,pulse⟩ := attributes
  refine ⟨?_,?_,unmarked,fun _ => Nat.one_ne_zero⟩
  · show s.captured ++ [v] = marked s.completed ++ s.opened ++ [v]
    rw [pulses,OPQ_Frame_Buffer.pending,if_pos clear,List.append_nil]
  · intro copying
    change s.sdadc.copied = true at copying
    rw [uncopied] at copying
    cases copying

theorem step_attributes {s t : State} {a : Action} (attributes : Attributes s) (taken : step s a = some t)
    (undisturbed : ∀ v, a = .capture v → s.frameBuffer.gps_pulse_flag = 0 ∧ s.sdadc.copied = false) : Attributes t := by
  cases a with
  | sample v =>
    obtain ⟨idle,same⟩ := Option.ite_none_right_eq_some.mp taken
    cases same
    have pulses := attributes.pulses
    rw [State.opened,idle] at pulses
    exact ⟨pulses,nofun,nofun,nofun⟩
  | callback htim4 => exact attributes.callback taken
  | capture v =>
    cases taken
    obtain ⟨clear,uncopied⟩ := undisturbed v rfl
    exact attributes.capture v clear uncopied
  | main =>
    obtain ⟨idle,same⟩ := Option.ite_none_right_eq_some.mp taken
    cases same
    obtain ⟨tail,buffer⟩ := s.mainLoop_frameBuffer
    obtain ⟨sdadc,_,completed,captured⟩ := s.mainLoop_histories
    have pulses := attributes.pulses
    rw [State.opened,idle] at pulses
    rw [idle] at sdadc
    refine ⟨?_,?_,?_,?_⟩
    · rw [captured,completed,State.opened,sdadc,buffer]
      exact pulses
    · rw [sdadc]
      exact nofun
    · rw [sdadc]
      exact nofun
    · rw [sdadc]
      exact nofun
  | spi =>
    obtain ⟨_,same⟩ := Option.ite_none_right_eq_some.mp taken
    cases same
    exact ⟨attributes.pulses,attributes.copied,attributes.unmarked,attributes.pulse⟩
  | close =>
    obtain ⟨_,same⟩ := Option.ite_none_right_eq_some.mp taken
    cases same
    exact ⟨attributes.pulses,attributes.copied,attributes.unmarked,attributes.pulse⟩

/-- The attribution, with the note of the last capture: it is untested where the
    flag is set and no frame has taken the pulse. -/
structure Noted (p : State × Bool) : Prop where
  attributes : Attributes p.1
  flag : p.2 = true ↔ p.1.frameBuffer.gps_pulse_flag ≠ 0 ∧ p.1.sdadc ≠ .clearPulse

/-- Where the last capture is tested, the flag is clear outside of the race. -/
theorem Noted.clear {s : State} {since : Bool} (noted : Noted (s,since)) (tested : since = false) (uncopied : s.sdadc.copied = false) :
    s.frameBuffer.gps_pulse_flag = 0 := by
  by_contra set
  have outside : s.sdadc ≠ .clearPulse := fun at_ => by rw [at_] at uncopied; cases uncopied
  have untested : since = true := noted.flag.mpr ⟨set,outside⟩
  rw [tested] at untested
  cases untested

/-- The test of the flag and its clearing are the only statements that matter to
    the note. -/
theorem callback_flag {s t : State} {htim4 : BitVec 16} {since : Bool}
    (flag : since = true ↔ s.frameBuffer.gps_pulse_flag ≠ 0 ∧ s.sdadc ≠ .clearPulse) (taken : s.callback htim4 = some t) :
    untested s (.callback htim4) since = true ↔ t.frameBuffer.gps_pulse_flag ≠ 0 ∧ t.sdadc ≠ .clearPulse := by
  rw [State.callback] at taken
  cases at_ : s.sdadc with
  | idle => simp [at_] at taken
  | testPulse =>
    simp only [at_,Option.some.injEq] at taken
    subst taken
    by_cases set : s.frameBuffer.gps_pulse_flag = 0 <;> simp [untested,at_,set]
  | clearPulse =>
    simp only [at_,Option.some.injEq] at taken
    subst taken
    simp [untested,at_,flag]
  | testSample | wrapHead =>
    simp only [at_,Option.some.injEq] at taken
    subst taken
    split_ifs <;> simp [untested,at_,flag]
  | _ =>
    simp only [at_,Option.some.injEq] at taken
    subst taken
    simp [untested,at_,flag,OPQ_Frame_Buffer.atHead]

theorem step_noted {p q : State × Bool} {a : Action} (noted : Noted p) (taken : noting untested step p a = some q)
    (apart : Apart p a q) : Noted q := by
  obtain ⟨s,since⟩ := p
  obtain ⟨t,later⟩ := q
  obtain ⟨taken,rfl⟩ := noting_inv untested taken
  have undisturbed : ∀ v, a = .capture v → s.frameBuffer.gps_pulse_flag = 0 ∧ s.sdadc.copied = false := by
    rintro v rfl
    obtain ⟨tested,uncopied⟩ := apart
    exact ⟨noted.clear tested uncopied,uncopied⟩
  refine ⟨step_attributes noted.attributes taken undisturbed,?_⟩
  cases a with
  | sample v =>
    obtain ⟨idle,same⟩ := Option.ite_none_right_eq_some.mp taken
    cases same
    have flag : since = true ↔ s.frameBuffer.gps_pulse_flag ≠ 0 ∧ s.sdadc ≠ .clearPulse := noted.flag
    rw [idle] at flag
    simpa [untested] using flag
  | callback htim4 => exact callback_flag noted.flag taken
  | capture v =>
    obtain ⟨_,uncopied⟩ := undisturbed v rfl
    cases taken
    have outside : s.sdadc ≠ .clearPulse := fun at_ => by rw [at_] at uncopied; cases uncopied
    exact ⟨fun _ => ⟨Nat.one_ne_zero,outside⟩,fun _ => rfl⟩
  | main =>
    obtain ⟨_,same⟩ := Option.ite_none_right_eq_some.mp taken
    cases same
    obtain ⟨tail,buffer⟩ := s.mainLoop_frameBuffer
    show since = true ↔ s.mainLoop.frameBuffer.gps_pulse_flag ≠ 0 ∧ s.mainLoop.sdadc ≠ .clearPulse
    rw [buffer,s.mainLoop_histories.1]
    exact noted.flag
  | spi =>
    obtain ⟨_,same⟩ := Option.ite_none_right_eq_some.mp taken
    cases same
    exact noted.flag
  | close =>
    obtain ⟨_,same⟩ := Option.ite_none_right_eq_some.mp taken
    cases same
    exact noted.flag

/-- The marked frames carry the captured counters, one frame for each pulse and in
    order. Whenever the sample interrupt is not running, all pulses are marked but
    the last, and this one too where a frame has tested the flag since. -/
theorem pulses_marked {memory : OPQ_Frame_Buffer} (clear : memory.gps_pulse_flag = 0) {actions : List Action} {s : State}
    (ran : run step (start memory) actions = some s)
    (apart : Along (noting untested step) Apart (start memory,false) actions) :
    ∃ since, run (noting untested step) (start memory,false) actions = some (s,since) ∧ marked s.completed <+: s.captured ∧
      (s.sdadc = .idle →
        s.captured = marked s.completed ++ if since then [s.frameBuffer.gps_last_counter] else []) := by
  have before : Noted (start memory,false) := ⟨start_attributes clear,Bool.false_ne_true.elim,fun set => absurd clear set.1⟩
  obtain ⟨since,run_noted⟩ := run_noting untested ran false
  have noted := run_invariant_along Noted (fun _ _ _ => step_noted) before apart run_noted
  have pulses := noted.attributes.pulses
  refine ⟨since,run_noted,?_,?_⟩
  · rw [pulses,List.append_assoc]
    exact List.prefix_append ..
  · intro idle
    rw [State.opened,idle,List.append_nil,OPQ_Frame_Buffer.pending] at pulses
    cases since with
    | true => rwa [if_neg (noted.flag.mp rfl).1] at pulses
    | false =>
      have uncopied : s.sdadc.copied = false := by rw [idle]; rfl
      rwa [if_pos (noted.clear rfl uncopied)] at pulses

/-- A pulse, the frame that takes it, and the next pulse with its frame. -/
def twoPulses : List Action :=
  .capture 5 :: fillFrame 7 ++ List.replicate 2 (.callback 0) ++ .capture 6 :: fillFrame 8 ++ List.replicate 2 (.callback 0)

set_option maxRecDepth 20000 in
theorem pulses_marked_two : ∃ s, run step (start zeroed) twoPulses = some s ∧ s.captured = [5,6] ∧ marked s.completed = [5,6] := by
  have returns : (run step (start zeroed) twoPulses).map (fun s => (s.sdadc,s.captured)) = some (.idle,[5,6]) := by
    decide +kernel
  have noted : (run (noting untested step) (start zeroed,false) twoPulses).map Prod.snd = some false := by decide +kernel
  obtain ⟨s,ran,seen⟩ := Option.map_eq_some_iff.mp returns
  obtain ⟨idle,captured⟩ := Prod.mk.inj seen
  obtain ⟨since,run_noted,_,pulses⟩ := pulses_marked rfl ran (by decide +kernel)
  have tested : since = false := by simpa [run_noted] using noted
  have attributed := pulses idle
  rw [tested,captured] at attributed
  exact ⟨s,ran,captured,by simpa using attributed.symm⟩

/-- A frame whose last sample is followed by a pulse after the copy of the counter. -/
def disturbedFrame : List Action :=
  (List.replicate 199 (.sample 7 :: List.replicate 3 (.callback 0))).flatten ++
    .sample 7 :: List.replicate 4 (.callback 0) ++ .capture 5 :: List.replicate 8 (.callback 0)

set_option maxRecDepth 20000 in
/-- The frame is marked with the pulse, but carries the counter from before it. -/
theorem pulse_misattributed : ((run step (start zeroed) disturbedFrame).map
    fun s => (s.sdadc,s.captured,marked s.completed,s.frameBuffer.pending)) = some (.idle,[5],[0],[]) := by
  decide +kernel

end Opqbox.Firmware
