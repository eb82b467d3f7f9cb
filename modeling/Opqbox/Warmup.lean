import Opqbox.Analysis
import Opqbox.Runs

/-!
The initialization of the filters of `LocalAnalysis`. Before the first state is
left a whole cycle went through the first filter, but the second one is left after
any measurement, and fills the second filter only where this has four cycles
(`primed_iff_enough`).
-/
namespace Opqbox.Analysis
open Opqbox.Filters Opqbox.Fir Opqbox.OpqData Opqbox.Runs

/-- A measurement, which has a cycle, is consumed. -/
def step (a : LocalAnalysis) (m : OPQMeasurement) : Option LocalAnalysis :=
  if m.cycles.length = 0 then none else some (a.consume m)

/-- The samples put into `adf`, newest first. -/
def samples (events : List Event) : List ℚ := inputs (events.map Event.use)

/-- How many values were put into `lpf` when `adf` had got as many samples as it
    has taps. -/
def primed : List Event → Nat
  | [] => 0
  | .put _ :: events => primed events
  | .feed _ :: events => primed events + if 128 ≤ (samples events).length then 1 else 0
  | .append _ :: events => primed events

/-- Both filters have got as many values as they have taps, the second one all from
    the full first one, so no slot of their histories is left from the start. -/
structure LocalAnalysis.Primed (a : LocalAnalysis) : Prop where
  adf : 128 ≤ (samples a.events).length
  lpf : 64 ≤ primed a.events
  adf_filled : Filled 128 a.adf.history (samples a.events)
  lpf_filled : Filled 64 a.lpf.history (fed a.events)

/-- When the analysis is running, its filters are primed. -/
def Ready (_ : LocalAnalysis) (_ : OPQMeasurement) (b : LocalAnalysis) : Prop := b.state = .RUNNING → b.Primed

/-- What is consumed in the second state are 64 values in all, 20 from each cycle. -/
def Enough (a : LocalAnalysis) (m : OPQMeasurement) (_ : LocalAnalysis) : Prop :=
  a.state = .INITIALIZING_LOWPASS_FILTER → 64 ≤ (fed a.events).length + m.cycles.length * 20

namespace LocalAnalysis

/-! ### How many values are put into the filters -/

/-- What each sample adds to a number, all samples of a measurement add. -/
theorem forSamples_adds {body : LocalAnalysis → Nat → ℚ → LocalAnalysis} (count : LocalAnalysis → Nat) (weight : Nat → Nat)
    (adds : ∀ a i x, count (body a i x) = count a + weight i) (a : LocalAnalysis) (m : OPQMeasurement) :
    count (a.forSamples body m) = count a + m.cycles.length * ((List.range SAMPLES_PER_CYCLE).map weight).sum := by
  have frame (values : List (BitVec 16)) (first : Nat) (a : LocalAnalysis) :
      count ((values.zipIdx first).foldl (fun self x => body self x.2 x.1.toInt) a) =
        count a + ((List.range' first values.length).map weight).sum := by
    induction values generalizing first a with
    | nil => rfl
    | cons x rest ih =>
      rw [List.zipIdx_cons,List.foldl_cons,ih,adds,List.length_cons,List.range'_succ,List.map_cons,List.sum_cons,Nat.add_assoc]
  rw [forSamples]
  generalize m.cycles = cycles
  induction cycles generalizing a with
  | nil => simp
  | cons c cycles ih =>
    rw [List.foldl_cons,ih,frame,Vector.length_toList,← List.range_eq_range',List.length_cons,Nat.succ_mul]
    omega

/-- Every tenth sample of a cycle is kept. -/
theorem kept_per_cycle : ((List.range SAMPLES_PER_CYCLE).map fun i => if i % DECIMATION_FACTOR = 0 then 1 else 0).sum = 20 := by
  decide +kernel

theorem samples_per_cycle : ((List.range SAMPLES_PER_CYCLE).map fun _ => 1).sum = 200 := by decide +kernel

theorem samples_primeAdf (a : LocalAnalysis) (m : OPQMeasurement) :
    (samples (a.forSamples primeAdf m).events).length = (samples a.events).length + m.cycles.length * 200 := by
  rw [← samples_per_cycle]
  exact forSamples_adds (fun a => (samples a.events).length) (fun _ => 1) (fun _ _ _ => rfl) a m

theorem fed_primeLpf (a : LocalAnalysis) (m : OPQMeasurement) :
    (fed (a.forSamples primeLpf m).events).length = (fed a.events).length + m.cycles.length * 20 := by
  rw [← kept_per_cycle]
  refine forSamples_adds (fun a => (fed a.events).length) _ (fun a i x => ?_) a m
  rw [primeLpf]
  split_ifs <;> rfl

/-! ### The states -/

/-- Once `adf` is full, every value put into `lpf` counts. -/
def Full (a : LocalAnalysis) : Prop := 128 ≤ (samples a.events).length ∧ primed a.events = (fed a.events).length

variable {a : LocalAnalysis} {m : OPQMeasurement}

theorem Full.putAdf (full : a.Full) (x : ℚ) : (a.putAdf x).Full :=
  ⟨full.1.trans (Nat.le_succ _),full.2⟩

theorem Full.putLpf (full : a.Full) (v : ℚ) : (a.putLpf v).Full := by
  refine ⟨full.1,?_⟩
  show primed a.events + (if 128 ≤ (samples a.events).length then 1 else 0) = (fed a.events).length + 1
  rw [if_pos full.1,full.2]

theorem Full.primeLpf (full : a.Full) (i : Nat) (x : ℚ) : (a.primeLpf i x).Full := by
  rw [LocalAnalysis.primeLpf]
  split_ifs
  · exact (full.putAdf x).putLpf _
  · exact full.putAdf x

theorem Full.downSample (full : a.Full) (i : Nat) (x : ℚ) : (a.downSample i x).Full := by
  rw [LocalAnalysis.downSample]
  split_ifs
  · exact (full.putAdf x).putLpf _
  · exact full.putAdf x

theorem primed_le_fed (events : List Event) : primed events ≤ (fed events).length := by
  induction events with
  | nil => exact Nat.le_refl 0
  | cons event events ih =>
    cases event with
    | put x => exact ih
    | feed v =>
      show primed events + _ ≤ (fed events).length + 1
      split_ifs <;> omega
    | append v => exact ih

/-- What holds between measurements. The counter of the second state counts the
    values put into `lpf`, 20 for each cycle. -/
structure Warm (a : LocalAnalysis) : Prop where
  filtered : a.Filtered
  first : a.state = .INITIALIZING_DOWNSAMPLING_FILTER → fed a.events = []
  full : a.state ≠ .INITIALIZING_DOWNSAMPLING_FILTER → a.Full
  counted : a.state = .INITIALIZING_LOWPASS_FILTER →
    a.samplesProcessed = BitVec.ofNat 32 (fed a.events).length ∧ ∃ cycles, (fed a.events).length = cycles * 20

theorem warm_new (samplesProcessed : BitVec 32) : (new samplesProcessed).Warm where
  filtered := new_filtered samplesProcessed
  first _ := rfl
  full other := absurd rfl other
  counted is := nomatch is

/-- A count of at most 1 after a cycle is one that has wrapped around. -/
theorem wrapped_enough {earlier cycles : Nat} (cycle : cycles ≠ 0)
    (few : ¬ (earlier * 20 + cycles * 20) % 2 ^ 32 > LocalAnalysisState.INITIALIZING_LOWPASS_FILTER.value) :
    64 ≤ earlier * 20 + cycles * 20 := by
  refine Nat.le_of_not_lt fun less => few ?_
  rw [Nat.mod_eq_of_lt (less.trans (by decide))]
  show 1 < earlier * 20 + cycles * 20
  omega

/-- A measurement in the first state fills `adf`, and none of it goes into `lpf`. -/
theorem Warm.consume_first (warm : a.Warm) (is : a.state = .INITIALIZING_DOWNSAMPLING_FILTER) (cycle : m.cycles.length ≠ 0) :
    (a.consume m).Warm ∧ (a.consume m).state ≠ .RUNNING ∧ fed (a.consume m).events = [] := by
  have filtered := warm.filtered.consume m
  have sampled := samples_primeAdf a m
  have unfed : fed (a.forSamples LocalAnalysis.primeAdf m).events = [] :=
    forSamples_keeps (P := fun a => fed a.events = [])
      (fun a unfed i x => show fed (a.primeAdf i x).events = [] from unfed) (warm.first is) m
  have state : (a.forSamples LocalAnalysis.primeAdf m).state = .INITIALIZING_DOWNSAMPLING_FILTER :=
    (forSamples_state (fun a i x => show (a.primeAdf i x).state = a.state from rfl) a m).trans is
  have counts := primed_le_fed (a.forSamples LocalAnalysis.primeAdf m).events
  rw [unfed] at counts
  rw [LocalAnalysis.consume,if_pos (by simp [is]),LocalAnalysis.initFilter,is] at filtered ⊢
  dsimp only at filtered ⊢
  split_ifs at filtered ⊢ with enough
  · refine ⟨⟨filtered,fun is => (by cases is),fun _ => ⟨?_,?_⟩,fun _ => ?_⟩,fun is => (by cases is),unfed⟩
    · show 128 ≤ (samples (a.forSamples LocalAnalysis.primeAdf m).events).length
      omega
    · show primed (a.forSamples LocalAnalysis.primeAdf m).events = (fed (a.forSamples LocalAnalysis.primeAdf m).events).length
      rw [unfed]
      exact Nat.le_zero.mp counts
    · show (0 : BitVec 32) = BitVec.ofNat 32 (fed (a.forSamples LocalAnalysis.primeAdf m).events).length ∧
        ∃ cycles, (fed (a.forSamples LocalAnalysis.primeAdf m).events).length = cycles * 20
      rw [unfed]
      exact ⟨rfl,0,rfl⟩
  · rw [state]
    refine ⟨⟨filtered,fun _ => unfed,fun other => absurd state other,fun other => ?_⟩,fun is => (by cases is),unfed⟩
    rw [state] at other
    cases other

/-- In the second state the values put into `lpf` are counted; where the state is not
    left, the counter has wrapped around. -/
theorem Warm.consume_second (warm : a.Warm) (is : a.state = .INITIALIZING_LOWPASS_FILTER) (cycle : m.cycles.length ≠ 0) :
    (a.consume m).Warm ∧ (fed (a.consume m).events).length = (fed a.events).length + m.cycles.length * 20 ∧
      ((a.consume m).state ≠ .RUNNING → 64 ≤ (fed a.events).length + m.cycles.length * 20) := by
  have filtered := warm.filtered.consume m
  have more := fed_primeLpf a m
  have full : (a.forSamples LocalAnalysis.primeLpf m).Full :=
    forSamples_keeps (P := Full) (fun _ full i x => full.primeLpf i x) (warm.full (by simp [is])) m
  have state : (a.forSamples LocalAnalysis.primeLpf m).state = .INITIALIZING_LOWPASS_FILTER := by
    refine (forSamples_state (fun a i x => ?_) a m).trans is
    rw [LocalAnalysis.primeLpf]
    split_ifs <;> rfl
  obtain ⟨counter,cycles,twenty⟩ := warm.counted is
  have counted : (a.forSamples LocalAnalysis.primeLpf m).samplesProcessed =
      BitVec.ofNat 32 (fed (a.forSamples LocalAnalysis.primeLpf m).events).length := by
    refine forSamples_keeps (P := fun a => a.samplesProcessed = BitVec.ofNat 32 (fed a.events).length)
      (fun a counted i x => ?_) counter m
    rw [LocalAnalysis.primeLpf]
    split_ifs
    · show a.samplesProcessed + 1 = BitVec.ofNat 32 ((fed a.events).length + 1)
      rw [counted,BitVec.ofNat_add]
      rfl
    · exact counted
  rw [LocalAnalysis.consume,if_pos (by simp [is]),LocalAnalysis.initFilter,is] at filtered ⊢
  dsimp only at filtered ⊢
  split_ifs at filtered ⊢ with enough
  · exact ⟨⟨filtered,fun is => (by cases is),fun _ => full,fun is => (by cases is)⟩,more,fun other => absurd rfl other⟩
  · refine ⟨⟨filtered,fun other => ?_,fun _ => full,fun _ => ⟨counted,cycles + m.cycles.length,by omega⟩⟩,more,fun _ => ?_⟩
    · rw [state] at other
      cases other
    · rw [counted,more,twenty,BitVec.toNat_ofNat] at enough
      rw [twenty]
      exact wrapped_enough cycle enough

/-- A measurement in the last state only adds to what was put into the filters. -/
theorem Warm.consume_running (warm : a.Warm) (is : a.state = .RUNNING) :
    (a.consume m).Warm ∧ (a.consume m).state = .RUNNING ∧ (64 ≤ primed a.events → 64 ≤ primed (a.consume m).events) := by
  have filtered := warm.filtered.consume m
  have state := LocalAnalysis.consume_running is m
  have full : (a.consume m).Full := by
    rw [LocalAnalysis.consume,if_neg (by simp [is])]
    have cleared : ({ a with downSampled := [] } : LocalAnalysis).Full := warm.full (by simp [is])
    exact forSamples_keeps (P := Full) (fun _ full i x => full.downSample i x) cleared m
  refine ⟨⟨filtered,fun other => ?_,fun _ => full,fun other => ?_⟩,state,?_⟩
  · rw [state] at other
    cases other
  · rw [state] at other
    cases other
  · intro least
    rw [LocalAnalysis.consume,if_neg (by simp [is])]
    have cleared : 64 ≤ primed ({ a with downSampled := [] } : LocalAnalysis).events := least
    refine forSamples_keeps (P := fun a => 64 ≤ primed a.events) (fun a least i x => ?_) cleared m
    rw [LocalAnalysis.downSample]
    split_ifs
    · exact least.trans (Nat.le_add_right _ _)
    · exact least

/-- Enough values make the filters primed. -/
theorem Warm.primed (warm : a.Warm) (is : a.state = .RUNNING) (enough : 64 ≤ Analysis.primed a.events) : a.Primed := by
  obtain ⟨adf,all⟩ := warm.full (by simp [is])
  exact ⟨adf,enough,warm.filtered.adf.holds.filled adf,warm.filtered.lpf.holds.filled (by omega)⟩

end LocalAnalysis

theorem warm_step {a b : LocalAnalysis} {m : OPQMeasurement} (warm : a.Warm) (ran : a.state = .RUNNING → 64 ≤ primed a.events)
    (taken : step a m = some b) (enough : Enough a m b) : b.Warm ∧ (b.state = .RUNNING → 64 ≤ primed b.events) := by
  obtain ⟨cycle,same⟩ := Option.ite_none_left_eq_some.mp taken
  cases same
  cases state : a.state with
  | INITIALIZING_DOWNSAMPLING_FILTER =>
    obtain ⟨next,other,_⟩ := warm.consume_first state cycle
    exact ⟨next,fun is => absurd is other⟩
  | INITIALIZING_LOWPASS_FILTER =>
    obtain ⟨next,more,_⟩ := warm.consume_second state cycle
    refine ⟨next,fun is => ?_⟩
    have least := enough state
    rw [(next.full (by simp [is])).2,more]
    omega
  | RUNNING =>
    obtain ⟨next,_,kept⟩ := warm.consume_running state
    exact ⟨next,fun _ => kept (ran state)⟩

/-- Whatever the counter starts with, the filters are primed when the analysis runs
    exactly if the second state consumes four cycles. -/
theorem primed_iff_enough (samplesProcessed : BitVec 32) (measurements : List OPQMeasurement) :
    Along step Ready (.new samplesProcessed) measurements ↔ Along step Enough (.new samplesProcessed) measurements := by
  refine (along_iff (fun a => a.Warm ∧ (a.state = .RUNNING → 64 ≤ primed a.events)) ?_ ?_
    ⟨LocalAnalysis.warm_new samplesProcessed,fun is => absurd is (by simp [LocalAnalysis.new])⟩).symm
  · rintro a m b ⟨warm,ran⟩ taken enough
    exact warm_step warm ran taken enough
  · rintro a m b ⟨warm,ran⟩ taken
    constructor
    · intro enough running
      obtain ⟨next,least⟩ := warm_step warm ran taken enough
      exact next.primed running (least running)
    · intro ready second
      obtain ⟨cycle,same⟩ := Option.ite_none_left_eq_some.mp taken
      cases same
      obtain ⟨next,more,still⟩ := warm.consume_second second cycle
      by_cases running : (a.consume m).state = .RUNNING
      · have least := (ready running).lpf
        rw [(next.full (by simp [running])).2,more] at least
        omega
      · exact still running

/-- A measurement of one cycle. -/
def oneCycle : OPQMeasurement := ⟨[firstSample 0],[0]⟩

set_option maxRecDepth 20000 in
theorem oneCycle_states :
    ((LocalAnalysis.new 0).consume oneCycle).state = .INITIALIZING_LOWPASS_FILTER ∧
      (((LocalAnalysis.new 0).consume oneCycle).consume oneCycle).state = .RUNNING := by
  decide +kernel

/-- After two measurements of one cycle the analysis runs, and `lpf` has got 20 values. -/
theorem running_unprimed : ¬ Along step Ready (.new 0) [oneCycle,oneCycle] := by
  intro along
  obtain ⟨second,running⟩ := oneCycle_states
  have ready := ((along _ rfl).2 _ rfl).1 running
  have fresh := LocalAnalysis.warm_new 0
  obtain ⟨warm,_,unfed⟩ := fresh.consume_first (m := oneCycle) rfl (by decide)
  obtain ⟨next,more,_⟩ := warm.consume_second (m := oneCycle) second (by decide)
  have least := ready.lpf
  rw [(next.full (by rw [running]; nofun)).2,more,unfed] at least
  exact absurd least (by decide)

end Opqbox.Analysis
