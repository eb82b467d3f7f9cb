import Mathlib.Tactic.NormNum.OfScientific
import Mathlib.Tactic.NormNum.Inv
import Opqbox.Filters
import Opqbox.OpqData

/-!
`LocalAnalysis`: the initialization of its two filters and the downsampling of
the measurements, in exact arithmetic. The filters compute rotated taps, so what
they return is the designed value exactly where the difference of the taps
vanishes on the samples (`designed_iff_balanced`).
-/
namespace Opqbox.Analysis
open Opqbox.Filters Opqbox.Fir Opqbox.OpqData

inductive LocalAnalysisState where
  | INITIALIZING_DOWNSAMPLING_FILTER
  | INITIALIZING_LOWPASS_FILTER
  | RUNNING
  deriving DecidableEq

/-- The value of an enumerator. -/
def LocalAnalysisState.value : LocalAnalysisState → Nat
  | .INITIALIZING_DOWNSAMPLING_FILTER => 0
  | .INITIALIZING_LOWPASS_FILTER => 1
  | .RUNNING => 2

/-- How many samples get tossed during downsampling. -/
def DECIMATION_FACTOR : Nat := 10

/-- A sample put into `adf`, a value put into `lpf` and a value appended to
    `_downSampled`. -/
inductive Event where
  | put (x : ℚ) | feed (v : ℚ) | append (v : ℚ)

structure LocalAnalysis where
  state : LocalAnalysisState
  samplesProcessed : BitVec 32
  adf : Filter
  lpf : Filter
  downSampled : List ℚ
  /-- All that happened so far, the newest first. -/
  events : List Event

/-- The constructor leaves `_samplesProcessed` as it finds it. -/
def LocalAnalysis.new (samplesProcessed : BitVec 32) : LocalAnalysis where
  state := .INITIALIZING_DOWNSAMPLING_FILTER
  samplesProcessed := samplesProcessed
  adf := AntialiasDownsamplingFilter_init
  lpf := LowPassFilter_init
  downSampled := []
  events := []

namespace LocalAnalysis

def putAdf (self : LocalAnalysis) (x : ℚ) : LocalAnalysis :=
  { self with adf := AntialiasDownsamplingFilter_put self.adf x, events := .put x :: self.events }

def putLpf (self : LocalAnalysis) (v : ℚ) : LocalAnalysis :=
  { self with lpf := LowPassFilter_put self.lpf v, events := .feed v :: self.events }

def push_back (self : LocalAnalysis) (v : ℚ) : LocalAnalysis :=
  { self with downSampled := self.downSampled ++ [v], events := .append v :: self.events }

def countSample (self : LocalAnalysis) : LocalAnalysis :=
  { self with samplesProcessed := self.samplesProcessed + 1 }

/-- The nested loops over the samples of all cycles, with the number of each in its cycle. -/
def forSamples (body : LocalAnalysis → Nat → ℚ → LocalAnalysis) (self : LocalAnalysis) (m : OPQMeasurement) : LocalAnalysis :=
  m.cycles.foldl (fun self frame => frame.data.toList.zipIdx.foldl (fun self x => body self x.2 x.1.toInt) self) self

/-- The body of the loop in the first state of `initFilter`. -/
def primeAdf (self : LocalAnalysis) (_ : Nat) (x : ℚ) : LocalAnalysis := (self.putAdf x).countSample

/-- The body of the loop in the second state of `initFilter`. -/
def primeLpf (self : LocalAnalysis) (i : Nat) (x : ℚ) : LocalAnalysis :=
  let self := self.putAdf x
  if i % DECIMATION_FACTOR = 0 then (self.putLpf (AntialiasDownsamplingFilter_get self.adf)).countSample else self

def initFilter (self : LocalAnalysis) (m : OPQMeasurement) : LocalAnalysis :=
  match self.state with
  | .INITIALIZING_DOWNSAMPLING_FILTER =>
    let self := self.forSamples primeAdf m
    if self.samplesProcessed.toNat > 128 then
      { self with state := .INITIALIZING_LOWPASS_FILTER, samplesProcessed := 0 }
    else self
  | .INITIALIZING_LOWPASS_FILTER =>
    let self := self.forSamples primeLpf m
    -- The source compares with the enumerator.
    if self.samplesProcessed.toNat > LocalAnalysisState.INITIALIZING_LOWPASS_FILTER.value then
      { self with state := .RUNNING, samplesProcessed := 0 }
    else self
  | .RUNNING => self

/-- The body of the loop over the samples in `loop`. -/
def downSample (self : LocalAnalysis) (i : Nat) (x : ℚ) : LocalAnalysis :=
  let self := self.putAdf x
  if i % DECIMATION_FACTOR = 0 then
    let self := self.putLpf (AntialiasDownsamplingFilter_get self.adf)
    self.push_back (LowPassFilter_get self.lpf)
  else self

/-- What `loop` does to the filters with a measurement. -/
def consume (self : LocalAnalysis) (m : OPQMeasurement) : LocalAnalysis :=
  if self.state ≠ .RUNNING then self.initFilter m
  else { self with downSampled := [] }.forSamples downSample m

end LocalAnalysis

/-! ### What the filters return -/

/-- An event without the value that a filter computed. -/
inductive Use where
  | put (x : ℚ) | feed | append

def Event.use : Event → Use
  | .put x => .put x
  | .feed _ => .feed
  | .append _ => .append

/-- The samples put into `adf`, newest first. -/
def inputs : List Use → List ℚ
  | [] => []
  | .put x :: uses => x :: inputs uses
  | .feed :: uses => inputs uses
  | .append :: uses => inputs uses

/-- The values put into `lpf`, newest first. -/
def fed : List Event → List ℚ
  | [] => []
  | .put _ :: events => fed events
  | .feed v :: events => v :: fed events
  | .append _ :: events => fed events

/-- Every value put into `lpf` is that of the taps `a` on the samples so far, and
    every value appended that of the taps `b` on the values put into `lpf`. -/
def Computes (a b : Nat → ℚ) : List Event → Prop
  | [] => True
  | .put _ :: events => Computes a b events
  | .feed v :: events => v = fir 128 a (inputs (events.map Event.use)) ∧ Computes a b events
  | .append v :: events => v = fir 64 b (fed events) ∧ Computes a b events

/-- What the designed filter would put into `lpf`, newest first. -/
def designed : List Use → List ℚ
  | [] => []
  | .put _ :: uses => designed uses
  | .feed :: uses => fir 128 (tap antialiasTaps) (inputs uses) :: designed uses
  | .append :: uses => designed uses

/-- Whenever a filter is read, the difference of rotated and designed taps
    vanishes on the samples, or on what the designed filter makes of them. -/
def Balanced : List Use → Prop
  | [] => True
  | .put _ :: uses => Balanced uses
  | .feed :: uses =>
    fir 128 (fun j => rotated 128 antialiasTaps j - tap antialiasTaps j) (inputs uses) = 0 ∧ Balanced uses
  | .append :: uses =>
    fir 64 (fun j => rotated 64 lowPassTaps j - tap lowPassTaps j) (designed uses) = 0 ∧ Balanced uses

/-- The filters hold the streams of the events, and returned the values in them. -/
structure LocalAnalysis.Filtered (a : LocalAnalysis) : Prop where
  adf : a.adf.Tracks 128 (inputs (a.events.map Event.use))
  lpf : a.lpf.Tracks 64 (fed a.events)
  computes : Computes (rotated 128 antialiasTaps) (rotated 64 lowPassTaps) a.events

namespace LocalAnalysis

theorem new_filtered (samplesProcessed : BitVec 32) : (new samplesProcessed).Filtered :=
  ⟨Filter.init_tracks,Filter.init_tracks,trivial⟩

variable {a : LocalAnalysis}

theorem Filtered.putAdf (filtered : a.Filtered) (x : ℚ) : (a.putAdf x).Filtered :=
  ⟨AntialiasDownsamplingFilter_put_tracks filtered.adf x,filtered.lpf,filtered.computes⟩

theorem Filtered.putLpf (filtered : a.Filtered) : (a.putLpf (AntialiasDownsamplingFilter_get a.adf)).Filtered :=
  ⟨filtered.adf,LowPassFilter_put_tracks filtered.lpf _,AntialiasDownsamplingFilter_get_tracks filtered.adf,filtered.computes⟩

theorem Filtered.push_back (filtered : a.Filtered) : (a.push_back (LowPassFilter_get a.lpf)).Filtered :=
  ⟨filtered.adf,filtered.lpf,LowPassFilter_get_tracks filtered.lpf,filtered.computes⟩

/-- The other fields do not matter. -/
theorem Filtered.of_eq (filtered : a.Filtered) {b : LocalAnalysis} (adf : b.adf = a.adf) (lpf : b.lpf = a.lpf)
    (events : b.events = a.events) : b.Filtered := by
  refine ⟨?_,?_,?_⟩
  · rw [adf,events]
    exact filtered.adf
  · rw [lpf,events]
    exact filtered.lpf
  · rw [events]
    exact filtered.computes

/-- What the body of the loops keeps, they keep. -/
theorem forSamples_keeps {P : LocalAnalysis → Prop} {body : LocalAnalysis → Nat → ℚ → LocalAnalysis}
    (keeps : ∀ a, P a → ∀ i x, P (body a i x)) (holds : P a) (m : OPQMeasurement) : P (a.forSamples body m) := by
  refine List.foldlRecOn m.cycles _ holds ?_
  intro a holds frame _
  refine List.foldlRecOn _ _ holds ?_
  intro a holds x _
  exact keeps a holds x.2 _

theorem Filtered.forSamples {body : LocalAnalysis → Nat → ℚ → LocalAnalysis}
    (keeps : ∀ a : LocalAnalysis, a.Filtered → ∀ i x, (body a i x).Filtered) (filtered : a.Filtered) (m : OPQMeasurement) :
    (a.forSamples body m).Filtered := forSamples_keeps keeps filtered m

theorem forSamples_state {body : LocalAnalysis → Nat → ℚ → LocalAnalysis}
    (keeps : ∀ a i x, (body a i x).state = a.state) (a : LocalAnalysis) (m : OPQMeasurement) :
    (a.forSamples body m).state = a.state :=
  forSamples_keeps (P := fun b => b.state = a.state) (fun b same i x => (keeps b i x).trans same) rfl m

theorem Filtered.primeAdf (filtered : a.Filtered) (i : Nat) (x : ℚ) : (a.primeAdf i x).Filtered :=
  (filtered.putAdf x).of_eq rfl rfl rfl

theorem Filtered.primeLpf (filtered : a.Filtered) (i : Nat) (x : ℚ) : (a.primeLpf i x).Filtered := by
  rw [LocalAnalysis.primeLpf]
  split_ifs
  · exact (filtered.putAdf x).putLpf.of_eq rfl rfl rfl
  · exact filtered.putAdf x

theorem Filtered.downSample (filtered : a.Filtered) (i : Nat) (x : ℚ) : (a.downSample i x).Filtered := by
  rw [LocalAnalysis.downSample]
  split_ifs
  · exact (filtered.putAdf x).putLpf.push_back
  · exact filtered.putAdf x

theorem downSample_state (a : LocalAnalysis) (i : Nat) (x : ℚ) : (a.downSample i x).state = a.state := by
  rw [LocalAnalysis.downSample]
  split_ifs <;> rfl

/-- Once the filters are initialized, they stay so. -/
theorem consume_running (running : a.state = .RUNNING) (m : OPQMeasurement) : (a.consume m).state = .RUNNING := by
  rw [LocalAnalysis.consume,if_neg (not_not.mpr running),forSamples_state downSample_state]
  exact running

theorem Filtered.initFilter (filtered : a.Filtered) (m : OPQMeasurement) : (a.initFilter m).Filtered := by
  rw [LocalAnalysis.initFilter]
  split
  · dsimp only
    split_ifs
    · exact (filtered.forSamples (fun _ => Filtered.primeAdf) m).of_eq rfl rfl rfl
    · exact filtered.forSamples (fun _ => Filtered.primeAdf) m
  · dsimp only
    split_ifs
    · exact (filtered.forSamples (fun _ => Filtered.primeLpf) m).of_eq rfl rfl rfl
    · exact filtered.forSamples (fun _ => Filtered.primeLpf) m
  · exact filtered

theorem Filtered.consume (filtered : a.Filtered) (m : OPQMeasurement) : (a.consume m).Filtered := by
  rw [LocalAnalysis.consume]
  split_ifs
  · exact filtered.initFilter m
  · have cleared : ({ a with downSampled := [] } : LocalAnalysis).Filtered := filtered.of_eq rfl rfl rfl
    exact cleared.forSamples (fun _ => Filtered.downSample) m

/-- The measurements one after the other. -/
def consumeAll (self : LocalAnalysis) (measurements : List OPQMeasurement) : LocalAnalysis := measurements.foldl consume self

theorem Filtered.consumeAll (filtered : a.Filtered) (measurements : List OPQMeasurement) : (a.consumeAll measurements).Filtered :=
  List.foldlRecOn measurements _ filtered fun _ filtered m _ => filtered.consume m

end LocalAnalysis

/-- Values of the rotated taps are the designed ones where the difference of the
    taps vanishes; what is put into `lpf` is then what the designed filter puts. -/
theorem computes_iff_balanced {events : List Event}
    (computes : Computes (rotated 128 antialiasTaps) (rotated 64 lowPassTaps) events) :
    (Computes (tap antialiasTaps) (tap lowPassTaps) events ↔ Balanced (events.map Event.use)) ∧
      (Balanced (events.map Event.use) → fed events = designed (events.map Event.use)) := by
  induction events with
  | nil => exact ⟨Iff.rfl,fun _ => rfl⟩
  | cons event events ih =>
    cases event with
    | put x => exact ih computes
    | feed v =>
      obtain ⟨is,computes⟩ := computes
      obtain ⟨agree,same⟩ := ih computes
      constructor
      · show _ ∧ _ ↔ _ ∧ _
        rw [agree,is,fir_eq_iff]
      · rintro ⟨vanishes,balanced⟩
        show v :: fed events = fir 128 _ _ :: designed _
        rw [same balanced,is,(fir_eq_iff _ _ _).mpr vanishes]
    | append v =>
      obtain ⟨is,computes⟩ := computes
      obtain ⟨agree,same⟩ := ih computes
      constructor
      · show _ ∧ _ ↔ _ ∧ _
        rw [agree]
        refine and_congr_left ?_
        intro balanced
        rw [is,fir_eq_iff,same balanced]
      · exact fun balanced => same balanced.2

/-- Over any measurements the cascade computes the designed filters exactly
    where the difference of the taps vanishes whenever a filter is read. -/
theorem designed_iff_balanced (samplesProcessed : BitVec 32) (measurements : List OPQMeasurement) :
    Computes (tap antialiasTaps) (tap lowPassTaps) ((LocalAnalysis.new samplesProcessed).consumeAll measurements).events ↔
      Balanced (((LocalAnalysis.new samplesProcessed).consumeAll measurements).events.map Event.use) :=
  (computes_iff_balanced ((LocalAnalysis.new_filtered samplesProcessed).consumeAll measurements).computes).1

theorem Balanced.drop {uses : List Use} (balanced : Balanced uses) (n : Nat) : Balanced (uses.drop n) := by
  induction uses generalizing n with
  | nil => simpa using balanced
  | cons use uses ih =>
    cases n with
    | zero => exact balanced
    | succ n =>
      cases use with
      | put x => exact ih balanced n
      | feed => exact ih balanced.2 n
      | append => exact ih balanced.2 n

/-- A cycle with the given first sample, and then zeros. -/
def firstSample (x : BitVec 16) : OPQCycle := ⟨(Vector.replicate 200 0).set 0 x,0,0,0⟩

set_option maxRecDepth 20000 in
/-- A sample 1 after 200 zeros: the first value put into `lpf` is the second tap. -/
theorem impulse_not_designed : ¬ Computes (tap antialiasTaps) (tap lowPassTaps)
    ((LocalAnalysis.new 0).consumeAll [⟨[firstSample 0],[0]⟩,⟨[firstSample 1],[0]⟩]).events := by
  intro designed
  have computes := ((LocalAnalysis.new_filtered 0).consumeAll [⟨[firstSample 0],[0]⟩,⟨[firstSample 1],[0]⟩]).computes
  have balanced := ((computes_iff_balanced computes).1.mp designed).drop 218
  have first_feed : (((LocalAnalysis.new 0).consumeAll [⟨[firstSample 0],[0]⟩,⟨[firstSample 1],[0]⟩]).events.map Event.use).drop 218 =
      .feed :: .put 1 :: List.replicate 200 (.put 0) := rfl
  rw [first_feed] at balanced
  have inputs_eq : inputs (.put 1 :: List.replicate 200 (.put 0)) = 1 :: List.replicate 200 0 := rfl
  have vanishes := balanced.1
  rw [inputs_eq,fir_impulse (by decide)] at vanishes
  norm_num [rotated,tap,antialiasTaps] at vanishes

end Opqbox.Analysis
