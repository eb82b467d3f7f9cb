import Opqbox.Analysis
import Opqbox.Crossings

/-!
The frequency that `LocalAnalysis::loop` publishes, in exact arithmetic: the zero
crossings are the rises of the downsampled signal (`zeroCrossings_eq`), and there is a
frequency exactly if the filtered samples rise twice (`wellDefined_iff_rises`).
-/
namespace Opqbox.Analysis
open Opqbox.Crossings Opqbox.Filters Opqbox.Fir Opqbox.OpqData

/-- The number of the class of NaN in `math.h`. -/
def FP_NAN : ℚ := 0

/-- The loop over `_downSampled`, from the value `i` on. -/
def crossingLoop : List ℚ → Nat → ℚ → List ℚ → List ℚ
  | [], _, _, zeroCrossings => zeroCrossings
  | x :: rest, i, last, zeroCrossings =>
    crossingLoop rest (i + 1) x <|
      if last ≠ FP_NAN then
        if (last ≤ 0 ∧ x > 0) ∨ (last < 0 ∧ x ≥ 0) then zeroCrossings ++ [i - x / (x - last)] else zeroCrossings
      else zeroCrossings

def zeroCrossings (downSampled : List ℚ) : List ℚ := crossingLoop downSampled 0 FP_NAN []

/-- The largest `size_t`. -/
def SIZE_MAX : Nat := 2 ^ 64 - 1

/-- A size less 1, which wraps around at 0. -/
def sizeLessOne (size : Nat) : Nat := if size = 0 then SIZE_MAX else size - 1

/-- A quotient, if the divisor is not 0. -/
def divide (a b : ℚ) : Option ℚ := if b = 0 then none else some (a / b)

/-- What is assigned to `frequency`, with an integer division before the last one. -/
def frequency (downSampled : List ℚ) : Option ℚ := do
  let accumulator := gaps (zeroCrossings downSampled) 0
  let accumulator ← divide accumulator (sizeLessOne (zeroCrossings downSampled).length)
  divide (SAMPLES_PER_CYCLE * CYCLES_PER_SEC / DECIMATION_FACTOR : Nat) accumulator

/-- Nothing is divided by 0, the size does not wrap around, and the frequency is positive. -/
def WellDefined (downSampled : List ℚ) : Prop :=
  1 ≤ (zeroCrossings downSampled).length ∧ ∃ f, frequency downSampled = some f ∧ 0 < f

/-! ### The crossings -/

/-- `last` is a value before, or it is `FP_NAN`, which is 0 as well. Neither rises. -/
theorem test_iff_rises {d : List ℚ} {i : Nat} {last : ℚ} (is_last : last = if i = 0 then FP_NAN else d.getD (i - 1) 0) :
    (last ≠ FP_NAN ∧ ((last ≤ 0 ∧ d.getD i 0 > 0) ∨ (last < 0 ∧ d.getD i 0 ≥ 0))) ↔ Rises d i := by
  rw [is_last,Rises]
  generalize d.getD (i - 1) 0 = before
  generalize d.getD i 0 = now
  rcases Nat.eq_zero_or_pos i with rfl | pos
  · simp
  · rw [if_neg (Nat.ne_of_gt pos),FP_NAN]
    constructor
    · rintro ⟨other,⟨below,above⟩ | ⟨below,above⟩⟩
      · exact ⟨pos,lt_of_le_of_ne below other,above.le⟩
      · exact ⟨pos,below,above⟩
    · rintro ⟨_,below,above⟩
      exact ⟨below.ne,.inr ⟨below,above⟩⟩

/-- The loop appends the crossings of the values that it has not seen yet. -/
theorem crossingLoop_eq {d : List ℚ} (pre rest : List ℚ) (split : d = pre ++ rest) {last : ℚ}
    (is_last : last = if pre.length = 0 then FP_NAN else d.getD (pre.length - 1) 0) (zeroCrossings : List ℚ) :
    crossingLoop rest pre.length last zeroCrossings =
      zeroCrossings ++ ((List.range' pre.length rest.length).filter (Rises d)).map (crossing d) := by
  induction rest generalizing pre last zeroCrossings with
  | nil => simp [crossingLoop]
  | cons x rest ih =>
    have now : d.getD pre.length 0 = x := by simp [split]
    have test := test_iff_rises is_last
    have kept : x = if (pre ++ [x]).length = 0 then FP_NAN else d.getD ((pre ++ [x]).length - 1) 0 := by
      rw [List.length_append,List.length_singleton,if_neg (Nat.succ_ne_zero _),Nat.add_sub_cancel,now]
    have next := ih _ (by simp [split]) kept
    rw [List.length_append,List.length_singleton] at next
    rw [now] at test
    rw [crossingLoop,next,List.length_cons,List.range'_succ]
    by_cases rise : Rises d pre.length
    · obtain ⟨other,signs⟩ := test.mpr rise
      have before : d.getD (pre.length - 1) 0 = last := by
        rw [is_last,if_neg (Nat.ne_of_gt rise.1)]
      rw [if_pos other,if_pos signs,List.filter_cons_of_pos (by simpa using rise),List.map_cons,crossing,now,before,
        List.append_assoc]
      rfl
    · rw [List.filter_cons_of_neg (by simpa using rise)]
      split_ifs with other signs
      · exact absurd (test.mp ⟨other,signs⟩) rise
      · rfl
      · rfl

theorem zeroCrossings_eq (d : List ℚ) : zeroCrossings d = crossings d := by
  have loop := crossingLoop_eq [] d rfl rfl []
  rw [List.nil_append,List.length_nil,← List.range_eq_range'] at loop
  exact loop

/-! ### The frequency -/

/-- From two crossings on, the frequency is that of their mean distance, which is more than a sample. -/
theorem frequency_of_crossings {d rest : List ℚ} {first next : ℚ}
    (several : zeroCrossings d = first :: next :: rest) :
    let span := (first :: next :: rest).getLast (List.cons_ne_nil _ _) - first
    frequency d = some (1200 * (rest.length + 1) / span) ∧ (rest.length + 1 : ℚ) < span := by
  intro span
  have apart := crossings_apart d
  rw [← zeroCrossings_eq,several] at apart
  have wide : (rest.length + 1 : ℚ) < span := span_gt apart
  have number : (0 : ℚ) < rest.length + 1 := by positivity
  have sum : gaps (first :: next :: rest) 0 = span := (gaps_sum first (next :: rest) 0).trans (zero_add _)
  have size : ((sizeLessOne (first :: next :: rest).length : Nat) : ℚ) = rest.length + 1 := by
    simp [sizeLessOne]
  refine ⟨?_,wide⟩
  simp only [frequency,several,sum,size]
  rw [divide,if_neg number.ne']
  show divide _ _ = _
  rw [divide,if_neg (div_pos (number.trans wide) number).ne',div_div_eq_mul_div]
  rfl

/-- Each rise is recorded once, between the two samples that it lies between, and from
    two crossings on the frequency is defined, from 0 to 1200. -/
theorem detection_and_frequency (d : List ℚ) :
    zeroCrossings d = (rises d).map (crossing d) ∧
      (∀ i ∈ rises d, 0 < d.getD i 0 - d.getD (i - 1) 0 ∧ (i : ℚ) - 1 < crossing d i ∧ crossing d i ≤ i) ∧
      (zeroCrossings d).Pairwise (fun a b => a + 1 < b) ∧
      ∀ several : 2 ≤ (zeroCrossings d).length, ∃ f, frequency d = some f ∧
        f = 1200 * ((zeroCrossings d).length - 1) /
          ((zeroCrossings d)[(zeroCrossings d).length - 1] - (zeroCrossings d)[0]) ∧
        0 < f ∧ f < 1200 := by
  refine ⟨zeroCrossings_eq d,fun i member => ?_,?_,fun several => ?_⟩
  · have rise : Rises d i := by simpa using (List.mem_filter.mp member).2
    exact ⟨rise.slope,rise.crossing_bounds⟩
  · rw [zeroCrossings_eq]
    exact crossings_apart d
  · obtain ⟨first,next,rest,crossed⟩ : ∃ first next rest, zeroCrossings d = first :: next :: rest := by
      match crossed : zeroCrossings d, several with
      | first :: next :: rest, _ => exact ⟨first,next,rest,rfl⟩
    obtain ⟨is,wide⟩ := frequency_of_crossings crossed
    have number : (0 : ℚ) < rest.length + 1 := by positivity
    refine ⟨_,is,?_,div_pos (by positivity) (number.trans wide),?_⟩
    · simp only [crossed,List.getLast_eq_getElem]
      simp
    · rw [div_lt_iff₀ (number.trans wide)]
      linarith

example : frequency [-1,1,0,0,-1,0,1] = some (800 / 3) := by decide +kernel

theorem wellDefined_iff (d : List ℚ) : WellDefined d ↔ 2 ≤ (rises d).length := by
  have number : (rises d).length = (zeroCrossings d).length := by
    rw [zeroCrossings_eq,crossings,List.length_map]
  rw [number]
  rcases crossed : zeroCrossings d with _ | ⟨first,_ | ⟨next,rest⟩⟩
  · simp [WellDefined,crossed]
  · -- The only crossing gives no gap, and 0 is divided by 0.
    have none : frequency d = none := by simp [frequency,crossed,sizeLessOne,divide]
    simp [WellDefined,none]
  · obtain ⟨is,wide⟩ := frequency_of_crossings crossed
    have positive : (0 : ℚ) < rest.length + 1 := by positivity
    refine iff_of_true ⟨?_,_,is,div_pos (by positivity) (positive.trans wide)⟩ (by simp)
    simp [crossed]

/-! ### The filtered signal -/

/-- The samples of the cycles, one after the other. -/
def values (m : OPQMeasurement) : List ℚ := m.cycles.flatMap fun frame => frame.data.toList.map fun x => (x.toInt : ℚ)

/-- What the first filter makes of the samples up to the `n`th one that is kept. -/
def antialiased (before samples : List ℚ) (n : Nat) : ℚ :=
  fir 128 (rotated 128 antialiasTaps) ((samples.take (n * DECIMATION_FACTOR + 1)).reverse ++ before)

/-- What the second filter makes of the values up to the `n`th one. -/
def lowPassed (before : List ℚ) (kept : Nat → ℚ) (n : Nat) : ℚ :=
  fir 64 (rotated 64 lowPassTaps) (((List.range (n + 1)).map kept).reverse ++ before)

/-- The samples through both filters, which go on from their histories. -/
def signal (adf lpf : Filter) (samples : List ℚ) : List ℚ :=
  (List.range (samples.length / DECIMATION_FACTOR)).map (lowPassed (lpf.past 64) (antialiased (adf.past 128) samples))

theorem values_length (m : OPQMeasurement) : (values m).length = m.cycles.length * 200 := by
  have cycle (frame : OPQCycle) : (frame.data.toList.map fun x => (x.toInt : ℚ)).length = 200 := by
    rw [List.length_map,Vector.length_toList]
    rfl
  simp [values,List.length_flatMap,cycle,-List.length_map]

theorem antialiased_append {before : List ℚ} (enough : 128 ≤ before.length) (samples : List ℚ) (n : Nat) (older : List ℚ) :
    antialiased (before ++ older) samples n = antialiased before samples n := by
  rw [antialiased,← List.append_assoc,fir_append (by simp; omega)]
  rfl

theorem lowPassed_append {before : List ℚ} (enough : 64 ≤ before.length) (kept : Nat → ℚ) (n : Nat) (older : List ℚ) :
    lowPassed (before ++ older) kept n = lowPassed before kept n := by
  rw [lowPassed,← List.append_assoc,fir_append (by simp; omega)]
  rfl

namespace LocalAnalysis

section Prefix
variable {P : List ℚ → LocalAnalysis → Prop} {body : LocalAnalysis → Nat → ℚ → LocalAnalysis} {m : OPQMeasurement}

/-- The loop over the samples of a cycle, whose numbers in it tell which samples are kept. -/
theorem frame_invariant (keeps : ∀ pre x a i, pre ++ [x] <+: values m → i % DECIMATION_FACTOR = pre.length % DECIMATION_FACTOR →
      P pre a → P (pre ++ [x]) (body a i x)) (data : List (BitVec 16)) {first : Nat} {pre post : List ℚ} {a : LocalAnalysis}
    (split : values m = pre ++ (data.map fun x => (x.toInt : ℚ)) ++ post)
    (aligned : first % DECIMATION_FACTOR = pre.length % DECIMATION_FACTOR) (holds : P pre a) :
    P (pre ++ data.map fun x => (x.toInt : ℚ)) ((data.zipIdx first).foldl (fun self x => body self x.2 x.1.toInt) a) := by
  induction data generalizing first pre a with
  | nil => simpa using holds
  | cons x rest ih =>
    rw [List.map_cons,List.append_cons] at split ⊢
    rw [List.zipIdx_cons,List.foldl_cons]
    have front : pre ++ [(x.toInt : ℚ)] <+: values m := ⟨_,(List.append_assoc _ _ _).symm.trans split.symm⟩
    refine ih split ?_ (keeps pre _ a first front aligned holds)
    rw [List.length_append,List.length_singleton,Nat.add_mod first,aligned,← Nat.add_mod]

/-- A loop invariant for the samples so far. A cycle has a multiple of ten samples. -/
theorem forSamples_invariant (keeps : ∀ pre x a i, pre ++ [x] <+: values m →
      i % DECIMATION_FACTOR = pre.length % DECIMATION_FACTOR → P pre a → P (pre ++ [x]) (body a i x)) {a : LocalAnalysis}
    (holds : P [] a) : P (values m) (a.forSamples body m) := by
  have loop (cycles : List OPQCycle) (pre : List ℚ) (a : LocalAnalysis)
      (split : values m = pre ++ cycles.flatMap fun frame => frame.data.toList.map fun x => (x.toInt : ℚ))
      (aligned : pre.length % DECIMATION_FACTOR = 0) (holds : P pre a) : P (values m) (a.forSamples body ⟨cycles,[]⟩) := by
    induction cycles generalizing pre a with
    | nil =>
      rw [List.flatMap_nil,List.append_nil] at split
      rw [split]
      exact holds
    | cons c cycles ih =>
      rw [List.flatMap_cons,← List.append_assoc] at split
      refine ih _ _ split ?_ (frame_invariant keeps _ split aligned.symm holds)
      rw [List.length_append,List.length_map,Vector.length_toList,Nat.add_mod,aligned]
      rfl
  exact loop m.cycles [] a rfl rfl holds

end Prefix

/-- The filters and `_downSampled` after some of the samples, every tenth of which is kept. -/
structure Went (taken given samples pre : List ℚ) (a : LocalAnalysis) : Prop where
  adf : a.adf.Tracks 128 (pre.reverse ++ taken)
  lpf : a.lpf.Tracks 64 (((List.range ((pre.length + 9) / 10)).map (antialiased taken samples)).reverse ++ given)
  downSampled : a.downSampled = (List.range ((pre.length + 9) / 10)).map (lowPassed given (antialiased taken samples))

theorem Went.downSample {taken given samples pre : List ℚ} {a : LocalAnalysis} (went : Went taken given samples pre a)
    {x : ℚ} {i : Nat} (front : pre ++ [x] <+: samples) (aligned : i % DECIMATION_FACTOR = pre.length % DECIMATION_FACTOR) :
    Went taken given samples (pre ++ [x]) (a.downSample i x) := by
  have put : (a.putAdf x).adf.Tracks 128 ((pre ++ [x]).reverse ++ taken) := by
    rw [List.reverse_append]
    exact AntialiasDownsamplingFilter_put_tracks went.adf x
  have more : (pre ++ [x]).length = pre.length + 1 := List.length_append
  rw [LocalAnalysis.downSample]
  split_ifs with kept
  · have number : pre.length = (pre.length + 9) / 10 * 10 := by
      have whole : pre.length % 10 = 0 := aligned.symm.trans kept
      omega
    have next : ((pre ++ [x]).length + 9) / 10 = (pre.length + 9) / 10 + 1 := by omega
    have got : AntialiasDownsamplingFilter_get (a.putAdf x).adf = antialiased taken samples ((pre.length + 9) / 10) := by
      rw [AntialiasDownsamplingFilter_get_tracks put,antialiased,show DECIMATION_FACTOR = 10 from rfl,← number,← more,
        ← List.prefix_iff_eq_take.mp front]
    have grown (n : Nat) : ((List.range (n + 1)).map (antialiased taken samples)).reverse =
        antialiased taken samples n :: ((List.range n).map (antialiased taken samples)).reverse := by
      rw [List.range_succ,List.map_append,List.reverse_append]
      rfl
    have feed := LowPassFilter_put_tracks went.lpf (antialiased taken samples ((pre.length + 9) / 10))
    rw [← List.cons_append,← grown] at feed
    have gives := LowPassFilter_get_tracks feed
    rw [got]
    refine ⟨put,?_,?_⟩
    · rw [next]
      exact feed
    · show a.downSampled ++ [_] = _
      rw [went.downSampled,next,List.range_succ,List.map_append,List.map_singleton,lowPassed,← gives]
      rfl
  · have same : ((pre ++ [x]).length + 9) / 10 = (pre.length + 9) / 10 := by
      have other : pre.length % 10 ≠ 0 := fun whole => kept (aligned.trans whole)
      omega
    refine ⟨put,?_,?_⟩
    · rw [same]
      exact went.lpf
    · rw [same]
      exact went.downSampled

/-- What is left in `_downSampled` is the filtered signal, whatever the filters hold before. -/
theorem consume_signal {a : LocalAnalysis} (running : a.state = .RUNNING) (m : OPQMeasurement) :
    (a.consume m).downSampled = signal a.adf a.lpf (values m) := by
  obtain ⟨adf_older,adf⟩ : ∃ older, a.adf.Tracks 128 (a.adf.past 128 ++ older) :=
    ⟨_,a.adf.past_tracks (N := 128) 7 rfl (by decide)⟩
  obtain ⟨lpf_older,lpf⟩ : ∃ older, a.lpf.Tracks 64 (a.lpf.past 64 ++ older) :=
    ⟨_,a.lpf.past_tracks (N := 64) 6 rfl (by decide)⟩
  have start : Went (a.adf.past 128 ++ adf_older) (a.lpf.past 64 ++ lpf_older) (values m) [] { a with downSampled := [] } :=
    ⟨adf,lpf,rfl⟩
  have went : Went _ _ (values m) (values m) ({ a with downSampled := [] }.forSamples downSample m) :=
    forSamples_invariant (fun _ _ _ _ front aligned went => went.downSample front aligned) start
  have sizes : ((values m).length + 9) / 10 = (values m).length / DECIMATION_FACTOR := by
    rw [values_length,DECIMATION_FACTOR]
    omega
  have kept : antialiased (a.adf.past 128 ++ adf_older) (values m) = antialiased (a.adf.past 128) (values m) :=
    funext fun n => antialiased_append (by simp [Filter.past]) _ n _
  rw [consume,if_neg (not_not.mpr running),went.downSampled,signal,sizes,kept]
  exact List.map_congr_left fun n _ => lowPassed_append (by simp [Filter.past]) _ n _

end LocalAnalysis

/-- The frequency is well defined exactly if the filtered samples rise twice. -/
theorem wellDefined_iff_rises {a : LocalAnalysis} (running : a.state = .RUNNING) (m : OPQMeasurement) :
    WellDefined (a.consume m).downSampled ↔ 2 ≤ (rises (signal a.adf a.lpf (values m))).length := by
  rw [LocalAnalysis.consume_signal running]
  exact wellDefined_iff _

/-- A measurement of a cycle without voltage. -/
def flatLine : OPQMeasurement := ⟨[firstSample 0],[0]⟩

theorem antialiased_flatLine (n : Nat) : antialiased (Filter.init.past 128) (values flatLine) n = 0 := by
  have samples : values flatLine = List.replicate 200 0 := by decide +kernel
  refine fir_of_zeros ?_ _
  intro x member
  rcases List.mem_append.mp member with recent | older
  · rw [samples] at recent
    exact List.eq_of_mem_replicate (List.mem_of_mem_take (List.mem_reverse.mp recent))
  · exact Filter.past_init older

theorem signal_flatLine (lpf : Filter) : signal .init lpf (values flatLine) =
    (List.range 20).map fun n => fir 64 (rotated 64 lowPassTaps) (List.replicate (n + 1) 0 ++ lpf.past 64) := by
  rw [signal,values_length,show flatLine.cycles.length * 200 / DECIMATION_FACTOR = 20 from rfl]
  refine List.map_congr_left ?_
  intro n _
  rw [lowPassed,funext antialiased_flatLine]
  simp

/-- A single value in the second filter rings with its taps. -/
def ringing : LocalAnalysis :=
  { LocalAnalysis.new 0 with state := .RUNNING, lpf := ⟨fun i => if i = 63 then -1 else 0,0⟩ }

theorem ringing_wellDefined : WellDefined (ringing.consume flatLine).downSampled := by
  refine (wellDefined_iff_rises rfl flatLine).mpr ?_
  rw [show signal ringing.adf ringing.lpf (values flatLine) = _ from signal_flatLine ringing.lpf]
  decide +kernel

/-- Nothing ever rises on a line without voltage. -/
theorem flatLine_undefined : ¬ ∀ (a : LocalAnalysis) (m : OPQMeasurement), a.state = .RUNNING → m.cycles ≠ [] →
    WellDefined (a.consume m).downSampled := by
  intro always
  have defined := always { LocalAnalysis.new 0 with state := .RUNNING } flatLine rfl (by decide)
  rw [LocalAnalysis.consume_signal rfl,wellDefined_iff,
    show signal (LocalAnalysis.new 0).adf (LocalAnalysis.new 0).lpf (values flatLine) = _ from
      signal_flatLine .init] at defined
  have nothing : ∀ n : Nat, fir 64 (rotated 64 lowPassTaps) (List.replicate (n + 1) 0 ++ Filter.init.past 64) = 0 := by
    intro n
    refine fir_of_zeros ?_ _
    intro x member
    rcases List.mem_append.mp member with recent | older
    · exact List.eq_of_mem_replicate recent
    · exact Filter.past_init older
  simp only [nothing] at defined
  exact absurd defined (by decide +kernel)

end Opqbox.Analysis
