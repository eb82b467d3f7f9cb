import Opqbox.Frequency

/-!
What the analysis remembers. The filters keep the last values only, so that what is
left of a measurement depends on the four cycles before it and on nothing older
(`downSampled_eq`): not on how the filters were initialized, nor on how the cycles came
in measurements. It scales with the voltage, which moves no zero crossing
(`forgets_and_scales`), and a waveform with a period is published with its true
frequency (`steady_frequency`).
-/
namespace Opqbox.FilterMemory
open Opqbox.Analysis Opqbox.Crossings Opqbox.Filters Opqbox.Fir Opqbox.OpqData

/-- The samples of measurements. -/
def samples (ms : List OPQMeasurement) : List ℚ := ms.flatMap values

/-- Both filters at once: the value that the `n`th sample kept leaves. -/
def cascade (x : Nat → ℚ) (n : Nat) : ℚ :=
  conv 64 (rotated 64 lowPassTaps) (fun k => conv 128 (rotated 128 antialiasTaps) x (k * DECIMATION_FACTOR)) n

/-- The values of a list by their number. -/
def numbered (v : List ℚ) (i : Nat) : ℚ := v.getD i 0

/-! ### The filters over several measurements -/

theorem take_numbered {v : List ℚ} {n : Nat} (inside : n ≤ v.length) : v.take n = (List.range n).map (numbered v) := by
  refine List.ext_getElem (by simp [inside]) fun i first second => ?_
  have lt : i < v.length := by simp at first; omega
  simp [numbered,lt]

/-- With enough samples the first filter does not see what it held before. -/
theorem antialiased_recent {taken v : List ℚ} {n : Nat} (late : 13 ≤ n) (inside : n * DECIMATION_FACTOR < v.length) :
    antialiased taken v n = conv 128 (rotated 128 antialiasTaps) (numbered v) (n * DECIMATION_FACTOR) := by
  rw [antialiased,take_numbered inside]
  exact fir_reverse (show 128 ≤ n * 10 + 1 by omega) _ _ _

theorem lowPassed_recent {given taken v : List ℚ} {n : Nat} (late : 76 ≤ n) (inside : n * DECIMATION_FACTOR < v.length) :
    lowPassed given (antialiased taken v) n = cascade (numbered v) n := by
  rw [lowPassed,fir_reverse (by omega)]
  refine conv_congr (fun j near => ?_) _
  refine antialiased_recent (by omega) (lt_of_le_of_lt ?_ inside)
  exact Nat.mul_le_mul_right _ (Nat.sub_le n j)

theorem antialiased_front {taken v : List ℚ} {n : Nat} (inside : n * DECIMATION_FACTOR < v.length) (w : List ℚ) :
    antialiased taken (v ++ w) n = antialiased taken v n := by
  rw [antialiased,antialiased,List.take_append_of_le_length inside]

/-- What was sampled before goes into the first filter. -/
theorem antialiased_later {taken v : List ℚ} (whole : v.length % DECIMATION_FACTOR = 0) (w : List ℚ) (n : Nat) :
    antialiased (v.reverse ++ taken) w n = antialiased taken (v ++ w) (v.length / DECIMATION_FACTOR + n) := by
  have number : (v.length / DECIMATION_FACTOR + n) * DECIMATION_FACTOR + 1 = v.length + (n * DECIMATION_FACTOR + 1) := by
    have split := Nat.div_add_mod v.length DECIMATION_FACTOR
    rw [whole] at split
    rw [Nat.add_mul,Nat.mul_comm (v.length / _)]
    omega
  rw [antialiased,antialiased,number,List.take_length_add_append,List.reverse_append,List.append_assoc]

theorem lowPassed_later {given : List ℚ} {kept : Nat → ℚ} (count n : Nat) :
    lowPassed (((List.range count).map kept).reverse ++ given) (fun n => kept (count + n)) n =
      lowPassed given kept (count + n) := by
  have split : List.range (count + (n + 1)) = List.range count ++ (List.range (n + 1)).map (count + ·) := List.range_add
  rw [lowPassed,lowPassed,Nat.add_assoc count n 1,split,List.map_append,List.reverse_append,List.append_assoc,List.map_map]
  rfl

/-- The filters after some samples, since they held `taken` and `given`. -/
structure Fed (taken given v : List ℚ) (a : LocalAnalysis) : Prop where
  running : a.state = .RUNNING
  adf : a.adf.Tracks 128 (v.reverse ++ taken)
  lpf : a.lpf.Tracks 64 (((List.range (v.length / DECIMATION_FACTOR)).map (antialiased taken v)).reverse ++ given)

variable {taken given v : List ℚ} {a b : LocalAnalysis}

theorem fed_start (running : a.state = .RUNNING) :
    ∃ taken given, Fed taken given [] a := by
  obtain ⟨taken,adf⟩ : ∃ taken, a.adf.Tracks 128 taken := ⟨_,a.adf.past_tracks (N := 128) 7 rfl (by decide)⟩
  obtain ⟨given,lpf⟩ : ∃ given, a.lpf.Tracks 64 given := ⟨_,a.lpf.past_tracks (N := 64) 6 rfl (by decide)⟩
  exact ⟨taken,given,running,adf,lpf⟩

theorem samples_length (ms : List OPQMeasurement) :
    (samples ms).length = (ms.flatMap OPQMeasurement.cycles).length * 200 := by
  induction ms with
  | nil => rfl
  | cons m ms ih =>
    rw [samples] at ih ⊢
    rw [List.flatMap_cons,List.flatMap_cons,List.length_append,List.length_append,values_length,ih,Nat.add_mul]

theorem values_whole (m : OPQMeasurement) : (values m).length % DECIMATION_FACTOR = 0 := by
  rw [values_length,DECIMATION_FACTOR]
  omega

theorem samples_whole (ms : List OPQMeasurement) : (samples ms).length % DECIMATION_FACTOR = 0 := by
  rw [samples_length,DECIMATION_FACTOR]
  omega

/-- A measurement goes on with the samples, and leaves what both filters make of its own. -/
theorem Fed.consume (fed : Fed taken given v a) (whole : v.length % DECIMATION_FACTOR = 0) (m : OPQMeasurement) :
    Fed taken given (v ++ values m) (a.consume m) ∧
      (a.consume m).downSampled = (List.range ((values m).length / DECIMATION_FACTOR)).map fun n =>
        lowPassed given (antialiased taken (v ++ values m)) (v.length / DECIMATION_FACTOR + n) := by
  obtain ⟨running,adf,lpf⟩ := fed
  let older := ((List.range (v.length / DECIMATION_FACTOR)).map (antialiased taken v)).reverse ++ given
  have went : LocalAnalysis.Went (v.reverse ++ taken) older (values m) (values m)
      ({ a with downSampled := [] }.forSamples LocalAnalysis.downSample m) :=
    LocalAnalysis.forSamples_invariant (fun _ _ _ _ front aligned went => went.downSample front aligned) ⟨adf,lpf,rfl⟩
  have consumed : a.consume m = { a with downSampled := [] }.forSamples LocalAnalysis.downSample m :=
    if_neg (not_not.mpr running)
  have sizes : ((values m).length + 9) / 10 = (values m).length / DECIMATION_FACTOR := by
    rw [values_length,DECIMATION_FACTOR]
    omega
  have later : antialiased (v.reverse ++ taken) (values m) =
      fun n => antialiased taken (v ++ values m) (v.length / DECIMATION_FACTOR + n) := funext (antialiased_later whole _)
  have before : (List.range (v.length / DECIMATION_FACTOR)).map (antialiased taken v) =
      (List.range (v.length / DECIMATION_FACTOR)).map (antialiased taken (v ++ values m)) := by
    refine List.map_congr_left fun n member => (antialiased_front ?_ _).symm
    rw [Nat.mul_comm]
    exact (Nat.lt_div_iff_mul_lt' (Nat.dvd_of_mod_eq_zero whole) n).mp (List.mem_range.mp member)
  refine ⟨⟨LocalAnalysis.consume_running running m,?_,?_⟩,?_⟩
  · rw [consumed,List.reverse_append,List.append_assoc]
    exact went.adf
  · have lpf := went.lpf
    simp only [older] at lpf
    rw [sizes,later,before,← List.append_assoc,← List.reverse_append] at lpf
    have split : List.range ((v ++ values m).length / DECIMATION_FACTOR) = List.range (v.length / DECIMATION_FACTOR) ++
        (List.range ((values m).length / DECIMATION_FACTOR)).map (v.length / DECIMATION_FACTOR + ·) := by
      rw [← List.range_add,List.length_append,Nat.add_div_of_dvd_right (Nat.dvd_of_mod_eq_zero whole)]
    rw [consumed,split,List.map_append,List.map_map]
    exact lpf
  · rw [consumed,went.downSampled,sizes,later]
    simp only [older]
    rw [before]
    exact List.map_congr_left fun n _ => lowPassed_later _ _

/-- The measurements one after the other. -/
theorem Fed.consumeAll (fed : Fed taken given v a) (whole : v.length % DECIMATION_FACTOR = 0) (ms : List OPQMeasurement) :
    Fed taken given (v ++ samples ms) (a.consumeAll ms) ∧ (v ++ samples ms).length % DECIMATION_FACTOR = 0 := by
  induction ms generalizing a v with
  | nil => simpa [samples] using ⟨fed,whole⟩
  | cons m ms ih =>
    have next := (fed.consume whole m).1
    have whole' : (v ++ values m).length % DECIMATION_FACTOR = 0 := by
      rw [List.length_append,Nat.add_mod,whole,values_whole]
      rfl
    have rest := ih next whole'
    rwa [List.append_assoc] at rest

/-- What is left in `_downSampled`, after four cycles at least: the cascade of both
    filters over the cycles alone. -/
theorem downSampled_eq (running : a.state = .RUNNING) {ms : List OPQMeasurement}
    (four : 4 ≤ (ms.flatMap OPQMeasurement.cycles).length) (m : OPQMeasurement) :
    ((a.consumeAll ms).consume m).downSampled = (List.range ((values m).length / DECIMATION_FACTOR)).map fun n =>
      cascade (numbered (samples ms ++ values m)) ((samples ms).length / DECIMATION_FACTOR + n) := by
  obtain ⟨taken,given,start⟩ := fed_start running
  obtain ⟨fed,whole⟩ := start.consumeAll rfl ms
  rw [List.nil_append] at fed whole
  rw [(fed.consume whole m).2]
  have long : 800 ≤ (samples ms).length := by
    rw [samples_length]
    omega
  refine List.map_congr_left fun n member => lowPassed_recent ?_ ?_
  · rw [DECIMATION_FACTOR]
    omega
  · have inside := List.mem_range.mp member
    rw [List.length_append]
    rw [DECIMATION_FACTOR] at inside whole ⊢
    omega

/-! ### The scale of the voltage -/

theorem numbered_scale (c : ℚ) (v : List ℚ) : numbered (v.map (c * ·)) = fun i => c * numbered v i :=
  funext (getD_scale c v)

theorem cascade_scale (c : ℚ) (x : Nat → ℚ) (n : Nat) : cascade (fun i => c * x i) n = c * cascade x n := by
  simp only [cascade,conv_scale]

theorem frequency_scale {c : ℚ} (positive : 0 < c) (d : List ℚ) : frequency (d.map (c * ·)) = frequency d := by
  have same : zeroCrossings (d.map (c * ·)) = zeroCrossings d := by
    rw [zeroCrossings_eq,zeroCrossings_eq,crossings_scale positive]
  rw [frequency,frequency,same]

/-- After the same waveform in any measurements, scaled by a positive factor, two analyses
    hold the same values but for the factor, and publish the same frequency. -/
theorem forgets_and_scales {a b : LocalAnalysis} (first : a.state = .RUNNING) (second : b.state = .RUNNING) {c : ℚ}
    (positive : 0 < c) {ms ns : List OPQMeasurement} {m n : OPQMeasurement} (four : 4 ≤ (ms.flatMap OPQMeasurement.cycles).length)
    (before : samples ns = (samples ms).map (c * ·)) (last : values n = (values m).map (c * ·)) :
    ((b.consumeAll ns).consume n).downSampled = ((a.consumeAll ms).consume m).downSampled.map (c * ·) ∧
      frequency ((b.consumeAll ns).consume n).downSampled = frequency ((a.consumeAll ms).consume m).downSampled := by
  have four' : 4 ≤ (ns.flatMap OPQMeasurement.cycles).length := by
    have sizes := congrArg List.length before
    rw [List.length_map,samples_length,samples_length] at sizes
    omega
  have scaled : ((b.consumeAll ns).consume n).downSampled = ((a.consumeAll ms).consume m).downSampled.map (c * ·) := by
    rw [downSampled_eq first four,downSampled_eq second four',before,last,← List.map_append,numbered_scale,List.map_map,
      List.length_map,List.length_map]
    exact List.map_congr_left fun n _ => cascade_scale c _ _
  refine ⟨scaled,?_⟩
  rw [scaled,frequency_scale positive]

/-- A cycle with a first sample of 1 V and of 2 V, in other measurements. -/
theorem forgets_and_scales_twice :
    frequency ((ringing.consumeAll (List.replicate 2 ⟨List.replicate 2 (firstSample 2),[0,0]⟩)).consume
        ⟨[firstSample 2],[0]⟩).downSampled =
      frequency (({ LocalAnalysis.new 0 with state := .RUNNING }.consumeAll [⟨List.replicate 4 (firstSample 1),[0,0,0,0]⟩]).consume
        ⟨[firstSample 1],[0]⟩).downSampled :=
  (forgets_and_scales (a := { LocalAnalysis.new 0 with state := .RUNNING }) rfl rfl (c := 2) two_pos (by decide)
    (by decide +kernel) (by decide +kernel)).2

/-! ### A waveform with a period -/

theorem cascade_period {x : Nat → ℚ} {p limit : Nat}
    (repeats : ∀ i, i + p * DECIMATION_FACTOR < limit → x (i + p * DECIMATION_FACTOR) = x i) {n : Nat}
    (late : 76 ≤ n) (inside : (n + p) * DECIMATION_FACTOR < limit) : cascade x (n + p) = cascade x n := by
  refine conv_congr (fun j near => ?_) _
  rw [show n + p - j = n - j + p by omega,Nat.add_mul]
  refine conv_congr (fun k close => ?_) _
  have recent : (n - j) * DECIMATION_FACTOR ≤ n * DECIMATION_FACTOR := Nat.mul_le_mul_right _ (Nat.sub_le n j)
  rw [Nat.add_mul] at inside
  rw [DECIMATION_FACTOR] at repeats inside recent ⊢
  rw [show (n - j) * 10 + p * 10 - k = (n - j) * 10 - k + p * 10 by omega]
  exact repeats _ (by omega)

/-- Of a waveform with a period, what is left has a tenth of the period. -/
theorem downSampled_repeats {a : LocalAnalysis} (running : a.state = .RUNNING) {ms : List OPQMeasurement} {m : OPQMeasurement}
    (four : 4 ≤ (ms.flatMap OPQMeasurement.cycles).length) {p : Nat}
    (repeats : Repeats (p * DECIMATION_FACTOR) (samples ms ++ values m)) :
    Repeats p ((a.consumeAll ms).consume m).downSampled := by
  have left := downSampled_eq running four m
  generalize ((a.consumeAll ms).consume m).downSampled = d at left ⊢
  intro i inside
  have size : d.length = (values m).length / DECIMATION_FACTOR := by rw [left,List.length_map,List.length_range]
  have whole := Nat.div_mul_cancel (Nat.dvd_of_mod_eq_zero (values_whole m))
  have early := Nat.div_mul_cancel (Nat.dvd_of_mod_eq_zero (samples_whole ms))
  rw [size] at inside
  rw [DECIMATION_FACTOR] at whole early inside left
  have at_n {n : Nat} (lt : n < (values m).length / 10) :
      d.getD n 0 = cascade (numbered (samples ms ++ values m)) ((samples ms).length / 10 + n) := by
    rw [left]
    simp [lt]
  have long := samples_length ms
  rw [at_n inside,at_n (by omega),← Nat.add_assoc]
  refine cascade_period (fun i inside => repeats i inside) (by omega) ?_
  rw [List.length_append,DECIMATION_FACTOR]
  omega

/-- The frequency of a waveform with a period of `p` values that are kept, and one rise a
    period, as soon as there are two rises. -/
theorem steady_frequency {a : LocalAnalysis} (running : a.state = .RUNNING) {ms : List OPQMeasurement} {m : OPQMeasurement}
    (four : 4 ≤ (ms.flatMap OPQMeasurement.cycles).length) {p : Nat}
    (repeats : Repeats (p * DECIMATION_FACTOR) (samples ms ++ values m))
    (once : ∀ i ∈ rises ((a.consumeAll ms).consume m).downSampled, ∀ j ∈ rises ((a.consumeAll ms).consume m).downSampled,
      i % p = j % p)
    (twice : 2 ≤ (rises ((a.consumeAll ms).consume m).downSampled).length) :
    frequency ((a.consumeAll ms).consume m).downSampled = some (1200 / (p : ℚ)) := by
  have period := downSampled_repeats running four repeats
  generalize ((a.consumeAll ms).consume m).downSampled = d at period once twice ⊢
  obtain ⟨first,next,rest,crossed⟩ : ∃ first next rest, crossings d = first :: next :: rest := by
    have number : 2 ≤ (crossings d).length := by rwa [crossings,List.length_map]
    rcases crossed : crossings d with _ | ⟨first,_ | ⟨next,rest⟩⟩
    · simp [crossed] at number
    · simp [crossed] at number
    · exact ⟨first,next,rest,rfl⟩
  have span := crossings_span period once crossed
  obtain ⟨is,wide⟩ := frequency_of_crossings ((zeroCrossings_eq d).trans crossed)
  have number : (0 : ℚ) < rest.length + 1 := by positivity
  rw [is,span,List.length_cons]
  push_cast
  rw [mul_comm (1200 : ℚ),mul_div_mul_left _ _ number.ne']

/-- Two cycles, each with a pulse up and half a cycle later one down. -/
def pulses : OPQMeasurement :=
  ⟨List.replicate 2 ⟨.ofFn fun i => if i.val = 0 then 1000 else if i.val = 100 then .ofInt 16 (-1000) else 0,0,0,0⟩,[0,0]⟩

def pulseWave (i : Nat) : ℚ := if i % 200 = 0 then 1000 else if i % 200 = 100 then -1000 else 0

/-- What the first filter makes of a pulse. -/
def response (r : Nat) : ℚ := if r < 128 then rotated 128 antialiasTaps r * 1000 else 0

theorem pulses_samples : samples [pulses,pulses] ++ values pulses = (List.range 1200).map pulseWave := by decide +kernel

theorem numbered_pulses {i : Nat} (inside : i < 1200) :
    numbered (samples [pulses,pulses] ++ values pulses) i = pulseWave i := by
  rw [pulses_samples,numbered]
  simp [inside]

theorem antialiased_pulses {n : Nat} (late : 13 ≤ n) :
    conv 128 (rotated 128 antialiasTaps) pulseWave (n * DECIMATION_FACTOR) =
      response (n * 10 % 200) - response ((n * 10 + 100) % 200) := by
  have split (j : Nat) (inside : j < 128) : pulseWave (n * 10 - j) =
      (if j = n * 10 % 200 then 1000 else 0) - if j = (n * 10 + 100) % 200 then 1000 else 0 := by
    rw [pulseWave]
    split_ifs <;> first | omega | norm_num
  rw [conv,DECIMATION_FACTOR,Finset.sum_congr rfl fun j member => by rw [split j (Finset.mem_range.mp member)]]
  simp only [mul_sub,mul_ite,mul_zero,Finset.sum_sub_distrib,Finset.sum_ite_eq',Finset.mem_range,response]

theorem pulses_left {n : Nat} (inside : n < 40) : cascade (numbered (samples [pulses,pulses] ++ values pulses)) (80 + n) =
    conv 64 (rotated 64 lowPassTaps) (fun k => response (k * 10 % 200) - response ((k * 10 + 100) % 200)) (80 + n % 20) := by
  refine conv_congr (fun j near => ?_) _
  have seen : ∀ i < 128, numbered (samples [pulses,pulses] ++ values pulses) ((80 + n - j) * DECIMATION_FACTOR - i) =
      pulseWave ((80 + n - j) * DECIMATION_FACTOR - i) := by
    intro i _
    refine numbered_pulses ?_
    rw [DECIMATION_FACTOR]
    omega
  rw [conv_congr seen,antialiased_pulses (by omega),show (80 + n - j) * 10 % 200 = (80 + n % 20 - j) * 10 % 200 by omega,
    show ((80 + n - j) * 10 + 100) % 200 = ((80 + n % 20 - j) * 10 + 100) % 200 by omega]

/-- The filtered wave is nonnegative from the value 12 of a period to the value 1 of the next one. -/
theorem pulses_sign {n : Nat} (inside : n < 40) :
    0 ≤ cascade (numbered (samples [pulses,pulses] ++ values pulses)) (80 + n) ↔ n % 20 < 2 ∨ 12 ≤ n % 20 := by
  have table : ∀ r < 20, 0 ≤ conv 64 (rotated 64 lowPassTaps)
      (fun k => response (k * 10 % 200) - response ((k * 10 + 100) % 200)) (80 + r) ↔ r < 2 ∨ 12 ≤ r := by decide +kernel
  rw [pulses_left inside]
  exact table _ (Nat.mod_lt n (by decide))

theorem pulses_rise {d : List ℚ} (left : d = (List.range 40).map fun n =>
    cascade (numbered (samples [pulses,pulses] ++ values pulses)) (80 + n)) : rises d = [12,32] := by
  have size : d.length = 40 := by simp [left]
  have at_n {n : Nat} (inside : n < 40) : 0 ≤ d.getD n 0 ↔ n % 20 < 2 ∨ 12 ≤ n % 20 := by
    rw [left,← pulses_sign inside]
    simp [inside]
  have test (i : Nat) (inside : i < 40) :
      Rises d i ↔ 0 < i ∧ ¬ ((i - 1) % 20 < 2 ∨ 12 ≤ (i - 1) % 20) ∧ (i % 20 < 2 ∨ 12 ≤ i % 20) :=
    and_congr_right' (and_congr (not_le.symm.trans (not_congr (at_n (by omega)))) (at_n inside))
  have only : rises d = (List.range 40).filter fun i =>
      0 < i ∧ ¬ ((i - 1) % 20 < 2 ∨ 12 ≤ (i - 1) % 20) ∧ (i % 20 < 2 ∨ 12 ≤ i % 20) := by
    rw [rises,size]
    exact List.filter_congr fun i member => decide_eq_decide.mpr (test i (List.mem_range.mp member))
  rw [only]
  decide

/-- A wave of 60 Hz. -/
theorem steady_frequency_pulses :
    frequency (({ LocalAnalysis.new 0 with state := .RUNNING }.consumeAll [pulses,pulses]).consume pulses).downSampled =
      some 60 := by
  have four : 4 ≤ ([pulses,pulses].flatMap OPQMeasurement.cycles).length := by decide
  have left := downSampled_eq (a := { LocalAnalysis.new 0 with state := .RUNNING }) rfl four pulses
  rw [samples_length,values_length] at left
  have rose := pulses_rise left
  rw [steady_frequency (a := { LocalAnalysis.new 0 with state := .RUNNING }) rfl four (p := 20) (m := pulses)]
  · norm_num
  · intro i inside
    have near : i + 20 * DECIMATION_FACTOR < 1200 := by
      rw [pulses_samples] at inside
      simpa using inside
    rw [DECIMATION_FACTOR] at near ⊢
    show numbered _ _ = numbered _ _
    rw [numbered_pulses near,numbered_pulses (by omega),pulseWave,pulseWave,Nat.add_mod_right]
  · rw [rose]
    decide
  · rw [rose]
    rfl

end Opqbox.FilterMemory
