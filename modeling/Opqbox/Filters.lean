import Mathlib.Algebra.Order.Ring.Rat
import Mathlib.Data.Nat.ModEq
import Mathlib.Tactic.Ring
import Opqbox.Fir

/-!
`AntialiasDownsamplingFilter` and `LowPassFilter` in exact arithmetic. Both are
one circular history with its own taps (`Filter`); what a `_get` returns is the
filter with the taps rotated by one (`Filter.get_tracks`).
-/
namespace Opqbox.Filters
open Opqbox.Fir

/-- The fields of a filter; `last_index` is a 32-bit unsigned int. -/
structure Filter where
  history : Nat → ℚ
  last_index : BitVec 32

def Filter.init : Filter := ⟨fun _ => 0,0⟩

def Filter.put (mask : BitVec 32) (f : Filter) (input : ℚ) : Filter where
  history := Function.update f.history (f.last_index &&& mask).toNat input
  last_index := f.last_index + 1

/-- The loop of a `_get`, over the taps from the first one on. -/
def Filter.accumulate (mask : BitVec 32) (f : Filter) : List ℚ → ℚ → BitVec 32 → ℚ
  | [], acc, _ => acc
  | tap :: taps, acc, index => f.accumulate mask taps (acc + f.history (index &&& mask).toNat * tap) (index - 1)

def Filter.get (mask : BitVec 32) (taps : List ℚ) (f : Filter) : ℚ := f.accumulate mask taps 0 f.last_index

/-- `filter_taps` of `AntialiasDownsamplingFilter.cpp`. -/
def antialiasTaps : List ℚ := [
  -0.0029035232693220584, 0.0035345367952893886, 0.0035907746457514884, 0.0043643484563067065,
  0.005497639037982969, 0.006801354610866262, 0.0081535506802464, 0.009447319657530843,
  0.01059473509764183, 0.01150408287409889, 0.012098220284890139, 0.012309275978865917,
  0.012087962251619417, 0.01140876944766184, 0.010270515813059624, 0.008703279910729032,
  0.006764278040358339, 0.004540020112676126, 0.0021405654065154915, -0.00030548111449898194,
  -0.0026574251592209213, -0.004773038293623832, -0.006515854483935016, -0.007767184474724106,
  -0.008433803159853414, -0.00845697291210588, -0.007818750371874818, -0.006545001955810458,
  -0.00470770865065877, -0.0024211572326784596, 0.00016196123292518236, 0.002860034050166745,
  0.005473057832243912, 0.007795410621743866, 0.009630915216214099, 0.010806041001926038,
  0.011185234466691606, 0.010681736494237488, 0.009268117673420211, 0.006982180758783921,
  0.003928693882239496, 0.0002783182741311163, -0.00374077489074238, -0.00785207328267802,
  -0.01174713132852428, -0.015102264804439719, -0.01759823539293515, -0.01894159160659899,
  -0.018882279113277008, -0.017234407500628993, -0.013888041136417768, -0.008822626879775457,
  -0.0021117760038726874, 0.006077038743358479, 0.01548417127873539, 0.025774585252019182,
  0.036545846419347806, 0.04735648825213341, 0.057743389284863965, 0.0672457841055638,
  0.07544259581919423, 0.08194044433790082, 0.08646028109190149, 0.08877017518770029,
  0.08877017518770029, 0.08646028109190149, 0.08194044433790082, 0.07544259581919423,
  0.0672457841055638, 0.057743389284863965, 0.04735648825213341, 0.036545846419347806,
  0.025774585252019182, 0.01548417127873539, 0.006077038743358479, -0.0021117760038726874,
  -0.008822626879775457, -0.013888041136417768, -0.017234407500628993, -0.018882279113277008,
  -0.018941591606598987, -0.01759823539293515, -0.015102264804439719, -0.01174713132852428,
  -0.00785207328267802, -0.00374077489074238, 0.0002783182741311163, 0.003928693882239496,
  0.006982180758783921, 0.009268117673420211, 0.010681736494237485, 0.011185234466691604,
  0.010806041001926038, 0.009630915216214099, 0.007795410621743866, 0.005473057832243912,
  0.002860034050166745, 0.0001619612329251828, -0.0024211572326784596, -0.004707708650658773,
  -0.006545001955810458, -0.007818750371874818, -0.00845697291210588, -0.008433803159853414,
  -0.007767184474724106, -0.0065158544839350125, -0.004773038293623832, -0.0026574251592209213,
  -0.00030548111449898194, 0.0021405654065154915, 0.004540020112676126, 0.006764278040358339,
  0.008703279910729032, 0.010270515813059624, 0.01140876944766184, 0.01208796225161942,
  0.012309275978865917, 0.012098220284890139, 0.01150408287409889, 0.01059473509764183,
  0.009447319657530843, 0.0081535506802464, 0.006801354610866262, 0.005497639037982969,
  0.004364348456306708, 0.0035907746457514884, 0.0035345367952893886, -0.002903523269322058]

/-- `filter_taps` of `LowPassFilter.cpp`. -/
def lowPassTaps : List ℚ := [
  -0.000242972945201603, 0.00931009681576234, 0.012274256140224659, 0.017695281178896027,
  0.02222714075752265, 0.02453151402463442, 0.02359360628591471, 0.01901638351399286,
  0.011274993428201667, 0.001728318226649868, -0.007612398351600763, -0.014501616648421175,
  -0.017112499894529325, -0.0145383951431215, -0.007217925289049719, 0.003046469021138364,
  0.013411026461527755, 0.020670142457790953, 0.02213690098599959, 0.016488858935162876,
  0.004345037579781999, -0.011604205168388126, -0.02703330842530798, -0.036877537881394876,
  -0.03654981187239224, -0.02315095372500509, 0.003614581913363816, 0.04108045393549397,
  0.08395023253315499, 0.12527264516297337, 0.15785608793765463, 0.17580539103103388,
  0.17580539103103388, 0.15785608793765463, 0.12527264516297337, 0.08395023253315499,
  0.04108045393549397, 0.003614581913363816, -0.02315095372500509, -0.03654981187239224,
  -0.036877537881394876, -0.02703330842530798, -0.011604205168388126, 0.004345037579781992,
  0.016488858935162876, 0.022136900985999585, 0.020670142457790953, 0.013411026461527755,
  0.003046469021138364, -0.007217925289049719, -0.0145383951431215, -0.017112499894529325,
  -0.014501616648421175, -0.007612398351600763, 0.0017283182266498685, 0.011274993428201667,
  0.01901638351399286, 0.02359360628591471, 0.024531514024634417, 0.022227140757522655,
  0.017695281178896027, 0.012274256140224659, 0.009310096815762343, -0.000242972945201603]

def AntialiasDownsamplingFilter_init : Filter := .init
def AntialiasDownsamplingFilter_put : Filter → ℚ → Filter := Filter.put 127
def AntialiasDownsamplingFilter_get : Filter → ℚ := Filter.get 127 antialiasTaps

def LowPassFilter_init : Filter := .init
def LowPassFilter_put : Filter → ℚ → Filter := Filter.put 63
def LowPassFilter_get : Filter → ℚ := Filter.get 63 lowPassTaps

theorem antialiasTaps_length : antialiasTaps.length = 128 := by decide +kernel

theorem lowPassTaps_length : lowPassTaps.length = 64 := by decide

/-! ### What the filters compute -/

/-- The tap `j`. -/
def tap (taps : List ℚ) (j : Nat) : ℚ := taps.getD j 0

/-- The values put into the filter, newest first, are those in its history. -/
structure Filter.Tracks (N : Nat) (f : Filter) (values : List ℚ) : Prop where
  index : f.last_index = BitVec.ofNat 32 values.length
  holds : Holds N f.history values

variable {N : Nat} (bits : Nat) {mask : BitVec 32}

/-- The slot at a distance back from an index. -/
theorem slot_back (size : N = 2 ^ bits) (small : bits ≤ 32) (is_mask : mask.toNat = N - 1) {n i : Nat} (near : i ≤ N) :
    ((BitVec.ofNat 32 n - BitVec.ofNat 32 i) &&& mask).toNat = (n + N - i) % N := by
  have divides : N ∣ 2 ^ 32 := size ▸ Nat.pow_dvd_pow 2 small
  have limit : i % 2 ^ 32 ≤ 2 ^ 32 := Nat.le_of_lt (Nat.mod_lt _ (by decide))
  rw [BitVec.toNat_and,is_mask,size,Nat.and_two_pow_sub_one_eq_mod,← size,BitVec.toNat_sub,BitVec.toNat_ofNat,BitVec.toNat_ofNat]
  have wrapped : i + (2 ^ 32 - i % 2 ^ 32 + n % 2 ^ 32) % 2 ^ 32 ≡ n [MOD N] := by
    refine Nat.ModEq.of_dvd divides ?_
    calc i + (2 ^ 32 - i % 2 ^ 32 + n % 2 ^ 32) % 2 ^ 32
        ≡ i % 2 ^ 32 + (2 ^ 32 - i % 2 ^ 32 + n % 2 ^ 32) [MOD 2 ^ 32] := (Nat.mod_modEq i _).symm.add (Nat.mod_modEq _ _)
      _ = n % 2 ^ 32 + 2 ^ 32 := by omega
      _ ≡ n [MOD 2 ^ 32] := (Nat.add_modEq_right).trans (Nat.mod_modEq n _)
  have plain : i + (n + N - i) ≡ n [MOD N] := by
    rw [show i + (n + N - i) = n + N by omega]
    exact Nat.add_modEq_right
  exact Nat.ModEq.add_left_cancel' i (wrapped.trans plain.symm)

theorem Filter.init_tracks : Filter.init.Tracks N [] := ⟨rfl,holds_zero⟩

/-- The last `N` values put into the filter, newest first, as its history has them. -/
def Filter.past (N : Nat) (f : Filter) : List ℚ := (List.range N).map fun j => f.history ((f.last_index.toNat + N - 1 - j) % N)

theorem Filter.past_init {x : ℚ} (member : x ∈ Filter.init.past N) : x = 0 := by
  obtain ⟨_,_,rfl⟩ := List.mem_map.mp member
  rfl

/-- Any filter holds its past, after as many values as its index counts. -/
theorem Filter.past_tracks (size : N = 2 ^ bits) (small : bits ≤ 32) (f : Filter) :
    f.Tracks N (f.past N ++ List.replicate (f.last_index.toNat + 2 ^ 32 - N) 0) := by
  have divides : N ∣ 2 ^ 32 := size ▸ Nat.pow_dvd_pow 2 small
  have limit : N ≤ 2 ^ 32 := Nat.le_of_dvd (by decide) divides
  have number : (f.past N ++ List.replicate (f.last_index.toNat + 2 ^ 32 - N) 0).length = f.last_index.toNat + 2 ^ 32 := by
    rw [List.length_append,past,List.length_map,List.length_range,List.length_replicate]
    omega
  constructor
  · rw [number,BitVec.ofNat_add,BitVec.ofNat_toNat,BitVec.setWidth_eq]
    exact (BitVec.add_zero _).symm
  · intro j inside
    obtain ⟨times,is⟩ := divides
    rw [number,List.getD_append _ _ _ _ (by simpa [past] using inside),past,List.getD_eq_getElem _ _ (by simpa using inside),
      List.getElem_map,List.getElem_range,is,
      show f.last_index.toNat + N * times + N - 1 - j = f.last_index.toNat + N - 1 - j + N * times by omega,Nat.add_mul_mod_self_left]

theorem Filter.Tracks.put (size : N = 2 ^ bits) (small : bits ≤ 32) (is_mask : mask.toNat = N - 1) {f : Filter} {values : List ℚ}
    (tracks : f.Tracks N values) (x : ℚ) : (f.put mask x).Tracks N (x :: values) := by
  constructor
  · rw [Filter.put,tracks.index,List.length_cons,BitVec.ofNat_add]
    rfl
  · have slot : (f.last_index &&& mask).toNat = values.length % N := by
      have back := slot_back bits size small is_mask (n := values.length) (Nat.zero_le N)
      rw [BitVec.sub_zero,Nat.sub_zero,Nat.add_mod_right] at back
      rw [tracks.index,back]
    show Holds N (Function.update f.history (f.last_index &&& mask).toNat x) (x :: values)
    rw [slot]
    exact tracks.holds.put x

theorem Filter.accumulate_eq (f : Filter) (taps : List ℚ) (acc : ℚ) (index : BitVec 32) :
    f.accumulate mask taps acc index = acc + ∑ i ∈ Finset.range taps.length,
      f.history ((index - BitVec.ofNat 32 i) &&& mask).toNat * tap taps i := by
  induction taps generalizing acc index with
  | nil => simp [accumulate]
  | cons t taps ih =>
    have shifted : ∀ i, index - 1 - BitVec.ofNat 32 i = index - BitVec.ofNat 32 (i + 1) := by
      intro i
      rw [BitVec.ofNat_add]
      bv_omega
    rw [accumulate,ih,List.length_cons,Finset.sum_range_succ']
    simp only [shifted,tap,List.getD_cons_succ,List.getD_cons_zero,BitVec.sub_zero]
    ring

/-- A `_get` starts at the slot that is written next, the one of the oldest value. -/
theorem Filter.get_tracks (size : N = 2 ^ bits) (small : bits ≤ 32) (is_mask : mask.toNat = N - 1) {f : Filter} {values : List ℚ}
    (tracks : f.Tracks N values) {taps : List ℚ} (number : taps.length = N) :
    f.get mask taps = fir N (fun j => tap taps ((j + 1) % N)) values := by
  rw [get,accumulate_eq,zero_add,number,tracks.index,← tracks.holds.sum_from_next]
  refine Finset.sum_congr rfl ?_
  intro i member
  rw [slot_back bits size small is_mask (Nat.le_of_lt (Finset.mem_range.mp member))]

/-- The taps as a `_get` meets them. -/
def rotated (N : Nat) (taps : List ℚ) (j : Nat) : ℚ := tap taps ((j + 1) % N)

theorem AntialiasDownsamplingFilter_put_tracks {f : Filter} {values : List ℚ} (tracks : f.Tracks 128 values) (x : ℚ) :
    (AntialiasDownsamplingFilter_put f x).Tracks 128 (x :: values) :=
  tracks.put 7 rfl (by decide) rfl x

theorem AntialiasDownsamplingFilter_get_tracks {f : Filter} {values : List ℚ} (tracks : f.Tracks 128 values) :
    AntialiasDownsamplingFilter_get f = fir 128 (rotated 128 antialiasTaps) values :=
  Filter.get_tracks 7 rfl (by decide) rfl tracks antialiasTaps_length

theorem LowPassFilter_put_tracks {f : Filter} {values : List ℚ} (tracks : f.Tracks 64 values) (x : ℚ) :
    (LowPassFilter_put f x).Tracks 64 (x :: values) :=
  tracks.put 6 rfl (by decide) rfl x

theorem LowPassFilter_get_tracks {f : Filter} {values : List ℚ} (tracks : f.Tracks 64 values) :
    LowPassFilter_get f = fir 64 (rotated 64 lowPassTaps) values :=
  Filter.get_tracks 6 rfl (by decide) rfl tracks lowPassTaps_length

end Opqbox.Filters
