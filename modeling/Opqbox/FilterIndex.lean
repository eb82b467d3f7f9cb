import Opqbox.Filters

/-!
The index of the filters. `last_index` is an `unsigned int`, which wraps, but a
`_get` counts down a copy of it that is an `int`: where the copy runs below the
least `int`, the decrement is not defined (`gets_sound_iff`). Elsewhere a `_get`
returns what the wrapping index of `Filter.get` does (`Filter.getChecked_some`).
-/
namespace Opqbox.Filters
open Opqbox.Fir Opqbox.Windows

/-- `index--` on an `int`; nothing where this overflows. -/
def decrement (index : BitVec 32) : Option (BitVec 32) := if index.ssubOverflow 1 then none else some (index - 1)

/-- The loop of a `_get`, with the slots that it reads. -/
def Filter.visit (mask : BitVec 32) (f : Filter) : List ℚ → ℚ → BitVec 32 → Option (ℚ × List Nat)
  | [], acc, _ => some (acc,[])
  | tap :: taps, acc, index =>
    let slot := (index &&& mask).toNat
    match decrement index with
    | none => none
    | some next => (f.visit mask taps (acc + f.history slot * tap) next).map fun read => (read.1,slot :: read.2)

/-- A `_get` where it is defined; the assignment of `last_index` to the `int` keeps its bits. -/
def Filter.getChecked (mask : BitVec 32) (taps : List ℚ) (f : Filter) : Option (ℚ × List Nat) :=
  f.visit mask taps 0 f.last_index

def AntialiasDownsamplingFilter_getChecked : Filter → Option (ℚ × List Nat) := Filter.getChecked 127 antialiasTaps

def LowPassFilter_getChecked : Filter → Option (ℚ × List Nat) := Filter.getChecked 63 lowPassTaps

/-- The `_get` overflows nowhere, and reads each of the slots once. -/
def Sound (N : Nat) (get : Option (ℚ × List Nat)) : Prop :=
  ∃ acc slots, get = some (acc,slots) ∧ slots.Perm (List.range N)

/-- Counted down from `n`, as an `int`, one of `N` numbers is the least `int`. -/
def Underruns (N n : Nat) : Prop := 2 ^ 31 ≤ n % 2 ^ 32 ∧ n % 2 ^ 32 < 2 ^ 31 + N

instance (N n : Nat) : Decidable (Underruns N n) := inferInstanceAs (Decidable (_ ∧ _))

/-! ### Counting down -/

theorem decrement_eq (index : BitVec 32) : decrement index = if index.toNat = 2 ^ 31 then none else some (index - 1) := by
  have least : index.ssubOverflow 1 = true ↔ index.toNat = 2 ^ 31 := by
    have range := index.isLt
    simp only [BitVec.ssubOverflow,Bool.or_eq_true,decide_eq_true_eq,BitVec.toInt_eq_toNat_cond]
    simp
    split_ifs <;> omega
  unfold decrement
  simp only [least]

theorem back_succ (index : BitVec 32) (i : Nat) : index - 1 - BitVec.ofNat 32 i = index - BitVec.ofNat 32 (i + 1) := by
  rw [BitVec.ofNat_add]
  bv_omega

/-- The slots that the loop reads from an index on. -/
def slotsFrom (mask index : BitVec 32) (number : Nat) : List Nat :=
  (List.range number).map fun i => ((index - BitVec.ofNat 32 i) &&& mask).toNat

theorem slotsFrom_succ (mask index : BitVec 32) (number : Nat) :
    slotsFrom mask index (number + 1) = (index &&& mask).toNat :: slotsFrom mask (index - 1) number := by
  unfold slotsFrom
  rw [List.range_succ_eq_map,List.map_cons,List.map_map,BitVec.sub_zero]
  congr 1
  apply List.map_congr_left
  intro i _
  rw [Function.comp_apply,back_succ]

variable {mask : BitVec 32} {f : Filter}

/-- Where the index never is the least `int`, the loop ends with the sum of `Filter.accumulate`. -/
theorem Filter.visit_some (taps : List ℚ) (acc : ℚ) (index : BitVec 32)
    (above : ∀ i < taps.length, (index - BitVec.ofNat 32 i).toNat ≠ 2 ^ 31) :
    f.visit mask taps acc index = some (f.accumulate mask taps acc index,slotsFrom mask index taps.length) := by
  induction taps generalizing acc index with
  | nil => rfl
  | cons tap taps ih =>
    have first := above 0 (Nat.succ_pos _)
    rw [BitVec.sub_zero] at first
    have rest : ∀ i < taps.length, (index - 1 - BitVec.ofNat 32 i).toNat ≠ 2 ^ 31 := by
      intro i inside
      rw [back_succ]
      exact above (i + 1) (Nat.succ_lt_succ inside)
    simp only [visit,decrement_eq,if_neg first,ih _ _ rest,Option.map_some,accumulate,List.length_cons,slotsFrom_succ]

/-- Where the index is the least `int` at some tap, the loop has no result. -/
theorem Filter.visit_none (taps : List ℚ) (acc : ℚ) (index : BitVec 32) {i : Nat} (inside : i < taps.length)
    (least : (index - BitVec.ofNat 32 i).toNat = 2 ^ 31) : f.visit mask taps acc index = none := by
  induction taps generalizing acc index i with
  | nil => exact absurd inside (Nat.not_lt_zero i)
  | cons tap taps ih =>
    unfold visit
    by_cases now : index.toNat = 2 ^ 31
    · simp only [decrement_eq,if_pos now]
    · cases i with
      | zero =>
        rw [BitVec.sub_zero] at least
        exact absurd least now
      | succ i =>
        rw [← back_succ] at least
        simp only [decrement_eq,if_neg now,ih _ _ (Nat.lt_of_succ_lt_succ inside) least,Option.map_none]

/-! ### After any number of values -/

theorem back_least_iff {n i : Nat} (near : i < 2 ^ 31) :
    (BitVec.ofNat 32 n - BitVec.ofNat 32 i).toNat = 2 ^ 31 ↔ n % 2 ^ 32 = 2 ^ 31 + i := by
  rw [BitVec.toNat_sub,BitVec.toNat_ofNat,BitVec.toNat_ofNat]
  omega

variable {N : Nat} (bits : Nat) {values : List ℚ} {taps : List ℚ}

theorem Filter.getChecked_some (tracks : f.Tracks N values) (number : taps.length = N) (small : N ≤ 2 ^ 31)
    (above : ¬ Underruns N values.length) :
    f.getChecked mask taps = some (f.get mask taps,slotsFrom mask (BitVec.ofNat 32 values.length) N) := by
  unfold getChecked get
  rw [tracks.index,← number]
  apply visit_some
  intro i inside least
  rw [back_least_iff (by omega)] at least
  unfold Underruns at above
  omega

theorem Filter.getChecked_none (tracks : f.Tracks N values) (number : taps.length = N)
    (below : Underruns N values.length) : f.getChecked mask taps = none := by
  obtain ⟨least,near⟩ := below
  unfold getChecked
  rw [tracks.index]
  refine visit_none taps 0 _ (i := values.length % 2 ^ 32 - 2 ^ 31) (by omega) ?_
  rw [back_least_iff (by omega)]
  omega

/-- The slots of `N` numbers down from any index, whether it wraps or not. -/
theorem slotsFrom_perm (size : N = 2 ^ bits) (small : bits ≤ 32) (is_mask : mask.toNat = N - 1) (n : Nat) :
    (slotsFrom mask (BitVec.ofNat 32 n) N).Perm (List.range N) := by
  have slots : slotsFrom mask (BitVec.ofNat 32 n) N = (List.range N).map fun i => (n + N - i) % N := by
    apply List.map_congr_left
    intro i member
    exact slot_back bits size small is_mask (Nat.le_of_lt (List.mem_range.mp member))
  rw [slots]
  exact slots_back_perm N n

/-- A `_get` is sound where its index does not underrun. -/
theorem Filter.sound_iff (size : N = 2 ^ bits) (small : bits ≤ 31) (is_mask : mask.toNat = N - 1)
    (tracks : f.Tracks N values) (number : taps.length = N) :
    Sound N (f.getChecked mask taps) ↔ ¬ Underruns N values.length := by
  have limit : N ≤ 2 ^ 31 := size ▸ Nat.pow_le_pow_right (by decide) small
  by_cases below : Underruns N values.length
  · rw [getChecked_none tracks number below]
    constructor
    · rintro ⟨_,_,is,_⟩
      cases is
    · intro above
      exact absurd below above
  · rw [getChecked_some tracks number limit below]
    have each := slotsFrom_perm bits size (Nat.le_succ_of_le small) is_mask values.length
    exact ⟨fun _ => below,fun _ => ⟨_,_,rfl,each⟩⟩

/-- The filter after some values, the first one put first. -/
theorem Filter.puts_tracks (size : N = 2 ^ bits) (small : bits ≤ 32) (is_mask : mask.toNat = N - 1) (inputs : List ℚ) :
    (inputs.foldl (Filter.put mask) .init).Tracks N inputs.reverse := by
  induction inputs using List.reverseRecOn with
  | nil => exact Filter.init_tracks
  | append_singleton inputs x ih =>
    rw [List.foldl_append,List.reverse_append]
    exact ih.put bits size small is_mask x

theorem Filter.puts_sound_iff (size : N = 2 ^ bits) (small : bits ≤ 31) (is_mask : mask.toNat = N - 1) (number : taps.length = N)
    (inputs : List ℚ) : Sound N ((inputs.foldl (Filter.put mask) .init).getChecked mask taps) ↔ ¬ Underruns N inputs.length := by
  have tracks := puts_tracks bits size (Nat.le_succ_of_le small) is_mask inputs
  rw [sound_iff bits size small is_mask tracks number,List.length_reverse]

theorem AntialiasDownsamplingFilter_sound_iff (inputs : List ℚ) :
    Sound 128 (AntialiasDownsamplingFilter_getChecked (inputs.foldl AntialiasDownsamplingFilter_put AntialiasDownsamplingFilter_init)) ↔
      ¬ Underruns 128 inputs.length :=
  Filter.puts_sound_iff 7 rfl (by decide) rfl antialiasTaps_length inputs

theorem LowPassFilter_sound_iff (inputs : List ℚ) :
    Sound 64 (LowPassFilter_getChecked (inputs.foldl LowPassFilter_put LowPassFilter_init)) ↔ ¬ Underruns 64 inputs.length :=
  Filter.puts_sound_iff 6 rfl (by decide) rfl lowPassTaps_length inputs

/-- After any values, a `_get` overflows nowhere and reads each slot once, unless the
    number of the values is, up to the wrap, within a history's length of `2 ^ 31`. -/
theorem gets_sound_iff (inputs : List ℚ) :
    (Sound 128 (AntialiasDownsamplingFilter_getChecked (inputs.foldl AntialiasDownsamplingFilter_put AntialiasDownsamplingFilter_init)) ↔
      ¬ (2 ^ 31 ≤ inputs.length % 2 ^ 32 ∧ inputs.length % 2 ^ 32 < 2 ^ 31 + 128)) ∧
    (Sound 64 (LowPassFilter_getChecked (inputs.foldl LowPassFilter_put LowPassFilter_init)) ↔
      ¬ (2 ^ 31 ≤ inputs.length % 2 ^ 32 ∧ inputs.length % 2 ^ 32 < 2 ^ 31 + 64)) :=
  ⟨AntialiasDownsamplingFilter_sound_iff inputs,LowPassFilter_sound_iff inputs⟩

/-- At 200 samples a cycle, the first sample after `2 ^ 31` for which `LocalAnalysis::loop`
    calls a `_get`: the sample 50 of a cycle. -/
theorem get_overflows : ¬ Sound 128 (AntialiasDownsamplingFilter_getChecked
    ((List.replicate (200 * 10737418 + 51) 0).foldl AntialiasDownsamplingFilter_put AntialiasDownsamplingFilter_init)) := by
  rw [AntialiasDownsamplingFilter_sound_iff,List.length_replicate]
  decide

end Opqbox.Filters
