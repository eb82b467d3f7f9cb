import Mathlib.Algebra.Order.Field.Basic
import Mathlib.Data.List.GetD
import Mathlib.Data.Nat.ModEq
import Mathlib.Tactic.FieldSimp
import Mathlib.Tactic.Linarith
import Mathlib.Tactic.Ring

/-!
The rising zero crossings of a sampled signal, by linear interpolation. A rise from
a negative to a nonnegative sample is followed by a fall before the next one, so
crossings are more than one sample apart (`crossing_apart`), and so is the mean of
the gaps between them (`gaps_sum`, `span_gt`).
-/
namespace Opqbox.Crossings

variable {K : Type*} [Field K] [LinearOrder K]

/-- The signal gets nonnegative with the sample `i`. -/
def Rises (d : List K) (i : Nat) : Prop := 0 < i ∧ d.getD (i - 1) 0 < 0 ∧ 0 ≤ d.getD i 0

instance (d : List K) (i : Nat) : Decidable (Rises d i) := inferInstanceAs (Decidable (_ ∧ _ ∧ _))

/-- The samples with which the signal gets nonnegative. -/
def rises (d : List K) : List Nat := (List.range d.length).filter (Rises d)

/-- Where the line between the samples `i - 1` and `i` is zero. -/
def crossing (d : List K) (i : Nat) : K := i - d.getD i 0 / (d.getD i 0 - d.getD (i - 1) 0)

def crossings (d : List K) : List K := (rises d).map (crossing d)

/-- The sum of the differences of neighbours, from an accumulator on. -/
def gaps : List K → K → K
  | a :: b :: rest, acc => gaps (b :: rest) (acc + (b - a))
  | _, acc => acc

omit [LinearOrder K] in
/-- The gaps add up to the span. -/
theorem gaps_sum (first : K) (rest : List K) (acc : K) :
    gaps (first :: rest) acc = acc + ((first :: rest).getLast (List.cons_ne_nil _ _) - first) := by
  induction rest generalizing first acc with
  | nil => simp [gaps]
  | cons next rest ih =>
    rw [gaps,ih,List.getLast_cons (List.cons_ne_nil _ _)]
    ring

variable [IsStrictOrderedRing K] {d : List K} {i j : Nat}

theorem Rises.slope (rise : Rises d i) : 0 < d.getD i 0 - d.getD (i - 1) 0 := by
  obtain ⟨_,before,now⟩ := rise
  linarith

/-- A crossing lies after the sample before it, and not after its own. -/
theorem Rises.crossing_bounds (rise : Rises d i) : (i : K) - 1 < crossing d i ∧ crossing d i ≤ i := by
  have slope := rise.slope
  obtain ⟨_,before,now⟩ := rise
  have below : d.getD i 0 / (d.getD i 0 - d.getD (i - 1) 0) < 1 := by
    rw [div_lt_one slope]
    linarith
  have above := div_nonneg now slope.le
  unfold crossing
  constructor <;> linarith

theorem crossing_apart (first : Rises d i) (second : Rises d j) (lt : i < j) : crossing d i + 1 < crossing d j := by
  -- The sample before the second rise is negative, so it is not the first rise.
  have falls : i ≠ j - 1 := by
    rintro rfl
    exact absurd second.2.1 (not_lt.mpr first.2.2)
  have before := first.crossing_bounds.2
  have after := second.crossing_bounds.1
  have steps : ((i + 2 : Nat) : K) ≤ (j : K) := Nat.cast_le.mpr (by omega)
  push_cast at steps
  linarith

theorem crossings_apart (d : List K) : (crossings d).Pairwise fun a b => a + 1 < b := by
  refine List.pairwise_map.mpr ?_
  have ascending : (rises d).Pairwise (· < ·) := List.pairwise_lt_range.filter _
  refine ascending.imp_of_mem ?_
  intro i j first second lt
  have rise {k : Nat} (member : k ∈ rises d) : Rises d k := by simpa using (List.mem_filter.mp member).2
  exact crossing_apart (rise first) (rise second) lt

/-- Points more than 1 apart span more than their number less one. -/
theorem span_gt {first next : K} {rest : List K} (apart : (first :: next :: rest).Pairwise fun a b => a + 1 < b) :
    (rest.length : K) + 1 < (first :: next :: rest).getLast (List.cons_ne_nil _ _) - first := by
  induction rest generalizing first next with
  | nil =>
    have gap := (List.pairwise_cons.mp apart).1 next (List.mem_singleton_self _)
    simp only [List.length_nil,Nat.cast_zero,List.getLast_cons_cons,List.getLast_singleton]
    linarith
  | cons third rest ih =>
    obtain ⟨gaps,others⟩ := List.pairwise_cons.mp apart
    have gap := gaps next (List.mem_cons_self ..)
    have more := ih others
    rw [List.getLast_cons (List.cons_ne_nil _ _)]
    rw [List.length_cons,Nat.cast_succ]
    linarith

/-! ### A multiple of a signal -/

omit [LinearOrder K] [IsStrictOrderedRing K] in
theorem getD_scale (c : K) (d : List K) (i : Nat) : (d.map (c * ·)).getD i 0 = c * d.getD i 0 := by
  rw [← mul_zero c,List.getD_map]
  simp

theorem rises_scale {c : K} (positive : 0 < c) (d : List K) (i : Nat) : Rises (d.map (c * ·)) i ↔ Rises d i := by
  have negative (x : K) : c * x < 0 ↔ x < 0 := by simp [mul_neg_iff,positive,positive.not_gt]
  simp only [Rises,getD_scale,negative,mul_nonneg_iff_of_pos_left positive]

omit [IsStrictOrderedRing K] in
theorem crossing_scale {c : K} (positive : 0 < c) (d : List K) (i : Nat) :
    crossing (d.map (c * ·)) i = crossing d i := by
  simp only [crossing,getD_scale,← mul_sub,mul_div_mul_left _ _ positive.ne']

/-- A positive factor moves no crossing. -/
theorem crossings_scale {c : K} (positive : 0 < c) (d : List K) : crossings (d.map (c * ·)) = crossings d := by
  have same : rises (d.map (c * ·)) = rises d := by
    rw [rises,rises,List.length_map]
    exact List.filter_congr fun i _ => by simp only [rises_scale positive]
  rw [crossings,crossings,same]
  exact List.map_congr_left fun i _ => crossing_scale positive d i

/-! ### A signal with a period -/

/-- From each sample to the one a period later. -/
def Repeats (p : Nat) (d : List K) : Prop := ∀ i, i + p < d.length → d.getD (i + p) 0 = d.getD i 0

omit [IsStrictOrderedRing K] in
theorem Rises.later (rise : Rises d i) {p : Nat} (repeats : Repeats p d) (inside : i + p < d.length) : Rises d (i + p) := by
  obtain ⟨positive,before,now⟩ := rise
  have earlier := repeats (i - 1) (by omega)
  rw [show i - 1 + p = i + p - 1 by omega] at earlier
  exact ⟨by omega,earlier.symm ▸ before,(repeats i inside).symm ▸ now⟩

omit [LinearOrder K] [IsStrictOrderedRing K] in
theorem crossing_later {p : Nat} (repeats : Repeats p d) (positive : 0 < i) (inside : i + p < d.length) :
    crossing d (i + p) = crossing d i + p := by
  have earlier := repeats (i - 1) (by omega)
  rw [show i - 1 + p = i + p - 1 by omega] at earlier
  rw [crossing,crossing,repeats i inside,earlier,Nat.cast_add]
  ring

omit [LinearOrder K] [IsStrictOrderedRing K] in
theorem crossing_steps {p : Nat} (repeats : Repeats p d) (positive : 0 < i) (k : Nat) (inside : i + k * p < d.length) :
    crossing d (i + k * p) = crossing d i + k * p := by
  induction k with
  | zero => simp
  | succ k ih =>
    have next : i + (k + 1) * p = i + k * p + p := by ring
    rw [next] at inside ⊢
    rw [crossing_later repeats (by omega) inside,ih (by omega)]
    push_cast
    ring

/-- Numbers at distances that are multiples of `p`, and none is left out: the last one
    is as many periods after the first as there are steps. -/
theorem last_of_steps {p first : Nat} {rest : List Nat} (ascending : (first :: rest).Pairwise (· < ·))
    (same : ∀ i ∈ first :: rest, i % p = first % p)
    (dense : ∀ i ∈ first :: rest, i + p ≤ (first :: rest).getLast (List.cons_ne_nil _ _) → i + p ∈ first :: rest) :
    (first :: rest).getLast (List.cons_ne_nil _ _) = first + rest.length * p := by
  induction rest generalizing first with
  | nil => simp
  | cons next rest ih =>
    obtain ⟨above,others⟩ := List.pairwise_cons.mp ascending
    rw [List.getLast_cons (List.cons_ne_nil _ _)] at dense ⊢
    have least : ∀ i ∈ next :: rest, next ≤ i := by
      intro i member
      rcases List.mem_cons.mp member with rfl | later
      · exact le_rfl
      · exact ((List.pairwise_cons.mp others).1 i later).le
    have lt := above next (List.mem_cons_self ..)
    have far : first + p ≤ next := by
      have gap := (Nat.modEq_iff_dvd' lt.le).mp (same next (by simp)).symm
      have wide := Nat.le_of_dvd (by omega) gap
      omega
    have is : next = first + p := by
      have reached := dense first (List.mem_cons_self ..) (far.trans (least _ (List.getLast_mem _)))
      rcases List.mem_cons.mp reached with none | later
      · have zero : p = 0 := by omega
        have divides := (Nat.modEq_iff_dvd' lt.le).mp (same next (by simp)).symm
        rw [zero,Nat.zero_dvd] at divides
        omega
      · exact le_antisymm (least _ later) far
    rw [ih others ?_ ?_,List.length_cons,is]
    · ring
    · intro i member
      rw [same i (List.mem_cons_of_mem _ member),same next (by simp)]
    · intro i member inside
      have reached := dense i (List.mem_cons_of_mem _ member) inside
      rcases List.mem_cons.mp reached with back | later
      · have := above i member
        omega
      · exact later

omit [IsStrictOrderedRing K] in
/-- With one rise a period the crossings are a period apart. -/
theorem crossings_span {p : Nat} (repeats : Repeats p d) (once : ∀ i ∈ rises d, ∀ j ∈ rises d, i % p = j % p)
    {first : K} {rest : List K} (crossed : crossings d = first :: rest) :
    (first :: rest).getLast (List.cons_ne_nil _ _) - first = rest.length * p := by
  obtain ⟨i,later,rose,rfl,rfl⟩ := List.map_eq_cons_iff.mp crossed
  have rise {j : Nat} (member : j ∈ i :: later) : j < d.length ∧ Rises d j := by
    rw [← rose] at member
    simpa using List.mem_filter.mp member
  have ascending : (i :: later).Pairwise (· < ·) := by
    rw [← rose]
    exact List.pairwise_lt_range.filter _
  have last := last_of_steps (p := p) ascending (fun j member => once j (rose ▸ member) i (rose ▸ List.mem_cons_self ..)) ?_
  · have inside := (rise (List.getLast_mem (List.cons_ne_nil i later))).1
    have moved := crossing_steps repeats (rise (List.mem_cons_self ..)).2.1 later.length (last ▸ inside)
    have final : (crossing d i :: later.map (crossing d)).getLast (List.cons_ne_nil _ _) = crossing d (i + later.length * p) :=
      (List.getLast_map (f := crossing d) (l := i :: later) (List.cons_ne_nil _ _)).trans (congrArg (crossing d) last)
    rw [final,moved,List.length_map]
    ring
  · intro j member inside
    have inside' := inside.trans_lt (rise (List.getLast_mem (List.cons_ne_nil i later))).1
    rw [← rose]
    exact List.mem_filter.mpr ⟨List.mem_range.mpr inside',by simpa using (rise member).2.later repeats inside'⟩

end Opqbox.Crossings
