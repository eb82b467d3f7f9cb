import Mathlib.Algebra.BigOperators.Intervals
import Mathlib.Algebra.BigOperators.Ring.Finset
import Mathlib.Data.List.GetD
import Opqbox.Windows

/-!
Finite impulse response filters over the last `N` values of a stream, with the
stream given newest value first, and the circular history that keeps those
values (`Holds`).
-/
namespace Opqbox.Fir
open Opqbox.Windows

variable {R : Type*} [CommRing R] {N : Nat}

/-- The taps applied to the stream, the first one to its newest value; before
    the start the stream is 0. -/
def fir (N : Nat) (taps : Nat → R) (values : List R) : R := ∑ j ∈ Finset.range N, taps j * values.getD j 0

theorem fir_sub (a b : Nat → R) (values : List R) :
    fir N (fun j => a j - b j) values = fir N a values - fir N b values := by
  simp only [fir,sub_mul,Finset.sum_sub_distrib]

/-- Two filters agree on a stream where their difference vanishes on it. -/
theorem fir_eq_iff (a b : Nat → R) (values : List R) :
    fir N a values = fir N b values ↔ fir N (fun j => a j - b j) values = 0 := by
  rw [fir_sub,sub_eq_zero]

/-- On a value after zeros only the first tap counts. -/
theorem fir_impulse (pos : 0 < N) (taps : Nat → R) (x : R) (n : Nat) :
    fir N taps (x :: List.replicate n 0) = taps 0 * x := by
  rw [fir,Finset.sum_eq_single 0]
  · rfl
  · intro j _ later
    obtain ⟨i,rfl⟩ := Nat.exists_eq_succ_of_ne_zero later
    rw [List.getD_cons_succ,List.getD_eq_getElem?_getD,List.getElem?_getD_replicate_default_eq,mul_zero]
  · intro outside
    exact absurd (Finset.mem_range.mpr pos) outside

theorem fir_of_zeros {values : List R} (zeros : ∀ x ∈ values, x = 0) (taps : Nat → R) : fir N taps values = 0 := by
  refine Finset.sum_eq_zero ?_
  intro j _
  rw [List.getD_eq_getElem?_getD]
  cases is : values[j]? with
  | none => exact mul_zero _
  | some x =>
    rw [Option.getD_some,zeros x (List.mem_of_getElem? is),mul_zero]

/-- Only the last `N` values count. -/
theorem fir_append {values : List R} (enough : N ≤ values.length) (taps : Nat → R) (older : List R) :
    fir N taps (values ++ older) = fir N taps values := by
  refine Finset.sum_congr rfl ?_
  intro j member
  have inside := Finset.mem_range.mp member
  rw [List.getD_append _ _ _ _ (inside.trans_le enough)]

/-! ### On a numbered stream -/

/-- The taps applied to the values up to the `n`th one of a stream. -/
def conv (N : Nat) (taps x : Nat → R) (n : Nat) : R := ∑ j ∈ Finset.range N, taps j * x (n - j)

/-- Where enough values were seen, nothing older counts. -/
theorem fir_reverse {n : Nat} (enough : N ≤ n + 1) (taps x : Nat → R) (older : List R) :
    fir N taps (((List.range (n + 1)).map x).reverse ++ older) = conv N taps x n := by
  refine Finset.sum_congr rfl ?_
  intro j member
  have inside := Finset.mem_range.mp member
  rw [List.getD_append _ _ _ _ (by simp; omega),List.getD_eq_getElem _ _ (by simp; omega),List.getElem_reverse,
    List.getElem_map,List.getElem_range,List.length_map,List.length_range,Nat.add_sub_cancel]

/-- Only the last `N` values count, wherever they are. -/
theorem conv_congr {x y : Nat → R} {n m : Nat} (same : ∀ j < N, x (n - j) = y (m - j)) (taps : Nat → R) :
    conv N taps x n = conv N taps y m :=
  Finset.sum_congr rfl fun j member => by rw [same j (Finset.mem_range.mp member)]

theorem conv_scale (c : R) (taps x : Nat → R) (n : Nat) : conv N taps (fun i => c * x i) n = c * conv N taps x n := by
  rw [conv,conv,Finset.mul_sum]
  exact Finset.sum_congr rfl fun j _ => mul_left_comm ..

/-! ### Histories -/

/-- Each of the last `N` values is in its slot. -/
def Holds (N : Nat) (history : Nat → R) (values : List R) : Prop :=
  ∀ j < N, history ((values.length + N - 1 - j) % N) = values.getD j 0

theorem holds_zero : Holds N (fun _ => (0 : R)) [] := by
  intro j _
  simp

theorem Holds.put {history : Nat → R} {values : List R} (holds : Holds N history values) (x : R) :
    Holds N (Function.update history (values.length % N) x) (x :: values) := by
  intro j inside
  cases j with
  | zero =>
    have newest : ((x :: values).length + N - 1 - 0) % N = values.length % N := by
      rw [List.length_cons,show values.length + 1 + N - 1 - 0 = values.length + N by omega,Nat.add_mod_right]
    rw [newest,Function.update_self,List.getD_cons_zero]
  | succ j =>
    have older : (x :: values).length + N - 1 - (j + 1) = values.length + N - 1 - j := by
      rw [List.length_cons]
      omega
    have apart : (values.length + N - 1 - j) % N ≠ values.length % N := (slot_ne (by omega) (by omega)).symm
    rw [older,Function.update_of_ne apart,List.getD_cons_succ]
    exact holds j (by omega)

/-- Each slot holds one of the values, which was put into it. -/
def Filled (N : Nat) (history : Nat → R) (values : List R) : Prop :=
  ∀ i < N, ∃ j, ∃ inside : j < values.length, history i = values[j] ∧ (values.length - 1 - j) % N = i

/-- After `N` values every slot has been written. -/
theorem Holds.filled {history : Nat → R} {values : List R} (holds : Holds N history values) (full : N ≤ values.length) :
    Filled N history values := by
  intro i inside
  have split := Nat.div_add_mod (values.length - 1 - i) N
  have near := Nat.mod_lt (values.length - 1 - i) (show 0 < N by omega)
  refine ⟨(values.length - 1 - i) % N,by omega,?_,?_⟩
  · have slot : (values.length + N - 1 - (values.length - 1 - i) % N) % N = i := by
      rw [show values.length + N - 1 - (values.length - 1 - i) % N = i + N * ((values.length - 1 - i) / N) + N by omega,
        Nat.add_mod_right,Nat.add_mul_mod_self_left,Nat.mod_eq_of_lt inside]
    have at_slot := holds _ near
    rw [slot] at at_slot
    rw [at_slot,List.getD_eq_getElem?_getD,List.getElem?_eq_getElem (by omega),Option.getD_some]
  · rw [show values.length - 1 - (values.length - 1 - i) % N = i + N * ((values.length - 1 - i) / N) by omega,
      Nat.add_mul_mod_self_left,Nat.mod_eq_of_lt inside]

/-- Reading back from the slot that is written next takes the oldest value first. -/
theorem Holds.sum_from_next {history : Nat → R} {values : List R} (holds : Holds N history values) (taps : Nat → R) :
    ∑ i ∈ Finset.range N, history ((values.length + N - i) % N) * taps i = fir N (fun j => taps ((j + 1) % N)) values := by
  cases N with
  | zero => rfl
  | succ N =>
    rw [fir,Finset.sum_range_succ',Finset.sum_range_succ]
    congr 1
    · refine Finset.sum_congr rfl ?_
      intro j member
      have inside := Finset.mem_range.mp member
      rw [show values.length + (N + 1) - (j + 1) = values.length + (N + 1) - 1 - j by omega,holds j (by omega),
        Nat.mod_eq_of_lt (show j + 1 < N + 1 by omega),mul_comm]
    · have oldest : values.length + (N + 1) - 1 - N = values.length := by omega
      have last := holds N (Nat.lt_succ_self N)
      rw [oldest] at last
      rw [Nat.sub_zero,Nat.add_mod_right,last,Nat.mod_self,mul_comm]

end Opqbox.Fir
