import Mathlib.Data.List.Nodup
import Mathlib.Data.List.Perm.Subperm
import Mathlib.Logic.Function.Basic
import Mathlib.Tactic.TypeStar

/-!
Streams kept in a circular buffer: the element numbered `k` lies in the slot
`k % N`. A window is a range of numbers whose elements are all still there
(`Window`); storing the next element moves its end, and its start with it
where the buffer is full (`Window.push`).
-/
namespace Opqbox.Windows

variable {α : Type*} {N : Nat} {data : Nat → α} {elem : Nat → α} {lo hi : Nat}

/-- The elements numbered from `lo` up to `hi` are each in their slot. -/
def Window (N : Nat) (data elem : Nat → α) (lo hi : Nat) : Prop :=
  ∀ k, lo ≤ k → k < hi → data (k % N) = elem k

/-- Two numbers less than `N` apart have different slots. -/
theorem slot_ne {a b : Nat} (lt : a < b) (near : b < a + N) : a % N ≠ b % N := by
  intro same
  have gap : (b - a) % N = 0 := Nat.sub_mod_eq_zero_of_mod_eq same.symm
  rw [Nat.mod_eq_of_lt (by omega)] at gap
  omega

/-- Going back once around the buffer meets each slot once. -/
theorem slots_back_perm (N n : Nat) : ((List.range N).map fun i => (n + N - i) % N).Perm (List.range N) := by
  have apart : ((List.range N).map fun i => (n + N - i) % N).Nodup := by
    apply List.Nodup.map_on ?_ List.nodup_range
    intro i inside j inside' same
    have near := List.mem_range.mp inside
    have near' := List.mem_range.mp inside'
    by_contra ne
    rcases Nat.lt_or_gt_of_ne ne with lt | gt
    · exact slot_ne (show n + N - j < n + N - i by omega) (by omega) same.symm
    · exact slot_ne (show n + N - i < n + N - j by omega) (by omega) same
  refine (apart.subperm ?_).perm_of_length_le (by simp)
  intro slot member
  obtain ⟨i,inside,rfl⟩ := List.mem_map.mp member
  have near := List.mem_range.mp inside
  exact List.mem_range.mpr (Nat.mod_lt _ (by omega))

/-- A slot number that starts again from 0 at the end of the buffer. -/
theorem slot_succ (pos : 0 < N) (k : Nat) : (if k % N + 1 ≥ N then 0 else k % N + 1) = (k + 1) % N := by
  have inside := Nat.mod_lt k pos
  have next : (k + 1) % N = (k % N + 1) % N := (Nat.mod_add_mod k N 1).symm
  rw [next]
  split
  · have last : k % N + 1 = N := by omega
    rw [last, Nat.mod_self]
  · exact (Nat.mod_eq_of_lt (by omega)).symm

/-- The distance from one slot to another, counted around the buffer. -/
theorem slot_distance (le : lo ≤ hi) (near : hi < lo + N) : (hi % N + N - lo % N) % N = hi - lo := by
  have inside := Nat.mod_lt lo (show 0 < N by omega)
  obtain ⟨d, rfl⟩ := Nat.exists_eq_add_of_le le
  have split : (lo + d) % N + N - lo % N = (lo + d) % N + (N - lo % N) := by omega
  rw [split, Nat.mod_add_mod, show lo + d + (N - lo % N) = d + (lo - lo % N) + N by have := Nat.mod_le lo N; omega,
    Nat.add_mod_right, Nat.add_mod, Nat.sub_mod_eq_zero_of_mod_eq (Nat.mod_mod lo N).symm, Nat.add_zero, Nat.mod_mod,
    Nat.mod_eq_of_lt (by omega)]
  omega

theorem Window.mono (window : Window N data elem lo hi) {lo' hi' : Nat} (low : lo ≤ lo') (high : hi' ≤ hi) :
    Window N data elem lo' hi' :=
  fun k from_lo to_hi => window k (Nat.le_trans low from_lo) (Nat.lt_of_lt_of_le to_hi high)

theorem Window.congr (window : Window N data elem lo hi) (elem' : Nat → α)
    (same : ∀ k, lo ≤ k → k < hi → elem k = elem' k) : Window N data elem' lo hi :=
  fun k from_lo to_hi => (window k from_lo to_hi).trans (same k from_lo to_hi)

/-- A change of a slot that no element of the window uses. -/
theorem Window.frame (window : Window N data elem lo hi) {data' : Nat → α}
    (same : ∀ k, lo ≤ k → k < hi → data' (k % N) = data (k % N)) : Window N data' elem lo hi :=
  fun k from_lo to_hi => (same k from_lo to_hi).trans (window k from_lo to_hi)

/-- The next element is stored: the window ends after it, and starts where
    at most `N` elements are left. -/
theorem Window.push (window : Window N data elem lo hi) (lo' : Nat) (low : lo ≤ lo') (room : hi < lo' + N) :
    Window N (Function.update data (hi % N) (elem hi)) elem lo' (hi + 1) := by
  intro k from_lo to_hi
  rcases Nat.lt_succ_iff_lt_or_eq.mp to_hi with earlier | rfl
  · rw [Function.update_of_ne (slot_ne earlier (by omega))]
    exact window k (by omega) earlier
  · exact Function.update_self ..

end Opqbox.Windows
