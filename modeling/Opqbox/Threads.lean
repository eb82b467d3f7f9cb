import Mathlib.Algebra.BigOperators.Group.Finset.Basic
import Mathlib.Data.Fintype.Basic

/-!
Threads with a position each, any finite number of them. When one thread moves,
the number of threads at positions of a kind changes by what this thread leaves
and enters (`number_move`). A mutex is guarded where exactly the thread that has
it is at a position that needs it (`Guarded`).
-/
namespace Opqbox.Threads
open Function

variable {Thread Position : Type*}

section
variable [Fintype Thread]

/-- How many threads are at a position of the kind. -/
def number (kind : Position → Bool) (threads : Thread → Position) : Nat := ∑ i, (kind (threads i)).toNat

theorem number_eq_zero_iff {kind : Position → Bool} {threads : Thread → Position} :
    number kind threads = 0 ↔ ∀ i, kind (threads i) = false := by
  rw [number,Finset.sum_eq_zero_iff]
  simp

theorem number_move [DecidableEq Thread] (kind : Position → Bool) (threads : Thread → Position) (i : Thread) (p : Position) :
    number kind (update threads i p) + (kind (threads i)).toNat = number kind threads + (kind p).toNat := by
  have others : ∑ j ∈ Finset.univ.erase i, (kind (update threads i p j)).toNat =
      ∑ j ∈ Finset.univ.erase i, (kind (threads j)).toNat := by
    refine Finset.sum_congr rfl ?_
    intro j member
    rw [update_of_ne (Finset.ne_of_mem_erase member)]
  have before := Finset.add_sum_erase Finset.univ (fun j => (kind (threads j)).toNat) (Finset.mem_univ i)
  have after := Finset.add_sum_erase Finset.univ (fun j => (kind (update threads i p j)).toNat) (Finset.mem_univ i)
  simp only [update_self,others] at after
  unfold number
  omega

end

/-- Exactly the thread that has the mutex is at a position that needs it. -/
def Guarded (needs : Position → Bool) (mutex : Option Thread) (threads : Thread → Position) : Prop :=
  ∀ i, needs (threads i) = true ↔ mutex = some i

variable [DecidableEq Thread] {needs : Position → Bool} {mutex : Option Thread} {threads : Thread → Position} {i : Thread} {p : Position}

theorem Guarded.lock (guarded : Guarded needs none threads) (enters : needs p = true) :
    Guarded needs (some i) (update threads i p) := by
  intro j
  by_cases is : j = i
  · simp [is,enters]
  · have free := guarded j
    simp only [update_of_ne is,Option.some.injEq]
    simp only [reduceCtorEq,iff_false] at free
    exact iff_of_false free (Ne.symm is)

theorem Guarded.unlock (guarded : Guarded needs mutex threads) (leaves : needs (threads i) = true) (out : needs p = false) :
    Guarded needs none (update threads i p) := by
  intro j
  by_cases is : j = i
  · simp [is,out]
  · have other := guarded j
    rw [(guarded i).mp leaves] at other
    simp only [Option.some.injEq] at other
    simp only [update_of_ne is,reduceCtorEq,iff_false]
    exact fun has => is (other.mp has).symm

theorem Guarded.move (guarded : Guarded needs mutex threads) (same : needs p = needs (threads i)) :
    Guarded needs mutex (update threads i p) := by
  intro j
  by_cases is : j = i
  · rw [is,update_self,same]
    exact guarded i
  · rw [update_of_ne is]
    exact guarded j

end Opqbox.Threads
