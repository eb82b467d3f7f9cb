import Mathlib.Data.List.Nodup
import Mathlib.Data.List.Range
import Opqbox.Driver

/-!
The ring of the kernel driver. The contents of the slots form a stream, which
the initial contents of slot 0 begin: the elements taken out so far, by a read
or an eviction, are those below `removed`, and the others are in their slots
(`Invariant`). The positions, the semaphore and the waiting reads count the
same queue, up to the element that is there from the start.
-/
namespace Opqbox.Driver
open Opqbox.Runs Opqbox.Windows

variable {Bytes : Type*}

/-- The stream of written frames, from the initial contents of slot 0. -/
def stream (memory : Nat → Bytes) (stored : List (Int × Bytes)) : Nat → Bytes
  | 0 => memory 0
  | k+1 => (stored[k]?.map Prod.snd).getD (memory 0)

/-- The slot that holds the element `k` of the stream. -/
def element (memory : Nat → Bytes) (stored : List (Int × Bytes)) (k : Nat) : Slot Bytes :=
  ⟨stream memory stored k, some k⟩

namespace State

/-- How many elements of the stream have left the ring. -/
def removed (s : State Bytes) : Nat := s.copied.length + s.evicted.length

/-- The numbers of the elements that the reads copied, in the order of the reads. -/
def copiedNumbers (s : State Bytes) : List Nat := s.copied.map fun c => c.slot.number.getD 0

def evictedNumbers (s : State Bytes) : List Nat := s.evicted.map fun e => e.slot.number.getD 0

end State

/-- What holds between two steps of the driver. -/
structure Invariant (memory : Nat → Bytes) (s : State Bytes) : Prop where
  writer : s.cycles.writer_pos = (s.stored.length + 1) % 10
  reader : s.cycles.reader_pos = s.removed % 10
  tokens : s.cycles.sem + s.readers + s.removed = s.stored.length
  room : s.stored.length ≤ s.removed + 8
  window : Window 10 s.cycles.data (element memory s.stored) s.removed (s.stored.length + 1)
  copies : ∀ c ∈ s.copied, ∃ k ≤ s.stored.length, c.slot = element memory s.stored k
  evictions : ∀ e ∈ s.evicted, ∃ k, k + 8 ≤ s.stored.length ∧ e.slot = element memory s.stored k ∧
    e.present = (List.range' k 9).map (element memory s.stored)
  ordered : s.copiedNumbers.Pairwise (· < ·)
  parted : (s.copiedNumbers ++ s.evictedNumbers).Perm (List.range s.removed)

theorem stream_append (memory : Nat → Bytes) (stored : List (Int × Bytes)) (frame : Int × Bytes) {k : Nat}
    (old : k ≤ stored.length) : stream memory (stored ++ [frame]) k = stream memory stored k := by
  cases k with
  | zero => rfl
  | succ k => simp only [stream, List.getElem?_append_left (show k < stored.length by omega)]

theorem element_append (memory : Nat → Bytes) (stored : List (Int × Bytes)) (frame : Int × Bytes) {k : Nat}
    (old : k ≤ stored.length) : element memory (stored ++ [frame]) k = element memory stored k := by
  rw [element, element, stream_append memory stored frame old]

theorem element_last (memory : Nat → Bytes) (stored : List (Int × Bytes)) (status : Int) (bytes : Bytes) :
    element memory (stored ++ [(status,bytes)]) (stored.length + 1) = ⟨bytes, some (stored.length + 1)⟩ := by
  simp [element, stream]

namespace FrameBuffer
variable {Slot : Type*}

theorem advanceWriter_pos {b : FrameBuffer Slot} {n : Nat} (writer : b.writer_pos = n % 10) :
    b.advanceWriter.writer_pos = (n + 1) % 10 := by
  simp only [advanceWriter, writer, OPQ_CYCLE_BUFFER_COUNT]
  exact slot_succ (by decide) n

theorem advanceReader_pos {b : FrameBuffer Slot} {n : Nat} (reader : b.reader_pos = n % 10) :
    b.advanceReader.reader_pos = (n + 1) % 10 := by
  simp only [advanceReader, reader, OPQ_CYCLE_BUFFER_COUNT]
  exact slot_succ (by decide) n

end FrameBuffer

namespace Invariant
variable {memory : Nat → Bytes} {s : State Bytes}

theorem initial (memory : Nat → Bytes) : Invariant memory (init memory) where
  writer := rfl
  reader := rfl
  tokens := rfl
  room := by simp [init]
  window := by
    intro k from_lo to_hi
    have first : k = 0 := by simp [init] at to_hi; omega
    subst first
    rfl
  copies := by simp [init]
  evictions := by simp [init]
  ordered := List.Pairwise.nil
  parted := by simp [init, State.copiedNumbers, State.evictedNumbers, State.removed]

/-- The ring holds the elements from `removed` to the last one. -/
theorem occupied (inv : Invariant memory s) :
    s.cycles.occupied = (List.range' s.removed (s.stored.length + 1 - s.removed)).map (element memory s.stored) := by
  have le := inv.tokens
  have near := inv.room
  rw [FrameBuffer.occupied, inv.writer, inv.reader, OPQ_CYCLE_BUFFER_COUNT, slot_distance (by omega) (by omega),
    List.range'_eq_map_range, List.map_map]
  apply List.map_congr_left
  intro i inside
  have small := List.mem_range.mp inside
  rw [Nat.mod_add_mod]
  exact inv.window (s.removed + i) (by omega) (by omega)

/-- The elements that a step keeps stay what they are when a frame is stored. -/
theorem element_kept (inv : Invariant memory s) (frame : Int × Bytes) :
    (∀ c ∈ s.copied, ∃ k ≤ (s.stored ++ [frame]).length, c.slot = element memory (s.stored ++ [frame]) k) ∧
      ∀ e ∈ s.evicted, ∃ k, k + 8 ≤ (s.stored ++ [frame]).length ∧ e.slot = element memory (s.stored ++ [frame]) k ∧
        e.present = (List.range' k 9).map (element memory (s.stored ++ [frame])) := by
  have longer : s.stored.length ≤ (s.stored ++ [frame]).length := by simp
  constructor
  · intro c member
    obtain ⟨k,old,same⟩ := inv.copies c member
    exact ⟨k,by omega,by rw [same,element_append memory s.stored frame old]⟩
  · intro e member
    obtain ⟨k,old,same,present⟩ := inv.evictions e member
    refine ⟨k,by omega,by rw [same,element_append memory s.stored frame (by omega)],?_⟩
    rw [present]
    apply List.map_congr_left
    intro i inside
    have small := List.mem_range'_1.mp inside
    rw [element_append memory s.stored frame (by omega)]

/-- A frame is stored: the ring then holds it with all that was there before. -/
theorem filled (inv : Invariant memory s) (status : Int) (bytes : Bytes) :
    Window 10 (s.filled bytes).data (element memory (s.stored ++ [(status,bytes)])) s.removed (s.stored.length + 2) := by
  have room := inv.room
  have kept := inv.window.congr (element memory (s.stored ++ [(status,bytes)]))
    fun k _ to_hi => (element_append memory s.stored _ (by omega)).symm
  have pushed := kept.push s.removed (Nat.le_refl _) (by omega)
  rw [element_last,← inv.writer] at pushed
  exact pushed

theorem filled_writer (inv : Invariant memory s) (bytes : Bytes) :
    (s.filled bytes).writer_pos = (s.stored.length + 2) % 10 :=
  FrameBuffer.advanceWriter_pos (b := s.cycles.fill (s.next bytes)) inv.writer

theorem filled_reader (inv : Invariant memory s) (bytes : Bytes) : (s.filled bytes).reader_pos = s.removed % 10 :=
  inv.reader

/-- The writer catches up with the reader where the ring held nine elements. -/
theorem full_iff (inv : Invariant memory s) (bytes : Bytes) :
    (s.filled bytes).Full ↔ s.stored.length = s.removed + 8 := by
  have room := inv.room
  have tokens := inv.tokens
  rw [FrameBuffer.Full,inv.filled_writer,inv.filled_reader]
  constructor
  · intro same
    by_contra other
    exact slot_ne (N := 10) (a := s.removed) (b := s.stored.length + 2) (by omega) (by omega) same.symm
  · intro full
    rw [full,show s.removed + 8 + 2 = s.removed + 10 by omega,Nat.add_mod_right]

/-- In a full ring the handler takes out the oldest element. -/
theorem handled_full (inv : Invariant memory s) (full : s.stored.length = s.removed + 8) (status : Int) (bytes : Bytes) :
    s.handled status bytes = { s with
      cycles := (s.filled bytes).advanceReader
      stored := s.stored ++ [(status,bytes)]
      evicted := s.evicted ++ [⟨element memory s.stored s.removed,s.cycles.occupied⟩] } := by
  have isFull := (inv.full_iff bytes).mpr full
  have oldest : (s.filled bytes).data (s.filled bytes).reader_pos = element memory s.stored s.removed := by
    rw [inv.filled_reader,inv.filled status bytes s.removed (Nat.le_refl _) (by omega),
      element_append memory s.stored _ (by omega)]
  have cycles : s.cycles.opq_wq_spi_reader_handler (s.next bytes) = (s.filled bytes).advanceReader :=
    if_pos isFull
  rw [State.handled,cycles,if_pos isFull,oldest]

/-- Otherwise it counts the new element in the semaphore. -/
theorem handled_up (inv : Invariant memory s) (room : s.stored.length ≠ s.removed + 8) (status : Int) (bytes : Bytes) :
    s.handled status bytes = { s with
      cycles := { s.filled bytes with sem := s.cycles.sem + 1 }
      stored := s.stored ++ [(status,bytes)] } := by
  have notFull : ¬ (s.filled bytes).Full := fun isFull => room ((inv.full_iff bytes).mp isFull)
  have cycles : s.cycles.opq_wq_spi_reader_handler (s.next bytes) = { s.filled bytes with sem := s.cycles.sem + 1 } :=
    if_neg notFull
  rw [State.handled,cycles,if_neg notFull]

theorem handled (inv : Invariant memory s) (status : Int) (bytes : Bytes) :
    Invariant memory (s.handled status bytes) := by
  have room := inv.room
  have tokens := inv.tokens
  obtain ⟨copies,evictions⟩ := inv.element_kept (status,bytes)
  have window := inv.filled status bytes
  have length : (s.stored ++ [(status,bytes)]).length = s.stored.length + 1 := by simp
  by_cases full : s.stored.length = s.removed + 8
  · rw [inv.handled_full full]
    set t : State Bytes := { s with
      cycles := (s.filled bytes).advanceReader
      stored := s.stored ++ [(status,bytes)]
      evicted := s.evicted ++ [⟨element memory s.stored s.removed,s.cycles.occupied⟩] }
    have removed : t.removed = s.removed + 1 := by
      simp only [State.removed,t,List.length_append,List.length_singleton,Nat.add_assoc]
    have numbers : t.evictedNumbers = s.evictedNumbers ++ [s.removed] := by
      simp only [State.evictedNumbers,t,List.map_append,List.map_cons,List.map_nil,element,Option.getD_some]
    refine ⟨?_,?_,?_,?_,?_,copies,?_,inv.ordered,?_⟩
    · rw [length]
      exact inv.filled_writer bytes
    · rw [removed]
      exact FrameBuffer.advanceReader_pos (inv.filled_reader bytes)
    · rw [removed,length]
      show s.cycles.sem + s.readers + (s.removed + 1) = s.stored.length + 1
      omega
    · rw [removed,length]
      omega
    · rw [removed,length]
      exact window.mono (Nat.le_succ _) (Nat.le_refl _)
    · intro e member
      rcases List.mem_append.mp member with old | new
      · exact evictions e old
      · obtain rfl := List.mem_singleton.mp new
        refine ⟨s.removed,by rw [length]; omega,(element_append memory s.stored _ (by omega)).symm,?_⟩
        rw [inv.occupied,show s.stored.length + 1 - s.removed = 9 by omega]
        apply List.map_congr_left
        intro i inside
        have small := List.mem_range'_1.mp inside
        exact (element_append memory s.stored _ (by omega)).symm
    · rw [removed,numbers,List.range_succ,← List.append_assoc]
      exact inv.parted.append_right [s.removed]
  · rw [inv.handled_up full]
    refine ⟨?_,inv.reader,?_,?_,?_,copies,evictions,inv.ordered,inv.parted⟩
    · rw [length]
      exact inv.filled_writer bytes
    · rw [length]
      show s.cycles.sem + 1 + s.readers + s.removed = s.stored.length + 1
      omega
    · rw [length]
      show s.stored.length + 1 ≤ s.removed + 8
      omega
    · rw [length]
      exact window

/-- A read with the semaphore finds the oldest element, and takes it out. -/
theorem copied_slot (inv : Invariant memory s) : s.cycles.data s.cycles.reader_pos = element memory s.stored s.removed := by
  have tokens := inv.tokens
  rw [inv.reader]
  exact inv.window s.removed (Nat.le_refl _) (by omega)

theorem copied (inv : Invariant memory s) (waiting : 0 < s.readers) (count left : Nat) :
    Invariant memory (s.opq_chardev_read count left) := by
  have room := inv.room
  have tokens := inv.tokens
  have removed : (s.opq_chardev_read count left).removed = s.removed + 1 := by
    simp only [State.removed,State.opq_chardev_read,List.length_append,List.length_singleton]
    omega
  have numbers : (s.opq_chardev_read count left).copiedNumbers = s.copiedNumbers ++ [s.removed] := by
    simp only [State.copiedNumbers,State.opq_chardev_read,List.map_append,List.map_cons,List.map_nil,inv.copied_slot,
      element,Option.getD_some]
  refine ⟨inv.writer,?_,?_,?_,?_,?_,inv.evictions,?_,?_⟩
  · rw [removed]
    exact FrameBuffer.advanceReader_pos inv.reader
  · rw [removed]
    show s.cycles.sem + (s.readers - 1) + (s.removed + 1) = s.stored.length
    omega
  · rw [removed]
    show s.stored.length ≤ s.removed + 1 + 8
    omega
  · rw [removed]
    exact inv.window.mono (Nat.le_succ _) (Nat.le_refl _)
  · intro c member
    rcases List.mem_append.mp member with old | new
    · exact inv.copies c old
    · obtain rfl := List.mem_singleton.mp new
      exact ⟨s.removed,by show s.removed ≤ s.stored.length; omega,inv.copied_slot⟩
  · -- Every earlier number is below `removed`.
    rw [numbers]
    refine List.pairwise_append.mpr ⟨inv.ordered,List.pairwise_singleton ..,?_⟩
    intro k earlier j last
    obtain rfl := List.mem_singleton.mp last
    exact List.mem_range.mp (inv.parted.mem_iff.mp (List.mem_append_left _ earlier))
  · rw [removed,numbers,List.range_succ,List.append_assoc]
    refine (List.Perm.append_left _ List.perm_append_comm).trans ?_
    rw [← List.append_assoc]
    exact inv.parted.append_right [s.removed]

theorem step {a : Action Bytes} {t : State Bytes} (inv : Invariant memory s) (taken : Driver.step s a = some t) :
    Invariant memory t := by
  cases a with
  | handler status bytes =>
    cases taken
    exact inv.handled status bytes
  | down =>
    obtain ⟨positive,same⟩ := Option.ite_none_right_eq_some.mp taken
    cases same
    have tokens := inv.tokens
    refine ⟨inv.writer,inv.reader,?_,inv.room,inv.window,inv.copies,inv.evictions,inv.ordered,inv.parted⟩
    show s.cycles.sem - 1 + (s.readers + 1) + s.removed = s.stored.length
    omega
  | interrupted =>
    cases taken
    exact inv
  | blocked =>
    obtain ⟨_,same⟩ := Option.ite_none_right_eq_some.mp taken
    cases same
    exact inv
  | copy count left =>
    obtain ⟨waiting,same⟩ := Option.ite_none_right_eq_some.mp taken
    cases same
    exact inv.copied waiting count left

theorem reachable (reach : Reachable Driver.step (init memory) s) : Invariant memory s :=
  reach.invariant (fun _ _ _ inv taken => inv.step taken) (initial memory)

theorem copied_number (inv : Invariant memory s) {c : Copy Bytes} (member : c ∈ s.copied) :
    c.slot = element memory s.stored (c.slot.number.getD 0) := by
  obtain ⟨k,_,same⟩ := inv.copies c member
  rw [same]
  rfl

theorem evicted_number (inv : Invariant memory s) {e : Eviction Bytes} (member : e ∈ s.evicted) :
    e.slot = element memory s.stored (e.slot.number.getD 0) ∧
      e.present = (List.range' (e.slot.number.getD 0) 9).map (element memory s.stored) := by
  obtain ⟨k,_,same,present⟩ := inv.evictions e member
  rw [same]
  exact ⟨rfl,present⟩

theorem disjoint (inv : Invariant memory s) {k : Nat} (copied : k ∈ s.copiedNumbers) : k ∉ s.evictedNumbers := by
  have nodup := inv.parted.nodup_iff.mpr List.nodup_range
  exact fun evicted => (List.disjoint_of_nodup_append nodup) copied evicted

theorem removed_iff (inv : Invariant memory s) (k : Nat) :
    k < s.removed ↔ k ∈ s.copiedNumbers ∨ k ∈ s.evictedNumbers := by
  rw [← List.mem_range,← inv.parted.mem_iff,List.mem_append]

end Invariant

/-- Ring accounting. Between the sections under the mutex the positions are
    one further apart than the semaphore and the reads that took it say. The
    reads copy elements of the stream, each later than the one before, and
    skip only elements that were evicted, the oldest of nine each. -/
theorem ring_accounting {memory : Nat → Bytes} {s : State Bytes} (reach : Reachable step (init memory) s) :
    (((s.cycles.writer_pos : Int) - s.cycles.reader_pos) % 10 = s.cycles.sem + s.readers + 1 ∧
      s.cycles.writer_pos < 10 ∧ s.cycles.reader_pos < 10 ∧ s.cycles.sem + s.readers ≤ 8) ∧
    ∃ numbers : List Nat, numbers.Pairwise (· < ·) ∧ (∀ k ∈ numbers, k ≤ s.stored.length) ∧
      s.copied.map (·.slot) = numbers.map (element memory s.stored) ∧
      (∀ j, (∃ k ∈ numbers, j < k) → j ∉ numbers → ∃ e ∈ s.evicted, e.slot = element memory s.stored j) ∧
      ∀ e ∈ s.evicted, ∃ j, j ∉ numbers ∧ e.slot = element memory s.stored j ∧
        e.present = (List.range' j 9).map (element memory s.stored) := by
  have inv := Invariant.reachable reach
  have writer := inv.writer
  have reader := inv.reader
  have tokens := inv.tokens
  have room := inv.room
  refine ⟨⟨by omega,by omega,by omega,by omega⟩,s.copiedNumbers,inv.ordered,?_,?_,?_,?_⟩
  · intro k member
    have gone := (inv.removed_iff k).mpr (.inl member)
    omega
  · simp only [State.copiedNumbers,List.map_map]
    exact List.map_congr_left fun c member => inv.copied_number member
  · rintro j ⟨k,member,before⟩ skipped
    have gone := (inv.removed_iff k).mpr (.inl member)
    rcases (inv.removed_iff j).mp (by omega) with copied | evicted
    · exact absurd copied skipped
    · obtain ⟨e,listed,rfl⟩ := List.mem_map.mp evicted
      exact ⟨e,listed,(inv.evicted_number listed).1⟩
  · intro e member
    obtain ⟨same,present⟩ := inv.evicted_number member
    refine ⟨_,?_,same,present⟩
    intro copied
    exact inv.disjoint copied (List.mem_map_of_mem member)

/-- Nine frames and then a read, which skips the initial contents of slot 0. -/
theorem ring_accounting_nine : ∃ s : State Nat,
    run step (init fun _ => 0) (List.replicate 9 (.handler 0 5) ++ [.down,.copy 408 0]) = some s ∧
      s.copiedNumbers = [1] ∧ ((s.cycles.writer_pos : Int) - s.cycles.reader_pos) % 10 = s.cycles.sem + s.readers + 1 := by
  refine ⟨_,rfl,rfl,?_⟩
  have reach : Reachable step (init fun _ => (0 : Nat)) _ := ⟨List.replicate 9 (.handler 0 5) ++ [.down,.copy 408 0],rfl⟩
  exact (ring_accounting reach).1.1

/-! ### The ring as a queue of frames -/

/-- The frames that were stored and neither delivered nor evicted, by number. -/
def State.pending (s : State Bytes) : List Nat :=
  (List.range' 1 s.stored.length).filter fun k => k ∉ s.copiedNumbers ∧ k ∉ s.evictedNumbers

/-- The read copies out the oldest frame that is pending. -/
def DeliversOldest (s t : State Bytes) : Prop :=
  ∃ k frame c, s.pending.head? = some k ∧ s.stored[k-1]? = some frame ∧ t.copied = s.copied ++ [c] ∧
    c.slot = ⟨frame.2,some k⟩

/-- A read delivers the oldest pending frame, and waits only where none is pending. -/
def Fifo (s : State Bytes) (a : Action Bytes) (t : State Bytes) : Prop :=
  match a with
  | .copy _ _ => DeliversOldest s t
  | .blocked => s.pending = []
  | _ => True

/-- The first read comes after nine frames were stored, and a read waits only
    before the first frame. -/
def Primed (s : State Bytes) (a : Action Bytes) (_ : State Bytes) : Prop :=
  match a with
  | .copy _ _ => 9 ≤ s.stored.length
  | .blocked => s.stored = []
  | _ => True

namespace Invariant
variable {memory : Nat → Bytes} {s : State Bytes}

theorem mem_pending (inv : Invariant memory s) (k : Nat) :
    k ∈ s.pending ↔ 1 ≤ k ∧ s.removed ≤ k ∧ k ≤ s.stored.length := by
  have gone := inv.removed_iff k
  simp only [State.pending,List.mem_filter,List.mem_range'_1,decide_eq_true_eq]
  constructor
  · rintro ⟨⟨low,high⟩,kept⟩
    have stays : ¬ k < s.removed := fun lt => (gone.mp lt).elim kept.1 kept.2
    omega
  · rintro ⟨low,stays,high⟩
    have kept : ¬ (k ∈ s.copiedNumbers ∨ k ∈ s.evictedNumbers) := fun left => absurd (gone.mpr left) (by omega)
    exact ⟨by omega,fun copied => kept (.inl copied),fun evicted => kept (.inr evicted)⟩

theorem pending_sorted (s : State Bytes) : s.pending.Pairwise (· < ·) :=
  List.Pairwise.filter _ List.pairwise_lt_range'

/-- The oldest pending frame is at `reader_pos`, unless the initial contents of
    slot 0 are. -/
theorem pending_head (inv : Invariant memory s) (later : 1 ≤ s.removed) (any : s.removed ≤ s.stored.length) :
    s.pending.head? = some s.removed := by
  have sorted := pending_sorted s
  have member := (inv.mem_pending s.removed).mpr ⟨later,Nat.le_refl _,any⟩
  cases list : s.pending with
  | nil => simp [list] at member
  | cons k rest =>
    have first := (inv.mem_pending k).mp (by simp [list])
    rw [list] at sorted member
    rcases List.mem_cons.mp member with same | behind
    · rw [same]; rfl
    · have lt := (List.pairwise_cons.mp sorted).1 _ behind
      omega

theorem pending_nil (inv : Invariant memory s) : s.pending = [] ↔ s.stored = [] := by
  have tokens := inv.tokens
  rw [List.eq_nil_iff_forall_not_mem,← List.length_eq_zero_iff]
  constructor
  · intro none
    have last := none s.stored.length
    rw [inv.mem_pending] at last
    omega
  · intro empty k member
    have inside := (inv.mem_pending k).mp member
    omega

theorem delivers_iff (inv : Invariant memory s) (waiting : 0 < s.readers) (count left : Nat) :
    DeliversOldest s (s.opq_chardev_read count left) ↔ 1 ≤ s.removed := by
  have tokens := inv.tokens
  constructor
  · rintro ⟨k,frame,c,head,_,copied,same⟩
    have last := List.append_cancel_left copied
    have slot : element memory s.stored s.removed = ⟨frame.2,some k⟩ := by
      rw [← inv.copied_slot,← same,← List.cons.inj last |>.1]
    have number : s.removed = k := Option.some.inj (congrArg Slot.number slot)
    have listed := (inv.mem_pending k).mp (List.mem_of_mem_head? head)
    omega
  · intro later
    have inside : s.removed - 1 < s.stored.length := by omega
    refine ⟨s.removed,s.stored[s.removed-1],_,inv.pending_head later (by omega),List.getElem?_eq_getElem inside,rfl,?_⟩
    show s.cycles.data s.cycles.reader_pos = _
    obtain ⟨k,is⟩ := Nat.exists_eq_add_of_le' later
    rw [inv.copied_slot,element]
    simp only [is,stream,Nat.add_sub_cancel] at inside ⊢
    rw [List.getElem?_eq_getElem inside]
    rfl

end Invariant

/-- The ring is a queue of the stored frames along exactly the runs where the
    first read comes after nine frames, and no read waits once there is a frame:
    before, a read takes the initial contents of slot 0 for the oldest frame. -/
theorem fifo_iff_primed (memory : Nat → Bytes) (actions : List (Action Bytes)) :
    Along step Fifo (init memory) actions ↔ Along step Primed (init memory) actions := by
  refine (along_iff (fun s => Invariant memory s ∧ (s.removed = 0 ∨ 9 ≤ s.stored.length)) ?_ ?_ ?_).symm
  · rintro s a t ⟨inv,primed⟩ taken holds
    refine ⟨inv.step taken,?_⟩
    cases a with
    | handler status bytes =>
      cases taken
      have room := inv.room
      by_cases full : s.stored.length = s.removed + 8
      · rw [inv.handled_full full]
        simp only [List.length_append,List.length_singleton]
        omega
      · rw [inv.handled_up full]
        simp only [List.length_append,List.length_singleton]
        exact primed.imp id (fun nine => by omega)
    | copy count left =>
      obtain ⟨_,same⟩ := Option.ite_none_right_eq_some.mp taken
      cases same
      exact .inr holds
    | down =>
      obtain ⟨_,same⟩ := Option.ite_none_right_eq_some.mp taken
      cases same
      exact primed
    | interrupted => cases taken; exact primed
    | blocked =>
      obtain ⟨_,same⟩ := Option.ite_none_right_eq_some.mp taken
      cases same
      exact primed
  · rintro s a t ⟨inv,primed⟩ taken
    have room := inv.room
    cases a with
    | copy count left =>
      obtain ⟨waiting,same⟩ := Option.ite_none_right_eq_some.mp taken
      cases same
      refine Iff.trans ?_ (inv.delivers_iff waiting count left).symm
      show 9 ≤ s.stored.length ↔ 1 ≤ s.removed
      omega
    | blocked => exact inv.pending_nil.symm
    | _ => exact Iff.rfl
  · exact ⟨Invariant.initial memory,.inl rfl⟩

/-- One frame and one read: the read returns slot 0, which nothing filled, and
    the next read has to wait although the frame is still there. -/
theorem first_read_unfilled : ¬ Along step Fifo (init fun _ => (0 : Nat)) [.handler 0 7,.down,.copy 408 0] ∧
    ∃ t : State Nat, run step (init fun _ => 0) [.handler 0 7,.down,.copy 408 0] = some t ∧
      t.copied.map (·.slot) = [⟨0,some 0⟩] ∧ t.cycles.sem = 0 ∧ t.pending = [1] := by
  refine ⟨?_,_,rfl,rfl,rfl,rfl⟩
  intro along
  have ran : run step (init fun _ => (0 : Nat)) [.handler 0 7,.down] = some _ := rfl
  obtain ⟨k,frame,c,head,_,copied,same⟩ := Along.at [] along ran rfl
  cases head
  cases copied
  have number : (some 0 : Option Nat) = some 1 := congrArg Slot.number same
  exact absurd number (by decide)

end Opqbox.Driver
