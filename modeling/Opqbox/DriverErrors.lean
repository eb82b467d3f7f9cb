import Opqbox.DriverRing

/-!
What the driver does where a transfer fails: `spi_read` from the bus, or
`copy_to_user` to the reader. A failure of either is not passed on, so the ring
counts a frame that did not come, or loses one that was not delivered
(`atomic_iff_succeeds`).
-/
namespace Opqbox.Driver
open Opqbox.Runs

variable {Byte : Type}

/-- The contents of a slot. -/
abbrev Frame (Byte : Type) := Vector Byte OPQ_CYCLE_BUFFER_SIZE

/-- What `copy_to_user` wrote to the buffer of the user: all but the bytes at the
    end that it could not copy. -/
def Copy.reached (c : Copy (Frame Byte)) : List Byte := c.slot.bytes.toList.take (c.count - c.left)

/-- The positions and the semaphore are as before. -/
def Unchanged (s t : State (Frame Byte)) : Prop :=
  t.cycles.writer_pos = s.cycles.writer_pos ∧ t.cycles.reader_pos = s.cycles.reader_pos ∧ t.cycles.sem = s.cycles.sem

/-- The read copied the first `n` bytes of the slot at `reader_pos`, returns `n`, and
    took out exactly this slot. -/
def Delivers (n : Nat) (s t : State (Frame Byte)) : Prop :=
  ∃ c, t.copied = s.copied ++ [c] ∧ c.slot = s.cycles.data s.cycles.reader_pos ∧ c.count = n ∧
    c.reached = c.slot.bytes.toList.take n ∧ s.cycles.occupied = c.slot :: t.cycles.occupied ∧
    t.cycles.sem = s.cycles.sem ∧ t.readers + 1 = s.readers

/-- No contents of a failed transfer were delivered as a frame. -/
def NoneFailed (s : State (Frame Byte)) : Prop :=
  ∀ c ∈ s.copied, ∀ k, c.slot.number = some (k + 1) → ∀ frame, s.stored[k]? = some frame → 0 ≤ frame.1

/-- A failed transfer from the bus leaves the ring as it is; a read fails and does so
    too, or it delivers what it says. -/
def Atomic (s : State (Frame Byte)) (a : Action (Frame Byte)) (t : State (Frame Byte)) : Prop :=
  NoneFailed t ∧
    match a with
    | .handler status _ => status < 0 → Unchanged s t
    | .interrupted => Unchanged s t
    | .copy count _ => Delivers (min count OPQ_CYCLE_BUFFER_SIZE) s t
    | _ => True

/-- Neither `spi_read` nor `copy_to_user` fails, unless the read is one of no bytes. -/
def Succeeds (_ : State (Frame Byte)) (a : Action (Frame Byte)) (_ : State (Frame Byte)) : Prop :=
  match a with
  | .handler status _ => 0 ≤ status
  | .copy count left => left = 0 ∨ count = 0
  | _ => True

variable {memory : Nat → Frame Byte} {s t : State (Frame Byte)}

/-- The handler moves the writer, whatever `spi_read` returns. -/
theorem Invariant.handled_moves (inv : Invariant memory s) (status : Int) (bytes : Frame Byte) :
    ¬ Unchanged s (s.handled status bytes) := by
  rintro ⟨same,_⟩
  have before := inv.writer
  have after := (inv.handled status bytes).writer
  have longer : (s.handled status bytes).stored.length = s.stored.length + 1 := by simp [State.handled]
  rw [same,before,longer] at after
  omega

/-- A read takes out the oldest slot. -/
theorem Invariant.copied_occupied (inv : Invariant memory s) (waiting : 0 < s.readers) (count left : Nat) :
    s.cycles.occupied = s.cycles.data s.cycles.reader_pos :: (s.opq_chardev_read count left).cycles.occupied := by
  have tokens := inv.tokens
  have removed : (s.opq_chardev_read count left).removed = s.removed + 1 := by
    simp only [State.removed,State.opq_chardev_read,List.length_append,List.length_singleton]
    omega
  rw [inv.occupied,(inv.copied waiting count left).occupied,inv.copied_slot,removed]
  show (List.range' s.removed (s.stored.length + 1 - s.removed)).map (element memory s.stored) =
    element memory s.stored s.removed :: (List.range' (s.removed + 1) (s.stored.length + 1 - (s.removed + 1))).map
      (element memory s.stored)
  rw [← List.map_cons,← List.range'_succ]
  congr 2
  omega

/-- The user gets what the read returns exactly where `copy_to_user` copied all of it. -/
theorem Invariant.delivers_iff_copied (inv : Invariant memory s) (waiting : 0 < s.readers) (count left : Nat) :
    Delivers (min count OPQ_CYCLE_BUFFER_SIZE) s (s.opq_chardev_read count left) ↔ left = 0 ∨ count = 0 := by
  have limited : (if count > OPQ_CYCLE_BUFFER_SIZE then OPQ_CYCLE_BUFFER_SIZE else count) = min count OPQ_CYCLE_BUFFER_SIZE := by
    split_ifs <;> omega
  constructor
  · rintro ⟨c,copied,_,_,reached,_⟩
    obtain rfl : _ = c := List.cons.inj (List.append_cancel_left copied) |>.1
    have lengths := congrArg List.length reached
    rw [Copy.reached,List.length_take,List.length_take,Vector.length_toList,limited] at lengths
    dsimp only at lengths
    have size : OPQ_CYCLE_BUFFER_SIZE = 408 := rfl
    omega
  · intro succeeds
    refine ⟨_,rfl,rfl,limited,?_,inv.copied_occupied waiting count left,rfl,?_⟩
    · simp only [Copy.reached,limited]
      rcases succeeds with rfl | rfl
      · rfl
      · simp
    · show s.readers - 1 + 1 = s.readers
      omega

/-- No transfer of a frame that is stored failed. -/
def NoneStoredFailed (s : State (Frame Byte)) : Prop := ∀ frame ∈ s.stored, 0 ≤ frame.1

theorem NoneStoredFailed.noneFailed (good : NoneStoredFailed s) : NoneFailed s :=
  fun _ _ _ _ frame at_k => good frame (List.mem_of_getElem? at_k)

/-- Only the handler stores a frame, with the status that `spi_read` returned. -/
theorem NoneStoredFailed.step {a : Action (Frame Byte)} (good : NoneStoredFailed s) (taken : step s a = some t)
    (succeeds : Succeeds s a t) : NoneStoredFailed t := by
  cases a with
  | handler status bytes =>
    cases taken
    intro frame member
    rcases List.mem_append.mp member with old | new
    · exact good frame old
    · obtain rfl := List.mem_singleton.mp new
      exact succeeds
  | interrupted =>
    cases taken
    exact good
  | _ =>
    obtain ⟨_,same⟩ := Option.ite_none_right_eq_some.mp taken
    cases same
    exact good

theorem atomic_of_succeeds {a : Action (Frame Byte)} (inv : Invariant memory s) (good : NoneStoredFailed s)
    (taken : step s a = some t) (succeeds : Succeeds s a t) : Atomic s a t := by
  refine ⟨(good.step taken succeeds).noneFailed,?_⟩
  cases a with
  | handler status bytes => exact fun fails => absurd fails (Int.not_lt.mpr succeeds)
  | interrupted =>
    cases taken
    exact ⟨rfl,rfl,rfl⟩
  | copy count left =>
    obtain ⟨waiting,same⟩ := Option.ite_none_right_eq_some.mp taken
    cases same
    exact (inv.delivers_iff_copied waiting count left).mpr succeeds
  | _ => trivial

theorem succeeds_of_atomic {a : Action (Frame Byte)} (inv : Invariant memory s) (taken : step s a = some t)
    (atomic : Atomic s a t) : Succeeds s a t := by
  cases a with
  | handler status bytes =>
    cases taken
    exact Int.not_lt.mp fun fails => inv.handled_moves status bytes (atomic.2 fails)
  | copy count left =>
    obtain ⟨waiting,same⟩ := Option.ite_none_right_eq_some.mp taken
    cases same
    exact (inv.delivers_iff_copied waiting count left).mp atomic.2
  | _ => trivial

/-- The driver keeps its buffer where transfers fail along exactly the runs where none
    does: otherwise a failed `spi_read` counts as a frame, or a read returns bytes that
    the user did not get. -/
theorem atomic_iff_succeeds (memory : Nat → Frame Byte) (actions : List (Action (Frame Byte))) :
    Along step Atomic (init memory) actions ↔ Along step Succeeds (init memory) actions := by
  refine (along_iff (fun s => Invariant memory s ∧ NoneStoredFailed s) ?_ ?_ ⟨Invariant.initial memory,nofun⟩).symm
  · rintro s a t ⟨inv,good⟩ taken succeeds
    exact ⟨inv.step taken,good.step taken succeeds⟩
  · rintro s a t ⟨inv,good⟩ taken
    exact ⟨atomic_of_succeeds inv good taken,succeeds_of_atomic inv taken⟩

/-- `spi_read` fails with `-EIO`, and the slot counts as a frame. -/
theorem failure_delivered : ¬ Along step Atomic (init fun _ => (Vector.replicate OPQ_CYCLE_BUFFER_SIZE 0 : Frame (BitVec 8)))
    [.handler (-5) (Vector.replicate OPQ_CYCLE_BUFFER_SIZE 7)] := by
  intro along
  obtain ⟨_,unchanged⟩ := (along _ rfl).1
  exact (Invariant.initial _).handled_moves _ _ (unchanged (by decide))

end Opqbox.Driver
