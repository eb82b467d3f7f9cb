import Opqbox.Runs
import Opqbox.Windows

/-!
The frame buffer of the kernel driver (`opq_main.c`): the work handler stores
the frames that the bus delivers, the reads of the character device take them
out. The handler and the second part of a read hold the mutex, so each is one
step; a read takes the semaphore in a step of its own before, which may also
be interrupted or have to wait.
-/
namespace Opqbox.Driver
open Opqbox.Runs

def OPQ_CYCLE_BUFFER_SIZE : Nat := 408
def OPQ_CYCLE_BUFFER_COUNT : Nat := 10

/-- `struct opq_frame_buffer` without its mutex; `data` is read below
    `OPQ_CYCLE_BUFFER_COUNT` only. -/
structure FrameBuffer (Slot : Type*) where
  sem : Nat
  data : Nat → Slot
  writer_pos : Nat
  reader_pos : Nat

namespace FrameBuffer
variable {Slot : Type*}

/-- `opq_circ_buffer_init`, where `memory` is what `kmalloc` returned. -/
def opq_circ_buffer_init (memory : Nat → Slot) : FrameBuffer Slot :=
  { sem := 0, data := memory, writer_pos := 1, reader_pos := 0 }

/-- `spi_read` into the slot at `writer_pos`. -/
def fill (slot : Slot) (b : FrameBuffer Slot) : FrameBuffer Slot :=
  { b with data := Function.update b.data b.writer_pos slot }

def advanceWriter (b : FrameBuffer Slot) : FrameBuffer Slot :=
  { b with writer_pos := if b.writer_pos + 1 ≥ OPQ_CYCLE_BUFFER_COUNT then 0 else b.writer_pos + 1 }

def advanceReader (b : FrameBuffer Slot) : FrameBuffer Slot :=
  { b with reader_pos := if b.reader_pos + 1 ≥ OPQ_CYCLE_BUFFER_COUNT then 0 else b.reader_pos + 1 }

/-- The writer has caught up with the reader. -/
def Full (b : FrameBuffer Slot) : Prop := b.writer_pos = b.reader_pos

instance (b : FrameBuffer Slot) : Decidable b.Full := inferInstanceAs (Decidable (_ = _))

/-- Evict an item where the reader is not keeping up, else `up` the semaphore. -/
def evictOrUp (b : FrameBuffer Slot) : FrameBuffer Slot :=
  if b.Full then b.advanceReader else { b with sem := b.sem + 1 }

/-- `opq_wq_spi_reader_handler`, where `slot` is what `spi_read` leaves. Its
    return value is not looked at. -/
def opq_wq_spi_reader_handler (slot : Slot) (b : FrameBuffer Slot) : FrameBuffer Slot :=
  (b.fill slot).advanceWriter.evictOrUp

/-- The slots from `reader_pos` up to `writer_pos`, around the buffer. -/
def occupied (b : FrameBuffer Slot) : List Slot :=
  (List.range ((b.writer_pos + OPQ_CYCLE_BUFFER_COUNT - b.reader_pos) % OPQ_CYCLE_BUFFER_COUNT)).map
    fun i => b.data ((b.reader_pos + i) % OPQ_CYCLE_BUFFER_COUNT)

end FrameBuffer

/-- The contents of a slot, with the number of the `spi_read` that stored them.
    Slot 0 has number 0 from the start, the other slots have none until they
    are filled. -/
structure Slot (Bytes : Type*) where
  bytes : Bytes
  number : Option Nat
  deriving DecidableEq

/-- What a read did with the mutex held: the slot it copied from, the number of
    bytes it asked to be copied and returned, and how many of them
    `copy_to_user` could not copy. -/
structure Copy (Bytes : Type*) where
  slot : Slot Bytes
  count : Nat
  left : Nat

/-- An evicted slot, and what the buffer held when the handler took the mutex. -/
structure Eviction (Bytes : Type*) where
  slot : Slot Bytes
  present : List (Slot Bytes)

/-- The driver: its buffer, the number of reads that have taken the semaphore
    but not the mutex, and what was stored, copied and evicted so far. -/
structure State (Bytes : Type*) where
  cycles : FrameBuffer (Slot Bytes)
  readers : Nat
  stored : List (Int × Bytes)
  copied : List (Copy Bytes)
  evicted : List (Eviction Bytes)

inductive Action (Bytes : Type*) where
  /-- The work handler runs; `spi_read` returns `status` and leaves `bytes`. -/
  | handler (status : Int) (bytes : Bytes)
  /-- A read's `down_interruptible` takes the semaphore. -/
  | down
  /-- A read's `down_interruptible` fails, and the read with `-ERESTARTSYS`. -/
  | interrupted
  /-- A read's `down_interruptible` finds the count at 0 and waits. -/
  | blocked
  /-- A read of `count` bytes goes through its part under the mutex;
      `copy_to_user` returns `left`. -/
  | copy (count left : Nat)

variable {Bytes : Type*}

/-- The driver after `opq_circ_buffer_init`. -/
def init (memory : Nat → Bytes) : State Bytes where
  cycles := .opq_circ_buffer_init fun i => ⟨memory i, if i = 0 then some 0 else none⟩
  readers := 0
  stored := []
  copied := []
  evicted := []

/-- The slot that the next `spi_read` fills. -/
def State.next (s : State Bytes) (bytes : Bytes) : Slot Bytes := ⟨bytes, some (s.stored.length + 1)⟩

/-- The buffer where the handler compares the positions. -/
def State.filled (s : State Bytes) (bytes : Bytes) : FrameBuffer (Slot Bytes) :=
  (s.cycles.fill (s.next bytes)).advanceWriter

/-- An execution of `opq_wq_spi_reader_handler`. -/
def State.handled (s : State Bytes) (status : Int) (bytes : Bytes) : State Bytes :=
  { s with
    cycles := s.cycles.opq_wq_spi_reader_handler (s.next bytes)
    stored := s.stored ++ [(status, bytes)]
    evicted :=
      if (s.filled bytes).Full then
        s.evicted ++ [⟨(s.filled bytes).data (s.filled bytes).reader_pos, s.cycles.occupied⟩]
      else s.evicted }

/-- The part of `opq_chardev_read` under the mutex. A failed `copy_to_user` is
    printed, and otherwise ignored. -/
def State.opq_chardev_read (s : State Bytes) (count left : Nat) : State Bytes :=
  { s with
    cycles := s.cycles.advanceReader
    readers := s.readers - 1
    copied := s.copied ++ [⟨s.cycles.data s.cycles.reader_pos,
      if count > OPQ_CYCLE_BUFFER_SIZE then OPQ_CYCLE_BUFFER_SIZE else count, left⟩] }

def step (s : State Bytes) : Action Bytes → Option (State Bytes)
  | .handler status bytes => some (s.handled status bytes)
  | .down =>
    if 0 < s.cycles.sem then
      some { s with cycles := { s.cycles with sem := s.cycles.sem - 1 }, readers := s.readers + 1 }
    else none
  | .interrupted => some s
  | .blocked => if s.cycles.sem = 0 then some s else none
  | .copy count left => if 0 < s.readers then some (s.opq_chardev_read count left) else none

end Opqbox.Driver
