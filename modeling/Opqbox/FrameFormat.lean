import Opqbox.DriverErrors
import Opqbox.Firmware
import Opqbox.Layout
import Opqbox.OpqData

/-!
The frame in memory: `OPQ_Frame` is a struct of the firmware, with the alignment
of the machine, `OPQCycle` one of the daemon, and packed. What the firmware sends
of a frame, `readCycle` reads as the same frame (`readCycle_image`).
-/
namespace Opqbox.Firmware
open Opqbox.Layout

/-- The members of `OPQ_Frame`. -/
def OPQ_Frame.members : List Member := [⟨2,FRAME_DATA_COUNT⟩,⟨2,1⟩,⟨2,1⟩,⟨4,1⟩]

def OPQ_Frame.values (f : OPQ_Frame) : Values OPQ_Frame.members :=
  (fun i => f.data i,fun _ => f.last_gps_counter,fun _ => f.current_counter,fun _ => f.flags,())

/-- The `sizeof(OPQ_Frame)` bytes of a frame, where `pad` is in none of its members. -/
def OPQ_Frame.image (pad : Nat → BitVec 8) (f : OPQ_Frame) : List (BitVec 8) :=
  Layout.image natural pad OPQ_Frame.members f.values

theorem bytes16_eq (v : BitVec 16) : littleEndian 2 v.toNat = bytes16 v := by
  have high : BitVec.ofNat 8 (v.toNat / 256) = (v >>> 8).setWidth 8 := by
    apply BitVec.eq_of_toNat_eq
    simp [Nat.shiftRight_eq_div_pow]
  simp only [littleEndian,bytes16,BitVec.ofNat_toNat,high]

theorem bytes32_eq (v : BitVec 32) : littleEndian 4 v.toNat = bytes32 v := by
  have byte (k : Nat) : BitVec.ofNat 8 (v.toNat / 2 ^ k) = (v >>> k).setWidth 8 := by
    apply BitVec.eq_of_toNat_eq
    simp [Nat.shiftRight_eq_div_pow]
  simp only [littleEndian,bytes32,BitVec.ofNat_toNat,Nat.div_div_eq_div_mul,← byte,Nat.reduceMul,Nat.reducePow]

/-- The members are where the alignment puts them anyway. -/
theorem OPQ_Frame.tight : Tight natural OPQ_Frame.members := by decide

/-- A frame in memory is its bytes. -/
theorem OPQ_Frame.image_eq (pad : Nat → BitVec 8) (f : OPQ_Frame) : f.image pad = f.bytes := by
  have all : (List.finRange FRAME_DATA_COUNT).map Fin.val = List.range FRAME_DATA_COUNT := by
    apply List.ext_getElem <;> simp
  have samples : Member.bytes ⟨2,FRAME_DATA_COUNT⟩ (fun i => f.data i) =
      (List.range FRAME_DATA_COUNT).flatMap fun i => bytes16 (f.data i) := by
    rw [← all,List.flatMap_map]
    simp only [Member.bytes,bytes16_eq]
  have single (size : Nat) (v : BitVec (8 * size)) : Member.bytes ⟨size,1⟩ (fun _ => v) = littleEndian size v.toNat :=
    List.append_nil _
  unfold image
  rw [image_of_tight OPQ_Frame.tight]
  show Member.bytes ⟨2,FRAME_DATA_COUNT⟩ (fun i => f.data i) ++ (Member.bytes ⟨2,1⟩ (fun _ => f.last_gps_counter) ++
    (Member.bytes ⟨2,1⟩ (fun _ => f.current_counter) ++ (Member.bytes ⟨4,1⟩ (fun _ => f.flags) ++ []))) = f.bytes
  rw [samples,single 2,single 2,single 4,bytes16_eq,bytes16_eq,bytes32_eq,bytes]
  simp only [List.append_assoc,List.append_nil]

end Opqbox.Firmware

namespace Opqbox.OpqData
open Opqbox.Layout

/-- The members of `OPQCycle`. -/
def OPQCycle.members : List Member := [⟨2,SAMPLES_PER_CYCLE⟩,⟨2,1⟩,⟨2,1⟩,⟨4,1⟩]

/-- `sizeof(OPQCycle)`. -/
def OPQCycle.size : Nat := sizeof packed OPQCycle.members

/-- The cycle whose memory holds some bytes. -/
def OPQCycle.ofBytes (bytes : List (BitVec 8)) : OPQCycle :=
  let (data,last_gps_counter,current_counter,flags,()) := load packed OPQCycle.members 0 bytes
  { data := .ofFn data
    last_gps_counter := last_gps_counter 0
    current_counter := current_counter 0
    flags := flags 0 }

/-- `readCycle`, where `read` gives the bytes that are copied for a count. -/
def readCycle (read : Nat → List (BitVec 8)) : Option OPQCycle :=
  let bytes := read OPQCycle.size
  if bytes.length ≠ OPQCycle.size then none else some (.ofBytes bytes)

theorem OPQCycle.tight : Tight packed OPQCycle.members := by decide

end Opqbox.OpqData

namespace Opqbox.FrameFormat
open Opqbox.Driver Opqbox.Firmware Opqbox.Layout Opqbox.OpqData

/-- What `opq_chardev_read` copies from the slot, where it can copy all. -/
def opq_chardev_read (slot : List (BitVec 8)) (count : Nat) : List (BitVec 8) :=
  slot.take (if count > OPQ_CYCLE_BUFFER_SIZE then OPQ_CYCLE_BUFFER_SIZE else count)

/-- The cycle has what the frame has. -/
structure Same (frame : OPQ_Frame) (cycle : OPQCycle) : Prop where
  data : ∀ i (inside : i < SAMPLES_PER_CYCLE), cycle.data[i].toInt = (frame.data i).toInt
  last_gps_counter : cycle.last_gps_counter = frame.last_gps_counter
  current_counter : cycle.current_counter = frame.current_counter
  flags : cycle.flags = frame.flags

/-- The firmware, the driver and the daemon agree on the number of bytes. -/
theorem sizes : sizeof natural OPQ_Frame.members = OPQ_CYCLE_BUFFER_SIZE ∧ OPQ_Frame.size = OPQ_CYCLE_BUFFER_SIZE ∧
    OPQCycle.size = OPQ_CYCLE_BUFFER_SIZE := by decide

theorem length_image (pad : Nat → BitVec 8) (frame : OPQ_Frame) : (frame.image pad).length = OPQ_CYCLE_BUFFER_SIZE :=
  (Layout.length_image OPQ_Frame.members frame.values).trans sizes.1

/-- The members of a frame, read from its memory as those of a cycle. -/
theorem load_frame (pad : Nat → BitVec 8) (frame : OPQ_Frame) :
    load packed OPQCycle.members 0 (frame.image pad) = frame.values := by
  unfold OPQ_Frame.image
  rw [image_of_tight OPQ_Frame.tight]
  exact load_contents OPQCycle.tight frame.values

/-- A frame that is sent and read is the same cycle. -/
theorem readCycle_image (pad : Nat → BitVec 8) (frame : OPQ_Frame) :
    ∃ cycle, readCycle (opq_chardev_read (frame.image pad)) = some cycle ∧ Same frame cycle := by
  have all : opq_chardev_read (frame.image pad) OPQCycle.size = frame.image pad := by
    unfold opq_chardev_read
    rw [sizes.2.2,if_neg (Nat.lt_irrefl _)]
    exact List.take_of_length_le (Nat.le_of_eq (length_image pad frame))
  refine ⟨.ofBytes (frame.image pad),?_,?_⟩
  · have complete : (frame.image pad).length = OPQCycle.size := (length_image pad frame).trans sizes.2.2.symm
    simp only [readCycle,all,complete,ne_eq,not_true_eq_false,if_false]
  · unfold OPQCycle.ofBytes
    rw [load_frame]
    exact {
      data := fun i inside => congrArg BitVec.toInt (Vector.getElem_ofFn inside)
      last_gps_counter := rfl
      current_counter := rfl
      flags := rfl }

/-- The bytes are those that reach the user. -/
theorem opq_chardev_read_reached (s : State (Frame (BitVec 8))) (count : Nat) :
    ∃ c, (s.opq_chardev_read count 0).copied = s.copied ++ [c] ∧
      c.reached = opq_chardev_read (s.cycles.data s.cycles.reader_pos).bytes.toList count :=
  ⟨_,rfl,rfl⟩

/-- A slot with the bytes of a frame is read as this frame. -/
theorem readCycle_slot {s : State (Frame (BitVec 8))} {frame : OPQ_Frame}
    (holds : (s.cycles.data s.cycles.reader_pos).bytes.toList = frame.bytes) :
    ∃ c cycle, (s.opq_chardev_read OPQCycle.size 0).copied = s.copied ++ [c] ∧ readCycle (fun _ => c.reached) = some cycle ∧
      Same frame cycle := by
  obtain ⟨c,copied,reached⟩ := opq_chardev_read_reached s OPQCycle.size
  obtain ⟨cycle,read,same⟩ := readCycle_image (fun _ => 0) frame
  refine ⟨c,cycle,copied,?_,same⟩
  rw [holds,← frame.image_eq fun _ => 0] at reached
  rw [← read]
  simp only [readCycle,reached]

end Opqbox.FrameFormat
