import Opqbox.FrameFormat
import Opqbox.RedisWriter

/-!
The messages of `opq.proto` as the generated C++ has them, and
`serialize_to_protobuf` of a measurement, field by field with the widths of the
types. The message has what the cycles and the timestamps have
(`serialize_to_protobuf_carries`), so a frame means the same to the acquisition
server as to the firmware (`meaning_kept`). `RedisWriter` has the same message as
Python presents it (`fill_presented`).
-/
namespace Opqbox.DataMessages
open Opqbox.Driver Opqbox.Firmware Opqbox.FrameFormat Opqbox.OpqData

/-! ### The generated classes -/

/-- `Cycle`; a field that is not repeated may not be set. -/
structure Cycle where
  time : Option (BitVec 64)
  data : List (BitVec 32)
  last_gps : Option (BitVec 32)
  current_count : Option (BitVec 32)
  flags : Option (BitVec 32)

def Cycle.new : Cycle := ⟨none,[],none,none,none⟩

def Cycle.add_data (value : BitVec 32) (c : Cycle) : Cycle := { c with data := c.data ++ [value] }
def Cycle.set_time (value : BitVec 64) (c : Cycle) : Cycle := { c with time := some value }
def Cycle.set_last_gps (value : BitVec 32) (c : Cycle) : Cycle := { c with last_gps := some value }
def Cycle.set_current_count (value : BitVec 32) (c : Cycle) : Cycle := { c with current_count := some value }
def Cycle.set_flags (value : BitVec 32) (c : Cycle) : Cycle := { c with flags := some value }

structure DataMessage where
  id : Option (BitVec 32)
  mid : Option (BitVec 32)
  cycles : List Cycle

def DataMessage.new : DataMessage := ⟨none,none,[]⟩

def DataMessage.set_id (value : BitVec 32) (m : DataMessage) : DataMessage := { m with id := some value }

/-- `add_cycles`, with the cycle as it is once its fields are set. -/
def DataMessage.add_cycles (c : Cycle) (m : DataMessage) : DataMessage := { m with cycles := m.cycles ++ [c] }

/-- All required fields are set. -/
def DataMessage.IsInitialized (m : DataMessage) : Prop := m.id.isSome ∧ ∀ c ∈ m.cycles, c.time.isSome

/-- The protobuf library: what is serialized parses to the same fields. -/
structure Protobuf (Buffer : Type) where
  SerializeToString : DataMessage → Buffer
  ParseFromString : Buffer → Option DataMessage
  kept : ∀ m, m.IsInitialized → ParseFromString (SerializeToString m) = some m

/-- Messages that are sent as they are. -/
def Protobuf.plain : Protobuf DataMessage := ⟨id,some,fun _ _ => rfl⟩

/-! ### `util.hpp` -/

/-- An `OPQMeasurement`, with the timestamps as the clock counts them, in nanoseconds. -/
structure Measurement where
  cycles : List OPQCycle
  timestamps : List (BitVec 64)

/-- A default-constructed `time_point`. -/
def epoch : BitVec 64 := 0#64

def crono_to_mili (time : BitVec 64) : BitVec 64 := (time - epoch).sdiv 1000000

/-- The body of the loop over the cycles, with the conversions to the types of the fields. -/
def protocycle (cycle : OPQCycle) (timestamp : BitVec 64) : Cycle :=
  let protocycle := cycle.data.toList.foldl (fun protocycle x => protocycle.add_data (x.signExtend 32)) Cycle.new
  let protocycle := protocycle.set_time (crono_to_mili timestamp)
  let protocycle := protocycle.set_last_gps (cycle.last_gps_counter.setWidth 32)
  let protocycle := protocycle.set_current_count (cycle.current_counter.setWidth 32)
  protocycle.set_flags cycle.flags

/-- The loop over the cycles; nothing where it runs past the timestamps. -/
def forCycles : List OPQCycle → List (BitVec 64) → DataMessage → Option DataMessage
  | [], _, m => some m
  | _ :: _, [], _ => none
  | cycle :: cycles, timestamp :: timestamps, m => forCycles cycles timestamps (m.add_cycles (protocycle cycle timestamp))

/-- The message before it is serialized. -/
def fill (id : BitVec 32) (message : Measurement) : Option DataMessage :=
  forCycles message.cycles message.timestamps (DataMessage.new.set_id id)

variable {Buffer : Type}

def serialize_to_protobuf (protobuf : Protobuf Buffer) (id : BitVec 32) (message : Measurement) : Option Buffer :=
  (fill id message).map protobuf.SerializeToString

/-! ### The message -/

/-- The message has the cycle: its samples with their signs, its counters, the bits
    of its flags, and its timestamp in milliseconds. -/
structure Carries (cycle : OPQCycle) (timestamp : BitVec 64) (carried : Cycle) : Prop where
  data : carried.data.map BitVec.toInt = cycle.data.toList.map BitVec.toInt
  last_gps : carried.last_gps.map BitVec.toInt = some (cycle.last_gps_counter.toNat : Int)
  current_count : carried.current_count.map BitVec.toInt = some (cycle.current_counter.toNat : Int)
  flags : carried.flags = some cycle.flags
  time : ∃ milliseconds, carried.time = some milliseconds ∧ milliseconds.toInt = timestamp.toInt.tdiv 1000000 ∧
    (0 ≤ timestamp.toInt → milliseconds.toNat = timestamp.toNat / 1000000)

theorem add_all (values : List (BitVec 16)) (c : Cycle) :
    values.foldl (fun protocycle x => protocycle.add_data (x.signExtend 32)) c =
      { c with data := c.data ++ values.map (BitVec.signExtend 32) } := by
  induction values generalizing c with
  | nil => simp
  | cons x values ih =>
    rw [List.foldl_cons,ih]
    simp [Cycle.add_data]

theorem protocycle_eq (cycle : OPQCycle) (timestamp : BitVec 64) : protocycle cycle timestamp = {
    time := some (crono_to_mili timestamp)
    data := cycle.data.toList.map (BitVec.signExtend 32)
    last_gps := some (cycle.last_gps_counter.setWidth 32)
    current_count := some (cycle.current_counter.setWidth 32)
    flags := some cycle.flags } := by
  unfold protocycle
  rw [add_all]
  rfl

/-- A 16-bit counter keeps its value in an `int32` field. -/
theorem toInt_counter (v : BitVec 16) : (v.setWidth 32).toInt = (v.toNat : Int) := by
  have range := v.isLt
  rw [BitVec.toInt_eq_toNat_cond,BitVec.toNat_setWidth]
  split_ifs <;> omega

theorem toInt_milliseconds (time : BitVec 64) : (crono_to_mili time).toInt = time.toInt.tdiv 1000000 := by
  unfold crono_to_mili epoch
  rw [BitVec.sub_zero,BitVec.toInt_sdiv_of_ne_or_ne]
  · rfl
  · right
    decide

/-- Since the epoch the count of milliseconds is the same as an unsigned number. -/
theorem toNat_milliseconds {time : BitVec 64} (since : 0 ≤ time.toInt) : (crono_to_mili time).toNat = time.toNat / 1000000 := by
  have quotient := toInt_milliseconds time
  rw [Int.tdiv_eq_ediv_of_nonneg since] at quotient
  have unsigned := BitVec.toInt_eq_toNat_cond time
  have unsigned' := BitVec.toInt_eq_toNat_cond (crono_to_mili time)
  split_ifs at unsigned unsigned' <;> omega

theorem protocycle_carries (cycle : OPQCycle) (timestamp : BitVec 64) : Carries cycle timestamp (protocycle cycle timestamp) := by
  rw [protocycle_eq]
  constructor
  · rw [List.map_map]
    apply List.map_congr_left
    intro x _
    exact BitVec.toInt_signExtend_of_le (by decide)
  · exact congrArg some (toInt_counter _)
  · exact congrArg some (toInt_counter _)
  · rfl
  · exact ⟨_,rfl,toInt_milliseconds timestamp,toNat_milliseconds⟩

theorem forCycles_eq (cycles : List OPQCycle) (timestamps : List (BitVec 64)) (m : DataMessage)
    (enough : cycles.length ≤ timestamps.length) :
    forCycles cycles timestamps m = some { m with cycles := m.cycles ++ List.zipWith protocycle cycles timestamps } := by
  induction cycles generalizing timestamps m with
  | nil => simp [forCycles]
  | cons cycle cycles ih =>
    cases timestamps with
    | nil => exact absurd enough (Nat.not_succ_le_zero _)
    | cons timestamp timestamps =>
      rw [forCycles,ih _ _ (Nat.le_of_succ_le_succ enough)]
      simp [DataMessage.add_cycles]

theorem forCycles_none {cycles : List OPQCycle} {timestamps : List (BitVec 64)} (short : timestamps.length < cycles.length)
    (m : DataMessage) : forCycles cycles timestamps m = none := by
  induction cycles generalizing timestamps m with
  | nil => exact absurd short (Nat.not_lt_zero _)
  | cons cycle cycles ih =>
    cases timestamps with
    | nil => rfl
    | cons timestamp timestamps => exact ih (Nat.lt_of_succ_lt_succ short) _

theorem fill_eq (id : BitVec 32) {m : Measurement} (enough : m.cycles.length ≤ m.timestamps.length) :
    fill id m = some ⟨some id,none,List.zipWith protocycle m.cycles m.timestamps⟩ :=
  forCycles_eq _ _ _ enough

theorem fill_none (id : BitVec 32) {m : Measurement} (short : m.timestamps.length < m.cycles.length) : fill id m = none :=
  forCycles_none short _

/-- The message has the cycles and their timestamps, in the same order. -/
structure CarriesAll (m : Measurement) (message : DataMessage) : Prop where
  number : message.cycles.length = m.cycles.length
  each : ∀ (k : Nat) cycle timestamp, m.cycles[k]? = some cycle → m.timestamps[k]? = some timestamp →
    ∃ carried, message.cycles[k]? = some carried ∧ Carries cycle timestamp carried

theorem serialize_to_protobuf_carries (protobuf : Protobuf Buffer) (id : BitVec 32) {m : Measurement}
    (same : m.cycles.length = m.timestamps.length) :
    ∃ out message, serialize_to_protobuf protobuf id m = some out ∧ protobuf.ParseFromString out = some message ∧
      message.id = some id ∧ CarriesAll m message := by
  have filled := fill_eq id (Nat.le_of_eq same)
  have initialized : DataMessage.IsInitialized ⟨some id,none,List.zipWith protocycle m.cycles m.timestamps⟩ := by
    refine ⟨rfl,?_⟩
    intro c member
    obtain ⟨k,_,rfl⟩ := List.getElem_of_mem member
    rw [List.getElem_zipWith,protocycle_eq]
    rfl
  refine ⟨_,_,?_,protobuf.kept _ initialized,rfl,?_,?_⟩
  · rw [serialize_to_protobuf,filled,Option.map_some]
  · rw [List.length_zipWith,← same,Nat.min_self]
  · intro k cycle timestamp at_cycle at_timestamp
    refine ⟨protocycle cycle timestamp,?_,protocycle_carries cycle timestamp⟩
    rw [List.getElem?_zipWith,at_cycle,at_timestamp]

/-- What a frame is, the daemon reads from the bytes that are sent, and what a
    measurement has, its message carries to the acquisition server. -/
theorem meaning_kept (protobuf : Protobuf Buffer) :
    (∀ (pad : Nat → BitVec 8) (frame : OPQ_Frame), frame.image pad = frame.bytes ∧ frame.bytes.length = OPQ_CYCLE_BUFFER_SIZE ∧
      ∃ cycle, readCycle (opq_chardev_read frame.bytes) = some cycle ∧ Same frame cycle) ∧
    ∀ (id : BitVec 32) (m : Measurement), m.cycles.length = m.timestamps.length →
      ∃ out message, serialize_to_protobuf protobuf id m = some out ∧ protobuf.ParseFromString out = some message ∧
        message.id = some id ∧ CarriesAll m message := by
  constructor
  · intro pad frame
    have is := frame.image_eq pad
    exact ⟨is,is ▸ length_image pad frame,is ▸ readCycle_image pad frame⟩
  · intro id m same
    exact serialize_to_protobuf_carries protobuf id same

/-- A negative sample and a flag in the highest bit. -/
def negative : OPQCycle := ⟨Vector.replicate SAMPLES_PER_CYCLE (-1),65535,1,0x80000001⟩

theorem meaning_kept_negative : ∃ out message,
    serialize_to_protobuf Protobuf.plain 7 ⟨[negative],[1500000000123456789]⟩ = some out ∧
      Protobuf.plain.ParseFromString out = some message ∧ message.id = some 7 ∧ CarriesAll ⟨[negative],[1500000000123456789]⟩ message :=
  (meaning_kept Protobuf.plain).2 7 ⟨[negative],[1500000000123456789]⟩ rfl

/-! ### From the frames on -/

/-- A cycle of a message has the samples, the counters and the flags of a frame. -/
structure Means (frame : OPQ_Frame) (carried : Cycle) : Prop where
  data : carried.data.map BitVec.toInt = (List.range FRAME_DATA_COUNT).map fun i => (frame.data i).toInt
  last_gps : carried.last_gps.map BitVec.toInt = some (frame.last_gps_counter.toNat : Int)
  current_count : carried.current_count.map BitVec.toInt = some (frame.current_counter.toNat : Int)
  flags : carried.flags = some frame.flags

theorem means_of_carries {frame : OPQ_Frame} {cycle : OPQCycle} {timestamp : BitVec 64} {carried : Cycle}
    (same : Same frame cycle) (carries : Carries cycle timestamp carried) : Means frame carried := by
  constructor
  · rw [carries.data]
    apply List.ext_getElem
    · simp only [List.length_map,Vector.length_toList,List.length_range]
      rfl
    · intro i inside _
      have sample := same.data i (by simpa using inside)
      simpa using sample
  · rw [carries.last_gps,same.last_gps_counter]
  · rw [carries.current_count,same.current_counter]
  · rw [carries.flags,same.flags]

/-- Frames that are sent, read and stored as a measurement mean the same in its message. -/
theorem frames_carried (protobuf : Protobuf Buffer) (id : BitVec 32) (pad : Nat → BitVec 8) {frames : List OPQ_Frame}
    {timestamps : List (BitVec 64)} (number : frames.length = timestamps.length) :
    ∃ cycles out message, frames.map (fun frame => readCycle (opq_chardev_read (frame.image pad))) = cycles.map some ∧
      serialize_to_protobuf protobuf id ⟨cycles,timestamps⟩ = some out ∧ protobuf.ParseFromString out = some message ∧
      message.cycles.length = frames.length ∧
      ∀ (k : Nat) frame, frames[k]? = some frame → ∃ carried, message.cycles[k]? = some carried ∧ Means frame carried := by
  choose cycleOf reads same using readCycle_image pad
  have cycles : (frames.map cycleOf).length = timestamps.length := (List.length_map _).trans number
  obtain ⟨out,message,serialized,parsed,_,carries⟩ :=
    serialize_to_protobuf_carries protobuf id (m := ⟨frames.map cycleOf,timestamps⟩) cycles
  refine ⟨frames.map cycleOf,out,message,?_,serialized,parsed,?_,?_⟩
  · rw [List.map_map]
    exact List.map_congr_left fun frame _ => reads frame
  · rw [carries.number,List.length_map]
  · intro k frame at_frame
    have inside : k < timestamps.length := number ▸ (List.getElem?_eq_some_iff.mp at_frame).1
    have at_cycle : (frames.map cycleOf)[k]? = some (cycleOf frame) := by rw [List.getElem?_map,at_frame,Option.map_some]
    obtain ⟨carried,at_carried,is⟩ := carries.each k _ _ at_cycle (List.getElem?_eq_getElem inside)
    exact ⟨carried,at_carried,means_of_carries (same frame) is⟩

/-! ### The message in Python -/

def Cycle.presented (c : Cycle) : Messages.Cycle where
  time := (c.time.getD 0).toNat
  data := c.data.map BitVec.toInt
  last_gps := c.last_gps.map BitVec.toInt
  current_count := c.current_count.map BitVec.toInt
  flags := c.flags.map BitVec.toInt

def DataMessage.presented (m : DataMessage) : Messages.DataMessage where
  id := m.id.map BitVec.toInt
  mid := m.mid.map BitVec.toInt
  cycles := m.cycles.map Cycle.presented

/-- The measurement with its timestamps as numbers. -/
def Measurement.counted (m : Measurement) : OPQMeasurement := ⟨m.cycles,m.timestamps.map BitVec.toNat⟩

theorem protocycle_presented (cycle : OPQCycle) {timestamp : BitVec 64} (since : 0 ≤ timestamp.toInt) :
    (protocycle cycle timestamp).presented = RedisWriter.protocycle cycle timestamp.toNat := by
  have carries := protocycle_carries cycle timestamp
  rw [protocycle_eq] at carries ⊢
  unfold Cycle.presented RedisWriter.protocycle
  rw [carries.data,carries.last_gps,carries.current_count,Option.getD_some,toNat_milliseconds since]
  rfl

/-- Python is presented the message that `RedisWriter` has, where the clock is past the epoch. -/
theorem fill_presented (id : BitVec 32) {m : Measurement} (since : ∀ t ∈ m.timestamps, 0 ≤ t.toInt) :
    (fill id m).map DataMessage.presented = RedisWriter.serialize_to_protobuf id.toInt m.counted := by
  have number : m.counted.timestamps.length = m.timestamps.length := List.length_map _
  unfold RedisWriter.serialize_to_protobuf
  rw [number]
  by_cases short : m.timestamps.length < m.cycles.length
  · rw [fill_none id short]
    exact (if_pos short).symm
  · rw [fill_eq id (Nat.not_lt.mp short)]
    rw [if_neg (show ¬ m.timestamps.length < m.counted.cycles.length from short)]
    have cycles : (List.zipWith protocycle m.cycles m.timestamps).map Cycle.presented =
        List.zipWith RedisWriter.protocycle m.cycles (m.timestamps.map BitVec.toNat) := by
      apply List.ext_getElem
      · simp
      · intro k inside _
        simp only [List.getElem_map,List.getElem_zipWith]
        exact protocycle_presented _ (since _ (List.getElem_mem _))
    exact congrArg (fun cycles => some (Messages.DataMessage.mk (some id.toInt) none cycles)) cycles

end Opqbox.DataMessages
