import Opqbox.FrameFormat
import Opqbox.HandshakeStream

/-!
From the converter to a process that reads the device: the firmware, the bus and
the driver as one system. The handler holds the mutex from the start of its
`spi_read` until the slot is stored, so no read copies in between. The frame `k`
of the firmware becomes the slot `k + 1` of the driver (`Joined`), and a process
gets whole frames, none twice, each with its 200 conversions (`converter_to_user`),
but for what is in the slot that the ring begins with.
-/
namespace Opqbox.SampleStream
open Opqbox.Runs Opqbox.Firmware Opqbox.FrameFormat Opqbox.OpqData
open Opqbox.Driver (Frame OPQ_CYCLE_BUFFER_SIZE element)

structure System where
  bus : Handshake.System
  driver : Driver.State (Frame (BitVec 8))

/-- The firmware and the driver are started; `kmalloc` left something in the slots. -/
def ready (memory : OPQ_Frame_Buffer) (kmalloc : Nat → Frame (BitVec 8)) : System :=
  ⟨Handshake.ready memory,Driver.init kmalloc⟩

inductive Action where
  | bus (a : Handshake.Action)
  /-- `spi_read` returns in the handler, with something in the slot, and the handler
      goes on to its end. -/
  | handler (status : Int) (slot : Frame (BitVec 8))
  /-- A step of a process that reads the device. -/
  | chardev (a : Driver.Action (Frame (BitVec 8)))

/-- The end of the handler is a step of its own. -/
def ofBus : Handshake.Action → Bool
  | .finish | .fail => false
  | _ => true

/-- Who reads the device waits for the mutex. -/
def System.allows (s : System) : Driver.Action (Frame (BitVec 8)) → Bool
  | .handler _ _ => false
  | .copy _ _ => s.bus.reading.isNone
  | _ => true

def step (s : System) : Action → Option System
  | .bus a => if ofBus a then (Handshake.step s.bus a).map fun bus => { s with bus := bus } else none
  | .handler status slot =>
    if 0 ≤ status then
      if s.bus.reading = some slot.toList then
        s.bus.finish.map fun bus => ⟨bus,s.driver.handled status slot⟩
      else none
    else s.bus.fail.map fun bus => ⟨bus,s.driver.handled status slot⟩
  | .chardev a => if s.allows a then (Driver.step s.driver a).map fun driver => { s with driver := driver } else none

/-- The firmware is within its capacity. -/
def Bounded (s : Handshake.System) (a : Handshake.Action) (t : Handshake.System) : Prop :=
  match a with
  | .firmware c => WithinCapacity s.firmware c t.firmware
  | _ => True

instance (s : Handshake.System) (a : Handshake.Action) (t : Handshake.System) : Decidable (Bounded s a t) :=
  match a with
  | .firmware c => inferInstanceAs (Decidable (WithinCapacity s.firmware c t.firmware))
  | .boot | .load | .interrupt | .work | .clock _ | .finish | .fail => .isTrue trivial

/-- The firmware is within its capacity, and neither `spi_read` nor `copy_to_user`
    fails. -/
def Assumed (s : System) (a : Action) (t : System) : Prop :=
  match a with
  | .bus a => Bounded s.bus a t.bus
  | .handler status _ => 0 ≤ status
  | .chardev (.copy _ left) => left = 0
  | _ => True

/-! ### What a step of the bus leaves -/

/-- Only the steps of the firmware change it. -/
theorem bus_firmware {s t : Handshake.System} {a : Handshake.Action} (taken : Handshake.step s a = some t) :
    (∃ c, a = .firmware c ∧ Firmware.step s.firmware c = some t.firmware) ∨ t.firmware = s.firmware := by
  cases a with
  | firmware c =>
    obtain ⟨_,stepped⟩ := Option.ite_none_right_eq_some.mp taken
    obtain ⟨f,moved,rfl⟩ := Option.map_eq_some_iff.mp stepped
    exact .inl ⟨c,rfl,moved⟩
  | boot | load =>
    obtain ⟨_,same⟩ := Option.ite_none_left_eq_some.mp taken
    cases same
    exact .inr rfl
  | interrupt | work =>
    obtain ⟨_,same⟩ := Option.ite_none_right_eq_some.mp taken
    cases same
    exact .inr rfl
  | clock noise => obtain ⟨_,_,_,⟨_,_,_,rfl⟩ | ⟨_,_,rfl⟩⟩ := Handshake.System.clock_cases taken <;> exact .inr rfl
  | finish =>
    obtain ⟨_,_,_,rfl⟩ := Handshake.System.finish_cases taken
    exact .inr rfl
  | fail =>
    obtain ⟨_,_,_,rfl⟩ := Handshake.System.fail_cases taken
    exact .inr rfl

/-- The reads that are done stay what they are until the handler ends. -/
theorem bus_reads {s t : Handshake.System} {a : Handshake.Action} (inside : ofBus a) (taken : Handshake.step s a = some t) :
    t.reads = s.reads := by
  cases a with
  | firmware c =>
    obtain ⟨_,stepped⟩ := Option.ite_none_right_eq_some.mp taken
    obtain ⟨f,_,rfl⟩ := Option.map_eq_some_iff.mp stepped
    rfl
  | boot | load =>
    obtain ⟨_,same⟩ := Option.ite_none_left_eq_some.mp taken
    cases same
    rfl
  | interrupt | work =>
    obtain ⟨_,same⟩ := Option.ite_none_right_eq_some.mp taken
    cases same
    rfl
  | clock noise => obtain ⟨_,_,_,⟨_,_,_,rfl⟩ | ⟨_,_,rfl⟩⟩ := Handshake.System.clock_cases taken <;> rfl
  | finish | fail => cases inside

/-! ### The invariant -/

/-- The driver has stored what the bus has read, which are the frames of the firmware. -/
structure Joined (kmalloc : Nat → Frame (BitVec 8)) (s : System) : Prop where
  armed : Handshake.Armed s.bus
  ring : Firmware.Ring true s.bus.firmware
  slots : Driver.Invariant kmalloc s.driver
  stored : s.driver.stored.map (fun e => e.2.toList) = s.bus.reads
  whole : ∀ c ∈ s.driver.copied, c.left = 0

variable {kmalloc : Nat → Frame (BitVec 8)} {s t : System}

theorem ready_joined (memory : OPQ_Frame_Buffer) (kmalloc : Nat → Frame (BitVec 8)) : Joined kmalloc (ready memory kmalloc) where
  armed := Handshake.ready_armed memory
  ring := start_ring memory
  slots := .initial kmalloc
  stored := rfl
  whole := nofun

theorem Joined.bus (joined : Joined kmalloc s) {a : Handshake.Action} {bus : Handshake.System} (inside : ofBus a)
    (taken : Handshake.step s.bus a = some bus) (assumed : Assumed s (.bus a) { s with bus := bus }) :
    Joined kmalloc { s with bus := bus } := by
  obtain ⟨armed,ring,slots,stored,whole⟩ := joined
  have undisturbed : Handshake.Assumed s.bus a bus := by
    cases a with
    | firmware c => exact ring.keeps_transfer c bus.firmware
    | fail => cases inside
    | _ => trivial
  refine ⟨armed.after taken undisturbed,?_,slots,stored.trans (bus_reads inside taken).symm,whole⟩
  rcases bus_firmware taken with ⟨c,rfl,moved⟩ | same
  · exact step_ring_sent ring moved assumed
  · exact same ▸ ring

/-- The slot that the handler fills is the frame that the bus read. -/
theorem Joined.handler (joined : Joined kmalloc s) {status : Int} {slot : Frame (BitVec 8)} {bus : Handshake.System}
    (read : s.bus.reading = some slot.toList) (finished : s.bus.finish = some bus) :
    Joined kmalloc ⟨bus,s.driver.handled status slot⟩ := by
  obtain ⟨armed,ring,slots,stored,whole⟩ := joined
  have after : Handshake.Armed bus := armed.after (a := .finish) finished trivial
  obtain ⟨bytes,reading,_,rfl⟩ := Handshake.System.finish_cases finished
  obtain rfl : slot.toList = bytes := Option.some.inj (read.symm.trans reading)
  refine ⟨after,ring,slots.handled status slot,?_,whole⟩
  show (s.driver.stored ++ [(status,slot)]).map (fun e => e.2.toList) = s.bus.reads ++ [slot.toList]
  rw [List.map_append,stored]
  rfl

theorem Joined.chardev (joined : Joined kmalloc s) {a : Driver.Action (Frame (BitVec 8))}
    {driver : Driver.State (Frame (BitVec 8))} (allowed : s.allows a) (taken : Driver.step s.driver a = some driver)
    (assumed : Assumed s (.chardev a) { s with driver := driver }) : Joined kmalloc { s with driver := driver } := by
  obtain ⟨armed,ring,slots,stored,whole⟩ := joined
  have after := slots.step taken
  cases a with
  | handler status bytes => cases allowed
  | copy count left =>
    obtain ⟨waiting,same⟩ := Option.ite_none_right_eq_some.mp taken
    cases same
    refine ⟨armed,ring,after,stored,?_⟩
    intro c member
    rcases List.mem_append.mp member with old | new
    · exact whole c old
    · obtain rfl := List.mem_singleton.mp new
      exact assumed
  | interrupted =>
    cases taken
    exact ⟨armed,ring,after,stored,whole⟩
  | down | blocked =>
    obtain ⟨_,same⟩ := Option.ite_none_right_eq_some.mp taken
    cases same
    exact ⟨armed,ring,after,stored,whole⟩

theorem Joined.step {a : Action} (joined : Joined kmalloc s) (taken : step s a = some t) (assumed : Assumed s a t) :
    Joined kmalloc t := by
  cases a with
  | bus a =>
    obtain ⟨inside,stepped⟩ := Option.ite_none_right_eq_some.mp taken
    obtain ⟨bus,moved,rfl⟩ := Option.map_eq_some_iff.mp stepped
    exact joined.bus inside moved assumed
  | handler status slot =>
    have succeeds : 0 ≤ status := assumed
    simp only [SampleStream.step,succeeds,if_true] at taken
    obtain ⟨read,stepped⟩ := Option.ite_none_right_eq_some.mp taken
    obtain ⟨bus,finished,rfl⟩ := Option.map_eq_some_iff.mp stepped
    exact joined.handler read finished
  | chardev a =>
    obtain ⟨allowed,stepped⟩ := Option.ite_none_right_eq_some.mp taken
    obtain ⟨driver,moved,rfl⟩ := Option.map_eq_some_iff.mp stepped
    exact joined.chardev allowed moved assumed

/-! ### What a process reads -/

/-- The cycles that the reads of the device give, where one is a whole cycle. -/
def cyclesRead (s : Driver.State (Frame (BitVec 8))) : List OPQCycle :=
  s.copied.filterMap fun c => readCycle fun _ => c.reached

/-- The cycle is the frame of this number, counted from 1, with its 200 conversions;
    number 0 is what the slot held before the first frame. -/
def Carries (kmalloc : Nat → Frame (BitVec 8)) (f : State) : Nat → OPQCycle → Prop
  | 0, cycle => cycle = .ofBytes (kmalloc 0).toList
  | k+1, cycle => (∃ frame, f.completed[k]? = some frame ∧ Same frame cycle) ∧
      ∀ i (inside : i < SAMPLES_PER_CYCLE), f.conversions[SAMPLES_PER_CYCLE * k + i]? = some cycle.data[i]

/-- The bytes that reach a process that reads a whole cycle are those of the slot. -/
theorem reached_whole {c : Driver.Copy (Frame (BitVec 8))} {cycle : OPQCycle} (all : c.left = 0)
    (read : readCycle (fun _ => c.reached) = some cycle) : c.reached = c.slot.bytes.toList := by
  obtain ⟨complete,_⟩ := Option.ite_none_left_eq_some.mp read
  have length : c.reached.length = OPQ_CYCLE_BUFFER_SIZE := (Decidable.not_not.mp complete).trans sizes.2.2
  rw [Driver.Copy.reached,List.length_take,Vector.length_toList] at length
  rw [Driver.Copy.reached]
  exact List.take_of_length_le (by rw [Vector.length_toList]; omega)

/-- The slot `k + 1` holds the bytes of the frame `k` of the firmware. -/
theorem Joined.slot (joined : Joined kmalloc s) {k : Nat} (stored : k < s.driver.stored.length) :
    ∃ frame, s.bus.firmware.completed[k]? = some frame ∧
      (element kmalloc s.driver.stored (k + 1)).bytes.toList = frame.bytes := by
  have read : s.bus.reads[k]? = some (s.driver.stored[k].2.toList) := by
    rw [← joined.stored,List.getElem?_map,List.getElem?_eq_getElem stored]
    rfl
  have inside := (List.getElem?_eq_some_iff.mp read).1
  rw [joined.armed.stream.reads,List.getElem?_take_of_lt inside,List.getElem?_map] at read
  obtain ⟨frame,handed,same⟩ := Option.map_eq_some_iff.mp read
  have order := (List.getElem?_eq_some_iff.mp handed).1
  rw [joined.ring.delivered,List.getElem?_take_of_lt order] at handed
  refine ⟨frame,handed,same.symm ▸ ?_⟩
  simp [element,Driver.stream,List.getElem?_eq_getElem stored]

/-- A cycle that is read carries the frame of its slot. -/
theorem Joined.carries (joined : Joined kmalloc s) {c : Driver.Copy (Frame (BitVec 8))} (member : c ∈ s.driver.copied)
    {cycle : OPQCycle} (read : readCycle (fun _ => c.reached) = some cycle) :
    Carries kmalloc s.bus.firmware (c.slot.number.getD 0) cycle := by
  obtain ⟨k,old,same⟩ := joined.slots.copies c member
  have bytes := reached_whole (joined.whole c member) read
  have number : c.slot.number.getD 0 = k := by rw [same]; rfl
  rw [number]
  rw [same] at bytes
  cases k with
  | zero =>
    obtain ⟨_,whole⟩ := Option.ite_none_left_eq_some.mp read
    rw [← Option.some.inj whole,bytes]
    rfl
  | succ k =>
    obtain ⟨frame,completed,image⟩ := joined.slot old
    obtain ⟨own,sent,equal⟩ := readCycle_image (fun _ => 0) frame
    have found : own = cycle := by
      have all : opq_chardev_read (frame.image fun _ => 0) OPQCycle.size = c.reached := by
        rw [bytes,image,frame.image_eq,opq_chardev_read,sizes.2.2,if_neg (Nat.lt_irrefl _)]
        exact List.take_of_length_le (by rw [frame.length_bytes]; exact sizes.2.1.le)
      simp only [readCycle,all] at sent read
      exact Option.some.inj (sent.symm.trans read)
    subst found
    refine ⟨⟨frame,completed,equal⟩,?_⟩
    intro i inside
    have converted := joined.ring.contents k frame completed i inside
    rw [← BitVec.toInt_inj.mp (equal.data i inside)] at converted
    exact converted

/-- What is chosen of a list belongs to a part of its numbers. -/
theorem forall₂_filterMap {α β γ : Type*} {number : α → γ} {f : α → Option β} {R : γ → β → Prop} {l : List α}
    (belongs : ∀ x ∈ l, ∀ y, f x = some y → R (number x) y) :
    ∃ numbers, numbers.Sublist (l.map number) ∧ List.Forall₂ R numbers (l.filterMap f) := by
  induction l with
  | nil => exact ⟨[],.slnil,.nil⟩
  | cons x l ih =>
    obtain ⟨own,others⟩ := List.forall_mem_cons.mp belongs
    obtain ⟨numbers,part,each⟩ := ih others
    cases chosen : f x with
    | none => exact ⟨numbers,part.cons _,by rwa [List.filterMap_cons_none chosen]⟩
    | some y =>
      refine ⟨number x :: numbers,part.cons_cons _,?_⟩
      rw [List.filterMap_cons_some chosen]
      exact each.cons (own y chosen)

/-- What is read are frames, each later than the one before. -/
theorem Joined.reads (joined : Joined kmalloc s) :
    ∃ numbers, numbers.Pairwise (· < ·) ∧ List.Forall₂ (Carries kmalloc s.bus.firmware) numbers (cyclesRead s.driver) := by
  obtain ⟨numbers,part,each⟩ := forall₂_filterMap fun c member _ => joined.carries member
  exact ⟨numbers,joined.slots.ordered.sublist part,each⟩

/-- Each element of the stream is copied, evicted or in the ring. -/
theorem accounted {s : Driver.State (Frame (BitVec 8))} (slots : Driver.Invariant kmalloc s) :
    (s.copiedNumbers ++ s.evictedNumbers ++ s.cycles.occupied.map fun slot => slot.number.getD 0).Perm
      (List.range (s.stored.length + 1)) := by
  have tokens := slots.tokens
  have present : s.cycles.occupied.map (fun slot => slot.number.getD 0) =
      List.range' s.removed (s.stored.length + 1 - s.removed) := by
    rw [slots.occupied,List.map_map]
    exact List.map_id' _
  have whole : List.range (s.stored.length + 1) =
      List.range s.removed ++ List.range' s.removed (s.stored.length + 1 - s.removed) := by
    have append := @List.range'_append_1 0 s.removed (s.stored.length + 1 - s.removed)
    rw [Nat.zero_add,Nat.add_sub_cancel' (by omega)] at append
    rw [List.range_eq_range',List.range_eq_range',append]
  rw [present,whole]
  exact slots.parted.append_right _

/-- Whatever the order of the steps: a process that reads the device gets frames of
    the firmware, none twice and each later than the one before, with 200 conversions
    that follow each other, and before them at most what the first slot held; and each
    frame that came over the bus was copied, was evicted or is in the ring. -/
theorem converter_to_user (memory : OPQ_Frame_Buffer) (kmalloc : Nat → Frame (BitVec 8)) {actions : List Action} {s : System}
    (ran : run step (ready memory kmalloc) actions = some s) (assumed : Along step Assumed (ready memory kmalloc) actions) :
    (∃ numbers, numbers.Pairwise (· < ·) ∧
      List.Forall₂ (Carries kmalloc s.bus.firmware) numbers (cyclesRead s.driver)) ∧
    (s.driver.copiedNumbers ++ s.driver.evictedNumbers ++ s.driver.cycles.occupied.map fun slot => slot.number.getD 0).Perm
      (List.range (s.bus.reads.length + 1)) := by
  have joined := run_invariant_along (Joined kmalloc) (fun _ _ _ => Joined.step) (ready_joined memory kmalloc) assumed ran
  refine ⟨joined.reads,?_⟩
  rw [← joined.stored,List.length_map]
  exact accounted joined.slots

/-! ### A run -/

/-- A run of the bus inside of the system. -/
theorem run_bus {as : List Handshake.Action} (inside : ∀ a ∈ as, ofBus a) {bus : Handshake.System}
    (ran : run Handshake.step s.bus as = some bus) : run step s (as.map .bus) = some { s with bus := bus } := by
  induction as generalizing s with
  | nil =>
    cases ran
    rfl
  | cons a as ih =>
    obtain ⟨own,others⟩ := List.forall_mem_cons.mp inside
    obtain ⟨next,taken,rest⟩ := run_cons_inv ran
    have moved : step s (.bus a) = some { s with bus := next } := by simp [step,own,taken]
    rw [List.map_cons,run_cons moved]
    exact ih (s := { s with bus := next }) others rest

/-- A run of the processes that read the device, with no handler at work. -/
theorem run_chardev {as : List (Driver.Action (Frame (BitVec 8)))} (allowed : ∀ a ∈ as, s.allows a)
    {driver : Driver.State (Frame (BitVec 8))} (ran : run Driver.step s.driver as = some driver) :
    run step s (as.map .chardev) = some { s with driver := driver } := by
  induction as generalizing s with
  | nil =>
    cases ran
    rfl
  | cons a as ih =>
    obtain ⟨own,others⟩ := List.forall_mem_cons.mp allowed
    obtain ⟨next,taken,rest⟩ := run_cons_inv ran
    have moved : step s (.chardev a) = some { s with driver := next } := by simp [step,own,taken]
    rw [List.map_cons,run_cons moved]
    exact ih (s := { s with driver := next }) others rest

theorem along_bus {as : List Handshake.Action} (bounded : Along Handshake.step Bounded s.bus as) :
    Along step Assumed s (as.map .bus) := by
  induction as generalizing s with
  | nil => trivial
  | cons a as ih =>
    intro t taken
    obtain ⟨_,stepped⟩ := Option.ite_none_right_eq_some.mp taken
    obtain ⟨bus,moved,rfl⟩ := Option.map_eq_some_iff.mp stepped
    obtain ⟨own,later⟩ := bounded bus moved
    exact ⟨own,ih (s := { s with bus := bus }) later⟩

/-- Neither the sample interrupt nor the end of the handler. -/
def sends : Handshake.Action → Bool
  | .firmware .main | .firmware .spi | .firmware .close | .interrupt | .work | .clock _ => true
  | _ => false

/-- Only the sample interrupt adds to the frames that wait. -/
theorem sends_waiting {b b' : Handshake.System} {a : Handshake.Action} (sending : sends a) (taken : Handshake.step b a = some b') :
    b'.firmware.waiting ≤ b.firmware.waiting := by
  rcases bus_firmware taken with ⟨c,rfl,own⟩ | same
  · cases c with
    | main =>
      obtain ⟨_,is⟩ := Option.ite_none_right_eq_some.mp own
      have handed := b.firmware.mainLoop_handed
      rw [← Option.some.inj is,State.waiting,State.waiting,b.firmware.mainLoop_histories.2.2.1]
      omega
    | spi | close =>
      obtain ⟨_,is⟩ := Option.ite_none_right_eq_some.mp own
      rw [← Option.some.inj is]
      exact Nat.le_refl _
    | _ => cases sending
  · rw [same]

/-- While frames are only sent the firmware stays within its capacity. -/
theorem along_sends {as : List Handshake.Action} (sending : ∀ a ∈ as, sends a) {b : Handshake.System}
    (few : b.firmware.waiting ≤ 3) : Along Handshake.step Bounded b as := by
  refine along_of_along (fun b => b.firmware.waiting ≤ 3) (P := fun _ a _ => sends a = true) ?_ ?_ few
    (along_of_forall (fun a mem _ _ => sending a mem) b)
  · exact fun _ _ _ few taken sending => (sends_waiting sending taken).trans few
  · intro b a b' few taken sending
    have after := (sends_waiting sending taken).trans few
    cases a with
    | firmware c => cases c <;> first | exact ⟨after,trivial⟩ | cases sending
    | _ => trivial

theorem run_sends {as : List Handshake.Action} (sending : ∀ a ∈ as, sends a) {b b' : Handshake.System}
    (few : b.firmware.waiting ≤ 3) (ran : run Handshake.step b as = some b') : b'.firmware.waiting ≤ 3 :=
  run_invariant_along (fun b => b.firmware.waiting ≤ 3) (P := fun _ a _ => sends a = true)
    (fun _ _ _ few taken sending => (sends_waiting sending taken).trans few) few
    (along_of_forall (fun a mem _ _ => sending a mem) b) ran

/-- Two frames are filled and the first is handed over. -/
def twoFrames : List Handshake.Action :=
  (fillFrame 7 ++ fillFrame 8 ++ List.replicate 8 Firmware.Action.main).map Handshake.Action.firmware

/-- The transfer ends, and the next frame is handed over. -/
def nextFrame : List Handshake.Action := .firmware .close :: List.replicate 8 (.firmware .main)

/-- A frame goes over the bus, and the handler stores it. -/
def carryFrame (slot : Frame (BitVec 8)) : List Action := Handshake.clockFrame.map .bus ++ [.handler 0 slot]

/-- The handler stores two frames, and a process reads twice. -/
def carryFrames (slot slot' : Frame (BitVec 8)) : List Action :=
  twoFrames.map .bus ++ carryFrame slot ++ nextFrame.map .bus ++ carryFrame slot' ++
    [.chardev .down,.chardev (.copy 408 0),.chardev .down,.chardev (.copy 408 0)]

/-- What the first slot holds before. -/
def fives : Nat → Frame (BitVec 8) := fun _ => .replicate 408 5

set_option maxRecDepth 20000 in
theorem twoFrames_run : ((run Handshake.step (Handshake.ready zeroed) twoFrames).map fun b =>
      (b.started,b.loaded,b.irq,b.reading.isNone,b.fifo.isEmpty)) = some (true,true,true,true,true) ∧
    ((run Handshake.step (Handshake.ready zeroed) twoFrames).map fun b => (b.firmware.sdadc,b.firmware.main,
      b.firmware.frameBuffer.head,b.firmware.frameBuffer.tail,b.firmware.waiting)) = some (.idle,.testState,2,1,1) ∧
    Along Handshake.step Bounded (Handshake.ready zeroed) twoFrames := by
  refine ⟨?_,?_,?_⟩ <;> decide +kernel

/-- A frame has gone over the bus, and the firmware is otherwise where it was. -/
structure Carried (b b' : Handshake.System) : Prop where
  live : b'.Live
  started : b'.started = b.started
  loaded : b'.loaded = b.loaded
  fifo : b'.fifo = []
  idle : b'.reading = none
  closing : b'.firmware.hspi3.closing = true
  sdadc : b'.firmware.sdadc = b.firmware.sdadc
  main : b'.firmware.main = b.firmware.main
  frameBuffer : b'.firmware.frameBuffer = b.firmware.frameBuffer
  waiting : b'.firmware.waiting = b.firmware.waiting

/-- The frame whose interrupt is pending becomes a slot of the driver. -/
theorem carryFrame_run {s : System} (started : s.bus.started = true) (live : s.bus.Live) (irq : s.bus.irq = true)
    (idle : s.bus.reading = none) (fifo : s.bus.fifo = []) (few : s.bus.firmware.waiting ≤ 3) :
    ∃ slot bus, Carried s.bus bus ∧ run step s (carryFrame slot) = some ⟨bus,s.driver.handled 0 slot⟩ ∧
      Along step Assumed s (carryFrame slot) := by
  obtain ⟨hspi,pin,bytes,clocked,all,closing,_⟩ := Handshake.clockFrame_run started live irq idle fifo
  let slot : Frame (BitVec 8) := ⟨⟨bytes⟩,all⟩
  let read : Handshake.System := { s.bus.sending hspi pin [] (some bytes) with
    irq := false, work := false, executions := s.bus.executions + 1 }
  let bus : Handshake.System := { read with reading := none, reads := s.bus.reads ++ [bytes] }
  have finished : read.finish = some bus := by
    simp [Handshake.System.finish,read,bus,Handshake.System.sending,all]
  have read_live : read.Live := Handshake.live_run live (by decide +kernel) clocked
  have carried : run step s (Handshake.clockFrame.map .bus) = some { s with bus := read } := run_bus (by decide +kernel) clocked
  have stored : step { s with bus := read } (.handler 0 slot) = some ⟨bus,s.driver.handled 0 slot⟩ := by
    simp [step,finished,show read.reading = some slot.toList from rfl]
  refine ⟨slot,bus,⟨?_,rfl,rfl,rfl,rfl,closing,rfl,rfl,rfl,rfl⟩,run_concat carried stored,?_⟩
  · exact read_live.step (a := .finish) finished (fun load => by cases load) (fun fails => by cases fails)
  · refine (along_bus (along_sends (by decide +kernel) few)).append carried (along_of_forall ?_ _)
    simp [Assumed]

/-- A read of a whole slot. -/
theorem readCycle_whole (slot : Driver.Slot (Frame (BitVec 8))) :
    readCycle (fun _ => (⟨slot,OPQ_CYCLE_BUFFER_SIZE,0⟩ : Driver.Copy (Frame (BitVec 8))).reached) =
      some (.ofBytes slot.bytes.toList) := by
  have length : slot.bytes.toList.length = OPQ_CYCLE_BUFFER_SIZE := Vector.length_toList
  have all : (⟨slot,OPQ_CYCLE_BUFFER_SIZE,0⟩ : Driver.Copy (Frame (BitVec 8))).reached = slot.bytes.toList :=
    List.take_of_length_le length.le
  rw [readCycle,all,if_neg (not_not_intro (length.trans sizes.2.2.symm))]

/-- The first read gets what `kmalloc` left, and the second a frame. -/
theorem carryFrames_run : ∃ slot slot' s, run step (ready zeroed fives) (carryFrames slot slot') = some s ∧
    Along step Assumed (ready zeroed fives) (carryFrames slot slot') ∧
    cyclesRead s.driver = [.ofBytes (fives 0).toList,.ofBytes slot.toList] := by
  obtain ⟨shape,position,bounded⟩ := twoFrames_run
  obtain ⟨b,begun,is⟩ := Option.map_eq_some_iff.mp shape
  simp only [Prod.mk.injEq,Option.isNone_iff_eq_none,List.isEmpty_iff] at is
  obtain ⟨started,loaded,irq,idle,fifo⟩ := is
  simp only [begun,Option.map_some,Option.some.injEq,Prod.mk.injEq] at position
  obtain ⟨sdadc,main,head,tail,waiting⟩ := position
  have live := Handshake.live_run (Handshake.ready_live zeroed) (by decide +kernel) begun
  have filled : run step (ready zeroed fives) (twoFrames.map .bus) = some ⟨b,Driver.init fives⟩ :=
    run_bus (s := ready zeroed fives) (by decide +kernel) begun
  have few : b.firmware.waiting ≤ 3 := by omega
  obtain ⟨slot,bus,carried,first,within⟩ := carryFrame_run (s := ⟨b,Driver.init fives⟩) started live irq idle fifo few
  have few' : bus.firmware.waiting ≤ 3 := carried.waiting.trans_le few
  have started' : bus.started = true := carried.started.trans started
  obtain ⟨f,handed⟩ := Handshake.nextFrame_run started' carried.live (carried.loaded.trans loaded) carried.closing carried.fifo
    (carried.sdadc.trans sdadc) (carried.main.trans main) (by rw [carried.frameBuffer,head,tail]; decide)
  change run Handshake.step bus nextFrame = _ at handed
  have next := run_bus (s := ⟨bus,(Driver.init fives).handled 0 slot⟩) (by decide +kernel) handed
  have live' := Handshake.live_run carried.live (by decide) handed
  have few'' := run_sends (by decide +kernel) few' handed
  let again : Handshake.System := { bus with firmware := f, edges := bus.edges + 1, irq := true }
  obtain ⟨slot',bus',carried',second,within'⟩ := carryFrame_run (s := ⟨again,(Driver.init fives).handled 0 slot⟩) started' live' rfl
    carried.idle carried.fifo few''
  have along : Along step Assumed (ready zeroed fives) (twoFrames.map .bus) := along_bus bounded
  have one := (run_append filled _).trans first
  have two := (run_append one _).trans next
  have three := (run_append two _).trans second
  let last : System := ⟨bus',((Driver.init fives).handled 0 slot).handled 0 slot'⟩
  have allowed : ∀ a ∈ [.down,.copy 408 0,.down,.copy 408 0], last.allows a := by simp [last,System.allows,carried'.idle]
  refine ⟨slot,slot',_,(run_append three _).trans (run_chardev allowed rfl),?_,?_⟩
  · refine (((along.append filled within).append one (along_bus (along_sends (by decide +kernel) few'))).append two within').append
      three (along_of_forall ?_ _)
    simp [Assumed]
  · show [(⟨⟨fives 0,some 0⟩,OPQ_CYCLE_BUFFER_SIZE,0⟩ : Driver.Copy (Frame (BitVec 8))),
      ⟨⟨slot,some 1⟩,OPQ_CYCLE_BUFFER_SIZE,0⟩].filterMap (fun c => readCycle fun _ => c.reached) = _
    simp only [List.filterMap_cons,readCycle_whole,List.filterMap_nil]

/-- Of two cycles that are read the second is a frame of the firmware. -/
theorem second_frame {f : State} {numbers : List Nat} (ordered : numbers.Pairwise (· < ·)) {cycle cycle' : OPQCycle}
    (each : List.Forall₂ (Carries kmalloc f) numbers [cycle,cycle']) : ∃ k, Carries kmalloc f (k + 1) cycle' := by
  obtain ⟨n,_,_,rest,rfl⟩ := List.forall₂_cons_right_iff.mp each
  obtain ⟨m,_,second,_,rfl⟩ := List.forall₂_cons_right_iff.mp rest
  have later : n < m := (List.pairwise_cons.mp ordered).1 m (List.mem_cons_self ..)
  obtain ⟨k,rfl⟩ := Nat.exists_eq_succ_of_ne_zero (Nat.ne_of_gt (Nat.zero_lt_of_lt later))
  exact ⟨k,second⟩

theorem converter_to_user_two : ∃ slot slot' s, run step (ready zeroed fives) (carryFrames slot slot') = some s ∧
    cyclesRead s.driver = [.ofBytes (fives 0).toList,.ofBytes slot.toList] ∧
    (∃ numbers, numbers.Pairwise (· < ·) ∧
      List.Forall₂ (Carries fives s.bus.firmware) numbers (cyclesRead s.driver)) ∧
    (s.driver.copiedNumbers ++ s.driver.evictedNumbers ++ s.driver.cycles.occupied.map fun slot => slot.number.getD 0).Perm
      (List.range (s.bus.reads.length + 1)) ∧ ∃ k, Carries fives s.bus.firmware (k + 1) (.ofBytes slot.toList) := by
  obtain ⟨slot,slot',s,ran,within,read⟩ := carryFrames_run
  obtain ⟨⟨numbers,ordered,each⟩,accounts⟩ := converter_to_user zeroed fives ran within
  exact ⟨slot,slot',s,ran,read,⟨numbers,ordered,each⟩,accounts,second_frame ordered (read ▸ each)⟩

end Opqbox.SampleStream
