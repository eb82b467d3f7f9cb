import Mathlib.Data.List.Perm.Basic
import Opqbox.Delivery
import Opqbox.EndToEnd
import Opqbox.SampleStream

/-!
The whole box: the readings of the daemon are reads of the device, so that what it
stores are frames of the firmware, and what a client gets are conversions, but for
what the first slot of the driver held (`converter_to_client`).
-/
namespace Opqbox.ConverterToClient
open Opqbox.Analysis Opqbox.Messages Opqbox.OpqData Opqbox.Runs Opqbox.Scraper Opqbox.EndToEnd Opqbox.SampleStream
open Opqbox.Driver (Frame)
open Opqbox.Delivery (stored_run)
open Opqbox.Pipeline (Env)

variable {F Buffer : Type} {env : Env F Buffer} {kmalloc : Nat → Frame (BitVec 8)} {f : Firmware.State}

/-- The data are the 200 conversions of the frame of this number, counted from 1;
    number 0 is what the first slot of the driver held before. -/
def Sampled (kmalloc : Nat → Frame (BitVec 8)) (f : Firmware.State) : Nat → Cycle → Prop
  | 0, c => c.data = (OPQCycle.ofBytes (kmalloc 0).toList).data.toList.map BitVec.toInt
  | k+1, c => c.data.length = SAMPLES_PER_CYCLE ∧
      c.data = ((f.conversions.drop (SAMPLES_PER_CYCLE * k)).take SAMPLES_PER_CYCLE).map BitVec.toInt

theorem sampled_cycleOf {number : Nat} {cycle : OPQCycle} (carries : Carries kmalloc f number cycle) (now : Nat) :
    Sampled kmalloc f number (cycleOf (cycle,now)) := by
  cases number with
  | zero =>
    have same : cycle = .ofBytes (kmalloc 0).toList := carries
    exact congrArg (fun c : OPQCycle => c.data.toList.map BitVec.toInt) same
  | succ k =>
    have data : cycle.data.toList = (f.conversions.drop (SAMPLES_PER_CYCLE * k)).take SAMPLES_PER_CYCLE := by
      refine List.ext_getElem? fun i => ?_
      by_cases inside : i < SAMPLES_PER_CYCLE
      · rw [List.getElem?_take_of_lt inside,List.getElem?_drop,carries.2 i inside,Vector.getElem?_toList,
          Vector.getElem?_eq_getElem inside]
      · have beyond := not_lt.mp inside
        rw [List.getElem?_eq_none (by simpa using beyond),List.getElem?_eq_none (le_trans (List.length_take_le ..) beyond)]
    refine ⟨?_,?_⟩
    · show (cycle.data.toList.map BitVec.toInt).length = _
      rw [List.length_map,Vector.length_toList]
    · show cycle.data.toList.map BitVec.toInt = _
      rw [data]

/-- A part of what is numbered has a part of the numbers. -/
theorem numbered_part {α : Type*} {R : Nat → α → Prop} {l l' : List α} (part : l'.Sublist l) {numbers : List Nat}
    (each : List.Forall₂ R numbers l) : ∃ numbers', numbers'.Sublist numbers ∧ List.Forall₂ R numbers' l' := by
  induction part generalizing numbers with
  | slnil => exact ⟨[],List.nil_sublist _,.nil⟩
  | cons x _ ih =>
    cases each with
    | cons _ rest =>
      obtain ⟨numbers',among,same⟩ := ih rest
      exact ⟨numbers',among.cons _,same⟩
  | cons_cons x _ ih =>
    cases each with
    | cons own rest =>
      obtain ⟨numbers',among,same⟩ := ih rest
      exact ⟨_,among.cons_cons _,same.cons own⟩

/-- In another order it has its numbers in this order. -/
theorem numbered_perm {α : Type*} {R : Nat → α → Prop} {l l' : List α} (order : l'.Perm l) {numbers : List Nat}
    (each : List.Forall₂ R numbers l) : ∃ numbers', numbers'.Perm numbers ∧ List.Forall₂ R numbers' l' := by
  obtain ⟨numbers',same,perm⟩ := List.perm_comp_forall₂ order each.flip
  exact ⟨numbers',perm,same.flip⟩

/-- Whatever the order of the steps on the device and in the daemon, where the reader
    gets its cycles from reads of the device: what is stored are frames of the
    firmware, in their order and none twice; and where the writer is called in time a
    window of it is returned with cycles whose data are the conversions of frames, none
    twice either. -/
theorem converter_to_client (memory : Firmware.OPQ_Frame_Buffer) {cs : List SampleStream.Action} {box : SampleStream.System}
    (carried : run SampleStream.step (ready memory kmalloc) cs = some box)
    (assumed : Along SampleStream.step Assumed (ready memory kmalloc) cs)
    {analysis : LocalAnalysis} {boxId : BitVec 32} {ttl rotation frames_per_measurement : Int} {as : List Pipeline.Action}
    {s : Pipeline.System F Buffer}
    (ran : run (Pipeline.step env) (.init analysis (.new boxId ttl rotation) frames_per_measurement) as = some s)
    (device : ((readings env (.init analysis (.new boxId ttl rotation) frames_per_measurement) as).map Prod.fst).Sublist
      (cyclesRead box.driver)) :
    (∃ numbers, numbers.Pairwise (· < ·) ∧
      List.Forall₂ (Carries kmalloc box.bus.firmware) numbers (s.stored.flatMap OPQMeasurement.cycles)) ∧
    ∀ delay calls, CallsInTime delay ttl rotation
        (readings env (.init analysis (.new boxId ttl rotation) frames_per_measurement) as) s.stored calls →
      ∃ e, run (Expiry.stepAt env.wire env.answers) (.start boxId ttl rotation) calls = some e ∧ e.serializer = s.redis ∧
        ∀ (now gap : Nat) (low high : Int), (∀ c ∈ calls, c.1 ≤ now) → Covered ttl rotation s.stored now gap low high →
          ∃ message, getRange env.wire (e.server.purge now).redis low high = .ok message ∧
            ∃ numbers, numbers.Nodup ∧ List.Forall₂ (Sampled kmalloc box.bus.firmware) numbers message.cycles := by
  have joined := run_invariant_along (Joined kmalloc) (fun _ _ _ => Joined.step) (ready_joined memory kmalloc) assumed carried
  obtain ⟨all,ordered,each⟩ := joined.reads
  obtain ⟨numbers,among,own⟩ := numbered_part device each
  have increasing := ordered.sublist among
  obtain ⟨part,filled⟩ := stored_of_device ran
  constructor
  · obtain ⟨before,after,whole⟩ := part
    have cycles : s.stored.flatMap OPQMeasurement.cycles = (s.stored.flatMap pairs).map Prod.fst := by
      rw [List.map_flatMap]
      exact List.flatMap_congr fun m member => (List.map_fst_zip (filled m member).2.ge).symm
    have stored : (s.stored.flatMap OPQMeasurement.cycles).Sublist
        ((readings env (.init analysis (.new boxId ttl rotation) frames_per_measurement) as).map Prod.fst) := by
      rw [cycles,whole]
      exact ((List.sublist_append_right ..).trans (List.sublist_append_left ..)).map Prod.fst
    obtain ⟨numbers',among',own'⟩ := numbered_part stored own
    exact ⟨numbers',increasing.sublist among',own'⟩
  · intro delay calls inTime
    obtain ⟨e,timed,same,returned⟩ := segment_returned part filled (stored_run ran) inTime
    refine ⟨e,timed,same,?_⟩
    intro now gap low high later covered
    obtain ⟨message,got,perm⟩ := returned now gap low high later covered
    refine ⟨message,got,?_⟩
    have sampled : List.Forall₂ (Sampled kmalloc box.bus.firmware) numbers
        ((readings env (.init analysis (.new boxId ttl rotation) frames_per_measurement) as).map cycleOf) := by
      rw [List.forall₂_map_right_iff] at own ⊢
      exact own.imp fun number taken carries => sampled_cycleOf carries taken.2
    obtain ⟨inside,part,each'⟩ := numbered_part List.filter_sublist sampled
    obtain ⟨numbers',order,final⟩ := numbered_perm perm each'
    exact ⟨numbers',(order.nodup_iff).mpr ((increasing.sublist part).imp Nat.ne_of_lt),final⟩

/-- The filters have their data. -/
def running : LocalAnalysis := { LocalAnalysis.new 0 with state := .RUNNING }

/-- A measurement of one cycle is read, analysed and stored. -/
def oneMeasurement (cycle : OPQCycle) : List Pipeline.Action :=
  [.main,.main,.main,.analysis] ++ List.replicate 3 (.reader cycle 2000000000) ++ List.replicate 5 .analysis

theorem oneMeasurement_run (cycle : OPQCycle) :
    (∃ s, run (Pipeline.step Shutdown.plainEnv) (.init running (.new 2 100 0) 1) (oneMeasurement cycle) = some s ∧
      s.stored = [⟨[cycle],[2000000000]⟩]) ∧
    readings Shutdown.plainEnv (.init running (.new 2 100 0) 1) (oneMeasurement cycle) = [(cycle,2000000000)] :=
  ⟨⟨_,rfl,rfl⟩,rfl⟩

/-- A frame of the firmware is stored by the daemon. -/
theorem converter_to_client_two : ∃ slot slot' box s,
    run SampleStream.step (ready Firmware.zeroed fives) (carryFrames slot slot') = some box ∧
    run (Pipeline.step Shutdown.plainEnv) (.init running (.new 2 100 0) 1) (oneMeasurement (.ofBytes slot.toList)) = some s ∧
    s.stored = [⟨[.ofBytes slot.toList],[2000000000]⟩] ∧
    (∃ k, Carries fives box.bus.firmware (k + 1) (.ofBytes slot.toList)) ∧
    ∃ numbers, numbers.Pairwise (· < ·) ∧
      List.Forall₂ (Carries fives box.bus.firmware) numbers (s.stored.flatMap OPQMeasurement.cycles) := by
  obtain ⟨slot,slot',box,carried,within,read⟩ := carryFrames_run
  obtain ⟨⟨s,ran,stored⟩,taken⟩ := oneMeasurement_run (.ofBytes slot.toList)
  have joined := run_invariant_along (Joined fives) (fun _ _ _ => Joined.step) (ready_joined Firmware.zeroed fives) within carried
  obtain ⟨_,ordered,each⟩ := joined.reads
  have device : ((readings Shutdown.plainEnv (.init running (.new 2 100 0) 1) (oneMeasurement (.ofBytes slot.toList))).map
      Prod.fst).Sublist (cyclesRead box.driver) := by
    rw [taken,read]
    exact (List.sublist_cons_self ..)
  obtain ⟨frames,_⟩ := converter_to_client Firmware.zeroed carried within ran device
  exact ⟨slot,slot',box,s,carried,ran,stored,second_frame ordered (read ▸ each),frames⟩

end Opqbox.ConverterToClient
