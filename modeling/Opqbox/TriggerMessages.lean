import Opqbox.DataMessages
import Opqbox.EndToEnd

/-!
What the trigger publishes: `serialize_to_protobuf` of an analysis and `ZMQSerializer`.
The k-th message is about the k-th measurement that is stored, it is sent at most
one measurement ahead, and the data that it announces are found in Redis under
its time (`announced_found`).
-/
namespace Opqbox.TriggerMessages
open Opqbox.Analysis Opqbox.Messages Opqbox.OpqData Opqbox.Pipeline Opqbox.RedisWriter Opqbox.Runs Opqbox.Scraper
open Opqbox.Retrieval Opqbox.Shutdown Opqbox.Stages Opqbox.Delivery Opqbox.Retention Opqbox.RoundTrip Opqbox.EndToEnd

variable {F Buffer Message : Type}

/-- `TriggerMessage`; a field that is not repeated may not be set. -/
structure TriggerMessage (F : Type) where
  id : Option (BitVec 32)
  time : Option Nat
  frequency : Option F
  rms : Option F
  histogram : List (BitVec 32)
  last_gps : Option (BitVec 32)
  current_count : Option (BitVec 32)
  flags : Option (BitVec 32)

def TriggerMessage.new : TriggerMessage F := ⟨none,none,none,none,[],none,none,none⟩

/-- All required fields are set. -/
def TriggerMessage.IsInitialized (m : TriggerMessage F) : Prop :=
  m.id.isSome ∧ m.time.isSome ∧ m.frequency.isSome ∧ m.rms.isSome

/-- The protobuf library: what is serialized parses to the same fields. -/
structure Protobuf (F Message : Type) where
  SerializeToString : TriggerMessage F → Message
  ParseFromString : Message → Option (TriggerMessage F)
  kept : ∀ m, m.IsInitialized → ParseFromString (SerializeToString m) = some m

/-- Messages that are sent as they are. -/
def Protobuf.plain : Protobuf F (TriggerMessage F) := ⟨id,some,fun _ _ => rfl⟩

/-- The message of an analysis, with the conversions to the types of the fields. -/
def fill (id : BitVec 32) (message : OPQAnalysis F) : TriggerMessage F :=
  let protomessage : TriggerMessage F := { TriggerMessage.new with id := some id }
  let protomessage := { protomessage with frequency := some message.frequency }
  let protomessage := { protomessage with rms := some message.RMS }
  let protomessage := { protomessage with time := some (crono_to_mili message.start) }
  let protomessage := { protomessage with current_count := some (message.current_counter.setWidth 32) }
  let protomessage := { protomessage with last_gps := some (message.last_gps_counter.setWidth 32) }
  { protomessage with flags := some message.flags }

def serialize_to_protobuf (proto : Protobuf F Message) (id : BitVec 32) (message : OPQAnalysis F) : Message :=
  proto.SerializeToString (fill id message)

/-- The members that `sendToZMQ` reads. -/
structure ZMQSerializer where
  _boxId : BitVec 32
  _idString : String

/-- The constructor, for these members. -/
def ZMQSerializer.new (box_id : BitVec 32) : ZMQSerializer := ⟨box_id,toString box_id.toInt⟩

/-- The two frames of a message on the socket. -/
def ZMQSerializer.sendToZMQ (zmq : ZMQSerializer) (proto : Protobuf F Message) (message : OPQAnalysis F) : String × Message :=
  (zmq._idString,serialize_to_protobuf proto zmq._boxId message)

/-- What `ZMQTrigger::loop` has published. -/
def published (proto : Protobuf F Message) (boxId : BitVec 32) (s : System F Buffer) : List (String × Message) :=
  s.sent.map fun message => (ZMQSerializer.new boxId).sendToZMQ proto message

theorem parsed (proto : Protobuf F Message) (id : BitVec 32) (message : OPQAnalysis F) :
    proto.ParseFromString (serialize_to_protobuf proto id message) = some (fill id message) :=
  proto.kept _ ⟨rfl,rfl,rfl,rfl⟩

/-! ### Which measurement a message is about -/

variable {env : Env F Buffer} {s : System F Buffer}

/-- A message is about a measurement: it has the milliseconds of its first cycle, the
    counters of its last one and every flag of a cycle. -/
structure Announces (env : Env F Buffer) (boxId : BitVec 32) (m : OPQMeasurement) (t : TriggerMessage F) : Prop where
  id : t.id = some boxId
  time : t.time = some (crono_to_mili (firstOf m))
  rms : t.rms = some (env.RMS m)
  counters : ∃ last, m.cycles.getLast? = some last ∧
    t.last_gps = some (last.last_gps_counter.setWidth 32) ∧ t.current_count = some (last.current_counter.setWidth 32)
  flags : ∃ flags, t.flags = some flags ∧ ∀ i, flags.getLsbD i = m.cycles.any (·.flags.getLsbD i)

theorem announces {m : OPQMeasurement} {downSampled : List ℚ} {a : OPQAnalysis F}
    (made : make_analysis env downSampled m = some a) (boxId : BitVec 32) : Announces env boxId m (fill boxId a) := by
  obtain ⟨start,⟨last,final,gps,counter⟩,flags⟩ := make_analysis_describes made
  have rms : a.RMS = env.RMS m := by
    unfold make_analysis at made
    split at made
    · cases made
      rfl
    · cases made
  refine ⟨rfl,?_,congrArg some rms,⟨last,final,?_,?_⟩,_,rfl,flags⟩
  · rw [firstOf,List.headD_eq_head?_getD,start]
    rfl
  · rw [← gps]
    rfl
  · rw [← counter]
    rfl

/-- The k-th analysis that is sent is that of the k-th measurement that is stored,
    and at most one is sent of a measurement that is not stored yet. -/
theorem aligned {analysis : LocalAnalysis} {redis : RedisSerializer Buffer} {frames_per_measurement : Int} {as : List Action}
    (ran : run (step env) (.init analysis redis frames_per_measurement) as = some s) :
    s.sent.length ≤ s.stored.length + 1 ∧
    ∀ (k : Nat) (m : OPQMeasurement) (a : OPQAnalysis F), s.stored[k]? = some m → s.sent[k]? = some a →
      ∃ downSampled, make_analysis env downSampled m = some a := by
  have reached : Relation.ReflTransGen (Step (stage env)) (.start analysis) (flow s) :=
    run_simulates flow (fun _ _ _ cycle stepped => cycle.step stepped)
      (fun _ _ _ cycle stepped => step_flows cycle stepped) (lifecycle_init ..) ran
  obtain ⟨before,accounted⟩ := accounted reached
  have stored : ((stage env).kept ((stage env).trace analysis before)).map Prod.snd = s.stored ++ (flow s).work.owed :=
    accounted.stored
  have sent : List.Forall₂ (stage env).Makes ((stage env).kept ((stage env).trace analysis before))
      (s.sent ++ ((flow s).taken.toList ++ (flow s).output ++ (flow s).work.pending)) := by
    have made := accounted.sent
    rwa [List.append_assoc,List.append_assoc,← List.append_assoc (flow s).taken.toList] at made
  constructor
  · have owed : (flow s).work.owed.length ≤ 1 := by cases (flow s).work <;> simp [Work.owed]
    have consumed := congrArg List.length stored
    have worked := sent.length_eq
    simp only [List.length_map,List.length_append] at consumed worked
    omega
  · intro k m a at_stored at_sent
    obtain ⟨among,isMeasurement⟩ := List.getElem?_eq_some_iff.mp at_stored
    obtain ⟨inside,isAnalysis⟩ := List.getElem?_eq_some_iff.mp at_sent
    have kth : (((stage env).kept ((stage env).trace analysis before)).map Prod.snd)[k]? = some m := by
      rw [stored,List.getElem?_append_left among,at_stored]
    rw [List.getElem?_map] at kth
    obtain ⟨e,found,rfl⟩ := Option.map_eq_some_iff.mp kth
    obtain ⟨consumed,is⟩ := List.getElem?_eq_some_iff.mp found
    have made := sent.get consumed (by rw [List.length_append]; omega)
    simp only [List.get_eq_getElem,is] at made
    rw [List.getElem_append_left inside,isAnalysis] at made
    exact ⟨_,made⟩

theorem first_cycle {m : OPQMeasurement} (filled : Filled m) : ∃ c ∈ cyclesOf m, c.time = crono_to_mili (firstOf m) := by
  obtain ⟨nonempty,lengths⟩ := filled
  cases cycles : m.cycles with
  | nil => exact absurd cycles nonempty
  | cons cycle rest =>
    cases stamps : m.timestamps with
    | nil => simp [cycles,stamps] at lengths
    | cons stamp later =>
      refine ⟨protocycle cycle stamp,?_,?_⟩
      · rw [cyclesOf,cycles,stamps]
        exact List.mem_cons_self
      · rw [firstOf,stamps]
        rfl

/-- Whatever the order in which the threads go on: a message is published at most one
    measurement ahead of its data; the message number k announces the measurement
    number k that is stored, under the name of the box; and whenever the writer is
    called up to the delay, a window around its time is answered with a cycle of this very time and all others of the measurement that
    are in the window. -/
theorem announced_found {proto : Protobuf F Message} {box_id : BitVec 32} {analysis : LocalAnalysis}
    {ttl rotation frames_per_measurement : Int} {as : List Action}
    (ran : run (step env) (.init analysis (.new box_id ttl rotation) frames_per_measurement) as = some s) :
    (published proto box_id s).length ≤ s.stored.length + 1 ∧
    (∀ (k : Nat) (m : OPQMeasurement) (name : String) (out : Message), s.stored[k]? = some m →
      (published proto box_id s)[k]? = some (name,out) →
      name = toString box_id.toInt ∧ ∃ t, proto.ParseFromString out = some t ∧ Announces env box_id m t) ∧
    ∀ delay calls, CallsInTime delay ttl rotation
        (readings env (.init analysis (.new box_id ttl rotation) frames_per_measurement) as) s.stored calls →
      ∃ e, run (Expiry.stepAt env.wire env.answers) (.start box_id ttl rotation) calls = some e ∧ e.serializer = s.redis ∧
        ∀ (k : Nat) (m : OPQMeasurement) (name : String) (out : Message) (t : TriggerMessage F), s.stored[k]? = some m →
          (published proto box_id s)[k]? = some (name,out) → proto.ParseFromString out = some t →
          ∀ (now gap : Nat) (low high : Int) (time : Nat), (∀ c ∈ calls, c.1 ≤ now) → Covered ttl rotation s.stored now gap low high →
            t.time = some time → low < time → time < high →
            ∃ message, getRange env.wire (e.server.purge now).redis low high = .ok message ∧
              (∃ c ∈ message.cycles, c.time = time) ∧ ∀ c ∈ cyclesOf m, inWindow low high c → c ∈ message.cycles := by
  obtain ⟨ahead,about⟩ := aligned ran
  obtain ⟨part,filled⟩ := stored_of_device ran
  -- What the server parses of a message is what was made of its measurement.
  have announced : ∀ (k : Nat) (m : OPQMeasurement) (name : String) (out : Message), s.stored[k]? = some m →
      (published proto box_id s)[k]? = some (name,out) →
      name = toString box_id.toInt ∧ ∃ t, proto.ParseFromString out = some t ∧ Announces env box_id m t := by
    intro k m name out at_stored at_published
    rw [published,List.getElem?_map] at at_published
    obtain ⟨a,at_sent,is⟩ := Option.map_eq_some_iff.mp at_published
    cases is
    obtain ⟨downSampled,made⟩ := about k m a at_stored at_sent
    exact ⟨rfl,_,parsed proto box_id a,announces made box_id⟩
  refine ⟨by rwa [published,List.length_map],announced,?_⟩
  intro delay calls inTime
  obtain ⟨e,timed,same,returned⟩ := segment_returned part filled (stored_run ran) inTime
  refine ⟨e,timed,same,?_⟩
  intro k m name out t at_stored at_published parses now gap low high time later covered isTime above below
  obtain ⟨_,t',parses',announces⟩ := announced k m name out at_stored at_published
  obtain rfl : t' = t := Option.some.inj (parses'.symm.trans parses)
  obtain ⟨message,got,perm⟩ := returned now gap low high later covered
  have listed := List.mem_of_getElem? at_stored
  have all : ∀ c ∈ cyclesOf m, inWindow low high c → c ∈ message.cycles := by
    intro c member inside
    obtain ⟨before,after,whole⟩ := part
    rw [cyclesOf_pairs] at member
    obtain ⟨taken,own,rfl⟩ := List.mem_map.mp member
    refine perm.mem_iff.mpr (List.mem_filter.mpr ⟨List.mem_map_of_mem ?_,inside⟩)
    rw [whole]
    exact List.mem_append_left _ (List.mem_append_right _ (List.mem_flatMap.mpr ⟨m,listed,own⟩))
  refine ⟨message,got,?_,all⟩
  obtain ⟨c,first,time_first⟩ := first_cycle (filled m listed)
  obtain rfl : crono_to_mili (firstOf m) = time := Option.some.inj (announces.time.symm.trans isTime)
  exact ⟨c,all c first (by simp [inWindow,time_first,above,below]),time_first⟩

/-- Six measurements, and two of the four that are analysed are published. -/
def sixPublished : List Action := sixMeasurements ++ List.replicate 7 .trigger

set_option maxRecDepth 20000 in
theorem sixPublished_run :
    ((run (step plainEnv) (.init (.new 0) (.new 2 100 0) 1) sixPublished).map fun s =>
      (s.stored.map OPQMeasurement.timestamps,s.sent.map OPQAnalysis.start)) =
        some ([[4000000000],[5000000000],[6000000000],[7000000000]],[4000000000,5000000000]) ∧
    (readings plainEnv (.init (.new 0) (.new 2 100 0) 1) sixPublished).map Prod.snd =
      [2000000000,3000000000,4000000000,5000000000,6000000000,7000000000] := by
  decide +kernel

/-- The second message is about the cycle at 5 seconds, which the window from 4 to 7 has. -/
theorem announced_found_six : ∃ s, run (step plainEnv) (.init (.new 0) (.new 2 100 0) 1) sixPublished = some s ∧
    ∃ e, run (Expiry.stepAt .plain fun _ => true) (.start 2 100 0) (s.stored.map fun m => (firstOf m + 500000000,m)) = some e ∧
      ∃ name out t, (published .plain 2 s)[1]? = some (name,out) ∧ name = "2" ∧ Protobuf.plain.ParseFromString out = some t ∧
        t.time = some 5000 ∧ ∃ message, getRange .plain (e.server.purge 10000000000).redis 4000 7000 = .ok message ∧
          ∃ c ∈ message.cycles, c.time = 5000 := by
  obtain ⟨shape,taken⟩ := sixPublished_run
  obtain ⟨s,ran,both⟩ := Option.map_eq_some_iff.mp shape
  obtain ⟨stamps,starts⟩ := Prod.mk.inj both
  have clocked : Clocked 0 (readings plainEnv (.init (.new 0) (.new 2 100 0) 1) sixPublished) := by
    constructor
    · rw [taken]
      decide
    · rw [taken]
      decide
  obtain ⟨a,at_sent,start⟩ : ∃ a, s.sent[1]? = some a ∧ a.start = 5000000000 := by
    have second := congrArg (fun l => l[1]?) starts
    simpa using second
  obtain ⟨m,at_stored,stamp⟩ : ∃ m, s.stored[1]? = some m ∧ m.timestamps = [5000000000] := by
    have second := congrArg (fun l => l[1]?) stamps
    simpa using second
  have out : (published .plain 2 s)[1]? = some ("2",fill 2 a) := by
    rw [published,List.getElem?_map,at_sent]
    rfl
  obtain ⟨_,announced,called⟩ := announced_found ran
  obtain ⟨name,t,parses,announces⟩ := announced 1 m _ _ at_stored out
  obtain ⟨e,timed,_,found⟩ := called _ _ (six_inTime clocked stamps)
  have time : t.time = some 5000 := by
    rw [announces.time,firstOf,stamp]
    rfl
  obtain ⟨message,got,cycle,_⟩ := found 1 m _ _ t at_stored out parses 10000000000 1000000000 4000 7000 5000 (six_called stamps)
    (six_covered stamps) time (by decide) (by decide)
  exact ⟨s,ran,e,timed,_,_,t,out,name,parses,time,message,got,cycle⟩

end Opqbox.TriggerMessages
