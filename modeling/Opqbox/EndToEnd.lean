import Opqbox.Delivery
import Opqbox.RoundTrip

/-!
From the device to a client. What the reader takes from the device passes through
the queues into measurements (`collected_run`); a gapless part of it is stored
(`stored_segment`), which the writer leaves in Redis as a partition of time, and
from there a window is returned with all cycles that the device gave in it
(`device_to_client`).
-/
namespace Opqbox.EndToEnd
open Opqbox.Analysis Opqbox.Messages Opqbox.OpqData Opqbox.Pipeline Opqbox.RedisWriter Opqbox.Runs
open Opqbox.Retrieval Opqbox.Shutdown Opqbox.Stages Opqbox.Delivery Opqbox.Scraper Opqbox.Retention Opqbox.RoundTrip

variable {F Buffer : Type}

/-! ### From the device into measurements -/

/-- What the reader takes from the device and the clock in a step. -/
def reading (s : System F Buffer) : Action → List (OPQCycle × Nat)
  | .reader cycle now =>
    match s.readerSlab.t with
    | some (.fill measurement) => if (measurement.cycles.length : Int) < s.frames_per_measurement then [(cycle,now)] else []
    | _ => []
  | _ => []

/-- What the reader takes in a run. -/
def readings (env : Env F Buffer) : System F Buffer → List Action → List (OPQCycle × Nat)
  | _,[] => []
  | s,a :: as =>
    match step env s a with
    | none => []
    | some t => reading s a ++ readings env t as

/-- The cycles of a measurement with their timestamps. -/
def pairs (m : OPQMeasurement) : List (OPQCycle × Nat) := m.cycles.zip m.timestamps

/-- The measurement that the reader fills. -/
def filling : Option Reading → List OPQMeasurement
  | some (.fill measurement) => [measurement]
  | _ => []

def collected (s : System F Buffer) : List (OPQCycle × Nat) := (s.pushed ++ filling s.readerSlab.t).flatMap pairs

/-- Every cycle of a measurement has its timestamp. -/
def Paired (s : System F Buffer) : Prop :=
  ∀ m ∈ s.pushed ++ filling s.readerSlab.t, m.timestamps.length = m.cycles.length

variable {env : Env F Buffer} {s t : System F Buffer}

theorem Paired.keep (paired : Paired s) (pushed : t.pushed = s.pushed) (slab : filling t.readerSlab.t = filling s.readerSlab.t) :
    Paired t ∧ collected t = collected s ++ [] := by
  rw [Paired,collected,pushed,slab,List.append_nil]
  exact ⟨paired,rfl⟩

theorem Paired.reader (paired : Paired s) {frame : OPQCycle} {now : Nat} (stepped : stepReader frame now s = some t) :
    Paired t ∧ collected t = collected s ++ reading s (.reader frame now) := by
  cases stepReader_cases stepped with
  | test position =>
    have before : filling s.readerSlab.t = [] := by rw [position]; rfl
    have nothing : reading s (.reader frame now) = [] := by simp [reading,position]
    rw [nothing]
    by_cases running : s.readerSlab.running = true
    · refine ⟨?_,?_⟩
      · intro m member
        have old_or_new : m ∈ s.pushed ∨ m = ⟨[],[]⟩ := by simpa [Slab.at,filling,running] using member
        rcases old_or_new with old | rfl
        · exact paired m (List.mem_append_left _ old)
        · rfl
      · simp [collected,position,Slab.at,filling,running,pairs]
    · exact paired.keep rfl (by rw [before]; simp [Slab.at,filling,running])
  | @fill m position more =>
    have before : filling s.readerSlab.t = [m] := by rw [position]; rfl
    have taken : reading s (.reader frame now) = [(frame,now)] := by simp [reading,position,more]
    have own : m.timestamps.length = m.cycles.length := paired m (by rw [before]; simp)
    rw [taken]
    refine ⟨?_,?_⟩
    · intro m' member
      have old_or_new : m' ∈ s.pushed ∨ m' = ⟨m.cycles ++ [frame],m.timestamps ++ [now]⟩ := by
        simpa [Slab.at,filling] using member
      rcases old_or_new with old | rfl
      · exact paired m' (List.mem_append_left _ old)
      · simp [own]
    · have longer : pairs ⟨m.cycles ++ [frame],m.timestamps ++ [now]⟩ = pairs m ++ [(frame,now)] := by
        rw [pairs,List.zip_append own.symm]
        rfl
      simp [collected,position,Slab.at,filling,longer]
  | @push m position full =>
    have nothing : reading s (.reader frame now) = [] := by simp [reading,position,full]
    rw [nothing]
    refine ⟨?_,by simp [collected,position,Slab.at,filling]⟩
    intro m' member
    exact paired m' (by simpa [position,Slab.at,filling] using member)

/-- What a step takes from the device is added to what is collected. -/
theorem Paired.step (paired : Paired s) (cycle : Lifecycle s) {a : Action} (stepped : step env s a = some t) :
    Paired t ∧ collected t = collected s ++ reading s a := by
  cases a with
  | main =>
    cases stepMain_cases stepped with
    | startReader position =>
      have idle := cycle.reader.idle (by rw [position]; decide)
      exact paired.keep rfl (by rw [idle]; rfl)
    | _ => exact paired.keep rfl rfl
  | signal =>
    obtain ⟨_,rfl⟩ := signal_cases stepped
    exact paired.keep rfl rfl
  | reader frame now => exact paired.reader stepped
  | analysis => cases stepAnalysis_cases stepped <;> exact paired.keep rfl rfl
  | trigger => cases stepTrigger_cases stepped <;> exact paired.keep rfl rfl
  | onFramesPerMeasurementChange frames =>
    cases stepped
    exact paired.keep rfl rfl

theorem Paired.run (paired : Paired s) (cycle : Lifecycle s) {as : List Action} (ran : Runs.run (Pipeline.step env) s as = some t) :
    Paired t ∧ collected t = collected s ++ readings env s as := by
  induction as generalizing s with
  | nil =>
    cases ran
    simpa [readings] using paired
  | cons a as ih =>
    obtain ⟨u,stepped,rest⟩ := run_cons_inv ran
    obtain ⟨next,more⟩ := paired.step cycle stepped
    obtain ⟨final,all⟩ := ih next (cycle.step stepped) rest
    refine ⟨final,?_⟩
    rw [all,more,readings,stepped,List.append_assoc]

/-- All that the reader takes from the device is in the measurements that it
    pushed, in order, and the one that it fills. -/
theorem collected_run {analysis : LocalAnalysis} {redis : RedisSerializer Buffer} {frames_per_measurement : Int}
    {as : List Action} (ran : run (step env) (.init analysis redis frames_per_measurement) as = some s) :
    Paired s ∧ readings env (.init analysis redis frames_per_measurement) as = collected s := by
  have nothing : Paired (System.init analysis redis frames_per_measurement : System F Buffer) := by
    intro m member
    cases member
  obtain ⟨paired,all⟩ := nothing.run (lifecycle_init ..) ran
  exact ⟨paired,all.symm⟩

/-! ### What is stored of it -/

/-- What is stored is a part of what was pushed, without a gap, and each stored
    measurement has a cycle and a timestamp. -/
theorem stored_segment {analysis : LocalAnalysis} {redis : RedisSerializer Buffer} {frames_per_measurement : Int}
    {as : List Action} (ran : run (step env) (.init analysis redis frames_per_measurement) as = some s) :
    (∃ before after, s.pushed = before ++ s.stored ++ after) ∧ ∀ m ∈ s.stored, m.cycles ≠ [] := by
  have reached : Relation.ReflTransGen (Step (stage env)) (.start analysis) (flow s) :=
    run_simulates flow (fun _ _ _ cycle stepped => cycle.step stepped)
      (fun _ _ _ cycle stepped => step_flows cycle stepped) (lifecycle_init ..) ran
  constructor
  · obtain ⟨dropped,kept,popped,_,_,first,stored,_⟩ := delivered reached
    obtain ⟨later,pushed⟩ := first.map Prod.snd
    obtain ⟨waiting,taken⟩ := stored
    rw [Stage.trace_items,popped,List.map_append,← taken] at pushed
    exact ⟨dropped.map Prod.snd,waiting ++ later,by simpa [flow] using pushed.symm⟩
  · obtain ⟨before,accounted⟩ := accounted reached
    -- An analysis was made of each.
    have made : List.Forall₂ (fun (e : LocalAnalysis × OPQMeasurement) (a : OPQAnalysis F) =>
        e.2.cycles ≠ [] ∧ (stage env).Makes e a)
        ((stage env).kept ((stage env).trace analysis before))
        ((flow s).sent ++ (flow s).taken.toList ++ (flow s).output ++ (flow s).work.pending) := by
      refine accounted.sent.imp ?_
      intro e a made
      refine ⟨?_,made⟩
      obtain ⟨_,⟨last,final,_⟩,_⟩ := make_analysis_describes made
      intro empty
      rw [empty] at final
      cases final
    intro m member
    have among : m ∈ ((stage env).kept ((stage env).trace analysis before)).map Prod.snd := by
      rw [accounted.stored]
      exact List.mem_append_left _ member
    obtain ⟨e,kept,rfl⟩ := List.mem_map.mp among
    exact ((List.forall₂_and_left _ _).mp made).1 e kept

/-! ### What is returned of it -/

/-- A cycle of the device as it is stored. -/
def cycleOf (e : OPQCycle × Nat) : Cycle := protocycle e.1 e.2

theorem cyclesOf_pairs (m : OPQMeasurement) : cyclesOf m = (pairs m).map cycleOf := by
  rw [cyclesOf,pairs,List.map_zip_eq_zipWith]
  rfl

theorem pairs_times {m : OPQMeasurement} (lengths : m.timestamps.length = m.cycles.length) :
    (pairs m).map Prod.snd = m.timestamps := List.map_snd_zip lengths.le

theorem times_pairs {ms : List OPQMeasurement} (lengths : ∀ m ∈ ms, m.timestamps.length = m.cycles.length) :
    times ms = (ms.flatMap pairs).map Prod.snd := by
  rw [times,List.map_flatMap]
  exact List.flatMap_congr fun m member => (pairs_times (lengths m member)).symm

/-- The clock of the readings does not go back, and is past the first rotation. -/
structure Clocked (rotation : Int) (taken : List (OPQCycle × Nat)) : Prop where
  ordered : (taken.map Prod.snd).Pairwise (· ≤ ·)
  late : ∀ t ∈ taken.map Prod.snd, (rotation + 1) * 1000000000 < (t : Int)

/-- What is stored is a part of what the reader took from the device, without a gap. -/
theorem stored_of_device {analysis : LocalAnalysis} {redis : RedisSerializer Buffer} {frames_per_measurement : Int}
    {as : List Action} (ran : run (step env) (.init analysis redis frames_per_measurement) as = some s) :
    (∃ before after, readings env (.init analysis redis frames_per_measurement) as =
      before ++ s.stored.flatMap pairs ++ after) ∧ ∀ m ∈ s.stored, Filled m := by
  obtain ⟨paired,all⟩ := collected_run ran
  obtain ⟨⟨before,after,pushed⟩,cycle⟩ := stored_segment ran
  refine ⟨⟨before.flatMap pairs,(after ++ filling s.readerSlab.t).flatMap pairs,?_⟩,?_⟩
  · rw [all,collected,pushed]
    simp
  · intro m member
    refine ⟨cycle m member,paired m ?_⟩
    rw [pushed]
    simp [member]

theorem Clocked.chronicle {rotation : Int} (nonneg : 0 ≤ rotation) {before after : List (OPQCycle × Nat)}
    {ms : List OPQMeasurement} (clocked : Clocked rotation (before ++ ms.flatMap pairs ++ after)) (filled : ∀ m ∈ ms, Filled m) :
    Chronicle rotation ms := by
  obtain ⟨ordered,late⟩ := clocked
  have stamps := times_pairs fun m member => (filled m member).2
  rw [List.map_append,List.map_append,← stamps] at ordered late
  refine ⟨nonneg,filled,(List.pairwise_append.mp (List.pairwise_append.mp ordered).1).2.1,?_⟩
  intro t first
  exact late t (List.mem_append_left _ (List.mem_append_right _ (List.mem_of_mem_head? first)))

/-- The writer is called with these measurements in order of time, each up to the
    delay after its first timestamp; lists live for longer than the rotation and the
    delay, and the clock of the readings goes on. -/
structure CallsInTime (delay : Nat) (ttl rotation : Int) (taken : List (OPQCycle × Nat)) (ms : List OPQMeasurement)
    (calls : List (Nat × OPQMeasurement)) : Prop where
  nonneg : 0 ≤ rotation
  longer : (rotation + 1) * 1000000000 + delay ≤ ttl * 1000000000
  clocked : Clocked rotation taken
  sent : calls.map Prod.snd = ms
  ordered : (calls.map Prod.fst).Pairwise (· ≤ ·)
  timely : Timely delay calls

/-- Each call as late as the delay allows. -/
theorem latest_inTime {delay : Nat} {ttl rotation : Int} {taken : List (OPQCycle × Nat)} {ms : List OPQMeasurement}
    (nonneg : 0 ≤ rotation) (longer : (rotation + 1) * 1000000000 + delay ≤ ttl * 1000000000) (clocked : Clocked rotation taken)
    (ordered : (ms.map firstOf).Pairwise (· ≤ ·)) :
    CallsInTime delay ttl rotation taken ms (ms.map fun m => (firstOf m + delay,m)) := by
  refine ⟨nonneg,longer,clocked,?_,?_,?_⟩
  · rw [List.map_map]
    exact List.map_id' ms
  · rw [List.pairwise_map] at ordered
    rw [List.map_map,List.pairwise_map]
    exact ordered.imp fun before => Nat.add_le_add_right before delay
  · intro c member
    obtain ⟨m,_,rfl⟩ := List.mem_map.mp member
    exact ⟨Nat.le_add_right ..,Nat.le_refl _⟩

/-- The writer does at these times what it does at any. -/
theorem timed_run {wire : Wire Buffer} {answers : Nat → Bool} {calls : List (Nat × OPQMeasurement)}
    (ordered : (calls.map Prod.fst).Pairwise (· ≤ ·)) {e : Expiry.System Buffer} (since : ∀ c ∈ calls, e.now ≤ c.1)
    {r : RedisSerializer Buffer} (ran : run (sendToRedis wire answers) e.serializer (calls.map Prod.snd) = some r) :
    ∃ e', run (Expiry.stepAt wire answers) e calls = some e' ∧ e'.serializer = r ∧ (e'.now = e.now ∨ ∃ c ∈ calls, e'.now = c.1) := by
  induction calls generalizing e with
  | nil => exact ⟨e,rfl,Option.some.inj ran,.inl rfl⟩
  | cons c calls ih =>
    obtain ⟨between,sent,ran'⟩ := run_cons_inv ran
    obtain ⟨before,order⟩ := List.pairwise_cons.mp ordered
    have up : e.now ≤ c.1 := since c (List.mem_cons_self ..)
    have taken : Expiry.stepAt wire answers e c = some ⟨between,
        (between.c.appended.drop e.serializer.c.appended.length).foldl (Expiry.execute c.1) e.server,c.1⟩ := by
      simp [Expiry.stepAt,sent,up]
    obtain ⟨e',later,same,time⟩ := ih (e := ⟨between,_,c.1⟩) order
      (fun c' member => before c'.1 (List.mem_map_of_mem member)) ran'
    refine ⟨e',(run_cons taken calls).trans later,same,.inr ?_⟩
    rcases time with own | ⟨c',member,is⟩
    · exact ⟨c,List.mem_cons_self ..,own⟩
    · exact ⟨c',List.mem_cons_of_mem _ member,is⟩

theorem firstOf_times {ms : List OPQMeasurement} {m : OPQMeasurement} (listed : m ∈ ms) (filled : Filled m) :
    firstOf m ∈ times ms := by
  obtain ⟨first,rest,is⟩ := filled.times
  exact mem_times listed (by rw [firstOf,is]; exact List.mem_cons_self ..)

/-- A window between two stored measurements has no other readings. -/
theorem window_stored {before after : List (OPQCycle × Nat)} {ms : List OPQMeasurement} (filled : ∀ m ∈ ms, Filled m)
    (ordered : ((before ++ ms.flatMap pairs ++ after).map Prod.snd).Pairwise (· ≤ ·)) {low high : Int}
    (begun : ∃ m ∈ ms, crono_to_mili (firstOf m) ≤ low) (ended : ∃ m ∈ ms, high ≤ crono_to_mili (firstOf m)) :
    ((before ++ ms.flatMap pairs ++ after).map cycleOf).filter (inWindow low high) =
      (ms.flatMap cyclesOf).filter (inWindow low high) := by
  have stamps := times_pairs fun m member => (filled m member).2
  rw [List.map_append,List.map_append,← stamps] at ordered
  obtain ⟨order,_,to_after⟩ := List.pairwise_append.mp ordered
  obtain ⟨_,_,to_stored⟩ := List.pairwise_append.mp order
  have early : (before.map cycleOf).filter (inWindow low high) = [] := by
    refine List.filter_eq_nil_iff.mpr ?_
    intro x member inside
    obtain ⟨e,among,rfl⟩ := List.mem_map.mp member
    obtain ⟨m,listed,below⟩ := begun
    have le := crono_to_mili_le (to_stored e.2 (List.mem_map_of_mem among) (firstOf m) (firstOf_times listed (filled m listed)))
    have window : low < (cycleOf e).time ∧ ((cycleOf e).time : Int) < high := by simpa [inWindow] using inside
    rw [show (cycleOf e).time = crono_to_mili e.2 from rfl] at window
    omega
  have late : (after.map cycleOf).filter (inWindow low high) = [] := by
    refine List.filter_eq_nil_iff.mpr ?_
    intro x member inside
    obtain ⟨e,among,rfl⟩ := List.mem_map.mp member
    obtain ⟨m,listed,above⟩ := ended
    have le := crono_to_mili_le (to_after (firstOf m) (List.mem_append_right _ (firstOf_times listed (filled m listed)))
      e.2 (List.mem_map_of_mem among))
    have window : low < (cycleOf e).time ∧ ((cycleOf e).time : Int) < high := by simpa [inWindow] using inside
    rw [show (cycleOf e).time = crono_to_mili e.2 from rfl] at window
    omega
  have own : (ms.flatMap pairs).map cycleOf = ms.flatMap cyclesOf := by
    rw [List.map_flatMap]
    exact List.flatMap_congr fun m _ => (cyclesOf_pairs m).symm
  rw [List.map_append,List.map_append,List.filter_append,List.filter_append,early,late,own,List.nil_append,List.append_nil]

/-- A window within what is stored that is longer than the rotation and begins late
    enough that its lists have not expired. -/
structure Covered (ttl rotation : Int) (ms : List OPQMeasurement) (now gap : Nat) (low high : Int) : Prop where
  steady : Steady gap ms
  long : (rotation + 1) * 1000 + gap / 1000000 + 2 ≤ high - low
  begun : ∃ m ∈ ms, crono_to_mili (firstOf m) ≤ low
  ended : ∃ m ∈ ms, high ≤ crono_to_mili (firstOf m)
  young : now + gap + (rotation + 1) * 1000000000 ≤ low * 1000000 + ttl * 1000000000

/-- What was stored of the readings without a gap is in Redis, and a window of it is
    returned with all readings in it. -/
theorem segment_returned {wire : Wire Buffer} {answers : Nat → Bool} {boxId : BitVec 32} {ttl rotation : Int} {delay : Nat}
    {taken : List (OPQCycle × Nat)} {ms : List OPQMeasurement} (part : ∃ before after, taken = before ++ ms.flatMap pairs ++ after)
    (filled : ∀ m ∈ ms, Filled m) {redis : RedisSerializer Buffer}
    (ran : run (sendToRedis wire answers) (.new boxId ttl rotation) ms = some redis) {calls : List (Nat × OPQMeasurement)}
    (inTime : CallsInTime delay ttl rotation taken ms calls) :
    ∃ e, run (Expiry.stepAt wire answers) (.start boxId ttl rotation) calls = some e ∧ e.serializer = redis ∧
      ∀ (now gap : Nat) (low high : Int), (∀ c ∈ calls, c.1 ≤ now) → Covered ttl rotation ms now gap low high →
        ∃ message, getRange wire (e.server.purge now).redis low high = .ok message ∧
          message.cycles.Perm ((taken.map cycleOf).filter (inWindow low high)) := by
  obtain ⟨before,after,rfl⟩ := part
  obtain ⟨nonneg,longer,clocked,rfl,ordered,timely⟩ := inTime
  have chronicle := clocked.chronicle nonneg filled
  obtain ⟨e,timed,same,time⟩ := timed_run (e := .start boxId ttl rotation) ordered (fun c _ => Nat.zero_le c.1) ran
  refine ⟨e,timed,same,?_⟩
  intro now gap low high after_calls covered
  have later : e.now ≤ now := by
    rcases time with zero | ⟨c,member,is⟩
    · rw [zero]
      exact Nat.zero_le now
    · rw [is]
      exact after_calls c member
  obtain ⟨steady,long,begun,ended,young⟩ := covered
  rw [window_stored filled clocked.ordered begun ended]
  obtain ⟨_,kept⟩ := kept_history longer chronicle timely timed
  exact window_whole longer chronicle timely kept later steady ended young
    (opened_inside chronicle timely steady long begun ended young)

/-- Whatever the order in which the threads go on: what is stored are the cycles of
    one segment of what the reader took from the device, without a gap; and whenever
    the writer is called up to the delay, where lists live for longer than the
    rotation and the delay, a window that is longer than the rotation, lies within
    what is stored and begins late enough is returned with exactly the cycles that
    the reader took from the device in it, each once. -/
theorem device_to_client {analysis : LocalAnalysis} {boxId : BitVec 32} {ttl rotation frames_per_measurement : Int}
    {as : List Action} (ran : run (step env) (.init analysis (.new boxId ttl rotation) frames_per_measurement) as = some s) :
    ((∃ before after, readings env (.init analysis (.new boxId ttl rotation) frames_per_measurement) as =
      before ++ s.stored.flatMap pairs ++ after) ∧ ∀ m ∈ s.stored, Filled m) ∧
    ∀ delay calls, CallsInTime delay ttl rotation
        (readings env (.init analysis (.new boxId ttl rotation) frames_per_measurement) as) s.stored calls →
      ∃ e, run (Expiry.stepAt env.wire env.answers) (.start boxId ttl rotation) calls = some e ∧ e.serializer = s.redis ∧
        ∀ (now gap : Nat) (low high : Int), (∀ c ∈ calls, c.1 ≤ now) → Covered ttl rotation s.stored now gap low high →
          ∃ message, getRange env.wire (e.server.purge now).redis low high = .ok message ∧
            message.cycles.Perm
              (((readings env (.init analysis (.new boxId ttl rotation) frames_per_measurement) as).map cycleOf).filter
                (inWindow low high)) := by
  obtain ⟨part,filled⟩ := stored_of_device ran
  exact ⟨⟨part,filled⟩,fun _ _ inTime => segment_returned part filled (stored_run ran) inTime⟩

/-- Six measurements of one cycle, a second apart; the first two initialize the filters. -/
def sixMeasurements : List Action :=
  let read (now : Nat) : List Action := List.replicate 3 (.reader (firstSample 0) (now * 1000000000))
  [.main,.main,.main,.analysis] ++ [2,3,4,5,6,7].flatMap read ++ List.replicate 26 .analysis

set_option maxRecDepth 20000 in
theorem sixMeasurements_run :
    ((run (step plainEnv) (.init (.new 0) (.new 2 100 0) 1) sixMeasurements).map fun s => s.stored.map OPQMeasurement.timestamps) =
      some [[4000000000],[5000000000],[6000000000],[7000000000]] ∧
    (readings plainEnv (.init (.new 0) (.new 2 100 0) 1) sixMeasurements).map Prod.snd =
      [2000000000,3000000000,4000000000,5000000000,6000000000,7000000000] := by
  decide +kernel

theorem six_firsts {ms : List OPQMeasurement}
    (stamps : ms.map OPQMeasurement.timestamps = [[4000000000],[5000000000],[6000000000],[7000000000]]) :
    ms.map firstOf = [4000000000,5000000000,6000000000,7000000000] := by
  have heads := congrArg (List.map fun l => l.headD 0) stamps
  rw [List.map_map] at heads
  exact heads

/-- Calls half a second after the timestamps. -/
theorem six_inTime {taken : List (OPQCycle × Nat)} (clocked : Clocked 0 taken) {ms : List OPQMeasurement}
    (stamps : ms.map OPQMeasurement.timestamps = [[4000000000],[5000000000],[6000000000],[7000000000]]) :
    CallsInTime 500000000 100 0 taken ms (ms.map fun m => (firstOf m + 500000000,m)) :=
  latest_inTime (by decide) (by decide) clocked (by rw [six_firsts stamps]; decide)

/-- The window from 4 to 7 seconds, which all four stored measurements are in or at. -/
theorem six_covered {ms : List OPQMeasurement}
    (stamps : ms.map OPQMeasurement.timestamps = [[4000000000],[5000000000],[6000000000],[7000000000]]) :
    Covered 100 0 ms 10000000000 1000000000 4000 7000 := by
  have member {t : Nat} (listed : t ∈ [4000000000,5000000000,6000000000,7000000000]) : ∃ m ∈ ms, firstOf m = t := by
    rw [← six_firsts stamps] at listed
    exact List.mem_map.mp listed
  refine ⟨?_,by decide,?_,?_,by decide⟩
  · refine (List.isChain_map firstOf (R := fun t t' => t' ≤ t + 1000000000)).mp ?_
    rw [six_firsts stamps]
    decide
  · obtain ⟨m,listed,is⟩ := member (t := 4000000000) (by decide)
    exact ⟨m,listed,by rw [is]; decide⟩
  · obtain ⟨m,listed,is⟩ := member (t := 7000000000) (by decide)
    exact ⟨m,listed,by rw [is]; decide⟩

theorem six_called {ms : List OPQMeasurement}
    (stamps : ms.map OPQMeasurement.timestamps = [[4000000000],[5000000000],[6000000000],[7000000000]]) :
    ∀ c ∈ ms.map fun m => (firstOf m + 500000000,m), c.1 ≤ 10000000000 := by
  intro c member
  obtain ⟨m,listed,rfl⟩ := List.mem_map.mp member
  have first : firstOf m ∈ [4000000000,5000000000,6000000000,7000000000] := six_firsts stamps ▸ List.mem_map_of_mem listed
  have upTo : ∀ t ∈ [4000000000,5000000000,6000000000,7000000000], t + 500000000 ≤ 10000000000 := by decide
  exact upTo _ first

theorem device_to_client_six : ∃ s, run (step plainEnv) (.init (.new 0) (.new 2 100 0) 1) sixMeasurements = some s ∧
    (∃ before after, readings plainEnv (.init (.new 0) (.new 2 100 0) 1) sixMeasurements =
      before ++ s.stored.flatMap pairs ++ after) ∧
    ∃ e, run (Expiry.stepAt .plain fun _ => true) (.start 2 100 0) (s.stored.map fun m => (firstOf m + 500000000,m)) = some e ∧
      ∃ message, getRange .plain (e.server.purge 10000000000).redis 4000 7000 = .ok message ∧
        message.cycles.Perm
          (((readings plainEnv (.init (.new 0) (.new 2 100 0) 1) sixMeasurements).map cycleOf).filter
            (inWindow 4000 7000)) := by
  obtain ⟨stored,taken⟩ := sixMeasurements_run
  obtain ⟨s,ran,stamps⟩ := Option.map_eq_some_iff.mp stored
  have clocked : Clocked 0 (readings plainEnv (.init (.new 0) (.new 2 100 0) 1) sixMeasurements) := by
    constructor
    · rw [taken]
      decide
    · rw [taken]
      decide
  obtain ⟨⟨part,_⟩,called⟩ := device_to_client ran
  obtain ⟨e,timed,_,returned⟩ := called _ _ (six_inTime clocked stamps)
  exact ⟨s,ran,part,e,timed,returned 10000000000 1000000000 4000 7000 (six_called stamps) (six_covered stamps)⟩

end Opqbox.EndToEnd
