import Opqbox.Retrieval
import Opqbox.Shutdown
import Opqbox.Stages

/-!
What the triggering daemon sends and stores. Its threads run a pipeline of three
parties (`step_flows`), the stage of which is the analysis, active once its
filters are initialized; so no measurement is lost, doubled or put in another
order (`sent_in_order`). Redis is left with those that were stored, as a partition
of time (`stored_written`).
-/
namespace Opqbox.Delivery
open Opqbox.Analysis Opqbox.Messages Opqbox.OpqData Opqbox.Pipeline Opqbox.RedisWriter Opqbox.Runs
open Opqbox.Retrieval Opqbox.Shutdown Opqbox.Stages

variable {F Buffer : Type}

/-! ### The analysis as a stage -/

def stage (env : Env F Buffer) : Stage LocalAnalysis OPQMeasurement (OPQAnalysis F) where
  active a := a.state = .RUNNING
  consume := LocalAnalysis.consume
  result a m := make_analysis env (a.consume m).downSampled m
  stays a m active := by simpa using LocalAnalysis.consume_running (by simpa using active) m

/-! ### The threads as parties -/

def work : Option (Analysing F) → Work OPQMeasurement (OPQAnalysis F)
  | some (.popped m) => .held m
  | some (.push m a) => .made m a
  | some (.store m) => .storing m
  | _ => .idle

def taken : Option (Triggering F) → Option (OPQAnalysis F)
  | some (.send a) => some a
  | _ => none

def flow (s : System F Buffer) : Flow LocalAnalysis OPQMeasurement (OPQAnalysis F) where
  input := s.readerQueue
  state := s.analysis
  work := work s.analysisSlab.t
  output := s.analysisQueue
  taken := taken s.triggerSlab.t
  pushed := s.pushed
  popped := s.popped
  sent := s.sent
  stored := s.stored

variable {env : Env F Buffer} {s t : System F Buffer}

/-- `main` passes nothing on; it starts threads where there is none yet. -/
theorem main_flows (cycle : Lifecycle s) (stepped : stepMain s = some t) : flow t = flow s := by
  cases stepMain_cases stepped with
  | startTrigger position =>
    have idle := cycle.trigger.idle (by rw [position]; decide)
    simp [flow,Slab.start,taken,idle]
  | startAnalysis position =>
    have idle := cycle.analysis.idle (by rw [position]; decide)
    simp [flow,Slab.start,work,idle]
  | _ => rfl

theorem reader_flows {cycle : OPQCycle} {now : Nat} (stepped : stepReader cycle now s = some t) :
    flow t = flow s ∨ Step (stage env) (flow s) (flow t) := by
  cases stepReader_cases stepped with
  | test position => exact .inl rfl
  | fill position more => exact .inl rfl
  | push position full => exact .inr (.push _)

theorem analysis_flows (stepped : stepAnalysis env s = some t) :
    flow t = flow s ∨ Step (stage env) (flow s) (flow t) := by
  cases stepAnalysis_cases stepped with
  | connect position => exact .inl (by simp [flow,Slab.at,work,position])
  | test position =>
    refine .inl ?_
    split_ifs <;> simp [flow,Slab.at,work,position]
  | pop position front => exact .inr (.pop (by simp [flow,work,position]) front)
  | @prime m position state =>
    have primed : s.analysis.initFilter m = (stage env).consume (flow s).state m := (if_pos state).symm
    rw [primed]
    exact .inr (.drop (by simp [flow,work,position]) (by simpa [stage,flow] using state))
  | analyse position state made =>
    exact .inr (.make (by simp [flow,work,position]) (by simpa [stage,flow] using state) made)
  | push position => exact .inr (.emit (by simp [flow,work,position]))
  | store position sent => exact .inr (.store (by simp [flow,work,position]))

theorem trigger_flows (stepped : stepTrigger s = some t) : flow t = flow s ∨ Step (stage env) (flow s) (flow t) := by
  cases stepTrigger_cases stepped with
  | connect position => exact .inl (by simp [flow,Slab.at,taken,position])
  | test position =>
    refine .inl ?_
    split_ifs <;> simp [flow,Slab.at,taken,position]
  | pop position front => exact .inr (.take (by simp [flow,taken,position]) front)
  | send position => exact .inr (.send (by simp [flow,taken,position]))

/-- A step of a thread is one of a party, or nothing is passed on in it. -/
theorem step_flows (cycle : Lifecycle s) {action : Action} (stepped : step env s action = some t) :
    flow t = flow s ∨ Step (stage env) (flow s) (flow t) := by
  cases action with
  | main => exact .inl (main_flows cycle stepped)
  | signal =>
    obtain ⟨_,rfl⟩ := signal_cases stepped
    exact .inl rfl
  | reader cycle now => exact reader_flows stepped
  | analysis => exact analysis_flows stepped
  | trigger => exact trigger_flows stepped
  | onFramesPerMeasurementChange frames =>
    cases stepped
    exact .inl rfl

/-! ### What is sent -/

/-- An analysis has the time of the first cycle, the counters of the last one and
    every flag of a cycle. -/
structure Describes (m : OPQMeasurement) (a : OPQAnalysis F) : Prop where
  start : m.timestamps.head? = some a.start
  counters : ∃ last, m.cycles.getLast? = some last ∧
    a.last_gps_counter = last.last_gps_counter ∧ a.current_counter = last.current_counter
  flags : ∀ i, a.flags.getLsbD i = m.cycles.any (·.flags.getLsbD i)

theorem flags_foldl (cycles : List OPQCycle) (flags : BitVec 32) (i : Nat) :
    (cycles.foldl (fun flags frame => flags ||| frame.flags) flags).getLsbD i =
    (flags.getLsbD i || cycles.any (·.flags.getLsbD i)) := by
  induction cycles generalizing flags with
  | nil => simp
  | cons cycle cycles ih => rw [List.foldl_cons,ih,BitVec.getLsbD_or,List.any_cons,Bool.or_assoc]

theorem make_analysis_describes {downSampled : List ℚ} {m : OPQMeasurement} {a : OPQAnalysis F}
    (made : make_analysis env downSampled m = some a) : Describes m a := by
  unfold make_analysis at made
  split at made
  · next front last first final =>
    cases made
    refine ⟨first,⟨last,final,rfl,rfl⟩,fun i => ?_⟩
    rw [flags_foldl]
    simp
  · cases made

/-- In every run: the measurements popped are the first of those pushed, dropped
    until the filters are initialized; what is stored are the first of the others,
    and what is sent are the analyses of the first of them, one of each. -/
theorem sent_in_order {analysis : LocalAnalysis} {redis : RedisSerializer Buffer} {frames_per_measurement : Int}
    {actions : List Action} (ran : run (step env) (.init analysis redis frames_per_measurement) actions = some s) :
    ∃ dropped kept, s.popped = dropped ++ kept ∧ (∀ e ∈ dropped, e.1.state ≠ .RUNNING) ∧
      (∀ e ∈ kept, e.1.state = .RUNNING) ∧ s.popped.map Prod.snd <+: s.pushed ∧
      s.stored <+: kept.map Prod.snd ∧
      ∃ analysed, analysed <+: kept.map Prod.snd ∧ List.Forall₂ Describes analysed s.sent := by
  have reached : Relation.ReflTransGen (Step (stage env)) (.start analysis) (flow s) :=
    run_simulates flow (fun _ _ _ cycle stepped => cycle.step stepped)
      (fun _ _ _ cycle stepped => step_flows cycle stepped) (lifecycle_init ..) ran
  obtain ⟨dropped,kept,popped,inactive,active,first,stored,worked,front,makes⟩ := delivered reached
  refine ⟨dropped,kept,popped,?_,?_,?_,stored,worked.map Prod.snd,front.map _,?_⟩
  · intro e member
    simpa [stage] using inactive e member
  · intro e member
    simpa [stage] using active e member
  · have items := first.map Prod.snd
    rwa [Stage.trace_items] at items
  · refine List.forall₂_map_left_iff.mpr (makes.imp ?_)
    intro e a made
    exact make_analysis_describes made

/-- Three measurements of one cycle, pushed, popped and the third of them sent. -/
def threeMeasurements : List Action :=
  let read (now : Nat) : List Action := List.replicate 3 (.reader (firstSample 0) now)
  [.main,.main,.main,.analysis,.trigger,.trigger] ++ read 1000 ++ read 2000 ++ read 3000 ++
    List.replicate 9 .analysis ++ [.analysis,.trigger,.trigger]

set_option maxRecDepth 20000 in
theorem threeMeasurements_sent :
    (run (step plainEnv) (.init (.new 0) (.new 2 100 10) 1) threeMeasurements).map (·.sent.map OPQAnalysis.start) =
      some [3000] := by
  decide +kernel

theorem sent_in_order_three : ∃ s, run (step plainEnv) (.init (.new 0) (.new 2 100 10) 1) threeMeasurements = some s ∧
    s.sent.map OPQAnalysis.start = [3000] ∧
    ∃ dropped kept, s.popped = dropped ++ kept ∧ (∀ e ∈ dropped, e.1.state ≠ .RUNNING) ∧
      (∀ e ∈ kept, e.1.state = .RUNNING) ∧ s.popped.map Prod.snd <+: s.pushed ∧
      s.stored <+: kept.map Prod.snd ∧
      ∃ analysed, analysed <+: kept.map Prod.snd ∧ List.Forall₂ Describes analysed s.sent := by
  obtain ⟨s,ran,sent⟩ := Option.map_eq_some_iff.mp threeMeasurements_sent
  exact ⟨s,ran,sent,sent_in_order ran⟩

/-! ### What is stored -/

/-- The serializer has sent the measurements that were stored. -/
theorem stored_run {analysis : LocalAnalysis} {redis : RedisSerializer Buffer} {frames_per_measurement : Int} {actions : List Action}
    (ran : run (step env) (.init analysis redis frames_per_measurement) actions = some s) :
    run (sendToRedis env.wire env.answers) redis s.stored = some s.redis := by
  have preserved : ∀ (s : System F Buffer) action t, run (sendToRedis env.wire env.answers) redis s.stored = some s.redis →
      step env s action = some t → run (sendToRedis env.wire env.answers) redis t.stored = some t.redis := by
    intro s action t before stepped
    cases action with
    | main => cases stepMain_cases stepped <;> exact before
    | signal =>
      obtain ⟨_,rfl⟩ := signal_cases stepped
      exact before
    | reader cycle now => cases stepReader_cases stepped <;> exact before
    | analysis =>
      cases stepAnalysis_cases stepped with
      | store position sent => exact run_concat before sent
      | _ => exact before
    | trigger => cases stepTrigger_cases stepped <;> exact before
    | onFramesPerMeasurementChange frames =>
      cases stepped
      exact before
  exact run_invariant preserved rfl ran

/-- Redis holds a partition of time, each list with its newest message first. -/
theorem stored_written {analysis : LocalAnalysis} {boxId : BitVec 32} {ttl rotation frames_per_measurement : Int}
    {actions : List Action} (ran : run (step env) (.init analysis (.new boxId ttl rotation) frames_per_measurement) actions = some s)
    (chronicle : Chronicle rotation s.stored) : Written env.wire (contents s.redis.c.appended) := by
  obtain ⟨appended,_⟩ := chronicle.commands (stored_run ran)
  rw [appended]
  exact written_contents chronicle

end Opqbox.Delivery
