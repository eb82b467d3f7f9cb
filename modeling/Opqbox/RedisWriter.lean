import Mathlib.Tactic.ByCases
import Mathlib.Tactic.SplitIfs
import Opqbox.Messages
import Opqbox.OpqData
import Opqbox.Runs

/-!
`RedisSerializer`: measurements pushed to lists in Redis, under a key that is
the time of the first measurement of the list. A call either opens a list or
goes on with the last one (`sendToRedis_cases`); over a history the keys are a
partition of time (`partitions_time`).
-/
namespace Opqbox.RedisWriter
open Opqbox.Messages Opqbox.OpqData Opqbox.Runs

variable {Buffer : Type}

/-- Milliseconds of a time in nanoseconds. -/
def crono_to_mili (time : Nat) : Nat := time / 1000000

def protocycle (cycle : OPQCycle) (timestamp : Nat) : Cycle where
  time := crono_to_mili timestamp
  data := cycle.data.toList.map BitVec.toInt
  last_gps := some cycle.last_gps_counter.toNat
  current_count := some cycle.current_counter.toNat
  flags := some cycle.flags.toInt

/-- The message of a measurement; nothing where the loop over the cycles runs
    past the timestamps. -/
def serialize_to_protobuf (id : Int) (message : OPQMeasurement) : Option DataMessage :=
  if message.timestamps.length < message.cycles.length then none
  else some ⟨some id,none,List.zipWith protocycle message.cycles message.timestamps⟩

inductive Command (Buffer : Type) where
  | LPUSH (key : String) (message : Buffer)
  | EXPIRE (key : String) (seconds : Int)

/-- The connection: the commands appended and the number of replies read. -/
structure RedisContext (Buffer : Type) where
  appended : List (Command Buffer)
  replies : Nat

def RedisContext.redisAppendCommand (c : RedisContext Buffer) (command : Command Buffer) : RedisContext Buffer :=
  { c with appended := c.appended ++ [command] }

/-- `answers` says which replies are no error; with one that is the program exits. -/
def RedisContext.redisGetReply (answers : Nat → Bool) (c : RedisContext Buffer) : Option (RedisContext Buffer) :=
  if answers c.replies then some { c with replies := c.replies + 1 } else none

structure RedisSerializer (Buffer : Type) where
  c : RedisContext Buffer
  boxId : BitVec 32
  /-- In nanoseconds since the epoch. -/
  lastRotation : Nat
  key : String
  redisRecordTTL : Int
  redisRecordRotation : Int

/-- After the connection is made and the database cleared. -/
def RedisSerializer.new (boxId : BitVec 32) (ttl rotation : Int) :
    RedisSerializer Buffer := ⟨⟨[],0⟩,boxId,0,"",ttl,rotation⟩

/-- Whether more than `rotation` seconds are between two times. -/
def rotates (rotation : Int) (lastRotation first : Nat) : Bool :=
  ((first : Int) - lastRotation).tdiv 1000000000 > rotation

def sendToRedis (wire : Wire Buffer) (answers : Nat → Bool) (self : RedisSerializer Buffer)
    (measurement : OPQMeasurement) :
    Option (RedisSerializer Buffer) :=
  match serialize_to_protobuf self.boxId.toInt measurement with
  | none => none
  | some message =>
    match measurement.timestamps with
    | [] => some self
    | first :: _ =>
      let setTTL := rotates self.redisRecordRotation self.lastRotation first
      let self := if setTTL then { self with lastRotation := first, key := (crono_to_mili first).repr } else self
      let c := self.c.redisAppendCommand (.LPUSH self.key (wire.serializeData message))
      let c := if setTTL then c.redisAppendCommand (.EXPIRE self.key self.redisRecordTTL) else c
      match c.redisGetReply answers with
      | none => none
      | some c =>
        match if setTTL then c.redisGetReply answers else some c with
        | none => none
        | some c => some { self with c := c }

/-! ### What a call does -/

/-- The buffer that a measurement is pushed as. -/
def messageOf (wire : Wire Buffer) (boxId : BitVec 32) (m : OPQMeasurement) : Buffer :=
  wire.serializeData ⟨some boxId.toInt,none,List.zipWith protocycle m.cycles m.timestamps⟩

/-- A call with a measurement whose first timestamp is `first`: it opens a list
    and sets its expiry, or goes on with the last one. -/
theorem sendToRedis_cases {wire : Wire Buffer} {answers : Nat → Bool} {s t : RedisSerializer Buffer}
    {m : OPQMeasurement}
    {first : Nat} {rest : List Nat} (times : m.timestamps = first :: rest)
    (sent : sendToRedis wire answers s m = some t) :
    (rotates s.redisRecordRotation s.lastRotation first = true ∧
      t = { s with
        lastRotation := first
        key := (crono_to_mili first).repr
        c := ⟨s.c.appended ++ [.LPUSH (crono_to_mili first).repr (messageOf wire s.boxId m),
          .EXPIRE (crono_to_mili first).repr s.redisRecordTTL],s.c.replies + 2⟩ }) ∨
    (rotates s.redisRecordRotation s.lastRotation first = false ∧
      t = { s with c := ⟨s.c.appended ++ [.LPUSH s.key (messageOf wire s.boxId m)],s.c.replies + 1⟩ }) := by
  by_cases short : m.timestamps.length < m.cycles.length
  · simp [sendToRedis,serialize_to_protobuf,short] at sent
  · have serialized : serialize_to_protobuf s.boxId.toInt m =
        some ⟨some s.boxId.toInt,none,List.zipWith protocycle m.cycles m.timestamps⟩ := if_neg short
    unfold sendToRedis at sent
    by_cases answered : answers s.c.replies = true
    · cases opens : rotates s.redisRecordRotation s.lastRotation first with
      | true =>
        by_cases answered' : answers (s.c.replies + 1) = true
        · simp [serialized,times,opens,RedisContext.redisAppendCommand,RedisContext.redisGetReply,answered,answered'] at sent
          exact .inl ⟨rfl,by simp [← sent,messageOf,times]⟩
        · simp [serialized,times,opens,RedisContext.redisAppendCommand,RedisContext.redisGetReply,answered,answered'] at sent
      | false =>
        simp [serialized,times,opens,RedisContext.redisAppendCommand,RedisContext.redisGetReply,answered] at sent
        exact .inr ⟨rfl,by simp [← sent,messageOf,times]⟩
    · cases opens : rotates s.redisRecordRotation s.lastRotation first <;>
        simp [serialized,times,opens,RedisContext.redisAppendCommand,RedisContext.redisGetReply,answered] at sent

/-- A call succeeds where the replies are no errors. -/
theorem sendToRedis_answered (wire : Wire Buffer) {answers : Nat → Bool} (answered : ∀ n, answers n = true)
    (s : RedisSerializer Buffer) {m : OPQMeasurement} (lengths : m.timestamps.length = m.cycles.length) :
    ∃ t, sendToRedis wire answers s m = some t := by
  have serialized : serialize_to_protobuf s.boxId.toInt m =
      some ⟨some s.boxId.toInt,none,List.zipWith protocycle m.cycles m.timestamps⟩ := if_neg (by omega)
  unfold sendToRedis
  rw [serialized]
  cases m.timestamps with
  | nil => exact ⟨s,rfl⟩
  | cons first rest =>
    cases opens : rotates s.redisRecordRotation s.lastRotation first <;>
      simp [opens,RedisContext.redisAppendCommand,RedisContext.redisGetReply,answered]

theorem run_answered (wire : Wire Buffer) {answers : Nat → Bool} (answered : ∀ n, answers n = true) {ms : List OPQMeasurement}
    (lengths : ∀ m ∈ ms, m.timestamps.length = m.cycles.length) (s : RedisSerializer Buffer) :
    ∃ t, run (sendToRedis wire answers) s ms = some t := by
  induction ms generalizing s with
  | nil => exact ⟨s,rfl⟩
  | cons m ms ih =>
    obtain ⟨own,others⟩ := List.forall_mem_cons.mp lengths
    obtain ⟨u,sent⟩ := sendToRedis_answered wire answered s own
    obtain ⟨t,ran⟩ := ih others u
    exact ⟨t,(run_cons sent ms).trans ran⟩

/-! ### The keys -/

/-- The keys of measurements after the rotation at `lastRotation` to `key`. -/
def keysFrom (rotation : Int) (lastRotation key : Nat) : List OPQMeasurement → List Nat
  | [] => []
  | m :: ms =>
    let first := m.timestamps.headD 0
    if rotates rotation lastRotation first then crono_to_mili first :: keysFrom rotation first (crono_to_mili first) ms
    else key :: keysFrom rotation lastRotation key ms

/-- The commands of each call: a push, and an expiry with the first push under a key. -/
def commandsOf (wire : Wire Buffer) (boxId : BitVec 32) (ttl : Int) :
    List Nat → List (Nat × OPQMeasurement) → List (List (Command Buffer))
  | _,[] => []
  | used,(k,m) :: rest =>
    (.LPUSH k.repr (messageOf wire boxId m) :: if k ∈ used then [] else [.EXPIRE k.repr ttl]) ::
      commandsOf wire boxId ttl (k :: used) rest

/-- A measurement of at least one cycle, each with its timestamp. -/
def Filled (m : OPQMeasurement) : Prop := m.cycles ≠ [] ∧ m.timestamps.length = m.cycles.length

/-- The keys of measurements are increasing times, more than `rotation` seconds
    apart, and cycles are stored between their key and the next. -/
structure TimePartition (rotation : Int) (ms : List OPQMeasurement) (keys : List Nat) : Prop where
  length : keys.length = ms.length
  positive : ∀ k ∈ keys, 0 < k
  apart : keys.Pairwise fun k k' : Nat => k = k' ∨ (k : Int) + rotation * 1000 < k'
  from_key : ∀ e ∈ keys.zip ms, ∀ t ∈ e.2.timestamps, e.1 ≤ crono_to_mili t
  to_next : (keys.zip ms).Pairwise fun e e' => e.1 < e'.1 → ∀ t ∈ e.2.timestamps, crono_to_mili t ≤ e'.1

theorem Filled.times {m : OPQMeasurement} (filled : Filled m) : ∃ first rest, m.timestamps = first :: rest := by
  apply List.exists_cons_of_ne_nil
  intro empty
  have lengths := filled.2
  rw [empty] at lengths
  exact filled.1 (List.length_eq_zero_iff.mp lengths.symm)

theorem crono_to_mili_le {t u : Nat} (le : t ≤ u) : crono_to_mili t ≤ crono_to_mili u := Nat.div_le_div_right le

theorem rotates_iff {rotation : Int} (nonneg : 0 ≤ rotation) {lastRotation first : Nat} :
    rotates rotation lastRotation first = true ↔ lastRotation + (rotation + 1) * 1000000000 ≤ first := by
  rw [rotates,decide_eq_true_eq,Int.tdiv_eq_ediv]
  split_ifs with whole
  · omega
  · have one : Int.sign 1000000000 = 1 := rfl
    omega

/-- A new key is more than `rotation` seconds after the last one. -/
theorem rotates_apart {rotation : Int} (nonneg : 0 ≤ rotation) {lastRotation first : Nat}
    (opens : rotates rotation lastRotation first = true) :
    (crono_to_mili lastRotation : Int) + rotation * 1000 < crono_to_mili first := by
  have later := (rotates_iff nonneg).mp opens
  unfold crono_to_mili
  omega

theorem keysFrom_cons {m : OPQMeasurement} {first : Nat} {rest : List Nat} (same : m.timestamps = first :: rest)
    (rotation : Int)
    (lastRotation key : Nat) (ms : List OPQMeasurement) : keysFrom rotation lastRotation key (m :: ms) =
      if rotates rotation lastRotation first = true then
        crono_to_mili first :: keysFrom rotation first (crono_to_mili first) ms
      else key :: keysFrom rotation lastRotation key ms := by
  rw [keysFrom,same]
  rfl

theorem keysFrom_length (rotation : Int) (lastRotation key : Nat) (ms : List OPQMeasurement) :
    (keysFrom rotation lastRotation key ms).length = ms.length := by
  induction ms generalizing lastRotation key with
  | nil => rfl
  | cons m ms ih =>
    rw [keysFrom]
    split_ifs <;> rw [List.length_cons,List.length_cons,ih]

/-- The keys of the first measurements do not depend on the later ones. -/
theorem keysFrom_append_zip (rotation : Int) (lastRotation key : Nat) (before after : List OPQMeasurement) :
    (keysFrom rotation lastRotation key (before ++ after)).zip before =
    (keysFrom rotation lastRotation key before).zip before := by
  induction before generalizing lastRotation key with
  | nil => simp
  | cons m ms ih =>
    rw [List.cons_append,keysFrom,keysFrom]
    split_ifs <;> rw [List.zip_cons_cons,List.zip_cons_cons,ih]

/-- A later key is the last one, or the time of a measurement. -/
theorem mem_keysFrom {rotation : Int} {lastRotation key : Nat} {ms : List OPQMeasurement}
    (filled : ∀ m ∈ ms, Filled m) {k : Nat}
    (member : k ∈ keysFrom rotation lastRotation key ms) :
    k = key ∨ ∃ m ∈ ms, ∃ t ∈ m.timestamps, k = crono_to_mili t := by
  induction ms generalizing lastRotation key with
  | nil => cases member
  | cons m ms ih =>
    obtain ⟨own,filled'⟩ := List.forall_mem_cons.mp filled
    obtain ⟨first,rest,same⟩ := own.times
    have stamped : ∃ m' ∈ m :: ms, ∃ t ∈ m'.timestamps, crono_to_mili first = crono_to_mili t :=
      ⟨m,List.mem_cons_self ..,first,by rw [same]; exact List.mem_cons_self ..,rfl⟩
    rw [keysFrom_cons same] at member
    split_ifs at member with opens
    · rcases List.mem_cons.mp member with rfl | later
      · exact .inr stamped
      · rcases ih filled' later with rfl | ⟨m',listed,from_later⟩
        · exact .inr stamped
        · exact .inr ⟨m',List.mem_cons_of_mem _ listed,from_later⟩
    · rcases List.mem_cons.mp member with rfl | later
      · exact .inl rfl
      · rcases ih filled' later with rfl | ⟨m',listed,from_later⟩
        · exact .inl rfl
        · exact .inr ⟨m',List.mem_cons_of_mem _ listed,from_later⟩

theorem keysFrom_apart {rotation : Int} (nonneg : 0 ≤ rotation) (lastRotation : Nat) {ms : List OPQMeasurement}
    (filled : ∀ m ∈ ms, Filled m) :
    (crono_to_mili lastRotation :: keysFrom rotation lastRotation (crono_to_mili lastRotation) ms).Pairwise
      fun k k' : Nat => k = k' ∨ (k : Int) + rotation * 1000 < k' := by
  induction ms generalizing lastRotation with
  | nil => simp [keysFrom]
  | cons m ms ih =>
    obtain ⟨own,filled'⟩ := List.forall_mem_cons.mp filled
    obtain ⟨first,rest,same⟩ := own.times
    rw [keysFrom_cons same]
    split_ifs with opens
    · have after := ih first filled'
      have apart := rotates_apart nonneg opens
      refine List.pairwise_cons.mpr ⟨?_,after⟩
      intro k member
      rcases List.mem_cons.mp member with rfl | later
      · exact .inr apart
      · rcases (List.pairwise_cons.mp after).1 k later with rfl | further
        · exact .inr apart
        · exact .inr (by omega)
    · have after := ih lastRotation filled'
      refine List.pairwise_cons.mpr ⟨?_,after⟩
      intro k member
      rcases List.mem_cons.mp member with rfl | later
      · exact .inl rfl
      · exact (List.pairwise_cons.mp after).1 k later

/-- All timestamps in order. -/
def times (ms : List OPQMeasurement) : List Nat := ms.flatMap OPQMeasurement.timestamps

theorem mem_times {ms : List OPQMeasurement} {m : OPQMeasurement} (listed : m ∈ ms) {t : Nat}
    (member : t ∈ m.timestamps) :
    t ∈ times ms :=
  List.mem_flatMap.mpr ⟨m,listed,member⟩

theorem keysFrom_from {rotation : Int} {lastRotation : Nat} {ms : List OPQMeasurement} (filled : ∀ m ∈ ms, Filled m)
    (ordered : (lastRotation :: times ms).Pairwise (· ≤ ·)) :
    ∀ e ∈ (keysFrom rotation lastRotation (crono_to_mili lastRotation) ms).zip ms, ∀ t ∈ e.2.timestamps,
      e.1 ≤ crono_to_mili t := by
  induction ms generalizing lastRotation with
  | nil => simp [keysFrom]
  | cons m ms ih =>
    obtain ⟨own,filled'⟩ := List.forall_mem_cons.mp filled
    obtain ⟨first,rest,same⟩ := own.times
    obtain ⟨since,order⟩ := List.pairwise_cons.mp ordered
    have parts : times (m :: ms) = first :: (rest ++ times ms) := by
      rw [times,List.flatMap_cons,same]
      rfl
    rw [parts] at order since
    obtain ⟨since_first,order'⟩ := List.pairwise_cons.mp order
    intro e member t listed
    rw [keysFrom_cons same] at member
    split_ifs at member with opens
    · rcases List.mem_cons.mp member with rfl | later
      · rw [same] at listed
        rcases List.mem_cons.mp listed with rfl | behind
        · exact Nat.le_refl _
        · exact crono_to_mili_le (since_first t (List.mem_append_left _ behind))
      · refine ih filled' (List.pairwise_cons.mpr ⟨?_,(List.pairwise_append.mp order').2.1⟩) e later t listed
        exact fun u among => since_first u (List.mem_append_right _ among)
    · rcases List.mem_cons.mp member with rfl | later
      · exact crono_to_mili_le (since t (by rw [same] at listed; exact List.mem_append_left (times ms) listed))
      · refine ih filled' (List.pairwise_cons.mpr ⟨?_,(List.pairwise_append.mp order').2.1⟩) e later t listed
        exact fun u among => since u (List.mem_cons_of_mem _ (List.mem_append_right _ among))

theorem keysFrom_next {rotation : Int} {lastRotation key : Nat} {ms : List OPQMeasurement} (filled : ∀ m ∈ ms, Filled m)
    (ordered : (times ms).Pairwise (· ≤ ·)) : ((keysFrom rotation lastRotation key ms).zip ms).Pairwise
      fun e e' => e.1 < e'.1 → ∀ t ∈ e.2.timestamps, crono_to_mili t ≤ e'.1 := by
  induction ms generalizing lastRotation key with
  | nil => simp [keysFrom]
  | cons m ms ih =>
    obtain ⟨_,filled'⟩ := List.forall_mem_cons.mp filled
    obtain ⟨_,order,before⟩ := List.pairwise_append.mp (show (m.timestamps ++ times ms).Pairwise (· ≤ ·) from ordered)
    -- A greater key is the time of a later measurement.
    have next {last k : Nat} : ∀ e' ∈ (keysFrom rotation last k ms).zip ms, k < e'.1 →
        ∀ t ∈ m.timestamps, crono_to_mili t ≤ e'.1 := by
      intro e' member greater t listed
      rcases mem_keysFrom filled' (List.of_mem_zip member).1 with same | ⟨m',listed',u,among,same⟩
      · omega
      · rw [same]
        exact crono_to_mili_le (before t listed u (mem_times listed' among))
    rw [keysFrom]
    split_ifs with opens
    · exact List.pairwise_cons.mpr ⟨next,ih filled' order⟩
    · exact List.pairwise_cons.mpr ⟨next,ih filled' order⟩

/-! ### The commands of a history -/

theorem run_commands {wire : Wire Buffer} {answers : Nat → Bool} {ms : List OPQMeasurement}
    (filled : ∀ m ∈ ms, Filled m)
    {s t : RedisSerializer Buffer} (ran : run (sendToRedis wire answers) s ms = some t)
    (nonneg : 0 ≤ s.redisRecordRotation)
    (used : List Nat) (isKey : s.key = (crono_to_mili s.lastRotation).repr)
    (inUse : crono_to_mili s.lastRotation ∈ used) (greatest : ∀ k ∈ used, k ≤ crono_to_mili s.lastRotation) :
    ∃ commands, commands = (commandsOf wire s.boxId s.redisRecordTTL used
        ((keysFrom s.redisRecordRotation s.lastRotation (crono_to_mili s.lastRotation) ms).zip ms)).flatten ∧
      t.c.appended = s.c.appended ++ commands ∧ t.c.replies = s.c.replies + commands.length := by
  induction ms generalizing s used with
  | nil =>
    cases ran
    exact ⟨[],by simp [keysFrom,commandsOf],by simp,rfl⟩
  | cons m ms ih =>
    obtain ⟨own,filled'⟩ := List.forall_mem_cons.mp filled
    obtain ⟨first,rest,same⟩ := own.times
    obtain ⟨u,sent,ran⟩ := run_cons_inv ran
    rw [keysFrom_cons same]
    rcases sendToRedis_cases same sent with ⟨opens,rfl⟩ | ⟨stays,rfl⟩
    · have apart := rotates_apart nonneg opens
      have unused : crono_to_mili first ∉ used := by
        intro member
        have below := greatest _ member
        omega
      obtain ⟨commands,are,appended,replies⟩ := ih filled' ran nonneg (crono_to_mili first :: used) rfl
        (List.mem_cons_self ..) (by
          intro k member
          rcases List.mem_cons.mp member with rfl | old
          · exact Nat.le_refl _
          · have below := greatest k old
            simp only
            omega)
      refine ⟨_,rfl,?_,?_⟩
      · rw [appended,opens,are]
        simp [commandsOf,unused]
      · rw [replies,opens,are]
        simp [commandsOf,unused]
        omega
    · obtain ⟨commands,are,appended,replies⟩ := ih filled' ran nonneg (crono_to_mili s.lastRotation :: used) isKey
        (List.mem_cons_self ..) (by
          intro k member
          rcases List.mem_cons.mp member with rfl | old
          · exact Nat.le_refl _
          · exact greatest k old)
      refine ⟨_,rfl,?_,?_⟩
      · rw [appended,stays,are]
        simp [commandsOf,inUse,isKey]
      · rw [replies,stays,are]
        simp [commandsOf,inUse]
        omega

/-! ### Histories -/

/-- A history of measurements for which the writer opens a list at once: all
    timestamps in order, the first more than `rotation + 1` seconds after the epoch. -/
structure Chronicle (rotation : Int) (ms : List OPQMeasurement) : Prop where
  nonneg : 0 ≤ rotation
  filled : ∀ m ∈ ms, Filled m
  ordered : (times ms).Pairwise (· ≤ ·)
  late : ∀ t ∈ (times ms).head?, (rotation + 1) * 1000000000 < t

/-- The keys of a history. -/
def keysOf (rotation : Int) (ms : List OPQMeasurement) : List Nat := keysFrom rotation 0 (crono_to_mili 0) ms

/-- The first measurement of a history opens a list. -/
theorem Chronicle.first {rotation : Int} {m : OPQMeasurement} {ms : List OPQMeasurement}
    (chronicle : Chronicle rotation (m :: ms)) :
    ∃ first rest, m.timestamps = first :: rest ∧ rotates rotation 0 first = true := by
  obtain ⟨first,rest,same⟩ := (chronicle.filled m (List.mem_cons_self ..)).times
  have late := chronicle.late first (by simp [times,same])
  refine ⟨first,rest,same,(rotates_iff chronicle.nonneg).mpr ?_⟩
  omega

theorem Chronicle.prefix_of {rotation : Int} {before after : List OPQMeasurement}
    (chronicle : Chronicle rotation (before ++ after)) :
    Chronicle rotation before := by
  obtain ⟨nonneg,filled,ordered,late⟩ := chronicle
  have whole : times (before ++ after) = times before ++ times after := List.flatMap_append ..
  rw [whole] at ordered late
  refine ⟨nonneg,fun m listed => filled m (List.mem_append_left _ listed),(List.pairwise_append.mp ordered).1,?_⟩
  intro t first
  exact late t (by rw [List.head?_append,first]; rfl)

theorem Chronicle.partition {rotation : Int} {ms : List OPQMeasurement} (chronicle : Chronicle rotation ms) :
    TimePartition rotation ms (keysOf rotation ms) := by
  obtain ⟨nonneg,filled,ordered,late⟩ := chronicle
  have since : ((0 : Nat) :: times ms).Pairwise (· ≤ ·) := List.pairwise_cons.mpr ⟨fun t _ => Nat.zero_le t,ordered⟩
  refine ⟨keysFrom_length ..,?_,(List.pairwise_cons.mp (keysFrom_apart nonneg 0 filled)).2,keysFrom_from filled since,
    keysFrom_next filled ordered⟩
  cases ms with
  | nil => simp [keysOf,keysFrom]
  | cons m ms =>
    obtain ⟨first,rest,same,opens⟩ := Chronicle.first ⟨nonneg,filled,ordered,late⟩
    have apart := rotates_apart nonneg opens
    have after := keysFrom_apart nonneg first (List.forall_mem_cons.mp filled).2
    intro k member
    rw [keysOf,keysFrom_cons same,if_pos opens] at member
    rcases List.mem_cons.mp member with rfl | later
    · omega
    · rcases (List.pairwise_cons.mp after).1 k later with is | further <;> omega

/-- The commands appended in a history, and as many replies. -/
theorem Chronicle.commands {wire : Wire Buffer} {answers : Nat → Bool} {boxId : BitVec 32} {ttl rotation : Int}
    {ms : List OPQMeasurement} (chronicle : Chronicle rotation ms) {s : RedisSerializer Buffer}
    (ran : run (sendToRedis wire answers) (.new boxId ttl rotation) ms = some s) :
    s.c.appended = (commandsOf wire boxId ttl [] ((keysOf rotation ms).zip ms)).flatten ∧
    s.c.replies = s.c.appended.length := by
  cases ms with
  | nil =>
    cases ran
    exact ⟨rfl,rfl⟩
  | cons m ms =>
    obtain ⟨first,rest,same,opens⟩ := chronicle.first
    obtain ⟨u,sent,ran⟩ := run_cons_inv ran
    rcases sendToRedis_cases same sent with ⟨_,rfl⟩ | ⟨stays,_⟩
    · obtain ⟨commands,are,appended,replies⟩ := run_commands (List.forall_mem_cons.mp chronicle.filled).2 ran chronicle.nonneg
        [crono_to_mili first] rfl (List.mem_singleton_self _) (fun k member => Nat.le_of_eq (List.mem_singleton.mp member))
      have keys : keysOf rotation (m :: ms) = crono_to_mili first :: keysFrom rotation first (crono_to_mili first) ms := by
        rw [keysOf,keysFrom_cons same,if_pos opens]
      constructor
      · rw [appended,are,keys]
        simp [commandsOf,RedisSerializer.new]
      · rw [replies,appended]
        simp [RedisSerializer.new]
        omega
    · exact absurd (stays.symm.trans opens) (by decide)

/-- The writer partitions time: there are keys for the measurements that are a
    partition, under which they are pushed call by call, each new key with its
    expiry and every command with its reply. The calls succeed where the replies
    are no errors. -/
theorem partitions_time {wire : Wire Buffer} {answers : Nat → Bool} {boxId : BitVec 32} {ttl rotation : Int}
    {ms : List OPQMeasurement} (chronicle : Chronicle rotation ms) :
    ∃ keys, TimePartition rotation ms keys ∧ ∀ before after, ms = before ++ after →
      ((∀ n, answers n = true) → ∃ s, run (sendToRedis wire answers) (.new boxId ttl rotation) before = some s) ∧
      ∀ s, run (sendToRedis wire answers) (.new boxId ttl rotation) before = some s →
        s.c.appended = (commandsOf wire boxId ttl [] (keys.zip before)).flatten ∧
        s.c.replies = s.c.appended.length := by
  refine ⟨keysOf rotation ms,chronicle.partition,?_⟩
  rintro before after rfl
  have earlier := chronicle.prefix_of
  refine ⟨fun answered => run_answered wire answered (fun m listed => (earlier.filled m listed).2) _,?_⟩
  intro s ran
  rw [keysOf,keysFrom_append_zip]
  exact earlier.commands ran

/-- A measurement of one cycle. -/
def measurementAt (timestamp : Nat) : OPQMeasurement := ⟨[⟨Vector.replicate _ 0,0,0,0⟩],[timestamp]⟩

/-- Measurements at 100, 105 and 112 seconds, rotated after ten: two lists, of two
    measurements and of one. -/
theorem partitions_time_three : ∃ keys, TimePartition 10
      [measurementAt 100000000000,measurementAt 105000000000,measurementAt 112000000000] keys ∧
    ∃ s, run (sendToRedis .plain fun _ => true) (.new 2 100 10)
        [measurementAt 100000000000,measurementAt 105000000000,measurementAt 112000000000] = some s ∧
      s.c.appended = (commandsOf .plain 2 100 []
        (keys.zip [measurementAt 100000000000,measurementAt 105000000000,measurementAt 112000000000])).flatten ∧
      s.c.replies = 5 := by
  have chronicle : Chronicle 10 [measurementAt 100000000000,measurementAt 105000000000,measurementAt 112000000000] := by
    refine ⟨by decide,?_,by decide,?_⟩
    · intro m listed
      simp only [List.mem_cons,List.not_mem_nil,or_false] at listed
      rcases listed with rfl | rfl | rfl <;> exact ⟨by decide,rfl⟩
    · intro t first
      cases first
      decide
  obtain ⟨keys,partition,calls⟩ := @partitions_time _ .plain (fun _ => true) 2 100 10 _ chronicle
  obtain ⟨succeeds,commands⟩ := calls _ [] (List.append_nil _).symm
  obtain ⟨s,ran⟩ := succeeds fun _ => rfl
  obtain ⟨appended,replies⟩ := commands s ran
  have five : s.c.appended.length = 5 := by
    cases ran
    rfl
  exact ⟨keys,partition,s,ran,appended,replies.trans five⟩

end Opqbox.RedisWriter
