import Opqbox.RedisWriter
import Opqbox.Scraper

/-!
What the acquisition daemon reads of the lists that the triggering daemon
wrote. The writer pushes on the head of a list and the reader scans from there,
so a list comes with its newest message first (`Written`), and what is returned
is in order of time only where that makes no difference (`sorted_iff`).
-/
namespace Opqbox.Retrieval
open Opqbox.Messages Opqbox.OpqData Opqbox.Runs Opqbox.Scraper Opqbox.RedisWriter

variable {Buffer : Type}

/-! ### The server -/

def push (key : String) (message : Buffer) : List (String × List Buffer) → List (String × List Buffer)
  | [] => [(key,[message])]
  | entry :: rest => if entry.1 = key then (key,message :: entry.2) :: rest else entry :: push key message rest

theorem push_keys (key : String) (message : Buffer) (lists : List (String × List Buffer)) :
    (push key message lists).map Prod.fst =
      if key ∈ lists.map Prod.fst then lists.map Prod.fst else lists.map Prod.fst ++ [key] := by
  induction lists with
  | nil => rfl
  | cons entry rest ih =>
    rw [push]
    by_cases is : entry.1 = key
    · simp [is]
    · rw [if_neg is,List.map_cons,ih,List.map_cons]
      by_cases listed : key ∈ rest.map Prod.fst <;> simp [listed,Ne.symm is]

/-- `LPUSH`: the message becomes the head of the list, which is created where it is missing. -/
def lpush (redis : Redis Buffer) (key : String) (message : Buffer) : Redis Buffer where
  lists := push key message redis.lists
  distinct := by
    rw [push_keys]
    split_ifs with listed
    · exact redis.distinct
    · refine List.nodup_append.mpr ⟨redis.distinct,List.nodup_singleton _,?_⟩
      rintro other member _ last rfl
      exact listed (List.mem_singleton.mp last ▸ member)

/-- A command as long as no key expires. -/
def execute (redis : Redis Buffer) : Command Buffer → Redis Buffer
  | .LPUSH key message => lpush redis key message
  | .EXPIRE _ _ => redis

def flushed : Redis Buffer := ⟨[],List.nodup_nil⟩

/-- The lists after the commands. -/
def contents (commands : List (Command Buffer)) : Redis Buffer := commands.foldl execute flushed

theorem lookup_push (key other : String) (message : Buffer) (lists : List (String × List Buffer)) :
    (push key message lists).lookup other =
      if other = key then some (message :: (lists.lookup key).getD []) else lists.lookup other := by
  induction lists with
  | nil =>
    rw [push,List.lookup_cons]
    by_cases is : other = key
    · simp [is]
    · have differs : (other == key) = false := by simpa using is
      simp [differs,is]
  | cons entry rest ih =>
    obtain ⟨key',messages⟩ := entry
    rw [push]
    by_cases same : key' = key
    · subst same
      rw [if_pos rfl,List.lookup_cons,List.lookup_cons_self,List.lookup_cons]
      by_cases is : other = key'
      · simp [is]
      · have differs : (other == key') = false := by simpa using is
        simp [differs,is]
    · have differs : (key == key') = false := by simpa using Ne.symm same
      rw [if_neg same,List.lookup_cons,List.lookup_cons,List.lookup_cons,ih,differs]
      by_cases is : other = key
      · simp [is,differs]
      · cases other == key' <;> simp [is]

/-! ### The lists of a history -/

/-- The messages under a key, the oldest first. -/
def under (wire : Wire Buffer) (boxId : BitVec 32) (k : Nat) (history : List (Nat × OPQMeasurement)) : List Buffer :=
  (history.filter (·.1 = k)).map fun e => messageOf wire boxId e.2

/-- Under each key are its messages, the newest first. -/
structure Holds (wire : Wire Buffer) (boxId : BitVec 32) (history : List (Nat × OPQMeasurement))
    (redis : Redis Buffer) : Prop where
  keys : ∀ key ∈ redis.keys, ∃ e ∈ history, key = e.1.repr
  lists : ∀ k : Nat, redis.lists.lookup k.repr =
    if under wire boxId k history = [] then none else some (under wire boxId k history).reverse

theorem Holds.push {wire : Wire Buffer} {boxId : BitVec 32} {history : List (Nat × OPQMeasurement)}
    {redis : Redis Buffer} (holds : Holds wire boxId history redis) (e : Nat × OPQMeasurement) :
    Holds wire boxId (history ++ [e]) (lpush redis e.1.repr (messageOf wire boxId e.2)) := by
  constructor
  · intro key member
    have among := push_keys e.1.repr (messageOf wire boxId e.2) redis.lists
    rw [Redis.keys,show (lpush redis e.1.repr (messageOf wire boxId e.2)).lists = Retrieval.push _ _ _ from rfl,among] at member
    have old_or_new : key ∈ redis.keys ∨ key = e.1.repr := by
      split_ifs at member
      · exact .inl member
      · exact (List.mem_append.mp member).imp_right List.mem_singleton.mp
    rcases old_or_new with old | rfl
    · obtain ⟨e',listed,rfl⟩ := holds.keys key old
      exact ⟨e',List.mem_append_left _ listed,rfl⟩
    · exact ⟨e,List.mem_append_right _ (List.mem_singleton_self _),rfl⟩
  · intro k
    rw [show (lpush redis e.1.repr (messageOf wire boxId e.2)).lists = Retrieval.push _ _ _ from rfl,lookup_push,
      holds.lists,holds.lists]
    by_cases is : k = e.1
    · have before : ((if under wire boxId e.1 history = [] then none else some (under wire boxId e.1 history).reverse).getD []) =
          (under wire boxId e.1 history).reverse := by
        split_ifs with empty <;> simp [empty]
      rw [is,if_pos rfl,before]
      simp [under,List.filter_append]
    · have other : ¬ k.repr = e.1.repr := fun same => is (key_injective same)
      have same : under wire boxId k (history ++ [e]) = under wire boxId k history := by
        simp [under,List.filter_append,Ne.symm is]
      rw [if_neg other,same]

/-- The expiries do not matter here. -/
theorem execute_commandsOf (wire : Wire Buffer) (boxId : BitVec 32) (ttl : Int) (used : List Nat)
    (history : List (Nat × OPQMeasurement))
    (redis : Redis Buffer) : (commandsOf wire boxId ttl used history).flatten.foldl execute redis =
      history.foldl (fun redis e => lpush redis e.1.repr (messageOf wire boxId e.2)) redis := by
  induction history generalizing used redis with
  | nil => rfl
  | cons e rest ih =>
    rw [commandsOf,List.flatten_cons,List.foldl_append,ih,List.foldl_cons]
    split_ifs <;> rfl

theorem holds_contents (wire : Wire Buffer) (boxId : BitVec 32) (ttl : Int) (history : List (Nat × OPQMeasurement)) :
    Holds wire boxId history (contents (commandsOf wire boxId ttl [] history).flatten) := by
  have pushed (before after : List (Nat × OPQMeasurement)) {redis : Redis Buffer} (holds : Holds wire boxId before redis) :
      Holds wire boxId (before ++ after)
        (after.foldl (fun redis e => lpush redis e.1.repr (messageOf wire boxId e.2)) redis) := by
    induction after generalizing before redis with
    | nil => simpa using holds
    | cons e rest ih => simpa using ih _ (holds.push e)
  rw [contents,execute_commandsOf]
  exact pushed [] _ ⟨fun key member => absurd member List.not_mem_nil,fun k => rfl⟩

/-! ### The order of what is read -/

def InOrder (cycles : List Cycle) : Prop := cycles.Pairwise fun x y => x.time ≤ y.time

/-- What the writer leaves: a partition of time, each message in order and each
    list with its newest message first. -/
structure Written (wire : Wire Buffer) (redis : Redis Buffer) : Prop extends Partitioned wire redis where
  inner : ∀ entry ∈ redis.lists, ∀ b ∈ entry.2, InOrder (cycles wire [b])
  newest : ∀ entry ∈ redis.lists, entry.2.Pairwise fun b b' => ∀ x ∈ cycles wire [b], ∀ y ∈ cycles wire [b'], y.time ≤ x.time

/-- The cycles of the window in different messages of a list have one time. -/
def Level (wire : Wire Buffer) (low high : Int) (buffers : List Buffer) : Prop :=
  buffers.Pairwise fun b b' => ∀ x ∈ cycles wire [b], ∀ y ∈ cycles wire [b'],
    inWindow low high x = true → inWindow low high y = true → x.time = y.time

section
variable {wire : Wire Buffer} {redis : Redis Buffer}

theorem cycles_filter (low high : Int) (buffers : List Buffer) : (cycles wire buffers).filter (inWindow low high) =
    buffers.flatMap fun b => (cycles wire [b]).filter (inWindow low high) := by
  rw [cycles,List.filter_flatMap]
  simp [cycles]

/-- The cycles of the window in a list are in order where they have one time
    in different messages. -/
theorem inOrder_iff_level (written : Written wire redis) {entry : String × List Buffer}
    (listed : entry ∈ redis.lists) (low high : Int) :
    InOrder ((cycles wire entry.2).filter (inWindow low high)) ↔ Level wire low high entry.2 := by
  have newest := written.newest entry listed
  rw [cycles_filter,InOrder,List.pairwise_flatMap,Level]
  constructor
  · rintro ⟨_,across⟩
    refine (across.and newest).imp ?_
    rintro b b' ⟨up,down⟩ x member y member' inside inside'
    exact Nat.le_antisymm (up x (List.mem_filter.mpr ⟨member,inside⟩) y (List.mem_filter.mpr ⟨member',inside'⟩))
      (down x member y member')
  · intro level
    refine ⟨fun b member => (written.inner entry listed b member).filter _,level.imp ?_⟩
    intro b b' same x member y member'
    obtain ⟨member,inside⟩ := List.mem_filter.mp member
    obtain ⟨member',inside'⟩ := List.mem_filter.mp member'
    exact Nat.le_of_eq (same x member y member' inside inside')

/-- Cycles are only found under keys. -/
theorem inRange_key (parts : Partitioned wire redis) {low high key : Int} {x : Cycle}
    (inside : x ∈ inRange wire redis low high key) :
    ∃ k : Nat, key = k ∧ 0 < k ∧ k.repr ∈ redis.keys := by
  have filled : redis.lrange key ≠ [] := by
    intro empty
    rw [inRange,empty] at inside
    cases inside
  rw [Redis.lrange] at filled
  cases found : redis.lists.lookup key.repr with
  | none => simp [found] at filled
  | some buffers =>
    obtain ⟨l₁,l₂,split,_⟩ := List.lookup_eq_some_iff.mp found
    have isKey : key.repr ∈ redis.keys := by
      rw [Redis.keys,split]
      simp
    obtain ⟨k,positive,same⟩ := parts.decimal _ isKey
    refine ⟨k,?_,positive,same ▸ isKey⟩
    exact repr_injective same

/-- Cycles under different keys are in the order of the keys. -/
theorem inRange_between (parts : Partitioned wire redis) {low high a b : Int} (before : a < b) :
    ∀ x ∈ inRange wire redis low high a, ∀ y ∈ inRange wire redis low high b, x.time ≤ y.time := by
  intro x inside y inside'
  obtain ⟨k,rfl,_,isKey⟩ := inRange_key parts inside
  obtain ⟨j,rfl,_,isKey'⟩ := inRange_key parts inside'
  obtain ⟨_,_,to_next⟩ := parts.inRange_bounds isKey inside
  obtain ⟨_,from_key,_⟩ := parts.inRange_bounds isKey' inside'
  exact (to_next j isKey' (by omega)).trans from_key

/-- The keys are read in order; before the first there may be one that is none. -/
theorem readout_ordered (parts : Partitioned wire redis) {numbers : List Nat} (same : redis.keys = numbers.map Nat.repr)
    {low high : Int} (any : ∃ k ∈ numbers, low < k ∧ k < high) :
    (readoutKeys low high (scanned numbers) [] 0).Pairwise fun a b => a < b ∨ inRange wire redis low high a = [] := by
  have sorted := scanned_sorted same
  obtain ⟨k,listed,inside⟩ := any
  obtain ⟨before,reads,is⟩ := readoutKeys_some sorted ⟨k,mem_scanned.mpr ⟨k,listed,rfl⟩,inside⟩ 0
  -- The next key is after those of the window.
  have beyond : ∀ b ∈ ((scanned numbers).find? (high < ·)).toList, high < b := by
    intro b member
    simpa using List.find?_some (Option.mem_toList.mp member)
  have window : ∀ a ∈ (scanned numbers).filter (fun k => low < k ∧ k < high), low < a ∧ a < high := by
    intro a member
    simpa using (List.mem_filter.mp member).2
  rw [reads]
  refine List.pairwise_append.mpr ⟨List.pairwise_cons.mpr ⟨?_,(sorted.filter _).imp fun less => .inl less⟩,?_,?_⟩
  · intro a member
    obtain ⟨above,_⟩ := window a member
    rcases is with ⟨rfl,_⟩ | ⟨_,below,_⟩
    · refine .inr (List.eq_nil_iff_forall_not_mem.mpr ?_)
      intro x inside
      obtain ⟨k,zero,positive,_⟩ := inRange_key parts inside
      omega
    · exact .inl (by omega)
  · cases (scanned numbers).find? (high < ·) <;> simp
  · intro a member b next
    have after := beyond b next
    rcases List.mem_cons.mp member with rfl | among
    · rcases is with ⟨rfl,_⟩ | ⟨_,below,_⟩
      · refine .inr (List.eq_nil_iff_forall_not_mem.mpr ?_)
        intro x inside
        obtain ⟨k,zero,positive,_⟩ := inRange_key parts inside
        omega
      · exact .inl (by omega)
    · obtain ⟨_,below⟩ := window a among
      exact .inl (by omega)

/-- What `getRange` returns is in order of time exactly where no key lies in the
    window or all lists are level in it. -/
theorem sorted_iff (written : Written wire redis) (low high : Int) :
    (∃ message, getRange wire redis low high = .ok message ∧ InOrder message.cycles) ↔
      (∀ k : Nat, k.repr ∈ redis.keys → ¬ (low < k ∧ k < high)) ∨
      ∀ entry ∈ redis.lists, Level wire low high entry.2 := by
  have parts := written.toPartitioned
  obtain ⟨numbers,same,_⟩ := parts.numbers
  have isKey : ∀ k : Nat, k.repr ∈ redis.keys ↔ k ∈ numbers := by
    intro k
    rw [same,List.mem_map]
    exact ⟨fun ⟨j,listed,repr⟩ => key_injective repr ▸ listed,fun listed => ⟨k,listed,rfl⟩⟩
  rw [getRange_ok parts same]
  simp only [Except.ok.injEq,exists_eq_left',isKey]
  by_cases any : ∃ k ∈ numbers, low < k ∧ k < high
  · rw [InOrder,List.pairwise_flatMap]
    constructor
    · rintro ⟨each,_⟩
      refine .inr ?_
      intro entry listed
      obtain ⟨k,_,same'⟩ := parts.decimal entry.1 (List.mem_map_of_mem listed)
      have buffers : redis.lrange k = entry.2 := by
        rw [Redis.lrange,show (k : Int).repr = entry.1 from same'.symm,Redis.lookup_eq listed,Option.getD_some]
      rw [← inOrder_iff_level written listed]
      by_cases filled : inRange wire redis low high k = []
      · rw [inRange,buffers] at filled
        rw [filled]
        exact List.Pairwise.nil
      · have number : k ∈ numbers := (isKey k).mp (same' ▸ List.mem_map_of_mem listed)
        have read := each k (read_of_inRange parts same any (mem_scanned.mpr ⟨k,number,rfl⟩) filled)
        rwa [inRange,buffers] at read
    · rintro (none | level)
      · obtain ⟨k,listed,inside⟩ := any
        exact absurd inside (none k listed)
      · refine ⟨?_,(readout_ordered parts same any).imp ?_⟩
        · intro key _
          by_cases filled : inRange wire redis low high key = []
          · rw [filled]
            exact List.Pairwise.nil
          · obtain ⟨x,member⟩ := List.exists_mem_of_ne_nil _ filled
            obtain ⟨k,rfl,_,isKey'⟩ := inRange_key parts member
            have listed := Redis.lrange_listed isKey'
            exact (inOrder_iff_level written listed low high).mpr (level _ listed)
        · rintro a b (before | empty)
          · exact inRange_between parts before
          · simp [empty]
  · have none : ∀ k ∈ numbers, ¬ (low < k ∧ k < high) := fun k listed inside => any ⟨k,listed,inside⟩
    rw [readout_empty parts same none]
    exact ⟨fun _ => .inl none,fun _ => List.Pairwise.nil⟩

end

/-! ### Histories -/

theorem cycles_messageOf (wire : Wire Buffer) (boxId : BitVec 32) (m : OPQMeasurement) :
    cycles wire [messageOf wire boxId m] = List.zipWith protocycle m.cycles m.timestamps := by
  simp [cycles,messageOf,wire.data_kept]

/-- Each cycle of a message has the time of a timestamp. -/
theorem mem_cycles_messageOf {wire : Wire Buffer} {boxId : BitVec 32} {m : OPQMeasurement} {x : Cycle}
    (member : x ∈ cycles wire [messageOf wire boxId m]) : ∃ t ∈ m.timestamps, x.time = crono_to_mili t := by
  rw [cycles_messageOf] at member
  obtain ⟨i,inside,is⟩ := List.getElem_of_mem member
  rw [List.getElem_zipWith] at is
  exact ⟨_,List.getElem_mem _,by rw [← is]; rfl⟩

theorem inOrder_messageOf {wire : Wire Buffer} {boxId : BitVec 32} {m : OPQMeasurement}
    (ordered : m.timestamps.Pairwise (· ≤ ·)) :
    InOrder (cycles wire [messageOf wire boxId m]) := by
  rw [cycles_messageOf,InOrder]
  generalize m.timestamps = timestamps at ordered
  generalize m.cycles = cycles
  induction cycles generalizing timestamps with
  | nil => simp
  | cons cycle cycles ih =>
    cases timestamps with
    | nil => simp
    | cons t timestamps =>
      obtain ⟨later,order⟩ := List.pairwise_cons.mp ordered
      refine List.pairwise_cons.mpr ⟨?_,ih timestamps order⟩
      intro y member
      obtain ⟨i,inside,is⟩ := List.getElem_of_mem member
      rw [List.getElem_zipWith] at is
      rw [← is]
      exact crono_to_mili_le (later _ (List.getElem_mem _))

/-- An entry of the contents is the list of a key. -/
theorem Holds.entry {wire : Wire Buffer} {boxId : BitVec 32} {history : List (Nat × OPQMeasurement)}
    {redis : Redis Buffer}
    (holds : Holds wire boxId history redis) {entry : String × List Buffer} (listed : entry ∈ redis.lists) :
    ∃ e ∈ history, entry.1 = e.1.repr ∧ entry.2 = (under wire boxId e.1 history).reverse := by
  obtain ⟨e,among,same⟩ := holds.keys entry.1 (List.mem_map_of_mem listed)
  have found := Redis.lookup_eq listed
  rw [same,holds.lists] at found
  split_ifs at found
  exact ⟨e,among,same,(Option.some.inj found).symm⟩

theorem mem_under {wire : Wire Buffer} {boxId : BitVec 32} {k : Nat} {history : List (Nat × OPQMeasurement)}
    {b : Buffer}
    (member : b ∈ under wire boxId k history) : ∃ e ∈ history, e.1 = k ∧ b = messageOf wire boxId e.2 := by
  obtain ⟨e,among,rfl⟩ := List.mem_map.mp member
  obtain ⟨listed,is⟩ := List.mem_filter.mp among
  exact ⟨e,listed,by simpa using is,rfl⟩

/-- What is stored under a key is before every later key. -/
theorem earlier {rotation : Int} {ms : List OPQMeasurement} {keys : List Nat}
    (partition : TimePartition rotation ms keys)
    (nonneg : 0 ≤ rotation) : ∀ e ∈ keys.zip ms, ∀ e' ∈ keys.zip ms, e.1 < e'.1 →
    ∀ t ∈ e.2.timestamps, crono_to_mili t ≤ e'.1 := by
  have ascending : (keys.zip ms).Pairwise fun e e' => e.1 ≤ e'.1 := by
    rw [← List.pairwise_map (f := Prod.fst) (R := (· ≤ ·)),List.map_fst_zip partition.length.le]
    exact partition.apart.imp fun apart => by omega
  intro e among e' among' less
  obtain ⟨i,inside,rfl⟩ := List.getElem_of_mem among
  obtain ⟨j,inside',rfl⟩ := List.getElem_of_mem among'
  rcases Nat.lt_trichotomy i j with before | rfl | after
  · exact List.pairwise_iff_getElem.mp partition.to_next i j inside inside' before less
  · exact absurd less (Nat.lt_irrefl _)
  · have le := List.pairwise_iff_getElem.mp ascending j i inside' inside after
    omega

/-- A history leaves a partition of time with the newest messages first. -/
theorem written_contents {wire : Wire Buffer} {boxId : BitVec 32} {ttl rotation : Int} {ms : List OPQMeasurement}
    (chronicle : Chronicle rotation ms) :
    Written wire (contents (commandsOf wire boxId ttl [] ((keysOf rotation ms).zip ms)).flatten) := by
  have partition := chronicle.partition
  have holds := holds_contents wire boxId ttl ((keysOf rotation ms).zip ms)
  have measured : ((keysOf rotation ms).zip ms).map Prod.snd = ms := List.map_snd_zip partition.length.ge
  have isKey {e : Nat × OPQMeasurement} (among : e ∈ (keysOf rotation ms).zip ms) : e.1 ∈ keysOf rotation ms :=
    (List.of_mem_zip among).1
  -- The time of a cycle in a list, by the entry of the history it is from.
  have from_list {entry : String × List Buffer} (listed : entry ∈ (contents (commandsOf wire boxId ttl []
      ((keysOf rotation ms).zip ms)).flatten).lists) {k : Nat} (same : entry.1 = k.repr) {x : Cycle}
      (member : x ∈ cycles wire entry.2) :
      ∃ e ∈ (keysOf rotation ms).zip ms, e.1 = k ∧ ∃ t ∈ e.2.timestamps, x.time = crono_to_mili t := by
    obtain ⟨e,_,same',buffers⟩ := holds.entry listed
    have key := key_injective (same'.symm.trans same)
    rw [buffers,cycles] at member
    obtain ⟨b,among,member⟩ := List.mem_flatMap.mp member
    obtain ⟨e',listed',isThis,rfl⟩ := mem_under (List.mem_reverse.mp among)
    have inMessage : x ∈ cycles wire [messageOf wire boxId e'.2] := by
      rw [cycles]
      simpa using member
    exact ⟨e',listed',isThis.trans key,mem_cycles_messageOf inMessage⟩
  obtain ⟨each,across⟩ := List.pairwise_flatMap.mp chronicle.ordered
  constructor
  · constructor
    · intro key member
      obtain ⟨e,among,same⟩ := holds.keys key member
      exact ⟨e.1,partition.positive e.1 (isKey among),same⟩
    · intro entry listed b member
      obtain ⟨e,_,_,buffers⟩ := holds.entry listed
      rw [buffers] at member
      obtain ⟨e',_,_,rfl⟩ := mem_under (List.mem_reverse.mp member)
      simp [messageOf,wire.data_kept]
    · intro k buffers listed x member
      obtain ⟨e,among,rfl,t,stamped,time⟩ := from_list listed rfl member
      rw [time]
      exact partition.from_key e among t stamped
    · intro k next buffers listed key later _ x member
      obtain ⟨e,among,rfl,t,stamped,time⟩ := from_list listed rfl member
      obtain ⟨e',among',same⟩ := holds.keys _ key
      have is := key_injective same
      rw [time,is]
      exact earlier partition chronicle.nonneg e among e' among' (is ▸ later) t stamped
  · intro entry listed b member
    obtain ⟨e,_,_,buffers⟩ := holds.entry listed
    rw [buffers] at member
    obtain ⟨e',among,_,rfl⟩ := mem_under (List.mem_reverse.mp member)
    exact inOrder_messageOf (each e'.2 (List.of_mem_zip among).2)
  · intro entry listed
    obtain ⟨e,_,_,buffers⟩ := holds.entry listed
    rw [← measured,List.pairwise_map] at across
    rw [buffers,List.pairwise_reverse,under,List.pairwise_map]
    refine (across.filter _).imp ?_
    intro a b before x member y member'
    obtain ⟨t,stamped,time⟩ := mem_cycles_messageOf member
    obtain ⟨u,stamped',time'⟩ := mem_cycles_messageOf member'
    rw [time,time']
    exact crono_to_mili_le (before u stamped' t stamped)

/-- A time in the window, in milliseconds. -/
def Inside (low high : Int) (timestamp : Nat) : Prop :=
  low < crono_to_mili timestamp ∧ (crono_to_mili timestamp : Int) < high

/-- Two measurements under one key have one time in the window. -/
def LevelHistory (low high : Int) (history : List (Nat × OPQMeasurement)) : Prop :=
  history.Pairwise fun e e' => e.1 = e'.1 → ∀ t ∈ e.2.timestamps, ∀ u ∈ e'.2.timestamps,
    Inside low high t → Inside low high u → crono_to_mili t = crono_to_mili u

theorem Holds.isKey {wire : Wire Buffer} {boxId : BitVec 32} {history : List (Nat × OPQMeasurement)}
    {redis : Redis Buffer}
    (holds : Holds wire boxId history redis) (k : Nat) : k.repr ∈ redis.keys ↔ ∃ e ∈ history, e.1 = k := by
  constructor
  · intro member
    obtain ⟨e,among,same⟩ := holds.keys _ member
    exact ⟨e,among,(key_injective same).symm⟩
  · rintro ⟨e,among,rfl⟩
    have filled : under wire boxId e.1 history ≠ [] :=
      List.ne_nil_of_mem (List.mem_map_of_mem (List.mem_filter.mpr ⟨among,by simp⟩))
    obtain ⟨l₁,l₂,split,_⟩ := List.lookup_eq_some_iff.mp ((holds.lists e.1).trans (if_neg filled))
    rw [Redis.keys,split]
    simp

/-- A message holds a cycle for each timestamp. -/
theorem stamped_iff {wire : Wire Buffer} {boxId : BitVec 32} {m : OPQMeasurement} (filled : Filled m) {P : Nat → Prop} :
    (∀ x ∈ cycles wire [messageOf wire boxId m], P x.time) ↔ ∀ t ∈ m.timestamps, P (crono_to_mili t) := by
  have stamps : (cycles wire [messageOf wire boxId m]).map Cycle.time = m.timestamps.map crono_to_mili := by
    rw [cycles_messageOf,List.map_zipWith]
    refine List.ext_getElem (by simp [filled.2]) ?_
    intro i _ _
    simp [protocycle]
  rw [← List.forall_mem_map,stamps,List.forall_mem_map]

/-- Two messages are level where their measurements are. -/
theorem level_pair_iff {wire : Wire Buffer} {boxId : BitVec 32} {m m' : OPQMeasurement} (filled : Filled m)
    (filled' : Filled m') (low high : Int) :
    (∀ x ∈ cycles wire [messageOf wire boxId m], ∀ y ∈ cycles wire [messageOf wire boxId m'],
      inWindow low high x = true → inWindow low high y = true → x.time = y.time) ↔
    ∀ t ∈ m.timestamps, ∀ u ∈ m'.timestamps, Inside low high t → Inside low high u →
    crono_to_mili t = crono_to_mili u := by
  simp only [inWindow,Bool.and_eq_true,decide_eq_true_eq]
  rw [stamped_iff filled (P := fun time => ∀ y ∈ cycles wire [messageOf wire boxId m'],
    low < time ∧ (time : Int) < high → low < y.time ∧ (y.time : Int) < high → time = y.time)]
  refine forall₂_congr fun t _ => ?_
  rw [stamped_iff filled' (P := fun time => low < crono_to_mili t ∧ (crono_to_mili t : Int) < high →
    low < time ∧ (time : Int) < high → crono_to_mili t = time)]
  rfl

/-- The lists are level where the history is. -/
theorem Holds.level_iff {wire : Wire Buffer} {boxId : BitVec 32} {history : List (Nat × OPQMeasurement)}
    {redis : Redis Buffer}
    (holds : Holds wire boxId history redis) (filled : ∀ e ∈ history, Filled e.2) (low high : Int) :
    (∀ entry ∈ redis.lists, Level wire low high entry.2) ↔ LevelHistory low high history := by
  -- A list is the history of one key, turned round.
  have list (k : Nat) : Level wire low high (under wire boxId k history).reverse ↔
      history.Pairwise fun e e' => e.1 = k → e'.1 = k → ∀ t ∈ e.2.timestamps, ∀ u ∈ e'.2.timestamps,
        Inside low high t → Inside low high u → crono_to_mili t = crono_to_mili u := by
    rw [Level,List.pairwise_reverse,under,List.pairwise_map,List.pairwise_filter]
    refine List.Pairwise.iff_of_mem ?_
    intro e e' among among'
    simp only [decide_eq_true_eq]
    refine imp_congr_right fun _ => imp_congr_right fun _ => ?_
    rw [level_pair_iff (filled e' among') (filled e among)]
    exact ⟨fun level t stamped u stamped' inside inside' => (level u stamped' t stamped inside' inside).symm,
      fun level u stamped' t stamped inside' inside => (level t stamped u stamped' inside inside').symm⟩
  constructor
  · intro level
    have each (k : Nat) : Level wire low high (under wire boxId k history).reverse := by
      by_cases filled : under wire boxId k history = []
      · rw [filled]
        exact List.Pairwise.nil
      · obtain ⟨l₁,l₂,split,_⟩ := List.lookup_eq_some_iff.mp ((holds.lists k).trans (if_neg filled))
        exact level (k.repr,_) (by rw [split]; simp)
    refine List.pairwise_iff_getElem.mpr ?_
    intro i j inside inside' before same
    exact List.pairwise_iff_getElem.mp ((list _).mp (each history[j].1)) i j inside inside' before same rfl
  · intro level entry listed
    obtain ⟨e,_,_,buffers⟩ := holds.entry listed
    rw [buffers,list]
    exact level.imp fun pair is is' => pair (is.trans is'.symm)

/-- Measurements without a cycle change nothing. -/
theorem run_filled (wire : Wire Buffer) (answers : Nat → Bool) (s : RedisSerializer Buffer) {ms : List OPQMeasurement}
    (lengths : ∀ m ∈ ms, m.timestamps.length = m.cycles.length) :
    run (sendToRedis wire answers) s ms = run (sendToRedis wire answers) s (ms.filter fun m => !m.cycles.isEmpty) := by
  induction ms generalizing s with
  | nil => rfl
  | cons m ms ih =>
    obtain ⟨own,others⟩ := List.forall_mem_cons.mp lengths
    by_cases empty : m.cycles = []
    · have none : m.timestamps = [] := by
        rw [empty,List.length_nil,List.length_eq_zero_iff] at own
        exact own
      have unchanged : sendToRedis wire answers s m = some s := by
        simp [sendToRedis,serialize_to_protobuf,none,empty]
      rw [run_cons unchanged,List.filter_cons_of_neg (by simp [empty])]
      exact ih s others
    · rw [List.filter_cons_of_pos (by simpa using empty)]
      cases sent : sendToRedis wire answers s m with
      | none => simp [run,sent]
      | some t =>
        rw [run_cons sent,run_cons sent]
        exact ih t others

/-- What the acquisition daemon reads of a history is in order of time exactly
    where no key lies in the window or the measurements under each key have one
    time in it. A `Chronicle` leaves out the measurements without a cycle, which
    change nothing (`run_filled`). -/
theorem retrieved_sorted_iff {wire : Wire Buffer} {answers : Nat → Bool} {boxId : BitVec 32} {ttl rotation : Int}
    {ms : List OPQMeasurement} (chronicle : Chronicle rotation ms) {s : RedisSerializer Buffer}
    (ran : run (sendToRedis wire answers) (.new boxId ttl rotation) ms = some s) (low high : Int) :
    (∃ message, getRange wire (contents s.c.appended) low high = .ok message ∧ InOrder message.cycles) ↔
      (∀ k ∈ keysOf rotation ms, ¬ (low < k ∧ k < high)) ∨ LevelHistory low high ((keysOf rotation ms).zip ms) := by
  obtain ⟨appended,_⟩ := chronicle.commands ran
  have holds := holds_contents wire boxId ttl ((keysOf rotation ms).zip ms)
  have length : (keysOf rotation ms).length = ms.length := keysFrom_length ..
  have isKey (k : Nat) : (∃ e ∈ (keysOf rotation ms).zip ms, e.1 = k) ↔ k ∈ keysOf rotation ms := by
    rw [← List.mem_map,List.map_fst_zip length.le]
  rw [appended,sorted_iff (written_contents chronicle) low high,
    holds.level_iff (fun e among => chronicle.filled _ (List.of_mem_zip among).2)]
  simp only [holds.isKey,isKey]

/-- Measurements at 100 and 105 seconds, stored in one list. -/
def oneList : List OPQMeasurement := [measurementAt 100000000000,measurementAt 105000000000]

theorem oneList_chronicle : Chronicle 10 oneList := by
  refine ⟨by decide,?_,by decide,?_⟩
  · intro m listed
    simp only [oneList,List.mem_cons,List.not_mem_nil,or_false] at listed
    rcases listed with rfl | rfl <;> exact ⟨by decide,rfl⟩
  · intro t first
    cases first
    decide

theorem oneList_run : ∃ s, run (sendToRedis .plain fun _ => true) (.new 2 100 10) oneList = some s := ⟨_,rfl⟩

/-- A window with the first of them only. -/
theorem retrieved_sorted_iff_first : ∃ s, run (sendToRedis .plain fun _ => true) (.new 2 100 10) oneList = some s ∧
    ∃ message, getRange .plain (contents s.c.appended) 99999 104000 = .ok message ∧ InOrder message.cycles := by
  obtain ⟨s,ran⟩ := oneList_run
  refine ⟨s,ran,(retrieved_sorted_iff oneList_chronicle ran 99999 104000).mpr (.inr ?_)⟩
  refine List.pairwise_cons.mpr ⟨?_,List.pairwise_singleton ..⟩
  intro e' member _ t _ u stamped _ inside
  obtain rfl := List.mem_singleton.mp member
  obtain rfl := List.mem_singleton.mp stamped
  exact absurd inside.2 (by decide)

/-- A window with both: the later one is returned first. -/
theorem getRange_newest_first : Chronicle 10 oneList ∧
    ∃ s, run (sendToRedis .plain fun _ => true) (.new 2 100 10) oneList = some s ∧
      ∃ message, getRange .plain (contents s.c.appended) 99999 106000 = .ok message ∧
        message.cycles.map Cycle.time = [105000,100000] ∧ ¬ InOrder message.cycles := by
  obtain ⟨s,ran⟩ := oneList_run
  obtain ⟨appended,_⟩ := oneList_chronicle.commands ran
  have written : Written .plain (contents (commandsOf .plain 2 100 [] ((keysOf 10 oneList).zip oneList)).flatten) :=
    written_contents oneList_chronicle
  have keys : (contents (commandsOf .plain 2 100 [] ((keysOf 10 oneList).zip oneList)).flatten).keys =
    [100000].map Nat.repr := rfl
  refine ⟨oneList_chronicle,s,ran,?_⟩
  rw [appended]
  refine ⟨_,getRange_ok written.toPartitioned keys 99999 106000,rfl,?_⟩
  intro ordered
  have times := List.pairwise_map.mpr ordered
  exact absurd (show [105000,100000].Pairwise (· ≤ ·) from times) (by decide)

end Opqbox.Retrieval
