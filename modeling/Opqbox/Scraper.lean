import Mathlib.Data.Int.Basic
import Mathlib.Data.List.Flatten
import Mathlib.Data.List.Sort
import Opqbox.Messages
import Opqbox.Text

/-!
`RedisScraper.getRange`: which lists it reads for a window of time, and when
they hold every cycle of the window. The lists are a partition of time
(`Partitioned`): the list under a key holds cycles from that time up to the
next key.
-/
namespace Opqbox.Scraper
open Opqbox.Messages Opqbox.Text

variable {Buffer : Type}

/-- The contents of Redis: the lists under their keys. -/
structure Redis (Buffer : Type) where
  lists : List (String × List Buffer)
  distinct : (lists.map Prod.fst).Nodup

def Redis.keys (redis : Redis Buffer) : List String := redis.lists.map Prod.fst

/-- `LRANGE key 0 -1`, for a number as key. -/
def Redis.lrange (redis : Redis Buffer) (key : Int) : List Buffer := (redis.lists.lookup key.repr).getD []

/-- The number that the digits of a text make. -/
def natural (s : Str) : Option Int :=
  if s ≠ [] ∧ s.all Char.isDigit then some (Nat.ofDigitChars 10 s 0) else none

/-- The number of a text: digits with a sign, and whitespace around them. -/
def number (s : Str) : Option Int :=
  match strip s with
  | '+' :: digits => natural digits
  | '-' :: digits => (natural digits).map fun n => -n
  | digits => natural digits

/-- `int` of a string, as Python 2 has it. -/
def int (s : String) : Except PyError Int :=
  match number s.toList with
  | some n => .ok n
  | none => .error .ValueError

/-- The loop over the sorted keys in `getRange`. -/
def readoutKeys (low high : Int) : List Int → List Int → Int → List Int
  | [], readout_keys, _ => readout_keys
  | key :: keys, readout_keys, last_key =>
    if low < key ∧ key < high then
      readoutKeys low high keys ((if readout_keys.length = 0 then readout_keys ++ [last_key] else readout_keys) ++ [key]) key
    else if key > high then readout_keys ++ [key]
    else readoutKeys low high keys readout_keys key

def inWindow (low high : Int) (x : Cycle) : Bool := low < x.time && x.time < high

/-- The loop over the buffers of a list. -/
def readBuffers (wire : Wire Buffer) (low high : Int) : List Buffer → DataMessage → Except PyError DataMessage
  | [], message => .ok message
  | buffer :: buffers, message =>
    match wire.parseData buffer with
    | none => .error .DecodeError
    | some data =>
      readBuffers wire low high buffers { message with cycles := message.cycles ++ data.cycles.filter (inWindow low high) }

/-- The loop over the keys to read. -/
def readLists (wire : Wire Buffer) (redis : Redis Buffer) (low high : Int) :
    List Int → DataMessage → Except PyError DataMessage
  | [], message => .ok message
  | key :: keys, message => do
    readLists wire redis low high keys (← readBuffers wire low high (redis.lrange key) message)

def getRange (wire : Wire Buffer) (redis : Redis Buffer) (low high : Int) : Except PyError DataMessage := do
  let keys ← redis.keys.mapM int
  let keys := keys.insertionSort (· ≤ ·)
  readLists wire redis low high (readoutKeys low high keys [] 0) .empty

/-! ### The keys that are read -/

/-- Where no key lies in the window, only the next key after it is read. -/
theorem readoutKeys_none {low high : Int} {keys : List Int} (outside : ∀ k ∈ keys, ¬ (low < k ∧ k < high)) (last_key : Int) :
    readoutKeys low high keys [] last_key = (keys.find? (high < ·)).toList := by
  induction keys generalizing last_key with
  | nil => rfl
  | cons key keys ih =>
    rw [readoutKeys,if_neg (outside key (List.mem_cons_self ..))]
    by_cases beyond : high < key
    · simp [beyond]
    · rw [if_neg beyond,ih (fun k member => outside k (List.mem_cons_of_mem _ member)),List.find?_cons_of_neg (by simpa using beyond)]

/-- Once a key is chosen, all further keys of the window are, and the next one. -/
theorem readoutKeys_more {low high : Int} {keys : List Int} (sorted : keys.Pairwise (· < ·)) {readout_keys : List Int}
    (chosen : readout_keys ≠ []) (last_key : Int) : readoutKeys low high keys readout_keys last_key =
      readout_keys ++ keys.filter (fun k => low < k ∧ k < high) ++ (keys.find? (high < ·)).toList := by
  induction keys generalizing readout_keys last_key with
  | nil => simp [readoutKeys]
  | cons key keys ih =>
    obtain ⟨later,rest⟩ := List.pairwise_cons.mp sorted
    rw [readoutKeys]
    by_cases inside : low < key ∧ key < high
    · have nonempty : ¬ readout_keys.length = 0 := by simpa using chosen
      rw [if_pos inside,if_neg nonempty,ih rest (by simp),List.filter_cons_of_pos (by simpa using inside),
        List.find?_cons_of_neg (by simp; omega)]
      simp
    · rw [if_neg inside,List.filter_cons_of_neg (by simpa using inside)]
      by_cases beyond : high < key
      · have rest_outside : keys.filter (fun k => low < k ∧ k < high) = [] := by
          refine List.filter_eq_nil_iff.mpr ?_
          intro k member
          have after := later k member
          simp
          omega
        rw [if_pos beyond,rest_outside,List.find?_cons_of_pos (by simpa using beyond)]
        simp
      · rw [if_neg beyond,ih rest chosen,List.find?_cons_of_neg (by simpa using beyond)]

/-- Where keys lie in the window, they are read between the key before the
    window, or `last_key` where there is none, and the key after it. -/
theorem readoutKeys_some {low high : Int} {keys : List Int} (sorted : keys.Pairwise (· < ·))
    (any : ∃ k ∈ keys, low < k ∧ k < high) (last_key : Int) :
    ∃ before, readoutKeys low high keys [] last_key =
        before :: keys.filter (fun k => low < k ∧ k < high) ++ (keys.find? (high < ·)).toList ∧
      ((before = last_key ∧ ∀ k ∈ keys, low < k) ∨ (before ∈ keys ∧ before ≤ low ∧ ∀ k ∈ keys, k ≤ low → k ≤ before)) := by
  induction keys generalizing last_key with
  | nil => simp at any
  | cons key keys ih =>
    obtain ⟨later,rest⟩ := List.pairwise_cons.mp sorted
    rw [readoutKeys]
    by_cases inside : low < key ∧ key < high
    · refine ⟨last_key,?_,.inl ⟨rfl,?_⟩⟩
      · rw [if_pos inside,if_pos List.length_nil,readoutKeys_more rest (by simp),List.filter_cons_of_pos (by simpa using inside),
          List.find?_cons_of_neg (by simp; omega)]
        simp
      · intro k member
        rcases List.mem_cons.mp member with rfl | behind
        · exact inside.1
        · have after := later k behind
          omega
    · -- A key of the window is still to come, so this one lies before it.
      obtain ⟨k,member,low_k,k_high⟩ := any
      have behind : k ∈ keys := by
        rcases List.mem_cons.mp member with rfl | behind
        · exact absurd ⟨low_k,k_high⟩ inside
        · exact behind
      have after := later k behind
      have below : key ≤ low := by omega
      obtain ⟨before,reads,is⟩ := ih rest ⟨k,behind,low_k,k_high⟩ key
      refine ⟨before,?_,.inr ?_⟩
      · rw [if_neg inside,if_neg (by omega),reads,List.filter_cons_of_neg (by simpa using inside),
          List.find?_cons_of_neg (by simp; omega)]
      · rcases is with ⟨rfl,all⟩ | ⟨listed,under,largest⟩
        · refine ⟨List.mem_cons_self ..,below,?_⟩
          intro j other under
          rcases List.mem_cons.mp other with rfl | later'
          · exact Int.le_refl _
          · have := all j later'
            omega
        · refine ⟨List.mem_cons_of_mem _ listed,under,?_⟩
          intro j other under'
          rcases List.mem_cons.mp other with rfl | later'
          · exact Int.le_of_lt (later before listed)
          · exact largest j later' under'

/-! ### The cycles that are read -/

/-- The cycles in the messages of a list. -/
def cycles (wire : Wire Buffer) (buffers : List Buffer) : List Cycle :=
  buffers.flatMap fun b => ((wire.parseData b).map DataMessage.cycles).getD []

/-- All cycles in Redis. -/
def stored (wire : Wire Buffer) (redis : Redis Buffer) : List Cycle :=
  redis.lists.flatMap fun entry => cycles wire entry.2

/-- What the writer leaves in Redis: under each key, a time in milliseconds, are
    messages whose cycles are not before that time and not after the next key. -/
structure Partitioned (wire : Wire Buffer) (redis : Redis Buffer) : Prop where
  decimal : ∀ key ∈ redis.keys, ∃ k : Nat, 0 < k ∧ key = k.repr
  parses : ∀ entry ∈ redis.lists, ∀ b ∈ entry.2, (wire.parseData b).isSome
  from_key : ∀ (k : Nat) (buffers : List Buffer), (k.repr,buffers) ∈ redis.lists →
    ∀ x ∈ cycles wire buffers, k ≤ x.time
  to_next : ∀ (k next : Nat) (buffers : List Buffer), (k.repr,buffers) ∈ redis.lists → next.repr ∈ redis.keys →
    k < next → (∀ j : Nat, j.repr ∈ redis.keys → k < j → next ≤ j) → ∀ x ∈ cycles wire buffers, x.time ≤ next

theorem readBuffers_ok (wire : Wire Buffer) (low high : Int) {buffers : List Buffer}
    (parses : ∀ b ∈ buffers, (wire.parseData b).isSome) (message : DataMessage) :
    readBuffers wire low high buffers message =
      .ok { message with cycles := message.cycles ++ (cycles wire buffers).filter (inWindow low high) } := by
  induction buffers generalizing message with
  | nil => simp [readBuffers,cycles]
  | cons b buffers ih =>
    obtain ⟨data,parsed⟩ := Option.isSome_iff_exists.mp (parses b (List.mem_cons_self ..))
    rw [readBuffers]
    simp only [parsed]
    rw [ih (fun b member => parses b (List.mem_cons_of_mem _ member))]
    simp [cycles,parsed]

theorem readLists_ok (wire : Wire Buffer) {redis : Redis Buffer} (low high : Int)
    (parses : ∀ entry ∈ redis.lists, ∀ b ∈ entry.2, (wire.parseData b).isSome) (keys : List Int) (message : DataMessage) :
    readLists wire redis low high keys message = .ok { message with
      cycles := message.cycles ++ keys.flatMap fun k => (cycles wire (redis.lrange k)).filter (inWindow low high) } := by
  induction keys generalizing message with
  | nil => simp [readLists]
  | cons key keys ih =>
    have parsed : ∀ b ∈ redis.lrange key, (wire.parseData b).isSome := by
      intro b member
      cases found : redis.lists.lookup key.repr with
      | none => simp [Redis.lrange,found] at member
      | some buffers =>
        obtain ⟨l₁,l₂,split,_⟩ := List.lookup_eq_some_iff.mp found
        have listed : (key.repr,buffers) ∈ redis.lists := by rw [split]; simp
        exact parses _ listed b (by simpa [Redis.lrange,found] using member)
    rw [readLists,readBuffers_ok wire low high parsed]
    show readLists wire redis low high keys _ = _
    rw [ih]
    simp

theorem Redis.lookup_eq {redis : Redis Buffer} {entry : String × List Buffer} (listed : entry ∈ redis.lists) :
    redis.lists.lookup entry.1 = some entry.2 := by
  obtain ⟨l₁,l₂,split⟩ := List.append_of_mem listed
  have first : ∀ other ∈ l₁, (entry.1 == other.1) = false := by
    intro other member
    have distinct := redis.distinct
    rw [split,List.map_append,List.map_cons] at distinct
    have apart := (List.nodup_append.mp distinct).2.2 other.1 (List.mem_map_of_mem member) entry.1 (List.mem_cons_self ..)
    exact beq_eq_false_iff_ne.mpr (Ne.symm apart)
  exact List.lookup_eq_some_iff.mpr ⟨l₁,l₂,split,by simpa using first⟩

theorem Redis.lrange_listed {redis : Redis Buffer} {k : Nat} (key : k.repr ∈ redis.keys) :
    (k.repr,redis.lrange k) ∈ redis.lists := by
  obtain ⟨⟨_,buffers⟩,listed,rfl⟩ := List.mem_map.mp key
  have found : redis.lrange k = buffers := by
    show (redis.lists.lookup k.repr).getD [] = buffers
    rw [Redis.lookup_eq listed,Option.getD_some]
  rw [found]
  exact listed

/-- The cycles of the window under a key. -/
def inRange (wire : Wire Buffer) (redis : Redis Buffer) (low high key : Int) : List Cycle :=
  (cycles wire (redis.lrange key)).filter (inWindow low high)

section
variable {wire : Wire Buffer} {redis : Redis Buffer}

theorem Partitioned.numbers (parts : Partitioned wire redis) :
    ∃ numbers : List Nat, redis.keys = numbers.map Nat.repr ∧ ∀ k ∈ numbers, 0 < k := by
  have decimal := parts.decimal
  generalize redis.keys = keys at decimal
  induction keys with
  | nil => exact ⟨[],rfl,by simp⟩
  | cons key keys ih =>
    obtain ⟨numbers,same,positive⟩ := ih fun key member => decimal key (List.mem_cons_of_mem _ member)
    obtain ⟨k,pos,rfl⟩ := decimal key (List.mem_cons_self ..)
    refine ⟨k :: numbers,by rw [same,List.map_cons],?_⟩
    intro j member
    rcases List.mem_cons.mp member with rfl | later
    · exact pos
    · exact positive j later

theorem number_repr (k : Int) : number k.repr.toList = some k := by
  have digits {n : Nat} : ∀ c ∈ Nat.toDigits 10 n, c.isDigit = true :=
    fun c member => Nat.isDigit_of_mem_toDigits (by decide) (by decide) member
  have made (n : Nat) : natural (Nat.toDigits 10 n) = some (n : Int) := by
    rw [natural,if_pos ⟨Nat.toDigits_ne_nil,List.all_eq_true.mpr digits⟩,Nat.ofDigitChars_ten_toDigits]
  have plain {n : Nat} : ∀ c ∈ Nat.toDigits 10 n, isspace c = false := by
    intro c member
    refine Bool.eq_false_iff.mpr fun space => ?_
    have digit := digits c member
    simp only [isspace,Bool.or_eq_true,decide_eq_true_eq] at space
    rcases space with ((((rfl | rfl) | rfl) | rfl) | rfl) | rfl <;> revert digit <;> decide
  cases k with
  | ofNat n =>
    have unsigned {sign : Char} {rest : Str} (is : Nat.toDigits 10 n = sign :: rest) : sign.isDigit = true :=
      digits sign (by rw [is]; exact List.mem_cons_self ..)
    rw [show (Int.ofNat n).repr.toList = Nat.toDigits 10 n from Nat.toList_repr,number,strip_plain plain]
    split
    · next is => exact absurd (unsigned is) (by decide)
    · next is => exact absurd (unsigned is) (by decide)
    · exact made n
  | negSucc n =>
    have text : (Int.negSucc n).repr.toList = '-' :: Nat.toDigits 10 (n + 1) := by
      rw [show (Int.negSucc n).repr = "-" ++ (n + 1).repr from rfl,String.toList_append,Nat.toList_repr]
      rfl
    rw [text,number,strip_plain (List.forall_mem_cons.mpr ⟨by decide,plain⟩)]
    simp only [made]
    rfl

example : [" +12\n","-7","1 2",""].map int = [.ok 12,.ok (-7),.error .ValueError,.error .ValueError] := rfl

theorem repr_injective : Function.Injective Int.repr := by
  intro j k same
  have equal := congrArg (fun s : String => number s.toList) same
  simpa only [number_repr,Option.some.injEq] using equal

/-- Numbers are keys that are read back. -/
theorem key_injective : Function.Injective Nat.repr := by
  intro j k same
  exact Int.ofNat_inj.mp (repr_injective same)

theorem mapM_int (numbers : List Nat) : (numbers.map Nat.repr).mapM int = .ok (numbers.map Int.ofNat) := by
  induction numbers with
  | nil => rfl
  | cons k numbers ih =>
    have own : int k.repr = .ok (k : Int) := by rw [int,show k.repr = (k : Int).repr from rfl,number_repr]
    rw [List.map_cons,List.mapM_cons,own,ih]
    rfl

/-- The keys in the order in which `getRange` scans them. -/
def scanned (numbers : List Nat) : List Int := (numbers.map Int.ofNat).insertionSort (· ≤ ·)

theorem scanned_perm (numbers : List Nat) : (scanned numbers).Perm (numbers.map Int.ofNat) := List.perm_insertionSort _ _

theorem mem_scanned {numbers : List Nat} {key : Int} : key ∈ scanned numbers ↔ ∃ k ∈ numbers, (k : Int) = key := by
  rw [(scanned_perm numbers).mem_iff,List.mem_map]
  rfl

theorem scanned_sorted {numbers : List Nat} (same : redis.keys = numbers.map Nat.repr) :
    (scanned numbers).Pairwise (· < ·) := by
  have distinct : numbers.Nodup := by
    refine List.Nodup.of_map Nat.repr ?_
    rw [← same]
    exact redis.distinct
  have distinct' : (scanned numbers).Nodup :=
    (scanned_perm numbers).nodup_iff.mpr (distinct.map Int.ofNat_injective)
  have ascending : (scanned numbers).Pairwise (· ≤ ·) := List.pairwise_insertionSort _ _
  exact (ascending.and distinct').imp fun {a b} ⟨le,ne⟩ => Int.lt_iff_le_and_ne.mpr ⟨le,ne⟩

theorem getRange_ok (parts : Partitioned wire redis) {numbers : List Nat} (same : redis.keys = numbers.map Nat.repr)
    (low high : Int) : getRange wire redis low high = .ok { DataMessage.empty with
      cycles := (readoutKeys low high (scanned numbers) [] 0).flatMap (inRange wire redis low high) } := by
  rw [getRange,same,mapM_int]
  exact (readLists_ok wire low high parts.parses _ _).trans rfl

/-- The stored cycles of the window, key by key. -/
theorem stored_filter (low high : Int) : (stored wire redis).filter (inWindow low high) = redis.keys.flatMap fun key =>
    (cycles wire ((redis.lists.lookup key).getD [])).filter (inWindow low high) := by
  rw [stored,List.filter_flatMap,Redis.keys,List.flatMap_map]
  refine List.flatMap_congr ?_
  intro entry member
  rw [Redis.lookup_eq member,Option.getD_some]

theorem stored_perm {numbers : List Nat} (same : redis.keys = numbers.map Nat.repr) (low high : Int) :
    ((stored wire redis).filter (inWindow low high)).Perm ((scanned numbers).flatMap (inRange wire redis low high)) := by
  rw [stored_filter,same,List.flatMap_map]
  refine List.Perm.trans ?_ ((scanned_perm numbers).symm.flatMap_right _)
  rw [List.flatMap_map]
  exact List.Perm.refl _

/-- No cycle under a key is after a later key. -/
theorem Partitioned.before_later (parts : Partitioned wire redis) {k j : Nat} {buffers : List Buffer}
    (listed : (k.repr,buffers) ∈ redis.lists) (key : j.repr ∈ redis.keys) (later : k < j) :
    ∀ x ∈ cycles wire buffers, x.time ≤ j := by
  intro x member
  have any : ∃ next : Nat, next.repr ∈ redis.keys ∧ k < next := ⟨j,key,later⟩
  obtain ⟨next_key,next_later⟩ := Nat.find_spec any
  have in_time := parts.to_next k _ buffers listed next_key next_later
    (fun i listed' after => Nat.find_min' any ⟨listed',after⟩) x member
  exact Nat.le_trans in_time (Nat.find_min' any ⟨key,later⟩)

/-- The bounds of a cycle in the window, by the keys. -/
theorem Partitioned.inRange_bounds (parts : Partitioned wire redis) {low high : Int} {k : Nat} (key : k.repr ∈ redis.keys)
    {x : Cycle} (inside : x ∈ inRange wire redis low high k) :
    (low < x.time ∧ x.time < high) ∧ k ≤ x.time ∧ ∀ j : Nat, j.repr ∈ redis.keys → k < j → x.time ≤ j := by
  obtain ⟨member,in_window⟩ := List.mem_filter.mp inside
  have listed := Redis.lrange_listed key
  refine ⟨by simpa [inWindow] using in_window,parts.from_key k _ listed x member,?_⟩
  intro j key_j later
  exact parts.before_later listed key_j later x member

/-- A list with cycles of the window is read as soon as a key lies in it. -/
theorem read_of_inRange (parts : Partitioned wire redis) {numbers : List Nat} (same : redis.keys = numbers.map Nat.repr)
    {low high : Int} (any : ∃ k ∈ numbers, low < k ∧ k < high) {key : Int} (member : key ∈ scanned numbers)
    (filled : inRange wire redis low high key ≠ []) : key ∈ readoutKeys low high (scanned numbers) [] 0 := by
  have is_key : ∀ k ∈ numbers, k.repr ∈ redis.keys := fun k listed => same ▸ List.mem_map_of_mem listed
  obtain ⟨k,listed,rfl⟩ := mem_scanned.mp member
  obtain ⟨i,listed_i,inside⟩ := any
  obtain ⟨x,member_x⟩ := List.exists_mem_of_ne_nil _ filled
  obtain ⟨⟨after_low,before_high⟩,from_key,to_next⟩ := parts.inRange_bounds (is_key k listed) member_x
  obtain ⟨before,reads,is⟩ := readoutKeys_some (scanned_sorted same)
    ⟨i,mem_scanned.mpr ⟨i,listed_i,rfl⟩,inside⟩ 0
  rw [reads,List.mem_append,List.mem_cons]
  by_cases in_window : low < k ∧ k < high
  · exact .inl (.inr (List.mem_filter.mpr ⟨member,by simpa using in_window⟩))
  · -- The list reaches into the window from before it, so its key is the last one before.
    rcases is with ⟨_,all_after⟩ | ⟨is_before,_,last⟩
    · have := all_after k member
      omega
    · obtain ⟨b,listed_b,rfl⟩ := mem_scanned.mp is_before
      have ordered := last k member (by omega)
      have not_less : ¬ k < b := fun less => by
        have := to_next b (is_key b listed_b) less
        omega
      exact .inl (.inl (by omega))

theorem subperm_flatMap {α β : Type*} {l l' : List α} (within : l.Subperm l') (f : α → List β) :
    (l.flatMap f).Subperm (l'.flatMap f) := by
  obtain ⟨order,perm,sublist⟩ := within
  exact ⟨order.flatMap f,perm.flatMap_right f,sublist.flatMap f⟩

theorem flatMap_filter_filled {α β : Type*} (f : α → List β) (l : List α) :
    (l.filter fun x => !(f x).isEmpty).flatMap f = l.flatMap f := by
  induction l with
  | nil => rfl
  | cons x l ih => cases empty : f x <;> simp [empty,ih]

/-- Without a key in the window only the key after it is read, and its cycles
    lie after the window as well. -/
theorem readout_empty (parts : Partitioned wire redis) {numbers : List Nat} (same : redis.keys = numbers.map Nat.repr)
    {low high : Int} (none : ∀ k ∈ numbers, ¬ (low < k ∧ k < high)) :
    (readoutKeys low high (scanned numbers) [] 0).flatMap (inRange wire redis low high) = [] := by
  have outside : ∀ k ∈ scanned numbers, ¬ (low < k ∧ k < high) := by
    intro key member inside
    obtain ⟨k,listed,rfl⟩ := mem_scanned.mp member
    exact none k listed inside
  rw [readoutKeys_none outside,List.flatMap_eq_nil_iff]
  intro key member
  have found := Option.mem_toList.mp member
  obtain ⟨k,listed,rfl⟩ := mem_scanned.mp (List.mem_of_find?_eq_some found)
  have beyond : high < k := by simpa using List.find?_some found
  refine List.eq_nil_iff_forall_not_mem.mpr ?_
  intro x member_x
  obtain ⟨⟨_,before_high⟩,from_key,_⟩ := parts.inRange_bounds (same ▸ List.mem_map_of_mem listed) member_x
  omega

/-- `getRange` returns every stored cycle of the window exactly where a key lies
    strictly in the window or no stored cycle does. -/
theorem getRange_complete_iff (parts : Partitioned wire redis) (low high : Int) :
    (∃ message, getRange wire redis low high = .ok message ∧
      ((stored wire redis).filter (inWindow low high)).Subperm message.cycles) ↔
    (∃ k : Nat, k.repr ∈ redis.keys ∧ low < k ∧ k < high) ∨ ∀ x ∈ stored wire redis, inWindow low high x = false := by
  obtain ⟨numbers,same,_⟩ := parts.numbers
  have is_key : ∀ k : Nat, k.repr ∈ redis.keys ↔ k ∈ numbers := by
    intro k
    rw [same,List.mem_map]
    exact ⟨fun ⟨j,listed,repr⟩ => key_injective repr ▸ listed,fun listed => ⟨k,listed,rfl⟩⟩
  have nothing : (stored wire redis).filter (inWindow low high) = [] ↔ ∀ x ∈ stored wire redis, inWindow low high x = false := by
    simp [List.filter_eq_nil_iff]
  rw [getRange_ok parts same,← nothing]
  simp only [Except.ok.injEq,exists_eq_left',is_key]
  by_cases any : ∃ k ∈ numbers, low < k ∧ k < high
  · refine ⟨fun _ => .inl any,fun _ => ?_⟩
    have read : ((scanned numbers).filter fun k => !(inRange wire redis low high k).isEmpty).Subperm
        (readoutKeys low high (scanned numbers) [] 0) := by
      refine List.subperm_of_subset (((scanned_sorted same).imp Int.ne_of_lt).filter _) ?_
      intro key member
      obtain ⟨scan,filled⟩ := List.mem_filter.mp member
      exact read_of_inRange parts same any scan (by simpa using filled)
    refine (stored_perm same low high).subperm.trans ?_
    rw [← flatMap_filter_filled]
    exact subperm_flatMap read (inRange wire redis low high)
  · have empty := readout_empty parts same fun k listed inside => any ⟨k,listed,inside⟩
    rw [empty,List.subperm_nil]
    exact ⟨.inr,fun complete => complete.resolve_left any⟩

end

/-- A cycle at the given time. -/
def cycleAt (time : Nat) : Cycle := ⟨time,[],none,none,none⟩

/-- One list under the key 100, with one cycle at 150. -/
def oneBatch : Redis (DataMessage ⊕ RequestDataMessage) where
  lists := [(Nat.repr 100,[.inl ⟨some 1,none,[cycleAt 150]⟩])]
  distinct := by simp

theorem oneBatch_partitioned : Partitioned .plain oneBatch := by
  constructor
  · intro key member
    exact ⟨100,by decide,by simpa [Redis.keys,oneBatch] using member⟩
  · intro entry member b listed
    simp only [oneBatch,List.mem_singleton] at member
    subst member
    simp only [List.mem_singleton] at listed
    subst listed
    rfl
  · intro k buffers listed x member
    simp only [oneBatch,List.mem_singleton,Prod.mk.injEq] at listed
    obtain ⟨same,rfl⟩ := listed
    rw [key_injective same]
    simp only [cycles,Wire.plain,List.flatMap_cons] at member
    simp at member
    rw [member]
    decide
  · intro k next buffers listed key later
    simp only [oneBatch,Redis.keys,List.mem_singleton,Prod.mk.injEq,List.map_cons,List.map_nil] at listed key
    have := key_injective listed.1
    have := key_injective key
    omega

/-- A key in the window, and so the cycle in its list. -/
theorem getRange_complete_iff_one : ∃ message, getRange .plain oneBatch 90 200 = .ok message ∧
    ((stored .plain oneBatch).filter (inWindow 90 200)).Subperm message.cycles :=
  (getRange_complete_iff oneBatch_partitioned 90 200).mpr (.inl ⟨100,by simp [Redis.keys,oneBatch],by decide,by decide⟩)

/-- A window inside the batch: its cycle at 150 is not returned. -/
theorem getRange_inside_batch : Partitioned .plain oneBatch ∧ cycleAt 150 ∈ stored .plain oneBatch ∧
    inWindow 120 200 (cycleAt 150) ∧ getRange .plain oneBatch 120 200 = .ok .empty := by
  refine ⟨oneBatch_partitioned,?_,by decide,?_⟩
  · simp [stored,cycles,oneBatch,Wire.plain]
  · have keys : oneBatch.keys = [100].map Nat.repr := rfl
    rw [getRange_ok oneBatch_partitioned keys]
    rfl

end Opqbox.Scraper
