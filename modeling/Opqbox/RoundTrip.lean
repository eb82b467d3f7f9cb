import Mathlib.Data.List.Chain
import Mathlib.Data.List.Perm.Basic
import Opqbox.Retention

/-!
From the measurements to what `getRange` returns of them. Of what is left in
Redis a window is returned whole, each cycle as often as it was measured, or not
at all (`round_trip`); windows that are longer than the rotation of the lists
are returned whole (`long_window`).
-/
namespace Opqbox.RoundTrip
open Opqbox.Messages Opqbox.OpqData Opqbox.Runs Opqbox.Scraper Opqbox.RedisWriter Opqbox.Retrieval Opqbox.Expiry
open Opqbox.Retention

variable {Buffer : Type}

/-- A list is made of its elements by their keys. -/
theorem flatMap_filter_perm {α β : Type*} [DecidableEq β] (f : α → β) {keys : List β} (distinct : keys.Nodup) {l : List α}
    (listed : ∀ a ∈ l, f a ∈ keys) : (keys.flatMap fun k => l.filter fun a => f a = k).Perm l := by
  induction keys generalizing l with
  | nil =>
    have empty : l = [] := List.eq_nil_iff_forall_not_mem.mpr fun a member => absurd (listed a member) List.not_mem_nil
    rw [empty]
    exact .nil
  | cons k keys ih =>
    obtain ⟨apart,distinct'⟩ := List.nodup_cons.mp distinct
    have rest : ∀ a ∈ l.filter fun a => !decide (f a = k), f a ∈ keys := by
      intro a member
      obtain ⟨among,differs⟩ := List.mem_filter.mp member
      exact (List.mem_cons.mp (listed a among)).resolve_left (by simpa using differs)
    have same : (keys.flatMap fun k' => l.filter fun a => f a = k') =
        keys.flatMap fun k' => (l.filter fun a => !decide (f a = k)).filter fun a => f a = k' := by
      refine List.flatMap_congr ?_
      intro k' member
      rw [List.filter_filter]
      refine List.filter_congr ?_
      intro a _
      by_cases is : f a = k'
      · have differs : k' ≠ k := fun same => apart (same ▸ member)
        simp [is,differs]
      · simp [is]
    rw [List.flatMap_cons,same]
    exact ((ih distinct' rest).append_left _).trans (List.filter_append_perm _ l)

section
variable {wire : Wire Buffer} {redis : Redis Buffer}

/-- With a key in the window every stored cycle of it is returned, as often as
    it is stored. -/
theorem returned_perm (parts : Partitioned wire redis) {numbers : List Nat} (same : redis.keys = numbers.map Nat.repr)
    (positive : ∀ k ∈ numbers, 0 < k) {low high : Int} (any : ∃ k ∈ numbers, low < k ∧ k < high) :
    ((readoutKeys low high (scanned numbers) [] 0).flatMap (inRange wire redis low high)).Perm
      ((stored wire redis).filter (inWindow low high)) := by
  have ascending := readoutKeys_ascending low high (scanned_sorted same) (by
    intro key member
    obtain ⟨k,listed,rfl⟩ := mem_scanned.mp member
    exact Int.natCast_pos.mpr (positive k listed))
  -- Lists that are read and have cycles of the window are lists that are scanned, and conversely.
  have filled : ((readoutKeys low high (scanned numbers) [] 0).filter fun k => !(inRange wire redis low high k).isEmpty).Perm
      ((scanned numbers).filter fun k => !(inRange wire redis low high k).isEmpty) := by
    refine (List.perm_ext_iff_of_nodup ((ascending.imp Int.ne_of_lt).filter _)
      (((scanned_sorted same).imp Int.ne_of_lt).filter _)).mpr ?_
    intro key
    simp only [List.mem_filter,and_congr_left_iff]
    intro some
    have cycles : inRange wire redis low high key ≠ [] := by simpa using some
    refine ⟨fun _ => ?_,fun member => read_of_inRange parts same any member cycles⟩
    obtain ⟨x,member⟩ := List.exists_mem_of_ne_nil _ cycles
    obtain ⟨k,rfl,_,isKey⟩ := inRange_key parts member
    rw [same] at isKey
    obtain ⟨j,listed,is⟩ := List.mem_map.mp isKey
    rw [← key_injective is]
    exact mem_scanned.mpr ⟨j,listed,rfl⟩
  rw [← flatMap_filter_filled]
  refine ((filled.flatMap_right _).trans ?_).trans (stored_perm same low high).symm
  rw [flatMap_filter_filled]

/-- Some of the lists of a partition are one. -/
theorem Partitioned.of_subset {less : Redis Buffer} (parts : Partitioned wire redis)
    (subset : ∀ entry ∈ less.lists, entry ∈ redis.lists) : Partitioned wire less := by
  have isKey {key : String} (member : key ∈ less.keys) : key ∈ redis.keys := by
    obtain ⟨entry,listed,rfl⟩ := List.mem_map.mp member
    exact List.mem_map_of_mem (subset entry listed)
  exact ⟨fun key member => parts.decimal key (isKey member),fun entry listed => parts.parses entry (subset entry listed),
    fun k buffers listed => parts.from_key k buffers (subset _ listed),
    fun k next buffers listed key later _ => parts.before_later (subset _ listed) (isKey key) later⟩

end

/-- The cycles of a measurement as they are stored. -/
def cyclesOf (m : OPQMeasurement) : List Cycle := List.zipWith protocycle m.cycles m.timestamps

/-- What is stored are the cycles of the measurements in the lists. -/
theorem Holds.stored_cycles {wire : Wire Buffer} {boxId : BitVec 32} {h : List (Nat × OPQMeasurement)} {redis : Redis Buffer}
    (holds : Holds wire boxId h redis) {numbers : List Nat} (same : redis.keys = numbers.map Nat.repr) :
    (stored wire redis).Perm (h.flatMap fun e => cyclesOf e.2) := by
  have distinct : numbers.Nodup := List.Nodup.of_map Nat.repr (same ▸ redis.distinct)
  have listed : ∀ e ∈ h, e.1 ∈ numbers := by
    intro e member
    have isKey := (holds.isKey e.1).mpr ⟨e,member,rfl⟩
    rw [same] at isKey
    obtain ⟨k,listed,is⟩ := List.mem_map.mp isKey
    exact key_injective is ▸ listed
  have lists : stored wire redis = numbers.flatMap fun k => cycles wire ((redis.lists.lookup k.repr).getD []) := by
    have names : redis.keys.flatMap (fun key => cycles wire ((redis.lists.lookup key).getD [])) =
        numbers.flatMap fun k => cycles wire ((redis.lists.lookup k.repr).getD []) := by
      rw [same,List.flatMap_map]
    rw [stored,← names,Redis.keys,List.flatMap_map]
    refine List.flatMap_congr ?_
    intro entry member
    rw [Redis.lookup_eq member,Option.getD_some]
  have each (k : Nat) : (cycles wire ((redis.lists.lookup k.repr).getD [])).Perm
      ((h.filter fun e => e.1 = k).flatMap fun e => cyclesOf e.2) := by
    have messages : (redis.lists.lookup k.repr).getD [] = (under wire boxId k h).reverse := by
      rw [holds.lists]
      split_ifs with empty <;> simp [empty]
    have parsed : cycles wire (under wire boxId k h) = (h.filter fun e => e.1 = k).flatMap fun e => cyclesOf e.2 := by
      rw [under,cycles,List.flatMap_map]
      refine List.flatMap_congr ?_
      intro e _
      simp [messageOf,wire.data_kept,cyclesOf]
    rw [messages,← parsed]
    exact (List.reverse_perm _).flatMap_right _
  rw [lists]
  refine (List.Perm.flatMap_left numbers fun k _ => each k).trans ?_
  rw [← List.flatMap_assoc]
  exact (flatMap_filter_perm Prod.fst distinct listed).flatMap_right _

/-! ### Histories -/

/-- The lists that have not expired are among all that were written. -/
theorem partitioned_live {wire : Wire Buffer} {boxId : BitVec 32} {ttl rotation : Int} {calls : List (Nat × OPQMeasurement)}
    (chronicle : Chronicle rotation (calls.map Prod.snd)) (apart : Apart (history rotation calls)) {now : Nat}
    {redis : Redis Buffer} (holds : Holds wire boxId (byKey (live ttl now (history rotation calls))) redis) :
    Partitioned wire redis := by
  have written : Written wire (contents (commandsOf wire boxId ttl []
      ((keysOf rotation (calls.map Prod.snd)).zip (calls.map Prod.snd))).flatten) := written_contents chronicle
  refine Partitioned.of_subset written.toPartitioned ?_
  have all := holds_contents wire boxId ttl ((keysOf rotation (calls.map Prod.snd)).zip (calls.map Prod.snd))
  intro entry listed
  obtain ⟨_,among,name,messages⟩ := holds.entry listed
  obtain ⟨e,alive_now,rfl⟩ := List.mem_map.mp among
  obtain ⟨member,_⟩ := mem_live.mp alive_now
  -- All measurements of the list are alive with this one.
  have whole : under wire boxId (crono_to_mili e.1.first) (byKey (live ttl now (history rotation calls))) =
      under wire boxId (crono_to_mili e.1.first) ((keysOf rotation (calls.map Prod.snd)).zip (calls.map Prod.snd)) := by
    rw [← byKey_history,under_byKey,under_byKey,live,List.filter_filter]
    congr 1
    refine List.filter_congr ?_
    intro e' member'
    by_cases is : crono_to_mili e'.1.first = crono_to_mili e.1.first
    · rw [apart e' member' e member is,(List.mem_filter.mp alive_now).2]
      simp
    · simp [is]
  have filled : under wire boxId (crono_to_mili e.1.first) ((keysOf rotation (calls.map Prod.snd)).zip (calls.map Prod.snd)) ≠ [] := by
    rw [← byKey_history,under_byKey]
    exact List.ne_nil_of_mem (List.mem_map_of_mem (List.mem_filter.mpr ⟨member,by simp⟩))
  have found := all.lists (crono_to_mili e.1.first)
  rw [if_neg filled,← whole] at found
  obtain ⟨l₁,l₂,split,_⟩ := List.lookup_eq_some_iff.mp found
  rw [split,show entry = (entry.1,entry.2) from rfl,name,messages]
  simp

/-- The keys are those under which the lists were opened. -/
theorem mem_numbers {wire : Wire Buffer} {boxId : BitVec 32} {h : List (Opening × OPQMeasurement)} {redis : Redis Buffer}
    (holds : Holds wire boxId (byKey h) redis) {numbers : List Nat} (same : redis.keys = numbers.map Nat.repr) (k : Nat) :
    k ∈ numbers ↔ ∃ e ∈ h, crono_to_mili e.1.first = k := by
  have listed : k ∈ numbers ↔ k.repr ∈ redis.keys := by
    rw [same,List.mem_map]
    exact ⟨fun member => ⟨k,member,rfl⟩,fun ⟨j,member,repr⟩ => key_injective repr ▸ member⟩
  rw [listed,holds.isKey]
  constructor
  · rintro ⟨_,member,rfl⟩
    obtain ⟨e,among,rfl⟩ := List.mem_map.mp member
    exact ⟨e,among,rfl⟩
  · rintro ⟨e,among,rfl⟩
    exact ⟨_,List.mem_map_of_mem among,rfl⟩

/-- Where a list was opened in the window all of its cycles are returned. -/
theorem opened_whole {wire : Wire Buffer} {boxId : BitVec 32} {h : List (Opening × OPQMeasurement)} {redis : Redis Buffer}
    (holds : Holds wire boxId (byKey h) redis) (parts : Partitioned wire redis) {low high : Int}
    (opened : ∃ e ∈ h, low < crono_to_mili e.1.first ∧ crono_to_mili e.1.first < high) :
    ∃ message, getRange wire redis low high = .ok message ∧
      message.cycles.Perm ((h.flatMap fun e => cyclesOf e.2).filter (inWindow low high)) := by
  obtain ⟨numbers,same,positive⟩ := parts.numbers
  obtain ⟨e,member,inside⟩ := opened
  have all := returned_perm parts same positive ⟨_,(mem_numbers holds same _).mpr ⟨e,member,rfl⟩,inside⟩
  have measured := (Holds.stored_cycles holds same).filter (inWindow low high)
  rw [byKey,List.flatMap_map] at measured
  exact ⟨_,getRange_ok parts same low high,all.trans measured⟩

section
variable {wire : Wire Buffer} {answers : Nat → Bool} {boxId : BitVec 32} {ttl rotation : Int} {delay : Nat}
  {calls : List (Nat × OPQMeasurement)}

/-- What a window of the lists that have not expired is answered with: all of its
    cycles, each as often as it was measured, where one of the lists was opened in
    the window, and nothing where none was. -/
theorem round_trip (longer : (rotation + 1) * 1000000000 + delay ≤ ttl * 1000000000)
    (chronicle : Chronicle rotation (calls.map Prod.snd)) (timely : Timely delay calls) {s : System Buffer}
    (ran : run (stepAt wire answers) (.start boxId ttl rotation) calls = some s) {now : Nat} (later : s.now ≤ now)
    (low high : Int) : ∃ message, getRange wire (s.server.purge now).redis low high = .ok message ∧
      ((∃ e ∈ live ttl now (history rotation calls), low < crono_to_mili e.1.first ∧ crono_to_mili e.1.first < high) →
        message.cycles.Perm
          (((live ttl now (history rotation calls)).flatMap fun e => cyclesOf e.2).filter (inWindow low high))) ∧
      ((∀ e ∈ live ttl now (history rotation calls), ¬ (low < crono_to_mili e.1.first ∧ crono_to_mili e.1.first < high)) →
        message.cycles = []) := by
  have nonneg := chronicle.nonneg
  obtain ⟨_,kept⟩ := kept_history longer chronicle timely ran
  have holds := kept.holds (by omega) later
  have parts := partitioned_live chronicle kept.apart holds
  by_cases opened : ∃ e ∈ live ttl now (history rotation calls), low < crono_to_mili e.1.first ∧ crono_to_mili e.1.first < high
  · obtain ⟨message,returned,whole⟩ := opened_whole holds parts opened
    obtain ⟨e,member,inside⟩ := opened
    exact ⟨message,returned,fun _ => whole,fun none => absurd inside (none e member)⟩
  · obtain ⟨numbers,same,positive⟩ := parts.numbers
    refine ⟨_,getRange_ok parts same low high,fun some => absurd some opened,fun none => readout_empty parts same ?_⟩
    intro k listed inside
    obtain ⟨e,member,rfl⟩ := (mem_numbers holds same k).mp listed
    exact none e member inside

end

/-- The list opened at 112 seconds is in the window, so the cycle at 105 is returned as well. -/
theorem round_trip_four : ∃ s, run (stepAt .plain fun _ => true) (.start 2 100 10) fourCalls = some s ∧
    ∃ message, getRange .plain (s.server.purge 121000000000).redis 104000 115000 = .ok message ∧
      ((∃ e ∈ live 100 121000000000 (history 10 fourCalls),
          (104000 : Int) < crono_to_mili e.1.first ∧ (crono_to_mili e.1.first : Int) < 115000) →
        message.cycles.Perm (((live 100 121000000000 (history 10 fourCalls)).flatMap fun e => cyclesOf e.2).filter
          (inWindow 104000 115000))) ∧
      ((∀ e ∈ live 100 121000000000 (history 10 fourCalls),
          ¬ ((104000 : Int) < crono_to_mili e.1.first ∧ (crono_to_mili e.1.first : Int) < 115000)) → message.cycles = []) := by
  obtain ⟨s,ran,now⟩ := fourCalls_run
  exact ⟨s,ran,round_trip (by decide) fourCalls_chronicle fourCalls_timely ran (by rw [now]) 104000 115000⟩

/-! ### Long windows -/

/-- From one measurement to the next there are at most `gap` nanoseconds. -/
def Steady (gap : Nat) (ms : List OPQMeasurement) : Prop := ms.IsChain fun m m' => firstOf m' ≤ firstOf m + gap

/-- After a list that was opened before the window, and while measurements go on
    to its end, another one is opened in it. -/
theorem opens_inside {rotation : Int} (nonneg : 0 ≤ rotation) {gap : Nat} {low high : Int}
    (long : (rotation + 1) * 1000 + gap / 1000000 + 2 ≤ high - low) {calls : List (Nat × OPQMeasurement)}
    {opening : Opening} {previous : Nat} (before : (crono_to_mili opening.first : Int) ≤ low)
    (going : (previous : Int) < opening.first + (rotation + 1) * 1000000000)
    (steady : ((previous :: calls.map fun c => firstOf c.2)).IsChain fun t t' => t' ≤ t + gap)
    (ended : ∃ c ∈ calls, high ≤ crono_to_mili (firstOf c.2)) :
    ∃ e ∈ historyFrom rotation opening calls, low < crono_to_mili e.1.first ∧ crono_to_mili e.1.first < high := by
  induction calls generalizing opening previous with
  | nil => simp at ended
  | cons c calls ih =>
    rw [List.map_cons,List.isChain_cons_cons] at steady
    obtain ⟨near,steady⟩ := steady
    rw [historyFrom]
    by_cases opens : rotates rotation opening.first (firstOf c.2) = true
    · simp only [opens,if_true]
      by_cases inside : low < crono_to_mili (firstOf c.2)
      · refine ⟨_,List.mem_cons_self ..,inside,?_⟩
        simp only
        unfold crono_to_mili at before ⊢
        omega
      · have later : ∃ c ∈ calls, high ≤ crono_to_mili (firstOf c.2) := by
          obtain ⟨c',member,after⟩ := ended
          rcases List.mem_cons.mp member with rfl | behind
          · omega
          · exact ⟨c',behind,after⟩
        obtain ⟨e,member,within⟩ := @ih ⟨firstOf c.2,c.1⟩ (firstOf c.2) (not_lt.mp inside) (by simp only; omega) steady later
        exact ⟨e,List.mem_cons_of_mem _ member,within⟩
    · have early := (rotates_iff nonneg).not.mp opens
      simp only [opens,Bool.false_eq_true,if_false]
      have later : ∃ c ∈ calls, high ≤ crono_to_mili (firstOf c.2) := by
        obtain ⟨c',member,after⟩ := ended
        rcases List.mem_cons.mp member with rfl | behind
        · unfold crono_to_mili at before after
          omega
        · exact ⟨c',behind,after⟩
      obtain ⟨e,member,within⟩ := ih before (not_le.mp early) steady later
      exact ⟨e,List.mem_cons_of_mem _ member,within⟩

/-- The timestamps of a measurement after which another one follows. -/
theorem stamps_near {gap : Nat} {ms : List OPQMeasurement} (filled : ∀ m ∈ ms, Filled m)
    (ordered : (times ms).Pairwise (· ≤ ·)) (steady : Steady gap ms) :
    ∀ m ∈ ms, ∀ t ∈ m.timestamps, (∃ m' ∈ ms, t < firstOf m') → t ≤ firstOf m + gap := by
  induction ms with
  | nil => simp
  | cons m ms ih =>
    obtain ⟨own,filled'⟩ := List.forall_mem_cons.mp filled
    obtain ⟨stamps,order,across⟩ := List.pairwise_append.mp (show (m.timestamps ++ times ms).Pairwise (· ≤ ·) from ordered)
    obtain ⟨first,rest,is⟩ := own.times
    have isFirst : firstOf m = first := by rw [firstOf,is]; rfl
    have first_of {m' : OPQMeasurement} (listed : m' ∈ ms) : firstOf m' ∈ times ms := by
      obtain ⟨first',rest',is'⟩ := (filled' m' listed).times
      exact mem_times listed (by rw [firstOf,is']; exact List.mem_cons_self ..)
    have since : ∀ t ∈ m.timestamps, firstOf m ≤ t := by
      intro t member
      rw [is] at stamps member
      rw [isFirst]
      rcases List.mem_cons.mp member with rfl | behind
      · exact Nat.le_refl _
      · exact (List.pairwise_cons.mp stamps).1 t behind
    rintro m' listed t member ⟨m'',listed',after⟩
    rcases List.mem_cons.mp listed with rfl | behind
    · cases ms with
      | nil =>
        obtain rfl := List.mem_singleton.mp listed'
        exact absurd after (Nat.not_lt.mpr (since t member))
      | cons next ms =>
        have near := (List.isChain_cons_cons.mp steady).1
        have := across t member (firstOf next) (first_of (List.mem_cons_self ..))
        omega
    · refine ih filled' order (List.IsChain.tail steady) m' behind t member ?_
      rcases List.mem_cons.mp listed' with rfl | behind'
      · have own_stamp : firstOf m'' ∈ m''.timestamps := by rw [isFirst,is]; exact List.mem_cons_self ..
        have := across _ own_stamp t (mem_times behind member)
        omega
      · exact ⟨m'',behind',after⟩

theorem historyFrom_measurements (rotation : Int) (opening : Opening) (calls : List (Nat × OPQMeasurement)) :
    (historyFrom rotation opening calls).map Prod.snd = calls.map Prod.snd := by
  induction calls generalizing opening with
  | nil => rfl
  | cons c calls ih => rw [historyFrom,List.map_cons,List.map_cons,ih]

section
variable {wire : Wire Buffer} {answers : Nat → Bool} {boxId : BitVec 32} {ttl rotation : Int} {delay : Nat}
  {calls : List (Nat × OPQMeasurement)}

/-- Cycles of a window are in lists that are alive, where it begins late enough. -/
theorem live_window (chronicle : Chronicle rotation (calls.map Prod.snd)) (timely : Timely delay calls) {gap : Nat}
    (steady : Steady gap (calls.map Prod.snd)) {low high : Int} {now : Nat}
    (ended : ∃ m ∈ calls.map Prod.snd, high ≤ crono_to_mili (firstOf m))
    (young : (now : Int) + gap + (rotation + 1) * 1000000000 ≤ low * 1000000 + ttl * 1000000000) :
    ((live ttl now (history rotation calls)).flatMap fun e => cyclesOf e.2).filter (inWindow low high) =
      ((calls.map Prod.snd).flatMap cyclesOf).filter (inWindow low high) := by
  have measured : (calls.map Prod.snd).flatMap cyclesOf = (history rotation calls).flatMap fun e => cyclesOf e.2 := by
    have all := congrArg (List.flatMap cyclesOf) (historyFrom_measurements rotation ⟨0,0⟩ calls)
    rw [List.flatMap_map] at all
    exact all.symm
  have dead : ∀ e ∈ history rotation calls, alive ttl now e.1.called = false →
      (cyclesOf e.2).filter (inWindow low high) = [] := by
    intro e member expired
    have listed : e.2 ∈ calls.map Prod.snd := by
      rw [← historyFrom_measurements rotation ⟨0,0⟩ calls]
      exact List.mem_map_of_mem member
    refine List.filter_eq_nil_iff.mpr ?_
    intro x measured inside
    have inMessage : x ∈ cycles .plain [messageOf .plain 0 e.2] := by
      rw [cycles_messageOf]
      exact measured
    obtain ⟨t,stamp,time⟩ := mem_cycles_messageOf inMessage
    simp only [inWindow,Bool.and_eq_true,decide_eq_true_eq,time] at inside
    -- Another measurement follows the one of the cycle, at the end of the window.
    have followed : ∃ m' ∈ calls.map Prod.snd, t < firstOf m' := by
      obtain ⟨m',listed',after⟩ := ended
      refine ⟨m',listed',not_le.mp fun le => ?_⟩
      have := crono_to_mili_le le
      omega
    have near := stamps_near chronicle.filled chronicle.ordered steady e.2 listed t stamp followed
    obtain ⟨opened,called⟩ := history_opened chronicle timely e member
    simp only [alive,decide_eq_false_iff_not] at expired
    unfold crono_to_mili at inside
    omega
  rw [measured,live]
  generalize history rotation calls = h at dead
  induction h with
  | nil => rfl
  | cons e h ih =>
    obtain ⟨own,others⟩ := List.forall_mem_cons.mp dead
    cases living : alive ttl now e.1.called with
    | true =>
      simp only [List.filter_cons,living,if_true,List.flatMap_cons,List.filter_append,ih others]
    | false =>
      simp only [List.filter_cons,living,Bool.false_eq_true,if_false,List.flatMap_cons,List.filter_append,own living,
        List.nil_append,ih others]

/-- A list is opened in a window that is longer than the rotation. -/
theorem opened_inside (chronicle : Chronicle rotation (calls.map Prod.snd)) (timely : Timely delay calls) {now gap : Nat}
    (steady : Steady gap (calls.map Prod.snd)) {low high : Int} (long : (rotation + 1) * 1000 + gap / 1000000 + 2 ≤ high - low)
    (begun : ∃ m ∈ calls.map Prod.snd, crono_to_mili (firstOf m) ≤ low)
    (ended : ∃ m ∈ calls.map Prod.snd, high ≤ crono_to_mili (firstOf m))
    (young : (now : Int) + gap + (rotation + 1) * 1000000000 ≤ low * 1000000 + ttl * 1000000000) :
    ∃ e ∈ live ttl now (history rotation calls), low < crono_to_mili e.1.first ∧ crono_to_mili e.1.first < high := by
  have nonneg := chronicle.nonneg
  have openings := history_opened chronicle timely
  -- The first measurement opens a list before the window.
  cases calls with
  | nil => simp at begun
  | cons c calls =>
    obtain ⟨first,rest,is,opens⟩ := chronicle.first
    have isFirst : firstOf c.2 = first := by rw [firstOf,is]; rfl
    have ordered := chronicle.ordered
    have earliest : crono_to_mili first ≤ low := by
      obtain ⟨m',listed,before⟩ := begun
      have stamps : times ((c :: calls).map Prod.snd) = first :: (rest ++ times (calls.map Prod.snd)) := by
        rw [List.map_cons,times,List.flatMap_cons,is]
        rfl
      obtain ⟨first',rest',is'⟩ := (chronicle.filled m' listed).times
      have member : firstOf m' ∈ times ((c :: calls).map Prod.snd) :=
        mem_times listed (by rw [firstOf,is']; exact List.mem_cons_self ..)
      have le : first ≤ firstOf m' := by
        rw [stamps] at member ordered
        rcases List.mem_cons.mp member with same | behind
        · exact same.ge
        · exact (List.pairwise_cons.mp ordered).1 _ behind
      have := crono_to_mili_le le
      omega
    have steady' : (first :: calls.map fun c => firstOf c.2).IsChain fun t t' => t' ≤ t + gap := by
      have chain := List.isChain_map firstOf (R := fun t t' => t' ≤ t + gap) |>.mpr steady
      rwa [List.map_map,List.map_cons,Function.comp_apply,isFirst] at chain
    have ended' : ∃ c ∈ calls, high ≤ crono_to_mili (firstOf c.2) := by
      obtain ⟨m',listed,after⟩ := ended
      rcases List.mem_cons.mp listed with rfl | behind
      · rw [isFirst] at after
        omega
      · obtain ⟨c',among,rfl⟩ := List.mem_map.mp behind
        exact ⟨c',among,after⟩
    obtain ⟨e,member,inside⟩ := opens_inside nonneg long (show (crono_to_mili (⟨first,c.1⟩ : Opening).first : Int) ≤ low from earliest)
      (show (first : Int) < first + _ by omega) steady' ended'
    have listed : e ∈ history rotation (c :: calls) := by
      rw [history,historyFrom,isFirst]
      simp only [opens,if_true]
      exact List.mem_cons_of_mem _ member
    refine ⟨e,mem_live.mpr ⟨listed,?_⟩,inside⟩
    have called := (openings e listed).2
    unfold crono_to_mili at inside
    omega

/-- The window is answered with all that was measured in it. -/
theorem window_whole (longer : (rotation + 1) * 1000000000 + delay ≤ ttl * 1000000000)
    (chronicle : Chronicle rotation (calls.map Prod.snd)) (timely : Timely delay calls) {s : System Buffer}
    {opening : Opening} (kept : Kept wire boxId ttl rotation opening (history rotation calls) s) {now : Nat} (later : s.now ≤ now)
    {gap : Nat} (steady : Steady gap (calls.map Prod.snd)) {low high : Int}
    (ended : ∃ m ∈ calls.map Prod.snd, high ≤ crono_to_mili (firstOf m))
    (young : (now : Int) + gap + (rotation + 1) * 1000000000 ≤ low * 1000000 + ttl * 1000000000)
    (opened : ∃ e ∈ live ttl now (history rotation calls), low < crono_to_mili e.1.first ∧ crono_to_mili e.1.first < high) :
    ∃ message, getRange wire (s.server.purge now).redis low high = .ok message ∧
      message.cycles.Perm (((calls.map Prod.snd).flatMap cyclesOf).filter (inWindow low high)) := by
  have nonneg := chronicle.nonneg
  have holds := kept.holds (by omega) later
  rw [← live_window chronicle timely steady ended young]
  exact opened_whole holds (partitioned_live chronicle kept.apart holds) opened

/-- Where measurements come at a steady rate, a window within the measured time
    that is longer than the rotation and begins within the time to live less the
    rotation is answered with all of its cycles, each as often as it was measured. -/
theorem long_window (longer : (rotation + 1) * 1000000000 + delay ≤ ttl * 1000000000)
    (chronicle : Chronicle rotation (calls.map Prod.snd)) (timely : Timely delay calls) {s : System Buffer}
    (ran : run (stepAt wire answers) (.start boxId ttl rotation) calls = some s) {now : Nat} (later : s.now ≤ now)
    {gap : Nat} (steady : Steady gap (calls.map Prod.snd)) {low high : Int}
    (long : (rotation + 1) * 1000 + gap / 1000000 + 2 ≤ high - low)
    (begun : ∃ m ∈ calls.map Prod.snd, crono_to_mili (firstOf m) ≤ low)
    (ended : ∃ m ∈ calls.map Prod.snd, high ≤ crono_to_mili (firstOf m))
    (young : (now : Int) + gap + (rotation + 1) * 1000000000 ≤ low * 1000000 + ttl * 1000000000) :
    ∃ message, getRange wire (s.server.purge now).redis low high = .ok message ∧
      message.cycles.Perm (((calls.map Prod.snd).flatMap cyclesOf).filter (inWindow low high)) := by
  have opened := opened_inside chronicle timely steady long begun ended young
  obtain ⟨_,kept⟩ := kept_history longer chronicle timely ran
  exact window_whole longer chronicle timely kept later steady ended young opened

end

/-- The window from 100 to 119 seconds, where measurements come at most seven seconds apart. -/
theorem long_window_four : ∃ s, run (stepAt .plain fun _ => true) (.start 2 100 10) fourCalls = some s ∧
    ∃ message, getRange .plain (s.server.purge 121000000000).redis 100000 119000 = .ok message ∧
      message.cycles.Perm (((fourCalls.map Prod.snd).flatMap cyclesOf).filter (inWindow 100000 119000)) := by
  obtain ⟨s,ran,now⟩ := fourCalls_run
  have steady : Steady 7000000000 (fourCalls.map Prod.snd) := by simp [Steady,fourCalls,firstOf,measurementAt]
  refine ⟨s,ran,long_window (by decide) fourCalls_chronicle fourCalls_timely ran (by rw [now]) steady (by decide) ?_ ?_
    (by decide)⟩
  · exact ⟨measurementAt 100000000000,List.mem_cons_self ..,by decide⟩
  · exact ⟨measurementAt 119000000000,by simp [fourCalls],by decide⟩

end Opqbox.RoundTrip
