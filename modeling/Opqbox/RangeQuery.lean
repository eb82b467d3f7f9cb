import Opqbox.Scraper

/-!
What `RedisScraper.getRange` returns for any distinct positive keys and any cycles
under them: nothing that is not stored in the window, and nothing twice
(`getRange_sound`). Whether it returns all of it depends on the cycles.
-/
namespace Opqbox.Scraper
open Opqbox.Messages

variable {Buffer : Type} {keys : List Int}

/-- The keys that are read ascend, with the first one before all others. -/
theorem readoutKeys_ascending (low high : Int) (sorted : keys.Pairwise (· < ·)) (positive : ∀ k ∈ keys, 0 < k) :
    (readoutKeys low high keys [] 0).Pairwise (· < ·) := by
  by_cases any : ∃ k ∈ keys, low < k ∧ k < high
  · obtain ⟨before,reads,is⟩ := readoutKeys_some sorted any 0
    obtain ⟨i,listed_i,after_low,before_high⟩ := any
    have inside {k : Int} (member : k ∈ keys.filter fun k => low < k ∧ k < high) : k ∈ keys ∧ low < k ∧ k < high := by
      simpa using List.mem_filter.mp member
    have beyond {k : Int} (member : k ∈ (keys.find? (high < ·)).toList) : k ∈ keys ∧ high < k := by
      have found := Option.mem_toList.mp member
      exact ⟨List.mem_of_find?_eq_some found,by simpa using List.find?_some found⟩
    -- It is 0, or it is not in the window, while some key is.
    have first {k : Int} (listed : k ∈ keys) (after : low < k) : before < k := by
      rcases is with ⟨rfl,_⟩ | ⟨_,under,_⟩
      · exact positive k listed
      · omega
    have single : (keys.find? (high < ·)).toList.Pairwise (· < ·) := by
      cases keys.find? (high < ·) <;> simp
    rw [reads,List.cons_append,List.pairwise_cons,List.pairwise_append]
    refine ⟨fun k member => ?_,sorted.filter _,single,fun k inner next outer => ?_⟩
    · rcases List.mem_append.mp member with inner | outer
      · exact first (inside inner).1 (inside inner).2.1
      · have after := (beyond outer).2
        exact first (beyond outer).1 (by omega)
    · have below := (inside inner).2.2
      have above := (beyond outer).2
      omega
  · rw [readoutKeys_none fun k member inside => any ⟨k,member,inside⟩]
    cases keys.find? (high < ·) <;> simp

variable {wire : Wire Buffer} {redis : Redis Buffer}

/-- Lists under different names give no more cycles than are stored. -/
theorem names_subperm (wire : Wire Buffer) (redis : Redis Buffer) (low high : Int) {names : List String}
    (distinct : names.Nodup) :
    (names.flatMap fun key => (cycles wire ((redis.lists.lookup key).getD [])).filter (inWindow low high)).Subperm
      (stored wire redis) := by
  have listed : (names.filter fun key =>
      !((cycles wire ((redis.lists.lookup key).getD [])).filter (inWindow low high)).isEmpty).Subperm redis.keys := by
    refine List.subperm_of_subset (distinct.filter _) ?_
    intro key member
    have filled := (List.mem_filter.mp member).2
    cases found : redis.lists.lookup key with
    | none =>
      rw [found] at filled
      cases filled
    | some buffers =>
      obtain ⟨l₁,l₂,split,_⟩ := List.lookup_eq_some_iff.mp found
      rw [Redis.keys,split]
      simp
  have within := subperm_flatMap listed fun key => (cycles wire ((redis.lists.lookup key).getD [])).filter (inWindow low high)
  rw [flatMap_filter_filled,← stored_filter] at within
  exact within.trans List.filter_sublist.subperm

theorem insertionSort_ascending {numbers : List Int} (distinct : numbers.Nodup) :
    (numbers.insertionSort (· ≤ ·)).Pairwise (· < ·) := by
  have ascending : (numbers.insertionSort (· ≤ ·)).Pairwise (· ≤ ·) := List.pairwise_insertionSort _ _
  have distinct' := (List.perm_insertionSort (· ≤ ·) numbers).nodup_iff.mpr distinct
  exact (ascending.and distinct').imp fun {a b} ⟨le,ne⟩ => Int.lt_iff_le_and_ne.mpr ⟨le,ne⟩

/-- Each returned cycle lies in the window, none is returned more often than it is
    stored, and no list is read twice. -/
theorem getRange_sound {numbers : List Int} (keys : redis.keys.mapM int = .ok numbers) (distinct : numbers.Nodup)
    (positive : ∀ k ∈ numbers, 0 < k) (parses : ∀ entry ∈ redis.lists, ∀ b ∈ entry.2, (wire.parseData b).isSome)
    (low high : Int) : ∃ message, getRange wire redis low high = .ok message ∧
      (∀ x ∈ message.cycles, low < x.time ∧ x.time < high) ∧
      message.cycles.Subperm (stored wire redis) ∧
      ((readoutKeys low high (numbers.insertionSort (· ≤ ·)) [] 0).map Int.repr).Nodup := by
  have returns : getRange wire redis low high = .ok { DataMessage.empty with
      cycles := (readoutKeys low high (numbers.insertionSort (· ≤ ·)) [] 0).flatMap (inRange wire redis low high) } := by
    rw [getRange,keys]
    exact (readLists_ok wire low high parses _ _).trans rfl
  have names : ((readoutKeys low high (numbers.insertionSort (· ≤ ·)) [] 0).map Int.repr).Nodup := by
    have ascending := readoutKeys_ascending low high (insertionSort_ascending distinct) fun k member =>
      positive k ((List.perm_insertionSort _ _).mem_iff.mp member)
    exact List.Nodup.map repr_injective (ascending.imp Int.ne_of_lt)
  refine ⟨_,returns,fun x member => ?_,?_,names⟩
  · obtain ⟨key,_,inside⟩ := List.mem_flatMap.mp member
    simpa [inWindow] using (List.mem_filter.mp inside).2
  · have within := names_subperm wire redis low high names
    rw [List.flatMap_map] at within
    exact within

/-- The cycle at 150 is returned, of the list under 100 and the one under the missing key 0. -/
theorem getRange_sound_one : ∃ message, getRange .plain oneBatch 90 200 = .ok message ∧
    (∀ x ∈ message.cycles, 90 < (x.time : Int) ∧ (x.time : Int) < 200) ∧
    message.cycles.Subperm (stored .plain oneBatch) ∧
    ((readoutKeys 90 200 (([100] : List Int).insertionSort (· ≤ ·)) [] 0).map Int.repr).Nodup := by
  have keys : oneBatch.keys.mapM int = .ok [100] := mapM_int [100]
  exact getRange_sound keys (by decide) (by decide) oneBatch_partitioned.parses 90 200

end Opqbox.Scraper
