import Mathlib.Data.List.Lex
import Mathlib.Order.Lattice

/-!
Maps that are ordered by their keys, as lists of entries. The search for the
first key that is not below a given one (`lower_bound`) finds the entry of the
key or the place where it belongs. Every operation is specified by what the map
finds under each key.
-/
namespace Opqbox

/-- The entries of a map, the least key first. -/
structure SortedMap (κ ν : Type*) [LinearOrder κ] where
  entries : List (κ × ν)
  sorted : entries.Pairwise fun a b => a.1 < b.1

namespace SortedMap
variable {κ ν : Type*} [LinearOrder κ]

/-- What is listed under a key. -/
def search (key : κ) : List (κ × ν) → Option ν
  | [] => none
  | e :: rest => if e.1 = key then some e.2 else search key rest

/-- The entries after a change of the value under a key, which is `default`
    where the key is new. -/
def change (key : κ) (default : ν) (f : ν → ν) : List (κ × ν) → List (κ × ν)
  | [] => [(key,f default)]
  | e :: rest =>
    if key < e.1 then (key,f default) :: e :: rest
    else if key = e.1 then (key,f e.2) :: rest
    else e :: change key default f rest

theorem mem_change {key : κ} {default : ν} {f : ν → ν} {e : κ × ν} {entries : List (κ × ν)}
    (member : e ∈ change key default f entries) : e.1 = key ∨ e ∈ entries := by
  induction entries with
  | nil => simp [change] at member; simp [member]
  | cons first rest ih =>
    rw [change] at member
    split_ifs at member with before same
    · rcases List.mem_cons.mp member with rfl | old
      · exact .inl rfl
      · exact .inr old
    · rcases List.mem_cons.mp member with rfl | old
      · exact .inl rfl
      · exact .inr (List.mem_cons_of_mem _ old)
    · rcases List.mem_cons.mp member with rfl | old
      · exact .inr (List.mem_cons_self ..)
      · exact (ih old).imp_right (List.mem_cons_of_mem _)

theorem change_sorted (key : κ) (default : ν) (f : ν → ν) {entries : List (κ × ν)}
    (sorted : entries.Pairwise fun a b => a.1 < b.1) :
    (change key default f entries).Pairwise fun a b => a.1 < b.1 := by
  induction entries with
  | nil => simp [change]
  | cons first rest ih =>
    obtain ⟨later,order⟩ := List.pairwise_cons.mp sorted
    rw [change]
    split_ifs with before same
    · refine List.pairwise_cons.mpr ⟨?_,sorted⟩
      intro e member
      rcases List.mem_cons.mp member with rfl | old
      · exact before
      · exact before.trans (later e old)
    · exact List.pairwise_cons.mpr ⟨fun e member => same ▸ later e member,order⟩
    · refine List.pairwise_cons.mpr ⟨?_,ih order⟩
      intro e member
      rcases mem_change member with is | old
      · exact is ▸ lt_of_le_of_ne (not_lt.mp before) (Ne.symm same)
      · exact later e old

/-! ### Operations -/

def empty : SortedMap κ ν := ⟨[],List.Pairwise.nil⟩

/-- The value under a key. -/
def get (map : SortedMap κ ν) (key : κ) : Option ν := search key map.entries

/-- The first entry whose key is not below the given one. -/
def lower_bound (map : SortedMap κ ν) (key : κ) : Option (κ × ν) := map.entries.find? fun e => ¬ e.1 < key

/-- The value under a key is changed, from `default` where the key is new. -/
def update (map : SortedMap κ ν) (key : κ) (default : ν) (f : ν → ν) : SortedMap κ ν :=
  ⟨change key default f map.entries,change_sorted key default f map.sorted⟩

def erase (map : SortedMap κ ν) (key : κ) : SortedMap κ ν :=
  ⟨map.entries.filter fun e => e.1 ≠ key,map.sorted.filter _⟩

/-! ### What they find -/

@[simp] theorem get_empty (key : κ) : (empty : SortedMap κ ν).get key = none := rfl

/-- Below all keys of the entries nothing is listed. -/
theorem search_above {key : κ} {entries : List (κ × ν)} (above : ∀ e ∈ entries, key < e.1) :
    search key entries = none := by
  induction entries with
  | nil => rfl
  | cons e rest ih =>
    rw [search,if_neg (above e (List.mem_cons_self ..)).ne']
    exact ih fun e member => above e (List.mem_cons_of_mem _ member)

theorem search_change_self (key : κ) (default : ν) (f : ν → ν) {entries : List (κ × ν)}
    (sorted : entries.Pairwise fun a b => a.1 < b.1) :
    search key (change key default f entries) = some (f ((search key entries).getD default)) := by
  induction entries with
  | nil => simp [change,search]
  | cons first rest ih =>
    obtain ⟨later,order⟩ := List.pairwise_cons.mp sorted
    rw [change]
    split_ifs with before same
    · have absent : search key (first :: rest) = none := by
        apply search_above
        intro e member
        rcases List.mem_cons.mp member with rfl | old
        · exact before
        · exact before.trans (later e old)
      rw [search,if_pos rfl,absent,Option.getD_none]
    · rw [search,if_pos rfl,search,if_pos same.symm,Option.getD_some]
    · rw [search,if_neg (Ne.symm same),ih order,search,if_neg (Ne.symm same)]

theorem search_change_of_ne {key other : κ} (ne : other ≠ key) (default : ν) (f : ν → ν) (entries : List (κ × ν)) :
    search other (change key default f entries) = search other entries := by
  induction entries with
  | nil => simp [change,search,ne.symm]
  | cons first rest ih =>
    rw [change]
    split_ifs with before same
    · rw [search,if_neg ne.symm]
    · rw [search,if_neg ne.symm,search,if_neg (same ▸ ne.symm)]
    · rw [search,ih,search]

@[simp] theorem get_update_self (map : SortedMap κ ν) (key : κ) (default : ν) (f : ν → ν) :
    (map.update key default f).get key = some (f ((map.get key).getD default)) :=
  search_change_self key default f map.sorted

theorem get_update_of_ne (map : SortedMap κ ν) {key other : κ} (ne : other ≠ key) (default : ν) (f : ν → ν) :
    (map.update key default f).get other = map.get other :=
  search_change_of_ne ne default f map.entries

theorem get_erase (map : SortedMap κ ν) (key other : κ) :
    (map.erase key).get other = if other = key then none else map.get other := by
  change search other (map.entries.filter fun e => e.1 ≠ key) = if other = key then none else search other map.entries
  induction map.entries with
  | nil => simp [search]
  | cons e rest ih =>
    by_cases dropped : e.1 = key
    · rw [List.filter_cons_of_neg (by simpa using dropped),ih,search]
      by_cases is : other = key
      · simp [is]
      · rw [if_neg is,if_neg is,if_neg (dropped ▸ Ne.symm is)]
    · rw [List.filter_cons_of_pos (by simpa using dropped),search,ih,search]
      by_cases is : other = key
      · rw [if_pos is,if_pos is,if_neg (is ▸ dropped)]
      · rw [if_neg is,if_neg is]

/-- A new key adds an entry. -/
theorem entries_update_new {map : SortedMap κ ν} {key : κ} (new : map.get key = none) (default : ν) (f : ν → ν) :
    (map.update key default f).entries.Perm ((key,f default) :: map.entries) := by
  change (change key default f map.entries).Perm ((key,f default) :: map.entries)
  change search key map.entries = none at new
  generalize map.entries = entries at new ⊢
  induction entries with
  | nil => exact .refl _
  | cons e rest ih =>
    rw [search] at new
    split_ifs at new with is
    rw [change]
    split_ifs with before same
    · exact .refl _
    · exact absurd same.symm is
    · exact ((ih new).cons e).trans (.swap ..)

theorem mem_entries (map : SortedMap κ ν) (key : κ) (value : ν) :
    (key,value) ∈ map.entries ↔ map.get key = some value := by
  obtain ⟨entries,sorted⟩ := map
  unfold get
  induction entries with
  | nil => simp [search]
  | cons e rest ih =>
    obtain ⟨later,order⟩ := List.pairwise_cons.mp sorted
    rw [List.mem_cons,search,ih order]
    by_cases is : e.1 = key
    · have absent : search key rest ≠ some value := fun found =>
        (later _ ((ih order).mpr found)).ne is
      simp only [if_pos is,absent,or_false,Option.some.injEq]
      constructor
      · rintro rfl
        rfl
      · rintro rfl
        rw [← is]
    · have other : (key,value) ≠ e := fun same => is (same ▸ rfl)
      simp [is,other]

/-- The search by `lower_bound` and the comparison of the key found. -/
theorem get_eq_lower_bound (map : SortedMap κ ν) (key : κ) :
    map.get key = (map.lower_bound key).bind fun pos => if key < pos.1 then none else some pos.2 := by
  obtain ⟨entries,sorted⟩ := map
  unfold get lower_bound
  induction entries with
  | nil => rfl
  | cons e rest ih =>
    obtain ⟨later,order⟩ := List.pairwise_cons.mp sorted
    rw [search]
    rcases lt_trichotomy e.1 key with below | is | above
    · rw [if_neg below.ne,List.find?_cons_of_neg (by simpa using below)]
      exact ih order
    · rw [if_pos is,List.find?_cons_of_pos (by simp [is])]
      simp [is]
    · rw [if_neg above.ne',List.find?_cons_of_pos (by simpa using above.le)]
      have absent : search key rest = none := by
        rw [Option.eq_none_iff_forall_not_mem]
        intro value found
        exact (above.trans (later _ ((mem_entries ⟨rest,order⟩ key value).mpr found))).false
      simp [absent,above]

end SortedMap

end Opqbox
