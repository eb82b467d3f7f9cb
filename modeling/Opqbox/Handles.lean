import Opqbox.Observers
import Opqbox.SettingsHistory

/-!
The handles of the callbacks. A key counts its handles from its entry on, so a handle
is given again after the key was erased, and a removal does not look whether there is
something to remove: a handle stands for its callback only while that is stored under
it (`precise_iff_held`), that is while it is the handle of no other call and its
callback was not removed or erased (`held_iff_inForce`).
-/
namespace Opqbox.Handles
open Opqbox.Runs Opqbox.Text Opqbox.Settings Opqbox.SettingsHistory

section Stored
variable {F : Type}

/-- The callback under a handle of a key. -/
def stored (settings : Settings F) (key : Str) (id : Int) : Option F :=
  (settings.settings.get key).bind (·.callbacks.get id)

theorem stored_setSetting (raises : F → OPQSetting → Bool) (settings : Settings F) (key : Str) (value : OPQSetting)
    (other : Str) (id : Int) : stored (settings.setSetting raises key value).1 other id = stored settings other id := by
  rw [stored,stored,Observers.get_setSetting]
  split_ifs with is
  · rw [is]
    cases settings.settings.get (trim key) <;> rfl
  · rfl

theorem stored_loadFromFile (cast : LexicalCast) (settings : Settings F) (infile : Option Str) (other : Str) (id : Int) :
    stored (settings.loadFromFile cast infile).1 other id = stored settings other id := by
  cases infile with
  | none => rfl
  | some text =>
    rw [loadFromFile]
    refine List.foldlRecOn (motive := fun loaded => stored loaded other id = stored settings other id) _ _ rfl ?_
    intro loaded same line _
    rw [loadLine]
    cases readLine cast line with
    | none => exact same
    | some read =>
      refine Eq.trans ?_ same
      simp only [stored,Observers.get_modify]
      split_ifs with is
      · rw [is]
        cases loaded.settings.get read.1 <;> rfl
      · rfl

theorem stored_erase (settings : Settings F) (key other : Str) (id : Int) :
    stored (settings.erase key).1 other id = if other = trim key then none else stored settings other id := by
  simp only [erase,locate_eq]
  cases present : settings.settings.get (trim key) with
  | none =>
    split_ifs with is
    · rw [is,stored,present]
      rfl
    · rfl
  | some entry =>
    simp only [stored,SortedMap.get_erase]
    split_ifs <;> rfl

/-- A callback is stored under the handle that is returned, unless the key is not set. -/
theorem stored_onChangeCallback {settings settings' : Settings F} {key : Str} {func : F} {id : Int}
    (registered : settings.onChangeCallback key func = some (settings',id)) (other : Str) (i : Int) :
    stored settings' other i =
      if other = trim key ∧ i = id ∧ (settings.settings.get (trim key)).isSome then some func
      else stored settings other i := by
  simp only [onChangeCallback,locate_eq] at registered
  cases present : settings.settings.get (trim key) with
  | none =>
    rw [present] at registered
    cases registered
    simp
  | some entry =>
    simp only [present] at registered
    split_ifs at registered
    cases registered
    simp only [stored,Observers.get_modify,present,Option.isSome_some,and_true]
    by_cases is : other = trim key
    · subst is
      by_cases here : i = entry.lastId + 1
      · simp [here]
      · simp [here,SortedMap.get_update_of_ne,present]
    · simp [is]

theorem stored_removeChangeCallback (settings : Settings F) (key : Str) (id : Int) (other : Str) (i : Int) :
    stored (settings.removeChangeCallback key id).1 other i =
      if other = trim key ∧ i = id then none else stored settings other i := by
  simp only [removeChangeCallback,locate_eq]
  cases present : settings.settings.get (trim key) with
  | none =>
    split_ifs with is
    · rw [is.1,stored,present]
      rfl
    · rfl
  | some entry =>
    simp only [stored,Observers.get_modify]
    by_cases is : other = trim key
    · subst is
      simp [present,SortedMap.get_erase]
    · simp [is]

/-- A removal returns whether the key is set. -/
theorem removeChangeCallback_returns (settings : Settings F) (key : Str) (id : Int) :
    (settings.removeChangeCallback key id).2 = (settings.settings.get (trim key)).isSome := by
  simp only [removeChangeCallback,locate_eq]
  cases settings.settings.get (trim key) <;> rfl

/-! ### Handles in use -/

/-- No callback has a greater handle than the last one given. -/
def Below (entry : SettingStruct F) : Prop := ∀ id func, entry.callbacks.get id = some func → id ≤ entry.lastId

/-- New handles are not in use. -/
def Bounded (settings : Settings F) : Prop := ∀ key entry, settings.settings.get key = some entry → Below entry

theorem Bounded.entry {settings : Settings F} (bounded : Bounded settings) (key : Str) :
    Below ((settings.settings.get key).getD .new) := by
  cases present : settings.settings.get key with
  | none => exact nofun
  | some entry => exact bounded key entry present

theorem Bounded.modify {settings : Settings F} (bounded : Bounded settings) {key : Str} {f : SettingStruct F → SettingStruct F}
    (below : Below (f ((settings.settings.get key).getD .new))) : Bounded (settings.modify key f) := by
  intro other entry found
  rw [Observers.get_modify] at found
  split_ifs at found
  · cases found
    exact below
  · exact bounded other entry found

theorem Bounded.setSetting {settings : Settings F} (bounded : Bounded settings) (raises : F → OPQSetting → Bool) (key : Str)
    (value : OPQSetting) : Bounded (settings.setSetting raises key value).1 := by
  intro other entry found
  rw [Observers.get_setSetting] at found
  split_ifs at found
  · cases found
    exact bounded.entry (trim key)
  · exact bounded other entry found

theorem Bounded.loadFromFile {settings : Settings F} (bounded : Bounded settings) (cast : LexicalCast) (infile : Option Str) :
    Bounded (settings.loadFromFile cast infile).1 := by
  cases infile with
  | none => exact bounded
  | some text =>
    intro key entry found
    obtain ⟨_,rfl,callbacks,last⟩ := Observers.get_loadLines found
    rw [Below,callbacks,last]
    exact bounded.entry key

theorem Bounded.erase {settings : Settings F} (bounded : Bounded settings) (key : Str) : Bounded (settings.erase key).1 := by
  intro other entry found
  simp only [Settings.erase,locate_eq] at found
  cases present : settings.settings.get (trim key) with
  | none =>
    rw [present] at found
    exact bounded other entry found
  | some _ =>
    simp only [present,SortedMap.get_erase] at found
    split_ifs at found
    exact bounded other entry found

theorem Bounded.onChangeCallback {settings settings' : Settings F} (bounded : Bounded settings) {key : Str} {func : F} {id : Int}
    (registered : settings.onChangeCallback key func = some (settings',id)) :
    Bounded settings' ∧ ((settings.settings.get (trim key)).isSome → stored settings (trim key) id = none) := by
  simp only [Settings.onChangeCallback,locate_eq] at registered
  cases present : settings.settings.get (trim key) with
  | none =>
    rw [present] at registered
    cases registered
    exact ⟨bounded,fun set => by cases set⟩
  | some entry =>
    have below := bounded (trim key) entry present
    simp only [present] at registered
    split_ifs at registered
    cases registered
    refine ⟨(bounded.modify ?_).modify ?_,fun _ => ?_⟩
    · intro i f listed
      have := below i f (by simpa [present] using listed)
      simp [present]
      omega
    · intro i f listed
      by_cases own : i = entry.lastId + 1
      · simp [Observers.get_modify,present,own]
      · have := below i f (by simpa [Observers.get_modify,present,SortedMap.get_update_of_ne _ own] using listed)
        simp [Observers.get_modify,present]
        omega
    · by_contra used
      obtain ⟨func',found⟩ := Option.ne_none_iff_exists'.mp used
      rw [stored,present] at found
      have := below _ func' found
      omega

theorem Bounded.removeChangeCallback {settings : Settings F} (bounded : Bounded settings) (key : Str) (id : Int) :
    Bounded (settings.removeChangeCallback key id).1 := by
  simp only [Settings.removeChangeCallback,locate_eq]
  cases present : settings.settings.get (trim key) with
  | none => exact bounded
  | some entry =>
    refine bounded.modify ?_
    intro i func listed
    rw [present,Option.getD_some] at listed ⊢
    rw [SortedMap.get_erase] at listed
    split_ifs at listed
    exact bounded (trim key) entry present i func listed

end Stored

/-- The callbacks are the numbers of the calls that registered them. -/
structure System where
  settings : Settings Nat
  /-- The key and the result of each call of `onChangeCallback`. -/
  given : List (Str × Int)

def System.start : System := ⟨.new,[]⟩

def step (raises : Nat → OPQSetting → Bool) (cast : LexicalCast) (s : System) : Call Unit → Option System
  | .setSetting key value => some { s with settings := (s.settings.setSetting raises key value).1 }
  | .loadFromFile infile => some { s with settings := (s.settings.loadFromFile cast infile).1 }
  | .erase key => some { s with settings := (s.settings.erase key).1 }
  | .clear => some { s with settings := s.settings.clear }
  | .onChangeCallback key _ =>
    (s.settings.onChangeCallback key s.given.length).map fun registered =>
      ⟨registered.1,s.given ++ [(trim key,registered.2)]⟩
  | .removeChangeCallback key id => some { s with settings := (s.settings.removeChangeCallback key id).1 }

/-- The callback of a call is still registered. -/
def System.Registered (s : System) (n : Nat) : Prop := ∃ key id, stored s.settings key id = some n

/-- A removal with the result of an earlier call on the key removes exactly the
    callback of that call, and returns whether it removed it. -/
def Precise (s : System) : Call Unit → System → Prop
  | .removeChangeCallback key id,t => ∀ n : Nat, s.given[n]? = some (trim key,id) →
      (∀ m, t.Registered m ↔ s.Registered m ∧ m ≠ n) ∧
        ((s.settings.removeChangeCallback key id).2 = true ↔ s.Registered n)
  | _,_ => True

/-- What is stored under the handle is the callback of every call that returned it,
    or the key is not set. -/
def Held (s : System) : Call Unit → System → Prop
  | .removeChangeCallback key id,_ => ∀ n : Nat, s.given[n]? = some (trim key,id) →
      s.settings.find (trim key) = none ∨ stored s.settings (trim key) id = some n
  | _,_ => True

/-- A callback is where the call that registered it was told. -/
def Told (s : System) : Prop := ∀ key id n, stored s.settings key id = some n → s.given[n]? = some (key,id)

variable {raises : Nat → OPQSetting → Bool} {cast : LexicalCast} {s t : System} {c : Call Unit}

theorem told_start : Told .start := nofun

theorem Told.step (told : Told s) (taken : step raises cast s c = some t) : Told t := by
  intro key id n found
  cases c with
  | setSetting key' value =>
    cases taken
    rw [stored_setSetting] at found
    exact told key id n found
  | loadFromFile infile =>
    cases taken
    rw [stored_loadFromFile] at found
    exact told key id n found
  | erase key' =>
    cases taken
    rw [stored_erase] at found
    split_ifs at found
    exact told key id n found
  | clear =>
    cases taken
    cases found
  | onChangeCallback key' func =>
    obtain ⟨⟨settings,id'⟩,registered,rfl⟩ := Option.map_eq_some_iff.mp taken
    rw [stored_onChangeCallback registered] at found
    split_ifs at found with here
    · cases found
      obtain ⟨rfl,rfl,_⟩ := here
      simp
    · have before := told key id n found
      obtain ⟨earlier,_⟩ := List.getElem?_eq_some_iff.mp before
      exact (List.getElem?_append_left earlier).trans before
  | removeChangeCallback key' id' =>
    cases taken
    rw [stored_removeChangeCallback] at found
    split_ifs at found
    exact told key id n found

theorem Told.precise_iff (told : Told s) (taken : Handles.step raises cast s c = some t) :
    Precise s c t ↔ Held s c t := by
  cases c with
  | removeChangeCallback key id =>
    cases taken
    refine forall₂_congr fun n given => ?_
    rw [removeChangeCallback_returns,Option.isSome_iff_ne_none,find,Option.map_eq_none_iff]
    -- The callback of the call can only be under its own handle.
    have own : s.Registered n ↔ stored s.settings (trim key) id = some n := by
      refine ⟨?_,fun found => ⟨_,_,found⟩⟩
      rintro ⟨key',id',found⟩
      cases given.symm.trans (told key' id' n found)
      exact found
    have removed (m : Nat) : System.Registered { s with settings := (s.settings.removeChangeCallback key id).1 } m ↔
        ∃ key' id', ¬ (key' = trim key ∧ id' = id) ∧ stored s.settings key' id' = some m := by
      simp only [System.Registered,stored_removeChangeCallback,ite_eq_iff,reduceCtorEq,and_false,false_or]
    rw [own]
    constructor
    · rintro ⟨_,returned⟩
      exact or_iff_not_imp_left.mpr returned.mp
    · intro held
      refine ⟨fun m => ?_,?_⟩
      · rw [removed]
        constructor
        · rintro ⟨key',id',elsewhere,found⟩
          refine ⟨⟨key',id',found⟩,?_⟩
          rintro rfl
          cases given.symm.trans (told key' id' m found)
          exact elsewhere ⟨rfl,rfl⟩
        · rintro ⟨⟨key',id',found⟩,other⟩
          refine ⟨key',id',?_,found⟩
          rintro ⟨rfl,rfl⟩
          rcases held with absent | here
          · rw [stored,absent] at found
            cases found
          · exact other (Option.some.inj (found.symm.trans here))
      · rcases held with absent | here
        · simp [stored,absent]
        · refine iff_of_true (fun absent => ?_) here
          rw [stored,absent] at here
          cases here
  | _ => exact Iff.rfl

/-- In every run the removals are precise exactly as long as they are called with
    handles whose callback is still stored under them, or on keys that are not set. -/
theorem precise_iff_held (raises : Nat → OPQSetting → Bool) (cast : LexicalCast) (calls : List (Call Unit)) :
    Along (step raises cast) Precise .start calls ↔ Along (step raises cast) Held .start calls :=
  along_iff Told (fun _ _ _ told taken _ => told.step taken) (fun _ _ _ told taken => told.precise_iff taken) told_start

/-- The last call of a run. -/
theorem held_of_precise (calls : List (Call Unit)) (along : Along (step raises cast) Precise .start (calls ++ [c]))
    (ran : run (step raises cast) .start calls = some s) (taken : step raises cast s c = some t) : Held s c t := by
  have told : Told s := run_invariant (fun _ _ _ told taken => told.step taken) told_start ran
  exact (told.precise_iff taken).mp (along.at [] ran taken)

/-! ### Registrations in force -/

/-- The calls that registered on a key that was set, less those whose handle was
    removed or whose key was erased since. -/
def inForce (s : System) (c : Call Unit) (force : List Nat) : List Nat :=
  match c with
  | .onChangeCallback key _ => if (s.settings.find (trim key)).isSome then force ++ [s.given.length] else force
  | .removeChangeCallback key id => force.filter fun n => s.given[n]? ≠ some (trim key,id)
  | .erase key => force.filter fun n => s.given[n]?.map Prod.fst ≠ some (trim key)
  | .clear => []
  | .setSetting _ _ => force
  | .loadFromFile _ => force

structure InForce (p : System × List Nat) : Prop where
  told : Told p.1
  bounded : Bounded p.1.settings
  registered : ∀ n key id, p.1.given[n]? = some (key,id) → (n ∈ p.2 ↔ stored p.1.settings key id = some n)
  given : ∀ n ∈ p.2, n < p.1.given.length

/-- A new registration is in force where the key is set. -/
theorem InForce.onChangeCallback {force : List Nat} (known : InForce (s,force)) {key : Str} {settings : Settings Nat} {id : Int}
    (called : s.settings.onChangeCallback key s.given.length = some (settings,id)) {func : Unit}
    (told : Told ⟨settings,s.given ++ [(trim key,id)]⟩) :
    InForce (⟨settings,s.given ++ [(trim key,id)]⟩,Handles.inForce s (.onChangeCallback key func) force) := by
  obtain ⟨known_told,bounded,registered,given⟩ := known
  obtain ⟨bounded',fresh⟩ := bounded.onChangeCallback called
  have set : (s.settings.find (trim key)).isSome = (s.settings.settings.get (trim key)).isSome := by simp [find]
  have last : s.given.length ∉ force := fun member => Nat.lt_irrefl _ (given _ member)
  refine ⟨told,bounded',?_,?_⟩
  · intro n key' i is
    change (s.given ++ [(trim key,id)])[n]? = some (key',i) at is
    simp only [Handles.inForce,set]
    rw [stored_onChangeCallback called]
    by_cases earlier : n < s.given.length
    · rw [List.getElem?_append_left earlier] at is
      have member := registered n key' i is
      have other : s.given.length ≠ n := Nat.ne_of_gt earlier
      by_cases here : key' = trim key ∧ i = id ∧ (s.settings.settings.get (trim key)).isSome
      · obtain ⟨rfl,rfl,present⟩ := here
        simp only at member
        simp [present,member,fresh present,other,other.symm]
      · simp only at member
        rw [if_neg here,← member]
        split_ifs <;> simp [other.symm]
    · have inside := (List.getElem?_eq_some_iff.mp is).1
      obtain rfl : n = s.given.length := by simp at inside; omega
      rw [List.getElem?_concat_length] at is
      cases is
      by_cases present : (s.settings.settings.get (trim key)).isSome
      · simp [present]
      · have none_there : stored s.settings (trim key) id ≠ some s.given.length := by
          intro found
          have earlier := known_told _ _ _ found
          simp at earlier
        simp [present,last,none_there]
  · intro n member
    simp only [Handles.inForce] at member
    show n < (s.given ++ [_]).length
    rw [List.length_append,List.length_singleton]
    split_ifs at member
    · rcases List.mem_append.mp member with old | new
      · exact Nat.lt_succ_of_lt (given n old)
      · rw [List.mem_singleton.mp new]
        exact Nat.lt_succ_self _
    · exact Nat.lt_succ_of_lt (given n member)

theorem InForce.step {p q : System × List Nat} {c : Call Unit} (known : InForce p)
    (taken : noting Handles.inForce (step raises cast) p c = some q) : InForce q := by
  obtain ⟨s,force⟩ := p
  obtain ⟨t,force'⟩ := q
  obtain ⟨taken,rfl⟩ := noting_inv Handles.inForce taken
  obtain ⟨told,bounded,registered,given⟩ := known
  have told' : Told t := told.step taken
  cases c with
  | setSetting key value =>
    cases taken
    refine ⟨told',bounded.setSetting raises key value,?_,given⟩
    intro n key' id is
    rw [stored_setSetting]
    exact registered n key' id is
  | loadFromFile infile =>
    cases taken
    refine ⟨told',bounded.loadFromFile cast infile,?_,given⟩
    intro n key' id is
    rw [stored_loadFromFile]
    exact registered n key' id is
  | erase key =>
    cases taken
    refine ⟨told',bounded.erase key,?_,fun n member => given n (List.mem_of_mem_filter member)⟩
    intro n key' id is
    change s.given[n]? = some (key',id) at is
    have member := registered n key' id is
    simp only at member
    simp only [Handles.inForce,List.mem_filter,member,is,stored_erase,Option.map_some]
    by_cases same : key' = trim key <;> simp [same]
  | clear =>
    cases taken
    refine ⟨told',nofun,?_,nofun⟩
    intro n key' id _
    simp [Handles.inForce,stored,Settings.clear]
  | onChangeCallback key func =>
    obtain ⟨⟨settings,id⟩,called,rfl⟩ := Option.map_eq_some_iff.mp taken
    exact InForce.onChangeCallback ⟨told,bounded,registered,given⟩ called told'
  | removeChangeCallback key id =>
    cases taken
    refine ⟨told',bounded.removeChangeCallback key id,?_,fun n member => given n (List.mem_of_mem_filter member)⟩
    intro n key' i is
    change s.given[n]? = some (key',i) at is
    have member := registered n key' i is
    simp only at member
    simp only [Handles.inForce,List.mem_filter,member,is,stored_removeChangeCallback]
    by_cases same : key' = trim key ∧ i = id
    · simp [same.1,same.2]
    · simp [same,Prod.ext_iff]

theorem start_inForce : InForce (.start,[]) where
  told := told_start
  bounded := nofun
  registered _ _ _ is := by cases is
  given _ member := by cases member

/-- The condition at a removal: the key is not set, or the handle was returned by
    one call only, which registered on a key that was set, and its callback was not
    removed, erased or cleared since. -/
theorem held_iff_inForce {calls : List (Call Unit)} {s : System} {force : List Nat}
    (ran : run (noting inForce (step raises cast)) (.start,[]) calls = some (s,force)) (key : Str) (id : Int) (t : System) :
    Held s (.removeChangeCallback key id) t ↔ s.settings.find (trim key) = none ∨
      ∀ n, s.given[n]? = some (trim key,id) → n ∈ force ∧ ∀ m, s.given[m]? = some (trim key,id) → m = n := by
  have known := run_invariant (fun _ _ _ known taken => InForce.step known taken) start_inForce ran
  have member (n : Nat) (given : s.given[n]? = some (trim key,id)) := known.registered n (trim key) id given
  simp only at member
  by_cases absent : s.settings.find (trim key) = none
  · exact iff_of_true (fun _ _ => .inl absent) (.inl absent)
  · constructor
    · intro held
      refine .inr fun n given => ?_
      have own := (held n given).resolve_left absent
      refine ⟨(member n given).mpr own,fun m given' => ?_⟩
      exact Option.some.inj (((held m given').resolve_left absent).symm.trans own)
    · intro unique n given
      exact .inr ((member n given).mp ((unique.resolve_left absent) n given).1)

/-- A handle that is removed twice, and one that is given again after its key was erased. -/
theorem imprecise : (¬ Along (step (fun _ _ => false) SettingsFile.decimal) Precise .start
      [.setSetting ['k'] (.int 0),.onChangeCallback ['k'] (),.removeChangeCallback ['k'] 1,.removeChangeCallback ['k'] 1]) ∧
    ¬ Along (step (fun _ _ => false) SettingsFile.decimal) Precise .start
      [.setSetting ['k'] (.int 0),.onChangeCallback ['k'] (),.erase ['k'],.setSetting ['k'] (.int 0),
        .onChangeCallback ['k'] (),.removeChangeCallback ['k'] 1] := by
  constructor
  · intro along
    have held := held_of_precise [.setSetting ['k'] (.int 0),.onChangeCallback ['k'] (),.removeChangeCallback ['k'] 1]
      along rfl rfl 0 rfl
    revert held
    decide +kernel
  · intro along
    have held := held_of_precise
      [.setSetting ['k'] (.int 0),.onChangeCallback ['k'] (),.erase ['k'],.setSetting ['k'] (.int 0),
        .onChangeCallback ['k'] ()]
      along rfl rfl 0 rfl
    revert held
    decide +kernel

end Opqbox.Handles
