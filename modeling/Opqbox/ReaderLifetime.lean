import Opqbox.Handles

/-!
Readers that come and go. The destructor of a `Reader` passes its copy of the setting
where the handle of its callback belongs, so the callback outlives the reader, and that of
another may go instead, unless the two numbers are the same (`lifetime`).
-/
namespace Opqbox.ReaderLifetime
open Opqbox.Handles Opqbox.Observers Opqbox.Runs Opqbox.Settings

/-- The callback of a reader, or another one. -/
inductive Callback (C : Type) where
  | reader (n : Nat)
  | client (func : C)

structure System (C : Type) where
  settings : Settings (Callback C)
  /-- All readers in the order of their construction, `none` where it was destroyed. -/
  readers : List (Option Reader)

variable {C : Type}

def System.start : System C := ⟨.new,[]⟩

inductive Action (C : Type) where
  | construct
  | destroy (n : Nat)
  | onChangeCallback (func : C)
  | setSetting (value : OPQSetting)

def raises (fails : C → OPQSetting → Bool) : Callback C → OPQSetting → Bool
  | .reader _,s => (s.get .int).isNone
  | .client func,s => fails func s

/-- A callback is called; that of a destroyed reader is undefined, and does nothing here. -/
def System.invoke (value : OPQSetting) (s : System C) : Callback C → System C
  | .reader n => { s with readers := s.readers.modify n (Option.map (·.onFramesPerMeasurementChange value)) }
  | .client _ => s

def step (fails : C → OPQSetting → Bool) (s : System C) : Action C → Option (System C)
  | .construct =>
    let frames := s.settings.getInt frames_per_measurement
    (s.settings.onChangeCallback frames_per_measurement (.reader s.readers.length)).map fun registered =>
      ⟨registered.1,s.readers ++ [some ⟨frames,registered.2⟩]⟩
  | .destroy n =>
    match s.readers[n]? with
    | some (some reader) =>
      -- The destructor passes `_frames_per_measurement`.
      some ⟨(s.settings.removeChangeCallback frames_per_measurement reader.frames_per_measurement.toInt).1,
        s.readers.set n none⟩
    | _ => none
  | .onChangeCallback func =>
    (s.settings.onChangeCallback frames_per_measurement (.client func)).map fun registered =>
      { s with settings := registered.1 }
  | .setSetting value =>
    let (settings,funcs) := s.settings.setSetting (raises fails) frames_per_measurement value
    some (funcs.foldl (System.invoke value) { s with settings := settings })

/-- The callback under a handle of the readers' key. -/
def System.callback (s : System C) (id : Int) : Option (Callback C) := stored s.settings frames_per_measurement id

/-- No callback of a destroyed reader is called, and a destructor removes no other callback than its own. -/
def Safe (fails : C → OPQSetting → Bool) (s : System C) : Action C → System C → Prop
  | .setSetting value,_ => ∀ n, .reader n ∈ (s.settings.setSetting (raises fails) frames_per_measurement value).2 →
      s.readers[n]? ≠ some none
  | .destroy n,t => ∀ id func, s.callback id = some func → func ≠ .reader n → t.callback id = some func
  | _,_ => True

/-- A reader that is destroyed has no callback, or its copy of the setting is the handle of it. -/
def Own (s : System C) : Action C → System C → Prop
  | .destroy n,_ => ∀ reader, s.readers[n]? = some (some reader) →
      reader.fpm_callback_id = -1 ∨ reader.frames_per_measurement.toInt = reader.fpm_callback_id
  | _,_ => True

/-! ### What the actions do -/

/-- The last handle of the key. -/
def lastId (settings : Settings (Callback C)) : Int :=
  ((settings.settings.get frames_per_measurement).map SettingStruct.lastId).getD 0

theorem lastId_setSetting (raises : Callback C → OPQSetting → Bool) (settings : Settings (Callback C))
    (value : OPQSetting) : lastId (settings.setSetting raises frames_per_measurement value).1 = lastId settings := by
  rw [lastId,lastId,get_setSetting,trim_frames_per_measurement,if_pos rfl]
  cases settings.settings.get frames_per_measurement <;> rfl

theorem lastId_removeChangeCallback (settings : Settings (Callback C)) (id : Int) :
    lastId (settings.removeChangeCallback frames_per_measurement id).1 = lastId settings := by
  simp only [removeChangeCallback,locate_eq,trim_frames_per_measurement]
  cases present : settings.settings.get frames_per_measurement with
  | none => rfl
  | some entry => simp [lastId,get_modify,present]

/-- The callbacks called are stored under handles. -/
theorem called_stored {raises : Callback C → OPQSetting → Bool} {settings : Settings (Callback C)} {value : OPQSetting}
    {func : Callback C} (member : func ∈ (settings.setSetting raises frames_per_measurement value).2) :
    ∃ id, stored settings frames_per_measurement id = some func := by
  rw [setSetting_called,trim_frames_per_measurement] at member
  have listed := (called_front raises value _).subset member
  rw [callbacks] at listed
  cases present : settings.settings.get frames_per_measurement with
  | none =>
    rw [present] at listed
    cases listed
  | some entry =>
    rw [present] at listed
    obtain ⟨⟨id,func⟩,under,rfl⟩ := List.mem_map.mp listed
    refine ⟨id,?_⟩
    rw [stored,present]
    exact (SortedMap.mem_entries ..).mp under

/-- Where none raises, all that are stored are called. -/
theorem stored_called {raises : Callback C → OPQSetting → Bool} {settings : Settings (Callback C)} {value : OPQSetting}
    (quiet : ∀ func, raises func value = false) {id : Int} {func : Callback C}
    (found : stored settings frames_per_measurement id = some func) :
    func ∈ (settings.setSetting raises frames_per_measurement value).2 := by
  rw [setSetting_called,trim_frames_per_measurement,called_eq_iff.mpr fun func _ => quiet func,callbacks]
  obtain ⟨entry,present,under⟩ := Option.bind_eq_some_iff.mp found
  rw [present]
  exact List.mem_map.mpr ⟨(id,func),(SortedMap.mem_entries ..).mpr under,rfl⟩

/-- The callbacks called change nothing but the copies of readers. -/
theorem invokes (value : OPQSetting) (funcs : List (Callback C)) (s : System C) :
    (funcs.foldl (System.invoke value) s).settings = s.settings ∧
      ∀ n : Nat, (funcs.foldl (System.invoke value) s).readers[n]?.map (Option.map Reader.fpm_callback_id) =
          s.readers[n]?.map (Option.map Reader.fpm_callback_id) ∧
        (.reader n ∉ funcs → (funcs.foldl (System.invoke value) s).readers[n]? = s.readers[n]?) := by
  induction funcs generalizing s with
  | nil => exact ⟨rfl,fun n => ⟨rfl,fun _ => rfl⟩⟩
  | cons func rest ih =>
    obtain ⟨settings,readers⟩ := ih (s.invoke value func)
    rw [List.foldl_cons]
    have later {n : Nat} (others : .reader n ∉ func :: rest) : .reader n ∉ rest :=
      fun member => others (List.mem_cons_of_mem _ member)
    cases func with
    | client func => exact ⟨settings,fun n => ⟨(readers n).1,fun others => (readers n).2 (later others)⟩⟩
    | reader m =>
      refine ⟨settings,fun n => ⟨(readers n).1.trans ?_,fun others => ((readers n).2 (later others)).trans ?_⟩⟩
      · have same (reader : Reader) :
            (reader.onFramesPerMeasurementChange value).fpm_callback_id = reader.fpm_callback_id := by
          rw [Reader.onFramesPerMeasurementChange]
          split <;> rfl
        simp only [System.invoke,List.getElem?_modify]
        split_ifs with is
        · cases s.readers[n]? with
          | none => rfl
          | some reader => cases reader <;> simp [same]
        · simp
      · have other : m ≠ n := fun is => others (is ▸ List.mem_cons_self)
        simp [System.invoke,other]

/-- The handle that a reader got, `some none` where it was destroyed. -/
def System.handle (s : System C) (n : Nat) : Option (Option Int) := s.readers[n]?.map (Option.map Reader.fpm_callback_id)

theorem handle_destroyed {s : System C} {n : Nat} : s.handle n = some none ↔ s.readers[n]? = some none := by
  rw [System.handle]
  cases s.readers[n]? with
  | none => simp
  | some reader => cases reader <;> simp

/-- What an action does to the callbacks and the handles of the readers. -/
inductive Effect (fails : C → OPQSetting → Bool) (s : System C) : Action C → System C → Prop where
  | construct {t : System C} {id : Int}
      (registered : s.settings.onChangeCallback frames_per_measurement (.reader s.readers.length) = some (t.settings,id))
      (readers : t.readers = s.readers ++ [some ⟨s.settings.getInt frames_per_measurement,id⟩])
      (handle : t.handle = Function.update s.handle s.readers.length (some (some id))) : Effect fails s .construct t
  | destroy {t : System C} {n : Nat} {reader : Reader} (present : s.readers[n]? = some (some reader))
      (readers : t.readers = s.readers.set n none) (last : lastId t.settings = lastId s.settings)
      (handle : t.handle = Function.update s.handle n (some none))
      (callback : t.callback = Function.update s.callback reader.frames_per_measurement.toInt none) :
      Effect fails s (.destroy n) t
  | onChangeCallback {t : System C} {func : C} {id : Int}
      (registered : s.settings.onChangeCallback frames_per_measurement (.client func) = some (t.settings,id))
      (readers : t.readers = s.readers) (handle : t.handle = s.handle) : Effect fails s (.onChangeCallback func) t
  | setSetting {t : System C} {value : OPQSetting} (last : lastId t.settings = lastId s.settings)
      (handle : t.handle = s.handle) (callback : t.callback = s.callback)
      (others : ∀ n, .reader n ∉ (s.settings.setSetting (raises fails) frames_per_measurement value).2 →
        t.readers[n]? = s.readers[n]?) : Effect fails s (.setSetting value) t

theorem effect {fails : C → OPQSetting → Bool} {s t : System C} {a : Action C} (taken : step fails s a = some t) :
    Effect fails s a t := by
  cases a with
  | construct =>
    obtain ⟨⟨settings,id⟩,registered,rfl⟩ := Option.map_eq_some_iff.mp taken
    refine .construct registered rfl (funext fun n => ?_)
    rw [Function.update_apply,System.handle]
    split_ifs with is
    · subst is
      simp
    · rw [System.handle,List.getElem?_append]
      split_ifs with inside
      · rfl
      · rw [List.getElem?_eq_none (by simp; omega),List.getElem?_eq_none (by omega)]
  | destroy n =>
    rw [step] at taken
    split at taken
    · next reader present =>
      cases taken
      refine .destroy present rfl (lastId_removeChangeCallback ..) (funext fun m => ?_) (funext fun i => ?_)
      · obtain ⟨inside,_⟩ := List.getElem?_eq_some_iff.mp present
        rw [Function.update_apply,System.handle,List.getElem?_set]
        by_cases is : n = m
        · rw [if_pos is,if_pos inside,if_pos is.symm]
          rfl
        · rw [if_neg is,if_neg (Ne.symm is)]
          rfl
      · rw [System.callback,stored_removeChangeCallback,Function.update_apply,trim_frames_per_measurement]
        simp [System.callback]
    · cases taken
  | onChangeCallback func =>
    obtain ⟨⟨settings,id⟩,registered,rfl⟩ := Option.map_eq_some_iff.mp taken
    exact .onChangeCallback registered rfl rfl
  | setSetting value =>
    have last := lastId_setSetting (raises fails) s.settings value
    have stores := stored_setSetting (raises fails) s.settings frames_per_measurement value frames_per_measurement
    obtain ⟨settings,funcs,pair⟩ : ∃ settings funcs,
      s.settings.setSetting (raises fails) frames_per_measurement value = (settings,funcs) := ⟨_,_,rfl⟩
    rw [step,pair] at taken
    rw [pair] at last stores
    cases taken
    obtain ⟨same,readers⟩ := invokes value funcs { s with settings := settings }
    refine .setSetting ?_ (funext fun n => (readers n).1) (funext fun i => ?_) fun n others => (readers n).2 ?_
    · rw [same]
      exact last
    · rw [System.callback,same]
      exact stores i
    · rw [pair] at others
      exact others

/-! ### The invariants -/

/-- The handles of the callbacks are positive and not above the last one. -/
structure Counted (s : System C) : Prop where
  last : 0 ≤ lastId s.settings
  bounded : ∀ id func, s.callback id = some func → 1 ≤ id ∧ id ≤ lastId s.settings

/-- What a registration does to the callbacks: it fails, or adds one under a handle. -/
structure Registers (s t : System C) (func : Callback C) (id : Int) : Prop where
  keeps : ∀ i f, s.callback i = some f → t.callback i = some f
  adds : ∀ i f, t.callback i = some f → s.callback i = some f ∨ (i = id ∧ f = func)
  stores : id ≠ -1 → t.callback id = some func
  fails : id = -1 → s.settings.find frames_per_measurement = none

/-- The callback of a reader is under the handle that the reader got, and a reader
    without one has the copy 0. -/
structure Inv (s : System C) : Prop where
  counted : Counted s
  told : ∀ id n, s.callback id = some (.reader n) → s.handle n = some none ∨ s.handle n = some (some id)
  unregistered : ∀ (n : Nat) (reader : Reader), s.readers[n]? = some (some reader) → reader.fpm_callback_id = -1 →
    reader.frames_per_measurement = 0

/-- Every reader that got a handle is called back. -/
def Kept (s : System C) : Prop := ∀ n id, s.handle n = some (some id) → id ≠ -1 → s.callback id = some (.reader n)

/-- No destroyed reader is called back. -/
def Live (s : System C) : Prop := ∀ n id, s.callback id = some (.reader n) → s.handle n ≠ some none

theorem Counted.registers {s t : System C} (counted : Counted s) {func : Callback C} {id : Int}
    (registered : s.settings.onChangeCallback frames_per_measurement func = some (t.settings,id)) :
    Counted t ∧ Registers s t func id := by
  have stores (i : Int) : t.callback i = _ := stored_onChangeCallback registered frames_per_measurement i
  simp only [trim_frames_per_measurement,true_and] at stores
  simp only [onChangeCallback,locate_eq,trim_frames_per_measurement] at registered
  cases present : s.settings.settings.get frames_per_measurement with
  | none =>
    simp only [present,Option.some.injEq,Prod.mk.injEq] at registered
    obtain ⟨same,rfl⟩ := registered
    have callback : t.callback = s.callback := by
      funext i
      rw [System.callback,← same]
      rfl
    refine ⟨⟨same ▸ counted.last,fun i f found => same ▸ counted.bounded i f (callback ▸ found)⟩,?_⟩
    refine ⟨fun i f found => callback ▸ found,fun i f found => .inl (callback ▸ found),fun given => absurd rfl given,?_⟩
    intro _
    rw [find,present]
    rfl
  | some entry =>
    simp only [present] at registered
    split_ifs at registered
    obtain ⟨same,next⟩ := Prod.mk.inj (Option.some.inj registered)
    have last : lastId s.settings = entry.lastId := by
      rw [lastId,present]
      rfl
    have last' : lastId t.settings = id := by
      rw [← next]
      simp [lastId,← same,get_modify,present]
    have positive := counted.last
    -- The handle is a new one, so nothing is overwritten.
    have new (i : Int) (f : Callback C) (found : s.callback i = some f) : i ≠ id := by
      have bound := counted.bounded i f found
      omega
    simp only [present,Option.isSome_some,and_true] at stores
    refine ⟨⟨by omega,fun i f found => ?_⟩,⟨fun i f found => ?_,fun i f found => ?_,fun _ => ?_,fun failed => ?_⟩⟩
    · rw [stores] at found
      split_ifs at found with is
      · omega
      · have bound := counted.bounded i f found
        omega
    · rw [stores,if_neg (new i f found)]
      exact found
    · rw [stores] at found
      split_ifs at found with is
      · exact .inr ⟨is,(Option.some.inj found).symm⟩
      · exact .inl found
    · rw [stores,if_pos rfl]
    · omega

theorem handle_new (s : System C) : s.handle s.readers.length = none := by simp [System.handle]

section Steps
variable {fails : C → OPQSetting → Bool} {s t : System C} {a : Action C}

/-- The handle of a reader that is there. -/
theorem handle_present {n : Nat} {reader : Reader} (present : s.readers[n]? = some (some reader)) :
    s.handle n = some (some reader.fpm_callback_id) := by
  rw [System.handle,present]
  rfl

theorem Counted.step (counted : Counted s) (does : Effect fails s a t) : Counted t := by
  cases does with
  | construct registered readers handle => exact (counted.registers registered).1
  | destroy present readers last handle callback =>
    refine ⟨last ▸ counted.last,fun id func found => ?_⟩
    rw [callback,Function.update_apply] at found
    split_ifs at found
    exact last ▸ counted.bounded id func found
  | onChangeCallback registered readers handle => exact (counted.registers registered).1
  | setSetting last handle callback others =>
    exact ⟨last ▸ counted.last,fun id func found => last ▸ counted.bounded id func (callback ▸ found)⟩

theorem Inv.told_step (inv : Inv s) (does : Effect fails s a t) {id : Int} {n : Nat}
    (found : t.callback id = some (.reader n)) : t.handle n = some none ∨ t.handle n = some (some id) := by
  cases does with
  | construct registered readers handle =>
    rw [handle,Function.update_apply]
    rcases (inv.counted.registers registered).2.adds id _ found with before | ⟨rfl,new⟩
    · have told := inv.told id n before
      split_ifs with is
      · subst is
        rw [handle_new] at told
        simp at told
      · exact told
    · cases new
      simp
  | destroy present readers last handle callback =>
    rw [callback,Function.update_apply] at found
    split_ifs at found
    rw [handle,Function.update_apply]
    split_ifs with is
    · exact .inl rfl
    · exact inv.told id n found
  | onChangeCallback registered readers handle =>
    rw [handle]
    rcases (inv.counted.registers registered).2.adds id _ found with before | ⟨_,new⟩
    · exact inv.told id n before
    · cases new
  | setSetting last handle callback others =>
    rw [handle]
    exact inv.told id n (callback ▸ found)

theorem Inv.unregistered_step (inv : Inv s) (does : Effect fails s a t) {n : Nat} {reader : Reader}
    (present : t.readers[n]? = some (some reader)) (none : reader.fpm_callback_id = -1) :
    reader.frames_per_measurement = 0 := by
  cases does with
  | construct registered readers handle =>
    rw [readers,List.getElem?_append] at present
    split_ifs at present
    · exact inv.unregistered n reader present none
    · rw [List.getElem?_singleton] at present
      split_ifs at present
      cases present
      show s.settings.getInt frames_per_measurement = 0
      rw [getInt,getAs,getSetting_eq,trim_frames_per_measurement,(inv.counted.registers registered).2.fails none]
      rfl
  | destroy present' readers last handle callback =>
    rw [readers,List.getElem?_set] at present
    split_ifs at present
    · cases present
    · exact inv.unregistered n reader present none
  | onChangeCallback registered readers handle => exact inv.unregistered n reader (readers ▸ present) none
  | setSetting last handle callback others =>
    -- A reader without a handle is not called.
    have got : s.handle n = some (some (-1)) := by
      rw [← handle,handle_present present,none]
    rw [others n fun called => ?_] at present
    · exact inv.unregistered n reader present none
    · obtain ⟨id,found⟩ := called_stored called
      have bound := (inv.counted.bounded id _ found).1
      rcases inv.told id n found with gone | own
      · cases got.symm.trans gone
      · cases got.symm.trans own
        omega

theorem Inv.step (inv : Inv s) (does : Effect fails s a t) : Inv t where
  counted := inv.counted.step does
  told _ _ := inv.told_step does
  unregistered _ _ := inv.unregistered_step does

/-- A safe step removes at most the callback of the reader that it destroys. -/
theorem persists (counted : Counted s) (does : Effect fails s a t) (safe : Safe fails s a t) {id : Int} {func : Callback C}
    (found : s.callback id = some func) (other : ∀ n, a = .destroy n → func ≠ .reader n) : t.callback id = some func := by
  cases does with
  | construct registered readers handle => exact (counted.registers registered).2.keeps id func found
  | @destroy t n reader present readers last handle callback => exact safe id func found (other n rfl)
  | onChangeCallback registered readers handle => exact (counted.registers registered).2.keeps id func found
  | setSetting last handle callback others =>
    rw [callback]
    exact found

theorem Kept.step (kept : Kept s) (counted : Counted s) (does : Effect fails s a t) (safe : Safe fails s a t) :
    Kept t := by
  intro n id got registered
  have before (got : s.handle n = some (some id)) (other : ∀ m, a = .destroy m → n ≠ m) : t.callback id = some (.reader n) :=
    persists counted does safe (kept n id got registered) fun m is same => other m is (Callback.reader.inj same)
  cases does with
  | construct registered' readers handle =>
    rw [handle,Function.update_apply] at got
    split_ifs at got with new
    · cases got
      rw [new]
      exact (counted.registers registered').2.stores registered
    · exact before got nofun
  | @destroy t m reader present readers last handle callback =>
    rw [handle,Function.update_apply] at got
    split_ifs at got with same
    · cases got
    · refine before got fun m' is => ?_
      cases is
      exact same
  | onChangeCallback registered' readers handle =>
    rw [handle] at got
    exact before got nofun
  | setSetting last handle callback others =>
    rw [handle] at got
    exact before got nofun

/-- Under the condition a step is safe where no destroyed reader is called back yet. -/
theorem safe_of_own (inv : Inv s) (kept : Kept s) (live : Live s) (does : Effect fails s a t) (own : Own s a t) :
    Safe fails s a t := by
  cases does with
  | @destroy t n reader present readers last handle callback =>
    intro id func found other
    rw [callback,Function.update_of_ne]
    · exact found
    · rintro rfl
      have bound := (inv.counted.bounded _ func found).1
      by_cases none : reader.fpm_callback_id = -1
      · rw [inv.unregistered n reader present none] at bound
        exact absurd bound (by decide)
      · have is := (own reader present).resolve_left none
        rw [is,kept n _ (handle_present present) none] at found
        exact other (Option.some.inj found).symm
  | setSetting last handle callback others =>
    intro n called
    obtain ⟨id,found⟩ := called_stored called
    exact fun gone => live n id found (handle_destroyed.mpr gone)
  | _ => trivial

/-- Under the condition no callback outlives its reader. -/
theorem Live.step (live : Live s) (inv : Inv s) (does : Effect fails s a t) (own : Own s a t) : Live t := by
  intro n id found
  cases does with
  | construct registered readers handle =>
    rw [handle,Function.update_apply]
    split_ifs with new
    · nofun
    · rcases (inv.counted.registers registered).2.adds id _ found with before | ⟨_,own⟩
      · exact live n id before
      · cases own
        exact absurd rfl new
  | @destroy t m reader present readers last handle callback =>
    rw [callback,Function.update_apply] at found
    split_ifs at found with removed
    rw [handle,Function.update_apply]
    split_ifs with same
    · -- Its own callback is left over, so its handle was not the copy.
      subst same
      have bound := (inv.counted.bounded id _ found).1
      rcases inv.told id n found with gone | told
      · cases (handle_present present).symm.trans gone
      · cases (handle_present present).symm.trans told
        rcases own reader present with none | is
        · omega
        · exact absurd is.symm removed
    · exact live n id found
  | onChangeCallback registered readers handle =>
    rw [handle]
    rcases (inv.counted.registers registered).2.adds id _ found with before | ⟨_,own⟩
    · exact live n id before
    · cases own
  | setSetting last handle callback others =>
    rw [handle]
    exact live n id (callback ▸ found)

/-- A callback that outlived its reader is not removed by safe steps. -/
theorem outlived_step (counted : Counted s) (does : Effect fails s a t) (safe : Safe fails s a t) {n : Nat} {id : Int}
    (found : s.callback id = some (.reader n)) (gone : s.handle n = some none) :
    t.callback id = some (.reader n) ∧ t.handle n = some none := by
  constructor
  · refine persists counted does safe found fun m is same => ?_
    subst is
    cases same
    cases does with
    | destroy present readers last handle callback => cases (handle_present present).symm.trans gone
  · cases does with
    | construct registered readers handle =>
      rw [handle,Function.update_of_ne]
      · exact gone
      · rintro rfl
        cases (handle_new s).symm.trans gone
    | destroy present readers last handle callback =>
      rw [handle,Function.update_apply]
      split_ifs
      · rfl
      · exact gone
    | onChangeCallback registered readers handle =>
      rw [handle]
      exact gone
    | setSetting last handle callback others =>
      rw [handle]
      exact gone

/-- A reader that does not give its handle back leaves its callback behind. -/
theorem Kept.outlived {a : Action C} (kept : Kept s) (does : Effect fails s a t) (lost : ¬ Own s a t) :
    ∃ n id, t.callback id = some (.reader n) ∧ t.handle n = some none := by
  cases does with
  | @destroy t n reader present readers last handle callback =>
    have other : reader.fpm_callback_id ≠ -1 ∧ reader.frames_per_measurement.toInt ≠ reader.fpm_callback_id := by
      refine not_or.mp fun own => lost fun reader' present' => ?_
      cases present.symm.trans present'
      exact own
    refine ⟨n,reader.fpm_callback_id,?_,?_⟩
    · rw [callback,Function.update_of_ne other.2.symm]
      exact kept n _ (handle_present present) other.1
    · rw [handle,Function.update_self]
  | _ => exact absurd trivial lost

end Steps

theorem inv_start : Inv (System.start : System C) := ⟨⟨Int.le_refl 0,nofun⟩,nofun,nofun⟩

theorem kept_start : Kept (System.start : System C) := nofun

theorem live_start : Live (System.start : System C) := nofun

/-- A run in which every reader's copy is its handle when it is destroyed is safe; and so
    is no other run that goes on to an integer value that all callbacks accept. -/
theorem lifetime (fails : C → OPQSetting → Bool) (actions : List (Action C)) :
    (Along (step fails) Own .start actions → Along (step fails) (Safe fails) .start actions) ∧
      ∀ s (v : BitVec 32), run (step fails) .start actions = some s → (∀ func, fails func (.int v) = false) →
        Along (step fails) (Safe fails) .start (actions ++ [.setSetting (.int v)]) →
        Along (step fails) Own .start actions := by
  constructor
  · refine along_of_along (fun s => Inv s ∧ Kept s ∧ Live s) ?_ ?_ ⟨inv_start,kept_start,live_start⟩
    · rintro s a t ⟨inv,kept,live⟩ taken own
      have does := effect taken
      exact ⟨inv.step does,kept.step inv.counted does (safe_of_own inv kept live does own),live.step inv does own⟩
    · rintro s a t ⟨inv,kept,live⟩ taken own
      exact safe_of_own inv kept live (effect taken) own
  · intro s v ran quiet along
    refine along_of_escaped (fun s => Inv s ∧ Kept s)
      (fun s => ∃ n id, s.callback id = some (.reader n) ∧ s.handle n = some none)
      ?_ ?_ ?_ ⟨inv_start,kept_start⟩ along.front ran ?_
    · rintro s a t ⟨inv,kept⟩ taken safe
      exact ⟨inv.step (effect taken),kept.step inv.counted (effect taken) safe⟩
    · rintro s a t ⟨_,kept⟩ taken _ lost
      exact kept.outlived (effect taken) lost
    · rintro s a t ⟨inv,_⟩ taken safe ⟨n,id,found,gone⟩
      exact ⟨n,id,outlived_step inv.counted (effect taken) safe found gone⟩
    · rintro ⟨n,id,found,gone⟩
      have safe := along.at [] ran rfl
      refine safe n (stored_called (fun func => ?_) found) (handle_destroyed.mp gone)
      cases func with
      | reader m => rfl
      | client func => exact quiet func

/-- The setting 1 is the handle of the only reader. -/
theorem lifetime_one : Along (step fun (_ : Unit) _ => false) (Safe fun _ _ => false) .start
    [.setSetting (.int 1),.construct,.destroy 0,.setSetting (.int 20)] := by
  refine (lifetime _ _).1 ?_
  rintro _ ⟨⟩
  refine ⟨trivial,?_⟩
  rintro _ ⟨⟩
  refine ⟨trivial,?_⟩
  rintro _ ⟨⟩
  refine ⟨fun reader present => ?_,?_⟩
  · cases present
    exact .inr rfl
  · rintro _ ⟨⟩
    exact ⟨trivial,trivial⟩

/-- With the setting 10 the callback of a destroyed reader is called; with the setting 2 a
    destructor removes the second callback. -/
theorem called_after_destruction : (¬ Along (step fun (_ : Unit) _ => false) (Safe fun _ _ => false) .start
      [.setSetting (.int 10),.construct,.destroy 0,.setSetting (.int 20)]) ∧
    ¬ Along (step fun (_ : Unit) _ => false) (Safe fun _ _ => false) .start
      [.setSetting (.int 2),.construct,.onChangeCallback (),.destroy 0] := by
  constructor
  · intro along
    have safe := ((((along _ rfl).2 _ rfl).2 _ rfl).2 _ rfl).1
    exact safe 0 (List.mem_singleton_self (Callback.reader 0)) rfl
  · intro along
    have safe := ((((along _ rfl).2 _ rfl).2 _ rfl).2 _ rfl).1
    cases safe 2 (.client ()) rfl nofun

end Opqbox.ReaderLifetime
