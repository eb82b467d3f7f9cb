import Opqbox.Runs
import Opqbox.SettingsFile

/-!
The callbacks of the settings, and the `Reader` that keeps a setting in a copy.
A callback that is registered on a key is called for each change of its value
as long as no file changes it, the key is not erased and no callback raises
before it (`along_notified_iff`).
-/
namespace Opqbox.Observers
open Opqbox.Runs Opqbox.Text Opqbox.Settings

/-- The callback of the reader, or one that is given by a user. -/
inductive Observer (C : Type) where
  | reader
  | client (func : C)
  deriving DecidableEq

/-- The key of the setting that the reader keeps. -/
def frames_per_measurement : Str :=
  ['f','r','a','m','e','s','_','p','e','r','_','m','e','a','s','u','r','e','m','e','n','t']

structure Reader where
  frames_per_measurement : BitVec 32
  fpm_callback_id : Int

def Reader.onFramesPerMeasurementChange (self : Reader) (s : OPQSetting) : Reader :=
  match s.get .int with
  | some value => { self with frames_per_measurement := value }
  | none => self

variable {C : Type}

/-- The callback of the reader raises `bad_get`. -/
def raises (fails : C → OPQSetting → Bool) : Observer C → OPQSetting → Bool
  | .reader,s => (s.get .int).isNone
  | .client func,s => fails func s

/-- A callback under the key and with the handle it was registered with. -/
structure Registration (C : Type) where
  key : Str
  id : Int
  func : Observer C

structure System (C : Type) where
  settings : Settings (Observer C)
  reader : Option Reader
  /-- What is registered and not removed. -/
  registered : List (Registration C)
  /-- The callbacks called so far, with their argument. -/
  invoked : List (Observer C × OPQSetting)
  /-- Whether the key of the reader was set to an int when it was constructed,
      only stored ints and was not erased since, and its callback not removed. -/
  keeps : Bool

def System.start : System C := ⟨.new,none,[],[],false⟩

/-- The calls on the settings, and the construction of the reader. -/
inductive Action (C : Type) where
  | setSetting (key : Str) (value : OPQSetting)
  | loadFromFile (infile : Option Str)
  | erase (key : Str)
  | clear
  | onChangeCallback (key : Str) (func : C)
  | removeChangeCallback (key : Str) (id : Int)
  | construct

def isInt (value : OPQSetting) : Bool := (value.get .int).isSome

/-- A callback is called with the value. -/
def System.invoke (value : OPQSetting) (system : System C) : Observer C → System C
  | .reader =>
    { system with
      reader := system.reader.map (·.onFramesPerMeasurementChange value)
      invoked := system.invoked ++ [(.reader,value)] }
  | .client func => { system with invoked := system.invoked ++ [(.client func,value)] }

/-- A callback gets a handle, unless the key is not set. -/
def System.register (system : System C) (key : Str) (func : Observer C) : Option (System C × Int) :=
  match system.settings.onChangeCallback key func with
  | none => none
  | some (settings,id) =>
    let registered := if id = -1 then system.registered else system.registered ++ [⟨trim key,id,func⟩]
    some ({ system with settings := settings, registered := registered },id)

/-- What a file sets. -/
def fileReads (cast : LexicalCast) : Option Str → List (Str × OPQSetting)
  | none => []
  | some text => reads cast text

/-- `~Reader` is no action: the reader lives as long as its threads. -/
def step (fails : C → OPQSetting → Bool) (cast : LexicalCast) (system : System C) : Action C → Option (System C)
  | .setSetting key value =>
    let (settings,funcs) := system.settings.setSetting (raises fails) key value
    let keeps := system.keeps && (trim key ≠ frames_per_measurement || isInt value)
    some (funcs.foldl (System.invoke value) { system with settings := settings, keeps := keeps })
  | .loadFromFile infile =>
    let keeps := system.keeps && (fileReads cast infile).all fun read => read.1 ≠ frames_per_measurement || isInt read.2
    some { system with settings := (system.settings.loadFromFile cast infile).1, keeps := keeps }
  | .erase key =>
    let keeps := system.keeps && trim key ≠ frames_per_measurement
    some { system with settings := (system.settings.erase key).1, keeps := keeps }
  | .clear => some { system with settings := system.settings.clear, keeps := false }
  | .onChangeCallback key func => (system.register key (.client func)).map Prod.fst
  | .removeChangeCallback key id =>
    let own := trim key = frames_per_measurement ∧ system.reader.any (·.fpm_callback_id = id)
    some { system with
      settings := (system.settings.removeChangeCallback key id).1
      registered := system.registered.filter fun entry => ¬ (entry.key = trim key ∧ entry.id = id)
      keeps := system.keeps && ¬ own }
  | .construct =>
    match system.reader with
    | some _ => none
    | none =>
      let frames := system.settings.getInt frames_per_measurement
      let keeps := (system.settings.find frames_per_measurement).any isInt
      (system.register frames_per_measurement .reader).map fun registered =>
        { registered.1 with reader := some ⟨frames,registered.2⟩, keeps := keeps }

/-! ### What is to be called -/

/-- The lines that change a value, as keys with the new values. -/
def changes {F : Type} (cast : LexicalCast) : Settings F → List Str → List (Str × OPQSetting)
  | _,[] => []
  | settings,line :: rest =>
    match readLine cast line with
    | none => changes cast settings rest
    | some (key,value) =>
      if settings.find key = some value then changes cast (settings.loadLine cast line) rest
      else (key,value) :: changes cast (settings.loadLine cast line) rest

/-- The updates that an action makes. -/
def updates (cast : LexicalCast) (system : System C) : Action C → List (Str × OPQSetting)
  | .setSetting key value => [(trim key,value)]
  | .loadFromFile (some text) => changes cast system.settings (getlines text)
  | _ => []

/-- The callbacks that are registered on a key. -/
def System.observers (system : System C) (key : Str) : List (Observer C) :=
  (system.registered.filter (·.key = key)).map Registration.func

/-- Each callback of a key is called exactly once for each update of it, with the new value. -/
def Notified (cast : LexicalCast) (s : System C) (a : Action C) (t : System C) : Prop :=
  ∃ calls, t.invoked = s.invoked ++ calls ∧
    calls.Perm ((updates cast s a).flatMap fun update => (s.observers update.1).map fun func => (func,update.2))

/-- The copy of the reader is the setting. -/
def Fresh (system : System C) : Prop :=
  system.keeps = true → system.reader.map Reader.frames_per_measurement = some (system.settings.getInt frames_per_measurement)

/-- A value is set under a key that is present or has no callbacks left over,
    and none of its callbacks raises before the last one; a file changes no
    value of a key with callbacks. -/
def Heard (fails : C → OPQSetting → Bool) (cast : LexicalCast) (s : System C) : Action C → Prop
  | .setSetting key value => (s.settings.find (trim key) = none → s.observers (trim key) = []) ∧
      ∀ func ∈ (s.settings.callbacks (trim key)).dropLast, raises fails func value = false
  | .loadFromFile (some text) => ∀ change ∈ changes cast s.settings (getlines text), s.observers change.1 = []
  | _ => True

/-! ### The entries of the settings -/

theorem trim_frames_per_measurement : trim frames_per_measurement = frames_per_measurement := by decide

section Entries
variable {F : Type}

theorem getInt_frames {self : Settings F} {frames : BitVec 32} (found : self.find frames_per_measurement = some (.int frames)) :
    self.getInt frames_per_measurement = frames := by
  rw [getInt,getAs,getSetting_eq,trim_frames_per_measurement,found]
  rfl

theorem get_modify (self : Settings F) (key other : Str) (f : SettingStruct F → SettingStruct F) :
    (self.modify key f).settings.get other =
      if other = key then some (f ((self.settings.get key).getD .new)) else self.settings.get other := by
  unfold Settings.modify
  by_cases is : other = key
  · simp [is]
  · rw [if_neg is,SortedMap.get_update_of_ne _ is]

theorem get_setSetting (raises : F → OPQSetting → Bool) (self : Settings F) (key other : Str) (value : OPQSetting) :
    (self.setSetting raises key value).1.settings.get other =
      if other = trim key then some { (self.settings.get (trim key)).getD .new with setting := value }
      else self.settings.get other := by
  rw [setSetting,get_modify]
  cases present : self.settings.get (trim key) with
  | none =>
    simp only [locate_eq,present,Option.isNone_none,if_true,get_modify]
    split_ifs <;> rfl
  | some entry => simp [present]

/-- The callbacks called are those of the key. -/
theorem setSetting_called (raises : F → OPQSetting → Bool) (self : Settings F) (key : Str) (value : OPQSetting) :
    (self.setSetting raises key value).2 = called raises value (self.callbacks (trim key)) := by
  have kept : (self.setSetting raises key value).1.callbacks (trim key) = self.callbacks (trim key) := by
    unfold callbacks
    rw [get_setSetting,if_pos rfl]
    cases self.settings.get (trim key) <;> rfl
  rw [← kept]
  rfl

theorem called_front (raises : F → OPQSetting → Bool) (value : OPQSetting) (funcs : List F) :
    called raises value funcs <+: funcs := by
  induction funcs with
  | nil => exact List.prefix_rfl
  | cons func rest ih =>
    rw [called]
    split_ifs
    · exact List.prefix_append [func] rest
    · exact List.prefix_cons_inj func |>.mpr ih

/-- All callbacks are called where none raises before the last. -/
theorem called_eq_iff {raises : F → OPQSetting → Bool} {value : OPQSetting} {funcs : List F} :
    called raises value funcs = funcs ↔ ∀ func ∈ funcs.dropLast, raises func value = false := by
  induction funcs with
  | nil => simp [called]
  | cons func rest ih =>
    cases rest with
    | nil => simp [called]
    | cons second rest =>
      rw [called,List.dropLast_cons_of_ne_nil (by simp)]
      split_ifs with bad
      · simp [bad]
      · simp [bad,ih]

/-- A file keeps the callbacks of a key that is present, and gives none to a new one. -/
theorem get_loadLines {cast : LexicalCast} {lines : List Str} {self : Settings F} {key : Str} {entry' : SettingStruct F}
    (found : (lines.foldl (loadLine cast) self).settings.get key = some entry') :
    ∃ entry, (self.settings.get key).getD .new = entry ∧ entry'.callbacks = entry.callbacks ∧
      entry'.lastId = entry.lastId := by
  induction lines generalizing self with
  | nil =>
    refine ⟨entry',?_,rfl,rfl⟩
    rw [show self.settings.get key = some entry' from found,Option.getD_some]
  | cons line rest ih =>
    obtain ⟨entry,was,same,same'⟩ := ih found
    refine ⟨_,rfl,?_⟩
    rw [same,same',← was,loadLine]
    cases readLine cast line with
    | none => exact ⟨rfl,rfl⟩
    | some read =>
      simp only [get_modify]
      split_ifs with is
      · subst is
        exact ⟨rfl,rfl⟩
      · exact ⟨rfl,rfl⟩

/-- A value that no line changes is kept. -/
theorem find_unchanged {cast : LexicalCast} {lines : List Str} {self : Settings F} {key : Str}
    (unchanged : ∀ change ∈ changes cast self lines, change.1 ≠ key) :
    (lines.foldl (loadLine cast) self).find key = self.find key := by
  induction lines generalizing self with
  | nil => rfl
  | cons line rest ih =>
    rw [List.foldl_cons]
    rw [changes] at unchanged
    have step := find_loadLine cast self line key
    cases read : readLine cast line with
    | none =>
      rw [read] at unchanged step
      have same : self.loadLine cast line = self := by rw [loadLine,read]
      rw [same]
      exact ih unchanged
    | some change =>
      obtain ⟨key',value⟩ := change
      rw [read] at unchanged step
      simp only at unchanged step
      by_cases old : self.find key' = some value
      · rw [if_pos old] at unchanged
        rw [ih unchanged,step]
        split_ifs with is
        · rw [is,old]
        · rfl
      · rw [if_neg old] at unchanged
        have other : key ≠ key' := fun same => unchanged (key',value) (List.mem_cons_self ..) same.symm
        rw [ih fun change member => unchanged change (List.mem_cons_of_mem _ member),step,if_neg other]

end Entries

/-! ### Registrations and callbacks -/

/-- The callbacks of a key that is present are what is registered on it, and
    their handles are not above the last one given. -/
structure Listed (registered : List (Registration C)) (key : Str) (entry : SettingStruct (Observer C)) : Prop where
  listed : ((registered.filter (·.key = key)).map fun r => (r.id,r.func)).Perm entry.callbacks.entries
  bounded : ∀ e ∈ entry.callbacks.entries, e.1 ≤ entry.lastId
  counted : 0 ≤ entry.lastId

def Agrees (settings : Settings (Observer C)) (registered : List (Registration C)) : Prop :=
  ∀ key entry, settings.settings.get key = some entry → Listed registered key entry

/-- A new entry has no callbacks. -/
theorem Listed.new {registered : List (Registration C)} {key : Str} {entry : SettingStruct (Observer C)}
    (unobserved : registered.filter (·.key = key) = []) (empty : entry.callbacks = .empty) (first : entry.lastId = 0) :
    Listed registered key entry where
  listed := by rw [unobserved,empty]; exact .refl _
  bounded := by rw [empty]; exact fun e member => absurd member List.not_mem_nil
  counted := first.ge

/-- Only the callbacks and the last handle of an entry matter. -/
theorem Listed.kept {registered : List (Registration C)} {key : Str} {entry entry' : SettingStruct (Observer C)}
    (listed : Listed registered key entry) (same : entry'.callbacks = entry.callbacks)
    (same' : entry'.lastId = entry.lastId) :
    Listed registered key entry' where
  listed := by rw [same]; exact listed.listed
  bounded := by rw [same,same']; exact listed.bounded
  counted := by rw [same']; exact listed.counted

theorem observers_nil {system : System C} {key : Str} :
    system.observers key = [] ↔ system.registered.filter (·.key = key) = [] := List.map_eq_nil_iff

theorem observers_callbacks {system : System C} (agrees : Agrees system.settings system.registered) {key : Str}
    {entry : SettingStruct (Observer C)} (present : system.settings.settings.get key = some entry) :
    (system.observers key).Perm (system.settings.callbacks key) := by
  have same := (agrees key entry present).listed.map Prod.snd
  rw [List.map_map] at same
  rw [callbacks,present]
  exact same

/-- What a registration does: nothing without the key, and else one callback
    more under the next handle. -/
theorem register_cases {s t : System C} {key : Str} {func : Observer C} {id : Int}
    (registered : s.register key func = some (t,id)) :
    (t = s ∧ id = -1 ∧ s.settings.find (trim key) = none) ∨
    (∃ entry, s.settings.settings.get (trim key) = some entry ∧ id = entry.lastId + 1 ∧
      t.registered = (if id = -1 then s.registered else s.registered ++ [⟨trim key,id,func⟩]) ∧
      t.reader = s.reader ∧ t.invoked = s.invoked ∧ t.keeps = s.keeps ∧
      ∀ other, t.settings.settings.get other = if other = trim key then
        some { entry with lastId := id, callbacks := entry.callbacks.update id func fun _ => func } else s.settings.settings.get other) := by
  rw [System.register] at registered
  cases result : s.settings.onChangeCallback key func with
  | none => simp [result] at registered
  | some given =>
    obtain ⟨settings,id'⟩ := given
    simp only [result,Option.some.injEq,Prod.mk.injEq] at registered
    obtain ⟨rfl,rfl⟩ := registered
    simp only [onChangeCallback,locate_eq] at result
    cases present : s.settings.settings.get (trim key) with
    | none =>
      rw [present] at result
      cases result
      exact .inl ⟨by simp,rfl,by simp [find,present]⟩
    | some entry =>
      simp only [present] at result
      split_ifs at result with full
      cases result
      refine .inr ⟨entry,rfl,rfl,rfl,rfl,rfl,rfl,?_⟩
      intro other
      rw [get_modify]
      split_ifs with is
      · simp [get_modify,present]
      · rw [get_modify,if_neg is]

theorem Agrees.register {s t : System C} {key : Str} {func : Observer C} {id : Int}
    (agrees : Agrees s.settings s.registered)
    (registered : s.register key func = some (t,id)) : Agrees t.settings t.registered := by
  rcases register_cases registered with ⟨rfl,_⟩ | ⟨entry,present,isNext,recorded,_,_,_,gets⟩
  · exact agrees
  · intro other entry' found
    have old := agrees _ entry present
    have given : id ≠ -1 := by
      have counted := old.counted
      omega
    rw [gets] at found
    rw [recorded,if_neg given]
    split_ifs at found with is
    · cases found
      have new : entry.callbacks.get id = none := by
        rw [Option.eq_none_iff_forall_not_mem]
        intro func' taken
        have bound := old.bounded _ ((SortedMap.mem_entries ..).mpr taken)
        simp only at bound
        omega
      have more := SortedMap.entries_update_new new func fun _ => func
      constructor
      · rw [is,List.filter_append]
        simp only [List.filter_cons,decide_true,if_true,List.filter_nil,List.map_append,List.map_cons,List.map_nil]
        exact (List.perm_append_singleton ..).trans ((old.listed.cons _).trans more.symm)
      · intro e member
        rcases List.mem_cons.mp (more.mem_iff.mp member) with rfl | before
        · exact Int.le_refl _
        · have bound := old.bounded e before
          simp only
          omega
      · have counted := old.counted
        simp only
        omega
    · have kept := agrees other entry' found
      have same : (s.registered ++ [Registration.mk (trim key) id func]).filter (·.key = other) = s.registered.filter (·.key = other) := by
        simp [List.filter_append,Ne.symm is]
      exact ⟨by rw [same]; exact kept.listed,kept.bounded,kept.counted⟩

theorem find_register {s t : System C} {key : Str} {func : Observer C} {id : Int}
    (registered : s.register key func = some (t,id))
    (other : Str) : t.settings.find other = s.settings.find other := by
  rcases register_cases registered with ⟨rfl,_⟩ | ⟨entry,present,_,_,_,_,_,gets⟩
  · rfl
  · rw [find,find,gets]
    split_ifs with is
    · rw [is,present]
      rfl
    · rfl

theorem Agrees.remove {settings : Settings (Observer C)} {registered : List (Registration C)}
    (agrees : Agrees settings registered) (key : Str) (id : Int) : Agrees (settings.removeChangeCallback key id).1
      (registered.filter fun entry => ¬ (entry.key = trim key ∧ entry.id = id)) := by
  intro other entry' found
  -- Of the registrations on another key all stay.
  have elsewhere (different : other ≠ trim key) :
      (registered.filter fun entry => ¬ (entry.key = trim key ∧ entry.id = id)).filter (·.key = other) =
        registered.filter (·.key = other) := by
    rw [List.filter_filter]
    apply List.filter_congr
    intro entry _
    by_cases is : entry.key = other
    · simp [is,different]
    · simp [is]
  simp only [removeChangeCallback,locate_eq] at found
  cases present : settings.settings.get (trim key) with
  | none =>
    simp only [present] at found
    have different : other ≠ trim key := by
      rintro rfl
      rw [present] at found
      cases found
    have kept := agrees other entry' found
    exact ⟨by rw [elsewhere different]; exact kept.listed,kept.bounded,kept.counted⟩
  | some entry =>
    simp only [present,get_modify,Option.getD_some] at found
    split_ifs at found with is
    · cases found
      subst is
      have old := agrees _ entry present
      refine ⟨?_,fun e member => old.bounded e (List.mem_of_mem_filter member),old.counted⟩
      have same : (registered.filter fun entry => ¬ (entry.key = trim key ∧ entry.id = id)).filter (·.key = trim key) =
          (registered.filter (·.key = trim key)).filter (·.id ≠ id) := by
        rw [List.filter_filter,List.filter_filter]
        apply List.filter_congr
        intro entry _
        by_cases is : entry.key = trim key <;> simp [is]
      have left := old.listed.filter fun e => e.1 ≠ id
      rw [List.filter_map] at left
      rw [same]
      exact left
    · have kept := agrees other entry' found
      exact ⟨by rw [elsewhere is]; exact kept.listed,kept.bounded,kept.counted⟩

/-! ### Calling the callbacks -/

theorem invokes (value : OPQSetting) (funcs : List (Observer C)) (s : System C) :
    (funcs.foldl (System.invoke value) s).settings = s.settings ∧
    (funcs.foldl (System.invoke value) s).registered = s.registered ∧
      (funcs.foldl (System.invoke value) s).keeps = s.keeps ∧
      (funcs.foldl (System.invoke value) s).invoked = s.invoked ++ funcs.map fun func => (func,value) := by
  induction funcs generalizing s with
  | nil => simp
  | cons func rest ih =>
    obtain ⟨settings,registered,keeps,invoked⟩ := ih (System.invoke value s func)
    rw [List.foldl_cons,settings,registered,keeps,invoked]
    cases func <;> simp [System.invoke]

/-- Other callbacks leave the reader alone. -/
theorem invokes_others (value : OPQSetting) {funcs : List (Observer C)} (others : .reader ∉ funcs) (s : System C) :
    (funcs.foldl (System.invoke value) s).reader = s.reader := by
  induction funcs generalizing s with
  | nil => rfl
  | cons func rest ih =>
    rw [List.mem_cons,not_or] at others
    rw [List.foldl_cons,ih others.2]
    cases func with
    | reader => exact absurd rfl others.1
    | client func => rfl

def Reader.set (reader : Reader) (value : BitVec 32) : Reader := { reader with frames_per_measurement := value }

/-- The callback of the reader sets its copy. -/
theorem invokes_reader {value : BitVec 32} {funcs : List (Observer C)} {s : System C}
    (calls : .reader ∈ funcs ∨ s.reader.map (·.set value) = s.reader) :
    (funcs.foldl (System.invoke (.int value)) s).reader = s.reader.map (·.set value) := by
  induction funcs generalizing s with
  | nil => exact (calls.resolve_left List.not_mem_nil).symm
  | cons func rest ih =>
    rw [List.foldl_cons]
    cases func with
    | reader =>
      have twice : (s.reader.map (·.set value)).map (·.set value) = s.reader.map (·.set value) := by
        cases s.reader <;> rfl
      rw [ih (.inr twice)]
      exact twice
    | client func => exact ih (calls.imp_left fun member => (List.mem_cons.mp member).resolve_left (by simp))

/-- What setting a value does. -/
structure SetStep (fails : C → OPQSetting → Bool) (s : System C) (key : Str) (value : OPQSetting) (t : System C) :
    Prop where
  settings : t.settings = (s.settings.setSetting (raises fails) key value).1
  registered : t.registered = s.registered
  keeps : t.keeps = (s.keeps && (trim key ≠ frames_per_measurement || isInt value))
  invoked : t.invoked = s.invoked ++ (called (raises fails) value (s.settings.callbacks (trim key))).map fun func => (func,value)
  others : .reader ∉ called (raises fails) value (s.settings.callbacks (trim key)) → t.reader = s.reader
  reader : ∀ v, value = .int v → .reader ∈ called (raises fails) value (s.settings.callbacks (trim key)) →
    t.reader = s.reader.map (·.set v)

theorem SetStep.of_step {fails : C → OPQSetting → Bool} {cast : LexicalCast} {s t : System C} {key : Str}
    {value : OPQSetting}
    (taken : step fails cast s (.setSetting key value) = some t) : SetStep fails s key value t := by
  have whole := setSetting_called (raises fails) s.settings key value
  obtain ⟨settings,funcs,pair⟩ : ∃ settings funcs, s.settings.setSetting (raises fails) key value = (settings,funcs) := ⟨_,_,rfl⟩
  rw [step,pair] at taken
  rw [pair] at whole
  cases taken
  obtain ⟨settings',registered,keeps,invoked⟩ := invokes value funcs
    { s with settings := settings, keeps := s.keeps && (trim key ≠ frames_per_measurement || isInt value) }
  constructor
  · rw [settings',pair]
  · exact registered
  · exact keeps
  · rw [← whole]
    exact invoked
  · rw [← whole]
    exact fun others => invokes_others value others _
  · rw [← whole]
    rintro v rfl calls
    exact invokes_reader (.inl calls)

/-! ### The invariant -/

/-- The copy of the reader is the setting, and its callback is registered. -/
def Copied (s : System C) : Prop :=
  s.keeps = true → ∃ reader, s.reader = some reader ∧
    s.settings.find frames_per_measurement = some (.int reader.frames_per_measurement) ∧
    ⟨frames_per_measurement,reader.fpm_callback_id,.reader⟩ ∈ s.registered

structure Inv (s : System C) : Prop where
  agrees : Agrees s.settings s.registered
  /-- The callback of the reader is on its key only. -/
  owner : ∀ r ∈ s.registered, r.func = .reader → r.key = frames_per_measurement
  copied : Copied s

theorem Copied.fresh {s : System C} (copied : Copied s) : Fresh s := by
  intro keeps
  obtain ⟨reader,present,found,_⟩ := copied keeps
  rw [present,getInt_frames found]
  rfl

theorem mem_observers {s : System C} {key : Str} {func : Observer C} :
    func ∈ s.observers key ↔ ∃ r ∈ s.registered, r.key = key ∧ r.func = func := by
  simp [System.observers,and_assoc]

theorem notified_nil {cast : LexicalCast} {s t : System C} {a : Action C} (same : t.invoked = s.invoked) :
    Notified cast s a t ↔ ∀ update ∈ updates cast s a, s.observers update.1 = [] := by
  have none (calls : List (Observer C × OPQSetting)) : t.invoked = s.invoked ++ calls ↔ calls = [] := by simp [same]
  simp [Notified,none]

theorem Inv.called_iff {s : System C} (inv : Inv s) (fails : C → OPQSetting → Bool) (key : Str) (value : OPQSetting) :
    (called (raises fails) value (s.settings.callbacks key)).Perm (s.observers key) ↔
      (s.settings.find key = none → s.observers key = []) ∧
        ∀ func ∈ (s.settings.callbacks key).dropLast, raises fails func value = false := by
  cases present : s.settings.settings.get key with
  | none =>
    have uncalled : s.settings.callbacks key = [] := by rw [callbacks,present]
    simp only [find,present,uncalled,called,Option.map_none,true_imp_iff,List.dropLast_nil,List.not_mem_nil,false_imp_iff,
      implies_true,and_true]
    exact ⟨fun none => List.nil_perm.mp none,fun none => none ▸ .refl _⟩
  | some entry =>
    have same := observers_callbacks inv.agrees present
    rw [← called_eq_iff,find,present]
    constructor
    · intro all
      refine ⟨by simp,?_⟩
      exact (called_front ..).eq_of_length (all.trans same).length_eq
    · rintro ⟨_,all⟩
      rw [all]
      exact same.symm

/-- The callbacks of the updated keys are called where the condition holds. -/
theorem Inv.notified_iff {s t : System C} {a : Action C} (inv : Inv s) {fails : C → OPQSetting → Bool}
    {cast : LexicalCast} (taken : step fails cast s a = some t) : Notified cast s a t ↔ Heard fails cast s a := by
  -- The other actions call nothing.
  have unchanged : (∀ key value, a ≠ .setSetting key value) → t.invoked = s.invoked := by
    intro other
    cases a with
    | setSetting key value => exact absurd rfl (other key value)
    | loadFromFile infile => cases taken; rfl
    | erase key => cases taken; rfl
    | clear => cases taken; rfl
    | onChangeCallback key func =>
      obtain ⟨⟨u,id⟩,registered,rfl⟩ := Option.map_eq_some_iff.mp taken
      rcases register_cases registered with ⟨rfl,_⟩ | ⟨_,_,_,_,_,invoked,_⟩
      · rfl
      · exact invoked
    | removeChangeCallback key id => cases taken; rfl
    | construct =>
      rw [step] at taken
      split at taken
      · cases taken
      · obtain ⟨⟨u,id⟩,registered,rfl⟩ := Option.map_eq_some_iff.mp taken
        rcases register_cases registered with ⟨rfl,_⟩ | ⟨_,_,_,_,_,invoked,_⟩
        · rfl
        · exact invoked
  cases a with
  | setSetting key value =>
    have set := SetStep.of_step taken
    rw [Heard,← inv.called_iff,Notified]
    simp only [updates,List.flatMap_singleton,set.invoked,List.append_cancel_left_eq,exists_eq_left']
    constructor
    · intro same
      have funcs := same.map Prod.fst
      simpa [List.map_map,Function.comp_def] using funcs
    · exact fun same => same.map _
  | loadFromFile infile =>
    rw [notified_nil (unchanged (by simp))]
    cases infile with
    | none => simp [updates,Heard]
    | some text => rfl
  | erase key => simp [notified_nil (unchanged (by simp)),updates,Heard]
  | clear => simp [notified_nil (unchanged (by simp)),updates,Heard]
  | onChangeCallback key func => simp [notified_nil (unchanged (by simp)),updates,Heard]
  | removeChangeCallback key id => simp [notified_nil (unchanged (by simp)),updates,Heard]
  | construct => simp [notified_nil (unchanged (by simp)),updates,Heard]

theorem isInt_iff {value : OPQSetting} : isInt value = true ↔ ∃ v, value = .int v := by
  cases value <;> simp [isInt,OPQSetting.get]

/-- A key with the callback of the reader has observers. -/
theorem observed {s : System C} {id : Int} (registered : ⟨frames_per_measurement,id,.reader⟩ ∈ s.registered) :
    .reader ∈ s.observers frames_per_measurement :=
  mem_observers.mpr ⟨_,registered,rfl,rfl⟩

theorem Inv.setSetting {fails : C → OPQSetting → Bool} {s t : System C} {key : Str} {value : OPQSetting} (inv : Inv s)
    (set : SetStep fails s key value t) (unobserved : s.settings.find (trim key) = none → s.observers (trim key) = [])
    (calls : (called (raises fails) value (s.settings.callbacks (trim key))).Perm (s.observers (trim key))) :
    Inv t := by
  constructor
  · rw [set.settings,set.registered]
    intro other entry' found
    rw [get_setSetting] at found
    split_ifs at found with is
    · cases found
      subst is
      cases present : s.settings.settings.get (trim key) with
      | none =>
        have nobody := observers_nil.mp (unobserved (by simp [find,present]))
        exact .new nobody rfl rfl
      | some entry => exact (inv.agrees _ entry present).kept rfl rfl
    · exact inv.agrees other entry' found
  · rw [set.registered]
    exact inv.owner
  · intro keeps
    simp only [set.keeps,Bool.and_eq_true,Bool.or_eq_true,decide_eq_true_eq] at keeps
    obtain ⟨reader,present,found,registered⟩ := inv.copied keeps.1
    rw [set.registered,set.settings]
    by_cases own : trim key = frames_per_measurement
    · -- The value is an int, and the reader is told.
      obtain ⟨v,is⟩ := isInt_iff.mp (keeps.2.resolve_left (not_not.mpr own))
      have told := calls.mem_iff.mpr (own ▸ observed registered)
      refine ⟨reader.set v,?_,?_,registered⟩
      · rw [set.reader v is told,present]
        rfl
      · rw [find_setSetting,if_pos own.symm,is]
        rfl
    · have untold : .reader ∉ called (raises fails) value (s.settings.callbacks (trim key)) := by
        intro told
        obtain ⟨r,member,is,isReader⟩ := mem_observers.mp (calls.mem_iff.mp told)
        exact own (is.symm.trans (inv.owner r member isReader))
      refine ⟨reader,(set.others untold).trans present,?_,registered⟩
      rw [find_setSetting,if_neg (Ne.symm own)]
      exact found

theorem Inv.load {s : System C} (inv : Inv s) {cast : LexicalCast} {text : Str} {keeps : Bool}
    (unobserved : ∀ change ∈ changes cast s.settings (getlines text), s.observers change.1 = []) :
    Inv { s with settings := (s.settings.loadFromFile cast (some text)).1, keeps := s.keeps && keeps } := by
  constructor
  · intro key entry' found
    obtain ⟨entry,was,same,same'⟩ := get_loadLines found
    cases present : s.settings.settings.get key with
    | some old =>
      rw [present,Option.getD_some] at was
      subst was
      exact (inv.agrees key old present).kept same same'
    | none =>
      -- A key that is new is changed, and nobody is registered on it.
      rw [present,Option.getD_none] at was
      subst was
      have nobody : s.observers key = [] := by
        by_contra somebody
        have unchanged : ((getlines text).foldl (loadLine cast) s.settings).find key = s.settings.find key :=
          find_unchanged fun change member is => somebody (is ▸ unobserved change member)
        rw [find,find,present] at unchanged
        rw [show ((getlines text).foldl (loadLine cast) s.settings).settings.get key = some entry' from found] at unchanged
        cases unchanged
      exact .new (observers_nil.mp nobody) same same'
  · exact inv.owner
  · intro kept
    obtain ⟨reader,present,found,registered⟩ := inv.copied (Bool.and_eq_true .. ▸ kept).1
    refine ⟨reader,present,?_,registered⟩
    have unchanged : ((getlines text).foldl (loadLine cast) s.settings).find frames_per_measurement =
        s.settings.find frames_per_measurement := by
      refine find_unchanged fun change member is => ?_
      have nobody := unobserved change member
      rw [is] at nobody
      have somebody := observed registered
      rw [nobody] at somebody
      cases somebody
    exact unchanged.trans found

theorem Inv.erase {s : System C} (inv : Inv s) (key : Str) :
    Inv { s with settings := (s.settings.erase key).1, keeps := s.keeps && trim key ≠ frames_per_measurement } := by
  constructor
  · intro other entry found
    simp only [Settings.erase,locate_eq] at found
    cases present : s.settings.settings.get (trim key) with
    | none =>
      rw [present] at found
      exact inv.agrees other entry found
    | some old =>
      simp only [present,SortedMap.get_erase] at found
      split_ifs at found
      exact inv.agrees other entry found
  · exact inv.owner
  · intro kept
    simp only [Bool.and_eq_true,decide_eq_true_eq] at kept
    obtain ⟨reader,present,found,registered⟩ := inv.copied kept.1
    refine ⟨reader,present,?_,registered⟩
    rw [find_erase,if_neg kept.2.symm]
    exact found

theorem Inv.register {s t : System C} {key : Str} {func : Observer C} {id : Int} (inv : Inv s)
    (registered : s.register key func = some (t,id)) (owns : func = .reader → trim key = frames_per_measurement) :
    Inv t := by
  constructor
  · exact inv.agrees.register registered
  · rcases register_cases registered with ⟨rfl,_⟩ | ⟨entry,_,_,recorded,_⟩
    · exact inv.owner
    · rw [recorded]
      split_ifs
      · exact inv.owner
      · intro r member isReader
        rcases List.mem_append.mp member with old | new
        · exact inv.owner r old isReader
        · cases List.mem_singleton.mp new
          exact owns isReader
  · rcases register_cases registered with ⟨rfl,_⟩ | ⟨entry,_,_,recorded,sameReader,_,sameKeeps,_⟩
    · exact inv.copied
    · intro kept
      obtain ⟨reader,present,found,listed⟩ := inv.copied (sameKeeps ▸ kept)
      refine ⟨reader,sameReader.trans present,(find_register registered _).trans found,?_⟩
      rw [recorded]
      split_ifs
      · exact listed
      · exact List.mem_append_left _ listed

theorem Inv.remove {s : System C} (inv : Inv s) (key : Str) (id : Int) :
    Inv { s with
      settings := (s.settings.removeChangeCallback key id).1
      registered := s.registered.filter fun entry => ¬ (entry.key = trim key ∧ entry.id = id)
      keeps := s.keeps && ¬ (trim key = frames_per_measurement ∧ s.reader.any (·.fpm_callback_id = id)) } := by
  constructor
  · exact inv.agrees.remove key id
  · exact fun r member => inv.owner r (List.mem_of_mem_filter member)
  · intro kept
    simp only [Bool.and_eq_true,decide_eq_true_eq] at kept
    obtain ⟨reader,present,found,registered⟩ := inv.copied kept.1
    refine ⟨reader,present,?_,?_⟩
    · rw [find_removeChangeCallback]
      exact found
    · refine List.mem_filter.mpr ⟨registered,?_⟩
      apply decide_eq_true
      rintro ⟨same,same'⟩
      have own := kept.2
      simp only [present,Option.any_some,decide_eq_true_eq] at own
      exact own ⟨same.symm,same'⟩

theorem Inv.construct {s u : System C} (inv : Inv s) {id : Int}
    (registered : s.register frames_per_measurement .reader = some (u,id)) :
    Inv { u with
      reader := some ⟨s.settings.getInt frames_per_measurement,id⟩
      keeps := (s.settings.find frames_per_measurement).any isInt } := by
  have next := inv.register registered fun _ => trim_frames_per_measurement
  refine ⟨next.agrees,next.owner,?_⟩
  intro kept
  obtain ⟨value,found,int⟩ := (Option.any_eq_true ..).mp kept
  obtain ⟨v,rfl⟩ := isInt_iff.mp int
  refine ⟨_,rfl,?_,?_⟩
  · rw [getInt_frames found]
    exact (find_register registered _).trans found
  · rcases register_cases registered with ⟨_,_,absent⟩ | ⟨entry,present,next,recorded,_⟩
    · rw [trim_frames_per_measurement,found] at absent
      cases absent
    · have counted := (inv.agrees _ entry present).counted
      rw [recorded,if_neg (by omega),trim_frames_per_measurement]
      exact List.mem_append_right _ (List.mem_singleton_self _)

/-- Every action with the condition keeps the invariant. -/
theorem Inv.step {fails : C → OPQSetting → Bool} {cast : LexicalCast} {s t : System C} {a : Action C} (inv : Inv s)
    (taken : step fails cast s a = some t) (heard : Heard fails cast s a) : Inv t := by
  cases a with
  | setSetting key value => exact inv.setSetting (.of_step taken) heard.1 ((inv.called_iff fails _ value).mpr heard)
  | loadFromFile infile =>
    cases taken
    cases infile with
    | none =>
      refine ⟨inv.agrees,inv.owner,?_⟩
      intro kept
      exact inv.copied (Bool.and_eq_true .. ▸ kept).1
    | some text => exact inv.load heard
  | erase key =>
    cases taken
    exact inv.erase key
  | clear =>
    cases taken
    exact ⟨fun key entry found => (by cases found),inv.owner,fun kept => (by cases kept)⟩
  | onChangeCallback key func =>
    obtain ⟨⟨u,id⟩,registered,rfl⟩ := Option.map_eq_some_iff.mp taken
    exact inv.register registered fun other => (by cases other)
  | removeChangeCallback key id =>
    cases taken
    exact inv.remove key id
  | construct =>
    rw [Observers.step] at taken
    split at taken
    · cases taken
    · obtain ⟨⟨u,id⟩,registered,rfl⟩ := Option.map_eq_some_iff.mp taken
      exact inv.construct registered

theorem inv_start : Inv (System.start : System C) :=
  ⟨fun key entry found => (by cases found),fun r member => absurd member List.not_mem_nil,fun kept => (by cases kept)⟩

/-- In every run the callbacks are called and the reader's copy is the setting
    exactly as long as the actions meet the condition. -/
theorem along_notified_iff (fails : C → OPQSetting → Bool) (cast : LexicalCast) (actions : List (Action C)) :
    Along (step fails cast) (fun s a t => Notified cast s a t ∧ Fresh t) .start actions ↔
      Along (step fails cast) (fun s a _ => Heard fails cast s a) .start actions := by
  refine along_iff Inv ?_ ?_ inv_start
  · intro s a t inv taken holds
    exact inv.step taken ((inv.notified_iff taken).mp holds.1)
  · intro s a t inv taken
    constructor
    · exact fun holds => (inv.notified_iff taken).mp holds.1
    · intro heard
      exact ⟨(inv.notified_iff taken).mpr heard,(inv.step taken heard).copied.fresh⟩

/-- A file that is loaded while the reader runs does not reach it. -/
theorem reader_stale : ¬ Along (step (C := Empty) (fun func _ => func.elim) SettingsFile.decimal)
    (fun s a t => Notified SettingsFile.decimal s a t ∧ Fresh t) .start
    [.setSetting frames_per_measurement (.int 10),.construct,
      .loadFromFile (some (frames_per_measurement ++ [':','I',':','2','0','\n']))] := by
  intro along
  have fresh := (((along _ rfl).2 _ rfl).2 _ rfl).1.2
  revert fresh
  unfold Fresh
  decide +kernel

end Opqbox.Observers
