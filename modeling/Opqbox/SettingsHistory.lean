import Opqbox.Runs
import Opqbox.SettingsFile

/-!
Histories of calls on the settings. The stored values are those of a typed map
(`find_history`), and the getters return them, except that a key which is not
set reads as `true` (`getAs_eq_iff`).
-/
namespace Opqbox.SettingsHistory
open Opqbox.Runs Opqbox.Text Opqbox.Settings

variable {F : Type}

/-- The calls that change the settings, with functions of type `F` for callbacks. -/
inductive Call (F : Type) where
  | setSetting (key : Str) (value : OPQSetting)
  | loadFromFile (infile : Option Str)
  | erase (key : Str)
  | clear
  | onChangeCallback (key : Str) (func : F)
  | removeChangeCallback (key : Str) (id : Int)

/-- The settings after a call. -/
def call (raises : F → OPQSetting → Bool) (cast : LexicalCast) (settings : Settings F) : Call F → Option (Settings F)
  | .setSetting key value => some (settings.setSetting raises key value).1
  | .loadFromFile infile => some (settings.loadFromFile cast infile).1
  | .erase key => some (settings.erase key).1
  | .clear => some settings.clear
  | .onChangeCallback key func => (settings.onChangeCallback key func).map Prod.fst
  | .removeChangeCallback key id => some (settings.removeChangeCallback key id).1

/-! ### The typed map -/

/-- What happens to a map of settings. -/
inductive Event where
  | stored (key : Str) (value : OPQSetting)
  | erased (key : Str)
  | cleared

/-- What a call means for the map, in this order. -/
def Call.events (cast : LexicalCast) : Call F → List Event
  | .setSetting key value => [.stored (trim key) value]
  | .loadFromFile none => []
  | .loadFromFile (some text) => (reads cast text).map fun read => .stored read.1 read.2
  | .erase key => [.erased (trim key)]
  | .clear => [.cleared]
  | .onChangeCallback _ _ => []
  | .removeChangeCallback _ _ => []

/-- The value most recently stored under a key, unless it is erased or cleared
    since. The events are given with the newest first. -/
def latest (key : Str) : List Event → Option OPQSetting
  | [] => none
  | .stored key' value :: before => if key' = key then some value else latest key before
  | .erased key' :: before => if key' = key then none else latest key before
  | .cleared :: _ => none

/-- All that happened to the map in a history of calls, the newest first. -/
def past (cast : LexicalCast) (history : List (Call F)) : List Event := (history.flatMap (Call.events cast)).reverse

/-- What a getter of a typed map returns. -/
def typed (type : Alternative) : Option OPQSetting → type.Value
  | none => type.default
  | some value => (value.get type).getD type.default

/-! ### The settings are the map -/

theorem latest_stored (key : Str) (stores : List (Str × OPQSetting)) (before : List Event) :
    latest key (stores.map (fun read => .stored read.1 read.2) ++ before) =
    (stores.lookup key).or (latest key before) := by
  induction stores with
  | nil => rfl
  | cons read rest ih =>
    obtain ⟨key',value⟩ := read
    rw [List.map_cons,List.cons_append,latest,ih]
    by_cases is : key' = key
    · simp [is]
    · have other : (key == key') = false := by simpa using Ne.symm is
      simp [List.lookup_cons,other,is]

/-- A call changes the settings as it changes the map. -/
theorem find_call {raises : F → OPQSetting → Bool} {cast : LexicalCast} {settings settings' : Settings F} {c : Call F}
    (called : call raises cast settings c = some settings') {before : List Event} {key : Str}
    (found : settings.find key = latest key before) :
    settings'.find key = latest key ((c.events cast).reverse ++ before) := by
  cases c with
  | setSetting key' value =>
    cases called
    rw [find_setSetting,found]
    simp only [Call.events,List.reverse_singleton,List.singleton_append,latest,eq_comm]
  | loadFromFile infile =>
    cases called
    cases infile with
    | none => exact found
    | some text => rw [find_loadFromFile,found,Call.events,← List.map_reverse,latest_stored]
  | erase key' =>
    cases called
    rw [find_erase,found]
    simp only [Call.events,List.reverse_singleton,List.singleton_append,latest,eq_comm]
  | clear =>
    cases called
    rfl
  | onChangeCallback key' func =>
    obtain ⟨⟨_,id⟩,registered,rfl⟩ := Option.map_eq_some_iff.mp called
    rw [find_onChangeCallback registered]
    exact found
  | removeChangeCallback key' id =>
    cases called
    rw [find_removeChangeCallback]
    exact found

theorem find_run {raises : F → OPQSetting → Bool} {cast : LexicalCast} {start settings : Settings F}
    (before : List Event) {key : Str} (found : start.find key = latest key before) {history : List (Call F)}
    (ran : run (call raises cast) start history = some settings) :
    settings.find key = latest key (past cast history ++ before) := by
  induction history generalizing start before with
  | nil =>
    cases ran
    exact found
  | cons c rest ih =>
    obtain ⟨next,called,ran⟩ := run_cons_inv ran
    have later := ih _ (find_call called found) ran
    rwa [past,List.flatMap_cons,List.reverse_append,List.append_assoc]

/-- After every history the settings are those of the map. -/
theorem find_history {raises : F → OPQSetting → Bool} {cast : LexicalCast} {history : List (Call F)}
    {settings : Settings F}
    (ran : run (call raises cast) new history = some settings) (key : Str) :
    settings.find key = latest key (past cast history) := by
  have found := find_run [] (find_new key) ran
  rwa [List.append_nil] at found

/-- A getter returns what that of the map does, unless it is `getBool` for a
    key that is not set. -/
theorem getAs_eq_iff {raises : F → OPQSetting → Bool} {cast : LexicalCast} {history : List (Call F)}
    {settings : Settings F}
    (ran : run (call raises cast) new history = some settings) (type : Alternative) (key : Str) :
    settings.getAs type key = typed type (latest (trim key) (past cast history)) ↔
      type ≠ .bool ∨ latest (trim key) (past cast history) ≠ none := by
  rw [getAs,getSetting_eq,find_history ran]
  cases latest (trim key) (past cast history) with
  | none => cases type <;> simp [typed,OPQSetting.literal,OPQSetting.get,Alternative.default]
  | some value => simp [typed]

/-- A file that gives a port, a call that stores it as a string, and an erased key. -/
theorem getAs_eq_iff_stored :
    (((((new : Settings Unit).loadFromFile SettingsFile.decimal (some "redis.port:I:6379\nx:S:y".toList)).1.setSetting
        (fun _ _ => false) " redis.port ".toList (.string ['1'])).1.erase ['x']).1).getAs .string "redis.port".toList =
      typed .string (latest (trim "redis.port".toList) (past SettingsFile.decimal (F := Unit)
        [.loadFromFile (some "redis.port:I:6379\nx:S:y".toList),.setSetting " redis.port ".toList (.string ['1']),.erase ['x']])) ↔
    Alternative.string ≠ .bool ∨ latest (trim "redis.port".toList) (past SettingsFile.decimal (F := Unit)
        [.loadFromFile (some "redis.port:I:6379\nx:S:y".toList),.setSetting " redis.port ".toList (.string ['1']),.erase ['x']]) ≠ none :=
  @getAs_eq_iff Unit (fun _ _ => false) _ _ _ rfl .string _

/-- A key that was never set reads as `true`. -/
theorem getBool_unset : ¬ ((new : Settings Unit).getBool ['x'] =
    typed .bool (latest ['x'] (past (F := Unit) SettingsFile.decimal []))) := by
  decide +kernel

end Opqbox.SettingsHistory
