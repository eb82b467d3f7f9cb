import Mathlib.Data.Char
import Opqbox.SortedMap
import Opqbox.Text

/-!
`Settings` of the triggering daemon: values of five types under trimmed keys,
the file they are loaded from and saved to, and the callbacks of each key. What
a call does to the stored values is said by what `find` gives afterwards.
-/
namespace Opqbox
open Opqbox.Text

/-- `boost::variant<uint64_t, float, int, std::string, bool>`. A float is given by its bits. -/
inductive OPQSetting where
  | uint64 (value : BitVec 64)
  | float (value : BitVec 32)
  | int (value : BitVec 32)
  | string (value : Str)
  | bool (value : Bool)
  deriving DecidableEq

/-- The types of the alternatives. -/
inductive Alternative where
  | uint64 | float | int | string | bool
  deriving DecidableEq

abbrev Alternative.Value : Alternative → Type
  | .uint64 => BitVec 64
  | .float => BitVec 32
  | .int => BitVec 32
  | .string => Str
  | .bool => Bool

/-- What a getter returns after `bad_get`. -/
def Alternative.default : (type : Alternative) → type.Value
  | .uint64 => (0 : BitVec 64)
  | .float => (0 : BitVec 32)
  | .int => (0 : BitVec 32)
  | .string => ([] : Str)
  | .bool => false

/-- `boost::get`, which raises `bad_get` for any other alternative. -/
def OPQSetting.get : (type : Alternative) → OPQSetting → Option type.Value
  | .uint64, .uint64 value => some value
  | .float, .float value => some value
  | .int, .int value => some value
  | .string, .string value => some value
  | .bool, .bool value => some value
  | _, _ => none

/-- A variant by default is its first alternative. -/
def OPQSetting.default : OPQSetting := .uint64 0

/-- A string literal as a setting: its address converts to `bool` before the
    text converts to `std::string`, and is not null. -/
def OPQSetting.literal (_ : Str) : OPQSetting := .bool true

/-- `boost::lexical_cast` from and to a string; a text that does not parse
    raises `bad_lexical_cast`. -/
structure LexicalCast where
  toUint64 : Str → Option (BitVec 64)
  toFloat : Str → Option (BitVec 32)
  toInt : Str → Option (BitVec 32)
  ofUint64 : BitVec 64 → Str
  ofFloat : BitVec 32 → Str
  ofInt : BitVec 32 → Str

/-- `INT_MAX`. -/
def INT_MAX : Int := 2147483647

/-- A value with its callbacks, of type `F`. -/
structure SettingStruct (F : Type) where
  setting : OPQSetting
  callbacks : SortedMap Int F
  lastId : Int

/-- What `_settings[key]` creates. -/
def SettingStruct.new {F : Type} : SettingStruct F := ⟨.default,.empty,0⟩

structure Settings (F : Type) where
  settings : SortedMap Str (SettingStruct F)

/-- `boost::algorithm::trim`. -/
abbrev trim (s : Str) : Str := strip s

namespace Settings
variable {F : Type}

def new : Settings F := ⟨.empty⟩

/-- An assignment to a field of `_settings[key]`. -/
def modify (self : Settings F) (key : Str) (f : SettingStruct F → SettingStruct F) : Settings F :=
  ⟨self.settings.update key .new f⟩

/-- The entry of a key, by `lower_bound` and the comparison of the key there. -/
def locate (self : Settings F) (key : Str) : Option (SettingStruct F) :=
  match self.settings.lower_bound key with
  | none => none
  | some pos => if key < pos.1 then none else some pos.2

/-- The callbacks of a key, in the order of their handles. -/
def callbacks (self : Settings F) (key : Str) : List F :=
  match self.settings.get key with
  | none => []
  | some entry => entry.callbacks.entries.map Prod.snd

/-- The callbacks that the loop over them calls: one that raises ends it. -/
def called (raises : F → OPQSetting → Bool) (value : OPQSetting) : List F → List F
  | [] => []
  | func :: rest => func :: if raises func value then [] else called raises value rest

/-- Returns the callbacks called with the value as well. -/
def setSetting (raises : F → OPQSetting → Bool) (self : Settings F) (key : Str) (value : OPQSetting) :
    Settings F × List F :=
  let key := trim key
  let self := if (self.locate key).isNone then self.modify key fun entry => { entry with lastId := 0 } else self
  let self := self.modify key fun entry => { entry with setting := value }
  (self,called raises value (self.callbacks key))

def getSetting (self : Settings F) (key : Str) : OPQSetting :=
  match self.locate (trim key) with
  | some entry => entry.setting
  | none => .literal []

/-- The five getters. -/
def getAs (type : Alternative) (self : Settings F) (key : Str) : type.Value :=
  ((self.getSetting key).get type).getD type.default

def getUint64 (self : Settings F) (key : Str) : BitVec 64 := self.getAs .uint64 key
def getFloat (self : Settings F) (key : Str) : BitVec 32 := self.getAs .float key
def getInt (self : Settings F) (key : Str) : BitVec 32 := self.getAs .int key
def getString (self : Settings F) (key : Str) : Str := self.getAs .string key
def getBool (self : Settings F) (key : Str) : Bool := self.getAs .bool key

def isSet (self : Settings F) (key : Str) : Bool := (self.locate (trim key)).isSome

/-- Returns the setting erased. -/
def erase (self : Settings F) (key : Str) : Settings F × OPQSetting :=
  let key := trim key
  match self.locate key with
  | some entry => (⟨self.settings.erase key⟩,entry.setting)
  | none => (self,.default)

def clear (_ : Settings F) : Settings F := ⟨.empty⟩

/-- Returns the handle of the callback, and nothing where the counter of the
    handles overflows. -/
def onChangeCallback (self : Settings F) (key : Str) (func : F) : Option (Settings F × Int) :=
  let key := trim key
  match self.locate key with
  | none => some (self,-1)
  | some entry =>
    if entry.lastId = INT_MAX then none
    else
      let self := self.modify key fun entry => { entry with lastId := entry.lastId + 1 }
      let lastId := entry.lastId + 1
      some (self.modify key fun entry => { entry with callbacks := entry.callbacks.update lastId func fun _ => func },lastId)

def removeChangeCallback (self : Settings F) (key : Str) (id : Int) : Settings F × Bool :=
  let key := trim key
  match self.locate key with
  | none => (self,false)
  | some _ => (self.modify key fun entry => { entry with callbacks := entry.callbacks.erase id },true)

/-! ### The file -/

/-- The switch over the type of a line; nothing where it ends in `bad_lexical_cast`. -/
def decode (cast : LexicalCast) (type value : Str) : Option OPQSetting :=
  match type.head? with
  | some 'U' => (cast.toUint64 value).map .uint64
  | some 'F' => (cast.toFloat value).map .float
  | some 'I' => (cast.toInt value).map .int
  | some 'S' => some (.string value)
  | some 'B' => some (.bool (value = ['T','R','U','E']))
  | _ => none

/-- The key and the value of a line, unless it is passed over. -/
def readLine (cast : LexicalCast) (line : Str) : Option (Str × OPQSetting) :=
  if line.head? = some '#' then none
  else
    match line.splitOn ':' with
    | key :: type :: value :: rest =>
      let value := rest.foldl (fun value str => value ++ ':' :: str) value
      let key := trim key
      let type := trim type
      let value := trim value
      if key.length = 0 ∨ type.length = 0 ∨ value.length = 0 then none
      else (decode cast type value).map fun setValue => (key,setValue)
    | _ => none

/-- The body of the loop over the lines. -/
def loadLine (cast : LexicalCast) (self : Settings F) (line : Str) : Settings F :=
  match readLine cast line with
  | none => self
  | some (key,setValue) => self.modify key fun entry => { entry with setting := setValue }

/-- With the text of the file, where it can be opened. -/
def loadFromFile (cast : LexicalCast) (self : Settings F) (infile : Option Str) : Settings F × Bool :=
  match infile with
  | none => (self,false)
  | some text => ((getlines text).foldl (loadLine cast) self,true)

def saveLine (cast : LexicalCast) (key : Str) (val : OPQSetting) : Str :=
  key ++ [':'] ++
    match val with
    | .uint64 value => ['U',':'] ++ cast.ofUint64 value
    | .float value => ['F',':'] ++ cast.ofFloat value
    | .int value => ['I',':'] ++ cast.ofInt value
    | .string value => ['S',':'] ++ value
    | .bool value => ['B',':'] ++ if value then ['T','R','U','E'] else ['F','A','L','S','E']

/-- What is written to the file. -/
def saveToFile (cast : LexicalCast) (self : Settings F) : Str :=
  self.settings.entries.flatMap fun entry => saveLine cast entry.1 entry.2.setting ++ ['\n']

/-! ### The stored values -/

/-- The value stored under a key. -/
def find (self : Settings F) (key : Str) : Option OPQSetting := (self.settings.get key).map SettingStruct.setting

@[simp] theorem locate_eq (self : Settings F) (key : Str) : self.locate key = self.settings.get key := by
  rw [SortedMap.get_eq_lower_bound,locate]
  cases self.settings.lower_bound key with
  | none => rfl
  | some pos => by_cases before : key < pos.1 <;> simp [before]

@[simp] theorem find_new (key : Str) : (new : Settings F).find key = none := rfl

/-- A key that is not set has the literal for its setting. -/
theorem getSetting_eq (self : Settings F) (key : Str) :
    self.getSetting key = (self.find (trim key)).getD (.literal []) := by
  rw [getSetting,locate_eq,find]
  cases self.settings.get (trim key) <;> rfl

theorem find_modify (self : Settings F) (key other : Str) (f : SettingStruct F → SettingStruct F) :
    (self.modify key f).find other =
      if other = key then some (f ((self.settings.get key).getD .new)).setting else self.find other := by
  unfold find modify
  by_cases is : other = key
  · simp [is]
  · rw [if_neg is,SortedMap.get_update_of_ne _ is]

/-- A change that keeps the value of a key that is present. -/
theorem find_modify_kept (self : Settings F) {key : Str} {entry : SettingStruct F}
    (present : self.settings.get key = some entry)
    {f : SettingStruct F → SettingStruct F} (kept : (f entry).setting = entry.setting) (other : Str) :
    (self.modify key f).find other = self.find other := by
  rw [find_modify]
  split_ifs with is
  · rw [is,find,present,Option.getD_some,kept,Option.map_some]
  · rfl

theorem find_setSetting (raises : F → OPQSetting → Bool) (self : Settings F) (key other : Str) (value : OPQSetting) :
    (self.setSetting raises key value).1.find other = if other = trim key then some value else self.find other := by
  rw [setSetting,find_modify]
  by_cases is : other = trim key
  · rw [if_pos is,if_pos is]
  · rw [if_neg is,if_neg is]
    split_ifs with new
    · rw [find_modify,if_neg is]
    · rfl

theorem find_erase (self : Settings F) (key other : Str) :
    (self.erase key).1.find other = if other = trim key then none else self.find other := by
  simp only [erase,locate_eq]
  cases present : self.settings.get (trim key) with
  | none =>
    split_ifs with is
    · rw [is,find,present,Option.map_none]
    · rfl
  | some entry =>
    simp only [find,SortedMap.get_erase]
    split_ifs <;> rfl

theorem find_onChangeCallback {self self' : Settings F} {key : Str} {func : F} {id : Int}
    (registered : self.onChangeCallback key func = some (self',id)) (other : Str) :
    self'.find other = self.find other := by
  simp only [onChangeCallback,locate_eq] at registered
  cases present : self.settings.get (trim key) with
  | none =>
    rw [present] at registered
    cases registered
    rfl
  | some entry =>
    simp only [present] at registered
    split_ifs at registered with full
    cases registered
    rw [find_modify_kept _ (by rw [modify,SortedMap.get_update_self]) rfl,find_modify_kept _ present rfl]

theorem find_removeChangeCallback (self : Settings F) (key : Str) (id : Int) (other : Str) :
    (self.removeChangeCallback key id).1.find other = self.find other := by
  simp only [removeChangeCallback,locate_eq]
  cases present : self.settings.get (trim key) with
  | none => rfl
  | some entry => exact find_modify_kept _ present rfl other

/-! ### The lines of a file -/

/-- A line that is no comment, has two colons and both a key and a value, all
    given without the whitespace around them. -/
def Entry (line key type value : Str) : Prop :=
  line.head? ≠ some '#' ∧ ∃ first second rest, Fields ':' line first second rest ∧
    trim first = key ∧ trim second = type ∧ trim rest = value ∧ key ≠ [] ∧ value ≠ []

theorem rejoin (value : Str) (rest : List Str) :
    rest.foldl (fun value str => value ++ ':' :: str) value = [':'].intercalate (value :: rest) := by
  induction rest generalizing value with
  | nil => simp
  | cons str rest ih => rw [List.foldl_cons,ih]; cases rest <;> simp

/-- What is read is the key of an entry and its value of its type. -/
theorem readLine_iff {cast : LexicalCast} {line key : Str} {setting : OPQSetting} :
    readLine cast line = some (key,setting) ↔
    ∃ type value, Entry line key type value ∧ decode cast type value = some setting := by
  rw [readLine]
  by_cases comment : line.head? = some '#'
  · rw [if_pos comment]
    constructor
    · intro read
      simp at read
    · rintro ⟨type,value,⟨marked,_⟩,_⟩
      exact absurd comment marked
  · rw [if_neg comment]
    constructor
    · intro read
      split at read
      · rename_i first second third rest fields
        simp only [List.length_eq_zero_iff] at read
        split_ifs at read with empty
        simp only [not_or] at empty
        obtain ⟨setValue,decoded,same⟩ := Option.map_eq_some_iff.mp read
        obtain ⟨rfl,rfl⟩ := Prod.mk.inj same
        have split := splitOn_fields_iff.mp ⟨third,rest,fields,rfl⟩
        rw [← rejoin] at split
        exact ⟨_,_,⟨comment,first,second,_,split,rfl,rfl,rfl,empty.1,empty.2.2⟩,decoded⟩
      · simp at read
    · rintro ⟨type,value,⟨_,first,second,rest,split,rfl,rfl,rfl,hasKey,hasValue⟩,decoded⟩
      obtain ⟨third,more,fields,rfl⟩ := splitOn_fields_iff.mpr split
      have hasType : trim second ≠ [] := by
        intro none
        rw [none] at decoded
        simp [decode] at decoded
      rw [fields]
      simp only [rejoin,List.length_eq_zero_iff,hasKey,hasType,hasValue,or_self,if_false,decoded,Option.map_some]

/-- The keys and values read from a text. -/
def reads (cast : LexicalCast) (text : Str) : List (Str × OPQSetting) := (getlines text).filterMap (readLine cast)

theorem find_loadLine (cast : LexicalCast) (self : Settings F) (line other : Str) :
    (self.loadLine cast line).find other =
      match readLine cast line with
      | none => self.find other
      | some (key,setValue) => if other = key then some setValue else self.find other := by
  unfold loadLine
  cases readLine cast line with
  | none => rfl
  | some read => rw [find_modify]

/-- A loaded file leaves the last value read for a key, or else the one before. -/
theorem find_loadFromFile (cast : LexicalCast) (self : Settings F) (text key : Str) :
    (self.loadFromFile cast (some text)).1.find key = ((reads cast text).reverse.lookup key).or (self.find key) := by
  rw [loadFromFile,reads]
  induction getlines text generalizing self with
  | nil => rfl
  | cons line rest ih =>
    rw [List.foldl_cons,ih,find_loadLine,List.filterMap_cons]
    cases readLine cast line with
    | none => rfl
    | some read =>
      obtain ⟨key',setValue⟩ := read
      rw [List.reverse_cons,List.lookup_append,Option.or_assoc]
      by_cases is : key = key'
      · simp [is]
      · have other : (key == key') = false := by simpa using is
        simp [List.lookup_cons,other,is]

end Settings

end Opqbox
