import Mathlib.Tactic.FinCases
import Opqbox.Settings

/-!
Round trips of the settings through their file. Every stored value is written
as a line that reads back as it (`saved_read`), except under a key that starts
with the mark of a comment; such a key is loaded from a line where whitespace
stands before the mark (`reload_iff`).
-/
namespace Opqbox.SettingsFile
open Opqbox.Text Opqbox.Settings

variable {F : Type}

/-- The bits of a float with all ones in the exponent and a fraction other than zero. -/
def isNaN (bits : BitVec 32) : Bool :=
  bits &&& 0x7f800000#32 = 0x7f800000#32 && bits &&& 0x007fffff#32 ≠ 0#32

/-- The same type and value; what is not a number has no further value. -/
def Same (a b : OPQSetting) : Prop := a = b ∨ ∃ x y, a = .float x ∧ b = .float y ∧ isNaN x ∧ isNaN y

/-- The same keys with the same types and values. -/
def SameMap (a b : Settings F) : Prop := ∀ key, Option.Rel Same (a.find key) (b.find key)

def Plain (text : Str) : Prop := text ≠ [] ∧ ∀ c ∈ text, isspace c = false

/-- What `boost::lexical_cast` prints is a word, and parses back as what was printed. -/
structure Faithful (cast : LexicalCast) : Prop where
  uint64 : ∀ v, cast.toUint64 (cast.ofUint64 v) = some v
  int : ∀ v, cast.toInt (cast.ofInt v) = some v
  float : ∀ v, isNaN v = false → cast.toFloat (cast.ofFloat v) = some v
  nan : ∀ v, isNaN v → ∃ w, isNaN w ∧ cast.toFloat (cast.ofFloat v) = some w
  uint64_plain : ∀ v, Plain (cast.ofUint64 v)
  int_plain : ∀ v, Plain (cast.ofInt v)
  float_plain : ∀ v, Plain (cast.ofFloat v)

/-- A text without whitespace around it, not empty and on one line. -/
def Word (text : Str) : Prop := text ≠ [] ∧ trim text = text ∧ '\n' ∉ text

def GoodKey (key : Str) : Prop := Word key ∧ ':' ∉ key

def GoodValue : OPQSetting → Prop
  | .string value => Word value
  | _ => True

def Comment (key : Str) : Prop := key.head? = some '#'

instance (key : Str) : Decidable (Comment key) := inferInstanceAs (Decidable (_ = _))

/-! ### What is written -/

theorem Plain.word {text : Str} (plain : Plain text) : Word text := by
  obtain ⟨nonempty,black⟩ := plain
  refine ⟨nonempty,strip_plain black,?_⟩
  intro newline
  exact absurd (black _ newline) (by decide)

/-- A line that is written has the key, the letter of the type and the text of
    the value, which decodes to the value. -/
theorem saveLine_fields {cast : LexicalCast} (faithful : Faithful cast) (key : Str) {val : OPQSetting}
    (good : GoodValue val) :
    ∃ letter text, saveLine cast key val = key ++ ':' :: ([letter] ++ ':' :: text) ∧ letter ∈ ['U','F','I','S','B'] ∧
      Word text ∧ ∃ val', decode cast [letter] text = some val' ∧ Same val' val := by
  cases val with
  | uint64 v =>
    refine ⟨'U',cast.ofUint64 v,by simp [saveLine],by decide,(faithful.uint64_plain v).word,_,?_,.inl rfl⟩
    simp [decode,faithful.uint64]
  | float v =>
    cases nan : isNaN v with
    | false =>
      refine ⟨'F',cast.ofFloat v,by simp [saveLine],by decide,(faithful.float_plain v).word,_,?_,.inl rfl⟩
      simp [decode,faithful.float v nan]
    | true =>
      obtain ⟨w,nan',parsed⟩ := faithful.nan v nan
      refine ⟨'F',cast.ofFloat v,by simp [saveLine],by decide,(faithful.float_plain v).word,.float w,?_,.inr ⟨w,v,rfl,rfl,nan',nan⟩⟩
      simp [decode,parsed]
  | int v =>
    refine ⟨'I',cast.ofInt v,by simp [saveLine],by decide,(faithful.int_plain v).word,_,?_,.inl rfl⟩
    simp [decode,faithful.int]
  | string v => exact ⟨'S',v,by simp [saveLine],by decide,good,_,rfl,.inl rfl⟩
  | bool v =>
    cases v
    · exact ⟨'B',['F','A','L','S','E'],by simp [saveLine],by decide,by unfold Word; decide,_,rfl,.inl (by decide)⟩
    · exact ⟨'B',['T','R','U','E'],by simp [saveLine],by decide,by unfold Word; decide,_,rfl,.inl (by decide)⟩

/-- A line that is written reads back, unless it is a comment. -/
theorem saved_read {cast : LexicalCast} (faithful : Faithful cast) {key : Str} {val : OPQSetting}
    (goodKey : GoodKey key)
    (good : GoodValue val) (marked : ¬ Comment key) :
    ∃ val', readLine cast (saveLine cast key val) = some (key,val') ∧ Same val' val := by
  obtain ⟨letter,text,line,isLetter,⟨nonempty,trimmed,_⟩,val',decoded,same⟩ := saveLine_fields faithful key good
  obtain ⟨⟨hasKey,trimmedKey,_⟩,oneField⟩ := goodKey
  refine ⟨val',readLine_iff.mpr ⟨[letter],text,⟨?_,key,[letter],text,⟨line,oneField,?_⟩,trimmedKey,?_,trimmed,hasKey,nonempty⟩,
    decoded⟩,same⟩
  · rw [line,List.head?_append_of_ne_nil _ hasKey]
    exact marked
  · fin_cases isLetter <;> decide
  · fin_cases isLetter <;> decide

theorem comment_passed (cast : LexicalCast) {key : Str} (val : OPQSetting) (marked : Comment key) :
    readLine cast (saveLine cast key val) = none := by
  cases key with
  | nil => cases marked
  | cons c key => exact if_pos marked

theorem newline_notMem_saveLine {cast : LexicalCast} (faithful : Faithful cast) {key : Str} {val : OPQSetting}
    (goodKey : GoodKey key) (good : GoodValue val) : '\n' ∉ saveLine cast key val := by
  obtain ⟨letter,text,line,isLetter,⟨_,_,oneLine⟩,_⟩ := saveLine_fields faithful key good
  have letter_ne : '\n' ≠ letter := by
    rintro rfl
    simp at isLetter
  rw [line]
  simp [goodKey.1.2.2,oneLine,letter_ne]

/-! ### Loading what was saved -/

/-- Every key and value can be written to a file. -/
def Savable (settings : Settings F) : Prop := ∀ key val, settings.find key = some val → GoodKey key ∧ GoodValue val

/-- The values read from the lines of some entries. -/
theorem lookup_saved {cast : LexicalCast} (faithful : Faithful cast) {entries : List (Str × SettingStruct F)}
    (sorted : entries.Pairwise fun a b => a.1 < b.1) (good : ∀ e ∈ entries, GoodKey e.1 ∧ GoodValue e.2.setting)
    (key : Str) :
    Option.Rel Same (((entries.map fun e => saveLine cast e.1 e.2.setting).filterMap (readLine cast)).reverse.lookup key)
      (if Comment key then none else (SortedMap.search key entries).map SettingStruct.setting) := by
  induction entries with
  | nil => simp [SortedMap.search]
  | cons e rest ih =>
    obtain ⟨later,order⟩ := List.pairwise_cons.mp sorted
    have ih := ih order fun e member => good e (List.mem_cons_of_mem _ member)
    obtain ⟨goodKey,goodValue⟩ := good e (List.mem_cons_self ..)
    rw [List.map_cons,List.filterMap_cons,SortedMap.search]
    by_cases marked : Comment e.1
    · rw [comment_passed cast _ marked]
      by_cases is : e.1 = key
      · subst is
        rw [if_pos marked] at ih ⊢
        exact ih
      · rw [if_neg is]
        exact ih
    · obtain ⟨val',read,same⟩ := saved_read faithful goodKey goodValue marked
      simp only [read]
      rw [List.reverse_cons,List.lookup_append]
      by_cases is : e.1 = key
      · subst is
        rw [if_neg marked,SortedMap.search_above later] at ih
        rw [if_neg marked,if_pos rfl,List.lookup_cons_self]
        generalize List.lookup e.1 _ = found at ih ⊢
        cases ih
        exact .some same
      · have other : (key == e.1) = false := by simpa using Ne.symm is
        rw [if_neg is,List.lookup_cons,other,List.lookup_nil,Option.or_none]
        exact ih

/-- Loading what was saved gives all that is not under the key of a comment. -/
theorem find_saved {cast : LexicalCast} (faithful : Faithful cast) {settings : Settings F}
    (savable : Savable settings) (key : Str) :
    Option.Rel Same (((new : Settings F).loadFromFile cast (some (settings.saveToFile cast))).1.find key)
      (if Comment key then none else settings.find key) := by
  have good : ∀ e ∈ settings.settings.entries, GoodKey e.1 ∧ GoodValue e.2.setting := by
    intro e member
    apply savable
    rw [find,(SortedMap.mem_entries ..).mp member,Option.map_some]
  have written : reads cast (settings.saveToFile cast) =
      (settings.settings.entries.map fun e => saveLine cast e.1 e.2.setting).filterMap (readLine cast) := by
    have lines : settings.saveToFile cast =
        (settings.settings.entries.map fun e => saveLine cast e.1 e.2.setting).flatMap (· ++ ['\n']) := by
      rw [List.flatMap_map,saveToFile]
    rw [reads,lines,getlines_flatMap]
    intro line member
    obtain ⟨e,listed,rfl⟩ := List.mem_map.mp member
    obtain ⟨goodKey,goodValue⟩ := good e listed
    exact newline_notMem_saveLine faithful goodKey goodValue
  rw [find_loadFromFile,written,find_new,Option.or_none]
  exact lookup_saved faithful settings.settings.sorted good key

/-! ### What is loaded -/

/-- What is read from a line can be written to one. -/
theorem readLine_good {cast : LexicalCast} {line key : Str} {val : OPQSetting} (oneLine : '\n' ∉ line)
    (read : readLine cast line = some (key,val)) : GoodKey key ∧ GoodValue val := by
  obtain ⟨type,value,⟨_,first,second,rest,⟨rfl,plain,_⟩,rfl,rfl,rfl,hasKey,hasValue⟩,decoded⟩ := readLine_iff.mp read
  simp only [List.mem_append,List.mem_cons,not_or] at oneLine
  refine ⟨⟨⟨hasKey,strip_strip first,fun newline => oneLine.1 (strip_subset first newline)⟩,
    fun colon => plain (strip_subset first colon)⟩,?_⟩
  have word : Word (trim rest) := ⟨hasValue,strip_strip rest,fun newline => oneLine.2.2.2.2 (strip_subset rest newline)⟩
  rw [decode] at decoded
  split at decoded
  · obtain ⟨v,_,rfl⟩ := Option.map_eq_some_iff.mp decoded
    trivial
  · obtain ⟨v,_,rfl⟩ := Option.map_eq_some_iff.mp decoded
    trivial
  · obtain ⟨v,_,rfl⟩ := Option.map_eq_some_iff.mp decoded
    trivial
  · cases decoded
    exact word
  · cases decoded
    trivial
  · cases decoded

theorem mem_reads {cast : LexicalCast} {text key : Str} {val : OPQSetting} (member : (key,val) ∈ reads cast text) :
    ∃ line ∈ getlines text, readLine cast line = some (key,val) :=
  List.mem_filterMap.mp member

/-- What is stored after loading a file was read from it. -/
theorem find_loaded {cast : LexicalCast} {text key : Str} {val : OPQSetting}
    (found : ((new : Settings F).loadFromFile cast (some text)).1.find key = some val) :
    (key,val) ∈ reads cast text := by
  rw [find_loadFromFile,find_new,Option.or_none] at found
  obtain ⟨before,after,listed,_⟩ := List.lookup_eq_some_iff.mp found
  rw [← List.mem_reverse,listed]
  simp

theorem savable_loaded (cast : LexicalCast) (text : Str) :
    Savable ((new : Settings F).loadFromFile cast (some text)).1 := by
  intro key val found
  obtain ⟨line,member,read⟩ := mem_reads (find_loaded found)
  exact readLine_good (newline_notMem_getlines member) read

/-! ### A cast in base ten -/

/-- A natural number below a bound. -/
def parseNat (bound : Nat) (text : Str) : Option Nat :=
  if text ≠ [] ∧ text.all Char.isDigit ∧ Nat.ofDigitChars 10 text 0 < bound then some (Nat.ofDigitChars 10 text 0) else none

def parseInt : Str → Option (BitVec 32)
  | '-' :: text => (parseNat 2147483649 text).map fun n : Nat => BitVec.ofInt 32 (-n)
  | text => (parseNat 2147483648 text).map fun n : Nat => BitVec.ofInt 32 n

/-- Numbers in base ten; floats by their bits. -/
def decimal : LexicalCast where
  toUint64 text := (parseNat 18446744073709551616 text).map (BitVec.ofNat 64)
  toFloat text := if text = ['n','a','n'] then some 0x7fc00000#32 else (parseNat 4294967296 text).map (BitVec.ofNat 32)
  toInt := parseInt
  ofUint64 v := Nat.toDigits 10 v.toNat
  ofFloat v := if isNaN v then ['n','a','n'] else Nat.toDigits 10 v.toNat
  ofInt v := if v.toInt < 0 then '-' :: Nat.toDigits 10 v.toInt.natAbs else Nat.toDigits 10 v.toInt.natAbs

theorem isDigit_of_mem {n : Nat} {c : Char} (member : c ∈ Nat.toDigits 10 n) : c.isDigit :=
  Nat.isDigit_of_mem_toDigits (by decide) (by decide) member

theorem parseNat_toDigits {bound n : Nat} (below : n < bound) : parseNat bound (Nat.toDigits 10 n) = some n := by
  have digits : (Nat.toDigits 10 n).all Char.isDigit := List.all_eq_true.mpr fun c member => isDigit_of_mem member
  rw [parseNat,Nat.ofDigitChars_ten_toDigits,if_pos ⟨Nat.toDigits_ne_nil,digits,below⟩]

theorem parseInt_toDigits {n : Nat} (below : n < 2147483648) :
    parseInt (Nat.toDigits 10 n) = some (BitVec.ofInt 32 n) := by
  have unsigned : parseInt (Nat.toDigits 10 n) = (parseNat 2147483648 (Nat.toDigits 10 n)).map fun n : Nat => BitVec.ofInt 32 n := by
    unfold parseInt
    split
    · rename_i text sign
      exact absurd (isDigit_of_mem (sign ▸ List.mem_cons_self ..)) (by decide)
    · rfl
  rw [unsigned,parseNat_toDigits below,Option.map_some]

theorem toDigits_plain (n : Nat) : Plain (Nat.toDigits 10 n) := by
  refine ⟨Nat.toDigits_ne_nil,?_⟩
  intro c member
  have bounds : 48 ≤ c.val.toNat ∧ c.val.toNat ≤ 57 := by
    simpa [Char.isDigit,UInt32.le_iff_toNat_le] using isDigit_of_mem member
  have ne {d : Char} (other : d.val.toNat < 48) : c ≠ d := by
    rintro rfl
    omega
  simp [isspace,ne]

theorem decimal_faithful : Faithful decimal where
  uint64 v := by
    have below : v.toNat < 18446744073709551616 := v.isLt
    simp only [decimal,parseNat_toDigits below,Option.map_some,BitVec.ofNat_toNat,BitVec.setWidth_eq]
  int v := by
    have above := BitVec.toInt_lt (x := v)
    have below := BitVec.le_toInt v
    simp only [decimal]
    split_ifs with negative
    · have value : -(v.toInt.natAbs : Int) = v.toInt := by omega
      rw [parseInt,parseNat_toDigits (by omega),Option.map_some,value,BitVec.ofInt_toInt]
    · have value : (v.toInt.natAbs : Int) = v.toInt := by omega
      rw [parseInt_toDigits (by omega),value,BitVec.ofInt_toInt]
  float v number := by
    have digits : Nat.toDigits 10 v.toNat ≠ ['n','a','n'] := by
      intro same
      have digit : ('n').isDigit := isDigit_of_mem (same ▸ List.mem_cons_self ..)
      exact absurd digit (by decide)
    have below : v.toNat < 4294967296 := v.isLt
    simp only [decimal,number,Bool.false_eq_true,if_false,if_neg digits,parseNat_toDigits below,Option.map_some,
      BitVec.ofNat_toNat,BitVec.setWidth_eq]
  nan v nan := ⟨0x7fc00000#32,by decide,by simp [decimal,nan]⟩
  uint64_plain v := toDigits_plain v.toNat
  int_plain v := by
    simp only [decimal]
    obtain ⟨nonempty,black⟩ := toDigits_plain v.toInt.natAbs
    split_ifs
    · refine ⟨by simp,?_⟩
      intro c member
      rcases List.mem_cons.mp member with rfl | digit
      · rfl
      · exact black c digit
    · exact ⟨nonempty,black⟩
  float_plain v := by
    simp only [decimal]
    split_ifs
    · exact ⟨by simp,by simp [isspace]⟩
    · exact toDigits_plain v.toNat

/-! ### Round trips -/

/-- Loading what was saved gives the same map, where no key is a comment. -/
theorem load_saved {cast : LexicalCast} (faithful : Faithful cast) (settings : Settings F)
    (good : ∀ key val, settings.find key = some val → GoodKey key ∧ ¬ Comment key ∧ GoodValue val) :
    SameMap ((new : Settings F).loadFromFile cast (some (settings.saveToFile cast))).1 settings := by
  intro key
  have savable : Savable settings := fun key val found => ⟨(good key val found).1,(good key val found).2.2⟩
  have saved := find_saved faithful savable key
  by_cases marked : Comment key
  · have absent : settings.find key = none := by
      rw [Option.eq_none_iff_forall_not_mem]
      exact fun val found => (good key val found).2.1 marked
    rw [absent]
    rwa [if_pos marked] at saved
  · rwa [if_neg marked] at saved

theorem load_saved_colons :
    let settings := ((new : Settings Unit).modify ['h'] fun entry => { entry with setting := .string ['t',':',':','x'] }).modify ['n']
      fun entry => { entry with setting := .int 5 }
    SameMap ((new : Settings Unit).loadFromFile decimal (some (settings.saveToFile decimal))).1 settings := by
  apply load_saved decimal_faithful
  intro key val found
  simp only [find_modify] at found
  split_ifs at found with second first
  · subst second
    cases found
    unfold GoodKey Word Comment
    exact ⟨by decide,by decide,trivial⟩
  · subst first
    cases found
    unfold GoodKey GoodValue Word Comment
    decide
  · cases found

/-- Loading, saving and loading again changes nothing exactly where no line
    that sets a key has the mark of a comment behind whitespace. -/
theorem reload_iff {cast : LexicalCast} (faithful : Faithful cast) (text : Str) :
    SameMap ((new : Settings F).loadFromFile cast
        (some (((new : Settings F).loadFromFile cast (some text)).1.saveToFile cast))).1
      ((new : Settings F).loadFromFile cast (some text)).1 ↔
    ¬ ∃ line ∈ getlines text, ∃ key type value val,
      Entry line key type value ∧ decode cast type value = some val ∧ Comment key := by
  have saved := find_saved faithful (savable_loaded (F := F) cast text)
  constructor
  · rintro same ⟨line,member,key,type,value,val,entry,decoded,marked⟩
    have found := same key
    have lost := saved key
    rw [if_pos marked] at lost
    generalize (loadFromFile cast _ (some (saveToFile cast _))).1.find key = reloaded at found lost
    cases lost
    rw [find_loadFromFile,find_new,Option.or_none] at found
    generalize loaded : List.lookup key _ = stored at found
    cases found
    have read : (key,val) ∈ (reads cast text).reverse :=
      List.mem_reverse.mpr (List.mem_filterMap.mpr ⟨line,member,readLine_iff.mpr ⟨type,value,entry,decoded⟩⟩)
    simpa using List.lookup_eq_none_iff.mp loaded _ read
  · intro unmarked
    apply load_saved faithful
    intro key val found
    obtain ⟨goodKey,good⟩ := savable_loaded cast text key val found
    refine ⟨goodKey,?_,good⟩
    intro marked
    obtain ⟨line,member,read⟩ := mem_reads (find_loaded found)
    obtain ⟨type,value,entry,decoded⟩ := readLine_iff.mp read
    exact unmarked ⟨line,member,key,type,value,val,entry,decoded,marked⟩

theorem reload_bool :
    SameMap ((new : Settings Unit).loadFromFile decimal
        (some (((new : Settings Unit).loadFromFile decimal (some "a:B:TRUE\n".toList)).1.saveToFile decimal))).1
      ((new : Settings Unit).loadFromFile decimal (some "a:B:TRUE\n".toList)).1 ↔
    ¬ ∃ line ∈ getlines "a:B:TRUE\n".toList, ∃ key type value val,
      Entry line key type value ∧ decode decimal type value = some val ∧ Comment key :=
  reload_iff decimal_faithful "a:B:TRUE\n".toList

/-- A line that is indented before the mark of a comment sets a key that is
    lost when it is saved. -/
theorem reload_indented : Faithful decimal ∧
    ¬ SameMap ((new : Settings Unit).loadFromFile decimal
        (some (((new : Settings Unit).loadFromFile decimal (some " #a:S:b\n".toList)).1.saveToFile decimal))).1
      ((new : Settings Unit).loadFromFile decimal (some " #a:S:b\n".toList)).1 := by
  refine ⟨decimal_faithful,?_⟩
  intro same
  have found := same ['#','a']
  have loaded : ((new : Settings Unit).loadFromFile decimal (some " #a:S:b\n".toList)).1.find ['#','a'] = some (.string ['b']) := by
    decide +kernel
  have lost : ((new : Settings Unit).loadFromFile decimal
      (some (((new : Settings Unit).loadFromFile decimal (some " #a:S:b\n".toList)).1.saveToFile decimal))).1.find ['#','a'] = none := by
    decide +kernel
  rw [loaded,lost] at found
  cases found

end Opqbox.SettingsFile
