import Mathlib.Data.List.Forall2
import Opqbox.PySettings
import Opqbox.SettingsFile

/-!
The settings file as the two daemons read it. Both take the same lines for
entries and the last entry of a key for its value; the one keeps the text and
the other what it decodes to.
-/
namespace Opqbox.SharedSettings
open Opqbox.Text Opqbox.Settings Opqbox.SettingsFile

variable {F : Type}

/-- Every line with a key and a value has a value of its type. -/
def WellTyped (cast : LexicalCast) (text : Str) : Prop :=
  ∀ line ∈ getlines text, ∀ key type value, Entry line key type value → ∃ setting, decode cast type value = some setting

/-- The last of the lines that is an entry of the key. -/
def LastEntry (lines : List Str) (key type value : Str) : Prop :=
  ∃ before line after, lines = before ++ line :: after ∧ Entry line key type value ∧
    ∀ later ∈ after, ∀ type' value', ¬ Entry later key type' value'

/-- No line is an entry of the key. -/
def NoEntry (lines : List Str) (key : Str) : Prop := ∀ line ∈ lines, ∀ type value, ¬ Entry line key type value

theorem lastEntry_or_noEntry (lines : List Str) (key : Str) :
    (∃ type value, LastEntry lines key type value) ∨ NoEntry lines key := by
  induction lines with
  | nil => exact .inr fun line member => absurd member List.not_mem_nil
  | cons line rest ih =>
    rcases ih with ⟨type,value,before,last,after,rfl,entry,latest⟩ | later
    · exact .inl ⟨type,value,line :: before,last,after,rfl,entry,latest⟩
    · by_cases sets : ∃ type value, Entry line key type value
      · obtain ⟨type,value,entry⟩ := sets
        exact .inl ⟨type,value,[],line,rest,rfl,entry,later⟩
      · refine .inr ?_
        intro line' member type value entry
        rcases List.mem_cons.mp member with rfl | behind
        · exact sets ⟨type,value,entry⟩
        · exact later line' behind type value entry

/-! ### The lines in the acquisition daemon -/

/-- A line as it is iterated over, and as it is without its newline. -/
def Chomped (line plain : Str) : Prop := line = plain ∨ line = plain ++ ['\n']

/-- The three fields of a line, trimmed, are those of an entry. -/
theorem Chomped.entry_iff {line plain key type value : Str} (chomped : Chomped line plain) :
    Entry plain key type value ↔
    line.head? ≠ some '#' ∧ (split ':' 2 line).map strip = [key,type,value] ∧ key ≠ [] ∧ value ≠ [] := by
  constructor
  · rintro ⟨code,first,second,rest,fields,rfl,rfl,rfl,hasKey,hasValue⟩
    rcases chomped with rfl | rfl
    · rw [split_fields_iff.mpr fields]
      exact ⟨code,rfl,hasKey,hasValue⟩
    · have nonempty : plain ≠ [] := by
        rw [fields.1]
        simp
      rw [List.head?_append_of_ne_nil _ nonempty,split_fields_iff.mpr (fields_newline fields)]
      exact ⟨code,by simp [strip_newline],hasKey,hasValue⟩
  · rintro ⟨code,trimmed,hasKey,hasValue⟩
    obtain ⟨first,others,splits,rfl,trimmedRest⟩ := List.map_eq_cons_iff.mp trimmed
    obtain ⟨second,values,rfl,rfl,trimmedValue⟩ := List.map_eq_cons_iff.mp trimmedRest
    obtain ⟨rest,more,rfl,rfl,nothing⟩ := List.map_eq_cons_iff.mp trimmedValue
    rw [List.map_eq_nil_iff.mp nothing] at splits
    have fields := split_fields_iff.mp splits
    rcases chomped with rfl | rfl
    · exact ⟨code,first,second,rest,fields,rfl,rfl,rfl,hasKey,hasValue⟩
    · -- The newline belongs to the value, which is not empty.
      obtain ⟨whole,oneField,oneField'⟩ := fields
      rcases List.eq_nil_or_concat rest with rfl | ⟨front,last,rfl⟩
      · exact absurd rfl hasValue
      · have both : plain = first ++ ':' :: (second ++ ':' :: front) ∧ ['\n'] = [last] :=
          List.append_inj' (by rw [whole]; simp) rfl
        obtain ⟨rfl,newline⟩ := both
        cases newline
        rw [List.concat_eq_append,strip_newline] at hasValue ⊢
        refine ⟨?_,first,second,front,⟨rfl,oneField,oneField'⟩,rfl,rfl,rfl,hasKey,hasValue⟩
        rwa [List.head?_append_of_ne_nil _ (by simp)] at code

theorem loadLine_entry {line plain key type value : Str} (chomped : Chomped line plain)
    (entry : Entry plain key type value)
    (settings : PySettings.Settings) : settings.loadLine line = settings.put key value := by
  obtain ⟨code,fields,hasKey,hasValue⟩ := chomped.entry_iff.mp entry
  have nonempty : line ≠ [] := by
    rintro rfl
    simp [split] at fields
  rw [PySettings.Settings.loadLine,fields]
  simp [nonempty,code,hasKey,hasValue]

/-- A line that is no entry of a key leaves its value in place. -/
theorem loadLine_noEntry {line plain key : Str} (chomped : Chomped line plain)
    (absent : ∀ type value, ¬ Entry plain key type value)
    (settings : PySettings.Settings) : (settings.loadLine line).getKey key = settings.getKey key := by
  rw [PySettings.Settings.loadLine]
  split_ifs with skipped
  · rfl
  · split
    · rename_i key' type value fields
      split_ifs with empty
      · rfl
      · simp only [List.length_eq_zero_iff,not_or] at empty skipped
        apply PySettings.Settings.getKey_put_of_ne
        rintro rfl
        exact absent type value (chomped.entry_iff.mpr ⟨skipped.2,fields,empty⟩)
    · rfl

theorem loadLines_noEntry {lines plains : List Str} (chomped : List.Forall₂ Chomped lines plains) {key : Str}
    (absent : NoEntry plains key) (settings : PySettings.Settings) :
    (lines.foldl PySettings.Settings.loadLine settings).getKey key = settings.getKey key := by
  induction chomped generalizing settings with
  | nil => rfl
  | cons same _ ih =>
    rw [List.foldl_cons,ih fun line member => absent line (List.mem_cons_of_mem _ member),
      loadLine_noEntry same (absent _ (List.mem_cons_self ..))]

/-- The dictionary holds the last entry of a key. -/
theorem getKey_loadFile (text key : Str) : (∀ type value, LastEntry (getlines text) key type value →
      (PySettings.Settings.new.loadFile text).getKey key = some value) ∧
    (NoEntry (getlines text) key → (PySettings.Settings.new.loadFile text).getKey key = none) := by
  have chomped := lines_getlines text
  constructor
  · rintro type value ⟨before,line,after,splits,entry,latest⟩
    rw [splits] at chomped
    obtain ⟨line',after',same,later,whole⟩ := List.forall₂_cons_right_iff.mp (List.forall₂_drop_append _ _ _ chomped)
    rw [PySettings.Settings.loadFile,← List.take_append_drop before.length (lines text),whole,List.foldl_append,List.foldl_cons,
      loadLine_entry same entry,loadLines_noEntry later latest,PySettings.Settings.getKey_put_self]
  · intro absent
    exact loadLines_noEntry chomped absent _

/-! ### The lines in the triggering daemon -/

/-- The map holds what the last entry of a key decodes to. -/
theorem find_loadFile {cast : LexicalCast} {text : Str} (typed : WellTyped cast text) (key : Str) :
    (∀ type value, LastEntry (getlines text) key type value → ∃ setting, decode cast type value = some setting ∧
      ((new : Settings F).loadFromFile cast (some text)).1.find key = some setting) ∧
    (NoEntry (getlines text) key → ((new : Settings F).loadFromFile cast (some text)).1.find key = none) := by
  rw [find_loadFromFile,find_new,Option.or_none]
  -- A value read for the key comes from an entry of it.
  have unread {lines : List Str} (absent : NoEntry lines key) : (lines.filterMap (readLine cast)).reverse.lookup key = none := by
    rw [List.lookup_eq_none_iff]
    rintro ⟨key',setting⟩ member
    obtain ⟨line,listed,read⟩ := List.mem_filterMap.mp (List.mem_reverse.mp member)
    obtain ⟨type,value,entry,_⟩ := readLine_iff.mp read
    have other : key ≠ key' := by
      rintro rfl
      exact absent line listed type value entry
    simpa using other
  constructor
  · rintro type value ⟨before,line,after,splits,entry,latest⟩
    obtain ⟨setting,decoded⟩ := typed line (by rw [splits]; simp) key type value entry
    refine ⟨setting,decoded,?_⟩
    have read : readLine cast line = some (key,setting) := readLine_iff.mpr ⟨type,value,entry,decoded⟩
    rw [reads,splits,List.filterMap_append,List.filterMap_cons]
    simp only [read]
    rw [List.reverse_append,List.reverse_cons,List.lookup_append,List.lookup_append,unread latest,List.lookup_cons_self]
    rfl
  · exact unread

/-! ### Both -/

/-- The two daemons have the same keys, and the one has the text from which the
    other decoded the value of a key, both from the last entry of it. -/
theorem same_settings {cast : LexicalCast} {text : Str} (typed : WellTyped cast text) (key : Str) :
    ((((new : Settings F).loadFromFile cast (some text)).1.find key).isSome ↔
      ((PySettings.Settings.new.loadFile text).getKey key).isSome) ∧
    ∀ value, (PySettings.Settings.new.loadFile text).getKey key = some value →
      ∃ type setting, LastEntry (getlines text) key type value ∧ decode cast type value = some setting ∧
        ((new : Settings F).loadFromFile cast (some text)).1.find key = some setting := by
  obtain ⟨decodes,unset⟩ := find_loadFile (F := F) typed key
  obtain ⟨keeps,unset'⟩ := getKey_loadFile text key
  rcases lastEntry_or_noEntry (getlines text) key with ⟨type,value,last⟩ | absent
  · obtain ⟨setting,decoded,found⟩ := decodes type value last
    have kept := keeps type value last
    refine ⟨by rw [found,kept]; simp,?_⟩
    intro value' kept'
    cases kept.symm.trans kept'
    exact ⟨type,setting,last,decoded,found⟩
  · refine ⟨by simp [unset absent,unset' absent],?_⟩
    intro value kept
    rw [unset' absent] at kept
    cases kept

/-- The check of a line, for files that are given. -/
theorem wellTyped_of_fields {cast : LexicalCast} {text : Str}
    (typed : ∀ line ∈ getlines text, ∀ fields, (split ':' 2 line).map strip = fields →
      line.head? = some '#' ∨ (decode cast (fields.getD 1 []) (fields.getD 2 [])).isSome) : WellTyped cast text := by
  intro line member key type value entry
  obtain ⟨code,fields,_⟩ := (show Chomped line line from .inl rfl).entry_iff.mp entry
  rcases typed line member _ fields with comment | decoded
  · exact absurd comment code
  · exact Option.isSome_iff_exists.mp decoded

theorem same_settings_template :
    ((((new : Settings Unit).loadFromFile decimal (some "#box\nbox_id :I :2\nhost :S :tcp://h:98".toList)).1.find "box_id".toList).isSome ↔
      ((PySettings.Settings.new.loadFile "#box\nbox_id :I :2\nhost :S :tcp://h:98".toList).getKey "box_id".toList).isSome) ∧
    ∀ value, (PySettings.Settings.new.loadFile "#box\nbox_id :I :2\nhost :S :tcp://h:98".toList).getKey "box_id".toList = some value →
      ∃ type setting, LastEntry (getlines "#box\nbox_id :I :2\nhost :S :tcp://h:98".toList) "box_id".toList type value ∧
        decode decimal type value = some setting ∧
        ((new : Settings Unit).loadFromFile decimal (some "#box\nbox_id :I :2\nhost :S :tcp://h:98".toList)).1.find "box_id".toList =
          some setting := by
  apply same_settings
  apply wellTyped_of_fields
  have lines : getlines "#box\nbox_id :I :2\nhost :S :tcp://h:98".toList =
      ["#box".toList,"box_id :I :2".toList,"host :S :tcp://h:98".toList] := by decide +kernel
  rw [lines]
  simp only [List.forall_mem_cons,List.not_mem_nil,false_imp_iff,implies_true,and_true,forall_eq']
  decide +kernel

end Opqbox.SharedSettings
