import Opqbox.Text

/-!
`Settings` of the acquisition daemon: the settings file as a dictionary of
strings.
-/
namespace Opqbox.PySettings
open Opqbox.Text

/-- `self.store`. -/
structure Settings where
  store : Str → Option Str

def Settings.new : Settings := ⟨fun _ => none⟩

/-- `self.store[key] = val`. -/
def Settings.put (settings : Settings) (key val : Str) : Settings := ⟨Function.update settings.store key (some val)⟩

/-- The body of the loop over the lines; the result of `line.strip()` is not used. -/
def Settings.loadLine (settings : Settings) (line : Str) : Settings :=
  if line.length = 0 ∨ line.head? = some '#' then settings
  else
    match (split ':' 2 line).map strip with
    | [key,_,val] =>
      if key.length = 0 ∨ val.length = 0 then settings
      else settings.put key val
    | _ => settings

def Settings.loadFile (settings : Settings) (text : Str) : Settings := (lines text).foldl loadLine settings

def Settings.getKey (settings : Settings) (key : Str) : Option Str := settings.store key

@[simp] theorem Settings.getKey_put_self (settings : Settings) (key val : Str) :
    (settings.put key val).getKey key = some val := Function.update_self ..

theorem Settings.getKey_put_of_ne (settings : Settings) {key key' : Str} (ne : key' ≠ key) (val : Str) :
    (settings.put key val).getKey key' = settings.getKey key' := Function.update_of_ne ne ..

end Opqbox.PySettings
