import Mathlib.Data.List.FinRange
import Mathlib.Data.Nat.Digits.Defs

/-!
Structs of integers in memory, on a machine that stores the lowest byte first.
The members are aligned by some rule; what is between two members is not
specified. A struct that is as long as its members together is just their bytes
(`image_of_tight`), and is read so with any rule that leaves no gap
(`load_contents`).
-/
namespace Opqbox.Layout

/-- The `n` lowest bytes of a number, the lowest one first. -/
def littleEndian : Nat → Nat → List (BitVec 8)
  | 0, _ => []
  | n + 1, v => BitVec.ofNat 8 v :: littleEndian n (v / 256)

/-- The number that some bytes are. -/
def number (bytes : List (BitVec 8)) : Nat := Nat.ofDigits 256 (bytes.map BitVec.toNat)

@[simp] theorem length_littleEndian (n v : Nat) : (littleEndian n v).length = n := by
  induction n generalizing v with
  | zero => rfl
  | succ n ih => simp [littleEndian,ih]

theorem number_littleEndian (n v : Nat) : number (littleEndian n v) = v % 256 ^ n := by
  induction n generalizing v with
  | zero => simp [littleEndian,number,Nat.mod_one]
  | succ n ih =>
    have rest : number (littleEndian n (v / 256)) = v / 256 % 256 ^ n := ih (v / 256)
    have split : v % 256 ^ (n + 1) = v % 256 + 256 * (v / 256 % 256 ^ n) := by rw [Nat.pow_succ',Nat.mod_mul]
    unfold number at rest ⊢
    rw [littleEndian,List.map_cons,Nat.ofDigits_cons,rest,split]
    simp

/-- A word of `n` bytes is the number of its bytes. -/
theorem ofNat_number {n : Nat} (v : BitVec (8 * n)) : BitVec.ofNat (8 * n) (number (littleEndian n v.toNat)) = v := by
  apply BitVec.eq_of_toNat_eq
  have limit : v.toNat < 256 ^ n := by
    have range := v.isLt
    rwa [Nat.pow_mul] at range
  rw [BitVec.toNat_ofNat,number_littleEndian,Nat.mod_eq_of_lt limit,Nat.mod_eq_of_lt v.isLt]

/-! ### Arrays -/

section Chunks
variable {α β : Type*} {f : α → List β} {size : Nat}

/-- One of several chunks of the same length. -/
theorem chunk (same : ∀ a, (f a).length = size) (l : List α) (rest : List β) {i : Nat} (inside : i < l.length) :
    ((l.flatMap f ++ rest).drop (size * i)).take size = f l[i] := by
  induction l generalizing i with
  | nil => exact absurd inside (Nat.not_lt_zero i)
  | cons a l ih =>
    rw [List.flatMap_cons,List.append_assoc]
    cases i with
    | zero => exact List.take_left' (same a)
    | succ i =>
      have skipped : size * (i + 1) = (f a).length + size * i := by rw [same,Nat.mul_succ,Nat.add_comm]
      rw [skipped,← List.drop_drop,List.drop_left]
      exact ih (Nat.lt_of_succ_lt_succ inside)

theorem length_chunks (same : ∀ a, (f a).length = size) (l : List α) : (l.flatMap f).length = size * l.length := by
  induction l with
  | nil => rfl
  | cons a l ih => rw [List.flatMap_cons,List.length_append,same,ih,List.length_cons,Nat.mul_succ,Nat.add_comm]

end Chunks

/-- A member of a struct: an array of `count` integers of `size` bytes. -/
structure Member where
  size : Nat
  count : Nat

namespace Member

abbrev Value (m : Member) : Type := Fin m.count → BitVec (8 * m.size)

/-- The bytes from the first to the last one. -/
def length (m : Member) : Nat := m.size * m.count

def bytes (m : Member) (v : m.Value) : List (BitVec 8) := (List.finRange m.count).flatMap fun i => littleEndian m.size (v i).toNat

def load (m : Member) (bytes : List (BitVec 8)) : m.Value :=
  fun i => BitVec.ofNat _ (number ((bytes.drop (m.size * i)).take m.size))

theorem length_bytes (m : Member) (v : m.Value) : (m.bytes v).length = m.length := by
  unfold bytes length
  rw [length_chunks (fun _ => length_littleEndian _ _),List.length_finRange]

theorem load_bytes (m : Member) (v : m.Value) (rest : List (BitVec 8)) : m.load (m.bytes v ++ rest) = v := by
  funext i
  have element := chunk (fun i => length_littleEndian m.size (v i).toNat) (List.finRange m.count) rest (i := i) (by simp)
  rw [List.getElem_finRange] at element
  unfold load bytes
  rw [element]
  exact ofNat_number (v i)

end Member

/-! ### Structs -/

/-- The values of the members. -/
@[reducible] def Values : List Member → Type
  | [] => Unit
  | m :: ms => m.Value × Values ms

/-- The next offset that is a multiple of the alignment. -/
def aligned (offset alignment : Nat) : Nat := offset + (alignment - offset % alignment) % alignment

theorem le_aligned (offset alignment : Nat) : offset ≤ aligned offset alignment := Nat.le_add_right _ _

/-- An integer is aligned to its size. -/
def natural (m : Member) : Nat := m.size

/-- No member is aligned. -/
def packed (_ : Member) : Nat := 1

section Structs
variable (alignment : Member → Nat) (pad : Nat → BitVec 8)

/-- Where a member begins that comes after an offset. -/
def start (m : Member) (offset : Nat) : Nat := aligned offset (alignment m)

/-- Where the last member ends. -/
def finish : List Member → Nat → Nat
  | [], offset => offset
  | m :: ms, offset => finish ms (start alignment m offset + m.length)

/-- A struct is aligned as its members are, and so is its end. -/
def sizeof (ms : List Member) : Nat := aligned (finish alignment ms 0) ((ms.map alignment).foldr max 1)

/-- The bytes from one offset to another that belong to no member. -/
def padding (low high : Nat) : List (BitVec 8) := (List.range' low (high - low)).map pad

/-- The members in memory, from an offset on. -/
def store : (ms : List Member) → Nat → Values ms → List (BitVec 8)
  | [], _, _ => []
  | m :: ms, offset, v =>
    padding pad offset (start alignment m offset) ++ m.bytes v.1 ++ store ms (start alignment m offset + m.length) v.2

/-- The struct in memory. -/
def image (ms : List Member) (v : Values ms) : List (BitVec 8) :=
  store alignment pad ms 0 v ++ padding pad (finish alignment ms 0) (sizeof alignment ms)

/-- The members from the bytes at an offset on. -/
def load : (ms : List Member) → Nat → List (BitVec 8) → Values ms
  | [], _, _ => ()
  | m :: ms, offset, bytes =>
    let found := bytes.drop (start alignment m offset - offset)
    (m.load found,load ms (start alignment m offset + m.length) (found.drop m.length))

end Structs

variable {alignment : Member → Nat} {pad : Nat → BitVec 8}

theorem length_padding (low high : Nat) : (padding pad low high).length = high - low := by simp [padding]

theorem le_start (alignment : Member → Nat) (m : Member) (offset : Nat) : offset ≤ start alignment m offset := le_aligned _ _

theorem le_finish (alignment : Member → Nat) (ms : List Member) (offset : Nat) : offset ≤ finish alignment ms offset := by
  induction ms generalizing offset with
  | nil => exact Nat.le_refl _
  | cons m ms ih =>
    have after := le_start alignment m offset
    exact (after.trans (Nat.le_add_right _ _)).trans (ih _)

theorem length_store (ms : List Member) (offset : Nat) (v : Values ms) :
    (store alignment pad ms offset v).length = finish alignment ms offset - offset := by
  induction ms generalizing offset with
  | nil => simp [store,finish]
  | cons m ms ih =>
    have after := le_start alignment m offset
    have rest := le_finish alignment ms (start alignment m offset + m.length)
    rw [store,List.length_append,List.length_append,length_padding,m.length_bytes,ih,finish]
    omega

theorem length_image (ms : List Member) (v : Values ms) : (image alignment pad ms v).length = sizeof alignment ms := by
  have end_le : finish alignment ms 0 ≤ sizeof alignment ms := le_aligned _ _
  rw [image,List.length_append,length_store,length_padding]
  omega

theorem load_store (ms : List Member) (offset : Nat) (v : Values ms) (rest : List (BitVec 8)) :
    load alignment ms offset (store alignment pad ms offset v ++ rest) = v := by
  induction ms generalizing offset with
  | nil => rfl
  | cons m ms ih =>
    obtain ⟨first,others⟩ := v
    have skipped : (store alignment pad (m :: ms) offset (first,others) ++ rest).drop (start alignment m offset - offset) =
        m.bytes first ++ (store alignment pad ms (start alignment m offset + m.length) others ++ rest) := by
      rw [store,List.append_assoc,List.append_assoc]
      exact List.drop_left' (length_padding _ _)
    unfold load
    rw [skipped]
    refine Prod.ext (m.load_bytes first _) ?_
    show load alignment ms _ ((m.bytes first ++ _).drop m.length) = others
    rw [List.drop_left' (m.length_bytes first)]
    exact ih _ others

theorem load_image (ms : List Member) (v : Values ms) : load alignment ms 0 (image alignment pad ms v) = v :=
  load_store ms 0 v _

/-! ### No padding -/

/-- The bytes of all members. -/
def contents : (ms : List Member) → Values ms → List (BitVec 8)
  | [], _ => []
  | m :: ms, v => m.bytes v.1 ++ contents ms v.2

/-- The struct is as long as its members together. -/
def Tight (alignment : Member → Nat) (ms : List Member) : Prop := sizeof alignment ms = (ms.map Member.length).sum

instance (alignment : Member → Nat) (ms : List Member) : Decidable (Tight alignment ms) := inferInstanceAs (Decidable (_ = _))

theorem lengths_le_finish (alignment : Member → Nat) (ms : List Member) (offset : Nat) :
    offset + (ms.map Member.length).sum ≤ finish alignment ms offset := by
  induction ms generalizing offset with
  | nil => exact Nat.le_refl _
  | cons m ms ih =>
    have after := le_start alignment m offset
    have rest := ih (start alignment m offset + m.length)
    rw [List.map_cons,List.sum_cons,finish]
    omega

theorem store_of_tight (ms : List Member) (offset : Nat) (v : Values ms)
    (tight : finish alignment ms offset = offset + (ms.map Member.length).sum) : store alignment pad ms offset v = contents ms v := by
  induction ms generalizing offset with
  | nil => rfl
  | cons m ms ih =>
    have after := le_start alignment m offset
    have rest := lengths_le_finish alignment ms (start alignment m offset + m.length)
    rw [List.map_cons,List.sum_cons,finish] at tight
    have here : start alignment m offset = offset := by omega
    have nothing : padding pad offset (start alignment m offset) = [] := by simp [padding,here]
    rw [store,nothing,List.nil_append,contents,ih]
    omega

theorem image_of_tight {ms : List Member} (tight : Tight alignment ms) (v : Values ms) :
    image alignment pad ms v = contents ms v := by
  unfold Tight at tight
  have low := lengths_le_finish alignment ms 0
  have high : finish alignment ms 0 ≤ sizeof alignment ms := le_aligned _ _
  have nothing : padding pad (finish alignment ms 0) (sizeof alignment ms) = [] := by simp [padding]; omega
  rw [image,nothing,List.append_nil]
  exact store_of_tight ms 0 v (by omega)

theorem load_contents {ms : List Member} (tight : Tight alignment ms) (v : Values ms) : load alignment ms 0 (contents ms v) = v := by
  have stored : image alignment (fun _ => 0) ms v = contents ms v := image_of_tight tight v
  rw [← stored,load_image]

end Opqbox.Layout
