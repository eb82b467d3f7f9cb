import Mathlib.Data.List.DropRight

/-!
Text files as lists of bytes: trimming, splitting at a separator and reading
line by line.
-/
namespace Opqbox.Text

abbrev Str := List Char

/-- The ASCII whitespace. -/
def isspace (c : Char) : Bool :=
  c = ' ' || c = '\t' || c = '\n' || c = '\r' || c = '\x0b' || c = '\x0c'

/-- Without the whitespace at both ends. -/
def strip (s : Str) : Str := (s.dropWhile isspace).rdropWhile isspace

/-- The parts between the first `n` separators, and the rest. -/
def split (sep : Char) : Nat → Str → List Str
  | 0, s => [s]
  | n + 1, s =>
    match s.dropWhile (· != sep) with
    | [] => [s]
    | _ :: rest => s.takeWhile (· != sep) :: split sep n rest

/-- The lines of a text, each with its newline where it has one. -/
def lines : Str → List Str
  | [] => []
  | '\n' :: text => ['\n'] :: lines text
  | c :: text =>
    match lines text with
    | [] => [[c]]
    | line :: rest => (c :: line) :: rest

/-- The lines of a text, without their newlines. -/
def getlines : Str → List Str
  | [] => []
  | '\n' :: text => [] :: getlines text
  | c :: text =>
    match getlines text with
    | [] => [[c]]
    | line :: rest => (c :: line) :: rest

/-- A line with two separators at least: its first two fields and what follows them. -/
def Fields (sep : Char) (line first second rest : Str) : Prop :=
  line = first ++ sep :: (second ++ sep :: rest) ∧ sep ∉ first ∧ sep ∉ second

/-! ### Trimming -/

theorem dropWhile_strip (s : Str) : (strip s).dropWhile isspace = strip s := by
  cases stripped : strip s with
  | nil => rfl
  | cons c u =>
    obtain ⟨rest,split⟩ := List.rdropWhile_prefix isspace (l := s.dropWhile isspace)
    have first := List.head?_dropWhile_not isspace s
    rw [← split,show (s.dropWhile isspace).rdropWhile isspace = c :: u from stripped] at first
    exact List.dropWhile_cons_of_neg (by simpa using first)

theorem strip_strip (s : Str) : strip (strip s) = strip s := by
  rw [strip,dropWhile_strip,strip,List.rdropWhile_idempotent]

/-- Nothing is trimmed where there is no whitespace. -/
theorem strip_plain {s : Str} (plain : ∀ c ∈ s, isspace c = false) : strip s = s := by
  have front : s.dropWhile isspace = s := by
    cases s with
    | nil => rfl
    | cons c u => exact List.dropWhile_cons_of_neg (by simp [plain c (List.mem_cons_self ..)])
  rw [strip,front]
  refine (List.rdropWhile_eq_self_iff ..).mpr ?_
  intro nonempty
  simp [plain _ (List.getLast_mem nonempty)]

theorem strip_subset (s : Str) {c : Char} (member : c ∈ strip s) : c ∈ s :=
  (List.dropWhile_suffix isspace).subset ((List.rdropWhile_prefix isspace _).subset member)

/-- A newline at the end is trimmed. -/
theorem strip_newline (s : Str) : strip (s ++ ['\n']) = strip s := by
  rw [strip,List.dropWhile_append]
  split_ifs with blank
  · rw [strip,List.isEmpty_iff.mp blank]
    rfl
  · exact List.rdropWhile_concat_pos _ _ _ rfl

/-! ### Lines -/

theorem newline_notMem_getlines {text line : Str} (member : line ∈ getlines text) : '\n' ∉ line := by
  induction text using getlines.induct generalizing line with
  | case1 => simp [getlines] at member
  | case2 text ih =>
    rw [getlines] at member
    rcases List.mem_cons.mp member with rfl | later
    · simp
    · exact ih later
  | case3 c text plain ended ih =>
    rw [getlines.eq_3 _ _ plain,ended] at member
    simp only [List.mem_singleton] at member
    simpa [member,eq_comm] using plain
  | case4 c text plain first rest followed ih =>
    rw [getlines.eq_3 _ _ plain,followed] at member
    rcases List.mem_cons.mp member with rfl | later
    · have kept := ih (followed ▸ List.mem_cons_self ..)
      simpa [kept,eq_comm] using plain
    · exact ih (followed ▸ List.mem_cons_of_mem _ later)

/-- Lines with their newlines are those without them, each followed by one
    except for the last perhaps. -/
theorem lines_getlines (text : Str) :
    List.Forall₂ (fun line plain => line = plain ∨ line = plain ++ ['\n']) (lines text) (getlines text) := by
  induction text using getlines.induct with
  | case1 => exact .nil
  | case2 text ih => exact .cons (.inr rfl) ih
  | case3 c text plain ended ih =>
    rw [lines.eq_3 _ _ plain,getlines.eq_3 _ _ plain,ended]
    rw [ended] at ih
    cases ih' : lines text with
    | nil => exact .cons (.inl rfl) .nil
    | cons line rest => rw [ih'] at ih; cases ih
  | case4 c text plain first rest followed ih =>
    rw [lines.eq_3 _ _ plain,getlines.eq_3 _ _ plain,followed]
    rw [followed] at ih
    cases listed : lines text with
    | nil => rw [listed] at ih; cases ih
    | cons line more =>
      rw [listed] at ih
      obtain ⟨same,later⟩ := List.forall₂_cons.mp ih
      exact .cons (same.imp (congrArg _) (congrArg _)) later

theorem getlines_append (line text : Str) (plain : '\n' ∉ line) :
    getlines (line ++ '\n' :: text) = line :: getlines text := by
  induction line with
  | nil => rfl
  | cons c line ih =>
    simp only [List.mem_cons,not_or] at plain
    rw [List.cons_append,getlines.eq_3 _ _ (fun same => absurd same.symm plain.1),ih plain.2]

/-- Lines that are written one after the other are read back. -/
theorem getlines_flatMap {written : List Str} (plain : ∀ line ∈ written, '\n' ∉ line) :
    getlines (written.flatMap (· ++ ['\n'])) = written := by
  induction written with
  | nil => rfl
  | cons line rest ih =>
    rw [List.flatMap_cons,List.append_assoc,List.singleton_append,getlines_append _ _ (plain line (List.mem_cons_self ..)),
      ih fun line member => plain line (List.mem_cons_of_mem _ member)]

/-! ### Fields -/

/-- What stands before and after the first separator. -/
theorem cut_unique {sep : Char} {before first after tail : Str} (plain : sep ∉ before) (plain' : sep ∉ first)
    (same : before ++ sep :: after = first ++ sep :: tail) : before = first ∧ after = tail := by
  induction before generalizing first with
  | nil =>
    cases first with
    | nil => exact ⟨rfl,List.tail_eq_of_cons_eq same⟩
    | cons c first => simp [(List.cons.inj same).1] at plain'
  | cons c before ih =>
    cases first with
    | nil => simp [(List.cons.inj same).1] at plain
    | cons d first =>
      obtain ⟨rfl,rest⟩ := List.cons.inj same
      obtain ⟨rfl,rfl⟩ := ih (fun member => plain (List.mem_cons_of_mem _ member))
        (fun member => plain' (List.mem_cons_of_mem _ member)) rest
      exact ⟨rfl,rfl⟩

theorem split_cons_iff {sep : Char} {n : Nat} {s first second : Str} {more : List Str} :
    split sep (n + 1) s = first :: second :: more ↔
      ∃ tail, s = first ++ sep :: tail ∧ sep ∉ first ∧ split sep n tail = second :: more := by
  by_cases has : sep ∈ s
  · obtain ⟨before,after,rfl,plain⟩ := List.eq_append_cons_of_mem has
    have skip : ∀ c ∈ before, (c != sep) = true := fun c member => by
      simpa using fun same : c = sep => plain (same ▸ member)
    rw [split,List.dropWhile_append_of_pos skip,List.takeWhile_append_of_pos skip]
    simp only [bne_self_eq_false,Bool.false_eq_true,not_false_eq_true,List.dropWhile_cons_of_neg,List.takeWhile_cons_of_neg,
      List.append_nil,List.cons.injEq]
    constructor
    · rintro ⟨rfl,rest⟩
      exact ⟨after,rfl,plain,rest⟩
    · rintro ⟨tail,same,plain',rest⟩
      obtain ⟨rfl,rfl⟩ := cut_unique plain plain' same
      exact ⟨rfl,rest⟩
  · have all : s.dropWhile (· != sep) = [] := List.dropWhile_eq_nil_iff.mpr fun c member => by
      simpa using fun same : c = sep => has (same ▸ member)
    rw [split,all]
    constructor
    · intro same
      simp at same
    · rintro ⟨tail,rfl,_⟩
      simp at has


theorem splitOn_cons_iff {sep : Char} {s first second : Str} {more : List Str} :
    s.splitOn sep = first :: second :: more ↔
    ∃ tail, s = first ++ sep :: tail ∧ sep ∉ first ∧ tail.splitOn sep = second :: more := by
  by_cases has : sep ∈ s
  · obtain ⟨before,after,rfl,plain⟩ := List.eq_append_cons_of_mem has
    rw [List.splitOn_append_cons_self_of_not_mem plain,List.cons.injEq]
    constructor
    · rintro ⟨rfl,rest⟩
      exact ⟨after,rfl,plain,rest⟩
    · rintro ⟨tail,same,plain',rest⟩
      obtain ⟨rfl,rfl⟩ := cut_unique plain plain' same
      exact ⟨rfl,rest⟩
  · rw [List.splitOn_eq_singleton has]
    constructor
    · intro same
      simp at same
    · rintro ⟨tail,rfl,_⟩
      simp at has

/-- Splitting twice at most gives three fields where there are two separators. -/
theorem split_fields_iff {sep : Char} {line first second rest : Str} :
    split sep 2 line = [first,second,rest] ↔ Fields sep line first second rest := by
  rw [split_cons_iff]
  constructor
  · rintro ⟨tail,rfl,plain,splits⟩
    obtain ⟨_,rfl,plain',same⟩ := split_cons_iff.mp splits
    rw [split,List.cons.injEq] at same
    exact ⟨by rw [same.1],plain,plain'⟩
  · rintro ⟨rfl,plain,plain'⟩
    exact ⟨_,rfl,plain,split_cons_iff.mpr ⟨rest,rfl,plain',rfl⟩⟩

/-- Splitting at every separator gives three fields at least where there are
    two, and the third and later ones rejoined are what follows the second. -/
theorem splitOn_fields_iff {sep : Char} {line first second rest : Str} :
    (∃ third more, line.splitOn sep = first :: second :: third :: more ∧ [sep].intercalate (third :: more) = rest) ↔
      Fields sep line first second rest := by
  constructor
  · rintro ⟨third,more,splits,rfl⟩
    obtain ⟨tail,rfl,plain,splits⟩ := splitOn_cons_iff.mp splits
    obtain ⟨tail,rfl,plain',splits⟩ := splitOn_cons_iff.mp splits
    rw [← splits,List.intercalate_splitOn]
    exact ⟨rfl,plain,plain'⟩
  · rintro ⟨rfl,plain,plain'⟩
    obtain ⟨third,more,splits⟩ := List.exists_cons_of_ne_nil (List.splitOn_ne_nil sep rest)
    refine ⟨third,more,?_,?_⟩
    · rw [List.splitOn_append_cons_self_of_not_mem plain,List.splitOn_append_cons_self_of_not_mem plain',splits]
    · rw [← splits,List.intercalate_splitOn]

/-- The fields of a line with its newline. -/
theorem fields_newline {sep : Char} {line first second rest : Str} (fields : Fields sep line first second rest) :
    Fields sep (line ++ ['\n']) first second (rest ++ ['\n']) := by
  obtain ⟨rfl,plain,plain'⟩ := fields
  exact ⟨by simp,plain,plain'⟩

end Opqbox.Text
