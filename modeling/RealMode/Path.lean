/-
**Paths to plain files.** A path is cut at its slashes. Empty parts and single dots stay in the
directory, so a relative path that has only these before its last part names a file there by that
part. What leaves the directory or goes into another one names no file, nor does what is too long.

* `intercalate_parts`: the parts, with slashes between them, are the path.
* `fileName?_of_isFileName`: a file name is a path to its file.
-/

namespace RealMode.Path

/-- The parts of a path between its slashes. -/
def parts : List Char → List (List Char)
  | [] => [[]]
  | c :: rest =>
    if c = '/' then [] :: parts rest
    else
      match parts rest with
      | [] => [[c]]
      | first :: others => (c :: first) :: others

/-- Whether a part stays in the directory. -/
def isHere (part : List Char) : Bool := part == [] || part == ['.']

/-- The most bytes that a file name may have. -/
def nameLimit : Nat := 255

/-- The most bytes that a path may have. -/
def pathLimit : Nat := 4095

/-- A name that a file may have. -/
def isFileName (name : String) : Bool :=
  name != "" && name != "." && name != ".." && name.utf8ByteSize ≤ nameLimit

/-- The name in the directory of the file that a path leads to. -/
def fileName? (path : String) : Option String :=
  let parts := parts path.toList
  let name := String.ofList (parts.getLast?.getD [])
  if path.utf8ByteSize ≤ pathLimit ∧ path.toList.head? ≠ some '/' ∧ parts.dropLast.all isHere ∧
      isFileName name then some name
  else none

/-! ### Parts -/

theorem parts_ne_nil (path : List Char) : parts path ≠ [] := by
  cases path with
  | nil => simp [parts]
  | cons c rest =>
    unfold parts
    split
    · simp
    · split <;> simp

theorem intercalate_parts (path : List Char) : ['/'].intercalate (parts path) = path := by
  induction path with
  | nil => rfl
  | cons c rest ih =>
    obtain ⟨first, others, found⟩ := List.exists_cons_of_ne_nil (parts_ne_nil rest)
    rw [found] at ih
    unfold parts
    rw [found]
    split
    · subst c
      simpa [List.intercalate] using ih
    · cases others <;> simpa [List.intercalate] using ih

theorem parts_of_not_mem {path : List Char} (single : '/' ∉ path) : parts path = [path] := by
  induction path with
  | nil => rfl
  | cons c rest ih =>
    rw [List.mem_cons, not_or] at single
    rw [parts, if_neg (Ne.symm single.1), ih single.2]

theorem fileName?_of_isFileName {name : String} (valid : isFileName name)
    (single : '/' ∉ name.toList) : fileName? name = some name := by
  have short : name.utf8ByteSize ≤ pathLimit := by
    simp only [isFileName, Bool.and_eq_true, decide_eq_true_eq] at valid
    unfold nameLimit at valid
    unfold pathLimit
    omega
  have relative : name.toList.head? ≠ some '/' := fun slash =>
    single (List.mem_of_mem_head? slash)
  simp [fileName?, parts_of_not_mem single, short, relative, valid]

end RealMode.Path
