import OpenstackBlueprint.Migrate.Prepare

/-!
# What the inventory measures

The helper pods count with `find` and `wc`: the lines of a listing of everything
below a directory, and the bytes of its regular files. A listing has one line for
each entry unless a name holds a newline, and names are any bytes but `/` and
NUL, so the lines are the entries and the newlines of the printed paths
(`wcLines_find`).
-/

namespace OpenstackBlueprint.Migrate

open Kit

/-! ## File trees -/

/-- The bytes of a file name or a path. -/
abbrev Bytes := List UInt8

/-- An entry of a directory: a regular file and its size, a directory, or
anything else, such as a symbolic link. -/
inductive FsEntry
  | file (name : Bytes) (size : Nat)
  | dir (name : Bytes) (children : List FsEntry)
  | other (name : Bytes)

/-- `/` and the newline. -/
def slash : UInt8 := 47
def newline : UInt8 := 10

mutual

/-- The paths of an entry and of everything below it. -/
def FsEntry.paths (at_ : Bytes) : FsEntry → List Bytes
  | .file name _ => [at_ ++ slash :: name]
  | .dir name children => (at_ ++ slash :: name) :: pathsIn (at_ ++ slash :: name) children
  | .other name => [at_ ++ slash :: name]

/-- The paths of everything in a directory. -/
def pathsIn (at_ : Bytes) : List FsEntry → List Bytes
  | [] => []
  | e :: rest => e.paths at_ ++ pathsIn at_ rest

end

mutual

/-- The bytes of the regular files of an entry. -/
def FsEntry.bytes : FsEntry → Nat
  | .file _ size => size
  | .dir _ children => bytesIn children
  | .other _ => 0

/-- The bytes of the regular files in a directory. -/
def bytesIn : List FsEntry → Nat
  | [] => 0
  | e :: rest => e.bytes + bytesIn rest

end

/-! ## `find`, `wc` and the log -/

/-- `find d -mindepth 1`. -/
def find (d : Bytes) (tree : List FsEntry) : Bytes :=
  (pathsIn d tree).flatMap fun path => path ++ [newline]

/-- `wc -l`. -/
def wcLines (output : Bytes) : Nat := output.count newline

/-- The newlines in the printed paths. -/
def newlines (d : Bytes) (tree : List FsEntry) : Nat :=
  ((pathsIn d tree).map (List.count newline)).sum

/-- What the inventory script prints on a tree mounted at `d`. -/
def inventoryLog (pre : String) (d : Bytes) (tree : List FsEntry) : String :=
  pre ++ "files=" ++ toString (wcLines (find d tree)) ++ "\n" ++
    pre ++ "bytes=" ++ toString (bytesIn tree) ++ "\n"

/-- A listing has a line for each entry, and one more for each newline in a
path. -/
theorem wcLines_find (d : Bytes) (tree : List FsEntry) :
    wcLines (find d tree) = (pathsIn d tree).length + newlines d tree := by
  unfold wcLines find newlines
  induction pathsIn d tree with
  | nil => rfl
  | cons path rest ih =>
    rw [List.flatMap_cons, List.count_append, List.count_append, ih, List.map_cons, List.sum_cons,
      List.length_cons]
    have : List.count newline [newline] = 1 := by decide
    omega

/-- Every entry of a directory is listed. -/
theorem paths_subset {d : Bytes} {tree : List FsEntry} {e : FsEntry} (he : e ∈ tree) :
    ∀ path ∈ e.paths d, path ∈ pathsIn d tree := by
  intro path hpath
  induction tree with
  | nil => exact absurd he List.not_mem_nil
  | cons e' rest ih =>
    unfold pathsIn
    rcases List.mem_cons.mp he with rfl | he
    · exact List.mem_append_left _ hpath
    · exact List.mem_append_right _ (ih he)

/-! ## Reading the log back -/

section Log

variable {pre key : String} {n m : Nat}

/-- One line of an inventory. -/
def inventoryLine (pre key : String) (n : Nat) : List Char :=
  pre.toList ++ (key.toList ++ '=' :: Nat.toDigits 10 n)

/-- One iteration of the loop of `parse_inventory`. -/
def readLine (pre : String) (out : Dict String Int) (line : String) : Option (Dict String Int) :=
  if startsWith pre line then
    let (k, v) := partition '=' (String.ofList (line.toList.drop pre.length))
    (pyInt (strip v)).map (out.set k)
  else some out

/-- A line of an inventory is read as its key and number. -/
theorem readLine_inventoryLine (hkey : '=' ∉ key.toList) (out : Dict String Int) :
    readLine pre out (String.ofList (inventoryLine pre key n)) = some (out.set key n) := by
  have hdigits : ∀ c ∈ Nat.toDigits 10 n, c.isDigit = true := fun c hc =>
    Nat.isDigit_of_mem_toDigits (by omega) (by omega) hc
  have hstarts : startsWith pre (String.ofList (inventoryLine pre key n)) = true := by
    unfold startsWith inventoryLine
    rw [String.toList_ofList, List.isPrefixOf_iff_prefix]
    exact List.prefix_append _ _
  have hdrop : (String.ofList (inventoryLine pre key n)).toList.drop pre.length =
      key.toList ++ '=' :: Nat.toDigits 10 n := by
    unfold inventoryLine
    rw [String.toList_ofList, ← String.length_toList, List.drop_left]
  unfold readLine
  rw [if_pos hstarts, hdrop, partition_append hkey]
  dsimp only
  rw [strip_of_digits hdigits, pyInt_of_digits Nat.toDigits_ne_nil hdigits,
    Nat.ofDigitChars_ten_toDigits, String.ofList_toList]
  rfl

/-- No line of an inventory has a break in it. -/
theorem inventoryLine_noBreak (hpre : ∀ c ∈ pre.toList, isLineBreak c = false)
    (hkey : ∀ c ∈ key.toList, isLineBreak c = false) :
    ∀ c ∈ inventoryLine pre key n, isLineBreak c = false := by
  intro c hc
  unfold inventoryLine at hc
  rw [List.mem_append, List.mem_append, List.mem_cons] at hc
  rcases hc with hc | hc | rfl | hc
  · exact hpre c hc
  · exact hkey c hc
  · decide
  · exact isLineBreak_of_isDigit (Nat.isDigit_of_mem_toDigits (by omega) (by omega) hc)

/-- The log of an inventory is read back as the two numbers it prints. -/
theorem parseInventory_inventoryLog (hpre : ∀ c ∈ pre.toList, isLineBreak c = false) (d : Bytes)
    (tree : List FsEntry) :
    ∃ out, parseInventory (inventoryLog pre d tree) pre = some out ∧
      out.get? "files" = some (wcLines (find d tree) : Int) ∧
      out.get? "bytes" = some (bytesIn tree : Int) := by
  have hlines : splitLines (inventoryLog pre d tree) =
      [String.ofList (inventoryLine pre "files" (wcLines (find d tree))),
        String.ofList (inventoryLine pre "bytes" (bytesIn tree))] := by
    have htext : (inventoryLog pre d tree).toList =
        inventoryLine pre "files" (wcLines (find d tree)) ++ '\n' ::
          (inventoryLine pre "bytes" (bytesIn tree) ++ '\n' :: []) := by
      simp [inventoryLog, inventoryLine]
    unfold splitLines
    rw [htext, splitLinesFrom_newline (inventoryLine_noBreak hpre (by simp [isLineBreak])),
      splitLinesFrom_newline (inventoryLine_noBreak hpre (by simp [isLineBreak]))]
    rfl
  refine ⟨(Dict.empty.set "files" (wcLines (find d tree) : Int)).set "bytes" (bytesIn tree : Int),
    ?_, ?_, ?_⟩
  · show (splitLines (inventoryLog pre d tree)).foldlM (readLine pre) Dict.empty = _
    rw [hlines, List.foldlM_cons, readLine_inventoryLine (by decide)]
    show (readLine pre _ _).bind _ = _
    rw [readLine_inventoryLine (by decide)]
    rfl
  · rw [Dict.get?_set, if_neg (by decide), Dict.get?_set, if_pos rfl]
  · rw [Dict.get?_set, if_pos rfl]

end Log

end OpenstackBlueprint.Migrate
