import GoInventory.InspectError

/-!
# File trees

A file system as far as an inspection sees it: a path gives the bytes of a file
or the reason why it gives none. A `FileTree` is a directory with its files and
directories; paths are followed from its root, which is the working directory.
-/

namespace GoInventory

/-- What the paths of a file system lead to. -/
abbrev FileSystem := String → Except ReadError (List UInt8)

/-- A file with its bytes, or a directory with the names in it. -/
inductive FileTree where
  | file (bytes : List UInt8)
  | directory (entries : List (String × FileTree))

namespace FileTree

/-- A directory without entries. -/
def root : FileTree := directory []

/-- The entries with one of them set. -/
def setEntry (name : String) (tree : FileTree) :
    List (String × FileTree) → List (String × FileTree)
  | [] => [(name, tree)]
  | (other, old) :: rest =>
    if other == name then (name, tree) :: rest
      else (other, old) :: setEntry name tree rest

/-- The tree with `leaf` at the path of these names; directories on the
way are made. -/
def insert (leaf : FileTree) : List String → FileTree → FileTree
  | [], _ => leaf
  | name :: names, tree =>
    let entries := match tree with
      | directory entries => entries
      | file _ => []
    let inner := (entries.lookup name).getD root
    directory (setEntry name (insert leaf names inner) entries)

/-- Follow names from `here`, whose parent directories are `above`, the nearest
first. There is nothing to be found above the root. -/
def follow (above : List FileTree) (here : FileTree) :
    List String → Except ReadError FileTree
  | [] => .ok here
  | name :: names =>
    match here with
    | file _ => .error .notDirectory
    | directory entries =>
      if name == "" || name == "." then follow above here names
      else if name == ".." then
        match above with
        | [] => .error .notFound
        | parent :: others => follow others parent names
      else
        match entries.lookup name with
        | none => .error .notFound
        | some inner => follow (here :: above) inner names

/-- The bytes of the file at a path. -/
def read (tree : FileTree) : FileSystem := fun path =>
  if path.isEmpty || path.startsWith "/" then .error .notFound
  else
    match follow [] tree (path.splitOn "/") with
    | .error e => .error e
    | .ok (directory _) => .error .isDirectory
    | .ok (file bytes) => .ok bytes

end FileTree

end GoInventory
