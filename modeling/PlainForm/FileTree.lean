import PlainForm.File

/-!
# File trees

A working directory with the directories and files below it. Names are resolved component by
component; each component but the last must name a directory.
-/

namespace PlainForm

/-- The components that lead from the working directory to a file or directory. -/
abbrev Path := List Text

structure FileTree where
  directories : List Path := []
  files : List (Path × Bytes) := []
deriving DecidableEq

namespace FileTree

/-! ## Contents -/

def file? (tree : FileTree) (path : Path) : Option Bytes := tree.files.lookup path

/-- Directories are those listed, and those that something lies in. -/
def isDirectory (tree : FileTree) (path : Path) : Bool :=
  path.isEmpty || tree.directories.any (path.isPrefixOf ·) ||
    tree.files.any fun (file, _) => path.isPrefixOf file && path != file

/-- Makes a file, or gives new contents to one that is there. -/
def put (tree : FileTree) (path : Path) (bytes : Bytes) : FileTree :=
  { tree with files := (path, bytes) :: tree.files.filter (·.1 ≠ path) }

/-- The files that another tree lacks or has with other contents. -/
def changedSince (tree before : FileTree) : List (Path × Bytes) :=
  tree.files.filter fun (path, bytes) => before.file? path != some bytes

/-! ## Names -/

def componentLimit : Nat := 255

def nameLimit : Nat := 4095

def components : Text → List Text
  | [] => [[]]
  | c :: rest =>
    if c = '/' then [] :: components rest else (components rest).modifyHead (c :: ·)

/-- What the beginning of a name leads to. -/
inductive Place where
  | directory (path : Path)
  | file (path : Path)
  /-- A directory outside the tree, in which nothing can be found or written. -/
  | outside
deriving DecidableEq

def start (name : Text) : Except SystemError Place :=
  if name.any (·.val = 0) then .error .impossibleName
  else if name = [] then .error .notFound
  else if nameLimit < (Utf8.encode name).length then .error .nameTooLong
  else .ok (if name.head? = some ('/' : CodePoint) then .outside else .directory [])

def step (tree : FileTree) (place : Place) (component : Text) : Except SystemError Place :=
  match place with
  | .file _ => .error .notADirectory
  | .outside =>
    if component = [] ∨ component = "." ∨ component = ".." then .ok .outside
    else if componentLimit < (Utf8.encode component).length then .error .nameTooLong
    else .error .notFound
  | .directory path =>
    if component = [] ∨ component = "." then .ok (.directory path)
    else if component = ".." then .ok (if path = [] then .outside else .directory path.dropLast)
    else if componentLimit < (Utf8.encode component).length then .error .nameTooLong
    else
      let path := path ++ [component]
      if (tree.file? path).isSome then .ok (.file path)
      else if tree.isDirectory path then .ok (.directory path)
      else .error .notFound

def find (tree : FileTree) (name : Text) : Except SystemError Place := do
  (components name).foldlM tree.step (← start name)

/-- The file to be made or changed when a file of this name is written. -/
def target (tree : FileTree) (name : Text) : Except SystemError Path := do
  let parent ← (components name).dropLast.foldlM tree.step (← start name)
  let last := (components name).getLast?.getD []
  match tree.step parent last, parent with
  | .ok (.file path), _ => .ok path
  | .ok _, _ => .error .isADirectory
  | .error .notFound, .directory path => .ok (path ++ [last])
  | .error error, _ => .error error

/-! ## Access -/

def read (tree : FileTree) (name : Text) : Except SystemError Bytes := do
  match ← tree.find name with
  | .file path => .ok ((tree.file? path).getD [])
  | _ => .error .isADirectory

def write (tree : FileTree) (name : Text) (bytes : Bytes) : Except SystemError FileTree :=
  return tree.put (← tree.target name) bytes

/-- The tree as a run sees it. -/
def view (tree : FileTree) (workingDirectory : Text) : Files where
  workingDirectory
  read := tree.read
  accepts name := (tree.target name).map fun _ => ()

end FileTree

end PlainForm
