/-!
# Files

The program reads whole text files and writes whole text files.  `Disk` is all it needs of a place
where files are kept; what it does with one can be stated for any of them.

`Folder` is such a place held in memory: a list of files, each with the names on the way to it.  A
name on the way to a file is a folder, and there are no empty folders.  Writing a file replaces the
one with its name; the folder it lies in has to be there.

A path is followed name by name, so of several things amiss the first on the way is reported.  A
path that ends in a slash means a folder: to read from it is to look for one, and to write to it is
refused whether there is one or not.
-/

set_option autoImplicit false

namespace CrewChart

/-- Why a file could not be read or written. -/
inductive DiskFault where
  | notFound
  | isFolder
  | notFolder
  | tooLong
  | zeroInName
  | notText
  | other (why : String)
deriving DecidableEq, Repr

namespace DiskFault

def message : DiskFault → String
  | .notFound => "No such file or directory (os error 2)"
  | .isFolder => "Is a directory (os error 21)"
  | .notFolder => "Not a directory (os error 20)"
  | .tooLong => "File name too long (os error 36)"
  | .zeroInName => "file name contained an unexpected NUL byte"
  | .notText => "stream did not contain valid UTF-8"
  | .other why => why

end DiskFault

structure Disk (m : Type → Type) where
  read : String → m (Except DiskFault String)
  write : String → String → m (Except DiskFault Unit)

/-! ## Folders in memory -/

/-- The names on the way to a file. -/
abbrev Names := List String

structure Folder where
  files : List (Names × ByteArray) := []

namespace Folder

/-- Whether the path is that of the folder itself or of one further out. -/
def isOuter (path : Names) : Bool := path.all (· == "..")

/-- Whether there is a folder: a file lies below it, or it is not below this one. -/
def isFolder (d : Folder) (path : Names) : Bool :=
  isOuter path || d.files.any fun (p, _) => path.isPrefixOf p && p.length != path.length

def content? (d : Folder) (path : Names) : Option ByteArray := d.files.lookup path

/-- The most bytes a name may have, and the most a whole path may have. -/
def maxName : Nat := 255

def maxPath : Nat := 4095

/-- Whether a name says how to move between folders and is the name of nothing. -/
def isStep (name : String) : Bool := name == "" || name == "." || name == ".."

/-- Follows names from a folder; `.` stays and `..` goes up, and every name but the last has to be
a folder.  Further out than the outermost folder there are folders, of which nothing is known. -/
def resolve (d : Folder) (here : Names) : List String → Except DiskFault Names
  | [] => .ok here
  | name :: rest =>
    if d.isFolder here then
      if name = "" ∨ name = "." then resolve d here rest
      else if name = ".." then
        resolve d (if isOuter here then ".." :: here else here.dropLast) rest
      else if maxName < name.utf8ByteSize then .error .tooLong
      else resolve d (here ++ [name]) rest
    else if (d.content? here).isSome then .error .notFolder
    else .error .notFound

/-- The names of a path that can be followed.  An absolute path leads out of the folder first. -/
def namesOf (path : String) : Except DiskFault (List String) :=
  if path.toList.contains '\x00' then .error .zeroInName
  else if maxPath < path.utf8ByteSize then .error .tooLong
  else if path = "" then .error .notFound
  else .ok (if path.startsWith "/" then ".." :: path.splitOn "/" else path.splitOn "/")

/-- The file or folder that a written path leads to. -/
def locate (d : Folder) (path : String) : Except DiskFault Names := do
  d.resolve [] (← namesOf path)

/-- Where a file may be written: a name in a folder that is there. -/
def target (d : Folder) (path : String) : Except DiskFault Names := do
  match (← namesOf path).reverse with
  | [] => .error .notFound
  | last :: before =>
    let (name, outer) := match last, before.dropWhile (· = "") with
      | "", name :: outer => (name, outer)
      | _, _ => (last, before)
    let folder ← d.resolve [] (outer.reverse ++ [""])
    if last = "" ∨ isStep name then .error .isFolder
    else d.resolve folder [name]

def readBytes (d : Folder) (path : String) : Except DiskFault ByteArray := do
  let p ← d.locate path
  match d.content? p with
  | some bytes => .ok bytes
  | none => .error (if d.isFolder p then .isFolder else .notFound)

def readText (d : Folder) (path : String) : Except DiskFault String := do
  match String.fromUTF8? (← d.readBytes path) with
  | some text => .ok text
  | none => .error .notText

/-- Puts a file, creating the folders on the way. -/
def put (d : Folder) (path : Names) (bytes : ByteArray) : Folder :=
  ⟨(path, bytes) :: d.files.filter fun (p, _) => p ≠ path⟩

def writeText (d : Folder) (path text : String) : Except DiskFault Folder := do
  let p ← d.target path
  if d.isFolder p then .error .isFolder else .ok (d.put p text.toUTF8)

/-- Files with the names they have been given. -/
def ofFiles (files : List (String × ByteArray)) : Folder :=
  files.foldl (fun d (path, bytes) => d.put ((path.splitOn "/").filter (!isStep ·)) bytes) {}

theorem content?_put (d : Folder) (path : Names) (bytes : ByteArray) (p : Names) :
    (d.put path bytes).content? p = if p = path then some bytes else d.content? p := by
  have key : ∀ files : List (Names × ByteArray), p ≠ path →
      (files.filter fun (q, _) => q ≠ path).lookup p = files.lookup p := by
    intro files hp
    induction files with
    | nil => rfl
    | cons f rest ih => grind
  by_cases h : p = path
  · simp [put, content?, h]
  · have hb : (p == path) = false := by simpa using h
    simp only [put, content?, List.lookup_cons, hb, if_neg h]
    exact key d.files h

/-- A folder as a place to keep files. -/
def disk : Disk (StateM Folder) where
  read path := do return (← get).readText path
  write path text := do
    match (← get).writeText path text with
    | .ok d => set d; return .ok ()
    | .error f => return .error f

end Folder

end CrewChart
