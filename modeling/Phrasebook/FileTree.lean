import Phrasebook.OrderedMap
import Phrasebook.Path

/-!
# File trees

The files and folders that a run can see and change. A location is the list of names on the way
from the root; the root itself is always a folder. Paths are followed name by name from the root or
from the working folder, and whatever is passed on the way has to be a folder.

A path is a text, so it leads only to what has a text for a name. What has a name that is no text is
met where its folder is listed, and nowhere else.

There are no links here, no devices and no permissions, so that what is there can be read, and what
is not there can be written. A name may be as long as it likes and hold any character but a slash,
though a disk refuses a null character and a name that is too long. Nothing is written in part: a
disk is never full, and a write that has begun comes to its end.
-/

namespace Phrasebook

/-- Why a file cannot be used. -/
inductive FileError where
  | notFound
  | isADirectory
  | notADirectory
  | alreadyExists
  /-- The content is not text. -/
  | invalidData
  deriving DecidableEq

/-- The error as messages name it. -/
def FileError.message : FileError → String
  | notFound => "[io NotFound]"
  | isADirectory => "[io IsADirectory]"
  | notADirectory => "[io NotADirectory]"
  | alreadyExists => "[io AlreadyExists]"
  | invalidData => "[io InvalidData]"

/-- The names on the way from the root. -/
abbrev Location := List String

inductive Node where
  | folder
  | file (content : ByteArray)

instance : DecidableEq Node
  | .folder, .folder => isTrue rfl
  | .folder, .file _ => isFalse nofun
  | .file _, .folder => isFalse nofun
  | .file ⟨a⟩, .file ⟨b⟩ =>
    if h : a = b then isTrue (h ▸ rfl) else isFalse fun e => h (by cases e; rfl)

/-- A name that is no text. -/
structure RawName where
  bytes : List UInt8
  not_text : String.fromUTF8? bytes.toByteArray = none
  deriving DecidableEq

namespace RawName

/-- What is left of the name without its extension, if that is a text. -/
def stem? (name : RawName) : Option String :=
  String.fromUTF8? (Path.splitLast 0x2e name.bytes).1.toByteArray

/-- The extension, if it is a text. -/
def extension? (name : RawName) : Option String :=
  (Path.splitLast 0x2e name.bytes).2.bind fun ext => String.fromUTF8? ext.toByteArray

end RawName

/-- A name as a folder lists it. -/
inductive FileName where
  | text (name : String)
  | raw (name : RawName)
  deriving DecidableEq

/-- What is at which location, and what is in which folder under a name that is no text. -/
structure FileTree where
  nodes : OrderedMap Location Node := ∅
  raw : OrderedMap (Location × RawName) Node := ∅
  deriving DecidableEq

namespace FileTree

def node? (t : FileTree) (loc : Location) : Option Node :=
  if loc = [] then some .folder else t.nodes.get? loc

/-- The tree with a file or folder put at a location. -/
def put (t : FileTree) (loc : Location) (n : Node) : FileTree :=
  { t with nodes := t.nodes.insert loc n }

/-- The tree without what is at a location or below it. -/
def remove (t : FileTree) (loc : Location) : FileTree where
  nodes := t.nodes.filterKeys fun l => !loc.isPrefixOf l
  raw := t.raw.filterKeys fun k => !loc.isPrefixOf k.1

/-- The names of what is directly in a folder, as far as they are texts. -/
def names (t : FileTree) (folder : Location) : List String :=
  t.nodes.keys.filterMap fun l => if l.dropLast = folder then l.getLast? else none

/-- The other names of what is directly in a folder. -/
def rawNames (t : FileTree) (folder : Location) : List RawName :=
  t.raw.keys.filterMap fun k => if k.1 = folder then some k.2 else none

@[simp] theorem node?_put {t : FileTree} {loc l : Location} {n : Node} (h : loc ≠ []) :
    (t.put loc n).node? l = if l = loc then some n else t.node? l := by
  by_cases hl : l = []
  · subst hl; simp [node?, Ne.symm h]
  · simp [node?, put, hl]

@[simp] theorem raw_put (t : FileTree) (loc : Location) (n : Node) : (t.put loc n).raw = t.raw :=
  rfl

end FileTree

/-- One step of a path: to where one is, to the folder around it, or to what it has of a name. -/
inductive Move where
  | stay | up | down (name : String)
  deriving DecidableEq

/-- The steps of a path. A dot or a slash too many stays, but only in a folder. -/
def Path.moves (p : Path) : List Move :=
  p.segments.map fun s => if s = "" ∨ s = "." then .stay else if s = ".." then .up else .down s

namespace FileTree

/-- Follows steps from a location. -/
def follow (t : FileTree) (loc : Location) : List Move → Except FileError Location
  | [] => .ok loc
  | m :: ms =>
    match t.node? loc with
    | none => .error .notFound
    | some (.file _) => .error .notADirectory
    | some .folder =>
      match m with
      | .stay => follow t loc ms
      | .up => follow t loc.dropLast ms
      | .down name => follow t (loc ++ [name]) ms

end FileTree

/-- A file tree and the folder in it that relative paths start from. -/
structure Workspace where
  tree : FileTree
  here : Location
  deriving DecidableEq

namespace Workspace

/-- The path of the working folder. -/
def path (w : Workspace) : Path := ⟨"/" ++ "/".intercalate w.here⟩

/-- The location that a path leads to. There need not be anything there. -/
def locate (w : Workspace) (p : Path) : Except FileError Location :=
  if p.text = "" then .error .notFound
  else w.tree.follow (if p.isAbsolute then [] else w.here) p.moves

/-- What is at the end of a path. -/
def node? (w : Workspace) (p : Path) : Option Node :=
  match w.locate p with
  | .ok l => w.tree.node? l
  | .error _ => none

def pathExists (w : Workspace) (p : Path) : Bool := (w.node? p).isSome

def isFolder (w : Workspace) (p : Path) : Bool := w.node? p = some .folder

def isFile (w : Workspace) (p : Path) : Bool :=
  match w.node? p with
  | some (.file _) => true
  | _ => false

/-- The content of a file. -/
def read (w : Workspace) (p : Path) : Except FileError ByteArray := do
  match w.tree.node? (← w.locate p) with
  | none => throw .notFound
  | some .folder => throw .isADirectory
  | some (.file content) => return content

/-- The content of a file of text. -/
def readText (w : Workspace) (p : Path) : Except FileError String := do
  match String.fromUTF8? (← w.read p) with
  | some text => return text
  | none => throw .invalidData

/-- The names of what is in a folder, as far as they are texts. -/
def names (w : Workspace) (p : Path) : List String :=
  match w.locate p with
  | .ok l => w.tree.names l
  | .error _ => []

/-- All names of what is in a folder. -/
def listing (w : Workspace) (p : Path) : List FileName :=
  match w.locate p with
  | .ok l => (w.tree.names l).map .text ++ (w.tree.rawNames l).map .raw
  | .error _ => []

/-- There is a file in the folder under a name that is no text. -/
def isRawFile (w : Workspace) (folder : Path) (name : RawName) : Bool :=
  match w.locate folder with
  | .ok l =>
    match w.tree.raw.get? (l, name) with
    | some (.file _) => true
    | _ => false
  | .error _ => false

/-- The workspace after a file has been written. A path that ends with a slash names no
file, whether there is a folder or not. -/
def write (w : Workspace) (p : Path) (content : ByteArray) : Except FileError Workspace := do
  let file : Path := ⟨String.ofList (p.text.toList.reverse.dropWhile (· = '/')).reverse⟩
  if file = p then
    let l ← w.locate p
    if w.tree.node? l = some .folder then throw .isADirectory
    return { w with tree := w.tree.put l (.file content) }
  else if file.text = "" then throw .isADirectory
  else
    let _ ← w.locate file
    throw .isADirectory

/-- The workspace with a new folder. -/
def makeFolder (w : Workspace) (p : Path) : Except FileError Workspace := do
  let l ← w.locate p
  if (w.tree.node? l).isSome then throw .alreadyExists
  return { w with tree := w.tree.put l .folder }

/-- Makes the first of the folders and, as far as they are missing, the folders around it that
follow in the list. Folders that have been made stay even if a later one cannot be made. -/
def makeFolders (w : Workspace) : List Path → Workspace × Except FileError Unit
  | [] => (w, .ok ())
  | p :: ps =>
    match w.makeFolder p with
    | .ok w => (w, .ok ())
    | .error .notFound =>
      match w.makeFolders ps with
      | (w, .error e) => (w, .error e)
      | (w, .ok ()) =>
        match w.makeFolder p with
        | .ok w => (w, .ok ())
        | .error e => (w, if w.isFolder p then .ok () else .error e)
    | .error e => (w, if w.isFolder p then .ok () else .error e)

end Workspace

end Phrasebook
