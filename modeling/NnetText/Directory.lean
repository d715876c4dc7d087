import NnetText.Text.Bytes

/-!
# What a path leads to

A path is resolved by the system the program runs on, and everything the program needs to know
about it is the answer: a `Lookup`. A small directory tree that is given as a value answers in
the same way, by walking the segments of the path from the working directory on. Around the tree
lies a system of which no more is known than its directories of long standing and a few devices.
-/

namespace NnetText

/-- Why the content of a file cannot be had. -/
inductive ReadFailure where
  | permissionDenied
  | other (message : String)
deriving DecidableEq, Repr

/-- A regular file. -/
structure FileEntry where
  /-- The path without detours. -/
  canonical : String
  /-- The size in bytes. -/
  size : Nat
  /-- When the file was last changed, in seconds, if that is known. -/
  modified : Option Int
  content : Except ReadFailure (List UInt8)

/-- The answer to the question what a path leads to. -/
inductive Lookup where
  /-- To nothing, for the given reason. -/
  | missing (reason : String)
  | directory
  /-- To something that can be read but is no regular file, such as a device. -/
  | special (content : Except ReadFailure (List UInt8))
  | file (entry : FileEntry)

namespace Lookup

/-- A segment leads nowhere. -/
def noSuchFile : Lookup := missing "No such file or directory (os error 2)"

/-- A segment leads on from something that is no directory. -/
def notADirectory : Lookup := missing "Not a directory (os error 20)"

/-- A segment or the whole path is too long. -/
def nameTooLong : Lookup := missing "File name too long (os error 36)"

/-- A path holds a character that ends every path. -/
def nulByte : Lookup := missing "file name contained an unexpected NUL byte"

/-- Content as a text, or the reason why it is none. -/
def textOf : Except ReadFailure (List UInt8) → Except String (List Char)
  | .error .permissionDenied => .error "Permission denied (os error 13)"
  | .error (.other message) => .error message
  | .ok bytes =>
    match decodeUtf8 bytes with
    | some cs => .ok cs
    | none => .error "stream did not contain valid UTF-8"

/-- **The text that a path leads to**, or the reason why there is none. -/
def text : Lookup → Except String (List Char)
  | missing reason => .error reason
  | directory => .error "Is a directory (os error 21)"
  | special content => textOf content
  | file entry => textOf entry.content

/-- What one comes to with more segments behind those that lead here: nothing may follow what is
no directory. -/
def followedBy (lookup : Lookup) (rest : List String) : Lookup :=
  match lookup with
  | special _ | file _ => if rest.isEmpty then lookup else notADirectory
  | _ => lookup

end Lookup

/-- A directory tree: the directories and files in it, by their segments from the top. -/
structure Directory where
  /-- The canonical path of the top. -/
  root : String
  directories : List (List String)
  files : List (List String × List UInt8)
  /-- How many steps up from the top the root of the system is. -/
  depth : Nat := 2

/-! ### The system around the tree -/

namespace Surrounding

/-- Directories that are always there, by their segments from the root. -/
def directories : List (List String) :=
  [["bin"], ["boot"], ["dev"], ["dev", "pts"], ["dev", "shm"], ["etc"], ["home"], ["lib"], ["mnt"],
    ["opt"], ["proc"], ["proc", "self"], ["root"], ["run"], ["sbin"], ["srv"], ["sys"], ["tmp"],
    ["usr"], ["usr", "bin"], ["usr", "lib"], ["usr", "local"], ["usr", "sbin"], ["usr", "share"],
    ["var"], ["var", "lib"], ["var", "log"], ["var", "tmp"]]

/-- Content without an end. -/
def endless : Except ReadFailure (List UInt8) :=
  .error (.other "Cannot allocate memory (os error 12)")

/-- Devices that are always there: one that is empty, and some that never end. -/
def devices : List (List String × Except ReadFailure (List UInt8)) :=
  [(["dev", "null"], .ok []), (["dev", "zero"], endless), (["dev", "full"], endless),
    (["dev", "random"], endless), (["dev", "urandom"], endless)]

end Surrounding

namespace Directory

/-- Whether segments lead to a directory, which may be there only because it holds something. -/
def hasDirectory (d : Directory) (path : List String) : Bool :=
  path.isEmpty || d.directories.any (fun p => path.isPrefixOf p) ||
    d.files.any (fun f => path.isPrefixOf f.1 && path.length < f.1.length)

/-- A file of the tree. -/
def entry (d : Directory) (path : List String) (bytes : List UInt8) : FileEntry where
  canonical := "/".intercalate (d.root :: path)
  size := bytes.length
  modified := some 0
  content := .ok bytes

/-- Where a walk has come. -/
inductive Place where
  /-- In the tree. -/
  | inside (path : List String)
  /-- So many steps above the top of the tree, but not yet at the root of the system. -/
  | above (steps : Nat)
  /-- In the system, by segments from its root. -/
  | system (path : List String)
deriving DecidableEq

/-- The place so many steps above the top of the tree. -/
def climb (d : Directory) (steps : Nat) : Place :=
  if d.depth ≤ steps then .system [] else .above steps

/-- One step up. There is nothing above the root. -/
def Place.up (d : Directory) : Place → Place
  | .inside [] => d.climb 1
  | .inside path => .inside path.dropLast
  | .above steps => d.climb (steps + 1)
  | .system path => .system path.dropLast

/-- One step down, unless it leads to a file or to nothing. -/
def Place.down (d : Directory) (segment : String) : Place → Except Lookup Place
  | .inside path =>
    if d.hasDirectory (path ++ [segment]) then .ok (.inside (path ++ [segment]))
    else
      match d.files.lookup (path ++ [segment]) with
      | some bytes => .error (.file (d.entry (path ++ [segment]) bytes))
      | none => .error .noSuchFile
  | .above _ => .error .noSuchFile
  | .system path =>
    if Surrounding.directories.contains (path ++ [segment]) then .ok (.system (path ++ [segment]))
    else
      match Surrounding.devices.lookup (path ++ [segment]) with
      | some content => .error (.special content)
      | none => .error .noSuchFile

/-- One segment on from a directory. -/
def Place.enter (d : Directory) (p : Place) (segment : String) : Except Lookup Place :=
  if segment = "" || segment = "." then .ok p
  else if 255 < segment.utf8ByteSize then .error .nameTooLong
  else if segment = ".." then .ok (p.up d)
  else p.down d segment

/-- Walks along segments. A file ends the walk; nothing may follow it, not even an empty
segment. -/
def walk (d : Directory) (p : Place) : List String → Lookup
  | [] => .directory
  | segment :: rest =>
    match p.enter d segment with
    | .ok q => walk d q rest
    | .error lookup => lookup.followedBy rest

/-- **What a path leads to** in the tree, seen from its top. -/
def lookup (d : Directory) (path : String) : Lookup :=
  if path.toList.contains '\x00' then .nulByte
  else if path.isEmpty then .noSuchFile
  else if 4095 < path.utf8ByteSize then .nameTooLong
  else
    let start := if ['/'].isPrefixOf path.toList then Place.system [] else Place.inside []
    d.walk start (path.splitOn "/")

end Directory

end NnetText
