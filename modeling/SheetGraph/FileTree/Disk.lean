import SheetGraph.FileTree.Walk

/-!
# The disk

A `Disk` is a file tree seen from a working directory: what a path means on it, and the reading
and writing of files.  Reading changes nothing; an operation that writes returns the disk after it.
Only `createDirAll` can fail with part of its work done, so it returns a disk in either case.

A file is written whole (`write`), or in the two steps that this takes, between which others may
write to it (`openEmpty`, `writeAt`).
-/

namespace SheetGraph

/-- A file tree and the directory from which relative paths are read. -/
structure Disk where
  tree : FileTree
  cwd : Location

namespace Disk

/-- The location of a path, read from the working directory. -/
def locate (d : Disk) (p : Path) : Location :=
  p.locateFrom d.cwd

/-- Where the walk of a path starts. -/
def start (d : Disk) (p : Path) : Location :=
  if p.isAbsolute then .root else d.cwd

/-- Where a path leads when links are followed. -/
def look (d : Disk) (p : Path) : Except FileError Landing :=
  if p.isEmpty then .error .notFound
  else d.tree.walk FileTree.linkLimit (d.start p) p.segments

/-- What a path leads to when links are followed, and where it is. -/
def find (d : Disk) (p : Path) : Except FileError (Location × Entry) :=
  match d.look p with
  | .error e => .error e
  | .ok (.vacant _) => .error .notFound
  | .ok (.found l) =>
    match d.tree.get? l with
    | none => .error .notFound
    | some e => .ok (l, e)

/-! ### Questions -/

/-- Whether the path leads to anything. -/
def contains (d : Disk) (p : Path) : Bool :=
  match d.find p with
  | .ok _ => true
  | .error _ => false

/-- Whether the path leads to a regular file. -/
def isFile (d : Disk) (p : Path) : Bool :=
  match d.find p with
  | .ok (_, .file _) => true
  | _ => false

/-- Whether the path leads to a directory. -/
def isDir (d : Disk) (p : Path) : Bool :=
  match d.find p with
  | .ok (_, .directory) => true
  | _ => false

/-! ### Reading -/

/-- The content of a file. -/
def readBytes (d : Disk) (p : Path) : Except FileError ByteArray :=
  match d.find p with
  | .error e => .error e
  | .ok (_, .file content) => .ok content
  | .ok (_, .directory) => .error .isDirectory
  | .ok (_, .link _) => .error .notFound

/-- The text of a file. -/
def readText (d : Disk) (p : Path) : Except FileError String :=
  match d.readBytes p with
  | .error e => .error e
  | .ok content =>
    match String.fromUTF8? content with
    | none => .error .notUtf8
    | some text => .ok text

/-- The names in a directory in order, each with what it names. -/
def readDir (d : Disk) (p : Path) : Except FileError (List (Name × Entry)) :=
  match d.find p with
  | .error e => .error e
  | .ok (l, .directory) => .ok <| (d.tree.namesIn l).filterMap fun n =>
      (d.tree.get? (l.entry n)).map fun e => (n, e)
  | .ok _ => .error .notDirectory

/-- All that is below a directory, links not followed, by the names on the way. -/
def listing (d : Disk) (p : Path) : List (List Name × Entry) :=
  match d.find p with
  | .ok (l, .directory) => d.tree.entries.filterMap fun e =>
      match l.from? e.1 with
      | none | some [] => none
      | some names => some (names, e.2)
  | _ => []

/-! ### Writing -/

/-- The disk with `content` in the file that the path leads to, which need not be there before. -/
def write (d : Disk) (p : Path) (content : ByteArray) : Except FileError Disk :=
  match d.look p with
  | .error e => .error e
  | .ok (.vacant l) => .ok { d with tree := d.tree.put l (.file content) }
  | .ok (.found l) =>
    if d.tree.isDirectory l then .error .isDirectory
    else .ok { d with tree := d.tree.put l (.file content) }

/-- The disk with the file that the path leads to open for writing, which empties it or makes it,
and where the file is. -/
def openEmpty (d : Disk) (p : Path) : Except FileError (Disk × Location) :=
  match d.look p with
  | .error e => .error e
  | .ok (.vacant l) => .ok ({ d with tree := d.tree.put l (.file .empty) }, l)
  | .ok (.found l) =>
    if d.tree.isDirectory l then .error .isDirectory
    else .ok ({ d with tree := d.tree.put l (.file .empty) }, l)

/-- What a file that held `old` holds when `content` has been written from its beginning on. -/
def overwrite (old content : ByteArray) : ByteArray :=
  content ++ old.extract content.size old.size

/-- The disk with `content` written to an open file, which may hold something by then. -/
def writeAt (d : Disk) (l : Location) (content : ByteArray) : Disk :=
  match d.tree.get? l with
  | some (.file old) => { d with tree := d.tree.put l (.file (overwrite old content)) }
  | _ => d

/-- The place that a path names in its directory, a link in the last place not followed: none for
a path that ends in a `.` or a `..`. -/
def place (d : Disk) (p : Path) : Except FileError (Option Location) :=
  match p.segments.reverse.dropWhile (· == []) with
  | [] => if p.isAbsolute then .ok none else .error .notFound
  | last :: before =>
    match d.tree.walk FileTree.linkLimit (d.start p) before.reverse with
    | .error e => .error e
    | .ok (.vacant _) => .error .notFound
    | .ok (.found dir) =>
      if d.tree.isDirectory dir then .ok ((Name.ofChars? last).map dir.entry)
      else .error .notDirectory

/-- The disk with something new at a place where nothing is yet. -/
def createEntry (d : Disk) (p : Path) (e : Entry) : Except FileError Disk :=
  match d.place p with
  | .error e => .error e
  | .ok none => .error .alreadyExists
  | .ok (some l) =>
    match d.tree.get? l with
    | some _ => .error .alreadyExists
    | none => .ok { d with tree := d.tree.put l e }

/-- The disk with a new directory. -/
def createDir (d : Disk) (p : Path) : Except FileError Disk :=
  d.createEntry p .directory

/-- The disk with a new link. -/
def createLink (d : Disk) (p : Path) (target : Path) : Except FileError Disk :=
  d.createEntry p (.link target)

/-- `createDirAll` for a path with at most `steps` components. -/
def createDirs : (steps : Nat) → Disk → Path → Disk × Except FileError Unit
  | 0, d, _ => (d, .error .notFound)
  | steps + 1, d, p =>
    if p.isEmpty then (d, .ok ())
    else match d.createDir p with
      | .ok made => (made, .ok ())
      | .error .notFound =>
        match p.parent? with
        | none => (d, .error (.other "failed to create whole tree"))
        | some above =>
          match createDirs steps d above with
          | (made, .error e) => (made, .error e)
          | (made, .ok ()) =>
            match made.createDir p with
            | .ok made => (made, .ok ())
            | .error e => (made, if made.isDir p then .ok () else .error e)
      | .error e => (d, if d.isDir p then .ok () else .error e)

/-- The disk with a directory at the path and at all paths in front of it. -/
def createDirAll (d : Disk) (p : Path) : Disk × Except FileError Unit :=
  createDirs (p.chars.length + 1) d p

/-- The disk without what the path names, which is nothing but the link if it names one. -/
def remove (d : Disk) (p : Path) : Except FileError Disk :=
  match d.place p with
  | .error e => .error e
  | .ok none => .error .isDirectory
  | .ok (some l) =>
    match d.tree.get? l with
    | none => .error .notFound
    | some _ => .ok { d with tree := d.tree.erase l }

end Disk

end SheetGraph
