import Docroot.Disk.Walk
/-!
Changes to a disk.

A folder or a file is made only where nothing is, and a link counts as something. Making a folder
together with those around it is content with folders that are there already.
-/
namespace Docroot.Disk

open Utf8 (Bytes)

/-- Puts an entry at a place. Nothing can be put in place of the removed current directory. -/
def put (d : Disk) (e : Entry) : Option Location → Disk
  | some at' => { d with entries := d.entries.insert at' e }
  | none => d

theorem at?_put (d : Disk) (e : Entry) {at' : Location} (l : Location) (h : at' ≠ []) :
    (d.put e (some at')).at? l = if at' = l then some e else d.at? l := by
  by_cases root : l = []
  · subst root; simp [at?, h]
  · simp [at?, put, root, Table.find?_insert]

/-- Makes one folder, whose names are given innermost first. -/
def makeFolderAt (d : Disk) (fromRoot : Bool) (inward : List Name) : Except IoError Disk := do
  let found ← d.lead false fromRoot inward.reverse
  match d.atPlace? found with
  | some _ => throw (.os Errno.alreadyThere)
  | none => return d.put .folder found

/-- Whether names lead to a folder. -/
def isFolderAt (d : Disk) (fromRoot : Bool) (inward : List Name) : Bool :=
  match d.lead true fromRoot inward.reverse with
  | .error _ => false
  | .ok found => d.atPlace? found = some .folder

/-- Makes a folder, after those around it if it turns out that they are missing. The disk is
returned in any case, since the folders around may have been made before a failure. -/
def makeFolderIn (d : Disk) (fromRoot : Bool) (inward : List Name)
    (around : Disk → Except IoError Unit × Disk) : Except IoError Unit × Disk :=
  match d.makeFolderAt fromRoot inward with
  | .ok d' => (.ok (), d')
  | .error e =>
    if e.kind = .notFound then
      match around d with
      | (.error e, d') => (.error e, d')
      | (.ok (), d') =>
        match d'.makeFolderAt fromRoot inward with
        | .ok d'' => (.ok (), d'')
        | .error e => if d'.isFolderAt fromRoot inward then (.ok (), d') else (.error e, d')
    else if d.isFolderAt fromRoot inward then (.ok (), d)
    else (.error e, d)

/-- Makes a folder and the missing ones around it. -/
def makeFoldersAt (d : Disk) (fromRoot : Bool) : List Name → Except IoError Unit × Disk
  | [] => (.ok (), d)
  | n :: outer =>
    d.makeFolderIn fromRoot (n :: outer) fun d => d.makeFoldersAt fromRoot outer

/-- Drops the separators at the end of a path that is read backwards, and the dots that stand
alone between them. -/
def shut : Bytes → Bytes
  | [] => []
  | [b] => if b = slash then [] else [b]
  | b :: c :: rest =>
    if b = slash then shut (c :: rest)
    else if [b] = dot ∧ c = slash then shut rest
    else b :: c :: rest

/-- The path of the folder around, as text: the last name goes, together with separators and with
dots that stand alone on either side of it. -/
def around (path : Bytes) : Bytes :=
  let outer := shut ((shut path.reverse).dropWhile (· != slash))
  if outer = [] ∧ isAbsolute path then [slash] else outer.reverse

/-- Makes the folder at a path and the missing ones around it. The empty path asks for nothing. A
path that ends with a dot names nothing to be made, whatever is made around it. -/
def makeFolders (d : Disk) (path : Bytes) : Except IoError Unit × Disk :=
  if path = [] then (.ok (), d)
  else match vet path with
    | .error e => (.error e, d)
    | .ok () =>
      let fromRoot := isAbsolute path
      d.makeFolderIn fromRoot (namesOf path).reverse fun d =>
        d.makeFoldersAt fromRoot (namesOf (around path)).reverse

/-- Makes an empty file where nothing is. -/
def makeFile (d : Disk) (path : Bytes) : Except IoError Disk := do
  vet path
  let found ← d.lead false (isAbsolute path) (namesOf path)
  if endsOpen path then throw (.os Errno.isDirectory)
  match d.atPlace? found with
  | some _ => throw (.os Errno.alreadyThere)
  | none => return d.put (.file []) found

/-- Makes an empty file and the missing folders around it. -/
def makeFileAndFolders (d : Disk) (path : Bytes) : Except IoError Unit × Disk :=
  match d.makeFolders (around path) with
  | (.error e, d') => (.error e, d')
  | (.ok (), d') =>
    match d'.makeFile path with
    | .ok d'' => (.ok (), d'')
    | .error e => (.error e, d')

/-- Gives the file at a path its content, and makes the file where none is. -/
def write (d : Disk) (path : Bytes) (content : Bytes) : Except IoError Disk := do
  vet path
  let found ← d.lead true (isAbsolute path) (namesOf path)
  if endsOpen path then throw (.os Errno.isDirectory)
  match d.atPlace? found with
  | some .folder => throw (.os Errno.isDirectory)
  | _ => return d.put (.file content) found

/-- Makes a link where nothing is. -/
def makeLink (d : Disk) (path target : Bytes) : Except IoError Disk := do
  vet target
  vet path
  let found ← d.lead false (isAbsolute path) (namesOf path)
  match d.atPlace? found with
  | some _ => throw (.os Errno.alreadyThere)
  | none =>
    if endsOpen path then throw (.os Errno.noEntry)
    return d.put (.link target) found

/-- Drops the entries whose location is to go, and the current directory if it is among them. -/
def drop (d : Disk) (gone : Location → Bool) : Disk :=
  { d with
    entries := d.entries.filterKeys (fun l => !gone l)
    adrift := d.adrift || gone d.here }

/-- Drops all that is in a folder. -/
def clear (d : Disk) : Option Location → Disk
  | some at' => d.drop fun l => at'.isSuffixOf l && l != at'
  | none => d

/-- Drops one entry. -/
def dropAt (d : Disk) : Option Location → Disk
  | some at' => d.drop (· == at')
  | none => d

/-- Removes an empty folder, which has to be named by its own name: not by a dot, and not by a
link to it. -/
def removeFolder (d : Disk) (path : Bytes) : Except IoError Disk := do
  vet path
  let names := namesOf path
  let _ ← d.lead true (isAbsolute path) (names.dropLast ++ [dot])
  match names.getLast? with
  | none => throw (.os Errno.busy)
  | some n =>
    if n = dot then throw (.os Errno.invalidArgument)
    if n = dotDot then throw (.os Errno.notEmpty)
    let found ← d.lead false (isAbsolute path) names
    match d.atPlace? found with
    | some .folder => return d.dropAt found
    | some _ => throw (.os Errno.notDirectory)
    | none => throw (.os Errno.noEntry)

/-- Removes the file or the link at a path, or the folder there. All that is in the folder goes
first, and stays away even if the folder itself cannot be removed. -/
def remove (d : Disk) (path : Bytes) : Except IoError Unit × Disk :=
  match vet path >>= fun _ => d.lead false (isAbsolute path) (namesToEntry path) with
  | .error e => (.error e, d)
  | .ok found =>
    match d.atPlace? found with
    | none => (.error (.os Errno.noEntry), d)
    | some .folder =>
      let d := d.clear found
      match d.removeFolder path with
      | .ok d' => (.ok (), d')
      | .error e => (if e.kind = .notFound then .ok () else .error e, d)
    | some _ => (.ok (), d.dropAt found)

/-- Puts a folder at a location and at every location around it. -/
def putFolders (d : Disk) : Location → Disk
  | [] => d
  | n :: at' => (d.putFolders at').put .folder (some (n :: at'))

/-- A disk with nothing but the current directory and the folders around it. -/
def withFolder (at' : Location) (folderSize : Option Location → Nat) : Disk :=
  ({ entries := .empty, here := at', adrift := false, folderSize } : Disk).putFolders at'

end Docroot.Disk
