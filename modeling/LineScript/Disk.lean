import LineScript.Text.Basic

/-!
Folders of files, and what a path leads to in them. Parts of a path are parted by slashes.
-/

namespace LineScript.Disk

/-- What reading a file gives. -/
inductive Content where
  | text (t : Text)
  | unreadable (reason : Text)
  deriving DecidableEq, Repr

/-- Files hold text in UTF-8. -/
def Content.ofBytes (bytes : ByteArray) : Content :=
  match String.fromUTF8? bytes with
  | some s => text s.toList
  | none => unreadable "stream did not contain valid UTF-8".toList

/-- The entries of a folder in the order in which they are listed. -/
inductive Listing where
  | nil
  | file (name : Text) (content : Content) (rest : Listing)
  | folder (name : Text) (inner rest : Listing)
  deriving DecidableEq, Repr

/-- What a path leads to. -/
inductive Found where
  | nothing
  | file (content : Content)
  | folder (listing : Listing)
  deriving DecidableEq, Repr

namespace Listing

/-- The entry of a name. -/
def entry (name : Text) : Listing → Found
  | nil => .nothing
  | file key content rest => if key = name then .file content else rest.entry name
  | folder key inner rest => if key = name then .folder inner else rest.entry name

/-- Number of entries at any depth. -/
def size : Listing → Nat
  | nil => 0
  | file _ _ rest => rest.size + 1
  | folder _ inner rest => inner.size + rest.size + 1

/-- Gives a file its content. -/
def putFile (name : Text) (content : Content) : Listing → Listing
  | nil => file name content nil
  | file key old rest =>
    if key = name then file key content rest else file key old (rest.putFile name content)
  | folder key inner rest => folder key inner (rest.putFile name content)

/-- Changes a folder, which is empty if it was not there. -/
def inFolder (name : Text) (change : Listing → Listing) : Listing → Listing
  | nil => folder name (change nil) nil
  | file key content rest => file key content (rest.inFolder name change)
  | folder key inner rest =>
    if key = name then folder key (change inner) rest
    else folder key inner (rest.inFolder name change)

/-- Gives the file at a path its content, with the folders that lead to it. -/
def put (content : Content) : List Text → Listing → Listing
  | [] => id
  | [name] => putFile name content
  | name :: path => inFolder name (put content path)

/-- Makes the folder at a path, with those that lead to it. -/
def makeFolder : List Text → Listing → Listing
  | [] => id
  | name :: path => inFolder name (makeFolder path)

/-- Follows the parts of a path from a folder, given the folders around it. An empty part and a
single dot stay where they are, and two dots go out; nothing leads further from a file. -/
def follow : List Listing → Listing → List Text → Found
  | _, here, [] => .folder here
  | around, here, part :: rest =>
    if part = [] ∨ part = ['.'] then follow around here rest
    else if part = ['.', '.'] then
      match around with
      | [] => .nothing
      | outer :: around => follow around outer rest
    else
      match here.entry part with
      | .nothing => .nothing
      | .folder inner => follow (here :: around) inner rest
      | .file content => if rest = [] then .file content else .nothing

/-- What a relative path leads to; a path that leaves the folder finds nothing. -/
def find (here : Listing) (path : Text) : Found :=
  if path = [] ∨ path.head? = some '/' then .nothing else follow [] here (path.splitOn '/')

end Listing

/-- A search for files. -/
structure Search where
  /-- The folders that are still to be visited, each with the names that lead to it, the latest
  first. -/
  pending : List (List Text × Listing)
  /-- The files found so far, each with the names that lead to it, the latest first. -/
  found : List (List Text × Content) := []
  deriving DecidableEq, Repr

namespace Search

/-- Goes through the entries of a folder: folders are put off, and files are kept if wanted. -/
def visit (wanted : List Text → Bool) (names : List Text) : Listing → Search → Search
  | .nil, s => s
  | .file name content rest, s =>
    let path := names ++ [name]
    visit wanted names rest
      (if wanted path then { s with found := (path, content) :: s.found } else s)
  | .folder name inner rest, s =>
    visit wanted names rest { s with pending := (names ++ [name], inner) :: s.pending }

/-- How much is left to be visited. -/
def work (s : Search) : Nat := s.pending.foldr (fun folder n => folder.2.size + 1 + n) 0

theorem work_visit (wanted : List Text → Bool) (names : List Text) (listing : Listing)
    (s : Search) : (visit wanted names listing s).work ≤ s.work + listing.size := by
  induction listing generalizing s with
  | nil => exact Nat.le_refl _
  | file name content rest ih =>
    simp only [visit, Listing.size]
    split
    · exact Nat.le_succ_of_le (ih _)
    · exact Nat.le_succ_of_le (ih s)
  | folder name inner rest _ ih =>
    have hrest := ih { s with pending := (names ++ [name], inner) :: s.pending }
    simp only [visit, Listing.size]
    simp only [work, List.foldr_cons] at hrest ⊢
    omega

/-- Visits the pending folders, the latest first, until none is left. -/
def run (wanted : List Text → Bool) : Search → List (List Text × Content)
  | ⟨[], found⟩ => found
  | ⟨(names, listing) :: rest, found⟩ => run wanted (visit wanted names listing ⟨rest, found⟩)
termination_by s => s.work
decreasing_by
  have hvisit := work_visit wanted names listing ⟨rest, found⟩
  simp only [work, List.foldr_cons] at hvisit ⊢
  omega

end Search

/-- The last part of a path. -/
def fileName (path : Text) : Text := ((path.splitOn '/').getLast?).getD []

/-- What follows the last dot of a file's name, if something precedes that dot. -/
def fileExtension? (name : Text) : Option Text :=
  match Text.cut? ['.'] name.reverse with
  | some (_, []) | none => none
  | some (extension, _) => some extension.reverse

/-- A path made longer by the names that follow it. -/
def extend (root : Text) (names : List Text) : Text :=
  (if root.getLast? = some '/' then root else root ++ ['/']) ++ Text.join ['/'] names

end LineScript.Disk
