import PartRelay.Bytes.Basic
import PartRelay.Files.Path
import PartRelay.Table
import PartRelay.Text.Quoted

/-!
# Directories

A tree of files as a table from places to what is there. The tops are the current directory, those
above it, and the root: they are always there. Every other place has its parent in the table.
-/

namespace PartRelay

inductive Entry where
  | file (content : Bytes)
  | directory
  deriving DecidableEq

/-- A place below the root or below the current directory; two dots stand at its start only. -/
structure Place where
  fromRoot : Bool := false
  names : List Bytes := []
  deriving DecidableEq

namespace Place

/-- The name that leads one step back. -/
def back : Bytes := Path.nameBytes ".."

/-- Whether a place is the root, the current directory or one above it. -/
def isTop (p : Place) : Bool := p.names.all (· == back)

def below (p : Place) (name : Bytes) : Place := { p with names := p.names ++ [name] }

/-- The place one step back; the root is its own parent. -/
def parent (p : Place) : Place :=
  if !p.isTop then { p with names := p.names.dropLast }
  else if p.fromRoot then p
  else p.below back

end Place

abbrev Directory := Table Place Entry

namespace Directory

/-! ## Faults -/

inductive Fault where
  | missing
  | exists
  | notADirectory
  | isADirectory
  | nameTooLong
  deriving DecidableEq

def Fault.message : Fault → Text
  | .missing => "[Errno 2] No such file or directory"
  | .exists => "[Errno 17] File exists"
  | .notADirectory => "[Errno 20] Not a directory"
  | .isADirectory => "[Errno 21] Is a directory"
  | .nameTooLong => "[Errno 36] File name too long"

inductive Error where
  /-- The path cannot be looked up. -/
  | name (cause : Path.NameError)
  /-- What went wrong and at which path. -/
  | file (fault : Fault) (path : Path)

def Error.message : Error → Text
  | .name cause => cause.message
  | .file fault path => fault.message ++ ": " ++ path.text.quoted

/-! ## Places -/

/-- The most bytes in a name. -/
def maxName : Nat := 255

/-- The most bytes in a path. -/
def maxPath : Nat := 4095

/-- What is at a place. -/
def entryAt? (d : Directory) (place : Place) : Option Entry :=
  if place.isTop then some .directory else Table.get? d place

/-- The place that a name leads to from a place, which has to be a directory. -/
def follow (d : Directory) (place : Place) (name : Bytes) : Except Fault Place :=
  match d.entryAt? place with
  | none => .error .missing
  | some (.file _) => .error .notADirectory
  | some .directory =>
    if maxName < name.length then .error .nameTooLong
    else .ok (if name = Place.back then place.parent else place.below name)

/-- The place that names lead to, one after the other. -/
def resolve (d : Directory) (place : Place) : List Bytes → Except Fault Place
  | [] => .ok place
  | name :: names =>
    match d.follow place name with
    | .error e => .error e
    | .ok place => resolve d place names

/-- The place of a path. -/
def placeOf (d : Directory) (p : Path) : Except Error Place :=
  match p.nameError? with
  | some e => .error (.name e)
  | none =>
    if maxPath < (Path.nameBytes p.text).length then .error (.file .nameTooLong p)
    else (d.resolve { fromRoot := p.absolute } (p.steps.map Path.nameBytes)).mapError (.file · p)

/-! ## Reading -/

/-- Whether there is something at a path. There is nothing at one that cannot be looked up, but one
that is too long is a fault. -/
def exists? (d : Directory) (p : Path) : Except Error Bool :=
  match d.placeOf p with
  | .error (.file .nameTooLong p) => .error (.file .nameTooLong p)
  | .error _ => .ok false
  | .ok place => .ok (d.entryAt? place).isSome

def read (d : Directory) (p : Path) : Except Error Bytes :=
  match d.placeOf p with
  | .error e => .error e
  | .ok place =>
    match d.entryAt? place with
    | none => .error (.file .missing p)
    | some .directory => .error (.file .isADirectory p)
    | some (.file content) => .ok content

/-! ## Writing -/

/-- Puts a file in place of what was there. -/
def write (d : Directory) (p : Path) (content : Bytes) : Except Error Directory :=
  match d.placeOf p with
  | .error e => .error e
  | .ok place =>
    match d.entryAt? place with
    | some .directory => .error (.file .isADirectory p)
    | _ => .ok (d.set place (.file content))

/-- Opens a file for appending: gives what it holds, and makes it where it is not there. -/
def openToAppend (d : Directory) (p : Path) : Except Error (Bytes × Directory) :=
  match d.placeOf p with
  | .error e => .error e
  | .ok place =>
    match d.entryAt? place with
    | some .directory => .error (.file .isADirectory p)
    | some (.file content) => .ok (content, d)
    | none => .ok ([], d.set place (.file []))

/-- Makes a directory where there is nothing. -/
def makeDirectory (d : Directory) (p : Path) : Except Error Directory :=
  match d.placeOf p with
  | .error e => .error e
  | .ok place =>
    if (d.entryAt? place).isSome then .error (.file .exists p) else .ok (d.set place .directory)

/-- Makes a directory, or leaves one that is there as it is. -/
def ensureDirectory (d : Directory) (p : Path) : Except Error Directory :=
  match d.makeDirectory p with
  | .ok made => .ok made
  | .error e =>
    match d.placeOf p with
    | .error _ => .error e
    | .ok place => if d.entryAt? place = some .directory then .ok d else .error e

/-- Makes the directory at the steps, which come last first, and those above it where they are not
there. -/
def makeSteps (d : Directory) (root : Text) : List Text → Except Error Directory
  | [] => d.ensureDirectory ⟨root, []⟩
  | step :: above =>
    let p : Path := ⟨root, (step :: above).reverse⟩
    match d.ensureDirectory p with
    | .error (.file .missing _) =>
      match makeSteps d root above with
      | .error e => .error e
      | .ok d => d.ensureDirectory p
    | result => result

/-- Makes a directory with all those above it. One that is there already is left as it is. -/
def makeDirectories (d : Directory) (p : Path) : Except Error Directory :=
  d.makeSteps p.root p.steps.reverse

/-- The directory with an entry and the directories above it. -/
def place (d : Directory) (p : Path) (entry : Entry) : Except Error Directory :=
  match d.makeDirectories { p with steps := p.steps.dropLast } with
  | .error e => .error e
  | .ok d =>
    match entry with
    | .directory => d.ensureDirectory p
    | .file content => d.write p content

end Directory

end PartRelay
