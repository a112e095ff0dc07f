import SourceIndex.FileSystem.Disk
/-!
# Reading and writing files

Files are read with a limit on their size, and written whole. A directory is made together with
those above it.
-/

namespace SourceIndex.Disk

/-! ### Reading -/

def readAll (d : Disk) (p : Path) : Except FileError Bytes :=
  match d.lookUp p with
  | .error e => .error e
  | .ok (.file data _) => .ok data
  | .ok .directory => .error (.system FileError.isDirectory p.text)
  | .ok _ => .ok []

def growItem (count : Nat) : Item → Item
  | .file data modified => .file (data ++ List.replicate count 0x78) modified
  | item => item

/-- The disk after `count` bytes were added to the file that a path leads to. -/
def grow (d : Disk) (p : Path) (count : Nat) : Disk :=
  match d.find true p with
  | .ok (place, some _) =>
    { d with
      items := d.items.map fun entry =>
        if entry.1 == place then (entry.1, growItem count entry.2) else entry }
  | _ => d

/-- The disk as it is when a path is read. -/
def beforeReading (d : Disk) (p : Path) : Disk :=
  match defect? p d.defects.growth with
  | some count => d.grow p count
  | none => d

/-- The bytes that a path leads to, if there are at most `limit` of them. -/
def readBounded (d : Disk) (p : Path) (limit : Int) : Except ReadError Bytes × Disk :=
  let d := d.beforeReading p
  (match defect? p d.defects.read with
    | some code => .error (.file (.system code p.text))
    | none =>
      match d.readAll p with
      | .error e => .error (.file e)
      | .ok data =>
        if !data.isEmpty && limit < (data.length : Int) then .error (.grown limit) else .ok data,
    d)

/-! ### Writing -/

def writeFile (d : Disk) (p : Path) (data : Bytes) (now : Int) : Except FileError Disk :=
  if hasZero p then .error .zeroInPath
  else
    match d.find true p with
    | .error code => .error (.system code p.text)
    | .ok (_, some .directory) => .error (.system FileError.isDirectory p.text)
    | .ok (_, some .special) => .ok d
    | .ok (place, _) => .ok (d.put place (.file data now))

/-- The disk with a file moved to another path, over what is there unless that is a directory. -/
def replaceFile (d : Disk) (source target : Path) : Except FileError Disk :=
  match d.find false source with
  | .error code => .error (.system code source.text)
  | .ok (_, none) => .error (.system FileError.noEntry source.text)
  | .ok (origin, some item) =>
    match d.find false target with
    | .error code => .error (.system code source.text)
    | .ok (_, some .directory) => .error (.system FileError.isDirectory source.text)
    | .ok (place, _) => .ok ((d.erase origin).put place item)

def makeOne (d : Disk) (p : Path) : Except FileError Disk :=
  if hasZero p then .error .zeroInPath
  else
    match d.find false p with
    | .error code => .error (.system code p.text)
    | .ok (_, some _) => .error (.system FileError.alreadyThere p.text)
    | .ok (place, none) => .ok (d.put place .directory)

/-- The disk with a directory made, and with those above it, unless it is there. `levels` is how
many directories above it may be made. -/
def makeDirectory (d : Disk) : Nat → Path → Except FileError Disk
  | levels, p =>
    match d.makeOne p with
    | .ok made => .ok made
    | .error (.system code path) =>
      if code = FileError.noEntry then
        if p.parent = p then .error (.system code path)
        else
          match levels with
          | 0 => .error .tooDeep
          | levels + 1 =>
            match makeDirectory d levels p.parent with
            | .error e => .error e
            | .ok above =>
              match above.makeOne p with
              | .ok made => .ok made
              | .error e => whenThere above p e
      else whenThere d p (.system code path)
    | .error e => .error e
where
  /-- A directory that is there already counts as made. -/
  whenThere (d : Disk) (p : Path) (e : FileError) : Except FileError Disk :=
    match d.hasDirectory p with
    | .ok true => .ok d
    | .ok false => .error e
    | .error other => .error other

/-- How many directories may be made above another one. -/
def maxMadeAbove : Nat := 980

/-- The disk with a directory made, and with those above it, unless it is there. -/
def makeDirectories (d : Disk) (p : Path) : Except FileError Disk :=
  d.makeDirectory maxMadeAbove p

end SourceIndex.Disk
