import HashtagIndex.Disk.Change
import HashtagIndex.Text.Integer
import HashtagIndex.Text.Lines
import HashtagIndex.Text.Quoted

/-!
# `HashtagIndex.Disk.Document` — reading documents and editing their lines

A document is a file of strict UTF-8. Readers see its text with every line break as a line feed.
A line is replaced only if it still holds the text that the caller expects; every other line and
every line break stays as it is. Before it is written a file is emptied, so where writing breaks off
the rest of it is gone; every other failure leaves the disk unchanged.

## Contents
- `DocumentFault`, `DiskFault`, `LineFault`: why a document was not read or not edited.
- `Disk.readDocument`: the text of a document.
- `Disk.overwrite`: the disk after a file was written, or was to be written.
- `Disk.replaceLine`: the disk after one line of a document was replaced, or was to be replaced.
-/

namespace HashtagIndex

/-- Why the text of a document cannot be had. -/
inductive ReadCause where
  | system (error : OpenError)
  | notText (fault : Utf8Fault)
deriving Repr, DecidableEq

/-- Why a file was not written in full: it was not opened, or there was no room for all of it. -/
inductive WriteCause where
  | system (error : OpenError)
  | noRoom
deriving Repr, DecidableEq

/-- Why a document was not read or not edited. -/
inductive DocumentFault where
  | unreadable (file : Text) (cause : ReadCause)
  | unwritable (file : Text) (cause : WriteCause)
  | lineGone (file : Text) (line : Int)
  | lineChanged (file : Text) (line : Int) (expected actual : Text)
deriving Repr, DecidableEq

/-- Why a disk operation failed: the path cannot be used at all, or the document is at fault. -/
inductive DiskFault where
  | path (fault : PathFault)
  | document (fault : DocumentFault)
deriving Repr, DecidableEq

/-- Why a line was not replaced: the disk operation failed, or the number of the line is too long to
be reported. -/
inductive LineFault where
  | disk (fault : DiskFault)
  | longNumber
deriving Repr, DecidableEq

/-- The wording of an error in opening a file. -/
def OpenError.message (e : OpenError) (file : Text) : String :=
  s!"[Errno {e.describe.1}] {e.describe.2}: {file.quoted.toString}"

/-- The wording of a cause. -/
def ReadCause.message (file : Text) : ReadCause → String
  | .system e => e.message file
  | .notText f => f.message

/-- The wording of a cause. -/
def WriteCause.message (file : Text) : WriteCause → String
  | .system e => e.message file
  | .noRoom => "[Errno 28] No space left on device"

/-- The wording of a fault. -/
def DocumentFault.message : DocumentFault → String
  | .unreadable file _ => s!"Cannot read document: {file.toString}"
  | .unwritable file _ => s!"Cannot write document: {file.toString}"
  | .lineGone file line => s!"Line {line} no longer exists in {file.toString}"
  | .lineChanged file line _ _ =>
    s!"Line {line} of {file.toString} changed since the rename was planned"

/-- The wording of a fault of a path. -/
def PathFault.message : PathFault → String
  | .nulByte => "embedded null byte"
  | .noHome => "Could not determine home directory."
  | .linkLoop path => s!"Symlink loop from {path.quoted.toString}"
  | .nameTooLong path => OpenError.nameTooLong.message path
  | .notPermitted path => OpenError.permissionDenied.message path
  | .badPattern => "Invalid pattern: '**' can only be an entire path component"

namespace Disk

/-- The real path of the file that a name leads to, and its octets. -/
def openFile (d : Disk) (name : PathName) : Except OpenError (Path × List UInt8) :=
  if d.refuses name (·.reading) then .error .permissionDenied
  else
    match d.locate? (name.within d.cwd).parts with
    | .error e => .error e
    | .ok p =>
      match d.entry? p with
      | some (.file bytes) => .ok (p, bytes)
      | some .directory => .error .isDirectory
      | _ => .error .notFound

/-- The real path of a document, and its text as it stands on the disk. -/
def readRaw (d : Disk) (file : Text) : Except DiskFault (Path × Text) :=
  let name := PathName.ofText file
  if '\x00' ∈ file then .error (.path .nulByte)
  else
    match d.openFile name with
    | .error e => .error (.document (.unreadable name.toText (.system e)))
    | .ok (p, bytes) =>
      match decodeUtf8 bytes with
      | .error f => .error (.document (.unreadable name.toText (.notText f)))
      | .ok text => .ok (p, text)

/-- The text of a document with every line break as a line feed. -/
def readDocument (d : Disk) (file : Text) : Except DiskFault Text :=
  (fun r => r.2.unifyBreaks) <$> d.readRaw file

/-- The line with a number, if there is one. -/
def lineAt? (ls : List RawLine) (line : Int) : Option RawLine :=
  if line < 0 then none else ls[line.toNat]?

/-- Replace the text of one line. -/
def setLine (ls : List RawLine) (line : Int) (text : Text) : List RawLine :=
  ls.modify line.toNat fun l => { l with text }

/-- How many octets can be written through a name, if not all of them. -/
def room? (d : Disk) (name : PathName) : Option Nat :=
  (d.refusals.get? (name.within d.cwd).toText).bind (·.room)

/-- Whether octets can be written through a name without writing breaking off. -/
def fits (d : Disk) (name : PathName) (bytes : List UInt8) : Bool :=
  ((d.room? name).map fun n => decide (bytes.length ≤ n)).getD true

/-- Write the file at a real path through a name. It is emptied first, so if writing breaks off it
holds what was written by then. -/
def overwrite (d : Disk) (name : PathName) (p : Path) (bytes : List UInt8) :
    Disk × Except WriteCause Unit :=
  if d.refuses name (·.writing) then (d, .error (.system .permissionDenied))
  else if d.fits name bytes then (d.put p (.file bytes), .ok ())
  else (d.put p (.file (bytes.take ((d.room? name).getD 0))), .error .noRoom)

/-- What is reported of a line that is not as expected. The report says the number of the line, which
may have too many digits for that. -/
def conflict (line : Int) (fault : DocumentFault) : LineFault :=
  if mostDigits < (Nat.toDigits 10 line.natAbs).length then .longNumber else .disk (.document fault)

/-- Replace one line of a document, if it still holds `expected`. -/
def replaceLine (d : Disk) (file : Text) (line : Int) (expected text : Text) :
    Disk × Except LineFault Unit :=
  let name := PathName.ofText file
  match d.readRaw file with
  | .error f => (d, .error (.disk f))
  | .ok (p, raw) =>
    match lineAt? (rawLines raw) line with
    | none => (d, .error (conflict line (.lineGone name.toText line)))
    | some l =>
      if l.text ≠ expected then
        (d, .error (conflict line (.lineChanged name.toText line expected l.text)))
      else
        let (d', r) := d.overwrite name p
          (encodeUtf8 (renderLines (setLine (rawLines raw) line text)))
        (d', r.mapError fun c => .disk (.document (.unwritable name.toText c)))

end Disk

end HashtagIndex
