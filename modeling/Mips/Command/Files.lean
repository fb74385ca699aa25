import Mips.Command.Place

/-! # Files

The files a command can see, held as a list of places with contents. A place is a directory if it
is an anchor, or if a file lies below it.

A path is walked part by part, and each part starts from a directory.

* `read`: the content of the file that a path leads to.
* `write`: replaces a file, or creates it in a directory that exists. A write that is refused leaves
  all files as they were.
* `changes`: the files of the working directory that are new or have another content. -/

namespace Mips
set_option autoImplicit false

inductive FileFault where
  | notFound
  | isDirectory
  | notDirectory
  | denied
  | nameTooLong
  | notText
deriving DecidableEq, Repr

def FileFault.message : FileFault → String
  | .notFound => "No such file or directory (os error 2)"
  | .isDirectory => "Is a directory (os error 21)"
  | .notDirectory => "Not a directory (os error 20)"
  | .denied => "Permission denied (os error 13)"
  | .nameTooLong => "File name too long (os error 36)"
  | .notText => "stream did not contain valid UTF-8"

/-- What reading the file at a path gives. -/
abbrev ReadFile := String → Except FileFault ByteArray

def decodeText (content : ByteArray) : Except FileFault String :=
  match String.fromUTF8? content with
  | some text => .ok text
  | none => .error .notText

def ReadFile.text (read : ReadFile) (path : String) : Except FileFault String := do
  decodeText (← read path)

/-! ## File stores -/

structure File where
  place : Place
  content : ByteArray

structure Files where
  files : List File

namespace Files

def ofList (files : List File) : Files :=
  ⟨files⟩

/-- The content of the file at a place. -/
def content? (files : Files) (place : Place) : Option ByteArray :=
  (files.files.find? fun file => file.place == place).map File.content

def hasDirectory (files : Files) (place : Place) : Bool :=
  place.names.isEmpty || files.files.any fun file => file.place.isBelow place

/-! ## Walking a path -/

/-- Why a place is no directory, if it is none. -/
def enterFault? (files : Files) (place : Place) : Option FileFault :=
  if files.hasDirectory place then none
  else if place.hasLongName then some .nameTooLong
  else if (files.content? place).isSome then some .notDirectory
  else some .notFound

/-- One part further, from a place that has to be a directory. -/
def step (files : Files) (place : Place) (part : String) : Except FileFault Place :=
  match files.enterFault? place with
  | some fault => .error fault
  | none => .ok (place.follow part)

/-- The place that a path leads to. It may hold a file, be a directory, or be free. -/
def walk (files : Files) (path : String) : Except FileFault Place :=
  if pathLimit < path.utf8ByteSize then .error .nameTooLong
  else (pathParts path).foldlM files.step (Place.start path)

/-! ## Reading -/

/-- The content at a place, which has to be a directory if the path ends in a slash. -/
def readAt (files : Files) (place : Place) (asDirectory : Bool) : Except FileFault ByteArray :=
  if files.hasDirectory place then .error .isDirectory
  else if place.hasLongName then .error .nameTooLong
  else
    match files.content? place with
    | none => .error .notFound
    | some content => if asDirectory then .error .notDirectory else .ok content

def read (files : Files) : ReadFile := fun path => do
  files.readAt (← files.walk path) (endsInSlash path)

/-! ## Writing -/

/-- The files after the content at a place was replaced. -/
def put (files : Files) (place : Place) (content : ByteArray) : Files :=
  if (files.content? place).isSome then
    ⟨files.files.map fun file =>
      if file.place == place then { file with content := content } else file⟩
  else ⟨files.files ++ [⟨place, content⟩]⟩

/-- Writes at a place. No directory is written, whether it exists or is only asked for. -/
def writeAt (files : Files) (place : Place) (asDirectory : Bool) (content : ByteArray) :
    Except FileFault Files :=
  if files.hasDirectory place || asDirectory then .error .isDirectory
  else if place.hasLongName then .error .nameTooLong
  else .ok (files.put place content)

def write (files : Files) (path : String) (content : ByteArray) : Except FileFault Files := do
  files.writeAt (← files.walk path) (endsInSlash path) content

/-! ## Comparison -/

/-- The files of the working directory that are new or have another content than before. -/
def changes (before after : Files) : List File :=
  after.files.filter fun file =>
    file.place.isBelow Place.workingDirectory && before.content? file.place != some file.content

end Files

end Mips
