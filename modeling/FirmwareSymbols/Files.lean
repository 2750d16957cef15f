import FirmwareSymbols.Config.Text
import FirmwareSymbols.Files.Directory
import FirmwareSymbols.Image
import FirmwareSymbols.Text.Utf8

/-!
# Files

A run reads at most two files: settings and a firmware image. What a file
holds is an input of the run, so `Files` is a function from paths to
contents; a file that cannot be read has an obstacle in place of contents.

## Main definitions

* `Files.loadConfig`: the settings in a file.
* `Files.loadImage`: the image in a file, unless it is too large.
-/

namespace FirmwareSymbols

/-- What the file at each path holds, or why it cannot be read. -/
abbrev Files := String → Except Files.Obstacle (Array UInt8)

namespace Files

/-- Why a file that should be text and is not cannot be read. -/
def notTextReason : String := "stream did not contain valid UTF-8"

/-- Why a file cannot be read as an image. An image is read at once, which no directory allows. -/
def imageReason : Obstacle → String
  | .isDirectory => "No such device (os error 19)"
  | obstacle => obstacle.reason

/-- The files of a list, which are in the directory of the run; no others are known. -/
def ofList (entries : List (String × Array UInt8)) : Files :=
  (Directory.mk (entries.map fun (path, contents) => (names path, contents))).read

/-- Bytes of the largest firmware file that is read unless a limit is given. -/
def defaultMaxSize : UInt64 := 268435456

/-- The settings in a file. -/
def loadConfig (files : Files) (name : String) : Except Fault Config :=
  match files name with
  | .error obstacle => .error (.unreadable obstacle.reason)
  | .ok contents =>
    match Utf8.decode? contents.toList with
    | none => .error (.unreadable notTextReason)
    | some text => Config.ofText text

/-- The image in a file, unless the file is larger than a limit. -/
def loadImage (files : Files) (maxSize : UInt64) (name : String) : Except Fault Image :=
  match files name with
  | .error obstacle => .error (.unreadable (imageReason obstacle))
  | .ok contents =>
    if maxSize.toNat < contents.size then
      .error (.fileTooLarge maxSize.toNat contents.size)
    else
      .ok ⟨contents⟩

end Files

end FirmwareSymbols
