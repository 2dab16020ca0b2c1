import FirmwareBundle.Text.Quoted
/-!
# Why a file operation fails

## Main definitions

* `FirmwareBundle.IoFault` — the causes.
* `FirmwareBundle.IoFault.text` — their wording.
-/

namespace FirmwareBundle

/-- Why a file operation fails. -/
inductive IoFault where
  | notFound
  | busy
  | notDirectory
  | isDirectory
  | nameTooLong
  /-- The path contains a zero character. -/
  | zeroInPath
  /-- The contents are no text. -/
  | notText
  /-- The name of a partition would lead out of its directory. -/
  | notPlainName
  /-- A file for writing aside could not be made at the path. -/
  | staging (cause : IoFault) (path : String)
  /-- A fault that comes with its own wording. -/
  | described (text : String)
  deriving DecidableEq

/-- The wording of a fault of the operating system, with its number. -/
def systemText (text : String) (number : Nat) : String :=
  text ++ " (os error " ++ toString number ++ ")"

/-- The wording of a fault. -/
def IoFault.text : IoFault → String
  | .notFound => systemText "No such file or directory" 2
  | .busy => systemText "Device or resource busy" 16
  | .notDirectory => systemText "Not a directory" 20
  | .isDirectory => systemText "Is a directory" 21
  | .nameTooLong => systemText "File name too long" 36
  | .zeroInPath => "file name contained an unexpected NUL byte"
  | .notText => "stream did not contain valid UTF-8"
  | .notPlainName => "partition name is not a plain file name"
  | .staging cause path => cause.text ++ " at path " ++ quoted path
  | .described text => text

end FirmwareBundle
