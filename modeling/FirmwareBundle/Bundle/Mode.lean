import FirmwareBundle.Bundle.Report
/-!
# What an inspection does with valid partitions

## Main definitions

* `FirmwareBundle.ScanMode` — the three ways to inspect a bundle.
* `FirmwareBundle.Outcome.line` — the line that is printed for one partition.
-/

namespace FirmwareBundle

/-- The ways to inspect a bundle: only tell what is in it, write each partition to a file of a
directory, or write all of them to one file. -/
inductive ScanMode where
  | summary
  | extract (dir : String)
  | concatenate (path : String)
  deriving DecidableEq

/-- The text `s` with blanks behind it, up to `width` characters. -/
def padded (width : Nat) (s : String) : String :=
  s ++ String.ofList (List.replicate (width - s.length) ' ')

/-- The columns of a partition: its `name`, its `size`, and its `digest`. -/
def partitionColumns (name : String) (size : Nat) (digest : String) : String :=
  padded 10 name ++ padded 16 (Hex.prefixed size) ++ digest

/-- The line that is printed for one partition in a `mode`. It depends on `mode` only if the
partition is valid. -/
def Outcome.line (mode : ScanMode) : Outcome → String
  | .ok name size sha1 =>
    match mode with
    | .summary => (Outcome.ok name size sha1).symbol ++ "  " ++ partitionColumns name size sha1
    | .extract _ => "Writing " ++ name ++ " " ++ toString (size / 1024) ++ "Kb..."
    | .concatenate _ => (Outcome.ok name size sha1).symbol ++ " " ++ name ++ " appended"
  | .sizeMismatch name expected actual =>
    "For '" ++ name ++ "' expected size " ++ Hex.prefixed expected ++ ", actual " ++
      Hex.prefixed actual ++ ", skipping " ++ (Outcome.sizeMismatch name expected actual).symbol
  | .digestMismatch name expected actual =>
    "Checking SHA1 digest failed for '" ++ name ++ "', expected " ++ expected ++ ", got " ++
      actual ++ " " ++ (Outcome.digestMismatch name expected actual).symbol

end FirmwareBundle
