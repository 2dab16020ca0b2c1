import FirmwareBundle.Mismatch
/-!
# Why a header is refused

## Main definitions

* `FirmwareBundle.ManifestFault` — the causes.
* `FirmwareBundle.ManifestFault.text?` — their wording.
-/

namespace FirmwareBundle

/-- Why a header is no manifest. -/
inductive ManifestFault where
  /-- The text is not one readable document. -/
  | malformed
  /-- A tag stands in the place of a digest. -/
  | taggedDigest
  /-- The digest is neither text nor a number. -/
  | unknownDigest
  /-- There is no table of partitions. -/
  | noTable
  /-- There is a list of memory chips, but it is empty. -/
  | noRom
  /-- Two partitions have one name. -/
  | repeatedName (name : String)
  /-- A field that must be given is not. -/
  | missingField (field : String)
  /-- A field is given twice. -/
  | repeatedField (field : String)
  /-- A value is of another type than its field. -/
  | mismatch (m : Mismatch)
  /-- A number is outside the range of its field. -/
  | outOfRange (m : Mismatch)
  /-- A fault that comes with its own wording. -/
  | described (text : String)

/-- The wording of a fault. Faults of the text itself have none, since their wording depends on the
reader. -/
def ManifestFault.text? : ManifestFault → Option String
  | .malformed => none
  | .taggedDigest => none
  | .unknownDigest => some "data did not match any variant of untagged enum RawDigest"
  | .noTable => some "header has neither 'partitions' nor 'rom[0].partitions'"
  | .noRom => some "device descriptor lists no rom entries"
  | .repeatedName name => some ("duplicate partition name '" ++ name ++ "'")
  | .missingField field => some ("missing field `" ++ field ++ "`")
  | .repeatedField field => some ("duplicate field `" ++ field ++ "`")
  | .mismatch m => some m.ofType
  | .outOfRange m => some m.ofRange
  | .described text => some text

end FirmwareBundle
