import FirmwareBundle.Digest.Sha1
import FirmwareBundle.Text.Hex
/-!
# Short digests

The integrity tag of a partition is the beginning of the hash of its payload.

## Main definitions

* `FirmwareBundle.shortDigest` — the first eight hexadecimal digits of the hash.
-/

namespace FirmwareBundle

/-- The number of hexadecimal digits kept from a hash. -/
def shortDigestLength : Nat := 8

/-- The first eight lowercase hexadecimal digits of the hash of `data`. -/
def shortDigest (data : ByteArray) : String :=
  String.ofList ((Hex.ofBytes (Sha1.hash data)).take shortDigestLength)

end FirmwareBundle
