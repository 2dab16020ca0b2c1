import FirmwareBundle.Bytes
/-!
# Records

Behind its header a bundle holds one record for each entry of the table: the length of a payload in
four bytes, then the payload.

## Main definitions

* `FirmwareBundle.Record.encode` — the record of a payload.
* `FirmwareBundle.Record.read` — the payload of the record at an offset.
* `FirmwareBundle.Record.Fault` — why there is no record at an offset.
-/

namespace FirmwareBundle.Record

/-- The record of a `payload` shorter than `2 ^ 32` bytes. -/
def encode (payload : ByteArray) : ByteArray :=
  Bytes.ofLength payload.size ++ payload

/-- Why there is no complete record: no length is left, or `length` bytes should follow and only
`available` do. -/
inductive Fault where
  | absent
  | truncated (length available : Nat)
  deriving DecidableEq

/-- The payload of the record at an `offset` inside the `data`. -/
def read (data : ByteArray) (offset : Nat) : Except Fault ByteArray :=
  let start := offset + Bytes.lengthSize
  if data.size < start then .error .absent
  else
    let length := Bytes.lengthAt data offset
    let available := data.size - start
    if available < length then .error (.truncated length available)
    else .ok (data.extract start (start + length))

end FirmwareBundle.Record
