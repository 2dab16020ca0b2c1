import FirmwareBundle.Bytes
import Mathlib.Algebra.Group.Nat.Defs
import Mathlib.Tactic.Common
/-!
# Length words and terminators read back

The four bytes of a length determine it, and any four bytes are those of a length. The search for
the first zero byte stops at a zero with no zero before it.

## Main definitions

* `FirmwareBundle.Bytes.joined` — byte strings one behind the other.

## Main results

* `FirmwareBundle.Bytes.lengthAt_eq_iff` — a length read at an offset is the one that was written
  there.
* `FirmwareBundle.Bytes.firstZero_eq_some_iff` — where the first zero byte stands.
-/

namespace FirmwareBundle.Bytes

/-! ## Length words -/

/-- The length word `ofLength n` has `lengthSize` bytes, whatever `n` is. -/
@[simp] lemma size_ofLength (n : Nat) : (ofLength n).size = lengthSize := rfl

/-- The byte `byteAt data i` is below `256`, also behind the end of `data`, where it is zero. -/
private lemma byteAt_lt (data : ByteArray) (i : Nat) : byteAt data i < 256 := by
  unfold byteAt
  split
  · exact UInt8.toNat_lt _
  · omega

/-- A length read from four bytes of `data` is below `2 ^ 32`, since each of them is below `256`
(`byteAt_lt`). -/
lemma lengthAt_lt (data : ByteArray) (offset : Nat) : lengthAt data offset < 2 ^ 32 := by
  have h0 := byteAt_lt data offset
  have h1 := byteAt_lt data (offset + 1)
  have h2 := byteAt_lt data (offset + 2)
  have h3 := byteAt_lt data (offset + 3)
  unfold lengthAt
  omega

/-- The length in the four bytes `ofLength n` is `n % 2 ^ 32`, so it is `n` itself if
`n < 2 ^ 32`. -/
lemma lengthAt_ofLength (n : Nat) : lengthAt (ofLength n) 0 = n % 2 ^ 32 := by
  have h0 : byteAt (ofLength n) 0 = n % 256 := rfl
  have h1 : byteAt (ofLength n) 1 = n / 0x100 % 256 := rfl
  have h2 : byteAt (ofLength n) 2 = n / 0x10000 % 256 := rfl
  have h3 : byteAt (ofLength n) 3 = n / 0x1000000 % 256 := rfl
  simp only [lengthAt, Nat.zero_add, h0, h1, h2, h3]
  omega

/-- Lengths `m` and `n` below `2 ^ 32` with the same four bytes are equal: both are read back from
them (`lengthAt_ofLength`). -/
private lemma ofLength_inj {m n : Nat} (hm : m < 2 ^ 32) (hn : n < 2 ^ 32)
    (h : ofLength m = ofLength n) : m = n := by
  have hl := congrArg (lengthAt · 0) h
  simp only [lengthAt_ofLength] at hl
  rwa [Nat.mod_eq_of_lt hm, Nat.mod_eq_of_lt hn] at hl

/-- The four bytes of `data` from `offset` on are `ofLength` of the length that is read from them.

**Proof sketch.** Both sides have four bytes, so they are compared byte by byte. The byte at `k` of
`ofLength n` is `n / 256 ^ k` modulo `256`, and for `n = lengthAt data offset` this is the byte of
`data` at `offset + k`, since the bytes below it are less than `256 ^ k` together. -/
lemma ofLength_lengthAt {data : ByteArray} {offset : Nat} (h : offset + lengthSize ≤ data.size) :
    ofLength (lengthAt data offset) = data.extract offset (offset + lengthSize) := by
  unfold lengthSize at h
  have b0 : byteAt data offset = data[offset].toNat := dif_pos (by omega)
  have b1 : byteAt data (offset + 1) = data[offset + 1].toNat := dif_pos (by omega)
  have b2 : byteAt data (offset + 2) = data[offset + 2].toNat := dif_pos (by omega)
  have b3 : byteAt data (offset + 3) = data[offset + 3].toNat := dif_pos (by omega)
  have l0 := UInt8.toNat_lt data[offset]
  have l1 := UInt8.toNat_lt data[offset + 1]
  have l2 := UInt8.toNat_lt data[offset + 2]
  have l3 := UInt8.toNat_lt data[offset + 3]
  have hl : lengthAt data offset = data[offset].toNat + 0x100 * data[offset + 1].toNat +
      0x10000 * data[offset + 2].toNat + 0x1000000 * data[offset + 3].toNat := by
    rw [lengthAt, b0, b1, b2, b3]
  have e0 : (lengthAt data offset).toUInt8 = data[offset] := by
    rw [← UInt8.toNat_inj, UInt8.toNat_ofNat']; omega
  have e1 : (lengthAt data offset / 0x100).toUInt8 = data[offset + 1] := by
    rw [← UInt8.toNat_inj, UInt8.toNat_ofNat']; omega
  have e2 : (lengthAt data offset / 0x10000).toUInt8 = data[offset + 2] := by
    rw [← UInt8.toNat_inj, UInt8.toNat_ofNat']; omega
  have e3 : (lengthAt data offset / 0x1000000).toUInt8 = data[offset + 3] := by
    rw [← UInt8.toNat_inj, UInt8.toNat_ofNat']; omega
  rw [lengthSize, ByteArray.extract_add_four (by omega), ofLength, e0, e1, e2, e3]
  apply ByteArray.ext
  rw [List.data_toByteArray]

/-- **Lengths read back.** For `n < 2 ^ 32` the length at `offset` is `n` if and only if the four
bytes that stand there are `ofLength n`.

**Proof sketch.** If `lengthAt data offset = n`, then `ofLength_lengthAt` gives the bytes.
Conversely the bytes determine the length, since both lengths are below `2 ^ 32`
(`ofLength_inj`). -/
theorem lengthAt_eq_iff {data : ByteArray} {offset n : Nat} (hn : n < 2 ^ 32)
    (h : offset + lengthSize ≤ data.size) :
    lengthAt data offset = n ↔ data.extract offset (offset + lengthSize) = ofLength n := by
  rw [← ofLength_lengthAt h]
  exact ⟨fun hl => by rw [hl], ofLength_inj (lengthAt_lt data offset) hn⟩

/-! ## Terminators -/

/-- The search from the index `i` on finds `n` if and only if `i ≤ n`, `data[n] = 0`, and no
`data[j]` with `i ≤ j < n` is zero.

**Proof sketch.** Induction along the search. If `data[i]` is zero, both sides say `n = i`. If it is
not, neither side changes when `i` is replaced by `i + 1`. Behind the end of `data` there is no zero
to be found. -/
lemma firstZeroFrom_eq_some_iff {data : ByteArray} {i n : Nat} :
    firstZeroFrom data i = some n ↔
      i ≤ n ∧ (∃ h : n < data.size, data[n] = 0) ∧
        ∀ j (h : j < data.size), i ≤ j → j < n → data[j] ≠ 0 := by
  fun_induction firstZeroFrom data i with
  | case1 i hi hz =>
    simp only [Option.some.injEq]
    constructor
    · rintro rfl
      exact ⟨Nat.le_refl i, ⟨hi, hz⟩, fun j _ h1 h2 => absurd h1 (by omega)⟩
    · rintro ⟨hin, -, hall⟩
      by_contra hne
      exact hall i hi (Nat.le_refl i) (by omega) hz
  | case2 i hi hz ih =>
    rw [ih]
    constructor
    · rintro ⟨hin, hn, hall⟩
      refine ⟨by omega, hn, fun j hj h1 h2 => ?_⟩
      rcases Nat.eq_or_lt_of_le h1 with rfl | h1
      · exact hz
      · exact hall j hj h1 h2
    · rintro ⟨hin, ⟨hn, hnz⟩, hall⟩
      have hne : i ≠ n := by rintro rfl; exact hz hnz
      exact ⟨by omega, ⟨hn, hnz⟩, fun j hj h1 h2 => hall j hj (by omega) h2⟩
  | case3 i hi =>
    simp only [reduceCtorEq, false_iff]
    rintro ⟨hin, ⟨hn, -⟩, -⟩
    omega

/-- **The first zero byte** of `data` is at `n` if and only if `data[n] = 0` and no `data[j]` with
`j < n` is zero. This is `firstZeroFrom_eq_some_iff` from the index `0` on. -/
theorem firstZero_eq_some_iff {data : ByteArray} {n : Nat} :
    firstZero data = some n ↔
      (∃ h : n < data.size, data[n] = 0) ∧ ∀ j (h : j < data.size), j < n → data[j] ≠ 0 := by
  simp [firstZero, firstZeroFrom_eq_some_iff]

/-- If `text` has no zero byte, the first zero byte of `text ++ (⟨#[0]⟩ ++ rest)` is at `text.size`,
whatever `rest` is. -/
lemma firstZero_append {text rest : ByteArray} (h : ∀ i (hi : i < text.size), text[i] ≠ 0) :
    firstZero (text ++ (⟨#[0]⟩ ++ rest)) = some text.size := by
  have hs : (⟨#[0]⟩ ++ rest : ByteArray).size = 1 + rest.size := ByteArray.size_append
  rw [firstZero_eq_some_iff]
  refine ⟨⟨by rw [ByteArray.size_append, hs]; omega, ?_⟩, fun j hj hlt => ?_⟩
  · rw [ByteArray.getElem_append_right (Nat.le_refl _)]
    simp only [Nat.sub_self]
    rw [ByteArray.getElem_append_left (by decide)]
    rfl
  · rw [ByteArray.getElem_append_left hlt]
    exact h j hlt

/-! ## Byte strings one behind the other -/

/-- The first `n` bytes of `data` are all of it if `data.size ≤ n`. -/
lemma extract_eq_self {data : ByteArray} {n : Nat} (h : data.size ≤ n) :
    data.extract 0 n = data := by
  apply ByteArray.ext
  rw [ByteArray.data_extract, Array.extract_eq_self_of_le h]

/-- The byte strings `parts`, one behind the other. -/
def joined (parts : List ByteArray) : ByteArray :=
  parts.foldl (· ++ ·) .empty

/-- Putting `parts` behind `written` one after the other is putting `joined parts` behind it at
once. -/
lemma foldl_append (parts : List ByteArray) (written : ByteArray) :
    parts.foldl (· ++ ·) written = written ++ joined parts := by
  rw [joined]
  induction parts generalizing written with
  | nil => exact ByteArray.append_empty.symm
  | cons part parts ih =>
    rw [List.foldl_cons, List.foldl_cons, ih, ih (.empty ++ part), ByteArray.empty_append,
      ByteArray.append_assoc]

/-- The first of the byte strings stands in front of `joined parts`. -/
lemma joined_cons (part : ByteArray) (parts : List ByteArray) :
    joined (part :: parts) = part ++ joined parts := by
  rw [joined, List.foldl_cons, foldl_append, ByteArray.empty_append]

end FirmwareBundle.Bytes
