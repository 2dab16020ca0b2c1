import FirmwareBundle.Digest.Short
import FirmwareBundle.Manifest.Decode
import FirmwareBundle.Proofs.PlainText
/-!
# Digests without quotes

A digest is eight hexadecimal digits, and without quotes these are a plain scalar, whose spelling
alone decides what it means. Most digests mean themselves. Those of decimal digits alone mean a
number, unless they begin with zero, and the reader writes the number out again. But two kinds of
digests are lost: binary digits behind `0b` mean another number, and an `e` between decimal digits
makes a fractional number, which is refused.

## Main definitions

* `FirmwareBundle.IsDigest` — eight hexadecimal digits.
* `FirmwareBundle.binaryNumber?` — the number of a digest of binary digits.
* `FirmwareBundle.IsFloatDigest` — the digests that spell a fractional number.
* `FirmwareBundle.unquotedDigest` — the digest that is read where one stands without quotes.

## Main results

* `FirmwareBundle.isDigest_shortDigest` — the digests of payloads are of this kind.
* `FirmwareBundle.Digits.exists_toNat?_iff` — which texts are digits of a base.
* `FirmwareBundle.Digits.toDigits_of_toNat?` — a number has the digits that it is read from.
* `FirmwareBundle.Decode.digest_ofPlain?` — what is read of a digest without quotes.
-/

namespace FirmwareBundle

/-! ## Digits of a base -/

namespace Digits

/-- The decimal digits `c` by their codes. -/
lemma isDigit_iff {c : Char} : c.isDigit ↔ 48 ≤ c.toNat ∧ c.toNat ≤ 57 :=
  Char.isDigit_iff_toNat

/-- The digit `c` is the only one of its value. -/
private lemma toDigits_of_isDigit {c : Char} (hc : c.isDigit) :
    c.toNat - 48 < 10 ∧ Nat.toDigits 10 (c.toNat - 48) = [c] := by
  have hrange := isDigit_iff.1 hc
  have hlt : c.toNat - 48 < 10 := by omega
  refine ⟨hlt, ?_⟩
  rw [Nat.toDigits_of_lt_base hlt]
  congr 1
  apply Char.toNat_inj.1
  rw [Nat.toNat_digitChar_of_lt_ten hlt]
  omega

/-- The decimal digits `c` are those of base ten. -/
private lemma digit?_ten {c : Char} :
    digit? 10 c = if c.isDigit then some (c.toNat - 48) else none := by
  have hle : ∀ a b : Char, a ≤ b ↔ a.toNat ≤ b.toNat := fun _ _ => Iff.rfl
  have hnum : '0'.toNat = 48 ∧ '9'.toNat = 57 ∧ 'a'.toNat = 97 ∧ 'f'.toNat = 102 ∧
      'A'.toNat = 65 ∧ 'F'.toNat = 70 := by decide
  obtain ⟨h0, h9, ha, hf, hA, hF⟩ := hnum
  simp only [digit?, Hex.digit?, hle, h0, h9, ha, hf, hA, hF]
  by_cases hc : c.isDigit
  · have hrange := isDigit_iff.1 hc
    rw [if_pos hc, if_pos (by omega), Option.filter_some, if_pos (by simp; omega)]
  · have hrange : ¬(48 ≤ c.toNat ∧ c.toNat ≤ 57) := fun h => hc (isDigit_iff.2 h)
    rw [if_neg hc, if_neg hrange]
    split
    · rw [Option.filter_some, if_neg (by simp)]
    split
    · rw [Option.filter_some, if_neg (by simp)]
    · rfl

variable {base : Nat}

/-- The `digits` can be read on from a number `n` if each of them is one of the base. -/
lemma exists_foldlM_iff {digits : List Char} {n : Nat} :
    (∃ m, digits.foldlM (fun n c => (digit? base c).map (base * n + ·)) n = some m) ↔
      ∀ c ∈ digits, ∃ d, digit? base c = some d := by
  induction digits generalizing n with
  | nil => simp
  | cons c digits ih =>
    rw [List.foldlM_cons, List.forall_mem_cons]
    cases hc : digit? base c with
    | none => simp
    | some d => simpa using ih

/-- **Which texts are digits of a base**: `digits` are if there is one at least and each has a value
in `base`. -/
theorem exists_toNat?_iff {digits : List Char} :
    (∃ n, toNat? base digits = some n) ↔
      digits ≠ [] ∧ ∀ c ∈ digits, ∃ d, digit? base c = some d := by
  rw [toNat?]
  split
  · rename_i hnil
    simp [List.isEmpty_iff.1 hnil]
  · rename_i hne
    rw [exists_foldlM_iff]
    simp [List.isEmpty_iff.not.1 hne]

/-- The same of decimal `digits`. -/
lemma exists_toNat?_ten_iff {digits : List Char} :
    (∃ n, toNat? 10 digits = some n) ↔ digits ≠ [] ∧ ∀ c ∈ digits, c.isDigit := by
  rw [exists_toNat?_iff]
  refine and_congr_right fun _ => forall₂_congr fun c _ => ?_
  rw [digit?_ten]
  split <;> simp_all

/-- A character `c` other than a decimal digit does not stand in a decimal number. -/
private lemma toNat?_ten_of_mem {digits : List Char} {c : Char} (hc : c ∈ digits)
    (hdigit : ¬c.isDigit) : toNat? 10 digits = none := by
  rw [Option.eq_none_iff_forall_ne_some]
  exact fun n hn => hdigit ((exists_toNat?_ten_iff.1 ⟨n, hn⟩).2 c hc)

/-- Each of the `digits` that are read on from a number `m` makes its bound larger by the factor
`base`: what is read, `n`, is less than `(m + 1) * base ^ digits.length`.

**Proof sketch.** Induction on `digits`. The value `d` of the first digit is less than `base`, so
the number read with it is less than `(m + 1) * base`. -/
private lemma lt_of_foldlM {digits : List Char} {m n : Nat}
    (h : digits.foldlM (fun n c => (digit? base c).map (base * n + ·)) m = some n) :
    n < (m + 1) * base ^ digits.length := by
  induction digits generalizing m with
  | nil =>
    obtain rfl := Option.some.inj h
    simp
  | cons c digits ih =>
    rw [List.foldlM_cons] at h
    cases hc : digit? base c with
    | none =>
      rw [hc] at h
      cases h
    | some d =>
      rw [hc] at h
      have hd : d < base := by
        obtain ⟨-, hlt⟩ := Option.filter_eq_some_iff.1 hc
        simpa using hlt
      have hle : base * m + d + 1 ≤ (m + 1) * base := by
        rw [Nat.succ_mul, Nat.mul_comm]
        omega
      calc n < (base * m + d + 1) * base ^ digits.length := ih h
        _ ≤ (m + 1) * base * base ^ digits.length := Nat.mul_le_mul_right _ hle
        _ = (m + 1) * base ^ (c :: digits).length := by
          rw [List.length_cons, Nat.pow_succ', Nat.mul_assoc]

/-- A number `n` of so many `digits` is less than that power of the `base`. -/
private lemma toNat?_lt {digits : List Char} {n : Nat} (h : toNat? base digits = some n) :
    n < base ^ digits.length := by
  rw [toNat?] at h
  split at h
  · cases h
  · simpa using lt_of_foldlM h

/-- The `digits` that are read on from a number `m` other than zero are written behind its digits.

**Proof sketch.** Induction on `digits`. A digit read behind `m` gives `10 * m` and its value, whose
digits are those of `m` and this one. -/
private lemma toDigits_append_of_foldlM {digits : List Char} {m n : Nat} (hm : 0 < m)
    (h : digits.foldlM (fun n c => (digit? 10 c).map (10 * n + ·)) m = some n) :
    Nat.toDigits 10 n = Nat.toDigits 10 m ++ digits := by
  induction digits generalizing m with
  | nil =>
    obtain rfl := Option.some.inj h
    rw [List.append_nil]
  | cons c digits ih =>
    rw [List.foldlM_cons, digit?_ten] at h
    by_cases hc : c.isDigit
    · rw [if_pos hc] at h
      obtain ⟨hlt, hchar⟩ := toDigits_of_isDigit hc
      have hnext := ih (by omega : 0 < 10 * m + (c.toNat - 48)) h
      rw [hnext, ← Nat.toDigits_append_toDigits (by decide) hm hlt, hchar, List.append_assoc]
      rfl
    · rw [if_neg hc] at h
      cases h

/-- **A number has the digits that it is read from**, if they do not begin with zero.

**Proof sketch.** The first digit `c` is a number other than zero (`Digits.toDigits_of_isDigit`),
and the others are written behind it (`Digits.toDigits_append_of_foldlM`). -/
theorem toDigits_of_toNat? {c : Char} {digits : List Char} {n : Nat}
    (h : toNat? 10 (c :: digits) = some n) (hzero : c ≠ '0') :
    Nat.toDigits 10 n = c :: digits := by
  rw [toNat?, if_neg (by simp), List.foldlM_cons, digit?_ten] at h
  by_cases hc : c.isDigit
  · rw [if_pos hc] at h
    obtain ⟨-, hchar⟩ := toDigits_of_isDigit hc
    have hrange := isDigit_iff.1 hc
    have hcode : c.toNat ≠ 48 := fun hcode => hzero (Char.toNat_inj.1 hcode)
    have hnext := toDigits_append_of_foldlM (by omega : 0 < 10 * 0 + (c.toNat - 48)) h
    rw [hnext, Nat.mul_zero, Nat.zero_add, hchar]
    rfl
  · rw [if_neg hc] at h
    cases h

end Digits

/-! ## Decimals -/

namespace Decimal

/-- A decimal without a point is the digits `whole` before an exponent, which `tail` is if it is
anything. -/
lemma magnitude?_append {negative : Bool} {whole tail : List Char}
    (hwhole : ∀ c ∈ whole, c.isDigit) (htail : ∀ c ∈ tail.head?, ¬c.isDigit ∧ c ≠ '.') :
    magnitude? negative (whole ++ tail) =
      (Digits.toNat? 10 whole).bind fun m =>
        (exponent? tail).map fun e => ⟨negative, m, e⟩ := by
  have htake : (whole ++ tail).takeWhile Char.isDigit = whole := by
    rw [List.takeWhile_append_of_pos hwhole]
    cases tail with
    | nil => simp
    | cons c rest => simp [(htail c rfl).1]
  have hdrop : (whole ++ tail).drop whole.length = tail := List.drop_left
  unfold magnitude?
  simp only [htake, hdrop]
  cases tail with
  | nil => cases hwhole : Digits.toNat? 10 whole <;> simp [exponent?, hwhole]
  | cons c rest =>
    have hpoint : c ≠ '.' := (htail c rfl).2
    cases hwhole : Digits.toNat? 10 whole <;> cases hexponent : exponent? (c :: rest) <;>
      simp [hpoint, hwhole, hexponent]

/-- An exponent without a sign is the number of its `digits`. -/
lemma exponent?_cons {digits : List Char}
    (hsign : ∀ c ∈ digits.head?, c ≠ '-' ∧ c ≠ '+') :
    exponent? ('e' :: digits) = (Digits.toNat? 10 digits).map fun n : Nat => (n : Int) := by
  rw [exponent?]
  · cases Digits.toNat? 10 digits <;> rfl
  · rintro rest rfl
    exact (hsign '-' rfl).1 rfl
  · rintro rest rfl
    exact (hsign '+' rfl).2 rfl

end Decimal

/-! ## Digests -/

/-- The text `d` is a digest: eight hexadecimal digits in lower case. -/
def IsDigest (d : String) : Prop :=
  d.toList.length = 8 ∧ ∀ c ∈ d.toList, c ∈ "0123456789abcdef".toList

instance : DecidablePred IsDigest := fun d =>
  decidable_of_iff
    (d.toList.length = 8 ∧ d.toList.all fun c => "0123456789abcdef".toList.contains c)
    (by simp [IsDigest])

/-- The number of `d` if it is zeros and ones behind `0b`. -/
def binaryNumber? (d : String) : Option Nat :=
  match d.toList with
  | '0' :: 'b' :: bits => Digits.toNat? 2 bits
  | _ => none

/-- The text `d` is decimal digits around an `e`, and the number with this exponent is not too large
for 64 bits. -/
def IsFloatDigest (d : String) : Prop :=
  ∃ whole exponent m e, d.toList = whole ++ 'e' :: exponent ∧
    Digits.toNat? 10 whole = some m ∧ Digits.toNat? 10 exponent = some e ∧
    (Decimal.toBinary64 ⟨false, m, e⟩).isFinite

/-- The digest that is read where `d` stands without quotes. -/
def unquotedDigest (d : String) : String :=
  ((binaryNumber? d).map Decode.digestOfNumber).getD d

/-- The text `d` has a number `n` if it is the digits `bits` behind `0b`. -/
lemma binaryNumber?_eq_some_iff {d : String} {n : Nat} :
    binaryNumber? d = some n ↔
      ∃ bits, d.toList = '0' :: 'b' :: bits ∧ Digits.toNat? 2 bits = some n := by
  rw [binaryNumber?]
  split
  case h_1 bits hlist => simp [hlist]
  case h_2 hother =>
    constructor
    · intro h
      cases h
    · rintro ⟨bits, hlist, -⟩
      exact absurd hlist (hother bits)

/-- The short digest of a `payload` is a digest: two hexadecimal digits for each of four bytes. -/
theorem isDigest_shortDigest (payload : ByteArray) : IsDigest (shortDigest payload) := by
  have hdigit : ∀ d < 16, Nat.digitChar d ∈ "0123456789abcdef".toList := by decide
  rw [IsDigest, shortDigest, String.toList_ofList]
  refine ⟨rfl, fun c hc => ?_⟩
  obtain ⟨byte, -, hbyte⟩ := List.mem_flatMap.1 (List.mem_of_mem_take hc)
  have hlt := byte.toNat_lt
  rcases List.mem_cons.1 hbyte with rfl | hbyte
  · exact hdigit _ (by omega)
  · rw [List.mem_singleton.1 hbyte]
    exact hdigit _ (by omega)

/-- A digest `d` of binary digits has a `b` in it, which no decimal number `m` has. -/
private lemma digestOfNumber_ne {d : String} {n : Nat} (h : binaryNumber? d = some n) (m : Nat) :
    Decode.digestOfNumber m ≠ d := by
  obtain ⟨bits, hlist, -⟩ := binaryNumber?_eq_some_iff.1 h
  rintro rfl
  have hb : 'b' ∈ (Decode.digestOfNumber m).toList := by simp [hlist]
  rw [Decode.digestOfNumber, String.toList_ofList, List.mem_append, List.mem_replicate] at hb
  rcases hb with ⟨-, hb⟩ | hb
  · exact absurd hb (by decide)
  · exact absurd (Nat.isDigit_of_mem_toDigits (by decide) (by decide) hb) (by decide)

/-- **The digests that mean themselves** are those that are not binary; a binary one is taken for
another (`digestOfNumber_ne`). -/
theorem unquotedDigest_eq_self_iff {d : String} :
    unquotedDigest d = d ↔ binaryNumber? d = none := by
  rw [unquotedDigest]
  cases h : binaryNumber? d with
  | none => simp
  | some n => simpa using digestOfNumber_ne h n

/-- What is read of a digest `d` is not empty. -/
lemma unquotedDigest_ne_empty {d : String} (hd : IsDigest d) : unquotedDigest d ≠ "" := by
  rw [unquotedDigest]
  cases binaryNumber? d with
  | none =>
    rintro rfl
    exact absurd hd.1 (by decide)
  | some n =>
    intro hempty
    have hlist := congrArg String.toList hempty
    simp [Decode.digestOfNumber] at hlist

namespace Yaml

section Digest

variable {d : String} (hd : IsDigest d)

include hd

/-- A digest `d` is none of the spellings of null, of a truth value or of infinity, which are not as
long. -/
private lemma ne_of_length_ne {text : String} (h : text.toList.length ≠ 8) : d ≠ text := by
  rintro rfl
  exact h hd.1

/-- A character `c` that is no hexadecimal digit does not stand in a digest. -/
private lemma notMem_of_notMem_digits {c : Char} (h : c ∉ "0123456789abcdef".toList) :
    c ∉ d.toList :=
  fun hc => h (hd.2 c hc)

/-- A digest `d` begins with no sign. -/
lemma ne_sign_cons (tail : List Char) : d.toList ≠ '-' :: tail ∧ d.toList ≠ '+' :: tail := by
  constructor <;> intro h
  · exact absurd (h ▸ List.mem_cons_self) (notMem_of_notMem_digits hd (c := '-') (by decide))
  · exact absurd (h ▸ List.mem_cons_self) (notMem_of_notMem_digits hd (c := '+') (by decide))

/-! ### Whole numbers -/

/-- A digest `d` spells a binary or a decimal number, or none.

**Proof sketch.** Of the marks of a base only `0b` is made of hexadecimal digits, so no other stands
at its beginning. A binary digest has a `b` in it and is no decimal number
(`Digits.toNat?_ten_of_mem`). -/
private lemma natural?_digest :
    natural? d.toList = (binaryNumber? d).or (Digits.toNat? 10 d.toList) := by
  have hmark : ∀ c rest, c ∉ "0123456789abcdef".toList → d.toList ≠ '0' :: c :: rest := by
    intro c rest hc hlist
    exact notMem_of_notMem_digits hd hc (by simp [hlist])
  have hbinary : ∀ bits, Digits.toNat? 10 ('0' :: 'b' :: bits) = none :=
    fun bits => Digits.toNat?_ten_of_mem (c := 'b') (by simp) (by decide)
  unfold natural? binaryNumber?
  split
  case h_1 digits hlist => exact absurd hlist (hmark _ _ (by decide))
  case h_2 digits hlist => exact absurd hlist (hmark _ _ (by decide))
  case h_3 digits hlist => simp [hlist, hbinary]
  case h_4 _ _ _ hother =>
    split
    case h_1 bits hlist => exact absurd hlist (hother bits)
    case h_2 => rfl

/-- The number `n` of a binary digest is small, since it has six digits. -/
private lemma binaryNumber?_lt {n : Nat} (h : binaryNumber? d = some n) : n < 10 ^ 8 := by
  obtain ⟨bits, hlist, hn⟩ := binaryNumber?_eq_some_iff.1 h
  have hlength : bits.length = 6 := by simpa [hlist] using hd.1
  have hlt := Digits.toNat?_lt hn
  rw [hlength] at hlt
  omega

/-- A digest `d` is padded with zeros if it begins with one and has decimal digits only. -/
private lemma isZeroPadded_digest :
    isZeroPadded d.toList ↔ d.toList.head? = some '0' ∧ ∀ c ∈ d.toList, c.isDigit := by
  obtain ⟨a, b, rest, hlist⟩ : ∃ a b rest, d.toList = a :: b :: rest := by
    have hlength := hd.1
    match hlist : d.toList, hlength with
    | a :: b :: rest, _ => exact ⟨a, b, rest, rfl⟩
  have hminus : a ≠ '-' := by
    rintro rfl
    exact (ne_sign_cons hd _).1 hlist
  have hplus : a ≠ '+' := by
    rintro rfl
    exact (ne_sign_cons hd _).2 hlist
  rw [hlist]
  by_cases hzero : a = '0'
  · subst hzero
    simp [isZeroPadded, List.all_eq_true]
  · simp [isZeroPadded, hzero, hminus, hplus]

/-- The number of a digest `d` is what its digits spell, unless they are padded with zeros. -/
private lemma integer?_digest :
    integer? d.toList =
      if isZeroPadded d.toList then none else (natural? d.toList).map Int.ofNat := by
  obtain ⟨hminus, hplus⟩ : (∀ tail, d.toList ≠ '-' :: tail) ∧ ∀ tail, d.toList ≠ '+' :: tail :=
    ⟨fun tail => (ne_sign_cons hd tail).1, fun tail => (ne_sign_cons hd tail).2⟩
  unfold integer?
  split
  · rfl
  split
  · exact absurd ‹_› (hminus _)
  · exact absurd ‹_› (hplus _)
  · cases natural? d.toList <;> rfl

/-- A digest `d` that spells a number means it, and any other is a fractional number or a text.

**Proof sketch.** It is no spelling of null or of a truth value (`ne_of_length_ne`). The number is a
short one, as it has at most eight digits (`binaryNumber?_lt`, `Digits.toNat?_lt`), so it fits into
64 bits. -/
private lemma Value.ofPlain?_digest :
    Value.ofPlain? d =
      match integer? d.toList with
      | some n => some (.integer n)
      | none => some (floatOrString d) := by
  have hnull : ¬(d = "" ∨ isNull d) := by
    have hempty : d ≠ "" := ne_of_length_ne hd (by decide)
    have hnull : d ≠ "null" ∧ d ≠ "Null" ∧ d ≠ "NULL" ∧ d ≠ "~" := by
      and_intros <;> exact ne_of_length_ne hd (by decide)
    simp [isNull, hempty, hnull]
  have hboolean : boolean? d = none := by
    have htrue : d ≠ "true" ∧ d ≠ "True" ∧ d ≠ "TRUE" := by
      and_intros <;> exact ne_of_length_ne hd (by decide)
    have hfalse : d ≠ "false" ∧ d ≠ "False" ∧ d ≠ "FALSE" := by
      and_intros <;> exact ne_of_length_ne hd (by decide)
    simp [boolean?, htrue, hfalse]
  have hnarrow : ∀ n, integer? d.toList = some n → isNarrow n := by
    intro n hn
    rw [integer?_digest hd] at hn
    split at hn
    case isTrue => cases hn
    obtain ⟨k, hk, rfl⟩ := Option.map_eq_some_iff.1 hn
    have hlt : k < 10 ^ 8 := by
      rw [natural?_digest hd, Option.or_eq_some_iff] at hk
      rcases hk with hk | ⟨-, hk⟩
      · exact binaryNumber?_lt hd hk
      · exact hd.1 ▸ Digits.toNat?_lt hk
    simp only [isNarrow, Bool.and_eq_true, decide_eq_true_eq, Int.ofNat_eq_natCast]
    omega
  rw [ofPlain?, if_neg hnull, hboolean]
  cases hinteger : integer? d.toList with
  | none => rfl
  | some n => simp [hnarrow n hinteger]

/-! ### Fractional numbers -/

/-- A digest `d`, which has no sign, is a decimal if its digits are, and if it is not too large. -/
private lemma decimal?_digest :
    decimal? d.toList =
      (Decimal.magnitude? false d.toList).bind fun x =>
        if x.toBinary64.isFinite then some x.toBinary64 else none := by
  have hdrop : dropPlus? d.toList = some d.toList := by
    unfold dropPlus?
    split
    · exact absurd ‹_› (ne_sign_cons hd _).2
    · exact absurd ‹_› (ne_sign_cons hd _).2
    · exact absurd ‹_› (ne_sign_cons hd _).2
    · rfl
  have hsign : Decimal.ofText? d.toList = Decimal.magnitude? false d.toList := by
    unfold Decimal.ofText?
    split
    · exact absurd ‹_› (ne_sign_cons hd _).1
    · rfl
  rw [decimal?, hdrop, Option.bind_some, hsign]

section Parts

variable {whole tail exponent : List Char}

/-- Decimal digits, `whole`, in front of a digest are read before an exponent, since no point
follows. -/
lemma magnitude?_of_append (hlist : d.toList = whole ++ tail) (hwhole : ∀ c ∈ whole, c.isDigit)
    (htail : ∀ c ∈ tail.head?, ¬c.isDigit) :
    Decimal.magnitude? false d.toList =
      (Digits.toNat? 10 whole).bind fun m =>
        (Decimal.exponent? tail).map fun e => ⟨false, m, e⟩ := by
  rw [hlist]
  refine Decimal.magnitude?_append hwhole fun c hc => ⟨htail c hc, ?_⟩
  rintro rfl
  refine notMem_of_notMem_digits hd (c := '.') (by decide) ?_
  rw [hlist]
  exact List.mem_append_right _ (List.mem_of_mem_head? hc)

/-- An exponent at the end of a digest `d` has no sign. -/
lemma exponent?_of_append (hlist : d.toList = whole ++ 'e' :: exponent) :
    Decimal.exponent? ('e' :: exponent) =
      (Digits.toNat? 10 exponent).map fun n : Nat => (n : Int) := by
  have hmem : ∀ c ∈ exponent.head?, c ∈ d.toList := by
    intro c hc
    rw [hlist]
    exact List.mem_append_right _ (List.mem_cons_of_mem _ (List.mem_of_mem_head? hc))
  refine Decimal.exponent?_cons fun c hc => ⟨?_, ?_⟩
  · rintro rfl
    exact notMem_of_notMem_digits hd (by decide) (hmem _ hc)
  · rintro rfl
    exact notMem_of_notMem_digits hd (by decide) (hmem _ hc)

end Parts

/-- **A digest that is no whole number** spells a decimal if and only if it has decimal digits
around an `e`.

**Proof sketch.** The decimal digits in front are followed by a letter, since there are other
characters than decimal digits, and no point (`magnitude?_of_append`). Of the letters only `e`
starts an exponent, and behind it there is no sign (`exponent?_of_append`). -/
theorem magnitude?_digest (hwhole : Digits.toNat? 10 d.toList = none) {x : Decimal} :
    Decimal.magnitude? false d.toList = some x ↔
      ∃ whole exponent m e, d.toList = whole ++ 'e' :: exponent ∧
        Digits.toNat? 10 whole = some m ∧ Digits.toNat? 10 exponent = some e ∧
        x = ⟨false, m, e⟩ := by
  constructor
  · intro h
    have hlist : d.toList = d.toList.takeWhile Char.isDigit ++ d.toList.dropWhile Char.isDigit :=
      List.takeWhile_append_dropWhile.symm
    have htail : ∀ c ∈ (d.toList.dropWhile Char.isDigit).head?, ¬c.isDigit := by
      intro c hc
      have hnot := List.head?_dropWhile_not Char.isDigit d.toList
      rw [Option.mem_def.1 hc] at hnot
      simpa using hnot
    have hdigits : ∀ c ∈ d.toList.takeWhile Char.isDigit, c.isDigit :=
      fun c hc => List.all_eq_true.1 List.all_takeWhile c hc
    generalize d.toList.dropWhile Char.isDigit = tail at hlist htail
    generalize d.toList.takeWhile Char.isDigit = whole at hlist hdigits
    rw [magnitude?_of_append hd hlist hdigits htail] at h
    obtain ⟨m, hm, h⟩ := Option.bind_eq_some_iff.1 h
    obtain ⟨e, he, rfl⟩ := Option.map_eq_some_iff.1 h
    cases tail with
    | nil =>
      rw [hlist, List.append_nil, hm] at hwhole
      cases hwhole
    | cons c exponent =>
      have hletter : c = 'e' := by
        by_contra hne
        have hupper : c ≠ 'E' := by
          rintro rfl
          exact notMem_of_notMem_digits hd (c := 'E') (by decide) (by simp [hlist])
        simp [Decimal.exponent?, hne, hupper] at he
      subst hletter
      rw [exponent?_of_append hd hlist] at he
      obtain ⟨n, hn, rfl⟩ := Option.map_eq_some_iff.1 he
      exact ⟨whole, exponent, m, n, hlist, hm, hn, rfl⟩
  · rintro ⟨whole, exponent, m, e, hlist, hm, he, rfl⟩
    have hdigits := (Digits.exists_toNat?_ten_iff.1 ⟨m, hm⟩).2
    rw [magnitude?_of_append hd hlist hdigits (by simp), hm, exponent?_of_append hd hlist, he]
    rfl

omit hd in
/-- A text `d` with decimal digits around an `e` is no whole number. -/
private lemma natural?_of_isFloatDigest (hfloat : IsFloatDigest d) :
    binaryNumber? d = none ∧ Digits.toNat? 10 d.toList = none := by
  obtain ⟨whole, exponent, m, e, hlist, -⟩ := hfloat
  have hletter : 'e' ∈ d.toList := by simp [hlist]
  refine ⟨?_, Digits.toNat?_ten_of_mem hletter (by decide)⟩
  rw [Option.eq_none_iff_forall_ne_some]
  intro n h
  obtain ⟨bits, hbits, hn⟩ := binaryNumber?_eq_some_iff.1 h
  have hbit : 'e' ∈ bits := by simpa [hbits] using hletter
  obtain ⟨bit, hbit⟩ := (Digits.exists_toNat?_iff.1 ⟨n, hn⟩).2 'e' hbit
  rw [show Digits.digit? 2 'e' = none by decide] at hbit
  cases hbit

/-- A digest `d` that is no whole number is a fractional number or a text.

**Proof sketch.** It is none of the words for infinity (`ne_of_length_ne`). If it is padded with
zeros, it has decimal digits only, so it has no `e`, and it is a text. If not, `magnitude?_digest`
says which decimals it spells. -/
private lemma Value.floatOrString_digest (hinteger : integer? d.toList = none) :
    (IsFloatDigest d → ∃ x, floatOrString d = .float x) ∧
      (¬IsFloatDigest d → floatOrString d = .string d) := by
  have hfloat : float? d = decimal? d.toList := by
    have hinfinite : d ≠ ".inf" ∧ d ≠ ".Inf" ∧ d ≠ ".INF" ∧ d ≠ "+.inf" ∧ d ≠ "+.Inf" ∧
        d ≠ "+.INF" := by
      and_intros <;> exact ne_of_length_ne hd (by decide)
    have hnegative : d ≠ "-.inf" ∧ d ≠ "-.Inf" ∧ d ≠ "-.INF" := by
      and_intros <;> exact ne_of_length_ne hd (by decide)
    have hnan : d ≠ ".nan" ∧ d ≠ ".NaN" ∧ d ≠ ".NAN" := by
      and_intros <;> exact ne_of_length_ne hd (by decide)
    simp [float?, hinfinite, hnegative, hnan]
  rw [floatOrString, hfloat, decimal?_digest hd]
  by_cases hpadded : isZeroPadded d.toList
  · refine ⟨fun h => ?_, fun _ => if_pos hpadded⟩
    obtain ⟨whole, exponent, m, e, hlist, -⟩ := h
    have hdigit := ((isZeroPadded_digest hd).1 hpadded).2 'e' (by simp [hlist])
    exact absurd hdigit (by decide)
  have hwhole : Digits.toNat? 10 d.toList = none := by
    rw [integer?_digest hd, if_neg hpadded, Option.map_eq_none_iff, natural?_digest hd,
      Option.or_eq_none_iff] at hinteger
    exact hinteger.2
  rw [if_neg hpadded]
  constructor
  · rintro ⟨whole, exponent, m, e, hlist, hm, he, hfinite⟩
    have hx := (magnitude?_digest hd hwhole).2 ⟨whole, exponent, m, e, hlist, hm, he, rfl⟩
    exact ⟨Decimal.toBinary64 ⟨false, m, e⟩, by simp [hx, hfinite]⟩
  · intro hnot
    cases hx : Decimal.magnitude? false d.toList with
    | none => rfl
    | some x =>
      obtain ⟨whole, exponent, m, e, hlist, hm, he, rfl⟩ := (magnitude?_digest hd hwhole).1 hx
      have hinfinite : ¬(Decimal.toBinary64 ⟨false, m, e⟩).isFinite :=
        fun hfinite => hnot ⟨whole, exponent, m, e, hlist, hm, he, hfinite⟩
      simp [hinfinite]

end Digest

end Yaml

/-! ## Reading -/

namespace Decode

open Yaml

/-- A decimal digest `d` is read as its number `n`, and written again, if it is not padded with
zeros.

**Proof sketch.** It has decimal digits only, so its first one is not zero
(`Yaml.isZeroPadded_digest`). Then the number has the digits that it is read from
(`Digits.toDigits_of_toNat?`), which are eight, and nothing is put before them. -/
private lemma digestOfNumber_of_toNat? {d : String} (hd : IsDigest d)
    (hpadded : ¬isZeroPadded d.toList) {n : Nat} (hn : Digits.toNat? 10 d.toList = some n) :
    digestOfNumber n = d := by
  obtain ⟨c, rest, hlist⟩ : ∃ c rest, d.toList = c :: rest :=
    List.exists_cons_of_length_pos (by rw [hd.1]; decide)
  have hzero : c ≠ '0' := by
    rintro rfl
    refine hpadded ((isZeroPadded_digest hd).2 ⟨by rw [hlist]; rfl, ?_⟩)
    exact (Digits.exists_toNat?_ten_iff.1 ⟨n, hn⟩).2
  have hdigits : Nat.toDigits 10 n = d.toList := by
    rw [hlist] at hn ⊢
    exact Digits.toDigits_of_toNat? hn hzero
  have hwidth : digestWidth - d.toList.length = 0 := by rw [hd.1, digestWidth]
  rw [digestOfNumber, hdigits, hwidth]
  exact String.ofList_toList

/-- **What is read of a digest without quotes**: nothing if `d` spells a fractional number, else the
digest itself, or the number of a binary one.

**Proof sketch.** By `Yaml.natural?_digest` a whole number that `d` spells is binary or decimal. A
binary one gives `unquotedDigest d`, and a decimal one gives `d` again
(`Decode.digestOfNumber_of_toNat?`). If it spells none, it is fractional or a text
(`Value.floatOrString_digest`). -/
theorem digest_ofPlain? {d : String} (hd : IsDigest d) :
    ∃ value, Value.ofPlain? d = some value ∧
      (IsFloatDigest d → digest value = .error .unknownDigest) ∧
      (¬IsFloatDigest d → digest value = .ok (some (unquotedDigest d))) := by
  -- A digest is padded with zeros only if all its characters are decimal digits.
  have hpadding : isZeroPadded d.toList → binaryNumber? d = none := by
    intro hpadded
    rw [Option.eq_none_iff_forall_ne_some]
    intro n h
    obtain ⟨bits, hlist, -⟩ := binaryNumber?_eq_some_iff.1 h
    have hb := ((isZeroPadded_digest hd).1 hpadded).2 'b' (by simp [hlist])
    exact absurd hb (by decide)
  cases hinteger : integer? d.toList with
  | none =>
    have hvalue : Value.ofPlain? d = some (Value.floatOrString d) := by
      rw [Value.ofPlain?_digest hd, hinteger]
    have hbinary : binaryNumber? d = none := by
      by_cases hpadded : isZeroPadded d.toList
      · exact hpadding hpadded
      · rw [integer?_digest hd, if_neg hpadded, Option.map_eq_none_iff, natural?_digest hd,
          Option.or_eq_none_iff] at hinteger
        exact hinteger.1
    obtain ⟨hfloat, hstring⟩ := Value.floatOrString_digest hd hinteger
    refine ⟨_, hvalue, fun h => ?_, fun h => ?_⟩
    · obtain ⟨x, hx⟩ := hfloat h
      rw [hx]
      rfl
    · rw [hstring h, unquotedDigest_eq_self_iff.2 hbinary]
      rfl
  | some n =>
    have hvalue : Value.ofPlain? d = some (.integer n) := by
      rw [Value.ofPlain?_digest hd, hinteger]
    rw [integer?_digest hd] at hinteger
    split at hinteger
    case isTrue => cases hinteger
    case isFalse hpadded =>
      obtain ⟨k, hk, rfl⟩ := Option.map_eq_some_iff.1 hinteger
      rw [natural?_digest hd, Option.or_eq_some_iff] at hk
      have hdigest : digestOfNumber k = unquotedDigest d := by
        rcases hk with hk | ⟨hbinary, hk⟩
        · simp [unquotedDigest, hk]
        · rw [unquotedDigest_eq_self_iff.2 hbinary]
          exact digestOfNumber_of_toNat? hd hpadded hk
      refine ⟨_, hvalue, fun h => ?_, fun _ => ?_⟩
      · obtain ⟨hbinary, hwhole⟩ := natural?_of_isFloatDigest h
        simp [hbinary, hwhole] at hk
      · rw [← hdigest]
        rfl

end Decode

end FirmwareBundle
