/-
# Byte strings

Byte strings are lists of bytes. This module holds the codecs that the formats share: UTF-8, fixed-width
integers in either byte order, and the bytewise exclusive or.
-/

namespace DocMesh

/-- A byte string. -/
abbrev Bytes := List UInt8

namespace Bytes

/-! ## UTF-8 -/

/-- The UTF-8 form of a text. -/
def ofString (s : String) : Bytes := s.toUTF8.data.toList

/-- The text that has the given UTF-8 form, if there is one. -/
def toString? (bs : Bytes) : Option String := String.fromUTF8? ⟨bs.toArray⟩

@[simp] theorem length_ofString (s : String) : (ofString s).length = s.utf8ByteSize := by
  simp [ofString]

/-- Reading the written form of a text gives the text. -/
@[simp] theorem toString?_ofString (s : String) : toString? (ofString s) = some s := by
  have h : (⟨(ofString s).toArray⟩ : ByteArray) = s.toByteArray := by
    simp [ofString, String.toUTF8]
  unfold toString?
  rw [h]
  simp [String.fromUTF8?, String.fromUTF8, s.isValidUTF8]

/-! ## Fixed-width integers -/

/-- The `n` lowest bytes of a number, the lowest first. -/
def littleEndian : Nat → Nat → Bytes
  | 0, _ => []
  | n + 1, x => UInt8.ofNat x :: littleEndian n (x / 256)

/-- The number with the given bytes, the lowest first. -/
def ofLittleEndian : Bytes → Nat
  | [] => 0
  | b :: bs => b.toNat + 256 * ofLittleEndian bs

/-- The `n` lowest bytes of a number, the highest first. -/
def bigEndian (n x : Nat) : Bytes := (littleEndian n x).reverse

/-- The number with the given bytes, the highest first. -/
def ofBigEndian (bs : Bytes) : Nat := bs.foldl (fun x b => 256 * x + b.toNat) 0

@[simp] theorem length_littleEndian (n x : Nat) : (littleEndian n x).length = n := by
  induction n generalizing x with
  | zero => rfl
  | succ n ih => simp [littleEndian, ih]

/-- The `n` lowest bytes tell a number up to the power. -/
theorem ofLittleEndian_littleEndian_eq_mod (n x : Nat) : ofLittleEndian (littleEndian n x) = x % Nat.pow 256 n := by
  induction n generalizing x with
  | zero => exact (Nat.mod_one x).symm
  | succ n ih =>
    have hpow : Nat.pow 256 (n + 1) = 256 * Nat.pow 256 n := Nat.mul_comm _ _
    rw [hpow, Nat.mod_mul, littleEndian, ofLittleEndian, ih, UInt8.toNat_ofNat']

/-- A number below the power is read back from its `n` lowest bytes. -/
theorem ofLittleEndian_littleEndian (n x : Nat) (h : x < Nat.pow 256 n) :
    ofLittleEndian (littleEndian n x) = x := by
  induction n generalizing x with
  | zero => simp_all [littleEndian, ofLittleEndian]
  | succ n ih =>
    have hx : x / 256 < Nat.pow 256 n := Nat.div_lt_of_lt_mul (Nat.mul_comm _ _ ▸ h)
    simp only [littleEndian, ofLittleEndian, ih _ hx, UInt8.toNat_ofNat']
    omega

/-- As many lowest bytes as a byte string has are the byte string again. -/
theorem littleEndian_ofLittleEndian (bs : Bytes) : littleEndian bs.length (ofLittleEndian bs) = bs := by
  induction bs with
  | nil => rfl
  | cons b bs ih =>
    have hlow : UInt8.ofNat (b.toNat + 256 * ofLittleEndian bs) = b := by
      rw [UInt8.ofNat_add, UInt8.ofNat_toNat, UInt8.ofNat_mul]
      simp
    have hhigh : (b.toNat + 256 * ofLittleEndian bs) / 256 = ofLittleEndian bs := by
      have := b.toNat_lt
      omega
    rw [List.length_cons, ofLittleEndian, littleEndian, hlow, hhigh, ih]

@[simp] theorem length_bigEndian (n x : Nat) : (bigEndian n x).length = n := by
  simp [bigEndian]

theorem ofBigEndian_reverse (bs : Bytes) : ofBigEndian bs.reverse = ofLittleEndian bs := by
  induction bs with
  | nil => rfl
  | cons b bs ih =>
    rw [ofBigEndian] at ih ⊢
    rw [List.reverse_cons, List.foldl_append, ih, ofLittleEndian, List.foldl_cons, List.foldl_nil, Nat.add_comm]

/-- A number below the power is read back from its `n` lowest bytes. -/
theorem ofBigEndian_bigEndian (n x : Nat) (h : x < Nat.pow 256 n) : ofBigEndian (bigEndian n x) = x := by
  rw [bigEndian, ofBigEndian_reverse, ofLittleEndian_littleEndian n x h]

/-- As many lowest bytes as a byte string has are the byte string again. -/
theorem bigEndian_ofBigEndian (bs : Bytes) : bigEndian bs.length (ofBigEndian bs) = bs := by
  rw [bigEndian, ← List.length_reverse, ← List.reverse_reverse bs, ofBigEndian_reverse,
    List.reverse_reverse bs, littleEndian_ofLittleEndian, List.reverse_reverse]

/-! ## Exclusive or -/

/-- The bytewise exclusive or, as long as the shorter of the two. -/
def xor (a b : Bytes) : Bytes := List.zipWith (· ^^^ ·) a b

@[simp] theorem length_xor (a b : Bytes) : (xor a b).length = min a.length b.length :=
  List.length_zipWith

/-- Doing it twice with the same bytes, which are at least as many, undoes it. -/
theorem xor_xor_cancel {a b : Bytes} (h : a.length ≤ b.length) : xor (xor a b) b = a := by
  induction a generalizing b with
  | nil => rfl
  | cons x a ih =>
    cases b with
    | nil => simp at h
    | cons y b =>
      have hcancel : (x ^^^ y) ^^^ y = x := by
        rw [UInt8.xor_assoc, UInt8.xor_self, UInt8.xor_zero]
      have htail : xor (xor a b) b = a := ih (by simpa using h)
      rw [xor, xor] at htail ⊢
      rw [List.zipWith_cons_cons, List.zipWith_cons_cons, hcancel, htail]

/-! ## Hexadecimal text -/

/-- The lower-case hexadecimal digit of a number below 16. -/
def hexDigit (n : Nat) : Char :=
  if n < 10 then Char.ofNat (48 + n) else Char.ofNat (87 + n)

/-- A byte as two hexadecimal digits. -/
def hexByte (b : UInt8) : List Char := [hexDigit (b.toNat / 16), hexDigit (b.toNat % 16)]

/-- The lower-case hexadecimal text of a byte string. -/
def hex (bs : Bytes) : String := String.ofList (bs.flatMap hexByte)

/-- The value of a hexadecimal digit of either case, given as a byte of ASCII text. -/
def hexValue? (b : UInt8) : Option Nat :=
  if 48 ≤ b && b ≤ 57 then some (b.toNat - 48)
  else if 97 ≤ b && b ≤ 102 then some (b.toNat - 87)
  else if 65 ≤ b && b ≤ 70 then some (b.toNat - 55)
  else none

/-- The bytes whose hexadecimal digits are given. -/
def ofHexDigits? : Bytes → Option Bytes
  | [] => some []
  | [_] => none
  | a :: b :: rest =>
    match hexValue? a, hexValue? b, ofHexDigits? rest with
    | some a, some b, some rest => some (UInt8.ofNat (16 * a + b) :: rest)
    | _, _, _ => none

/-- The byte string with the given hexadecimal text. -/
def ofHex? (s : String) : Option Bytes := ofHexDigits? (ofString s)

end Bytes

end DocMesh
