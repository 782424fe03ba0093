/-
# Quoted strings are read back

Text is written as characters and read as bytes. Here the bytes of a text are taken character by character, and
then it is shown that reading undoes quoting: a quoted string is split off at its closing quote, whatever follows,
and its escapes are evaluated to the string. An escape is ASCII text, and outside of escapes no byte of a
character is a quote, a backslash or a control character, as the bytes of longer characters are at least 128.

Main statements:

* `Bytes.ofString_ofList` : the bytes of a text, character by character;
* `Quoted.stands_escape` : what stands between quotes for a character stands for it;
* `Quoted.scan?_inside` : a quoted string is split off at its closing quote;
* `Quoted.decode?_inside` : what stands between the quotes is evaluated to the string.
-/
import DocMesh.Json.Quoted

namespace DocMesh

/-! ## The bytes of characters -/

namespace Bytes

variable {c : Char} {b : UInt8}

/-- The UTF-8 form of the characters. -/
def ofChars (cs : List Char) : Bytes := cs.flatMap String.utf8EncodeChar

@[simp] theorem ofChars_nil : ofChars [] = [] := rfl

@[simp] theorem ofChars_cons (c : Char) (cs : List Char) :
    ofChars (c :: cs) = String.utf8EncodeChar c ++ ofChars cs := List.flatMap_cons

@[simp] theorem ofChars_append (cs ds : List Char) : ofChars (cs ++ ds) = ofChars cs ++ ofChars ds :=
  List.flatMap_append

theorem ofString_eq_ofChars (s : String) : ofString s = ofChars s.toList := by
  have h : s.toByteArray = (ofChars s.toList).toByteArray := String.utf8Encode_toList.symm
  rw [ofString, String.toUTF8, h, List.data_toByteArray]

/-- The bytes of a text, character by character. -/
theorem ofString_ofList (cs : List Char) : ofString (String.ofList cs) = ofChars cs := by
  rw [ofString_eq_ofChars, String.toList_ofList]

theorem utf8EncodeChar_of_lt (h : c.toNat < 128) : String.utf8EncodeChar c = [UInt8.ofNat c.toNat] := by
  rw [String.utf8EncodeChar.eq_1, if_pos (show c.val.toNat ≤ 127 from Nat.le_of_lt_succ h)]
  rfl

/-- One ASCII character again and again is one byte again and again. -/
theorem ofString_replicate (h : c.toNat < 128) (n : Nat) :
    ofString (String.ofList (List.replicate n c)) = List.replicate n (UInt8.ofNat c.toNat) := by
  rw [ofString_ofList]
  induction n with
  | zero => rfl
  | succ n ih => rw [List.replicate_succ, ofChars_cons, utf8EncodeChar_of_lt h, ih]; rfl

theorem le_ofNat {n : Nat} (h : 128 ≤ n) (hlt : n < 256) : 128 ≤ UInt8.ofNat n := by
  rw [UInt8.le_iff_toNat_le, UInt8.toNat_ofNat', Nat.mod_eq_of_lt hlt]
  exact h

/-- No byte of a character outside of ASCII is an ASCII character. -/
theorem le_of_mem_utf8EncodeChar (h : 128 ≤ c.toNat) (hb : b ∈ String.utf8EncodeChar c) : 128 ≤ b := by
  have hc : ¬ c.val.toNat ≤ 127 := Nat.not_le.2 h
  rw [String.utf8EncodeChar.eq_1, if_neg hc] at hb
  split at hb
  · simp only [List.mem_cons, List.not_mem_nil, or_false] at hb
    rcases hb with rfl | rfl <;> exact le_ofNat (by omega) (by omega)
  · split at hb
    · simp only [List.mem_cons, List.not_mem_nil, or_false] at hb
      rcases hb with rfl | rfl | rfl <;> exact le_ofNat (by omega) (by omega)
    · simp only [List.mem_cons, List.not_mem_nil, or_false] at hb
      rcases hb with rfl | rfl | rfl | rfl <;> exact le_ofNat (by omega) (by omega)

end Bytes

namespace Quoted

variable {s t m n : Bytes} {b : UInt8} {c : Char}

/-! ## What stands for what between quotes -/

/-- Between quotes `s` stands for `m`: reading passes over it, and evaluates it to `m`. -/
structure Stands (s m : Bytes) : Prop where
  scan (rest : Bytes) : scan? (s ++ rest) = (scan? rest).map fun p => (s ++ p.1, p.2)
  evaluate (rest : Bytes) : evaluate? (s ++ rest) = (evaluate? rest).map (m ++ ·)

theorem Stands.nil : Stands [] [] := by
  constructor
  · intro rest
    exact Option.map_id'.symm
  · intro rest
    exact Option.map_id'.symm

theorem Stands.append (hs : Stands s m) (ht : Stands t n) : Stands (s ++ t) (m ++ n) := by
  constructor
  · intro rest
    rw [List.append_assoc, hs.scan, ht.scan, Option.map_map]
    simp only [Function.comp_def, List.append_assoc]
  · intro rest
    rw [List.append_assoc, hs.evaluate, ht.evaluate, Option.map_map]
    simp only [Function.comp_def, List.append_assoc]

/-- All bytes but quotes, backslashes and control characters stand for themselves. -/
theorem Stands.plain (hcontrol : 32 ≤ b) (hquote : b ≠ 34) (hbackslash : b ≠ 92) : Stands [b] [b] := by
  constructor
  · intro rest
    rw [List.singleton_append, scan?]
    · rw [if_neg (UInt8.not_lt.2 hcontrol)]
      rcases scan? rest with _ | ⟨s, rest⟩ <;> rfl
    all_goals grind
  · intro rest
    rw [List.singleton_append, evaluate?]
    · rfl
    all_goals grind

theorem Stands.plains (h : ∀ b ∈ s, 32 ≤ b ∧ b ≠ 34 ∧ b ≠ 92) : Stands s s := by
  induction s with
  | nil => exact .nil
  | cons b s ih =>
    obtain ⟨hcontrol, hquote, hbackslash⟩ := h b List.mem_cons_self
    exact (Stands.plain hcontrol hquote hbackslash).append (ih fun b hb => h b (List.mem_cons_of_mem _ hb))

theorem Stands.short {e : UInt8} (h : shortMeanings.lookup e = some b) : Stands [92, e] [b] := by
  have hcode : e ≠ 117 := by
    rintro rfl
    cases h
  constructor
  · intro rest
    show scan? (92 :: e :: rest) = _
    rw [scan?]
    · rw [h]
      rcases scan? rest with _ | ⟨s, rest⟩ <;> rfl
    · grind
  · intro rest
    show evaluate? (92 :: e :: rest) = _
    rw [evaluate?]
    · rw [h]
      rfl
    · grind

/-- The escape by the code of a character that is no half of a surrogate pair. -/
theorem Stands.code {a b c d : UInt8} {n : Nat} (h : hex4? [a, b, c, d] = some (n, []))
    (hhigh : isHighSurrogate n = false) (hlow : isLowSurrogate n = false) :
    Stands [92, 117, a, b, c, d] (utf8 n) := by
  constructor
  · intro rest
    show scan? (92 :: 117 :: a :: b :: c :: d :: rest) = _
    rw [scan?, h]
    rcases scan? rest with _ | ⟨s, rest⟩ <;> rfl
  · intro rest
    show evaluate? (92 :: 117 :: a :: b :: c :: d :: rest) = _
    rw [evaluate?, h]
    simp only [hhigh, hlow, Bool.false_eq_true, if_false]

/-! ## Characters and strings -/

theorem toNat_hexDigit_lt : ∀ n < 16, (Bytes.hexDigit n).toNat < 128 := by decide

theorem hex4?_hexDigit : ∀ n < 32,
    hex4? [48, 48, UInt8.ofNat (Bytes.hexDigit (n / 16)).toNat, UInt8.ofNat (Bytes.hexDigit (n % 16)).toNat]
      = some (n, []) := by
  decide

theorem shortMeanings_of_mem_shortEscapes : ∀ p ∈ shortEscapes, p.1.toNat < 128 ∧ p.2.toNat < 128 ∧
    shortMeanings.lookup (UInt8.ofNat p.2.toNat) = some (UInt8.ofNat p.1.toNat) := by
  decide

theorem utf8_toNat (c : Char) : utf8 c.toNat = String.utf8EncodeChar c := by
  rw [utf8, Char.ofNat_toNat, Bytes.ofString_eq_ofChars, String.toList_singleton, Bytes.ofChars_cons]
  exact List.append_nil _

theorem mem_of_lookup {e : Char} (h : shortEscapes.lookup c = some e) : (c, e) ∈ shortEscapes := by
  obtain ⟨front, back, heq, -⟩ := List.lookup_eq_some_iff.1 h
  rw [heq]
  exact List.mem_append_right front List.mem_cons_self

/-- No byte of a character without an escape needs one. -/
theorem plain_of_mem_utf8EncodeChar (hshort : shortEscapes.lookup c = none) (hcontrol : ¬ c.toNat < 32)
    (hb : b ∈ String.utf8EncodeChar c) : 32 ≤ b ∧ b ≠ 34 ∧ b ≠ 92 := by
  by_cases hascii : c.toNat < 128
  · rw [Bytes.utf8EncodeChar_of_lt hascii, List.mem_singleton] at hb
    have hbyte : b.toNat = c.toNat := by
      rw [hb, UInt8.toNat_ofNat', Nat.mod_eq_of_lt (by omega)]
    -- quotes and backslashes have an escape, and `c` has none
    rw [← Char.ofNat_toNat c, ← hbyte] at hshort
    refine ⟨?_, ?_, ?_⟩
    · rw [UInt8.le_iff_toNat_le, hbyte]
      exact Nat.not_lt.1 hcontrol
    · rintro rfl
      cases hshort
    · rintro rfl
      cases hshort
  · have hbyte := Bytes.le_of_mem_utf8EncodeChar (Nat.not_lt.1 hascii) hb
    grind

/-- A character as it stands between quotes stands for the character. -/
theorem stands_escape (c : Char) : Stands (Bytes.ofChars (escape c)) (String.utf8EncodeChar c) := by
  rw [escape]
  split
  · -- an escape of two characters
    rename_i e he
    obtain ⟨hc, hlt, hmeaning⟩ := shortMeanings_of_mem_shortEscapes _ (mem_of_lookup he)
    rw [Bytes.utf8EncodeChar_of_lt hc, Bytes.ofChars_cons, Bytes.ofChars_cons, Bytes.utf8EncodeChar_of_lt hlt]
    exact Stands.short hmeaning
  · rename_i hnone
    split
    · -- a control character, by its code
      rename_i hcontrol
      have hhigh := Bytes.utf8EncodeChar_of_lt (toNat_hexDigit_lt (c.toNat / 16) (by omega))
      have hlow := Bytes.utf8EncodeChar_of_lt (toNat_hexDigit_lt (c.toNat % 16) (by omega))
      simp only [Bytes.ofChars_cons, hhigh, hlow]
      rw [← utf8_toNat c]
      refine Stands.code (hex4?_hexDigit c.toNat hcontrol) ?_ ?_
      · rw [isHighSurrogate, decide_eq_false (by omega), Bool.false_and]
      · rw [isLowSurrogate, decide_eq_false (by omega), Bool.false_and]
    · -- the character itself
      rename_i hcontrol
      rw [Bytes.ofChars_cons, Bytes.ofChars_nil, List.append_nil]
      exact Stands.plains fun b hb => plain_of_mem_utf8EncodeChar hnone hcontrol hb

/-- The string as it stands between quotes stands for the string. -/
theorem stands_inside (cs : List Char) : Stands (Bytes.ofChars (cs.flatMap escape)) (Bytes.ofChars cs) := by
  induction cs with
  | nil => exact .nil
  | cons c cs ih =>
    rw [List.flatMap_cons, Bytes.ofChars_append, Bytes.ofChars_cons]
    exact (stands_escape c).append ih

/-- What stands between the quotes of a string. -/
def inside (s : String) : Bytes := Bytes.ofChars (s.toList.flatMap escape)

theorem ofChars_encode (s : String) : Bytes.ofChars (encode s) = 34 :: (inside s ++ [34]) := by
  rw [encode, Bytes.ofChars_cons, Bytes.ofChars_append]
  rfl

/-- **Quotes.** A quoted string is split off at its closing quote, whatever follows. -/
theorem scan?_inside (s : String) (rest : Bytes) : scan? (inside s ++ 34 :: rest) = some (inside s, rest) := by
  rw [inside, (stands_inside s.toList).scan, scan?, Option.map_some, List.append_nil]

/-- **Escapes.** What stands between the quotes is evaluated to the string. -/
theorem decode?_inside (s : String) : decode? (inside s) = some s := by
  have h := (stands_inside s.toList).evaluate []
  rw [List.append_nil, evaluate?, Option.map_some, List.append_nil, ← Bytes.ofString_eq_ofChars] at h
  rw [decode?, inside, h]
  exact Bytes.toString?_ofString s

end Quoted

end DocMesh
