/-
# Numbers are read back

The text of a number keeps to the grammar of JSON, so that it is read whole and nothing behind it is read with it.
An integer in range is read back. What a floating-point number is read back as is up to the arithmetic that
evaluates it; its text, in whichever of the four layouts, is always split off as one number.

Main statements:

* `Raw.numeral?_chars` : a number that is spelled properly is split off, with its parts;
* `JsonNumber.value?_integer` : an integer in range has the value that it was written for;
* `JsonNumber.toList_text`, `JsonNumber.proper_spelling` : the text of any number is spelled properly;
* `JsonNumber.numeral?_text` : so it is split off from whatever can follow a value.
-/
import DocMesh.Json.Printer
import DocMesh.Json.Reader
import DocMesh.Proofs.Json.Quoted
import Mathlib.Data.List.Basic

namespace DocMesh

/-! ## Digits -/

namespace Bytes

variable {c : Char} {cs : List Char}

theorem toNat_of_isDigit (h : c.isDigit) : 48 ≤ c.toNat ∧ c.toNat ≤ 57 := by
  simpa [Char.isDigit, UInt32.le_iff_toNat_le] using h

theorem ofChars_cons_of_isDigit (h : c.isDigit) (cs : List Char) :
    ofChars (c :: cs) = UInt8.ofNat c.toNat :: ofChars cs := by
  have hc := toNat_of_isDigit h
  rw [ofChars_cons, utf8EncodeChar_of_lt (by omega)]
  rfl

/-- Digits are written one byte each. -/
theorem ofChars_digits (h : ∀ c ∈ cs, c.isDigit) : ofChars cs = cs.map fun c => UInt8.ofNat c.toNat := by
  induction cs with
  | nil => rfl
  | cons c cs ih =>
    rw [ofChars_cons_of_isDigit (h c List.mem_cons_self), ih fun c hc => h c (List.mem_cons_of_mem _ hc)]
    rfl

theorem toNat_ofNat_digit (h : c.isDigit) : (UInt8.ofNat c.toNat).toNat = c.toNat := by
  have hc := toNat_of_isDigit h
  rw [UInt8.toNat_ofNat', Nat.mod_eq_of_lt (by omega)]

theorem isDigit_of_mem_ofChars (h : ∀ c ∈ cs, c.isDigit) : ∀ b ∈ ofChars cs, Raw.isDigit b := by
  rw [ofChars_digits h]
  intro b hb
  obtain ⟨c, hc, rfl⟩ := List.mem_map.1 hb
  have hbounds := toNat_of_isDigit (h c hc)
  rw [Raw.isDigit, Bool.and_eq_true, decide_eq_true_iff, decide_eq_true_iff, UInt8.le_iff_toNat_le,
    UInt8.le_iff_toNat_le, toNat_ofNat_digit (h c hc)]
  exact hbounds

end Bytes

/-! ## Spelling -/

namespace Raw

variable {ds : List Char} {rest : Bytes}

/-- May this follow a value in a compact text? It is nothing, or it starts with a comma or a closing bracket. -/
def Ends (rest : Bytes) : Prop := ∀ b ∈ rest.head?, b = 44 ∨ b = 93 ∨ b = 125

/-- A number as it is spelled. -/
structure Spelling where
  /-- Is there a minus sign? -/
  negative : Bool
  /-- The digits in front of the point. -/
  whole : List Char
  /-- The digits behind the point. Without any there is no point. -/
  fraction : List Char := []
  /-- The sign and the digits of the exponent. -/
  exponent : Option (Bool × List Char) := none

namespace Spelling

/-- The point and the digits behind it. -/
def fractionChars (p : Spelling) : List Char := if p.fraction = [] then [] else '.' :: p.fraction

/-- The exponent with its sign. -/
def exponentChars (p : Spelling) : List Char :=
  match p.exponent with
  | none => []
  | some (negative, ds) => 'e' :: (if negative then '-' else '+') :: ds

/-- The number as it stands in a text. -/
def chars (p : Spelling) : List Char :=
  (if p.negative then ['-'] else []) ++ (p.whole ++ (p.fractionChars ++ p.exponentChars))

/-- The parts of the number. -/
def numeral (p : Spelling) : Numeral :=
  ⟨p.negative, .ofChars p.whole, .ofChars p.fraction,
    p.exponent.map fun (negative, ds) => exponentValue negative (.ofChars ds)⟩

/-- Does the number keep to the grammar? -/
structure Proper (p : Spelling) : Prop where
  whole_ne_nil : p.whole ≠ []
  whole_digits : ∀ c ∈ p.whole, c.isDigit
  /-- A zero at the front stands alone. -/
  front : p.whole.head? = some '0' → p.whole.length = 1
  fraction_digits : ∀ c ∈ p.fraction, c.isDigit
  exponent_digits : ∀ e ∈ p.exponent, e.2 ≠ [] ∧ ∀ c ∈ e.2, c.isDigit

theorem Proper.exists_cons {p : Spelling} (h : p.Proper) : ∃ c cs, p.whole = c :: cs ∧ c.isDigit := by
  cases hwhole : p.whole with
  | nil => exact absurd hwhole h.whole_ne_nil
  | cons c cs => exact ⟨c, cs, rfl, h.whole_digits c (hwhole ▸ List.mem_cons_self)⟩

theorem Proper.head?_eq_zero {p : Spelling} (h : p.Proper)
    (hzero : (p.whole.map fun c => UInt8.ofNat c.toNat).head? = some 48) : p.whole.head? = some '0' := by
  obtain ⟨c, cs, hwhole, hc⟩ := h.exists_cons
  rw [hwhole] at hzero ⊢
  have hbyte : UInt8.ofNat c.toNat = 48 := Option.some.inj hzero
  have hcode : c.toNat = 48 := by
    rw [← Bytes.toNat_ofNat_digit hc, hbyte]
    rfl
  rw [← Char.ofNat_toNat c, hcode]
  rfl

end Spelling

theorem isDigit_eq_false_of_ends (hrest : Ends rest) : ∀ b ∈ rest.head?, isDigit b = false := by
  intro b hb
  rcases hrest b hb with rfl | rfl | rfl <;> rfl

/-- Digits are split off from what does not start with a digit. -/
theorem digits?_append (hne : ds ≠ []) (hds : ∀ c ∈ ds, c.isDigit)
    (hrest : ∀ b ∈ rest.head?, isDigit b = false) :
    digits? (.ofChars ds ++ rest) = some (.ofChars ds, rest) := by
  have hstop : rest.takeWhile isDigit = [] ∧ rest.dropWhile isDigit = rest := by
    cases rest with
    | nil => exact ⟨rfl, rfl⟩
    | cons b rest =>
      have hb := hrest b rfl
      rw [List.takeWhile_cons, List.dropWhile_cons, hb]
      exact ⟨rfl, rfl⟩
  have hall := Bytes.isDigit_of_mem_ofChars hds
  rw [digits?, List.takeWhile_append_of_pos hall, List.dropWhile_append_of_pos hall, hstop.1, hstop.2,
    List.append_nil]
  refine if_neg fun hempty => hne ?_
  rw [List.isEmpty_iff, Bytes.ofChars_digits hds, List.map_eq_nil_iff] at hempty
  exact hempty

/-- An exponent, or what follows without one, starts with neither a digit nor a point. -/
theorem head?_exponentChars (p : Spelling) (hrest : Ends rest) :
    ∀ b ∈ (.ofChars p.exponentChars ++ rest).head?, isDigit b = false ∧ b ≠ 46 := by
  rw [Spelling.exponentChars]
  rcases p.exponent with _ | ⟨negative, ds⟩
  · intro b hb
    rcases hrest b hb with rfl | rfl | rfl <;> exact ⟨rfl, by decide⟩
  · intro b hb
    cases hb
    exact ⟨rfl, by decide⟩

theorem head?_fractionChars (p : Spelling) (hrest : ∀ b ∈ rest.head?, isDigit b = false) :
    ∀ b ∈ (.ofChars p.fractionChars ++ rest).head?, isDigit b = false := by
  rw [Spelling.fractionChars]
  split
  · exact hrest
  · intro b hb
    cases hb
    rfl

theorem exponent?_append {p : Spelling} (h : p.Proper) (hrest : Ends rest) :
    exponent? (.ofChars p.exponentChars ++ rest) = some (p.numeral.exponent, rest) := by
  rw [Spelling.exponentChars, Spelling.numeral]
  rcases hexponent : p.exponent with _ | ⟨negative, ds⟩
  · cases rest with
    | nil => rfl
    | cons b rest => rcases hrest b rfl with rfl | rfl | rfl <;> rfl
  · obtain ⟨hne, hds⟩ := h.exponent_digits _ hexponent
    have hsplit := digits?_append hne hds (isDigit_eq_false_of_ends hrest)
    cases negative with
    | false =>
      show (digits? (.ofChars ds ++ rest)).map _ = _
      rw [hsplit]
      rfl
    | true =>
      show (digits? (.ofChars ds ++ rest)).map _ = _
      rw [hsplit]
      rfl

theorem fraction?_append {p : Spelling} (h : p.Proper)
    (hrest : ∀ b ∈ rest.head?, isDigit b = false ∧ b ≠ 46) :
    fraction? (.ofChars p.fractionChars ++ rest) = some (.ofChars p.fraction, rest) := by
  rw [Spelling.fractionChars]
  split
  · rename_i hnil
    rw [Bytes.ofChars_nil, List.nil_append, fraction?, hnil]
    · rfl
    · rintro rest rfl
      exact (hrest 46 rfl).2 rfl
  · rename_i hne
    exact digits?_append hne h.fraction_digits fun b hb => (hrest b hb).1

theorem unsigned?_append {p : Spelling} (h : p.Proper) (hrest : Ends rest) :
    unsigned? p.negative (.ofChars (p.whole ++ (p.fractionChars ++ p.exponentChars)) ++ rest)
      = some (p.numeral, rest) := by
  have hexponent := head?_exponentChars p hrest
  have hfraction := head?_fractionChars p fun b hb => (hexponent b hb).1
  have hfront : ¬ ((1 < (Bytes.ofChars p.whole).length && (Bytes.ofChars p.whole).head? == some 48) = true) := by
    rw [Bool.and_eq_true, decide_eq_true_iff, beq_iff_eq, Bytes.ofChars_digits h.whole_digits, List.length_map]
    rintro ⟨hlength, hzero⟩
    exact Nat.ne_of_gt hlength (h.front (h.head?_eq_zero hzero))
  rw [Bytes.ofChars_append, Bytes.ofChars_append, List.append_assoc, List.append_assoc, unsigned?,
    digits?_append h.whole_ne_nil h.whole_digits hfraction]
  show (if _ then none else (fraction? _).bind _) = _
  rw [if_neg hfront, fraction?_append h hexponent]
  show (exponent? _).bind _ = _
  rw [exponent?_append h hrest]
  rfl

/-- **Grammar.** A number that is spelled properly is split off, with its parts. -/
theorem numeral?_chars {p : Spelling} (h : p.Proper) (hrest : Ends rest) :
    numeral? (.ofChars p.chars ++ rest) = some (p.numeral, rest) := by
  rw [← unsigned?_append h hrest, Spelling.chars]
  cases hnegative : p.negative with
  | true => rfl
  | false =>
    rw [if_neg Bool.false_ne_true, List.nil_append, numeral?]
    -- a digit is no minus sign
    intro s hs
    obtain ⟨c, cs, hwhole, hc⟩ := h.exists_cons
    rw [hwhole, List.cons_append, Bytes.ofChars_cons_of_isDigit hc] at hs
    injection hs with hminus
    have hbounds := Bytes.toNat_of_isDigit hc
    rw [← Bytes.toNat_ofNat_digit hc, hminus] at hbounds
    exact absurd hbounds.1 (by decide)

end Raw

/-! ## Digits of natural numbers -/

theorem digitChar_ne_zero : ∀ n < 10, n ≠ 0 → Nat.digitChar n ≠ '0' := by decide

/-- The digits of a positive number do not start with a zero. -/
theorem head?_toDigits_ne {n : Nat} (h : n ≠ 0) : (Nat.toDigits 10 n).head? ≠ some '0' := by
  induction n using Nat.strongRecOn with
  | ind n ih =>
    by_cases hn : n < 10
    · rw [Nat.toDigits_of_lt_base hn]
      intro hzero
      exact digitChar_ne_zero n hn h (Option.some.inj hzero)
    · rw [Nat.toDigits_of_base_le (by decide) (Nat.not_lt.1 hn), List.head?_append_of_ne_nil _ Nat.toDigits_ne_nil]
      exact ih (n / 10) (by omega) (by omega)

theorem isDigit_of_mem_toDigits {n : Nat} : ∀ c ∈ Nat.toDigits 10 n, c.isDigit := by
  intro c hc
  exact Nat.isDigit_of_mem_toDigits (by decide) (by decide) hc

namespace Decimal

theorem le_foldl_digits (n : Nat) (ds : List Nat) : n ≤ ds.foldl (fun n d => 10 * n + d) n := by
  induction ds generalizing n with
  | nil => exact Nat.le_refl n
  | cons d ds ih => exact Nat.le_trans (by omega) (ih (10 * n + d))

/-- Digits that make a number below 2 ^ 64 all fit. -/
theorem extend_eq {n : Nat} {ds : List Nat} (h : ds.foldl (fun n d => 10 * n + d) n < UInt64.size) :
    extend n ds = (ds.foldl (fun n d => 10 * n + d) n, []) := by
  induction ds generalizing n with
  | nil => rfl
  | cons d ds ih =>
    have hfits : 10 * n + d < UInt64.size := Nat.lt_of_le_of_lt (le_foldl_digits (10 * n + d) ds) h
    rw [extend, if_pos hfits]
    exact ih h

/-- The digits of a number have its value. -/
theorem foldl_digitValue_toDigits (n : Nat) :
    ((Bytes.ofChars (Nat.toDigits 10 n)).map Raw.digitValue).foldl (fun n d => 10 * n + d) 0 = n := by
  have hvalues := Nat.ofDigitChars_ten_toDigits (n := n)
  rw [Nat.ofDigitChars] at hvalues
  rw [Bytes.ofChars_digits isDigit_of_mem_toDigits, List.map_map, List.foldl_map]
  refine Eq.trans (List.foldl_ext _ _ 0 fun m c hc => ?_) hvalues
  rw [Function.comp_apply, Raw.digitValue, Bytes.toNat_ofNat_digit (isDigit_of_mem_toDigits c hc)]
  rfl

theorem ofDigits_toDigits {n : Nat} (h : n < UInt64.size) :
    ofDigits ((Bytes.ofChars (Nat.toDigits 10 n)).map Raw.digitValue) [] = ⟨n, 0⟩ := by
  rw [ofDigits, extend_eq]
  · rw [foldl_digitValue_toDigits]
    rfl
  · rw [foldl_digitValue_toDigits]
    exact h

end Decimal

/-! ## Integers -/

namespace JsonNumber

open Raw (Spelling)

/-- An integer as it is spelled. -/
def integerSpelling (n : Int) : Spelling := { negative := n < 0, whole := Nat.toDigits 10 n.natAbs }

theorem toList_toString (n : Int) : (toString n).toList = (integerSpelling n).chars := by
  cases n with
  | ofNat m =>
    have hsign : decide (Int.ofNat m < 0) = false := decide_eq_false (Int.not_lt.2 (Int.natCast_nonneg m))
    rw [integerSpelling, hsign]
    show (toString m).toList = Nat.toDigits 10 m ++ []
    rw [Nat.toString_eq_ofList_toDigits, String.toList_ofList, List.append_nil]
  | negSucc m =>
    have hsign : decide (Int.negSucc m < 0) = true := decide_eq_true (Int.negSucc_lt_zero m)
    rw [integerSpelling, hsign]
    show ("-" ++ toString (m + 1)).toList = '-' :: (Nat.toDigits 10 (m + 1) ++ [])
    simp only [String.toList_append, Nat.toString_eq_ofList_toDigits, String.toList_ofList, List.append_nil]
    rfl

theorem proper_integerSpelling (n : Int) : (integerSpelling n).Proper where
  whole_ne_nil := Nat.toDigits_ne_nil
  whole_digits := isDigit_of_mem_toDigits
  front := by
    intro hzero
    by_cases hn : n.natAbs = 0
    · rw [integerSpelling, hn]
      rfl
    · exact absurd hzero (head?_toDigits_ne hn)
  fraction_digits := fun _ hc => nomatch hc
  exponent_digits := fun _ he => nomatch he

theorem natAbs_lt_of_inRange {n : Int} (h : inRange n) : n.natAbs < UInt64.size := by
  rw [inRange, Bool.and_eq_true, decide_eq_true_iff, decide_eq_true_iff,
    show Int64.minValue.toInt = -9223372036854775808 from rfl] at h
  rw [show UInt64.size = 18446744073709551616 from rfl] at h ⊢
  omega

theorem decimal_integerSpelling {n : Int} (h : inRange n) :
    (integerSpelling n).numeral.decimal = ⟨n.natAbs, 0⟩ := by
  rw [Numeral.decimal]
  show (Decimal.ofDigits ((Bytes.ofChars (Nat.toDigits 10 n.natAbs)).map Raw.digitValue) []).shift 0 = _
  rw [Decimal.ofDigits_toDigits (natAbs_lt_of_inRange h)]
  rfl

/-- **Integers.** An integer in range has the value that it was written for. -/
theorem value?_integer {n : Int} (h : inRange n) : (integerSpelling n).numeral.value? = some (.integer n) := by
  have hsigned : (if decide (n < 0) = true then -(n.natAbs : Int) else n.natAbs) = n := by
    by_cases hn : n < 0
    · rw [if_pos (decide_eq_true hn)]
      omega
    · rw [if_neg (fun hd => hn (of_decide_eq_true hd))]
      omega
  have hzero : (decide (n < 0) && n.natAbs == 0) = false := by
    by_cases hn : n < 0
    · rw [decide_eq_true hn, Bool.true_and]
      exact beq_false_of_ne (by omega)
    · rw [decide_eq_false hn, Bool.false_and]
  rw [Numeral.value?, decimal_integerSpelling h]
  show (if (true && true && inRange (if decide (n < 0) = true then -(n.natAbs : Int) else n.natAbs) &&
    !(decide (n < 0) && n.natAbs == 0)) = true then _ else _) = _
  rw [hsigned, hzero, h]
  show some (integer (if decide (n < 0) = true then -(n.natAbs : Int) else n.natAbs)) = _
  rw [hsigned]

end JsonNumber

/-! ## Floating-point numbers -/

namespace Decimal

open Raw (Spelling)

variable {d : Decimal} {rank : Nat}

/-- A decimal notation as it is spelled: without point or with one behind its digits, among them or in front of them,
or else with an exponent. -/
def spelling (d : Decimal) : Spelling :=
  let ds := Nat.toDigits 10 d.digits
  let point : Int := ds.length + d.scale
  if 0 ≤ d.scale ∧ point ≤ Json.realLayout.integerDigits then
    ⟨false, ds ++ List.replicate d.scale.toNat '0', ['0'], none⟩
  else if 0 < point ∧ point ≤ Json.realLayout.integerDigits then
    ⟨false, ds.take point.toNat, ds.drop point.toNat, none⟩
  else if -Json.realLayout.leadingZeros ≤ point ∧ point ≤ 0 then
    ⟨false, ['0'], List.replicate (-point).toNat '0' ++ ds, none⟩
  else
    ⟨false, ds.take 1, ds.drop 1, some (decide (point - 1 < 0), Nat.toDigits 10 (point - 1).natAbs)⟩

theorem isDigit_of_mem_replicate {n : Nat} : ∀ c ∈ List.replicate n '0', c.isDigit := by
  intro c hc
  rw [List.eq_of_mem_replicate hc]
  rfl

/-- A whole part that starts as the digits of a positive number do is proper. -/
theorem proper_of_head {p : Spelling} (h : d.digits ≠ 0) (hhead : p.whole.head? = (Nat.toDigits 10 d.digits).head?)
    (hwhole : ∀ c ∈ p.whole, c.isDigit) (hfraction : ∀ c ∈ p.fraction, c.isDigit)
    (hexponent : ∀ e ∈ p.exponent, e.2 ≠ [] ∧ ∀ c ∈ e.2, c.isDigit) : p.Proper where
  whole_ne_nil := by
    intro hnil
    rw [hnil, List.head?_nil, eq_comm, List.head?_eq_none_iff] at hhead
    exact Nat.toDigits_ne_nil hhead
  whole_digits := hwhole
  front := fun hzero => absurd (hhead ▸ hzero) (head?_toDigits_ne h)
  fraction_digits := hfraction
  exponent_digits := hexponent

/-- In each of the layouts a positive number is spelled properly. -/
theorem proper_spelling (h : d.digits ≠ 0) : d.spelling.Proper := by
  have hdigits : ∀ c ∈ Nat.toDigits 10 d.digits, c.isDigit := isDigit_of_mem_toDigits
  have hne : Nat.toDigits 10 d.digits ≠ [] := Nat.toDigits_ne_nil
  rw [spelling]
  split
  · -- all digits in front of the point
    refine proper_of_head h ?_ ?_ ?_ ?_
    · exact List.head?_append_of_ne_nil _ hne
    · exact List.forall_mem_append.2 ⟨hdigits, isDigit_of_mem_replicate⟩
    · exact List.forall_mem_singleton.2 rfl
    · exact fun e he => nomatch he
  · split
    · -- the point among the digits
      rename_i hpoint
      refine proper_of_head h ?_ ?_ ?_ ?_
      · rw [List.head?_take, if_neg (by omega)]
      · exact fun c hc => hdigits c (List.mem_of_mem_take hc)
      · exact fun c hc => hdigits c (List.mem_of_mem_drop hc)
      · exact fun e he => nomatch he
    · split
      · -- all digits behind the point, and a zero in front of it
        refine ⟨List.cons_ne_nil _ _, List.forall_mem_singleton.2 rfl, fun _ => rfl, ?_, ?_⟩
        · exact List.forall_mem_append.2 ⟨isDigit_of_mem_replicate, hdigits⟩
        · exact fun e he => nomatch he
      · -- one digit in front of the point, and an exponent
        refine proper_of_head h ?_ ?_ ?_ ?_
        · rw [List.head?_take, if_neg Nat.one_ne_zero]
        · exact fun c hc => hdigits c (List.mem_of_mem_take hc)
        · exact fun c hc => hdigits c (List.mem_of_mem_drop hc)
        · intro e he
          cases he
          exact ⟨Nat.toDigits_ne_nil, isDigit_of_mem_toDigits⟩

@[simp] theorem negative_spelling (d : Decimal) : d.spelling.negative = false := by
  rw [spelling]
  split
  · rfl
  · split
    · rfl
    · split <;> rfl

theorem chars_point (whole : List Char) {fraction : List Char} (h : fraction ≠ []) :
    (⟨false, whole, fraction, none⟩ : Spelling).chars = whole ++ '.' :: fraction := by
  rw [Spelling.chars, Spelling.fractionChars, if_neg h, Spelling.exponentChars, List.append_nil]
  rfl

/-- An exponent has a sign in any case. -/
theorem toList_exponent (e : Int) :
    (if 0 ≤ e then Json.realLayout.exponentPlus ++ toString e else toString e).toList
      = (if e < 0 then '-' else '+') :: Nat.toDigits 10 e.natAbs := by
  have he : (toString e).toList = (if decide (e < 0) then ['-'] else []) ++ (Nat.toDigits 10 e.natAbs ++ []) :=
    JsonNumber.toList_toString e
  rw [List.append_nil] at he
  by_cases hsign : e < 0
  · rw [if_neg (Int.not_le.2 hsign), if_pos hsign, he, decide_eq_true hsign]
    rfl
  · rw [if_pos (Int.not_lt.1 hsign), if_neg hsign, String.toList_append, he, decide_eq_false hsign]
    rfl

/-- The text of a decimal notation is its spelling. -/
theorem toList_text (d : Decimal) : (d.text Json.realLayout).toList = d.spelling.chars := by
  rw [text, spelling]
  dsimp only
  split
  · rw [chars_point _ (List.cons_ne_nil _ _)]
    simp only [String.toList_append, String.toList_ofList]
    rfl
  · split
    · -- a digit is left behind the point, or the first layout would apply
      have hbehind : (Nat.toDigits 10 d.digits).drop ((Nat.toDigits 10 d.digits).length + d.scale).toNat ≠ [] := by
        rw [ne_eq, List.drop_eq_nil_iff]
        omega
      rw [chars_point _ hbehind]
      simp only [String.toList_append, String.toList_ofList, List.append_assoc]
      rfl
    · split
      · rw [chars_point _ (List.append_ne_nil_of_right_ne_nil _ Nat.toDigits_ne_nil)]
        simp only [String.toList_append, String.toList_ofList]
        rfl
      · -- a point is written only if there is more than one digit
        have hone : (Nat.toDigits 10 d.digits).length = 1 ↔ (Nat.toDigits 10 d.digits).drop 1 = [] := by
          have hpos := Nat.length_toDigits_pos (b := 10) (n := d.digits)
          rw [List.drop_eq_nil_iff]
          omega
        rw [String.toList_append, toList_exponent, String.toList_append, String.toList_append,
          String.toList_ofList, Spelling.chars, Spelling.fractionChars, Spelling.exponentChars]
        simp only [decide_eq_true_eq]
        by_cases hdrop : (Nat.toDigits 10 d.digits).drop 1 = []
        · rw [if_pos (hone.2 hdrop), if_pos hdrop]
          simp only [List.append_assoc]
          rfl
        · rw [if_neg fun h => hdrop (hone.1 h), if_neg hdrop]
          simp only [String.toList_append, String.toList_ofList, List.append_assoc]
          rfl

/-! ### The shortest notation has digits -/

theorem digits_ne_zero_of_denotes (hrank : rank ≠ 0) (h : d.denotes rank) : d.digits ≠ 0 := by
  intro hzero
  rw [denotes, Binary64.rankOfDecimal?, if_pos hzero, beq_iff_eq, Option.some.injEq] at h
  exact hrank h.symm

theorem digits_exact_ne_zero (hrank : rank ≠ 0) : (exact rank).digits ≠ 0 := by
  have hsignificand : Binary64.significand rank ≠ 0 := by
    rw [Binary64.significand, Binary64.binade]
    split <;> omega
  rw [exact]
  split
  · exact Nat.mul_ne_zero hsignificand (Nat.ne_of_gt (Nat.pow_pos (by decide)))
  · exact Nat.mul_ne_zero hsignificand (Nat.ne_of_gt (Nat.pow_pos (by decide)))

theorem denotes_of_choice {a b : Decimal}
    (h : (if a.denotes rank then some a else if b.denotes rank then some b else none) = some d) :
    d.denotes rank := by
  split at h
  · rename_i ha
    cases h
    exact ha
  · split at h
    · rename_i hb
      cases h
      exact hb
    · cases h

theorem denotes_of_neighbour? {value : Decimal} {scale : Int} (h : value.neighbour? rank scale = some d) :
    d.denotes rank :=
  denotes_of_choice h

/-- The shortest notation of a positive number has a digit that is not zero. -/
theorem digits_shortest_ne_zero (hrank : rank ≠ 0) : (shortest rank).digits ≠ 0 := by
  -- `rw` would derive an equation first, which takes long
  delta shortest
  dsimp only
  split
  · -- a notation that denotes a positive number is not zero
    rename_i d hfound
    obtain ⟨n, -, hn⟩ := List.exists_of_findSome?_eq_some hfound
    split
    · rename_i htrim
      exact digits_ne_zero_of_denotes hrank htrim
    · exact digits_ne_zero_of_denotes hrank (denotes_of_neighbour? hn)
  · exact digits_exact_ne_zero hrank

end Decimal

namespace JsonNumber

open Raw (Spelling)

/-- The absolute value of a floating-point number as it is spelled. -/
def magnitudeSpelling (rank : Nat) : Spelling :=
  if rank = 0 then ⟨false, ['0'], ['0'], none⟩ else (Decimal.shortest rank).spelling

theorem proper_magnitudeSpelling (rank : Nat) : (magnitudeSpelling rank).Proper := by
  rw [magnitudeSpelling]
  split
  · refine ⟨List.cons_ne_nil _ _, List.forall_mem_singleton.2 rfl, fun _ => rfl, List.forall_mem_singleton.2 rfl, ?_⟩
    exact fun e he => nomatch he
  · rename_i hrank
    exact Decimal.proper_spelling (Decimal.digits_shortest_ne_zero hrank)

theorem negative_magnitudeSpelling (rank : Nat) : (magnitudeSpelling rank).negative = false := by
  rw [magnitudeSpelling]
  split
  · rfl
  · exact Decimal.negative_spelling _

theorem toList_magnitude (rank : Nat) :
    (if rank = 0 then "0.0" else (Decimal.shortest rank).text Json.realLayout).toList
      = (magnitudeSpelling rank).chars := by
  rw [magnitudeSpelling]
  split
  · rfl
  · exact Decimal.toList_text _

/-- A number as it is spelled. -/
def spelling : JsonNumber → Spelling
  | integer n => integerSpelling n
  | real x => { magnitudeSpelling x.rank with negative := x.negative }

theorem proper_spelling (n : JsonNumber) : n.spelling.Proper := by
  cases n with
  | integer n => exact proper_integerSpelling n
  | real x =>
    obtain ⟨hne, hwhole, hfront, hfraction, hexponent⟩ := proper_magnitudeSpelling x.rank
    exact ⟨hne, hwhole, hfront, hfraction, hexponent⟩

/-- The text of a number is its spelling. -/
theorem toList_text (n : JsonNumber) : n.text.toList = n.spelling.chars := by
  cases n with
  | integer n => exact toList_toString n
  | real x =>
    rw [text, Binary64.text, String.toList_append, toList_magnitude, spelling, Spelling.chars, Spelling.chars,
      negative_magnitudeSpelling]
    cases x.negative <;> rfl

/-- **Numbers.** The text of a number is split off from whatever follows a value. -/
theorem numeral?_text (n : JsonNumber) {rest : Bytes} (hrest : Raw.Ends rest) :
    Raw.numeral? (Bytes.ofChars n.text.toList ++ rest) = some (n.spelling.numeral, rest) := by
  rw [toList_text]
  exact Raw.numeral?_chars n.proper_spelling hrest

end JsonNumber

end DocMesh
