/-
# Addresses that are shown and read back

The text of an address is what a peer is stored with, and what is read again when it is called. A host with a colon in
it is shown in brackets, and any other as it is; where an address is read, one pair of brackets around the host is
taken off, whatever is in it. So an address is read back as it was unless its host has brackets and no colon in them,
and such a host is read where there are two pairs of brackets around it.

Main statements:

* `splitLastColon?_eq_some_iff`, `unbracket_eq_iff` : host and port in the text of an address;
* `port?_toDigits` : a port is read back;
* `parseChars?_eq_some_iff` : when a text is an address, and which one;
* `parse?_text_of_mem`, `parse?_text_of_not_mem` : what the text of any address is read as;
* `parse?_text_eq_some_iff` : the addresses that are read back.
-/
import DocMesh.Peer.Address
import Mathlib.Data.List.Basic

namespace DocMesh

/-! ## Decimal digits -/

namespace DecimalNumeral

variable {cs : List Char} {n limit : Nat}

theorem digit?_of_isDigit {c : Char} (h : c.isDigit) : digit? c = some (c.toNat - 48) := by
  have hc : '0' ≤ c ∧ c ≤ '9' := by simpa [Char.isDigit, Char.le_def] using h
  rw [digit?, if_pos hc]

theorem digits?_of_isDigit (h : ∀ c ∈ cs, c.isDigit) (n : Nat) : digits? n cs = some (Nat.ofDigitChars 10 cs n) := by
  induction cs generalizing n with
  | nil => rfl
  | cons c cs ih =>
    obtain ⟨hc, hcs⟩ := List.forall_mem_cons.1 h
    rw [digits?, digit?_of_isDigit hc]
    exact ih hcs _

/-- A number is read from its digits. -/
theorem natural?_toDigits (n : Nat) : natural? (Nat.toDigits 10 n) = some n := by
  have hdigits : ∀ c ∈ Nat.toDigits 10 n, c.isDigit := fun c hc =>
    Nat.isDigit_of_mem_toDigits (by decide) (by decide) hc
  have hvalue : digits? 0 (Nat.toDigits 10 n) = some n := by
    rw [digits?_of_isDigit hdigits, Nat.ofDigitChars_ten_toDigits]
  obtain ⟨c, cs, hcs⟩ := List.exists_cons_of_ne_nil (Nat.toDigits_ne_nil (n := n) (b := 10))
  rw [hcs] at hdigits hvalue ⊢
  have hplus : c ≠ '+' := by
    rintro rfl
    exact absurd (hdigits '+' List.mem_cons_self) (by decide)
  rw [natural?, unsigned?, hvalue]
  · exact List.cons_ne_nil c cs
  · rintro cs' heq
    exact hplus (List.cons.inj heq).1

theorem below?_toDigits (h : n < limit) : below? limit (Nat.toDigits 10 n) = some n := by
  rw [below?, natural?_toDigits]
  exact if_pos h

end DecimalNumeral

namespace Address

variable {cs front port : List Char} {a : Address}

/-! ## Host and port -/

/-- The last colon is the one with no colon behind it. -/
theorem splitLastColon?_eq_some_iff :
    splitLastColon? cs = some (front, port) ↔ cs = front ++ ':' :: port ∧ ':' ∉ port := by
  constructor
  · intro h
    rw [splitLastColon?] at h
    split at h
    · rename_i c rest hrest
      cases h
      have hc : c = ':' := by
        have hhead := List.head_dropWhile_not (· != ':') (l := cs.reverse) (by simp [hrest])
        simpa [hrest] using hhead
      constructor
      · have hcs := List.takeWhile_append_dropWhile (p := (· != ':')) (l := cs.reverse)
        rw [hrest, hc] at hcs
        simpa using (congrArg List.reverse hcs).symm
      · intro hmem
        have hall := List.all_takeWhile (p := (· != ':')) (l := cs.reverse)
        rw [List.all_eq_true] at hall
        simpa using hall ':' (List.mem_reverse.1 hmem)
    · cases h
  · rintro ⟨rfl, hport⟩
    have hall : ∀ c ∈ port.reverse, (c != ':') = true := by
      intro c hc
      rw [bne_iff_ne]
      rintro rfl
      exact hport (List.mem_reverse.1 hc)
    have hreverse : (front ++ ':' :: port).reverse = port.reverse ++ ':' :: front.reverse := by simp
    rw [splitLastColon?, hreverse, List.takeWhile_append_of_pos hall, List.dropWhile_append_of_pos hall]
    simp

/-- A text in brackets. -/
def bracketed (cs : List Char) : List Char := '[' :: (cs ++ [']'])

@[simp] theorem unbracket_bracketed (cs : List Char) : unbracket (bracketed cs) = cs := by
  simp [unbracket, bracketed]

theorem bracketed_ne (cs : List Char) : bracketed cs ≠ cs := by
  intro h
  have hlength := congrArg List.length h
  simp only [bracketed, List.length_cons, List.length_append, List.length_nil] at hlength
  omega

/-- Only a pair of brackets around the whole text is taken off. -/
theorem unbracket_of_ne (h : ∀ inner, cs ≠ bracketed inner) : unbracket cs = cs := by
  unfold unbracket
  split
  · rename_i rest
    split_ifs with hlast
    · obtain ⟨inner, rfl⟩ : ∃ inner, rest = inner ++ [']'] := ⟨_, (List.dropLast_append_getLast? ']' hlast).symm⟩
      exact absurd rfl (h inner)
    · rfl
  · rfl

theorem unbracket_eq_iff :
    unbracket front = cs ↔ front = bracketed cs ∨ front = cs ∧ ∀ inner, cs ≠ bracketed inner := by
  by_cases h : ∃ inner, front = bracketed inner
  · obtain ⟨inner, rfl⟩ := h
    rw [unbracket_bracketed]
    constructor
    · rintro rfl
      exact Or.inl rfl
    · rintro (heq | ⟨rfl, hne⟩)
      · simpa [bracketed] using heq
      · exact absurd rfl (hne inner)
  · rw [not_exists] at h
    rw [unbracket_of_ne h]
    constructor
    · rintro rfl
      exact Or.inr ⟨rfl, h⟩
    · rintro (heq | ⟨heq, -⟩)
      · exact absurd heq (h cs)
      · exact heq

/-- A port is read from its digits. -/
theorem port?_toDigits (p : UInt16) : port? (Nat.toDigits 10 p.toNat) = some p := by
  rw [port?, DecimalNumeral.below?_toDigits p.toNat_lt, Option.map_some, UInt16.ofNat_toNat]

/-! ## Reading -/

/-- What a text with a last colon is read as. -/
theorem parseChars?_append (front : List Char) (h : ':' ∉ port) :
    parseChars? (front ++ ':' :: port) =
      if unbracket front = [] ∨ ':' ∈ unbracket front ∧ front.head? ≠ some '[' then none
      else (port? port).map (⟨String.ofList (unbracket front), ·⟩) := by
  have hsplit : splitLastColon? (front ++ ':' :: port) = some (front, port) :=
    splitLastColon?_eq_some_iff.2 ⟨rfl, h⟩
  rw [parseChars?, hsplit]
  cases front with
  | nil => simp [unbracket]
  | cons c front => simp

/-- **When a text is an address**, and which one. -/
theorem parseChars?_eq_some_iff :
    parseChars? cs = some a ↔
      ∃ front port, cs = front ++ ':' :: port ∧ ':' ∉ port ∧ unbracket front = a.host.toList ∧
        a.host.toList ≠ [] ∧ (':' ∈ a.host.toList → front.head? = some '[') ∧ port? port = some a.port := by
  constructor
  · intro h
    rcases hsplit : splitLastColon? cs with _ | ⟨front, port⟩
    · rw [parseChars?, hsplit] at h
      cases h
    · obtain ⟨rfl, hport⟩ := splitLastColon?_eq_some_iff.1 hsplit
      rw [parseChars?_append front hport] at h
      split_ifs at h with hbad
      obtain ⟨p, hp, rfl⟩ := Option.map_eq_some_iff.1 h
      rw [not_or, not_and_not_right] at hbad
      exact ⟨front, port, rfl, hport, String.toList_ofList.symm, by simpa using hbad.1, by simpa using hbad.2, hp⟩
  · rintro ⟨front, port, rfl, hport, hhost, hne, hcolon, hp⟩
    rw [parseChars?_append front hport, hhost, hp, if_neg]
    · simp
    · rintro (hnil | ⟨hmem, hhead⟩)
      · exact hne hnil
      · exact hhead (hcolon hmem)

/-! ## Writing and reading again -/

theorem toList_text (a : Address) :
    a.text.toList =
      (if ':' ∈ a.host.toList then bracketed a.host.toList else a.host.toList) ++
        ':' :: Nat.toDigits 10 a.port.toNat := by
  by_cases h : ':' ∈ a.host.toList <;> simp [text, h, bracketed]

theorem colon_notMem_toDigits (n : Nat) : ':' ∉ Nat.toDigits 10 n := by
  intro h
  exact absurd (Nat.isDigit_of_mem_toDigits (by decide) (by decide) h) (by decide)

/-- An address with a colon in its host is read back. -/
theorem parse?_text_of_mem (h : ':' ∈ a.host.toList) : parse? a.text = some a := by
  rw [parse?, toList_text, if_pos h, parseChars?_eq_some_iff]
  refine ⟨bracketed a.host.toList, _, rfl, colon_notMem_toDigits _, unbracket_bracketed _, ?_, ?_,
    port?_toDigits a.port⟩
  · exact List.ne_nil_of_mem h
  · intro _
    rfl

/-- Of an address without a colon in its host the host is read back without a pair of brackets. -/
theorem parse?_text_of_not_mem (h : ':' ∉ a.host.toList) :
    parse? a.text =
      if unbracket a.host.toList = [] then none else some ⟨String.ofList (unbracket a.host.toList), a.port⟩ := by
  have hmem : ':' ∉ unbracket a.host.toList := by
    by_cases hinner : ∃ inner, a.host.toList = bracketed inner
    · obtain ⟨inner, hinner⟩ := hinner
      rw [hinner, unbracket_bracketed]
      rw [hinner] at h
      intro hcolon
      exact h (List.mem_cons_of_mem _ (List.mem_append_left _ hcolon))
    · rwa [unbracket_of_ne (not_exists.1 hinner)]
  rw [parse?, toList_text, if_neg h, parseChars?_append _ (colon_notMem_toDigits _), port?_toDigits]
  simp [hmem]

/-- The host of the text stands in two pairs of brackets, and there is no colon in it. -/
def TwiceBracketed (s : String) : Prop :=
  ∃ inner port, s.toList = bracketed (bracketed inner) ++ ':' :: port ∧ ':' ∉ inner ∧ ':' ∉ port

/-- What stands in the inner pair of brackets, and no colon, is read as a host with brackets. -/
theorem host_of_bracketed_bracketed {s : String} {inner : List Char} (h : parse? s = some a)
    (hs : s.toList = bracketed (bracketed inner) ++ ':' :: port) (hport : ':' ∉ port) :
    a.host.toList = bracketed inner := by
  obtain ⟨front, port', hfront, hport', hhost, -⟩ := parseChars?_eq_some_iff.1 h
  have hsplit := splitLastColon?_eq_some_iff.2 ⟨hfront, hport'⟩
  rw [splitLastColon?_eq_some_iff.2 ⟨hs, hport⟩] at hsplit
  cases hsplit
  rw [← hhost, unbracket_bracketed]

/-- A host with brackets and no colon stood in two pairs of brackets. -/
theorem twiceBracketed_iff {s : String} (h : parse? s = some a) :
    TwiceBracketed s ↔ ':' ∉ a.host.toList ∧ ∃ inner, a.host.toList = bracketed inner := by
  constructor
  · rintro ⟨inner, port, hs, hinner, hport⟩
    have hhost := host_of_bracketed_bracketed h hs hport
    exact ⟨by simpa [hhost, bracketed] using hinner, inner, hhost⟩
  · rintro ⟨hcolon, inner, hinner⟩
    obtain ⟨front, port, hs, hport, hhost, -⟩ := parseChars?_eq_some_iff.1 h
    rcases unbracket_eq_iff.1 hhost with rfl | ⟨-, hne⟩
    · refine ⟨inner, port, by rw [hs, hinner], ?_, hport⟩
      intro hmem
      rw [hinner] at hcolon
      exact hcolon (List.mem_cons_of_mem _ (List.mem_append_left _ hmem))
    · exact absurd hinner (hne inner)

/-- **The addresses that are read back** are those whose host is not in two pairs of brackets without a colon. -/
theorem parse?_text_eq_some_iff {s : String} (h : parse? s = some a) :
    parse? a.text = some a ↔ ¬ TwiceBracketed s := by
  rw [twiceBracketed_iff h]
  by_cases hcolon : ':' ∈ a.host.toList
  · simp [parse?_text_of_mem hcolon, hcolon]
  · rw [parse?_text_of_not_mem hcolon]
    by_cases hinner : ∃ inner, a.host.toList = bracketed inner
    · obtain ⟨inner, hinner⟩ := hinner
      refine iff_of_false ?_ (not_not_intro ⟨hcolon, inner, hinner⟩)
      -- the pair of brackets that is taken off makes another host of it
      rw [hinner, unbracket_bracketed]
      intro heq
      split_ifs at heq
      have hhost : a.host.toList = inner := by rw [← Option.some.inj heq, String.toList_ofList]
      exact bracketed_ne inner (hinner.symm.trans hhost)
    · obtain ⟨-, -, -, -, -, hne, -⟩ := parseChars?_eq_some_iff.1 h
      rw [unbracket_of_ne (not_exists.1 hinner), if_neg hne]
      simp [hinner]

/-- A host in two pairs of brackets without a colon is read back without any. -/
theorem parse?_text_of_bracketed_bracketed {s : String} {inner : List Char} (h : parse? s = some a)
    (hs : s.toList = bracketed (bracketed inner) ++ ':' :: port) (hinner : ':' ∉ inner) (hport : ':' ∉ port) :
    parse? a.text = if inner = [] then none else some ⟨String.ofList inner, a.port⟩ := by
  have hhost := host_of_bracketed_bracketed h hs hport
  have hcolon : ':' ∉ a.host.toList := by simpa [hhost, bracketed] using hinner
  rw [parse?_text_of_not_mem hcolon, hhost, unbracket_bracketed]

end Address

end DocMesh
