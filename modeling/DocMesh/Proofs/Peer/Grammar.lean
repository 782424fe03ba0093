/-
# Which texts are addresses

An address is written as `host:port`, with a host that has no colon in it, or as `[host]:port`, with any host. A text
whose host has a colon in it is to be refused unless the host stands in brackets. Only the bracket in front is looked
for, though: a host that begins with a bracket and does not end with one is read as it is, brackets and colons
included. All other texts are refused.

Main statements:

* `natural?_eq_some_iff`, `port?_eq_some_iff` : the texts of numbers and ports;
* `parse?_eq_some_iff` : when a text is an address, and which one;
* `Unclosed.not_written` : what is read of an unclosed bracket is written in neither way;
* `accepted_iff` : the addresses that are read, those that are not written as they should be, and the refused texts;
* `unclosed_accepted` : a bracket that is not closed.
-/
import DocMesh.Peer.Basic
import DocMesh.Proofs.Peer.Address

namespace DocMesh

/-! ## Decimal digits -/

namespace DecimalNumeral

variable {cs : List Char} {n m limit : Nat}

theorem digit?_eq_none_iff {c : Char} : digit? c = none ↔ c.isDigit = false := by
  have hc : c.isDigit = true ↔ '0' ≤ c ∧ c ≤ '9' := by simp [Char.isDigit, Char.le_def]
  rw [digit?, ← Bool.not_eq_true, hc]
  split_ifs with h <;> simp [h]

/-- Digits that follow a number are read as what they make of it. -/
theorem digits?_eq_some_iff : digits? n cs = some m ↔ (∀ c ∈ cs, c.isDigit) ∧ Nat.ofDigitChars 10 cs n = m := by
  by_cases hdigits : ∀ c ∈ cs, c.isDigit
  · rw [digits?_of_isDigit hdigits, Option.some.injEq, and_iff_right hdigits]
  · refine iff_of_false ?_ fun h => hdigits h.1
    induction cs generalizing n with
    | nil => exact absurd (List.forall_mem_nil _) hdigits
    | cons c cs ih =>
      rw [digits?]
      rcases hc : digit? c with _ | d
      · simp
      · refine ih fun hcs => hdigits (List.forall_mem_cons.2 ⟨?_, hcs⟩)
        rw [← Bool.not_eq_false, ← digit?_eq_none_iff, hc]
        exact Option.some_ne_none d

theorem unsigned?_eq_some_iff :
    unsigned? cs = some n ↔ cs ≠ [] ∧ (∀ c ∈ cs, c.isDigit) ∧ Nat.ofDigitChars 10 cs 0 = n := by
  cases cs with
  | nil => simp [unsigned?]
  | cons c cs =>
    rw [unsigned?, digits?_eq_some_iff, and_iff_right (List.cons_ne_nil c cs)]
    exact List.cons_ne_nil c cs

/-- **The text of a natural number**: digits, at least one, after a plus sign or not. -/
theorem natural?_eq_some_iff :
    natural? cs = some n ↔
      ∃ digits, (cs = digits ∨ cs = '+' :: digits) ∧ digits ≠ [] ∧ (∀ c ∈ digits, c.isDigit) ∧
        Nat.ofDigitChars 10 digits 0 = n := by
  constructor
  · intro h
    unfold natural? at h
    split at h
    · rename_i digits
      exact ⟨digits, Or.inr rfl, unsigned?_eq_some_iff.1 h⟩
    · exact ⟨cs, Or.inl rfl, unsigned?_eq_some_iff.1 h⟩
  · rintro ⟨digits, rfl | rfl, hdigits⟩
    · unfold natural?
      split
      · -- a plus sign is no digit
        exact absurd (hdigits.2.1 '+' List.mem_cons_self) (by decide)
      · exact unsigned?_eq_some_iff.2 hdigits
    · exact unsigned?_eq_some_iff.2 hdigits

theorem below?_eq_some_iff : below? limit cs = some n ↔ natural? cs = some n ∧ n < limit := by
  rw [below?]
  rcases natural? cs with _ | m
  · simp
  · dsimp only
    split_ifs with hm
    · constructor
      · rintro ⟨⟩
        exact ⟨rfl, hm⟩
      · exact And.left
    · refine iff_of_false not_false ?_
      rintro ⟨⟨⟩, hlt⟩
      exact hm hlt

end DecimalNumeral

namespace Address

variable {s : String} {cs : List Char} {a : Address} {p : UInt16}

/-! ## Ports -/

/-- The text writes the port: with decimal digits, at least one, after a plus sign or not. -/
def WritesPort (text : String) (p : UInt16) : Prop :=
  ∃ digits, (text.toList = digits ∨ text.toList = '+' :: digits) ∧ digits ≠ [] ∧ (∀ c ∈ digits, c.isDigit) ∧
    Nat.ofDigitChars 10 digits 0 = p.toNat

/-- The text of a port. -/
theorem port?_eq_some_iff {text : String} : port? text.toList = some p ↔ WritesPort text p := by
  rw [port?, Option.map_eq_some_iff, WritesPort, ← DecimalNumeral.natural?_eq_some_iff]
  constructor
  · rintro ⟨n, hn, rfl⟩
    obtain ⟨hnatural, hlt⟩ := DecimalNumeral.below?_eq_some_iff.1 hn
    rwa [UInt16.toNat_ofNat_of_lt' hlt]
  · intro h
    exact ⟨p.toNat, DecimalNumeral.below?_eq_some_iff.2 ⟨h, p.toNat_lt⟩, UInt16.ofNat_toNat⟩

theorem WritesPort.colon_notMem {text : String} (h : WritesPort text p) : ':' ∉ text.toList := by
  obtain ⟨digits, htext, -, hdigits, -⟩ := h
  have hcolon : ':' ∉ digits := fun hmem => absurd (hdigits ':' hmem) (by decide)
  rcases htext with htext | htext <;> simp [htext, hcolon]

/-! ## The ways to write an address -/

/-- The text is `host:port`, and the host has no colon in it. -/
def Plain (s : String) (a : Address) : Prop :=
  ∃ port, s = a.host ++ ":" ++ port ∧ a.host ≠ "" ∧ ':' ∉ a.host.toList ∧ WritesPort port a.port

/-- The text is `[host]:port`. -/
def Enclosed (s : String) (a : Address) : Prop :=
  ∃ port, s = "[" ++ a.host ++ "]:" ++ port ∧ a.host ≠ "" ∧ WritesPort port a.port

/-- The text is `host:port`, and the host has a colon in it and begins with a bracket that is not closed at its end. -/
def Unclosed (s : String) (a : Address) : Prop :=
  ∃ port, s = a.host ++ ":" ++ port ∧ ':' ∈ a.host.toList ∧ a.host.toList.head? = some '[' ∧
    a.host.toList.getLast? ≠ some ']' ∧ WritesPort port a.port

/-- The host has brackets around it. -/
def HasBrackets (a : Address) : Prop := ∃ inner, a.host.toList = bracketed inner

/-- A text that begins with a bracket and has a colon in it stands in brackets if it ends with a bracket. -/
theorem getLast?_ne_iff (hcolon : ':' ∈ cs) (hhead : cs.head? = some '[') :
    cs.getLast? ≠ some ']' ↔ ∀ inner, cs ≠ bracketed inner := by
  constructor
  · rintro hlast inner rfl
    exact hlast (by rw [bracketed, ← List.cons_append, List.getLast?_concat])
  · intro hinner hlast
    obtain ⟨rest, rfl⟩ := List.head?_eq_some_iff.1 hhead
    rcases rest.eq_nil_or_concat' with rfl | ⟨inner, c, rfl⟩
    · simp at hcolon
    · rw [← List.cons_append, List.getLast?_concat, Option.some.injEq] at hlast
      exact hinner inner (by rw [hlast, bracketed])

/-- The text in front of the last colon, for a host that is read as it is. -/
theorem eq_append_iff {port : String} : s = a.host ++ ":" ++ port ↔ s.toList = a.host.toList ++ ':' :: port.toList := by
  rw [← String.toList_inj]
  simp

/-- The text in front of the last colon, for a host in brackets. -/
theorem eq_bracketed_append_iff {port : String} :
    s = "[" ++ a.host ++ "]:" ++ port ↔ s.toList = bracketed a.host.toList ++ ':' :: port.toList := by
  rw [← String.toList_inj]
  simp [bracketed]

/-- **When a text is an address**, and which one: it is written in one of the two ways, of which brackets count first,
or a bracket is not closed. -/
theorem parse?_eq_some_iff :
    parse? s = some a ↔ Plain s a ∧ ¬ a.HasBrackets ∨ Enclosed s a ∨ Unclosed s a := by
  rw [parse?, parseChars?_eq_some_iff]
  constructor
  · rintro ⟨front, port, hs, -, hhost, hne, hcolon, hport⟩
    have hport' : WritesPort (String.ofList port) a.port := by rwa [← port?_eq_some_iff, String.toList_ofList]
    have hne' : a.host ≠ "" := by simpa using hne
    rcases unbracket_eq_iff.1 hhost with rfl | ⟨rfl, hplain⟩
    · exact Or.inr (Or.inl ⟨_, eq_bracketed_append_iff.2 (by rw [hs, String.toList_ofList]), hne', hport'⟩)
    · have htext : s = a.host ++ ":" ++ String.ofList port := eq_append_iff.2 (by rw [hs, String.toList_ofList])
      by_cases hmem : ':' ∈ a.host.toList
      · have hhead := hcolon hmem
        exact Or.inr (Or.inr ⟨_, htext, hmem, hhead, (getLast?_ne_iff hmem hhead).2 hplain, hport'⟩)
      · exact Or.inl ⟨⟨_, htext, hne', hmem, hport'⟩, not_exists.2 hplain⟩
  · rintro (⟨⟨port, hs, hne, hmem, hport⟩, hplain⟩ | ⟨port, hs, hne, hport⟩ | ⟨port, hs, hmem, hhead, hlast, hport⟩)
    · refine ⟨a.host.toList, port.toList, eq_append_iff.1 hs, hport.colon_notMem, ?_, by simpa using hne, ?_,
        port?_eq_some_iff.2 hport⟩
      · exact unbracket_of_ne (not_exists.1 hplain)
      · intro hcolon
        exact absurd hcolon hmem
    · refine ⟨bracketed a.host.toList, port.toList, eq_bracketed_append_iff.1 hs, hport.colon_notMem,
        unbracket_bracketed _, by simpa using hne, fun _ => rfl, port?_eq_some_iff.2 hport⟩
    · refine ⟨a.host.toList, port.toList, eq_append_iff.1 hs, hport.colon_notMem, ?_, List.ne_nil_of_mem hmem,
        fun _ => hhead, port?_eq_some_iff.2 hport⟩
      exact unbracket_of_ne ((getLast?_ne_iff hmem hhead).1 hlast)

/-- What is read of an unclosed bracket is written in neither way. -/
theorem Unclosed.not_written (h : Unclosed s a) : ¬ (Plain s a ∨ Enclosed s a) := by
  obtain ⟨port, hs, hmem, hhead, hlast, hport⟩ := h
  rintro (⟨_, -, -, hnot, -⟩ | ⟨port', hs', -, hport'⟩)
  · exact hnot hmem
  · -- the last colon is at one place of the text, and the host in front of it has an end or has not
    have hsplit := splitLastColon?_eq_some_iff.2 ⟨eq_append_iff.1 hs, hport.colon_notMem⟩
    rw [splitLastColon?_eq_some_iff.2 ⟨eq_bracketed_append_iff.1 hs', hport'.colon_notMem⟩] at hsplit
    exact bracketed_ne _ (Prod.mk.inj (Option.some.inj hsplit)).1

/-- **The texts that are addresses.** A text is read as an address exactly if it is `host:port` with a host without a
colon, or `[host]:port`, where brackets around the whole host are not part of it, or if its host has a colon in it and
begins with a bracket that is not closed at its end. What is read is written in neither of the two ways exactly in
this last case. Every other text is refused as an address of a peer. -/
theorem accepted_iff (s : String) :
    (∀ a, parse? s = some a ↔ Plain s a ∧ ¬ a.HasBrackets ∨ Enclosed s a ∨ Unclosed s a) ∧
      (∀ a, parse? s = some a ∧ ¬ (Plain s a ∨ Enclosed s a) ↔ Unclosed s a) ∧
      ∀ id seen kind, Peer.endpoint ⟨id, s, seen, kind⟩ = .error (.invalidAddress s) ↔
        ∀ a, ¬ (Plain s a ∧ ¬ a.HasBrackets ∨ Enclosed s a ∨ Unclosed s a) := by
  refine ⟨fun a => parse?_eq_some_iff, ?_, ?_⟩
  · intro a
    rw [parse?_eq_some_iff]
    constructor
    · rintro ⟨(⟨hplain, -⟩ | henclosed | hunclosed), hnot⟩
      · exact absurd (Or.inl hplain) hnot
      · exact absurd (Or.inr henclosed) hnot
      · exact hunclosed
    · intro hunclosed
      exact ⟨Or.inr (Or.inr hunclosed), hunclosed.not_written⟩
  · intro id seen kind
    simp only [← parse?_eq_some_iff]
    rw [Peer.endpoint]
    rcases parse? s with _ | a
    · exact iff_of_true rfl nofun
    · exact iff_of_false nofun fun h => h a rfl

/-- **A bracket that is not closed**: the host has colons in it and does not stand in brackets, but the text is read as
an address. So is a text with something behind the bracket that closes the first one. -/
theorem unclosed_accepted :
    let a : Address := ⟨"[::1", 80⟩
    let b : Address := ⟨"[a]b:c", 80⟩
    parse? "[::1:80" = some a ∧ ':' ∈ a.host.toList ∧ ¬ (Plain "[::1:80" a ∨ Enclosed "[::1:80" a) ∧
      parse? "[a]b:c:80" = some b ∧ ':' ∈ b.host.toList ∧ ¬ (Plain "[a]b:c:80" b ∨ Enclosed "[a]b:c:80" b) := by
  intro a b
  have hport : WritesPort "80" 80 := port?_eq_some_iff.1 (by decide +kernel)
  have ha : Unclosed "[::1:80" a :=
    ⟨"80", by decide +kernel, by decide +kernel, by decide +kernel, by decide +kernel, hport⟩
  have hb : Unclosed "[a]b:c:80" b :=
    ⟨"80", by decide +kernel, by decide +kernel, by decide +kernel, by decide +kernel, hport⟩
  exact ⟨parse?_eq_some_iff.2 (Or.inr (Or.inr ha)), by decide +kernel, ha.not_written,
    parse?_eq_some_iff.2 (Or.inr (Or.inr hb)), by decide +kernel, hb.not_written⟩

end Address

end DocMesh
