/-
# What is given on the command line

A peer is given by its id and its address, and stored with the text of that address. Whoever calls the peer reads this
text again, and finds the host and the port that were given, unless the host was given in two pairs of brackets and
without a colon.

Main statements:

* `splitFirst?_eq_some_iff` : a text is split at the first place of a character;
* `Peer.parse_eq_ok_iff` : what is given as a peer, and which peer it is;
* `Address.shown_read_back_iff` : the addresses and the given peers that are read back as they were given.
-/
import DocMesh.Cli.Input
import DocMesh.Proofs.Peer.Address

namespace DocMesh

/-! ## Splitting -/

section Splitting

variable {separator : Char} {cs front back : List Char}

/-- The first place of a character is the one without this character in front of it. -/
theorem splitFirst?_eq_some_iff :
    splitFirst? separator cs = some (front, back) ↔ cs = front ++ separator :: back ∧ separator ∉ front := by
  induction cs generalizing front with
  | nil => simp [splitFirst?]
  | cons c cs ih =>
    rw [splitFirst?]
    split_ifs with hc
    · subst hc
      cases front with
      | nil => simp [eq_comm]
      | cons d front =>
        simp only [Option.some.injEq, Prod.mk.injEq, List.nil_eq, reduceCtorEq, false_and, List.cons_append,
          List.cons.injEq, List.mem_cons, not_or, false_iff, not_and]
        rintro ⟨rfl, -⟩ hne
        exact absurd rfl hne
    · rw [Option.map_eq_some_iff]
      cases front with
      | nil => simp [hc]
      | cons d front =>
        constructor
        · rintro ⟨⟨front', back'⟩, hsplit, heq⟩
          cases heq
          obtain ⟨rfl, hmem⟩ := ih.1 hsplit
          exact ⟨rfl, by simp [Ne.symm hc, hmem]⟩
        · rintro ⟨heq, hmem⟩
          obtain ⟨rfl, rfl⟩ := List.cons.inj heq
          exact ⟨(front, back), ih.2 ⟨rfl, fun h => hmem (List.mem_cons_of_mem _ h)⟩, rfl⟩

end Splitting

/-! ## Peers -/

namespace Peer

variable {s : String} {p : Peer}

theorem parse_eq_ok_iff_ofText? : Peer.parse s = .ok p ↔ ofText? s = some p := by
  rw [Peer.parse]
  cases ofText? s <;> simp

/-- **What is given as a peer**: an id that is not empty and has no equals sign in it, and an address. -/
theorem parse_eq_ok_iff :
    Peer.parse s = .ok p ↔
      ∃ (id address : String) (a : Address), s = id ++ "=" ++ address ∧ '=' ∉ id.toList ∧ id ≠ "" ∧
        Address.parse? address = some a ∧ p = ⟨id, a.text, 0, .static⟩ := by
  rw [parse_eq_ok_iff_ofText?, ofText?]
  constructor
  · intro h
    split at h
    · cases h
    · rename_i id address hsplit
      split_ifs at h with hid
      obtain ⟨a, ha, rfl⟩ := Option.map_eq_some_iff.1 h
      obtain ⟨hs, hmem⟩ := splitFirst?_eq_some_iff.1 hsplit
      refine ⟨String.ofList id, String.ofList address, a, ?_, by simpa using hmem, ?_, ?_, rfl⟩
      · rw [← String.toList_inj]
        simp [hs]
      · rw [Ne, ← String.toList_inj]
        simpa using hid
      · rwa [Address.parse?, String.toList_ofList]
  · rintro ⟨id, address, a, rfl, hmem, hid, ha, rfl⟩
    have hsplit : splitFirst? '=' (id ++ "=" ++ address).toList = some (id.toList, address.toList) :=
      splitFirst?_eq_some_iff.2 ⟨by simp, hmem⟩
    have hne : id.toList.isEmpty = false := by simpa using hid
    rw [Address.parse?] at ha
    rw [hsplit]
    dsimp only
    rw [hne, if_neg Bool.false_ne_true, ha, Option.map_some, String.ofList_toList]

end Peer

namespace Address

/-- **The addresses that are read back.** If a text is an address, the text that is shown for the address is read as
the same address exactly if the host does not stand in two pairs of brackets without a colon in it; such a host loses
the pair of brackets that it was read with, or everything if there is nothing in the brackets. If a text gives a peer,
the peer is called at the host and the port that were given, under the same condition. -/
theorem shown_read_back_iff (s : String) :
    (∀ a, parse? s = some a →
      (parse? a.text = some a ↔ ¬ TwiceBracketed s) ∧
        ∀ inner port, s.toList = bracketed (bracketed inner) ++ ':' :: port → ':' ∉ inner → ':' ∉ port →
          a.host.toList = bracketed inner ∧
            parse? a.text = if inner = [] then none else some ⟨String.ofList inner, a.port⟩) ∧
      ∀ p, Peer.parse s = .ok p →
        ∃ (id address : String) (a : Address), s = id ++ "=" ++ address ∧ '=' ∉ id.toList ∧ p.id = id ∧
          parse? address = some a ∧ (p.endpoint = .ok a ↔ ¬ TwiceBracketed address) := by
  refine ⟨?_, ?_⟩
  · intro a h
    refine ⟨parse?_text_eq_some_iff h, ?_⟩
    intro inner port hs hinner hport
    exact ⟨host_of_bracketed_bracketed h hs hport, parse?_text_of_bracketed_bracketed h hs hinner hport⟩
  · intro p h
    obtain ⟨id, address, a, hs, hid, -, ha, rfl⟩ := Peer.parse_eq_ok_iff.1 h
    refine ⟨id, address, a, hs, hid, rfl, ha, ?_⟩
    rw [← parse?_text_eq_some_iff ha, Peer.endpoint]
    split
    · rename_i b hb
      rw [hb]
      simp
    · rename_i hb
      rw [hb]
      simp

/-- The host `[fe80::1]`, in two pairs of brackets, has a colon in it and is read back, and so is the address of a peer
whose host is in one pair. -/
theorem shown_read_back_colon :
    let a : Address := ⟨"[fe80::1]", 7000⟩
    let p : Peer := ⟨"b", "[fe80::2]:7001", 0, .static⟩
    parse? "[[fe80::1]]:7000" = some a ∧ ¬ TwiceBracketed "[[fe80::1]]:7000" ∧ parse? a.text = some a ∧
      Peer.parse "b=[fe80::2]:7001" = .ok p ∧
      ∃ (id address : String) (a : Address), "b=[fe80::2]:7001" = id ++ "=" ++ address ∧ '=' ∉ id.toList ∧
        p.id = id ∧ parse? address = some a ∧ (p.endpoint = .ok a ↔ ¬ TwiceBracketed address) := by
  intro a p
  have ha : parse? "[[fe80::1]]:7000" = some a := by decide +kernel
  have hp : Peer.parse "b=[fe80::2]:7001" = .ok p := by decide +kernel
  have hcolon : ¬ TwiceBracketed "[[fe80::1]]:7000" := by
    rw [twiceBracketed_iff ha]
    rintro ⟨hmem, -⟩
    exact hmem (by decide +kernel)
  have hread := ((shown_read_back_iff "[[fe80::1]]:7000").1 a ha).1.2 hcolon
  exact ⟨ha, hcolon, hread, hp, (shown_read_back_iff "b=[fe80::2]:7001").2 p hp⟩

/-- The host `[a]` is shown as it is and read back without its brackets, and the host `[]` is not read back at all. A
peer that is given at the first is called at another host. -/
theorem brackets_lost :
    parse? "[[a]]:80" = some ⟨"[a]", 80⟩ ∧ parse? (text ⟨"[a]", 80⟩) ≠ some ⟨"[a]", 80⟩ ∧
      parse? "[[]]:80" = some ⟨"[]", 80⟩ ∧ parse? (text ⟨"[]", 80⟩) = none ∧
      Peer.parse "b=[[a]]:80" = .ok ⟨"b", "[a]:80", 0, .static⟩ ∧
      (Peer.endpoint ⟨"b", "[a]:80", 0, .static⟩) = .ok ⟨"a", 80⟩ := by
  refine ⟨?_, ?_, ?_, ?_, ?_, ?_⟩
  all_goals decide +kernel

end Address

end DocMesh
