/-
# Entries keep their content in messages

An entry is sent with its payload as JSON text. Everything else of it is sent as it is, so that it is read back as it
was sent exactly if its payload is, and an absent payload, which has no text, stays apart from null.

Main statements:

* `toEntry_ofEntry_eq_ok_iff` : when an entry is read back as it was sent;
* `entry_read_back` : with integers in range, and floating-point numbers that are read back, only the depth matters.
-/
import DocMesh.Proofs.Json.RoundTrip
import DocMesh.Proofs.Message.Carriage

namespace DocMesh

/-! ## Values that nest as deep as wanted -/

namespace Json

/-- So many arrays, one inside the other, around null. -/
def nested : Nat → Json
  | 0 => null
  | n + 1 => array [nested n]

theorem wellFormed_nested (n : Nat) : (nested n).WellFormed := by
  induction n with
  | zero => exact .null
  | succ n ih => exact .array (List.forall_mem_singleton.2 ih)

theorem depth_nested (n : Nat) : (nested n).depth = n := by
  induction n with
  | zero => rfl
  | succ n ih =>
    rw [nested, depth, itemsDepth, itemsDepth, ih]
    omega

theorem numbers_nested (n : Nat) : (nested n).numbers = [] := by
  induction n with
  | zero => rfl
  | succ n ih =>
    rw [nested, numbers, itemsNumbers, ih]
    rfl

/-- Arrays one inside the other, and beside them numbers of all kinds under a name with escapes. -/
def deep (n : Nat) : Json :=
  object [("", nested n), ("\"ü\\\n", array [number (.real ⟨true, 1022 * Binary64.binade, by decide⟩), ofInt (-1),
    ofInt 18446744073709551615])]

theorem wellFormed_deep (n : Nat) : (deep n).WellFormed := by
  refine .object (List.pairwise_pair.2 rfl)
    (List.forall_mem_cons.2 ⟨wellFormed_nested n, List.forall_mem_singleton.2 (.array ?_)⟩)
  simp only [List.forall_mem_cons, List.not_mem_nil, false_implies, implies_true, and_true]
  exact ⟨.number _, .number _, .number _⟩

theorem depth_deep (n : Nat) : (deep n).depth = max n 1 + 1 := by
  rw [deep, depth, membersDepth, depth_nested]
  rfl

theorem numbers_deep (n : Nat) :
    (deep n).numbers = [.real ⟨true, 1022 * Binary64.binade, by decide⟩, .integer (-1),
      .integer 18446744073709551615] := by
  rw [deep, numbers, membersNumbers, numbers_nested]
  rfl

end Json

/-! ## Entries that are read back -/

namespace Entry

variable {e : Entry}

/-- **When an entry is read back as it was sent.** Its payload, if there is any, nests no deeper than allowed, and each
number in it is read back from the number's own text. -/
theorem toEntry_ofEntry_eq_ok_iff (hwf : ∀ v ∈ e.payload, v.WellFormed) :
    (WireEntry.ofEntry e).toEntry = .ok e
      ↔ ∀ v ∈ e.payload, v.depth ≤ Json.nestingLimit ∧
          ∀ n ∈ v.numbers, Json.parse? n.text = some (.number n) := by
  rcases hpayload : e.payload with _ | v
  · exact ⟨fun _ v hv => (nomatch hv), fun _ => toEntry_ofEntry_of_payload_none hpayload⟩
  · have hread : (WireEntry.ofEntry e).toEntry = .ok e ↔ Json.parse? v.text = some v := by
      rw [toEntry_ofEntry_of_payload hpayload]
      rcases Json.parse? v.text with _ | w
      · simp
      · rw [Except.ok.injEq, ← hpayload]
        exact ⟨congrArg Entry.payload, fun h => by rw [h]⟩
    rw [hread, Json.parse?_text_eq_some_iff (hwf v hpayload)]
    simp only [Option.mem_some_iff, forall_eq']

/-- An entry can be read only if its payload nests no deeper than allowed. -/
theorem depth_le_of_toEntry {a : Entry} (hwf : ∀ v ∈ e.payload, v.WellFormed)
    (h : (WireEntry.ofEntry e).toEntry = .ok a) : ∀ v ∈ e.payload, v.depth ≤ Json.nestingLimit := by
  intro v hv
  rw [toEntry_ofEntry_of_payload hv, Json.parse?_text (hwf v hv)] at h
  by_cases hdepth : v.depth ≤ Json.nestingLimit
  · exact hdepth
  · rw [if_neg hdepth] at h
    cases h

/-- **Entries keep their content in messages.** Where the objects of a payload are maps, its integers are in range and
each floating-point number in it is read back from its own text, the entry can be read exactly if the payload is absent
or nests at most 127 deep, and then it is the entry that was sent. -/
theorem entry_read_back (e : Entry) (hwf : ∀ v ∈ e.payload, v.WellFormed)
    (hinteger : ∀ v ∈ e.payload, ∀ n, .integer n ∈ v.numbers → JsonNumber.inRange n)
    (hreal : ∀ v ∈ e.payload, ∀ x, .real x ∈ v.numbers →
      Json.parse? (x.text Json.realLayout) = some (.number (.real x))) :
    ((∃ a, (WireEntry.ofEntry e).toEntry = .ok a) ↔ ∀ v ∈ e.payload, v.depth ≤ 127) ∧
      ((∀ v ∈ e.payload, v.depth ≤ 127) → (WireEntry.ofEntry e).toEntry = .ok e) := by
  have hback : (∀ v ∈ e.payload, v.depth ≤ 127) → (WireEntry.ofEntry e).toEntry = .ok e := by
    intro hdepth
    refine (toEntry_ofEntry_eq_ok_iff hwf).2 fun v hv => ⟨hdepth v hv, fun n hn => ?_⟩
    cases n with
    | integer n => exact Json.parse?_integer (hinteger v hv n hn)
    | real x => exact hreal v hv x hn
  refine ⟨⟨?_, fun hdepth => ⟨e, hback hdepth⟩⟩, hback⟩
  rintro ⟨a, ha⟩
  exact depth_le_of_toEntry hwf ha

/-- A payload that nests 127 deep is read back, and one that nests 128 deep is not. -/
theorem entry_read_back_deep :
    let e (n : Nat) : Entry := .put "notes" "x" (.deep n) ⟨1, 0, "a"⟩
    (WireEntry.ofEntry (e 126)).toEntry = .ok (e 126) ∧ ¬ ∃ a, (WireEntry.ofEntry (e 127)).toEntry = .ok a := by
  intro e
  have hback (n : Nat) := entry_read_back (e n)
    (by
      rintro v ⟨⟩
      exact Json.wellFormed_deep n)
    (by
      rintro v ⟨⟩ k hk
      simp only [Json.numbers_deep, List.mem_cons, List.not_mem_nil, or_false, reduceCtorEq, false_or,
        JsonNumber.integer.injEq] at hk
      rcases hk with rfl | rfl <;> decide)
    (by
      rintro v ⟨⟩ x hx
      simp only [Json.numbers_deep, List.mem_cons, List.not_mem_nil, or_false, reduceCtorEq,
        JsonNumber.real.injEq] at hx
      rw [hx]
      decide +kernel)
  constructor
  · apply (hback 126).2
    rintro v ⟨⟩
    rw [Json.depth_deep]
    decide
  · intro hread
    have hdepth := (hback 127).1.1 hread (.deep 127) rfl
    rw [Json.depth_deep] at hdepth
    exact absurd hdepth (by decide)

end Entry

end DocMesh
