/-
# What is read is no longer than what it is read from

An item is written in at least one byte, and a byte string in at least its own bytes, whatever the way: with longer
lengths than needed, in segments, as a list of integers, under tags, or as a field among others. So a byte string
that is read at a known place is never longer than what was read.

Main statements:

* `Item.leastLength_read?`, `Item.leastLength_parse?` : an item is read from at least as many bytes as it needs;
* `Item.length_bytes?_le` : a byte string needs its own bytes, whatever it is made from;
* `Item.leastLength_le_of_mem_fields?` : a field needs no more bytes than its record.
-/
import DocMesh.Cbor.Record
import DocMesh.Proofs.Traversal

namespace DocMesh.Cbor

variable {n major fuel level : Nat} {s bs rest : Bytes} {bss : List Bytes} {hd : Head}

/-! ## Heads and strings -/

theorem length_of_split? (h : split? n s = some (bs, rest)) : bs.length + rest.length = s.length := by
  unfold split? at h
  dsimp only at h
  split_ifs at h
  cases h
  rw [← List.length_append, List.take_append_drop]

/-- A head has at least one byte. -/
theorem length_lt_of_head? (h : head? s = some (hd, rest)) : rest.length < s.length := by
  cases s with
  | nil => cases h
  | cons b s =>
    rw [List.length_cons, Nat.lt_succ_iff]
    unfold head? at h
    dsimp only at h
    split_ifs at h
    · cases h
      exact Nat.le_refl _
    · obtain ⟨⟨number, after⟩, hnumber, h⟩ := Option.map_eq_some_iff.1 h
      cases h
      have hlength := length_of_split? hnumber
      dsimp only
      omega
    · cases h
      exact Nat.le_refl _

/-- Segments have no more bytes than they are written in. -/
theorem length_of_segments? (h : segments? major fuel level s = some (bss, rest)) :
    bss.flatten.length + rest.length ≤ s.length := by
  fun_induction segments? major fuel level s generalizing bss rest with
  | case3 fuel s hd after hhead hbreak =>
    cases h
    have hlt := length_lt_of_head? hhead
    rw [List.flatten_nil, List.length_nil]
    omega
  | case4 fuel s hd after hhead hbreak level ih =>
    exact Nat.le_trans (ih h) (Nat.le_of_lt (length_lt_of_head? hhead))
  | case5 fuel level s hd after hhead hbreak hmajor hargument ih =>
    exact Nat.le_trans (ih h) (Nat.le_of_lt (length_lt_of_head? hhead))
  | case7 fuel level s hd after hhead hbreak hmajor n hargument bs behind hsplit ih =>
    obtain ⟨⟨bss', rest'⟩, hbss, h⟩ := Option.map_eq_some_iff.1 h
    cases h
    have hrest := ih hbss
    have hsegment := length_of_split? hsplit
    have hlt := length_lt_of_head? hhead
    rw [List.flatten_cons, List.length_append]
    omega
  | _ => cases h

theorem length_of_string? (h : string? fuel hd s = some (bss, rest)) :
    bss.flatten.length + rest.length ≤ s.length := by
  unfold string? at h
  split at h
  · obtain ⟨⟨bs, after⟩, hbs, h⟩ := Option.map_eq_some_iff.1 h
    cases h
    rw [List.flatten_singleton]
    exact Nat.le_of_eq (length_of_split? hbs)
  · exact length_of_segments? h

/-! ## Items -/

namespace Item

mutual

/-- How many bytes an item needs at least, however it is written. Numbers and texts are counted by their first byte. -/
def leastLength : Item → Nat
  | bytes _ bs => bs.length + 1
  | array items => leastLengthItems items + 1
  | map members => leastLengthMembers members + 1
  | tag _ i => leastLength i + 1
  | integer _ | text _ _ | simple _ | float _ => 1

/-- How many bytes the items of an array need at least. -/
def leastLengthItems : List Item → Nat
  | [] => 0
  | i :: is => leastLength i + leastLengthItems is

/-- How many bytes the members of a map need at least. -/
def leastLengthMembers : List (Item × Item) → Nat
  | [] => 0
  | (name, i) :: ms => leastLength name + leastLength i + leastLengthMembers ms

end

variable {i j : Item} {items : List Item} {members : List (Item × Item)} {count : Option Nat}

theorem leastLength_ofHead? (h : ofHead? hd = some i) : i.leastLength = 1 := by
  unfold ofHead? at h
  split at h
  · cases h
    rfl
  · cases h
    rfl
  · split_ifs at h <;> cases h <;> rfl
  · cases h

/-- The items that are read are none, or a first one and those behind it. -/
theorem readItems?_cases (h : readItems? (fuel + 1) count s = some (items, rest)) :
    (items = [] ∧ rest.length ≤ s.length) ∨
      ∃ i is after, items = i :: is ∧ read? fuel s = some (i, after) ∧
        readItems? fuel (count.map (· - 1)) after = some (is, rest) := by
  generalize hsucc : fuel + 1 = n at h
  fun_cases readItems? n count s with
  | case1 => cases h
  | case2 =>
    cases h
    exact Or.inl ⟨rfl, Nat.le_refl _⟩
  | case3 =>
    cases h
    exact Or.inl ⟨rfl, Nat.le_succ _⟩
  | case4 m count s hcount hi hopen =>
    rw [readItems?, hi] at h
    · cases h
    · exact hcount
    · exact hopen
  | case5 m count s hcount i after hi hopen =>
    rw [readItems?, hi] at h
    · obtain ⟨⟨is, behind⟩, his, h⟩ := Option.map_eq_some_iff.1 h
      cases h
      cases hsucc
      exact Or.inr ⟨i, is, after, rfl, hi, his⟩
    · exact hcount
    · exact hopen

/-- The members that are read are none, or a first one and those behind it. -/
theorem readMembers?_cases (h : readMembers? (fuel + 1) count s = some (members, rest)) :
    (members = [] ∧ rest.length ≤ s.length) ∨
      ∃ name i ms between after, members = (name, i) :: ms ∧ read? fuel s = some (name, between) ∧
        read? fuel between = some (i, after) ∧ readMembers? fuel (count.map (· - 1)) after = some (ms, rest) := by
  generalize hsucc : fuel + 1 = n at h
  fun_cases readMembers? n count s with
  | case1 => cases h
  | case2 =>
    cases h
    exact Or.inl ⟨rfl, Nat.le_refl _⟩
  | case3 =>
    cases h
    exact Or.inl ⟨rfl, Nat.le_succ _⟩
  | case4 m count s hcount hname hopen =>
    rw [readMembers?, hname] at h
    · cases h
    · exact hcount
    · exact hopen
  | case5 m count s hcount name between hname hi hopen =>
    rw [readMembers?, hname] at h
    · dsimp only at h
      rw [hi] at h
      cases h
    · exact hcount
    · exact hopen
  | case6 m count s hcount name between hname i after hi hopen =>
    rw [readMembers?, hname] at h
    · dsimp only at h
      rw [hi] at h
      obtain ⟨⟨ms, behind⟩, hms, h⟩ := Option.map_eq_some_iff.1 h
      cases h
      cases hsucc
      exact Or.inr ⟨name, i, ms, between, after, rfl, hname, hi, hms⟩
    · exact hcount
    · exact hopen

-- the three readers spend the same fuel, on which the induction is
mutual

/-- **An item is read from at least as many bytes as it needs.** -/
theorem leastLength_read? (fuel : Nat) {s rest : Bytes} {i : Item} (h : read? fuel s = some (i, rest)) :
    i.leastLength + rest.length ≤ s.length := by
  cases fuel with
  | zero =>
    rw [read?] at h
    cases h
  | succ fuel =>
    rw [read?] at h
    rcases hhead : head? s with _ | ⟨hd, after⟩
    · rw [hhead] at h
      cases h
    rw [hhead] at h
    dsimp only at h
    have hlt := length_lt_of_head? hhead
    -- the first byte is in the head, and the rest of the item is behind it
    split at h
    · obtain ⟨⟨bss, behind⟩, hbss, h⟩ := Option.map_eq_some_iff.1 h
      cases h
      have hle := length_of_string? hbss
      simp only [leastLength]
      omega
    · rcases hbss : string? fuel hd after with _ | ⟨bss, behind⟩
      · rw [hbss] at h
        cases h
      rw [hbss] at h
      obtain ⟨ss, -, h⟩ := Option.map_eq_some_iff.1 h
      cases h
      have hle := length_of_string? hbss
      simp only [leastLength]
      omega
    · obtain ⟨⟨is, behind⟩, his, h⟩ := Option.map_eq_some_iff.1 h
      cases h
      have hle := leastLength_readItems? fuel his
      simp only [leastLength]
      omega
    · obtain ⟨⟨ms, behind⟩, hms, h⟩ := Option.map_eq_some_iff.1 h
      cases h
      have hle := leastLength_readMembers? fuel hms
      simp only [leastLength]
      omega
    · split at h
      · cases h
      · obtain ⟨⟨j, behind⟩, hj, h⟩ := Option.map_eq_some_iff.1 h
        cases h
        have hle := leastLength_read? fuel hj
        simp only [leastLength]
        omega
    · obtain ⟨j, hj, h⟩ := Option.map_eq_some_iff.1 h
      cases h
      rw [leastLength_ofHead? hj]
      omega

theorem leastLength_readItems? (fuel : Nat) {count : Option Nat} {s rest : Bytes} {items : List Item}
    (h : readItems? fuel count s = some (items, rest)) : leastLengthItems items + rest.length ≤ s.length := by
  cases fuel with
  | zero =>
    rw [readItems?] at h
    cases h
  | succ fuel =>
    obtain ⟨rfl, hle⟩ | ⟨i, is, after, rfl, hi, his⟩ := readItems?_cases h
    · rw [leastLengthItems]
      omega
    · have hfirst := leastLength_read? fuel hi
      have hothers := leastLength_readItems? fuel his
      rw [leastLengthItems]
      omega

theorem leastLength_readMembers? (fuel : Nat) {count : Option Nat} {s rest : Bytes} {members : List (Item × Item)}
    (h : readMembers? fuel count s = some (members, rest)) :
    leastLengthMembers members + rest.length ≤ s.length := by
  cases fuel with
  | zero =>
    rw [readMembers?] at h
    cases h
  | succ fuel =>
    obtain ⟨rfl, hle⟩ | ⟨name, i, ms, between, after, rfl, hname, hi, hms⟩ := readMembers?_cases h
    · rw [leastLengthMembers]
      omega
    · have hfirst := leastLength_read? fuel hname
      have hvalue := leastLength_read? fuel hi
      have hothers := leastLength_readMembers? fuel hms
      rw [leastLengthMembers]
      omega

end

theorem leastLength_parse? (h : parse? s = some (i, rest)) : i.leastLength ≤ s.length :=
  Nat.le_trans (Nat.le_add_right _ _) (leastLength_read? _ h)

/-! ## Byte strings -/

theorem leastLength_pos (i : Item) : 0 < i.leastLength := by
  cases i <;> simp [leastLength]

theorem leastLength_untagged_le (i : Item) : i.untagged.leastLength ≤ i.leastLength := by
  fun_induction untagged i with
  | case1 n i ih =>
    rw [leastLength]
    exact Nat.le_succ_of_le ih
  | case2 i => exact Nat.le_refl _

theorem length_le_leastLengthItems (items : List Item) : items.length ≤ leastLengthItems items := by
  induction items with
  | nil => exact Nat.le_refl 0
  | cons i is ih =>
    have hpos := i.leastLength_pos
    rw [List.length_cons, leastLengthItems]
    omega

/-- **A byte string needs its own bytes**, whatever it is made from. -/
theorem length_bytes?_le (h : i.bytes? = some bs) : bs.length < i.leastLength := by
  refine Nat.lt_of_lt_of_le ?_ i.leastLength_untagged_le
  unfold bytes? at h
  split at h
  · rename_i hi
    cases h
    rw [hi, leastLength]
    exact Nat.lt_succ_self _
  · rename_i items hi
    rw [hi, leastLength, length_of_mapM h]
    exact Nat.lt_succ_of_le (length_le_leastLengthItems items)
  · cases h

/-! ## Fields -/

theorem leastLength_le_of_mem_members {name : Item} (h : (name, i) ∈ members) :
    i.leastLength ≤ leastLengthMembers members := by
  induction members with
  | nil => cases h
  | cons m ms ih =>
    obtain ⟨name', j⟩ := m
    rw [leastLengthMembers]
    rcases List.mem_cons.1 h with heq | h
    · cases heq
      omega
    · have hle := ih h
      omega

/-- A field that is found is one of the members. -/
theorem mem_of_field? {name : Bytes} {members : List (Bytes × Item)} (h : field? name members = some (some i)) :
    ∃ name', (name', i) ∈ members := by
  unfold field? at h
  split at h
  · cases h
  · rename_i name' j hfilter
    cases h
    have hmem : (name', i) ∈ members.filter (·.1 == name) := hfilter ▸ List.mem_singleton_self _
    exact ⟨name', (List.mem_filter.1 hmem).1⟩
  · cases h

/-- **A field needs no more bytes than its record.** -/
theorem leastLength_le_of_mem_fields? {names : List String} {fields : List (Option Item)}
    (h : i.fields? level names = some fields) (hj : some j ∈ fields) : j.leastLength ≤ i.leastLength := by
  refine Nat.le_trans ?_ i.leastLength_untagged_le
  unfold fields? at h
  split at h
  · rename_i members hi
    rcases hnamed : namedMembers? members with _ | named
    · rw [hnamed] at h
      cases h
    rw [hnamed] at h
    dsimp only at h
    split_ifs at h
    obtain ⟨name, -, hfield⟩ := exists_of_mem_mapM h hj
    obtain ⟨name', hmem⟩ := mem_of_field? hfield
    obtain ⟨⟨item, j'⟩, hmember, hname⟩ := exists_of_mem_mapM hnamed hmem
    obtain ⟨_, -, heq⟩ := Option.map_eq_some_iff.1 hname
    cases heq
    rw [hi, leastLength]
    exact Nat.le_succ_of_le (leastLength_le_of_mem_members hmember)
  · cases h

end Item

end DocMesh.Cbor
