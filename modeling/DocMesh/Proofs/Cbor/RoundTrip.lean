/-
# Reading what has been written

An item is read back from its written form, whatever follows it, if its numbers and lengths are such as the
form has room for. A record with different names is read back field by field.

Main statements:

* `head?_head` : a head is read back;
* `read?_encode`, `parse?_encode` : an item is read back;
* `fits_of_numbersFit` : an item with a short written form has short lengths;
* `fields?_record` : the fields of a record are read back.
-/
import DocMesh.Cbor.Record
import DocMesh.Proofs.Traversal

namespace DocMesh.Cbor

variable {major minor n fuel : Nat} {bs rest : Bytes}

/-! ## Heads -/

/-- One more than the greatest number that a head can hold. -/
def headLimit : Nat := Nat.pow 2 64

/-- How a number is written in a head: in the first byte, or behind it in 1, 2, 4 or 8 bytes. -/
def minorOf (n : Nat) : Nat :=
  if n < 24 then n
  else if n < UInt8.size then 24
  else if n < UInt16.size then 25
  else if n < UInt32.size then 26
  else 27

theorem minorOf_le (h : n < UInt8.size) : minorOf n ≤ 24 := by
  unfold minorOf
  split <;> omega

theorem length_head_pos (major n : Nat) : 0 < (head major n).length := by
  unfold head
  split_ifs <;> simp

theorem length_head_le (major n : Nat) : (head major n).length ≤ 9 := by
  unfold head
  split_ifs <;> simp

theorem split?_append (bs rest : Bytes) : split? bs.length (bs ++ rest) = some (bs, rest) := by
  simp [split?]

/-- The first byte of a head holds the major type and the minor number. -/
theorem toNat_firstByte (hmajor : major < 8) (hminor : minor < 32) :
    (UInt8.ofNat (32 * major + minor)).toNat / 32 = major ∧
      (UInt8.ofNat (32 * major + minor)).toNat % 32 = minor := by
  have hbyte : (UInt8.ofNat (32 * major + minor)).toNat = 32 * major + minor := by
    rw [UInt8.toNat_ofNat']
    omega
  omega

theorem head?_short (hmajor : major < 8) (hminor : minor < 24) :
    head? (UInt8.ofNat (32 * major + minor) :: rest) = some (⟨major, minor, some minor⟩, rest) := by
  obtain ⟨hdiv, hmod⟩ := toNat_firstByte hmajor (show minor < 32 by omega)
  simp only [head?, hdiv, hmod, if_pos hminor]

theorem head?_long (hmajor : major < 8) (hlow : 24 ≤ minor) (hhigh : minor < 28)
    (hlen : bs.length = 1 <<< (minor - 24)) :
    head? (UInt8.ofNat (32 * major + minor) :: (bs ++ rest))
      = some (⟨major, minor, some (Bytes.ofBigEndian bs)⟩, rest) := by
  obtain ⟨hdiv, hmod⟩ := toNat_firstByte hmajor (show minor < 32 by omega)
  simp only [head?, hdiv, hmod, if_neg (show ¬ minor < 24 by omega), if_pos hhigh, ← hlen, split?_append]
  rfl

theorem head?_openHead (hmajor : major < 8) :
    head? (openHead major :: rest) = some (⟨major, 31, none⟩, rest) := by
  obtain ⟨hdiv, hmod⟩ := toNat_firstByte hmajor (show 31 < 32 by omega)
  simp only [head?, openHead, hdiv, hmod]
  simp

/-- A number that stands behind the first byte of a head. -/
theorem head?_bigEndian (minor : Nat) (hmajor : major < 8) (hlow : 24 ≤ minor) (hhigh : minor < 28)
    (hn : n < Nat.pow 256 (1 <<< (minor - 24))) :
    head? (UInt8.ofNat (32 * major + minor) :: (Bytes.bigEndian (1 <<< (minor - 24)) n ++ rest))
      = some (⟨major, minor, some n⟩, rest) := by
  rw [head?_long hmajor hlow hhigh (Bytes.length_bigEndian _ _), Bytes.ofBigEndian_bigEndian _ _ hn]

/-- A head is read back. -/
theorem head?_head (hmajor : major < 8) (hn : n < headLimit) (rest : Bytes) :
    head? (head major n ++ rest) = some (⟨major, minorOf n, some n⟩, rest) := by
  unfold head minorOf
  split_ifs with h₁ h₂ h₃ h₄
  · exact head?_short hmajor h₁
  · exact head?_bigEndian 24 hmajor (by omega) (by omega) h₂
  · exact head?_bigEndian 25 hmajor (by omega) (by omega) h₃
  · exact head?_bigEndian 26 hmajor (by omega) (by omega) h₄
  · exact head?_bigEndian 27 hmajor (by omega) (by omega) hn

/-! ## Strings -/

theorem length_stringBytes_pos (major : Nat) (segmented : Bool) (bs : Bytes) :
    0 < (stringBytes major segmented bs).length := by
  unfold stringBytes
  split_ifs
  · simp
  · have := length_head_pos major bs.length
    simp only [List.length_append]
    omega

/-- The only segment of a string is read back. -/
theorem segments?_segment (hmajor : major < 7) (hn : bs.length < headLimit) (hfuel : 2 ≤ fuel) (rest : Bytes) :
    segments? major fuel 0 (head major bs.length ++ (bs ++ breakByte :: rest)) = some ([bs], rest) := by
  obtain ⟨fuel, rfl⟩ := Nat.exists_eq_add_of_le' hfuel
  have hhead := head?_head (show major < 8 by omega) hn (bs ++ breakByte :: rest)
  have hbreak : head? (breakByte :: rest) = some (⟨7, 31, none⟩, rest) := by
    rw [show breakByte = openHead 7 from rfl, head?_openHead (by omega)]
  have hsegment : (Head.mk major (minorOf bs.length) (some bs.length)).isBreak = false := by
    simp [Head.isBreak]
  rw [segments?, hhead]
  simp only [hsegment, Bool.false_eq_true, if_false, if_true, split?_append]
  rw [segments?, hbreak]
  rfl

/-- A string is read back, and its head tells whether it has been written as a segment. -/
theorem string?_stringBytes {segmented : Bool} (hmajor : major < 7) (hn : bs.length < headLimit)
    (hfuel : 2 * (stringBytes major segmented bs).length ≤ fuel + 1) (rest : Bytes) :
    ∃ h s, head? (stringBytes major segmented bs ++ rest) = some (h, s) ∧ h.major = major ∧
      h.argument.isNone = segmented ∧ string? fuel h s = some ([bs], rest) := by
  cases segmented with
  | false =>
    refine ⟨⟨major, minorOf bs.length, some bs.length⟩, bs ++ rest, ?_, rfl, rfl, ?_⟩
    · rw [stringBytes, if_neg Bool.false_ne_true, List.append_assoc, head?_head (by omega) hn]
    · simp [string?, split?_append]
  | true =>
    have hlen := length_head_pos major bs.length
    simp only [stringBytes, if_true, List.length_cons, List.length_append, List.length_nil] at hfuel
    refine ⟨⟨major, 31, none⟩, head major bs.length ++ (bs ++ breakByte :: rest), ?_, rfl, rfl, ?_⟩
    · simp [stringBytes, head?_openHead (show major < 8 by omega)]
    · exact segments?_segment hmajor hn (by omega) rest

namespace Item

/-! ## Items -/

mutual

/-- The written form of the item has room for its numbers and its lengths. -/
def Fits : Item → Prop
  | integer n => -(headLimit : Int) ≤ n ∧ n < headLimit
  | bytes _ bs => bs.length < headLimit
  | text _ s => (Bytes.ofString s).length < headLimit
  | array items => items.length < headLimit ∧ ItemsFit items
  | map members => members.length < headLimit ∧ MembersFit members
  | tag n i => n < headLimit ∧ Fits i
  | simple n => n < UInt8.size
  | float bs => bs.length = 2 ∨ bs.length = 4 ∨ bs.length = 8

/-- All items fit. -/
def ItemsFit : List Item → Prop
  | [] => True
  | i :: is => Fits i ∧ ItemsFit is

/-- All members fit. -/
def MembersFit : List (Item × Item) → Prop
  | [] => True
  | (name, i) :: ms => Fits name ∧ Fits i ∧ MembersFit ms

end

theorem length_encode_pos (i : Item) : 0 < i.encode.length := by
  cases i with
  | integer n =>
    rw [encode]
    split <;> exact length_head_pos _ _
  | bytes segmented bs => exact length_stringBytes_pos 2 segmented bs
  | text segmented s => exact length_stringBytes_pos 3 segmented (Bytes.ofString s)
  | array items =>
    rw [encode, List.length_append]
    exact Nat.add_pos_left (length_head_pos _ _) _
  | map members =>
    rw [encode, List.length_append]
    exact Nat.add_pos_left (length_head_pos _ _) _
  | tag n i =>
    rw [encode, List.length_append]
    exact Nat.add_pos_left (length_head_pos _ _) _
  | simple n => exact length_head_pos 7 n
  | float bs => exact Nat.succ_pos _

/-- An integer is read back. -/
theorem read?_integer {n : Int} (h : (integer n).Fits) (rest : Bytes) :
    read? (fuel + 1) ((integer n).encode ++ rest) = some (integer n, rest) := by
  obtain ⟨hlow, hhigh⟩ := h
  rw [encode, read?]
  split_ifs with hn
  · rw [head?_head (by omega) (show n.toNat < headLimit by omega)]
    simp only [ofHead?, Int.toNat_of_nonneg hn]
    rfl
  · rw [head?_head (by omega) (show (-1 - n).toNat < headLimit by omega)]
    have hneg : (-1 : Int) - ((-1 - n).toNat : Int) = n := by omega
    simp only [ofHead?, hneg]
    rfl

/-- An item without content is read back. -/
theorem read?_simple (h : (simple n).Fits) (rest : Bytes) :
    read? (fuel + 1) ((simple n).encode ++ rest) = some (simple n, rest) := by
  have hn : n < UInt8.size := h
  have hsize : UInt8.size < headLimit := by decide
  rw [encode, read?, head?_head (by omega) (show n < headLimit by omega)]
  simp [ofHead?, minorOf_le hn]

/-- A number with a floating point is read back. -/
theorem read?_float (h : (float bs).Fits) (rest : Bytes) :
    read? (fuel + 1) ((float bs).encode ++ rest) = some (float bs, rest) := by
  -- the three widths have three minor numbers
  have hread : ∀ m, 24 < m → m < 28 → bs.length = 1 <<< (m - 24) →
      read? (fuel + 1) (UInt8.ofNat (32 * 7 + m) :: (bs ++ rest)) = some (float bs, rest) := by
    intro m hlow hhigh hlen
    have hback : Bytes.bigEndian (1 <<< (m - 24)) (Bytes.ofBigEndian bs) = bs := by
      rw [← hlen, Bytes.bigEndian_ofBigEndian]
    rw [read?, head?_long (by omega) (by omega) hhigh hlen]
    simp [ofHead?, hback, show ¬ m ≤ 24 by omega]
  rw [encode, floatBytes, List.cons_append]
  rcases h with h | h | h
  · simpa [h] using hread 25 (by omega) (by omega) h
  · simpa [h] using hread 26 (by omega) (by omega) h
  · simpa [h] using hread 27 (by omega) (by omega) h

mutual

/-- An item is read back. -/
theorem read?_encode (i : Item) (fuel : Nat) (rest : Bytes) (h : i.Fits) (hfuel : 2 * i.encode.length ≤ fuel) :
    read? fuel (i.encode ++ rest) = some (i, rest) := by
  have hpos : 0 < i.encode.length := i.length_encode_pos
  obtain ⟨fuel, rfl⟩ := Nat.exists_eq_add_of_le' (show 1 ≤ fuel by omega)
  cases i with
  | integer n => exact read?_integer h rest
  | bytes segmented bs =>
    obtain ⟨hd, s, hhead, hmajor, hnone, hstring⟩ := string?_stringBytes (show 2 < 7 by omega) h hfuel rest
    rw [encode, read?, hhead]
    simp [hmajor, hnone, hstring]
  | text segmented s =>
    obtain ⟨hd, s', hhead, hmajor, hnone, hstring⟩ := string?_stringBytes (show 3 < 7 by omega) h hfuel rest
    rw [encode, read?, hhead]
    simp [hmajor, hnone, hstring]
  | array items =>
    rw [Fits] at h
    rw [encode, List.length_append] at hfuel
    have hhead := length_head_pos 4 items.length
    have hitems := readItems?_encode items fuel rest h.2 (by omega)
    rw [encode, List.append_assoc, read?, head?_head (by omega) h.1]
    simp [hitems]
  | map members =>
    rw [Fits] at h
    rw [encode, List.length_append] at hfuel
    have hhead := length_head_pos 5 members.length
    have hmembers := readMembers?_encode members fuel rest h.2 (by omega)
    rw [encode, List.append_assoc, read?, head?_head (by omega) h.1]
    simp [hmembers]
  | tag n i =>
    rw [Fits] at h
    rw [encode, List.length_append] at hfuel
    have hhead := length_head_pos 6 n
    have hi := read?_encode i fuel rest h.2 (by omega)
    rw [encode, List.append_assoc, read?, head?_head (by omega) h.1]
    simp [hi]
  | simple n => exact read?_simple h rest
  | float bs => exact read?_float h rest

/-- The items of an array are read back. -/
theorem readItems?_encode (items : List Item) (fuel : Nat) (rest : Bytes) (h : ItemsFit items)
    (hfuel : 2 * (encodeItems items).length + 1 ≤ fuel) :
    readItems? fuel (some items.length) (encodeItems items ++ rest) = some (items, rest) := by
  obtain ⟨fuel, rfl⟩ := Nat.exists_eq_add_of_le' (show 1 ≤ fuel by omega)
  cases items with
  | nil => rfl
  | cons i is =>
    rw [ItemsFit] at h
    rw [encodeItems, List.length_append] at hfuel
    have hpos : 0 < i.encode.length := i.length_encode_pos
    have hi := read?_encode i fuel (encodeItems is ++ rest) h.1 (by omega)
    have his := readItems?_encode is fuel rest h.2 (by omega)
    rw [encodeItems, List.append_assoc, List.length_cons, readItems?]
    · simp [hi, his]
    · simp
    · simp

/-- The members of a map are read back. -/
theorem readMembers?_encode (members : List (Item × Item)) (fuel : Nat) (rest : Bytes) (h : MembersFit members)
    (hfuel : 2 * (encodeMembers members).length + 1 ≤ fuel) :
    readMembers? fuel (some members.length) (encodeMembers members ++ rest) = some (members, rest) := by
  obtain ⟨fuel, rfl⟩ := Nat.exists_eq_add_of_le' (show 1 ≤ fuel by omega)
  cases members with
  | nil => rfl
  | cons m ms =>
    obtain ⟨name, i⟩ := m
    rw [MembersFit] at h
    rw [encodeMembers, List.length_append, List.length_append] at hfuel
    have hname : 0 < name.encode.length := name.length_encode_pos
    have hpos : 0 < i.encode.length := i.length_encode_pos
    have hreadName := read?_encode name fuel (i.encode ++ (encodeMembers ms ++ rest)) h.1 (by omega)
    have hi := read?_encode i fuel (encodeMembers ms ++ rest) h.2.1 (by omega)
    have hms := readMembers?_encode ms fuel rest h.2.2 (by omega)
    rw [encodeMembers, List.append_assoc, List.append_assoc, List.length_cons, readMembers?]
    · simp [hreadName, hi, hms]
    · simp
    · simp

end

/-- An item is read back from the front of a byte string. -/
theorem parse?_encode {i : Item} (h : i.Fits) (rest : Bytes) : parse? (i.encode ++ rest) = some (i, rest) := by
  apply read?_encode i _ rest h
  rw [List.length_append]
  omega

/-! ## Items with short written forms -/

mutual

/-- The written form of the item has room for its numbers; nothing is said about lengths. -/
def NumbersFit : Item → Prop
  | integer n => -(headLimit : Int) ≤ n ∧ n < headLimit
  | array items => AllNumbersFit items
  | map members => MemberNumbersFit members
  | tag n i => n < headLimit ∧ NumbersFit i
  | simple n => n < UInt8.size
  | float bs => bs.length = 2 ∨ bs.length = 4 ∨ bs.length = 8
  | _ => True

/-- The written forms of all items have room for their numbers. -/
def AllNumbersFit : List Item → Prop
  | [] => True
  | i :: is => NumbersFit i ∧ AllNumbersFit is

/-- The written forms of all members have room for their numbers. -/
def MemberNumbersFit : List (Item × Item) → Prop
  | [] => True
  | (name, i) :: ms => NumbersFit name ∧ NumbersFit i ∧ MemberNumbersFit ms

end

theorem length_le_length_encodeItems (items : List Item) : items.length ≤ (encodeItems items).length := by
  induction items with
  | nil => exact Nat.le_refl 0
  | cons i is ih =>
    have hpos := i.length_encode_pos
    rw [encodeItems, List.length_append, List.length_cons]
    omega

theorem length_le_length_encodeMembers (members : List (Item × Item)) :
    members.length ≤ (encodeMembers members).length := by
  induction members with
  | nil => exact Nat.le_refl 0
  | cons m ms ih =>
    have hpos := m.1.length_encode_pos
    rw [encodeMembers, List.length_append, List.length_append, List.length_cons]
    omega

theorem length_le_length_stringBytes (major : Nat) (segmented : Bool) (bs : Bytes) :
    bs.length ≤ (stringBytes major segmented bs).length := by
  unfold stringBytes
  split_ifs <;> simp only [List.length_append, List.length_cons] <;> omega

mutual

/-- An item whose written form is short fits if its numbers do: no length in it is greater than that of the whole. -/
theorem fits_of_numbersFit (i : Item) (h : i.NumbersFit) (hlength : i.encode.length < headLimit) : i.Fits := by
  cases i with
  | integer n => exact h
  | bytes segmented bs =>
    have hle := length_le_length_stringBytes 2 segmented bs
    rw [encode] at hlength
    exact Nat.lt_of_le_of_lt hle hlength
  | text segmented s =>
    have hle := length_le_length_stringBytes 3 segmented (Bytes.ofString s)
    rw [encode] at hlength
    exact Nat.lt_of_le_of_lt hle hlength
  | array items =>
    have hle := length_le_length_encodeItems items
    rw [encode, List.length_append] at hlength
    exact ⟨by omega, itemsFit_of_numbersFit items h (by omega)⟩
  | map members =>
    have hle := length_le_length_encodeMembers members
    rw [encode, List.length_append] at hlength
    exact ⟨by omega, membersFit_of_numbersFit members h (by omega)⟩
  | tag n i =>
    rw [encode, List.length_append] at hlength
    exact ⟨h.1, fits_of_numbersFit i h.2 (by omega)⟩
  | simple n => exact h
  | float bs => exact h

theorem itemsFit_of_numbersFit (items : List Item) (h : AllNumbersFit items)
    (hlength : (encodeItems items).length < headLimit) : ItemsFit items := by
  cases items with
  | nil => trivial
  | cons i is =>
    rw [encodeItems, List.length_append] at hlength
    exact ⟨fits_of_numbersFit i h.1 (by omega), itemsFit_of_numbersFit is h.2 (by omega)⟩

theorem membersFit_of_numbersFit (members : List (Item × Item)) (h : MemberNumbersFit members)
    (hlength : (encodeMembers members).length < headLimit) : MembersFit members := by
  cases members with
  | nil => trivial
  | cons m ms =>
    rw [encodeMembers, List.length_append, List.length_append] at hlength
    exact ⟨fits_of_numbersFit m.1 h.1 (by omega), fits_of_numbersFit m.2 h.2.1 (by omega),
      membersFit_of_numbersFit ms h.2.2 (by omega)⟩

end

theorem allNumbersFit_of_forall {items : List Item} (h : ∀ i ∈ items, i.NumbersFit) : AllNumbersFit items := by
  induction items with
  | nil => trivial
  | cons i is ih =>
    rw [List.forall_mem_cons] at h
    exact ⟨h.1, ih h.2⟩

/-! ## Records -/

variable {fs : List (String × Item)}

/-- The numbers of a record fit if those of its fields do. -/
theorem numbersFit_record (h : ∀ i ∈ fs.map Prod.snd, i.NumbersFit) : (record fs).NumbersFit := by
  show MemberNumbersFit (fs.map fun f => (ofString f.1, f.2))
  induction fs with
  | nil => trivial
  | cons f fs ih =>
    rw [List.map_cons, List.forall_mem_cons] at h
    exact ⟨trivial, h.1, ih h.2⟩

theorem encode_ofString (s : String) :
    (ofString s).encode = head 3 (Bytes.ofString s).length ++ Bytes.ofString s := by
  simp [ofString, encode, stringBytes]

theorem length_encode_ofString (s : String) :
    (ofString s).encode.length = (head 3 s.utf8ByteSize).length + s.utf8ByteSize := by
  rw [encode_ofString, List.length_append, Bytes.length_ofString]

theorem length_encode_ofBytes (bs : Bytes) : (ofBytes bs).encode.length = (head 2 bs.length).length + bs.length := by
  simp [ofBytes, encode, stringBytes]

/-- A record is the map from the names of its fields. -/
theorem record_eq (fs : List (String × Item)) : record fs = map (fs.map fun f => (ofString f.1, f.2)) := rfl

/-- A record has room for its fields if the names are short and each field has. -/
theorem fits_record (hlength : fs.length < headLimit)
    (hnames : ∀ name ∈ fs.map Prod.fst, name.utf8ByteSize ≤ nameLimit)
    (hfields : ∀ i ∈ fs.map Prod.snd, i.Fits) : (record fs).Fits := by
  have hmembers : MembersFit (fs.map fun f => (ofString f.1, f.2)) := by
    clear hlength
    induction fs with
    | nil => trivial
    | cons f fs ih =>
      rw [List.map_cons, List.forall_mem_cons] at hnames hfields
      have hname : (Bytes.ofString f.1).length ≤ nameLimit := by
        rw [Bytes.length_ofString]
        exact hnames.1
      have hlimit : nameLimit < headLimit := by decide
      exact ⟨Nat.lt_of_le_of_lt hname hlimit, hfields.1, ih hnames.2 hfields.2⟩
  refine ⟨?_, hmembers⟩
  rw [List.length_map]
  exact hlength

/-- What is read of the members of a record. -/
def named (fs : List (String × Item)) : List (Bytes × Item) := fs.map fun f => (Bytes.ofString f.1, f.2)

theorem ofString_injective : Function.Injective Bytes.ofString := by
  intro s t h
  have hread : Bytes.toString? (Bytes.ofString s) = Bytes.toString? (Bytes.ofString t) := by rw [h]
  simpa using hread

/-- The names of fields are read back. -/
theorem namedMembers?_record (h : ∀ name ∈ fs.map Prod.fst, name.utf8ByteSize ≤ nameLimit) :
    namedMembers? (fs.map fun f => (ofString f.1, f.2)) = some (named fs) := by
  rw [namedMembers?, mapM_eq_some_iff, named, List.map_map, List.map_map]
  refine List.map_congr_left fun f hf => ?_
  have hname := h f.1 (List.mem_map_of_mem hf)
  simp [ofString, name?, untagged, hname]

/-- A field is found under its name, which no other field has. -/
theorem field?_named (hnodup : (fs.map Prod.fst).Nodup) {name : String} {i : Item} (hmem : (name, i) ∈ fs) :
    field? (Bytes.ofString name) (named fs) = some (some i) := by
  have hfilter : (named fs).filter (·.1 == Bytes.ofString name) = [(Bytes.ofString name, i)] := by
    induction fs with
    | nil => cases hmem
    | cons f fs ih =>
      rw [List.map_cons, List.nodup_cons] at hnodup
      rw [named, List.map_cons, ← named]
      rcases List.mem_cons.1 hmem with rfl | hmem
      · have hrest : (named fs).filter (·.1 == Bytes.ofString name) = [] := by
          rw [named, List.filter_map, List.map_eq_nil_iff, List.filter_eq_nil_iff]
          intro g hg heq
          have hname : g.1 = name := ofString_injective (by simpa using heq)
          exact hnodup.1 (List.mem_map.2 ⟨g, hg, hname⟩)
        rw [List.filter_cons_of_pos (by simp), hrest]
      · have hne : f.1 ≠ name := by
          rintro rfl
          exact hnodup.1 (List.mem_map.2 ⟨_, hmem, rfl⟩)
        rw [List.filter_cons_of_neg (by simpa using fun heq => hne (ofString_injective heq)), ih hnodup.2 hmem]
  rw [field?, hfilter]

/-- **The fields of a record are read back**, if their names are different and short enough. -/
theorem fields?_record (level : Nat) (fs : List (String × Item)) (hnodup : (fs.map Prod.fst).Nodup)
    (h : ∀ name ∈ fs.map Prod.fst, name.utf8ByteSize ≤ nameLimit) :
    (record fs).fields? level (fs.map Prod.fst) = some (fs.map fun f => some f.2) := by
  have hall : (named fs).all (fun m =>
      ((fs.map Prod.fst).map Bytes.ofString).contains m.1 || m.2.skippable (nestingLimit - level)) = true := by
    rw [List.all_eq_true]
    intro m hm
    obtain ⟨f, hf, rfl⟩ := List.mem_map.1 hm
    have hcontains : ((fs.map Prod.fst).map Bytes.ofString).contains (Bytes.ofString f.1) = true := by
      simpa using ⟨f.1, ⟨f.2, hf⟩, rfl⟩
    dsimp only
    rw [hcontains, Bool.true_or]
  have hlookup :
      ((fs.map Prod.fst).map Bytes.ofString).mapM (field? · (named fs)) = some (fs.map fun f => some f.2) := by
    rw [mapM_eq_some_iff, List.map_map, List.map_map, List.map_map]
    exact List.map_congr_left fun f hf => field?_named hnodup hf
  rw [record_eq, fields?, untagged]
  · dsimp only
    rw [namedMembers?_record h]
    exact (if_pos hall).trans hlookup
  · simp

end Item

end DocMesh.Cbor
