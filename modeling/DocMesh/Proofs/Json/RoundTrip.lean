/-
# Values are read back

The compact text of a value is read back part by part: its grammar gives the parts in their order, strings are read
back as they are, and numbers as their own texts are read. So a value is read back as it is if it does not nest too
deep and each of its numbers is read back.

Main statements:

* `Raw.value?_chars` : the text of a value is taken apart, whatever follows;
* `Raw.eval?_raw` : what the parts of a text amount to;
* `parse?_text` : what a value is read back as;
* `parse?_text_eq_some_iff` : when a value is read back as it is.
-/
import DocMesh.Proofs.Json.Numeral
import DocMesh.Proofs.Json.WellFormed

namespace DocMesh

namespace Json

/-! ## The parts of a text -/

mutual

/-- The parts of the text of a value. -/
def raw : Json → Raw
  | null => .null
  | bool b => .bool b
  | number n => .number n.spelling.numeral
  | string s => .string (Quoted.inside s)
  | array items => .array (itemsRaw items)
  | object members => .object (membersRaw members)

/-- The parts of the items. -/
def itemsRaw : List Json → List Raw
  | [] => []
  | v :: vs => raw v :: itemsRaw vs

/-- The parts of the members. -/
def membersRaw : List (String × Json) → List (Bytes × Raw)
  | [] => []
  | (name, v) :: ms => (Quoted.inside name, raw v) :: membersRaw ms

end

end Json

namespace Raw

variable {rest : Bytes}

open Bytes (ofChars)

theorem skipBlanks_cons {b : UInt8} (h : isBlank b = false) (rest : Bytes) : skipBlanks (b :: rest) = b :: rest := by
  rw [skipBlanks, List.dropWhile_cons, h]
  rfl

theorem expect?_append (word rest : Bytes) : expect? word (word ++ rest) = some rest := by
  rw [expect?, if_pos (List.isPrefixOf_iff_prefix.2 (List.prefix_append word rest)), List.drop_left]

/-- A number starts with a minus sign or a digit. -/
theorem exists_text_eq_cons (n : JsonNumber) :
    ∃ b bs, ofChars n.text.toList = b :: bs ∧ (b = 45 ∨ isDigit b) := by
  obtain ⟨c, cs, hwhole, hc⟩ := n.proper_spelling.exists_cons
  have hdigit : isDigit (UInt8.ofNat c.toNat) :=
    Bytes.isDigit_of_mem_ofChars (List.forall_mem_singleton.2 hc) _
      (Bytes.ofChars_cons_of_isDigit hc [] ▸ List.mem_cons_self)
  rw [n.toList_text, Spelling.chars, hwhole]
  cases n.spelling.negative with
  | true => exact ⟨45, _, rfl, Or.inl rfl⟩
  | false => exact ⟨_, _, Bytes.ofChars_cons_of_isDigit hc _, Or.inr hdigit⟩

theorem value?_of_number {b : UInt8} (h : b = 45 ∨ isDigit b) (fuel : Nat) (bs : Bytes) :
    value? (fuel + 1) (b :: bs) = (numeral? (b :: bs)).map fun (n, rest) => (number n, rest) := by
  have hother : b ≠ 110 ∧ b ≠ 116 ∧ b ≠ 102 ∧ b ≠ 34 ∧ b ≠ 91 ∧ b ≠ 123 := by
    refine ⟨?_, ?_, ?_, ?_, ?_, ?_⟩ <;>
    · rintro rfl
      revert h
      decide
  obtain ⟨hn, ht, hf, hquote, hbracket, hbrace⟩ := hother
  rw [value?, if_neg hn, if_neg ht, if_neg hf, if_neg hquote, if_neg hbracket, if_neg hbrace]

/-- A byte with which the text of a value can start. -/
def Starts (b : UInt8) : Prop := isBlank b = false ∧ b ≠ 93 ∧ b ≠ 125

theorem starts_of_number {b : UInt8} (h : b = 45 ∨ isDigit b) : Starts b := by
  refine ⟨Bool.eq_false_iff.2 ?_, ?_, ?_⟩
  · intro hblank
    simp only [isBlank, Bool.or_eq_true, beq_iff_eq] at hblank
    rcases hblank with ((rfl | rfl) | rfl) | rfl <;>
    · revert h
      decide
  all_goals
    rintro rfl
    revert h
    decide

/-- The text of a value starts with no blank and no closing bracket. -/
theorem exists_chars_eq_cons (v : Json) : ∃ b bs, ofChars v.chars = b :: bs ∧ Starts b := by
  cases v with
  | null => exact ⟨110, _, rfl, rfl, by decide, by decide⟩
  | bool b => cases b with
    | false => exact ⟨102, _, rfl, rfl, by decide, by decide⟩
    | true => exact ⟨116, _, rfl, rfl, by decide, by decide⟩
  | number n =>
    obtain ⟨b, bs, heq, hb⟩ := exists_text_eq_cons n
    exact ⟨b, bs, heq, starts_of_number hb⟩
  | string s => exact ⟨34, _, Quoted.ofChars_encode s, rfl, by decide, by decide⟩
  | array items => exact ⟨91, _, rfl, rfl, by decide, by decide⟩
  | object members => exact ⟨123, _, rfl, rfl, by decide, by decide⟩

/-! ### Step by step -/

section Step

variable {fuel : Nat} {b : UInt8} {bs next : Bytes} {v : Raw}

theorem value?_array {items : List Raw} (hb : Starts b) (hitems : items? fuel (b :: bs) = some (items, rest)) :
    value? (fuel + 1) (91 :: b :: bs) = some (array items, rest) := by
  rw [value?, if_neg (by decide), if_neg (by decide), if_neg (by decide), if_neg (by decide), if_pos rfl,
    skipBlanks_cons hb.1]
  split
  · rename_i heq
    injection heq with hclose
    exact absurd hclose hb.2.1
  · rw [hitems]
    rfl

theorem value?_object {members : List (Bytes × Raw)} (hb : Starts b)
    (hmembers : members? fuel (b :: bs) = some (members, rest)) :
    value? (fuel + 1) (123 :: b :: bs) = some (object members, rest) := by
  rw [value?, if_neg (by decide), if_neg (by decide), if_neg (by decide), if_neg (by decide), if_neg (by decide),
    if_pos rfl, skipBlanks_cons hb.1]
  split
  · rename_i heq
    injection heq with hclose
    exact absurd hclose hb.2.2
  · rw [hmembers]
    rfl

/-- The last item. -/
theorem items?_last (hv : value? fuel bs = some (v, 93 :: rest)) :
    items? (fuel + 1) bs = some ([v], rest) := by
  rw [items?, hv]
  rfl

/-- An item with others behind it. -/
theorem items?_more {vs : List Raw} (hv : value? fuel bs = some (v, 44 :: b :: next)) (hb : Starts b)
    (hvs : items? fuel (b :: next) = some (vs, rest)) : items? (fuel + 1) bs = some (v :: vs, rest) := by
  rw [items?, hv]
  show (items? fuel (skipBlanks (b :: next))).map _ = _
  rw [skipBlanks_cons hb.1, hvs]
  rfl

/-- The last member. -/
theorem members?_last (name : String) (hb : Starts b) (hv : value? fuel (b :: bs) = some (v, 125 :: rest)) :
    members? (fuel + 1) (34 :: (Quoted.inside name ++ 34 :: 58 :: b :: bs))
      = some ([(Quoted.inside name, v)], rest) := by
  have hcolon : skipBlanks (58 :: b :: bs) = 58 :: b :: bs := rfl
  have hbrace : skipBlanks (125 :: rest) = 125 :: rest := rfl
  simp only [members?, Quoted.scan?_inside, hcolon, skipBlanks_cons hb.1, hv, hbrace]

/-- A member with others behind it. -/
theorem members?_more (name : String) {c : UInt8} {ms : List (Bytes × Raw)} (hb : Starts b)
    (hv : value? fuel (b :: bs) = some (v, 44 :: c :: next)) (hc : Starts c)
    (hms : members? fuel (c :: next) = some (ms, rest)) :
    members? (fuel + 1) (34 :: (Quoted.inside name ++ 34 :: 58 :: b :: bs))
      = some ((Quoted.inside name, v) :: ms, rest) := by
  have hcolon : skipBlanks (58 :: b :: bs) = 58 :: b :: bs := rfl
  have hcomma : skipBlanks (44 :: c :: next) = 44 :: c :: next := rfl
  simp only [members?, Quoted.scan?_inside, hcolon, skipBlanks_cons hb.1, hv, hcomma, skipBlanks_cons hc.1, hms,
    Option.map_some]

end Step

/-! ### Item by item -/

theorem ofChars_itemsChars_last (v : Json) : ofChars (Json.itemsChars [v]) = ofChars v.chars ++ [93] := by
  rw [Json.itemsChars, Bytes.ofChars_append]
  rfl

theorem ofChars_itemsChars_more (v w : Json) (vs : List Json) :
    ofChars (Json.itemsChars (v :: w :: vs))
      = ofChars v.chars ++ 44 :: ofChars (Json.itemsChars (w :: vs)) := by
  rw [Json.itemsChars, Bytes.ofChars_append]
  · rfl
  · exact List.cons_ne_nil w vs

theorem ofChars_membersChars_last (name : String) (v : Json) :
    ofChars (Json.membersChars [(name, v)])
      = 34 :: (Quoted.inside name ++ 34 :: 58 :: (ofChars v.chars ++ [125])) := by
  rw [Json.membersChars, Bytes.ofChars_append, Bytes.ofChars_append, Quoted.ofChars_encode, Bytes.ofChars_cons]
  simp only [List.append_assoc, List.cons_append]
  rfl

theorem ofChars_membersChars_more (name : String) (v : Json) (m : String × Json) (ms : List (String × Json)) :
    ofChars (Json.membersChars ((name, v) :: m :: ms))
      = 34 :: (Quoted.inside name ++ 34 :: 58 :: (ofChars v.chars ++ 44 :: ofChars (Json.membersChars (m :: ms)))) := by
  rw [Json.membersChars, Bytes.ofChars_append, Bytes.ofChars_append, Quoted.ofChars_encode, Bytes.ofChars_cons]
  · simp only [List.append_assoc, List.cons_append]
    rfl
  · exact List.cons_ne_nil m ms

/-- Items start as the first of them. -/
theorem exists_itemsChars_eq_cons (v : Json) (vs : List Json) :
    ∃ b bs, ofChars (Json.itemsChars (v :: vs)) = b :: bs ∧ Starts b := by
  obtain ⟨b, bs, heq, hb⟩ := exists_chars_eq_cons v
  cases vs with
  | nil => exact ⟨b, _, by rw [ofChars_itemsChars_last, heq, List.cons_append], hb⟩
  | cons w vs => exact ⟨b, _, by rw [ofChars_itemsChars_more, heq, List.cons_append], hb⟩

/-- Members start with the quote of the first name. -/
theorem exists_membersChars_eq_cons (m : String × Json) (ms : List (String × Json)) :
    ∃ bs, ofChars (Json.membersChars (m :: ms)) = 34 :: bs := by
  cases ms with
  | nil => exact ⟨_, ofChars_membersChars_last m.1 m.2⟩
  | cons n ms => exact ⟨_, ofChars_membersChars_more m.1 m.2 n ms⟩

theorem starts_quote : Starts 34 := ⟨rfl, by decide, by decide⟩

theorem ends_cons {b : UInt8} (h : b = 44 ∨ b = 93 ∨ b = 125) (bs : Bytes) : Ends (b :: bs) := by
  intro c hc
  cases hc
  exact h

-- Every step uses up one of the fuel, and for each byte there are two.
mutual

/-- **Parts.** The text of a value is taken apart, whatever follows it. -/
theorem value?_chars (v : Json) (fuel : Nat) (hfuel : 2 * (ofChars v.chars).length ≤ fuel) {rest : Bytes}
    (hrest : Ends rest) : value? fuel (ofChars v.chars ++ rest) = some (v.raw, rest) := by
  obtain ⟨b, bs, hstart, hb⟩ := exists_chars_eq_cons v
  obtain ⟨fuel, rfl⟩ : ∃ n, fuel = n + 1 := by
    rw [hstart, List.length_cons] at hfuel
    exact ⟨fuel - 1, by omega⟩
  cases v with
  | null =>
    show (expect? [117, 108, 108] ([117, 108, 108] ++ rest)).map _ = _
    rw [expect?_append]
    rfl
  | bool b =>
    cases b with
    | false =>
      show (expect? [97, 108, 115, 101] ([97, 108, 115, 101] ++ rest)).map _ = _
      rw [expect?_append]
      rfl
    | true =>
      show (expect? [114, 117, 101] ([114, 117, 101] ++ rest)).map _ = _
      rw [expect?_append]
      rfl
  | number n =>
    -- what follows starts with none of the characters that a number can go on with
    obtain ⟨b, bs, htext, hb⟩ := exists_text_eq_cons n
    have hsplit := n.numeral?_text hrest
    rw [htext, List.cons_append] at hsplit
    rw [Json.chars, htext, List.cons_append, value?_of_number hb, hsplit]
    rfl
  | string s =>
    rw [Json.chars, Quoted.ofChars_encode, List.cons_append, List.append_assoc]
    show (Quoted.scan? (Quoted.inside s ++ 34 :: rest)).map _ = _
    rw [Quoted.scan?_inside]
    rfl
  | array items =>
    cases items with
    | nil => rfl
    | cons v vs =>
      obtain ⟨c, cs, hitems, hc⟩ := exists_itemsChars_eq_cons v vs
      have htext : ofChars (Json.array (v :: vs)).chars = 91 :: ofChars (Json.itemsChars (v :: vs)) := rfl
      have hparts := items?_chars v vs fuel (by rw [htext, List.length_cons] at hfuel; omega) rest
      rw [htext, List.cons_append]
      rw [hitems, List.cons_append] at hparts ⊢
      exact value?_array hc hparts
  | object members =>
    cases members with
    | nil => rfl
    | cons m ms =>
      obtain ⟨cs, hmembers⟩ := exists_membersChars_eq_cons m ms
      have htext : ofChars (Json.object (m :: ms)).chars = 123 :: ofChars (Json.membersChars (m :: ms)) := rfl
      have hparts := members?_chars m ms fuel (by rw [htext, List.length_cons] at hfuel; omega) rest
      rw [htext, List.cons_append]
      rw [hmembers, List.cons_append] at hparts ⊢
      exact value?_object starts_quote hparts
termination_by fuel

/-- The text of the items of an array is taken apart. -/
theorem items?_chars (v : Json) (vs : List Json) (fuel : Nat)
    (hfuel : 2 * (ofChars (Json.itemsChars (v :: vs))).length ≤ fuel) (rest : Bytes) :
    items? fuel (ofChars (Json.itemsChars (v :: vs)) ++ rest) = some (Json.itemsRaw (v :: vs), rest) := by
  cases vs with
  | nil =>
    rw [ofChars_itemsChars_last, List.length_append, List.length_singleton] at hfuel
    obtain ⟨fuel, rfl⟩ : ∃ n, fuel = n + 1 := ⟨fuel - 1, by omega⟩
    rw [ofChars_itemsChars_last, List.append_assoc]
    exact items?_last (value?_chars v fuel (by omega) (ends_cons (Or.inr (Or.inl rfl)) rest))
  | cons w vs =>
    rw [ofChars_itemsChars_more, List.length_append, List.length_cons] at hfuel
    obtain ⟨fuel, rfl⟩ : ∃ n, fuel = n + 1 := ⟨fuel - 1, by omega⟩
    obtain ⟨c, cs, hitems, hc⟩ := exists_itemsChars_eq_cons w vs
    have hrest := items?_chars w vs fuel (by omega) rest
    rw [ofChars_itemsChars_more, List.append_assoc]
    rw [hitems] at hrest ⊢
    exact items?_more (value?_chars v fuel (by omega) (ends_cons (Or.inl rfl) _)) hc hrest
termination_by fuel

/-- The text of the members of an object is taken apart. -/
theorem members?_chars (m : String × Json) (ms : List (String × Json)) (fuel : Nat)
    (hfuel : 2 * (ofChars (Json.membersChars (m :: ms))).length ≤ fuel) (rest : Bytes) :
    members? fuel (ofChars (Json.membersChars (m :: ms)) ++ rest) = some (Json.membersRaw (m :: ms), rest) := by
  obtain ⟨name, v⟩ := m
  obtain ⟨b, bs, hvalue, hb⟩ := exists_chars_eq_cons v
  cases ms with
  | nil =>
    rw [ofChars_membersChars_last, List.length_cons, List.length_append, List.length_cons, List.length_cons,
      List.length_append] at hfuel
    obtain ⟨fuel, rfl⟩ : ∃ n, fuel = n + 1 := ⟨fuel - 1, by omega⟩
    have hv := value?_chars v fuel (by omega) (ends_cons (Or.inr (Or.inr rfl)) rest)
    rw [ofChars_membersChars_last]
    simp only [List.cons_append, List.append_assoc, List.nil_append]
    rw [hvalue, List.cons_append] at hv ⊢
    exact members?_last name hb hv
  | cons n ms =>
    rw [ofChars_membersChars_more, List.length_cons, List.length_append, List.length_cons, List.length_cons,
      List.length_append, List.length_cons] at hfuel
    obtain ⟨fuel, rfl⟩ : ∃ n, fuel = n + 1 := ⟨fuel - 1, by omega⟩
    obtain ⟨cs, hmembers⟩ := exists_membersChars_eq_cons n ms
    have hrest := members?_chars n ms fuel (by omega) rest
    have hv := value?_chars v fuel (by omega)
      (ends_cons (Or.inl rfl) (ofChars (Json.membersChars (n :: ms)) ++ rest))
    rw [ofChars_membersChars_more]
    simp only [List.cons_append, List.append_assoc]
    rw [hmembers, List.cons_append] at hrest hv ⊢
    rw [hvalue, List.cons_append] at hv ⊢
    exact members?_more name hb hv starts_quote hrest
termination_by fuel

end

/-- The text of a value is one value. -/
theorem parse?_chars (v : Json) : parse? (ofChars v.chars) = some v.raw := by
  obtain ⟨b, bs, hstart, hb⟩ := exists_chars_eq_cons v
  have hends : Ends [] := fun b hb => nomatch hb
  have hvalue := value?_chars v (2 * (ofChars v.chars).length + 1) (by omega) hends
  rw [List.append_nil] at hvalue
  have hblanks : skipBlanks (ofChars v.chars) = ofChars v.chars := by
    rw [hstart, skipBlanks_cons hb.1]
  rw [parse?, hblanks, hvalue]
  rfl

end Raw

namespace Json

variable {v w : Json} {room : Nat}

/-! ## The value of the parts -/

/-- A number is read back from its text as it is spelled. -/
theorem parse?_number (n : JsonNumber) : parse? n.text = n.spelling.numeral.value?.map number := by
  have hparts : Raw.parse? (Bytes.ofChars n.text.toList) = some (number n).raw := Raw.parse?_chars (number n)
  rw [parse?, parseBytes?, Bytes.ofString_eq_ofChars, hparts]
  rfl

/-- An integer in range is read back. -/
theorem parse?_integer {n : Int} (h : JsonNumber.inRange n) : parse? (toString n) = some (ofInt n) := by
  have hvalue : (JsonNumber.spelling (.integer n)).numeral.value? = some (.integer n) :=
    JsonNumber.value?_integer h
  have hread := parse?_number (.integer n)
  rw [hvalue] at hread
  exact hread

mutual

/-- What is read back of a value, if it can be read: the value with what is read back of its numbers. -/
def reread? : Json → Option Json
  | null => some null
  | bool b => some (bool b)
  | number n => parse? n.text
  | string s => some (string s)
  | array items => (rereadItems? items).map array
  | object members => (rereadMembers? members).map object

/-- What is read back of the items. -/
def rereadItems? : List Json → Option (List Json)
  | [] => some []
  | v :: vs =>
    match reread? v, rereadItems? vs with
    | some v, some vs => some (v :: vs)
    | _, _ => none

/-- What is read back of the members. -/
def rereadMembers? : List (String × Json) → Option (List (String × Json))
  | [] => some []
  | (name, v) :: ms =>
    match reread? v, rereadMembers? ms with
    | some v, some ms => some ((name, v) :: ms)
    | _, _ => none

end

/-- Members keep their names and their order. -/
theorem map_fst_of_rereadMembers? {ms ns : List (String × Json)} (h : rereadMembers? ms = some ns) :
    ns.map Prod.fst = ms.map Prod.fst := by
  induction ms generalizing ns with
  | nil =>
    rw [rereadMembers?] at h
    cases h
    rfl
  | cons m ms ih =>
    rw [rereadMembers?] at h
    split at h
    · rename_i v vs hv hvs
      cases h
      rw [List.map_cons, List.map_cons, ih hvs]
    · cases h

theorem evalItems?_itemsRaw {items : List Json}
    (ih : ∀ v ∈ items, v.raw.eval? room = if v.depth ≤ room then v.reread? else none) :
    Raw.evalItems? room (itemsRaw items) = if itemsDepth items ≤ room then rereadItems? items else none := by
  induction items with
  | nil => rfl
  | cons v vs ihs =>
    rw [itemsRaw, Raw.evalItems?, ih v List.mem_cons_self, ihs fun w hw => ih w (List.mem_cons_of_mem v hw),
      itemsDepth, rereadItems?]
    by_cases hv : v.depth ≤ room
    · by_cases hvs : itemsDepth vs ≤ room
      · rewrite [if_pos hv, if_pos hvs, if_pos (Nat.max_le.2 ⟨hv, hvs⟩)]
        cases v.reread? with
        | none => rfl
        | some v => cases rereadItems? vs <;> rfl
      · rw [if_pos hv, if_neg hvs, if_neg fun h => hvs (Nat.max_le.1 h).2]
        cases v.reread? <;> rfl
    · rw [if_neg hv, if_neg fun h => hv (Nat.max_le.1 h).1]

theorem evalMembers?_membersRaw {ms : List (String × Json)}
    (ih : ∀ m ∈ ms, m.2.raw.eval? room = if m.2.depth ≤ room then m.2.reread? else none) :
    Raw.evalMembers? room (membersRaw ms) = if membersDepth ms ≤ room then rereadMembers? ms else none := by
  induction ms with
  | nil => rfl
  | cons m ms ihs =>
    obtain ⟨name, v⟩ := m
    have hv : v.raw.eval? room = if v.depth ≤ room then v.reread? else none := ih (name, v) List.mem_cons_self
    rw [membersRaw, Raw.evalMembers?, Quoted.decode?_inside, hv,
      ihs fun n hn => ih n (List.mem_cons_of_mem _ hn), membersDepth, rereadMembers?]
    by_cases hv : v.depth ≤ room
    · by_cases hms : membersDepth ms ≤ room
      · rw [if_pos hv, if_pos hms, if_pos (Nat.max_le.2 ⟨hv, hms⟩)]
        cases v.reread? with
        | none => rfl
        | some v => cases rereadMembers? ms <;> rfl
      · rw [if_pos hv, if_neg hms, if_neg fun h => hms (Nat.max_le.1 h).2]
        cases v.reread? <;> rfl
    · rw [if_neg hv, if_neg fun h => hv (Nat.max_le.1 h).1]

/-- Ascending members make an object again when they have been read back. -/
theorem map_ofMembers {ms : List (String × Json)} (hms : Ascending Prod.fst ms) :
    (rereadMembers? ms).map ofMembers = (rereadMembers? ms).map object := by
  rcases hread : rereadMembers? ms with _ | ns
  · rfl
  · have hns : Ascending Prod.fst ns := by
      rw [Ascending, ← List.pairwise_map (f := Prod.fst) (R := fun a b => compare a b = .lt)] at hms ⊢
      rw [map_fst_of_rereadMembers? hread]
      exact hms
    rw [Option.map_some, Option.map_some, ofMembers_of_ascending hns]

/-- **Values.** The parts of a text amount to what is read back of its value, if it does not nest too deep. -/
theorem eval?_raw (h : v.WellFormed) (room : Nat) :
    v.raw.eval? room = if v.depth ≤ room then v.reread? else none := by
  -- the induction is on well-formedness: an object is made again only if its members ascend
  induction h generalizing room with
  | null => rfl
  | bool b => rfl
  | number n =>
    rw [reread?, parse?_number]
    rfl
  | string s =>
    rw [raw, Raw.eval?, Quoted.decode?_inside]
    rfl
  | @array items h ih =>
    rw [raw, depth]
    cases room with
    | zero => rfl
    | succ room =>
      rw [Raw.eval?, evalItems?_itemsRaw fun v hv => ih v hv room, reread?]
      by_cases hdepth : itemsDepth items ≤ room
      · rw [if_pos hdepth, if_pos (Nat.succ_le_succ hdepth)]
      · rw [if_neg hdepth, if_neg fun h => hdepth (Nat.le_of_succ_le_succ h)]
        rfl
  | @object ms hms h ih =>
    rw [raw, depth]
    cases room with
    | zero => rfl
    | succ room =>
      rw [Raw.eval?, evalMembers?_membersRaw fun m hm => ih m hm room, reread?]
      by_cases hdepth : membersDepth ms ≤ room
      · rw [if_pos hdepth, if_pos (Nat.succ_le_succ hdepth), map_ofMembers hms]
      · rw [if_neg hdepth, if_neg fun h => hdepth (Nat.le_of_succ_le_succ h)]
        rfl

/-- **What is read back.** A value that nests no deeper than allowed is read back number by number, and one that nests
deeper cannot be read. -/
theorem parse?_text (h : v.WellFormed) : parse? v.text = if v.depth ≤ nestingLimit then v.reread? else none := by
  rw [parse?, parseBytes?, text, Bytes.ofString_ofList, Raw.parse?_chars]
  exact eval?_raw h nestingLimit

/-! ## Values that are read back as they are -/

mutual

/-- The numbers in a value. -/
def numbers : Json → List JsonNumber
  | number n => [n]
  | array items => itemsNumbers items
  | object members => membersNumbers members
  | _ => []

/-- The numbers in the items. -/
def itemsNumbers : List Json → List JsonNumber
  | [] => []
  | v :: vs => numbers v ++ itemsNumbers vs

/-- The numbers in the members. -/
def membersNumbers : List (String × Json) → List JsonNumber
  | [] => []
  | (_, v) :: ms => numbers v ++ membersNumbers ms

end

theorem rereadItems?_eq_some_iff {items : List Json}
    (ih : ∀ v ∈ items, v.reread? = some v ↔ ∀ n ∈ v.numbers, parse? n.text = some (number n)) :
    rereadItems? items = some items ↔ ∀ n ∈ itemsNumbers items, parse? n.text = some (number n) := by
  induction items with
  | nil => exact ⟨fun _ => List.forall_mem_nil _, fun _ => rfl⟩
  | cons v vs ihs =>
    rw [itemsNumbers, List.forall_mem_append, ← ih v List.mem_cons_self,
      ← ihs fun w hw => ih w (List.mem_cons_of_mem v hw), rereadItems?]
    cases v.reread? with
    | none => simp
    | some w => cases rereadItems? vs <;> simp

theorem rereadMembers?_eq_some_iff {ms : List (String × Json)}
    (ih : ∀ m ∈ ms, m.2.reread? = some m.2 ↔ ∀ n ∈ m.2.numbers, parse? n.text = some (number n)) :
    rereadMembers? ms = some ms ↔ ∀ n ∈ membersNumbers ms, parse? n.text = some (number n) := by
  induction ms with
  | nil => exact ⟨fun _ => List.forall_mem_nil _, fun _ => rfl⟩
  | cons m ms ihs =>
    obtain ⟨name, v⟩ := m
    rw [membersNumbers, List.forall_mem_append, ← ih (name, v) List.mem_cons_self,
      ← ihs fun n hn => ih n (List.mem_cons_of_mem _ hn), rereadMembers?]
    cases v.reread? with
    | none => simp
    | some w => cases rereadMembers? ms <;> simp

/-- A value is read back as it is exactly if its numbers are. -/
theorem reread?_eq_some_iff (h : v.WellFormed) :
    v.reread? = some v ↔ ∀ n ∈ v.numbers, parse? n.text = some (number n) := by
  induction h with
  | null => exact ⟨fun _ => List.forall_mem_nil _, fun _ => rfl⟩
  | bool b => exact ⟨fun _ => List.forall_mem_nil _, fun _ => rfl⟩
  | string s => exact ⟨fun _ => List.forall_mem_nil _, fun _ => rfl⟩
  | number n => rw [numbers, reread?, List.forall_mem_singleton]
  | array h ih =>
    rw [numbers, reread?, ← rereadItems?_eq_some_iff ih]
    simp
  | object hms h ih =>
    rw [numbers, reread?, ← rereadMembers?_eq_some_iff ih]
    simp

/-- **When a value is read back as it is.** It nests no deeper than allowed, and each of its numbers is read back from
the number's own text. -/
theorem parse?_text_eq_some_iff (h : v.WellFormed) :
    parse? v.text = some v ↔ v.depth ≤ nestingLimit ∧ ∀ n ∈ v.numbers, parse? n.text = some (number n) := by
  rw [parse?_text h, ← reread?_eq_some_iff h]
  by_cases hdepth : v.depth ≤ nestingLimit
  · simp only [hdepth, if_true, true_and]
  · simp only [hdepth, if_false, false_and, reduceCtorEq]

end Json

end DocMesh
