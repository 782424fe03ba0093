/-
# Well-formed values

The objects of a well-formed value list their members in ascending order of the names, each name once. Reading
makes no others, and where objects are well-formed their members say everything about them.

Main statements:

* `eq_of_lookup_eq` : ascending members are determined by what is looked up in them;
* `wellFormed_of_parse?` : values that are read are well-formed;
* `depth_lt_of_mem_items`, `depth_lt_of_mem_members` : parts of a value nest less deep.
-/
import DocMesh.Json.Reader
import DocMesh.Proofs.Ordered

namespace DocMesh

namespace Json

variable {ms ns : List (String × Json)} {m : String × Json} {items : List Json} {name : String}
  {v w : Json}

/-! ## Looking up members -/

theorem lookup_eq_find? (ms : List (String × Json)) (name : String) :
    ms.lookup name = (ms.find? fun m => compare m.1 name == .eq).map Prod.snd := by
  simp only [compare_beq_eq]
  induction ms with
  | nil => rfl
  | cons m ms ih =>
    rw [List.lookup_cons, List.find?_cons]
    by_cases h : m.1 = name
    · subst h
      simp
    · have hbeq : (name == m.1) = false := beq_false_of_ne fun heq => h heq.symm
      rw [hbeq, decide_eq_false h, ih]

theorem mem_of_lookup (h : ms.lookup name = some v) : (name, v) ∈ ms := by
  rw [lookup_eq_find?, Option.map_eq_some_iff] at h
  obtain ⟨m, hm, rfl⟩ := h
  have htest := List.find?_some hm
  rw [compare_beq_eq, decide_eq_true_iff] at htest
  rw [← htest]
  exact List.mem_of_find?_eq_some hm

theorem lookup_eq_none_iff : ms.lookup name = none ↔ ∀ m ∈ ms, m.1 ≠ name := by
  rw [lookup_eq_find?, Option.map_eq_none_iff, List.find?_eq_none]
  simp only [compare_beq_eq, decide_eq_true_iff, ne_eq]

theorem lookup_of_mem (h : Ascending Prod.fst ms) (hm : m ∈ ms) : ms.lookup m.1 = some m.2 := by
  rw [lookup_eq_find?, h.find?_eq_some hm]
  rfl

/-- After `place` the placed member is looked up, and all others as before. -/
theorem lookup_place (m : String × Json) (ms : List (String × Json)) (name : String) :
    (place Prod.fst m ms).lookup name = if m.1 = name then some m.2 else ms.lookup name := by
  rw [lookup_eq_find?, find?_place, lookup_eq_find?]
  split <;> rfl

/-- Ascending members are determined by what is looked up in them. -/
theorem eq_of_lookup_eq (hms : Ascending Prod.fst ms) (hns : Ascending Prod.fst ns)
    (h : ∀ name, ms.lookup name = ns.lookup name) : ms = ns := by
  have hmem : ∀ {ms ns : List (String × Json)}, Ascending Prod.fst ms →
      (∀ name, ms.lookup name = ns.lookup name) → ∀ m ∈ ms, m ∈ ns := by
    intro ms ns hms h m hm
    have hfound : ns.lookup m.1 = some m.2 := (h m.1).symm.trans (lookup_of_mem hms hm)
    exact mem_of_lookup hfound
  have heq : (⟨ms, hms⟩ : Ordered (Prod.fst : String × Json → String)) = ⟨ns, hns⟩ := by
    apply Ordered.eq_of_mem_iff
    intro m
    exact ⟨hmem hms h m, hmem hns (fun name => (h name).symm) m⟩
  exact congrArg Ordered.toList heq

/-! ## Well-formed values -/

/-- The members of all objects in the value ascend by their names. -/
inductive WellFormed : Json → Prop where
  | null : WellFormed null
  | bool (b : Bool) : WellFormed (bool b)
  | number (n : JsonNumber) : WellFormed (number n)
  | string (s : String) : WellFormed (string s)
  | array {items : List Json} (h : ∀ v ∈ items, WellFormed v) : WellFormed (array items)
  | object {members : List (String × Json)} (hms : Ascending Prod.fst members)
    (h : ∀ m ∈ members, WellFormed m.2) : WellFormed (object members)

theorem WellFormed.of_mem_items (h : WellFormed (.array items)) (hv : v ∈ items) : v.WellFormed := by
  cases h with
  | array h => exact h v hv

theorem WellFormed.ascending (h : WellFormed (.object ms)) : Ascending Prod.fst ms := by
  cases h with
  | object hms h => exact hms

theorem WellFormed.of_mem_members (h : WellFormed (.object ms)) (hm : m ∈ ms) : m.2.WellFormed := by
  cases h with
  | object hms h => exact h m hm

theorem wellFormed_emptyObject : emptyObject.WellFormed :=
  .object List.Pairwise.nil fun _ hm => nomatch hm

mutual

/-- Decides whether the value is well-formed. -/
def decWellFormed : (v : Json) → Decidable v.WellFormed
  | null => isTrue .null
  | bool b => isTrue (.bool b)
  | number n => isTrue (.number n)
  | string s => isTrue (.string s)
  | array items =>
    match decWellFormedItems items with
    | isTrue h => isTrue (.array h)
    | isFalse h => isFalse fun hwf => h fun _ hv => hwf.of_mem_items hv
  | object members =>
    if hms : Ascending Prod.fst members then
      match decWellFormedMembers members with
      | isTrue h => isTrue (.object hms h)
      | isFalse h => isFalse fun hwf => h fun _ hm => hwf.of_mem_members hm
    else isFalse fun hwf => hms hwf.ascending

/-- Decides whether the items are well-formed. -/
def decWellFormedItems : (items : List Json) → Decidable (∀ v ∈ items, v.WellFormed)
  | [] => isTrue fun _ hv => nomatch hv
  | v :: vs =>
    match decWellFormed v, decWellFormedItems vs with
    | isTrue h, isTrue hs => isTrue (List.forall_mem_cons.2 ⟨h, hs⟩)
    | isFalse h, _ => isFalse fun hall => h (hall v List.mem_cons_self)
    | _, isFalse hs => isFalse fun hall => hs fun w hw => hall w (List.mem_cons_of_mem v hw)

/-- Decides whether the members are well-formed. -/
def decWellFormedMembers : (ms : List (String × Json)) → Decidable (∀ m ∈ ms, m.2.WellFormed)
  | [] => isTrue fun _ hm => nomatch hm
  | (name, v) :: ms =>
    match decWellFormed v, decWellFormedMembers ms with
    | isTrue h, isTrue hs => isTrue (List.forall_mem_cons.2 ⟨h, hs⟩)
    | isFalse h, _ => isFalse fun hall => h (hall (name, v) List.mem_cons_self)
    | _, isFalse hs => isFalse fun hall => hs fun m hm => hall m (List.mem_cons_of_mem _ hm)

end

instance : DecidablePred WellFormed := decWellFormed

/-- Members that ascend make the object that lists them. -/
theorem ofMembers_of_ascending (h : Ascending Prod.fst ms) : ofMembers ms = object ms :=
  congrArg object (foldl_place h)

/-! ## Values that are read -/

/-- Members that are placed one after the other make an object. -/
theorem wellFormed_ofMembers (h : ∀ m ∈ ms, m.2.WellFormed) : (ofMembers ms).WellFormed := by
  suffices hplaced : ∀ ns : List (String × Json), Ascending Prod.fst ns → (∀ n ∈ ns, n.2.WellFormed) →
      (object (ms.foldl (fun ns m => place Prod.fst m ns) ns)).WellFormed from
    hplaced [] List.Pairwise.nil fun _ hn => nomatch hn
  induction ms with
  | nil => exact fun ns hns hwf => .object hns hwf
  | cons m ms ih =>
    intro ns hns hwf
    apply ih (fun n hn => h n (List.mem_cons_of_mem m hn)) _ (hns.place m)
    intro n hn
    rcases mem_place hn with rfl | hn
    · exact h n List.mem_cons_self
    · exact hwf n hn

section Reading

variable {room : Nat} (ih : ∀ {r : Raw} {v : Json}, r.eval? room = some v → v.WellFormed)

include ih

theorem wellFormed_of_evalItems? {rs : List Raw} (h : Raw.evalItems? room rs = some items) :
    ∀ v ∈ items, v.WellFormed := by
  induction rs generalizing items with
  | nil =>
    rw [Raw.evalItems?] at h
    cases h
    exact fun v hv => nomatch hv
  | cons r rs ihs =>
    rw [Raw.evalItems?] at h
    split at h
    · rename_i v vs hv hvs
      cases h
      exact List.forall_mem_cons.2 ⟨ih hv, ihs hvs⟩
    · cases h

theorem wellFormed_of_evalMembers? {rs : List (Bytes × Raw)} (h : Raw.evalMembers? room rs = some ms) :
    ∀ m ∈ ms, m.2.WellFormed := by
  induction rs generalizing ms with
  | nil =>
    rw [Raw.evalMembers?] at h
    cases h
    exact fun m hm => nomatch hm
  | cons r rs ihs =>
    rw [Raw.evalMembers?] at h
    split at h
    · rename_i name v ns hname hv hns
      cases h
      exact List.forall_mem_cons.2 ⟨ih hv, ihs hns⟩
    · cases h

end Reading

theorem wellFormed_of_eval? {room : Nat} {r : Raw} {v : Json} (h : r.eval? room = some v) : v.WellFormed := by
  cases r with
  | null =>
    rw [Raw.eval?] at h
    cases h
    exact .null
  | bool b =>
    rw [Raw.eval?] at h
    cases h
    exact .bool b
  | number n =>
    rw [Raw.eval?] at h
    obtain ⟨x, _, rfl⟩ := Option.map_eq_some_iff.1 h
    exact .number x
  | string s =>
    rw [Raw.eval?] at h
    obtain ⟨x, _, rfl⟩ := Option.map_eq_some_iff.1 h
    exact .string x
  | array rs =>
    cases room with
    | zero => cases h
    | succ room =>
      rw [Raw.eval?] at h
      obtain ⟨items, hitems, rfl⟩ := Option.map_eq_some_iff.1 h
      exact .array (wellFormed_of_evalItems? wellFormed_of_eval? hitems)
  | object rs =>
    cases room with
    | zero => cases h
    | succ room =>
      rw [Raw.eval?] at h
      obtain ⟨members, hmembers, rfl⟩ := Option.map_eq_some_iff.1 h
      exact wellFormed_ofMembers (wellFormed_of_evalMembers? wellFormed_of_eval? hmembers)
termination_by room

/-- Values that are read are well-formed. -/
theorem wellFormed_of_parse? {s : String} (h : parse? s = some v) : v.WellFormed := by
  rw [parse?, parseBytes?] at h
  obtain ⟨r, _, hr⟩ := Option.bind_eq_some_iff.1 h
  exact wellFormed_of_eval? hr

/-! ## Nesting -/

/-- An item nests less deep than its array. -/
theorem depth_lt_of_mem_items (h : v ∈ items) : v.depth < (array items).depth := by
  rw [depth]
  have hle : v.depth ≤ itemsDepth items := by
    induction items with
    | nil => cases h
    | cons w items ih =>
      rw [itemsDepth]
      rcases List.mem_cons.1 h with rfl | h
      · omega
      · have := ih h
        omega
  omega

/-- The value of a member nests less deep than its object. -/
theorem depth_lt_of_mem_members (h : m ∈ ms) : m.2.depth < (object ms).depth := by
  rw [depth]
  have hle : m.2.depth ≤ membersDepth ms := by
    induction ms with
    | nil => cases h
    | cons n ms ih =>
      obtain ⟨name, w⟩ := n
      rw [membersDepth]
      rcases List.mem_cons.1 h with rfl | h
      · show w.depth ≤ max w.depth (membersDepth ms)
        omega
      · have := ih h
        omega
  omega

end Json

end DocMesh
