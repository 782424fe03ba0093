/-
# What is given as a seed

A seed is given as `collection/key=content`. What stands in front of the content ends at the first equals sign of the
whole text, and the collection ends at the first slash in front of this sign. So there are no slashes in a collection
and no equals signs in a collection or a key, but a key may have slashes in it, and the content may have both. A text
that can be split in this way can be split in one way only.

Main statements:

* `Split.unique` : the parts of a text are determined by it;
* `ofChars_append_append` : what is made of a text that has all its separators;
* `parse_eq_ok_iff` : the texts that give a seed, and which seed;
* `given_iff` : the seeds that are given, and the texts that are refused.
-/
import DocMesh.Proofs.Cli.Input
import Mathlib.Data.Set.Subsingleton

namespace DocMesh

/-- A text is split at the first place of a character in one way only. -/
theorem append_cons_inj_of_not_mem {c : Char} {front back front' back' : List Char} (h : c ∉ front) (h' : c ∉ front')
    (heq : front ++ c :: back = front' ++ c :: back') : front = front' ∧ back = back' := by
  have hsplit := splitFirst?_eq_some_iff.2 ⟨heq, h'⟩
  rw [splitFirst?_eq_some_iff.2 ⟨rfl, h⟩] at hsplit
  exact Prod.mk.inj (Option.some.inj hsplit)

namespace Seed

variable {s collection key content : String} {seed : Seed} {cs ks : List Char}

/-! ## The parts of a text -/

/-- The text is `collection/key=content`. Neither of the names is empty, there is no equals sign in them, and no slash
in the collection. -/
structure Split (s collection key content : String) : Prop where
  eq : s = collection ++ "/" ++ key ++ "=" ++ content
  collection_ne : collection ≠ ""
  slash_notMem : '/' ∉ collection.toList
  equals_notMem_collection : '=' ∉ collection.toList
  key_ne : key ≠ ""
  equals_notMem_key : '=' ∉ key.toList

theorem Split.toList_eq (h : Split s collection key content) :
    s.toList = (collection.toList ++ '/' :: key.toList) ++ '=' :: content.toList := by
  rw [h.eq]
  simp

/-- There is no equals sign in front of the content. -/
theorem Split.equals_notMem (h : Split s collection key content) : '=' ∉ collection.toList ++ '/' :: key.toList := by
  simp [h.equals_notMem_collection, h.equals_notMem_key]

/-- **A text is split in one way only.** -/
theorem Split.unique {collection' key' content' : String} (h : Split s collection key content)
    (h' : Split s collection' key' content') : collection = collection' ∧ key = key' ∧ content = content' := by
  obtain ⟨hpath, hcontent⟩ := append_cons_inj_of_not_mem h.equals_notMem h'.equals_notMem
    (h.toList_eq.symm.trans h'.toList_eq)
  obtain ⟨hcollection, hkey⟩ := append_cons_inj_of_not_mem h.slash_notMem h'.slash_notMem hpath
  exact ⟨String.toList_inj.1 hcollection, String.toList_inj.1 hkey, String.toList_inj.1 hcontent⟩

/-! ## What is made of a text -/

/-- Of a text with all separators a seed is made, unless a name is empty or the content is not a JSON text. -/
theorem ofChars_append_append (hequals : '=' ∉ cs ++ '/' :: ks) (hslash : '/' ∉ cs) (text : List Char) :
    ofChars ((cs ++ '/' :: ks) ++ '=' :: text) =
      if cs = [] ∨ ks = [] then .error .emptyName
      else
        match Json.parse? (String.ofList text) with
        | some content => .ok ⟨String.ofList cs, String.ofList ks, content⟩
        | none => .error (.notJson "not a JSON text") := by
  have hempty : (cs.isEmpty || ks.isEmpty) = true ↔ cs = [] ∨ ks = [] := by simp
  rw [ofChars, splitFirst?_eq_some_iff.2 ⟨rfl, hequals⟩]
  dsimp only
  rw [splitFirst?_eq_some_iff.2 ⟨rfl, hslash⟩]
  exact if_congr hempty rfl rfl

theorem ofChars_eq_ok_iff :
    ofChars s.toList = .ok seed ↔
      ∃ content, Split s seed.collection seed.key content ∧ Json.parse? content = some seed.content := by
  constructor
  · intro h
    rcases hpath : splitFirst? '=' s.toList with _ | ⟨path, text⟩
    · rw [ofChars, hpath] at h
      cases h
    rcases hnames : splitFirst? '/' path with _ | ⟨cs, ks⟩
    · rw [ofChars, hpath] at h
      dsimp only at h
      rw [hnames] at h
      cases h
    obtain ⟨hs, hequals⟩ := splitFirst?_eq_some_iff.1 hpath
    obtain ⟨rfl, hslash⟩ := splitFirst?_eq_some_iff.1 hnames
    rw [hs, ofChars_append_append hequals hslash] at h
    split_ifs at h with hempty
    rw [not_or] at hempty
    split at h
    · rename_i content hcontent
      cases h
      rw [List.mem_append, List.mem_cons, not_or, not_or] at hequals
      refine ⟨String.ofList text, ⟨?_, by simpa using hempty.1, by simpa using hslash, by simpa using hequals.1,
        by simpa using hempty.2, by simpa using hequals.2.2⟩, hcontent⟩
      rw [← String.toList_inj, hs]
      simp
    · cases h
  · rintro ⟨content, hsplit, hcontent⟩
    have hcollection : seed.collection.toList ≠ [] := by simpa using hsplit.collection_ne
    have hkey : seed.key.toList ≠ [] := by simpa using hsplit.key_ne
    rw [hsplit.toList_eq, ofChars_append_append hsplit.equals_notMem hsplit.slash_notMem,
      if_neg (not_or.2 ⟨hcollection, hkey⟩), String.ofList_toList, hcontent, String.ofList_toList, String.ofList_toList]

/-- **The texts that give a seed**, and which seed. -/
theorem parse_eq_ok_iff :
    parse s = .ok seed ↔
      ∃ content, Split s seed.collection seed.key content ∧ Json.parse? content = some seed.content := by
  rw [← ofChars_eq_ok_iff, parse]
  rcases ofChars s.toList with fault | seed'
  · exact iff_of_false nofun nofun
  · rw [Except.ok.injEq, Except.ok.injEq]

/-- **What is given as a seed.** A text gives a seed exactly if it is a collection, a slash, a key, an equals sign and
a JSON text, where the names are not empty and have no equals sign in them, and the collection has no slash in it; the
seed consists of these parts, and there is no other way to split the text. All other texts are refused as invalid
seeds. -/
theorem given_iff (s : String) :
    (∀ collection key content, parse s = .ok ⟨collection, key, content⟩ ↔
      ∃ text, s = collection ++ "/" ++ key ++ "=" ++ text ∧
        (collection ≠ "" ∧ '/' ∉ collection.toList ∧ '=' ∉ collection.toList) ∧
        (key ≠ "" ∧ '=' ∉ key.toList) ∧ Json.parse? text = some content) ∧
      {parts : String × String × String | Split s parts.1 parts.2.1 parts.2.2}.Subsingleton ∧
      ((∃ fault, parse s = .error (.invalidSeed s fault)) ↔
        ¬ ∃ collection key text content, Split s collection key text ∧ Json.parse? text = some content) := by
  refine ⟨?_, ?_, ?_⟩
  · intro collection key content
    rw [parse_eq_ok_iff]
    constructor
    · rintro ⟨text, h, hcontent⟩
      exact ⟨text, h.eq, ⟨h.collection_ne, h.slash_notMem, h.equals_notMem_collection⟩,
        ⟨h.key_ne, h.equals_notMem_key⟩, hcontent⟩
    · rintro ⟨text, hs, ⟨hcollection, hslash, hequals⟩, ⟨hkey, hequals'⟩, hcontent⟩
      exact ⟨text, ⟨hs, hcollection, hslash, hequals, hkey, hequals'⟩, hcontent⟩
  · rintro ⟨collection, key, text⟩ h ⟨collection', key', text'⟩ h'
    obtain ⟨rfl, rfl, rfl⟩ := Split.unique h h'
    rfl
  · rcases hparse : ofChars s.toList with fault | seed
    · refine iff_of_true ⟨fault, by rw [parse, hparse]⟩ ?_
      rintro ⟨collection, key, text, content, h, hcontent⟩
      have hok : ofChars s.toList = .ok ⟨collection, key, content⟩ := ofChars_eq_ok_iff.2 ⟨text, h, hcontent⟩
      cases hparse.symm.trans hok
    · obtain ⟨text, h, hcontent⟩ := ofChars_eq_ok_iff.1 hparse
      refine iff_of_false ?_ (not_not_intro ⟨_, _, text, _, h, hcontent⟩)
      rw [parse, hparse]
      exact nofun

/-- A key may have slashes in it, and the content may have slashes and equals signs in it. -/
example : parse "notes/2024/x=\"a/b=c\"" = .ok ⟨"notes", "2024/x", .string "a/b=c"⟩ := by decide +kernel

end Seed

end DocMesh
