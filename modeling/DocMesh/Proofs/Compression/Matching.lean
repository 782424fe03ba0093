/-
# What the search finds

The table only holds places before the one that is looked at, so the place that is found for a repetition stands
before it and has the same four bytes. The repetition is made longer to both sides as far as the bytes agree. Each
step of the block therefore adds the next bytes of the text, and the block builds the text.

Main statements:

* `search_eq_some` : a place that is found begins with the bytes that stand at an earlier place;
* `le_firstCommon`, `le_lastCommon` : how far a repetition reaches;
* `run_sequences` : the steps can be carried out and build the text up to the end of the last one;
* `content_ofBytes` : the block that is made of a byte string builds it.
-/
import DocMesh.Compression.Matching
import DocMesh.Proofs.Compression.Block
import Mathlib.Algebra.Group.Nat.Defs

namespace DocMesh.Lz4

namespace Text

variable {w : Text} {table table' : Array Nat} {start first stop i j d n k fuel tries : Nat}

/-! ## The front of a text -/

/-- The bytes before a place. -/
def front (w : Text) (n : Nat) : Array UInt8 := w.bytes.extract 0 n

theorem size_front (hn : n ≤ w.size) : (w.front n).size = n := by
  unfold size at hn
  simp [front, hn]

theorem front_size (w : Text) : w.front w.size = w.bytes := by
  simp [front, size]

theorem getD_front (hk : k < n) (hn : n ≤ w.size) : (w.front n).getD k 0 = w.byte k := by
  have hsize : k < w.bytes.size := Nat.lt_of_lt_of_le hk hn
  have hfront : k < (w.front n).size := by
    rw [size_front hn]
    exact hk
  rw [byte, Array.getD, dif_pos hfront, Array.getD, dif_pos hsize]
  simp [front]

theorem push_front (hn : n < w.size) : (w.front n).push (w.byte n) = w.front (n + 1) := by
  have hsize : n < w.bytes.size := hn
  rw [byte, Array.getD, dif_pos hsize, front, front]
  simp

theorem appendBytes_slice (hstart : start ≤ stop) :
    appendBytes (w.front start) (w.slice start stop) = w.front stop := by
  rw [appendBytes, slice, List.foldl_push_eq_append', Array.toArray_toList, front, front,
    Array.extract_append_extract, Nat.min_eq_left (Nat.zero_le _), Nat.max_eq_right hstart]

/-! ## Repetitions -/

/-- Between two places the same bytes stand as `d` bytes before. -/
def Repeats (w : Text) (d start stop : Nat) : Prop := ∀ k, start ≤ k → k < stop → w.byte k = w.byte (k - d)

theorem Repeats.append (h₁ : w.Repeats d start i) (h₂ : w.Repeats d i stop) : w.Repeats d start stop := by
  intro k hstart hstop
  by_cases hk : k < i
  · exact h₁ k hstart hk
  · exact h₂ k (by omega) hstop

/-- Repeating bytes of the text adds the next ones where the text repeats itself. -/
theorem repeatBytes_front (hd : 0 < d) (hin : d ≤ start) (hn : start + n ≤ w.size)
    (h : w.Repeats d start (start + n)) : repeatBytes d n (w.front start) = w.front (start + n) := by
  induction n generalizing start with
  | zero => rfl
  | succ n ih =>
    have hbyte : (w.front start).getD (start - d) 0 = w.byte start := by
      rw [getD_front (by omega) (by omega), h start (by omega) (by omega)]
    rw [repeatBytes, size_front (by omega), hbyte, push_front (by omega), ih (by omega) (by omega)]
    · congr 1
      omega
    · intro k hlow hhigh
      exact h k (by omega) (by omega)

/-- A step adds the bytes up to a repetition and the repetition. -/
theorem run_front (hfirst : start ≤ first) (hstop : first ≤ stop) (hsize : stop ≤ w.size) (hd : 0 < d)
    (hin : d ≤ first) (h : w.Repeats d first stop) :
    (Sequence.mk (w.slice start first) d (stop - first)).run (w.front start) = w.front stop := by
  have hlength : first + (stop - first) = stop := by omega
  rw [Sequence.run, appendBytes_slice hfirst]
  dsimp only
  rw [repeatBytes_front hd hin (by omega) (by rwa [hlength]), hlength]

/-- A part that stands above another one in a word is added to it. -/
theorem or_shiftLeft_eq_add {m a b : Nat} (ha : a < 2 ^ m) : a ||| b <<< m = a + 2 ^ m * b := by
  rw [Nat.or_comm, ← Nat.shiftLeft_add_eq_or_of_lt ha, Nat.shiftLeft_eq, Nat.mul_comm, Nat.add_comm]

/-- The word at a place as a number. -/
theorem toNat_word (w : Text) (i : Nat) : (w.word i).toNat
    = (w.byte i).toNat + 2 ^ 8 * (w.byte (i + 1)).toNat + 2 ^ 16 * (w.byte (i + 2)).toNat
      + 2 ^ 24 * (w.byte (i + 3)).toNat := by
  have h₀ := (w.byte i).toNat_lt
  have h₁ := (w.byte (i + 1)).toNat_lt
  have h₂ := (w.byte (i + 2)).toNat_lt
  have h₃ := (w.byte (i + 3)).toNat_lt
  have hshift : (w.word i).toNat = (w.byte i).toNat ||| (w.byte (i + 1)).toNat <<< 8 % 2 ^ 32 |||
      (w.byte (i + 2)).toNat <<< 16 % 2 ^ 32 ||| (w.byte (i + 3)).toNat <<< 24 % 2 ^ 32 := by
    simp [word]
  have hmod : ∀ {b m : Nat}, b * 2 ^ m < 2 ^ 32 → b <<< m % 2 ^ 32 = b <<< m := by
    intro b m hb
    rw [Nat.shiftLeft_eq, Nat.mod_eq_of_lt hb]
  have h₀₁ : (w.byte i).toNat + 2 ^ 8 * (w.byte (i + 1)).toNat < 2 ^ 16 := by omega
  have h₀₂ : (w.byte i).toNat + 2 ^ 8 * (w.byte (i + 1)).toNat + 2 ^ 16 * (w.byte (i + 2)).toNat < 2 ^ 24 := by
    omega
  rw [hshift, hmod (by omega), hmod (by omega), hmod (by omega), or_shiftLeft_eq_add h₀,
    or_shiftLeft_eq_add h₀₁, or_shiftLeft_eq_add h₀₂]

/-- Where the words agree, four bytes do. -/
theorem repeats_of_word_eq (hj : j ≤ i) (h : w.word i = w.word j) : w.Repeats (i - j) i (i + minMatch) := by
  have hword : (w.word i).toNat = (w.word j).toNat := by rw [h]
  have hbyte := fun k => (w.byte k).toNat_lt
  have hi₀ := hbyte i
  have hi₁ := hbyte (i + 1)
  have hi₂ := hbyte (i + 2)
  have hi₃ := hbyte (i + 3)
  have hj₀ := hbyte j
  have hj₁ := hbyte (j + 1)
  have hj₂ := hbyte (j + 2)
  have hj₃ := hbyte (j + 3)
  rw [toNat_word, toNat_word] at hword
  intro k hlow hhigh
  have hk : k = i ∨ k = i + 1 ∨ k = i + 2 ∨ k = i + 3 := by
    unfold minMatch at hhigh
    omega
  rw [← UInt8.toNat_inj]
  rcases hk with rfl | rfl | rfl | rfl
  · rw [show k - (k - j) = j by omega]
    omega
  · rw [show i + 1 - (i - j) = j + 1 by omega]
    omega
  · rw [show i + 2 - (i - j) = j + 2 by omega]
    omega
  · rw [show i + 3 - (i - j) = j + 3 by omega]
    omega

/-! ## The search -/

/-- All places in the table stand before `i`. -/
def Before (table : Array Nat) (i : Nat) : Prop := ∀ h, table.getD h 0 < i

theorem Before.mono (ht : Before table i) (hij : i ≤ j) : Before table j := fun h => Nat.lt_of_lt_of_le (ht h) hij

theorem Before.setIfInBounds (ht : Before table i) (hn : n < i) (h : Nat) : Before (table.setIfInBounds h n) i := by
  intro k
  have hk := ht k
  rw [Array.getD_eq_getD_getElem?] at hk ⊢
  rw [Array.getElem?_setIfInBounds]
  split_ifs
  · exact hn
  · exact Nat.lt_of_le_of_lt (Nat.zero_le n) hn
  · exact hk

/-- A new table holds only the first place. -/
theorem before_replicate (k : Nat) (hi : 0 < i) : Before (Array.replicate k 0) i := by
  intro h
  rw [Array.getD_eq_getD_getElem?, Array.getElem?_replicate]
  split <;> exact hi

/-- **A place that is found repeats an earlier one.** -/
theorem search_eq_some (ht : Before table i) (htries : 32 ≤ tries)
    (h : w.search fuel table i tries = (table', some (n, j))) :
    i ≤ n ∧ n + startMargin ≤ w.size ∧ j < n ∧ n - j ≤ maxDistance ∧ w.word n = w.word j ∧
      Before table' (n + 1) := by
  induction fuel generalizing table i tries with
  | zero => cases h
  | succ fuel ih =>
    have hset : Before (table.setIfInBounds (w.hash i) i) (i + 1) :=
      (ht.mono (Nat.le_succ i)).setIfInBounds (Nat.lt_succ_self i) _
    simp only [search] at h
    split at h
    · cases h
    · split at h
      case isTrue hsize hfound =>
        cases h
        rw [Bool.and_eq_true, decide_eq_true_eq, beq_iff_eq] at hfound
        exact ⟨Nat.le_refl _, by omega, ht _, hfound.1, hfound.2, hset⟩
      case isFalse hsize hfound =>
        -- the search goes on behind `i`, which now stands in the table
        have ih := ih (hset.mono (show i + 1 ≤ i + tries / 32 by omega)) (by omega) h
        exact ⟨by omega, ih.2⟩

/-- How far a repetition reaches to the left. -/
theorem le_firstCommon (hstart : start ≤ j + d) :
    start ≤ w.firstCommon start (j + d) j ∧ d ≤ w.firstCommon start (j + d) j ∧
      w.firstCommon start (j + d) j ≤ j + d ∧ w.Repeats d (w.firstCommon start (j + d) j) (j + d) := by
  induction j with
  | zero =>
    have hnone : w.firstCommon start (0 + d) 0 = 0 + d := by
      cases d <;> rfl
    rw [hnone]
    refine ⟨hstart, by omega, Nat.le_refl _, ?_⟩
    intro k hlow hhigh
    omega
  | succ j ih =>
    rw [show j + 1 + d = j + d + 1 by omega, firstCommon]
    split_ifs with hcommon
    · rw [Bool.and_eq_true, decide_eq_true_eq, beq_iff_eq] at hcommon
      obtain ⟨hleft, hin, hright, hrepeats⟩ := ih hcommon.1
      refine ⟨hleft, hin, by omega, hrepeats.append ?_⟩
      intro k hlow hhigh
      obtain rfl : k = j + d := by omega
      rw [hcommon.2, Nat.add_sub_cancel]
    · refine ⟨by omega, by omega, Nat.le_refl _, ?_⟩
      intro k hlow hhigh
      omega

/-- How far a repetition reaches to the right. -/
theorem le_lastCommon (n j d : Nat) :
    j + d ≤ w.lastCommon n (j + d) j ∧ w.lastCommon n (j + d) j ≤ j + d + n ∧
      w.Repeats d (j + d) (w.lastCommon n (j + d) j) := by
  induction n generalizing j with
  | zero =>
    refine ⟨Nat.le_refl _, Nat.le_refl _, ?_⟩
    intro k hlow hhigh
    rw [lastCommon] at hhigh
    omega
  | succ n ih =>
    rw [lastCommon]
    split_ifs with hcommon
    · rw [beq_iff_eq] at hcommon
      obtain ⟨hleft, hright, hrepeats⟩ := ih (j + 1)
      rw [show j + 1 + d = j + d + 1 by omega] at hleft hright hrepeats
      refine ⟨by omega, by omega, Repeats.append (i := j + d + 1) ?_ hrepeats⟩
      intro k hlow hhigh
      obtain rfl : k = j + d := by omega
      rw [hcommon, Nat.add_sub_cancel]
    · refine ⟨Nat.le_refl _, by omega, ?_⟩
      intro k hlow hhigh
      omega

/-! ## Steps -/

/-- Where the repetition at `i` of the bytes at `j` ends. -/
def stopOf (w : Text) (i j : Nat) : Nat :=
  w.lastCommon (w.size - endMargin - (i + minMatch)) (i + minMatch) (j + minMatch)

/-- The step that adds the bytes from `start` up to the end of the repetition at `i` of the bytes at `j`. -/
def stepOf (w : Text) (start i j : Nat) : Sequence :=
  ⟨w.slice start (w.firstCommon start i j), i - j, w.stopOf i j - w.firstCommon start i j⟩

/-- The bytes at `i` repeat those at `j`, as far as a step needs it. -/
structure Repetition (w : Text) (start i j : Nat) : Prop where
  earlier : j < i
  near : i - j ≤ maxDistance
  left : start ≤ w.firstCommon start i j
  inside : i - j ≤ w.firstCommon start i j
  first : w.firstCommon start i j ≤ i
  long : i + minMatch ≤ w.stopOf i j
  right : w.stopOf i j ≤ w.size
  repeats : w.Repeats (i - j) (w.firstCommon start i j) (w.stopOf i j)

/-- Four bytes that stand at an earlier place make a repetition. -/
theorem repetition_of_word_eq (hstart : start ≤ i) (hi : i + startMargin ≤ w.size) (hj : j < i)
    (hnear : i - j ≤ maxDistance) (hword : w.word i = w.word j) : w.Repetition start i j := by
  obtain ⟨d, rfl⟩ := Nat.exists_eq_add_of_le (Nat.le_of_lt hj)
  have hd : j + d - j = d := by omega
  have hmiddle := repeats_of_word_eq (Nat.le_add_right j d) hword
  obtain ⟨hleft, hin, hfirst, hbefore⟩ := le_firstCommon (w := w) hstart
  obtain ⟨hstop, hlimit, hafter⟩ :=
    le_lastCommon (w := w) (w.size - endMargin - (j + d + minMatch)) (j + minMatch) d
  rw [show j + minMatch + d = j + d + minMatch by omega] at hstop hlimit hafter
  rw [hd] at hmiddle
  refine ⟨hj, hnear, hleft, hd.symm ▸ hin, hfirst, hstop, ?_,
    hd.symm ▸ (hbefore.append hmiddle).append hafter⟩
  unfold stopOf
  unfold startMargin at hi
  unfold endMargin minMatch at hlimit ⊢
  omega

namespace Repetition

variable (h : w.Repetition start i j)

include h

theorem length_literals : (w.stepOf start i j).literals.length = w.firstCommon start i j - start := by
  obtain ⟨-, -, -, -, hfirst, hlong, hright, -⟩ := h
  unfold size at hright
  rw [stepOf, slice, Array.length_toList, Array.size_extract]
  omega

/-- The step can be carried out behind the bytes before `start`. -/
theorem fits : (w.stepOf start i j).Fits start := by
  have hliterals := h.length_literals
  obtain ⟨hearlier, hnear, hleft, hinside, hfirst, hlong, hright, -⟩ := h
  refine ⟨?_, ?_, hnear, ?_⟩
  · exact Nat.sub_pos_of_lt hearlier
  · rw [hliterals]
    show i - j ≤ _
    omega
  · show minMatch ≤ w.stopOf i j - w.firstCommon start i j
    omega

/-- How far the step comes. -/
theorem add_length : start + (w.stepOf start i j).literals.length + (w.stepOf start i j).length = w.stopOf i j := by
  have hliterals := h.length_literals
  obtain ⟨-, -, hleft, -, hfirst, hlong, -, -⟩ := h
  rw [hliterals]
  show start + (w.firstCommon start i j - start) + (w.stopOf i j - w.firstCommon start i j) = _
  omega

/-- The step adds the bytes up to the end of the repetition. -/
theorem run_stepOf : (w.stepOf start i j).run (w.front start) = w.front (w.stopOf i j) := by
  obtain ⟨hearlier, -, hleft, hinside, hfirst, hlong, hright, hrepeats⟩ := h
  exact run_front hleft (by omega) hright (by omega) hinside hrepeats

end Repetition

/-! ## The block -/

/-- The block is made step by step. -/
theorem sequences_succ (w : Text) (fuel : Nat) (table : Array Nat) (start i : Nat) :
    w.sequences (fuel + 1) table start i =
      match w.search w.size table i 32 with
      | (_, none) => ([], start)
      | (table, some (i, j)) =>
        let stop := w.stopOf i j
        let (rest, last) := w.sequences fuel (table.setIfInBounds (w.hash (stop - 2)) (stop - 2)) stop stop
        (w.stepOf start i j :: rest, last) := rfl

/-- **The steps build the text up to the end of the last one.** -/
theorem run_sequences (ht : Before table i) (hstart : start ≤ i) (hsize : start ≤ w.size) :
    StepsFit start (w.sequences fuel table start i).1 ∧ (w.sequences fuel table start i).2 ≤ w.size ∧
      (w.sequences fuel table start i).1.foldl Sequence.run (w.front start)
        = w.front (w.sequences fuel table start i).2 := by
  induction fuel generalizing table start i with
  | zero => exact ⟨trivial, hsize, rfl⟩
  | succ fuel ih =>
    rw [sequences_succ]
    split
    case h_1 => exact ⟨trivial, hsize, rfl⟩
    case h_2 table' n j hfound =>
      obtain ⟨hn, hmargin, hj, hnear, hword, ht'⟩ := search_eq_some ht (Nat.le_refl 32) hfound
      have hstep : w.Repetition start n j := repetition_of_word_eq (by omega) hmargin hj hnear hword
      have hlong : n + 4 ≤ w.stopOf n j := hstep.long
      have hbefore : Before (table'.setIfInBounds (w.hash (w.stopOf n j - 2)) (w.stopOf n j - 2)) (w.stopOf n j) :=
        (ht'.mono (by omega)).setIfInBounds (by omega) _
      obtain ⟨hsteps, hlast, hfoldl⟩ := ih hbefore (Nat.le_refl _) hstep.right
      refine ⟨⟨hstep.fits, ?_⟩, hlast, ?_⟩
      · rw [hstep.add_length]
        exact hsteps
      · rw [List.foldl_cons, hstep.run_stepOf]
        exact hfoldl

end Text

/-- **The block that is made of a byte string builds it**, by steps that can be carried out. -/
theorem content_ofBytes (bs : Bytes) :
    StepsFit 0 (Block.ofBytes bs).sequences ∧ (Block.ofBytes bs).content = bs := by
  have hfront : ∀ w : Text, w.front 0 = #[] := by
    intro w
    simp [Text.front]
  -- what the steps leave over is appended at the end
  have hlast : ∀ w : Text, ∀ last ≤ w.size, appendBytes (w.front last) (w.slice last w.size) = w.bytes := by
    intro w last hle
    rw [Text.appendBytes_slice hle, Text.front_size]
  unfold Block.ofBytes Text.block Block.content
  split_ifs with hshort
  · refine ⟨trivial, ?_⟩
    rw [List.foldl_nil, ← hfront ⟨bs.toArray⟩, hlast _ 0 (Nat.zero_le _)]
  · obtain ⟨hsteps, hle, hrun⟩ := Text.run_sequences (w := ⟨bs.toArray⟩)
      (Text.before_replicate Text.hashes Nat.one_pos) (Nat.zero_le 1) (Nat.zero_le _)
    refine ⟨hsteps, ?_⟩
    rw [← hfront ⟨bs.toArray⟩]
    dsimp only
    rw [hrun, hlast _ _ hle]

end DocMesh.Lz4
