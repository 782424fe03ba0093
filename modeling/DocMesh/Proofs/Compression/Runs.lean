/-
# Runs become short

A long run of one byte goes into a single step. At the second place of the run that the search comes to, if not before,
the same four bytes stand as at the first one, and from there on the bytes agree up to the end of the run. What a step
takes in the written block grows by one byte for 255 bytes that it repeats.

Main statements:

* `Block.length_encode_le` : how long a written block is at most, by the length of its first repetition;
* `Text.exists_search_run` : the search finds two places of a run;
* `Text.exists_sequences_run` : the first step of a text with a run reaches nearly to the end of the run;
* `length_encode_ofBytes_run` : how long the written block of a byte string with a run is at most;
* `Compression.length_compress_run_le` : what becomes of a payload that is a run for the most part.
-/
import DocMesh.Proofs.Compression.Scheme

namespace DocMesh.Lz4

/-! ## Written lengths -/

/-- A length takes at most a fifteenth of itself beside the token. -/
theorem length_extension_le (n : Nat) : 15 * (extension n).length ≤ n := by
  unfold extension
  split_ifs
  · exact Nat.zero_le n
  · rw [List.length_append, List.length_replicate, List.length_singleton]
    omega

/-- What a step takes in the written block. -/
theorem Sequence.length_encode_le {q : Sequence} (hlong : minMatch ≤ q.length) :
    15 * q.encode.length ≤ 16 * q.literals.length + q.length + 41 := by
  have hliterals := length_extension_le q.literals.length
  have hlength := length_extension_le (q.length - minMatch)
  rw [Sequence.encode, List.length_cons, List.length_append, List.length_append, List.length_append,
    Bytes.length_littleEndian]
  unfold minMatch at hlong hlength ⊢
  omega

/-- Written steps are hardly longer than what they add. -/
theorem length_flatMap_encode_le {qs : List Sequence} {out : Array UInt8} (h : StepsFit out.size qs) :
    15 * (qs.flatMap Sequence.encode).length + 16 * out.size ≤ 16 * (qs.foldl Sequence.run out).size := by
  induction qs generalizing out with
  | nil => simp
  | cons q qs ih =>
    rw [StepsFit, ← size_run] at h
    have hq := Sequence.length_encode_le h.1.long
    have hqs := ih h.2
    have hlong := h.1.long
    rw [size_run] at hqs
    rw [List.flatMap_cons, List.length_append, List.foldl_cons]
    unfold minMatch at hlong
    omega

/-- **How long a written block is at most.** What its first step repeats hardly counts. -/
theorem Block.length_encode_le {b : Block} {q : Sequence} {qs : List Sequence} (hb : b.sequences = q :: qs)
    (h : StepsFit 0 b.sequences) :
    15 * b.encode.length + 15 * q.length ≤ 16 * b.content.length + 56 := by
  rw [hb, StepsFit, Nat.zero_add] at h
  have hsize : (q.run #[]).size = q.literals.length + q.length := by
    rw [size_run]
    exact congrArg (· + q.length) (Nat.zero_add _)
  rw [← hsize] at h
  have hq := Sequence.length_encode_le h.1.long
  have hqs := length_flatMap_encode_le h.2
  have hend := length_extension_le b.literals.length
  have hcontent : b.content.length = (qs.foldl Sequence.run (q.run #[])).size + b.literals.length := by
    rw [Block.content, hb, List.foldl_cons, Array.length_toList, size_appendBytes]
  rw [hcontent, Block.encode, hb, List.flatMap_cons, List.length_append, List.length_append, List.length_cons,
    List.length_append]
  omega

namespace Text

variable {w : Text} {table : Array Nat} {b : UInt8} {first last i j d m n fuel tries : Nat}

/-! ## Runs -/

/-- From the place `first` on, up to the place `last`, only the one byte stands. -/
def Run (w : Text) (b : UInt8) (first last : Nat) : Prop := ∀ k, first ≤ k → k < last → w.byte k = b

/-- The four bytes at a place up to `n` do not stand at an earlier place. -/
def Fresh (w : Text) (n : Nat) : Prop := ∀ i, i ≤ n → ∀ j, j < i → w.word i ≠ w.word j

instance (w : Text) (n : Nat) : Decidable (w.Fresh n) :=
  inferInstanceAs (Decidable (∀ i, i ≤ n → ∀ j, j < i → w.word i ≠ w.word j))

/-- Where the bytes agree, the words do. -/
theorem word_congr {v : Text} (h : ∀ k, k < minMatch → w.byte (i + k) = v.byte (j + k)) : w.word i = v.word j := by
  have h₀ := h 0 (by decide)
  have h₁ := h 1 (by decide)
  have h₂ := h 2 (by decide)
  have h₃ := h 3 (by decide)
  rw [word, word, h₁, h₂, h₃, ← Nat.add_zero i, ← Nat.add_zero j, h₀]

theorem hash_lt (w : Text) (i : Nat) : w.hash i < hashes := by
  unfold hash hashes
  split_ifs
  · have hlt := (w.word i * 2654435761).toNat_lt
    rw [UInt32.toNat_shiftRight, Nat.shiftRight_eq_div_pow]
    exact Nat.div_lt_of_lt_mul hlt
  · have hlt := (w.fiveBytes i * 889523592379).toNat_lt
    rw [UInt64.toNat_shiftRight, Nat.shiftRight_eq_div_pow]
    exact Nat.div_lt_of_lt_mul hlt

namespace Run

variable (h : w.Run b first last)

include h

theorem word_eq (hi : first ≤ i) (hil : i + minMatch ≤ last) (hj : first ≤ j) (hjl : j + minMatch ≤ last) :
    w.word i = w.word j := by
  apply word_congr
  intro k hk
  rw [h (i + k) (by omega) (by omega), h (j + k) (by omega) (by omega)]

theorem hash_eq (hi : first ≤ i) (hil : i + minMatch < last) (hj : first ≤ j) (hjl : j + minMatch < last) :
    w.hash i = w.hash j := by
  have hword := h.word_eq hi (Nat.le_of_lt hil) hj (Nat.le_of_lt hjl)
  have hbyte : w.byte (i + 4) = w.byte (j + 4) := by
    rw [h (i + 4) (by omega) hil, h (j + 4) (by omega) hjl]
  rw [hash, hash, fiveBytes, fiveBytes, hword, hbyte]

/-- What stands again at a place of the run, or in front of it, stands in the run. -/
theorem le_of_word_eq (hfresh : w.Fresh first) (hi : i + minMatch ≤ last) (hfirst : first + minMatch ≤ last)
    (hj : j < i) (hword : w.word i = w.word j) : first ≤ j := by
  by_cases hfront : i ≤ first
  · exact absurd hword (hfresh i hfront j hj)
  · have hrun : w.word i = w.word first := h.word_eq (by omega) hi (Nat.le_refl _) hfirst
    apply Nat.le_of_not_lt
    intro hlt
    exact hfresh first (Nat.le_refl _) j hlt (hrun.symm.trans hword)

end Run

/-! ## The search in a run -/

/-- What the table holds for the bytes at a place is found if the same bytes stand there. -/
theorem search_of_getD (hsize : i + startMargin ≤ w.size) (hj : table.getD (w.hash i) 0 = j)
    (hnear : i - j ≤ maxDistance) (hword : w.word i = w.word j) :
    w.search (fuel + 1) table i tries = (table.setIfInBounds (w.hash i) i, some (i, j)) := by
  have hfound : (decide (i - j ≤ maxDistance) && w.word i == w.word j) = true := by
    rw [Bool.and_eq_true, decide_eq_true_eq, beq_iff_eq]
    exact ⟨hnear, hword⟩
  simp only [search]
  rw [if_neg (by omega), hj, if_pos hfound]

/-- A place of the run that stands in the table is found at the next one. -/
theorem Run.search_next (h : w.Run b first last) (hhashes : table.size = hashes) (hi : first ≤ i)
    (hlast : i + n + startMargin ≤ last) (hsize : last ≤ w.size) (hnear : n ≤ maxDistance) :
    ∃ table', w.search (fuel + 1) (table.setIfInBounds (w.hash i) i) (i + n) tries = (table', some (i + n, i)) := by
  have hmatch : minMatch + 8 = startMargin := rfl
  have hbound : w.hash i < table.size := by
    rw [hhashes]
    exact w.hash_lt i
  have hget : (table.setIfInBounds (w.hash i) i).getD (w.hash (i + n)) 0 = i := by
    rw [h.hash_eq (show first ≤ i + n by omega) (by omega) hi (by omega), Array.getD_eq_getD_getElem?,
      Array.getElem?_setIfInBounds_self_of_lt hbound]
    rfl
  have hword : w.word (i + n) = w.word i := h.word_eq (by omega) (by omega) hi (by omega)
  exact ⟨_, search_of_getD (by omega) hget (by omega) hword⟩

/-- **The search finds two places of a run**, if nothing in front of the run stands there twice. -/
theorem exists_search_run (hrun : w.Run b first last) (hfresh : w.Fresh first) (hnear : first ≤ maxDistance)
    (hlast : last ≤ w.size) (hroom : 4 * first + 20 ≤ last) (ht : Before table i) (hhashes : table.size = hashes)
    (hi : i ≤ 2 * first + 1) (hlow : 32 ≤ tries) (hhigh : tries ≤ i + 31) (hfuel : 2 * first + 3 ≤ fuel + i) :
    ∃ table' n j, w.search fuel table i tries = (table', some (n, j)) ∧ n ≤ 4 * first + 2 ∧ first ≤ j := by
  have hmatch : minMatch = 4 := rfl
  have hmargin : startMargin = 12 := rfl
  have hdistance : maxDistance = 65535 := rfl
  induction fuel generalizing table i tries with
  | zero => omega
  | succ fuel ih =>
    have hset : Before (table.setIfInBounds (w.hash i) i) (i + 1) :=
      (ht.mono (Nat.le_succ i)).setIfInBounds (Nat.lt_succ_self i) _
    simp only [search]
    rw [if_neg (by omega)]
    split_ifs with hfound
    · -- whatever is found is in the run
      rw [Bool.and_eq_true, decide_eq_true_eq, beq_iff_eq] at hfound
      exact ⟨_, i, _, rfl, by omega, hrun.le_of_word_eq hfresh (by omega) (by omega) (ht _) hfound.2⟩
    · by_cases hfront : i < first
      · apply ih (hset.mono (by omega))
        · rw [Array.size_setIfInBounds, hhashes]
        all_goals omega
      · -- the next place of the run repeats this one
        obtain ⟨fuel, rfl⟩ : ∃ k, fuel = k + 1 := ⟨fuel - 1, by omega⟩
        obtain ⟨table', hnext⟩ := hrun.search_next hhashes (Nat.le_of_not_lt hfront)
          (show i + tries / 32 + startMargin ≤ last by omega) hlast (by omega)
        exact ⟨table', _, i, hnext, by omega, by omega⟩

/-! ## The step of a run -/

/-- A repetition reaches at least as far as the bytes are known to agree. -/
theorem add_le_lastCommon (h : w.Repeats d (j + d) (j + d + m)) (hm : m ≤ n) :
    j + d + m ≤ w.lastCommon n (j + d) j := by
  induction m generalizing n j with
  | zero => exact (le_lastCommon n j d).1
  | succ m ih =>
    obtain ⟨n, rfl⟩ : ∃ k, n = k + 1 := ⟨n - 1, by omega⟩
    have hbyte : w.byte (j + d) = w.byte j := by
      rw [h (j + d) (Nat.le_refl _) (by omega), Nat.add_sub_cancel]
    have hrest : w.Repeats d (j + 1 + d) (j + 1 + d + m) := fun k hk hkm => h k (by omega) (by omega)
    have hle := ih hrest (Nat.le_of_succ_le_succ hm)
    rw [lastCommon, if_pos (beq_iff_eq.2 hbyte), show j + d + 1 = j + 1 + d by omega]
    omega

/-- The repetition of one place of a run at another one reaches up to the end of the run, or nearly to the end of the
text. -/
theorem Run.le_stopOf (h : w.Run b first last) (hj : first ≤ j) (hji : j ≤ i)
    (hi : i + minMatch + endMargin ≤ last) (hlast : last ≤ w.size) : last ≤ w.stopOf i j + endMargin := by
  obtain ⟨d, rfl⟩ := Nat.exists_eq_add_of_le hji
  have hrepeats : w.Repeats d (j + minMatch + d) (j + minMatch + d + (last - endMargin - (j + d + minMatch))) := by
    intro k hk hkl
    rw [h k (by omega) (by omega), h (k - d) (by omega) (by omega)]
  have hle := add_le_lastCommon (n := w.size - endMargin - (j + d + minMatch)) hrepeats (by omega)
  rw [stopOf, show j + d + minMatch = j + minMatch + d by omega]
  rw [show j + d + minMatch = j + minMatch + d by omega] at hle
  omega

/-- **The first step of a text with a run** repeats nearly all of the run. -/
theorem exists_sequences_run (hrun : w.Run b first last) (hfresh : w.Fresh first) (hnear : first ≤ maxDistance)
    (hlast : last ≤ w.size) (hroom : 4 * first + 20 ≤ last) (fuel : Nat) :
    ∃ q qs, (w.sequences (fuel + 1) (Array.replicate hashes 0) 0 1).1 = q :: qs ∧ last ≤ q.length + 4 * first + 8 := by
  have hbefore : Before (Array.replicate hashes 0) 1 := before_replicate hashes Nat.one_pos
  obtain ⟨table, n, j, hfound, hn, hj⟩ : ∃ table n j, w.search w.size (Array.replicate hashes 0) 1 32
      = (table, some (n, j)) ∧ n ≤ 4 * first + 2 ∧ first ≤ j :=
    exists_search_run hrun hfresh hnear hlast hroom hbefore Array.size_replicate (by omega) (Nat.le_refl 32) (by omega)
      (by omega)
  obtain ⟨-, hmargin, hjn, hdistance, hword, -⟩ := search_eq_some hbefore (Nat.le_refl 32) hfound
  have hstep : w.Repetition 0 n j := repetition_of_word_eq (Nat.zero_le n) hmargin hjn hdistance hword
  have hends : minMatch = 4 ∧ endMargin = 6 := ⟨rfl, rfl⟩
  have hstop := hrun.le_stopOf hj (Nat.le_of_lt hjn) (by omega) hlast
  have hfirst := hstep.first
  have hlength : last ≤ w.stopOf n j - w.firstCommon 0 n j + 4 * first + 8 := by omega
  rw [sequences_succ, hfound]
  exact ⟨w.stepOf 0 n j, _, rfl, hlength⟩

/-! ## Byte strings with a run -/

variable {head tail bs : Bytes}

theorem byte_mk (bs : Bytes) (k : Nat) : byte ⟨bs.toArray⟩ k = bs.getD k 0 := by
  rw [byte, Array.getD_eq_getD_getElem?, List.getElem?_toArray, List.getD_eq_getElem?_getD]

theorem run_mk (head : Bytes) (b : UInt8) (n : Nat) (tail : Bytes) :
    Run ⟨(head ++ List.replicate n b ++ tail).toArray⟩ b head.length (head.length + n) := by
  intro k hk hkn
  have hrun : k < (head ++ List.replicate n b).length := by
    rw [List.length_append, List.length_replicate]
    exact hkn
  rw [byte_mk, List.getD_eq_getElem?_getD, List.getElem?_append_left hrun, List.getElem?_append_right hk,
    List.getElem?_replicate, if_pos (by omega), Option.getD_some]

/-- For what stands in front of a run, only its first four bytes count. -/
theorem fresh_mk (hn : minMatch ≤ n) (h : Fresh ⟨(head ++ List.replicate minMatch b).toArray⟩ head.length)
    (tail : Bytes) : Fresh ⟨(head ++ List.replicate n b ++ tail).toArray⟩ head.length := by
  have hsplit : head ++ List.replicate n b ++ tail
      = head ++ List.replicate minMatch b ++ (List.replicate (n - minMatch) b ++ tail) := by
    rw [List.append_assoc, List.append_assoc, ← List.append_assoc (List.replicate minMatch b),
      List.replicate_append_replicate, Nat.add_sub_cancel' hn]
  have hword : ∀ i, i ≤ head.length → word ⟨(head ++ List.replicate n b ++ tail).toArray⟩ i
      = word ⟨(head ++ List.replicate minMatch b).toArray⟩ i := by
    intro i hi
    apply word_congr
    intro k hk
    have hlength : i + k < (head ++ List.replicate minMatch b).length := by
      rw [List.length_append, List.length_replicate]
      omega
    rw [byte_mk, byte_mk, hsplit, List.getD_eq_getElem?_getD, List.getElem?_append_left hlength,
      List.getD_eq_getElem?_getD]
  intro i hi j hj
  rw [hword i hi, hword j (Nat.le_trans (Nat.le_of_lt hj) hi)]
  exact h i hi j hj

end Text

/-- **How long the block of a byte string with a run is at most**: of the run hardly anything is left. -/
theorem length_encode_ofBytes_run {head : Bytes} {b : UInt8} {n : Nat}
    (hfresh : Text.Fresh ⟨(head ++ List.replicate minMatch b).toArray⟩ head.length) (hnear : head.length ≤ maxDistance)
    (hn : 3 * head.length + 20 ≤ n) (tail : Bytes) :
    15 * (Block.ofBytes (head ++ List.replicate n b ++ tail)).encode.length
      ≤ n + 61 * head.length + 16 * tail.length + 176 := by
  obtain ⟨hsteps, hcontent⟩ := content_ofBytes (head ++ List.replicate n b ++ tail)
  have hlength : (head ++ List.replicate n b ++ tail).length = head.length + n + tail.length := by
    rw [List.length_append, List.length_append, List.length_replicate]
  have hsize : Text.size ⟨(head ++ List.replicate n b ++ tail).toArray⟩ = head.length + n + tail.length := by
    rw [Text.size, List.size_toArray, hlength]
  have hlong : minMatch ≤ n := by
    unfold minMatch
    omega
  obtain ⟨q, qs, hfirst, hq⟩ := Text.exists_sequences_run (Text.run_mk head b n tail) (Text.fresh_mk hlong hfresh tail)
    hnear (by omega) (by omega) (head.length + n + tail.length - 1)
  have hsequences : (Block.ofBytes (head ++ List.replicate n b ++ tail)).sequences = q :: qs := by
    rw [Block.ofBytes, Text.block, if_neg (by unfold Text.startMargin; omega), hsize]
    rw [show head.length + n + tail.length - 1 + 1 = head.length + n + tail.length by omega] at hfirst
    exact hfirst
  have hencode := Block.length_encode_le hsequences hsteps
  rw [hcontent, hlength] at hencode
  omega

end DocMesh.Lz4

namespace DocMesh.Compression

/-- A payload that is a long run for the most part is compressed to less than a seventh of the run. -/
theorem length_compress_run_le {head : Bytes} {b : UInt8} {n : Nat}
    (hfresh : Lz4.Text.Fresh ⟨(head ++ List.replicate Lz4.minMatch b).toArray⟩ head.length)
    (hnear : head.length ≤ Lz4.maxDistance) (tail : Bytes) (hn : 61 * head.length + 16 * tail.length + 236 ≤ n) :
    15 * (lz4.compress (head ++ List.replicate n b ++ tail)).length ≤ 2 * n := by
  have hblock := Lz4.length_encode_ofBytes_run (n := n) hfresh hnear (by omega) tail
  rw [compress, List.length_append, Bytes.length_littleEndian]
  omega

end DocMesh.Compression
