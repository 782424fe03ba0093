/-
# Reading a written block

A block whose steps can be carried out one after the other is read back: reading its written form builds what the
block itself builds, if that is no longer than the limit. Nothing longer than the limit is ever built.

Main statements:

* `build?_encode` : reading written steps carries them out;
* `decode?_encode` : a written block is read to its content;
* `decode?_encode_eq_some_iff` : only its content is read from a written block, whatever the limit.
-/
import DocMesh.Compression.Block
import Mathlib.Tactic.SplitIfs

namespace DocMesh.Lz4

variable {q : Sequence} {qs : List Sequence} {b : Block} {out built : Array UInt8} {s rest bs : Bytes}
  {limit limit' fuel m n size distance : Nat}

/-! ## Building -/

@[simp] theorem size_appendBytes (out : Array UInt8) (bs : Bytes) :
    (appendBytes out bs).size = out.size + bs.length := by
  simp [appendBytes]

@[simp] theorem size_repeatBytes (distance n : Nat) (out : Array UInt8) :
    (repeatBytes distance n out).size = out.size + n := by
  induction n generalizing out with
  | zero => rfl
  | succ n ih =>
    rw [repeatBytes, ih, Array.size_push]
    omega

@[simp] theorem size_run (q : Sequence) (out : Array UInt8) :
    (q.run out).size = out.size + q.literals.length + q.length := by
  simp [Sequence.run]

/-- The step can be carried out where `size` bytes have been built, and it can be written. -/
structure Sequence.Fits (q : Sequence) (size : Nat) : Prop where
  positive : 0 < q.distance
  inside : q.distance ≤ size + q.literals.length
  near : q.distance ≤ maxDistance
  long : minMatch ≤ q.length

/-- The steps can be carried out one after the other where `size` bytes have been built. -/
def StepsFit : Nat → List Sequence → Prop
  | _, [] => True
  | size, q :: qs => q.Fits size ∧ StepsFit (size + q.literals.length + q.length) qs

/-- What has been built only grows. -/
theorem size_le_size_foldl (qs : List Sequence) (out : Array UInt8) :
    out.size ≤ (qs.foldl Sequence.run out).size := by
  induction qs generalizing out with
  | nil => exact Nat.le_refl _
  | cons q qs ih =>
    have hq : out.size ≤ (q.run out).size := by
      rw [size_run]
      omega
    exact Nat.le_trans hq (ih (q.run out))

/-! ## Lengths -/

/-- The two parts of a token. -/
theorem toNat_token (m n : Nat) : (token m n).toNat / 16 = nibble m ∧ (token m n).toNat % 16 = nibble n := by
  have hbyte : (token m n).toNat = 16 * nibble m + nibble n := by
    rw [token, UInt8.toNat_ofNat']
    unfold nibble
    omega
  have hn : nibble n < 16 := by
    unfold nibble
    omega
  omega

/-- A length that is continued is read back. -/
theorem extended?_extension (k m : Nat) {r : Nat} (hr : r < 255) (rest : Bytes) :
    extended? m (List.replicate k 255 ++ [UInt8.ofNat r] ++ rest) = some (m + 255 * k + r, rest) := by
  induction k generalizing m with
  | zero =>
    have hbyte : (UInt8.ofNat r).toNat = r := by
      rw [UInt8.toNat_ofNat']
      omega
    have hne : UInt8.ofNat r ≠ 255 := by
      intro h
      rw [h] at hbyte
      simp at hbyte
      omega
    simp [extended?, hne, hbyte]
  | succ k ih =>
    rw [List.replicate_succ, List.cons_append, List.cons_append, extended?, if_pos rfl, ih]
    congr 2
    omega

/-- A length is read back from the token and what follows it. -/
theorem length?_extension (n : Nat) (rest : Bytes) : length? (nibble n) (extension n ++ rest) = some (n, rest) := by
  unfold length? extension nibble
  by_cases h : n < 15
  · rw [if_neg (by omega), if_pos h, Nat.min_eq_left (by omega)]
    rfl
  · rw [if_pos (by omega), if_neg h, extended?_extension _ _ (Nat.mod_lt _ (by omega))]
    congr 2
    omega

theorem literals?_append (bs rest : Bytes) : literals? bs.length (bs ++ rest) = some (bs, rest) := by
  simp [literals?]

/-! ## Reading -/

/-- Reading a written step carries it out. -/
theorem build?_cons (hq : q.Fits out.size) (hlimit : (q.run out).size ≤ limit) (rest : Bytes) :
    build? limit (fuel + 1) out (q.encode ++ rest) = build? limit fuel (q.run out) rest := by
  obtain ⟨hpos, hinside, hnear, hlong⟩ := hq
  rw [size_run] at hlimit
  obtain ⟨hhigh, hlow⟩ := toNat_token q.literals.length (q.length - minMatch)
  have hdistance : (UInt8.ofNat q.distance).toNat + 256 * (UInt8.ofNat (q.distance / 256)).toNat = q.distance := by
    rw [UInt8.toNat_ofNat', UInt8.toNat_ofNat']
    unfold maxDistance at hnear
    omega
  have hlength : q.length - minMatch + minMatch = q.length := by omega
  rw [Sequence.encode, List.cons_append, build?, hhigh, hlow]
  simp only [List.append_assoc, length?_extension]
  rw [if_neg (by omega), literals?_append]
  simp only [Bytes.littleEndian, List.cons_append, List.nil_append, length?_extension, hdistance, hlength]
  rw [if_neg, Sequence.run]
  rw [size_appendBytes]
  omega

/-- Reading the end of a block appends the literals there. -/
theorem build?_literals (hlimit : out.size + bs.length ≤ limit) :
    build? limit (fuel + 1) out (token bs.length 0 :: (extension bs.length ++ bs)) = some (appendBytes out bs) := by
  obtain ⟨hhigh, -⟩ := toNat_token bs.length 0
  have hliterals := literals?_append bs []
  rw [List.append_nil] at hliterals
  rw [build?, hhigh, length?_extension]
  dsimp only
  rw [if_neg (by omega), hliterals]

/-- Reading written steps carries them out. -/
theorem build?_encode (hqs : StepsFit out.size qs) (hlimit : (qs.foldl Sequence.run out).size ≤ limit)
    (rest : Bytes) :
    build? limit (qs.length + fuel) out (qs.flatMap Sequence.encode ++ rest)
      = build? limit fuel (qs.foldl Sequence.run out) rest := by
  induction qs generalizing out with
  | nil => simp
  | cons q qs ih =>
    rw [StepsFit, ← size_run] at hqs
    rw [List.foldl_cons] at hlimit ⊢
    have hq : (q.run out).size ≤ limit := Nat.le_trans (size_le_size_foldl qs (q.run out)) hlimit
    rw [List.flatMap_cons, List.append_assoc, List.length_cons, Nat.add_right_comm, build?_cons hqs.1 hq,
      ih hqs.2 hlimit]

theorem length_le_length_flatMap (qs : List Sequence) : qs.length ≤ (qs.flatMap Sequence.encode).length := by
  induction qs with
  | nil => exact Nat.le_refl _
  | cons q qs ih =>
    rw [List.flatMap_cons, List.length_append, Sequence.encode, List.length_cons, List.length_cons]
    omega

/-- A written block is read to its content. -/
theorem decode?_encode (h : StepsFit 0 b.sequences) (hlimit : b.content.length ≤ limit) :
    decode? limit b.encode = some b.content := by
  have hfuel := length_le_length_flatMap b.sequences
  obtain ⟨fuel, hfuel⟩ : ∃ fuel, b.encode.length + 1 = b.sequences.length + (fuel + 1) := by
    refine ⟨b.encode.length - b.sequences.length, ?_⟩
    rw [Block.encode, List.length_append]
    omega
  rw [Block.content, Array.length_toList, size_appendBytes] at hlimit
  have hsteps : StepsFit (#[] : Array UInt8).size b.sequences := h
  rw [decode?, hfuel, Block.encode, build?_encode hsteps (by omega), build?_literals hlimit, Block.content]
  rfl

/-! ## The limit -/

theorem length_of_literals? (h : literals? n s = some (bs, rest)) : bs.length = n := by
  unfold literals? at h
  dsimp only at h
  split_ifs at h with hn
  cases h
  exact hn

/-- Nothing longer than the limit is built. -/
theorem size_le_of_build? (h : build? limit fuel out s = some built) : built.size ≤ limit := by
  fun_induction build? limit fuel out s with
  | case6 fuel out b s count rest hcount hlimit bs built' hbs =>
    obtain rfl : appendBytes out bs = built := Option.some.inj h
    rw [size_appendBytes, length_of_literals? hbs]
    omega
  | case10 fuel out b s count rest hcount hlimit bs out' low high rest' distance n rest'' hn hfits hbs ih =>
    exact ih h
  | _ => cases h

/-- What is built within a limit is built within a higher one. -/
theorem build?_mono (h : build? limit fuel out s = some built) (hle : limit ≤ limit') :
    build? limit' fuel out s = some built := by
  fun_induction build? limit fuel out s with
  | case6 fuel out b s count rest hcount hlimit bs built' hbs =>
    rw [build?, hcount]
    dsimp only
    rw [if_neg (by omega), hbs]
    exact h
  | case10 fuel out b s count rest hcount hlimit bs out' low high rest' distance n rest'' hn hfits hbs ih =>
    rw [build?, hcount]
    dsimp only
    rw [if_neg (by omega), hbs]
    dsimp only
    rw [hn]
    dsimp only
    rw [if_neg (show ¬ (distance = 0 ∨ out'.size < distance ∨ limit' < out'.size + (n + minMatch)) by omega)]
    exact ih h
  | _ => cases h

/-- Only its content is read from a written block, and only within a limit that it keeps. -/
theorem decode?_encode_eq_some_iff (h : StepsFit 0 b.sequences) :
    decode? limit b.encode = some bs ↔ b.content.length ≤ limit ∧ bs = b.content := by
  constructor
  · intro hread
    rw [decode?, Option.map_eq_some_iff] at hread
    obtain ⟨built, hbuild, rfl⟩ := hread
    -- within a limit that is high enough for both, the same is read twice
    have hhigh : decode? (max limit b.content.length) b.encode = some built.toList := by
      rw [decode?, build?_mono hbuild (Nat.le_max_left _ _)]
      rfl
    rw [decode?_encode h (Nat.le_max_right _ _), Option.some_inj] at hhigh
    refine ⟨?_, hhigh.symm⟩
    rw [hhigh, Array.length_toList]
    exact size_le_of_build? hbuild
  · rintro ⟨hlimit, rfl⟩
    exact decode?_encode h hlimit

end DocMesh.Lz4
