/-
# Restoring compressed payloads

A compressed payload is restored within a limit that its length keeps. The length is written in four bytes, so a
payload for which these have no room is never restored; and whatever is restored is the payload that was
compressed.

Main statements:

* `decompress_compress` : what becomes of a compressed payload;
* `inverts_iff` : which payloads can be restored;
* `eq_of_decompress_compress` : nothing else is ever restored.
-/
import DocMesh.Compression.Scheme
import DocMesh.Proofs.Compression.Matching

namespace DocMesh.Compression

variable {s : Compression} {limit threshold : Nat} {payload restored compressed : Bytes}

/-- The length in front of a block, up to the size of its four bytes, is the limit for the block. -/
theorem decompress_append (limit n : Nat) (block : Bytes) :
    lz4.decompress limit (Bytes.littleEndian 4 n ++ block) =
      if limit < n % UInt32.size then .error (.frameTooLarge (n % UInt32.size) limit)
      else
        match Lz4.decode? (n % UInt32.size) block with
        | some payload => .ok payload
        | none => .error (.decompression "the block is broken") := by
  rw [show n % UInt32.size = n % Nat.pow 256 4 from rfl, ← Bytes.ofLittleEndian_littleEndian_eq_mod]
  rfl

/-- **What becomes of a compressed payload.** The length in front of it is compared with the limit first. -/
theorem decompress_compress (s : Compression) (limit : Nat) (payload : Bytes) :
    s.decompress limit (s.compress payload) =
      if limit < payload.length % UInt32.size then
        .error (.frameTooLarge (payload.length % UInt32.size) limit)
      else if payload.length < UInt32.size then .ok payload
      else .error (.decompression "the block is broken") := by
  cases s
  obtain ⟨hsteps, hcontent⟩ := Lz4.content_ofBytes payload
  rw [compress, decompress_append]
  split_ifs with hlimit hroom
  · rfl
  · have hlength : (Lz4.Block.ofBytes payload).content.length ≤ payload.length :=
      Nat.le_of_eq (congrArg List.length hcontent)
    rw [Nat.mod_eq_of_lt hroom, Lz4.decode?_encode hsteps hlength, hcontent]
  · have hnone : Lz4.decode? (payload.length % UInt32.size) (Lz4.Block.ofBytes payload).encode = none := by
      rw [Option.eq_none_iff_forall_ne_some]
      intro bs hbs
      rw [Lz4.decode?_encode_eq_some_iff hsteps, hcontent] at hbs
      have hmod : payload.length % UInt32.size < UInt32.size := Nat.mod_lt _ (by decide)
      omega
    rw [hnone]

/-- The compressed form of the payload can be restored. -/
def Inverts (s : Compression) (payload : Bytes) : Prop :=
  ∃ limit, s.decompress limit (s.compress payload) = .ok payload

/-- The payloads that can be restored are those whose length has room in four bytes. -/
theorem inverts_iff : s.Inverts payload ↔ payload.length < UInt32.size := by
  constructor
  · rintro ⟨limit, h⟩
    rw [decompress_compress] at h
    split_ifs at h with hlimit hroom
    exact hroom
  · intro hroom
    refine ⟨payload.length, ?_⟩
    rw [decompress_compress, Nat.mod_eq_of_lt hroom, if_neg (Nat.lt_irrefl _), if_pos hroom]

/-- A payload that can be restored is restored within every limit that it keeps. -/
theorem decompress_of_inverts (h : s.Inverts payload) (hlimit : payload.length ≤ limit) :
    s.decompress limit (s.compress payload) = .ok payload := by
  have hroom : payload.length < UInt32.size := inverts_iff.1 h
  rw [decompress_compress, Nat.mod_eq_of_lt hroom, if_neg (Nat.not_lt.2 hlimit), if_pos hroom]

/-- Nothing but the payload is restored from its compressed form. -/
theorem eq_of_decompress_compress (h : s.decompress limit (s.compress payload) = .ok restored) :
    restored = payload := by
  rw [decompress_compress] at h
  split_ifs at h
  exact (Except.ok.inj h).symm

theorem compressIfSmaller_eq_some_iff : s.compressIfSmaller threshold payload = some compressed ↔
    threshold < payload.length ∧ s.compress payload = compressed ∧ compressed.length < payload.length := by
  unfold compressIfSmaller
  dsimp only
  split_ifs with hshort hsmaller
  · simp
    omega
  · rw [Option.some_inj]
    constructor
    · rintro rfl
      exact ⟨by omega, rfl, hsmaller⟩
    · exact fun h => h.2.1
  · constructor
    · intro h
      cases h
    · rintro ⟨-, rfl, hlt⟩
      exact absurd hlt hsmaller

end DocMesh.Compression
