/-
# Envelopes

A sealed frame travels in an envelope: a ciphertext with the nonce and the tag that are needed to open it,
written as a CBOR record.
-/
import DocMesh.Cbor.Record
import DocMesh.ProtocolError

namespace DocMesh

open Cbor (Item)

/-- A sealed frame. -/
structure Envelope where
  ciphertext : Bytes
  /-- Tells apart what is sealed under one key. -/
  nonce : Bytes
  /-- Proves that the ciphertext was sealed under the key. -/
  tag : Bytes
  deriving DecidableEq, Inhabited

namespace Envelope

/-- The length of a nonce. -/
def nonceLength : Nat := 12

/-- The nonce with the given number. Nonces with different numbers below 2^96 are different. -/
def nonceOf (n : Nat) : Bytes := Bytes.bigEndian nonceLength n

/-- The length of a tag. -/
def tagLength : Nat := 16

/-- The envelope as an item. -/
def item (e : Envelope) : Item :=
  .record [("ciphertext", .ofBytes e.ciphertext), ("nonce", .ofBytes e.nonce), ("auth_tag", .ofBytes e.tag)]

/-- The written form of the envelope. -/
def encode (e : Envelope) : Bytes := e.item.encode

/-- The envelope of an item. -/
def ofItem? (i : Item) : Option Envelope := do
  match ← i.fields? 1 ["ciphertext", "nonce", "auth_tag"] with
  | [ciphertext, nonce, tag] =>
    some ⟨← (← ciphertext).bytes?, ← (← nonce).bytes?, ← (← tag).bytes?⟩
  | _ => none

/-- The envelope with the given written form, if its nonce and its tag have the right lengths. What follows the item is
passed over. -/
def decode (bs : Bytes) : Except ProtocolError Envelope :=
  match (Item.parse? bs).bind fun (i, _) => ofItem? i with
  | none => .error (.invalidEnvelope (ProtocolError.decode "not an envelope").message)
  | some e =>
    if e.nonce.length ≠ nonceLength then
      .error (.invalidEnvelope ("nonce is " ++ toString e.nonce.length ++ " bytes"))
    else if e.tag.length ≠ tagLength then
      .error (.invalidEnvelope ("auth tag is " ++ toString e.tag.length ++ " bytes"))
    else .ok e

end Envelope

end DocMesh
