/-
# Quoted strings

The written form of a string in JSON text: quotes around it, and escapes for quotes, backslashes and
control characters. Reading splits a text after the closing quote first (`Quoted.scan?`), and evaluates
the escapes of what stands between the quotes later (`Quoted.decode?`), so that strings nobody asks for
need not be evaluated.
-/
import DocMesh.Bytes

namespace DocMesh.Quoted

/-! ## Writing -/

/-- The characters with an escape of two characters, each with the second character of the escape. -/
def shortEscapes : List (Char × Char) :=
  [('"', '"'), ('\\', '\\'), ('\x08', 'b'), ('\t', 't'), ('\n', 'n'), ('\x0c', 'f'), ('\r', 'r')]

/-- A character as it stands between quotes. -/
def escape (c : Char) : List Char :=
  match shortEscapes.lookup c with
  | some e => ['\\', e]
  | none =>
    if c.toNat < 32 then ['\\', 'u', '0', '0', Bytes.hexDigit (c.toNat / 16), Bytes.hexDigit (c.toNat % 16)]
    else [c]

/-- A string between quotes. -/
def encode (s : String) : List Char :=
  '"' :: (s.toList.flatMap escape ++ ['"'])

/-! ## Reading -/

/-- The number written by four hexadecimal digits at the start of a text, and the rest of the text. -/
def hex4? : Bytes → Option (Nat × Bytes)
  | a :: b :: c :: d :: rest => do
    let a ← Bytes.hexValue? a
    let b ← Bytes.hexValue? b
    let c ← Bytes.hexValue? c
    let d ← Bytes.hexValue? d
    some (((a * 16 + b) * 16 + c) * 16 + d, rest)
  | _ => none

/-- The bytes that may follow a backslash, each with the byte that the escape stands for; `u` apart. -/
def shortMeanings : List (UInt8 × UInt8) :=
  [(34, 34), (92, 92), (47, 47), (98, 8), (102, 12), (110, 10), (114, 13), (116, 9)]

/-- Splits a text that follows an opening quote at the closing quote. Control characters must be escaped, and every
escape must have the form of one. -/
def scan? : Bytes → Option (Bytes × Bytes)
  | [] => none
  | 34 :: rest => some ([], rest)
  | 92 :: 117 :: a :: b :: c :: d :: rest =>
    match hex4? [a, b, c, d], scan? rest with
    | some _, some (s, rest) => some (92 :: 117 :: a :: b :: c :: d :: s, rest)
    | _, _ => none
  | 92 :: e :: rest =>
    match shortMeanings.lookup e, scan? rest with
    | some _, some (s, rest) => some (92 :: e :: s, rest)
    | _, _ => none
  | b :: rest =>
    if b < 32 then none
    else
      match scan? rest with
      | some (s, rest) => some (b :: s, rest)
      | none => none

/-- Is the number the first half of a surrogate pair? -/
def isHighSurrogate (n : Nat) : Bool := 0xD800 ≤ n && n < 0xDC00

/-- Is the number the second half of a surrogate pair? -/
def isLowSurrogate (n : Nat) : Bool := 0xDC00 ≤ n && n < 0xE000

/-- The UTF-8 form of the character with the given code point. -/
def utf8 (n : Nat) : Bytes := Bytes.ofString (String.singleton (Char.ofNat n))

/-- Evaluates the escapes between quotes. Halves of surrogate pairs count only together. -/
def evaluate? : Bytes → Option Bytes
  | [] => some []
  | 92 :: 117 :: a :: b :: c :: d :: rest =>
    match hex4? [a, b, c, d] with
    | none => none
    | some (n, _) =>
      if isHighSurrogate n then
        match rest with
        | 92 :: 117 :: e :: f :: g :: h :: rest =>
          match hex4? [e, f, g, h] with
          | none => none
          | some (m, _) =>
            if isLowSurrogate m then
              (evaluate? rest).map (utf8 (0x10000 + (n - 0xD800) * 0x400 + (m - 0xDC00)) ++ ·)
            else none
        | _ => none
      else if isLowSurrogate n then none
      else (evaluate? rest).map (utf8 n ++ ·)
  | 92 :: e :: rest =>
    match shortMeanings.lookup e with
    | none => none
    | some b => (evaluate? rest).map (b :: ·)
  | b :: rest => (evaluate? rest).map (b :: ·)

/-- The string whose written form stands between the quotes. -/
def decode? (s : Bytes) : Option String := (evaluate? s).bind Bytes.toString?

end DocMesh.Quoted
