/-!
# Reading UTF-8

A decoder that reads one byte at a time, in two manners: forgiving, where every ill-formed part
becomes one replacement character, and strict, where the first one is refused with its place.

* `Bytes` — the content of a file or of a source.
* `Sequence` — a character of several bytes of which some are still to come.
* `decodeLossy` — one `U+FFFD` for each maximal ill-formed part.
* `decodeStrict` — the characters, or what is wrong and at which byte the faulty sequence starts.
-/

namespace ExtensionCensus.Text

/-- The content of a file or of a source. -/
abbrev Bytes := Array UInt8

/-! ### One byte -/

/-- A character of which `need` bytes are missing; the next one lies between `low` and `high`. -/
structure Sequence where
  need : Nat
  code : Nat
  low : Nat
  high : Nat

/-- What a byte at the start of a character announces. -/
inductive Lead where
  | single (c : Char)
  | longer (s : Sequence)
  | refused

/-- Reads the first byte of a character. The bounds on the second byte keep out overlong forms,
surrogates and numbers above `U+10FFFF`. -/
def lead (b : Nat) : Lead :=
  if b < 0x80 then .single (Char.ofNat b)
  else if b < 0xC2 then .refused
  else if b < 0xE0 then .longer ⟨1, b - 0xC0, 0x80, 0xBF⟩
  else if b < 0xF0 then
    .longer ⟨2, b - 0xE0, if b = 0xE0 then 0xA0 else 0x80, if b = 0xED then 0x9F else 0xBF⟩
  else if b < 0xF5 then
    .longer ⟨3, b - 0xF0, if b = 0xF0 then 0x90 else 0x80, if b = 0xF4 then 0x8F else 0xBF⟩
  else .refused

/-- Whether a byte continues a sequence. -/
def Sequence.admits (s : Sequence) (b : Nat) : Bool :=
  s.low ≤ b && b ≤ s.high

/-- The sequence with one more byte: the finished character, or what is still to come. -/
def Sequence.push (s : Sequence) (b : Nat) : Char ⊕ Sequence :=
  let code := s.code * 64 + (b - 0x80)
  if s.need ≤ 1 then .inl (Char.ofNat code) else .inr ⟨s.need - 1, code, 0x80, 0xBF⟩

/-! ### Forgiving -/

/-- The character that stands for an ill-formed part. -/
def replacement : Char := Char.ofNat 0xFFFD

/-- Decodes with the sequence that is under way, if one is. -/
def lossyFrom : Option Sequence → List UInt8 → List Char
  | none, [] => []
  | some _, [] => [replacement]
  | none, b :: rest =>
    match lead b.toNat with
    | .single c => c :: lossyFrom none rest
    | .longer s => lossyFrom (some s) rest
    | .refused => replacement :: lossyFrom none rest
  | some s, b :: rest =>
    if s.admits b.toNat then
      match s.push b.toNat with
      | .inl c => c :: lossyFrom none rest
      | .inr t => lossyFrom (some t) rest
    else
      replacement ::
        match lead b.toNat with
        | .single c => c :: lossyFrom none rest
        | .longer t => lossyFrom (some t) rest
        | .refused => replacement :: lossyFrom none rest

/-- The text of some bytes, with one replacement character for each maximal ill-formed part. -/
def decodeLossy (bytes : Bytes) : String :=
  String.ofList (lossyFrom none bytes.toList)

/-! ### Strict -/

/-- What is wrong with an ill-formed sequence. -/
inductive EncodingFault where
  | startByte
  | continuationByte
  | endOfData
  deriving DecidableEq, Repr

/-- The wording of a fault. -/
def EncodingFault.message : EncodingFault → String
  | .startByte => "invalid start byte"
  | .continuationByte => "invalid continuation byte"
  | .endOfData => "unexpected end of data"

/-- Decodes strictly; `start` is the place of the current sequence, and the number beside the
sequence that of the next byte. -/
def strictFrom (start : Nat) : Option Sequence → Nat → List UInt8 →
    Except (EncodingFault × Nat) (List Char)
  | none, _, [] => .ok []
  | some _, _, [] => .error (.endOfData, start)
  | none, i, b :: rest =>
    match lead b.toNat with
    | .single c => (strictFrom (i + 1) none (i + 1) rest).map (c :: ·)
    | .longer s => strictFrom i (some s) (i + 1) rest
    | .refused => .error (.startByte, i)
  | some s, i, b :: rest =>
    if s.admits b.toNat then
      match s.push b.toNat with
      | .inl c => (strictFrom (i + 1) none (i + 1) rest).map (c :: ·)
      | .inr t => strictFrom start (some t) (i + 1) rest
    else .error (.continuationByte, start)

/-- The characters of some bytes, or the first fault and the place where the faulty sequence
starts. -/
def decodeStrict (bytes : List UInt8) : Except (EncodingFault × Nat) (List Char) :=
  strictFrom 0 none 0 bytes

end ExtensionCensus.Text
