/-!
Strict UTF-8.

Decoding goes byte by byte.  A first byte tells how many bytes follow and what the next one may
be, so that overlong forms, surrogates and numbers beyond the last code point are refused where
they first show.  A fault names the bytes of the character that could not be finished.

A text may be handed over with unpaired surrogates.  These are no characters, so characters stand
for them that mean nothing else in the text, and the encoding is told which.
-/

namespace Cmm.Text.Utf8

inductive Reason where
  | invalidStart
  | invalidContinuation
  | unexpectedEnd
  deriving DecidableEq, Repr

/-- The bytes at fault: where they start, how many they are, and the first of them. -/
structure Fault where
  reason : Reason
  start : Nat
  count : Nat
  first : UInt8
  deriving DecidableEq, Repr

def Reason.message : Reason → String
  | .invalidStart => "invalid start byte"
  | .invalidContinuation => "invalid continuation byte"
  | .unexpectedEnd => "unexpected end of data"

private def hexByte (b : UInt8) : String :=
  String.ofList ['0', 'x', (b.toNat / 16).digitChar, (b.toNat % 16).digitChar]

def Fault.message (fault : Fault) : String :=
  let bytes :=
    if fault.count = 1 then s!"byte {hexByte fault.first} in position {fault.start}"
    else s!"bytes in position {fault.start}-{fault.start + fault.count - 1}"
  s!"'utf-8' codec can't decode {bytes}: {fault.reason.message}"

/-- A character of which some bytes are still to come: where it starts, its first byte, the
value so far, the interval of the next byte and the number of bytes after that one. -/
structure Pending where
  start : Nat
  first : UInt8
  value : Nat
  low : Nat
  high : Nat
  more : Nat
  deriving DecidableEq, Repr

/-- What has been read: the number of bytes, the characters (the last one first), and the
character in progress. -/
structure State where
  position : Nat
  done : List Char
  pending : Option Pending
  deriving DecidableEq, Repr

/-- A character in progress after its first byte; nothing if no character of several bytes starts
with that byte. -/
def lead? (start : Nat) (b : UInt8) : Option Pending :=
  let n := b.toNat
  if 0xC2 ≤ n ∧ n ≤ 0xDF then some ⟨start, b, n - 0xC0, 0x80, 0xBF, 0⟩
  else if n = 0xE0 then some ⟨start, b, 0, 0xA0, 0xBF, 1⟩
  else if n = 0xED then some ⟨start, b, 0xD, 0x80, 0x9F, 1⟩
  else if 0xE1 ≤ n ∧ n ≤ 0xEF then some ⟨start, b, n - 0xE0, 0x80, 0xBF, 1⟩
  else if n = 0xF0 then some ⟨start, b, 0, 0x90, 0xBF, 2⟩
  else if 0xF1 ≤ n ∧ n ≤ 0xF3 then some ⟨start, b, n - 0xF0, 0x80, 0xBF, 2⟩
  else if n = 0xF4 then some ⟨start, b, 4, 0x80, 0x8F, 2⟩
  else none

def Pending.fault (p : Pending) (reason : Reason) (position : Nat) : Fault :=
  ⟨reason, p.start, position - p.start, p.first⟩

def step (s : State) (b : UInt8) : Except Fault State :=
  match s.pending with
  | none =>
    if b.toNat < 0x80 then .ok ⟨s.position + 1, Char.ofNat b.toNat :: s.done, none⟩
    else match lead? s.position b with
      | some p => .ok ⟨s.position + 1, s.done, some p⟩
      | none => .error ⟨.invalidStart, s.position, 1, b⟩
  | some p =>
    if b.toNat < p.low ∨ p.high < b.toNat then
      .error (p.fault .invalidContinuation s.position)
    else
      let value := 64 * p.value + (b.toNat - 0x80)
      match p.more with
      | 0 => .ok ⟨s.position + 1, Char.ofNat value :: s.done, none⟩
      | more + 1 =>
        .ok ⟨s.position + 1, s.done, some ⟨p.start, p.first, value, 0x80, 0xBF, more⟩⟩

def State.finish (s : State) : Except Fault (List Char) :=
  match s.pending with
  | none => .ok s.done.reverse
  | some p => .error (p.fault .unexpectedEnd s.position)

def decode (bytes : List UInt8) : Except Fault (List Char) := do
  let s ← bytes.foldlM step ⟨0, [], none⟩
  s.finish

def encode (text : List Char) : List UInt8 :=
  text.flatMap String.utf8EncodeChar

/-- Unpaired surrogates in a row: where they start and stop in a text, and the first of them. -/
structure EncodeFault where
  start : Nat
  stop : Nat
  first : Nat
  deriving DecidableEq, Repr

def EncodeFault.message (fault : EncodeFault) : String :=
  let characters :=
    if fault.stop = fault.start + 1 then
      "character '\\u" ++ String.ofList (Nat.toDigits 16 fault.first) ++ "' in position " ++
        toString fault.start
    else s!"characters in position {fault.start}-{fault.stop - 1}"
  "'utf-8' codec can't encode " ++ characters ++ ": surrogates not allowed"

def encodeFault? (surrogate? : Char → Option Nat) (text : List Char) : Option EncodeFault :=
  let front := text.takeWhile fun c => (surrogate? c).isNone
  let behind := text.dropWhile fun c => (surrogate? c).isNone
  let row := behind.takeWhile fun c => (surrogate? c).isSome
  (behind.head?.bind surrogate?).map fun first =>
    ⟨front.length, front.length + row.length, first⟩

def encodeStrict (surrogate? : Char → Option Nat) (text : List Char) :
    Except EncodeFault (List UInt8) :=
  match encodeFault? surrogate? text with
  | some fault => .error fault
  | none => .ok (encode text)

end Cmm.Text.Utf8
