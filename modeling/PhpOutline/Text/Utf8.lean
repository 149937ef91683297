/-!
# UTF-8 in pieces

Bytes become characters one byte at a time, so that a character may be split between two pieces of
input. What is not well-formed is replaced: each longest part of a character that cannot be
continued, or a byte that cannot begin one, stands for a single replacement character.
-/

namespace PhpOutline.Utf8

/-- The number of bytes of a character that begins with the byte, or zero if none does. -/
def width (lead : UInt8) : Nat :=
  if lead < 0x80 then 1
  else if 0xc2 ≤ lead ∧ lead ≤ 0xdf then 2
  else if 0xe0 ≤ lead ∧ lead ≤ 0xef then 3
  else if 0xf0 ≤ lead ∧ lead ≤ 0xf4 then 4
  else 0

def isTail (byte : UInt8) : Bool := 0x80 ≤ byte && byte ≤ 0xbf

/-- Whether a byte can come second. The narrower ranges exclude overlong forms, surrogates and
numbers past the last code point. -/
def isSecond (lead byte : UInt8) : Bool :=
  if lead = 0xe0 then 0xa0 ≤ byte && byte ≤ 0xbf
  else if lead = 0xed then 0x80 ≤ byte && byte ≤ 0x9f
  else if lead = 0xf0 then 0x90 ≤ byte && byte ≤ 0xbf
  else if lead = 0xf4 then 0x80 ≤ byte && byte ≤ 0x8f
  else isTail byte

/-- What a sequence of bytes is, all but the last of which begin a character. -/
inductive Verdict where
  | complete (c : Char)
  | incomplete
  /-- The last byte does not continue the others. -/
  | illFormed
deriving DecidableEq, Repr

def tailBits (byte : UInt8) : Nat := byte.toNat % 64

def classify : List UInt8 → Verdict
  | [a] =>
    match width a with
    | 0 => .illFormed
    | 1 => .complete (.ofNat a.toNat)
    | _ => .incomplete
  | [a, b] =>
    if isSecond a b then
      if width a = 2 then .complete (.ofNat (a.toNat % 32 * 64 + tailBits b)) else .incomplete
    else .illFormed
  | [a, b, c] =>
    if isTail c then
      if width a = 3 then
        .complete (.ofNat ((a.toNat % 16 * 64 + tailBits b) * 64 + tailBits c))
      else .incomplete
    else .illFormed
  | [a, b, c, d] =>
    if isTail d then
      .complete (.ofNat (((a.toNat % 8 * 64 + tailBits b) * 64 + tailBits c) * 64 + tailBits d))
    else .illFormed
  | _ => .illFormed

inductive Item where
  | char (c : Char)
  | bad
deriving DecidableEq, Repr

def replacement : Char := '\ufffd'

def Item.toChar : Item → Char
  | char c => c
  | bad => replacement

/-- A decoder between two bytes: it holds the bytes of a character that is not complete yet. -/
structure Decoder where
  carry : List UInt8
deriving DecidableEq, Repr, Inhabited

namespace Decoder

def start : Decoder := ⟨[]⟩

def lead (byte : UInt8) : Decoder × List Item :=
  match classify [byte] with
  | .complete c => (start, [.char c])
  | .incomplete => (⟨[byte]⟩, [])
  | .illFormed => (start, [.bad])

/-- Takes a byte. If it does not continue the bytes held, these are given up, and the byte begins
anew. -/
def push (decoder : Decoder) (byte : UInt8) : Decoder × List Item :=
  if decoder.carry = [] then lead byte
  else
    match classify (decoder.carry ++ [byte]) with
    | .complete c => (start, [.char c])
    | .incomplete => (⟨decoder.carry ++ [byte]⟩, [])
    | .illFormed => ((lead byte).1, .bad :: (lead byte).2)

def decode (decoder : Decoder) : List UInt8 → Decoder × List Item
  | [] => (decoder, [])
  | byte :: rest =>
    let (decoder, items) := decoder.push byte
    let (decoder, later) := decoder.decode rest
    (decoder, items ++ later)

theorem decode_append (decoder : Decoder) (first second : List UInt8) :
    decoder.decode (first ++ second) =
      (((decoder.decode first).1.decode second).1,
        (decoder.decode first).2 ++ ((decoder.decode first).1.decode second).2) := by
  induction first generalizing decoder with
  | nil => simp [decode]
  | cons byte rest ih => simp [decode, ih]

/-- Ends the input: a character that was cut off is not well-formed. -/
def finish (decoder : Decoder) : List Item := if decoder.carry = [] then [] else [.bad]

end Decoder

/-- The text in `acc`, the last character first, unless there is none. -/
def flush (acc : List Char) : List String := if acc = [] then [] else [.ofList acc.reverse]

/-- Texts after the one in `acc`: well-formed parts that follow one another are one text, and every
replacement is a text of its own. -/
def textsFrom (acc : List Char) : List Item → List String
  | [] => flush acc
  | .char c :: rest => textsFrom (c :: acc) rest
  | .bad :: rest => flush acc ++ .ofList [replacement] :: textsFrom [] rest

def texts (items : List Item) : List String := textsFrom [] items

end PhpOutline.Utf8
