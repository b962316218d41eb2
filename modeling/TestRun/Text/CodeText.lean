import TestRun.Text.Quoted
set_option autoImplicit false

/-!
# Texts of code points

A text as a sequence of code points. Among them there may be surrogates, the halves of the pairs
by which some encodings write the characters beyond the basic plane. A surrogate alone is no
character, so that not every such text is a string.
-/

namespace TestRun.Text

structure CodePoint where
  value : Nat
  value_lt : value < 0x110000
  deriving DecidableEq, Repr

namespace CodePoint

def ofChar (c : Char) : CodePoint :=
  ⟨c.toNat, by
    have h : c.val.toNat.isValidChar := c.valid
    simp only [Nat.isValidChar] at h
    simp only [Char.toNat]
    omega⟩

def isHigh (p : CodePoint) : Bool := 0xd800 ≤ p.value && p.value < 0xdc00

def isLow (p : CodePoint) : Bool := 0xdc00 ≤ p.value && p.value < 0xe000

def isSurrogate (p : CodePoint) : Bool := p.isHigh || p.isLow

def toChar? (p : CodePoint) : Option Char :=
  if p.isSurrogate then none else some (Char.ofNat p.value)

/-- The character, or the sign that stands for what is none. -/
def shape (p : CodePoint) : Char := p.toChar?.getD '\ufffd'

def joined (high low : CodePoint) : Char :=
  Char.ofNat (0x10000 + (high.value - 0xd800) * 0x400 + (low.value - 0xdc00))

def quoted (mark : Char) (p : CodePoint) : List Char :=
  match p.toChar? with
  | some c => quotedChar mark c
  | none => '\\' :: 'u' :: digits 16 4 p.value

/-- Whether a surrogate stands for a byte that is no text. -/
def isByte (p : CodePoint) : Bool := 0xdc80 ≤ p.value && p.value ≤ 0xdcff

/-- The bytes of a code point in the name of a file. Other surrogates have none. -/
def bytes (p : CodePoint) : List UInt8 :=
  match p.toChar? with
  | some c => String.utf8EncodeChar c
  | none => if p.isByte then [.ofNat (p.value - 0xdc00)] else []

end CodePoint

abbrev CodeText := List CodePoint

namespace CodeText

def ofChars (cs : List Char) : CodeText := cs.map .ofChar

def ofString (s : String) : CodeText := ofChars s.toList

instance : Coe String CodeText := ⟨ofString⟩

def bytes (t : CodeText) : List UInt8 := t.flatMap CodePoint.bytes

def toString? (t : CodeText) : Option String := (t.mapM CodePoint.toChar?).map String.ofList

def shapes (t : CodeText) : List Char := t.map CodePoint.shape

def joinedChars : CodeText → List Char
  | [] => []
  | [p] => [p.shape]
  | p :: q :: rest =>
    if p.isHigh && q.isLow then p.joined q :: joinedChars rest else p.shape :: joinedChars (q :: rest)

def joined (t : CodeText) : String := String.ofList (joinedChars t)

def referenced (t : CodeText) : String :=
  String.ofList (t.flatMap fun p =>
    match p.toChar? with
    | some c => [c]
    | none => '&' :: '#' :: (decimal p.value ++ [';']))

def quoted (t : CodeText) : String :=
  let mark := quoteMark (String.ofList t.shapes)
  String.ofList (mark :: t.flatMap (CodePoint.quoted mark) ++ [mark])

def isAtMost : CodeText → CodeText → Bool
  | [], _ => true
  | _ :: _, [] => false
  | p :: t, q :: u => p.value < q.value || (p.value == q.value && isAtMost t u)

def pieces (mark : Char) : CodeText → List CodeText
  | [] => [[]]
  | p :: rest =>
    match pieces mark rest with
    | [] => [[p]]
    | piece :: more => if p = .ofChar mark then [] :: piece :: more else (p :: piece) :: more

end CodeText

/-- Code points from the first to the last place that no encoding has bytes for. -/
structure Unencodable where
  point : CodePoint
  first : Nat
  last : Nat
  deriving DecidableEq, Repr

namespace Unencodable

def message (e : Unencodable) : String :=
  "'utf-8' codec can't encode character" ++
    (if e.first = e.last then
      " '" ++ String.ofList (e.point.quoted '\'') ++ "' in position " ++ toString e.first
    else "s in position " ++ toString e.first ++ "-" ++ toString e.last) ++
    ": surrogates not allowed"

end Unencodable

def unencodable? : Nat → CodeText → Option Unencodable
  | _, [] => none
  | place, p :: rest =>
    if p.isSurrogate && !p.isByte then
      some ⟨p, place, place + (rest.takeWhile CodePoint.isSurrogate).length⟩
    else unencodable? (place + 1) rest

/-- The characters of bytes from the place after some that were read. A byte that is no text shows as
a replacement character. -/
def shownChars : Nat → List UInt8 → List Char
  | _, [] => []
  | skipped + 1, _ :: rest => shownChars skipped rest
  | 0, b :: rest =>
    match (b :: rest.take 3).toByteArray.utf8DecodeChar? 0 with
    | some c => c :: shownChars (c.utf8Size - 1) rest
    | none => '\ufffd' :: shownChars 0 rest

def shownBytes (bytes : List UInt8) : String := String.ofList (shownChars 0 bytes)

end TestRun.Text
