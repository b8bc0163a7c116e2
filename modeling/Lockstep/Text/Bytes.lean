/-!
# Texts and bytes

A text is written in bytes as UTF-8. Not all bytes are those of a text: shown as a text all the same, a character that
breaks off or cannot begin is replaced by U+FFFD, and the bytes after it are read afresh. What is shown of the bytes of
a text is the text (`Text.lossy_bytes`).
-/

namespace Lockstep.Text

def bytes (cs : List Char) : List UInt8 := cs.flatMap String.utf8EncodeChar

/-- A byte other than the first of a character. -/
def isTail (b : UInt8) : Bool := 0x80 ≤ b && b ≤ 0xbf

/-- The second byte can follow the first in a character of three or four bytes: codes that are too long, surrogates
and numbers above the largest character are ruled out here. -/
def leads (first second : UInt8) : Bool :=
  if first = 0xe0 then 0xa0 ≤ second && second ≤ 0xbf
  else if first = 0xed then 0x80 ≤ second && second ≤ 0x9f
  else if first = 0xf0 then 0x90 ≤ second && second ≤ 0xbf
  else if first = 0xf4 then 0x80 ≤ second && second ≤ 0x8f
  else 0xe1 ≤ first && first ≤ 0xf3 && isTail second

/-- How many bytes belong to a broken character beside its first one. -/
def brokenTail (first : UInt8) : List UInt8 → Nat
  | [] => 0
  | second :: rest =>
    if leads first second then if 0xf0 ≤ first && (rest.head?.map isTail).getD false then 2 else 1 else 0

/-- What is shown of some bytes: their characters, and U+FFFD for each one that is broken. -/
def lossy : List UInt8 → List Char
  | [] => []
  | b :: rest =>
    match (b :: rest).toByteArray.utf8DecodeChar? 0 with
    | some c => c :: lossy (rest.drop (c.utf8Size - 1))
    | none => '\uFFFD' :: lossy (rest.drop (brokenTail b rest))
termination_by bs => bs.length
decreasing_by
  all_goals
    rw [List.length_drop, List.length_cons]
    omega

/-- A character that breaks off after two bytes, and a byte with which none begins. -/
example : lossy [0x61, 0xe2, 0x82, 0xff, 0x62] = ['a', '\uFFFD', '\uFFFD', 'b'] := by cbv

end Lockstep.Text
