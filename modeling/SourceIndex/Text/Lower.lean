import SourceIndex.Text.CaseTable
/-!
# Lower case

Lower-casing of text over all of Unicode 14. Each letter becomes its lower-case partner, except
that a capital I with a dot becomes a small i and a combining dot, and that a capital sigma which
ends a word becomes the final sigma.
-/

namespace SourceIndex.Text

/-- The letter that a run of the table gives for a code point in it. -/
def CaseRun.partner? (run : CaseRun) (code : Nat) : Option Char :=
  if run.first ≤ code && code ≤ run.last && (code - run.first) % run.stride == 0 then
    some (Char.ofNat ((code : Int) + run.shift).toNat)
  else none

def lowerChar (c : Char) : Char :=
  if c.toNat < 0x80 then c.toLower else (lowerRuns.findSome? (·.partner? c.toNat)).getD c

def isCased (c : Char) : Bool := casedRanges.has c.toNat

def isCaseIgnorable (c : Char) : Bool := caseIgnorableRanges.has c.toNat

/-- Whether the next character that counts is a letter with case. -/
def meetsCased (cs : List Char) : Bool :=
  ((cs.dropWhile isCaseIgnorable).head?.map isCased).getD false

/-- The lower-case form of one character, given the text before it (last character first) and the
text after it. -/
def lowerInContext (before : List Char) (c : Char) (after : List Char) : List Char :=
  if c = '\u0130' then ['i', '\u0307']
  else if c = '\u03a3' then
    if meetsCased before && !meetsCased after then ['\u03c2'] else ['\u03c3']
  else [lowerChar c]

/-- The lower-case form of `cs`, which follows the characters `before` (last one first). -/
def lowerAfter (before : List Char) : List Char → List Char
  | [] => []
  | c :: cs => lowerInContext before c cs ++ lowerAfter (c :: before) cs

def lower (s : String) : String := String.ofList (lowerAfter [] s.toList)

end SourceIndex.Text
