/-!
# Blanks

A *blank* is a character with the Unicode property `White_Space`.  Texts are trimmed and split at
blanks.
-/

namespace FlowAnalysis.Text

/-- Whether a character has the Unicode property `White_Space`. -/
def isBlank (c : Char) : Bool :=
  let n := c.toNat
  (9 ≤ n && n ≤ 13) || n == 0x20 || n == 0x85 || n == 0xA0 || n == 0x1680
    || (0x2000 ≤ n && n ≤ 0x200A) || n == 0x2028 || n == 0x2029 || n == 0x202F || n == 0x205F
    || n == 0x3000

/-- The text without the characters of a class at its start. -/
def dropStart (p : Char → Bool) (s : String) : String := String.ofList (s.toList.dropWhile p)

/-- The text without the characters of a class at its end. -/
def dropEnd (p : Char → Bool) (s : String) : String :=
  String.ofList (s.toList.reverse.dropWhile p).reverse

/-- The text without the blanks at its start. -/
def trimStart (s : String) : String := dropStart isBlank s

/-- The text without the blanks at its start and at its end. -/
def trim (s : String) : String := dropEnd isBlank (dropStart isBlank s)

/-- The pieces of a text between the characters of a class; there is one more of them than there
are such characters. -/
def pieces (p : Char → Bool) : List Char → List (List Char)
  | [] => [[]]
  | c :: cs =>
    if p c then [] :: pieces p cs
    else
      match pieces p cs with
      | [] => [[c]]
      | w :: ws => (c :: w) :: ws

/-- The words of a text: the pieces between blanks that are not empty. -/
def words (s : String) : List String :=
  ((pieces isBlank s.toList).filter fun w => !w.isEmpty).map String.ofList

/-- What follows a given beginning of a list of characters. -/
def rest? : List Char → List Char → Option (List Char)
  | [], cs => some cs
  | _ :: _, [] => none
  | b :: bs, c :: cs => if b = c then rest? bs cs else none

/-- What follows a given beginning of a text. -/
def after? (start s : String) : Option String :=
  (rest? start.toList s.toList).map String.ofList

/-- What comes before a given end of a text. -/
def before? (last s : String) : Option String :=
  (rest? last.toList.reverse s.toList.reverse).map fun cs => String.ofList cs.reverse

end FlowAnalysis.Text
