/-!
# Lexemes

How the characters of a script group into blanks, comments, words, literals and marks.  A scanner
looks at the characters ahead and either refuses or splits them into the lexeme and what follows, so
that the two parts always spell the input.
-/

namespace FlowAnalysis.Script

/-- A scanner splits the input into a lexeme and the rest, or refuses. -/
abbrev Scanner := List Char → Option (List Char × List Char)

namespace Lexeme

/-! ### Characters -/

/-- Space separators, the tab and line-break controls, and the zero-width marks that may stand
between tokens. -/
def isSpacing (c : Char) : Bool :=
  let n := c.toNat
  n == 0x20 || (0x09 ≤ n && n ≤ 0x0D) || n == 0xA0 || n == 0x1680 || (0x2000 ≤ n && n ≤ 0x200B)
    || n == 0x2028 || n == 0x2029 || n == 0x202F || n == 0x205F || n == 0x2060 || n == 0x3000
    || n == 0xFEFF

/-- The spaces of the basic alphabet, the only ones that an automatic semicolon looks past. -/
def isPlainSpace (c : Char) : Bool := c == ' ' || (0x09 ≤ c.toNat && c.toNat ≤ 0x0D)

/-- The marks that end a word. -/
def isMark (c : Char) : Bool :=
  ":;\x60\"'@#.,|^&<=>+-*/\\%?!~()[]\x7b\x7d".toList.contains c

/-- Words are made of everything that is no control character, no spacing and no mark. -/
def isWordPart (c : Char) : Bool := 0x1F < c.toNat && !isSpacing c && !isMark c

/-- A word does not start with a digit. -/
def isWordStart (c : Char) : Bool := isWordPart c && !c.isDigit

def isHexDigit (c : Char) : Bool :=
  c.isDigit || ('a' ≤ c && c ≤ 'f') || ('A' ≤ c && c ≤ 'F')

def isOctalDigit (c : Char) : Bool := '0' ≤ c && c ≤ '7'

def isBinaryDigit (c : Char) : Bool := c == '0' || c == '1'

/-! ### Words -/

/-- The four hexadecimal digits, or the braced run of them, after `\u`. -/
def unicodeEscape : Scanner
  | '\x7b' :: cs =>
    match cs.span isHexDigit with
    | (ds@(_ :: _), '\x7d' :: rest) => some ('\x7b' :: ds ++ ['\x7d'], rest)
    | _ => none
  | a :: b :: c :: d :: rest =>
    if isHexDigit a && isHexDigit b && isHexDigit c && isHexDigit d then some ([a, b, c, d], rest)
    else none
  | _ => none

/-- One character of a word, plain or written as an escape. -/
def wordUnit (ok : Char → Bool) : Scanner
  | '\\' :: 'u' :: cs => (unicodeEscape cs).map fun (e, rest) => ('\\' :: 'u' :: e, rest)
  | c :: cs => if ok c then some ([c], cs) else none
  | [] => none

/-- The longest run of word characters; `fuel` bounds their number. -/
def wordTail : Nat → List Char → List Char × List Char
  | 0, cs => ([], cs)
  | fuel + 1, cs =>
    match wordUnit isWordPart cs with
    | none => ([], cs)
    | some (u, rest) =>
      let (us, rest) := wordTail fuel rest
      (u ++ us, rest)

/-- An identifier or a keyword. -/
def word : Scanner := fun cs =>
  match wordUnit isWordStart cs with
  | none => none
  | some (u, rest) =>
    let (us, rest) := wordTail rest.length rest
    some (u ++ us, rest)

/-- Exactly the given word: what follows it cannot lengthen it. -/
def keyword (w : String) : Scanner := fun cs =>
  match word cs with
  | some (u, rest) => if u == w.toList then some (u, rest) else none
  | none => none

/-- A name private to its class. -/
def privateName : Scanner
  | '#' :: cs => (word cs).map fun (w, rest) => ('#' :: w, rest)
  | _ => none

/-! ### Marks -/

/-- Exactly the given characters, whatever follows. -/
def exactly : List Char → Scanner
  | [], cs => some ([], cs)
  | m :: ms, c :: cs =>
    if m = c then (exactly ms cs).map fun (l, rest) => (c :: l, rest) else none
  | _ :: _, [] => none

/-- The marks of more than one character, longer ones first. -/
def longMarks : List String :=
  [">>>=", "...", "===", "!==", "**=", "<<=", ">>=", ">>>", "&&=", "||=", "??=", "=>", "==", "!=",
    "<=", ">=", "&&", "||", "??", "?.", "++", "--", "+=", "-=", "*=", "/=", "%=", "&=", "|=", "^=",
    "<<", ">>", "**"]

/-- The longest mark ahead.  A question mark before a fraction such as `.5` stands alone. -/
def mark : Scanner
  | '?' :: '.' :: d :: cs =>
    if d.isDigit then some (['?'], '.' :: d :: cs) else some (['?', '.'], d :: cs)
  | cs =>
    match longMarks.findSome? fun m => exactly m.toList cs with
    | some r => some r
    | none =>
      match cs with
      | c :: rest => if isMark c then some ([c], rest) else none
      | [] => none

/-- The given mark, when the longest mark ahead is no longer than it. -/
def symbol (m : String) : Scanner := fun cs =>
  match mark cs with
  | some (l, rest) => if l == m.toList then some (l, rest) else none
  | none => none

/-! ### Literals -/

/-- Digits, in which single underscores may stand between two of them. -/
def digits (ok : Char → Bool) : List Char → List Char × List Char
  | '_' :: c :: cs =>
    if ok c then
      let (ds, rest) := digits ok cs
      ('_' :: c :: ds, rest)
    else ([], '_' :: c :: cs)
  | c :: cs =>
    if ok c then
      let (ds, rest) := digits ok cs
      (c :: ds, rest)
    else ([], c :: cs)
  | [] => ([], [])

/-- A non-empty run of digits that starts with a digit. -/
def digits1 (ok : Char → Bool) : Scanner
  | c :: cs => if ok c then some (digits ok (c :: cs)) else none
  | [] => none

/-- The exponent of a decimal, if one is complete. -/
def exponent (cs : List Char) : List Char × List Char :=
  match cs with
  | e :: s :: rest =>
    if e == 'e' || e == 'E' then
      let (sign, rest) := if s == '+' || s == '-' then ([s], rest) else ([], s :: rest)
      match digits1 Char.isDigit rest with
      | some (ds, rest) => (e :: sign ++ ds, rest)
      | none => ([], cs)
    else ([], cs)
  | _ => ([], cs)

/-- The `n` that marks an integer of any size. -/
def bigMark : List Char → List Char × List Char
  | 'n' :: cs => (['n'], cs)
  | cs => ([], cs)

/-- Digits of another base after a zero and a letter. -/
def based (letter : Char) (ok : Char → Bool) (cs : List Char) : Option (List Char × List Char) :=
  (digits1 ok cs).map fun (ds, rest) =>
    let (n, rest) := bigMark rest
    ('0' :: letter :: ds ++ n, rest)

/-- A number that starts with a digit and is written in base ten. -/
def decimal : Scanner := fun cs =>
  match digits1 Char.isDigit cs with
  | none => none
  | some (whole, '.' :: rest) =>
    let (fraction, rest) := (digits1 Char.isDigit rest).getD ([], rest)
    let (e, rest) := exponent rest
    some (whole ++ '.' :: fraction ++ e, rest)
  | some (whole, rest) =>
    match exponent rest with
    | ([], _) =>
      let (n, rest) := bigMark rest
      some (whole ++ n, rest)
    | (e, rest) => some (whole ++ e, rest)

/-- A number literal. -/
def number : Scanner
  | '0' :: l :: cs =>
    let other :=
      if l == 'x' || l == 'X' then based l isHexDigit cs
      else if l == 'o' || l == 'O' then based l isOctalDigit cs
      else if l == 'b' || l == 'B' then based l isBinaryDigit cs
      else none
    match other with
    | some r => some r
    | none => decimal ('0' :: l :: cs)
  | '.' :: cs =>
    match digits1 Char.isDigit cs with
    | none => none
    | some (fraction, rest) =>
      let (e, rest) := exponent rest
      some ('.' :: fraction ++ e, rest)
  | cs => decimal cs

/-- At most `n` octal digits. -/
def octals : Nat → List Char → List Char × List Char
  | 0, cs => ([], cs)
  | n + 1, c :: cs =>
    if isOctalDigit c then
      let (ds, rest) := octals n cs
      (c :: ds, rest)
    else ([], c :: cs)
  | _ + 1, [] => ([], [])

/-- What may stand after a backslash inside a string. -/
def escaped : Scanner
  | 'x' :: a :: b :: cs =>
    if isHexDigit a && isHexDigit b then some (['x', a, b], cs) else none
  | 'x' :: _ => none
  | 'u' :: cs => (unicodeEscape cs).map fun (e, rest) => ('u' :: e, rest)
  | '\r' :: '\n' :: cs => some (['\r', '\n'], cs)
  | c :: cs => if isOctalDigit c then some (octals 3 (c :: cs)) else some ([c], cs)
  | [] => none

/-- The rest of a string literal up to and with its closing quote; `fuel` bounds its length. -/
def stringTail (quote : Char) : Nat → Scanner
  | 0, _ => none
  | fuel + 1, c :: cs =>
    if c = quote then some ([c], cs)
    else if c = '\n' || c = '\r' then none
    else if c = '\\' then
      match escaped cs with
      | none => none
      | some (e, rest) =>
        (stringTail quote fuel rest).map fun (l, rest) => ('\\' :: e ++ l, rest)
    else (stringTail quote fuel cs).map fun (l, rest) => (c :: l, rest)
  | _ + 1, [] => none

/-- A string literal in single or double quotes. -/
def string : Scanner
  | c :: cs =>
    if c = '"' || c = '\'' then
      (stringTail c (cs.length + 1) cs).map fun (l, rest) => (c :: l, rest)
    else none
  | [] => none

/-- The rest of a regular expression up to and with its closing slash.  Inside a bracketed class a
slash is an ordinary character. -/
def regexTail (inClass : Bool) : Scanner
  | '\\' :: c :: cs =>
    if c = '\n' then none else (regexTail inClass cs).map fun (l, rest) => ('\\' :: c :: l, rest)
  | '\n' :: _ => none
  | '[' :: cs => (regexTail true cs).map fun (l, rest) => ('[' :: l, rest)
  | ']' :: cs => (regexTail false cs).map fun (l, rest) => (']' :: l, rest)
  | '/' :: cs =>
    if inClass then (regexTail true cs).map fun (l, rest) => ('/' :: l, rest)
    else
      let (flags, rest) := cs.span Char.isLower
      some ('/' :: flags, rest)
  | c :: cs => (regexTail inClass cs).map fun (l, rest) => (c :: l, rest)
  | [] => none

/-- A regular expression literal with its flags. -/
def regex : Scanner
  | '/' :: c :: cs =>
    if c = '/' || c = '*' then none
    else (regexTail false (c :: cs)).map fun (l, rest) => ('/' :: l, rest)
  | _ => none

/-! ### Comments and blanks -/

/-- The rest of a block comment up to and with its closing mark. -/
def blockTail : Scanner
  | '*' :: '/' :: cs => some (['*', '/'], cs)
  | c :: cs => (blockTail cs).map fun (l, rest) => (c :: l, rest)
  | [] => none

/-- Whether the character goes on a line comment. -/
def inLineComment (c : Char) : Bool :=
  !(c == '\n' || c == '\r' || c.toNat == 0x2028 || c.toNat == 0x2029)

/-- A comment to the end of the line, or between block marks. -/
def comment : Scanner
  | '/' :: '/' :: cs =>
    let (l, rest) := cs.span inLineComment
    some ('/' :: '/' :: l, rest)
  | '/' :: '*' :: cs => (blockTail cs).map fun (l, rest) => ('/' :: '*' :: l, rest)
  | _ => none

/-- Whether the character goes on a comment in the style of markup. -/
def inMarkupComment (c : Char) : Bool :=
  !(c.toNat == 0 || c == '\n' || c.toNat == 0x2028 || c.toNat == 0x2029)

/-- A comment that opens or closes as in markup, to the end of the line. -/
def markupComment : Scanner
  | '<' :: '!' :: '-' :: '-' :: cs =>
    let (l, rest) := cs.span inMarkupComment
    some ('<' :: '!' :: '-' :: '-' :: l, rest)
  | '-' :: '-' :: '>' :: cs =>
    let (l, rest) := cs.span inMarkupComment
    some ('-' :: '-' :: '>' :: l, rest)
  | _ => none

/-- The interpreter line that may open a script. -/
def hashBang : Scanner
  | '#' :: '!' :: cs =>
    let (l, rest) := cs.span (· != '\n')
    some ('#' :: '!' :: l, rest)
  | _ => none

/-- The characters of a template up to the next backslash, substitution or closing quote. -/
def templateRun : List Char → List Char × List Char
  | '$' :: '\x7b' :: cs => ([], '$' :: '\x7b' :: cs)
  | c :: cs =>
    if c = '\x60' || c = '\\' then ([], c :: cs)
    else
      let (l, rest) := templateRun cs
      (c :: l, rest)
  | [] => ([], [])

/-- A non-empty piece of template text. -/
def templateChars : Scanner := fun cs =>
  match templateRun cs with
  | ([], _) => none
  | r => some r

/-- A backslash and what it escapes. -/
def escapeSequence : Scanner
  | '\\' :: cs => (escaped cs).map fun (e, rest) => ('\\' :: e, rest)
  | _ => none

end Lexeme

end FlowAnalysis.Script
