/-!
# Quotes

A quoted text starts and ends with the same mark: an apostrophe, a quotation mark or a backtick.
-/

namespace FlowAnalysis.Text

/-- The marks that can stand around a text. -/
def isQuote (c : Char) : Bool := c == '\'' || c == '"' || c == '\x60'

/-- The text between matching quotes; a text that is not quoted stays as it is. -/
def unquote (s : String) : String :=
  match s.toList with
  | first :: second :: rest =>
    if isQuote first && (second :: rest).getLast? == some first then
      String.ofList (second :: rest).dropLast
    else s
  | _ => s

end FlowAnalysis.Text
