import QueryPlan.Text.Printable

/-!
# Quoted text

A text inside quotes that shows each of its characters: a quote or a backslash
follows a backslash, and what cannot be shown stands as its letter or its code
point.
-/

namespace QueryPlan.Text

/-- The letter of a control character that has one, and the characters that stand
for themselves behind a backslash. -/
def escapeLetter? : Char → Option Char
  | '\x00' => some '0'
  | '\t' => some 't'
  | '\n' => some 'n'
  | '\r' => some 'r'
  | '"' => some '"'
  | '\\' => some '\\'
  | _ => none

/-- A character inside quotes. Code points stand in braces, as hexadecimal numbers. -/
def escaped (char : Char) : List Char :=
  match escapeLetter? char with
  | some letter => ['\\', letter]
  | none =>
    if isPrintable char then [char]
    else ['\\', 'u', '\x7b'] ++ Nat.toDigits 16 char.toNat ++ ['\x7d']

/-- A text inside quotes. -/
def quoted (text : String) : String :=
  String.ofList ('"' :: text.toList.flatMap escaped ++ ['"'])

end QueryPlan.Text
