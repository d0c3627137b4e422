import BehaviourGraph.Text.Printable

/-!
# Quoted text

Diagnostic text of a string: quotes around it, short escapes for the common controls, code points for
what does not print.  A single quote stays as it is.
-/

namespace BehaviourGraph.Text

/-- The characters that stand for one character between the quotes. -/
def quoteChar (c : Char) : List Char :=
  match c with
  | '\x00' => ['\\', '0']
  | '\t' => ['\\', 't']
  | '\r' => ['\\', 'r']
  | '\n' => ['\\', 'n']
  | '\\' => ['\\', '\\']
  | '"' => ['\\', '"']
  | c =>
    if isPrintable c then [c]
    else ['\\', 'u', '\x7b'] ++ Nat.toDigits 16 c.toNat ++ ['\x7d']

def quote (s : String) : String :=
  .ofList (['"'] ++ s.toList.flatMap quoteChar ++ ['"'])

end BehaviourGraph.Text
