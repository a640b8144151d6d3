import LSystem.Text.Joining
import LSystem.Text.Unseen

namespace LSystem.Text

def hexDigits (n : Nat) : List Char := Nat.toDigits 16 n

/-- Inside quotes a character is itself, unless it would not be seen, would join the quote, or
would end or break the quoted text. -/
def escaped (c : Char) : List Char :=
  if c = '\x00' then ['\x5c', '0']
  else if c = '\t' then ['\x5c', 't']
  else if c = '\n' then ['\x5c', 'n']
  else if c = '\r' then ['\x5c', 'r']
  else if c = '\x27' ∨ c = '\x5c' then ['\x5c', c]
  else if Joining c ∨ Unseen c then ['\x5c', 'u', '\x7b'] ++ hexDigits c.toNat ++ ['\x7d']
  else [c]

def quoted (c : Char) : String := String.ofList (['\x27'] ++ escaped c ++ ['\x27'])

end LSystem.Text
