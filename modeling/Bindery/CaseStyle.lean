/-
Letter cases of identifiers. Names arrive in any style (`get-user`,
`getUser`, `HTTPServer`) and leave in the style their target language asks for.
The conversions work octet by octet on the trimmed name: only ASCII letters
change case and only ASCII letters and digits end or start a word.
-/
import Bindery.Bytes.Blank

namespace Bindery.CaseStyle

/-- Space, underscore, hyphen and dot stand between words. -/
def isDivider (b : UInt8) : Bool := b == 32 || b == 95 || b == 45 || b == 46

/-- Two neighbouring octets of different classes among upper case, lower case and digit. -/
def changesClass (a b : UInt8) : Bool :=
  (Byte.isUpper a && (Byte.isLower b || Byte.isDigit b))
    || (Byte.isLower a && (Byte.isUpper b || Byte.isDigit b))
    || (Byte.isDigit a && (Byte.isUpper b || Byte.isLower b))

/-- One octet that is at no change of class: dividers become underscores. -/
def snakePlain (b : UInt8) : UInt8 := if isDivider b then 95 else Byte.lower b

/-- `afterUpper` says that the octet before is an upper-case letter: the last
letter of a run of capitals starts the word that follows (`JSONData` has the
words `json` and `data`). -/
def snakeFrom (afterUpper : Bool) : Bytes → Bytes
  | [] => []
  | [b] => [snakePlain b]
  | b :: next :: s =>
    (if changesClass b next then
      (if Byte.isUpper b && Byte.isLower next && afterUpper then [95] else [])
        ++ [Byte.lower b]
        ++ (if Byte.isLower b || Byte.isDigit b || Byte.isDigit next then [95] else [])
    else [snakePlain b])
      ++ snakeFrom (Byte.isUpper b) (next :: s)

/-- Words in lower case with underscores between them. -/
def snake (s : Bytes) : Bytes := snakeFrom false s.trim

/-- Words in upper case with underscores between them. -/
def screaming (s : Bytes) : Bytes := (snake s).map Byte.upper

/-- The state of writing words without dividers. -/
structure Joining where
  /-- the next letter is raised -/
  raise : Bool
  /-- nothing was read yet -/
  first : Bool
  /-- the octet before is an upper-case letter -/
  afterUpper : Bool

/-- The case a letter takes in a given state. -/
def Joining.recase (st : Joining) (b : UInt8) : UInt8 :=
  if st.raise then Byte.upper b
  else if st.first || st.afterUpper then Byte.lower b
  else b

/-- Letters and digits stay, everything else goes; a divider or a digit raises
the letter after it. -/
def joinWords (st : Joining) : Bytes → Bytes
  | [] => []
  | b :: s =>
    let next (raise : Bool) : Joining := ⟨raise, false, Byte.isUpper b⟩
    if Byte.isLetter b then st.recase b :: joinWords (next false) s
    else if Byte.isDigit b then b :: joinWords (next true) s
    else joinWords (next (isDivider b)) s

/-- Words joined, each with a capital: `GetUser`. -/
def pascal (s : Bytes) : Bytes := joinWords ⟨true, true, false⟩ s.trim

/-- Words joined, each but the first with a capital: `getUser`. -/
def camel (s : Bytes) : Bytes := joinWords ⟨false, true, false⟩ s.trim

end Bindery.CaseStyle
