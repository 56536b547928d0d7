/-
JSON documents and their text: members on lines of their own, two blanks of indentation
a level, and strings that are safe to place inside markup.
-/
import Bindery.Bytes.Quoted

namespace Bindery.JsonText

inductive Value where
  | null
  | text (s : Bytes)
  | number (n : Nat)
  | list (items : List Value)
  /-- members in the order they are written -/
  | object (members : List (Bytes × Value))
  deriving Inhabited

/-- A character inside a string. Quotes, backslashes and control characters are escaped,
and so are the characters that markup or a script would stop at. -/
def encodeChar (c : Char) : Bytes :=
  let n := c.toNat
  if c = '"' then utf8 "\\\""
  else if c = '\\' then utf8 "\\\\"
  else if n = 8 then utf8 "\\b"
  else if n = 9 then utf8 "\\t"
  else if n = 10 then utf8 "\\n"
  else if n = 12 then utf8 "\\f"
  else if n = 13 then utf8 "\\r"
  else if n < 32 ∨ c = '<' ∨ c = '>' ∨ c = '&' ∨ n = 0x2028 ∨ n = 0x2029 then
    utf8 "\\u" ++ Quoted.hexDigits 4 n
  else String.utf8EncodeChar c

/-- A unit of a string; an octet that is part of no character shows as the replacement
character. -/
def encodeUnit : TextUnit → Bytes
  | .char c => encodeChar c
  | .stray _ => utf8 "\\ufffd"

/-- A string in its quotes. -/
def encodeText (s : Bytes) : Bytes := [34] ++ (Utf8.units s).flatMap encodeUnit ++ [34]

/-- A line feed and the indentation of a level. -/
def newline (level : Nat) : Bytes := 10 :: List.replicate (2 * level) 32

/-- Parts between brackets, one a line, with commas between them. -/
def block (opening closing : String) (level : Nat) (parts : List Bytes) : Bytes :=
  if parts.isEmpty then utf8 opening ++ utf8 closing
  else utf8 opening ++ newline (level + 1) ++ Bytes.join (44 :: newline (level + 1)) parts
    ++ newline level ++ utf8 closing

mutual

/-- The text of a value that starts on a line of the given level. -/
def renderAt (level : Nat) : Value → Bytes
  | .null => utf8 "null"
  | .text s => encodeText s
  | .number n => Bytes.decimal n
  | .list is => block "[" "]" level (renderItems (level + 1) is)
  | .object ms => block "\x7b" "\x7d" level (renderMembers (level + 1) ms)

def renderItems (level : Nat) : List Value → List Bytes
  | [] => []
  | v :: vs => renderAt level v :: renderItems level vs

def renderMembers (level : Nat) : List (Bytes × Value) → List Bytes
  | [] => []
  | (k, v) :: ms => (encodeText k ++ utf8 ": " ++ renderAt level v) :: renderMembers level ms

end

/-- A document, with a line feed at its end. -/
def render (v : Value) : Bytes := (renderAt 0 v).line

/-- A member that is written only when its text is not empty. -/
def textUnlessEmpty (name : String) (s : Bytes) : List (Bytes × Value) :=
  if s.isEmpty then [] else [(utf8 name, .text s)]

def texts (ss : List Bytes) : Value := .list (ss.map .text)

end Bindery.JsonText
