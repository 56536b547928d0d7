/-
Details with places for values: `%s` shows a text verbatim, `%q` quoted, `%x` in
hexadecimal. A place without a value and a value without a place are pointed out
in the text instead of being dropped.
-/
import Bindery.Report

namespace Bindery.Detail

/-- A value as the named form shows it. -/
def show1 (verb : UInt8) (arg : Bytes) : Bytes :=
  if verb = 115 || verb = 118 then arg
  else if verb = 113 then arg.quote
  else if verb = 120 then arg.hex
  else utf8 "%!" ++ [verb] ++ utf8 "(string=" ++ arg ++ utf8 ")"

/-- Values that no place asked for. -/
def surplus (args : List Bytes) : Bytes :=
  if args.isEmpty then []
  else utf8 "%!(EXTRA " ++ Bytes.join (utf8 ", ") (args.map (utf8 "string=" ++ ·)) ++ utf8 ")"

/-- Fills the places of a pattern from left to right. -/
def fillFrom : Bytes → List Bytes → Bytes
  | [], args => surplus args
  | [37], args => utf8 "%!(NOVERB)" ++ surplus args
  | 37 :: verb :: s, args =>
    if verb = 37 then 37 :: fillFrom s args
    else match args with
      | [] => utf8 "%!" ++ [verb] ++ utf8 "(MISSING)" ++ fillFrom s []
      | a :: args => show1 verb a ++ fillFrom s args
  | b :: s, args => b :: fillFrom s args

/-- A pattern with its values; without values the pattern stands for itself. -/
def fill (pattern : Bytes) (args : List Bytes) : Bytes :=
  if args.isEmpty then pattern else fillFrom pattern args

end Bindery.Detail
