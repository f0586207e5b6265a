import HackToolchain.Text.Printable
import HackToolchain.Text.Radix

/-!
# Quoted text

How a text is shown inside a message.  It stands between single quotes, or between double quotes
when it holds a single quote and no double one.  The quote in use and the backslash are escaped by
a backslash; tab, line feed and carriage return have their letters; every other character that is
not printable is written by its code point, in the shortest of the three forms that can hold it.
-/

namespace HackToolchain.Text

/-- The quote that a text stands between. -/
def quoteFor (cs : List Char) : Char :=
  if cs.contains '\x27' && !cs.contains '\x22' then '\x22' else '\x27'

/-- A character as it stands between the given quotes. -/
def quoteChar (quote c : Char) : List Char :=
  if c == quote || c == '\\' then ['\\', c]
  else if c == '\t' then ['\\', 't']
  else if c == '\n' then ['\\', 'n']
  else if c == '\r' then ['\\', 'r']
  else if isPrintable c then [c]
  else if c.toNat < 0x100 then '\\' :: 'x' :: lowerHex 2 c.toNat
  else if c.toNat < 0x10000 then '\\' :: 'u' :: lowerHex 4 c.toNat
  else '\\' :: 'U' :: lowerHex 8 c.toNat

/-- A text between quotes. -/
def quoteChars (cs : List Char) : List Char :=
  let quote := quoteFor cs
  quote :: (cs.flatMap (quoteChar quote) ++ [quote])

/-- A text between quotes. -/
def quote (s : String) : String :=
  String.ofList (quoteChars s.toList)

end HackToolchain.Text
