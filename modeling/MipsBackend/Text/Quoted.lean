import MipsBackend.Text.Printable

/-! Quoted text: a text between double quotes, with everything that is not printable written as
an escape. -/
namespace MipsBackend.Text

/-- The digits of `n` in base 16, lower case, at least `places` of them. -/
def hex (places n : Nat) : List Char :=
  let ds := Nat.toDigits 16 n
  List.replicate (places - ds.length) '0' ++ ds

/-- One character inside quoted text. -/
def quotedChar (c : Char) : List Char :=
  if c = '"' then ['\\', '"']
  else if c = '\\' then ['\\', '\\']
  else if isPrintable c then [c]
  else if c = '\x07' then ['\\', 'a']
  else if c = '\x08' then ['\\', 'b']
  else if c = '\x0c' then ['\\', 'f']
  else if c = '\n' then ['\\', 'n']
  else if c = '\r' then ['\\', 'r']
  else if c = '\t' then ['\\', 't']
  else if c = '\x0b' then ['\\', 'v']
  else if c.toNat < 0x20 || c.toNat = 0x7f then '\\' :: 'x' :: hex 2 c.toNat
  else if c.toNat < 0x10000 then '\\' :: 'u' :: hex 4 c.toNat
  else '\\' :: 'U' :: hex 8 c.toNat

/-- A text in double quotes. -/
def quote (s : String) : String := String.ofList ('"' :: s.toList.flatMap quotedChar ++ ['"'])

example : quote "a\"\x1f é" = "\"a\\\"\\x1f\\u00a0é\"" := by decide +kernel

end MipsBackend.Text
