import Strapdown.Text.Invisible

/-! Text in double quotes, with escapes for the quote itself and for what cannot be seen. -/

namespace Strapdown.Text

/-- A character inside double quotes. -/
def quoteChar (c : Char) : List Char :=
  match c.toNat with
  | 0x00 => ['\\', '0']
  | 0x09 => ['\\', 't']
  | 0x0a => ['\\', 'n']
  | 0x0d => ['\\', 'r']
  | 0x22 => ['\\', '\x22']
  | 0x5c => ['\\', '\\']
  | code =>
    if isInvisible c then '\\' :: 'u' :: '\x7b' :: Nat.toDigits 16 code ++ ['\x7d'] else [c]

def quote (s : String) : String :=
  String.ofList ('\x22' :: s.toList.flatMap quoteChar ++ ['\x22'])

end Strapdown.Text
