/-! Blank characters and trimming.

The blanks are the characters with the Unicode property White_Space. Trimming a
line also removes the four information separators `U+001C` to `U+001F`.
-/

set_option autoImplicit false

namespace Lox.Text

def isBlank (c : Char) : Bool :=
  (0x09 ≤ c.toNat && c.toNat ≤ 0x0D) || c.toNat == 0x20 || c.toNat == 0x85 || c.toNat == 0xA0 ||
    c.toNat == 0x1680 || (0x2000 ≤ c.toNat && c.toNat ≤ 0x200A) || c.toNat == 0x2028 ||
    c.toNat == 0x2029 || c.toNat == 0x202F || c.toNat == 0x205F || c.toNat == 0x3000

def isInformationSeparator (c : Char) : Bool :=
  0x1C ≤ c.toNat && c.toNat ≤ 0x1F

def trimBy (drop : Char → Bool) (text : List Char) : List Char :=
  ((text.dropWhile drop).reverse.dropWhile drop).reverse

def trimLine (text : List Char) : List Char :=
  trimBy (fun c => isBlank c || isInformationSeparator c) text

end Lox.Text
