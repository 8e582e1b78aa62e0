namespace VendorScreen.Text.CodePage437

/-!
# Code page 437

Entry names without the UTF-8 flag are written in the character set of the first PCs. Its lower
half is ASCII.
-/

/-- The characters of the bytes 0x80 to 0xFF. -/
def upperHalf : List Char :=
  ("ÇüéâäàåçêëèïîìÄÅÉæÆôöòûùÿÖÜ¢£¥₧ƒ"
    ++ "áíóúñÑªº¿⌐¬½¼¡«»░▒▓│┤╡╢╖╕╣║╗╝╜╛┐"
    ++ "└┴┬├─┼╞╟╚╔╩╦╠═╬╧╨╤╥╙╘╒╓╫╪┘┌█▄▌▐▀"
    ++ "αßΓπΣσµτΦΘΩδ∞φε∩≡±≥≤⌠⌡÷≈°∙·√ⁿ²■\u00a0").toList

def char (byte : UInt8) : Char :=
  if byte < 0x80 then Char.ofNat byte.toNat
  else upperHalf.getD (byte.toNat - 0x80) ' '

def decode (b : ByteArray) : String :=
  String.ofList (b.data.toList.map char)

end VendorScreen.Text.CodePage437
