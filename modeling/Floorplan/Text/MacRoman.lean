/-!
# Floorplan.Text.MacRoman

The Mac OS Roman character set: names of resources and all text drawn into a picture use it. Each
byte is one character. The lower half is ASCII, the upper half is the table `upperHalf`.
-/

namespace Floorplan
namespace MacRoman

/-- The characters of the bytes from `0x80` to `0xFF`. -/
def upperHalf : List Char :=
  ("ÄÅÇÉÑÖÜáàâäãåçéèêëíìîïñóòôöõúùûü" ++
   "†°¢£§•¶ß®©™´¨≠ÆØ∞±≤≥¥µ∂∑∏π∫ªºΩæø" ++
   "¿¡¬√ƒ≈∆«»…\u00a0ÀÃÕŒœ–—“”‘’÷◊ÿŸ⁄€‹›ﬁﬂ" ++
   "‡·‚„‰ÂÊÁËÈÍÎÏÌÓÔ\uf8ffÒÚÛÙıˆ˜¯˘˙˚¸˝˛ˇ").toList

def decodeByte (b : UInt8) : Char :=
  if b.toNat < 0x80 then Char.ofNat b.toNat else upperHalf.getD (b.toNat - 0x80) '?'

/-- The byte of a character; a character outside the set becomes a question mark. -/
def encodeChar (c : Char) : UInt8 :=
  if c.toNat < 0x80 then UInt8.ofNat c.toNat
  else match upperHalf.idxOf? c with
    | some i => UInt8.ofNat (0x80 + i)
    | none => 0x3F

def decode (bytes : List UInt8) : String :=
  String.ofList (bytes.map decodeByte)

/-- The bytes of a text, one for each character. -/
def encode (text : String) : List UInt8 :=
  text.toList.map encodeChar

end MacRoman
end Floorplan
