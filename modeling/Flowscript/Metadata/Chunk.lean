import Flowscript.Fault

/-!
# Chunks of an image file

The metadata of an image is a sequence of chunks. Text in Latin-1 is kept as it is or compressed;
other text is kept as international text.
-/

namespace Flowscript

inductive ChunkBody where
  | bytes (data : List UInt8)
  | compressed (key text : String)
  | international (key text : String) (zip : Bool)

/-- A chunk: the kind of its data, the data, and whether it comes after the image data. -/
structure Chunk where
  kind : String
  body : ChunkBody
  afterImage : Bool

namespace Chunk

def isLatin (c : Char) : Bool := c.toNat < 256

def latinBytes (s : String) : List UInt8 := s.toList.map fun c => c.toNat.toUInt8

def ofLatin (bytes : List UInt8) : String := String.ofList (bytes.map fun b => Char.ofNat b.toNat)

/-- The chunk for a text under a key; the key is in Latin-1. -/
def ofText (key : String) (value : Value) (zip : Bool) : Except Fault Chunk :=
  match value.text? with
  | none => .error .missingField
  | some text =>
    if !key.toList.all isLatin then .error .notLatin
    else if !text.toList.all isLatin then .ok ⟨"iTXt", .international key text zip, false⟩
    else if zip then .ok ⟨"zTXt", .compressed key text, false⟩
    else .ok ⟨"tEXt", .bytes (latinBytes key ++ [0] ++ latinBytes text), false⟩

def entry? (c : Chunk) : Option (String × String) :=
  match c.body with
  | .bytes data =>
    let key := data.takeWhile (· != 0)
    if c.kind == "tEXt" && key.length < data.length then
      some (ofLatin key, ofLatin (data.drop (key.length + 1)))
    else none
  | _ => none

end Chunk

end Flowscript
