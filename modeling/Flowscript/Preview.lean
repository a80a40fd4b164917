import Flowscript.Value.Access

/-!
# Binary messages

A binary message begins with the number of its kind. A preview goes on with the number of an image
format and the image itself.
-/

namespace Flowscript

structure Picture where
  width : Nat
  height : Nat
  length : Nat

namespace Picture

/-- The lengths of runs at which the code for a run changes. -/
def runBases : List Nat :=
  [3, 4, 5, 6, 7, 8, 9, 10, 11, 13, 15, 17, 19, 23, 27, 31, 35, 43, 51, 59, 67, 83, 99, 115, 131, 163,
    195, 227]

/-- The number of bits for a run of zeros after a zero, by fixed codes: a run too short for a code
is written byte by byte, and the longest run has a code of its own. -/
def runBits (length : Nat) : Nat :=
  if length < 3 then 8 * length
  else if length == 258 then 13
  else
    let k := (runBases.filter (· ≤ length)).length
    (if k ≤ 23 then 7 else 8) + (if k ≤ 8 then 0 else (k - 5) / 4) + 5

def compressedZeros (n : Nat) : Nat :=
  let bits := if n < 5 then 10 + 8 * n else 26 + (n - 2) / 258 * 13 + runBits ((n - 2) % 258)
  6 + (bits + 7) / 8

/-- A black image: the signature, three chunks, and the rows of zeros with a filter byte each. -/
def blank (width height : Nat) : Picture :=
  ⟨width, height, 57 + compressedZeros (height * (width + 1))⟩

end Picture

structure Blob where
  bytes : List UInt8
  picture : Option Picture

namespace Blob

def length (b : Blob) : Nat :=
  b.bytes.length + match b.picture with
    | some p => p.length
    | none => 0

def rest (b : Blob) : Blob := { b with bytes := b.bytes.drop 4 }

def head (b : Blob) : List UInt8 := b.bytes.take 4

def number (b : Blob) : Except Fault Nat :=
  if b.bytes.length < 4 then .error .truncated
  else .ok (b.head.foldl (fun n byte => n * 256 + byte.toNat) 0)

end Blob

structure BinaryEvent where
  kind : Nat
  data : Blob

namespace BinaryEvent

def previewKind : Nat := 1

def knownKinds : List Nat := [1, 2]

def ofBlob (b : Blob) : Except Fault (BinaryEvent × List String) := do
  let kind ← b.number
  let warnings := if knownKinds.contains kind then [] else
    ["Unknown binary event type: " ++ Text.quotedBytes b.head]
  .ok (⟨kind, b.rest⟩, warnings)

def knownFormat : Nat := 2

def foreignFormat : Nat := 1

def preview (e : BinaryEvent) : List String × Except Fault Value :=
  match e.data.number with
  | .error f => ([], .error f)
  | .ok format =>
    let warnings := if format == knownFormat || format == foreignFormat then [] else
      ["Unknown image format: " ++ Text.quotedBytes e.data.head]
    let body := e.data.rest
    let image : Except Fault Value :=
      match body.picture with
      | some p => if body.bytes.isEmpty && format != foreignFormat then .ok (.image p.width p.height)
        else .error .unknownImage
      | none => .error .unknownImage
    (warnings, image)

end BinaryEvent

end Flowscript
