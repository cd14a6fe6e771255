import InkCanvas.Raster.Image

/-! # PNG files

An image is written with eight bits to a channel, four channels, and its bytes stored as they are
(`Png.encode?`). -/

namespace InkCanvas.Png

/-- The bytes that every PNG file begins with. -/
def signature : List UInt8 := [137, 80, 78, 71, 13, 10, 26, 10]

/-- A number in four bytes, most significant first. -/
def word (n : Nat) : List UInt8 :=
  [(n >>> 24).toUInt8, (n >>> 16).toUInt8, (n >>> 8).toUInt8, n.toUInt8]

/-- A number in two bytes, least significant first. -/
def shortWord (n : Nat) : List UInt8 := [n.toUInt8, (n >>> 8).toUInt8]

/-- A list of bytes behind others. -/
def append (bytes : ByteArray) (more : List UInt8) : ByteArray := more.foldl ByteArray.push bytes

/-- One step of the polynomial division of a cyclic redundancy check. -/
def checkStep (c : UInt32) : UInt32 :=
  if c &&& 1 = 1 then (0xEDB88320 : UInt32) ^^^ (c >>> 1) else c >>> 1

/-- The remainders of the 256 bytes. -/
def checkTable : Array UInt32 :=
  (Array.range 256).map fun n => Nat.repeat checkStep 8 n.toUInt32

/-- The checksum of a chunk. -/
def cyclicCheck (bytes : ByteArray) : UInt32 :=
  let table := checkTable
  let c := bytes.foldl (fun c b => table.getD ((c ^^^ b.toUInt32) &&& 0xFF).toNat 0 ^^^ (c >>> 8))
    0xFFFFFFFF
  c ^^^ 0xFFFFFFFF

/-- The checksum of a data stream. -/
def adlerCheck (bytes : ByteArray) : UInt32 :=
  let (a, b) := bytes.foldl (fun (a, b) byte =>
    let a := (a + byte.toUInt32) % 65521
    (a, (b + a) % 65521)) ((1 : UInt32), (0 : UInt32))
  b * 65536 + a

/-- A chunk: its length, its name, its data and its checksum. -/
def chunk (name : String) (data : ByteArray) : ByteArray :=
  let body := append .empty (name.toList.map fun c => c.toNat.toUInt8) ++ data
  append (append .empty (word data.size) ++ body) (word (cyclicCheck body).toNat)

/-- The most bytes that a block holds. -/
def blockSize : Nat := 65535

/-- The data from `start` on in `count` blocks that hold it as it is. -/
def storedBlocks (data : ByteArray) (start : Nat) : Nat → ByteArray
  | 0 => .empty
  | count + 1 =>
    let block := data.extract start (start + blockSize)
    append .empty ([if count = 0 then 1 else 0] ++ shortWord block.size
      ++ shortWord (65535 - block.size)) ++ block ++ storedBlocks data (start + blockSize) count

/-- A data stream that holds the data as it is. -/
def stored (data : ByteArray) : ByteArray :=
  append (append .empty [0x78, 0x01] ++ storedBlocks data 0 (data.size / blockSize + 1))
    (word (adlerCheck data).toNat)

/-- The rows of an image, each behind a zero byte: it is not filtered. -/
def rows (i : Image) : ByteArray :=
  (List.range i.height).foldl (fun bytes y =>
    bytes.push 0 ++ i.rgba.extract (y * i.width * 4) ((y + 1) * i.width * 4)) .empty

/-- The file of an image, unless the image is incomplete. -/
def encode? (i : Image) : Option ByteArray :=
  if i.isComplete then
    some (append .empty signature
      ++ chunk "IHDR" (append .empty (word i.width ++ word i.height ++ [8, 6, 0, 0, 0]))
      ++ chunk "IDAT" (stored (rows i)) ++ chunk "IEND" .empty)
  else
    none

end InkCanvas.Png
