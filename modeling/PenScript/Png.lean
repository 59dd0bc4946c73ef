import PenScript.Canvas

/-!
# A plain PNG codec

Reads and writes PNG files as far as a host needs it that has no library for them. A PNG file is a
signature and a sequence of chunks; a chunk has a length, a four letter name, data and a check
value. The pixels are kept in a compressed stream, which is a sequence of blocks. A block may also
keep its bytes as they are; only such blocks are read and written here.

The rows of a picture are kept as differences to what stands to the left, above, or both; a row
starts with the number of the filter that says which. A picture is grey, colored, or made of palette
colors, with or without alpha, in samples of one to sixteen bits. All of them become rasters with
one byte a sample: smaller samples are stretched to the full range and larger ones keep their high
byte. A canvas is written with eight bits a sample, red, green, blue and alpha, without filters and
without compression. A PNG picture has at least one pixel.

## Main definitions

* `Png.crc32`, `Png.adler32` — the checksums of the format;
* `Png.Chunk.write`, `Png.Chunk.readAll` — the chunks of a file;
* `Png.Stored.pack`, `Png.Stored.unpack` — between bytes and a stream of stored blocks;
* `Png.Scanline.unfilter` — the rows of a picture;
* `Png.decode` — the raster of a PNG file;
* `Png.encode` — the PNG file of a canvas.
-/

namespace PenScript.Png

/-! ### Checksums -/

/-- One step of the cyclic redundancy check by the reversed polynomial `EDB88320`. -/
def crcStep (c : UInt32) : UInt32 :=
  if c % 2 = 1 then (0xEDB88320 : UInt32) ^^^ (c >>> 1) else c >>> 1

/-- The check of every single byte: eight steps. -/
def crcTable : Array UInt32 :=
  Array.ofFn fun (i : Fin 256) => Nat.repeat crcStep 8 (UInt32.ofNat i.val)

/-- The cyclic redundancy check of some bytes. -/
def crc32 (bytes : Array UInt8) : UInt32 :=
  let ones : UInt32 := 0xFFFFFFFF
  let update (c : UInt32) (b : UInt8) : UInt32 :=
    crcTable.getD ((c ^^^ b.toUInt32) % 256).toNat 0 ^^^ (c >>> 8)
  ones ^^^ bytes.foldl update ones

/-- The Adler checksum of some bytes: the sum of the bytes and the sum of all partial sums, both
modulo the largest prime below `2^16`. -/
def adler32 (bytes : Array UInt8) : UInt32 :=
  let (a, b) := bytes.foldl (fun (a, b) x =>
    let a := (a + x.toUInt32) % 65521
    (a, (b + a) % 65521)) ((1 : UInt32), (0 : UInt32))
  b * 65536 + a

/-! ### Chunks -/

/-- Why some bytes show no picture. -/
inductive DecodeError where
  | badSignature
  | truncated
  | unsupported
deriving DecidableEq, Repr

/-- The wording of a decoding error. -/
def DecodeError.message : DecodeError → String
  | badSignature => "Invalid PNG signature."
  | truncated => "unexpected end of file"
  | unsupported => "unsupported image format"

/-- The bytes that start a PNG file, in the groups in which they are compared. -/
def signatureGroups : List (List UInt8) :=
  [[0x89, 0x50, 0x4E, 0x47], [0x0D, 0x0A, 0x1A, 0x0A]]

/-- The bytes that start a PNG file. -/
def signature : List UInt8 :=
  signatureGroups.flatten

/-- Reads groups of expected bytes from byte `i` on and gives where they end. A group that is not
complete is missing, however it starts; a complete one has to be the expected one. -/
def readGroups (bytes : Array UInt8) : (groups : List (List UInt8)) → (i : Nat) →
    Except DecodeError Nat
  | [], i => .ok i
  | group :: groups, i =>
    let stop := i + group.length
    if bytes.size < stop then .error .truncated
    else if (bytes.extract i stop).toList ≠ group then .error .badSignature
    else readGroups bytes groups stop

/-- A number of four bytes, the highest one first. -/
def word (n : UInt32) : Array UInt8 :=
  #[(n >>> 24).toUInt8, (n >>> 16).toUInt8, (n >>> 8).toUInt8, n.toUInt8]

/-- The number that is written in the four bytes from `i` on. -/
def wordAt? (bytes : Array UInt8) (i : Nat) : Option Nat := do
  let a ← bytes[i]?
  let b ← bytes[i + 1]?
  let c ← bytes[i + 2]?
  let d ← bytes[i + 3]?
  return ((a.toNat * 256 + b.toNat) * 256 + c.toNat) * 256 + d.toNat

/-- A chunk of a PNG file. -/
structure Chunk where
  name : List UInt8
  data : Array UInt8
deriving DecidableEq, Repr

namespace Chunk

/-- The name of the chunk with the size and the format of the picture. -/
def header : List UInt8 := [0x49, 0x48, 0x44, 0x52]

/-- The name of the chunk with the colors of the palette. -/
def palette : List UInt8 := [0x50, 0x4C, 0x54, 0x45]

/-- The name of the chunk that says which colors are invisible. -/
def transparency : List UInt8 := [0x74, 0x52, 0x4E, 0x53]

/-- The name of a chunk with pixels. -/
def pixels : List UInt8 := [0x49, 0x44, 0x41, 0x54]

/-- The name of the chunk that closes the file. -/
def closing : List UInt8 := [0x49, 0x45, 0x4E, 0x44]

/-- The bytes of a chunk. -/
def write (c : Chunk) : Array UInt8 :=
  let checked := c.name.toArray ++ c.data
  word (UInt32.ofNat c.data.size) ++ checked ++ word (crc32 checked)

/-- The chunk that starts at byte `i`, and where it ends. -/
def readAt? (bytes : Array UInt8) (i : Nat) : Option (Chunk × Nat) := do
  let length ← wordAt? bytes i
  let stop := i + 12 + length
  if stop ≤ bytes.size then
    some (⟨(bytes.extract (i + 4) (i + 8)).toList, bytes.extract (i + 8) (i + 8 + length)⟩, stop)
  else none

/-- The name of the chunk that starts at byte `i`. -/
def nameAt? (bytes : Array UInt8) (i : Nat) : Option (List UInt8) :=
  if i + 8 ≤ bytes.size then some (bytes.extract (i + 4) (i + 8)).toList else none

/-- Up to `bound` chunks from byte `i` on; `inPixels` says whether the chunk before had pixels. The
name of the chunk behind the pixels is read, because it might be more pixels, and the rest of the
file is not looked at. No file has more chunks than bytes. -/
def readFrom (bytes : Array UInt8) :
    (bound : Nat) → (inPixels : Bool) → (i : Nat) → Except DecodeError (List Chunk)
  | 0, _, _ => .error .truncated
  | bound + 1, inPixels, i =>
    match nameAt? bytes i with
    | none => .error .truncated
    | some name =>
      if name = closing ∨ inPixels ∧ name ≠ pixels then .ok []
      else
        match readAt? bytes i with
        | none => .error .truncated
        | some (c, stop) => (c :: ·) <$> readFrom bytes bound (name = pixels) stop

/-- The chunks of a file up to its pixels. -/
def readAll (bytes : Array UInt8) : Except DecodeError (List Chunk) := do
  let start ← readGroups bytes signatureGroups 0
  readFrom bytes bytes.size false start

end Chunk

/-! ### Scanlines -/

namespace Scanline

/-- The one of `left`, `up` and `corner` that is nearest to `left + up - corner`; the first one of
several. -/
def paeth (left up corner : Nat) : Nat :=
  let p : Int := left + up - corner
  let pa := (p - left).natAbs
  let pb := (p - up).natAbs
  let pc := (p - corner).natAbs
  if pa ≤ pb ∧ pa ≤ pc then left else if pb ≤ pc then up else corner

/-- What a filter expects at a byte, from the bytes of the pixels to the left, above, and above to
the left. -/
def predict (filter : UInt8) (left up corner : Nat) : Nat :=
  if filter = 1 then left
  else if filter = 2 then up
  else if filter = 3 then (left + up) / 2
  else if filter = 4 then paeth left up corner
  else 0

/-- The row of some differences. A pixel takes `step` bytes, and `above` is the row above. -/
def unfilterRow (filter : UInt8) (step : Nat) (above row : Array UInt8) : Array UInt8 :=
  row.foldl (fun out b =>
    let i := out.size
    let left := if step ≤ i then (out.getD (i - step) 0).toNat else 0
    let corner := if step ≤ i then (above.getD (i - step) 0).toNat else 0
    let up := (above.getD i 0).toNat
    out.push (UInt8.ofNat (b.toNat + predict filter left up corner))) #[]

/-- The rows of a picture with so many rows of `width` bytes, the first one starting at byte `i`. -/
def unfilter (data : Array UInt8) (step width : Nat) :
    (rows : Nat) → (i : Nat) → (above : Array UInt8) → Except DecodeError (List (Array UInt8))
  | 0, _, _ => .ok []
  | rows + 1, i, above =>
    let stop := i + 1 + width
    if data.size < stop then .error .truncated
    else
      let row := unfilterRow (data.getD i 0) step above (data.extract (i + 1) stop)
      (row :: ·) <$> unfilter data step width rows stop row

end Scanline

/-! ### Stored pixel data -/

namespace Stored

/-- The largest number of bytes of a block. -/
def maxBlock : Nat := 65535

/-- A number of two bytes, the lowest one first. -/
def half (n : Nat) : Array UInt8 :=
  #[UInt8.ofNat (n % 256), UInt8.ofNat (n / 256 % 256)]

/-- The blocks for the bytes from `i` on; `bound` of them are enough for so many bytes. -/
def blocks (bytes : Array UInt8) : (bound : Nat) → (i : Nat) → (out : Array UInt8) → Array UInt8
  | 0, _, out => out
  | bound + 1, i, out =>
    let stop := min (i + maxBlock) bytes.size
    let last : UInt8 := if stop = bytes.size then 1 else 0
    let out := out ++ #[last] ++ half (stop - i) ++ half (maxBlock - (stop - i))
      ++ bytes.extract i stop
    if stop = bytes.size then out else blocks bytes bound stop out

/-- The stream of some bytes. -/
def pack (bytes : Array UInt8) : Array UInt8 :=
  blocks bytes (bytes.size / maxBlock + 1) 0 #[0x78, 0x01] ++ word (adler32 bytes)

/-- The bytes of the blocks from `i` on, behind `out`; there are no more blocks than bytes. -/
def unblock (stream : Array UInt8) :
    (bound : Nat) → (i : Nat) → (out : Array UInt8) → Except DecodeError (Array UInt8)
  | 0, _, _ => .error .truncated
  | bound + 1, i, out =>
    match stream[i]?, stream[i + 1]?, stream[i + 2]? with
    | some flags, some lo, some hi =>
      let start := i + 5
      let stop := start + lo.toNat + 256 * hi.toNat
      if flags / 2 % 4 ≠ 0 then .error .unsupported
      else if stream.size < stop then .error .truncated
      else
        let out := out ++ stream.extract start stop
        if flags % 2 = 1 then .ok out else unblock stream bound stop out
    | _, _, _ => .error .truncated

/-- The bytes of a stream. -/
def unpack (stream : Array UInt8) : Except DecodeError (Array UInt8) :=
  unblock stream stream.size 2 #[]

end Stored

/-! ### Reading pictures -/

/-- What the samples of a pixel mean. -/
inductive ColorType where
  | grey
  | rgb
  | indexed
  | greyAlpha
  | rgba
deriving DecidableEq, Repr

namespace ColorType

/-- The color type of a number in the header. -/
def ofCode? (code : UInt8) : Option ColorType :=
  if code = 0 then some grey
  else if code = 2 then some rgb
  else if code = 3 then some indexed
  else if code = 4 then some greyAlpha
  else if code = 6 then some rgba
  else none

/-- The number of samples of a pixel. -/
def samples : ColorType → Nat
  | grey | indexed => 1
  | greyAlpha => 2
  | rgb => 3
  | rgba => 4

end ColorType

/-- The size and the format of a picture. -/
structure Header where
  width : Nat
  height : Nat
  depth : Nat
  type : ColorType
deriving DecidableEq, Repr

namespace Header

/-- The size and the format that a header chunk gives. -/
def ofChunk? (c : Chunk) : Option Header := do
  let width ← wordAt? c.data 0
  let height ← wordAt? c.data 4
  let depth ← c.data[8]?
  let type ← ColorType.ofCode? (← c.data[9]?)
  return ⟨width, height, depth.toNat, type⟩

/-- The number of bits of a pixel. -/
def pixelBits (h : Header) : Nat :=
  h.depth * h.type.samples

/-- The number of bytes of a row. -/
def rowBytes (h : Header) : Nat :=
  (h.width * h.pixelBits + 7) / 8

/-- The number of bytes from a byte of a pixel to the same one of the next pixel. -/
def pixelStep (h : Header) : Nat :=
  max 1 (h.pixelBits / 8)

end Header

/-- The format of a picture with the colors that other chunks give. -/
structure Format where
  header : Header
  palette : Array UInt8
  transparency : Option (Array UInt8)

namespace Format

/-- The sample with number `k` of a row. -/
def sample (f : Format) (row : Array UInt8) (k : Nat) : Nat :=
  let d := f.header.depth
  if d = 16 then (row.getD (2 * k) 0).toNat * 256 + (row.getD (2 * k + 1) 0).toNat
  else (row.getD (k * d / 8) 0).toNat / Nat.pow 2 (8 - d - k * d % 8) % Nat.pow 2 d

/-- A sample as one byte. -/
def byte (f : Format) (v : Nat) : UInt8 :=
  let d := f.header.depth
  if d = 16 then UInt8.ofNat (v / 256) else UInt8.ofNat (v * (255 / (Nat.pow 2 d - 1)))

/-- Whether the samples of a pixel are those of the invisible color that some bytes give, two bytes
a sample. Samples of sixteen bits have to be these bytes and no others; smaller ones are given by
the low byte of each pair, and bytes behind the last pair do not matter. -/
def isInvisible (f : Format) (bytes : Array UInt8) (samples : List Nat) : Bool :=
  if f.header.depth = 16 then
    bytes.toList = samples.flatMap fun v => [UInt8.ofNat (v / 256), UInt8.ofNat (v % 256)]
  else samples = (List.range samples.length).map fun k => (bytes.getD (2 * k + 1) 0).toNat

/-- The alpha of a pixel with these samples in a picture that may have an invisible color. -/
def alpha (f : Format) (samples : List Nat) : UInt8 :=
  match f.transparency with
  | some bytes => if f.isInvisible bytes samples then 0 else 255
  | none => 255

/-- The alpha values of the first colors of the palette. If more values are given than the palette
has colors, none of them counts. -/
def paletteAlphas (f : Format) : Array UInt8 :=
  match f.transparency with
  | some bytes => if bytes.size ≤ f.palette.size / 3 then bytes else #[]
  | none => #[]

/-- The palette color of an index. A color without an alpha value is opaque, and a color that the
palette does not have is black. -/
def paletteColor (f : Format) (i : Nat) : Color :=
  let a := f.paletteAlphas.getD i 255
  if 3 * i + 3 ≤ f.palette.size then
    ⟨f.palette.getD (3 * i) 0, f.palette.getD (3 * i + 1) 0, f.palette.getD (3 * i + 2) 0, a⟩
  else ⟨0, 0, 0, a⟩

/-- The color of the pixel with number `x` of a row. -/
def color (f : Format) (row : Array UInt8) (x : Nat) : Color :=
  let v (k : Nat) : Nat := f.sample row (x * f.header.type.samples + k)
  match f.header.type with
  | .grey => ⟨f.byte (v 0), f.byte (v 0), f.byte (v 0), f.alpha [v 0]⟩
  | .rgb => ⟨f.byte (v 0), f.byte (v 1), f.byte (v 2), f.alpha [v 0, v 1, v 2]⟩
  | .indexed => f.paletteColor (v 0)
  | .greyAlpha => ⟨f.byte (v 0), f.byte (v 0), f.byte (v 0), f.byte (v 1)⟩
  | .rgba => ⟨f.byte (v 0), f.byte (v 1), f.byte (v 2), f.byte (v 3)⟩

/-- The bytes of a row of colors. -/
def rowColors (f : Format) (row : Array UInt8) : Array UInt8 :=
  (Array.range f.header.width).flatMap fun x =>
    let c := f.color row x
    #[c.r, c.g, c.b, c.a]

end Format

/-- The data of the first chunk of a name. -/
def firstData? (chunks : List Chunk) (name : List UInt8) : Option (Array UInt8) :=
  (chunks.find? fun c => c.name = name).map Chunk.data

/-- The data of all chunks of a name, put end to end. -/
def joinedData (chunks : List Chunk) (name : List UInt8) : Array UInt8 :=
  (chunks.filter fun c => c.name = name).foldl (fun data c => data ++ c.data) #[]

/-- The raster of a PNG file. Palette and transparency are looked for before the pixels. -/
def decode (bytes : Array UInt8) : Except DecodeError Raster := do
  let chunks ← Chunk.readAll bytes
  let some header := (chunks.find? fun c => c.name = Chunk.header).bind Header.ofChunk?
    | throw .unsupported
  let front := chunks.takeWhile fun c => c.name ≠ Chunk.pixels
  let format : Format :=
    { header
      palette := (firstData? front Chunk.palette).getD #[]
      transparency := firstData? front Chunk.transparency }
  let data ← Stored.unpack (joinedData chunks Chunk.pixels)
  let rows ← Scanline.unfilter data header.pixelStep header.rowBytes header.height 0 #[]
  let pixels := rows.foldl (fun out row => out ++ format.rowColors row) #[]
  return ⟨header.width, header.height, pixels⟩

/-! ### Writing pictures -/

/-- Why a canvas cannot be written. -/
inductive EncodeError where
  | zeroWidth
  | zeroHeight
deriving DecidableEq, Repr

/-- The wording of an encoding error. -/
def EncodeError.message : EncodeError → String
  | zeroWidth => "Zero width not allowed"
  | zeroHeight => "Zero height not allowed"

/-- The chunk that opens a picture of some size. -/
def headerChunk (width height : Nat) : Chunk :=
  ⟨Chunk.header, word (UInt32.ofNat width) ++ word (UInt32.ofNat height) ++ #[8, 6, 0, 0, 0]⟩

/-- The rows of a raster, each one behind the number of the filter that changes nothing. -/
def plainRows (r : Raster) : Array UInt8 :=
  (Array.range r.height).foldl
    (fun out y => out ++ #[0] ++ r.bytes.extract (y * r.width * 4) ((y + 1) * r.width * 4)) #[]

/-- The PNG file of a canvas. -/
def encode (c : Canvas) : Except EncodeError (Array UInt8) :=
  if c.width = 0 then .error .zeroWidth
  else if c.height = 0 then .error .zeroHeight
  else
    .ok (signature.toArray
      ++ (headerChunk c.width c.height).write
      ++ Chunk.write ⟨Chunk.pixels, Stored.pack (plainRows c.toRaster)⟩
      ++ Chunk.write ⟨Chunk.closing, #[]⟩)

end PenScript.Png
