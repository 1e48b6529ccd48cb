import Mathlib.Data.Rat.Defs
import KodeGpt.JsonText

/-!
The reader of PNG files in the control plane, and the comparison of two images that it has
read. The library that inflates the compressed data is a parameter.
-/

namespace KodeGpt.VisualPng

open JsonText (Bytes)

def visualArtifactMaxBytes : Nat := 5 * 1024 * 1024

def visualMaxPixels : Nat := 3840 * 2160

def pngSignature : Bytes := [137, 80, 78, 71, 13, 10, 26, 10]

inductive VisualVerificationErrorCode where
  | visualInputInvalid
  | visualArtifactTooLarge
  | visualPngInvalid
  | visualActionFailed
deriving DecidableEq

structure VisualVerificationError where
  code : VisualVerificationErrorCode
  message : String
deriving DecidableEq

structure DecodedVisualPng where
  width : Nat
  height : Nat
  rgba : Bytes
deriving DecidableEq

structure VisualDimensions where
  width : Nat
  height : Nat
deriving DecidableEq

/-- The ratio is the exact one, before it is rounded to a double. -/
structure VisualPixelComparison where
  currentDimensions : VisualDimensions
  referenceDimensions : VisualDimensions
  dimensionsMatch : Bool
  changedPixels : Nat
  totalPixels : Nat
  changedPixelRatio : Rat
deriving DecidableEq

inductive ColorType where
  | rgb
  | rgba
deriving DecidableEq

def ColorType.bytesPerPixel : ColorType → Nat
  | rgb => 3
  | rgba => 4

structure PngHeader where
  width : Nat
  height : Nat
  colorType : ColorType
deriving DecidableEq

def pngInvalid (message : String) : VisualVerificationError :=
  ⟨.visualPngInvalid, message⟩

def byteAt (bytes : Bytes) (index : Nat) : UInt8 := bytes[index]?.getD 0

def subarray (bytes : Bytes) (first last : Nat) : Bytes := (bytes.drop first).take (last - first)

def getUint32 (bytes : Bytes) (offset : Nat) : Nat :=
  (((byteAt bytes offset).toNat * 256 + (byteAt bytes (offset + 1)).toNat) * 256 +
    (byteAt bytes (offset + 2)).toNat) * 256 + (byteAt bytes (offset + 3)).toNat

def asciiText (bytes : Bytes) : String :=
  String.ofList (bytes.map fun byte => Char.ofNat (byte.toNat % 128))

def parseHeader (data : Bytes) : Except VisualVerificationError PngHeader :=
  if data.length ≠ 13 then .error (pngInvalid "visual PNG IHDR is invalid")
  else
    let width := getUint32 data 0
    let height := getUint32 data 4
    let bitDepth := byteAt data 8
    let colorType := byteAt data 9
    let compression := byteAt data 10
    let filterMethod := byteAt data 11
    let interlace := byteAt data 12
    if width = 0 ∨ height = 0 then .error (pngInvalid "visual PNG dimensions are invalid")
    else if visualMaxPixels < width * height then
      .error ⟨.visualArtifactTooLarge, "visual PNG dimensions exceed the bounded pixel limit"⟩
    else if bitDepth ≠ 8 ∨ (colorType ≠ 2 ∧ colorType ≠ 6) ∨ compression ≠ 0 ∨
        filterMethod ≠ 0 ∨ interlace ≠ 0 then
      .error (pngInvalid "visual PNG format is unsupported")
    else .ok ⟨width, height, if colorType = 2 then .rgb else .rgba⟩

/-- What the loop over the chunks has found before `offset`. -/
structure ChunkState where
  offset : Nat
  header : Option PngHeader
  sawIdat : Bool
  sawIend : Bool
  idatParts : List Bytes
  idatBytes : Nat

def ChunkState.start : ChunkState where
  offset := pngSignature.length
  header := none
  sawIdat := false
  sawIend := false
  idatParts := []
  idatBytes := 0

def ChunkState.take (s : ChunkState) (type : String) (data : Bytes) :
    Except VisualVerificationError ChunkState :=
  if s.header = none ∧ type ≠ "IHDR" then .error (pngInvalid "visual PNG IHDR must be first")
  else if type = "IHDR" then
    if s.header ≠ none ∨ s.offset ≠ pngSignature.length then
      .error (pngInvalid "visual PNG contains duplicate IHDR")
    else (parseHeader data).map fun header => { s with header := some header }
  else if type = "IDAT" then
    if s.header = none then .error (pngInvalid "visual PNG IDAT precedes IHDR")
    else if visualArtifactMaxBytes < s.idatBytes + data.length then
      .error ⟨.visualArtifactTooLarge, "visual PNG compressed payload exceeds the bounded limit"⟩
    else
      .ok { s with
        sawIdat := true
        idatBytes := s.idatBytes + data.length
        idatParts := s.idatParts ++ [data] }
  else if type = "IEND" then
    if data.length ≠ 0 ∨ s.header = none ∨ s.sawIdat = false then
      .error (pngInvalid "visual PNG IEND is invalid")
    else .ok { s with sawIend := true }
  else .ok s

def readChunk (bytes : Bytes) (s : ChunkState) : Except VisualVerificationError ChunkState :=
  if s.sawIend = true ∨ bytes.length < s.offset + 12 then
    .error (pngInvalid "visual PNG chunk structure is invalid")
  else
    let length := getUint32 bytes s.offset
    let chunkEnd := s.offset + 12 + length
    if bytes.length < chunkEnd then .error (pngInvalid "visual PNG chunk length is invalid")
    else
      let type := asciiText (subarray bytes (s.offset + 4) (s.offset + 8))
      let data := subarray bytes (s.offset + 8) (s.offset + 8 + length)
      (s.take type data).map fun next => { next with offset := chunkEnd }

theorem readChunk_offset {bytes : Bytes} {s t : ChunkState} (h : readChunk bytes s = .ok t) :
    s.offset < t.offset ∧ t.offset ≤ bytes.length := by
  unfold readChunk at h
  split at h
  · cases h
  · dsimp only at h
    split at h
    · cases h
    · rename_i hend
      cases htake : s.take (asciiText (subarray bytes (s.offset + 4) (s.offset + 8)))
          (subarray bytes (s.offset + 8) (s.offset + 8 + getUint32 bytes s.offset)) with
      | error e =>
        rw [htake] at h
        cases h
      | ok next =>
        rw [htake] at h
        obtain rfl := Except.ok.inj h
        dsimp only
        omega

/-- `while (offset < bytes.byteLength)`. -/
def readChunks (bytes : Bytes) (s : ChunkState) : Except VisualVerificationError ChunkState :=
  if s.offset < bytes.length then
    match h : readChunk bytes s with
    | .ok next =>
      have _ := readChunk_offset h
      readChunks bytes next
    | .error error => .error error
  else .ok s
termination_by bytes.length - s.offset

/-- The first of the neighbours that is nearest to `left + up - upperLeft`. -/
def paethPredictor (left up upperLeft : Nat) : Nat :=
  let prediction : Int := left + up - upperLeft
  let leftDistance := (prediction - left).natAbs
  let upDistance := (prediction - up).natAbs
  let upperLeftDistance := (prediction - upperLeft).natAbs
  if leftDistance ≤ upDistance ∧ leftDistance ≤ upperLeftDistance then left
  else if upDistance ≤ upperLeftDistance then up
  else upperLeft

def predictor (filter : UInt8) (left up upperLeft : Nat) : Nat :=
  if filter = 1 then left
  else if filter = 2 then up
  else if filter = 3 then (left + up) / 2
  else if filter = 4 then paethPredictor left up upperLeft
  else 0

section Rows

variable (inflated : Bytes) (header : PngHeader) (rowBytes : Nat)

def reconstructByte (rowIndex sourceOffset : Nat) (filter : UInt8) (reconstructed : Bytes)
    (column : Nat) : Except VisualVerificationError Bytes :=
  match inflated[sourceOffset + column]? with
  | none => .error (pngInvalid "visual PNG scanline is truncated")
  | some encoded =>
    let bytesPerPixel := header.colorType.bytesPerPixel
    let rowOffset := rowIndex * rowBytes
    let previousOffset := rowOffset - rowBytes
    let left :=
      if bytesPerPixel ≤ column then byteAt reconstructed (rowOffset + column - bytesPerPixel)
      else 0
    let up := if 0 < rowIndex then byteAt reconstructed (previousOffset + column) else 0
    let upperLeft :=
      if 0 < rowIndex ∧ bytesPerPixel ≤ column then
        byteAt reconstructed (previousOffset + column - bytesPerPixel)
      else 0
    .ok (reconstructed.set (rowOffset + column)
      (encoded.toNat + predictor filter left.toNat up.toNat upperLeft.toNat).toUInt8)

def reconstructRow (s : Bytes × Nat) (rowIndex : Nat) :
    Except VisualVerificationError (Bytes × Nat) :=
  match inflated[s.2]? with
  | none => .error (pngInvalid "visual PNG scanline filter is invalid")
  | some filter =>
    if 4 < filter then .error (pngInvalid "visual PNG scanline filter is invalid")
    else
      ((List.range rowBytes).foldlM
        (reconstructByte inflated header rowBytes rowIndex (s.2 + 1) filter) s.1).map
          fun reconstructed => (reconstructed, s.2 + 1 + rowBytes)

def reconstructRows : Except VisualVerificationError Bytes :=
  ((List.range header.height).foldlM (reconstructRow inflated header rowBytes)
    (List.replicate (rowBytes * header.height) 0, 0)).map Prod.fst

end Rows

def rgbToRgba : Bytes → Bytes
  | red :: green :: blue :: rest => red :: green :: blue :: 255 :: rgbToRgba rest
  | [red, green] => [red, green, 0, 255]
  | [red] => [red, 0, 0, 255]
  | [] => []

def toRgba (raw : Bytes) (header : PngHeader) : Bytes :=
  match header.colorType with
  | .rgba => raw
  | .rgb =>
    let size := header.width * header.height * 4
    (rgbToRgba raw).take size ++ List.replicate (size - (rgbToRgba raw).length) 0

section Decoding

variable (inflateSync : Bytes → Nat → Option Bytes)

/-- What is done once all chunks are read. `inflateSync` fails when the data is corrupt or gives
more bytes than its second argument. -/
def decodePixels (header : PngHeader) (compressed : Bytes) :
    Except VisualVerificationError DecodedVisualPng :=
  let rowBytes := header.width * header.colorType.bytesPerPixel
  let expectedInflatedBytes := (rowBytes + 1) * header.height
  match inflateSync compressed expectedInflatedBytes with
  | none => .error (pngInvalid "visual PNG compressed data is invalid")
  | some inflated =>
    if inflated.length ≠ expectedInflatedBytes then
      .error (pngInvalid "visual PNG decompressed size is invalid")
    else
      (reconstructRows inflated header rowBytes).map fun raw =>
        ⟨header.width, header.height, toRgba raw header⟩

def decodeVisualPng (bytes : Bytes) : Except VisualVerificationError DecodedVisualPng :=
  if visualArtifactMaxBytes < bytes.length then
    .error ⟨.visualArtifactTooLarge, "visual PNG exceeds the bounded encoded artifact limit"⟩
  else if pngSignature.isPrefixOf bytes = false then
    .error (pngInvalid "visual PNG signature is invalid")
  else do
    let s ← readChunks bytes ChunkState.start
    match s.header with
    | none => .error (pngInvalid "visual PNG is incomplete")
    | some header =>
      if s.sawIdat = false ∨ s.sawIend = false ∨ s.offset ≠ bytes.length then
        .error (pngInvalid "visual PNG is incomplete")
      else decodePixels inflateSync header s.idatParts.flatten

end Decoding

def pixelOffset (image : DecodedVisualPng) (x y : Nat) : Option Nat :=
  if image.width ≤ x ∨ image.height ≤ y then none else some ((y * image.width + x) * 4)

def pixelChanged (current reference : DecodedVisualPng) (x y : Nat) : Bool :=
  match pixelOffset current x y, pixelOffset reference x y with
  | some currentOffset, some referenceOffset =>
    current.rgba[currentOffset]? != reference.rgba[referenceOffset]? ||
      current.rgba[currentOffset + 1]? != reference.rgba[referenceOffset + 1]? ||
      current.rgba[currentOffset + 2]? != reference.rgba[referenceOffset + 2]? ||
      current.rgba[currentOffset + 3]? != reference.rgba[referenceOffset + 3]?
  | _, _ => true

def compareVisualPixels (current reference : DecodedVisualPng) :
    Except VisualVerificationError VisualPixelComparison :=
  let width := max current.width reference.width
  let height := max current.height reference.height
  let totalPixels := width * height
  if visualMaxPixels < totalPixels then
    .error ⟨.visualArtifactTooLarge, "visual comparison union exceeds the bounded pixel limit"⟩
  else
    let changedPixels := (List.range height).foldl
      (fun changedPixels y => (List.range width).foldl
        (fun changedPixels x =>
          if pixelChanged current reference x y then changedPixels + 1 else changedPixels)
        changedPixels) 0
    .ok {
      currentDimensions := ⟨current.width, current.height⟩
      referenceDimensions := ⟨reference.width, reference.height⟩
      dimensionsMatch := current.width = reference.width && current.height = reference.height
      changedPixels
      totalPixels
      changedPixelRatio := changedPixels / totalPixels }

end KodeGpt.VisualPng
