import Mathlib.Data.List.MinMax
import KodeGpt.FallibleActions
import KodeGpt.FilledArrays
import KodeGpt.VisualPng

/-!
Images, and the files that store them: with any filter for each row, the compressed data cut
into any chunks and ancillary chunks anywhere between them. The reader gives the image back.
-/

namespace KodeGpt.PngImages

open FilledArrays VisualPng
open JsonText (Bytes)
open FallibleActions (foldlM_range_ok bind_eq_ok_iff)

structure Pixel where
  red : UInt8
  green : UInt8
  blue : UInt8
  alpha : UInt8

def Pixel.bytes (pixel : Pixel) : Bytes := [pixel.red, pixel.green, pixel.blue, pixel.alpha]

def Pixel.samples (pixel : Pixel) : ColorType → Bytes
  | .rgb => [pixel.red, pixel.green, pixel.blue]
  | .rgba => pixel.bytes

structure Image where
  width : Nat
  height : Nat
  colorType : ColorType
  pixels : List Pixel
  width_pos : 0 < width
  height_pos : 0 < height
  pixels_length : pixels.length = width * height
  alpha_eq : colorType = .rgb → ∀ pixel ∈ pixels, pixel.alpha = 255

namespace Image

variable (image : Image)

def decoded : DecodedVisualPng where
  width := image.width
  height := image.height
  rgba := image.pixels.flatMap Pixel.bytes

def header : PngHeader := ⟨image.width, image.height, image.colorType⟩

def rowBytes : Nat := image.width * image.colorType.bytesPerPixel

def raw : Bytes := image.pixels.flatMap fun pixel => pixel.samples image.colorType

def sample (row column : Nat) : UInt8 := byteAt image.raw (row * image.rowBytes + column)

def left (row column : Nat) : UInt8 :=
  if column < image.colorType.bytesPerPixel then 0
  else image.sample row (column - image.colorType.bytesPerPixel)

def up : Nat → Nat → UInt8
  | 0, _ => 0
  | row + 1, column => image.sample row column

def upperLeft : Nat → Nat → UInt8
  | 0, _ => 0
  | row + 1, column => image.left row column

end Image

inductive Filter where
  | none
  | sub
  | up
  | average
  | paeth

namespace Filter

def number : Filter → UInt8
  | none => 0
  | sub => 1
  | up => 2
  | average => 3
  | paeth => 4

/-- The neighbour nearest to `left + up - upperLeft`; of equally near ones the first. -/
def nearest (left up upperLeft : UInt8) : UInt8 :=
  ([left, up, upperLeft].argmin fun neighbour =>
    (left.toNat + up.toNat - upperLeft.toNat - neighbour.toNat : Int).natAbs).getD left

def predict (left up upperLeft : UInt8) : Filter → UInt8
  | none => 0
  | sub => left
  | .up => up
  | average => ((left.toNat + up.toNat) / 2).toUInt8
  | paeth => nearest left up upperLeft

end Filter

def Image.filtered (image : Image) (filter : Filter) (row column : Nat) : UInt8 :=
  image.sample row column -
    filter.predict (image.left row column) (image.up row column) (image.upperLeft row column)

def Image.scanline (image : Image) (filter : Filter) (row : Nat) : Bytes :=
  filter.number :: (List.range image.rowBytes).map (image.filtered filter row)

def Image.scanlines (image : Image) (filters : Nat → Filter) : Bytes :=
  (List.range image.height).flatMap fun row => image.scanline (filters row) row

def uint32Bytes (value : Nat) : Bytes :=
  [(value / 16777216).toUInt8, (value / 65536).toUInt8, (value / 256).toUInt8, value.toUInt8]

def chunk (type data : Bytes) (crc : UInt32) : Bytes :=
  uint32Bytes data.length ++ type ++ data ++ uint32Bytes crc.toNat

/-- A chunk is ancillary when the bit 32 of its type's first letter is set. -/
structure AncillaryType where
  first : UInt8
  second : UInt8
  third : UInt8
  fourth : UInt8
  ancillary : first &&& 32 ≠ 0

def AncillaryType.bytes (type : AncillaryType) : Bytes :=
  [type.first, type.second, type.third, type.fourth]

inductive BodyChunk where
  | idat (data : Bytes) (crc : UInt32)
  | ancillary (type : AncillaryType) (data : Bytes) (crc : UInt32)

namespace BodyChunk

def bytes : BodyChunk → Bytes
  | idat data crc => chunk [73, 68, 65, 84] data crc
  | ancillary type data crc => chunk type.bytes data crc

def idatData : BodyChunk → Option Bytes
  | idat data _ => some data
  | ancillary .. => none

end BodyChunk

structure Encoding where
  filters : Nat → Filter
  headerCrc : UInt32
  body : List BodyChunk
  endCrc : UInt32
  hasData : body.filterMap BodyChunk.idatData ≠ []

def Encoding.compressed (encoding : Encoding) : Bytes :=
  (encoding.body.filterMap BodyChunk.idatData).flatten

def ColorType.number : ColorType → UInt8
  | .rgb => 2
  | .rgba => 6

def Image.headerData (image : Image) : Bytes :=
  uint32Bytes image.width ++ uint32Bytes image.height ++
    [8, ColorType.number image.colorType, 0, 0, 0]

def Image.opening (image : Image) (headerCrc : UInt32) : Bytes :=
  pngSignature ++ chunk [73, 72, 68, 82] image.headerData headerCrc

def Image.file (image : Image) (encoding : Encoding) : Bytes :=
  image.opening encoding.headerCrc ++ encoding.body.flatMap BodyChunk.bytes ++
    chunk [73, 69, 78, 68] [] encoding.endCrc

section Rows

variable (image : Image)

theorem flatMap_length {bytes : Pixel → Bytes} {size : Nat}
    (hsize : ∀ pixel, (bytes pixel).length = size) (pixels : List Pixel) :
    (pixels.flatMap bytes).length = pixels.length * size := by
  rw [List.length_flatMap, List.map_congr_left fun pixel _ => hsize pixel, List.map_const',
    List.sum_replicate_nat]

theorem pixelBytes_length (pixel : Pixel) : pixel.bytes.length = 4 := rfl

theorem samples_length (pixel : Pixel) (colorType : ColorType) :
    (pixel.samples colorType).length = colorType.bytesPerPixel := by
  cases colorType <;> rfl

theorem raw_length : image.raw.length = image.rowBytes * image.height := by
  rw [Image.raw, flatMap_length (fun pixel => samples_length pixel image.colorType),
    image.pixels_length, Image.rowBytes, Nat.mul_right_comm]

theorem argmin_three (value : α → Nat) (first second third : α) :
    [first, second, third].argmin value =
      some (if value first ≤ value second ∧ value first ≤ value third then first
        else if value second ≤ value third then second else third) := by
  rw [List.argmin_cons, List.argmin_cons, List.argmin_singleton]
  dsimp only [Option.elim]
  by_cases hlast : value third < value second
  · rw [if_pos hlast, if_neg (Nat.not_le.mpr hlast)]
    dsimp only
    by_cases hfirst : value third < value first
    · rw [if_pos hfirst, if_neg fun h => Nat.not_le.mpr hfirst h.2]
    · rw [if_neg hfirst, if_pos ⟨by omega, by omega⟩]
  · rw [if_neg hlast, if_pos (Nat.le_of_not_lt hlast)]
    dsimp only
    by_cases hfirst : value second < value first
    · rw [if_pos hfirst, if_neg fun h => Nat.not_le.mpr hfirst h.1]
    · rw [if_neg hfirst, if_pos ⟨by omega, by omega⟩]

theorem paethPredictor_toUInt8 (left up upperLeft : UInt8) :
    (paethPredictor left.toNat up.toNat upperLeft.toNat).toUInt8 =
      Filter.nearest left up upperLeft := by
  rw [paethPredictor, Filter.nearest, argmin_three, Option.getD_some]
  split_ifs <;> exact UInt8.ofNat_toNat

theorem bytesPerPixel_pos (colorType : ColorType) : 0 < colorType.bytesPerPixel := by
  cases colorType <;> decide

theorem predictor_toUInt8 (filter : Filter) (left up upperLeft : UInt8) :
    (predictor filter.number left.toNat up.toNat upperLeft.toNat).toUInt8 =
      filter.predict left up upperLeft := by
  cases filter with
  | none => rfl
  | sub => exact UInt8.ofNat_toNat
  | up => exact UInt8.ofNat_toNat
  | average => rfl
  | paeth => exact paethPredictor_toUInt8 left up upperLeft

theorem scanline_length (filter : Filter) (row : Nat) :
    (image.scanline filter row).length = image.rowBytes + 1 := by
  rw [Image.scanline, List.length_cons, List.length_map, List.length_range]

theorem scanlines_length (filters : Nat → Filter) :
    (image.scanlines filters).length = (image.rowBytes + 1) * image.height := by
  rw [Image.scanlines, length_flatMap_range fun row _ => scanline_length image _ row,
    Nat.mul_comm]

theorem byteAt_of_filledTo {values done : Bytes} {count index : Nat}
    (h : FilledTo values count done) (hindex : index < count) :
    byteAt done index = byteAt values index := by
  rw [byteAt, byteAt, h.agrees index hindex]

variable {image}

theorem getElem?_raw {row column : Nat} (hrow : row < image.height)
    (hcolumn : column < image.rowBytes) :
    image.raw[row * image.rowBytes + column]? = some (image.sample row column) := by
  have hinside : row * image.rowBytes + column < image.raw.length := calc
    row * image.rowBytes + column < row * image.rowBytes + image.rowBytes :=
      Nat.add_lt_add_left hcolumn _
    _ = image.rowBytes * (row + 1) := by rw [Nat.mul_succ, Nat.mul_comm]
    _ ≤ image.rowBytes * image.height := Nat.mul_le_mul_left _ hrow
    _ = image.raw.length := (raw_length image).symm
  rw [Image.sample, byteAt, List.getElem?_eq_getElem hinside, Option.getD_some]

theorem getElem?_scanlines {filters : Nat → Filter} {row column : Nat} (hrow : row < image.height)
    (hcolumn : column < image.rowBytes) :
    (image.scanlines filters)[row * (image.rowBytes + 1) + 1 + column]? =
      some (image.filtered (filters row) row column) := by
  rw [Nat.add_assoc, Nat.add_comm 1 column, Image.scanlines,
    getElem?_flatMap_range (fun row _ => scanline_length image _ row) hrow
      (Nat.succ_lt_succ hcolumn), Image.scanline, List.getElem?_cons_succ, List.getElem?_map,
    List.getElem?_range hcolumn]
  rfl

theorem filtered_restored (filter : Filter) (row column : Nat) :
    ((image.filtered filter row column).toNat +
      predictor filter.number (image.left row column).toNat (image.up row column).toNat
        (image.upperLeft row column).toNat).toUInt8 = image.sample row column := by
  rw [Nat.toUInt8, UInt8.ofNat_add, UInt8.ofNat_toNat, ← Nat.toUInt8, predictor_toUInt8]
  exact UInt8.sub_add_cancel _ _

section Neighbours

variable {row column : Nat} {done : Bytes}

theorem left_of_filledTo (h : FilledTo image.raw (row * image.rowBytes + column) done) :
    (if image.header.colorType.bytesPerPixel ≤ column then
      byteAt done (row * image.rowBytes + column - image.header.colorType.bytesPerPixel)
      else 0) = image.left row column := by
  have hpos := bytesPerPixel_pos image.colorType
  rw [Image.left, Image.header]
  dsimp only
  by_cases hinside : image.colorType.bytesPerPixel ≤ column
  · rw [if_pos hinside, if_neg (Nat.not_lt.mpr hinside), byteAt_of_filledTo h (by omega),
      Image.sample, Nat.add_sub_assoc hinside]
  · rw [if_neg hinside, if_pos (Nat.lt_of_not_le hinside)]

theorem byteAt_above {above index : Nat}
    (h : FilledTo image.raw ((above + 1) * image.rowBytes + column) done)
    (hindex : index < image.rowBytes) :
    byteAt done ((above + 1) * image.rowBytes - image.rowBytes + index) =
      image.sample above index := by
  rw [Nat.succ_mul] at h
  rw [Nat.succ_mul, Nat.add_sub_cancel, byteAt_of_filledTo h (by omega), Image.sample]

theorem up_of_filledTo (h : FilledTo image.raw (row * image.rowBytes + column) done)
    (hcolumn : column < image.rowBytes) :
    (if 0 < row then byteAt done (row * image.rowBytes - image.rowBytes + column) else 0) =
      image.up row column := by
  cases row with
  | zero => rfl
  | succ row => rw [if_pos (Nat.succ_pos row), byteAt_above h hcolumn, Image.up]

theorem upperLeft_of_filledTo (h : FilledTo image.raw (row * image.rowBytes + column) done)
    (hcolumn : column < image.rowBytes) :
    (if 0 < row ∧ image.header.colorType.bytesPerPixel ≤ column then
      byteAt done (row * image.rowBytes - image.rowBytes + column -
        image.header.colorType.bytesPerPixel)
      else 0) = image.upperLeft row column := by
  cases row with
  | zero => rfl
  | succ row =>
    rw [Image.upperLeft, Image.left, Image.header]
    dsimp only
    by_cases hinside : image.colorType.bytesPerPixel ≤ column
    · rw [if_pos ⟨Nat.succ_pos row, hinside⟩, if_neg (Nat.not_lt.mpr hinside),
        Nat.add_sub_assoc hinside, byteAt_above h (Nat.lt_of_le_of_lt (Nat.sub_le _ _) hcolumn)]
    · rw [if_neg fun h => hinside h.2, if_pos (Nat.lt_of_not_le hinside)]

end Neighbours

theorem reconstructByte_scanlines {filters : Nat → Filter} {row column : Nat} {done : Bytes}
    (hrow : row < image.height) (hcolumn : column < image.rowBytes)
    (h : FilledTo image.raw (row * image.rowBytes + column) done) :
    ∃ later, reconstructByte (image.scanlines filters) image.header image.rowBytes row
        (row * (image.rowBytes + 1) + 1) (filters row).number done column = .ok later ∧
      FilledTo image.raw (row * image.rowBytes + (column + 1)) later := by
  rw [reconstructByte, getElem?_scanlines hrow hcolumn]
  dsimp only
  rw [left_of_filledTo h, up_of_filledTo h hcolumn, upperLeft_of_filledTo h hcolumn,
    filtered_restored]
  exact ⟨_, rfl, h.set (getElem?_raw hrow hcolumn)⟩

theorem number_le (filter : Filter) : ¬ 4 < filter.number := by
  cases filter <;> decide

theorem reconstructRow_scanlines {filters : Nat → Filter} {row : Nat} {s : Bytes × Nat}
    (hrow : row < image.height)
    (h : FilledTo image.raw (row * image.rowBytes) s.1 ∧ s.2 = row * (image.rowBytes + 1)) :
    ∃ t, reconstructRow (image.scanlines filters) image.header image.rowBytes s row = .ok t ∧
      FilledTo image.raw ((row + 1) * image.rowBytes) t.1 ∧
        t.2 = (row + 1) * (image.rowBytes + 1) := by
  have hfilter : (image.scanlines filters)[row * (image.rowBytes + 1)]? =
      some (filters row).number :=
    getElem?_flatMap_range (fun row _ => scanline_length image _ row) hrow
      (Nat.succ_pos image.rowBytes)
  obtain ⟨later, hfold, hlater⟩ := foldlM_range_ok
    (P := fun column done => FilledTo image.raw (row * image.rowBytes + column) done)
    (fun _ hcolumn _ hdone => reconstructByte_scanlines hrow hcolumn hdone) h.1
  refine ⟨(later, (row + 1) * (image.rowBytes + 1)), ?_, ?_, rfl⟩
  · rw [reconstructRow, h.2, hfilter]
    dsimp only
    rw [if_neg (number_le _), hfold, Nat.succ_mul, Nat.add_assoc, Nat.add_comm 1]
    rfl
  · rw [Nat.succ_mul]
    exact hlater

/-- The rows are restored, whatever filter each has. -/
theorem reconstructRows_scanlines (filters : Nat → Filter) :
    reconstructRows (image.scanlines filters) image.header image.rowBytes = .ok image.raw := by
  have hstart : (List.replicate (image.rowBytes * image.height) (0 : UInt8)).length =
      image.raw.length := by
    rw [List.length_replicate, raw_length]
  obtain ⟨t, hfold, hfilled, -⟩ := foldlM_range_ok
    (P := fun row s => FilledTo image.raw (row * image.rowBytes) s.1 ∧
      s.2 = row * (image.rowBytes + 1))
    (s := (List.replicate (image.rowBytes * image.height) 0, 0))
    (fun _ hrow _ hs => reconstructRow_scanlines hrow hs)
    ⟨by rw [Nat.zero_mul]; exact FilledTo.start hstart, (Nat.zero_mul _).symm⟩
  rw [Nat.mul_comm, ← raw_length] at hfilled
  rw [reconstructRows, ← hfilled.eq]
  exact congrArg (Except.map Prod.fst) hfold

theorem rgbToRgba_samples {pixels : List Pixel} (halpha : ∀ pixel ∈ pixels, pixel.alpha = 255) :
    rgbToRgba (pixels.flatMap fun pixel => pixel.samples .rgb) = pixels.flatMap Pixel.bytes := by
  induction pixels with
  | nil => rfl
  | cons pixel rest ih =>
    obtain ⟨hpixel, hrest⟩ := List.forall_mem_cons.mp halpha
    rw [List.flatMap_cons, List.flatMap_cons, ← ih hrest, Pixel.bytes, hpixel]
    rfl

theorem toRgba_raw : toRgba image.raw image.header = image.decoded.rgba := by
  rw [toRgba, Image.raw, Image.header, Image.decoded]
  dsimp only
  cases hcolor : image.colorType with
  | rgba => rfl
  | rgb =>
    have hlength : (image.pixels.flatMap Pixel.bytes).length =
        image.width * image.height * 4 := by
      rw [flatMap_length pixelBytes_length, image.pixels_length]
    dsimp only
    rw [rgbToRgba_samples (image.alpha_eq hcolor), ← hlength, List.take_length, Nat.sub_self,
      List.replicate_zero, List.append_nil]

end Rows

section Chunks

theorem byteAt_append (front back : Bytes) (index : Nat) :
    byteAt (front ++ back) (front.length + index) = byteAt back index := by
  rw [byteAt, byteAt, List.getElem?_append_right (Nat.le_add_right _ _), Nat.add_sub_cancel_left]

theorem getUint32_append (front back : Bytes) (offset : Nat) :
    getUint32 (front ++ back) (front.length + offset) = getUint32 back offset := by
  simp only [getUint32, Nat.add_assoc, byteAt_append]

theorem getUint32_uint32Bytes {value : Nat} (hvalue : value < 4294967296) (back : Bytes) :
    getUint32 (uint32Bytes value ++ back) 0 = value := by
  change (((value / 16777216).toUInt8.toNat * 256 + (value / 65536).toUInt8.toNat) * 256 +
    (value / 256).toUInt8.toNat) * 256 + value.toUInt8.toNat = value
  simp only [Nat.toUInt8, UInt8.toNat_ofNat']
  omega

theorem subarray_append (front middle back : Bytes) :
    subarray (front ++ (middle ++ back)) front.length (front.length + middle.length) = middle := by
  rw [subarray, List.drop_left, Nat.add_sub_cancel_left, List.take_left]

theorem uint32Bytes_length (value : Nat) : (uint32Bytes value).length = 4 := rfl

theorem chunk_length {type : Bytes} (htype : type.length = 4) (data : Bytes) (crc : UInt32) :
    (chunk type data crc).length = 12 + data.length := by
  rw [chunk, List.length_append, List.length_append, List.length_append, uint32Bytes_length,
    uint32Bytes_length, htype]
  omega

theorem readChunk_chunk {s : ChunkState} {front type data back : Bytes} {crc : UInt32}
    (hoffset : s.offset = front.length) (hiend : s.sawIend = false) (htype : type.length = 4)
    (hdata : data.length < 4294967296) :
    readChunk (front ++ (chunk type data crc ++ back)) s =
      (s.take (asciiText type) data).map fun next =>
        { next with offset := s.offset + (chunk type data crc).length } := by
  have hlength := chunk_length htype data crc
  have hnumber : getUint32 (front ++ (chunk type data crc ++ back)) s.offset = data.length := by
    rw [hoffset, ← Nat.add_zero front.length, getUint32_append, chunk, List.append_assoc,
      List.append_assoc, List.append_assoc, getUint32_uint32Bytes hdata]
  have hinside : front.length + (12 + data.length) ≤
      (front ++ (chunk type data crc ++ back)).length := by
    rw [List.length_append, List.length_append, hlength]
    omega
  have htypes : subarray (front ++ (chunk type data crc ++ back)) (s.offset + 4) (s.offset + 8) =
      type := by
    have hcut : front ++ (chunk type data crc ++ back) =
        (front ++ uint32Bytes data.length) ++
          (type ++ (data ++ uint32Bytes crc.toNat ++ back)) := by
      simp only [chunk, List.append_assoc]
    have hfirst : s.offset + 4 = (front ++ uint32Bytes data.length).length := by
      rw [hoffset, List.length_append, uint32Bytes_length]
    rw [hcut, hfirst, show s.offset + 8 = (front ++ uint32Bytes data.length).length + type.length by
      rw [← hfirst, htype]]
    exact subarray_append _ _ _
  have hdatas : subarray (front ++ (chunk type data crc ++ back)) (s.offset + 8)
      (s.offset + 8 + data.length) = data := by
    have hcut : front ++ (chunk type data crc ++ back) =
        (front ++ uint32Bytes data.length ++ type) ++
          (data ++ (uint32Bytes crc.toNat ++ back)) := by
      simp only [chunk, List.append_assoc]
    have hfirst : s.offset + 8 = (front ++ uint32Bytes data.length ++ type).length := by
      rw [hoffset, List.length_append, List.length_append, uint32Bytes_length, htype]
    rw [hcut, hfirst]
    exact subarray_append _ _ _
  have hgoes : ¬ (s.sawIend = true ∨
      (front ++ (chunk type data crc ++ back)).length < s.offset + 12) := by
    rw [hiend, hoffset]
    refine not_or.mpr ⟨Bool.false_ne_true, ?_⟩
    omega
  rw [readChunk, if_neg hgoes]
  dsimp only
  rw [hnumber, if_neg (by rw [hoffset]; omega), htypes, hdatas, hlength, Nat.add_assoc]

theorem readChunks_next {bytes : Bytes} {s t : ChunkState} (h : readChunk bytes s = .ok t) :
    readChunks bytes s = readChunks bytes t := by
  obtain ⟨hlt, hle⟩ := readChunk_offset h
  rw [readChunks, if_pos (by omega)]
  split
  · rename_i next hnext
    rw [h] at hnext
    rw [Except.ok.inj hnext]
  · rename_i error herror
    rw [h] at herror
    cases herror

theorem bodyChunk_length (chunk : BodyChunk) :
    12 + (chunk.idatData.getD []).length ≤ chunk.bytes.length := by
  cases chunk with
  | idat data crc => exact Nat.le_of_eq (chunk_length rfl data crc).symm
  | ancillary type data crc =>
    rw [BodyChunk.bytes, chunk_length rfl, BodyChunk.idatData]
    exact Nat.le_add_right _ _

theorem filterMap_idat (data : Bytes) (crc : UInt32) (body : List BodyChunk) :
    (BodyChunk.idat data crc :: body).filterMap BodyChunk.idatData =
      data :: body.filterMap BodyChunk.idatData := rfl

theorem filterMap_ancillary (type : AncillaryType) (data : Bytes) (crc : UInt32)
    (body : List BodyChunk) :
    (BodyChunk.ancillary type data crc :: body).filterMap BodyChunk.idatData =
      body.filterMap BodyChunk.idatData := rfl

theorem idatData_length_le (chunk : BodyChunk) :
    ([chunk].filterMap BodyChunk.idatData).flatten.length ≤
      ([chunk].flatMap BodyChunk.bytes).length := by
  have hlength := bodyChunk_length chunk
  rw [List.flatMap_singleton]
  cases chunk with
  | idat data crc =>
    rw [filterMap_idat, List.filterMap_nil, List.flatten_singleton]
    exact (Nat.le_add_left _ 12).trans hlength
  | ancillary type data crc => exact Nat.zero_le _

theorem asciiText_ancillary (type : AncillaryType) :
    asciiText type.bytes ≠ "IHDR" ∧ asciiText type.bytes ≠ "IDAT" ∧
      asciiText type.bytes ≠ "IEND" := by
  have hfirst : ∀ byte < 256, byte.toUInt8 &&& 32 ≠ 0 →
      Char.ofNat (byte.toUInt8.toNat % 128) ≠ 'I' := by
    decide +kernel
  have hletter := hfirst type.first.toNat type.first.toNat_lt
  rw [Nat.toUInt8, UInt8.ofNat_toNat] at hletter
  have hne : ∀ rest, asciiText type.bytes ≠ String.ofList ('I' :: rest) := by
    intro rest heq
    exact hletter type.ancillary (List.cons.inj (String.ofList_inj.mp heq)).1
  exact ⟨hne ['H', 'D', 'R'], hne ['D', 'A', 'T'], hne ['E', 'N', 'D']⟩

def afterBody (s : ChunkState) (body : List BodyChunk) : ChunkState :=
  { s with
    offset := s.offset + (body.flatMap BodyChunk.bytes).length
    sawIdat := s.sawIdat || !(body.filterMap BodyChunk.idatData).isEmpty
    idatParts := s.idatParts ++ body.filterMap BodyChunk.idatData
    idatBytes := s.idatBytes + (body.filterMap BodyChunk.idatData).flatten.length }

theorem afterBody_nil (s : ChunkState) : afterBody s [] = s := by
  simp [afterBody]

theorem afterBody_cons (s : ChunkState) (chunk : BodyChunk) (body : List BodyChunk) :
    afterBody s (chunk :: body) = afterBody (afterBody s [chunk]) body := by
  cases chunk with
  | idat data crc => simp [afterBody, filterMap_idat, Nat.add_assoc]
  | ancillary type data crc => simp [afterBody, filterMap_ancillary, Nat.add_assoc]

section Body

variable {s : ChunkState} {header : PngHeader} {front back : Bytes}

theorem take_idat (hheader : s.header = some header) {data : Bytes}
    (hlimit : s.idatBytes + data.length ≤ visualArtifactMaxBytes) :
    s.take (asciiText [73, 68, 65, 84]) data =
      .ok { s with
        sawIdat := true
        idatBytes := s.idatBytes + data.length
        idatParts := s.idatParts ++ [data] } := by
  have htype : asciiText [73, 68, 65, 84] = "IDAT" := by decide
  rw [htype, ChunkState.take, if_neg fun h => by rw [hheader] at h; exact absurd h.1 nofun,
    if_neg (by decide), if_pos rfl, if_neg (by rw [hheader]; exact nofun),
    if_neg (Nat.not_lt.mpr hlimit)]

theorem take_ancillary (hheader : s.header = some header) (type : AncillaryType) (data : Bytes) :
    s.take (asciiText type.bytes) data = .ok s := by
  obtain ⟨hihdr, hidat, hiend⟩ := asciiText_ancillary type
  rw [ChunkState.take, if_neg fun h => by rw [hheader] at h; exact absurd h.1 nofun,
    if_neg hihdr, if_neg hidat, if_neg hiend]

theorem readChunk_body (hoffset : s.offset = front.length) (hiend : s.sawIend = false)
    (hheader : s.header = some header) (hbytes : s.idatBytes ≤ s.offset) (chunk : BodyChunk)
    (hlimit : (front ++ (chunk.bytes ++ back)).length ≤ visualArtifactMaxBytes) :
    readChunk (front ++ (chunk.bytes ++ back)) s = .ok (afterBody s [chunk]) := by
  have hlength := bodyChunk_length chunk
  have hmax : visualArtifactMaxBytes < 4294967296 := by decide
  rw [List.length_append, List.length_append] at hlimit
  cases chunk with
  | idat data crc =>
    have hdata : 12 + data.length ≤ (BodyChunk.idat data crc).bytes.length := hlength
    rw [BodyChunk.bytes, readChunk_chunk hoffset hiend rfl (by omega),
      take_idat hheader (by omega)]
    simp [afterBody, filterMap_idat, BodyChunk.bytes, Except.map]
  | ancillary type data crc =>
    have hdata : (BodyChunk.ancillary type data crc).bytes.length = 12 + data.length :=
      chunk_length rfl data crc
    rw [BodyChunk.bytes, readChunk_chunk hoffset hiend rfl (by omega),
      take_ancillary hheader]
    simp [afterBody, filterMap_ancillary, BodyChunk.bytes, Except.map]

theorem readChunks_body (hoffset : s.offset = front.length) (hiend : s.sawIend = false)
    (hheader : s.header = some header) (hbytes : s.idatBytes ≤ s.offset) (body : List BodyChunk)
    (hlimit : (front ++ (body.flatMap BodyChunk.bytes ++ back)).length ≤
      visualArtifactMaxBytes) :
    readChunks (front ++ (body.flatMap BodyChunk.bytes ++ back)) s =
      readChunks (front ++ (body.flatMap BodyChunk.bytes ++ back)) (afterBody s body) := by
  induction body generalizing s front with
  | nil => rw [afterBody_nil]
  | cons chunk rest ih =>
    rw [List.flatMap_cons, List.append_assoc] at hlimit ⊢
    have hstep := readChunk_body hoffset hiend hheader hbytes chunk hlimit
    have hoffset' : (afterBody s [chunk]).offset = (front ++ chunk.bytes).length := by
      rw [afterBody, hoffset, List.length_append, List.flatMap_singleton]
    have hbytes' : (afterBody s [chunk]).idatBytes ≤ (afterBody s [chunk]).offset :=
      Nat.add_le_add hbytes (idatData_length_le chunk)
    rw [readChunks_next hstep, afterBody_cons s chunk rest]
    rw [← List.append_assoc] at hlimit ⊢
    exact ih hoffset' hiend hheader hbytes' hlimit

theorem readChunk_iend (hoffset : s.offset = front.length) (hiend : s.sawIend = false)
    (hheader : s.header = some header) (hidat : s.sawIdat = true) (crc : UInt32) :
    readChunk (front ++ chunk [73, 69, 78, 68] [] crc) s =
      .ok { s with sawIend := true, offset := s.offset + 12 } := by
  have htype : asciiText [73, 69, 78, 68] = "IEND" := by decide
  have htake : s.take "IEND" [] = .ok { s with sawIend := true } := by
    rw [ChunkState.take, if_neg fun h => by rw [hheader] at h; exact absurd h.1 nofun,
      if_neg (by decide), if_neg (by decide), if_pos rfl, if_neg]
    rw [hheader, hidat]
    exact not_or.mpr ⟨fun h => h rfl, not_or.mpr ⟨nofun, nofun⟩⟩
  rw [← List.append_nil (chunk _ _ _), readChunk_chunk hoffset hiend rfl (by decide), htype, htake]
  rfl

end Body

section Header

variable {image : Image}

theorem parseHeader_headerData (hpixels : image.width * image.height ≤ visualMaxPixels) :
    parseHeader image.headerData = .ok image.header := by
  have hmax : visualMaxPixels < 4294967296 := by decide
  have hwidth : image.width < 4294967296 :=
    ((Nat.le_mul_of_pos_right _ image.height_pos).trans hpixels).trans_lt hmax
  have hheight : image.height < 4294967296 :=
    ((Nat.le_mul_of_pos_left _ image.width_pos).trans hpixels).trans_lt hmax
  have hfirst : getUint32 image.headerData 0 = image.width := by
    rw [Image.headerData, List.append_assoc, getUint32_uint32Bytes hwidth]
  have hsecond : getUint32 image.headerData 4 = image.height := by
    rw [Image.headerData, List.append_assoc]
    exact (getUint32_append (uint32Bytes image.width) _ 0).trans (getUint32_uint32Bytes hheight _)
  have hpos : ¬ (image.width = 0 ∨ image.height = 0) :=
    not_or.mpr ⟨image.width_pos.ne', image.height_pos.ne'⟩
  have hrest : byteAt image.headerData 8 = 8 ∧
      byteAt image.headerData 9 = ColorType.number image.colorType ∧
      byteAt image.headerData 10 = 0 ∧ byteAt image.headerData 11 = 0 ∧
      byteAt image.headerData 12 = 0 := ⟨rfl, rfl, rfl, rfl, rfl⟩
  obtain ⟨hdepth, hcolor, hcompression, hfilter, hinterlace⟩ := hrest
  rw [parseHeader, if_neg (fun h => h rfl)]
  dsimp only
  rw [hfirst, hsecond, hdepth, hcolor, hcompression, hfilter, hinterlace, if_neg hpos,
    if_neg (Nat.not_lt.mpr hpixels), Image.header]
  cases image.colorType <;> rfl

def opened (image : Image) : ChunkState :=
  { ChunkState.start with header := some image.header, offset := 33 }

theorem readChunk_ihdr (hpixels : image.width * image.height ≤ visualMaxPixels) (crc : UInt32)
    (back : Bytes) :
    readChunk (pngSignature ++ (chunk [73, 72, 68, 82] image.headerData crc ++ back))
        ChunkState.start = .ok (opened image) := by
  have htype : asciiText [73, 72, 68, 82] = "IHDR" := by decide
  have htake : ChunkState.start.take "IHDR" image.headerData =
      .ok { ChunkState.start with header := some image.header } := by
    rw [ChunkState.take, if_neg (by decide), if_pos rfl, if_neg (by decide),
      parseHeader_headerData hpixels]
    rfl
  rw [readChunk_chunk rfl rfl rfl (show image.headerData.length < 4294967296 by
    exact (by decide : 13 < 4294967296)), htype, htake]
  rfl

end Header

end Chunks

theorem readChunks_file {image : Image} (hpixels : image.width * image.height ≤ visualMaxPixels)
    (encoding : Encoding) (hlimit : (image.file encoding).length ≤ visualArtifactMaxBytes) :
    ∃ s, readChunks (image.file encoding) ChunkState.start = .ok s ∧
      s.header = some image.header ∧ s.sawIdat = true ∧ s.sawIend = true ∧
      s.offset = (image.file encoding).length ∧
      s.idatParts.flatten = encoding.compressed := by
  have hfile : image.file encoding = image.opening encoding.headerCrc ++
      (encoding.body.flatMap BodyChunk.bytes ++ chunk [73, 69, 78, 68] [] encoding.endCrc) :=
    List.append_assoc _ _ _
  have hfirst : readChunks (image.file encoding) ChunkState.start =
      readChunks (image.file encoding) (opened image) := by
    refine readChunks_next ?_
    rw [hfile, Image.opening, List.append_assoc]
    exact readChunk_ihdr hpixels _ _
  have hbody : readChunks (image.file encoding) (opened image) =
      readChunks (image.file encoding) (afterBody (opened image) encoding.body) := by
    rw [hfile] at hlimit ⊢
    exact readChunks_body rfl rfl rfl (Nat.zero_le _) encoding.body hlimit
  have hidat : (afterBody (opened image) encoding.body).sawIdat = true := by
    change (false || !(encoding.body.filterMap BodyChunk.idatData).isEmpty) = true
    rw [Bool.false_or, Bool.not_eq_true', List.isEmpty_eq_false_iff]
    exact encoding.hasData
  have hoffset : (afterBody (opened image) encoding.body).offset =
      (image.opening encoding.headerCrc ++ encoding.body.flatMap BodyChunk.bytes).length := by
    rw [List.length_append]
    rfl
  have hlength : (image.file encoding).length =
      (afterBody (opened image) encoding.body).offset + 12 := by
    rw [hoffset, hfile, ← List.append_assoc, List.length_append]
    rfl
  have hlast := readChunk_iend hoffset rfl rfl hidat encoding.endCrc
  rw [List.append_assoc, ← hfile, ← hlength] at hlast
  refine ⟨{ afterBody (opened image) encoding.body with
      sawIend := true, offset := (image.file encoding).length }, ?_, rfl, hidat, rfl, rfl, rfl⟩
  rw [hfirst, hbody, readChunks_next hlast, readChunks, if_neg (Nat.lt_irrefl _)]

theorem decodePixels_scanlines {inflateSync : Bytes → Nat → Option Bytes} {image : Image}
    {filters : Nat → Filter} {compressed : Bytes}
    (hinflate : inflateSync compressed ((image.rowBytes + 1) * image.height) =
      some (image.scanlines filters)) :
    decodePixels inflateSync image.header compressed = .ok image.decoded := by
  have hsize : ¬ (image.scanlines filters).length ≠ (image.rowBytes + 1) * image.height :=
    fun h => h (scanlines_length image _)
  dsimp only [decodePixels]
  split
  · rename_i hnone
    cases hnone.symm.trans hinflate
  · rename_i inflated hsome
    obtain rfl := Option.some.inj (hsome.symm.trans hinflate)
    refine (if_neg hsize).trans ?_
    change (reconstructRows _ image.header image.rowBytes).map _ = _
    rw [reconstructRows_scanlines, Except.map, toRgba_raw]
    rfl

theorem decodeVisualPng_file {inflateSync : Bytes → Nat → Option Bytes} {image : Image}
    {encoding : Encoding} (hpixels : image.width * image.height ≤ visualMaxPixels)
    (hlimit : (image.file encoding).length ≤ visualArtifactMaxBytes)
    (hinflate : inflateSync encoding.compressed ((image.rowBytes + 1) * image.height) =
      some (image.scanlines encoding.filters)) :
    decodeVisualPng inflateSync (image.file encoding) = .ok image.decoded := by
  obtain ⟨s, hread, hheader, hidat, hiend, hoffset, hparts⟩ :=
    readChunks_file hpixels encoding hlimit
  have hsignature : pngSignature.isPrefixOf (image.file encoding) = true := by
    rw [Image.file, Image.opening, List.append_assoc, List.append_assoc]
    exact List.isPrefixOf_iff_prefix.mpr (List.prefix_append _ _)
  have hcomplete : ¬ (s.sawIdat = false ∨ s.sawIend = false ∨
      s.offset ≠ (image.file encoding).length) := by
    rw [hidat, hiend, hoffset]
    exact not_or.mpr ⟨nofun, not_or.mpr ⟨nofun, fun h => h rfl⟩⟩
  rw [decodeVisualPng, if_neg (Nat.not_lt.mpr hlimit), if_neg (by rw [hsignature]; decide)]
  refine bind_eq_ok_iff.mpr ⟨s, hread, ?_⟩
  rw [hheader]
  dsimp only
  rw [if_neg hcomplete, hparts, decodePixels_scanlines hinflate]

end KodeGpt.PngImages
