import Mathlib.Algebra.BigOperators.Group.Finset.Piecewise
import Mathlib.Algebra.BigOperators.Group.Finset.Sigma
import Mathlib.Data.Nat.Count
import Mathlib.Tactic.IntervalCases
import KodeGpt.PngImages

/-!
What the reader of PNG files gives back, up to its bound on the size of a file, and what the
comparison of two images counts.
-/

namespace KodeGpt.DecodedImages

open VisualPng PngImages
open JsonText (Bytes)

def pixelAt (image : DecodedVisualPng) (x y : Nat) : Option Bytes :=
  if x < image.width ∧ y < image.height then
    some ((image.rgba.drop ((y * image.width + x) * 4)).take 4)
  else none

def changedPositions (current reference : DecodedVisualPng) : Finset (Nat × Nat) :=
  (Finset.range (max current.width reference.width) ×ˢ
    Finset.range (max current.height reference.height)).filter fun position =>
      pixelAt current position.1 position.2 = none ∨
        pixelAt reference position.1 position.2 = none ∨
          pixelAt current position.1 position.2 ≠ pixelAt reference position.1 position.2

def comparison (current reference : DecodedVisualPng) : VisualPixelComparison where
  currentDimensions := ⟨current.width, current.height⟩
  referenceDimensions := ⟨reference.width, reference.height⟩
  dimensionsMatch := current.width = reference.width && current.height = reference.height
  changedPixels := (changedPositions current reference).card
  totalPixels := max current.width reference.width * max current.height reference.height
  changedPixelRatio := (changedPositions current reference).card /
    (max current.width reference.width * max current.height reference.height : Nat)

theorem take_four_eq_iff (first second : Bytes) (i j : Nat) :
    (first.drop i).take 4 = (second.drop j).take 4 ↔
      first[i]? = second[j]? ∧ first[i + 1]? = second[j + 1]? ∧
        first[i + 2]? = second[j + 2]? ∧ first[i + 3]? = second[j + 3]? := by
  constructor
  · intro heq
    have hat : ∀ k < 4, first[i + k]? = second[j + k]? := by
      intro k hk
      have hget := congrArg (fun bytes => bytes[k]?) heq
      simpa only [List.getElem?_take_of_lt hk, List.getElem?_drop] using hget
    exact ⟨hat 0 (by decide), hat 1 (by decide), hat 2 (by decide), hat 3 (by decide)⟩
  · rintro ⟨hzero, hone, htwo, hthree⟩
    refine List.ext_getElem? fun k => ?_
    rw [List.getElem?_take, List.getElem?_take, List.getElem?_drop, List.getElem?_drop]
    split_ifs with hk
    · interval_cases k
      · exact hzero
      · exact hone
      · exact htwo
      · exact hthree
    · rfl

theorem pixelOffset_inside {image : DecodedVisualPng} {x y : Nat}
    (h : x < image.width ∧ y < image.height) :
    pixelOffset image x y = some ((y * image.width + x) * 4) :=
  if_neg fun houtside => houtside.elim (Nat.not_le.mpr h.1) (Nat.not_le.mpr h.2)

theorem pixelOffset_outside {image : DecodedVisualPng} {x y : Nat}
    (h : ¬ (x < image.width ∧ y < image.height)) : pixelOffset image x y = none := by
  rw [not_and_or, Nat.not_lt, Nat.not_lt] at h
  exact if_pos h

theorem pixelChanged_iff (current reference : DecodedVisualPng) (x y : Nat) :
    pixelChanged current reference x y = true ↔
      pixelAt current x y = none ∨ pixelAt reference x y = none ∨
        pixelAt current x y ≠ pixelAt reference x y := by
  by_cases hcurrent : x < current.width ∧ y < current.height
  · by_cases hreference : x < reference.width ∧ y < reference.height
    · rw [pixelChanged, pixelOffset_inside hcurrent, pixelOffset_inside hreference, pixelAt,
        pixelAt, if_pos hcurrent, if_pos hreference]
      simp only [reduceCtorEq, false_or, ne_eq, Option.some.injEq, take_four_eq_iff,
        Bool.or_eq_true, bne_iff_ne, not_and_or, or_assoc]
    · rw [pixelChanged, pixelOffset_inside hcurrent, pixelOffset_outside hreference]
      exact iff_of_true rfl (Or.inr (Or.inl (if_neg hreference)))
  · rw [pixelChanged, pixelOffset_outside hcurrent]
    exact iff_of_true rfl (Or.inl (if_neg hcurrent))

section Counting

theorem foldl_count (chosen : Nat → Bool) (count start : Nat) :
    (List.range count).foldl (fun total index => if chosen index then total + 1 else total) start =
      start + Nat.count (fun index => chosen index = true) count := by
  induction count with
  | zero => rfl
  | succ count ih =>
    rw [List.range_succ, List.foldl_append, ih, Nat.count_succ, List.foldl_cons, List.foldl_nil]
    split_ifs <;> rfl

theorem foldl_add (value : Nat → Nat) (count start : Nat) :
    (List.range count).foldl (fun total index => total + value index) start =
      start + ∑ index ∈ Finset.range count, value index := by
  induction count with
  | zero => rfl
  | succ count ih =>
    rw [List.range_succ, List.foldl_append, ih, Finset.sum_range_succ, ← Nat.add_assoc]
    rfl

theorem foldl_rectangle (chosen : Nat → Nat → Bool) (width height : Nat) :
    (List.range height).foldl (fun total y => (List.range width).foldl
      (fun total x => if chosen x y then total + 1 else total) total) 0 =
      ((Finset.range width ×ˢ Finset.range height).filter fun position =>
        chosen position.1 position.2 = true).card := by
  simp only [foldl_count]
  rw [foldl_add, Nat.zero_add, Finset.card_filter, Finset.sum_product_right]
  refine Finset.sum_congr rfl fun y _ => ?_
  rw [Nat.count_eq_card_filter_range, Finset.card_filter]

end Counting

theorem compareVisualPixels_eq (current reference : DecodedVisualPng) :
    compareVisualPixels current reference =
      if visualMaxPixels < max current.width reference.width *
          max current.height reference.height then
        .error ⟨.visualArtifactTooLarge,
          "visual comparison union exceeds the bounded pixel limit"⟩
      else .ok (comparison current reference) := by
  have hcount : (List.range (max current.height reference.height)).foldl
      (fun total y => (List.range (max current.width reference.width)).foldl
        (fun total x => if pixelChanged current reference x y then total + 1 else total) total) 0 =
      (changedPositions current reference).card := by
    rw [foldl_rectangle, changedPositions]
    simp only [pixelChanged_iff]
  rw [compareVisualPixels]
  dsimp only
  rw [hcount]
  rfl

/-- A file of an image is decoded to it, unless it is longer than the reader allows. Of any two
images the comparison counts the changed positions, unless their union is too large. -/
theorem decodeVisualPng_inverts {inflateSync : Bytes → Nat → Option Bytes} {image : Image}
    {encoding : Encoding} (hpixels : image.width * image.height ≤ visualMaxPixels)
    (hinflate : inflateSync encoding.compressed ((image.rowBytes + 1) * image.height) =
      some (image.scanlines encoding.filters)) (current reference : DecodedVisualPng) :
    decodeVisualPng inflateSync (image.file encoding) =
        (if visualArtifactMaxBytes < (image.file encoding).length then
          .error ⟨.visualArtifactTooLarge,
            "visual PNG exceeds the bounded encoded artifact limit"⟩
        else .ok image.decoded) ∧
      compareVisualPixels current reference =
        if visualMaxPixels < max current.width reference.width *
            max current.height reference.height then
          .error ⟨.visualArtifactTooLarge,
            "visual comparison union exceeds the bounded pixel limit"⟩
        else .ok (comparison current reference) := by
  refine ⟨?_, compareVisualPixels_eq current reference⟩
  by_cases hlimit : visualArtifactMaxBytes < (image.file encoding).length
  · rw [if_pos hlimit, decodeVisualPng, if_pos hlimit]
  · rw [if_neg hlimit, decodeVisualPng_file hpixels (Nat.le_of_not_lt hlimit) hinflate]

def inflateStored : Bytes → Nat → Option Bytes
  | 120 :: 1 :: 1 :: low :: high :: _ :: _ :: rest, maxOutputLength =>
    let size := high.toNat * 256 + low.toNat
    if maxOutputLength < size then none else some (rest.take size)
  | _, _ => none

def somePixel : Image where
  width := 1
  height := 1
  colorType := .rgb
  pixels := [⟨1, 2, 3, 255⟩]
  width_pos := by decide
  height_pos := by decide
  pixels_length := rfl
  alpha_eq := fun _ => by simp

def textType : AncillaryType := ⟨116, 69, 88, 116, by decide⟩

def someEncoding (ancillary : Bytes) : Encoding where
  filters := fun _ => .paeth
  headerCrc := 2423739358
  body := [.idat [120, 1, 1, 4, 0, 251, 255] 0, .ancillary textType ancillary 0,
    .idat [4, 1, 2, 3, 0, 30, 0, 11] 0]
  endCrc := 2923585666
  hasData := nofun

theorem inflateStored_someEncoding (ancillary : Bytes) :
    inflateStored (someEncoding ancillary).compressed
        ((somePixel.rowBytes + 1) * somePixel.height) =
      some (somePixel.scanlines (someEncoding ancillary).filters) := by
  have hstored : inflateStored [120, 1, 1, 4, 0, 251, 255, 4, 1, 2, 3, 0, 30, 0, 11] 4 =
      some (somePixel.scanlines fun _ => .paeth) := by
    decide
  exact hstored

theorem length_lt_file (ancillary : Bytes) :
    ancillary.length < (somePixel.file (someEncoding ancillary)).length := by
  have hbody : (someEncoding ancillary).body.flatMap BodyChunk.bytes =
      chunk [73, 68, 65, 84] [120, 1, 1, 4, 0, 251, 255] 0 ++
        (chunk textType.bytes ancillary 0 ++
          chunk [73, 68, 65, 84] [4, 1, 2, 3, 0, 30, 0, 11] 0) := rfl
  rw [Image.file, hbody, List.length_append, List.length_append, List.length_append,
    List.length_append, chunk_length rfl ancillary]
  omega

theorem somePixel_decoded :
    decodeVisualPng inflateStored (somePixel.file (someEncoding [])) = .ok somePixel.decoded ∧
      compareVisualPixels somePixel.decoded ⟨2, 1, [1, 2, 3, 255, 0, 0, 0, 0]⟩ =
        .ok (comparison somePixel.decoded ⟨2, 1, [1, 2, 3, 255, 0, 0, 0, 0]⟩) := by
  have hboth := decodeVisualPng_inverts (by decide) (inflateStored_someEncoding [])
    somePixel.decoded ⟨2, 1, [1, 2, 3, 255, 0, 0, 0, 0]⟩
  exact ⟨hboth.1.trans (if_neg (by decide)), hboth.2.trans (if_neg (by decide))⟩

/-- A file with a long ancillary chunk is refused. -/
theorem longFile_not_decoded :
    ¬∀ (inflateSync : Bytes → Nat → Option Bytes) (image : Image) (encoding : Encoding),
      image.width * image.height ≤ visualMaxPixels →
      inflateSync encoding.compressed ((image.rowBytes + 1) * image.height) =
        some (image.scanlines encoding.filters) →
      ∀ current reference : DecodedVisualPng,
        decodeVisualPng inflateSync (image.file encoding) = .ok image.decoded ∧
          compareVisualPixels current reference = .ok (comparison current reference) := by
  intro hall
  have hok := (hall inflateStored somePixel
    (someEncoding (List.replicate visualArtifactMaxBytes 0)) (by decide)
    (inflateStored_someEncoding _) somePixel.decoded somePixel.decoded).1
  have hlong : visualArtifactMaxBytes <
      (somePixel.file (someEncoding (List.replicate visualArtifactMaxBytes 0))).length := by
    have hlength := length_lt_file (List.replicate visualArtifactMaxBytes 0)
    rwa [List.length_replicate] at hlength
  rw [decodeVisualPng, if_pos hlong] at hok
  cases hok

end KodeGpt.DecodedImages
