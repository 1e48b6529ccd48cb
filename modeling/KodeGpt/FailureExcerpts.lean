import Mathlib.Data.Bool.AllAny
import KodeGpt.FailureLogs

/-!
Where the excerpt of a failure lies in the text: it begins a number of characters
before a place that was found in a lower-cased copy, and ends after a number of
bytes, so it may end before the marker or begin after it.
-/

namespace KodeGpt.FailureExcerpts

open Bisections CodePoints JsObjects ResponseBudgets FailureLogs
open JsFrames (asciiUnits)
open JsonDocuments (IsHighSurrogate)

theorem indexOf_eq_some_iff {text pattern : JsText} {index : Nat} :
    indexOf text pattern = some index ↔
      index ≤ text.length ∧ pattern <+: text.drop index ∧
        ∀ earlier < index, ¬ pattern <+: text.drop earlier := by
  have htail : ∀ place (hplace : place < text.tails.length),
      text.tails[place] = text.drop place := fun place hplace =>
    List.getElem_tails text place hplace
  rw [indexOf, List.findIdx?_eq_some_iff_getElem]
  constructor
  · rintro ⟨hlt, hfound, hearlier⟩
    rw [htail, List.isPrefixOf_iff_prefix] at hfound
    rw [List.length_tails] at hlt
    refine ⟨by omega, hfound, fun earlier hless hpart => ?_⟩
    refine hearlier earlier hless ?_
    rw [htail, List.isPrefixOf_iff_prefix]
    exact hpart
  · rintro ⟨hle, hfound, hearlier⟩
    have hlt : index < text.tails.length := by
      rw [List.length_tails]
      omega
    refine ⟨hlt, ?_, fun earlier hless hpart => ?_⟩
    · rw [htail, List.isPrefixOf_iff_prefix]
      exact hfound
    · rw [htail, List.isPrefixOf_iff_prefix] at hpart
      exact hearlier earlier hless hpart

def characterOf : List JsText → Nat → Nat
  | [], _ => 0
  | image :: rest, unit =>
    if unit < image.length then 0 else characterOf rest (unit - image.length) + 1

theorem characterOf_lt {images : List JsText} {unit : Nat} (hunit : unit < images.flatten.length) :
    characterOf images unit < images.length := by
  induction images generalizing unit with
  | nil => exact absurd hunit (Nat.not_lt_zero _)
  | cons image rest ih =>
    rw [List.flatten_cons, List.length_append] at hunit
    rw [characterOf, List.length_cons]
    split
    · exact Nat.succ_pos _
    · exact Nat.succ_lt_succ (ih (by omega))

theorem characterOf_eq {images : List JsText} (himages : ∀ image ∈ images, image.length = 1)
    {unit : Nat} (hunit : unit < images.length) : characterOf images unit = unit := by
  induction images generalizing unit with
  | nil => exact absurd hunit (Nat.not_lt_zero _)
  | cons image rest ih =>
    obtain ⟨himage, hrest⟩ := List.forall_mem_cons.mp himages
    rw [List.length_cons] at hunit
    rw [characterOf, himage]
    split
    · omega
    · rw [ih hrest (by omega)]
      omega

/-- The first marker that occurs in the text but for the case of letters, and the place in the
lower-cased copy where it begins for the first time. -/
structure FirstOccurrence (casing : LowerCasing) (text : JsText) (markers : List JsText)
    (marker : JsText) (index : Nat) : Prop where
  isFirst : ∃ front back, markers = front ++ marker :: back ∧ ∀ other ∈ front, ∀ place,
    ¬ casing.toLowerCase other <+: (casing.toLowerCase text).drop place
  found : casing.toLowerCase marker <+: (casing.toLowerCase text).drop index
  inside : index ≤ (casing.toLowerCase text).length
  notBefore : ∀ earlier < index,
    ¬ casing.toLowerCase marker <+: (casing.toLowerCase text).drop earlier

theorem exists_firstOccurrence {casing : LowerCasing} {text : JsText} {markers : List JsText}
    (hoccurs : ∃ marker ∈ markers, ∃ index, index ≤ (casing.toLowerCase text).length ∧
      casing.toLowerCase marker <+: (casing.toLowerCase text).drop index) :
    ∃ marker index, FirstOccurrence casing text markers marker index := by
  induction markers with
  | nil => exact absurd hoccurs (by simp)
  | cons marker rest ih =>
    by_cases hmarker : ∃ index, index ≤ (casing.toLowerCase text).length ∧
        casing.toLowerCase marker <+: (casing.toLowerCase text).drop index
    · obtain ⟨hinside, hfound⟩ := Nat.find_spec hmarker
      refine ⟨marker, Nat.find hmarker, ⟨[], rest, rfl, List.forall_mem_nil _⟩, hfound,
        hinside, fun earlier hearlier hpart => ?_⟩
      exact Nat.find_min hmarker hearlier ⟨by omega, hpart⟩
    · have hrest : ∃ marker ∈ rest, ∃ index, index ≤ (casing.toLowerCase text).length ∧
          casing.toLowerCase marker <+: (casing.toLowerCase text).drop index := by
        obtain ⟨other, hother, hplace⟩ := hoccurs
        obtain rfl | hother := List.mem_cons.mp hother
        · exact absurd hplace hmarker
        · exact ⟨other, hother, hplace⟩
      obtain ⟨first, index, hfirst⟩ := ih hrest
      obtain ⟨front, back, hsplit, hfront⟩ := hfirst.isFirst
      refine ⟨first, index, ⟨marker :: front, back, by rw [hsplit]; rfl, ?_⟩, hfirst.found,
        hfirst.inside, hfirst.notBefore⟩
      refine List.forall_mem_cons.mpr ⟨fun place hpart => hmarker ?_, hfront⟩
      by_cases hplace : place ≤ (casing.toLowerCase text).length
      · exact ⟨place, hplace, hpart⟩
      · refine ⟨(casing.toLowerCase text).length, Nat.le_refl _, ?_⟩
        rwa [List.drop_eq_nil_of_le (by omega), ← List.drop_length] at hpart

theorem indexOf_eq_none {text pattern : JsText} (hnone : ∀ place, ¬ pattern <+: text.drop place) :
    indexOf text pattern = none := by
  cases hindex : indexOf text pattern with
  | none => rfl
  | some index => exact absurd (indexOf_eq_some_iff.mp hindex).2.1 (hnone index)

theorem FirstOccurrence.findSome {casing : LowerCasing} {text : JsText} {markers : List JsText}
    {marker : JsText} {index : Nat} (hfirst : FirstOccurrence casing text markers marker index) :
    (markers.findSome? fun marker =>
      indexOf (casing.toLowerCase text) (casing.toLowerCase marker)) = some index := by
  obtain ⟨front, back, rfl, hfront⟩ := hfirst.isFirst
  have hindex : indexOf (casing.toLowerCase text) (casing.toLowerCase marker) = some index :=
    indexOf_eq_some_iff.mpr ⟨hfirst.inside, hfirst.found, hfirst.notBefore⟩
  have hnone : front.findSome? (fun marker =>
      indexOf (casing.toLowerCase text) (casing.toLowerCase marker)) = none :=
    List.findSome?_eq_none_iff.mpr fun other hother => indexOf_eq_none (hfront other hother)
  rw [List.findSome?_append, hnone, Option.none_or, List.findSome?_cons, hindex]

def pieceOf (text : JsText) (start count : Nat) : JsText :=
  (((codePoints text).drop start).take count).flatten

theorem utf8Prefix_drop (text : JsText) (start maxBytes : Nat) :
    ∃ count, utf8Prefix ((codePoints text).drop start).flatten maxBytes = pieceOf text start count ∧
      IsLargest (fun count => utf8Length (pieceOf text start count) ≤ maxBytes)
        ((codePoints text).length - start) count := by
  have hpoints : codePoints ((codePoints text).drop start).flatten = (codePoints text).drop start :=
    drop_areCodePoints text start
  obtain ⟨count, hpart, hlargest⟩ := utf8Prefix_isLargest ((codePoints text).drop start).flatten
    maxBytes
  rw [hpoints] at hpart hlargest
  rw [List.length_drop] at hlargest
  exact ⟨count, hpart, hlargest⟩

theorem codePoints_pieceOf (text : JsText) (start count : Nat) :
    codePoints (pieceOf text start count) = ((codePoints text).drop start).take count :=
  AreCodePoints.take (drop_areCodePoints text start) count

/-- Whatever is found, the excerpt is a piece of the text within the limit. -/
theorem extractFailureExcerpt_piece (casing : LowerCasing) (text : JsText)
    (markers : List JsText) :
    ∃ start count, extractFailureExcerpt casing text markers = pieceOf text start count ∧
      utf8Length (extractFailureExcerpt casing text markers) ≤ ciLogExcerptDefaultBytes := by
  have hpart : ∀ start, ∃ count,
      utf8Prefix ((codePoints text).drop start).flatten ciLogExcerptDefaultBytes =
        pieceOf text start count ∧
      utf8Length (utf8Prefix ((codePoints text).drop start).flatten ciLogExcerptDefaultBytes) ≤
        ciLogExcerptDefaultBytes := fun start => by
    obtain ⟨count, hcount, -⟩ := utf8Prefix_drop text start ciLogExcerptDefaultBytes
    exact ⟨count, hcount, utf8Prefix_bounded _ _⟩
  unfold extractFailureExcerpt
  split
  · exact ⟨0, 0, rfl, Nat.zero_le _⟩
  · dsimp only
    split
    · have hwhole := hpart 0
      rw [List.drop_zero, codePoints_flatten] at hwhole
      exact ⟨0, hwhole⟩
    · exact ⟨_, hpart _⟩

/-- The excerpt is the piece of the text from the start on, is no longer than the limit, and
has every character of the occurrence. -/
structure ShowsOccurrence (casing : LowerCasing) (text marker : JsText) (index start : Nat)
    (excerpt : JsText) : Prop where
  piece : excerpt = pieceOf text start (codePoints excerpt).length
  bounded : utf8Length excerpt ≤ ciLogExcerptDefaultBytes
  shown : ∀ unit, index ≤ unit → unit < index + (casing.toLowerCase marker).length →
    start ≤ characterOf (casing.images text) unit ∧
      characterOf (casing.images text) unit < start + (codePoints excerpt).length

/-- As many characters as the first `index` units of the text have, less half the limit, do
not reach beyond the occurrence, and what follows them up to its end is within the limit. -/
def WithinReach (casing : LowerCasing) (text marker : JsText) (index : Nat) : Prop :=
  ∀ unit, index ≤ unit → unit < index + (casing.toLowerCase marker).length →
    (codePoints (text.take index)).length ≤
        characterOf (casing.images text) unit + ciLogExcerptDefaultBytes / 2 ∧
      utf8Length (((codePoints text).take (characterOf (casing.images text) unit + 1)).drop
        ((codePoints (text.take index)).length - ciLogExcerptDefaultBytes / 2)).flatten ≤
          ciLogExcerptDefaultBytes

theorem FirstOccurrence.excerpt_eq {casing : LowerCasing} {text : JsText} {markers : List JsText}
    {marker : JsText} {index : Nat} (hfirst : FirstOccurrence casing text markers marker index) :
    extractFailureExcerpt casing text markers =
      utf8Prefix ((codePoints text).drop (excerptStart text index)).flatten
        ciLogExcerptDefaultBytes := by
  unfold extractFailureExcerpt
  split
  · rename_i hempty
    rw [List.length_eq_zero_iff.mp hempty, codePoints, List.drop_nil]
    rfl
  · dsimp only
    rw [hfirst.findSome]

theorem FirstOccurrence.unit_lt {casing : LowerCasing} {text : JsText} {markers : List JsText}
    {marker : JsText} {index unit : Nat}
    (hfirst : FirstOccurrence casing text markers marker index)
    (hunit : unit < index + (casing.toLowerCase marker).length) :
    unit < (casing.toLowerCase text).length := by
  have hinside := hfirst.inside
  have hlength := hfirst.found.length_le
  rw [List.length_drop] at hlength
  omega

theorem FirstOccurrence.characterOf_lt {casing : LowerCasing} {text : JsText}
    {markers : List JsText} {marker : JsText} {index unit : Nat}
    (hfirst : FirstOccurrence casing text markers marker index)
    (hunit : unit < index + (casing.toLowerCase marker).length) :
    characterOf (casing.images text) unit < (codePoints text).length := by
  rw [← casing.length_images text]
  exact FailureExcerpts.characterOf_lt (hfirst.unit_lt hunit)

theorem showsOccurrence_iff {casing : LowerCasing} {text : JsText} {markers : List JsText}
    {marker : JsText} {index : Nat} (hfirst : FirstOccurrence casing text markers marker index) :
    ShowsOccurrence casing text marker index (excerptStart text index)
        (extractFailureExcerpt casing text markers) ↔
      WithinReach casing text marker index := by
  obtain ⟨count, hpart, hlargest⟩ := utf8Prefix_drop text (excerptStart text index)
    ciLogExcerptDefaultBytes
  have hexcerpt := hfirst.excerpt_eq.trans hpart
  have hcount : (codePoints (extractFailureExcerpt casing text markers)).length = count := by
    rw [hexcerpt, codePoints_pieceOf, List.length_take, List.length_drop]
    exact Nat.min_eq_left hlargest.bounded
  have hplace : excerptStart text index =
      (codePoints (text.take index)).length - ciLogExcerptDefaultBytes / 2 := rfl
  -- A character is shown if what stands from the start through it is within the limit.
  have hreach : ∀ place < (codePoints text).length, excerptStart text index ≤ place →
      (place < excerptStart text index + count ↔
        utf8Length (((codePoints text).take (place + 1)).drop (excerptStart text index)).flatten ≤
          ciLogExcerptDefaultBytes) := by
    intro place hplace hstart
    have hpiece : (((codePoints text).take (place + 1)).drop (excerptStart text index)).flatten =
        pieceOf text (excerptStart text index) (place + 1 - excerptStart text index) := by
      rw [pieceOf, List.drop_take]
    rw [hpiece]
    constructor
    · intro hshown
      refine Nat.le_trans ?_ (of_decide_eq_true hlargest.isGood)
      exact utf8Length_addsUp.take_le (drop_areCodePoints text _) (by omega)
    · intro hfits
      have hless := hlargest.largest (place + 1 - excerptStart text index) (by omega)
        (decide_eq_true hfits)
      omega
  constructor
  · intro hshows unit hindex hunit
    obtain ⟨hstart, hend⟩ := hshows.shown unit hindex hunit
    rw [hcount] at hend
    refine ⟨?_, (hreach _ (hfirst.characterOf_lt hunit) hstart).mp hend⟩
    rw [hplace] at hstart
    omega
  · intro hwithin
    refine ⟨by rw [hcount]; exact hexcerpt, ?_, fun unit hindex hunit => ?_⟩
    · rw [hfirst.excerpt_eq]
      exact utf8Prefix_bounded _ _
    · obtain ⟨hahead, hfits⟩ := hwithin unit hindex hunit
      have hstart : excerptStart text index ≤ characterOf (casing.images text) unit := by
        rw [hplace]
        omega
      rw [hcount]
      exact ⟨hstart, (hreach _ (hfirst.characterOf_lt hunit) hstart).mpr hfits⟩

/-- Where some marker occurs, the excerpt shows the first occurrence of the first one exactly
if that is within reach. -/
theorem extractFailureExcerpt_shows_iff {casing : LowerCasing} {text : JsText}
    {markers : List JsText}
    (hoccurs : ∃ marker ∈ markers, ∃ index, index ≤ (casing.toLowerCase text).length ∧
      casing.toLowerCase marker <+: (casing.toLowerCase text).drop index) :
    ∃ marker index, FirstOccurrence casing text markers marker index ∧
      (ShowsOccurrence casing text marker index (excerptStart text index)
          (extractFailureExcerpt casing text markers) ↔
        WithinReach casing text marker index) := by
  obtain ⟨marker, index, hfirst⟩ := exists_firstOccurrence hoccurs
  exact ⟨marker, index, hfirst, showsOccurrence_iff hfirst⟩

/-- The capital letters of ASCII have their small letters; every other character is its own
image. So it is for the texts below. -/
def asciiCasing : LowerCasing where
  images text := (codePoints text).map fun piece =>
    piece.map fun code => if 65 ≤ code ∧ code ≤ 90 then code + 32 else code
  length_images _ := List.length_map _

def wideText (count : Nat) : JsText := List.replicate count 8364 ++ asciiUnits "error"

theorem mem_wideText_plain (count : Nat) : ∀ code ∈ wideText count, ¬ IsHighSurrogate code := by
  intro code hcode
  obtain hcode | hcode := List.mem_append.mp hcode
  · rw [List.eq_of_mem_replicate hcode]
    decide
  · have hnone : ∀ code ∈ asciiUnits "error", ¬ IsHighSurrogate code :=
      List.all_iff_forall_prop.mp (by decide)
    exact hnone code hcode

theorem codePoints_wideText (count : Nat) :
    codePoints (wideText count) =
      List.replicate count [8364] ++ (asciiUnits "error").map fun code => [code] := by
  rw [codePoints_eq_map (mem_wideText_plain count), wideText, List.map_append, List.map_replicate]

theorem images_wideText (count : Nat) :
    asciiCasing.images (wideText count) = codePoints (wideText count) := by
  change (codePoints (wideText count)).map _ = _
  rw [codePoints_wideText, List.map_append, List.map_replicate]
  rfl

theorem toLowerCase_wideText (count : Nat) :
    asciiCasing.toLowerCase (wideText count) = wideText count := by
  rw [LowerCasing.toLowerCase, images_wideText, codePoints_flatten]

theorem toLowerCase_error :
    asciiCasing.toLowerCase (asciiUnits "error") = asciiUnits "error" := by
  decide

theorem wideText_firstOccurrence (count : Nat) :
    FirstOccurrence asciiCasing (wideText count) [asciiUnits "error"] (asciiUnits "error")
      count := by
  have hlength : (List.replicate count (8364 : UInt16)).length = count := List.length_replicate
  refine ⟨⟨[], [], rfl, List.forall_mem_nil _⟩, ?_, ?_, fun earlier hearlier hpart => ?_⟩
  · rw [toLowerCase_wideText, toLowerCase_error, wideText, List.drop_left' hlength]
  · rw [toLowerCase_wideText, wideText, List.length_append, hlength]
    exact Nat.le_add_right _ _
  · rw [toLowerCase_wideText, toLowerCase_error, wideText,
      List.drop_append_of_le_length (by omega), List.drop_replicate] at hpart
    obtain ⟨later, hlater⟩ : ∃ later, count - earlier = later + 1 := ⟨count - earlier - 1, by omega⟩
    rw [hlater, List.replicate_succ] at hpart
    exact absurd (List.cons_prefix_cons.mp hpart).1 (by decide)

theorem utf8Length_euros (count : Nat) :
    ((List.replicate count ([8364] : JsText)).map utf8Length).sum = count * 3 := by
  rw [List.map_replicate, List.sum_replicate_nat]
  rfl

theorem take_wideText {count kept : Nat} (hkept : kept ≤ count) :
    (codePoints (wideText count)).take kept = List.replicate kept [8364] := by
  have hlength : kept ≤ (List.replicate count ([8364] : JsText)).length := by
    rw [List.length_replicate]
    exact hkept
  rw [codePoints_wideText, List.take_append_of_le_length hlength, List.take_replicate,
    Nat.min_eq_left hkept]

theorem getElem?_wideText (count : Nat) :
    (codePoints (wideText count))[count]? = some [101] := by
  rw [codePoints_wideText, List.getElem?_append_right (by rw [List.length_replicate]),
    List.length_replicate, Nat.sub_self]
  rfl

/-- There are too many bytes before the marker for the excerpt to get to it, wherever in the
text it is taken to lie. -/
theorem wideText_not_shown {count : Nat} (hlong : ciLogExcerptDefaultBytes / 3 < count)
    (hshort : count ≤ ciLogExcerptDefaultBytes / 2) (start : Nat) :
    ¬ ShowsOccurrence asciiCasing (wideText count) (asciiUnits "error") count start
      (extractFailureExcerpt asciiCasing (wideText count) [asciiUnits "error"]) := by
  intro hshows
  have hlength : (wideText count).length = count + 5 := by
    rw [wideText, List.length_append, List.length_replicate]
    rfl
  have hplace : characterOf (asciiCasing.images (wideText count)) count = count := by
    rw [images_wideText, codePoints_eq_map (mem_wideText_plain count)]
    refine characterOf_eq (fun image himage => ?_) (by rw [List.length_map]; omega)
    obtain ⟨code, -, rfl⟩ := List.mem_map.mp himage
    rfl
  obtain ⟨hstart, hend⟩ := hshows.shown count (Nat.le_refl _)
    (by rw [toLowerCase_error]; exact Nat.lt_add_of_pos_right (by decide))
  rw [hplace] at hstart hend
  -- The excerpt is as many characters from the front as the limit allows, all euro signs.
  have hzero : excerptStart (wideText count) count = 0 := by
    have htaken := length_codePoints_le ((wideText count).take count)
    rw [List.length_take] at htaken
    exact Nat.sub_eq_zero_of_le (by omega)
  obtain ⟨kept, hpart, hlargest⟩ := utf8Prefix_drop (wideText count)
    (excerptStart (wideText count) count) ciLogExcerptDefaultBytes
  have hexcerpt := (wideText_firstOccurrence count).excerpt_eq.trans hpart
  have hfew : kept ≤ count := by
    by_contra hmany
    have hbytes := of_decide_eq_true hlargest.isGood
    rw [pieceOf, hzero, List.drop_zero] at hbytes
    have hless := utf8Length_addsUp.take_le (codePoints_areCodePoints (wideText count))
      (Nat.le_of_not_le hmany)
    rw [utf8Length_addsUp.flatten ((codePoints_areCodePoints (wideText count)).take count),
      take_wideText (Nat.le_refl _), utf8Length_euros] at hless
    unfold ciLogExcerptDefaultBytes at hlong hbytes
    omega
  have heuros : codePoints (extractFailureExcerpt asciiCasing (wideText count)
      [asciiUnits "error"]) = List.replicate kept [8364] := by
    rw [hexcerpt, codePoints_pieceOf, hzero, List.drop_zero, take_wideText hfew]
  have hletter : (codePoints (extractFailureExcerpt asciiCasing (wideText count)
      [asciiUnits "error"]))[count - start]? = some [101] := by
    rw [congrArg codePoints hshows.piece, codePoints_pieceOf, List.getElem?_take_of_lt (by omega),
      List.getElem?_drop, Nat.add_sub_cancel' hstart]
    exact getElem?_wideText count
  rw [heuros] at hletter
  exact absurd (List.eq_of_mem_replicate (List.mem_of_getElem? hletter)) (by decide)

/-- A text with a short marker after thirty thousand euro signs. -/
theorem wideText_hides_marker : ¬ ∀ (casing : LowerCasing) (text : JsText)
    (markers : List JsText) (marker : JsText) (index : Nat),
    (∀ marker ∈ markers, utf8Length marker < ciLogExcerptDefaultBytes / 2) →
      FirstOccurrence casing text markers marker index →
        ∃ start, ShowsOccurrence casing text marker index start
          (extractFailureExcerpt casing text markers) := by
  intro hall
  obtain ⟨start, hshows⟩ := hall asciiCasing (wideText 30000) [asciiUnits "error"] _ _
    (by decide) (wideText_firstOccurrence 30000)
  exact wideText_not_shown (by decide) (by decide) start hshows

theorem extractFailureExcerpt_shows_error : ∃ marker index,
    FirstOccurrence asciiCasing (asciiUnits "an Error") [asciiUnits "ERROR"] marker index ∧
      (ShowsOccurrence asciiCasing (asciiUnits "an Error") marker index
          (excerptStart (asciiUnits "an Error") index)
          (extractFailureExcerpt asciiCasing (asciiUnits "an Error") [asciiUnits "ERROR"]) ↔
        WithinReach asciiCasing (asciiUnits "an Error") marker index) :=
  extractFailureExcerpt_shows_iff ⟨_, List.mem_cons_self, 3, by decide, by decide⟩

end KodeGpt.FailureExcerpts
