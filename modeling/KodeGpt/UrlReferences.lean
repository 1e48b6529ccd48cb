import KodeGpt.PercentTexts
import Mathlib.Data.List.DropRight

/-!
References that begin with a slash, as the parser of URLs reads them against an https origin.
A reference may bring an authority of its own; its path loses its dot segments.
-/

namespace KodeGpt.UrlReferences

open ListCuts PercentTexts
open JsObjects (JsText)
open NodePaths (asciiText lossyString lossyString_ascii slash)

/-- A URL of https. The user's name and password, the path, the query and the fragment are
written as the parser encodes them. -/
structure Url where
  hostname : String
  port : Option Nat
  username : JsText
  password : JsText
  pathname : JsText
  query : Option JsText
  fragment : Option JsText
  deriving DecidableEq

def isControlOrSpace (character : Char) : Bool := character ≤ ' '

def isTabOrNewline (character : Char) : Bool := ['\t', '\n', '\r'].contains character

def isSlash (character : Char) : Bool := character = '/' || character = '\\'

def endsPath (character : Char) : Bool := character = '?' || character = '#'

def endsAuthority (character : Char) : Bool := isSlash character || endsPath character

def isVisible (character : Char) : Bool := ' ' < character && character ≤ '~'

def isPathPlain (character : Char) : Bool :=
  isVisible character && !(['"', '#', '<', '>', '?', '^', '`', '{', '}'].contains character)

def isQueryPlain (character : Char) : Bool :=
  isVisible character && !(['"', '#', '<', '>', '\''].contains character)

def isFragmentPlain (character : Char) : Bool :=
  isVisible character && !(['"', '<', '>', '`'].contains character)

def isUserinfoPlain (character : Char) : Bool :=
  isPathPlain character && !(['/', ':', ';', '=', '@', '[', '\\', ']', '|'].contains character)

def singleDots : List JsText := [[46], [37, 50, 101], [37, 50, 69]]

def doubleDots : List JsText := singleDots.flatMap fun dot => singleDots.map (dot ++ ·)

def isDotSegment (segment : JsText) : Bool :=
  singleDots.contains segment || doubleDots.contains segment

def appendSegment (path : List JsText) (segment : JsText) (last : Bool) : List JsText :=
  if doubleDots.contains segment then if last then path.dropLast ++ [[]] else path.dropLast
  else if singleDots.contains segment then if last then path ++ [[]] else path
  else path ++ [segment]

def resolveDots : List JsText → List JsText → List JsText
  | path, [] => path
  | path, [segment] => appendSegment path segment true
  | path, segment :: next :: rest => resolveDots (appendSegment path segment false) (next :: rest)

def normalSlash (character : Char) : Char := if character = '\\' then '/' else character

def pathSegments (text : List Char) : List JsText :=
  resolveDots [] (((text.map normalSlash).splitOn '/').map (percentEncode isPathPlain))

def serializePath (segments : List JsText) : JsText := segments.flatMap (slash :: ·)

structure Authority where
  hostname : String
  port : Option Nat
  username : JsText
  password : JsText
  deriving DecidableEq

def cutPort : Bool → List Char → List Char × List Char
  | _, [] => ([], [])
  | bracketed, character :: rest =>
    if character = ':' ∧ bracketed = false then ([], rest)
    else
      let cut := cutPort (character = '[' || (bracketed && character ≠ ']')) rest
      (character :: cut.1, cut.2)

def httpsPort : Nat := 443

def parsePort (digits : List Char) : Option (Option Nat) :=
  if digits = [] then some none
  else if digits.all Char.isDigit = false then none
  else
    let port := Nat.ofDigitChars 10 digits 0
    if 65535 < port then none else some (if port = httpsPort then none else some port)

section Parser

variable (parseHost : List Char → Option String)

/-- `parseHost` writes a host: its domain in ASCII and in lower case, or an address. -/
def parseAuthority (text : List Char) : Option Authority := do
  let cut := (cutLast ['@'] text).getD ([], text)
  let location := cutPort false cut.2
  if location.1 = [] then none
  else
    let hostname ← parseHost location.1
    let port ← parsePort location.2
    some {
      hostname, port
      username := percentEncode isUserinfoPlain (cut.1.takeWhile (· ≠ ':'))
      password := percentEncode isUserinfoPlain ((cut.1.dropWhile (· ≠ ':')).drop 1) }

def Authority.url (authority : Authority) (text : List Char) : Url :=
  let after := text.dropWhile fun character => !endsPath character
  let fragment := after.dropWhile (· ≠ '#')
  { hostname := authority.hostname
    port := authority.port
    username := authority.username
    password := authority.password
    pathname := serializePath (pathSegments (text.takeWhile fun character => !endsPath character))
    query :=
      if after.head? = some '?' then
        some (percentEncode isQueryPlain (after.tail.takeWhile (· ≠ '#')))
      else none
    fragment :=
      if fragment = [] then none else some (percentEncode isFragmentPlain fragment.tail) }

def urlInput (text : JsText) : List Char :=
  (((lossyString text).dropWhile isControlOrSpace).rdropWhile isControlOrSpace).filter
    fun character => !isTabOrNewline character

def parseReference (base : Authority) (text : JsText) : Option Url :=
  match urlInput text with
  | [] => none
  | first :: rest =>
    if first ≠ '/' then none
    else if rest.head?.any isSlash then
      let located := rest.dropWhile isSlash
      let after := located.dropWhile fun character => !endsAuthority character
      (parseAuthority parseHost (located.takeWhile fun character => !endsAuthority character)).map
        fun authority => authority.url (if after.head?.any isSlash then after.tail else after)
    else some ({ base with username := [], password := [] }.url rest)

end Parser

def isSegmentUnit (unit : UInt16) : Bool :=
  unit.toNat < 128 && isPathPlain (Char.ofNat unit.toNat) && unit ≠ slash && unit ≠ 92

theorem plainSet_path : PlainSet isPathPlain where
  ascii := by
    intro character h
    simp only [isPathPlain, isVisible, Bool.and_eq_true, decide_eq_true_eq] at h
    have hle : character.toNat ≤ '~'.toNat := h.1.2
    exact Nat.lt_of_le_of_lt hle (by decide)
  alphanumeric := by
    have hall : ∀ code < 128, isAlphanumeric (Char.ofNat code) = true →
        isPathPlain (Char.ofNat code) = true := by
      decide
    intro character h
    have hplain := hall character.toNat (isAlphanumeric_ascii h)
    rw [Char.ofNat_toNat] at hplain
    exact hplain h

theorem isSegmentUnit_of_encoded {unit : UInt16} (h : isEncodedUnit isPathPlain unit = true)
    (hslash : unit ≠ slash) (hbackslash : unit ≠ 92) : isSegmentUnit unit = true := by
  have hascii := isEncodedUnit_ascii h
  have hplain : isPathPlain (Char.ofNat unit.toNat) = true := by
    obtain h | h := Bool.or_eq_true_iff.mp h
    · exact (Bool.and_eq_true_iff.mp h).2
    · rw [of_decide_eq_true h]
      decide
  rw [isSegmentUnit, decide_eq_true hascii, hplain, decide_eq_true hslash,
    decide_eq_true hbackslash]
  rfl

theorem mem_encodedSegment {character : Char} (hcharacter : isSlash character = false)
    {unit : UInt16} (h : unit ∈ percentEncodeChar isPathPlain character) :
    isSegmentUnit unit = true := by
  have hencoded := mem_percentEncodeChar plainSet_path h
  rw [percentEncodeChar] at h
  split at h
  case isTrue hplain =>
    have hascii := plainSet_path.ascii character hplain
    have hvalue : unit.toNat = character.toNat := by
      rw [List.mem_singleton.mp h, Nat.toUInt16, UInt16.toNat_ofNat']
      omega
    have hne : ∀ mark : UInt16, unit = mark → character = Char.ofNat mark.toNat := by
      intro mark hmark
      rw [← hmark, hvalue, Char.ofNat_toNat]
    refine isSegmentUnit_of_encoded hencoded ?_ ?_
    · intro hslash
      rw [hne _ hslash] at hcharacter
      exact absurd hcharacter (by decide)
    · intro hbackslash
      rw [hne _ hbackslash] at hcharacter
      exact absurd hcharacter (by decide)
  case isFalse =>
    obtain ⟨byte, -, hbyte⟩ := List.mem_flatMap.mp h
    have hhex : ∀ digit < 16, isSegmentUnit (hexUnit digit) = true := by decide
    have hsmall : byte.toNat < 256 := byte.toNat_lt
    rw [percentEncodeByte, List.mem_cons, List.mem_cons, List.mem_singleton] at hbyte
    obtain rfl | rfl | rfl := hbyte
    · decide
    · exact hhex _ (by omega)
    · exact hhex _ (by omega)

def SegmentUnits (segment : JsText) : Prop := ∀ unit ∈ segment, isSegmentUnit unit = true

theorem appendSegment_units {path : List JsText} {segment : JsText}
    (hpath : ∀ found ∈ path, SegmentUnits found) (hsegment : SegmentUnits segment) (last : Bool) :
    ∀ found ∈ appendSegment path segment last, SegmentUnits found := by
  have hempty : SegmentUnits [] := nofun
  have hfront : ∀ found ∈ path.dropLast, SegmentUnits found :=
    fun found hfound => hpath found (List.dropLast_subset path hfound)
  have hconcat : ∀ {front : List JsText} {added : JsText},
      (∀ found ∈ front, SegmentUnits found) → SegmentUnits added →
        ∀ found ∈ front ++ [added], SegmentUnits found := by
    intro front added hold hnew found hfound
    obtain hfound | hfound := List.mem_append.mp hfound
    · exact hold found hfound
    · exact List.mem_singleton.mp hfound ▸ hnew
  rw [appendSegment]
  split
  · split
    · exact hconcat hfront hempty
    · exact hfront
  · split
    · split
      · exact hconcat hpath hempty
      · exact hpath
    · exact hconcat hpath hsegment

theorem resolveDots_units {segments : List JsText} {path : List JsText}
    (hpath : ∀ found ∈ path, SegmentUnits found)
    (hsegments : ∀ segment ∈ segments, SegmentUnits segment) :
    ∀ found ∈ resolveDots path segments, SegmentUnits found := by
  induction segments generalizing path with
  | nil => exact hpath
  | cons segment rest ih =>
    obtain ⟨hsegment, hrest⟩ := List.forall_mem_cons.mp hsegments
    cases rest with
    | nil => exact appendSegment_units hpath hsegment true
    | cons next rest => exact ih (appendSegment_units hpath hsegment false) hrest

theorem length_appendSegment (path : List JsText) (segment : JsText) :
    (appendSegment path segment false).length ≤ path.length + 1 := by
  rw [appendSegment]
  split
  · rw [if_neg Bool.false_ne_true, List.length_dropLast]
    omega
  · split
    · rw [if_neg Bool.false_ne_true]
      omega
    · rw [List.length_append, List.length_singleton]

theorem length_appendSegment_dot {path : List JsText} {segment : JsText}
    (h : isDotSegment segment = true) :
    (appendSegment path segment false).length ≤ path.length := by
  rw [appendSegment]
  split
  case isTrue =>
    rw [if_neg Bool.false_ne_true, List.length_dropLast]
    omega
  case isFalse hdouble =>
    rw [isDotSegment, Bool.or_eq_true] at h
    rw [if_pos (h.resolve_right hdouble), if_neg Bool.false_ne_true]

theorem appendSegment_plain {path : List JsText} {segment : JsText} (last : Bool)
    (h : isDotSegment segment = false) : appendSegment path segment last = path ++ [segment] := by
  rw [isDotSegment, Bool.or_eq_false_iff] at h
  rw [appendSegment, if_neg (Bool.eq_false_iff.mp h.2), if_neg (Bool.eq_false_iff.mp h.1)]

theorem appendSegment_last {path : List JsText} {segment : JsText}
    (h : isDotSegment segment = true) :
    ∃ front, front.length ≤ path.length ∧ appendSegment path segment true = front ++ [[]] := by
  rw [appendSegment]
  split
  case isTrue =>
    rw [if_pos rfl]
    refine ⟨_, ?_, rfl⟩
    rw [List.length_dropLast]
    omega
  case isFalse hdouble =>
    rw [isDotSegment, Bool.or_eq_true] at h
    rw [if_pos (h.resolve_right hdouble), if_pos rfl]
    exact ⟨_, Nat.le_refl _, rfl⟩

theorem length_resolveDots (path segments : List JsText) :
    (resolveDots path segments).length ≤ path.length + segments.length := by
  induction segments generalizing path with
  | nil => exact Nat.le_refl _
  | cons segment rest ih =>
    cases rest with
    | nil =>
      rw [resolveDots]
      by_cases hdot : isDotSegment segment = true
      · obtain ⟨front, hfront, heq⟩ := @appendSegment_last path _ hdot
        rw [heq, List.length_append, List.length_singleton, List.length_singleton]
        omega
      · rw [appendSegment_plain true (Bool.eq_false_iff.mpr hdot), List.length_append]
    | cons next rest =>
      have hstep := length_appendSegment path segment
      have hrest := ih (appendSegment path segment false)
      rw [resolveDots, List.length_cons]
      omega

theorem resolveDots_plain {segments : List JsText} (path : List JsText)
    (h : ∀ segment ∈ segments, isDotSegment segment = false) :
    resolveDots path segments = path ++ segments := by
  induction segments generalizing path with
  | nil => rw [resolveDots, List.append_nil]
  | cons segment rest ih =>
    obtain ⟨hsegment, hrest⟩ := List.forall_mem_cons.mp h
    cases rest with
    | nil => exact appendSegment_plain true hsegment
    | cons next rest =>
      rw [resolveDots, ih _ hrest, appendSegment_plain false hsegment, List.append_assoc]
      rfl

/-- As many segments are left as there were only if the last alone is a dot segment; an
empty one is left for it. -/
theorem isDotSegment_of_resolveDots {segments path : List JsText}
    (hlength : (resolveDots path segments).length = path.length + segments.length)
    {segment : JsText} (hsegment : segment ∈ segments) (hdot : isDotSegment segment = true) :
    segments.getLast? = some segment ∧ (resolveDots path segments).getLast? = some [] := by
  induction segments generalizing path with
  | nil => exact absurd hsegment List.not_mem_nil
  | cons first rest ih =>
    cases rest with
    | nil =>
      obtain rfl := List.mem_singleton.mp hsegment
      obtain ⟨front, -, heq⟩ := @appendSegment_last path _ hdot
      refine ⟨rfl, ?_⟩
      rw [resolveDots, heq, List.getLast?_concat]
    | cons next rest =>
      rw [resolveDots, List.length_cons] at hlength
      have hbound := length_resolveDots (appendSegment path first false) (next :: rest)
      have hstep := length_appendSegment path first
      obtain rfl | hlater := List.mem_cons.mp hsegment
      · have hshort := @length_appendSegment_dot path _ hdot
        omega
      · rw [List.getLast?_cons_cons, resolveDots]
        exact ih (by omega) hlater

theorem splitOn_serializePath {segments : List JsText}
    (h : ∀ segment ∈ segments, SegmentUnits segment) :
    (serializePath segments).splitOn slash = [] :: segments := by
  have hnone : ∀ segment ∈ segments, slash ∉ segment :=
    fun segment hsegment hslash => absurd (h segment hsegment slash hslash) (by decide)
  induction segments with
  | nil => rfl
  | cons segment rest ih =>
    obtain ⟨hsegment, hrest⟩ := List.forall_mem_cons.mp hnone
    have hlater := ih (fun found hfound => h found (List.mem_cons_of_mem _ hfound)) hrest
    rw [serializePath, List.flatMap_cons, List.cons_append, List.splitOn_cons_eq_if_modifyHead,
      if_pos (beq_self_eq_true _)]
    refine congrArg _ ?_
    cases rest with
    | nil =>
      rw [List.flatMap_nil, List.append_nil]
      exact List.splitOn_eq_singleton hsegment
    | cons next rest =>
      rw [List.flatMap_cons, List.cons_append,
        List.splitOn_append_cons_self_of_not_mem hsegment]
      rw [serializePath, List.flatMap_cons, List.cons_append,
        List.splitOn_cons_eq_if_modifyHead, if_pos (beq_self_eq_true _)] at hlater
      exact congrArg _ (List.cons.inj hlater).2

theorem pathSegments_units (text : List Char) :
    ∀ segment ∈ pathSegments text, SegmentUnits segment := by
  refine resolveDots_units nofun ?_
  intro segment hsegment unit hunit
  obtain ⟨part, hpart, rfl⟩ := List.mem_map.mp hsegment
  obtain ⟨character, hcharacter, hunit⟩ := List.mem_flatMap.mp hunit
  refine mem_encodedSegment ?_ hunit
  have hslash : character ≠ '/' := by
    intro h
    exact notMem_splitOn '/' _ part hpart (h ▸ hcharacter)
  have hbackslash : character ≠ '\\' := by
    have hmem : character ∈ text.map normalSlash := mem_of_mem_splitOn hpart hcharacter
    obtain ⟨source, -, rfl⟩ := List.mem_map.mp hmem
    rw [normalSlash]
    split
    · decide
    · assumption
  rw [isSlash, decide_eq_false hslash, decide_eq_false hbackslash]
  rfl

/-- A text of segments and slashes, which the parser leaves as it is. -/
def IsPlainPath (text : JsText) : Prop := ∀ unit ∈ text, unit = slash ∨ isSegmentUnit unit = true

def characters (text : JsText) : List Char := text.map fun unit => Char.ofNat unit.toNat

theorem IsPlainPath.unit {text : JsText} (h : IsPlainPath text) {P : UInt16 → Prop}
    (hslash : P slash) (hsegment : ∀ unit, isSegmentUnit unit = true → P unit) :
    ∀ unit ∈ text, P unit := by
  intro unit hunit
  obtain rfl | hunit := h unit hunit
  · exact hslash
  · exact hsegment unit hunit

theorem isSegmentUnit_ascii {unit : UInt16} (h : isSegmentUnit unit = true) :
    unit.toNat < 128 := by
  simp only [isSegmentUnit, Bool.and_eq_true, decide_eq_true_eq] at h
  exact h.1.1.1

theorem forall_isSegmentUnit {P : UInt16 → Bool}
    (h : (List.range 128).all
      (fun code => !isSegmentUnit code.toUInt16 || P code.toUInt16) = true) :
    ∀ unit, isSegmentUnit unit = true → P unit = true := by
  intro unit hunit
  have hcheck := List.all_eq_true.mp h unit.toNat (List.mem_range.mpr (isSegmentUnit_ascii hunit))
  have hback : unit.toNat.toUInt16 = unit := by
    rw [← UInt16.toNat_inj, Nat.toUInt16, UInt16.toNat_ofNat', Nat.mod_eq_of_lt unit.toNat_lt]
  rw [hback, hunit] at hcheck
  exact hcheck

theorem IsPlainPath.ascii {text : JsText} (h : IsPlainPath text) : asciiText text :=
  h.unit (by decide) fun _ => isSegmentUnit_ascii

theorem IsPlainPath.of_subset {text part : JsText} (h : IsPlainPath text) (hpart : part ⊆ text) :
    IsPlainPath part :=
  fun unit hunit => h unit (hpart hunit)

theorem plain_units {unit : UInt16} (h : unit = slash ∨ isSegmentUnit unit = true) :
    isControlOrSpace (Char.ofNat unit.toNat) = false ∧
      isTabOrNewline (Char.ofNat unit.toNat) = false ∧
      endsPath (Char.ofNat unit.toNat) = false ∧
      (isSlash (Char.ofNat unit.toNat) = true → unit = slash) ∧
      normalSlash (Char.ofNat unit.toNat) = Char.ofNat unit.toNat := by
  have hcheck : ∀ unit, isSegmentUnit unit = true →
      (!isControlOrSpace (Char.ofNat unit.toNat) && !isTabOrNewline (Char.ofNat unit.toNat) &&
        !endsPath (Char.ofNat unit.toNat) && !isSlash (Char.ofNat unit.toNat)) = true :=
    forall_isSegmentUnit (by decide)
  obtain rfl | h := h
  · decide
  · have hall := hcheck unit h
    simp only [Bool.and_eq_true, Bool.not_eq_true'] at hall
    obtain ⟨⟨⟨hcontrol, htab⟩, hends⟩, hslash⟩ := hall
    refine ⟨hcontrol, htab, hends, fun h => absurd h (Bool.eq_false_iff.mp hslash), ?_⟩
    rw [isSlash, Bool.or_eq_false_iff] at hslash
    exact if_neg (of_decide_eq_false hslash.2)

theorem IsPlainPath.characters {text : JsText} (h : IsPlainPath text) :
    ∀ character ∈ characters text, isControlOrSpace character = false ∧
      isTabOrNewline character = false ∧ endsPath character = false ∧
      normalSlash character = character := by
  intro character hcharacter
  obtain ⟨unit, hunit, rfl⟩ := List.mem_map.mp hcharacter
  obtain ⟨hcontrol, htab, hends, -, hnormal⟩ := plain_units (h unit hunit)
  exact ⟨hcontrol, htab, hends, hnormal⟩

theorem urlInput_plain {text : JsText} (h : IsPlainPath text) :
    urlInput text = characters text := by
  have hfront : (characters text).dropWhile isControlOrSpace = characters text := by
    cases hcases : characters text with
    | nil => rfl
    | cons character rest =>
      have hcharacter := (h.characters character (hcases ▸ List.mem_cons_self)).1
      rw [List.dropWhile_cons_of_neg (by rw [hcharacter]; exact Bool.false_ne_true)]
  have hback : (characters text).rdropWhile isControlOrSpace = characters text := by
    rw [List.rdropWhile_eq_self_iff]
    intro hne hlast
    have hcharacter := (h.characters _ (List.getLast_mem hne)).1
    rw [hcharacter] at hlast
    exact Bool.false_ne_true hlast
  rw [urlInput, lossyString_ascii h.ascii]
  show ((characters text).dropWhile isControlOrSpace |>.rdropWhile isControlOrSpace).filter _ = _
  rw [hfront, hback, List.filter_eq_self.mpr]
  intro character hcharacter
  rw [(h.characters character hcharacter).2.1]
  rfl

theorem percentEncode_characters {segment : JsText} (h : SegmentUnits segment) :
    percentEncode isPathPlain (characters segment) = segment := by
  have hcheck : ∀ unit, isSegmentUnit unit = true →
      isPathPlain (Char.ofNat unit.toNat) = true := by
    intro unit hunit
    simp only [isSegmentUnit, Bool.and_eq_true] at hunit
    exact hunit.1.1.2
  induction segment with
  | nil => rfl
  | cons unit rest ih =>
    have hunit := h unit List.mem_cons_self
    have hrest := ih fun other hother => h other (List.mem_cons_of_mem _ hother)
    have hascii := isSegmentUnit_ascii hunit
    have hvalid : unit.toNat.isValidChar := Or.inl (Nat.lt_trans hascii (by decide))
    have hback : unit.toNat.toUInt16 = unit := by
      rw [← UInt16.toNat_inj, Nat.toUInt16, UInt16.toNat_ofNat', Nat.mod_eq_of_lt unit.toNat_lt]
    rw [characters, List.map_cons, percentEncode, List.flatMap_cons, percentEncodeChar,
      if_pos (hcheck unit hunit), JsFrames.toNat_ofNat hvalid, hback]
    exact congrArg (unit :: ·) hrest

theorem splitOn_characters {text : JsText} (h : IsPlainPath text) :
    (characters text).splitOn '/' = (text.splitOn slash).map characters := by
  have hfields : ∀ field ∈ (text.splitOn slash).map characters, '/' ∉ field := by
    intro field hfield hslash
    obtain ⟨part, hpart, rfl⟩ := List.mem_map.mp hfield
    obtain ⟨unit, hunit, heq⟩ := List.mem_map.mp hslash
    have hvalue : unit = slash := by
      refine (plain_units (h unit (mem_of_mem_splitOn hpart hunit))).2.2.2.1 ?_
      rw [heq]
      decide
    exact notMem_splitOn slash text part hpart (hvalue ▸ hunit)
  have hjoin : characters text = ['/'].intercalate ((text.splitOn slash).map characters) := by
    have hmap := map_intercalate (fun unit : UInt16 => Char.ofNat unit.toNat) slash
      (text.splitOn slash)
    rw [List.intercalate_splitOn] at hmap
    exact hmap
  rw [hjoin]
  exact List.splitOn_intercalate '/' hfields (by simp)

theorem IsPlainPath.segments {text : JsText} (h : IsPlainPath text) :
    ∀ segment ∈ text.splitOn slash, SegmentUnits segment := by
  intro segment hsegment unit hunit
  refine (h unit (mem_of_mem_splitOn hsegment hunit)).resolve_left ?_
  rintro rfl
  exact notMem_splitOn slash text segment hsegment hunit

theorem pathSegments_plain {text : JsText} (h : IsPlainPath text) :
    pathSegments (characters text) = resolveDots [] (text.splitOn slash) := by
  have hnormal : (characters text).map normalSlash = characters text := by
    refine (List.map_congr_left fun character hcharacter => ?_).trans (List.map_id _)
    exact (h.characters character hcharacter).2.2.2
  rw [pathSegments, hnormal, splitOn_characters h, List.map_map]
  refine congrArg _ ((List.map_congr_left fun part hpart => ?_).trans (List.map_id _))
  exact percentEncode_characters (h.segments part hpart)

def Authority.plainUrl (authority : Authority) (text : JsText) : Url where
  hostname := authority.hostname
  port := authority.port
  username := authority.username
  password := authority.password
  pathname := serializePath (resolveDots [] (text.splitOn slash))
  query := none
  fragment := none

theorem url_plain (authority : Authority) {text : JsText} (h : IsPlainPath text) :
    authority.url (characters text) = authority.plainUrl text := by
  have hall : ∀ character ∈ characters text, (!endsPath character) = true := by
    intro character hcharacter
    rw [(h.characters character hcharacter).2.2.1]
    rfl
  have htake : (characters text).takeWhile (fun character => !endsPath character) =
      characters text := List.takeWhile_eq_self_iff.mpr hall
  have hdrop : (characters text).dropWhile (fun character => !endsPath character) = [] :=
    List.dropWhile_eq_nil_iff.mpr hall
  rw [Authority.url, htake, hdrop, pathSegments_plain h]
  rfl

variable {parseHost : List Char → Option String} {base : Authority} {url : Url}

theorem parseReference_plain {rest : JsText} (h : IsPlainPath rest)
    (hhead : rest.head? ≠ some slash) :
    parseReference parseHost base (slash :: rest) =
      some ({ base with username := [], password := [] }.plainUrl rest) := by
  have hplain : IsPlainPath (slash :: rest) := List.forall_mem_cons.mpr ⟨.inl rfl, h⟩
  have hinput : urlInput (slash :: rest) = '/' :: characters rest := urlInput_plain hplain
  have hslash : (characters rest).head?.any isSlash = false := by
    cases rest with
    | nil => rfl
    | cons unit rest =>
      refine Bool.eq_false_iff.mpr fun heq => hhead ?_
      exact congrArg some ((plain_units (h unit List.mem_cons_self)).2.2.2.1 heq)
  rw [parseReference, hinput]
  dsimp only
  rw [if_neg (not_not_intro rfl), hslash, if_neg Bool.false_ne_true, url_plain _ h]

theorem length_splitOn (text : JsText) :
    (text.splitOn slash).length = text.count slash + 1 := by
  induction text with
  | nil => rfl
  | cons unit rest ih =>
    rw [List.splitOn_cons_eq_if_modifyHead, List.count_cons]
    split
    · rw [List.length_cons, ih]
    · rw [List.length_modifyHead, ih]

theorem parseReference_authority {rest : JsText} (h : IsPlainPath rest)
    (hurl : parseReference parseHost base (slash :: slash :: rest) = some url) :
    ∃ later : JsText, IsPlainPath later ∧
      url.pathname = serializePath (resolveDots [] (later.splitOn slash)) ∧
      (later.splitOn slash).length < ((slash :: rest).splitOn slash).length := by
  have hplain : IsPlainPath (slash :: slash :: rest) :=
    List.forall_mem_cons.mpr ⟨.inl rfl, List.forall_mem_cons.mpr ⟨.inl rfl, h⟩⟩
  have hinput : urlInput (slash :: slash :: rest) = '/' :: '/' :: characters rest :=
    urlInput_plain hplain
  rw [parseReference, hinput] at hurl
  dsimp only at hurl
  have hslash : ('/' :: characters rest).head?.any isSlash = true := rfl
  rw [if_neg (not_not_intro rfl), if_pos hslash, List.dropWhile_cons_of_pos (by decide)] at hurl
  obtain ⟨authority, -, rfl⟩ := Option.map_eq_some_iff.mp hurl
  generalize hlocated : rest.dropWhile (isSlash ∘ fun unit => Char.ofNat unit.toNat) = located
  have hcharacters : (characters rest).dropWhile isSlash = characters located := by
    rw [← hlocated, characters, List.dropWhile_map, characters]
  rw [hcharacters]
  generalize hafter : located.dropWhile
    ((fun character => !endsAuthority character) ∘ fun unit => Char.ofNat unit.toNat) = after
  have hrest : (characters located).dropWhile (fun character => !endsAuthority character) =
      characters after := by
    rw [← hafter, characters, List.dropWhile_map, characters]
  rw [hrest]
  have hsuffix : after <:+ rest := by
    rw [← hafter, ← hlocated]
    exact (List.dropWhile_suffix _).trans (List.dropWhile_suffix _)
  have hcount : after.count slash ≤ rest.count slash := hsuffix.sublist.count_le slash
  have hlong : ((slash :: rest).splitOn slash).length = rest.count slash + 2 := by
    rw [length_splitOn, List.count_cons_self]
  cases hcases : after with
  | nil =>
    have hempty : IsPlainPath [] := fun unit hunit => absurd hunit List.not_mem_nil
    refine ⟨[], hempty, congrArg Url.pathname (url_plain authority hempty), ?_⟩
    rw [hlong, length_splitOn, List.count_nil]
    omega
  | cons unit later =>
    have hunit : unit = slash := by
      have hends := List.head?_dropWhile_not
        ((fun character => !endsAuthority character) ∘ fun unit : UInt16 => Char.ofNat unit.toNat)
        located
      rw [hafter, hcases] at hends
      have hmem : unit ∈ rest := hsuffix.subset (hcases ▸ List.mem_cons_self)
      obtain ⟨-, -, hpath, hslash, -⟩ := plain_units (h unit hmem)
      refine hslash ?_
      simp only [List.head?_cons, Function.comp_apply, Bool.not_eq_false'] at hends
      rwa [endsAuthority, hpath, Bool.or_false] at hends
    have hlater : IsPlainPath later :=
      h.of_subset fun other hother =>
        hsuffix.subset (hcases ▸ List.mem_cons_of_mem _ hother)
    refine ⟨later, hlater, ?_, ?_⟩
    · have hhead : (characters (unit :: later)).head?.any isSlash = true := by
        rw [hunit]
        rfl
      rw [if_pos hhead]
      exact congrArg Url.pathname (url_plain authority hlater)
    · rw [hcases, hunit, List.count_cons_self] at hcount
      rw [hlong, length_splitOn]
      omega

theorem parseReference_pathname {text : JsText}
    (hurl : parseReference parseHost base text = some url) :
    ∃ segments, url.pathname = serializePath segments ∧
      ∀ segment ∈ segments, SegmentUnits segment := by
  rw [parseReference] at hurl
  split at hurl
  · cases hurl
  · split at hurl
    · cases hurl
    · split at hurl
      · obtain ⟨authority, -, rfl⟩ := Option.map_eq_some_iff.mp hurl
        exact ⟨_, rfl, pathSegments_units _⟩
      · obtain rfl := Option.some.inj hurl
        exact ⟨_, rfl, pathSegments_units _⟩

end KodeGpt.UrlReferences
