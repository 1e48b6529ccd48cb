import KodeGpt.TextEncodings

/-!
Paths as strings of JavaScript: their components, how they are joined, and what the file
system makes of them. A path goes to the file system as UTF-8, and comes back decoded.
-/

namespace KodeGpt.NodePaths

open JsonDocuments JsFrames JsObjects TextEncodings
open JsonText (Bytes)

def slash : UInt16 := 47

def isAbsolute (path : JsText) : Bool := path.head? = some slash

def components (path : JsText) : List JsText := (path.splitOn slash).filter fun name => name ≠ []

/-- `relative(root, candidate)` leads down, for two canonical paths. -/
def isBeneathOrEqual (candidate root : JsText) : Bool :=
  candidate = root ||
    (components root).isPrefixOf (components candidate) && components root ≠ components candidate

def pathsOverlap (left right : JsText) : Bool :=
  isBeneathOrEqual left right || isBeneathOrEqual right left

def dotName : JsText := [46]

def dotDotName : JsText := [46, 46]

def normalizeName (names : List JsText) (name : JsText) : List JsText :=
  if name = [] ∨ name = dotName then names
  else if name = dotDotName then names.dropLast
  else names ++ [name]

/-- `normalize`, of an absolute path: a slash at the end stays. -/
def normalizeAbsolute (path : JsText) : JsText :=
  let names := (path.splitOn slash).foldl normalizeName []
  slash :: ([slash].intercalate names ++
    if names ≠ [] ∧ path.getLast? = some slash then [slash] else [])

/-- `join`, of an absolute path and a relative one. -/
def join (base relative : JsText) : JsText := normalizeAbsolute (base ++ slash :: relative)

def lossyString : JsText → List Char
  | [] => []
  | [code] => [if isSurrogate code then replacementCharacter else Char.ofNat code.toNat]
  | high :: low :: rest =>
    if IsHighSurrogate high ∧ IsLowSurrogate low then pairCharacter high low :: lossyString rest
    else (if isSurrogate high then replacementCharacter else Char.ofNat high.toNat) ::
      lossyString (low :: rest)

def pathBytes (path : JsText) : Bytes := encodeUtf8 (lossyString path)

def pathText (bytes : Bytes) : JsText := encodeUtf16 (fromUtf8Lossy bytes)

theorem lossyString_of_stringCharacters {text : JsText} {characters : List Char}
    (htext : stringCharacters text = some characters) : lossyString text = characters := by
  induction text using stringCharacters.induct generalizing characters with
  | case1 => exact Option.some.inj htext
  | case2 code hsurrogate => simp [stringCharacters, hsurrogate] at htext
  | case3 code hsurrogate =>
    rw [stringCharacters, if_neg hsurrogate] at htext
    rw [lossyString, if_neg hsurrogate]
    exact Option.some.inj htext
  | case4 high low rest hpair ih =>
    rw [stringCharacters, if_pos hpair] at htext
    obtain ⟨later, hlater, rfl⟩ := Option.map_eq_some_iff.mp htext
    rw [lossyString, if_pos hpair, ih hlater]
  | case5 high low rest hpair hsurrogate =>
    simp [stringCharacters, hpair, hsurrogate] at htext
  | case6 high low rest hpair hsurrogate ih =>
    rw [stringCharacters, if_neg hpair, if_neg hsurrogate] at htext
    obtain ⟨later, hlater, rfl⟩ := Option.map_eq_some_iff.mp htext
    rw [lossyString, if_neg hpair, if_neg hsurrogate, ih hlater]

theorem pathBytes_encodeUtf16 (characters : List Char) :
    pathBytes (encodeUtf16 characters) = encodeUtf8 characters := by
  rw [pathBytes, lossyString_of_stringCharacters (stringCharacters_encodeUtf16 characters)]

theorem pathText_encodeUtf8 (characters : List Char) :
    pathText (encodeUtf8 characters) = encodeUtf16 characters := by
  rw [pathText, fromUtf8Lossy_encodeUtf8]

theorem utf16Units_ofNat {code : UInt16} (hsurrogate : isSurrogate code = false) :
    utf16Units (Char.ofNat code.toNat) = [code] := by
  have hcode : code.toNat < 65536 := code.toNat_lt
  have hranges := of_decide_eq_false hsurrogate
  unfold IsHighSurrogate IsLowSurrogate at hranges
  have hvalid : code.toNat.isValidChar := by
    unfold Nat.isValidChar
    omega
  rw [utf16Units, toNat_ofNat hvalid, if_pos hcode]
  simp

def asciiText (text : JsText) : Prop := ∀ unit ∈ text, unit.toNat < 128

theorem encodeUtf16_ascii {text : JsText} (h : asciiText text) :
    encodeUtf16 (text.map fun unit => Char.ofNat unit.toNat) = text := by
  induction text with
  | nil => rfl
  | cons unit rest ih =>
    have hunit : isSurrogate unit = false := by
      have hsmall := h unit List.mem_cons_self
      refine decide_eq_false ?_
      unfold IsHighSurrogate IsLowSurrogate
      omega
    rw [List.map_cons, encodeUtf16, List.flatMap_cons, utf16Units_ofNat hunit]
    show [unit] ++ encodeUtf16 _ = _
    rw [ih fun other hmem => h other (List.mem_cons_of_mem _ hmem)]
    rfl

theorem utf16Units_pairCharacter {high low : UInt16} (hhigh : IsHighSurrogate high)
    (hlow : IsLowSurrogate low) : utf16Units (pairCharacter high low) = [high, low] := by
  have hvalue := pairCharacter_toNat hhigh hlow
  obtain ⟨hhigh, hhigh'⟩ := hhigh
  obtain ⟨hlow, hlow'⟩ := hlow
  have hlarge : ¬ (pairCharacter high low).toNat < 65536 := by omega
  have hfirst : ((pairCharacter high low).toNat - 65536) / 1024 + 55296 = high.toNat := by omega
  have hsecond : ((pairCharacter high low).toNat - 65536) % 1024 + 56320 = low.toNat := by omega
  rw [utf16Units, if_neg hlarge, hfirst, hsecond]
  simp

theorem encodeUtf16_of_stringCharacters {text : JsText} {characters : List Char}
    (htext : stringCharacters text = some characters) : encodeUtf16 characters = text := by
  induction text using stringCharacters.induct generalizing characters with
  | case1 => rw [← Option.some.inj htext, encodeUtf16, List.flatMap_nil]
  | case2 code hsurrogate => simp [stringCharacters, hsurrogate] at htext
  | case3 code hsurrogate =>
    rw [stringCharacters, if_neg hsurrogate] at htext
    rw [← Option.some.inj htext, encodeUtf16, List.flatMap_singleton,
      utf16Units_ofNat (Bool.eq_false_iff.mpr hsurrogate)]
  | case4 high low rest hpair ih =>
    rw [stringCharacters, if_pos hpair] at htext
    obtain ⟨later, hlater, rfl⟩ := Option.map_eq_some_iff.mp htext
    rw [encodeUtf16, List.flatMap_cons, utf16Units_pairCharacter hpair.1 hpair.2]
    exact congrArg ([high, low] ++ ·) (ih hlater)
  | case5 high low rest hpair hsurrogate =>
    simp [stringCharacters, hpair, hsurrogate] at htext
  | case6 high low rest hpair hsurrogate ih =>
    rw [stringCharacters, if_neg hpair, if_neg hsurrogate] at htext
    obtain ⟨later, hlater, rfl⟩ := Option.map_eq_some_iff.mp htext
    rw [encodeUtf16, List.flatMap_cons, utf16Units_ofNat (Bool.eq_false_iff.mpr hsurrogate)]
    exact congrArg ([high] ++ ·) (ih hlater)

/-- A string is what it is read as exactly when no surrogate is on its own. -/
theorem encodeUtf16_lossyString_iff (text : JsText) :
    encodeUtf16 (lossyString text) = text ↔ isWellFormed text = true := by
  rw [← stringCharacters_isSome]
  constructor
  · intro h
    rw [← h, stringCharacters_encodeUtf16]
    rfl
  · intro h
    obtain ⟨characters, htext⟩ := Option.isSome_iff_exists.mp h
    rw [lossyString_of_stringCharacters htext, encodeUtf16_of_stringCharacters htext]

theorem lossyString_ascii {text : JsText} (h : asciiText text) :
    lossyString text = text.map fun unit => Char.ofNat unit.toNat := by
  have hcharacters := stringCharacters_encodeUtf16 (text.map fun unit => Char.ofNat unit.toNat)
  rw [encodeUtf16_ascii h] at hcharacters
  exact lossyString_of_stringCharacters hcharacters

theorem pathText_pathBytes {text : JsText} (h : asciiText text) : pathText (pathBytes text) = text := by
  have hunits := encodeUtf16_ascii h
  rw [← hunits, pathBytes_encodeUtf16, pathText_encodeUtf8]

theorem pathBytes_inj {left right : JsText} (hleft : asciiText left) (hright : asciiText right)
    (h : pathBytes left = pathBytes right) : left = right := by
  rw [← pathText_pathBytes hleft, h, pathText_pathBytes hright]

theorem pathBytes_ascii {text : JsText} (h : asciiText text) :
    pathBytes text = text.map UInt16.toUInt8 := by
  have hsmall : ∀ unit ∈ text, unit.toUInt8.toNat = unit.toNat := by
    intro unit hunit
    have hbound := h unit hunit
    rw [UInt16.toNat_toUInt8]
    omega
  have hbytes : ∀ byte ∈ text.map UInt16.toUInt8, byte < 128 := by
    intro byte hbyte
    obtain ⟨unit, hunit, rfl⟩ := List.mem_map.mp hbyte
    rw [UInt8.lt_iff_toNat_lt, hsmall unit hunit]
    exact h unit hunit
  have hcharacters : (text.map fun unit => Char.ofNat unit.toNat) =
      (text.map UInt16.toUInt8).map asciiCharacter := by
    rw [List.map_map]
    refine List.map_congr_left ?_
    intro unit hunit
    rw [Function.comp_apply, asciiCharacter, hsmall unit hunit]
  calc pathBytes text
      = pathBytes (encodeUtf16 (text.map fun unit => Char.ofNat unit.toNat)) := by
        rw [encodeUtf16_ascii h]
    _ = text.map UInt16.toUInt8 := by
        rw [pathBytes_encodeUtf16, hcharacters, encodeUtf8_ascii hbytes]

theorem decodeCharacter_append (character : Char) (rest : Bytes) :
    decodeCharacter (String.utf8EncodeChar character ++ rest) = some character := by
  have happend : (String.utf8EncodeChar character ++ rest).toByteArray =
      (String.utf8EncodeChar character).toByteArray ++ rest.toByteArray := by
    ext1
    rw [ByteArray.data_append, List.data_toByteArray, List.data_toByteArray,
      List.data_toByteArray, List.append_toArray]
  rw [decodeCharacter, happend]
  exact ByteArray.utf8DecodeChar?_utf8EncodeChar_append

theorem exists_of_decodeCharacter {bytes : Bytes} {character : Char}
    (hdecoded : decodeCharacter bytes = some character) :
    ∃ rest, bytes = String.utf8EncodeChar character ++ rest := by
  obtain ⟨rest, hrest⟩ := ByteArray.exists_of_utf8DecodeChar?_eq_some hdecoded
  have hdata := congrArg ByteArray.data hrest
  rw [ByteArray.data_append, List.data_toByteArray, List.data_toByteArray] at hdata
  refine ⟨rest.data.toList, ?_⟩
  have hlist := congrArg Array.toList hdata
  rw [Array.toList_append] at hlist
  exact hlist

theorem null_not_mem_lossyCharacters {limit : Nat} {bytes : Bytes} (hbytes : 0 ∉ bytes) :
    Char.ofNat 0 ∉ lossyCharacters limit bytes := by
  induction limit generalizing bytes with
  | zero => exact List.not_mem_nil
  | succ limit ih =>
    cases bytes with
    | nil => exact List.not_mem_nil
    | cons byte rest =>
      have hdrop (count : Nat) : Char.ofNat 0 ∉
          lossyCharacters limit ((byte :: rest).drop count) :=
        ih fun hmem => hbytes (List.mem_of_mem_drop hmem)
      rw [lossyCharacters]
      split
      · rename_i character hdecoded
        obtain ⟨later, hlater⟩ := exists_of_decodeCharacter hdecoded
        refine List.not_mem_cons_of_ne_of_not_mem ?_ (hdrop _)
        rintro rfl
        apply hbytes
        rw [hlater]
        exact List.mem_append_left _ (by decide)
      · refine List.not_mem_cons_of_ne_of_not_mem ?_ (hdrop _)
        decide

theorem mem_utf16Units_ascii {character : Char} {unit : UInt16} (hascii : unit.toNat < 128)
    (hmem : unit ∈ utf16Units character) : character = Char.ofNat unit.toNat := by
  have hsize := character.valid
  rw [UInt32.isValidChar] at hsize
  change character.toNat.isValidChar at hsize
  unfold utf16Units at hmem
  split at hmem
  · rename_i hsmall
    obtain rfl := List.mem_singleton.mp hmem
    rw [UInt16.toNat_ofNat_of_lt' hsmall, Char.ofNat_toNat]
  · rename_i hlarge
    have hbound : character.toNat < 1114112 := by
      obtain hvalid | hvalid := hsize <;> omega
    exfalso
    have hunits : UInt16.size = 65536 := rfl
    obtain rfl | hmem := List.mem_cons.mp hmem
    · rw [UInt16.toNat_ofNat_of_lt' (by omega)] at hascii
      omega
    · obtain rfl := List.mem_singleton.mp hmem
      rw [UInt16.toNat_ofNat_of_lt' (by omega)] at hascii
      omega

theorem pathText_null {bytes : Bytes} (hbytes : 0 ∉ bytes) : 0 ∉ pathText bytes := by
  intro hmem
  obtain ⟨character, hcharacter, hunit⟩ := List.mem_flatMap.mp hmem
  have heq := mem_utf16Units_ascii (by decide) hunit
  rw [heq] at hcharacter
  exact null_not_mem_lossyCharacters hbytes hcharacter

theorem pathText_isAbsolute {bytes : Bytes} (hbytes : bytes.head? = some 47) :
    isAbsolute (pathText bytes) = true := by
  cases bytes with
  | nil => cases hbytes
  | cons byte rest =>
    obtain rfl := Option.some.inj hbytes
    have hdecoded : decodeCharacter (47 :: rest) = some (Char.ofNat 47) :=
      decodeCharacter_append (Char.ofNat 47) rest
    rw [pathText, fromUtf8Lossy, List.length_cons, lossyCharacters, hdecoded]
    rfl

inductive HostError where
  | notFound
  | other
  deriving DecidableEq

structure Metadata where
  directory : Bool
  mode : Nat
  uid : Nat
  gid : Nat
  device : UInt64
  inode : UInt64
  deriving DecidableEq

/-- A canonical path is absolute and has no NUL. -/
abbrev CanonicalPath := { path : Bytes // path.head? = some 47 ∧ 0 ∉ path }

structure Host where
  realpath : Bytes → Except HostError CanonicalPath
  stat : Bytes → Except HostError Metadata

namespace Host

variable (host : Host)

/-- `realpath`, of the control plane. -/
def realpathText (path : JsText) : Except HostError JsText :=
  (host.realpath (pathBytes path)).map fun canonical => pathText canonical.val

/-- `stat`, of the control plane. -/
def statText (path : JsText) : Except HostError Metadata := host.stat (pathBytes path)

theorem realpathText_canonical {path canonical : JsText}
    (hpath : host.realpathText path = .ok canonical) :
    isAbsolute canonical = true ∧ 0 ∉ canonical := by
  unfold realpathText at hpath
  cases hreal : host.realpath (pathBytes path) with
  | error error =>
    rw [hreal] at hpath
    cases hpath
  | ok found =>
    rw [hreal] at hpath
    obtain rfl := Except.ok.inj hpath
    exact ⟨pathText_isAbsolute found.property.1, pathText_null found.property.2⟩

end Host

end KodeGpt.NodePaths
