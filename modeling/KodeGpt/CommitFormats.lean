import KodeGpt.CommitObjects

/-!
The commits that git writes, and which of them are read: what is read of them is what they
say, up to the bounds on their texts.
-/

namespace KodeGpt.CommitFormats

open ListCuts LossyTexts TextEncodings CommitObjects
open JsonText (Bytes)
open FrameCodec (isDigit decimalValue stripPrefix)
open GitStatus (isObjectId)

/-- The longest front of the text, of whole characters, that takes no more bytes. -/
structure IsCut (limit : Nat) (text cut : List Char) : Prop where
  front : cut <+: text
  bound : byteLength cut ≤ limit
  longest : ∀ longer, longer <+: text → byteLength longer ≤ limit → longer <+: cut

section Texts

variable {text front : List Char}

theorem isCharBoundary_iff {index : Nat} :
    isCharBoundary text index = true ↔ ∃ front, front <+: text ∧ byteLength front = index := by
  rw [isCharBoundary, List.any_eq_true]
  simp only [List.mem_inits, decide_eq_true_eq]

theorem floorBoundary_spec (text : List Char) (index : Nat) :
    ∃ front, front <+: text ∧ byteLength front = floorBoundary text index ∧
      byteLength front ≤ index ∧
        ∀ longer, longer <+: text → byteLength longer ≤ index →
          byteLength longer ≤ byteLength front := by
  induction index with
  | zero =>
    exact ⟨[], List.nil_prefix, rfl, Nat.le_refl _, fun _ _ h => h⟩
  | succ index ih =>
    rw [floorBoundary]
    by_cases hboundary : isCharBoundary text (index + 1) = true
    · rw [if_pos hboundary]
      obtain ⟨front, hfront, hlength⟩ := isCharBoundary_iff.mp hboundary
      exact ⟨front, hfront, hlength, Nat.le_of_eq hlength, fun _ _ h => hlength ▸ h⟩
    · rw [if_neg hboundary]
      obtain ⟨front, hfront, hlength, hbound, hlongest⟩ := ih
      refine ⟨front, hfront, hlength, Nat.le_succ_of_le hbound, fun longer hlonger h => ?_⟩
      have hne : byteLength longer ≠ index + 1 := fun heq =>
        hboundary (isCharBoundary_iff.mpr ⟨longer, hlonger, heq⟩)
      exact hlongest longer hlonger (by omega)

theorem upTo_byteLength (h : front <+: text) : upTo text (byteLength front) = front := by
  induction front generalizing text with
  | nil =>
    cases text with
    | nil => rfl
    | cons character rest =>
      rw [upTo, if_neg]
      exact Nat.not_le.mpr character.utf8Size_pos
  | cons character front ih =>
    obtain ⟨rest, rfl⟩ := h
    have hrest := ih (List.prefix_append front rest)
    rw [List.cons_append, upTo, byteLength_cons, if_pos (Nat.le_add_right _ _),
      Nat.add_sub_cancel_left, hrest]

theorem prefix_of_byteLength_le {other : List Char} (hfront : front <+: text)
    (hother : other <+: text) (h : byteLength other ≤ byteLength front) : other <+: front := by
  rcases List.prefix_or_prefix_of_prefix hother hfront with hlonger | hlonger
  · exact hlonger
  · obtain ⟨rest, rfl⟩ := hlonger
    cases rest with
    | nil => rw [List.append_nil]
    | cons character rest =>
      have hsize := character.utf8Size_pos
      rw [byteLength_append, byteLength_cons] at h
      omega

theorem boundedLossyUtf8_isCut (source : Bytes) (maxBytes : Nat) :
    IsCut maxBytes (fromUtf8Lossy source) (boundedLossyUtf8 source maxBytes).1 := by
  rw [boundedLossyUtf8]
  dsimp only
  obtain ⟨front, hfront, hlength, hbound, hlongest⟩ := floorBoundary_spec (fromUtf8Lossy source)
    (min (byteLength (fromUtf8Lossy source)) maxBytes)
  rw [← hlength, upTo_byteLength hfront]
  refine ⟨hfront, by omega, fun longer hlonger h => ?_⟩
  have hwhole : byteLength longer ≤ byteLength (fromUtf8Lossy source) := by
    obtain ⟨rest, hrest⟩ := hlonger
    rw [← hrest, byteLength_append]
    exact Nat.le_add_right _ _
  exact prefix_of_byteLength_le hfront hlonger (hlongest longer hlonger (by omega))

/-- Something has been left out just when the text takes more bytes. -/
theorem IsCut.ne_iff {limit : Nat} {cut : List Char} (h : IsCut limit text cut) :
    cut ≠ text ↔ limit < byteLength text := by
  constructor
  · intro hne
    by_contra hfits
    have hwhole := h.longest text (List.prefix_refl text) (Nat.not_lt.mp hfits)
    exact hne (h.front.eq_of_length_le hwhole.length_le)
  · rintro hlong rfl
    exact absurd h.bound (Nat.not_le.mpr hlong)

end Texts

abbrev Digits := { text : Bytes // text ≠ [] ∧ text.all isDigit = true }

inductive Sign where
  | plus
  | minus
  deriving DecidableEq, Repr

def Sign.byte : Sign → UInt8
  | plus => 43
  | minus => 45

structure Time where
  sign : Option Sign
  digits : Digits

namespace Time

def text (time : Time) : Bytes := (time.sign.map Sign.byte).toList ++ time.digits.val

def value (time : Time) : Int :=
  if time.sign = some .minus then -(decimalValue time.digits.val : Int)
  else decimalValue time.digits.val

def InRange (time : Time) : Prop := -(2 ^ 63) ≤ time.value ∧ time.value < 2 ^ 63

end Time

structure Zone where
  sign : Sign
  digits : Digits

def Zone.text (zone : Zone) : Bytes := zone.sign.byte :: zone.digits.val

/-- Who made a commit, and when. The name and the address are on one line, and there is no
angle bracket that opens in the address. -/
structure Identity where
  name : { text : Bytes // newline ∉ text }
  address : { text : Bytes // newline ∉ text ∧ (60 : UInt8) ∉ text }
  time : Time
  zone : Zone

namespace Identity

def person (identity : Identity) : Bytes :=
  identity.name.val ++ space :: 60 :: (identity.address.val ++ [62])

def text (identity : Identity) : Bytes :=
  (identity.person ++ space :: identity.time.text) ++ space :: identity.zone.text

/-- What the history can read: nothing is empty, the time is one of 64 bits, and the zone has
two digits for the hours and two for the minutes. -/
structure Readable (identity : Identity) : Prop where
  name : identity.name.val ≠ []
  address : identity.address.val ≠ []
  time : identity.time.InRange
  zone : identity.zone.digits.val.length = 4

end Identity

section Identities

theorem isDigit_ne {byte : UInt8} (h : isDigit byte = true) :
    byte ≠ space ∧ byte ≠ newline ∧ byte ≠ 43 ∧ byte ≠ 45 := by
  refine ⟨?_, ?_, ?_, ?_⟩ <;> rintro rfl <;> revert h <;> decide

theorem Digits.notMem (digits : Digits) : space ∉ digits.val ∧ newline ∉ digits.val := by
  have hall := List.all_eq_true.mp digits.property.2
  exact ⟨fun hmem => (isDigit_ne (hall _ hmem)).1 rfl,
    fun hmem => (isDigit_ne (hall _ hmem)).2.1 rfl⟩

theorem Sign.byte_ne (sign : Sign) : space ≠ sign.byte ∧ newline ≠ sign.byte := by
  cases sign <;> decide

theorem Time.notMem (time : Time) : space ∉ time.text ∧ newline ∉ time.text := by
  obtain ⟨sign, digits⟩ := time
  obtain ⟨hspace, hnewline⟩ := digits.notMem
  cases sign with
  | none => exact ⟨hspace, hnewline⟩
  | some sign =>
    exact ⟨List.not_mem_cons_of_ne_of_not_mem sign.byte_ne.1 hspace,
      List.not_mem_cons_of_ne_of_not_mem sign.byte_ne.2 hnewline⟩

theorem Zone.notMem (zone : Zone) : space ∉ zone.text ∧ newline ∉ zone.text :=
  ⟨List.not_mem_cons_of_ne_of_not_mem zone.sign.byte_ne.1 zone.digits.notMem.1,
    List.not_mem_cons_of_ne_of_not_mem zone.sign.byte_ne.2 zone.digits.notMem.2⟩

theorem isTimezone_text (zone : Zone) :
    isTimezone zone.text = decide (zone.digits.val.length = 4) := by
  obtain ⟨sign, digits, hdigits⟩ := zone
  have hsign : (sign.byte = 43 || sign.byte = 45) = true := by cases sign <;> decide
  rw [Zone.text, isTimezone, hsign, hdigits.2, Bool.and_true, Bool.and_true]

theorem magnitude_digits (digits : Digits) :
    magnitude digits.val = some (decimalValue digits.val) := by
  have hempty : digits.val.isEmpty = false :=
    List.isEmpty_eq_false_iff.mpr digits.property.1
  rw [magnitude, hempty, digits.property.2]
  rfl

theorem parseI64_digits (digits : Digits) : parseI64 digits.val =
    if decimalValue digits.val < 2 ^ 63 then some (decimalValue digits.val : Int) else none := by
  have hmagnitude := magnitude_digits digits
  obtain ⟨text, hne, hall⟩ := digits
  obtain ⟨byte, rest, rfl⟩ := List.exists_cons_of_ne_nil hne
  obtain ⟨-, -, hplus, hminus⟩ := isDigit_ne (List.all_eq_true.mp hall byte List.mem_cons_self)
  unfold parseI64
  split
  · rename_i heq
    exact absurd (List.cons.inj heq).1 hminus
  · rename_i heq
    exact absurd (List.cons.inj heq).1 hplus
  · rw [hmagnitude]
    rfl

theorem parseI64_text (time : Time) :
    (time.InRange → parseI64 time.text = some time.value) ∧
      (¬ time.InRange → parseI64 time.text = none) := by
  obtain ⟨sign, digits⟩ := time
  have hmagnitude := magnitude_digits digits
  match sign with
  | none =>
    show (_ → parseI64 digits.val = _) ∧ (_ → parseI64 digits.val = _)
    rw [parseI64_digits]
    simp only [Time.InRange, Time.value, reduceCtorEq, if_false]
    constructor
    · intro h
      rw [if_pos (by omega)]
    · intro h
      rw [if_neg (by omega)]
  | some .plus =>
    show (_ → parseI64 (43 :: digits.val) = _) ∧ (_ → parseI64 (43 :: digits.val) = _)
    rw [parseI64, hmagnitude]
    simp only [Time.InRange, Time.value, Option.some.injEq, reduceCtorEq, if_false]
    constructor
    · intro h
      exact if_pos (by omega)
    · intro h
      exact if_neg (by omega)
  | some .minus =>
    show (_ → parseI64 (45 :: digits.val) = _) ∧ (_ → parseI64 (45 :: digits.val) = _)
    rw [parseI64, hmagnitude]
    simp only [Time.InRange, Time.value, if_true]
    constructor
    · intro h
      exact if_pos (by omega)
    · intro h
      exact if_neg (by omega)

theorem cutLast_person (identity : Identity) : cutLast (ascii " <") identity.person =
    some (identity.name.val, identity.address.val ++ [62]) := by
  have haddress : (60 : UInt8) ∉ identity.address.val ++ [62] := by
    rw [List.mem_append, not_or]
    exact ⟨identity.address.property.2, by decide⟩
  exact cutLast_pair identity.name.val haddress

theorem parseIdentity_eq (identity : Identity) : parseIdentity identity.text =
    if identity.zone.digits.val.length = 4 then
      match parseI64 identity.time.text with
      | some timestamp =>
        if identity.name.val = [] ∨ identity.address.val = [] then .error .gitReadFailed
        else .ok (identity.name.val, timestamp)
      | none => .error .gitReadFailed
    else .error .gitReadFailed := by
  have hzone : cutLast [space] identity.text =
      some (identity.person ++ space :: identity.time.text, identity.zone.text) :=
    cutLast_symbol _ identity.zone.notMem.1
  have htime : cutLast [space] (identity.person ++ space :: identity.time.text) =
      some (identity.person, identity.time.text) := cutLast_symbol _ identity.time.notMem.1
  have hlast : identity.person.getLast? = some 62 := by
    rw [Identity.person, ← List.cons_append, ← List.cons_append, ← List.append_assoc,
      List.getLast?_concat]
  have hemail : (identity.address.val ++ [62]).isEmpty = false := by
    rw [List.isEmpty_eq_false_iff]
    exact List.append_ne_nil_of_right_ne_nil _ (List.cons_ne_nil _ _)
  rw [parseIdentity, hzone]
  dsimp only
  rw [isTimezone_text, htime]
  by_cases hlength : identity.zone.digits.val.length = 4
  · rw [if_pos hlength, decide_eq_true hlength]
    dsimp only
    rw [cutLast_person]
    cases parseI64 identity.time.text with
    | none => rfl
    | some timestamp =>
      dsimp only
      rw [hlast, hemail, List.dropLast_concat]
      simp only [Bool.not_true, Bool.false_eq_true, if_false, ne_eq, not_true_eq_false,
        decide_false, Bool.or_self, Bool.or_eq_true, List.isEmpty_iff]
  · rw [if_neg hlength, decide_eq_false hlength]
    rfl

theorem parseIdentity_text (identity : Identity) :
    (identity.Readable → parseIdentity identity.text =
        .ok (identity.name.val, identity.time.value)) ∧
      (¬ identity.Readable → parseIdentity identity.text = .error .gitReadFailed) := by
  obtain ⟨hin, hout⟩ := parseI64_text identity.time
  rw [parseIdentity_eq]
  constructor
  · rintro ⟨hname, haddress, htime, hzone⟩
    rw [if_pos hzone, hin htime]
    dsimp only
    rw [if_neg (not_or.mpr ⟨hname, haddress⟩)]
  · intro hunreadable
    by_cases hzone : identity.zone.digits.val.length = 4
    · rw [if_pos hzone]
      by_cases htime : identity.time.InRange
      · have hempty : identity.name.val = [] ∨ identity.address.val = [] := by
          by_contra hne
          obtain ⟨hname, haddress⟩ := not_or.mp hne
          exact hunreadable ⟨hname, haddress, htime, hzone⟩
        rw [hin htime]
        dsimp only
        rw [if_pos hempty]
      · rw [hout htime]
    · rw [if_neg hzone]

end Identities

abbrev Oid := { text : Bytes // isObjectId text = true }

/-- What stands on one line. -/
abbrev LineText := { text : Bytes // newline ∉ text }

def standardKeys : List Bytes :=
  [ascii "tree", ascii "parent", ascii "author", ascii "committer"]

/-- A header of another kind, which may be continued over lines. -/
structure ExtraHeader where
  key : { text : Bytes // text ≠ [] ∧ space ∉ text ∧ newline ∉ text ∧ text ∉ standardKeys }
  value : LineText
  continuation : List LineText

def ExtraHeader.lines (header : ExtraHeader) : List Bytes :=
  (header.key.val ++ space :: header.value.val) ::
    header.continuation.map fun line => space :: line.val

structure CommitObject where
  tree : Oid
  parents : List Oid
  author : Identity
  committer : Identity
  extraHeaders : List ExtraHeader
  message : Bytes

namespace CommitObject

def lines (commit : CommitObject) : List Bytes :=
  (ascii "tree " ++ commit.tree.val) ::
    (commit.parents.map fun parent => ascii "parent " ++ parent.val) ++
    [ascii "author " ++ commit.author.text, ascii "committer " ++ commit.committer.text] ++
    commit.extraHeaders.flatMap ExtraHeader.lines

def headers (commit : CommitObject) : Bytes :=
  commit.lines.flatMap (· ++ [newline]) ++ [newline]

def raw (commit : CommitObject) : Bytes := commit.headers ++ commit.message

def subject (commit : CommitObject) : Bytes := commit.message.takeWhile (· ≠ newline)

def body (commit : CommitObject) : Bytes :=
  match (commit.message.dropWhile (· ≠ newline)).drop 1 with
  | 10 :: rest => rest
  | rest => rest

structure Readable (commit : CommitObject) : Prop where
  author : commit.author.Readable
  committer : commit.committer.Readable
  headers : commit.headers.length ≤ commitObjectMaxBytes

end CommitObject

section Folds

variable {σ ε α : Type} {f : σ → α → Except ε σ} {s t : σ}

theorem foldlM_cons_ok {value : α} (h : f s value = .ok t) (rest : List α) :
    (value :: rest).foldlM f s = rest.foldlM f t := by
  rw [List.foldlM_cons, h]
  rfl

theorem foldlM_cons_error {value : α} {error : ε} (h : f s value = .error error)
    (rest : List α) : (value :: rest).foldlM f s = .error error := by
  rw [List.foldlM_cons, h]
  rfl

theorem foldlM_append_ok {front : List α} (h : front.foldlM f s = .ok t) (back : List α) :
    (front ++ back).foldlM f s = back.foldlM f t := by
  rw [List.foldlM_append, h]
  rfl

end Folds

section Headers

variable {headers : Headers}

theorem stripPrefix_append (front rest : Bytes) :
    stripPrefix front (front ++ rest) = some rest := by
  rw [stripPrefix, if_pos (List.isPrefixOf_iff_prefix.mpr (List.prefix_append front rest)),
    List.drop_left]

theorem readHeader_tree (tree : Oid) : readHeader .start (ascii "tree " ++ tree.val) =
    .ok ⟨true, [], none, none, false⟩ := by
  have hvalid : validOidBytes tree.val = true := tree.property
  have hhead : (ascii "tree " ++ tree.val).head? ≠ some space := by
    show some (116 : UInt8) ≠ some space
    decide
  rw [readHeader, if_neg hhead]
  dsimp only
  rw [stripPrefix_append]
  dsimp only
  rw [hvalid]
  rfl

theorem readHeader_parent (parent : Oid) (treeSeen : Bool) (parents : List Bytes) :
    readHeader ⟨treeSeen, parents, none, none, false⟩ (ascii "parent " ++ parent.val) =
      .ok ⟨treeSeen, parents ++ [parent.val], none, none, false⟩ := by
  have hvalid : validOidBytes parent.val = true := parent.property
  have hhead : (ascii "parent " ++ parent.val).head? ≠ some space := by
    show some (112 : UInt8) ≠ some space
    decide
  have htree : stripPrefix (ascii "tree ") (ascii "parent " ++ parent.val) = none := rfl
  rw [readHeader, if_neg hhead]
  dsimp only
  rw [htree, stripPrefix_append]
  dsimp only
  rw [hvalid]
  rfl

theorem readHeader_author (identity : Identity) (treeSeen : Bool) (parents : List Bytes) :
    readHeader ⟨treeSeen, parents, none, none, false⟩ (ascii "author " ++ identity.text) =
      (parseIdentity identity.text).map fun author =>
        ⟨treeSeen, parents, some author, none, false⟩ := by
  have hhead : (ascii "author " ++ identity.text).head? ≠ some space := by
    show some (97 : UInt8) ≠ some space
    decide
  have htree : stripPrefix (ascii "tree ") (ascii "author " ++ identity.text) = none := rfl
  have hparent : stripPrefix (ascii "parent ") (ascii "author " ++ identity.text) = none := rfl
  rw [readHeader, if_neg hhead]
  dsimp only
  rw [htree, hparent, stripPrefix_append]
  rfl

theorem readHeader_committer (identity : Identity) (treeSeen : Bool) (parents : List Bytes)
    (author : Bytes × Int) :
    readHeader ⟨treeSeen, parents, some author, none, false⟩
        (ascii "committer " ++ identity.text) =
      (parseIdentity identity.text).map fun committer =>
        ⟨treeSeen, parents, some author, some committer.2, false⟩ := by
  have hhead : (ascii "committer " ++ identity.text).head? ≠ some space := by
    show some (99 : UInt8) ≠ some space
    decide
  have htree : stripPrefix (ascii "tree ") (ascii "committer " ++ identity.text) = none := rfl
  have hparent : stripPrefix (ascii "parent ") (ascii "committer " ++ identity.text) = none := rfl
  have hauthor : stripPrefix (ascii "author ") (ascii "committer " ++ identity.text) = none := rfl
  rw [readHeader, if_neg hhead]
  dsimp only
  rw [htree, hparent, hauthor, stripPrefix_append]
  rfl

theorem stripPrefix_key {word key : Bytes} (hword : space ∉ word) (hkey : space ∉ key)
    (hne : key ≠ word) (value : Bytes) :
    stripPrefix (word ++ [space]) (key ++ space :: value) = none := by
  rw [stripPrefix, if_neg]
  intro hoccurs
  obtain ⟨rest, hrest⟩ := List.isPrefixOf_iff_prefix.mp hoccurs
  rw [List.append_assoc, List.singleton_append] at hrest
  have hspan := congrArg (fun text => (text.span (· ≠ space)).1) hrest
  rw [span_append_cons hword, span_append_cons hkey] at hspan
  exact hne hspan.symm

theorem readHeader_extra (header : ExtraHeader) (headers : Headers) :
    readHeader headers (header.key.val ++ space :: header.value.val) =
      .ok { headers with continuationAllowed := true } := by
  obtain ⟨hne, hspace, -, hkeys⟩ := header.key.property
  simp only [standardKeys, List.mem_cons, List.not_mem_nil, or_false, not_or] at hkeys
  obtain ⟨htree, hparent, hauthor, hcommitter⟩ := hkeys
  have hstrip : ∀ word : String, space ∉ ascii word → header.key.val ≠ ascii word →
      stripPrefix (ascii word ++ [space]) (header.key.val ++ space :: header.value.val) = none :=
    fun word hword hkey => stripPrefix_key hword hspace hkey header.value.val
  have hhead : (header.key.val ++ space :: header.value.val).head? ≠ some space := by
    rw [List.head?_append_of_ne_nil _ hne]
    exact fun hfirst => hspace (List.mem_of_head? hfirst)
  have hempty : (header.key.val ++ space :: header.value.val).isEmpty = false :=
    List.isEmpty_eq_false_iff.mpr (List.append_ne_nil_of_left_ne_nil hne _)
  have hcontains : (header.key.val ++ space :: header.value.val).contains space = true := by
    rw [List.contains_iff_mem]
    exact List.mem_append_right _ List.mem_cons_self
  rw [readHeader, if_neg hhead]
  dsimp only
  rw [show ascii "tree " = ascii "tree" ++ [space] from rfl, hstrip "tree" (by decide) htree]
  dsimp only
  rw [show ascii "parent " = ascii "parent" ++ [space] from rfl,
    hstrip "parent" (by decide) hparent]
  dsimp only
  rw [show ascii "author " = ascii "author" ++ [space] from rfl,
    hstrip "author" (by decide) hauthor]
  dsimp only
  rw [show ascii "committer " = ascii "committer" ++ [space] from rfl,
    hstrip "committer" (by decide) hcommitter]
  dsimp only
  rw [hempty, hcontains]
  rfl

theorem readHeader_continuation (line : LineText) (h : headers.continuationAllowed = true) :
    readHeader headers (space :: line.val) = .ok headers := by
  rw [readHeader, if_pos List.head?_cons, if_pos h]

theorem foldlM_parents (parents : List Oid) (treeSeen : Bool) (found : List Bytes) :
    (parents.map fun parent => ascii "parent " ++ parent.val).foldlM readHeader
      ⟨treeSeen, found, none, none, false⟩ =
        .ok ⟨treeSeen, found ++ parents.map Subtype.val, none, none, false⟩ := by
  induction parents generalizing found with
  | nil =>
    rw [List.map_nil, List.map_nil, List.append_nil]
    rfl
  | cons parent parents ih =>
    rw [List.map_cons, foldlM_cons_ok (readHeader_parent parent treeSeen found), ih,
      List.map_cons, List.append_assoc, List.singleton_append]

theorem foldlM_continuation (lines : List LineText) (h : headers.continuationAllowed = true) :
    (lines.map fun line => space :: line.val).foldlM readHeader headers = .ok headers := by
  induction lines with
  | nil => rfl
  | cons line lines ih =>
    rw [List.map_cons, foldlM_cons_ok (readHeader_continuation line h), ih]

theorem foldlM_extraHeaders (extraHeaders : List ExtraHeader) (headers : Headers) :
    ∃ allowed, (extraHeaders.flatMap ExtraHeader.lines).foldlM readHeader headers =
      .ok { headers with continuationAllowed := allowed } := by
  induction extraHeaders generalizing headers with
  | nil => exact ⟨headers.continuationAllowed, rfl⟩
  | cons header rest ih =>
    obtain ⟨allowed, hrest⟩ := ih { headers with continuationAllowed := true }
    refine ⟨allowed, ?_⟩
    have hcontinuation := @foldlM_continuation { headers with continuationAllowed := true }
      header.continuation rfl
    rw [List.flatMap_cons, ExtraHeader.lines, List.cons_append,
      foldlM_cons_ok (readHeader_extra header headers), foldlM_append_ok hcontinuation, hrest]

end Headers

section Commits

variable {commit : CommitObject}

theorem foldlM_before (commit : CommitObject) (later : List Bytes) :
    ((ascii "tree " ++ commit.tree.val) ::
      (commit.parents.map fun parent => ascii "parent " ++ parent.val) ++ later).foldlM
        readHeader .start =
      later.foldlM readHeader ⟨true, commit.parents.map Subtype.val, none, none, false⟩ := by
  have hparents := foldlM_parents commit.parents true []
  rw [List.nil_append] at hparents
  rw [List.cons_append, foldlM_cons_ok (readHeader_tree commit.tree), foldlM_append_ok hparents]

theorem foldlM_lines (hauthor : commit.author.Readable) (hcommitter : commit.committer.Readable) :
    ∃ allowed, commit.lines.foldlM readHeader .start =
      .ok ⟨true, commit.parents.map Subtype.val,
        some (commit.author.name.val, commit.author.time.value),
        some commit.committer.time.value, allowed⟩ := by
  obtain ⟨allowed, hextra⟩ := foldlM_extraHeaders commit.extraHeaders
    ⟨true, commit.parents.map Subtype.val,
      some (commit.author.name.val, commit.author.time.value),
      some commit.committer.time.value, false⟩
  refine ⟨allowed, ?_⟩
  have hreadAuthor := readHeader_author commit.author true (commit.parents.map Subtype.val)
  have hreadCommitter := readHeader_committer commit.committer true
    (commit.parents.map Subtype.val) (commit.author.name.val, commit.author.time.value)
  rw [(parseIdentity_text commit.author).1 hauthor] at hreadAuthor
  rw [(parseIdentity_text commit.committer).1 hcommitter] at hreadCommitter
  rw [CommitObject.lines, List.append_assoc, foldlM_before, List.cons_append,
    foldlM_cons_ok hreadAuthor, List.singleton_append, foldlM_cons_ok hreadCommitter, hextra]

theorem foldlM_lines_error (h : ¬ (commit.author.Readable ∧ commit.committer.Readable)) :
    commit.lines.foldlM readHeader .start = .error .gitReadFailed := by
  have hreadAuthor := readHeader_author commit.author true (commit.parents.map Subtype.val)
  rw [CommitObject.lines, List.append_assoc, foldlM_before, List.cons_append]
  by_cases hauthor : commit.author.Readable
  · have hcommitter : ¬ commit.committer.Readable := fun hcommitter => h ⟨hauthor, hcommitter⟩
    have hreadCommitter := readHeader_committer commit.committer true
      (commit.parents.map Subtype.val) (commit.author.name.val, commit.author.time.value)
    rw [(parseIdentity_text commit.author).1 hauthor] at hreadAuthor
    rw [(parseIdentity_text commit.committer).2 hcommitter] at hreadCommitter
    rw [foldlM_cons_ok hreadAuthor, List.singleton_append, foldlM_cons_error hreadCommitter]
  · rw [(parseIdentity_text commit.author).2 hauthor] at hreadAuthor
    rw [foldlM_cons_error hreadAuthor]

theorem newline_notMem_oid (oid : Oid) : newline ∉ oid.val := by
  intro hmem
  have hhex := List.all_eq_true.mp (Bool.and_eq_true_iff.mp oid.property).2 newline hmem
  revert hhex
  decide

theorem newline_notMem_identity (identity : Identity) : newline ∉ identity.text := by
  have hname := identity.name.property
  have haddress := identity.address.property.1
  have htime := identity.time.notMem.2
  have hzone := identity.zone.notMem.2
  have hspace : newline ≠ space := by decide
  simp only [Identity.text, Identity.person, List.mem_append, List.mem_cons, List.not_mem_nil,
    not_or, or_false]
  exact ⟨⟨⟨hname, hspace, by decide, haddress, by decide⟩, hspace, htime⟩, hspace, hzone⟩

theorem ExtraHeader.lines_spec (header : ExtraHeader) :
    ∀ line ∈ header.lines, line ≠ [] ∧ newline ∉ line := by
  obtain ⟨hne, -, hkey, -⟩ := header.key.property
  have hspace : newline ≠ space := by decide
  refine List.forall_mem_cons.mpr ⟨⟨List.append_ne_nil_of_left_ne_nil hne _, ?_⟩, ?_⟩
  · rw [List.mem_append, List.mem_cons, not_or, not_or]
    exact ⟨hkey, hspace, header.value.property⟩
  · rintro line hline
    obtain ⟨text, -, rfl⟩ := List.mem_map.mp hline
    exact ⟨List.cons_ne_nil _ _,
      List.not_mem_cons_of_ne_of_not_mem hspace text.property⟩

theorem CommitObject.lines_spec (commit : CommitObject) :
    ∀ line ∈ commit.lines, line ≠ [] ∧ newline ∉ line := by
  have hkeyed : ∀ (word : String) (text : Bytes), ascii word ≠ [] → newline ∉ ascii word →
      newline ∉ text → ascii word ++ text ≠ [] ∧ newline ∉ ascii word ++ text := by
    intro word text hne hword htext
    refine ⟨List.append_ne_nil_of_left_ne_nil hne _, ?_⟩
    rw [List.mem_append, not_or]
    exact ⟨hword, htext⟩
  rw [CommitObject.lines]
  refine List.forall_mem_append.mpr ⟨List.forall_mem_append.mpr
    ⟨List.forall_mem_cons.mpr ⟨?_, ?_⟩, List.forall_mem_cons.mpr ⟨?_,
      List.forall_mem_singleton.mpr ?_⟩⟩, ?_⟩
  · exact hkeyed "tree " _ (by decide) (by decide) (newline_notMem_oid commit.tree)
  · intro line hline
    obtain ⟨parent, -, rfl⟩ := List.mem_map.mp hline
    exact hkeyed "parent " _ (by decide) (by decide) (newline_notMem_oid parent)
  · exact hkeyed "author " _ (by decide) (by decide) (newline_notMem_identity commit.author)
  · exact hkeyed "committer " _ (by decide) (by decide)
      (newline_notMem_identity commit.committer)
  · intro line hline
    obtain ⟨header, -, hline⟩ := List.mem_flatMap.mp hline
    exact header.lines_spec line hline

theorem CommitObject.lines_ne_nil (commit : CommitObject) : commit.lines ≠ [] := nofun

theorem cutFirst_raw (commit : CommitObject) : cutFirst [newline, newline] commit.raw =
    some ([newline].intercalate commit.lines, commit.message) := by
  rw [CommitObject.raw, CommitObject.headers, List.append_assoc, List.singleton_append]
  exact cutFirst_lines commit.lines_ne_nil commit.lines_spec commit.message

theorem length_intercalate (commit : CommitObject) :
    ([newline].intercalate commit.lines).length + 2 = commit.headers.length := by
  rw [CommitObject.headers, flatMap_eq_intercalate newline commit.lines_ne_nil]
  simp

theorem splitOn_intercalate (commit : CommitObject) :
    ([newline].intercalate commit.lines).splitOn newline = commit.lines :=
  List.splitOn_intercalate newline (fun line hline => (commit.lines_spec line hline).2)
    commit.lines_ne_nil

end Commits

def GitCommitDetail.summary (detail : GitCommitDetail) (encodingLossy : Bool) :
    GitCommitSummary where
  oid := detail.oid
  shortOid := detail.shortOid
  parents := detail.parents
  authorName := detail.authorName
  authorTime := detail.authorTime
  committerTime := detail.committerTime
  subject := detail.subject
  encodingLossy := encodingLossy

structure Describes (commit : CommitObject) (oid : Bytes) (summary : GitCommitSummary)
    (detail : GitCommitDetail) : Prop where
  ofOid : summary.oid = oid
  shortOid : summary.shortOid = oid.take 12
  parents : summary.parents = commit.parents.map Subtype.val
  authorName : IsCut authorNameMaxBytes (fromUtf8Lossy commit.author.name.val) summary.authorName
  authorTime : summary.authorTime = commit.author.time.value
  committerTime : summary.committerTime = commit.committer.time.value
  subject : IsCut subjectMaxBytes (fromUtf8Lossy commit.subject) summary.subject
  sameSummary : GitCommitDetail.summary detail summary.encodingLossy = summary
  body : IsCut messageBodyMaxBytes (fromUtf8Lossy commit.body) detail.body
  messageTruncated : detail.messageTruncated = true ↔ detail.body ≠ fromUtf8Lossy commit.body

section Reading

variable {commit : CommitObject} {oid : Bytes}

theorem splitOn_headD (message : Bytes) :
    (message.splitOn newline).headD [] = message.takeWhile (· ≠ newline) := by
  by_cases hmem : newline ∈ message
  · obtain ⟨front, rest, rfl, hfront⟩ := List.eq_append_cons_of_mem hmem
    have hspan := span_append_cons hfront rest
    rw [List.span_eq_takeWhile_dropWhile] at hspan
    rw [List.splitOn_append_cons_self_of_not_mem hfront, (Prod.mk.inj hspan).1]
    rfl
  · have hall : ∀ byte ∈ message, decide (byte ≠ newline) = true := by
      intro byte hbyte
      refine decide_eq_true ?_
      rintro rfl
      exact hmem hbyte
    have hwhole := @List.takeWhile_append_of_pos _ _ message [] hall
    rw [List.takeWhile_nil, List.append_nil] at hwhole
    rw [List.splitOn_eq_singleton hmem, hwhole]
    rfl

theorem drop_bodyStart (message : Bytes) :
    message.drop (bodyStart message) = (message.dropWhile (· ≠ newline)).drop 1 := by
  unfold bodyStart
  induction message with
  | nil => rfl
  | cons byte rest ih =>
    rw [List.findIdx?_cons]
    by_cases hbyte : byte = newline
    · rw [if_pos (decide_eq_true hbyte), List.dropWhile_cons_of_neg (by simp [hbyte])]
    · rw [if_neg (by simp [hbyte]), List.dropWhile_cons_of_pos (by simp [hbyte]), ← ih]
      cases rest.findIdx? (· = newline) <;> rfl

theorem body_eq (commit : CommitObject) :
    (let rest := (commit.message.dropWhile (· ≠ newline)).drop 1
      if rest.head? = some newline then rest.drop 1 else rest) = commit.body := by
  rw [CommitObject.body]
  generalize (commit.message.dropWhile (· ≠ newline)).drop 1 = rest
  cases rest with
  | nil => rfl
  | cons byte rest =>
    dsimp only
    by_cases hbyte : byte = newline
    · rw [hbyte, if_pos List.head?_cons]
      rfl
    · have hhead : ¬ (byte :: rest).head? = some newline :=
        fun hhead => hbyte (Option.some.inj hhead)
      rw [if_neg hhead]
      split
      · rename_i heq
        exact absurd (List.cons.inj heq).1 hbyte
      · rfl

/-- The body is longer than the bound just when its decoded text is. -/
theorem messageTruncated_iff (body : Bytes) :
    (decide (messageBodyMaxBytes < body.length) ||
      decide (messageBodyMaxBytes < byteLength (fromUtf8Lossy body))) = true ↔
        (boundedLossyUtf8 body messageBodyMaxBytes).1 ≠ fromUtf8Lossy body := by
  rw [(boundedLossyUtf8_isCut body messageBodyMaxBytes).ne_iff, Bool.or_eq_true,
    decide_eq_true_eq, decide_eq_true_eq, byteLength_fromUtf8Lossy]
  omega

theorem parseCommitObject_headers (hoid : validFullOid oid = true)
    (hheaders : commit.headers.length ≤ commitObjectMaxBytes) :
    parseCommitObject oid commit.raw = (commit.lines.foldlM readHeader .start).bind fun headers =>
      match headers.author, headers.committerTime, headers.treeSeen with
      | some (authorNameBytes, authorTime), some committerTime, true =>
        .ok
          { oid := oid
            shortOid := oid.take 12
            parents := headers.parents
            authorName := (boundedLossyUtf8 authorNameBytes authorNameMaxBytes).1
            authorTime := authorTime
            committerTime := committerTime
            subject := (boundedLossyUtf8 commit.subject subjectMaxBytes).1
            encodingLossy := (boundedLossyUtf8 authorNameBytes authorNameMaxBytes).2 ||
              (boundedLossyUtf8 commit.subject subjectMaxBytes).2 }
      | _, _, _ => .error .gitReadFailed := by
  rw [parseCommitObject, hoid, cutFirst_raw]
  dsimp only
  rw [length_intercalate, if_neg (Nat.not_lt.mpr hheaders), splitOn_intercalate, splitOn_headD]
  rfl

theorem parseCommitObject_long (hoid : validFullOid oid = true)
    (hheaders : commitObjectMaxBytes < commit.headers.length) :
    parseCommitObject oid commit.raw = .error .outputLimitExceeded := by
  rw [parseCommitObject, hoid, cutFirst_raw]
  dsimp only
  rw [length_intercalate, if_pos hheaders]
  rfl

theorem parseCommitDetail_error {error : GitHistoryError}
    (h : parseCommitObject oid commit.raw = .error error) :
    parseCommitDetail oid commit.raw = .error error := by
  rw [parseCommitDetail, h]
  rfl

def readSummary (commit : CommitObject) (oid : Bytes) : GitCommitSummary where
  oid := oid
  shortOid := oid.take 12
  parents := commit.parents.map Subtype.val
  authorName := (boundedLossyUtf8 commit.author.name.val authorNameMaxBytes).1
  authorTime := commit.author.time.value
  committerTime := commit.committer.time.value
  subject := (boundedLossyUtf8 commit.subject subjectMaxBytes).1
  encodingLossy := (boundedLossyUtf8 commit.author.name.val authorNameMaxBytes).2 ||
    (boundedLossyUtf8 commit.subject subjectMaxBytes).2

def readDetail (commit : CommitObject) (summary : GitCommitSummary) : GitCommitDetail where
  oid := summary.oid
  shortOid := summary.shortOid
  parents := summary.parents
  authorName := summary.authorName
  authorTime := summary.authorTime
  committerTime := summary.committerTime
  subject := summary.subject
  body := (boundedLossyUtf8 commit.body messageBodyMaxBytes).1
  messageTruncated := messageBodyMaxBytes < commit.body.length ||
    messageBodyMaxBytes < byteLength (fromUtf8Lossy commit.body)
  encodingLossy := summary.encodingLossy || (boundedLossyUtf8 commit.body messageBodyMaxBytes).2

theorem parseCommitDetail_ok {summary : GitCommitSummary}
    (h : parseCommitObject oid commit.raw = .ok summary) :
    parseCommitDetail oid commit.raw = .ok (readDetail commit summary) := by
  have hbody := body_eq commit
  dsimp only at hbody
  rw [parseCommitDetail, h, cutFirst_raw]
  dsimp only [bind, Except.bind]
  rw [drop_bodyStart, hbody]
  rfl

theorem readSummary_describes (commit : CommitObject) (oid : Bytes) :
    Describes commit oid (readSummary commit oid)
      (readDetail commit (readSummary commit oid)) where
  ofOid := rfl
  shortOid := rfl
  parents := rfl
  authorName := boundedLossyUtf8_isCut _ _
  authorTime := rfl
  committerTime := rfl
  subject := boundedLossyUtf8_isCut _ _
  sameSummary := rfl
  body := boundedLossyUtf8_isCut _ _
  messageTruncated := messageTruncated_iff commit.body

theorem parseCommitObject_readable (hoid : validFullOid oid = true) (h : commit.Readable) :
    parseCommitObject oid commit.raw = .ok (readSummary commit oid) := by
  obtain ⟨allowed, hlines⟩ := foldlM_lines h.author h.committer
  rw [parseCommitObject_headers hoid h.headers, hlines]
  rfl

theorem parseCommitObject_unreadable (hoid : validFullOid oid = true) (h : ¬ commit.Readable) :
    ∃ error, parseCommitObject oid commit.raw = .error error := by
  by_cases hheaders : commit.headers.length ≤ commitObjectMaxBytes
  · have hidentities : ¬ (commit.author.Readable ∧ commit.committer.Readable) :=
      fun hboth => h ⟨hboth.1, hboth.2, hheaders⟩
    rw [parseCommitObject_headers hoid hheaders, foldlM_lines_error hidentities]
    exact ⟨_, rfl⟩
  · exact ⟨_, parseCommitObject_long hoid (Nat.not_le.mp hheaders)⟩

/-- The commit is read, and described by what is returned. -/
def IsRead (commit : CommitObject) (oid : Bytes) : Prop :=
  ∃ summary detail, parseCommitObject oid commit.raw = .ok summary ∧
    parseCommitDetail oid commit.raw = .ok detail ∧ Describes commit oid summary detail

/-- A commit that git writes is read when it is readable: then what is returned describes it,
up to the bounds on its texts. Otherwise it is refused. -/
theorem parseCommit_readable_or_refused (hoid : validFullOid oid = true) :
    (commit.Readable → IsRead commit oid) ∧
      (¬ commit.Readable → ∃ error, parseCommitObject oid commit.raw = .error error ∧
        parseCommitDetail oid commit.raw = .error error) := by
  constructor
  · intro h
    have hsummary := parseCommitObject_readable hoid h
    exact ⟨_, _, hsummary, parseCommitDetail_ok hsummary, readSummary_describes commit oid⟩
  · intro h
    obtain ⟨error, herror⟩ := parseCommitObject_unreadable hoid h
    exact ⟨error, herror, parseCommitDetail_error herror⟩

end Reading

def someOid : Oid := ⟨List.replicate 40 97, by decide⟩

def zero : Digits := ⟨[48], by decide⟩

def utc : Zone := ⟨.plus, [48, 48, 48, 48], by decide⟩

/-- The name is `A`. -/
def identityAt (address : { text : Bytes // newline ∉ text ∧ (60 : UInt8) ∉ text }) : Identity :=
  ⟨⟨[65], by decide⟩, address, ⟨none, zero⟩, utc⟩

def commitAt (address : { text : Bytes // newline ∉ text ∧ (60 : UInt8) ∉ text }) :
    CommitObject :=
  ⟨someOid, [], identityAt address, identityAt address, [], [109]⟩

theorem emptyAddress_not_read : ¬ ∀ (commit : CommitObject) (oid : Bytes),
    validFullOid oid = true → IsRead commit oid := by
  intro h
  obtain ⟨summary, -, hsummary, -⟩ := h (commitAt ⟨[], by decide⟩) someOid.val someOid.property
  have hunreadable : ¬ (commitAt ⟨[], by decide⟩).Readable := fun hreadable =>
    hreadable.author.address rfl
  obtain ⟨error, herror⟩ := parseCommitObject_unreadable someOid.property hunreadable
  cases hsummary.symm.trans herror

theorem identityAt_readable : (identityAt ⟨[98], by decide⟩).Readable where
  name := by decide
  address := by decide
  time := ⟨by decide, by decide⟩
  zone := rfl

theorem address_isRead : IsRead (commitAt ⟨[98], by decide⟩) someOid.val :=
  (parseCommit_readable_or_refused someOid.property).1
    ⟨identityAt_readable, identityAt_readable, by decide⟩

end KodeGpt.CommitFormats
