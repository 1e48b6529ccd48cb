import KodeGpt.RedirectedRequests
import KodeGpt.RequestPaths

/-!
What a compiled request is to be, and exactly when it is: its path has the template's
segments, its query the pairs that are given, and a redirection does not see the credential.
-/

namespace KodeGpt.ExactRequests

open FallibleActions JsFrames JsObjects ListCuts NodePaths TextEncodings PercentTexts UrlReferences
open CompiledRequests RequestPaths
open RedirectedRequests (RedirectsBare redirectsBare)

def givenParameters (encoded : JsValue) : Members := ownMembers (pathParameters encoded)

def entryTexts (entry : JsText × JsValue) : List (JsText × JsText) :=
  match entry.2 with
  | .array items => items.map fun item => (entry.1, scalarText item)
  | value => [(entry.1, scalarText value)]

def givenQuery (encoded : JsValue) : List (JsText × JsText) :=
  (ownMembers (query encoded)).flatMap entryTexts

def formText (pair : FormPair) : JsText × JsText := (encodeUtf16 pair.1, encodeUtf16 pair.2)

/-- The origin is the operation's; the path has the template's segments, in which the values
stand; the query is the list of pairs that is given. -/
structure IsExact (operation : Operation) (encoded : JsValue) (request : Request) : Prop where
  origin : Url.originText request.url = operation.origin.text
  path : List.Forall₂ (Fits (givenParameters encoded)) (templateSegments operation.pathTemplate)
    (request.url.pathname.splitOn slash)
  query : (formParse (request.url.query.getD [])).map formText = givenQuery encoded

/-- The template is made of what a path keeps as it is; with the values in it, no segment is
a dot segment, and the path does not begin with two slashes. -/
structure PlainTemplate (template : JsText) (parameters : Members) : Prop where
  units : ∀ value, Piece.unit value ∈ pieces template → value = slash ∨ isSegmentUnit value = true
  dots : ∀ segment ∈ templateSegments template, isDotSegment (filled parameters segment) = false
  authority : ¬[slash, slash] <+: filled parameters (pieces template)

section Paths

variable {template path : JsText} {parameters : Members}

theorem mem_of_fits {segment : List Piece} {text : JsText} (h : Fits parameters segment text)
    {value : UInt16} (hvalue : Piece.unit value ∈ segment) : value ∈ text := by
  induction h with
  | nil => exact nomatch hvalue
  | unit h ih =>
    obtain heq | hlater := List.mem_cons.mp hvalue
    · cases heq
      exact List.mem_cons_self
    · exact List.mem_cons_of_mem _ (ih hlater)
  | parameter hwritten h ih =>
    obtain heq | hlater := List.mem_cons.mp hvalue
    · cases heq
    · exact List.mem_append_right _ (ih hlater)

theorem pathBytes_eq_nil {text : JsText} (h : pathBytes text = []) : text = [] := by
  cases text with
  | nil => rfl
  | cons unit rest =>
    obtain ⟨character, later, hcharacters⟩ : ∃ character later,
        lossyString (unit :: rest) = character :: later := by
      cases rest with
      | nil => exact ⟨_, [], rfl⟩
      | cons next rest =>
        rw [lossyString]
        split
        · exact ⟨_, _, rfl⟩
        · exact ⟨_, _, rfl⟩
    rw [pathBytes, hcharacters, encodeUtf8, List.flatMap_cons, List.append_eq_nil_iff] at h
    exact absurd h.1 (by simp [String.utf8EncodeChar_ne_nil])

theorem filled_of_fits_nil {segment : List Piece} (h : Fits parameters segment []) :
    filled parameters segment = [] := by
  generalize htext : ([] : JsText) = text at h
  induction h with
  | nil => rfl
  | unit h ih => cases htext
  | @parameter name written rest segment hvalue h ih =>
    obtain ⟨rfl, rfl⟩ := List.append_eq_nil_iff.mp htext.symm
    have hempty : textOf parameters name = [] := pathBytes_eq_nil hvalue.symm
    have hfill : fill parameters (.parameter name) = [] := by
      rw [fill, hempty, encodeURIComponent_nil]
      rfl
    rw [filled, List.flatMap_cons, hfill, List.nil_append]
    exact ih rfl

theorem fits_filled {segment : List Piece}
    (h : ∀ name, Piece.parameter name ∈ segment → HasText parameters name) :
    Fits parameters segment (filled parameters segment) := by
  induction segment with
  | nil => exact .nil
  | cons piece rest ih =>
    have hrest := ih fun name hname => h name (List.mem_cons_of_mem _ hname)
    cases piece with
    | unit value => exact .unit hrest
    | parameter name =>
      have hvalue := decodedBytes_encodeURIComponent (h name List.mem_cons_self).fill
      exact .parameter hvalue hrest

theorem fill_segmentUnits (parameters : Members) (name : JsText) :
    SegmentUnits (fill parameters (.parameter name)) := by
  have hcheck : (List.range 128).all (fun code =>
      !isEncodedUnit isUriPlain code.toUInt16 || isSegmentUnit code.toUInt16) = true := by
    decide
  intro unit hunit
  rw [fill] at hunit
  cases hencoded : encodeURIComponent (textOf parameters name) with
  | none =>
    rw [hencoded] at hunit
    cases hunit
  | some encoded =>
    rw [hencoded, Option.getD_some] at hunit
    obtain ⟨text, -, rfl⟩ := Option.map_eq_some_iff.mp hencoded
    have hmem := mem_percentEncode plainSet_uri hunit
    have hall := List.all_eq_true.mp hcheck unit.toNat
      (List.mem_range.mpr (isEncodedUnit_ascii hmem))
    have hback : unit.toNat.toUInt16 = unit := by
      rw [← UInt16.toNat_inj, Nat.toUInt16, UInt16.toNat_ofNat', Nat.mod_eq_of_lt unit.toNat_lt]
    rw [hback, hmem] at hall
    exact hall

theorem isPlainPath_filled {pieces : List Piece}
    (h : ∀ value, Piece.unit value ∈ pieces → value = slash ∨ isSegmentUnit value = true) :
    IsPlainPath (filled parameters pieces) := by
  intro unit hunit
  obtain ⟨piece, hpiece, hunit⟩ := List.mem_flatMap.mp hunit
  cases piece with
  | unit value =>
    rw [List.mem_singleton.mp hunit]
    exact h value hpiece
  | parameter name => exact .inr (fill_segmentUnits parameters name unit hunit)

theorem splitOn_filled (parameters : Members) (pieces : List Piece) :
    (filled parameters pieces).splitOn slash =
      (pieces.splitOn (.unit slash)).map (filled parameters) := by
  induction pieces with
  | nil => rfl
  | cons piece rest ih =>
    rw [List.splitOn_cons_eq_if_modifyHead]
    by_cases hslash : piece = .unit slash
    · rw [hslash, if_pos (beq_self_eq_true _), List.map_cons, ← ih]
      exact List.splitOn_append_cons_self_of_not_mem List.not_mem_nil _
    · have hnone : slash ∉ fill parameters piece := by
        cases piece with
        | unit value =>
          intro h
          exact hslash (congrArg Piece.unit (List.mem_singleton.mp h).symm)
        | parameter name =>
          intro h
          exact absurd (fill_segmentUnits parameters name slash h) (by decide)
      rw [if_neg (fun h => hslash (eq_of_beq h)), filled, List.flatMap_cons,
        splitOn_append_of_notMem hnone]
      show ((filled parameters rest).splitOn slash).modifyHead _ = _
      rw [ih]
      cases rest.splitOn (.unit slash) with
      | nil => rfl
      | cons field fields => rfl

theorem braceless_of_units
    (h : ∀ value, Piece.unit value ∈ pieces template → value = slash ∨ isSegmentUnit value = true) :
    Braceless (pieces template) := by
  have hmark : ∀ mark : UInt16, mark ≠ slash → isSegmentUnit mark = false →
      ∀ value, Piece.unit value ∈ pieces template → value ≠ mark := by
    rintro mark hslash hsegment value hvalue rfl
    obtain heq | hunit := h _ hvalue
    · exact hslash heq
    · rw [hunit] at hsegment
      cases hsegment
  intro value hvalue
  exact ⟨hmark openBrace (by decide) (by decide) value hvalue,
    hmark closeBrace (by decide) (by decide) value hvalue⟩

theorem substitutePathParameters_ok {values : JsValue}
    (h : substitutePathParameters template values = .ok path) :
    (∀ name, Piece.parameter name ∈ pieces template → HasText (ownMembers values) name) ∧
      (Braceless (pieces template) → path = filled (ownMembers values) (pieces template)) := by
  rw [substitutePathParameters] at h
  obtain ⟨-, -, h⟩ := bind_eq_ok_iff.mp h
  obtain ⟨-, -, h⟩ := bind_eq_ok_iff.mp h
  obtain ⟨output, houtput, h⟩ := bind_eq_ok_iff.mp h
  obtain ⟨-, -, h⟩ := bind_eq_ok_iff.mp h
  obtain rfl := Except.ok.inj h
  have hexpected : ∀ name, Piece.parameter name ∈ pieces template ↔
      name ∈ expectedParameters template := by
    intro name
    rw [expectedParameters, List.mem_eraseDups, List.mem_filterMap]
    constructor
    · exact fun hname => ⟨_, hname, rfl⟩
    · rintro ⟨piece, hpiece, hname⟩
      cases piece with
      | unit value => cases hname
      | parameter other => exact Option.some.inj hname ▸ hpiece
  have htexts := foldlM_substituteParameter houtput
  refine ⟨fun name hname => htexts name ((hexpected name).mp hname), ?_⟩
  intro hpieces
  obtain ⟨htemplate, hnames⟩ := pieces_text (ownMembers values) template
  have hclose : ∀ name ∈ expectedParameters template, closeBrace ∉ name := by
    intro name hname hmem
    exact (isKeyUnit_ne (hnames name ((hexpected name).mpr hname) _ hmem)).2 rfl
  have hrun : (expectedParameters template).foldlM (substituteParameter (ownMembers values))
      ((pieces template).flatMap (partly (ownMembers values) [])) = .ok output := by
    rw [htemplate]
    exact houtput
  obtain ⟨all, hall, heq⟩ := foldlM_partly hpieces hnames hclose hrun
  rw [heq, filled]
  refine List.flatMap_congr fun piece hpiece => ?_
  cases piece with
  | unit value => rfl
  | parameter name =>
    rw [partly, if_pos ((hall name).mpr (.inl ((hexpected name).mp hpiece)))]

theorem pieces_slash (h : isPathTemplate template = true) :
    ∃ rest, pieces template = .unit slash :: rest := by
  have hhead : template.head? = some slash := by
    simp only [isPathTemplate, Bool.and_eq_true, decide_eq_true_eq] at h
    exact h.1.1.1.1
  obtain ⟨rest, rfl⟩ := List.head?_eq_some_iff.mp hhead
  have hname : placeholderName (slash :: rest) = none := by
    rw [placeholderName, if_neg fun h => absurd h.1 (by decide)]
  refine ⟨pieces rest, ?_⟩
  rw [pieces, templatePieces, hname]
  rfl

theorem forall₂_getLast? {α β : Type} {R : α → β → Prop} {left : List α} {right : List β}
    (h : List.Forall₂ R left right) {first : α} {second : β}
    (hleft : left.getLast? = some first) (hright : right.getLast? = some second) :
    R first second := by
  induction h with
  | nil => cases hleft
  | @cons a b left right hhead htail ih =>
    cases htail with
    | nil =>
      obtain rfl := Option.some.inj hleft
      obtain rfl := Option.some.inj hright
      exact hhead
    | cons hnext htail =>
      rw [List.getLast?_cons_cons] at hleft hright
      exact ih hleft hright

theorem exists_of_forall₂ {α β : Type} {R : α → β → Prop} {left : List α} {right : List β}
    (h : List.Forall₂ R left right) {first : α} (hfirst : first ∈ left) :
    ∃ second ∈ right, R first second := by
  induction h with
  | nil => exact nomatch hfirst
  | @cons a b left right hhead htail ih =>
    obtain rfl | hlater := List.mem_cons.mp hfirst
    · exact ⟨b, List.mem_cons_self, hhead⟩
    · obtain ⟨second, hsecond, hR⟩ := ih hlater
      exact ⟨second, List.mem_cons_of_mem _ hsecond, hR⟩

variable {parseHost : List Char → Option String} {base : Authority} {url : Url}

theorem units_of_fits (hurl : parseReference parseHost base path = some url)
    (hforall : List.Forall₂ (Fits parameters) (templateSegments template)
      (url.pathname.splitOn slash)) :
    ∀ value, Piece.unit value ∈ pieces template → value = slash ∨ isSegmentUnit value = true := by
  intro value hvalue
  have hjoined : Piece.unit value ∈ [Piece.unit slash].intercalate (templateSegments template) := by
    rwa [templateSegments, List.intercalate_splitOn]
  obtain heq | ⟨segment, hsegment, hinside⟩ := mem_intercalate hjoined
  · exact .inl (Piece.unit.inj heq)
  · obtain ⟨segments, hpathname, hunits⟩ := parseReference_pathname hurl
    rw [hpathname, splitOn_serializePath hunits] at hforall
    obtain ⟨text, htext, hfits⟩ := exists_of_forall₂ hforall hsegment
    have hmem := mem_of_fits hfits hinside
    obtain rfl | htext := List.mem_cons.mp htext
    · exact nomatch hmem
    · exact .inr (hunits text htext value hmem)

theorem dots_of_fits {segments : List (List Piece)}
    (hforall : List.Forall₂ (Fits parameters) segments
      (resolveDots [] (segments.map (filled parameters)))) :
    ∀ segment ∈ segments, isDotSegment (filled parameters segment) = false := by
  intro segment hsegment
  rw [Bool.eq_false_iff]
  intro hdot
  have hlength : (resolveDots [] (segments.map (filled parameters))).length =
      0 + (segments.map (filled parameters)).length := by
    rw [← hforall.length_eq, List.length_map, Nat.zero_add]
  obtain ⟨hlast, hempty⟩ := @isDotSegment_of_resolveDots _ [] hlength _
    (List.mem_map_of_mem hsegment) hdot
  rw [List.getLast?_map] at hlast
  obtain ⟨found, hfound, heq⟩ := Option.map_eq_some_iff.mp hlast
  have hfits := forall₂_getLast? hforall hfound hempty
  rw [← heq, filled_of_fits_nil hfits] at hdot
  exact absurd hdot (by decide)

section Parsed

variable {values : JsValue} {rest : List Piece} (hrest : pieces template = .unit slash :: rest)
  (hpath : substitutePathParameters template values = .ok path)
  (hurl : parseReference parseHost base path = some url)

include hrest

theorem filled_slash : filled parameters (pieces template) = slash :: filled parameters rest := by
  rw [hrest]
  rfl

theorem authority_iff : ¬[slash, slash] <+: filled parameters (pieces template) ↔
    (filled parameters rest).head? ≠ some slash := by
  rw [filled_slash hrest, List.cons_prefix_cons, not_congr]
  constructor
  · rintro ⟨-, later, hlater⟩
    rw [← hlater]
    rfl
  · intro h
    obtain ⟨later, hlater⟩ := List.head?_eq_some_iff.mp h
    exact ⟨rfl, later, hlater.symm⟩

theorem templateSegments_slash :
    templateSegments template = [] :: rest.splitOn (.unit slash) := by
  rw [templateSegments, hrest, List.splitOn_cons_eq_if_modifyHead, if_pos (beq_self_eq_true _)]

include hpath

theorem path_of_units
    (hunits : ∀ value, Piece.unit value ∈ pieces template →
      value = slash ∨ isSegmentUnit value = true) :
    path = slash :: filled (ownMembers values) rest ∧
      IsPlainPath (filled (ownMembers values) rest) := by
  refine ⟨?_, isPlainPath_filled fun value hvalue => hunits value ?_⟩
  · rw [(substitutePathParameters_ok hpath).2 (braceless_of_units hunits), filled_slash hrest]
  · rw [hrest]
    exact List.mem_cons_of_mem _ hvalue

include hurl

theorem url_of_plainTemplate (h : PlainTemplate template (ownMembers values)) :
    url = { base with username := [], password := [] }.plainUrl (filled (ownMembers values) rest) ∧
      IsPlainPath (filled (ownMembers values) rest) := by
  obtain ⟨rfl, hplain⟩ := path_of_units hrest hpath h.units
  rw [parseReference_plain hplain ((authority_iff hrest).mp h.authority)] at hurl
  exact ⟨(Option.some.inj hurl).symm, hplain⟩

omit hpath in
theorem head_of_fits {parsed : JsText} (hparsed : path = slash :: parsed)
    (hplain : IsPlainPath parsed) (hfilled : parsed = filled (ownMembers values) rest)
    (hforall : List.Forall₂ (Fits (ownMembers values)) (templateSegments template)
      (url.pathname.splitOn slash)) : parsed.head? ≠ some slash := by
  intro h
  obtain ⟨later, hlater⟩ := List.head?_eq_some_iff.mp h
  rw [hparsed, hlater] at hurl
  rw [hlater] at hplain
  obtain ⟨found, hfound, hpathname, hshort⟩ :=
    parseReference_authority (List.forall_mem_cons.mp hplain).2 hurl
  have hlong := hforall.length_eq
  rw [hpathname, splitOn_serializePath (resolveDots_units (List.forall_mem_nil _) hfound.segments),
    templateSegments_slash hrest, List.length_cons, List.length_cons] at hlong
  have hbound := length_resolveDots [] (found.splitOn slash)
  rw [← hlater, hfilled, splitOn_filled, List.length_map] at hshort
  rw [List.length_nil] at hbound
  omega

/-- A path has the template's segments exactly when the template is plain for the values. -/
theorem path_iff :
    List.Forall₂ (Fits (ownMembers values)) (templateSegments template)
        (url.pathname.splitOn slash) ↔
      PlainTemplate template (ownMembers values) := by
  constructor
  · intro hforall
    have hunits := units_of_fits hurl hforall
    obtain ⟨hparsed, hplain⟩ := path_of_units hrest hpath hunits
    have hslash := head_of_fits hrest hurl hparsed hplain rfl hforall
    rw [hparsed, parseReference_plain hplain hslash] at hurl
    obtain rfl := Option.some.inj hurl
    refine ⟨hunits, ?_, (authority_iff hrest).mpr hslash⟩
    rw [templateSegments_slash hrest, Authority.plainUrl, splitOn_serializePath
      (resolveDots_units (List.forall_mem_nil _) hplain.segments), splitOn_filled] at hforall
    obtain ⟨-, htail⟩ := List.forall₂_cons.mp hforall
    rw [templateSegments_slash hrest]
    exact List.forall_mem_cons.mpr ⟨rfl, dots_of_fits htail⟩
  · intro h
    obtain ⟨rfl, hplain⟩ := url_of_plainTemplate hrest hpath hurl h
    have hdots := h.dots
    rw [templateSegments_slash hrest] at hdots
    obtain ⟨-, hdots⟩ := List.forall_mem_cons.mp hdots
    have hresolved : resolveDots [] ((rest.splitOn (.unit slash)).map
        (filled (ownMembers values))) =
          (rest.splitOn (.unit slash)).map (filled (ownMembers values)) := by
      refine (resolveDots_plain [] ?_).trans (List.nil_append _)
      intro segment hsegment
      obtain ⟨found, hfound, rfl⟩ := List.mem_map.mp hsegment
      exact hdots found hfound
    rw [templateSegments_slash hrest, Authority.plainUrl, splitOn_serializePath
      (resolveDots_units (List.forall_mem_nil _) hplain.segments), splitOn_filled, hresolved]
    refine List.Forall₂.cons .nil ?_
    rw [List.forall₂_map_right_iff, List.forall₂_same]
    intro segment hsegment
    refine fits_filled fun name hname => (substitutePathParameters_ok hpath).1 name ?_
    rw [hrest]
    exact List.mem_cons_of_mem _ (mem_of_mem_splitOn hsegment hname)

end Parsed

end Paths

section Queries

variable {operation : CompiledOperation} {encoded : JsValue}

theorem queryScalar_ok {value : JsValue} {text : JsText} (h : queryScalar value = .ok text) :
    text = scalarText value := by
  rw [queryScalar.eq_def] at h
  split at h
  case h_1 => cases h
  case h_5 => cases h
  all_goals
    split at h
    · cases h
    · exact (Except.ok.inj h).symm

theorem entryPairs_ok {allowed : List JsText} {entry : JsText × JsValue}
    {pairs : List (JsText × JsText)} (h : entryPairs allowed entry = .ok pairs) :
    entry.1 ∈ allowed ∧ pairs = entryTexts entry := by
  rw [entryPairs] at h
  obtain ⟨_, hallowed, h⟩ := bind_eq_ok_iff.mp h
  obtain ⟨texts, htexts, h⟩ := bind_eq_ok_iff.mp h
  refine ⟨not_not.mp (throwIf_eq_ok.mp hallowed), ?_⟩
  rw [← Except.ok.inj h]
  rw [queryTexts.eq_def] at htexts
  split at htexts
  · rename_i items hitems
    split at htexts
    · cases htexts
    · rw [eq_map_of_mapM (fun item text => queryScalar_ok) htexts, entryTexts, hitems, List.map_map]
      rfl
  · rename_i value hvalue
    obtain ⟨text, htext, htexts⟩ := bind_eq_ok_iff.mp htexts
    rw [← Except.ok.inj htexts, queryScalar_ok htext, entryTexts]
    split
    · rename_i items hitems
      exact absurd hitems (hvalue items)
    · rfl

theorem isWellFormed_of_isQueryKey {key : JsText} (h : isQueryKey key = true) :
    isWellFormed key = true := by
  have hascii : asciiText key := by
    simp only [isQueryKey, Bool.and_eq_true, List.all_eq_true] at h
    intro unit hunit
    have hkey := h.2 unit hunit
    rw [isKeyUnit, Bool.and_eq_true, decide_eq_true_eq] at hkey
    exact hkey.1
  rw [← encodeUtf16_lossyString_iff, lossyString_ascii hascii, encodeUtf16_ascii hascii]

theorem allowedQueryKeys_isQueryKey (operation : CompiledOperation) :
    ∀ key ∈ operation.allowedQueryKeys, isQueryKey key = true := by
  have hvalid := operation.valid
  simp only [validateOperation, bind_eq_ok_iff, throwIf_eq_ok] at hvalid
  obtain ⟨-, -, -, -, -, -, -, hkeys, -⟩ := hvalid
  exact List.all_eq_true.mp (by simpa using hkeys)

theorem pathTemplate_isPathTemplate (operation : CompiledOperation) :
    isPathTemplate operation.pathTemplate = true := by
  have hvalid := operation.valid
  simp only [validateOperation, bind_eq_ok_iff, throwIf_eq_ok] at hvalid
  obtain ⟨-, -, -, -, -, htemplate, -⟩ := hvalid
  simpa using htemplate

theorem formParse_appendPairs {url : Url} (hquery : url.query = none)
    (pairs : List (JsText × JsText)) :
    formParse ((appendPairs url pairs).query.getD []) = pairs.map searchPair := by
  rw [appendPairs]
  split
  · rename_i hnil
    rw [hquery, hnil]
    rfl
  · rw [hquery, Option.getD_some, formParse_formSerialize]
    rfl

/-- The query is what is given exactly when no text has a surrogate on its own. -/
theorem query_iff {url : Url} (hquery : url.query = none)
    {lists : List (List (JsText × JsText))}
    (h : (ownMembers (query encoded)).mapM (entryPairs operation.allowedQueryKeys) = .ok lists) :
    (formParse ((appendPairs url lists.flatten).query.getD [])).map formText = givenQuery encoded ↔
      ∀ pair ∈ givenQuery encoded, isWellFormed pair.2 = true := by
  have hlists : lists.flatten = givenQuery encoded := by
    rw [eq_map_of_mapM (fun entry pairs hpairs => (entryPairs_ok hpairs).2) h, givenQuery,
      List.flatMap_def]
  have hkeys : ∀ pair ∈ givenQuery encoded, isWellFormed pair.1 = true := by
    intro pair hpair
    obtain ⟨entry, hentry, hmem⟩ := List.mem_flatMap.mp hpair
    have hallowed := forall_of_mapM (fun entry pairs hpairs => (entryPairs_ok hpairs).1) h entry
      hentry
    have hname : pair.1 = entry.1 := by
      rw [entryTexts.eq_def] at hmem
      split at hmem
      · obtain ⟨item, -, rfl⟩ := List.mem_map.mp hmem
        rfl
      · rw [List.mem_singleton.mp hmem]
    rw [hname]
    exact isWellFormed_of_isQueryKey (allowedQueryKeys_isQueryKey operation entry.1 hallowed)
  rw [formParse_appendPairs hquery, hlists, List.map_map]
  constructor
  · intro heq pair hpair
    have hself : (formText ∘ searchPair) pair = pair :=
      List.map_inj_left.mp (heq.trans (List.map_id _).symm) pair hpair
    exact (encodeUtf16_lossyString_iff pair.2).mp (congrArg Prod.snd hself)
  · intro hvalues
    refine (List.map_congr_left fun pair hpair => ?_).trans (List.map_id _)
    exact Prod.ext ((encodeUtf16_lossyString_iff pair.1).mpr (hkeys pair hpair))
      ((encodeUtf16_lossyString_iff pair.2).mpr (hvalues pair hpair))

end Queries

/-- The template is plain for the values, and no text of the query has a surrogate on its own. -/
structure PlainRequest (operation : Operation) (encoded : JsValue) : Prop where
  template : PlainTemplate operation.pathTemplate (givenParameters encoded)
  texts : ∀ pair ∈ givenQuery encoded, isWellFormed pair.2 = true

theorem buildCompiledRequest_isExact_iff (parseHost : List Char → Option String)
    (operation : CompiledOperation) (encoded : JsValue) (credential : Option Credential)
    {request : Request}
    (hrequest : buildCompiledRequest parseHost operation.toOperation encoded credential =
      .ok request) :
    IsExact operation.toOperation encoded request ∧ RedirectsBare parseHost operation ↔
      PlainRequest operation.toOperation encoded := by
  obtain ⟨-, -, path, url, pairs, body, headers, hpath, hurl, -, hpairs, -, -, rfl⟩ :=
    buildCompiledRequest_iff.mp hrequest
  rw [requestUrl] at hurl
  split at hurl
  · cases hurl
  · rename_i parsed hparsed
    obtain ⟨_, -, hurl⟩ := bind_eq_ok_iff.mp hurl
    obtain ⟨_, horigin, hurl⟩ := bind_eq_ok_iff.mp hurl
    obtain rfl := Except.ok.inj hurl
    have htemplate := pathTemplate_isPathTemplate operation
    have hsame : ∀ pairs, (appendPairs parsed pairs).pathname = parsed.pathname ∧
        Url.originText (appendPairs parsed pairs) = Url.originText parsed := by
      intro pairs
      rw [appendPairs]
      split
      · exact ⟨rfl, rfl⟩
      · exact ⟨rfl, rfl⟩
    obtain ⟨rest, hrest⟩ := pieces_slash htemplate
    have hiff := path_iff hrest hpath hparsed
    have hquery : PlainTemplate operation.pathTemplate (givenParameters encoded) →
        parsed.query = none := by
      intro hplain
      rw [(url_of_plainTemplate hrest hpath hparsed hplain).1]
      rfl
    constructor
    · rintro ⟨hexact, -⟩
      have hplain := hiff.mp ((hsame pairs.flatten).1 ▸ hexact.path)
      exact ⟨hplain, (query_iff (hquery hplain) hpairs).mp hexact.query⟩
    · intro hplain
      refine ⟨⟨?_, ?_, (query_iff (hquery hplain.template) hpairs).mpr hplain.texts⟩,
        redirectsBare parseHost operation⟩
      · rw [(hsame pairs.flatten).2]
        exact not_not.mp (throwIf_eq_ok.mp horigin)
      · rw [(hsame pairs.flatten).1]
        exact hiff.mpr hplain.template

def letterHost (text : List Char) : Option String :=
  if text.all (fun character => ('a' ≤ character && character ≤ 'z') || character = '.') then
    some (String.ofList text)
  else none

def someOrigin : ExactOrigin := ⟨"api.example", none⟩

def readOperation : CompiledOperation where
  id := "repository.read"
  method := .get
  origin := someOrigin
  pathTemplate := asciiUnits "/\x7bowner\x7d/\x7brepo\x7d"
  allowedQueryKeys := []
  fixedHeaders := []
  origins := [someOrigin]
  valid := by decide

def parametersOf (owner repo : String) : JsValue :=
  .object [(asciiUnits "pathParameters", .object [(asciiUnits "owner", .string (asciiUnits owner)),
    (asciiUnits "repo", .string (asciiUnits repo))])]

def requestTo (pathname : String) : Request where
  url := ⟨"api.example", none, [], [], asciiUnits pathname, none, none⟩
  headers := []
  body := none

theorem buildCompiledRequest_isExact_iff_read :
    IsExact readOperation.toOperation (parametersOf "a" "b%.") (requestTo "/a/b%25.") ∧
        RedirectsBare letterHost readOperation ↔
      PlainRequest readOperation.toOperation (parametersOf "a" "b%.") :=
  buildCompiledRequest_isExact_iff letterHost readOperation (parametersOf "a" "b%.") none (by rfl)

/-- With an empty owner, a repository that is named as the host is taken for the host. -/
theorem emptyOwner_not_exact :
    ¬∀ (parseHost : List Char → Option String) (operation : CompiledOperation)
      (encoded : JsValue) (credential : Option Credential) (request : Request),
      buildCompiledRequest parseHost operation.toOperation encoded credential = .ok request →
        IsExact operation.toOperation encoded request ∧ RedirectsBare parseHost operation := by
  intro h
  have hbuilt : buildCompiledRequest letterHost readOperation.toOperation
      (parametersOf "" "api.example") none = .ok (requestTo "/") := by rfl
  have hexact := (h letterHost readOperation _ none _ hbuilt).1
  exact absurd hexact.path.length_eq (by decide)

end KodeGpt.ExactRequests
