import KodeGpt.AuthConfigs

/-!
The URL that a token is kept for, as the control plane reads it: the same owner and the
same repository, if their names are short.
-/

namespace KodeGpt.RemoteIdentities

open AuthConfigs UrlReferences GithubIdentities
open RemoteMutations hiding githubAuthConfig
open JsonText (Bytes utf8)
open JsFrames (asciiUnits)
open JsObjects (JsText)
open ConfigTexts (readParts)
open FilterDrivers (isDriverByte)
open GitCommands (slash)
open RunPages (hasControl isControl hasControl_eq_false)
open SafeRefs (splitOn_map isSuffixOf_map)

abbrev units (bytes : Bytes) : JsText := bytes.map UInt8.toUInt16

theorem isDriverByte_units {byte : UInt8} (hbyte : isDriverByte byte = true) :
    isSegmentUnit byte.toUInt16 = true ∧ isControl byte.toUInt16 = false ∧
      byte.toUInt16 ≠ 64 ∧ byte.toUInt16 ≠ 58 ∧ byte.toUInt16 ≠ 37 ∧ byte.toUInt16 ≠ 47 := by
  have hall : ∀ value < 256, isDriverByte (UInt8.ofNat value) = true →
      isSegmentUnit (UInt8.ofNat value).toUInt16 = true ∧
        isControl (UInt8.ofNat value).toUInt16 = false ∧
        (UInt8.ofNat value).toUInt16 ≠ 64 ∧ (UInt8.ofNat value).toUInt16 ≠ 58 ∧
        (UInt8.ofNat value).toUInt16 ≠ 37 ∧ (UInt8.ofNat value).toUInt16 ≠ 47 := by
    decide +kernel
  have hvalue := hall byte.toNat byte.toNat_lt
  rw [UInt8.ofNat_toNat] at hvalue
  exact hvalue hbyte

theorem stripGit_units (repository : Bytes) :
    stripGit (units repository) = units (stripSuffix (utf8 ".git") repository) := by
  have hgit : asciiUnits ".git" = units (utf8 ".git") := by with_unfolding_all decide
  have hlength : (utf8 ".git").length = 4 := by with_unfolding_all decide
  rw [stripGit, stripSuffix, hgit, isSuffixOf_map, hlength, List.length_map]
  split
  · exact List.map_take.symm
  · rfl

theorem isUnusable_units {component : Bytes} (hcomponent : validComponent component = true) :
    isUnusable (units component) = decide (100 < component.length) := by
  simp only [validComponent, Bool.and_eq_true, decide_eq_true_eq] at hcomponent
  obtain ⟨⟨⟨⟨hne, -⟩, hdot⟩, hdots⟩, hplain⟩ := hcomponent
  have hbytes := List.all_eq_true.mp hplain
  have hinjective : Function.Injective units :=
    List.map_injective_iff.mpr SafeRefs.toUInt16_injective
  have hdotUnits : asciiUnits "." = units (utf8 ".") := by with_unfolding_all decide
  have hdotsUnits : asciiUnits ".." = units (utf8 "..") := by with_unfolding_all decide
  have hcontrol : hasControl (units component) = false := by
    refine hasControl_eq_false fun unit hunit => ?_
    obtain ⟨byte, hbyte, rfl⟩ := List.mem_map.mp hunit
    exact (isDriverByte_units (hbytes byte hbyte)).2.1
  have habsent : ∀ mark : UInt16, (∀ byte, isDriverByte byte = true → byte.toUInt16 ≠ mark) →
      (units component).contains mark = false := by
    intro mark hmark
    rw [Bool.eq_false_iff, Ne, List.contains_iff_mem]
    intro hmem
    obtain ⟨byte, hbyte, heq⟩ := List.mem_map.mp hmem
    exact hmark byte (hbytes byte hbyte) heq
  rw [isUnusable, hcontrol, habsent 64 fun byte hbyte => (isDriverByte_units hbyte).2.2.1,
    habsent 58 fun byte hbyte => (isDriverByte_units hbyte).2.2.2.1, hdotUnits, hdotsUnits,
    List.length_map, decide_eq_false (fun heq => hne (List.map_eq_nil_iff.mp heq)),
    decide_eq_false (fun heq => hdot (hinjective heq)),
    decide_eq_false (fun heq => hdots (hinjective heq))]
  simp

section Parser

variable (parseHost : List Char → Option String) (otherUrl : JsText → Option RemoteUrl)

variable {url owner repository : Bytes}

theorem isPlainPath_units {bytes : Bytes}
    (hbytes : ∀ byte ∈ bytes, byte = slash ∨ isDriverByte byte = true ∨ byte = 58) :
    IsPlainPath (units bytes) := by
  intro unit hunit
  obtain ⟨byte, hbyte, rfl⟩ := List.mem_map.mp hunit
  obtain rfl | hbyte | rfl := hbytes byte hbyte
  · exact Or.inl rfl
  · exact Or.inr (isDriverByte_units hbyte).1
  · exact Or.inr (by decide)

theorem isDotSegment_units {component : Bytes} (hdot : component ≠ utf8 ".")
    (hdots : component ≠ utf8 "..") (hbytes : ∀ byte ∈ component, isDriverByte byte = true) :
    isDotSegment (units component) = false := by
  have hinjective : Function.Injective units :=
    List.map_injective_iff.mpr SafeRefs.toUInt16_injective
  have hall : ∀ dots ∈ singleDots ++ doubleDots,
      dots = units (utf8 ".") ∨ dots = units (utf8 "..") ∨ 37 ∈ dots := by with_unfolding_all decide
  refine Bool.eq_false_iff.mpr fun hsegment => ?_
  rw [isDotSegment, Bool.or_eq_true, List.contains_iff_mem, List.contains_iff_mem,
    ← List.mem_append] at hsegment
  obtain heq | heq | hpercent := hall _ hsegment
  · exact hdot (hinjective heq)
  · exact hdots (hinjective heq)
  · obtain ⟨byte, hbyte, heq⟩ := List.mem_map.mp hpercent
    exact (isDriverByte_units (hbytes byte hbyte)).2.2.2.2.1 heq

theorem locatedUrl_canonical (hhost : parseHost "github.com".toList = some "github.com")
    {rest : JsText} (hrest : IsPlainPath rest) :
    locatedUrl parseHost ("//github.com/".toList ++ characters rest) =
      some (Authority.plainUrl ⟨"github.com", none, [], []⟩ rest) := by
  have hlocated : ("//github.com/".toList ++ characters rest).dropWhile isSlash =
      "github.com".toList ++ '/' :: characters rest := rfl
  have htake : ("github.com".toList ++ '/' :: characters rest).takeWhile
      (fun character => !endsAuthority character) = "github.com".toList := rfl
  have hdrop : ("github.com".toList ++ '/' :: characters rest).dropWhile
      (fun character => !endsAuthority character) = '/' :: characters rest := rfl
  have hauthority : parseAuthority parseHost "github.com".toList =
      some ⟨"github.com", none, [], []⟩ := by
    have hcut : (ListCuts.cutLast ['@'] "github.com".toList).getD ([], "github.com".toList) =
        ([], "github.com".toList) := by decide
    have hport : cutPort false "github.com".toList = ("github.com".toList, []) := by decide
    have hne : "github.com".toList ≠ [] := by decide
    generalize "github.com".toList = host at *
    rw [parseAuthority, hcut]
    dsimp only
    rw [hport]
    dsimp only
    rw [if_neg hne, hhost]
    rfl
  rw [locatedUrl, hlocated, htake, hdrop, hauthority]
  exact congrArg some (url_plain _ hrest)

theorem newUrl_canonical (hhost : parseHost "github.com".toList = some "github.com")
    (hurl : IsCanonical url owner repository) :
    newUrl parseHost otherUrl (units url) =
      some ⟨Authority.plainUrl ⟨"github.com", none, [], []⟩ (units (owner ++ slash :: repository)),
        asciiUnits "https:"⟩ := by
  have hbytes : ∀ byte ∈ owner ++ slash :: repository,
      byte = slash ∨ isDriverByte byte = true ∨ byte = 58 := by
    refine List.forall_mem_append.mpr ⟨fun byte hbyte => ?_,
      List.forall_mem_cons.mpr ⟨Or.inl rfl, fun byte hbyte => ?_⟩⟩
    · exact Or.inr (Or.inl (hurl.owner_plain byte hbyte))
    · exact Or.inr (Or.inl (hurl.repository_plain byte hbyte))
  have hstart : ∀ byte ∈ githubPrefix, byte = slash ∨ isDriverByte byte = true ∨ byte = 58 := by
    have hall : githubPrefix.all (fun byte => byte = slash || (isDriverByte byte || byte = 58)) =
        true := by with_unfolding_all decide
    intro byte hbyte
    simpa using List.all_eq_true.mp hall byte hbyte
  have hplain : IsPlainPath (units url) := by
    rw [hurl.eq]
    exact isPlainPath_units (List.forall_mem_append.mpr ⟨hstart, hbytes⟩)
  have hprefix : characters (units githubPrefix) = httpsScheme ++ "//github.com/".toList := by
    with_unfolding_all decide
  have hinput : urlInput (units url) = httpsScheme ++ ("//github.com/".toList ++
      characters (units (owner ++ slash :: repository))) := by
    rw [urlInput_plain hplain, hurl.eq, units, List.map_append, characters, List.map_append,
      ← List.append_assoc, ← hprefix]
    rfl
  have hlocated := locatedUrl_canonical parseHost hhost (isPlainPath_units hbytes)
  rw [newUrl, hinput, List.take_left, if_pos (by decide), List.drop_left, hlocated]
  rfl

theorem splitOn_canonical (hurl : IsCanonical url owner repository) :
    (units (owner ++ slash :: repository)).splitOn NodePaths.slash =
      [units owner, units repository] := by
  have hslash : NodePaths.slash = slash.toUInt16 := by decide
  have hsplit : (owner ++ slash :: repository).splitOn slash = [owner, repository] := by
    have hno : ∀ {bytes : Bytes}, (∀ byte ∈ bytes, isDriverByte byte = true) → slash ∉ bytes :=
      fun hbytes hmem => (isDriverByte_units (hbytes _ hmem)).2.2.2.2.2 rfl
    rw [List.splitOn_append_cons_self, List.splitOn_eq_singleton (hno hurl.owner_plain),
      List.splitOn_eq_singleton (hno hurl.repository_plain)]
    rfl
  rw [hslash, splitOn_map, hsplit]
  rfl

theorem repository_ne (hurl : IsCanonical url owner repository) :
    repository ≠ [] ∧ repository ≠ utf8 "." ∧ repository ≠ utf8 ".." := by
  have hnone : validComponent (stripSuffix (utf8 ".git") []) = false := by with_unfolding_all decide
  have hdot : validComponent (stripSuffix (utf8 ".git") (utf8 ".")) = false := by
    with_unfolding_all decide
  have hdots : validComponent (stripSuffix (utf8 ".git") (utf8 "..")) = false := by
    with_unfolding_all decide
  have hvalid := hurl.repository
  refine ⟨?_, ?_, ?_⟩
  · rintro rfl
    exact Bool.false_ne_true (hnone.symm.trans hvalid)
  · rintro rfl
    exact Bool.false_ne_true (hdot.symm.trans hvalid)
  · rintro rfl
    exact Bool.false_ne_true (hdots.symm.trans hvalid)

theorem owner_ne (hurl : IsCanonical url owner repository) :
    owner ≠ [] ∧ owner ≠ utf8 "." ∧ owner ≠ utf8 ".." := by
  have hvalid := hurl.owner
  simp only [validComponent, Bool.and_eq_true, decide_eq_true_eq] at hvalid
  exact ⟨hvalid.1.1.1.1, hvalid.1.1.2, hvalid.1.2⟩

theorem pathname_canonical (hurl : IsCanonical url owner repository) :
    serializePath
        (resolveDots [] ((units (owner ++ slash :: repository)).splitOn NodePaths.slash)) =
      NodePaths.slash :: (units owner ++ NodePaths.slash :: units repository) := by
  obtain ⟨-, howner, howner'⟩ := owner_ne hurl
  obtain ⟨-, hrepository, hrepository'⟩ := repository_ne hurl
  have hdots : ∀ segment ∈ [units owner, units repository], isDotSegment segment = false :=
    List.forall_mem_cons.mpr ⟨isDotSegment_units howner howner' hurl.owner_plain,
      List.forall_mem_cons.mpr
        ⟨isDotSegment_units hrepository hrepository' hurl.repository_plain,
          List.forall_mem_nil _⟩⟩
  rw [splitOn_canonical hurl, resolveDots_plain [] hdots]
  simp [serializePath]

theorem notMem_units {bytes : Bytes} (hbytes : ∀ byte ∈ bytes, isDriverByte byte = true)
    {mark : UInt16} (hmark : ∀ byte, isDriverByte byte = true → byte.toUInt16 ≠ mark) :
    mark ∉ units bytes := by
  intro hmem
  obtain ⟨byte, hbyte, heq⟩ := List.mem_map.mp hmem
  exact hmark byte (hbytes byte hbyte) heq

theorem parseUrlRemote_canonical (hhost : parseHost "github.com".toList = some "github.com")
    (hurl : IsCanonical url owner repository) :
    parseUrlRemote parseHost otherUrl (units url) =
      normalizeRepositoryParts (units owner) (units repository) := by
  have hslash : ∀ byte, isDriverByte byte = true → byte.toUInt16 ≠ NodePaths.slash :=
    fun byte hbyte => (isDriverByte_units hbyte).2.2.2.2.2
  have hpercent : ∀ byte, isDriverByte byte = true → byte.toUInt16 ≠ 37 :=
    fun byte hbyte => (isDriverByte_units hbyte).2.2.2.2.1
  have hownerSlash := notMem_units hurl.owner_plain hslash
  have hrepositorySlash := notMem_units hurl.repository_plain hslash
  have hnone : (NodePaths.slash :: (units owner ++ NodePaths.slash :: units repository)).contains
      37 = false := by
    rw [Bool.eq_false_iff, Ne, List.contains_iff_mem, List.mem_cons, List.mem_append, List.mem_cons]
    rintro (heq | hmem | heq | hmem)
    · cases heq
    · exact notMem_units hurl.owner_plain hpercent hmem
    · cases heq
    · exact notMem_units hurl.repository_plain hpercent hmem
  have hsplit : ((NodePaths.slash :: (units owner ++ NodePaths.slash :: units repository)).splitOn
      NodePaths.slash).filter (· ≠ []) = [units owner, units repository] := by
    have howner : units owner ≠ [] := fun hnil => (owner_ne hurl).1 (List.map_eq_nil_iff.mp hnil)
    have hrepository : units repository ≠ [] :=
      fun hnil => (repository_ne hurl).1 (List.map_eq_nil_iff.mp hnil)
    rw [← List.nil_append (NodePaths.slash :: (units owner ++ _)),
      List.splitOn_append_cons_self, List.splitOn_append_cons_self,
      List.splitOn_eq_singleton hownerSlash, List.splitOn_eq_singleton hrepositorySlash]
    simp [howner, hrepository]
  have hlower : lowerHost "github.com" = "github.com" := by with_unfolding_all decide
  rw [parseUrlRemote, newUrl_canonical parseHost otherUrl hhost hurl]
  dsimp only [Authority.plainUrl]
  rw [pathname_canonical hurl, hlower, hnone, hsplit, if_neg (by simp), if_neg (by simp),
    if_neg (by decide), if_neg (by simp), if_neg Bool.false_ne_true]

theorem parseGitHubRemote_canonical (hhost : parseHost "github.com".toList = some "github.com")
    (hurl : IsCanonical url owner repository) :
    parseGitHubRemote parseHost otherUrl (units url) =
      normalizeRepositoryParts (units owner) (units repository) := by
  have hstart : githubPrefix = utf8 "https://" ++ utf8 "github.com/" := by with_unfolding_all decide
  have hhttps : (asciiUnits "https://").isPrefixOf (units url) = true := by
    have hunits : asciiUnits "https://" = units (utf8 "https://") := by with_unfolding_all decide
    rw [hunits, hurl.eq, hstart, List.append_assoc, List.isPrefixOf_iff_prefix]
    exact (List.prefix_append _ _).map _
  have hne : units url ≠ [] := by
    intro hnil
    rw [hnil] at hhttps
    cases hhttps
  have hshort := hurl.short
  have hlength : (units url).length ≤ 1024 := by
    rw [List.length_map]
    exact hshort
  have hcontrol : hasControl (units url) = false := by
    refine hasControl_eq_false fun unit hunit => ?_
    have hunits : ∀ bytes : Bytes, (∀ byte ∈ bytes, isDriverByte byte = true) →
        ∀ unit ∈ units bytes, isControl unit = false := by
      intro bytes hbytes unit hunit
      obtain ⟨byte, hbyte, rfl⟩ := List.mem_map.mp hunit
      exact (isDriverByte_units (hbytes byte hbyte)).2.1
    have hprefix : (units githubPrefix).all (fun unit => !isControl unit) = true := by
      with_unfolding_all decide
    rw [hurl.eq, units, List.map_append, List.map_append, List.map_cons, List.mem_append,
      List.mem_append, List.mem_cons] at hunit
    obtain hunit | hunit | rfl | hunit := hunit
    · simpa using List.all_eq_true.mp hprefix unit hunit
    · exact hunits owner hurl.owner_plain unit hunit
    · decide
    · exact hunits repository hurl.repository_plain unit hunit
  rw [parseGitHubRemote, if_neg, if_pos (Or.inl hhttps),
    parseUrlRemote_canonical parseHost otherUrl hhost hurl]
  rintro (hnil | hlong | hunit)
  · exact hne hnil
  · omega
  · rw [hcontrol] at hunit
    cases hunit

theorem normalizeRepositoryParts_canonical (hurl : IsCanonical url owner repository) :
    normalizeRepositoryParts (units owner) (units repository) =
      if owner.length ≤ 100 ∧ (stripSuffix (utf8 ".git") repository).length ≤ 100 then
        .ok ⟨units owner, units (stripSuffix (utf8 ".git") repository)⟩
      else .error unsupportedRemote := by
  rw [normalizeRepositoryParts, stripGit_units, isUnusable_units hurl.owner,
    isUnusable_units hurl.repository]
  simp only [decide_eq_true_eq]
  by_cases hshort : owner.length ≤ 100 ∧ (stripSuffix (utf8 ".git") repository).length ≤ 100
  · rw [if_pos hshort, if_neg (by omega)]
  · rw [if_neg hshort, if_pos (by omega)]

theorem resolve_canonical (hhost : parseHost "github.com".toList = some "github.com")
    (hurl : IsCanonical url owner repository) {remotes : List GitRepositoryRemote}
    {selected : GitRepositoryRemote} (hselected : selectRemote remotes = .ok selected)
    (hfetch : selected.fetchUrl = units url) :
    resolveGitHubRepositoryIdentity parseHost otherUrl remotes =
      if owner.length ≤ 100 ∧ (stripSuffix (utf8 ".git") repository).length ≤ 100 then
        .ok ⟨units owner, units (stripSuffix (utf8 ".git") repository),
          units owner ++ NodePaths.slash :: units (stripSuffix (utf8 ".git") repository),
          selected.name⟩
      else .error unsupportedRemote := by
  have hparsed := (parseGitHubRemote_canonical parseHost otherUrl hhost hurl).trans
    (normalizeRepositoryParts_canonical hurl)
  rw [← hfetch] at hparsed
  rw [resolveGitHubRepositoryIdentity, hselected]
  change (parseGitHubRemote parseHost otherUrl selected.fetchUrl).bind _ = _
  rw [hparsed]
  split
  · rfl
  · rfl

end Parser

/-- One section for the URL, with four keys, of which the first holds the token. -/
def IsPrivateConfig (url token text : Bytes) : Prop :=
  ∃ encoded, fromBase64 encoded = utf8 "x-access-token:" ++ token ∧
    readParts text = some [⟨utf8 "http", some url,
      [(utf8 "extraheader", some (utf8 "Authorization: Basic " ++ encoded)),
        (utf8 "followredirects", some (utf8 "false")), (utf8 "proxy", some []),
        (utf8 "sslverify", some (utf8 "true"))]⟩]

/-- Of every URL and token that are accepted, the private configuration is one section for the
URL; and the repository of the URL is resolved to the same owner and name if both are short, and
is not supported otherwise. -/
theorem githubAuthConfig_agrees (parseHost : List Char → Option String)
    (otherUrl : JsText → Option RemoteUrl)
    (hhost : parseHost "github.com".toList = some "github.com") :
    (∀ url token text, githubAuthConfig url token = some text → IsPrivateConfig url token text) ∧
      ∀ url, canonicalGithubHttpsRemote url = true →
        ∃ owner repository, url = githubPrefix ++ (owner ++ slash :: repository) ∧
          slash ∉ owner ∧ slash ∉ repository ∧
          ∀ remotes selected, selectRemote remotes = .ok selected →
            selected.fetchUrl = units url →
            resolveGitHubRepositoryIdentity parseHost otherUrl remotes =
              if owner.length ≤ 100 ∧ (stripSuffix (utf8 ".git") repository).length ≤ 100 then
                .ok ⟨units owner, units (stripSuffix (utf8 ".git") repository),
                  units owner ++ NodePaths.slash :: units (stripSuffix (utf8 ".git") repository),
                  selected.name⟩
              else .error unsupportedRemote := by
  refine ⟨fun url token text htext => ?_, fun url hurl => ?_⟩
  · exact ⟨base64 (utf8 "x-access-token:" ++ token), fromBase64_base64 _,
      readParts_githubAuthConfig htext⟩
  · obtain ⟨owner, repository, hcanonical⟩ := exists_isCanonical hurl
    have hno : ∀ bytes : Bytes, (∀ byte ∈ bytes, isDriverByte byte = true) → slash ∉ bytes :=
      fun bytes hbytes hmem => (isDriverByte_units (hbytes _ hmem)).2.2.2.2.2 rfl
    exact ⟨owner, repository, hcanonical.eq, hno _ hcanonical.owner_plain,
      hno _ hcanonical.repository_plain, fun remotes selected hselected hfetch =>
        resolve_canonical parseHost otherUrl hhost hcanonical hselected hfetch⟩

def kodeUrl : Bytes := utf8 "https://github.com/2ndworld/kodeGPT.git"

def originRemote (url : Bytes) : GitRepositoryRemote := ⟨asciiUnits "origin", units url⟩

def plainHost (text : List Char) : Option String := some (String.ofList text)

theorem kodeUrl_agrees :
    (∃ text, githubAuthConfig kodeUrl (utf8 "ghp_2") = some text ∧
      IsPrivateConfig kodeUrl (utf8 "ghp_2") text) ∧
    ∃ owner repository, kodeUrl = githubPrefix ++ (owner ++ slash :: repository) ∧
      resolveGitHubRepositoryIdentity plainHost (fun _ => none) [originRemote kodeUrl] =
        if owner.length ≤ 100 ∧ (stripSuffix (utf8 ".git") repository).length ≤ 100 then
          .ok ⟨units owner, units (stripSuffix (utf8 ".git") repository),
            units owner ++ NodePaths.slash :: units (stripSuffix (utf8 ".git") repository),
            asciiUnits "origin"⟩
        else .error unsupportedRemote := by
  obtain ⟨hconfig, hresolve⟩ :=
    githubAuthConfig_agrees plainHost (fun _ => none) (by with_unfolding_all decide)
  have hsome : (githubAuthConfig kodeUrl (utf8 "ghp_2")).isSome = true := by
    with_unfolding_all decide
  obtain ⟨text, htext⟩ := Option.isSome_iff_exists.mp hsome
  obtain ⟨owner, repository, heq, -, -, hresolved⟩ := hresolve kodeUrl (by decide +kernel)
  exact ⟨⟨text, htext, hconfig _ _ _ htext⟩, owner, repository, heq,
    hresolved [originRemote kodeUrl] (originRemote kodeUrl) (by with_unfolding_all decide) rfl⟩

/-- The runtime accepts an owner of 101 letters, which the control plane does not support. -/
theorem longOwner_not_resolved :
    ¬∀ (parseHost : List Char → Option String) (otherUrl : JsText → Option RemoteUrl),
      parseHost "github.com".toList = some "github.com" →
      ∀ url, canonicalGithubHttpsRemote url = true →
        ∃ owner repository, url = githubPrefix ++ (owner ++ slash :: repository) ∧
          ∀ remotes selected, selectRemote remotes = .ok selected →
            selected.fetchUrl = units url →
            resolveGitHubRepositoryIdentity parseHost otherUrl remotes =
              .ok ⟨units owner, units (stripSuffix (utf8 ".git") repository),
                units owner ++ NodePaths.slash :: units (stripSuffix (utf8 ".git") repository),
                selected.name⟩ := by
  intro hall
  have hcanonical : IsCanonical (githubPrefix ++ (List.replicate 101 97 ++ slash :: utf8 "kode"))
      (List.replicate 101 97) (utf8 "kode") :=
    ⟨rfl, by decide +kernel, by decide +kernel, by decide +kernel⟩
  have hhost : plainHost "github.com".toList = some "github.com" := by with_unfolding_all decide
  have hselect : ∀ url, selectRemote [originRemote url] = .ok (originRemote url) := fun _ => rfl
  obtain ⟨owner, repository, -, hresolved⟩ := hall plainHost (fun _ => none) hhost _
    (by decide +kernel : canonicalGithubHttpsRemote
      (githubPrefix ++ (List.replicate 101 97 ++ slash :: utf8 "kode")) = true)
  have hfails := resolve_canonical plainHost (fun _ => none) hhost hcanonical
    (hselect _) rfl
  rw [hresolved _ _ (hselect _) rfl, if_neg (by with_unfolding_all decide)] at hfails
  cases hfails

end KodeGpt.RemoteIdentities
