import KodeGpt.Base64Url
import KodeGpt.ConfigTexts
import KodeGpt.GithubIdentities
import KodeGpt.RemoteMutations

/-!
The private configuration for a token, as a text that git reads, and the URL in it, as
the control plane reads it.
-/

namespace KodeGpt.AuthConfigs

open ConfigTexts RemoteMutations UrlReferences GithubIdentities
open JsonText (Bytes utf8)
open Base64Url (encode decode encode_digits decode_encode)
open FilterDrivers (isDriverByte)
open GitCommands (slash)

def digitByte (digit : Nat) : UInt8 :=
  if digit < 26 then (65 + digit).toUInt8
  else if digit < 52 then (97 + (digit - 26)).toUInt8
  else if digit < 62 then (48 + (digit - 52)).toUInt8
  else if digit = 62 then 43
  else 47

def byteDigit (byte : UInt8) : Option Nat :=
  (List.range 64).find? fun digit => digitByte digit = byte

/-- `STANDARD.encode`, which fills the last group up with equals signs. -/
def base64 (bytes : Bytes) : Bytes :=
  (encode bytes).map digitByte ++ List.replicate ((3 - bytes.length % 3) % 3) 61

def fromBase64 (text : Bytes) : Bytes := decode (text.filterMap byteDigit)

theorem fromBase64_base64 (bytes : Bytes) : fromBase64 (base64 bytes) = bytes := by
  have hpadding : ∀ count, (List.replicate count (61 : UInt8)).filterMap byteDigit = [] := by
    intro count
    rw [List.filterMap_eq_nil_iff]
    intro byte hbyte
    rw [List.eq_of_mem_replicate hbyte]
    decide
  have hdigit : ∀ digit < 64, byteDigit (digitByte digit) = some digit := by decide
  have hdigits : (encode bytes).filterMap (byteDigit ∘ digitByte) = encode bytes :=
    (List.filterMap_congr fun digit hmem => hdigit digit (encode_digits bytes digit hmem)).trans
      List.filterMap_some
  rw [fromBase64, base64, List.filterMap_append, hpadding, List.append_nil, List.filterMap_map,
    hdigits, decode_encode]

theorem isWord_base64 {bytes : Bytes} (hbytes : bytes ≠ []) : IsWord (base64 bytes) := by
  constructor
  · have hlength : 0 < (encode bytes).length := by
      have hpos := List.length_pos_iff.mpr hbytes
      rw [Base64Url.encode_length]
      omega
    refine List.append_ne_nil_of_left_ne_nil (fun hnil => ?_) _
    rw [List.map_eq_nil_iff.mp hnil] at hlength
    exact Nat.lt_irrefl 0 hlength
  · have hdigit : ∀ digit < 64, isValuePlain (digitByte digit) = true := by decide
    intro byte hbyte
    obtain hbyte | hbyte := List.mem_append.mp hbyte
    · obtain ⟨digit, hmem, rfl⟩ := List.mem_map.mp hbyte
      exact hdigit digit (encode_digits bytes digit hmem)
    · rw [List.eq_of_mem_replicate hbyte]
      decide

def githubAuthConfig (url token : Bytes) : Option Bytes :=
  if validateRemoteCredential token = false ∨ canonicalGithubHttpsRemote url = false then none
  else
    some (utf8 "[http \"" ++ url ++ utf8 "\"]\n\textraHeader = Authorization: Basic " ++
      base64 (utf8 "x-access-token:" ++ token) ++
      utf8 "\n\tfollowRedirects = false\n\tproxy =\n\tsslVerify = true\n")

structure IsCanonical (url owner repository : Bytes) : Prop where
  eq : url = githubPrefix ++ (owner ++ slash :: repository)
  short : url.length ≤ remoteTargetMaxBytes
  owner : validComponent owner = true
  repository : validComponent (stripSuffix (utf8 ".git") repository) = true

theorem exists_isCanonical {url : Bytes} (hurl : canonicalGithubHttpsRemote url = true) :
    ∃ owner repository, IsCanonical url owner repository := by
  simp only [canonicalGithubHttpsRemote, Bool.and_eq_true, decide_eq_true_eq, and_assoc] at hurl
  obtain ⟨hshort, hprefix, -, -, hparts⟩ := hurl
  obtain ⟨rest, rfl⟩ := List.isPrefixOf_iff_prefix.mp hprefix
  rw [List.drop_left] at hparts
  split at hparts
  · rename_i owner repository hsplit
    obtain ⟨howner, hrepository⟩ := Bool.and_eq_true_iff.mp hparts
    have hjoin : [slash].intercalate (rest.splitOn slash) = rest :=
      List.intercalate_splitOn slash
    rw [hsplit] at hjoin
    refine ⟨owner, repository, ?_, hshort, howner, hrepository⟩
    rw [← hjoin]
    simp
  · cases hparts

namespace IsCanonical

variable {url owner repository : Bytes}

theorem owner_plain (hurl : IsCanonical url owner repository) :
    ∀ byte ∈ owner, isDriverByte byte = true := by
  have howner := hurl.owner
  simp only [validComponent, Bool.and_eq_true] at howner
  exact List.all_eq_true.mp howner.2

theorem repository_plain (hurl : IsCanonical url owner repository) :
    ∀ byte ∈ repository, isDriverByte byte = true := by
  have hname := hurl.repository
  simp only [validComponent, Bool.and_eq_true] at hname
  have hall := List.all_eq_true.mp hname.2
  rw [stripSuffix] at hall
  split at hall
  · rename_i hsuffix
    obtain ⟨front, rfl⟩ := List.isSuffixOf_iff_suffix.mp hsuffix
    rw [List.length_append, Nat.add_sub_cancel, List.take_left] at hall
    have hgit : ∀ byte ∈ utf8 ".git", isDriverByte byte = true :=
      List.all_eq_true.mp (by with_unfolding_all decide)
    exact List.forall_mem_append.mpr ⟨hall, hgit⟩
  · exact hall

theorem url_plain (hurl : IsCanonical url owner repository) :
    ∀ byte ∈ url, isNamePlain byte = true ∧ byte ≠ carriageReturn := by
  have hdriver : ∀ byte, isDriverByte byte = true →
      isNamePlain byte = true ∧ byte ≠ carriageReturn := by
    intro byte hbyte
    have hall : ∀ value < 256, isDriverByte (UInt8.ofNat value) = true →
        isNamePlain (UInt8.ofNat value) = true ∧ UInt8.ofNat value ≠ carriageReturn := by
      decide +kernel
    have hvalue := hall byte.toNat byte.toNat_lt
    rw [UInt8.ofNat_toNat] at hvalue
    exact hvalue hbyte
  have hstart : ∀ byte ∈ githubPrefix, isNamePlain byte = true ∧ byte ≠ carriageReturn := by
    have hall : githubPrefix.all (fun byte =>
        isNamePlain byte && decide (byte ≠ carriageReturn)) = true := by with_unfolding_all decide
    intro byte hbyte
    have hboth := List.all_eq_true.mp hall byte hbyte
    exact ⟨(Bool.and_eq_true_iff.mp hboth).1, of_decide_eq_true (Bool.and_eq_true_iff.mp hboth).2⟩
  rw [hurl.eq]
  refine List.forall_mem_append.mpr ⟨hstart, List.forall_mem_append.mpr ⟨?_, ?_⟩⟩
  · exact fun byte hbyte => hdriver byte (hurl.owner_plain byte hbyte)
  · exact List.forall_mem_cons.mpr ⟨by decide,
      fun byte hbyte => hdriver byte (hurl.repository_plain byte hbyte)⟩

end IsCanonical

theorem isWord_of_all {word : Bytes} (hne : word ≠ []) (hall : word.all isValuePlain = true) :
    IsWord word :=
  ⟨hne, List.all_eq_true.mp hall⟩

def headerLine (token : Bytes) : Line where
  key := utf8 "extraHeader"
  words := [utf8 "Authorization:", utf8 "Basic", base64 (utf8 "x-access-token:" ++ token)]
  letter := by decide +kernel
  plain := List.all_eq_true.mp (by decide +kernel)
  word := by
    refine List.forall_mem_cons.mpr ⟨isWord_of_all (by decide +kernel) (by decide +kernel),
      List.forall_mem_cons.mpr ⟨isWord_of_all (by decide +kernel) (by decide +kernel),
        List.forall_mem_cons.mpr ⟨isWord_base64 ?_, List.forall_mem_nil _⟩⟩⟩
    exact List.append_ne_nil_of_left_ne_nil (by decide +kernel) _

def redirectsLine : Line where
  key := utf8 "followRedirects"
  words := [utf8 "false"]
  letter := by decide +kernel
  plain := List.all_eq_true.mp (by decide +kernel)
  word := List.forall_mem_cons.mpr ⟨isWord_of_all (by decide +kernel) (by decide +kernel),
    List.forall_mem_nil _⟩

def proxyLine : Line where
  key := utf8 "proxy"
  words := []
  letter := by decide +kernel
  plain := List.all_eq_true.mp (by decide +kernel)
  word := List.forall_mem_nil _

def verifyLine : Line where
  key := utf8 "sslVerify"
  words := [utf8 "true"]
  letter := by decide +kernel
  plain := List.all_eq_true.mp (by decide +kernel)
  word := List.forall_mem_cons.mpr ⟨isWord_of_all (by decide +kernel) (by decide +kernel),
    List.forall_mem_nil _⟩

def authLines (token : Bytes) : List Line :=
  [headerLine token, redirectsLine, proxyLine, verifyLine]

def authPart (url token : Bytes) : Part where
  name := utf8 "http"
  subsection := some url
  entries := [(utf8 "extraheader", some (authHeader base64 token)),
    (utf8 "followredirects", some (utf8 "false")), (utf8 "proxy", some []),
    (utf8 "sslverify", some (utf8 "true"))]

theorem authLines_entries (token : Bytes) (url : Bytes) :
    (authLines token).map Line.entry = (authPart url token).entries := by
  have hheader : (utf8 "extraHeader").map lower = utf8 "extraheader" := by with_unfolding_all decide
  have hredirects : (utf8 "followRedirects").map lower = utf8 "followredirects" := by
    with_unfolding_all decide
  have hproxy : (utf8 "proxy").map lower = utf8 "proxy" := by with_unfolding_all decide
  have hverify : (utf8 "sslVerify").map lower = utf8 "sslverify" := by with_unfolding_all decide
  have hbasic : utf8 "Authorization:" ++ ([space] ++ (utf8 "Basic" ++ [space])) =
      utf8 "Authorization: Basic " := by with_unfolding_all decide
  have hvalue : [space].intercalate [utf8 "Authorization:", utf8 "Basic",
      base64 (utf8 "x-access-token:" ++ token)] = authHeader base64 token := by
    rw [authHeader, ← hbasic]
    simp
  simp only [authLines, List.map_cons, List.map_nil, Line.entry, headerLine, redirectsLine,
    proxyLine, verifyLine, hheader, hredirects, hproxy, hverify, hvalue, authPart]
  simp

theorem githubAuthConfig_text {url token text : Bytes}
    (h : githubAuthConfig url token = some text) :
    canonicalGithubHttpsRemote url = true ∧
      text = headerText (utf8 "http") url ++ (authLines token).flatMap Line.text := by
  rw [githubAuthConfig] at h
  split at h
  · cases h
  · rename_i hvalid
    obtain rfl := Option.some.inj h
    refine ⟨by simpa using (not_or.mp hvalid).2, ?_⟩
    have hopen : utf8 "[http \"" = 91 :: (utf8 "http" ++ [space, quotationMark]) := by
      with_unfolding_all decide
    have hclose : utf8 "\"]\n\textraHeader = Authorization: Basic " =
        [quotationMark, 93, newline] ++ (9 :: (utf8 "extraHeader" ++ [space, 61] ++
          ((space :: utf8 "Authorization:") ++ ((space :: utf8 "Basic") ++ [space])))) := by
      with_unfolding_all decide
    have hrest : utf8 "\n\tfollowRedirects = false\n\tproxy =\n\tsslVerify = true\n" =
        [newline] ++ (redirectsLine.text ++ (proxyLine.text ++ verifyLine.text)) := by
      with_unfolding_all decide
    rw [hopen, hclose, hrest, headerText, authLines]
    simp only [List.flatMap_cons, List.flatMap_nil, headerLine, Line.text, lineText,
      List.append_assoc, List.cons_append, List.nil_append, List.append_nil]

theorem readParts_githubAuthConfig {url token text : Bytes}
    (h : githubAuthConfig url token = some text) : readParts text = some [authPart url token] := by
  obtain ⟨hurl, rfl⟩ := githubAuthConfig_text h
  obtain ⟨owner, repository, hurl⟩ := exists_isCanonical hurl
  have hname : (utf8 "http").map lower = utf8 "http" := by with_unfolding_all decide
  rw [readParts_render (List.all_eq_true.mp (by with_unfolding_all decide))
    (fun byte hbyte => (hurl.url_plain byte hbyte).1)
    (fun hmem => (hurl.url_plain _ hmem).2 rfl) (authLines token), hname,
    authLines_entries token url]
  rfl

end KodeGpt.AuthConfigs
