import KodeGpt.ConnectorCredentials
import KodeGpt.KeyedFamily

/-!
The credential in force over runs of overlapping rotations and authentications.
-/

namespace KodeGpt.CredentialRotation

open Base64Url ConnectorCredentials JsFrames JsObjects KeyedFamily NodePaths TextEncodings
open TransitionSystem
open JsonText (Bytes)

theorem splitOn_pair {separator : UInt16} {left right : JsText} (hleft : separator ∉ left)
    (hright : separator ∉ right) :
    (left ++ separator :: right).splitOn separator = [left, right] := by
  rw [List.splitOn_append_cons_self_of_not_mem hleft, List.splitOn_eq_singleton hright]

theorem eq_of_splitOn {separator : UInt16} {text left right : JsText}
    (h : text.splitOn separator = [left, right]) : text = left ++ separator :: right := by
  have hwords : List.intercalate [separator] (text.splitOn separator) = text :=
    List.intercalate_splitOn separator
  rw [h] at hwords
  rw [← hwords]
  simp

theorem not_mem_base64url {bytes : Bytes} {unit : UInt16} (hunit : unitDigit unit = none) :
    unit ∉ base64url bytes := by
  intro hmem
  have hdigit := mem_base64url hmem
  rw [hunit] at hdigit
  cases hdigit

theorem fullStop_no_digit : unitDigit fullStop = none := by decide

theorem space_no_digit : unitDigit space = none := by decide

/-- The token format is read as the exact inverse of its construction. -/
theorem parseConnectorToken_iff {value : JsText} {parsed : ParsedConnectorToken} :
    parseConnectorToken value = some parsed ↔ ∃ credential : Credential,
      value = credential.token ∧ parsed = ⟨credential.idText, credential.secretText⟩ := by
  unfold parseConnectorToken
  constructor
  · intro h
    split at h
    · rename_i hhead
      split at h
      · rename_i id secret hsplit
        split at h
        · rename_i hcanonical
          obtain rfl := Option.some.inj h
          obtain ⟨idBytes, hid, rfl⟩ := isCanonicalBase64Url_iff.mp hcanonical.1
          obtain ⟨secretBytes, hsecret, rfl⟩ := isCanonicalBase64Url_iff.mp hcanonical.2
          refine ⟨⟨⟨idBytes, hid⟩, ⟨secretBytes, hsecret⟩⟩, ?_, rfl⟩
          obtain ⟨rest, rfl⟩ := hhead
          rw [List.drop_left] at hsplit
          rw [eq_of_splitOn hsplit, Credential.token, List.append_assoc]
          rfl
        · cases h
      · cases h
    · cases h
  · rintro ⟨credential, rfl, rfl⟩
    have hhead : connectorTokenPrefix <+: credential.token := by
      rw [Credential.token, List.append_assoc]
      exact List.prefix_append _ _
    have hdrop : credential.token.drop connectorTokenPrefix.length =
        credential.idText ++ fullStop :: credential.secretText := by
      rw [Credential.token, List.append_assoc, List.drop_left]
    have hcanonical : isCanonicalBase64Url credential.idText connectorIdBytes = true ∧
        isCanonicalBase64Url credential.secretText connectorSecretBytes = true :=
      ⟨isCanonicalBase64Url_iff.mpr ⟨_, credential.id.property, rfl⟩,
        isCanonicalBase64Url_iff.mpr ⟨_, credential.secret.property, rfl⟩⟩
    have hsplit : (credential.idText ++ fullStop :: credential.secretText).splitOn fullStop =
        [credential.idText, credential.secretText] :=
      splitOn_pair (not_mem_base64url fullStop_no_digit) (not_mem_base64url fullStop_no_digit)
    rw [if_pos hhead, hdrop, hsplit]
    exact if_pos hcanonical

theorem credential_ext {left right : Credential} (hid : left.idText = right.idText)
    (hsecret : left.secretText = right.secretText) : left = right := by
  obtain ⟨⟨id, hidLength⟩, ⟨secret, hsecretLength⟩⟩ := left
  obtain ⟨⟨id', hidLength'⟩, ⟨secret', hsecretLength'⟩⟩ := right
  obtain rfl := base64url_injective hid
  obtain rfl := base64url_injective hsecret
  rfl

/-- The letters of a word, each of them small or capital. -/
def SameLetters (text word : JsText) : Prop :=
  List.Forall₂ (fun unit letter => unit = letter ∨ unit + 32 = letter) text word

def IsBearer (scheme : JsText) : Prop := SameLetters scheme bearer

/-- A small letter other than the two that letters outside ASCII have in their small forms. -/
def Plain (letter : UInt16) : Prop :=
  97 ≤ letter.toNat ∧ letter.toNat ≤ 122 ∧ letter ≠ 105 ∧ letter ≠ 107

theorem lowerUnit_append {unit letter : UInt16} (hletter : Plain letter) (rest later : JsText) :
    lowerUnit unit ++ rest = letter :: later ↔
      (unit = letter ∨ unit + 32 = letter) ∧ rest = later := by
  obtain ⟨hsmall, hlarge, hi, hk⟩ := hletter
  have hadd : (unit + 32).toNat = (unit.toNat + 32) % 65536 := UInt16.toNat_add unit 32
  unfold lowerUnit
  simp only [UInt16.le_iff_toNat_le]
  split
  · rename_i hcapital
    have hne : unit ≠ letter := by
      rintro rfl
      have hbound : unit.toNat ≤ 90 := hcapital.2
      omega
    simp [hne]
  · rename_i hother
    have hself : unit + 32 ≠ letter := by
      rintro rfl
      refine hother ⟨?_, ?_⟩
      · show 65 ≤ unit.toNat
        have hbound := unit.toNat_lt
        omega
      · show unit.toNat ≤ 90
        have hbound := unit.toNat_lt
        omega
    have hforeign : ∀ code : UInt16, 122 < code.toNat → unit = code →
        ¬ (unit = letter ∨ unit + 32 = letter) := by
      rintro code hcode rfl (rfl | h)
      · omega
      · exact hself h
    split
    · rename_i hkelvin
      exact ⟨fun h => absurd (List.cons.inj h).1 (Ne.symm hk),
        fun h => absurd h.1 (hforeign 8490 (by decide) hkelvin)⟩
    · split
      · rename_i hdotted
        exact ⟨fun h => absurd (List.cons.inj h).1 (Ne.symm hi),
          fun h => absurd h.1 (hforeign 304 (by decide) hdotted)⟩
      · simp [hself]

theorem toLowerCase_iff {text word : JsText} (hword : ∀ letter ∈ word, Plain letter) :
    toLowerCase text = word ↔ SameLetters text word := by
  induction text generalizing word with
  | nil =>
    cases word with
    | nil => exact ⟨fun _ => .nil, fun _ => rfl⟩
    | cons letter later => exact ⟨nofun, nofun⟩
  | cons unit rest ih =>
    have hcons : toLowerCase (unit :: rest) = lowerUnit unit ++ toLowerCase rest := rfl
    cases word with
    | nil =>
      refine ⟨fun h => ?_, nofun⟩
      have hnil : lowerUnit unit = [] := (List.append_eq_nil_iff.mp (hcons ▸ h)).1
      unfold lowerUnit at hnil
      split_ifs at hnil
    | cons letter later =>
      obtain ⟨hletter, hlater⟩ := List.forall_mem_cons.mp hword
      rw [hcons, lowerUnit_append hletter, ih hlater]
      unfold SameLetters
      rw [List.forall₂_cons]

instance : DecidablePred Plain := fun _ => inferInstanceAs (Decidable (_ ∧ _))

theorem space_not_mem {text word : JsText} (hword : ∀ letter ∈ word, Plain letter)
    (h : SameLetters text word) : space ∉ text := by
  induction h with
  | nil => exact List.not_mem_nil
  | cons hunit hrest ih =>
    obtain ⟨hletter, hlater⟩ := List.forall_mem_cons.mp hword
    refine List.not_mem_cons_of_ne_of_not_mem ?_ (ih hlater)
    rintro rfl
    obtain rfl | rfl := hunit
    · exact absurd hletter (by decide)
    · exact absurd hletter (by decide)

theorem bearer_plain : ∀ letter ∈ bearer, Plain letter := by
  have hall : bearer.all (fun letter => decide (Plain letter)) = true := by decide
  exact fun letter hletter => of_decide_eq_true (List.all_eq_true.mp hall letter hletter)

/-- A header is read just if it is the scheme, one space and a token. -/
theorem parseAuthorization_iff {authorization : Option JsText} {parsed : ParsedConnectorToken} :
    parseAuthorization authorization = some parsed ↔ ∃ scheme, ∃ credential : Credential,
      authorization = some (scheme ++ space :: credential.token) ∧ IsBearer scheme ∧
        parsed = ⟨credential.idText, credential.secretText⟩ := by
  unfold parseAuthorization
  constructor
  · intro h
    split at h
    · cases h
    · rename_i header
      split at h
      · rename_i scheme credentials hsplit
        split at h
        · rename_i hscheme
          obtain ⟨credential, rfl, rfl⟩ := parseConnectorToken_iff.mp h
          exact ⟨scheme, credential, congrArg some (eq_of_splitOn hsplit),
            (toLowerCase_iff bearer_plain).mp hscheme.2, rfl⟩
        · cases h
      · cases h
  · rintro ⟨scheme, credential, rfl, hbearer, rfl⟩
    have hscheme : scheme ≠ [] ∧ toLowerCase scheme = bearer := by
      refine ⟨?_, (toLowerCase_iff bearer_plain).mpr hbearer⟩
      rintro rfl
      cases hbearer
    have hspaceless : space ∉ scheme := space_not_mem bearer_plain hbearer
    have htoken : space ∉ credential.token := by
      have hhead : space ∉ connectorTokenPrefix := by decide
      rw [Credential.token, List.mem_append, List.mem_append, List.mem_cons, not_or, not_or, not_or]
      exact ⟨⟨hhead, not_mem_base64url space_no_digit⟩, by decide, not_mem_base64url space_no_digit⟩
    dsimp only
    rw [splitOn_pair hspaceless htoken]
    dsimp only
    rw [if_pos hscheme]
    exact parseConnectorToken_iff.mpr ⟨credential, rfl, rfl⟩

section Verifying

variable (p : Platform)

/-- No two secrets have one digest under one identifier. A digest is no longer than a secret, so
that more cannot be asked for. -/
def NoCollision : Prop :=
  ∀ left right : Credential, left.id = right.id →
    p.sha256 (verifierInput left.idText left.secretText) =
      p.sha256 (verifierInput right.idText right.secretText) → left = right

def Credential.verifier (credential : Credential) : JsText :=
  base64url (p.sha256 (verifierInput credential.idText credential.secretText))

structure Records (credential : Credential) (document : Document) : Prop where
  id : document.id = credential.idText
  verifier : document.verifier = Credential.verifier p credential
  createdAt : p.isIsoTimestamp document.createdAt = true
  rotatedAt : p.isIsoTimestamp document.rotatedAt = true

variable {p}

theorem deriveConnectorVerifier_credential (credential : Credential) :
    deriveConnectorVerifier p credential.idText credential.secretText =
      some (Credential.verifier p credential) :=
  if_pos ⟨isCanonicalBase64Url_iff.mpr ⟨_, credential.id.property, rfl⟩,
    isCanonicalBase64Url_iff.mpr ⟨_, credential.secret.property, rfl⟩⟩

theorem readDocument_records {credential : Credential} {document : Document}
    (h : Records p credential document) : readDocument p (some document) = .ok (some document) := by
  refine if_pos ⟨?_, ?_, h.createdAt, h.rotatedAt⟩
  · rw [h.id]
    exact isCanonicalBase64Url_iff.mpr ⟨_, credential.id.property, rfl⟩
  · rw [h.verifier]
    exact isCanonicalBase64Url_iff.mpr ⟨_, (p.sha256 _).property, rfl⟩

theorem records_of_issue {previous : Option Document} {credential : Credential} {now : JsText}
    (hnow : p.isIsoTimestamp now = true)
    (hprevious : ∀ document ∈ previous, p.isIsoTimestamp document.createdAt = true) :
    ∃ document, issue p previous credential now = some document ∧ Records p credential document := by
  unfold issue
  rw [deriveConnectorVerifier_credential]
  refine ⟨_, rfl, rfl, rfl, ?_, hnow⟩
  cases previous with
  | none => exact hnow
  | some document => exact hprevious document rfl

theorem verify_records (hcollision : NoCollision p) {current : Credential} {document : Document}
    (h : Records p current document) (credential : Credential) :
    verify p ⟨credential.idText, credential.secretText⟩ (some document) = .ok true ↔
      credential = current := by
  have hverify : verify p ⟨credential.idText, credential.secretText⟩ (some document) =
      if document.id = credential.idText then
        .ok (decide (fromBase64url (Credential.verifier p credential) =
          fromBase64url document.verifier))
      else .ok false := by
    unfold verify
    rw [readDocument_records h, deriveConnectorVerifier_credential]
    rfl
  rw [hverify, h.id, h.verifier]
  constructor
  · intro haccepted
    split at haccepted
    · rename_i hid
      have hsame := of_decide_eq_true (Except.ok.inj haccepted)
      rw [Credential.verifier, Credential.verifier, fromBase64url_base64url,
        fromBase64url_base64url] at hsame
      exact hcollision credential current
        (Subtype.ext (base64url_injective hid.symm)) (Subtype.ext hsame)
    · cases haccepted
  · rintro rfl
    rw [if_pos rfl, decide_eq_true rfl]

end Verifying

section Property

variable (p : Platform)

/-- The header is the scheme, one space and the token of the credential in force. -/
def Accepted (s : State) (authorization : Option JsText) : Prop :=
  ∃ scheme credential, s.inForce = some credential ∧
    authorization = some (scheme ++ space :: credential.token) ∧ IsBearer scheme

def Event.number : Event → Nat
  | .rotate number | .read number _ _ | .step number | .fail number => number
  | .authenticate number _ | .load number => number

structure Reliable (events : List Event) : Prop where
  /-- A call answers with true just if its header is accepted when it is answered. -/
  authenticated : ∀ front event back s t number authorization outcome,
    events = front ++ event :: back → exec (next p) start front = some s →
    next p s event = some t → s.calls number ≠ some (.authenticated authorization outcome) →
    t.calls number = some (.authenticated authorization outcome) →
    (outcome = .ok true ↔ Accepted s authorization)
  /-- The credential of a rotation that resolves is in force until a rotation starts. -/
  resolved : ∀ front event middle back s t u number credential,
    events = front ++ event :: (middle ++ back) → exec (next p) start front = some s →
    next p s event = some t → s.calls number ≠ some (.rotate (.resolved credential)) →
    t.calls number = some (.rotate (.resolved credential)) → exec (next p) t middle = some u →
    (∀ later, Event.rotate later ∉ middle) → u.inForce = some credential
  /-- No step of a rotation that rejects changes the credential. -/
  rejected : ∀ front event back s t u, events = front ++ event :: back →
    exec (next p) start front = some s → next p s event = some t → exec (next p) t back = some u →
    u.calls (Event.number event) = some (.rotate .rejected) →
    t.file = s.file ∧ t.inForce = s.inForce

def WriteStep.renamed : WriteStep → Bool
  | .chmodFile | .openDirectory | .syncDirectory | .closeDirectory => true
  | _ => false

/-- A step of a rotation does not fail after its rename, and a rotation renames only when no
other one has renamed and not resolved yet, and none has resolved since a rotation started. -/
def Orderly (s : State) : Event → Prop
  | .fail number => ∀ credential document step,
      s.calls number = some (.rotate (.writing credential document step)) →
        WriteStep.renamed step = false
  | .step number => ∀ credential document,
      s.calls number = some (.rotate (.writing credential document .rename)) →
        s.settled = false ∧ ∀ other credential document step, other ≠ number →
          s.calls other = some (.rotate (.writing credential document step)) →
            WriteStep.renamed step = false
  | _ => True

end Property

structure Sound (p : Platform) (s : State) : Prop where
  file : (s.file = none ∧ s.inForce = none) ∨ ∃ credential document,
    s.file = some document ∧ s.inForce = some credential ∧ Records p credential document
  writing : ∀ number credential document step,
    s.calls number = some (.rotate (.writing credential document step)) →
      Records p credential document
  authenticating : ∀ number authorization parsed,
    s.calls number = some (.authenticating authorization parsed) →
      parseAuthorization authorization = some parsed

inductive Taken (p : Platform) (s : State) : Event → State → Prop where
  | rotate (number : Nat) (hfresh : s.calls number = none) :
      Taken p s (.rotate number) { s.setCall number (.rotate .reading) with settled := false }
  | read (number : Nat) (credential : Credential) (now : JsText) (document : Document)
      (hcall : s.calls number = some (.rotate .reading))
      (hrecords : Records p credential document) :
      Taken p s (.read number credential now)
        (s.setCall number (.rotate (.writing credential document .mkdir)))
  | advance (number : Nat) (credential : Credential) (document : Document) (step later : WriteStep)
      (hcall : s.calls number = some (.rotate (.writing credential document step)))
      (hsame : WriteStep.renamed later = WriteStep.renamed step) :
      Taken p s (.step number) (s.setCall number (.rotate (.writing credential document later)))
  | rename (number : Nat) (credential : Credential) (document : Document)
      (hcall : s.calls number = some (.rotate (.writing credential document .rename))) :
      Taken p s (.step number)
        (State.setCall { s with file := some document, inForce := some credential } number
          (.rotate (.writing credential document .chmodFile)))
  | resolve (number : Nat) (credential : Credential) (document : Document)
      (hcall : s.calls number = some (.rotate (.writing credential document .closeDirectory))) :
      Taken p s (.step number)
        { s.setCall number (.rotate (.resolved credential)) with settled := true }
  | clean (number : Nat) (hcall : s.calls number = some (.rotate .cleaning)) :
      Taken p s (.step number) (s.setCall number (.rotate .rejected))
  | unread (number : Nat) (hcall : s.calls number = some (.rotate .reading)) :
      Taken p s (.fail number) (s.setCall number (.rotate .rejected))
  | fail (number : Nat) (credential : Credential) (document : Document) (step : WriteStep)
      (hcall : s.calls number = some (.rotate (.writing credential document step))) :
      Taken p s (.fail number) (s.setCall number (.rotate (failed step)))
  | refuse (number : Nat) (authorization : Option JsText) (hfresh : s.calls number = none)
      (hparsed : parseAuthorization authorization = none) :
      Taken p s (.authenticate number authorization)
        (s.setCall number (.authenticated authorization (.ok false)))
  | authenticate (number : Nat) (authorization : Option JsText) (parsed : ParsedConnectorToken)
      (hfresh : s.calls number = none) (hparsed : parseAuthorization authorization = some parsed) :
      Taken p s (.authenticate number authorization)
        (s.setCall number (.authenticating authorization parsed))
  | load (number : Nat) (authorization : Option JsText) (parsed : ParsedConnectorToken)
      (hcall : s.calls number = some (.authenticating authorization parsed)) :
      Taken p s (.load number)
        (s.setCall number (.authenticated authorization (verify p parsed s.file)))

section Steps

variable {p : Platform} {s t : State} {event : Event}

theorem taken_read (h : Sound p s) {number : Nat} {credential : Credential} {now : JsText}
    (hcall : s.calls number = some (.rotate .reading)) (hnow : p.isIsoTimestamp now = true) :
    Taken p s (.read number credential now) (s.read p number credential now) := by
  have hread : ∃ previous, readDocument p s.file = .ok previous ∧
      ∀ document ∈ previous, p.isIsoTimestamp document.createdAt = true := by
    obtain ⟨hfile, -⟩ | ⟨current, document, hfile, -, hrecords⟩ := h.file
    · rw [hfile]
      exact ⟨none, rfl, nofun⟩
    · rw [hfile]
      refine ⟨some document, readDocument_records hrecords, ?_⟩
      rintro _ ⟨⟩
      exact hrecords.createdAt
  obtain ⟨previous, hprevious, htimes⟩ := hread
  obtain ⟨document, hissue, hrecords⟩ := records_of_issue (p := p) hnow htimes
  rw [State.read, hprevious]
  dsimp only
  rw [hissue]
  exact .read number credential now document hcall hrecords

theorem taken_write {number : Nat} {credential : Credential} {document : Document}
    {step : WriteStep} (hcall : s.calls number = some (.rotate (.writing credential document step))) :
    Taken p s (.step number) (s.write number credential document step) := by
  cases step with
  | rename => exact .rename number credential document hcall
  | closeDirectory => exact .resolve number credential document hcall
  | mkdir => exact .advance number credential document _ _ hcall rfl
  | chmodDirectory => exact .advance number credential document _ _ hcall rfl
  | openTemporary => exact .advance number credential document _ _ hcall rfl
  | writeTemporary => exact .advance number credential document _ _ hcall rfl
  | syncTemporary => exact .advance number credential document _ _ hcall rfl
  | closeTemporary => exact .advance number credential document _ _ hcall rfl
  | chmodFile => exact .advance number credential document _ _ hcall rfl
  | openDirectory => exact .advance number credential document _ _ hcall rfl
  | syncDirectory => exact .advance number credential document _ _ hcall rfl

theorem taken (hsound : Sound p s) (h : next p s event = some t) : Taken p s event t := by
  cases event with
  | rotate number =>
    rw [next] at h
    split at h
    · rename_i hfresh
      obtain rfl := Option.some.inj h
      exact .rotate number hfresh
    · cases h
  | read number credential now =>
    rw [next] at h
    split at h
    · rename_i hcall
      split at h
      · rename_i hnow
        obtain rfl := Option.some.inj h
        exact taken_read hsound hcall hnow
      · cases h
    · cases h
  | step number =>
    rw [next] at h
    split at h
    · rename_i credential document step hcall
      obtain rfl := Option.some.inj h
      exact taken_write hcall
    · rename_i hcall
      obtain rfl := Option.some.inj h
      exact .clean number hcall
    · cases h
  | fail number =>
    rw [next] at h
    split at h
    · rename_i hcall
      obtain rfl := Option.some.inj h
      exact .unread number hcall
    · rename_i credential document step hcall
      obtain rfl := Option.some.inj h
      exact .fail number credential document step hcall
    · cases h
  | authenticate number authorization =>
    rw [next] at h
    split at h
    · rename_i hfresh
      split at h
      · rename_i hparsed
        obtain rfl := Option.some.inj h
        exact .refuse number authorization hfresh hparsed
      · rename_i parsed hparsed
        obtain rfl := Option.some.inj h
        exact .authenticate number authorization parsed hfresh hparsed
    · cases h
  | load number =>
    rw [next] at h
    split at h
    · rename_i authorization parsed hcall
      obtain rfl := Option.some.inj h
      exact .load number authorization parsed hcall
    · cases h

theorem Sound.setCall (h : Sound p s) {number : Nat} {call : Call}
    (hwriting : ∀ credential document step, call = .rotate (.writing credential document step) →
      Records p credential document)
    (hauthenticating : ∀ authorization parsed, call = .authenticating authorization parsed →
      parseAuthorization authorization = some parsed) : Sound p (s.setCall number call) where
  file := h.file
  writing := by
    intro other credential document step hcall
    obtain ⟨-, heq⟩ | ⟨-, hcall⟩ := update_eq_some hcall
    · exact hwriting credential document step heq.symm
    · exact h.writing other credential document step hcall
  authenticating := by
    intro other authorization parsed hcall
    obtain ⟨-, heq⟩ | ⟨-, hcall⟩ := update_eq_some hcall
    · exact hauthenticating authorization parsed heq.symm
    · exact h.authenticating other authorization parsed hcall

theorem Sound.settle (h : Sound p s) (settled : Bool) : Sound p { s with settled } :=
  ⟨h.file, h.writing, h.authenticating⟩

theorem Sound.rename (h : Sound p s) {credential : Credential} {document : Document}
    (hrecords : Records p credential document) :
    Sound p { s with file := some document, inForce := some credential } :=
  ⟨Or.inr ⟨credential, document, rfl, rfl, hrecords⟩, h.writing, h.authenticating⟩

theorem sound_start : Sound p start := ⟨Or.inl ⟨rfl, rfl⟩, nofun, nofun⟩

theorem failed_cases (step : WriteStep) : failed step = .rejected ∨ failed step = .cleaning := by
  cases step <;> simp [failed]

theorem Sound.taken (h : Sound p s) (htaken : Taken p s event t) : Sound p t := by
  cases htaken with
  | rotate number hfresh =>
    have hcalls : Sound p (s.setCall number (.rotate .reading)) := h.setCall nofun nofun
    exact hcalls.settle false
  | read number credential now document hcall hrecords =>
    exact h.setCall (by rintro _ _ _ ⟨⟩; exact hrecords) nofun
  | advance number credential document step later hcall hsame =>
    exact h.setCall (by rintro _ _ _ ⟨⟩; exact h.writing _ _ _ _ hcall) nofun
  | rename number credential document hcall =>
    have hrecords := h.writing _ _ _ _ hcall
    exact (h.rename hrecords).setCall (by rintro _ _ _ ⟨⟩; exact hrecords) nofun
  | resolve number credential document hcall =>
    have hcalls : Sound p (s.setCall number (.rotate (.resolved credential))) :=
      h.setCall nofun nofun
    exact hcalls.settle true
  | clean number hcall => exact h.setCall nofun nofun
  | unread number hcall => exact h.setCall nofun nofun
  | fail number credential document step hcall =>
    obtain hfailed | hfailed := failed_cases step
    · rw [hfailed]
      exact h.setCall nofun nofun
    · rw [hfailed]
      exact h.setCall nofun nofun
  | refuse number authorization hfresh hparsed => exact h.setCall nofun nofun
  | authenticate number authorization parsed hfresh hparsed =>
    exact h.setCall nofun (by rintro _ _ ⟨⟩; exact hparsed)
  | load number authorization parsed hcall => exact h.setCall nofun nofun

theorem sound_of_exec {events : List Event} (hrun : exec (next p) start events = some s) :
    Sound p s :=
  @exec_invariant _ _ (next p) (Sound p) (fun _ _ => True)
    (fun _ _ _ hsound _ hnext => hsound.taken (taken hsound hnext)) _ _ _ sound_start
    (AllSteps.of_forall (fun _ _ => trivial) _ _) hrun

/-- An answer is right about the credential in force when it is given. -/
theorem authenticated_iff (hcollision : NoCollision p) (h : Sound p s) (htaken : Taken p s event t)
    {number : Nat} {authorization : Option JsText} {outcome : Except Unit Bool}
    (hbefore : s.calls number ≠ some (.authenticated authorization outcome))
    (hafter : t.calls number = some (.authenticated authorization outcome)) :
    outcome = .ok true ↔ Accepted s authorization := by
  have hnew : ∀ {changed : Nat} {call : Call},
      (s.setCall changed call).calls number = some (.authenticated authorization outcome) →
        call = .authenticated authorization outcome := by
    intro changed call hcall
    obtain ⟨-, heq⟩ | ⟨-, hold⟩ := update_eq_some hcall
    · exact heq.symm
    · exact absurd hold hbefore
  cases htaken with
  | rotate number hfresh => cases hnew hafter
  | read number credential now document hcall hrecords => cases hnew hafter
  | advance number credential document step later hcall hsame => cases hnew hafter
  | rename changed credential document hcall =>
    obtain ⟨-, heq⟩ | ⟨-, hold⟩ := update_eq_some hafter
    · cases heq
    · exact absurd hold hbefore
  | resolve number credential document hcall => cases hnew hafter
  | clean number hcall => cases hnew hafter
  | unread number hcall => cases hnew hafter
  | fail number credential document step hcall => cases hnew hafter
  | refuse changed header hfresh hparsed =>
    obtain ⟨⟩ := hnew hafter
    refine ⟨nofun, ?_⟩
    rintro ⟨scheme, credential, -, hheader, hbearer⟩
    have hread := parseAuthorization_iff.mpr ⟨scheme, credential, hheader, hbearer, rfl⟩
    rw [hparsed] at hread
    cases hread
  | authenticate changed header parsed hfresh hparsed => cases hnew hafter
  | load changed header parsed hcall =>
    obtain ⟨⟩ := hnew hafter
    obtain ⟨scheme, credential, hheader, hbearer, rfl⟩ :=
      parseAuthorization_iff.mp (h.authenticating _ _ _ hcall)
    obtain ⟨hfile, hforce⟩ | ⟨current, document, hfile, hforce, hrecords⟩ := h.file
    · rw [hfile]
      refine ⟨nofun, ?_⟩
      rintro ⟨_, other, hother, -⟩
      rw [hforce] at hother
      cases hother
    · rw [hfile, verify_records hcollision hrecords]
      constructor
      · rintro rfl
        exact ⟨scheme, credential, hforce, hheader, hbearer⟩
      · rintro ⟨scheme', other, hother, hheader', hbearer'⟩
        have hread := parseAuthorization_iff.mpr ⟨scheme, credential, hheader, hbearer, rfl⟩
        have hread' := parseAuthorization_iff.mpr ⟨scheme', other, hheader', hbearer', rfl⟩
        have hsame := Option.some.inj (hread.symm.trans hread')
        rw [credential_ext (congrArg ParsedConnectorToken.id hsame)
          (congrArg ParsedConnectorToken.secret hsame)]
        exact Option.some.inj (hother.symm.trans hforce)

/-- A rotation that has renamed is alone in this, and its credential is in force. -/
def Ordered (s : State) : Prop :=
  ∀ number credential document step,
    s.calls number = some (.rotate (.writing credential document step)) →
    WriteStep.renamed step = true → s.inForce = some credential ∧ s.settled = false ∧
      ∀ other credential document step, other ≠ number →
        s.calls other = some (.rotate (.writing credential document step)) →
          WriteStep.renamed step = false

theorem Ordered.setCall (h : Ordered s) {number : Nat} {call : Call}
    (hcall : ∀ credential document later, call = .rotate (.writing credential document later) →
      WriteStep.renamed later = true → ∃ document step,
        s.calls number = some (.rotate (.writing credential document step)) ∧
          WriteStep.renamed step = true) : Ordered (s.setCall number call) := by
  intro found credential document step hfound hrenamed
  obtain ⟨rfl, rfl⟩ | ⟨hne, hfound⟩ := update_eq_some hfound
  · obtain ⟨old, before, hold, hbefore⟩ := hcall credential document step rfl hrenamed
    obtain ⟨hforce, hsettled, halone⟩ := h found credential old before hold hbefore
    refine ⟨hforce, hsettled, ?_⟩
    intro other credential' document' step' hother hcall'
    obtain ⟨rfl, -⟩ | ⟨-, hcall'⟩ := update_eq_some hcall'
    · exact absurd rfl hother
    · exact halone other credential' document' step' hother hcall'
  · obtain ⟨hforce, hsettled, halone⟩ := h found credential document step hfound hrenamed
    refine ⟨hforce, hsettled, ?_⟩
    intro other credential' document' step' hother hcall'
    obtain ⟨rfl, rfl⟩ | ⟨-, hcall'⟩ := update_eq_some hcall'
    · cases hlater : WriteStep.renamed step' with
      | false => rfl
      | true =>
        obtain ⟨old, before, hold, hbefore⟩ := hcall credential' document' step' rfl hlater
        exact absurd (hbefore.symm.trans (halone other credential' old before hother hold)) (by decide)
    · exact halone other credential' document' step' hother hcall'

theorem Ordered.taken (h : Ordered s) (hok : Orderly s event) (htaken : Taken p s event t) :
    Ordered t := by
  cases htaken with
  | rotate number hfresh =>
    have hcalls : Ordered (s.setCall number (.rotate .reading)) := h.setCall nofun
    intro found credential document step hfound hrenamed
    obtain ⟨hforce, -, halone⟩ := hcalls found credential document step hfound hrenamed
    exact ⟨hforce, rfl, halone⟩
  | read number credential now document hcall hrecords =>
    exact h.setCall (by rintro _ _ _ ⟨⟩ ⟨⟩)
  | advance number credential document step later hcall hsame =>
    refine h.setCall ?_
    rintro _ _ _ ⟨⟩ hrenamed
    exact ⟨document, step, hcall, hsame ▸ hrenamed⟩
  | rename number credential document hcall =>
    obtain ⟨hsettled, halone⟩ := hok credential document hcall
    intro found credential' document' step' hfound hrenamed
    obtain ⟨rfl, heq⟩ | ⟨hne, hfound⟩ := update_eq_some hfound
    · obtain ⟨⟩ := heq
      refine ⟨rfl, hsettled, ?_⟩
      intro other _ _ _ hother hcall'
      obtain ⟨rfl, -⟩ | ⟨-, hcall'⟩ := update_eq_some hcall'
      · exact absurd rfl hother
      · exact halone other _ _ _ hother hcall'
    · exact absurd (hrenamed.symm.trans (halone found _ _ _ hne hfound)) (by decide)
  | resolve number credential document hcall =>
    obtain ⟨-, -, halone⟩ := h number credential document _ hcall rfl
    intro found credential' document' step' hfound hrenamed
    obtain ⟨rfl, heq⟩ | ⟨hne, hfound⟩ := update_eq_some hfound
    · cases heq
    · exact absurd (hrenamed.symm.trans (halone found _ _ _ hne hfound)) (by decide)
  | clean number hcall => exact h.setCall nofun
  | unread number hcall => exact h.setCall nofun
  | fail number credential document step hcall =>
    obtain hfailed | hfailed := failed_cases step
    · rw [hfailed]
      exact h.setCall nofun
    · rw [hfailed]
      exact h.setCall nofun
  | refuse number authorization hfresh hparsed => exact h.setCall nofun
  | authenticate number authorization parsed hfresh hparsed => exact h.setCall nofun
  | load number authorization parsed hcall => exact h.setCall nofun

theorem settled_taken (hsettled : s.settled = true) (hok : Orderly s event)
    (htaken : Taken p s event t) (hstart : ∀ number, event ≠ .rotate number) :
    t.settled = true ∧ t.inForce = s.inForce := by
  cases htaken with
  | rotate number hfresh => exact absurd rfl (hstart number)
  | rename number credential document hcall =>
    exact absurd (hsettled.symm.trans (hok credential document hcall).1) (by decide)
  | resolve number credential document hcall => exact ⟨rfl, rfl⟩
  | read number credential now document hcall hrecords => exact ⟨hsettled, rfl⟩
  | advance number credential document step later hcall hsame => exact ⟨hsettled, rfl⟩
  | clean number hcall => exact ⟨hsettled, rfl⟩
  | unread number hcall => exact ⟨hsettled, rfl⟩
  | fail number credential document step hcall => exact ⟨hsettled, rfl⟩
  | refuse number authorization hfresh hparsed => exact ⟨hsettled, rfl⟩
  | authenticate number authorization parsed hfresh hparsed => exact ⟨hsettled, rfl⟩
  | load number authorization parsed hcall => exact ⟨hsettled, rfl⟩

theorem settled_of_exec {middle : List Event} {u : State} (hsound : Sound p s)
    (hsettled : s.settled = true) (hok : AllSteps (next p) Orderly s middle)
    (hrun : exec (next p) s middle = some u) (hstart : ∀ number, Event.rotate number ∉ middle) :
    u.inForce = s.inForce := by
  induction middle generalizing s with
  | nil =>
    obtain rfl : s = u := by simpa using hrun
    rfl
  | cons event rest ih =>
    obtain ⟨t, hnext, hrest⟩ := Option.bind_eq_some_iff.mp hrun
    have htaken := taken hsound hnext
    have hevent : ∀ number, event ≠ .rotate number := by
      rintro number rfl
      exact hstart number List.mem_cons_self
    obtain ⟨hlater, hforce⟩ := settled_taken hsettled hok.1 htaken hevent
    rw [← hforce]
    exact ih (hsound.taken htaken) hlater (hok.2 t hnext) hrest fun number hmem =>
      hstart number (List.mem_cons_of_mem _ hmem)

def isRenamed : Call → Bool
  | .rotate (.writing _ _ step) => WriteStep.renamed step
  | .rotate (.resolved _) => true
  | _ => false

def Renamed (number : Nat) (s : State) : Prop :=
  ∃ call, s.calls number = some call ∧ isRenamed call = true

theorem Renamed.call {number : Nat} (h : Renamed number s) {call : Call}
    (hcall : s.calls number = some call) : isRenamed call = true := by
  obtain ⟨found, hfound, hrenamed⟩ := h
  obtain rfl := Option.some.inj (hcall.symm.trans hfound)
  exact hrenamed

theorem Renamed.setCall {number changed : Nat} {call : Call} (h : Renamed number s)
    (hcall : changed = number → isRenamed call = true) : Renamed number (s.setCall changed call) := by
  by_cases heq : changed = number
  · subst heq
    exact ⟨call, Function.update_self _ _ _, hcall rfl⟩
  · obtain ⟨found, hfound, hrenamed⟩ := h
    exact ⟨found, (Function.update_of_ne (Ne.symm heq) _ _).trans hfound, hrenamed⟩

theorem Renamed.taken {number : Nat} (h : Renamed number s) (hok : Orderly s event)
    (htaken : Taken p s event t) : Renamed number t := by
  cases htaken with
  | rotate changed hfresh =>
    refine h.setCall ?_
    rintro rfl
    obtain ⟨call, hcall, -⟩ := h
    cases hfresh.symm.trans hcall
  | read changed credential now document hcall hrecords =>
    refine h.setCall ?_
    rintro rfl
    cases h.call hcall
  | advance changed credential document step later hcall hsame =>
    refine h.setCall ?_
    rintro rfl
    exact hsame.trans (h.call hcall)
  | rename changed credential document hcall =>
    refine Renamed.setCall ?_ fun _ => rfl
    exact h
  | resolve changed credential document hcall => exact h.setCall fun _ => rfl
  | clean changed hcall =>
    refine h.setCall ?_
    rintro rfl
    cases h.call hcall
  | unread changed hcall =>
    refine h.setCall ?_
    rintro rfl
    cases h.call hcall
  | fail changed credential document step hcall =>
    refine h.setCall ?_
    rintro rfl
    have hrenamed : WriteStep.renamed step = true := h.call hcall
    exact absurd (hrenamed.symm.trans (hok credential document step hcall)) (by decide)
  | refuse changed authorization hfresh hparsed =>
    refine h.setCall ?_
    rintro rfl
    obtain ⟨call, hcall, -⟩ := h
    cases hfresh.symm.trans hcall
  | authenticate changed authorization parsed hfresh hparsed =>
    refine h.setCall ?_
    rintro rfl
    obtain ⟨call, hcall, -⟩ := h
    cases hfresh.symm.trans hcall
  | load changed authorization parsed hcall =>
    refine h.setCall ?_
    rintro rfl
    cases h.call hcall

theorem unchanged_or_renamed (htaken : Taken p s event t) :
    (t.file = s.file ∧ t.inForce = s.inForce) ∨ Renamed (Event.number event) t := by
  cases htaken with
  | rename number credential document hcall =>
    exact Or.inr ⟨_, Function.update_self _ _ _, rfl⟩
  | rotate number hfresh => exact Or.inl ⟨rfl, rfl⟩
  | read number credential now document hcall hrecords => exact Or.inl ⟨rfl, rfl⟩
  | advance number credential document step later hcall hsame => exact Or.inl ⟨rfl, rfl⟩
  | resolve number credential document hcall => exact Or.inl ⟨rfl, rfl⟩
  | clean number hcall => exact Or.inl ⟨rfl, rfl⟩
  | unread number hcall => exact Or.inl ⟨rfl, rfl⟩
  | fail number credential document step hcall => exact Or.inl ⟨rfl, rfl⟩
  | refuse number authorization hfresh hparsed => exact Or.inl ⟨rfl, rfl⟩
  | authenticate number authorization parsed hfresh hparsed => exact Or.inl ⟨rfl, rfl⟩
  | load number authorization parsed hcall => exact Or.inl ⟨rfl, rfl⟩

theorem resolved_taken (h : Ordered s) (htaken : Taken p s event t) {number : Nat}
    {credential : Credential} (hbefore : s.calls number ≠ some (.rotate (.resolved credential)))
    (hafter : t.calls number = some (.rotate (.resolved credential))) :
    t.settled = true ∧ t.inForce = some credential := by
  have hnew : ∀ {changed : Nat} {call : Call},
      (s.setCall changed call).calls number = some (.rotate (.resolved credential)) →
        call = .rotate (.resolved credential) := by
    intro changed call hcall
    obtain ⟨-, heq⟩ | ⟨-, hold⟩ := update_eq_some hcall
    · exact heq.symm
    · exact absurd hold hbefore
  cases htaken with
  | resolve changed other document hcall =>
    obtain ⟨⟩ := hnew hafter
    exact ⟨rfl, (h changed credential document _ hcall rfl).1⟩
  | rename changed other document hcall =>
    obtain ⟨-, heq⟩ | ⟨-, hold⟩ := update_eq_some hafter
    · cases heq
    · exact absurd hold hbefore
  | fail changed other document step hcall =>
    have heq := hnew hafter
    obtain hfailed | hfailed := failed_cases step
    · rw [hfailed] at heq
      cases heq
    · rw [hfailed] at heq
      cases heq
  | rotate changed hfresh => cases hnew hafter
  | read changed other now document hcall hrecords => cases hnew hafter
  | advance changed other document step later hcall hsame => cases hnew hafter
  | clean changed hcall => cases hnew hafter
  | unread changed hcall => cases hnew hafter
  | refuse changed authorization hfresh hparsed => cases hnew hafter
  | authenticate changed authorization parsed hfresh hparsed => cases hnew hafter
  | load changed authorization parsed hcall => cases hnew hafter

theorem ordered_of_exec {events : List Event} (hok : AllSteps (next p) Orderly start events)
    (hrun : exec (next p) start events = some s) : Ordered s := by
  have hboth : Sound p s ∧ Ordered s := by
    refine @exec_invariant _ _ (next p) (fun s => Sound p s ∧ Ordered s) Orderly ?_ _ _ _
      ⟨sound_start, nofun⟩ hok hrun
    intro s event t hinv hevent hnext
    have htaken := taken hinv.1 hnext
    exact ⟨hinv.1.taken htaken, hinv.2.taken hevent htaken⟩
  exact hboth.2

theorem renamed_of_exec {number : Nat} {events : List Event} {u : State} (hsound : Sound p s)
    (h : Renamed number s) (hok : AllSteps (next p) Orderly s events)
    (hrun : exec (next p) s events = some u) : Renamed number u := by
  have hboth : Sound p u ∧ Renamed number u := by
    refine @exec_invariant _ _ (next p) (fun s => Sound p s ∧ Renamed number s) Orderly ?_ _ _ _
      ⟨hsound, h⟩ hok hrun
    intro s event t hinv hevent hnext
    have htaken := taken hinv.1 hnext
    exact ⟨hinv.1.taken htaken, hinv.2.taken hevent htaken⟩
  exact hboth.2

end Steps

/-- In a run whose steps are all orderly the credential is reliable. -/
theorem reliable_of_orderly (p : Platform) (hcollision : NoCollision p) (events : List Event)
    (hok : AllSteps (next p) Orderly start events) : Reliable p events where
  authenticated := by
    rintro front event back s t number authorization outcome - hfront hnext hbefore hafter
    have hsound := sound_of_exec hfront
    exact authenticated_iff hcollision hsound (taken hsound hnext) hbefore hafter
  resolved := by
    rintro front event middle back s t u number credential rfl hfront hnext hbefore hafter hmiddle
      hstart
    have hsound := sound_of_exec hfront
    have htaken := taken hsound hnext
    have hordered := ordered_of_exec hok.front hfront
    obtain ⟨hsettled, hforce⟩ := resolved_taken hordered htaken hbefore hafter
    have hback := (hok.back hfront).2 t hnext
    rw [settled_of_exec (hsound.taken htaken) hsettled hback.front hmiddle hstart, hforce]
  rejected := by
    rintro front event back s t u rfl hfront hnext hback hrejected
    have hsound := sound_of_exec hfront
    have htaken := taken hsound hnext
    obtain hsame | hrenamed := unchanged_or_renamed htaken
    · exact hsame
    · have hafter := (hok.back hfront).2 t hnext
      have hlater := renamed_of_exec (hsound.taken htaken) hrenamed hafter hback
      cases hlater.call hrejected

def zeroCredential : Credential where
  id := ⟨List.replicate 12 0, rfl⟩
  secret := ⟨List.replicate 32 0, rfl⟩

def zeroSecret : Digest := ⟨List.replicate 32 0, rfl⟩

def zeroDigest : Digest :=
  ⟨[228, 217, 128, 225, 185, 153, 182, 83, 95, 10, 152, 124, 90, 161, 24, 19, 215, 194, 193, 244,
    146, 232, 57, 180, 212, 168, 73, 56, 204, 153, 112, 143], rfl⟩

def hashedSecret (bytes : Bytes) : Digest :=
  let secret := fromBase64url (pathText (bytes.drop 38))
  if hlength : secret.length = connectorVerifierBytes then ⟨secret, hlength⟩ else zeroSecret

def zeroPlatform : Platform where
  sha256 := fun bytes => Equiv.swap zeroSecret zeroDigest (hashedSecret bytes)
  isIsoTimestamp := fun text => text = asciiUnits "2026-01-01T00:00:00.000Z"

theorem asciiText_base64url (bytes : Bytes) : asciiText (base64url bytes) := by
  have hdigits : ∀ digit < 64, (digitUnit digit).toNat < 128 := by decide
  intro unit hunit
  obtain ⟨digit, hdigit, rfl⟩ := List.mem_map.mp hunit
  exact hdigits digit (encode_digits bytes digit hdigit)

theorem hashedSecret_verifierInput (credential : Credential) :
    (hashedSecret (verifierInput credential.idText credential.secretText)).val =
      credential.secret.val := by
  have hdomain : asciiText connectorAuthDomain := by
    have hall : connectorAuthDomain.all (fun unit => decide (unit.toNat < 128)) = true := by
      decide
    exact fun unit hunit => of_decide_eq_true (List.all_eq_true.mp hall unit hunit)
  have hid : asciiText credential.idText := asciiText_base64url _
  have hlength : (pathBytes connectorAuthDomain ++ 0 :: pathBytes credential.idText ++ [0]).length =
      38 := by
    have hunits : credential.idText.length = 16 := by
      rw [Credential.idText, base64url_length, credential.id.property]
      rfl
    have hwords : connectorAuthDomain.length = 20 := rfl
    rw [pathBytes_ascii hdomain, pathBytes_ascii hid]
    simp only [List.length_append, List.length_cons, List.length_map, List.length_nil, hunits, hwords]
  have hdrop : (verifierInput credential.idText credential.secretText).drop 38 =
      pathBytes credential.secretText := by
    rw [verifierInput, List.append_cons, List.drop_left' hlength]
  have hread : fromBase64url (pathText ((verifierInput credential.idText
      credential.secretText).drop 38)) = credential.secret := by
    rw [hdrop, Credential.secretText, pathText_pathBytes (asciiText_base64url _),
      fromBase64url_base64url]
  have hsecret : (fromBase64url (pathText ((verifierInput credential.idText
      credential.secretText).drop 38))).length = connectorVerifierBytes := by
    rw [hread]
    exact credential.secret.property
  unfold hashedSecret
  dsimp only
  rw [dif_pos hsecret]
  exact hread

theorem zeroPlatform_noCollision : NoCollision zeroPlatform := by
  intro left right hid h
  have hsecret := (Equiv.swap zeroSecret zeroDigest).injective h
  have hvalue := congrArg Subtype.val hsecret
  rw [hashedSecret_verifierInput, hashedSecret_verifierInput] at hvalue
  refine credential_ext ?_ (congrArg base64url hvalue)
  rw [Credential.idText, Credential.idText, hid]

def oneCredential : Credential where
  id := ⟨List.replicate 12 1, rfl⟩
  secret := ⟨List.replicate 32 1, rfl⟩

def sampleTime : JsText := asciiUnits "2026-01-01T00:00:00.000Z"

def firstRotation : List Event :=
  [.rotate 0, .read 0 zeroCredential sampleTime] ++ List.replicate 11 (.step 0)

theorem firstRotation_reliable : (exec (next zeroPlatform) start firstRotation).isSome = true ∧
    Reliable zeroPlatform firstRotation := by
  refine ⟨by decide, reliable_of_orderly zeroPlatform zeroPlatform_noCollision _ ?_⟩
  refine ⟨trivial, ?_⟩
  rintro t ⟨⟩
  refine ⟨trivial, ?_⟩
  intro t hread
  have hsound : Sound zeroPlatform
      { start.setCall 0 (.rotate .reading) with settled := false } :=
    (sound_start.taken (.rotate 0 rfl))
  cases taken hsound hread with | read number credential now document hcall hrecords =>
  iterate 5
    refine ⟨by rintro _ _ ⟨⟩, ?_⟩
    rintro t ⟨⟩
  refine ⟨by rintro _ _ ⟨⟩, ?_⟩
  rintro t ⟨⟩
  refine ⟨?_, ?_⟩
  · rintro _ _ -
    refine ⟨rfl, ?_⟩
    intro other _ _ _ hother hcalls
    match other with
    | 0 => exact absurd rfl hother
    | _ + 1 => cases hcalls
  rintro t ⟨⟩
  iterate 4
    refine ⟨by rintro _ _ ⟨⟩, ?_⟩
    rintro t ⟨⟩
  trivial

def secondRotation : List Event :=
  firstRotation ++ [.rotate 1, .read 1 oneCredential sampleTime] ++ List.replicate 6 (.step 1)

def isRejected : Option Call → Bool
  | some (.rotate .rejected) => true
  | _ => false

theorem rejected_of_isRejected {call : Option Call} (h : isRejected call = true) :
    call = some (.rotate .rejected) := by
  unfold isRejected at h
  split at h
  · rfl
  · cases h

/-- The mode of the file cannot be changed after the rename: the rotation rejects, and the token
before it is locked out. -/
theorem lateFailure_not_reliable : ¬∀ (p : Platform) (events : List Event), NoCollision p →
    (exec (next p) start events).isSome = true → Reliable p events := by
  intro h
  have hrun : (match exec (next zeroPlatform) start secondRotation with
    | none => false
    | some s =>
      match next zeroPlatform s (.step 1) with
      | none => false
      | some t =>
        match exec (next zeroPlatform) t [.fail 1, .step 1] with
        | none => false
        | some u => isRejected (u.calls 1) && decide (s.inForce.map Credential.idText ≠
            t.inForce.map Credential.idText)) = true := by
    decide
  cases hfront : exec (next zeroPlatform) start secondRotation with
  | none =>
    rw [hfront] at hrun
    cases hrun
  | some s =>
    rw [hfront] at hrun
    dsimp only at hrun
    cases hnext : next zeroPlatform s (.step 1) with
    | none =>
      rw [hnext] at hrun
      cases hrun
    | some t =>
      rw [hnext] at hrun
      dsimp only at hrun
      cases hback : exec (next zeroPlatform) t [.fail 1, .step 1] with
      | none =>
        rw [hback] at hrun
        cases hrun
      | some u =>
        rw [hback] at hrun
        obtain ⟨hrejected, hne⟩ := Bool.and_eq_true_iff.mp hrun
        have hall : exec (next zeroPlatform) start
            (secondRotation ++ .step 1 :: [.fail 1, .step 1]) = some u := by
          rw [exec_append, hfront]
          show exec (next zeroPlatform) s (.step 1 :: [.fail 1, .step 1]) = some u
          rw [exec_cons, hnext]
          exact hback
        have hreliable := h zeroPlatform _ zeroPlatform_noCollision (by rw [hall]; rfl)
        have hsame := hreliable.rejected _ _ _ s t u rfl hfront hnext hback
          (rejected_of_isRejected hrejected)
        rw [hsame.2] at hne
        exact of_decide_eq_true hne rfl

end KodeGpt.CredentialRotation
