import KodeGpt.JsObjects
import KodeGpt.KeyedFamily
import KodeGpt.TransitionSystem

/-!
The browser that shows a preview: which requests and socket messages its route handlers let
out, while the network mode of the workspace may change and the browser follows redirects by
itself.
-/

namespace KodeGpt.PreviewBrowsers

open JsFrames JsObjects KeyedFamily TransitionSystem

inductive BrowserNetworkMode where
  | deny
  | localhost
  | allowlist
  | unrestricted
  deriving DecidableEq

/-- The parts of a parsed `URL`. -/
structure Url where
  protocol : JsText
  hostname : JsText
  port : JsText
  username : JsText
  password : JsText
  origin : JsText

variable (parseUrl : JsText → Option Url) (origin : JsText)

def isLoopbackHost (hostname : JsText) : Bool :=
  hostname = asciiUnits "127.0.0.1" || hostname = asciiUnits "localhost" ||
    hostname = asciiUnits "[::1]"

def isAllowedPreviewDocumentUrl (urlText : JsText) : Bool :=
  match parseUrl urlText with
  | some url => url.origin = origin
  | none => false

def isAllowedPreviewRequest (urlText resourceType : JsText) (networkMode : BrowserNetworkMode) :
    Bool :=
  match parseUrl urlText with
  | none => false
  | some url =>
    if url.origin = origin then true
    else if resourceType = asciiUnits "document" then false
    else if networkMode = .unrestricted then true
    else if networkMode ≠ .localhost then false
    else (url.protocol = asciiUnits "http:" || url.protocol = asciiUnits "https:") &&
      isLoopbackHost url.hostname

def isSocketProtocol (protocol : JsText) : Bool :=
  protocol = asciiUnits "ws:" || protocol = asciiUnits "wss:"

def isAllowedPreviewWebSocket (urlText : JsText) (networkMode : BrowserNetworkMode) : Bool :=
  match parseUrl origin, parseUrl urlText with
  | some preview, some url =>
    let expectedProtocol :=
      if preview.protocol = asciiUnits "https:" then asciiUnits "wss:" else asciiUnits "ws:"
    if url.protocol = expectedProtocol ∧ url.hostname = preview.hostname ∧
        url.port = preview.port then true
    else if networkMode = .unrestricted then isSocketProtocol url.protocol
    else if networkMode ≠ .localhost then false
    else isSocketProtocol url.protocol && isLoopbackHost url.hostname
  | _, _ => false

inductive Purpose where
  | request (url resourceType : JsText)
  | connect (url : JsText)
  /-- A message from the page to the server of a socket. -/
  | send (socket : Nat) (url : JsText)
  | receive (socket : Nat) (url : JsText)
  deriving DecidableEq

def Purpose.accepted (networkMode : BrowserNetworkMode) : Purpose → Bool
  | .request url resourceType => isAllowedPreviewRequest parseUrl origin url resourceType networkMode
  | .connect url | .send _ url | .receive _ url =>
    isAllowedPreviewWebSocket parseUrl origin url networkMode

def Purpose.leaves : Purpose → Bool
  | .receive _ _ => false
  | _ => true

/-- A handler awaits the network mode and decides with the mode that it was given. -/
inductive Handler where
  | called (purpose : Purpose)
  | asked (purpose : Purpose) (networkMode : BrowserNetworkMode)
  | passed (purpose : Purpose)
  | refused (purpose : Purpose)
  deriving DecidableEq

structure State where
  /-- The network mode of the workspace while it is READY. -/
  networkMode : Option BrowserNetworkMode
  page : JsText
  closed : Bool
  handlers : Nat → Option Handler

def State.inForce (s : State) : BrowserNetworkMode := s.networkMode.getD .deny

def start (networkMode : Option BrowserNetworkMode) : State where
  networkMode
  page := asciiUnits "about:blank"
  closed := false
  handlers := fun _ => none

inductive Event where
  | setMode (networkMode : Option BrowserNetworkMode)
  | request (number : Nat) (url resourceType : JsText)
  /-- The server of a request answers with a redirect, which the browser follows. -/
  | redirect (number : Nat) (url : JsText)
  /-- The answer to a request has been loaded. -/
  | load (number : Nat)
  | connect (number : Nat) (url : JsText)
  | message (number socket : Nat) (toServer : Bool)
  | ask (number : Nat)
  | decide (number : Nat)
  /-- The check after the first navigation. -/
  | opened
  | inspect
  | close

def State.setHandler (s : State) (number : Nat) (handler : Handler) : State :=
  { s with handlers := Function.update s.handlers number (some handler) }

def State.call (s : State) (number : Nat) (purpose : Purpose) : Option State :=
  match s.handlers number with
  | none => some (s.setHandler number (.called purpose))
  | some _ => none

def State.connected (s : State) : Purpose → Bool
  | .send socket url | .receive socket url => s.handlers socket = some (.passed (.connect url))
  | _ => true

def State.closeDenied (s : State) : Purpose → State
  | .send socket url | .receive socket url => s.setHandler socket (.refused (.connect url))
  | _ => s

def State.decide (s : State) (number : Nat) (purpose : Purpose) (networkMode : BrowserNetworkMode) :
    State :=
  if purpose.accepted parseUrl origin networkMode then
    s.setHandler number (if s.connected purpose then .passed purpose else .refused purpose)
  else (s.closeDenied purpose).setHandler number (.refused purpose)

/-- `inspect` throws before it releases the session when the page is not on a loopback
origin. -/
def leftOrigin (page : JsText) : Bool :=
  match parseUrl page with
  | none => false
  | some url => url.protocol = asciiUnits "http:" && url.hostname = asciiUnits "127.0.0.1" &&
      url.username = [] && url.password = [] && url.origin ≠ origin

def next (s : State) (event : Event) : Option State :=
  if s.closed then none
  else
    match event with
    | .setMode networkMode => some { s with networkMode }
    | .request number url resourceType => s.call number (.request url resourceType)
    | .redirect number url =>
      match s.handlers number with
      | some (.passed (.request _ resourceType)) =>
        some (s.setHandler number (.passed (.request url resourceType)))
      | _ => none
    | .load number =>
      match s.handlers number with
      | some (.passed (.request url resourceType)) =>
        if resourceType = asciiUnits "document" then some { s with page := url } else some s
      | _ => none
    | .connect number url => s.call number (.connect url)
    | .message number socket toServer =>
      match s.handlers socket with
      | some (.passed (.connect url)) =>
        s.call number (if toServer then .send socket url else .receive socket url)
      | _ => none
    | .ask number =>
      match s.handlers number with
      | some (.called purpose) => some (s.setHandler number (.asked purpose s.inForce))
      | _ => none
    | .decide number =>
      match s.handlers number with
      | some (.asked purpose networkMode) =>
        some (s.decide parseUrl origin number purpose networkMode)
      | _ => none
    | .opened => some { s with closed := !isAllowedPreviewDocumentUrl parseUrl origin s.page }
    | .inspect => some { s with closed := leftOrigin parseUrl origin s.page }
    | .close => some { s with closed := true }

def departure (s : State) : Event → Option Purpose
  | .decide number =>
    match s.handlers number with
    | some (.asked purpose networkMode) =>
      if purpose.leaves ∧ purpose.accepted parseUrl origin networkMode ∧ s.connected purpose then
        some purpose
      else none
    | _ => none
  | .redirect number url =>
    match s.handlers number with
    | some (.passed (.request _ resourceType)) => some (.request url resourceType)
    | _ => none
  | _ => none

/-- What leaves the browser in a run is accepted under the mode in force. -/
def Confined (networkMode : Option BrowserNetworkMode) (events : List Event) : Prop :=
  ∀ front event back s t purpose, events = front ++ event :: back →
    exec (next parseUrl origin) (start networkMode) front = some s →
    next parseUrl origin s event = some t → departure parseUrl origin s event = some purpose →
    purpose.accepted parseUrl origin s.inForce = true

/-- What a handler has been answered about, and will let out, is accepted under the mode. -/
def Covers (s : State) (networkMode : BrowserNetworkMode) : Prop :=
  ∀ number purpose asked, s.handlers number = some (.asked purpose asked) →
    purpose.leaves = true → purpose.accepted parseUrl origin asked = true →
    purpose.accepted parseUrl origin networkMode = true

/-- Redirects lead to what is accepted under the mode in force, and the mode does not change
under a handler that has been given a mode and accepts with it what the new one refuses. -/
def Steady (s : State) : Event → Prop
  | .setMode networkMode => Covers parseUrl origin s (networkMode.getD .deny)
  | .redirect number url => ∀ earlier resourceType,
      s.handlers number = some (.passed (.request earlier resourceType)) →
        isAllowedPreviewRequest parseUrl origin url resourceType s.inForce = true
  | _ => True

section Steps

variable {parseUrl : JsText → Option Url} {origin : JsText} {s t : State}
  {networkMode : BrowserNetworkMode}

theorem Covers.setHandler (h : Covers parseUrl origin s networkMode) {number : Nat}
    {handler : Handler}
    (hhandler : ∀ purpose asked, handler = .asked purpose asked →
      purpose.accepted parseUrl origin asked = true →
        purpose.accepted parseUrl origin networkMode = true) :
    Covers parseUrl origin (s.setHandler number handler) networkMode := by
  intro other purpose asked hasked hleaves haccepted
  obtain ⟨-, heq⟩ | ⟨-, hasked⟩ := update_eq_some hasked
  · exact hhandler purpose asked heq.symm haccepted
  · exact h other purpose asked hasked hleaves haccepted

theorem Covers.call (h : Covers parseUrl origin s networkMode) {number : Nat} {purpose : Purpose}
    (hcall : s.call number purpose = some t) :
    Covers parseUrl origin t networkMode ∧ t.inForce = s.inForce := by
  unfold State.call at hcall
  split at hcall
  · obtain rfl := Option.some.inj hcall
    exact ⟨h.setHandler nofun, rfl⟩
  · cases hcall

theorem Covers.closeDenied (h : Covers parseUrl origin s networkMode) (purpose : Purpose) :
    Covers parseUrl origin (s.closeDenied purpose) networkMode := by
  cases purpose with
  | send socket url => exact h.setHandler nofun
  | receive socket url => exact h.setHandler nofun
  | request url resourceType => exact h
  | connect url => exact h

theorem inForce_decide (number : Nat) (purpose : Purpose) (asked : BrowserNetworkMode) :
    (s.decide parseUrl origin number purpose asked).inForce = s.inForce := by
  unfold State.decide
  split
  · rfl
  · cases purpose <;> rfl

theorem Covers.decide (h : Covers parseUrl origin s networkMode) (number : Nat) (purpose : Purpose)
    (asked : BrowserNetworkMode) :
    Covers parseUrl origin (s.decide parseUrl origin number purpose asked) networkMode := by
  unfold State.decide
  split
  · split
    · exact h.setHandler nofun
    · exact h.setHandler nofun
  · exact (h.closeDenied purpose).setHandler nofun

/-- A steady step keeps the handlers' answers covered by the mode in force. -/
theorem covers_next {event : Event} (h : Covers parseUrl origin s s.inForce)
    (hok : Steady parseUrl origin s event) (hnext : next parseUrl origin s event = some t) :
    Covers parseUrl origin t t.inForce := by
  obtain ⟨-, hnext⟩ := Option.ite_none_left_eq_some.mp hnext
  cases event with
  | setMode mode =>
    obtain rfl := Option.some.inj hnext
    exact hok
  | request number url resourceType =>
    obtain ⟨hcovers, hforce⟩ := h.call hnext
    rw [hforce]
    exact hcovers
  | redirect number url =>
    dsimp only at hnext
    split at hnext
    · obtain rfl := Option.some.inj hnext
      exact h.setHandler nofun
    · cases hnext
  | load number =>
    dsimp only at hnext
    split at hnext
    · split at hnext
      · obtain rfl := Option.some.inj hnext
        exact h
      · obtain rfl := Option.some.inj hnext
        exact h
    · cases hnext
  | connect number url =>
    obtain ⟨hcovers, hforce⟩ := h.call hnext
    rw [hforce]
    exact hcovers
  | message number socket toServer =>
    dsimp only at hnext
    split at hnext
    · obtain ⟨hcovers, hforce⟩ := h.call hnext
      rw [hforce]
      exact hcovers
    · cases hnext
  | ask number =>
    dsimp only at hnext
    split at hnext
    · obtain rfl := Option.some.inj hnext
      refine h.setHandler ?_
      rintro purpose asked ⟨⟩ haccepted
      exact haccepted
    · cases hnext
  | decide number =>
    dsimp only at hnext
    split at hnext
    · rename_i purpose asked hasked
      obtain rfl := Option.some.inj hnext
      rw [inForce_decide]
      exact h.decide number purpose asked
    · cases hnext
  | opened =>
    obtain rfl := Option.some.inj hnext
    exact h
  | inspect =>
    obtain rfl := Option.some.inj hnext
    exact h
  | close =>
    obtain rfl := Option.some.inj hnext
    exact h

theorem accepted_of_departure {event : Event} {purpose : Purpose}
    (h : Covers parseUrl origin s s.inForce) (hok : Steady parseUrl origin s event)
    (hdeparture : departure parseUrl origin s event = some purpose) :
    purpose.accepted parseUrl origin s.inForce = true := by
  unfold departure at hdeparture
  split at hdeparture
  · rename_i number
    split at hdeparture
    · rename_i found asked hasked
      obtain ⟨⟨hleaves, haccepted, -⟩, heq⟩ := Option.ite_none_right_eq_some.mp hdeparture
      obtain rfl := Option.some.inj heq
      exact h number found asked hasked hleaves haccepted
    · cases hdeparture
  · rename_i number url
    split at hdeparture
    · rename_i earlier resourceType hpassed
      obtain rfl := Option.some.inj hdeparture
      exact hok earlier resourceType hpassed
    · cases hdeparture
  · cases hdeparture

end Steps

theorem confined_of_steady (networkMode : Option BrowserNetworkMode) (events : List Event)
    (hok : AllSteps (next parseUrl origin) (Steady parseUrl origin) (start networkMode) events) :
    Confined parseUrl origin networkMode events := by
  rintro front event back s t purpose rfl hfront - hdeparture
  have hstart : Covers parseUrl origin (start networkMode) (start networkMode).inForce := by
    rintro _ _ _ ⟨⟩
  have hcovers : Covers parseUrl origin s s.inForce :=
    @exec_invariant _ _ (next parseUrl origin) (fun s => Covers parseUrl origin s s.inForce)
      (Steady parseUrl origin) (fun _ _ _ h hevent hnext => covers_next h hevent hnext) _ _ _ hstart
      hok.front hfront
  exact accepted_of_departure hcovers (hok.at hfront) hdeparture

def previewOrigin : JsText := asciiUnits "http://127.0.0.1:3000"

def imageUrl : JsText := asciiUnits "http://127.0.0.1:3000/a.png"

def foreignUrl : JsText := asciiUnits "http://198.51.100.7/b.png"

def httpUrl (hostname port origin : String) : Url where
  protocol := asciiUnits "http:"
  hostname := asciiUnits hostname
  port := asciiUnits port
  username := []
  password := []
  origin := asciiUnits origin

def sampleParse (text : JsText) : Option Url :=
  if text = previewOrigin ∨ text = imageUrl then some (httpUrl "127.0.0.1" "3000" "http://127.0.0.1:3000")
  else if text = foreignUrl then some (httpUrl "198.51.100.7" "" "http://198.51.100.7")
  else none

def imageRequest : List Event := [.request 0 imageUrl (asciiUnits "image"), .ask 0, .decide 0]

def insideRun : List Event := .setMode none :: imageRequest ++ [.redirect 0 imageUrl]

theorem imageUrl_allowed (resourceType : JsText) (networkMode : BrowserNetworkMode) :
    isAllowedPreviewRequest sampleParse previewOrigin imageUrl resourceType networkMode = true := by
  have hparse : (sampleParse imageUrl).map Url.origin = some previewOrigin := by decide
  obtain ⟨url, hurl, horigin⟩ := Option.map_eq_some_iff.mp hparse
  rw [isAllowedPreviewRequest, hurl]
  exact if_pos horigin

theorem insideRun_confined :
    (exec (next sampleParse previewOrigin) (start (some .deny)) insideRun).isSome = true ∧
      Confined sampleParse previewOrigin (some .deny) insideRun := by
  refine ⟨by decide, confined_of_steady sampleParse previewOrigin (some .deny) insideRun ?_⟩
  refine ⟨by rintro _ _ _ ⟨⟩, ?_⟩
  rintro t ⟨⟩
  refine ⟨trivial, ?_⟩
  rintro t ⟨⟩
  refine ⟨trivial, ?_⟩
  rintro t ⟨⟩
  refine ⟨trivial, ?_⟩
  rintro t ⟨⟩
  refine ⟨?_, fun _ _ => trivial⟩
  intro earlier resourceType _
  exact imageUrl_allowed resourceType _

theorem foreignRedirect_not_confined :
    ¬∀ (parseUrl : JsText → Option Url) (origin : JsText) (networkMode : Option BrowserNetworkMode)
      (events : List Event), (exec (next parseUrl origin) (start networkMode) events).isSome = true →
        Confined parseUrl origin networkMode events := by
  intro h
  have hconfined := h sampleParse previewOrigin (some .deny)
    (imageRequest ++ [.redirect 0 foreignUrl]) (by decide)
  have hrun : ((exec (next sampleParse previewOrigin) (start (some .deny)) imageRequest).any fun s =>
      decide (departure sampleParse previewOrigin s (.redirect 0 foreignUrl) =
        some (.request foreignUrl (asciiUnits "image"))) &&
      (next sampleParse previewOrigin s (.redirect 0 foreignUrl)).isSome &&
      !Purpose.accepted sampleParse previewOrigin s.inForce
        (.request foreignUrl (asciiUnits "image"))) = true := by
    decide
  obtain ⟨s, hfront, hs⟩ := (Option.any_eq_true _ _).mp hrun
  simp only [Bool.and_eq_true, decide_eq_true_eq, Bool.not_eq_true'] at hs
  obtain ⟨⟨hdeparture, hnext⟩, hrefused⟩ := hs
  obtain ⟨t, ht⟩ := Option.isSome_iff_exists.mp hnext
  have haccepted := hconfined imageRequest _ [] s t _ rfl hfront ht hdeparture
  exact absurd (hrefused.symm.trans haccepted) (by decide)

end KodeGpt.PreviewBrowsers
