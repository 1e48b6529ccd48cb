import KodeGpt.FrameCodec
import KodeGpt.RpcResponses
import KodeGpt.TransitionSystem
import KodeGpt.TreeListing

/-!
From the requests that the reader thread accepts to the frames on standard
output. The reader, the dispatcher with its tasks and the writer thread share
two channels only. The writer ends with the first response that it cannot
frame, and with it go the responses of all other requests.
-/

namespace KodeGpt.ResponseDelivery

open FrameCodec JsonText RpcResponses TransitionSystem TreeListing
open JsonDocuments (Value)

structure RpcRequest where
  jsonrpc : List Char
  id : List Char
  method : List Char
  params : Value

def textOf : Value → Option (List Char)
  | .string text => some text
  | _ => none

def memberOf (key : String) : Value → Option Value
  | .object members => (members.reverse.find? fun entry => entry.1 = key.toList).map Prod.snd
  | _ => none

def requestOf (jsonrpc id method params : Option Value) : Option RpcRequest :=
  match jsonrpc.bind textOf, id.bind textOf, method.bind textOf, params with
  | some jsonrpc, some id, some method, some params => some ⟨jsonrpc, id, method, params⟩
  | _, _, _, _ => none

/-- The request as the derived deserializer takes it, which also takes the
fields in order from an array. -/
def deserializeRequest : Value → Option RpcRequest
  | .object members =>
    if members.all fun member =>
        member.1 ∈ ["jsonrpc", "id", "method", "params"].map String.toList then
      requestOf (memberOf "jsonrpc" (.object members)) (memberOf "id" (.object members))
        (memberOf "method" (.object members)) (memberOf "params" (.object members))
    else none
  | .array [jsonrpc, id, method, params] =>
    requestOf (some jsonrpc) (some id) (some method) (some params)
  | _ => none

def utf8Text (text : List Char) : Bytes :=
  text.flatMap String.utf8EncodeChar

def invalidRequest (id : Option Bytes) : Json :=
  errorResponse id (-32600) "INVALID_REQUEST"

def parseRequest (value : Value) : Except Json RpcRequest :=
  match deserializeRequest value with
  | none => .error (invalidRequest (((memberOf "id" value).bind textOf).map utf8Text))
  | some request =>
    if request.jsonrpc ≠ "2.0".toList then .error (invalidRequest (some (utf8Text request.id)))
    else .ok request

def responseId (value : Value) : Option Bytes :=
  match deserializeRequest value with
  | none => ((memberOf "id" value).bind textOf).map utf8Text
  | some request => some (utf8Text request.id)

inductive Reply where
  | success (result : Json)
  | error (code : Int) (message : String)
  | errorWithDataCode (code : Int) (message dataCode : String)

def Reply.response (id : Bytes) : Reply → Json
  | success result => successResponse id result
  | error code message => errorResponse (some id) code message
  | errorWithDataCode code message dataCode => errorResponseWithDataCode (some id) code message dataCode

/-- The response of `dispatch_one`; the reply is what the handler of the method
returns. -/
def dispatchOne (value : Value) (reply : Reply) : Json :=
  match parseRequest value with
  | .error response => response
  | .ok request => reply.response (utf8Text request.id)

def writeFrame (response : Json) : Except FrameError Bytes :=
  let body := response.compact
  if maxFrameBytes < body.length then .error .tooLarge
  else .ok (frameHeader body.length ++ body)

/-- A request is known by its place among the accepted ones. -/
structure Runtime where
  accepted : List Value
  queue : List Nat
  tasks : List Nat
  responses : List (Nat × Json)
  writerAlive : Bool
  written : List (Nat × Bytes)

inductive Event where
  /-- The reader thread hands on a request. -/
  | accept (value : Value)
  /-- The dispatcher takes the next request and spawns its task. -/
  | receive
  /-- A task sends its response. -/
  | complete (index : Nat) (reply : Reply)
  /-- The writer takes the next response. -/
  | write
  /-- Standard output fails under the writer. -/
  | outputFails

def start : Runtime := ⟨[], [], [], [], true, []⟩

def send (index : Nat) (response : Json) (runtime : Runtime) : Runtime :=
  if runtime.writerAlive then
    { runtime with responses := runtime.responses ++ [(index, response)] }
  else runtime

def endWriter (runtime : Runtime) : Runtime :=
  { runtime with writerAlive := false, responses := [] }

def next (runtime : Runtime) : Event → Option Runtime
  | .accept value =>
    some { runtime with
      accepted := runtime.accepted ++ [value]
      queue := runtime.queue ++ [runtime.accepted.length] }
  | .receive =>
    match runtime.queue with
    | [] => none
    | index :: rest => some { runtime with queue := rest, tasks := runtime.tasks ++ [index] }
  | .complete index reply =>
    match runtime.accepted[index]? with
    | none => none
    | some value =>
      if index ∈ runtime.tasks then
        some (send index (dispatchOne value reply)
          { runtime with tasks := runtime.tasks.erase index })
      else none
  | .write =>
    match runtime.responses with
    | [] => none
    | (index, response) :: rest =>
      match writeFrame response with
      | .error _ => some (endWriter runtime)
      | .ok frame =>
        some { runtime with responses := rest, written := runtime.written ++ [(index, frame)] }
  | .outputFails => if runtime.writerAlive then some (endWriter runtime) else none

/-- The response fits into a frame, and standard output takes what is written. -/
def Fits (runtime : Runtime) : Event → Prop
  | .complete index reply => ∀ value ∈ runtime.accepted[index]?,
      (dispatchOne value reply).compact.length ≤ maxFrameBytes
  | .outputFails => False
  | _ => True

instance (runtime : Runtime) : (event : Event) → Decidable (Fits runtime event)
  | .complete index reply =>
    inferInstanceAs (Decidable (∀ value ∈ runtime.accepted[index]?,
      (dispatchOne value reply).compact.length ≤ maxFrameBytes))
  | .outputFails => isFalse id
  | .accept _ | .receive | .write => isTrue trivial

def quiescent (runtime : Runtime) : Prop :=
  runtime.queue = [] ∧ runtime.tasks = [] ∧ runtime.responses = []

theorem dispatchOne_id (value : Value) (reply : Reply) :
    (dispatchOne value reply).member (utf8 "id") = some (idJson (responseId value)) := by
  have herror : (utf8 "error" = utf8 "id") = False := by decide +kernel
  have hjsonrpc : (utf8 "jsonrpc" = utf8 "id") = False := by decide +kernel
  have hresult : (utf8 "result" = utf8 "id") = False := by decide +kernel
  unfold dispatchOne parseRequest responseId
  cases hrequest : deserializeRequest value with
  | none => simp [invalidRequest, errorResponse, Json.member, hjsonrpc]
  | some request =>
    by_cases hversion : request.jsonrpc ≠ "2.0".toList
    · simp only [if_pos hversion]
      simp [invalidRequest, errorResponse, Json.member, hjsonrpc]
    · simp only [if_neg hversion]
      cases reply with
      | success result =>
        simp [Reply.response, successResponse, Json.member, hjsonrpc, hresult, idJson]
      | error code message =>
        simp [Reply.response, errorResponse, Json.member, hjsonrpc]
      | errorWithDataCode code message dataCode =>
        simp [Reply.response, errorResponseWithDataCode, Json.member, hjsonrpc]

/-- The frame holds a response with the id of the request. -/
def Answers (value : Value) (frame : Bytes) : Prop :=
  ∃ response : Json, response.member (utf8 "id") = some (idJson (responseId value)) ∧
    writeFrame response = .ok frame

/-- The writer lives, and every accepted request is in one place: queued, with a
task, answered or written. -/
structure Conserved (runtime : Runtime) : Prop where
  writing : runtime.writerAlive = true
  places : (runtime.queue ++ (runtime.tasks ++
    (runtime.responses.map Prod.fst ++ runtime.written.map Prod.fst))).Perm
      (List.range runtime.accepted.length)
  answered : ∀ index response, (index, response) ∈ runtime.responses →
    response.compact.length ≤ maxFrameBytes ∧
      ∃ value, runtime.accepted[index]? = some value ∧
        response.member (utf8 "id") = some (idJson (responseId value))
  framed : ∀ index frame, (index, frame) ∈ runtime.written →
    ∃ value, runtime.accepted[index]? = some value ∧ Answers value frame

theorem start_conserved : Conserved start where
  writing := rfl
  places := List.Perm.refl []
  answered := fun _ _ hmem => absurd hmem List.not_mem_nil
  framed := fun _ _ hmem => absurd hmem List.not_mem_nil

theorem writeFrame_ok {response : Json} (hsize : response.compact.length ≤ maxFrameBytes) :
    writeFrame response = .ok (frameHeader response.compact.length ++ response.compact) :=
  if_neg (Nat.not_lt.mpr hsize)

theorem accepted_later {accepted : List Value} {value : Value} {index : Nat}
    (hvalue : accepted[index]? = some value) (last : Value) :
    (accepted ++ [last])[index]? = some value := by
  obtain ⟨hlt, -⟩ := List.getElem?_eq_some_iff.mp hvalue
  rw [List.getElem?_append_left hlt, hvalue]

theorem accept_conserved {runtime : Runtime} (h : Conserved runtime) (value : Value) :
    Conserved { runtime with
      accepted := runtime.accepted ++ [value]
      queue := runtime.queue ++ [runtime.accepted.length] } where
  writing := h.writing
  places := by
    have hplaces := h.places.append_right [runtime.accepted.length]
    rw [List.length_append, List.length_singleton, List.range_succ]
    refine List.Perm.trans ?_ hplaces
    rw [List.append_assoc, List.append_assoc]
    exact List.perm_append_comm.append_left _
  answered := by
    intro index response hmem
    obtain ⟨hsize, later, hlater, hid⟩ := h.answered index response hmem
    exact ⟨hsize, later, accepted_later hlater value, hid⟩
  framed := by
    intro index frame hmem
    obtain ⟨later, hlater, hanswers⟩ := h.framed index frame hmem
    exact ⟨later, accepted_later hlater value, hanswers⟩

theorem receive_conserved {runtime : Runtime} (h : Conserved runtime) {index : Nat}
    {rest : List Nat} (hqueue : runtime.queue = index :: rest) :
    Conserved { runtime with queue := rest, tasks := runtime.tasks ++ [index] } where
  writing := h.writing
  places := by
    have hplaces := h.places
    rw [hqueue] at hplaces
    refine List.Perm.trans ?_ hplaces
    rw [List.cons_append, List.append_assoc, ← List.append_assoc rest]
    refine List.perm_middle.trans ?_
    rw [List.append_assoc]
    exact List.Perm.refl _
  answered := h.answered
  framed := h.framed

theorem complete_conserved {runtime : Runtime} (h : Conserved runtime) {index : Nat}
    {value : Value} {reply : Reply} (hvalue : runtime.accepted[index]? = some value)
    (htask : index ∈ runtime.tasks)
    (hsize : (dispatchOne value reply).compact.length ≤ maxFrameBytes) :
    Conserved { runtime with
      tasks := runtime.tasks.erase index
      responses := runtime.responses ++ [(index, dispatchOne value reply)] } where
  writing := h.writing
  places := by
    refine List.Perm.trans ?_ h.places
    apply List.Perm.append_left
    have htasks := (List.perm_cons_erase htask).symm
    refine List.Perm.trans ?_ (htasks.append_right _)
    rw [List.map_append, List.append_assoc, ← List.append_assoc (runtime.tasks.erase index)]
    refine List.perm_middle.trans ?_
    rw [List.append_assoc]
    exact List.Perm.refl _
  answered := by
    intro later response hmem
    obtain hmem | hmem := List.mem_append.mp hmem
    · exact h.answered later response hmem
    · obtain ⟨rfl, rfl⟩ := Prod.mk.inj (List.mem_singleton.mp hmem)
      exact ⟨hsize, value, hvalue, dispatchOne_id value reply⟩
  framed := h.framed

theorem write_conserved {runtime : Runtime} (h : Conserved runtime) {index : Nat}
    {response : Json} {rest : List (Nat × Json)} {frame : Bytes}
    (hresponses : runtime.responses = (index, response) :: rest)
    (hframe : writeFrame response = .ok frame) :
    Conserved { runtime with
      responses := rest
      written := runtime.written ++ [(index, frame)] } where
  writing := h.writing
  places := by
    have hplaces := h.places
    rw [hresponses] at hplaces
    refine List.Perm.trans ?_ hplaces
    apply List.Perm.append_left
    apply List.Perm.append_left
    rw [List.map_append, ← List.append_assoc]
    exact List.perm_append_singleton _ _
  answered := by
    intro later answer hmem
    exact h.answered later answer (hresponses ▸ List.mem_cons_of_mem _ hmem)
  framed := by
    intro later written hmem
    obtain hmem | hmem := List.mem_append.mp hmem
    · exact h.framed later written hmem
    · obtain ⟨rfl, rfl⟩ := Prod.mk.inj (List.mem_singleton.mp hmem)
      obtain ⟨-, value, hvalue, hid⟩ :=
        h.answered later response (hresponses ▸ List.mem_cons_self)
      exact ⟨value, hvalue, response, hid, hframe⟩

theorem next_write {runtime : Runtime} (h : Conserved runtime) {index : Nat} {response : Json}
    {rest : List (Nat × Json)} (hresponses : runtime.responses = (index, response) :: rest) :
    ∃ frame, writeFrame response = .ok frame ∧
      next runtime .write = some { runtime with
        responses := rest
        written := runtime.written ++ [(index, frame)] } := by
  obtain ⟨hsize, -⟩ := h.answered index response (hresponses ▸ List.mem_cons_self)
  refine ⟨_, writeFrame_ok hsize, ?_⟩
  simp only [next, hresponses, writeFrame_ok hsize]

theorem conserved_step (runtime : Runtime) (event : Event) (later : Runtime)
    (h : Conserved runtime) (hfits : Fits runtime event)
    (hnext : next runtime event = some later) : Conserved later := by
  cases event with
  | accept value =>
    obtain rfl := Option.some.inj hnext
    exact accept_conserved h value
  | receive =>
    cases hqueue : runtime.queue with
    | nil => simp [next, hqueue] at hnext
    | cons index rest =>
      simp only [next, hqueue] at hnext
      obtain rfl := Option.some.inj hnext
      exact receive_conserved h hqueue
  | complete index reply =>
    cases hvalue : runtime.accepted[index]? with
    | none => simp [next, hvalue] at hnext
    | some value =>
      simp only [next, hvalue] at hnext
      obtain ⟨htask, hsent⟩ := Option.ite_none_right_eq_some.mp hnext
      obtain rfl := Option.some.inj hsent
      rw [send, if_pos h.writing]
      exact complete_conserved h hvalue htask (hfits value hvalue)
  | write =>
    cases hresponses : runtime.responses with
    | nil => simp [next, hresponses] at hnext
    | cons first rest =>
      obtain ⟨index, response⟩ := first
      obtain ⟨frame, hframe, hwrite⟩ := next_write h hresponses
      rw [hwrite] at hnext
      obtain rfl := Option.some.inj hnext
      exact write_conserved h hresponses hframe
  | outputFails => exact False.elim hfits

/-- Along every run whose responses all fit, each frame that is written answers
one accepted request, no request is answered twice, the writer can always go on,
and when nothing is under way every accepted request has its one frame. -/
theorem responses_delivered (events : List Event) (runtime : Runtime)
    (hfits : AllSteps next Fits start events) (hrun : exec next start events = some runtime) :
    (∀ index frame, (index, frame) ∈ runtime.written →
      ∃ value, runtime.accepted[index]? = some value ∧ Answers value frame) ∧
    (runtime.written.map Prod.fst).Nodup ∧
    (runtime.responses ≠ [] → ∃ later, next runtime .write = some later ∧
      later.written.length = runtime.written.length + 1) ∧
    (quiescent runtime →
      (runtime.written.map Prod.fst).Perm (List.range runtime.accepted.length)) := by
  have h := exec_invariant conserved_step start_conserved hfits hrun
  refine ⟨h.framed, ?_, ?_, ?_⟩
  · have hnodup := h.places.nodup_iff.mpr List.nodup_range
    rw [← List.append_assoc, ← List.append_assoc] at hnodup
    exact (List.nodup_append.mp hnodup).2.1
  · intro hsome
    obtain ⟨first, rest, hresponses⟩ := List.exists_cons_of_ne_nil hsome
    obtain ⟨frame, -, hwrite⟩ := next_write h hresponses
    exact ⟨_, hwrite, by simp⟩
  · rintro ⟨hqueue, htasks, hresponses⟩
    have hplaces := h.places
    rw [hqueue, htasks, hresponses] at hplaces
    exact hplaces

def requestValue (id method : String) : Value :=
  .object [("jsonrpc".toList, .string "2.0".toList), ("id".toList, .string id.toList),
    ("method".toList, .string method.toList), ("params".toList, .object [])]

def longName : Bytes := List.replicate 255 97

def longRoot : List (Bytes × Node) := [(longName, chain longName 299)]

def answeredRun : List Event :=
  [.accept (requestValue "a" "runtime.hello"), .accept (requestValue "b" "runtime.hello"),
    .receive, .receive, .complete 1 (.success (.bool true)),
    .complete 0 (.error (-32602) "INVALID_PARAMS"), .write, .write]

def listingRun (listing : TreeResult) : List Event :=
  [.accept (requestValue "a" "file.tree"), .accept (requestValue "b" "runtime.hello"),
    .receive, .receive, .complete 0 (.success listing.toJson),
    .complete 1 (.success (.bool true)), .write]

theorem successResponse_length (id : Bytes) (result : Json) :
    result.compact.length ≤ (successResponse id result).compact.length :=
  @member_length _ (utf8 "result") result (by simp)

theorem listing_length (listing : TreeResult) :
    entriesLength listing.entries ≤ listing.toJson.compact.length := by
  have hitems := items_length (listing.entries.map TreeEntry.toJson)
  rw [List.map_map] at hitems
  exact Nat.le_trans hitems (@member_length _ (utf8 "entries") _ (by simp))

theorem longRoot_listing :
    ∃ listing, fileTree treeMaxEntries .literal [] longRoot = some listing ∧
      maxFrameBytes < entriesLength listing.entries := by
  have hpending : enqueueDirectoryEntries .literal [] (treeMaxEntries + 1) longRoot [] =
      [([] ++ [longName], chain longName 299)] :=
    enqueue_alone rfl treeMaxEntries
  have hweight : maxFrameBytes < chainWeight 255 299 255 := by
    decide +kernel
  have hdepth : 299 < treeMaxEntries := by
    simp [treeMaxEntries]
  have hpos : 0 < treeMaxEntries := by
    simp [treeMaxEntries]
  have hname : longName.length = 255 := List.length_replicate
  have hpath : ([longName].map List.length).sum = 255 := by
    simp [hname]
  have hlength := @treeLoop_chain ⟨treeMaxEntries, treeMaxEntries, true, .literal⟩ longName rfl
    299 treeMaxEntries hdepth [longName]
  rw [hname, hpath] at hlength
  obtain ⟨listing, hlisting, hentries⟩ :=
    fileTree_entries hpos (Nat.le_refl _) .literal [] longRoot
  refine ⟨listing, hlisting, ?_⟩
  rw [hentries, hpending]
  exact Nat.lt_of_lt_of_le hweight hlength

theorem answeredRun_delivered :
    ∃ runtime, exec next start answeredRun = some runtime ∧
      (runtime.written.map Prod.fst).Perm (List.range 2) := by
  have hfits : AllSteps next Fits start answeredRun := by
    decide +kernel
  have hend : (exec next start answeredRun).map (fun runtime =>
      (runtime.queue, runtime.tasks, runtime.responses.length, runtime.accepted.length)) =
        some ([], [], 0, 2) := by
    decide +kernel
  obtain ⟨runtime, hrun, hplaces⟩ := Option.map_eq_some_iff.mp hend
  obtain ⟨hqueue, htasks, hresponses, haccepted⟩ : runtime.queue = [] ∧ runtime.tasks = [] ∧
      runtime.responses.length = 0 ∧ runtime.accepted.length = 2 := by
    simpa using hplaces
  have hquiescent : quiescent runtime := ⟨hqueue, htasks, List.length_eq_zero_iff.mp hresponses⟩
  refine ⟨runtime, hrun, ?_⟩
  rw [← haccepted]
  exact (responses_delivered answeredRun runtime hfits hrun).2.2.2 hquiescent

/-- The listing is within the limits of `file.tree`, but its response ends the
writer, and the other request is not answered either. -/
theorem listing_ends_writer :
    ∃ listing, fileTree treeMaxEntries .literal [] longRoot = some listing ∧
      ∃ runtime, exec next start (listingRun listing) = some runtime ∧
        quiescent runtime ∧ runtime.accepted.length = 2 ∧ runtime.written = [] := by
  obtain ⟨listing, hlisting, hlength⟩ := longRoot_listing
  refine ⟨listing, hlisting, ?_⟩
  have hdispatch : dispatchOne (requestValue "a" "file.tree") (.success listing.toJson) =
      successResponse [97] listing.toJson := rfl
  have htooLarge : writeFrame (successResponse [97] listing.toJson) = .error .tooLarge := by
    apply if_pos
    have hresult := successResponse_length [97] listing.toJson
    have hentries := listing_length listing
    omega
  have hrun : exec next start (listingRun listing) = some
      ⟨[requestValue "a" "file.tree", requestValue "b" "runtime.hello"], [], [], [], false, []⟩ := by
    simp [listingRun, next, start, send, hdispatch, htooLarge, endWriter]
  exact ⟨_, hrun, ⟨rfl, rfl, rfl⟩, rfl, rfl⟩

end KodeGpt.ResponseDelivery
