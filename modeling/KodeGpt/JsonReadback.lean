import KodeGpt.BundleFingerprints
import KodeGpt.FallibleActions

/-!
What `JSON.stringify` has written is parsed back: values of JSON have different texts.
-/

namespace KodeGpt.JsonReadback

open JsonDocuments JsFrames JsObjects
open JsonText (Bytes)
open FallibleActions (bind_eq_ok_iff)
open BundleFingerprints (unquote unquote_quote)

mutual

/-- What JSON can say. -/
def IsJson : JsValue → Prop
  | .array items => ItemsJson items
  | .object members => MembersJson members
  | .number .nonFinite | .undefined | .bigint _ => False
  | .number (.finite _) | .null | .boolean _ | .string _ => True

def ItemsJson : List JsValue → Prop
  | [] => True
  | item :: rest => IsJson item ∧ ItemsJson rest

def MembersJson : List (JsText × JsValue) → Prop
  | [] => True
  | (_, value) :: rest => IsJson value ∧ MembersJson rest

end

mutual

def parsed : Document → JsValue
  | .null => .null
  | .bool flag => .boolean flag
  | .number text => .number (.finite text)
  | .string items => .string (unquote items)
  | .array documents => .array (parsedItems documents)
  | .object documents => .object (parsedMembers documents)

def parsedItems : List Document → List JsValue
  | [] => []
  | document :: rest => parsed document :: parsedItems rest

def parsedMembers : List (List StringItem × Document) → List (JsText × JsValue)
  | [] => []
  | (key, document) :: rest => (unquote key, parsed document) :: parsedMembers rest

end

mutual

theorem exists_stringify : ∀ value : JsValue, IsJson value →
    ∃ document, value.stringify = .ok (some document) ∧ parsed document = value
  | .null, _ => ⟨_, rfl, rfl⟩
  | .boolean _, _ => ⟨_, rfl, rfl⟩
  | .number (.finite _), _ => ⟨_, rfl, rfl⟩
  | .string units, _ => ⟨_, rfl, congrArg JsValue.string (unquote_quote units)⟩
  | .array items, h => by
    obtain ⟨documents, hdocuments, hparsed⟩ := exists_stringifyItems items h
    exact ⟨.array documents, bind_eq_ok_iff.mpr ⟨documents, hdocuments, rfl⟩,
      congrArg JsValue.array hparsed⟩
  | .object members, h => by
    obtain ⟨documents, hdocuments, hparsed⟩ := exists_stringifyMembers members h
    exact ⟨.object documents, bind_eq_ok_iff.mpr ⟨documents, hdocuments, rfl⟩,
      congrArg JsValue.object hparsed⟩

theorem exists_stringifyItems : ∀ items : List JsValue, ItemsJson items →
    ∃ documents, JsValue.stringifyItems items = .ok documents ∧ parsedItems documents = items
  | [], _ => ⟨[], rfl, rfl⟩
  | item :: rest, h => by
    obtain ⟨document, hdocument, hparsed⟩ := exists_stringify item h.1
    obtain ⟨documents, hdocuments, hparseds⟩ := exists_stringifyItems rest h.2
    refine ⟨document :: documents, ?_, ?_⟩
    · exact bind_eq_ok_iff.mpr ⟨_, hdocument, bind_eq_ok_iff.mpr ⟨_, hdocuments, rfl⟩⟩
    · rw [parsedItems, hparsed, hparseds]

theorem exists_stringifyMembers : ∀ members : List (JsText × JsValue), MembersJson members →
    ∃ documents, JsValue.stringifyMembers members = .ok documents ∧
      parsedMembers documents = members
  | [], _ => ⟨[], rfl, rfl⟩
  | (key, value) :: rest, h => by
    obtain ⟨document, hdocument, hparsed⟩ := exists_stringify value h.1
    obtain ⟨documents, hdocuments, hparseds⟩ := exists_stringifyMembers rest h.2
    refine ⟨(quote key, document) :: documents, ?_, ?_⟩
    · exact bind_eq_ok_iff.mpr ⟨_, hdocument, bind_eq_ok_iff.mpr ⟨_, hdocuments, rfl⟩⟩
    · rw [parsedMembers, unquote_quote, hparsed, hparseds]

end

/-- The text of `JSON.stringify`. -/
def jsonBytes (value : JsValue) : Bytes :=
  match value.stringify with
  | .ok (some document) => document.bytes
  | _ => []

theorem jsonBytes_inj {value other : JsValue} (hvalue : IsJson value) (hother : IsJson other)
    (h : jsonBytes value = jsonBytes other) : value = other := by
  obtain ⟨document, hdocument, rfl⟩ := exists_stringify value hvalue
  obtain ⟨document', hdocument', rfl⟩ := exists_stringify other hother
  rw [jsonBytes, jsonBytes, hdocument, hdocument'] at h
  have hread := congrArg ofBytes h
  rw [ofBytes_bytes, ofBytes_bytes] at hread
  rw [Option.some.inj hread]

end KodeGpt.JsonReadback
