import KodeGpt.ResponseBudgets

/-!
What is given up for a result of remote CI to fit: the parts of the result in
their order, each cut to the longest part at its front that fits, and no part
before all of those before it are empty.
-/

namespace KodeGpt.FittedResponses

open Bisections CodePoints JsFrames JsObjects JsonSizes ResponseBudgets

/-- A value that a JSON text stands for; the keys of an object are distinct. -/
inductive IsJson : JsValue → Prop
  | null : IsJson .null
  | boolean (value : Bool) : IsJson (.boolean value)
  | number (value : JsNumber) : IsJson (.number value)
  | string (text : JsText) : IsJson (.string text)
  | array (items : List JsValue) (hitems : ∀ item ∈ items, IsJson item) : IsJson (.array items)
  | object (members : List (JsText × JsValue)) (hkeys : (members.map Prod.fst).Nodup)
      (hmembers : ∀ entry ∈ members, IsJson entry.2) : IsJson (.object members)

theorem IsJson.items {items : List JsValue} (hvalue : IsJson (.array items)) :
    ∀ item ∈ items, IsJson item := by
  cases hvalue with
  | array items hitems => exact hitems

/-- A result as the service makes it: data under distinct keys, and a response limit
that was not reported twice. -/
structure IsCiResult (value : TruncatableCiResult) : Prop where
  data : IsJson (.object value.fields)
  limitOnce : value.truncationReasons.count responseLimit ≤ 1

theorem IsCiResult.keys {value : TruncatableCiResult} (hvalue : IsCiResult value) :
    (value.fields.map Prod.fst).Nodup := by
  cases hvalue.data with
  | object members hkeys hmembers => exact hkeys

theorem IsCiResult.contents {value : TruncatableCiResult} (hvalue : IsCiResult value) :
    ∀ entry ∈ value.fields, IsJson entry.2 := by
  cases hvalue.data with
  | object members hkeys hmembers => exact hmembers

theorem mem_of_member {members : List (JsText × JsValue)} {key : JsText} {content : JsValue}
    (hmember : member (.object members) key = content) (hdefined : content ≠ .undefined) :
    (key, content) ∈ members := by
  unfold member at hmember
  dsimp only at hmember
  split at hmember
  · rename_i entry hfind
    obtain ⟨name, found⟩ := entry
    obtain rfl : name = key := by simpa using List.find?_some hfind
    obtain rfl : found = content := hmember
    exact List.mem_of_find?_eq_some hfind
  · exact absurd hmember.symm hdefined

theorem spread_of_mem {members : List (JsText × JsValue)} {key : JsText} {found : JsValue}
    (hmem : (key, found) ∈ members) (content : JsValue) :
    spread members key content =
      members.map fun entry => if entry.1 = key then (key, content) else entry := by
  rw [spread, if_pos (List.any_eq_true.mpr ⟨_, hmem, decide_eq_true rfl⟩)]

theorem spread_keys {members : List (JsText × JsValue)} {key : JsText} {found : JsValue}
    (hmem : (key, found) ∈ members) (content : JsValue) :
    (spread members key content).map Prod.fst = members.map Prod.fst := by
  rw [spread_of_mem hmem, List.map_map]
  refine List.map_congr_left fun entry _ => ?_
  show (if entry.1 = key then (key, content) else entry).1 = entry.1
  split
  · exact Eq.symm ‹_›
  · rfl

theorem forall_mem_spread {members : List (JsText × JsValue)} {key : JsText} {content : JsValue}
    (hmembers : ∀ entry ∈ members, IsJson entry.2) (hcontent : IsJson content) :
    ∀ entry ∈ spread members key content, IsJson entry.2 := by
  unfold spread
  split
  · intro entry hentry
    obtain ⟨old, hold, rfl⟩ := List.mem_map.mp hentry
    split
    · exact hcontent
    · exact hmembers old hold
  · intro entry hentry
    obtain hentry | hentry := List.mem_append.mp hentry
    · exact hmembers entry hentry
    · rw [List.mem_singleton.mp hentry]
      exact hcontent

theorem IsJson.spread {members : List (JsText × JsValue)} {key : JsText} {found content : JsValue}
    (hobject : IsJson (.object members)) (hmem : (key, found) ∈ members)
    (hcontent : IsJson content) : IsJson (.object (spread members key content)) := by
  cases hobject with
  | object members hkeys hmembers =>
    exact .object _ ((spread_keys hmem content).symm ▸ hkeys)
      (forall_mem_spread hmembers hcontent)

theorem member_spread_of_ne {members : List (JsText × JsValue)} {key other : JsText}
    {found : JsValue} (hmem : (key, found) ∈ members) (content : JsValue) (hne : other ≠ key) :
    member (.object (spread members key content)) other = member (.object members) other := by
  rw [spread_of_mem hmem]
  have hfind : (members.map fun entry => if entry.1 = key then (key, content) else entry).find?
      (fun entry => entry.1 = other) = members.find? fun entry => entry.1 = other := by
    clear hmem
    induction members with
    | nil => rfl
    | cons entry rest ih =>
      rw [List.map_cons, List.find?_cons, List.find?_cons, ih]
      by_cases hkey : entry.1 = key
      · simp [hkey, hne.symm]
      · rw [if_neg hkey]
  unfold member
  dsimp only
  rw [hfind]

def memberLength (entry : JsText × JsValue) : Nat :=
  escapedLength entry.1 + jsonLength entry.2 + 4

theorem IsJson.steps {members : List (JsText × JsValue)} {steps : List JsValue}
    (hjob : IsJson (.object members)) (hmem : (stepsField, .array steps) ∈ members) :
    ∀ step ∈ steps, IsJson step := by
  cases hjob with
  | object members hkeys hmembers => exact (hmembers _ hmem).items

/-- What can be cut: the text of a field, the items of a field, the steps of all jobs. -/
inductive Part where
  | text (field : JsText)
  | list (field : JsText)
  | steps

namespace Part

def size (value : TruncatableCiResult) : Part → Nat
  | text field => match value.field field with
    | .string content => (codePoints content).length
    | _ => 0
  | list field => match value.field field with
    | .array items => items.length
    | _ => 0
  | steps => match value.field jobsField with
    | .array jobs => (jobs.map stepCount).sum
    | _ => 0

def cut (value : TruncatableCiResult) (count : Nat) : Part → TruncatableCiResult
  | text field => match value.field field with
    | .string content => withField value field (.string ((codePoints content).take count).flatten)
    | _ => value
  | list field => match value.field field with
    | .array items => withField value field (.array (items.take count))
    | _ => value
  | steps => match value.field jobsField with
    | .array jobs => withField value jobsField (.array (keepSteps count jobs))
    | _ => value

def fit (value : TruncatableCiResult) : Part → TruncatableCiResult
  | text field => fitStringField value field
  | list field => fitArrayField value field
  | steps => fitNestedSteps value

end Part

theorem mem_of_field {value : TruncatableCiResult} {field : JsText} {content : JsValue}
    (hfield : value.field field = content) (hdefined : content ≠ .undefined) :
    (field, content) ∈ value.fields :=
  mem_of_member hfield hdefined

theorem IsCiResult.withField {value : TruncatableCiResult} (hvalue : IsCiResult value)
    {field : JsText} {found content : JsValue} (hmem : (field, found) ∈ value.fields)
    (hcontent : IsJson content) : IsCiResult (withField value field content) :=
  ⟨hvalue.data.spread hmem hcontent, hvalue.limitOnce⟩

namespace Part

end Part

def emptied (value : TruncatableCiResult) (parts : List Part) : TruncatableCiResult :=
  parts.foldl (fun value part => part.cut value 0) value

/-- After each of the parts was emptied the result was still too long. -/
def EmptiedInVain (value : TruncatableCiResult) (parts : List Part) : Prop :=
  ∀ earlier part, earlier ++ [part] <+: parts →
    fits (emptied value (earlier ++ [part])) = false

theorem EmptiedInVain.concat {value : TruncatableCiResult} {parts : List Part}
    (hparts : EmptiedInVain value parts) {part : Part}
    (hpart : fits (emptied value (parts ++ [part])) = false) :
    EmptiedInVain value (parts ++ [part]) := by
  intro earlier other hother
  obtain heq | hother := List.prefix_concat_iff.mp hother
  · rw [heq]
    exact hpart
  · exact hparts earlier other hother

namespace Part

def name : Part → JsText
  | text field => field
  | list field => field
  | steps => jobsField

theorem cut_field {value : TruncatableCiResult} (part : Part) (count : Nat) {other : JsText}
    (hother : other ≠ part.name) : (part.cut value count).field other = value.field other := by
  cases part with
  | text field =>
    rw [cut]
    split
    · rename_i content hfield
      exact member_spread_of_ne (mem_of_field hfield nofun) _ hother
    · rfl
  | list field =>
    rw [cut]
    split
    · rename_i items hfield
      exact member_spread_of_ne (mem_of_field hfield nofun) _ hother
    · rfl
  | steps =>
    rw [cut]
    split
    · rename_i jobs hfield
      exact member_spread_of_ne (mem_of_field hfield nofun) _ hother
    · rfl

theorem cut_truncation (value : TruncatableCiResult) (part : Part) (count : Nat) :
    (part.cut value count).truncated = value.truncated ∧
      (part.cut value count).truncationReasons = value.truncationReasons := by
  cases part <;> rw [cut] <;> split <;> exact ⟨rfl, rfl⟩

end Part

/-- The results agree but for the fields of the parts. -/
structure AgreesBut (parts : List Part) (value result : TruncatableCiResult) : Prop where
  fields : ∀ name, (∀ part ∈ parts, name ≠ part.name) → result.field name = value.field name
  truncated : result.truncated = value.truncated
  truncationReasons : result.truncationReasons = value.truncationReasons

theorem AgreesBut.cut {parts : List Part} {value result : TruncatableCiResult}
    (hagrees : AgreesBut parts value result) {part : Part} (hpart : part ∈ parts) (count : Nat) :
    AgreesBut parts value (part.cut result count) where
  fields name hname :=
    (part.cut_field count (hname part hpart)).trans (hagrees.fields name hname)
  truncated := (part.cut_truncation result count).1.trans hagrees.truncated
  truncationReasons := (part.cut_truncation result count).2.trans hagrees.truncationReasons

theorem AgreesBut.emptied {parts : List Part} {value result : TruncatableCiResult}
    (hagrees : AgreesBut parts value result) {front : List Part}
    (hfront : ∀ part ∈ front, part ∈ parts) : AgreesBut parts value (emptied result front) := by
  induction front generalizing result with
  | nil => exact hagrees
  | cons part rest ih =>
    obtain ⟨hpart, hrest⟩ := List.forall_mem_cons.mp hfront
    exact ih (hagrees.cut hpart 0) hrest

end KodeGpt.FittedResponses
