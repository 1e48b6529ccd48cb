import KodeGpt.GitCommands
import KodeGpt.ListCuts

/-!
The names of refs that the control plane takes for safe, against the names of
branches that the runtime creates: the safe ones are fewer.
-/

namespace KodeGpt.SafeRefs

open JsObjects
open JsonText (Bytes)
open JsFrames (asciiUnits)
open JsonText (utf8)
open GitCommands (validBranchName contains isBranchByte slash)
open ListCuts (mem_of_mem_splitOn)

def includes (text part : JsText) : Bool := text.tails.any part.isPrefixOf

/-- `[A-Za-z0-9]`. -/
def isAlphanumeric (unit : UInt16) : Bool :=
  (48 ≤ unit && unit ≤ 57) || (65 ≤ unit && unit ≤ 90) || (97 ≤ unit && unit ≤ 122)

/-- `[A-Za-z0-9._-]`. -/
def isNameUnit (unit : UInt16) : Bool :=
  isAlphanumeric unit || unit = 46 || unit = 95 || unit = 45

/-- `/^[A-Za-z0-9][A-Za-z0-9._-]*$/` without an ending that Git reserves. -/
def isSafePart (part : JsText) : Bool :=
  part.head?.any isAlphanumeric && part.tail.all isNameUnit &&
    !(asciiUnits ".lock").isSuffixOf part && !(asciiUnits ".").isSuffixOf part

def isSafeRef (ref : JsText) : Bool :=
  !includes ref (asciiUnits "..") && !includes ref (asciiUnits "@\x7b") &&
    (ref.splitOn 47).all isSafePart

/-- `GitSafeRefNameSchema`, and `isSafeGitRef` of the service. -/
def isSafeRefName (ref : JsText) : Bool :=
  0 < ref.length && ref.length ≤ 128 && isSafeRef ref

theorem all_isNameUnit_of_isSafePart {part : JsText} (hpart : isSafePart part = true) :
    ∀ unit ∈ part, isNameUnit unit = true := by
  simp only [isSafePart, Bool.and_eq_true] at hpart
  obtain ⟨⟨⟨hfirst, hrest⟩, -⟩, -⟩ := hpart
  cases part with
  | nil => exact List.forall_mem_nil _
  | cons first rest =>
    have halnum : isAlphanumeric first = true := hfirst
    refine List.forall_mem_cons.mpr ⟨?_, List.all_eq_true.mp hrest⟩
    rw [isNameUnit, halnum]
    rfl

theorem mem_safeRef {ref : JsText} (href : isSafeRef ref = true) :
    ∀ unit ∈ ref, unit = 47 ∨ isNameUnit unit = true := by
  intro unit hunit
  have hparts := List.all_eq_true.mp (Bool.and_eq_true_iff.mp href).2
  have hjoin : [47].intercalate (ref.splitOn 47) = ref := List.intercalate_splitOn 47
  rw [← hjoin] at hunit
  obtain heq | ⟨part, hpart, hmem⟩ := ListCuts.mem_intercalate hunit
  · exact Or.inl heq
  · exact Or.inr (all_isNameUnit_of_isSafePart (hparts part hpart) unit hmem)

theorem toUInt16_injective : Function.Injective UInt8.toUInt16 := by
  intro left right heq
  have hnat := congrArg UInt16.toNat heq
  rw [UInt8.toNat_toUInt16, UInt8.toNat_toUInt16] at hnat
  exact UInt8.toNat_inj.mp hnat

theorem splitOn_map (name : Bytes) (separator : UInt8) :
    (name.map UInt8.toUInt16).splitOn separator.toUInt16 =
      (name.splitOn separator).map (List.map UInt8.toUInt16) := by
  induction name with
  | nil => rfl
  | cons byte rest ih =>
    have hsame : (byte.toUInt16 == separator.toUInt16) = (byte == separator) := by
      rw [Bool.eq_iff_iff, beq_iff_eq, beq_iff_eq]
      exact toUInt16_injective.eq_iff
    rw [List.map_cons, List.splitOn_cons_eq_if_modifyHead, List.splitOn_cons_eq_if_modifyHead,
      hsame, ih]
    split
    · rfl
    · cases rest.splitOn separator with
      | nil => rfl
      | cons field fields => rfl

theorem includes_map (name part : Bytes) :
    includes (name.map UInt8.toUInt16) (part.map UInt8.toUInt16) = contains name part := by
  unfold includes contains
  induction name with
  | nil => cases part <;> rfl
  | cons byte rest ih =>
    have hhere : (part.map UInt8.toUInt16).isPrefixOf ((byte :: rest).map UInt8.toUInt16) =
        part.isPrefixOf (byte :: rest) := by
      rw [Bool.eq_iff_iff, List.isPrefixOf_iff_prefix, List.isPrefixOf_iff_prefix]
      exact List.prefix_map_iff_of_injective toUInt16_injective
    rw [List.map_cons] at hhere ⊢
    rw [List.tails, List.any_cons, List.tails, List.any_cons, ih, hhere]

theorem isSuffixOf_map (name part : Bytes) :
    (part.map UInt8.toUInt16).isSuffixOf (name.map UInt8.toUInt16) = part.isSuffixOf name := by
  rw [Bool.eq_iff_iff, List.isSuffixOf_iff_suffix, List.isSuffixOf_iff_suffix]
  exact List.suffix_map_iff_of_injective toUInt16_injective

theorem isAlphanumeric_toUInt16 (byte : UInt8) :
    isAlphanumeric byte.toUInt16 = GitCommands.isAlphanumeric byte := by
  unfold isAlphanumeric GitCommands.isAlphanumeric
  simp only [UInt16.le_iff_toNat_le, UInt8.le_iff_toNat_le, UInt8.toNat_toUInt16]
  rfl

theorem nil_mem_splitOn {front rest : Bytes} (hfront : front = [] ∨ front.getLast? = some slash) :
    [] ∈ (front ++ slash :: rest).splitOn slash := by
  rw [List.splitOn_append_cons_self]
  refine List.mem_append_left _ ?_
  obtain rfl | hlast := hfront
  · exact List.mem_cons_self
  · obtain ⟨earlier, rfl⟩ := List.getLast?_eq_some_iff.mp hlast
    rw [List.splitOn_append_cons_self]
    exact List.mem_append_right _ List.mem_cons_self

theorem exists_part_head {byte : UInt8} (hbyte : byte ≠ slash) (rest : Bytes) :
    ∃ part ∈ (byte :: rest).splitOn slash, part.head? = some byte := by
  have hne : (byte == slash) = false := beq_false_of_ne hbyte
  rw [List.splitOn_cons_eq_if_modifyHead, hne, if_neg Bool.false_ne_true]
  cases hrest : rest.splitOn slash with
  | nil => exact absurd hrest (List.splitOn_ne_nil _ _)
  | cons part parts => exact ⟨byte :: part, List.mem_cons_self, rfl⟩

theorem exists_part_last {byte : UInt8} (hbyte : byte ≠ slash) {name : Bytes}
    (hname : name.getLast? = some byte) : ∃ part ∈ name.splitOn slash, part.getLast? = some byte := by
  induction name with
  | nil => cases hname
  | cons first rest ih =>
    cases rest with
    | nil =>
      obtain rfl : first = byte := by simpa using hname
      refine ⟨[first], ?_, rfl⟩
      rw [List.splitOn_eq_singleton (by simpa using hbyte.symm)]
      exact List.mem_cons_self
    | cons second rest =>
      rw [List.getLast?_cons_cons] at hname
      obtain ⟨part, hpart, hlast⟩ := ih hname
      rw [List.splitOn_cons_eq_if_modifyHead]
      split
      · exact ⟨part, List.mem_cons_of_mem _ hpart, hlast⟩
      · cases hrest : (second :: rest).splitOn slash with
        | nil => exact absurd hrest (List.splitOn_ne_nil _ _)
        | cons head parts =>
          rw [hrest] at hpart
          obtain rfl | hpart := List.mem_cons.mp hpart
          · refine ⟨first :: part, List.mem_cons_self, ?_⟩
            rw [List.getLast?_cons, hlast]
            rfl
          · exact ⟨part, List.mem_cons_of_mem _ hpart, hlast⟩

def isRefByte (byte : UInt8) : Bool := byte = slash || isNameUnit byte.toUInt16

theorem isBranchByte_of_isRefByte {byte : UInt8} (hbyte : isRefByte byte = true) :
    isBranchByte byte = true ∧ byte ≠ 64 ∧ byte ≠ 92 := by
  have hall : ∀ value < 256, isRefByte (UInt8.ofNat value) = true →
      isBranchByte (UInt8.ofNat value) = true ∧ UInt8.ofNat value ≠ 64 ∧
        UInt8.ofNat value ≠ 92 := by decide +kernel
  have hvalue := hall byte.toNat byte.toNat_lt
  rw [UInt8.ofNat_toNat] at hvalue
  exact hvalue hbyte

/-- What a safe name asks for beyond the name of a branch: its length, its letters, and how its
parts begin and end. -/
structure IsPlainName (name : Bytes) : Prop where
  short : name.length ≤ 128
  plain : ∀ byte ∈ name, isRefByte byte = true
  parts : ∀ part ∈ name.splitOn slash,
    part.head?.any GitCommands.isAlphanumeric = true ∧ part.getLast? ≠ some 46

theorem isSafePart_map {part : Bytes} :
    isSafePart (part.map UInt8.toUInt16) = true ↔
      part.head?.any GitCommands.isAlphanumeric = true ∧
        (∀ byte ∈ part.tail, isNameUnit byte.toUInt16 = true) ∧
          (utf8 ".lock").isSuffixOf part = false ∧ part.getLast? ≠ some 46 := by
  have hlock : asciiUnits ".lock" = (utf8 ".lock").map UInt8.toUInt16 := by decide +kernel
  have hdot : asciiUnits "." = (utf8 ".").map UInt8.toUInt16 := by decide +kernel
  have hlast : (utf8 ".").isSuffixOf part = false ↔ part.getLast? ≠ some 46 := by
    have hunit : utf8 "." = [46] := by decide +kernel
    rw [Bool.eq_false_iff, Ne, List.isSuffixOf_iff_suffix, hunit]
    exact not_congr List.singleton_suffix_iff_getLast?_eq_some
  have hhead : (part.map UInt8.toUInt16).head?.any isAlphanumeric =
      part.head?.any GitCommands.isAlphanumeric := by
    cases part with
    | nil => rfl
    | cons byte rest => exact isAlphanumeric_toUInt16 byte
  rw [isSafePart, hlock, hdot, isSuffixOf_map, isSuffixOf_map, hhead, List.map_tail.symm,
    List.all_map]
  simp only [Bool.and_eq_true, Bool.not_eq_true', List.all_eq_true, Function.comp_apply,
    hlast, and_assoc]

theorem isSafeRefName_iff (name : Bytes) :
    isSafeRefName (name.map UInt8.toUInt16) = true ↔
      validBranchName name = true ∧ IsPlainName name := by
  have hdots : asciiUnits ".." = (utf8 "..").map UInt8.toUInt16 := by decide +kernel
  have hbrace : asciiUnits "@\x7b" = (utf8 "@\x7b").map UInt8.toUInt16 := by decide +kernel
  have hslash : (47 : UInt16) = slash.toUInt16 := by decide
  have hsafe : isSafeRefName (name.map UInt8.toUInt16) = true ↔
      (0 < name.length ∧ name.length ≤ 128) ∧
        (contains name (utf8 "..") = false ∧ contains name (utf8 "@\x7b") = false) ∧
          ∀ part ∈ name.splitOn slash, isSafePart (part.map UInt8.toUInt16) = true := by
    rw [isSafeRefName, isSafeRef, hdots, hbrace, hslash, includes_map, includes_map, splitOn_map,
      List.length_map, List.all_map]
    simp only [Bool.and_eq_true, Bool.not_eq_true', decide_eq_true_eq, List.all_eq_true,
      Function.comp_apply]
  rw [hsafe]
  constructor
  · rintro ⟨⟨hpos, hshort⟩, ⟨hdots, hbrace⟩, hparts⟩
    have hpart := fun part hmem => isSafePart_map.mp (hparts part hmem)
    have hnil : [] ∉ name.splitOn slash := fun hmem => nomatch (hpart [] hmem).1
    have hjoin : [slash].intercalate (name.splitOn slash) = name :=
      List.intercalate_splitOn slash
    have hbytes : ∀ byte ∈ name, isRefByte byte = true := by
      intro byte hbyte
      rw [← hjoin] at hbyte
      obtain rfl | ⟨part, hmem, hinside⟩ := ListCuts.mem_intercalate hbyte
      · rfl
      · have hunit := all_isNameUnit_of_isSafePart (hparts part hmem) byte.toUInt16
          (List.mem_map_of_mem hinside)
        rw [isRefByte, hunit, Bool.or_true]
    have hhead : ∀ byte, GitCommands.isAlphanumeric byte = false → byte ≠ slash →
        name.head? ≠ some byte := by
      intro byte hbyte hslash hname
      obtain ⟨rest, rfl⟩ := List.head?_eq_some_iff.mp hname
      obtain ⟨part, hmem, hfirst⟩ := exists_part_head hslash rest
      have halnum := (hpart part hmem).1
      rw [hfirst, Option.any_some, hbyte] at halnum
      cases halnum
    refine ⟨?_, hshort, hbytes, fun part hmem => ⟨(hpart part hmem).1, (hpart part hmem).2.2.2⟩⟩
    simp only [validBranchName, Bool.and_eq_true, Bool.not_eq_true', decide_eq_true_eq,
      List.all_eq_true, and_assoc]
    refine ⟨List.length_pos_iff.mp hpos, by omega, ?_, hhead 45 (by decide) (by decide),
      hhead 46 (by decide) (by decide), ?_, ?_, ?_, hdots, ?_, hbrace, ?_, ?_, ?_⟩
    · intro hat
      have hbyte := hbytes 64 (by rw [hat]; decide +kernel)
      exact (isBranchByte_of_isRefByte hbyte).2.1 rfl
    · intro hname
      obtain ⟨rest, rfl⟩ := List.head?_eq_some_iff.mp hname
      exact hnil (@nil_mem_splitOn [] rest (Or.inl rfl))
    · intro hname
      obtain ⟨part, hmem, hlast⟩ := exists_part_last (by decide) hname
      exact (hpart part hmem).2.2.2 hlast
    · intro hname
      obtain ⟨front, rfl⟩ := List.getLast?_eq_some_iff.mp hname
      apply hnil
      rw [List.splitOn_append_cons_self]
      exact List.mem_append_right _ List.mem_cons_self
    · rw [Bool.eq_false_iff]
      intro hcontains
      obtain ⟨tail, htail, hslashes⟩ := List.any_eq_true.mp hcontains
      obtain ⟨front, rfl⟩ := (List.mem_tails tail name).mp htail
      have hpair : utf8 "//" = [slash, slash] := by decide +kernel
      rw [hpair, List.isPrefixOf_iff_prefix] at hslashes
      obtain ⟨rest, rfl⟩ := hslashes
      have hempty := @nil_mem_splitOn (front ++ [slash]) rest (Or.inr (by simp))
      rw [List.append_assoc] at hempty
      exact hnil hempty
    · rw [Bool.eq_false_iff, Ne, List.contains_iff_mem]
      intro hmem
      exact (isBranchByte_of_isRefByte (hbytes 92 hmem)).2.2 rfl
    · exact fun byte hmem => (isBranchByte_of_isRefByte (hbytes byte hmem)).1
    · intro part hmem
      obtain ⟨halnum, -, hlock, -⟩ := hpart part hmem
      refine ⟨fun heq => hnil (heq ▸ hmem), fun hdot => ?_, hlock⟩
      rw [hdot] at halnum
      cases halnum
  · rintro ⟨hvalid, hplain⟩
    simp only [validBranchName, Bool.and_eq_true, Bool.not_eq_true', decide_eq_true_eq,
      List.all_eq_true, and_assoc] at hvalid
    obtain ⟨hne, -, -, -, -, -, -, -, hdots, -, hbrace, -, -, hcomponents⟩ := hvalid
    refine ⟨⟨List.length_pos_iff.mpr hne, hplain.short⟩, ⟨hdots, hbrace⟩, fun part hmem => ?_⟩
    obtain ⟨halnum, hlast⟩ := hplain.parts part hmem
    refine isSafePart_map.mpr ⟨halnum, fun byte hbyte => ?_, (hcomponents part hmem).2.2, hlast⟩
    have hinside := List.mem_of_mem_tail hbyte
    have hplainByte := hplain.plain byte (mem_of_mem_splitOn hmem hinside)
    have hslash : byte ≠ slash := fun heq =>
      ListCuts.notMem_splitOn slash name part hmem (heq ▸ hinside)
    simpa [isRefByte, hslash] using hplainByte

theorem isNameUnit_small {unit : UInt16} (hunit : isNameUnit unit = true) : unit.toNat < 128 := by
  simp only [isNameUnit, isAlphanumeric, Bool.or_eq_true, Bool.and_eq_true, decide_eq_true_eq,
    UInt16.le_iff_toNat_le, UInt16.reduceToNat] at hunit
  obtain ((((h | h) | h) | rfl) | rfl) | rfl := hunit
  · omega
  · omega
  · omega
  · decide
  · decide
  · decide

/-- The safe names are the plain names of branches. -/
theorem isSafeRefName_iff_exists (ref : JsText) :
    isSafeRefName ref = true ↔
      ∃ name : Bytes, ref = name.map UInt8.toUInt16 ∧ validBranchName name = true ∧
        IsPlainName name := by
  constructor
  · intro href
    have hback : (ref.map UInt16.toUInt8).map UInt8.toUInt16 = ref := by
      rw [List.map_map]
      refine (List.map_congr_left fun unit hunit => ?_).trans (List.map_id _)
      have hsmall : unit.toNat < 128 := by
        obtain rfl | hname := mem_safeRef (Bool.and_eq_true_iff.mp href).2 unit hunit
        · decide
        · exact isNameUnit_small hname
      apply UInt16.toNat_inj.mp
      rw [Function.comp_apply, UInt8.toNat_toUInt16, UInt16.toNat_toUInt8, id]
      omega
    rw [← hback] at href
    exact ⟨ref.map UInt16.toUInt8, hback.symm, (isSafeRefName_iff _).mp href⟩
  · rintro ⟨name, rfl, hname⟩
    exact (isSafeRefName_iff name).mpr hname

end KodeGpt.SafeRefs
