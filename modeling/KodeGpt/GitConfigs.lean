import Mathlib.Data.List.TakeWhile
import KodeGpt.TextEncodings

/-!
Git configurations: entries in the order in which they are read, of which the last
one of a key is in force, and the entries that a command line adds to them.
-/

namespace KodeGpt.GitConfigs

open JsonText TextEncodings

structure Entry where
  key : Bytes
  value : Option Bytes
  deriving DecidableEq, Repr

abbrev Config := List Entry

def values (config : Config) (key : Bytes) : List (Option Bytes) :=
  (config.filter (·.key = key)).map Entry.value

def lastValue (config : Config) (key : Bytes) : Option (Option Bytes) :=
  (values config key).getLast?

def isSet (config : Config) (key : Bytes) : Bool :=
  match lastValue config key with
  | some (some value) => value ≠ []
  | _ => false

theorem values_append (config later : Config) (key : Bytes) :
    values (config ++ later) key = values config key ++ values later key := by
  rw [values, List.filter_append, List.map_append]
  rfl

theorem lastValue_append (config later : Config) (key : Bytes) :
    lastValue (config ++ later) key = (lastValue later key).or (lastValue config key) := by
  rw [lastValue, values_append, List.getLast?_append]
  rfl

theorem lastValue_eq_none {config : Config} {key : Bytes} (habsent : ∀ entry ∈ config,
    entry.key ≠ key) : lastValue config key = none := by
  have hempty : config.filter (·.key = key) = [] := by
    rw [List.filter_eq_nil_iff]
    intro entry hentry
    simp [habsent entry hentry]
  rw [lastValue, values, hempty]
  rfl

theorem lastValue_of_forall {config : Config} {key : Bytes} {value : Option Bytes}
    (hsame : ∀ entry ∈ config, entry.key = key → entry.value = value)
    (hone : ∃ entry ∈ config, entry.key = key) : lastValue config key = some value := by
  obtain ⟨entry, hentry, hkey⟩ := hone
  have hmem : entry.value ∈ values config key :=
    List.mem_map_of_mem (List.mem_filter.mpr ⟨hentry, decide_eq_true hkey⟩)
  have hlast := List.getLast?_eq_some_getLast (List.ne_nil_of_mem hmem)
  obtain ⟨found, hfound, hvalue⟩ := List.mem_map.mp (List.getLast_mem (List.ne_nil_of_mem hmem))
  obtain ⟨hfound, hkey'⟩ := List.mem_filter.mp hfound
  rw [lastValue, hlast, ← hvalue, hsame found hfound (of_decide_eq_true hkey')]

def dot : UInt8 := 46

def rsplitOnce (separator : UInt8) (text : Bytes) : Option (Bytes × Bytes) :=
  match text.reverse.span (· ≠ separator) with
  | (back, _ :: front) => some (front.reverse, back.reverse)
  | (_, []) => none

theorem rsplitOnce_append {separator : UInt8} (front : Bytes) {back : Bytes}
    (hback : separator ∉ back) :
    rsplitOnce separator (front ++ separator :: back) = some (front, back) := by
  have hreverse : (front ++ separator :: back).reverse =
      back.reverse ++ separator :: front.reverse := by simp
  have hmem : separator ∉ back.reverse := fun hmem => hback (List.mem_reverse.mp hmem)
  rw [rsplitOnce, hreverse, span_append_cons hmem]
  simp

theorem rsplitOnce_eq_some {separator : UInt8} {text front back : Bytes}
    (h : rsplitOnce separator text = some (front, back)) :
    text = front ++ separator :: back ∧ separator ∉ back := by
  rw [rsplitOnce, List.span_eq_takeWhile_dropWhile] at h
  have hwhole := List.takeWhile_append_dropWhile (p := fun byte => decide (byte ≠ separator))
    (l := text.reverse)
  split at h
  · rename_i back' byte front' hspan
    obtain ⟨hback, hfront⟩ := Prod.mk.inj hspan
    obtain ⟨rfl, rfl⟩ := Prod.mk.inj (Option.some.inj h)
    rw [hback, hfront] at hwhole
    have hbyte : byte = separator := by
      have hhead := List.head?_dropWhile_not (fun byte => decide (byte ≠ separator)) text.reverse
      rw [hfront] at hhead
      simpa using hhead
    subst hbyte
    refine ⟨?_, ?_⟩
    · rw [← List.reverse_reverse text, ← hwhole]
      simp
    · intro hmem
      rw [List.mem_reverse, ← hback] at hmem
      have hne := List.mem_takeWhile_imp hmem
      simp at hne
  · cases h

def optionFlag : Bytes := utf8 "-c"

def directoryFlag : Bytes := utf8 "-C"

def equalsSign : UInt8 := 61

def optionEntry (option : Bytes) : Entry :=
  match option.span (· ≠ equalsSign) with
  | (key, _ :: value) => ⟨key, some value⟩
  | (key, []) => ⟨key, none⟩

def options : List Bytes → Config × List Bytes
  | flag :: option :: rest =>
    if flag = optionFlag then
      (optionEntry option :: (options rest).1, (options rest).2)
    else if flag = directoryFlag then options rest
    else ([], flag :: option :: rest)
  | args => ([], args)

theorem optionEntry_append {key : Bytes} (hkey : equalsSign ∉ key) (value : Bytes) :
    optionEntry (key ++ equalsSign :: value) = ⟨key, some value⟩ := by
  rw [optionEntry, span_append_cons hkey]

theorem options_option (option : Bytes) (rest : List Bytes) :
    options (optionFlag :: option :: rest) =
      (optionEntry option :: (options rest).1, (options rest).2) := by
  rw [options, if_pos rfl]

theorem options_directory (directory : Bytes) (rest : List Bytes) :
    options (directoryFlag :: directory :: rest) = options rest := by
  have hne : directoryFlag ≠ optionFlag := by decide +kernel
  rw [options, if_neg hne, if_pos rfl]

theorem options_subcommand {subcommand : Bytes} (hoption : subcommand ≠ optionFlag)
    (hdirectory : subcommand ≠ directoryFlag) (rest : List Bytes) :
    options (subcommand :: rest) = ([], subcommand :: rest) := by
  cases rest with
  | nil => rfl
  | cons word later => rw [options, if_neg hoption, if_neg hdirectory]

theorem options_flatMap (added : List Bytes) (rest : List Bytes) :
    options (added.flatMap (fun option => [optionFlag, option]) ++ rest) =
      (added.map optionEntry ++ (options rest).1, (options rest).2) := by
  induction added with
  | nil => rfl
  | cons option later ih =>
    rw [List.flatMap_cons, List.append_assoc]
    show options (optionFlag :: option :: (later.flatMap _ ++ rest)) = _
    rw [options_option, ih]
    rfl

end KodeGpt.GitConfigs
