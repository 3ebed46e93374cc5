import Mathlib.Data.Nat.Basic
import OpenIdea.Lib.Fuel

/-!
# Which types have a comparison

`CheckKeyComparators`: the types that the members of an rpcdata are given are texts, a map key needs
an `operator<`, and so do the members of a `key` rpcdata. `TypeOrdered` and `TypeJsonOk` walk from a
type to the members of the rpcdata that it names, with the names on the way in a set. As no name is
entered twice the walk ends, whatever refers to what (`walk_ends`).

The checks of `Codec.Generator` are these ones for types that have been read.
-/

set_option autoImplicit false

namespace OpenIdea.Codec.KeyComparators

open Lib

abbrev Text := List Char

local instance : LawfulBEq Text := inferInstance

/-! ## Types -/

/-- A type as `ParseType` gives it. -/
inductive Parsed
  | vector (element : Parsed)
  | map (key value : Parsed)
  | bad (text : Text)
  | name (text : Text)
  deriving DecidableEq

/-- What `\s` matches. -/
def isSpace (c : Char) : Bool :=
  c.toNat ∈ [0x20, 0x85, 0xa0, 0x1680, 0x2028, 0x2029, 0x202f, 0x205f, 0x3000] ||
    (9 ≤ c.toNat && c.toNat ≤ 13) || (0x1c ≤ c.toNat && c.toNat ≤ 0x1f) ||
    (0x2000 ≤ c.toNat && c.toNat ≤ 0x200a)

/-- `NormType`. -/
def normType (text : Text) : Text := text.filter fun c => !isSpace c

/-- The loop of `SplitTypeArgs`, with its `depth` and `cur`. -/
def splitFrom : Text → ℤ → Text → List Text
  | [], _, cur => if cur.isEmpty then [] else [cur]
  | ch :: rest, depth, cur =>
      if ch = '<' then splitFrom rest (depth + 1) (cur ++ [ch])
      else if ch = '>' then splitFrom rest (depth - 1) (cur ++ [ch])
      else if ch = ',' ∧ depth = 0 then cur :: splitFrom rest depth []
      else splitFrom rest depth (cur ++ [ch])

/-- `SplitTypeArgs`. -/
def splitTypeArgs (text : Text) : List Text := splitFrom text 0 []

/-- What stands between the beginning and the last character, where that is `>`. -/
def argument (opening text : Text) : Option Text :=
  if opening.isPrefixOf text && text.getLast? == some '>' then
    some (text.drop opening.length).dropLast
  else none

/-- `ParseType`, of a text of at most so many characters. An argument is shorter than its text. -/
def parseUpTo : ℕ → Text → Parsed
  | 0, text => .name (normType text)
  | n + 1, text =>
      let text := normType text
      match argument "std::vector<".toList text, argument "std::map<".toList text with
      | some element, _ => .vector (parseUpTo n element)
      | none, some args =>
          match splitTypeArgs args with
          | [key, value] => .map (parseUpTo n key) (parseUpTo n value)
          | _ => .bad text
      | none, none => .name text

/-- `ParseType`. -/
def parseType (text : Text) : Parsed := parseUpTo text.length text

/-- `IterMapKeys`. -/
def iterMapKeys : Parsed → List Parsed
  | .map key value => key :: (iterMapKeys key ++ iterMapKeys value)
  | .vector element => iterMapKeys element
  | _ => []

/-! ## Definitions -/

structure Member where
  name : Text
  type : Text

/-- What has been read from a file; `isRpcData` where its type is `RPC_DATA`. -/
structure SerializeData where
  name : Text
  isRpcData : Bool
  isKey : Bool
  members : List Member

/-- `ORDERED_SCALARS`. -/
def orderedScalars : List Text :=
  ["bool", "int8_t", "uint8_t", "int16_t", "uint16_t", "int32_t", "uint32_t", "int64_t", "uint64_t",
    "float", "double", "std::string"].map String.toList

/-- `JSON_MAP_KEYS`. -/
def jsonMapKeys : List Text :=
  ["std::string", "int32_t", "uint32_t", "uint64_t"].map String.toList

/-- `JSON_SCALARS`. -/
def jsonScalars : List Text := orderedScalars ++ ["Bytes".toList]

section

variable (datas : List SerializeData)

/-- `RpcDataByName`. -/
def rpcDataByName (n : Text) : Option SerializeData :=
  (datas.find? fun d => d.name = n).filter fun d => d.isRpcData

/-- What `TypeOrdered` and `TypeJsonOk` do not share: the names that end a walk, whether an rpcdata
must be a `key` or must not be one, and the names a map key must have where it is not walked. -/
structure Rule where
  scalars : List Text
  isKey : Bool
  mapKeys : Option (List Text)

/-- The walk of `TypeOrdered` and `TypeJsonOk`. A call costs one unit of fuel, and `none` is a walk
that is not finished. A name that is put on the stack is taken off again on every way back. -/
def walk (rule : Rule) : ℕ → List Text → Parsed → Option Bool
  | 0, _, _ => none
  | _ + 1, _, .bad _ => some false
  | fuel + 1, stack, .name n =>
      if n ∈ rule.scalars then some true
      else match rpcDataByName datas n with
        | none => some false
        | some d =>
            if d.isKey ≠ rule.isKey ∨ n ∈ stack then some false
            else allOf (fun m => walk rule fuel (n :: stack) (parseType m.type)) d.members
  | fuel + 1, stack, .vector element => walk rule fuel stack element
  | fuel + 1, stack, .map key value =>
      (match rule.mapKeys, key with
        | none, key => walk rule fuel stack key
        | some names, .name n => some (n ∈ names)
        | some _, _ => some false).bind
      fun b => if b then walk rule fuel stack value else some false

/-- `TypeOrdered(parsed, stack)`. -/
def typeOrdered : ℕ → List Text → Parsed → Option Bool :=
  walk datas { scalars := orderedScalars, isKey := true, mapKeys := none }

/-- `TypeJsonOk(parsed, stack)`. -/
def typeJsonOk : ℕ → List Text → Parsed → Option Bool :=
  walk datas { scalars := jsonScalars, isKey := false, mapKeys := some jsonMapKeys }

/-- The map keys of all members are ordered. -/
def mapKeysOrdered (fuel : ℕ) (d : SerializeData) : Option Bool :=
  allOf (fun m => allOf (typeOrdered datas fuel []) (iterMapKeys (parseType m.type))) d.members

/-- The members of a `key` are ordered. -/
def membersOrdered (fuel : ℕ) (d : SerializeData) : Option Bool :=
  if d.isKey then allOf (fun m => typeOrdered datas fuel [d.name] (parseType m.type)) d.members
  else some true

/-- `json_ok`. -/
def jsonOk (fuel : ℕ) (d : SerializeData) : Option Bool :=
  if d.isKey then some false
  else allOf (fun m => typeJsonOk datas fuel [] (parseType m.type)) d.members

/-- The loop of `CheckKeyComparators`: `none` where it is refused, else the `json_ok` of each
rpcdata. -/
def checkFrom (fuel : ℕ) : List SerializeData → Option (Option (List Bool))
  | [] => some (some [])
  | d :: rest =>
      if d.isRpcData then
        if d.isKey && d.members.isEmpty then some none
        else (mapKeysOrdered datas fuel d).bind fun b => if b then
          (membersOrdered datas fuel d).bind fun b => if b then
            (jsonOk datas fuel d).bind fun ok => (checkFrom fuel rest).bind fun oks =>
              some (oks.map (ok :: ·))
          else some none
        else some none
      else checkFrom fuel rest

/-- `CheckKeyComparators`. -/
def checkKeyComparators (fuel : ℕ) : Option (Option (List Bool)) := checkFrom datas fuel datas

/-! ## The walk ends -/

/-- The definitions that may still be entered. -/
def free (stack : List Text) : List SerializeData := datas.filter fun d => d.name ∉ stack

variable {datas} {n : Text} {stack : List Text} {d : SerializeData}

theorem mem_of_rpcDataByName (h : rpcDataByName datas n = some d) : d ∈ datas ∧ d.name = n := by
  have hfind : datas.find? (fun d => d.name = n) = some d := (Option.filter_eq_some_iff.1 h).1
  exact ⟨List.mem_of_find?_eq_some hfind, by simpa using List.find?_some hfind⟩

/-- Where a name is entered, its definition is free no longer. -/
theorem free_lt (h : rpcDataByName datas n = some d) (hn : n ∉ stack) :
    (free datas (n :: stack)).length < (free datas stack).length := by
  obtain ⟨hmem, rfl⟩ := mem_of_rpcDataByName h
  have hfree : free datas (d.name :: stack) = (free datas stack).filter fun e => e.name ≠ d.name := by
    rw [free, free, List.filter_filter]
    congr 1
    funext e
    simp [List.mem_cons, not_or]
  rw [hfree, List.length_filter_lt_length_iff_exists]
  exact ⟨d, List.mem_filter.2 ⟨hmem, decide_eq_true hn⟩, by simp⟩

/-- **A walk ends**, also where definitions refer to each other: with each name that is entered one
definition less is free, and between two names the type gets smaller. -/
theorem walk_ends (rule : Rule) (stack : List Text) (p : Parsed) :
    Ends fun fuel => walk datas rule fuel stack p := by
  induction hfree : (free datas stack).length using Nat.strong_induction_on generalizing stack p with
  | _ k ih =>
    induction p with
    | bad text => exact (Ends.const false).call fun _ => rfl
    | vector element ihe => exact ihe.call fun _ => rfl
    | map key value ihk ihv =>
      refine Ends.call (Ends.guard ?_ ihv) fun _ => rfl
      split
      · exact ihk
      · exact Ends.const _
      · exact Ends.const false
    | name n =>
      by_cases hscalar : n ∈ rule.scalars
      · exact (Ends.const true).call fun _ => if_pos hscalar
      · cases hd : rpcDataByName datas n with
        | none =>
          refine (Ends.const false).call fun _ => ?_
          simp only [walk, if_neg hscalar, hd]
        | some d =>
          by_cases hstop : d.isKey ≠ rule.isKey ∨ n ∈ stack
          · refine (Ends.const false).call fun _ => ?_
            simp only [walk, if_neg hscalar, hd, if_pos hstop]
          · have hlt := free_lt hd (not_or.1 hstop).2
            have hmembers : Ends fun fuel =>
                allOf (fun m => walk datas rule fuel (n :: stack) (parseType m.type)) d.members :=
              Ends.allOf fun m _ => ih _ (hfree ▸ hlt) (n :: stack) (parseType m.type) rfl
            refine hmembers.call fun _ => ?_
            simp only [walk, if_neg hscalar, hd, if_neg hstop]

/-- A name that is accepted ends the walk, or its members are accepted with the rest of the fuel. -/
theorem walk_name {rule : Rule} {fuel : ℕ}
    (h : walk datas rule (fuel + 1) stack (.name n) = some true) : n ∈ rule.scalars ∨
      ∃ d, rpcDataByName datas n = some d ∧
        ∀ m ∈ d.members, walk datas rule fuel (n :: stack) (parseType m.type) = some true := by
  simp only [walk] at h
  split at h
  case isTrue hscalar => exact Or.inl hscalar
  case isFalse hscalar =>
    cases hd : rpcDataByName datas n with
    | none =>
      rw [hd] at h
      cases h
    | some d =>
      simp only [hd] at h
      split at h
      · cases h
      · exact Or.inr ⟨d, rfl, allOf_iff.1 h⟩

/-- Induction over an accepted type: what it is made of is accepted by a shorter walk. -/
theorem ordered_induction {motive : Parsed → Prop} {fuel : ℕ} {p : Parsed}
    (scalar : ∀ n ∈ orderedScalars, motive (.name n))
    (vector : ∀ e, motive e → motive (.vector e))
    (map : ∀ k v, motive k → motive v → motive (.map k v))
    (data : ∀ n d, n ∉ orderedScalars → rpcDataByName datas n = some d →
      (∀ m ∈ d.members, motive (parseType m.type)) → motive (.name n))
    (h : typeOrdered datas fuel stack p = some true) : motive p := by
  induction fuel generalizing stack p with
  | zero => cases h
  | succ fuel ih =>
    cases p with
    | bad text => cases h
    | vector e => exact vector e (ih h)
    | map k v =>
      obtain ⟨hk, hv⟩ := guard_some (by simp) h
      exact map k v (ih hk) (ih hv)
    | name n =>
      by_cases hn : n ∈ orderedScalars
      · exact scalar n hn
      · obtain ⟨d, hd, hmembers⟩ := (walk_name h).resolve_left hn
        exact data n d hn hd fun m hm => ih (hmembers m hm)

theorem mapKeysOrdered_ends (d : SerializeData) : Ends fun fuel => mapKeysOrdered datas fuel d :=
  Ends.allOf fun _ _ => Ends.allOf fun key _ => walk_ends _ [] key

theorem membersOrdered_ends (d : SerializeData) : Ends fun fuel => membersOrdered datas fuel d := by
  simp only [membersOrdered]
  split
  · exact Ends.allOf fun m _ => walk_ends _ [d.name] (parseType m.type)
  · exact Ends.const true

theorem jsonOk_ends (d : SerializeData) : Ends fun fuel => jsonOk datas fuel d := by
  simp only [jsonOk]
  split
  · exact Ends.const false
  · exact Ends.allOf fun m _ => walk_ends _ [] (parseType m.type)

theorem checkFrom_ends (rest : List SerializeData) :
    Ends fun fuel => checkFrom datas fuel rest := by
  induction rest with
  | nil => exact Ends.const (some [])
  | cons d rest ih =>
    simp only [checkFrom]
    split
    · split
      · exact Ends.const none
      · exact (mapKeysOrdered_ends d).guard ((membersOrdered_ends d).guard
          ((jsonOk_ends d).bind fun ok => ih.bind fun oks => Ends.const _))
    · exact ih

/-- **`CheckKeyComparators` ends on every set of definitions.** -/
theorem checkKeyComparators_ends : Ends (checkKeyComparators datas) := checkFrom_ends datas

/-- What has been checked of each rpcdata of an accepted set. -/
theorem checkFrom_accepted {fuel : ℕ} {rest : List SerializeData} {oks : List Bool}
    (h : checkFrom datas fuel rest = some (some oks)) (hd : d ∈ rest) (hdata : d.isRpcData = true) :
    mapKeysOrdered datas fuel d = some true ∧ membersOrdered datas fuel d = some true := by
  induction rest generalizing oks with
  | nil => cases hd
  | cons e rest ih =>
    simp only [checkFrom] at h
    split at h
    · split at h
      · cases h
      · obtain ⟨hkeys, h⟩ := guard_some (by simp) h
        obtain ⟨hmembers, h⟩ := guard_some (by simp) h
        obtain ⟨ok, -, h⟩ := Option.bind_eq_some_iff.1 h
        obtain ⟨oks', hrest, h⟩ := Option.bind_eq_some_iff.1 h
        obtain ⟨oks'', rfl⟩ : ∃ oks'', oks' = some oks'' := by
          cases oks' with
          | none => cases h
          | some oks'' => exact ⟨oks'', rfl⟩
        rcases List.mem_cons.1 hd with rfl | hd
        · exact ⟨hkeys, hmembers⟩
        · exact ih hrest hd
    · rcases List.mem_cons.1 hd with rfl | hd
      · contradiction
      · exact ih h hd

end

end OpenIdea.Codec.KeyComparators
