import Mathlib.Data.List.TakeWhile
import OpenIdea.Codec.Json
import OpenIdea.Redis.Replies

/-!
# Typed reads of replies (oi_redis_value.h)

`Decode` reads a reply into an object of the caller's type. It recurses over that type, not over the
reply: each overload looks at one node and hands its elements on. On the way it writes into objects
that it may give up later; `ReadResult` keeps all of that away from the caller's object.

`decode` has the object before and after, as the code has it. `Shape` says what a reply of a type
looks like and which object it says; `decode_iff` ties them together.
-/

set_option autoImplicit false

namespace OpenIdea.Redis.Typed

open OpenIdea.Lib OpenIdea.Codec OpenIdea.Redis.Replies
open scoped OpenIdea.Codec.Json

/-! ## What hiredis may hand over -/

/-- `str` with `len`. -/
inductive Chars where
  | null (len : Nat)
  | text (bytes : List UInt8)

/-- `element` with `elements`; the pointer may be null, and so may each entry. -/
inductive Elements (α : Type) where
  | null (count : Nat)
  | entries (list : List (Option α))

/-- A `redisReply`. -/
inductive Node where
  | node (type : ReplyType) (integer : Int) (str : Chars) (element : Elements Node)

namespace Node

def type : Node → ReplyType
  | node type _ _ _ => type

def integer : Node → Int
  | node _ integer _ _ => integer

def str : Node → Chars
  | node _ _ str _ => str

def element : Node → Elements Node
  | node _ _ _ element => element

end Node

/-- The bytes; a null pointer stands for no bytes, and for nothing else. -/
def Chars.get : Chars → Option (List UInt8)
  | null len => if len = 0 then some [] else none
  | text bytes => some bytes

/-- The elements, with the same exception. -/
def Elements.get {α : Type} : Elements α → Option (List (Option α))
  | null count => if count = 0 then some [] else none
  | entries list => some list

/-- The two elements of a page. -/
def pagePair : Elements Node → Option (Node × Node)
  | .entries [some c, some v] => some (c, v)
  | _ => none

/-! ## The types that can be read -/

/-- An output type. `page` is a `RedisScanPage`, `scored` a vector of `RedisScored`. -/
inductive Out where
  | string
  | integral (signed : Bool) (bits : Nat)
  | bool
  | data (name : String)
  | optional (t : Out)
  | vector (t : Out)
  | scored (t : Out)
  | map (t : Out)
  | page (t : Out)

/-- A `std::map` with `std::string` keys: its entries in the order of the keys. -/
abbrev StringMap (V : Type) : Type := { m : List (List UInt8 × V) // OrdMap.Sorted m }

/-- `insert_or_assign`. -/
def StringMap.put {V : Type} (m : StringMap V) (key : List UInt8) (v : V) : StringMap V :=
  ⟨OrdMap.put m.1 key v, m.2.put key v⟩

/-- The objects of a type. The scores are of a type of their own. -/
@[reducible] def Out.Value (σ : Type) : Out → Type
  | string => List UInt8
  | integral _ _ => Int
  | bool => Bool
  | data _ => Val
  | optional t => Option (t.Value σ)
  | vector t => List (t.Value σ)
  | scored t => List (t.Value σ × σ)
  | map t => StringMap (t.Value σ)
  | page t => Nat × t.Value σ

/-- `std::in_range`. -/
def inRange (signed : Bool) (bits : Nat) (n : Int) : Bool :=
  if signed then decide (-2 ^ (bits - 1) ≤ n ∧ n < 2 ^ (bits - 1)) else decide (0 ≤ n ∧ n < 2 ^ bits)

/-- The codes of a read. -/
inductive Code where
  | ok
  | notFound
  | protocol
  | decode
  | timeout
  | connect
  | invalidArgument
  | fail
  | busy
  | redis
  | wrongType
  | encode
  deriving DecidableEq

/-- `std::from_chars` for a `uint64_t`: the number, and what stands behind its digits. -/
def fromChars (text : List UInt8) : Option (Nat × List UInt8) :=
  let digits := text.takeWhile fun c => decide (Decimal.IsDigit c)
  if digits = [] ∨ 2 ^ 64 ≤ Decimal.value digits then none
  else some (Decimal.value digits, text.dropWhile fun c => decide (Decimal.IsDigit c))

section Decode

-- the schema of the rpcdata, what a failed `deserialize` leaves of an object, how a score is read, and
-- the score of a new object
variable {σ : Type} (S : Schema) (torn : String → Val → List UInt8 → Val)
  (parseScore : List UInt8 → Option σ) (zero : σ)

/-- `T stValue{}`. -/
def fresh : (t : Out) → t.Value σ
  | .string => ([] : List UInt8)
  | .integral _ _ => (0 : Int)
  | .bool => false
  | .data n => S.fresh (.data n)
  | .optional t => (none : Option (t.Value σ))
  | .vector t => ([] : List (t.Value σ))
  | .scored t => ([] : List (t.Value σ × σ))
  | .map t => (⟨[], List.Pairwise.nil⟩ : StringMap (t.Value σ))
  | .page t => ((0, fresh t) : Nat × t.Value σ)

/-- `if (iRet != OI_OK) return iRet;` -/
def onOk {α β : Type} (res : Code × β) (out : α) (k : β → Code × α) : Code × α :=
  match res with
  | (.ok, x) => k x
  | (e, _) => (e, out)

/-- `if (!p) return OI_ERR_PROTOCOL;` -/
def given {α β : Type} (p : Option β) (out : α) (k : β → Code × α) : Code × α :=
  match p with
  | none => (.protocol, out)
  | some b => k b

/-- `if (bBad) return eCode;` -/
def refuse {α : Type} (bad : Prop) [Decidable bad] (e : Code) (out : α) (k : Code × α) : Code × α :=
  if bad then (e, out) else k

/-- The loop over `element`. -/
def forEntries {α : Type} (step : Node → α → Code × α) : List (Option Node) → α → Code × α
  | [], out => (.ok, out)
  | none :: _, out => (.protocol, out)
  | some r :: rest, out =>
      match step r out with
      | (.ok, out) => forEntries step rest out
      | (e, out) => (e, out)

/-- The loop over `element` in steps of two. -/
def forPairs {α : Type} (step : Node → Node → α → Code × α) : List (Option Node) → α → Code × α
  | [], out => (.ok, out)
  | some a :: some b :: rest, out =>
      match step a b out with
      | (.ok, out) => forPairs step rest out
      | (e, out) => (e, out)
  | _, out => (.protocol, out)

/-- `Decode` into a `std::string`. -/
def decodeString (r : Node) (out : List UInt8) : Code × List UInt8 :=
  refuse (r.type = .nil) .notFound out <|
  refuse (r.type ≠ .string ∧ r.type ≠ .status) .protocol out <|
  given r.str.get out fun bytes => (.ok, bytes)

/-- `Decode` into a `double`. -/
def decodeScore (r : Node) (out : σ) : Code × σ :=
  refuse (r.type = .nil) .notFound out <|
  refuse (r.type ≠ .string) .protocol out <|
  given r.str.get out fun bytes =>
  refuse (bytes = []) .protocol out <|
  given (parseScore bytes) out fun x => (.ok, x)

/-- `Decode`: the code, and the object afterwards. -/
def decode : (t : Out) → Node → t.Value σ → Code × t.Value σ
  | .string, r, out => decodeString r out
  | .integral signed bits, r, out =>
      refuse (r.type = .nil) .notFound out <|
      refuse (r.type ≠ .integer ∨ inRange signed bits r.integer = false) .protocol out
      (.ok, r.integer)
  | .bool, r, out =>
      refuse (r.type = .nil) .notFound out <|
      refuse (r.type ≠ .integer ∨ (r.integer ≠ 0 ∧ r.integer ≠ 1)) .protocol out
      (.ok, decide (r.integer ≠ 0))
  | .data n, r, out =>
      refuse (r.type = .nil) .notFound out <|
      refuse (r.type ≠ .string) .protocol out <|
      given r.str.get out fun bytes =>
      match deserialize S n out (.ofBytes bytes) with
      | .error _ => (.decode, torn n out bytes)
      | .ok (v, os) => refuse (os.remainSize ≠ 0) .decode v (.ok, v)
  | .optional t, r, out =>
      if r.type = .nil then (.ok, (none : Option (t.Value σ)))
      else onOk (decode t r (fresh S t)) out fun x => (.ok, some x)
  | .vector t, r, out =>
      refuse (r.type = .nil) .notFound out <|
      refuse (r.type ≠ .array) .protocol out <|
      given r.element.get out fun list =>
      forEntries (fun r (out : List (t.Value σ)) =>
        onOk (decode t r (fresh S t)) out fun x => (.ok, out ++ [x])) list out
  | .scored t, r, out =>
      refuse (r.type = .nil) .notFound out <|
      refuse (r.type ≠ .array) .protocol out <|
      given r.element.get out fun list =>
      refuse (list.length % 2 ≠ 0) .protocol out <|
      forPairs (fun a b (out : List (t.Value σ × σ)) =>
        onOk (decode t a (fresh S t)) out fun x =>
        onOk (decodeScore parseScore b zero) out fun score => (.ok, out ++ [(x, score)])) list out
  | .map t, r, out =>
      refuse (r.type = .nil) .notFound out <|
      refuse (r.type ≠ .array) .protocol out <|
      given r.element.get out fun list =>
      refuse (list.length % 2 ≠ 0) .protocol out <|
      forPairs (fun a b (out : StringMap (t.Value σ)) =>
        onOk (decodeString a []) out fun field =>
        onOk (decode t b (fresh S t)) out fun x => (.ok, out.put field x)) list out
  | .page t, r, out =>
      refuse (r.type ≠ .array) .protocol out <|
      given (pagePair r.element) out fun (c, v) =>
      refuse (c.type ≠ .string) .protocol out <|
      given c.str.get out fun bytes =>
      refuse (bytes = []) .protocol out <|
      given (fromChars bytes) out fun (cursor, rest) =>
      -- the cursor is stored before the rest of its text is looked at
      refuse (rest ≠ []) .protocol ((cursor, out.2) : Nat × t.Value σ) <|
      match decode t v out.2 with
      | (e, x) => (e, ((cursor, x) : Nat × t.Value σ))

/-! ## `ReadResult` -/

/-- `RedisStatus`. -/
inductive Status where
  | ok
  | timeout
  | disconnected
  | invalidArgument
  | sendFailed
  | busy
  | protocolError
  | serverError
  deriving DecidableEq

/-- A `RedisResult`. -/
structure RedisResult where
  status : Status
  reply : Option Node

/-- The reply is an error that begins with `WRONGTYPE` and a blank. -/
def isWrongType (reply : Option Node) : Bool :=
  match reply with
  | some r =>
      match r.str with
      | .text bytes => (ascii "WRONGTYPE ").isPrefixOf bytes
      | .null _ => false
  | none => false

/-- `RedisResult::GetRet`. -/
def RedisResult.getRet (result : RedisResult) : Code :=
  match result.status with
  | .ok => if result.reply.isSome then .ok else .protocol
  | .timeout => .timeout
  | .disconnected => .connect
  | .invalidArgument => .invalidArgument
  | .sendFailed => .fail
  | .busy => .busy
  | .protocolError => .protocol
  | .serverError => if isWrongType result.reply then .wrongType else .redis

/-- `ReadResult`: the code, and the caller's object afterwards. -/
def readResult (t : Out) (result : RedisResult) (out : t.Value σ) : Code × t.Value σ :=
  onOk (result.getRet, ()) out fun _ =>
  given result.reply out fun r =>
  onOk (decode S torn parseScore zero t r (fresh S t)) out fun x => (.ok, x)

/-! ## What a reply of a type looks like -/

/-- The entries two by two. -/
inductive Pairs {α : Type} (P : Node → Node → α → Prop) : List (Option Node) → List α → Prop
  | nil : Pairs P [] []
  | cons {a b : Node} {x : α} {rest : List (Option Node)} {xs : List α} (h : P a b x)
      (hrest : Pairs P rest xs) : Pairs P (some a :: some b :: rest) (x :: xs)

/-- A reply that is a text. -/
def StringShape (r : Node) (x : List UInt8) : Prop :=
  (r.type = .string ∨ r.type = .status) ∧ r.str.get = some x

/-- A reply that is a score. -/
def ScoreShape (r : Node) (x : σ) : Prop :=
  r.type = .string ∧ ∃ bytes, r.str.get = some bytes ∧ bytes ≠ [] ∧ parseScore bytes = some x

/-- The whole reply is one of the type, and says `x`. -/
def Shape : (t : Out) → Node → t.Value σ → Prop
  | .string, r, x => StringShape r x
  | .integral signed bits, r, x =>
      r.type = .integer ∧ inRange signed bits r.integer = true ∧ x = r.integer
  | .bool, r, x =>
      r.type = .integer ∧ (r.integer = 0 ∧ x = false ∨ r.integer = 1 ∧ x = true)
  | .data n, r, x =>
      r.type = .string ∧ ∃ bytes os, r.str.get = some bytes ∧
        deserialize S n (S.fresh (.data n)) (.ofBytes bytes) = .ok (x, os) ∧ os.remainSize = 0
  | .optional t, r, x =>
      (r.type = .nil ∧ x = (none : Option (t.Value σ))) ∨
        (r.type ≠ .nil ∧ ∃ y, Shape t r y ∧ x = some y)
  | .vector t, r, x =>
      r.type = .array ∧ ∃ list, r.element.get = some list ∧
        List.Forall₂ (fun e y => ∃ r', e = some r' ∧ Shape t r' y) list x
  | .scored t, r, x =>
      r.type = .array ∧ ∃ list, r.element.get = some list ∧
        Pairs (fun a b (y : t.Value σ × σ) => Shape t a y.1 ∧ ScoreShape parseScore b y.2) list x
  | .map t, r, x =>
      r.type = .array ∧ ∃ list ps, r.element.get = some list ∧
        Pairs (fun a b (p : List UInt8 × t.Value σ) => StringShape a p.1 ∧ Shape t b p.2) list ps ∧
        x = ⟨OrdMap.ofList ps, OrdMap.ofList_sorted ps⟩
  | .page t, r, x =>
      r.type = .array ∧ ∃ c v bytes, r.element = .entries [some c, some v] ∧ c.type = .string ∧
        c.str.get = some bytes ∧ Decimal.IsNumeral bytes ∧ Decimal.value bytes < 2 ^ 64 ∧
        x.1 = Decimal.value bytes ∧ Shape t v x.2

-- nil is no error where a value is optional
example (t : Out) (r : Node) (out : Option (t.Value σ)) (h : r.type = .nil) :
    decode S torn parseScore zero (.optional t) r out = (.ok, none) ∧
      Shape S parseScore (.optional t) r none := by
  rw [decode, if_pos h, Shape]
  exact ⟨rfl, Or.inl ⟨h, rfl⟩⟩

/-! ### The loops -/

variable {α β : Type}

variable {list : List (Option Node)}

/-- A loop over the elements is through exactly if each step is, and adds up the objects. -/
theorem forEntries_iff {step : Node → α → Code × α} {P : Node → β → Prop} {add : α → β → α}
    (hstep : ∀ r out out', step r out = (.ok, out') ↔
      ∃ x, P r x ∧ out' = add out x) : ∀ {out out' : α},
    forEntries step list out = (.ok, out') ↔
      ∃ xs, List.Forall₂ (fun e x => ∃ r, e = some r ∧ P r x) list xs ∧ out' = xs.foldl add out := by
  induction list with
  | nil =>
    intro out out'
    constructor
    · intro h
      exact ⟨[], List.Forall₂.nil, (congrArg Prod.snd h).symm⟩
    · rintro ⟨xs, hxs, rfl⟩
      obtain rfl := List.forall₂_nil_left_iff.1 hxs
      rfl
  | cons e rest ih =>
    intro out out'
    cases e with
    | none =>
      constructor
      · intro h
        cases h
      · rintro ⟨xs, hxs, -⟩
        obtain ⟨x, xs', ⟨r, hr, -⟩, -, -⟩ := List.forall₂_cons_left_iff.1 hxs
        cases hr
    | some r =>
      rw [forEntries]
      constructor
      · intro h
        split at h
        · rename_i mid hmid
          obtain ⟨x, hx, rfl⟩ := (hstep r out mid).1 hmid
          obtain ⟨xs, hxs, rfl⟩ := ih.1 h
          exact ⟨x :: xs, List.Forall₂.cons ⟨r, rfl, hx⟩ hxs, rfl⟩
        · rename_i e mid hne hmid
          exact absurd (Prod.mk.inj h).1 hne
      · rintro ⟨xs, hxs, rfl⟩
        obtain ⟨x, xs', ⟨r', hr, hx⟩, hrest, rfl⟩ := List.forall₂_cons_left_iff.1 hxs
        obtain rfl := Option.some.inj hr
        rw [(hstep r out (add out x)).2 ⟨x, hx, rfl⟩]
        exact ih.2 ⟨xs', hrest, rfl⟩

theorem forPairs_iff {step : Node → Node → α → Code × α} {P : Node → Node → β → Prop}
    {add : α → β → α} (hstep : ∀ a b out out', step a b out = (.ok, out') ↔
      ∃ x, P a b x ∧ out' = add out x) {out out' : α} :
    forPairs step list out = (.ok, out') ↔
      ∃ xs, Pairs P list xs ∧ out' = xs.foldl add out := by
  fun_induction forPairs step list out with
  | case1 out =>
    constructor
    · intro h
      exact ⟨[], .nil, (congrArg Prod.snd h).symm⟩
    · rintro ⟨xs, hxs, rfl⟩
      cases hxs
      rfl
  | case2 a b rest out mid hmid ih =>
    obtain ⟨x, hx, rfl⟩ := (hstep a b out mid).1 hmid
    constructor
    · intro h
      obtain ⟨xs, hxs, rfl⟩ := ih.1 h
      exact ⟨x :: xs, .cons hx hxs, rfl⟩
    · rintro ⟨xs, hxs, rfl⟩
      cases hxs with
      | @cons _ _ y _ ys hy hrest =>
        have hsame := (hstep a b out (add out y)).2 ⟨y, hy, rfl⟩
        rw [hmid] at hsame
        have hsame : add out x = add out y := (Prod.mk.inj hsame).2
        rw [ih, hsame]
        exact ⟨ys, hrest, rfl⟩
  | case3 a b rest out e mid hne hmid =>
    constructor
    · intro h
      exact absurd (Prod.mk.inj h).1 hne
    · rintro ⟨xs, hxs, rfl⟩
      cases hxs with
      | @cons _ _ y _ ys hy hrest =>
        have hok := (hstep a b out (add out y)).2 ⟨y, hy, rfl⟩
        rw [hmid] at hok
        exact absurd (Prod.mk.inj hok).1 hne
  | case4 out list hnil hcons =>
    constructor
    · intro h
      cases h
    · rintro ⟨xs, hxs, -⟩
      cases hxs with
      | nil => exact absurd rfl hnil
      | cons hx hrest => exact absurd rfl (hcons _ _ _)

theorem Pairs.even {P : Node → Node → α → Prop} {xs : List α} (h : Pairs P list xs) :
    list.length % 2 = 0 := by
  induction h with
  | nil => rfl
  | cons _ _ ih =>
    rw [List.length_cons, List.length_cons]
    omega

/-! ### The overloads -/

section Rules

variable {out x : α}

theorem refuse_iff {bad : Prop} [Decidable bad] {e : Code} (he : e ≠ .ok) {k : Code × α} :
    refuse bad e out k = (.ok, x) ↔ ¬ bad ∧ k = (.ok, x) := by
  rw [refuse]
  by_cases hbad : bad
  · rw [if_pos hbad]
    constructor
    · intro h
      exact absurd (Prod.mk.inj h).1 he
    · rintro ⟨h, -⟩
      exact absurd hbad h
  · rw [if_neg hbad]
    exact (and_iff_right hbad).symm

theorem given_iff {p : Option β} {k : β → Code × α} :
    given p out k = (.ok, x) ↔ ∃ b, p = some b ∧ k b = (.ok, x) := by
  cases p with
  | none =>
    constructor
    · intro h
      cases h
    · rintro ⟨b, hb, -⟩
      cases hb
  | some b =>
    constructor
    · intro h
      exact ⟨b, rfl, h⟩
    · rintro ⟨b', hb, h⟩
      obtain rfl := Option.some.inj hb
      exact h

theorem onOk_iff {res : Code × β} {k : β → Code × α} :
    onOk res out k = (.ok, x) ↔ ∃ y, res = (.ok, y) ∧ k y = (.ok, x) := by
  unfold onOk
  constructor
  · intro h
    split at h
    · exact ⟨_, rfl, h⟩
    · rename_i e y hne
      exact absurd (Prod.mk.inj h).1 hne
  · rintro ⟨y, rfl, h⟩
    exact h

theorem ok_iff {y : α} : ((.ok, y) : Code × α) = (.ok, x) ↔ x = y :=
  ⟨fun h => (Prod.mk.inj h).2.symm, fun h => Prod.ext rfl h.symm⟩

theorem notFound_ne : Code.notFound ≠ .ok := fun h => by cases h

theorem protocol_ne : Code.protocol ≠ .ok := fun h => by cases h

theorem decode_ne : Code.decode ≠ .ok := fun h => by cases h

/-- The tests of the type of a node. -/
theorem typed_iff {ty : ReplyType} (hty : ty ≠ .nil) {r : Node} {k : Code × α} :
    refuse (r.type = .nil) .notFound out (refuse (r.type ≠ ty) .protocol out k) = (.ok, x) ↔
      r.type = ty ∧ k = (.ok, x) := by
  rw [refuse_iff notFound_ne, refuse_iff protocol_ne, not_not]
  constructor
  · rintro ⟨-, htype, h⟩
    exact ⟨htype, h⟩
  · rintro ⟨htype, h⟩
    exact ⟨fun hnil => hty (htype.symm.trans hnil), htype, h⟩

end Rules

theorem decodeString_iff {r : Node} {out x : List UInt8} :
    decodeString r out = (.ok, x) ↔ StringShape r x := by
  rw [decodeString, refuse_iff notFound_ne, refuse_iff protocol_ne, given_iff, StringShape]
  simp only [ok_iff]
  constructor
  · rintro ⟨-, htype, bytes, hstr, rfl⟩
    refine ⟨?_, hstr⟩
    by_contra hnone
    rw [not_or] at hnone
    exact htype hnone
  · rintro ⟨htype, hstr⟩
    refine ⟨?_, fun hnone => ?_, x, hstr, rfl⟩
    · rintro hnil
      rcases htype with h | h
      · cases hnil.symm.trans h
      · cases hnil.symm.trans h
    · rcases htype with h | h
      · exact hnone.1 h
      · exact hnone.2 h

theorem decodeScore_iff {r : Node} {out x : σ} :
    decodeScore parseScore r out = (.ok, x) ↔ ScoreShape parseScore r x := by
  rw [decodeScore, typed_iff (by exact fun h => by cases h), given_iff, ScoreShape]
  simp only [refuse_iff protocol_ne, given_iff, ok_iff]
  constructor
  · rintro ⟨htype, bytes, hstr, hne, y, hy, rfl⟩
    exact ⟨htype, bytes, hstr, hne, hy⟩
  · rintro ⟨htype, bytes, hstr, hne, hx⟩
    exact ⟨htype, bytes, hstr, hne, x, hx, rfl⟩

/-- A text whose digits `from_chars` reads to its end. -/
theorem fromChars_iff {bytes : List UInt8} {n : Nat} :
    fromChars bytes = some (n, []) ↔
      Decimal.IsNumeral bytes ∧ Decimal.value bytes < 2 ^ 64 ∧ n = Decimal.value bytes := by
  have hsplit := List.takeWhile_append_dropWhile
    (p := fun c => decide (Decimal.IsDigit c)) (l := bytes)
  rw [fromChars]
  constructor
  · intro h
    obtain ⟨hgood, h⟩ := Option.ite_none_left_eq_some.1 h
    obtain ⟨rfl, hrest⟩ := Prod.mk.inj (Option.some.inj h)
    rw [not_or, Nat.not_le] at hgood
    rw [hrest, List.append_nil] at hsplit
    rw [hsplit] at hgood ⊢
    refine ⟨⟨hgood.1, fun c hc => ?_⟩, hgood.2, rfl⟩
    exact of_decide_eq_true (List.dropWhile_eq_nil_iff.1 hrest c hc)
  · rintro ⟨⟨hne, hall⟩, hfits, rfl⟩
    have hdrop : bytes.dropWhile (fun c => decide (Decimal.IsDigit c)) = [] :=
      List.dropWhile_eq_nil_iff.2 fun c hc => decide_eq_true (hall c hc)
    rw [hdrop, List.append_nil] at hsplit
    rw [hsplit, if_neg (not_or.2 ⟨hne, Nat.not_le.2 hfits⟩), hdrop]

theorem foldl_concat (out xs : List α) : xs.foldl (fun out x => out ++ [x]) out = out ++ xs := by
  induction xs generalizing out with
  | nil => exact (List.append_nil out).symm
  | cons x xs ih => rw [List.foldl_cons, ih, List.append_assoc, List.singleton_append]

theorem foldl_put {V : Type} (out : StringMap V) (ps : List (List UInt8 × V)) :
    (ps.foldl (fun out p => out.put p.1 p.2) out).1 =
      ps.foldl (fun m p => OrdMap.put m p.1 p.2) out.1 := by
  induction ps generalizing out with
  | nil => rfl
  | cons p ps ih =>
    rw [List.foldl_cons, ih]
    rfl

theorem pagePair_iff {element : Elements Node} {c v : Node} :
    pagePair element = some (c, v) ↔ element = .entries [some c, some v] := by
  constructor
  · intro h
    unfold pagePair at h
    split at h
    · obtain ⟨rfl, rfl⟩ := Prod.mk.inj (Option.some.inj h)
      rfl
    · cases h
  · rintro rfl
    rfl

section Overloads

variable {S torn parseScore zero} {r : Node}

theorem decodeIntegral_iff {signed : Bool} {bits : Nat} {x : Int} :
    decode S torn parseScore zero (.integral signed bits) r (fresh S (.integral signed bits)) =
      (.ok, x) ↔ Shape S parseScore (.integral signed bits) r x := by
  rw [decode, refuse_iff notFound_ne, refuse_iff protocol_ne, ok_iff, Shape, not_or, not_not,
    Bool.not_eq_false]
  constructor
  · rintro ⟨-, ⟨htype, hrange⟩, hx⟩
    exact ⟨htype, hrange, hx⟩
  · rintro ⟨htype, hrange, hx⟩
    exact ⟨fun hnil => (by cases htype.symm.trans hnil), ⟨htype, hrange⟩, hx⟩

theorem decodeBool_iff {x : Bool} :
    decode S torn parseScore zero .bool r (fresh S .bool) = (.ok, x) ↔
      Shape S parseScore .bool r x := by
  rw [decode, refuse_iff notFound_ne, refuse_iff protocol_ne, ok_iff, Shape, not_or, not_not,
    not_and_or, not_not, not_not]
  constructor
  · rintro ⟨-, ⟨htype, h0 | h1⟩, rfl⟩
    · exact ⟨htype, Or.inl ⟨h0, by rw [h0]; rfl⟩⟩
    · exact ⟨htype, Or.inr ⟨h1, by rw [h1]; rfl⟩⟩
  · rintro ⟨htype, ⟨h0, rfl⟩ | ⟨h1, rfl⟩⟩
    · exact ⟨fun hnil => (by cases htype.symm.trans hnil), ⟨htype, Or.inl h0⟩, by rw [h0]; rfl⟩
    · exact ⟨fun hnil => (by cases htype.symm.trans hnil), ⟨htype, Or.inr h1⟩, by rw [h1]; rfl⟩

theorem decodeData_iff {n : String} {x : Val} :
    decode S torn parseScore zero (.data n) r (fresh S (.data n)) = (.ok, x) ↔
      Shape S parseScore (.data n) r x := by
  rw [decode, typed_iff (fun h => by cases h), given_iff, Shape]
  refine and_congr_right fun _ => exists_congr fun bytes => ?_
  constructor
  · rintro ⟨hstr, h⟩
    split at h
    case h_1 => cases h
    case h_2 v os hread =>
      obtain ⟨hend, hv⟩ := (refuse_iff decode_ne).1 h
      obtain rfl := ok_iff.1 hv
      exact ⟨os, hstr, hread, not_not.1 hend⟩
  · rintro ⟨os, hstr, hread, hend⟩
    refine ⟨hstr, ?_⟩
    rw [show deserialize S n (fresh S (.data n)) (.ofBytes bytes) = _ from hread]
    exact (refuse_iff decode_ne).2 ⟨not_not.2 hend, rfl⟩

-- what the overloads of the containers use of the one of their elements
variable {t : Out} (ih : ∀ {r : Node} {x : t.Value σ},
  decode S torn parseScore zero t r (fresh S t) = (.ok, x) ↔ Shape S parseScore t r x)

include ih in
theorem decodeOptional_iff {x : Option (t.Value σ)} :
    decode S torn parseScore zero (.optional t) r (fresh S (.optional t)) = (.ok, x) ↔
      Shape S parseScore (.optional t) r x := by
  rw [decode, Shape]
  by_cases hnil : r.type = .nil
  · rw [if_pos hnil, ok_iff]
    constructor
    · intro hx
      exact Or.inl ⟨hnil, hx⟩
    · rintro (⟨-, hx⟩ | ⟨hne, -⟩)
      · exact hx
      · exact absurd hnil hne
  · rw [if_neg hnil, onOk_iff]
    simp only [ih, ok_iff]
    constructor
    · intro hx
      exact Or.inr ⟨hnil, hx⟩
    · rintro (⟨h, -⟩ | ⟨-, hx⟩)
      · exact absurd h hnil
      · exact hx

include ih in
theorem decodeVector_iff {x : List (t.Value σ)} :
    decode S torn parseScore zero (.vector t) r (fresh S (.vector t)) = (.ok, x) ↔
      Shape S parseScore (.vector t) r x := by
  have hstep : ∀ (r : Node) (out out' : List (t.Value σ)),
      onOk (decode S torn parseScore zero t r (fresh S t)) out (fun x => (.ok, out ++ [x])) =
        (.ok, out') ↔ ∃ y, Shape S parseScore t r y ∧ out' = out ++ [y] := by
    intro r out out'
    rw [onOk_iff]
    simp only [ih, ok_iff]
  rw [decode, typed_iff (fun h => by cases h), given_iff, Shape]
  refine and_congr_right fun _ => exists_congr fun list => and_congr_right fun _ => ?_
  rw [forEntries_iff hstep]
  constructor
  · rintro ⟨xs, hxs, rfl⟩
    rw [foldl_concat]
    exact hxs
  · intro hxs
    exact ⟨x, hxs, (foldl_concat [] x).symm⟩

include ih in
theorem decodeScored_iff {x : List (t.Value σ × σ)} :
    decode S torn parseScore zero (.scored t) r (fresh S (.scored t)) = (.ok, x) ↔
      Shape S parseScore (.scored t) r x := by
  have hstep : ∀ (a b : Node) (out out' : List (t.Value σ × σ)),
      onOk (decode S torn parseScore zero t a (fresh S t)) out (fun x =>
        onOk (decodeScore parseScore b zero) out fun score => (.ok, out ++ [(x, score)])) =
        (.ok, out') ↔
      ∃ y, (Shape S parseScore t a y.1 ∧ ScoreShape parseScore b y.2) ∧ out' = out ++ [y] := by
    intro a b out out'
    simp only [onOk_iff, ih, decodeScore_iff, ok_iff]
    constructor
    · rintro ⟨y, hy, score, hscore, hout⟩
      exact ⟨(y, score), ⟨hy, hscore⟩, hout⟩
    · rintro ⟨y, ⟨hy, hscore⟩, hout⟩
      exact ⟨y.1, hy, y.2, hscore, hout⟩
  rw [decode, typed_iff (fun h => by cases h), given_iff, Shape]
  refine and_congr_right fun _ => exists_congr fun list => and_congr_right fun _ => ?_
  rw [refuse_iff protocol_ne, not_not, forPairs_iff hstep]
  constructor
  · rintro ⟨-, xs, hxs, rfl⟩
    rw [foldl_concat]
    exact hxs
  · intro hxs
    exact ⟨hxs.even, x, hxs, (foldl_concat [] x).symm⟩

include ih in
theorem decodeMap_iff {x : StringMap (t.Value σ)} :
    decode S torn parseScore zero (.map t) r (fresh S (.map t)) = (.ok, x) ↔
      Shape S parseScore (.map t) r x := by
  have hstep : ∀ (a b : Node) (out out' : StringMap (t.Value σ)),
      onOk (decodeString a []) out (fun field =>
        onOk (decode S torn parseScore zero t b (fresh S t)) out fun x =>
          (.ok, out.put field x)) = (.ok, out') ↔
      ∃ p : List UInt8 × t.Value σ,
        (StringShape a p.1 ∧ Shape S parseScore t b p.2) ∧ out' = out.put p.1 p.2 := by
    intro a b out out'
    simp only [onOk_iff, ih, decodeString_iff, ok_iff]
    constructor
    · rintro ⟨field, hfield, y, hy, hout⟩
      exact ⟨(field, y), ⟨hfield, hy⟩, hout⟩
    · rintro ⟨p, ⟨hfield, hy⟩, hout⟩
      exact ⟨p.1, hfield, p.2, hy, hout⟩
  rw [decode, typed_iff (fun h => by cases h), given_iff, Shape]
  refine and_congr_right fun _ => exists_congr fun list => ?_
  rw [refuse_iff protocol_ne, not_not, forPairs_iff hstep]
  constructor
  · rintro ⟨hlist, -, ps, hps, rfl⟩
    exact ⟨ps, hlist, hps, Subtype.ext (foldl_put _ ps)⟩
  · rintro ⟨ps, hlist, hps, rfl⟩
    exact ⟨hlist, hps.even, ps, hps, (Subtype.ext (foldl_put _ ps)).symm⟩

include ih in
theorem decodePage_iff {x : Nat × t.Value σ} :
    decode S torn parseScore zero (.page t) r (fresh S (.page t)) = (.ok, x) ↔
      Shape S parseScore (.page t) r x := by
  rw [decode, refuse_iff protocol_ne, not_not, given_iff, Shape]
  refine and_congr_right fun _ => ?_
  constructor
  · rintro ⟨⟨c, v⟩, hpair, h⟩
    dsimp only at h
    rw [refuse_iff protocol_ne, not_not, given_iff] at h
    obtain ⟨htype, bytes, hstr, h⟩ := h
    rw [refuse_iff protocol_ne, given_iff] at h
    obtain ⟨-, ⟨cursor, rest⟩, hchars, h⟩ := h
    dsimp only at h
    rw [refuse_iff protocol_ne, not_not] at h
    obtain ⟨rfl, h⟩ := h
    obtain ⟨hnumeral, hfits, rfl⟩ := fromChars_iff.1 hchars
    obtain ⟨hcode, rfl⟩ := Prod.mk.inj h
    refine ⟨c, v, bytes, pagePair_iff.1 hpair, htype, hstr, hnumeral, hfits, rfl, ?_⟩
    exact ih.1 (Prod.ext hcode rfl)
  · rintro ⟨c, v, bytes, hpair, htype, hstr, hnumeral, hfits, hcursor, hx⟩
    refine ⟨(c, v), pagePair_iff.2 hpair, ?_⟩
    dsimp only
    rw [refuse_iff protocol_ne, not_not, given_iff]
    refine ⟨htype, bytes, hstr, ?_⟩
    rw [refuse_iff protocol_ne, given_iff]
    refine ⟨hnumeral.1, (Decimal.value bytes, []), fromChars_iff.2 ⟨hnumeral, hfits, rfl⟩, ?_⟩
    dsimp only
    rw [refuse_iff protocol_ne, not_not]
    refine ⟨rfl, ?_⟩
    rw [show decode S torn parseScore zero t v (fresh S (.page t)).2 = _ from ih.2 hx, ← hcursor]

end Overloads

/-- **Which replies are read**: a read into a new object succeeds exactly if the whole reply is of
the type, and gives the object that the reply says. The induction is on the type. -/
theorem decode_iff {t : Out} : ∀ {r : Node} {x : t.Value σ},
    decode S torn parseScore zero t r (fresh S t) = (.ok, x) ↔ Shape S parseScore t r x := by
  induction t with
  | string => exact decodeString_iff
  | integral signed bits => exact decodeIntegral_iff
  | bool => exact decodeBool_iff
  | data n => exact decodeData_iff
  | optional t ih => exact decodeOptional_iff ih
  | vector t ih => exact decodeVector_iff ih
  | scored t ih => exact decodeScored_iff ih
  | map t ih => exact decodeMap_iff ih
  | page t ih => exact decodePage_iff ih

/-! ### Reads are atomic -/

theorem onOk_unchanged {res : Code × β} {out : α} {k : β → Code × α}
    (hk : ∀ y, (k y).1 ≠ .ok → (k y).2 = out) (h : (onOk res out k).1 ≠ .ok) :
    (onOk res out k).2 = out := by
  unfold onOk at h ⊢
  split at h
  · exact hk _ h
  · rfl

theorem given_unchanged {p : Option β} {out : α} {k : β → Code × α}
    (hk : ∀ y, (k y).1 ≠ .ok → (k y).2 = out) (h : (given p out k).1 ≠ .ok) :
    (given p out k).2 = out := by
  cases p with
  | none => rfl
  | some y => exact hk y h

/-- A read that does not succeed leaves the caller's object as it was. -/
theorem readResult_unchanged (t : Out) (result : RedisResult) (out : t.Value σ)
    (h : (readResult S torn parseScore zero t result out).1 ≠ .ok) :
    (readResult S torn parseScore zero t result out).2 = out := by
  refine onOk_unchanged (fun _ => ?_) h
  refine given_unchanged fun r => ?_
  refine onOk_unchanged fun x hx => ?_
  exact absurd rfl hx

/-- A read succeeds exactly if the result has a reply of the type, and stores what it says. -/
theorem readResult_iff (t : Out) (result : RedisResult) (out x : t.Value σ) :
    readResult S torn parseScore zero t result out = (.ok, x) ↔
      result.getRet = .ok ∧ ∃ r, result.reply = some r ∧ Shape S parseScore t r x := by
  rw [readResult, onOk_iff]
  simp only [given_iff, onOk_iff, ok_iff, decode_iff]
  constructor
  · rintro ⟨_, hret, r, hreply, y, hy, rfl⟩
    exact ⟨(Prod.mk.inj hret).1, r, hreply, hy⟩
  · rintro ⟨hret, r, hreply, hx⟩
    exact ⟨(), Prod.ext hret rfl, r, hreply, x, hx, rfl⟩

end Decode

end OpenIdea.Redis.Typed
