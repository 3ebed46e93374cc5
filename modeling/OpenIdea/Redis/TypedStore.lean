import OpenIdea.Codec.Generator
import OpenIdea.Redis.TypedRead

/-!
# Values that are written and read again

`Arguments`, `Members` and `HashFields` encode the values of a command one after the other and
remember the first failure. What a server keeps of them are the encoded strings, and a later reply
has some of these strings in some order. The rpcdata codec does not tell every object from every
other, so not every value comes back. `typed_reads` says which do.
-/

set_option autoImplicit false

namespace OpenIdea.Redis.Typed

open OpenIdea.Lib OpenIdea.Codec OpenIdea.Redis.Replies
open scoped OpenIdea.Codec.Json

/-! ## The writing side -/

/-- A value handed to `Encode`; a `const char*` may be null. -/
inductive Arg (σ : Type) where
  | string (text : List UInt8)
  | chars (text : Option (List UInt8))
  | data (name : String) (x : Val)
  | integer (n : Int)
  | score (x : σ)

/-- The value types of `Members` and `HashFields`. -/
inductive Plain where
  | string
  | data (name : String)

/-- The type that reads such a value. -/
@[reducible] def Plain.out : Plain → Out
  | string => .string
  | data n => .data n

def Plain.arg {σ : Type} : (p : Plain) → p.out.Value σ → Arg σ
  | string, x => .string x
  | data n, x => .data n x

/-- `Arguments`. -/
structure Arguments where
  values : List (List UInt8)
  ret : Code

section Write

-- `Score` fails for a score that is not a number
variable {σ : Type} (S : Schema) (formatScore : σ → Option (List UInt8))

/-- `Encode`; the error is the code that the `catch` stores. -/
def encode : Arg σ → Except Code (List UInt8)
  | .string text => .ok text
  | .chars none => .error .invalidArgument
  | .chars (some text) => .ok text
  | .data n x =>
      match serialize S n x with
      | .ok bytes => .ok bytes
      | .error _ => .error .encode
  | .integer n => .ok (Decimal.signedText n)
  | .score x =>
      match formatScore x with
      | some text => .ok text
      | none => .error .invalidArgument

/-- `Append`. -/
def Arguments.append (a : Arguments) (x : Arg σ) : Arguments :=
  if a.ret ≠ .ok then a
  else
    match encode S formatScore x with
    | .ok bytes => { a with values := a.values ++ [bytes] }
    | .error e => { a with ret := e }

/-- The constructor: the first value that throws is the last one looked at. -/
def Arguments.construct : List (Arg σ) → List (List UInt8) → Arguments
  | [], values => ⟨values, .ok⟩
  | x :: rest, values =>
      match encode S formatScore x with
      | .ok bytes => construct rest (values ++ [bytes])
      | .error e => ⟨values, e⟩

/-- `Members`. -/
def members (p : Plain) (command : Option (List UInt8)) (key : List UInt8)
    (xs : List (p.out.Value σ)) : Arguments :=
  let a := Arguments.construct S formatScore [.chars command, .string key] []
  let a := if xs = [] then { a with ret := .invalidArgument } else a
  xs.foldl (fun a x => a.append S formatScore (p.arg x)) a

/-- `HashFields`. -/
def hashFields (p : Plain) (key : List UInt8) (m : StringMap (p.out.Value σ)) : Arguments :=
  let a := Arguments.construct S formatScore [.chars (some (ascii "HSET")), .string key] []
  let a := if m.1 = [] then { a with ret := .invalidArgument } else a
  m.1.foldl (fun a e =>
    (a.append S formatScore (.string e.1)).append S formatScore (p.arg e.2)) a

/-! ### What is written -/

theorem encode_error {x : Arg σ} {e : Code} (h : encode S formatScore x = .error e) : e ≠ .ok := by
  rintro rfl
  cases x with
  | string => cases h
  | chars text =>
    cases text with
    | none => cases h
    | some => cases h
  | data n x =>
    rw [encode] at h
    split at h
    · cases h
    · cases h
  | integer => cases h
  | score x =>
    rw [encode] at h
    split at h
    · cases h
    · cases h

/-- The values of a list, each with its encoding. -/
def Encoded (xs : List (Arg σ)) (bs : List (List UInt8)) : Prop :=
  List.Forall₂ (fun x b => encode S formatScore x = .ok b) xs bs

theorem construct_ok {xs : List (Arg σ)} {values : List (List UInt8)}
    (h : (Arguments.construct S formatScore xs values).ret = .ok) :
    ∃ bs, Encoded S formatScore xs bs ∧
      (Arguments.construct S formatScore xs values).values = values ++ bs := by
  induction xs generalizing values with
  | nil => exact ⟨[], List.Forall₂.nil, (List.append_nil _).symm⟩
  | cons x rest ih =>
    unfold Arguments.construct at h ⊢
    split at h
    · rename_i bytes hx
      obtain ⟨bs, hbs, hvalues⟩ := ih h
      refine ⟨bytes :: bs, List.Forall₂.cons hx hbs, ?_⟩
      rw [hvalues, List.append_assoc, List.singleton_append]
    · rename_i e hx
      exact absurd h (encode_error S formatScore hx)

theorem foldl_append_ok {xs : List (Arg σ)} {a : Arguments}
    (h : (xs.foldl (fun a x => a.append S formatScore x) a).ret = .ok) :
    a.ret = .ok ∧ ∃ bs, Encoded S formatScore xs bs ∧
      (xs.foldl (fun a x => a.append S formatScore x) a).values = a.values ++ bs := by
  induction xs generalizing a with
  | nil => exact ⟨h, [], List.Forall₂.nil, (List.append_nil _).symm⟩
  | cons x rest ih =>
    rw [List.foldl_cons] at h ⊢
    obtain ⟨hx, bs, hbs, hvalues⟩ := ih h
    rw [hvalues]
    unfold Arguments.append at hx ⊢
    split at hx
    · rename_i hbad
      exact absurd hx hbad
    · rename_i hok
      rw [if_neg hok]
      split at hx
      · rename_i bytes henc
        refine ⟨hx, bytes :: bs, List.Forall₂.cons henc hbs, ?_⟩
        rw [List.append_assoc, List.singleton_append]
      · rename_i e henc
        exact absurd hx (encode_error S formatScore henc)

/-- A command for a key with the values of a list, none of which has failed. -/
theorem command_ok {command : Option (List UInt8)} {key : List UInt8} {empty : Prop}
    [Decidable empty] {xs : List (Arg σ)}
    (h : (xs.foldl (fun a x => a.append S formatScore x)
      (if empty then { Arguments.construct S formatScore [.chars command, .string key] [] with
          ret := .invalidArgument }
        else Arguments.construct S formatScore [.chars command, .string key] [])).ret = .ok) :
    ∃ c bs, command = some c ∧ Encoded S formatScore xs bs ∧
      (xs.foldl (fun a x => a.append S formatScore x)
        (if empty then { Arguments.construct S formatScore [.chars command, .string key] [] with
            ret := .invalidArgument }
          else Arguments.construct S formatScore [.chars command, .string key] [])).values =
        c :: key :: bs := by
  obtain ⟨hret, bs, hbs, hvalues⟩ := foldl_append_ok S formatScore h
  rw [hvalues]
  by_cases hempty : empty
  · rw [if_pos hempty] at hret
    cases hret
  · rw [if_neg hempty] at hret ⊢
    cases command with
    | none => cases hret
    | some c => exact ⟨c, bs, rfl, hbs, rfl⟩

variable {p : Plain}

theorem members_ok {command : Option (List UInt8)} {key : List UInt8} {xs : List (p.out.Value σ)}
    (h : (members S formatScore p command key xs).ret = .ok) :
    ∃ c bs, command = some c ∧ Encoded S formatScore (xs.map p.arg) bs ∧
      (members S formatScore p command key xs).values = c :: key :: bs := by
  have hfold : members S formatScore p command key xs =
      (xs.map p.arg).foldl (fun a x => a.append S formatScore x) _ := List.foldl_map.symm
  rw [hfold] at h ⊢
  exact command_ok S formatScore h

theorem foldl_fields (m : List (List UInt8 × p.out.Value σ)) (a : Arguments) :
    (m.flatMap fun e => [Arg.string e.1, p.arg e.2]).foldl (fun a x => a.append S formatScore x) a =
      m.foldl (fun a e =>
        (a.append S formatScore (.string e.1)).append S formatScore (p.arg e.2)) a :=
  List.foldl_flatMap

theorem hashFields_ok {key : List UInt8} {m : StringMap (p.out.Value σ)}
    (h : (hashFields S formatScore p key m).ret = .ok) :
    ∃ bs, Encoded S formatScore (m.1.flatMap fun e => [.string e.1, p.arg e.2]) bs ∧
      (hashFields S formatScore p key m).values = ascii "HSET" :: key :: bs := by
  rw [hashFields, ← foldl_fields] at h ⊢
  obtain ⟨c, bs, hc, hbs, hvalues⟩ := command_ok S formatScore h
  obtain rfl := Option.some.inj hc
  exact ⟨bs, hbs, hvalues⟩

end Write

/-! ## The reading side -/

/-- A stored string in a reply. -/
def IsBulk (r : Node) (bytes : List UInt8) : Prop := r.type = .string ∧ r.str.get = some bytes

/-- A list of stored strings. -/
def IsArray (r : Node) (list : List (Option Node)) : Prop :=
  r.type = .array ∧ r.element.get = some list

def bulk (bytes : List UInt8) : Node := .node .string 0 (.text bytes) (.null 0)

def array (list : List (Option Node)) : Node := .node .array 0 (.null 0) (.entries list)

theorem isBulk_bulk (bytes : List UInt8) : IsBulk (bulk bytes) bytes := ⟨rfl, rfl⟩

theorem isArray_array (list : List (Option Node)) : IsArray (array list) list := ⟨rfl, rfl⟩

/-- The strings two by two. -/
def twos {α : Type} : List α → List (α × α)
  | a :: b :: rest => (a, b) :: twos rest
  | _ => []

theorem Pairs.map_mem {α β : Type} {P : Node → Node → α → Prop} {Q : Node → Node → β → Prop}
    {f : α → β} {list : List (Option Node)} {xs : List α} (h : Pairs P list xs)
    (hf : ∀ x ∈ xs, ∀ a b, P a b x → Q a b (f x)) : Pairs Q list (xs.map f) := by
  induction h with
  | nil => exact .nil
  | cons hx _ ih =>
    refine .cons (hf _ List.mem_cons_self _ _ hx) (ih fun y hy => ?_)
    exact hf y (List.mem_cons_of_mem _ hy)

/-- Two readings of the same entries. -/
theorem Pairs.join {α β : Type} {P : Node → Node → α → Prop} {Q : Node → Node → β → Prop}
    {list : List (Option Node)} {xs : List α} {ys : List β} (hP : Pairs P list xs)
    (hQ : Pairs Q list ys) : List.Forall₂ (fun x y => ∃ a b, P a b x ∧ Q a b y) xs ys := by
  induction hP generalizing ys with
  | nil =>
    cases hQ
    exact List.Forall₂.nil
  | cons hx _ ih =>
    cases hQ with
    | cons hy hrest => exact List.Forall₂.cons ⟨_, _, hx, hy⟩ (ih hrest)

section Read

variable {σ : Type} (S : Schema) (torn : String → Val → List UInt8 → Val)
  (parseScore : List UInt8 → Option σ) (zero : σ) (formatScore : σ → Option (List UInt8))

/-- The reply is read as `x`, whatever the caller's object was. -/
def GivesBack (t : Out) (r : Node) (x : t.Value σ) : Prop :=
  ∀ old, readResult S torn parseScore zero t ⟨.ok, some r⟩ old = (.ok, x)

variable {r : Node}

theorem givesBack_iff {t : Out} {x : t.Value σ} :
    GivesBack S torn parseScore zero t r x ↔ Shape S parseScore t r x := by
  constructor
  · intro h
    obtain ⟨-, r', hr, hshape⟩ := (readResult_iff S torn parseScore zero t _ _ x).1 (h (fresh S t))
    obtain rfl := Option.some.inj hr
    exact hshape
  · intro hshape old
    exact (readResult_iff S torn parseScore zero t _ _ x).2 ⟨rfl, r, rfl, hshape⟩

namespace Arg

/-- The value comes back from a reply; a number comes back as a text only. -/
def GivesBack : Arg σ → Node → Prop
  | .string text, r => Typed.GivesBack S torn parseScore zero .string r text
  | .chars (some text), r => Typed.GivesBack S torn parseScore zero .string r text
  | .data n x, r => Typed.GivesBack S torn parseScore zero (.data n) r x
  | _, _ => True

/-- An rpcdata value is an object of its class. -/
def WellFormed : Arg σ → Prop
  | .data n x =>
      S.hasType (.data n) x = true ∧ S.everyNode Schema.keysSorted (.data n) x = true
  | _ => True

/-- Its encoding is shorter than any string that a server refuses. -/
def Short : Arg σ → Prop
  | .data n x => encodedSize S n x < 2 ^ 31
  | _ => True

/-- Each vector directly inside a vector has one element, and no vector that is the key or the value
of a map is empty. -/
def Shaped : Arg σ → Prop
  | .data n x => S.everyNode shaped (.data n) x = true
  | _ => True

end Arg

/-! ### What comes back -/

/-- `Arguments`: each value comes back from a reply that is its string. -/
def ArgumentsComeBack (xs : List (Arg σ)) : Prop :=
  let stored := (Arguments.construct S formatScore xs []).values
  stored.length = xs.length ∧
    ∀ q ∈ xs.zip stored, ∀ r, IsBulk r q.2 → q.1.GivesBack S torn parseScore zero r

/-- `Members`: the values come back from any list of their strings, in the order of that list. -/
def MembersComeBack (p : Plain) (command : Option (List UInt8)) (key : List UInt8)
    (xs : List (p.out.Value σ)) : Prop :=
  let stored := (members S formatScore p command key xs).values.drop 2
  stored.length = xs.length ∧
    ∀ order ⊆ xs.zip stored, ∀ r list, IsArray r list →
      List.Forall₂ (fun e q => ∃ r', e = some r' ∧ IsBulk r' q.2) list order →
      GivesBack S torn parseScore zero (.vector p.out) r (order.map Prod.fst)

/-- `HashFields`: the map comes back from its fields and values, in any order of the fields. -/
def HashComesBack (p : Plain) (key : List UInt8) (m : StringMap (p.out.Value σ)) : Prop :=
  let stored := twos ((hashFields S formatScore p key m).values.drop 2)
  stored.length = m.1.length ∧
    ∀ order, order.Perm (m.1.zip stored) → ∀ r list, IsArray r list →
      Pairs (fun a b q => IsBulk a q.2.1 ∧ IsBulk b q.2.2) list order →
      GivesBack S torn parseScore zero (.map p.out) r m

variable {S torn parseScore zero formatScore}

theorem shaped_of_shape {p : Plain} {x : p.out.Value σ} {r : Node}
    (h : Shape S parseScore p.out r x) : (p.arg x).Shaped S := by
  cases p with
  | string => trivial
  | data n =>
    obtain ⟨-, bytes, os, -, hread, -⟩ := h
    exact deserializeAt_shaped hread (shaped_fresh _)

theorem shape_of_shaped (hS : accepted S.datas = true) (hcomp : S.BodiesCompile) {p : Plain}
    {x : p.out.Value σ} {b : List UInt8} {r : Node}
    (henc : encode S formatScore (p.arg x) = .ok b) (hr : IsBulk r b)
    (hform : (p.arg x).WellFormed S) (hshort : (p.arg x).Short S) (hshape : (p.arg x).Shaped S) :
    Shape S parseScore p.out r x := by
  cases p with
  | string =>
    cases henc
    exact ⟨Or.inl hr.1, hr.2⟩
  | data n =>
    rw [Plain.arg, encode] at henc
    split at henc
    · rename_i bytes hw
      cases henc
      obtain ⟨os, hread, hend⟩ := written_comes_back hS hcomp hform.1 hform.2 hshort hshape hw
      exact ⟨hr.1, b, os, hr.2, hread, hend⟩
    · cases henc

theorem Arg.GivesBack.shaped {a : Arg σ} (h : a.GivesBack S torn parseScore zero r) :
    a.Shaped S := by
  cases a with
  | data n x =>
    exact @shaped_of_shape σ S parseScore (.data n) x r
      ((givesBack_iff S torn parseScore zero).1 h)
  | _ => trivial

theorem Arg.Shaped.givesBack (hS : accepted S.datas = true) (hcomp : S.BodiesCompile) {a : Arg σ}
    {b : List UInt8} (henc : encode S formatScore a = .ok b) (hr : IsBulk r b)
    (hform : a.WellFormed S) (hshort : a.Short S) (hshape : a.Shaped S) :
    a.GivesBack S torn parseScore zero r := by
  cases a with
  | string text =>
    cases henc
    exact (givesBack_iff S torn parseScore zero).2 ⟨Or.inl hr.1, hr.2⟩
  | chars text =>
    cases text with
    | none => trivial
    | some text =>
      cases henc
      exact (givesBack_iff S torn parseScore zero).2 ⟨Or.inl hr.1, hr.2⟩
  | data n x =>
    exact (givesBack_iff S torn parseScore zero).2
      (@shape_of_shaped σ S parseScore formatScore hS hcomp (.data n) x b r henc hr hform hshort
        hshape)
  | _ => trivial

theorem forall₂_map_mem {α β : Type} {P : Node → α → Prop} {Q : Node → β → Prop} {f : α → β}
    {list : List (Option Node)} {xs : List α}
    (h : List.Forall₂ (fun e x => ∃ r, e = some r ∧ P r x) list xs)
    (hf : ∀ x ∈ xs, ∀ r, P r x → Q r (f x)) :
    List.Forall₂ (fun e y => ∃ r, e = some r ∧ Q r y) list (xs.map f) := by
  induction h with
  | nil => exact List.Forall₂.nil
  | cons hx _ ih =>
    obtain ⟨r, he, hr⟩ := hx
    refine List.Forall₂.cons ⟨r, he, hf _ List.mem_cons_self r hr⟩ (ih fun y hy => ?_)
    exact hf y (List.mem_cons_of_mem _ hy)

/-- The strings of the fields and the values, two by two. -/
theorem encoded_fields {p : Plain} : ∀ {m : List (List UInt8 × p.out.Value σ)}
    {bs : List (List UInt8)},
    Encoded S formatScore (m.flatMap fun e => [Arg.string e.1, p.arg e.2]) bs →
      List.Forall₂ (fun e q => q.1 = e.1 ∧ encode S formatScore (p.arg e.2) = .ok q.2) m (twos bs)
  | [], bs, h => by
      obtain rfl := List.forall₂_nil_left_iff.1 h
      exact List.Forall₂.nil
  | e :: m, bs, h => by
      obtain ⟨f, bs, hf, hbs, rfl⟩ := List.forall₂_cons_left_iff.1 h
      obtain ⟨b, bs, hb, hrest, rfl⟩ := List.forall₂_cons_left_iff.1 hbs
      obtain rfl := Except.ok.inj hf
      exact List.Forall₂.cons ⟨rfl, hb⟩ (encoded_fields hrest)

/-- The reply with these strings. -/
theorem pairs_bulks {α : Type} (qs : List (α × List UInt8 × List UInt8)) :
    Pairs (fun a b q => IsBulk a q.2.1 ∧ IsBulk b q.2.2)
      (qs.flatMap fun q => [some (bulk q.2.1), some (bulk q.2.2)]) qs := by
  induction qs with
  | nil => exact .nil
  | cons q qs ih => exact .cons ⟨isBulk_bulk q.2.1, isBulk_bulk q.2.2⟩ ih

/-- What is written of `Arguments` comes back if it is shaped, and only then. -/
theorem argumentsComeBack (hS : accepted S.datas = true) (hcomp : S.BodiesCompile) {xs : List (Arg σ)}
    (hform : ∀ x ∈ xs, x.WellFormed S)
    (hret : (Arguments.construct S formatScore xs []).ret = .ok) :
    (ArgumentsComeBack S torn parseScore zero formatScore xs → ∀ x ∈ xs, x.Shaped S) ∧
      ((∀ x ∈ xs, x.Short S) → (∀ x ∈ xs, x.Shaped S) →
        ArgumentsComeBack S torn parseScore zero formatScore xs) := by
  obtain ⟨bs, hbs, hvalues⟩ := construct_ok S formatScore hret
  obtain ⟨hlen, henc⟩ := List.forall₂_iff_zip.1 hbs
  rw [ArgumentsComeBack, hvalues, List.nil_append]
  constructor
  · rintro ⟨-, hback⟩ x hx
    rw [← List.map_fst_zip hlen.le] at hx
    obtain ⟨q, hq, rfl⟩ := List.mem_map.1 hx
    exact (hback q hq (bulk q.2) (isBulk_bulk q.2)).shaped
  · intro hshort hshape
    refine ⟨hlen.symm, fun q hq r hr => ?_⟩
    have hx : q.1 ∈ xs := (List.of_mem_zip hq).1
    exact Arg.Shaped.givesBack hS hcomp (henc hq) hr (hform _ hx) (hshort _ hx) (hshape _ hx)

theorem membersComeBack (hS : accepted S.datas = true) (hcomp : S.BodiesCompile) {p : Plain}
    {command : Option (List UInt8)} {key : List UInt8} {xs : List (p.out.Value σ)}
    (hform : ∀ x ∈ xs, (p.arg x).WellFormed S)
    (hret : (members S formatScore p command key xs).ret = .ok) :
    (MembersComeBack S torn parseScore zero formatScore p command key xs →
        ∀ x ∈ xs, (p.arg x).Shaped S) ∧
      ((∀ x ∈ xs, (p.arg x).Short S) → (∀ x ∈ xs, (p.arg x).Shaped S) →
        MembersComeBack S torn parseScore zero formatScore p command key xs) := by
  obtain ⟨c, bs, -, hbs, hvalues⟩ := members_ok S formatScore hret
  obtain ⟨hlen, henc⟩ := List.forall₂_iff_zip.1 (List.forall₂_map_left_iff.1 hbs)
  rw [MembersComeBack, hvalues]
  constructor
  · rintro ⟨-, hback⟩ x hx
    rw [← List.map_fst_zip hlen.le] at hx
    obtain ⟨q, hq, rfl⟩ := List.mem_map.1 hx
    -- a reply of this string alone
    have hone := hback [q] (List.cons_subset.2 ⟨hq, List.nil_subset _⟩) (array [some (bulk q.2)]) _
      (isArray_array _) (List.Forall₂.cons ⟨_, rfl, isBulk_bulk q.2⟩ List.Forall₂.nil)
    obtain ⟨-, list, hlist, hall⟩ := (givesBack_iff S torn parseScore zero).1 hone
    cases hlist
    obtain ⟨⟨r, hr, hshape⟩, -⟩ := List.forall₂_cons.1 hall
    exact shaped_of_shape hshape
  · intro hshort hshape
    refine ⟨hlen.symm, fun order horder r list hr hlist => ?_⟩
    refine (givesBack_iff S torn parseScore zero).2 ⟨hr.1, list, hr.2, ?_⟩
    refine forall₂_map_mem hlist fun q hq r' hr' => ?_
    have hmem := horder hq
    have hx : q.1 ∈ xs := (List.of_mem_zip hmem).1
    exact shape_of_shaped hS hcomp (henc hmem) hr' (hform _ hx) (hshort _ hx) (hshape _ hx)

theorem hashComesBack (hS : accepted S.datas = true) (hcomp : S.BodiesCompile) {p : Plain}
    {key : List UInt8} {m : StringMap (p.out.Value σ)}
    (hform : ∀ e ∈ m.1, (p.arg e.2).WellFormed S)
    (hret : (hashFields S formatScore p key m).ret = .ok) :
    (HashComesBack S torn parseScore zero formatScore p key m →
        ∀ e ∈ m.1, (p.arg e.2).Shaped S) ∧
      ((∀ e ∈ m.1, (p.arg e.2).Short S) → (∀ e ∈ m.1, (p.arg e.2).Shaped S) →
        HashComesBack S torn parseScore zero formatScore p key m) := by
  obtain ⟨bs, hbs, hvalues⟩ := hashFields_ok S formatScore hret
  obtain ⟨hlen, henc⟩ := List.forall₂_iff_zip.1 (encoded_fields hbs)
  have hfst := List.map_fst_zip hlen.le
  rw [HashComesBack, hvalues]
  constructor
  · rintro ⟨-, hback⟩
    have hall := hback _ (List.Perm.refl _) (array _) _ (isArray_array _) (pairs_bulks _)
    obtain ⟨-, list, ps, hlist, hps, hm⟩ := (givesBack_iff S torn parseScore zero).1 hall
    cases hlist
    have hjoin := (pairs_bulks (m.1.zip (twos bs))).join hps
    obtain ⟨hcount, hjoin⟩ := List.forall₂_iff_zip.1 hjoin
    -- the fields that were read are those that were written, in their order
    have hsame : List.Forall₂ (fun q e => q.1.1 = e.1) (m.1.zip (twos bs)) ps := by
      refine List.forall₂_iff_zip.2 ⟨hcount, fun {q e} hqe => ?_⟩
      obtain ⟨a, b, ⟨ha, -⟩, hfield, -⟩ := hjoin hqe
      have hwritten : q.2.1 = q.1.1 := (henc (List.of_mem_zip hqe).1).1
      exact hwritten.symm.trans (Option.some.inj (ha.2.symm.trans hfield.2))
    have hfields : List.Forall₂ Eq ((m.1.zip (twos bs)).map (Prod.fst ∘ Prod.fst))
        (ps.map Prod.fst) :=
      List.forall₂_map_left_iff.2 (List.forall₂_map_right_iff.2 hsame)
    rw [List.forall₂_eq_eq_eq, ← List.map_map, hfst] at hfields
    have hsorted : OrdMap.Sorted ps := OrdMap.sorted_iff.2 (hfields ▸ OrdMap.sorted_iff.1 m.2)
    have hread : m.1 = ps :=
      (congrArg Subtype.val hm).trans (OrdMap.ofList_of_perm hsorted (List.Perm.refl ps))
    intro e he
    rw [hread, ← List.map_snd_zip hcount.ge] at he
    obtain ⟨qe, hqe, rfl⟩ := List.mem_map.1 he
    obtain ⟨a, b, -, -, hshape⟩ := hjoin hqe
    exact shaped_of_shape hshape
  · intro hshort hshape
    refine ⟨hlen.symm, fun order horder r list hr hlist => ?_⟩
    refine (givesBack_iff S torn parseScore zero).2
      ⟨hr.1, list, order.map Prod.fst, hr.2, hlist.map_mem fun q hq a b hab => ?_, ?_⟩
    · have hmem := horder.subset hq
      have hx : q.1 ∈ m.1 := (List.of_mem_zip hmem).1
      obtain ⟨hfield, hb⟩ := henc hmem
      refine ⟨⟨Or.inl hab.1.1, hfield ▸ hab.1.2⟩, ?_⟩
      exact shape_of_shaped hS hcomp hb hab.2 (hform _ hx) (hshort _ hx) (hshape _ hx)
    · refine Subtype.ext (OrdMap.ofList_of_perm m.2 ?_).symm
      exact (horder.map Prod.fst).trans (List.Perm.of_eq hfst)

/-! ### Typed reads -/

/-- A read that does not succeed leaves the caller's object alone. -/
def ReadsAtomically (S : Schema) (torn : String → Val → List UInt8 → Val)
    (parseScore : List UInt8 → Option σ) (zero : σ) : Prop :=
  ∀ (t : Out) (result : RedisResult) (out : t.Value σ),
    (readResult S torn parseScore zero t result out).1 ≠ .ok →
      (readResult S torn parseScore zero t result out).2 = out

/-- A read succeeds exactly if the reply is one of the type, and then stores what it says. -/
def ReadsWhole (S : Schema) (torn : String → Val → List UInt8 → Val)
    (parseScore : List UInt8 → Option σ) (zero : σ) : Prop :=
  ∀ (t : Out) (result : RedisResult) (out x : t.Value σ),
    readResult S torn parseScore zero t result out = (.ok, x) ↔
      result.getRet = .ok ∧ ∃ r, result.reply = some r ∧ Shape S parseScore t r x

/-- What a program wrote with the three kinds of commands. -/
structure Written (σ : Type) where
  arguments : List (Arg σ)
  plain : Plain
  command : Option (List UInt8)
  key : List UInt8
  list : List (plain.out.Value σ)
  map : StringMap (plain.out.Value σ)

/-- All values of it. -/
def Written.values (w : Written σ) : List (Arg σ) :=
  w.arguments ++ w.list.map w.plain.arg ++ w.map.1.map fun e => w.plain.arg e.2

/-- None of the commands was refused. -/
def Written.Ok (w : Written σ) (S : Schema) (formatScore : σ → Option (List UInt8)) : Prop :=
  (Arguments.construct S formatScore w.arguments []).ret = .ok ∧
    (members S formatScore w.plain w.command w.key w.list).ret = .ok ∧
    (hashFields S formatScore w.plain w.key w.map).ret = .ok

/-- All of it comes back. -/
def Written.ComesBack (w : Written σ) (S : Schema) (torn : String → Val → List UInt8 → Val)
    (parseScore : List UInt8 → Option σ) (zero : σ) (formatScore : σ → Option (List UInt8)) :
    Prop :=
  ArgumentsComeBack S torn parseScore zero formatScore w.arguments ∧
    MembersComeBack S torn parseScore zero formatScore w.plain w.command w.key w.list ∧
    HashComesBack S torn parseScore zero formatScore w.plain w.key w.map

theorem Written.forall_values {w : Written σ} {P : Arg σ → Prop} :
    (∀ a ∈ w.values, P a) ↔ (∀ a ∈ w.arguments, P a) ∧ (∀ x ∈ w.list, P (w.plain.arg x)) ∧
      ∀ e ∈ w.map.1, P (w.plain.arg e.2) := by
  rw [Written.values, List.append_assoc, List.forall_mem_append, List.forall_mem_append,
    List.forall_mem_map, List.forall_mem_map]

/-- **Typed reads.** Reads are atomic and read whole replies. What comes back of the values that were
written are those whose vectors can be told from their records. -/
theorem typed_reads (hS : accepted S.datas = true) (hcomp : S.BodiesCompile) {w : Written σ}
    (hform : ∀ a ∈ w.values, a.WellFormed S) (hok : w.Ok S formatScore) :
    ReadsAtomically S torn parseScore zero ∧ ReadsWhole S torn parseScore zero ∧
      (w.ComesBack S torn parseScore zero formatScore → ∀ a ∈ w.values, a.Shaped S) ∧
      ((∀ a ∈ w.values, a.Short S) → (∀ a ∈ w.values, a.Shaped S) →
        w.ComesBack S torn parseScore zero formatScore) := by
  obtain ⟨hret, hlist, hmap⟩ := hok
  obtain ⟨hformA, hformL, hformM⟩ := Written.forall_values.1 hform
  obtain ⟨hA, hA'⟩ := @argumentsComeBack σ S torn parseScore zero formatScore hS hcomp _ hformA hret
  obtain ⟨hL, hL'⟩ :=
    @membersComeBack σ S torn parseScore zero formatScore hS hcomp _ _ _ _ hformL hlist
  obtain ⟨hM, hM'⟩ := @hashComesBack σ S torn parseScore zero formatScore hS hcomp _ _ _ hformM hmap
  refine ⟨readResult_unchanged S torn parseScore zero, readResult_iff S torn parseScore zero,
    fun hback => Written.forall_values.2 ⟨hA hback.1, hL hback.2.1, hM hback.2.2⟩,
    fun hshort hshape => ?_⟩
  obtain ⟨hshortA, hshortL, hshortM⟩ := Written.forall_values.1 hshort
  obtain ⟨hshapeA, hshapeL, hshapeM⟩ := Written.forall_values.1 hshape
  exact ⟨hA' hshortA hshapeA, hL' hshortL hshapeL, hM' hshortM hshapeM⟩

end Read

/-- A grid is stored, is put into a list and into a hash. -/
def gridWritten (x : Val) : Written (List UInt8) where
  arguments := [.chars (some (ascii "SET")), .string (ascii "grid"), .data "Grid" x]
  plain := .data "Grid"
  command := some (ascii "RPUSH")
  key := ascii "grids"
  list := [x]
  map := ⟨[(ascii "first", x)], List.pairwise_singleton _ _⟩

theorem gridWritten_ok {x : Val} {bytes : List UInt8}
    (h : serialize gridSchema "Grid" x = .ok bytes) :
    (gridWritten x).Ok gridSchema some := by
  refine ⟨?_, ?_, ?_⟩
  · simp [gridWritten, Arguments.construct, encode, h]
  · simp [gridWritten, members, Arguments.construct, Arguments.append, Plain.arg, encode, h]
  · simp [gridWritten, hashFields, Arguments.construct, Arguments.append, Plain.arg, encode, h]

theorem typed_reads_column :
    (gridWritten column).ComesBack gridSchema (fun _ x _ => x) some [] some := by
  obtain ⟨bytes, hw, -⟩ := @deserialize_serialize gridSchema (by decide +kernel) "Grid" column
    (by decide +kernel) (by decide +kernel) (by decide +kernel) (by decide +kernel)
    (by decide +kernel)
  have hall : ∀ {P : Arg (List UInt8) → Prop}, P (.chars (some (ascii "SET"))) →
      P (.string (ascii "grid")) → P (.data "Grid" column) →
      ∀ a ∈ (gridWritten column).values, P a := by
    intro P hchars hstring hdata a ha
    simp only [Written.values, gridWritten, Plain.arg, List.map_cons, List.map_nil, List.cons_append,
      List.nil_append, List.mem_cons, List.not_mem_nil, or_false] at ha
    rcases ha with rfl | rfl | rfl | rfl | rfl
    all_goals assumption
  refine (typed_reads (by decide +kernel) gridCompiles (hall trivial trivial ?_)
    (gridWritten_ok hw)).2.2.2 (hall trivial trivial ?_) (hall trivial trivial ?_)
  · exact ⟨by decide +kernel, by decide +kernel⟩
  · show encodedSize gridSchema "Grid" column < 2 ^ 31
    decide +kernel
  · show gridSchema.everyNode shaped (.data "Grid") column = true
    decide +kernel

/-- **The empty row is not read back.** The grid is stored as no bytes at all. -/
theorem typed_empty_row :
    accepted gridSchema.datas = true ∧ gridSchema.BodiesCompile ∧
      gridSchema.hasType (.data "Grid") emptyRow = true ∧
      (gridWritten emptyRow).Ok gridSchema some ∧
      ¬ (gridWritten emptyRow).ComesBack gridSchema (fun _ x _ => x) some [] some := by
  have hok := gridWritten_ok serialize_emptyRow
  refine ⟨by decide +kernel, gridCompiles, by decide +kernel, hok, ?_⟩
  rintro ⟨⟨-, hback⟩, -⟩
  have hmem : ((.data "Grid" emptyRow, []) : Arg (List UInt8) × List UInt8) ∈
      (gridWritten emptyRow).arguments.zip
        (Arguments.construct gridSchema some (gridWritten emptyRow).arguments []).values := by
    simp [gridWritten, Arguments.construct, encode, serialize_emptyRow]
  have hread : (Arg.data "Grid" emptyRow).Shaped gridSchema :=
    (hback _ hmem (bulk []) (isBulk_bulk [])).shaped
  have hno : gridSchema.everyNode shaped (.data "Grid") emptyRow ≠ true := by decide +kernel
  exact hno hread

end OpenIdea.Redis.Typed
