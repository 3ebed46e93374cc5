import OpenIdea.Redis.Command

/-!
# What hiredis makes of a forwarded command

All downstream sessions share the connections to Redis, so no forwarded command may put one of them
into subscribe or monitor mode.  hiredis decides by the bytes it is given: `__redisAsyncCommand`
takes the first argument with `nextArgument`, skips a `P`, and compares with fixed prefixes that
include the end of line.  It looks at what follows the argument even where the command has ended, and
in subscribe mode goes through it in search of channels, so the model of it gets the whole memory from
the command on.

`ChangesConnection` foresees all of it but one: `SUBSCRIBE` with an end of line in the name of a
command without further arguments changes the mode when the client has sent a `$` after it.

Main results: `classify_plain_iff`, `forwarded_plain_iff`.
-/

set_option autoImplicit false

namespace OpenIdea.Redis

/-! ## hiredis -/

/-- `strchr`: from the first such byte on. -/
def strchr (c : UInt8) : List UInt8 → Option (List UInt8)
  | [] => none
  | b :: rest => if b = c then some (b :: rest) else if b = 0 then none else strchr c rest

/-- `isspace` -/
def isSpace (b : UInt8) : Bool := b == 32 || (9 ≤ b && b ≤ 13)

/-- `isdigit` -/
def isDigit (b : UInt8) : Bool := 48 ≤ b && b ≤ 57

/-- The number at the start of a text. -/
def signedDecimal (bytes : List UInt8) : Int :=
  match bytes.dropWhile isSpace with
  | 45 :: rest => -(decimal 0 (rest.takeWhile isDigit) : Int)
  | 43 :: rest => decimal 0 (rest.takeWhile isDigit)
  | rest => decimal 0 (rest.takeWhile isDigit)

/-- `strtol` to the base ten. -/
def strtol (bytes : List UInt8) : Int := max (-2 ^ 63) (min (2 ^ 63 - 1) (signedDecimal bytes))

/-- The conversion to `int` and then to `size_t`. -/
def toSize (v : Int) : Nat := (v.bmod (2 ^ 32) % 2 ^ 64).toNat

/-- What `nextArgument` gives. -/
inductive Next
  /-- `NULL`. -/
  | null
  /-- There is no end of line: `assert(p)` fails, or `p + 2` is no pointer where it is left out. -/
  | failed
  /-- `*str` with all that follows it, `*len`, and the memory after the argument. -/
  | argument (str : List UInt8) (len : Nat) (next : List UInt8)

/-- `nextArgument`. -/
def nextArgument (start : List UInt8) : Next :=
  match (if start.head? = some 36 then some start else strchr 36 start) with
  | none => .null
  | some p =>
      let len := toSize (strtol (p.drop 1))
      match strchr 13 p with
      | none => .failed
      | some q => .argument (q.drop 2) len (q.drop (2 + len + 2))

/-- `tolower` -/
def lower (b : UInt8) : UInt8 := if 65 ≤ b ∧ b ≤ 90 then b + 32 else b

/-- `strncasecmp` with the whole of a pattern in lower case. -/
def matchesCase (pattern bytes : List UInt8) : Bool :=
  (bytes.take pattern.length).map lower == pattern

/-- The branches of `__redisAsyncCommand`. -/
inductive Branch
  | subscribe
  | unsubscribe
  | monitor
  | plain
  deriving DecidableEq, Repr

/-- The name without the `p` of a variant. -/
def skipVariant (cstr : List UInt8) : List UInt8 :=
  if (cstr.head?.map lower) = some 112 then cstr.drop 1 else cstr

/-- The branch that `__redisAsyncCommand` takes. -/
def classify (memory : List UInt8) : Option Branch :=
  match nextArgument memory with
  | .null => none
  | .failed => none
  | .argument cstr _ next =>
      let cstr := skipVariant cstr
      if next.head? = some 36 ∧ matchesCase (ascii "subscribe\r\n") cstr then some .subscribe
      else if matchesCase (ascii "unsubscribe\r\n") cstr then some .unsubscribe
      else if matchesCase (ascii "monitor\r\n") cstr then some .monitor
      else some .plain

/-- How a loop over the arguments ends. -/
inductive Names
  /-- `nextArgument` has given `NULL`. -/
  | done
  /-- `sdsnewlen` has given `NULL`. -/
  | oom
  /-- `assert(p)` has failed, or the name is not in the memory. -/
  | undefined
  deriving DecidableEq, Repr

/-- `while ((p = nextArgument(p,&astr,&alen)) != NULL)` with `sdsnewlen(astr,alen)`. A negative length
has become a `size_t` that no block has. -/
def namesLoop : Nat → List UInt8 → Names
  | 0, _ => .undefined
  | rounds + 1, p =>
      match nextArgument p with
      | .null => .done
      | .failed => .undefined
      | .argument astr alen next =>
          if 2 ^ 63 ≤ alen then .oom
          else if astr.length < alen then .undefined
          else namesLoop rounds next

/-- The loop from the second argument on; each argument takes bytes, so it ends. -/
def names (memory : List UInt8) : Names :=
  match nextArgument memory with
  | .argument _ _ next => namesLoop (next.length + 1) next
  | _ => .undefined

/-- There is a second argument. -/
def hasNext (memory : List UInt8) : Bool :=
  match nextArgument memory with
  | .argument _ _ next => next.head? == some 36
  | _ => false

/-- The part of `redisAsyncContext` that the branches work on. -/
structure Context where
  /-- `REDIS_DISCONNECTING` or `REDIS_FREEING` -/
  closing : Bool := false
  subscribed : Bool := false
  monitoring : Bool := false
  /-- `REDIS_ERR_OOM` -/
  oom : Bool := false
  /-- The callbacks in `ac->replies`, by number. -/
  replies : List Nat := []
  /-- The callbacks in `ac->sub.replies`. -/
  subReplies : List Nat := []
  output : List UInt8 := []
  deriving DecidableEq, Repr

/-- `__redisAsyncCommand`, apart from the tables of the subscriptions: the context after it, if it
is `REDIS_OK`.  `none` stands for a failed assertion and for reads outside of the memory. -/
def asyncCommand (memory : List UInt8) (size callback : Nat) (c : Context) : Option (Context × Bool) :=
  if c.closing then some (c, false)
  else
    let sent := { c with output := c.output ++ memory.take size }
    match classify memory with
    | none => none
    | some .subscribe =>
        -- the flag is set before the loop
        match names memory with
        | .done => some ({ sent with subscribed := true }, true)
        | .oom => some ({ c with subscribed := true, oom := true }, false)
        | .undefined => none
    | some .unsubscribe =>
        if c.subscribed then
          match if hasNext memory then names memory else .done with
          | .done => some (sent, true)
          | .oom => some ({ c with oom := true }, false)
          | .undefined => none
        else some (c, false)
    | some .monitor =>
        some ({ sent with monitoring := true, replies := c.replies ++ [callback] }, true)
    | some .plain =>
        if c.subscribed then some ({ sent with subReplies := c.subReplies ++ [callback] }, true)
        else some ({ sent with replies := c.replies ++ [callback] }, true)

theorem strchr_length {c : UInt8} {bytes q : List UInt8} (h : strchr c bytes = some q) :
    q.length ≤ bytes.length ∧ q ≠ [] := by
  induction bytes with
  | nil => cases h
  | cons b bytes ih =>
    rw [strchr] at h
    split at h
    · obtain rfl := Option.some.inj h
      exact ⟨Nat.le_refl _, List.cons_ne_nil _ _⟩
    · obtain ⟨-, h⟩ := Option.ite_none_left_eq_some.1 h
      exact ⟨Nat.le_succ_of_le (ih h).1, (ih h).2⟩

theorem nextArgument_length {p str next : List UInt8} {len : Nat}
    (h : nextArgument p = .argument str len next) : next.length < p.length := by
  rw [nextArgument] at h
  split at h
  · cases h
  · rename_i q hdollar
    have hq : q.length ≤ p.length := by
      split at hdollar
      · rw [Option.some.inj hdollar]
      · exact (strchr_length hdollar).1
    dsimp only at h
    split at h
    · cases h
    · rename_i r hline
      obtain ⟨hr, hne⟩ := strchr_length hline
      have hpos := List.length_pos_iff.2 hne
      obtain ⟨-, -, rfl⟩ := Next.argument.inj h
      rw [List.length_drop]
      omega

/-- The rounds that `names` gives the loop are enough. -/
theorem namesLoop_more (extra : Nat) {rounds : Nat} {p : List UInt8} (h : p.length < rounds) :
    namesLoop (rounds + extra) p = namesLoop rounds p := by
  induction rounds generalizing p with
  | zero => exact absurd h (Nat.not_lt_zero _)
  | succ rounds ih =>
    rw [Nat.add_right_comm, namesLoop, namesLoop]
    cases hnext : nextArgument p with
    | null => rfl
    | failed => rfl
    | argument astr alen next =>
      have hshort := nextArgument_length hnext
      dsimp only
      rw [ih (by omega)]

/-! ## The first argument -/

theorem strchr_skip {c : UInt8} {xs : List UInt8} (h : ∀ x ∈ xs, x ≠ c ∧ x ≠ 0) (rest : List UInt8) :
    strchr c (xs ++ c :: rest) = some (c :: rest) := by
  induction xs with
  | nil => simp [strchr]
  | cons x xs ih =>
    obtain ⟨hc, hz⟩ := h x List.mem_cons_self
    rw [List.cons_append, strchr, if_neg hc, if_neg hz]
    exact ih fun y hy => h y (List.mem_cons_of_mem x hy)

theorem takeWhile_digits {ds : List UInt8} (h : ∀ d ∈ ds, 48 ≤ d ∧ d ≤ 57) (rest : List UInt8) :
    (ds ++ 13 :: rest).takeWhile isDigit = ds := by
  have hds : ∀ d ∈ ds, isDigit d = true := by
    intro d hd
    simp [isDigit, h d hd]
  rw [List.takeWhile_append_of_pos hds, List.takeWhile_cons_of_neg (by decide), List.append_nil]

variable {v : Int}

theorem signedDecimal_numeral {text : List UInt8} (hn : Numeral text v) (rest : List UInt8) :
    signedDecimal (text ++ 13 :: rest) = v := by
  cases hn with
  | plus hds =>
    cases text with
    | nil => exact absurd hds.pos (Nat.lt_irrefl 0)
    | cons d ds =>
      have hd := hds.digit d List.mem_cons_self
      -- a digit is neither a blank nor a sign
      have hspace : isSpace d = false := by
        have hlow : (48 : UInt8).toNat ≤ d.toNat := UInt8.le_iff_toNat_le.1 hd.1
        have h32 : d ≠ 32 := by
          rintro rfl
          exact absurd hd.1 (by decide)
        have h13 : ¬ d ≤ 13 := by
          intro h
          have hhigh : d.toNat ≤ (13 : UInt8).toNat := UInt8.le_iff_toNat_le.1 h
          exact absurd (Nat.le_trans hlow hhigh) (by decide)
        simp [isSpace, h32, h13]
      unfold signedDecimal
      rw [List.cons_append, List.dropWhile_cons_of_neg (by simp [hspace])]
      split
      · rename_i heq
        rw [(List.cons.inj heq).1] at hd
        exact absurd hd.1 (by decide)
      · rename_i heq
        rw [(List.cons.inj heq).1] at hd
        exact absurd hd.1 (by decide)
      · rw [← List.cons_append, takeWhile_digits hds.digit]
  | minus hds =>
    unfold signedDecimal
    rw [List.cons_append, List.dropWhile_cons_of_neg (by decide)]
    show -(decimal 0 (List.takeWhile isDigit _) : Int) = _
    rw [takeWhile_digits hds.digit]

/-- `strtol` reads the length of an argument as `ReadLine` does. -/
theorem toSize_strtol (a : Argument) (rest : List UInt8) :
    toSize (strtol (a.text ++ 13 :: rest)) = a.data.length := by
  have hshort := a.short
  have hbulk : maxBulk = 536870912 := rfl
  have hlong : strtol (a.text ++ 13 :: rest) = a.data.length := by
    unfold strtol
    rw [signedDecimal_numeral a.length]
    omega
  have hint : (a.data.length : Int).bmod (2 ^ 32) = a.data.length := by
    apply Int.bmod_eq_of_le
    · omega
    · omega
  unfold toSize
  rw [hlong, hint, Int.emod_eq_of_lt (by omega) (by omega)]
  exact Int.toNat_natCast _

/-- The text of a number has neither of the bytes that `nextArgument` looks for. -/
theorem Numeral.not_mem {text : List UInt8} (h : Numeral text v) :
    ∀ b ∈ text, b ≠ 36 ∧ b ≠ 13 ∧ b ≠ 0 := by
  have hdigit : ∀ {ds : List UInt8}, Digits ds → ∀ b ∈ ds, b ≠ 36 ∧ b ≠ 13 ∧ b ≠ 0 := by
    intro ds hds b hb
    have hlow := (hds.digit b hb).1
    refine ⟨?_, ?_, ?_⟩
    · rintro rfl
      exact absurd hlow (by decide)
    · rintro rfl
      exact absurd hlow (by decide)
    · rintro rfl
      exact absurd hlow (by decide)
  cases h with
  | plus hds => exact hdigit hds
  | minus hds =>
    intro b hb
    rcases List.mem_cons.1 hb with rfl | hb
    · decide
    · exact hdigit hds b hb

/-- `nextArgument` finds the first argument of a command that `ScanCommand` has cut out. -/
theorem nextArgument_first {text : List UInt8} (hn : Numeral text v) (first : Argument)
    (rest : List UInt8) :
    nextArgument (42 :: text ++ 13 :: 10 :: first.encode ++ rest) =
      .argument (first.data ++ 13 :: 10 :: rest) first.data.length rest := by
  have hstart : 42 :: text ++ 13 :: 10 :: first.encode ++ rest = (42 :: text ++ [13, 10]) ++
      36 :: (first.text ++ 13 :: 10 :: (first.data ++ 13 :: 10 :: rest)) := by
    simp [Argument.encode]
  have hdollar : strchr 36 (42 :: text ++ 13 :: 10 :: first.encode ++ rest) =
      some (36 :: (first.text ++ 13 :: 10 :: (first.data ++ 13 :: 10 :: rest))) := by
    rw [hstart]
    apply strchr_skip
    intro x hx
    simp only [List.cons_append, List.mem_cons, List.mem_append, List.not_mem_nil, or_false] at hx
    rcases hx with rfl | hx | rfl | rfl
    · decide
    · exact ⟨(hn.not_mem x hx).1, (hn.not_mem x hx).2.2⟩
    · decide
    · decide
  have hline : strchr 13 (36 :: (first.text ++ 13 :: 10 :: (first.data ++ 13 :: 10 :: rest))) =
      some (13 :: 10 :: (first.data ++ 13 :: 10 :: rest)) := by
    apply @strchr_skip 13 (36 :: first.text)
    intro x hx
    rcases List.mem_cons.1 hx with rfl | hx
    · decide
    · exact (first.length.not_mem x hx).2
  unfold nextArgument
  rw [if_neg (by simp), hdollar]
  dsimp only
  rw [hline]
  have hlen : toSize (strtol (List.drop 1
      (36 :: (first.text ++ 13 :: 10 :: (first.data ++ 13 :: 10 :: rest))))) = first.data.length :=
    toSize_strtol first _
  rw [hlen]
  show Next.argument (first.data ++ 13 :: 10 :: rest) first.data.length
    (List.drop (2 + first.data.length + 2) (13 :: 10 :: (first.data ++ 13 :: 10 :: rest))) = _
  have hcut : 13 :: 10 :: (first.data ++ 13 :: 10 :: rest) =
      (13 :: 10 :: (first.data ++ [13, 10])) ++ rest := by
    simp
  rw [hcut, List.drop_left' (by simp; omega)]

/-! ## Names -/

theorem lower_eq_iff {b c : UInt8} (hc : ¬ (65 ≤ c ∧ c ≤ 90)) : lower b = c ↔ upper b = upper c := by
  simp only [lower, upper, UInt8.le_iff_toNat_le, ← UInt8.toNat_inj] at hc ⊢
  have h65 : (65 : UInt8).toNat = 65 := rfl
  have h90 : (90 : UInt8).toNat = 90 := rfl
  have h97 : (97 : UInt8).toNat = 97 := rfl
  have h122 : (122 : UInt8).toNat = 122 := rfl
  have hb := b.toNat_lt
  have hc' := c.toNat_lt
  rw [h65, h90] at hc
  rw [h65, h90, h97, h122]
  split <;> split <;> split <;>
    simp only [UInt8.toNat_add, UInt8.toNat_sub, UInt8.reduceToNat] <;> omega

/-- A pattern without capital letters matches like its capitals. -/
theorem map_lower_eq_iff {pattern : List UInt8} (h : ∀ c ∈ pattern, ¬ (65 ≤ c ∧ c ≤ 90)) :
    ∀ bytes : List UInt8, bytes.map lower = pattern ↔ bytes.map upper = pattern.map upper := by
  induction pattern with
  | nil => simp
  | cons c pattern ih =>
    intro bytes
    cases bytes with
    | nil => simp
    | cons b bytes =>
      rw [List.map_cons, List.map_cons, List.map_cons, List.cons.injEq, List.cons.injEq,
        lower_eq_iff (h c List.mem_cons_self),
        ih (fun d hd => h d (List.mem_cons_of_mem c hd)) bytes]

/-- A word and its end of line at the start of a name and its end of line: the name is the word, or
goes on after it with an end of line. -/
theorem prefix_line_iff {word : List UInt8} (h : 13 ∉ word) :
    ∀ name rest : List UInt8, word ++ [13, 10] <+: name ++ 13 :: 10 :: rest ↔
      named word name = true := by
  have hnamed : ∀ {word name : List UInt8}, named word name = true ↔
      name = word ∨ word ++ [13, 10] <+: name := by
    intro word name
    simp [named]
  induction word with
  | nil =>
    intro name rest
    rw [hnamed]
    cases name with
    | nil => simp
    | cons a name =>
      cases name with
      | nil => simp [List.cons_prefix_cons]
      | cons b name => simp [List.cons_prefix_cons]
  | cons w word ih =>
    intro name rest
    have hw : w ≠ 13 := fun hw => h (hw ▸ List.mem_cons_self)
    rw [hnamed]
    cases name with
    | nil => simp [List.cons_prefix_cons, hw]
    | cons a name =>
      have hrest := ih (fun hm => h (List.mem_cons_of_mem w hm)) name rest
      rw [hnamed] at hrest
      rw [List.cons_append, List.cons_append, List.cons_prefix_cons, hrest,
        List.cons_prefix_cons, List.cons.injEq]
      constructor
      · rintro ⟨rfl, hn | hn⟩
        · exact Or.inl ⟨rfl, hn⟩
        · exact Or.inr ⟨rfl, hn⟩
      · rintro (⟨rfl, hn⟩ | ⟨rfl, hn⟩)
        · exact ⟨rfl, Or.inl hn⟩
        · exact ⟨rfl, Or.inr hn⟩

/-- **The comparison of hiredis is the one of the filter.**  hiredis compares the first argument and
what follows it with a word and an end of line. -/
theorem matchesCase_iff {word : List UInt8} (hcase : ∀ c ∈ word ++ [13, 10], ¬ (65 ≤ c ∧ c ≤ 90))
    (hword : 13 ∉ word.map upper) (data rest : List UInt8) :
    matchesCase (word ++ [13, 10]) (data ++ 13 :: 10 :: rest) = true ↔
      named (word.map upper) (data.map upper) = true := by
  rw [← prefix_line_iff hword _ (rest.map upper)]
  unfold matchesCase
  rw [beq_iff_eq, map_lower_eq_iff hcase, List.prefix_iff_eq_take, eq_comm, List.map_append,
    List.map_take, List.map_append, List.map_cons, List.map_cons, List.length_append,
    List.length_append, List.length_map]
  rfl

/-- The optional `P` is skipped by both. -/
theorem skipVariant_data (data rest : List UInt8) :
    ∃ data', skipVariant (data ++ 13 :: 10 :: rest) = data' ++ 13 :: 10 :: rest ∧
      data'.map upper = asyncName (data.map upper) := by
  cases data with
  | nil => exact ⟨[], rfl, rfl⟩
  | cons d data =>
    have hp : lower d = 112 ↔ upper d = 80 := lower_eq_iff (by decide)
    by_cases hd : upper d = 80
    · refine ⟨data, ?_, ?_⟩
      · unfold skipVariant
        rw [if_pos (by simp [hp, hd])]
        rfl
      · rw [List.map_cons, hd]
        rfl
    · refine ⟨d :: data, ?_, ?_⟩
      · unfold skipVariant
        rw [if_neg (by simp [hp, hd])]
      · rw [List.map_cons]
        unfold asyncName
        split
        · rename_i heq
          exact absurd (List.cons.inj heq).1 hd
        · rfl

/-! ## The branch -/

/-- The branch taken for a command, by its name and the byte after its first argument. -/
theorem classify_first {text : List UInt8} (hn : Numeral text v) (first : Argument)
    (rest : List UInt8) :
    classify (42 :: text ++ 13 :: 10 :: first.encode ++ rest) = some (
      if rest.head? = some 36 ∧ named (ascii "SUBSCRIBE") (asyncName (first.data.map upper)) then
        .subscribe
      else if named (ascii "UNSUBSCRIBE") (asyncName (first.data.map upper)) then .unsubscribe
      else if named (ascii "MONITOR") (asyncName (first.data.map upper)) then .monitor
      else .plain) := by
  obtain ⟨data, hskip, hname⟩ := skipVariant_data first.data rest
  have hsub : matchesCase (ascii "subscribe\r\n") (data ++ 13 :: 10 :: rest) =
      named (ascii "SUBSCRIBE") (data.map upper) :=
    Bool.eq_iff_iff.2
      (@matchesCase_iff (ascii "subscribe") (by decide +kernel) (by decide) data rest)
  have hunsub : matchesCase (ascii "unsubscribe\r\n") (data ++ 13 :: 10 :: rest) =
      named (ascii "UNSUBSCRIBE") (data.map upper) :=
    Bool.eq_iff_iff.2
      (@matchesCase_iff (ascii "unsubscribe") (by decide +kernel) (by decide) data rest)
  have hmon : matchesCase (ascii "monitor\r\n") (data ++ 13 :: 10 :: rest) =
      named (ascii "MONITOR") (data.map upper) :=
    Bool.eq_iff_iff.2
      (@matchesCase_iff (ascii "monitor") (by decide +kernel) (by decide) data rest)
  unfold classify
  rw [nextArgument_first hn]
  dsimp only
  rw [hskip, hsub, hunsub, hmon, hname]
  split
  · rfl
  split
  · rfl
  split
  · rfl
  · rfl

/-- The name of a command in capitals, as `ChangesConnection` takes it. -/
def commandName (bytes : List UInt8) : List UInt8 :=
  match readLine (bytes.drop 1) with
  | .value _ p =>
      match readLine (p.drop 1) with
      | .value length p => (p.take length.toNat).map upper
      | _ => []
  | _ => []

theorem commandName_first {text : List UInt8} (hn : Numeral text v) (first : Argument)
    (rest : List UInt8) :
    commandName (42 :: text ++ 13 :: 10 :: first.encode ++ rest) = first.data.map upper := by
  have hline : (42 :: text ++ 13 :: 10 :: first.encode ++ rest).drop 1 =
      text ++ 13 :: 10 :: (first.encode ++ rest) := by
    simp
  have hargument : (first.encode ++ rest).drop 1 =
      first.text ++ 13 :: 10 :: (first.data ++ ([13, 10] ++ rest)) := by
    simp [Argument.encode]
  unfold commandName
  rw [hline, readLine_numeral hn]
  dsimp only
  rw [hargument, readLine_numeral first.length]
  dsimp only
  rw [Int.toNat_natCast, List.take_left]

/-- The commands that slip through: `SUBSCRIBE` or `PSUBSCRIBE` and an end of line in the name, no
further argument, and a `$` where the command has ended. -/
def SlipsThrough (size count : Nat) (memory : List UInt8) : Prop :=
  count = 1 ∧ ascii "SUBSCRIBE\r\n" <+: asyncName (commandName (memory.take size)) ∧
    memory[size]? = some 36

instance (size count : Nat) (memory : List UInt8) : Decidable (SlipsThrough size count memory) :=
  inferInstanceAs (Decidable (_ ∧ _ ∧ _))

/-- **hiredis takes the plain branch for every command that is let through, but for those that slip
through.**  `after` is what stands in memory behind the receive buffer. -/
theorem classify_plain_iff {maxBytes size count : Nat} {buffer : List UInt8}
    (hscan : scanCommand maxBytes buffer = .command size count)
    (hpass : changesConnection (buffer.take size) = false) (after : List UInt8) :
    classify (buffer ++ after) = some .plain ↔ ¬ SlipsThrough size count (buffer ++ after) := by
  obtain ⟨text, first, others, rest, hn, hcount, hbuffer, hsize⟩ := scanCommand_shape hscan
  have htake : buffer.take size =
      42 :: text ++ 13 :: 10 :: first.encode ++ others.flatMap Argument.encode := by
    rw [hbuffer, hsize, List.take_left]
  have htake' : (buffer ++ after).take size = buffer.take size := by
    rw [List.take_append_of_le_length (scanCommand_size hscan).2]
  have hmemory : buffer ++ after = 42 :: text ++ 13 :: 10 :: first.encode ++
      (others.flatMap Argument.encode ++ (rest ++ after)) := by
    rw [hbuffer]
    simp
  have hnext : (buffer ++ after)[size]? = (rest ++ after).head? := by
    rw [hbuffer, hsize, List.append_assoc, List.getElem?_append_right (Nat.le_refl _), Nat.sub_self,
      List.head?_eq_getElem?]
  have hname : commandName ((buffer ++ after).take size) = first.data.map upper := by
    rw [htake', htake]
    exact commandName_first hn first _
  rw [htake] at hpass
  obtain ⟨hasync, htable⟩ := changesConnection_false hn first _ hpass
  simp only [changesAsync, Bool.or_eq_false_iff, Bool.and_eq_false_iff] at hasync
  obtain ⟨⟨hmon, hunsub⟩, hsub⟩ := hasync
  unfold SlipsThrough
  rw [hname, hnext, hmemory, classify_first hn, hmon, hunsub]
  -- with further arguments the filter has looked for `SUBSCRIBE`
  cases others with
  | cons second others =>
    have hcount2 : ¬ decide ((2 : Int) ≤ count) = false := by
      rw [List.length_cons] at hcount
      simp
      omega
    have hno := hsub.resolve_left hcount2
    have hone : count ≠ 1 := by
      rw [List.length_cons] at hcount
      omega
    simp [hno, hone]
  | nil =>
    have hone : count = 1 := by
      rw [← hcount]
      rfl
    -- the bare names are in the table
    have hline : named (ascii "SUBSCRIBE") (asyncName (first.data.map upper)) = true ↔
        ascii "SUBSCRIBE\r\n" <+: asyncName (first.data.map upper) := by
      have hbare : asyncName (first.data.map upper) ≠ ascii "SUBSCRIBE" := by
        intro hbare
        unfold asyncName at hbare
        split at hbare
        · rename_i tail heq
          rw [heq, hbare] at htable
          exact absurd htable (by decide)
        · rw [hbare] at htable
          exact absurd htable (by decide)
      simp only [named, Bool.or_eq_true, beq_iff_eq, hbare, false_or, List.isPrefixOf_iff_prefix]
      exact Iff.rfl
    rw [← hline, List.flatMap_nil, List.nil_append]
    by_cases hslip : (rest ++ after).head? = some 36 ∧
        named (ascii "SUBSCRIBE") (asyncName (first.data.map upper)) = true
    · rw [if_pos hslip]
      refine ⟨fun h => (by cases h), ?_⟩
      intro hno
      exact absurd ⟨hone, hslip.2, hslip.1⟩ hno
    · rw [if_neg hslip, if_neg Bool.false_ne_true, if_neg Bool.false_ne_true]
      refine ⟨?_, fun _ => rfl⟩
      rintro - ⟨-, hname, hhead⟩
      exact hslip ⟨hhead, hname⟩

/-- The command went the way of an ordinary one: the modes are off, and its callback is the last one
in `ac->replies`. -/
structure Ordinary (callback : Nat) (c c' : Context) : Prop where
  subscribed : c'.subscribed = false
  monitoring : c'.monitoring = false
  replies : c'.replies = c.replies ++ [callback]
  subReplies : c'.subReplies = c.subReplies

/-- **No forwarded command changes the callback mode, but for those that slip through.**  For every
command that `ScanCommand` cuts out of a receive buffer and `ChangesConnection` lets through,
whatever follows in memory: hiredis takes the plain branch and queues one callback exactly when the
command is not `SUBSCRIBE` and an end of line, alone, with a `$` behind it. -/
theorem forwarded_plain_iff {maxBytes size count : Nat} {buffer : List UInt8}
    (hscan : scanCommand maxBytes buffer = .command size count)
    (hpass : changesConnection (buffer.take size) = false) (after : List UInt8) (callback : Nat)
    {c : Context} (hopen : c.closing = false) (hsub : c.subscribed = false)
    (hmon : c.monitoring = false) :
    (classify (buffer ++ after) = some .plain ∧
      ∃ c', asyncCommand (buffer ++ after) size callback c = some (c', true) ∧
        Ordinary callback c c') ↔
    ¬ SlipsThrough size count (buffer ++ after) := by
  rw [← classify_plain_iff hscan hpass after]
  refine ⟨fun h => h.1, ?_⟩
  intro hplain
  refine ⟨hplain,
    { c with output := c.output ++ (buffer ++ after).take size, replies := c.replies ++ [callback] },
    ?_, ?_⟩
  · unfold asyncCommand
    rw [if_neg (by rw [hopen]; exact Bool.false_ne_true), hplain]
    dsimp only
    rw [if_neg (by rw [hsub]; exact Bool.false_ne_true)]
  · exact ⟨hsub, hmon, rfl, rfl⟩

/-- `GET k`, with the start of the next command behind it. -/
theorem forwarded_plain_iff_get :
    scanCommand 64 (ascii "*2\r\n$3\r\nGET\r\n$1\r\nk\r\n*1") = .command 20 2 ∧
    classify (ascii "*2\r\n$3\r\nGET\r\n$1\r\nk\r\n*1" ++ []) = some .plain := by
  have hscan : scanCommand 64 (ascii "*2\r\n$3\r\nGET\r\n$1\r\nk\r\n*1") = .command 20 2 := by
    decide
  have hpass : changesConnection ((ascii "*2\r\n$3\r\nGET\r\n$1\r\nk\r\n*1").take 20) = false := by
    decide
  have hplain := forwarded_plain_iff hscan hpass [] 0 (c := {}) rfl rfl rfl
  exact ⟨hscan, (hplain.2 (by decide)).1⟩

/-- The client sends the command `SUBSCRIBE\r\nX`, alone, and `$4\r\nPING\r\n` behind it; then there is
a zero in the buffer. The command is cut out and let through, hiredis takes the bytes behind it for
a channel, and it is in subscribe mode with no callback queued. -/
theorem forwarded_subscribe :
    scanCommand 64 (ascii "*1\r\n$12\r\nSUBSCRIBE\r\nX\r\n$4\r\nPING\r\n") = .command 23 1 ∧
    changesConnection ((ascii "*1\r\n$12\r\nSUBSCRIBE\r\nX\r\n$4\r\nPING\r\n").take 23) = false ∧
    classify (ascii "*1\r\n$12\r\nSUBSCRIBE\r\nX\r\n$4\r\nPING\r\n" ++ [0]) = some .subscribe ∧
    asyncCommand (ascii "*1\r\n$12\r\nSUBSCRIBE\r\nX\r\n$4\r\nPING\r\n" ++ [0]) 23 0 {} =
      some ({ subscribed := true, output := ascii "*1\r\n$12\r\nSUBSCRIBE\r\nX\r\n" }, true) := by
  decide

end OpenIdea.Redis
