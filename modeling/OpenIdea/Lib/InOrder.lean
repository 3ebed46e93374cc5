import Mathlib.Data.List.Basic

/-!
# Answers paired with requests by their position

A protocol without request ids answers the requests of one connection in the order they were sent.
`Line` records what was sent on a connection and how many answers have come back; the `k`-th answer
is the answer to the `k`-th request.  A queue that holds the outstanding requests in order can hand
each answer to its front: `outstanding_send` and `outstanding_answer` are the two moves that keep
such a queue aligned.
-/

set_option autoImplicit false

namespace OpenIdea.Lib

/-- The requests sent on one connection, and the number of those answered so far. -/
structure Line (ι : Type) where
  sent : List ι := []
  answered : Nat := 0
  deriving DecidableEq, Repr

namespace Line

variable {ι : Type}

/-- One more request. -/
def send (l : Line ι) (x : ι) : Line ι := { l with sent := l.sent ++ [x] }

/-- One more answer. -/
def answer (l : Line ι) : Line ι := { l with answered := l.answered + 1 }

/-- The requests without an answer, oldest first. -/
def outstanding (l : Line ι) : List ι := l.sent.drop l.answered

/-- No more answers than requests. -/
def Sound (l : Line ι) : Prop := l.answered ≤ l.sent.length

/-- An answer is still to come. -/
def Owes (l : Line ι) : Prop := l.answered < l.sent.length

instance (l : Line ι) : Decidable l.Owes := inferInstanceAs (Decidable (_ < _))

@[simp] theorem send_sent (l : Line ι) (x : ι) : (l.send x).sent = l.sent ++ [x] := rfl

@[simp] theorem send_answered (l : Line ι) (x : ι) : (l.send x).answered = l.answered := rfl

@[simp] theorem answer_sent (l : Line ι) : l.answer.sent = l.sent := rfl

@[simp] theorem answer_answered (l : Line ι) : l.answer.answered = l.answered + 1 := rfl

@[simp] theorem outstanding_empty : ({} : Line ι).outstanding = [] := rfl

theorem sound_empty : ({} : Line ι).Sound := Nat.le_refl 0

variable {l : Line ι}

theorem Sound.send (h : l.Sound) (x : ι) : (l.send x).Sound := by
  unfold Sound at h ⊢
  simp only [send_sent, send_answered, List.length_append, List.length_singleton]
  omega

theorem Owes.sound_answer (h : l.Owes) : l.answer.Sound := h

/-- A request joins the outstanding ones at the end. -/
theorem Sound.outstanding_send (h : l.Sound) (x : ι) :
    (l.send x).outstanding = l.outstanding ++ [x] :=
  List.drop_append_of_le_length h

/-- An answer takes the oldest outstanding request. -/
theorem outstanding_answer (l : Line ι) : l.answer.outstanding = l.outstanding.tail := by
  rw [outstanding, outstanding, List.tail_drop]
  rfl

/-- The oldest outstanding request is the one the next answer is for. -/
theorem head?_outstanding (l : Line ι) : l.outstanding.head? = l.sent[l.answered]? := by
  rw [outstanding, List.head?_drop]

/-- Where an answer is to come, some request is outstanding. -/
theorem Owes.exists_outstanding (h : l.Owes) :
    ∃ x rest, l.outstanding = x :: rest ∧ l.sent[l.answered]? = some x := by
  refine ⟨_, _, List.drop_eq_getElem_cons h, List.getElem?_eq_getElem h⟩

/-- A request keeps its position when more are sent. -/
theorem getElem?_send {k : Nat} {x y : ι} (h : l.sent[k]? = some y) :
    (l.send x).sent[k]? = some y := by
  have hk : k < l.sent.length := (List.getElem?_eq_some_iff.1 h).1
  rw [send_sent, List.getElem?_append_left hk, h]

end Line

end OpenIdea.Lib
