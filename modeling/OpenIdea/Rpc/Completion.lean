import OpenIdea.Rpc.CallRuns

/-!
# Completions

Replies, timeouts, disconnects and wake-ups race for the slot of a call. Whoever takes it out of the
table completes it, so a call is completed at most once; and `DeliverRpc` takes a slot out only for
a reply from the session the call is bound to at that moment, with its response protocol
(`run_replied`, `call_completes_once`).
-/

set_option autoImplicit false

namespace OpenIdea.Rpc

open OpenIdea.Lib OpenIdea.Lib.Runs

variable {M : Type} [DecidableEq M]

/-- A completion's reply came in at a step of the run at which the call was bound to the reply's
manager and session, with the reply's protocol as its response. -/
def RepliedBy (events : List (CallEvent M)) (c : Completion M) (r : Reply M) : Prop :=
  ∃ pre post bytes S₀ s,
    events = pre ++ .deliver r.protocolId bytes r.manager r.sessionId :: post ∧
    runFrom callStep (CallSystem.init M) pre = some S₀ ∧
    replyCallId bytes = some c.slot.callId ∧ r.body = bytes.drop 8 ∧
    S₀.table c.slot.callId = some s ∧ c.slot.call = s.call ∧
    s.manager = r.manager ∧ s.sessionId = r.sessionId ∧ s.responseId = r.protocolId

theorem RepliedBy.snoc {events : List (CallEvent M)} {c : Completion M} {r : Reply M}
    (h : RepliedBy events c r) (e : CallEvent M) : RepliedBy (events ++ [e]) c r := by
  obtain ⟨pre, post, bytes, S₀, s, rfl, hrest⟩ := h
  exact ⟨pre, post ++ [e], bytes, S₀, s, by simp, hrest⟩

/-- The completions of the system with a reply. -/
def CallView.completions (v : CallView M) : List (Completion M) := v.inFlight ++ v.finished

/-- A completion after a move was there before, carries no reply, or is the delivered one. -/
theorem completions_move {v v' : CallView M} {e : CallEvent M} (h : CallMove v e v')
    {c : Completion M} (hc : c ∈ v'.completions) :
    c ∈ v.completions ∨ c.reply = none ∨
      ∃ i iId bytes m sid s, e = .deliver iId bytes m sid ∧ replyCallId bytes = some i ∧
        v.table i = some s ∧ c.slot.call = s.call ∧
        (⟨m, sid, iId⟩ : TakeFilter M).Matches s ∧
        c.reply = some ⟨m, sid, iId, i, bytes.drop 8⟩ := by
  have hadd : ∀ {ds : List (Completion M)}, c ∈ (v.inFlight ++ ds) ++ v.finished →
      c ∈ v.completions ∨ c ∈ ds := by
    intro ds hc
    simp only [CallView.completions, List.mem_append] at hc ⊢
    tauto
  cases h with
  | woken i iCode s t hs ht =>
    rcases hadd hc with hc | hc
    · exact Or.inl hc
    · rw [List.mem_singleton.1 hc]
      exact Or.inr (Or.inl rfl)
  | delivered i iId bytes m sid s t hi hs ht hm =>
    rcases hadd hc with hc | hc
    · exact Or.inl hc
    · rw [List.mem_singleton.1 hc]
      exact Or.inr (Or.inr ⟨i, iId, bytes, m, sid, s, rfl, hi, hs, ht, hm, rfl⟩)
  | taken _ ids ts code hnodup hids hts =>
    rcases hadd hc with hc | hc
    · exact Or.inl hc
    · obtain ⟨t, -, rfl⟩ := List.mem_map.1 hc
      exact Or.inr (Or.inl rfl)
  | finished n d hd =>
    left
    simp only [CallView.completions, List.mem_append, List.mem_singleton] at hc ⊢
    rcases hc with hc | hc | rfl
    · exact Or.inl (List.mem_of_mem_eraseIdx hc)
    · exact Or.inr hc
    · exact Or.inl (List.mem_of_getElem? hd)
  | lost n =>
    left
    simp only [CallView.completions, List.mem_append] at hc ⊢
    exact hc.imp_left List.mem_of_mem_eraseIdx
  | _ => exact Or.inl hc

/-- One event keeps every reply accounted for. -/
theorem replied_step {pre : List (CallEvent M)} {S S' : CallSystem M} {e : CallEvent M}
    (hpre : runFrom callStep (CallSystem.init M) pre = some S) (hS : TableInv S)
    (hmove : CallMove S.view e S'.view)
    (hreplied : ∀ c ∈ S.view.completions, ∀ r, c.reply = some r → RepliedBy pre c r) :
    ∀ c ∈ S'.view.completions, ∀ r, c.reply = some r → RepliedBy (pre ++ [e]) c r := by
  intro c hc r hr
  rcases completions_move hmove hc with
    hold | hnone | ⟨i, iId, bytes, m, sid, s, rfl, hi, hs, hcall, hm, hreply⟩
  · exact (hreplied c hold r hr).snoc e
  · rw [hnone] at hr
    cases hr
  · obtain rfl := Option.some.inj (hreply.symm.trans hr)
    have hid : c.slot.callId = i := (callId_of_call hcall).trans (hS.callId hs)
    exact ⟨pre, [], bytes, S, s, rfl, hpre, by rw [hid]; exact hi, rfl, by rw [hid]; exact hs,
      hcall, hm⟩

/-- A run that draws at most `2 ^ 63` numbers is defined, keeps the numbers apart and every reply
accounted for. The induction carries the events before it. -/
theorem run_replied :
    ∀ (es pre : List (CallEvent M)) {S : CallSystem M},
      runFrom callStep (CallSystem.init M) pre = some S → TableInv S → Tracked S.view →
      (∀ c ∈ S.view.completions, ∀ r, c.reply = some r → RepliedBy pre c r) →
      S.issued + drawCount es ≤ 2 ^ 63 →
      ∃ S', runFrom callStep S es = some S' ∧ TableInv S' ∧ Tracked S'.view ∧
        ∀ c ∈ S'.view.completions, ∀ r, c.reply = some r → RepliedBy (pre ++ es) c r
  | [], pre, S, _, hS, htrack, hreplied, _ =>
    ⟨S, rfl, hS, htrack, by rw [List.append_nil]; exact hreplied⟩
  | e :: es, pre, S, hpre, hS, htrack, hreplied, hbound => by
      obtain ⟨S₁, hstep, hS₁, hmove⟩ := callStep_move hS (htrack.freshBind e)
      have hissued := (issued_le hmove es).trans hbound
      have hissued₁ : S₁.issued + drawCount es ≤ 2 ^ 63 := hissued
      have htrack₁ := htrack.move hmove (fun j s => hS.callId)
        (show S₁.issued ≤ 2 ^ 63 by omega)
      have hpre₁ : runFrom callStep (CallSystem.init M) (pre ++ [e]) = some S₁ :=
        runFrom_append.2 ⟨S, hpre, runFrom_cons.2 ⟨S₁, hstep, rfl⟩⟩
      obtain ⟨S', hrun, hS', htrack', hreplied'⟩ := run_replied es (pre ++ [e]) hpre₁ hS₁ htrack₁
        (replied_step hpre hS hmove hreplied) hissued₁
      refine ⟨S', runFrom_cons.2 ⟨S₁, hstep, hrun⟩, hS', htrack', ?_⟩
      rw [List.append_cons]
      exact hreplied'

/-- A reply without a matching slot changes nothing. -/
theorem deliver_unmatched {S : CallSystem M} (iId : Nat) (bytes : List UInt8) (m : M) (sid : Int)
    (h : ∀ i s, replyCallId bytes = some i → S.table i = some s →
      ¬ (⟨m, sid, iId⟩ : TakeFilter M).Matches s) :
    callStep S (.deliver iId bytes m sid) = some S := by
  simp only [callStep]
  cases hi : replyCallId bytes with
  | none => rfl
  | some i =>
    cases hs : (S.shards (shardOf i)).slots i with
    | none =>
      simp only [CallSystem.take, takeRpcSlot_missing hs, Option.map_some]
    | some s =>
      simp only [CallSystem.take, takeRpcSlot_mismatch hs (h i s hi hs), Option.map_some]

/-- **A call is completed at most once, and by its own reply.** In every run that draws fewer than
`2 ^ 63` numbers, with whatever replies arrive, no call has two completions; a completion with a
reply was delivered on the manager and session the call was bound to at that step, with the call's
number and response protocol; and a reply without a matching slot leaves the whole table as it
is. -/
theorem call_completes_once (events : List (CallEvent M)) (hdraws : drawCount events < 2 ^ 63) :
    ∃ S, runFrom callStep (CallSystem.init M) events = some S ∧
      (∀ i, completionsOf i S.finished ≤ 1) ∧
      (∀ c ∈ S.finished, ∀ r, c.reply = some r → RepliedBy events c r) ∧
      ∀ (iId : Nat) (bytes : List UInt8) (m : M) (sid : Int),
        (∀ i s, replyCallId bytes = some i → S.table i = some s →
          ¬ (⟨m, sid, iId⟩ : TakeFilter M).Matches s) →
        callStep S (.deliver iId bytes m sid) = some S := by
  obtain ⟨S, hrun, -, htrack, hreplied⟩ := run_replied events [] rfl init_tableInv init_tracked
    (fun c hc => by cases hc) (by
      rw [show (CallSystem.init M).issued = 0 from rfl]
      omega)
  refine ⟨S, hrun, fun i => ?_, fun c hc r hr => ?_, fun iId bytes m sid => ?_⟩
  · have hle := htrack.le_one i
    simp only [CallView.weight, CallSystem.view] at hle
    omega
  · exact hreplied c (List.mem_append_right _ hc) r hr
  · exact deliver_unmatched iId bytes m sid

/-- A call is bound, moved to session `7` and answered twice from there: the first reply completes
it, the second finds nothing. -/
theorem call_completes_once_after_rebind :
    let reply : List UInt8 := [1, 0, 0, 0, 0, 0, 0, 0, 42]
    let events : List (CallEvent Unit) :=
      [.draw, .bind 1 { plainCall with responseId := 9 } (fun _ => false) 0,
        .claim 1 7 (fun _ => false), .deliver 9 reply () 5, .deliver 9 reply () 7,
        .deliver 9 reply () 7, .finish 0]
    ∃ S, runFrom callStep (CallSystem.init Unit) events = some S ∧
      S.finished.map (fun c => (c.slot.callId, c.slot.sessionId)) = [(1, 7)] ∧
      ∀ i, completionsOf i S.finished ≤ 1 := by
  intro reply events
  obtain ⟨S, hrun, honce, -⟩ := call_completes_once events (by decide)
  have hlog : (runFrom callStep (CallSystem.init Unit) events).map (fun S =>
      S.finished.map fun c => (c.slot.callId, c.slot.sessionId)) = some [(1, 7)] := by
    decide
  rw [hrun] at hlog
  exact ⟨S, hrun, Option.some.inj hlog, honce⟩

end OpenIdea.Rpc
