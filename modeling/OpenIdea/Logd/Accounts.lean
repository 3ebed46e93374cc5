import OpenIdea.Logd.Steps

/-!
# The accounts of the backlog

Every log that `AddLog` was given is in the queue of its level, in the hands of its writer, or given
back by `CompleteWrite`.  `Ledger` says this for one level, with the bytes that have reached its
files; `Accounts` says that `m_iPendingBytes` is the sum of what the levels hold.  The steps of a
level keep its ledger, and `Accounts.completeWrite` gives back what was written.
-/

set_option autoImplicit false

namespace OpenIdea.Logd

open OpenIdea.Lib OpenIdea.Lib.Runs

/-! ## Sums over the levels -/

namespace LogLevel

/-- The sum of a number over all levels. -/
def total (g : LogLevel → Nat) : Nat := (all.map g).sum

theorem total_eq (g : LogLevel → Nat) :
    total g = g .trace + g .debug + g .info + g .warning + g .error := by
  simp only [total, all, List.map_cons, List.map_nil, List.sum_cons, List.sum_nil]
  omega

theorem le_total (g : LogLevel → Nat) (l : LogLevel) : g l ≤ total g := by
  rw [total_eq]
  cases l <;> omega

/-- A sum changes as its one changed part does. -/
theorem total_change (g g' : LogLevel → Nat) (l : LogLevel) (h : ∀ k, k ≠ l → g' k = g k) :
    total g' + g l = total g + g' l := by
  rw [total_eq, total_eq]
  cases l with
  | trace => rw [h .debug, h .info, h .warning, h .error] <;> first | omega | decide
  | debug => rw [h .trace, h .info, h .warning, h .error] <;> first | omega | decide
  | info => rw [h .trace, h .debug, h .warning, h .error] <;> first | omega | decide
  | warning => rw [h .trace, h .debug, h .info, h .error] <;> first | omega | decide
  | error => rw [h .trace, h .debug, h .info, h .warning] <;> first | omega | decide

end LogLevel

/-! ## One level -/

namespace Writer

/-- The logs of the batch that are not written yet. -/
def todo : Writer → List Log
  | .idle => []
  | .writing todo _ => todo
  | .completing _ => []
  | .ended => []

/-- The bytes of the batch that are written and not given back. -/
def bytes : Writer → Nat
  | .idle => 0
  | .writing _ n => n
  | .completing n => n
  | .ended => 0

/-- The writer has a file open in the middle of a batch. -/
def isWriting : Writer → Bool
  | .idle => false
  | .writing _ _ => true
  | .completing _ => false
  | .ended => false

/-- The thread has left `WriteLog`. -/
def isEnded : Writer → Bool
  | .idle => false
  | .writing _ _ => false
  | .completing _ => false
  | .ended => true

end Writer

namespace LogFileInstance

/-- The bytes a level holds: accepted, and not given back. -/
def held (f : LogFileInstance) : Nat :=
  f.writer.bytes + logsSize f.writer.todo + logsSize f.logs

/-- What holds of a level at every moment. -/
structure Ledger (f : LogFileInstance) : Prop where
  accepted : f.accepted = f.written ++ (f.writer.todo ++ f.logs)
  completed : ∃ batch, f.written = f.completed ++ batch ∧ logsSize batch = f.writer.bytes
  file : f.file ++ f.buffered = bodies f.written
  buffered : f.writer.isWriting = false → f.buffered = []
  quit : f.writer.isEnded = true → f.quit = true

variable {f f' : LogFileInstance}

/-- **The bytes held are those accepted and not yet completed.** -/
theorem Ledger.held_eq (h : f.Ledger) : f.held + logsSize f.completed = logsSize f.accepted := by
  obtain ⟨batch, hwritten, hbatch⟩ := h.completed
  rw [h.accepted, hwritten, held]
  simp only [logsSize_append]
  omega

theorem ledger_empty : Ledger {} where
  accepted := rfl
  completed := ⟨[], rfl, rfl⟩
  file := rfl
  buffered := fun _ => rfl
  quit := fun h => nomatch h

theorem Ledger.addLog (h : f.Ledger) (x : Log) : (f.addLog x).Ledger :=
  { h with
    accepted := by
      simp only [LogFileInstance.addLog]
      rw [h.accepted, List.append_assoc, List.append_assoc] }

theorem held_addLog (f : LogFileInstance) (x : Log) : (f.addLog x).held = f.held + x.size := by
  simp only [held, addLog, logsSize_append, logsSize_cons, logsSize_nil]
  omega

/-- The critical section of the writer moves the queue into its hands. -/
theorem swapLogs_cases (h : f.swapLogs = some f') :
    f.writer = .idle ∧
    ((f.logs = [] ∧ f.quit = true ∧
        f' = { f with logs := [], rotationPending := false, writer := .ended }) ∨
      (f.logs = [] ∧ f.quit = false ∧
        f' = { f with logs := [], rotationPending := false, writer := .idle }) ∨
      (f.logs ≠ [] ∧
        f' = { f with logs := [], rotationPending := false, writer := .writing f.logs 0 })) := by
  rw [swapLogs] at h
  split at h
  · next hidle =>
      refine ⟨hidle, ?_⟩
      split at h
      · exact absurd h (Option.some_ne_none f').symm
      · have hf' := (Option.some.inj h).symm
        -- with nothing queued the writer has been woken for a rotation, or to end
        by_cases hempty : f.logs.isEmpty
        · have hlogs := List.isEmpty_iff.1 hempty
          cases hquit : f.quit with
          | true =>
            rw [if_pos hempty, hquit, if_pos rfl] at hf'
            exact Or.inl ⟨hlogs, rfl, hf'⟩
          | false =>
            rw [if_pos hempty, hquit, if_neg (by decide)] at hf'
            exact Or.inr (Or.inl ⟨hlogs, rfl, hf'⟩)
        · rw [if_neg hempty] at hf'
          exact Or.inr (Or.inr ⟨fun hlogs => hempty (List.isEmpty_iff.2 hlogs), hf'⟩)
  · exact absurd h (Option.some_ne_none f').symm

theorem writeNext_cases (h : f.writeNext = some f') :
    ∃ x todo n, f.writer = .writing (x :: todo) n ∧
      f' = { f with
        writer := .writing todo (n + x.size)
        buffered := f.buffered ++ x.body
        written := f.written ++ [x] } := by
  rw [writeNext] at h
  split at h
  · next x todo n hw => exact ⟨x, todo, n, hw, (Option.some.inj h).symm⟩
  · exact absurd h (Option.some_ne_none f').symm

theorem flush_cases (h : f.flush = some f') :
    ∃ n, f.writer = .writing [] n ∧
      f' = { f with writer := .completing n, file := f.file ++ f.buffered, buffered := [] } := by
  rw [flush] at h
  split at h
  · next n hw => exact ⟨n, hw, (Option.some.inj h).symm⟩
  · exact absurd h (Option.some_ne_none f').symm

theorem Ledger.swapLogs (h : f.Ledger) (hf : f.swapLogs = some f') :
    f'.Ledger ∧ f'.held = f.held := by
  obtain ⟨hidle, hf⟩ := swapLogs_cases hf
  have hacc := h.accepted
  have hcompl := h.completed
  have hbuf := h.buffered (by rw [hidle, Writer.isWriting])
  rw [hidle, Writer.todo] at hacc
  rw [hidle, Writer.bytes] at hcompl
  rcases hf with ⟨hlogs, hquit, rfl⟩ | ⟨hlogs, -, rfl⟩ | ⟨-, rfl⟩
  · rw [hlogs] at hacc
    exact ⟨⟨hacc, hcompl, h.file, fun _ => hbuf, fun _ => hquit⟩,
      by simp [held, hidle, Writer.bytes, Writer.todo, hlogs]⟩
  · rw [hlogs] at hacc
    exact ⟨⟨hacc, hcompl, h.file, fun _ => hbuf, fun he => (nomatch he)⟩,
      by simp [held, hidle, Writer.bytes, Writer.todo, hlogs]⟩
  · refine ⟨⟨?_, hcompl, h.file, fun he => (nomatch he), fun he => (nomatch he)⟩,
      by simp [held, hidle, Writer.bytes, Writer.todo]⟩
    rw [hacc, List.nil_append, Writer.todo, List.append_nil]

theorem Ledger.writeNext (h : f.Ledger) (hf : f.writeNext = some f') :
    f'.Ledger ∧ f'.held = f.held := by
  obtain ⟨x, todo, n, hw, rfl⟩ := writeNext_cases hf
  have hacc := h.accepted
  obtain ⟨batch, hwritten, hbatch⟩ := h.completed
  rw [hw, Writer.todo] at hacc
  rw [hw, Writer.bytes] at hbatch
  refine ⟨⟨?_, ⟨batch ++ [x], ?_, ?_⟩, ?_, fun he => (nomatch he), fun he => (nomatch he)⟩, ?_⟩
  · simp [hacc, Writer.todo]
  · rw [hwritten, List.append_assoc]
  · simp [hbatch, Writer.bytes]
  · simp only [bodies_append]
    rw [← h.file, List.append_assoc]
    simp [bodies]
  · simp only [held, hw, Writer.bytes, Writer.todo, logsSize_cons]
    omega

theorem Ledger.flush {f f' : LogFileInstance} (h : f.Ledger) (hf : f.flush = some f') :
    f'.Ledger ∧ f'.held = f.held := by
  obtain ⟨n, hw, rfl⟩ := flush_cases hf
  have hacc := h.accepted
  have hcompl := h.completed
  rw [hw, Writer.todo] at hacc
  rw [hw, Writer.bytes] at hcompl
  refine ⟨⟨hacc, hcompl, ?_, fun _ => rfl, fun he => (nomatch he)⟩,
    by simp [held, hw, Writer.bytes, Writer.todo]⟩
  rw [List.append_nil]
  exact h.file

/-- **What `CompleteWrite` gives back is what the level's writer held.** -/
theorem Ledger.finish (h : f.Ledger) {n : Nat} (hw : f.writer = .completing n) :
    f.finish.Ledger ∧ f.finish.held + n = f.held := by
  have hacc := h.accepted
  have hbuf := h.buffered (by rw [hw, Writer.isWriting])
  rw [hw, Writer.todo] at hacc
  refine ⟨⟨hacc, ⟨[], (List.append_nil _).symm, rfl⟩, h.file, fun _ => hbuf, fun he => (nomatch he)⟩,
    ?_⟩
  simp only [held, LogFileInstance.finish, hw, Writer.bytes, Writer.todo, logsSize_nil]
  omega

theorem Ledger.rotate (h : f.Ledger) : f.rotate.Ledger :=
  ⟨h.accepted, h.completed, h.file, h.buffered, h.quit⟩

theorem Ledger.stopWriting (h : f.Ledger) : f.stopWriting.Ledger :=
  ⟨h.accepted, h.completed, h.file, h.buffered, fun _ => rfl⟩

end LogFileInstance

/-! ## All levels -/

namespace Daemon

/-- The accounts of the daemon. -/
structure Accounts (s : Daemon) : Prop where
  limit : logFrameMax + 8 ≤ s.iMaxPendingBytes
  ledger : ∀ l, (s.logFiles l).Ledger
  exact : s.iPendingBytes = LogLevel.total fun l => (s.logFiles l).held
  bounded : s.iPendingBytes ≤ s.iMaxPendingBytes

variable {s : Daemon} {l : LogLevel}

theorem Accounts.congr {s' : Daemon} (h : s.Accounts)
    (hmax : s'.iMaxPendingBytes = s.iMaxPendingBytes)
    (hpending : s'.iPendingBytes = s.iPendingBytes) (hfiles : s'.logFiles = s.logFiles) :
    s'.Accounts where
  limit := hmax ▸ h.limit
  ledger := hfiles ▸ h.ledger
  exact := by rw [hpending, hfiles, h.exact]
  bounded := by rw [hmax, hpending]; exact h.bounded

theorem Accounts.scheduleResume (h : s.Accounts) : s.scheduleResume.Accounts :=
  h.congr (by simp) (by simp) (by simp)

theorem ledger_setFile (h : ∀ k, (s.logFiles k).Ledger) {f : LogFileInstance} (hf : f.Ledger)
    (k : LogLevel) : ((s.setFile l f).logFiles k).Ledger := by
  by_cases hk : k = l
  · rw [hk, setFile_self]
    exact hf
  · rw [setFile_ne _ _ _ hk]
    exact h k

theorem total_setFile (s : Daemon) (l : LogLevel) (f : LogFileInstance) :
    (LogLevel.total fun k => ((s.setFile l f).logFiles k).held) + (s.logFiles l).held =
      (LogLevel.total fun k => (s.logFiles k).held) + f.held := by
  have h := LogLevel.total_change (fun k => (s.logFiles k).held)
    (fun k => ((s.setFile l f).logFiles k).held) l (fun k hk => by rw [setFile_ne _ _ _ hk])
  simpa only [setFile_self] using h

/-- A step of a writer that keeps what its level holds. -/
theorem Accounts.setFile (h : s.Accounts) {f : LogFileInstance} (hf : f.Ledger)
    (hheld : f.held = (s.logFiles l).held) : (s.setFile l f).Accounts where
  limit := h.limit
  ledger := ledger_setFile h.ledger hf
  exact := by
    have hsum := total_setFile s l f
    have hexact := h.exact
    show s.iPendingBytes = _
    omega
  bounded := h.bounded

theorem Accounts.accept (h : s.Accounts) {x : Log} (hspace : x.size ≤ s.space) :
    (s.accept l x).Accounts where
  limit := h.limit
  ledger := ledger_setFile h.ledger ((h.ledger l).addLog x)
  exact := by
    have hsum := total_setFile s l ((s.logFiles l).addLog x)
    have hheld := LogFileInstance.held_addLog (s.logFiles l) x
    have hexact := h.exact
    show s.iPendingBytes + x.size = LogLevel.total fun k =>
      ((s.setFile l ((s.logFiles l).addLog x)).logFiles k).held
    omega
  bounded := by
    have hbound := h.bounded
    rw [space] at hspace
    show s.iPendingBytes + x.size ≤ s.iMaxPendingBytes
    omega

/-- **`CompleteWrite` never underflows.** -/
theorem Accounts.bytes_le (h : s.Accounts) (l : LogLevel) :
    (s.logFiles l).writer.bytes ≤ s.iPendingBytes := by
  have hle := LogLevel.le_total (fun k => (s.logFiles k).held) l
  have hexact := h.exact
  simp only [LogFileInstance.held] at hle hexact
  omega

theorem Accounts.completeWrite (h : s.Accounts) {n : Nat}
    (hw : (s.logFiles l).writer = .completing n) :
    ((s.setFile l (s.logFiles l).finish).completeWrite n).Accounts := by
  obtain ⟨hledger, hheld⟩ := (h.ledger l).finish hw
  have hsum := total_setFile s l (s.logFiles l).finish
  have hexact := h.exact
  have hbound := h.bounded
  rw [Daemon.completeWrite]
  refine Accounts.scheduleResume ⟨h.limit, ledger_setFile h.ledger hledger, ?_, ?_⟩
  · show s.iPendingBytes - n = LogLevel.total fun k =>
      ((s.setFile l (s.logFiles l).finish).logFiles k).held
    omega
  · show s.iPendingBytes - n ≤ s.iMaxPendingBytes
    omega

theorem Accounts.init {iLimit : Nat} (h : Daemon.init iLimit = some s) : s.Accounts := by
  rw [Daemon.init] at h
  split at h
  · exact absurd h (Option.some_ne_none s).symm
  · next hlimit =>
      obtain rfl := Option.some.inj h
      exact ⟨Nat.not_lt.1 hlimit, fun _ => LogFileInstance.ledger_empty, rfl, Nat.zero_le _⟩

end Daemon

end OpenIdea.Logd
