import Mathlib.Tactic
import Grebe.Lib.Lts

/-!
# Grebe.ProcessHandle — the child process of the viewer

A `ProcessHandle` has the pid of its child, and says that it has exited once `waitpid` has told so.  `Kernel` is what the
system knows: which processes have which pid, ours among them, which of our children have been waited for, and which
descriptors are open.  A pid is free again after that, and may then be that of anything.  The branch for POSIX systems is
modelled, a wait may be interrupted, and a child may end at any time.

* `spawnWithPipes_fds`: the descriptors of the pipes.
* `signals_ours`: no signal goes to anything but a child that has not been waited for, and none is waited for twice.
* `leakless_iff`: exactly when every child that has not been waited for belongs to a handle.
-/

namespace Grebe

open Lib

/-! ## The system -/

section Kernel

/-- What `waitpid` tells about a child. -/
inductive ExitStatus
  | exited (code : UInt8)
  | signaled
deriving DecidableEq

/-- `WIFEXITED(status) ? WEXITSTATUS(status) : -1` -/
def ExitStatus.code : ExitStatus → ℤ
  | .exited code => code.toNat
  | .signaled => -1

/-- A process with a pid: a child of ours, by its number, with its status if it has ended, or any other. -/
inductive Process
  | child (id : ℕ) (status : Option ExitStatus)
  | other
deriving DecidableEq

structure Kernel where
  table : ℕ → Option Process
  /-- our children so far -/
  forked : ℕ
  /-- the open descriptors of the viewer -/
  fds : Multiset ℕ
  /-- history: to what each signal went -/
  signals : List (Option Process)
  /-- history: the children that have been waited for -/
  reaped : List (ℕ × ExitStatus)

inductive WaitResult
  | running
  | exited (status : ExitStatus)
  | error
deriving DecidableEq

namespace Kernel

variable (k : Kernel)

/-- `waitpid`, if it does not block: a child that has ended is gone after it. -/
def waitpid (pid : ℕ) : WaitResult × Kernel :=
  match k.table pid with
  | some (.child _ none) => (.running, k)
  | some (.child id (some status)) =>
    (.exited status, { k with table := Function.update k.table pid none, reaped := k.reaped ++ [(id, status)] })
  | _ => (.error, k)

/-- `kill` -/
def kill (pid : ℕ) : Kernel := { k with signals := k.signals ++ [k.table pid] }

/-- `fork`, in the parent -/
def fork (pid : ℕ) : Kernel :=
  { k with table := Function.update k.table pid (some (.child k.forked none)), forked := k.forked + 1 }

/-- A process ends: a child stays until it is waited for. -/
def ends (pid : ℕ) (status : ExitStatus) : Kernel :=
  match k.table pid with
  | some (.child id none) => { k with table := Function.update k.table pid (some (.child id (some status))) }
  | some .other => { k with table := Function.update k.table pid none }
  | _ => k

/-- `pipe`: its read end and its write end -/
def pipe (ends : ℕ × ℕ) : Kernel := { k with fds := ends.1 ::ₘ ends.2 ::ₘ k.fds }

def close (fd : ℕ) : Kernel := { k with fds := k.fds.erase fd }

end Kernel

end Kernel

/-! ## The handle -/

section Handle

structure ProcessHandle where
  pid : ℕ := 0
  exited : Bool := false
  exitCode : ℤ := 0
deriving DecidableEq

namespace ProcessHandle

variable (p : ProcessHandle) (k : Kernel)

/-- What `reset` makes of the handle. -/
def reset (_ : ProcessHandle) : ProcessHandle := {}

def exitedWith (status : ExitStatus) : ProcessHandle := { p with exited := true, exitCode := status.code }

def isAlive : Bool × ProcessHandle × Kernel :=
  if p.pid = 0 ∨ p.exited then (false, p, k)
  else
    match k.waitpid p.pid with
    | (.running, k) => (true, p, k)
    | (.exited status, k) => (false, p.exitedWith status, k)
    | (.error, k) => (false, p, k)

/-- `wait`; `none`: it blocks. -/
def wait (interrupted : Bool) : Option (ℤ × ProcessHandle × Kernel) :=
  if p.pid = 0 ∨ p.exited ∨ interrupted then some (p.exitCode, p, k)
  else
    match k.waitpid p.pid with
    | (.running, _) => none
    | (.exited status, k) => some (status.code, p.exitedWith status, k)
    | (.error, k) => some (p.exitCode, p, k)

def tryWait : ℤ × ProcessHandle × Kernel :=
  if p.pid = 0 ∨ p.exited then (p.exitCode, p, k)
  else
    match k.waitpid p.pid with
    | (.exited status, k) => (status.code, p.exitedWith status, k)
    | (_, k) => (-1, p, k)

def terminate : Kernel := if p.pid > 0 ∧ p.exited = false then k.kill p.pid else k

/-- The beginning of the destructor and of the move assignment: a child that still runs is told to end, ends with
`status`, and is waited for, unless the wait is interrupted. -/
def shutDown (status : ExitStatus) (interrupted : Bool) : ProcessHandle × Kernel :=
  match p.isAlive k with
  | (false, p, k) => (p, k)
  | (true, p, k) =>
    let k := (p.terminate k).ends p.pid status
    match p.wait k interrupted with
    | some (_, p, k) => (p, k)
    | none => (p, k)

/-- `spawn`; `child`: what `fork` returns, if it does not fail. -/
def spawn (child : Option ℕ) : Bool × ProcessHandle × Kernel :=
  match child with
  | none => (false, p.reset, k)
  | some pid => (true, { p.reset with pid := pid }, k.fork pid)

/-- `spawn_with_pipes`; `stdinPipe` and `stdoutPipe`: what `pipe` returns, if it does not fail.  The two descriptors of
the result are `child_stdin_write_fd` and `child_stdout_read_fd`. -/
def spawnWithPipes (stdinPipe stdoutPipe : Option (ℕ × ℕ)) (child : Option ℕ) :
    Bool × Option (ℕ × ℕ) × ProcessHandle × Kernel :=
  match stdinPipe with
  | none => (false, none, p.reset, k)
  | some stdinPipe =>
    let k := k.pipe stdinPipe
    match stdoutPipe with
    | none => (false, none, p.reset, (k.close stdinPipe.1).close stdinPipe.2)
    | some stdoutPipe =>
      let k := k.pipe stdoutPipe
      match child with
      | none =>
        (false, none, p.reset,
          (((k.close stdinPipe.1).close stdinPipe.2).close stdoutPipe.1).close stdoutPipe.2)
      | some pid =>
        (true, some (stdinPipe.2, stdoutPipe.1), { p.reset with pid := pid },
          ((k.fork pid).close stdinPipe.1).close stdoutPipe.2)

end ProcessHandle

end Handle

/-! ## What a call does -/

namespace ProcessHandle

section Calls

variable {p : ProcessHandle} {k : Kernel}

/-- The handle has a child that it has not waited for. -/
def Holding (p : ProcessHandle) : Prop := p.pid ≠ 0 ∧ p.exited = false

instance : Decidable p.Holding := inferInstanceAs (Decidable (_ ∧ _))

theorem not_holding_iff : (p.pid = 0 ∨ p.exited = true) ↔ ¬ p.Holding := by
  rw [Holding, not_and_or, not_not, Bool.not_eq_false]

/-- A held pid is that of a child of ours. -/
def Valid (p : ProcessHandle) (k : Kernel) : Prop :=
  p.Holding → ∃ id status, k.table p.pid = some (.child id status)

/-- What `is_alive`, `wait` and `try_wait` do: nothing, or they wait for a child that has ended. -/
inductive Waits (p : ProcessHandle) (k : Kernel) : ProcessHandle → Kernel → Prop
  | nothing : Waits p k p k
  | reap (id : ℕ) (status : ExitStatus) (hold : p.Holding) (ended : k.table p.pid = some (.child id (some status))) :
      Waits p k (p.exitedWith status)
        { k with table := Function.update k.table p.pid none, reaped := k.reaped ++ [(id, status)] }

theorem waitpid_cases (hvalid : p.Valid k) (hold : p.Holding) :
    (∃ id, k.table p.pid = some (.child id none) ∧ k.waitpid p.pid = (.running, k)) ∨
      ∃ id status, k.table p.pid = some (.child id (some status)) ∧ k.waitpid p.pid =
        (.exited status,
          { k with table := Function.update k.table p.pid none, reaped := k.reaped ++ [(id, status)] }) := by
  obtain ⟨id, status, hchild⟩ := hvalid hold
  cases status with
  | none => exact .inl ⟨id, hchild, by rw [Kernel.waitpid, hchild]⟩
  | some status => exact .inr ⟨id, status, hchild, by rw [Kernel.waitpid, hchild]⟩

/-- **`is_alive`**: a child that runs is alive, and one that has ended is waited for. -/
theorem isAlive_cases (hvalid : p.Valid k) :
    (p.isAlive k = (true, p, k) ∧ p.Holding ∧ ∃ id, k.table p.pid = some (.child id none)) ∨
      (p.isAlive k).1 = false ∧ ¬ (p.isAlive k).2.1.Holding ∧ Waits p k (p.isAlive k).2.1 (p.isAlive k).2.2 := by
  by_cases hold : p.Holding
  · have hnot : ¬ (p.pid = 0 ∨ p.exited = true) := fun h => not_holding_iff.mp h hold
    obtain ⟨id, hchild, hwait⟩ | ⟨id, status, hchild, hwait⟩ := waitpid_cases hvalid hold
    · left
      refine ⟨?_, hold, id, hchild⟩
      rw [isAlive, if_neg hnot, hwait]
    · right
      rw [isAlive, if_neg hnot, hwait]
      exact ⟨rfl, fun h => Bool.noConfusion h.2, .reap id status hold hchild⟩
  · right
    rw [isAlive, if_pos (not_holding_iff.mpr hold)]
    exact ⟨rfl, hold, .nothing⟩

theorem wait_cases (hvalid : p.Valid k) {interrupted : Bool} {r : ℤ × ProcessHandle × Kernel}
    (h : p.wait k interrupted = some r) : Waits p k r.2.1 r.2.2 ∧
      (interrupted = false → ¬ r.2.1.Holding ∧ r.1 = r.2.1.exitCode) := by
  unfold wait at h
  split at h
  · rename_i hskip
    cases h
    refine ⟨.nothing, fun hint => ⟨?_, rfl⟩⟩
    rw [hint] at hskip
    exact not_holding_iff.mp (hskip.imp_right fun h => h.resolve_right Bool.false_ne_true)
  · rename_i hgo
    rw [not_or, not_or] at hgo
    have hold : p.Holding := ⟨hgo.1, Bool.eq_false_of_not_eq_true hgo.2.1⟩
    obtain ⟨id, hchild, hwait⟩ | ⟨id, status, hchild, hwait⟩ := waitpid_cases hvalid hold
    · rw [hwait] at h
      cases h
    · rw [hwait] at h
      cases h
      exact ⟨.reap id status hold hchild, fun _ => ⟨fun h => Bool.noConfusion h.2, rfl⟩⟩

theorem tryWait_cases (hvalid : p.Valid k) : Waits p k (p.tryWait k).2.1 (p.tryWait k).2.2 := by
  by_cases hold : p.Holding
  · have hnot : ¬ (p.pid = 0 ∨ p.exited = true) := fun h => not_holding_iff.mp h hold
    obtain ⟨id, hchild, hwait⟩ | ⟨id, status, hchild, hwait⟩ := waitpid_cases hvalid hold
    · rw [tryWait, if_neg hnot, hwait]
      exact .nothing
    · rw [tryWait, if_neg hnot, hwait]
      exact .reap id status hold hchild
  · rw [tryWait, if_pos (not_holding_iff.mpr hold)]
    exact .nothing

/-- A signal goes to the child that is held. -/
theorem terminate_eq (p : ProcessHandle) (k : Kernel) :
    p.terminate k = if p.Holding then k.kill p.pid else k := by
  rw [terminate]
  exact if_congr (and_congr_left' Nat.pos_iff_ne_zero) rfl rfl

/-- **The destructor and the move assignment**: a child that runs gets a signal and ends, and whatever has ended is
waited for, unless that wait is interrupted. -/
theorem shutDown_cases (hvalid : p.Valid k) (status : ExitStatus) (interrupted : Bool) :
    (¬ (p.shutDown k status interrupted).1.Holding ∧
      Waits p k (p.shutDown k status interrupted).1 (p.shutDown k status interrupted).2 ∧
      ∀ id, p.Holding → k.table p.pid ≠ some (.child id none)) ∨
    (p.Holding ∧ (∃ id, k.table p.pid = some (.child id none)) ∧
      Waits p ((k.kill p.pid).ends p.pid status) (p.shutDown k status interrupted).1
        (p.shutDown k status interrupted).2 ∧
      ((p.shutDown k status interrupted).1.Holding ↔ interrupted = true)) := by
  obtain ⟨halive, hold, id, hchild⟩ | ⟨hdead, hnot, hwaits⟩ := isAlive_cases hvalid
  · right
    have hends : (k.kill p.pid).ends p.pid status =
        { k.kill p.pid with table := Function.update k.table p.pid (some (.child id (some status))) } := by
      have hkilled : (k.kill p.pid).table p.pid = some (.child id none) := hchild
      rw [Kernel.ends, hkilled]
      rfl
    have hended : ((k.kill p.pid).ends p.pid status).table p.pid = some (.child id (some status)) := by
      rw [hends]
      exact Function.update_self ..
    have hnot : ¬ (p.pid = 0 ∨ p.exited = true ∨ false = true) := by
      rintro (h | h | h)
      · exact hold.1 h
      · exact Bool.noConfusion (h.symm.trans hold.2)
      · cases h
    refine ⟨hold, ⟨id, hchild⟩, ?_⟩
    unfold shutDown
    rw [halive]
    dsimp only
    rw [terminate_eq, if_pos hold]
    cases interrupted with
    | false =>
      rw [wait, if_neg hnot, Kernel.waitpid, hended]
      exact ⟨.reap id status hold hended, ⟨fun h => Bool.noConfusion h.2, fun h => by cases h⟩⟩
    | true =>
      rw [wait, if_pos (.inr (.inr rfl))]
      exact ⟨.nothing, ⟨fun _ => rfl, fun _ => hold⟩⟩
  · left
    have hresult : p.shutDown k status interrupted = ((p.isAlive k).2.1, (p.isAlive k).2.2) := by
      unfold shutDown
      split
      · rename_i heq
        rw [heq]
      · rename_i heq
        rw [heq] at hdead
        cases hdead
    rw [hresult]
    refine ⟨hnot, hwaits, ?_⟩
    intro id hold hchild
    have halive : p.isAlive k = (true, p, k) := by
      have hskip : ¬ (p.pid = 0 ∨ p.exited = true) := fun h => not_holding_iff.mp h hold
      rw [isAlive, if_neg hskip, Kernel.waitpid, hchild]
    rw [halive] at hdead
    cases hdead

/-- **The descriptors of `spawn_with_pipes`**: whichever call fails, those that were opened are closed again; and after a
success there are the two that the caller gets. -/
theorem spawnWithPipes_fds (p : ProcessHandle) (k : Kernel) (stdinPipe stdoutPipe : Option (ℕ × ℕ))
    (child : Option ℕ) {success : Bool} {fds : Option (ℕ × ℕ)} {p' : ProcessHandle} {k' : Kernel}
    (h : p.spawnWithPipes k stdinPipe stdoutPipe child = (success, fds, p', k')) :
    success = fds.isSome ∧ k'.fds = k.fds + fds.elim 0 fun fds => {fds.1, fds.2} := by
  cases stdinPipe with
  | none =>
    cases h
    exact ⟨rfl, (add_zero _).symm⟩
  | some stdinPipe =>
    cases stdoutPipe with
    | none =>
      cases h
      refine ⟨rfl, ?_⟩
      show ((stdinPipe.1 ::ₘ stdinPipe.2 ::ₘ k.fds).erase stdinPipe.1).erase stdinPipe.2 = k.fds + 0
      rw [Multiset.erase_cons_head, Multiset.erase_cons_head, add_zero]
    | some stdoutPipe =>
      cases child with
      | none =>
        cases h
        refine ⟨rfl, ?_⟩
        show ((((stdoutPipe.1 ::ₘ stdoutPipe.2 ::ₘ stdinPipe.1 ::ₘ stdinPipe.2 ::ₘ k.fds).erase stdinPipe.1).erase
          stdinPipe.2).erase stdoutPipe.1).erase stdoutPipe.2 = k.fds + 0
        rw [Multiset.erase_comm _ stdinPipe.2, Multiset.erase_comm _ stdinPipe.1, Multiset.erase_cons_head,
          Multiset.erase_comm _ stdinPipe.2, Multiset.erase_comm _ stdinPipe.1, Multiset.erase_cons_head,
          Multiset.erase_cons_head, Multiset.erase_cons_head, add_zero]
      | some pid =>
        cases h
        refine ⟨rfl, ?_⟩
        show ((stdoutPipe.1 ::ₘ stdoutPipe.2 ::ₘ stdinPipe.1 ::ₘ stdinPipe.2 ::ₘ k.fds).erase stdinPipe.1).erase
          stdoutPipe.2 = k.fds + {stdinPipe.2, stdoutPipe.1}
        rw [Multiset.erase_comm, Multiset.cons_swap stdoutPipe.1, Multiset.erase_cons_head,
          Multiset.cons_swap stdoutPipe.1, Multiset.erase_cons_head, Multiset.insert_eq_cons, add_comm,
          Multiset.cons_add, Multiset.singleton_add, Multiset.cons_swap]

/-- What `spawn_with_pipes` does, but for the descriptors: a failure leaves a handle without a child. -/
theorem spawnWithPipes_cases (p : ProcessHandle) (k : Kernel) (stdinPipe stdoutPipe : Option (ℕ × ℕ))
    (child : Option ℕ) : ∃ fds,
      (p.spawnWithPipes k stdinPipe stdoutPipe child).2.2 = (p.reset, { k with fds := fds }) ∨
        ∃ pid, child = some pid ∧ (p.spawnWithPipes k stdinPipe stdoutPipe child).2.2 =
          ({ p.reset with pid := pid }, ({ k with fds := fds } : Kernel).fork pid) := by
  cases stdinPipe with
  | none => exact ⟨k.fds, .inl rfl⟩
  | some stdinPipe =>
    cases stdoutPipe with
    | none => exact ⟨_, .inl rfl⟩
    | some stdoutPipe =>
      cases child with
      | none => exact ⟨_, .inl rfl⟩
      | some pid =>
        exact ⟨(((k.pipe stdinPipe).pipe stdoutPipe).fds.erase stdinPipe.1).erase stdoutPipe.2, .inr ⟨pid, rfl, rfl⟩⟩

end Calls

end ProcessHandle

/-! ## The system, step by step -/

namespace Kernel

section Ok

variable {k : Kernel} {pid id : ℕ} {status : ExitStatus}

/-- The pids of our children. -/
def children (k : Kernel) : Set ℕ := { pid | ∃ id status, k.table pid = some (.child id status) }

/-- A child has one pid, until it has been waited for, once; and signals went to children. -/
structure Ok (k : Kernel) : Prop where
  numbered : ∀ pid id status, k.table pid = some (.child id status) → id < k.forked ∧ id ∉ k.reaped.map Prod.fst
  distinct : ∀ pid pid' id status status', k.table pid = some (.child id status) →
    k.table pid' = some (.child id status') → pid = pid'
  reaped : (k.reaped.map Prod.fst).Nodup ∧ ∀ r ∈ k.reaped, r.1 < k.forked
  signals : ∀ target ∈ k.signals, ∃ id status, target = some (.child id status)

theorem Ok.kill (h : k.Ok) (hpid : pid ∈ k.children) : (k.kill pid).Ok := by
  refine ⟨h.numbered, h.distinct, h.reaped, ?_⟩
  intro target htarget
  obtain htarget | htarget := List.mem_append.mp htarget
  · exact h.signals target htarget
  · obtain rfl := List.mem_singleton.mp htarget
    exact hpid

theorem children_kill (k : Kernel) (pid : ℕ) : (k.kill pid).children = k.children := rfl

/-- A child that ends stays a child. -/
theorem ends_cases (k : Kernel) (pid : ℕ) (status : ExitStatus) :
    (∃ id, k.table pid = some (.child id none) ∧
      k.ends pid status = { k with table := Function.update k.table pid (some (.child id (some status))) }) ∨
    (k.table pid = some .other ∧ k.ends pid status = { k with table := Function.update k.table pid none }) ∨
    k.ends pid status = k := by
  unfold ends
  split
  · rename_i id hchild
    exact .inl ⟨id, hchild, rfl⟩
  · rename_i hother
    exact .inr (.inl ⟨hother, rfl⟩)
  · exact .inr (.inr rfl)

/-- An entry that is no child, or still the same child, changes nothing. -/
theorem children_update {entry : Option Process}
    (h : (∃ id status, entry = some (.child id status)) ↔ ∃ id status, k.table pid = some (.child id status)) :
    ({ k with table := Function.update k.table pid entry } : Kernel).children = k.children := by
  ext pid'
  show (∃ id status, Function.update k.table pid entry pid' = _) ↔ _
  by_cases hpid : pid' = pid
  · subst hpid
    rw [Function.update_self]
    exact h
  · rw [Function.update_of_ne hpid]
    rfl

theorem children_ends (k : Kernel) (pid : ℕ) (status : ExitStatus) : (k.ends pid status).children = k.children := by
  obtain ⟨id, hchild, hends⟩ | ⟨hother, hends⟩ | hends := k.ends_cases pid status
  · rw [hends]
    exact children_update ⟨fun _ => ⟨id, none, hchild⟩, fun _ => ⟨id, some status, rfl⟩⟩
  · rw [hends]
    exact children_update (by simp [hother])
  · rw [hends]

/-- An entry for a child that is there already, or for none. -/
theorem Ok.update (h : k.Ok) {entry : Option Process}
    (hentry : ∀ id status, entry = some (.child id status) → ∃ status', k.table pid = some (.child id status')) :
    ({ k with table := Function.update k.table pid entry } : Kernel).Ok := by
  have hold {pid' id : ℕ} {status : Option ExitStatus}
      (heq : Function.update k.table pid entry pid' = some (.child id status)) :
      ∃ status', k.table pid' = some (.child id status') := by
    by_cases hpid : pid' = pid
    · subst hpid
      rw [Function.update_self] at heq
      exact hentry id status heq
    · rw [Function.update_of_ne hpid] at heq
      exact ⟨status, heq⟩
  refine ⟨?_, ?_, h.reaped, h.signals⟩
  · intro pid' id status heq
    obtain ⟨status', hchild⟩ := hold heq
    exact h.numbered pid' id status' hchild
  · intro pid₁ pid₂ id status status' h₁ h₂
    obtain ⟨_, hchild₁⟩ := hold h₁
    obtain ⟨_, hchild₂⟩ := hold h₂
    exact h.distinct pid₁ pid₂ id _ _ hchild₁ hchild₂

theorem Ok.ends (h : k.Ok) (pid : ℕ) (status : ExitStatus) : (k.ends pid status).Ok := by
  obtain ⟨id, hchild, hends⟩ | ⟨-, hends⟩ | hends := k.ends_cases pid status
  · rw [hends]
    apply h.update
    rintro id' status' heq
    cases heq
    exact ⟨none, hchild⟩
  · rw [hends]
    exact h.update nofun
  · rwa [hends]

/-- A child that has ended is waited for. -/
theorem Ok.reap (h : k.Ok) {status : ExitStatus} (hended : k.table pid = some (.child id (some status))) :
    ({ k with table := Function.update k.table pid none, reaped := k.reaped ++ [(id, status)] } : Kernel).Ok := by
  have hcleared : ({ k with table := Function.update k.table pid none } : Kernel).Ok := h.update nofun
  obtain ⟨hlt, hnot⟩ := h.numbered _ _ _ hended
  refine ⟨?_, hcleared.distinct, ⟨?_, ?_⟩, h.signals⟩
  · intro pid' id' status' hchild
    refine ⟨(hcleared.numbered pid' id' status' hchild).1, ?_⟩
    rw [List.map_append, List.mem_append, not_or]
    refine ⟨(hcleared.numbered pid' id' status' hchild).2, ?_⟩
    simp only [List.map_cons, List.map_nil, List.mem_singleton]
    rintro rfl
    -- another pid would be that of the same child
    have hchild' : Function.update k.table pid none pid' = some (.child id' status') := hchild
    have hne : pid' ≠ pid := by
      rintro rfl
      rw [Function.update_self] at hchild'
      cases hchild'
    rw [Function.update_of_ne hne] at hchild'
    exact hne (h.distinct _ _ _ _ _ hchild' hended)
  · rw [List.map_append]
    refine List.nodup_append.mpr ⟨h.reaped.1, List.nodup_singleton _, ?_⟩
    rintro a ha b hb rfl
    obtain rfl := List.mem_singleton.mp hb
    exact hnot ha
  · intro r hr
    obtain hr | hr := List.mem_append.mp hr
    · exact h.reaped.2 r hr
    · obtain rfl := List.mem_singleton.mp hr
      exact hlt

theorem children_clear (k : Kernel) (pid : ℕ) (reaped : List (ℕ × ExitStatus)) :
    ({ k with table := Function.update k.table pid none, reaped := reaped } : Kernel).children =
      k.children \ {pid} := by
  ext pid'
  show (∃ id status, Function.update k.table pid none pid' = _) ↔ _ ∧ pid' ≠ pid
  by_cases hpid : pid' = pid
  · subst hpid
    simp
  · rw [Function.update_of_ne hpid]
    exact ⟨fun h => ⟨h, hpid⟩, fun h => h.1⟩

/-- A new child. -/
theorem Ok.fork (h : k.Ok) (hfree : k.table pid = none) : (k.fork pid).Ok := by
  have hcases {pid' id : ℕ} {status : Option ExitStatus}
      (heq : (k.fork pid).table pid' = some (.child id status)) :
      (pid' = pid ∧ id = k.forked) ∨ (pid' ≠ pid ∧ k.table pid' = some (.child id status)) := by
    by_cases hpid : pid' = pid
    · subst hpid
      rw [show (k.fork pid').table pid' = _ from Function.update_self ..] at heq
      cases heq
      exact .inl ⟨rfl, rfl⟩
    · rw [show (k.fork pid).table pid' = k.table pid' from Function.update_of_ne hpid ..] at heq
      exact .inr ⟨hpid, heq⟩
  refine ⟨?_, ?_, ⟨h.reaped.1, fun r hr => Nat.lt_succ_of_lt (h.reaped.2 r hr)⟩, h.signals⟩
  · intro pid' id status heq
    obtain ⟨-, rfl⟩ | ⟨-, hchild⟩ := hcases heq
    · refine ⟨Nat.lt_succ_self _, fun hmem => ?_⟩
      obtain ⟨r, hr, heq⟩ := List.mem_map.mp hmem
      exact absurd (h.reaped.2 r hr) (heq ▸ Nat.lt_irrefl _)
    · exact ⟨Nat.lt_succ_of_lt (h.numbered _ _ _ hchild).1, (h.numbered _ _ _ hchild).2⟩
  · intro pid₁ pid₂ id status status' h₁ h₂
    obtain ⟨rfl, rfl⟩ | ⟨-, hchild₁⟩ := hcases h₁
    · obtain ⟨rfl, -⟩ | ⟨-, hchild₂⟩ := hcases h₂
      · rfl
      · exact absurd (h.numbered _ _ _ hchild₂).1 (Nat.lt_irrefl _)
    · obtain ⟨-, rfl⟩ | ⟨-, hchild₂⟩ := hcases h₂
      · exact absurd (h.numbered _ _ _ hchild₁).1 (Nat.lt_irrefl _)
      · exact h.distinct _ _ _ _ _ hchild₁ hchild₂

theorem children_fork (k : Kernel) (pid : ℕ) : (k.fork pid).children = k.children ∪ {pid} := by
  ext pid'
  show (∃ id status, Function.update k.table pid _ pid' = _) ↔ _ ∨ pid' = pid
  by_cases hpid : pid' = pid
  · subst hpid
    rw [Function.update_self]
    exact ⟨fun _ => .inr rfl, fun _ => ⟨_, _, rfl⟩⟩
  · rw [Function.update_of_ne hpid]
    exact ⟨.inl, fun h => h.resolve_right hpid⟩

/-- The descriptors are no matter of the children. -/
theorem Ok.fds (h : k.Ok) (fds : Multiset ℕ) : ({ k with fds := fds } : Kernel).Ok :=
  ⟨h.numbered, h.distinct, h.reaped, h.signals⟩

end Ok

end Kernel

/-! ## Who holds which child -/

namespace ProcessHandle

section Held

/-- The pid that a handle holds. -/
def held (p : Option ProcessHandle) : Set ℕ := { pid | ∃ q ∈ p, q.Holding ∧ q.pid = pid }

/-- The pids that these handles hold. -/
def allHeld (handles : ℕ → Option ProcessHandle) : Set ℕ := { pid | ∃ h, pid ∈ held (handles h) }

/-- No pid is held twice. -/
def HeldOnce (handles : ℕ → Option ProcessHandle) : Prop :=
  ∀ h h' pid, pid ∈ held (handles h) → pid ∈ held (handles h') → h = h'

variable {handles : ℕ → Option ProcessHandle} {h : ℕ} {p : Option ProcessHandle}

@[simp] theorem held_none : held none = ∅ := by
  ext pid
  simp [held]

@[simp] theorem held_some (p : ProcessHandle) : held (some p) = if p.Holding then {p.pid} else ∅ := by
  ext pid
  by_cases hold : p.Holding <;> simp [held, hold, eq_comm]

theorem not_holding_reset (p : ProcessHandle) : ¬ p.reset.Holding := fun h => h.1 rfl

/-- What the other handles hold does not change. -/
theorem allHeld_update (honce : HeldOnce handles) (h : ℕ) (p : Option ProcessHandle) :
    allHeld (Function.update handles h p) = (allHeld handles \ held (handles h)) ∪ held p := by
  ext pid
  constructor
  · rintro ⟨h', hmem⟩
    by_cases hh : h' = h
    · subst hh
      rw [Function.update_self] at hmem
      exact .inr hmem
    · rw [Function.update_of_ne hh] at hmem
      exact .inl ⟨⟨h', hmem⟩, fun hmem' => hh (honce _ _ _ hmem hmem')⟩
  · rintro (⟨⟨h', hmem⟩, hnot⟩ | hmem)
    · have hh : h' ≠ h := by
        rintro rfl
        exact hnot hmem
      exact ⟨h', by rwa [Function.update_of_ne hh]⟩
    · exact ⟨h, by rwa [Function.update_self]⟩

/-- A handle may take what no other one holds. -/
theorem HeldOnce.update (honce : HeldOnce handles) (hnew : ∀ h' ≠ h, ∀ pid ∈ held p, pid ∉ held (handles h')) :
    HeldOnce (Function.update handles h p) := by
  intro h₁ h₂ pid hmem₁ hmem₂
  by_cases hh₁ : h₁ = h
  · by_cases hh₂ : h₂ = h
    · rw [hh₁, hh₂]
    · rw [hh₁, Function.update_self] at hmem₁
      rw [Function.update_of_ne hh₂] at hmem₂
      exact absurd hmem₂ (hnew h₂ hh₂ pid hmem₁)
  · rw [Function.update_of_ne hh₁] at hmem₁
    by_cases hh₂ : h₂ = h
    · rw [hh₂, Function.update_self] at hmem₂
      exact absurd hmem₁ (hnew h₁ hh₁ pid hmem₂)
    · rw [Function.update_of_ne hh₂] at hmem₂
      exact honce h₁ h₂ pid hmem₁ hmem₂

end Held

end ProcessHandle

/-! ## Runs -/

/-- The handles that exist, and the system. -/
structure Processes where
  handles : ℕ → Option ProcessHandle
  kernel : Kernel

namespace Processes

section Steps

inductive Label
  | construct (h : ℕ)
  | moveConstruct (h other : ℕ)
  | moveAssign (h other : ℕ) (status : ExitStatus) (interrupted : Bool)
  | destroy (h : ℕ) (status : ExitStatus) (interrupted : Bool)
  | spawn (h : ℕ) (child : Option ℕ)
  | spawnWithPipes (h : ℕ) (stdinPipe stdoutPipe : Option (ℕ × ℕ)) (child : Option ℕ)
  | isAlive (h : ℕ)
  | wait (h : ℕ) (interrupted : Bool)
  | tryWait (h : ℕ)
  | terminate (h : ℕ)
  /-- a process ends -/
  | ends (pid : ℕ) (status : ExitStatus)
  /-- a process begins that is no child of ours -/
  | begins (pid : ℕ)
deriving DecidableEq

variable (s : Processes)

/-- `fork` gives a pid that is free. -/
def free (child : Option ℕ) : Bool := child.all fun pid => pid ≠ 0 ∧ s.kernel.table pid = none

/-- The handle `h` and the system after a call. -/
def put (h : ℕ) (r : ProcessHandle × Kernel) : Processes :=
  { handles := Function.update s.handles h (some r.1), kernel := r.2 }

def step : Label → Option Processes
  | .construct h => if (s.handles h).isNone then some (s.put h ({}, s.kernel)) else none
  | .moveConstruct h other =>
    (s.handles other).bind fun q =>
      if (s.handles h).isNone then some ((s.put h (q, s.kernel)).put other (q.reset, s.kernel)) else none
  | .moveAssign h other status interrupted =>
    (s.handles h).bind fun p =>
      (s.handles other).map fun q =>
        if h = other then s
        else
          let k := (p.shutDown s.kernel status interrupted).2
          (s.put h (q, k)).put other (q.reset, k)
  | .destroy h status interrupted =>
    (s.handles h).map fun p =>
      { handles := Function.update s.handles h none, kernel := (p.shutDown s.kernel status interrupted).2 }
  | .spawn h child =>
    (s.handles h).bind fun p => if s.free child then some (s.put h (p.spawn s.kernel child).2) else none
  | .spawnWithPipes h stdinPipe stdoutPipe child =>
    (s.handles h).bind fun p =>
      if s.free child then some (s.put h (p.spawnWithPipes s.kernel stdinPipe stdoutPipe child).2.2) else none
  | .isAlive h => (s.handles h).map fun p => s.put h (p.isAlive s.kernel).2
  | .wait h interrupted => (s.handles h).bind fun p => (p.wait s.kernel interrupted).map fun r => s.put h r.2
  | .tryWait h => (s.handles h).map fun p => s.put h (p.tryWait s.kernel).2
  | .terminate h => (s.handles h).map fun p => { s with kernel := p.terminate s.kernel }
  | .ends pid status => some { s with kernel := s.kernel.ends pid status }
  | .begins pid =>
    if (s.kernel.table pid).isNone then
      some { s with kernel := { s.kernel with table := Function.update s.kernel.table pid (some .other) } }
    else none

/-- No handle, and no child yet. -/
def Started (s : Processes) : Prop :=
  s.handles = (fun _ => none) ∧ (∀ pid id status, s.kernel.table pid ≠ some (.child id status)) ∧
    s.kernel.signals = [] ∧ s.kernel.reaped = []

def processes : Lts Processes Label where
  init := Started
  step := step

end Steps

/-! ## What holds in every run -/

section Invariant

open ProcessHandle

variable {s s' : Processes} {p p' : ProcessHandle} {k' : Kernel} {h : ℕ}

/-- What holds of every reachable state. -/
structure Inv (s : Processes) : Prop where
  kernel : s.kernel.Ok
  once : HeldOnce s.handles
  /-- what is held is a child -/
  children : allHeld s.handles ⊆ s.kernel.children
  codes : ∀ h p, s.handles h = some p → p.exited = true →
    ∃ id status, (id, status) ∈ s.kernel.reaped ∧ p.exitCode = status.code

theorem inv_started (h : Started s) : s.Inv := by
  obtain ⟨hhandles, htable, hsignals, hreaped⟩ := h
  refine ⟨⟨?_, ?_, ?_, ?_⟩, ?_, ?_, ?_⟩
  · exact fun pid id status heq => absurd heq (htable pid id status)
  · exact fun pid _ id status _ heq => absurd heq (htable pid id status)
  · rw [hreaped]
    exact ⟨List.nodup_nil, fun r hr => by cases hr⟩
  · rw [hsignals]
    exact fun target htarget => by cases htarget
  · intro h h' pid hmem
    rw [hhandles, held_none] at hmem
    exact hmem.elim
  · rintro pid ⟨h, hmem⟩
    rw [hhandles, held_none] at hmem
    exact hmem.elim
  · intro h p hp
    rw [hhandles] at hp
    cases hp

/-- A handle of a state is valid. -/
theorem Inv.valid (hinv : s.Inv) (hp : s.handles h = some p) : p.Valid s.kernel := fun hold =>
  hinv.children ⟨h, by rw [hp]; exact ⟨p, rfl, hold, rfl⟩⟩

/-- Another value for one handle, and another system. -/
theorem Inv.replace (hinv : s.Inv) {o : Option ProcessHandle} (hkernel : k'.Ok)
    (hgrows : ∀ r ∈ s.kernel.reaped, r ∈ k'.reaped)
    (hcodes : ∀ p ∈ o, p.exited = true → ∃ id status, (id, status) ∈ k'.reaped ∧ p.exitCode = status.code)
    (hnew : ∀ h' ≠ h, ∀ pid ∈ held o, pid ∉ held (s.handles h')) (hheld : held o ⊆ k'.children)
    (hrest : allHeld s.handles \ held (s.handles h) ⊆ k'.children) :
    Inv { handles := Function.update s.handles h o, kernel := k' } := by
  refine ⟨hkernel, hinv.once.update hnew, ?_, ?_⟩
  · show allHeld (Function.update s.handles h o) ⊆ k'.children
    rw [allHeld_update hinv.once]
    exact Set.union_subset hrest hheld
  · intro h' p hp hexited
    have hp' : Function.update s.handles h o h' = some p := hp
    by_cases hh : h' = h
    · subst hh
      rw [Function.update_self] at hp'
      exact hcodes p hp' hexited
    · rw [Function.update_of_ne hh] at hp'
      obtain ⟨id, status, hmem, hcode⟩ := hinv.codes h' p hp' hexited
      exact ⟨id, status, hgrows _ hmem, hcode⟩

/-- **A wait**: a pid that is reaped is held no more, and is no child any more. -/
theorem Inv.waits (hinv : s.Inv) (hp : s.handles h = some p) (hwaits : Waits p s.kernel p' k') :
    Inv { handles := Function.update s.handles h (some p'), kernel := k' } ∧
      ∃ gone, gone ⊆ allHeld s.handles ∧ k'.children = s.kernel.children \ gone ∧
        allHeld (Function.update s.handles h (some p')) = allHeld s.handles \ gone := by
  cases hwaits with
  | nothing =>
    have hsame : Function.update s.handles h (some p) = s.handles := by rw [← hp, Function.update_eq_self]
    rw [hsame]
    exact ⟨hinv, ∅, Set.empty_subset _, by simp, by simp⟩
  | reap id status hold ended =>
    have hheld : held (s.handles h) = {p.pid} := by rw [hp, held_some, if_pos hold]
    have hnone : held (some (p.exitedWith status)) = ∅ := by
      rw [held_some, if_neg fun h => Bool.noConfusion h.2]
    have hchildren := Kernel.children_clear s.kernel p.pid (s.kernel.reaped ++ [(id, status)])
    refine ⟨hinv.replace (hinv.kernel.reap ended) (fun r hr => List.mem_append_left _ hr) ?_ ?_ ?_ ?_,
      {p.pid}, ?_, hchildren, ?_⟩
    · rintro q hq -
      obtain rfl := Option.some.inj hq
      exact ⟨id, status, List.mem_append_right _ List.mem_cons_self, rfl⟩
    · rw [hnone]
      exact fun _ _ _ hmem => hmem.elim
    · rw [hnone]
      exact Set.empty_subset _
    · rw [hheld, hchildren]
      exact Set.sdiff_subset_sdiff_left hinv.children
    · rw [Set.singleton_subset_iff]
      exact ⟨h, by rw [hheld]; exact rfl⟩
    · rw [allHeld_update hinv.once, hheld, hnone, Set.union_empty]

/-- **A handle that gives up what it has.** -/
theorem Inv.clear (hinv : s.Inv) {o : Option ProcessHandle} (ho : held o = ∅) (hexited : ∀ p ∈ o, p.exited = false) :
    Inv { handles := Function.update s.handles h o, kernel := s.kernel } ∧
      allHeld (Function.update s.handles h o) = allHeld s.handles \ held (s.handles h) := by
  refine ⟨hinv.replace hinv.kernel (fun _ hr => hr) ?_ ?_ ?_ ?_, ?_⟩
  · exact fun p hp hyes => absurd (hexited p hp) (by simp [hyes])
  · rw [ho]
    exact fun _ _ _ hmem => hmem.elim
  · rw [ho]
    exact Set.empty_subset _
  · exact fun pid hpid => hinv.children hpid.1
  · rw [allHeld_update hinv.once, ho, Set.union_empty]

/-- The same children, and the same histories of them. -/
theorem Inv.system (hinv : s.Inv) (hkernel : k'.Ok) (hchildren : k'.children = s.kernel.children)
    (hreaped : k'.reaped = s.kernel.reaped) : Inv { s with kernel := k' } := by
  refine ⟨hkernel, hinv.once, ?_, ?_⟩
  · rw [hchildren]
    exact hinv.children
  · rw [hreaped]
    exact hinv.codes

/-- **A new child**, held by a handle that has none. -/
theorem Inv.fork (hinv : s.Inv) (hnone : held (s.handles h) = ∅) {pid : ℕ} (hpid : pid ≠ 0)
    (hfree : s.kernel.table pid = none) :
    Inv { handles := Function.update s.handles h (some { pid := pid }), kernel := s.kernel.fork pid } ∧
      allHeld (Function.update s.handles h (some { pid := pid })) = allHeld s.handles ∪ {pid} := by
  have hheld : held (some { pid := pid }) = {pid} := by rw [held_some, if_pos ⟨hpid, rfl⟩]
  have hno : pid ∉ s.kernel.children := by
    rintro ⟨id, status, heq⟩
    rw [hfree] at heq
    cases heq
  have hchildren := s.kernel.children_fork pid
  refine ⟨hinv.replace (hinv.kernel.fork hfree) (fun _ hr => hr) ?_ ?_ ?_ ?_, ?_⟩
  · rintro q hq hexited
    obtain rfl := Option.some.inj hq
    cases hexited
  · rw [hheld]
    rintro h' - pid' rfl hmem
    exact hno (hinv.children ⟨h', hmem⟩)
  · rw [hheld, hchildren]
    exact Set.subset_union_right
  · rw [hnone, Set.sdiff_empty, hchildren]
    exact hinv.children.trans Set.subset_union_left
  · rw [allHeld_update hinv.once, hnone, Set.sdiff_empty, hheld]

/-- **What `other` has goes to `h`**: what `h` had is held no more. -/
theorem Inv.give (hinv : s.Inv) {other : ℕ} {q : ProcessHandle} (hq : s.handles other = some q) (hne : h ≠ other) :
    Inv { handles := Function.update (Function.update s.handles h (some q)) other (some q.reset), kernel := s.kernel } ∧
      allHeld (Function.update (Function.update s.handles h (some q)) other (some q.reset)) =
        allHeld s.handles \ held (s.handles h) := by
  have hreset : held (some q.reset) = ∅ := by rw [held_some, if_neg q.not_holding_reset]
  obtain ⟨hcleared, hheld⟩ := hinv.clear (h := other) (o := some q.reset) hreset (by rintro r hr; cases hr; rfl)
  rw [Function.update_comm hne]
  have hself : Function.update s.handles other (some q.reset) h = s.handles h := Function.update_of_ne hne ..
  have hdisjoint : held (some q) ∩ held (s.handles h) = ∅ := by
    rw [Set.eq_empty_iff_forall_notMem]
    rintro pid ⟨hmem, hmem'⟩
    exact hne (hinv.once h other pid hmem' (hq ▸ hmem))
  have hsub : held (some q) ⊆ allHeld s.handles := fun pid hpid => ⟨other, hq ▸ hpid⟩
  refine ⟨hcleared.replace hcleared.kernel (fun _ hr => hr) ?_ ?_ ?_ ?_, ?_⟩
  · rintro r hr hexited
    obtain rfl := Option.some.inj hr
    exact hinv.codes other q hq hexited
  · intro h' hh pid hpid
    show pid ∉ held (Function.update s.handles other (some q.reset) h')
    by_cases hother : h' = other
    · rw [hother, Function.update_self, hreset]
      exact id
    · rw [Function.update_of_ne hother]
      exact fun hmem => hother (hinv.once h' other pid hmem (hq ▸ hpid))
  · exact hsub.trans hinv.children
  · exact fun pid hpid => hcleared.children hpid.1
  · rw [allHeld_update hcleared.once]
    show allHeld (Function.update s.handles other _) \ held (Function.update s.handles other _ h) ∪ _ = _
    rw [hself, hheld, hq]
    ext pid
    constructor
    · rintro (⟨⟨hmem, -⟩, hnot⟩ | hmem)
      · exact ⟨hmem, hnot⟩
      · exact ⟨hsub hmem, fun hmem' => hdisjoint.le ⟨hmem, hmem'⟩⟩
    · rintro ⟨hmem, hnot⟩
      by_cases hpid : pid ∈ held (some q)
      · exact .inr hpid
      · exact .inl ⟨⟨hmem, hpid⟩, hnot⟩

/-- A child that is left behind. -/
def LeavesBehind (p : ProcessHandle) (k : Kernel) (interrupted : Bool) : Prop :=
  interrupted = true ∧ p.Holding ∧ ∃ id, k.table p.pid = some (.child id none)

/-- **The beginning of the destructor**: what it waits for is gone, and the handle holds nothing after it, unless the
wait for a child that ran is interrupted. -/
theorem Inv.shutDown (hinv : s.Inv) (hp : s.handles h = some p) (status : ExitStatus) (interrupted : Bool) :
    Inv { handles := Function.update s.handles h (some (p.shutDown s.kernel status interrupted).1)
          kernel := (p.shutDown s.kernel status interrupted).2 } ∧
      ∃ gone, gone ⊆ allHeld s.handles ∧
        (p.shutDown s.kernel status interrupted).2.children = s.kernel.children \ gone ∧
        allHeld (Function.update s.handles h (some (p.shutDown s.kernel status interrupted).1)) =
          allHeld s.handles \ gone ∧
        ((p.shutDown s.kernel status interrupted).1.Holding ↔ LeavesBehind p s.kernel interrupted) := by
  obtain ⟨hnot, hwaits, hdead⟩ | ⟨hold, ⟨id, hchild⟩, hwaits, hiff⟩ :=
    shutDown_cases (hinv.valid hp) status interrupted
  · obtain ⟨hinv', gone, hgone, hchildren, hheld⟩ := hinv.waits hp hwaits
    refine ⟨hinv', gone, hgone, hchildren, hheld, iff_of_false hnot ?_⟩
    rintro ⟨-, hold, id, hchild⟩
    exact hdead id hold hchild
  · have hsignal : Inv { s with kernel := (s.kernel.kill p.pid).ends p.pid status } := by
      apply hinv.system
      · exact (hinv.kernel.kill ⟨id, none, hchild⟩).ends p.pid status
      · rw [Kernel.children_ends, Kernel.children_kill]
      · obtain ⟨_, _, hends⟩ | ⟨_, hends⟩ | hends := (s.kernel.kill p.pid).ends_cases p.pid status <;> rw [hends] <;> rfl
    obtain ⟨hinv', gone, hgone, hchildren, hheld⟩ := hsignal.waits hp hwaits
    refine ⟨hinv', gone, hgone, ?_, hheld, hiff.trans ⟨fun h => ⟨h, hold, id, hchild⟩, fun h => h.1⟩⟩
    rw [hchildren]
    show ((s.kernel.kill p.pid).ends p.pid status).children \ gone = _
    rw [Kernel.children_ends, Kernel.children_kill]

end Invariant

/-! ## Leaks -/

section Leaks

open ProcessHandle

variable {s s' : Processes} {p : ProcessHandle} {h : ℕ} {l : Label}

/-- Some child that has not been waited for belongs to no handle. -/
def Leak (s : Processes) : Prop := ∃ pid, pid ∈ s.kernel.children ∧ pid ∉ allHeld s.handles

/-- The step leaves no child behind: a handle that holds one is not given another, and a wait in a destructor or a move
assignment is not interrupted if the child was running. -/
def Careful (s : Processes) : Label → Prop
  | .spawn h _ => held (s.handles h) = ∅
  | .spawnWithPipes h _ _ _ => held (s.handles h) = ∅
  | .destroy h _ interrupted => ∀ p ∈ s.handles h, ¬ LeavesBehind p s.kernel interrupted
  | .moveAssign h other _ interrupted => h = other ∨ ∀ p ∈ s.handles h, ¬ LeavesBehind p s.kernel interrupted
  | _ => True

/-- What a step does to the children and to what is held: some are gone, waited for by their handles; some are left
behind; and one may be new. -/
structure Effect (s s' : Processes) (gone left new : Set ℕ) : Prop where
  children : s'.kernel.children = (s.kernel.children \ gone) ∪ new
  held : allHeld s'.handles = ((allHeld s.handles \ gone) \ left) ∪ new
  gone_held : gone ⊆ allHeld s.handles
  left_held : left ⊆ allHeld s.handles \ gone
  new_free : ∀ pid ∈ new, pid ∉ s.kernel.children

/-- The effect of a step on leaks. -/
theorem Effect.leak_iff (hinv : s.Inv) {gone left new : Set ℕ} (heffect : Effect s s' gone left new) :
    Leak s' ↔ Leak s ∨ left.Nonempty := by
  constructor
  · rintro ⟨pid, hchild, hnot⟩
    rw [heffect.children] at hchild
    rw [heffect.held] at hnot
    obtain ⟨hchild, hgone⟩ | hnew := hchild
    · by_cases hheld : pid ∈ allHeld s.handles
      · right
        by_contra hnone
        rw [Set.not_nonempty_iff_eq_empty] at hnone
        exact hnot (.inl ⟨⟨hheld, hgone⟩, by rw [hnone]; exact id⟩)
      · exact .inl ⟨pid, hchild, hheld⟩
    · exact absurd (.inr hnew) hnot
  · rintro (⟨pid, hchild, hnot⟩ | ⟨pid, hleft⟩)
    · refine ⟨pid, ?_, ?_⟩
      · rw [heffect.children]
        exact .inl ⟨hchild, fun hgone => hnot (heffect.gone_held hgone)⟩
      · rw [heffect.held]
        rintro (⟨⟨hheld, -⟩, -⟩ | hnew)
        · exact hnot hheld
        · exact heffect.new_free pid hnew hchild
    · obtain ⟨hheld, hgone⟩ := heffect.left_held hleft
      have hchild := hinv.children hheld
      refine ⟨pid, ?_, ?_⟩
      · rw [heffect.children]
        exact .inl ⟨hchild, hgone⟩
      · rw [heffect.held]
        rintro (⟨-, hnot⟩ | hnew)
        · exact hnot hleft
        · exact heffect.new_free pid hnew hchild

/-- Nothing but the state of a child changes. -/
theorem effect_same (hchildren : s'.kernel.children = s.kernel.children)
    (hheld : allHeld s'.handles = allHeld s.handles) : Effect s s' ∅ ∅ ∅ := by
  refine ⟨?_, ?_, Set.empty_subset _, Set.empty_subset _, fun _ h => h.elim⟩
  · rw [hchildren, Set.sdiff_empty, Set.union_empty]
  · rw [hheld, Set.sdiff_empty, Set.sdiff_empty, Set.union_empty]

/-- What a step has to be shown to do. -/
def Does (s : Processes) (l : Label) (s' : Processes) : Prop :=
  s'.Inv ∧ ∃ gone left new, Effect s s' gone left new ∧ (left.Nonempty ↔ ¬ Careful s l)

/-- Waits are no leak. -/
theorem does_waits (hinv : s.Inv) (hp : s.handles h = some p) {p' : ProcessHandle} {k' : Kernel}
    (hwaits : Waits p s.kernel p' k') (hcareful : Careful s l) : Does s l (s.put h (p', k')) := by
  obtain ⟨hinv', gone, hgone, hchildren, hheld⟩ := hinv.waits hp hwaits
  refine ⟨hinv', gone, ∅, ∅, ⟨?_, ?_, hgone, Set.empty_subset _, fun _ h => h.elim⟩, ?_⟩
  · exact hchildren.trans (Set.union_empty _).symm
  · rw [Set.sdiff_empty, Set.union_empty]
    exact hheld
  · simp [hcareful]

theorem held_reset (p : ProcessHandle) : held (some p.reset) = ∅ := by
  rw [held_some, if_neg p.not_holding_reset]

/-- A handle that begins anew leaves what it held. -/
theorem does_reset (p : ProcessHandle) {k' : Kernel} (hk : Inv { s with kernel := k' })
    (hchildren : k'.children = s.kernel.children) (hcareful : Careful s l ↔ held (s.handles h) = ∅) :
    Does s l (s.put h (p.reset, k')) := by
  obtain ⟨hinv', hheld⟩ := hk.clear (h := h) (o := some p.reset) (held_reset p) (by rintro q hq; cases hq; rfl)
  refine ⟨hinv', ∅, held (s.handles h), ∅, ⟨?_, ?_, Set.empty_subset _, ?_, fun _ h => h.elim⟩, ?_⟩
  · rw [Set.sdiff_empty, Set.union_empty]
    exact hchildren
  · rw [Set.sdiff_empty, Set.union_empty]
    exact hheld
  · rw [Set.sdiff_empty]
    exact fun pid hpid => ⟨h, hpid⟩
  · rw [hcareful, Set.nonempty_iff_ne_empty]

/-- And may have a new child. -/
theorem does_fork (p : ProcessHandle) {k' : Kernel} {pid : ℕ} (hfree : s.free (some pid) = true)
    (hk : Inv { s with kernel := k' }) (hchildren : k'.children = s.kernel.children)
    (htable : k'.table = s.kernel.table) (hcareful : Careful s l ↔ held (s.handles h) = ∅) :
    Does s l (s.put h ({ p.reset with pid := pid }, k'.fork pid)) := by
  obtain ⟨hpid, hnone⟩ : pid ≠ 0 ∧ s.kernel.table pid = none := by simpa [free] using hfree
  obtain ⟨hcleared, hheld⟩ := hk.clear (h := h) (o := some p.reset) (held_reset p) (by rintro q hq; cases hq; rfl)
  have hself : held (Function.update s.handles h (some p.reset) h) = ∅ := by
    rw [Function.update_self]
    exact held_reset p
  obtain ⟨hforked, hheld'⟩ := hcleared.fork hself hpid (htable ▸ hnone)
  rw [Function.update_idem] at hforked hheld'
  have hno : pid ∉ s.kernel.children := by
    rintro ⟨id, status, heq⟩
    rw [hnone] at heq
    cases heq
  refine ⟨hforked, ∅, held (s.handles h), {pid}, ⟨?_, ?_, Set.empty_subset _, ?_, ?_⟩, ?_⟩
  · rw [Set.sdiff_empty, ← hchildren]
    exact k'.children_fork pid
  · rw [Set.sdiff_empty, ← hheld]
    exact hheld'
  · rw [Set.sdiff_empty]
    exact fun pid hpid => ⟨h, hpid⟩
  · rintro _ rfl
    exact hno
  · rw [hcareful, Set.nonempty_iff_ne_empty]

theorem held_nonempty (p : ProcessHandle) : (held (some p)).Nonempty ↔ p.Holding := by
  by_cases hold : p.Holding <;> simp [hold]

/-- A wait in a destructor may leave a child behind. -/
theorem does_destroy (hinv : s.Inv) (hp : s.handles h = some p) (status : ExitStatus) (interrupted : Bool) :
    Does s (.destroy h status interrupted)
      { handles := Function.update s.handles h none, kernel := (p.shutDown s.kernel status interrupted).2 } := by
  obtain ⟨hdown, gone, hgone, hchildren, hheld, hleaves⟩ := hinv.shutDown hp status interrupted
  obtain ⟨hcleared, hheld'⟩ := hdown.clear (h := h) (o := none) held_none nofun
  simp only [Function.update_idem, Function.update_self] at hcleared hheld'
  refine ⟨hcleared, gone, held (some (p.shutDown s.kernel status interrupted).1), ∅,
    ⟨?_, ?_, hgone, ?_, fun _ h => h.elim⟩, ?_⟩
  · rw [Set.union_empty]
    exact hchildren
  · rw [Set.union_empty, ← hheld]
    exact hheld'
  · rw [← hheld]
    exact fun pid hpid => ⟨h, by rwa [Function.update_self]⟩
  · rw [held_nonempty, hleaves]
    simp only [Careful, hp, Option.mem_def, Option.some.injEq, forall_eq', not_not]

/-- And so may one in a move assignment. -/
theorem does_moveAssign (hinv : s.Inv) (hp : s.handles h = some p) {other : ℕ} {q : ProcessHandle}
    (hq : s.handles other = some q) (hne : h ≠ other) (status : ExitStatus) (interrupted : Bool) :
    Does s (.moveAssign h other status interrupted)
      ((s.put h (q, (p.shutDown s.kernel status interrupted).2)).put other
        (q.reset, (p.shutDown s.kernel status interrupted).2)) := by
  obtain ⟨hdown, gone, hgone, hchildren, hheld, hleaves⟩ := hinv.shutDown hp status interrupted
  have hq' : Function.update s.handles h (some (p.shutDown s.kernel status interrupted).1) other = some q := by
    rwa [Function.update_of_ne hne.symm]
  obtain ⟨hgiven, hheld'⟩ := hdown.give hq' hne
  simp only [Function.update_idem, Function.update_self] at hgiven hheld'
  refine ⟨hgiven, gone, held (some (p.shutDown s.kernel status interrupted).1), ∅,
    ⟨?_, ?_, hgone, ?_, fun _ h => h.elim⟩, ?_⟩
  · rw [Set.union_empty]
    exact hchildren
  · rw [Set.union_empty, ← hheld]
    exact hheld'
  · rw [← hheld]
    exact fun pid hpid => ⟨h, by rwa [Function.update_self]⟩
  · rw [held_nonempty, hleaves]
    simp only [Careful, hp, hne, false_or, Option.mem_def, Option.some.injEq, forall_eq', not_not]

/-- **One step**: the invariant, and when a child is left behind. -/
theorem does_step (hinv : s.Inv) (hst : step s l = some s') : Does s l s' := by
  have hsame {s' : Processes} {l : Label} (hinv' : s'.Inv) (hchildren : s'.kernel.children = s.kernel.children)
      (hheld : allHeld s'.handles = allHeld s.handles) (hcareful : Careful s l) : Does s l s' :=
    ⟨hinv', ∅, ∅, ∅, effect_same hchildren hheld, by simp [hcareful]⟩
  cases l with
  | construct h =>
    obtain ⟨hnone, rfl⟩ := by simpa [step] using hst
    have hempty : held (some ({} : ProcessHandle)) = ∅ := held_reset {}
    obtain ⟨hinv', hheld⟩ := hinv.clear (h := h) hempty (by rintro q hq; cases hq; rfl)
    refine hsame hinv' rfl ?_ trivial
    rw [hnone, held_none, Set.sdiff_empty] at hheld
    exact hheld
  | moveConstruct h other =>
    obtain ⟨q, hq, hst⟩ := Option.bind_eq_some_iff.mp hst
    obtain ⟨hnone, rfl⟩ := by simpa using hst
    have hne : h ≠ other := by
      rintro rfl
      rw [hnone] at hq
      cases hq
    obtain ⟨hinv', hheld⟩ := hinv.give hq hne
    refine hsame hinv' rfl ?_ trivial
    rw [hnone, held_none, Set.sdiff_empty] at hheld
    exact hheld
  | moveAssign h other status interrupted =>
    obtain ⟨p, hp, hst⟩ := Option.bind_eq_some_iff.mp hst
    obtain ⟨q, hq, rfl⟩ := Option.map_eq_some_iff.mp hst
    split
    · rename_i heq
      exact hsame hinv rfl rfl (.inl heq)
    · rename_i hne
      exact does_moveAssign hinv hp hq hne status interrupted
  | destroy h status interrupted =>
    obtain ⟨p, hp, rfl⟩ := Option.map_eq_some_iff.mp hst
    exact does_destroy hinv hp status interrupted
  | spawn h child =>
    obtain ⟨p, hp, hst⟩ := Option.bind_eq_some_iff.mp hst
    obtain ⟨hfree, rfl⟩ := by simpa using hst
    cases child with
    | none => exact does_reset p hinv rfl Iff.rfl
    | some pid => exact does_fork p hfree hinv rfl rfl Iff.rfl
  | spawnWithPipes h stdinPipe stdoutPipe child =>
    obtain ⟨p, hp, hst⟩ := Option.bind_eq_some_iff.mp hst
    obtain ⟨hfree, rfl⟩ := by simpa using hst
    obtain ⟨fds, hreset | ⟨pid, rfl, hforked⟩⟩ := p.spawnWithPipes_cases s.kernel stdinPipe stdoutPipe child
    · rw [hreset]
      exact does_reset p (hinv.system (hinv.kernel.fds fds) rfl rfl) rfl Iff.rfl
    · rw [hforked]
      exact does_fork p hfree (hinv.system (hinv.kernel.fds fds) rfl rfl) rfl rfl Iff.rfl
  | isAlive h =>
    obtain ⟨p, hp, rfl⟩ := Option.map_eq_some_iff.mp hst
    obtain ⟨halive, -, -⟩ | ⟨-, -, hwaits⟩ := isAlive_cases (hinv.valid hp)
    · rw [halive]
      exact does_waits hinv hp .nothing trivial
    · exact does_waits hinv hp hwaits trivial
  | wait h interrupted =>
    obtain ⟨p, hp, hst⟩ := Option.bind_eq_some_iff.mp hst
    obtain ⟨r, hr, rfl⟩ := Option.map_eq_some_iff.mp hst
    exact does_waits hinv hp (wait_cases (hinv.valid hp) hr).1 trivial
  | tryWait h =>
    obtain ⟨p, hp, rfl⟩ := Option.map_eq_some_iff.mp hst
    exact does_waits hinv hp (tryWait_cases (hinv.valid hp)) trivial
  | terminate h =>
    obtain ⟨p, hp, rfl⟩ := Option.map_eq_some_iff.mp hst
    rw [terminate_eq]
    split
    · rename_i hold
      exact hsame (hinv.system (hinv.kernel.kill (hinv.valid hp hold)) rfl rfl) rfl rfl trivial
    · exact hsame hinv rfl rfl trivial
  | ends pid status =>
    cases hst
    have hreaped : (s.kernel.ends pid status).reaped = s.kernel.reaped := by
      obtain ⟨_, _, hends⟩ | ⟨_, hends⟩ | hends := s.kernel.ends_cases pid status <;> rw [hends]
    have hchildren := s.kernel.children_ends pid status
    exact hsame (hinv.system (hinv.kernel.ends pid status) hchildren hreaped) hchildren rfl trivial
  | begins pid =>
    obtain ⟨hnone, rfl⟩ := by simpa [step] using hst
    have hchildren : ({ s.kernel with table := Function.update s.kernel.table pid (some .other) } : Kernel).children =
        s.kernel.children := Kernel.children_update (by simp [hnone])
    exact hsame (hinv.system (hinv.kernel.update nofun) hchildren rfl) hchildren rfl trivial

end Leaks

/-! ## Every run -/

section Runs

open ProcessHandle

variable {s : Processes}

theorem inv_reachable (h : processes.Reachable s) : s.Inv := by
  refine h.invariant (fun _ => inv_started) ?_
  intro s l s' hinv _ hst
  exact (does_step (s := s) (l := l) hinv hst).1

/-- **No signal goes astray, and no child is waited for twice**: whatever the handles are used for, and whichever pids the
system uses again, each signal went to a child of the viewer that nothing had waited for, each child was waited for at
most once, and a handle that says that its child has exited has the exit code of one. -/
theorem signals_ours (h : processes.Reachable s) :
    (∀ target ∈ s.kernel.signals, ∃ id status, target = some (.child id status)) ∧
      (s.kernel.reaped.map Prod.fst).Nodup ∧
      ∀ h p, s.handles h = some p → p.exited = true →
        ∃ id status, (id, status) ∈ s.kernel.reaped ∧ p.exitCode = status.code :=
  have hinv := inv_reachable h
  ⟨hinv.kernel.signals, hinv.kernel.reaped.1, hinv.codes⟩

/-- **Leaks**: at the end of a run every child that has not been waited for belongs to a handle exactly if in this run no
`spawn` was called on a handle that held one, and no wait of a destructor or a move assignment was interrupted.  When all
handles are gone, that is when no child is left. -/
theorem leakless_iff {s₀ : Processes} {run : List Label} (h₀ : processes.init s₀) (h : processes.exec s₀ run = some s) :
    (¬ Leak s ↔ processes.Meets Careful s₀ run) ∧
      ((∀ h, s.handles h = none) → (s.kernel.children = ∅ ↔ processes.Meets Careful s₀ run)) := by
  have hno : ¬ Leak s₀ := by
    obtain ⟨-, htable, -⟩ := h₀
    rintro ⟨pid, ⟨id, status, hchild⟩, -⟩
    exact htable pid id status hchild
  have hiff : ¬ Leak s ↔ processes.Meets Careful s₀ run := by
    refine Lts.unmarked_iff_meets (J := Inv) (fun s l s' hinv hst => (does_step hinv hst).1) Careful Leak
      (fun s l s' hinv hst hleak => ?_) (fun s l s' hinv hno hst => ?_) (inv_started h₀) hno h
    · obtain ⟨-, gone, left, new, heffect, -⟩ := does_step hinv hst
      exact (heffect.leak_iff hinv).mpr (.inl hleak)
    · obtain ⟨-, gone, left, new, heffect, hleft⟩ := does_step hinv hst
      rw [heffect.leak_iff hinv, or_iff_right hno, hleft]
  refine ⟨hiff, fun hnone => ?_⟩
  have hheld : ∀ pid, pid ∉ allHeld s.handles := by
    rintro pid ⟨h, hmem⟩
    rw [hnone h, held_none] at hmem
    exact hmem
  rw [← hiff, Set.eq_empty_iff_forall_notMem]
  exact ⟨fun hno ⟨pid, hchild, _⟩ => hno pid hchild, fun hno pid hchild => hno ⟨pid, hchild, hheld pid⟩⟩

/-- A pid is used again after the child has been waited for. -/
def pidAgain : List Label :=
  [.construct 0, .spawn 0 (some 5), .terminate 0, .ends 5 .signaled, .wait 0 false, .begins 5, .terminate 0]

def started : Processes := { handles := fun _ => none, kernel := ⟨fun _ => none, 0, 0, [], []⟩ }

theorem started_started : processes.init started := ⟨rfl, nofun, rfl, rfl⟩

theorem signals_ours_again : ∃ s, processes.Reachable s ∧ s.kernel.table 5 = some .other ∧
    s.kernel.signals = [some (.child 0 none)] ∧ (s.kernel.reaped.map Prod.fst).Nodup := by
  obtain ⟨s, hs, htable, hsignals⟩ : ∃ s, processes.exec started pidAgain = some s ∧ s.kernel.table 5 = some .other ∧
      s.kernel.signals = [some (.child 0 none)] := ⟨_, rfl, rfl, rfl⟩
  have hreach := Lts.reachable_of_exec _ started_started hs
  exact ⟨s, hreach, htable, hsignals, (signals_ours hreach).2.1⟩

/-- The wait of a destructor is interrupted. -/
def interruptedWait : List Label := [.construct 0, .spawn 0 (some 5), .destroy 0 .signaled true]

theorem leakless_iff_interrupted :
    ∃ s, processes.exec started interruptedWait = some s ∧ 5 ∈ s.kernel.children ∧
      ¬ processes.Meets Careful started interruptedWait := by
  obtain ⟨s, hs, htable, hhandles⟩ : ∃ s, processes.exec started interruptedWait = some s ∧
      s.kernel.table 5 = some (.child 0 (some .signaled)) ∧
      s.handles = Function.update (Function.update (Function.update started.handles 0 (some {})) 0
        (some { pid := 5 })) 0 none := ⟨_, rfl, rfl, rfl⟩
  have hnone : ∀ h, s.handles h = none := by
    intro h
    rw [hhandles, Function.update_idem, Function.update_idem]
    exact congrFun (Function.update_eq_self 0 started.handles) h
  have hchild : 5 ∈ s.kernel.children := ⟨0, _, htable⟩
  refine ⟨s, hs, hchild, fun hcareful => ?_⟩
  rw [((leakless_iff started_started hs).2 hnone).mpr hcareful] at hchild
  exact hchild

end Runs

end Processes

end Grebe
