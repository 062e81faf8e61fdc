import Grebe.Lib.Fifo
import Grebe.InProcessQueue

/-!
# Grebe.InProcessQueueCalls — the queue under any number of threads

A thread is in at most one call at a time, so "any number of threads" is any number of calls at once: `calls` steps
by whole critical sections, and a call that waits on `not_full_` sits in `waiting` until `resume` re-acquires the lock
with the predicate of the wait true.  Each call of `enqueue` carries a ticket, so that equal frames stay distinct.

* `accepted`, `removed`, `completed`: history — the successful enqueues in order, what left the queue and how, and
  the finished calls with what they returned.
* `CallsInv`: `accepted = removed ++ queue`, and the counters are the lengths of the histories, policy by policy.
* `calls_refines`: the queue refines `Lib.Fifo.system`; an eviction is a removal.
* `calls_contract`: the contract of `IQueue`, policy by policy.
-/

namespace Grebe

open Lib

namespace InProcessQueue

variable {α : Type}

/-! ## Calls and history -/

/-- One call of `enqueue`. -/
structure Call (α : Type) where
  ticket : ℕ
  item : α
deriving DecidableEq

/-- How a frame left the queue. -/
inductive Removal
  | dequeued
  | evicted
deriving DecidableEq

structure Calls (α : Type) where
  q : InProcessQueue (Call α)
  nextTicket : ℕ
  waiting : List (Call α)
  accepted : List (Call α)
  removed : List (Removal × Call α)
  completed : List (Call α × Bool)

/-- The frames that left in the way `r`, in order. -/
def leftBy (r : Removal) (removed : List (Removal × Call α)) : List (Call α) :=
  (removed.filter fun x => x.1 = r).map Prod.snd

/-- The calls that returned `false`. -/
def falseCalls (completed : List (Call α × Bool)) : List (Call α) :=
  (completed.filter fun c => c.2 = false).map Prod.fst

namespace Calls

/-- The frames returned by `dequeue`, in order. -/
def dequeued (s : Calls α) : List (Call α) := leftBy .dequeued s.removed

/-- The frames discarded after they had been accepted. -/
def evicted (s : Calls α) : List (Call α) := leftBy .evicted s.removed

def refused (s : Calls α) : List (Call α) := falseCalls s.completed

end Calls

section History

variable (r : Removal) (l l' : List (Removal × Call α)) (x : Call α)

@[simp] theorem leftBy_nil : leftBy r ([] : List (Removal × Call α)) = [] := rfl

@[simp] theorem leftBy_append : leftBy r (l ++ l') = leftBy r l ++ leftBy r l' := by
  simp [leftBy]

@[simp] theorem leftBy_same : leftBy r [(r, x)] = [x] := by
  simp [leftBy]

theorem leftBy_other {r' : Removal} (h : r' ≠ r) : leftBy r [(r', x)] = [] := by
  simp [leftBy, h]

/-- Every removal is of one of the two kinds. -/
theorem length_removed (l : List (Removal × Call α)) :
    l.length = (leftBy .dequeued l).length + (leftBy .evicted l).length := by
  induction l with
  | nil => rfl
  | cons y l ih =>
    obtain ⟨k, y⟩ := y
    cases k <;> simp [leftBy] at ih ⊢ <;> omega

theorem leftBy_sublist : (leftBy r l).Sublist (l.map Prod.snd) :=
  List.filter_sublist.map _

@[simp] theorem falseCalls_snoc_true (c : List (Call α × Bool)) : falseCalls (c ++ [(x, true)]) = falseCalls c := by
  simp [falseCalls]

@[simp] theorem falseCalls_snoc_false (c : List (Call α × Bool)) :
    falseCalls (c ++ [(x, false)]) = falseCalls c ++ [x] := by
  simp [falseCalls]

end History

inductive CallLabel (α : Type)
  | enqueue (item : α)
  | resume (i ns : ℕ)
  | dequeue
  | shutdown

/-- What `enqueue` evicts: the head of a full queue under `DropOldest`. -/
def evictedBy (q : InProcessQueue α) : List (Removal × α) :=
  if q.policy = .dropOldest ∧ q.capacity ≤ q.queue.length then (q.queue.take 1).map fun x => (.evicted, x) else []

def stepCalls (s : Calls α) : CallLabel α → Option (Calls α)
  | .enqueue item =>
    let call : Call α := ⟨s.nextTicket, item⟩
    match s.q.enqueue call with
    | none => some { s with nextTicket := s.nextTicket + 1, waiting := s.waiting ++ [call] }
    | some (q, ok) =>
      some { s with
        q := q
        nextTicket := s.nextTicket + 1
        accepted := if ok then s.accepted ++ [call] else s.accepted
        removed := s.removed ++ evictedBy s.q
        completed := s.completed ++ [(call, ok)] }
  | .resume i ns =>
    match s.waiting[i]? with
    | none => none
    | some call =>
      if s.q.canResume then
        let (q, ok) := s.q.resume call ns
        some { s with
          q := q
          waiting := s.waiting.eraseIdx i
          accepted := if ok then s.accepted ++ [call] else s.accepted
          completed := s.completed ++ [(call, ok)] }
      else none
  | .dequeue =>
    match s.q.dequeue with
    | none => some s
    | some (call, q) => some { s with q := q, removed := s.removed ++ [(.dequeued, call)] }
  | .shutdown => some { s with q := s.q.shutdown }

/-- A queue made with `capacity` and `policy`, and every interleaving of calls on it. -/
def calls (α : Type) (capacity : ℕ) (policy : BackpressurePolicy) : Lts (Calls α) (CallLabel α) where
  init s := s = ⟨make capacity policy, 0, [], [], [], []⟩
  step := stepCalls

/-! ## The invariant -/

section Invariant

/-- What the counters and the finished calls say, policy by policy. -/
structure Accounts (s : Calls α) : Prop where
  kept : s.q.policy ≠ .dropOldest → s.evicted = []
  prompt : s.q.policy ≠ .block → s.waiting = []
  latest : s.q.policy = .dropLatest → s.completed.length = s.q.totalEnqueued + s.q.totalDropped
  oldest : s.q.policy = .dropOldest → s.q.totalDropped = s.evicted.length ∧ s.refused = []
  block : s.q.policy = .block → s.q.totalDropped = 0 ∧ (s.refused ≠ [] → s.q.isShutdown = true)

/-- The tickets of the calls accepted, waiting and refused. -/
def tickets (s : Calls α) : List ℕ := (s.accepted ++ s.waiting ++ s.refused).map Call.ticket

/-- Tickets are handed out once. -/
def TicketsOk (l : List ℕ) (next : ℕ) : Prop := (∀ t ∈ l, t < next) ∧ l.Nodup

theorem TicketsOk.fresh {l l' : List ℕ} {n : ℕ} (h : TicketsOk l n) (hp : l'.Perm (n :: l)) : TicketsOk l' (n + 1) := by
  refine ⟨fun t ht => ?_, hp.nodup_iff.mpr (List.nodup_cons.mpr ⟨fun hn => ?_, h.2⟩)⟩
  · rcases List.mem_cons.mp (hp.mem_iff.mp ht) with rfl | ht
    · omega
    · have := h.1 t ht
      omega
  · exact absurd (h.1 n hn) (lt_irrefl n)

theorem TicketsOk.perm {l l' : List ℕ} {n : ℕ} (h : TicketsOk l n) (hp : l'.Perm l) : TicketsOk l' n :=
  ⟨fun t ht => h.1 t (hp.mem_iff.mp ht), hp.nodup_iff.mpr h.2⟩

/-- `s` represents the abstract store `a`, and its counters are right. -/
structure CallsInv (capacity : ℕ) (policy : BackpressurePolicy) (s : Calls α) (a : Fifo (Call α) capacity) : Prop where
  capacity_eq : s.q.capacity = capacity
  policy_eq : s.q.policy = policy
  accepted : a.accepted = s.accepted
  removed : a.removed = s.removed.map Prod.snd
  items : a.items = s.q.queue
  enqueued : s.q.totalEnqueued = s.accepted.length
  accounts : Accounts s
  ticketsOk : TicketsOk (tickets s) s.nextTicket

theorem callsInv_init (α : Type) (n : ℕ) (policy : BackpressurePolicy) :
    CallsInv (storedCapacity n) policy (⟨make n policy, 0, [], [], [], []⟩ : Calls α) Fifo.empty where
  capacity_eq := rfl
  policy_eq := rfl
  accepted := rfl
  removed := rfl
  items := rfl
  enqueued := rfl
  accounts := ⟨fun _ => rfl, fun _ => rfl, fun _ => rfl, fun _ => ⟨rfl, rfl⟩, fun _ => ⟨rfl, fun h => absurd rfl h⟩⟩
  ticketsOk := ⟨fun t ht => by simp [tickets, Calls.refused, falseCalls] at ht, List.nodup_nil⟩

end Invariant

/-! ## The critical sections -/

section Sections

variable {capacity : ℕ} {policy : BackpressurePolicy} {s s' : Calls α} {a : Fifo (Call α) capacity}

theorem CallsInv.size_le (h : CallsInv capacity policy s a) : s.q.queue.length ≤ capacity := by
  rw [← h.items]
  exact a.bounded

/-- A frame appended while there is room: the abstract store accepts it. -/
theorem CallsInv.append (h : CallsInv capacity policy s a) {call : Call α} (hroom : s.q.queue.length < s.q.capacity)
    (hq : s'.q.queue = s.q.queue ++ [call]) (hcap : s'.q.capacity = s.q.capacity) (hpol : s'.q.policy = s.q.policy)
    (hacc : s'.accepted = s.accepted ++ [call]) (hrem : s'.removed = s.removed)
    (henq : s'.q.totalEnqueued = s.q.totalEnqueued + 1) (hacct : Accounts s')
    (htick : TicketsOk (tickets s') s'.nextTicket) :
    ∃ ks a', (Fifo.system (Call α) capacity).exec a ks = some a' ∧ CallsInv capacity policy s' a' := by
  have hfit : a.items.length + [call].length ≤ capacity := by
    rw [h.items, ← h.capacity_eq]
    exact hroom
  exact ⟨[.accept [call]], _, Fifo.exec_accept hfit,
    { capacity_eq := hcap.trans h.capacity_eq
      policy_eq := hpol.trans h.policy_eq
      accepted := by rw [hacc, ← h.accepted]; rfl
      removed := by rw [hrem]; exact h.removed
      items := by rw [hq, ← h.items]; rfl
      enqueued := by rw [henq, hacc, List.length_append, h.enqueued]; rfl
      accounts := hacct
      ticketsOk := htick }⟩

/-- The oldest frame makes way for a new one: the abstract store removes it and accepts the other. -/
theorem CallsInv.evict (h : CallsInv capacity policy s a) {call oldest : Call α} {rest : List (Call α)}
    (hold : s.q.queue = oldest :: rest) (hq : s'.q.queue = rest ++ [call]) (hcap : s'.q.capacity = s.q.capacity)
    (hpol : s'.q.policy = s.q.policy) (hacc : s'.accepted = s.accepted ++ [call])
    (hrem : s'.removed = s.removed ++ [(.evicted, oldest)]) (henq : s'.q.totalEnqueued = s.q.totalEnqueued + 1)
    (hacct : Accounts s') (htick : TicketsOk (tickets s') s'.nextTicket) :
    ∃ ks a', (Fifo.system (Call α) capacity).exec a ks = some a' ∧ CallsInv capacity policy s' a' := by
  have hitems : a.items = oldest :: rest := h.items.trans hold
  have hfit : (a.remove 1).items.length + [call].length ≤ capacity := by
    have hsize := h.size_le
    rw [hold] at hsize
    show (a.items.drop 1).length + 1 ≤ capacity
    rw [hitems]
    exact hsize
  have hexec : (Fifo.system (Call α) capacity).exec a [.remove 1, .accept [call]] = some ((a.remove 1).accept [call] hfit) := by
    rw [← List.singleton_append, Lts.exec_append, Fifo.exec_remove (by rw [hitems]; simp), Option.bind_some]
    exact Fifo.exec_accept hfit
  exact ⟨_, _, hexec,
    { capacity_eq := hcap.trans h.capacity_eq
      policy_eq := hpol.trans h.policy_eq
      accepted := by rw [hacc, ← h.accepted]; rfl
      removed := by
        show a.removed ++ a.items.take 1 = _
        rw [hrem, h.removed, hitems, List.map_append]
        rfl
      items := by
        show a.items.drop 1 ++ _ = _
        rw [hq, hitems]
        rfl
      enqueued := by rw [henq, hacc, List.length_append, h.enqueued]; rfl
      accounts := hacct
      ticketsOk := htick }⟩

/-- A section that moves no frame: the abstract store stays. -/
theorem CallsInv.same (h : CallsInv capacity policy s a) (hq : s'.q.queue = s.q.queue)
    (hcap : s'.q.capacity = s.q.capacity) (hpol : s'.q.policy = s.q.policy) (hacc : s'.accepted = s.accepted)
    (hrem : s'.removed = s.removed) (henq : s'.q.totalEnqueued = s.q.totalEnqueued) (hacct : Accounts s')
    (htick : TicketsOk (tickets s') s'.nextTicket) :
    ∃ ks a', (Fifo.system (Call α) capacity).exec a ks = some a' ∧ CallsInv capacity policy s' a' :=
  ⟨[], a, rfl,
    { capacity_eq := hcap.trans h.capacity_eq
      policy_eq := hpol.trans h.policy_eq
      accepted := by rw [hacc, h.accepted]
      removed := by rw [hrem, h.removed]
      items := by rw [hq, h.items]
      enqueued := by rw [henq, hacc, h.enqueued]
      accounts := hacct
      ticketsOk := htick }⟩

theorem evictedBy_room {q : InProcessQueue α} (h : q.queue.length < q.capacity) : evictedBy q = [] := by
  unfold evictedBy
  rw [if_neg (by omega)]

theorem evictedBy_keep {q : InProcessQueue α} (h : q.policy ≠ .dropOldest) : evictedBy q = [] := by
  unfold evictedBy
  rw [if_neg fun hp => h hp.1]

theorem evictedBy_full {q : InProcessQueue α} (h : q.policy = .dropOldest) (hfull : q.capacity ≤ q.queue.length)
    {oldest : α} {rest : List α} (hq : q.queue = oldest :: rest) : evictedBy q = [(.evicted, oldest)] := by
  unfold evictedBy
  rw [if_pos ⟨h, hfull⟩, hq]
  rfl

theorem tickets_fresh (call : Call α) (h : TicketsOk (tickets s) s.nextTicket) (hc : call.ticket = s.nextTicket)
    (hn : s'.nextTicket = s.nextTicket + 1)
    (hl : ∀ t, (tickets s').count t = (call.ticket :: tickets s).count t) : TicketsOk (tickets s') s'.nextTicket := by
  rw [hn]
  refine h.fresh (List.perm_iff_count.mpr ?_)
  intro t
  rw [hl, hc]

theorem sim_enqueue {item : α} (h : CallsInv capacity policy s a) (hst : stepCalls s (.enqueue item) = some s') :
    ∃ ks a', (Fifo.system (Call α) capacity).exec a ks = some a' ∧ CallsInv capacity policy s' a' := by
  have hacct := h.accounts
  simp only [stepCalls] at hst
  rcases s.q.enqueue_cases ⟨s.nextTicket, item⟩ with
    ⟨hroom, he⟩ | ⟨hfull, ⟨hp, he⟩ | ⟨hp, oldest, rest, hq, he⟩ | ⟨hp, he⟩⟩
  · -- room: the frame is appended
    rw [he, evictedBy_room hroom, List.append_nil] at hst
    cases hst
    refine h.append hroom rfl rfl rfl rfl rfl rfl ⟨hacct.kept, hacct.prompt, fun hp => ?_, fun hp => ?_, fun hp => ?_⟩
      (tickets_fresh ⟨s.nextTicket, item⟩ h.ticketsOk rfl rfl fun t => ?_)
    · have := hacct.latest hp
      simp only [List.length_append, List.length_singleton, push_totalEnqueued, push_totalDropped]
      omega
    · simpa [Calls.refused, Calls.evicted] using hacct.oldest hp
    · simpa [Calls.refused] using hacct.block hp
    · simp only [tickets, Calls.refused, falseCalls_snoc_true, if_true, List.map_append, List.map_cons,
        List.map_nil, List.count_append, List.count_cons, List.count_nil]
      omega
  · -- `DropLatest`: the frame is dropped
    rw [he, evictedBy_keep (by rw [hp]; simp), List.append_nil] at hst
    cases hst
    refine h.same rfl rfl rfl rfl rfl rfl ⟨hacct.kept, hacct.prompt, fun _ => ?_, fun hp' => ?_, fun hp' => ?_⟩
      (tickets_fresh ⟨s.nextTicket, item⟩ h.ticketsOk rfl rfl fun t => ?_)
    · have := hacct.latest hp
      simp only [List.length_append, List.length_singleton]
      omega
    · exact absurd (hp.symm.trans hp') (by simp)
    · exact absurd (hp.symm.trans hp') (by simp)
    · simp only [tickets, Calls.refused, falseCalls_snoc_false, Bool.false_eq_true, if_false, List.map_append,
        List.map_cons, List.map_nil, List.count_append, List.count_cons, List.count_nil]
      omega
  · -- `DropOldest`: the oldest frame makes way
    rw [he, evictedBy_full hp hfull hq] at hst
    cases hst
    refine h.evict hq rfl rfl rfl rfl rfl rfl
      ⟨fun hp' => absurd hp hp', hacct.prompt, fun hp' => ?_, fun _ => ?_, fun hp' => ?_⟩
      (tickets_fresh ⟨s.nextTicket, item⟩ h.ticketsOk rfl rfl fun t => ?_)
    · exact absurd (hp.symm.trans hp') (by simp)
    · obtain ⟨h1, h2⟩ := hacct.oldest hp
      simp only [Calls.evicted, Calls.refused] at h1 h2 ⊢
      simp [h1, h2]
    · exact absurd (hp.symm.trans hp') (by simp)
    · simp only [tickets, Calls.refused, falseCalls_snoc_true, if_true, List.map_append, List.map_cons,
        List.map_nil, List.count_append, List.count_cons, List.count_nil]
      omega
  · -- `Block`: the call goes to wait
    rw [he] at hst
    cases hst
    refine h.same rfl rfl rfl rfl rfl rfl
      ⟨hacct.kept, fun hp' => absurd hp hp', hacct.latest, hacct.oldest, hacct.block⟩
      (tickets_fresh ⟨s.nextTicket, item⟩ h.ticketsOk rfl rfl fun t => ?_)
    simp only [tickets, Calls.refused, List.map_append, List.map_cons, List.map_nil, List.count_append,
      List.count_cons, List.count_nil]
    omega

theorem sim_resume {i ns : ℕ} (h : CallsInv capacity policy s a) (hst : stepCalls s (.resume i ns) = some s') :
    ∃ ks a', (Fifo.system (Call α) capacity).exec a ks = some a' ∧ CallsInv capacity policy s' a' := by
  have hacct := h.accounts
  simp only [stepCalls] at hst
  cases hw : s.waiting[i]? with
  | none => simp [hw] at hst
  | some call =>
    have hi : i < s.waiting.length := (List.getElem?_eq_some_iff.mp hw).1
    have hcall : s.waiting[i] = call := (List.getElem?_eq_some_iff.mp hw).2
    -- only a `Block` call waits
    have hblock : s.q.policy = .block := by
      by_contra hp
      rw [hacct.prompt hp] at hi
      exact absurd hi (Nat.not_lt_zero i)
    have hcount : ∀ t, (s.waiting.map Call.ticket).count t =
        (call.ticket :: (s.waiting.eraseIdx i).map Call.ticket).count t := by
      intro t
      have hperm := (List.getElem_cons_eraseIdx_perm hi).map Call.ticket
      rw [hcall] at hperm
      exact (hperm.count_eq t).symm
    rw [hw] at hst
    dsimp only at hst
    by_cases hres : s.q.canResume = true
    · rw [if_pos hres] at hst
      rcases s.q.resume_cases call ns hres with ⟨hs, he⟩ | ⟨hs, hroom, he⟩
      · -- after a shutdown: refused
        rw [he] at hst
        cases hst
        refine h.same rfl rfl rfl rfl rfl rfl ⟨hacct.kept, fun hp => absurd hblock hp, fun hp => ?_, fun hp => ?_,
          fun _ => ⟨(hacct.block hblock).1, fun _ => hs⟩⟩ (h.ticketsOk.perm (List.perm_iff_count.mpr fun t => ?_))
        · exact absurd (hblock.symm.trans hp) (by simp)
        · exact absurd (hblock.symm.trans hp) (by simp)
        · simp only [tickets, Calls.refused, falseCalls_snoc_false, Bool.false_eq_true, if_false, List.map_append,
            List.map_cons, List.map_nil, List.count_append, hcount, List.count_cons, List.count_nil]
          omega
      · -- room again: the frame is appended
        rw [he] at hst
        cases hst
        refine h.append hroom rfl rfl rfl rfl rfl rfl ⟨hacct.kept, fun hp => absurd hblock hp, fun hp => ?_,
          fun hp => ?_, fun hp => ?_⟩ (h.ticketsOk.perm (List.perm_iff_count.mpr fun t => ?_))
        · exact absurd (hblock.symm.trans hp) (by simp)
        · exact absurd (hblock.symm.trans hp) (by simp)
        · simpa [Calls.refused] using hacct.block hblock
        · simp only [tickets, Calls.refused, falseCalls_snoc_true, if_true, List.map_append, List.map_cons,
            List.map_nil, List.count_append, hcount, List.count_cons, List.count_nil]
          omega
    · rw [if_neg hres] at hst
      cases hst

theorem sim_dequeue (h : CallsInv capacity policy s a) (hst : stepCalls s .dequeue = some s') :
    ∃ ks a', (Fifo.system (Call α) capacity).exec a ks = some a' ∧ CallsInv capacity policy s' a' := by
  have hacct := h.accounts
  simp only [stepCalls] at hst
  cases hd : s.q.dequeue with
  | none =>
    rw [hd] at hst
    cases hst
    exact ⟨[], a, rfl, h⟩
  | some p =>
    obtain ⟨call, q⟩ := p
    rw [hd] at hst
    cases hst
    obtain ⟨hqueue, hq⟩ := dequeue_eq_some _ hd
    have hitems : a.items = call :: q.queue := h.items.trans hqueue
    rw [hq]
    refine ⟨[.remove 1], _, Fifo.exec_remove (by rw [hitems]; simp),
      { capacity_eq := h.capacity_eq
        policy_eq := h.policy_eq
        accepted := h.accepted
        removed := by show a.removed ++ a.items.take 1 = _; rw [h.removed, hitems]; simp
        items := by show a.items.drop 1 = _; rw [hitems]; rfl
        enqueued := h.enqueued
        accounts := ⟨fun hp => ?_, hacct.prompt, hacct.latest, fun hp => ?_, hacct.block⟩
        ticketsOk := h.ticketsOk }⟩
    · have := hacct.kept hp
      simpa [Calls.evicted, leftBy_other] using this
    · have := hacct.oldest hp
      simpa [Calls.evicted, Calls.refused, leftBy_other] using this

theorem sim_shutdown (h : CallsInv capacity policy s a) (hst : stepCalls s .shutdown = some s') :
    ∃ ks a', (Fifo.system (Call α) capacity).exec a ks = some a' ∧ CallsInv capacity policy s' a' := by
  have hacct := h.accounts
  simp only [stepCalls, Option.some.injEq] at hst
  subst hst
  exact h.same rfl rfl rfl rfl rfl rfl
    ⟨hacct.kept, hacct.prompt, hacct.latest, hacct.oldest, fun hp => ⟨(hacct.block hp).1, fun _ => rfl⟩⟩ h.ticketsOk

end Sections

/-! ## Refinement and the contract -/

section Contract

variable {n : ℕ} {policy : BackpressurePolicy} {s : Calls α}

/-- **The queue refines the bounded FIFO** of its capacity, whatever its policy. -/
theorem calls_refines (α : Type) (n : ℕ) (policy : BackpressurePolicy) :
    Lts.Simulates (calls α n policy) (Fifo.system (Call α) (storedCapacity n)) (CallsInv (storedCapacity n) policy)
    where
  init s hs := by
    subst hs
    exact ⟨Fifo.empty, rfl, callsInv_init α n policy⟩
  step s l s' a h hst := by
    cases l with
    | enqueue item => exact sim_enqueue h hst
    | resume i ns => exact sim_resume h hst
    | dequeue => exact sim_dequeue h hst
    | shutdown => exact sim_shutdown h hst

/-- No two of the calls accepted, waiting or refused are the same call. -/
theorem refused_not_accepted {s : Calls α} (h : TicketsOk (tickets s) s.nextTicket) {c d : Call α}
    (hc : c ∈ s.refused) (hd : d ∈ s.accepted) : d.ticket ≠ c.ticket := by
  have hnd := h.2
  rw [tickets, List.map_append, List.nodup_append] at hnd
  exact hnd.2.2 _ (List.mem_map_of_mem (List.mem_append_left _ hd)) _ (List.mem_map_of_mem hc)

/-- **A bounded FIFO with exact accounts, for every policy.**  In every reachable state: the size never exceeds the
capacity; what `dequeue` returned is in the order of the successful `enqueue`s, and the next call returns the oldest frame
that is stored, if there is one; `total_enqueued` counts the frames dequeued, stored and evicted; and the policy's own
promise holds. -/
theorem calls_contract (hs : (calls α n policy).Reachable s) :
    s.q.capacity = storedCapacity n ∧ s.q.size ≤ s.q.capacity ∧
    s.dequeued.Sublist s.accepted ∧ (s.accepted.map Call.ticket).Nodup ∧
    (s.q.dequeue.map fun r => (r.1, r.2.queue)) = s.q.queue.head?.map (fun oldest => (oldest, s.q.queue.tail)) ∧
    s.q.totalEnqueued = s.dequeued.length + s.q.size + s.evicted.length ∧
    (policy ≠ .dropOldest → s.evicted = [] ∧ s.accepted = s.dequeued ++ s.q.queue) ∧
    (policy = .dropLatest → s.completed.length = s.q.totalEnqueued + s.q.totalDropped) ∧
    (policy = .dropOldest → s.q.totalDropped = s.evicted.length ∧ s.waiting = [] ∧ s.refused = [] ∧
      s.q.queue <:+ s.accepted) ∧
    (policy = .block → s.q.totalDropped = 0 ∧
      ∀ c ∈ s.refused, s.q.isShutdown = true ∧ ∀ d ∈ s.q.queue, d.ticket ≠ c.ticket) := by
  obtain ⟨a, -, h⟩ := (calls_refines α n policy).reachable hs
  have hsplit : s.accepted = s.removed.map Prod.snd ++ s.q.queue := by
    rw [← h.accepted, ← h.removed, ← h.items, a.split]
  have hsuffix : s.q.queue <:+ s.accepted := ⟨_, hsplit.symm⟩
  have hnodup : (s.accepted.map Call.ticket).Nodup := by
    have hnd := h.ticketsOk.2
    rw [tickets, List.map_append, List.map_append] at hnd
    exact (List.nodup_append.mp (List.nodup_append.mp hnd).1).1
  have hpol := h.policy_eq
  refine ⟨h.capacity_eq, ?_, ?_, hnodup, dequeue_oldest s.q, ?_, ?_, ?_, ?_, ?_⟩
  · rw [h.capacity_eq]
    exact h.size_le
  · rw [hsplit]
    exact (leftBy_sublist _ _).trans (List.sublist_append_left _ _)
  · have hlen := length_removed s.removed
    rw [h.enqueued, hsplit, List.length_append, List.length_map]
    simp only [Calls.dequeued, Calls.evicted, size]
    omega
  · intro hp
    rw [← hpol] at hp
    have hev := h.accounts.kept hp
    refine ⟨hev, ?_⟩
    have hdeq : s.dequeued = s.removed.map Prod.snd := by
      apply (leftBy_sublist _ _).eq_of_length
      have hlen := length_removed s.removed
      unfold Calls.evicted at hev
      rw [hev] at hlen
      rw [List.length_map]
      simpa using hlen.symm
    rw [hdeq, hsplit]
  · intro hp
    exact h.accounts.latest (hpol.trans hp)
  · intro hp
    obtain ⟨h1, h2⟩ := h.accounts.oldest (hpol.trans hp)
    exact ⟨h1, h.accounts.prompt (by rw [hpol, hp]; simp), h2, hsuffix⟩
  · intro hp
    obtain ⟨h1, h2⟩ := h.accounts.block (hpol.trans hp)
    refine ⟨h1, fun c hc => ⟨h2 (List.ne_nil_of_mem hc), ?_⟩⟩
    intro d hd
    exact refused_not_accepted h.ticketsOk hc (hsuffix.subset hd)

/-- Four calls on a `Block` queue of capacity one (asked for as zero): one dequeued, one stored in its place, one refused by
the shutdown, one still waiting. -/
theorem calls_contract_block : ∃ s : Calls ℕ,
    s.dequeued = [⟨0, 7⟩] ∧ s.q.queue = [⟨1, 8⟩] ∧ s.refused = [⟨2, 9⟩] ∧ s.waiting = [⟨3, 10⟩] ∧
    s.q.capacity = storedCapacity 0 ∧ s.q.size ≤ s.q.capacity ∧
    s.dequeued.Sublist s.accepted ∧ (s.accepted.map Call.ticket).Nodup ∧
    (s.q.dequeue.map fun r => (r.1, r.2.queue)) = s.q.queue.head?.map (fun oldest => (oldest, s.q.queue.tail)) ∧
    s.q.totalEnqueued = s.dequeued.length + s.q.size + s.evicted.length ∧
    (BackpressurePolicy.block ≠ .dropOldest → s.evicted = [] ∧ s.accepted = s.dequeued ++ s.q.queue) ∧
    (BackpressurePolicy.block = .dropLatest → s.completed.length = s.q.totalEnqueued + s.q.totalDropped) ∧
    (BackpressurePolicy.block = .dropOldest → s.q.totalDropped = s.evicted.length ∧ s.waiting = [] ∧
      s.refused = [] ∧ s.q.queue <:+ s.accepted) ∧
    (BackpressurePolicy.block = .block → s.q.totalDropped = 0 ∧
      ∀ c ∈ s.refused, s.q.isShutdown = true ∧ ∀ d ∈ s.q.queue, d.ticket ≠ c.ticket) :=
  have hrun : (calls ℕ 0 .block).Reachable _ := Lts.reachable_of_exec
    [.enqueue 7, .enqueue 8, .dequeue, .resume 0 50, .enqueue 9, .enqueue 10, .shutdown, .resume 0 100] rfl rfl
  ⟨_, rfl, rfl, rfl, rfl, calls_contract hrun⟩

end Contract

end InProcessQueue

end Grebe
