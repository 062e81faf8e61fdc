import Mathlib.Tactic

/-!
# Grebe.InProcessQueue — the bounded queue between two stages

A `std::deque` under one mutex, with a backpressure policy applied when `enqueue` finds it full.  Every method is one
critical section, except `enqueue` under `Block`: its wait on `not_full_` releases the mutex, so it is two sections,
`enqueue` (which then yields `none`) and `resume` after the wait.  `canResume` is the predicate of the wait.

`fill_ratio` and the time reading around the wait are left out; the nanoseconds of a wait are an argument of `resume`.
-/

namespace Grebe

/-- What `enqueue` does with a full queue. -/
inductive BackpressurePolicy
  | dropLatest
  | dropOldest
  | block
deriving DecidableEq

/-- The state of a queue; the constructor never makes one without room for an item. -/
structure InProcessQueue (α : Type) where
  capacity : ℕ
  policy : BackpressurePolicy
  isShutdown : Bool
  queue : List α
  totalEnqueued : ℕ
  totalDropped : ℕ
  totalBlockedNs : ℕ
  capacity_pos : 0 < capacity

namespace InProcessQueue

variable {α : Type}

/-- The capacity the constructor stores: zero is taken as one. -/
def storedCapacity (capacity : ℕ) : ℕ := if capacity > 0 then capacity else 1

theorem storedCapacity_pos (capacity : ℕ) : 0 < storedCapacity capacity := by
  unfold storedCapacity
  split_ifs <;> omega

/-- The constructor. -/
def make (capacity : ℕ) (policy : BackpressurePolicy) : InProcessQueue α where
  capacity := storedCapacity capacity
  policy := policy
  isShutdown := false
  queue := []
  totalEnqueued := 0
  totalDropped := 0
  totalBlockedNs := 0
  capacity_pos := storedCapacity_pos capacity

def size (q : InProcessQueue α) : ℕ := q.queue.length

def empty (q : InProcessQueue α) : Bool := q.queue.isEmpty

def full (q : InProcessQueue α) : Bool := q.queue.length ≥ q.capacity

/-- `push_back` and the count of it. -/
def push (q : InProcessQueue α) (item : α) : InProcessQueue α :=
  { q with queue := q.queue ++ [item], totalEnqueued := q.totalEnqueued + 1 }

/-- `enqueue` up to its return or to the wait (`none`). -/
def enqueue (q : InProcessQueue α) (item : α) : Option (InProcessQueue α × Bool) :=
  if q.queue.length ≥ q.capacity then
    match q.policy with
    | .dropLatest => some ({ q with totalDropped := q.totalDropped + 1 }, false)
    | .dropOldest =>
      some (push { q with queue := q.queue.tail, totalDropped := q.totalDropped + 1 } item, true)
    | .block => none
  else some (q.push item, true)

/-- The predicate of the wait on `not_full_`. -/
def canResume (q : InProcessQueue α) : Bool := q.queue.length < q.capacity || q.isShutdown

/-- `enqueue` after its wait of `ns` nanoseconds. -/
def resume (q : InProcessQueue α) (item : α) (ns : ℕ) : InProcessQueue α × Bool :=
  let q := { q with totalBlockedNs := q.totalBlockedNs + ns }
  if q.isShutdown then (q, false) else (q.push item, true)

def dequeue (q : InProcessQueue α) : Option (α × InProcessQueue α) :=
  match q.queue with
  | [] => none
  | item :: rest => some (item, { q with queue := rest })

def shutdown (q : InProcessQueue α) : InProcessQueue α := { q with isShutdown := true }

/-! ## What each method does, said once -/

section Spec

variable (q : InProcessQueue α) (item : α)

@[simp] theorem push_queue : (q.push item).queue = q.queue ++ [item] := rfl

@[simp] theorem push_capacity : (q.push item).capacity = q.capacity := rfl

@[simp] theorem push_policy : (q.push item).policy = q.policy := rfl

@[simp] theorem push_isShutdown : (q.push item).isShutdown = q.isShutdown := rfl

@[simp] theorem push_totalEnqueued : (q.push item).totalEnqueued = q.totalEnqueued + 1 := rfl

@[simp] theorem push_totalDropped : (q.push item).totalDropped = q.totalDropped := rfl

theorem full_iff : q.full = true ↔ q.capacity ≤ q.queue.length := by
  simp [full]

/-- **The outcomes of `enqueue`.**  With room, the item is appended.  Without, the policy decides: the item is
dropped, the oldest one makes way for it, or the call goes to wait. -/
theorem enqueue_cases :
    (q.queue.length < q.capacity ∧ q.enqueue item = some (q.push item, true)) ∨
    (q.capacity ≤ q.queue.length ∧
      ((q.policy = .dropLatest ∧ q.enqueue item = some ({ q with totalDropped := q.totalDropped + 1 }, false)) ∨
       (q.policy = .dropOldest ∧ ∃ oldest rest, q.queue = oldest :: rest ∧
          q.enqueue item = some (push { q with queue := rest, totalDropped := q.totalDropped + 1 } item, true)) ∨
       (q.policy = .block ∧ q.enqueue item = none))) := by
  unfold enqueue
  by_cases hfull : q.queue.length ≥ q.capacity
  · refine Or.inr ⟨hfull, ?_⟩
    rw [if_pos hfull]
    cases hpol : q.policy with
    | dropLatest => exact Or.inl ⟨rfl, rfl⟩
    | dropOldest =>
      have hne : q.queue ≠ [] := by
        intro hnil
        have := q.capacity_pos
        rw [hnil, List.length_nil] at hfull
        omega
      obtain ⟨oldest, rest, hq⟩ := List.exists_cons_of_ne_nil hne
      refine Or.inr (Or.inl ⟨rfl, oldest, rest, hq, ?_⟩)
      simp only [hq, List.tail_cons]
    | block => exact Or.inr (Or.inr ⟨rfl, rfl⟩)
  · exact Or.inl ⟨by omega, by rw [if_neg hfull]⟩

theorem enqueue_none_iff : q.enqueue item = none ↔ q.policy = .block ∧ q.capacity ≤ q.queue.length := by
  rcases q.enqueue_cases item with ⟨hlt, h⟩ | ⟨hfull, ⟨hp, h⟩ | ⟨hp, _, _, _, h⟩ | ⟨hp, h⟩⟩
  · rw [h]
    simp only [reduceCtorEq, false_iff, not_and, not_le]
    exact fun _ => hlt
  all_goals simp [h, hp, hfull]

/-- **The outcomes of `resume`**, when the wait is over: refused after a shutdown, else appended. -/
theorem resume_cases (ns : ℕ) (h : q.canResume = true) :
    (q.isShutdown = true ∧ q.resume item ns = ({ q with totalBlockedNs := q.totalBlockedNs + ns }, false)) ∨
    (q.isShutdown = false ∧ q.queue.length < q.capacity ∧
      q.resume item ns = (push { q with totalBlockedNs := q.totalBlockedNs + ns } item, true)) := by
  unfold resume
  cases hs : q.isShutdown with
  | true => exact Or.inl ⟨rfl, rfl⟩
  | false =>
    simp only [canResume, hs, Bool.or_false, decide_eq_true_eq] at h
    exact Or.inr ⟨rfl, h, rfl⟩

/-- The oldest frame leaves, if there is one. -/
theorem dequeue_oldest : (q.dequeue.map fun r => (r.1, r.2.queue)) = q.queue.head?.map fun oldest =>
    (oldest, q.queue.tail) := by
  unfold dequeue
  cases q.queue <;> rfl

theorem dequeue_eq_some {q' : InProcessQueue α} {x : α} (h : q.dequeue = some (x, q')) :
    q.queue = x :: q'.queue ∧ q' = { q with queue := q'.queue } := by
  unfold dequeue at h
  cases hq : q.queue with
  | nil => simp [hq] at h
  | cons y rest =>
    rw [hq] at h
    simp only [Option.some.injEq, Prod.mk.injEq] at h
    obtain ⟨rfl, rfl⟩ := h
    exact ⟨rfl, rfl⟩

end Spec

end InProcessQueue

end Grebe
