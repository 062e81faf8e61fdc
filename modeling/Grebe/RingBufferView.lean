import Grebe.Lib.Fifo
import Grebe.Lib.Circular

/-!
# Grebe.RingBufferView — the single-producer single-consumer ring buffer

`RingBufferView` works over a block of `capacity_` slots with two indices: the producer owns `head_`, the consumer
owns `tail_`.  Every operation loads its own index, loads the other side's index, copies at most two chunks of data
and stores its own index.  Here each of these is one step of `spsc`, so that the two sides interleave in every way
in the middle of their operations; the order of the loads and stores is the one the acquire/release pairs give.

* `freeCount`, `availCount`, `pushBulkPlan`, …: what an operation decides from its two loads.
* `spsc capacity`: the transition system of one producer and one consumer.
* `pushed`, `popped`, `log`: history, not read by any step.  `pushed` grows when `head_` is stored, `popped` when
  `tail_` is stored; a `Transfer` of the log holds what a call asked for, what it could see and what it returned.
-/

namespace Grebe

open Lib

namespace RingBufferView

/-! ## What an operation decides -/

/-- Free slots seen by the producer. -/
def freeCount (capacity head tail : ℕ) : ℕ :=
  if head ≥ tail then capacity - 1 - head + tail else tail - head - 1

/-- Items seen by the consumer; also the body of `size`. -/
def availCount (capacity head tail : ℕ) : ℕ :=
  if head ≥ tail then head - tail else capacity - tail + head

/-- The chunks of a bulk copy of `n` items from `index`: up to the end of the array, the rest from slot `0`. -/
def bulkChunks (capacity index n : ℕ) : List (ℕ × ℕ) :=
  let firstChunk := min n (capacity - index)
  if n > firstChunk then [(index, firstChunk), (0, n - firstChunk)] else [(index, firstChunk)]

/-- A transfer decided on: the `(slot, length)` chunks to copy, the index to store, the number of items. -/
structure Plan where
  chunks : List (ℕ × ℕ)
  next : ℕ
  count : ℕ
deriving DecidableEq

def pushPlan (capacity head tail : ℕ) : Option Plan :=
  let next := (head + 1) % capacity
  if next = tail then none else some ⟨[(head, 1)], next, 1⟩

def pushBulkPlan (capacity head tail count : ℕ) : Option Plan :=
  let toPush := min count (freeCount capacity head tail)
  if toPush = 0 then none
  else some ⟨bulkChunks capacity head toPush, (head + toPush) % capacity, toPush⟩

def popPlan (capacity tail head : ℕ) : Option Plan :=
  if tail = head then none else some ⟨[(tail, 1)], (tail + 1) % capacity, 1⟩

def popBulkPlan (capacity tail head maxCount : ℕ) : Option Plan :=
  let toPop := min maxCount (availCount capacity head tail)
  if toPop = 0 then none
  else some ⟨bulkChunks capacity tail toPop, (tail + toPop) % capacity, toPop⟩

/-- `discard_bulk` advances the tail without reading a slot. -/
def discardBulkPlan (capacity tail head maxCount : ℕ) : Option Plan :=
  let toDiscard := min maxCount (availCount capacity head tail)
  if toDiscard = 0 then none else some ⟨[], (tail + toDiscard) % capacity, toDiscard⟩

/-! ## Calls, program counters, states -/

section States

variable (α : Type)

/-- A call of the producer. -/
inductive PushOp
  | push (item : α)
  | pushBulk (src : List α)

/-- A call of the consumer. -/
inductive PopOp
  | pop
  | popBulk (maxCount : ℕ)
  | discardBulk (maxCount : ℕ)

/-- A finished call: items asked for, items or room visible at its second load, items transferred. -/
structure Transfer where
  requested : ℕ
  visible : ℕ
  returned : ℕ
deriving DecidableEq

/-- Where the producer is. -/
inductive Producer
  | idle
  | loadedHead (op : PushOp α) (head : ℕ)
  | writing (src : List α) (plan : Plan) (pending : List (ℕ × ℕ)) (copied : ℕ) (call : Transfer)

/-- Where the consumer is. -/
inductive Consumer
  | idle
  | loadedTail (op : PopOp) (tail : ℕ)
  | reading (discard : Bool) (plan : Plan) (pending : List (ℕ × ℕ)) (out : List α) (call : Transfer)

/-- The shared memory, both program counters and the history. -/
structure Spsc where
  data : ℕ → α
  head : ℕ
  tail : ℕ
  producer : Producer α
  consumer : Consumer α
  pushed : List α
  popped : List α
  log : List Transfer

end States

variable {α : Type}

def PushOp.src : PushOp α → List α
  | .push item => [item]
  | .pushBulk src => src

def PushOp.plan (capacity head tail : ℕ) : PushOp α → Option Plan
  | .push _ => pushPlan capacity head tail
  | .pushBulk src => pushBulkPlan capacity head tail src.length

def PopOp.requested : PopOp → ℕ
  | .pop => 1
  | .popBulk maxCount => maxCount
  | .discardBulk maxCount => maxCount

def PopOp.isDiscard : PopOp → Bool
  | .discardBulk _ => true
  | _ => false

def PopOp.plan (capacity tail head : ℕ) : PopOp → Option Plan
  | .pop => popPlan capacity tail head
  | .popBulk maxCount => popBulkPlan capacity tail head maxCount
  | .discardBulk maxCount => discardBulkPlan capacity tail head maxCount

/-- Slots the producer's operation writes between its loads and its store. -/
def Producer.writeSlots : Producer α → List ℕ
  | .writing _ plan _ _ _ => Circular.slots plan.chunks
  | _ => []

/-- Slots the consumer's operation reads between its loads and its store. -/
def Consumer.readSlots : Consumer α → List ℕ
  | .reading _ plan _ _ _ => Circular.slots plan.chunks
  | _ => []

/-- Items stored between the two indices, by the history. -/
def Spsc.stored (s : Spsc α) : ℕ := s.pushed.length - s.popped.length

/-! ## Steps -/

inductive Label (α : Type)
  | callPush (op : PushOp α)
  | loadTail
  | copyIn
  | storeHead
  | callPop (op : PopOp)
  | loadHead
  | copyOut
  | storeTail

/-- The items `discard_bulk` gives up: what is in the `n` slots from `tail` on when `tail_` is stored. -/
def discarded (capacity : ℕ) (s : Spsc α) (n : ℕ) : List α :=
  (List.range n).map fun j => s.data ((s.tail + j) % capacity)

def stepProducer (capacity : ℕ) (s : Spsc α) : Label α → Option (Spsc α)
  | .callPush op =>
    match s.producer with
    | .idle =>
      -- a count of zero returns before any load
      if op.src.length = 0 then some { s with log := s.log ++ [⟨0, 0, 0⟩] }
      else some { s with producer := .loadedHead op s.head }
    | _ => none
  | .loadTail =>
    match s.producer with
    | .loadedHead op head =>
      let room := capacity - 1 - s.stored
      match op.plan capacity head s.tail with
      | none => some { s with producer := .idle, log := s.log ++ [⟨op.src.length, room, 0⟩] }
      | some plan =>
        some { s with producer := .writing op.src plan plan.chunks 0 ⟨op.src.length, room, plan.count⟩ }
    | _ => none
  | .copyIn =>
    match s.producer with
    | .writing src plan ((slot, n) :: rest) copied call =>
      some { s with
        data := Circular.store s.data slot ((src.drop copied).take n)
        producer := .writing src plan rest (copied + n) call }
    | _ => none
  | .storeHead =>
    match s.producer with
    | .writing src plan [] _ call =>
      some { s with
        head := plan.next
        producer := .idle
        pushed := s.pushed ++ src.take plan.count
        log := s.log ++ [call] }
    | _ => none
  | _ => none

def stepConsumer (capacity : ℕ) (s : Spsc α) : Label α → Option (Spsc α)
  | .callPop op =>
    match s.consumer with
    | .idle =>
      if op.requested = 0 then some { s with log := s.log ++ [⟨0, 0, 0⟩] }
      else some { s with consumer := .loadedTail op s.tail }
    | _ => none
  | .loadHead =>
    match s.consumer with
    | .loadedTail op tail =>
      match op.plan capacity tail s.head with
      | none => some { s with consumer := .idle, log := s.log ++ [⟨op.requested, s.stored, 0⟩] }
      | some plan =>
        some { s with
          consumer := .reading op.isDiscard plan plan.chunks [] ⟨op.requested, s.stored, plan.count⟩ }
    | _ => none
  | .copyOut =>
    match s.consumer with
    | .reading discard plan ((slot, n) :: rest) out call =>
      some { s with consumer := .reading discard plan rest (out ++ Circular.load s.data slot n) call }
    | _ => none
  | .storeTail =>
    match s.consumer with
    | .reading discard plan [] out call =>
      some { s with
        tail := plan.next
        consumer := .idle
        popped := s.popped ++ if discard then discarded capacity s plan.count else out
        log := s.log ++ [call] }
    | _ => none
  | _ => none

/-- One producer and one consumer over `capacity` slots, each holding `blank` at first. -/
def spsc (capacity : ℕ) (blank : α) : Lts (Spsc α) (Label α) where
  init s := s = ⟨fun _ => blank, 0, 0, .idle, .idle, [], [], []⟩
  step s l :=
    match l with
    | .callPush _ | .loadTail | .copyIn | .storeHead => stepProducer capacity s l
    | .callPop _ | .loadHead | .copyOut | .storeTail => stepConsumer capacity s l

end RingBufferView

end Grebe
