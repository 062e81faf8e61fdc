import Mathlib.Tactic
import Grebe.Lib.Lts
import Grebe.Lib.Ledger
import Grebe.Frame
import Grebe.InProcessQueueCalls

/-!
# Grebe.FrameOwnership — who releases a borrowed buffer

A `Frame` is its value; here it is the object: the value, and beside it what `make_borrowed` was given and has to be
released.  A program is a list of objects (frames, vectors, batches, queues) and one step of it is one operation of the
interface.  A move leaves its source behind, so a frame that was moved from is still an object, and is destroyed too.

* `FrameObject`: the special members, each with the callbacks that it runs.
* `FrameStore.step`: the operations.  A call of `enqueue` that waits keeps a reference to its frame in `waiting`.
* `Accounted`: the live frames hold the buffers of a `Lib.Ledger` that were not given back; the callbacks run are those
  that were.
* `released_exactly_once`: what that comes to, after any operations.

Operations that the interface forbids, such as to destroy a frame while a call waits with it, are not excluded: the
wait then has no step.
-/

namespace Grebe

open Lib

/-! ## Frames as objects -/

section FrameObject

inductive OwnershipModel
  | owned
  | borrowed
deriving DecidableEq

/-- What the pointer given to `make_borrowed` points to; `borrow` tells the calls apart. -/
structure BorrowedBuffer where
  borrow : ℕ
  samples : List Int16
deriving DecidableEq

/-- A frame; its own `data` is `owned_data_`.  A release callback is known by the call that it was given to. -/
structure FrameObject (ρ : Type) extends Frame ρ where
  ownership : OwnershipModel
  borrowedPtr : Option BorrowedBuffer
  borrowedCount : ℕ
  releaseCb : Option ℕ
deriving DecidableEq

end FrameObject

namespace FrameObject

variable {ρ : Type}

section Members

/-- The frame of a factory that owns its data. -/
def ofFrame (f : Frame ρ) : FrameObject ρ where
  toFrame := f
  ownership := .owned
  borrowedPtr := none
  borrowedCount := 0
  releaseCb := none

/-- `make_owned`. -/
def makeOwned [Zero ρ] (channels samplesPerCh : UInt32) : FrameObject ρ := ofFrame (.makeOwned channels samplesPerCh)

/-- `from_frame_buffer`. -/
def fromFrameBuffer [Zero ρ] (fb : FrameBuffer) : FrameObject ρ := ofFrame (.fromFrameBuffer fb)

/-- `make_borrowed`; the other fields are at their defaults. -/
def makeBorrowed [Zero ρ] (ptr : BorrowedBuffer) (count release : ℕ) : FrameObject ρ where
  toFrame := .makeOwned 0 0
  ownership := .borrowed
  borrowedPtr := some ptr
  borrowedCount := count
  releaseCb := some release

variable (f : FrameObject ρ)

/-- The samples that `data()` and `data_count()` describe. -/
def samples : List Int16 :=
  match f.ownership with
  | .owned => f.data
  | .borrowed => (f.borrowedPtr.elim [] BorrowedBuffer.samples).take f.borrowedCount

/-- The frame as the stages see it. -/
def value : Frame ρ := { f.toFrame with data := f.samples }

/-- `to_owned`. -/
def toOwned : FrameObject ρ := ofFrame { f.toFrame with data := f.samples }

/-- `release_borrowed`, with the callbacks that it runs. -/
def releaseBorrowed : FrameObject ρ × List ℕ :=
  ({ f with releaseCb := none, borrowedPtr := none, borrowedCount := 0 },
    if f.ownership = .borrowed ∧ f.borrowedPtr.isSome then f.releaseCb.toList else [])

/-- The source of a move. -/
def moved : FrameObject ρ :=
  { f with data := [], borrowedPtr := none, borrowedCount := 0, releaseCb := none, ownership := .owned }

/-- The move constructor: the new frame, and `other` after it. -/
def moveConstruct (other : FrameObject ρ) : FrameObject ρ × FrameObject ρ := (other, other.moved)

/-- The move assignment from another frame: `this` and `other` after it, and the callbacks that ran. -/
def moveAssign (this other : FrameObject ρ) : FrameObject ρ × FrameObject ρ × List ℕ :=
  (other, other.moved, this.releaseBorrowed.2)

/-- The destructor. -/
def destroy : List ℕ := f.releaseBorrowed.2

end Members

section Held

variable (f : FrameObject ρ)

def RefersTo (b : ℕ) : Prop := f.borrowedPtr.map BorrowedBuffer.borrow = some b

instance (b : ℕ) : Decidable (f.RefersTo b) :=
  inferInstanceAs (Decidable (f.borrowedPtr.map BorrowedBuffer.borrow = some b))

/-- The buffer that the frame refers to, if any. -/
def held : Multiset ℕ := f.borrowedPtr.elim 0 fun ptr => {ptr.borrow}

/-- A frame either owns its samples, or has a buffer and the callback for it. -/
def Consistent : Prop :=
  (f.ownership = .owned ∧ f.borrowedPtr = none ∧ f.releaseCb = none) ∨
    (f.ownership = .borrowed ∧ ∃ ptr, f.borrowedPtr = some ptr ∧ f.releaseCb = some ptr.borrow)

@[simp] theorem ofFrame_held (g : Frame ρ) : (ofFrame g).held = 0 := rfl

theorem ofFrame_consistent (g : Frame ρ) : (ofFrame g).Consistent := .inl ⟨rfl, rfl, rfl⟩

@[simp] theorem moved_held : f.moved.held = 0 := rfl

theorem moved_consistent : f.moved.Consistent := .inl ⟨rfl, rfl, rfl⟩

theorem makeBorrowed_consistent [Zero ρ] (ptr : BorrowedBuffer) (count : ℕ) :
    (makeBorrowed ptr count ptr.borrow : FrameObject ρ).Consistent := .inr ⟨rfl, ptr, rfl, rfl⟩

/-- **A release gives back what the frame held**, and nothing twice. -/
theorem Consistent.destroy_eq (h : f.Consistent) : (f.destroy : Multiset ℕ) = f.held := by
  rcases h with ⟨howned, hptr, -⟩ | ⟨hborrowed, ptr, hptr, hcb⟩
  · simp [destroy, releaseBorrowed, held, howned, hptr]
  · simp [destroy, releaseBorrowed, held, hborrowed, hptr, hcb]

/-- Neither a copy nor a move changes what the stages see. -/
theorem copy_value : f.toOwned.value = f.value ∧ f.moveConstruct.1.value = f.value := ⟨rfl, rfl⟩

end Held

end FrameObject

/-! ## Objects -/

section Object

variable {ρ : Type}

/-- An object with frames in it; `destroyed` is what is left of one. -/
inductive FrameHolder (ρ : Type)
  | frame (f : FrameObject ρ)
  | vector (frames : List (FrameObject ρ))
  | writer (frames : List (FrameObject ρ))
  | view (frames : List (FrameObject ρ))
  | queue (q : InProcessQueue (FrameObject ρ))
  | destroyed

namespace FrameHolder

def frames : FrameHolder ρ → List (FrameObject ρ)
  | .frame f => [f]
  | .vector frames | .writer frames | .view frames => frames
  | .queue q => q.queue
  | .destroyed => []

/-- The frame that a program can read at `i`: a queue and a `BatchWriter` give no access to theirs. -/
def frameAt : FrameHolder ρ → ℕ → Option (FrameObject ρ)
  | .frame f, 0 => some f
  | .vector frames, i | .view frames, i => frames[i]?
  | _, _ => none

/-- The object with another frame at `i`; the frames of a `BatchView` are `const`. -/
def setFrame : FrameHolder ρ → ℕ → FrameObject ρ → Option (FrameHolder ρ)
  | .frame _, 0, f => some (.frame f)
  | .vector frames, i, f => some (.vector (frames.set i f))
  | _, _, _ => none

end FrameHolder

/-- `push_back` on a vector of frames: when it has to grow, every frame is moved to its new place and destroyed in the
old one. -/
def pushBack (grow : Bool) (frames : List (FrameObject ρ)) (f : FrameObject ρ) : List (FrameObject ρ) × List ℕ :=
  if grow then
    (frames.map (fun g => g.moveConstruct.1) ++ [f], (frames.map fun g => g.moveConstruct.2).flatMap FrameObject.destroy)
  else (frames ++ [f], [])

end Object

/-! ## Operations -/

/-- Where a frame is: the number of the object, and the place in it. -/
@[ext]
structure FramePlace where
  object : ℕ
  index : ℕ
deriving DecidableEq

/-- The objects of a program in the order of their making, the calls of `enqueue` that wait (the queue, and where the
frame is), how often `make_borrowed` was called, and the callbacks run so far. -/
structure FrameStore (ρ : Type) where
  objects : List (FrameHolder ρ)
  waiting : List (ℕ × FramePlace)
  borrows : ℕ
  released : List ℕ

namespace FrameStore

variable {ρ : Type}

section Steps

inductive Label
  | makeOwned (channels samplesPerCh : UInt32)
  | fromFrameBuffer (fb : FrameBuffer)
  | makeBorrowed (samples : List Int16)
  | toOwned (src : FramePlace)
  | moveConstruct (src : FramePlace)
  | moveAssign (dst src : FramePlace)
  | destroy (k : ℕ)
  | newVector
  /-- `push_back` of a frame to the vector `k`. -/
  | pushBack (k : ℕ) (src : FramePlace) (grow : Bool)
  | newWriter
  /-- `BatchWriter::push`. -/
  | push (k : ℕ) (src : FramePlace) (grow : Bool)
  /-- `BatchWriter::take`. -/
  | take (k : ℕ)
  /-- The `BatchView` over the vector `k`. -/
  | newView (k : ℕ)
  | newQueue (capacity : ℕ) (policy : BackpressurePolicy)
  | enqueue (k : ℕ) (src : FramePlace)
  /-- The `i`-th waiting call of `enqueue` goes on, after `ns` nanoseconds. -/
  | resume (i ns : ℕ)
  | dequeue (k : ℕ)
  | shutdown (k : ℕ)

variable (s : FrameStore ρ)

def frameAt (p : FramePlace) : Option (FrameObject ρ) := s.objects[p.object]?.bind fun o => o.frameAt p.index

def queueAt (k : ℕ) : Option (InProcessQueue (FrameObject ρ)) :=
  match s.objects[k]? with
  | some (.queue q) => some q
  | _ => none

def put (k : ℕ) (o : FrameHolder ρ) : FrameStore ρ := { s with objects := s.objects.set k o }

def add (o : FrameHolder ρ) : FrameStore ρ := { s with objects := s.objects ++ [o] }

/-- The callbacks `cbs` are run. -/
def run (cbs : List ℕ) : FrameStore ρ := { s with released := s.released ++ cbs }

def wait (k : ℕ) (p : FramePlace) : FrameStore ρ := { s with waiting := s.waiting ++ [(k, p)] }

/-- The `i`-th wait is over. -/
def wake (i : ℕ) : FrameStore ρ := { s with waiting := s.waiting.eraseIdx i }

def setFrame (p : FramePlace) (f : FrameObject ρ) : Option (FrameStore ρ) :=
  s.objects[p.object]?.bind fun o => (o.setFrame p.index f).map (s.put p.object)

/-- A frame is moved out of `p`. -/
def moveOut (p : FramePlace) : Option (FrameObject ρ × FrameStore ρ) :=
  (s.frameAt p).bind fun f => (s.setFrame p f.moveConstruct.2).map fun s' => (f.moveConstruct.1, s')

/-- `operator=` from another frame. -/
def assign (dst src : FramePlace) : Option (FrameStore ρ) :=
  (s.frameAt src).bind fun other => (s.frameAt dst).bind fun this =>
    let r := this.moveAssign other
    (s.setFrame src r.2.1).bind fun s' => (s'.setFrame dst r.1).map fun s'' => s''.run r.2.2

/-- `enqueue` up to its return or its wait.  The frame is moved only if the queue takes it. -/
def enqueue (k : ℕ) (src : FramePlace) : Option (FrameStore ρ) :=
  (s.queueAt k).bind fun q => (s.moveOut src).map fun (f, s') =>
    match q.enqueue f with
    | none => s.wait k src
    | some (q', false) => s.put k (.queue q')
    | some (q', true) =>
      (s'.put k (.queue q')).run (((InProcessQueue.evictedBy q).map Prod.snd).flatMap FrameObject.destroy)

/-- `enqueue` from the end of its wait on. -/
def resume (i ns : ℕ) : Option (FrameStore ρ) :=
  s.waiting[i]?.bind fun (k, src) => (s.queueAt k).bind fun q => (s.moveOut src).bind fun (f, s') =>
    if q.canResume then
      match q.resume f ns with
      | (q', false) => some ((s.put k (.queue q')).wake i)
      | (q', true) => some ((s'.put k (.queue q')).wake i)
    else none

/-- `dequeue`: the front is moved to a local frame, destroyed, and the local frame moved to the result. -/
def dequeue (k : ℕ) : Option (FrameStore ρ) :=
  (s.queueAt k).map fun q =>
    match q.dequeue with
    | none => s
    | some (front, q') =>
      let f := front.moveConstruct
      let result := f.1.moveConstruct
      (((s.put k (.queue q')).run f.2.destroy).run result.2.destroy).add (.frame result.1)

def step [Zero ρ] : Label → Option (FrameStore ρ)
  | .makeOwned channels samplesPerCh => some (s.add (.frame (.makeOwned channels samplesPerCh)))
  | .fromFrameBuffer fb => some (s.add (.frame (.fromFrameBuffer fb)))
  | .makeBorrowed samples =>
    some { s.add (.frame (.makeBorrowed ⟨s.borrows, samples⟩ samples.length s.borrows)) with borrows := s.borrows + 1 }
  | .toOwned src => (s.frameAt src).map fun f => s.add (.frame f.toOwned)
  | .moveConstruct src => (s.moveOut src).map fun (f, s') => s'.add (.frame f)
  | .moveAssign dst src => if dst = src then (s.frameAt dst).map fun _ => s else s.assign dst src
  | .destroy k => s.objects[k]?.map fun o => (s.put k .destroyed).run (o.frames.flatMap FrameObject.destroy)
  | .newVector => some (s.add (.vector []))
  | .pushBack k src grow =>
    (s.moveOut src).bind fun (f, s') =>
      match s'.objects[k]? with
      | some (.vector frames) =>
        let r := Grebe.pushBack grow frames f
        some ((s'.put k (.vector r.1)).run r.2)
      | _ => none
  | .newWriter => some (s.add (.writer []))
  | .push k src grow =>
    (s.moveOut src).bind fun (f, s') =>
      match s'.objects[k]? with
      | some (.writer frames) =>
        let r := Grebe.pushBack grow frames f
        some ((s'.put k (.writer r.1)).run r.2)
      | _ => none
  | .take k =>
    match s.objects[k]? with
    | some (.writer frames) => some ((s.put k (.writer [])).add (.vector frames))
    | _ => none
  | .newView k =>
    match s.objects[k]? with
    | some (.vector frames) => some ((s.put k (.vector [])).add (.view frames))
    | _ => none
  | .newQueue capacity policy => some (s.add (.queue (.make capacity policy)))
  | .enqueue k src => s.enqueue k src
  | .resume i ns => s.resume i ns
  | .dequeue k => s.dequeue k
  | .shutdown k => (s.queueAt k).map fun q => s.put k (.queue q.shutdown)

/-- A program before its first frame. -/
def start : FrameStore ρ where
  objects := []
  waiting := []
  borrows := 0
  released := []

def program (ρ : Type) [Zero ρ] : Lts (FrameStore ρ) Label where
  init s := s = start
  step s := s.step

/-- The frames that are alive. -/
def live : List (FrameObject ρ) := s.objects.flatMap FrameHolder.frames

/-- How many live frames refer to buffer `b`. -/
def holders (b : ℕ) : ℕ := s.live.countP fun f => f.RefersTo b

end Steps

/-! ## The ledger of the buffers -/

section Ledger

/-- The buffers that the frames refer to. -/
def heldBy (frames : List (FrameObject ρ)) : Multiset ℕ := (frames.map FrameObject.held).sum

@[simp] theorem heldBy_nil : heldBy ([] : List (FrameObject ρ)) = 0 := rfl

@[simp] theorem heldBy_cons (f : FrameObject ρ) (l : List (FrameObject ρ)) : heldBy (f :: l) = f.held + heldBy l := by
  simp [heldBy]

@[simp] theorem heldBy_append (l l' : List (FrameObject ρ)) : heldBy (l ++ l') = heldBy l + heldBy l' := by
  simp [heldBy]

theorem heldBy_perm {l l' : List (FrameObject ρ)} (h : l.Perm l') : heldBy l = heldBy l' :=
  (h.map FrameObject.held).sum_eq

theorem count_held (f : FrameObject ρ) (b : ℕ) : f.held.count b = if f.RefersTo b then 1 else 0 := by
  cases hptr : f.borrowedPtr with
  | none => simp [FrameObject.held, FrameObject.RefersTo, hptr]
  | some ptr => simp [FrameObject.held, FrameObject.RefersTo, hptr, Multiset.count_singleton, eq_comm]

theorem count_heldBy (l : List (FrameObject ρ)) (b : ℕ) : (heldBy l).count b = l.countP fun f => f.RefersTo b := by
  induction l with
  | nil => rfl
  | cons f l ih =>
    rw [heldBy_cons, Multiset.count_add, ih, count_held, List.countP_cons, add_comm]
    simp only [decide_eq_true_eq]

/-- A destroyed list of frames gives back what they held. -/
theorem destroy_all {l : List (FrameObject ρ)} (h : ∀ f ∈ l, f.Consistent) :
    ((l.flatMap FrameObject.destroy : List ℕ) : Multiset ℕ) = heldBy l := by
  induction l with
  | nil => rfl
  | cons f l ih =>
    rw [List.flatMap_cons, ← Multiset.coe_add, (h f (by simp)).destroy_eq, ih fun g hg => h g (by simp [hg]),
      heldBy_cons]

variable {s s' : FrameStore ρ} {F F' G : List (FrameObject ρ)} {f : FrameObject ρ} {k : ℕ} {o o' : FrameHolder ρ}
  {p : FramePlace}

/-- The buffers held by the live frames, and by the frames `F` on their way between two objects, are the ones that were
not released. -/
structure Accounted (F : List (FrameObject ρ)) (s : FrameStore ρ) : Prop where
  consistent : ∀ f ∈ F ++ s.live, f.Consistent
  ledger : ∃ L : Lib.Ledger, L.held = heldBy (F ++ s.live) ∧ L.released = s.released ∧ L.issued = s.borrows

namespace Accounted

/-- Where the frames are does not matter. -/
theorem perm (h : Accounted F s) (hp : (F' ++ s'.live).Perm (F ++ s.live)) (hr : s'.released = s.released)
    (hb : s'.borrows = s.borrows) : Accounted F' s' := by
  obtain ⟨L, hheld, hreleased, hissued⟩ := h.ledger
  exact ⟨fun f hf => h.consistent f (hp.mem_iff.mp hf), L, by rw [hheld, heldBy_perm hp], by rw [hreleased, hr],
    by rw [hissued, hb]⟩

/-- A frame without a buffer can come from anywhere. -/
theorem fresh (h : Accounted F s) (hc : f.Consistent) (h0 : f.held = 0) : Accounted (f :: F) s := by
  obtain ⟨L, hheld, hL⟩ := h.ledger
  refine ⟨?_, L, ?_, hL⟩
  · rw [List.cons_append]
    exact List.forall_mem_cons.mpr ⟨hc, h.consistent⟩
  · rw [hheld, List.cons_append, heldBy_cons, h0, zero_add]

theorem fresh_all (h : Accounted F s) (hG : ∀ f ∈ G, f.Consistent ∧ f.held = 0) : Accounted (G ++ F) s := by
  induction G with
  | nil => exact h
  | cons f G ih => exact (ih fun g hg => hG g (by simp [hg])).fresh (hG f (by simp)).1 (hG f (by simp)).2

/-- `make_borrowed`. -/
theorem borrow [Zero ρ] (h : Accounted F s) (samples : List Int16) (count : ℕ) :
    Accounted (.makeBorrowed ⟨s.borrows, samples⟩ count s.borrows :: F) { s with borrows := s.borrows + 1 } := by
  obtain ⟨L, hheld, hreleased, hissued⟩ := h.ledger
  refine ⟨?_, L.issue, ?_, hreleased, congrArg (· + 1) hissued⟩
  · rw [List.cons_append]
    exact List.forall_mem_cons.mpr ⟨FrameObject.makeBorrowed_consistent _ _, h.consistent⟩
  · rw [List.cons_append, heldBy_cons]
    show L.issued ::ₘ L.held = {s.borrows} + heldBy (F ++ s.live)
    rw [hheld, hissued, Multiset.singleton_add]

/-- Destroyed frames give back their buffers. -/
theorem drop (h : Accounted (G ++ F) s) : Accounted F (s.run (G.flatMap FrameObject.destroy)) := by
  obtain ⟨L, hheld, hreleased, hissued⟩ := h.ledger
  have hG : ∀ f ∈ G, f.Consistent := fun f hf => h.consistent f (by simp [hf])
  rw [List.append_assoc, heldBy_append, ← destroy_all hG] at hheld
  refine ⟨fun f hf => h.consistent f (by rw [List.append_assoc]; exact List.mem_append_right _ hf),
    L.giveBack hheld, rfl, ?_, hissued⟩
  show L.released + _ = _
  rw [hreleased, Multiset.coe_add]
  rfl

end Accounted

end Ledger

/-! ## What the operations do to the live frames -/

section Live

variable {s s' : FrameStore ρ} {F F' G : List (FrameObject ρ)} {f g : FrameObject ρ} {k : ℕ} {o o' : FrameHolder ρ}
  {p : FramePlace}

theorem live_add : (s.add o).live = s.live ++ o.frames := by
  simp [live, add]

theorem live_put (o' : FrameHolder ρ) (hk : s.objects[k]? = some o) : (o.frames ++ (s.put k o').live).Perm (o'.frames ++ s.live) := by
  obtain ⟨hlt, rfl⟩ := List.getElem?_eq_some_iff.mp hk
  have hsplit : s.objects = s.objects.take k ++ s.objects[k] :: s.objects.drop (k + 1) := by
    rw [← List.drop_eq_getElem_cons hlt, List.take_append_drop]
  have hput : (s.put k o').live = (s.objects.take k).flatMap FrameHolder.frames ++ (o'.frames ++
      (s.objects.drop (k + 1)).flatMap FrameHolder.frames) := by
    show (s.objects.set k o').flatMap FrameHolder.frames = _
    rw [List.set_eq_take_append_cons_drop, if_pos hlt, List.flatMap_append, List.flatMap_cons]
  have hlive : s.live = (s.objects.take k).flatMap FrameHolder.frames ++ (s.objects[k].frames ++
      (s.objects.drop (k + 1)).flatMap FrameHolder.frames) := by
    show s.objects.flatMap FrameHolder.frames = _
    conv_lhs => rw [hsplit]
    rw [List.flatMap_append, List.flatMap_cons]
  rw [hput, hlive, ← Multiset.coe_eq_coe]
  simp only [← Multiset.coe_add]
  abel

theorem Accounted.put (h : Accounted F s) (hk : s.objects[k]? = some o)
    (hp : (F' ++ o'.frames).Perm (F ++ o.frames)) : Accounted F' (s.put k o') := by
  refine h.perm ?_ rfl rfl
  have hlive := live_put o' hk
  rw [← Multiset.coe_eq_coe] at hp hlive ⊢
  simp only [← Multiset.coe_add] at hp hlive ⊢
  have hsum : (F' : Multiset (FrameObject ρ)) + (s.put k o').live + (o.frames + o'.frames) =
      F + s.live + (o.frames + o'.frames) := by
    rw [show (F' : Multiset (FrameObject ρ)) + (s.put k o').live + (o.frames + o'.frames) =
      F' + o'.frames + (o.frames + (s.put k o').live) by abel, hp, hlive]
    abel
  exact add_right_cancel hsum

theorem Accounted.add (h : Accounted F s) (hp : (F' ++ o.frames).Perm F) : Accounted F' (s.add o) := by
  refine h.perm ?_ rfl rfl
  rw [live_add]
  rw [← Multiset.coe_eq_coe] at hp ⊢
  simp only [← Multiset.coe_add] at hp ⊢
  rw [← hp]
  abel

theorem frameAt_setFrame {i : ℕ} (hat : o.frameAt i = some g) (hset : o.setFrame i f = some o') :
    (g :: o'.frames).Perm (f :: o.frames) := by
  cases o with
  | frame h =>
    cases i with
    | zero =>
      cases hat
      cases hset
      exact List.Perm.swap _ _ _
    | succ i => cases hat
  | vector l =>
    cases hset
    obtain ⟨hlt, rfl⟩ := List.getElem?_eq_some_iff.mp hat
    show (l[i] :: l.set i f).Perm (f :: l)
    calc (l[i] :: l.set i f).Perm (l[i] :: f :: l.eraseIdx i) := (List.set_perm_cons_eraseIdx hlt f).cons _
      _ |>.Perm (f :: l[i] :: l.eraseIdx i) := List.Perm.swap _ _ _
      _ |>.Perm (f :: l) := (List.getElem_cons_eraseIdx_perm hlt).cons _
  | writer l => cases hset
  | view l => cases hset
  | queue q => cases hset
  | destroyed => cases hset

/-- A frame takes the place of another. -/
theorem Accounted.setFrame (h : Accounted (f :: F) s) (hat : s.frameAt p = some g) (hset : s.setFrame p f = some s') :
    Accounted (g :: F) s' := by
  obtain ⟨o, hk, hmap⟩ := Option.bind_eq_some_iff.mp hset
  obtain ⟨o', ho', rfl⟩ := Option.map_eq_some_iff.mp hmap
  rw [frameAt, hk, Option.bind_some] at hat
  apply h.put hk
  have hperm := frameAt_setFrame hat ho'
  calc (g :: F ++ o'.frames).Perm (F ++ (g :: o'.frames)) := List.perm_middle.symm
    _ |>.Perm (F ++ (f :: o.frames)) := hperm.append_left F
    _ |>.Perm (f :: F ++ o.frames) := List.perm_middle

theorem Accounted.moveOut (h : Accounted F s) (hm : s.moveOut p = some (f, s')) : Accounted (f :: F) s' := by
  obtain ⟨g, hat, hm⟩ := Option.bind_eq_some_iff.mp hm
  obtain ⟨t, hset, hm⟩ := Option.map_eq_some_iff.mp hm
  cases hm
  exact (h.fresh g.moved_consistent g.moved_held).setFrame hat hset

/-- A move leaves the queues alone. -/
theorem queueAt_moveOut (hm : s.moveOut p = some (f, s')) (k : ℕ) : s'.queueAt k = s.queueAt k := by
  obtain ⟨g, -, hmap⟩ := Option.bind_eq_some_iff.mp hm
  obtain ⟨t, hset, hft⟩ := Option.map_eq_some_iff.mp hmap
  cases hft
  obtain ⟨o, hk, hput⟩ := Option.bind_eq_some_iff.mp hset
  obtain ⟨o', ho', rfl⟩ := Option.map_eq_some_iff.mp hput
  by_cases hkp : p.object = k
  · have hlt := (List.getElem?_eq_some_iff.mp hk).1
    subst hkp
    -- neither the old object nor the new one is a queue
    have hnew : (s.put p.object o').queueAt p.object = none := by
      unfold queueAt put
      rw [List.getElem?_set_self hlt]
      cases o with
      | queue q => cases ho'
      | _ => cases hi : p.index <;> rw [hi] at ho' <;> cases ho' <;> rfl
    have hold : s.queueAt p.object = none := by
      unfold queueAt
      rw [hk]
      cases o with
      | queue q => cases ho'
      | _ => rfl
    rw [hnew, hold]
  · simp only [queueAt, put, List.getElem?_set_ne hkp]

theorem queueAt_eq_some {q : InProcessQueue (FrameObject ρ)} (h : s.queueAt k = some q) :
    s.objects[k]? = some (.queue q) := by
  unfold queueAt at h
  split at h
  case h_1 hk =>
    cases h
    exact hk
  case h_2 => cases h

/-- `push_back` loses no frame: what it destroys was moved from. -/
theorem Accounted.pushBack {grow : Bool} {l : List (FrameObject ρ)} (h : Accounted (f :: F) s)
    (hk : s.objects[k]? = some o) (ho : o.frames = l) (ho' : o'.frames = (Grebe.pushBack grow l f).1) :
    Accounted F ((s.put k o').run (Grebe.pushBack grow l f).2) := by
  cases grow with
  | false =>
    have hput : Accounted ([] ++ F) (s.put k o') := by
      apply h.put hk
      rw [ho, ho']
      show (F ++ (l ++ [f])).Perm (f :: (F ++ l))
      rw [← List.append_assoc]
      exact List.perm_append_singleton _ _
    exact hput.drop
  | true =>
    have hmoved : Accounted (l.map FrameObject.moved ++ f :: F) s := h.fresh_all fun g hg => by
      obtain ⟨g, -, rfl⟩ := List.mem_map.mp hg
      exact ⟨g.moved_consistent, g.moved_held⟩
    have hput : Accounted (l.map FrameObject.moved ++ F) (s.put k o') := by
      apply hmoved.put hk
      rw [ho, ho']
      show (l.map FrameObject.moved ++ F ++ (l.map id ++ [f])).Perm (l.map FrameObject.moved ++ f :: F ++ l)
      rw [List.map_id, List.append_assoc, List.append_assoc, List.cons_append, ← List.append_assoc F]
      exact (List.perm_append_singleton _ _).append_left _
    exact hput.drop

/-- What a queue that takes a frame has evicted for it, and what it holds then. -/
theorem enqueue_true {q q' : InProcessQueue (FrameObject ρ)} (h : q.enqueue f = some (q', true)) :
    ((InProcessQueue.evictedBy q).map Prod.snd ++ q'.queue).Perm (f :: q.queue) := by
  rcases q.enqueue_cases f with ⟨hroom, he⟩ | ⟨hfull, ⟨hp, he⟩ | ⟨hp, oldest, rest, hq, he⟩ | ⟨hp, he⟩⟩
  · rw [h] at he
    cases he
    rw [InProcessQueue.evictedBy_room hroom]
    exact List.perm_append_singleton _ _
  · rw [h] at he
    cases he
  · rw [h] at he
    cases he
    rw [InProcessQueue.evictedBy_full hp hfull hq, hq]
    exact List.perm_append_singleton _ (oldest :: rest)
  · rw [h] at he
    cases he

theorem enqueue_false {q q' : InProcessQueue (FrameObject ρ)} (h : q.enqueue f = some (q', false)) :
    q'.queue = q.queue := by
  rcases q.enqueue_cases f with ⟨hroom, he⟩ | ⟨hfull, ⟨hp, he⟩ | ⟨hp, oldest, rest, hq, he⟩ | ⟨hp, he⟩⟩
  all_goals rw [h] at he
  all_goals cases he
  rfl

end Live

/-! ## Runs -/

section Calls

variable {s s' : FrameStore ρ}

/-- The frames at other places stay. -/
theorem frameAt_setFrame_other {p r : FramePlace} {f : FrameObject ρ} (hne : r ≠ p) (hset : s.setFrame p f = some s') :
    s'.frameAt r = s.frameAt r := by
  obtain ⟨o, hk, hmap⟩ := Option.bind_eq_some_iff.mp hset
  obtain ⟨o', ho', rfl⟩ := Option.map_eq_some_iff.mp hmap
  unfold frameAt put
  by_cases hobject : p.object = r.object
  · have hindex : p.index ≠ r.index := fun hi => hne (FramePlace.ext hobject hi).symm
    rw [← hobject, List.getElem?_set_self (List.getElem?_eq_some_iff.mp hk).1, hk, Option.bind_some, Option.bind_some]
    cases o with
    | frame g =>
      cases hi : p.index with
      | zero =>
        rw [hi] at ho' hindex
        cases ho'
        obtain ⟨i, hr⟩ := Nat.exists_eq_succ_of_ne_zero hindex.symm
        rw [hr]
        rfl
      | succ i =>
        rw [hi] at ho'
        cases ho'
    | vector l =>
      cases ho'
      exact List.getElem?_set_ne hindex
    | _ => cases ho'
  · rw [List.getElem?_set_ne hobject]

theorem accounted_assign {dst src : FramePlace} (h : Accounted [] s) (hne : dst ≠ src)
    (hst : s.assign dst src = some s') : Accounted [] s' := by
  obtain ⟨other, hother, hst⟩ := Option.bind_eq_some_iff.mp hst
  obtain ⟨this, hthis, hst⟩ := Option.bind_eq_some_iff.mp hst
  obtain ⟨t, ht, hst⟩ := Option.bind_eq_some_iff.mp hst
  obtain ⟨u, hu, rfl⟩ := Option.map_eq_some_iff.mp hst
  have hout : Accounted [other] t := (h.fresh other.moved_consistent other.moved_held).setFrame hother ht
  have hin : Accounted [this] u := hout.setFrame ((frameAt_setFrame_other hne ht).trans hthis) hu
  have hdrop := Accounted.drop (G := [this]) (F := []) hin
  rwa [List.flatMap_singleton] at hdrop

theorem accounted_enqueue {k : ℕ} {src : FramePlace} (h : Accounted [] s) (hst : s.enqueue k src = some s') :
    Accounted [] s' := by
  obtain ⟨q, hq, hst⟩ := Option.bind_eq_some_iff.mp hst
  obtain ⟨⟨f, t⟩, hm, rfl⟩ := Option.map_eq_some_iff.mp hst
  dsimp only
  split
  case h_1 => exact h.perm (List.Perm.refl _) rfl rfl
  case h_2 q' he =>
    apply h.put (queueAt_eq_some hq)
    show (q'.queue).Perm q.queue
    rw [enqueue_false he]
  case h_3 q' he =>
    have hk := queueAt_eq_some ((queueAt_moveOut hm k).trans hq)
    refine Accounted.drop (F := []) ((h.moveOut hm).put hk ?_)
    rw [List.append_nil]
    exact enqueue_true he

theorem accounted_resume {i ns : ℕ} (h : Accounted [] s) (hst : s.resume i ns = some s') : Accounted [] s' := by
  obtain ⟨⟨k, src⟩, hi, hst⟩ := Option.bind_eq_some_iff.mp hst
  obtain ⟨q, hq, hst⟩ := Option.bind_eq_some_iff.mp hst
  obtain ⟨⟨f, t⟩, hm, hst⟩ := Option.bind_eq_some_iff.mp hst
  dsimp only at hst
  split at hst
  case isFalse => cases hst
  case isTrue hcan =>
    rcases q.resume_cases f ns hcan with ⟨-, he⟩ | ⟨-, -, he⟩
    all_goals rw [he] at hst; cases hst
    · have hput : Accounted [] (s.put k (.queue { q with totalBlockedNs := q.totalBlockedNs + ns })) :=
        h.put (queueAt_eq_some hq) (List.Perm.refl _)
      exact hput.perm (List.Perm.refl _) rfl rfl
    · have hk := queueAt_eq_some ((queueAt_moveOut hm k).trans hq)
      have hput : Accounted [] (t.put k (.queue (InProcessQueue.push
          { q with totalBlockedNs := q.totalBlockedNs + ns } f))) :=
        (h.moveOut hm).put hk (List.perm_append_singleton _ _)
      exact hput.perm (List.Perm.refl _) rfl rfl

theorem accounted_dequeue {k : ℕ} (h : Accounted [] s) (hst : s.dequeue k = some s') : Accounted [] s' := by
  obtain ⟨q, hq, rfl⟩ := Option.map_eq_some_iff.mp hst
  cases hd : q.dequeue with
  | none => exact h
  | some r =>
    obtain ⟨front, q'⟩ := r
    obtain ⟨hqueue, -⟩ := q.dequeue_eq_some hd
    -- the two moved-from frames hold nothing
    have hmoved := (h.fresh front.moved_consistent front.moved_held).fresh front.moved_consistent front.moved_held
    have hput : Accounted [front.moved, front.moved, front] (s.put k (.queue q')) := by
      apply hmoved.put (queueAt_eq_some hq)
      show ([front.moved, front.moved, front] ++ q'.queue).Perm ([front.moved, front.moved] ++ q.queue)
      rw [hqueue]
      exact List.Perm.refl _
    have hdrop := Accounted.drop (G := [front.moved]) (Accounted.drop (G := [front.moved]) hput)
    rw [List.flatMap_singleton] at hdrop
    exact hdrop.add (List.Perm.refl _)

end Calls

section Runs

variable [Zero ρ] {s s' : FrameStore ρ}

theorem accounted_step {l : Label} (h : Accounted [] s) (hst : s.step l = some s') : Accounted [] s' := by
  cases l with
  | makeOwned channels samplesPerCh =>
    cases hst
    exact (h.fresh (FrameObject.ofFrame_consistent _) (FrameObject.ofFrame_held _)).add (List.Perm.refl _)
  | fromFrameBuffer fb =>
    cases hst
    exact (h.fresh (FrameObject.ofFrame_consistent _) (FrameObject.ofFrame_held _)).add (List.Perm.refl _)
  | makeBorrowed samples =>
    cases hst
    exact (h.borrow samples samples.length).add (List.Perm.refl _)
  | toOwned src =>
    obtain ⟨f, -, rfl⟩ := Option.map_eq_some_iff.mp hst
    exact (h.fresh (FrameObject.ofFrame_consistent _) (FrameObject.ofFrame_held _)).add (List.Perm.refl _)
  | moveConstruct src =>
    obtain ⟨⟨f, t⟩, hm, rfl⟩ := Option.map_eq_some_iff.mp hst
    exact (h.moveOut hm).add (List.Perm.refl _)
  | moveAssign dst src =>
    simp only [step] at hst
    split_ifs at hst with heq
    · obtain ⟨-, -, rfl⟩ := Option.map_eq_some_iff.mp hst
      exact h
    · exact accounted_assign h heq hst
  | destroy k =>
    obtain ⟨o, hk, rfl⟩ := Option.map_eq_some_iff.mp hst
    refine Accounted.drop (F := []) (h.put hk ?_)
    show (o.frames ++ [] ++ []).Perm ([] ++ o.frames)
    simp
  | newVector =>
    cases hst
    exact h.add (List.Perm.refl _)
  | pushBack k src grow =>
    obtain ⟨⟨f, t⟩, hm, hst⟩ := Option.bind_eq_some_iff.mp hst
    dsimp only at hst
    split at hst
    case h_1 frames hk =>
      cases hst
      exact (h.moveOut hm).pushBack hk rfl rfl
    case h_2 => cases hst
  | newWriter =>
    cases hst
    exact h.add (List.Perm.refl _)
  | push k src grow =>
    obtain ⟨⟨f, t⟩, hm, hst⟩ := Option.bind_eq_some_iff.mp hst
    dsimp only at hst
    split at hst
    case h_1 frames hk =>
      cases hst
      exact (h.moveOut hm).pushBack hk rfl rfl
    case h_2 => cases hst
  | take k =>
    simp only [step] at hst
    split at hst
    case h_1 frames hk =>
      cases hst
      have hput : Accounted frames (s.put k (.writer [])) := h.put hk (by simp [FrameHolder.frames])
      exact hput.add (List.Perm.refl _)
    case h_2 => cases hst
  | newView k =>
    simp only [step] at hst
    split at hst
    case h_1 frames hk =>
      cases hst
      have hput : Accounted frames (s.put k (.vector [])) := h.put hk (by simp [FrameHolder.frames])
      exact hput.add (List.Perm.refl _)
    case h_2 => cases hst
  | newQueue capacity policy =>
    cases hst
    exact h.add (List.Perm.refl _)
  | enqueue k src => exact accounted_enqueue h hst
  | resume i ns => exact accounted_resume h hst
  | dequeue k => exact accounted_dequeue h hst
  | shutdown k =>
    obtain ⟨q, hq, rfl⟩ := Option.map_eq_some_iff.mp hst
    exact h.put (queueAt_eq_some hq) (List.Perm.refl _)

theorem reach_accounted (hs : (program ρ).Reachable s) : Accounted [] s := by
  refine hs.invariant (I := Accounted []) (fun t h0 => ?_) fun _ _ _ h _ hst => accounted_step h hst
  rw [show t = start from h0]
  exact ⟨fun f hf => (List.not_mem_nil hf).elim, .empty, rfl, rfl, rfl⟩

/-- **Every borrowed buffer is released exactly once**, after any operations: no callback has run twice, none has run
while a live frame refers to its buffer, one live frame refers to each buffer not released, and when no object is left
every callback has run. -/
theorem released_exactly_once (hs : (program ρ).Reachable s) :
    (∀ b, s.released.count b ≤ 1) ∧
    (∀ b ∈ s.released, b < s.borrows ∧ ∀ f ∈ s.live, ¬ f.RefersTo b) ∧
    (∀ b < s.borrows, b ∉ s.released → s.holders b = 1) ∧
    ((∀ o ∈ s.objects, o = .destroyed) → ∀ b < s.borrows, s.released.count b = 1) := by
  obtain ⟨L, hheld, hreleased, hissued⟩ := (reach_accounted hs).ledger
  have hcount : ∀ b, L.held.count b = s.holders b := fun b => by
    rw [hheld, List.nil_append, count_heldBy]
    rfl
  have hruns : ∀ b, L.released.count b = s.released.count b := fun b => by rw [hreleased, Multiset.coe_count]
  have hmem : ∀ b, b ∈ L.released ↔ b ∈ s.released := fun b => by rw [hreleased, Multiset.mem_coe]
  refine ⟨fun b => ?_, fun b hb => ⟨?_, fun f hf href => ?_⟩, fun b hb hnot => ?_, fun hgone b hb => ?_⟩
  · rw [← hruns]
    exact L.count_released_le_one b
  · rw [← hissued]
    exact L.issued_of_released ((hmem b).mpr hb)
  · have hzero := Multiset.count_eq_zero_of_notMem (L.not_held ((hmem b).mpr hb))
    rw [hcount] at hzero
    exact List.countP_eq_zero.mp hzero f hf (by simpa using href)
  · rw [← hcount]
    exact L.held_once (hissued ▸ hb) fun h => hnot ((hmem b).mp h)
  · rw [← hruns]
    refine L.released_once ?_ (hissued ▸ hb)
    have hlive : s.live = [] := List.flatMap_eq_nil_iff.mpr fun o ho => by
      rw [hgone o ho]
      rfl
    rw [hheld, hlive]
    rfl

/-- Two borrowed frames go through a queue with room for one: the first is evicted, the second dequeued and overwritten. -/
theorem released_exactly_once_evicted :
    ∃ s, (program ℕ).Reachable s ∧ s.released = [0, 1] ∧ (∀ b, s.released.count b ≤ 1) ∧
      ∀ b < 2, s.released.count b = 1 := by
  obtain ⟨s, hs, hb, hreleased, hgone⟩ : ∃ s, (program ℕ).exec start [.newQueue 1 .dropOldest, .makeBorrowed [1],
      .makeBorrowed [2], .enqueue 0 ⟨1, 0⟩, .enqueue 0 ⟨2, 0⟩, .dequeue 0, .makeOwned 1 1, .moveAssign ⟨3, 0⟩ ⟨4, 0⟩,
      .destroy 0, .destroy 1, .destroy 2, .destroy 3, .destroy 4] = some s ∧ s.borrows = 2 ∧ s.released = [0, 1] ∧
      s.objects = List.replicate 5 .destroyed := ⟨_, rfl, rfl, rfl, rfl⟩
  have hreach : (program ℕ).Reachable s := Lib.Lts.reachable_of_exec _ rfl hs
  obtain ⟨hle, -, -, hall⟩ := released_exactly_once hreach
  refine ⟨s, hreach, hreleased, hle, fun b hlt => hall ?_ b (hb ▸ hlt)⟩
  intro o ho
  rw [hgone] at ho
  exact List.eq_of_mem_replicate ho

end Runs

end FrameStore

end Grebe
