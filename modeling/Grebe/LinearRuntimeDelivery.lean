import Mathlib.Tactic
import Grebe.Lib.Pipeline
import Grebe.LinearRuntime

/-!
# Grebe.LinearRuntimeDelivery — what the runtime delivers, and what it reports of its losses

Each queue of the runtime, with the worker that fills it, refines a `Lib.Link` (`link_simulates`).  From this:

* `delivers_in_order`: when each stage after the source maps its input frames one by one, the polled frames are a
  sublist of what the stages make of the source's frames; and when every policy is `Block` nothing is lost;
* `lossesReported_iff_outputKept`: when no worker is busy and `stop` was not called, the drops that `telemetry` reports
  are the frames lost exactly when the last queue never dropped a frame.  `telemetry` never reads that queue:
  `output_drop_unreported` is a run with one frame lost and none reported.
-/

namespace Grebe

namespace LinearRuntime

variable {α : Type}

/-! ## Queues and main thread -/

section Config

/-- What holds of the queues and the main thread in every run. -/
structure Config (entries : List StageEntry) (s : LinearRuntime α) : Prop where
  policy : ∀ i, (s.queues i).policy = (queueEntry entries i).policy
  keeps : ∀ i, (queueEntry entries i).policy = .block → (s.queues i).totalDropped = 0
  polling : s.stop = false ↔ s.main = .polling
  notShutdown : s.stop = false → ∀ i, (s.queues i).isShutdown = false

variable {entries : List StageEntry} {s s' : LinearRuntime α}

theorem config_started : Config entries (started entries : LinearRuntime α) :=
  ⟨fun _ => rfl, fun _ _ => rfl, ⟨fun _ => rfl, fun _ => rfl⟩, fun _ _ => rfl⟩

/-- A queue may change in anything but its policy and, before the stop, its being open; one that blocks drops
nothing. -/
theorem Config.setQueue {i : ℕ} {q : InProcessQueue α} (h : Config entries s) (hp : q.policy = (s.queues i).policy)
    (hd : (s.queues i).policy = .block → q.totalDropped = (s.queues i).totalDropped)
    (hs : s.stop = false → q.isShutdown = (s.queues i).isShutdown) : Config entries (s.setQueue i q) where
  policy k := by
    by_cases hk : k = i
    · subst hk
      rw [setQueue_self, hp, h.policy]
    · rw [setQueue_other _ _ _ hk, h.policy]
  keeps k hb := by
    by_cases hk : k = i
    · subst hk
      rw [setQueue_self, hd ((h.policy k).trans hb), h.keeps k hb]
    · rw [setQueue_other _ _ _ hk, h.keeps k hb]
  polling := h.polling
  notShutdown hstop k := by
    by_cases hk : k = i
    · subst hk
      rw [setQueue_self, hs hstop]
      exact h.notShutdown hstop k
    · rw [setQueue_other _ _ _ hk]
      exact h.notShutdown hstop k

/-- `Config` says nothing of the workers and the histories. -/
theorem Config.of_eq (h : Config entries s) (hq : s'.queues = s.queues) (hs : s'.stop = s.stop)
    (hm : s'.main = s.main) : Config entries s' where
  policy := hq ▸ h.policy
  keeps := hq ▸ h.keeps
  polling := by rw [hs, hm, h.polling]
  notShutdown hstop := by
    rw [hq]
    exact h.notShutdown (hs ▸ hstop)

theorem Config.goto {i : ℕ} {pc : WorkerPc α} (h : Config entries s) : Config entries (s.goto i pc) :=
  h.of_eq rfl rfl rfl

theorem Config.takeOut {i : ℕ} {frame : α} {q : InProcessQueue α} (h : Config entries s)
    (hq : q = { s.queues i with queue := q.queue }) : Config entries (s.takeOut i frame q) := by
  have hset : Config entries (s.setQueue i q) := by
    refine h.setQueue ?_ (fun _ => ?_) (fun _ => ?_)
    all_goals rw [hq]
  exact hset.of_eq rfl rfl rfl

theorem Config.worker {i : ℕ} {l : WorkerLabel α} (h : Config entries s) (hst : s.WorkerStep i l s') :
    Config entries s' := by
  rcases hst with _ | ⟨_, _, _, hq'⟩ | _ | _ | ⟨_, _, hp⟩ | ⟨_, _, hp, _⟩ | _ | _ | _ | _
  · exact h.goto
  · exact .goto (h.takeOut hq')
  · exact h.of_eq rfl rfl rfl
  · exact .goto (h.setQueue rfl (fun _ => rfl) fun _ => rfl)
  · exact .goto (h.setQueue rfl (fun hb => absurd (hp.symm.trans hb) (by simp)) fun _ => rfl)
  · exact .goto (h.setQueue rfl (fun hb => absurd (hp.symm.trans hb) (by simp)) fun _ => rfl)
  · exact h.goto
  · exact .goto (h.setQueue rfl (fun _ => rfl) fun _ => rfl)
  · exact .goto (h.setQueue rfl (fun _ => rfl) fun _ => rfl)
  · exact h.of_eq rfl rfl rfl

theorem Config.step {n : ℕ} {l : Label α} (h : Config entries s) (hst : s.Step n l s') : Config entries s' := by
  rcases hst with ⟨i, hi, hw⟩ | _ | ⟨_, _, hq'⟩ | _ | ⟨hm, hk⟩ | ⟨_, hm, hm'⟩
  · exact h.worker hw
  · exact h
  · exact h.takeOut hq'
  · exact ⟨h.policy, h.keeps, by simp, by simp⟩
  · -- the flag is set before any queue is shut down
    have hstop : s.stop = true := by
      by_contra hs
      have hpoll := h.polling.mp (Bool.eq_false_of_not_eq_true hs)
      exact absurd (hm.symm.trans hpoll) (by simp)
    rename_i k
    have hset : Config entries (s.setQueue k (s.queues k).shutdown) :=
      h.setQueue rfl (fun _ => rfl) fun hs => absurd (hstop.symm.trans hs) (by simp)
    exact ⟨hset.policy, hset.keeps, by simp [hstop], fun hs => absurd (hstop.symm.trans hs) (by simp)⟩
  · refine ⟨h.policy, h.keeps, ?_, h.notShutdown⟩
    simp only [hm', iff_false]
    exact fun hs => hm (h.polling.mp hs)

end Config

/-! ## Each queue refines a link -/

section Links

/-- `b` is the history of queue `k` and the worker that fills it. -/
structure Tracks (k : ℕ) (s : LinearRuntime α) (b : Lib.Link α) : Prop where
  emitted : b.emitted = s.emitted k
  pending : b.pending = (s.workers k).pc.pending
  stored : b.stored = (s.queues k).queue
  taken : b.taken = s.taken k
  lost : s.stop = false → b.lost = (s.queues k).totalDropped

variable {entries : List StageEntry} {k : ℕ} {s s' : LinearRuntime α} {b : Lib.Link α}

/-- The link has yet to store what the worker has yet to enqueue. -/
theorem Tracks.pending_at (h : Tracks k s b) {pc : WorkerPc α} (hpc : (s.workers k).pc = pc) :
    b.pending = pc.pending := by
  rw [h.pending, hpc]

/-- A step that leaves queue `k` and what its worker has to enqueue as they are. -/
theorem Tracks.keep (h : Tracks k s b) (he : s'.emitted k = s.emitted k)
    (hp : (s'.workers k).pc.pending = (s.workers k).pc.pending) (hq : s'.queues k = s.queues k)
    (ht : s'.taken k = s.taken k) (hs : s'.stop = s.stop) : Tracks k s' b where
  emitted := by rw [h.emitted, he]
  pending := by rw [h.pending, hp]
  stored := by rw [h.stored, hq]
  taken := by rw [h.taken, ht]
  lost hstop := by
    rw [hq]
    exact h.lost (hs ▸ hstop)

/-- The oldest frame is taken out of queue `k`. -/
theorem Tracks.takeOut {frame : α} {q : InProcessQueue α} (h : Tracks k s b)
    (hq : (s.queues k).queue = frame :: q.queue) (hq' : q = { s.queues k with queue := q.queue }) :
    ∃ ms b', (Lib.Link.system α).exec b ms = some b' ∧ Tracks k (s.takeOut k frame q) b' := by
  have hstored : b.stored = frame :: q.queue := h.stored.trans hq
  refine ⟨[.take frame q.queue], _, Lib.Lts.exec_single (Lib.Link.step_take hstored), ?_⟩
  exact
    { emitted := h.emitted
      pending := h.pending
      stored := by rw [takeOut_queues_self]; rfl
      taken := by rw [takeOut_taken_self, ← h.taken]; rfl
      lost := fun hs => by
        rw [takeOut_queues_self]
        exact (h.lost hs).trans (congrArg InProcessQueue.totalDropped hq').symm }

theorem Tracks.goto {i : ℕ} {pc : WorkerPc α} (h : Tracks k s b)
    (hp : k = i → pc.pending = (s.workers i).pc.pending) : Tracks k (s.goto i pc) b := by
  refine h.keep rfl ?_ rfl rfl rfl
  by_cases hk : k = i
  · subst hk
    rw [goto_self, hp rfl]
  · rw [goto_other _ _ _ hk]

/-- **What the other workers do to link `k`**: worker `k + 1` takes its oldest frame, and that is all. -/
theorem Tracks.other {i : ℕ} {l : WorkerLabel α} (h : Tracks k s b) (hst : s.WorkerStep i l s') (hk : k ≠ i) :
    ∃ ms b', (Lib.Link.system α).exec b ms = some b' ∧ Tracks k s' b' := by
  rcases hst with _ | @⟨j, frame, q, hi, hpc, hq, hq'⟩ | _ | _ | _ | _ | _ | _ | _ | _
  case fetched =>
    by_cases hkj : k = j
    · subst hkj
      obtain ⟨ms, b', he, h'⟩ := h.takeOut hq hq'
      exact ⟨ms, b', he, h'.goto fun hki => absurd hki hk⟩
    · refine ⟨[], b, rfl, Tracks.goto ?_ fun hki => absurd hki hk⟩
      exact h.keep rfl rfl (takeOut_queues_other _ _ _ _ hkj) (takeOut_taken_other _ _ _ _ hkj) rfl
  case idle => exact ⟨[], b, rfl, h.goto fun hki => absurd hki hk⟩
  case waits => exact ⟨[], b, rfl, h.goto fun hki => absurd hki hk⟩
  case finished => exact ⟨[], b, rfl, h.keep rfl (by rw [setWorker_other _ _ _ hk]) rfl rfl rfl⟩
  case processed =>
    refine ⟨[], b, rfl, h.keep (Function.update_of_ne hk _ _) ?_ rfl rfl rfl⟩
    exact congrArg (fun w => w.pc.pending) (s.setWorker_other i _ hk)
  all_goals
    refine ⟨[], b, rfl, Tracks.goto ?_ fun hki => absurd hki hk⟩
    exact h.keep rfl rfl (setQueue_other _ _ _ hk) rfl rfl

/-- The next pending frame of worker `k` leaves its hand, and queue `k` becomes `q`. -/
theorem Tracks.handOver {b' : Lib.Link α} {q : InProcessQueue α} {left : List α} {count : ℕ} {result : StageResult}
    (h : Tracks k s b) (he : b'.emitted = b.emitted) (hp : b'.pending = left) (hq : b'.stored = q.queue)
    (ht : b'.taken = b.taken) (hl : s.stop = false → b'.lost = q.totalDropped) :
    Tracks k ((s.setQueue k q).goto k (.emit left count result)) b' where
  emitted := he.trans h.emitted
  pending := by rw [goto_self, hp]; rfl
  stored := by rw [goto_queues, setQueue_self, hq]
  taken := ht.trans h.taken
  lost hs := by rw [goto_queues, setQueue_self]; exact hl hs

/-- **What worker `k` does to link `k`.** -/
theorem Tracks.producer {l : WorkerLabel α} (hc : Config entries s) (h : Tracks k s b) (hst : s.WorkerStep k l s') :
    ∃ ms b', (Lib.Link.system α).exec b ms = some b' ∧ Tracks k s' b' := by
  rcases hst with ⟨_, _, hout, _, hout'⟩ | @⟨j, frame, q, hi, hpc, hq, hq'⟩ | ⟨hpc⟩ | @⟨item, left, _, _, hpc, hroom⟩ |
    @⟨item, left, _, _, hpc, hfull, hpol⟩ | @⟨item, oldest, left, rest, _, _, hpc, hfull, hpol, hq⟩ |
    ⟨hpc, hfull, hpol⟩ | @⟨item, left, _, _, _, hpc, hopen, hroom⟩ | @⟨item, left, _, _, _, hpc, hshut⟩ | ⟨hpc⟩
  case idle => exact ⟨[], b, rfl, h.goto fun _ => hout'.trans hout.symm⟩
  case fetched =>
    have hkj : k ≠ j := by omega
    refine ⟨[], b, rfl, Tracks.goto ?_ ?_⟩
    · exact h.keep rfl rfl (takeOut_queues_other _ _ _ _ hkj) (takeOut_taken_other _ _ _ _ hkj) rfl
    · intro _
      rw [takeOut_workers, hpc]
      rfl
  case processed produced result ns =>
    have hpend : b.pending = [] := h.pending_at hpc
    refine ⟨[.emit produced], _, Lib.Lts.exec_single (Lib.Link.step_emit hpend), ?_⟩
    exact
      { emitted := (congrArg (· ++ produced) h.emitted).trans (Function.update_self k _ s.emitted).symm
        pending := by
          show produced = ((s.setWorker k _).workers k).pc.pending
          rw [setWorker_self]
          rfl
        stored := h.stored
        taken := h.taken
        lost := h.lost }
  case stored =>
    have hpend : b.pending = item :: left := h.pending_at hpc
    refine ⟨[.store item left], _, Lib.Lts.exec_single (Lib.Link.step_store hpend), ?_⟩
    exact h.handOver rfl rfl (congrArg (· ++ [item]) h.stored) rfl h.lost
  case refused =>
    have hpend : b.pending = item :: left := h.pending_at hpc
    refine ⟨[.refuse item left], _, Lib.Lts.exec_single (Lib.Link.step_refuse hpend), ?_⟩
    exact h.handOver rfl rfl h.stored rfl fun hs => congrArg (· + 1) (h.lost hs)
  case evicted =>
    have hstored : b.stored = oldest :: rest := h.stored.trans hq
    have hpend : b.pending = item :: left := h.pending_at hpc
    refine ⟨[.evict oldest rest, .store item left], (b.evict oldest rest hstored).store item left hpend, ?_, ?_⟩
    · rw [Lib.Lts.exec_cons, Lib.Link.step_evict hstored, Option.bind_some]
      exact Lib.Lts.exec_single (Lib.Link.step_store (b := b.evict oldest rest hstored) hpend)
    · exact h.handOver rfl rfl rfl rfl fun hs => congrArg (· + 1) (h.lost hs)
  case waits =>
    refine ⟨[], b, rfl, h.goto ?_⟩
    intro _
    rw [hpc]
    rfl
  case resumed =>
    have hpend : b.pending = item :: left := h.pending_at hpc
    refine ⟨[.store item left], _, Lib.Lts.exec_single (Lib.Link.step_store hpend), ?_⟩
    exact h.handOver rfl rfl (congrArg (· ++ [item]) h.stored) rfl h.lost
  case abandoned =>
    have hpend : b.pending = item :: left := h.pending_at hpc
    refine ⟨[.refuse item left], _, Lib.Lts.exec_single (Lib.Link.step_refuse hpend), ?_⟩
    -- a queue is shut down after the stop only
    exact h.handOver rfl rfl h.stored rfl fun hs => absurd (hshut.symm.trans (hc.notShutdown hs k)) (by simp)
  case finished =>
    refine ⟨[], b, rfl, h.keep rfl ?_ rfl rfl rfl⟩
    rw [setWorker_self, hpc]
    simp only []
    split_ifs <;> rfl

theorem Tracks.step {n : ℕ} {l : Label α} (hc : Config entries s) (h : Tracks k s b) (hst : s.Step n l s') :
    ∃ ms b', (Lib.Link.system α).exec b ms = some b' ∧ Tracks k s' b' := by
  rcases hst with ⟨i, _, hw⟩ | _ | ⟨_, hq, hq'⟩ | _ | @⟨j, hm, _⟩ | _
  case worker =>
    by_cases hk : k = i
    · subst hk
      exact h.producer hc hw
    · exact h.other hw hk
  case polledNothing => exact ⟨[], b, rfl, h⟩
  case polled =>
    by_cases hk : k = n - 1
    · subst hk
      exact h.takeOut hq hq'
    · exact ⟨[], b, rfl, h.keep rfl rfl (takeOut_queues_other _ _ _ _ hk) (takeOut_taken_other _ _ _ _ hk) rfl⟩
  case stop => exact ⟨[], b, rfl, h.emitted, h.pending, h.stored, h.taken, fun hs => absurd hs (by simp)⟩
  case shutdown =>
    have hqueue : ((s.setQueue j (s.queues j).shutdown).queues k).queue = (s.queues k).queue ∧
        ((s.setQueue j (s.queues j).shutdown).queues k).totalDropped = (s.queues k).totalDropped := by
      by_cases hk : k = j
      · subst hk
        rw [setQueue_self]
        exact ⟨rfl, rfl⟩
      · rw [setQueue_other _ _ _ hk]
        exact ⟨rfl, rfl⟩
    exact ⟨[], b, rfl, h.emitted, h.pending, h.stored.trans hqueue.1.symm, h.taken,
      fun hs => (h.lost hs).trans hqueue.2.symm⟩
  case stopping => exact ⟨[], b, rfl, h.emitted, h.pending, h.stored, h.taken, h.lost⟩

/-- **Each queue of the runtime refines a link.** -/
theorem link_simulates (entries : List StageEntry) (k : ℕ) :
    Lib.Lts.Simulates (runtime entries) (Lib.Link.system α) fun s b => Config entries s ∧ Tracks k s b where
  init s h0 := by
    have hs : s = started entries := h0
    subst hs
    exact ⟨.empty, rfl, config_started, rfl, rfl, rfl, rfl, fun _ => rfl⟩
  step s l s' b h hst := by
    have hst' := step_cases hst
    obtain ⟨ms, b', he, h'⟩ := h.2.step h.1 hst'
    exact ⟨ms, b', he, h.1.step hst', h'⟩

theorem reachable_config (hs : (runtime entries).Reachable s) : Config entries s := by
  obtain ⟨_, -, hc, -⟩ := (link_simulates entries 0).reachable hs
  exact hc

theorem reachable_tracks (hs : (runtime entries).Reachable s) (k : ℕ) : ∃ b, Tracks k s b := by
  obtain ⟨b, -, -, hb⟩ := (link_simulates entries k).reachable hs
  exact ⟨b, hb⟩

/-- Whatever the policies, what left a queue and what is in it come from what its stage emitted, in order. -/
theorem taken_append_queue_sublist (hs : (runtime entries).Reachable s) (k : ℕ) :
    List.Sublist (s.taken k ++ (s.queues k).queue) (s.emitted k) := by
  obtain ⟨b, hb⟩ := reachable_tracks hs k
  rw [← hb.taken, ← hb.stored, ← hb.emitted]
  exact (List.sublist_append_left _ _).trans b.ordered

end Links

/-! ## Order, and conservation under `Block` -/

section Order

/-- The frames that `poll_output` returned: no worker takes frames out of the last queue. -/
def polled (entries : List StageEntry) (s : LinearRuntime α) : List α := s.taken (entries.length - 1)

/-- The frames in the queues and in the workers' hands, each carried through its remaining stages. -/
def inFlight (f : ℕ → α → List α) (s : LinearRuntime α) (k : ℕ) : List α :=
  Lib.Line.inFlight (fun i => (s.queues i).queue ++ (s.workers i).pc.pending) (fun i => (s.workers i).pc.input) f k

/-- The steps before `stop` of stages that return neither `EOS` nor `Error` and keep no state: stage `i` after the
source makes `f i` of each input frame. -/
def Stateless (f : ℕ → α → List α) (s : LinearRuntime α) : Label α → Prop
  | .worker i (.process produced result _) =>
    result ≠ .eos ∧ result ≠ .error ∧ (0 < i → produced = (s.workers i).pc.input.flatMap (f i))
  | .stop => False
  | _ => True

/-- What stage `j + 1` took out of queue `j` it has mapped, or holds. -/
def Mapped (f : ℕ → α → List α) (j : ℕ) (s : LinearRuntime α) : Prop :=
  s.emitted (j + 1) ++ (s.workers (j + 1)).pc.input.flatMap (f (j + 1)) = (s.taken j).flatMap (f (j + 1))

variable {entries : List StageEntry} {f : ℕ → α → List α} {j i : ℕ} {s s' : LinearRuntime α}

theorem WorkerStep.frame {l : WorkerLabel α} (hst : s.WorkerStep i l s') (hi : j + 1 ≠ i) :
    s'.emitted (j + 1) = s.emitted (j + 1) ∧ s'.workers (j + 1) = s.workers (j + 1) ∧ s'.taken j = s.taken j := by
  rcases hst with _ | @⟨j', _, _, hj, _, _, _⟩ | _ | _ | _ | _ | _ | _ | _ | _
  case fetched =>
    have hjj : j ≠ j' := by omega
    exact ⟨rfl, goto_other _ _ _ hi, by rw [goto_taken, takeOut_taken_other _ _ _ _ hjj]⟩
  case processed => exact ⟨Function.update_of_ne hi _ _, setWorker_other _ _ _ hi, rfl⟩
  case finished => exact ⟨rfl, setWorker_other _ _ _ hi, rfl⟩
  all_goals exact ⟨rfl, goto_other _ _ _ hi, rfl⟩

theorem Mapped.of_eq (h : Mapped f j s) (he : s'.emitted (j + 1) = s.emitted (j + 1))
    (hi : (s'.workers (j + 1)).pc.input = (s.workers (j + 1)).pc.input) (ht : s'.taken j = s.taken j) :
    Mapped f j s' := by
  rw [Mapped, he, hi, ht]
  exact h

/-- The stage whose input queue is `j` keeps `Mapped f j`: a fetch adds the same on both sides, a return of `process`
moves the input to what was emitted. -/
theorem Mapped.worker {l : WorkerLabel α} (h : Mapped f j s) (hC : Stateless f s (.worker (j + 1) l))
    (hst : s.WorkerStep (j + 1) l s') : Mapped f j s' := by
  rcases hst with ⟨_, hin, _, hin', _⟩ | @⟨j', frame, _, hj, hpc, _, _⟩ | @⟨input, produced, _, _, hpc⟩ | ⟨hpc, _⟩ |
    ⟨hpc, _, _⟩ | ⟨hpc, _, _, _⟩ | ⟨hpc, _, _⟩ | ⟨hpc, _, _⟩ | ⟨hpc, _⟩ | ⟨hpc⟩
  case idle => exact h.of_eq rfl (by rw [goto_self, hin, hin']) rfl
  case fetched =>
    obtain rfl : j = j' := by omega
    have h' : s.emitted (j + 1) ++ [] = (s.taken j).flatMap (f (j + 1)) := by
      have h0 := h
      rw [Mapped, hpc] at h0
      exact h0
    rw [Mapped, goto_emitted, goto_taken, takeOut_emitted, takeOut_taken_self, goto_self, List.flatMap_append, ← h',
      List.append_nil]
    rfl
  case processed =>
    obtain ⟨-, -, hmap⟩ := hC
    have hproduced := hmap (Nat.succ_pos j)
    unfold Mapped
    show Function.update s.emitted (j + 1) _ (j + 1) ++
      ((s.setWorker (j + 1) _).workers (j + 1)).pc.input.flatMap _ = (s.taken j).flatMap _
    rw [Function.update_self, setWorker_self, hproduced, ← show _ = (s.taken j).flatMap _ from h]
    exact List.append_nil _
  case finished =>
    refine h.of_eq rfl ?_ rfl
    rw [setWorker_self, hpc]
    simp only []
    split_ifs <;> rfl
  all_goals exact h.of_eq rfl (by rw [goto_self, hpc]; rfl) rfl

theorem Mapped.step {n : ℕ} {l : Label α} (hj : j + 1 < n) (h : Mapped f j s) (hC : Stateless f s l)
    (hst : s.Step n l s') : Mapped f j s' := by
  rcases hst with ⟨i, _, hw⟩ | _ | _ | _ | _ | _
  case worker =>
    by_cases hi : j + 1 = i
    · subst hi
      exact h.worker hC hw
    · obtain ⟨he, hwk, ht⟩ := hw.frame hi
      exact h.of_eq he (by rw [hwk]) ht
  case polled =>
    have hjn : j ≠ n - 1 := by omega
    exact h.of_eq rfl rfl (takeOut_taken_other _ _ _ _ hjn)
  all_goals exact h

theorem reach_mapped (hs : (runtime entries).Reach (Stateless f) s) (hj : j + 1 < entries.length) : Mapped f j s :=
  hs.invariant (I := Mapped f j) (fun s h0 => by rw [show s = started entries from h0]; rfl)
    fun _ _ _ h hC hst => h.step hj hC (step_cases hst)

theorem reach_not_stopped (hs : (runtime entries).Reach (Stateless f) s) : s.main = .polling := by
  refine hs.invariant (I := fun s => s.main = .polling) (fun s h0 => by rw [show s = started entries from h0]; rfl) ?_
  intro s l s' h hC hst
  rcases step_cases hst with ⟨_, _, hw⟩ | _ | _ | _ | ⟨hm, _⟩ | ⟨_, hm, _⟩
  · rcases hw with _ | _ | _ | _ | _ | _ | _ | _ | _ | _ <;> exact h
  · exact h
  · exact h
  · exact hC.elim
  · exact absurd (h.symm.trans hm) (by simp)
  · exact absurd h hm

theorem queueEntry_mem (hi : i < entries.length) : queueEntry entries i ∈ entries := by
  unfold queueEntry
  by_cases hn : i + 1 < entries.length
  · rw [if_pos hn, List.getD_eq_getElem?_getD, List.getElem?_eq_getElem hn, Option.getD_some]
    exact List.getElem_mem hn
  · rw [if_neg hn, List.getD_eq_getElem?_getD, List.getElem?_eq_getElem hi, Option.getD_some]
    exact List.getElem_mem hi

/-- **Delivery.**  In every run before `stop` whose stages keep no state, the polled frames are a sublist of what the
stages make of the source's frames; if every policy is `Block`, the polled frames followed by those in flight are all
of it. -/
theorem delivers_in_order (hn : entries ≠ []) (hs : (runtime entries).Reach (Stateless f) s) :
    List.Sublist (s.polled entries) (Lib.Line.through f (entries.length - 1) (s.emitted 0)) ∧
    ((∀ entry ∈ entries, entry.policy = .block) →
      s.polled entries ++ s.inFlight f (entries.length - 1) =
        Lib.Line.through f (entries.length - 1) (s.emitted 0)) := by
  have hpos : 0 < entries.length := List.length_pos_iff.mpr hn
  have hconfig := reachable_config hs.reachable
  have hstop : s.stop = false := hconfig.polling.mpr (reach_not_stopped hs)
  choose L hL using reachable_tracks hs.reachable
  have hmaps : ∀ i < entries.length - 1, Lib.Line.Maps L (fun i => (s.workers i).pc.input) f i := by
    intro i hi
    rw [Lib.Line.Maps, (hL (i + 1)).emitted, (hL i).taken]
    exact reach_mapped hs (by omega)
  have hw : ∀ i ≤ entries.length - 1,
      (s.queues i).queue ++ (s.workers i).pc.pending = (L i).stored ++ (L i).pending :=
    fun i _ => by rw [(hL i).stored, (hL i).pending]
  rw [polled, ← (hL _).taken, ← (hL 0).emitted]
  refine ⟨Lib.Line.taken_sublist_through hmaps, fun hblock => Lib.Line.taken_append_inFlight hw hmaps ?_⟩
  intro i hi
  rw [(hL i).lost hstop]
  exact hconfig.keeps i (hblock _ (queueEntry_mem (by omega)))

instance [DecidableEq α] (f : ℕ → α → List α) (s : LinearRuntime α) (l : Label α) : Decidable (Stateless f s l) :=
  match l with
  | .worker _ (.process _ _ _) => inferInstanceAs (Decidable (_ ∧ _ ∧ (_ → _)))
  | .worker _ .test | .worker _ .fetch | .worker _ .retest | .worker _ .enqueue | .worker _ (.resume _)
  | .worker _ .finish | .pollOutput | .shutdown | .join => .isTrue trivial
  | .stop => .isFalse id

/-- Two stages with `Block` queues, the second of which repeats each frame. -/
def repeating : List StageEntry := [⟨"source", 1, .block⟩, ⟨"repeat", 1, .block⟩]

/-- The source is at its second frame when the first copy of the first one has been polled. -/
def repeatingRun : List (Label ℕ) :=
  [.worker 0 .test, .worker 0 (.process [7, 8] .ok 5), .worker 0 .enqueue, .worker 0 .enqueue, .worker 1 .test,
    .worker 1 .fetch, .worker 1 (.process [7, 7] .ok 3), .worker 0 (.resume 9), .worker 1 .enqueue, .pollOutput]

/-- **A run of `delivers_in_order`** with a frame polled, its copy in a worker's hand and one in a queue. -/
theorem delivers_in_order_repeating :
    ∃ s : LinearRuntime ℕ, s.polled repeating = [7] ∧
      s.polled repeating ++ s.inFlight (fun _ x => [x, x]) 1 = [7, 7, 8, 8] := by
  have he : ((Lib.Lts.execIn (Stateless fun _ x => [x, x]) (runtime repeating) (started repeating)
      repeatingRun).map fun s => (s.polled repeating, s.emitted 0)) = some ([7], [7, 8]) := by decide
  obtain ⟨s, hs, hp⟩ := Option.map_eq_some_iff.mp he
  obtain ⟨hpolled, hemitted⟩ := Prod.mk.inj hp
  refine ⟨s, hpolled, ?_⟩
  have hall := (delivers_in_order (by simp [repeating]) (.execIn (.init rfl) hs)).2 (by simp [repeating])
  rw [hemitted] at hall
  exact hall

end Order

/-! ## What `telemetry` reports of the losses -/

section Losses

/-- How many of the frames that stage `i` emitted were neither taken out of its queue nor are in it. -/
def lost (s : LinearRuntime α) (i : ℕ) : ℕ := (s.emitted i).length - ((s.taken i).length + (s.queues i).size)

/-- The drops that `telemetry` reports for queue `i`: those in the entry of the stage behind it. -/
def reportedDrops (entries : List StageEntry) (s : LinearRuntime α) (i : ℕ) : ℕ :=
  (((telemetry entries s)[i + 1]?).map StageTelemetry.queueDropped).getD 0

/-- Every lost frame is reported, and in particular those of the last stage. -/
structure LossesReported (entries : List StageEntry) (s : LinearRuntime α) : Prop where
  total : ((List.range entries.length).map s.lost).sum = ((telemetry entries s).map StageTelemetry.queueDropped).sum
  last : (s.emitted (entries.length - 1)).length =
    (s.polled entries).length + (s.queues (entries.length - 1)).size + reportedDrops entries s (entries.length - 1)

/-- No worker is in the middle of `process` or of enqueuing what it produced. -/
def Quiet (entries : List StageEntry) (s : LinearRuntime α) : Prop :=
  ∀ i < entries.length, (s.workers i).pc.busy = false

/-- The step is an `enqueue` of worker `i` into its full queue, under a policy that drops. -/
def overflows (s : LinearRuntime α) (i : ℕ) : WorkerLabel α → Bool
  | .enqueue => (s.queues i).full && decide ((s.queues i).policy ≠ .block)
  | _ => false

/-- The last stage does not enqueue into a full output queue that drops. -/
def OutputKept (entries : List StageEntry) (s : LinearRuntime α) : Label α → Prop
  | .worker i l => i + 1 = entries.length → s.overflows i l = false
  | _ => True

variable {entries : List StageEntry} {i : ℕ} {s s' : LinearRuntime α}

theorem lost_eq_dropped (hs : (runtime entries).Reachable s) (hstop : s.stop = false)
    (hq : (s.workers i).pc.busy = false) :
    s.lost i = (s.queues i).totalDropped ∧
      (s.emitted i).length = (s.taken i).length + (s.queues i).size + (s.queues i).totalDropped := by
  obtain ⟨b, hb⟩ := reachable_tracks hs i
  have hpend : b.pending = [] := hb.pending.trans (WorkerPc.pending_eq_nil hq)
  have hlost := b.lost_eq hpend
  have hcount := b.counted
  rw [hb.lost hstop, hb.emitted, hb.taken, hb.stored] at hlost
  rw [hb.lost hstop, hpend, hb.emitted, hb.taken, hb.stored, List.length_nil] at hcount
  exact ⟨hlost.symm, hcount⟩

theorem map_queueDropped (entries : List StageEntry) (s : LinearRuntime α) :
    (telemetry entries s).map StageTelemetry.queueDropped =
      (List.range entries.length).map fun i => if i > 0 then (s.queues (i - 1)).totalDropped else 0 := by
  apply List.ext_getElem (by simp [telemetry])
  intro i hi hi'
  simp [telemetry]

/-- `telemetry` adds up the drops of every queue but the last. -/
theorem sum_queueDropped (hn : entries.length = i + 1) (s : LinearRuntime α) :
    ((telemetry entries s).map StageTelemetry.queueDropped).sum =
      ((List.range i).map fun j => (s.queues j).totalDropped).sum := by
  rw [map_queueDropped, hn, List.range_succ_eq_map, List.map_cons, List.map_map, List.sum_cons]
  simp [Function.comp_def]

theorem sum_lost (hs : (runtime entries).Reachable s) (hstop : s.stop = false) (hq : Quiet entries s)
    (hn : entries.length = i + 1) :
    ((List.range entries.length).map s.lost).sum =
      ((List.range i).map fun j => (s.queues j).totalDropped).sum + (s.queues i).totalDropped := by
  have hmap : (List.range entries.length).map s.lost =
      (List.range entries.length).map fun j => (s.queues j).totalDropped :=
    List.map_congr_left fun j hj => (lost_eq_dropped hs hstop (hq j (List.mem_range.mp hj))).1
  rw [hmap, hn, List.range_succ, List.map_append, List.sum_append]
  simp

/-- Nothing is reported for the last queue. -/
theorem reportedDrops_last (hn : entries.length = i + 1) : reportedDrops entries s i = 0 := by
  have hnone : (telemetry entries s)[i + 1]? = none := List.getElem?_eq_none (by simp [telemetry, hn])
  rw [reportedDrops, hnone]
  rfl

/-- The report is complete exactly when the last queue has dropped nothing. -/
theorem lossesReported_iff (hs : (runtime entries).Reachable s) (hstop : s.stop = false) (hq : Quiet entries s)
    (hn : entries.length = i + 1) : LossesReported entries s ↔ (s.queues i).totalDropped = 0 := by
  have hi : entries.length - 1 = i := by omega
  have hsum := sum_lost hs hstop hq hn
  have hlast := (lost_eq_dropped hs hstop (hq i (by omega))).2
  constructor
  · rintro ⟨htotal, -⟩
    rw [hsum, sum_queueDropped hn] at htotal
    omega
  · intro hz
    refine ⟨by rw [hsum, sum_queueDropped hn, hz, Nat.add_zero], ?_⟩
    rw [polled, hi, reportedDrops_last hn]
    omega

theorem setQueue_dropped {q : InProcessQueue α} (hq : q.totalDropped = (s.queues i).totalDropped) (k : ℕ) :
    ((s.setQueue i q).queues k).totalDropped = (s.queues k).totalDropped := by
  by_cases hk : k = i
  · subst hk
    rw [setQueue_self, hq]
  · rw [setQueue_other _ _ _ hk]

theorem takeOut_dropped (frame : α) {q : InProcessQueue α} (hq : q = { s.queues i with queue := q.queue }) (k : ℕ) :
    ((s.takeOut i frame q).queues k).totalDropped = (s.queues k).totalDropped := by
  have hd : q.totalDropped = (s.queues i).totalDropped := by rw [hq]
  exact setQueue_dropped hd k

/-- Worker `i` adds to the drops of a queue when it enqueues into its own full queue that drops, and only then. -/
theorem WorkerStep.dropped {l : WorkerLabel α} (hst : s.WorkerStep i l s') (k : ℕ) :
    (s'.queues k).totalDropped =
      (s.queues k).totalDropped + if k = i ∧ s.overflows i l = true then 1 else 0 := by
  have hsame (ho : s.overflows i l = false) (hd : (s'.queues k).totalDropped = (s.queues k).totalDropped) :
      (s'.queues k).totalDropped = (s.queues k).totalDropped + if k = i ∧ s.overflows i l = true then 1 else 0 := by
    simp [ho, hd]
  have hmore (ho : s.overflows i l = true) (hi : (s'.queues i).totalDropped = (s.queues i).totalDropped + 1)
      (hd : k ≠ i → s'.queues k = s.queues k) :
      (s'.queues k).totalDropped = (s.queues k).totalDropped + if k = i ∧ s.overflows i l = true then 1 else 0 := by
    by_cases hk : k = i
    · subst hk
      simp [ho, hi]
    · simp [hk, hd hk]
  rcases hst with ⟨hl⟩ | ⟨_, _, _, hq'⟩ | _ | ⟨_, hroom⟩ | ⟨_, hfull, hpol⟩ | ⟨_, hfull, hpol, _⟩ |
    ⟨_, _, hpol⟩ | _ | _ | _
  case idle =>
    refine hsame ?_ rfl
    cases l <;> first | rfl | exact absurd rfl hl
  case fetched =>
    apply hsame rfl
    rw [goto_queues]
    exact takeOut_dropped _ hq' k
  case stored =>
    refine hsame ?_ ?_
    · have hnot : ¬ (s.queues i).full = true := fun h => by
        have := (s.queues i).full_iff.mp h
        omega
      simp [overflows, hnot]
    · rw [goto_queues]
      refine setQueue_dropped ?_ k
      rfl
  case refused =>
    refine hmore ?_ ?_ ?_
    · simp [overflows, (s.queues i).full_iff.mpr hfull, hpol]
    · rw [goto_queues, setQueue_self]
    · intro hk
      rw [goto_queues, setQueue_other _ _ _ hk]
  case evicted =>
    refine hmore ?_ ?_ ?_
    · simp [overflows, (s.queues i).full_iff.mpr hfull, hpol]
    · rw [goto_queues, setQueue_self]
      rfl
    · intro hk
      rw [goto_queues, setQueue_other _ _ _ hk]
  case waits => exact hsame (by simp [overflows, hpol]) rfl
  case resumed =>
    apply hsame rfl
    rw [goto_queues]
    refine setQueue_dropped ?_ k
    rfl
  case abandoned =>
    apply hsame rfl
    rw [goto_queues]
    refine setQueue_dropped ?_ k
    rfl
  all_goals exact hsame rfl rfl

/-- A step leaves the drops of the last queue as they are exactly when it meets `OutputKept`. -/
theorem dropped_step {l : Label α} (hn : entries.length = i + 1) (hst : s.Step entries.length l s') :
    ((s'.queues i).totalDropped = (s.queues i).totalDropped ∧ OutputKept entries s l) ∨
      (s'.queues i).totalDropped = (s.queues i).totalDropped + 1 ∧ ¬ OutputKept entries s l := by
  rcases hst with @⟨l, _, k, hk, hw⟩ | _ | ⟨_, _, hq'⟩ | _ | @⟨k, _, _⟩ | ⟨hl⟩
  case worker =>
    rw [hw.dropped i]
    by_cases ho : i = k ∧ s.overflows k l = true
    · rw [if_pos ho]
      exact .inr ⟨rfl, fun hkept => absurd (ho.2.symm.trans (hkept (by omega))) (by simp)⟩
    · rw [if_neg ho]
      exact .inl ⟨rfl, fun hki => Bool.eq_false_of_not_eq_true fun h => ho ⟨by omega, h⟩⟩
  case polled => exact .inl ⟨takeOut_dropped _ hq' i, trivial⟩
  case shutdown =>
    have hd : ((s.setQueue k (s.queues k).shutdown).queues i).totalDropped = (s.queues i).totalDropped := by
      refine setQueue_dropped ?_ i
      rfl
    exact .inl ⟨hd, trivial⟩
  case stopping =>
    rcases hl with rfl | rfl
    · exact .inl ⟨rfl, trivial⟩
    · exact .inl ⟨rfl, trivial⟩
  all_goals exact .inl ⟨rfl, trivial⟩

/-- The last queue has dropped nothing exactly when some run to this state meets `OutputKept` throughout. -/
theorem last_dropped_iff (hs : (runtime entries).Reachable s) (hn : entries.length = i + 1) :
    (s.queues i).totalDropped = 0 ↔ (runtime entries).Reach (OutputKept entries) s := by
  -- a step that breaks `OutputKept` leaves a drop, and no later step takes it back
  have hiff := hs.unmarked_iff (OutputKept entries) (fun s => (s.queues i).totalDropped ≠ 0) ?_ ?_ ?_
  · rwa [not_not] at hiff
  · intro s h0
    rw [show s = started entries from h0, not_not]
    rfl
  · intro s l s' hst hm
    rcases dropped_step hn (step_cases hst) with ⟨h, -⟩ | ⟨h, -⟩
    · rwa [h]
    · omega
  · intro s l s' _ hz hst
    rw [not_not] at hz
    rcases dropped_step hn (step_cases hst) with ⟨h, hD⟩ | ⟨h, hD⟩
    · exact ⟨fun hm => absurd (h.trans hz) hm, fun hD' => absurd hD hD'⟩
    · exact ⟨fun _ => hD, fun _ => by omega⟩

/-- **The report of the losses.**  In a state without busy workers before `stop`, `telemetry` reports every lost frame
exactly when the last stage never enqueued into a full output queue that drops. -/
theorem lossesReported_iff_outputKept (hn : entries ≠ []) (hs : (runtime entries).Reachable s)
    (hstop : s.stop = false) (hq : Quiet entries s) :
    LossesReported entries s ↔ (runtime entries).Reach (OutputKept entries) s := by
  obtain ⟨i, hi⟩ := Nat.exists_eq_add_of_lt (List.length_pos_iff.mpr hn)
  have hlen : entries.length = i + 1 := by omega
  rw [lossesReported_iff hs hstop hq hlen, last_dropped_iff hs hlen]

instance (entries : List StageEntry) (s : LinearRuntime α) (l : Label α) : Decidable (OutputKept entries s l) :=
  match l with
  | .worker _ _ => inferInstanceAs (Decidable (_ → _))
  | .pollOutput | .stop | .shutdown | .join => .isTrue trivial

/-- The source enqueues two frames at once into a queue for one frame. -/
def burst : List (Label ℕ) :=
  [.worker 0 .test, .worker 0 (.process [7, 8] .ok 5), .worker 0 .enqueue, .worker 0 .enqueue, .worker 0 .finish]

/-- Two stages, and a queue for one frame between them. -/
def sourceAndSink : List StageEntry := [⟨"source", 1, .dropLatest⟩, ⟨"sink", 1, .dropLatest⟩]

/-- One stage, and a queue for one frame to poll. -/
def sourceOnly : List StageEntry := [⟨"source", 1, .dropOldest⟩]

/-- **A run of `lossesReported_iff_outputKept`** that loses a frame between two stages, which is reported. -/
theorem lossesReported_between_stages :
    ∃ s : LinearRuntime ℕ, s.lost 0 = 1 ∧ LossesReported sourceAndSink s := by
  have he : ((Lib.Lts.execIn (OutputKept sourceAndSink) (runtime sourceAndSink) (started sourceAndSink) burst).map
      fun s => (s.lost 0, s.stop, (s.workers 0).pc.busy, (s.workers 1).pc.busy)) = some (1, false, false, false) := by
    decide
  obtain ⟨s, hs, hp⟩ := Option.map_eq_some_iff.mp he
  simp only [Prod.mk.injEq] at hp
  obtain ⟨hlost, hstop, hq0, hq1⟩ := hp
  have hrun := Lib.Lts.Reach.execIn (.init rfl) hs
  have hne : sourceAndSink ≠ [] := by simp [sourceAndSink]
  refine ⟨s, hlost, (lossesReported_iff_outputKept hne hrun.reachable hstop ?_).mpr hrun⟩
  intro i hi
  obtain rfl | rfl : i = 0 ∨ i = 1 := by
    simp only [sourceAndSink, List.length_cons, List.length_nil] at hi
    omega
  · exact hq0
  · exact hq1

/-- **An unreported loss.**  With one stage, the same burst loses a frame of the output queue, and the entries of
`telemetry` add up to zero. -/
theorem output_drop_unreported :
    ∃ s : LinearRuntime ℕ, (runtime sourceOnly).Reachable s ∧ s.stop = false ∧
      Quiet sourceOnly s ∧ ¬ LossesReported sourceOnly s := by
  have he : (((runtime sourceOnly).exec (started sourceOnly) burst).map fun s =>
      (s.lost 0, s.stop, (s.workers 0).pc.busy)) = some (1, false, false) := by decide
  obtain ⟨s, hs, hp⟩ := Option.map_eq_some_iff.mp he
  simp only [Prod.mk.injEq] at hp
  obtain ⟨hlost, hstop, hq0⟩ := hp
  refine ⟨s, Lib.Lts.reachable_of_exec burst rfl hs, hstop, ?_, ?_⟩
  · intro i hi
    obtain rfl : i = 0 := by
      simp only [sourceOnly, List.length_cons, List.length_nil] at hi
      omega
    exact hq0
  · intro h
    have htotal := h.total
    simp [sourceOnly, telemetry, hlost] at htotal

end Losses

end LinearRuntime

end Grebe
