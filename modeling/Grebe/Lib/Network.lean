import Mathlib.Tactic

/-!
# Lib.Network — a network that may lose, repeat and reorder

What arrives of a list of messages is told by its `route`, the places of the messages in the order of their arrival.

* `deliver route sent`: what arrives.  It commutes with what is done to each message (`deliver_map`), is a sublist where the
  route goes up, and a part of the messages where no place comes twice.
* `sublistForall₂_comp` and the others: what is left of messages after one link and then the next.

The library names no program.
-/

namespace Lib

universe u v

variable {α : Type u} {β : Type v}

/-! ## Delivery -/

section Deliver

/-- The messages at the places of `route`; a place behind the last message brings none. -/
def deliver (route : List ℕ) (sent : List α) : List α := route.filterMap (sent[·]?)

variable {route : List ℕ} {sent : List α}

@[simp] theorem deliver_nil (sent : List α) : deliver [] sent = [] := rfl

@[simp] theorem deliver_empty (route : List ℕ) : deliver route ([] : List α) = [] := by
  simp [deliver]

/-- Nothing is made up. -/
theorem mem_of_mem_deliver {x : α} (h : x ∈ deliver route sent) : x ∈ sent := by
  obtain ⟨i, -, hi⟩ := List.mem_filterMap.mp h
  exact List.mem_of_getElem? hi

theorem deliver_map (f : α → β) (route : List ℕ) (sent : List α) :
    deliver route (sent.map f) = (deliver route sent).map f := by
  rw [deliver, deliver, List.map_filterMap]
  apply List.filterMap_congr
  intro i _
  exact List.getElem?_map

/-- Where each message is good for something, so is each that arrives. -/
theorem deliver_filterMap {f : α → Option β} {g : α → β} (h : ∀ x ∈ sent, f x = some (g x)) :
    (deliver route sent).filterMap f = deliver route (sent.filterMap f) := by
  have hsent : sent.filterMap f = sent.map g := by
    rw [← List.filterMap_eq_map]
    exact List.filterMap_congr h
  have harrived : (deliver route sent).filterMap f = (deliver route sent).map g := by
    rw [← List.filterMap_eq_map]
    exact List.filterMap_congr fun x hx => h x (mem_of_mem_deliver hx)
  rw [harrived, hsent, deliver_map]

theorem deliver_cons (i : ℕ) (route : List ℕ) (sent : List α) :
    deliver (i :: route) sent = sent[i]?.toList ++ deliver route sent := by
  rw [deliver, List.filterMap_cons]
  cases sent[i]? <;> rfl

/-- The places that bring a message. -/
theorem deliver_eq_map (h : ∀ i ∈ route, i < sent.length) (d : α) :
    deliver route sent = route.map fun i => sent.getD i d := by
  rw [← List.filterMap_eq_map]
  apply List.filterMap_congr
  intro i hi
  have hlt := h i hi
  rw [List.getElem?_eq_getElem hlt]
  simp [hlt]

theorem deliver_filter (route : List ℕ) (sent : List α) :
    deliver (route.filter (· < sent.length)) sent = deliver route sent := by
  induction route with
  | nil => rfl
  | cons i route ih =>
    by_cases hi : i < sent.length
    · rw [List.filter_cons_of_pos (by simpa using hi), deliver_cons, deliver_cons, ih]
    · rw [List.filter_cons_of_neg (by simpa using hi), deliver_cons, ih, List.getElem?_eq_none (not_lt.mp hi)]
      rfl

theorem length_deliver (route : List ℕ) (sent : List α) :
    (deliver route sent).length = (route.filter (· < sent.length)).length := by
  by_cases hsent : sent = []
  · subst hsent
    simp
  · obtain ⟨d, -⟩ := List.exists_mem_of_ne_nil _ hsent
    rw [← deliver_filter, deliver_eq_map (fun i hi => by simpa using (List.mem_filter.mp hi).2) d, List.length_map]

/-- **Without repetition** there arrive no more messages than were sent. -/
theorem length_deliver_le (h : route.Nodup) (sent : List α) : (deliver route sent).length ≤ sent.length := by
  rw [length_deliver]
  have hsub : (route.filter (· < sent.length)) ⊆ List.range sent.length := by
    intro i hi
    exact List.mem_range.mpr (by simpa using (List.mem_filter.mp hi).2)
  exact ((h.filter _).subperm hsub).length_le.trans_eq List.length_range

/-- **Without reordering** what arrives is a sublist: from each place on, of what was sent from there on. -/
theorem deliver_sublist_drop (h : route.Pairwise (· < ·)) {k : ℕ} (hk : ∀ i ∈ route, k ≤ i) (sent : List α) :
    (deliver route sent).Sublist (sent.drop k) := by
  induction route generalizing k with
  | nil => exact List.nil_sublist _
  | cons i route ih =>
    have hrest := ih h.of_cons fun j hj => List.rel_of_pairwise_cons h hj
    have hdrop : (sent.drop i).Sublist (sent.drop k) := by
      obtain ⟨d, hd⟩ := Nat.exists_eq_add_of_le (hk i List.mem_cons_self)
      rw [hd, ← List.drop_drop]
      exact List.drop_sublist _ _
    rw [deliver_cons]
    refine List.Sublist.trans ?_ hdrop
    by_cases hi : i < sent.length
    · rw [List.getElem?_eq_getElem hi, List.drop_eq_getElem_cons hi]
      exact hrest.cons_cons _
    · rw [List.getElem?_eq_none (not_lt.mp hi)]
      rw [List.drop_eq_nil_of_le (by omega)] at hrest
      exact hrest.trans (List.nil_sublist _)

theorem deliver_sublist (h : route.Pairwise (· < ·)) (sent : List α) : (deliver route sent).Sublist sent :=
  deliver_sublist_drop h (fun _ _ => Nat.zero_le _) sent

/-- Records of what was brought from which place. -/
theorem forall₂_deliver {R : β → α → Prop} {records : List (ℕ × β)} {sent : List α}
    (h : ∀ r ∈ records, ∃ a, sent[r.1]? = some a ∧ R r.2 a) :
    List.Forall₂ R (records.map Prod.snd) (deliver (records.map Prod.fst) sent) := by
  induction records with
  | nil => exact .nil
  | cons r records ih =>
    obtain ⟨⟨a, ha, hra⟩, hrest⟩ := List.forall_mem_cons.mp h
    rw [List.map_cons, List.map_cons, deliver_cons, ha]
    exact .cons hra (ih hrest)

end Deliver

/-! ## From one list to the next -/

section Chain

universe w

variable {γ : Type w} {R : α → β → Prop} {S : β → γ → Prop}

/-- Two links make one: what is left of a message after both comes from what is left of it after the first. -/
theorem sublistForall₂_comp {l₁ : List α} {l₂ : List β} {l₃ : List γ} (h : List.SublistForall₂ R l₁ l₂)
    (h' : List.SublistForall₂ S l₂ l₃) : List.SublistForall₂ (fun a c => ∃ b, R a b ∧ S b c) l₁ l₃ := by
  induction h' generalizing l₁ with
  | nil =>
    cases h
    exact .nil
  | cons hbc _ ih =>
    cases h with
    | nil => exact .nil
    | cons hab hrest => exact .cons ⟨_, hab, hbc⟩ (ih hrest)
    | cons_right hrest => exact .cons_right (ih hrest)
  | cons_right _ ih => exact .cons_right (ih h)

theorem sublistForall₂_of_forall₂ {l : List α} {l' : List β} (h : List.Forall₂ R l l') : List.SublistForall₂ R l l' :=
  List.sublistForall₂_iff.mpr ⟨l', h, List.Sublist.refl _⟩

theorem sublistForall₂_of_sublist {l₁ l₂ : List α} {l₃ : List β} (h : l₁.Sublist l₂) (h' : List.SublistForall₂ R l₂ l₃) :
    List.SublistForall₂ R l₁ l₃ := by
  induction h' generalizing l₁ with
  | nil =>
    rw [List.sublist_nil.mp h]
    exact .nil
  | @cons a b l₂ l₃ hab _ ih =>
    rcases List.sublist_cons_iff.mp h with hrest | ⟨l, rfl, hrest⟩
    · exact .cons_right (ih hrest)
    · exact .cons hab (ih hrest)
  | cons_right _ ih => exact .cons_right (ih h)

theorem sublistForall₂_trans_sublist {l₁ : List α} {l₂ l₃ : List β} (h : List.SublistForall₂ R l₁ l₂)
    (h' : l₂.Sublist l₃) : List.SublistForall₂ R l₁ l₃ := by
  obtain ⟨l, hl, hsub⟩ := List.sublistForall₂_iff.mp h
  exact List.sublistForall₂_iff.mpr ⟨l, hl, hsub.trans h'⟩

/-- Where each message is made into at most one. -/
theorem sublistForall₂_flatten {T : α → List β → Prop} (hone : ∀ a ys, T a ys → ys.length ≤ 1) {l : List α}
    {outs : List (List β)} (h : List.Forall₂ T l outs) :
    List.SublistForall₂ (fun b a => T a [b]) outs.flatten l := by
  induction h with
  | nil => exact .nil
  | @cons a ys l outs ha _ ih =>
    have hle := hone a ys ha
    rw [List.flatten_cons]
    rcases ys with _ | ⟨b, _ | ⟨c, ys⟩⟩
    · exact .cons_right ih
    · exact .cons ha ih
    · exact absurd hle (by simp)

end Chain

end Lib
