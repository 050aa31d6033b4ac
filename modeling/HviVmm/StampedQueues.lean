/-
A table with a queue that orders its entries by stamps.

Each use of an entry gives it the next stamp and puts it at the end of the queue with that stamp.
What stands in the queue from earlier uses stays there, and is told apart by its stamp.

* `InStep` — the table and the queue belong together; kept by a use, by dropping an entry and by
  leaving out what is out of date;
* `InStep.oldest_some`, `InStep.oldest_none` — the first up-to-date element of the queue is the
  entry with the smallest stamp, and there is one unless the table is empty.
-/
import HviVmm.HashTables
import Mathlib.Data.List.Perm.Subperm
import Mathlib.Order.Basic

namespace StampedQueues

variable {κ α : Type} [DecidableEq κ] {tick : α → ℕ} {m : HashMap κ α} {queue rest : List (κ × ℕ)}
  {ticks t : ℕ} {k : κ} {v : α}

/-- The stamp of a key's entry. -/
def liveStamp (tick : α → ℕ) (m : HashMap κ α) (k : κ) : Option ℕ := (m.lookup k).map tick

/-- The key of the first element that carries the stamp of its entry, and what follows it. -/
def oldest (tick : α → ℕ) (m : HashMap κ α) : List (κ × ℕ) → Option (κ × List (κ × ℕ))
  | [] => none
  | (k, t) :: rest => if liveStamp tick m k = some t then some (k, rest) else oldest tick m rest

structure InStep (tick : α → ℕ) (m : HashMap κ α) (queue : List (κ × ℕ)) (ticks : ℕ) : Prop where
  queued : ∀ k t, liveStamp tick m k = some t → (k, t) ∈ queue
  increasing : queue.Pairwise fun a b => a.2 < b.2
  passed : ∀ e ∈ queue, e.2 ≤ ticks

/-- An entry goes that no other is older than, or there is none. -/
def RemovesOldest (tick : α → ℕ) (m m' : HashMap κ α) (went : Bool) : Prop :=
  if went then ∃ k t, liveStamp tick m k = some t ∧
    (∀ k' t', liveStamp tick m k' = some t' → t ≤ t') ∧ m' = m.erase k
  else m = ∅ ∧ m' = ∅

theorem liveStamp_insert (k' : κ) :
    liveStamp tick (m.insert k v) k' = if k' = k then some (tick v) else liveStamp tick m k' := by
  unfold liveStamp
  by_cases h : k' = k
  · rw [if_pos h, h, AList.lookup_insert, Option.map_some]
  · rw [if_neg h, AList.lookup_insert_ne h]

theorem liveStamp_erase (k' : κ) :
    liveStamp tick (m.erase k) k' = if k' = k then none else liveStamp tick m k' := by
  unfold liveStamp
  by_cases h : k' = k
  · rw [if_pos h, h, AList.lookup_erase, Option.map_none]
  · rw [if_neg h, AList.lookup_erase_ne h]

theorem eq_empty_of_liveStamp (h : ∀ k, liveStamp tick m k = none) : m = ∅ := by
  refine AList.ext (List.eq_nil_iff_forall_not_mem.2 fun e he => ?_)
  have hnone := h e.1
  rw [liveStamp, HashMap.mem_entries_iff.1 he] at hnone
  cases hnone

namespace InStep

theorem empty : InStep tick (∅ : HashMap κ α) [] ticks where
  queued := by
    intro k t h
    cases h
  increasing := .nil
  passed := by
    intro e he
    cases he

theorem use (h : InStep tick m queue ticks) (k : κ) (hv : tick v = ticks + 1) :
    InStep tick (m.insert k v) (queue ++ [(k, ticks + 1)]) (ticks + 1) where
  queued := by
    intro k' t ht
    rw [liveStamp_insert] at ht
    by_cases hk : k' = k
    · rw [if_pos hk, hv] at ht
      cases ht
      rw [hk]
      exact List.mem_append_right _ (List.mem_singleton_self _)
    · rw [if_neg hk] at ht
      exact List.mem_append_left _ (h.queued k' t ht)
  increasing := by
    refine List.pairwise_append.2 ⟨h.increasing, List.pairwise_singleton _ _, fun a ha b hb => ?_⟩
    rw [List.mem_singleton.1 hb]
    exact Nat.lt_succ_of_le (h.passed a ha)
  passed := by
    intro e he
    rcases List.mem_append.1 he with hold | hnew
    · exact (h.passed e hold).trans (Nat.le_succ _)
    · rw [List.mem_singleton.1 hnew]

/-- An entry goes, and what it has left in the queue stays. -/
theorem erase (h : InStep tick m queue ticks) (k : κ) : InStep tick (m.erase k) queue ticks :=
  { h with
    queued := by
      intro k' t ht
      rw [liveStamp_erase] at ht
      split at ht
      · cases ht
      · exact h.queued k' t ht }

/-- An entry has one element in the queue with its stamp. -/
theorem count_eq_one [BEq (κ × ℕ)] [LawfulBEq (κ × ℕ)] (h : InStep tick m queue ticks)
    (hk : liveStamp tick m k = some t) : queue.count (k, t) = 1 := by
  have hnodup : queue.Nodup := h.increasing.imp fun hlt heq => by
    rw [heq] at hlt
    exact Nat.lt_irrefl _ hlt
  exact List.count_eq_one_of_mem hnodup (h.queued k t hk)

/-- What is out of date is left out of the queue; it is then as long as the table at most. -/
theorem compact (h : InStep tick m queue ticks) :
    InStep tick m (queue.filter fun e => liveStamp tick m e.1 = some e.2) ticks ∧
      (queue.filter fun e => liveStamp tick m e.1 = some e.2).length ≤ m.len := by
  refine ⟨⟨?_, h.increasing.filter _, fun e he => h.passed e (List.mem_of_mem_filter he)⟩, ?_⟩
  · intro k t ht
    exact List.mem_filter.2 ⟨h.queued k t ht, by simpa using ht⟩
  · -- its keys are different keys of the table
    have hnodup : ((queue.filter fun e => liveStamp tick m e.1 = some e.2).map Prod.fst).Nodup := by
      refine List.pairwise_map.2 ((h.increasing.filter _).imp_of_mem fun ha hb hlt heq => ?_)
      have hstampa := of_decide_eq_true (List.mem_filter.1 ha).2
      have hstampb := of_decide_eq_true (List.mem_filter.1 hb).2
      rw [heq, hstampb] at hstampa
      exact absurd (Option.some.inj hstampa) (Nat.ne_of_gt hlt)
    have hkeys : (queue.filter fun e => liveStamp tick m e.1 = some e.2).map Prod.fst ⊆ m.keys := by
      intro k hk
      obtain ⟨e, he, rfl⟩ := List.mem_map.1 hk
      have hstamp := of_decide_eq_true (List.mem_filter.1 he).2
      obtain ⟨v, hv, -⟩ := Option.map_eq_some_iff.1 hstamp
      exact AList.lookup_isSome.1 (by rw [hv]; rfl)
    have := (hnodup.subperm hkeys).length_le
    rw [List.length_map] at this
    exact this.trans_eq (List.length_map _)

/-- The first up-to-date element is the oldest entry; the queue from there on is in step with the
rest of the table. -/
theorem oldest_some (h : InStep tick m queue ticks) (hold : oldest tick m queue = some (k, rest)) :
    RemovesOldest tick m (m.erase k) true ∧ InStep tick (m.erase k) rest ticks ∧
      rest.length < queue.length ∧ k ∈ m := by
  induction queue with
  | nil => cases hold
  | cons e queue ih =>
    obtain ⟨k', t⟩ := e
    rw [oldest] at hold
    obtain ⟨hlater, hincreasing⟩ := List.pairwise_cons.1 h.increasing
    by_cases hlive : liveStamp tick m k' = some t
    · rw [if_pos hlive] at hold
      cases hold
      have hmem : k ∈ m := by
        obtain ⟨v, hv, -⟩ := Option.map_eq_some_iff.1 hlive
        exact AList.lookup_isSome.1 (by rw [hv]; rfl)
      refine ⟨⟨k, t, hlive, fun k' t' ht' => ?_, rfl⟩, ⟨fun k' t' ht' => ?_, hincreasing,
        fun e he => h.passed e (List.mem_cons_of_mem _ he)⟩, Nat.lt_succ_self _, hmem⟩
      · rcases List.mem_cons.1 (h.queued k' t' ht') with heq | hin
        · cases heq
          exact le_refl _
        · exact (hlater _ hin).le
      · rw [liveStamp_erase] at ht'
        split at ht'
        · cases ht'
        · next hne =>
          refine (List.mem_cons.1 (h.queued k' t' ht')).resolve_left fun heq => hne ?_
          exact congrArg Prod.fst heq
    · rw [if_neg hlive] at hold
      have hrest : InStep tick m queue ticks := by
        refine ⟨fun k₁ t₁ ht₁ => ?_, hincreasing,
          fun e he => h.passed e (List.mem_cons_of_mem _ he)⟩
        refine (List.mem_cons.1 (h.queued k₁ t₁ ht₁)).resolve_left fun heq => hlive ?_
        cases heq
        exact ht₁
      obtain ⟨hremoves, hin, hlen, hmem⟩ := ih hrest hold
      exact ⟨hremoves, hin, hlen.trans (Nat.lt_succ_self _), hmem⟩

theorem oldest_none (h : InStep tick m queue ticks) (hold : oldest tick m queue = none) :
    m = ∅ := by
  suffices hdead : ∀ k, liveStamp tick m k = none from eq_empty_of_liveStamp hdead
  intro k
  cases hk : liveStamp tick m k with
  | none => rfl
  | some t =>
    have hin := h.queued k t hk
    clear h
    induction queue with
    | nil => cases hin
    | cons e queue ih =>
      rw [oldest] at hold
      split at hold
      · cases hold
      · next hlive =>
        rcases List.mem_cons.1 hin with heq | hrest
        · rw [← heq] at hlive
          exact absurd hk hlive
        · exact ih hold hrest

end InStep

end StampedQueues
