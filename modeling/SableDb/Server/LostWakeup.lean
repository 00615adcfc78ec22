import SableDb.Server.ChannelCapacity

/-!
# A blocked client can be lost

`wakeup_clients` decides to remove its key when it finds the queue empty, and removes it in a
later step; a `block_client` that fetched the same queue in between pushes its sender onto a queue
that the table then no longer maps.  Once no key maps a queue and no call holds it, nothing can
pop it again: the sender in it is never signalled.
-/

namespace SableDb

/-- Whether the call holds queue `q`: it fetched the queue from the table and still uses it. -/
def Thread.holds (q : Nat) : Thread → Bool
  | .block _ (.push _ q' _) => q' == q
  | .wake _ (.pop q' _) => q' == q
  | .wake _ (.send q' _ _) => q' == q
  | .wake _ (.queueIsEmpty q') => q' == q
  | _ => false

namespace Registry

/-- Queue `q` is lost: allocated, mapped by no key, and held by no call. -/
structure Lost (r : Registry) (q : Nat) : Prop where
  lt : q < r.queues.length
  unmapped : ∀ e ∈ r.table, e.2 ≠ q
  unheld : ∀ th ∈ r.threads, th.holds q = false

/-- A call holds a queue only if it held it already or fetched it from the table. -/
theorem stepThread_holds {r : Registry} {q : Nat} (hmap : ∀ e ∈ r.table, e.2 ≠ q) {th : Thread}
    (hth : th.holds q = false) : (r.stepThread th).2.holds q = false := by
  have hget : ∀ key q', r.table.get key = some q' → q' ≠ q :=
    fun key q' h => hmap _ (KeyMap.mem_of_get h)
  rcases th with ⟨w, (_ | ⟨key, keys⟩) | ⟨key, q', keys⟩ | ⟨key, keys⟩⟩ |
      ⟨key, n | n | ⟨q', _ | n⟩ | ⟨q', n, w⟩ | q' | _ | _⟩ <;>
    simp only [stepThread, blockStep, wakeStep] at hth ⊢
  case block.get.cons | wake.get =>
    cases hk : r.table.get key with
    | none => simp [Thread.holds]
    | some q' => simpa [Thread.holds] using hget _ _ hk
  case wake.pop.succ =>
    cases hs : (r.queue q').senders <;> simpa [hs, Thread.holds] using hth
  case wake.send => split_ifs <;> simpa [Thread.holds] using hth
  case wake.isEmpty | wake.queueIsEmpty => split_ifs <;> rfl
  all_goals first | rfl | exact hth

/-- A call that does not hold a queue does not change it. -/
theorem stepThread_queue {r : Registry} {q : Nat} (hq : q < r.queues.length) {th : Thread}
    (hth : th.holds q = false) : (r.stepThread th).1.queue q = r.queue q := by
  rcases th with ⟨w, (_ | ⟨key, keys⟩) | ⟨key, q', keys⟩ | ⟨key, keys⟩⟩ |
      ⟨key, n | n | ⟨q', _ | n⟩ | ⟨q', n, w⟩ | q' | _ | _⟩ <;>
    simp only [stepThread, blockStep, wakeStep, Thread.holds, beq_eq_false_iff_ne, ne_eq] at hth ⊢
  case block.get.cons | wake.get => split <;> rfl
  case block.push => rw [queue_push, if_neg fun h => hth h.1]
  case block.insert => rw [queue_insertNew, if_pos hq]
  case wake.pop.succ =>
    split
    · rfl
    · rw [queue_setSenders, if_neg fun h => hth h.1]
  case wake.send => split_ifs <;> rfl
  all_goals rfl

/-- No step maps a queue that the table does not map: a step inserts only a new queue. -/
theorem stepThread_unmapped {r : Registry} {q : Nat} (hq : q < r.queues.length)
    (hmap : ∀ e ∈ r.table, e.2 ≠ q) (th : Thread) : ∀ e ∈ (r.stepThread th).1.table, e.2 ≠ q := by
  rcases r.stepThread_effect th with hs | ⟨q', w, hs⟩ | ⟨key, w, hs⟩ | ⟨q', w, rest, -, hs⟩ |
      ⟨w, hs⟩ | ⟨key, hs⟩ <;> rw [hs]
  case inr.inr.inl =>
    intro e he
    rcases KeyMap.mem_insert he with he | rfl
    · exact hmap e he
    · exact Nat.ne_of_gt hq
  case inr.inr.inr.inr.inr => exact fun e he => hmap e (List.mem_filter.1 he).1
  all_goals exact hmap

/-- A lost queue stays lost, and stays as it is. -/
theorem Lost.step {r : Registry} {q : Nat} (h : r.Lost q) (a : RegistryAction) :
    (r.step a).Lost q ∧ (r.step a).queue q = r.queue q := by
  cases a with
  | blockClient keys =>
    rcases keys with _ | ⟨key, keys⟩
    · exact ⟨h, rfl⟩
    refine ⟨⟨h.lt, h.unmapped, fun th hth => ?_⟩, rfl⟩
    simp only [Registry.step, List.mem_append, List.mem_singleton] at hth
    rcases hth with hth | rfl
    · exact h.unheld th hth
    · rfl
  | wakeupClients key n =>
    refine ⟨⟨h.lt, h.unmapped, fun th hth => ?_⟩, rfl⟩
    simp only [Registry.step, List.mem_append, List.mem_singleton] at hth
    rcases hth with hth | rfl
    · exact h.unheld th hth
    · rfl
  | run i =>
    simp only [Registry.step]
    split
    · rename_i th hi
      have hth := h.unheld th (List.getElem?_mem hi)
      refine ⟨⟨h.lt.trans_le (r.stepThread_queue_key th).1,
        stepThread_unmapped h.lt h.unmapped th, fun th' hth' => ?_⟩, stepThread_queue h.lt hth⟩
      rcases List.mem_or_eq_of_mem_set hth' with hth' | rfl
      · exact h.unheld th' hth'
      · exact stepThread_holds h.unmapped hth
    · exact ⟨h, rfl⟩
  | receive w =>
    simp only [Registry.step]
    split
    · exact ⟨⟨h.lt, h.unmapped, h.unheld⟩, rfl⟩
    · exact ⟨h, rfl⟩
  | close w => exact ⟨⟨h.lt, h.unmapped, h.unheld⟩, rfl⟩

/-- **A lost queue is lost for good**: whatever happens next, no key maps it, no call holds it,
and its senders stay where they are. -/
theorem Lost.run {r : Registry} {q : Nat} (h : r.Lost q) (acts : List RegistryAction) :
    (r.run acts).Lost q ∧ (r.run acts).queue q = r.queue q :=
  run_invariant (fun r' => r'.Lost q ∧ r'.queue q = r.queue q)
    (fun _ a h' => ⟨(h'.1.step a).1, (h'.1.step a).2.trans h'.2⟩) acts r ⟨h, rfl⟩

/-- A step makes no token of a channel that exists already. -/
theorem tokens_step_le (r : Registry) (a : RegistryAction) {w : WaiterId}
    (hw : w < r.waiters.length) :
    (r.step a).tokens w ≤ r.tokens w ∧ w < (r.step a).waiters.length := by
  cases a with
  | blockClient keys =>
    rcases keys with _ | ⟨key, keys⟩
    · exact ⟨le_rfl, hw⟩
    refine ⟨?_, hw.trans_le (List.sublist_append_left _ _).length_le⟩
    rw [tokens_step_blockClient, if_neg (Nat.ne_of_gt hw), Nat.add_zero]
  | wakeupClients key n =>
    exact ⟨by simp [tokens, waiter, queued, inFlight, pendingPushes, Registry.step,
      Thread.inFlight, Thread.pendingPushes], hw⟩
  | run i =>
    refine ⟨r.tokens_run_le i w, ?_⟩
    simp only [Registry.step]
    split
    · rename_i th _
      have := (r.stepThread_effect th)
      rcases this with hs | ⟨q', w', hs⟩ | ⟨key, w', hs⟩ | ⟨q', w', rest, -, hs⟩ | ⟨w', hs⟩ |
        ⟨key, hs⟩ <;> simpa [hs, deliver, push, insertNew, setSenders] using hw
    · exact hw
  | receive w' =>
    simp only [Registry.step]
    split
    · refine ⟨?_, by simpa using hw⟩
      simp only [tokens, queued, inFlight, pendingPushes, waiter_modify]
      split_ifs <;> simp
    · exact ⟨le_rfl, hw⟩
  | close w' =>
    refine ⟨?_, by simpa [Registry.step] using hw⟩
    simp only [Registry.step, tokens, queued, inFlight, pendingPushes, waiter_modify]
    split_ifs <;> simp

theorem count_le_queued (r : Registry) {q : Nat} (hq : q < r.queues.length) (w : WaiterId) :
    (r.queue q).senders.count w ≤ r.queued w := by
  have hmem : r.queue q ∈ r.queues := by
    simp only [queue, List.getD_eq_getElem?_getD, List.getElem?_eq_getElem hq, Option.getD_some]
    exact List.getElem_mem hq
  exact List.single_le_sum (fun _ _ => Nat.zero_le _) _
    (List.mem_map_of_mem (·.senders.count w) hmem)

/-- Client 0 blocks on key `[1]`; `wakeup_clients([1], 1)` wakes it, finds the queue empty and
decides to remove the key; before it does, client 1 blocks on `[1]` and pushes its sender onto the
queue that the table still maps; then the key is removed. -/
def lostWakeup : List RegistryAction :=
  [.blockClient [[1]], .run 0, .run 0,
    .wakeupClients [1] 1, .run 1, .run 1, .run 1, .run 1, .run 1, .run 1,
    .blockClient [[1]], .run 2, .run 2,
    .run 1]

/-- **A blocked client is lost.**  After the interleaving `lostWakeup`, and whatever happens
next, client 1's sender sits in queue 0, which no key of `blocked_clients` maps, and client 1 is
never signalled. -/
theorem blocked_client_lost (acts : List RegistryAction) :
    let r := (init.run lostWakeup).run acts
    (r.queue 0).senders = [1] ∧ (∀ e ∈ r.table, e.2 ≠ 0) ∧ (r.waiter 1).sent = 0 := by
  intro r
  have hlost : (init.run lostWakeup).Lost 0 := ⟨by decide, by decide, by decide⟩
  obtain ⟨hl, hq⟩ := hlost.run acts
  have hq0 : (r.queue 0).senders = [1] := by rw [hq]; decide
  have htok : 1 < r.waiters.length ∧ r.tokens 1 ≤ 1 :=
    run_invariant (fun r' => 1 < r'.waiters.length ∧ r'.tokens 1 ≤ 1)
      (fun r' a h => ⟨(r'.tokens_step_le a h.1).2, (r'.tokens_step_le a h.1).1.trans h.2⟩)
      acts _ ⟨by decide, by decide⟩
  have hcount := r.count_le_queued hl.lt 1
  rw [hq0] at hcount
  simp only [tokens] at htok
  simp only [List.count_singleton_self] at hcount
  exact ⟨hq0, hl.unmapped, by omega⟩

end Registry

end SableDb
