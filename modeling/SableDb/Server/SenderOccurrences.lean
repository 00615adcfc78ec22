import SableDb.Server.Registry

/-!
# How often a sender sits in one key's queue

`block_client(keys)` pushes its sender once for each entry of `keys`, onto the queue the table
maps the key to (or a new one).  So every copy of the sender in the queues allocated for a key `k`
is paid for by an occurrence of `k` in `keys`: a sender occurs in a key's queue at most as often
as its key list names the key, and at most once when the list has no repeats.  A key list that
repeats a key does put the sender twice into one queue.
-/

namespace SableDb

/-- The pushes for `k` that a `block_client` call at `pc` still owes. -/
def BlockPc.pendingFor (k : UserKey) : BlockPc → Nat
  | .get keys => keys.count k
  | .push key _ keys => (key :: keys).count k
  | .insert key keys => (key :: keys).count k

/-- The pushes of `w`'s sender for `k` that the call still owes. -/
def Thread.pendingFor (w : WaiterId) (k : UserKey) : Thread → Nat
  | .block w' pc => if w' = w then pc.pendingFor k else 0
  | .wake _ _ => 0

namespace Registry

/-- The copies of `w`'s sender in the queues allocated for `k`. -/
def queuedFor (r : Registry) (w : WaiterId) (k : UserKey) : Nat :=
  (r.queues.map fun cq => if cq.key = k then cq.senders.count w else 0).sum

/-- The pushes of `w`'s sender for `k` that a `block_client` call still owes. -/
def pendingFor (r : Registry) (w : WaiterId) (k : UserKey) : Nat :=
  (r.threads.map (Thread.pendingFor w k)).sum

theorem queuedFor_push (r : Registry) {q : Nat} (hq : q < r.queues.length) (w' w k) :
    (r.push q w').queuedFor w k =
      r.queuedFor w k + if w' = w then (if (r.queue q).key = k then 1 else 0) else 0 := by
  have h := sum_map_modify (fun cq => if cq.key = k then cq.senders.count w else 0)
    (fun cq => { cq with senders := cq.senders ++ [w'] }) r.queues q default
  rw [getD_modify, if_pos (show q = q ∧ q < r.queues.length from ⟨rfl, hq⟩)] at h
  simp only [queuedFor, push, queue]
  by_cases hk : (r.queues.getD q default).key = k <;> by_cases hw : w' = w <;>
    simp only [hk, hw, true_and, and_true, and_false, if_true, if_false, List.count_append,
      List.count_singleton', beq_iff_eq] at h ⊢ <;> omega

theorem queuedFor_setSenders_le (r : Registry) (q : Nat) {w' : WaiterId} {rest : List WaiterId}
    (hq : (r.queue q).senders = w' :: rest) (w k) :
    (r.setSenders q rest).queuedFor w k ≤ r.queuedFor w k := by
  have h := sum_map_modify (fun cq => if cq.key = k then cq.senders.count w else 0)
    (fun cq => { cq with senders := rest }) r.queues q default
  have hlt : q < r.queues.length := by
    by_contra hge
    simp [queue, List.getD_eq_getElem?_getD, List.getElem?_eq_none (Nat.le_of_not_lt hge)] at hq
  rw [getD_modify, if_pos (show q = q ∧ q < r.queues.length from ⟨rfl, hlt⟩)] at h
  simp only [queue] at hq
  simp only [queuedFor, setSenders]
  by_cases hk : (r.queues.getD q default).key = k <;>
    simp only [hk, hq, if_true, if_false, List.count_cons, beq_iff_eq] at h
  · split_ifs at h <;> omega
  · omega

theorem queuedFor_insertNew (r : Registry) (key : UserKey) (w' w k) :
    (r.insertNew key w').queuedFor w k =
      r.queuedFor w k + if w' = w then (if key = k then 1 else 0) else 0 := by
  simp only [queuedFor, insertNew, List.map_append, List.sum_append, List.map_singleton,
    List.sum_singleton, List.count_singleton']
  split_ifs <;> simp_all

/-- The queues are where the table and the calls say: the table maps a key to an allocated queue
made for that key, and so does every pending `push`. -/
structure QueueKeys (r : Registry) : Prop where
  table : ∀ e ∈ r.table, e.2 < r.queues.length ∧ (r.queue e.2).key = e.1
  push : ∀ w key q keys, Thread.block w (.push key q keys) ∈ r.threads →
    q < r.queues.length ∧ (r.queue q).key = key

/-- A call stands at a `push` onto `q` for `key` only after the `get` that found `q` there. -/
theorem stepThread_push {r : Registry} {th : Thread} {w key q keys}
    (h : (r.stepThread th).2 = .block w (.push key q keys)) : r.table.get key = some q := by
  rcases th with ⟨w', (_ | ⟨k, ks⟩) | _ | _⟩ | _ <;> simp [stepThread, blockStep] at h
  split at h
  · rename_i hget; simp only [Thread.block.injEq, BlockPc.push.injEq] at h
    rw [← h.2.1, ← h.2.2.1, hget]
  · simp at h

theorem QueueKeys.stepThread {r : Registry} (h : r.QueueKeys) (th : Thread) :
    ∀ e ∈ (r.stepThread th).1.table,
      e.2 < (r.stepThread th).1.queues.length ∧ ((r.stepThread th).1.queue e.2).key = e.1 := by
  have hgrow := r.stepThread_queue_key th
  have hold : ∀ e ∈ r.table,
      e.2 < (r.stepThread th).1.queues.length ∧ ((r.stepThread th).1.queue e.2).key = e.1 :=
    fun e he => ⟨(h.table e he).1.trans_le hgrow.1, (hgrow.2 _ (h.table e he).1).trans
      (h.table e he).2⟩
  rcases r.stepThread_effect th with hs | ⟨q, w, hs⟩ | ⟨key, w, hs⟩ | ⟨q, w, rest, -, hs⟩ |
      ⟨w, hs⟩ | ⟨key, hs⟩ <;> rw [hs] at hold ⊢
  · exact hold
  · exact hold
  · intro e he
    rcases KeyMap.mem_insert he with he | rfl
    · exact hold e he
    · exact ⟨by simp [insertNew], by simp [queue_insertNew]⟩
  · exact hold
  · exact hold
  · exact fun e he => hold e (List.mem_filter.1 he).1

theorem QueueKeys.step {r : Registry} (h : r.QueueKeys) (a : RegistryAction) :
    (r.step a).QueueKeys := by
  cases a with
  | blockClient keys =>
    rcases keys with _ | ⟨key, keys⟩
    · exact h
    refine ⟨h.table, fun w key q keys hth => ?_⟩
    simp only [Registry.step, List.mem_append, List.mem_singleton] at hth
    rcases hth with hth | hth
    · exact h.push w key q keys hth
    · simp at hth
  | wakeupClients key n =>
    refine ⟨h.table, fun w key q keys hth => ?_⟩
    simp only [Registry.step, List.mem_append, List.mem_singleton] at hth
    rcases hth with hth | hth
    · exact h.push w key q keys hth
    · simp at hth
  | run i =>
    simp only [Registry.step]
    split
    · rename_i th hi
      have hgrow := r.stepThread_queue_key th
      refine ⟨h.stepThread th, fun w key q keys hth => ?_⟩
      rcases List.mem_or_eq_of_mem_set hth with hth | hth
      · have := h.push w key q keys hth
        exact ⟨this.1.trans_le hgrow.1, (hgrow.2 q this.1).trans this.2⟩
      · have := h.table _ (KeyMap.mem_of_get (stepThread_push hth.symm))
        exact ⟨this.1.trans_le hgrow.1, (hgrow.2 q this.1).trans this.2⟩
    · exact h
  | receive w => simp only [Registry.step]; split <;> exact ⟨h.table, h.push⟩
  | close w => exact ⟨h.table, h.push⟩

/-- **One step of a call adds no copy of a sender that its key list did not pay for**: a `push`
or an `insert` for `key` spends one of the pushes owed for `key`, a `pop` removes a copy. -/
theorem stepThread_senders_le {r : Registry} (hk : r.QueueKeys) {th : Thread}
    (hth : th ∈ r.threads) (w : WaiterId) (k : UserKey) :
    (r.stepThread th).1.queuedFor w k + (r.stepThread th).2.pendingFor w k ≤
      r.queuedFor w k + th.pendingFor w k := by
  rcases th with ⟨w', (_ | ⟨key, keys⟩) | ⟨key, q, keys⟩ | ⟨key, keys⟩⟩ | ⟨key, pc⟩
  · exact le_rfl
  · simp only [stepThread, blockStep]
    split <;> simp [Thread.pendingFor, BlockPc.pendingFor]
  · obtain ⟨hq, hkey⟩ := hk.push w' key q keys hth
    simp only [stepThread, blockStep, queuedFor_push _ hq, hkey, Thread.pendingFor,
      BlockPc.pendingFor, List.count_cons, beq_iff_eq]
    split_ifs <;> omega
  · simp only [stepThread, blockStep, queuedFor_insertNew, Thread.pendingFor, BlockPc.pendingFor,
      List.count_cons, beq_iff_eq]
    split_ifs <;> omega
  · have hpend : ∀ pc' : WakePc, (Thread.wake key pc').pendingFor w k = 0 := fun _ => rfl
    simp only [stepThread, hpend, Nat.add_zero]
    rcases r.wakeStep_effect key pc with h | ⟨q, w', rest, hq, h⟩ | ⟨w', h⟩ | h <;> rw [h]
    · exact queuedFor_setSenders_le r q hq w k
    all_goals exact le_rfl

/-- **The occurrence invariant**: the copies of `w`'s sender in the queues allocated for `k`,
plus the pushes for `k` that its `block_client` still owes, are at most the number of times its
key list names `k`. -/
structure SendersBounded (r : Registry) : Prop where
  keys : r.QueueKeys
  le : ∀ w k, r.queuedFor w k + r.pendingFor w k ≤ (r.waiter w).keys.count k

theorem sendersBounded_init : init.SendersBounded :=
  ⟨⟨by simp [init], by simp [init]⟩,
    fun w k => by simp [queuedFor, pendingFor, init, waiter]⟩

theorem SendersBounded.step {r : Registry} (h : r.SendersBounded) (a : RegistryAction) :
    (r.step a).SendersBounded := by
  refine ⟨h.keys.step a, fun w k => ?_⟩
  have hle := h.le w k
  cases a with
  | blockClient keys =>
    rcases keys with _ | ⟨key, keys⟩
    · exact hle
    have hp : (r.step (.blockClient (key :: keys))).pendingFor w k =
        r.pendingFor w k + if r.waiters.length = w then (key :: keys).count k else 0 := by
      simp [Registry.step, pendingFor, Thread.pendingFor, BlockPc.pendingFor]
    change r.queuedFor w k + _ ≤ _
    rw [hp]
    by_cases hw : w = r.waiters.length
    · subst hw
      rw [waiter_eq_default r le_rfl, Waiter.default_keys, List.count_nil] at hle
      simp only [waiter_step_blockClient, lt_irrefl, if_false, if_true]
      omega
    · rw [if_neg (Ne.symm hw), Nat.add_zero, waiter_step_blockClient_of_ne r key keys hw]
      exact hle
  | wakeupClients key n =>
    show r.queuedFor w k + ((r.threads ++ [_]).map (Thread.pendingFor w k)).sum ≤ _
    rw [List.map_append, List.sum_append]
    exact hle
  | run i =>
    simp only [Registry.step]
    split
    · rename_i th hi
      have hs := stepThread_senders_le h.keys (List.getElem?_mem hi) w k
      have hp := sum_map_set (Thread.pendingFor w k) r.threads i (r.stepThread th).2 th hi
      have hkeys : ((r.stepThread th).1.waiter w).keys = (r.waiter w).keys := by
        rcases (r.stepThread_frame th).2 w with hf | hf <;> rw [hf]
      simp only [queuedFor, pendingFor] at hs hle hp ⊢
      change _ ≤ ((r.stepThread th).1.waiter w).keys.count k
      rw [hkeys]
      omega
    · exact hle
  | receive w' =>
    simp only [Registry.step]
    split
    · show r.queuedFor w k + r.pendingFor w k ≤ _
      rw [waiter_modify]
      split_ifs <;> exact hle
    · exact hle
  | close w' =>
    show r.queuedFor w k + r.pendingFor w k ≤ _
    rw [Registry.step, waiter_modify]
    split_ifs <;> exact hle

theorem count_le_queuedFor (r : Registry) {q : Nat} (hq : q < r.queues.length) (w : WaiterId) :
    (r.queue q).senders.count w ≤ r.queuedFor w (r.queue q).key := by
  have hmem : r.queue q ∈ r.queues := by
    simp only [queue, List.getD_eq_getElem?_getD, List.getElem?_eq_getElem hq, Option.getD_some]
    exact List.getElem_mem hq
  have := List.single_le_sum (fun _ _ => Nat.zero_le _) _
    (List.mem_map_of_mem (fun cq => if cq.key = (r.queue q).key then cq.senders.count w else 0)
      hmem)
  simpa [queuedFor] using this

/-! ## Every reachable state -/

/-- **A sender occurs in a key's queue at most as often as its key list names the key.**  In
every state that a run of `block_client`, `wakeup_clients` and clients reaches, the queue that
`blocked_clients` maps `key` to holds `w`'s sender at most as many times as `w`'s key list names
`key`.  When no client blocked with a repeated key, no queue holds a sender twice, and one
`wakeup_clients(key, n)` running alone signals pairwise distinct waiters, `min(n, d)` of them,
`d` being the number of distinct waiters with an open receiver queued on `key`. -/
theorem sender_occurrences_le_key_count (acts : List RegistryAction) :
    let r := init.run acts
    (∀ w key q, r.table.get key = some q →
      (r.queue q).senders.count w ≤ (r.waiter w).keys.count key) ∧
    ((∀ w, (r.waiter w).keys.Nodup) →
      (∀ key q, r.table.get key = some q → (r.queue q).senders.Nodup) ∧
      ∀ live key n,
        (wakeupClients r.contents live key n).2.Nodup ∧
        (wakeupClients r.contents live key n).2.length =
          min n (((r.contents.get key).getD []).filter live).dedup.length) := by
  intro r
  have h : r.SendersBounded :=
    run_invariant _ (fun _ a h => h.step a) acts init sendersBounded_init
  have hcount : ∀ w key q, r.table.get key = some q →
      (r.queue q).senders.count w ≤ (r.waiter w).keys.count key := fun w key q hq => by
    obtain ⟨hlt, hkey⟩ := h.keys.table _ (KeyMap.mem_of_get hq)
    have := (r.count_le_queuedFor hlt w).trans (Nat.le_of_add_right_le (h.le w _))
    rwa [hkey] at this
  have hnodup : (∀ w, (r.waiter w).keys.Nodup) →
      ∀ key q, r.table.get key = some q → (r.queue q).senders.Nodup := fun hk key q hq =>
    List.nodup_iff_count_le_one.2 fun w => (hcount w key q hq).trans <| by
      convert List.nodup_iff_count_le_one.1 (hk w) key
  refine ⟨hcount, fun hk => ⟨hnodup hk, fun live key n => wakeupClients_distinct _ _ _ _ ?_⟩⟩
  rw [get_contents]
  cases hq : r.table.get key with
  | none => exact List.nodup_nil
  | some q => exact hnodup hk key q hq

/-- `block_client(&[k, k])` puts its sender twice into `k`'s queue, and one
`wakeup_clients(k, 2)` then signals that one client twice. -/
theorem repeated_key_signalled_twice :
    let r := init.run [.blockClient [[1], [1]], .run 0, .run 0, .run 0, .run 0]
    r.table.get [1] = some 0 ∧ (r.queue 0).senders = [0, 0] ∧
    (r.run [.wakeupClients [1] 2, .run 1, .run 1, .run 1, .run 1, .run 1, .run 1]).waiters =
      [⟨[[1], [1]], 2, 0, false⟩] := by
  decide

end Registry

end SableDb
