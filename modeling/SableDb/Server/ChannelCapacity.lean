import SableDb.Server.Registry

/-!
# A wake-up `send` never waits on a full channel

`block_client(keys)` makes a channel of capacity `|keys|` and pushes its sender once per key.
Every copy of the sender is a token: owed by the `block_client` call until it pushes it, sitting
in a queue until a `wakeup_clients` call pops it, held by that call until it sends, and spent by
the send.  No step makes a token, so a channel never holds more signals than its capacity, and a
`send` to an open receiver always finds room.
-/

namespace SableDb

/-- The pushes a `block_client` call at `pc` has still to make. -/
def BlockPc.pending : BlockPc → Nat
  | .get keys => keys.length
  | .push _ _ keys => keys.length + 1
  | .insert _ keys => keys.length + 1

namespace Thread

/-- The pushes of `w`'s sender that the call still owes. -/
def pendingPushes (w : WaiterId) : Thread → Nat
  | .block w' pc => if w' = w then pc.pending else 0
  | .wake _ _ => 0

/-- One if the call popped `w`'s sender and has not sent to it yet. -/
def inFlight (w : WaiterId) : Thread → Nat
  | .wake _ (.send _ _ w') => if w' = w then 1 else 0
  | _ => 0

end Thread

namespace Registry

/-- The copies of `w`'s sender in the queues, mapped by the table or not. -/
def queued (r : Registry) (w : WaiterId) : Nat := (r.queues.map (·.senders.count w)).sum

/-- The copies of `w`'s sender popped and not yet sent to. -/
def inFlight (r : Registry) (w : WaiterId) : Nat := (r.threads.map (Thread.inFlight w)).sum

/-- The pushes of `w`'s sender that a `block_client` call still owes. -/
def pendingPushes (r : Registry) (w : WaiterId) : Nat :=
  (r.threads.map (Thread.pendingPushes w)).sum

/-- The part of `w`'s channel capacity that is spoken for. -/
def tokens (r : Registry) (w : WaiterId) : Nat :=
  (r.waiter w).sent + r.queued w + r.inFlight w + r.pendingPushes w

theorem queued_push_le (r : Registry) (q w' w : WaiterId) :
    (r.push q w').queued w ≤ r.queued w + if w' = w then 1 else 0 := by
  have h := sum_map_modify (·.senders.count w)
    (fun cq => { cq with senders := cq.senders ++ [w'] }) r.queues q default
  rw [getD_modify] at h
  simp only [queued, push]
  by_cases hq : q < r.queues.length
  · rw [if_pos ⟨rfl, hq⟩] at h
    simp only [List.count_append, List.count_singleton'] at h
    split_ifs at h ⊢ <;> omega
  · rw [if_neg fun h' => hq h'.2] at h
    omega

theorem queued_setSenders (r : Registry) (q : Nat) {w' : WaiterId} {rest : List WaiterId}
    (hq : (r.queue q).senders = w' :: rest) (w : WaiterId) :
    (r.setSenders q rest).queued w + (if w' = w then 1 else 0) = r.queued w := by
  have hlt : q < r.queues.length := by
    by_contra hge
    simp [queue, List.getD_eq_getElem?_getD, List.getElem?_eq_none (Nat.le_of_not_lt hge)] at hq
  have h := sum_map_modify (·.senders.count w) (fun cq => { cq with senders := rest })
    r.queues q default
  rw [getD_modify, if_pos ⟨rfl, hlt⟩] at h
  simp only [queue] at hq
  simp only [queued, setSenders, hq, List.count_cons, beq_iff_eq] at h ⊢
  split_ifs at h ⊢ <;> omega

theorem queued_insertNew (r : Registry) (key : UserKey) (w' w : WaiterId) :
    (r.insertNew key w').queued w = r.queued w + if w' = w then 1 else 0 := by
  simp [queued, insertNew, List.count_singleton']

/-- **One step of a call makes no token**: it moves a token from the call to a queue (`push`,
`insert`), from a queue to the call (`pop`), or from the call into the channel (`send`), or drops
it (a `send` to a closed receiver). -/
theorem stepThread_tokens_le (r : Registry) (th : Thread) (w : WaiterId) :
    ((r.stepThread th).1.waiter w).sent + (r.stepThread th).1.queued w +
        (r.stepThread th).2.inFlight w + (r.stepThread th).2.pendingPushes w ≤
      (r.waiter w).sent + r.queued w + th.inFlight w + th.pendingPushes w := by
  rcases th with ⟨w', (_ | ⟨key, keys⟩) | ⟨key, q, keys⟩ | ⟨key, keys⟩⟩ |
      ⟨key, n | n | ⟨q, _ | n⟩ | ⟨q, n, w'⟩ | q | _ | _⟩ <;>
    simp only [stepThread, blockStep, wakeStep]
  case block.get.cons =>
    split <;> simp [Thread.inFlight, Thread.pendingPushes, BlockPc.pending]
  case block.push =>
    have := r.queued_push_le q w' w
    simp only [Thread.inFlight, Thread.pendingPushes, BlockPc.pending, waiter, push_waiters]
    split_ifs at this ⊢ <;> omega
  case block.insert =>
    simp only [Thread.inFlight, Thread.pendingPushes, BlockPc.pending, waiter, insertNew_waiters,
      queued_insertNew]
    split_ifs <;> omega
  case wake.pop.succ =>
    split
    · exact le_rfl
    · rename_i w' rest hq
      have := r.queued_setSenders q hq w
      simp only [Thread.inFlight, Thread.pendingPushes, waiter, setSenders_waiters]
      omega
  case wake.send =>
    split_ifs with hc hroom
    · show (r.waiter w).sent + r.queued w + 0 + 0 ≤ _
      omega
    · simp only [Thread.inFlight, Thread.pendingPushes, waiter_deliver, queued, deliver_queues]
      split_ifs with h₁ h₂ h₂
      · dsimp only; omega
      · exact absurd h₁.1 h₂
      all_goals omega
    · exact le_rfl
  all_goals first
    | exact le_rfl
    | (split_ifs <;> exact le_rfl)
    | (split <;> exact le_rfl)

/-- Running call `i` makes no token. -/
theorem tokens_run_le (r : Registry) (i : Nat) (w : WaiterId) :
    (r.step (.run i)).tokens w ≤ r.tokens w := by
  simp only [step]
  split
  · rename_i th hth
    have hs := r.stepThread_tokens_le th w
    have hf := sum_map_set (Thread.inFlight w) r.threads i (r.stepThread th).2 th hth
    have hp := sum_map_set (Thread.pendingPushes w) r.threads i (r.stepThread th).2 th hth
    simp only [tokens, queued, inFlight, pendingPushes, waiter] at hs ⊢
    omega
  · exact le_rfl

/-- `block_client` adds the channel `r.waiters.length` with every push owed, and no other token. -/
theorem tokens_step_blockClient (r : Registry) (key : UserKey) (keys : List UserKey)
    (w : WaiterId) : (r.step (.blockClient (key :: keys))).tokens w =
      r.tokens w + if r.waiters.length = w then keys.length + 1 else 0 := by
  simp only [tokens, (sent_closed_step_blockClient r key keys w).1]
  simp [Registry.step, queued, inFlight, pendingPushes, Thread.inFlight, Thread.pendingPushes,
    BlockPc.pending]
  omega

/-- **The channel invariant**: no channel is promised more signals than its capacity, and a
client takes out no more signals than were delivered. -/
structure ChannelsBounded (r : Registry) : Prop where
  tokens_le : ∀ w, r.tokens w ≤ (r.waiter w).capacity
  received_le : ∀ w, (r.waiter w).received ≤ (r.waiter w).sent

theorem channelsBounded_init : init.ChannelsBounded :=
  ⟨fun w => by simp [tokens, queued, inFlight, pendingPushes, waiter, init, Waiter.capacity],
    fun w => by simp [waiter, init]⟩

theorem ChannelsBounded.step {r : Registry} (h : r.ChannelsBounded) (a : RegistryAction) :
    (r.step a).ChannelsBounded := by
  cases a with
  | blockClient keys =>
    rcases keys with _ | ⟨key, keys⟩
    · exact h
    refine ⟨fun w => ?_, fun w => ?_⟩ <;> by_cases hw : w = r.waiters.length
    · subst hw
      have ht := h.tokens_le r.waiters.length
      simp only [waiter_eq_default r le_rfl, Waiter.capacity, Waiter.default_keys,
        List.length_nil, Nat.le_zero] at ht
      simp [tokens_step_blockClient, waiter_step_blockClient, ht, Waiter.capacity]
    · rw [tokens_step_blockClient, if_neg (Ne.symm hw), Nat.add_zero,
        waiter_step_blockClient_of_ne r key keys hw]
      exact h.tokens_le w
    · subst hw; simp [waiter_step_blockClient]
    · rw [waiter_step_blockClient_of_ne r key keys hw]
      exact h.received_le w
  | wakeupClients key n =>
    exact ⟨fun w => by simpa [Registry.step, tokens, queued, waiter, inFlight, pendingPushes,
      Thread.inFlight, Thread.pendingPushes] using h.tokens_le w, h.received_le⟩
  | run i =>
    have hw : ∀ w, ((r.step (.run i)).waiter w).capacity = (r.waiter w).capacity ∧
        (r.waiter w).sent ≤ ((r.step (.run i)).waiter w).sent ∧
        ((r.step (.run i)).waiter w).received = (r.waiter w).received := fun w => by
      simp only [Registry.step]; split
      · rename_i th _
        show ((r.stepThread th).1.waiter w).capacity = _ ∧
          _ ≤ ((r.stepThread th).1.waiter w).sent ∧ ((r.stepThread th).1.waiter w).received = _
        rcases (r.stepThread_frame th).2 w with hf | hf <;> rw [hf]
        exacts [⟨rfl, le_rfl, rfl⟩, ⟨rfl, Nat.le_succ _, rfl⟩]
      · exact ⟨rfl, le_rfl, rfl⟩
    refine ⟨fun w => ?_, fun w => ?_⟩
    · exact (hw w).1 ▸ (r.tokens_run_le i w).trans (h.tokens_le w)
    · exact (hw w).2.2 ▸ (h.received_le w).trans (hw w).2.1
  | receive w' =>
    simp only [Registry.step]
    split
    · rename_i hok
      simp only [Bool.and_eq_true, Bool.not_eq_true', decide_eq_true_eq] at hok
      refine ⟨fun w => ?_, fun w => ?_⟩
      · show _ + r.queued w + r.inFlight w + r.pendingPushes w ≤ _
        rw [waiter_modify]
        split_ifs <;> exact h.tokens_le w
      · have hr := h.received_le w
        simp only [waiter_modify]
        split_ifs with hw
        · rcases hw with ⟨rfl, _⟩; exact hok.2
        · exact hr
    · exact h
  | close w' =>
    have hw : ∀ w, (r.step (.close w')).waiter w = r.waiter w ∨
        (r.step (.close w')).waiter w = { r.waiter w with closed := true } := fun w => by
      rw [Registry.step, waiter_modify]
      split_ifs
      exacts [.inr rfl, .inl rfl]
    refine ⟨fun w => ?_, fun w => ?_⟩
    · show _ + r.queued w + r.inFlight w + r.pendingPushes w ≤ _
      rcases hw w with hw | hw <;> rw [hw] <;> exact h.tokens_le w
    · rcases hw w with hw | hw <;> rw [hw] <;> exact h.received_le w

/-! ## The queues of `blocked_clients` -/

/-- The copies of `w`'s sender in the queues that the table maps. -/
def tableQueued (r : Registry) (w : WaiterId) : Nat :=
  (r.table.map (fun e => (r.queue e.2).senders.count w)).sum

/-- The table maps distinct keys to distinct, allocated queues. -/
structure TableIds (r : Registry) : Prop where
  keys : (r.table.map Prod.fst).Nodup
  nodup : (r.table.map Prod.snd).Nodup
  lt : ∀ e ∈ r.table, e.2 < r.queues.length

theorem tableIds_init : init.TableIds := ⟨List.nodup_nil, List.nodup_nil, by simp [init]⟩

theorem TableIds.stepThread {r : Registry} (h : r.TableIds) (th : Thread) :
    (r.stepThread th).1.TableIds := by
  rcases r.stepThread_effect th with hs | ⟨q, w, hs⟩ | ⟨key, w, hs⟩ | ⟨q, w, rest, -, hs⟩ |
      ⟨w, hs⟩ | ⟨key, hs⟩ <;> rw [hs]
  · exact h
  · exact ⟨h.keys, h.nodup, fun e he => by rw [push_length]; exact h.lt e he⟩
  · refine ⟨KeyMap.nodup_keys_insert key _ h.keys,
      KeyMap.nodup_insert key h.nodup fun hm => ?_, fun e he => ?_⟩
    · obtain ⟨e, he, hq⟩ := List.mem_map.1 hm
      exact absurd (hq ▸ h.lt e he) (lt_irrefl _)
    · have hlen : (r.insertNew key w).queues.length = r.queues.length + 1 := by
        simp only [insertNew, List.length_append, List.length_singleton]
      rw [hlen]
      rcases KeyMap.mem_insert he with he | rfl
      · exact Nat.lt_succ_of_lt (h.lt e he)
      · exact Nat.lt_succ_self _
  · exact ⟨h.keys, h.nodup, fun e he => by rw [setSenders_length]; exact h.lt e he⟩
  · exact ⟨h.keys, h.nodup, h.lt⟩
  · exact ⟨h.keys.sublist ((List.filter_sublist _).map _),
      h.nodup.sublist ((List.filter_sublist _).map _),
      fun e he => h.lt e (List.mem_filter.1 he).1⟩

theorem TableIds.step {r : Registry} (h : r.TableIds) (a : RegistryAction) :
    (r.step a).TableIds := by
  cases a with
  | blockClient keys => rcases keys with _ | ⟨key, keys⟩ <;> exact ⟨h.keys, h.nodup, h.lt⟩
  | run i =>
    simp only [Registry.step]
    split
    · exact ⟨(h.stepThread _).keys, (h.stepThread _).nodup, (h.stepThread _).lt⟩
    · exact h
  | receive w => simp only [Registry.step]; split <;> exact ⟨h.keys, h.nodup, h.lt⟩
  | _ => exact ⟨h.keys, h.nodup, h.lt⟩

/-- Counting only the queues the table maps counts no more. -/
theorem TableIds.tableQueued_le {r : Registry} (h : r.TableIds) (w : WaiterId) :
    r.tableQueued w ≤ r.queued w := by
  have hle := sum_map_le_of_nodup (fun q => (r.queue q).senders.count w) h.nodup
    (n := r.queues.length) fun q hq => by
      obtain ⟨e, he, rfl⟩ := List.mem_map.1 hq
      exact h.lt e he
  have hall := sum_map_range_getD (·.senders.count w) r.queues default
  rw [List.map_map] at hle
  exact hle.trans_eq hall

/-- A call about to send to `w` holds one of `w`'s tokens, so `w`'s channel has room. -/
theorem ChannelsBounded.room {r : Registry} (h : r.ChannelsBounded) {i : Nat} {key : UserKey}
    {q n : Nat} {w : WaiterId} (hi : r.threads[i]? = some (.wake key (.send q n w))) :
    (r.waiter w).sent - (r.waiter w).received < (r.waiter w).capacity := by
  have htok := h.tokens_le w
  have hone : 1 ≤ r.inFlight w := by
    have := List.single_le_sum (fun _ _ => Nat.zero_le _) _
      (List.mem_map_of_mem (Thread.inFlight w) (List.getElem?_mem hi))
    simpa [Thread.inFlight] using this
  simp only [tokens] at htok
  omega

/-! ## Every reachable state -/

/-- **A writer never waits on a waiter's full channel.**  In every state that a run of
`block_client`, `wakeup_clients` and clients reaches, the signals sent to `w`, plus the copies of
its sender in the queues of `blocked_clients`, plus those popped and not yet sent, are at most
`|keys|`, the capacity of `w`'s channel; the bound holds also with every queue a call still holds
and with the pushes `block_client` still owes.  So a `send` to `w` finds the receiver closed or
room in the channel, and never suspends; and `w` receives at most `|keys|` signals. -/
theorem send_never_waits (acts : List RegistryAction) (w : WaiterId) :
    let r := init.run acts
    (r.waiter w).sent + r.tableQueued w + r.inFlight w ≤ (r.waiter w).capacity ∧
    (r.waiter w).sent + r.queued w + r.inFlight w + r.pendingPushes w ≤ (r.waiter w).capacity ∧
    (∀ (i : Nat) (key : UserKey) (q n : Nat), r.threads[i]? = some (.wake key (.send q n w)) →
      ((r.waiter w).closed = true ∨
        (r.waiter w).sent - (r.waiter w).received < (r.waiter w).capacity) ∧
      (r.wakeStep key (.send q n w)).2 ≠ .send q n w) ∧
    (r.waiter w).received ≤ (r.waiter w).sent ∧ (r.waiter w).sent ≤ (r.waiter w).capacity := by
  intro r
  have hc : r.ChannelsBounded :=
    run_invariant _ (fun _ a h => h.step a) acts init channelsBounded_init
  have ht : r.TableIds := run_invariant _ (fun _ a h => h.step a) acts init tableIds_init
  have htok := hc.tokens_le w
  have hrec := hc.received_le w
  have htab := ht.tableQueued_le w
  simp only [tokens] at htok
  refine ⟨by omega, htok, fun i key q n hi => ?_, hrec, by omega⟩
  have hroom := hc.room hi
  refine ⟨.inr hroom, ?_⟩
  simp only [wakeStep, hroom, if_true]
  split <;> simp

end Registry

end SableDb
