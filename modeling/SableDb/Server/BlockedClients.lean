import Mathlib.Data.List.Dedup

/-!
# The blocked-client table, one call at a time

`ServerState::blocked_clients` maps a user key to a FIFO of channel senders, one per client
blocked on the key.  `block_client(keys)` pushes the same sender onto the queue of every key
(creating the queue on first use); `wakeup_clients(key, n)` pops senders until `n` sends have
succeeded or the queue runs dry, skipping senders whose receiver is gone, and removes the entry
once the queue is empty.  Here each call runs without interference; `Registry` interleaves their
atomic steps.
-/

namespace SableDb

/-- A client's channel: every `Sender` clone `block_client` pushes is this id. -/
abbrev WaiterId := Nat

/-- A user key (`BytesMut`). -/
abbrev UserKey := List UInt8

/-- A `DashMap` keyed by user keys: an association list with one entry per key. -/
abbrev KeyMap (α : Type) := List (UserKey × α)

namespace KeyMap

variable {α : Type}

/-- `DashMap::get`. -/
def get : KeyMap α → UserKey → Option α
  | [], _ => none
  | (k, q) :: rest, key => if k = key then some q else get rest key

/-- `DashMap::insert`: replace the key's value, or add the key. -/
def insert : KeyMap α → UserKey → α → KeyMap α
  | [], key, q => [(key, q)]
  | (k, q') :: rest, key, q => if k = key then (key, q) :: rest else (k, q') :: insert rest key q

/-- `DashMap::remove`. -/
def remove (t : KeyMap α) (key : UserKey) : KeyMap α :=
  t.filter (fun e => e.1 ≠ key)

@[simp] theorem get_nil (key : UserKey) : get ([] : KeyMap α) key = none := rfl

theorem get_cons (k key : UserKey) (q : α) (rest : KeyMap α) :
    get ((k, q) :: rest) key = if k = key then some q else get rest key := rfl

@[simp] theorem get_insert_self (t : KeyMap α) (key : UserKey) (q : α) :
    get (insert t key q) key = some q := by
  induction t with
  | nil => simp [insert, get_cons]
  | cons e rest ih =>
    obtain ⟨k, q'⟩ := e
    by_cases h : k = key <;> simp [insert, get_cons, h, ih]

theorem get_insert_of_ne (t : KeyMap α) {key key' : UserKey} (q : α)
    (hne : key' ≠ key) : get (insert t key q) key' = get t key' := by
  induction t with
  | nil => simp [insert, get_cons, Ne.symm hne]
  | cons e rest ih =>
    obtain ⟨k, q'⟩ := e
    by_cases h : k = key
    · subst h; simp [insert, get_cons, Ne.symm hne]
    · by_cases h' : k = key'
      · subst h'; simp [insert, get_cons, h]
      · simp [insert, get_cons, h, h', ih]

@[simp] theorem get_remove_self (t : KeyMap α) (key : UserKey) :
    get (remove t key) key = none := by
  induction t with
  | nil => rfl
  | cons e rest ih =>
    obtain ⟨k, q⟩ := e
    by_cases h : k = key <;> simp_all [remove, List.filter_cons, get_cons]

theorem get_remove_of_ne (t : KeyMap α) {key key' : UserKey} (hne : key' ≠ key) :
    get (remove t key) key' = get t key' := by
  induction t with
  | nil => rfl
  | cons e rest ih =>
    obtain ⟨k, q⟩ := e
    by_cases h : k = key
    · subst h; simp_all [remove, List.filter_cons, get_cons, Ne.symm hne]
    · by_cases h' : k = key' <;> simp_all [remove, List.filter_cons, get_cons]

theorem mem_of_get {t : KeyMap α} {key : UserKey} {q : α} (h : t.get key = some q) :
    (key, q) ∈ t := by
  induction t with
  | nil => simp at h
  | cons e rest ih =>
    obtain ⟨k, q'⟩ := e
    by_cases hk : k = key
    · simp_all [get_cons]
    · simp only [get_cons, hk, if_false] at h
      exact List.mem_cons_of_mem _ (ih h)

theorem mem_insert {t : KeyMap α} {key : UserKey} {q : α} {e : UserKey × α}
    (h : e ∈ t.insert key q) : e ∈ t ∨ e = (key, q) := by
  induction t with
  | nil => simp_all [insert]
  | cons e' rest ih =>
    obtain ⟨k, q'⟩ := e'
    by_cases hk : k = key
    · simp only [insert, hk, if_true, List.mem_cons] at h
      rcases h with h | h
      · exact .inr h
      · exact .inl (List.mem_cons_of_mem _ h)
    · simp only [insert, hk, if_false, List.mem_cons] at h
      rcases h with h | h
      · exact .inl (h ▸ List.mem_cons_self _ _)
      · exact (ih h).imp_left (List.mem_cons_of_mem _)

/-- Inserting a value that no entry holds keeps the values pairwise distinct. -/
theorem nodup_insert {t : KeyMap α} (key : UserKey) {q : α} (hnd : (t.map Prod.snd).Nodup)
    (hq : q ∉ t.map Prod.snd) : ((t.insert key q).map Prod.snd).Nodup := by
  induction t with
  | nil => simp [insert]
  | cons e rest ih =>
    obtain ⟨k, q'⟩ := e
    simp only [List.map_cons, List.nodup_cons, List.mem_cons, not_or] at hnd hq
    by_cases hk : k = key
    · simp [insert, hk, hq.2, hnd.2]
    · simp only [insert, hk, if_false, List.map_cons, List.nodup_cons]
      refine ⟨fun hmem => ?_, ih hnd.2 hq.2⟩
      obtain ⟨e, he, hq'⟩ := List.mem_map.1 hmem
      rcases mem_insert he with he | rfl
      · exact hnd.1 (hq' ▸ List.mem_map_of_mem _ he)
      · exact hq.1 hq'

/-- Inserting keeps one entry per key. -/
theorem nodup_keys_insert {t : KeyMap α} (key : UserKey) (q : α)
    (hnd : (t.map Prod.fst).Nodup) : ((t.insert key q).map Prod.fst).Nodup := by
  induction t with
  | nil => simp [insert]
  | cons e rest ih =>
    obtain ⟨k, q'⟩ := e
    simp only [List.map_cons, List.nodup_cons] at hnd
    by_cases hk : k = key
    · subst hk
      rw [insert, if_pos rfl, List.map_cons, List.nodup_cons]
      exact hnd
    · simp only [insert, hk, if_false, List.map_cons, List.nodup_cons]
      refine ⟨fun hmem => ?_, ih hnd.2⟩
      obtain ⟨e, he, hke⟩ := List.mem_map.1 hmem
      rcases mem_insert he with he | rfl
      · exact hnd.1 (hke ▸ List.mem_map_of_mem _ he)
      · exact hk hke.symm

/-- Inserting commutes with mapping the values. -/
theorem map_insert {β : Type} (t : KeyMap α) (key : UserKey) (q : α) (f : α → β) :
    (t.insert key q).map (fun e => (e.1, f e.2)) = insert (t.map fun e => (e.1, f e.2)) key (f q) := by
  induction t with
  | nil => rfl
  | cons e rest ih =>
    obtain ⟨k, q₀⟩ := e
    by_cases hk : k = key <;> simp [insert, hk, ih]

/-- On a table whose values are pairwise distinct, where `key` maps to `q`: mapping the values by
`f` is mapping them by `g` and then inserting `f q` at `key`, when `f` and `g` agree off `q`. -/
theorem map_eq_insert {β : Type} {t : KeyMap α} {key : UserKey} {q : α}
    (hnd : (t.map Prod.snd).Nodup) (hq : t.get key = some q) (f g : α → β)
    (hfg : ∀ q', q' ≠ q → f q' = g q') :
    t.map (fun e => (e.1, f e.2)) = insert (t.map fun e => (e.1, g e.2)) key (f q) := by
  induction t with
  | nil => simp at hq
  | cons e rest ih =>
    obtain ⟨k, q₀⟩ := e
    simp only [List.map_cons, List.nodup_cons, List.mem_map, not_exists, not_and] at hnd
    by_cases hk : k = key
    · simp only [get_cons, hk, if_true, Option.some.injEq] at hq
      subst hk hq
      simp only [List.map_cons, insert, if_true, List.cons.injEq, true_and]
      exact List.map_congr_left fun e he => by simp only [hfg e.2 (hnd.1 e he)]
    · simp only [get_cons, hk, if_false] at hq
      have hne : q₀ ≠ q := fun h => hnd.1 _ (mem_of_get hq) h.symm
      simp only [List.map_cons, insert, hk, if_false, hfg q₀ hne, ih hnd.2 hq]

end KeyMap

/-- `BlockedClientTable`, each queue by its contents. -/
abbrev BlockedClientTable := KeyMap (List WaiterId)

/-- The `while num_clients > 0` loop of `wakeup_clients` over the key's queue: pop a sender and
send; a failed send (receiver closed) keeps `num_clients`, a delivered one decrements it; stop
when the queue is empty.  Returns the queue left and the senders signalled, in order. -/
def drainQueue (live : WaiterId → Bool) : Nat → List WaiterId → List WaiterId × List WaiterId
  | 0, queue => (queue, [])
  | _ + 1, [] => ([], [])
  | n + 1, w :: rest =>
    if live w then ((drainQueue live n rest).1, w :: (drainQueue live n rest).2)
    else drainQueue live (n + 1) rest

/-- `ServerState::wakeup_clients(key, num_clients)`; `live` says whose receiver is still open. -/
def wakeupClients (table : BlockedClientTable) (live : WaiterId → Bool) (key : UserKey)
    (numClients : Nat) : BlockedClientTable × List WaiterId :=
  if table.isEmpty then (table, [])
  else
    match table.get key with
    | some channelQueue =>
      let drained := drainQueue live numClients channelQueue
      let table := table.insert key drained.1
      if drained.1.isEmpty then (table.remove key, drained.2) else (table, drained.2)
    | none => (table, [])

/-- With no entry for `key`, a wake changes nothing and signals no one. -/
theorem wakeupClients_of_get_eq_none {table : BlockedClientTable} {key : UserKey}
    (live : WaiterId → Bool) (numClients : Nat) (h : table.get key = none) :
    wakeupClients table live key numClients = (table, []) := by
  unfold wakeupClients; split <;> simp [h]

/-- With an entry for `key`, a wake writes back the drained queue and removes the entry when the
queue ends empty. -/
theorem wakeupClients_of_get_eq_some {table : BlockedClientTable} {key : UserKey}
    {queue : List WaiterId} (live : WaiterId → Bool) (numClients : Nat)
    (h : table.get key = some queue) :
    wakeupClients table live key numClients =
      if (drainQueue live numClients queue).1.isEmpty then
        ((table.insert key (drainQueue live numClients queue).1).remove key,
          (drainQueue live numClients queue).2)
      else (table.insert key (drainQueue live numClients queue).1,
        (drainQueue live numClients queue).2) := by
  cases table with
  | nil => simp at h
  | cons _ _ => simp [wakeupClients, h]

/-- `ServerState::block_client(keys)` for the client whose channel is `w`. -/
def blockClient (table : BlockedClientTable) (w : WaiterId) (keys : List UserKey) :
    BlockedClientTable :=
  keys.foldl (fun t key =>
    match t.get key with
    | some channelQueue => t.insert key (channelQueue ++ [w])
    | none => t.insert key [w]) table

/-! ## `wakeup_clients` is a FIFO wake of live waiters -/

/-- **The drain pops the shortest prefix that holds `n` live senders**, or the whole queue when
it holds fewer, and signals exactly the live senders of that prefix, in order. -/
theorem drainQueue_spec (live : WaiterId → Bool) :
    ∀ (n : Nat) (queue : List WaiterId), ∃ m ≤ queue.length,
      drainQueue live n queue = (queue.drop m, (queue.take m).filter live) ∧
      (queue.take m).filter live = (queue.filter live).take n ∧
      (n ≤ (queue.filter live).length →
        ((queue.take m).filter live).length = n ∧
          ∀ m' < m, ((queue.take m').filter live).length < n) ∧
      ((queue.filter live).length < n → m = queue.length)
  | 0, queue => ⟨0, Nat.zero_le _, drainQueue.eq_1 live queue, rfl,
      fun _ => ⟨rfl, fun _ h => absurd h (Nat.not_lt_zero _)⟩, fun h => absurd h (Nat.not_lt_zero _)⟩
  | n + 1, [] => ⟨0, le_rfl, drainQueue.eq_2 live n, rfl,
      fun h => absurd h (Nat.not_succ_le_zero n), fun _ => rfl⟩
  | n + 1, w :: rest => by
    have htake : ∀ m, (w :: rest).take (m + 1) = w :: rest.take m := fun _ => rfl
    by_cases hw : live w
    · -- a live sender is popped and signalled, and counts towards `n + 1`
      have hf : ∀ l : List WaiterId, (w :: l).filter live = w :: l.filter live :=
        fun _ => List.filter_cons_of_pos hw
      obtain ⟨m, hm, heq, hfilt, hfull, hshort⟩ := drainQueue_spec live n rest
      refine ⟨m + 1, Nat.succ_le_succ hm, ?_, ?_, fun h => ⟨?_, ?_⟩, fun h => ?_⟩
      · rw [drainQueue, if_pos hw, heq, htake, hf]
        rfl
      · rw [htake, hf, hf, hfilt]
        rfl
      · rw [hf, List.length_cons] at h
        rw [htake, hf, List.length_cons, (hfull (Nat.le_of_succ_le_succ h)).1]
      · rw [hf, List.length_cons] at h
        rintro (_ | m') hm'
        · exact Nat.succ_pos n
        · rw [htake, hf, List.length_cons]
          exact Nat.succ_lt_succ ((hfull (Nat.le_of_succ_le_succ h)).2 m' (by omega))
      · rw [hf, List.length_cons] at h
        rw [hshort (Nat.lt_of_succ_lt_succ h)]
        rfl
    · -- a dead sender is popped and dropped
      have hf : ∀ l : List WaiterId, (w :: l).filter live = l.filter live :=
        fun _ => List.filter_cons_of_neg hw
      obtain ⟨m, hm, heq, hfilt, hfull, hshort⟩ := drainQueue_spec live (n + 1) rest
      refine ⟨m + 1, Nat.succ_le_succ hm, ?_, ?_, fun h => ⟨?_, ?_⟩, fun h => ?_⟩
      · rw [drainQueue, if_neg hw, heq, htake, hf]
        rfl
      · rw [htake, hf, hf, hfilt]
      · rw [hf] at h
        rw [htake, hf, (hfull h).1]
      · rw [hf] at h
        rintro (_ | m') hm'
        · exact Nat.succ_pos n
        · rw [htake, hf]
          exact (hfull h).2 m' (by omega)
      · rw [hf] at h
        rw [hshort h]
        rfl

/-- **`wakeup_clients(k, n)` is a FIFO wake of live waiters.**  With the queue `s₁ … sₘ` of `k`,
the call signals exactly the first `min(n, L)` live senders, in queue order, where `L` counts the
live ones.  It pops the shortest prefix that holds `n` live senders when `n ≤ L`, and the whole
queue otherwise, dropping the dead senders in it; it keeps the rest of the queue in order, leaves
every other key alone, and removes `k`'s entry exactly when its queue ends empty.  When `k` has no
entry, or the table is empty, nothing changes. -/
theorem wakeupClients_fifo (table : BlockedClientTable) (live : WaiterId → Bool) (key : UserKey)
    (n : Nat) :
    (table = [] ∨ table.get key = none → wakeupClients table live key n = (table, [])) ∧
    ∀ queue, table.get key = some queue →
      ∃ m ≤ queue.length,
        (wakeupClients table live key n).2 = (queue.take m).filter live ∧
        (wakeupClients table live key n).2 = (queue.filter live).take n ∧
        (n ≤ (queue.filter live).length →
          ((queue.take m).filter live).length = n ∧
            ∀ m' < m, ((queue.take m').filter live).length < n) ∧
        ((queue.filter live).length < n → m = queue.length) ∧
        (wakeupClients table live key n).1.get key =
          (if queue.drop m = [] then none else some (queue.drop m)) ∧
        ∀ k, k ≠ key → (wakeupClients table live key n).1.get k = table.get k := by
  refine ⟨fun h => ?_, fun queue hq => ?_⟩
  · rcases h with rfl | h
    · rfl
    · exact wakeupClients_of_get_eq_none live n h
  · obtain ⟨m, hm, heq, hfilt, hfull, hshort⟩ := drainQueue_spec live n queue
    simp only [wakeupClients_of_get_eq_some live n hq, heq]
    refine ⟨m, hm, by split_ifs <;> rfl, by split_ifs <;> exact hfilt, hfull, hshort, ?_,
      fun k hk => ?_⟩
    · by_cases hd : queue.drop m = [] <;> simp [hd, List.isEmpty_iff]
    · split_ifs <;> simp [KeyMap.get_remove_of_ne _ hk, KeyMap.get_insert_of_ne _ _ hk]

/-- The senders a wake signals: the first `n` live senders of the key's queue. -/
theorem wakeupClients_snd (table : BlockedClientTable) (live : WaiterId → Bool) (key : UserKey)
    (n : Nat) : (wakeupClients table live key n).2 = (((table.get key).getD []).filter live).take n := by
  unfold wakeupClients
  split
  · rename_i hemp
    rw [List.isEmpty_iff.1 hemp]; simp
  · split
    · rename_i queue hq
      obtain ⟨m, -, heq, hfilt, -⟩ := drainQueue_spec live n queue
      simp only [hq, Option.getD_some, heq, ← hfilt]
      split <;> rfl
    · rename_i hq; simp [hq]

/-- On a queue with no repeated sender, one wake signals pairwise distinct waiters, `min(n, d)` of
them, `d` being the number of distinct live waiters in the queue. -/
theorem wakeupClients_distinct (table : BlockedClientTable) (live : WaiterId → Bool)
    (key : UserKey) (n : Nat) (hnd : ((table.get key).getD []).Nodup) :
    (wakeupClients table live key n).2.Nodup ∧
      (wakeupClients table live key n).2.length =
        min n (((table.get key).getD []).filter live).dedup.length := by
  have hf : (((table.get key).getD []).filter live).Nodup := hnd.filter _
  rw [wakeupClients_snd, List.dedup_eq_self.2 hf, List.length_take]
  exact ⟨hf.sublist (List.take_sublist _ _), rfl⟩

end SableDb
