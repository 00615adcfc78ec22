import SableDb.Storage.Engine
import Mathlib.Data.List.Count
import Mathlib.Data.List.Nodup

/-!
# The worker directory and cross-worker broadcast

`ServerState::worker_tx_channels` maps each worker thread to the sender of its channel.
`broadcast_msg` sends the message through every entry, in the map's iteration order, and returns
at the first send that fails (`?`), so the workers after a closed channel are not reached.
`terminate_client` broadcasts `KillClient` when the client is not on the calling thread.

The iteration order of a `DashMap` is not specified: the directory is the list of its entries in
the order it is iterated, and every result holds for every such list.

* `broadcast_stops_at_closed_channel`: what a broadcast sends, and where it stops;
* `broadcast_reaches_each_worker_once`: with every channel open, a broadcast over the directory
  that `add_worker_tx_channel` calls build, iterated in any order, reaches each worker once,
  through the sender it registered last.
-/

namespace SableDb

/-- A worker thread (`std::thread::ThreadId`). -/
abbrev ThreadId := Nat

/-- Modelled from the spec: `BroadcastMessageType`, with the variant `terminate_client` sends; the
client id is a `u128`. -/
inductive BroadcastMessageType
  | killClient (clientId : Nat)
  deriving DecidableEq, Repr

/-- Modelled from the spec: `WorkerMessage`, with the variant `broadcast_msg` sends. -/
inductive WorkerMessage
  | broadcastMessage (message : BroadcastMessageType)
  deriving DecidableEq, Repr

/-- A worker's channel: the messages queued in it, and the error a send to it returns once its
receiver is gone (`none` while the receiver is alive). -/
structure WorkerChannel where
  queue : List WorkerMessage
  sendFault : Option SableError

/-- The channels, by the id of the `WorkerSender` that feeds each. -/
abbrev WorkerChannels := Nat → WorkerChannel

/-- `WorkerSender::send(message).await`: the message is queued, or the send fails once the
receiver is gone. -/
def WorkerChannels.send (channels : WorkerChannels) (tx : Nat) (message : WorkerMessage) :
    Except SableError WorkerChannels :=
  match (channels tx).sendFault with
  | some e => .error e
  | none =>
    .ok (Function.update channels tx { channels tx with queue := (channels tx).queue ++ [message] })

namespace ServerState

/-- `ServerState::add_worker_tx_channel`: `DashMap::insert` replaces the sender of a registered
worker, or registers the worker. -/
def addWorkerTxChannel : List (ThreadId × Nat) → ThreadId → Nat → List (ThreadId × Nat)
  | [], workerId, tx => [(workerId, tx)]
  | (w, tx') :: rest, workerId, tx =>
    if w = workerId then (workerId, tx) :: rest else (w, tx') :: addWorkerTxChannel rest workerId tx

/-- `ServerState::broadcast_msg` over the entries of `worker_tx_channels` in iteration order:
its result, and the channels as the sends left them. -/
def broadcastMsg (channels : WorkerChannels) (message : BroadcastMessageType) :
    List (ThreadId × Nat) → Except SableError Unit × WorkerChannels
  | [] => (.ok (), channels)
  | (_, tx) :: rest =>
    match channels.send tx (.broadcastMessage message) with
    | .error e => (.error e, channels)
    | .ok channels => broadcastMsg channels message rest

/-- `ServerState::terminate_client`, where `terminatedLocally` is what `Client::terminate_client`
returned on the calling thread. -/
def terminateClient (workerTxChannels : List (ThreadId × Nat)) (channels : WorkerChannels)
    (terminatedLocally : Bool) (clientId : Nat) : Except SableError Unit × WorkerChannels :=
  if !terminatedLocally then broadcastMsg channels (.killClient clientId) workerTxChannels
  else (.ok (), channels)

theorem sendFault_update (channels : WorkerChannels) (tx : Nat) (queue : List WorkerMessage)
    (t : Nat) :
    (Function.update channels tx { channels tx with queue } t).sendFault =
      (channels t).sendFault := by
  by_cases ht : t = tx
  · subst ht
    rw [Function.update_same]
  · rw [Function.update_noteq ht]

/-- **A broadcast stops at the first closed channel.**  For every directory, listed in any
iteration order: each channel receives one copy of the message for every entry feeding it that
comes before the first entry whose channel is closed, and nothing else changes; `broadcast_msg`
returns the error of that first closed channel, or `Ok` when every channel is open.  The workers
after a closed channel in iteration order are never reached. -/
theorem broadcast_stops_at_closed_channel (channels : WorkerChannels)
    (message : BroadcastMessageType) (entries : List (ThreadId × Nat)) (tx : Nat) :
    ((broadcastMsg channels message entries).2 tx).queue =
        (channels tx).queue ++ List.replicate
          (((entries.map (·.2)).takeWhile fun t => (channels t).sendFault.isNone).count tx)
          (.broadcastMessage message) ∧
      ((broadcastMsg channels message entries).2 tx).sendFault = (channels tx).sendFault ∧
      (broadcastMsg channels message entries).1 =
        (entries.filterMap fun e => (channels e.2).sendFault).head?.elim (.ok ()) .error := by
  induction entries generalizing channels with
  | nil => exact ⟨(List.append_nil _).symm, rfl, rfl⟩
  | cons e rest ih =>
    obtain ⟨w, tx'⟩ := e
    cases hf : (channels tx').sendFault with
    | some err =>
      -- The first send fails: nothing is sent.
      have hb : broadcastMsg channels message ((w, tx') :: rest) = (.error err, channels) := by
        simp only [broadcastMsg, WorkerChannels.send, hf]
      simp [hb, hf]
    | none =>
      -- The first send queues the message; the rest is a broadcast from the new channels.
      have hb : broadcastMsg channels message ((w, tx') :: rest) = broadcastMsg
          (Function.update channels tx' { channels tx' with
            queue := (channels tx').queue ++ [.broadcastMessage message] }) message rest := by
        simp only [broadcastMsg, WorkerChannels.send, hf]
      obtain ⟨hq, hs, hr⟩ := ih (Function.update channels tx' { channels tx' with
        queue := (channels tx').queue ++ [.broadcastMessage message] })
      simp only [sendFault_update] at hq hr
      rw [hb, hq, hs, hr, sendFault_update]
      simp only [List.map_cons, List.takeWhile_cons, hf, Option.isNone_none, if_true,
        List.count_cons, List.filterMap_cons]
      refine ⟨?_, trivial, trivial⟩
      by_cases ht : tx = tx'
      · subst ht
        simp only [Function.update_same, beq_self_eq_true, if_true, List.append_assoc,
          List.replicate_succ, List.singleton_append]
      · simp only [Function.update_noteq ht, beq_iff_eq, Ne.symm ht, ↓reduceIte, Nat.add_zero]

/-- With every channel open, a broadcast returns `Ok` and queues in each channel one copy of the
message per entry feeding it. -/
theorem broadcastMsg_of_open (channels : WorkerChannels) (message : BroadcastMessageType)
    (entries : List (ThreadId × Nat)) (hopen : ∀ t, (channels t).sendFault = none) (tx : Nat) :
    (broadcastMsg channels message entries).1 = .ok () ∧
      ((broadcastMsg channels message entries).2 tx).queue =
        (channels tx).queue ++
          List.replicate ((entries.map (·.2)).count tx) (.broadcastMessage message) := by
  induction entries generalizing channels with
  | nil => exact ⟨rfl, (List.append_nil _).symm⟩
  | cons e rest ih =>
    obtain ⟨w, tx'⟩ := e
    have hb : broadcastMsg channels message ((w, tx') :: rest) = broadcastMsg
        (Function.update channels tx' { channels tx' with
          queue := (channels tx').queue ++ [.broadcastMessage message] }) message rest := by
      simp only [broadcastMsg, WorkerChannels.send, hopen]
    obtain ⟨hr, hq⟩ := ih _ fun t => (sendFault_update _ _ _ t).trans (hopen t)
    rw [hb, hq, List.map_cons, List.count_cons]
    refine ⟨hr, ?_⟩
    by_cases ht : tx = tx'
    · subst ht
      simp only [Function.update_same, beq_self_eq_true, if_true, List.append_assoc,
        List.replicate_succ, List.singleton_append]
    · simp only [Function.update_noteq ht, beq_iff_eq, Ne.symm ht, ↓reduceIte, Nat.add_zero]

/-! ## The directory as a map

Workers register with `add_worker_tx_channel`, each with a channel of its own.  The map this
builds is the abstract directory `lastRegistered`: a worker's sender is the one it registered
last.  `Represents` ties the entry list that `broadcast_msg` iterates to that map.
-/

/-- The directory after workers register one after another from the empty map of
`ServerState::new`: `regs` lists each call's worker and sender.  The entries are listed in the
order they were first inserted; a `DashMap` iterates them in an order of its own, so the results
below hold for every permutation of this list. -/
def registerWorkers (regs : List (ThreadId × Nat)) : List (ThreadId × Nat) :=
  regs.foldl (fun d r => addWorkerTxChannel d r.1 r.2) []

/-- What the directory is for: each worker's sender is the one it registered last. -/
def lastRegistered (regs : List (ThreadId × Nat)) : ThreadId → Option Nat :=
  regs.foldl (fun f r => Function.update f r.1 (some r.2)) fun _ => none

/-- The entry list `d` is the map `f`: one entry per worker, and an entry exactly where `f` has a
sender. -/
structure Represents (d : List (ThreadId × Nat)) (f : ThreadId → Option Nat) : Prop where
  nodup : (d.map (·.1)).Nodup
  mem : ∀ w tx, (w, tx) ∈ d ↔ f w = some tx

theorem keys_addWorkerTxChannel (d : List (ThreadId × Nat)) (w tx : Nat) :
    (addWorkerTxChannel d w tx).map (·.1) =
      if w ∈ d.map (·.1) then d.map (·.1) else d.map (·.1) ++ [w] := by
  induction d with
  | nil => rfl
  | cons e rest ih =>
    obtain ⟨w', tx'⟩ := e
    by_cases hw : w' = w
    · subst hw
      simp [addWorkerTxChannel]
    · simp only [addWorkerTxChannel, hw, if_false, List.map_cons, ih, List.mem_cons, Ne.symm hw,
        false_or]
      split_ifs <;> rfl

theorem mem_addWorkerTxChannel {d : List (ThreadId × Nat)} (hd : (d.map (·.1)).Nodup)
    (w tx w' tx' : Nat) :
    (w', tx') ∈ addWorkerTxChannel d w tx ↔
      (w' = w ∧ tx' = tx) ∨ (w' ≠ w ∧ (w', tx') ∈ d) := by
  induction d with
  | nil => simp [addWorkerTxChannel]
  | cons e rest ih =>
    obtain ⟨a, b⟩ := e
    rw [List.map_cons, List.nodup_cons] at hd
    have hrest : (w', tx') ∈ rest → w' ≠ a := fun h hw =>
      hd.1 (List.mem_map.2 ⟨_, h, hw⟩)
    by_cases ha : a = w
    · subst ha
      simp only [addWorkerTxChannel, if_true, List.mem_cons, Prod.mk.injEq]
      constructor
      · rintro (h | h)
        · exact .inl h
        · exact .inr ⟨hrest h, .inr h⟩
      · rintro (h | ⟨hne, ⟨rfl, -⟩ | h⟩)
        · exact .inl h
        · exact absurd rfl hne
        · exact .inr h
    · simp only [addWorkerTxChannel, ha, if_false, List.mem_cons, Prod.mk.injEq, ih hd.2]
      constructor
      · rintro (⟨rfl, rfl⟩ | h | h)
        · exact .inr ⟨ha, .inl ⟨rfl, rfl⟩⟩
        · exact .inl h
        · exact .inr ⟨h.1, .inr h.2⟩
      · rintro (h | ⟨hne, h | h⟩)
        · exact .inr (.inl h)
        · exact .inl h
        · exact .inr (.inr ⟨hne, h⟩)

theorem Represents.addWorkerTxChannel {d : List (ThreadId × Nat)} {f : ThreadId → Option Nat}
    (h : Represents d f) (w tx : Nat) :
    Represents (addWorkerTxChannel d w tx) (Function.update f w (some tx)) := by
  refine ⟨?_, fun w' tx' => ?_⟩
  · rw [keys_addWorkerTxChannel]
    split_ifs with hw
    · exact h.nodup
    · exact h.nodup.append (List.nodup_singleton w) (List.disjoint_singleton.2 hw)
  · rw [mem_addWorkerTxChannel h.nodup, h.mem]
    by_cases hw : w' = w
    · subst hw
      simp [eq_comm]
    · simp [hw, Function.update_noteq hw]

theorem represents_registerWorkers (regs : List (ThreadId × Nat)) :
    Represents (registerWorkers regs) (lastRegistered regs) := by
  suffices h : ∀ d f, Represents d f →
      Represents (regs.foldl (fun d r => addWorkerTxChannel d r.1 r.2) d)
        (regs.foldl (fun f r => Function.update f r.1 (some r.2)) f) from
    h [] _ ⟨List.nodup_nil, fun _ _ => by simp⟩
  induction regs with
  | nil => exact fun _ _ h => h
  | cons r regs ih => exact fun d f h => ih _ _ (h.addWorkerTxChannel r.1 r.2)

theorem mem_of_lastRegistered {regs : List (ThreadId × Nat)} {w tx : Nat}
    (hlast : lastRegistered regs w = some tx) : (w, tx) ∈ regs := by
  suffices h : ∀ f : ThreadId → Option Nat,
      regs.foldl (fun (f : ThreadId → Option Nat) r => Function.update f r.1 (some r.2)) f w =
        some tx → f w = some tx ∨ (w, tx) ∈ regs from
    (h _ hlast).resolve_left Option.noConfusion
  clear hlast
  induction regs with
  | nil => exact fun f h => .inl h
  | cons r regs ih =>
    intro f hf
    rcases ih _ hf with h | h
    · dsimp only at h
      by_cases hw : w = r.1
      · subst hw
        rw [Function.update_same, Option.some.injEq] at h
        exact .inr (h ▸ List.mem_cons_self _ _)
      · exact .inl (by rwa [Function.update_noteq hw] at h)
    · exact .inr (List.mem_cons_of_mem _ h)

theorem nodup_values_registerWorkers {regs : List (ThreadId × Nat)}
    (hfresh : (regs.map (·.2)).Nodup) : ((registerWorkers regs).map (·.2)).Nodup := by
  have hrep := represents_registerWorkers regs
  have hsub : ∀ e ∈ registerWorkers regs, e ∈ regs := fun e he =>
    mem_of_lastRegistered ((hrep.mem e.1 e.2).1 he)
  exact (hrep.nodup.of_map _).map_on fun x hx y hy hxy =>
    List.inj_on_of_nodup_map hfresh (hsub x hx) (hsub y hy) hxy

/-- **With every channel open, a broadcast reaches each worker once, through the sender it
registered last.**  For any run of registrations, each with a fresh channel, and every order in
which the directory may be iterated (any permutation of its entries): the broadcast returns `Ok`,
every worker's current channel receives the message exactly once, and a channel that is no
worker's current sender (one a re-registration replaced) receives nothing. -/
theorem broadcast_reaches_each_worker_once (channels : WorkerChannels)
    (message : BroadcastMessageType) (regs : List (ThreadId × Nat))
    (hfresh : (regs.map (·.2)).Nodup) (hopen : ∀ t, (channels t).sendFault = none)
    (entries : List (ThreadId × Nat)) (hperm : entries.Perm (registerWorkers regs)) (tx : Nat) :
    let r := broadcastMsg channels message entries
    r.1 = .ok () ∧
      ((∃ w, lastRegistered regs w = some tx) →
        (r.2 tx).queue = (channels tx).queue ++ [.broadcastMessage message]) ∧
      ((∀ w, lastRegistered regs w ≠ some tx) → (r.2 tx).queue = (channels tx).queue) := by
  obtain ⟨hr, hq⟩ := broadcastMsg_of_open channels message entries hopen tx
  have hcount : (entries.map (·.2)).count tx = ((registerWorkers regs).map (·.2)).count tx :=
    (hperm.map _).count_eq tx
  have hmem : tx ∈ (registerWorkers regs).map (·.2) ↔
      ∃ w, lastRegistered regs w = some tx := by
    simp only [List.mem_map, ← (represents_registerWorkers regs).mem]
    exact ⟨fun ⟨e, he, hte⟩ => ⟨e.1, hte ▸ he⟩, fun ⟨w, hw⟩ => ⟨_, hw, rfl⟩⟩
  refine ⟨hr, fun h => ?_, fun h => ?_⟩
  · rw [hq, hcount, List.count_eq_one_of_mem (nodup_values_registerWorkers hfresh) (hmem.2 h)]
    rfl
  · have hout : tx ∉ (registerWorkers regs).map (·.2) := fun hm =>
      absurd (hmem.1 hm) (by simpa using h)
    rw [hq, hcount, List.count_eq_zero_of_not_mem hout, List.replicate_zero, List.append_nil]

/-- Worker 1 registers channel 10, worker 2 channel 20, then worker 1 re-registers with channel
11: a broadcast of `KillClient(7)` over the directory iterated worker 2 first reaches channel 11
once and the replaced channel 10 never. -/
theorem broadcast_skips_replaced_sender :
    let regs : List (ThreadId × Nat) := [(1, 10), (2, 20), (1, 11)]
    let channels : WorkerChannels := fun _ => ⟨[], none⟩
    let entries : List (ThreadId × Nat) := [(2, 20), (1, 11)]
    let r := broadcastMsg channels (.killClient 7) entries
    (regs.map (·.2)).Nodup ∧ (∀ t, (channels t).sendFault = none) ∧
      entries.Perm (registerWorkers regs) ∧ r.1 = .ok () ∧
      (r.2 11).queue = [.broadcastMessage (.killClient 7)] ∧ (r.2 10).queue = [] :=
  ⟨by decide, fun _ => rfl, by decide,
    (broadcast_reaches_each_worker_once (fun _ => ⟨[], none⟩) (.killClient 7)
      [(1, 10), (2, 20), (1, 11)] (by decide) (fun _ => rfl) [(2, 20), (1, 11)] (by decide) 11).1,
    (broadcast_reaches_each_worker_once (fun _ => ⟨[], none⟩) (.killClient 7)
      [(1, 10), (2, 20), (1, 11)] (by decide) (fun _ => rfl) [(2, 20), (1, 11)] (by decide)
      11).2.1 ⟨1, rfl⟩,
    (broadcast_reaches_each_worker_once (fun _ => ⟨[], none⟩) (.killClient 7)
      [(1, 10), (2, 20), (1, 11)] (by decide) (fun _ => rfl) [(2, 20), (1, 11)] (by decide)
      10).2.2 fun w => by
        simp only [lastRegistered, List.foldl, Function.update]
        split_ifs <;> simp⟩

end ServerState

end SableDb
