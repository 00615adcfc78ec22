import SableDb.Server.BlockedClients
import Mathlib.Algebra.Order.BigOperators.Group.List
import Mathlib.Data.List.Perm.Subperm
import Mathlib.Algebra.Order.Ring.Nat
import Mathlib.Data.List.GetD

/-!
# The blocked-client registry under concurrent calls

`block_client` and `wakeup_clients` run on different worker threads at once.  Their atomic
steps are those of `DashMap` (`get`, `insert`, `remove`, `is_empty`) and of `SegQueue` (`push`,
`pop`, `is_empty`), plus the `send` on a client's channel.  A `Registry` holds the shared memory
(the table, every queue allocated so far, every client channel) and the calls in flight, each
with its program counter; `Registry.step` starts a call, runs one atomic step of a call, or lets
a client take a signal or drop its receiver.

A queue is an `Arc`: the table maps a key to a queue id, and a call that fetched the queue keeps
using it after the table has dropped or replaced it.  Allocating a queue and pushing the first
sender onto it touch no shared memory, so they form one step with the `insert` that publishes the
queue.
-/

namespace SableDb

/-- A `SegQueue` of senders allocated by `block_client`, with the key it was allocated for
(ghost: the code does not store the key). -/
structure ChannelQueue where
  key : UserKey
  senders : List WaiterId
  deriving DecidableEq, Repr, Inhabited

/-- The channel `mpsc::channel(keys.len())` of a blocked client, as its receiver sees it:
the keys it blocked on, the signals delivered and taken out, and whether the receiver is gone. -/
structure Waiter where
  keys : List UserKey
  sent : Nat
  received : Nat
  closed : Bool
  deriving DecidableEq, Repr, Inhabited

/-- The channel's capacity, `keys.len()`. -/
def Waiter.capacity (c : Waiter) : Nat := c.keys.length

@[simp] theorem Waiter.default_keys : (default : Waiter).keys = [] := rfl
@[simp] theorem Waiter.default_sent : (default : Waiter).sent = 0 := rfl
@[simp] theorem Waiter.default_received : (default : Waiter).received = 0 := rfl
@[simp] theorem Waiter.default_closed : (default : Waiter).closed = false := rfl
@[simp] theorem ChannelQueue.default_senders : (default : ChannelQueue).senders = [] := rfl

/-- Where a `block_client` call stands; `keys` are the keys it has still to visit, and
`.get []` is a returned call. -/
inductive BlockPc
  | get (keys : List UserKey)
  | push (key : UserKey) (q : Nat) (keys : List UserKey)
  | insert (key : UserKey) (keys : List UserKey)
  deriving DecidableEq, Repr

/-- Where a `wakeup_clients` call stands: the emptiness check, the `get`, the loop head (`pop`
while `num_clients > 0`), the `send`, the queue's emptiness check, the `remove`, and return. -/
inductive WakePc
  | isEmpty (numClients : Nat)
  | get (numClients : Nat)
  | pop (q numClients : Nat)
  | send (q numClients : Nat) (w : WaiterId)
  | queueIsEmpty (q : Nat)
  | remove
  | done
  deriving DecidableEq, Repr

/-- A call in flight: `block_client` for the channel `w`, or `wakeup_clients` for `key`. -/
inductive Thread
  | block (w : WaiterId) (pc : BlockPc)
  | wake (key : UserKey) (pc : WakePc)
  deriving DecidableEq, Repr

/-- The registry: `blocked_clients` (key to queue id), the queues and channels by id, and the
calls in flight. -/
structure Registry where
  table : KeyMap Nat
  queues : List ChannelQueue
  waiters : List Waiter
  threads : List Thread
  deriving DecidableEq, Repr

/-- What the environment does next. -/
inductive RegistryAction
  | blockClient (keys : List UserKey)
  | wakeupClients (key : UserKey) (numClients : Nat)
  | run (i : Nat)
  | receive (w : WaiterId)
  | close (w : WaiterId)
  deriving DecidableEq, Repr

namespace Registry

/-- `ServerState::new()`: no blocked client. -/
def init : Registry := ⟨[], [], [], []⟩

/-- The queue with id `q`. -/
def queue (r : Registry) (q : Nat) : ChannelQueue := r.queues.getD q default

/-- The channel with id `w`. -/
def waiter (r : Registry) (w : WaiterId) : Waiter := r.waiters.getD w default

/-- `SegQueue::push` of `w`'s sender onto queue `q`. -/
def push (r : Registry) (q : Nat) (w : WaiterId) : Registry :=
  { r with queues := r.queues.modify (fun cq => { cq with senders := cq.senders ++ [w] }) q }

/-- Queue `q` after a `SegQueue::pop` that left `rest`. -/
def setSenders (r : Registry) (q : Nat) (rest : List WaiterId) : Registry :=
  { r with queues := r.queues.modify (fun cq => { cq with senders := rest }) q }

/-- A new queue holding `w`'s sender, inserted under `key`. -/
def insertNew (r : Registry) (key : UserKey) (w : WaiterId) : Registry :=
  { r with queues := r.queues ++ [⟨key, [w]⟩], table := r.table.insert key r.queues.length }

/-- A signal delivered into `w`'s channel. -/
def deliver (r : Registry) (w : WaiterId) : Registry :=
  { r with waiters := r.waiters.modify (fun c => { c with sent := c.sent + 1 }) w }

/-- One atomic step of `block_client` for the channel `w`. -/
def blockStep (r : Registry) (w : WaiterId) : BlockPc → Registry × BlockPc
  | .get [] => (r, .get [])
  | .get (key :: keys) =>
    match r.table.get key with
    | some q => (r, .push key q keys)
    | none => (r, .insert key keys)
  | .push _ q keys => (r.push q w, .get keys)
  | .insert key keys => (r.insertNew key w, .get keys)

/-- One atomic step of `wakeup_clients` for `key`.  A `send` into a full channel suspends: the
call stays where it is until the client takes a signal out. -/
def wakeStep (r : Registry) (key : UserKey) : WakePc → Registry × WakePc
  | .isEmpty n => (r, if r.table.isEmpty then .done else .get n)
  | .get n =>
    match r.table.get key with
    | some q => (r, .pop q n)
    | none => (r, .done)
  | .pop q 0 => (r, .queueIsEmpty q)
  | .pop q (n + 1) =>
    match (r.queue q).senders with
    | [] => (r, .queueIsEmpty q)
    | w :: rest => (r.setSenders q rest, .send q (n + 1) w)
  | .send q n w =>
    if (r.waiter w).closed then (r, .pop q n)
    else if (r.waiter w).sent - (r.waiter w).received < (r.waiter w).capacity then
      (r.deliver w, .pop q (n - 1))
    else (r, .send q n w)
  | .queueIsEmpty q => (r, if (r.queue q).senders.isEmpty then .remove else .done)
  | .remove => ({ r with table := r.table.remove key }, .done)
  | .done => (r, .done)

/-- One atomic step of a call; it never touches the list of calls. -/
def stepThread (r : Registry) : Thread → Registry × Thread
  | .block w pc => ((r.blockStep w pc).1, .block w (r.blockStep w pc).2)
  | .wake key pc => ((r.wakeStep key pc).1, .wake key (r.wakeStep key pc).2)

/-- One action of the environment.  `block_client(&[])` panics in `mpsc::channel(0)` before it
touches the table, so it changes nothing. -/
def step (r : Registry) : RegistryAction → Registry
  | .blockClient [] => r
  | .blockClient (key :: keys) =>
    { r with
      waiters := r.waiters ++ [⟨key :: keys, 0, 0, false⟩]
      threads := r.threads ++ [.block r.waiters.length (.get (key :: keys))] }
  | .wakeupClients key n => { r with threads := r.threads ++ [.wake key (.isEmpty n)] }
  | .run i =>
    match r.threads[i]? with
    | some th => { (r.stepThread th).1 with threads := r.threads.set i (r.stepThread th).2 }
    | none => r
  | .receive w =>
    if !(r.waiter w).closed && decide ((r.waiter w).received < (r.waiter w).sent) then
      { r with waiters := r.waiters.modify (fun c => { c with received := c.received + 1 }) w }
    else r
  | .close w => { r with waiters := r.waiters.modify (fun c => { c with closed := true }) w }

/-- A run of the environment. -/
def run (r : Registry) (acts : List RegistryAction) : Registry := acts.foldl step r

@[simp] theorem run_nil (r : Registry) : r.run [] = r := rfl

@[simp] theorem run_append (r : Registry) (acts acts' : List RegistryAction) :
    r.run (acts ++ acts') = (r.run acts).run acts' := List.foldl_append _ _ _ _

@[simp] theorem run_cons (r : Registry) (a : RegistryAction) (acts : List RegistryAction) :
    r.run (a :: acts) = (r.step a).run acts := rfl

end Registry

/-! ## Updating one queue, channel or call -/

theorem getD_modify {α : Type} (f : α → α) (l : List α) (i j : Nat) (d : α) :
    (l.modify f i).getD j d = if i = j ∧ j < l.length then f (l.getD j d) else l.getD j d := by
  simp only [List.getD_eq_getElem?_getD, List.getElem?_modify]
  rcases Nat.lt_or_ge j l.length with hj | hj
  · simp only [List.getElem?_eq_getElem hj, Option.map_eq_map, Option.map_some', Option.getD_some,
      hj, and_true]
  · simp only [List.getElem?_eq_none hj, Option.map_eq_map, Option.map_none', Option.getD_none,
      Nat.not_lt.2 hj, and_false, if_false, ite_self]

theorem getD_append_singleton {α : Type} (l : List α) (x d : α) (i : Nat) :
    (l ++ [x]).getD i d = if i < l.length then l.getD i d else if i = l.length then x else d := by
  rcases Nat.lt_trichotomy i l.length with h | rfl | h
  · rw [if_pos h, List.getD_append _ _ _ _ h]
  · rw [if_neg (lt_irrefl _), if_pos rfl, List.getD_append_right _ _ _ _ le_rfl, Nat.sub_self]
    rfl
  · rw [if_neg (Nat.not_lt_of_gt h), if_neg (Nat.ne_of_gt h),
      List.getD_eq_default _ _ (by simp only [List.length_append, List.length_singleton]; omega)]

/-- Updating one element moves a sum over the list by the change at that element. -/
theorem sum_map_modify {α : Type} (g : α → Nat) (f : α → α) (l : List α) (i : Nat) (d : α) :
    ((l.modify f i).map g).sum + g (l.getD i d) = (l.map g).sum + g ((l.modify f i).getD i d) := by
  induction l generalizing i with
  | nil => simp
  | cons a l ih =>
    cases i with
    | zero =>
      simp only [List.modify_zero_cons, List.map_cons, List.sum_cons, List.getD_cons_zero]
      omega
    | succ i =>
      have := ih i
      simp only [List.modify_succ_cons, List.map_cons, List.sum_cons, List.getD_cons_succ]
      omega

theorem sum_map_range_getD {α : Type} (g : α → Nat) (l : List α) (d : α) :
    ((List.range l.length).map (fun i => g (l.getD i d))).sum = (l.map g).sum := by
  induction l with
  | nil => rfl
  | cons a l ih =>
    rw [List.length_cons, List.range_succ_eq_map, List.map_cons, List.sum_cons, List.map_map,
      List.map_cons, List.sum_cons, ← ih]
    rfl

/-- A sum over distinct indices below `n` is at most the sum over all of them. -/
theorem sum_map_le_of_nodup (f : Nat → Nat) {ids : List Nat} (hnd : ids.Nodup) {n : Nat}
    (hlt : ∀ i ∈ ids, i < n) : (ids.map f).sum ≤ ((List.range n).map f).sum := by
  obtain ⟨l, hp, hs⟩ := hnd.subperm (fun i hi => List.mem_range.2 (hlt i hi))
  rw [← (hp.map f).sum_eq]
  exact (hs.map f).sum_le_sum (fun _ _ => Nat.zero_le _)

theorem sum_map_set {α : Type} (g : α → Nat) (l : List α) (i : Nat) (x y : α)
    (h : l[i]? = some y) : ((l.set i x).map g).sum + g y = (l.map g).sum + g x := by
  induction l generalizing i with
  | nil => cases h
  | cons a l ih =>
    cases i with
    | zero =>
      simp only [List.getElem?_cons_zero, Option.some.injEq] at h
      subst h
      simp only [List.set_cons_zero, List.map_cons, List.sum_cons]
      omega
    | succ i =>
      have := ih i (by rwa [List.getElem?_cons_succ] at h)
      simp only [List.set_cons_succ, List.map_cons, List.sum_cons]; omega

namespace Registry

@[simp] theorem push_table (r : Registry) (q w) : (r.push q w).table = r.table := rfl
@[simp] theorem push_waiters (r : Registry) (q w) : (r.push q w).waiters = r.waiters := rfl
@[simp] theorem push_threads (r : Registry) (q w) : (r.push q w).threads = r.threads := rfl
@[simp] theorem push_length (r : Registry) (q w) :
    (r.push q w).queues.length = r.queues.length := by simp [push]
@[simp] theorem setSenders_table (r : Registry) (q rest) : (r.setSenders q rest).table = r.table :=
  rfl
@[simp] theorem setSenders_waiters (r : Registry) (q rest) :
    (r.setSenders q rest).waiters = r.waiters := rfl
@[simp] theorem setSenders_threads (r : Registry) (q rest) :
    (r.setSenders q rest).threads = r.threads := rfl
@[simp] theorem setSenders_length (r : Registry) (q rest) :
    (r.setSenders q rest).queues.length = r.queues.length := by simp [setSenders]
@[simp] theorem insertNew_waiters (r : Registry) (key w) : (r.insertNew key w).waiters = r.waiters :=
  rfl
@[simp] theorem insertNew_threads (r : Registry) (key w) : (r.insertNew key w).threads = r.threads :=
  rfl
@[simp] theorem deliver_table (r : Registry) (w) : (r.deliver w).table = r.table := rfl
@[simp] theorem deliver_queues (r : Registry) (w) : (r.deliver w).queues = r.queues := rfl
@[simp] theorem deliver_threads (r : Registry) (w) : (r.deliver w).threads = r.threads := rfl

theorem queue_push (r : Registry) (q w q') : (r.push q w).queue q' =
    if q = q' ∧ q' < r.queues.length then { r.queue q' with senders := (r.queue q').senders ++ [w] }
    else r.queue q' := getD_modify _ _ _ _ _

theorem queue_setSenders (r : Registry) (q rest q') : (r.setSenders q rest).queue q' =
    if q = q' ∧ q' < r.queues.length then { r.queue q' with senders := rest } else r.queue q' :=
  getD_modify _ _ _ _ _

theorem queue_insertNew (r : Registry) (key w q') : (r.insertNew key w).queue q' =
    if q' < r.queues.length then r.queue q' else if q' = r.queues.length then ⟨key, [w]⟩
    else default := getD_append_singleton _ _ _ _

theorem waiter_modify (r : Registry) (f : Waiter → Waiter) (w w') :
    ({ r with waiters := r.waiters.modify f w } : Registry).waiter w' =
      if w = w' ∧ w' < r.waiters.length then f (r.waiter w') else r.waiter w' :=
  getD_modify _ _ _ _ _

theorem waiter_deliver (r : Registry) (w w') : (r.deliver w).waiter w' =
    if w = w' ∧ w' < r.waiters.length then { r.waiter w' with sent := (r.waiter w').sent + 1 }
    else r.waiter w' := getD_modify _ _ _ _ _

theorem waiter_eq_default (r : Registry) {w : WaiterId} (h : r.waiters.length ≤ w) :
    r.waiter w = default := by
  simp [waiter, List.getD_eq_getElem?_getD, List.getElem?_eq_none h]

/-- `block_client` on a non-empty key list adds the channel `r.waiters.length`. -/
theorem waiter_step_blockClient (r : Registry) (key : UserKey) (keys : List UserKey) (w) :
    (r.step (.blockClient (key :: keys))).waiter w =
      if w < r.waiters.length then r.waiter w
      else if w = r.waiters.length then ⟨key :: keys, 0, 0, false⟩ else default :=
  getD_append_singleton _ _ _ _

/-- `block_client` changes no channel that it does not add. -/
theorem waiter_step_blockClient_of_ne (r : Registry) (key : UserKey) (keys : List UserKey)
    {w : WaiterId} (hw : w ≠ r.waiters.length) :
    (r.step (.blockClient (key :: keys))).waiter w = r.waiter w := by
  rw [waiter_step_blockClient]
  split_ifs with hlt
  · rfl
  · exact (waiter_eq_default r (Nat.le_of_not_lt hlt)).symm

/-- `block_client` delivers no signal and drops no receiver. -/
theorem sent_closed_step_blockClient (r : Registry) (key : UserKey) (keys : List UserKey)
    (w : WaiterId) :
    ((r.step (.blockClient (key :: keys))).waiter w).sent = (r.waiter w).sent ∧
      ((r.step (.blockClient (key :: keys))).waiter w).closed = (r.waiter w).closed := by
  by_cases hw : w = r.waiters.length
  · subst hw; simp [waiter_step_blockClient, waiter_eq_default]
  · rw [waiter_step_blockClient_of_ne r key keys hw]; exact ⟨rfl, rfl⟩

/-- What one step of `block_client` can do to the shared memory: nothing, a `push`, or an
`insert` of a new queue. -/
theorem blockStep_effect (r : Registry) (w : WaiterId) (pc : BlockPc) :
    (r.blockStep w pc).1 = r ∨ (∃ q, (r.blockStep w pc).1 = r.push q w) ∨
      (∃ key, (r.blockStep w pc).1 = r.insertNew key w) := by
  rcases pc with (_ | ⟨key, keys⟩) | ⟨key, q, keys⟩ | ⟨key, keys⟩ <;> simp only [blockStep] <;>
    repeat' split
  all_goals first | exact .inl trivial | exact .inl rfl | exact .inr (.inl ⟨_, rfl⟩) |
    exact .inr (.inr ⟨_, rfl⟩)

/-- What one step of `wakeup_clients` can do to the shared memory: nothing, a `pop`, a delivered
signal, or a `remove` of its key. -/
theorem wakeStep_effect (r : Registry) (key : UserKey) (pc : WakePc) :
    (r.wakeStep key pc).1 = r ∨
      (∃ q w rest, (r.queue q).senders = w :: rest ∧
        (r.wakeStep key pc).1 = r.setSenders q rest) ∨
      (∃ w, (r.wakeStep key pc).1 = r.deliver w) ∨
      (r.wakeStep key pc).1 = { r with table := r.table.remove key } := by
  rcases pc with n | n | ⟨q, _ | n⟩ | ⟨q, n, w⟩ | q | _ | _
  case get => simp only [wakeStep]; split <;> exact .inl rfl
  case pop.succ =>
    simp only [wakeStep]
    split
    · exact .inl rfl
    · exact .inr (.inl ⟨_, _, _, ‹_›, rfl⟩)
  case send =>
    simp only [wakeStep]
    split_ifs
    · exact .inl rfl
    · exact .inr (.inr (.inl ⟨w, rfl⟩))
    · exact .inl rfl
  case remove => exact .inr (.inr (.inr rfl))
  all_goals exact .inl rfl

/-- What one step of a call can do to the shared memory. -/
theorem stepThread_effect (r : Registry) (th : Thread) :
    (r.stepThread th).1 = r ∨ (∃ q w, (r.stepThread th).1 = r.push q w) ∨
      (∃ key w, (r.stepThread th).1 = r.insertNew key w) ∨
      (∃ q w rest, (r.queue q).senders = w :: rest ∧
        (r.stepThread th).1 = r.setSenders q rest) ∨
      (∃ w, (r.stepThread th).1 = r.deliver w) ∨
      ∃ key, (r.stepThread th).1 = { r with table := r.table.remove key } := by
  rcases th with ⟨w, pc⟩ | ⟨key, pc⟩
  · rcases r.blockStep_effect w pc with h | ⟨q, h⟩ | ⟨key, h⟩ <;> simp only [stepThread, h]
    exacts [.inl trivial, .inr (.inl ⟨q, w, rfl⟩), .inr (.inr (.inl ⟨key, w, rfl⟩))]
  · rcases r.wakeStep_effect key pc with h | ⟨q, w, rest, hq, h⟩ | ⟨w, h⟩ | h <;>
      simp only [stepThread, h]
    exacts [.inl trivial, .inr (.inr (.inr (.inl ⟨q, w, rest, hq, rfl⟩))),
      .inr (.inr (.inr (.inr (.inl ⟨w, rfl⟩)))), .inr (.inr (.inr (.inr (.inr ⟨key, rfl⟩))))]

/-- A call's step allocates queues only at the end, and never changes the key of one. -/
theorem stepThread_queue_key (r : Registry) (th : Thread) :
    r.queues.length ≤ (r.stepThread th).1.queues.length ∧
      ∀ q, q < r.queues.length → ((r.stepThread th).1.queue q).key = (r.queue q).key := by
  rcases r.stepThread_effect th with h | ⟨q', w, h⟩ | ⟨key, w, h⟩ | ⟨q', w, rest, -, h⟩ | ⟨w, h⟩ |
      ⟨key, h⟩ <;> rw [h]
  · exact ⟨le_rfl, fun _ _ => rfl⟩
  · exact ⟨(push_length r q' w).ge, fun q _ => by rw [queue_push]; split_ifs <;> rfl⟩
  · exact ⟨(List.sublist_append_left _ _).length_le, fun q hq => by rw [queue_insertNew, if_pos hq]⟩
  · exact ⟨(setSenders_length r q' rest).ge, fun q _ => by rw [queue_setSenders]; split_ifs <;> rfl⟩
  · exact ⟨le_rfl, fun _ _ => rfl⟩
  · exact ⟨le_rfl, fun _ _ => rfl⟩

/-- A call's step leaves the list of calls alone, and changes a channel only by delivering a
signal into it. -/
theorem stepThread_frame (r : Registry) (th : Thread) :
    (r.stepThread th).1.threads = r.threads ∧
      ∀ w, (r.stepThread th).1.waiter w = r.waiter w ∨
        (r.stepThread th).1.waiter w = { r.waiter w with sent := (r.waiter w).sent + 1 } := by
  have hdel : ∀ w w', (r.deliver w).waiter w' = r.waiter w' ∨
      (r.deliver w).waiter w' = { r.waiter w' with sent := (r.waiter w').sent + 1 } :=
    fun w w' => by rw [waiter_deliver]; split_ifs <;> simp
  rcases th with ⟨w, pc⟩ | ⟨key, pc⟩
  · rcases r.blockStep_effect w pc with h | ⟨q, h⟩ | ⟨key, h⟩ <;> simp [stepThread, h, waiter]
  · rcases r.wakeStep_effect key pc with h | ⟨q, w', rest, -, h⟩ | ⟨w, h⟩ | h
    · simp [stepThread, h]
    · simp [stepThread, h, waiter]
    · exact ⟨by simp [stepThread, h], fun w' => by simpa only [stepThread, h] using hdel w w'⟩
    · simp [stepThread, h, waiter]

/-- The table as one `wakeup_clients` call running alone reads it: each key with the senders of
its queue. -/
def contents (r : Registry) : BlockedClientTable := r.table.map fun e => (e.1, (r.queue e.2).senders)

theorem get_contents (r : Registry) (key : UserKey) :
    r.contents.get key = (r.table.get key).map fun q => (r.queue q).senders := by
  simp only [contents]
  induction r.table with
  | nil => rfl
  | cons e rest ih =>
    obtain ⟨k, q⟩ := e
    by_cases h : k = key <;> simp [KeyMap.get_cons, h, ih]

/-- What holds initially and after every action holds after every run. -/
theorem run_invariant (P : Registry → Prop) (hstep : ∀ r a, P r → P (r.step a)) :
    ∀ (acts : List RegistryAction) (r : Registry), P r → P (r.run acts)
  | [], _, h => h
  | a :: acts, r, h => run_invariant P hstep acts (r.step a) (hstep r a h)

end Registry

end SableDb
