import SableDb.Server.Sequential

/-!
# Serial executions of the registry are the one-call-at-a-time table

When every `block_client` or `wakeup_clients` call returns before the next one starts, and no
client takes a signal out or drops its receiver, the registry ends as the one-call-at-a-time
server of `BlockedClients` ends after the same calls: the same table contents, the same channels,
and each channel signalled as often.  Calls that overlap can break this (`blocked_client_lost`).
-/

namespace SableDb

/-- A call to the blocked-client table. -/
inductive Call
  | blockClient (keys : List UserKey)
  | wakeupClients (key : UserKey) (numClients : Nat)
  deriving DecidableEq, Repr

/-- The action that starts the call. -/
def Call.start : Call → RegistryAction
  | .blockClient keys => .blockClient keys
  | .wakeupClients key n => .wakeupClients key n

/-- Whether a call has returned. -/
def Thread.returned : Thread → Bool
  | .block _ (.get []) => true
  | .wake _ .done => true
  | _ => false

/-- The server when calls run one at a time and every receiver stays open: the table, the number
of channels made so far (the next channel's id), and every signal sent, in order. -/
structure SerialServer where
  table : BlockedClientTable
  channels : Nat
  signals : List WaiterId
  deriving DecidableEq, Repr

namespace SerialServer

def init : SerialServer := ⟨[], 0, []⟩

/-- One call, run to completion.  `block_client(&[])` panics before it makes a channel. -/
def call (s : SerialServer) : Call → SerialServer
  | .blockClient [] => s
  | .blockClient (key :: keys) =>
    ⟨blockClient s.table s.channels (key :: keys), s.channels + 1, s.signals⟩
  | .wakeupClients key n =>
    ⟨(wakeupClients s.table (fun _ => true) key n).1, s.channels,
      s.signals ++ (wakeupClients s.table (fun _ => true) key n).2⟩

def run (s : SerialServer) (calls : List Call) : SerialServer := calls.foldl call s

end SerialServer

namespace Registry

/-- Start the call as the next call in flight, then run it alone for `k` steps. -/
def serialStep (r : Registry) (c : Call) (k : Nat) : Registry :=
  r.run (c.start :: List.replicate k (.run r.threads.length))

/-- Calls one after another, each with its number of steps. -/
def serialRun (r : Registry) : List (Call × Nat) → Registry
  | [] => r
  | (c, k) :: rest => (r.serialStep c k).serialRun rest

theorem serialStep_eq (r : Registry) (c : Call) (k : Nat) :
    r.serialStep c k = (r.step c.start).runAlone r.threads.length k := rfl

/-- The registry `r` is the serial server `s`: the same contents, channels and signals, no
receiver dropped and every call returned; and `r` keeps the invariants a lone call needs. -/
structure Agrees (r : Registry) (s : SerialServer) : Prop where
  bounded : r.ChannelsBounded
  ids : r.TableIds
  contents : r.contents = s.table
  channels : r.waiters.length = s.channels
  sent : ∀ w, (r.waiter w).sent = s.signals.count w
  closed : ∀ w, (r.waiter w).closed = false
  returned : ∀ th ∈ r.threads, th.returned = true

theorem agrees_init : init.Agrees SerialServer.init :=
  ⟨channelsBounded_init, tableIds_init, rfl, rfl, fun _ => rfl, fun _ => rfl,
    fun _ h => absurd h (List.not_mem_nil _)⟩

/-- A call started after `r`'s calls, run alone until it has returned, leaves every call
returned. -/
theorem returned_runAlone {r r' : Registry} (hr : ∀ th ∈ r.threads, th.returned = true)
    {th₀ : Thread} (hthreads : r'.threads = r.threads ++ [th₀]) {k : Nat} {th₁ : Thread}
    (hi : (r'.runAlone r.threads.length k).threads[r.threads.length]? = some th₁)
    (hth₁ : th₁.returned = true) :
    ∀ th ∈ (r'.runAlone r.threads.length k).threads, th.returned = true := by
  intro th hth
  obtain ⟨j, hj⟩ := List.mem_iff_getElem?.1 hth
  by_cases hji : j = r.threads.length
  · subst hji
    rw [hi, Option.some.injEq] at hj
    exact hj ▸ hth₁
  · rw [(r'.runAlone_frame _ k).2 j hji, hthreads] at hj
    rcases Nat.lt_or_gt_of_ne hji with hlt | hgt
    · rw [List.getElem?_append_left hlt] at hj
      exact hr th (List.getElem?_mem hj)
    · rw [List.getElem?_eq_none (by simp only [List.length_append, List.length_singleton]; omega)]
        at hj
      cases hj

/-- **One call, run alone from a state that agrees with the serial server, ends in a state that
agrees with the server after that call.** -/
theorem Agrees.call {r : Registry} {s : SerialServer} (h : r.Agrees s) (c : Call) :
    ∃ k, (r.serialStep c k).Agrees (s.call c) := by
  have hb : ∀ k, (r.serialStep c k).ChannelsBounded := fun k =>
    run_invariant _ (fun _ a h => h.step a) _ r h.bounded
  have ht : ∀ k, (r.serialStep c k).TableIds := fun k =>
    run_invariant _ (fun _ a h => h.step a) _ r h.ids
  cases c with
  | blockClient keys =>
    rcases keys with _ | ⟨key, keys⟩
    · exact ⟨0, h⟩
    obtain ⟨hi, hc, hw⟩ := @block_alone r.threads.length r.waiters.length (key :: keys)
      (r.step (.blockClient (key :: keys))) (h.ids.step _) (by simp [Registry.step])
    have hwaiter : ∀ w, ((r.serialStep (.blockClient (key :: keys)) (2 * (key :: keys).length)).waiter
        w) = (r.step (.blockClient (key :: keys))).waiter w := fun w => by
      rw [serialStep_eq, Call.start]; simp only [waiter, hw]
    refine ⟨2 * (key :: keys).length, hb _, ht _, ?_, ?_, fun w => ?_, fun w => ?_, ?_⟩
    · rw [serialStep_eq, Call.start, hc]
      show blockClient r.contents r.waiters.length (key :: keys) = _
      rw [h.contents, h.channels]; rfl
    · rw [serialStep_eq, Call.start, hw]
      simp [Registry.step, h.channels, SerialServer.call]
    · rw [hwaiter, (sent_closed_step_blockClient r key keys w).1, h.sent w]; rfl
    · rw [hwaiter, (sent_closed_step_blockClient r key keys w).2, h.closed w]
    · rw [serialStep_eq, Call.start]
      exact returned_runAlone h.returned (show (r.step (.blockClient (key :: keys))).threads =
        r.threads ++ [.block r.waiters.length (.get (key :: keys))] from rfl) hi rfl
  | wakeupClients key n =>
    have hlive : (r.step (.wakeupClients key n)).live = fun _ => true :=
      funext fun w => by simp [live, waiter, Registry.step, ← h.closed w]
    obtain ⟨k, hi, hwk⟩ := @wake_alone (r.step (.wakeupClients key n))
      (h.bounded.step (.wakeupClients key n)) (h.ids.step (.wakeupClients key n)) r.threads.length
      key n (by simp [Registry.step])
    rw [hlive, show (r.step (.wakeupClients key n)).contents = s.table from h.contents] at hwk
    refine ⟨k, hb _, ht _, ?_, ?_, fun w => ?_, fun w => ?_, ?_⟩
    · rw [serialStep_eq, Call.start, hwk.contents]
      rfl
    · rw [serialStep_eq, Call.start, (runAlone_frame _ _ k).1]
      exact h.channels
    · rw [serialStep_eq, Call.start, hwk.sent w]
      show (r.waiter w).sent + _ = _
      rw [h.sent w]
      simp only [SerialServer.call, List.count_append]
    · rw [serialStep_eq, Call.start, hwk.closed w]
      exact h.closed w
    · rw [serialStep_eq, Call.start]
      exact returned_runAlone h.returned (show (r.step (.wakeupClients key n)).threads =
        r.threads ++ [.wake key (.isEmpty n)] from rfl) hi rfl

/-- **Serial executions are the one-call-at-a-time server.**  For any calls, there are step
counts such that running the calls one after another from the empty registry, each alone for its
count, returns every call and ends with the contents, the channels and the signals of the
one-call-at-a-time server after the same calls. -/
theorem serial_refines (calls : List Call) :
    ∃ ks : List Nat, ks.length = calls.length ∧
      (init.serialRun (calls.zip ks)).Agrees (SerialServer.init.run calls) := by
  suffices h : ∀ (r : Registry) (s : SerialServer), r.Agrees s →
      ∃ ks : List Nat, ks.length = calls.length ∧ (r.serialRun (calls.zip ks)).Agrees (s.run calls)
    from h _ _ agrees_init
  induction calls with
  | nil => exact fun r s h => ⟨[], rfl, h⟩
  | cons c calls ih =>
    intro r s h
    obtain ⟨k, hk⟩ := h.call c
    obtain ⟨ks, hlen, hks⟩ := ih _ _ hk
    exact ⟨k :: ks, by simp [hlen], hks⟩

end Registry

end SableDb
