import SableDb.Server.ChannelCapacity

/-!
# A call running alone is the sequential call

When no other call takes a step and no client acts, the atomic steps of one `block_client` or
`wakeup_clients` call do what `blockClient` or `wakeupClients` computes on the table's contents:
the registry refines the one-call-at-a-time table of `BlockedClients`.  In a reachable state no
`send` waits (`ChannelsBounded.room`), so a lone call always returns.
-/

namespace SableDb

namespace Registry

/-- Call `i` takes `k` steps while nothing else runs. -/
def runAlone (r : Registry) (i k : Nat) : Registry := r.run (List.replicate k (.run i))

theorem runAlone_add (r : Registry) (i a b : Nat) :
    r.runAlone i (a + b) = (r.runAlone i a).runAlone i b := by
  simp only [runAlone, List.replicate_add, run_append]

theorem runAlone_succ (r : Registry) (i k : Nat) :
    r.runAlone i (k + 1) = (r.step (.run i)).runAlone i k := rfl

theorem runAlone_one (r : Registry) (i : Nat) : r.runAlone i 1 = r.step (.run i) := rfl

theorem runAlone_two (r : Registry) (i : Nat) :
    r.runAlone i 2 = (r.step (.run i)).step (.run i) := rfl

/-- One step of call `i`. -/
theorem step_run {r : Registry} {i : Nat} {th : Thread} (hi : r.threads[i]? = some th) :
    r.step (.run i) =
      { (r.stepThread th).1 with threads := r.threads.set i (r.stepThread th).2 } := by
  simp [Registry.step, hi]

theorem threads_step_run {r : Registry} {i : Nat} {th : Thread} (hi : r.threads[i]? = some th) :
    (r.step (.run i)).threads[i]? = some (r.stepThread th).2 := by
  have hlt : i < r.threads.length := (List.getElem?_eq_some_iff.1 hi).1
  rw [step_run hi]
  simp [(r.stepThread_frame th).1, hlt]

/-- A step of call `i` whose effect on the shared memory is known. -/
theorem step_run_eq {r : Registry} {i : Nat} {th : Thread} (r' : Registry) (th' : Thread)
    (hi : r.threads[i]? = some th) (h : r.stepThread th = (r', th')) :
    r.step (.run i) = { r' with threads := r.threads.set i th' } ∧
      (r.step (.run i)).threads[i]? = some th' := by
  have hi₁ := threads_step_run hi
  rw [h] at hi₁
  exact ⟨by rw [step_run hi, h], hi₁⟩

/-- A call's step keeps the number of channels. -/
theorem stepThread_waiters_length (r : Registry) (th : Thread) :
    (r.stepThread th).1.waiters.length = r.waiters.length := by
  rcases r.stepThread_effect th with hs | ⟨q, w, hs⟩ | ⟨key, w, hs⟩ | ⟨q, w, rest, -, hs⟩ |
      ⟨w, hs⟩ | ⟨key, hs⟩ <;> simp [hs, deliver]

/-- Running call `i` alone keeps the number of channels and moves no other call. -/
theorem runAlone_frame (r : Registry) (i k : Nat) :
    (r.runAlone i k).waiters.length = r.waiters.length ∧
      ∀ j, j ≠ i → (r.runAlone i k).threads[j]? = r.threads[j]? := by
  induction k generalizing r with
  | zero => exact ⟨rfl, fun _ _ => rfl⟩
  | succ k ih =>
    have h₁ : (r.step (.run i)).waiters.length = r.waiters.length ∧
        ∀ j, j ≠ i → (r.step (.run i)).threads[j]? = r.threads[j]? := by
      cases hi : r.threads[i]? with
      | none => simp [Registry.step, hi]
      | some th =>
        rw [step_run hi]
        exact ⟨r.stepThread_waiters_length th, fun j hj => List.getElem?_set_ne (Ne.symm hj)⟩
    rw [runAlone_succ]
    obtain ⟨hl, ht⟩ := ih (r.step (.run i))
    exact ⟨hl.trans h₁.1, fun j hj => (ht j hj).trans (h₁.2 j hj)⟩

/-- Whether `w`'s receiver is still open. -/
def live (r : Registry) (w : WaiterId) : Bool := !(r.waiter w).closed

/-- One step of a `wakeup_clients` call. -/
theorem step_run_wake {r : Registry} {i : Nat} {key : UserKey} {pc : WakePc}
    (hi : r.threads[i]? = some (.wake key pc)) :
    r.step (.run i) =
      { (r.wakeStep key pc).1 with threads := r.threads.set i (.wake key (r.wakeStep key pc).2) } :=
  step_run hi

theorem threads_step_run_wake {r : Registry} {i : Nat} {key : UserKey} {pc : WakePc}
    (hi : r.threads[i]? = some (.wake key pc)) :
    (r.step (.run i)).threads[i]? = some (.wake key (r.wakeStep key pc).2) :=
  threads_step_run hi

/-! ## The drain loop -/

/-- `r'` is `r` after a drain of queue `q` that left `rest` in it and signalled `sig`: no table
entry, no other queue and no receiver changed. -/
structure Drained (r r' : Registry) (q : Nat) (rest sig : List WaiterId) : Prop where
  table : r'.table = r.table
  length : r'.queues.length = r.queues.length
  senders : (r'.queue q).senders = rest
  others : ∀ q', q' ≠ q → r'.queue q' = r.queue q'
  sent : ∀ w, (r'.waiter w).sent = (r.waiter w).sent + sig.count w
  closed : ∀ w, (r'.waiter w).closed = (r.waiter w).closed

/-- A step that touches no table entry, queue or channel drains nothing. -/
theorem Drained.of_eq {r : Registry} (r' : Registry) (q : Nat) (htable : r'.table = r.table)
    (hqueues : r'.queues = r.queues) (hwaiters : r'.waiters = r.waiters) :
    Drained r r' q (r.queue q).senders [] :=
  ⟨htable, by rw [hqueues], by simp [queue, hqueues], fun _ _ => by simp [queue, hqueues],
    fun _ => by simp [waiter, hwaiters], fun _ => by simp [waiter, hwaiters]⟩

theorem Drained.trans {r r₁ r₂ : Registry} {q : Nat} {rest₁ rest₂ sig₁ sig₂ : List WaiterId}
    (h₁ : Drained r r₁ q rest₁ sig₁) (h₂ : Drained r₁ r₂ q rest₂ sig₂) :
    Drained r r₂ q rest₂ (sig₁ ++ sig₂) :=
  ⟨h₂.table.trans h₁.table, h₂.length.trans h₁.length, h₂.senders,
    fun q' hq => (h₂.others q' hq).trans (h₁.others q' hq),
    fun w => by rw [h₂.sent, h₁.sent, List.count_append, Nat.add_assoc],
    fun w => (h₂.closed w).trans (h₁.closed w)⟩

theorem Drained.live_eq {r r' : Registry} {q : Nat} {rest sig : List WaiterId}
    (h : Drained r r' q rest sig) : r'.live = r.live :=
  funext fun w => by simp only [live, h.closed w]

/-- The loop head with no wake-up left goes to the emptiness check. -/
theorem pop_zero_step {r : Registry} {i : Nat} {key : UserKey} {q : Nat}
    (hi : r.threads[i]? = some (.wake key (.pop q 0))) :
    (r.step (.run i)).threads[i]? = some (.wake key (.queueIsEmpty q)) ∧
      Drained r (r.step (.run i)) q (r.queue q).senders [] := by
  refine ⟨threads_step_run_wake hi, ?_⟩
  rw [step_run_wake hi]
  exact Drained.of_eq _ q rfl rfl rfl

/-- The loop head on an empty queue goes to the emptiness check. -/
theorem pop_nil_step {r : Registry} {i : Nat} {key : UserKey} {q m : Nat}
    (hi : r.threads[i]? = some (.wake key (.pop q (m + 1)))) (hs : (r.queue q).senders = []) :
    (r.step (.run i)).threads[i]? = some (.wake key (.queueIsEmpty q)) ∧
      Drained r (r.step (.run i)) q [] [] := by
  refine ⟨by simpa [wakeStep, hs] using threads_step_run_wake hi, ?_⟩
  rw [step_run_wake hi]
  simp only [wakeStep, hs]
  have h := Drained.of_eq (r := r) { r with threads := r.threads.set i (.wake key (.queueIsEmpty q)) }
    q rfl rfl rfl
  rwa [hs] at h

/-- The loop head pops the queue's first sender and goes to send to it. -/
theorem pop_cons_step {r : Registry} {i : Nat} {key : UserKey} {q m : Nat} {w : WaiterId}
    {rest : List WaiterId} (hi : r.threads[i]? = some (.wake key (.pop q (m + 1))))
    (hs : (r.queue q).senders = w :: rest) :
    (r.step (.run i)).threads[i]? = some (.wake key (.send q (m + 1) w)) ∧
      Drained r (r.step (.run i)) q rest [] := by
  have hlt : q < r.queues.length := by
    by_contra hge
    simp [queue, List.getD_eq_getElem?_getD, List.getElem?_eq_none (Nat.le_of_not_lt hge)] at hs
  refine ⟨by simpa [wakeStep, hs] using threads_step_run_wake hi, ?_⟩
  rw [step_run_wake hi]
  simp only [wakeStep, hs]
  refine ⟨rfl, by simp, ?_, fun q' hq' => ?_, fun _ => by simp [waiter], fun _ => rfl⟩
  · show ((r.setSenders q rest).queue q).senders = rest
    rw [queue_setSenders, if_pos ⟨rfl, hlt⟩]
  · show (r.setSenders q rest).queue q' = r.queue q'
    rw [queue_setSenders, if_neg fun h => hq' h.1.symm]

/-- A send to a closed receiver fails and goes back to the loop head, keeping the count. -/
theorem send_closed_step {r : Registry} {i : Nat} {key : UserKey} {q m : Nat} {w : WaiterId}
    (hi : r.threads[i]? = some (.wake key (.send q m w))) (hc : r.live w = false) :
    (r.step (.run i)).threads[i]? = some (.wake key (.pop q m)) ∧
      Drained r (r.step (.run i)) q (r.queue q).senders [] := by
  have hc' : (r.waiter w).closed = true := by simpa [live] using hc
  refine ⟨by simpa [wakeStep, hc'] using threads_step_run_wake hi, ?_⟩
  rw [step_run_wake hi]
  simp only [wakeStep, hc', if_true]
  exact Drained.of_eq _ q rfl rfl rfl

/-- In a reachable state a send to an open receiver delivers and counts one wake-up. -/
theorem send_open_step {r : Registry} (hb : r.ChannelsBounded) {i : Nat} {key : UserKey}
    {q m : Nat} {w : WaiterId} (hi : r.threads[i]? = some (.wake key (.send q m w)))
    (hl : r.live w = true) :
    (r.step (.run i)).threads[i]? = some (.wake key (.pop q (m - 1))) ∧
      Drained r (r.step (.run i)) q (r.queue q).senders [w] := by
  have hc : (r.waiter w).closed = false := by simpa [live] using hl
  have hroom := hb.room hi
  refine ⟨by simpa [wakeStep, hc, hroom] using threads_step_run_wake hi, ?_⟩
  rw [step_run_wake hi]
  simp only [wakeStep, hc, hroom, if_true, Bool.false_eq_true, if_false]
  have hlen : w < r.waiters.length := by
    by_contra hge
    simp [waiter_eq_default r (Nat.le_of_not_lt hge), Waiter.capacity] at hroom
  refine ⟨rfl, rfl, rfl, fun _ _ => rfl, fun w' => ?_, fun w' => ?_⟩
  · show ((r.deliver w).waiter w').sent = _
    rw [waiter_deliver]
    split_ifs with h
    · simp [h.1]
    · simp only [List.count_singleton', Nat.add_zero]
      split_ifs with h'
      · exact absurd ⟨h', h'.symm ▸ hlen⟩ h
      · rfl
  · show ((r.deliver w).waiter w').closed = _
    rw [waiter_deliver]
    split_ifs <;> rfl

/-- **The drain loop run alone is `drainQueue`.**  From the loop head with `m` wake-ups to go,
call `i` reaches the queue's emptiness check having left in the queue what `drainQueue` leaves
and signalled what it signals, touching no table entry, other queue or receiver. -/
theorem drain_alone {i : Nat} {key : UserKey} {q : Nat} :
    ∀ (s : List WaiterId) (m : Nat) (r : Registry), r.ChannelsBounded →
      r.threads[i]? = some (.wake key (.pop q m)) → (r.queue q).senders = s →
      ∃ k, (r.runAlone i k).threads[i]? = some (.wake key (.queueIsEmpty q)) ∧
        Drained r (r.runAlone i k) q (drainQueue r.live m s).1 (drainQueue r.live m s).2
  | s, 0, r, _, hi, hs => by
    obtain ⟨hi₁, hd₁⟩ := pop_zero_step hi
    exact ⟨1, hi₁, by simpa [drainQueue, hs] using hd₁⟩
  | [], m + 1, r, _, hi, hs => by
    obtain ⟨hi₁, hd₁⟩ := pop_nil_step hi hs
    exact ⟨1, hi₁, by simpa [drainQueue] using hd₁⟩
  | w :: rest, m + 1, r, hb, hi, hs => by
    obtain ⟨hi₁, hd₁⟩ := pop_cons_step hi hs
    have hb₁ := hb.step (.run i)
    have hl₁ : (r.step (.run i)).live = r.live := hd₁.live_eq
    cases hl : r.live w
    · obtain ⟨hi₂, hd₂⟩ := send_closed_step hi₁ (by rw [hl₁, hl])
      obtain ⟨k, hik, hdk⟩ := drain_alone rest (m + 1) _ (hb₁.step (.run i)) hi₂
        (by rw [hd₂.senders, hd₁.senders])
      have hd := (hd₁.trans hd₂).trans hdk
      rw [hd₂.live_eq, hl₁, List.nil_append, List.nil_append] at hd
      have hdq : drainQueue r.live (m + 1) (w :: rest) = drainQueue r.live (m + 1) rest := by
        simp [drainQueue, hl]
      refine ⟨k + 1 + 1, ?_⟩
      rw [runAlone_succ, runAlone_succ]
      exact ⟨hik, hdq ▸ hd⟩
    · obtain ⟨hi₂, hd₂⟩ := send_open_step hb₁ hi₁ (by rw [hl₁, hl])
      obtain ⟨k, hik, hdk⟩ := drain_alone rest m _ (hb₁.step (.run i)) hi₂
        (by rw [hd₂.senders, hd₁.senders])
      have hd := (hd₁.trans hd₂).trans hdk
      rw [hd₂.live_eq, hl₁, List.nil_append] at hd
      have hdq : drainQueue r.live (m + 1) (w :: rest) =
          ((drainQueue r.live m rest).1, w :: (drainQueue r.live m rest).2) := by
        simp [drainQueue, hl]
      refine ⟨k + 1 + 1, ?_⟩
      rw [runAlone_succ, runAlone_succ]
      exact ⟨hik, hdq ▸ hd⟩

/-! ## The whole call -/

theorem contents_remove (r : Registry) (key : UserKey) :
    ({ r with table := r.table.remove key } : Registry).contents = r.contents.remove key := by
  simp only [contents, KeyMap.remove, List.filter_map]
  rfl

/-- `r'` is `r` after a wake that left the table's contents `table` and signalled `sig`. -/
structure Woken (r r' : Registry) (table : BlockedClientTable) (sig : List WaiterId) : Prop where
  contents : r'.contents = table
  sent : ∀ w, (r'.waiter w).sent = (r.waiter w).sent + sig.count w
  closed : ∀ w, (r'.waiter w).closed = (r.waiter w).closed

theorem Woken.refl (r : Registry) : Woken r r r.contents [] :=
  ⟨rfl, fun _ => rfl, fun _ => rfl⟩

/-- Moving program counters changes no contents and no channel. -/
theorem Woken.setThreads {r r' : Registry} {table : BlockedClientTable} {sig : List WaiterId}
    (h : Woken r r' table sig) (threads : List Thread) :
    Woken r { r' with threads := threads } table sig :=
  ⟨h.contents, h.sent, h.closed⟩

/-- The `remove` step removes the key from the contents. -/
theorem Woken.remove {r r' : Registry} {table : BlockedClientTable} {sig : List WaiterId}
    (h : Woken r r' table sig) (key : UserKey) :
    Woken r { r' with table := r'.table.remove key } (table.remove key) sig :=
  ⟨by rw [← h.contents]; exact contents_remove r' key, h.sent, h.closed⟩

/-- A drain of the queue `key` maps to writes the drained queue back under `key`, read through
the table's contents; this needs the table's queue ids to be pairwise distinct. -/
theorem Drained.woken {r r' : Registry} {q : Nat} {rest sig : List WaiterId}
    (h : Drained r r' q rest sig) (ht : r.TableIds) {key : UserKey}
    (hq : r.table.get key = some q) : Woken r r' (r.contents.insert key rest) sig :=
  ⟨by simpa only [contents, h.table, h.senders] using
      KeyMap.map_eq_insert ht.nodup hq (fun q' => (r'.queue q').senders)
        (fun q' => (r.queue q').senders)
        fun q' hq' => congrArg ChannelQueue.senders (h.others q' hq'),
    h.sent, h.closed⟩

/-- A wake for a key the table does not map returns at the emptiness check or at the `get`,
touching neither the table nor a channel. -/
theorem wake_miss {r : Registry} {i : Nat} {key : UserKey} {n : Nat}
    (hi : r.threads[i]? = some (.wake key (.isEmpty n))) (hg : r.table.get key = none) :
    ∃ k, (r.runAlone i k).threads[i]? = some (.wake key .done) ∧
      Woken r (r.runAlone i k) r.contents [] := by
  cases he : r.table.isEmpty
  · obtain ⟨hr₁, hi₁⟩ := step_run_eq r (.wake key (.get n)) hi
      (by simp [stepThread, wakeStep, he])
    obtain ⟨hr₂, hi₂⟩ := step_run_eq (r.step (.run i)) (.wake key .done) hi₁
      (by simp [stepThread, wakeStep, hr₁, hg])
    refine ⟨2, ?_⟩
    rw [runAlone_two]
    refine ⟨hi₂, ?_⟩
    rw [hr₂, hr₁]
    exact ((Woken.refl r).setThreads _).setThreads _
  · obtain ⟨hr₁, hi₁⟩ := step_run_eq r (.wake key .done) hi
      (by simp [stepThread, wakeStep, he])
    exact ⟨1, hi₁, by rw [runAlone_one, hr₁]; exact (Woken.refl r).setThreads _⟩

/-- For a key the table maps to `q`, the emptiness check and the `get` lead to the drain loop
on `q`, changing nothing shared. -/
theorem wake_hit {r : Registry} {i : Nat} {key : UserKey} {n q : Nat}
    (hi : r.threads[i]? = some (.wake key (.isEmpty n))) (hg : r.table.get key = some q) :
    ((r.step (.run i)).step (.run i)).threads[i]? = some (.wake key (.pop q n)) ∧
      Drained r ((r.step (.run i)).step (.run i)) q (r.queue q).senders [] := by
  have he : r.table.isEmpty = false := by
    cases h : r.table with
    | nil => simp [h] at hg
    | cons _ _ => rfl
  obtain ⟨hr₁, hi₁⟩ := step_run_eq r (.wake key (.get n)) hi (by simp [stepThread, wakeStep, he])
  obtain ⟨hr₂, hi₂⟩ := step_run_eq (r.step (.run i)) (.wake key (.pop q n)) hi₁
    (by simp [stepThread, wakeStep, hr₁, hg])
  refine ⟨hi₂, ?_⟩
  rw [hr₂, hr₁]
  exact Drained.of_eq _ q rfl rfl rfl

/-- After the drain loop, the queue's emptiness check returns, or goes to the `remove` of the
key when the queue is empty. -/
theorem wake_finish {r₀ r : Registry} {i : Nat} {key : UserKey} {q : Nat}
    {table : BlockedClientTable} {sig : List WaiterId}
    (hi : r.threads[i]? = some (.wake key (.queueIsEmpty q))) (hw : Woken r₀ r table sig) :
    ∃ k, (r.runAlone i k).threads[i]? = some (.wake key .done) ∧
      Woken r₀ (r.runAlone i k)
        (if (r.queue q).senders.isEmpty then table.remove key else table) sig := by
  obtain ⟨hr₁, hi₁⟩ := step_run_eq r
    (.wake key (if (r.queue q).senders.isEmpty then .remove else .done)) hi
    (by simp [stepThread, wakeStep])
  cases he : (r.queue q).senders.isEmpty
  · simp only [he, Bool.false_eq_true, if_false] at hi₁ hr₁ ⊢
    exact ⟨1, hi₁, by rw [runAlone_one, hr₁]; exact hw.setThreads _⟩
  · simp only [he, if_true] at hi₁ hr₁ ⊢
    refine ⟨2, ?_, ?_⟩
    · rw [runAlone_two]
      simpa [wakeStep] using threads_step_run_wake hi₁
    · rw [runAlone_two, step_run_wake hi₁, hr₁]
      exact (hw.remove key).setThreads _

/-- **A `wakeup_clients` call running alone is the sequential wake.**  From a state where the
channels are bounded and the table's ids are distinct, call `i` for `key` and `n` returns after
finitely many steps of its own, having left the table's contents as `wakeupClients` leaves them
and signalled each channel as often as `wakeupClients` signals it. -/
theorem wake_alone {r : Registry} (hb : r.ChannelsBounded) (ht : r.TableIds) {i : Nat}
    {key : UserKey} {n : Nat} (hi : r.threads[i]? = some (.wake key (.isEmpty n))) :
    ∃ k, (r.runAlone i k).threads[i]? = some (.wake key .done) ∧
      Woken r (r.runAlone i k) (wakeupClients r.contents r.live key n).1
        (wakeupClients r.contents r.live key n).2 := by
  cases hg : r.table.get key with
  | none =>
    rw [wakeupClients_of_get_eq_none _ _ (by simp [get_contents, hg])]
    exact wake_miss hi hg
  | some q =>
    obtain ⟨hi₂, hd₂⟩ := wake_hit hi hg
    obtain ⟨k, hik, hdk⟩ := drain_alone _ n _ ((hb.step _).step _) hi₂ hd₂.senders
    rw [hd₂.live_eq] at hdk
    have hwk : Woken r (((r.step (.run i)).step (.run i)).runAlone i k)
        (r.contents.insert key (drainQueue r.live n (r.queue q).senders).1)
        (drainQueue r.live n (r.queue q).senders).2 := by
      simpa using (hd₂.trans hdk).woken ht hg
    obtain ⟨k', hik', hwk'⟩ := wake_finish hik hwk
    rw [hdk.senders] at hwk'
    refine ⟨2 + k + k', ?_⟩
    rw [runAlone_add, runAlone_add, runAlone_two, wakeupClients_of_get_eq_some r.live n
      (by simp [get_contents, hg] : r.contents.get key = some (r.queue q).senders)]
    split_ifs at hwk' ⊢ <;> exact ⟨hik', hwk'⟩

/-- **In every reachable state, a `wakeup_clients` call that runs alone is the sequential wake**
of the table's contents: started after any run, it returns, leaves the contents as
`wakeupClients` leaves them, and signals each channel as often as `wakeupClients` signals it. -/
theorem wake_alone_refines (acts : List RegistryAction) (key : UserKey) (n : Nat) :
    let r := init.run acts
    let r' := r.step (.wakeupClients key n)
    ∃ k, (r'.runAlone r.threads.length k).threads[r.threads.length]? = some (.wake key .done) ∧
      Woken r (r'.runAlone r.threads.length k) (wakeupClients r.contents r.live key n).1
        (wakeupClients r.contents r.live key n).2 := by
  intro r r'
  have hb : r.ChannelsBounded :=
    run_invariant _ (fun _ a h => h.step a) acts _ channelsBounded_init
  have ht : r.TableIds := run_invariant _ (fun _ a h => h.step a) acts _ tableIds_init
  obtain ⟨k, hk, hw⟩ := @wake_alone r' (hb.step _) (ht.step _) r.threads.length key n
    (by simp [r', Registry.step])
  exact ⟨k, hk, hw.contents, hw.sent, hw.closed⟩

/-! ## `block_client` -/

/-- A `push` onto the queue that `key` maps to appends to `key`'s entry in the contents. -/
theorem contents_push {r : Registry} (ht : r.TableIds) {key : UserKey} {q : Nat}
    (hq : r.table.get key = some q) (w : WaiterId) :
    (r.push q w).contents = r.contents.insert key ((r.queue q).senders ++ [w]) := by
  have hlt := ht.lt _ (KeyMap.mem_of_get hq)
  refine (KeyMap.map_eq_insert ht.nodup hq (fun q' => ((r.push q w).queue q').senders)
    (fun q' => (r.queue q').senders) fun q' hq' => by simp [queue_push, Ne.symm hq']).trans ?_
  simp [queue_push, hlt, contents]

/-- Publishing a new queue under `key` sets `key`'s entry in the contents to that queue alone. -/
theorem contents_insertNew {r : Registry} (ht : r.TableIds) (key : UserKey) (w : WaiterId) :
    (r.insertNew key w).contents = r.contents.insert key [w] := by
  refine (KeyMap.map_insert r.table key r.queues.length
    fun q' => ((r.insertNew key w).queue q').senders).trans ?_
  simp only [queue_insertNew, lt_irrefl, if_false, if_true]
  congr 1
  exact List.map_congr_left fun e he => by simp [ht.lt e he]

/-- The `get` of one key and the `push` or `insert` it leads to do what `blockClient` does for
that key. -/
theorem block_key_step {r : Registry} (ht : r.TableIds) {i : Nat} {w : WaiterId} {key : UserKey}
    {keys : List UserKey} (hi : r.threads[i]? = some (.block w (.get (key :: keys)))) :
    ((r.step (.run i)).step (.run i)).threads[i]? = some (.block w (.get keys)) ∧
      ((r.step (.run i)).step (.run i)).contents = blockClient r.contents w [key] ∧
      ((r.step (.run i)).step (.run i)).waiters = r.waiters := by
  cases hg : r.table.get key with
  | none =>
    obtain ⟨hr₁, hi₁⟩ := step_run_eq r (.block w (.insert key keys)) hi
      (by simp [stepThread, blockStep, hg])
    obtain ⟨hr₂, hi₂⟩ := step_run_eq ((r.step (.run i)).insertNew key w) (.block w (.get keys))
      hi₁ rfl
    refine ⟨hi₂, ?_, by rw [hr₂, hr₁]; rfl⟩
    rw [hr₂, hr₁, show blockClient r.contents w [key] = r.contents.insert key [w] by
      simp [blockClient, get_contents, hg]]
    exact contents_insertNew ht key w
  | some q =>
    obtain ⟨hr₁, hi₁⟩ := step_run_eq r (.block w (.push key q keys)) hi
      (by simp [stepThread, blockStep, hg])
    obtain ⟨hr₂, hi₂⟩ := step_run_eq ((r.step (.run i)).push q w) (.block w (.get keys)) hi₁ rfl
    refine ⟨hi₂, ?_, by rw [hr₂, hr₁]; rfl⟩
    rw [hr₂, hr₁, show blockClient r.contents w [key] =
        r.contents.insert key ((r.queue q).senders ++ [w]) by
      simp [blockClient, get_contents, hg]]
    exact contents_push ht hg w

/-- **A `block_client` call running alone is the sequential `blockClient`.**  From a state
whose table's ids are distinct and in range, call `i` for the channel `w` returns after two steps
per key, having left the table's contents as `blockClient` leaves them and no channel changed. -/
theorem block_alone {i : Nat} {w : WaiterId} :
    ∀ (keys : List UserKey) (r : Registry), r.TableIds →
      r.threads[i]? = some (.block w (.get keys)) →
      (r.runAlone i (2 * keys.length)).threads[i]? = some (.block w (.get [])) ∧
        (r.runAlone i (2 * keys.length)).contents = blockClient r.contents w keys ∧
        (r.runAlone i (2 * keys.length)).waiters = r.waiters
  | [], _, _, hi => ⟨hi, rfl, rfl⟩
  | key :: keys, r, ht, hi => by
    obtain ⟨hi₂, hc₂, hw₂⟩ := block_key_step ht hi
    obtain ⟨hi', hc', hw'⟩ := block_alone keys _ ((ht.step (.run i)).step (.run i)) hi₂
    have hk : r.runAlone i (2 * (key :: keys).length) =
        ((r.step (.run i)).step (.run i)).runAlone i (2 * keys.length) := by
      rw [List.length_cons, Nat.mul_succ]; rfl
    rw [hk]
    exact ⟨hi', hc'.trans (congrArg (blockClient · w keys) hc₂), hw'.trans hw₂⟩

/-- **In every reachable state, a `block_client` call that runs alone is the sequential
`blockClient`** of the table's contents, for the channel the call adds. -/
theorem block_alone_refines (acts : List RegistryAction) (key : UserKey) (keys : List UserKey) :
    let r := init.run acts
    let r' := (r.step (.blockClient (key :: keys))).runAlone r.threads.length
      (2 * (key :: keys).length)
    r'.threads[r.threads.length]? = some (.block r.waiters.length (.get [])) ∧
      r'.contents = blockClient r.contents r.waiters.length (key :: keys) ∧
      r'.waiters = r.waiters ++ [⟨key :: keys, 0, 0, false⟩] := by
  intro r r'
  have ht : r.TableIds := run_invariant _ (fun _ a h => h.step a) acts _ tableIds_init
  exact block_alone (key :: keys) _ (ht.step _) (by simp [Registry.step])

end Registry

end SableDb
