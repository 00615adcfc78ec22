import SableDb.Commands.Commander

/-!
# Runs of generic commands

`handle_command` routes a command to the handler its registry name tag selects, and refuses every
other command.  A run hands commands to it one after another, each at its own instant, so with
the expiration helpers of that instant, and each with the outcomes of its own `GenericDb` calls.
A command that fails leaves the key space as its calls before the failure left it, and the next
command starts from there.

`handleCommand_effect` says once what one command can do to the key space, whether it succeeds
or fails: delete entries no reader observes, delete keys it names (DEL), or rewrite the
expiration of a key a reader observes (EXPIRE).  Over every run, from it:

* `run_keeps_values`: generic commands never create a key nor change a value or its type;
* `expired_key_stays_gone`: a key that reads as absent stays absent, whatever EXPIRE is sent;
* `non_write_run_keeps_view`: commands the registry does not mark as writes change nothing that
  a reader observes from the run's last instant on, though their reads may delete expired
  entries.
-/

namespace SableDb

namespace GenericCommands

open GenericDb (RemovesOnly Purges)

variable {E : Type} (parse : Bytes → Option UInt64)

/-- `GenericCommands::handle_command`: the handler of the command's registry name tag, its error
propagated with `?`; any other command is refused. -/
def handleCommand (ops : ExpirationOps E) (calls : DbCalls) (ks : KeySpace E)
    (command : RedisCommand) : Except SableError Reply × KeySpace E :=
  match command.metadata.name with
  | .ttl => ttl ops calls ks command
  | .del => del ops calls ks command
  | .«exists» => «exists» ops calls ks command
  | .expire => expire ops parse calls ks command
  | _ => (.error (.invalidArgument ("Non generic command " ++ command.mainCommand)), ks)

/- The registry routes `DEL` in any case to its handler, and refuses `GET` here. -/
example :
    (handleCommand parseU64 (Expiration.ops 0) DbCalls.healthy
        (Function.update (fun _ => none) (ascii "k") (some (ascii "v", ⟨.string, .absent⟩)))
        ⟨[ascii "DEL", ascii "k"], by decide⟩).1 = .ok (.integer 1) ∧
    (handleCommand parseU64 (Expiration.ops 0) DbCalls.healthy (fun _ => none)
        ⟨[ascii "get", ascii "k"], by decide⟩).1 =
      .error (.invalidArgument "Non generic command get") :=
  ⟨rfl, rfl⟩

/-- A run of generic commands from `ks`, each handled with the expiration helpers of its instant
and the outcomes of its calls: the outcome of every command, and the key space left. -/
def runCommands : KeySpace E → List (ExpirationOps E × DbCalls × RedisCommand) →
    List (Except SableError Reply) × KeySpace E
  | ks, [] => ([], ks)
  | ks, (ops, calls, command) :: rest =>
    let step := handleCommand parse ops calls ks command
    let run := runCommands step.2 rest
    (step.1 :: run.1, run.2)

theorem runCommands_cons_snd (ks : KeySpace E) (ops : ExpirationOps E) (calls : DbCalls)
    (command : RedisCommand) (steps : List (ExpirationOps E × DbCalls × RedisCommand)) :
    (runCommands parse ks ((ops, calls, command) :: steps)).2 =
      (runCommands parse (handleCommand parse ops calls ks command).2 steps).2 := rfl

/-- **What one generic command does to the key space**, whether it succeeds or fails: it deletes
entries no reader observes and, as DEL, entries of keys it names; or, as EXPIRE, it rewrites the
expiration of a key a reader observes. -/
theorem handleCommand_effect (ops : ExpirationOps E) (calls : DbCalls) (ks : KeySpace E)
    (command : RedisCommand) :
    RemovesOnly (fun key => GenericDb.live ops ks key = none ∨
        command.metadata.name = .del ∧ key ∈ command.args.tail) ks
      (handleCommand parse ops calls ks command).2 ∨
    command.metadata.name = .expire ∧ ∃ key e, GenericDb.isLive ops ks key ∧
      (handleCommand parse ops calls ks command).2 = GenericDb.setExpiration ks key e := by
  unfold handleCommand
  split
  case h_1 => exact .inl (RemovesOnly.mono (fun _ => .inl) (ttl_purges ops calls ks command))
  case h_2 hname =>
    exact .inl (RemovesOnly.mono (fun _ hk => .inr ⟨hname, hk⟩) (del_removesOnly ops calls ks command))
  case h_3 => exact .inl (RemovesOnly.mono (fun _ => .inl) (exists_purges ops calls ks command))
  case h_4 hname =>
    rcases expire_sets_only_ttl ops parse calls ks command with
      ⟨-, hks⟩ | ⟨-, -, entry, e, -, hentry, -, hks⟩
    · exact .inl (RemovesOnly.mono (fun _ => .inl) hks)
    · exact .inr ⟨hname, _, e, by rw [GenericDb.isLive, hentry]; rfl, hks⟩
  case h_5 => exact .inl (RemovesOnly.refl _ ks)

/-! ## Values -/

/-- Every entry of `ks'` is an entry of `ks`, with its value bytes and type, under some
expiration. -/
def KeepsValues (ks ks' : KeySpace E) : Prop :=
  ∀ key entry, ks' key = some entry → ∃ e, ks key = some (entry.1, ⟨entry.2.valueType, e⟩)

theorem KeepsValues.refl (ks : KeySpace E) : KeepsValues ks ks := fun _ entry h =>
  ⟨entry.2.expiration, h.trans (by rfl)⟩

theorem KeepsValues.trans {ks₁ ks₂ ks₃ : KeySpace E} (h₁ : KeepsValues ks₁ ks₂)
    (h₂ : KeepsValues ks₂ ks₃) : KeepsValues ks₁ ks₃ := fun key entry h => by
  obtain ⟨e, he⟩ := h₂ key entry h
  obtain ⟨e', he'⟩ := h₁ key _ he
  exact ⟨e', he'⟩

theorem keepsValues_of_removesOnly {p : Bytes → Prop} {ks ks' : KeySpace E}
    (h : RemovesOnly p ks ks') : KeepsValues ks ks' := fun key entry hk => by
  rcases h key with h' | ⟨-, h'⟩
  · exact KeepsValues.refl ks key entry (h'.symm.trans hk)
  · rw [h'] at hk
    cases hk

theorem keepsValues_setExpiration (ks : KeySpace E) (userKey : Bytes) (e : E) :
    KeepsValues ks (GenericDb.setExpiration ks userKey e) := fun key entry h => by
  by_cases hk : key = userKey
  · subst hk
    rw [GenericDb.setExpiration_self] at h
    obtain ⟨⟨v, md⟩, hentry, rfl⟩ := Option.map_eq_some'.1 h
    exact ⟨md.expiration, hentry⟩
  · rw [GenericDb.setExpiration_of_ne ks e hk] at h
    exact KeepsValues.refl ks key entry h

theorem keepsValues_handleCommand (ops : ExpirationOps E) (calls : DbCalls) (ks : KeySpace E)
    (command : RedisCommand) : KeepsValues ks (handleCommand parse ops calls ks command).2 := by
  rcases handleCommand_effect parse ops calls ks command with h | ⟨-, key, e, -, h⟩
  · exact keepsValues_of_removesOnly h
  · rw [h]
    exact keepsValues_setExpiration ks key e

/-- **Generic commands never write a value.**  After any run of generic commands, whatever the
expiration helpers of each instant, whatever each `GenericDb` call returns and whatever the
parser, every key holds nothing or the value bytes and type it held before the run; only its
expiration may differ. -/
theorem run_keeps_values (ks : KeySpace E)
    (steps : List (ExpirationOps E × DbCalls × RedisCommand)) :
    KeepsValues ks (runCommands parse ks steps).2 := by
  induction steps generalizing ks with
  | nil => exact KeepsValues.refl ks
  | cons step steps ih =>
    obtain ⟨ops, calls, command⟩ := step
    rw [runCommands_cons_snd]
    exact (keepsValues_handleCommand parse ops calls ks command).trans (ih _)

/-! ## Expiry -/

/-- No reader observes `key` under any set of expiration helpers that `P` admits. -/
def AbsentUnder (P : ExpirationOps E → Prop) (ks : KeySpace E) (key : Bytes) : Prop :=
  ∀ ops, P ops → GenericDb.live ops ks key = none

theorem absentUnder_handleCommand {P : ExpirationOps E → Prop} {ops : ExpirationOps E}
    (calls : DbCalls) {ks : KeySpace E} {key : Bytes} (command : RedisCommand) (hP : P ops)
    (habs : AbsentUnder P ks key) :
    AbsentUnder P (handleCommand parse ops calls ks command).2 key := fun ops' hP' => by
  rcases handleCommand_effect parse ops calls ks command with h | ⟨-, k, e, hk, h⟩
  · rcases h key with h' | ⟨-, h'⟩
    · rw [GenericDb.live_congr ops' h']
      exact habs ops' hP'
    · exact GenericDb.live_of_eq_none ops' h'
  · -- EXPIRE observed `k`, so `k` is not the absent key.
    have hne : key ≠ k := by
      rintro rfl
      rw [GenericDb.isLive, habs ops hP] at hk
      cases hk
    rw [h, GenericDb.live_congr ops' (GenericDb.setExpiration_of_ne ks e hne)]
    exact habs ops' hP'

theorem absentUnder_runCommands {P : ExpirationOps E → Prop} {key : Bytes} (ks : KeySpace E)
    (steps : List (ExpirationOps E × DbCalls × RedisCommand)) (hsteps : ∀ step ∈ steps, P step.1)
    (habs : AbsentUnder P ks key) : AbsentUnder P (runCommands parse ks steps).2 key := by
  induction steps generalizing ks with
  | nil => exact habs
  | cons step steps ih =>
    obtain ⟨ops, calls, command⟩ := step
    rw [runCommands_cons_snd]
    exact ih _ (fun step h => hsteps step (List.mem_cons_of_mem _ h))
      (absentUnder_handleCommand parse calls command (hsteps _ (List.mem_cons_self _ _)) habs)

/-- **An expired key never comes back.**  If no reader observes a key at instant `t` (never set,
deleted, or expired), then after any run of generic commands at instants from `t` on, whatever
their calls return, no reader observes it at any instant from `t` on: no generic command creates
a key, and EXPIRE rewrites only the expiration of a key a reader observes. -/
theorem expired_key_stays_gone (ks : KeySpace Expiration)
    (steps : List (Nat × DbCalls × RedisCommand)) (t : Nat) (key : Bytes)
    (hsteps : ∀ step ∈ steps, t ≤ step.1)
    (hgone : GenericDb.live (Expiration.ops t) ks key = none) (now : Nat) (hnow : t ≤ now) :
    GenericDb.live (Expiration.ops now)
      (runCommands parse ks
        (steps.map fun step => (Expiration.ops step.1, step.2.1, step.2.2))).2 key = none := by
  refine absentUnder_runCommands parse
    (P := fun ops => ∃ now, t ≤ now ∧ ops = Expiration.ops now) ks _ ?_
    (fun _ ⟨now, hle, hops⟩ => hops ▸ GenericDb.live_eq_none_of_le hle hgone) _ ⟨now, hnow, rfl⟩
  intro step hstep
  obtain ⟨⟨n, calls, command⟩, hmem, rfl⟩ := List.mem_map.1 hstep
  exact ⟨n, hsteps _ hmem, rfl⟩

theorem expired_key_stays_gone_after_expire :
    (∀ step ∈ [(10, DbCalls.healthy,
          (⟨[ascii "expire", ascii "k", ascii "100"], by decide⟩ : RedisCommand))],
        5 ≤ step.1) ∧
      GenericDb.live (Expiration.ops 5)
        (Function.update (fun _ => none) (ascii "k") (some (ascii "v", ⟨.string, .at 3⟩)))
        (ascii "k") = none ∧ 5 ≤ 20 ∧
      GenericDb.live (Expiration.ops 20)
        (runCommands parseU64
          (Function.update (fun _ => none) (ascii "k") (some (ascii "v", ⟨.string, .at 3⟩)))
          ([(10, DbCalls.healthy,
              (⟨[ascii "expire", ascii "k", ascii "100"], by decide⟩ : RedisCommand))].map
            fun step => (Expiration.ops step.1, step.2.1, step.2.2))).2 (ascii "k") = none :=
  ⟨by decide, rfl, by decide,
    expired_key_stays_gone parseU64 _ _ 5 _ (by decide) (by rfl) 20 (by decide)⟩

/-! ## Commands the table does not mark as writes -/

/-- The default table marks DEL and EXPIRE, the generic commands that change the key space, as
writes. -/
theorem default_marks_del_expire_write : ∀ e ∈ CommandsManager.default.cmds,
    (match e.2.name with | .del | .expire => e.2.isWriteCommand | _ => true) = true := by
  decide

theorem isWriteCommand_of_del_or_expire (command : RedisCommand)
    (h : command.metadata.name = .del ∨ command.metadata.name = .expire) :
    command.metadata.isWriteCommand = true := by
  unfold RedisCommand.metadata CommandsManager.metadata at h ⊢
  revert h
  cases hl : CommandsManager.default.cmds.lookup command.mainCommand with
  | none => rintro (h | h) <;> cases h
  | some md =>
    intro h
    have hmd := default_marks_del_expire_write _ (CommandsManager.mem_of_lookup_eq_some hl)
    dsimp only at h ⊢
    rcases h with h | h <;> simpa only [h] using hmd

/-- A command that the table does not mark as a write deletes only entries no reader
observes. -/
theorem handleCommand_purges_of_not_write (ops : ExpirationOps E) (calls : DbCalls)
    (ks : KeySpace E) (command : RedisCommand)
    (hread : command.metadata.isWriteCommand = false) :
    Purges ops ks (handleCommand parse ops calls ks command).2 := by
  have hwrite := isWriteCommand_of_del_or_expire command
  rcases handleCommand_effect parse ops calls ks command with h | ⟨hname, -⟩
  · refine RemovesOnly.mono (fun key hk => hk.resolve_right fun ⟨hname, _⟩ => ?_) h
    simp [hwrite (.inl hname)] at hread
  · simp [hwrite (.inr hname)] at hread

/-- **Commands the table does not mark as writes change nothing a reader observes.**  Over any
run of generic commands none of which the command table marks as a write, at instants up to
`now`, whatever each `GenericDb` call returns and whatever the parser, a reader at `now`
observes every key as before the run: their reads delete only entries that had expired.  What a
replica that refuses write commands, and a read under a shared lock, rely on. -/
theorem non_write_run_keeps_view (ks : KeySpace Expiration)
    (steps : List (Nat × DbCalls × RedisCommand))
    (hread : ∀ step ∈ steps, step.2.2.metadata.isWriteCommand = false) (now : Nat)
    (hsteps : ∀ step ∈ steps, step.1 ≤ now) (key : Bytes) :
    GenericDb.live (Expiration.ops now)
        (runCommands parse ks
          (steps.map fun step => (Expiration.ops step.1, step.2.1, step.2.2))).2 key =
      GenericDb.live (Expiration.ops now) ks key := by
  induction steps generalizing ks with
  | nil => rfl
  | cons step steps ih =>
    obtain ⟨s, calls, command⟩ := step
    have hpurge := handleCommand_purges_of_not_write parse (Expiration.ops s) calls ks command
      (hread (s, calls, command) (List.mem_cons_self _ _))
    rw [List.map_cons, runCommands_cons_snd, ih _ (fun step h => hread step (List.mem_cons_of_mem _ h))
      (fun step h => hsteps step (List.mem_cons_of_mem _ h))]
    exact hpurge.live_eq_of_le (hsteps (s, calls, command) (List.mem_cons_self _ _)) key

/-- TTL and EXISTS, neither a write, at instants 10 and 12: the TTL's read deletes the entry
that expired at 5, and a reader at 20 still observes nothing there. -/
theorem ttl_exists_keep_view :
    (∀ step ∈ [(10, (⟨fun _ => none, fun _ => true, fun _ => none⟩ : DbCalls),
          (⟨[ascii "ttl", ascii "k"], by decide⟩ : RedisCommand)),
        (12, DbCalls.healthy, ⟨[ascii "EXISTS", ascii "k", ascii "j"], by decide⟩)],
      step.2.2.metadata.isWriteCommand = false) ∧
    (∀ step ∈ [(10, (⟨fun _ => none, fun _ => true, fun _ => none⟩ : DbCalls),
          (⟨[ascii "ttl", ascii "k"], by decide⟩ : RedisCommand)),
        (12, DbCalls.healthy, ⟨[ascii "EXISTS", ascii "k", ascii "j"], by decide⟩)],
      step.1 ≤ 20) ∧
    GenericDb.live (Expiration.ops 20)
        (runCommands parseU64
          (Function.update (fun _ => none) (ascii "k") (some (ascii "v", ⟨.string, .at 5⟩)))
          ([(10, (⟨fun _ => none, fun _ => true, fun _ => none⟩ : DbCalls),
              (⟨[ascii "ttl", ascii "k"], by decide⟩ : RedisCommand)),
            (12, DbCalls.healthy, ⟨[ascii "EXISTS", ascii "k", ascii "j"], by decide⟩)].map
            fun step => (Expiration.ops step.1, step.2.1, step.2.2))).2 (ascii "k") =
      GenericDb.live (Expiration.ops 20)
        (Function.update (fun _ => none) (ascii "k") (some (ascii "v", ⟨.string, .at 5⟩)))
        (ascii "k") :=
  ⟨by decide, by decide, non_write_run_keeps_view parseU64 _ _ (by decide) 20 (by decide) _⟩

end GenericCommands

end SableDb
