import SableDb.Storage.GenericDb
import SableDb.Replication.StorageUpdates
import Mathlib.Data.Finset.Card

/-!
# `GenericCommands`: DEL, EXISTS, TTL and EXPIRE

Each handler as the source runs it once the dispatcher has routed the command to it: its own
arity check, its loop or its checks, the reply it writes and the key space it leaves.  Every
`GenericDb` call takes its outcome from the command's `DbCalls`, and the error of a call or of an
expiration helper leaves the handler with `?`: the handler returns it with the key space as the
calls before it left it, so a DEL whose third deletion fails keeps the first two.

DEL and EXISTS walk the same argument list: EXISTS counts every position whose key a reader
observes, DEL counts each such key once, since its first occurrence removes it.  EXPIRE parses its seconds
before it looks at the key, but it looks at the key before it reads the modifier, so the reply
to an unknown modifier depends on whether the key exists.
-/

namespace SableDb

/-- `isize::MAX`: no `Vec` holds more entries. -/
def isizeMax : Nat := 2 ^ 63 - 1

/-- Modelled from the spec: `BytesMutUtils::to_string`, one character per byte (the names and
modifiers of commands are ASCII). -/
def BytesMutUtils.toString (b : Bytes) : String := ⟨b.map fun c => Char.ofNat c.toNat⟩

/-- `str::to_lowercase`, on its ASCII letters: the model keeps every other character as it is,
so it agrees with Rust on ASCII text. -/
def toLowercase (s : String) : String := ⟨s.data.map Char.toLower⟩

/-- The bytes of ASCII text. -/
def ascii (s : String) : Bytes := s.data.map fun c => c.toNat.toUInt8

/-- `str::as_bytes`: the UTF-8 bytes of a string. -/
def utf8Bytes (s : String) : Bytes := s.data.flatMap String.utf8EncodeChar

/-- Modelled from the spec: a parsed command, its argv with the command's name first.  The argv
is a `Vec`, so it has at most `isize::MAX` entries. -/
structure RedisCommand where
  args : List Bytes
  length_le : args.length ≤ isizeMax

namespace RedisCommand

/-- `RedisCommand::arg_count`. -/
def argCount (c : RedisCommand) : Nat := c.args.length

/-- Modelled from the spec: `RedisCommand::main_command`, the lowercased name. -/
def mainCommand (c : RedisCommand) : String := toLowercase (BytesMutUtils.toString (c.args.headD []))

/-- `RedisCommand::arg`. -/
def arg (c : RedisCommand) (i : Nat) : Option Bytes := c.args[i]?

/-- The keys after the name are fewer than `u64::MAX`, so no count over them saturates. -/
theorem tail_length_lt (c : RedisCommand) : c.args.tail.length < u64Max := by
  have h := c.length_le
  simp only [List.length_tail, isizeMax, u64Max] at h ⊢
  omega

end RedisCommand

/-- `command_arg_at!`: an argument that the arity check has shown to be there. -/
def commandArgAt (c : RedisCommand) (i : Nat) : Bytes := c.args.getD i []

/-- What a generic command writes to the response buffer: a RESP integer (`number`,
`number_usize`, `number_i64`, `number_u64`) or a RESP error (`error_string`). -/
inductive Reply
  | integer (n : Int)
  | error (message : String)
  deriving DecidableEq, Repr

/-- Modelled from the spec: `ErrorStrings::VALUE_NOT_AN_INT_OR_OUT_OF_RANGE`. -/
def ErrorStrings.valueNotAnIntOrOutOfRange : String := "ERR value is not an integer or out of range"

/-- Modelled from the spec: `check_args_count!`.  A command with fewer than `expected` arguments
is answered with the arity error, and the handler returns. -/
def checkArgsCount (command : RedisCommand) (expected : Nat) : Option Reply :=
  if command.argCount < expected then
    some (.error ("ERR wrong number of arguments for '" ++ command.mainCommand ++ "'"))
  else none

theorem checkArgsCount_eq_some {command : RedisCommand} {expected : Nat} {reply : Reply}
    (h : checkArgsCount command expected = some reply) :
    reply = .error ("ERR wrong number of arguments for '" ++ command.mainCommand ++ "'") := by
  unfold checkArgsCount at h
  split at h
  · exact (Option.some.inj h).symm
  · cases h

theorem checkArgsCount_of_le {command : RedisCommand} {expected : Nat}
    (h : expected ≤ command.argCount) : checkArgsCount command expected = none :=
  if_neg (Nat.not_lt.2 h)

namespace GenericCommands

open GenericDb (RemovesOnly Purges)

variable {E : Type} (ops : ExpirationOps E)

/-! ## DEL and EXISTS -/

/-- `GenericCommands::query_key_type`: the type tag of the entry `get` returns. -/
def queryKeyType (ks : KeySpace E) (userKey : Bytes) (fault : Option SableError) (purge : Bool) :
    Except SableError (Option ValueType) × KeySpace E :=
  let read := GenericDb.get ops ks userKey fault purge
  (read.1.map (Option.map (·.2.valueType)), read.2)

/-- `deleted_items.saturating_add(1)` once a removal has returned. -/
def countRemoval (deletedItems : Nat) (removal : Except SableError Unit × KeySpace E) :
    Except SableError Nat × KeySpace E :=
  (removal.1.map fun _ => saturatingAdd deletedItems 1, removal.2)

/-- One pass of `del`'s loop, over the key at position `i` of its arguments: `deleted_items`, or
the error a call returned, which `?` carries out of the loop; and the key space the calls left. -/
def delKey (calls : DbCalls) :
    Except SableError Nat × KeySpace E → Nat × Bytes → Except SableError Nat × KeySpace E
  | (.error e, ks), _ => (.error e, ks)
  | (.ok deletedItems, ks), (i, userKey) =>
    match queryKeyType ops ks userKey (calls.readFault i) (calls.purge i) with
    | (.error e, ks) => (.error e, ks)
    | (.ok (some .string), ks) =>
      countRemoval deletedItems (GenericDb.delete ks userKey (calls.writeFault i))
    | (.ok (some .list), ks) =>
      countRemoval deletedItems (Types.List.remove ks userKey (calls.writeFault i))
    | (.ok (some _), ks) =>
      countRemoval deletedItems (GenericDb.delete ks userKey (calls.writeFault i))
    | (.ok none, ks) => (.ok deletedItems, ks)

/-- `GenericCommands::del`: the reply or the error, and the key space it leaves. -/
def del (calls : DbCalls) (ks : KeySpace E) (command : RedisCommand) :
    Except SableError Reply × KeySpace E :=
  match checkArgsCount command 2 with
  | some reply => (.ok reply, ks)
  | none =>
    let done := command.args.tail.enum.foldl (delKey ops calls) (.ok 0, ks)
    (done.1.map fun (deletedItems : Nat) => .integer deletedItems, done.2)

/-- One pass of `exists`' loop, over the key at position `i`: `items_found`, or the error of the
read; and the key space the read left. -/
def existsKey (calls : DbCalls) :
    Except SableError Nat × KeySpace E → Nat × Bytes → Except SableError Nat × KeySpace E
  | (.error e, ks), _ => (.error e, ks)
  | (.ok itemsFound, ks), (i, userKey) =>
    let read := GenericDb.contains ops ks userKey (calls.readFault i) (calls.purge i)
    (read.1.map fun found => if found then saturatingAdd itemsFound 1 else itemsFound, read.2)

/-- `GenericCommands::exists`. -/
def «exists» (calls : DbCalls) (ks : KeySpace E) (command : RedisCommand) :
    Except SableError Reply × KeySpace E :=
  match checkArgsCount command 2 with
  | some reply => (.ok reply, ks)
  | none =>
    let done := command.args.tail.enum.foldl (existsKey ops calls) (.ok 0, ks)
    (done.1.map fun (itemsFound : Nat) => .integer itemsFound, done.2)

/-- Whatever the type of a key a reader observes, DEL's loop removes it and counts it; a key it
does not observe is not counted, and the read may delete its expired entry. -/
theorem delKey_ok (calls : DbCalls) (n : Nat) (ks : KeySpace E) (i : Nat) (userKey : Bytes) :
    delKey ops calls (.ok n, ks) (i, userKey) =
      match calls.readFault i with
      | some e => (.error e, ks)
      | none =>
        if GenericDb.isLive ops ks userKey then
          countRemoval n (GenericDb.delete ks userKey (calls.writeFault i))
        else (.ok n, if calls.purge i then GenericDb.purgeExpired ops ks userKey else ks) := by
  dsimp only [delKey, queryKeyType, GenericDb.get]
  cases calls.readFault i with
  | some e => rfl
  | none =>
    unfold GenericDb.isLive
    cases hl : GenericDb.live ops ks userKey with
    | none => rfl
    | some entry =>
      rw [GenericDb.purgeExpired_of_live_eq_some ops hl, ite_self]
      obtain ⟨_, ⟨_ | _ | _ | _, _⟩⟩ := entry <;> rfl

theorem existsKey_ok (calls : DbCalls) {i : Nat} (h : calls.readFault i = none) (n : Nat)
    (ks : KeySpace E) (userKey : Bytes) :
    existsKey ops calls (.ok n, ks) (i, userKey) =
      (.ok (if GenericDb.isLive ops ks userKey then saturatingAdd n 1 else n),
        if calls.purge i then GenericDb.purgeExpired ops ks userKey else ks) := by
  dsimp only [existsKey, GenericDb.contains]
  rw [h]
  rfl

/-! ### What DEL and EXISTS leave, whatever their calls return -/

/-- DEL's loop removes at most the key it is at. -/
theorem removesOnly_delKey (calls : DbCalls) (acc : Except SableError Nat × KeySpace E) (i : Nat)
    (userKey : Bytes) : RemovesOnly (· = userKey) acc.2 (delKey ops calls acc (i, userKey)).2 := by
  obtain ⟨_ | n, ks⟩ := acc
  · exact RemovesOnly.refl _ ks
  · rw [delKey_ok]
    cases calls.readFault i with
    | some => exact RemovesOnly.refl _ ks
    | none =>
      dsimp only
      split
      · exact GenericDb.removesOnly_delete ks userKey _
      · split
        · exact RemovesOnly.mono (fun _ => And.left) (GenericDb.removesOnly_purgeExpired ops ks userKey)
        · exact RemovesOnly.refl _ ks

theorem removesOnly_foldl_delKey (calls : DbCalls) (keys : List Bytes) (i : Nat)
    (acc : Except SableError Nat × KeySpace E) :
    RemovesOnly (· ∈ keys) acc.2 ((keys.enumFrom i).foldl (delKey ops calls) acc).2 := by
  induction keys generalizing i acc with
  | nil => exact RemovesOnly.refl _ _
  | cons key keys ih =>
    exact ((removesOnly_delKey ops calls acc i key).mono
      fun _ (h : _ = key) => h ▸ List.mem_cons_self _ _).trans
      ((ih (i + 1) _).mono fun _ => List.mem_cons_of_mem _)

/-- **DEL removes only keys it was given**, whatever its calls return. -/
theorem del_removesOnly (calls : DbCalls) (ks : KeySpace E) (command : RedisCommand) :
    RemovesOnly (· ∈ command.args.tail) ks (del ops calls ks command).2 := by
  unfold del
  split
  · exact RemovesOnly.refl _ ks
  · exact removesOnly_foldl_delKey ops calls _ 0 _

theorem purges_foldl_existsKey (calls : DbCalls) (keys : List Bytes) (i : Nat)
    (acc : Except SableError Nat × KeySpace E) :
    Purges ops acc.2 ((keys.enumFrom i).foldl (existsKey ops calls) acc).2 := by
  induction keys generalizing i acc with
  | nil => exact RemovesOnly.refl _ _
  | cons key keys ih =>
    refine GenericDb.Purges.trans ops ?_ (ih (i + 1) _)
    obtain ⟨_ | n, ks⟩ := acc
    · exact RemovesOnly.refl _ ks
    · exact GenericDb.purges_get ops ks key (calls.readFault i) (calls.purge i)

/-- **EXISTS deletes only entries no reader observes**, whatever its calls return. -/
theorem exists_purges (calls : DbCalls) (ks : KeySpace E) (command : RedisCommand) :
    Purges ops ks («exists» ops calls ks command).2 := by
  unfold «exists»
  split
  · exact RemovesOnly.refl _ ks
  · exact purges_foldl_existsKey ops calls _ 0 _

/-! ### DEL and EXISTS when their calls succeed -/

/-- DEL's loop has gone through the keys `done` of `ks₀`, every call succeeding: it has removed
only keys of `done`, and every one of them that a reader observed in `ks₀`. -/
structure Deleted (ks₀ : KeySpace E) (done : Finset Bytes) (ks : KeySpace E) : Prop where
  removes : RemovesOnly (· ∈ done) ks₀ ks
  live_removed : ∀ key ∈ done, GenericDb.isLive ops ks₀ key → ks key = none

namespace Deleted

variable {ops} {ks₀ ks : KeySpace E} {done : Finset Bytes}

theorem empty (ks₀ : KeySpace E) : Deleted ops ks₀ ∅ ks₀ :=
  ⟨RemovesOnly.refl _ ks₀, fun _ h => absurd h (Finset.not_mem_empty _)⟩

/-- A reader observes the keys it observed in `ks₀` that the loop has not reached. -/
theorem isLive_eq (h : Deleted ops ks₀ done ks) (key : Bytes) :
    GenericDb.isLive ops ks key = (GenericDb.isLive ops ks₀ key && decide (key ∉ done)) := by
  by_cases hd : key ∈ done
  · have hgone : GenericDb.isLive ops ks key = false := by
      rcases h.removes key with hk | ⟨-, hk⟩
      · cases hl : GenericDb.isLive ops ks₀ key
        · rw [GenericDb.isLive_congr ops hk, hl]
        · exact GenericDb.isLive_of_eq_none ops (h.live_removed key hd hl)
      · exact GenericDb.isLive_of_eq_none ops hk
    simp [hgone, hd]
  · rcases h.removes key with hk | ⟨hk, -⟩
    · simp [GenericDb.isLive_congr ops hk, hd]
    · exact absurd hk hd

theorem delete (h : Deleted ops ks₀ done ks) (userKey : Bytes) :
    Deleted ops ks₀ (insert userKey done) (Function.update ks userKey none) where
  removes := (h.removes.mono fun _ => Finset.mem_insert_of_mem).update_none
    (Finset.mem_insert_self _ _)
  live_removed key hd hl := by
    by_cases hk : key = userKey
    · rw [hk, Function.update_same]
    · rw [Function.update_noteq hk]
      exact h.live_removed key ((Finset.mem_insert.1 hd).resolve_left hk) hl

/-- A key the reader does not observe: the loop passes it, deleting at most its expired entry. -/
theorem insert_of_not_live (h : Deleted ops ks₀ done ks) {userKey : Bytes}
    (hl : GenericDb.isLive ops ks userKey = false) (purge : Bool) :
    Deleted ops ks₀ (insert userKey done)
      (if purge then GenericDb.purgeExpired ops ks userKey else ks) := by
  have hks : RemovesOnly (· = userKey) ks
      (if purge then GenericDb.purgeExpired ops ks userKey else ks) := by
    split
    · exact RemovesOnly.mono (fun _ => And.left) (GenericDb.removesOnly_purgeExpired ops ks userKey)
    · exact RemovesOnly.refl _ ks
  refine ⟨(h.removes.mono fun _ => Finset.mem_insert_of_mem).trans
    (hks.mono fun key (hk : key = userKey) => hk ▸ Finset.mem_insert_self _ _),
    fun key hd hl₀ => hks.eq_none ?_⟩
  -- The key was reached before: it is in `done`, or it is `userKey`, which a reader observed in
  -- `ks₀` and no longer observes.
  refine h.live_removed key ((Finset.mem_insert.1 hd).elim (fun hk => ?_) id) hl₀
  subst hk
  simpa [h.isLive_eq, hl₀] using hl

end Deleted

/-- **Step lemma of DEL's loop.**  From a key space `Deleted` through `done`, with the count of
the keys of `done` a reader observed in `ks₀`, one more key either fails with its read's or its
delete's error and changes nothing, or leads to `insert userKey done`. -/
theorem delKey_deleted (calls : DbCalls) {ks₀ ks : KeySpace E} {done : Finset Bytes}
    (h : Deleted ops ks₀ done ks) (i : Nat) (userKey : Bytes)
    (hcount : (done.filter (GenericDb.isLive ops ks₀ ·)).card < u64Max) :
    (∃ e, delKey ops calls (.ok (done.filter (GenericDb.isLive ops ks₀ ·)).card, ks) (i, userKey) =
        (.error e, ks) ∧ (calls.readFault i = some e ∨ calls.writeFault i = some e)) ∨
    ∃ ks', delKey ops calls (.ok (done.filter (GenericDb.isLive ops ks₀ ·)).card, ks) (i, userKey) =
      (.ok ((insert userKey done).filter (GenericDb.isLive ops ks₀ ·)).card, ks') ∧
      Deleted ops ks₀ (insert userKey done) ks' := by
  rw [delKey_ok]
  cases hread : calls.readFault i with
  | some e => exact .inl ⟨e, rfl, .inl rfl⟩
  | none =>
  dsimp only
  by_cases hl : GenericDb.isLive ops ks userKey
  · -- A key first reached and observed: removed, and the count goes up by one.
    have hnew : GenericDb.isLive ops ks₀ userKey ∧ userKey ∉ done := by
      simpa [h.isLive_eq] using hl
    have hmem : userKey ∉ done.filter (GenericDb.isLive ops ks₀ ·) := fun hmem =>
      hnew.2 (Finset.mem_filter.1 hmem).1
    rw [if_pos hl, countRemoval]
    cases hwrite : calls.writeFault i with
    | some e => exact .inl ⟨e, rfl, .inr rfl⟩
    | none =>
      refine .inr ⟨_, ?_, h.delete userKey⟩
      rw [GenericDb.delete, Finset.filter_insert, if_pos hnew.1,
        Finset.card_insert_of_not_mem hmem, saturatingAdd_of_le hcount]
      rfl
  · -- A key already reached, or not observed: the count stays.
    have hsame : (insert userKey done).filter (GenericDb.isLive ops ks₀ ·) =
        done.filter (GenericDb.isLive ops ks₀ ·) := by
      rw [Finset.filter_insert]
      split_ifs with h₀
      · exact Finset.insert_eq_of_mem (Finset.mem_filter.2 ⟨by simpa [h.isLive_eq, h₀] using hl, h₀⟩)
      · rfl
    exact .inr ⟨_, by rw [if_neg hl, hsame], h.insert_of_not_live (Bool.eq_false_iff.2 hl) _⟩

/-- Once a call has failed, DEL's loop carries the error out unchanged: the `?` exit. -/
theorem foldl_delKey_error (calls : DbCalls) (e : SableError) (ks : KeySpace E)
    (keys : List Bytes) (i : Nat) :
    (keys.enumFrom i).foldl (delKey ops calls) (.error e, ks) = (.error e, ks) := by
  induction keys generalizing i with
  | nil => rfl
  | cons key keys ih => exact ih (i + 1)

/-- **Run lemma of DEL's loop.**  The loop goes through all its keys, or fails at the read or
the delete of its `j`-th key, having gone through the `j` keys before it. -/
theorem foldl_delKey (calls : DbCalls) (ks₀ : KeySpace E) (keys : List Bytes) (i : Nat)
    {done : Finset Bytes} {ks : KeySpace E} (h : Deleted ops ks₀ done ks)
    (hlen : done.card + keys.length ≤ u64Max) :
    (∃ ks', (keys.enumFrom i).foldl (delKey ops calls)
        (.ok (done.filter (GenericDb.isLive ops ks₀ ·)).card, ks) =
      (.ok ((done ∪ keys.toFinset).filter (GenericDb.isLive ops ks₀ ·)).card, ks') ∧
      Deleted ops ks₀ (done ∪ keys.toFinset) ks') ∨
    ∃ j < keys.length, ∃ e, (calls.readFault (i + j) = some e ∨ calls.writeFault (i + j) = some e) ∧
      ∃ ks', (keys.enumFrom i).foldl (delKey ops calls)
          (.ok (done.filter (GenericDb.isLive ops ks₀ ·)).card, ks) = (.error e, ks') ∧
        Deleted ops ks₀ (done ∪ (keys.take j).toFinset) ks' := by
  induction keys generalizing i done ks with
  | nil => exact .inl ⟨ks, by simp, by simpa using h⟩
  | cons key keys ih =>
    simp only [List.length_cons] at hlen
    have hcard := Finset.card_filter_le done (GenericDb.isLive ops ks₀ ·)
    rw [List.enumFrom_cons, List.foldl_cons]
    rcases delKey_deleted ops calls h i key (by omega) with ⟨e, hstep, hfault⟩ | ⟨ks₁, hstep, h₁⟩
    · -- The first key fails.
      exact .inr ⟨0, Nat.succ_pos _, e, hfault, ks, by rw [hstep, foldl_delKey_error],
        by simpa using h⟩
    · rw [hstep]
      rcases ih (i + 1) h₁ (by have := Finset.card_insert_le key done; omega) with
        ⟨ks₂, hrun, h₂⟩ | ⟨j, hj, e, hfault, ks₂, hrun, h₂⟩
      · have hset : insert key done ∪ keys.toFinset = done ∪ (key :: keys).toFinset := by
          rw [List.toFinset_cons, Finset.insert_union, Finset.union_insert]
        exact .inl ⟨ks₂, by rw [hrun, hset], hset ▸ h₂⟩
      · have hset : insert key done ∪ (keys.take j).toFinset =
            done ∪ ((key :: keys).take (j + 1)).toFinset := by
          rw [List.take_succ_cons, List.toFinset_cons, Finset.insert_union, Finset.union_insert]
        exact .inr ⟨j + 1, Nat.succ_lt_succ hj, e,
          by rwa [Nat.add_right_comm, Nat.add_assoc] at hfault, ks₂, hrun, hset ▸ h₂⟩

/-- **DEL's reply and key space when its calls succeed.**  With at least one key, DEL replies
the number of distinct keys among its arguments that a reader observed, and removes each of
them. -/
theorem del_deleted (calls : DbCalls) (hcalls : calls.Succeed) (ks : KeySpace E)
    (command : RedisCommand) (h : 2 ≤ command.argCount) :
    (del ops calls ks command).1 =
      .ok (.integer (command.args.tail.toFinset.filter (GenericDb.isLive ops ks ·)).card) ∧
    Deleted ops ks command.args.tail.toFinset (del ops calls ks command).2 := by
  rcases foldl_delKey ops calls ks command.args.tail 0 (Deleted.empty ks)
    (by simpa using command.tail_length_lt.le) with ⟨ks', hrun, hdel⟩ | ⟨j, -, e, hfault, -⟩
  · simp only [Finset.empty_union, Finset.filter_empty, Finset.card_empty] at hrun hdel
    simp only [del, checkArgsCount_of_le h, List.enum_eq_enumFrom, hrun]
    exact ⟨rfl, hdel⟩
  · rw [(hcalls _).1, (hcalls _).2, or_self] at hfault
    cases hfault

/-- **A failing DEL keeps the deletions before its failing call.**  Whatever its calls return, a
DEL that returns an error failed at the read or at the delete of one of its keys, and it has
removed every key before that one that a reader observed, and no other key: deletions that its
error reply reports nowhere. -/
theorem del_error_keeps_deletions (calls : DbCalls) (ks : KeySpace E) (command : RedisCommand)
    (e : SableError) (herr : (del ops calls ks command).1 = .error e) :
    ∃ j < command.args.tail.length, (calls.readFault j = some e ∨ calls.writeFault j = some e) ∧
      Deleted ops ks (command.args.tail.take j).toFinset (del ops calls ks command).2 := by
  cases hc : checkArgsCount command 2 with
  | some reply =>
    simp only [del, hc] at herr
    cases herr
  | none =>
  rcases foldl_delKey ops calls ks command.args.tail 0 (Deleted.empty ks)
    (by simpa using command.tail_length_lt.le) with ⟨ks', hrun, -⟩ | ⟨j, hj, e', hfault, ks', hrun, hdel⟩
  · simp only [Finset.filter_empty, Finset.card_empty] at hrun
    simp only [del, hc, List.enum_eq_enumFrom, hrun] at herr
    cases herr
  · simp only [Finset.filter_empty, Finset.card_empty, Finset.empty_union, Nat.zero_add] at hrun hdel hfault
    simp only [del, hc, List.enum_eq_enumFrom, hrun] at herr ⊢
    obtain rfl : e' = e := Except.error.inj herr
    exact ⟨j, hj, hfault, hdel⟩

/-- A DEL of two live keys whose second delete fails: it returns the error, having removed the
first key and kept the second. -/
theorem del_error_after_first_key :
    let calls : DbCalls :=
      ⟨fun _ => none, fun _ => false, fun i => if i = 1 then some (.otherError "disk full") else none⟩
    let ks : KeySpace Expiration :=
      Function.update (Function.update (fun _ => none) (ascii "a") (some ([], ⟨.string, .absent⟩)))
        (ascii "b") (some ([], ⟨.string, .absent⟩))
    let command : RedisCommand := ⟨[ascii "del", ascii "a", ascii "b"], by decide⟩
    (del (Expiration.ops 0) calls ks command).1 = .error (.otherError "disk full") ∧
    (∃ j < command.args.tail.length,
      (calls.readFault j = some (.otherError "disk full") ∨
        calls.writeFault j = some (.otherError "disk full")) ∧
      Deleted (Expiration.ops 0) ks (command.args.tail.take j).toFinset
        (del (Expiration.ops 0) calls ks command).2) ∧
    (del (Expiration.ops 0) calls ks command).2 (ascii "a") = none ∧
    (del (Expiration.ops 0) calls ks command).2 (ascii "b") = ks (ascii "b") :=
  ⟨rfl, del_error_keeps_deletions (Expiration.ops 0)
    ⟨fun _ => none, fun _ => false, fun i => if i = 1 then some (.otherError "disk full") else none⟩
    (Function.update (Function.update (fun _ => none) (ascii "a") (some ([], ⟨.string, .absent⟩)))
      (ascii "b") (some ([], ⟨.string, .absent⟩)))
    ⟨[ascii "del", ascii "a", ascii "b"], by decide⟩ (.otherError "disk full") rfl, rfl, rfl⟩

/-- **Run lemma of EXISTS' loop.**  When its reads succeed, the loop counts the positions whose
key a reader observes; what the reads delete, no reader observes. -/
theorem foldl_existsKey (calls : DbCalls) (hcalls : ∀ i, calls.readFault i = none)
    (ks₀ : KeySpace E) (keys : List Bytes) (i n : Nat) {ks : KeySpace E} (hks : Purges ops ks₀ ks)
    (hlen : n + keys.length ≤ u64Max) :
    ((keys.enumFrom i).foldl (existsKey ops calls) (.ok n, ks)).1 =
      .ok (n + keys.countP (GenericDb.isLive ops ks₀)) := by
  induction keys generalizing i n ks with
  | nil => rfl
  | cons key keys ih =>
    simp only [List.length_cons] at hlen
    have hlive : GenericDb.isLive ops ks key = GenericDb.isLive ops ks₀ key := by
      rw [GenericDb.isLive, GenericDb.isLive, GenericDb.Purges.live_eq ops hks]
    have hnext : Purges ops ks₀ (if calls.purge i then GenericDb.purgeExpired ops ks key else ks) :=
      GenericDb.Purges.trans ops hks (GenericDb.purges_get ops ks key none (calls.purge i))
    rw [List.enumFrom_cons, List.foldl_cons, existsKey_ok ops calls (hcalls i), hlive]
    by_cases hk : GenericDb.isLive ops ks₀ key
    · rw [if_pos hk, saturatingAdd_of_le (by omega), ih _ _ hnext (by omega),
        List.countP_cons_of_pos _ _ hk]
      congr 1
      omega
    · rw [if_neg hk, ih _ _ hnext (by omega), List.countP_cons_of_neg _ _ hk]

/-- **EXISTS' reply when its reads succeed.**  With at least one key, EXISTS counts every
position whose key a reader observes. -/
theorem exists_reply (calls : DbCalls) (hcalls : ∀ i, calls.readFault i = none) (ks : KeySpace E)
    (command : RedisCommand) (h : 2 ≤ command.argCount) :
    («exists» ops calls ks command).1 =
      .ok (.integer (command.args.tail.countP (GenericDb.isLive ops ks))) := by
  simp only [«exists», checkArgsCount_of_le h, List.enum_eq_enumFrom,
    foldl_existsKey ops calls hcalls ks command.args.tail 0 0 (RemovesOnly.refl _ ks)
      (by simpa using command.tail_length_lt.le), Nat.zero_add]
  rfl

theorem two_le_argCount {command : RedisCommand} {keys : List Bytes}
    (h : command.args.tail = keys) (hkeys : keys ≠ []) : 2 ≤ command.argCount := by
  have := List.length_pos.2 hkeys
  rw [← h, List.length_tail] at this
  simp only [RedisCommand.argCount]
  omega

/-- **DEL and EXISTS agree on existence.**  For every key space and every non-empty key list,
duplicates allowed, when their calls succeed (a read may or may not delete the expired entry it
meets): EXISTS counts the positions whose key a reader observes, DEL replies the number of
distinct such keys, EXISTS replies 0 after the DEL, and the DEL leaves every other key as it
was. -/
theorem del_exists_agree (ks : KeySpace E) (delCalls existsCalls existsCalls' : DbCalls)
    (delCommand existsCommand : RedisCommand) (keys : List Bytes)
    (hdel : delCommand.args.tail = keys) (hexists : existsCommand.args.tail = keys)
    (hkeys : keys ≠ []) (hdelOk : delCalls.Succeed)
    (hexistsOk : ∀ i, existsCalls.readFault i = none)
    (hexistsOk' : ∀ i, existsCalls'.readFault i = none) :
    («exists» ops existsCalls ks existsCommand).1 =
      .ok (.integer (keys.countP (GenericDb.isLive ops ks))) ∧
    (del ops delCalls ks delCommand).1 =
      .ok (.integer (keys.toFinset.filter (GenericDb.isLive ops ks ·)).card) ∧
    («exists» ops existsCalls' (del ops delCalls ks delCommand).2 existsCommand).1 =
      .ok (.integer 0) ∧
    ∀ key ∉ keys, (del ops delCalls ks delCommand).2 key = ks key := by
  have he := two_le_argCount hexists hkeys
  obtain ⟨hreply, hdeleted⟩ := del_deleted ops delCalls hdelOk ks delCommand
    (two_le_argCount hdel hkeys)
  rw [hdel] at hreply hdeleted
  refine ⟨by rw [exists_reply ops existsCalls hexistsOk ks _ he, hexists], hreply, ?_,
    fun key hkey => ?_⟩
  · rw [exists_reply ops existsCalls' hexistsOk' _ _ he, hexists,
      List.countP_eq_zero.2 fun key hkey => by simp [hdeleted.isLive_eq, hkey]]
    rfl
  · rcases del_removesOnly ops delCalls ks delCommand key with hk | ⟨hmem, -⟩
    · exact hk
    · exact absurd (hdel ▸ hmem) hkey

theorem del_exists_agree_repeated_key :
    ((⟨[ascii "del", ascii "k", ascii "k"], by decide⟩ : RedisCommand).args.tail =
        [ascii "k", ascii "k"] ∧
      (⟨[ascii "exists", ascii "k", ascii "k"], by decide⟩ : RedisCommand).args.tail =
        [ascii "k", ascii "k"] ∧
      [ascii "k", ascii "k"] ≠ [] ∧ DbCalls.healthy.Succeed ∧
      (∀ i, DbCalls.healthy.readFault i = none) ∧ (∀ i, DbCalls.healthy.readFault i = none)) ∧
    («exists» (Expiration.ops 0) DbCalls.healthy
        (Function.update (fun _ => none) (ascii "k") (some ([], ⟨.list, .absent⟩)))
        ⟨[ascii "exists", ascii "k", ascii "k"], by decide⟩).1 =
      .ok (.integer ([ascii "k", ascii "k"].countP (GenericDb.isLive (Expiration.ops 0)
        (Function.update (fun _ => none) (ascii "k") (some ([], ⟨.list, .absent⟩)))))) ∧
    (del (Expiration.ops 0) DbCalls.healthy
        (Function.update (fun _ => none) (ascii "k") (some ([], ⟨.list, .absent⟩)))
        ⟨[ascii "del", ascii "k", ascii "k"], by decide⟩).1 =
      .ok (.integer ([ascii "k", ascii "k"].toFinset.filter (GenericDb.isLive (Expiration.ops 0)
        (Function.update (fun _ => none) (ascii "k") (some ([], ⟨.list, .absent⟩))) ·)).card) ∧
    («exists» (Expiration.ops 0) DbCalls.healthy (del (Expiration.ops 0) DbCalls.healthy
        (Function.update (fun _ => none) (ascii "k") (some ([], ⟨.list, .absent⟩)))
        ⟨[ascii "del", ascii "k", ascii "k"], by decide⟩).2
        ⟨[ascii "exists", ascii "k", ascii "k"], by decide⟩).1 = .ok (.integer 0) ∧
    ∀ key ∉ [ascii "k", ascii "k"], (del (Expiration.ops 0) DbCalls.healthy
        (Function.update (fun _ => none) (ascii "k") (some ([], ⟨.list, .absent⟩)))
        ⟨[ascii "del", ascii "k", ascii "k"], by decide⟩).2 key =
      Function.update (fun _ => none) (ascii "k") (some ([], ⟨.list, .absent⟩)) key :=
  ⟨⟨rfl, rfl, List.cons_ne_nil _ _, DbCalls.healthy_succeed, fun _ => rfl, fun _ => rfl⟩,
    del_exists_agree _ _ _ _ _ _ _ _ rfl rfl (List.cons_ne_nil _ _) DbCalls.healthy_succeed
      (fun _ => rfl) (fun _ => rfl)⟩

/- The spec's scenarios 1 and 2, at clock reading 0 with healthy calls: four existing keys of two
types, then a repeated key for EXISTS. -/
example : (del (Expiration.ops 0) DbCalls.healthy
    (Function.update (Function.update (fun _ => none) (ascii "mystr") (some (ascii "myvalue", ⟨.string, .absent⟩)))
      (ascii "mylist_1") (some ([], ⟨.list, .absent⟩)))
    ⟨[ascii "del", ascii "mystr", ascii "mylist_1", ascii "mystr", ascii "nokey"], by decide⟩).1 =
    .ok (.integer 2) := rfl

example : («exists» (Expiration.ops 0) DbCalls.healthy
    (Function.update (Function.update (fun _ => none) (ascii "mykey1") (some (ascii "myvalue", ⟨.string, .absent⟩)))
      (ascii "mykey2") (some (ascii "myvalue1", ⟨.string, .absent⟩)))
    ⟨[ascii "exists", ascii "mykey1", ascii "mykey2", ascii "mykey1"], by decide⟩).1 =
    .ok (.integer 3) := rfl

/-! ## TTL and EXPIRE -/

/-- `GenericCommands::ttl`. -/
def ttl (calls : DbCalls) (ks : KeySpace E) (command : RedisCommand) :
    Except SableError Reply × KeySpace E :=
  match checkArgsCount command 2 with
  | some reply => (.ok reply, ks)
  | none =>
    match GenericDb.get ops ks (commandArgAt command 1) (calls.readFault 0) (calls.purge 0) with
    | (.error e, ks) => (.error e, ks)
    | (.ok (some (_, valueMetadata)), ks) =>
      if !ops.hasTtl valueMetadata.expiration then (.ok (.integer (-1)), ks)
      else ((ops.ttlInSeconds valueMetadata.expiration).map fun seconds => .integer seconds.toNat, ks)
    | (.ok none, ks) => (.ok (.integer (-2)), ks)

/-- **TTL deletes only entries no reader observes**, whatever its read returns. -/
theorem ttl_purges (calls : DbCalls) (ks : KeySpace E) (command : RedisCommand) :
    Purges ops ks (ttl ops calls ks command).2 := by
  unfold ttl
  split
  · exact RemovesOnly.refl _ ks
  · have hread := GenericDb.purges_get ops ks (commandArgAt command 1) (calls.readFault 0)
      (calls.purge 0)
    rcases hget : GenericDb.get ops ks (commandArgAt command 1) (calls.readFault 0) (calls.purge 0)
      with ⟨_ | _ | ⟨_, md⟩, ks'⟩ <;> rw [hget] at hread
    · exact hread
    · exact hread
    · dsimp only
      split <;> exact hread

/-- `expiration.set_ttl_seconds(seconds)?`, `put_expiration(key, &expiration)?` and the reply 1:
the block that every branch of `expire` setting the TTL runs. -/
def setTtl (ks : KeySpace E) (key : Bytes) (expiration : E) (seconds : UInt64)
    (fault : Option SableError) : Except SableError Reply × KeySpace E :=
  match ops.setTtlSeconds expiration seconds with
  | .error e => (.error e, ks)
  | .ok expiration =>
    let write := GenericDb.putExpiration ks key expiration fault
    (write.1.map fun _ => .integer 1, write.2)

/-- A modifier's branch of `expire`: set the TTL when `condition` holds, else reply 0. -/
def setTtlWhen (condition : Bool) (ks : KeySpace E) (key : Bytes) (expiration : E)
    (seconds : UInt64) (fault : Option SableError) : Except SableError Reply × KeySpace E :=
  if condition then setTtl ops ks key expiration seconds fault else (.ok (.integer 0), ks)

/-- `expire`'s match on the lowercased modifier. -/
def expireOption (ks : KeySpace E) (key : Bytes) (expiration : E) (seconds : UInt64)
    (fault : Option SableError) : String → Except SableError Reply × KeySpace E
  | "nx" => setTtlWhen ops (!ops.hasTtl expiration) ks key expiration seconds fault
  | "xx" => setTtlWhen ops (ops.hasTtl expiration) ks key expiration seconds fault
  | "gt" =>
    match ops.ttlInSeconds expiration with
    | .error e => (.error e, ks)
    | .ok ttl => setTtlWhen ops (seconds > ttl) ks key expiration seconds fault
  | "lt" =>
    match ops.ttlInSeconds expiration with
    | .error e => (.error e, ks)
    | .ok ttl => setTtlWhen ops (seconds < ttl) ks key expiration seconds fault
  | option => (.ok (.error ("ERR Unsupported option " ++ option)), ks)

/-- What an EXPIRE on `key`, whose expiration was `expiration`, may leave once it has read it:
any reply but 1 and the key space it found; or the reply 1 with the key's expiration rewritten to
what `set_ttl_seconds` gave. -/
def SetsOnlyTtl (ks : KeySpace E) (key : Bytes) (expiration : E) (seconds : UInt64) :
    Except SableError Reply × KeySpace E → Prop
  | (reply, ks') => reply ≠ .ok (.integer 1) ∧ ks' = ks ∨ reply = .ok (.integer 1) ∧
      ∃ e, ops.setTtlSeconds expiration seconds = .ok e ∧ ks' = GenericDb.setExpiration ks key e

theorem ok_integer_ne_one {n : Int} (h : n ≠ 1) :
    (.ok (.integer n) : Except SableError Reply) ≠ .ok (.integer 1) := fun heq =>
  h (Reply.integer.inj (Except.ok.inj heq))

section SetsOnlyTtl

variable {ops} {ks : KeySpace E} {key : Bytes} {expiration : E} {seconds : UInt64}

theorem setsOnlyTtl_setTtl (fault : Option SableError) :
    SetsOnlyTtl ops ks key expiration seconds (setTtl ops ks key expiration seconds fault) := by
  unfold setTtl
  cases h : ops.setTtlSeconds expiration seconds with
  | error => exact .inl ⟨nofun, rfl⟩
  | ok e =>
    cases fault with
    | some => exact .inl ⟨nofun, rfl⟩
    | none => exact .inr ⟨rfl, e, h, rfl⟩

theorem setsOnlyTtl_setTtlWhen (condition : Bool) (fault : Option SableError) :
    SetsOnlyTtl ops ks key expiration seconds
      (setTtlWhen ops condition ks key expiration seconds fault) := by
  unfold setTtlWhen
  split
  · exact setsOnlyTtl_setTtl fault
  · exact .inl ⟨ok_integer_ne_one (by decide), rfl⟩

/-- Every branch of the modifier match either sets the TTL or writes nothing. -/
theorem setsOnlyTtl_expireOption (fault : Option SableError) (option : String) :
    SetsOnlyTtl ops ks key expiration seconds
      (expireOption ops ks key expiration seconds fault option) := by
  unfold expireOption
  split
  case h_1 | h_2 => exact setsOnlyTtl_setTtlWhen _ fault
  case h_3 | h_4 =>
    cases ops.ttlInSeconds expiration with
    | error => exact .inl ⟨nofun, rfl⟩
    | ok _ => exact setsOnlyTtl_setTtlWhen _ fault
  case h_5 => exact .inl ⟨nofun, rfl⟩

end SetsOnlyTtl

section Expire

variable (parse : Bytes → Option UInt64)

/-- `GenericCommands::expire`, with `parse` for `BytesMutUtils::parse::<u64>` (not in the
repository: the results below hold for any parser). -/
def expire (calls : DbCalls) (ks : KeySpace E) (command : RedisCommand) :
    Except SableError Reply × KeySpace E :=
  match checkArgsCount command 3 with
  | some reply => (.ok reply, ks)
  | none =>
    let key := commandArgAt command 1
    match parse (commandArgAt command 2) with
    | none => (.ok (.error ErrorStrings.valueNotAnIntOrOutOfRange), ks)
    | some seconds =>
      match GenericDb.getExpiration ops ks key (calls.readFault 0) (calls.purge 0) with
      | (.error e, ks) => (.error e, ks)
      | (.ok none, ks) => (.ok (.integer 0), ks)
      | (.ok (some expiration), ks) =>
        match command.arg 3 with
        | none => setTtl ops ks key expiration seconds (calls.writeFault 0)
        | some arg =>
          expireOption ops ks key expiration seconds (calls.writeFault 0)
            (toLowercase (BytesMutUtils.toString arg))

/-- A decimal `u64`: one or more ASCII digits whose value is below 2⁶⁴. -/
def parseU64 (b : Bytes) : Option UInt64 :=
  if b ≠ [] ∧ b.all (fun c => 48 ≤ c.toNat && c.toNat ≤ 57) then
    let n := b.foldl (fun n c => 10 * n + (c.toNat - 48)) 0
    if n < 2 ^ 64 then some (UInt64.ofNat n) else none
  else none

/-- EXPIRE once its seconds have parsed: the read of its key, and then what the modifier says
for a key a reader observes. -/
theorem expire_eq (calls : DbCalls) (ks : KeySpace E) (command : RedisCommand)
    (h : 3 ≤ command.argCount) {seconds : UInt64}
    (hparse : parse (commandArgAt command 2) = some seconds) :
    expire ops parse calls ks command =
      match calls.readFault 0, GenericDb.live ops ks (commandArgAt command 1) with
      | some e, _ => (.error e, ks)
      | none, none =>
        (.ok (.integer 0),
          if calls.purge 0 then GenericDb.purgeExpired ops ks (commandArgAt command 1) else ks)
      | none, some entry =>
        match command.arg 3 with
        | none => setTtl ops ks (commandArgAt command 1) entry.2.expiration seconds (calls.writeFault 0)
        | some arg =>
          expireOption ops ks (commandArgAt command 1) entry.2.expiration seconds
            (calls.writeFault 0) (toLowercase (BytesMutUtils.toString arg)) := by
  simp only [expire, checkArgsCount_of_le h, hparse, GenericDb.getExpiration, GenericDb.get]
  cases calls.readFault 0 with
  | some e => rfl
  | none =>
    cases hl : GenericDb.live ops ks (commandArgAt command 1) with
    | none => rfl
    | some entry =>
      rw [GenericDb.purgeExpired_of_live_eq_some ops hl, ite_self]
      rfl

/-- **EXPIRE checks its seconds first.**  Whatever the key space holds and whatever its calls
would return, an EXPIRE whose seconds do not parse replies the range error and writes
nothing. -/
theorem expire_of_parse_eq_none (calls : DbCalls) (ks : KeySpace E) (command : RedisCommand)
    (h : 3 ≤ command.argCount) (hparse : parse (commandArgAt command 2) = none) :
    expire ops parse calls ks command = (.ok (.error ErrorStrings.valueNotAnIntOrOutOfRange), ks) := by
  simp only [expire, checkArgsCount_of_le h, hparse]

/-- **EXPIRE replies 1 exactly when it rewrites its key's expiration, and rewrites nothing
else.**  Whatever its calls return, an EXPIRE replies something other than 1 and leaves the key
space as a read leaves it, or replies 1 having rewritten the expiration of its key, which a
reader observed, from the one it read to what `set_ttl_seconds` made of it; the key keeps its
value bytes and type, and every other key its entry (`setExpiration_self`,
`setExpiration_of_ne`). -/
theorem expire_sets_only_ttl (calls : DbCalls) (ks : KeySpace E) (command : RedisCommand) :
    (expire ops parse calls ks command).1 ≠ .ok (.integer 1) ∧
      Purges ops ks (expire ops parse calls ks command).2 ∨
    (expire ops parse calls ks command).1 = .ok (.integer 1) ∧ ∃ seconds entry e,
      parse (commandArgAt command 2) = some seconds ∧
      GenericDb.live ops ks (commandArgAt command 1) = some entry ∧
      ops.setTtlSeconds entry.2.expiration seconds = .ok e ∧
      (expire ops parse calls ks command).2 =
        GenericDb.setExpiration ks (commandArgAt command 1) e := by
  by_cases h3 : 3 ≤ command.argCount
  swap
  · obtain ⟨reply, hc⟩ : ∃ reply, checkArgsCount command 3 = some reply :=
      ⟨_, if_pos (Nat.lt_of_not_le h3)⟩
    simp only [expire, hc]
    exact .inl ⟨by rw [checkArgsCount_eq_some hc]; nofun, RemovesOnly.refl _ ks⟩
  cases hseconds : parse (commandArgAt command 2) with
  | none =>
    rw [expire_of_parse_eq_none ops parse calls ks command h3 hseconds]
    exact .inl ⟨nofun, RemovesOnly.refl _ ks⟩
  | some seconds =>
  rw [expire_eq ops parse calls ks command h3 hseconds]
  cases calls.readFault 0 with
  | some e => exact .inl ⟨nofun, RemovesOnly.refl _ ks⟩
  | none =>
  cases hl : GenericDb.live ops ks (commandArgAt command 1) with
  | none =>
    exact .inl ⟨ok_integer_ne_one (by decide),
      GenericDb.purges_get ops ks (commandArgAt command 1) none (calls.purge 0)⟩
  | some entry =>
  have hsets : SetsOnlyTtl ops ks (commandArgAt command 1) entry.2.expiration seconds
      (match command.arg 3 with
        | none => setTtl ops ks (commandArgAt command 1) entry.2.expiration seconds (calls.writeFault 0)
        | some arg =>
          expireOption ops ks (commandArgAt command 1) entry.2.expiration seconds
            (calls.writeFault 0) (toLowercase (BytesMutUtils.toString arg))) := by
    split
    · exact setsOnlyTtl_setTtl _
    · exact setsOnlyTtl_expireOption _ _
  rcases hsets with ⟨hne, hks⟩ | ⟨hreply, e, he, hks⟩
  · exact .inl ⟨hne, fun key => .inl (congrFun hks key)⟩
  · exact .inr ⟨hreply, seconds, entry, e, rfl, rfl, he, hks⟩

/- The spec's scenario 3 at clock reading 0, on a key set with `EX 100`: GT and LT against its TTL
of 100 seconds. -/
example :
    (expire (Expiration.ops 0) parseU64 DbCalls.healthy
      (Function.update (fun _ => none) (ascii "k") (some (ascii "v", ⟨.string, .at 100000000⟩)))
      ⟨[ascii "expire", ascii "k", ascii "90", ascii "GT"], by decide⟩).1 = .ok (.integer 0) ∧
    (expire (Expiration.ops 0) parseU64 DbCalls.healthy
      (Function.update (fun _ => none) (ascii "k") (some (ascii "v", ⟨.string, .at 100000000⟩)))
      ⟨[ascii "expire", ascii "k", ascii "120", ascii "gt"], by decide⟩).1 = .ok (.integer 1) ∧
    (expire (Expiration.ops 0) parseU64 DbCalls.healthy
      (Function.update (fun _ => none) (ascii "k") (some (ascii "v", ⟨.string, .at 100000000⟩)))
      ⟨[ascii "expire", ascii "k", ascii "123", ascii "LT"], by decide⟩).1 = .ok (.integer 0) ∧
    (expire (Expiration.ops 0) parseU64 DbCalls.healthy
      (Function.update (fun _ => none) (ascii "k") (some (ascii "v", ⟨.string, .at 100000000⟩)))
      ⟨[ascii "expire", ascii "k", ascii "90", ascii "lt"], by decide⟩).1 = .ok (.integer 1) :=
  ⟨rfl, rfl, rfl, rfl⟩

theorem arg_three {command : RedisCommand} {name key seconds tok : Bytes} {rest : List Bytes}
    (hargs : command.args = name :: key :: seconds :: tok :: rest) :
    3 ≤ command.argCount ∧ commandArgAt command 1 = key ∧ commandArgAt command 2 = seconds ∧
      command.arg 3 = some tok := by
  simp only [RedisCommand.argCount, commandArgAt, RedisCommand.arg, hargs, List.length_cons,
    List.getD_cons_succ, List.getD_cons_zero, List.getElem?_cons_succ, List.getElem?_cons_zero,
    and_true]
  omega

/-- **An unknown modifier is answered only for an existing key.**  EXPIRE reads the key before
its modifier: with seconds that parse and a fourth argument that is none of `nx`, `xx`, `gt`,
`lt` in any case, its outcome is its read's, turned into `ERR Unsupported option` with the
lowercased argument when a reader observes the key and into 0 when it does not, and it writes
nothing beyond what the read deletes. -/
theorem expire_unknown_option (calls : DbCalls) (ks : KeySpace E) (command : RedisCommand)
    (name key seconds tok : Bytes) (rest : List Bytes) (s : UInt64)
    (hargs : command.args = name :: key :: seconds :: tok :: rest)
    (hparse : parse seconds = some s)
    (htok : toLowercase (BytesMutUtils.toString tok) ∉ ["nx", "xx", "gt", "lt"]) :
    expire ops parse calls ks command =
      let read := GenericDb.get ops ks key (calls.readFault 0) (calls.purge 0)
      (read.1.map fun entry => if entry.isSome then
          .error ("ERR Unsupported option " ++ toLowercase (BytesMutUtils.toString tok))
        else .integer 0, read.2) := by
  obtain ⟨h3, hkey, hseconds, htok3⟩ := arg_three hargs
  simp only [List.mem_cons, List.mem_singleton, List.not_mem_nil, or_false, not_or] at htok
  obtain ⟨hnx, hxx, hgt, hlt⟩ := htok
  rw [expire_eq ops parse calls ks command h3 (hseconds ▸ hparse), hkey]
  cases calls.readFault 0 with
  | some e => rfl
  | none =>
    rw [GenericDb.get_of_none]
    cases hl : GenericDb.live ops ks key with
    | none => rfl
    | some entry =>
      simp only [htok3, GenericDb.purgeExpired_of_live_eq_some ops hl, ite_self]
      exact expireOption.eq_5 ops ks key _ s _ _ hnx hxx hgt hlt

theorem expire_unknown_option_missing_key :
    ((⟨[ascii "expire", ascii "missing", ascii "10", ascii "foo"], by decide⟩ : RedisCommand).args =
        [ascii "expire", ascii "missing", ascii "10", ascii "foo"] ∧
      parseU64 (ascii "10") = some 10 ∧
      toLowercase (BytesMutUtils.toString (ascii "foo")) ∉ ["nx", "xx", "gt", "lt"]) ∧
    expire (Expiration.ops 0) parseU64 DbCalls.healthy (fun _ => none)
        ⟨[ascii "expire", ascii "missing", ascii "10", ascii "foo"], by decide⟩ =
      let read := GenericDb.get (Expiration.ops 0) (fun _ => none) (ascii "missing")
        (DbCalls.healthy.readFault 0) (DbCalls.healthy.purge 0)
      (read.1.map fun entry => if entry.isSome then
          .error ("ERR Unsupported option " ++ toLowercase (BytesMutUtils.toString (ascii "foo")))
        else .integer 0, read.2) :=
  ⟨⟨rfl, rfl, by decide⟩,
    expire_unknown_option _ _ _ _ _ _ _ _ _ _ 10 rfl rfl (by decide)⟩

theorem not_u64Max_lt (t : UInt64) : ¬ (18446744073709551615 : UInt64) < t := fun h =>
  absurd t.val.isLt (Nat.not_lt.2 h)

/-- **`EXPIRE key 18446744073709551615 LT` never sets a TTL.**  The LT branch compares the
seconds with `ttl_in_seconds` whether or not the key has a TTL, and no `u64` exceeds `u64::MAX`:
for every key a reader observes, whatever `ttl_in_seconds` returns and whatever the calls return,
the reply is 0, the read's error or that helper's error, and the key space is unchanged. -/
theorem expire_lt_u64_max (calls : DbCalls) (ks : KeySpace E) (command : RedisCommand)
    (name key seconds tok : Bytes) (rest : List Bytes) (entry : Bytes × CommonValueMetadata E)
    (hargs : command.args = name :: key :: seconds :: tok :: rest)
    (hparse : parse seconds = some 18446744073709551615)
    (htok : toLowercase (BytesMutUtils.toString tok) = "lt")
    (hkey : GenericDb.live ops ks key = some entry) :
    expire ops parse calls ks command =
      (match calls.readFault 0 with
        | some e => .error e
        | none => (ops.ttlInSeconds entry.2.expiration).map fun _ => .integer 0, ks) := by
  obtain ⟨h3, hkey', hseconds, htok3⟩ := arg_three hargs
  rw [expire_eq ops parse calls ks command h3 (hseconds ▸ hparse), hkey', hkey]
  cases calls.readFault 0 with
  | some e => rfl
  | none =>
    simp only [htok3, htok, expireOption.eq_4]
    cases ops.ttlInSeconds entry.2.expiration with
    | error e => rfl
    | ok t => simp only [setTtlWhen, decide_eq_false (not_u64Max_lt t)]; rfl

theorem expire_lt_u64_max_without_ttl :
    ((⟨[ascii "expire", ascii "k", ascii "18446744073709551615", ascii "LT"], by decide⟩ :
          RedisCommand).args =
        [ascii "expire", ascii "k", ascii "18446744073709551615", ascii "LT"] ∧
      parseU64 (ascii "18446744073709551615") = some 18446744073709551615 ∧
      toLowercase (BytesMutUtils.toString (ascii "LT")) = "lt" ∧
      GenericDb.live (Expiration.ops 0)
          (Function.update (fun _ => none) (ascii "k") (some ([], ⟨.string, .absent⟩))) (ascii "k") =
        some ([], ⟨.string, .absent⟩)) ∧
    expire (Expiration.ops 0) parseU64 DbCalls.healthy
        (Function.update (fun _ => none) (ascii "k") (some ([], ⟨.string, .absent⟩)))
        ⟨[ascii "expire", ascii "k", ascii "18446744073709551615", ascii "LT"], by decide⟩ =
      (match DbCalls.healthy.readFault 0 with
        | some e => .error e
        | none => ((Expiration.ops 0).ttlInSeconds .absent).map fun _ => .integer 0,
        Function.update (fun _ => none) (ascii "k") (some ([], ⟨.string, .absent⟩))) :=
  ⟨⟨rfl, rfl, rfl, rfl⟩, expire_lt_u64_max (Expiration.ops 0) parseU64 DbCalls.healthy
    (Function.update (fun _ => none) (ascii "k") (some ([], ⟨.string, .absent⟩)))
    ⟨[ascii "expire", ascii "k", ascii "18446744073709551615", ascii "LT"], by decide⟩
    (ascii "expire") (ascii "k") (ascii "18446744073709551615") (ascii "LT") []
    ([], ⟨.string, .absent⟩) rfl rfl rfl rfl⟩

/-- **TTL after EXPIRE.**  With the spec's expiration (an absolute expiry time in microseconds,
and TTL the ceiling of the remaining seconds): once an `EXPIRE key n` with `n ≥ 1` has replied 1
at clock reading `now`, a TTL of the key whose read succeeds, at any reading `now'` from `now`
until that expiry, replies a number in (0, n]. -/
theorem ttl_after_expire (now now' : Nat) (ks ks' : KeySpace Expiration)
    (expireCalls ttlCalls : DbCalls) (expireCommand ttlCommand : RedisCommand) (n : UInt64)
    (hn : parse (commandArgAt expireCommand 2) = some n)
    (hexpire : expire (Expiration.ops now) parse expireCalls ks expireCommand =
      (.ok (.integer 1), ks'))
    (httl : 2 ≤ ttlCommand.argCount)
    (hkey : commandArgAt ttlCommand 1 = commandArgAt expireCommand 1)
    (hread : ttlCalls.readFault 0 = none)
    (hpos : 1 ≤ n.toNat) (hnow : now ≤ now') (hbefore : now' < now + n.toNat * 1000000) :
    ∃ t : Nat, (ttl (Expiration.ops now') ttlCalls ks' ttlCommand).1 = .ok (.integer t) ∧
      0 < t ∧ t ≤ n.toNat := by
  obtain ⟨hne, -⟩ | ⟨-, seconds, entry, e, hseconds, hentry, hset, hks⟩ :=
    expire_sets_only_ttl _ parse expireCalls ks expireCommand
  · rw [hexpire] at hne
    exact absurd rfl hne
  have hks' : ks' = GenericDb.setExpiration ks (commandArgAt expireCommand 1) e := by
    rw [hexpire] at hks
    exact hks
  subst hks'
  obtain rfl : seconds = n := Option.some.inj (hseconds.symm.trans hn)
  obtain rfl : e = .at (now + seconds.toNat * 1000000) := (Except.ok.inj hset).symm
  have hT : (now + seconds.toNat * 1000000 ≤ now') = False := by
    simp only [eq_iff_iff, iff_false]; omega
  have hlt : (now + seconds.toNat * 1000000 - now' + 999999) / 1000000 < UInt64.size := by
    have := seconds.toNat_lt_size
    omega
  refine ⟨(now + seconds.toNat * 1000000 - now' + 999999) / 1000000, ?_, by omega, by omega⟩
  simp only [ttl, checkArgsCount_of_le httl, hread, GenericDb.get_of_none, GenericDb.live,
    hkey, GenericDb.setExpiration_self, GenericDb.eq_of_live_eq_some _ hentry, Option.map_some',
    Expiration.ops, hT, decide_False, Bool.false_eq_true, if_false, Bool.not_true, Except.map,
    UInt64.toNat_ofNat_of_lt hlt]

theorem ttl_after_expire_ten_seconds :
    (parseU64 (commandArgAt ⟨[ascii "expire", ascii "k", ascii "10"], by decide⟩ 2) = some 10 ∧
      expire (Expiration.ops 0) parseU64 DbCalls.healthy
          (Function.update (fun _ => none) (ascii "k") (some (ascii "v", ⟨.string, .absent⟩)))
          ⟨[ascii "expire", ascii "k", ascii "10"], by decide⟩ =
        (.ok (.integer 1), GenericDb.setExpiration
          (Function.update (fun _ => none) (ascii "k") (some (ascii "v", ⟨.string, .absent⟩)))
          (ascii "k") (.at 10000000)) ∧
      2 ≤ RedisCommand.argCount ⟨[ascii "ttl", ascii "k"], by decide⟩ ∧
      commandArgAt ⟨[ascii "ttl", ascii "k"], by decide⟩ 1 =
        commandArgAt ⟨[ascii "expire", ascii "k", ascii "10"], by decide⟩ 1 ∧
      DbCalls.healthy.readFault 0 = none ∧
      1 ≤ (10 : UInt64).toNat ∧ 0 ≤ 5000000 ∧ 5000000 < 0 + (10 : UInt64).toNat * 1000000) ∧
    ∃ t : Nat, (ttl (Expiration.ops 5000000) DbCalls.healthy (GenericDb.setExpiration
        (Function.update (fun _ => none) (ascii "k") (some (ascii "v", ⟨.string, .absent⟩)))
        (ascii "k") (.at 10000000)) ⟨[ascii "ttl", ascii "k"], by decide⟩).1 = .ok (.integer t) ∧
      0 < t ∧ t ≤ (10 : UInt64).toNat :=
  ⟨⟨rfl, rfl, by decide, rfl, rfl, by decide, by decide, by decide⟩,
    ttl_after_expire parseU64 0 5000000
      (Function.update (fun _ => none) (ascii "k") (some (ascii "v", ⟨.string, .absent⟩)))
      (GenericDb.setExpiration
        (Function.update (fun _ => none) (ascii "k") (some (ascii "v", ⟨.string, .absent⟩)))
        (ascii "k") (.at 10000000))
      DbCalls.healthy DbCalls.healthy
      ⟨[ascii "expire", ascii "k", ascii "10"], by decide⟩ ⟨[ascii "ttl", ascii "k"], by decide⟩ 10
      (by rfl) (by rfl) (by decide) (by rfl) rfl (by decide) (by decide) (by decide)⟩

end Expire

end GenericCommands

end SableDb
