import SableDb.Storage.Bytes

/-!
# The ordered key-value engine (`rocksdb::DB`), as its contract states it

The engine is not part of the repository; `StorageRocksDb` only consumes it.  We model what
the storage layer relies on: an ordered store of raw keys, atomic `WriteBatch`es, a write
sequence number that each commit bumps by one, the log of committed batches behind
`get_updates_since`, and a failure outcome for every engine call (an `Option RocksError`
argument: `none` is success, `some e` is the error the engine returns).
-/

namespace SableDb

/-- A `rocksdb::Error`. -/
structure RocksError where
  message : String
  deriving DecidableEq, Repr

/-- `SableError`, with the variants that the modelled code raises. -/
inductive SableError
  | rocksDbError (e : RocksError)
  | otherError (message : String)
  | invalidArgument (message : String)
  deriving DecidableEq, Repr

/-- One operation of a `rocksdb::WriteBatch`. -/
inductive WriteBatchOp
  | put (key value : Bytes)
  | delete (key : Bytes)
  deriving DecidableEq, Repr

/-- A `rocksdb::WriteBatch`: operations applied atomically and in order. -/
structure WriteBatch where
  ops : List WriteBatchOp
  deriving DecidableEq, Repr

/-- The engine's contents, one entry per raw key. -/
abbrev Store := List (Bytes × Bytes)

namespace Store

/-- `DB::get` on the contents. -/
def get : Store → Bytes → Option Bytes
  | [], _ => none
  | (k, v) :: rest, key => if k = key then some v else get rest key

/-- `DB::put`: insert at the key's place in the bytewise order, replacing an old value. -/
def put (key value : Bytes) : Store → Store
  | [] => [(key, value)]
  | (k, v) :: rest =>
    if bytewiseLt key k then (key, value) :: (k, v) :: rest
    else if key = k then (key, value) :: rest
    else (k, v) :: put key value rest

/-- `DB::delete`. -/
def delete (key : Bytes) (s : Store) : Store := s.filter (fun e => e.1 ≠ key)

@[simp] theorem get_nil (key : Bytes) : get [] key = none := rfl

theorem get_cons (k v key : Bytes) (rest : Store) :
    get ((k, v) :: rest) key = if k = key then some v else get rest key := rfl

@[simp] theorem get_put_self (key value : Bytes) (s : Store) :
    get (put key value s) key = some value := by
  induction s with
  | nil => simp [put, get_cons]
  | cons e rest ih =>
    obtain ⟨k, v⟩ := e
    simp only [put]
    split_ifs with hlt heq
    · simp [get_cons]
    · simp [get_cons]
    · simp [get_cons, Ne.symm heq, ih]

theorem get_put_of_ne {key key' : Bytes} (value : Bytes) (s : Store) (hne : key ≠ key') :
    get (put key value s) key' = get s key' := by
  induction s with
  | nil => simp [put, get_cons, hne]
  | cons e rest ih =>
    obtain ⟨k, v⟩ := e
    simp only [put]
    split_ifs <;> simp_all [get_cons]

@[simp] theorem get_delete_self (key : Bytes) (s : Store) : get (delete key s) key = none := by
  induction s with
  | nil => rfl
  | cons e rest ih =>
    obtain ⟨k, v⟩ := e
    by_cases h : k = key <;> simp_all [delete, List.filter_cons, get_cons]

theorem get_delete_of_ne {key key' : Bytes} (s : Store) (hne : key ≠ key') :
    get (delete key s) key' = get s key' := by
  induction s with
  | nil => rfl
  | cons e rest ih =>
    obtain ⟨k, v⟩ := e
    by_cases h : k = key <;> simp_all [delete, List.filter_cons, get_cons]

end Store

/-- Apply one batch operation to the contents. -/
def WriteBatchOp.applyTo : WriteBatchOp → Store → Store
  | .put key value, s => Store.put key value s
  | .delete key, s => Store.delete key s

/-- Apply a batch's operations in order (the engine applies a batch atomically). -/
def WriteBatch.applyTo (b : WriteBatch) (s : Store) : Store :=
  b.ops.foldl (fun s op => op.applyTo s) s

/-- A committed batch as `get_updates_since` yields it: its sequence number and its batch. -/
structure LoggedBatch where
  seq : Nat
  batch : WriteBatch
  deriving DecidableEq, Repr

/-- Replay committed batches, in commit order, over some contents. -/
def replay (batches : List LoggedBatch) (s : Store) : Store :=
  batches.foldl (fun s b => b.batch.applyTo s) s

@[simp] theorem replay_nil (s : Store) : replay [] s = s := rfl

@[simp] theorem replay_append (bs bs' : List LoggedBatch) (s : Store) :
    replay (bs ++ bs') s = replay bs' (replay bs s) := List.foldl_append _ _ _ _

@[simp] theorem replay_singleton (b : LoggedBatch) (s : Store) :
    replay [b] s = b.batch.applyTo s := rfl

/-- The engine: its contents, the log of committed batches and the latest sequence number. -/
structure Engine where
  data : Store
  log : List LoggedBatch
  latestSeq : Nat
  deriving Repr

namespace Engine

/-- A fresh database. -/
def empty : Engine := ⟨[], [], 0⟩

/-- `DB::get`. -/
def get (e : Engine) (key : Bytes) (fault : Option RocksError) : Except RocksError (Option Bytes) :=
  match fault with
  | some err => .error err
  | none => .ok (Store.get e.data key)

/-- Commit a batch: apply it and log it under the next sequence number.  The contract numbers
batches; RocksDB gives each record of a batch a sequence number of its own, which no result here,
all stated per batch, depends on. -/
def commit (e : Engine) (b : WriteBatch) : Engine :=
  { data := b.applyTo e.data
    log := e.log ++ [⟨e.latestSeq + 1, b⟩]
    latestSeq := e.latestSeq + 1 }

/-- `DB::write_opt`: commit a batch atomically, or fail and leave the engine as it was. -/
def write (e : Engine) (b : WriteBatch) (fault : Option RocksError) : Except RocksError Engine :=
  match fault with
  | some err => .error err
  | none => .ok (e.commit b)

/-- `DB::put_opt`: a one-operation batch. -/
def putOpt (e : Engine) (key value : Bytes) (fault : Option RocksError) :
    Except RocksError Engine :=
  e.write ⟨[.put key value]⟩ fault

/-- `DB::delete`: a one-operation batch. -/
def delete (e : Engine) (key : Bytes) (fault : Option RocksError) : Except RocksError Engine :=
  e.write ⟨[.delete key]⟩ fault

/-- The engine is consistent: its contents are the replay of its log, whose sequence numbers
ascend strictly up to the latest one. -/
structure Consistent (e : Engine) : Prop where
  data_eq : e.data = replay e.log []
  ordered : e.log.Pairwise (fun b b' => b.seq < b'.seq)
  bounded : ∀ b ∈ e.log, b.seq ≤ e.latestSeq

theorem consistent_empty : empty.Consistent := ⟨rfl, List.Pairwise.nil, by simp [empty]⟩

/-- A commit keeps the engine consistent. -/
theorem Consistent.commit {e : Engine} (hc : e.Consistent) (b : WriteBatch) :
    (e.commit b).Consistent := by
  refine ⟨by simp [Engine.commit, hc.data_eq], ?_, ?_⟩
  · refine List.pairwise_append.mpr ⟨hc.ordered, by simp, ?_⟩
    intro b hb b' hb'
    rw [List.mem_singleton.mp hb']
    exact Nat.lt_succ_of_le (hc.bounded b hb)
  · intro b hb
    rcases List.mem_append.mp hb with hb | hb
    · exact Nat.le_succ_of_le (hc.bounded b hb)
    · rw [List.mem_singleton.mp hb]; rfl

end Engine

/-- `DB::get_updates_since(s)` as its contract states it: the batches committed after `s`,
in commit order. -/
def updatesSince (log : List LoggedBatch) (s : Nat) :
    Except RocksError (List (Except RocksError (Nat × WriteBatch))) :=
  .ok ((log.filter (fun b => s < b.seq)).map (fun b => .ok (b.seq, b.batch)))

end SableDb
