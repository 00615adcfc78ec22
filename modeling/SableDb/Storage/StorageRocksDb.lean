import SableDb.Storage.Engine

/-!
# `StorageRocksDb`: the storage layer over the engine

Each call hands its engine calls' outcomes in as `Option RocksError` arguments and returns its
result together with the engine it leaves behind.  `put_internal` drops the outcome of the
engine's `put_opt` (`let _ = ...`), where `get`, `delete` and `apply_batch` propagate theirs with
`?`: a failed write is reported as success (`put_override_drops_write_error`).
-/

namespace SableDb

/-- `PutFlags`. -/
inductive PutFlags
  | override
  | putIfNotExists
  | putIfExists
  deriving DecidableEq, Repr

/-- `BatchUpdate`, through the two accessors `apply_batch` reads: the keys to delete and the
items to put, each `None` when there is none. -/
structure BatchUpdate where
  keysToDelete : Option (List Bytes)
  itemsToPut : Option (List (Bytes × Bytes))
  deriving DecidableEq, Repr

/-- `WriteBatch::delete`. -/
def WriteBatch.delete (b : WriteBatch) (key : Bytes) : WriteBatch := ⟨b.ops ++ [.delete key]⟩

/-- `WriteBatch::put`. -/
def WriteBatch.put (b : WriteBatch) (key value : Bytes) : WriteBatch := ⟨b.ops ++ [.put key value]⟩

/-- `StorageRocksDb`: the engine handle (`store`). -/
structure StorageRocksDb where
  store : Engine
  deriving Repr

namespace StorageRocksDb

/-- The engine after a `put_opt` whose result is dropped: written on success, untouched on
failure. -/
def putOptDiscarded (db : StorageRocksDb) (key value : Bytes) (fault : Option RocksError) :
    StorageRocksDb :=
  match db.store.putOpt key value fault with
  | .ok store => ⟨store⟩
  | .error _ => db

/-- `StorageRocksDb::put_internal`; `getFault` and `putFault` are the outcomes of the engine's
`get` and `put_opt`. -/
def putInternal (db : StorageRocksDb) (key value : Bytes) (putFlags : PutFlags)
    (getFault putFault : Option RocksError) : Except SableError Unit × StorageRocksDb :=
  match putFlags with
  | .override => (.ok (), db.putOptDiscarded key value putFault)
  | .putIfNotExists =>
    match db.store.get key getFault with
    | .error e => (.error (.rocksDbError e), db)
    | .ok (some _) => (.ok (), db)
    | .ok none => (.ok (), db.putOptDiscarded key value putFault)
  | .putIfExists =>
    match db.store.get key getFault with
    | .error e => (.error (.rocksDbError e), db)
    | .ok none => (.ok (), db)
    | .ok (some _) => (.ok (), db.putOptDiscarded key value putFault)

/-- `StorageRocksDb::put`. -/
def put (db : StorageRocksDb) (key value : Bytes) (putFlags : PutFlags)
    (getFault putFault : Option RocksError) : Except SableError Unit × StorageRocksDb :=
  db.putInternal key value putFlags getFault putFault

/-- `StorageRocksDb::get`. -/
def get (db : StorageRocksDb) (key : Bytes) (fault : Option RocksError) :
    Except SableError (Option Bytes) :=
  match db.store.get key fault with
  | .error e => .error (.rocksDbError e)
  | .ok value => .ok value

/-- `StorageRocksDb::delete`. -/
def delete (db : StorageRocksDb) (key : Bytes) (fault : Option RocksError) :
    Except SableError Unit × StorageRocksDb :=
  match db.store.delete key fault with
  | .error e => (.error (.rocksDbError e), db)
  | .ok store => (.ok (), ⟨store⟩)

/-- The batch `apply_batch` builds: the deletes first, then the puts. -/
def batchOf (update : BatchUpdate) : WriteBatch :=
  let updates : WriteBatch := ⟨[]⟩
  let updates := match update.keysToDelete with
    | some keys => keys.foldl (fun b k => b.delete k) updates
    | none => updates
  match update.itemsToPut with
  | some putKeys => putKeys.foldl (fun b kv => b.put kv.1 kv.2) updates
  | none => updates

/-- `StorageRocksDb::apply_batch`. -/
def applyBatch (db : StorageRocksDb) (update : BatchUpdate) (fault : Option RocksError) :
    Except SableError Unit × StorageRocksDb :=
  match db.store.write (batchOf update) fault with
  | .error e => (.error (.rocksDbError e), db)
  | .ok store => (.ok (), ⟨store⟩)

/-! ## What each call does to the engine -/

@[simp] theorem putOptDiscarded_none (db : StorageRocksDb) (key value : Bytes) :
    db.putOptDiscarded key value none = ⟨db.store.commit ⟨[.put key value]⟩⟩ := rfl

@[simp] theorem putOptDiscarded_some (db : StorageRocksDb) (key value : Bytes) (err : RocksError) :
    db.putOptDiscarded key value (some err) = db := rfl

theorem batchOf_ops (update : BatchUpdate) :
    (batchOf update).ops = (update.keysToDelete.getD []).map .delete ++
      (update.itemsToPut.getD []).map (fun kv => .put kv.1 kv.2) := by
  have hdel : ∀ (keys : List Bytes) (b : WriteBatch),
      (keys.foldl (fun b k => b.delete k) b).ops = b.ops ++ keys.map .delete := by
    intro keys
    induction keys with
    | nil => exact fun b => (List.append_nil _).symm
    | cons k keys ih => exact fun b => (ih _).trans (List.append_assoc _ _ _)
  have hput : ∀ (items : List (Bytes × Bytes)) (b : WriteBatch),
      (items.foldl (fun b kv => b.put kv.1 kv.2) b).ops =
        b.ops ++ items.map (fun kv => .put kv.1 kv.2) := by
    intro items
    induction items with
    | nil => exact fun b => (List.append_nil _).symm
    | cons kv items ih => exact fun b => (ih _).trans (List.append_assoc _ _ _)
  unfold batchOf
  cases update.keysToDelete <;> cases update.itemsToPut <;> simp [hdel, hput]

/-- **A failed engine write is reported as success.**  Under `Override`, `put` answers `Ok(())`
whatever the engine's `put_opt` returns; when the write fails, the engine is left as it was. -/
theorem put_override_drops_write_error (db : StorageRocksDb) (key value : Bytes)
    (getFault : Option RocksError) (err : RocksError) :
    db.put key value .override getFault (some err) = (.ok (), db) := rfl

/-- The siblings propagate their engine failures with `?`. -/
theorem get_delete_applyBatch_report_error (db : StorageRocksDb) (key : Bytes)
    (update : BatchUpdate) (err : RocksError) :
    db.get key (some err) = .error (.rocksDbError err) ∧
    db.delete key (some err) = (.error (.rocksDbError err), db) ∧
    db.applyBatch update (some err) = (.error (.rocksDbError err), db) := ⟨rfl, rfl, rfl⟩

/-- `put` on an empty store with a failing engine write: `Ok(())` with nothing stored, where
`delete` under the same failure answers `Err`. -/
theorem put_reports_ok_on_failed_write :
    (put ⟨Engine.empty⟩ [1] [2] .override none (some ⟨"IO error"⟩)).1 = .ok () ∧
    Store.get (put ⟨Engine.empty⟩ [1] [2] .override none (some ⟨"IO error"⟩)).2.store.data [1] =
      none ∧
    (delete ⟨Engine.empty⟩ [1] (some ⟨"IO error"⟩)).1 = .error (.rocksDbError ⟨"IO error"⟩) := by
  simp [put_override_drops_write_error, Engine.empty]
  rfl

/-! ## Prefix iteration -/

/-- `DBRawIterator::seek`: the entries from the first key `≥ target` on, in key order. -/
def seek (entries : Store) (target : Bytes) : Store :=
  entries.dropWhile (fun e => bytewiseLt e.1 target)

/-- The `loop` of `iterate` over the raw iterator's remaining entries: it stops when the iterator
is exhausted, at the first key without the prefix, or right after the callback returns `false`.
The `FnMut` callback threads its captured state `σ`. -/
def iterateLoop {σ : Type} (pfx : Bytes) (callback : σ → Bytes → Bytes → Bool × σ) :
    Store → σ → σ
  | [], st => st
  | (key, value) :: rest, st =>
    if pfx.isPrefixOf key then
      match callback st key value with
      | (true, st') => iterateLoop pfx callback rest st'
      | (false, st') => st'
    else st

/-- `StorageRocksDb::iterate`. -/
def iterate {σ : Type} (db : StorageRocksDb) (pfx : Bytes)
    (callback : σ → Bytes → Bytes → Bool × σ) (st : σ) : Except SableError Unit × σ :=
  (.ok (), iterateLoop pfx callback (seek db.store.data pfx) st)

end StorageRocksDb

/-- Hand entries to a callback in order, up to and including the first call that returns
`false`. -/
def visitUntil {σ : Type} (callback : σ → Bytes → Bytes → Bool × σ) : Store → σ → σ
  | [], st => st
  | (key, value) :: rest, st =>
    match callback st key value with
    | (true, st') => visitUntil callback rest st'
    | (false, st') => st'

/-- A callback that never returns `false` is folded over every entry. -/
theorem visitUntil_eq_foldl {σ : Type} {callback : σ → Bytes → Bytes → Bool × σ}
    (hall : ∀ s k v, (callback s k v).1 = true) (entries : Store) (st : σ) :
    visitUntil callback entries st = entries.foldl (fun s e => (callback s e.1 e.2).2) st := by
  induction entries generalizing st with
  | nil => rfl
  | cons e rest ih =>
    have := hall st e.1 e.2
    simp only [visitUntil, List.foldl_cons]
    split
    next st' hc => rw [hc]; exact ih st'
    next st' hc => rw [hc] at this; cases this

/-- The engine's iteration contract: keys strictly ascend in the bytewise order. -/
def Ascending (entries : Store) : Prop := entries.Pairwise (fun e e' => bytewiseLt e.1 e'.1)

namespace StorageRocksDb

theorem isPrefixOf_eq_false_of_bytewiseLt {pfx key : Bytes} (h : bytewiseLt key pfx) :
    pfx.isPrefixOf key = false := by
  by_contra hp
  simp [bytewiseLt_prefix_eq_false (List.isPrefixOf_iff_prefix.mp (by simpa using hp))] at h

/-- Past the seek position every key is `≥ pfx`, so seeking again moves nowhere. -/
theorem seek_of_ge {pfx k : Bytes} {rest : Store} (hlt : bytewiseLt k pfx = false)
    (hhead : ∀ e ∈ rest, bytewiseLt k e.1) : seek rest pfx = rest := by
  cases rest with
  | nil => rfl
  | cons e rest =>
    have : bytewiseLt e.1 pfx = false := by
      by_contra h
      simp [bytewiseLt_trans (hhead e (by simp)) (by simpa using h)] at hlt
    simp [seek, List.dropWhile_cons, this]

/-- Once a key `≥ pfx` lacks the prefix, no later key has it. -/
theorem filter_isPrefixOf_eq_nil {pfx k v : Bytes} {rest : Store}
    (hlt : bytewiseLt k pfx = false) (hp : pfx.isPrefixOf k = false)
    (hhead : ∀ e ∈ rest, bytewiseLt k e.1) :
    ((k, v) :: rest).filter (fun e => pfx.isPrefixOf e.1) = [] := by
  refine List.filter_eq_nil_iff.mpr ?_
  simp only [List.mem_cons, forall_eq_or_imp, hp, Bool.false_eq_true, not_false_eq_true, true_and]
  intro e he hpe
  exact not_prefix_of_bytewiseLt hlt (fun h => by simp [List.isPrefixOf_iff_prefix.mpr h] at hp)
    (hhead e he) (List.isPrefixOf_iff_prefix.mp hpe)

theorem iterateLoop_seek {σ : Type} (pfx : Bytes) (callback : σ → Bytes → Bytes → Bool × σ) :
    ∀ (entries : Store), Ascending entries → ∀ st,
      iterateLoop pfx callback (seek entries pfx) st =
        visitUntil callback (entries.filter (fun e => pfx.isPrefixOf e.1)) st
  | [], _, _ => rfl
  | (k, v) :: rest, hs, st => by
    obtain ⟨hhead, hrest⟩ := List.pairwise_cons.mp hs
    by_cases hlt : bytewiseLt k pfx
    · -- before the prefix run: skipped by the seek, and not a key with the prefix
      simpa [seek, List.dropWhile_cons, hlt, List.filter_cons,
        isPrefixOf_eq_false_of_bytewiseLt hlt] using iterateLoop_seek pfx callback rest hrest st
    · replace hlt : bytewiseLt k pfx = false := by simpa using hlt
      have hseek : seek ((k, v) :: rest) pfx = (k, v) :: rest := by
        simp [seek, List.dropWhile_cons, hlt]
      rw [hseek]
      cases hp : pfx.isPrefixOf k
      · rw [filter_isPrefixOf_eq_nil hlt hp hhead]
        simp [iterateLoop, hp, visitUntil]
      · have ih := iterateLoop_seek pfx callback rest hrest
        rw [seek_of_ge hlt hhead] at ih
        simp only [iterateLoop, hp, if_true, List.filter_cons, visitUntil]
        split
        · exact ih _
        · rfl

/-- **Prefix iteration visits exactly the keys with the prefix, in order.**  Over keys in
ascending bytewise order, `iterate(pfx, cb)` terminates and runs `cb` on the entries whose key
starts with `pfx`, in key order, each once, up to and including the first call that returns
`false`, and on no other entry; a callback that never returns `false` sees all of them. -/
theorem iterate_visits_prefix_run {σ : Type} (db : StorageRocksDb) (hasc : Ascending db.store.data)
    (pfx : Bytes) (callback : σ → Bytes → Bytes → Bool × σ) (st : σ) :
    db.iterate pfx callback st =
        (.ok (), visitUntil callback (db.store.data.filter (fun e => pfx.isPrefixOf e.1)) st) ∧
      ((∀ s k v, (callback s k v).1 = true) →
        db.iterate pfx callback st =
          (.ok (), (db.store.data.filter (fun e => pfx.isPrefixOf e.1)).foldl
            (fun s e => (callback s e.1 e.2).2) st)) := by
  have h := iterateLoop_seek pfx callback db.store.data hasc st
  exact ⟨by rw [iterate, h], fun hall => by rw [iterate, h, visitUntil_eq_foldl hall]⟩

theorem iterate_visits_prefix_run_counting :
    Ascending [([1], [0]), ([1, 2], [0]), ([2], [0])] ∧
    ((⟨⟨[([1], [0]), ([1, 2], [0]), ([2], [0])], [], 0⟩⟩ : StorageRocksDb).iterate [1]
        (fun n _ _ => (true, n + 1)) 0 =
        (.ok (), visitUntil (fun n _ _ => (true, n + 1))
          ([([1], [0]), ([1, 2], [0]), ([2], [0])].filter (fun e => List.isPrefixOf [1] e.1)) 0) ∧
      ((∀ (s : Nat) (k v : Bytes), ((fun n _ _ => (true, n + 1)) s k v : Bool × Nat).1 = true) →
        (⟨⟨[([1], [0]), ([1, 2], [0]), ([2], [0])], [], 0⟩⟩ : StorageRocksDb).iterate [1]
            (fun n _ _ => (true, n + 1)) 0 =
          (.ok (), ([([1], [0]), ([1, 2], [0]), ([2], [0])].filter
            (fun e => List.isPrefixOf [1] e.1)).foldl
              (fun s e => ((fun n _ _ => (true, n + 1)) s e.1 e.2 : Bool × Nat).2) 0))) :=
  ⟨by unfold Ascending; decide,
    iterate_visits_prefix_run _ (by unfold Ascending; decide) [1] (fun n _ _ => (true, n + 1)) 0⟩

end StorageRocksDb

end SableDb
