import SableDb.Replication.Paging
import SableDb.Storage.StorageRocksDb

/-!
# Replica replay reproduces the primary

The primary serves `put` (under each `PutFlags`), `delete` and `apply_batch`; between its writes
the producer ships a page of the change-stream from the replica's cursor, and the replica applies
the page's records one by one, in the order received, then moves its cursor to the page's end.
After every page the replica holds exactly the primary's store as of the page's end, and once the
primary is idle, paging until a page holds no change leaves the replica equal to the primary
(`Replication.Synced.catch_up`, `replica_replays_primary`).
-/

namespace SableDb

/-- A write the primary serves, with the outcomes of its engine calls. -/
inductive PrimaryWrite
  | put (key value : Bytes) (putFlags : PutFlags) (getFault putFault : Option RocksError)
  | delete (key : Bytes) (fault : Option RocksError)
  | applyBatch (update : BatchUpdate) (fault : Option RocksError)
  deriving Repr

/-- The primary after serving a write. -/
def PrimaryWrite.run (db : StorageRocksDb) : PrimaryWrite → StorageRocksDb
  | .put key value putFlags getFault putFault => (db.put key value putFlags getFault putFault).2
  | .delete key fault => (db.delete key fault).2
  | .applyBatch update fault => (db.applyBatch update fault).2

/-- Modelled from the spec: the replication client applies one received record to the replica's
store. -/
def applyRecord (s : Store) : StorageUpdatesIterItem → Store
  | .put key value => Store.put key value s
  | .delete key => Store.delete key s

/-- The replication pipeline: the primary, the cursor shipped so far and the replica's store. -/
structure Replication where
  primary : StorageRocksDb
  cursor : Nat
  replica : Store
  deriving Repr

/-- A step of the pipeline: the primary serves a write, or a page is shipped and applied. -/
inductive ReplicationEvent
  | write (w : PrimaryWrite)
  | ship (memoryLimit changesCountLimit : Option Nat)
  deriving Repr

namespace Replication

/-- An empty primary, cursor 0 and an empty replica. -/
def init : Replication := ⟨⟨Engine.empty⟩, 0, []⟩

/-- Modelled from the spec: a write served by the primary, or a page shipped from the cursor
(the producer's call of `storage_updates_since`) and applied by the replica, record by record. -/
def step (recordSize : StorageUpdatesIterItem → Nat) (r : Replication) :
    ReplicationEvent → Replication
  | .write w => { r with primary := w.run r.primary }
  | .ship memoryLimit changesCountLimit =>
    match storageUpdatesSince recordSize (updatesSince r.primary.store.log) r.cursor memoryLimit
        changesCountLimit with
    | .ok page =>
      { r with cursor := page.endSeqNumber
               replica := page.serialisedData.foldl applyRecord r.replica }
    | .error _ => r

def run (recordSize : StorageUpdatesIterItem → Nat) (r : Replication)
    (events : List ReplicationEvent) : Replication :=
  events.foldl (step recordSize) r

end Replication

/-- The primary's store as of sequence number `seq`: its batches up to `seq`, replayed. -/
def Engine.storeAsOf (e : Engine) (seq : Nat) : Store := replay (e.log.filter (·.seq ≤ seq)) []

/-! ## Records replay their batches -/

theorem foldl_applyRecord_records (b : WriteBatch) (s : Store) :
    b.records.foldl applyRecord s = b.applyTo s := by
  obtain ⟨ops⟩ := b
  simp only [WriteBatch.records, WriteBatch.applyTo, List.foldl_map]
  congr 1
  funext s op
  cases op <;> rfl

theorem foldl_applyRecord_flatMap (bs : List LoggedBatch) (s : Store) :
    (bs.flatMap (·.batch.records)).foldl applyRecord s = replay bs s := by
  induction bs generalizing s with
  | nil => rfl
  | cons b bs ih =>
    rw [List.flatMap_cons, List.foldl_append, foldl_applyRecord_records, ih]
    rfl

theorem StorageRocksDb.putOptDiscarded_eq (db : StorageRocksDb) (key value : Bytes)
    (fault : Option RocksError) :
    db.putOptDiscarded key value fault = db ∨
      ∃ b, db.putOptDiscarded key value fault = ⟨db.store.commit b⟩ := by
  cases fault <;> simp

/-- A write leaves the primary as it was, or commits one batch. -/
theorem PrimaryWrite.run_eq (db : StorageRocksDb) (w : PrimaryWrite) :
    w.run db = db ∨ ∃ b, w.run db = ⟨db.store.commit b⟩ := by
  cases w with
  | put key value putFlags getFault putFault =>
    have h := db.putOptDiscarded_eq key value putFault
    cases putFlags <;> simp only [run, StorageRocksDb.put, StorageRocksDb.putInternal]
    · exact h
    all_goals rcases db.store.get key getFault with _ | _ | _ <;> first | exact .inl rfl | exact h
  | delete key fault =>
    cases fault <;> simp [run, StorageRocksDb.delete, Engine.delete, Engine.write]
  | applyBatch update fault =>
    cases fault <;> simp [run, StorageRocksDb.applyBatch, Engine.write]

/-! ## The log up to a sequence number -/

/-- In an ordered log, the batches up to `k` are followed by the batches after `k`. -/
theorem filter_le_append_batchesAfter {log : List LoggedBatch}
    (hord : log.Pairwise (fun b b' => b.seq < b'.seq)) (k : Nat) :
    log.filter (·.seq ≤ k) ++ batchesAfter log k = log := by
  induction log with
  | nil => rfl
  | cons x rest ih =>
    obtain ⟨hx, hrest⟩ := List.pairwise_cons.mp hord
    by_cases hxk : x.seq ≤ k
    · rw [batchesAfter, List.filter_cons_of_pos (by simpa using hxk),
        List.filter_cons_of_neg (by simpa using hxk), List.cons_append, ← batchesAfter, ih hrest]
    · have hnil : rest.filter (·.seq ≤ k) = [] :=
        List.filter_eq_nil_iff.mpr fun y hy => by have := hx y hy; simp; omega
      have hall : batchesAfter rest k = rest :=
        List.filter_eq_self.mpr fun y hy => by have := hx y hy; simp; omega
      simp only [batchesAfter] at hall
      simp [batchesAfter, List.filter_cons, hxk, hnil, hall, Nat.lt_of_not_le hxk]

/-- Shipping a page moves the cursor past exactly the page's batches. -/
theorem filter_le_page {log : List LoggedBatch} (hord : log.Pairwise (fun b b' => b.seq < b'.seq))
    (k j : Nat) (hj : 1 ≤ j) (hjn : j ≤ (batchesAfter log k).length) :
    log.filter (·.seq ≤ (((batchesAfter log k).take j).getLast?.map (·.seq)).getD k) =
      log.filter (·.seq ≤ k) ++ (batchesAfter log k).take j := by
  set B := batchesAfter log k
  set k' := ((B.take j).getLast?.map (·.seq)).getD k
  have hsplit : B = B.take j ++ batchesAfter log k' := by
    simpa using @batchesAfter_split log [] hord (by simp) k j hj hjn
  have h : log.filter (·.seq ≤ k') ++ batchesAfter log k' = log.filter (·.seq ≤ k) ++ B :=
    (filter_le_append_batchesAfter hord k').trans (filter_le_append_batchesAfter hord k).symm
  rw [hsplit, ← List.append_assoc] at h
  exact List.append_cancel_right h

theorem filter_le_of_bounded {log : List LoggedBatch} {n : Nat} (h : ∀ b ∈ log, b.seq ≤ n) :
    log.filter (·.seq ≤ n) = log :=
  List.filter_eq_self.mpr fun b hb => by simpa using h b hb

/-! ## The replica stays in step -/

/-- The pipeline's invariant: a consistent primary, the cursor within its log, and the replica
equal to the primary's store as of the cursor. -/
structure Replication.Synced (r : Replication) : Prop where
  consistent : r.primary.store.Consistent
  cursor_le : r.cursor ≤ r.primary.store.latestSeq
  replica_eq : r.replica = r.primary.store.storeAsOf r.cursor

theorem Replication.synced_init : init.Synced :=
  ⟨Engine.consistent_empty, le_rfl, rfl⟩

theorem Engine.storeAsOf_commit {e : Engine} (b : WriteBatch) {k : Nat} (hk : k ≤ e.latestSeq) :
    (e.commit b).storeAsOf k = e.storeAsOf k := by
  simp [storeAsOf, commit, List.filter_append, show ¬ e.latestSeq + 1 ≤ k by omega]

theorem Replication.Synced.write {r : Replication} (hs : r.Synced)
    (recordSize : StorageUpdatesIterItem → Nat) (w : PrimaryWrite) :
    (r.step recordSize (.write w)).Synced := by
  rcases PrimaryWrite.run_eq r.primary w with h | ⟨b, h⟩
  · simpa [step, h] using hs
  · refine ⟨by simpa [step, h] using hs.consistent.commit b, ?_, ?_⟩
    · simpa [step, h, Engine.commit] using Nat.le_succ_of_le hs.cursor_le
    · simpa [step, h, Engine.storeAsOf_commit b hs.cursor_le] using hs.replica_eq

theorem Replication.Synced.ship {r : Replication} (hs : r.Synced)
    (recordSize : StorageUpdatesIterItem → Nat) (memoryLimit changesCountLimit : Option Nat) :
    (r.step recordSize (.ship memoryLimit changesCountLimit)).Synced := by
  obtain ⟨j, hj, -, hend, heq⟩ :=
    storageUpdatesSince_eq recordSize r.primary.store.log r.cursor memoryLimit changesCountLimit
  simp only [step, heq]
  by_cases hj0 : j = 0
  · subst hj0
    simpa using hs
  · set B := batchesAfter r.primary.store.log r.cursor
    have hT : B.take j ≠ [] := by rw [← List.length_pos, List.length_take]; omega
    have hmem : (B.take j).getLast hT ∈ r.primary.store.log :=
      (List.mem_filter.mp (List.mem_of_mem_take (List.getLast_mem hT))).1
    refine ⟨hs.consistent, ?_, ?_⟩
    · simpa [List.getLast?_eq_getLast _ hT] using hs.consistent.bounded _ hmem
    · simp only [Engine.storeAsOf]
      rw [foldl_applyRecord_flatMap, hs.replica_eq, Engine.storeAsOf,
        filter_le_page hs.consistent.ordered r.cursor j (by omega) hj, replay_append]

theorem Replication.Synced.step {r : Replication} (hs : r.Synced)
    (recordSize : StorageUpdatesIterItem → Nat) (ev : ReplicationEvent) :
    (r.step recordSize ev).Synced := by
  cases ev with
  | write w => exact hs.write recordSize w
  | ship memoryLimit changesCountLimit => exact hs.ship recordSize memoryLimit changesCountLimit

theorem Replication.synced_run (recordSize : StorageUpdatesIterItem → Nat)
    (events : List ReplicationEvent) : (init.run recordSize events).Synced := by
  suffices ∀ r : Replication, r.Synced → (r.run recordSize events).Synced from
    this _ synced_init
  induction events with
  | nil => exact fun _ h => h
  | cons ev events ih => exact fun r h => ih _ (h.step recordSize ev)

theorem Replication.step_ship_primary (r : Replication) (recordSize : StorageUpdatesIterItem → Nat)
    (memoryLimit changesCountLimit : Option Nat) :
    (r.step recordSize (.ship memoryLimit changesCountLimit)).primary = r.primary := by
  simp only [step]
  split <;> rfl

/-- **Catch-up.**  From any synced state, with the primary idle, the producer's pages reach,
within as many pages as there are batches after the cursor, a replica equal to the primary's
contents, and the page shipped from there holds no change, so the producer's loop stops. -/
theorem Replication.Synced.catch_up (recordSize : StorageUpdatesIterItem → Nat)
    (memoryLimit changesCountLimit : Option Nat) (r : Replication) (hs : r.Synced) :
    ∃ n ≤ (batchesAfter r.primary.store.log r.cursor).length,
      (r.run recordSize (List.replicate n (.ship memoryLimit changesCountLimit))).replica =
        r.primary.store.data ∧
      ∃ page, storageUpdatesSince recordSize (updatesSince r.primary.store.log)
          (r.run recordSize (List.replicate n (.ship memoryLimit changesCountLimit))).cursor
          memoryLimit changesCountLimit = .ok page ∧ page.changesCount = 0 := by
  obtain ⟨m, hm⟩ : ∃ m, (batchesAfter r.primary.store.log r.cursor).length = m := ⟨_, rfl⟩
  induction m using Nat.strong_induction_on generalizing r with
  | _ m ih =>
  obtain ⟨j, hj, -, hend, heq⟩ :=
    storageUpdatesSince_eq recordSize r.primary.store.log r.cursor memoryLimit changesCountLimit
  by_cases hm0 : m = 0
  · -- Nothing after the cursor: the replica has replayed the whole log.
    have hnil : batchesAfter r.primary.store.log r.cursor = [] :=
      List.eq_nil_of_length_eq_zero (hm.trans hm0)
    have hall := filter_le_append_batchesAfter hs.consistent.ordered r.cursor
    rw [hnil, List.append_nil] at hall
    refine ⟨0, Nat.zero_le _, ?_, _, heq, ?_⟩
    · rw [Replication.run, List.replicate_zero, List.foldl_nil, hs.replica_eq, Engine.storeAsOf,
        hall, hs.consistent.data_eq]
    · have : j = 0 := by rw [hnil] at hj; exact Nat.le_zero.1 hj
      simp [this]
  · -- One page of `j ≥ 1` batches moves the cursor past them.
    set B := batchesAfter r.primary.store.log r.cursor
    have hj1 : 1 ≤ j := by
      rcases hend with ⟨h, -⟩ | h
      · exact h
      · omega
    set r' := r.step recordSize (.ship memoryLimit changesCountLimit)
    have hprim : r'.primary = r.primary := r.step_ship_primary recordSize _ _
    have hcur : r'.cursor = ((B.take j).getLast?.map (·.seq)).getD r.cursor := by
      simp only [r', Replication.step, heq]
    have hsplit : B = B.take j ++ batchesAfter r.primary.store.log r'.cursor := by
      rw [hcur]
      simpa using @batchesAfter_split r.primary.store.log [] hs.consistent.ordered (by simp)
        r.cursor j hj1 hj
    have hlen : (batchesAfter r.primary.store.log r'.cursor).length + j = m := by
      have := congrArg List.length hsplit
      rw [List.length_append, List.length_take, min_eq_left hj] at this
      omega
    obtain ⟨n, hn, hrep, page, hpage, hcount⟩ :=
      ih (batchesAfter r.primary.store.log r'.cursor).length (by omega) r'
        (hs.ship recordSize memoryLimit changesCountLimit) (by rw [hprim])
    rw [hprim] at hn hrep hpage
    exact ⟨n + 1, by omega, hrep, page, hpage, hcount⟩

/-! ## What the primary's writes store -/

theorem get_foldl_put_of_not_mem {items : List (Bytes × Bytes)} {key : Bytes} (s : Store)
    (h : key ∉ items.map (·.1)) :
    Store.get (items.foldl (fun s kv => Store.put kv.1 kv.2 s) s) key = Store.get s key := by
  induction items generalizing s with
  | nil => rfl
  | cons kv items ih =>
    simp only [List.map_cons, List.mem_cons, not_or] at h
    rw [List.foldl_cons, ih _ h.2, Store.get_put_of_ne _ _ (Ne.symm h.1)]

/-- `apply_batch` puts after it deletes: a key ends with the value of its last put, whether or
not the batch also deletes it. -/
theorem applyBatch_get_last_put (db : StorageRocksDb) (keysToDelete : Option (List Bytes))
    (pre post : List (Bytes × Bytes)) (key value : Bytes) (hpost : key ∉ post.map (·.1)) :
    Store.get (db.applyBatch ⟨keysToDelete, some (pre ++ (key, value) :: post)⟩ none).2.store.data
      key = some value := by
  simp only [StorageRocksDb.applyBatch, Engine.write, Engine.commit, WriteBatch.applyTo,
    StorageRocksDb.batchOf_ops, Option.getD_some, List.foldl_append, List.foldl_map]
  rw [List.foldl_cons]
  exact (get_foldl_put_of_not_mem _ hpost).trans (Store.get_put_self _ _ _)

/-- **Replica replay reproduces the primary.**  Along any run of primary writes (`put` under
every flag, `delete`, `apply_batch`, with any engine outcomes) interleaved with shipped pages
from cursor 0: after every page the replica, having applied the page's records one by one, holds
exactly the primary's store as of the page's end, and the primary's store as of its latest
sequence number is its current store.  Once the primary is idle, at most one page per batch
after the cursor brings the replica to the primary's contents, where the next page holds no
change.  In particular, after an `apply_batch` that deletes and puts a key, the caught-up replica
holds the key's last put value; and a conditional `put` that its flag turns into a no-op changes
neither store. -/
theorem replica_replays_primary (recordSize : StorageUpdatesIterItem → Nat) :
    (∀ events memoryLimit changesCountLimit page,
      storageUpdatesSince recordSize
          (updatesSince (Replication.init.run recordSize events).primary.store.log)
          (Replication.init.run recordSize events).cursor memoryLimit changesCountLimit =
        .ok page →
      ((Replication.init.run recordSize events).step recordSize
          (.ship memoryLimit changesCountLimit)).replica =
        (Replication.init.run recordSize events).primary.store.storeAsOf page.endSeqNumber) ∧
    (∀ events, (Replication.init.run recordSize events).primary.store.data =
      (Replication.init.run recordSize events).primary.store.storeAsOf
        (Replication.init.run recordSize events).primary.store.latestSeq) ∧
    (∀ events memoryLimit changesCountLimit,
      ∃ n ≤ (batchesAfter (Replication.init.run recordSize events).primary.store.log
          (Replication.init.run recordSize events).cursor).length,
        ((Replication.init.run recordSize events).run recordSize
            (List.replicate n (.ship memoryLimit changesCountLimit))).replica =
          (Replication.init.run recordSize events).primary.store.data ∧
        ∃ page, storageUpdatesSince recordSize
            (updatesSince (Replication.init.run recordSize events).primary.store.log)
            ((Replication.init.run recordSize events).run recordSize
              (List.replicate n (.ship memoryLimit changesCountLimit))).cursor
            memoryLimit changesCountLimit = .ok page ∧ page.changesCount = 0) ∧
    (∀ events keysToDelete pre post key value memoryLimit changesCountLimit,
      key ∉ post.map (·.1) →
      ∃ n, Store.get ((Replication.init.run recordSize (events ++
          [.write (.applyBatch ⟨keysToDelete, some (pre ++ (key, value) :: post)⟩ none)])).run
            recordSize (List.replicate n (.ship memoryLimit changesCountLimit))).replica key =
        some value) ∧
    (∀ (r : Replication) key value putFault, (Store.get r.primary.store.data key).isSome →
      r.step recordSize (.write (.put key value .putIfNotExists none putFault)) = r) ∧
    (∀ (r : Replication) key value putFault, Store.get r.primary.store.data key = none →
      r.step recordSize (.write (.put key value .putIfExists none putFault)) = r) := by
  refine ⟨fun events M C page hpage => ?_, fun events => ?_,
    fun events M C => (Replication.synced_run recordSize events).catch_up recordSize M C _,
    fun events keysToDelete pre post key value M C hpost => ?_, ?_, ?_⟩
  · have hs := (Replication.synced_run recordSize events).ship recordSize M C
    simp only [Replication.step, hpage] at hs ⊢
    exact hs.replica_eq
  · have hc := (Replication.synced_run recordSize events).consistent
    rw [Engine.storeAsOf, filter_le_of_bounded hc.bounded, ← hc.data_eq]
  · obtain ⟨n, -, hrep, -⟩ := (Replication.synced_run recordSize _).catch_up recordSize M C _
    refine ⟨n, ?_⟩
    rw [hrep, Replication.run, List.foldl_append, List.foldl_cons, List.foldl_nil]
    exact applyBatch_get_last_put _ _ _ _ _ _ hpost
  · intro r key value putFault h
    obtain ⟨v, hv⟩ := Option.isSome_iff_exists.mp h
    simp [Replication.step, PrimaryWrite.run, StorageRocksDb.put, StorageRocksDb.putInternal,
      Engine.get, hv]
  · intro r key value putFault h
    simp [Replication.step, PrimaryWrite.run, StorageRocksDb.put, StorageRocksDb.putInternal,
      Engine.get, h]

end SableDb
