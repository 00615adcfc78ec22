import Mathlib.Algebra.Order.Ring.Nat
import SableDb.Storage.Engine

/-!
# The change-stream page: `StorageUpdates` and `storage_updates_since`

`StorageRocksDb::storage_updates_since(s, memory_limit, changes_count_limit)` walks the batches
that the engine's `get_updates_since(s)` yields, hands each one's records to an
`UpdateBatchIterator`, stamps the batch's sequence number and bumps the change count, and stops
right after the batch at which the body reaches `memory_limit` bytes or the count reaches
`changes_count_limit`.  The page is therefore the shortest run of whole batches that reaches a
limit (`storageUpdatesSince_page`).

`StorageUpdates` lives in `replication/storage_updates.rs`, which is not part of the sources we
model; its body is kept as the list of records it serialises, and the serialised size of one
record is the parameter `recordSize`.
-/

namespace SableDb

/-- A record of a `StorageUpdates` body. -/
inductive StorageUpdatesIterItem
  | put (key value : Bytes)
  | delete (key : Bytes)
  deriving DecidableEq, Repr

/-- `u64::MAX`. -/
def u64Max : Nat := 2 ^ 64 - 1

/-- `u64::saturating_add`. -/
def saturatingAdd (a b : Nat) : Nat := min (a + b) u64Max

theorem saturatingAdd_of_le {a b : Nat} (h : a + b ≤ u64Max) : saturatingAdd a b = a + b :=
  Nat.min_eq_left h

/-- Modelled from the spec: `StorageUpdates` = (start sequence, end sequence, changes count,
serialised body), the body a sequence of put and delete records. -/
structure StorageUpdates where
  startSeqNumber : Nat
  endSeqNumber : Nat
  changesCount : Nat
  serialisedData : List StorageUpdatesIterItem
  deriving DecidableEq, Repr

namespace StorageUpdates

/-- Modelled from the spec: an empty change set starting (and, so far, ending) at `seq`. -/
def fromSeqNumber (seq : Nat) : StorageUpdates := ⟨seq, seq, 0, []⟩

/-- Modelled from the spec: append a put record to the body. -/
def addPut (u : StorageUpdates) (key value : Bytes) : StorageUpdates :=
  { u with serialisedData := u.serialisedData ++ [.put key value] }

/-- Modelled from the spec: append a delete record to the body. -/
def addDelete (u : StorageUpdates) (key : Bytes) : StorageUpdates :=
  { u with serialisedData := u.serialisedData ++ [.delete key] }

/-- Modelled from the spec: the serialised size of the body, record by record. -/
def len (recordSize : StorageUpdatesIterItem → Nat) (u : StorageUpdates) : Nat :=
  (u.serialisedData.map recordSize).sum

end StorageUpdates

/-- The record that `UpdateBatchIterator` writes for one batch operation. -/
def WriteBatchOp.toRecord : WriteBatchOp → StorageUpdatesIterItem
  | .put key value => .put key value
  | .delete key => .delete key

/-- The records of a batch, in the batch's order. -/
def WriteBatch.records (b : WriteBatch) : List StorageUpdatesIterItem := b.ops.map (·.toRecord)

/-- `UpdateBatchIterator`: the `WriteBatchIterator` that collects a page. -/
structure UpdateBatchIterator where
  storageUpdates : StorageUpdates
  deriving Repr

namespace UpdateBatchIterator

def new (fromSeq : Nat) : UpdateBatchIterator := ⟨StorageUpdates.fromSeqNumber fromSeq⟩

def update (it : UpdateBatchIterator) (seq : Nat) : UpdateBatchIterator :=
  ⟨{ it.storageUpdates with
      endSeqNumber := seq
      changesCount := saturatingAdd it.storageUpdates.changesCount 1 }⟩

/-- `WriteBatchIterator::put`. -/
def put (it : UpdateBatchIterator) (key value : Bytes) : UpdateBatchIterator :=
  ⟨it.storageUpdates.addPut key value⟩

/-- `WriteBatchIterator::delete`. -/
def delete (it : UpdateBatchIterator) (key : Bytes) : UpdateBatchIterator :=
  ⟨it.storageUpdates.addDelete key⟩

end UpdateBatchIterator

/-- `WriteBatch::iterate`: hand the batch's operations, in order, to the iterator. -/
def WriteBatch.iterate (b : WriteBatch) (it : UpdateBatchIterator) : UpdateBatchIterator :=
  b.ops.foldl (fun it op => match op with
    | .put key value => it.put key value
    | .delete key => it.delete key) it

/-- One turn of the loop of `storage_updates_since`: `write_batch.iterate(&mut myiter)`, then
`myiter.update(seq)`. -/
def UpdateBatchIterator.absorb (it : UpdateBatchIterator) (change : Nat × WriteBatch) :
    UpdateBatchIterator :=
  (change.2.iterate it).update change.1

/-- The `if let Some(limit) = limit { if value >= limit { break; } }` test of the loop. -/
def limitReached : Option Nat → Nat → Bool
  | some limit, value => limit ≤ value
  | none, _ => false

theorem limitReached_eq_true (limit : Option Nat) (value : Nat) :
    limitReached limit value = true ↔ ∃ m, limit = some m ∧ m ≤ value := by
  cases limit <;> simp [limitReached]

section Loop

variable (recordSize : StorageUpdatesIterItem → Nat) (memoryLimit changesCountLimit : Option Nat)

/-- The `for change in changes_iter` loop of `storage_updates_since`. -/
def collectChanges :
    UpdateBatchIterator → List (Except RocksError (Nat × WriteBatch)) →
      Except SableError StorageUpdates
  | myiter, [] => .ok myiter.storageUpdates
  | _, .error e :: _ => .error (.rocksDbError e)
  | myiter, .ok change :: rest =>
    let myiter := myiter.absorb change
    if limitReached memoryLimit (myiter.storageUpdates.len recordSize) then
      .ok myiter.storageUpdates
    else if limitReached changesCountLimit myiter.storageUpdates.changesCount then
      .ok myiter.storageUpdates
    else collectChanges myiter rest

end Loop

/-- `StorageRocksDb::storage_updates_since`, over the engine's `get_updates_since`. -/
def storageUpdatesSince (recordSize : StorageUpdatesIterItem → Nat)
    (getUpdatesSince : Nat → Except RocksError (List (Except RocksError (Nat × WriteBatch))))
    (sequenceNumber : Nat) (memoryLimit changesCountLimit : Option Nat) :
    Except SableError StorageUpdates :=
  match getUpdatesSince sequenceNumber with
  | .error e => .error (.rocksDbError e)
  | .ok changesIter =>
    collectChanges recordSize memoryLimit changesCountLimit
      (UpdateBatchIterator.new sequenceNumber) changesIter

/-! ## The page a call returns -/

@[simp] theorem WriteBatch.iterate_storageUpdates (b : WriteBatch) (it : UpdateBatchIterator) :
    (b.iterate it).storageUpdates =
      { it.storageUpdates with
        serialisedData := it.storageUpdates.serialisedData ++ b.records } := by
  obtain ⟨ops⟩ := b
  simp only [WriteBatch.iterate, WriteBatch.records]
  induction ops generalizing it with
  | nil => simp
  | cons op ops ih =>
    rw [List.foldl_cons, ih]
    cases op <;>
      simp [UpdateBatchIterator.put, UpdateBatchIterator.delete, StorageUpdates.addPut,
        StorageUpdates.addDelete, WriteBatchOp.toRecord]

@[simp] theorem UpdateBatchIterator.absorb_storageUpdates (it : UpdateBatchIterator) (seq : Nat)
    (b : WriteBatch) :
    (it.absorb (seq, b)).storageUpdates =
      { it.storageUpdates with
        endSeqNumber := seq
        changesCount := saturatingAdd it.storageUpdates.changesCount 1
        serialisedData := it.storageUpdates.serialisedData ++ b.records } := by
  simp [absorb, update]

/-- After a run of batches the iterator holds their records, the last one's sequence number
and their count (saturating at `u64::MAX`). -/
theorem UpdateBatchIterator.foldl_absorb (bs : List (Nat × WriteBatch)) (it : UpdateBatchIterator)
    (hc : it.storageUpdates.changesCount ≤ u64Max) :
    (bs.foldl absorb it).storageUpdates =
      { startSeqNumber := it.storageUpdates.startSeqNumber
        endSeqNumber := (bs.getLast?.map (·.1)).getD it.storageUpdates.endSeqNumber
        changesCount := min (it.storageUpdates.changesCount + bs.length) u64Max
        serialisedData := it.storageUpdates.serialisedData ++ bs.flatMap (·.2.records) } := by
  induction bs generalizing it with
  | nil => simp [Nat.min_eq_left hc]
  | cons b bs ih =>
    obtain ⟨seq, wb⟩ := b
    rw [List.foldl_cons, ih _ (by simp only [absorb_storageUpdates, saturatingAdd]; omega)]
    simp only [absorb_storageUpdates, saturatingAdd, List.length_cons, List.flatMap_cons,
      List.append_assoc, StorageUpdates.mk.injEq, true_and, and_true]
    refine ⟨?_, by omega⟩
    cases h : bs.getLast? <;> simp [h, List.getLast?_cons]

/-- The loop's exit test, both `break`s at once. -/
def UpdateBatchIterator.limitsReached (recordSize : StorageUpdatesIterItem → Nat)
    (memoryLimit changesCountLimit : Option Nat) (it : UpdateBatchIterator) : Bool :=
  limitReached memoryLimit (it.storageUpdates.len recordSize) ||
    limitReached changesCountLimit it.storageUpdates.changesCount

/-- **The loop stops right after the first batch at which a limit is reached.**  It returns
the iterator after the shortest prefix `take j` whose last turn reaches a limit, or after the
whole list when no turn does. -/
theorem collectChanges_ok (recordSize : StorageUpdatesIterItem → Nat)
    (memoryLimit changesCountLimit : Option Nat) (bs : List (Nat × WriteBatch))
    (it : UpdateBatchIterator) :
    ∃ j ≤ bs.length,
      (∀ i, 1 ≤ i → i < j → ((bs.take i).foldl UpdateBatchIterator.absorb it).limitsReached
          recordSize memoryLimit changesCountLimit = false) ∧
      ((1 ≤ j ∧ ((bs.take j).foldl UpdateBatchIterator.absorb it).limitsReached
          recordSize memoryLimit changesCountLimit = true) ∨ j = bs.length) ∧
      collectChanges recordSize memoryLimit changesCountLimit it (bs.map .ok) =
        .ok ((bs.take j).foldl UpdateBatchIterator.absorb it).storageUpdates := by
  induction bs generalizing it with
  | nil => exact ⟨0, le_rfl, by omega, .inr rfl, rfl⟩
  | cons b bs ih =>
    have hstep : collectChanges recordSize memoryLimit changesCountLimit it ((b :: bs).map .ok) =
        if (it.absorb b).limitsReached recordSize memoryLimit changesCountLimit then
          .ok (it.absorb b).storageUpdates
        else collectChanges recordSize memoryLimit changesCountLimit (it.absorb b)
          (bs.map .ok) := by
      simp only [List.map_cons, collectChanges, UpdateBatchIterator.limitsReached]
      by_cases h₁ : limitReached memoryLimit ((it.absorb b).storageUpdates.len recordSize) <;>
        by_cases h₂ : limitReached changesCountLimit (it.absorb b).storageUpdates.changesCount <;>
        simp only [h₁, h₂, Bool.or_true, Bool.or_false, if_true, if_false, Bool.false_eq_true,
          eq_self_iff_true, Bool.not_eq_true]
    by_cases hb : (it.absorb b).limitsReached recordSize memoryLimit changesCountLimit
    · exact ⟨1, Nat.succ_le_succ (Nat.zero_le _), by omega, .inl ⟨le_rfl, hb⟩,
        by rw [hstep, if_pos hb]; rfl⟩
    · obtain ⟨j, hj, hlt, hend, heq⟩ := ih (it.absorb b)
      refine ⟨j + 1, Nat.succ_le_succ hj, ?_, ?_, by rw [hstep, if_neg hb, heq]; rfl⟩
      · rintro (_ | _ | i) h1 h2
        · omega
        · exact Bool.eq_false_iff.2 hb
        · exact hlt (i + 1) (by omega) (by omega)
      · rcases hend with ⟨h1, h2⟩ | rfl
        · exact .inl ⟨by omega, h2⟩
        · exact .inr rfl

/-- The batches a log holds after sequence number `s`, in commit order. -/
def batchesAfter (log : List LoggedBatch) (s : Nat) : List LoggedBatch :=
  log.filter (fun b => s < b.seq)

/-- The engine's contract on its log: batches in commit order, with strictly ascending `u64`
sequence numbers. -/
structure LogContract (log : List LoggedBatch) : Prop where
  ordered : log.Pairwise (fun b b' => b.seq < b'.seq)
  bounded : ∀ b ∈ log, b.seq < 2 ^ 64

theorem length_le_of_pairwise_lt {l : List Nat} {a b : Nat} (hl : l.Pairwise (· < ·))
    (hr : ∀ x ∈ l, a ≤ x ∧ x < b) : l.length ≤ b - a := by
  induction l generalizing a with
  | nil => simp
  | cons x l ih =>
    obtain ⟨hx, hl⟩ := List.pairwise_cons.mp hl
    have := ih (a := x + 1) hl fun y hy => ⟨hx y hy, (hr y (by simp [hy])).2⟩
    have := hr x (by simp)
    simp only [List.length_cons]
    omega

/-- Strictly ascending `u64` sequence numbers above `s` leave room for at most `u64::MAX`
batches, so the saturating change count never saturates. -/
theorem LogContract.length_batchesAfter_le {log : List LoggedBatch} (hlog : LogContract log)
    (s : Nat) : (batchesAfter log s).length ≤ u64Max := by
  have h := length_le_of_pairwise_lt (a := 1) (b := 2 ^ 64)
    (l := (batchesAfter log s).map (·.seq))
    ((hlog.ordered.filter _).map _ fun _ _ h => h)
    (by
      simp only [List.mem_map, batchesAfter, List.mem_filter, decide_eq_true_eq]
      rintro _ ⟨b, ⟨hb, hs⟩, rfl⟩
      exact ⟨by omega, hlog.bounded b hb⟩)
  simpa [u64Max] using h

/-- The change list that the contract engine's `get_updates_since(s)` yields. -/
theorem updatesSince_eq (log : List LoggedBatch) (s : Nat) :
    updatesSince log s = .ok (((batchesAfter log s).map (fun b => (b.seq, b.batch))).map .ok) := by
  simp [updatesSince, batchesAfter]

/-- A page of the first `i` batches is full: their serialised records reach the memory limit,
or `i` reaches the count limit.  `storage_updates_since` stops at the first full page. -/
def PageFull (recordSize : StorageUpdatesIterItem → Nat) (memoryLimit changesCountLimit : Option Nat)
    (bs : List LoggedBatch) (i : Nat) : Prop :=
  (∃ m, memoryLimit = some m ∧ m ≤ (((bs.take i).flatMap (·.batch.records)).map recordSize).sum) ∨
    (∃ c, changesCountLimit = some c ∧ c ≤ i)

theorem limitsReached_iff_pageFull (recordSize : StorageUpdatesIterItem → Nat)
    (memoryLimit changesCountLimit : Option Nat) (s : Nat) (bs : List LoggedBatch) (i : Nat)
    (hi : i ≤ bs.length) (hn : bs.length ≤ u64Max) :
    (((bs.map (fun b => (b.seq, b.batch))).take i).foldl UpdateBatchIterator.absorb
        (.new s)).limitsReached recordSize memoryLimit changesCountLimit = true ↔
      PageFull recordSize memoryLimit changesCountLimit bs i := by
  have hfold := UpdateBatchIterator.foldl_absorb ((bs.map (fun b => (b.seq, b.batch))).take i)
    (.new s) (by simp [UpdateBatchIterator.new, StorageUpdates.fromSeqNumber])
  have hlen : (((bs.map (fun b => (b.seq, b.batch))).take i).foldl UpdateBatchIterator.absorb
      (.new s)).storageUpdates.len recordSize =
        (((bs.take i).flatMap (·.batch.records)).map recordSize).sum := by
    rw [StorageUpdates.len, hfold]
    simp [UpdateBatchIterator.new, StorageUpdates.fromSeqNumber, List.flatMap, ← List.map_take,
      Function.comp_def]
  have hcount : (((bs.map (fun b => (b.seq, b.batch))).take i).foldl UpdateBatchIterator.absorb
      (.new s)).storageUpdates.changesCount = i := by
    rw [hfold]
    simp only [UpdateBatchIterator.new, StorageUpdates.fromSeqNumber, List.length_take,
      List.length_map]
    omega
  rw [UpdateBatchIterator.limitsReached, hlen, hcount, Bool.or_eq_true, limitReached_eq_true,
    limitReached_eq_true]
  rfl

/-- Over any log, a page holds the records of the first `j` batches after `s` and ends at the
last one's sequence number, `j` being where the loop's exit test first fires. -/
theorem storageUpdatesSince_eq (recordSize : StorageUpdatesIterItem → Nat) (log : List LoggedBatch)
    (s : Nat) (memoryLimit changesCountLimit : Option Nat) :
    ∃ j ≤ (batchesAfter log s).length,
      (∀ i, 1 ≤ i → i < j → ((((batchesAfter log s).map (fun b => (b.seq, b.batch))).take i).foldl
        UpdateBatchIterator.absorb (.new s)).limitsReached recordSize memoryLimit
          changesCountLimit = false) ∧
      ((1 ≤ j ∧ ((((batchesAfter log s).map (fun b => (b.seq, b.batch))).take j).foldl
        UpdateBatchIterator.absorb (.new s)).limitsReached recordSize memoryLimit
          changesCountLimit = true) ∨ j = (batchesAfter log s).length) ∧
      storageUpdatesSince recordSize (updatesSince log) s memoryLimit changesCountLimit =
        .ok { startSeqNumber := s
              endSeqNumber := (((batchesAfter log s).take j).getLast?.map (·.seq)).getD s
              changesCount := min j u64Max
              serialisedData := ((batchesAfter log s).take j).flatMap (·.batch.records) } := by
  obtain ⟨j, hj, hlt, hend, heq⟩ := collectChanges_ok recordSize memoryLimit changesCountLimit
    ((batchesAfter log s).map (fun b => (b.seq, b.batch))) (.new s)
  rw [List.length_map] at hj hend
  refine ⟨j, hj, hlt, hend, ?_⟩
  have hfold := UpdateBatchIterator.foldl_absorb
    (((batchesAfter log s).map (fun b => (b.seq, b.batch))).take j) (.new s)
    (by simp [UpdateBatchIterator.new, StorageUpdates.fromSeqNumber])
  have hmin : min j (batchesAfter log s).length = j := min_eq_left hj
  rw [storageUpdatesSince, updatesSince_eq]
  dsimp only
  rw [heq, hfold]
  simp [UpdateBatchIterator.new, StorageUpdates.fromSeqNumber, ← List.map_take,
    List.getLast?_map, hmin, List.flatMap_map, Option.map_map, Function.comp_def]

/-- **One change-stream page is the shortest batch prefix that reaches a limit.**  Over the
engine's contract, `storage_updates_since(s, M, C)` returns the records of the first `j` batches
after `s`, whole and in order, with `j` their count and the last one's sequence number as the end
(`s` when there is none), where `j` is the least `i ≥ 1` whose page is full, or all the batches
when no page is. -/
theorem storageUpdatesSince_page (recordSize : StorageUpdatesIterItem → Nat)
    (log : List LoggedBatch) (hlog : LogContract log) (s : Nat)
    (memoryLimit changesCountLimit : Option Nat) :
    ∃ j ≤ (batchesAfter log s).length,
      (∀ i, 1 ≤ i → i < j →
        ¬ PageFull recordSize memoryLimit changesCountLimit (batchesAfter log s) i) ∧
      ((1 ≤ j ∧ PageFull recordSize memoryLimit changesCountLimit (batchesAfter log s) j) ∨
        j = (batchesAfter log s).length) ∧
      storageUpdatesSince recordSize (updatesSince log) s memoryLimit changesCountLimit =
        .ok { startSeqNumber := s
              endSeqNumber := (((batchesAfter log s).take j).getLast?.map (·.seq)).getD s
              changesCount := j
              serialisedData := ((batchesAfter log s).take j).flatMap (·.batch.records) } := by
  have hn := hlog.length_batchesAfter_le s
  obtain ⟨j, hj, hlt, hend, heq⟩ :=
    storageUpdatesSince_eq recordSize log s memoryLimit changesCountLimit
  have hfull := fun i (hi : i ≤ j) =>
    limitsReached_iff_pageFull recordSize memoryLimit changesCountLimit s _ i (by omega) hn
  refine ⟨j, hj, fun i h1 h2 hf => ?_, ?_, by rwa [min_eq_left (hj.trans hn)] at heq⟩
  · exact absurd ((hfull i (by omega)).mpr hf) (by simp [hlt i h1 h2])
  · rcases hend with ⟨h1, h2⟩ | h
    · exact .inl ⟨h1, (hfull j le_rfl).mp h2⟩
    · exact .inr h

theorem storageUpdatesSince_page_count_limit :
    LogContract [⟨1, ⟨[.put [1] [2]]⟩⟩, ⟨2, ⟨[.delete [1]]⟩⟩] ∧
    ∃ j ≤ (batchesAfter [⟨1, ⟨[.put [1] [2]]⟩⟩, ⟨2, ⟨[.delete [1]]⟩⟩] 0).length,
      (∀ i, 1 ≤ i → i < j → ¬ PageFull (fun _ => 1) none (some 1)
        (batchesAfter [⟨1, ⟨[.put [1] [2]]⟩⟩, ⟨2, ⟨[.delete [1]]⟩⟩] 0) i) ∧
      ((1 ≤ j ∧ PageFull (fun _ => 1) none (some 1)
          (batchesAfter [⟨1, ⟨[.put [1] [2]]⟩⟩, ⟨2, ⟨[.delete [1]]⟩⟩] 0) j) ∨
        j = (batchesAfter [⟨1, ⟨[.put [1] [2]]⟩⟩, ⟨2, ⟨[.delete [1]]⟩⟩] 0).length) ∧
      storageUpdatesSince (fun _ => 1) (updatesSince [⟨1, ⟨[.put [1] [2]]⟩⟩, ⟨2, ⟨[.delete [1]]⟩⟩])
          0 none (some 1) =
        .ok { startSeqNumber := 0
              endSeqNumber := (((batchesAfter [⟨1, ⟨[.put [1] [2]]⟩⟩, ⟨2, ⟨[.delete [1]]⟩⟩] 0).take
                j).getLast?.map (·.seq)).getD 0
              changesCount := j
              serialisedData := ((batchesAfter [⟨1, ⟨[.put [1] [2]]⟩⟩, ⟨2, ⟨[.delete [1]]⟩⟩] 0).take
                j).flatMap (·.batch.records) } :=
  ⟨⟨by decide, by decide⟩, storageUpdatesSince_page (fun _ => 1) _ ⟨by decide, by decide⟩ 0 none (some 1)⟩

end SableDb
