import Mathlib.Order.Monotone.Basic
import SableDb.Replication.StorageUpdates

/-!
# Paging the change-stream

The replication producer reads the stream page by page: it calls
`storage_updates_since(cursor, memory_limit, changes_count_limit)`, ships the page, moves the
cursor to the page's `end_seq_number`, and calls again until a page holds no change.  Batches may
be committed between the calls.  The pages concatenate to one unlimited read of the log as it
stands at the last call: every record once, in commit order, and no batch cut across two pages
(`pageLoop_agrees`).
-/

namespace SableDb

section Paging

variable (recordSize : StorageUpdatesIterItem → Nat) (log : List LoggedBatch) (seen : Nat → Nat)
  (memoryLimit changesCountLimit : Option Nat)

/-- Modelled from the spec: the replication producer's loop, which polls
`storage_updates_since` from the cursor and moves the cursor to each page's end.  Call number
`call` reads the log as it stands then, the first `seen call` batches of `log`; the loop stops at
a page with no change.  `fuel` bounds the number of calls. -/
def pageLoop : (fuel call cursor : Nat) → Option (List StorageUpdates)
  | 0, _, _ => none
  | fuel + 1, call, cursor =>
    match storageUpdatesSince recordSize (updatesSince (log.take (seen call))) cursor memoryLimit
        changesCountLimit with
    | .error _ => none
    | .ok page =>
      if page.changesCount = 0 then some [page]
      else (pageLoop fuel (call + 1) page.endSeqNumber).map (page :: ·)

end Paging

/-! ## The log only grows at its end -/

theorem LogContract.take {log : List LoggedBatch} (hlog : LogContract log) (n : Nat) :
    LogContract (log.take n) :=
  ⟨hlog.ordered.sublist (List.take_sublist _ _), fun b hb => hlog.bounded b (List.mem_of_mem_take hb)⟩

/-- A later view of the log is an earlier one followed by batches with larger sequence
numbers. -/
theorem LogContract.take_extends {log : List LoggedBatch} (hlog : LogContract log) {n n' : Nat}
    (h : n ≤ n') :
    ∃ ext, log.take n' = log.take n ++ ext ∧ ∀ b ∈ log.take n, ∀ e ∈ ext, b.seq < e.seq := by
  refine ⟨(log.drop n).take (n' - n), by rw [← List.take_add, Nat.add_sub_cancel' h], ?_⟩
  have := List.pairwise_append.mp ((List.take_append_drop n log).symm ▸ hlog.ordered)
  exact fun b hb e he => this.2.2 b hb e (List.mem_of_mem_take he)

theorem le_seq_getLast {l : List LoggedBatch} (hl : l.Pairwise (fun b b' => b.seq < b'.seq))
    (h : l ≠ []) : ∀ b ∈ l, b.seq ≤ (l.getLast h).seq := by
  have := List.pairwise_append.mp ((List.dropLast_append_getLast h).symm ▸ hl)
  intro b hb
  rw [← List.dropLast_append_getLast h, List.mem_append, List.mem_singleton] at hb
  rcases hb with hb | rfl
  · exact le_of_lt (this.2.2 b hb _ (List.mem_singleton_self _))
  · exact le_rfl

/-- **Cutting after a page.**  Over a later view `L ++ ext` of the log, the batches after `k`
are the page's `j` batches followed by the batches after the page's last sequence number. -/
theorem batchesAfter_split {L ext : List LoggedBatch} (hL : L.Pairwise (fun b b' => b.seq < b'.seq))
    (hext : ∀ b ∈ L, ∀ e ∈ ext, b.seq < e.seq) (k j : Nat) (hj : 1 ≤ j)
    (hjn : j ≤ (batchesAfter L k).length) :
    batchesAfter (L ++ ext) k = (batchesAfter L k).take j ++
      batchesAfter (L ++ ext) ((((batchesAfter L k).take j).getLast?.map (·.seq)).getD k) := by
  set B := batchesAfter L k with hB
  have hT : B.take j ≠ [] := by rw [← List.length_pos, List.length_take]; omega
  set x := (B.take j).getLast hT
  have hxB : x ∈ B := List.mem_of_mem_take (List.getLast_mem hT)
  have hkx : k < x.seq := by simpa using (List.mem_filter.mp hxB).2
  have hB' : B.Pairwise (fun b b' : LoggedBatch => b.seq < b'.seq) := hL.filter _
  have hcut := List.pairwise_append.mp ((List.take_append_drop j B).symm ▸ hB')
  have hxext : ∀ e ∈ ext, x.seq < e.seq := hext x (List.mem_filter.mp hxB).1
  -- past `x` in `L` is exactly past the page in `B`
  have hdrop : L.filter (fun b => x.seq < b.seq) = B.drop j := by
    have hsub : L.filter (fun b => x.seq < b.seq) = B.filter (fun b => x.seq < b.seq) := by
      rw [hB, batchesAfter, List.filter_filter]
      exact List.filter_congr fun b _ => by simp; omega
    rw [hsub, ← List.take_append_drop j B, List.filter_append,
      List.filter_eq_nil_iff.mpr fun b hb => by simpa using le_seq_getLast hcut.1 hT b hb,
      List.filter_eq_self.mpr fun b hb => by simpa using hcut.2.2 x (List.getLast_mem hT) b hb]
    simp
  have hlast : (((B.take j).getLast?.map (·.seq)).getD k) = x.seq := by
    simp [List.getLast?_eq_getLast _ hT, x]
  have hk_ext : ext.filter (fun b => k < b.seq) = ext :=
    List.filter_eq_self.mpr fun e he => by simpa using hkx.trans (hxext e he)
  have hx_ext : ext.filter (fun b => x.seq < b.seq) = ext :=
    List.filter_eq_self.mpr fun e he => by simpa using hxext e he
  rw [hlast]
  show (L ++ ext).filter (fun b => k < b.seq) =
    B.take j ++ (L ++ ext).filter (fun b => x.seq < b.seq)
  rw [List.filter_append, List.filter_append, hdrop, hk_ext, hx_ext, ← List.append_assoc,
    List.take_append_drop]
  rfl

/-! ## The loop -/

section Loop

variable {recordSize : StorageUpdatesIterItem → Nat} {log : List LoggedBatch} {seen : Nat → Nat}
  {memoryLimit changesCountLimit : Option Nat}

theorem LogContract.take_extends_log {log : List LoggedBatch} (hlog : LogContract log) (n : Nat) :
    ∃ ext, log = log.take n ++ ext ∧ ∀ b ∈ log.take n, ∀ e ∈ ext, b.seq < e.seq := by
  obtain ⟨ext, h, hext⟩ := hlog.take_extends (le_max_left n log.length)
  exact ⟨ext, by rwa [List.take_of_length_le (le_max_right _ _)] at h, hext⟩

theorem flatten_map_flatMap {α β : Type} (segs : List (List α)) (f : α → List β) :
    (segs.map (·.flatMap f)).flatten = segs.flatten.flatMap f := by
  induction segs <;> simp_all [List.flatMap_append]

/-- From call `call` at cursor `k`, enough fuel reaches a page with no change, and the pages
cut the batches after `k`, as the log stands at the last call, into whole runs. -/
theorem pageLoop_spec (hlog : LogContract log) (hseen : Monotone seen) :
    ∀ fuel call k, (batchesAfter log k).length < fuel →
    ∃ pages, pageLoop recordSize log seen memoryLimit changesCountLimit fuel call k = some pages ∧
      pages.length ≤ (batchesAfter log k).length + 1 ∧
      pages.getLast?.map (·.changesCount) = some 0 ∧
      ∃ segs : List (List LoggedBatch),
        segs.flatten = batchesAfter (log.take (seen (call + pages.length - 1))) k ∧
        pages.map (·.serialisedData) = segs.map (·.flatMap (·.batch.records)) ∧
        pages.map (·.changesCount) = segs.map (·.length) := by
  intro fuel
  induction fuel with
  | zero => exact fun _ _ h => absurd h (Nat.not_lt_zero _)
  | succ fuel ih =>
    intro call k hfuel
    obtain ⟨j, hj, -, hend, heq⟩ := storageUpdatesSince_page recordSize _ (hlog.take (seen call)) k
      memoryLimit changesCountLimit
    set B := batchesAfter (log.take (seen call)) k
    rw [pageLoop, heq]
    dsimp only
    by_cases hj0 : j = 0
    · have hB : B = [] := by
        subst hj0; rcases hend with ⟨h, -⟩ | h
        · omega
        · exact List.eq_nil_of_length_eq_zero h.symm
      refine ⟨_, by rw [if_pos hj0], Nat.le_add_left 1 _, by simp [hj0], [[]], ?_, by simp [hj0],
        by simp [hj0]⟩
      rw [List.length_singleton, Nat.add_sub_cancel]
      exact hB.symm
    · set k' := ((B.take j).getLast?.map (·.seq)).getD k
      have hsplit : ∀ n, seen call ≤ n →
          batchesAfter (log.take n) k = B.take j ++ batchesAfter (log.take n) k' := by
        intro n hn
        obtain ⟨ext, hn', hext⟩ := hlog.take_extends hn
        rw [hn']
        exact batchesAfter_split (hlog.take _).ordered hext k j (by omega) hj
      have hlog' : batchesAfter log k = B.take j ++ batchesAfter log k' := by
        obtain ⟨ext, hn', hext⟩ := hlog.take_extends_log (seen call)
        conv_lhs => rw [hn']
        conv_rhs => rw [hn']
        exact batchesAfter_split (hlog.take _).ordered hext k j (by omega) hj
      have hlen : (batchesAfter log k).length = j + (batchesAfter log k').length := by
        rw [hlog', List.length_append, List.length_take, min_eq_left hj]
      obtain ⟨pages, hp, hplen, hplast, segs, hflat, hdata, hcount⟩ :=
        ih (call + 1) k' (by omega)
      have hne : pages ≠ [] := by rintro rfl; simp at hplast
      refine ⟨_, by rw [if_neg hj0, hp]; rfl, by rw [List.length_cons]; omega, ?_, B.take j :: segs, ?_,
        by simp [hdata], by simp [hcount, hj]⟩
      · dsimp only
        rw [List.getLast?_eq_getLast _ hne] at hplast
        rw [List.getLast?_cons, List.getLast?_eq_getLast _ hne]
        simpa using hplast
      · have hidx : call + (pages.length + 1) - 1 = call + 1 + pages.length - 1 := by
          have := List.length_pos.mpr hne; omega
        rw [List.flatten_cons, hflat, List.length_cons, hidx,
          hsplit _ (hseen (by have := List.length_pos.mpr hne; omega))]

/-- **Paging agrees with one unlimited read.**  Whatever the limits, and whatever batches are
committed between the calls (call `n` sees the first `seen n` batches of the final log `log`),
the loop from cursor `s0` reaches a page with no change within one call more than there are
batches after `s0`.  Its pages' bodies and change counts add up to those of one unlimited read
from `s0` of the log as it stands at the last call, and the pages cut that log's batches into
whole runs: each record once, in commit order, no batch split. -/
theorem pageLoop_agrees (recordSize : StorageUpdatesIterItem → Nat) (log : List LoggedBatch)
    (hlog : LogContract log) (seen : Nat → Nat) (hseen : Monotone seen) (s0 : Nat)
    (memoryLimit changesCountLimit : Option Nat) :
    ∃ pages, pageLoop recordSize log seen memoryLimit changesCountLimit
        ((batchesAfter log s0).length + 1) 0 s0 = some pages ∧
      pages.length ≤ (batchesAfter log s0).length + 1 ∧
      pages.getLast?.map (·.changesCount) = some 0 ∧
      ∃ whole, storageUpdatesSince recordSize (updatesSince (log.take (seen (pages.length - 1))))
          s0 none none = .ok whole ∧
        pages.flatMap (·.serialisedData) = whole.serialisedData ∧
        (pages.map (·.changesCount)).sum = whole.changesCount ∧
        ∃ segs : List (List LoggedBatch),
          segs.flatten = batchesAfter (log.take (seen (pages.length - 1))) s0 ∧
          pages.map (·.serialisedData) = segs.map (·.flatMap (·.batch.records)) := by
  obtain ⟨pages, hp, hlen, hlast, segs, hflat, hdata, hcount⟩ :=
    @pageLoop_spec recordSize log seen memoryLimit changesCountLimit hlog hseen _ 0 s0
      (Nat.lt_succ_self _)
  obtain ⟨j, hj, -, hend, hwhole⟩ := storageUpdatesSince_page recordSize _
    (hlog.take (seen (pages.length - 1))) s0 none none
  have hjn : j = (batchesAfter (log.take (seen (pages.length - 1))) s0).length := by
    rcases hend with ⟨-, h⟩ | h
    · simp [PageFull] at h
    · exact h
  rw [Nat.zero_add] at hflat
  refine ⟨pages, hp, hlen, hlast, _, hwhole, ?_, ?_, segs, hflat, hdata⟩
  · rw [List.flatMap, hdata, hjn, List.take_length, ← hflat, flatten_map_flatMap]
  · rw [hcount, hjn, ← hflat, List.length_flatten]

end Loop

theorem pageLoop_agrees_growing_log :
    LogContract [⟨1, ⟨[.put [1] [2]]⟩⟩, ⟨2, ⟨[.delete [1]]⟩⟩] ∧ Monotone (fun n : Nat => n + 1) ∧
    ∃ pages, pageLoop (fun _ => 1) [⟨1, ⟨[.put [1] [2]]⟩⟩, ⟨2, ⟨[.delete [1]]⟩⟩] (fun n => n + 1)
        none (some 1) ((batchesAfter [⟨1, ⟨[.put [1] [2]]⟩⟩, ⟨2, ⟨[.delete [1]]⟩⟩] 0).length + 1)
        0 0 = some pages ∧
      pages.length ≤ (batchesAfter [⟨1, ⟨[.put [1] [2]]⟩⟩, ⟨2, ⟨[.delete [1]]⟩⟩] 0).length + 1 ∧
      pages.getLast?.map (·.changesCount) = some 0 ∧
      ∃ whole, storageUpdatesSince (fun _ => 1) (updatesSince
          ([⟨1, ⟨[.put [1] [2]]⟩⟩, ⟨2, ⟨[.delete [1]]⟩⟩].take (pages.length - 1 + 1))) 0 none none =
          .ok whole ∧
        pages.flatMap (·.serialisedData) = whole.serialisedData ∧
        (pages.map (·.changesCount)).sum = whole.changesCount ∧
        ∃ segs : List (List LoggedBatch),
          segs.flatten = batchesAfter
            ([⟨1, ⟨[.put [1] [2]]⟩⟩, ⟨2, ⟨[.delete [1]]⟩⟩].take (pages.length - 1 + 1)) 0 ∧
          pages.map (·.serialisedData) = segs.map (·.flatMap (·.batch.records)) :=
  ⟨⟨by decide, by decide⟩, fun _ _ h => Nat.succ_le_succ h,
    pageLoop_agrees (fun _ => 1) _ ⟨by decide, by decide⟩ (fun n => n + 1)
      (fun _ _ h => Nat.succ_le_succ h) 0 none (some 1)⟩

end SableDb
