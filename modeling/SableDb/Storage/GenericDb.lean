import SableDb.Storage.Engine
import Mathlib.Logic.Function.Basic

/-!
# `GenericDb`: the typed key space of the generic commands

`GenericDb`, the value metadata and the list type are not in the repository; we model them
from the spec's layout.  A user key's primary entry holds the value bytes and the common value
metadata: the value's type tag and its expiration.  Expiration is lazy: an entry whose expiry
time has passed reads as absent (`live`), and a reader that meets it may delete it there and
then.  The expiration helpers read the clock, and a command runs at one instant, so
`ExpirationOps` gives them at that instant; the generic commands' results hold for any such
helpers.

Every `GenericDb` call goes to storage and can fail, as every engine call can.  A command gets
the outcomes of its calls as a `DbCalls`, as `Engine` gets a fault per call: which reads and
writes fail, and which reads delete the expired entry they meet.
-/

namespace SableDb

/-- Modelled from the spec: the `value_type` tag of the common value metadata. -/
inductive ValueType
  | string
  | list
  | hash
  | reserved (tag : UInt8)
  deriving DecidableEq, Repr

/-- Modelled from the spec: `CommonValueMetadata`, through the two accessors the generic
commands read. -/
structure CommonValueMetadata (E : Type) where
  valueType : ValueType
  expiration : E
  deriving DecidableEq, Repr

/-- Modelled from the spec: the helpers of an `expiration`, read at the instant the command
runs.  `isExpired` is the lazy-expiration test readers apply. -/
structure ExpirationOps (E : Type) where
  hasTtl : E → Bool
  isExpired : E → Bool
  ttlInSeconds : E → Except SableError UInt64
  setTtlSeconds : E → UInt64 → Except SableError E

/-- Modelled from the spec: the primary entries of one database, by user key: the value bytes
and the metadata. -/
abbrev KeySpace (E : Type) := Bytes → Option (Bytes × CommonValueMetadata E)

/-- Modelled from the spec: how the `GenericDb` calls of one command turn out.  The read of the
command's `i`-th key fails with `readFault i` or succeeds, and a read that meets an expired
entry deletes it when `purge i`; the write for the `i`-th key fails with `writeFault i` or
succeeds. -/
structure DbCalls where
  readFault : Nat → Option SableError
  purge : Nat → Bool
  writeFault : Nat → Option SableError

namespace DbCalls

/-- Every call succeeds, and no read deletes what it meets. -/
def healthy : DbCalls := ⟨fun _ => none, fun _ => false, fun _ => none⟩

/-- Every read and every write of the command succeeds. -/
def Succeed (calls : DbCalls) : Prop := ∀ i, calls.readFault i = none ∧ calls.writeFault i = none

theorem healthy_succeed : healthy.Succeed := fun _ => ⟨rfl, rfl⟩

end DbCalls

namespace GenericDb

variable {E : Type} (ops : ExpirationOps E)

/-- Modelled from the spec: what a reader observes of a key under lazy expiration: its entry,
unless it has none or its expiration has passed. -/
def live (ks : KeySpace E) (userKey : Bytes) : Option (Bytes × CommonValueMetadata E) :=
  match ks userKey with
  | some entry => if ops.isExpired entry.2.expiration then none else some entry
  | none => none

/-- Whether a reader observes an entry at the key. -/
def isLive (ks : KeySpace E) (userKey : Bytes) : Bool := (live ops ks userKey).isSome

/-- The key space after a reader deletes the expired entry it met at `userKey`, if any. -/
def purgeExpired (ks : KeySpace E) (userKey : Bytes) : KeySpace E :=
  match ks userKey with
  | some entry =>
    if ops.isExpired entry.2.expiration then Function.update ks userKey none else ks
  | none => ks

/-- Modelled from the spec: `GenericDb::get`.  The read fails with `fault` and changes nothing,
or returns what a reader observes; when `purge` it deletes the expired entry it met. -/
def get (ks : KeySpace E) (userKey : Bytes) (fault : Option SableError) (purge : Bool) :
    Except SableError (Option (Bytes × CommonValueMetadata E)) × KeySpace E :=
  match fault with
  | some e => (.error e, ks)
  | none => (.ok (live ops ks userKey), if purge then purgeExpired ops ks userKey else ks)

/-- Modelled from the spec: `GenericDb::contains`, a `get` of the key. -/
def contains (ks : KeySpace E) (userKey : Bytes) (fault : Option SableError) (purge : Bool) :
    Except SableError Bool × KeySpace E :=
  let read := get ops ks userKey fault purge
  (read.1.map Option.isSome, read.2)

/-- Modelled from the spec: `GenericDb::get_expiration`, a `get` of the key. -/
def getExpiration (ks : KeySpace E) (userKey : Bytes) (fault : Option SableError)
    (purge : Bool) : Except SableError (Option E) × KeySpace E :=
  let read := get ops ks userKey fault purge
  (read.1.map (Option.map (·.2.expiration)), read.2)

/-- Modelled from the spec: `GenericDb::delete` removes the primary entry, or fails with `fault`
and writes nothing. -/
def delete (ks : KeySpace E) (userKey : Bytes) (fault : Option SableError) :
    Except SableError Unit × KeySpace E :=
  match fault with
  | some e => (.error e, ks)
  | none => (.ok (), Function.update ks userKey none)

/-- The key space with the expiration of `userKey`'s entry rewritten, and nothing else. -/
def setExpiration (ks : KeySpace E) (userKey : Bytes) (expiration : E) : KeySpace E :=
  Function.update ks userKey ((ks userKey).map fun entry => (entry.1, { entry.2 with expiration }))

/-- Modelled from the spec: `GenericDb::put_expiration` rewrites the expiration of the primary
entry and nothing else, or fails with `fault` and writes nothing. -/
def putExpiration (ks : KeySpace E) (userKey : Bytes) (expiration : E)
    (fault : Option SableError) : Except SableError Unit × KeySpace E :=
  match fault with
  | some e => (.error e, ks)
  | none => (.ok (), setExpiration ks userKey expiration)

/-! ## What a reader observes -/

/-- `live` reads the key's own entry and nothing else. -/
theorem live_congr {ks ks' : KeySpace E} {userKey : Bytes} (h : ks userKey = ks' userKey) :
    live ops ks userKey = live ops ks' userKey := by
  simp only [live, h]

theorem live_of_eq_none {ks : KeySpace E} {userKey : Bytes} (h : ks userKey = none) :
    live ops ks userKey = none := by
  simp only [live, h]

/-- An entry a reader observes is the key's own entry. -/
theorem eq_of_live_eq_some {ks : KeySpace E} {userKey : Bytes}
    {entry : Bytes × CommonValueMetadata E} (h : live ops ks userKey = some entry) :
    ks userKey = some entry := by
  unfold live at h
  split at h
  · split at h
    · cases h
    · exact (Option.some.inj h) ▸ ‹_›
  · cases h

/-- A reader that deletes an expired entry deletes only something no reader observes. -/
theorem purgeExpired_eq (ks : KeySpace E) (userKey : Bytes) :
    purgeExpired ops ks userKey = ks ∨
      live ops ks userKey = none ∧ purgeExpired ops ks userKey = Function.update ks userKey none := by
  unfold purgeExpired live
  split
  · split
    · exact .inr ⟨rfl, rfl⟩
    · exact .inl rfl
  · exact .inl rfl

theorem setExpiration_of_ne (ks : KeySpace E) {userKey key : Bytes} (e : E) (h : key ≠ userKey) :
    setExpiration ks userKey e key = ks key :=
  Function.update_noteq h _ _

/-- **TTL writes keep the value and its type.**  After a TTL write the key holds the same value
bytes and type tag as before, with the new expiration. -/
theorem setExpiration_self (ks : KeySpace E) (userKey : Bytes) (e : E) :
    setExpiration ks userKey e userKey =
      (ks userKey).map fun entry => (entry.1, ⟨entry.2.valueType, e⟩) :=
  Function.update_same _ _ _

theorem isLive_congr {ks ks' : KeySpace E} {userKey : Bytes} (h : ks userKey = ks' userKey) :
    isLive ops ks userKey = isLive ops ks' userKey := by
  rw [isLive, isLive, live_congr ops h]

theorem isLive_of_eq_none {ks : KeySpace E} {userKey : Bytes} (h : ks userKey = none) :
    isLive ops ks userKey = false := by
  rw [isLive, live_of_eq_none ops h, Option.isSome_none]

/-- A read that meets a live entry deletes nothing. -/
theorem purgeExpired_of_live_eq_some {ks : KeySpace E} {userKey : Bytes}
    {entry : Bytes × CommonValueMetadata E} (h : live ops ks userKey = some entry) :
    purgeExpired ops ks userKey = ks :=
  (purgeExpired_eq ops ks userKey).resolve_right fun ⟨hnone, _⟩ => by rw [h] at hnone; cases hnone

theorem get_of_none (ks : KeySpace E) (userKey : Bytes) (purge : Bool) :
    get ops ks userKey none purge =
      (.ok (live ops ks userKey), if purge then purgeExpired ops ks userKey else ks) := rfl

/-! ## What a call leaves -/

/-- `ks'` is `ks` less some entries of keys that satisfy `p`; nothing else changed. -/
def RemovesOnly (p : Bytes → Prop) (ks ks' : KeySpace E) : Prop :=
  ∀ key, ks' key = ks key ∨ p key ∧ ks' key = none

namespace RemovesOnly

variable {p q : Bytes → Prop} {ks₁ ks₂ ks₃ : KeySpace E}

theorem refl (p : Bytes → Prop) (ks : KeySpace E) : RemovesOnly p ks ks := fun _ => .inl rfl

theorem trans (h₁ : RemovesOnly p ks₁ ks₂) (h₂ : RemovesOnly p ks₂ ks₃) :
    RemovesOnly p ks₁ ks₃ := fun key => by
  rcases h₂ key with h | h
  · rw [h]; exact h₁ key
  · exact .inr h

theorem mono (hpq : ∀ key, p key → q key) (h : RemovesOnly p ks₁ ks₂) : RemovesOnly q ks₁ ks₂ :=
  fun key => (h key).imp_right fun ⟨hp, hnone⟩ => ⟨hpq key hp, hnone⟩

/-- A key without an entry gets none back. -/
theorem eq_none (h : RemovesOnly p ks₁ ks₂) {key : Bytes} (hnone : ks₁ key = none) :
    ks₂ key = none :=
  (h key).elim (·.trans hnone) And.right

theorem update_none (h : RemovesOnly p ks₁ ks₂) {userKey : Bytes} (hp : p userKey) :
    RemovesOnly p ks₁ (Function.update ks₂ userKey none) := fun key => by
  by_cases hk : key = userKey
  · subst hk
    exact .inr ⟨hp, Function.update_same _ _ _⟩
  · rw [Function.update_noteq hk]
    exact h key

end RemovesOnly

/-- A read deletes at most the entry it met, and only one that no reader observes. -/
theorem removesOnly_purgeExpired (ks : KeySpace E) (userKey : Bytes) :
    RemovesOnly (fun key => key = userKey ∧ live ops ks key = none) ks
      (purgeExpired ops ks userKey) := by
  rcases purgeExpired_eq ops ks userKey with h | ⟨hnone, h⟩
  · rw [h]
    exact .refl _ ks
  · rw [h]
    exact (RemovesOnly.refl _ ks).update_none ⟨rfl, hnone⟩

theorem removesOnly_delete (ks : KeySpace E) (userKey : Bytes) (fault : Option SableError) :
    RemovesOnly (· = userKey) ks (delete ks userKey fault).2 := by
  cases fault with
  | some => exact .refl _ ks
  | none => exact (RemovesOnly.refl _ ks).update_none rfl

/-- `ks'` is `ks` less some entries that no reader observes: what reads leave. -/
def Purges (ks ks' : KeySpace E) : Prop := RemovesOnly (fun key => live ops ks key = none) ks ks'

/-- Reads change nothing a reader observes. -/
theorem Purges.live_eq {ks ks' : KeySpace E} (h : Purges ops ks ks') (key : Bytes) :
    live ops ks' key = live ops ks key := by
  rcases h key with hk | ⟨hnone, hk⟩
  · exact live_congr ops hk
  · rw [live_of_eq_none ops hk, hnone]

theorem Purges.trans {ks₁ ks₂ ks₃ : KeySpace E} (h₁ : Purges ops ks₁ ks₂)
    (h₂ : Purges ops ks₂ ks₃) : Purges ops ks₁ ks₃ :=
  RemovesOnly.trans h₁ (RemovesOnly.mono (fun key hk => (Purges.live_eq ops h₁ key).symm.trans hk) h₂)

theorem purges_purgeExpired (ks : KeySpace E) (userKey : Bytes) :
    Purges ops ks (purgeExpired ops ks userKey) :=
  RemovesOnly.mono (fun _ => And.right) (removesOnly_purgeExpired ops ks userKey)

theorem purges_get (ks : KeySpace E) (userKey : Bytes) (fault : Option SableError)
    (purge : Bool) : Purges ops ks (get ops ks userKey fault purge).2 := by
  cases fault with
  | some => exact RemovesOnly.refl _ ks
  | none =>
    cases purge with
    | false => exact RemovesOnly.refl _ ks
    | true => exact purges_purgeExpired ops ks userKey

end GenericDb

/-- Modelled from the spec: `List::remove(user_key, None, i32::MAX, …)` as DEL calls it.  With no
value and a count of `i32::MAX` it removes every element, and an empty list has no primary
entry; it fails with `fault` and writes nothing. -/
def Types.List.remove {E : Type} (ks : KeySpace E) (userKey : Bytes) (fault : Option SableError) :
    Except SableError Unit × KeySpace E :=
  GenericDb.delete ks userKey fault

/-- Modelled from the spec: an `expiration`, absent or an absolute expiry time in
microseconds. -/
inductive Expiration
  | absent
  | at (micros : Nat)
  deriving DecidableEq, Repr

/-- Modelled from the spec: the helpers of `Expiration` when the clock reads `now`
microseconds.  `ttl_in_seconds` is the ceiling of the remaining microseconds over 10⁶, as TTL
replies it; the spec leaves it open for an absent expiration, and here it is `u64::MAX`. -/
def Expiration.ops (now : Nat) : ExpirationOps Expiration where
  hasTtl
    | .absent => false
    | .at _ => true
  isExpired
    | .absent => false
    | .at micros => micros ≤ now
  ttlInSeconds
    | .absent => .ok 18446744073709551615
    | .at micros => .ok (UInt64.ofNat ((micros - now + 999999) / 1000000))
  setTtlSeconds _ seconds := .ok (.at (now + seconds.toNat * 1000000))

/-- An entry expired at one instant stays expired at every later one. -/
theorem Expiration.isExpired_mono {t t' : Nat} (h : t ≤ t') (e : Expiration)
    (he : (Expiration.ops t).isExpired e = true) : (Expiration.ops t').isExpired e = true := by
  cases e with
  | absent => exact he
  | «at» micros =>
    simp only [Expiration.ops, decide_eq_true_eq] at he ⊢
    omega

/-- What a reader observes as absent at one instant stays absent at every later one. -/
theorem GenericDb.live_eq_none_of_le {t t' : Nat} (h : t ≤ t') {ks : KeySpace Expiration}
    {key : Bytes} (hgone : GenericDb.live (Expiration.ops t) ks key = none) :
    GenericDb.live (Expiration.ops t') ks key = none := by
  unfold GenericDb.live at hgone ⊢
  cases hk : ks key with
  | none => rfl
  | some entry =>
    rw [hk] at hgone
    dsimp only at hgone ⊢
    split_ifs at hgone with hexp
    rw [if_pos (Expiration.isExpired_mono h _ hexp)]

/-- What a read at one instant deletes, no reader observes at any later instant either. -/
theorem GenericDb.Purges.live_eq_of_le {t t' : Nat} (h : t ≤ t') {ks ks' : KeySpace Expiration}
    (hp : GenericDb.Purges (Expiration.ops t) ks ks') (key : Bytes) :
    GenericDb.live (Expiration.ops t') ks' key = GenericDb.live (Expiration.ops t') ks key := by
  rcases hp key with hk | ⟨hnone, hk⟩
  · exact GenericDb.live_congr _ hk
  · rw [GenericDb.live_of_eq_none _ hk, GenericDb.live_eq_none_of_le h hnone]

end SableDb
