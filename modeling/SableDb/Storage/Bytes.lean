import Mathlib.Data.List.Infix

/-!
# Byte strings and the engine's key order

Keys and values of the storage layer are `BytesMut` buffers.  RocksDB's default comparator
orders raw keys bytewise (`memcmp` on unsigned bytes, a proper prefix first), and
`StorageRocksDb::iterate` leans on that order: the keys that start with a prefix `p` form one
contiguous run that begins at the first key `≥ p`.
-/

namespace SableDb

/-- A `BytesMut` buffer. -/
abbrev Bytes := List UInt8

/-- RocksDB's bytewise comparator as a strict order: unsigned bytes compared left to right,
a proper prefix before its extensions. -/
def bytewiseLt : Bytes → Bytes → Bool
  | [], [] => false
  | [], _ :: _ => true
  | _ :: _, [] => false
  | a :: as, b :: bs => a.toNat < b.toNat || (a = b && bytewiseLt as bs)

@[simp] theorem bytewiseLt_nil_left (b : Bytes) : bytewiseLt [] b = !b.isEmpty := by
  cases b <;> rfl

@[simp] theorem bytewiseLt_nil_right (a : Bytes) : bytewiseLt a [] = false := by
  cases a <;> rfl

@[simp] theorem bytewiseLt_cons (a b : UInt8) (as bs : Bytes) :
    bytewiseLt (a :: as) (b :: bs) = (a.toNat < b.toNat || (a = b && bytewiseLt as bs)) := rfl

theorem bytewiseLt_irrefl (a : Bytes) : bytewiseLt a a = false := by
  induction a with
  | nil => rfl
  | cons x xs ih => simp [ih]

theorem bytewiseLt_trans {a b c : Bytes} (hab : bytewiseLt a b) (hbc : bytewiseLt b c) :
    bytewiseLt a c := by
  induction a generalizing b c with
  | nil => cases b <;> cases c <;> simp_all
  | cons x xs ih =>
    match b, c with
    | [], _ => simp at hab
    | _ :: _, [] => simp at hbc
    | y :: ys, z :: zs =>
      simp only [bytewiseLt_cons, Bool.or_eq_true, decide_eq_true_eq, Bool.and_eq_true] at hab hbc ⊢
      rcases hab with h | ⟨rfl, h⟩ <;> rcases hbc with h' | ⟨rfl, h'⟩
      · exact .inl (h.trans h')
      · exact .inl h
      · exact .inl h'
      · exact .inr ⟨rfl, ih h h'⟩

/-- A key that extends `p` is not below `p`. -/
theorem bytewiseLt_prefix_eq_false {p a : Bytes} (h : p <+: a) : bytewiseLt a p = false := by
  induction p generalizing a with
  | nil => simp
  | cons x ps ih =>
    obtain ⟨t, rfl⟩ := h
    simp [ih (List.prefix_append ps t)]

/-- **The prefix run is contiguous.**  Once the ascending walk from `p` meets a key `a ≥ p`
that does not start with `p`, no later key `b > a` starts with `p` either. -/
theorem not_prefix_of_bytewiseLt {p a b : Bytes} (hge : bytewiseLt a p = false)
    (hna : ¬ p <+: a) (hab : bytewiseLt a b = true) : ¬ p <+: b := by
  induction p generalizing a b with
  | nil => exact absurd (List.nil_prefix) hna
  | cons x ps ih =>
    match a, b with
    | [], _ => simp at hge
    | _ :: _, [] => simp at hab
    | y :: as, z :: bs =>
      simp only [List.cons_prefix_cons, not_and] at hna ⊢
      simp only [bytewiseLt_cons, Bool.or_eq_false_iff, decide_eq_false_iff_not,
        Bool.and_eq_false_iff, Bool.or_eq_true, decide_eq_true_eq, Bool.and_eq_true] at hge hab
      intro hxz
      subst hxz
      have hxy : y = x := UInt8.toNat.inj (by
        rcases hab with h | ⟨rfl, -⟩ <;> rcases hge.2 with h' | h' <;> omega)
      subst hxy
      rcases hab with h | ⟨-, hab⟩
      · omega
      · exact ih (hge.2.resolve_left (by simp)) (hna rfl) hab

end SableDb
