import Mathlib.Logic.Function.Basic

-- A memory of cells under addresses, and the blocks of consecutive cells in it.
abbrev Memory (α : Type) := Nat → α

namespace Memory

variable {α : Type} {m : Memory α} {a n size : Nat} {b : α} {data : List α}

-- The memory with `data` stored at `a`, and nothing else changed.
def store (m : Memory α) (a : Nat) (data : List α) : Memory α :=
  fun n => if a ≤ n then data.getD (n - a) (m n) else m n

def load (m : Memory α) (a n : Nat) : List α :=
  (List.range n).map fun i => m (a + i)

-- The cells under the addresses that `cell` gives are written one after the other.
def writeTo (cell : Nat → Nat) : Memory α → Nat → List α → Memory α
  | m, _, []        => m
  | m, i, b :: data => writeTo cell (Function.update m (cell i) b) (i + 1) data

-- A write that begins at `a` and wraps around at the end of the page of `size` cells.
def storePage (size : Nat) (m : Memory α) (a : Nat) (data : List α) : Memory α :=
  let base := a / size * size
  writeTo (fun i => base + (a - base + i) % size) m 0 data

@[simp]
theorem length_load : (m.load a n).length = n := by
  simp [load]

@[simp]
theorem load_zero : m.load a 0 = [] :=
  rfl

theorem load_one : m.load a 1 = [m a] :=
  rfl

theorem load_two : m.load a 2 = [m a, m (a + 1)] :=
  rfl

theorem load_succ : m.load a (n + 1) = m a :: m.load (a + 1) n := by
  simp [load, List.range_succ_eq_map, Function.comp_def, Nat.add_assoc, Nat.add_comm 1]

theorem load_add {k : Nat} : m.load a (n + k) = m.load a n ++ m.load (a + n) k := by
  simp [load, List.range_add, Nat.add_assoc]

theorem load_congr {m' : Memory α} (h : ∀ i < n, m (a + i) = m' (a + i)) : m.load a n = m'.load a n :=
  List.map_congr_left fun i hi => h i (List.mem_range.mp hi)

-- What has been loaded, from a place on.
theorem drop_load {k : Nat} (h : k + n = size) : (m.load a size).drop k = m.load (a + k) n := by
  rw [← h, load_add, List.drop_left' length_load]

theorem take_drop_load {k : Nat} (h : k + n ≤ size) : ((m.load a size).drop k).take n = m.load (a + k) n := by
  obtain ⟨j, rfl⟩ := Nat.exists_eq_add_of_le h
  rw [drop_load (Nat.add_assoc k n j).symm, load_add, List.take_left' length_load]

theorem flatten_loads {k : Nat} : ((List.range k).map fun i => m.load (a + i * n) n).flatten = m.load a (k * n) := by
  induction k
  case zero    => simp
  case succ hi => simp [List.range_succ, hi, Nat.succ_mul, load_add]

theorem take_load {k : Nat} : (m.load a n).take k = m.load a (min k n) := by
  rw [load, load, ← List.map_take, List.take_range]

@[simp]
theorem store_nil : m.store a [] = m := by
  funext n
  simp [store]

theorem store_cons : m.store a (b :: data) = store (Function.update m a b) (a + 1) data := by
  funext n
  rcases Nat.lt_trichotomy n a with h | h | h
  case inl    => simp [store, Nat.not_le.mpr h, Nat.not_le.mpr (Nat.lt_succ_of_lt h), Nat.ne_of_lt h]
  case inr.inl =>
    rw [h, store, store, if_neg (Nat.not_succ_le_self a)]
    simp
  case inr.inr =>
    obtain ⟨k, rfl⟩ : ∃ k, n = a + 1 + k := ⟨n - (a + 1), by omega⟩
    have hk : a + 1 + k - a = k + 1 := by omega
    have hn : a + 1 + k ≠ a := by omega
    simp [store, hk, hn, Nat.le_of_lt h]

theorem store_singleton : m.store a [b] = Function.update m a b := by
  rw [store_cons, store_nil]

-- Storing one cell changes the memory, unless it was there already.
theorem store_singleton_eq_self_iff : m.store a [b] = m ↔ b = m a := by
  rw [store_singleton, Function.update_eq_self_iff]

theorem store_singleton_store_singleton {c : α} : (m.store a [b]).store a [c] = m.store a [c] := by
  rw [store_singleton, store_singleton, store_singleton, Function.update_idem]

theorem store_append {data' : List α} :
    m.store a (data ++ data') = (m.store a data).store (a + data.length) data' := by
  induction data generalizing m a
  case nil     => simp
  case cons hi => rw [List.cons_append, store_cons, store_cons, hi, List.length_cons, Nat.add_right_comm, Nat.add_assoc]

@[simp]
theorem load_store : (m.store a data).load a data.length = data := by
  refine List.ext_getElem length_load ?_
  intro i _ h
  simp [load, store, h]

theorem writeTo_eq_store {cell : Nat → Nat} {i : Nat} (h : ∀ j < data.length, cell (i + j) = a + j) :
    writeTo cell m i data = m.store a data := by
  induction data generalizing m a i
  case nil => simp [writeTo]
  case cons b data hi =>
    have h₀ : cell i = a := h 0 (by simp)
    have h₁ : ∀ j < data.length, cell (i + 1 + j) = a + 1 + j := by
      intro j hj
      have := h (j + 1) (by simpa using hj)
      rwa [← Nat.add_assoc, Nat.add_right_comm, ← Nat.add_assoc, Nat.add_right_comm a] at this
    rw [writeTo, store_cons, h₀, hi h₁]

theorem writeTo_append {cell : Nat → Nat} {i : Nat} {data' : List α} :
    writeTo cell m i (data ++ data') = writeTo cell (writeTo cell m i data) (i + data.length) data' := by
  induction data generalizing m i
  case nil     => rfl
  case cons hi => rw [List.cons_append, writeTo, writeTo, hi, List.length_cons, Nat.add_right_comm, Nat.add_assoc]

-- A write that stays in its page does not wrap.
theorem storePage_eq_store (h : a % size + data.length ≤ size) : storePage size m a data = m.store a data := by
  have ha : a / size * size + a % size = a := Nat.div_add_mod' a size
  refine writeTo_eq_store ?_
  intro j hj
  have hm : a - a / size * size + (0 + j) = a % size + j := by omega
  rw [hm, Nat.mod_eq_of_lt (by omega)]
  omega

end Memory
