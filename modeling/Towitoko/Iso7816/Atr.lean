import Mathlib.Data.List.Basic

-- The answer to reset of ISO 7816-3: TS and T0, rows of interface bytes each of which announces the next one,
-- historical bytes, and a check byte where a protocol asks for it. Bytes are of any type.
namespace Iso7816.Atr

variable {β : Type}

-- The interface bytes that follow a format byte, that is, T0 or one of the TD bytes.
structure Format where
  ta : Bool
  tb : Bool
  tc : Bool
  td : Bool

structure Row (β : Type) where
  ta : Option β
  tb : Option β
  tc : Option β
  td : Option β
  deriving DecidableEq

namespace Row

def bytes (r : Row β) : List β :=
  r.ta.toList ++ r.tb.toList ++ r.tc.toList ++ r.td.toList

-- The row has the bytes that were announced, and no others.
structure Announced (f : Format) (r : Row β) : Prop where
  ta : r.ta.isSome = f.ta
  tb : r.tb.isSome = f.tb
  tc : r.tc.isSome = f.tc
  td : r.td.isSome = f.td

end Row

-- How bytes are understood: the format that they give, the number of historical bytes in T0, and if the
-- protocol of a TD byte asks for a check byte.
structure Code (β : Type) where
  format     : β → Format
  historical : β → Nat
  asks       : β → Bool

-- The rows that follow a format byte.
def Chain (code : Code β) : β → List (Row β) → Prop
  | _, []      => False
  | b, r :: rs => r.Announced (code.format b) ∧
    match r.td with
    | none    => rs = []
    | some td => Chain code td rs

def lastTD (rs : List (Row β)) : Option β :=
  (rs.filterMap Row.td).getLast?

structure Answer (β : Type) where
  ts         : β
  t0         : β
  rows       : List (Row β)
  historical : List β
  check      : Option β
  deriving DecidableEq

namespace Answer

def bytes (a : Answer β) : List β :=
  a.ts :: a.t0 :: (a.rows.flatMap Row.bytes ++ (a.historical ++ a.check.toList))

structure WellFormed (code : Code β) (a : Answer β) : Prop where
  rows       : Chain code a.t0 a.rows
  historical : a.historical.length = code.historical a.t0
  check      : a.check.isSome = (lastTD a.rows).any code.asks

end Answer

section

variable {code : Code β} {f : Format} {r r' : Row β} {rs rs' : List (Row β)} {b : β} {bs bs' : List β} {a a' : Answer β}

theorem lastTD_cons_none (ht : r.td = none) : lastTD (r :: rs) = lastTD rs := by
  rw [lastTD, List.filterMap_cons_none ht, lastTD]

theorem lastTD_cons_some {td : β} (ht : r.td = some td) : lastTD (r :: rs) = some ((lastTD rs).getD td) := by
  rw [lastTD, List.filterMap_cons_some ht, List.getLast?_cons, lastTD]

theorem append_inj_of_isSome {o o' : Option β} (h : o.isSome = o'.isSome) (he : o.toList ++ bs = o'.toList ++ bs') :
    o = o' ∧ bs = bs' := by
  cases o <;> cases o' <;> simp_all

theorem Row.append_inj (h : r.Announced f) (h' : r'.Announced f) (he : r.bytes ++ bs = r'.bytes ++ bs') :
    r = r' ∧ bs = bs' := by
  simp only [bytes, List.append_assoc] at he
  have ⟨h₁, he⟩ := append_inj_of_isSome (h.ta.trans h'.ta.symm) he
  have ⟨h₂, he⟩ := append_inj_of_isSome (h.tb.trans h'.tb.symm) he
  have ⟨h₃, he⟩ := append_inj_of_isSome (h.tc.trans h'.tc.symm) he
  have ⟨h₄, he⟩ := append_inj_of_isSome (h.td.trans h'.td.symm) he
  have ⟨_, _, _, _⟩ := r
  have ⟨_, _, _, _⟩ := r'
  simp_all

theorem chain_last (ht : r.td = none) : Chain code b (r :: rs) ↔ r.Announced (code.format b) ∧ rs = [] := by
  rw [Chain, ht]

theorem chain_next {td : β} (ht : r.td = some td) :
    Chain code b (r :: rs) ↔ r.Announced (code.format b) ∧ Chain code td rs := by
  rw [Chain, ht]

-- Each row says how the next one is read, so that there is only one way to read them all.
theorem Chain.append_inj (h : Chain code b rs) (h' : Chain code b rs')
    (he : rs.flatMap Row.bytes ++ bs = rs'.flatMap Row.bytes ++ bs') : rs = rs' ∧ bs = bs' := by
  induction rs generalizing b rs'
  case nil => exact h.elim
  case cons r rs hi =>
    cases rs'
    case nil => exact h'.elim
    case cons r' rs' =>
      simp only [List.flatMap_cons, List.append_assoc] at he
      obtain ⟨rfl, he'⟩ := Row.append_inj h.left h'.left he
      match ht : r.td with
      | none    =>
        obtain ⟨_, rfl⟩ := (chain_last ht).mp h
        obtain ⟨_, rfl⟩ := (chain_last ht).mp h'
        exact ⟨rfl, he'⟩
      | some td =>
        have ⟨_, hc⟩ := (chain_next ht).mp h
        have ⟨_, hc'⟩ := (chain_next ht).mp h'
        have ⟨hrs, hb⟩ := hi hc hc' he'
        exact ⟨by rw [hrs], hb⟩

-- Well formed answers can be told from each other by their first bytes.
theorem Answer.append_inj (h : a.WellFormed code) (h' : a'.WellFormed code) (he : a.bytes ++ bs = a'.bytes ++ bs') :
    a = a' ∧ bs = bs' := by
  have ⟨hr, hh, hc⟩ := h
  have ⟨hr', hh', hc'⟩ := h'
  obtain ⟨ts, t0, rows, historical, check⟩ := a
  obtain ⟨ts', t0', rows', historical', check'⟩ := a'
  simp only [bytes, List.cons_append, List.append_assoc, List.cons.injEq] at he hr hh hc hr' hh' hc'
  obtain ⟨rfl, rfl, he₁⟩ := he
  obtain ⟨rfl, he₂⟩ := Chain.append_inj hr hr' he₁
  obtain ⟨rfl, he₃⟩ := List.append_inj he₂ (hh.trans hh'.symm)
  obtain ⟨rfl, he₄⟩ := append_inj_of_isSome (hc.trans hc'.symm) he₃
  exact ⟨rfl, he₄⟩

theorem Answer.eq_of_isPrefix (h : a.WellFormed code) (h' : a'.WellFormed code) (hp : a.bytes <+: bs) (hp' : a'.bytes <+: bs) :
    a = a' := by
  have ⟨t, ht⟩ := hp
  have ⟨t', ht'⟩ := hp'
  exact append_inj h h' (ht.trans ht'.symm) |>.left

end

end Iso7816.Atr
