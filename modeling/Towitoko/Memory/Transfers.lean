import Mathlib.Data.List.Basic

-- The blocks of cells that are written to a memory and read from it, in the order of time.
inductive Transfer (α : Type)
  | write (a : Nat) (data : List α)
  | read (a : Nat) (data : List α)
  deriving DecidableEq

namespace Transfer

variable {α : Type}

-- The same block with an address that has only the last digits in the base of `size`.
def wrap (size : Nat) : Transfer α → Transfer α
  | .write a data => .write (a % size) data
  | .read a data  => .read (a % size) data

-- What the most recent read of a cell has returned.
def lastRead : List (Transfer α) → Nat → Option α
  | [], _                  => none
  | .write .. :: log, n    => lastRead log n
  | .read a data :: log, n => lastRead log n <|> if a ≤ n then data[n - a]? else none

-- A block is written again and again, and each time something is read back.
def attempts (a : Nat) (data : List α) (buffers : List (List α)) : List (Transfer α) :=
  buffers.flatMap fun buffer => [.write a data, .read a buffer]

-- `Verified a log data`: the data is written from `a` on in chunks that follow each other without a gap, and every
-- chunk is written until the same is read back.
inductive Verified : Nat → List (Transfer α) → List α → Prop
  | nil {a} : Verified a [] []
  | chunk {a chunk buffers log data} : chunk ≠ [] → (∀ buffer ∈ buffers, buffer ≠ chunk) →
    Verified (a + chunk.length) log data → Verified a (attempts a chunk (buffers ++ [chunk]) ++ log) (chunk ++ data)

-- `Refused n a data log`: after a part that was verified, a chunk was written `n` times, and never the same was
-- read back.
inductive Refused (n a : Nat) : List α → List (Transfer α) → Prop
  | intro {log done chunk rest buffers} : Verified a log done → chunk ≠ [] → buffers.length = n →
    (∀ buffer ∈ buffers, buffer ≠ chunk) →
    Refused n a (done ++ chunk ++ rest) (log ++ attempts (a + done.length) chunk buffers)

variable {a n i size : Nat} {data chunk : List α} {buffers : List (List α)} {log log' : List (Transfer α)}

theorem lastRead_append : lastRead (log ++ log') n = (lastRead log' n <|> lastRead log n) := by
  induction log
  case nil => simp [lastRead]
  case cons head _ hi =>
    cases head
    case write => exact hi
    case read  => simp [lastRead, hi, Option.orElse_eq_orElse, Option.or_assoc]

theorem attempts_append {buffers' : List (List α)} :
    attempts a data (buffers ++ buffers') = attempts a data buffers ++ attempts a data buffers' :=
  List.flatMap_append

theorem map_wrap_attempts : (attempts a data buffers).map (wrap size) = attempts (a % size) data buffers := by
  simp [attempts, List.map_flatMap, wrap]

theorem lastRead_attempts_lt (h : n < a) : lastRead (attempts a data buffers) n = none := by
  induction buffers
  case nil          => rfl
  case cons hi      => simpa [attempts, lastRead, Nat.not_le.mpr h] using hi

theorem lastRead_attempts : lastRead (attempts a data (buffers ++ [chunk])) (a + i) =
    (chunk[i]? <|> lastRead (attempts a data buffers) (a + i)) := by
  rw [attempts_append, lastRead_append]
  simp [attempts, lastRead]

namespace Verified

theorem lastRead_lt (h : Verified a log data) (hn : n < a) : lastRead log n = none := by
  induction h
  case nil => rfl
  case chunk hi => rw [lastRead_append, hi (by omega), lastRead_attempts_lt hn]; rfl

-- The last reads of the cells give the data.
theorem lastRead (h : Verified a log data) (hi : i < data.length) : lastRead log (a + i) = data[i]? := by
  induction h generalizing i
  case nil => contradiction
  case chunk a chunk buffers log data _ _ hv ih =>
    rw [lastRead_append, lastRead_attempts]
    by_cases hc : i < chunk.length
    case pos =>
      rw [hv.lastRead_lt (Nat.add_lt_add_left hc a), List.getElem?_append_left hc, List.getElem?_eq_getElem hc]
      rfl
    case neg =>
      have hl : i - chunk.length < data.length := by rw [List.length_append] at hi; omega
      have ha : a + i = a + chunk.length + (i - chunk.length) := by omega
      rw [ha, ih hl, List.getElem?_append_right (Nat.le_of_not_lt hc), List.getElem?_eq_getElem hl]
      rfl

-- Blocks that lie within the addresses are where they should be.
theorem map_wrap (h : Verified a log data) (hs : a + data.length ≤ size) : log.map (wrap size) = log := by
  induction h
  case nil => rfl
  case chunk a chunk buffers log data hc _ _ hi =>
    have hpos : 0 < chunk.length := List.length_pos_iff.mpr hc
    rw [List.length_append] at hs
    rw [List.map_append, map_wrap_attempts, hi (by omega), Nat.mod_eq_of_lt (by omega)]

-- A further chunk at the end.
theorem append_chunk (h : Verified a log data) (hc : chunk ≠ []) (hb : ∀ buffer ∈ buffers, buffer ≠ chunk) :
    Verified a (log ++ attempts (a + data.length) chunk (buffers ++ [chunk])) (data ++ chunk) := by
  induction h
  case nil => simpa using Verified.chunk hc hb .nil
  case chunk hc' hb' _ ih =>
    rw [List.append_assoc, List.append_assoc, List.length_append, ← Nat.add_assoc]
    exact .chunk hc' hb' ih

end Verified
end Transfer
