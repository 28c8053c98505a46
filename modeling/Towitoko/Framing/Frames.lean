import Mathlib.Data.List.Basic

-- Data that is sent in chunks, each of them behind a header that says how long it is.
namespace Framing

variable {α : Type u} {header : Nat → List α} {bound : Nat} {chunks chunks' : List (List α)}

def frames (header : Nat → List α) (chunks : List (List α)) : List α :=
  chunks.flatMap fun chunk => header chunk.length ++ chunk

-- The header tells the length, up to the bound, whatever follows it.
structure Announces (header : Nat → List α) (bound : Nat) : Prop where
  ne_nil : ∀ n, header n ≠ []
  unique : ∀ n m s t, n ≤ bound → m ≤ bound → header n ++ s = header m ++ t → n = m

@[simp]
theorem frames_nil : frames header [] = [] :=
  rfl

@[simp]
theorem frames_cons {chunk : List α} :
    frames header (chunk :: chunks) = header chunk.length ++ chunk ++ frames header chunks :=
  rfl

@[simp]
theorem frames_append : frames header (chunks ++ chunks') = frames header chunks ++ frames header chunks' :=
  List.flatMap_append

theorem Announces.eq_nil (ha : Announces header bound) (h : frames header chunks = []) : chunks = [] := by
  cases chunks
  case nil  => rfl
  case cons => simp [ha.ne_nil] at h

-- What is sent can be taken apart in one way only.
theorem Announces.frames_injective (ha : Announces header bound) (hc : ∀ chunk ∈ chunks, chunk.length ≤ bound)
    (hc' : ∀ chunk ∈ chunks', chunk.length ≤ bound) (h : frames header chunks = frames header chunks') :
    chunks = chunks' := by
  induction chunks generalizing chunks'
  case nil => exact (ha.eq_nil h.symm).symm
  case cons chunk chunks hi =>
    cases chunks'
    case nil => exact ha.eq_nil h
    case cons chunk' chunks' =>
      obtain ⟨hl, ht⟩ := List.forall_mem_cons.mp hc
      obtain ⟨hl', ht'⟩ := List.forall_mem_cons.mp hc'
      rw [frames_cons, frames_cons, List.append_assoc, List.append_assoc] at h
      have hn : chunk.length = chunk'.length := ha.unique _ _ _ _ hl hl' h
      rw [hn] at h
      obtain ⟨rfl, hr⟩ := List.append_inj (List.append_cancel_left h) hn
      rw [hi ht ht' hr]

-- Commands that carry data, one after the other. `wire` is what there is on the line for a command, `payload` what it
-- carries, and `fits` what has to hold of it.
def Tiles {γ : Type v} {β : Type w} (wire : γ → List β) (payload : γ → List α) (fits : γ → Prop) (data : List α)
    (log : List β) : Prop :=
  ∃ commands : List γ, log = commands.flatMap wire ∧ (∀ command ∈ commands, fits command) ∧ commands.flatMap payload = data

namespace Tiles

variable {γ : Type v} {β : Type w} {wire : γ → List β} {payload : γ → List α} {fits : γ → Prop} {data data' : List α}
  {log log' : List β}

theorem nil : Tiles wire payload fits [] [] :=
  ⟨[], rfl, List.forall_mem_nil _, rfl⟩

theorem single {command : γ} (h : fits command) : Tiles wire payload fits (payload command) (wire command) :=
  ⟨[command], (List.flatMap_singleton ..).symm, List.forall_mem_singleton.mpr h, List.flatMap_singleton ..⟩

theorem append (h : Tiles wire payload fits data log) (h' : Tiles wire payload fits data' log') :
    Tiles wire payload fits (data ++ data') (log ++ log') := by
  obtain ⟨commands, rfl, hf, rfl⟩ := h
  obtain ⟨commands', rfl, hf', rfl⟩ := h'
  exact ⟨commands ++ commands', List.flatMap_append.symm, List.forall_mem_append.mpr ⟨hf, hf'⟩, List.flatMap_append⟩

end Tiles
end Framing
