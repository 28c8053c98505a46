import Mathlib.Data.Finmap

-- Objects in memory, and chains of nodes in which each one points to the next.
namespace Linked

abbrev Heap (N : Type) := Finmap fun _ : Nat => N

-- Where a new object is put: at an address at which there is none.
structure Allocator (N : Type) where
  place : Heap N → Nat
  fresh : ∀ h : Heap N, h.lookup (place h) = none

variable {V N : Type} {node : V → Option Nat → N} {h h' : Heap N} {p q : Option Nat} {a b : Nat} {v w : V}
variable {cells cells' : List (Nat × V)} {n : N}

theorem Heap.erase_insert (hf : h.lookup a = none) : (h.insert a n).erase a = h := by
  refine Finmap.ext_lookup fun b => ?_
  by_cases hb : b = a
  case pos => rw [hb, Finmap.lookup_erase, hf]
  case neg => rw [Finmap.lookup_erase_ne hb, Finmap.lookup_insert_of_ne _ hb]

-- From `p` on there are nodes with these addresses and values. The last of them points to `q`.
def Chain (node : V → Option Nat → N) (h : Heap N) : Option Nat → List (Nat × V) → Option Nat → Prop
  | p, [], q              => p = q
  | p, (a, v) :: cells, q => p = some a ∧ ∃ next, h.lookup a = some (node v next) ∧ Chain node h next cells q

namespace Chain

theorem append_iff : Chain node h p (cells ++ cells') q ↔ ∃ r, Chain node h p cells r ∧ Chain node h r cells' q := by
  induction cells generalizing p
  case nil =>
    constructor
    case mp  => exact fun hc => ⟨p, rfl, hc⟩
    case mpr =>
      intro ⟨r, hp, hc⟩
      cases hp
      exact hc
  case cons c cells hi =>
    constructor
    case mp =>
      intro ⟨hp, next, hl, hc⟩
      have ⟨r, h₁, h₂⟩ := hi.mp hc
      exact ⟨r, ⟨hp, next, hl, h₁⟩, h₂⟩
    case mpr =>
      intro ⟨r, ⟨hp, next, hl, h₁⟩, h₂⟩
      exact ⟨hp, next, hl, hi.mpr ⟨r, h₁, h₂⟩⟩

theorem singleton_iff : Chain node h p [(a, v)] q ↔ p = some a ∧ h.lookup a = some (node v q) := by
  constructor
  case mp =>
    intro ⟨hp, next, hl, hq⟩
    cases hq
    exact ⟨hp, hl⟩
  case mpr => exact fun ⟨hp, hl⟩ => ⟨hp, q, hl, rfl⟩

theorem lookup (hc : Chain node h p cells q) (hm : (a, v) ∈ cells) : ∃ next, h.lookup a = some (node v next) := by
  induction cells generalizing p
  case nil             => exact nomatch hm
  case cons c cells hi =>
    have ⟨_, next, hl, hc⟩ := hc
    cases List.mem_cons.mp hm
    case inl he =>
      cases he
      exact ⟨next, hl⟩
    case inr hm => exact hi hc hm

-- Where a chain begins that has nodes.
theorem exists_first (hc : Chain node h p (cells ++ cells') q) (hn : cells ≠ []) : ∃ c ∈ cells, p = some c.fst := by
  match cells with
  | []     => contradiction
  | c :: _ => exact ⟨c, List.mem_cons_self, hc.left⟩

-- Only what is in the memory at the addresses of the chain matters.
theorem congr (hc : Chain node h p cells q) (hl : ∀ c ∈ cells, h'.lookup c.fst = h.lookup c.fst) :
    Chain node h' p cells q := by
  induction cells generalizing p
  case nil             => exact hc
  case cons c cells hi =>
    have ⟨hp, next, hn, hc⟩ := hc
    exact ⟨hp, next, (hl c List.mem_cons_self).trans hn, hi hc fun c hm => hl c (List.mem_cons_of_mem _ hm)⟩

theorem insert (hc : Chain node h p cells q) (ha : a ∉ cells.map Prod.fst) : Chain node (h.insert a n) p cells q :=
  hc.congr fun _ hm => Finmap.lookup_insert_of_ne _ fun he => ha (he ▸ List.mem_map_of_mem hm)

theorem erase (hc : Chain node h p cells q) (ha : a ∉ cells.map Prod.fst) : Chain node (h.erase a) p cells q :=
  hc.congr fun _ hm => Finmap.lookup_erase_ne fun he => ha (he ▸ List.mem_map_of_mem hm)

-- There is no node where something new is put.
theorem not_mem_of_lookup (hc : Chain node h p cells q) (hf : h.lookup a = none) : a ∉ cells.map Prod.fst := by
  intro hm
  have ⟨(a', v), hm, he⟩ := List.mem_map.mp hm
  have ⟨next, hl⟩ := hc.lookup hm
  rw [show a' = a from he, hf] at hl
  exact nomatch hl

-- A new node is put behind the last one.
theorem push (hc : Chain node h p (cells ++ [(b, w)]) none) (hb : b ∉ cells.map Prod.fst) (hf : h.lookup a = none) :
    Chain node ((h.insert a (node v none)).insert b (node w (some a))) p (cells ++ [(b, w), (a, v)]) none := by
  have ha := hc.not_mem_of_lookup hf
  rw [List.map_append, List.mem_append, not_or] at ha
  have hne : a ≠ b := fun he => ha.right (he ▸ List.mem_singleton_self b)
  have ⟨r, h₁, h₂⟩ := append_iff.mp hc
  have ⟨hr, _⟩ := singleton_iff.mp h₂
  refine append_iff.mpr ⟨r, (h₁.insert ha.left).insert hb, hr, some a, Finmap.lookup_insert _, singleton_iff.mpr ⟨rfl, ?_⟩⟩
  rw [Finmap.lookup_insert_of_ne _ hne, Finmap.lookup_insert]

-- The first node is taken out.
theorem unlink_first (hc : Chain node h p ((a, v) :: cells) q) (ha : a ∉ cells.map Prod.fst) :
    ∃ next, h.lookup a = some (node v next) ∧ Chain node (h.erase a) next cells q :=
  have ⟨_, next, hl, hc⟩ := hc
  ⟨next, hl, hc.erase ha⟩

-- A node is taken out by letting the one before it point to the one behind it.
theorem unlink (hc : Chain node h p (cells ++ (b, w) :: (a, v) :: cells') q)
    (hn : ((cells ++ (b, w) :: (a, v) :: cells').map Prod.fst).Nodup) :
    ∃ next, h.lookup b = some (node w (some a)) ∧ h.lookup a = some (node v next) ∧
      Chain node ((h.insert b (node w next)).erase a) p (cells ++ (b, w) :: cells') q := by
  rw [List.map_append, List.nodup_append] at hn
  have ⟨_, hn, hd⟩ := hn
  rw [List.map_cons, List.map_cons, List.nodup_cons, List.nodup_cons] at hn
  have ⟨hb, ha, _⟩ := hn
  have hne : b ≠ a := fun he => hb (he ▸ List.mem_cons_self)
  have ⟨r, h₁, hr, next', hlb, hr', next, hla, h₂⟩ := append_iff.mp hc
  refine ⟨next, by rw [hlb, hr'], hla, append_iff.mpr ⟨r, ?_, hr, next, ?_, ?_⟩⟩
  case refine_1 =>
    exact (h₁.insert fun hm => hd b hm b List.mem_cons_self rfl).erase fun hm =>
      hd a hm a (List.mem_cons_of_mem _ List.mem_cons_self) rfl
  case refine_2 => rw [Finmap.lookup_erase_ne hne, Finmap.lookup_insert]
  case refine_3 => exact (h₂.insert fun hm => hb (List.mem_cons_of_mem _ hm)).erase ha

end Chain
end Linked
