import Mathlib.Order.Lattice.Nat
import Towitoko.Interaction.Matches
import Towitoko.Driver.Port
import Towitoko.CtApi.CtListNodes
import Towitoko.CtApi.Theorems.SlotAccess

-- The list of card terminals, down to its nodes, is a finite map, in every run of `CT_init` and `CT_close`.
namespace Towitoko

open Interaction
open Linked (Heap Allocator Chain)

-- A node by its address, and the number and the card terminal in it.
abbrev CtListCell := Nat × Nat × Nat

namespace CtListCell

def address (c : CtListCell) : Nat := c.fst
def ctn (c : CtListCell) : Nat := c.snd.fst
def ct (c : CtListCell) : Nat := c.snd.snd

def node (v : Nat × Nat) (next : Option Nat) : CtListNode where
  ctn  := v.fst
  ct   := v.snd
  next := next

end CtListCell

namespace Registry

open CtListCell (address)

-- The list describes a chain of nodes: `first`, `last` and `elements` fit together, no number is there twice, and no two
-- nodes share a card terminal.
structure Held (reg : Registry) (list : CtListRecord) (cells : List CtListCell) : Prop where
  chain     : Chain CtListCell.node reg.nodes list.first cells none
  last      : list.last = cells.getLast?.map address
  elements  : list.elements = cells.length
  addresses : (cells.map address).Nodup
  numbers   : (cells.map CtListCell.ctn).Nodup
  terminals : (cells.map CtListCell.ct).Nodup
  live      : ∀ c ∈ cells, (reg.terminals.lookup c.ct).isSome

-- There is a list if and only if it has elements.
inductive WellFormed (reg : Registry) : List CtListCell → Prop
  | empty : reg.ctList = none → WellFormed reg []
  | held {list cells} : reg.ctList = some list → cells ≠ [] → Held reg list cells → WellFormed reg cells

-- The map from numbers to card terminals.
def toMap (cells : List CtListCell) : CtList Nat :=
  cells.map Prod.snd

variable {reg : Registry} {list : CtListRecord} {cells pre post : List CtListCell} {n : CtListNode}
variable {a ct ctn : Nat} {p previous next : Option Nat} {terminal : CardTerminal}

theorem silent_node (h : reg.nodes.lookup a = some n) : Silent ((node (some a)).run reg) (n, reg) := by
  refine .run_bind .run_get ?_
  simp only [Option.bind_some, h]
  exact .run_pure _

theorem silent_terminal (h : reg.terminals.lookup ct = some terminal) :
    Silent ((Registry.terminal ct).run reg) (terminal, reg) := by
  refine .run_bind .run_get ?_
  simp only [h]
  exact .run_pure _

theorem silent_setNext (h : reg.nodes.lookup a = some n) :
    Silent ((setNext (some a) next).run reg) (⟨⟩, { reg with nodes := reg.nodes.insert a { n with next } }) :=
  .run_bind (silent_node h) (.run_modify _)

theorem silent_search (hc : Chain CtListCell.node reg.nodes p cells none) :
    Silent ((search ctn p).run reg) ((toMap cells).getCardTerminal ctn, reg) := by
  induction cells generalizing p
  case nil =>
    cases hc
    exact .run_iterateM_done (.run_pure _)
  case cons c cells hi =>
    have ⟨a, n, ct⟩ := c
    have ⟨hp, next, hl, hc'⟩ := hc
    cases hp
    refine .run_iterateM_next (next, if n = ctn then some ct else none) reg (.run_bind (silent_node hl) (.run_pure _)) ?_
    by_cases hn : n = ctn
    case pos =>
      have hg : (toMap ((a, n, ct) :: cells)).getCardTerminal ctn = some ct := by
        simp [toMap, CtList.getCardTerminal, hn]
      rw [if_pos hn, hg]
      refine .run_iterateM_done ?_
      simp only [reduceCtorEq, and_false, if_false]
      exact .run_pure _
    case neg =>
      have hg : (toMap ((a, n, ct) :: cells)).getCardTerminal ctn = (toMap cells).getCardTerminal ctn := by
        simp [toMap, CtList.getCardTerminal, List.lookup_cons, show (ctn == n) = false by simpa using Ne.symm hn]
      rw [if_neg hn, hg]
      exact hi hc'

theorem silent_find (hc : Chain CtListCell.node reg.nodes p (pre ++ (a, ctn, ct) :: post) none)
    (hn : ctn ∉ pre.map CtListCell.ctn) :
    Silent ((find ctn previous p).run reg) (((pre.getLast?.map address).or previous, some a, true), reg) := by
  induction pre generalizing p previous
  case nil =>
    have ⟨hp, next, hl, _⟩ := hc
    cases hp
    refine .run_iterateM_next (previous, some a, true) reg (.run_bind (silent_node hl) ?_) (.run_iterateM_done ?_)
    case refine_1 =>
      simp only [CtListCell.node, if_true]
      exact .run_pure _
    case refine_2 => exact .run_pure _
  case cons c pre hi =>
    have ⟨b, m, ct'⟩ := c
    have ⟨hp, next, hl, hc'⟩ := hc
    cases hp
    rw [List.map_cons, List.mem_cons, not_or] at hn
    have hr : (((b, m, ct') :: pre).getLast?.map address).or previous = (pre.getLast?.map address).or (some b) := by
      rw [List.getLast?_cons]
      cases pre.getLast? <;> rfl
    rw [hr]
    refine .run_iterateM_next (some b, next, false) reg (.run_bind (silent_node hl) ?_) (hi hc' hn.right)
    simp only [CtListCell.node, show ¬m = ctn from fun h => hn.left h.symm, if_false]
    exact .run_pure _

theorem Held.of_sublist (hh : Held reg list cells) {reg' : Registry} {list' : CtListRecord} {cells' : List CtListCell}
    (hs : cells'.Sublist cells) (hc : Chain CtListCell.node reg'.nodes list'.first cells' none)
    (hl : list'.last = cells'.getLast?.map address) (he : list'.elements = cells'.length)
    (ht : ∀ c ∈ cells', (reg'.terminals.lookup c.ct).isSome) : Held reg' list' cells' where
  chain     := hc
  last      := hl
  elements  := he
  addresses := hh.addresses.sublist (hs.map _)
  numbers   := hh.numbers.sublist (hs.map _)
  terminals := hh.terminals.sublist (hs.map _)
  live      := ht

theorem silent_modifyList (hl : reg.ctList = some list) {f : CtListRecord → CtListRecord} :
    Silent ((modifyList f).run reg) (⟨⟩, { reg with ctList := some (f list) }) := by
  have hs : Silent ((modifyList f).run reg) (⟨⟩, { reg with ctList := reg.ctList.map f }) := .run_modify _
  rwa [hl] at hs

-- The node has been bypassed.
theorem silent_removeNode {nodes : Heap CtListNode} {first : Option Nat} (hn : reg.nodes.lookup a = some n)
    (hb : Silent ((if some a = list.first then modifyList ({ · with first := n.next })
      else setNext previous n.next).run reg) (⟨⟩, { reg with nodes, ctList := some { list with first } })) :
    Silent ((removeNode list previous (some a)).run reg) (⟨⟩, {
      nodes     := nodes.erase a
      terminals := reg.terminals.erase n.ct
      ctList    := some {
        first
        last     := if some a = list.last then previous else list.last
        elements := list.elements - 1 } }) := by
  refine .run_bind (silent_node hn) <| .run_bind hb ?_
  have hs : Silent ((if some a = list.last then modifyList ({ · with last := previous }) else pure ()).run
      { reg with nodes, ctList := some { list with first } }) (⟨⟩, { reg with nodes, ctList := some { list with
        first, last := if some a = list.last then previous else list.last } }) := by
    split
    case isTrue  => exact .run_modify _
    case isFalse => exact .run_pure _
  exact .run_bind hs <| .run_bind (.run_modify _) <| .run_bind (.run_modify _) <| .run_modify _

theorem last_remove {c : CtListCell} (ha : (pre ++ c :: post).map address |>.Nodup) :
    (if some c.address = (pre ++ c :: post).getLast?.map address then pre.getLast?.map address
      else (pre ++ c :: post).getLast?.map address) = (pre ++ post).getLast?.map address := by
  match h : post.getLast? with
  | none   =>
    cases List.getLast?_eq_none_iff.mp h
    simp
  | some d =>
    have hd : d ∈ post := List.mem_of_getLast? h
    rw [List.map_append, List.nodup_append, List.map_cons, List.nodup_cons] at ha
    have hne : c.address ≠ d.address := fun he => ha.right.left.left (he ▸ List.mem_map_of_mem hd)
    simp [List.getLast?_append, List.getLast?_cons, h, hne]

theorem Held.not_mem (hh : Held reg list (pre ++ (a, ctn, ct) :: post)) :
    ctn ∉ pre.map CtListCell.ctn ∧ ∀ c ∈ pre ++ post, c.ct ≠ ct := by
  have hn := hh.numbers
  have ht := hh.terminals
  rw [List.map_append, List.map_cons, List.nodup_append] at hn ht
  refine ⟨fun hm => hn.right.right _ hm _ List.mem_cons_self rfl, fun c hm he => ?_⟩
  cases List.mem_append.mp hm
  case inl hm => exact ht.right.right _ (List.mem_map_of_mem hm) _ List.mem_cons_self he
  case inr hm => exact (List.nodup_cons.mp ht.right.left).left (List.mem_map.mpr ⟨c, hm, he⟩)

-- The chain without one of its nodes, which is bypassed from the one before it or from the list.
theorem Held.bypass (hh : Held reg list (pre ++ (a, ctn, ct) :: post)) (hl : reg.ctList = some list) :
    ∃ next nodes first, reg.nodes.lookup a = some (CtListCell.node (ctn, ct) next) ∧
      Silent ((if some a = list.first then modifyList ({ · with first := next })
        else setNext (pre.getLast?.map address) next).run reg)
        (⟨⟩, { reg with nodes, ctList := some { list with first } }) ∧
      Chain CtListCell.node (nodes.erase a) first (pre ++ post) none := by
  have hn := hh.addresses
  rcases List.eq_nil_or_concat' pre with hp | ⟨pre', ⟨b, w⟩, hp⟩
  case inl =>
    subst hp
    have hf : some a = list.first := hh.chain.left.symm
    have ⟨next, hlook, hc⟩ := hh.chain.unlink_first (List.nodup_cons.mp hn).left
    refine ⟨next, reg.nodes, next, hlook, ?_, hc⟩
    rw [if_pos hf]
    exact silent_modifyList hl
  case inr =>
    have hf : ¬some a = list.first := by
      intro he
      have ⟨c, hm, hc⟩ := hh.chain.exists_first (by rw [hp]; exact List.concat_ne_nil _ _)
      rw [List.map_append, List.nodup_append] at hn
      exact hn.right.right _ (List.mem_map_of_mem hm) a List.mem_cons_self (Option.some.inj (he.trans hc)).symm
    have hcells : pre ++ (a, ctn, ct) :: post = pre' ++ (b, w) :: (a, ctn, ct) :: post := by
      rw [hp, List.append_assoc]
      rfl
    have hchain := hh.chain
    rw [hcells] at hchain hn
    have ⟨next, hb, ha, hc⟩ := hchain.unlink hn
    refine ⟨next, _, list.first, ha, ?_, by rw [hp, List.append_assoc]; exact hc⟩
    rw [if_neg hf, hp, List.getLast?_concat, ← hl]
    exact silent_setNext hb

theorem silent_removeCardTerminal (hh : Held reg list (pre ++ (a, ctn, ct) :: post)) (hl : reg.ctList = some list) :
    ∃ reg' list', Silent ((removeCardTerminal ctn).run reg) (true, reg') ∧ reg'.ctList = some list' ∧
      Held reg' list' (pre ++ post) ∧ reg'.terminals = reg.terminals.erase ct := by
  have ⟨next, nodes, first, hlook, hb, hc⟩ := hh.bypass hl
  have ⟨hn, ht⟩ := hh.not_mem
  have hs : Silent ((removeCardTerminal ctn).run reg) (true, {
      nodes     := nodes.erase a
      terminals := reg.terminals.erase ct
      ctList    := some {
        first
        last     := if some a = list.last then pre.getLast?.map address else list.last
        elements := list.elements - 1 } }) := by
    refine .run_bind .run_get ?_
    simp only [hl]
    refine .run_bind (silent_find hh.chain hn) ?_
    simp only [if_true, Option.or_none]
    exact .run_bind (silent_removeNode hlook hb) (.run_pure _)
  refine ⟨_, _, hs, rfl, hh.of_sublist (List.Sublist.append_left (List.sublist_cons_self _ _) _) hc ?_ ?_ ?_, rfl⟩
  case refine_1 =>
    rw [hh.last]
    exact last_remove hh.addresses
  case refine_2 =>
    show list.elements - 1 = _
    rw [hh.elements, List.length_append, List.length_append, List.length_cons]
    omega
  case refine_3 =>
    intro c hm
    show (Finmap.lookup c.ct (reg.terminals.erase ct)).isSome
    rw [Finmap.lookup_erase_ne (ht c hm)]
    refine hh.live c ?_
    cases List.mem_append.mp hm
    case inl hm => exact List.mem_append_left _ hm
    case inr hm => exact List.mem_append_right _ (List.mem_cons_of_mem _ hm)

-- A list without elements is deleted at once.
theorem silent_deleteList (h : reg.ctList.bind CtListRecord.first = none) : Silent (deleteList.run reg) (⟨⟩, reg) := by
  refine .run_iterateM_done (.run_bind .run_get ?_)
  simp only [h]
  exact .run_pure _

theorem nodup_concat {f : CtListCell → Nat} {c : CtListCell} (hn : (cells.map f).Nodup) (hc : f c ∉ cells.map f) :
    ((cells ++ [c]).map f).Nodup := by
  rw [List.map_append]
  exact List.concat_eq_append ▸ hn.concat hc

theorem Held.concat {reg' : Registry} {list' : CtListRecord} (hh : Held reg list cells)
    (hc : Chain CtListCell.node reg'.nodes list'.first (cells ++ [(a, ctn, ct)]) none) (hl : list'.last = some a)
    (he : list'.elements = list.elements + 1) (hr : reg'.terminals = reg.terminals) (ha : a ∉ cells.map address)
    (hn : ctn ∉ cells.map CtListCell.ctn) (ht : ct ∉ cells.map CtListCell.ct) (hct : (reg.terminals.lookup ct).isSome) :
    Held reg' list' (cells ++ [(a, ctn, ct)]) where
  chain     := hc
  last      := by rw [hl, List.getLast?_concat]; rfl
  elements  := by rw [he, hh.elements, List.length_append]; rfl
  addresses := nodup_concat hh.addresses ha
  numbers   := nodup_concat hh.numbers hn
  terminals := nodup_concat hh.terminals ht
  live c hm := by
    rw [hr]
    cases List.mem_append.mp hm
    case inl hm => exact hh.live c hm
    case inr hm => exact List.mem_singleton.mp hm ▸ hct

-- The last node of a list that has one.
theorem Held.last_node {b : Nat} {w : Nat × Nat} (hh : Held reg list (cells ++ [(b, w)])) :
    list.first ≠ none ∧ list.last = some b ∧ b ∉ cells.map address ∧
      reg.nodes.lookup b = some (CtListCell.node w none) := by
  refine ⟨fun he => ?_, ?_, fun hm => ?_, ?_⟩
  case refine_1 =>
    have hchain := hh.chain
    rw [he] at hchain
    cases cells <;> exact nomatch hchain.left
  case refine_2 =>
    rw [hh.last, List.getLast?_concat]
    rfl
  case refine_3 =>
    have hn := hh.addresses
    rw [List.map_append] at hn
    exact (List.nodup_append.mp hn).right.right b hm b List.mem_cons_self rfl
  case refine_4 =>
    have ⟨_, _, hlook⟩ := Chain.append_iff.mp hh.chain
    exact (Chain.singleton_iff.mp hlook).right

section

variable {alloc : Allocators}

theorem silent_newNode (n : CtListNode) : Silent ((newNode alloc n).run reg)
    (alloc.node.place reg.nodes, { reg with nodes := reg.nodes.insert (alloc.node.place reg.nodes) n }) :=
  .run_bind .run_get <| .run_bind .run_set <| .run_pure _

theorem silent_linkNode_first (hl : reg.ctList = some list) (hf : list.first = none) :
    Silent ((linkNode alloc list ct ctn).run reg) (⟨⟩, { reg with
      nodes  := reg.nodes.insert (alloc.node.place reg.nodes) (CtListCell.node (ctn, ct) none)
      ctList := some {
        first    := some (alloc.node.place reg.nodes)
        last     := some (alloc.node.place reg.nodes)
        elements := list.elements + 1 } }) := by
  refine .run_bind (silent_newNode _) ?_
  simp only [hf, if_true]
  exact .run_bind (silent_modifyList (by exact hl)) (.run_modify _)

theorem silent_linkNode_next {b : Nat} {w : Nat × Nat} (hl : reg.ctList = some list) (hf : list.first ≠ none)
    (hlast : list.last = some b) (hne : b ≠ alloc.node.place reg.nodes)
    (hlook : reg.nodes.lookup b = some (CtListCell.node w none)) :
    Silent ((linkNode alloc list ct ctn).run reg) (⟨⟩, { reg with
      nodes  := (reg.nodes.insert (alloc.node.place reg.nodes) (CtListCell.node (ctn, ct) none)).insert b
        (CtListCell.node w (some (alloc.node.place reg.nodes)))
      ctList := some {
        first    := list.first
        last     := some (alloc.node.place reg.nodes)
        elements := list.elements + 1 } }) := by
  have hlook' : (reg.nodes.insert (alloc.node.place reg.nodes) (CtListCell.node (ctn, ct) none)).lookup b =
      some (CtListCell.node w none) := by
    rwa [Finmap.lookup_insert_of_ne _ hne]
  refine .run_bind (silent_newNode _) ?_
  simp only [hf, if_false, hlast]
  exact .run_bind (silent_setNext hlook') <| .run_bind (silent_modifyList (by exact hl)) (.run_modify _)

end

theorem silent_linkNode (alloc : Allocators) (hh : Held reg list cells) (hl : reg.ctList = some list)
    (hn : ctn ∉ cells.map CtListCell.ctn) (ht : ct ∉ cells.map CtListCell.ct) (hct : (reg.terminals.lookup ct).isSome) :
    ∃ reg' list' a, Silent ((linkNode alloc list ct ctn).run reg) (⟨⟩, reg') ∧ reg'.ctList = some list' ∧
      Held reg' list' (cells ++ [(a, ctn, ct)]) ∧ reg'.terminals = reg.terminals := by
  have hf := alloc.node.fresh reg.nodes
  have ha := hh.chain.not_mem_of_lookup hf
  rcases List.eq_nil_or_concat' cells with hc | ⟨cells', ⟨b, w⟩, hc⟩
  case inl =>
    subst hc
    refine ⟨_, _, _, silent_linkNode_first hl hh.chain, rfl, hh.concat ?_ rfl rfl rfl ha hn ht hct, rfl⟩
    exact Linked.Chain.singleton_iff.mpr ⟨rfl, Finmap.lookup_insert _⟩
  case inr =>
    have ⟨hfirst, hlast, hb, hlook⟩ := (hc ▸ hh).last_node
    have hne : b ≠ alloc.node.place reg.nodes := by
      refine fun he => ha (List.mem_map.mpr ⟨(b, w), ?_, he⟩)
      rw [hc]
      exact List.mem_append_right _ List.mem_cons_self
    refine ⟨_, _, _, silent_linkNode_next hl hfirst hlast hne hlook, rfl, hh.concat ?_ rfl rfl rfl ha hn ht hct, rfl⟩
    rw [hc, List.append_assoc]
    exact (hc ▸ hh.chain).push hb hf

-- The card terminals in memory under their numbers.
def contents (reg : Registry) (cells : List CtListCell) : CtList CardTerminal :=
  cells.map fun c => (c.ctn, (reg.terminals.lookup c.ct).getD .cleared)

theorem keys_toMap : (toMap cells).keys = cells.map CtListCell.ctn :=
  List.map_map

theorem keys_contents : (contents reg cells).keys = cells.map CtListCell.ctn :=
  List.map_map

theorem contents_congr {reg' : Registry} (h : ∀ c ∈ cells, reg'.terminals.lookup c.ct = reg.terminals.lookup c.ct) :
    contents reg' cells = contents reg cells :=
  List.map_congr_left fun c hm => by rw [h c hm]

theorem toMap_remove (hn : ctn ∉ pre.map CtListCell.ctn) :
    (toMap (pre ++ (a, ctn, ct) :: post)).removeCardTerminal ctn = toMap (pre ++ post) := by
  rw [toMap, List.map_append, List.map_cons, CtList.removeCardTerminal_append (keys_toMap ▸ hn), toMap, List.map_append]

theorem contents_remove (hn : ctn ∉ pre.map CtListCell.ctn) :
    (contents reg (pre ++ (a, ctn, ct) :: post)).removeCardTerminal ctn = contents reg (pre ++ post) := by
  rw [contents, List.map_append, List.map_cons, contents, List.map_append]
  exact CtList.removeCardTerminal_append (show ctn ∉ (contents reg pre).keys from keys_contents ▸ hn)

theorem contents_get (hn : ctn ∉ pre.map CtListCell.ctn) (hct : reg.terminals.lookup ct = some terminal) :
    (contents reg (pre ++ (a, ctn, ct) :: post)).getCardTerminal ctn = some terminal := by
  rw [contents, List.map_append, List.map_cons]
  refine (CtList.getCardTerminal_append (keys_contents ▸ hn)).trans ?_
  rw [show CtListCell.ct (a, ctn, ct) = ct from rfl, hct]
  rfl

theorem exists_of_getCardTerminal (h : (toMap cells).getCardTerminal ctn = some ct) :
    ∃ pre a post, cells = pre ++ (a, ctn, ct) :: post := by
  have ⟨pre, post, hl⟩ := CtList.exists_of_getCardTerminal h
  have ⟨pre, post, hc, _, hpost⟩ := List.map_eq_append_iff.mp hl
  have ⟨c, post, hp, hc', _⟩ := List.map_eq_cons_iff.mp hpost
  exact ⟨pre, c.fst, post, by rw [hc, hp, ← hc']⟩

theorem silent_getCardTerminal (hw : WellFormed reg cells) :
    Silent ((getCardTerminal ctn).run reg) ((toMap cells).getCardTerminal ctn, reg) := by
  refine .run_bind .run_get ?_
  cases hw
  case empty hl        =>
    simp only [hl]
    exact .run_pure _
  case held list hl _ hh =>
    simp only [hl]
    exact silent_search hh.chain

theorem matches_closeTerminal {l : CtList CardTerminal} (h : reg.terminals.lookup ct = some terminal) :
    Matches (fun r r' => r = (r'.fst, reg) ∧ r'.snd = l) ((closeTerminal ct).run reg)
      ((liftM terminal.close : CtApiM CtRet).run l) :=
  .run_skip_left (silent_terminal h) .run_lift

-- What `CT_init` leaves behind, and what it does to the map.
inductive Initialised (reg : Registry) (cells : List CtListCell) (ctn : Nat) :
    (CtRet × Option Nat) × Registry → CtRet × CtList CardTerminal → Prop
  | ok {reg' a ct} : WellFormed reg' (cells ++ [(a, ctn, ct)]) →
    Initialised reg cells ctn ((.ok, some ct), reg') (.ok, contents reg' (cells ++ [(a, ctn, ct)]))
  | failed {ret} : ret ≠ .ok → Initialised reg cells ctn ((ret, none), reg) (ret, contents reg cells)

theorem matches_giveUp {reg' : Registry} {l : CtList CardTerminal} {empty : Bool}
    (hct : reg'.terminals.lookup ct = some terminal) (he : empty → reg'.ctList.bind CtListRecord.first = none)
    (hr : reg = {
      nodes     := reg'.nodes
      terminals := reg'.terminals.erase ct
      ctList    := if empty then none else reg'.ctList }) :
    Matches (fun r r' => r.snd = reg ∧ r'.snd = l) ((giveUp ct empty).run reg')
      ((liftM terminal.close : CtApiM CtRet).run l) := by
  refine .bind_silent (matches_closeTerminal hct) fun r r' ⟨hr', hl⟩ => ?_
  rw [hr']
  refine ⟨(⟨⟩, reg), .run_bind (.run_modify _) ?_, rfl, hl⟩
  rw [hr]
  cases empty
  case false => exact .run_pure _
  case true  => exact .run_bind (silent_deleteList (he rfl)) (.run_modify _)

theorem ensures_createSlots_error : Ensures (fun _ _ => ()) CardTerminal.createSlots () fun _ r => ∀ ret, r = .error ret → ret ≠ .ok := by
  refine Ensures.loop (fun _ _ => True) trivial fun slots _ _ => ?_
  refine Ensures.bind_iff.mpr <| Ensures.call_iff.mpr fun _ => Ensures.ite_iff.mpr ?_
  split
  case isTrue  =>
    refine Ensures.pure_iff.mpr fun ret he => ?_
    cases he
    decide
  case isFalse =>
    refine Ensures.skip fun _ r => Ensures.ite_iff.mpr ?_
    split
    case isTrue hne =>
      refine Ensures.pure_iff.mpr fun ret he => ?_
      cases he
      exact hne
    case isFalse    =>
      refine Ensures.skip fun _ r => Ensures.ite_iff.mpr ?_
      split
      case isTrue  => exact Ensures.pure_iff.mpr nofun
      case isFalse => exact Ensures.pure_iff.mpr trivial

-- A terminal that cannot be initialised is no success.
theorem init_error {pn : Nat} (t : Trace Call) (r : Except CtRet CardTerminal) (hr : Run (CardTerminal.init pn) t r) :
    ∀ ret, r = .error ret → ret ≠ .ok := by
  have h : Ensures (fun _ _ => ()) (CardTerminal.init pn) () fun _ r => ∀ ret, r = .error ret → ret ≠ .ok := by
    refine Ensures.bind_iff.mpr <| Ensures.call_iff.mpr fun _ => Ensures.ite_iff.mpr ?_
    split
    case isTrue =>
      refine Ensures.pure_iff.mpr fun ret he => ?_
      cases he
      decide
    refine Ensures.bind_iff.mpr <| Ensures.call_iff.mpr fun _ => Ensures.ite_iff.mpr ?_
    split
    case isTrue =>
      refine Ensures.pure_iff.mpr fun ret he => ?_
      cases he
      decide
    refine Ensures.bind_iff.mpr <| ensures_createSlots_error.mono fun _ r hr => ?_
    match r with
    | .ok _    => exact Ensures.pure_iff.mpr nofun
    | .error _ =>
      refine Ensures.skip fun _ _ => Ensures.pure_iff.mpr fun ret he => ?_
      cases he
      exact hr _ rfl
  exact h t r hr

-- Another card terminal in memory makes no difference to the list.
theorem WellFormed.insert (hw : WellFormed reg cells) (hf : reg.terminals.lookup ct = none) (terminal : CardTerminal) :
    WellFormed { reg with terminals := reg.terminals.insert ct terminal } cells ∧ ct ∉ cells.map CtListCell.ct := by
  cases hw
  case empty hl => exact ⟨.empty hl, List.not_mem_nil⟩
  case held list hl hne hh =>
    have ht : ct ∉ cells.map CtListCell.ct := by
      intro hm
      have ⟨c, hm, hc⟩ := List.mem_map.mp hm
      have := hh.live c hm
      rw [hc, hf] at this
      exact nomatch this
    refine ⟨.held hl hne { hh with live := fun c hm => ?_ }, ht⟩
    show (Finmap.lookup c.ct (reg.terminals.insert ct terminal)).isSome
    rw [Finmap.lookup_insert_of_ne _ fun he => ht (List.mem_map.mpr ⟨c, hm, he⟩)]
    exact hh.live c hm

theorem contents_concat {reg' : Registry} (ht : ct ∉ cells.map CtListCell.ct)
    (hr : reg'.terminals = reg.terminals.insert ct terminal) :
    contents reg' (cells ++ [(a, ctn, ct)]) = (contents reg cells).addCardTerminal terminal ctn := by
  have hc : contents reg' cells = contents reg cells := by
    refine contents_congr fun c hm => ?_
    rw [hr, Finmap.lookup_insert_of_ne _ fun he => ht (List.mem_map.mpr ⟨c, hm, he⟩)]
  have hl : (reg'.terminals.lookup ct).getD .cleared = terminal := by
    rw [hr, Finmap.lookup_insert]
    rfl
  rw [CtList.addCardTerminal, ← hc, contents, List.map_append, contents]
  exact congrArg (fun t => _ ++ [(ctn, t)]) hl

section

variable {alloc : Allocators} {pn : Nat}

-- What becomes of a card terminal that is to be put into the list.
inductive Put (reg : Registry) (cells : List CtListCell) (ctn ct : Nat) (l : CtList CardTerminal) :
    Bool × Registry → Bool × CtList CardTerminal → Prop
  | failed {ctList} : (reg.ctList = none → ctList.bind CtListRecord.first = none) →
    (reg.ctList ≠ none → ctList = reg.ctList) → Put reg cells ctn ct l (false, { reg with ctList }) (false, l)
  | added {reg' list a} : reg'.ctList = some list → Held reg' list (cells ++ [(a, ctn, ct)]) →
    reg'.terminals = reg.terminals → Put reg cells ctn ct l (true, reg') (true, l)

-- Once there is a list, only the node has to be allocated.
theorem matches_addCardTerminal {l : CtList CardTerminal} {reg₀ : Registry} (hl : reg.ctList = some list)
    (hh : Held reg list cells) (hn : ctn ∉ cells.map CtListCell.ctn) (ht : ct ∉ cells.map CtListCell.ct)
    (hct : (reg.terminals.lookup ct).isSome) (hr : reg = { reg₀ with ctList := some list })
    (hnone : reg₀.ctList = none → list.first = none) (hsome : reg₀.ctList ≠ none → some list = reg₀.ctList) :
    Matches (Put reg₀ cells ctn ct l) ((addCardTerminal alloc ct ctn).run reg) ((liftM malloc : CtApiM Bool).run l) := by
  refine .run_skip_left .run_get ?_
  simp only [hl]
  refine .bind_silent .run_lift fun r r' ⟨hr', hl'⟩ => ?_
  have ⟨ok, l'⟩ := r'
  cases hl'
  rw [hr']
  cases ok
  case false => exact ⟨_, .run_pure _, hr ▸ .failed hnone hsome⟩
  case true  =>
    have ⟨reg', list', a, hs, hl', hh', ht'⟩ := silent_linkNode alloc hh hl hn ht hct
    exact ⟨(true, reg'), .run_bind hs (.run_pure _), .added hl' hh' (ht'.trans (by rw [hr]))⟩

theorem matches_newList {l : CtList CardTerminal} :
    Matches (fun r r' => r.snd = { reg with ctList := if r'.fst then some ⟨none, none, 0⟩ else none } ∧ r'.snd = l)
      ((newList >>= setList).run reg) ((liftM malloc : CtApiM Bool).run l) := by
  have hnew : Matches (fun r r' => r = (if r'.fst then some ⟨none, none, 0⟩ else none, reg) ∧ r'.snd = l)
      (newList.run reg) ((liftM malloc : CtApiM Bool).run l) := by
    refine .bind_silent .run_lift fun r (ok, l') ⟨hr, hl⟩ => ?_
    rw [hr]
    cases ok
    case false => exact ⟨_, .run_pure _, rfl, hl⟩
    case true  => exact ⟨_, .run_pure _, rfl, hl⟩
  refine .bind_silent hnew fun r r' ⟨hr, hl⟩ => ?_
  rw [hr]
  exact ⟨_, .run_modify _, rfl, hl⟩

theorem matches_putCardTerminal {l : CtList CardTerminal} (hw : WellFormed reg cells) (hl : l.isEmpty = cells.isEmpty)
    (hn : ctn ∉ cells.map CtListCell.ctn) (ht : ct ∉ cells.map CtListCell.ct) (hct : (reg.terminals.lookup ct).isSome) :
    Matches (Put reg cells ctn ct l) ((putCardTerminal alloc ct ctn reg.ctList.isNone).run reg)
      (CtApi.allocateNode.run l) := by
  refine .run_skip_right .run_get ?_
  cases hw
  case empty hnone =>
    have he : l.isEmpty = true := hl
    simp only [he, if_true]
    rw [hnone]
    refine .run_bind matches_newList fun r r' ⟨hr, hl'⟩ => ?_
    have ⟨ok, l'⟩ := r'
    cases hl'
    rw [hr]
    cases ok
    case false =>
      refine .run_skip_left .run_get <| .pure ?_
      exact .failed (fun _ => rfl) fun h => absurd hnone h
    case true =>
      refine matches_addCardTerminal rfl ⟨rfl, rfl, rfl, .nil, .nil, .nil, nofun⟩ hn ht hct rfl (fun _ => rfl) fun h => absurd hnone h
  case held list hl' hne hh =>
    have he : l.isEmpty = false := hl.trans (by simpa using hne)
    simp only [he, Bool.false_eq_true, if_false]
    rw [hl']
    refine .run_skip_left (.run_pure _) ?_
    exact matches_addCardTerminal hl' hh hn ht hct (by rw [← hl']) (fun h => nomatch hl'.symm.trans h) fun _ => hl'.symm

theorem silent_newTerminal : Silent ((newTerminal alloc).run reg) (alloc.terminal.place reg.terminals,
    { reg with terminals := reg.terminals.insert (alloc.terminal.place reg.terminals) .cleared }) :=
  .run_bind .run_get <| .run_bind .run_set <| .run_pure _

-- What was made for a card terminal is gone with it, the list too if there was none.
theorem eq_of_failed {ctList : Option CtListRecord} {terminal : CardTerminal} (hf : reg.terminals.lookup ct = none)
    (hsome : reg.ctList ≠ none → ctList = reg.ctList) : reg = {
      nodes     := reg.nodes
      terminals := (reg.terminals.insert ct terminal).erase ct
      ctList    := if reg.ctList.isNone then none else ctList } := by
  have hctList : (if reg.ctList.isNone then none else ctList) = reg.ctList := by
    split
    case isTrue h  => exact (Option.isNone_iff_eq_none.mp h).symm
    case isFalse h => exact hsome fun he => h (Option.isNone_iff_eq_none.mpr he)
  rw [Linked.Heap.erase_insert hf, hctList]

theorem matches_initTerminal (hw : WellFormed reg cells) :
    Matches (Initialised reg cells ctn) ((initTerminal alloc ctn pn).run reg)
      ((CtApi.init ctn pn).run (contents reg cells)) := by
  refine .run_skip_left (silent_getCardTerminal hw) <| .run_skip_right .run_get ?_
  have hiff : ((toMap cells).getCardTerminal ctn).isSome ↔ ((contents reg cells).getCardTerminal ctn).isSome := by
    rw [CtList.isSome_getCardTerminal, CtList.isSome_getCardTerminal, keys_toMap, keys_contents]
  simp only [← hiff]
  refine .run_ite (fun _ => .pure (.failed (by decide))) fun hn => ?_
  rw [CtList.isSome_getCardTerminal, keys_toMap] at hn
  refine .lift fun ok => .run_ite (fun _ => .pure (.failed (by decide))) fun _ => ?_
  obtain ⟨ct, hp⟩ : ∃ ct, alloc.terminal.place reg.terminals = ct := ⟨_, rfl⟩
  have hf := alloc.terminal.fresh reg.terminals
  have hnew : Silent ((newTerminal alloc).run reg) _ := silent_newTerminal
  rw [hp] at hf hnew
  refine .run_skip_left hnew <| .lift_of init_error fun r hr => ?_
  cases r
  case error ret =>
    refine .run_skip_left (.run_modify _) ?_
    simp only [Linked.Heap.erase_insert hf]
    exact .pure (.failed (hr ret rfl))
  case ok terminal =>
    refine .run_skip_left (.run_modify _) <| .run_skip_left .run_get ?_
    simp only [Finmap.insert_insert]
    obtain ⟨hw', ht⟩ := hw.insert hf terminal
    have hl : (contents reg cells).isEmpty = cells.isEmpty := List.isEmpty_map
    have hlook : (reg.terminals.insert ct terminal).lookup ct = some terminal := Finmap.lookup_insert _
    have hlive : ((reg.terminals.insert ct terminal).lookup ct).isSome := by rw [hlook]; rfl
    refine .run_bind (matches_putCardTerminal hw' hl hn ht hlive) fun r r' hput => ?_
    cases hput
    case failed ctList hnone hsome =>
      refine .run_bind (matches_giveUp hlook (fun h => hnone (by simpa using h)) (eq_of_failed hf hsome))
        fun r r' h => ?_
      rw [h.left, h.right]
      exact .pure (.failed (by decide))
    case added reg' list a hl hh ht' =>
      refine .run_skip_right (.run_modify _) ?_
      rw [← contents_concat ht ht']
      exact .pure (.ok (.held hl (List.concat_ne_nil _ _) hh))

-- What `CT_close` leaves behind, and what it does to the map.
inductive Closed (reg : Registry) (cells : List CtListCell) (ctn : Nat) :
    CtRet × Registry → CtRet × CtList CardTerminal → Prop
  | absent : ctn ∉ cells.map CtListCell.ctn → Closed reg cells ctn (.errCt, reg) (.errCt, contents reg cells)
  | closed {reg' pre a ct post ret} : cells = pre ++ (a, ctn, ct) :: post → WellFormed reg' (pre ++ post) →
    Closed reg cells ctn (ret, reg') (ret, contents reg' (pre ++ post))

-- The list is deleted with its last element.
theorem exists_shrink (hl : reg.ctList = some list) (hh : Held reg list cells) (ret : CtRet) :
    ∃ reg', WellFormed reg' cells ∧ reg'.terminals = reg.terminals ∧ Silent ((do
      if (← getNumberOfElements) = 0 then
        deleteList
        setList none
      return ret : RegistryM CtRet).run reg) (ret, reg') := by
  have hn : Silent (getNumberOfElements.run reg) (list.elements, reg) := by
    refine .run_bind .run_get ?_
    simp only [hl]
    exact .run_pure _
  match cells with
  | [] =>
    have hz : list.elements = 0 := hh.elements
    have hf : reg.ctList.bind CtListRecord.first = none := by
      rw [hl]
      exact hh.chain
    refine ⟨{ reg with ctList := none }, .empty rfl, rfl, .run_bind hn ?_⟩
    simp only [hz, if_true]
    exact .run_bind (silent_deleteList hf) <| .run_bind (.run_modify _) (.run_pure _)
  | c :: cells =>
    have hz : list.elements ≠ 0 := by
      rw [hh.elements, List.length_cons]
      omega
    refine ⟨reg, .held hl (List.cons_ne_nil _ _) hh, rfl, .run_bind hn ?_⟩
    simp only [hz, if_false]
    exact .run_pure _

theorem matches_close (hw : WellFormed reg cells) :
    Matches (Closed reg cells ctn) ((close ctn).run reg) ((CtApi.close ctn).run (contents reg cells)) := by
  refine .run_skip_left (silent_getCardTerminal hw) <| .run_skip_right .run_get ?_
  match hg : (toMap cells).getCardTerminal ctn with
  | none    =>
    have hn : ctn ∉ cells.map CtListCell.ctn := keys_toMap ▸ CtList.getCardTerminal_eq_none_iff.mp hg
    have hg' : (contents reg cells).getCardTerminal ctn = none :=
      CtList.getCardTerminal_eq_none_iff.mpr (keys_contents ▸ hn)
    simp only [hg']
    exact .pure (.absent hn)
  | some ct =>
    have ⟨pre, a, post, hc⟩ := exists_of_getCardTerminal hg
    subst hc
    generalize hcells : pre ++ (a, ctn, ct) :: post = cells at hw
    cases hw
    case empty           => exact nomatch (List.append_eq_nil_iff.mp hcells).right
    case held list hl _ hh =>
      subst hcells
      have ⟨hn, ht⟩ := hh.not_mem
      have ⟨terminal, hlook⟩ : ∃ terminal, reg.terminals.lookup ct = some terminal :=
        Option.isSome_iff_exists.mp <| hh.live (a, ctn, ct) (List.mem_append_right _ List.mem_cons_self)
      simp only [contents_get hn hlook]
      refine .run_bind (matches_closeTerminal hlook) fun r r' ⟨hr, hr'⟩ => ?_
      rw [hr, hr']
      have ⟨reg', list', hs, hl', hh', ht'⟩ := silent_removeCardTerminal hh hl
      have ⟨reg'', hw, ht'', hs'⟩ := exists_shrink hl' hh' r'.fst
      refine .run_skip_left hs <| .run_skip_right (.run_modify _) ?_
      have hc : contents reg'' (pre ++ post) = contents reg (pre ++ post) := by
        refine contents_congr fun c hm => ?_
        rw [ht'', ht', Finmap.lookup_erase_ne (ht c hm)]
      rw [contents_remove hn, ← hc]
      exact .silent hs' (.run_pure _) (.closed rfl hw)

end

-- A call with its return code, and the card terminal that `CT_init` has put into the list.
inductive Called
  | init (ctn : Nat) (ret : CtRet) (ct : Option Nat)
  | close (ctn : Nat) (ret : CtRet)

-- The calls that there have been, the last one first.
inductive Session (alloc : Allocators) : List Called → Registry → Prop
  | start : Session alloc [] .initial
  | init {calls reg ctn pn t ret ct reg'} : Session alloc calls reg →
    Run ((initTerminal alloc ctn pn).run reg) t ((ret, ct), reg') → Session alloc (.init ctn ret ct :: calls) reg'
  | close {calls reg ctn t ret reg'} : Session alloc calls reg → Run ((close ctn).run reg) t (ret, reg') →
    Session alloc (.close ctn ret :: calls) reg'

-- The card terminal of the last successful `CT_init` with a number that is not followed by a `CT_close`.
def registered : List Called → Nat → Option Nat
  | [], _                           => none
  | .init ctn' ret ct :: calls, ctn => if ctn' = ctn ∧ ret = .ok then ct else registered calls ctn
  | .close ctn' _ :: calls, ctn     => if ctn' = ctn then none else registered calls ctn

-- The list is a map from numbers to card terminals.
structure IsMap (alloc : Allocators) (calls : List Called) (reg : Registry) : Prop where
  list      : ∃ cells, WellFormed reg cells
  get       : ∀ ctn, Silent ((getCardTerminal ctn).run reg) (registered calls ctn, reg)
  null      : reg.ctList = none ↔ ∀ ctn, registered calls ctn = none
  unchanged : ∀ ctn pn t ret reg', Run ((init alloc ctn pn).run reg) t (ret, reg') → ret ≠ .ok → reg' = reg

section

variable {alloc : Allocators} {calls : List Called} {n : Nat}

theorem WellFormed.numbers (hw : WellFormed reg cells) : (toMap cells).keys.Nodup := by
  rw [keys_toMap]
  cases hw
  case empty         => exact .nil
  case held _ _ _ hh => exact hh.numbers

theorem getCardTerminal_toMap_concat (hw : WellFormed reg (cells ++ [(a, n, ct)])) :
    (toMap (cells ++ [(a, n, ct)])).getCardTerminal ctn = if n = ctn then some ct else (toMap cells).getCardTerminal ctn := by
  have hc : toMap (cells ++ [(a, n, ct)]) = (toMap cells).addCardTerminal ct n := List.map_append
  have hn := hw.numbers
  rw [hc, CtList.keys_addCardTerminal, List.nodup_append] at hn
  rw [hc, CtList.getCardTerminal_addCardTerminal fun hm => hn.right.right n hm n (List.mem_singleton_self n) rfl]

theorem getCardTerminal_toMap_remove (hw : WellFormed reg (pre ++ (a, n, ct) :: post)) :
    (toMap (pre ++ post)).getCardTerminal ctn =
      if n = ctn then none else (toMap (pre ++ (a, n, ct) :: post)).getCardTerminal ctn := by
  have hn := hw.numbers
  have hpre : n ∉ pre.map CtListCell.ctn := by
    rw [keys_toMap, List.map_append, List.nodup_append] at hn
    exact fun hm => hn.right.right n hm n List.mem_cons_self rfl
  rw [← toMap_remove hpre, CtList.getCardTerminal_removeCardTerminal hn]

theorem Session.exists_cells (hs : Session alloc calls reg) :
    ∃ cells, WellFormed reg cells ∧ ∀ ctn, (toMap cells).getCardTerminal ctn = registered calls ctn := by
  induction hs
  case start => exact ⟨[], .empty rfl, fun _ => rfl⟩
  case init calls reg n _ t ret ct reg' _ hr hi =>
    have ⟨cells, hw, hg⟩ := hi
    obtain ⟨r', -, hi⟩ := (matches_initTerminal hw).right t _ hr
    cases hi
    case ok a ct hw' =>
      refine ⟨_, hw', fun ctn => ?_⟩
      rw [getCardTerminal_toMap_concat hw', registered, hg ctn]
      simp only [and_true]
    case failed hne =>
      refine ⟨cells, hw, fun ctn => ?_⟩
      rw [registered, if_neg fun h => hne h.right]
      exact hg ctn
  case close calls reg n t ret reg' _ hr hi =>
    have ⟨cells, hw, hg⟩ := hi
    obtain ⟨r', -, hi⟩ := (matches_close hw).right t _ hr
    cases hi
    case absent hn =>
      refine ⟨cells, hw, fun ctn => ?_⟩
      rw [registered, hg ctn]
      split
      case isTrue he  =>
        rw [← hg ctn, ← he]
        exact CtList.getCardTerminal_eq_none_iff.mpr (keys_toMap ▸ hn)
      case isFalse    => rfl
    case closed pre a ct post hc hw' =>
      refine ⟨_, hw', fun ctn => ?_⟩
      rw [hc] at hg hw
      rw [getCardTerminal_toMap_remove hw, registered, hg ctn]

-- For every sequence of calls, whatever fails in them: the list is the map that the calls describe.
theorem session_isMap (hs : Session alloc calls reg) : IsMap alloc calls reg := by
  have ⟨cells, hw, hg⟩ := hs.exists_cells
  refine ⟨⟨cells, hw⟩, fun ctn => hg ctn ▸ silent_getCardTerminal hw, ?_, ?_⟩
  case refine_1 =>
    simp only [← hg]
    cases hw
    case empty hl          => exact iff_of_true hl fun _ => rfl
    case held list hl hne _ =>
      refine iff_of_false (fun h => nomatch hl.symm.trans h) fun hn => ?_
      have ⟨c, hc⟩ := List.exists_mem_of_ne_nil cells hne
      have hm : c.ctn ∈ (toMap cells).keys := keys_toMap ▸ List.mem_map_of_mem hc
      exact CtList.getCardTerminal_eq_none_iff.mp (hn c.ctn) hm
  case refine_2 =>
    intro ctn pn t ret reg' hr hne
    have ⟨r, hr, he⟩ := (Run.run_bind_pure_iff fun _ => rfl).mp hr
    obtain ⟨r', -, hi⟩ := (matches_initTerminal hw).right t _ hr
    cases hi
    case ok     => exact absurd he hne
    case failed => rfl

-- In every session `CT_init` and `CT_close` can return what they can return on a list without pointers.
theorem session_matches (hs : Session alloc calls reg) : ∃ l : CtList CardTerminal,
    (∀ ctn pn, Matches (fun r r' => r.fst = r'.fst) ((init alloc ctn pn).run reg) ((CtApi.init ctn pn).run l)) ∧
    ∀ ctn, Matches (fun r r' => r.fst = r'.fst) ((close ctn).run reg) ((CtApi.close ctn).run l) := by
  have ⟨cells, hw, _⟩ := hs.exists_cells
  refine ⟨contents reg cells, fun ctn pn => ?_, fun ctn => ?_⟩
  case refine_1 =>
    refine .bind_silent (matches_initTerminal hw) fun r r' hi => ⟨_, .run_pure _, ?_⟩
    cases hi <;> rfl
  case refine_2 =>
    refine (matches_close hw).mono fun r r' hc => ?_
    cases hc <;> rfl

end

-- An allocator that puts everything behind what is there.
def behind (N : Type) : Allocator N where
  place h := h.keys.sup id + 1
  fresh h := by
    rw [Finmap.lookup_eq_none, ← Finmap.mem_keys]
    intro hm
    have := Finset.le_sup (f := id) hm
    exact Nat.not_succ_le_self _ this

def behindAll : Allocators where
  node     := behind _
  terminal := behind _

-- With a terminal under the number 7, and with another one under the number 8.
def oneTerminal : Registry where
  nodes     := Finmap.insert 1 ⟨7, 1, none⟩ ∅
  terminals := Finmap.insert 1 CardTerminal.oneSlot (Finmap.insert 1 .cleared ∅)
  ctList    := some ⟨some 1, some 1, 1⟩

def twoTerminals : Registry where
  nodes     := Finmap.insert 1 ⟨7, 1, some 2⟩ (Finmap.insert 2 ⟨8, 2, none⟩ oneTerminal.nodes)
  terminals := Finmap.insert 2 CardTerminal.oneSlot (Finmap.insert 2 .cleared oneTerminal.terminals)
  ctList    := some ⟨some 1, some 2, 2⟩

-- Two terminals are initialised, and the first of them is closed.
theorem session_isMap_closed : ∃ calls reg, calls = [.close 7 .ok, .init 8 .ok (some 2), .init 7 .ok (some 1)] ∧
    Session behindAll calls reg ∧ IsMap behindAll calls reg := by
  have h₁ : Yields Port.handler ((initTerminal behindAll 7 0).run .initial) ⟨[], []⟩ ((.ok, some 1), oneTerminal)
      ⟨[], []⟩ := eval_yields (n := 9) rfl
  have h₂ : Yields Port.handler ((initTerminal behindAll 8 1).run oneTerminal) ⟨[], []⟩ ((.ok, some 2), twoTerminals)
      ⟨[], []⟩ := eval_yields (n := 9) rfl
  have h₃ : Yields Port.handler ((close 7).run twoTerminals) ⟨[], []⟩ (.ok, _) ⟨[], []⟩ := eval_yields (n := 9) rfl
  have ⟨_, hr₁, _⟩ := h₁
  have ⟨_, hr₂, _⟩ := h₂
  have ⟨_, hr₃, _⟩ := h₃
  have hs := ((Session.start.init hr₁).init hr₂).close hr₃
  exact ⟨_, _, rfl, hs, session_isMap hs⟩

end Registry
end Towitoko
