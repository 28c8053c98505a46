-- src/ct-api/ct_list.h and src/ct-api/ct_list.c: a list of objects under numbers. The list that has no
-- elements and the one that is not there are the same.
namespace Towitoko

abbrev CtList (α : Type) := List (Nat × α)

namespace CtList

variable {α : Type} {list : CtList α} {ctn ctn' : Nat} {ct : α}

-- `CT_List_GetCardTerminal`
def getCardTerminal (list : CtList α) (ctn : Nat) : Option α :=
  list.lookup ctn

-- `CT_List_AddCardTerminal`
def addCardTerminal (list : CtList α) (ct : α) (ctn : Nat) : CtList α :=
  list ++ [(ctn, ct)]

-- `CT_List_RemoveCardTerminal`
def removeCardTerminal (list : CtList α) (ctn : Nat) : CtList α :=
  list.eraseP (·.fst = ctn)

-- The object that `CT_List_GetCardTerminal` refers to changes.
def setCardTerminal : CtList α → Nat → α → CtList α
  | [], _, _               => []
  | (n, a) :: list, ctn, ct => if n = ctn then (n, ct) :: list else (n, a) :: setCardTerminal list ctn ct

def keys (list : CtList α) : List Nat :=
  list.map Prod.fst

theorem isSome_getCardTerminal : (list.getCardTerminal ctn).isSome ↔ ctn ∈ list.keys := by
  simp [getCardTerminal, keys]

theorem getCardTerminal_eq_none_iff : list.getCardTerminal ctn = none ↔ ctn ∉ list.keys := by
  rw [← isSome_getCardTerminal, Option.not_isSome_iff_eq_none]

theorem getCardTerminal_setCardTerminal (h : (list.getCardTerminal ctn).isSome) :
    (list.setCardTerminal ctn ct).getCardTerminal ctn = some ct := by
  induction list
  case nil => contradiction
  case cons head tail hi =>
    have ⟨n, a⟩ := head
    by_cases hn : n = ctn
    case pos => simp [setCardTerminal, getCardTerminal, hn]
    case neg =>
      have hk : (ctn == n) = false := by simpa using Ne.symm hn
      rw [setCardTerminal, if_neg hn]
      simp only [getCardTerminal, List.lookup_cons, hk] at h ⊢
      exact hi h

@[simp]
theorem keys_addCardTerminal : (list.addCardTerminal ct ctn).keys = list.keys ++ [ctn] := by
  simp [addCardTerminal, keys]

@[simp]
theorem keys_setCardTerminal : (list.setCardTerminal ctn ct).keys = list.keys := by
  induction list
  case nil => rfl
  case cons head _ hi =>
    rw [setCardTerminal]
    split
    case isTrue  => rfl
    case isFalse => exact congrArg (head.fst :: ·) hi

@[simp]
theorem keys_removeCardTerminal : (list.removeCardTerminal ctn).keys = list.keys.erase ctn := by
  induction list
  case nil => rfl
  case cons head _ hi =>
    by_cases h : head.fst = ctn
    case pos => simp [removeCardTerminal, keys, h]
    case neg =>
      rw [removeCardTerminal, List.eraseP_cons_of_neg (by simpa using h)]
      exact (congrArg (head.fst :: ·) hi).trans (List.erase_cons_tail (by simpa using h)).symm

theorem getCardTerminal_append {pre post : CtList α} (h : ctn ∉ pre.keys) :
    CtList.getCardTerminal (pre ++ (ctn, ct) :: post) ctn = some ct := by
  rw [getCardTerminal, List.lookup_append, show pre.lookup ctn = none from getCardTerminal_eq_none_iff.mpr h]
  simp

theorem removeCardTerminal_append {pre post : CtList α} (h : ctn ∉ pre.keys) :
    CtList.removeCardTerminal (pre ++ (ctn, ct) :: post) ctn = pre ++ post := by
  rw [removeCardTerminal, List.eraseP_append_right, List.eraseP_cons_of_pos (by simp)]
  intro c hm hc
  exact h (List.mem_map.mpr ⟨c, hm, by simpa using hc⟩)

theorem exists_of_getCardTerminal (h : list.getCardTerminal ctn = some ct) :
    ∃ pre post : CtList α, list = pre ++ (ctn, ct) :: post := by
  have ⟨pre, post, hl, _⟩ := List.lookup_eq_some_iff.mp h
  exact ⟨pre, post, hl⟩

theorem getCardTerminal_addCardTerminal_of_ne (h : ctn ≠ ctn') :
    (list.addCardTerminal ct ctn).getCardTerminal ctn' = list.getCardTerminal ctn' := by
  have hb : (ctn' == ctn) = false := by simpa using Ne.symm h
  simp [addCardTerminal, getCardTerminal, List.lookup_append, List.lookup_cons, hb]

theorem getCardTerminal_addCardTerminal (h : ctn ∉ list.keys) :
    (list.addCardTerminal ct ctn).getCardTerminal ctn' = if ctn = ctn' then some ct else list.getCardTerminal ctn' := by
  split
  case isTrue he =>
    subst he
    rw [addCardTerminal, getCardTerminal, List.lookup_append]
    simp [show list.lookup ctn = none from getCardTerminal_eq_none_iff.mpr h]
  case isFalse hne => exact getCardTerminal_addCardTerminal_of_ne hne

theorem getCardTerminal_removeCardTerminal_of_ne (h : ctn ≠ ctn') :
    (list.removeCardTerminal ctn).getCardTerminal ctn' = list.getCardTerminal ctn' := by
  induction list
  case nil => rfl
  case cons head list hi =>
    have ⟨n, a⟩ := head
    rw [getCardTerminal, removeCardTerminal] at hi ⊢
    by_cases hn : n = ctn
    case pos =>
      have hb : (ctn' == ctn) = false := by simpa using Ne.symm h
      simp [hn, getCardTerminal, List.lookup_cons, hb]
    case neg =>
      rw [List.eraseP_cons_of_neg (by simpa using hn), getCardTerminal, List.lookup_cons, List.lookup_cons]
      split
      case h_1 => rfl
      case h_2 => exact hi

theorem getCardTerminal_removeCardTerminal (h : list.keys.Nodup) :
    (list.removeCardTerminal ctn).getCardTerminal ctn' = if ctn = ctn' then none else list.getCardTerminal ctn' := by
  split
  case isTrue he =>
    subst he
    rw [getCardTerminal_eq_none_iff, keys_removeCardTerminal]
    exact h.not_mem_erase
  case isFalse hne => exact getCardTerminal_removeCardTerminal_of_ne hne

-- The objects under different numbers have nothing to do with each other.
theorem getCardTerminal_setCardTerminal_of_ne (h : ctn ≠ ctn') :
    (list.setCardTerminal ctn ct).getCardTerminal ctn' = list.getCardTerminal ctn' := by
  induction list
  case nil => rfl
  case cons head list hi =>
    have ⟨n, a⟩ := head
    rw [setCardTerminal]
    split
    case isTrue hn =>
      have hb : (ctn' == n) = false := by simpa [hn] using Ne.symm h
      simp [getCardTerminal, List.lookup_cons, hb]
    case isFalse =>
      simp only [getCardTerminal, List.lookup_cons] at hi ⊢
      rw [hi]

@[simp]
theorem isEmpty_setCardTerminal : (list.setCardTerminal ctn ct).isEmpty = list.isEmpty := by
  cases list
  case nil  => rfl
  case cons =>
    rw [setCardTerminal]
    split <;> rfl

theorem setCardTerminal_comm {ct' : α} (h : ctn ≠ ctn') :
    (list.setCardTerminal ctn ct).setCardTerminal ctn' ct' = (list.setCardTerminal ctn' ct').setCardTerminal ctn ct := by
  induction list
  case nil => rfl
  case cons head list hi =>
    have ⟨n, a⟩ := head
    by_cases hn : n = ctn
    case pos => simp [setCardTerminal, hn, h]
    case neg =>
      by_cases hn' : n = ctn'
      case pos => simp [setCardTerminal, hn', Ne.symm h]
      case neg => simp [setCardTerminal, hn, hn', hi]

theorem addCardTerminal_setCardTerminal {ct' : α} (h : ctn ≠ ctn') :
    (list.setCardTerminal ctn ct).addCardTerminal ct' ctn' = (list.addCardTerminal ct' ctn').setCardTerminal ctn ct := by
  induction list
  case nil => simp [setCardTerminal, addCardTerminal, Ne.symm h]
  case cons head list hi =>
    have ⟨n, a⟩ := head
    simp only [addCardTerminal, List.cons_append] at hi ⊢
    by_cases hn : n = ctn
    case pos => simp [setCardTerminal, hn]
    case neg => simp [setCardTerminal, hn, hi]

theorem removeCardTerminal_setCardTerminal (h : ctn ≠ ctn') :
    (list.setCardTerminal ctn ct).removeCardTerminal ctn' = (list.removeCardTerminal ctn').setCardTerminal ctn ct := by
  induction list
  case nil => rfl
  case cons head list hi =>
    have ⟨n, a⟩ := head
    simp only [removeCardTerminal] at hi ⊢
    by_cases hn : n = ctn
    case pos => simp [setCardTerminal, hn, h]
    case neg =>
      by_cases hn' : n = ctn'
      case pos => simp [setCardTerminal, hn', Ne.symm h]
      case neg => simp [setCardTerminal, hn, hn', hi]

end CtList
end Towitoko
