import Towitoko.Driver.Theorems.TlvEncoding
import Towitoko.Driver.Theorems.TlvSession

-- The objects within the value of an object, and the three ways to get at them, when the data source always gives
-- the same answers.
namespace Towitoko.TlvObject

open Interaction

variable {I : Interface} {σ E : Type} {h : Handler I E} {Inv : σ → E → Prop} {getData : TlvObjectGetData I σ}
variable {read : (address length : Nat) → Option (Bytes length)} {n : Nat} {tlv : TlvObject}

-- The reads within the data are repeatable. They may fail, but then they fail again.
def Repeats (h : Handler I E) (Inv : σ → E → Prop) (getData : TlvObjectGetData I σ)
    (read : (address length : Nat) → Option (Bytes length)) (n : Nat) : Prop :=
  ∀ address length, address + length ≤ n → Gives h Inv (getData address length) (read address length)

section

variable (hr : Repeats h Inv getData read n)

include hr

theorem settles_getData {address length : Nat} (ha : address + length ≤ n) :
    Settles h Inv (getData address length) fun _ => True :=
  ⟨_, trivial, hr _ _ ha⟩

theorem settles_getByte (address : Nat) : Settles h Inv (getByte getData n address) fun _ => True :=
  .ite (fun _ => .pure trivial) fun ha => .bind (settles_getData hr <| Nat.lt_of_not_le ha) fun _ _ => .pure trivial

theorem settles_newTag (address : Nat) : Settles h Inv (newTag getData n address) fun r => ∀ p ∈ r, 0 < p.snd := by
  refine .bind (settles_getByte hr _) fun b _ => ?_
  cases b
  case none => exact .pure nofun
  case some =>
    refine .ite (fun _ => .bind (settles_getByte hr _) fun b _ => ?_) fun _ => .pure (by simp)
    cases b
    case none => exact .pure nofun
    case some => exact .pure (by simp)

theorem settles_newLength (address : Nat) : Settles h Inv (newLength getData n address) fun _ => True := by
  refine .bind (settles_getByte hr _) fun b _ => ?_
  cases b
  case none => exact .pure trivial
  case some =>
    refine .ite (fun _ => .ite (fun _ => ?_) fun _ => .ite (fun _ => ?_) fun _ => .pure trivial) fun _ => .pure trivial
    case refine_1 =>
      refine .bind (settles_getByte hr _) fun b _ => ?_
      cases b <;> exact .pure trivial
    case refine_2 =>
      refine .ite (fun _ => .pure trivial) fun ha => ?_
      refine .bind (settles_getData hr <| Nat.lt_of_not_le ha) fun buffer _ => ?_
      cases buffer <;> exact .pure trivial

-- The object that begins at an address, if there is one.
def AllAt (n address : Nat) (tlv : Option TlvObject) : Prop :=
  ∀ t ∈ tlv, t.Placed n ∧ t.address = address

theorem settles_new (address : Nat) : Settles h Inv (new getData n address) (AllAt n address) := by
  refine .bind (settles_newTag hr _) fun r hi => ?_
  match r with
  | none          => exact .pure nofun
  | some (tag, i) =>
    have hi : 0 < i := hi _ rfl
    refine .bind (settles_newLength hr _) fun r _ => ?_
    match r with
    | none             => exact .pure nofun
    | some (length, j) =>
      refine .ite (fun _ => .pure nofun) fun hv => .pure ?_
      intro t ht
      cases ht
      exact ⟨⟨rfl, by simp only; omega, Nat.lt_of_not_le hv, by simp only; omega⟩, rfl⟩

end

-- `Chain first objects`: the first object, if there is one, is followed by the others of the list and by no more.
inductive Chain (h : Handler I E) (Inv : σ → E → Prop) (getData : TlvObjectGetData I σ) (tlv : TlvObject) :
    Option TlvObject → List TlvObject → Prop
  | nil : Chain h Inv getData tlv none []
  | cons {aux following objects} : Gives h Inv (next getData tlv aux) following →
    Chain h Inv getData tlv following objects → Chain h Inv getData tlv (some aux) (aux :: objects)

-- Every object begins behind the one before it, and so there is an end.
theorem exists_chain (hr : Repeats h Inv getData read tlv.dataLength) {address : Nat} {first : Option TlvObject}
    (hf : AllAt tlv.dataLength address first) :
    ∃ objects, Chain h Inv getData tlv first objects ∧ objects.Pairwise (·.address < ·.address) ∧
      ∀ o ∈ objects, o.Placed tlv.dataLength ∧ address ≤ o.address := by
  cases first
  case none     => exact ⟨[], .nil, .nil, by simp⟩
  case some aux =>
    obtain ⟨hp, ha⟩ := hf aux rfl
    obtain ⟨following, hn, hg⟩ : Settles h Inv (next getData tlv aux) (AllAt tlv.dataLength (aux.value + aux.length)) := by
      refine .ite (fun _ => ?_) fun _ => .pure (by simp [AllAt])
      rw [shift, hp.data]
      exact settles_new hr _
    have := hp.header
    have := hp.value
    obtain ⟨objects, hc, hinc, hall⟩ := exists_chain hr hn
    refine ⟨aux :: objects, .cons hg hc, List.pairwise_cons.mpr ⟨fun o ho => ?_, hinc⟩, ?_⟩
    · have := (hall o ho).right
      omega
    · refine List.forall_mem_cons.mpr ⟨⟨hp, Nat.le_of_eq ha.symm⟩, fun o ho => ?_⟩
      obtain ⟨hp', _⟩ := hall o ho
      exact ⟨hp', by omega⟩
termination_by tlv.dataLength - address

section

variable {first : Option TlvObject} {objects : List TlvObject}

theorem Chain.first_eq (hc : Chain h Inv getData tlv first objects) : first = objects[0]? := by
  cases hc
  case nil  => rfl
  case cons => rfl

theorem Chain.gives_next (hc : Chain h Inv getData tlv first objects) {i : Nat} {o : TlvObject} (hi : objects[i]? = some o) :
    Gives h Inv (next getData tlv o) objects[i + 1]? := by
  induction hc generalizing i
  case nil              => exact nomatch hi
  case cons hn hc ih =>
    cases i
    case zero   =>
      cases hi
      rw [List.getElem?_cons_succ, ← hc.first_eq]
      exact hn
    case succ i =>
      rw [List.getElem?_cons_succ] at hi ⊢
      exact ih hi

-- The loop of `TLV_Object_GetObjectByTag`.
theorem Chain.gives_byTag (hc : Chain h Inv getData tlv first objects) (tag : Nat) :
    Gives h Inv (iterateM (fun aux => do
      match aux with
      | none     => return .inr none
      | some aux => if aux.tag ≠ tag then return .inl (← next getData tlv aux) else return .inr (some aux)) first)
      (objects.find? (·.tag = tag)) := by
  induction hc
  case nil => exact .iterateM_done .pure
  case cons aux _ _ hn _ ih =>
    by_cases ht : aux.tag = tag
    case pos =>
      rw [List.find?_cons_of_pos (by simpa using ht)]
      exact .iterateM_done <| .ite_neg (not_not_intro ht) .pure
    case neg =>
      rw [List.find?_cons_of_neg (by simpa using ht)]
      exact .iterateM_next (.ite_pos ht <| .bind hn .pure) ih

-- The loop of `TLV_Object_GetObjectBySec`.
theorem Chain.gives_bySec (hc : Chain h Inv getData tlv first objects) {i sec : Nat} (hi : i ≤ sec) :
    Gives h Inv (iterateM (fun ((i, aux) : Nat × Option TlvObject) => do
      if i < sec then
        match aux with
        | none     => return .inr none
        | some aux => return .inl (i + 1, ← next getData tlv aux)
      else
        return .inr aux) (i, first)) objects[sec - i]? := by
  induction hc generalizing i
  case nil =>
    by_cases hlt : i < sec
    case pos => exact .iterateM_done <| .ite_pos hlt .pure
    case neg => exact .iterateM_done <| .ite_neg hlt .pure
  case cons aux _ objects hn _ ih =>
    by_cases hlt : i < sec
    case pos =>
      have he : sec - i = sec - (i + 1) + 1 := by omega
      rw [he, List.getElem?_cons_succ]
      exact .iterateM_next (.ite_pos hlt <| .bind hn .pure) (ih hlt)
    case neg =>
      have he : sec - i = 0 := by omega
      rw [he]
      exact .iterateM_done <| .ite_neg hlt .pure

end

-- The three ways to the objects agree on this list of them. The addresses increase up to the length of the data,
-- which is an `unsigned short`, and so none of them wraps around.
structure Traverses (h : Handler I E) (Inv : σ → E → Prop) (getData : TlvObjectGetData I σ) (tlv : TlvObject)
    (objects : List TlvObject) : Prop where
  first          : Gives h Inv (iterate getData tlv none) objects[0]?
  following      : ∀ i o, objects[i]? = some o → Gives h Inv (iterate getData tlv (some o)) objects[i + 1]?
  getObjectByTag : ∀ tag, Gives h Inv (getObjectByTag getData tlv tag) (objects.find? (·.tag = tag))
  getObjectBySec : ∀ sec, Gives h Inv (getObjectBySec getData tlv sec) objects[sec]?
  increasing     : objects.Pairwise (·.address < ·.address)
  inside         : ∀ o ∈ objects, o.value + o.length ≤ tlv.dataLength

-- For every repeatable data source and every object: all the calls return, and there is one list for them.
theorem exists_traverses (hr : Repeats h Inv getData read tlv.dataLength) : ∃ objects, Traverses h Inv getData tlv objects := by
  have ⟨first, hf, hg⟩ := settles_new hr tlv.value
  have ⟨objects, hc, hinc, hall⟩ := exists_chain hr hf
  refine ⟨objects, ?_, fun _ _ ho => hc.gives_next ho, ?_, ?_, hinc, fun o ho => (hall o ho).left.fits⟩
  case refine_1 => exact hc.first_eq ▸ hg
  case refine_2 => exact fun tag => .bind hg (hc.gives_byTag tag)
  case refine_3 => exact fun sec => .bind hg (hc.gives_bySec (Nat.zero_le sec))

theorem Serves.repeats {memory : Memory Byte} (hs : Serves h Inv getData memory n) :
    Repeats h Inv getData (fun address length => some (DataSource.load memory address length)) n :=
  hs

theorem exists_traverses_template : ∃ objects, Traverses (DataSource.handler TlvSession.templateData 5) (fun _ _ => True)
    DataSource.getData ⟨5, 0, 0x61, 3, 2⟩ objects :=
  exists_traverses (DataSource.serves TlvSession.templateData 5).repeats

end Towitoko.TlvObject
