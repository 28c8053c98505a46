import Towitoko.Driver.TlvObject
import Towitoko.Driver.Theorems.TlvBounds

-- What a caller can do with the objects of a data source.
namespace Towitoko

open Interaction DataSource

-- A call of one of the functions on TLV objects, with objects that the caller has.
inductive TlvCall
  | new (address : Nat)
  | shift (tlv : TlvObject)
  | iterate (tlv : TlvObject) (iterator : Option TlvObject)
  | getObjectByTag (tlv : TlvObject) (tag : Nat)
  | getObjectBySec (tlv : TlvObject) (sec : Nat)
  | getValue (tlv : TlvObject) (length : Nat)

namespace TlvCall

def objects : TlvCall → List TlvObject
  | new _                => []
  | shift tlv            => [tlv]
  | iterate tlv iterator => tlv :: iterator.toList
  | getObjectByTag tlv _ => [tlv]
  | getObjectBySec tlv _ => [tlv]
  | getValue tlv _       => [tlv]

-- The object that is returned, if one is.
def exec (n : Nat) : TlvCall → StateT (List (Nat × Nat)) (Prog SourceCall) (Option TlvObject)
  | new address            => TlvObject.new getLogged n address
  | shift tlv              => tlv.shift getLogged
  | iterate tlv iterator   => tlv.iterate getLogged iterator
  | getObjectByTag tlv tag => tlv.getObjectByTag getLogged tag
  | getObjectBySec tlv sec => tlv.getObjectBySec getLogged sec
  | getValue tlv length    => do
    let _ ← tlv.getValue getLogged length
    return none

end TlvCall

-- The objects that calls in any order have returned, and all that the data source of `n` bytes has been asked
-- for, whatever it has answered.
inductive TlvSession (n : Nat) : List TlvObject → List (Nat × Nat) → Prop
  | start : TlvSession n [] []
  | call {objects log t object? log'} (call : TlvCall) :
    TlvSession n objects log → (∀ tlv ∈ call.objects, tlv ∈ objects) →
    Run ((call.exec n).run log) t (object?, log') → TlvSession n (objects ++ object?.toList) log'

namespace TlvSession

open TlvObject

variable {n : Nat} {objects : List TlvObject} {log : List (Nat × Nat)}

-- Only what lies within the data has been asked for.
def Within (n : Nat) (log : List (Nat × Nat)) : Prop :=
  ∀ request ∈ log, request.fst + request.snd ≤ n

theorem returns_getLogged (address length : Nat) (h : address + length ≤ n) :
    Returns (Within n) (getLogged address length) fun _ => True := by
  refine .bind (.modify fun log hw => ?_) fun _ _ => .lift _
  exact List.forall_mem_append.mpr ⟨hw, List.forall_mem_singleton.mpr h⟩

theorem returns_exec {call : TlvCall} (h : ∀ tlv ∈ call.objects, tlv.Placed n) :
    Returns (Within n) (call.exec n) (AllPlaced n) := by
  cases call
  case new            => exact returns_new returns_getLogged _
  case shift          => exact returns_shift returns_getLogged (h _ List.mem_cons_self).toFits
  case iterate        =>
    have ⟨h, hi⟩ := List.forall_mem_cons.mp h
    exact returns_iterate returns_getLogged h.toFits fun t ht => (hi t (Option.mem_toList.mpr ht)).toFits
  case getObjectByTag => exact returns_getObjectByTag returns_getLogged (h _ List.mem_cons_self).toFits _
  case getObjectBySec => exact returns_getObjectBySec returns_getLogged (h _ List.mem_cons_self).toFits _
  case getValue       =>
    exact .bind (returns_getValue returns_getLogged (h _ List.mem_cons_self).toFits _) fun _ _ => .pure nofun

theorem invariant (hs : TlvSession n objects log) : (∀ tlv ∈ objects, tlv.Placed n) ∧ Within n log := by
  induction hs
  case start => exact ⟨List.forall_mem_nil _, List.forall_mem_nil _⟩
  case call ho hr hi =>
    have ⟨hp, hw⟩ := returns_exec (fun tlv h => hi.left tlv (ho tlv h)) _ hi.right _ _ hr
    exact ⟨List.forall_mem_append.mpr ⟨hi.left, fun tlv h => hp tlv (Option.mem_toList.mp h)⟩, hw⟩

-- Every object lies within the data, and only what lies within the data is asked for.
theorem session_within (hs : TlvSession n objects log) :
    (∀ tlv ∈ objects, tlv.dataLength = n ∧ tlv.address < tlv.value ∧ tlv.value < n ∧ tlv.value + tlv.length ≤ n) ∧
      ∀ request ∈ log, request.fst + request.snd ≤ n := by
  have ⟨hp, hw⟩ := hs.invariant
  exact ⟨fun tlv h => ⟨(hp tlv h).data, (hp tlv h).header, (hp tlv h).value, (hp tlv h).fits⟩, hw⟩

-- An application ID within a template, which fills its data source.
def templateData : Memory Byte :=
  fun i => [0x61, 0x03, 0x4F, 0x01, 0xAA].getD i 0

theorem session_within_template : ∃ (objects : List TlvObject) (log : List (Nat × Nat)),
    objects.length = 2 ∧ log.length = 4 ∧
      (∀ tlv ∈ objects, tlv.dataLength = 5 ∧ tlv.address < tlv.value ∧ tlv.value < 5 ∧ tlv.value + tlv.length ≤ 5) ∧
        ∀ request ∈ log, request.fst + request.snd ≤ 5 := by
  let template : TlvObject := ⟨5, 0, 0x61, 3, 2⟩
  have h₁ : eval (handler templateData 5) 9 (((TlvCall.new 0).exec 5).run []) () =
      some ((some template, [(0, 1), (1, 1)]), ()) := by
    decide +kernel
  have h₂ : eval (handler templateData 5) 9
        (((TlvCall.getObjectByTag template tlvObjectTagApplicationId).exec 5).run [(0, 1), (1, 1)]) () =
      some ((some ⟨5, 2, 0x4F, 1, 4⟩, [(0, 1), (1, 1), (2, 1), (3, 1)]), ()) := by
    decide +kernel
  have ⟨_, hr₁, _⟩ := eval_yields h₁
  have ⟨_, hr₂, _⟩ := eval_yields h₂
  have hs : TlvSession 5 [template, ⟨5, 2, 0x4F, 1, 4⟩] [(0, 1), (1, 1), (2, 1), (3, 1)] :=
    .call (.getObjectByTag template tlvObjectTagApplicationId) (.call (.new 0) .start nofun hr₁) (by simp [TlvCall.objects]) hr₂
  exact ⟨_, _, rfl, rfl, session_within hs⟩

end TlvSession
end Towitoko
