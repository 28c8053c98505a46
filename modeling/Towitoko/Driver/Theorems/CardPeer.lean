import Towitoko.Interaction.Uses
import Towitoko.Driver.CardPeer
import Towitoko.Driver.Theorems.IccAsync

namespace Towitoko

open Interaction

-- The only calls are receptions.
def OnlyReceives : {α : Type} → Call α → Prop
  | _, .receive .. => True
  | _, _           => False

theorem IccAsync.uses_receiveOnly {icc : IccAsync} {size : Nat} : Uses OnlyReceives (icc.receive size) := by
  refine .bind trivial fun data => ?_
  cases data <;> trivial

namespace CardPeer

variable {C α : Type} {react : CardPeer C → List Byte → CardPeer C} {c : Convention} {card : C} {e : CardPeer C}
  {icc : IccAsync} {size : Nat} {bs data : List Byte}

-- The calls that do not send anything.
def Listens : {α : Type} → Call α → Prop
  | _, .transmit .. => False
  | _, _            => True

-- To them the card is the one whose answer is fixed.
theorem handler_listens {call : Call α} {port : Port} (hc : Listens call) :
    handler react c call ⟨card, port.input⟩ =
      ((Port.handler call port).fst, ⟨card, (Port.handler call port).snd.input⟩) := by
  cases call
  case transmit => exact hc.elim
  case receive ifd timings size =>
    simp only [handler, Port.handler, Port.receive]
    split <;> rfl
  all_goals rfl

theorem yields_listens {p : DriverM α} {a : α} {port port' : Port} (hu : Uses Listens p)
    (hy : Yields Port.handler p port a port') :
    Yields (handler react c) p ⟨card, port.input⟩ a ⟨card, port'.input⟩ :=
  @Uses.yields_map Call α Listens _ _ Port.handler (handler react c) (fun port => ⟨card, port.input⟩) p a port
    port' hu (fun _ _ hc => handler_listens hc) hy

theorem listens_of_receive {call : Call α} (hc : OnlyReceives call) : Listens call := by
  cases call
  case transmit => exact hc.elim
  all_goals trivial

theorem listens_receive : Uses Listens (icc.receive size) :=
  IccAsync.uses_receiveOnly.mono fun _ => listens_of_receive

theorem yields_beginTransmission : Yields (handler react c) icc.beginTransmission e true e :=
  @yields_listens C Bool react c e.card _ _ ⟨e.output, []⟩ ⟨e.output, []⟩
    (.ite (.bind trivial fun _ => .ite trivial <| .bind trivial fun _ => .ite trivial trivial)
      (.bind trivial fun _ => .ite trivial trivial)) IccAsync.yields_beginTransmission

theorem yields_endTransmission : Yields (handler react c) icc.endTransmission e true e :=
  @yields_listens C Bool react c e.card _ _ ⟨e.output, []⟩ ⟨e.output, []⟩
    (.ite (.bind trivial fun _ => .ite trivial trivial) trivial) IccAsync.yields_endTransmission

theorem yields_switch : Yields (handler react c) icc.switch e true e :=
  @yields_listens C Bool react c e.card _ _ ⟨e.output, []⟩ ⟨e.output, []⟩
    (.ite (.bind trivial fun _ => .ite trivial trivial) trivial) IccAsync.yields_switch

theorem yields_receive (ht : icc.timings.blockTimeout = icc.timings.charTimeout ∨ 0 < size) (data : Bytes size) :
    Yields (handler react c) (icc.receive size) ⟨card, icc.convention.convert (data.val ++ bs)⟩ (some data)
      ⟨card, icc.convention.convert bs⟩ :=
  @yields_listens C _ react c card _ _ _ ⟨_, []⟩ listens_receive (IccAsync.yields_receive ht data)

theorem yields_transmit : Yields (handler react icc.convention) (icc.transmit data) e true (react e data) := by
  refine Yields.call_iff.mpr ?_
  simp only [handler, Convention.convert_convert]

end CardPeer
end Towitoko
