import Towitoko.Driver.ProcessorCard
import Towitoko.Driver.Theorems.T1Dialogue

-- The driver and a processor card on the line: with the settings that the operations on the card make, the card hears all
-- that it is sent, and is heard.
namespace Towitoko

open Interaction Iso7816.T1

namespace ProcessorCard

variable {A α : Type} {card : ProcessorCard A} {icc : IccAsync} {e : CardAtReader A} {port port' : Port} {p : DriverM α}
  {a : α} {baudrate : Nat} {data : List Byte} {ifd : Ifd}

theorem handler_receives {call : Call α} (hc : OnlyReceives call) (he : e.line = card.settings) :
    card.handler call { e with peer := { e.peer with output := port.input } } =
      ((Port.handler call port).fst, { e with peer := { e.peer with output := (Port.handler call port).snd.input } }) := by
  cases call
  case receive ifd timings size =>
    simp only [handler, Port.handler, Port.receive, he, if_true]
    split <;> rfl
  all_goals exact hc.elim

-- As long as the line has the settings of the card, what it has sent is received.
theorem yields_receives (hu : Uses OnlyReceives p) (he : e.line = card.settings)
    (hy : Yields Port.handler p port a port') :
    Yields card.handler p { e with peer := { e.peer with output := port.input } } a
      { e with peer := { e.peer with output := port'.input } } :=
  @Uses.yields_map Call α OnlyReceives _ _ Port.handler card.handler
    (fun port => { e with peer := { e.peer with output := port.input } }) p a port port' hu
    (fun _ _ hc => handler_receives hc he) hy

theorem yields_setBaudrate (h : baudrate ∈ IfdTowitoko.commonRates) :
    Yields card.handler (ifd.setBaudrate baudrate) e true { e with line := { e.line with baudrate := some baudrate } } := by
  have hmax : ∀ n ∈ IfdTowitoko.commonRates, ¬ifd.getMaxBaudrate < n := by
    rw [Ifd.getMaxBaudrate]
    decide
  refine Yields.call_iff.mpr ?_
  rw [handler, if_neg (hmax _ h), common, if_pos h]

theorem yields_beginTransmission (hi : icc.Suits card.convention iccAsyncBaudrate) (hp : e.line.parity = some .even) :
    Yields card.handler icc.beginTransmission e true { e with line := card.settings } := by
  obtain ⟨hc, hb⟩ := hi
  have h : iccAsyncBaudrate ∈ IfdTowitoko.commonRates := by decide
  rw [IccAsync.beginTransmission, hc, hb, settings]
  cases hconv : card.convention
  case direct =>
    refine Yields.bind_iff.mpr ⟨_, _, yields_setBaudrate h, ?_⟩
    refine Yields.pure_iff.mpr ⟨rfl, ?_⟩
    simp [LineSettings.matching, Convention.parity, hp]
  case inverse =>
    refine Yields.bind_iff.mpr ⟨true, _, Yields.call_iff.mpr rfl, ?_⟩
    exact Yields.bind_iff.mpr ⟨_, _, yields_setBaudrate h, Yields.pure_iff.mpr ⟨rfl, rfl⟩⟩

theorem yields_endTransmission (hc : icc.convention = card.convention)
    (he : e.line.parity = some card.convention.parity) :
    Yields card.handler icc.endTransmission e true { e with line := { e.line with parity := some .even } } := by
  rw [IccAsync.endTransmission, hc]
  cases hconv : card.convention
  case direct =>
    rw [hconv] at he
    refine Yields.pure_iff.mpr ⟨rfl, ?_⟩
    change _ = some Parity.even at he
    rw [← he]
  case inverse => exact Yields.bind_iff.mpr ⟨true, _, Yields.call_iff.mpr rfl, Yields.pure_iff.mpr ⟨rfl, rfl⟩⟩

theorem yields_switch : Yields card.handler icc.switch e true e := by
  rw [IccAsync.switch]
  split
  case isTrue  => exact Yields.bind_iff.mpr ⟨true, _, Yields.call_iff.mpr rfl, Yields.pure_iff.mpr ⟨rfl, rfl⟩⟩
  case isFalse => exact Yields.pure_iff.mpr ⟨rfl, rfl⟩

theorem yields_transmit (hc : icc.convention = card.convention) :
    Yields card.handler (icc.transmit data) e true (card.receive e data) := by
  refine Yields.call_iff.mpr ?_
  simp only [handler, hc, Convention.convert_convert]

-- What comes with the settings of the card reaches it.
theorem receive_matching (he : e.line = card.settings) :
    card.receive e data = { e with peer := e.peer.react card.respond card.convention data } :=
  if_pos he

end ProcessorCard

namespace ProtocolT1

-- The line to a processor card.
def Medium.onLine {A : Type} (card : ProcessorCard A) :
    Medium card.respond card.convention iccAsyncBaudrate card.handler where
  idle peer e := e.peer = peer ∧ e.line.parity = some .even
  due peer e  := e.peer = peer ∧ e.line = card.settings
  sends {icc block b peer e} hi hr hb he := by
    obtain ⟨rfl, hp⟩ := he
    refine .bind_of_yields (ProcessorCard.yields_beginTransmission hi hp) ?_
    rw [if_neg (by decide)]
    refine .bind_of_yields (ProcessorCard.yields_transmit hi.convention) ?_
    rw [if_neg (by decide), hr, ProcessorCard.receive_matching rfl]
    exact .pure ⟨rfl, rfl, rfl⟩
  receives {t1 icc b peer e} hb hi he := by
    obtain ⟨hpeer, hline⟩ := he
    obtain ⟨icc', hc, hy⟩ := yields_receiveBytes t1 icc [] [] (@T1Block.ofBlock_isComplete b hb)
    have hn : card.convention.convert [] = [] := by cases card.convention <;> rfl
    rw [List.append_nil, hi.convention, hn] at hy
    have hy := ProcessorCard.yields_receives uses_receiveOnly hline hy
    have hout : e.peer.output = card.convention.convert b.encode := congrArg CardPeer.output hpeer
    have hcard : e.peer.card = peer := congrArg CardPeer.card hpeer
    rw [show (T1Block.ofBlock b hb).raw = b.encode from rfl, ← hout] at hy
    refine .bind_of_yields hy ?_
    refine .bind_of_yields ProcessorCard.yields_switch ?_
    have hp : e.line.parity = some card.convention.parity := congrArg LineSettings.parity hline
    refine .bind_of_yields (ProcessorCard.yields_endTransmission (hc.trans hi.convention) hp) ?_
    exact .pure ⟨⟨rfl, rfl⟩, congrArg (CardPeer.mk · []) hcard, rfl⟩

end ProtocolT1

namespace ProtocolT1

variable {A : Type} {card : ProcessorCard A} {icc : IccAsync} {e : CardAtReader A} (params : PpsProtocolParameters)

-- The size of the blocks is one of those that the standard allows.
theorem init_ifsc : 0 < (init icc params).fst.ifsc ∧ (init icc params).fst.ifsc ≤ 251 := by
  refine ⟨Nat.lt_min.mpr ⟨?_, by decide⟩, Nat.min_le_right ..⟩
  cases icc.atr.getInterfaceByte 3 (·.ta)
  case none    => decide
  case some ta =>
    dsimp only
    split
    case isTrue h  => exact Nat.pos_of_ne_zero fun hz => h.left <| BitVec.eq_of_toNat_eq hz
    case isFalse h => decide

theorem init_expected : (init icc params).fst.expected = false := by
  have hn : (init icc params).fst.ns = 1 := rfl
  rw [expected, hn]
  rfl

-- The protocol begins with a card that has not received a block since its reset.
theorem init_ready (hi : icc.Suits card.convention iccAsyncBaudrate) (hc : e.peer = card.started)
    (hp : e.line.parity = some .even) :
    Poised (.onLine card) card.app (init icc params).fst (init icc params).snd e where
  ifsc  := init_ifsc params
  suits := ⟨hi.convention, hi.baudrate⟩
  idle  := ⟨false, by rw [init_expected]; exact ⟨hc, hp⟩⟩

end ProtocolT1

namespace ProcessorCard

variable {A : Type} {card : ProcessorCard A} {icc : IccAsync} {e : CardAtReader A} {ifd : Ifd}

-- The first protocol that the card offers is T=1.
def OffersT1 (card : ProcessorCard A) : Prop :=
  Pps.selectFirstProtocol card.atr = 0x01

-- Without a request, both sides can begin with T=1.
theorem reaches_perform {params : Bytes ppsMaxLength} (ht : card.OffersT1) (hatr : icc.atr = card.atr)
    (hi : icc.Suits card.convention iccAsyncBaudrate) (hc : e.peer = card.started) (hp : e.line.parity = some .even) :
    Reaches card.handler (Pps.cleared.perform icc params 0) e fun r e =>
      r.ret = .ok ∧ ∃ t1, r.pps.protocol = some (.t1 t1) ∧ ProtocolT1.Poised (.onLine card) card.app t1 r.icc e := by
  rw [Pps.perform, if_neg (by decide), Pps.initProtocol]
  have ht' : (Pps.cleared.offered icc.atr).parameters.t = 0x01 := by rw [hatr]; exact ht
  rw [ht', if_neg (by decide), if_pos rfl]
  refine .bind <| .bind <| .call <| .pure <| .pure ⟨rfl, _, rfl, ?_⟩
  exact ProtocolT1.init_ready (Pps.cleared.offered icc.atr).parameters hi hc hp

theorem reaches_readBytes {n : Nat} : Reaches card.handler (readBytes [] n) e fun _ e' => e' = e := by
  induction n
  case zero    => exact .pure rfl
  case succ hi => exact .bind <| .call <| .bind <| hi.mono fun _ _ he => .pure he

theorem reaches_initAsync : Reaches card.handler (IccAsync.init ifd) e fun r e' =>
    (∃ icc, r = .ok icc ∧ icc.atr = card.atr ∧ icc.Suits card.convention iccAsyncBaudrate) ∧
      e'.peer = card.started ∧ e'.line.parity = e.line.parity := by
  refine .bind <| .call <| .bind_of_yields (yields_setBaudrate (by decide)) <| .bind <| .call <| .bind <| .call ?_
  simp only [handler, card.announced]
  exact .bind <| .call <| .pure ⟨⟨_, rfl, rfl, rfl, rfl⟩, rfl, rfl⟩

end ProcessorCard
end Towitoko
