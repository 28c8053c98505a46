import Mathlib.Data.Rat.Floor
import Towitoko.Interaction.Uses
import Towitoko.Driver.Theorems.ProtocolT1

-- How long the driver waits for the blocks of a card that has asked for more time.
namespace Towitoko

open Interaction

namespace Link

-- The multiplier that the card has asked for, while the block after the S(WTX response) is awaited.
def multiplier (l : Link) : Option Nat := do
  let response ← l.sent.getLast?
  let request ← l.received.getLast?
  guard (l.pending = [] ∧ response.getType = t1BlockSWtxRes ∧ request.getType = t1BlockSWtxReq)
  let inf ← request.getInf
  return (← inf.head?).toNat

variable {l : Link} {block : T1Block}

theorem multiplier_of_pending (h : l.pending ≠ []) : l.multiplier = none := by
  simp [multiplier, h]

theorem multiplier_of_sent (h : ∀ b ∈ l.sent.getLast?, b.getType ≠ t1BlockSWtxRes) : l.multiplier = none := by
  cases hs : l.sent.getLast?
  case none   => simp [multiplier, hs]
  case some b => simp [multiplier, hs, h b hs]

theorem multiplier_of_received (h : ∀ b ∈ l.received.getLast?, b.getType ≠ t1BlockSWtxReq) : l.multiplier = none := by
  cases hr : l.received.getLast?
  case none   => simp [multiplier, hr]
  case some b => simp [multiplier, hr, h b hr]

theorem multiplier_eq_some {w : Nat} (h : l.multiplier = some w) :
    ∃ request inf byte, l.received.getLast? = some request ∧ request.getInf = some inf ∧ inf.head? = some byte ∧
      byte.toNat = w := by
  simp only [multiplier, Option.bind_eq_bind, Option.bind_eq_some_iff] at h
  have ⟨_, _, request, hr, _, _, inf, hi, byte, hb, hw⟩ := h
  exact ⟨request, inf, byte, hr, hi, hb, Option.some.inj hw⟩

end Link

-- The line, and for every extension of the waiting time the multiplier and the timeout in force.
structure WaitWatch where
  link  : Link
  waits : List (Nat × Nat)

namespace WaitWatch

def start : WaitWatch where
  link  := .start
  waits := []

def observe (c : Convention) (m : WaitWatch) (ev : Event Call) : WaitWatch where
  link  := onLine c Link.observe m.link ev
  waits :=
    match ev with
    | ⟨.receive _ timings _, _⟩ => m.waits ++ m.link.multiplier.toList.map (·, timings.blockTimeout)
    | _                         => m.waits

variable {c : Convention} {m : WaitWatch} {α : Type} {p : Prog Call α}

-- What holds of the line.
theorem ensures_link {Q : Link → α → Prop} (hp : Ensures (onLine c Link.observe) p m.link Q) :
    Ensures (observe c) p m fun m' a => Q m'.link a :=
  hp.of_hom link fun _ _ => rfl

-- Calls that receive nothing.
def isQuiet : {α : Type} → Call α → Prop
  | _, .receive .. => False
  | _, _           => True

theorem ensures_waits (hp : Uses isQuiet p) : Ensures (observe c) p m fun m' _ => m'.waits = m.waits := by
  refine hp.ensures_rel (R := fun m m' : WaitWatch => m'.waits = m.waits) (fun _ => rfl) (fun h h' => h'.trans h) ?_
  intro m ⟨call, r⟩ hc
  cases call
  case receive => exact hc.elim
  all_goals rfl

end WaitWatch

open WaitWatch

namespace IccAsync

variable {icc : IccAsync}

theorem quiet_beginTransmission : Uses isQuiet icc.beginTransmission := by
  have hb : Uses isQuiet (do if !(← icc.ifd.setBaudrate icc.baudrate) then return false else return true) :=
    .bind trivial fun _ => .ite trivial trivial
  exact .ite (.bind trivial fun _ => .ite trivial hb) hb

theorem quiet_endTransmission : Uses isQuiet icc.endTransmission :=
  .ite (.bind trivial fun _ => .ite trivial trivial) trivial

theorem quiet_switch : Uses isQuiet icc.switch :=
  .ite (.bind trivial fun _ => .ite trivial trivial) trivial

end IccAsync

namespace ProtocolT1

variable {t1 : ProtocolT1} {icc : IccAsync} {c : Convention} {cmd : ApduCmd} {l : Link} {m : WaitWatch} {block : T1Block}
  {tb : Byte} {baudrate counter : Nat}

-- The block waiting time of an ATR with this third interface byte TB, without the limits of a word.
def blockWaitingTime (tb : Byte) (baudrate : Nat) : Nat :=
  (2 ^ ((tb &&& 0xF0) >>> 4).toNat * 960 + 11) * 1000 / baudrate

theorem floor_etu {n : Nat} : ((n : Rat) * (1000 / baudrate)).floor.toNat = n * 1000 / baudrate := by
  have h : (n : Rat) * (1000 / baudrate) = (n * 1000 : Nat) / (baudrate : Nat) := by
    rw [Nat.cast_mul, mul_div_assoc]
    rfl
  rw [h]
  exact congrArg Int.toNat (Rat.floor_natCast_div_natCast _ _)

theorem init_bwt {params : PpsProtocolParameters} (h : icc.atr.getInterfaceByte 3 (·.tb) = some tb) :
    (init icc params).fst.bwt = ushort (blockWaitingTime tb icc.baudrate) := by
  simp only [init, h, blockWaitingTime, ← floor_etu]
  push_cast
  rfl

theorem quiet_sendBlock : Uses isQuiet (sendBlock icc block) :=
  .bind IccAsync.quiet_beginTransmission fun _ => .ite trivial <|
    .bind trivial fun _ => .ite (.bind IccAsync.quiet_endTransmission fun _ => trivial) trivial

theorem waits_receiveBytes (hl : m.link.pending = []) :
    Ensures (observe icc.convention) (receiveBytes t1 icc) m fun m' _ =>
      m'.waits = m.waits ++ m.link.multiplier.toList.map (·, icc.timings.blockTimeout) := by
  refine Ensures.bind_iff.mpr <| Ensures.bind_iff.mpr <| Ensures.call_iff.mpr fun header => ?_
  cases header
  case none        => exact Ensures.pure_iff.mpr <| Ensures.pure_iff.mpr rfl
  case some header =>
    refine Ensures.pure_iff.mpr ?_
    simp only
    split
    case isFalse   => exact Ensures.pure_iff.mpr rfl
    case isTrue hz =>
      have hh : (icc.convention.convert header.val).length = 4 := by simp
      have hp : (m.link.observe (.received (icc.convention.convert header.val))).multiplier = none := by
        rw [observe_header hl hh hz]
        exact Link.multiplier_of_pending (List.ne_nil_of_length_pos (by simp))
      refine Ensures.bind_iff.mpr <| Ensures.bind_iff.mpr <| Ensures.call_iff.mpr fun rest => ?_
      generalize hm : m.observe icc.convention ⟨.receive icc.ifd icc.timings 4, some header⟩ = m₁
      have hp : m₁.link.multiplier = none := hm ▸ hp
      have hw : (m₁.observe icc.convention ⟨.receive icc.ifd (updateBWT icc t1.cwt).timings _, rest⟩).waits =
          m₁.waits := by
        simp [observe, hp]
      cases rest <;> exact Ensures.pure_iff.mpr <| Ensures.pure_iff.mpr <| hw.trans (hm ▸ rfl)

theorem waits_receiveBlock (hl : m.link.pending = []) :
    Ensures (observe icc.convention) (receiveBlock t1 icc) m fun m' _ =>
      m'.waits = m.waits ++ m.link.multiplier.toList.map (·, icc.timings.blockTimeout) := by
  refine Ensures.bind_iff.mpr <| (waits_receiveBytes hl).mono fun m₁ r hm => ?_
  refine Ensures.bind_iff.mpr <| (ensures_waits IccAsync.quiet_switch).mono fun m₂ _ hm₂ => ?_
  refine Ensures.bind_iff.mpr <| (ensures_waits IccAsync.quiet_endTransmission).mono fun m₃ _ hm₃ => ?_
  exact Ensures.pure_iff.mpr (hm₃.trans <| hm₂.trans hm)

theorem multiplier_of_awaiting {ns : Nat} {more : Bool} (h : Awaiting ns more l) : l.multiplier = none := by
  have ⟨i, hi, hI, _⟩ := h.last
  have ht : i.getType = t1BlockI := of_decide_eq_true hI
  refine Link.multiplier_of_sent fun b hb => ?_
  cases hi.symm.trans hb
  rw [ht]
  decide

-- The command is sent without any extension of the time.
structure SentAtOnce (c : Convention) (ns bwt : Nat) (s : Sending) (m : WaitWatch) : Prop where
  waits : m.waits = []
  bwt   : s.t1.bwt = bwt
  link  : SendInvariant c ns s m.link

theorem quiet_sendSegment : Uses isQuiet (sendSegment t1 icc cmd counter) :=
  .bind quiet_sendBlock fun _ => trivial

theorem bwt_sendSegment {M : Type} {δ : M → Event Call → M} {m : M} :
    Ensures δ (sendSegment t1 icc cmd counter) m fun _ s => s.t1.bwt = t1.bwt :=
  Ensures.skip fun _ _ => Ensures.pure_iff.mpr rfl

theorem waits_sendBody {ns bwt : Nat} {s : Sending} (hs : SentAtOnce c ns bwt s m) :
    Ensures (observe c) (sendBody cmd s) m fun m' r =>
      m'.waits = [] ∧ r.elim (·.t1.bwt = bwt) (·.t1.bwt = bwt) := by
  rw [sendBody, Ensures.ite_iff]
  split
  case isTrue     => exact Ensures.pure_iff.mpr ⟨hs.waits, hs.bwt⟩
  case isFalse hw =>
    obtain ⟨hl, _⟩ := hs.link.linked (Decidable.not_not.mp hw).left
    rw [← hs.link.convention]
    refine Ensures.bind_iff.mpr <| (waits_receiveBlock hl.pending).mono fun m' r hm => ?_
    obtain ⟨ret, block, icc'⟩ := r
    rw [multiplier_of_awaiting hl, hs.waits] at hm
    rw [Ensures.ite_iff]
    split
    case isTrue  => exact Ensures.pure_iff.mpr ⟨hm, hs.bwt⟩
    case isFalse =>
      cases block
      case none       => exact Ensures.fault
      case some block =>
        simp only [Ensures.ite_iff]
        split
        case isTrue  => exact Ensures.pure_iff.mpr ⟨hm, hs.bwt⟩
        case isFalse =>
          refine Ensures.bind_iff.mpr <| ((ensures_waits quiet_sendSegment).and bwt_sendSegment).mono fun m'' s' h => ?_
          exact Ensures.pure_iff.mpr ⟨h.left.trans hm, h.right.trans hs.bwt⟩

theorem waits_sendCommand :
    Ensures (observe icc.convention) (sendCommand t1 icc cmd) .start fun m' s =>
      SentAtOnce icc.convention t1.ns t1.bwt s m' := by
  have hs : Ensures (observe icc.convention) (sendSegment t1 icc cmd 0) .start fun m s =>
      SendInvariant icc.convention t1.ns s m.link :=
    ensures_link <| sendSegment_link (.start t1.ns) (List.forall_mem_nil _) rfl
  refine Ensures.bind_iff.mpr <| ((ensures_waits quiet_sendSegment).and <| bwt_sendSegment.and hs).mono ?_
  intro m s ⟨hw, hb, hl⟩
  refine Ensures.loop (SentAtOnce icc.convention t1.ns t1.bwt) ⟨hw, hb, hl⟩ fun s m hs => ?_
  refine ((waits_sendBody hs).and <| ensures_link <| sendBody_link hs.link).mono fun m' r ⟨⟨hw, hb⟩, hl⟩ => ?_
  cases r
  case inl => exact ⟨hw, hb, hl⟩
  case inr => exact ⟨hw, hb, hl⟩

-- The second loop has taken note of the multiplier.
structure Noted (c : Convention) (s : Receiving) (l : Link) : Prop where
  convention : s.icc.convention = c
  pending    : s.ret = .ok → l.pending = []
  multiplier : s.ret = .ok → ∀ w ∈ l.multiplier, s.wtx.toNat = w

theorem Noted.of_ne {s : Receiving} (hc : s.icc.convention = c) (h : s.ret ≠ .ok) : Noted c s l :=
  ⟨hc, fun hok => absurd hok h, fun hok => absurd hok h⟩

theorem Noted.of_none {s : Receiving} (hc : s.icc.convention = c) (hp : l.pending = []) (hm : l.multiplier = none) :
    Noted c s l :=
  ⟨hc, fun _ => hp, fun _ w hw => by rw [hm] at hw; contradiction⟩

theorem noted_handleBlock {s : Receiving} (hc : s.icc.convention = c) (hl : l.received.getLast? = some block)
    (hp : l.pending = []) :
    Ensures (onLine c Link.observe) (handleBlock s block) l fun l' s' => Noted c s' l' := by
  cases hc
  rw [handleBlock_eq, Ensures.ite_iff]
  split
  case isTrue ht =>
    have hne : ∀ b ∈ l.received.getLast?, b.getType ≠ t1BlockSWtxReq := by
      intro b hb
      cases hl.symm.trans hb
      rw [ht]
      decide
    rw [iBlock_eq, Ensures.ite_iff]
    split
    case isTrue  => exact Ensures.pure_iff.mpr <| .of_none rfl hp (Link.multiplier_of_received hne)
    case isFalse =>
      refine Ensures.bind_iff.mpr <| sendBlock_link ?_ ?_
      case refine_1 => exact Ensures.pure_iff.mpr <| .of_ne rfl (by simp)
      case refine_2 => exact Ensures.pure_iff.mpr <| .of_none rfl hp (Link.multiplier_of_received hne)
  case isFalse =>
    rw [Ensures.ite_iff]
    split
    case isFalse => exact Ensures.pure_iff.mpr <| .of_ne rfl (by simp)
    case isTrue  =>
      rw [wtxBlock_eq]
      split
      case h_2 => exact Ensures.fault
      case h_1 wtx _ hi =>
        refine Ensures.bind_iff.mpr <| sendBlock_link ?_ ?_
        case refine_1 => exact Ensures.pure_iff.mpr <| .of_ne rfl (by simp)
        case refine_2 =>
          refine Ensures.pure_iff.mpr ⟨rfl, fun _ => hp, fun _ w hw => ?_⟩
          obtain ⟨request, inf, byte, hr, hi', hb, hw⟩ := Link.multiplier_eq_some hw
          cases hl.symm.trans hr
          cases hi.symm.trans hi'
          cases hb
          exact hw

-- The timeouts are the products, as far as they fit a word.
def Wrapped (bwt : Nat) (waits : List (Nat × Nat)) : Prop :=
  ∀ x ∈ waits, 2 ≤ x.fst → x.snd = ushort (x.fst * bwt)

theorem quiet_wtxBlock {s : Receiving} : Uses isQuiet (wtxBlock s block) := by
  rw [wtxBlock_eq]
  split
  case h_1 => exact .bind quiet_sendBlock fun _ => trivial
  case h_2 => trivial

theorem quiet_handleBlock {s : Receiving} : Uses isQuiet (handleBlock s block) :=
  .ite (.ite trivial <| .bind quiet_sendBlock fun _ => trivial) <| .ite quiet_wtxBlock trivial

theorem waits_receiveBody {s : Receiving} (hs : Noted c s m.link) (hw : Wrapped t1.bwt m.waits) :
    Ensures (observe c) (receiveBody t1 s) m fun m' r =>
      Wrapped t1.bwt m'.waits ∧ r.elim (Noted c · m'.link) fun _ => True := by
  obtain ⟨rfl, hp, hn⟩ := hs
  rw [receiveBody_eq, Ensures.ite_iff]
  split
  case isTrue     => exact Ensures.pure_iff.mpr ⟨hw, trivial⟩
  case isFalse hgo =>
    obtain ⟨hok, _⟩ := Decidable.not_not.mp hgo
    generalize hi : (if s.wtx > 1 then updateBWT s.icc (s.wtx.toNat * t1.bwt) else s.icc) = icc
    have hc : s.icc.convention = icc.convention := by rw [← hi]; split <;> rfl
    rw [hc]
    have hp := hp hok
    refine Ensures.bind_iff.mpr <| ((waits_receiveBlock hp).and <| ensures_link <| receiveBlock_link hp).mono ?_
    rintro m' ⟨ret, block, icc'⟩ ⟨hm, hc', hr⟩
    have hw' : Wrapped t1.bwt m'.waits := by
      intro x hx h2
      rw [hm] at hx
      cases List.mem_append.mp hx
      case inl hx => exact hw x hx h2
      case inr hx =>
        obtain ⟨w, hw, he⟩ := List.mem_map.mp hx
        cases he
        have hn := hn hok w (Option.mem_toList.mp hw)
        have hlt : s.wtx > 1 := BitVec.lt_def.mpr (by rw [hn]; exact h2)
        rw [← hi, if_pos hlt, ← hn]
        rfl
    dsimp only at hc' hr ⊢
    generalize hs : (if s.wtx > 1 then _ else _ : Receiving) = s'
    have hs : s'.icc.convention = icc.convention ∧ s'.ret = ret := by
      rw [← hs, ← hc']
      split <;> exact ⟨rfl, rfl⟩
    rw [Ensures.ite_iff]
    split
    case isTrue hne  => exact Ensures.pure_iff.mpr ⟨hw', .of_ne hs.left (hs.right ▸ hne)⟩
    case isFalse hne =>
      obtain ⟨b, hb, _, hl⟩ := hr (Decidable.not_not.mp hne)
      cases hb
      have hlast : m'.link.received.getLast? = some b := by rw [hl]; simp [Link.receive]
      have hpend : m'.link.pending = [] := by rw [hl]; rfl
      have hh := (ensures_waits quiet_handleBlock).and <| ensures_link <| noted_handleBlock hs.left hlast hpend
      exact Ensures.bind_iff.mpr <| hh.mono fun m'' s'' h => Ensures.pure_iff.mpr ⟨h.left.symm ▸ hw', h.right⟩

theorem wrapped_command :
    Ensures (observe icc.convention) (command t1 icc cmd) .start fun m' _ => Wrapped t1.bwt m'.waits := by
  refine Ensures.bind_iff.mpr <| waits_sendCommand.mono fun m s hs => ?_
  have hn : Noted icc.convention
      { icc := s.icc, ret := s.ret, buffer := [], counter := 0, more := true, wtx := 0 } m.link := by
    refine ⟨hs.link.convention, fun hok => (hs.link.linked hok).left.pending, fun hok w hw => ?_⟩
    rw [multiplier_of_awaiting (hs.link.linked hok).left] at hw
    contradiction
  have hw : Wrapped s.t1.bwt m.waits := fun x hx => by
    rw [hs.waits] at hx
    contradiction
  have hl : Ensures (observe icc.convention) (receiveResponse s.t1 s.icc s.ret) m fun m' _ =>
      Wrapped s.t1.bwt m'.waits := by
    refine Ensures.loop (fun r m' => Wrapped s.t1.bwt m'.waits ∧ Noted icc.convention r m'.link) ⟨hw, hn⟩ ?_
    intro r m' ⟨hw, hn⟩
    refine (waits_receiveBody hn hw).mono fun m'' r' ⟨hw, hn⟩ => ?_
    cases r'
    case inl => exact ⟨hw, hn⟩
    case inr => exact hw
  exact Ensures.bind_iff.mpr <| hl.mono fun m' _ hw => Ensures.pure_iff.mpr <| hs.bwt ▸ hw

-- The waits of a run.
def waits (icc : IccAsync) (t : Trace Call) : List (Nat × Nat) :=
  (t.foldl (observe icc.convention) .start).waits

variable {params : PpsProtocolParameters} {t : Trace Call} {r : Result}

-- No waiting time is shorter than it should be.
structure Unshortened (tb : Byte) (baudrate bwt : Nat) (waits : List (Nat × Nat)) : Prop where
  block    : bwt = blockWaitingTime tb baudrate
  extended : ∀ x ∈ waits, 2 ≤ x.fst → x.snd = x.fst * bwt

theorem ushort_eq_iff {n : Nat} : ushort n = n ↔ n < 2 ^ 16 := by
  rw [ushort]
  omega

-- The times of a handler are exact if and only if none of them is too long for a word.
theorem command_unshortened_iff (htb : icc.atr.getInterfaceByte 3 (·.tb) = some tb)
    (hr : Run (command (init icc params).fst (init icc params).snd cmd) t r) :
    Unshortened tb icc.baudrate (init icc params).fst.bwt (waits icc t) ↔
      blockWaitingTime tb icc.baudrate < 2 ^ 16 ∧
        ∀ w ∈ (waits icc t).map Prod.fst, 2 ≤ w → w * blockWaitingTime tb icc.baudrate < 2 ^ 16 := by
  have hw : Wrapped (init icc params).fst.bwt (waits (init icc params).snd t) := wrapped_command t r hr
  have hw : Wrapped (init icc params).fst.bwt (waits icc t) := hw
  rw [init_bwt htb] at hw ⊢
  constructor
  case mp =>
    intro ⟨hb, he⟩
    refine ⟨ushort_eq_iff.mp hb, fun w hmem h2 => ?_⟩
    obtain ⟨x, hx, rfl⟩ := List.mem_map.mp hmem
    rw [← ushort_eq_iff, ← hb, ← hw x hx h2]
    exact he x hx h2
  case mpr =>
    intro ⟨hb, he⟩
    have hb := ushort_eq_iff.mpr hb
    refine ⟨hb, fun x hx h2 => ?_⟩
    rw [hw x hx h2, hb]
    exact ushort_eq_iff.mpr <| he x.fst (List.mem_map_of_mem hx) h2

-- A card with this third TB, and the handler for it.
def waitingCard (tb : Byte) : IccAsync :=
  { IccAsync.sample with
    atr := { IccAsync.sample.atr with
      ib := [default, default, { (default : InterfaceBytes) with tb := ⟨tb, true⟩ }]
      pn := 3 } }

abbrev waiting (tb : Byte) : ProtocolT1 × IccAsync :=
  init (waitingCard tb) ⟨1, 372, 1, 0⟩

-- The card asks for more time once.
theorem exists_run_waiting (tb w : Byte) (P : List (Nat × Nat) → Prop) [DecidablePred P]
    (he : eval (Port.handler.watch (observe .direct)) 5 (command (waiting tb).fst (waiting tb).snd readBinary1)
      (⟨(T1Block.newSBlock t1BlockSWtxReq 1 [w]).raw ++ [0x00, 0x40, 0x02, 0x90, 0x00, 0xD2], []⟩, .start)
        |>.any fun (_, _, m) => P m.waits) :
    ∃ t r, Run (command (waiting tb).fst (waiting tb).snd readBinary1) t r ∧ P (waits (waitingCard tb) t) := by
  rw [Option.any_eq_true] at he
  have ⟨(r, _, m), he, hp⟩ := he
  have ⟨t, hr, hm⟩ := (eval_yields he).exists_run
  have hm : waits (waitingCard tb) t = m.waits := congrArg WaitWatch.waits hm
  exact ⟨t, r, hr, hm ▸ of_decide_eq_true hp⟩

theorem command_unshortened_three : ∃ t r, Run (command (waiting 0x4D).fst (waiting 0x4D).snd readBinary1) t r ∧
    Unshortened 0x4D 9600 (waiting 0x4D).fst.bwt (waits (waitingCard 0x4D) t) ∧
      (waits (waitingCard 0x4D) t).map Prod.fst = [3] := by
  have ⟨t, r, hr, hw⟩ := exists_run_waiting 0x4D 0x03 (fun waits => waits.map Prod.fst = [3]) (by decide +kernel)
  refine ⟨t, r, hr, (command_unshortened_iff rfl hr).mpr ⟨by decide, fun w hmem _ => ?_⟩, hw⟩
  cases List.mem_singleton.mp (hw ▸ hmem)
  decide

-- The card asks for 41 times the block waiting time of 1601 ms, and is given 105 ms.
theorem not_command_unshortened : ∃ t r, Run (command (waiting 0x4D).fst (waiting 0x4D).snd readBinary1) t r ∧
    ¬Unshortened 0x4D 9600 (waiting 0x4D).fst.bwt (waits (waitingCard 0x4D) t) := by
  have ⟨t, r, hr, hw⟩ := exists_run_waiting 0x4D 0x29 (fun waits => waits = [(41, 105)]) (by decide +kernel)
  refine ⟨t, r, hr, fun h => ?_⟩
  rw [hw] at h
  have he := h.extended (41, 105) (List.mem_singleton_self _) (by decide)
  revert he
  decide +kernel

end ProtocolT1
end Towitoko
