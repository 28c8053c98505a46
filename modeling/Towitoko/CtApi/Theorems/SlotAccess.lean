import Towitoko.Interaction.Returns
import Towitoko.Driver.Port
import Towitoko.CtApi.Theorems.Slots
import Towitoko.CtApi.Theorems.Close
import Towitoko.CtApi.Theorems.Parameters

-- Which slots the CT-BCS commands hand to the operations on slots.
namespace Towitoko

open Interaction

namespace CtSlot

-- An operation that leaves a slot its interface device.
abbrev KeepsIfd {α : Type} (p : CtSlotM α) : Prop :=
  Returns (fun (slot : CtSlot) => slot.ifd.isSome) p fun _ => True

theorem keepsIfd_getIfd : KeepsIfd getIfd := by
  refine .bind .get fun slot _ => ?_
  split
  case h_1 => exact .pure trivial
  case h_2 => exact .fault

theorem keepsIfd_getCard : KeepsIfd (return (← get).card) :=
  .bind .get fun _ _ => .pure trivial

theorem keepsIfd_getDescription {n : Nat} : KeepsIfd (return (← getIfd).getDescription n) :=
  .bind keepsIfd_getIfd fun _ _ => .pure trivial

theorem keepsIfd_check {timeout : Nat} : KeepsIfd (check timeout) := by
  refine .bind keepsIfd_getIfd fun ifd _ => .bind (.lift _) fun status _ => ?_
  split
  case h_2 => exact .pure trivial
  refine .iterateM (fun _ => True) trivial fun _ _ => .ite (fun _ => .bind (.lift _) fun status _ => ?_) fun _ => .pure trivial
  split
  case h_1 => exact .pure trivial
  case h_2 => exact .pure trivial

theorem keepsIfd_release : KeepsIfd release := by
  refine .bind .get fun slot _ => ?_
  split
  case h_1 => exact .bind (.lift _) fun _ _ => .bind (.modify fun _ h => h) fun _ _ => .pure trivial
  case h_2 => exact .pure trivial

theorem keepsIfd_startSync {icc : IccSync} : KeepsIfd (startSync icc) := by
  refine .bind (.lift _) fun ok _ => .ite (fun _ => ?_) fun _ => ?_
  · exact .bind (.lift _) fun _ _ => .pure trivial
  · exact .bind (.modify fun _ h => h) fun _ _ => .pure trivial

theorem keepsIfd_startAsync {icc : IccAsync} {userdata : List Byte} : KeepsIfd (startAsync icc userdata) := by
  refine .bind (.lift _) fun ok _ => .ite (fun _ => ?_) fun _ => ?_
  · exact .bind (.lift _) fun _ _ => .pure trivial
  refine .bind (.lift _) fun buffer _ => .bind (.lift _) fun result _ => .ite (fun _ => ?_) fun _ => ?_
  · exact .bind (.lift _) fun _ _ => .pure trivial
  split
  case h_1 => exact .bind (.modify fun _ h => h) fun _ _ => .pure trivial
  case h_2 => exact .fault

theorem keepsIfd_probe {userdata : List Byte} : KeepsIfd (probe userdata) := by
  refine .bind (.lift _) fun ok _ => .ite (fun _ => .pure trivial) fun _ => ?_
  refine .bind keepsIfd_getIfd fun ifd _ => .bind (.lift _) fun result _ => ?_
  split
  case h_1 => exact keepsIfd_startSync
  case h_2 =>
    refine .bind (.lift _) fun ok _ => .ite (fun _ => .pure trivial) fun _ => .bind (.lift _) fun result _ => ?_
    split
    case h_1 => exact keepsIfd_startAsync
    case h_2 => exact .pure trivial

theorem keepsIfd_resynchronise {presence : Presence} : KeepsIfd (CardTerminal.resynchronise presence) :=
  .bind .get fun _ _ => .ite (fun _ => keepsIfd_release) fun _ => .pure trivial

end CtSlot

namespace SlotAccess

open CardTerminal

-- An operation can be given a slot that exists and has its interface device.
def isReady (ct : CardTerminal) (sn : Nat) : Bool :=
  (ct.slots[sn]?).any (·.ifd.isSome)

-- A command ends with `none` when it hands out a slot that is not ready.
def handReady {α : Type} (sn : Nat) (p : CtSlotM α) : OptionT CardTerminalM α := .mk do
  if isReady (← get) sn then return some (← onSlot sn p) else return none

def watched : SlotAccess (OptionT CardTerminalM) where
  terminal         := .lift get
  check sn timeout := handReady sn (CtSlot.check timeout)
  hand             := handReady
  close sn         := .lift <| onSlot sn CtSlot.close
  init sn          := .lift <| onSlot sn (CtSlot.init sn)
  driver p         := .lift (liftM p)
  iterate body t   := .mk <| iterateM (fun t => do
    match ← (body t).run with
    | some (.inl t) => return .inl t
    | some (.inr a) => return .inr (some a)
    | none          => return .inr none) t

-- A property of programs that is closed under the ways to build the commands for a terminal of `n` slots, so
-- long as they hand out existing slots to operations that leave these their interface device.
structure Closed {m : Type → Type 1} [Monad m] (access : SlotAccess m) (n : Nat) (Holds : {α : Type} → m α → Prop) :
    Prop where
  pure     : ∀ {α : Type} (a : α), Holds (pure a : m α)
  bind     : ∀ {α β : Type} {p : m β} {f : β → m α}, Holds p → (∀ b, Holds (f b)) → Holds (p >>= f)
  terminal : ∀ {α : Type} {f : CardTerminal → m α}, (∀ ct : CardTerminal, ct.slots.length = n → Holds (f ct)) →
    Holds (access.terminal >>= f)
  check    : ∀ {sn timeout : Nat}, sn < n → Holds (access.check sn timeout)
  hand     : ∀ {α : Type} {sn : Nat} {p : CtSlotM α}, sn < n → CtSlot.KeepsIfd p → Holds (access.hand sn p)
  driver   : ∀ {α : Type} (p : DriverM α), Holds (access.driver p)
  iterate  : ∀ {τ α : Type} {body : τ → m (τ ⊕ α)} (t : τ), (∀ t, Holds (body t)) → Holds (access.iterate body t)

namespace Closed

variable {m : Type → Type 1} [Monad m] {access : SlotAccess m} {n : Nat} {Holds : {α : Type} → m α → Prop}
variable {cmd : ApduCmd} {α : Type}

omit [Monad m] in
theorem ite {c : Prop} [Decidable c] {p q : m α} (hp : c → Holds p) (hq : ¬c → Holds q) :
    Holds (if c then p else q) := by
  split
  case isTrue h  => exact hp h
  case isFalse h => exact hq h

variable (hc : access.Closed n Holds)

include hc

theorem probeCard {sn : Nat} {error : ApduRsp} {reply : Byte → CtCard → DriverM (Option ApduRsp)} (h : sn < n) :
    Holds (access.probeCard cmd sn error reply) := by
  refine hc.bind (hc.hand h CtSlot.keepsIfd_probe) fun ret => hc.bind (hc.hand h CtSlot.keepsIfd_getCard) fun card => ?_
  split
  case h_1 => exact hc.bind (hc.driver _) fun _ => hc.pure _
  case h_2 => exact hc.pure _

theorem resetICC : Holds (access.resetICC cmd) := by
  refine hc.terminal fun ct hn => ite (fun _ => hc.pure _) fun hlt => ?_
  have h : slotNumber cmd < n := hn ▸ Decidable.not_not.mp hlt
  refine hc.bind (hc.hand h CtSlot.keepsIfd_release) fun ret => ite (fun _ => hc.pure _) fun _ => ?_
  refine hc.bind (hc.check h) fun presence => ?_
  split
  case h_2 => exact hc.pure _
  case h_1 => exact ite (fun _ => hc.pure _) fun _ => hc.probeCard h

theorem resetCT (hk : cmd.p1 ≠ Ctbcs.p1CtKernel) : Holds (access.resetCT cmd) :=
  ite (fun h => absurd h hk) fun _ => ite (fun _ => hc.resetICC) fun _ => hc.pure _

theorem requestICC (h : isInterface cmd → slotNumber cmd < n) : Holds (access.requestICC cmd) := by
  refine ite (fun hi => ?_) fun _ => hc.pure _
  refine hc.bind (hc.hand (h hi) CtSlot.keepsIfd_getCard) fun card => ite (fun _ => hc.pure _) fun _ => ?_
  refine hc.bind (hc.check (h hi)) fun presence => ?_
  split
  case h_2 => exact hc.pure _
  case h_1 => exact ite (fun _ => hc.pure _) fun _ => hc.probeCard (h hi)

theorem slotType : Holds access.slotType := by
  refine hc.terminal fun ct hn => ?_
  split
  case h_1 => exact hc.bind (hc.driver _) fun _ => hc.pure _
  case h_2 hs =>
    refine hc.hand ?_ CtSlot.keepsIfd_getDescription
    rw [← hn, hs]
    exact Nat.succ_pos _

theorem iccStatus : Holds access.iccStatus := by
  refine hc.iterate _ fun data => hc.terminal fun ct hn => ite (fun h => ?_) fun _ => hc.pure _
  refine hc.bind (hc.check (hn ▸ h)) fun presence => ?_
  split
  case h_2 => exact hc.pure _
  case h_1 =>
    exact hc.bind (hc.hand (hn ▸ h) CtSlot.keepsIfd_resynchronise) fun _ => ite (fun _ => hc.pure _) fun _ => hc.pure _

theorem getStatus : Holds (access.getStatus cmd) :=
  ite (fun _ => hc.bind hc.slotType fun _ => hc.pure _) fun _ => ite (fun _ => hc.iccStatus) fun _ => hc.pure _

theorem ejectICC : Holds (access.ejectICC cmd) := by
  refine ite (fun _ => hc.pure _) fun _ => hc.terminal fun ct hn => ite (fun _ => hc.pure _) fun hlt => ?_
  have h : slotNumber cmd < n := hn ▸ Decidable.not_not.mp hlt
  refine hc.bind (hc.hand h CtSlot.keepsIfd_getCard) fun card => ite (fun _ => hc.pure _) fun _ => ?_
  refine hc.bind (hc.check h) fun presence => ?_
  split
  case h_2 => exact hc.pure _
  case h_1 => exact hc.bind (hc.hand h CtSlot.keepsIfd_release) fun _ => ite (fun _ => hc.pure _) fun _ => hc.pure _

-- All commands but a reset of the whole terminal.
theorem command (hk : cmd.cla = Ctbcs.cla → cmd.ins = Ctbcs.insReset → cmd.p1 ≠ Ctbcs.p1CtKernel)
    (hr : cmd.cla = Ctbcs.cla → cmd.ins = Ctbcs.insRequest → isInterface cmd → slotNumber cmd < n) :
    Holds (access.command cmd) := by
  refine ite (fun _ => hc.pure _) fun hcla => ?_
  have hcla := Decidable.not_not.mp hcla
  refine ite (fun h => hc.resetCT (hk hcla h)) fun _ => ite (fun h => hc.requestICC (hr hcla h)) fun _ => ?_
  exact ite (fun _ => hc.getStatus) fun _ => ite (fun _ => hc.ejectICC) fun _ => hc.pure _

end Closed

-- A terminal of `n` slots that all have their interface device.
structure Ready (n : Nat) (ct : CardTerminal) : Prop where
  length : ct.slots.length = n
  ifd    : ∀ slot ∈ ct.slots, slot.ifd.isSome

variable {n sn : Nat} {ct : CardTerminal} {α : Type}

theorem Ready.isReady (h : Ready n ct) (hn : sn < n) : isReady ct sn := by
  have hl : sn < ct.slots.length := h.length ▸ hn
  rw [SlotAccess.isReady, List.getElem?_eq_getElem hl]
  exact h.ifd _ (List.getElem_mem hl)

theorem Ready.set (h : Ready n ct) {slot : CtSlot} (hs : slot.ifd.isSome) :
    Ready n { ct with slots := ct.slots.set sn slot } where
  length := (List.length_set ..).trans h.length
  ifd slot' hm := by
    cases List.mem_or_eq_of_mem_set hm
    case inl hm => exact h.ifd slot' hm
    case inr he => exact he ▸ hs

theorem returns_onSlot {p : CtSlotM α} (hp : CtSlot.KeepsIfd p) : Returns (Ready n) (onSlot sn p) fun _ => True := by
  intro ct hr t r hrun
  refine ⟨trivial, ?_⟩
  have he : Ensures (fun _ _ => ()) ((onSlot sn p).run ct) () fun _ r => Ready n r.snd := by
    refine ensures_onSlot_iff.mpr fun slot hs t r hrun => ?_
    have hi : slot.ifd.isSome := hr.ifd slot (List.mem_of_getElem? hs)
    exact hr.set (hp slot hi t r hrun).right
  exact he t r hrun

theorem closed_plain : plain.Closed n fun p => Returns (Ready n) p fun _ => True where
  pure _          := .pure trivial
  bind hp hf      := .bind hp fun b _ => hf b
  terminal hf     := .bind .get fun ct hr => hf ct hr.length
  check _         := returns_onSlot CtSlot.keepsIfd_check
  hand _ hp       := returns_onSlot hp
  driver p        := .lift p
  iterate t hb    := .iterateM (fun _ => True) trivial fun t _ => (hb t).mono fun r _ => by cases r <;> trivial

-- A command under watch that hands out only slots that are ready.
abbrev HandsOnly (Inv : CardTerminal → Prop) (p : OptionT CardTerminalM α) : Prop :=
  Returns Inv p.run fun r => r.isSome

theorem handsOnly_bind {β : Type} {Inv : CardTerminal → Prop} {p : OptionT CardTerminalM β}
    {f : β → OptionT CardTerminalM α} (Q : β → Prop) (hp : Returns Inv p.run fun r => ∃ b, r = some b ∧ Q b)
    (hf : ∀ b, Q b → HandsOnly Inv (f b)) : HandsOnly Inv (p >>= f) := by
  change Returns Inv (p.run >>= fun r => match r with | some b => (f b).run | none => pure none) _
  refine .bind hp fun r hr => ?_
  have ⟨b, hb, hq⟩ := hr
  rw [hb]
  exact hf b hq

theorem handsOnly_lift {Inv : CardTerminal → Prop} {p : CardTerminalM α} {P : α → Prop} (hp : Returns Inv p P) :
    HandsOnly Inv (.lift p) :=
  .bind hp fun _ _ => .pure rfl

theorem handsOnly_iterate {τ : Type} {Inv : CardTerminal → Prop} {body : τ → OptionT CardTerminalM (τ ⊕ α)} (t : τ)
    (hb : ∀ t, HandsOnly Inv (body t)) : HandsOnly Inv (watched.iterate body t) := by
  refine .iterateM (fun _ => True) trivial fun t _ => .bind (hb t) fun r hr => ?_
  match r with
  | some (.inl _) => exact .pure trivial
  | some (.inr _) => exact .pure rfl

theorem handsOnly_handReady {p : CtSlotM α} (hn : sn < n) (hp : CtSlot.KeepsIfd p) :
    HandsOnly (Ready n) (handReady sn p) := by
  refine .bind .get fun ct hr => ?_
  rw [if_pos (hr.isReady hn)]
  exact .bind (returns_onSlot hp) fun _ _ => .pure rfl

theorem closed_watched : watched.Closed n (HandsOnly (Ready n)) where
  pure _       := .pure rfl
  bind hp hf   := handsOnly_bind (fun _ => True) (hp.mono fun _ h => (Option.isSome_iff_exists.mp h).imp fun _ h => ⟨h, trivial⟩)
    fun b _ => hf b
  terminal hf  := handsOnly_bind _ (.bind .get fun ct hr => .pure ⟨ct, rfl, hr.length⟩) hf
  check hn     := handsOnly_handReady hn CtSlot.keepsIfd_check
  hand hn hp   := handsOnly_handReady hn hp
  driver p     := handsOnly_lift (.lift p)
  iterate t hb := handsOnly_iterate t hb

-- Nothing is asked of the state.
theorem returns_any {p : CardTerminalM α} : Returns (fun _ => True) p fun _ => True :=
  fun _ _ _ _ _ => ⟨trivial, trivial⟩

-- A reset of the whole terminal hands out no slot.
theorem handsOnly_resetSlots : HandsOnly (fun _ => True) watched.resetSlots := by
  refine handsOnly_iterate _ fun sn => handsOnly_bind (fun _ => True) (.bind .get fun ct _ => .pure ⟨ct, rfl, trivial⟩) ?_
  intro ct _
  have hl : ∀ {p : CardTerminalM CtRet}, Returns (fun _ => True) (OptionT.lift p).run fun r => ∃ ret, r = some ret ∧ True :=
    .bind returns_any fun ret _ => .pure ⟨ret, rfl, trivial⟩
  split
  case isFalse => exact .pure rfl
  refine handsOnly_bind _ hl fun ret _ => ?_
  split
  case isTrue => exact .pure rfl
  refine handsOnly_bind _ hl fun ret _ => ?_
  split
  case isTrue  => exact .pure rfl
  case isFalse => exact .pure rfl

theorem handsOnly_resetCT {cmd : ApduCmd} (hk : cmd.p1 = Ctbcs.p1CtKernel) :
    HandsOnly (fun _ => True) (watched.resetCT cmd) := by
  rw [resetCT, if_pos hk]
  split
  case isTrue => exact .pure rfl
  have hr : Returns (fun _ => True) watched.resetSlots.run fun r => ∃ ret, r = some ret ∧ True :=
    handsOnly_resetSlots.mono fun _ h => (Option.isSome_iff_exists.mp h).imp fun _ h => ⟨h, trivial⟩
  refine handsOnly_bind _ hr fun ret _ => ?_
  split
  case isTrue  => exact .pure rfl
  case isFalse => exact .pure rfl

end SlotAccess

section

open Ensures (all)

variable {b : Bool} {n sn : Nat} {ct : CardTerminal} {slot : CtSlot}

-- The event is no failure of a call that closes or initialises something.
def isReset : Event Call → Bool
  | ⟨.malloc, ok⟩ => ok
  | ⟨.init _, r⟩  => r.isSome
  | ev            => isClosing ev

theorem isClosing_of_isReset (ev : Event Call) (h : isReset ev = true) : isClosing ev = true := by
  have ⟨call, _⟩ := ev
  cases call <;> first | rfl | exact h

theorem CtSlot.ensures_close_isReset :
    Ensures (all isReset) (CtSlot.close.run slot) b fun b' r => b' = true → b = true ∧ r.fst = .ok :=
  .of_all (CtSlot.ensures_close.mono fun b r h hb => by simpa [h] using hb) isClosing_of_isReset

theorem CtSlot.ensures_init_isReset :
    Ensures (all isReset) ((CtSlot.init sn).run slot) b fun b' r =>
      b' = true → b = true ∧ r.fst = .ok ∧ r.snd.ifd.isSome := by
  refine Ensures.run_modify_bind_iff.mpr <| Ensures.run_bind_iff.mpr ?_
  refine Ensures.run_lift_iff.mpr <| Ensures.call_iff.mpr fun ok => Ensures.run_ite_iff.mpr ?_
  split
  case isTrue h =>
    have h : ok = false := by simpa using h
    refine Ensures.run_pure_iff.mpr ?_
    simp [all, isReset, h]
  refine Ensures.run_lift_bind_iff.mpr <| Ensures.bind_iff.mpr <| Ensures.call_iff.mpr fun r => ?_
  refine Ensures.pure_iff.mpr ?_
  match r with
  | none   =>
    refine Ensures.run_pure_iff.mpr ?_
    simp [all, isReset]
  | some _ =>
    refine Ensures.run_modify_bind_iff.mpr <| Ensures.run_pure_iff.mpr fun hb => ⟨?_, rfl, rfl⟩
    rw [all, all, Bool.and_eq_true, Bool.and_eq_true] at hb
    exact hb.left.left

theorem ensures_resetSlots (hr : SlotAccess.Ready n ct) :
    Ensures (all isReset) (CardTerminal.resetSlots.run ct) true fun b r => b = true → SlotAccess.Ready n r.snd := by
  rw [CardTerminal.resetSlots, SlotAccess.resetSlots, CardTerminal.plain_iterate]
  refine Ensures.run_iterateM (fun _ ct b => b = true → SlotAccess.Ready n ct) (fun _ => hr) fun sn ct b hi => ?_
  refine Ensures.run_get_bind_iff.mpr <| Ensures.run_ite_iff.mpr ?_
  split
  case isFalse => exact Ensures.run_pure_iff.mpr hi
  refine Ensures.run_bind_iff.mpr <| CardTerminal.ensures_onSlot_iff.mpr fun slot hs => ?_
  refine CtSlot.ensures_close_isReset.mono fun b₁ r₁ h₁ => Ensures.run_ite_iff.mpr ?_
  split
  case isTrue hne => exact Ensures.run_pure_iff.mpr fun hb => absurd (h₁ hb).right hne
  refine Ensures.run_bind_iff.mpr <| CardTerminal.ensures_onSlot_iff.mpr fun slot' hs' => ?_
  refine CtSlot.ensures_init_isReset.mono fun b₂ r₂ h₂ => Ensures.run_ite_iff.mpr ?_
  have hset : b₂ = true → SlotAccess.Ready n { ct with slots := (ct.slots.set sn r₁.snd).set sn r₂.snd } := by
    intro hb
    have ⟨hb₁, _, hifd⟩ := h₂ hb
    rw [List.set_set]
    exact (hi (h₁ hb₁).left).set hifd
  split
  case isTrue  => exact Ensures.run_pure_iff.mpr hset
  case isFalse => exact Ensures.run_pure_iff.mpr hset

variable {cmd : ApduCmd}
theorem ensures_resetCT (hr : SlotAccess.Ready n ct) (hk : cmd.p1 = Ctbcs.p1CtKernel) :
    Ensures (all isReset) ((CardTerminal.resetCT cmd).run ct) true fun b r => b = true → SlotAccess.Ready n r.snd := by
  rw [CardTerminal.resetCT, SlotAccess.resetCT, if_pos hk]
  refine Ensures.run_ite_iff.mpr ?_
  split
  case isTrue => exact Ensures.run_pure_iff.mpr fun _ => hr
  refine Ensures.run_bind_iff.mpr <| (ensures_resetSlots hr).mono fun b r h => Ensures.run_ite_iff.mpr ?_
  split
  case isTrue  => exact Ensures.run_pure_iff.mpr h
  case isFalse => exact Ensures.run_pure_iff.mpr h

theorem CtSlot.ensures_init_ok : Ensures (fun _ _ => ()) ((CtSlot.init sn).run slot) () fun _ r =>
    r.fst = .ok → r.snd.ifd.isSome := by
  refine Ensures.run_modify_bind_iff.mpr <| Ensures.run_bind_iff.mpr ?_
  refine Ensures.run_lift_iff.mpr <| Ensures.call_iff.mpr fun _ => Ensures.run_ite_iff.mpr ?_
  split
  case isTrue => exact Ensures.run_pure_iff.mpr nofun
  refine Ensures.run_lift_bind_iff.mpr fun _ r _ => ?_
  match r with
  | none   => exact Ensures.run_pure_iff.mpr nofun
  | some _ => exact Ensures.run_modify_bind_iff.mpr <| Ensures.run_pure_iff.mpr fun _ => rfl

theorem CtSlot.keepsIfd_isLast : CtSlot.KeepsIfd CtSlot.isLast :=
  .bind keepsIfd_getIfd fun _ _ => .pure trivial

theorem ensures_createSlots : Ensures (fun _ _ => ()) CardTerminal.createSlots () fun _ r =>
    ∀ slots, r = .ok slots → ∀ slot ∈ slots, slot.ifd.isSome := by
  refine Ensures.loop (fun slots _ => ∀ slot ∈ slots, slot.ifd.isSome) nofun fun slots _ hi => ?_
  refine Ensures.bind_iff.mpr <| Ensures.call_iff.mpr fun _ => Ensures.ite_iff.mpr ?_
  split
  case isTrue => exact Ensures.pure_iff.mpr nofun
  refine Ensures.bind_iff.mpr <| CtSlot.ensures_init_ok.mono fun _ r hr => Ensures.ite_iff.mpr ?_
  split
  case isTrue => exact Ensures.pure_iff.mpr nofun
  case isFalse hok =>
    refine Ensures.bind_iff.mpr fun t r' hr' => ?_
    have hs := (CtSlot.keepsIfd_isLast _ (hr (Decidable.not_not.mp hok)) t r' hr').right
    have hall : ∀ slot ∈ slots ++ [r'.snd], slot.ifd.isSome := by
      intro slot hm
      cases List.mem_append.mp hm
      case inl hm => exact hi slot hm
      case inr hm => exact List.mem_singleton.mp hm ▸ hs
    refine Ensures.ite_iff.mpr ?_
    split
    case isTrue  =>
      refine Ensures.pure_iff.mpr fun _ he => ?_
      cases he
      exact hall
    case isFalse => exact Ensures.pure_iff.mpr hall

theorem init_ready {pn : Nat} {t : Trace Call} (hr : Run (CardTerminal.init pn) t (.ok ct)) :
    SlotAccess.Ready ct.slots.length ct := by
  have h : Ensures (fun _ _ => ()) (CardTerminal.init pn) () fun _ r => ∀ ct, r = .ok ct → ∀ slot ∈ ct.slots, slot.ifd.isSome := by
    refine Ensures.bind_iff.mpr <| Ensures.call_iff.mpr fun _ => Ensures.ite_iff.mpr ?_
    split
    case isTrue => exact Ensures.pure_iff.mpr nofun
    refine Ensures.bind_iff.mpr <| Ensures.call_iff.mpr fun _ => Ensures.ite_iff.mpr ?_
    split
    case isTrue => exact Ensures.pure_iff.mpr nofun
    refine Ensures.bind_iff.mpr <| ensures_createSlots.mono fun _ r hs => ?_
    match r with
    | .ok slots =>
      refine Ensures.pure_iff.mpr fun _ he => ?_
      cases he
      exact hs slots rfl
    | .error _  => exact Ensures.bind_iff.mpr <| Ensures.call_iff.mpr fun _ => Ensures.pure_iff.mpr nofun
  exact ⟨rfl, h t _ hr ct rfl⟩

end

namespace CardTerminal

open SlotAccess

-- The command names an interface that the terminal does not have. GET STATUS names none.
def NamesMissing (ct : CardTerminal) (cmd : ApduCmd) : Prop :=
  cmd.cla = Ctbcs.cla ∧ (cmd.ins = Ctbcs.insReset ∨ cmd.ins = Ctbcs.insRequest ∨ cmd.ins = Ctbcs.insEject) ∧
    ct.slots.length < cmd.p1.toNat

-- All the slots that a command hands out are ready, whatever happens, and a command that names a missing slot
-- is answered with 6A00 and changes nothing.
structure HandsReady (ct : CardTerminal) (cmd : ApduCmd) : Prop where
  hands   : ∀ t r ct', Run ((watched.command cmd).run.run ct) t (r, ct') → r ≠ none
  rejects : NamesMissing ct cmd → Rejects ct cmd

-- A REQUEST ICC names an interface that the terminal has.
def RequestsSlot (ct : CardTerminal) (cmd : ApduCmd) : Prop :=
  cmd.cla = Ctbcs.cla → cmd.ins = Ctbcs.insRequest → isInterface cmd → slotNumber cmd < ct.slots.length

-- In a reset of the whole terminal every slot can be closed and initialised.
def ResetsSlots (cmd : ApduCmd) (t : Trace Call) : Prop :=
  cmd.cla = Ctbcs.cla → cmd.ins = Ctbcs.insReset → cmd.p1 = Ctbcs.p1CtKernel → t.all isReset

-- The states after a successful initialisation and any commands that meet a condition.
inductive Reachable (Fine : CardTerminal → ApduCmd → Trace Call → Prop) : CardTerminal → Prop
  | init {pn t ct} : Run (init pn) t (.ok ct) → Reachable Fine ct
  | command {ct cmd t r ct'} :
    Reachable Fine ct → Fine ct cmd t → Run ((command cmd).run ct) t (r, ct') → Reachable Fine ct'

def Fine (ct : CardTerminal) (cmd : ApduCmd) (t : Trace Call) : Prop :=
  RequestsSlot ct cmd ∧ ResetsSlots cmd t

variable {ct ct' : CardTerminal} {cmd : ApduCmd} {t : Trace Call} {n : Nat}

theorem ready_command {r : Reply} (hr : Ready n ct) (hq : RequestsSlot ct cmd) (hs : ResetsSlots cmd t)
    (h : Run ((command cmd).run ct) t (r, ct')) : Ready n ct' := by
  by_cases hk : cmd.cla = Ctbcs.cla ∧ cmd.ins = Ctbcs.insReset ∧ cmd.p1 = Ctbcs.p1CtKernel
  case pos =>
    have ⟨hcla, hins, hp1⟩ := hk
    rw [CardTerminal.command, SlotAccess.command, if_neg (not_not_intro hcla), if_pos hins] at h
    refine ensures_resetCT hr hp1 t (r, ct') h ?_
    rw [Ensures.foldl_all, hs hcla hins hp1]
    rfl
  case neg =>
    have hc := closed_plain.command (fun hcla hins hp1 => hk ⟨hcla, hins, hp1⟩) fun hcla hins hi => hr.length ▸ hq hcla hins hi
    exact (hc ct hr t (r, ct') h).right

theorem reachable_ready (h : Reachable Fine ct) : Ready ct.slots.length ct := by
  induction h
  case init h => exact init_ready h
  case command hf h hi =>
    have hr := ready_command hi hf.left hf.right h
    exact hr.length ▸ hr

theorem hands_of_ready (hr : Ready n ct) (hq : RequestsSlot ct cmd) {r : Option Reply}
    (h : Run ((watched.command cmd).run.run ct) t (r, ct')) : r ≠ none := by
  by_cases hk : cmd.cla = Ctbcs.cla ∧ cmd.ins = Ctbcs.insReset ∧ cmd.p1 = Ctbcs.p1CtKernel
  case pos =>
    have ⟨hcla, hins, hp1⟩ := hk
    have hc : HandsOnly (fun _ => True) (watched.command cmd) := by
      rw [SlotAccess.command, if_neg (not_not_intro hcla), if_pos hins]
      exact handsOnly_resetCT hp1
    exact Option.isSome_iff_ne_none.mp (hc ct trivial t (r, ct') h).left
  case neg =>
    have hc := closed_watched.command (fun hcla hins hp1 => hk ⟨hcla, hins, hp1⟩)
      fun hcla hins hi => hr.length ▸ hq hcla hins hi
    exact Option.isSome_iff_ne_none.mp (hc ct hr t (r, ct') h).left

theorem slotNumber_missing (hi : isInterface cmd) (hm : ct.slots.length < cmd.p1.toNat) :
    ¬slotNumber cmd < ct.slots.length := by
  rw [slotNumber]
  cases hi
  case inl h =>
    rw [if_pos h]
    rw [h] at hm
    exact Nat.not_lt.mpr (Nat.le_of_lt_succ hm)
  case inr h =>
    have hne : cmd.p1 ≠ Ctbcs.p1Interface1 := by rw [h]; decide
    rw [if_neg hne]
    rw [h] at hm
    exact Nat.not_lt.mpr (Nat.le_of_lt_succ hm)

theorem silent_ejectICC_missing (hm : ct.slots.length < cmd.p1.toNat) :
    ∃ ret, Silent ((ejectICC cmd).run ct) ((ret, some Ctbcs.wrongParam), ct) := by
  by_cases hi : isInterface cmd
  case neg => exact ⟨_, silent_ejectICC hi⟩
  case pos =>
    rw [CardTerminal.ejectICC, SlotAccess.ejectICC, if_neg (not_not_intro hi)]
    refine ⟨.errInvalid, .run_bind .run_get ?_⟩
    rw [if_pos (slotNumber_missing hi hm)]
    exact .run_pure _

theorem rejects_of_requestsSlot (hq : RequestsSlot ct cmd) (hm : NamesMissing ct cmd) : Rejects ct cmd := by
  have ⟨hcla, hins, hlt⟩ := hm
  rcases hins with hins | hins | hins
  case inl =>
    rw [Rejects, command_resetCT hcla hins]
    refine silent_resetCT (fun hk => ?_) fun hi => slotNumber_missing hi hlt
    rw [hk] at hlt
    contradiction
  case inr.inl =>
    rw [Rejects, command_requestICC hcla hins]
    exact ⟨_, silent_requestICC fun hi => slotNumber_missing hi hlt (hq hcla hins hi)⟩
  case inr.inr =>
    rw [Rejects, command_ejectICC hcla hins]
    exact silent_ejectICC_missing hlt

-- In every session whose commands are fine, all the slots that are handed out are ready.
theorem reachable_handsReady (h : Reachable Fine ct) (hq : RequestsSlot ct cmd) : HandsReady ct cmd where
  hands _ _ _ := hands_of_ready (reachable_ready h) hq
  rejects     := rejects_of_requestsSlot hq

-- A terminal with one slot, before and after a reset that runs out of memory.
def oneSlot : CardTerminal := ⟨[⟨some ⟨0, 0, 0⟩, none⟩]⟩
def halfClosed : CardTerminal := ⟨[⟨none, none⟩]⟩

def resetKernel : ApduCmd := ⟨[0x20, 0x11, 0x00, 0x00], by decide, by decide⟩
def requestFirst : ApduCmd := ⟨[0x20, 0x12, 0x01, 0x00], by decide, by decide⟩
def requestSecond : ApduCmd := ⟨[0x20, 0x12, 0x02, 0x00], by decide, by decide⟩
def statusICC : ApduCmd := ⟨[0x20, 0x13, 0x00, 0x80], by decide, by decide⟩

def outOfMemory : Handler Call Port
  | _, .malloc, port => (false, port)
  | _, call, port    => Port.handler call port

variable {Fine : CardTerminal → ApduCmd → Trace Call → Prop}

theorem reachable_oneSlot : Reachable Fine oneSlot := by
  have hy : Yields Port.handler (init 0) ⟨[], []⟩ (.ok oneSlot) ⟨[], []⟩ := eval_yields (n := 9) rfl
  have ⟨_, hr, _⟩ := hy
  exact .init hr

theorem reachable_halfClosed : Reachable (fun _ _ _ => True) halfClosed := by
  have hy : Yields outOfMemory ((command resetKernel).run oneSlot) ⟨[], []⟩
      ((.errMemory, some Ctbcs.resetError), halfClosed) ⟨[], []⟩ := eval_yields (n := 9) rfl
  have ⟨_, hr, _⟩ := hy
  exact .command reachable_oneSlot trivial hr

-- A card is requested after a reset.
theorem handsReady_requestFirst : ∃ t r, Run ((command resetKernel).run oneSlot) t (r, oneSlot) ∧
    HandsReady oneSlot requestFirst := by
  have he : (eval (Port.handler.watch (Ensures.all isReset)) 9 ((command resetKernel).run oneSlot) (⟨[], []⟩, true)).any
      fun r => r.fst.snd = oneSlot && r.snd.snd := by decide +kernel
  obtain ⟨⟨⟨r, ct⟩, port, ok⟩, he, hp⟩ := Option.any_eq_true .. |>.mp he
  obtain ⟨hct, hok⟩ := Bool.and_eq_true .. ▸ hp
  obtain rfl : ct = oneSlot := of_decide_eq_true hct
  obtain ⟨t, hr, hf⟩ := eval_yields he
  have hall : t.all isReset := by
    have hm := follows_watch hf
    rw [Ensures.foldl_all, Bool.true_and] at hm
    rw [← hm]
    exact hok
  have hreset : RequestsSlot oneSlot resetKernel := fun _ hins _ => absurd hins (by decide)
  have hrequest : RequestsSlot oneSlot requestFirst := fun _ _ _ => by decide
  exact ⟨t, r, hr, reachable_handsReady (.command reachable_oneSlot ⟨hreset, fun _ _ _ => hall⟩ hr) hrequest⟩

theorem not_handsReady : Reachable (fun _ _ _ => True) oneSlot ∧ ¬HandsReady oneSlot requestSecond ∧
    Reachable (fun _ _ _ => True) halfClosed ∧ ¬HandsReady halfClosed statusICC := by
  refine ⟨reachable_oneSlot, fun h => ?_, reachable_halfClosed, fun h => ?_⟩
  case refine_1 =>
    have hy : Yields Port.handler ((watched.command requestSecond).run.run oneSlot) ⟨[], []⟩ (none, oneSlot) ⟨[], []⟩ :=
      eval_yields (n := 9) rfl
    have ⟨_, hr, _⟩ := hy
    exact h.hands _ _ _ hr rfl
  case refine_2 =>
    have hy : Yields Port.handler ((watched.command statusICC).run.run halfClosed) ⟨[], []⟩ (none, halfClosed) ⟨[], []⟩ :=
      eval_yields (n := 9) rfl
    have ⟨_, hr, _⟩ := hy
    exact h.hands _ _ _ hr rfl

end CardTerminal
end Towitoko
