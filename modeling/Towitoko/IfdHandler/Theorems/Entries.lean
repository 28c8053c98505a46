import Towitoko.Interaction.Returns
import Towitoko.Interaction.Silent
import Towitoko.Interaction.Spares
import Towitoko.CtApi.Theorems.Slots
import Towitoko.CtApi.Theorems.CtApi
import Towitoko.IfdHandler.Theorems.Channels

-- Which entry of the two tables a request is about: it neither looks at any other one nor changes it.
namespace Towitoko

open Interaction

namespace CtApi

variable {n m : Nat}

-- The card terminal under another number than that of the call.
abbrev SparesTerminal {α : Type} (n : Nat) (p : CtApiM α) : Prop :=
  Spares (CtList.getCardTerminal · n) (fun ct list => list.setCardTerminal n ct) p

theorem spares_allocateNode : SparesTerminal n allocateNode :=
  .get_bind (fun ct list => by rw [CtList.isEmpty_setCardTerminal]) fun _ =>
    .ite (.bind (.lift _) fun _ => .ite (.pure _) (.lift _)) (.lift _)

theorem spares_init (h : m ≠ n) (pn : Nat) : SparesTerminal n (init m pn) := by
  refine .get_bind (fun ct list => by rw [CtList.getCardTerminal_setCardTerminal_of_ne h.symm]) fun _ =>
    .ite (.pure _) <| .bind (.lift _) fun _ => .ite (.pure _) <| .bind (.lift _) fun ct => ?_
  cases ct
  case error => exact .pure _
  case ok ct =>
    refine .bind spares_allocateNode fun _ => .ite (.bind (.lift _) fun _ => .pure _) <| .bind ?_ fun _ => .pure _
    exact .modify (fun _ => CtList.getCardTerminal_addCardTerminal_of_ne h) fun _ _ =>
      CtList.addCardTerminal_setCardTerminal h.symm

theorem spares_close (h : m ≠ n) : SparesTerminal n (close m) := by
  refine .get_bind (fun ct list => by rw [CtList.getCardTerminal_setCardTerminal_of_ne h.symm]) fun list => ?_
  split
  case h_2 => exact .pure _
  case h_1 =>
    refine .bind (.lift _) fun _ => .bind ?_ fun _ => .pure _
    exact .modify (fun _ => CtList.getCardTerminal_removeCardTerminal_of_ne h) fun _ _ =>
      CtList.removeCardTerminal_setCardTerminal h.symm

theorem spares_data (h : m ≠ n) (dad sad : Byte) (cmd : List Byte) (lr : Nat) :
    SparesTerminal n (data m dad sad cmd lr) := by
  refine .get_bind (fun ct list => by rw [CtList.getCardTerminal_setCardTerminal_of_ne h.symm]) fun list => ?_
  split
  case h_2 => exact .pure _
  split
  case h_2 => exact .pure _
  refine .bind (.lift _) fun _ => .bind ?_ fun _ => .pure _
  exact .modify (fun _ => CtList.getCardTerminal_setCardTerminal_of_ne h) fun _ _ => CtList.setCardTerminal_comm h.symm

-- A card terminal is not opened without a call, as it needs memory.
theorem ne_nil_of_init {list list' : CtList CardTerminal} {pn : Nat} {t : Trace Call}
    (hr : Run ((init n pn).run list) t (.ok, list')) : t ≠ [] := by
  replace hr := Run.run_get_bind_iff.mp hr
  replace hr := Run.run_ite_iff.mp hr
  split at hr
  case isTrue => exact nomatch (Run.run_pure_iff.mp hr).right
  case isFalse =>
    obtain ⟨t₁, b, t₂, hm, -, rfl⟩ := Run.run_lift_bind_iff.mp hr
    rw [Run.call_iff.mp hm]
    exact nofun

end CtApi

namespace IfdHandler

-- What the two tables have under a number.
def entry (s : IfdHandler) (ctn : Fin ifdhMaxReaders) : Option IfdhContext × Option CardTerminal :=
  (s.contexts ctn, s.ct.getCardTerminal ctn)

-- Another context, and another card terminal if there is one.
def replace (s : IfdHandler) (ctn : Fin ifdhMaxReaders) (context : Option IfdhContext) (ct : CardTerminal) : IfdHandler :=
  { s.setContext ctn context with ct := s.ct.setCardTerminal ctn ct }

-- The request looks at an entry. What is asked for may not depend on the reader, and some requests go to the card
-- terminal without looking if there is a context.
def Request.LooksAt (s : IfdHandler) (ctn : Fin ifdhMaxReaders) : Request → Prop
  | .createChannel lun _          => getCtn lun = ctn
  | .closeChannel lun             => getCtn lun = ctn ∧ (s.ct.getCardTerminal ctn).isSome
  | .getCapabilities lun tag      => getCtn lun = ctn ∧ tag = tagIfdAtr
  | .setCapabilities              => False
  | .setProtocolParameters lun .. => getCtn lun = ctn
  | .powerICC lun _               => getCtn lun = ctn
  | .transmitToICC lun ..         => getCtn lun = ctn
  | .control lun ..               => getCtn lun = ctn
  | .iccPresence lun              => getCtn lun = ctn ∧ (s.ct.getCardTerminal ctn).isSome

-- The request neither changed the entry nor depended on what is there.
structure Served.Spared (r : Served) (ctn : Fin ifdhMaxReaders) : Prop where
  unchanged : r.after.entry ctn = r.before.entry ctn
  unread    : ∀ context ct,
    Run ((serve r.request).run (r.before.replace ctn context ct)) r.trace (r.ret, r.after.replace ctn context ct)

variable {ctn : Fin ifdhMaxReaders} {lun : Nat}

section

variable {n : Fin ifdhMaxReaders}

abbrev SparesEntry {α : Type} (ctn : Fin ifdhMaxReaders) (p : IfdHandlerM α) : Prop :=
  Spares (entry · ctn) (fun (w : Option IfdhContext × CardTerminal) s => s.replace ctn w.fst w.snd) p

theorem contexts_replace (h : n ≠ ctn) (s : IfdHandler) (context : Option IfdhContext) (ct : CardTerminal) :
    (s.replace ctn context ct).contexts n = s.contexts n :=
  if_neg h

theorem spares_onCt {α : Type} {p : CtApiM α} (h : CtApi.SparesTerminal ctn p) : SparesEntry ctn (onCt p) :=
  h.onPart Prod.snd (fun _ _ hu => by simp only [entry, hu]) (fun _ _ => rfl) fun _ _ _ => rfl

theorem spares_setContext (h : n ≠ ctn) (context : Option IfdhContext) :
    SparesEntry ctn (modify (·.setContext n context)) := by
  refine .modify (fun s => ?_) fun w s => ?_
  case refine_1 => simp [entry, setContext, h.symm]
  case refine_2 =>
    simp only [replace, setContext, IfdHandler.mk.injEq, and_true]
    funext m
    split <;> simp_all

theorem spares_getContext (h : n ≠ ctn) : SparesEntry ctn (getContext n) := by
  refine .get_bind (fun w s => by rw [contexts_replace h]) fun s => ?_
  split
  case h_1 => exact .pure _
  case h_2 => exact .lift _

theorem spares_storeAtr (h : n ≠ ctn) (bytes : List Byte) : SparesEntry ctn (storeAtr n bytes) := by
  refine .bind (spares_getContext h) fun _ => ?_
  split
  case isTrue  => exact spares_setContext h _
  case isFalse => exact .lift _

theorem spares_sendCommand (h : n ≠ ctn) (cmd : List Byte) : SparesEntry ctn (sendCommand n cmd) :=
  spares_onCt <| CtApi.spares_data (Fin.val_ne_of_ne h) _ _ _ _

-- The requests that begin with looking for a context.
theorem spares_withContext {α : Type} {p : IfdHandlerM α} {a : α} (h : n ≠ ctn) (hp : SparesEntry ctn p) :
    SparesEntry ctn (do if ((← get).contexts n).isNone then return a else p) :=
  .get_bind (fun w s => by rw [contexts_replace h]) fun _ => .ite (.pure _) hp

theorem spares_powerOn (h : n ≠ ctn) (cmd : List Byte) (error : ResponseCode) : SparesEntry ctn (powerOn n cmd error) :=
  .bind (spares_sendCommand h _) fun _ => .ite (.bind (spares_storeAtr h _) fun _ => .pure _) (.pure _)

theorem spares_powerDown (h : n ≠ ctn) (cmd : List Byte) : SparesEntry ctn (powerDown n cmd) :=
  .bind (spares_sendCommand h _) fun _ => .ite (.bind (spares_setContext h _) fun _ => .pure _) (.pure _)

end

section

variable (h : getCtn lun ≠ ctn)
include h

theorem spares_createChannel (channel : Nat) : SparesEntry ctn (createChannel lun channel) := by
  refine .get_bind (fun w s => by rw [contexts_replace h]) fun _ => .ite ?_ (.pure _)
  refine .bind (spares_onCt <| CtApi.spares_init (Fin.val_ne_of_ne h) _) fun _ => .ite (.pure _) <| .bind ?_ fun _ => .pure _
  exact .bind (.lift _) fun _ => spares_setContext h _

theorem spares_closeChannel : SparesEntry ctn (closeChannel lun) :=
  .bind (spares_onCt <| CtApi.spares_close (Fin.val_ne_of_ne h)) fun _ =>
    .ite (.pure _) <| .bind (spares_setContext h _) fun _ => .pure _

theorem spares_getCapabilities (tag : Nat) : SparesEntry ctn (getCapabilities lun tag) :=
  .ite (.bind (spares_getContext h) fun _ => .pure _) <| .ite (.pure _) <| .ite (.pure _) (.pure _)

theorem spares_setProtocolParameters (protocol : Nat) (flags pts1 pts2 pts3 : Byte) :
    SparesEntry ctn (setProtocolParameters lun protocol flags pts1 pts2 pts3) :=
  spares_withContext h <| .bind (spares_sendCommand h _) fun _ =>
    .ite (.bind (spares_storeAtr h _) fun _ => .pure _) (.pure _)

theorem spares_powerICC (action : PowerAction) : SparesEntry ctn (powerICC lun action) := by
  refine spares_withContext h ?_
  cases action
  case powerUp   => exact spares_powerOn h _ _
  case powerDown => exact spares_powerDown h _
  case reset     => exact spares_powerOn h _ _
  case other     => exact .pure _

theorem spares_transmit (dad : Byte) (tx : List Byte) (rxLength : Nat) :
    SparesEntry ctn (transmit lun dad tx rxLength) :=
  spares_withContext h <| .bind (spares_onCt <| CtApi.spares_data (Fin.val_ne_of_ne h) _ _ _ _) fun _ => .ite (.pure _) (.pure _)

theorem spares_iccPresence : SparesEntry ctn (iccPresence lun) :=
  .bind (spares_sendCommand h _) fun _ => .ite (.pure _) <| .ite (.ite (.pure _) (.pure _)) (.pure _)

end

-- The two requests that do not look for a context do nothing without a card terminal.
section

variable {s : IfdHandler}

theorem silent_closeChannel (h : s.ct.getCardTerminal (getCtn lun) = none) :
    Silent ((closeChannel lun).run s) (.communicationError, s) := by
  have hc : Silent ((CtApi.close (getCtn lun)).run s.ct) (.errCt, s.ct) := by
    refine .run_bind .run_get ?_
    rw [h]
    exact .run_pure _
  exact .run_bind (.run_onPart hc) (.run_pure _)

theorem silent_iccPresence (h : s.ct.getCardTerminal (getCtn lun) = none) :
    Silent ((iccPresence lun).run s) (.communicationError, s) := by
  have hd (cmd : List Byte) : Silent ((CtApi.data (getCtn lun) 0x01 0x02 cmd 256).run s.ct)
      ({ ret := .errCt, lr := 256, rsp := [], dad := 0x01, sad := 0x02 }, s.ct) := by
    refine .run_bind .run_get ?_
    rw [h]
    exact .run_pure _
  exact .run_bind (.run_onPart (hd _)) (.run_pure _)

end

section

variable {s s' : IfdHandler} {request : Request} {t : Trace Call} {ret : ResponseCode}

theorem isSome_replace (s : IfdHandler) (context : Option IfdhContext) (ct : CardTerminal) (n : Nat) :
    ((s.replace ctn context ct).ct.getCardTerminal n).isSome = (s.ct.getCardTerminal n).isSome := by
  rw [Bool.eq_iff_iff, CtList.isSome_getCardTerminal, CtList.isSome_getCardTerminal, replace, CtList.keys_setCardTerminal]

theorem spared_of_spares (hp : SparesEntry ctn (serve request)) (hr : Run ((serve request).run s) t (ret, s')) :
    Served.Spared ⟨s, request, t, ret, s'⟩ ctn where
  unchanged         := hp.unchanged hr
  unread context ct := hp.unread hr (context, ct)

theorem spared_of_silent {ret' : ResponseCode}
    (hp : ∀ s : IfdHandler, s.ct.getCardTerminal ctn = none → Silent ((serve request).run s) (ret', s))
    (hs : ¬(s.ct.getCardTerminal ctn).isSome) (hr : Run ((serve request).run s) t (ret, s')) :
    Served.Spared ⟨s, request, t, ret, s'⟩ ctn := by
  have hn {s : IfdHandler} (h : ¬(s.ct.getCardTerminal ctn).isSome) := hp s (Option.not_isSome_iff_eq_none.mp h)
  obtain ⟨rfl, h⟩ := (hn hs _ _).mp hr
  cases h
  exact ⟨rfl, fun context ct => (hn (by rwa [isSome_replace]) _ _).mpr ⟨rfl, rfl⟩⟩

theorem spared_of_not_looksAt (hr : Run ((serve request).run s) t (ret, s')) (h : ¬request.LooksAt s ctn) :
    Served.Spared ⟨s, request, t, ret, s'⟩ ctn := by
  cases request
  case createChannel         => exact spared_of_spares (spares_createChannel h _) hr
  case setCapabilities       => exact spared_of_spares (.pure _) hr
  case setProtocolParameters => exact spared_of_spares (spares_setProtocolParameters h _ _ _ _ _) hr
  case powerICC              => exact spared_of_spares (.bind (spares_powerICC h _) fun _ => .pure _) hr
  case transmitToICC         => exact spared_of_spares (.bind (spares_transmit h _ _ _) fun _ => .pure _) hr
  case control               => exact spared_of_spares (.bind (spares_transmit h _ _ _) fun _ => .pure _) hr
  case getCapabilities lun tag =>
    by_cases hc : getCtn lun = ctn
    case neg => exact spared_of_spares (.bind (spares_getCapabilities hc _) fun _ => .pure _) hr
    case pos =>
      have ht : tag ≠ tagIfdAtr := fun ht => h ⟨hc, ht⟩
      refine spared_of_spares (.bind ?_ fun _ => .pure _) hr
      rw [getCapabilities, if_neg ht]
      exact .ite (.pure _) <| .ite (.pure _) (.pure _)
  case closeChannel lun =>
    by_cases hc : getCtn lun = ctn
    case neg => exact spared_of_spares (spares_closeChannel hc) hr
    case pos => exact spared_of_silent (fun _ hs => silent_closeChannel (hc ▸ hs)) (fun hs => h ⟨hc, hs⟩) hr
  case iccPresence lun =>
    by_cases hc : getCtn lun = ctn
    case neg => exact spared_of_spares (spares_iccPresence hc) hr
    case pos => exact spared_of_silent (fun _ hs => silent_iccPresence (hc ▸ hs)) (fun hs => h ⟨hc, hs⟩) hr

end

-- The others do look at the entry: with another context or card terminal in it, they would do something else.
section

variable {s s' : IfdHandler} {t : Trace Call} {ret : ResponseCode} {channel : Nat}

@[simp]
theorem contexts_replace_self (s : IfdHandler) (context : Option IfdhContext) (ct : CardTerminal) :
    (s.replace ctn context ct).contexts ctn = context :=
  if_pos rfl

theorem getCardTerminal_replace_self (h : (s.ct.getCardTerminal ctn).isSome) (context : Option IfdhContext)
    (ct : CardTerminal) : (s.replace ctn context ct).ct.getCardTerminal ctn = some ct :=
  CtList.getCardTerminal_setCardTerminal h

-- What a request returns tells if there is a context.
abbrev Tells (p : IfdHandlerM ResponseCode) (ctn : Fin ifdhMaxReaders) : Prop :=
  ∀ {s t ret s'}, Run (p.run s) t (ret, s') → ((s.contexts ctn).isSome ↔ ret ≠ .iccNotPresent)

theorem isSome_iff_of_withContext {α : Type} {p q : IfdHandlerM α} {a b : α} (f : α → ResponseCode)
    (hq : q = do if ((← get).contexts ctn).isNone then return a else p) (ha : f a = .iccNotPresent)
    (hp : Returns (fun _ => True) p (f · ≠ .iccNotPresent)) (hr : Run (q.run s) t (b, s')) :
    (s.contexts ctn).isSome ↔ f b ≠ .iccNotPresent := by
  rw [hq] at hr
  replace hr := Run.run_get_bind_iff.mp hr
  replace hr := Run.run_ite_iff.mp hr
  split at hr
  case isTrue h =>
    obtain ⟨-, h'⟩ := Run.run_pure_iff.mp hr
    cases h'
    exact iff_of_false (by simpa using h) (by simpa using ha)
  case isFalse h =>
    refine iff_of_true ?_ (hp s trivial t _ hr).left
    simpa [Option.isSome_iff_ne_none] using h

theorem tells_fst {p q : IfdHandlerM (ResponseCode × List Byte)}
    (hq : q = do if ((← get).contexts ctn).isNone then return (.iccNotPresent, []) else p)
    (hp : Returns (fun _ => True) p (·.fst ≠ .iccNotPresent)) : Tells (return (← q).fst) ctn := by
  intro s t ret s' hr
  obtain ⟨b, hb, rfl⟩ := (Run.run_bind_pure_iff (g := Prod.fst) fun _ => rfl).mp hr
  exact isSome_iff_of_withContext Prod.fst hq rfl hp hb

theorem not_spared_of_tells {request : Request} (h : Tells (serve request) ctn) :
    ¬Served.Spared ⟨s, request, t, ret, s'⟩ ctn := by
  intro hs
  have hn := h (hs.unread none ⟨[]⟩)
  have hc := h (hs.unread (some .cleared) ⟨[]⟩)
  rw [contexts_replace_self] at hn hc
  simp only [Option.isSome_none, Bool.false_eq_true, Option.isSome_some] at hn hc
  exact hn.mpr (hc.mp trivial)

theorem tells_transmit (lun : Nat) (dad : Byte) (tx : List Byte) (rxLength : Nat) :
    Tells (return (← transmit lun dad tx rxLength).fst) (getCtn lun) :=
  tells_fst rfl <| .skip fun _ => .ite (fun _ => .pure (by simp)) fun _ => .pure (by simp)

theorem returns_powerOn {n : Fin ifdhMaxReaders} {cmd : List Byte} {error : ResponseCode} (h : error ≠ .iccNotPresent) :
    Returns (fun _ => True) (powerOn n cmd error) (·.fst ≠ .iccNotPresent) :=
  .skip fun _ => .ite (fun _ => .skip fun _ => .pure (by simp)) fun _ => .pure h

theorem tells_powerICC (lun : Nat) (action : PowerAction) :
    Tells (return (← powerICC lun action).fst) (getCtn lun) := by
  refine tells_fst rfl ?_
  cases action
  case powerUp   => exact returns_powerOn nofun
  case powerDown => exact .skip fun _ => .ite (fun _ => .skip fun _ => .pure (by simp)) fun _ => .pure (by simp)
  case reset     => exact returns_powerOn nofun
  case other     => exact .pure (by simp)

theorem tells_setProtocolParameters (lun protocol : Nat) (flags pts1 pts2 pts3 : Byte) :
    Tells (setProtocolParameters lun protocol flags pts1 pts2 pts3) (getCtn lun) :=
  isSome_iff_of_withContext id rfl rfl <|
    .skip fun _ => .ite (fun _ => .skip fun _ => .pure (by simp)) fun _ => .pure (by simp)

theorem not_spared_getCapabilities : ¬Served.Spared ⟨s, .getCapabilities lun tagIfdAtr, t, ret, s'⟩ (getCtn lun) := by
  intro hs
  have h : Ensures (fun _ _ => ()) ((getCapabilities lun tagIfdAtr).run (s.replace (getCtn lun) none ⟨[]⟩)) ()
      fun _ _ => False := by
    rw [getCapabilities, if_pos rfl, getContext]
    refine Ensures.run_bind_iff.mpr <| Ensures.run_get_bind_iff.mpr ?_
    rw [contexts_replace_self]
    exact ensures_crash
  have ⟨_, hr, _⟩ := (Run.run_bind_pure_iff (g := Prod.fst) fun _ => rfl).mp (hs.unread none ⟨[]⟩)
  exact h _ _ hr

-- With a context, a channel counts as created.
theorem run_createChannel_open (h : (s.contexts (getCtn lun)).isSome)
    (hr : Run ((createChannel lun channel).run s) t (ret, s')) : t = [] ∧ ret = .success ∧ s' = s := by
  replace hr := Run.run_get_bind_iff.mp hr
  replace hr := Run.run_ite_iff.mp hr
  rw [if_neg (by simpa [Option.isSome_iff_ne_none] using h)] at hr
  have ⟨ht, hr⟩ := Run.run_pure_iff.mp hr
  cases hr
  exact ⟨ht, rfl, rfl⟩

-- Without one, a channel that was created has a new card terminal, for which memory was allocated.
theorem run_createChannel_new (h : s.contexts (getCtn lun) = none)
    (hr : Run ((createChannel lun channel).run s) t (.success, s')) :
    t ≠ [] ∧ s.ct.getCardTerminal (getCtn lun) = none ∧ (s'.ct.getCardTerminal (getCtn lun)).isSome := by
  replace hr := Run.run_get_bind_iff.mp hr
  replace hr := Run.run_ite_iff.mp hr
  rw [if_pos (by rw [h]; rfl)] at hr
  obtain ⟨t₁, ret, s₁, t₂, hi, hr, rfl⟩ := Run.run_bind_iff.mp hr
  obtain ⟨list, hl, rfl⟩ := Run.run_onPart_iff.mp hi
  replace hr := Run.run_ite_iff.mp hr
  split at hr
  case isTrue => exact nomatch (Run.run_pure_iff.mp hr).right
  case isFalse hok =>
    have hok : ret = .ok := by simpa using hok
    obtain ⟨_, _, _, _, hc, hr, rfl⟩ := Run.run_bind_iff.mp hr
    obtain ⟨_, _, _, -, ⟨-, hs⟩, rfl⟩ := Run.run_lift_bind_iff.mp hc
    cases hs
    cases (Run.run_pure_iff.mp hr).right
    have ⟨hn, hk⟩ := (CtApi.ensures_init (δ := fun _ _ => ()) (m := ()) _ _ _ _ hl).left hok
    refine ⟨fun ht => ?_, ?_, ?_⟩
    case refine_1 => exact CtApi.ne_nil_of_init (hok ▸ hl) (List.append_eq_nil_iff.mp ht).left
    case refine_2 => exact CtList.getCardTerminal_eq_none_iff.mpr hn
    case refine_3 => simp [CtList.isSome_getCardTerminal, setContext, hk]

theorem not_spared_createChannel : ¬Served.Spared ⟨s, .createChannel lun channel, t, ret, s'⟩ (getCtn lun) := by
  intro hs
  have ⟨ht, hr, _⟩ := run_createChannel_open (by rw [contexts_replace_self]; rfl) (hs.unread (some .cleared) ⟨[]⟩)
  have hn := hs.unread none ⟨[]⟩
  rw [show Served.ret _ = _ from hr] at hn
  exact (run_createChannel_new (contexts_replace_self _ _ _) hn).left ht

section

variable {M : Type} {δ : M → Event Call → M} {m : M} {ct : CardTerminal}

-- How many calls there are.
abbrev count (n : Nat) (_ : Event Call) : Nat := n + 1

theorem ensures_count_closeChannel {n : Nat} (h : s.ct.getCardTerminal (getCtn lun) = some ct)
    (hc : Ensures count ct.close 0 fun k _ => k = n) : Ensures count ((closeChannel lun).run s) 0 fun k _ => k = n := by
  simp only [closeChannel, CtApi.close, onCt, Ensures.run_bind_iff, Ensures.run_onPart_iff, Ensures.run_get_iff, h,
    Ensures.run_lift_iff, Ensures.run_modify_iff, Ensures.run_pure_iff, Ensures.run_ite_iff, ite_self]
  exact hc

-- A card terminal without slots, and one with a slot.
theorem ensures_count_close : Ensures count (CardTerminal.close ⟨[]⟩) 0 fun k _ => k = 1 := by
  simp only [CardTerminal.close, CardTerminal.closeSlots, serialClose, Ensures.bind_iff, Ensures.pure_iff,
    Ensures.call_iff, Ensures.ite_iff, count, Nat.zero_add, ite_self, implies_true]

theorem ensures_count_close_slot (ifd : Ifd) :
    Ensures count (CardTerminal.close ⟨[⟨some ifd, none⟩]⟩) 0 fun k _ => k = 2 := by
  simp only [CardTerminal.close, CardTerminal.closeSlots, CtSlot.close, CtSlot.release, Ifd.close, serialClose,
    Ensures.bind_iff, Ensures.pure_iff, Ensures.call_iff, Ensures.ite_iff, Ensures.run_bind_iff, Ensures.run_get_iff,
    Ensures.run_pure_iff, Ensures.run_lift_iff, Ensures.run_modify_iff, count, Nat.zero_add, Nat.reduceAdd, ite_self,
    implies_true]

theorem not_spared_closeChannel (h : (s.ct.getCardTerminal (getCtn lun)).isSome) :
    ¬Served.Spared ⟨s, .closeChannel lun, t, ret, s'⟩ (getCtn lun) := by
  intro hs
  have count_of {ct : CardTerminal} {n : Nat} (hc : Ensures count ct.close 0 fun k _ => k = n) :=
    ensures_count_closeChannel (getCardTerminal_replace_self h none ct) hc _ _ (hs.unread none ct)
  have h₁ := count_of ensures_count_close
  have h₂ := count_of (ensures_count_close_slot ⟨0, 0, 0⟩)
  exact absurd (h₁.symm.trans h₂) (by decide)

end

-- The status of a slot without an interface device cannot be read.
theorem ensures_iccStatus_false :
    Ensures (fun _ _ => ()) (CardTerminal.iccStatus.run ⟨[⟨none, none⟩]⟩) () fun _ _ => False := by
  rw [CardTerminal.iccStatus, SlotAccess.iccStatus, CardTerminal.plain_iterate]
  refine Ensures.run_iterateM (fun data ct _ => data = [] ∧ ct = ⟨[⟨none, none⟩]⟩) ⟨rfl, rfl⟩ ?_
  rintro _ _ _ ⟨rfl, rfl⟩
  refine Ensures.run_get_bind_iff.mpr ?_
  rw [if_pos (by simp)]
  refine Ensures.run_bind_iff.mpr <| CardTerminal.ensures_onSlot_iff.mpr fun slot hs => ?_
  cases hs
  exact Ensures.run_bind_iff.mpr <| CtSlot.ensures_getIfd_iff.mpr nofun

theorem not_spared_iccPresence (h : (s.ct.getCardTerminal (getCtn lun)).isSome) :
    ¬Served.Spared ⟨s, .iccPresence lun, t, ret, s'⟩ (getCtn lun) := by
  intro hs
  have hl := getCardTerminal_replace_self h none ⟨[⟨none, none⟩]⟩
  have ⟨_, _, _, _, hr, _, _⟩ := Run.run_bind_iff.mp (hs.unread none ⟨[⟨none, none⟩]⟩)
  have ⟨_, hr, _⟩ := Run.run_onPart_iff.mp hr
  have ⟨_, hr, _⟩ := (CtApi.run_data_iff hl rfl).mp hr
  have ⟨_, _, _, _, hr, _, _⟩ := Run.run_bind_iff.mp hr
  exact ensures_iccStatus_false _ _ hr

theorem not_spared_of_looksAt {request : Request} (h : request.LooksAt s ctn) :
    ¬Served.Spared ⟨s, request, t, ret, s'⟩ ctn := by
  cases request
  case setCapabilities => exact h.elim
  case createChannel =>
    cases h
    exact not_spared_createChannel
  case closeChannel =>
    obtain ⟨rfl, h⟩ := h
    exact not_spared_closeChannel h
  case getCapabilities =>
    obtain ⟨rfl, rfl⟩ := h
    exact not_spared_getCapabilities
  case setProtocolParameters =>
    cases h
    exact not_spared_of_tells <| tells_setProtocolParameters _ _ _ _ _ _
  case powerICC =>
    cases h
    exact not_spared_of_tells <| tells_powerICC _ _
  case transmitToICC =>
    cases h
    exact not_spared_of_tells <| tells_transmit _ _ _ _
  case control =>
    cases h
    exact not_spared_of_tells <| tells_transmit _ _ _ _
  case iccPresence =>
    obtain ⟨rfl, h⟩ := h
    exact not_spared_iccPresence h

-- What one request has to do with an entry.
theorem spared_iff {request : Request} (hr : Run ((serve request).run s) t (ret, s')) :
    Served.Spared ⟨s, request, t, ret, s'⟩ ctn ↔ ¬request.LooksAt s ctn where
  mp hs h := not_spared_of_looksAt h hs
  mpr     := spared_of_not_looksAt hr

end

end IfdHandler
end Towitoko
