import Towitoko.IfdHandler.IfdHandler
import Towitoko.Driver.Port
import Towitoko.CtApi.Theorems.Init
import Towitoko.CtApi.Theorems.Close

namespace Towitoko.IfdHandler

open Interaction
open Ensures (all)

-- The two tables of what is open agree, and no number is in the list of the CT-API twice.
structure Agree (ifdh : IfdHandler) : Prop where
  iff   : ∀ ctn, (ifdh.contexts ctn).isSome ↔ (ifdh.ct.getCardTerminal ctn).isSome
  nodup : ifdh.ct.keys.Nodup

-- What has the same readers open.
structure SameOpen (s s' : IfdHandler) : Prop where
  contexts : ∀ ctn, (s'.contexts ctn).isSome = (s.contexts ctn).isSome
  keys     : s'.ct.keys = s.ct.keys

-- The event is no failure to allocate a context.
def isAllocated : Event Call → Bool
  | ⟨.mallocContext, ok⟩ => ok
  | _                    => true

-- One request of a session, with the states before and after it.
structure Served where
  before  : IfdHandler
  request : Request
  trace   : Trace Call
  ret     : ResponseCode
  after   : IfdHandler

namespace Served

-- Nothing failed that the handler and the CT-API would treat differently.
def Clean (s : Served) : Prop :=
  match s.request with
  | .createChannel .. => s.trace.all isAllocated
  | .closeChannel _   => s.trace.all isClosing
  | _                 => True

-- The tables agree after the request. So a created channel is open, and a channel that could not be closed
-- can be opened again.
structure Sound (s : Served) : Prop where
  agree  : s.after.Agree
  opened : ∀ lun channel, s.request = .createChannel lun channel → s.ret = .success →
    (s.after.ct.getCardTerminal (getCtn lun)).isSome
  closed : ∀ lun, s.request = .closeChannel lun → s.ret ≠ .success → s.after.contexts (getCtn lun) = none

end Served

-- The sessions of any number of requests, each with whatever the reader and the allocator do.
inductive Session : IfdHandler → List Served → Prop
  | nil {s} : Session s []
  | cons {s request t ret s' l} :
    Run ((serve request).run s) t (ret, s') → Session s' l → Session s (⟨s, request, t, ret, s'⟩ :: l)

variable {s s' s₀ : IfdHandler} {ctn : Fin ifdhMaxReaders}

namespace SameOpen

theorem refl : SameOpen s s :=
  ⟨fun _ => rfl, rfl⟩

theorem agree (h : SameOpen s s') (ha : s.Agree) : s'.Agree where
  iff ctn := by rw [h.contexts, CtList.isSome_getCardTerminal, h.keys, ← CtList.isSome_getCardTerminal, ha.iff]
  nodup   := h.keys ▸ ha.nodup

end SameOpen

theorem agree_start : start.Agree where
  iff   := by simp [start, CtList.getCardTerminal]
  nodup := List.nodup_nil

-- No matter what happens, the requests that neither create nor close a channel leave the same readers open.
section

abbrev KeepsOpen {α : Type} (s₀ : IfdHandler) (p : IfdHandlerM α) : Prop :=
  Preserves (fun _ _ => ()) (fun s _ => SameOpen s₀ s) p

theorem keepsOpen_data (ctn' : Nat) (dad sad : Byte) (cmd : List Byte) (lr : Nat) :
    KeepsOpen s₀ (onCt <| CtApi.data ctn' dad sad cmd lr) := by
  intro s _ hs
  refine Ensures.run_onPart_iff.mpr ?_
  simp only [CtApi.data, Ensures.run_bind_iff, Ensures.run_get_iff]
  split
  case h_2 => exact Ensures.run_pure_iff.mpr hs
  split
  case h_2 => exact Ensures.run_pure_iff.mpr hs
  simp only [Ensures.run_bind_iff, Ensures.run_lift_iff, Ensures.run_modify_iff, Ensures.run_pure_iff]
  intro _ r _
  exact ⟨hs.contexts, by rw [CtList.keys_setCardTerminal, hs.keys]⟩

theorem keepsOpen_setContext (h : (s₀.contexts ctn).isSome) (context : IfdhContext) :
    KeepsOpen s₀ (modify (·.setContext ctn (some context))) := by
  intro s _ hs
  refine Ensures.run_modify_iff.mpr ⟨fun n => ?_, hs.keys⟩
  simp only [setContext]
  split
  case isTrue hn  => simp [hn, h]
  case isFalse    => exact hs.contexts n

theorem keepsOpen_getContext : KeepsOpen s₀ (getContext ctn) := by
  refine .bind .get fun s => ?_
  split
  case h_1 => exact .pure _
  case h_2 => exact .lift fun _ _ _ => Ensures.fault

theorem keepsOpen_getCapabilities (lun tag : Nat) : KeepsOpen s₀ (getCapabilities lun tag) :=
  .ite (.bind keepsOpen_getContext fun _ => .pure _) <| .ite (.pure _) <| .ite (.pure _) (.pure _)

theorem keepsOpen_storeAtr (h : (s₀.contexts ctn).isSome) (bytes : List Byte) : KeepsOpen s₀ (storeAtr ctn bytes) := by
  refine .bind keepsOpen_getContext fun _ => ?_
  split
  case isTrue  => exact keepsOpen_setContext h _
  case isFalse => exact .lift fun _ _ _ => Ensures.fault

-- The requests that need a context begin with looking for it.
theorem keepsOpen_withContext {α : Type} {p : IfdHandlerM α} {a : α}
    (hp : (s₀.contexts ctn).isSome → KeepsOpen s₀ p) :
    KeepsOpen s₀ (do if ((← get).contexts ctn).isNone then return a else p) := by
  intro s _ hs
  refine Ensures.run_get_bind_iff.mpr <| Ensures.run_ite_iff.mpr ?_
  split
  case isTrue  => exact Ensures.run_pure_iff.mpr hs
  case isFalse h =>
    refine hp ?_ s _ hs
    rw [← hs.contexts]
    simpa [Option.isSome_iff_ne_none] using h

theorem keepsOpen_setProtocolParameters (lun protocol : Nat) (flags pts1 pts2 pts3 : Byte) :
    KeepsOpen s₀ (setProtocolParameters lun protocol flags pts1 pts2 pts3) :=
  keepsOpen_withContext fun h => .bind (keepsOpen_data _ _ _ _ _) fun _ =>
    .ite (.bind (keepsOpen_storeAtr h _) fun _ => .pure _) (.pure _)

theorem keepsOpen_powerOn (h : (s₀.contexts ctn).isSome) (cmd : List Byte) (error : ResponseCode) :
    KeepsOpen s₀ (powerOn ctn cmd error) :=
  .bind (keepsOpen_data _ _ _ _ _) fun _ => .ite (.bind (keepsOpen_storeAtr h _) fun _ => .pure _) (.pure _)

theorem keepsOpen_powerDown (h : (s₀.contexts ctn).isSome) (cmd : List Byte) : KeepsOpen s₀ (powerDown ctn cmd) :=
  .bind (keepsOpen_data _ _ _ _ _) fun _ => .ite (.bind (keepsOpen_setContext h _) fun _ => .pure _) (.pure _)

theorem keepsOpen_powerICC (lun : Nat) (action : PowerAction) : KeepsOpen s₀ (powerICC lun action) := by
  refine keepsOpen_withContext fun h => ?_
  cases action
  case powerUp   => exact keepsOpen_powerOn h _ _
  case powerDown => exact keepsOpen_powerDown h _
  case reset     => exact keepsOpen_powerOn h _ _
  case other     => exact .pure _

theorem keepsOpen_transmit (lun : Nat) (dad : Byte) (tx : List Byte) (rxLength : Nat) :
    KeepsOpen s₀ (transmit lun dad tx rxLength) :=
  keepsOpen_withContext fun _ => .bind (keepsOpen_data _ _ _ _ _) fun _ => .ite (.pure _) (.pure _)

theorem keepsOpen_iccPresence (lun : Nat) : KeepsOpen s₀ (iccPresence lun) :=
  .bind (keepsOpen_data _ _ _ _ _) fun _ => .ite (.pure _) <| .ite (.ite (.pure _) (.pure _)) (.pure _)

end

section

variable {lun channel : Nat}

theorem Agree.isNone_iff (ha : s.Agree) : s.contexts ctn = none ↔ (ctn : Nat) ∉ s.ct.keys := by
  rw [← CtList.getCardTerminal_eq_none_iff, ← Option.not_isSome_iff_eq_none, ha.iff, Option.not_isSome_iff_eq_none]

-- When the tables agree after one reader was opened or closed in one of them or in both.
theorem Agree.setContext_iff {list : CtList CardTerminal} {context : Option IfdhContext} (ha : s.Agree)
    (hn : list.keys.Nodup) (hl : ∀ n ≠ (ctn : Nat), n ∈ list.keys ↔ n ∈ s.ct.keys) :
    ({ s with ct := list }.setContext ctn context).Agree ↔ (context.isSome ↔ (ctn : Nat) ∈ list.keys) := by
  constructor
  · intro h
    have := h.iff ctn
    simpa [CtList.isSome_getCardTerminal, setContext] using this
  · intro h
    refine ⟨fun n => ?_, hn⟩
    rw [CtList.isSome_getCardTerminal]
    simp only [setContext]
    split
    case isTrue hc =>
      rw [hc]
      exact h
    case isFalse hc => rw [hl n (mt Fin.ext hc), ha.iff, CtList.isSome_getCardTerminal]

theorem ensures_createChannel (ha : s.Agree) :
    Ensures (all isAllocated) ((createChannel lun channel).run s) true fun b r =>
      (r.fst = .success → (r.snd.ct.getCardTerminal (getCtn lun)).isSome) ∧ (r.snd.Agree ↔ b = true) := by
  refine Ensures.run_get_bind_iff.mpr <| Ensures.run_ite_iff.mpr ?_
  split
  case isFalse h =>
    refine Ensures.run_pure_iff.mpr ⟨fun _ => (ha.iff _).mp ?_, iff_of_true ha rfl⟩
    simpa [Option.isSome_iff_ne_none] using h
  case isTrue h =>
    have hb : Ensures (all isAllocated) ((CtApi.init (getCtn lun) (getPort channel)).run s.ct) true (fun b _ => b = true) :=
      (CtApi.uses_init _ _ _).ensures fun ev he => by
        have ⟨c, r⟩ := ev
        cases c <;> first | rfl | exact he.elim
    refine Ensures.run_bind_iff.mpr <| Ensures.run_onPart_iff.mpr <| (hb.and (CtApi.ensures_init _ _)).mono ?_
    rintro _ ⟨ret, list⟩ ⟨rfl, hok, hne⟩
    refine Ensures.run_ite_iff.mpr ?_
    split
    case isTrue hr =>
      cases hne hr
      exact Ensures.run_pure_iff.mpr ⟨nofun, iff_of_true ha rfl⟩
    case isFalse hr =>
      have ⟨hn, hl⟩ := hok (by simpa using hr)
      refine Ensures.run_bind_iff.mpr <| Ensures.run_lift_bind_iff.mpr <|
        Ensures.call_iff.mpr fun ok => Ensures.run_modify_iff.mpr <| Ensures.run_pure_iff.mpr ⟨fun _ => ?_, ?_⟩
      case refine_1 => simp [CtList.isSome_getCardTerminal, setContext, hl]
      case refine_2 =>
        have hd : list.keys.Nodup := by
          rw [hl, List.nodup_append]
          refine ⟨ha.nodup, by simp, fun n hm n' hm' h => ?_⟩
          cases List.mem_singleton.mp hm'
          exact hn (h ▸ hm)
        rw [ha.setContext_iff hd fun n hc => by simp [hl, hc], hl]
        cases ok <;> simp [isAllocated]

theorem ensures_closeChannel (ha : s.Agree) :
    Ensures (all isClosing) ((closeChannel lun).run s) true fun b r =>
      (b = true → r.fst ≠ .success → r.snd.contexts (getCtn lun) = none) ∧ (r.snd.Agree ↔ b = true) := by
  refine Ensures.run_bind_iff.mpr <| Ensures.run_onPart_iff.mpr ?_
  by_cases h : (s.ct.getCardTerminal (getCtn lun)).isSome
  case neg =>
    have hc : s.contexts (getCtn lun) = none := by
      rwa [ha.isNone_iff, ← CtList.isSome_getCardTerminal]
    have hn : s.ct.getCardTerminal (getCtn lun) = none := Option.not_isSome_iff_eq_none.mp h
    simp only [CtApi.close, Ensures.run_bind_iff, Ensures.run_get_iff, hn, Ensures.run_pure_iff]
    exact Ensures.run_pure_iff.mpr ⟨fun _ _ => hc, iff_of_true ha rfl⟩
  case pos =>
    have hk : (getCtn lun : Nat) ∉ (s.ct.removeCardTerminal (getCtn lun)).keys := by
      rw [CtList.keys_removeCardTerminal, ha.nodup.mem_erase_iff]
      simp
    have hd : (s.ct.removeCardTerminal (getCtn lun)).keys.Nodup := by
      rw [CtList.keys_removeCardTerminal]
      exact ha.nodup.erase _
    have ho : (s.contexts (getCtn lun)).isSome := (ha.iff _).mpr h
    refine (CtApi.ensures_close h).mono ?_
    rintro _ ⟨ret, _⟩ ⟨rfl, rfl⟩
    refine Ensures.run_ite_iff.mpr ?_
    split
    case isTrue hr =>
      refine Ensures.run_pure_iff.mpr ⟨fun hb => absurd (of_decide_eq_true hb) hr, iff_of_false (fun hg => ?_) ?_⟩
      case refine_1 => exact hk <| CtList.isSome_getCardTerminal.mp <| (hg.iff _).mp ho
      case refine_2 => exact mt of_decide_eq_true hr
    case isFalse hr =>
      refine Ensures.run_modify_bind_iff.mpr <| Ensures.run_pure_iff.mpr ⟨fun _ h => absurd rfl h, ?_⟩
      rw [ha.setContext_iff hd fun n hc => by simp [ha.nodup.mem_erase_iff, hc]]
      simpa [-CtList.keys_removeCardTerminal, hk] using hr

end

section

variable {t : Trace Call} {ret : ResponseCode} {lun channel : Nat}

theorem createChannel_sound_iff (ha : s.Agree) (hr : Run ((createChannel lun channel).run s) t (ret, s')) :
    Served.Sound ⟨s, .createChannel lun channel, t, ret, s'⟩ ↔ t.all isAllocated := by
  have ⟨ho, hg⟩ := ensures_createChannel ha _ _ hr
  rw [Ensures.foldl_all, Bool.true_and] at hg
  rw [← hg]
  constructor
  case mp => exact Served.Sound.agree
  case mpr =>
    intro hg
    refine ⟨hg, ?_, nofun⟩
    rintro _ _ ⟨⟩ hs
    exact ho hs

theorem closeChannel_sound_iff (ha : s.Agree) (hr : Run ((closeChannel lun).run s) t (ret, s')) :
    Served.Sound ⟨s, .closeChannel lun, t, ret, s'⟩ ↔ t.all isClosing := by
  have ⟨hc, hg⟩ := ensures_closeChannel ha _ _ hr
  rw [Ensures.foldl_all, Bool.true_and] at hg hc
  rw [← hg]
  constructor
  case mp => exact Served.Sound.agree
  case mpr =>
    intro hs
    refine ⟨hs, nofun, ?_⟩
    rintro _ ⟨⟩
    exact hc (hg.mp hs)

theorem sound_of_keepsOpen {request : Request} (ha : s.Agree) (hk : KeepsOpen s (serve request))
    (hr : Run ((serve request).run s) t (ret, s')) (hc : ∀ lun channel, request ≠ .createChannel lun channel)
    (hc' : ∀ lun, request ≠ .closeChannel lun) : Served.Sound ⟨s, request, t, ret, s'⟩ where
  agree               := (hk s () .refl _ _ hr).agree ha
  opened _ _ h        := absurd h (hc _ _)
  closed _ h          := absurd h (hc' _)

-- What one request does.
theorem serve_sound_iff {request : Request} (ha : s.Agree) (hr : Run ((serve request).run s) t (ret, s')) :
    Served.Sound ⟨s, request, t, ret, s'⟩ ↔ Served.Clean ⟨s, request, t, ret, s'⟩ := by
  have other (hk : KeepsOpen s (serve request)) (hc : ∀ lun channel, request ≠ .createChannel lun channel)
      (hc' : ∀ lun, request ≠ .closeChannel lun) : Served.Sound ⟨s, request, t, ret, s'⟩ ↔ True :=
    iff_true_intro <| sound_of_keepsOpen ha hk hr hc hc'
  cases request
  case createChannel         => exact createChannel_sound_iff ha hr
  case closeChannel          => exact closeChannel_sound_iff ha hr
  case getCapabilities       => exact other (.bind (keepsOpen_getCapabilities _ _) fun _ => .pure _) nofun nofun
  case setCapabilities       => exact other (.pure _) nofun nofun
  case setProtocolParameters => exact other (keepsOpen_setProtocolParameters _ _ _ _ _ _) nofun nofun
  case powerICC              => exact other (.bind (keepsOpen_powerICC _ _) fun _ => .pure _) nofun nofun
  case transmitToICC         => exact other (.bind (keepsOpen_transmit _ _ _ _) fun _ => .pure _) nofun nofun
  case control               => exact other (.bind (keepsOpen_transmit _ _ _ _) fun _ => .pure _) nofun nofun
  case iccPresence           => exact other (keepsOpen_iccPresence _) nofun nofun

theorem session_sound_iff {l : List Served} (ha : s.Agree) (hl : Session s l) :
    (∀ r ∈ l, r.Sound) ↔ ∀ r ∈ l, r.Clean := by
  induction hl
  case nil => simp
  case cons hr _ hi =>
    simp only [List.forall_mem_cons, serve_sound_iff ha hr]
    refine and_congr_right fun hc => hi ?_
    exact (serve_sound_iff ha hr).mpr hc |>.agree

-- In every session, the tables agree in all the states that are reached if and only if no close fails and no
-- context of a new channel fails to be allocated.
theorem channels_sound_iff {l : List Served} (hl : Session start l) : (∀ r ∈ l, r.Sound) ↔ ∀ r ∈ l, r.Clean :=
  session_sound_iff agree_start hl

end

-- A reader without a card, whose serial port closes or not.
def emptyReader (closes : Bool) : Handler Call PUnit
  | _, .getStatus _, _ => (some 0x00, ⟨⟩)
  | _, .serialClose, _ => (closes, ⟨⟩)
  | _, call, _         => ((Port.handler call ⟨[], []⟩).fst, ⟨⟩)

-- The state with the first reader open.
def opened : IfdHandler :=
  { start.setContext (getCtn 0) (some .cleared) with ct := [(0, { slots := [{ ifd := some ⟨0, 0, 0⟩, card := none }] })] }

theorem yields_createChannel (closes : Bool) :
    Yields (emptyReader closes) ((serve (.createChannel 0 1)).run start) ⟨⟩ (.success, opened) ⟨⟩ :=
  eval_yields (n := 9) rfl

theorem channels_sound_opened : ∃ l, Session start l ∧
    l.map Served.request = [.createChannel 0 1, .closeChannel 0] ∧ ∀ r ∈ l, r.Sound := by
  have hy : Yields (emptyReader true) ((serve (.closeChannel 0)).run opened) ⟨⟩
      (.success, { opened.setContext (getCtn 0) none with ct := [] }) ⟨⟩ :=
    eval_yields (n := 9) rfl
  have hg {t e e'} (hf : Follows (emptyReader true) e t e') : ∀ ev ∈ t, isAllocated ev ∧ isClosing ev :=
    fun ev => hf.forall (P := fun ev => isAllocated ev ∧ isClosing ev) (fun c e => by cases c <;> exact ⟨rfl, rfl⟩)
  have ⟨t₁, hr₁, hf₁⟩ := yields_createChannel true
  have ⟨t₂, hr₂, hf₂⟩ := hy
  have hl := Session.cons hr₁ (.cons hr₂ .nil)
  refine ⟨_, hl, rfl, (channels_sound_iff hl).mpr ?_⟩
  simp only [List.forall_mem_cons, Served.Clean, List.all_eq_true]
  exact ⟨fun ev he => (hg hf₁ ev he).left, fun ev he => (hg hf₂ ev he).right, by simp⟩

-- When the serial port does not close, the terminal is gone, but the context stays.
theorem channels_unsound : ¬∀ l, Session start l → ∀ r ∈ l, r.Sound := by
  have hy : Yields (emptyReader false) ((serve (.closeChannel 0)).run opened) ⟨⟩
      (.communicationError, { opened with ct := [] }) ⟨⟩ :=
    eval_yields (n := 9) rfl
  obtain ⟨t₁, hr₁, -⟩ := yields_createChannel false
  obtain ⟨t₂, hr₂, -⟩ := hy
  intro h
  have hs := h _ (.cons hr₁ (.cons hr₂ .nil)) _ (List.mem_cons_of_mem _ List.mem_cons_self)
  exact nomatch (hs.agree.iff (getCtn 0)).mp rfl

end Towitoko.IfdHandler
