import Towitoko.Interaction.History
import Towitoko.IfdHandler.Theorems.Entries

-- Readers with different numbers. The tables have an entry for the remainder of the number only, so that two readers
-- may meet in one.
namespace Towitoko.IfdHandler

open Interaction

-- The reader number in a LUN.
def readerOf (lun : Nat) : Nat :=
  lun / 65536

def Request.lun? : Request → Option Nat
  | .createChannel lun _          => lun
  | .closeChannel lun             => lun
  | .getCapabilities lun _        => lun
  | .setCapabilities              => none
  | .setProtocolParameters lun .. => lun
  | .powerICC lun _               => lun
  | .transmitToICC lun ..         => lun
  | .control lun ..               => lun
  | .iccPresence lun              => lun

-- For what reader and channel a card terminal was opened.
structure Opener where
  reader  : Nat
  channel : Nat
  deriving DecidableEq, Repr

-- The request has put a card terminal into an entry that had none.
def Served.opens (r : Served) (ctn : Fin ifdhMaxReaders) : Option Opener :=
  match r.request with
  | .createChannel lun channel =>
    if getCtn lun = ctn ∧ r.before.ct.getCardTerminal ctn = none ∧ r.after.ct.getCardTerminal ctn ≠ none then
      some ⟨readerOf lun, channel⟩
    else
      none
  | _ => none

-- The last one to open the entry.
def opener (past : List Served) (ctn : Fin ifdhMaxReaders) : Option Opener :=
  (past.filterMap (·.opens ctn)).getLast?

-- The entry has a context or a card terminal that was opened for the reader of a LUN.
structure OpenedFor (past : List Served) (s : IfdHandler) (lun : Nat) (ctn : Fin ifdhMaxReaders) : Prop where
  opener   : ∃ channel, opener past ctn = some ⟨readerOf lun, channel⟩
  occupied : (s.contexts ctn).isSome ∨ (s.ct.getCardTerminal ctn).isSome

namespace Served

-- A request for one reader neither looks at what was opened for another one nor changes it, and a channel that is
-- created is one that was opened for the reader and the channel of the request.
structure Isolated (past : List Served) (r : Served) : Prop where
  apart   : ∀ lun ctn, (∀ lun' ∈ r.request.lun?, readerOf lun' ≠ readerOf lun) → OpenedFor past r.before lun ctn →
    r.Spared ctn
  created : ∀ lun channel, r.request = .createChannel lun channel → r.ret = .success →
    (r.after.ct.getCardTerminal (getCtn lun)).isSome ∧
      opener (past ++ [r]) (getCtn lun) = some ⟨readerOf lun, channel⟩

-- The request meets no other reader in the entry that it looks at, and if it is to create a channel where there is a
-- context, then the card terminal is still there, and was opened for the same reader and channel.
structure Separate (past : List Served) (r : Served) : Prop where
  own     : ∀ lun ctn, r.request.LooksAt r.before ctn → OpenedFor past r.before lun ctn →
    ∃ lun' ∈ r.request.lun?, readerOf lun' = readerOf lun
  reopens : ∀ lun channel, r.request = .createChannel lun channel → (r.before.contexts (getCtn lun)).isSome →
    (r.before.ct.getCardTerminal (getCtn lun)).isSome ∧ opener past (getCtn lun) = some ⟨readerOf lun, channel⟩

end Served

variable {s s' : IfdHandler} {l past : List Served} {r : Served} {ctn : Fin ifdhMaxReaders} {lun channel : Nat}

theorem opener_concat : opener (past ++ [r]) ctn = (r.opens ctn).or (opener past ctn) := by
  rw [opener, List.filterMap_append, List.getLast?_append]
  congr 1
  cases h : r.opens ctn <;> simp [h]

theorem opener_concat_open (h : (r.before.ct.getCardTerminal ctn).isSome) : opener (past ++ [r]) ctn = opener past ctn := by
  have hn : r.opens ctn = none := by
    rw [Served.opens]
    split
    case h_1 => exact if_neg fun hc => by simp [hc.right.left] at h
    case h_2 => rfl
  rw [opener_concat, hn, Option.none_or]

theorem opener_concat_new (hr : r.request = .createChannel lun channel)
    (h : r.before.ct.getCardTerminal (getCtn lun) = none) (h' : (r.after.ct.getCardTerminal (getCtn lun)).isSome) :
    opener (past ++ [r]) (getCtn lun) = some ⟨readerOf lun, channel⟩ := by
  have ho : r.opens (getCtn lun) = some ⟨readerOf lun, channel⟩ := by
    rw [Served.opens, hr]
    exact if_pos ⟨rfl, h, Option.isSome_iff_ne_none.mp h'⟩
  rw [opener_concat, ho, Option.some_or]

theorem Session.run_of_mem (hl : Session s l) (h : r ∈ l) : Run ((serve r.request).run r.before) r.trace (r.ret, r.after) := by
  induction hl
  case nil => exact nomatch h
  case cons hr _ hi =>
    cases List.mem_cons.mp h
    case inl h => exact h ▸ hr
    case inr h => exact hi h

section

variable (hr : Run ((serve r.request).run r.before) r.trace (r.ret, r.after))
include hr

theorem apart_iff : (∀ lun ctn, (∀ lun' ∈ r.request.lun?, readerOf lun' ≠ readerOf lun) →
    OpenedFor past r.before lun ctn → r.Spared ctn) ↔ ∀ lun ctn, r.request.LooksAt r.before ctn →
    OpenedFor past r.before lun ctn → ∃ lun' ∈ r.request.lun?, readerOf lun' = readerOf lun := by
  refine forall₂_congr fun lun ctn => ?_
  rw [show r.Spared ctn ↔ _ from spared_iff hr]
  constructor
  case mp =>
    intro h hl ho
    by_contra hn
    exact h (fun lun' hl' he => hn ⟨lun', hl', he⟩) ho hl
  case mpr =>
    intro h hn ho hl
    have ⟨lun', hl', he⟩ := h hl ho
    exact hn lun' hl' he

theorem created_iff (hc : r.request = .createChannel lun channel) :
    (r.ret = .success → (r.after.ct.getCardTerminal (getCtn lun)).isSome ∧
      opener (past ++ [r]) (getCtn lun) = some ⟨readerOf lun, channel⟩) ↔
    ((r.before.contexts (getCtn lun)).isSome → (r.before.ct.getCardTerminal (getCtn lun)).isSome ∧
      opener past (getCtn lun) = some ⟨readerOf lun, channel⟩) := by
  rw [hc] at hr
  cases ho : r.before.contexts (getCtn lun)
  case some context =>
    have ⟨_, hret, ha⟩ := run_createChannel_open (by rw [ho]; rfl) hr
    simp only [hret, ha, Option.isSome_some, true_imp_iff]
    exact and_congr_right fun h => by rw [opener_concat_open h]
  case none =>
    refine iff_of_true (fun hret => ?_) nofun
    have ⟨_, hb, ha⟩ := run_createChannel_new ho (hret ▸ hr)
    exact ⟨ha, opener_concat_new hc hb ha⟩

-- What one request does.
theorem isolated_iff : r.Isolated past ↔ r.Separate past where
  mp h  := ⟨(apart_iff hr).mp h.apart, fun lun channel hc => (created_iff hr hc).mp (h.created lun channel hc)⟩
  mpr h := ⟨(apart_iff hr).mpr h.own, fun lun channel hc => (created_iff hr hc).mpr (h.reopens lun channel hc)⟩

end

theorem exists_of_opener {o : Opener} (h : opener past ctn = some o) :
    ∃ r ∈ past, ∃ lun ∈ r.request.lun?, getCtn lun = ctn ∧ readerOf lun = o.reader := by
  have ⟨r, hr, ho⟩ := List.mem_filterMap.mp (List.mem_of_getLast? h)
  rw [Served.opens] at ho
  split at ho
  case h_2 => contradiction
  case h_1 lun channel hc =>
    split at ho
    case isFalse => contradiction
    case isTrue hn =>
      cases ho
      exact ⟨r, hr, lun, by rw [hc]; rfl, hn.left, rfl⟩

theorem Request.LooksAt.exists_lun {request : Request} (h : request.LooksAt s ctn) :
    ∃ lun ∈ request.lun?, getCtn lun = ctn := by
  cases request
  case setCapabilities => exact h.elim
  case closeChannel    => exact ⟨_, rfl, h.left⟩
  case getCapabilities => exact ⟨_, rfl, h.left⟩
  case iccPresence     => exact ⟨_, rfl, h.left⟩
  all_goals exact ⟨_, rfl, h⟩

theorem readerOf_eq_of_lt {lun' : Nat} (h : getCtn lun = getCtn lun') (hl : readerOf lun < ifdhMaxReaders)
    (hl' : readerOf lun' < ifdhMaxReaders) : readerOf lun = readerOf lun' := by
  have hm := congrArg Fin.val h
  simp only [getCtn, readerOf, ifdhMaxReaders] at hm hl hl' ⊢
  omega

-- No reader meets another one as long as their numbers are below the number of readers that the handler says it has.
theorem own_of_lt (hn : ∀ r ∈ l, ∀ lun ∈ r.request.lun?, readerOf lun < ifdhMaxReaders) (hp : past ++ [r] <+: l)
    (h : r.request.LooksAt r.before ctn) (ho : OpenedFor past r.before lun ctn) :
    ∃ lun' ∈ r.request.lun?, readerOf lun' = readerOf lun := by
  have ⟨lun', hl', hc'⟩ := h.exists_lun
  have ⟨_, ho⟩ := ho.opener
  have ⟨r₀, hr₀, lun₀, hl₀, hc₀, hn₀⟩ := exists_of_opener ho
  refine ⟨lun', hl', (readerOf_eq_of_lt (hc'.trans hc₀.symm) ?_ ?_).trans hn₀⟩
  case refine_1 => exact hn r (hp.subset (by simp)) lun' hl'
  case refine_2 => exact hn r₀ (hp.subset (List.mem_append_left _ hr₀)) lun₀ hl₀

-- In every session, readers with different numbers have nothing to do with each other, and a created channel is that of
-- the request, if and only if no request meets another reader in its entry or a channel that it takes for its own.
theorem isolated_iff_separate (hl : Session start l) : Throughout Served.Isolated l ↔ Throughout Served.Separate l :=
  forall₂_congr fun _ _ => forall_congr' fun hp => isolated_iff (hl.run_of_mem (hp.subset (by simp)))

-- Two readers with a channel each.
theorem isolated_two : ∃ l, Session start l ∧
    l.map Served.request = [.createChannel 0 1, .createChannel 0x10000 2, .closeChannel 0] ∧
    Throughout Served.Isolated l := by
  let ct : CardTerminal := ⟨[{ ifd := some ⟨0, 0, 0⟩, card := none }]⟩
  let both : IfdHandler := { opened.setContext (getCtn 0x10000) (some .cleared) with ct := [(0, ct), (1, ct)] }
  have hy₂ : Yields (emptyReader true) ((serve (.createChannel 0x10000 2)).run opened) ⟨⟩ (.success, both) ⟨⟩ :=
    eval_yields (n := 9) rfl
  have hy₃ : Yields (emptyReader true) ((serve (.closeChannel 0)).run both) ⟨⟩
      (.success, { both.setContext (getCtn 0) none with ct := [(1, ct)] }) ⟨⟩ :=
    eval_yields (n := 9) rfl
  obtain ⟨t₁, hr₁, -⟩ := yields_createChannel true
  obtain ⟨t₂, hr₂, -⟩ := hy₂
  obtain ⟨t₃, hr₃, -⟩ := hy₃
  have hl := Session.cons hr₁ (.cons hr₂ (.cons hr₃ .nil))
  refine ⟨_, hl, rfl, (isolated_iff_separate hl).mpr fun past r hp => ⟨fun lun ctn h ho => ?_, ?_⟩⟩
  case refine_1 =>
    refine own_of_lt ?_ hp h ho
    simp [Request.lun?, readerOf, ifdhMaxReaders]
  case refine_2 =>
    -- Neither channel is created where there is a context already.
    intro lun channel hc h
    have hr := hp.subset (List.mem_append_right past List.mem_cons_self)
    simp only [List.mem_cons, List.not_mem_nil, or_false] at hr
    rcases hr with rfl | rfl | rfl
    · cases hc
      exact nomatch h
    · cases hc
      exact nomatch h
    · exact nomatch hc

-- The reader with the number 4 gets the channel of the first one, which was opened for another port.
theorem not_isolated : ¬∀ l, Session start l → Throughout Served.Isolated l := by
  have hy : Yields (emptyReader true) ((serve (.createChannel 0x40000 2)).run opened) ⟨⟩ (.success, opened) ⟨⟩ :=
    eval_yields (n := 9) rfl
  obtain ⟨t₁, hr₁, -⟩ := yields_createChannel true
  obtain ⟨t₂, hr₂, -⟩ := hy
  intro h
  have hi := h _ (.cons hr₁ (.cons hr₂ .nil)) [_] _ List.prefix_rfl
  have hc := (opener_concat_open rfl).symm.trans (hi.created 0x40000 2 rfl rfl).right
  have ho : opener ([] ++ [⟨start, .createChannel 0 1, t₁, .success, opened⟩]) (getCtn 0) = some ⟨readerOf 0, 1⟩ :=
    opener_concat_new rfl rfl rfl
  exact absurd (ho.symm.trans hc) (by decide)

end Towitoko.IfdHandler
