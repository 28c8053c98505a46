import Towitoko.Driver.Port
import Towitoko.Driver.Theorems.Tpdu

namespace Towitoko

open Interaction

namespace ApduRsp

variable {apdu rsp a : ApduRsp}

-- The data bytes of a response, and the status word behind them.
def data (apdu : ApduRsp) : List Byte :=
  apdu.response.take apdu.dataLen

def statusWord (apdu : ApduRsp) : List Byte :=
  apdu.response.drop apdu.dataLen

theorem data_append_statusWord : apdu.data ++ apdu.statusWord = apdu.response :=
  List.take_append_drop ..

theorem statusWord_length : apdu.statusWord.length = 2 := by
  have h : 2 ≤ apdu.response.length := apdu.min_le
  simp only [statusWord, List.length_drop, dataLen, rawLen]
  omega

theorem data_length : apdu.data.length = apdu.dataLen := by
  simp only [data, List.length_take, dataLen, rawLen]
  omega

theorem rawLen_eq : apdu.rawLen = apdu.dataLen + 2 := by
  rw [rawLen, ← data_append_statusWord, List.length_append, data_length, statusWord_length]

theorem data_of_response {data status : List Byte} (h : apdu.response = data ++ status) (hs : status.length = 2) :
    apdu.data = data := by
  have hl : apdu.dataLen = data.length := by
    rw [dataLen, rawLen, h, List.length_append, hs, Nat.add_sub_cancel]
  rw [ApduRsp.data, hl, h, List.take_left]

theorem appendData_eq_some (h : rsp.appendData a = some apdu) :
    apdu.response = rsp.data ++ a.response ∧ rsp.dataLen + a.dataLen ≤ 65536 := by
  rw [appendData, Option.ite_none_right_eq_some] at h
  cases h.right
  have := h.left.right
  rw [rawLen_eq, apduMaxRspSize] at this
  exact ⟨rfl, by omega⟩

theorem dataLen_appendData (h : rsp.appendData a = some apdu) : apdu.dataLen = rsp.dataLen + a.dataLen := by
  have : rsp.data.length = rsp.dataLen := data_length
  rw [dataLen, rawLen, (appendData_eq_some h).left, List.length_append, this, ← rawLen, rawLen_eq]
  omega

theorem appendData_eq_none (h : rsp.appendData a = none) :
    rsp.dataLen + a.dataLen = 0 ∨ 65536 < rsp.dataLen + a.dataLen := by
  rw [appendData, ite_eq_right_iff] at h
  have : ¬(2 < rsp.dataLen + a.rawLen ∧ rsp.dataLen + a.rawLen ≤ apduMaxRspSize) :=
    fun hl => nomatch h hl
  rw [rawLen_eq, apduMaxRspSize] at this
  omega

end ApduRsp

namespace Tpdu

open ProtocolT0 (Reply TpduExchange getResponseTpdu)

-- All exchanges are successful, and the card answers with the given responses.
inductive Completed : Trace TpduCall → List ApduRsp → Prop
  | nil : Completed [] []
  | cons {tpdu a s as} : Completed s as → Completed (⟨.exchange tpdu, (.ok, some a)⟩ :: s) (a :: as)

-- How many data bytes the answers have.
def total (as : List ApduRsp) : Nat :=
  (as.flatMap (·.data)).length

-- The answers are put together to one response.
def Collected (as : List ApduRsp) (rsp : ApduRsp) : Prop :=
  ∃ ys a, as = ys ++ [a] ∧ rsp.response = as.flatMap (·.data) ++ a.statusWord

variable {cmd : ApduCmd} {lx : Nat} {rsp rsp' a : ApduRsp} {as : List ApduRsp} {s s₁ s₂ : Trace TpduCall} {r : Reply}

theorem Completed.exists_of_append (h : Completed (s₁ ++ s₂) as) :
    ∃ as₁ as₂, as = as₁ ++ as₂ ∧ Completed s₁ as₁ ∧ Completed s₂ as₂ := by
  induction s₁ generalizing as
  case nil => exact ⟨[], as, rfl, .nil, h⟩
  case cons hi =>
    cases h
    case cons a as h =>
      have ⟨as₁, as₂, ha, h₁, h₂⟩ := hi h
      exact ⟨a :: as₁, as₂, by rw [ha, List.cons_append], .cons h₁, h₂⟩

theorem Completed.of_event {x : Exchange} (h : Completed [x.event] as) :
    ∃ a, as = [a] ∧ x.reply = (.ok, some a) := by
  have ⟨tpdu, reply⟩ := x
  cases h
  case cons a _ h =>
    cases h
    exact ⟨a, rfl, rfl⟩

theorem total_append {as' : List ApduRsp} : total (as ++ as') = total as + total as' := by
  simp [total]

theorem total_singleton : total [a] = a.dataLen := by
  simp [total, ApduRsp.data_length]

namespace Collected

theorem single (a : ApduRsp) : Collected [a] a :=
  ⟨[], a, rfl, by simp [ApduRsp.data_append_statusWord]⟩

theorem data_eq (h : Collected as rsp) : rsp.data = as.flatMap (·.data) :=
  have ⟨_, _, _, hr⟩ := h
  ApduRsp.data_of_response hr ApduRsp.statusWord_length

theorem dataLen_eq (h : Collected as rsp) : rsp.dataLen = total as := by
  rw [← ApduRsp.data_length, h.data_eq, total]

theorem append (h : Collected as rsp) (ha : rsp.appendData a = some rsp') : Collected (as ++ [a]) rsp' := by
  refine ⟨as, a, rfl, ?_⟩
  rw [(ApduRsp.appendData_eq_some ha).left, h.data_eq, List.flatMap_append, ← @ApduRsp.data_append_statusWord a]
  simp

end Collected

theorem getResponseTpdu_fits {lm : Nat} :
    apduMinCmdSize ≤ (getResponseTpdu cmd lm lx).length ∧ (getResponseTpdu cmd lm lx).length ≤ apduMaxCmdSize := by
  simp [getResponseTpdu, apduMinCmdSize, apduMaxCmdSize]

-- One round of the loop, if the card answers.
theorem run_getResponsesBody {next : ApduRsp ⊕ Reply} (hr : Run (getResponsesBody cmd lx rsp) s next)
    (hs : Completed s as) :
    (cmd.le ≤ rsp.dataLen ∧ as = [] ∧ next = .inr (.ok, some rsp)) ∨
    (rsp.dataLen < cmd.le ∧ ∃ a, as = [a] ∧
      ((∃ rsp', rsp.appendData a = some rsp' ∧ next = .inl rsp') ∨
        (rsp.appendData a = none ∧ next = .inr (.error, some rsp)))) := by
  simp only [Tpdu.getResponsesBody, TpduExchange.getResponsesBody] at hr
  split at hr
  case isFalse hl =>
    obtain ⟨rfl, rfl⟩ := hr
    cases hs
    exact .inl ⟨Nat.le_of_not_lt hl, rfl, rfl⟩
  case isTrue hl =>
    obtain ⟨s₁, res, s₂, h₁, h₂, ht⟩ := hr
    obtain ⟨x, hx, _, hres⟩ := run_exchange getResponseTpdu_fits.left getResponseTpdu_fits.right h₁
    obtain ⟨as₁, as₂, rfl, hc₁, hc₂⟩ := (ht ▸ hs).exists_of_append
    obtain ⟨a, rfl, hrep⟩ := (hx ▸ hc₁).of_event
    obtain ⟨a', rfl, ha⟩ | ⟨ret, _, hret, hne⟩ := hres
    case inl =>
      obtain rfl : a = a' := by simpa [hrep] using ha
      simp only at h₂
      split at h₂
      case h_1 rsp' he =>
        obtain ⟨rfl, rfl⟩ := h₂
        cases hc₂
        exact .inr ⟨hl, a, rfl, .inl ⟨rsp', he, rfl⟩⟩
      case h_2 he =>
        obtain ⟨rfl, rfl⟩ := h₂
        cases hc₂
        exact .inr ⟨hl, a, rfl, .inr ⟨he, rfl⟩⟩
    case inr =>
      rw [hrep] at hret
      exact absurd hret.symm hne

-- The ways in which the loop may end when the answers in `ps` have been collected before it and those in
-- `as` are the ones to its GET RESPONSEs.
inductive Outcome (cmd : ApduCmd) (ps as : List ApduRsp) : Reply → Prop
  | enough (rsp : ApduRsp) : cmd.le ≤ total (ps ++ as) → (as ≠ [] → total (ps ++ as) ≤ 65536) →
    Collected (ps ++ as) rsp → Outcome cmd ps as (.ok, some rsp)
  | refused (rsp : Option ApduRsp) (ys : List ApduRsp) (a : ApduRsp) :
    as = ys ++ [a] → total (ps ++ as) = 0 ∨ 65536 < total (ps ++ as) → Outcome cmd ps as (.error, rsp)

theorem Outcome.cons {ps : List ApduRsp} (hl : total (ps ++ [a]) ≤ 65536) (ho : Outcome cmd (ps ++ [a]) as r) :
    Outcome cmd ps (a :: as) r := by
  have ha : ps ++ [a] ++ as = ps ++ a :: as := List.append_assoc ..
  cases ho
  case enough hle hm hc =>
    rw [ha] at hle hm hc
    refine .enough _ hle (fun _ => ?_) hc
    cases as
    case nil  => exact hl
    case cons => exact hm nofun
  case refused ys a' he h =>
    rw [ha] at h
    exact .refused _ (a :: ys) a' (by rw [he]; rfl) h

-- Every GET RESPONSE is sent for data that is missing.
theorem total_lt_cons {ps : List ApduRsp} {n : Nat} (h : total ps < n)
    (ht : ∀ ys a' zs, as = ys ++ a' :: zs → total (ps ++ [a] ++ ys) < n) :
    ∀ ys a' zs, a :: as = ys ++ a' :: zs → total (ps ++ ys) < n := by
  intro ys a' zs he
  cases ys
  case nil => rwa [List.append_nil]
  case cons b ys =>
    cases he
    have := ht ys a' zs rfl
    rwa [List.append_assoc] at this

theorem run_getResponses {ps : List ApduRsp} (hr : Run (getResponses cmd lx rsp) s r) (hs : Completed s as)
    (hc : Collected ps rsp) :
    (∀ ys a zs, as = ys ++ a :: zs → total (ps ++ ys) < cmd.le) ∧ Outcome cmd ps as r := by
  replace hr : Loop (fun rsp => Run (getResponsesBody cmd lx rsp)) rsp s r := hr
  induction hr generalizing ps as
  case done hr =>
    obtain ⟨hl, rfl, h⟩ | ⟨hl, a, rfl, h⟩ := run_getResponsesBody hr hs
    case inl =>
      cases h
      refine ⟨by simp, .enough _ ?_ (absurd rfl) ?_⟩
      · rwa [List.append_nil, ← hc.dataLen_eq]
      · rwa [List.append_nil]
    case inr =>
      obtain ⟨_, _, h⟩ | ⟨ha, h⟩ := h
      case inl => contradiction
      case inr =>
        cases h
        refine ⟨total_lt_cons (hc.dataLen_eq ▸ hl) (by simp), .refused _ [] a rfl ?_⟩
        rw [total_append, total_singleton, ← hc.dataLen_eq]
        exact ApduRsp.appendData_eq_none ha
  case next hr _ ih =>
    obtain ⟨as₁, as₂, rfl, hs₁, hs₂⟩ := hs.exists_of_append
    obtain ⟨_, _, h⟩ | ⟨hl, a, rfl, h⟩ := run_getResponsesBody hr hs₁
    case inl => contradiction
    case inr =>
      obtain ⟨rsp', ha, h⟩ | ⟨_, h⟩ := h
      case inr => contradiction
      case inl =>
        cases h
        have ⟨hd, ho⟩ := ih hs₂ (hc.append ha)
        refine ⟨total_lt_cons (hc.dataLen_eq ▸ hl) hd, .cons ?_ ho⟩
        rw [total_append, total_singleton, ← hc.dataLen_eq]
        exact ApduRsp.appendData_eq_some ha |>.right

-- What the reader of a response expects, when the card has given the answers `as` to the read command and
-- the GET RESPONSEs after it.
structure Delivered (cmd : ApduCmd) (as : List ApduRsp) (r : Reply) : Prop where
  ends   : r.fst = .ok → ∀ ys a zs, as = ys ++ a :: zs → a.sw1 ≠ 0x61 → zs = []
  data   : r.fst = .ok → ∃ rsp, r.snd = some rsp ∧ Collected as rsp ∧ rsp.dataLen ≤ cmd.le
  status : ∀ ys a, as = ys ++ [a] → a.dataLen = 0 → r.fst = .ok

-- The card has data for all answers up to `Le` bytes, and does not end before them; or it has too much.
def Conforming (cmd : ApduCmd) (a₀ : ApduRsp) (as : List ApduRsp) : Prop :=
  (as ≠ [] ∧ 65536 < total (a₀ :: as)) ∨
  (0 < total (a₀ :: as) ∧ total (a₀ :: as) ≤ cmd.le ∧
    ∀ ys a zs, as = ys ++ a :: zs → a.sw1 ≠ 0x61 → cmd.le ≤ total (a₀ :: ys ++ [a]))

section

variable {a₀ : ApduRsp} {rsp : Option ApduRsp}

-- Every answer but the last one leaves something to be asked for.
variable (hd : ∀ ys a zs, as = ys ++ a :: zs → total ([a₀] ++ ys) < cmd.le)
include hd

theorem delivered_enough_iff {rsp : ApduRsp} (hl : 256 < cmd.le) (hsw : a₀.sw1 = 0x61)
    (he : cmd.le ≤ total (a₀ :: as)) (hm : as ≠ [] → total (a₀ :: as) ≤ 65536) (hc : Collected (a₀ :: as) rsp) :
    Delivered cmd (a₀ :: as) (.ok, some rsp) ↔ Conforming cmd a₀ as := by
  constructor
  case mp =>
    intro h
    obtain ⟨rsp', hr, _, hrl⟩ := h.data rfl
    cases hr
    rw [hc.dataLen_eq] at hrl
    refine .inr ⟨by omega, hrl, ?_⟩
    intro ys a zs has hne
    cases h.ends rfl (a₀ :: ys) a zs (by rw [has]; rfl) hne
    rwa [List.cons_append, ← has]
  case mpr =>
    rintro (⟨hn, hlt⟩ | ⟨_, hrl, hsw'⟩)
    case inl => exact absurd (hm hn) (Nat.not_le.mpr hlt)
    case inr =>
      refine ⟨fun _ => ?_, fun _ => ⟨rsp, rfl, hc, hc.dataLen_eq ▸ hrl⟩, fun _ _ _ _ => rfl⟩
      intro ys a zs has hne
      cases ys
      case nil =>
        cases has
        contradiction
      case cons ys =>
        cases has
        rcases zs with _ | ⟨b, zs⟩
        case nil  => rfl
        case cons =>
          have h₁ := hsw' ys a (b :: zs) rfl hne
          have h₂ := hd (ys ++ [a]) b zs (by simp)
          exact absurd h₁ (Nat.not_le.mpr h₂)

theorem delivered_refused_iff {ys : List ApduRsp} (has : as = ys ++ [a])
    (h : total (a₀ :: as) = 0 ∨ 65536 < total (a₀ :: as)) :
    Delivered cmd (a₀ :: as) (.error, rsp) ↔ Conforming cmd a₀ as := by
  have hle : cmd.le ≤ 65536 := ApduCmd.le_le_max
  have ht : total (a₀ :: as) = total ([a₀] ++ ys) + a.dataLen := by
    rw [has, ← total_singleton (a := a), ← total_append]
    rfl
  have hlt := hd ys a [] has
  obtain h | h := h
  case inl =>
    refine iff_of_false (fun hd => ?_) ?_
    · exact nomatch hd.status (a₀ :: ys) a (by rw [has]; rfl) (by omega)
    · rintro (⟨_, h'⟩ | ⟨h', _⟩) <;> omega
  case inr =>
    refine iff_of_true ⟨nofun, nofun, ?_⟩ (.inl ⟨by simp [has], h⟩)
    intro ys' a' he ha'
    have : a' = a := by
      rw [has, ← List.cons_append] at he
      exact (List.singleton_inj.mp (List.append_inj' he rfl).right).symm
    rw [this] at ha'
    omega

theorem delivered_iff (hl : 256 < cmd.le) (hsw : a₀.sw1 = 0x61) (ho : Outcome cmd [a₀] as r) :
    Delivered cmd (a₀ :: as) r ↔ Conforming cmd a₀ as := by
  cases ho
  case enough he hm hc => exact delivered_enough_iff hd hl hsw he hm hc
  case refused has h   => exact delivered_refused_iff hd has h

end

end Tpdu

-- The result of an extended read that the card answers with SW1 = 0x61.
theorem ProtocolT0.case3E_delivered_iff {icc : IccAsync} {cmd : ApduCmd} {t : Trace Call} {r : Reply}
    (hl : 256 < cmd.le) (hr : Run (case3E icc cmd) t r) :
    ∃ s, Run (Tpdu.case3E cmd) s r ∧ Realizes (Tpdu.layer icc) s t ∧
      ∀ a₀ as, Tpdu.Completed s (a₀ :: as) → a₀.sw1 = 0x61 →
        (Tpdu.Delivered cmd (a₀ :: as) r ↔ Tpdu.Conforming cmd a₀ as) := by
  rw [← Tpdu.interp_case3E] at hr
  obtain ⟨s, hr, ht⟩ := run_interp_iff.mp hr
  refine ⟨s, hr, ht, fun a₀ as hs hsw => ?_⟩
  rw [Tpdu.case3E, TpduExchange.case3E, if_neg (Nat.not_le.mpr hl)] at hr
  obtain ⟨s₁, res, s₂, h₁, h₂, hs'⟩ := hr
  obtain ⟨x, hx, _, hres⟩ := Tpdu.run_exchange (by simp [apduMinCmdSize]) (by simp [apduMaxCmdSize]) h₁
  obtain ⟨as₁, as₂, has, hc₁, hc₂⟩ := (hs' ▸ hs).exists_of_append
  obtain ⟨a, rfl, hrep⟩ := (hx ▸ hc₁).of_event
  cases has
  obtain ⟨a, rfl, ha⟩ | ⟨ret, _, hret, hne⟩ := hres
  case inl =>
    obtain rfl : a₀ = a := by simpa [hrep] using ha
    replace h₂ : Run (Tpdu.getResponses cmd (if a₀.sw2 = 0x00 then 256 else a₀.sw2.toNat) a₀) s₂ r := by
      simpa [hsw, Tpdu.getResponses] using h₂
    obtain ⟨hd, ho⟩ := Tpdu.run_getResponses h₂ hc₂ (.single a₀)
    exact Tpdu.delivered_iff hd hl hsw ho
  case inr =>
    rw [hrep] at hret
    exact absurd hret.symm hne

-- READ BINARY of 257 bytes, the card has 256 and one more.
def ProtocolT0.readBinary257 : ApduCmd :=
  ⟨[0x00, 0xB0, 0x00, 0x00, 0x00, 0x01, 0x01], by decide, by decide⟩

theorem ProtocolT0.case3E_delivered_readBinary257 : ∃ t rsp, Run (case3E .sample readBinary257) t (.ok, some rsp) ∧
    rsp.response = List.replicate 256 0xAA ++ [0xBB, 0x90, 0x00] ∧
    ∃ s, Run (Tpdu.case3E readBinary257) s (.ok, some rsp) ∧
      ∀ a₀ as, Tpdu.Completed s (a₀ :: as) → a₀.sw1 = 0x61 →
        (Tpdu.Delivered readBinary257 (a₀ :: as) (.ok, some rsp) ↔ Tpdu.Conforming readBinary257 a₀ as) := by
  let bs : List Byte := [0xB0] ++ List.replicate 256 0xAA ++ [0x61, 0x01, 0xC0, 0xBB, 0x90, 0x00]
  let rsp : ApduRsp := ⟨List.replicate 256 0xAA ++ [0xBB, 0x90, 0x00], by decide +kernel⟩
  have he : (eval Port.handler 5 (case3E .sample readBinary257) ⟨bs, []⟩).map Prod.fst = some (.ok, some rsp) := by
    decide +kernel
  have ⟨t, hr⟩ := exists_run_of_eval he
  have ⟨s, hs, _, h⟩ := case3E_delivered_iff (by decide) hr
  exact ⟨t, rsp, hr, rfl, s, hs, h⟩

-- The card announces data, but has only an error to deliver, which does not arrive.
theorem ProtocolT0.case3E_status_lost : ∃ t s a₀ as r,
    256 < readBinary257.le ∧ Run (case3E .sample readBinary257) t r ∧ Run (Tpdu.case3E readBinary257) s r ∧
    Realizes (Tpdu.layer .sample) s t ∧ Tpdu.Completed s (a₀ :: as) ∧ a₀.sw1 = 0x61 ∧
    ¬Tpdu.Delivered readBinary257 (a₀ :: as) r := by
  let tpdu₀ : ApduCmd := ⟨[0x00, 0xB0, 0x00, 0x00, 0x00], by decide, by decide⟩
  let tpdu₁ : ApduCmd := ⟨[0x00, 0xC0, 0x00, 0x00, 0x10], by decide, by decide⟩
  let a₀ := ApduRsp.status 0x61 0x10
  let a₁ := ApduRsp.status 0x6F 0x00
  have h₀ : (eval Port.handler 5 (exchangeTPDU .sample tpdu₀) ⟨[0x61, 0x10], []⟩).map Prod.fst = some (.ok, some a₀) := by
    decide +kernel
  have h₁ : (eval Port.handler 5 (exchangeTPDU .sample tpdu₁) ⟨[0x6F, 0x00], []⟩).map Prod.fst = some (.ok, some a₁) := by
    decide +kernel
  have hs : Run (Tpdu.case3E readBinary257) ([⟨tpdu₀, .ok, some a₀⟩, ⟨tpdu₁, .ok, some a₁⟩].map Exchange.event)
      (.error, some a₀) := by
    refine @Tpdu.run_of_eval _ (fun i => if i = 0 then (.ok, some a₀) else (.ok, some a₁)) 5 2 _ _ _ ?_
    decide +kernel
  have ⟨t₀, hr₀⟩ := exists_run_of_eval h₀
  have ⟨t₁, hr₁⟩ := exists_run_of_eval h₁
  have ht : Realizes (Tpdu.layer .sample) ([⟨tpdu₀, .ok, some a₀⟩, ⟨tpdu₁, .ok, some a₁⟩].map Exchange.event) _ :=
    .cons hr₀ <| .cons hr₁ .nil
  refine ⟨_, _, a₀, [a₁], _, by decide, ?_, hs, ht, .cons (.cons .nil), by decide, ?_⟩
  · rw [← Tpdu.interp_case3E]
    exact run_interp_iff.mpr ⟨_, hs, ht⟩
  · intro h
    exact nomatch h.status [a₀] a₁ rfl (by decide)

end Towitoko
