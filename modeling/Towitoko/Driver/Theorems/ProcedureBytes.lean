import Towitoko.Interaction.Permits
import Towitoko.Driver.Theorems.T0Exits

-- What becomes of a procedure byte that means nothing. The driver compares three of its bits with INS,
-- and goes on with the transfer if they agree.
namespace Towitoko

open Interaction Iso7816.T0

namespace LineEvent

def data : LineEvent → List Byte
  | sent bs     => bs
  | received bs => bs

end LineEvent

-- Everything that happens on the line.
def record (es : List LineEvent) (e : LineEvent) : List LineEvent :=
  es ++ [e]

def line (c : Convention) (t : Trace Call) : List LineEvent :=
  t.foldl (onLine c record) []

-- The bytes that the card has sent.
def cardBytes (es : List LineEvent) : List Byte :=
  es.foldl received []

section

variable {c : Convention} {es es' : List LineEvent} {e : LineEvent} {t : Trace Call}

theorem cardBytes_concat : cardBytes (es ++ [e]) = received (cardBytes es) e := by
  simp [cardBytes]

theorem foldl_received {bs : List Byte} : es.foldl received bs = bs ++ cardBytes es := by
  induction es using List.reverseRecOn
  case nil => simp [cardBytes]
  case append_singleton e hi =>
    rw [cardBytes_concat, List.foldl_append, hi]
    cases e
    case sent     => rfl
    case received => exact List.append_assoc ..

theorem cardBytes_append : cardBytes (es ++ es') = cardBytes es ++ cardBytes es' := by
  rw [cardBytes, List.foldl_append, foldl_received]
  rfl

-- A call shows on the line as one event or not at all.
theorem onLine_cases (c : Convention) (ev : Event Call) :
    (∀ {M : Type} (δ : M → LineEvent → M) m, onLine c δ m ev = m) ∨
    ∃ e, ∀ {M : Type} (δ : M → LineEvent → M) m, onLine c δ m ev = δ m e := by
  have ⟨call, answer⟩ := ev
  cases call
  case transmit =>
    cases answer
    case false => exact .inl fun _ _ => rfl
    case true  => exact .inr ⟨_, fun _ _ => rfl⟩
  case receive =>
    cases answer
    case none => exact .inl fun _ _ => rfl
    case some => exact .inr ⟨_, fun _ _ => rfl⟩
  all_goals exact .inl fun _ _ => rfl

-- The bytes of the card can be told from the record.
theorem ensures_received {α : Type} {p : DriverM α} {Q : List Byte → α → Prop}
    (hp : Ensures (onLine c received) p (cardBytes es) Q) :
    Ensures (onLine c record) p es fun es a => Q (cardBytes es) a := by
  refine .of_hom cardBytes (fun es ev => ?_) hp
  rcases onLine_cases c ev with h | ⟨e, h⟩
  case inl => rw [h, h]
  case inr => rw [h, h, record, cardBytes_concat]

-- Nothing is taken back from the record.
theorem prefix_foldl_record : es <+: t.foldl (onLine c record) es := by
  induction t generalizing es
  case nil => exact List.prefix_refl es
  case cons ev t hi =>
    refine List.IsPrefix.trans ?_ hi
    rcases onLine_cases c ev with h | ⟨e, h⟩
    case inl => simp only [h, List.prefix_refl]
    case inr => exact h record es ▸ List.prefix_append es [e]

theorem cardBytes_prefix (h : es <+: es') : cardBytes es <+: cardBytes es' := by
  obtain ⟨es'', rfl⟩ := h
  rw [cardBytes_append]
  exact List.prefix_append ..

end

namespace ProtocolT0

-- Neither a null byte nor SW1, and unlike both INS and its complement in b8 to b2.
def Strange (ins b : Byte) : Prop :=
  ¬isNull b ∧ ¬isSW1 b ∧ b &&& 0xFE ≠ ins &&& 0xFE ∧ b &&& 0xFE ≠ ~~~ins &&& 0xFE

instance {ins b : Byte} : Decidable (Strange ins b) :=
  inferInstanceAs <| Decidable (_ ∧ _)

-- A strange procedure byte ends the exchange with an error, and no data is sent or received after it.
def RefusesStrange (cmd : ApduCmd) (es : List LineEvent) (ret : ProtocolT0Ret) : Prop :=
  ∀ es₁ b es₂, es = es₁ ++ .received [b] :: es₂ → (course cmd (cardBytes es₁)).left = 0 →
    Strange cmd.ins b → ret ≠ .ok ∧ ∀ e ∈ es₂, e.data = []

-- How many data bytes may count as transferred at most when the next transfer begins.
def capacity (cmd : ApduCmd) : Nat :=
  if cmd.cmdCase = .case2S then cmd.lc else maxShortResponse

def Awaits (cmd : ApduCmd) (bs : List Byte) (nulls count : Nat) : Prop :=
  Iso7816.T0.Awaits (classify cmd.ins) (direction cmd) (total cmd) (capacity cmd) maxNulls bs nulls count

-- A strange byte is taken for an acknowledgement, as b4 to b2 are those of INS or of its complement, at a
-- time when there is room for data, and the card sends what the driver expects to follow.
def Misread (cmd : ApduCmd) (bs : List Byte) : Prop :=
  ∃ bs₁ b bs₂ nulls count, bs = bs₁ ++ b :: bs₂ ∧ Awaits cmd bs₁ nulls count ∧ Strange cmd.ins b ∧
    (isAck cmd.ins b ∨ isNack cmd.ins b) ∧ count < capacity cmd ∧
    (cmd.cmdCase = .case3S → bs₂ ≠ [] ∧ (direction cmd).following count (classify cmd.ins b) ≤ bs₂.length)

section

variable {icc : IccAsync} {cmd : ApduCmd} {s : Counters} {es es' : List LineEvent} {bs bs' : List Byte} {b : Byte}
  {e : LineEvent} {ret : ProtocolT0Ret} {nulls count size : Nat}

theorem classify_of_strange (h : Strange cmd.ins b) :
    classify cmd.ins b = if isAck cmd.ins b then .all else if isNack cmd.ins b then .one else .invalid := by
  rw [classify, if_neg h.left, if_neg h.right.left]

theorem Misread.mono (h : Misread cmd bs) (hp : bs <+: bs') : Misread cmd bs' := by
  obtain ⟨bs'', rfl⟩ := hp
  obtain ⟨bs₁, b, bs₂, nulls, count, rfl, ha, hs, hb, hc, h3⟩ := h
  refine ⟨bs₁, b, bs₂ ++ bs'', nulls, count, by simp, ha, hs, hb, hc, fun h => ⟨by simp [h3 h], ?_⟩⟩
  rw [List.length_append]
  exact Nat.le_add_right_of_le (h3 h).right

theorem Misread.ensures {α : Type} {p : DriverM α} (h : Misread cmd (cardBytes es)) :
    Ensures (onLine icc.convention record) p es fun es _ => Misread cmd (cardBytes es) :=
  fun _ _ _ => h.mono <| cardBytes_prefix prefix_foldl_record

-- No procedure byte has been strange so far.
def Orderly (cmd : ApduCmd) (es : List LineEvent) : Prop :=
  ∀ es₁ b es₂, es = es₁ ++ .received [b] :: es₂ → (course cmd (cardBytes es₁)).left = 0 → ¬Strange cmd.ins b

-- One was strange, and there has been no data since.
def Disturbed (cmd : ApduCmd) (es : List LineEvent) : Prop :=
  ∃ es₁ b es₂, es = es₁ ++ .received [b] :: es₂ ∧ Orderly cmd es₁ ∧ ∀ e ∈ es₂, e.data = []

theorem Orderly.nil : Orderly cmd [] :=
  fun es₁ _ _ he => by simp at he

theorem Orderly.refusesStrange (h : Orderly cmd es) : RefusesStrange cmd es ret :=
  fun es₁ b es₂ he hl hs => h es₁ b es₂ he hl hs |>.elim

theorem Orderly.concat (h : Orderly cmd es)
    (he : ∀ b, e = .received [b] → (course cmd (cardBytes es)).left = 0 → ¬Strange cmd.ins b) :
    Orderly cmd (es ++ [e]) := by
  intro es₁ b es₂ hs hl
  induction es₂ using List.reverseRecOn
  case nil =>
    obtain ⟨rfl, rfl⟩ := List.append_inj' hs rfl |>.imp_right List.singleton_inj.mp
    exact he b rfl hl
  case append_singleton es₂ _ _ =>
    rw [← List.cons_append, ← List.append_assoc] at hs
    exact h es₁ b es₂ (List.append_inj' hs rfl).left hl

theorem Disturbed.refusesStrange (h : Disturbed cmd es) (hr : ret ≠ .ok) : RefusesStrange cmd es ret := by
  obtain ⟨es₁, b, es₂, rfl, ho, hq⟩ := h
  intro es₁' b' es₂' he hl hs
  refine ⟨hr, fun e hm => hq e ?_⟩
  -- The byte in question cannot be before the first strange one.
  rcases List.append_eq_append_iff.mp he with ⟨es₃, _, h⟩ | ⟨es₃, h₁, h₂⟩
  case inl =>
    cases es₃
    case nil =>
      rw [(List.cons.inj h).right]
      exact hm
    case cons =>
      rw [(List.cons.inj h).right]
      exact List.mem_append_right _ <| List.mem_cons_of_mem _ hm
  case inr =>
    cases es₃
    case nil =>
      rw [← (List.cons.inj h₂).right]
      exact hm
    case cons e' es₃ =>
      obtain ⟨rfl, _⟩ := List.cons.inj h₂
      exact ho es₁' b' es₃ h₁ hl hs |>.elim

-- What is known when the driver is about to read a procedure byte.
structure Ready (cmd : ApduCmd) (es : List LineEvent) (s : Counters) : Prop where
  awaits  : ∃ count, Awaits cmd (cardBytes es) s.nulls count
  orderly : Orderly cmd es ∨
    Disturbed cmd es ∧ s.recv < maxShortResponse ∧ ∀ b, Misread cmd (cardBytes es ++ [b])

def Ended (cmd : ApduCmd) (es : List LineEvent) (ret : ProtocolT0Ret) : Prop :=
  Orderly cmd es ∨ Disturbed cmd es ∧ ret ≠ .ok

theorem Ended.of_error {ret' : ProtocolT0Ret} (h : Ended cmd es ret) (hr : ret' ≠ .ok) : Ended cmd es ret' :=
  h.imp_right fun hd => ⟨hd.left, hr⟩

theorem Ended.refusesStrange (h : Ended cmd es ret) : RefusesStrange cmd es ret := by
  cases h
  case inl h => exact h.refusesStrange
  case inr h => exact h.left.refusesStrange h.right

-- The ways in which an iteration of the loop may end.
def Settled (cmd : ApduCmd) (es : List LineEvent) : Counters ⊕ Exit → Prop
  | .inl s => Misread cmd (cardBytes es) ∨ Ready cmd es s
  | .inr (.broke ret _) | .inr (.returned ret) => Misread cmd (cardBytes es) ∨ Ended cmd es ret

theorem Settled.of_misread {r : Counters ⊕ Exit} (h : Misread cmd (cardBytes es)) : Settled cmd es r := by
  rcases r with _ | _ | _ <;> exact .inl h

-- The next procedure byte.
theorem Orderly.procedure (h : Orderly cmd es) :
    ¬Strange cmd.ins b ∧ Orderly cmd (es ++ [.received [b]]) ∨
    Strange cmd.ins b ∧ Disturbed cmd (es ++ [.received [b]]) := by
  by_cases hs : Strange cmd.ins b
  case pos => exact .inr ⟨hs, es, b, [], rfl, h, List.forall_mem_nil _⟩
  case neg =>
    refine .inl ⟨hs, h.concat fun b' he _ => ?_⟩
    cases he
    exact hs

-- An error right after the procedure byte.
theorem Orderly.ended (h : Orderly cmd es) (hr : ret ≠ .ok) : Ended cmd (es ++ [.received [b]]) ret := by
  rcases h.procedure with ⟨_, ho⟩ | ⟨_, hd⟩
  case inl => exact .inl ho
  case inr => exact .inr ⟨hd, hr⟩

-- How many data bytes count as transferred.
def moved (cmd : ApduCmd) (s : Counters) : Nat :=
  if cmd.cmdCase = .case2S then s.sent else s.recv

theorem Awaits.moved (hc : cmd.cmdCase = .case2S ∨ cmd.cmdCase = .case3S) (ho : OnCourse cmd bs s)
    (ha : Awaits cmd bs nulls count) : moved cmd s = count := by
  have ht := ha.on_course.right
  rw [ProtocolT0.moved]
  cases hc
  case inl h2 => rw [if_pos h2, (ho.sent h2).right, ← ht, course]
  case inr h3 => rw [if_neg (by simp [h3]), ho.recv h3, ← ht, course]

theorem accepted_iff (hn : ¬isNull b) (hs : ¬isSW1 b) :
    classify cmd.ins b = .all ∨ classify cmd.ins b = .one ↔ isAck cmd.ins b ∨ isNack cmd.ins b := by
  rw [classify, if_neg hn, if_neg hs]
  split_ifs <;> simp_all

-- A transfer that the card has asked for.
theorem Awaits.transfer {data : List Byte} (ha : Awaits cmd bs nulls count)
    (hb : classify cmd.ins b = .all ∨ classify cmd.ins b = .one) (hl : count < capacity cmd)
    (hd : data.length = (direction cmd).following count (classify cmd.ins b)) :
    ∃ count', Awaits cmd (bs ++ b :: data) 0 count' := by
  cases hb
  case inl hb => exact ⟨_, .all ha hb hl (hb ▸ hd)⟩
  case inr hb => exact ⟨_, .one ha hb hl (hb ▸ hd)⟩

-- What is done about a byte that asks for a transfer.
theorem procedureByte_transfer (hc : cmd.cmdCase = .case2S ∨ cmd.cmdCase = .case3S)
    (hb : classify cmd.ins b = .all ∨ classify cmd.ins b = .one) :
    cmd.cmdCase = .case2S ∧
      (∃ size, procedureByte icc cmd s b = sendData icc cmd s size ∧ (s.sent < cmd.lc → 0 < size)) ∨
    cmd.cmdCase = .case3S ∧ ∃ recv', procedureByte icc cmd s b =
      receiveData icc s ((direction cmd).following s.recv (classify cmd.ins b)) recv' := by
  rw [procedureByte_eq]
  refine hc.imp (fun h2 => ⟨h2, ?_⟩) (fun h3 => ⟨h3, ?_⟩)
  case refine_1 =>
    cases hb
    case inl hb => simp only [hb, ackByte, if_pos h2]; exact ⟨_, rfl, Nat.sub_pos_of_lt⟩
    case inr hb => simp only [hb, nackByte, if_pos h2]; exact ⟨_, rfl, fun _ => Nat.zero_lt_one⟩
  case refine_2 =>
    have h2 : cmd.cmdCase ≠ .case2S := by simp [h3]
    cases hb
    case inl hb => simp only [hb, ackByte, direction, if_neg h2]; exact ⟨_, rfl⟩
    case inr hb => simp only [hb, nackByte, direction, if_neg h2]; exact ⟨_, rfl⟩

theorem sendData_settled (h2 : cmd.cmdCase = .case2S) (ho : Orderly cmd es)
    (ha : Awaits cmd (cardBytes es) nulls s.sent) (hb : classify cmd.ins b = .all ∨ classify cmd.ins b = .one) :
    Ensures (onLine icc.convention record) (sendData icc cmd s size) (es ++ [.received [b]]) (Settled cmd) := by
  simp only [sendData, Ensures.ite_iff, Ensures.bind_iff, Ensures.pure_iff]
  split
  case isTrue     => exact .inr <| ho.ended (by decide)
  case isFalse hl =>
    refine IccAsync.ensures_switch fun _ => ?_
    split
    case isTrue  => exact .inr <| ho.ended (by decide)
    case isFalse =>
      refine IccAsync.ensures_transmit (.inr <| ho.ended (by decide)) ?_
      have hl : s.sent < capacity cmd := by rw [capacity, if_pos h2]; exact Nat.lt_of_not_le hl
      have hd : (direction cmd).following s.sent (classify cmd.ins b) = 0 := by rw [direction, if_pos h2]; rfl
      have hbs : cardBytes (es ++ [.received [b]] ++ [.sent ((cmd.data.drop s.sent).take size)]) =
          cardBytes es ++ [b] := by
        rw [cardBytes_concat, cardBytes_concat]
        rfl
      rcases ho.procedure with ⟨_, ho⟩ | ⟨hs, _⟩
      case inl =>
        refine .inr ⟨hbs ▸ ha.transfer hb hl hd.symm, .inl <| ho.concat (by simp)⟩
      case inr =>
        have hb := accepted_iff hs.left hs.right.left |>.mp hb
        exact .inl ⟨_, b, [], nulls, _, hbs, ha, hs, hb, hl, fun h3 => absurd (h2.symm.trans h3) (by decide)⟩

theorem receiveData_settled {recv' : Nat} (h3 : cmd.cmdCase = .case3S) (hc : OnCourse cmd (cardBytes es) s)
    (ho : Orderly cmd es) (ha : Awaits cmd (cardBytes es) nulls s.recv) (hr : s.recv < maxShortResponse)
    (hb : classify cmd.ins b = .all ∨ classify cmd.ins b = .one)
    (hd : (direction cmd).following s.recv (classify cmd.ins b) = size) :
    Ensures (onLine icc.convention record) (receiveData icc s size recv') (es ++ [.received [b]]) (Settled cmd) := by
  have h2 : cmd.cmdCase ≠ .case2S := by simp [h3]
  have hl : s.recv < capacity cmd := by rwa [capacity, if_neg h2]
  rw [receiveData, if_neg (Nat.not_le.mpr hr), Ensures.bind_iff]
  refine IccAsync.ensures_receive (Ensures.pure_iff.mpr <| .inr <| ho.ended (by decide)) fun data => Ensures.pure_iff.mpr ?_
  have hbs : cardBytes (record (es ++ [.received [b]]) (.received data.val)) = cardBytes es ++ b :: data.val := by
    rw [record, cardBytes_concat, cardBytes_concat]
    exact List.append_assoc ..
  have hn := ha.transfer hb hl (data.length_eq.trans hd.symm)
  rcases ho.procedure with ⟨_, ho'⟩ | ⟨hs, _⟩
  case inl =>
    refine .inr ⟨by rwa [hbs], .inl <| ho'.concat fun b' he hp => ?_⟩
    -- A single byte of data is not taken for a procedure byte.
    have hb' : classify cmd.ins b ≠ .status := by rintro he; simp [he] at hb
    have hz : size = 0 := by
      rw [cardBytes_concat, received, hc.following hb', ← hc.recv h3, hd] at hp
      exact hp
    have := congrArg List.length (LineEvent.received.inj he)
    simp [data.length_eq, hz] at this
  case inr =>
    have hb := accepted_iff hs.left hs.right.left |>.mp hb
    by_cases he : data.val = []
    case pos =>
      have hd' : Disturbed cmd (record (es ++ [.received [b]]) (.received data.val)) :=
        ⟨es, b, [.received data.val], by simp [record], ho, by simp [LineEvent.data, he]⟩
      refine .inr ⟨by rwa [hbs], .inr ⟨hd', ?_, ?_⟩⟩
      · simp only [Counters.recv, List.length_take, he, List.append_nil]
        exact Nat.lt_of_le_of_lt (Nat.min_le_right ..) hr
      · intro b'
        refine ⟨_, b, [b'], nulls, _, by rw [hbs, he]; simp, ha, hs, hb, hl, fun _ => ⟨by simp, ?_⟩⟩
        rw [hd, ← data.length_eq, he]
        exact Nat.zero_le _
    case neg =>
      exact .inl ⟨_, b, _, nulls, _, hbs, ha, hs, hb, hl, fun _ => ⟨he, Nat.le_of_eq <| hd.trans data.length_eq.symm⟩⟩

theorem not_strange (hb : classify cmd.ins b = .null ∨ classify cmd.ins b = .status) : ¬Strange cmd.ins b := by
  intro hs
  rw [classify_of_strange hs] at hb
  split_ifs at hb <;> simp at hb

theorem Orderly.familiar (ho : Orderly cmd es) (hb : classify cmd.ins b = .null ∨ classify cmd.ins b = .status) :
    Orderly cmd (es ++ [.received [b]]) := by
  refine ho.concat fun b' he _ => ?_
  cases he
  exact not_strange hb

theorem nullByte_settled (ho : Orderly cmd es) (ha : Awaits cmd (cardBytes es) s.nulls count)
    (hb : classify cmd.ins b = .null) : Settled cmd (es ++ [.received [b]]) (nullByte s) := by
  rw [nullByte]
  split
  case isTrue     => exact .inr <| ho.ended (by decide)
  case isFalse hn =>
    refine .inr ⟨⟨count, ?_⟩, .inl <| ho.familiar (.inl hb)⟩
    rw [cardBytes_concat]
    exact .null ha hb (Nat.lt_of_not_le hn)

theorem statusByte_settled (hc : OnCourse cmd (cardBytes es) s) (ho : Orderly cmd es)
    (hb : classify cmd.ins b = .status) :
    Ensures (onLine icc.convention record) (statusByte icc s b) (es ++ [.received [b]]) (Settled cmd) := by
  rw [statusByte, Ensures.ite_iff]
  split
  case isTrue  => exact Ensures.pure_iff.mpr <| .inr <| ho.ended (by decide)
  case isFalse =>
    refine Ensures.bind_iff.mpr <| IccAsync.ensures_receive (Ensures.pure_iff.mpr <| .inr <| ho.ended (by decide)) fun sw2 => ?_
    refine Ensures.pure_iff.mpr <| .inr <| .inl <| (ho.familiar (.inr hb)).concat fun _ _ hp => ?_
    -- SW2 is not taken for a procedure byte.
    rw [cardBytes_concat, received, course, course_concat hc.left, if_pos hb] at hp
    contradiction

theorem transfer_settled (hc : cmd.cmdCase = .case2S ∨ cmd.cmdCase = .case3S) (ho : OnCourse cmd (cardBytes es) s)
    (hr : Orderly cmd es) (ha : Awaits cmd (cardBytes es) nulls (moved cmd s)) (hm : s.recv < maxShortResponse)
    (hb : classify cmd.ins b = .all ∨ classify cmd.ins b = .one) :
    Ensures (onLine icc.convention record) (procedureByte icc cmd s b) (es ++ [.received [b]]) (Settled cmd) := by
  rw [moved] at ha
  rcases @procedureByte_transfer icc cmd s b hc hb with ⟨h2, size, hp, _⟩ | ⟨h3, recv', hp⟩ <;> rw [hp]
  case inl =>
    rw [if_pos h2] at ha
    exact sendData_settled h2 hr ha hb
  case inr =>
    rw [if_neg (by simp [h3])] at ha
    exact receiveData_settled h3 ho hr ha hm hb rfl

theorem exchangeBody_settled (hc : cmd.cmdCase = .case2S ∨ cmd.cmdCase = .case3S)
    (ho : OnCourse cmd (cardBytes es) s) (hr : Ready cmd es s) :
    Ensures (onLine icc.convention record) (exchangeBody icc cmd s) es (Settled cmd) := by
  obtain ⟨⟨count, ha⟩, hs⟩ := hr
  rw [exchangeBody, Ensures.ite_iff]
  split
  case isTrue hm =>
    refine Ensures.pure_iff.mpr <| .inr <| .inl ?_
    rcases hs with hs | ⟨_, hl, _⟩
    case inl => exact hs
    case inr => exact Nat.not_lt.mpr hm hl |>.elim
  case isFalse hm =>
    refine Ensures.bind_iff.mpr <| IccAsync.ensures_receive (Ensures.pure_iff.mpr <| .inr ?_) fun b => ?_
    · exact hs.imp_right fun hd => ⟨hd.left, by decide⟩
    · rw [b.val_eq_first, record]
      rcases hs with hs | ⟨_, _, hs⟩
      case inr =>
        refine Misread.ensures ?_ |>.mono fun _ _ => Settled.of_misread
        rw [cardBytes_concat]
        exact hs b.first
      case inl =>
        have hm := Nat.lt_of_not_le hm
        have ht := @transfer_settled icc cmd s es b.first s.nulls hc ho hs (ha.moved hc ho ▸ ha) hm
        simp only [procedureByte_eq] at ht ⊢
        cases hb : classify cmd.ins b.first <;> rw [hb] at ht
        case null    => exact Ensures.pure_iff.mpr <| nullByte_settled hs ha hb
        case status  => exact statusByte_settled ho hs hb
        case all     => exact ht (.inl rfl)
        case one     => exact ht (.inr rfl)
        case invalid => exact Ensures.pure_iff.mpr <| .inr <| hs.ended (by decide)

theorem exchangeLoop_settled (hc : cmd.cmdCase = .case2S ∨ cmd.cmdCase = .case3S) (ho : Orderly cmd es)
    (hn : cardBytes es = []) :
    Ensures (onLine icc.convention record) (exchangeLoop icc cmd) es (fun es exit => Settled cmd es (.inr exit)) := by
  refine Ensures.loop (fun s es => OnCourse cmd (cardBytes es) s ∧ (Misread cmd (cardBytes es) ∨ Ready cmd es s)) ?_ ?_
  · rw [hn]
    exact ⟨.start cmd, .inr ⟨⟨0, hn ▸ .start⟩, .inl ho⟩⟩
  · intro s es ⟨hs, hr⟩
    have hr : Ensures (onLine icc.convention record) (exchangeBody icc cmd s) es (Settled cmd) := by
      cases hr
      case inl hm => exact hm.ensures.mono fun _ _ => Settled.of_misread
      case inr hr => exact exchangeBody_settled hc hs hr
    refine (ensures_received (exchangeBody_outcome hc hs)).and hr |>.mono ?_
    rintro es (s' | exit) h
    case inl => exact h
    case inr => exact h.right

-- What follows the loop does not turn an error into a success.
theorem exchangeEnd_settled {exit : Exit} (h : Settled cmd es (.inr exit)) :
    Ensures (onLine icc.convention record) (exchangeEnd icc exit) es
      (fun es r => Misread cmd (cardBytes es) ∨ Ended cmd es r.fst) := by
  cases exit
  case returned => exact Ensures.pure_iff.mpr h
  case broke =>
    refine Ensures.bind_iff.mpr <| IccAsync.ensures_switch fun ok => ?_
    simp only [Ensures.ite_iff, Ensures.bind_iff, Ensures.pure_iff]
    refine IccAsync.ensures_endTransmission fun ok' => ?_
    split
    case isTrue  => exact h.imp_right (·.of_error nofun)
    case isFalse =>
      cases ok
      case false => exact h.imp_right (·.of_error nofun)
      case true  => exact h

theorem exchangeTPDU_settled (hc : cmd.cmdCase = .case2S ∨ cmd.cmdCase = .case3S) :
    Ensures (onLine icc.convention record) (exchangeTPDU icc cmd) []
      (fun es r => Misread cmd (cardBytes es) ∨ RefusesStrange cmd es r.fst) := by
  have hn : Orderly cmd [] := Orderly.nil
  rw [exchangeTPDU, if_neg (by grind)]
  simp only [Ensures.ite_iff, Ensures.bind_iff, Ensures.pure_iff]
  refine IccAsync.ensures_beginTransmission fun _ => ?_
  split
  case isTrue  => exact .inr hn.refusesStrange
  case isFalse =>
    refine IccAsync.ensures_transmit ?_ ?_
    · rw [if_pos (by decide)]
      exact IccAsync.ensures_endTransmission fun _ => .inr hn.refusesStrange
    · rw [if_neg (by decide)]
      refine exchangeLoop_settled hc (hn.concat (e := .sent cmd.header) (by simp)) rfl |>.mono fun es exit h => ?_
      exact exchangeEnd_settled h |>.mono fun _ _ => .imp_right Ended.refusesStrange

-- Data is sent or received after a strange byte, and the card has sent nothing else than `bs`.
def GoesOn (cmd : ApduCmd) (bs : List Byte) (es : List LineEvent) : Prop :=
  cardBytes es <+: bs ∧ ∃ es₁ b es₂, es = es₁ ++ .received [b] :: es₂ ∧ (course cmd (cardBytes es₁)).left = 0 ∧
    Strange cmd.ins b ∧ ∃ e ∈ es₂, e.data ≠ []

theorem GoesOn.not_refusesStrange (h : GoesOn cmd bs es) : ¬RefusesStrange cmd es ret := by
  intro hg
  have ⟨_, es₁, b, es₂, he, hl, hs, e, hm, hd⟩ := h
  exact hd <| hg es₁ b es₂ he hl hs |>.right e hm

theorem permits_exchangeBody {Q : List LineEvent → Counters ⊕ Exit → Prop} (hm : s.recv < maxShortResponse)
    (hp : Permits (onLine icc.convention record) (procedureByte icc cmd s b) (es ++ [.received [b]]) Q) :
    Permits (onLine icc.convention record) (exchangeBody icc cmd s) es Q := by
  rw [exchangeBody, if_neg (Nat.not_le.mpr hm)]
  exact .bind <| IccAsync.permits_receive ⟨[b], rfl⟩ hp

-- The card falls silent.
theorem permits_silence :
    Permits (onLine icc.convention record) (.loop (exchangeBody icc cmd) s) es (fun es' _ => es' = es) := by
  refine .loop ?_
  rw [exchangeBody]
  split
  case isTrue  => exact .pure rfl
  case isFalse => exact .bind <| IccAsync.permits_receive_none <| .pure rfl

-- Nothing needs to follow a procedure byte of a command that sends no data.
theorem permits_procedureByte (h3 : cmd.cmdCase = .case3S) :
    Permits (onLine icc.convention record) (procedureByte icc cmd s b) es (fun es' _ => es' = es) := by
  have h2 : cmd.cmdCase ≠ .case2S := by simp [h3]
  have hr {size recv' : Nat} :
      Permits (onLine icc.convention record) (receiveData icc s size recv') es (fun es' _ => es' = es) := by
    rw [receiveData]
    split
    case isTrue  => exact .pure rfl
    case isFalse => exact .bind <| IccAsync.permits_receive_none <| .pure rfl
  rw [procedureByte_eq]
  cases classify cmd.ins b
  case null    => exact .pure rfl
  case all     => simpa only [ackByte, if_neg h2] using hr
  case one     => simpa only [nackByte, if_neg h2] using hr
  case invalid => exact .pure rfl
  case status  =>
    simp only [statusByte]
    split
    case isTrue  => exact .pure rfl
    case isFalse => exact .bind <| IccAsync.permits_receive_none <| .pure rfl

-- One more byte comes, and then nothing.
theorem permits_byte (h3 : cmd.cmdCase = .case3S) (hm : s.recv < maxShortResponse) :
    Permits (onLine icc.convention record) (.loop (exchangeBody icc cmd) s) es
      (fun es' _ => es' = es ++ [.received [b]]) := by
  refine .loop <| permits_exchangeBody (b := b) hm <| (permits_procedureByte h3).mono ?_
  rintro _ (s' | exit) rfl
  case inl => exact permits_silence
  case inr => rfl

-- A transfer that succeeds, in the course of which the card sends `data`.
structure Passes (cmd : ApduCmd) (s : Counters) (data : List Byte) (es es' : List LineEvent) (s' : Counters) : Prop where
  nulls : s'.nulls = 0
  recv  : s'.recv ≤ s.recv + data.length
  bytes : cardBytes es' = cardBytes es ++ data
  event : ∃ e, es' = es ++ [e] ∧ (e.data = [] → cmd.cmdCase = .case3S ∧ data = [])

theorem permits_sendData (h2 : cmd.cmdCase = .case2S) (hl : s.sent < cmd.lc) (hs : 0 < size) :
    Permits (onLine icc.convention record) (sendData icc cmd s size) es
      (fun es' r => ∃ s', r = .inl s' ∧ Passes cmd s [] es es' s') := by
  rw [sendData, if_neg (Nat.not_le.mpr hl)]
  refine .bind <| IccAsync.permits_switch <| .bind <| IccAsync.permits_transmit <| .pure ?_
  refine ⟨_, rfl, rfl, Nat.le_refl _, ?_, _, rfl, fun he => ?_⟩
  · rw [record, cardBytes_concat, List.append_nil]
    rfl
  · have := congrArg List.length he
    have := ApduCmd.data_length_of_case2S h2
    simp only [LineEvent.data, List.length_take, List.length_drop, List.length_nil] at *
    omega

theorem permits_receiveData {recv' : Nat} {data : List Byte} (h3 : cmd.cmdCase = .case3S) (hm : s.recv < maxShortResponse)
    (hd : data.length = size) :
    Permits (onLine icc.convention record) (receiveData icc s size recv') es
      (fun es' r => ∃ s', r = .inl s' ∧ Passes cmd s data es es' s') := by
  rw [receiveData, if_neg (Nat.not_le.mpr hm)]
  refine .bind <| IccAsync.permits_receive ⟨data, hd⟩ <| .pure ?_
  refine ⟨_, rfl, rfl, ?_, ?_, _, rfl, fun he => ⟨h3, he⟩⟩
  · simp only [Counters.recv, List.length_take, List.length_append]
    exact Nat.min_le_right ..
  · rw [record, cardBytes_concat, received]

theorem permits_transfer {data : List Byte} (hc : cmd.cmdCase = .case2S ∨ cmd.cmdCase = .case3S)
    (hb : classify cmd.ins b = .all ∨ classify cmd.ins b = .one) (hm : s.recv < maxShortResponse)
    (hl : moved cmd s < capacity cmd)
    (hd : data.length = (direction cmd).following (moved cmd s) (classify cmd.ins b)) :
    Permits (onLine icc.convention record) (procedureByte icc cmd s b) es
      (fun es' r => ∃ s', r = .inl s' ∧ Passes cmd s data es es' s') := by
  rcases @procedureByte_transfer icc cmd s b hc hb with ⟨h2, size, hp, hs⟩ | ⟨h3, recv', hp⟩ <;> rw [hp]
  case inl =>
    simp only [moved, capacity, direction, if_pos h2] at hl hd
    obtain rfl := List.length_eq_zero_iff.mp hd
    exact permits_sendData h2 hl (hs hl)
  case inr =>
    rw [moved, if_neg (by simp [h3])] at hd
    exact permits_receiveData h3 hm hd

theorem Awaits.recv_lt (hc : cmd.cmdCase = .case2S ∨ cmd.cmdCase = .case3S) (ha : Awaits cmd bs nulls count)
    (ho : OnCourse cmd bs s) (hl : count < capacity cmd) : s.recv < maxShortResponse := by
  rw [← ha.moved hc ho] at hl
  cases hc
  case inl h2 => simp [Counters.recv, (ho.sent h2).left, maxShortResponse]
  case inr h3 => simpa [ProtocolT0.moved, capacity, h3] using hl

-- An iteration after which the loop goes on.
theorem permits_next {Q : List LineEvent → Exit → Prop} {R : List LineEvent → Counters → Prop}
    (hc : cmd.cmdCase = .case2S ∨ cmd.cmdCase = .case3S) (ho : OnCourse cmd (cardBytes es) s)
    (hb : Permits (onLine icc.convention record) (exchangeBody icc cmd s) es (fun es r => ∃ s, r = .inl s ∧ R es s))
    (hq : ∀ es s, OnCourse cmd (cardBytes es) s → R es s →
      Permits (onLine icc.convention record) (.loop (exchangeBody icc cmd) s) es Q) :
    Permits (onLine icc.convention record) (.loop (exchangeBody icc cmd) s) es Q := by
  refine .loop <| hb.and_ensures (ensures_received (exchangeBody_outcome hc ho)) |>.mono ?_
  rintro es _ ⟨⟨s, rfl, hr⟩, ho⟩
  exact hq es s ho hr

theorem permits_next_transfer {Q : List LineEvent → Exit → Prop} {data : List Byte}
    (hc : cmd.cmdCase = .case2S ∨ cmd.cmdCase = .case3S) (ho : OnCourse cmd (cardBytes es) s)
    (ha : Awaits cmd (cardBytes es) nulls count) (hb : classify cmd.ins b = .all ∨ classify cmd.ins b = .one)
    (hl : count < capacity cmd) (hd : data.length = (direction cmd).following count (classify cmd.ins b))
    (hq : ∀ es' s', OnCourse cmd (cardBytes es') s' → Passes cmd s data (es ++ [.received [b]]) es' s' →
      Permits (onLine icc.convention record) (.loop (exchangeBody icc cmd) s') es' Q) :
    Permits (onLine icc.convention record) (.loop (exchangeBody icc cmd) s) es Q := by
  have hm := ha.recv_lt hc ho hl
  rw [← ha.moved hc ho] at hl hd
  exact permits_next hc ho (permits_exchangeBody hm <| permits_transfer hc hb hm hl hd) hq

theorem Passes.bytes_eq {data : List Byte} {s' : Counters} (h : Passes cmd s data (es ++ [.received [b]]) es' s') :
    cardBytes es' = cardBytes es ++ b :: data := by
  rw [h.bytes, cardBytes_concat, List.append_cons]
  rfl

-- The driver gets to every point at which it awaits a procedure byte.
theorem permits_awaits {Q : List LineEvent → Exit → Prop} (hc : cmd.cmdCase = .case2S ∨ cmd.cmdCase = .case3S)
    (ha : Awaits cmd bs nulls count) (hl : count < capacity cmd) (hn : cardBytes es = [])
    (hq : ∀ es s, OnCourse cmd (cardBytes es) s → cardBytes es = bs ∧ s.nulls = nulls →
      Permits (onLine icc.convention record) (.loop (exchangeBody icc cmd) s) es Q) :
    Permits (onLine icc.convention record) (exchangeLoop icc cmd) es Q := by
  rw [Awaits] at ha
  induction ha
  case start => exact hq es _ (hn ▸ .start cmd) ⟨hn, rfl⟩
  case null b _ _ ha hb hlt hi =>
    refine hi hl fun es s ho ⟨hes, hs⟩ => ?_
    subst hes hs
    refine permits_next hc ho (permits_exchangeBody (b := b) (Awaits.recv_lt hc ha ho hl) ?_) hq
    rw [procedureByte_eq, hb, nullByte, if_neg (Nat.not_le.mpr hlt)]
    exact .pure ⟨_, rfl, cardBytes_concat, rfl⟩
  case all ha hb hlt hd hi =>
    refine hi hlt fun es s ho ⟨hes, hs⟩ => ?_
    subst hes hs
    refine permits_next_transfer hc ho ha (.inl hb) hlt (hb ▸ hd) fun es' s' ho' hp => ?_
    exact hq es' s' ho' ⟨hp.bytes_eq, hp.nulls⟩
  case one ha hb hlt hd hi =>
    refine hi hlt fun es s ho ⟨hes, hs⟩ => ?_
    subst hes hs
    refine permits_next_transfer hc ho ha (.inr hb) hlt (hb ▸ hd) fun es' s' ho' hp => ?_
    exact hq es' s' ho' ⟨hp.bytes_eq, hp.nulls⟩

theorem permits_misread (hc : cmd.cmdCase = .case2S ∨ cmd.cmdCase = .case3S) (hm : Misread cmd bs)
    (hn : cardBytes es = []) :
    Permits (onLine icc.convention record) (exchangeLoop icc cmd) es (fun es _ => GoesOn cmd bs es) := by
  obtain ⟨bs₁, b, bs₂, nulls, count, rfl, ha, hs, hb, hl, h3⟩ := hm
  refine permits_awaits hc ha hl hn fun es s ho h => ?_
  obtain ⟨rfl, _⟩ := h
  let data := bs₂.take ((direction cmd).following count (classify cmd.ins b))
  have hd : data.length = (direction cmd).following count (classify cmd.ins b) := by
    rw [List.length_take, Nat.min_eq_left]
    cases hc
    case inl h2  => simp [direction, h2, Direction.following]
    case inr h3' => exact (h3 h3').right
  have hb := accepted_iff hs.left hs.right.left |>.mpr hb
  refine permits_next_transfer hc ho ha hb hl hd fun es' s' _ hp => ?_
  have hbs := hp.bytes_eq
  obtain ⟨e, rfl, he⟩ := hp.event
  by_cases hz : e.data = []
  case neg =>
    refine permits_silence.mono ?_
    rintro _ _ rfl
    refine ⟨?_, es, b, [e], by simp, ha.on_course.left, hs, e, List.mem_singleton_self e, hz⟩
    rw [hbs, List.prefix_append_right_inj, List.cons_prefix_cons]
    exact ⟨rfl, List.take_prefix ..⟩
  case pos =>
    -- No data was left to transfer. The byte that comes next is received nevertheless.
    obtain ⟨h3', hz⟩ := he hz
    obtain ⟨b', bs₃, hb'⟩ := List.exists_cons_of_ne_nil (h3 h3').left
    have hm : s'.recv < maxShortResponse := by
      have := hp.recv
      have := ha.recv_lt hc ho hl
      simp only [hz, List.length_nil] at *
      omega
    refine (permits_byte (b := b') h3' hm).mono ?_
    rintro _ _ rfl
    refine ⟨?_, es, b, [e, .received [b']], by simp, ha.on_course.left, hs, .received [b'], by simp, by simp [LineEvent.data]⟩
    rw [cardBytes_concat, hbs, hz, hb', received, List.append_assoc, List.prefix_append_right_inj]
    exact ⟨bs₃, rfl⟩

theorem permits_exchangeEnd {exit : Exit} :
    Permits (onLine icc.convention record) (exchangeEnd icc exit) es (fun es' _ => es' = es) := by
  cases exit
  case returned => exact .pure rfl
  case broke    => exact .bind <| IccAsync.permits_switch <| .bind <| IccAsync.permits_endTransmission <| .pure rfl

theorem permits_exchangeTPDU (hc : cmd.cmdCase = .case2S ∨ cmd.cmdCase = .case3S) (hm : Misread cmd bs) :
    Permits (onLine icc.convention record) (exchangeTPDU icc cmd) [] (fun es _ => GoesOn cmd bs es) := by
  rw [exchangeTPDU, if_neg (by grind)]
  refine .bind <| IccAsync.permits_beginTransmission <| .bind <| IccAsync.permits_transmit <| .bind ?_
  refine permits_misread hc hm rfl |>.mono fun es exit hg => ?_
  exact permits_exchangeEnd.mono fun _ _ h => h ▸ hg

end

-- A strange procedure byte ends the exchange, unless it is misread as an acknowledgement. The card
-- may send `bs` and no more, and whatever the driver does may fail.
theorem exchangeTPDU_refusesStrange_iff {icc : IccAsync} {cmd : ApduCmd} {bs : List Byte}
    (hc : cmd.cmdCase = .case2S ∨ cmd.cmdCase = .case3S) :
    (∀ t r, Run (exchangeTPDU icc cmd) t r → cardBytes (line icc.convention t) <+: bs →
      RefusesStrange cmd (line icc.convention t) r.fst) ↔ ¬Misread cmd bs := by
  constructor
  case mp =>
    intro hg hm
    have ⟨t, r, hr, hgo⟩ := @permits_exchangeTPDU icc cmd bs hc hm
    exact hgo.not_refusesStrange <| hg t r hr hgo.left
  case mpr =>
    intro hm t r hr hp
    exact exchangeTPDU_settled hc t r hr |>.resolve_left fun hm' => hm <| hm'.mono hp

theorem exchangeTPDU_refusesStrange_readBinary1 : ∃ (t : Trace Call) (rsp : Option ApduRsp),
    Run (exchangeTPDU .sample readBinary1) t (.error, rsp) ∧
    line IccAsync.sample.convention t = [.sent readBinary1.header, .received [0x60], .received [0x04]] ∧
    RefusesStrange readBinary1 (line IccAsync.sample.convention t) .error := by
  let es : List LineEvent := [.sent readBinary1.header, .received [0x60], .received [0x04]]
  have he : eval (Port.handler.watch (onLine IccAsync.sample.convention record)) 5 (exchangeTPDU .sample readBinary1)
      (⟨[0x60, 0x04, 0xAA], []⟩, []) = some ((.error, none), (⟨[0xAA], [readBinary1.raw]⟩, es)) := by decide +kernel
  have ⟨t, hr, ht⟩ := (eval_yields he).exists_run
  have hm : ¬Misread readBinary1 [0x60, 0x04] := by
    intro ⟨bs₁, b, bs₂, _, _, hbs, _, hs, hb, _⟩
    have : ∀ b ∈ [0x60, 0x04], ¬(Strange readBinary1.ins b ∧ (isAck readBinary1.ins b ∨ isNack readBinary1.ins b)) := by
      decide +kernel
    exact this b (hbs ▸ List.mem_append_right _ List.mem_cons_self) ⟨hs, hb⟩
  refine ⟨t, none, hr, ht, exchangeTPDU_refusesStrange_iff (by decide) |>.mpr hm t _ hr ?_⟩
  rw [line, ht]
  exact List.prefix_refl _

-- A byte that is neither B0 nor 4F in b8 to b2, after which the driver takes a byte of data and succeeds.
theorem exchangeTPDU_misread : ∃ (t : Trace Call) (rsp : Option ApduRsp),
    Run (exchangeTPDU .sample readBinary1) t (.ok, rsp) ∧
    line IccAsync.sample.convention t =
      [.sent readBinary1.header, .received [0xA0], .received [0xAA], .received [0x90], .received [0x00]] ∧
    ¬RefusesStrange readBinary1 (line IccAsync.sample.convention t) .ok := by
  let es : List LineEvent :=
    [.sent readBinary1.header, .received [0xA0], .received [0xAA], .received [0x90], .received [0x00]]
  let rsp : ApduRsp := ⟨[0xAA, 0x90, 0x00], by decide⟩
  have he : eval (Port.handler.watch (onLine IccAsync.sample.convention record)) 5 (exchangeTPDU .sample readBinary1)
      (⟨[0xA0, 0xAA, 0x90, 0x00], []⟩, []) = some ((.ok, some rsp), (⟨[], [readBinary1.raw]⟩, es)) := by decide +kernel
  have ⟨t, hr, ht⟩ := (eval_yields he).exists_run
  refine ⟨t, some rsp, hr, ht, fun hg => ?_⟩
  have hs : Strange readBinary1.ins 0xA0 := by decide +kernel
  exact hg [.sent readBinary1.header] 0xA0 _ ht rfl hs |>.left rfl

end ProtocolT0
end Towitoko
