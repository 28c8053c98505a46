import Towitoko.Driver.Theorems.T1Reassembly

namespace Towitoko

open Interaction

namespace Link

variable {l : Link} {block : T1Block}

-- The number of bytes in the information fields of the I-blocks that were received.
def infLength (l : Link) : Nat :=
  ((l.received.filter T1Block.isI).map (·.getLen.toNat)).sum

@[simp]
theorem infLength_send : (l.send block).infLength = l.infLength :=
  rfl

theorem infLength_receive_of_isI (hb : block.isI) :
    (l.receive block).infLength = l.infLength + block.getLen.toNat := by
  simp [infLength, receive, hb]

theorem infLength_receive_of_not_isI (hb : ¬block.isI) : (l.receive block).infLength = l.infLength := by
  simp [infLength, receive, hb]

end Link

namespace T1Block

variable {block : T1Block}

theorem not_isI_of_getType {type : Byte} (ht : block.getType = type) (hn : type ≠ t1BlockI) : ¬block.isI := by
  intro hi
  have hi : block.getType = t1BlockI := of_decide_eq_true hi
  exact hn <| ht.symm.trans hi

end T1Block

namespace ProtocolT1

section

variable {t1 : ProtocolT1} {icc : IccAsync} {cmd : ApduCmd} {c : Convention} {l : Link} {block : T1Block} {counter : Nat}

-- While the command is sent, the card only acknowledges.
structure Acknowledged (c : Convention) (s : Sending) (l : Link) : Prop where
  convention : s.icc.convention = c
  silent     : s.ret = .ok → l.pending = [] ∧ l.infLength = 0

theorem sendSegment_acknowledged (hp : l.pending = []) (hl : l.infLength = 0) :
    Ensures (onLine icc.convention Link.observe) (sendSegment t1 icc cmd counter) l
      (fun l s => Acknowledged icc.convention s l) := by
  rw [sendSegment, Ensures.bind_iff]
  apply sendBlock_link
  case hf => exact Ensures.pure_iff.mpr ⟨rfl, by simp⟩
  case hs => exact Ensures.pure_iff.mpr ⟨rfl, fun _ => ⟨hp, hl⟩⟩

theorem sendBody_acknowledged {s : Sending} (hs : Acknowledged c s l) :
    Ensures (onLine c Link.observe) (sendBody cmd s) l
      (fun l r => r.elim (Acknowledged c · l) (Acknowledged c · l)) := by
  have hc := hs.convention
  rw [sendBody, Ensures.ite_iff]
  split
  case isTrue => exact Ensures.pure_iff.mpr hs
  case isFalse hw =>
    obtain ⟨hp, hn⟩ := hs.silent (Decidable.not_not.mp hw).left
    rw [Ensures.bind_iff, ← hc]
    refine receiveBlock_link hp |>.mono ?_
    rintro l' ⟨ret, block, icc'⟩ ⟨hc', hr⟩
    simp only [Ensures.ite_iff]
    split
    case isTrue => exact Ensures.pure_iff.mpr ⟨hc', by simp⟩
    case isFalse hok =>
      obtain ⟨b, hb, _, hl'⟩ := hr (Decidable.not_not.mp hok)
      cases hb
      simp only [Ensures.ite_iff]
      split
      case isTrue => exact Ensures.pure_iff.mpr ⟨hc', by simp⟩
      case isFalse ht =>
        have hb := T1Block.not_isI_of_getType (Decidable.not_not.mp ht) (by decide)
        rw [Ensures.bind_iff, hl', ← show icc'.convention = s.icc.convention from hc']
        refine sendSegment_acknowledged rfl ?_ |>.mono fun _ _ hs => Ensures.pure_iff.mpr hs
        rw [Link.infLength_receive_of_not_isI hb, hn]

theorem sendCommand_acknowledged :
    Ensures (onLine icc.convention Link.observe) (sendCommand t1 icc cmd) .start
      (fun l s => Acknowledged icc.convention s l) := by
  rw [sendCommand, Ensures.bind_iff]
  refine sendSegment_acknowledged rfl rfl |>.mono fun l s hs => ?_
  exact Ensures.loop (Acknowledged icc.convention) hs fun _ _ => sendBody_acknowledged

-- While the response is received, the counter is the number of its bytes, as far as it fits.
structure Counted (c : Convention) (s : Receiving) (l : Link) : Prop where
  convention : s.icc.convention = c
  counted    : s.ret = .ok → l.pending = [] ∧ s.counter = ushort l.infLength ∧ s.counter ≤ s.buffer.length

theorem Counted.send {s : Receiving} (hp : l.pending = []) (hc : s.icc.convention = c)
    (hl : s.counter = ushort l.infLength) (hb : s.counter ≤ s.buffer.length) :
    Ensures (onLine c Link.observe) (sendBlock s.icc block) l (fun l ret => Counted c { s with ret } l) := by
  rw [← hc]
  apply sendBlock_link
  case hf => exact ⟨rfl, nofun⟩
  case hs => exact ⟨rfl, fun _ => ⟨hp, hl, hb⟩⟩

-- An I-block adds its information field.
theorem Counted.saveInf {s : Receiving} (hs : Counted c s l) (hok : s.ret = .ok) (hb : block.isComplete)
    (hi : block.isI) : Counted c (saveInf s block) (l.receive block) := by
  have ⟨hc, hl⟩ := hs
  have ⟨_, hn, hlen⟩ := hl hok
  refine ⟨hc, fun _ => ⟨rfl, ?counter, ?buffer⟩⟩
  case counter => rw [Link.infLength_receive_of_isI hi, ProtocolT1.saveInf, ProtocolT1.storeInf, hn, ushort_add]
  case buffer =>
    have := T1Block.inf_length hb
    have := ushort_le (s.counter + block.getLen.toNat)
    simp only [ProtocolT1.saveInf, ProtocolT1.storeInf, T1Block.getInf_take hb, List.length_append, List.length_take]
    omega

theorem iBlock_counted {s : Receiving} (hs : Counted c s l) (hok : s.ret = .ok) (hb : block.isComplete)
    (hi : block.isI) :
    Ensures (onLine c Link.observe) (iBlock s block) (l.receive block) (fun l s => Counted c s l) := by
  have hs' := hs.saveInf hok hb hi
  simp only [iBlock_eq, Ensures.ite_iff, Ensures.bind_iff, Ensures.pure_iff]
  split
  case isTrue  => exact hs'
  case isFalse =>
    obtain ⟨hp, hn, hlen⟩ := hs'.counted hok
    exact Counted.send hp hs'.convention hn hlen

theorem wtxBlock_counted {s : Receiving} (hs : Counted c s l) (hok : s.ret = .ok) (hi : ¬block.isI) :
    Ensures (onLine c Link.observe) (wtxBlock s block) (l.receive block) (fun l s => Counted c s l) := by
  have ⟨hc, hl⟩ := hs
  have ⟨_, hn, hlen⟩ := hl hok
  simp only [wtxBlock_eq]
  split
  case h_1 wtx _ _ =>
    simp only [Ensures.bind_iff, Ensures.pure_iff]
    exact Counted.send (s := { s with wtx }) rfl hc (by rwa [Link.infLength_receive_of_not_isI hi]) hlen
  case h_2 => exact Ensures.fault

theorem handleBlock_counted {s : Receiving} (hs : Counted c s l) (hok : s.ret = .ok) (hb : block.isComplete) :
    Ensures (onLine c Link.observe) (handleBlock s block) (l.receive block) (fun l s => Counted c s l) := by
  simp only [handleBlock_eq, Ensures.ite_iff, Ensures.pure_iff]
  split
  case isTrue ht => exact iBlock_counted hs hok hb (decide_eq_true ht)
  case isFalse =>
    split
    case isTrue ht => exact wtxBlock_counted hs hok <| T1Block.not_isI_of_getType ht (by decide)
    case isFalse   => exact ⟨hs.convention, by simp⟩

theorem receiveBody_counted {s : Receiving} (hs : Counted c s l) :
    Ensures (onLine c Link.observe) (receiveBody t1 s) l (fun l r => r.elim (Counted c · l) (Counted c · l)) := by
  have hc := hs.convention
  rw [receiveBody_eq, Ensures.ite_iff]
  split
  case isTrue => exact Ensures.pure_iff.mpr hs
  case isFalse hw =>
    obtain ⟨hp, hn, hlen⟩ := hs.counted (Decidable.not_not.mp hw).left
    rw [Ensures.bind_iff]
    generalize hi : (if s.wtx > 1 then updateBWT s.icc (s.wtx.toNat * t1.bwt) else s.icc) = icc
    have hc : icc.convention = c := by rw [← hi, ← hc]; split <;> rfl
    rw [← hc]
    refine receiveBlock_link hp |>.mono ?_
    rintro l' ⟨ret, block, icc'⟩ ⟨hc', hr⟩
    dsimp only at hc' hr ⊢
    generalize hs' : (if s.wtx > 1 then _ else _ : Receiving) = s'
    obtain ⟨hc', hret, hcnt, hbuf⟩ :
        s'.icc.convention = icc.convention ∧ s'.ret = ret ∧ s'.counter = s.counter ∧ s'.buffer = s.buffer := by
      rw [← hs', ← hc']
      split <;> exact ⟨rfl, rfl, rfl, rfl⟩
    simp only [Ensures.ite_iff]
    split
    case isTrue hne => exact Ensures.pure_iff.mpr ⟨hc', fun h => absurd (hret ▸ h) hne⟩
    case isFalse hne =>
      have hok := Decidable.not_not.mp hne
      obtain ⟨b, hb, hcomplete, hl'⟩ := hr hok
      cases hb
      have hs' : Counted icc.convention s' l := ⟨hc', fun _ => ⟨hp, by rw [hcnt, hn], by rw [hcnt, hbuf]; exact hlen⟩⟩
      rw [hl']
      simp only [Ensures.bind_iff, Ensures.pure_iff]
      exact handleBlock_counted hs' (hret.trans hok) (decide_eq_true hcomplete)

theorem command_counted :
    Ensures (onLine icc.convention Link.observe) (command t1 icc cmd) .start
      (fun l r => r.ret = .ok → (r.rsp.isSome ↔ 2 ≤ ushort l.infLength)) := by
  rw [command_eq, Ensures.bind_iff]
  refine sendCommand_acknowledged |>.mono fun l s hs => Ensures.bind_iff.mpr ?_
  have hi : Counted icc.convention
      { icc := s.icc, ret := s.ret, buffer := [], counter := 0, more := true, wtx := 0 } l := by
    refine ⟨hs.convention, fun hok => ?_⟩
    obtain ⟨hp, hl⟩ := hs.silent hok
    exact ⟨hp, by rw [hl]; rfl, Nat.le_refl 0⟩
  refine Ensures.loop (Counted icc.convention) hi (fun _ _ => receiveBody_counted) |>.mono ?_
  intro l s hs
  refine Ensures.pure_iff.mpr fun hok => ?_
  obtain ⟨_, hn, hlen⟩ := hs.counted hok
  have hlen : (s.buffer.take s.counter).length = ushort l.infLength := by
    rw [List.length_take, Nat.min_eq_left hlen, hn]
  simp only [show s.ret = .ok from hok, if_true]
  rw [Option.isSome_iff_ne_none, Ne, ApduRsp.new_eq_none, hlen, Nat.not_lt]
  rfl

end

variable {t1 : ProtocolT1} {icc : IccAsync} {cmd : ApduCmd} {t : Trace Call} {r : Result}

-- A successful command comes with a response if the information fields that the card has sent make up a
-- status word, as far as the counter can tell.
theorem command_rsp_iff (hr : Run (command t1 icc cmd) t r) (hok : r.ret = .ok) :
    r.rsp.isSome ↔ 2 ≤ ushort (link icc t).infLength :=
  command_counted t r hr hok

end ProtocolT1
end Towitoko
