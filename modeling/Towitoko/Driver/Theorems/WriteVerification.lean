import Towitoko.Memory.Transfers
import Towitoko.Driver.Theorems.IccSync
import Towitoko.Driver.Theorems.IccSyncAccess
import Towitoko.Driver.Theorems.IccSyncWrite

-- What has been read back from a memory card when a write to it returns.
namespace Towitoko

open Interaction Transfer

-- The blocks that go to and from the card, each with the address that the call before it carries.
structure WriteLog where
  address : Nat
  log     : List (Transfer Byte)
  deriving DecidableEq

namespace WriteLog

def start : WriteLog where
  address := 0
  log     := []

def seek (m : WriteLog) (address : Nat) : WriteLog :=
  { m with address }

def note (m : WriteLog) (x : Transfer Byte) : WriteLog :=
  { m with log := m.log ++ [x] }

def observe (m : WriteLog) : Event Call → WriteLog
  | ⟨.setReadAddress _ _ address, ok⟩    => if ok then m.seek address else m
  | ⟨.setWriteAddress _ _ address _, ok⟩ => if ok then m.seek address else m
  | ⟨.readBuffer _ _, buffer⟩            => if buffer.ok then m.note (.read m.address buffer.data) else m
  | ⟨.writeBuffer _ data, ok⟩            => if ok then m.note (.write m.address data) else m
  | _                                    => m

def after (t : Trace Call) : WriteLog :=
  t.foldl observe start

variable {m : WriteLog}

theorem observe_control {ev : Event Call} (h : IccSync.isControl ev.call) : m.observe ev = m := by
  have ⟨c, r⟩ := ev
  cases c
  case setReadAddress | setWriteAddress | readBuffer | writeBuffer => exact h.elim
  all_goals rfl

end WriteLog

open WriteLog

namespace IccSync

variable {icc : IccSync} {m : WriteLog} {a n p : Nat} {data : List Byte}

-- What a write that ends in this way has done to the cells from `a` on. The calls carry 16 bits of an address, so that
-- only a write that stays below 65536 is one of these cells.
def Outcome (n a : Nat) (data : List Byte) (log : List (Transfer Byte)) : IccSyncRet → Prop
  | .ok      => a + data.length ≤ 65536 → Verified a log data ∧ ∀ i < data.length, lastRead log (a + i) = data[i]?
  | .roError => ∃ blocks, Refused n a data blocks ∧ log = blocks.map (wrap 65536)
  | _        => True

theorem ensures_control {α : Type} {q : IccSyncM α} (hq : UsesM isControl q) :
    Ensures observe (q.run icc) m fun m' _ => m' = m :=
  (hq icc).ensures fun _ => observe_control

theorem returns_reactivate_ne : Returns (fun _ => True) reactivate (· ≠ .roError) := by
  have hs : Stable fun _ => True := fun _ _ _ _ _ h => h
  refine .bind .get fun icc _ => .ite (fun _ => .pure nofun) fun _ => .bind (returns_activate hs) fun _ _ => ?_
  refine .ite (fun _ => .pure nofun) fun _ => .bind .get fun icc _ => .ite (fun _ => ?_) fun _ => .pure nofun
  refine .bind .get fun _ _ => .ite (fun _ => .pure nofun) fun _ => .bind (returns_activate hs) fun _ _ => ?_
  refine .ite (fun _ => .pure nofun) fun _ => .bind .get fun icc _ => .bind (.lift _) fun trials _ => ?_
  cases trials
  case none => exact .pure nofun
  case some =>
    refine .ite (fun _ => .pure nofun) fun _ => .bind (.lift _) fun _ _ => .ite (fun _ => .pure nofun) fun _ => ?_
    refine .bind (.lift _) fun trials _ => ?_
    cases trials
    case none => exact .pure nofun
    case some =>
      refine .ite (fun _ => .bind (.set trivial) fun _ _ => .pure nofun) fun _ => ?_
      exact .bind (.set trivial) fun _ _ => .pure nofun

-- What is read is a block at the address of the call.
theorem ensures_readAt {length : Nat} :
    Ensures observe ((read p length).run icc) m fun m' r =>
      r.fst.ok → m' = ⟨p % 65536, m.log ++ [.read (p % 65536) r.fst.data]⟩ := by
  refine Ensures.run_bind_iff.mpr <| (ensures_control uses_activate).mono fun m₁ (ok, icc₁) hm => ?_
  cases hm
  rw [Ensures.run_ite_iff]
  split
  case isTrue  => exact Ensures.run_pure_iff.mpr nofun
  case isFalse =>
    refine Ensures.run_get_bind_iff.mpr <| Ensures.run_attempt_iff.mpr ⟨nofun, ?_⟩
    have hm : m.observe ⟨.setReadAddress icc₁.ifd icc₁.type (p % 65536), true⟩ = ⟨p % 65536, m.log⟩ := rfl
    rw [hm]
    refine Ensures.run_lift_bind_iff.mpr <| Ensures.call_iff.mpr fun buffer => ?_
    rw [Ensures.run_ite_iff]
    split
    case isTrue hb  =>
      refine Ensures.run_pure_iff.mpr fun hok => ?_
      have hok : buffer.ok := hok
      simp [hok] at hb
    case isFalse hb =>
      have hb : buffer.ok := by simpa using hb
      refine Ensures.run_bind_iff.mpr <| (ensures_control uses_deactivate).mono fun m₂ (ok, icc₂) hm => ?_
      cases hm
      exact Ensures.run_pure_iff.mpr fun _ => if_pos hb

-- One attempt, if no call fails, writes the data and reads something back.
def Attempted (m : WriteLog) (p : Nat) (data : List Byte) (m' : WriteLog) : Except IccSyncRet Bool → Prop
  | .error ret => ret ≠ .ok ∧ ret ≠ .roError
  | .ok same   => ∃ buffer, (same ↔ buffer = data) ∧ m'.log = m.log ++ attempts (p % 65536) data [buffer]

theorem attempted_writePage :
    Ensures observe ((writePage p data).run icc) m fun m' r => Attempted m p data m' r.fst := by
  refine Ensures.run_bind_iff.mpr <| ((ensures_control uses_reactivate).and <| returns_reactivate_ne.ensures trivial).mono ?_
  intro m₁ (ret, icc₁) ⟨hm, hne, _⟩
  cases hm
  rw [Ensures.run_ite_iff]
  split
  case isTrue hok => exact Ensures.run_pure_iff.mpr ⟨hok, hne⟩
  case isFalse    =>
    refine Ensures.run_get_bind_iff.mpr <| Ensures.run_lift_bind_iff.mpr <| Ensures.call_iff.mpr fun _ => ?_
    refine Ensures.run_attempt_iff.mpr ⟨⟨nofun, nofun⟩, ?_⟩
    refine Ensures.run_attempt_iff.mpr ⟨⟨nofun, nofun⟩, ?_⟩
    refine Ensures.run_bind_iff.mpr <| (ensures_control uses_deactivate).mono fun m₂ (ok, icc₂) hm₂ => ?_
    rw [Ensures.run_ite_iff]
    split
    case isTrue  => exact Ensures.run_pure_iff.mpr ⟨nofun, nofun⟩
    case isFalse =>
      have hw : m₂ = ⟨p % 65536, m.log ++ [.write (p % 65536) data]⟩ := hm₂
      refine Ensures.run_bind_iff.mpr <| ensures_readAt.mono fun m₃ (buffer, icc₃) hm₃ => ?_
      rw [Ensures.run_ite_iff]
      split
      case isTrue     => exact Ensures.run_pure_iff.mpr ⟨nofun, nofun⟩
      case isFalse hb =>
        have hok : buffer.ok := by simpa using hb
        refine Ensures.run_pure_iff.mpr ⟨buffer.data, ?_, ?_⟩
        case refine_1 => rw [decide_eq_true_iff, eq_comm]
        case refine_2 => rw [hm₃ hok, hw]; simp [attempts]

-- The attempts at one chunk.
def Tried (n : Nat) (m : WriteLog) (p : Nat) (data : List Byte) (m' : WriteLog) : IccSyncRet → Prop
  | .ok      => ∃ buffers, (∀ buffer ∈ buffers, buffer ≠ data) ∧
    m'.log = m.log ++ attempts (p % 65536) data (buffers ++ [data])
  | .roError => ∃ buffers, buffers.length = n ∧ (∀ buffer ∈ buffers, buffer ≠ data) ∧
    m'.log = m.log ++ attempts (p % 65536) data buffers
  | _        => True

theorem tried_writeRetrying (hn : 0 < n) :
    Ensures observe ((writeRetrying p data n).run icc) m fun m' r => Tried n m p data m' r.fst := by
  refine Ensures.run_iterateM (fun retries _ m' => retries < n ∧
    ∃ buffers, buffers.length = retries ∧ (∀ buffer ∈ buffers, buffer ≠ data) ∧
      m'.log = m.log ++ attempts (p % 65536) data buffers) ⟨hn, [], rfl, by simp, by simp [attempts]⟩ ?_
  rintro retries icc m₁ ⟨hlt, buffers, hl, hb, hm⟩
  refine Ensures.run_bind_iff.mpr <| attempted_writePage.mono ?_
  rintro m₂ ⟨ret | _ | _, icc₂⟩ ha
  case error =>
    refine Ensures.run_pure_iff.mpr ?_
    cases ret
    case ok      => exact absurd rfl ha.left
    case roError => exact absurd rfl ha.right
    all_goals trivial
  case ok.true =>
    obtain ⟨buffer, hs, he⟩ := ha
    cases hs.mp rfl
    exact Ensures.run_pure_iff.mpr ⟨buffers, hb, by rw [he, hm, attempts_append, List.append_assoc]⟩
  case ok.false =>
    obtain ⟨buffer, hs, he⟩ := ha
    have hlog : m₂.log = m.log ++ attempts (p % 65536) data (buffers ++ [buffer]) := by
      rw [he, hm, attempts_append, List.append_assoc]
    have hne : ∀ b ∈ buffers ++ [buffer], b ≠ data := by
      intro b hmem
      cases List.mem_append.mp hmem
      case inl hmem => exact hb b hmem
      case inr hmem =>
        cases List.mem_singleton.mp hmem
        exact fun he => absurd (hs.mpr he) Bool.false_ne_true
    rw [Ensures.run_ite_iff]
    split
    case isTrue hlt'  => exact Ensures.run_pure_iff.mpr ⟨hlt', _, by simp [hl], hne, hlog⟩
    case isFalse hlt' =>
      have hl' : (buffers ++ [buffer]).length = n := by rw [List.length_append, List.length_singleton]; omega
      exact Ensures.run_pure_iff.mpr ⟨_, hl', hne, hlog⟩

theorem maxRetries_pos {length : Nat} : 0 < icc.maxRetries length := by
  rw [maxRetries]
  split <;> decide

theorem ensures_outcome {address : Nat} :
    Ensures observe ((write address data).run icc) .start fun m' r =>
      Outcome (icc.maxRetries data.length) (address % 65536) data m'.log r.fst := by
  refine Ensures.run_get_bind_iff.mpr ?_
  generalize address % 65536 = a
  -- What has been written was verified, but for the addresses.
  refine Ensures.run_iterateM (fun written _ m' => written ≤ data.length ∧
    ∃ blocks, Verified a blocks (data.take written) ∧ m'.log = blocks.map (wrap 65536)) ⟨Nat.zero_le _, [], .nil, rfl⟩ ?_
  intro written icc₁ m₁ ⟨hw, blocks, hv, hm₁⟩
  rw [Ensures.run_ite_iff]
  split
  case isTrue hlt =>
    refine Ensures.run_get_bind_iff.mpr ?_
    have hpos : 0 < icc₁.toWrite (a + written) (data.length - written) := toWrite_pos (by omega)
    have hle : icc₁.toWrite (a + written) (data.length - written) ≤ min 256 (data.length - written) :=
      Nat.min_le_left _ _
    generalize icc₁.toWrite (a + written) (data.length - written) = n at hpos hle
    have hl : ((data.drop written).take n).length = n := by simp only [List.length_take, List.length_drop]; omega
    have hc : (data.drop written).take n ≠ [] := List.ne_nil_of_length_pos (by rwa [hl])
    have ha : a + (data.take written).length = a + written := by rw [List.length_take_of_le hw]
    refine Ensures.run_bind_iff.mpr <| (tried_writeRetrying maxRetries_pos).mono fun m₂ (ret, icc₂) ht => ?_
    rw [Ensures.run_ite_iff]
    split
    case isTrue hr  =>
      refine Ensures.run_pure_iff.mpr ?_
      cases ret
      case ok      => contradiction
      case roError =>
        have ⟨buffers, hl', hb, hm⟩ := ht
        have hd : data.take written ++ (data.drop written).take n ++ (data.drop written).drop n = data := by
          rw [List.append_assoc, List.take_append_drop, List.take_append_drop]
        have hrefused : Refused _ a (data.take written ++ (data.drop written).take n ++ (data.drop written).drop n) _ :=
          .intro hv hc hl' hb
        rw [hd, ha] at hrefused
        exact ⟨_, hrefused, by rw [hm, hm₁, List.map_append, map_wrap_attempts]⟩
      all_goals trivial
    case isFalse hr =>
      cases Decidable.not_not.mp hr
      have ⟨buffers, hb, hm⟩ := ht
      have hv' := hv.append_chunk hc hb
      rw [ha, ← List.take_add] at hv'
      exact Ensures.run_pure_iff.mpr ⟨by omega, _, hv', by rw [hm, hm₁, List.map_append, map_wrap_attempts]⟩
  case isFalse hlt =>
    rw [List.take_of_length_le (Nat.le_of_not_lt hlt)] at hv
    refine Ensures.run_pure_iff.mpr fun hs => ?_
    rw [hm₁, hv.map_wrap hs]
    exact ⟨hv, fun i hi => hv.lastRead hi⟩

-- The loop over the attempts as the source has it: a counter is incremented after a mismatch, if the loop was not
-- left before, and it is compared with its limit after the loop.
section

variable {retries : Nat}

def counted (n retries : Nat) : Except IccSyncRet Bool → Nat ⊕ Except IccSyncRet Nat
  | .error ret => .inr (.error ret)
  | .ok true   => .inr (.ok retries)
  | .ok false  => if retries + 1 < n then .inl (retries + 1) else .inr (.ok (retries + 1))

def countRetries (address : Nat) (data : List Byte) (n retries : Nat) : IccSyncM (Except IccSyncRet Nat) :=
  iterateM (fun retries => do return counted n retries (← writePage address data)) retries

def judged (n : Nat) : Except IccSyncRet Nat → IccSyncRet
  | .error ret  => ret
  | .ok retries => if retries = n then .roError else .ok

def retried (n retries : Nat) : Except IccSyncRet Bool → Nat ⊕ IccSyncRet
  | .error ret => .inr ret
  | .ok true   => .inr .ok
  | .ok false  => if retries + 1 < n then .inl (retries + 1) else .inr .roError

-- The counter cannot reach the limit on a late success.
theorem map_counted (h : retries < n) (same : Except IccSyncRet Bool) :
    (counted n retries same).map id (judged n) = retried n retries same := by
  match same with
  | .error ret => rfl
  | .ok true   => simp [counted, judged, retried, Nat.ne_of_lt h]
  | .ok false  =>
    simp only [counted, retried]
    split
    case isTrue      => rfl
    case isFalse hlt =>
      have : retries + 1 = n := by omega
      simp [judged, this]

variable {t : Trace Call} {r : IccSyncRet × IccSync}

theorem run_counted_iff {x : Nat ⊕ Except IccSyncRet Nat} {icc' : IccSync} :
    Run ((do return counted n retries (← writePage p data) : IccSyncM _).run icc) t (x, icc') ↔
      ∃ same, Run ((writePage p data).run icc) t (same, icc') ∧ x = counted n retries same :=
  Run.run_bind_pure_iff fun _ => rfl

theorem run_retry_iff {x : Nat ⊕ IccSyncRet} {icc' : IccSync} :
    Run ((retry p data n retries).run icc) t (x, icc') ↔
      ∃ same, Run ((writePage p data).run icc) t (same, icc') ∧ x = retried n retries same := by
  refine Run.run_bind_pure_iff fun same => ?_
  rcases same with _ | _ | _
  case error    => rfl
  case ok.true  => rfl
  case ok.false =>
    simp only [retried]
    split <;> rfl

theorem eq_of_counted {retries' : Nat} {same : Except IccSyncRet Bool} (h : counted n retries same = .inl retries') :
    retries' = retries + 1 ∧ retries + 1 < n := by
  match same with
  | .error _  => cases h
  | .ok true  => cases h
  | .ok false =>
    simp only [counted] at h
    split at h
    case isTrue hlt => exact ⟨(Sum.inl.inj h).symm, hlt⟩
    case isFalse    => cases h

-- The test of the counter finds out how the loop was left.
theorem run_judged_iff (h : retries < n) :
    Run ((iterateM (retry p data n) retries).run icc) t r ↔
      ∃ x, Run ((countRetries p data n retries).run icc) t (x, r.snd) ∧ r.fst = judged n x := by
  induction hk : n - retries generalizing retries icc t
  case zero      => omega
  case succ k hi =>
    rw [Run.run_iterateM_iff]
    constructor
    case mp =>
      rintro (hb | ⟨t₁, x', icc', t₂, hb, hl, rfl⟩)
      case inl =>
        have ⟨same, hw, hx⟩ := run_retry_iff.mp hb
        rw [← map_counted h] at hx
        cases hc : counted n retries same <;> rw [hc] at hx
        case inl   => cases hx
        case inr x =>
          exact ⟨x, Run.run_iterateM_iff.mpr <| .inl <| run_counted_iff.mpr ⟨same, hw, hc.symm⟩, Sum.inr.inj hx⟩
      case inr =>
        have ⟨same, hw, hx⟩ := run_retry_iff.mp hb
        rw [← map_counted h] at hx
        cases hc : counted n retries same <;> rw [hc] at hx
        case inr => cases hx
        case inl =>
          cases hx
          have ⟨he, hlt⟩ := eq_of_counted hc
          cases he
          have ⟨x, hr, hx⟩ := (hi hlt (by omega)).mp hl
          have hb' := run_counted_iff.mpr ⟨same, hw, hc.symm⟩
          exact ⟨x, Run.run_iterateM_iff.mpr <| .inr ⟨t₁, _, icc', t₂, hb', hr, rfl⟩, hx⟩
    case mpr =>
      intro ⟨x, hr, hx⟩
      cases Run.run_iterateM_iff.mp hr
      case inl hb =>
        have ⟨same, hw, hc⟩ := run_counted_iff.mp hb
        refine .inl <| run_retry_iff.mpr ⟨same, hw, ?_⟩
        rw [← map_counted h, ← hc, hx]
        rfl
      case inr hb =>
        obtain ⟨t₁, retries', icc', t₂, hb, hl, rfl⟩ := hb
        have ⟨same, hw, hc⟩ := run_counted_iff.mp hb
        have ⟨he, hlt⟩ := eq_of_counted hc.symm
        cases he
        refine .inr ⟨t₁, _, icc', t₂, run_retry_iff.mpr ⟨same, hw, ?_⟩, (hi hlt (by omega)).mpr ⟨x, hl, hx⟩, rfl⟩
        rw [← map_counted h, ← hc]
        rfl

theorem run_writeRetrying_iff (hn : 0 < n) : Run ((writeRetrying p data n).run icc) t r ↔
    Run ((do return judged n (← countRetries p data n 0) : IccSyncM IccSyncRet).run icc) t r :=
  (run_judged_iff hn).trans (Run.run_bind_pure_iff fun _ => rfl).symm

end

-- A write that succeeds and does not leave the addresses was read back as it was written, and one that finds the memory
-- to be read-only has tried as often as it may.
theorem write_outcome {address : Nat} {t : Trace Call} {ret : IccSyncRet} {icc' : IccSync}
    (hr : Run ((write address data).run icc) t (ret, icc')) :
    Outcome (if 1 < data.length ∧ icc.type.isI2C then 2 else 1) (address % 65536) data (WriteLog.after t).log ret :=
  ensures_outcome t _ hr

-- An I2C card whose first three bytes cannot be written.
def readOnly : Handler Call I2cCard
  | _, .writeBuffer ifd data, card =>
    if card.address < 3 then (true, card) else I2cCard.handler 256 (.writeBuffer ifd data) card
  | _, call, card                  => I2cCard.handler 256 call card

theorem write_outcome_readOnly :
    (∃ t icc', Run ((write 0 [0xAA, 0xBB]).run (afterReset ⟨1, 0x64, 0⟩ none)) t (.roError, icc') ∧
      ∃ blocks, Refused 2 0 [0xAA, 0xBB] blocks ∧ (WriteLog.after t).log = blocks.map (wrap 65536)) ∧
    ∃ t icc', Run ((write 0x00FF [0xAA, 0xBB]).run (afterReset ⟨1, 0x64, 0⟩ none)) t (.ok, icc') ∧
      Verified 0x00FF (WriteLog.after t).log [0xAA, 0xBB] := by
  constructor
  case left =>
    have he : (eval readOnly 10 ((write 0 [0xAA, 0xBB]).run (afterReset ⟨1, 0x64, 0⟩ none)) ⟨fun _ => 0xFF, 0⟩).any
        fun (r, _) => r.fst = .roError := by
      decide +kernel
    rw [Option.any_eq_true] at he
    have ⟨((ret, icc'), _), he, hret⟩ := he
    cases of_decide_eq_true hret
    have ⟨t, hr, _⟩ := eval_yields he
    exact ⟨t, icc', hr, write_outcome hr⟩
  case right =>
    have he : (eval readOnly 10 ((write 0x00FF [0xAA, 0xBB]).run (afterReset ⟨1, 0x64, 0⟩ none)) ⟨fun _ => 0xFF, 0⟩).any
        fun (r, _) => r.fst = .ok := by
      decide +kernel
    rw [Option.any_eq_true] at he
    have ⟨((ret, icc'), _), he, hret⟩ := he
    cases of_decide_eq_true hret
    have ⟨t, hr, _⟩ := eval_yields he
    exact ⟨t, icc', hr, (write_outcome hr (by decide)).left⟩

-- The second byte of a write to the last address goes to the first one.
theorem write_wraps : ∃ t icc', Run ((write 0xFFFF [0xAA, 0xBB]).run (afterReset ⟨1, 0x64, 0⟩ none)) t (.ok, icc') ∧
    ¬Verified 0xFFFF (WriteLog.after t).log [0xAA, 0xBB] := by
  have he : (eval (Handler.watch (I2cCard.handler 256) WriteLog.observe) 10
      ((write 0xFFFF [0xAA, 0xBB]).run (afterReset ⟨1, 0x64, 0⟩ none)) (⟨fun _ => 0xFF, 0⟩, .start)).any
        fun (r, _, m) => r.fst = .ok ∧ lastRead m.log 0x10000 = none := by
    decide +kernel
  rw [Option.any_eq_true] at he
  have ⟨((ret, icc'), card, m), he, hret⟩ := he
  obtain ⟨hok, hl⟩ := of_decide_eq_true hret
  cases hok
  obtain ⟨t, hr, hf⟩ := eval_yields he
  have hm : m = WriteLog.after t := follows_watch hf
  refine ⟨t, icc', hr, fun hv => ?_⟩
  have hlast := @Verified.lastRead Byte 0xFFFF 1 _ _ hv (by decide)
  rw [← hm, hl] at hlast
  cases hlast

end IccSync
end Towitoko
