import Towitoko.Driver.Theorems.LineTraffic
import Towitoko.Driver.Theorems.PinAttempts

-- `ICC_Sync_EnterPin` over the serial port, whatever the system calls answer.
namespace Towitoko

open Interaction IfdTowitoko LineScript

variable {icc icc' : IccSync} {pin : Pin} {t : Trace Call} {x : List LineTransfer} {xs : List (List LineTransfer)}
  {ok : Bool} {trials newTrials : Nat}

-- A trial is lost with the counter that is written before the PIN is sent.
theorem numTrials_counter (h : 0 < trials) :
    numTrials (counter2W trials) < trials ∧ numTrials (counter3W trials) < trials := by
  have hlt {n : Nat} {b : Byte} (ht : trials = n) (hb : numTrials b < n) : numTrials b < trials := ht ▸ hb
  rw [counter2W, counter3W]
  constructor
  case left =>
    split_ifs with h3 h2
    · exact hlt h3 (by decide)
    · exact hlt h2 (by decide)
    · exact h
  case right =>
    split_ifs with h8 h7 h6 h5 h4 h3 h2
    · exact hlt h8 (by decide)
    · exact hlt h7 (by decide)
    · exact hlt h6 (by decide)
    · exact hlt h5 (by decide)
    · exact hlt h4 (by decide)
    · exact hlt h3 (by decide)
    · exact hlt h2 (by decide)
    · exact h

namespace IccSync

-- The activation is a command of its own, if there is one.
theorem activation_of_run (hr : Run (activate.run icc) t (ok, icc')) :
    icc'.type = icc.type ∧ icc'.ifd = icc.ifd ∧
      if icc.active then ok = true ∧ t = [] else t = [⟨.activateICC icc.ifd, ok⟩] := by
  rw [activate, Run.run_get_bind_iff, Run.run_ite_iff] at hr
  split at hr
  case isFalse ha =>
    obtain ⟨rfl, h⟩ := Run.run_pure_iff.mp hr
    cases h
    exact ⟨rfl, rfl, by simpa using ha⟩
  case isTrue ha =>
    have ha : icc.active = false := by simpa using ha
    obtain ⟨t₁, done, t₂, rfl, h, rfl⟩ := Run.run_lift_bind_iff.mp hr
    cases done
    case false =>
      obtain ⟨rfl, he⟩ := Run.run_pure_iff.mp h
      obtain ⟨rfl, rfl⟩ := Prod.mk.inj he
      exact ⟨rfl, rfl, by simp [ha]⟩
    case true =>
      replace h := Run.run_set_bind_iff.mp h
      obtain ⟨rfl, he⟩ := Run.run_pure_iff.mp h
      obtain ⟨rfl, rfl⟩ := Prod.mk.inj he
      exact ⟨rfl, rfl, by simp [ha]⟩

theorem conducts_activation (hr : Run (activate.run icc) t (ok, icc')) (hs : List.Forall₂ Shows t xs) :
    Conducts (if icc.active then [] else activateICC) xs.flatten ok := by
  obtain ⟨-, -, h⟩ := activation_of_run hr
  split at h
  case isTrue ha =>
    obtain ⟨rfl, rfl⟩ := h
    rw [if_pos ha, List.forall₂_nil_left_iff.mp hs]
    exact .done
  case isFalse ha =>
    subst h
    obtain _ | ⟨hx, _ | _⟩ := hs
    rw [if_neg ha, List.flatten_singleton]
    exact hx

-- How `ICC_Sync_EnterPin` ends, if all of its commands have been conducted or not.
def outcome (icc : IccSync) (trials newTrials : Nat) (ok : Bool) : IccSyncRet :=
  if icc.type.isI2C then .ok
  else if !ok then .ifdError
  else if trials = 0 then .blockedError
  else if newTrials < trials then .pinError newTrials
  else .ok

theorem Attempt.conducts {r : IccSyncRet × IccSync} (ha : Attempt pin icc t r) (hs : List.Forall₂ Shows t xs)
    (hi : icc.type.isI2C = false) :
    ∃ trials newTrials ok, r.fst = icc.outcome trials newTrials ok ∧
      Conducts (counter trials icc.type ++
        if trials = 0 then [] else LineScript.enterPin pin trials icc.type ++ counter newTrials icc.type)
        xs.flatten ok := by
  have hcount {trials : Nat} {x : List LineTransfer} (h : Shows (counterRead icc (some trials)) x) :
      Conducts (counter trials icc.type) x true := by simpa [Shows, hi] using h
  have hnone {x : List LineTransfer} (h : Shows (counterRead icc none) x) (trials : Nat) :
      Conducts (counter trials icc.type) x false :=
    (show ∀ trials, Conducts (counter trials icc.type) x false by simpa [Shows, hi] using h) trials
  have hpin {trials : Nat} {ok : Bool} {x : List LineTransfer} (h : Shows (pinEntered icc pin trials ok) x) :
      Conducts (LineScript.enterPin pin trials icc.type) x ok := by simpa [Shows, hi] using h
  cases ha
  case unread =>
    obtain _ | ⟨hx, _ | _⟩ := hs
    rw [List.flatten_singleton]
    exact ⟨0, 0, false, by simp [outcome, hi], (hnone hx 0).append_stop⟩
  case blocked =>
    obtain _ | ⟨hx, _ | _⟩ := hs
    rw [List.flatten_singleton]
    exact ⟨0, 0, true, by simp [outcome, hi], by simpa using hcount hx⟩
  case failed trials h0 =>
    obtain _ | ⟨hx, _ | ⟨hy, _ | _⟩⟩ := hs
    rw [List.flatten_cons, List.flatten_singleton]
    refine ⟨trials, 0, false, by simp [outcome, hi], (hcount hx).append ?_⟩
    rw [if_neg h0]
    exact (hpin hy).append_stop
  case unknown trials h0 =>
    obtain _ | ⟨hx, _ | ⟨hy, _ | ⟨hz, _ | _⟩⟩⟩ := hs
    rw [List.flatten_cons, List.flatten_cons, List.flatten_singleton]
    refine ⟨trials, 0, false, by simp [outcome, hi], (hcount hx).append ?_⟩
    rw [if_neg h0]
    exact (hpin hy).append (hnone hz 0)
  case refused trials newTrials h0 hlt =>
    obtain _ | ⟨hx, _ | ⟨hy, _ | ⟨hz, _ | _⟩⟩⟩ := hs
    rw [List.flatten_cons, List.flatten_cons, List.flatten_singleton]
    refine ⟨trials, newTrials, true, by simp [outcome, hi, h0, hlt], (hcount hx).append ?_⟩
    rw [if_neg h0]
    exact (hpin hy).append (hcount hz)
  case accepted trials newTrials h0 hge =>
    obtain _ | ⟨hx, _ | ⟨hy, _ | ⟨hz, _ | _⟩⟩⟩ := hs
    rw [List.flatten_cons, List.flatten_cons, List.flatten_singleton]
    refine ⟨trials, newTrials, true, by simp [outcome, hi, h0, hge], (hcount hx).append ?_⟩
    rw [if_neg h0]
    exact (hpin hy).append (hcount hz)

-- A call of `ICC_Sync_EnterPin`, whatever the system calls answer. Nothing but its commands is on the line, one after the
-- other, the PIN is sent only if there is a trial left and after a counter with fewer trials has been written, and the
-- return code says how far it went.
theorem enterPin_onPort {scratch : Scratch} {io : IoSerial} :
    Emits onPort ((overSerial scratch ((IccSync.enterPin pin).run icc)).run io) fun x r =>
      ∃ trials newTrials ok, Conducts (verification icc pin trials newTrials) x ok ∧
        r.fst.fst = icc.outcome trials newTrials ok ∧
        (0 < trials → numTrials (counter2W trials) < trials ∧ numTrials (counter3W trials) < trials) := by
  refine (Emits.interpM IfdLayer.emits_ifdLayer _ io).mono ?_
  rintro _ ⟨r, io⟩ ⟨t, xs, hr, hs, rfl⟩
  rw [IccSync.enterPin, Run.run_get_bind_iff, Run.run_ite_iff] at hr
  split at hr
  case isTrue hi =>
    obtain ⟨rfl, rfl⟩ := Run.run_pure_iff.mp hr
    rw [List.forall₂_nil_left_iff.mp hs]
    exact ⟨0, 0, true, by simpa [verification, hi] using Conducts.done, by simp [outcome, hi], numTrials_counter⟩
  case isFalse hi =>
    have hi : icc.type.isI2C = false := Bool.not_eq_true _ ▸ hi
    obtain ⟨t₁, active, icc₁, t₂, ha, h₁, rfl⟩ := Run.run_bind_iff.mp hr
    have hx := List.forall₂_take_append xs t₁ t₂ hs.flip
    have hy := List.forall₂_drop_append xs t₁ t₂ hs.flip
    have hx := conducts_activation ha hx.flip
    rw [← List.take_append_drop t₁.length xs, List.flatten_append]
    cases active
    case false =>
      obtain ⟨rfl, rfl⟩ := Run.run_pure_iff.mp h₁
      rw [List.forall₂_nil_left_iff.mp hy.flip, List.flatten_nil, List.append_nil]
      refine ⟨0, 0, false, ?_, by simp [outcome, hi], numTrials_counter⟩
      rw [verification, if_neg (by simp [hi])]
      exact hx.append_stop
    case true =>
      obtain ⟨ht, -, -⟩ := activation_of_run ha
      obtain ⟨trials, newTrials, ok, ho, hc⟩ := (attempt_of_run h₁).conducts hy.flip (ht ▸ hi)
      rw [ht] at hc
      refine ⟨trials, newTrials, ok, ?_, ?_, numTrials_counter⟩
      · rw [verification, if_neg (by simp [hi])]
        exact hx.append hc
      · rw [ho, outcome, outcome, ht]

end IccSync
end Towitoko
