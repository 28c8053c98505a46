import Towitoko.Driver.Theorems.Tpdu

namespace Towitoko

open Interaction

namespace Tpdu

open ProtocolT0 (Reply Answered TpduExchange envelope)

-- How many bytes of the command have been sent in envelopes.
def sent (xs : List Exchange) : Nat :=
  (xs.flatMap (·.slice)).length

-- The exchanges `xs` send the bytes in `raw` in envelopes, until the card does not take one, and `r` is
-- what it says to the last one.
structure Segmentation (cmd : ApduCmd) (raw : List Byte) (xs : List Exchange) (r : Reply) : Prop where
  header : ∀ x ∈ xs, x.tpdu.raw = [cmd.cla, 0xC2, 0x00, 0x00, BitVec.ofNat 8 x.slice.length] ++ x.slice
  slices : xs.flatMap (·.slice) <+: raw
  size   : ∀ x ∈ xs, 1 ≤ x.slice.length ∧ x.slice.length ≤ 255
  full   : ∀ x ∈ xs.dropLast, x.slice.length = 255
  goesOn : ∀ ys x zs, xs = ys ++ x :: zs → (zs ≠ [] ↔ x.Accepted ∧ sent (ys ++ [x]) < raw.length)
  answer : ∃ ys x, xs = ys ++ [x] ∧ r.fst = x.reply.fst ∧ (r.fst = .ok → r = x.reply)

variable {cmd : ApduCmd} {raw : List Byte} {x : Exchange} {xs : List Exchange} {r : Reply}

theorem sent_cons : sent (x :: xs) = x.slice.length + sent xs := by
  simp [sent]

namespace Segmentation

theorem ne_nil (h : Segmentation cmd raw xs r) : xs ≠ [] := by
  have ⟨ys, x, hx, _⟩ := h.answer
  simp [hx]

-- All of the command is sent if the card takes what is sent before the end.
theorem whole (h : Segmentation cmd raw xs r)
    (ha : ∀ ys x zs, xs = ys ++ x :: zs → sent (ys ++ [x]) < raw.length → x.Accepted) : xs.flatMap (·.slice) = raw := by
  have ⟨ys, x, hx, _⟩ := h.answer
  refine h.slices.eq_of_length_le <| Nat.le_of_not_lt fun hl => ?_
  rw [hx] at hl
  have := h.goesOn ys x [] hx |>.mpr ⟨ha ys x [] hx hl, hl⟩
  contradiction

-- The last envelope, with which the command has been sent or which the card does not take.
theorem last (hh : x.tpdu.raw = [cmd.cla, 0xC2, 0x00, 0x00, BitVec.ofNat 8 x.slice.length] ++ x.slice)
    (hs : x.slice = raw.take 255) (hn : raw ≠ []) (ha : ¬(x.Accepted ∧ x.slice.length < raw.length))
    (hr : r.fst = x.reply.fst) (hok : r.fst = .ok → r = x.reply) : Segmentation cmd raw [x] r where
  header := by simpa using hh
  slices := by simpa [hs] using List.take_prefix 255 raw
  size   := by
    have := List.length_pos_iff.mpr hn
    simp only [List.mem_singleton, forall_eq, hs, List.length_take]
    omega
  full   := nofun
  goesOn := by
    intro ys y zs he
    cases ys
    case nil =>
      cases he
      simpa [sent] using ha
    case cons => simp at he
  answer := ⟨[], x, rfl, hr, hok⟩

-- An envelope that the card takes before the end.
theorem next (hh : x.tpdu.raw = [cmd.cla, 0xC2, 0x00, 0x00, BitVec.ofNat 8 x.slice.length] ++ x.slice)
    (hs : x.slice = raw.take 255) (hl : 255 < raw.length) (ha : x.Accepted)
    (h : Segmentation cmd (raw.drop 255) xs r) : Segmentation cmd raw (x :: xs) r where
  header := List.forall_mem_cons.mpr ⟨hh, h.header⟩
  slices := by
    rw [List.flatMap_cons, hs]
    conv => rhs; rw [← List.take_append_drop 255 raw]
    exact List.prefix_append_right_inj _ |>.mpr h.slices
  size   := by
    refine List.forall_mem_cons.mpr ⟨?_, h.size⟩
    rw [hs, List.length_take]
    omega
  full   := by
    rw [List.dropLast_cons_of_ne_nil h.ne_nil]
    refine List.forall_mem_cons.mpr ⟨?_, h.full⟩
    rw [hs, List.length_take]
    omega
  goesOn := by
    have hx : x.slice.length = 255 := by rw [hs, List.length_take]; omega
    intro ys y zs he
    cases ys
    case nil =>
      cases he
      refine iff_of_true h.ne_nil ⟨ha, ?_⟩
      simpa [sent, hx] using hl
    case cons x' ys =>
      cases he
      rw [h.goesOn ys y zs rfl, List.cons_append, sent_cons, hx, List.length_drop]
      exact and_congr_right' (by omega)
  answer := by
    have ⟨ys, y, hy, hr⟩ := h.answer
    exact ⟨x :: ys, y, by rw [hy, List.cons_append], hr⟩

end Segmentation

theorem envelope_size {i : Nat} :
    (cmd.raw.drop i).take (min 255 (cmd.rawLen - i)) = (cmd.raw.drop i).take 255 := by
  rw [List.take_eq_take_iff, List.length_drop]
  simp only [ApduCmd.rawLen, ApduCmd.raw]
  omega

theorem envelope_slice {i : Nat} (h : x.tpdu.raw = envelope cmd i (min 255 (cmd.rawLen - i))) :
    x.slice = (cmd.raw.drop i).take 255 := by
  have hd : x.slice = (cmd.raw.drop i).take (min 255 (cmd.rawLen - i)) := by rw [Exchange.slice, h]; rfl
  rw [hd, envelope_size]

theorem envelope_fits {i : Nat} :
    apduMinCmdSize ≤ (envelope cmd i (min 255 (cmd.rawLen - i))).length ∧
      (envelope cmd i (min 255 (cmd.rawLen - i))).length ≤ apduMaxCmdSize := by
  simp only [envelope, List.length_append, List.length_take, List.length_cons, List.length_nil, apduMinCmdSize,
    apduMaxCmdSize]
  omega

-- One round of the loop.
theorem run_envelopesBody {i : Nat} {s : Trace TpduCall} {next : Nat ⊕ Reply} (hi : i < cmd.rawLen)
    (hr : Run (envelopesBody cmd i) s next) :
    ∃ x : Exchange, s = [x.event] ∧
      x.tpdu.raw = [cmd.cla, 0xC2, 0x00, 0x00, BitVec.ofNat 8 x.slice.length] ++ x.slice ∧
      x.slice = (cmd.raw.drop i).take 255 ∧
      ((next = .inl (i + 255) ∧ x.Accepted ∧ 255 < (cmd.raw.drop i).length) ∨
        ∃ r, next = .inr r ∧ ¬(x.Accepted ∧ x.slice.length < (cmd.raw.drop i).length) ∧ r.fst = x.reply.fst ∧
          (r.fst = .ok → r = x.reply)) := by
  have hd : (cmd.raw.drop i).length = cmd.rawLen - i := List.length_drop
  obtain ⟨s₁, res, s₂, h₁, h₂, ht⟩ := hr
  obtain ⟨x, hx, hraw, h⟩ := run_exchange envelope_fits.left envelope_fits.right h₁
  have hs := envelope_slice hraw
  have hl : x.slice.length = min 255 (cmd.rawLen - i) := by rw [hs, List.length_take, hd]
  have hh : x.tpdu.raw = [cmd.cla, 0xC2, 0x00, 0x00, BitVec.ofNat 8 x.slice.length] ++ x.slice := by
    rw [hraw, hl, hs, envelope, envelope_size]
  obtain ⟨rsp, hres, hrep⟩ | ⟨ret, hres, hrep, hne⟩ := h
  case inl =>
    have ha : x.Accepted ↔ rsp.sw1 = 0x90 := by simp [Exchange.Accepted, hrep]
    rw [hres] at h₂
    simp only at h₂
    split at h₂
    case isTrue hc =>
      obtain ⟨rfl, rfl⟩ := h₂
      refine ⟨x, by simpa [hx] using ht, hh, hs, .inl ⟨?_, ha.mpr hc.left, by omega⟩⟩
      rw [Nat.min_eq_left (by omega)]
    case isFalse hc =>
      obtain ⟨rfl, rfl⟩ := h₂
      refine ⟨x, by simpa [hx] using ht, hh, hs, .inr ⟨_, rfl, ?_, by rw [hrep], fun _ => hrep.symm⟩⟩
      rw [ha, hl, hd]
      exact fun h => hc (h.imp_right fun h => by omega)
  case inr =>
    have ha : ¬x.Accepted := by
      rintro ⟨_, h, _⟩
      rw [h] at hrep
      exact hne hrep.symm
    rw [hres] at h₂
    obtain ⟨rfl, rfl⟩ := h₂
    exact ⟨x, by simpa [hx] using ht, hh, hs, .inr ⟨_, rfl, fun h => ha h.left, hrep.symm, fun h => absurd h hne⟩⟩

theorem run_envelopes {i : Nat} {s : Trace TpduCall} (hi : i < cmd.rawLen) (hr : Run (envelopes cmd i) s r) :
    ∃ xs : List Exchange, s = xs.map Exchange.event ∧ Segmentation cmd (cmd.raw.drop i) xs r := by
  replace hr : Loop (fun i => Run (envelopesBody cmd i)) i s r := hr
  have hn {i : Nat} (hi : i < cmd.rawLen) : cmd.raw.drop i ≠ [] := by
    simpa [ApduCmd.rawLen, ApduCmd.raw] using hi
  induction hr
  case done hr =>
    obtain ⟨x, hx, hh, hs, h⟩ := run_envelopesBody hi hr
    obtain ⟨h, _⟩ | ⟨_, h, ha, hr, hok⟩ := h
    case inl => contradiction
    case inr =>
      cases h
      exact ⟨[x], hx, .last hh hs (hn hi) ha hr hok⟩
  case next hr _ ih =>
    obtain ⟨x, hx, hh, hs, h⟩ := run_envelopesBody hi hr
    obtain ⟨h, ha, hl⟩ | ⟨_, h, _⟩ := h
    case inl =>
      cases h
      rw [List.length_drop, ApduCmd.raw, ← ApduCmd.rawLen] at hl
      obtain ⟨xs, hxs, hseg⟩ := ih (by omega)
      rw [← List.drop_drop] at hseg
      refine ⟨x :: xs, by rw [hx, hxs]; rfl, .next hh hs ?_ ha hseg⟩
      rwa [List.length_drop]
    case inr => contradiction

-- The loop is left, whatever the card answers.
theorem halts_envelopes {answers : Nat → Reply} {i n : Nat} (ha : ∀ n, Answered (answers n)) (hi : i < cmd.rawLen) :
    Halts (answering answers) (envelopes cmd i) n := by
  refine Reaches.loop (fun i _ => i < cmd.rawLen) (fun i _ => cmd.rawLen - i) ?_ hi
  intro i n hi
  have hf := @envelope_fits cmd i
  have ⟨r, hy⟩ := yields_exchange hf.left hf.right (ha n)
  refine Reaches.bind_of_yields hy ?_
  cases r
  case inl => exact Reaches.pure trivial
  case inr rsp =>
    simp only
    split
    case isTrue hc =>
      refine Reaches.pure ⟨by omega, ?_⟩
      have : 0 < min 255 (cmd.rawLen - i) := by omega
      omega
    case isFalse => exact Reaches.pure trivial

end Tpdu

-- A long command is cut into envelopes, and the loop that sends them ends.
theorem ProtocolT0.case2E_segments {icc : IccAsync} {cmd : ApduCmd} (hl : 256 ≤ cmd.lc) :
    (∀ answers : Nat → Reply, (∀ n, Answered (answers n)) → Halts (Tpdu.answering answers) (Tpdu.case2E cmd) 0) ∧
    ∀ t r, Run (case2E icc cmd) t r →
      ∃ xs : List Exchange, Run (Tpdu.case2E cmd) (xs.map Exchange.event) r ∧
        Realizes (Tpdu.layer icc) (xs.map Exchange.event) t ∧
        Tpdu.Segmentation cmd cmd.raw xs r ∧
        ((∀ ys x zs, xs = ys ++ x :: zs → Tpdu.sent (ys ++ [x]) < cmd.rawLen → x.Accepted) →
          xs.flatMap (·.slice) = cmd.raw) := by
  have he : Tpdu.case2E cmd = Tpdu.envelopes cmd 0 := by
    rw [Tpdu.case2E, TpduExchange.case2E, if_neg (Nat.not_lt.mpr hl)]
  have hp : 0 < cmd.rawLen := Nat.lt_of_lt_of_le (by decide) cmd.min_le
  constructor
  case left =>
    intro answers ha
    rw [he]
    exact Tpdu.halts_envelopes ha hp
  case right =>
    intro t r hr
    rw [← Tpdu.interp_case2E, he] at hr
    obtain ⟨s, hr, ht⟩ := run_interp_iff.mp hr
    obtain ⟨xs, hs, hseg⟩ := Tpdu.run_envelopes hp hr
    rw [hs] at hr ht
    exact ⟨xs, by rwa [he], ht, hseg, hseg.whole⟩

-- UPDATE BINARY of 256 bytes, which take two envelopes.
def ProtocolT0.updateBinary256 : ApduCmd :=
  ⟨[0x00, 0xD6, 0x00, 0x00, 0x00, 0x01, 0x00] ++ List.replicate 256 0xAA, by decide +kernel, by decide +kernel⟩

theorem ProtocolT0.case2E_segments_updateBinary256 : ∃ cmd : ApduCmd, cmd = updateBinary256 ∧ 256 ≤ cmd.lc ∧
    Halts (Tpdu.answering fun _ => (.ok, some (.status 0x90 0x00))) (Tpdu.case2E cmd) 0 ∧
    ∀ t r, Run (case2E .sample cmd) t r → ∃ xs, Tpdu.Segmentation cmd cmd.raw xs r := by
  have hl : 256 ≤ updateBinary256.lc := by decide +kernel
  generalize hc : updateBinary256 = cmd at hl
  have h := @case2E_segments .sample cmd hl
  refine ⟨cmd, rfl, hl, h.left _ fun _ => Answered.some, fun t r hr => ?_⟩
  have ⟨xs, _, _, hs, _⟩ := h.right t r hr
  exact ⟨xs, hs⟩

end Towitoko
