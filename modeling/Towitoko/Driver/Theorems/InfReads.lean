import Towitoko.Interaction.Along
import Towitoko.Driver.InfReads
import Towitoko.Driver.Theorems.T1Reassembly

-- Which bytes of the information field the handler for T=1 reads.
namespace Towitoko

open Interaction

namespace T1Block

variable {block : T1Block} {index n : Nat}

-- There is a byte with this index in the information field.
def HasInf (block : T1Block) (index : Nat) : Prop :=
  index < block.getLen.toNat ∧ ∃ inf, block.getInf = some inf ∧ index < inf.length

-- A request for more time says for how much.
def HasMultiplier (block : T1Block) : Prop :=
  block.getType = t1BlockSWtxReq → block.getLen ≠ 0

theorem getInf_of_isComplete (hb : block.isComplete) (h : 0 < block.getLen.toNat) :
    block.getInf = some (block.data.drop 3) ∧ (block.data.drop 3).length = block.getLen.toNat + 1 := by
  have hr := rawLen_of_isComplete hb
  rw [rawLen] at hr
  refine ⟨if_neg (by omega), ?_⟩
  rw [List.length_drop]
  omega

theorem getInf_ne_nil : block.getInf ≠ some [] := by
  intro h
  rw [getInf] at h
  split at h
  case isTrue    => cases h
  case isFalse hl =>
    rw [Option.some.injEq, List.drop_eq_nil_iff] at h
    omega

-- In a block of the length that it says, the information field is as long as it says.
theorem hasInf_iff (hb : block.isComplete) : block.HasInf index ↔ index < block.getLen.toNat := by
  constructor
  case mp  => exact fun h => h.left
  case mpr =>
    intro h
    obtain ⟨hi, hl⟩ := getInf_of_isComplete hb (Nat.zero_lt_of_lt h)
    exact ⟨h, _, hi, by omega⟩

theorem hasInf_zero_iff (hb : block.isComplete) : block.HasInf 0 ↔ block.getLen ≠ 0 := by
  rw [hasInf_iff hb, Nat.pos_iff_ne_zero, Ne, Ne, ← BitVec.toNat_inj]
  rfl

theorem access_driver {α : Type} (c : Call α) : access (.inr c) = .call c :=
  rfl

theorem interp_access {α : Type} {p : Prog Call α} : (Prog.inSum p : Prog InfCall α).interp access = p :=
  Prog.interp_inSum_self access_driver

theorem access_byte {inf : List Byte} (hi : block.getInf = some inf) (h : index < inf.length) :
    access (.inl (.byte block index)) = pure inf[index] := by
  simp only [access, hi, List.getElem?_eq_getElem h]

-- Copying what there is does nothing else.
theorem silent_copyInf {inf : List Byte} (hi : block.getInf = some inf) (h : index + n ≤ inf.length) :
    Silent ((copyInf block index n).interp access) ((inf.drop index).take n) := by
  induction n generalizing index
  case zero => exact .pure _
  case succ n ih =>
    have hl : index < inf.length := by omega
    have ha : access (.inl (.byte block index)) = pure inf[index] := access_byte hi hl
    rw [copyInf, readInf, Prog.interp_bind, Prog.interp_call, ha]
    refine .bind (.pure _) <| .bind (ih (by omega)) ?_
    rw [List.drop_eq_getElem_cons hl, List.take_succ_cons]
    exact .pure _

theorem silent_copyInf_zero (hb : block.isComplete) :
    Silent ((copyInf block 0 block.getLen.toNat).interp access) ((block.getInf.getD []).take block.getLen.toNat) := by
  by_cases h : 0 < block.getLen.toNat
  case pos =>
    obtain ⟨hi, hl⟩ := getInf_of_isComplete hb h
    have hs := @silent_copyInf block 0 block.getLen.toNat _ hi (by omega)
    rw [hi, Option.getD_some]
    rwa [List.drop_zero] at hs
  case neg =>
    have h : block.getLen.toNat = 0 := Nat.eq_zero_of_not_pos h
    rw [h, List.take_zero]
    exact .pure _

end T1Block

namespace ProtocolT1

variable {t1 : ProtocolT1} {icc : IccAsync} {cmd : ApduCmd} {block : T1Block} {s : Receiving} {t : Trace Call}

-- Copying the information field of a block that was received reads nothing that is not there.
theorem reading_carried : reading.Carried T1Block.access where
  driver _       := T1Block.interp_access
  handle _ _ _ _ := Run.pure_bind_iff
  copy _ _ _ hb  := (T1Block.silent_copyInf_zero hb).bind_iff
  first block next t r := by
    change Run (T1Block.access (.inl (.byte block 0)) >>= _) t r ↔ _
    rcases hi : block.getInf with _ | _ | ⟨wtx, inf⟩
    case none =>
      have ha : T1Block.access (.inl (.byte block 0)) = crash := by simp only [T1Block.access, hi]
      rw [ha]
      refine iff_of_false ?_ nofun
      rintro ⟨_, _, _, h, _⟩
      exact h
    case some.nil => exact absurd hi T1Block.getInf_ne_nil
    case some.cons =>
      have ha : T1Block.access (.inl (.byte block 0)) = pure wtx := T1Block.access_byte hi (Nat.succ_pos _)
      rw [ha]
      refine Run.pure_bind_iff.trans ⟨fun hr => ⟨wtx, inf, rfl, hr⟩, ?_⟩
      rintro ⟨_, _, hi', hr⟩
      obtain ⟨rfl, rfl⟩ := List.cons.inj <| Option.some.inj hi'
      exact hr

-- When the reads are carried out, the program is `Protocol_T1_Command`.
theorem run_commandReading_iff {r : Result} :
    Run ((commandReading t1 icc cmd).interp T1Block.access) t r ↔ Run (command t1 icc cmd) t r :=
  reading_carried.run_command_iff

-- What is read of an information field is there.
def readsExisting : {α : Type} → InfCall α → Prop
  | _, .inl (.byte block index) => block.HasInf index
  | _, _                        => True

-- A block that is received is no request for more time without a multiplier.
def asksProperly : {α : Type} → InfCall α → Prop
  | _, .inl (.received block) => block.HasMultiplier
  | _, _                      => True

-- In these surroundings the handler reads only what is there.
def ReadsExisting {E : Type} (h : Handler InfCall E) {α : Type} (p : Prog InfCall α) (e : E) : Prop :=
  Along h (fun c _ => readsExisting c) p e

-- In these surroundings the card does not ask for more time without a multiplier.
def AsksProperly {E : Type} (h : Handler InfCall E) {α : Type} (p : Prog InfCall α) (e : E) : Prop :=
  Along h (fun c _ => asksProperly c) p e

-- A call that shows no block.
def showsNothing : {α : Type} → InfCall α → Prop
  | _, .inl (.received _) => False
  | _, _                  => True

-- A call of the driver.
def isDriverCall : {α : Type} → InfCall α → Prop
  | _, .inl _ => False
  | _, .inr _ => True

section

variable {E α : Type} {h : Handler InfCall E} {e : E} {index n : Nat}

theorem uses_inSum (p : Prog Call α) : Uses isDriverCall (Prog.inSum p : Prog InfCall α) :=
  .inSum (fun _ => trivial) p

theorem reads_driver {p : Prog InfCall α} (hu : Uses isDriverCall p) : ReadsExisting h p e := by
  refine .of_uses hu fun c e hc => ?_
  cases c
  case inl => exact hc.elim
  case inr => trivial

theorem asks_of_uses {p : Prog InfCall α} (hu : Uses showsNothing p) : AsksProperly h p e := by
  refine .of_uses hu fun c e hc => ?_
  rcases c with c | _
  case inl =>
    cases c
    case received => exact hc.elim
    case byte     => trivial
  case inr => trivial

theorem showsNothing_of_isDriverCall (c : InfCall α) (hc : isDriverCall c) : showsNothing c := by
  cases c
  case inl => exact hc.elim
  case inr => trivial

theorem reads_copyInf (hb : block.isComplete) (hn : index + n ≤ block.getLen.toNat) :
    ReadsExisting h (copyInf block index n) e := by
  induction n generalizing index e
  case zero => trivial
  case succ n hi =>
    have hr : block.HasInf index := (T1Block.hasInf_iff hb).mpr (by omega)
    exact ⟨hr, fun _ _ _ => ⟨hi (by omega), fun _ _ _ => trivial⟩⟩

theorem uses_copyInf : Uses showsNothing (copyInf block index n) := by
  induction n generalizing index
  case zero    => trivial
  case succ hi => exact .bind trivial fun _ => .bind hi fun _ => trivial

-- All bytes of an I-block are there.
theorem reads_iBlock (hb : block.isComplete) : ReadsExisting h (reading.iBlock s block) e := by
  refine ⟨reads_copyInf hb (Nat.le_of_eq (Nat.zero_add _)), fun bytes e _ => reads_driver ?_⟩
  exact .ite trivial <| .bind (uses_inSum _) fun _ => trivial

theorem reads_wtxBlock_iff : ReadsExisting h (reading.wtxBlock s block) e ↔ block.HasInf 0 := by
  refine ⟨fun ha => ha.left, fun hi => ⟨hi, fun _ _ _ => reads_driver ?_⟩⟩
  exact .bind (uses_inSum _) fun _ => trivial

theorem reads_handleBlock_iff (hb : block.isComplete) :
    ReadsExisting h (reading.handleBlock s block) e ↔ block.HasMultiplier := by
  have hn : block.getType = t1BlockSWtxReq → block.getType ≠ t1BlockI := by
    intro ht
    rw [ht]
    decide
  constructor
  case mp =>
    intro ⟨_, ha⟩ ht
    have hr := ha _ _ (Yields.call_iff.mpr rfl)
    rw [if_neg (hn ht), if_pos ht] at hr
    exact (T1Block.hasInf_zero_iff hb).mp (reads_wtxBlock_iff.mp hr)
  case mpr =>
    refine fun hm => ⟨trivial, fun _ _ _ => ?_⟩
    split
    case isTrue  => exact reads_iBlock hb
    case isFalse =>
      split
      case isTrue ht => exact reads_wtxBlock_iff.mpr ((T1Block.hasInf_zero_iff hb).mpr (hm ht))
      case isFalse   => trivial

theorem asks_handleBlock_iff : AsksProperly h (reading.handleBlock s block) e ↔ block.HasMultiplier := by
  refine ⟨fun ha => ha.left, fun hm => ⟨hm, fun _ _ _ => asks_of_uses ?_⟩⟩
  have hs (p : Prog Call ProtocolT1Ret) (f : ProtocolT1Ret → Receiving) :
      Uses showsNothing (Prog.inSum p >>= fun ret => pure (f ret) : Prog InfCall Receiving) :=
    .bind ((uses_inSum p).mono showsNothing_of_isDriverCall) fun _ => trivial
  refine .ite ?_ <| .ite (.bind trivial fun _ => hs _ _) trivial
  exact .bind uses_copyInf fun _ => .ite trivial (hs _ _)

theorem reads_iff_asks {p : Prog Call α} :
    ReadsExisting h (Prog.inSum p : Prog InfCall α) e ↔ AsksProperly h (Prog.inSum p : Prog InfCall α) e :=
  iff_of_true (reads_driver (uses_inSum p)) (asks_of_uses <| (uses_inSum p).mono showsNothing_of_isDriverCall)

theorem along_receiveBody_iff :
    ReadsExisting h (reading.receiveBody t1 s) e ↔ AsksProperly h (reading.receiveBody t1 s) e := by
  rw [InfAccess.receiveBody]
  split
  case isTrue  => exact .rfl
  case isFalse =>
    refine Along.bind_congr reads_iff_asks fun b e₁ hy => ?_
    obtain ⟨ret, block, icc'⟩ := b
    dsimp only
    split
    case isTrue       => exact .rfl
    case isFalse hret =>
      obtain ⟨t, hr, -⟩ := hy
      obtain ⟨_, hr, -⟩ := run_interp_iff.mp hr
      obtain ⟨block, rfl, hb⟩ := complete_of_run hr (Decidable.not_not.mp hret)
      exact Along.bind_congr ((reads_handleBlock_iff hb).trans asks_handleBlock_iff.symm) fun _ _ _ => .rfl

theorem along_command_iff :
    ReadsExisting h (commandReading t1 icc cmd) e ↔ AsksProperly h (commandReading t1 icc cmd) e := by
  refine Along.bind_congr reads_iff_asks fun s e _ => ?_
  exact Along.bind_congr (Along.loop_congr fun _ _ => along_receiveBody_iff) fun _ _ _ => .rfl

end

-- In all surroundings, and also if the exchange does not end, every byte of an information field that is read exists
-- if and only if every request for more time has a multiplier.
theorem command_readsExisting_iff (t1 : ProtocolT1) (icc : IccAsync) (cmd : ApduCmd) :
    (∀ t r, Run ((commandReading t1 icc cmd).interp T1Block.access) t r ↔ Run (command t1 icc cmd) t r) ∧
    ∀ {E : Type} (h : Handler InfCall E) (e : E),
      ReadsExisting h (commandReading t1 icc cmd) e ↔ AsksProperly h (commandReading t1 icc cmd) e :=
  ⟨fun _ _ => run_commandReading_iff, fun _ _ => along_command_iff⟩

-- A card behind the port, and its blocks as they are read.
def readingPort : Handler InfCall Port
  | _, .inl (.received _), port        => ((), port)
  | _, .inl (.byte block index), port => ((block.getInf.getD []).getD index 0, port)
  | _, .inr c, port                    => Port.handler c port

def isThere : {α : Type} → InfCall α → Bool
  | _, .inl (.byte block index) => index < block.getLen.toNat
  | _, _                        => true

theorem isThere_of_readsExisting {α : Type} {c : InfCall α} (hc : readsExisting c) : isThere c = true := by
  rcases c with c | _
  case inl =>
    cases c
    case received => rfl
    case byte     => exact decide_eq_true hc.left
  case inr => rfl

-- The card asks for more time, and does not say for how much.
theorem not_command_readsExisting :
    ¬∀ t1 icc cmd {E : Type} (h : Handler InfCall E) (e : E), ReadsExisting h (commandReading t1 icc cmd) e := by
  intro h
  have hr := h sample sampleIcc readBinary1 (readingPort.watch (Ensures.all fun ev => isThere ev.call))
    (⟨[0x00, 0xC3, 0x00, 0xC3], []⟩, true)
  have he : (eval (readingPort.watch (Ensures.all fun ev => isThere ev.call)) 5 (commandReading sample sampleIcc readBinary1)
      (⟨[0x00, 0xC3, 0x00, 0xC3], []⟩, true)).any fun r => !r.snd.snd := by
    decide +kernel
  rw [Option.any_eq_true] at he
  obtain ⟨⟨r, port, b⟩, he, hb⟩ := he
  obtain ⟨t, ht, hf⟩ := eval_yields he
  have hall : (t.all fun ev => isThere ev.call) = true :=
    List.all_eq_true.mpr fun ev hev => isThere_of_readsExisting (Along.of_mem hr ht hf hev)
  have hw := follows_watch hf
  rw [Ensures.foldl_all, hall] at hw
  rw [hw] at hb
  cases hb

end ProtocolT1
end Towitoko
