import Towitoko.Iso7816.T1
import Towitoko.Driver.T1Block
import Towitoko.Driver.Theorems.Apdu

namespace Towitoko.T1Block

variable {block : T1Block} {buffer inf : List Byte} {pcb len : Byte} {ns : Nat} {more : Bool}

@[simp]
theorem new_raw : T1Block.new block.raw = some block := by
  have ⟨data, hm, hl⟩ := block
  simp [T1Block.new, raw, Nat.not_lt.mpr hm, List.take_of_length_le hl]

theorem new_eq_some (hm : 4 ≤ buffer.length) (hl : buffer.length ≤ t1BlockMaxSize) :
    T1Block.new buffer = some ⟨buffer, hm, hl⟩ :=
  @new_raw ⟨buffer, hm, hl⟩

-- Every block that the driver builds is closed by a correct LRC.
theorem build_lrc : Iso7816.T1.lrc (build pcb len inf).raw = 0 :=
  Iso7816.T1.lrc_concat_lrc

theorem build_getLen : (build pcb len inf).getLen = len := by
  simp [build, getLen, byte]

theorem build_rawLen (hl : len.toNat ≤ inf.length) : (build pcb len inf).rawLen = (build pcb len inf).getLen.toNat + 4 := by
  rw [build_getLen]
  simp [build, rawLen, hl]

theorem build_pcb : (build pcb len inf).byte 1 = pcb := by
  simp [build, byte]

theorem newIBlock_pcb (hn : ns < 2) :
    (newIBlock len inf ns more).getType = t1BlockI ∧ (newIBlock len inf ns more).getMore = more ∧
    (newIBlock len inf ns more).getNS.toNat = ns := by
  simp only [newIBlock, getType, getMore, getNS, build_pcb]
  revert hn
  cases more <;> match ns with
  | 0 | 1  => decide
  | _ + 2  => omega

end Towitoko.T1Block
