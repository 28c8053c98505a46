import Towitoko.Driver.Theorems.T1Medium

-- The protocol T=1 between the driver and a card: commands and responses are handed over as they are.
namespace Towitoko.ProtocolT1

open Interaction Iso7816.T1
open T1Peer (handler)

variable {A E : Type} {respond : A → List Byte → A × Chain} {c : Convention} {baudrate : Nat} {h : Handler Call E}
  {medium : Medium respond c baudrate h} {t1 : ProtocolT1} {icc : IccAsync} {cmd : ApduCmd} {card : Card A}
  {block : Block} {peer : T1Peer A} {e : E} {app : A} {own : Bool} {counter ifsc : Nat} {chain : Chain}

-- The number of the next block that the driver sends.
def expected (t1 : ProtocolT1) : Bool :=
  decide ((t1.ns + 1) % 2 = 1)

theorem expected_next : expected { t1 with ns := (t1.ns + 1) % 2 } = !t1.expected := by
  have h : t1.ns % 2 = 0 ∨ t1.ns % 2 = 1 := by omega
  have h1 : (t1.ns + 1) % 2 = 1 ↔ t1.ns % 2 = 0 := by omega
  have h2 : ((t1.ns + 1) % 2 + 1) % 2 = 1 ↔ ¬t1.ns % 2 = 0 := by omega
  simp only [expected, h1, h2, decide_not]

-- The card has taken in a part of the command and asks for more.
def collected (t1 : ProtocolT1) (c : Convention) (app : A) (own : Bool) (command : List Byte) : T1Peer A where
  card   := .collecting app t1.expected own command
  output := c.convert (Block.ack t1.expected).encode

-- The card has given the command to its application and begun to answer.
def answering (respond : A → List Byte → A × Chain) (t1 : ProtocolT1) (c : Convention) (app : A) (own : Bool)
    (command : List Byte) : T1Peer A :=
  let (app', chain) := respond app command
  let (card, block) := (Card.collecting app' t1.expected own []).send chain
  { card, output := c.convert block.encode }

theorem reaches_receiveBlock (hb : block.inf.length < 255) (hi : icc.Suits c baudrate)
    (he : medium.due ⟨card, c.convert block.encode⟩ e) :
    Reaches h (receiveBlock t1 icc) e fun r e' =>
      r.fst = .ok ∧ r.snd.fst = some (.ofBlock block hb) ∧ r.snd.snd.Suits c baudrate ∧ medium.idle ⟨card, []⟩ e' := by
  obtain ⟨r, e', hy, hr, hidle⟩ := @medium.receives t1 icc block card e hb hi he
  have ⟨t, hrun, _⟩ := hy
  have hsuits := @receiveBlock_suits t1 icc c baudrate Unit (fun _ _ => ()) () hi t r hrun
  exact .of_yields hy ⟨hr.left, hr.right, hsuits, hidle⟩

-- The part of the command up to the last segment has reached the card.
structure Delivered (medium : Medium respond c baudrate h) (ifsc : Nat) (cmd : ApduCmd) (app : A) (own : Bool)
    (s : Sending) (e : E) : Prop where
  ret   : s.ret = .ok
  suits : s.icc.Suits c baudrate
  limit : s.t1.ifsc = ifsc
  bytes : 0 < s.bytes.toNat ∧ s.counter + s.bytes.toNat ≤ cmd.rawLen
  more  : s.more = decide (s.counter + s.bytes.toNat < cmd.rawLen)
  card  : medium.due (if s.more then collected s.t1 c app own (cmd.raw.take (s.counter + s.bytes.toNat))
    else answering respond s.t1 c app own cmd.raw) e

theorem reaches_sendSegment (h0 : 0 < t1.ifsc) (h251 : t1.ifsc ≤ 251) (hlt : counter < cmd.rawLen)
    (hi : icc.Suits c baudrate) (he : medium.idle ⟨.collecting app t1.expected own (cmd.raw.take counter), []⟩ e) :
    Reaches h (sendSegment t1 icc cmd counter) e fun s e =>
      Delivered medium t1.ifsc cmd app own s e ∧ s.counter = counter := by
  have hb : (BitVec.ofNat 8 (min (cmd.rawLen - counter) t1.ifsc)).toNat = min (cmd.rawLen - counter) t1.ifsc := by
    rw [BitVec.toNat_ofNat]
    omega
  have hd : (cmd.raw.drop counter).length = cmd.rawLen - counter := List.length_drop
  have hns : (t1.ns + 1) % 2 < 2 := Nat.mod_lt _ Nat.two_pos
  have hx : (Block.i t1.expected (decide (cmd.rawLen - counter > t1.ifsc))
      ((cmd.raw.drop counter).take (min (cmd.rawLen - counter) t1.ifsc))).inf.length < 255 := by
    simp only [Block.inf, List.length_take, hd]
    omega
  have hraw := @T1Block.newIBlock_raw (BitVec.ofNat 8 (min (cmd.rawLen - counter) t1.ifsc)) (cmd.raw.drop counter) _
    (decide (cmd.rawLen - counter > t1.ifsc)) hns (by rw [hb, hd]; exact Nat.min_le_left _ _)
  rw [hb] at hraw
  refine .bind <| (medium.sends hi hraw hx he).mono fun ret e' hr => .pure ⟨⟨hr.left, hi, rfl, ?_, ?_, ?_⟩, rfl⟩
  case refine_1 => simp only [hb]; omega
  case refine_2 => simp only [hb, decide_eq_decide]; omega
  case refine_3 =>
    have hne : (!t1.expected) = expected { t1 with ns := (t1.ns + 1) % 2 } := expected_next.symm
    have hs : cmd.raw.take counter ++ (cmd.raw.drop counter).take (min (cmd.rawLen - counter) t1.ifsc) =
        cmd.raw.take (counter + min (cmd.rawLen - counter) t1.ifsc) := List.take_add.symm
    have hdue := hr.right
    change medium.due (T1Peer.react _ _ _ (Block.i t1.expected _ _).encode) _ at hdue
    rw [T1Peer.react_encode hx] at hdue
    by_cases hm : cmd.rawLen - counter > t1.ifsc
    case pos =>
      simp only [hm, decide_true, Card.receive_more, hs, hne] at hdue
      simp only [hm, decide_true, collected, if_true, hb]
      exact hdue
    case neg =>
      have hall : cmd.raw.length ≤ counter + min (cmd.rawLen - counter) t1.ifsc :=
        (by omega : cmd.rawLen ≤ counter + min (cmd.rawLen - counter) t1.ifsc)
      rw [List.take_of_length_le hall] at hs
      simp only [hm, decide_false, Card.receive_last, hs, hne] at hdue
      simp only [hm, decide_false, answering]
      exact hdue

-- The loop goes on while the card asks for more. Every segment that is sent makes the rest of the command shorter.
theorem reaches_sendCommand (h0 : 0 < t1.ifsc) (h251 : t1.ifsc ≤ 251) (hl : cmd.rawLen ≤ 65535)
    (hi : icc.Suits c baudrate) (he : medium.idle ⟨.collecting app t1.expected own [], []⟩ e) :
    Reaches h (sendCommand t1 icc cmd) e fun s e =>
      s.ret = .ok ∧ s.icc.Suits c baudrate ∧ s.t1.ifsc = t1.ifsc ∧
        medium.due (answering respond s.t1 c app own cmd.raw) e := by
  have hpos : 0 < cmd.rawLen := Nat.lt_of_lt_of_le (by decide) cmd.min_le
  refine .bind <| (reaches_sendSegment h0 h251 hpos hi he).mono fun s e hs => ?_
  refine .loop (Delivered medium t1.ifsc cmd app own) (fun s _ => cmd.rawLen - s.counter) ?_ hs.left
  intro s e hs
  rw [sendBody]
  have hcard := hs.card
  by_cases hm : s.more
  case neg =>
    rw [if_neg hm] at hcard
    rw [if_pos (by simp [hm])]
    exact .pure ⟨hs.ret, hs.suits, hs.limit, hcard⟩
  case pos =>
    rw [if_pos hm] at hcard
    rw [if_neg (by simp [hs.ret, hm])]
    have hbytes := hs.bytes
    have hlt : s.counter + s.bytes.toNat < cmd.rawLen := by simpa [hs.more] using hm
    have hu : ushort (s.counter + s.bytes.toNat) = s.counter + s.bytes.toNat := Nat.mod_eq_of_lt (by omega)
    have hx : (Block.ack s.t1.expected).inf.length < 255 := Nat.zero_lt_succ _
    refine .bind <| (reaches_receiveBlock hx hs.suits hcard).mono ?_
    rintro ⟨ret, block, icc'⟩ e ⟨hr, hb, hi', hidle⟩
    cases hr
    cases hb
    dsimp only
    rw [if_neg (by simp), if_neg (by simp [T1Block.ofBlock_ack]), hu]
    have hnext := reaches_sendSegment (hs.limit ▸ h0) (hs.limit ▸ h251) hlt hi' hidle
    refine .bind <| hnext.mono fun s' e' hs' => .pure ⟨?_, ?_⟩
    case refine_1 =>
      rw [← hs.limit]
      exact hs'.left
    case refine_2 =>
      rw [hs'.right]
      omega

theorem reaches_receiveBody {s : Receiving} {Q : Receiving ⊕ Receiving → E → Prop} (hs : Waiting c s)
    (hi : s.icc.Suits c baudrate) (hb : block.inf.length < 255) (he : medium.due ⟨card, c.convert block.encode⟩ e)
    (hq : ∀ s₁ e, SameResponse s s₁ → s₁.icc.Suits c baudrate → medium.idle ⟨card, []⟩ e →
      Reaches h (handleBlock s₁ (.ofBlock block hb)) e fun s₂ e => Q (.inl s₂) e) :
    Reaches h (receiveBody t1 s) e Q := by
  obtain ⟨hok, hm, rfl, -⟩ := hs
  rw [receiveBody_eq, if_neg (by simp [hok, hm])]
  generalize hicc : (if s.wtx > 1 then updateBWT s.icc (s.wtx.toNat * t1.bwt) else s.icc) = icc
  have hi' : icc.Suits s.icc.convention baudrate := by
    rw [← hicc]
    split <;> exact ⟨rfl, hi.baudrate⟩
  refine .bind <| (reaches_receiveBlock hb hi' he).mono ?_
  rintro ⟨ret, block, icc'⟩ e ⟨hr, hblock, hi', hidle⟩
  cases hr
  cases hblock
  dsimp only
  generalize hs₁ : (if s.wtx > 1 then { s with ret := .ok, icc := updateBWT icc' t1.bwt, wtx := 0 }
    else { s with ret := .ok, icc := icc' } : Receiving) = s₁
  obtain ⟨hsame, hsuits⟩ : SameResponse s s₁ ∧ s₁.icc.Suits s.icc.convention baudrate := by
    rw [← hs₁]
    split <;> exact ⟨⟨hok.symm, rfl, rfl, rfl, hi'.convention⟩, hi'.convention, hi'.baudrate⟩
  rw [if_neg (by simp)]
  exact .bind <| (hq s₁ e hsame hsuits hidle).mono fun s₂ e hq => .pure hq

-- The information field of an I-block is added to the response.
def saved (s : Receiving) (inf : List Byte) (more : Bool) : Receiving :=
  { s with buffer := s.buffer.take s.counter ++ inf, counter := ushort (s.counter + inf.length), more }

theorem saveInf_ofBlock {s : Receiving} {inf : List Byte} {more : Bool} {h : (Block.i own more inf).inf.length < 255} :
    saveInf s (.ofBlock (.i own more inf) h) = saved s inf more := by
  have hi : (T1Block.ofBlock (.i own more inf) h).inf = inf := T1Block.ofBlock_inf
  have hl : (T1Block.ofBlock (.i own more inf) h).getLen.toNat = inf.length := T1Block.ofBlock_getLen
  rw [saveInf, storeInf, T1Block.getInf_take T1Block.ofBlock_isComplete, hi, hl, T1Block.ofBlock_i.right.left, saved]

theorem handleBlock_i {s : Receiving} {inf : List Byte} {more : Bool} {h : (Block.i own more inf).inf.length < 255} :
    handleBlock s (.ofBlock (.i own more inf) h) = iBlock s (.ofBlock (.i own more inf) h) :=
  if_pos (of_decide_eq_true T1Block.ofBlock_i.left)

theorem reaches_handleBlock_last {s : Receiving} {inf : List Byte} {hb : (Block.i own false inf).inf.length < 255} :
    Reaches h (handleBlock s (.ofBlock (.i own false inf) hb)) e fun s' e' => s' = saved s inf false ∧ e' = e := by
  rw [handleBlock_i, iBlock_eq, saveInf_ofBlock, if_pos (by simp [saved])]
  exact .pure ⟨rfl, rfl⟩

theorem reaches_handleBlock_more {s : Receiving} {inf : List Byte} {hb : (Block.i own true inf).inf.length < 255}
    (hi : s.icc.Suits c baudrate) (he : medium.idle peer e) :
    Reaches h (handleBlock s (.ofBlock (.i own true inf) hb)) e fun s' e' =>
      s' = { saved s inf true with ret := .ok } ∧ medium.due (peer.react respond c (Block.ack !own).encode) e' := by
  rw [handleBlock_i, iBlock_eq, saveInf_ofBlock, if_neg (by simp [saved])]
  have hraw := @T1Block.newRBlock_raw (((T1Block.ofBlock (.i own true inf) hb).getNS + 1) % 2)
  rw [T1Block.ofBlock_i.right.right] at hraw
  have hi' : (saved s inf true).icc.Suits c baudrate := hi
  refine .bind <| (medium.sends hi' hraw (Nat.zero_lt_succ _) he).mono fun ret e' hr => .pure ⟨?_, hr.right⟩
  rw [hr.left]

theorem reaches_handleBlock_wtx {s : Receiving} {n : Byte} {hb : (Block.wtxRequest n).inf.length < 255}
    (hi : s.icc.Suits c baudrate) (he : medium.idle peer e) :
    Reaches h (handleBlock s (.ofBlock (.wtxRequest n) hb)) e fun s' e' =>
      s' = { s with wtx := n, ret := .ok } ∧ medium.due (peer.react respond c (Block.wtxResponse n).encode) e' := by
  obtain ⟨ht, hinf⟩ := @T1Block.ofBlock_wtxRequest n hb
  rw [handleBlock_eq, if_neg (by rw [ht]; decide), if_pos ht, wtxBlock_eq]
  simp only [hinf]
  have hx : (Block.wtxResponse n).inf.length < 255 := Nat.one_lt_succ_succ _
  refine .bind <| (medium.sends hi T1Block.newSBlock_raw hx he).mono fun ret e' hr => .pure ⟨?_, hr.right⟩
  rw [hr.left]

theorem react_answer {answer : Block} (h : answer.inf.length < 255) (hr : card.rest = some (answer, chain)) :
    T1Peer.react respond c ⟨card, []⟩ answer.encode =
      ⟨(card.send chain).fst, c.convert (card.send chain).snd.encode⟩ := by
  rw [T1Peer.react_encode h, Card.receive_answer hr]
  rfl

theorem length_saved {s : Receiving} {inf : List Byte} {more : Bool} (hs : s.counter ≤ s.buffer.length) :
    (saved s inf more).buffer.length = s.counter + inf.length := by
  rw [saved, List.length_append, List.length_take, Nat.min_eq_left hs]

theorem take_saved {s : Receiving} {inf : List Byte} {more : Bool} (hs : s.counter ≤ s.buffer.length)
    (hlt : s.counter + inf.length < 2 ^ 16) :
    (saved s inf more).buffer.take (saved s inf more).counter = s.buffer.take s.counter ++ inf := by
  refine List.take_of_length_le (Nat.le_of_eq ?_)
  rw [length_saved hs]
  exact (ushort_of_lt hlt).symm

-- What is left when the response has been sent.
def Replied (medium : Medium respond c baudrate h) (card : Card A) (e : E) : Prop :=
  ∃ own, medium.idle ⟨.collecting card.app card.expected own card.command, []⟩ e

-- By induction on the blocks of the response. The data is all there as long as its length fits the counter.
theorem reaches_receiveLoop (t1 : ProtocolT1) {s : Receiving} (hs : Waiting c s) (hi : s.icc.Suits c baudrate)
    (hf : chain.Fits) (card : Card A)
    (he : medium.due ⟨(card.send chain).fst, c.convert (card.send chain).snd.encode⟩ e) :
    Reaches h (.loop (receiveBody t1) s) e fun s' e =>
      Replied medium card e ∧ s'.ret = .ok ∧ s'.icc.Suits c baudrate ∧ (s.counter + chain.data.length < 2 ^ 16 →
        s'.buffer.take s'.counter = s.buffer.take s.counter ++ chain.data) := by
  induction chain generalizing s card e
  case last inf =>
    have hx : (Block.i card.own false inf).inf.length < 255 := hf
    refine .loop_step <| reaches_receiveBody hs hi hx he fun s₁ e h₁ hi₁ hidle => ?_
    have hw := h₁.waiting hs
    obtain ⟨-, hb, hcnt, -, -⟩ := h₁
    refine reaches_handleBlock_last.mono ?_
    rintro _ _ ⟨rfl, rfl⟩
    refine .loop_step ?_
    rw [receiveBody_eq, if_pos (by simp [saved])]
    refine .pure ⟨⟨_, hidle⟩, hw.ret, hi₁, fun hlt => ?_⟩
    rw [take_saved hw.counter (by rw [hcnt]; exact hlt), hb, hcnt, Chain.data]
  case more inf rest ih =>
    have hx : (Block.i card.own true inf).inf.length < 255 := hf.left
    refine .loop_step <| reaches_receiveBody hs hi hx he fun s₁ e h₁ hi₁ hidle => ?_
    have hw := h₁.waiting hs
    obtain ⟨-, hb, hcnt, -, -⟩ := h₁
    refine (reaches_handleBlock_more hi₁ hidle).mono ?_
    rintro _ e ⟨rfl, hdue⟩
    have hx : (Block.ack !card.own).inf.length < 255 := Nat.zero_lt_succ _
    rw [react_answer hx rfl] at hdue
    have hw' : Waiting c { saved s₁ inf true with ret := .ok } :=
      ⟨rfl, rfl, hw.convention, by rw [length_saved hw.counter]; exact ushort_le _⟩
    refine (ih hw' hi₁ hf.right { card with own := !card.own, rest := some (.ack !card.own, rest) } hdue).mono ?_
    rintro s' e ⟨ha, hr, hi', hd⟩
    refine ⟨ha, hr, hi', fun hlt => ?_⟩
    rw [Chain.data, List.length_append, ← Nat.add_assoc] at hlt
    have hlt' : s₁.counter + inf.length < 2 ^ 16 := by omega
    have hn : (saved s₁ inf true).counter = s₁.counter + inf.length := ushort_of_lt hlt'
    rw [hd (by rw [hn, hcnt]; exact hlt), take_saved hw.counter hlt', hb, hcnt, Chain.data, List.append_assoc]
  case wtx n rest ih =>
    have hx : (Block.wtxRequest n).inf.length < 255 := Nat.one_lt_succ_succ _
    refine .loop_step <| reaches_receiveBody hs hi hx he fun s₁ e h₁ hi₁ hidle => ?_
    have hw := h₁.waiting hs
    obtain ⟨-, hb, hcnt, -, -⟩ := h₁
    refine (reaches_handleBlock_wtx hi₁ hidle).mono ?_
    rintro _ e ⟨rfl, hdue⟩
    have hx : (Block.wtxResponse n).inf.length < 255 := Nat.one_lt_succ_succ _
    rw [react_answer hx rfl] at hdue
    have hw' : Waiting c { s₁ with wtx := n, ret := .ok } := ⟨rfl, hw.more, hw.convention, hw.counter⟩
    refine (ih hw' hi₁ hf { card with rest := some (.wtxResponse n, rest) } hdue).mono ?_
    rintro s' e ⟨ha, hr, hi', hd⟩
    refine ⟨ha, hr, hi', fun hlt => ?_⟩
    rw [hd (by rw [hcnt]; exact hlt), hb, hcnt, Chain.data]

-- A response that the driver can put together.
structure Deliverable (chain : Chain) : Prop where
  fits  : chain.Fits
  least : 2 ≤ chain.data.length
  most  : chain.data.length ≤ 65535

-- The driver and the card can begin with a command.
structure Poised (medium : Medium respond c baudrate h) (app : A) (t1 : ProtocolT1) (icc : IccAsync) (e : E) : Prop where
  ifsc  : 0 < t1.ifsc ∧ t1.ifsc ≤ 251
  suits : icc.Suits c baudrate
  idle  : ∃ own, medium.idle ⟨.collecting app t1.expected own [], []⟩ e

-- A command and its response, over a line that hands over blocks.
theorem reaches_command (hr : Poised medium app t1 icc e) (hl : cmd.rawLen ≤ 65535)
    (hd : Deliverable (respond app cmd.raw).snd) :
    Reaches h (command t1 icc cmd) e fun r e =>
      (r.ret = .ok ∧ r.rsp.map (·.response) = some (respond app cmd.raw).snd.data) ∧
        Poised medium (respond app cmd.raw).fst r.t1 r.icc e := by
  obtain ⟨⟨h0, h251⟩, hi, own, he⟩ := hr
  refine .bind <| (reaches_sendCommand h0 h251 hl hi he).mono ?_
  rintro s e ⟨hok, hi, hifsc, hdue⟩
  have hw : Waiting c { icc := s.icc, ret := s.ret, buffer := [], counter := 0, more := true, wtx := 0 } :=
    ⟨hok, rfl, hi.convention, Nat.le_refl 0⟩
  refine .bind <| (reaches_receiveLoop s.t1 hw hi hd.fits _ hdue).mono ?_
  rintro r e ⟨ha, hr, hi, hb⟩
  refine .pure ⟨⟨hr, ?_⟩, by rw [hifsc]; exact ⟨h0, h251⟩, hi, ha⟩
  have hle := hd.most
  rw [if_pos hr, hb (by simp only; omega), List.take_zero, List.nil_append, ApduRsp.new,
    dif_pos (show apduMinRspSize ≤ _ from hd.least)]
  rfl

-- One command after the other, with the objects as the one before has left them.
def commands (t1 : ProtocolT1) (icc : IccAsync) : List ApduCmd → DriverM (List (ProtocolT1Ret × Option ApduRsp))
  | []          => return []
  | cmd :: cmds => do
    let r ← command t1 icc cmd
    return (r.ret, r.rsp) :: (← commands r.t1 r.icc cmds)

-- What the application of the card makes of a list of commands.
def responses (respond : A → List Byte → A × Chain) : A → List ApduCmd → A × List (List Byte)
  | app, []          => (app, [])
  | app, cmd :: cmds =>
    let (app', chain) := respond app cmd.raw
    ((responses respond app' cmds).fst, chain.data :: (responses respond app' cmds).snd)

-- The application is given every command once, as it is, and its responses come back as they are. What it does in between
-- is its own.
theorem commands_answered {cmds : List ApduCmd} (h0 : 0 < t1.ifsc) (h251 : t1.ifsc ≤ 251)
    (hl : ∀ cmd ∈ cmds, cmd.rawLen ≤ 65535) (hd : ∀ app command, Deliverable (respond app command).snd) :
    Reaches (handler respond icc.convention) (commands t1 icc cmds) ⟨.collecting app t1.expected own [], []⟩ fun rs e =>
      rs.map (fun r => (r.fst, r.snd.map (·.response))) = (responses respond app cmds).snd.map (.ok, some ·) ∧
        e.card.app = (responses respond app cmds).fst := by
  have hr : Poised (Medium.plain respond icc.convention icc.baudrate) app t1 icc
      ⟨.collecting app t1.expected own [], []⟩ := ⟨⟨h0, h251⟩, ⟨rfl, rfl⟩, own, rfl⟩
  generalize (⟨.collecting app t1.expected own [], []⟩ : T1Peer A) = peer at hr ⊢
  generalize icc.convention = c, icc.baudrate = baudrate at hr ⊢
  induction cmds generalizing t1 icc app peer
  case nil =>
    obtain ⟨_, he⟩ := hr.idle
    exact .pure ⟨rfl, by rw [he]; rfl⟩
  case cons cmd cmds ih =>
    obtain ⟨hlen, hlens⟩ := List.forall_mem_cons.mp hl
    refine .bind <| (reaches_command hr hlen (hd app cmd.raw)).mono ?_
    rintro r e ⟨⟨hok, hrsp⟩, hr⟩
    refine .bind <| (ih hr.ifsc.left hr.ifsc.right hlens e hr).mono ?_
    rintro rs e ⟨hrs, happ⟩
    refine .pure ⟨?_, happ⟩
    rw [List.map_cons, hok, hrsp, hrs]
    rfl

-- A card that counts its commands, asks for more time, and sends back how a command begins.
def sampleRespond (n : Nat) (command : List Byte) : Nat × Chain :=
  (n + 1, .wtx 0x03 <| .more (command.take 4) <| .last [0x90, 0x00])

theorem sampleRespond_deliverable (n : Nat) (command : List Byte) : Deliverable (sampleRespond n command).snd where
  fits  := ⟨by rw [List.length_take]; omega, by decide⟩
  least := by simp [sampleRespond, Chain.data]
  most  := by
    simp only [sampleRespond, Chain.data, List.length_append, List.length_take, List.length_cons, List.length_nil]
    omega

-- Two commands in blocks of at most three bytes, over a line of inverse convention.
theorem commands_answered_twice :
    Reaches (handler sampleRespond .inverse)
      (commands { sample with ifsc := 3 } { sampleIcc with convention := .inverse } [readBinary1, readBinary1])
      ⟨.collecting 0 false false [], []⟩ fun rs e =>
        rs.map (fun r => (r.fst, r.snd.map (·.response))) =
          List.replicate 2 (.ok, some (readBinary1.raw.take 4 ++ [0x90, 0x00])) ∧ e.card.app = 2 :=
  @commands_answered Nat sampleRespond { sample with ifsc := 3 } { sampleIcc with convention := .inverse } 0 false
    [readBinary1, readBinary1] (by decide) (by decide) (by decide) sampleRespond_deliverable

end ProtocolT1
end Towitoko
