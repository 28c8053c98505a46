import Towitoko.Driver.MemoryCard
import Towitoko.Driver.Theorems.DataSections

-- How SELECT FILE looks for an application in the directory of a memory card.
namespace Towitoko

open Interaction TlvObject ProtocolSync

namespace MemoryCard

-- The card object and the address that the card was given last.
abbrev Card := IccSync × Nat

variable (memory : Memory Byte) (junk : Byte)

def Does {α : Type} (p : IccSyncM α) (c : Card) (a : α) (c' : Card) : Prop :=
  Yields (handler memory junk) (p.run c.fst) c.snd (a, c'.fst) c'.snd

-- How far the search has come: the application IDs that it has come across, the local variables and the card.
inductive Searching (dir : TlvObject) (aid : List Byte) (vars : Iteration) (c : Card) :
    List TlvObject → Iteration → Card → Prop
  | start : Searching dir aid vars c [] vars c
  | next {before s c₀ template c₁ tlvAid c₂ s' c₃} :
    Searching dir aid vars c before s c₀ →
    Does memory junk (dir.iterate getData s.template) c₀ (some template) c₁ →
    Does memory junk (template.getObjectByTag getData tlvObjectTagApplicationId) c₁ tlvAid c₂ →
    Does memory junk (tryTemplate template aid s) c₁ (.inl s') c₃ →
    Searching dir aid vars c (before ++ tlvAid.toList) s' c₃

-- A template of the directory with an application ID that the search for `aid` comes to, the card before it is
-- looked at, and the card when the application ID has been found.
structure Visit (c : Card) (aid : List Byte) where
  dir        : TlvObject
  pathLength : Nat
  before     : List TlvObject
  vars       : Iteration
  template   : TlvObject
  tlvAid     : TlvObject
  {c₀ c₁ c₂ c₃ : Card}
  directory  : Does memory junk dirObject c (some dir) c₀
  sequence   : dir.tag = tlvObjectTagSequence
  searching  : Searching memory junk dir aid { template := none, aidLength := aid.length, pathLength } c₀ before vars c₁
  iterated   : Does memory junk (dir.iterate getData vars.template) c₁ (some template) c₂
  identified : Does memory junk (template.getObjectByTag getData tlvObjectTagApplicationId) c₂ (some tlvAid) c₃

-- The requested application ID and the one of a template, as far as `length` and the template allow.
def Agree (aid : List Byte) (tlvAid : TlvObject) (length : Nat) : Prop :=
  aid.take (min length tlvAid.length) = memory.load tlvAid.value (min length tlvAid.length)

-- The shortest of the application IDs so far, the requested one included.
def shortest (aid : List Byte) (before : List TlvObject) : Nat :=
  before.foldl (fun length tlvAid => min length tlvAid.length) aid.length

variable {memory junk} {c c' : Card} {aid : List Byte} {n : Nat}

instance {tlvAid : TlvObject} {length : Nat} : Decidable (Agree memory aid tlvAid length) :=
  inferInstanceAs <| Decidable (_ = _)

namespace Does

variable {α β : Type} {p : IccSyncM α} {a b : α}

theorem pure_iff : Does memory junk (pure a) c b c' ↔ b = a ∧ c' = c := by
  simp only [Does, StateT.run_pure, Yields.pure_iff, Prod.ext_iff, and_assoc]

theorem bind_iff {p : IccSyncM β} {f : β → IccSyncM α} :
    Does memory junk (p >>= f) c a c' ↔ ∃ b c₁, Does memory junk p c b c₁ ∧ Does memory junk (f b) c₁ a c' := by
  constructor
  case mp =>
    intro h
    have ⟨(b, icc), e, hp, hf⟩ := Yields.bind_iff.mp h
    exact ⟨b, (icc, e), hp, hf⟩
  case mpr => exact fun ⟨b, c₁, hp, hf⟩ => .run_bind hp hf

theorem bind_pure_iff {p : IccSyncM β} {f : β → α} :
    Does memory junk (p >>= fun b => pure (f b)) c a c' ↔ ∃ b, a = f b ∧ Does memory junk p c b c' := by
  rw [bind_iff]
  refine exists_congr fun b => ?_
  constructor
  case mp =>
    intro ⟨c₁, hp, hf⟩
    obtain ⟨rfl, rfl⟩ := pure_iff.mp hf
    exact ⟨rfl, hp⟩
  case mpr => exact fun ⟨ha, hp⟩ => ⟨c', hp, pure_iff.mpr ⟨ha, rfl⟩⟩

theorem lift_iff {p : DriverM α} :
    Does memory junk (liftM p : IccSyncM α) c a c' ↔ Yields (handler memory junk) p c.snd a c'.snd ∧ c'.fst = c.fst := by
  constructor
  case mp =>
    intro h
    have ⟨b, e, hp, hr⟩ := Yields.bind_iff.mp h
    have ⟨hr, he⟩ := Yields.pure_iff.mp hr
    have ⟨ha, hc⟩ := Prod.ext_iff.mp hr
    cases ha
    exact ⟨he ▸ hp, hc⟩
  case mpr =>
    intro ⟨hp, hc⟩
    rw [Does, hc]
    exact .run_lift hp

theorem not_crash : ¬Does memory junk (liftM (crash : DriverM α) : IccSyncM α) c a c' :=
  fun h => Yields.not_fault (lift_iff.mp h).left

theorem deterministic {c'' : Card} (h : Does memory junk p c a c') (h' : Does memory junk p c b c'') : a = b ∧ c' = c'' := by
  have ⟨hr, he⟩ := Yields.deterministic h h'
  have ⟨ha, hc⟩ := Prod.ext_iff.mp hr
  exact ⟨ha, Prod.ext hc he⟩

theorem returns {P : α → Prop} (hp : Returns (IccSync.HasLength n) p P) (h : Does memory junk p c a c') (hc : c.fst.length = n) :
    P a ∧ c'.fst.length = n :=
  have ⟨t, hr, _⟩ := h
  hp c.fst hc t _ hr

theorem of_eval {k : Nat} (h : eval (handler memory junk) k (p.run c.fst) c.snd = some ((a, c'.fst), c'.snd)) :
    Does memory junk p c a c' :=
  eval_yields h

theorem of_gives (hg : Gives (handler memory junk) (Sized n) p a) (hc : c.fst.length = n) : ∃ c', Does memory junk p c a c' :=
  have ⟨icc, e, hy, _⟩ := hg c.fst c.snd hc
  ⟨(icc, e), hy⟩

end Does

-- What one template comes to. Only what is no longer than the requested application ID, as far as it still goes,
-- is compared.
theorem tryTemplate_cases {template : TlvObject} {s : Iteration} {r : Iteration ⊕ Option TlvObject}
    (h : Does memory junk (tryTemplate template aid s) c r c') :
    ∃ tlvAid? c₁, Does memory junk (template.getObjectByTag getData tlvObjectTagApplicationId) c tlvAid? c₁ ∧
      match tlvAid? with
      | none        => r = .inl { s with template := some template }
      | some tlvAid => ∃ found k c₂, Does memory junk (tlvAid.compareValue getData aid s.aidLength) c₁ (found, k) c₂ ∧
        r.elim (fun s' => s'.template = some template ∧ s'.aidLength = k) (fun _ => found = true) := by
  have ⟨tlvAid?, c₁, h₁, h⟩ := Does.bind_iff.mp h
  refine ⟨tlvAid?, c₁, h₁, ?_⟩
  cases tlvAid?
  case none => exact (Does.pure_iff.mp h).left
  case some tlvAid =>
    have ⟨(found, k), c₂, h₂, h⟩ := Does.bind_iff.mp h
    refine ⟨found, k, c₂, h₂, ?_⟩
    cases found
    case false =>
      have ⟨hr, _⟩ := Does.pure_iff.mp h
      rw [hr]
      exact ⟨rfl, rfl⟩
    case true =>
      have ⟨path?, c₃, _, h⟩ := Does.bind_iff.mp h
      cases path?
      case none =>
        have ⟨hr, _⟩ := Does.pure_iff.mp h
        rw [hr]
        exact ⟨rfl, rfl⟩
      case some path =>
        have ⟨(app, _), c₄, _, h⟩ := Does.bind_iff.mp h
        cases app
        case none =>
          have ⟨hr, _⟩ := Does.pure_iff.mp h
          rw [hr]
          exact ⟨rfl, rfl⟩
        case some =>
          have ⟨hr, _⟩ := Does.pure_iff.mp h
          rw [hr]
          exact rfl

theorem Agree.mono {tlvAid : TlvObject} {k l : Nat} (h : Agree memory aid tlvAid l) (hl : k ≤ l) :
    Agree memory aid tlvAid k := by
  have hm : min (min k tlvAid.length) (min l tlvAid.length) = min k tlvAid.length := by omega
  have := congrArg (List.take (min k tlvAid.length)) h
  rwa [List.take_take, Memory.take_load, hm] at this

theorem shortest_le (before : List TlvObject) : shortest aid before ≤ aid.length := by
  rw [shortest]
  generalize aid.length = k
  induction before generalizing k
  case nil     => exact Nat.le_refl _
  case cons hi => exact Nat.le_trans (hi _) (Nat.min_le_left _ _)

variable (memory junk aid) in
theorem does_compareValue {tlvAid : TlvObject} (hf : tlvAid.Fits (n % 65536)) (hc : c.fst.length = n) (length : Nat) :
    ∃ c', Does memory junk (tlvAid.compareValue getData aid length) c
      (decide (Agree memory aid tlvAid length), min length tlvAid.length) c' :=
  Does.of_gives (gives_compareValue (serves memory junk n) hf aid length) hc

-- What the length that is compared has become.
theorem aidLength_of_tryTemplate {template : TlvObject} {tlvAid? : Option TlvObject} {s s' : Iteration} {c₁ : Card}
    (hf : template.Fits (n % 65536)) (hc : c.fst.length = n)
    (hi : Does memory junk (template.getObjectByTag getData tlvObjectTagApplicationId) c tlvAid? c₁)
    (h : Does memory junk (tryTemplate template aid s) c (.inl s') c') :
    s'.template = some template ∧
      s'.aidLength = tlvAid?.toList.foldl (fun length tlvAid => min length tlvAid.length) s.aidLength := by
  have ⟨_, c₂, hi', hr⟩ := tryTemplate_cases h
  obtain ⟨rfl, rfl⟩ := hi.deterministic hi'
  cases tlvAid?
  case none =>
    cases hr
    exact ⟨rfl, rfl⟩
  case some tlvAid =>
    have ⟨ha, hc⟩ := hi.returns (returns_getObjectByTag (returns_getDataWithin _) hf _) hc
    have ⟨_, k, _, hv, ht, hk⟩ := hr
    have ⟨_, hv'⟩ := does_compareValue memory junk aid (ha.allFit _ rfl) hc s.aidLength
    have ⟨hv, _⟩ := hv.deterministic hv'
    cases hv
    exact ⟨ht, hk⟩

-- The invariant of the search.
structure Searched (n : Nat) (aid : List Byte) (before : List TlvObject) (s : Iteration) (c : Card) : Prop where
  card     : c.fst.length = n
  template : AllFit (n % 65536) s.template
  length   : s.aidLength = shortest aid before

theorem Searching.searched {dir : TlvObject} {before : List TlvObject} {pathLength : Nat} {s : Iteration}
    (hf : dir.Fits (n % 65536)) (hc : c.fst.length = n)
    (h : Searching memory junk dir aid { template := none, aidLength := aid.length, pathLength } c before s c') :
    Searched n aid before s c' := by
  induction h
  case start => exact ⟨hc, nofun, rfl⟩
  case next before s c₀ template c₁ tlvAid c₂ s' c₃ _ ht ha hs hi =>
    have ⟨hp, hc₁⟩ := ht.returns (returns_iterate (returns_getDataWithin _) hf hi.template) hi.card
    have hp : template.Fits (n % 65536) := hp.allFit _ rfl
    have ⟨hp', hc₃⟩ := hs.returns (returns_tryTemplate aid s hp) hc₁
    have ⟨_, hl⟩ := aidLength_of_tryTemplate hp hc₁ ha hs
    refine ⟨hc₃, hp', ?_⟩
    rw [hl, hi.length, shortest, shortest, List.foldl_append]

namespace Visit

variable (v : Visit memory junk c aid)

theorem searched : Searched c.fst.length aid v.before v.vars v.c₁ := by
  have ⟨hf, hc⟩ := v.directory.returns returns_dirObject rfl
  exact v.searching.searched (hf _ rfl) hc

theorem fits : v.template.Fits (c.fst.length % 65536) ∧ v.c₂.fst.length = c.fst.length := by
  have ⟨hf, _⟩ := v.directory.returns returns_dirObject rfl
  have hs := v.searched
  have ⟨hp, hc⟩ := v.iterated.returns (returns_iterate (returns_getDataWithin _) (hf _ rfl) hs.template) hs.card
  exact ⟨hp.allFit _ rfl, hc⟩

theorem tlvAid_fits : v.tlvAid.Fits (c.fst.length % 65536) ∧ v.c₃.fst.length = c.fst.length := by
  have ⟨hp, hc⟩ := v.fits
  have ⟨ha, hc⟩ := v.identified.returns (returns_getObjectByTag (returns_getDataWithin _) hp _) hc
  exact ⟨ha.allFit _ rfl, hc⟩

-- The verdict is the agreement of the application IDs, and an application is only found if they agree.
def TakenByItself : Prop :=
  (∃ length c', Does memory junk (v.tlvAid.compareValue getData aid v.vars.aidLength) v.c₃
      (decide (Agree memory aid v.tlvAid aid.length), length) c') ∧
    ∀ app c', Does memory junk (tryTemplate v.template aid v.vars) v.c₂ (.inr app) c' → Agree memory aid v.tlvAid aid.length

theorem does_compareValue : ∃ c', Does memory junk (v.tlvAid.compareValue getData aid v.vars.aidLength) v.c₃
    (decide (Agree memory aid v.tlvAid (shortest aid v.before)), min v.vars.aidLength v.tlvAid.length) c' := by
  have ⟨hf, hc⟩ := v.tlvAid_fits
  rw [← v.searched.length]
  exact MemoryCard.does_compareValue memory junk aid hf hc v.vars.aidLength

theorem agree_of_tryTemplate {app : Option TlvObject} {c' : Card}
    (h : Does memory junk (tryTemplate v.template aid v.vars) v.c₂ (.inr app) c') :
    Agree memory aid v.tlvAid (shortest aid v.before) := by
  have ⟨_, _, hi, hr⟩ := tryTemplate_cases h
  obtain ⟨rfl, rfl⟩ := v.identified.deterministic hi
  have ⟨_, _, _, hv, hr⟩ := hr
  have ⟨_, hv'⟩ := v.does_compareValue
  have ⟨hv, _⟩ := hv.deterministic hv'
  cases hv
  exact of_decide_eq_true hr

theorem takenByItself_iff :
    v.TakenByItself ↔
      (Agree memory aid v.tlvAid (shortest aid v.before) → Agree memory aid v.tlvAid aid.length) := by
  have ⟨c', hv⟩ := v.does_compareValue
  constructor
  case mp =>
    intro ⟨⟨_, _, hv'⟩, _⟩ h
    have ⟨he, _⟩ := hv.deterministic hv'
    have ⟨he, _⟩ := Prod.ext_iff.mp he
    exact (decide_eq_decide.mp he).mp h
  case mpr =>
    intro h
    have he : Agree memory aid v.tlvAid (shortest aid v.before) ↔ Agree memory aid v.tlvAid aid.length :=
      ⟨h, fun h => h.mono (shortest_le _)⟩
    rw [decide_eq_decide.mpr he] at hv
    exact ⟨⟨_, _, hv⟩, fun _ _ hs => h (v.agree_of_tryTemplate hs)⟩

end Visit

-- Whatever is found is found through a template that the search comes to.
theorem exists_visit {dir app : TlvObject} {pathLength : Nat} {c₀ : Card} (hd : Does memory junk dirObject c (some dir) c₀)
    (hseq : dir.tag = tlvObjectTagSequence)
    (h : Does memory junk (findApplication dir aid pathLength) c₀ (some app) c') :
    ∃ v : Visit memory junk c aid, v.dir = dir ∧ ∃ c'', Does memory junk (tryTemplate v.template aid v.vars) v.c₂ (.inr (some app)) c'' := by
  let vars : Iteration := { template := none, aidLength := aid.length, pathLength }
  refine Yields.run_iterateM_inv (Q := fun r _ => r.fst = some app → ∃ v : Visit memory junk c aid, v.dir = dir ∧
    ∃ c'', Does memory junk (tryTemplate v.template aid v.vars) v.c₂ (.inr (some app)) c'')
    (fun s icc e => ∃ before, Searching memory junk dir aid vars c₀ before s (icc, e)) ⟨[], .start⟩ ?_ h rfl
  intro s icc e r icc' e' ⟨before, hs⟩ hy
  have hy : Does memory junk _ (icc, e) r (icc', e') := hy
  have ⟨template?, c₁, ht, hy⟩ := Does.bind_iff.mp hy
  cases template?
  case none =>
    obtain ⟨rfl, _⟩ := Does.pure_iff.mp hy
    exact nofun
  case some template =>
    have ⟨tlvAid?, c₂, ha, hr⟩ := tryTemplate_cases hy
    cases r
    case inl s' => exact ⟨_, .next hs ht ha hy⟩
    case inr =>
      intro happ
      cases happ
      cases tlvAid?
      case none        => contradiction
      case some tlvAid => exact ⟨⟨dir, pathLength, before, s, template, tlvAid, hd, hseq, hs, ht, ha⟩, rfl, _, hy⟩

-- Every template is taken as a match by itself, and an application is only found through one that agrees.
def SelectsAlike (memory : Memory Byte) (junk : Byte) (c : Card) (aid : List Byte) : Prop :=
  (∀ v : Visit memory junk c aid, v.TakenByItself) ∧
    ∀ dir pathLength app c₀ c', Does memory junk dirObject c (some dir) c₀ → dir.tag = tlvObjectTagSequence →
      Does memory junk (findApplication dir aid pathLength) c₀ (some app) c' →
      ∃ v : Visit memory junk c aid, v.dir = dir ∧ Agree memory aid v.tlvAid aid.length ∧
        ∃ c'', Does memory junk (tryTemplate v.template aid v.vars) v.c₂ (.inr (some app)) c''

-- The templates are treated alike exactly if none agrees with the requested application ID only as far as the
-- ones before it have let the comparison go.
theorem selectsAlike_iff (c : Card) (aid : List Byte) :
    SelectsAlike memory junk c aid ↔
      ∀ v : Visit memory junk c aid,
        Agree memory aid v.tlvAid (shortest aid v.before) → Agree memory aid v.tlvAid aid.length := by
  constructor
  case mp => exact fun ⟨hv, _⟩ v => v.takenByItself_iff.mp (hv v)
  case mpr =>
    intro h
    refine ⟨fun v => v.takenByItself_iff.mpr (h v), fun dir pathLength app c₀ c' hd hseq hf => ?_⟩
    have ⟨v, hdir, c'', ht⟩ := exists_visit hd hseq hf
    exact ⟨v, hdir, h v (v.agree_of_tryTemplate ht), c'', ht⟩

-- A directory with the application IDs B0 and A002. The second one is taken for A001, as only its first byte is
-- compared.
def shorteningMemory : Memory Byte := fun i =>
  if i < 0x40 then
    [0x30, 0x0E, 0x61, 0x03, 0x4F, 0x01, 0xB0, 0x61, 0x07, 0x4F, 0x02, 0xA0, 0x02, 0x51, 0x01, 0x40].getD (i - 0x11) 0
  else
    [0x53, 0x01, 0xAA].getD (i - 0x40) 0

def shorteningCard (address : Nat) : Card :=
  ({ directoryCard with active := false }, address)

theorem not_selectsAlike_shortening : ¬SelectsAlike shorteningMemory 0 (shorteningCard 0) [0xA0, 0x01] := by
  intro ⟨hv, _⟩
  let dir : TlvObject := ⟨256, 0x11, 0x30, 14, 0x13⟩
  let template₁ : TlvObject := ⟨256, 0x13, 0x61, 3, 0x15⟩
  let template₂ : TlvObject := ⟨256, 0x18, 0x61, 7, 0x1A⟩
  let vars : Iteration := { template := none, aidLength := 2, pathLength := 1 }
  let vars₁ : Iteration := { template := some template₁, aidLength := 1, pathLength := 1 }
  have hd : Does shorteningMemory 0 dirObject (shorteningCard 0) (some dir) (shorteningCard 0x12) :=
    .of_eval (k := 9) (by decide +kernel)
  have ht₁ : Does shorteningMemory 0 (dir.iterate getData none) (shorteningCard 0x12) (some template₁) (shorteningCard 0x14) :=
    .of_eval (k := 9) (by decide +kernel)
  have ha₁ : Does shorteningMemory 0 (template₁.getObjectByTag getData tlvObjectTagApplicationId) (shorteningCard 0x14)
      (some ⟨256, 0x15, 0x4F, 1, 0x17⟩) (shorteningCard 0x16) :=
    .of_eval (k := 9) (by decide +kernel)
  have hs : Does shorteningMemory 0 (tryTemplate template₁ [0xA0, 0x01] vars) (shorteningCard 0x14)
      (.inl vars₁) (shorteningCard 0x17) :=
    .of_eval (k := 9) (by decide +kernel)
  have ht₂ : Does shorteningMemory 0 (dir.iterate getData (some template₁)) (shorteningCard 0x17) (some template₂)
      (shorteningCard 0x19) :=
    .of_eval (k := 9) (by decide +kernel)
  have ha₂ : Does shorteningMemory 0 (template₂.getObjectByTag getData tlvObjectTagApplicationId) (shorteningCard 0x19)
      (some ⟨256, 0x1A, 0x4F, 2, 0x1C⟩) (shorteningCard 0x1B) :=
    .of_eval (k := 9) (by decide +kernel)
  have hm : Does shorteningMemory 0 (TlvObject.compareValue getData ⟨256, 0x1A, 0x4F, 2, 0x1C⟩ [0xA0, 0x01] 1)
      (shorteningCard 0x1B) (true, 1) (shorteningCard 0x1C) :=
    .of_eval (k := 9) (by decide +kernel)
  have ⟨⟨_, _, hm'⟩, _⟩ := hv ⟨dir, 1, _, vars₁, template₂, _, hd, rfl, .next .start ht₁ ha₁ hs, ht₂, ha₂⟩
  have ⟨he, _⟩ := hm.deterministic hm'
  have hn : ¬Agree shorteningMemory [0xA0, 0x01] ⟨256, 0x1A, 0x4F, 2, 0x1C⟩ 2 := by decide
  exact hn (of_decide_eq_true (Prod.ext_iff.mp he).left.symm)

end MemoryCard
end Towitoko
