import Mathlib.Data.List.Induction

-- The character protocol T=0 of ISO 7816-3 as seen from the interface device. After the header of a
-- command the card alone decides how the exchange goes on: it sends procedure bytes, each of which may
-- be followed by data, and ends with a status word. Bytes are of any type, and what a procedure byte
-- means is a parameter.
namespace Iso7816.T0

variable {β : Type}

-- What a procedure byte says: wait, the status word begins here, transfer all data bytes that are
-- missing, transfer one data byte.
inductive Procedure
  | null
  | status
  | all
  | one
  | invalid
  deriving DecidableEq

-- Which way the data of a command goes, and how many bytes of it the device expects.
inductive Direction
  | toCard
  | fromCard (le : Nat)
  deriving DecidableEq

namespace Direction

-- How many data bytes the card sends after a procedure byte when it has sent `count` of them.
def following : Direction → Nat → Procedure → Nat
  | fromCard le, count, .all => le - count
  | fromCard _, _, .one      => 1
  | _, _, _                  => 0

end Direction

-- `data left` awaits `left` data bytes before the next procedure byte.
inductive Phase (β : Type)
  | data (left : Nat)
  | status (sw1 : β)
  | done (sw1 sw2 : β)
  | stuck
  deriving DecidableEq

namespace Phase

def left : Phase β → Nat
  | data left => left
  | _         => 0

end Phase

-- How far the bytes of the card have been understood, and the data bytes among them.
structure Reading (β : Type) where
  phase : Phase β
  data  : List β
  deriving DecidableEq

variable (classify : β → Procedure) (dir : Direction)

namespace Reading

def start : Reading β where
  phase := .data 0
  data  := []

def next (r : Reading β) (b : β) : Reading β :=
  match r.phase with
  | .data 0 =>
    match classify b with
    | .status  => { r with phase := .status b }
    | .invalid => { r with phase := .stuck }
    | p        => { r with phase := .data (dir.following r.data.length p) }
  | .data (n + 1) => { phase := .data n, data := r.data ++ [b] }
  | .status sw1   => { r with phase := .done sw1 b }
  | .done ..      => { r with phase := .stuck }
  | .stuck        => r

end Reading

def read (bs : List β) : Reading β :=
  bs.foldl (Reading.next classify dir) .start

-- The card asks for the transfer of a further byte although it has sent all that are expected.
def Exceeds (le : Nat) (bs : List β) : Prop :=
  ∃ bs₁ b bs₂, bs = bs₁ ++ b :: bs₂ ∧ classify b = .one ∧
    (read classify (.fromCard le) bs₁).phase = .data 0 ∧
    le ≤ (read classify (.fromCard le) bs₁).data.length

variable {classify dir} {bs : List β} {b : β} {le n : Nat}

@[simp]
theorem read_nil : read classify dir [] = .start :=
  rfl

theorem read_concat : read classify dir (bs ++ [b]) = (read classify dir bs).next classify dir b := by
  simp [read]

-- A block of data bytes brings the reading back to a procedure byte.
theorem read_data {data : List β} (hp : (read classify dir bs).phase = .data data.length) :
    read classify dir (bs ++ data) = ⟨.data 0, (read classify dir bs).data ++ data⟩ := by
  induction data generalizing bs
  case nil =>
    rw [List.append_nil, List.append_nil]
    exact congrArg (Reading.mk · _) hp
  case cons b data hi =>
    have hn : read classify dir (bs ++ [b]) = ⟨.data data.length, (read classify dir bs).data ++ [b]⟩ := by
      simp [read_concat, Reading.next, hp]
    have := hi (by rw [hn])
    simpa [hn] using this

theorem exceeds_concat :
    Exceeds classify le (bs ++ [b]) ↔
      Exceeds classify le bs ∨
      classify b = .one ∧ (read classify (.fromCard le) bs).phase = .data 0 ∧
      le ≤ (read classify (.fromCard le) bs).data.length := by
  constructor
  · intro ⟨bs₁, b', bs₂, he, h⟩
    induction bs₂ using List.reverseRecOn
    case nil =>
      obtain ⟨rfl, rfl⟩ := List.append_inj' he rfl |>.imp_right List.singleton_inj.mp
      exact .inr h
    case append_singleton bs₂ _ _ =>
      rw [← List.cons_append, ← List.append_assoc] at he
      exact .inl ⟨bs₁, b', bs₂, (List.append_inj' he rfl).left, h⟩
  · rintro (⟨bs₁, b', bs₂, rfl, h⟩ | h)
    · exact ⟨bs₁, b', bs₂ ++ [b], by simp, h⟩
    · exact ⟨bs, b, [], rfl, h⟩

-- The data bytes read and announced are more than expected exactly if a further byte was asked for.
theorem exceeds_iff :
    Exceeds classify le bs ↔
      le < (read classify (.fromCard le) bs).data.length +
        (read classify (.fromCard le) bs).phase.left := by
  induction bs using List.reverseRecOn
  case nil => simp [Exceeds, Reading.start, Phase.left]
  case append_singleton bs b hi =>
    rw [exceeds_concat, hi, read_concat]
    generalize read classify (.fromCard le) bs = r
    have ⟨phase, data⟩ := r
    rcases phase with (_ | n) | _ | _ | _
    case data.zero =>
      cases hc : classify b <;> simp [Reading.next, Phase.left, Direction.following, hc] <;> omega
    case data.succ => simp [Reading.next, Phase.left]; omega
    all_goals simp [Reading.next, Phase.left]

-- The card's side of conforming exchanges, with fewer than `limit` null bytes in a row. In all of them
-- `missing` data bytes have not been transferred yet, and `nulls` null bytes have just been sent.
structure Codes (β : Type) where
  null : β
  ack  : β
  nack : β

-- `Delivers codes limit missing nulls bs data`: the card sends `bs`, and with it the data bytes `data`.
inductive Delivers (codes : Codes β) (limit : Nat) : Nat → Nat → List β → List β → Prop
  | nil {missing nulls} : Delivers codes limit missing nulls [] []
  | null {missing nulls bs data} :
    nulls + 1 < limit → Delivers codes limit missing (nulls + 1) bs data →
    Delivers codes limit missing nulls (codes.null :: bs) data
  | all {missing nulls bs data data'} :
    data.length = missing → Delivers codes limit 0 0 bs data' →
    Delivers codes limit missing nulls (codes.ack :: data ++ bs) (data ++ data')
  | one {missing nulls bs b data} :
    Delivers codes limit missing 0 bs data →
    Delivers codes limit (missing + 1) nulls (codes.nack :: b :: bs) (b :: data)

-- `Requests codes limit idle missing nulls bs n`: the card sends `bs`, and takes `n` data bytes in
-- between. If `idle` holds, it may also ask for all missing bytes when there are none.
inductive Requests (codes : Codes β) (limit : Nat) (idle : Prop) : Nat → Nat → List β → Nat → Prop
  | nil {missing nulls} : Requests codes limit idle missing nulls [] 0
  | null {missing nulls bs n} :
    nulls + 1 < limit → Requests codes limit idle missing (nulls + 1) bs n →
    Requests codes limit idle missing nulls (codes.null :: bs) n
  | all {missing nulls bs n} :
    (0 < missing ∨ idle) → Requests codes limit idle 0 0 bs n →
    Requests codes limit idle missing nulls (codes.ack :: bs) (missing + n)
  | one {missing nulls bs n} :
    Requests codes limit idle missing 0 bs n →
    Requests codes limit idle (missing + 1) nulls (codes.nack :: bs) (n + 1)

-- How many of `total` data bytes count as transferred after the given procedure bytes.
def transferred (total : Nat) (ps : List Procedure) : Nat :=
  ps.foldl (fun n p => match p with | .all => total | .one => n + 1 | _ => n) 0

@[simp]
theorem transferred_concat {total : Nat} {ps : List Procedure} {p : Procedure} :
    transferred total (ps ++ [p]) =
      match p with
      | .all => total
      | .one => transferred total ps + 1
      | _    => transferred total ps := by
  simp [transferred]

variable (classify dir)

-- The procedure bytes that the card has sent so far, and how many bytes follow the last of them.
structure Course where
  seen : List Procedure
  left : Nat
  deriving DecidableEq

namespace Course

def start : Course where
  seen := []
  left := 0

def next (total : Nat) (c : Course) (b : β) : Course :=
  match c.left with
  | 0     => ⟨c.seen ++ [classify b], if classify b = .status then 1 else dir.following (transferred total c.seen) (classify b)⟩
  | n + 1 => { c with left := n }

end Course

def course (total : Nat) (bs : List β) : Course :=
  bs.foldl (Course.next classify dir total) .start

-- How a device arrives at the next procedure byte that it reads. It bears fewer than `limit` null bytes in
-- a row, and transfers data as long as fewer than `capacity` data bytes count as transferred.
-- `Awaits classify dir total capacity limit bs nulls count`: the card has sent `bs`, the last `nulls`
-- procedure bytes of which are null, and `count` data bytes count as transferred.
inductive Awaits (total capacity limit : Nat) : List β → Nat → Nat → Prop
  | start : Awaits total capacity limit [] 0 0
  | null {bs b nulls count} :
    Awaits total capacity limit bs nulls count → classify b = .null → nulls + 1 < limit →
    Awaits total capacity limit (bs ++ [b]) (nulls + 1) count
  | all {bs b data nulls count} :
    Awaits total capacity limit bs nulls count → classify b = .all → count < capacity →
    data.length = dir.following count .all → Awaits total capacity limit (bs ++ b :: data) 0 total
  | one {bs b data nulls count} :
    Awaits total capacity limit bs nulls count → classify b = .one → count < capacity →
    data.length = dir.following count .one → Awaits total capacity limit (bs ++ b :: data) 0 (count + 1)

section

variable {classify dir} {total : Nat}

theorem course_snoc : course classify dir total (bs ++ [b]) = (course classify dir total bs).next classify dir total b := by
  simp [course]

theorem course_concat (h : (course classify dir total bs).left = 0) :
    course classify dir total (bs ++ [b]) =
      ⟨(course classify dir total bs).seen ++ [classify b],
        if classify b = .status then 1
        else dir.following (transferred total (course classify dir total bs).seen) (classify b)⟩ := by
  rw [course_snoc, Course.next, h]

-- The bytes that follow a procedure byte are passed over.
theorem course_data {data : List β} (h : (course classify dir total bs).left = data.length) :
    course classify dir total (bs ++ data) = ⟨(course classify dir total bs).seen, 0⟩ := by
  induction data generalizing bs
  case nil =>
    rw [List.append_nil]
    exact congrArg (Course.mk _) h
  case cons b data hi =>
    have hn : course classify dir total (bs ++ [b]) = ⟨(course classify dir total bs).seen, data.length⟩ := by
      rw [course_snoc, Course.next, h]
      rfl
    have := hi (by rw [hn])
    simpa [hn] using this

-- A procedure byte, with the data bytes that follow it.
theorem course_procedure {data : List β} (h : (course classify dir total bs).left = 0) (hb : classify b ≠ .status)
    (hd : data.length = dir.following (transferred total (course classify dir total bs).seen) (classify b)) :
    course classify dir total (bs ++ b :: data) = ⟨(course classify dir total bs).seen ++ [classify b], 0⟩ := by
  have hc := course_concat (b := b) h
  rw [if_neg hb, ← hd] at hc
  rw [List.append_cons, course_data (by rw [hc]), hc]

-- Where a procedure byte is awaited, no byte of data or status is missing.
theorem Awaits.on_course {capacity limit nulls count : Nat}
    (h : Awaits classify dir total capacity limit bs nulls count) :
    (course classify dir total bs).left = 0 ∧ transferred total (course classify dir total bs).seen = count := by
  induction h
  case start => exact ⟨rfl, rfl⟩
  case null count _ hb _ hi =>
    have hf : ([] : List β).length = dir.following count .null := by cases dir <;> rfl
    rw [course_procedure hi.left (by simp [hb]) (by rw [hb, hi.right, hf]), transferred_concat, hb]
    exact ⟨rfl, hi.right⟩
  case all hb _ hd hi =>
    rw [course_procedure hi.left (by simp [hb]) (by rw [hb, hi.right, hd]), transferred_concat, hb]
    exact ⟨rfl, rfl⟩
  case one hb _ hd hi =>
    rw [course_procedure hi.left (by simp [hb]) (by rw [hb, hi.right, hd]), transferred_concat, hb, hi.right]
    exact ⟨rfl, rfl⟩

end

end Iso7816.T0
