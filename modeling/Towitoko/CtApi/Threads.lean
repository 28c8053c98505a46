import Mathlib.Logic.Function.Basic
import Towitoko.Interaction.Steps
import Towitoko.CtApi.CtApi

-- The functions of src/ct-api/ctapi.c called by several threads. Their steps are the regions that the mutex of
-- the list or that of a card terminal protects, and what lies between these regions.
namespace Towitoko

open Interaction

-- A card terminal, known by its number and by how many with this number were closed before it was made.
structure TerminalRef where
  ctn    : Nat
  closed : Nat
  deriving DecidableEq, Repr

-- The arguments of `CT_data`.
structure DataCall where
  ctn : Nat
  dad : Byte
  sad : Byte
  cmd : List Byte
  lr  : Nat
  deriving DecidableEq, Repr

-- How far a thread has come in `CT_data`: the card terminal was looked up, its mutex is to be locked, it
-- is locked, or the function has returned.
inductive Phase
  | idle
  | found (call : DataCall) (ref : Option TerminalRef)
  | locking (call : DataCall) (ref : TerminalRef) (cmd : ApduCmd)
  | inside (call : DataCall) (ref : TerminalRef) (cmd : ApduCmd)
  | returned (data : CtApi.Data)

namespace Phase

-- The thread is not in `CT_data`.
def IsOutside : Phase → Prop
  | idle       => True
  | returned _ => True
  | _          => False

-- The card terminal whose mutex is still to be locked, or is locked.
def ref? : Phase → Option TerminalRef
  | found call ref   => if (ApduCmd.new call.cmd).isSome then ref else none
  | locking _ ref _  => some ref
  | inside _ ref _   => some ref
  | _                => none

-- The card terminal in whose protected region the thread is.
def inside? : Phase → Option TerminalRef
  | inside _ ref _ => some ref
  | _              => none

-- The card terminal whose mutex the thread locks next.
def locking? : Phase → Option TerminalRef
  | locking _ ref _ => some ref
  | _               => none

end Phase

-- The list of card terminals, how many of each number have been closed, and where the threads are.
structure CtThreads (Thread : Type) where
  list     : CtList CardTerminal
  closings : Nat → Nat
  phase    : Thread → Phase

inductive ThreadAction (Thread : Type)
  | init (th : Thread) (ctn pn : Nat)
  | close (th : Thread) (ctn : Nat)
  | lookup (th : Thread) (call : DataCall)
  | prepare (th : Thread)
  | lock (th : Thread)
  | unlock (th : Thread)

namespace CtThreads

variable {Thread : Type}

def start : CtThreads Thread where
  list     := []
  closings := fun _ => 0
  phase    := fun _ => .idle

-- The card terminal that `CT_List_GetCardTerminal` returns.
def find (s : CtThreads Thread) (ctn : Nat) : Option TerminalRef :=
  (s.list.getCardTerminal ctn).map fun _ => ⟨ctn, s.closings ctn⟩

-- `CT_close` has closed the card terminal and removed it from the list.
def Closed (s : CtThreads Thread) (ref : TerminalRef) : Prop :=
  ref.closed < s.closings ref.ctn

variable [DecidableEq Thread]

def setPhase (s : CtThreads Thread) (th : Thread) (phase : Phase) : CtThreads Thread :=
  { s with phase := Function.update s.phase th phase }

-- The list after `CT_close`.
def removed (s : CtThreads Thread) (ctn : Nat) (list : CtList CardTerminal) : CtThreads Thread :=
  { s with
    list
    closings := if (s.find ctn).isSome then Function.update s.closings ctn (s.closings ctn + 1) else s.closings }

inductive Step (s : CtThreads Thread) : ThreadAction Thread → CtThreads Thread → Prop
  -- The whole of `CT_init` and `CT_close` is protected by the mutex of the list.
  | init {th ctn pn t ret list} :
    (s.phase th).IsOutside → Run ((CtApi.init ctn pn).run s.list) t (ret, list) → Step s (.init th ctn pn) { s with list }
  | close {th ctn t ret list} :
    (s.phase th).IsOutside → Run ((CtApi.close ctn).run s.list) t (ret, list) → Step s (.close th ctn) (s.removed ctn list)
  -- `CT_data` only looks up the card terminal under this mutex.
  | lookup {th call} :
    (s.phase th).IsOutside → Step s (.lookup th call) (s.setPhase th (.found call (s.find call.ctn)))
  | absent {th call} :
    s.phase th = .found call none →
    Step s (.prepare th)
      (s.setPhase th (.returned { ret := .errCt, lr := call.lr, rsp := [], dad := call.dad, sad := call.sad }))
  | malformed {th call ref} :
    s.phase th = .found call (some ref) → ApduCmd.new call.cmd = none →
    Step s (.prepare th)
      (s.setPhase th (.returned { ret := .errMemory, lr := call.lr, rsp := [], dad := call.dad, sad := call.sad }))
  | prepare {th call ref cmd} :
    s.phase th = .found call (some ref) → ApduCmd.new call.cmd = some cmd →
    Step s (.prepare th) (s.setPhase th (.locking call ref cmd))
  | lock {th call ref cmd} :
    s.phase th = .locking call ref cmd → (∀ th', (s.phase th').inside? ≠ some ref) →
    Step s (.lock th) (s.setPhase th (.inside call ref cmd))
  -- The card terminal has to be there until its mutex is unlocked.
  | unlock {th call ref cmd ct t r ct'} :
    s.phase th = .inside call ref cmd → s.find ref.ctn = some ref → s.list.getCardTerminal ref.ctn = some ct →
    Run ((CtApi.dispatch cmd call.dad call.sad).run ct) t (r, ct') →
    Step s (.unlock th)
      ({ s with list := s.list.setCardTerminal ref.ctn ct' }.setPhase th (.returned (r.toData call.lr)))

-- No thread uses a card terminal that is closed.
def Safe (s : CtThreads Thread) : Prop :=
  ∀ th ref, (s.phase th).inside? = some ref → ¬s.Closed ref

-- The step does not lock the mutex of a card terminal that is closed, and does not close one in whose protected
-- region a thread is.
def Harmless (s : CtThreads Thread) : ThreadAction Thread → Prop
  | .lock th     => ∀ ref, (s.phase th).locking? = some ref → ¬s.Closed ref
  | .close _ ctn => ∀ th ref, (s.phase th).inside? = some ref → s.find ctn ≠ some ref
  | _            => True

def Sound : CtThreads Thread × ThreadAction Thread → Prop
  | (s, a) => s.Safe ∧ s.Harmless a

-- No command runs on a closed card terminal, in any state and step of a run.
def Upheld (l : List (CtThreads Thread × ThreadAction Thread)) (s : CtThreads Thread) : Prop :=
  (∀ step ∈ l, Sound step) ∧ s.Safe

-- A card terminal is closed only when no thread has looked it up for a command that is still to run or running.
def Careful : CtThreads Thread × ThreadAction Thread → Prop
  | (s, .close _ ctn) => ∀ th ref, (s.phase th).ref? = some ref → s.find ctn ≠ some ref
  | _                 => True

end CtThreads
end Towitoko
