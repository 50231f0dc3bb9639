import Observing.Uuid

/-!
# Identities of atoms and steps

Atoms and steps are named by where they stand: the same place always has the same identity, so that
what was recorded can be matched with what was planned.

* `AtomKey`, `StepKey`  the places that carry an identity, and how a place is spelled;
* `AtomKey.id`, `StepKey.id`  the identity of a place.
-/

namespace Observing

/-- The two sequences of an observation. -/
inductive SequenceType
  | acquisition
  | science
deriving DecidableEq

def SequenceType.text : SequenceType → String
  | .acquisition => "acquisition"
  | .science => "science"

/-- The identity of an atom. -/
structure AtomId where
  uuid : Uuid
deriving DecidableEq

/-- The identity of a step. -/
structure StepId where
  uuid : Uuid
deriving DecidableEq

def namespaceId : Uuid := ⟨0x5e9c6e2a41b74c1d9a0f73d22b8e6a11#128⟩

namespace AtomId

def text (a : AtomId) : String := a.uuid.text

/-- The identity of the atom with the given name. -/
def named (name : String) : AtomId := ⟨namespaceId.named name⟩

end AtomId

namespace StepId

def text (s : StepId) : String := s.uuid.text

/-- The identity of the step with the given name. -/
def named (name : String) : StepId := ⟨namespaceId.named name⟩

end StepId

/-! ## Places -/

/-- The places of atoms. -/
inductive AtomKey
  /-- The planned atom at a position of a sequence. -/
  | planned (observation : String) (sequence : SequenceType) (position : Nat)
  /-- The atom that repeats a failed step. -/
  | repeated (observation : String) (sequence : SequenceType) (failed : StepId)
deriving DecidableEq

/-- The places of steps. -/
inductive StepKey
  /-- The step at an index of an atom. -/
  | planned (atom : AtomId) (index : Nat)
  /-- The step that repeats a failed step inside an atom. -/
  | repeated (atom : AtomId) (failed : StepId)
deriving DecidableEq

def AtomKey.text : AtomKey → String
  | .planned observation sequence position =>
    observation ++ "/" ++ sequence.text ++ "/atom/" ++ toString position
  | .repeated observation sequence failed =>
    observation ++ "/" ++ sequence.text ++ "/redo/" ++ failed.text

def StepKey.text : StepKey → String
  | .planned atom index => atom.text ++ "/" ++ toString index
  | .repeated atom failed => atom.text ++ "/redo/" ++ failed.text

def AtomKey.id (k : AtomKey) : AtomId := AtomId.named k.text

def StepKey.id (k : StepKey) : StepId := StepId.named k.text

end Observing
