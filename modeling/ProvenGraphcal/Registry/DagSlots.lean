import ProvenGraphcal.Library.SortedMap

/-!
# The DAGs of one program at their positions

Owned local bodies and imported checked handles. `none` stands for an index that panics; a body
borrowed mutably is the body it is replaced by.
-/

namespace ProvenGraphcal

/-- What a registry holds for each local body, with its view of an imported handle. -/
class SlotBody (L : Type) (S I : outParam Type) where
  ofShared : S → L
  slotId : L → I
  dagId : S → I
  slotId_ofShared : ∀ shared, slotId (ofShared shared) = dagId shared

/-- Where the DAG at one position lives. -/
inductive Slot
  | localBody (index : ℕ)
  | shared (index : ℕ)
  deriving DecidableEq

structure DagSlots (L S I : Type) [LinearOrder I] where
  locals : List L
  localPositions : List ℕ
  shared : List S
  slots : List Slot
  positions : I → Option ℕ
  localOrder : SortedMap I ℕ
  sharedOrder : SortedMap I ℕ

/-- `DagRegistryError::DuplicateDag`. -/
structure DuplicateDag (I : Type) where
  dagId : I

namespace DagSlots

open SlotBody

variable {L S I : Type} [LinearOrder I] [SlotBody L S I]

/-- A registry of only `root`. -/
def new (root : L) : DagSlots L S I where
  locals := [root]
  localPositions := [0]
  shared := []
  slots := [.localBody 0]
  positions := Function.update (fun _ => none) (slotId root) (some 0)
  localOrder := SortedMap.empty
  sharedOrder := SortedMap.empty

def nextPosition (r : DagSlots L S I) (id : I) : Except (DuplicateDag I) ℕ :=
  if (r.positions id).isSome then .error ⟨id⟩ else .ok r.slots.length

/-- Add a local body at the next position. -/
def pushLocal (r : DagSlots L S I) (dag : L) : Except (DuplicateDag I) (DagSlots L S I × ℕ) := do
  let position ← r.nextPosition (slotId dag)
  return ({ r with
    locals := r.locals ++ [dag]
    localPositions := r.localPositions ++ [position]
    slots := r.slots ++ [.localBody r.locals.length]
    positions := Function.update r.positions (slotId dag) (some position)
    localOrder := r.localOrder.insert (slotId dag) r.locals.length }, position)

/-- Add an imported handle at the next position. -/
def pushShared (r : DagSlots L S I) (dag : S) : Except (DuplicateDag I) (DagSlots L S I × ℕ) := do
  let position ← r.nextPosition (dagId L dag)
  return ({ r with
    shared := r.shared ++ [dag]
    slots := r.slots ++ [.shared r.shared.length]
    positions := Function.update r.positions (dagId L dag) (some position)
    sharedOrder := r.sharedOrder.insert (dagId L dag) r.shared.length }, position)

/-- Copy the imported handle `dag` at `position` into a local body at the same position. -/
def localize (r : DagSlots L S I) (position : ℕ) (dag : S) : DagSlots L S I :=
  let body : L := ofShared dag
  { r with
    locals := r.locals ++ [body]
    localPositions := r.localPositions ++ [position]
    slots := r.slots.set position (.localBody r.locals.length)
    localOrder := r.localOrder.insert (slotId body) r.locals.length
    sharedOrder := r.sharedOrder.set (slotId body) none }

/-- Borrow the local body at `position` mutably, first localizing an imported handle; the borrower
replaces the body by `update body`. -/
def localizedMut (r : DagSlots L S I) (position : ℕ) (update : L → L) :
    Option (DagSlots L S I) := do
  match ← r.slots[position]? with
  | .localBody index => return { r with locals := r.locals.modify index update }
  | .shared index =>
    let dag ← r.shared[index]?
    let r' := r.localize position dag
    return { r' with locals := r'.locals.modify r.locals.length update }

def root (r : DagSlots L S I) : Option L := r.locals[0]?

def contains (r : DagSlots L S I) (id : I) : Bool := (r.positions id).isSome

def position (r : DagSlots L S I) (id : I) : Option ℕ := r.positions id

def len (r : DagSlots L S I) : ℕ := r.slots.length

/-- The DAG at `position`. -/
def bodyAt (r : DagSlots L S I) (position : ℕ) : Option L := do
  match ← r.slots[position]? with
  | .localBody index => r.locals[index]?
  | .shared index => (r.shared[index]?).map ofShared

/-- The imported checked handle with this identity. -/
def sharedHandle (r : DagSlots L S I) (id : I) : Option S :=
  (r.sharedOrder.get? id).bind fun index => r.shared[index]?

/-- The local bodies in visiting order: the root, then the others in identity order. -/
def localIter (r : DagSlots L S I) : Option (List (I × L)) := do
  let root ← r.root
  let others ← r.localOrder.entries.mapM fun e => (r.locals[e.2]?).map (e.1, ·)
  return (slotId root, root) :: others

/-- The imported checked handles, in identity order. -/
def sharedIter (r : DagSlots L S I) : Option (List (I × S)) :=
  r.sharedOrder.entries.mapM fun e => (r.shared[e.2]?).map (e.1, ·)

/-- Every DAG in visiting order. -/
def iter (r : DagSlots L S I) : Option (List (I × L)) := do
  let locals ← r.localIter
  let shared ← r.sharedIter
  return locals ++ shared.map fun e => (e.1, ofShared e.2)

/-- Number of local bodies. -/
def localCount (r : DagSlots L S I) : ℕ := r.locals.length

/-- Every DAG's position, in visiting order. -/
def iterPositions (r : DagSlots L S I) : Option (List ℕ) := do
  let locals ← (0 :: r.localOrder.entries.map Prod.snd).mapM fun index => r.localPositions[index]?
  let shared ← r.sharedOrder.keys.mapM r.positions
  return locals ++ shared

/-- The local bodies that `locals_mut` borrows, in the order it borrows them. -/
def localsMut (r : DagSlots L S I) : List L := r.locals

/-- The registry's local bodies and its imported handles. -/
def intoLocals (r : DagSlots L S I) : List L × List S := (r.locals, r.shared)

/-- An operation that adds a DAG or borrows one mutably; a borrower keeps the identity. -/
inductive Operation (L S I : Type) [LinearOrder I] [SlotBody L S I]
  | pushLocal (dag : L)
  | pushShared (dag : S)
  | localizedMut (position : ℕ) (update : L → L) (keeps : ∀ dag, slotId (update dag) = slotId dag)

/-- The registry after an operation; a duplicate is refused and changes nothing. -/
def apply (r : DagSlots L S I) : Operation L S I → Option (DagSlots L S I)
  | .pushLocal dag =>
    match r.pushLocal dag with
    | .ok (r', _) => some r'
    | .error _ => some r
  | .pushShared dag =>
    match r.pushShared dag with
    | .ok (r', _) => some r'
    | .error _ => some r
  | .localizedMut position update _ => r.localizedMut position update

def run (r : DagSlots L S I) (operations : List (Operation L S I)) : Option (DagSlots L S I) :=
  operations.foldlM apply r

/-- The operation copies an imported handle into a local body. -/
def Localizes (r : DagSlots L S I) : Operation L S I → Prop
  | .pushLocal _ => False
  | .pushShared _ => False
  | .localizedMut position _ _ => ∃ index, r.slots[position]? = some (.shared index)

theorem run_append (r : DagSlots L S I) (operations operations' : List (Operation L S I)) :
    r.run (operations ++ operations') = (r.run operations).bind fun r' => r'.run operations' := by
  rw [run, List.foldlM_append]
  rfl

end DagSlots

end ProvenGraphcal
