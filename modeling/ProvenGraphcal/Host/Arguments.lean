import ProvenGraphcal.Host.DenseArray
import ProvenGraphcal.Signature.FunctionSignature

/-!
# Arguments of a host function

Arguments are read from the values of the call's nodes at the kinds of their parameters. Scalars are
passed in one slot, arrays as their extents and their elements in row-major order.
-/

namespace ProvenGraphcal.Host

/-- The index variables of a signature, with their spelling. -/
class IndexBinders (I : Type) extends LinearOrder I where
  text : I → String

variable {A I V B N Err : Type} [IndexAxes A] [IndexBinders I] [LinearOrder V] [LinearOrder B]

def quantityLeaf : ScalarLeaf A Binary64 Unit where
  element
    | .quantity value => .ok value
    | _ => .error ()
  leaf := .quantity
  element_leaf _ := rfl
  leaf_element value t h := by
    cases value with
    | quantity value =>
      cases h
      rfl
    | complex | bool | int | key | struct | indexed | datetime => cases h
  isIndexed_leaf _ := rfl

def boolLeaf : ScalarLeaf A Bool Unit where
  element
    | .bool value => .ok value
    | _ => .error ()
  leaf := .bool
  element_leaf _ := rfl
  leaf_element value t h := by
    cases value with
    | bool value =>
      cases h
      rfl
    | quantity | complex | int | key | struct | indexed | datetime => cases h
  isIndexed_leaf _ := rfl

def intLeaf : ScalarLeaf A I64 Unit where
  element
    | .int value => .ok value
    | _ => .error ()
  leaf := .int
  element_leaf _ := rfl
  leaf_element value t h := by
    cases value with
    | int value =>
      cases h
      rfl
    | quantity | complex | bool | key | struct | indexed | datetime => cases h
  isIndexed_leaf _ := rfl

inductive HostScalar
  | quantity (value : Binary64)
  | bool (value : Bool)
  | int (value : HostInt)

def HostScalar.abiSlot : HostScalar → Binary64
  | quantity value => value
  | bool value => encodeBool value
  | int value => value.slot

inductive HostArrayElements
  | quantity (values : List Binary64)
  | bool (values : List Bool)
  | int (values : List HostInt)

def HostArrayElements.abiSlots : HostArrayElements → List Binary64
  | quantity values => values
  | bool values => values.map encodeBool
  | int values => values.map HostInt.slot

structure HostArgumentArray where
  shape : List ℕ
  elements : HostArrayElements

inductive HostArgument
  | scalar (value : HostScalar)
  | array (array : HostArgumentArray)

inductive ArrayData (A : Type) [IndexAxes A]
  | quantity (array : DenseArray A Binary64)
  | bool (array : DenseArray A Bool)
  | int (array : DenseArray A I64)

def ArrayData.axes : ArrayData A → NonEmpty A
  | quantity array => array.axes
  | bool array => array.axes
  | int array => array.axes

/-- An array with the index variables that its axes bind. -/
structure ArrayArgument (I A : Type) [IndexAxes A] where
  bindings : NonEmpty (I × A)
  data : ArrayData A

inductive ArgumentError
  | inexactInt (parameter : String) (error : HostScalarError)
  | inexactIntElement (parameter : String) (index : ℕ) (error : HostScalarError)

namespace ArrayArgument

/-- The elements of an indexed value of the given kind. -/
def dataOf (value : IndexedValue A) : ScalarValueKind V B → Option (ArrayData A)
  | .quantity _ => (DenseArray.tryFromIndexed quantityLeaf.element value).toOption.map .quantity
  | .bool => (DenseArray.tryFromIndexed boolLeaf.element value).toOption.map .bool
  | .int => (DenseArray.tryFromIndexed intLeaf.element value).toOption.map .int

/-- The value read as an array; any other value is given back. -/
def tryFromValue (value : RuntimeValue A) (element : ScalarValueKind V B) (indexes : NonEmpty I) :
    Except (RuntimeValue A) (ArrayArgument I A) :=
  let data := match value with
    | .indexed axis entries => dataOf ⟨axis, entries⟩ element
    | _ => none
  match data.filter fun data => data.axes.items.length = indexes.items.length with
  | none => .error value
  | some data =>
    match NonEmpty.tryFromVec (indexes.items.zip data.axes.items) with
    | some bindings => .ok ⟨bindings, data⟩
    | none => .error value

/-- Every integer of an array at its flat position. -/
def hostInts (parameter : String) (values : List I64) :
    Except (Failure ArgumentError) (List HostInt) :=
  values.zipIdx.mapM fun entry => (HostInt.tryNew entry.1).mapError fun error =>
    .error (.inexactIntElement parameter entry.2 error)

def intoHost (argument : ArrayArgument I A) (parameter : String) :
    Except (Failure ArgumentError) HostArgumentArray :=
  let shape := argument.data.axes.items.map len
  match argument.data with
  | .quantity array => .ok ⟨shape, .quantity array.data⟩
  | .bool array => .ok ⟨shape, .bool array.data⟩
  | .int array => do return ⟨shape, .int (← hostInts parameter array.data)⟩

end ArrayArgument

/-- The evaluator of a call's nodes; a value of another kind contradicts the node's checked type. -/
structure Operands (A N Err : Type) [IndexAxes A] where
  evaluate : N → Except Err (RuntimeValue A)
  contradiction : N → String → RuntimeValue A → Err

namespace Operands

def read {T : Type} (operands : Operands A N Err) (node : N) (expected : String)
    (extract : RuntimeValue A → Except (RuntimeValue A) T) : Except Err T := do
  (extract (← operands.evaluate node)).mapError (operands.contradiction node expected)

def quantity (operands : Operands A N Err) (node : N) : Except Err Binary64 :=
  operands.read node "a quantity" fun value =>
    match value with
    | .quantity quantity => .ok quantity
    | other => .error other

def bool (operands : Operands A N Err) (node : N) : Except Err Bool :=
  operands.read node "a Bool" fun value =>
    match value with
    | .bool bool => .ok bool
    | other => .error other

def int (operands : Operands A N Err) (node : N) : Except Err I64 :=
  operands.read node "an Int" fun value =>
    match value with
    | .int int => .ok int
    | other => .error other

def array (operands : Operands A N Err) (node : N) (element : ScalarValueKind V B)
    (indexes : NonEmpty I) : Except Err (ArrayArgument I A) :=
  operands.read node "an array of its parameter's element kind and rank" fun value =>
    ArrayArgument.tryFromValue value element indexes

end Operands

/-- The parameter of an argument, by the kind that the argument crosses as. -/
inductive ExternArgKind (I V B : Type) [LinearOrder V] [LinearOrder B]
  | quantity (param : String)
  | bool (param : String)
  | int (param : String)
  | indexed (param : String) (element : ScalarValueKind V B) (indexes : NonEmpty I)

inductive EncodeError (Err : Type)
  | value (error : Err)
  | argument (position : ℕ) (failure : Failure ArgumentError)

def bindAxis (bound : SortedMap I A) (binding : I × A) : Except String (SortedMap I A) :=
  match bound.get? binding.1 with
  | none => .ok (bound.insert binding.1 binding.2)
  | some previous =>
    if previous = binding.2 then .ok bound
    else .error ("received inconsistent typed axes for index variable `" ++
      IndexBinders.text binding.1 ++ "` after dimension checking")

/-- Record the axes that an array binds to its index variables. -/
def bindAxes (bound : SortedMap I A) (bindings : List (I × A)) : Except String (SortedMap I A) :=
  bindings.foldlM bindAxis bound

def encodeArgument (operands : Operands A N Err) (bound : SortedMap I A) (position : ℕ)
    (argument : ExternArgKind I V B × N) :
    Except (EncodeError Err) (HostArgument × SortedMap I A) :=
  match argument.1 with
  | .quantity _ => do
    return (.scalar (.quantity (← (operands.quantity argument.2).mapError .value)), bound)
  | .bool _ => do
    return (.scalar (.bool (← (operands.bool argument.2).mapError .value)), bound)
  | .int param => do
    let value ← (operands.int argument.2).mapError .value
    let int ← (HostInt.tryNew value).mapError fun error =>
      .argument position (.error (.inexactInt param error))
    return (.scalar (.int int), bound)
  | .indexed param element indexes => do
    let array ← (operands.array argument.2 element indexes).mapError .value
    let bound ← (bindAxes bound array.bindings.items).mapError fun description =>
      .argument position (.invariant description)
    let host ← (array.intoHost param).mapError (.argument position)
    return (.array host, bound)

def encodeFrom (operands : Operands A N Err) : ℕ → SortedMap I A →
    List (ExternArgKind I V B × N) → Except (EncodeError Err) (List HostArgument × SortedMap I A)
  | _, bound, [] => .ok ([], bound)
  | position, bound, argument :: rest => do
    let (value, bound) ← encodeArgument operands bound position argument
    let (values, bound) ← encodeFrom operands (position + 1) bound rest
    return (value :: values, bound)

/-- Encode the arguments of a call in order. -/
def encode (operands : Operands A N Err) (arguments : List (ExternArgKind I V B × N)) :
    Except (EncodeError Err) (List HostArgument × SortedMap I A) :=
  encodeFrom operands 0 .empty arguments

end ProvenGraphcal.Host
