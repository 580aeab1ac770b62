import ProvenGraphcal.Algebra.NatPolyDenotation
import ProvenGraphcal.Constant.OperatorTyping
import ProvenGraphcal.Nominal.Finiteness

/-!
# Keys of finite axes and their shifts

`k + c` shifts a key onto an axis that is longer by the static addend. The axes are those of the
checked types once these are specialized and closed; the shift takes its distance from them.
-/

namespace ProvenGraphcal.Nominal

open Constant (BinOp)
open Checked (bind_eq_ok bind_pure_eq_ok mapError_eq_ok map_eq_ok)

variable {P B N F : Type} [LinearOrder P] [LinearOrder B]

inductive FinKeyArithmeticRule
  | namedOrCoordinateKey
  | subtraction
  | integerAddend
  | runtimeOffset
  | negativeAddend

inductive FinKeyError
  | rejected (help : FinKeyArithmeticRule)
  | natOverflow (error : NatOverflowError)
  | invalidFiniteIndexCardinality (error : IndexCardinalityError)

/-- A constant form is validated at once. -/
def FiniteIndexRef.fromForm (form : NatPolyForm P) :
    Except IndexCardinalityError (FiniteIndexRef P) :=
  match h : form.constantValue with
  | some size => (IndexCardinality.tryFromU64 size).map .concrete
  | none => .ok (.symbolic form h)

def FiniteIndexRef.form : FiniteIndexRef P → NatPolyForm P
  | .concrete index => .fromConstant index.sizeU64
  | .symbolic form _ => form

def IndexTypeRef.finiteIndexForm : IndexTypeRef N (FiniteIndexRef P) → Option (NatPolyForm P)
  | .declared _ => none
  | .finite axis => some axis.form

/-- `u64::try_from`. -/
def tryFromInt (n : ℤ) : Option U64 :=
  if h : 0 ≤ n ∧ n < 2 ^ 64 then some ⟨n.toNat, by omega⟩ else none

/-- `k : Key<Fin(N)>` plus a static constant `c` is a `Key<Fin(N + c)>`. -/
def finKeyAdditiveRule (op : BinOp) (keyIndex : IndexTypeRef N (FiniteIndexRef P))
    (rhs : SymbolicType P B N) (rhsConstInt : Option ℤ) :
    Except FinKeyError (SymbolicType P B N) :=
  match keyIndex.finiteIndexForm with
  | none => .error (.rejected .namedOrCoordinateKey)
  | some bound =>
    match op with
    | .add =>
      match rhs with
      | .int =>
        match rhsConstInt with
        | none => .error (.rejected .runtimeOffset)
        | some addend =>
          match tryFromInt addend with
          | none => .error (.rejected .negativeAddend)
          | some addend => do
            let shifted ← (bound.add (.fromConstant addend)).mapError .natOverflow
            let axis ← (FiniteIndexRef.fromForm shifted).mapError .invalidFiniteIndexCardinality
            return .key (.finite axis)
      | _ => .error (.rejected .integerAddend)
    | _ => .error (.rejected .subtraction)

inductive CloseError (P : Type)
  | natOverflow
  | unboundNat
  | cardinality (error : IndexCardinalityError)

/-- A form that must become a constant. -/
def closeNat (nats : P → Option U64) (form : NatPolyForm P) : Except (CloseError P) U64 := do
  let closed ← (form.substituteForms fun param => (nats param).map .fromConstant).mapError
    fun _ => .natOverflow
  if closed.variableSet = ∅ then return closed.constant else throw .unboundNat

def IndexTypeRef.instantiate (nats : P → Option U64) :
    IndexTypeRef N (FiniteIndexRef P) → Except (CloseError P) (IndexTypeRef N FiniteIndex)
  | .declared name => .ok (.declared name)
  | .finite (.concrete index) => .ok (.finite index)
  | .finite (.symbolic form _) => do
    let size ← closeNat nats form
    let index ← (IndexCardinality.tryFromU64 size).mapError .cardinality
    return .finite index

/-- What a body is specialized with: the index ports that an instance binds, or the `Nat`
arguments of a generic application. -/
inductive BodySubstitution (P N : Type)
  | static (indexes : N → Option (IndexTypeRef N FiniteIndex))
  | generic (nats : P → Option U64)

namespace BodySubstitution

def specializeIndexRef (indexes : N → Option (IndexTypeRef N FiniteIndex)) :
    IndexTypeRef N (FiniteIndexRef P) → IndexTypeRef N (FiniteIndexRef P)
  | .declared name => ((indexes name).map (·.toSymbolic)).getD (.declared name)
  | .finite axis => .finite axis

def index (index : IndexTypeRef N (FiniteIndexRef P)) :
    BodySubstitution P N → Except (CloseError P) (IndexTypeRef N (FiniteIndexRef P))
  | static indexes => .ok (specializeIndexRef indexes index)
  | generic nats => do return (← index.instantiate nats).toSymbolic

/-- A body may be specialized several times. -/
def specialize (substitutions : List (BodySubstitution P N))
    (index : IndexTypeRef N (FiniteIndexRef P)) :
    Except (CloseError P) (IndexTypeRef N (FiniteIndexRef P)) :=
  substitutions.foldlM BodySubstitution.index index

end BodySubstitution

deriving instance DecidableEq for IndexTypeRef

/-- The coordinates are the finite ones; `F` are finite quantities. -/
structure CoordinateIndexData (F : Type) where
  cardinality : IndexCardinality
  coordinateValue : ℕ → Option F

inductive ConcreteIndexKind (F : Type)
  | named (variants : NonEmpty String)
  | coordinate (data : CoordinateIndexData F)
  | finite (index : FiniteIndex)

namespace ConcreteIndexKind

def entryKeys : ConcreteIndexKind F → List IndexEntryKey
  | named variants => variants.items.map .named
  | coordinate data => (List.range data.cardinality.get).map .position
  | finite index => (List.range index.get).map .position

def isFinite : ConcreteIndexKind F → Bool
  | finite _ => true
  | named _ | coordinate _ => false

end ConcreteIndexKind

/-- A concrete index; its keys are the entries of its definition. -/
structure IndexAxis (N F : Type) where
  index : IndexTypeRef N FiniteIndex
  kind : ConcreteIndexKind F
  nonempty : kind.entryKeys ≠ []
  coordinates : List F

namespace IndexAxis

def fromConcrete (index : IndexTypeRef N FiniteIndex) (kind : ConcreteIndexKind F) :
    Option (IndexAxis N F) :=
  if h : kind.entryKeys = [] then none
  else
    match kind with
    | .coordinate data =>
      ((List.range data.cardinality.get).mapM data.coordinateValue).map fun coordinates =>
        ⟨index, .coordinate data, h, coordinates⟩
    | .named variants => some ⟨index, .named variants, h, []⟩
    | .finite size => some ⟨index, .finite size, h, []⟩

def keys (axis : IndexAxis N F) : List IndexEntryKey := axis.kind.entryKeys

def len (axis : IndexAxis N F) : ℕ := axis.keys.length

/-- A later key replaces an earlier one in the map of positions. -/
def position (axis : IndexAxis N F) (key : IndexEntryKey) : Option ℕ :=
  axis.keys.zipIdx.reverse.lookup key

variable [DecidableEq N]

def matchesAxis (axis other : IndexAxis N F) : Bool := axis.index = other.index

/-- A key of `keyAxis` selects an entry of this axis. -/
def admits (axis keyAxis : IndexAxis N F) : Bool :=
  if axis.kind.isFinite && keyAxis.kind.isFinite then keyAxis.len ≤ axis.len
  else axis.matchesAxis keyAxis

end IndexAxis

inductive NotConcrete
  | waiting
  | axisShape
  | unavailableIndex
  | nonFiniteAxis
  | keyShift

/-- A registry has the definitions of the declared indexes; those without a kind wait. -/
def concreteIndexKind (registry : N → Option (Option (ConcreteIndexKind F))) :
    IndexTypeRef N FiniteIndex → Except NotConcrete (ConcreteIndexKind F)
  | .finite index => .ok (.finite index)
  | .declared name =>
    match registry name with
    | none => .error .unavailableIndex
    | some none => .error .waiting
    | some (some kind) => .ok kind

def concreteAxis (registry : N → Option (Option (ConcreteIndexKind F)))
    (index? : Option (IndexTypeRef N FiniteIndex)) : Except NotConcrete (IndexAxis N F) :=
  match index? with
  | none => .error .axisShape
  | some index => do
    let kind ← concreteIndexKind registry index
    match IndexAxis.fromConcrete index kind with
    | some axis => return axis
    | none => throw .nonFiniteAxis

/-- One entry of an axis, by its position. -/
structure KeyValue (N F : Type) where
  axis : IndexAxis N F
  position : ℕ

namespace KeyValue

/-- `KeyValue::at`. -/
def atPosition (axis : IndexAxis N F) (position : ℕ) : Option (KeyValue N F) :=
  if position < axis.len then some ⟨axis, position⟩ else none

def forEntry (axis : IndexAxis N F) (entry : IndexEntryKey) : Option (KeyValue N F) :=
  (axis.position entry).map fun position => ⟨axis, position⟩

def all (axis : IndexAxis N F) : List (KeyValue N F) :=
  (List.range axis.len).map fun position => ⟨axis, position⟩

/-- `fin_key`: a position that is checked when it is evaluated. -/
def finKey (axis : IndexAxis N F) (position : ℤ) : Option (KeyValue N F) :=
  (tryFromInt position).bind fun position => atPosition axis position.val

/-- The entry key is read at the position; there is none past the end. -/
def entryKey (key : KeyValue N F) : Option IndexEntryKey := key.axis.keys[key.position]?

end KeyValue

structure FinKeyShift (N F : Type) where
  source : IndexAxis N F
  target : IndexAxis N F
  distance : ℕ

namespace FinKeyShift

def tryNew (source target : IndexAxis N F) : Option (FinKeyShift N F) :=
  if source.kind.isFinite && target.kind.isFinite then
    if source.len ≤ target.len then some ⟨source, target, target.len - source.len⟩ else none
  else none

/-- The key shifted onto the target, or the key itself if the source does not admit it. -/
def shift [DecidableEq N] (shift : FinKeyShift N F)
    (key : KeyValue N F) : Except (KeyValue N F) (KeyValue N F) :=
  if shift.source.admits key.axis then .ok ⟨shift.target, key.position + shift.distance⟩
  else .error key

end FinKeyShift

/-- The shift from the axis of a key's type to that of the sum's. -/
def keyShift (registry : N → Option (Option (ConcreteIndexKind F)))
    (source? target? : Option (IndexTypeRef N FiniteIndex)) :
    Except NotConcrete (FinKeyShift N F) := do
  let source ← concreteAxis registry source?
  let target ← concreteAxis registry target?
  match FinKeyShift.tryNew source target with
  | some shift => return shift
  | none => throw .keyShift

/-- One entry for each key of an axis. -/
structure IndexedValue (N F V : Type) where
  axis : IndexAxis N F
  entries : List V
  length_entries : entries.length = axis.len

/-- The entry that a key selects, also one of a shorter finite axis. -/
def IndexedValue.getKey [DecidableEq N] {V : Type} (value : IndexedValue N F V)
    (key : KeyValue N F) : Option V :=
  if value.axis.admits key.axis then value.entries[key.position]? else none

/-! ## What a form denotes once it is closed -/

variable {form : NatPolyForm P} {value : U64}

omit [LinearOrder B] in
theorem denote_of_constantValue (h : form.constantValue = some value) (σ : P → ℕ) :
    form.denote σ = value.val := by
  rw [← fromConstant_of_constantValue h, NatPolyForm.denote_fromConstant]

omit [LinearOrder B] in
theorem constantValue_of_variableSet (h : form.variableSet = ∅) :
    form.constantValue = some form.constant := by
  have hconstant : form.isConstant = true := by
    rw [NatPolyForm.isConstant, List.all_eq_true]
    intro mono hmono
    have hflat := List.toFinset_eq_empty_iff _ |>.mp h
    have hkeys : mono.factors.keys = [] := List.flatMap_eq_nil_iff.mp hflat mono hmono
    rw [SparseMonomial.isEmpty, SortedMap.isEmpty, List.isEmpty_iff]
    exact List.map_eq_nil_iff.mp hkeys
  rw [NatPolyForm.constantValue, if_pos hconstant]

def FiniteIndexRef.denote (axis : FiniteIndexRef P) (σ : P → ℕ) : ℕ := axis.form.denote σ

theorem FiniteIndexRef.denote_concrete (index : FiniteIndex) (σ : P → ℕ) :
    (FiniteIndexRef.concrete index).denote σ = index.get := by
  rw [denote, form, NatPolyForm.denote_fromConstant]
  rfl

theorem get_of_tryFromU64 {index : FiniteIndex}
    (h : IndexCardinality.tryFromU64 value = .ok index) : index.get = value.val := by
  unfold IndexCardinality.tryFromU64 at h
  split_ifs at h
  cases h
  rfl

theorem FiniteIndexRef.denote_fromForm {axis : FiniteIndexRef P} (h : fromForm form = .ok axis)
    (σ : P → ℕ) : axis.denote σ = form.denote σ := by
  unfold fromForm at h
  split at h
  · rename_i size hsize
    cases hindex : IndexCardinality.tryFromU64 size with
    | error e =>
      rw [hindex] at h
      cases h
    | ok index =>
      rw [hindex] at h
      cases h
      rw [denote_concrete, get_of_tryFromU64 hindex, denote_of_constantValue hsize]
  · cases h
    rfl

theorem tryFromInt_eq_some {n : ℤ} {u : U64} (h : tryFromInt n = some u) : n = u.val := by
  unfold tryFromInt at h
  split_ifs at h with hn
  cases h
  exact (Int.toNat_of_nonneg hn.1).symm

/-- The sum's axis is longer by the addend. -/
theorem finKeyAdditiveRule_eq_ok {op : BinOp} {keyIndex : IndexTypeRef N (FiniteIndexRef P)}
    {rhs result : SymbolicType P B N} {rhsConstInt : Option ℤ}
    (h : finKeyAdditiveRule op keyIndex rhs rhsConstInt = .ok result) :
    ∃ (source target : FiniteIndexRef P) (addend : U64), keyIndex = .finite source ∧
      result = .key (.finite target) ∧ rhsConstInt = some (addend.val : ℤ) ∧
      ∀ σ, target.denote σ = source.denote σ + addend.val := by
  cases keyIndex with
  | declared name => cases h
  | finite source =>
    rw [finKeyAdditiveRule, IndexTypeRef.finiteIndexForm] at h
    split at h
    · rename_i hnone
      cases hnone
    rename_i bound hbound
    cases hbound
    split at h
    · split at h
      · split at h
        · cases h
        · split at h
          · cases h
          · rename_i addend _ u hu
            rw [bind_eq_ok] at h
            obtain ⟨shifted, hshifted, h⟩ := h
            obtain ⟨target, htarget, rfl⟩ := bind_pure_eq_ok.mp h
            refine ⟨source, target, u, rfl, rfl, congrArg some (tryFromInt_eq_some hu),
              fun σ => ?_⟩
            rw [FiniteIndexRef.denote_fromForm (mapError_eq_ok.mp htarget),
              NatPolyForm.denote_add (mapError_eq_ok.mp hshifted),
              NatPolyForm.denote_fromConstant, FiniteIndexRef.denote]
      · cases h
    · cases h

variable {nats : P → Option U64}

omit [LinearOrder B] in
theorem closeNat_eq_ok {size : U64} (h : closeNat nats form = .ok size) :
    size.val = form.denote fun param => ((nats param).map Fin.val).getD 0 := by
  rw [closeNat, bind_eq_ok] at h
  obtain ⟨closed, hclosed, h⟩ := h
  split_ifs at h with hvariables
  cases h
  have hsubst := NatPolyForm.denote_substituteForms (mapError_eq_ok.mp hclosed) fun _ => 0
  rw [denote_of_constantValue (constantValue_of_variableSet hvariables)] at hsubst
  rw [hsubst]
  congr 1
  funext param
  rw [NatPolyForm.replacement]
  cases nats param with
  | none => exact NatPolyForm.denote_fromVar param _
  | some value => exact NatPolyForm.denote_fromConstant value _

/-- A generic application evaluates a finite axis. -/
theorem denote_instantiate {axis : FiniteIndexRef P} {index : IndexTypeRef N FiniteIndex}
    (h : (IndexTypeRef.finite axis).instantiate nats = .ok index) :
    ∃ size : FiniteIndex, index = .finite size ∧
      size.get = axis.denote fun param => ((nats param).map Fin.val).getD 0 := by
  cases axis with
  | concrete size =>
    cases h
    exact ⟨size, rfl, (FiniteIndexRef.denote_concrete size _).symm⟩
  | symbolic form hform =>
    rw [IndexTypeRef.instantiate, bind_eq_ok] at h
    obtain ⟨value, hvalue, h⟩ := h
    obtain ⟨size, hsize, rfl⟩ := bind_pure_eq_ok.mp h
    refine ⟨size, rfl, ?_⟩
    rw [get_of_tryFromU64 (mapError_eq_ok.mp hsize), closeNat_eq_ok hvalue]
    rfl

/-- Two finite axes whose lengths differ by a constant, whatever the parameters are. -/
def Apart (c : ℕ) (source target : IndexTypeRef N (FiniteIndexRef P)) : Prop :=
  ∃ axis axis', source = .finite axis ∧ target = .finite axis' ∧
    ∀ σ, axis'.denote σ = axis.denote σ + c

/-- A specialization keeps the axes apart. -/
theorem Apart.index {c : ℕ} {source target source' target' : IndexTypeRef N (FiniteIndexRef P)}
    {substitution : BodySubstitution P N} (h : Apart c source target)
    (hsource : substitution.index source = .ok source')
    (htarget : substitution.index target = .ok target') : Apart c source' target' := by
  obtain ⟨axis, axis', rfl, rfl, hdenote⟩ := h
  cases substitution with
  | static indexes =>
    cases hsource
    cases htarget
    exact ⟨axis, axis', rfl, rfl, hdenote⟩
  | generic nats =>
    obtain ⟨index, hindex, rfl⟩ := map_eq_ok.mp hsource
    obtain ⟨index', hindex', rfl⟩ := map_eq_ok.mp htarget
    obtain ⟨size, rfl, hsize⟩ := denote_instantiate hindex
    obtain ⟨size', rfl, hsize'⟩ := denote_instantiate hindex'
    refine ⟨.concrete size, .concrete size', rfl, rfl, fun σ => ?_⟩
    rw [FiniteIndexRef.denote_concrete, FiniteIndexRef.denote_concrete, hsize, hsize', hdenote]

theorem Apart.specialize {c : ℕ} {substitutions : List (BodySubstitution P N)}
    {source target source' target' : IndexTypeRef N (FiniteIndexRef P)} (h : Apart c source target)
    (hsource : BodySubstitution.specialize substitutions source = .ok source')
    (htarget : BodySubstitution.specialize substitutions target = .ok target') :
    Apart c source' target' := by
  induction substitutions generalizing source target with
  | nil =>
    cases hsource
    cases htarget
    exact h
  | cons substitution substitutions ih =>
    obtain ⟨next, hnext, hsource⟩ := bind_eq_ok.mp hsource
    obtain ⟨next', hnext', htarget⟩ := bind_eq_ok.mp htarget
    exact ih (h.index hnext hnext') hsource htarget

/-- The concrete axes differ by the same constant. -/
theorem Apart.toConcrete {c : ℕ} {source target : IndexTypeRef N (FiniteIndexRef P)}
    {index index' : IndexTypeRef N FiniteIndex} (h : Apart c source target)
    (hsource : source.toConcrete = some index) (htarget : target.toConcrete = some index') :
    ∃ size size' : FiniteIndex, index = .finite size ∧ index' = .finite size' ∧
      size'.get = size.get + c := by
  obtain ⟨axis, axis', rfl, rfl, hdenote⟩ := h
  match axis, axis', hsource, htarget with
  | .concrete size, .concrete size', hsource, htarget =>
    cases hsource
    cases htarget
    have hsizes := hdenote fun _ => 0
    rw [FiniteIndexRef.denote_concrete, FiniteIndexRef.denote_concrete] at hsizes
    exact ⟨size, size', rfl, rfl, hsizes⟩

variable {size : FiniteIndex} {axis : IndexAxis N F}

theorem IndexAxis.len_of_finite (h : axis.kind = .finite size) : axis.len = size.get := by
  rw [len, keys, h, ConcreteIndexKind.entryKeys, List.length_map, List.length_range]

theorem concreteAxis_finite {registry : N → Option (Option (ConcreteIndexKind F))}
    (h : concreteAxis registry (some (.finite size)) = .ok axis) : axis.kind = .finite size := by
  have hkeys : (ConcreteIndexKind.finite size : ConcreteIndexKind F).entryKeys ≠ [] := by
    intro hnil
    have hlength := congrArg List.length hnil
    rw [ConcreteIndexKind.entryKeys, List.length_map, List.length_range] at hlength
    exact absurd hlength (Nat.pos_iff_ne_zero.mp size.pos)
  rw [concreteAxis] at h
  dsimp only [concreteIndexKind, bind, Except.bind] at h
  rw [IndexAxis.fromConcrete, dif_neg hkeys] at h
  cases h
  rfl

variable {shift : FinKeyShift N F}

theorem FinKeyShift.tryNew_eq_some {source target : IndexAxis N F}
    (h : tryNew source target = some shift) :
    shift.source = source ∧ shift.target = target ∧ source.kind.isFinite = true ∧
      target.kind.isFinite = true ∧ shift.distance + source.len = target.len := by
  unfold tryNew at h
  split_ifs at h with hfinite hle
  cases h
  obtain ⟨hsource, htarget⟩ := Bool.and_eq_true_iff.mp hfinite
  exact ⟨rfl, rfl, hsource, htarget, Nat.sub_add_cancel hle⟩

/-- The typing rule admits `k + c`, and the shift is assembled from the closed types. -/
def Assembles (P B : Type) [LinearOrder P] [LinearOrder B]
    (registry : N → Option (Option (ConcreteIndexKind F))) (c : ℤ) (shift : FinKeyShift N F) :
    Prop :=
  ∃ (op : BinOp) (rhs : SymbolicType P B N) (substitutions : List (BodySubstitution P N))
    (source target source' target' : IndexTypeRef N (FiniteIndexRef P)),
    finKeyAdditiveRule op source rhs (some c) = .ok (.key target) ∧
      BodySubstitution.specialize substitutions source = .ok source' ∧
      BodySubstitution.specialize substitutions target = .ok target' ∧
      keyShift registry source'.toConcrete target'.toConcrete = .ok shift

/-! ## Keys are positions of their axes -/

variable {position : ℕ}

section Keys

variable (registry : N → Option (Option (ConcreteIndexKind F)))

/-- The axes of a program are those of its indexes. -/
def OfProgram (axis : IndexAxis N F) : Prop :=
  ∃ index, concreteAxis registry (some index) = .ok axis

/-- The keys that a program obtains: by position, by entry, one of all, by a checked integer, and by
shifting another. -/
inductive Obtained [DecidableEq N] : KeyValue N F → Prop
  | atPosition {axis : IndexAxis N F} {position : ℕ} {key : KeyValue N F} :
    OfProgram registry axis → KeyValue.atPosition axis position = some key → Obtained key
  | forEntry {axis : IndexAxis N F} {entry : IndexEntryKey} {key : KeyValue N F} :
    OfProgram registry axis → KeyValue.forEntry axis entry = some key → Obtained key
  | all {axis : IndexAxis N F} {key : KeyValue N F} :
    OfProgram registry axis → key ∈ KeyValue.all axis → Obtained key
  | finKey {axis : IndexAxis N F} {position : ℤ} {key : KeyValue N F} :
    OfProgram registry axis → KeyValue.finKey axis position = some key → Obtained key
  | shift {source target : IndexAxis N F} {shift : FinKeyShift N F} {key shifted : KeyValue N F} :
    Obtained key → OfProgram registry source → OfProgram registry target →
      FinKeyShift.tryNew source target = some shift → shift.shift key = .ok shifted →
      Obtained shifted

variable {registry}

/-- An assembled shift is between axes of the program, and its distance is the addend. -/
theorem Assembles.spec {c : ℤ} (h : Assembles P B registry c shift) :
    (shift.distance : ℤ) = c ∧ OfProgram registry shift.source ∧
      OfProgram registry shift.target ∧
      shift.distance + shift.source.len = shift.target.len := by
  obtain ⟨op, rhs, substitutions, source, target, source', target', hrule, hsource, htarget,
    hshift⟩ := h
  obtain ⟨axis, axis', addend, rfl, htype, haddend, hdenote⟩ := finKeyAdditiveRule_eq_ok hrule
  cases htype
  cases haddend
  have hapart : Apart addend.val source' target' :=
    Apart.specialize ⟨axis, axis', rfl, rfl, hdenote⟩ hsource htarget
  rw [keyShift, bind_eq_ok] at hshift
  obtain ⟨sourceAxis, hsourceAxis, hshift⟩ := hshift
  obtain ⟨targetAxis, htargetAxis, hshift⟩ := bind_eq_ok.mp hshift
  match hindex : source'.toConcrete, hindex' : target'.toConcrete with
  | none, _ =>
    rw [hindex] at hsourceAxis
    cases hsourceAxis
  | some _, none =>
    rw [hindex'] at htargetAxis
    cases htargetAxis
  | some index, some index' =>
    obtain ⟨size, size', rfl, rfl, hsizes⟩ := hapart.toConcrete hindex hindex'
    rw [hindex] at hsourceAxis
    rw [hindex'] at htargetAxis
    have hlen := IndexAxis.len_of_finite (concreteAxis_finite hsourceAxis)
    have hlen' := IndexAxis.len_of_finite (concreteAxis_finite htargetAxis)
    cases hnew : FinKeyShift.tryNew sourceAxis targetAxis with
    | none =>
      rw [hnew] at hshift
      cases hshift
    | some made =>
      rw [hnew] at hshift
      cases hshift
      obtain ⟨rfl, rfl, _, _, hdistance⟩ := FinKeyShift.tryNew_eq_some hnew
      exact ⟨by omega, ⟨_, hsourceAxis⟩, ⟨_, htargetAxis⟩, hdistance⟩

theorem atPosition_eq_some {key : KeyValue N F} (h : KeyValue.atPosition axis position = some key) :
    key.axis = axis ∧ key.position < key.axis.len := by
  unfold KeyValue.atPosition at h
  split_ifs at h with hlt
  cases h
  exact ⟨rfl, hlt⟩

theorem IndexAxis.position_lt {entry : IndexEntryKey} (h : axis.position entry = some position) :
    position < axis.len := by
  rw [IndexAxis.position, List.lookup_eq_some_iff] at h
  obtain ⟨before, after, hsplit, _⟩ := h
  have hmem : (entry, position) ∈ axis.keys.zipIdx := by
    rw [← List.mem_reverse, hsplit]
    exact List.mem_append_right _ List.mem_cons_self
  exact (List.getElem?_eq_some_iff.mp (List.mem_zipIdx_iff_getElem?.mp hmem)).1

theorem concreteAxis_index {index : IndexTypeRef N FiniteIndex}
    (h : concreteAxis registry (some index) = .ok axis) : axis.index = index := by
  rw [concreteAxis, bind_eq_ok] at h
  obtain ⟨kind, _, h⟩ := h
  cases haxis : IndexAxis.fromConcrete index kind with
  | none =>
    rw [haxis] at h
    cases h
  | some made =>
    rw [haxis] at h
    cases h
    unfold IndexAxis.fromConcrete at haxis
    split_ifs at haxis with hempty
    split at haxis
    · obtain ⟨coordinates, _, rfl⟩ := Option.map_eq_some_iff.mp haxis
      rfl
    · cases haxis
      rfl
    · cases haxis
      rfl

/-- An index has one axis in a program. -/
theorem OfProgram.eq_of_index {axis' : IndexAxis N F} (h : OfProgram registry axis)
    (h' : OfProgram registry axis') (hindex : axis.index = axis'.index) : axis = axis' := by
  obtain ⟨index, haxis⟩ := h
  obtain ⟨index', haxis'⟩ := h'
  rw [concreteAxis_index haxis, concreteAxis_index haxis'] at hindex
  rw [hindex, haxis'] at haxis
  cases haxis
  rfl

variable [DecidableEq N]

/-- An axis admits no keys of longer axes. -/
theorem OfProgram.len_le_of_admits {keyAxis : IndexAxis N F} (h : OfProgram registry axis)
    (hkey : OfProgram registry keyAxis) (hadmits : axis.admits keyAxis = true) :
    keyAxis.len ≤ axis.len := by
  unfold IndexAxis.admits at hadmits
  split_ifs at hadmits
  · exact of_decide_eq_true hadmits
  · rw [h.eq_of_index hkey (of_decide_eq_true hadmits)]

theorem FinKeyShift.shift_eq_ok {key shifted : KeyValue N F} (h : shift.shift key = .ok shifted) :
    shift.source.admits key.axis = true ∧
      shifted = ⟨shift.target, key.position + shift.distance⟩ := by
  unfold FinKeyShift.shift at h
  split_ifs at h with hadmits
  cases h
  exact ⟨hadmits, rfl⟩

/-- A key is a position of its axis, which a shift preserves. -/
theorem Obtained.position_lt {key : KeyValue N F} (h : Obtained registry key) :
    OfProgram registry key.axis ∧ key.position < key.axis.len := by
  induction h with
  | atPosition haxis hkey =>
    obtain ⟨rfl, hlt⟩ := atPosition_eq_some hkey
    exact ⟨haxis, hlt⟩
  | forEntry haxis hkey =>
    obtain ⟨position, hposition, rfl⟩ := Option.map_eq_some_iff.mp hkey
    exact ⟨haxis, IndexAxis.position_lt hposition⟩
  | all haxis hkey =>
    obtain ⟨position, hposition, rfl⟩ := List.mem_map.mp hkey
    exact ⟨haxis, List.mem_range.mp hposition⟩
  | finKey haxis hkey =>
    obtain ⟨position, _, hat⟩ := Option.bind_eq_some_iff.mp hkey
    obtain ⟨rfl, hlt⟩ := atPosition_eq_some hat
    exact ⟨haxis, hlt⟩
  | shift _ hsource htarget hnew hshift ih =>
    obtain ⟨hadmits, rfl⟩ := FinKeyShift.shift_eq_ok hshift
    obtain ⟨rfl, rfl, _, _, hdistance⟩ := FinKeyShift.tryNew_eq_some hnew
    have hle := hsource.len_le_of_admits ih.1 hadmits
    have hlt := ih.2
    refine ⟨htarget, ?_⟩
    dsimp only
    omega

/-- The keys that a shift by `c` gives, and what is read at a key. -/
theorem keys_stay_on_axis (P B : Type) [LinearOrder P] [LinearOrder B]
    (registry : N → Option (Option (ConcreteIndexKind F))) :
    (∀ (c : ℤ) (shift : FinKeyShift N F) (key : KeyValue N F), Assembles P B registry c shift →
      Obtained registry key → shift.source.admits key.axis = true →
      ∃ shifted, shift.shift key = .ok shifted ∧ shifted.axis = shift.target ∧
        (shifted.position : ℤ) = key.position + c ∧ shifted.position < shift.target.len) ∧
    (∀ key : KeyValue N F, Obtained registry key →
      key.position < key.axis.len ∧ key.entryKey.isSome = true) ∧
    ∀ (V : Type) (value : IndexedValue N F V) (key : KeyValue N F), OfProgram registry value.axis →
      Obtained registry key → value.axis.admits key.axis = true →
      (value.getKey key).isSome = true := by
  refine ⟨fun c shift key hassembles hkey hadmits => ?_, fun key hkey => ?_,
    fun V value key haxis hkey hadmits => ?_⟩
  · obtain ⟨hdistance, hsource, _, hlength⟩ := hassembles.spec
    have hle := hsource.len_le_of_admits hkey.position_lt.1 hadmits
    have hlt := hkey.position_lt.2
    refine ⟨⟨shift.target, key.position + shift.distance⟩, if_pos hadmits, rfl, ?_, ?_⟩
    · dsimp only
      omega
    · dsimp only
      omega
  · have hlt := hkey.position_lt.2
    exact ⟨hlt, by rw [KeyValue.entryKey, List.getElem?_eq_getElem hlt]; rfl⟩
  · have hle := haxis.len_le_of_admits hkey.position_lt.1 hadmits
    have hlt := hkey.position_lt.2
    have hentry : key.position < value.entries.length := by
      rw [value.length_entries]
      omega
    rw [IndexedValue.getKey, if_pos hadmits, List.getElem?_eq_getElem hentry]
    rfl

end Keys

/-- The axis of `Fin(N)`. -/
def IndexAxis.finite (size : FiniteIndex) : IndexAxis String ℚ where
  index := .finite size
  kind := .finite size
  nonempty h := absurd (congrArg List.length h) (by
    rw [ConcreteIndexKind.entryKeys, List.length_map, List.length_range]
    exact Nat.pos_iff_ne_zero.mp size.pos)
  coordinates := []

def fin3 : FiniteIndex := ⟨3, by decide, by decide⟩

def fin5 : FiniteIndex := ⟨5, by decide, by decide⟩

/-- The last key of `Fin(3)` plus two is the last key of `Fin(5)`. -/
theorem last_key_plus_two :
    ∃ shifted, (⟨.finite fin3, .finite fin5, 2⟩ : FinKeyShift String ℚ).shift
        ⟨.finite fin3, 2⟩ = .ok shifted ∧
      shifted.axis = .finite fin5 ∧ (shifted.position : ℤ) = (2 : ℕ) + 2 ∧
      shifted.position < (IndexAxis.finite fin5).len :=
  (keys_stay_on_axis ℕ ℕ fun _ => none).1 2 ⟨.finite fin3, .finite fin5, 2⟩ ⟨.finite fin3, 2⟩
    ⟨.add, .int, [], .finite (.concrete fin3), .finite (.concrete fin5),
      .finite (.concrete fin3), .finite (.concrete fin5), rfl, rfl, rfl, rfl⟩
    (.atPosition ⟨.finite fin3, rfl⟩
      (show KeyValue.atPosition (.finite fin3) 2 = some ⟨.finite fin3, 2⟩ from rfl))
    (by decide)

end ProvenGraphcal.Nominal
