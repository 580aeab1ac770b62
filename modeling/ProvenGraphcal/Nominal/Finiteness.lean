import ProvenGraphcal.Nominal.Applications

/-!
# Collecting applications ends

An instantiated field type is made of the types that its definition names and of the arguments of
the application. So no chain of instantiated types goes on for ever when no chain of the types named
in recorded fields does.
-/

namespace ProvenGraphcal.Nominal

open Relation
open Checked (bind_eq_ok bind_pure_eq_ok)
open Option (bind_eq_some_iff getD_none getD_some)

variable {P B N D E : Type} [LinearOrder P] [LinearOrder B]

omit [LinearOrder B] in
theorem fromConstant_of_constantValue {form : NatPolyForm P} {value : U64}
    (h : form.constantValue = some value) : NatPolyForm.fromConstant value = form := by
  unfold NatPolyForm.constantValue at h
  split_ifs at h with hconstant
  have hvalue : form.constant = value := Option.some.inj h
  -- the empty monomial is the only key
  have hother : ∀ mono, mono ≠ .one → form.terms.get? mono = none := by
    intro mono hne
    rw [SortedMap.get?_eq_none]
    intro hmem
    have hempty := List.all_eq_true.mp hconstant mono hmem
    apply hne
    cases mono with
    | mk factors hfree =>
      cases factors with
      | mk entries hsorted =>
        have hnil : entries = [] := List.isEmpty_iff.mp hempty
        subst hnil
        rfl
  apply NatPolyForm.ext_terms
  apply SortedMap.ext_get?
  intro mono
  unfold NatPolyForm.fromConstant
  unfold NatPolyForm.constant at hvalue
  cases hone : form.terms.get? .one with
  | none =>
    rw [hone, getD_none] at hvalue
    rw [dif_pos (by rw [← hvalue]; rfl)]
    by_cases hmono : mono = .one
    · rw [hmono, hone]
      rfl
    · rw [hother mono hmono]
      rfl
  | some constant =>
    rw [hone, getD_some] at hvalue
    have hfree := form.zeroFree _ _ hone
    rw [← hvalue, dif_neg (by rw [hfree]; exact Bool.false_ne_true)]
    show (SortedMap.empty.insert .one constant).get? mono = _
    rw [SortedMap.get?_insert]
    split_ifs with hmono
    · rw [hmono, hone]
    · rw [hother mono hmono]
      rfl

theorem toSymbolic_of_toConcrete_index {index : IndexTypeRef N (FiniteIndexRef P)}
    {concrete : IndexTypeRef N FiniteIndex} (h : index.toConcrete = some concrete) :
    concrete.toSymbolic = index := by
  cases index with
  | declared name =>
    cases h
    rfl
  | finite axis =>
    cases axis with
    | concrete axis =>
      cases h
      rfl
    | symbolic form hform => cases h

mutual

theorem toSymbolic_of_toConcrete {type : SymbolicType P B N} {concrete : ConcreteType B N}
    (h : type.toConcrete = some concrete) : concrete.toSymbolic = type := by
  cases type with
  | quantity | complex | bool | int | datetime =>
    cases h
    rfl
  | key index =>
    obtain ⟨index', hindex, hconcrete⟩ := bind_eq_some_iff.mp h
    cases hconcrete
    rw [CheckedType.toSymbolic, toSymbolic_of_toConcrete_index hindex]
  | struct identity args =>
    obtain ⟨args', hargs, hconcrete⟩ := bind_eq_some_iff.mp h
    cases hconcrete
    rw [CheckedType.toSymbolic, argsToSymbolic_of_toConcrete hargs]
  | indexed element index =>
    obtain ⟨element', helement, h⟩ := bind_eq_some_iff.mp h
    obtain ⟨index', hindex, hconcrete⟩ := bind_eq_some_iff.mp h
    cases hconcrete
    rw [CheckedType.toSymbolic, toSymbolic_of_toConcrete helement,
      toSymbolic_of_toConcrete_index hindex]

theorem toSymbolic_of_toConcrete_arg {arg : SymbolicArg P B N} {concrete : ConcreteArg B N}
    (h : arg.toConcrete = some concrete) : concrete.toSymbolic = arg := by
  cases arg with
  | dim =>
    cases h
    rfl
  | index index =>
    obtain ⟨index', hindex, hconcrete⟩ := bind_eq_some_iff.mp h
    cases hconcrete
    rw [CheckedGenericArg.toSymbolic, toSymbolic_of_toConcrete_index hindex]
  | nat form =>
    obtain ⟨value, hvalue, hconcrete⟩ := bind_eq_some_iff.mp h
    cases hconcrete
    rw [CheckedGenericArg.toSymbolic, fromConstant_of_constantValue hvalue]
  | type type =>
    obtain ⟨type', htype, hconcrete⟩ := bind_eq_some_iff.mp h
    cases hconcrete
    rw [CheckedGenericArg.toSymbolic, toSymbolic_of_toConcrete htype]

theorem argsToSymbolic_of_toConcrete {args : List (SymbolicArg P B N)}
    {concrete : List (ConcreteArg B N)} (h : argsToConcrete args = some concrete) :
    argsToSymbolic concrete = args := by
  cases args with
  | nil =>
    cases h
    rfl
  | cons arg rest =>
    obtain ⟨arg', harg, h⟩ := bind_eq_some_iff.mp h
    obtain ⟨rest', hrest, hconcrete⟩ := bind_eq_some_iff.mp h
    cases hconcrete
    rw [argsToSymbolic, toSymbolic_of_toConcrete_arg harg, argsToSymbolic_of_toConcrete hrest]

end

theorem mem_argsToSymbolic {args : List (ConcreteArg B N)} {concrete : ConcreteType B N}
    (h : .type concrete ∈ args) :
    (.type concrete.toSymbolic : SymbolicArg P B N) ∈ argsToSymbolic args := by
  induction args with
  | nil => exact absurd h List.not_mem_nil
  | cons arg rest ih =>
    rw [argsToSymbolic, List.mem_cons]
    rcases List.mem_cons.mp h with rfl | h
    · exact .inl rfl
    · exact .inr (ih h)

theorem mem_typeArguments {F M : Type} {args : List (CheckedGenericArg B N F M)}
    {type : CheckedType B N F M} (h : type ∈ CheckedTir.typeArguments args) :
    .type type ∈ args := by
  obtain ⟨arg, harg, htype⟩ := List.mem_filterMap.mp h
  cases arg with
  | dim | index | nat => cases htype
  | type found =>
    cases htype
    exact harg

/-! ## Types that a type is made of -/

variable [DecidableEq N]
variable {type : ConcreteType B N} {args : List (SymbolicArg P B N)}
variable {definition : NominalTypeDef P N} {span : Span}

namespace CheckedTir

variable (tir : CheckedTir P B N D E)

/-- A type argument, the element of an indexed type, or the type of a field. -/
inductive Child : SymbolicType P B N → SymbolicType P B N → Prop
  | argument {type : SymbolicType P B N} {identity : N} {args : List (SymbolicArg P B N)}
      (h : .type type ∈ args) : Child type (.struct identity args)
  | element {element : SymbolicType P B N} {index : IndexTypeRef N (FiniteIndexRef P)} :
    Child element (.indexed element index)
  | field {metadata : TypeMetadata D E tir.project} (hmetadata : metadata ∈ tir.root :: tir.dags)
      {identity : N} {nominal : ResolvedNominal P B N D}
      (hnominal : metadata.nominal identity = some nominal)
      {member : NominalConstructor P N × List (NominalField P N × FieldSemantics P B N D)}
      (hmember : member ∈ nominal.members) {field : NominalField P N × FieldSemantics P B N D}
      (hfield : field ∈ member.2) {args : List (SymbolicArg P B N)} {span : Span}
      {type : ConcreteType B N}
      (htype : appliedFieldType nominal.definition args span field.2.resolvedType =
        (.ok type : Except (NominalError P B N E) _)) :
    Child type.toSymbolic (.struct identity args)

/-- A recorded field of the type names the other type. -/
def RecordedStep (name other : N) : Prop :=
  ∃ metadata ∈ tir.root :: tir.dags, ∃ nominal, metadata.nominal name = some nominal ∧
    ∃ member ∈ nominal.members, ∃ field ∈ member.2,
      other ∈ field.2.resolvedType.element.structNames

/-- No chain of children goes on for ever. -/
def Bounded (type : SymbolicType P B N) : Prop := Acc tir.Child type

/-- Applications to bounded arguments are bounded. -/
def BoundedName (name : N) : Prop :=
  ∀ args, (∀ type, .type type ∈ args → tir.Bounded type) → tir.Bounded (.struct name args)

variable {tir}

omit [DecidableEq N] in
theorem concreteGenericArg_eq_type {param : NominalGenericParam P N} {arg : SymbolicArg P B N}
    (h : concreteGenericArg param arg = (.ok (.type type) : Except (NominalError P B N E) _)) :
    ∃ symbolic, arg = .type symbolic ∧ symbolic.toConcrete = some type := by
  unfold concreteGenericArg at h
  split at h
  case h_4 =>
    split at h
    case h_1 found hfound =>
      cases h
      exact ⟨_, rfl, hfound⟩
    case h_2 => cases h
  case h_2 | h_3 => split at h <;> cases h
  case h_1 | h_5 => cases h

omit [DecidableEq N] in
/-- A parameter is bound to a type argument of the application. -/
theorem types_concreteGenericSubstitutions {bindings : ConcreteGenericSubstitutions P B N}
    (h : concreteGenericSubstitutions definition args span =
      (.ok bindings : Except (NominalError P B N E) _)) {param : P}
    {valueType : ResolvedValueType P B N}
    (hparam : bindings.substitution.types param = some valueType) :
    ∃ type concrete, .type type ∈ args ∧ type.toConcrete = some concrete ∧
      declaredToResolvedType span concrete = some valueType := by
  unfold concreteGenericSubstitutions at h
  split_ifs at h
  obtain ⟨substitution, hprefix, rfl⟩ := bind_pure_eq_ok.mp h
  unfold genericSubstitutionPrefix at hprefix
  split_ifs at hprefix
  revert param valueType
  refine Checked.foldlM_invariant (fun s => ∀ {param : P} {valueType : ResolvedValueType P B N},
    s.types param = some valueType → ∃ type concrete, .type type ∈ args ∧
      type.toConcrete = some concrete ∧ declaredToResolvedType span concrete = some valueType)
    ?_ (fun hempty => by cases hempty) hprefix
  intro pair hpair before after hbefore hstep param valueType hparam
  obtain ⟨concrete, hconcrete, hstep⟩ := bind_eq_ok.mp hstep
  split at hstep
  case h_2 => cases hstep
  case h_1 bound hbound =>
    cases hstep
    rcases Substitution.types_bind hparam with rfl | hold
    · have harg : ∃ type, concrete = .type type := by
        cases concrete with
        | type type => exact ⟨type, rfl⟩
        | dim | index | nat => cases hbound
      obtain ⟨type, rfl⟩ := harg
      obtain ⟨resolved, hresolved, heq⟩ := bind_eq_some_iff.mp hbound
      cases heq
      obtain ⟨symbolic, hsymbolic, hfound⟩ := concreteGenericArg_eq_type hconcrete
      have hmem := (List.of_mem_zip hpair).2
      rw [hsymbolic] at hmem
      exact ⟨symbolic, type, hmem, hfound, hresolved⟩
    · exact hbefore hold

section Instances

variable {s : Substitution P B N}

theorem bounded_leaf {type : SymbolicType P B N} (h : ∀ child, ¬ tir.Child child type) :
    tir.Bounded type :=
  Acc.intro _ fun child hchild => absurd hchild (h child)

mutual

/-- Instantiating a type whose names and bindings are bounded gives a bounded type. -/
theorem bounded_toCheckedType {valueType resolved : ResolvedValueType P B N}
    {type : ConcreteType B N} (happly : s.applyValue valueType = .ok resolved)
    (hchecked : toCheckedType resolved = (.ok type : Except (NominalError P B N E) _))
    (hnames : ∀ name ∈ valueType.structNames, tir.BoundedName name)
    (hbound : ∀ param bound, s.types param = some bound → ∀ type : ConcreteType B N,
      toCheckedType bound = (.ok type : Except (NominalError P B N E) _) →
        tir.Bounded type.toSymbolic) :
    tir.Bounded type.toSymbolic := by
  cases valueType with
  | bool | int | datetime =>
    cases happly
    cases hchecked
    exact bounded_leaf nofun
  | quantity dimension =>
    obtain ⟨next, -, hresolved⟩ := bind_eq_ok.mp happly
    cases hresolved
    cases next with
    | concrete =>
      cases hchecked
      exact bounded_leaf nofun
    | symbolic => cases hchecked
  | complex dimension span =>
    obtain ⟨next, -, hresolved⟩ := bind_eq_ok.mp happly
    cases hresolved
    cases next with
    | concrete =>
      cases hchecked
      exact bounded_leaf nofun
    | symbolic => cases hchecked
  | key index span =>
    obtain ⟨next, -, hresolved⟩ := bind_eq_ok.mp happly
    cases hresolved
    obtain ⟨axis, -, htype⟩ := bind_eq_ok.mp hchecked
    cases htype
    exact bounded_leaf nofun
  | genericTypeParam param span =>
    cases hparam : s.types param with
    | none =>
      simp only [Substitution.applyValue, hparam, getD_none] at happly
      cases happly
      cases hchecked
    | some bound =>
      simp only [Substitution.applyValue, hparam, getD_some] at happly
      cases happly
      exact hbound param _ hparam type hchecked
  | struct name genericArgs span =>
    obtain ⟨args, hargs, rfl⟩ := bind_pure_eq_ok.mp happly
    obtain ⟨concrete, hconcrete, rfl⟩ := bind_pure_eq_ok.mp hchecked
    rw [ResolvedValueType.structNames, List.forall_mem_cons] at hnames
    refine hnames.1 _ fun type htype => ?_
    exact bounded_argsToDeclared hargs hconcrete hnames.2 hbound type htype

theorem bounded_argsToDeclared {args resolved : List (ResolvedGenericArg P B N)}
    {concrete : List (ConcreteArg B N)} (happly : s.applyGenericArgs args = .ok resolved)
    (hchecked : argsToDeclared resolved = (.ok concrete : Except (NominalError P B N E) _))
    (hnames : ∀ name ∈ argStructNames args, tir.BoundedName name)
    (hbound : ∀ param bound, s.types param = some bound → ∀ type : ConcreteType B N,
      toCheckedType bound = (.ok type : Except (NominalError P B N E) _) →
        tir.Bounded type.toSymbolic)
    (type : SymbolicType P B N) (htype : .type type ∈ argsToSymbolic concrete) :
    tir.Bounded type := by
  cases args with
  | nil =>
    cases happly
    cases hchecked
    cases htype
  | cons arg rest =>
    obtain ⟨arg', harg, happly⟩ := bind_eq_ok.mp happly
    obtain ⟨rest', hrest, rfl⟩ := bind_pure_eq_ok.mp happly
    obtain ⟨first, hfirst, hchecked⟩ := bind_eq_ok.mp hchecked
    obtain ⟨others, hothers, rfl⟩ := bind_pure_eq_ok.mp hchecked
    have hrestNames := fun name hname => hnames name (List.mem_append_right _ hname)
    have hargNames := fun name hname => hnames name (List.mem_append_left _ hname)
    rw [argsToSymbolic, List.mem_cons] at htype
    rcases htype with htype | htype
    · cases arg with
      | dim dimension =>
        obtain ⟨next, -, harg'⟩ := bind_eq_ok.mp harg
        cases harg'
        cases next with
        | concrete =>
          cases hfirst
          cases htype
        | symbolic => cases hfirst
      | index index =>
        obtain ⟨next, -, harg'⟩ := bind_eq_ok.mp harg
        cases harg'
        obtain ⟨axis, -, heq⟩ := bind_eq_ok.mp hfirst
        cases heq
        cases htype
      | nat form span =>
        obtain ⟨next, -, harg'⟩ := bind_eq_ok.mp harg
        cases harg'
        unfold resolvedGenericArgToDeclared at hfirst
        split at hfirst
        · cases hfirst
          cases htype
        · cases hfirst
      | type valueType =>
        obtain ⟨next, hnext, rfl⟩ := bind_pure_eq_ok.mp harg
        obtain ⟨found, hfound, rfl⟩ := bind_pure_eq_ok.mp hfirst
        cases htype
        exact bounded_toCheckedType hnext hfound hargNames hbound
    · exact bounded_argsToDeclared hrest hothers hrestNames hbound type htype

end

end Instances

theorem bounded_wrapIndexed {element : ConcreteType B N} {indexes : List (ResolvedIndex P N)}
    (h : indexes.foldlM wrapIndexed element = (.ok type : Except (NominalError P B N E) _))
    (helement : tir.Bounded element.toSymbolic) : tir.Bounded type.toSymbolic := by
  refine Checked.foldlM_invariant (fun type => tir.Bounded type.toSymbolic) ?_ helement h
  intro index _ before after hbefore hstep
  have hindexed : ∀ axis, tir.Bounded (CheckedType.indexed before axis).toSymbolic := by
    intro axis
    refine Acc.intro _ fun child hchild => ?_
    cases hchild
    exact hbefore
  cases index with
  | concrete name span =>
    cases hstep
    exact hindexed _
  | finite form span =>
    obtain ⟨axis, -, hafter⟩ := bind_eq_ok.mp hstep
    cases hafter
    exact hindexed _
  | genericParam => cases hstep

/-- A field of an application to bounded arguments is bounded if the names in it are. -/
theorem bounded_appliedFieldType {resolved : ResolvedDeclType P B N}
    (h : appliedFieldType definition args span resolved =
      (.ok type : Except (NominalError P B N E) _))
    (hargs : ∀ type, .type type ∈ args → tir.Bounded type)
    (hnames : ∀ name ∈ resolved.element.structNames, tir.BoundedName name) :
    tir.Bounded type.toSymbolic := by
  obtain ⟨bindings, hbindings, h⟩ := bind_eq_ok.mp h
  obtain ⟨applied, happlied, hchecked⟩ := bind_eq_ok.mp h
  have happlied := Checked.mapError_eq_ok.mp happlied
  have hbound : ∀ param bound, bindings.substitution.types param = some bound →
      ∀ type : ConcreteType B N,
        toCheckedType bound = (.ok type : Except (NominalError P B N E) _) →
          tir.Bounded type.toSymbolic := by
    intro param bound hparam type htype
    obtain ⟨arg, concrete, hmem, hconcrete, hdeclared⟩ :=
      types_concreteGenericSubstitutions hbindings hparam
    rw [toCheckedType_of_declared hdeclared] at htype
    cases htype
    rw [toSymbolic_of_toConcrete hconcrete]
    exact hargs arg hmem
  cases resolved with
  | value valueType =>
    obtain ⟨next, hnext, rfl⟩ := bind_pure_eq_ok.mp happlied
    exact bounded_toCheckedType hnext hchecked hnames hbound
  | indexed element indexes =>
    obtain ⟨next, hnext, happlied⟩ := bind_eq_ok.mp happlied
    obtain ⟨axes, -, heq⟩ := bind_eq_ok.mp happlied
    cases heq
    obtain ⟨base, hbase, hwrap⟩ := bind_eq_ok.mp hchecked
    exact bounded_wrapIndexed hwrap (bounded_toCheckedType hnext hbase hnames hbound)

/-- When no chain of recorded fields from a name goes on for ever, the name is bounded. -/
theorem boundedName_of_acc {name : N}
    (h : Acc (fun other name => tir.RecordedStep name other) name) : tir.BoundedName name := by
  induction h with
  | intro name _ ih =>
    intro args hargs
    refine Acc.intro _ fun child hchild => ?_
    cases hchild with
    | argument hmem => exact hargs _ hmem
    | field hmetadata hnominal hmember hfield htype =>
      refine bounded_appliedFieldType htype hargs fun other hother => ?_
      exact ih other ⟨_, hmetadata, _, hnominal, _, hmember, _, hfield, hother⟩

mutual

theorem bounded_of_names (hnames : ∀ name, tir.BoundedName name) (type : SymbolicType P B N) :
    tir.Bounded type := by
  cases type with
  | quantity | complex | bool | int | datetime | key => exact bounded_leaf nofun
  | struct identity args =>
    exact hnames identity args (bounded_args_of_names hnames args)
  | indexed element index =>
    refine Acc.intro _ fun child hchild => ?_
    cases hchild
    exact bounded_of_names hnames element

theorem bounded_args_of_names (hnames : ∀ name, tir.BoundedName name)
    (args : List (SymbolicArg P B N)) (type : SymbolicType P B N) (htype : .type type ∈ args) :
    tir.Bounded type := by
  cases args with
  | nil => cases htype
  | cons arg rest =>
    rcases List.mem_cons.mp htype with harg | hrest
    · cases arg with
      | dim | index | nat => cases harg
      | type found =>
        cases harg
        exact bounded_of_names hnames type
    · exact bounded_args_of_names hnames rest type hrest

end

end CheckedTir

end ProvenGraphcal.Nominal
