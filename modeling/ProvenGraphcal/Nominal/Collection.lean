import ProvenGraphcal.Nominal.Finiteness

/-!
# The walks over applications end
-/

namespace ProvenGraphcal.Nominal

open Relation
open Checked (bind_eq_ok bind_pure_eq_ok mapM_eq_ok)
open Halt (lift_eq_ok settles_forM settles_lift settles_ok)
open TypeStore (lookup_eq_some)

variable {P B N D E : Type} [LinearOrder P] [LinearOrder B] [DecidableEq N]
variable {type : ConcreteType B N} {identity : N} {definition : NominalTypeDef P N}

namespace CheckedTir

variable {tir : CheckedTir P B N D E} {span : Span}

theorem structDefinition_eq_ok (h : tir.structDefinition identity = .ok definition) :
    tir.project.types.lookup identity = some definition := by
  unfold structDefinition at h
  split at h
  case h_1 found hfound =>
    cases h
    exact hfound
  case h_2 => cases h

theorem recordedNominal_eq_ok {metadata : TypeMetadata D E tir.project}
    {nominal : ResolvedNominal P B N D} (h : tir.recordedNominal metadata identity = .ok nominal) :
    metadata.nominal identity = some nominal := by
  unfold recordedNominal at h
  split at h
  case h_1 found hfound =>
    cases h
    exact hfound
  case h_2 => cases h

theorem checkedFieldType_eq_ok {bindings : ConcreteGenericSubstitutions P B N}
    {constructor : NominalConstructor P N} {field : NominalField P N × FieldSemantics P B N D}
    (h : tir.checkedFieldType definition bindings constructor field = .ok type) :
    bindings.fieldType field.2.resolvedType = (.ok type : Except (NominalError P B N E) _) := by
  obtain ⟨found, hfound, h⟩ := bind_eq_ok.mp h
  obtain ⟨-, -, heq⟩ := bind_eq_ok.mp h
  cases heq
  exact hfound

/-- Validating a bounded type ends. -/
theorem settles_validate {metadata : TypeMetadata D E tir.project}
    (hmetadata : metadata ∈ tir.root :: tir.dags) {type : SymbolicType P B N}
    (h : tir.Bounded type) : Halt.Settles fun fuel => tir.validate metadata span fuel type := by
  induction h with
  | intro type _ ih =>
    apply Halt.Settles.of_succ
    simp only [validate]
    refine (settles_lift _).bind fun _ _ => ?_
    cases type with
    | quantity | complex | bool | int | datetime => exact settles_ok ()
    | key index => exact settles_lift _
    | indexed element index =>
      exact (settles_lift _).bind fun _ _ => ih element .element
    | struct identity args =>
      refine (settles_forM fun arg harg => ?_).bind fun _ _ => ?_
      · exact ih arg (.argument (mem_typeArguments harg))
      refine (settles_lift _).bind fun definition hdefinition => ?_
      refine (settles_lift _).bind fun bindings hbindings => ?_
      obtain ⟨-, hdefinition⟩ := hdefinition
      obtain ⟨-, hbindings⟩ := hbindings
      have hlookup := structDefinition_eq_ok (lift_eq_ok.mp hdefinition)
      split_ifs
      · refine (settles_lift _).bind fun nominal hnominal => ?_
        obtain ⟨-, hnominal⟩ := hnominal
        have hrecorded := recordedNominal_eq_ok (lift_eq_ok.mp hnominal)
        -- the record is of the definition that the arguments were bound for
        have hsame : nominal.definition = definition :=
          Option.some.inj ((metadata.lookup_eq identity nominal hrecorded).symm.trans hlookup)
        refine settles_forM fun member hmember => settles_forM fun field hfield => ?_
        refine (settles_lift _).bind fun fieldType hfieldType => ?_
        obtain ⟨-, hfieldType⟩ := hfieldType
        have htype := checkedFieldType_eq_ok (lift_eq_ok.mp hfieldType)
        have happlied : appliedFieldType nominal.definition args span field.2.resolvedType =
            (.ok fieldType : Except (NominalError P B N E) _) := by
          rw [hsame]
          exact bind_eq_ok.mpr ⟨bindings, lift_eq_ok.mp hbindings, htype⟩
        exact ih _ (.field hmetadata hrecorded hmember hfield happlied)
      · exact settles_ok ()

theorem dagWithTypeMetadata_mem (identity : N) :
    tir.dagWithTypeMetadata identity ∈ tir.root :: tir.dags := by
  unfold dagWithTypeMetadata
  cases hfound : tir.dags.find? fun metadata => (metadata.nominal identity).isSome with
  | none => exact List.mem_cons_self
  | some metadata => exact List.mem_cons_of_mem _ (List.mem_of_find?_eq_some hfound)

/-- Every field of an expanded application is a child of it. -/
theorem child_of_constructors {args : List (ConcreteArg B N)}
    {expanded : List (String × List (ConcreteType B N))}
    (h : tir.constructors definition identity args span = .ok expanded)
    {constructor : String × List (ConcreteType B N)} (hconstructor : constructor ∈ expanded)
    {field : ConcreteType B N} (hfield : field ∈ constructor.2) :
    tir.Child field.toSymbolic (.struct identity (argsToSymbolic args)) := by
  unfold constructors at h
  split_ifs at h
  · cases h
    obtain ⟨member, -, rfl⟩ := List.mem_map.mp hconstructor
    cases hfield
  · obtain ⟨nominal, hnominal, h⟩ := bind_eq_ok.mp h
    obtain ⟨member, hmember, hexpanded⟩ :=
      Checked.exists_of_forall₂_right (mapM_eq_ok.mp h) hconstructor
    obtain ⟨fields, hfields, rfl⟩ := bind_pure_eq_ok.mp hexpanded
    obtain ⟨source, hsource, htype⟩ :=
      Checked.exists_of_forall₂_right (mapM_eq_ok.mp hfields) hfield
    exact .field (dagWithTypeMetadata_mem identity) (recordedNominal_eq_ok hnominal) hmember
      hsource htype

variable [DecidableEq (ConcreteArg B N)]

/-- Collecting the applications that a bounded type reaches ends. -/
theorem settles_collect (h : tir.Bounded type.toSymbolic)
    (applications : List (N × List (ConcreteArg B N))) :
    Halt.Settles fun fuel =>
      tir.collectConcreteNominalApplications span fuel type applications := by
  generalize hsymbolic : (type.toSymbolic : SymbolicType P B N) = symbolic at h
  induction h generalizing type applications with
  | intro symbolic hacc ih =>
    apply Halt.Settles.of_succ
    subst hsymbolic
    cases type with
    | quantity | complex | bool | int | datetime | key => exact settles_ok applications
    | indexed element index => exact ih _ .element applications rfl
    | struct identity args =>
      simp only [collectConcreteNominalApplications]
      refine (Halt.settles_foldlM (fun arg harg applications => ?_) applications).bind
        fun applications _ => ?_
      · have hmem : (.type arg.toSymbolic : SymbolicArg P B N) ∈ argsToSymbolic args :=
          mem_argsToSymbolic (mem_typeArguments harg)
        exact ih _ (.argument hmem) applications rfl
      split_ifs
      · exact settles_ok applications
      refine Halt.Settles.bind ?_ fun constructors hconstructors => ?_
      · refine (settles_lift _).bind fun definition _ => ?_
        refine (settles_validate (dagWithTypeMetadata_mem identity) ?_).bind fun _ _ => ?_
        · exact Acc.intro _ hacc
        · exact settles_lift _
      · obtain ⟨fuel, hconstructors⟩ := hconstructors
        obtain ⟨definition, -, h⟩ := bind_eq_ok.mp hconstructors
        obtain ⟨-, -, h⟩ := bind_eq_ok.mp h
        have hexpanded := lift_eq_ok.mp h
        refine Halt.settles_foldlM (fun constructor hconstructor applications => ?_) _
        refine Halt.settles_foldlM (fun field hfield applications => ?_) _
        exact ih _ (child_of_constructors hexpanded hconstructor hfield) applications rfl

/-! ## When no recorded types are cyclic -/

omit [DecidableEq (ConcreteArg B N)]

/-- No type names itself through the recorded types of fields. -/
def NoRecordedCycle (tir : CheckedTir P B N D E) : Prop :=
  ∀ name, ¬ TransGen tir.RecordedStep name name

/-- The include that projects a definition puts nothing in place of the types its fields lead to:
what it puts in place of the template's types was put there when the definition was projected. -/
def Unredirected (tir : CheckedTir P B N D E) : Prop :=
  ∀ definition ∈ tir.project.types.definitions, ∀ member ∈ definition.unionMembers,
    ∀ field ∈ member.fields, ∀ name, Leads tir.project field.declType.element name →
      fieldName definition name = name

theorem lookup_of_recordedStep {name other : N} (h : tir.RecordedStep name other) :
    ∃ definition, tir.project.types.lookup name = some definition := by
  obtain ⟨metadata, -, nominal, hnominal, -⟩ := h
  exact ⟨nominal.definition, metadata.lookup_eq name nominal hnominal⟩

/-- Only the finitely many defined types have successors, so no chain goes on for ever. -/
theorem acc_recordedStep (h : tir.NoRecordedCycle) (name : N) :
    Acc (fun other name => tir.RecordedStep name other) name := by
  let Defined := {name : N // name ∈ tir.project.types.definitions.map NominalTypeDef.identity}
  let below : Defined → Defined → Prop := fun other name => TransGen tir.RecordedStep name other
  have htrans : IsTrans Defined below := ⟨fun _ _ _ hab hbc => hbc.trans hab⟩
  have hirrefl : Std.Irrefl below := ⟨fun name hloop => h name hloop⟩
  have hwf : WellFounded below := Finite.wellFounded_of_trans_of_irrefl below
  have hdefined : ∀ name : Defined,
      Acc (fun other name => tir.RecordedStep name other) name.val := by
    intro name
    induction name using hwf.induction with
    | _ name ih =>
      refine Acc.intro _ fun other hstep => ?_
      by_cases hother : other ∈ tir.project.types.definitions.map NominalTypeDef.identity
      · exact ih ⟨other, hother⟩ (.single hstep)
      · refine Acc.intro _ fun next hnext => absurd ?_ hother
        obtain ⟨definition, hlookup⟩ := lookup_of_recordedStep hnext
        obtain ⟨hmem, hidentity⟩ := lookup_eq_some.mp hlookup
        exact List.mem_map.mpr ⟨definition, hmem, hidentity⟩
  refine Acc.intro _ fun other hstep => ?_
  obtain ⟨definition, hlookup⟩ := lookup_of_recordedStep hstep
  obtain ⟨hmem, hidentity⟩ := lookup_eq_some.mp hlookup
  exact (hdefined ⟨name, List.mem_map.mpr ⟨definition, hmem, hidentity⟩⟩).inv hstep

/-- A recorded field names what its annotation leads to. -/
theorem exists_leads_of_recordedStep {name other : N} (h : tir.RecordedStep name other) :
    ∃ definition, tir.project.types.lookup name = some definition ∧
      ∃ member ∈ definition.unionMembers, ∃ field ∈ member.fields, ∃ source,
        Leads tir.project field.declType.element source ∧ other = fieldName definition source := by
  obtain ⟨metadata, -, nominal, hnominal, member, hmember, field, hfield, hother⟩ := h
  refine ⟨nominal.definition, metadata.lookup_eq name nominal hnominal, ?_⟩
  obtain ⟨pair, hpair, rfl⟩ := List.mem_map.mp hmember
  have hmembers := (List.forall₂_iff_zip.mp (metadata.recorded name nominal hnominal)).2 hpair
  obtain ⟨fuel, hresolved⟩ := (List.forall₂_iff_zip.mp hmembers).2 hfield
  obtain ⟨source, hleads, heq⟩ := resolveFieldType_names hresolved hother
  exact ⟨pair.1, (List.of_mem_zip hpair).1, field.1, (List.of_mem_zip hfield).1, source, hleads,
    heq⟩

theorem acc_nameStep {project : ProjectTypes P B N}
    (h : project.types.findTypeCycle project.types.definitions = none) (name : N) :
    Acc (fun other name => NameStep project name other) name := by
  have hdefinition : ∀ definition ∈ project.types.definitions,
      Acc (fun other name => NameStep project name other) definition.identity := by
    intro definition hmem
    induction TypeStore.acc_of_findTypeCycle h hmem with
    | intro definition _ ih =>
      refine Acc.intro _ fun other ⟨found, hfound, hnames⟩ => ?_
      obtain ⟨hfoundMem, hidentity⟩ := lookup_eq_some.mp hfound
      obtain rfl := TypeStore.eq_of_identity hfoundMem hmem hidentity
      refine Acc.intro _ fun next ⟨target, htarget, hnext⟩ => ?_
      obtain ⟨htargetMem, hother⟩ := lookup_eq_some.mp htarget
      subst hother
      exact (ih target ⟨hnames, htargetMem⟩ htargetMem).inv ⟨target, htarget, hnext⟩
  refine Acc.intro _ fun other ⟨found, hfound, hnames⟩ => ?_
  obtain ⟨hmem, hidentity⟩ := lookup_eq_some.mp hfound
  subst hidentity
  exact (hdefinition found hmem).inv ⟨found, hfound, hnames⟩

/-- Where nothing is redirected, the cycle search over definitions covers the recorded types. -/
theorem noRecordedCycle_of_unredirected
    (h : tir.project.types.findTypeCycle tir.project.types.definitions = none)
    (hunredirected : tir.Unredirected) : tir.NoRecordedCycle := by
  have hstep : ∀ name other, tir.RecordedStep name other →
      TransGen (NameStep tir.project) name other := by
    intro name other hrecorded
    obtain ⟨definition, hlookup, member, hmember, field, hfield, source, hleads, heq⟩ :=
      exists_leads_of_recordedStep hrecorded
    have hmem := (lookup_eq_some.mp hlookup).1
    rw [hunredirected definition hmem member hmember field hfield source hleads] at heq
    subst heq
    obtain ⟨head, hmentions, hreach⟩ := hleads
    exact .head' ⟨definition, hlookup, .field member field hmember hfield hmentions⟩ hreach
  intro name hloop
  have hnames : TransGen (NameStep tir.project) name name := TransGen.closed hstep name name hloop
  exact not_transGen_of_acc (acc_nameStep h name) hnames

end CheckedTir

/-- The search finds a cycle exactly where the definitions reached have one. Collecting the
applications of any type ends when no recorded types are cyclic, which the search guarantees where
no projected definition is redirected. -/
theorem applications_collected (P B N D E : Type) [LinearOrder P] [LinearOrder B] [DecidableEq N]
    [DecidableEq (ConcreteArg B N)] :
    (∀ (store : TypeStore P N) (roots : List (NominalTypeDef P N)),
      (∀ root ∈ roots, root ∈ store.definitions) →
      ((store.findTypeCycle roots).isSome ↔ ∃ root ∈ roots, ∃ definition,
        ReflTransGen store.Refers root definition ∧ TransGen store.Refers definition definition) ∧
      ∀ cycle, store.findTypeCycle roots = some cycle →
        store.typeGraph.GenuineCycle roots cycle) ∧
    (∀ tir : CheckedTir P B N D E, tir.NoRecordedCycle →
      ∀ span type applications, Halt.Settles fun fuel =>
        tir.collectConcreteNominalApplications span fuel type applications) ∧
    ∀ tir : CheckedTir P B N D E,
      tir.project.types.findTypeCycle tir.project.types.definitions = none → tir.Unredirected →
        tir.NoRecordedCycle := by
  refine ⟨fun store roots hroots => ⟨TypeStore.isSome_findTypeCycle hroots, fun cycle hcycle => ?_⟩,
    fun tir hacyclic span type applications => ?_,
    fun tir hnone hunredirected => tir.noRecordedCycle_of_unredirected hnone hunredirected⟩
  · exact EdgeGraph.findCycle_genuine TypeStore.closed_typeGraph hroots hcycle
  · have hnames : ∀ name, tir.BoundedName name := fun name =>
      CheckedTir.boundedName_of_acc (CheckedTir.acc_recordedStep hacyclic name)
    exact CheckedTir.settles_collect (CheckedTir.bounded_of_names hnames _) applications

namespace RedirectedField

def span : Span := ⟨0, 0⟩

def record (identity : ℕ) (constructor field : String) (valueType : ValueType ℕ ℕ)
    (substitution : Option (StaticSubstitution ℕ)) : NominalTypeDef ℕ ℕ :=
  ⟨identity, [], .union [⟨constructor, [⟨field, .value valueType⟩]⟩], substitution⟩

/-- `pub(bind) type Slot { Slot(x: Dimensionless) }` -/
def slot : NominalTypeDef ℕ ℕ := record 0 "Slot" "x" (.builtin .dimensionless span) none

/-- `pub type Foo { Foo(a: Slot) }` -/
def foo : NominalTypeDef ℕ ℕ := record 1 "Foo" "a" (.struct 0 span span) none

def recordedAs (definition : NominalTypeDef ℕ ℕ) (valueType : ResolvedValueType ℕ ℕ ℕ) :
    ResolvedNominal ℕ ℕ ℕ Empty :=
  ⟨definition, [[⟨.value valueType, []⟩]]⟩

def metadataOf (project : ProjectTypes ℕ ℕ ℕ) (nominals : List (ResolvedNominal ℕ ℕ ℕ Empty))
    (h : ∀ entry ∈ nominals, project.types.lookup entry.definition.identity =
      some entry.definition ∧ Recorded Empty project entry) : TypeMetadata Empty Empty project where
  nominal name := nominals.find? fun entry => entry.definition.identity = name
  lookup_eq name entry hentry := by
    have hidentity : entry.definition.identity = name := by simpa using List.find?_some hentry
    rw [← hidentity]
    exact (h entry (List.mem_of_find?_eq_some hentry)).1
  recorded name entry hentry := (h entry (List.mem_of_find?_eq_some hentry)).2

def libraryProject : ProjectTypes ℕ ℕ ℕ where
  dimension _ := none
  index _ := none
  types := ⟨[slot, foo], by decide⟩
  userDefined := some
  instanceView _ := none

def libraryNominals : List (ResolvedNominal ℕ ℕ ℕ Empty) :=
  [recordedAs slot (.quantity (.concrete .dimensionless)), recordedAs foo (.struct 0 [] span)]

theorem recorded_library (entry : ResolvedNominal ℕ ℕ ℕ Empty) (h : entry ∈ libraryNominals) :
    libraryProject.types.lookup entry.definition.identity = some entry.definition ∧
      Recorded Empty libraryProject entry := by
  simp only [libraryNominals, List.mem_cons, List.not_mem_nil, or_false] at h
  rcases h with rfl | rfl
  · exact ⟨rfl, .cons (.cons ⟨1, rfl⟩ .nil) .nil⟩
  · exact ⟨rfl, .cons (.cons ⟨1, rfl⟩ .nil) .nil⟩

def library : CheckedTir ℕ ℕ ℕ Empty Empty :=
  ⟨libraryProject, metadataOf libraryProject libraryNominals recorded_library, [],
    fun _ _ _ _ _ _ => .ok ()⟩

theorem library_unredirected : library.Unredirected := by
  intro definition hdefinition member _ field _ name _
  have hmem : definition ∈ [slot, foo] := hdefinition
  simp only [List.mem_cons, List.not_mem_nil, or_false] at hmem
  rcases hmem with rfl | rfl
  · rfl
  · rfl

theorem library_acyclic : libraryProject.types.findTypeCycle libraryProject.types.definitions =
    none := by
  have hnone :
      (libraryProject.types.findTypeCycle libraryProject.types.definitions).isSome = false := by
    decide +kernel
  exact Option.isNone_iff_eq_none.mp (Option.isSome_eq_false_iff.mp hnone)

open Classical in
theorem library_collected : Halt.Settles fun fuel =>
    library.collectConcreteNominalApplications span fuel (.struct 1 []) [] := by
  have h := applications_collected ℕ ℕ ℕ Empty Empty
  exact h.2.1 library (h.2.2 library library_acyclic library_unredirected) span (.struct 1 []) []

/-- The port is bound to the imported `Foo`, and `Foo` is selected as the importer's own type. -/
def substitution : StaticSubstitution ℕ := ⟨[], [(0, 1), (1, 2)], []⟩

def bar : NominalTypeDef ℕ ℕ := record 2 "Foo" "a" (.struct 1 span span) (some substitution)

def project : ProjectTypes ℕ ℕ ℕ where
  dimension _ := none
  index _ := none
  types := ⟨[slot, foo, bar], by decide⟩
  userDefined := some
  instanceView _ := some fun _ => none

/-- The field of `bar` is recorded with the type `bar`. -/
def nominals : List (ResolvedNominal ℕ ℕ ℕ Empty) :=
  [recordedAs slot (.quantity (.concrete .dimensionless)), recordedAs foo (.struct 0 [] span),
    recordedAs bar (.struct 2 [] span)]

theorem recorded_of_mem (entry : ResolvedNominal ℕ ℕ ℕ Empty) (h : entry ∈ nominals) :
    project.types.lookup entry.definition.identity = some entry.definition ∧
      Recorded Empty project entry := by
  simp only [nominals, List.mem_cons, List.not_mem_nil, or_false] at h
  rcases h with rfl | rfl | rfl
  · exact ⟨rfl, .cons (.cons ⟨1, rfl⟩ .nil) .nil⟩
  · exact ⟨rfl, .cons (.cons ⟨1, rfl⟩ .nil) .nil⟩
  · exact ⟨rfl, .cons (.cons ⟨1, rfl⟩ .nil) .nil⟩

def metadata : TypeMetadata Empty Empty project := metadataOf project nominals recorded_of_mem

def tir : CheckedTir ℕ ℕ ℕ Empty Empty := ⟨project, metadata, [], fun _ _ _ _ _ _ => .ok ()⟩

theorem checkedFieldType_bar (member : NominalConstructor ℕ ℕ)
    (field : NominalField ℕ ℕ × FieldSemantics ℕ ℕ ℕ Empty)
    (htype : field.2 = ⟨.value (.struct 2 [] span), []⟩) :
    tir.checkedFieldType bar ⟨.empty, []⟩ member field =
      (.ok (.struct 2 []) : Except (NominalError ℕ ℕ ℕ Empty) _) := by
  unfold CheckedTir.checkedFieldType
  rw [htype]
  rfl

/-- Every step of validating `bar` succeeds, and its one field has the type `bar`. -/
theorem validate_bar_succ (fuel : ℕ) :
    tir.validate metadata span (fuel + 1) (.struct 2 []) =
      ((tir.validate metadata span fuel (.struct 2 []) >>= fun _ => .ok ()) >>=
        fun _ => .ok ()) := by
  have hmaterializable :
      tir.checkMaterializable (.struct 2 []) = (.ok () : Except (NominalError ℕ ℕ ℕ Empty) _) := rfl
  have hdefinition :
      tir.structDefinition 2 = (.ok bar : Except (NominalError ℕ ℕ ℕ Empty) _) := rfl
  have hnominal : tir.recordedNominal metadata 2 =
      (.ok (recordedAs bar (.struct 2 [] span)) : Except (NominalError ℕ ℕ ℕ Empty) _) := rfl
  simp only [CheckedTir.validate, hmaterializable, hdefinition, hnominal]
  show ((Halt.lift (tir.checkedFieldType bar ⟨.empty, []⟩ _ _) >>= fun fieldType =>
    tir.validate metadata span fuel fieldType.toSymbolic) >>= fun _ => .ok ()) >>= _ = _
  rw [checkedFieldType_bar _ _ rfl]
  rfl

theorem validate_bar (fuel : ℕ) :
    tir.validate metadata span fuel (.struct 2 []) = .error .outOfFuel := by
  induction fuel with
  | zero => rfl
  | succ fuel ih =>
    rw [validate_bar_succ, ih]
    rfl

open Classical in
/-- No definition is cyclic, and collecting the applications of `bar` never ends. -/
theorem collecting_diverges :
    specializeNominalType 2 substitution id foo = .ok bar ∧
      project.types.findTypeCycle project.types.definitions = none ∧
      ¬ Halt.Settles fun fuel =>
        tir.collectConcreteNominalApplications span fuel (.struct 2 []) [] := by
  refine ⟨rfl, ?_, ?_⟩
  · have hnone : (project.types.findTypeCycle project.types.definitions).isSome = false := by
      decide +kernel
    exact Option.isNone_iff_eq_none.mp (Option.isSome_eq_false_iff.mp hnone)
  · intro ⟨result, hresult, enough, henough⟩
    have hdefinition : tir.validateModelTypeDefinition 2 [] =
        (.ok bar : Except (NominalError ℕ ℕ ℕ Empty) _) := rfl
    have hdag : tir.dagWithTypeMetadata 2 = metadata := rfl
    have hrun : tir.collectConcreteNominalApplications span (enough + 1) (.struct 2 []) [] =
        .error .outOfFuel := by
      have hexpand : tir.modelConstructors enough 2 [] span = .error .outOfFuel := by
        unfold CheckedTir.modelConstructors
        rw [hdefinition, hdag]
        show (tir.validate metadata span enough (.struct 2 []) >>= _) = _
        rw [validate_bar]
        rfl
      show (tir.modelConstructors enough 2 [] span >>= _) = _
      rw [hexpand]
      rfl
    exact hresult ((henough (enough + 1) (Nat.le_succ enough)).symm.trans hrun)

end RedirectedField

end ProvenGraphcal.Nominal
