import ProvenGraphcal.Host.Arguments

/-!
# What arguments cross as

Every argument whose integers are exact crosses unchanged, as long as the arrays agree on the axis
of each index variable.
-/

namespace ProvenGraphcal.Host

open Checked (bind_eq_ok mapError_eq_ok)

variable {A I V B N Err : Type} [IndexAxes A] [IndexBinders I] [LinearOrder V] [LinearOrder B]

inductive IsScalar : ScalarValueKind V B → RuntimeValue A → Prop
  | quantity {monomial : DimMonomial V B} (value : Binary64) :
    IsScalar (.quantity monomial) (.quantity value)
  | bool (value : Bool) : IsScalar .bool (.bool value)
  | int (value : I64) : IsScalar .int (.int value)

/-- A scalar, or a rectangular array with one axis for each index variable. -/
inductive OfKind : ExternArgKind I V B → RuntimeValue A → Prop
  | quantity {param : String} (value : Binary64) : OfKind (.quantity param) (.quantity value)
  | bool {param : String} (value : Bool) : OfKind (.bool param) (.bool value)
  | int {param : String} (value : I64) : OfKind (.int param) (.int value)
  | indexed {param : String} {element : ScalarValueKind V B} {indexes : NonEmpty I}
      {value : RuntimeValue A} {axes : List A} (hrank : axes.length = indexes.items.length)
      (h : Rectangular (IsScalar element) value axes) :
    OfKind (.indexed param element indexes) value

/-- The elements of a value of a scalar kind, over its axes in row-major order. -/
inductive Elements : ScalarValueKind V B → RuntimeValue A → List A → HostArrayElements → Prop
  | quantity {monomial : DimMonomial V B} {value : RuntimeValue A} {axes : List A}
      {data : List Binary64} (h : Flat quantityLeaf.element value axes data) :
    Elements (.quantity monomial) value axes (.quantity data)
  | bool {value : RuntimeValue A} {axes : List A} {data : List Bool}
      (h : Flat boolLeaf.element value axes data) : Elements .bool value axes (.bool data)
  | int {value : RuntimeValue A} {axes : List A} {data : List HostInt}
      (h : Flat intLeaf.element value axes (data.map HostInt.value)) :
    Elements .int value axes (.int data)

/-- A scalar crosses as it is, an array as its extents and its elements. -/
inductive Crosses : ExternArgKind I V B → RuntimeValue A → HostArgument → Prop
  | quantity {param : String} (value : Binary64) :
    Crosses (.quantity param) (.quantity value) (.scalar (.quantity value))
  | bool {param : String} (value : Bool) :
    Crosses (.bool param) (.bool value) (.scalar (.bool value))
  | int {param : String} (value : HostInt) :
    Crosses (.int param) (.int value.value) (.scalar (.int value))
  | indexed {param : String} {element : ScalarValueKind V B} {indexes : NonEmpty I}
      {value : RuntimeValue A} {axes : List A} {elements : HostArrayElements}
      (hrank : axes.length = indexes.items.length) (h : Elements element value axes elements) :
    Crosses (.indexed param element indexes) value (.array ⟨axes.map len, elements⟩)

/-- An integer among the leaves of a value. -/
inductive HasInt (n : I64) : RuntimeValue A → Prop
  | leaf : HasInt n (.int n)
  | entry {axis : A} {entries : Fin (len axis) → RuntimeValue A} (i : Fin (len axis))
      (h : HasInt n (entries i)) : HasInt n (.indexed axis entries)

/-- Binary64 holds every integer of a value. -/
def Exact (value : RuntimeValue A) : Prop := ∀ n, HasInt n value → IsBinary64 n.val

variable {axes : List A} {value : RuntimeValue A}

theorem Flat.mem_of_hasInt {data : List I64} (h : Flat intLeaf.element value axes data) {n : I64} :
    HasInt n value ↔ n ∈ data := by
  induction h with
  | @leaf value t hleaf ht =>
    rw [← intLeaf.leaf_element _ _ ht, List.mem_singleton]
    constructor
    · intro hint
      cases hint
      rfl
    · rintro rfl
      exact .leaf
  | indexed parts _ ih =>
    simp only [List.mem_flatten, List.mem_ofFn, exists_exists_eq_and, ← ih]
    constructor
    · intro hint
      cases hint with
      | entry i hi => exact ⟨i, hi⟩
    · exact fun ⟨i, hi⟩ => .entry i hi

/-- A value without integers among its elements. -/
theorem Flat.exact {T : Type} {element : RuntimeValue A → Except Unit T}
    (hint : ∀ n t, element (.int n) ≠ .ok t) {value : RuntimeValue A} {axes : List A}
    {data : List T} (h : Flat element value axes data) : Exact value := by
  induction h with
  | leaf hleaf h =>
    intro n hn
    cases hn with
    | leaf => exact absurd h (hint _ _)
    | entry => cases hleaf
  | indexed parts _ ih =>
    intro n hn
    cases hn with
    | entry i hi => exact ih i n hi

omit [IndexBinders I] in
theorem Crosses.exact {kind : ExternArgKind I V B} {value : RuntimeValue A} {host : HostArgument}
    (h : Crosses kind value host) : Exact value := by
  cases h with
  | quantity value =>
    intro n hn
    cases hn
  | bool value =>
    intro n hn
    cases hn
  | int value =>
    intro n hn
    cases hn
    exact value.exact ▸ value.slot.isBinary64
  | indexed hrank h =>
    cases h with
    | quantity h =>
      refine h.exact fun n t ht => ?_
      cases ht
    | bool h =>
      refine h.exact fun n t ht => ?_
      cases ht
    | int h =>
      intro n hn
      obtain ⟨int, -, rfl⟩ := List.mem_map.mp (h.mem_of_hasInt.mp hn)
      exact int.exact ▸ int.slot.isBinary64

theorem HostInt.exists_tryNew {value : I64} (h : IsBinary64 value.val) :
    ∃ int, HostInt.tryNew value = .ok int ∧ int.value = value :=
  ⟨⟨value, ⟨value.val, h⟩, rfl⟩, HostInt.tryNew_eq_ok.mpr rfl, rfl⟩

/-! ## Arrays -/

variable {argument : ArrayArgument I A} {data : ArrayData A} {indexes : NonEmpty I}
variable {element : ScalarValueKind V B} {parameter : String} {T : Type}

namespace ArrayArgument

theorem accepts_of_isScalar {kind : ScalarLeaf A T Unit}
    (h : ∀ value, IsScalar element value → Accepts kind.element value)
    (hrect : Rectangular (IsScalar element) value axes) :
    ∃ data, Flat kind.element value axes data := by
  refine rectangular_iff_flat.mp ?_
  induction hrect with
  | leaf hleaf hscalar => exact .leaf hleaf (h _ hscalar)
  | indexed _ ih => exact .indexed ih

/-- The data of an array, as the elements of a value over its axes. -/
inductive Holds (value : RuntimeValue A) : ScalarValueKind V B → ArrayData A → Prop
  | quantity {monomial : DimMonomial V B} {array : DenseArray A Binary64}
      (h : Flat quantityLeaf.element value array.axes.items array.data) :
    Holds value (.quantity monomial) (.quantity array)
  | bool {array : DenseArray A Bool}
      (h : Flat boolLeaf.element value array.axes.items array.data) :
    Holds value .bool (.bool array)
  | int {array : DenseArray A I64}
      (h : Flat intLeaf.element value array.axes.items array.data) :
    Holds value .int (.int array)

theorem Holds.axes_eq {value : RuntimeValue A} {element : ScalarValueKind V B} {data : ArrayData A}
    (h : Holds value element data) : data.axes.items = innerAxes value := by
  cases h with
  | quantity h => exact h.axes_eq
  | bool h => exact h.axes_eq
  | int h => exact h.axes_eq

theorem tryFromIndexed_toOption (kind : ScalarLeaf A T Unit) {value : IndexedValue A}
    {f : DenseArray A T → ArrayData A}
    (h : (DenseArray.tryFromIndexed kind.element value).toOption.map f = some data) :
    ∃ array, data = f array ∧ Flat kind.element value.toValue array.axes.items array.data := by
  obtain ⟨array, harray, rfl⟩ := Option.map_eq_some_iff.mp h
  refine ⟨array, rfl, DenseArray.tryFromIndexed_eq_ok.mp ?_⟩
  cases hresult : DenseArray.tryFromIndexed kind.element value with
  | error e =>
    rw [hresult] at harray
    cases harray
  | ok found =>
    rw [hresult] at harray
    cases harray
    rfl

theorem dataOf_eq_some {value : IndexedValue A} (h : dataOf value element = some data) :
    Holds value.toValue element data := by
  cases element with
  | quantity monomial =>
    obtain ⟨array, rfl, hflat⟩ := tryFromIndexed_toOption quantityLeaf h
    exact .quantity hflat
  | bool =>
    obtain ⟨array, rfl, hflat⟩ := tryFromIndexed_toOption boolLeaf h
    exact .bool hflat
  | int =>
    obtain ⟨array, rfl, hflat⟩ := tryFromIndexed_toOption intLeaf h
    exact .int hflat

theorem exists_dataOf {value : IndexedValue A}
    (h : Rectangular (IsScalar element) value.toValue axes) :
    ∃ data, dataOf value element = some data ∧ data.axes.items = axes := by
  have hsome : ∀ {T : Type} (kind : ScalarLeaf A T Unit) (f : DenseArray A T → ArrayData A),
      (∀ array, (f array).axes = array.axes) →
      (∀ leaf, IsScalar element leaf → Accepts kind.element leaf) →
      ∃ data, (DenseArray.tryFromIndexed kind.element value).toOption.map f = some data ∧
        data.axes.items = axes := by
    intro T kind f hf haccepts
    obtain ⟨data, hflat⟩ := accepts_of_isScalar haccepts h
    have haxes : axes ≠ [] := by
      rintro rfl
      cases h with
      | leaf hleaf => cases hleaf
    have hok := DenseArray.tryFromIndexed_eq_ok.mpr
      (show Flat kind.element value.toValue
        (⟨⟨axes, haxes⟩, data, hflat.length_eq⟩ : DenseArray A T).axes.items _ from hflat)
    refine ⟨_, ?_, congrArg NonEmpty.items (hf ⟨⟨axes, haxes⟩, data, hflat.length_eq⟩)⟩
    rw [hok]
    rfl
  cases element with
  | quantity monomial =>
    refine hsome quantityLeaf .quantity (fun _ => rfl) fun leaf hleaf => ?_
    cases hleaf with
    | quantity value => exact ⟨value, rfl⟩
  | bool =>
    refine hsome boolLeaf .bool (fun _ => rfl) fun leaf hleaf => ?_
    cases hleaf with
    | bool value => exact ⟨value, rfl⟩
  | int =>
    refine hsome intLeaf .int (fun _ => rfl) fun leaf hleaf => ?_
    cases hleaf with
    | int value => exact ⟨value, rfl⟩

omit [IndexBinders I] in
theorem tryFromValue_eq_ok (h : tryFromValue value element indexes = .ok argument) :
    Holds value element argument.data ∧
      argument.data.axes.items.length = indexes.items.length ∧
      argument.bindings.items = indexes.items.zip argument.data.axes.items := by
  unfold tryFromValue at h
  dsimp only at h
  split at h
  case h_1 => cases h
  case h_2 data hdata =>
    obtain ⟨hdata, hrank⟩ := Option.filter_eq_some_iff.mp hdata
    split at h
    case h_1 bindings hbindings =>
      cases h
      refine ⟨?_, of_decide_eq_true hrank, NonEmpty.tryFromVec_eq_some.mp hbindings⟩
      split at hdata
      case h_1 axis entries => exact dataOf_eq_some hdata
      case h_2 => cases hdata
    case h_2 => cases h

omit [IndexBinders I] in
theorem exists_tryFromValue (hrank : axes.length = indexes.items.length)
    (h : Rectangular (IsScalar element) value axes) :
    ∃ argument, tryFromValue value element indexes = .ok argument := by
  have hindexes : 0 < axes.length := hrank ▸ List.length_pos_iff.mpr indexes.nonempty
  cases h with
  | leaf => exact absurd rfl (List.length_pos_iff.mp hindexes)
  | @indexed axis entries inner hentries =>
    obtain ⟨data, hdata, haxes⟩ := exists_dataOf
      (show Rectangular (IsScalar element) (IndexedValue.toValue ⟨axis, entries⟩) _ from
        .indexed hentries)
    have hitems : indexes.items.zip data.axes.items ≠ [] := by
      apply List.length_pos_iff.mp
      rw [List.length_zip, haxes, hrank, Nat.min_self]
      exact List.length_pos_iff.mpr indexes.nonempty
    refine ⟨⟨⟨_, hitems⟩, data⟩, ?_⟩
    unfold tryFromValue
    dsimp only
    rw [hdata, Option.filter_some, if_pos (decide_eq_true (haxes ▸ hrank))]
    dsimp only
    rw [NonEmpty.tryFromVec_eq_some.mpr (rfl : (⟨_, hitems⟩ : NonEmpty (I × A)).items = _)]

theorem hostInts_eq_ok {values : List I64} {ints : List HostInt} :
    hostInts parameter values = .ok ints ↔ ints.map HostInt.value = values := by
  have hentry : ∀ (entry : I64 × ℕ) (int : HostInt),
      ((HostInt.tryNew entry.1).mapError fun error =>
        (Failure.error (.inexactIntElement parameter entry.2 error) : Failure ArgumentError)) =
          .ok int ↔ entry.1 = int.value := by
    intro entry int
    rw [mapError_eq_ok, HostInt.tryNew_eq_ok]
    exact eq_comm
  have hmap : List.Forall₂ (fun n int => n = HostInt.value int) values ints ↔
      List.Forall₂ Eq values (ints.map HostInt.value) := List.forall₂_map_right_iff.symm
  have hlist : hostInts parameter values = .ok ints ↔
      List.Forall₂ (fun n int => n = HostInt.value int) values ints :=
    RowMajor.mapM_zipIdx_eq_ok hentry
  rw [hlist, hmap, List.forall₂_eq_eq_eq]
  exact eq_comm

omit [IndexBinders I] in
/-- The host array of an argument has the extents of its axes and its elements. -/
theorem intoHost_eq_ok (hholds : Holds value element argument.data) {host : HostArgumentArray}
    (h : argument.intoHost parameter = .ok host) :
    host.shape = argument.data.axes.items.map len ∧
      Elements element value argument.data.axes.items host.elements := by
  obtain ⟨bindings, data⟩ := argument
  cases hholds with
  | quantity hflat =>
    cases h
    exact ⟨rfl, .quantity hflat⟩
  | bool hflat =>
    cases h
    exact ⟨rfl, .bool hflat⟩
  | int hflat =>
    obtain ⟨ints, hints, h⟩ := bind_eq_ok.mp h
    cases h
    exact ⟨rfl, .int (hostInts_eq_ok.mp hints ▸ hflat)⟩

omit [IndexBinders I] in
theorem exists_intoHost (hholds : Holds value element argument.data) (hexact : Exact value)
    (parameter : String) :
    ∃ host, argument.intoHost parameter = .ok host := by
  obtain ⟨bindings, data⟩ := argument
  cases hholds with
  | quantity hflat => exact ⟨_, rfl⟩
  | bool hflat => exact ⟨_, rfl⟩
  | @int array hflat =>
    have hints : ∀ n ∈ array.data, ∃ int, HostInt.value int = n := fun n hn =>
      ⟨⟨n, ⟨n.val, hexact n (hflat.mem_of_hasInt.mpr hn)⟩, rfl⟩, rfl⟩
    obtain ⟨ints, hints⟩ : ∃ ints : List HostInt, ints.map HostInt.value = array.data := by
      have hrange : array.data ∈ Set.range (List.map HostInt.value) := by
        rw [Set.range_list_map]
        exact hints
      exact hrange
    exact ⟨_, bind_eq_ok.mpr ⟨ints, hostInts_eq_ok.mpr hints, rfl⟩⟩

end ArrayArgument

/-- The axes that an argument binds to the index variables of its parameter. -/
def bindingsOf (kind : ExternArgKind I V B) (value : RuntimeValue A) : List (I × A) :=
  match kind with
  | .indexed _ _ indexes => indexes.items.zip (innerAxes value)
  | .quantity _ => []
  | .bool _ => []
  | .int _ => []

/-- Every index variable has one axis. -/
def Consistent (bindings : List (I × A)) : Prop :=
  ∀ b ∈ bindings, ∀ b' ∈ bindings, b.1 = b'.1 → b.2 = b'.2

/-- The map holds exactly the bindings seen so far. -/
def Represents (bound : SortedMap I A) (seen : List (I × A)) : Prop :=
  ∀ index axis, bound.get? index = some axis ↔ (index, axis) ∈ seen

variable {bound : SortedMap I A}

omit [IndexAxes A] in
theorem Represents.consistent {seen : List (I × A)} (h : Represents bound seen) :
    Consistent seen := by
  rintro ⟨index, axis⟩ hb ⟨_, axis'⟩ hb' rfl
  have haxis := (h index axis).mpr hb
  rw [(h index axis').mpr hb'] at haxis
  exact (Option.some.inj haxis).symm

/-- One more binding is accepted when it agrees with the ones seen. -/
theorem Represents.bindAxis {bound : SortedMap I A} {seen : List (I × A)}
    (h : Represents bound seen) (binding : I × A) :
    (∀ bound', Host.bindAxis bound binding = .ok bound' →
      Represents bound' (seen ++ [binding])) ∧
    (Consistent (seen ++ [binding]) → ∃ bound', Host.bindAxis bound binding = .ok bound') := by
  unfold Host.bindAxis
  split
  case h_1 hnone =>
    refine ⟨?_, fun _ => ⟨_, rfl⟩⟩
    intro bound' hbound'
    cases hbound'
    intro index axis
    rw [SortedMap.get?_insert, List.mem_append, List.mem_singleton, ← h index axis]
    split_ifs with hindex
    · subst hindex
      rw [hnone, Option.some.injEq]
      exact ⟨fun haxis => .inr (haxis ▸ rfl), fun hor => hor.elim nofun fun heq => heq ▸ rfl⟩
    · refine ⟨.inl, fun hor => hor.elim id fun heq => absurd ?_ hindex⟩
      rw [← heq]
  case h_2 previous hprevious =>
    have hseen : (binding.1, previous) ∈ seen := (h _ _).mp hprevious
    constructor
    · intro bound' hbound'
      split_ifs at hbound' with hsame
      cases hbound'
      intro index axis
      rw [h index axis, List.mem_append, List.mem_singleton]
      refine ⟨.inl, fun hor => hor.elim id fun heq => ?_⟩
      rw [heq, ← Prod.eta binding, ← hsame]
      exact hseen
    · intro hconsistent
      have hsame : previous = binding.2 :=
        hconsistent _ (List.mem_append_left _ hseen) binding
          (List.mem_append_right _ (List.mem_singleton_self _)) rfl
      exact ⟨bound, if_pos hsame⟩

/-- Bindings are recorded up to the first that disagrees, and there is none exactly when all of
them are consistent. -/
theorem Represents.bindAxes {bound : SortedMap I A} {seen bindings : List (I × A)}
    (h : Represents bound seen) :
    (∀ bound', Host.bindAxes bound bindings = .ok bound' →
      Represents bound' (seen ++ bindings)) ∧
    (Consistent (seen ++ bindings) → ∃ bound', Host.bindAxes bound bindings = .ok bound') := by
  induction bindings generalizing bound seen with
  | nil =>
    refine ⟨?_, fun _ => ⟨bound, rfl⟩⟩
    intro bound' hbound'
    cases hbound'
    rw [List.append_nil]
    exact h
  | cons binding rest ih =>
    have hassoc : seen ++ binding :: rest = (seen ++ [binding]) ++ rest := by
      rw [List.append_assoc, List.singleton_append]
    rw [hassoc]
    constructor
    · intro bound' hbound'
      obtain ⟨next, hnext, hrest⟩ := bind_eq_ok.mp hbound'
      exact (ih ((h.bindAxis binding).1 next hnext)).1 bound' hrest
    · intro hconsistent
      obtain ⟨next, hnext⟩ := (h.bindAxis binding).2 fun b hb b' hb' =>
        hconsistent b (List.mem_append_left _ hb) b' (List.mem_append_left _ hb')
      obtain ⟨bound', hrest⟩ := (ih ((h.bindAxis binding).1 next hnext)).2 hconsistent
      exact ⟨bound', bind_eq_ok.mpr ⟨next, hnext, hrest⟩⟩

omit [IndexAxes A] in
theorem represents_empty : Represents (.empty : SortedMap I A) [] := fun index axis => by
  rw [SortedMap.get?_empty]
  exact iff_of_false nofun List.not_mem_nil

/-! ## Encoding -/

variable {operands : Operands A N Err}

theorem Operands.read_eq_ok {node : N} {expected : String}
    {extract : RuntimeValue A → Except (RuntimeValue A) T} {t : T} :
    operands.read node expected extract = .ok t ↔
      ∃ value, operands.evaluate node = .ok value ∧ extract value = .ok t := by
  unfold Operands.read
  rw [bind_eq_ok]
  simp only [mapError_eq_ok]

variable {position : ℕ}

/-- What an encoded argument crosses as, and which axes it binds. -/
theorem encodeArgument_eq_ok {bound' : SortedMap I A} {argument : ExternArgKind I V B × N}
    {host : HostArgument}
    (h : encodeArgument operands bound position argument = .ok (host, bound')) :
    ∃ value, operands.evaluate argument.2 = .ok value ∧ Crosses argument.1 value host ∧
      bindAxes bound (bindingsOf argument.1 value) = .ok bound' := by
  obtain ⟨kind, node⟩ := argument
  cases kind with
  | quantity param =>
    obtain ⟨q, hq, h⟩ := bind_eq_ok.mp h
    cases h
    obtain ⟨value, hvalue, hextract⟩ := Operands.read_eq_ok.mp (mapError_eq_ok.mp hq)
    refine ⟨value, hvalue, ?_, rfl⟩
    split at hextract
    · cases hextract
      exact .quantity q
    · cases hextract
  | bool param =>
    obtain ⟨b, hb, h⟩ := bind_eq_ok.mp h
    cases h
    obtain ⟨value, hvalue, hextract⟩ := Operands.read_eq_ok.mp (mapError_eq_ok.mp hb)
    refine ⟨value, hvalue, ?_, rfl⟩
    split at hextract
    · cases hextract
      exact .bool b
    · cases hextract
  | int param =>
    obtain ⟨n, hn, h⟩ := bind_eq_ok.mp h
    obtain ⟨int, hint, h⟩ := bind_eq_ok.mp h
    cases h
    obtain ⟨value, hvalue, hextract⟩ := Operands.read_eq_ok.mp (mapError_eq_ok.mp hn)
    refine ⟨value, hvalue, ?_, rfl⟩
    split at hextract
    · cases hextract
      rw [← HostInt.tryNew_eq_ok.mp (mapError_eq_ok.mp hint)]
      exact .int int
    · cases hextract
  | indexed param element indexes =>
    obtain ⟨array, harray, h⟩ := bind_eq_ok.mp h
    obtain ⟨next, hnext, h⟩ := bind_eq_ok.mp h
    obtain ⟨hosted, hhosted, h⟩ := bind_eq_ok.mp h
    cases h
    obtain ⟨value, hvalue, hextract⟩ := Operands.read_eq_ok.mp (mapError_eq_ok.mp harray)
    obtain ⟨hholds, hrank, hbindings⟩ := ArrayArgument.tryFromValue_eq_ok hextract
    obtain ⟨hshape, helements⟩ :=
      ArrayArgument.intoHost_eq_ok hholds (mapError_eq_ok.mp hhosted)
    obtain ⟨shape, elements⟩ := hosted
    cases hshape
    refine ⟨value, hvalue, .indexed hrank helements, ?_⟩
    rw [bindingsOf, ← hholds.axes_eq, ← hbindings]
    exact mapError_eq_ok.mp hnext

theorem exists_encodeArgument {bound' : SortedMap I A} {argument : ExternArgKind I V B × N}
    (position : ℕ) (hvalue : operands.evaluate argument.2 = .ok value)
    (hkind : OfKind argument.1 value) (hexact : Exact value)
    (hbound : bindAxes bound (bindingsOf argument.1 value) = .ok bound') :
    ∃ host, encodeArgument operands bound position argument = .ok (host, bound') := by
  obtain ⟨kind, node⟩ := argument
  cases hkind with
  | quantity q =>
    cases hbound
    have hq : operands.quantity node = .ok q := Operands.read_eq_ok.mpr ⟨_, hvalue, rfl⟩
    exact ⟨_, bind_eq_ok.mpr ⟨q, mapError_eq_ok.mpr hq, rfl⟩⟩
  | bool b =>
    cases hbound
    have hb : operands.bool node = .ok b := Operands.read_eq_ok.mpr ⟨_, hvalue, rfl⟩
    exact ⟨_, bind_eq_ok.mpr ⟨b, mapError_eq_ok.mpr hb, rfl⟩⟩
  | int n =>
    cases hbound
    have hn : operands.int node = .ok n := Operands.read_eq_ok.mpr ⟨_, hvalue, rfl⟩
    obtain ⟨int, hint, -⟩ := HostInt.exists_tryNew (hexact n .leaf)
    exact ⟨_, bind_eq_ok.mpr ⟨n, mapError_eq_ok.mpr hn,
      bind_eq_ok.mpr ⟨int, mapError_eq_ok.mpr hint, rfl⟩⟩⟩
  | indexed hrank hrect =>
    obtain ⟨array, harray⟩ := ArrayArgument.exists_tryFromValue hrank hrect
    obtain ⟨hholds, -, hbindings⟩ := ArrayArgument.tryFromValue_eq_ok harray
    obtain ⟨hosted, hhosted⟩ := ArrayArgument.exists_intoHost hholds hexact _
    rw [bindingsOf, ← hholds.axes_eq, ← hbindings] at hbound
    have hread : operands.array node _ _ = .ok array :=
      Operands.read_eq_ok.mpr ⟨value, hvalue, harray⟩
    exact ⟨_, bind_eq_ok.mpr ⟨array, mapError_eq_ok.mpr hread,
      bind_eq_ok.mpr ⟨bound', mapError_eq_ok.mpr hbound,
        bind_eq_ok.mpr ⟨hosted, mapError_eq_ok.mpr hhosted, rfl⟩⟩⟩⟩

/-- Arguments that evaluate to `values`. -/
def Evaluate (operands : Operands A N Err) (arguments : List (ExternArgKind I V B × N))
    (values : List (RuntimeValue A)) : Prop :=
  List.Forall₂ (fun argument value => operands.evaluate argument.2 = .ok value) arguments values

/-- The bindings of all arguments, in order. -/
def allBindings (arguments : List (ExternArgKind I V B × N)) (values : List (RuntimeValue A)) :
    List (I × A) :=
  (List.zipWith (fun argument value => bindingsOf argument.1 value) arguments values).flatten

variable {arguments : List (ExternArgKind I V B × N)} {hosts : List HostArgument}

theorem encodeFrom_eq_ok {bound' : SortedMap I A}
    (h : encodeFrom operands position bound arguments = .ok (hosts, bound')) :
    ∃ values, Evaluate operands arguments values ∧
      List.Forall₂ (fun pair host => Crosses pair.1.1 pair.2 host) (arguments.zip values) hosts ∧
      bindAxes bound (allBindings arguments values) = .ok bound' := by
  induction arguments generalizing bound position hosts with
  | nil =>
    cases h
    exact ⟨[], .nil, .nil, rfl⟩
  | cons argument rest ih =>
    obtain ⟨⟨host, next⟩, hhost, h⟩ := bind_eq_ok.mp h
    obtain ⟨⟨others, last⟩, hothers, h⟩ := bind_eq_ok.mp h
    cases h
    obtain ⟨value, hvalue, hcrosses, hnext⟩ := encodeArgument_eq_ok hhost
    obtain ⟨values, hvalues, hall, hlast⟩ := ih hothers
    refine ⟨value :: values, .cons hvalue hvalues, .cons hcrosses hall, ?_⟩
    show (bindingsOf argument.1 value ++ allBindings rest values).foldlM bindAxis bound = _
    rw [List.foldlM_append]
    exact bind_eq_ok.mpr ⟨next, hnext, hlast⟩

variable {values : List (RuntimeValue A)}

theorem exists_encodeFrom {bound' : SortedMap I A} (position : ℕ)
    (hvalues : Evaluate operands arguments values)
    (hkinds : List.Forall₂ (fun argument value => OfKind argument.1 value) arguments values)
    (hexact : ∀ value ∈ values, Exact value)
    (hbound : bindAxes bound (allBindings arguments values) = .ok bound') :
    ∃ hosts, encodeFrom operands position bound arguments = .ok (hosts, bound') := by
  induction arguments generalizing bound position values with
  | nil =>
    cases hvalues
    cases hbound
    exact ⟨[], rfl⟩
  | cons argument rest ih =>
    cases hvalues with
    | @cons _ value _ others hvalue hothers =>
      cases hkinds with
      | cons hkind hkinds =>
        have happend : bindAxes bound (allBindings (argument :: rest) (value :: others)) =
            (bindAxes bound (bindingsOf argument.1 value) >>= fun next =>
              bindAxes next (allBindings rest others)) := List.foldlM_append
        rw [happend] at hbound
        obtain ⟨next, hnext, hlast⟩ := bind_eq_ok.mp hbound
        obtain ⟨host, hhost⟩ := exists_encodeArgument position hvalue hkind
          (hexact value List.mem_cons_self) hnext
        obtain ⟨hosts, hhosts⟩ := ih (position + 1) hothers hkinds
          (fun other hother => hexact other (List.mem_cons_of_mem _ hother)) hlast
        exact ⟨host :: hosts, bind_eq_ok.mpr ⟨_, hhost,
          bind_eq_ok.mpr ⟨_, hhosts, rfl⟩⟩⟩

/-- Encoded arguments cross as their values, which agree on the axes. -/
theorem encode_eq_ok (h : encode operands arguments = .ok (hosts, bound)) :
    ∃ values, Evaluate operands arguments values ∧
      List.Forall₂ (fun pair host => Crosses pair.1.1 pair.2 host) (arguments.zip values) hosts ∧
      Consistent (allBindings arguments values) := by
  obtain ⟨values, hvalues, hcrosses, hbound⟩ := encodeFrom_eq_ok h
  exact ⟨values, hvalues, hcrosses, ((represents_empty.bindAxes).1 bound hbound).consistent⟩

theorem exists_encode (hvalues : Evaluate operands arguments values)
    (hkinds : List.Forall₂ (fun argument value => OfKind argument.1 value) arguments values)
    (hexact : ∀ value ∈ values, Exact value)
    (hconsistent : Consistent (allBindings arguments values)) :
    ∃ encoded, encode operands arguments = .ok encoded := by
  obtain ⟨bound, hbound⟩ := (represents_empty.bindAxes).2 hconsistent
  obtain ⟨hosts, hhosts⟩ := exists_encodeFrom 0 hvalues hkinds hexact hbound
  exact ⟨_, hhosts⟩

end ProvenGraphcal.Host
