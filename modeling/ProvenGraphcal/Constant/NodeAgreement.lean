import ProvenGraphcal.Constant.NodeEval

/-!
# Operations mean the same in constants and node bodies
-/

namespace ProvenGraphcal.Constant

open Agreement
open Host (I64)

variable {aop : ArithOp} {op : BinOp} {exponent : ExactRational} {conversion : IntConversion}

section Selection

variable {F B U : Type} [LinearOrder B] {l r : TExpr F B U}

/-- The tree itself when it is a quantity, and its conversion when it is an `Int`. -/
def toQuantity (conversion : IntConversion) (tree : TExpr F B U) : TExpr F B U :=
  match tree.ty with
  | .int => intToQuantity conversion tree
  | .quantity _ => tree

theorem binary_int {aop : IntArithOp} (hl : l.ty = .int) (hr : r.ty = .int)
    (hop : BinaryOperation.select op (.int : CheckedType B) .int = some (.int aop)) :
    binary op l r = some (.int (.arith aop l r)) := by
  have hconvert : convertIntOperand op l r = (l, r) := by
    unfold convertIntOperand
    rw [hl, hr]
    cases op with
    | pow exponent => cases exponent <;> rfl
    | _ => rfl
  rw [binary, hconvert, hl, hr, hop]
  rfl

variable {d : Dimension B}

theorem toQuantity_of_quantity {tree : TExpr F B U} (h : tree.ty = .quantity d) :
    toQuantity conversion tree = tree := by
  rw [toQuantity, h]

theorem toQuantity_of_int {tree : TExpr F B U} (h : tree.ty = .int) :
    toQuantity conversion tree = intToQuantity conversion tree := by
  rw [toQuantity, h]

theorem binary_additive (hl : l.ty = .quantity d) (hr : r.ty = .quantity d)
    (hop : BinaryOperation.select op (.quantity d) (.quantity d) = some (.quantity aop)) :
    binary op l r =
      some (.quantity (.arith aop (toQuantity .scaling l) (toQuantity .scaling r))) := by
  have hconvert : convertIntOperand op l r = (l, r) := by
    unfold convertIntOperand
    rw [hl, hr]
    cases op with
    | pow exponent => cases exponent <;> rfl
    | _ => rfl
  rw [binary, hconvert, hl, hr, hop, toQuantity_of_quantity hl, toQuantity_of_quantity hr]
  rfl

theorem exists_toQuantity_ty (conversion : IntConversion) (tree : TExpr F B U) :
    ∃ d, (toQuantity conversion tree).ty = .quantity d := by
  cases h : tree.ty with
  | int => exact ⟨.dimensionless, by rw [toQuantity_of_int h]; rfl⟩
  | quantity d => exact ⟨d, by rw [toQuantity_of_quantity h, h]⟩

/-- An `Int` that scales a quantity is converted, on either side. -/
theorem convertIntOperand_product (hop : op = .mul ∨ op = .div)
    (h : ¬ (l.ty = .int ∧ r.ty = .int)) :
    convertIntOperand op l r = (toQuantity .scaling l, toQuantity .scaling r) := by
  unfold convertIntOperand toQuantity
  cases hl : l.ty with
  | int =>
    cases hr : r.ty with
    | int => exact absurd ⟨hl, hr⟩ h
    | quantity d => rcases hop with rfl | rfl <;> rfl
  | quantity d =>
    cases hr : r.ty with
    | int => rcases hop with rfl | rfl <;> rfl
    | quantity d' => rcases hop with rfl | rfl <;> rfl

theorem binary_product (hop : op = .mul ∧ aop = .mul ∨ op = .div ∧ aop = .div)
    (h : ¬ (l.ty = .int ∧ r.ty = .int)) :
    binary op l r =
      some (.quantity (.arith aop (toQuantity .scaling l) (toQuantity .scaling r))) := by
  have hconvert := convertIntOperand_product (hop.imp And.left And.left) h
  obtain ⟨d, hd⟩ := exists_toQuantity_ty .scaling l
  obtain ⟨d', hd'⟩ := exists_toQuantity_ty .scaling r
  rw [binary, hconvert, hd, hd']
  rcases hop with ⟨rfl, rfl⟩ | ⟨rfl, rfl⟩ <;> rfl

theorem binary_intPower (hl : l.ty = .int) (hr : r.ty = .int) :
    binary (.pow .runtime) l r = some (.int (.power l r)) := by
  have hconvert : convertIntOperand (.pow .runtime) l r = (l, r) := by
    unfold convertIntOperand
    rw [hl]
  rw [binary, hconvert, hl, hr]
  rfl

/-- Only the runtime exponent of a quantity is converted. -/
theorem binary_runtimePower (hl : l.ty = .quantity d) :
    binary (.pow .runtime) l r = some (.quantity (.power l (toQuantity .exponent r))) := by
  have hconvert : convertIntOperand (.pow .runtime) l r = (l, toQuantity .exponent r) := by
    unfold convertIntOperand toQuantity
    rw [hl]
    cases r.ty <;> rfl
  obtain ⟨d', hd'⟩ := exists_toQuantity_ty .exponent r
  rw [binary, hconvert, hl, hd']
  rfl

theorem binary_floatPower {exact : Option ExactRational} {d' : Dimension B}
    (hl : l.ty = .quantity d) (hr : r.ty = .quantity d') :
    binary (.pow (.floatSyntax exact)) l r = some (.quantity (.power l r)) := by
  have hconvert : convertIntOperand (.pow (.floatSyntax exact)) l r = (l, r) := by
    unfold convertIntOperand
    rw [hl, hr]
  rw [binary, hconvert, hl, hr]
  rfl

theorem convertIntOperand_exact :
    convertIntOperand (.pow (.exact exponent)) l r = (l, r) := by
  cases l.ty <;> cases r.ty <;> rfl

theorem binary_intExactPower (hinteger : exponent.isInteger = true) (hl : l.ty = .int) :
    binary (.pow (.exact exponent)) l r = some (.int (.exactPower l exponent.numI64 r)) := by
  rw [binary, convertIntOperand_exact, hl, BinaryOperation.select, if_pos hinteger]
  rfl

theorem binary_exactPower (hl : l.ty = .quantity d) :
    binary (.pow (.exact exponent)) l r = some (.quantity (.exactPower l exponent r)) := by
  rw [binary, convertIntOperand_exact, hl]
  rfl

end Selection

variable {F B U Q : Type} [Binary64Ops F] [LinearOrder B]

/-- The value of a lowered constant. -/
def Typed.value : Typed F B U Q → Except (ConstExprError F U) (RuntimeValue F)
  | .int expr => .int <$> expr.evaluate
  | .real expr _ => .quantity <$> expr.evaluate

variable {a : ConstInt} {tree : TExpr F B U} {ε : Type}

section Operations

variable {units : U → Option (UnitInfo F B)}
  {dynamicScale : U → PositiveFiniteScale F → Span →
    Except (RuntimeError F U) (PositiveFiniteScale F)}

attribute [local simp] eval

theorem agree_readInt {a : Except ε I64} (h : Agree (.int <$> a) (eval units dynamicScale tree)) :
    Agree a (eval units dynamicScale tree >>= (readInt · tree.span)) := by
  intro n
  rw [Checked.bind_eq_ok]
  constructor
  · intro hn
    exact ⟨.int n, (h _).mp (Checked.map_eq_ok.mpr ⟨n, hn, rfl⟩), rfl⟩
  · rintro ⟨value, hvalue, hread⟩
    cases value with
    | quantity q => cases hread
    | int m =>
      cases hread
      obtain ⟨n, hn, heq⟩ := Checked.map_eq_ok.mp ((h _).mpr hvalue)
      cases heq
      exact hn

theorem agree_readQuantity {a : Except ε (FiniteQuantity F)}
    (h : Agree (.quantity <$> a) (eval units dynamicScale tree)) :
    Agree a (eval units dynamicScale tree >>= (readQuantity · tree.span)) := by
  intro q
  rw [Checked.bind_eq_ok]
  constructor
  · intro hq
    exact ⟨.quantity q, (h _).mp (Checked.map_eq_ok.mpr ⟨q, hq, rfl⟩), rfl⟩
  · rintro ⟨value, hvalue, hread⟩
    cases value with
    | int n => cases hread
    | quantity p =>
      cases hread
      obtain ⟨q, hq, heq⟩ := Checked.map_eq_ok.mp ((h _).mpr hvalue)
      cases heq
      exact hq

variable (units dynamicScale) in
/-- The tree has the type of the constant and the same value. -/
structure Means (typed : Typed F B U Q) (tree : TExpr F B U) : Prop where
  ty : tree.ty = typed.checkedType
  value : Agree typed.value (eval units dynamicScale tree)

theorem Means.int {expr : ConstInt} {tree : TExpr F B U}
    (h : Means units dynamicScale (.int expr : Typed F B U Q) tree) :
    Agree (expr.evaluate : Except (ConstExprError F U) I64)
      (eval units dynamicScale tree >>= (readInt · tree.span)) :=
  agree_readInt h.value

theorem Means.real {expr : ConstReal F B U Q} {dimension : Dimension B} {tree : TExpr F B U}
    (h : Means units dynamicScale (.real expr dimension) tree) :
    Agree expr.evaluate (eval units dynamicScale tree >>= (readQuantity · tree.span)) :=
  agree_readQuantity h.value

theorem Means.intoReal {typed : Typed F B U Q} {tree : TExpr F B U}
    (h : Means units dynamicScale typed tree) (conversion : IntConversion) :
    Agree (typed.intoReal conversion).evaluate
      (eval units dynamicScale (toQuantity conversion tree) >>=
        (readQuantity · (toQuantity conversion tree).span)) := by
  cases typed with
  | real expr dimension =>
    have htree : toQuantity conversion tree = tree := by
      rw [toQuantity, h.ty]
      rfl
    rw [htree]
    exact h.real
  | int expr =>
    have htree : toQuantity conversion tree = intToQuantity conversion tree := by
      rw [toQuantity, h.ty]
      rfl
    rw [htree]
    refine agree_readQuantity ?_
    exact (h.int.bind fun value _ => agree_intConversion conversion value _ _).map _

/-! ## Operations on agreeing operands -/

variable {span : Span} {ty : CheckedType B} {l r : TExpr F B U}

section

variable (ha : Agree (a.evaluate : Except (ConstExprError F U) I64) (eval units dynamicScale l >>=
  (readInt · l.span)))

include ha

/-- The literal that stands for the exponent of an exact power evaluates to the exponent. -/
theorem agree_intExactPower {exponent : I64} {exponentSpan : Span} :
    Agree (Typed.int (.power span a (.literal exponentSpan exponent)) : Typed F B U Q).value
      (eval units dynamicScale (.int span ty (.exactPower l exponent r))) := by
  refine Agree.map ?_ _
  exact ha.bind fun _ _ => agree_mapErrors _ _ _

theorem agree_intNeg :
    Agree (Typed.int (.neg span a) : Typed F B U Q).value
      (eval units dynamicScale (.int span ty (.neg l))) := by
  refine Agree.map ?_ _
  exact ha.bind fun _ _ => agree_mapErrors _ _ _

section

variable {b : ConstInt} (hb : Agree (b.evaluate : Except (ConstExprError F U) I64)
  (eval units dynamicScale r >>= (readInt · r.span)))

include hb

theorem agree_intArith {op : IntArithOp} :
    Agree (Typed.int (.arith span op a b) : Typed F B U Q).value
      (eval units dynamicScale (.int span ty (.arith op l r))) := by
  refine Agree.map ?_ _
  exact ha.bind fun _ _ => hb.bind fun _ _ => agree_mapErrors _ _ _

theorem agree_intDivision {function : IntDivisionFn} :
    Agree (Typed.int (.division span function a b) : Typed F B U Q).value
      (eval units dynamicScale (.int span ty (.division function l r))) := by
  refine Agree.map ?_ _
  exact ha.bind fun _ _ => hb.bind fun _ _ => agree_mapErrors _ _ _

theorem agree_intPower :
    Agree (Typed.int (.power span a b) : Typed F B U Q).value
      (eval units dynamicScale (.int span ty (.power l r))) := by
  refine Agree.map ?_ _
  exact ha.bind fun _ _ => hb.bind fun _ _ => agree_mapErrors _ _ _

end

end

variable {x y : ConstReal F B U Q} {dimension : Dimension B}

section

variable (hx : Agree x.evaluate (eval units dynamicScale l >>= (readQuantity · l.span)))

include hx

section

variable (hy : Agree y.evaluate (eval units dynamicScale r >>= (readQuantity · r.span)))

include hy

theorem agree_quantityArith {op : ArithOp} :
    Agree (Typed.real (.arith span op x y) dimension).value
      (eval units dynamicScale (.quantity span ty (.arith op l r))) := by
  refine Agree.map ?_ _
  exact hx.bind fun _ _ => hy.bind fun _ _ => agree_mapErrors _ _ _

theorem agree_quantityPower :
    Agree (Typed.real (.power span x y) dimension).value
      (eval units dynamicScale (.quantity span ty (.power l r))) := by
  refine Agree.map ?_ _
  exact hx.bind fun _ _ => hy.bind fun _ _ => agree_mapErrors _ _ _

end

theorem agree_quantityExactPower :
    Agree (Typed.real (.exactPower span x exponent) dimension).value
      (eval units dynamicScale (.quantity span ty (.exactPower l exponent r))) := by
  refine Agree.map ?_ _
  exact hx.bind fun _ _ => agree_mapErrors _ _ _

theorem agree_quantityNeg :
    Agree (Typed.real (.neg span x) dimension).value
      (eval units dynamicScale (.quantity span ty (.neg l))) := by
  refine Agree.map ?_ _
  exact hx.bind fun _ _ => agree_ok _

end

end Operations

/-!
# Constant positions mean what node bodies mean
-/

open Agreement
open Checked (bind_eq_ok)

variable {F B U Q : Type} [Binary64Ops F] [LinearOrder B]

/-- Only a runtime exponent is folded. -/
theorem binopRule_congr {span : Span} {op : BinOp} {lhs rhs : Operand B} {c c' : Option I64}
    (h : op = .pow .runtime → c = c') :
    (binopRule span op lhs rhs c : Except (SemanticError B U) (CheckedType B)) =
      binopRule span op lhs rhs c' := by
  cases op with
  | pow exponent =>
    cases exponent with
    | runtime => rw [h rfl]
    | exact exponent => rfl
    | floatSyntax exact => rfl
  | _ => rfl

variable {aop : ArithOp} {d : Dimension B} {exponent : PowerExponent}

section Binary

variable {units : U → Option (UnitInfo F B)}
  {dynamicScale : U → PositiveFiniteScale F → Span →
    Except (RuntimeError F U) (PositiveFiniteScale F)}
  {span lhsSpan rhsSpan : Span} {lhs rhs : Typed F B U Q} {l r : TExpr F B U}
  {c : Option I64} {result : CheckedType B}

/-- The node that lowering builds for an operation and the kind that assembly selects. -/
def BuildsSame (units : U → Option (UnitInfo F B))
    (dynamicScale : U → PositiveFiniteScale F → Span →
      Except (RuntimeError F U) (PositiveFiniteScale F)) (span : Span) (op : BinOp)
    (built : Option (Typed F B U Q)) (l r : TExpr F B U) (result : CheckedType B) : Prop :=
  ∃ typed kind, built = some typed ∧ binary op l r = some kind ∧
    typed.checkedType = result ∧ Agree typed.value (eval units dynamicScale (.new span result kind))

/-- The node for the type that the rules gave the result. -/
def builtNode (span : Span) (op : BinOp) (lhs : Typed F B U Q) (rhs : Option (Typed F B U Q))
    (rhsSpan : Span) (result : CheckedType B) : Option (Typed F B U Q) :=
  match result with
  | .int => (Lowering.intNode span op lhs rhs rhsSpan).map .int
  | .quantity dimension => (Lowering.realNode span op lhs rhs).map (.real · dimension)

variable {op : BinOp}

theorem intArith_buildsSame {aop : IntArithOp} {a b : ConstInt}
    (ha : Means units dynamicScale (.int a : Typed F B U Q) l)
    (hb : Means units dynamicScale (.int b : Typed F B U Q) r)
    (hnode : Lowering.intNode span op (.int a : Typed F B U Q) (some (.int b)) rhsSpan =
      some (.arith span aop a b)) (hbinary : binary op l r = some (.int (.arith aop l r))) :
    BuildsSame units dynamicScale span op
      (builtNode span op (.int a : Typed F B U Q) (some (.int b)) rhsSpan .int) l r .int := by
  refine ⟨.int (.arith span aop a b), _, ?_, hbinary, rfl, ?_⟩
  · rw [builtNode, hnode]
    rfl
  · exact agree_intArith ha.int hb.int

/-- Both operands of an operation on quantities are read as quantities. -/
theorem binary_quantityArith {dimension : Dimension B} (hl : Means units dynamicScale lhs l)
    (hr : Means units dynamicScale rhs r) (hnode : Lowering.realNode span op lhs (some rhs) =
      some (.arith span aop (lhs.intoReal .scaling) (rhs.intoReal .scaling)))
    (hbinary : binary op l r =
      some (.quantity (.arith aop (toQuantity .scaling l) (toQuantity .scaling r)))) :
    BuildsSame units dynamicScale span op
      (builtNode span op lhs (some rhs) rhsSpan (.quantity dimension)) l r
      (.quantity dimension) := by
  refine ⟨.real (.arith span aop (lhs.intoReal .scaling) (rhs.intoReal .scaling)) dimension, _,
    ?_, hbinary, rfl, ?_⟩
  · rw [builtNode, hnode]
    rfl
  · exact agree_quantityArith (hl.intoReal .scaling) (hr.intoReal .scaling)

theorem additive_cases (h : (additiveRule ⟨lhs.checkedType, lhsSpan⟩ ⟨rhs.checkedType, rhsSpan⟩ :
      Except (SemanticError B U) (CheckedType B)) = .ok result) :
    (∃ a b, lhs = .int a ∧ rhs = .int b ∧ result = .int) ∨
      ∃ x y d, lhs = .real x d ∧ rhs = .real y d ∧ result = .quantity d := by
  cases lhs with
  | int a =>
    cases rhs with
    | int b =>
      cases h
      exact .inl ⟨a, b, rfl, rfl, rfl⟩
    | real y d => cases h
  | real x d =>
    cases rhs with
    | int b => cases h
    | real y d' =>
      right
      simp only [additiveRule, Typed.checkedType, expectQuantity, reduceCtorEq, and_self,
        if_false] at h
      simp only [bind, Except.bind] at h
      split_ifs at h with hd
      cases h
      exact ⟨x, y, d, rfl, by rw [not_not.mp hd], rfl⟩

theorem additive_buildsSame {iop : IntArithOp}
    (hop : op = .add ∧ iop = .add ∧ aop = .add ∨ op = .sub ∧ iop = .sub ∧ aop = .sub)
    (hl : Means units dynamicScale lhs l) (hr : Means units dynamicScale rhs r)
    (hrule : (additiveRule ⟨lhs.checkedType, lhsSpan⟩ ⟨rhs.checkedType, rhsSpan⟩ :
      Except (SemanticError B U) (CheckedType B)) = .ok result) :
    BuildsSame units dynamicScale span op (builtNode span op lhs (some rhs) rhsSpan result) l r
      result := by
  obtain ⟨a, b, rfl, rfl, rfl⟩ | ⟨x, y, d, rfl, rfl, rfl⟩ := additive_cases hrule
  · rcases hop with ⟨rfl, rfl, rfl⟩ | ⟨rfl, rfl, rfl⟩ <;>
      exact intArith_buildsSame hl hr rfl (binary_int hl.ty hr.ty rfl)
  · rcases hop with ⟨rfl, rfl, rfl⟩ | ⟨rfl, rfl, rfl⟩ <;>
      exact binary_quantityArith hl hr rfl (binary_additive hl.ty hr.ty rfl)

theorem product_buildsSame (hop : op = .mul ∧ aop = .mul ∨ op = .div ∧ aop = .div)
    (hl : Means units dynamicScale lhs l) (hr : Means units dynamicScale rhs r)
    (h : ¬ (lhs.checkedType = .int ∧ rhs.checkedType = .int)) :
    BuildsSame units dynamicScale span op
      (builtNode span op lhs (some rhs) rhsSpan (.quantity d)) l r (.quantity d) := by
  have hbinary := binary_product (l := l) (r := r) hop (by rwa [hl.ty, hr.ty])
  refine binary_quantityArith hl hr ?_ hbinary
  rcases hop with ⟨rfl, rfl⟩ | ⟨rfl, rfl⟩ <;> rfl

theorem checkedType_eq_int (h : lhs.checkedType = .int) : ∃ a, lhs = .int a := by
  cases lhs with
  | int a => exact ⟨a, rfl⟩
  | real x d => cases h

/-- A rule that computes the dimension of a product gives a quantity. -/
theorem quantity_of_product {f : Dimension B → Dimension B → Except RatioError (Dimension B)}
    {lhs rhs : Operand B} (h : (do
      let lhsDim ← productOperand lhs
      let rhsDim ← productOperand rhs
      return .quantity (← overflowAt span (f lhsDim rhsDim)) :
        Except (SemanticError B U) (CheckedType B)) = .ok result) : ∃ d, result = .quantity d := by
  obtain ⟨lhsDim, -, h⟩ := bind_eq_ok.mp h
  obtain ⟨rhsDim, -, h⟩ := bind_eq_ok.mp h
  obtain ⟨d, -, h⟩ := bind_eq_ok.mp h
  cases h
  exact ⟨d, rfl⟩

/-! ### Powers -/

theorem intPowerRule_eq_ok {rhs : Operand B}
    (h : (intPowerRule exponent rhs c : Except (SemanticError B U) (CheckedType B)) = .ok result) :
    result = .int ∧ ∃ value, knownIntExponent exponent c = some value := by
  unfold intPowerRule at h
  cases hvalue : knownIntExponent exponent c with
  | none =>
    rw [hvalue] at h
    cases h
  | some value =>
    rw [hvalue] at h
    dsimp only at h
    split_ifs at h
    cases h
    exact ⟨rfl, value, rfl⟩

theorem quantityPowerRule_eq_ok {rhs : Operand B}
    (h : (quantityPowerRule span exponent d rhs : Except (SemanticError B U) (CheckedType B)) =
      .ok result) : ∃ d', result = .quantity d' := by
  cases exponent with
  | exact exact =>
    unfold quantityPowerRule at h
    split_ifs at h
    · cases h
      exact ⟨_, rfl⟩
    · obtain ⟨rational, -, h⟩ := bind_eq_ok.mp h
      obtain ⟨d', -, h⟩ := bind_eq_ok.mp h
      cases h
      exact ⟨d', rfl⟩
  | floatSyntax exact =>
    obtain ⟨u, -, h⟩ := bind_eq_ok.mp h
    split_ifs at h
    cases h
    exact ⟨_, rfl⟩
  | runtime =>
    obtain ⟨u, -, h⟩ := bind_eq_ok.mp h
    split_ifs at h
    cases h
    exact ⟨_, rfl⟩

theorem isInteger_of_known {exponent : ExactRational} {value : I64}
    (h : knownIntExponent (.exact exponent) c = some value) : exponent.isInteger = true := by
  by_contra hinteger
  rw [knownIntExponent, if_neg hinteger] at h
  cases h

theorem intBase_eq_ok {a : ConstInt} {rhs : Operand B}
    (h : (binopRule span (.pow exponent) ⟨(.int a : Typed F B U Q).checkedType, lhsSpan⟩ rhs c :
      Except (SemanticError B U) (CheckedType B)) = .ok result) :
    result = .int ∧ ∃ value, knownIntExponent exponent c = some value := by
  have h : (intPowerRule exponent rhs c : Except (SemanticError B U) (CheckedType B)) =
      .ok result := h
  exact intPowerRule_eq_ok h

theorem quantityBase_eq_ok {x : ConstReal F B U Q} {rhs : Operand B}
    (h : (binopRule span (.pow exponent) ⟨(.real x d : Typed F B U Q).checkedType, lhsSpan⟩ rhs c :
      Except (SemanticError B U) (CheckedType B)) = .ok result) : ∃ d', result = .quantity d' := by
  have h : (quantityPowerRule span exponent d rhs : Except (SemanticError B U) (CheckedType B)) =
      .ok result := h
  exact quantityPowerRule_eq_ok h

/-- A runtime exponent of an `Int` base was folded, so it is an `Int`. -/
theorem runtimePower_buildsSame
    (hl : Means units dynamicScale lhs l) (hr : Means units dynamicScale rhs r)
    (hrule : (binopRule span (.pow .runtime) ⟨lhs.checkedType, lhsSpan⟩ ⟨rhs.checkedType, rhsSpan⟩
      (Lowering.rhsConstInt (.pow .runtime) (some rhs)) :
        Except (SemanticError B U) (CheckedType B)) = .ok result) :
    BuildsSame units dynamicScale span (.pow .runtime)
      (builtNode span (.pow .runtime) lhs (some rhs) rhsSpan result) l r result := by
  cases lhs with
  | int a =>
    obtain ⟨rfl, value, hvalue⟩ := intBase_eq_ok hrule
    cases rhs with
    | real y d => cases hvalue
    | int b =>
      exact ⟨.int (.power span a b), .int (.power l r), rfl, binary_intPower hl.ty hr.ty, rfl,
        agree_intPower hl.int hr.int⟩
  | real x d =>
    obtain ⟨d', rfl⟩ := quantityBase_eq_ok hrule
    exact ⟨.real (.power span x (rhs.intoReal .exponent)) d',
      .quantity (.power l (toQuantity .exponent r)), rfl, binary_runtimePower hl.ty, rfl,
      agree_quantityPower hl.real (hr.intoReal .exponent)⟩

theorem floatPower_buildsSame {exact : Option ExactRational} (hfloat : rhs.checkedType ≠ .int)
    (hl : Means units dynamicScale lhs l) (hr : Means units dynamicScale rhs r)
    (hrule : (binopRule span (.pow (.floatSyntax exact)) ⟨lhs.checkedType, lhsSpan⟩
      ⟨rhs.checkedType, rhsSpan⟩ c : Except (SemanticError B U) (CheckedType B)) = .ok result) :
    BuildsSame units dynamicScale span (.pow (.floatSyntax exact))
      (builtNode span (.pow (.floatSyntax exact)) lhs (some rhs) rhsSpan result) l r result := by
  cases lhs with
  | int a =>
    obtain ⟨-, value, hvalue⟩ := intBase_eq_ok hrule
    cases hvalue
  | real x d =>
    obtain ⟨d', rfl⟩ := quantityBase_eq_ok hrule
    cases rhs with
    | int b => exact absurd rfl hfloat
    | real y d₂ =>
      exact ⟨.real (.power span x y) d', .quantity (.power l r), rfl,
        binary_floatPower hl.ty hr.ty, rfl, agree_quantityPower hl.real hr.real⟩

/-- The exponent that an operator carries is the right operand of neither side. -/
theorem exactPower_buildsSame {exponent : ExactRational} (hl : Means units dynamicScale lhs l)
    {rhs : Operand B}
    (hrule : (binopRule span (.pow (.exact exponent)) ⟨lhs.checkedType, lhsSpan⟩ rhs c :
      Except (SemanticError B U) (CheckedType B)) = .ok result) :
    BuildsSame units dynamicScale span (.pow (.exact exponent))
      (builtNode span (.pow (.exact exponent)) lhs none rhsSpan result) l r result := by
  cases lhs with
  | int a =>
    obtain ⟨rfl, value, hvalue⟩ := intBase_eq_ok hrule
    have hinteger := isInteger_of_known hvalue
    exact ⟨.int (.power span a (.literal rhsSpan exponent.numI64)),
      .int (.exactPower l exponent.numI64 r), rfl, binary_intExactPower hinteger hl.ty, rfl,
      agree_intExactPower hl.int⟩
  | real x d =>
    obtain ⟨d', rfl⟩ := quantityBase_eq_ok hrule
    exact ⟨.real (.exactPower span x exponent) d', .quantity (.exactPower l exponent r), rfl,
      binary_exactPower hl.ty, rfl, agree_quantityExactPower hl.real⟩

/-- An operation that the rules accept is the same operation on both sides. -/
theorem binop_buildsSame (hexact : ∀ exponent, op ≠ .pow (.exact exponent))
    (hfloat : ∀ exact, op = .pow (.floatSyntax exact) → rhs.checkedType ≠ .int)
    (hl : Means units dynamicScale lhs l) (hr : Means units dynamicScale rhs r)
    (hrule : (binopRule span op ⟨lhs.checkedType, lhsSpan⟩ ⟨rhs.checkedType, rhsSpan⟩
      (Lowering.rhsConstInt op (some rhs)) : Except (SemanticError B U) (CheckedType B)) =
        .ok result) :
    BuildsSame units dynamicScale span op (builtNode span op lhs (some rhs) rhsSpan result) l r
      result := by
  cases op with
  | add => exact additive_buildsSame (.inl ⟨rfl, rfl, rfl⟩) hl hr hrule
  | sub => exact additive_buildsSame (.inr ⟨rfl, rfl, rfl⟩) hl hr hrule
  | mul =>
    unfold binopRule at hrule
    dsimp only at hrule
    split_ifs at hrule with hint
    · cases hrule
      obtain ⟨a, rfl⟩ := checkedType_eq_int hint.1
      obtain ⟨b, rfl⟩ := checkedType_eq_int hint.2
      exact intArith_buildsSame hl hr rfl (binary_int hl.ty hr.ty rfl)
    · obtain ⟨d, rfl⟩ := quantity_of_product hrule
      exact product_buildsSame (.inl ⟨rfl, rfl⟩) hl hr hint
  | div =>
    unfold binopRule at hrule
    dsimp only at hrule
    split_ifs at hrule with hint
    obtain ⟨d, rfl⟩ := quantity_of_product hrule
    exact product_buildsSame (.inr ⟨rfl, rfl⟩) hl hr hint
  | mod =>
    unfold binopRule at hrule
    dsimp only at hrule
    split_ifs at hrule with hint
    cases hrule
    obtain ⟨a, rfl⟩ := checkedType_eq_int hint.1
    obtain ⟨b, rfl⟩ := checkedType_eq_int hint.2
    exact intArith_buildsSame hl hr rfl (binary_int hl.ty hr.ty rfl)
  | pow exponent =>
    cases exponent with
    | exact exponent => exact absurd rfl (hexact exponent)
    | floatSyntax exact => exact floatPower_buildsSame (hfloat exact rfl) hl hr hrule
    | runtime => exact runtimePower_buildsSame hl hr hrule

end Binary

attribute [local simp] tryConstInt

/-- The folded value of a lowered constant; only an `Int` has one. -/
def Typed.folded : Typed F B U Q → Option I64
  | .int expr => (expr.evaluate : Except (ConstExprError F U) I64).toOption
  | .real _ _ => none

theorem rhsConstInt_pow (rhs : Typed F B U Q) :
    Lowering.rhsConstInt (.pow exponent) (some rhs) = rhs.folded := by
  cases rhs <;> rfl

section BinOp

variable {span rhsSpan : Span} {op : BinOp} {l r : HirExpr F U} {lhs rhs typed : Typed F B U Q}

omit [Binary64Ops F] in
theorem tryConstInt_of_left (h : tryConstInt l = none) :
    tryConstInt (.binOp span op l r) = none := by
  rw [tryConstInt, h]
  rfl

omit [Binary64Ops F] in
theorem tryConstInt_of_right (h : tryConstInt r = none) :
    tryConstInt (.binOp span op l r) = none := by
  rw [tryConstInt, h]
  cases tryConstInt l <;> rfl

/-- The fold follows the node that lowering builds. -/
theorem tryConstInt_intNode {a b expr : ConstInt}
    (hl : tryConstInt l = (a.evaluate : Except (ConstExprError F U) I64).toOption)
    (hr : tryConstInt r = (b.evaluate : Except (ConstExprError F U) I64).toOption)
    (hnode : Lowering.intNode span op (.int a : Typed F B U Q) (some (.int b)) rhsSpan =
      some expr) :
    tryConstInt (.binOp span op l r) =
      (expr.evaluate : Except (ConstExprError F U) I64).toOption := by
  rw [tryConstInt, hl, hr]
  cases op with
  | div => cases hnode
  | pow exponent =>
    have hexpr : some (ConstInt.power span a b) = some expr := by
      rw [← hnode]
      cases exponent <;> rfl
    cases hexpr
    simp only [ConstInt.evaluate, toOption_bind, toOption_mapError]
    rfl
  | _ =>
    cases hnode
    simp only [ConstInt.evaluate, toOption_bind, toOption_mapError]
    rfl

theorem intNode_eq_some {expr : ConstInt}
    (h : Lowering.intNode span op lhs (some rhs) rhsSpan = some expr) :
    ∃ a b, lhs = .int a ∧ rhs = .int b := by
  cases lhs with
  | real x d => cases h
  | int a =>
    cases rhs with
    | int b => exact ⟨a, b, rfl, rfl⟩
    | real y d =>
      cases op with
      | pow exponent => cases exponent <;> cases h
      | _ => cases h

variable {result : CheckedType B} {c : Option I64} {lhsSpan : Span}

/-- Operations on two `Int`s have an `Int` result. -/
theorem binopRule_int (h : (binopRule span op ⟨.int, lhsSpan⟩ ⟨.int, rhsSpan⟩ c :
      Except (SemanticError B U) (CheckedType B)) = .ok result) : result = .int := by
  cases op with
  | pow exponent =>
    have h : (intPowerRule exponent ⟨.int, rhsSpan⟩ c :
      Except (SemanticError B U) (CheckedType B)) = .ok result := h
    exact (intPowerRule_eq_ok h).1
  | _ => cases h <;> rfl

theorem folded_binOp
    (hrule : (binopRule span op ⟨lhs.checkedType, lhsSpan⟩ ⟨rhs.checkedType, rhsSpan⟩ c :
      Except (SemanticError B U) (CheckedType B)) = .ok result)
    (hbuilt : builtNode span op lhs (some rhs) rhsSpan result = some typed)
    (hl : tryConstInt l = lhs.folded) (hr : tryConstInt r = rhs.folded) :
    tryConstInt (.binOp span op l r) = typed.folded := by
  cases result with
  | int =>
    obtain ⟨expr, hnode, rfl⟩ := Option.map_eq_some_iff.mp hbuilt
    obtain ⟨a, b, rfl, rfl⟩ := intNode_eq_some hnode
    exact tryConstInt_intNode hl hr hnode
  | quantity d =>
    obtain ⟨expr, -, rfl⟩ := Option.map_eq_some_iff.mp hbuilt
    cases lhs with
    | real x dx => exact tryConstInt_of_left hl
    | int a =>
      cases rhs with
      | real y dy => exact tryConstInt_of_right hr
      | int b => exact nomatch binopRule_int hrule

/-- The literal of an integral exponent folds to it. -/
theorem folded_exactPower {exponent : ExactRational} {operand : Operand B}
    (hrule : (binopRule span (.pow (.exact exponent)) ⟨lhs.checkedType, lhsSpan⟩ operand c :
      Except (SemanticError B U) (CheckedType B)) = .ok result)
    (hbuilt : builtNode span (.pow (.exact exponent)) lhs none rhsSpan result = some typed)
    (hl : tryConstInt l = lhs.folded) :
    tryConstInt (.binOp span (.pow (.exact exponent)) l (exactExponentLiteral exponent rhsSpan)) =
      typed.folded := by
  cases lhs with
  | real x d =>
    obtain ⟨d', rfl⟩ := quantityBase_eq_ok hrule
    cases hbuilt
    exact tryConstInt_of_left hl
  | int a =>
    obtain ⟨rfl, value, hvalue⟩ := intBase_eq_ok hrule
    have hinteger := isInteger_of_known hvalue
    cases hbuilt
    have hr : tryConstInt (exactExponentLiteral exponent rhsSpan : HirExpr F U) =
        ((ConstInt.literal rhsSpan exponent.numI64).evaluate :
          Except (ConstExprError F U) I64).toOption := by
      rw [exactExponentLiteral, if_pos hinteger]
      rfl
    have hnode : Lowering.intNode span (.pow (.exact exponent)) (.int a : Typed F B U Q)
        (some (.int (.literal rhsSpan exponent.numI64))) rhsSpan =
        some (.power span a (.literal rhsSpan exponent.numI64)) := rfl
    exact tryConstInt_intNode hl hr hnode

end BinOp

end ProvenGraphcal.Constant
