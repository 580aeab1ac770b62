import ProvenGraphcal.Constant.NodeAgreement

/-!
# Lowering a constant and checking a body
-/

namespace ProvenGraphcal.Constant

open Agreement
open Host (I64)
open Checked (bind_eq_ok bind_pure_eq_ok)

variable {F B U Q : Type} [Binary64Ops F] [LinearOrder B]

variable (units : U → Option (UnitInfo F B))
  (dynamicScale : U → PositiveFiniteScale F → Span →
    Except (RuntimeError F U) (PositiveFiniteScale F))

/-- A lowered constant and the checked body of the same expression. -/
structure Corresponds (expr : Expr F U) (typed : Typed F B U Q) (hir : HirExpr F U)
    (tree : TExpr F B U) : Prop where
  lowered : lowerExpr units expr = .ok hir
  span : hir.span = expr.span
  inferred : infer units hir = .ok typed.checkedType
  folded : tryConstInt hir = typed.folded
  assembled : assemble units hir = .ok tree
  means : Means units dynamicScale typed tree

/-- No body of the expression has a value. -/
def Rejected (expr : Expr F U) : Prop :=
  ∀ hir type tree, lowerExpr units expr = .ok hir → infer units hir = .ok type →
    assemble units hir = .ok tree → Fails (eval units dynamicScale tree)

/-- A position lowers the expression and the body checks to the same, or neither has a value. -/
inductive Alike (position : Lowering F B U Q) (expr : Expr F U) : Prop
  | accepted (typed : Typed F B U Q) (hir : HirExpr F U) (tree : TExpr F B U)
      (lowered : position.lower expr = .ok typed)
      (corresponds : Corresponds units dynamicScale expr typed hir tree)
  | rejected (failed : Fails (position.lower expr)) (rejected : Rejected units dynamicScale expr)

variable {units dynamicScale} {position : Lowering F B U Q}

attribute [local simp] eval infer assemble lowerExpr lowerArgs tryConstInt Lowering.lower

omit [Binary64Ops F] in
@[simp] theorem TExpr.ty_new (span : Span) (ty : CheckedType B) (kind : TExprKind F B U) :
    (TExpr.new span ty kind).ty = ty := by
  cases kind <;> rfl

variable {hir : HirExpr F U} {kind : TExprKind F B U}

theorem withRecordedType_eq_ok {tree : TExpr F B U} :
    withRecordedType units hir kind = .ok tree ↔
      ∃ ty, infer units hir = .ok ty ∧ tree = .new hir.span ty kind := by
  unfold withRecordedType
  cases h : infer units hir with
  | error e => exact ⟨nofun, fun ⟨_, h, _⟩ => (nomatch h)⟩
  | ok ty =>
    constructor
    · intro h
      cases h
      exact ⟨ty, rfl, rfl⟩
    · rintro ⟨ty', h, rfl⟩
      cases h
      rfl

/-- A checked expression whose tree has an agreeing value corresponds. -/
theorem Corresponds.new {expr : Expr F U} {typed : Typed F B U Q} {hir : HirExpr F U}
    {kind : TExprKind F B U} (lowered : lowerExpr units expr = .ok hir)
    (span : hir.span = expr.span) (inferred : infer units hir = .ok typed.checkedType)
    (folded : tryConstInt hir = typed.folded)
    (assembled : assemble units hir = withRecordedType units hir kind)
    (value : Agree typed.value
      (eval units dynamicScale (.new hir.span typed.checkedType kind))) :
    Corresponds units dynamicScale expr typed hir (.new hir.span typed.checkedType kind) where
  lowered := lowered
  span := span
  inferred := inferred
  folded := folded
  assembled := assembled.trans (withRecordedType_eq_ok.mpr ⟨_, inferred, rfl⟩)
  means := ⟨TExpr.ty_new _ _ _, value⟩

theorem alike_number (span : Span) (value : F) :
    Alike units dynamicScale position (.number span value) := by
  by_cases hfinite : Binary64Ops.isFinite value = true
  · have hvalue : FiniteQuantity.tryNew value = .ok ⟨value, hfinite⟩ := tryNew_eq_ok.mpr rfl
    refine .accepted (.real (.number span ⟨value, hfinite⟩) .dimensionless) (.number span value) _
      ?_ (.new rfl rfl rfl rfl rfl ?_)
    · rw [Lowering.lower, hvalue]
      rfl
    · refine Agree.map ?_ RuntimeValue.quantity
      intro q
      rw [finiteQuantity_eq_ok]
      constructor
      · intro h
        cases h
        rfl
      · rintro rfl
        rfl
  · have hvalue : ∀ q : FiniteQuantity F, value ≠ q.get := by
      rintro q rfl
      exact hfinite q.finite
    refine .rejected ?_ ?_
    · apply fails_bind
      intro q hq
      exact hvalue q (tryNew_eq_ok.mp (Checked.mapError_eq_ok.mp hq))
    · intro hir type tree hhir _ htree
      cases hhir
      obtain ⟨ty, -, rfl⟩ := withRecordedType_eq_ok.mp htree
      apply fails_map
      intro q hq
      exact hvalue q (finiteQuantity_eq_ok.mp hq)

theorem alike_integer (span : Span) (value : I64) :
    Alike units dynamicScale position (.integer span value) :=
  .accepted (.int (.literal span value)) (.integer span value) _ rfl
    (.new rfl rfl rfl rfl rfl (agree_ok _))

theorem alike_constant (span : Span) (constant : BuiltinConst) :
    Alike units dynamicScale position (.constant span constant) :=
  .accepted (.real (.builtin span constant) .dimensionless) (.constant span constant) _ rfl
    (.new rfl rfl rfl rfl rfl ((agree_finiteQuantity _ _ _ _).map _))

variable (units position) in
/-- The position admits quantity literals and resolves units as bodies do. -/
structure AdmitsUnits : Prop where
  quantity : ∃ admitted, position.quantity = some admitted
  resolveUnit : position.resolveUnit = some (resolveUnitExprWith units)

variable {value : F}

theorem infer_quantityLiteral {span : Span} {unit : ResolvedUnitExpr U} {type : CheckedType B} :
    infer units (.quantityLiteral span value unit) = .ok type ↔
      ∃ d, resolveUnitDimension units unit = .ok d ∧ type = .quantity d := by
  rw [infer, bind_eq_ok]
  exact exists_congr fun d => and_congr_right' ⟨fun h => (Except.ok.inj h).symm,
    fun h => congrArg _ h.symm⟩

theorem alike_quantityLiteral (hadmits : AdmitsUnits units position) {span : Span}
    {unit : UnitExpr U} (hfinite : Binary64Ops.isFinite value = true)
    (hstatic : UnitsStatic units (unit.terms.map UnitExprItem.name)) :
    Alike units dynamicScale position (.quantityLiteral span value unit) := by
  obtain ⟨admitted, hquantity⟩ := hadmits.quantity
  have hvalue : FiniteQuantity.tryNew value = .ok ⟨value, hfinite⟩ := tryNew_eq_ok.mpr rfl
  cases hresolve : resolveUnitExprWith units unit with
  | ok resolution =>
    obtain ⟨d, s⟩ := resolution
    obtain ⟨resolved, hlower, hdimension, hscale⟩ : ∃ resolved,
        lowerUnitExpr units unit = .ok resolved ∧ resolveUnitDimension units resolved = .ok d ∧
          resolveUnitScale units dynamicScale resolved = .ok s :=
      (resolveUnitExprWith_eq_ok hstatic).mp hresolve
    refine .accepted (.real (.quantity span ⟨value, hfinite⟩ ⟨unit, d, s⟩ admitted) d)
      (.quantityLiteral span value resolved) _ ?_
      (.new ?_ rfl (infer_quantityLiteral.mpr ⟨d, hdimension, rfl⟩) rfl rfl ?_)
    · rw [Lowering.lower, hquantity, hadmits.resolveUnit]
      dsimp only
      rw [hvalue, hresolve]
      rfl
    · rw [lowerExpr, hlower]
      rfl
    · show Agree _ (eval units dynamicScale (.quantityLiteral span _ value resolved))
      rw [eval, hscale]
      exact (agree_finiteQuantity _ _ _ _).map _
  | error error =>
    refine .rejected ?_ ?_
    · rw [Lowering.lower, hquantity, hadmits.resolveUnit]
      dsimp only
      rw [hvalue, hresolve]
      exact fails_error _
    · intro hir type tree hhir htype htree
      obtain ⟨resolved, hlower, rfl⟩ := bind_pure_eq_ok.mp hhir
      obtain ⟨ty, -, rfl⟩ := withRecordedType_eq_ok.mp htree
      obtain ⟨d, hdimension, -⟩ := infer_quantityLiteral.mp htype
      show Fails (eval units dynamicScale (.quantityLiteral span ty value resolved))
      apply fails_map
      apply fails_bind
      intro s hscale
      have hok := (resolveUnitExprWith_eq_ok hstatic).mpr ⟨resolved, hlower, hdimension, hscale⟩
      exact nomatch hresolve.symm.trans hok

theorem alike_neg {span : Span} {operand : Expr F U}
    (h : Alike units dynamicScale position operand) :
    Alike units dynamicScale position (.neg span operand) := by
  cases h with
  | accepted typed hir tree lowered c =>
    cases typed with
    | int a =>
      refine .accepted (.int (.neg span a)) (.neg span hir) (.new span .int (.int (.neg tree))) ?_
        (.new ?_ rfl ?_ ?_ ?_ (agree_intNeg c.means.int))
      · rw [Lowering.lower, lowered]
        rfl
      · rw [lowerExpr, c.lowered]
        rfl
      · rw [infer, c.inferred]
        rfl
      · rw [tryConstInt, c.folded]
        simp only [Typed.folded, ConstInt.evaluate, toOption_bind, toOption_mapError]
        rfl
      · have hunary : unary tree = .int (.neg tree) := by rw [unary, c.means.ty]; rfl
        rw [assemble, c.assembled, ← hunary]
        rfl
    | real x d =>
      refine .accepted (.real (.neg span x) d) (.neg span hir)
        (.new span (.quantity d) (.quantity (.neg tree))) ?_
        (.new ?_ rfl ?_ ?_ ?_ (agree_quantityNeg c.means.real))
      · rw [Lowering.lower, lowered]
        rfl
      · rw [lowerExpr, c.lowered]
        rfl
      · rw [infer, c.inferred]
        rfl
      · rw [tryConstInt, c.folded]
        rfl
      · have hunary : unary tree = .quantity (.neg tree) := by rw [unary, c.means.ty]; rfl
        rw [assemble, c.assembled, ← hunary]
        rfl
  | rejected failed rejected =>
    refine .rejected (fails_bind _ failed) ?_
    intro hir type tree hhir htype htree
    obtain ⟨operandHir, hlowered, rfl⟩ := bind_pure_eq_ok.mp hhir
    obtain ⟨operandType, hinferred, -⟩ := bind_eq_ok.mp htype
    obtain ⟨operandTree, hassembled, htree⟩ := bind_eq_ok.mp htree
    obtain ⟨ty, -, rfl⟩ := withRecordedType_eq_ok.mp htree
    have hfails := rejected _ _ _ hlowered hinferred hassembled
    unfold unary
    cases operandTree.ty with
    | int => exact fails_map _ (fails_bind _ (fails_bind _ hfails))
    | quantity d => exact fails_map _ (fails_bind _ (fails_bind _ hfails))

/-! ## Binary operations -/

variable {lhsType rhsType : CheckedType B}

section Operands

variable {span : Span} {type : CheckedType B} {op : BinOp} {l r : TExpr F B U}

theorem fails_intToQuantity {conversion : IntConversion} (h : Fails (eval units dynamicScale l)) :
    Fails (eval units dynamicScale (intToQuantity conversion l)) :=
  fails_map _ (fails_bind _ (fails_bind _ h))

theorem fails_convertIntOperand_left (h : Fails (eval units dynamicScale l)) :
    Fails (eval units dynamicScale (convertIntOperand op l r).1) := by
  unfold convertIntOperand
  split
  all_goals first
    | exact h
    | exact fails_intToQuantity h

theorem fails_convertIntOperand_right (h : Fails (eval units dynamicScale r)) :
    Fails (eval units dynamicScale (convertIntOperand op l r).2) := by
  unfold convertIntOperand
  split
  all_goals first
    | exact h
    | exact fails_intToQuantity h

theorem fails_kind_left (operation : BinaryOperation) (h : Fails (eval units dynamicScale l)) :
    Fails (eval units dynamicScale (.new span type (operation.kind l r))) := by
  cases operation <;> exact fails_map _ (fails_bind _ (fails_bind _ h))

/-- Only an exact power does not evaluate its right operand. -/
theorem fails_kind_right {operation : BinaryOperation}
    (hexact : ∀ exponent, op ≠ .pow (.exact exponent))
    (hselect : BinaryOperation.select op lhsType rhsType = some operation)
    (h : Fails (eval units dynamicScale r)) :
    Fails (eval units dynamicScale (.new span type (operation.kind l r))) := by
  cases operation with
  | intExactPower exponent =>
    unfold BinaryOperation.select at hselect
    split at hselect <;> simp_all
  | quantityExactPower exponent =>
    unfold BinaryOperation.select at hselect
    split at hselect <;> simp_all
  | _ => exact fails_map _ (fails_bind_of fun _ _ => fails_bind _ (fails_bind _ h))

theorem fails_binary_left (hbinary : binary op l r = some kind)
    (h : Fails (eval units dynamicScale l)) :
    Fails (eval units dynamicScale (.new span type kind)) := by
  obtain ⟨operation, -, hkind⟩ := Option.bind_eq_some_iff.mp hbinary
  cases hkind
  exact fails_kind_left operation (fails_convertIntOperand_left h)

theorem fails_binary_right (hexact : ∀ exponent, op ≠ .pow (.exact exponent))
    (hbinary : binary op l r = some kind) (h : Fails (eval units dynamicScale r)) :
    Fails (eval units dynamicScale (.new span type kind)) := by
  obtain ⟨operation, hselect, hkind⟩ := Option.bind_eq_some_iff.mp hbinary
  cases hkind
  exact fails_kind_right hexact hselect (fails_convertIntOperand_right h)

end Operands

section BinOp

variable {span : Span} {op : BinOp} {lhs rhs : Expr F U}

/-- The right operand that a body is checked with: an exact exponent is a literal. -/
def lowerRhs (units : U → Option (UnitInfo F B)) (op : BinOp) (rhs : Expr F U) :
    Except (ExprLowerError U) (HirExpr F U) :=
  match op with
  | .pow (.exact exponent) => .ok (exactExponentLiteral exponent rhs.span)
  | _ => lowerExpr units rhs

theorem lowerExpr_binOp : lowerExpr units (.binOp span op lhs rhs) = do
    let lhs ← lowerExpr units lhs
    return .binOp span op lhs (← lowerRhs units op rhs) := by
  cases op with
  | pow exponent => cases exponent <;> rfl
  | _ => rfl

/-- A position lowers the right operand unless the operator carries the exponent. -/
theorem lower_binOp (hexact : ∀ exponent, op ≠ .pow (.exact exponent)) :
    position.lower (.binOp span op lhs rhs) = (do
      let lhsTyped ← position.lower lhs
      let rhsTyped ← position.lower rhs
      position.binop span op lhsTyped lhs.span (some rhsTyped) rhsTyped.checkedType rhs.span) := by
  cases op with
  | pow exponent =>
    cases exponent with
    | exact exponent => exact absurd rfl (hexact exponent)
    | _ => rfl
  | _ => rfl

/-- What a body with a value needs of its operands. -/
theorem rejected_of_operands
    (h : ∀ l r lhsType rhsType lhsTree rhsTree kind, lowerExpr units lhs = .ok l →
      lowerRhs units op rhs = .ok r → infer units l = .ok lhsType → infer units r = .ok rhsType →
      assemble units l = .ok lhsTree → assemble units r = .ok rhsTree →
      binary op lhsTree rhsTree = some kind →
      (∃ result, (binopRule span op ⟨lhsType, l.span⟩ ⟨rhsType, r.span⟩ (inferRhsConstInt op r) :
        Except (SemanticError B U) (CheckedType B)) = .ok result) →
      ∀ ty, Fails (eval units dynamicScale (.new span ty kind))) :
    Rejected units dynamicScale (.binOp span op lhs rhs) := by
  intro hir type tree hhir htype htree
  rw [lowerExpr_binOp] at hhir
  obtain ⟨l, hl, hhir⟩ := bind_eq_ok.mp hhir
  obtain ⟨r, hr, rfl⟩ := bind_pure_eq_ok.mp hhir
  obtain ⟨lhsType, hlhsType, htype⟩ := bind_eq_ok.mp htype
  obtain ⟨rhsType, hrhsType, htype⟩ := bind_eq_ok.mp htype
  obtain ⟨lhsTree, hlhsTree, htree⟩ := bind_eq_ok.mp htree
  obtain ⟨rhsTree, hrhsTree, htree⟩ := bind_eq_ok.mp htree
  obtain ⟨kind, hkind, htree⟩ := bind_eq_ok.mp htree
  obtain ⟨ty, -, rfl⟩ := withRecordedType_eq_ok.mp htree
  exact h l r lhsType rhsType lhsTree rhsTree kind hl hr hlhsType hrhsType hlhsTree hrhsTree
    (okOr_eq_ok.mp hkind) ⟨type, htype⟩ ty

theorem checkedType_of_signedFloatLiteral {typed : Typed F B U Q}
    (h : rhs.isSignedFloatLiteral = true) (hlower : position.lower rhs = .ok typed) :
    typed.checkedType ≠ .int := by
  unfold Expr.isSignedFloatLiteral at h
  split at h
  next span value =>
    obtain ⟨q, -, h⟩ := bind_eq_ok.mp hlower
    cases h
    exact nofun
  next span literalSpan value =>
    obtain ⟨operand, hoperand, hlower⟩ := bind_eq_ok.mp hlower
    obtain ⟨q, -, h⟩ := bind_eq_ok.mp hoperand
    cases h
    cases hlower
    exact nofun
  next => cases h

theorem binop_eq_ok {lhsSpan rhsSpan : Span} {lhs typed : Typed F B U Q}
    {rhs : Option (Typed F B U Q)} {result : CheckedType B}
    (hrule : (binopRule span op ⟨lhs.checkedType, lhsSpan⟩ ⟨rhsType, rhsSpan⟩
      (Lowering.rhsConstInt op rhs) : Except (SemanticError B U) (CheckedType B)) = .ok result)
    (hbuilt : builtNode span op lhs rhs rhsSpan result = some typed) :
    position.binop span op lhs lhsSpan rhs rhsType rhsSpan = .ok typed := by
  rw [Lowering.binop, hrule]
  show okOr (builtNode span op lhs rhs rhsSpan result) _ = .ok typed
  rw [hbuilt]
  rfl

theorem fails_binop {lhsSpan rhsSpan : Span} {lhs : Typed F B U Q} {rhs : Option (Typed F B U Q)}
    {error : SemanticError B U}
    (hrule : binopRule span op ⟨lhs.checkedType, lhsSpan⟩ ⟨rhsType, rhsSpan⟩
      (Lowering.rhsConstInt op rhs) = .error error) :
    Fails (position.binop span op lhs lhsSpan rhs rhsType rhsSpan) := by
  rw [Lowering.binop, hrule]
  exact fails_error _

/-- Both sides give the rules the same exponent. -/
theorem binopRule_folded {l r : Span} {rhs : Typed F B U Q}
    (hfolded : tryConstInt hir = rhs.folded) :
    (binopRule span op ⟨lhsType, l⟩ ⟨rhs.checkedType, r⟩ (inferRhsConstInt op hir) :
      Except (SemanticError B U) (CheckedType B)) =
    binopRule span op ⟨lhsType, l⟩ ⟨rhs.checkedType, r⟩ (Lowering.rhsConstInt op (some rhs)) := by
  apply binopRule_congr
  rintro rfl
  rw [rhsConstInt_pow]
  exact hfolded

theorem alike_binOp (hexact : ∀ exponent, op ≠ .pow (.exact exponent))
    (hfloat : ∀ exact, op = .pow (.floatSyntax exact) → rhs.isSignedFloatLiteral = true)
    (hl : Alike units dynamicScale position lhs) (hr : Alike units dynamicScale position rhs) :
    Alike units dynamicScale position (.binOp span op lhs rhs) := by
  have hrhs : lowerRhs units op rhs = lowerExpr units rhs := by
    cases op with
    | pow exponent =>
      cases exponent with
      | exact exponent => exact absurd rfl (hexact exponent)
      | _ => rfl
    | _ => rfl
  cases hl with
  | rejected failed rejected =>
    refine .rejected ?_ (rejected_of_operands ?_)
    · rw [lower_binOp hexact]
      exact fails_bind _ failed
    · intro l r lhsType rhsType lhsTree rhsTree kind hl _ hlhsType _ hlhsTree _ hkind _ ty
      exact fails_binary_left hkind (rejected _ _ _ hl hlhsType hlhsTree)
  | accepted lt l lhsTree lhsLowered cl =>
    cases hr with
    | rejected failed rejected =>
      refine .rejected ?_ (rejected_of_operands ?_)
      · rw [lower_binOp hexact]
        exact fails_bind_of fun _ _ => fails_bind _ failed
      · intro l r lhsType rhsType lhsTree rhsTree kind _ hr _ hrhsType _ hrhsTree hkind _ ty
        rw [hrhs] at hr
        exact fails_binary_right hexact hkind (rejected _ _ _ hr hrhsType hrhsTree)
    | accepted rt r rhsTree rhsLowered cr =>
      have hlower : position.lower (.binOp span op lhs rhs) =
          position.binop span op lt lhs.span (some rt) rt.checkedType rhs.span := by
        rw [lower_binOp hexact, lhsLowered, rhsLowered]
        rfl
      cases hrule : (binopRule span op ⟨lt.checkedType, lhs.span⟩ ⟨rt.checkedType, rhs.span⟩
          (Lowering.rhsConstInt op (some rt)) : Except (SemanticError B U) (CheckedType B)) with
      | error error =>
        refine .rejected ?_ (rejected_of_operands ?_)
        · rw [hlower]
          exact fails_binop hrule
        · rintro l' r' lhsType rhsType _ _ _ hl hr hlhsType hrhsType _ _ _ ⟨result, hresult⟩
          rw [hrhs] at hr
          cases cl.lowered.symm.trans hl
          cases cr.lowered.symm.trans hr
          cases cl.inferred.symm.trans hlhsType
          cases cr.inferred.symm.trans hrhsType
          rw [binopRule_folded cr.folded, cl.span, cr.span, hrule] at hresult
          cases hresult
      | ok result =>
        have hnotInt : ∀ exact, op = .pow (.floatSyntax exact) → rt.checkedType ≠ .int :=
          fun exact hop => checkedType_of_signedFloatLiteral (hfloat exact hop) rhsLowered
        obtain ⟨typed, kind, hbuilt, hkind, rfl, hvalue⟩ :=
          binop_buildsSame hexact hnotInt cl.means cr.means hrule
        refine .accepted typed (.binOp span op l r) _ ?_ (.new ?_ rfl ?_ ?_ ?_ hvalue)
        · rw [hlower]
          exact binop_eq_ok hrule hbuilt
        · rw [lowerExpr_binOp, hrhs, cl.lowered, cr.lowered]
          rfl
        · rw [infer, cl.inferred, cr.inferred, cl.span, cr.span]
          exact (binopRule_folded cr.folded).trans hrule
        · exact folded_binOp hrule hbuilt cl.folded cr.folded
        · rw [assemble, cl.assembled, cr.assembled]
          show (okOr (binary op lhsTree rhsTree) _ >>= _) = _
          rw [hkind]
          rfl

theorem exactExponentLiteral_span (exponent : ExactRational) (span : Span) :
    (exactExponentLiteral exponent span : HirExpr F U).span = span := by
  unfold exactExponentLiteral
  split_ifs <;> rfl

theorem infer_exactExponentLiteral (exponent : ExactRational) (span : Span) :
    infer units (exactExponentLiteral exponent span) =
      .ok (Lowering.exactExponentType exponent) := by
  unfold exactExponentLiteral Lowering.exactExponentType
  split_ifs <;> rfl

theorem assemble_exactExponentLiteral (exponent : ExactRational) (span : Span) :
    ∃ tree, assemble units (exactExponentLiteral exponent span) = .ok tree := by
  unfold exactExponentLiteral
  split_ifs
  · exact ⟨_, rfl⟩
  · exact ⟨_, rfl⟩

theorem alike_exactPower {exponent : ExactRational}
    (hl : Alike units dynamicScale position lhs) :
    Alike units dynamicScale position (.binOp span (.pow (.exact exponent)) lhs rhs) := by
  have hlower : position.lower (.binOp span (.pow (.exact exponent)) lhs rhs) = (do
      let lhsTyped ← position.lower lhs
      position.binop span (.pow (.exact exponent)) lhsTyped lhs.span none
        (Lowering.exactExponentType exponent) rhs.span) := by
    rw [Lowering.lower]
  cases hl with
  | rejected failed rejected =>
    refine .rejected ?_ (rejected_of_operands ?_)
    · rw [hlower]
      exact fails_bind _ failed
    · intro l r lhsType rhsType lhsTree rhsTree kind hl _ hlhsType _ hlhsTree _ hkind _ ty
      exact fails_binary_left hkind (rejected _ _ _ hl hlhsType hlhsTree)
  | accepted lt l lhsTree lhsLowered cl =>
    rw [lhsLowered] at hlower
    have hcongr : ∀ c, (binopRule span (.pow (.exact exponent)) ⟨lt.checkedType, lhs.span⟩
        ⟨Lowering.exactExponentType exponent, rhs.span⟩ c :
          Except (SemanticError B U) (CheckedType B)) = binopRule span (.pow (.exact exponent))
        ⟨lt.checkedType, lhs.span⟩ ⟨Lowering.exactExponentType exponent, rhs.span⟩
        (Lowering.rhsConstInt (.pow (.exact exponent)) (none : Option (Typed F B U Q))) :=
      fun c => binopRule_congr nofun
    cases hrule : (binopRule span (.pow (.exact exponent)) ⟨lt.checkedType, lhs.span⟩
        ⟨Lowering.exactExponentType exponent, rhs.span⟩
        (Lowering.rhsConstInt (.pow (.exact exponent)) (none : Option (Typed F B U Q))) :
          Except (SemanticError B U) (CheckedType B)) with
    | error error =>
      refine .rejected ?_ (rejected_of_operands ?_)
      · rw [hlower]
        exact fails_binop hrule
      · rintro l' r' lhsType rhsType _ _ _ hl hr hlhsType hrhsType _ _ _ ⟨result, hresult⟩
        cases cl.lowered.symm.trans hl
        cases hr
        cases cl.inferred.symm.trans hlhsType
        cases (infer_exactExponentLiteral exponent rhs.span).symm.trans hrhsType
        rw [exactExponentLiteral_span, cl.span, hcongr, hrule] at hresult
        cases hresult
    | ok result =>
      obtain ⟨exponentTree, hexponent⟩ : ∃ tree : TExpr F B U,
          assemble units (exactExponentLiteral exponent rhs.span) = .ok tree :=
        assemble_exactExponentLiteral exponent rhs.span
      obtain ⟨typed, kind, hbuilt, hkind, rfl, hvalue⟩ :=
        exactPower_buildsSame (r := exponentTree) cl.means hrule
      refine .accepted typed (.binOp span (.pow (.exact exponent)) l
        (exactExponentLiteral exponent rhs.span)) _ ?_ (.new ?_ rfl ?_ ?_ ?_ hvalue)
      · rw [hlower]
        exact binop_eq_ok hrule hbuilt
      · rw [lowerExpr_binOp, cl.lowered]
        rfl
      · rw [infer, cl.inferred, infer_exactExponentLiteral, cl.span, exactExponentLiteral_span]
        exact (hcongr _).trans hrule
      · exact folded_exactPower hrule hbuilt cl.folded
      · rw [assemble, cl.assembled, hexponent]
        show (okOr (binary _ lhsTree exponentTree) _ >>= _) = _
        rw [hkind]
        rfl

end BinOp

end ProvenGraphcal.Constant
