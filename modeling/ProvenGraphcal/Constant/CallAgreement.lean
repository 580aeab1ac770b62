import ProvenGraphcal.Constant.PositionAgreement

/-!
# Calls in constants and in node bodies
-/

namespace ProvenGraphcal.Constant

open Agreement
open Checked (bind_eq_ok)

variable {F B U Q : Type} [Binary64Ops F] [LinearOrder B]
  {units : U → Option (UnitInfo F B)}
  {dynamicScale : U → PositiveFiniteScale F → Span →
    Except (RuntimeError F U) (PositiveFiniteScale F)}
  {position : Lowering F B U Q}

attribute [local simp] infer assemble assembleArgs lowerExpr lowerArgs Lowering.lower

variable {span calleeSpan : Span}
variable {callee : Callee} {args : List (Expr F U)}

theorem lowerExpr_call {hir : HirExpr F U} :
    lowerExpr units (.call span callee args) = .ok hir ↔
      ∃ hirs, lowerArgs units args = .ok hirs ∧ hir = .call span callee hirs := by
  rw [lowerExpr, bind_eq_ok]
  exact exists_congr fun hirs => and_congr_right' ⟨fun h => (Except.ok.inj h).symm,
    fun h => congrArg _ h.symm⟩

variable {arg : Expr F U} {hirs : List (HirExpr F U)}

theorem lowerArgs_cons :
    lowerArgs units (arg :: args) = .ok hirs ↔
      ∃ hir rest, lowerExpr units arg = .ok hir ∧ lowerArgs units args = .ok rest ∧
        hirs = hir :: rest := by
  rw [lowerArgs, bind_eq_ok]
  refine exists_congr fun hir => ?_
  constructor
  · rintro ⟨hhir, h⟩
    obtain ⟨rest, hrest, h⟩ := bind_eq_ok.mp h
    exact ⟨rest, hhir, hrest, (Except.ok.inj h).symm⟩
  · rintro ⟨rest, hhir, hrest, rfl⟩
    exact ⟨hhir, bind_eq_ok.mpr ⟨rest, hrest, rfl⟩⟩

variable {tree : TExpr F B U}

theorem assemble_call {args : List (HirExpr F U)} :
    assemble units (.call span callee args) = .ok tree ↔
      ∃ trees kind ty, assembleArgs units args = .ok trees ∧
        builtinCall callee.function trees = some kind ∧
        infer units (.call span callee args) = .ok ty ∧ tree = .new span ty kind := by
  rw [assemble, bind_eq_ok]
  refine exists_congr fun trees => ?_
  rw [bind_eq_ok]
  constructor
  · rintro ⟨htrees, kind, hkind, htree⟩
    obtain ⟨ty, hty, rfl⟩ := withRecordedType_eq_ok.mp htree
    exact ⟨kind, ty, htrees, okOr_eq_ok.mp hkind, hty, rfl⟩
  · rintro ⟨kind, ty, htrees, hkind, hty, rfl⟩
    exact ⟨htrees, kind, okOr_eq_ok.mpr hkind, withRecordedType_eq_ok.mpr ⟨ty, hty, rfl⟩⟩

theorem assembleArgs_cons {arg : HirExpr F U} {args : List (HirExpr F U)}
    {trees : List (TExpr F B U)} : assembleArgs units (arg :: args) = .ok trees ↔
      ∃ tree rest, assemble units arg = .ok tree ∧ assembleArgs units args = .ok rest ∧
        trees = tree :: rest := by
  rw [assembleArgs, bind_eq_ok]
  refine exists_congr fun tree => ?_
  constructor
  · rintro ⟨htree, h⟩
    obtain ⟨rest, hrest, h⟩ := bind_eq_ok.mp h
    exact ⟨rest, htree, hrest, (Except.ok.inj h).symm⟩
  · rintro ⟨rest, htree, hrest, rfl⟩
    exact ⟨htree, bind_eq_ok.mpr ⟨rest, hrest, rfl⟩⟩

variable {type : CheckedType B}

theorem infer_toFloat {arg : HirExpr F U} :
    infer units (.call span ⟨.toFloat, calleeSpan⟩ [arg]) = .ok type ↔
      infer units arg = .ok .int ∧ type = .quantity .dimensionless := by
  show (infer units arg >>= fun type => toFloatRule ⟨type, arg.span⟩) = _ ↔ _
  rw [bind_eq_ok]
  constructor
  · rintro ⟨argType, hinferred, h⟩
    unfold toFloatRule at h
    split_ifs at h with hint
    cases h
    rw [← not_not.mp hint]
    exact ⟨hinferred, rfl⟩
  · rintro ⟨hinferred, rfl⟩
    exact ⟨.int, hinferred, rfl⟩

variable {kind : TExprKind F B U}

omit [Binary64Ops F] in
theorem builtinCall_toFloat (h : builtinCall .toFloat [tree] = some kind) :
    kind = .quantity (.fromInt .toFloat tree) := by
  unfold builtinCall at h
  dsimp only at h
  split at h
  · exact (Option.some.inj h).symm
  · cases h

theorem lower_toFloat :
    position.lower (.call span ⟨.toFloat, calleeSpan⟩ [arg]) = (do
      let typed ← position.lower arg
      let _ ← (toFloatRule ⟨typed.checkedType, arg.span⟩).mapError .type
      let int ← position.intArgument typed span
      return .real (.fromInt span .toFloat int) .dimensionless) := rfl

theorem alike_toFloat (harg : Alike units dynamicScale position arg) :
    Alike units dynamicScale position (.call span ⟨.toFloat, calleeSpan⟩ [arg]) := by
  cases harg with
  | rejected failed rejected =>
    refine .rejected ?_ ?_
    · rw [lower_toFloat]
      exact fails_bind _ failed
    intro hir type tree hhir htype htree
    obtain ⟨hirs, hhirs, rfl⟩ := lowerExpr_call.mp hhir
    obtain ⟨argHir, rest, hlowered, hrest, rfl⟩ := lowerArgs_cons.mp hhirs
    cases hrest
    have hinferred := (infer_toFloat.mp htype).1
    obtain ⟨trees, kind, ty, htrees, hkind, -, rfl⟩ := assemble_call.mp htree
    obtain ⟨argTree, rest, hassembled, hrest, rfl⟩ := assembleArgs_cons.mp htrees
    cases hrest
    cases builtinCall_toFloat hkind
    exact fails_map _ (fails_bind _ (fails_bind _ (rejected _ _ _ hlowered hinferred hassembled)))
  | accepted typed hir tree lowered c =>
    cases typed with
    | real x d =>
      refine .rejected ?_ ?_
      · rw [lower_toFloat, lowered]
        exact fails_error _
      · intro callHir type callTree hhir htype _
        obtain ⟨hirs, hhirs, rfl⟩ := lowerExpr_call.mp hhir
        obtain ⟨argHir, rest, hlowered, hrest, rfl⟩ := lowerArgs_cons.mp hhirs
        cases hrest
        cases c.lowered.symm.trans hlowered
        exact nomatch c.inferred.symm.trans (infer_toFloat.mp htype).1
    | int a =>
      have hinferred : infer units (.call span ⟨.toFloat, calleeSpan⟩ [hir]) =
          .ok (.quantity .dimensionless) := infer_toFloat.mpr ⟨c.inferred, rfl⟩
      have hkind : builtinCall .toFloat [tree] = some (.quantity (.fromInt .toFloat tree)) := by
        rw [builtinCall, c.means.ty]
        rfl
      refine .accepted (.real (.fromInt span .toFloat a) .dimensionless)
        (.call span ⟨.toFloat, calleeSpan⟩ [hir]) _ ?_
        ⟨?_, rfl, hinferred, rfl, assemble_call.mpr ⟨[tree], _, _, ?_, hkind, hinferred, rfl⟩,
          TExpr.ty_new _ _ _, ?_⟩
      · rw [lower_toFloat, lowered]
        rfl
      · exact lowerExpr_call.mpr ⟨_, lowerArgs_cons.mpr ⟨hir, [], c.lowered, rfl, rfl⟩, rfl⟩
      · exact assembleArgs_cons.mpr ⟨tree, [], c.assembled, rfl, rfl⟩
      · exact (c.means.int.bind fun value _ => agree_intConversion .toFloat value _ _).map _

/-! ## `div_*` -/

variable {function : IntDivisionFn}

theorem intDivisionOperandRule_eq_ok {operand : Operand B}
    (h : (intDivisionOperandRule function operand : Except (SemanticError B U) Unit) = .ok ()) :
    operand.ty = .int := by
  unfold intDivisionOperandRule at h
  split_ifs at h with hint
  exact hint

theorem infer_intDivision {dividend divisor : HirExpr F U} :
    infer units (.call span ⟨.intDivision function, calleeSpan⟩ [dividend, divisor]) = .ok type ↔
      infer units dividend = .ok .int ∧ infer units divisor = .ok .int ∧ type = .int := by
  have hinfer : infer units (.call span ⟨.intDivision function, calleeSpan⟩ [dividend, divisor]) =
      (do
        let type ← infer units dividend
        intDivisionOperandRule function ⟨type, dividend.span⟩
        let type ← infer units divisor
        intDivisionOperandRule function ⟨type, divisor.span⟩
        return .int) := rfl
  rw [hinfer, bind_eq_ok]
  constructor
  · rintro ⟨dividendType, hdividend, h⟩
    obtain ⟨u, hdividendRule, h⟩ := bind_eq_ok.mp h
    obtain ⟨divisorType, hdivisor, h⟩ := bind_eq_ok.mp h
    obtain ⟨u, hdivisorRule, h⟩ := bind_eq_ok.mp h
    cases h
    have hdividendInt : dividendType = .int := intDivisionOperandRule_eq_ok hdividendRule
    have hdivisorInt : divisorType = .int := intDivisionOperandRule_eq_ok hdivisorRule
    exact ⟨hdividendInt ▸ hdividend, hdivisorInt ▸ hdivisor, rfl⟩
  · rintro ⟨hdividend, hdivisor, rfl⟩
    refine ⟨.int, hdividend, ?_⟩
    rw [hdivisor]
    rfl

omit [Binary64Ops F] in
theorem builtinCall_intDivision {l r : TExpr F B U}
    (h : builtinCall (.intDivision function) [l, r] = some kind) :
    kind = .int (.division function l r) := by
  unfold builtinCall at h
  dsimp only at h
  split at h
  · exact (Option.some.inj h).symm
  · cases h

/-- What a checked division was checked from. -/
theorem rejected_of_division {dividend divisor : Expr F U}
    (h : ∀ l r lTree rTree, lowerExpr units dividend = .ok l → lowerExpr units divisor = .ok r →
      infer units l = .ok .int → infer units r = .ok .int → assemble units l = .ok lTree →
      assemble units r = .ok rTree → ∀ ty,
        Fails (eval units dynamicScale (.int span ty (.division function lTree rTree)))) :
    Rejected units dynamicScale
      (.call span ⟨.intDivision function, calleeSpan⟩ [dividend, divisor]) := by
  intro hir type tree hhir htype htree
  obtain ⟨hirs, hhirs, rfl⟩ := lowerExpr_call.mp hhir
  obtain ⟨l, divisorHirs, hl, hdivisorHirs, rfl⟩ := lowerArgs_cons.mp hhirs
  obtain ⟨r, rest, hr, hrest, rfl⟩ := lowerArgs_cons.mp hdivisorHirs
  cases hrest
  obtain ⟨hlType, hrType, -⟩ := infer_intDivision.mp htype
  obtain ⟨trees, kind, ty, htrees, hkind, -, rfl⟩ := assemble_call.mp htree
  obtain ⟨lTree, divisorTrees, hlTree, hdivisorTrees, rfl⟩ := assembleArgs_cons.mp htrees
  obtain ⟨rTree, rest, hrTree, hrest, rfl⟩ := assembleArgs_cons.mp hdivisorTrees
  cases hrest
  cases builtinCall_intDivision hkind
  exact h l r lTree rTree hl hr hlType hrType hlTree hrTree ty

theorem lower_intDivision {dividend divisor : Expr F U} :
    position.lower (.call span ⟨.intDivision function, calleeSpan⟩ [dividend, divisor]) = (do
      let typed ← position.lower dividend
      let _ ← (intDivisionOperandRule function ⟨typed.checkedType, dividend.span⟩).mapError .type
      let l ← position.intArgument typed dividend.span
      let typed ← position.lower divisor
      let _ ← (intDivisionOperandRule function ⟨typed.checkedType, divisor.span⟩).mapError .type
      let r ← position.intArgument typed divisor.span
      return .int (.division span function l r)) := rfl

theorem alike_intDivision {dividend divisor : Expr F U}
    (hdividend : Alike units dynamicScale position dividend)
    (hdivisor : Alike units dynamicScale position divisor) :
    Alike units dynamicScale position
      (.call span ⟨.intDivision function, calleeSpan⟩ [dividend, divisor]) := by
  cases hdividend with
  | rejected failed rejected =>
    refine .rejected ?_ (rejected_of_division ?_)
    · rw [lower_intDivision]
      exact fails_bind _ failed
    · intro l r lTree rTree hl _ hlType _ hlTree _ ty
      exact fails_map _ (fails_bind _ (fails_bind _ (rejected _ _ _ hl hlType hlTree)))
  | accepted lt l lTree lLowered cl =>
    cases lt with
    | real x d =>
      refine .rejected ?_ (rejected_of_division ?_)
      · rw [lower_intDivision, lLowered]
        exact fails_error _
      · intro l' r lTree rTree hl _ hlType _ _ _ ty
        cases cl.lowered.symm.trans hl
        exact nomatch cl.inferred.symm.trans hlType
    | int a =>
      have hlower : position.lower
          (.call span ⟨.intDivision function, calleeSpan⟩ [dividend, divisor]) = (do
            let typed ← position.lower divisor
            let _ ← (intDivisionOperandRule function
              ⟨typed.checkedType, divisor.span⟩).mapError .type
            let r ← position.intArgument typed divisor.span
            return .int (.division span function a r)) := by
        rw [lower_intDivision, lLowered]
        rfl
      cases hdivisor with
      | rejected failed rejected =>
        refine .rejected ?_ (rejected_of_division ?_)
        · rw [hlower]
          exact fails_bind _ failed
        · intro l r lTree rTree _ hr _ hrType _ hrTree ty
          have hfails := rejected _ _ _ hr hrType hrTree
          exact fails_map _ (fails_bind_of fun _ _ => fails_bind _ (fails_bind _ hfails))
      | accepted rt r rTree rLowered cr =>
        cases rt with
        | real y d =>
          refine .rejected ?_ (rejected_of_division ?_)
          · rw [hlower, rLowered]
            exact fails_error _
          · intro l r' lTree rTree _ hr _ hrType _ _ ty
            cases cr.lowered.symm.trans hr
            exact nomatch cr.inferred.symm.trans hrType
        | int b =>
          have hinferred : infer units
              (.call span ⟨.intDivision function, calleeSpan⟩ [l, r]) = .ok .int :=
            infer_intDivision.mpr ⟨cl.inferred, cr.inferred, rfl⟩
          have hkind : builtinCall (.intDivision function) [lTree, rTree] =
              some (.int (.division function lTree rTree)) := by
            rw [builtinCall, cl.means.ty, cr.means.ty]
            rfl
          refine .accepted (.int (.division span function a b))
            (.call span ⟨.intDivision function, calleeSpan⟩ [l, r]) _ ?_
            ⟨?_, rfl, hinferred, ?_,
              assemble_call.mpr ⟨[lTree, rTree], _, _, ?_, hkind, hinferred, rfl⟩,
              TExpr.ty_new _ _ _, agree_intDivision cl.means.int cr.means.int⟩
          · rw [hlower, rLowered]
            rfl
          · exact lowerExpr_call.mpr ⟨_, lowerArgs_cons.mpr ⟨l, [r], cl.lowered,
              lowerArgs_cons.mpr ⟨r, [], cr.lowered, rfl, rfl⟩, rfl⟩, rfl⟩
          · have hfold : tryConstInt
                (.call span ⟨.intDivision function, calleeSpan⟩ [l, r] : HirExpr F U) = (do
                  (divide function (← tryConstInt l) (← tryConstInt r)).toOption) := rfl
            rw [hfold, cl.folded, cr.folded]
            simp only [Typed.folded, ConstInt.evaluate, toOption_bind, toOption_mapError]
            rfl
          · exact assembleArgs_cons.mpr ⟨lTree, [rTree], cl.assembled,
              assembleArgs_cons.mpr ⟨rTree, [], cr.assembled, rfl, rfl⟩, rfl⟩

theorem length_lowerArgs (h : lowerArgs units args = .ok hirs) : hirs.length = args.length := by
  induction args generalizing hirs with
  | nil =>
    cases h
    rfl
  | cons arg args ih =>
    obtain ⟨hir, rest, -, hrest, rfl⟩ := lowerArgs_cons.mp h
    rw [List.length_cons, List.length_cons, ih hrest]

theorem infer_wrongArity {args : List (HirExpr F U)} (h : args.length ≠ callee.function.arity) :
    infer units (.call span callee args) =
      .error (.wrongArity callee.span callee.function callee.function.arity args.length) := by
  obtain ⟨function, calleeSpan⟩ := callee
  cases function with
  | toFloat =>
    match args, h with
    | [], _ => rfl
    | [_], h => exact absurd rfl h
    | _ :: _ :: _, _ => rfl
  | intDivision function =>
    match args, h with
    | [], _ => rfl
    | [_], _ => rfl
    | [_, _], h => exact absurd rfl h
    | _ :: _ :: _ :: _, _ => rfl

theorem lower_wrongArity (h : args.length ≠ callee.function.arity) :
    position.lower (.call span callee args) =
      .error (.type (.wrongArity callee.span callee.function callee.function.arity
        args.length)) := by
  obtain ⟨function, calleeSpan⟩ := callee
  cases function with
  | toFloat =>
    match args, h with
    | [], _ => rfl
    | [_], h => exact absurd rfl h
    | _ :: _ :: _, _ => rfl
  | intDivision function =>
    match args, h with
    | [], _ => rfl
    | [_], _ => rfl
    | [_, _], h => exact absurd rfl h
    | _ :: _ :: _ :: _, _ => rfl

theorem alike_wrongArity (h : args.length ≠ callee.function.arity) :
    Alike units dynamicScale position (.call span callee args) := by
  refine .rejected ?_ ?_
  · rw [lower_wrongArity h]
    exact fails_error _
  · intro hir type tree hhir htype _
    obtain ⟨hirs, hhirs, rfl⟩ := lowerExpr_call.mp hhir
    rw [infer_wrongArity (by rwa [length_lowerArgs hhirs])] at htype
    cases htype

theorem alike_call (hargs : ∀ arg ∈ args, Alike units dynamicScale position arg) :
    Alike units dynamicScale position (.call span callee args) := by
  by_cases harity : args.length = callee.function.arity
  · obtain ⟨function, calleeSpan⟩ := callee
    cases function with
    | toFloat =>
      obtain ⟨arg, rfl⟩ := List.length_eq_one_iff.mp harity
      exact alike_toFloat (hargs arg List.mem_cons_self)
    | intDivision function =>
      obtain ⟨dividend, divisor, rfl⟩ := List.length_eq_two.mp harity
      exact alike_intDivision (hargs dividend (by simp)) (hargs divisor (by simp))
  · exact alike_wrongArity harity

end ProvenGraphcal.Constant
