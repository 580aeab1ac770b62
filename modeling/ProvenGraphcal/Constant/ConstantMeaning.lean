import ProvenGraphcal.Constant.CallAgreement

/-!
# Constant positions mean what node bodies mean
-/

namespace ProvenGraphcal.Constant

open Agreement
open Host (I64)
open Checked (bind_eq_ok mapError_eq_ok map_eq_ok)

variable {F B U Q : Type} [Binary64Ops F] [LinearOrder B]
  {units : U → Option (UnitInfo F B)}
  {dynamicScale : U → PositiveFiniteScale F → Span →
    Except (RuntimeError F U) (PositiveFiniteScale F)}
  {position : Lowering F B U Q}

attribute [local simp] Expr.units Expr.Parsed Expr.WithoutUnits

/-- The position resolves the quantity literals of the expression as bodies do. -/
def ResolvesUnits (units : U → Option (UnitInfo F B)) (position : Lowering F B U Q)
    (expr : Expr F U) : Prop :=
  AdmitsUnits units position ∧ UnitsStatic units expr.units ∨ expr.WithoutUnits

theorem UnitsStatic.mono {names names' : List U} (h : UnitsStatic units names)
    (hsub : names' ⊆ names) : UnitsStatic units names' :=
  fun name hname => h name (hsub hname)

theorem ResolvesUnits.binOp {span : Span} {op : BinOp} {lhs rhs : Expr F U}
    (h : ResolvesUnits units position (.binOp span op lhs rhs)) :
    ResolvesUnits units position lhs ∧ ResolvesUnits units position rhs := by
  rcases h with ⟨hadmits, hstatic⟩ | hwithout
  · rw [Expr.units] at hstatic
    exact ⟨.inl ⟨hadmits, hstatic.mono (List.subset_append_left _ _)⟩,
      .inl ⟨hadmits, hstatic.mono (List.subset_append_right _ _)⟩⟩
  · rw [Expr.WithoutUnits] at hwithout
    exact ⟨.inr hwithout.1, .inr hwithout.2⟩

theorem ResolvesUnits.call {span : Span} {callee : Callee} {args : List (Expr F U)}
    (h : ResolvesUnits units position (.call span callee args)) {arg : Expr F U}
    (harg : arg ∈ args) : ResolvesUnits units position arg := by
  rcases h with ⟨hadmits, hstatic⟩ | hwithout
  · rw [Expr.units] at hstatic
    refine .inl ⟨hadmits, hstatic.mono ?_⟩
    intro name hname
    exact List.mem_flatMap.mpr ⟨arg, harg, hname⟩
  · rw [Expr.WithoutUnits] at hwithout
    exact .inr (hwithout arg harg)

variable {expr : Expr F U}

theorem alike (hparsed : expr.Parsed) (hunits : ResolvesUnits units position expr) :
    Alike units dynamicScale position expr := by
  induction expr using Expr.induction with
  | number span value => exact alike_number span value
  | integer span value => exact alike_integer span value
  | constant span constant => exact alike_constant span constant
  | quantityLiteral span value unit =>
    rw [Expr.Parsed] at hparsed
    rcases hunits with ⟨hadmits, hstatic⟩ | hwithout
    · rw [Expr.units] at hstatic
      exact alike_quantityLiteral hadmits hparsed hstatic
    · rw [Expr.WithoutUnits] at hwithout
      exact hwithout.elim
  | neg span operand ih =>
    rw [Expr.Parsed] at hparsed
    rw [ResolvesUnits, Expr.units, Expr.WithoutUnits] at hunits
    exact alike_neg (ih hparsed hunits)
  | binOp span op lhs rhs ihl ihr =>
    rw [Expr.Parsed] at hparsed
    have hl := ihl hparsed.1 hunits.binOp.1
    by_cases hexact : ∃ exponent, op = .pow (.exact exponent)
    · obtain ⟨exponent, rfl⟩ := hexact
      exact alike_exactPower hl
    · exact alike_binOp (fun exponent hop => hexact ⟨exponent, hop⟩) hparsed.2.2 hl
        (ihr hparsed.2.1 hunits.binOp.2)
  | call span callee args ih =>
    rw [Expr.Parsed] at hparsed
    exact alike_call fun arg harg => ih arg harg (hparsed arg harg) (hunits.call harg)

/-- The type and the value of a constant. -/
def Lowering.value (position : Lowering F B U Q) (expr : Expr F U) :
    Except (ConstLowerError F B U) (CheckedType B × RuntimeValue F) := do
  let typed ← position.lower expr
  let value ← typed.value.mapError .expr
  return (typed.checkedType, value)

theorem checkBody_of_corresponds {typed : Typed F B U Q} {hir : HirExpr F U} {tree : TExpr F B U}
    (h : Corresponds units dynamicScale expr typed hir tree) :
    checkBody units expr = .ok (typed.checkedType, tree) := by
  rw [checkBody, h.lowered]
  show (do
    let type ← (infer units hir).mapError NodeError.type
    let tree ← (assemble units hir).mapError NodeError.assembly
    return (type, tree)) = _
  rw [h.inferred, h.assembled]
  rfl

theorem fails_nodeValue (h : Rejected units dynamicScale expr) :
    Fails (nodeValue units dynamicScale expr) := by
  apply fails_bind_of
  rintro ⟨type, tree⟩ hbody
  obtain ⟨hir, hlower, hbody⟩ := bind_eq_ok.mp hbody
  obtain ⟨type, htype, hbody⟩ := bind_eq_ok.mp hbody
  obtain ⟨tree, htree, hbody⟩ := bind_eq_ok.mp hbody
  cases hbody
  have hfails := h hir type tree (mapError_eq_ok.mp hlower)
    (mapError_eq_ok.mp htype) (mapError_eq_ok.mp htree)
  exact fails_bind _ ((agree_mapError _ _).symm.fails hfails)

theorem Alike.agree (h : Alike units dynamicScale position expr) :
    Agree (position.value expr) (nodeValue units dynamicScale expr) := by
  cases h with
  | accepted typed hir tree lowered c =>
    rw [Lowering.value, lowered, nodeValue, checkBody_of_corresponds c]
    have hvalue : Agree (typed.value.mapError (ConstLowerError.expr (B := B)))
        ((eval units dynamicScale tree).mapError (NodeError.runtime (B := B))) :=
      ((agree_mapError _ _).trans c.means.value).trans (agree_mapError _ _).symm
    exact hvalue.bind fun value _ => agree_ok _
  | rejected failed rejected =>
    exact agree_of_fails (fails_bind _ failed) (fails_nodeValue rejected)

theorem value_eq_ok {ty : CheckedType B} {v : RuntimeValue F} :
    position.value expr = .ok (ty, v) ↔
      ∃ typed, position.lower expr = .ok typed ∧ typed.checkedType = ty ∧ typed.value = .ok v := by
  rw [Lowering.value, bind_eq_ok]
  refine exists_congr fun typed => and_congr_right' ?_
  rw [bind_eq_ok]
  constructor
  · rintro ⟨w, hw, h⟩
    cases h
    exact ⟨rfl, mapError_eq_ok.mp hw⟩
  · rintro ⟨rfl, hv⟩
    exact ⟨v, mapError_eq_ok.mpr hv, rfl⟩

theorem value_eq_ok_int {n : I64} :
    position.value expr = .ok (.int, .int n) ↔ ∃ int, position.lower expr = .ok (.int int) ∧
      (int.evaluate : Except (ConstExprError F U) I64) = .ok n := by
  rw [value_eq_ok]
  constructor
  · rintro ⟨typed, hlower, hty, hvalue⟩
    obtain ⟨int, rfl⟩ := checkedType_eq_int hty
    obtain ⟨m, hm, h⟩ := map_eq_ok.mp hvalue
    cases h
    exact ⟨int, hlower, hm⟩
  · rintro ⟨int, hlower, hn⟩
    exact ⟨.int int, hlower, rfl, map_eq_ok.mpr ⟨n, hn, rfl⟩⟩

theorem value_eq_ok_quantity {d : Dimension B} {q : FiniteQuantity F} :
    position.value expr = .ok (.quantity d, .quantity q) ↔
      ∃ real, position.lower expr = .ok (.real real d) ∧ real.evaluate = .ok q := by
  rw [value_eq_ok]
  constructor
  · rintro ⟨typed, hlower, hty, hvalue⟩
    cases typed with
    | int int => cases hty
    | real real dimension =>
      cases hty
      obtain ⟨p, hp, h⟩ := map_eq_ok.mp hvalue
      cases h
      exact ⟨real, hlower, hp⟩
  · rintro ⟨real, hlower, hq⟩
    exact ⟨.real real d, hlower, rfl, map_eq_ok.mpr ⟨q, hq, rfl⟩⟩

/-! ## Positions -/

theorem lowerCoordinateExpr_eq_ok {coordinate : CoordinateExpr F B U} :
    lowerCoordinateExpr units expr = .ok coordinate ↔
      (coordinateLowering units).lower expr = .ok (.real coordinate.expr coordinate.dimension) := by
  rw [lowerCoordinateExpr, bind_eq_ok]
  constructor
  · rintro ⟨typed, hlower, h⟩
    cases typed with
    | int int => cases h
    | real real dimension =>
      cases h
      exact hlower
  · intro h
    exact ⟨_, h, rfl⟩

variable {unit : U}

theorem lowerUnitScale_eq_ok {scale : UnitScaleExpr F B U} :
    lowerUnitScale unit expr = .ok scale ↔
      (∃ int, unitScaleLowering.lower expr = .ok (.int int : Typed F B U Empty) ∧
        scale = .int int) ∨
      ∃ real d, unitScaleLowering.lower expr = .ok (.real real d) ∧ d.isDimensionless = true ∧
        scale = .real real := by
  rw [lowerUnitScale, bind_eq_ok]
  constructor
  · rintro ⟨typed, hlower, h⟩
    cases typed with
    | int int =>
      cases h
      exact .inl ⟨int, hlower, rfl⟩
    | real real d =>
      dsimp only at h
      split_ifs at h with hd
      cases h
      exact .inr ⟨real, d, hlower, hd, rfl⟩
  · rintro (⟨int, hlower, rfl⟩ | ⟨real, d, hlower, hd, rfl⟩)
    · exact ⟨_, hlower, rfl⟩
    · refine ⟨_, hlower, ?_⟩
      dsimp only
      rw [if_pos hd]
      rfl

theorem admitsUnits_coordinate : AdmitsUnits units (coordinateLowering units) :=
  ⟨⟨(), rfl⟩, rfl⟩

variable {int : ConstInt} {s : PositiveFiniteScale F}

/-- The scale of an `Int` is its exact binary64 value. -/
theorem UnitScaleExpr.evaluate_int :
    (UnitScaleExpr.int int : UnitScaleExpr F B U).evaluate = .ok s ↔
      ∃ n, (int.evaluate : Except (ConstExprError F U) I64) = .ok n ∧
        exactI64ToF64 n = .ok s.get := by
  rw [UnitScaleExpr.evaluate, bind_eq_ok]
  refine exists_congr fun n => and_congr_right' ?_
  rw [bind_eq_ok]
  constructor
  · rintro ⟨q, hq, hs⟩
    rw [← new_eq_ok.mp (mapError_eq_ok.mp hs)]
    exact fromExactInt_eq_ok.mp (mapError_eq_ok.mp hq)
  · intro h
    exact ⟨⟨s.get, s.finite⟩, mapError_eq_ok.mpr (fromExactInt_eq_ok.mpr h),
      mapError_eq_ok.mpr (new_eq_ok.mpr rfl)⟩

variable {real : ConstReal F B U Empty}

theorem UnitScaleExpr.evaluate_real :
    (UnitScaleExpr.real real).evaluate = .ok s ↔
      ∃ q, real.evaluate = .ok q ∧ q.get = s.get := by
  rw [UnitScaleExpr.evaluate, bind_eq_ok]
  refine exists_congr fun q => and_congr_right' ?_
  rw [mapError_eq_ok, new_eq_ok]

theorem lowerUnitScale_int :
    lowerUnitScale unit expr = .ok (.int int : UnitScaleExpr F B U) ↔
      unitScaleLowering.lower expr = .ok (.int int : Typed F B U Empty) := by
  rw [lowerUnitScale_eq_ok]
  constructor
  · rintro (⟨int', hlower, h⟩ | ⟨real, d, -, -, h⟩)
    · cases h
      exact hlower
    · cases h
  · intro hlower
    exact .inl ⟨int, hlower, rfl⟩

theorem lowerUnitScale_real :
    lowerUnitScale unit expr = .ok (.real real) ↔
      ∃ d, unitScaleLowering.lower expr = .ok (.real real d) ∧ d.isDimensionless = true := by
  rw [lowerUnitScale_eq_ok]
  constructor
  · rintro (⟨int', -, h⟩ | ⟨real, d, hlower, hd, h⟩)
    · cases h
    · cases h
      exact ⟨d, hlower, hd⟩
  · rintro ⟨d, hlower, hd⟩
    exact .inr ⟨real, d, hlower, hd, rfl⟩

variable (units dynamicScale)

/-- A unit scale that is an `Int` needs an exact binary64 value. -/
theorem constant_eq_nodeBody {expr : Expr F U} (hparsed : expr.Parsed) :
    (UnitsStatic units expr.units → ∀ d q,
      (∃ coordinate, lowerCoordinateExpr units expr = .ok coordinate ∧
        coordinate.dimension = d ∧ coordinate.evaluate = .ok q) ↔
      nodeValue units dynamicScale expr = .ok (.quantity d, .quantity q)) ∧
    (expr.WithoutUnits → ∀ unit : U,
      (∀ n, (∃ int, lowerUnitScale unit expr = .ok (.int int : UnitScaleExpr F B U) ∧
          (int.evaluate : Except (ConstExprError F U) I64) = .ok n) ↔
        nodeValue units dynamicScale expr = .ok (.int, .int n)) ∧
      (∀ q, (∃ real : ConstReal F B U Empty, lowerUnitScale unit expr = .ok (.real real) ∧
          real.evaluate = .ok q) ↔
        ∃ d, d.isDimensionless = true ∧
          nodeValue units dynamicScale expr = .ok (.quantity d, .quantity q)) ∧
      ∀ s, (∃ scale : UnitScaleExpr F B U, lowerUnitScale unit expr = .ok scale ∧
          scale.evaluate = .ok s) ↔
        (∃ n, nodeValue units dynamicScale expr = .ok (.int, .int n) ∧
          exactI64ToF64 n = .ok s.get) ∨
        ∃ d q, d.isDimensionless = true ∧
          nodeValue units dynamicScale expr = .ok (.quantity d, .quantity q) ∧
          q.get = s.get) := by
  constructor
  · intro hstatic d q
    have h : Alike units dynamicScale (coordinateLowering units) expr :=
      alike hparsed (.inl ⟨admitsUnits_coordinate, hstatic⟩)
    rw [← h.agree (.quantity d, .quantity q), value_eq_ok_quantity]
    constructor
    · rintro ⟨coordinate, hlower, rfl, hq⟩
      exact ⟨coordinate.expr, lowerCoordinateExpr_eq_ok.mp hlower, hq⟩
    · rintro ⟨real, hlower, hq⟩
      exact ⟨⟨real, d⟩, lowerCoordinateExpr_eq_ok.mpr hlower, rfl, hq⟩
  · intro hwithout unit
    have h : Alike units dynamicScale (unitScaleLowering : Lowering F B U Empty) expr :=
      alike hparsed (.inr hwithout)
    have hint : ∀ n, (∃ int, lowerUnitScale unit expr = .ok (.int int : UnitScaleExpr F B U) ∧
        (int.evaluate : Except (ConstExprError F U) I64) = .ok n) ↔
          nodeValue units dynamicScale expr = .ok (.int, .int n) := by
      intro n
      rw [← h.agree (.int, .int n), value_eq_ok_int]
      exact exists_congr fun int => and_congr_left' lowerUnitScale_int
    have hreal : ∀ q, (∃ real : ConstReal F B U Empty,
        lowerUnitScale unit expr = .ok (.real real) ∧ real.evaluate = .ok q) ↔
          ∃ d, d.isDimensionless = true ∧
            nodeValue units dynamicScale expr = .ok (.quantity d, .quantity q) := by
      intro q
      constructor
      · rintro ⟨real, hlower, hq⟩
        obtain ⟨d, hlower, hd⟩ := lowerUnitScale_real.mp hlower
        exact ⟨d, hd, (h.agree _).mp (value_eq_ok_quantity.mpr ⟨real, hlower, hq⟩)⟩
      · rintro ⟨d, hd, hnode⟩
        obtain ⟨real, hlower, hq⟩ := value_eq_ok_quantity.mp ((h.agree _).mpr hnode)
        exact ⟨real, lowerUnitScale_real.mpr ⟨d, hlower, hd⟩, hq⟩
    refine ⟨hint, hreal, ?_⟩
    intro s
    constructor
    · rintro ⟨scale, hlower, hs⟩
      cases scale with
      | int int =>
        obtain ⟨n, hn, hexact⟩ := UnitScaleExpr.evaluate_int.mp hs
        exact .inl ⟨n, (hint n).mp ⟨int, hlower, hn⟩, hexact⟩
      | real real =>
        obtain ⟨q, hq, hget⟩ := UnitScaleExpr.evaluate_real.mp hs
        obtain ⟨d, hd, hnode⟩ := (hreal q).mp ⟨real, hlower, hq⟩
        exact .inr ⟨d, q, hd, hnode, hget⟩
    · rintro (⟨n, hnode, hexact⟩ | ⟨d, q, hd, hnode, hget⟩)
      · obtain ⟨int, hlower, hn⟩ := (hint n).mpr hnode
        exact ⟨.int int, hlower, UnitScaleExpr.evaluate_int.mpr ⟨n, hn, hexact⟩⟩
      · obtain ⟨real, hlower, hq⟩ := (hreal q).mpr ⟨d, hd, hnode⟩
        exact ⟨.real real, hlower, UnitScaleExpr.evaluate_real.mpr ⟨q, hq, hget⟩⟩

/-- The binary64 operations on the integers, which round. -/
instance integerOps : Binary64Ops ℤ where
  isFinite _ := true
  isNan _ := false
  eqZero x := x == 0
  isNonNegative x := decide (0 ≤ x)
  isNonPositive x := decide (x ≤ 0)
  neg x := -x
  add x y := Binary64.roundInt (x + y)
  sub x y := Binary64.roundInt (x - y)
  mul x y := Binary64.roundInt (x * y)
  div x y := x / y
  powf x y := Binary64.roundInt (x ^ y.toNat)
  powi x n := Binary64.roundInt (x ^ n.toNat)
  ofInt := Binary64.roundInt
  toInt x := x
  constant
    | .pi => 3
    | .e => 3
    | .tau => 6
    | .sqrt2 => 1
    | .ln2 => 1
    | .ln10 => 2
  isFinite_neg _ _ := rfl
  isFinite_ofInt _ := rfl
  isPositive_one := by decide +kernel

def kilometre : UnitInfo ℤ ℕ := ⟨.base 0, .const ⟨1000, rfl, rfl⟩⟩

/-- `2 * 3.0 km` -/
def sixKilometres : Expr ℤ String :=
  .binOp ⟨0, 10⟩ .mul (.integer ⟨0, 1⟩ ⟨2, by decide⟩)
    (.quantityLiteral ⟨4, 6⟩ 3 ⟨[⟨.mul, "km", ⟨8, 2⟩, none⟩], ⟨8, 2⟩⟩)

/-- The units of a project that declares `km`. -/
def kilometres (name : String) : Option (UnitInfo ℤ ℕ) :=
  if name = "km" then some kilometre else none

theorem constant_eq_nodeBody_sixKilometres :
    ∃ coordinate, lowerCoordinateExpr kilometres sixKilometres = .ok coordinate ∧
      coordinate.dimension = .base 0 ∧ coordinate.evaluate = .ok ⟨6000, rfl⟩ := by
  have hparsed : sixKilometres.Parsed := by
    simp [sixKilometres, Expr.Parsed, Binary64Ops.isFinite]
  have hstatic : UnitsStatic kilometres sixKilometres.units := by
    intro name _ info hinfo
    unfold kilometres at hinfo
    split_ifs at hinfo
    cases hinfo
    exact nofun
  exact ((constant_eq_nodeBody kilometres (fun _ scale _ => .ok scale) hparsed).1 hstatic _ _).mpr
    (by rfl)

/-- `9007199254740993` -/
def oddScale : Expr ℤ String := .integer ⟨0, 16⟩ ⟨9007199254740993, by decide⟩

/-- The body is a positive `Int`, but no scale has its value. -/
theorem oddScale_rejected :
    (nodeValue kilometres (fun _ scale _ => .ok scale) oddScale =
      .ok (.int, .int ⟨9007199254740993, by decide⟩)) ∧
    ∃ scale : UnitScaleExpr ℤ ℕ String, lowerUnitScale "km" oddScale = .ok scale ∧
      scale.evaluate = .error (.intUnitScale ⟨⟨9007199254740993, by decide⟩⟩ ⟨0, 16⟩) :=
  ⟨rfl, _, rfl, by rfl⟩

end ProvenGraphcal.Constant
