import SimplyTyped.Context

/-!
# Type inference

`Expr.infer` computes the type of an expression from the types of its parts, and
`Expr.check` compares that type with a demanded one. Parts are visited from left
to right and the first failure wins. Where a type is demanded of a part, the part
is inferred first and compared afterwards, so a failure inside it comes before a
mismatch of the whole.

`Expr.judge` separates the verdict on a program from the discovery that it is no
program: a rejection becomes a result, an unknown node stays a failure.
-/

namespace SimplyTyped

/-- The type of a variable; an unbound one is rejected at the variable itself. -/
def Context.resolve (Γ : Context) (name : String) : Except Failure Ty :=
  (Γ.lookup name).mapError fun rejection => .rejected (rejection.locatedAt (.var name))

namespace Expr

/-- Demands that an expression of type `actual` has type `expected`. -/
def demand (e : Expr) (expected actual : Ty) : Except Failure Unit :=
  if expected.same actual then .ok ()
  else .error (.rejected ⟨.mismatch expected actual, some e⟩)

/-- Demands that an expression has a function type, and takes that type apart. -/
def demandArrow (e : Expr) : Ty → Except Failure (Ty × Ty)
  | .arrow param result => .ok (param, result)
  | actual => .error (.rejected ⟨.notFunction actual, some e⟩)

def infer : Context → Expr → Except Failure Ty
  | _, num _ => .ok .number
  | _, bool _ => .ok .boolean
  | Γ, var name => Γ.resolve name
  | Γ, letIn name value body => do
    let valueType ← value.infer Γ
    body.infer (Γ.insert name valueType)
  | Γ, binary op left right => do
    let leftType ← left.infer Γ
    let operandType := op.operandType?.getD leftType
    left.demand operandType leftType
    right.infer Γ >>= right.demand operandType
    return op.resultType
  | Γ, cond condition thenBranch elseBranch => do
    condition.infer Γ >>= condition.demand .boolean
    let type ← thenBranch.infer Γ
    elseBranch.infer Γ >>= elseBranch.demand type
    return type
  | Γ, lam param paramType body => do
    let bodyType ← body.infer (Γ.insert param paramType)
    return .arrow paramType bodyType
  | Γ, app function argument => do
    let (param, result) ← function.infer Γ >>= function.demandArrow
    argument.infer Γ >>= argument.demand param
    return result
  | Γ, letRec name param paramType returnType definition body => do
    let Δ := Γ.insert name (.arrow paramType returnType)
    definition.infer (Δ.insert param paramType) >>= definition.demand returnType
    body.infer Δ
  | _, foreign kind => .error (.unknown ⟨kind⟩)

def check (Γ : Context) (e : Expr) (expected : Ty) : Except Failure Unit :=
  e.infer Γ >>= e.demand expected

/-- The verdict on an expression: its type, or why it is rejected. -/
def judge (Γ : Context) (e : Expr) : Except UnknownNode (Except Rejection Ty) :=
  match e.infer Γ with
  | .ok type => .ok (.ok type)
  | .error (.rejected rejection) => .ok (.error rejection)
  | .error (.unknown node) => .error node

end Expr

/-- Binds a name to the type of an expression. -/
def Context.insertInferred (Γ : Context) (name : String) (e : Expr) : Except Failure Context :=
  (e.infer Γ).map fun type => Γ.insert name type

end SimplyTyped
