import SealedStore.Curve.Named
import SealedStore.KeyFile.Algorithm
/-!
# Keys on a curve

A key on a curve holds a secret number and may hold its public half. Its curve
is named or spelled out, inside the key or outside of it; a curve that is named
both ways has to be the same, and one that nobody knows is refused by name.
-/

namespace SealedStore.KeyFile

/-- Why a text gives no private key. -/
inductive Refusal where
  | malformed
  | unknownCurve (id : Der.ObjectId)
  deriving DecidableEq

instance : MonadLift Option (Except Refusal) := ⟨fun o => o.elim (.error .malformed) .ok⟩

theorem liftM_eq_ok {α : Type} {o : Option α} {a : α} :
    (liftM o : Except Refusal α) = .ok a ↔ o = some a := by
  cases o <;> simp [liftM, monadLift, MonadLift.monadLift]

theorem bind_eq_ok {α β : Type} {x : Except Refusal α} {f : α → Except Refusal β} {b : β} :
    (x >>= f) = .ok b ↔ ∃ a, x = .ok a ∧ f a = .ok b := by
  cases x <;> simp [bind, Except.bind]

def require (holds : Bool) : Except Refusal Unit :=
  if holds then .ok () else .error .malformed

/-! ## Curves -/

def primeField : Der.ObjectId := [1, 2, 840, 10045, 1, 1]

def spelledCurves : List Curve := [Curve.secp256r1, Curve.secp384r1, Curve.secp521r1]

/-- Whether values spell out a curve: version, field, coefficients with or
without the seed they come from, base point, order, and the cofactor one. -/
def spells (values : List Der.Value) (c : Curve) : Bool :=
  match values, c.coordinates with
  | [version, field, coefficients, base, order, cofactor], .prime p =>
    let write := Bytes.ofNat c.coordinates.width
    let seedless := (coefficients.parts?.getD []).take 2
    let seed := (coefficients.parts?.getD []).drop 2
    version.nat? == some 1 && field.write == Der.sequence [Der.object primeField, Der.integer p] &&
      seedless.map Der.Value.octets? == [some (write c.a), some (write c.b)] &&
      (seed.isEmpty || (seed.length == 1 && seed.all (·.bits?.isSome))) &&
      base.octets? == some (4 :: write c.baseX ++ write c.baseY) &&
      order.nat? == some c.order && cofactor.nat? == some 1
  | _, _ => false

def readCurve (v : Der.Value) : Except Refusal Curve :=
  match v.object? with
  | some id => match Curve.ofName? id with
    | some c => .ok c
    | none => .error (.unknownCurve id)
  | none => liftM (v.parts?.bind fun values => spelledCurves.find? (spells values))

/-! ## Keys -/

/-- A key on a curve as it is read. -/
structure EllipticKey where
  secret : Nat
  curve : Option Der.Value
  point : Option Bytes

namespace EllipticKey

def takeInside? (tag : UInt8) : List Der.Value → Option (Option Der.Value × List Der.Value)
  | [] => some (none, [])
  | v :: rest => if v.tag = [tag] then (v.inside? tag).map (some ·, rest) else some (none, v :: rest)

/-- A version of one, the secret number, the curve, and the public half. -/
def ofDer? (der : Bytes) : Option EllipticKey := do
  match ← Der.readSequence? der with
  | version :: secret :: rest =>
    let secret ← secret.octets?
    let (curve, rest) ← takeInside? 0xa0 rest
    let (point, rest) ← takeInside? 0xa1 rest
    if version.nat? ≠ some 1 ∨ ¬rest.isEmpty then none
    else match point with
      | none => return ⟨Bytes.toNat secret, curve, none⟩
      | some point => return ⟨Bytes.toNat secret, curve, ← point.bits?⟩
  | _ => none

def curveValue? (outer : Option Der.Value) (k : EllipticKey) : Option Der.Value :=
  match outer, k.curve with
  | some v, some w => if v = w then some v else none
  | some v, none | none, some v => some v
  | none, none => none

def suits (k : EllipticKey) (c : Curve) : Bool :=
  (c.public? k.secret).any fun (x, y) => k.point.all (c.encodings x y).contains

end EllipticKey

/-- Checks a key on a curve that is told outside of the key, inside, or both. -/
def checkElliptic (outer : Option Der.Value) (der : Bytes) : Except Refusal Unit := do
  let key ← liftM (EllipticKey.ofDer? der)
  let curve ← readCurve (← liftM (key.curveValue? outer))
  require (key.suits curve)

end SealedStore.KeyFile
